import BerylDB.DueEntries
import BerylDB.FutureReload

/-! # Deadlines as they are given

The six commands that give a key a deadline read a text, and the time they make of it goes through 32 unsigned bits
into a row and through a `signed int` into a table. -/
namespace BerylDB.Store
open Text QueryBase Kernel Transition

/-! ## The handlers -/

def checkValid (number : Bytes) : Bool := isNumber number false
def checkValidPos (number : Bytes) : Bool := isNumber number false && number.all isDigit

/-- The integer that a text of an optional sign and digits stands for. -/
def numberValue (s : Bytes) : ℤ :=
  if (readDigits s).1 then -(digitsValue (readDigits s).2 : ℤ) else digitsValue (readDigits s).2

section
variable (now : ℕ) (db : Bytes) (select : ℕ) (key text value : Bytes)

/-- The handlers that add seconds to the clock, behind the check of the key; `query->id` is an `unsigned int`. -/
def afterSeconds (cls : QueryClass) (value : Bytes) : Option Request :=
  if keyValidator key && checkValidPos text then
    some { cls, database := db, key, select, value, id := (now + convtoUnsigned text) % 2 ^ 32 }
  else none

/-- The handlers that take an epoch, which must not be past. -/
def atEpoch (cls : QueryClass) (check : Bytes → Bool) (value : Bytes) : Option Request :=
  if keyValidator key && check text then
    if convtoUnsigned text < now then none
    else some { cls, database := db, key, select, value, id := convtoUnsigned text }
  else none

def commandExpire : Option Request := afterSeconds now db select key text .expire []
def commandSetex : Option Request := afterSeconds now db select key text .setex (stripe value)
def commandGetExp : Option Request := afterSeconds now db select key text .getexp []
def commandFuture : Option Request := afterSeconds now db select key text .future (stripe value)
def commandExpireAT : Option Request := atEpoch now db select key text .expireat checkValidPos []
def commandFutureAT : Option Request := atEpoch now db select key text .future checkValid (stripe value)

end

inductive DeadlineCommand where
  | expire | setex | getexp | future | expireat | futset
deriving DecidableEq

namespace DeadlineCommand

def handle (now : ℕ) (db : Bytes) (select : ℕ) (key text value : Bytes) : DeadlineCommand → Option Request
  | expire => commandExpire now db select key text
  | setex => commandSetex now db select key text value
  | getexp => commandGetExp now db select key text
  | future => commandFuture now db select key text value
  | expireat => commandExpireAT now db select key text
  | futset => commandFutureAT now db select key text value

/-- The time that the text asks for. -/
def given (now : ℕ) (text : Bytes) : DeadlineCommand → ℤ
  | expire | setex | getexp | future => now + numberValue text
  | expireat | futset => numberValue text

end DeadlineCommand

/-! ## Numbers -/

theorem numberValue_nonneg {s : Bytes} (digits : s.all isDigit = true) : 0 ≤ numberValue s := by
  have read : readDigits s = (false, s) := readDigits_digits (List.all_eq_true.mp digits)
  rw [numberValue, read]
  exact Int.natCast_nonneg _

/-- The conversion to `unsigned int` is right for the numbers that fit. -/
theorem convtoUnsigned_eq {s : Bytes} (low : 0 ≤ numberValue s) (high : numberValue s < 2 ^ 32) :
    (convtoUnsigned s : ℤ) = numberValue s := by
  unfold numberValue at *
  unfold convtoUnsigned
  cases read : readDigits s with
  | mk negative digits =>
    rw [read] at low high
    dsimp only at *
    by_cases empty : digits = []
    · subst empty
      cases negative <;> simp [digitsValue]
    · cases negative with
      | false =>
        have small : ¬ (digits = [] ∨ 2 ^ 32 ≤ digitsValue digits) := by
          simp only [Bool.false_eq_true, if_false] at high
          rintro (none | large)
          · exact empty none
          · omega
        simp only [if_neg small, Bool.false_eq_true, if_false]
      | true =>
        simp only [if_true] at low ⊢
        have zero : digitsValue digits = 0 := by omega
        simp [zero, empty]

section
variable {c : DeadlineCommand} {now select : ℕ} {db key text value : Bytes} {r : Request}

/-- The time of an accepted command is the one that was asked for if that is one of 31 bits. -/
structure Handled (c : DeadlineCommand) (r : Request) (db : Bytes) (select : ℕ) (key : Bytes) (v : ℤ) : Prop where
  name : r.name = (db, key, select)
  valid : keyValidator key = true
  fits : r.id < 2 ^ 32
  cls : r.cls = match c with
    | .expire => .expire
    | .setex => .setex
    | .getexp => .getexp
    | .future | .futset => .future
    | .expireat => .expireat
  exact : 0 ≤ v → v < 2 ^ 31 → (r.id : ℤ) = v

theorem handle_some (handled : c.handle now db select key text value = some r) :
    Handled c r db select key (c.given now text) := by
  have seconds {cls : QueryClass} {value : Bytes} (h : afterSeconds now db select key text cls value = some r) :
      r.name = (db, key, select) ∧ keyValidator key = true ∧ r.id < 2 ^ 32 ∧ r.cls = cls ∧
        (0 ≤ now + numberValue text → now + numberValue text < 2 ^ 31 → (r.id : ℤ) = now + numberValue text) := by
    simp only [afterSeconds, Option.ite_none_right_eq_some, Bool.and_eq_true, Option.some.injEq] at h
    obtain ⟨⟨valid, check⟩, rfl⟩ := h
    refine ⟨rfl, valid, Nat.mod_lt _ (by norm_num), rfl, fun low high => ?_⟩
    have digits : text.all isDigit = true := (Bool.and_eq_true_iff.mp check).2
    have positive := numberValue_nonneg digits
    have number := convtoUnsigned_eq positive (by omega)
    have small : now + convtoUnsigned text < 2 ^ 32 := by omega
    dsimp only
    rw [Nat.mod_eq_of_lt small]
    omega
  have epoch {cls : QueryClass} {check : Bytes → Bool} {value : Bytes}
      (h : atEpoch now db select key text cls check value = some r) :
      r.name = (db, key, select) ∧ keyValidator key = true ∧ r.id < 2 ^ 32 ∧ r.cls = cls ∧
        (0 ≤ numberValue text → numberValue text < 2 ^ 31 → (r.id : ℤ) = numberValue text) := by
    simp only [atEpoch, Option.ite_none_right_eq_some, Bool.and_eq_true, Option.ite_none_left_eq_some,
      Option.some.injEq] at h
    obtain ⟨⟨valid, -⟩, -, rfl⟩ := h
    exact ⟨rfl, valid, convtoUnsigned_lt text, rfl, fun low high => convtoUnsigned_eq low (by omega)⟩
  cases c with
  | expire | setex | getexp | future =>
    obtain ⟨name, valid, fits, cls, exact⟩ := seconds handled
    exact ⟨name, valid, fits, cls, exact⟩
  | expireat | futset =>
    obtain ⟨name, valid, fits, cls, exact⟩ := epoch handled
    exact ⟨name, valid, fits, cls, exact⟩

end

/-! ## Running and refused queries -/

/-- The key is a KEY, or it is absent and the query may create it. -/
def Request.Runs (r : Request) (k : Kernel) : Prop :=
  k.Opened r.database ∧
    (r.registered k = some intKey ∨ r.registered k = none ∧ r.cls.queryType ∈ [QueryType.write, .future])

section
variable {P : Platform} {k : Kernel} {r : Request}

theorem deadline_refused (cls : r.cls ∈ [.expire, .setex, .getexp, .expireat, .future]) (refused : ¬ r.Runs k) :
    (k.reply P r).finished = false ∧ k.execute P r = k := by
  unfold Kernel.reply Kernel.execute
  by_cases opened : k.Opened r.database
  · cases registered : r.registered k with
    | none =>
      have kind : r.cls.queryType ∈ [QueryType.read, .lat, .long, .expire, .delete] := by
        by_contra other
        refine refused ⟨opened, .inr ⟨registered, ?_⟩⟩
        revert cls other
        cases r.cls <;> decide
      obtain ⟨same, -, unfinished⟩ := prepare_missing (P := P) opened registered kind
      exact ⟨unfinished, same⟩
    | some type =>
      have other : type ≠ intKey := fun own => refused ⟨opened, .inl (own ▸ registered)⟩
      have own : r.cls.baseRequest = some intKey := by
        revert cls
        cases r.cls <;> decide
      by_cases looks : r.cls.queryType ∈ [QueryType.future, .expire]
      · rw [prepare_looked opened registered looks own, if_neg other]
        exact ⟨rfl, rfl⟩
      · have loads : r.cls.queryType ∈ [QueryType.write, .read, .lat, .long, .readAllow, .iter] := by
          revert cls looks
          cases r.cls <;> decide
        rw [prepare_loaded opened registered loads own, if_neg other]
        exact ⟨rfl, rfl⟩
  · rw [prepare_closing opened]
    exact ⟨rfl, rfl⟩

/-- What the bodies of the four commands do: the expiry row is written, and `ExpireManager::Add` called. -/
def WritesExpire (k : Kernel) (r : Request) (after : Kernel) : Prop :=
  ∃ k' : Kernel, k'.expires = k.expires ∧
    k'.get r.database (expireRow r.key r.select r.database) = some (convtoString r.id) ∧
    after = k'.addExpire r.database (toSigned r.id) r.key r.select true

section
variable {q : QueryBase} (writable : k.Writable)
include writable

theorem writesExpire_single (own : q.database = r.database) :
    WritesExpire k r (q.writeExpire k r.key r.select r.id r.database) := by
  rw [writeExpire_updates writable, own]
  refine ⟨k.update (.put r.database (expireRow r.key r.select r.database) (convtoString r.id)), expires_put _ _ _,
    ?_, ?_⟩
  · rw [get_update_put writable, if_pos ⟨rfl, rfl⟩]
  · rw [updates_cons, updates_cons, updates_nil, update_schedule]

theorem writesExpire_batch (own : q.database = r.database) (value : Bytes) :
    WritesExpire k r (q.expireBatch k (r.row intKey) value r.key r.select r.id) := by
  rw [expireBatch_updates writable, own, updates_cons, updates_cons, updates_cons, updates_nil, update_schedule]
  have marked : (k.update (.put r.database (expireRow r.key r.select r.database) (convtoString r.id))).Writable :=
    writable.update _
  refine ⟨_, (expires_put _ _ _).trans (expires_put _ _ _), ?_, rfl⟩
  rw [get_update_put marked, if_neg fun h => expireRow_ne_intKey h.2, get_update_put writable, if_pos ⟨rfl, rfl⟩]

theorem expire_runs (cls : r.cls ∈ [.expire, .setex, .getexp, .expireat]) (runs : r.Runs k) :
    (k.reply P r).finished = true ∧ WritesExpire k r (k.execute P r) := by
  obtain ⟨opened, registered⟩ := runs
  unfold Kernel.reply Kernel.execute
  simp only [List.mem_cons, List.not_mem_nil, or_false] at cls
  rcases registered with registered | ⟨absent, creates⟩
  · rcases cls with cls | cls | cls | cls
    · rw [cls, prepare_looked opened registered (by decide) rfl, if_pos rfl]
      exact ⟨rfl, writesExpire_single writable rfl⟩
    all_goals rw [cls, prepare_loaded opened registered (by decide) rfl, if_pos rfl]
    · exact ⟨rfl, writesExpire_batch writable rfl _⟩
    · exact ⟨rfl, writesExpire_single writable rfl⟩
    · exact ⟨rfl, writesExpire_single writable rfl⟩
  · have own : r.cls = .setex := by
      rcases cls with cls | cls | cls | cls
      case inr.inl => exact cls
      all_goals
        rw [cls] at creates
        exact absurd creates (by decide)
    rw [own, prepare_fresh opened absent rfl rfl]
    exact ⟨rfl, writesExpire_batch writable rfl _⟩

/-- FUTURE and FUTSET write the row and call `FutureManager::Add`. -/
theorem future_runs (cls : r.cls = .future) (runs : r.Runs k) : (k.reply P r).finished = true ∧
    ∃ k' : Kernel, k'.futures = k.futures ∧
      k'.get r.database (futureRow r.key r.select r.database) = some (convtoString r.id ++ 58 :: r.value) ∧
      k.execute P r = k'.addFuture r.database (toSigned r.id) r.key r.select true := by
  obtain ⟨opened, registered⟩ := runs
  have written (q : QueryBase) (own : q.database = r.database) :
      q.writeFuture k r.key r.select r.id r.value = (k.update (.put r.database (futureRow r.key r.select r.database)
        (convtoString r.id ++ 58 :: r.value))).addFuture r.database (toSigned r.id) r.key r.select true := by
    rw [writeFuture_updates writable, own, updates_cons, updates_cons, updates_nil, update_plan]
  have row : (k.update (.put r.database (futureRow r.key r.select r.database) (convtoString r.id ++ 58 :: r.value))).get
      r.database (futureRow r.key r.select r.database) = some (convtoString r.id ++ 58 :: r.value) := by
    rw [get_update_put writable, if_pos ⟨rfl, rfl⟩]
  unfold Kernel.reply Kernel.execute
  rcases registered with registered | ⟨absent, -⟩
  · rw [cls, prepare_looked opened registered (by decide) rfl, if_pos rfl]
    exact ⟨rfl, _, futures_write _ _, row, written _ rfl⟩
  · rw [cls, prepare_absent opened absent (by decide)]
    exact ⟨rfl, _, futures_write _ _, row, written _ rfl⟩

end

end

/-! ## The table of futures in the order of its times -/

/-- The entries of `FutureManager` in the order of their times, which a `signed int` holds. -/
structure FuturesInOrder (futures : List FutureEntry) : Prop where
  sorted : Timetable.Sorted FutureEntry.schedule futures
  range : ∀ e ∈ futures, 0 ≤ e.schedule ∧ e.schedule < 2 ^ 31

theorem FuturesInOrder.sublist {futures futures' : List FutureEntry} (h : FuturesInOrder futures)
    (fewer : futures'.Sublist futures) : FuturesInOrder futures' where
  sorted := h.sorted.sublist fewer
  range e he := h.range e (fewer.mem he)

/-- What `FutureManager::Add` leaves of a name. -/
def Kernel.leftoverFuture (k : Kernel) (name : Name) : Option ℤ :=
  (if 0 < k.futureTime name.1 name.2.1 name.2.2 then k.deleteFuture name.1 name.2.1 name.2.2 else k).moment name

section
variable {k : Kernel} {db key : Bytes} {select : ℕ} {t : ℤ}

theorem addFuture_late (low : 0 ≤ t) : k.addFuture db t key select true =
    { k with
      futures := Timetable.add FutureEntry.schedule ⟨db, key, select, t, []⟩
        (if 0 < k.futureTime db key select then k.deleteFuture db key select else k).futures } := by
  rw [addFuture, if_neg (not_lt.mpr low)]
  split <;> rfl

theorem FuturesInOrder.cleared (h : FuturesInOrder k.futures) :
    FuturesInOrder (if 0 < k.futureTime db key select then k.deleteFuture db key select else k).futures := by
  split
  · exact h.sublist List.eraseP_sublist
  · exact h

theorem FuturesInOrder.add (h : FuturesInOrder k.futures) (high : t < 2 ^ 31) :
    FuturesInOrder (k.addFuture db t key select true).futures := by
  by_cases low : 0 ≤ t
  · rw [addFuture_late low]
    refine ⟨h.cleared.sorted.add, fun e he => ?_⟩
    rcases Timetable.mem_add.mp he with rfl | he
    · exact ⟨low, high⟩
    · exact h.cleared.range e he
  · rw [addFuture, if_pos (not_le.mp low)]
    exact h

theorem FuturesInOrder.update (h : FuturesInOrder k.futures) (u : Update)
    (fits : ∀ db time key select, u = .plan db time key select → time < 2 ^ 31) :
    FuturesInOrder (k.update u).futures := by
  cases u with
  | put db row value => exact (futures_write db _).symm ▸ h
  | erase db row => exact (futures_write db _).symm ▸ h
  | schedule db time key select =>
    rw [update_schedule, futures_addExpire]
    exact h
  | cancel db key select => exact h
  | plan db time key select =>
    rw [update_plan]
    exact h.add (fits db time key select rfl)
  | unplan db key select => exact h.sublist List.eraseP_sublist
  | close db => exact h.sublist List.filter_sublist

theorem FuturesInOrder.updates (h : FuturesInOrder k.futures) (us : List Update)
    (fits : ∀ db time key select, .plan db time key select ∈ us → time < 2 ^ 31) :
    FuturesInOrder (k.updates us).futures := by
  induction us generalizing k with
  | nil => exact (updates_nil k).symm ▸ h
  | cons u us ih =>
    rw [updates_cons]
    refine ih (h.update u fun db time key select same => ?_) fun db time key select later => ?_
    · exact fits db time key select (same ▸ List.mem_cons_self)
    · exact fits db time key select (List.mem_cons_of_mem _ later)

/-- The future gets the new time if and only if `Add` leaves none that is earlier. -/
theorem FuturesInOrder.moment_plan (h : FuturesInOrder k.futures) (low : 0 ≤ t) :
    (k.addFuture db t key select true).moment (db, key, select) = some t ↔
      ∀ d ∈ k.leftoverFuture (db, key, select), t ≤ d := by
  have sorted : Timetable.Sorted FutureEntry.schedule
      (if 0 < k.futureTime db key select then k.deleteFuture db key select else k).futures := h.cleared.sorted
  have first (e : FutureEntry) : (Timetable.lookup FutureEntry.name e.name (Timetable.add FutureEntry.schedule e _)).map
      FutureEntry.schedule = some e.schedule ↔ _ := Timetable.time_add_self sorted
  rw [addFuture_late low]
  refine (first ⟨db, key, select, t, []⟩).trans ?_
  simp only [Kernel.leftoverFuture, Kernel.moment, FutureEntry.name, Option.mem_def, Option.map_eq_some_iff,
    forall_exists_index, and_imp, forall_apply_eq_imp_iff₂]

end

/-- Every request plans a time that went through a `signed int`. -/
theorem Outcome.plans {P : Platform} {k : Kernel} {r : Request} {us : List Update} (outcome : Outcome P k r us)
    {db key : Bytes} {time : ℤ} {select : ℕ} (planned : .plan db time key select ∈ us) : time < 2 ^ 31 := by
  cases outcome with
  | wiped cls => simp [wipe] at planned
  | flushed cls => simp at planned
  | near cls => simp at planned
  | planned cls =>
    simp only [List.mem_cons, List.not_mem_nil, or_false, reduceCtorEq, false_or, Update.plan.injEq] at planned
    rw [planned.2.1]
    exact toSigned_lt _
  | _ => simp at planned

theorem reachable_futuresInOrder {P : Platform} {s : Server} (reach : (Server.machine P).Reachable s) :
    FuturesInOrder s.kernel.futures := by
  refine (Server.invariant (I := fun k => FuturesInOrder k.futures) reach ?_ ?_ ?_).2
  · intro s initial
    rw [initial.futures]
    exact ⟨.nil, by simp⟩
  · exact fun k time h => h
  · intro s a r us _ h _ _ _ outcome
    exact h.updates us fun db time key select planned => outcome.plans planned

/-! ## The three schedules -/

/-- The memory after a restart, before any row is read. -/
def Kernel.rebooted (k : Kernel) : Kernel := .startup k.rows true k.now

/-- `expire_list_query` finds its database in the name of an expiry row. -/
def Readable (db : Bytes) : Prop := (colonTokens db)[0]?.all (· == db) = true

instance (db : Bytes) : Decidable (Readable db) := inferInstanceAs (Decidable (_ = true))

/-- Table, row and the table loaded from the row give the key the deadline `v`. -/
structure ExpiresExactly (k : Kernel) (r : Request) (v : ℤ) : Prop where
  memory : k.deadline r.database r.key r.select = some v
  row : ∃ n : ℕ, (n : ℤ) = v ∧ k.get r.database (expireRow r.key r.select r.database) = some (convtoString n)
  reloaded : ∀ text ∈ k.get r.database (expireRow r.key r.select r.database),
    (Run.expireListRow (expireList r.database).plain k.rebooted
      (expireRow r.key r.select r.database, text)).deadline r.database r.key r.select = some v

/-- The same for the time of a future, whose row also holds the value. -/
structure FallsExactly (k : Kernel) (r : Request) (v : ℤ) : Prop where
  memory : k.moment r.name = some v
  row : ∃ n : ℕ, (n : ℤ) = v ∧
    k.get r.database (futureRow r.key r.select r.database) = some (convtoString n ++ 58 :: r.value)
  reloaded : ∀ text ∈ k.get r.database (futureRow r.key r.select r.database),
    (Run.futureListRow (listFutures r.database).plain k.rebooted
      (futureRow r.key r.select r.database, text)).moment r.name = some v

section
variable {k k' : Kernel} {r : Request} {v : ℤ}

theorem decodeExpire_text {db key : Bytes} {select n : ℕ} (key_ne : key ≠ []) (bound : select < 2 ^ 32)
    (small : n < 2 ^ 31) :
    decodeExpire db (expireRow key select db) (convtoString n) =
      if Readable db then some (key, select, (n : ℤ)) else none := by
  have expiry : Run.isExpireRow db (colonTokens (expireRow key select db)) = (colonTokens db)[0]?.all (· == db) := by
    rw [expireRow, colonTokens_keyRow _ _ key_ne, colonTokens_ownedType db (by decide) (by decide)]
    simp [Run.isExpireRow]
  have number : convtoSigned (convtoString n) = n := by rw [convtoSigned_convtoString, if_pos small]
  by_cases readable : Readable db
  · have found : (colonTokens db)[0]?.all (· == db) = true := readable
    rw [decodeExpire, expiry, if_pos readable, if_pos found, expireRow, colonTokens_keyRow _ _ key_ne]
    simp [convtoUnsigned_convtoString bound, number]
  · have missed : ¬ (colonTokens db)[0]?.all (· == db) = true := readable
    rw [decodeExpire, expiry, if_neg readable, if_neg missed]

/-- One expiry row, read into an empty table. -/
theorem reloaded_deadline {db key : Bytes} {select n : ℕ} (key_ne : key ≠ []) (bound : select < 2 ^ 32)
    (small : n < 2 ^ 31) :
    (Run.expireListRow (expireList db).plain k.rebooted
      (expireRow key select db, convtoString n)).deadline db key select =
      if Readable db then some (n : ℤ) else none := by
  have own : (expireList db).plain.database = db := rfl
  have empty : InOrder k.rebooted.expires := ⟨.nil, by simp [Kernel.rebooted, Kernel.startup]⟩
  rw [expireListRow_eq rfl, own, decodeExpire_text key_ne bound small]
  by_cases readable : Readable db
  · rw [if_pos readable, if_pos readable]
    refine (empty.deadline_schedule (Int.natCast_nonneg n)).mpr fun d held => ?_
    simp [Kernel.leftover, Kernel.expireTime, Kernel.deadline, deadlineOf, Kernel.rebooted, Kernel.startup,
      Timetable.lookup] at held
  · rw [if_neg readable, if_neg readable]
    rfl

theorem reloaded_moment {db key value : Bytes} {select n : ℕ} (key_ne : key ≠ []) (bound : select < 2 ^ 32)
    (small : n < 2 ^ 31) :
    (Run.futureListRow (listFutures db).plain k.rebooted
      (futureRow key select db, convtoString n ++ 58 :: value)).moment (db, key, select) = some (n : ℤ) := by
  have own : (listFutures db).plain.database = db := rfl
  have empty : FuturesInOrder k.rebooted.futures := ⟨.nil, by simp [Kernel.rebooted, Kernel.startup]⟩
  rw [futureListRow_eq rfl, own, decodeFuture_futureRow key_ne bound, if_pos small]
  refine (empty.moment_plan (Int.natCast_nonneg n)).mpr fun d held => ?_
  simp [Kernel.leftoverFuture, Kernel.futureTime, Kernel.moment, Kernel.rebooted, Kernel.startup,
    Timetable.lookup] at held

/-- The deadline is `v` everywhere if and only if the number that was written is `v`, it fits a `signed int`, and no
earlier entry stays in the table. -/
theorem expires_exactly_iff (ordered : InOrder k.expires) (key_ne : r.key ≠ []) (bound : r.select < 2 ^ 32)
    (fits : r.id < 2 ^ 32) (written : WritesExpire k r k') : ExpiresExactly k' r v ↔
      (r.id : ℤ) = v ∧ r.id < 2 ^ 31 ∧ (∀ d ∈ k.leftover r.database r.key r.select, v ≤ d) ∧ Readable r.database := by
  obtain ⟨k₁, same, row, after⟩ := written
  have ordered₁ : InOrder k₁.expires := same ▸ ordered
  have kept : k'.get = k₁.get := after ▸ get_addExpire _ _ _ _
  constructor
  · rintro ⟨memory, ⟨n, value, held⟩, reloaded⟩
    rw [kept, row] at held
    obtain rfl : r.id = n := convtoString_injective (Option.some.inj held)
    have small : r.id < 2 ^ 31 := by
      by_contra large
      rw [after, addExpire, if_pos (toSigned_high (not_lt.mp large) fits)] at memory
      obtain ⟨e, found, time⟩ := Option.map_eq_some_iff.mp memory
      have range := ordered₁.range e (Timetable.lookup_some found).1
      omega
    refine ⟨value, small, ?_, ?_⟩
    · rw [after, toSigned_id small, value] at memory
      exact leftover_congr same ▸ (ordered₁.deadline_schedule (value ▸ Int.natCast_nonneg _)).mp memory
    · have read := reloaded (convtoString r.id) (kept ▸ row)
      rw [reloaded_deadline key_ne bound small] at read
      by_contra unreadable
      rw [if_neg unreadable] at read
      cases read
  · rintro ⟨rfl, small, earliest, readable⟩
    refine ⟨?_, ⟨r.id, rfl, kept ▸ row⟩, fun text held => ?_⟩
    · rw [after, toSigned_id small]
      exact (ordered₁.deadline_schedule (Int.natCast_nonneg _)).mpr (leftover_congr same ▸ earliest)
    · rw [kept, row] at held
      cases held
      rw [reloaded_deadline key_ne bound small, if_pos readable]

theorem leftoverFuture_congr (same : k'.futures = k.futures) : k'.leftoverFuture = k.leftoverFuture := by
  funext name
  have time : k'.futureTime name.1 name.2.1 name.2.2 = k.futureTime name.1 name.2.1 name.2.2 := by
    rw [Kernel.futureTime, Kernel.futureTime, same]
  unfold Kernel.leftoverFuture
  rw [time]
  split <;> simp only [Kernel.moment, Kernel.deleteFuture, same]

theorem falls_exactly_iff {k₁ : Kernel} (ordered : FuturesInOrder k.futures) (key_ne : r.key ≠ [])
    (bound : r.select < 2 ^ 32)
    (fits : r.id < 2 ^ 32) (same : k₁.futures = k.futures)
    (row : k₁.get r.database (futureRow r.key r.select r.database) = some (convtoString r.id ++ 58 :: r.value))
    (after : k' = k₁.addFuture r.database (toSigned r.id) r.key r.select true) : FallsExactly k' r v ↔
      (r.id : ℤ) = v ∧ r.id < 2 ^ 31 ∧ ∀ d ∈ k.leftoverFuture r.name, v ≤ d := by
  have ordered₁ : FuturesInOrder k₁.futures := same ▸ ordered
  have kept : k'.get = k₁.get := by
    unfold Kernel.get Kernel.rows
    rw [after, databases_addFuture]
  constructor
  · rintro ⟨memory, ⟨n, value, held⟩, -⟩
    rw [kept, row] at held
    obtain rfl : r.id = n := convtoString_injective (List.append_cancel_right (Option.some.inj held))
    have small : r.id < 2 ^ 31 := by
      by_contra large
      rw [after, addFuture, if_pos (toSigned_high (not_lt.mp large) fits)] at memory
      obtain ⟨e, found, time⟩ := Option.map_eq_some_iff.mp memory
      have range := ordered₁.range e (Timetable.lookup_some found).1
      omega
    refine ⟨value, small, ?_⟩
    rw [after, toSigned_id small, value] at memory
    exact leftoverFuture_congr same ▸ (ordered₁.moment_plan (value ▸ Int.natCast_nonneg _)).mp memory
  · rintro ⟨rfl, small, earliest⟩
    refine ⟨?_, ⟨r.id, rfl, kept ▸ row⟩, fun text held => ?_⟩
    · rw [after, toSigned_id small]
      exact (ordered₁.moment_plan (Int.natCast_nonneg _)).mpr (leftoverFuture_congr same ▸ earliest)
    · rw [kept, row] at held
      cases held
      exact reloaded_moment key_ne bound small

end

/-- The command is refused and changes nothing, or table, row and the table after a restart have the deadline `v`. -/
def DeadlineExact (P : Platform) (k : Kernel) (r : Request) (v : ℤ) : Prop :=
  (k.reply P r).finished = false ∧ k.execute P r = k ∨
    if r.cls = .future then FallsExactly (k.execute P r) r v else ExpiresExactly (k.execute P r) r v

/-- The deadline fits a `signed int`, and `Add` leaves no earlier one of the key. -/
def Request.Fits (r : Request) (k : Kernel) (v : ℤ) : Prop :=
  0 ≤ v ∧ v < 2 ^ 31 ∧
    if r.cls = .future then ∀ d ∈ k.leftoverFuture r.name, v ≤ d
    else (∀ d ∈ k.leftover r.database r.key r.select, v ≤ d) ∧ Readable r.database

/-- A deadline is exact if and only if the query does not run, or the deadline fits. -/
theorem deadline_exact_iff {P : Platform} {s : Server} {c : DeadlineCommand} {now select : ℕ}
    {db key text value : Bytes}
    {r : Request} (reach : (Server.machine P).Reachable s) (bound : select < 2 ^ 32)
    (handled : c.handle now db select key text value = some r) :
    DeadlineExact P s.kernel r (c.given now text) ↔ ¬ r.Runs s.kernel ∨ r.Fits s.kernel (c.given now text) := by
  obtain ⟨writable, ordered⟩ := reachable_inOrder reach
  obtain ⟨name, valid, fits, cls, exact⟩ := handle_some handled
  obtain ⟨-, rfl, rfl⟩ : r.database = db ∧ r.key = key ∧ r.select = select := by simpa [Request.name] using name
  have key_ne : r.key ≠ [] := by
    intro empty
    simp [empty, keyValidator] at valid
  have number : (r.id : ℤ) = c.given now text ∧ r.id < 2 ^ 31 ↔ 0 ≤ c.given now text ∧ c.given now text < 2 ^ 31 := by
    constructor
    · omega
    · rintro ⟨low, high⟩
      have same := exact low high
      omega
  by_cases runs : r.Runs s.kernel
  · have finished : (s.kernel.reply P r).finished = true → (DeadlineExact P s.kernel r (c.given now text) ↔
        if r.cls = .future then FallsExactly (s.kernel.execute P r) r (c.given now text)
        else ExpiresExactly (s.kernel.execute P r) r (c.given now text)) := fun ok =>
      or_iff_right fun refused => by simp [ok] at refused
    rw [or_iff_right (not_not.mpr runs), Request.Fits]
    by_cases future : r.cls = .future
    · obtain ⟨ok, k₁, same, row, after⟩ := future_runs writable future runs (P := P)
      rw [finished ok, if_pos future, if_pos future,
        falls_exactly_iff (reachable_futuresInOrder reach) key_ne bound fits same row after, ← and_assoc, number, and_assoc]
    · have kind : r.cls ∈ [.expire, .setex, .getexp, .expireat] := by
        rw [cls] at future ⊢
        cases c <;> first | decide | exact absurd rfl future
      obtain ⟨ok, written⟩ := expire_runs writable kind runs (P := P)
      rw [finished ok, if_neg future, if_neg future, expires_exactly_iff ordered key_ne bound fits written,
        ← and_assoc, number,
        and_assoc]
  · have kind : r.cls ∈ [.expire, .setex, .getexp, .expireat, .future] := by
      rw [cls]
      cases c <;> decide
    exact iff_of_true (.inl (deadline_refused kind runs)) (.inl runs)

/-- SETEX of the key `k` in the first select of the database `db`, on the empty store. -/
theorem setex_five_exact : ∃ r, commandSetex 0 (lit "db") 1 (lit "k") (lit "5") [34, 118, 34] = some r ∧
    r.Runs Server.fresh.kernel ∧ DeadlineExact Server.integers Server.fresh.kernel r 5 := by
  have handled : DeadlineCommand.setex.handle 0 (lit "db") 1 (lit "k") (lit "5") [34, 118, 34] = some
      { inDb .setex (lit "k") (lit "v") with id := 5 } := by decide
  have exact_iff := deadline_exact_iff (P := Server.integers) (.initial Server.fresh_initial) (by decide) handled
  have nothing : Server.fresh.kernel.leftover (lit "db") (lit "k") 1 = none := by decide
  refine ⟨_, handled, ⟨rfl, .inr ⟨by decide, by decide⟩⟩, exact_iff.mpr (.inr ⟨by decide, by decide, ?_⟩)⟩
  exact ⟨fun d held => (nomatch nothing.symm.trans held), by decide⟩

/-- A deadline of 32 bits is stored in the row, and `Add` does not take it. -/
theorem setex_large_dropped : ∃ r, commandSetex 0 (lit "db") 1 (lit "k") (lit "3000000000") [34, 118, 34] = some r ∧
    (Server.machine Server.integers).Reachable Server.fresh ∧
    (Server.fresh.kernel.execute Server.integers r).get (lit "db") (expireRow (lit "k") 1 (lit "db")) =
      some (lit "3000000000") ∧
    ¬ DeadlineExact Server.integers Server.fresh.kernel r 3000000000 := by
  refine ⟨{ inDb .setex (lit "k") (lit "v") with id := 3000000000 }, by decide, .initial Server.fresh_initial,
    by decide, ?_⟩
  rintro (refused | exactly)
  · exact absurd refused.1 (by decide)
  · exact absurd exactly.memory (by decide)

end BerylDB.Store
