import BerylDB.FutureTable

/-! # Futures are applied once, and not early

The server with the exec queries that `FutureManager::Flush` pushes.  What was registered and what was applied is
logged beside it; the logs say nothing that the server reads. -/
namespace BerylDB.Store
open Text Transition Kernel

/-- The entries that `FutureManager::Flush(TIME)` pushes an exec query for. -/
def Kernel.dueFutures (k : Kernel) (time : ℤ) : List FutureEntry := k.futures.takeWhile fun e => e.schedule < time

/-- `GlobalHelper::FutureExecute`. -/
def FutureEntry.futureExecute (e : FutureEntry) : Request where
  cls := .futureExec
  database := e.database
  key := e.key
  select := e.select
  flags := .quiet

/-- The key is free or holds a KEY row, so FUTURE and EXEC get through to `Run`. -/
def Request.Entered (r : Request) (k : Kernel) : Prop :=
  k.Opened r.database ∧ (r.registered k = none ∨ r.registered k = some intKey)

/-- FUTURE and FUTSET that write a future. -/
def Request.Registers (r : Request) (k : Kernel) : Prop := r.cls = .future ∧ r.Entered k

/-- EXEC, or an exec query of the timer, that finds a future. -/
def Request.Applies (r : Request) (k : Kernel) : Prop :=
  r.cls = .futureExec ∧ r.Entered k ∧ (k.get r.database (futureRow r.key r.select r.database)).isSome

instance (r : Request) (k : Kernel) : Decidable (r.Entered k) := by
  unfold Request.Entered Kernel.Opened
  infer_instance

instance (r : Request) (k : Kernel) : Decidable (r.Registers k) := by
  unfold Request.Registers
  infer_instance

instance (r : Request) (k : Kernel) : Decidable (r.Applies k) := by
  unfold Request.Applies
  infer_instance

/-- One registration: its number among all of them, its time and its value. -/
structure Plan where
  number : ℕ
  time : ℕ
  value : Bytes
deriving DecidableEq

/-- One application: the registration it is of, whether the timer asked for it, when, and what the KEY row then holds. -/
structure Application where
  plan : Option Plan
  timer : Bool
  now : ℤ
  written : Option Bytes
deriving DecidableEq

/-- The row of a registration, as `WriteFuture` writes it. -/
def Plan.row (p : Plan) : Bytes := convtoString p.time ++ 58 :: p.value

/-- `waiting` holds the entries whose exec queries were pushed and did not run yet. -/
structure Agenda where
  server : Server
  waiting : List FutureEntry
  count : ℕ
  plans : Name → Option Plan
  applied : List Application

inductive Act where
  | server (e : Event)
  | execute (e : FutureEntry)

namespace Agenda

def kernel (s : Agenda) : Kernel := s.server.kernel

/-- What a request of a client, or of the timer, adds to the logs. -/
def record (s : Agenda) (r : Request) (timer : Bool) (server : Server) (waiting : List FutureEntry) : Agenda :=
  if r.Registers s.kernel then
    { server, waiting, applied := s.applied
      count := s.count + 1
      plans := Function.update s.plans r.name (some ⟨s.count, r.id, r.value⟩) }
  else if r.Applies s.kernel then
    { server, waiting, count := s.count, plans := s.plans
      applied := s.applied ++
        [⟨s.plans r.name, timer, s.kernel.now, server.kernel.get r.database (r.row intKey)⟩] }
  else { s with server, waiting }

def next (P : Platform) (s : Agenda) : Act → Option Agenda
  | .server e =>
    (Server.next P s.server e).map fun server =>
      match e with
      | .request r => s.record r false server s.waiting
      | .tick time => { s with server, waiting := s.waiting ++ s.kernel.dueFutures time }
      | .expire _ => { s with server }
  | .execute e =>
    if e ∈ s.waiting then
      some (s.record e.futureExecute true { s.server with kernel := s.kernel.execute P e.futureExecute }
        (s.waiting.erase e))
    else none

structure Initial (s : Agenda) : Prop where
  server : Server.Initial s.server
  waiting : s.waiting = []
  plans : s.plans = fun _ => none
  applied : s.applied = []

def machine (P : Platform) : Machine Agenda Act := ⟨Initial, next P⟩

/-- An exec query of the name waits. -/
def Waiting (s : Agenda) (name : Name) : Prop := ∃ e ∈ s.waiting, e.name = name

instance (s : Agenda) (name : Name) : Decidable (s.Waiting name) := by
  unfold Waiting
  infer_instance

/-- What was applied was registered, at most once, and by the timer only behind its time. -/
structure OnTime (s : Agenda) : Prop where
  registered : ∀ a ∈ s.applied, ∃ p, a.plan = some p ∧ a.written = some (toBin p.value) ∧
    (a.timer = true → (p.time : ℤ) < a.now)
  once : (s.applied.map fun a => a.plan.map Plan.number).Nodup

end Agenda

section
variable {P : Platform} {k : Kernel} {r : Request} {us : List Update}

/-- Behind its registry check, FUTURE and EXEC run with the members of the request. -/
theorem execute_entered (kind : r.cls = .future ∨ r.cls = .futureExec) (entered : r.Entered k) :
    ∃ q : QueryBase, q.database = r.database ∧ q.key = r.key ∧ q.select = r.select ∧ q.id = r.id ∧ q.value = r.value ∧
      k.execute P r = (QueryBase.run P r.cls k q).1 := by
  obtain ⟨opened, registered⟩ := entered
  have loads : r.cls.baseRequest = some intKey := by rcases kind with cls | cls <;> simp [cls, QueryClass.baseRequest]
  unfold Kernel.execute QueryBase.prepare
  rw [if_neg (by simpa [Kernel.Opened] using opened)]
  rcases registered with absent | present
  · have loaded : r.plain.getRegistry k r.select r.key true = _ := getRegistry_none true absent
    have looked : r.plain.getRegistry k r.select r.key false = _ := getRegistry_none false absent
    refine ⟨r.absent, rfl, rfl, rfl, rfl, rfl, ?_⟩
    change (QueryBase.dispatch P r.cls k r.plain).1 = _
    unfold QueryBase.dispatch
    rw [show r.plain.select = r.select from rfl, show r.plain.key = r.key from rfl, loaded, looked]
    rcases kind with cls | cls <;> simp [cls, QueryClass.queryType] <;> rfl
  · have loaded : r.plain.getRegistry k r.select r.key true = _ := getRegistry_some true present
    have looked : r.plain.getRegistry k r.select r.key false = _ := getRegistry_some false present
    refine ⟨r.found intKey none, rfl, rfl, rfl, rfl, rfl, ?_⟩
    change (QueryBase.dispatch P r.cls k r.plain).1 = _
    unfold QueryBase.dispatch
    rw [show r.plain.select = r.select from rfl, show r.plain.key = r.key from rfl, loaded, looked, loads]
    rcases kind with cls | cls <;> simp [cls, QueryClass.queryType] <;> rfl

/-- FUTURE on a key of another type does nothing. -/
theorem execute_refused (cls : r.cls = .future) (refused : ¬ r.Entered k) : k.execute P r = k := by
  unfold Kernel.execute QueryBase.prepare
  split
  · rfl
  · rename_i opened
    have opened : k.Opened r.database := by simpa [Kernel.Opened] using opened
    cases registered : r.registered k with
    | none => exact absurd ⟨opened, .inl registered⟩ refused
    | some type =>
      have other : type ≠ intKey := fun same => refused ⟨opened, .inr (same ▸ registered)⟩
      have loaded : r.plain.getRegistry k r.select r.key true = _ := getRegistry_some true registered
      have looked : r.plain.getRegistry k r.select r.key false = _ := getRegistry_some false registered
      change (QueryBase.dispatch P r.cls k r.plain).1 = _
      unfold QueryBase.dispatch
      rw [show r.plain.select = r.select from rfl, show r.plain.key = r.key from rfl, loaded, looked]
      simp [cls, QueryClass.queryType, QueryClass.baseRequest, other]

theorem execute_registers (h : k.Writable) (registers : r.Registers k) :
    k.execute P r = k.updates [.put r.database (futureRow r.key r.select r.database) (convtoString r.id ++ 58 :: r.value),
      .plan r.database (toSigned r.id) r.key r.select] := by
  obtain ⟨cls, entered⟩ := registers
  obtain ⟨q, database, key, select, id, value, ran⟩ := execute_entered (P := P) (.inl cls) entered
  rw [ran, cls, ← database, ← key, ← select, ← id, ← value]
  exact writeFuture_updates h _ _ _ _ _

theorem execute_applies (h : k.Writable) (applies : r.Applies k) :
    ∃ row, k.get r.database (futureRow r.key r.select r.database) = some row ∧
      k.execute P r = k.updates [.put r.database (r.row intKey) (toBin (cutAt 58 row).2),
        .unplan r.database r.key r.select, .erase r.database (futureRow r.key r.select r.database)] := by
  obtain ⟨cls, entered, here⟩ := applies
  obtain ⟨row, held⟩ := Option.isSome_iff_exists.mp here
  obtain ⟨q, database, key, select, -, -, ran⟩ := execute_entered (P := P) (.inr cls) entered
  refine ⟨row, held, ?_⟩
  rw [ran, cls]
  change (Run.futureExec k q).1 = _
  unfold Run.futureExec
  rw [database, key, select, held]
  dsimp only
  rw [delFuture_updates, put_writable h, updates_cons k, Request.row]

/-- Rows of futures are put by FUTURE alone, and so are the entries. -/
theorem put_future {db db' key value : Bytes} {select : ℕ} (newSelect : r.NewSelect) (outcome : Outcome P k r us)
    (cls : r.cls ≠ .future) : .put db (futureRow key select db') value ∉ us := by
  have data {type : Bytes} (known : type ∈ typeRegs) (key' : Bytes) (select' : ℕ) :
      futureRow key select db' ≠ keyRow key' select' type := futureRow_ne_keyRow known
  have expiry (key' db'' : Bytes) (select' : ℕ) : futureRow key select db' ≠ expireRow key' select' db'' :=
    futureRow_ne_expireRow
  have text (moves : r.cls ∈ [.move, .clone]) : (58 : UInt8) ∉ r.value := colon_not_mem_digits (newSelect moves).1
  have moved {type : Bytes} (moves : r.cls ∈ [.move, .clone]) (known : type ∈ typeRegs) (key' : Bytes) :
      futureRow key select db' ≠ rowName key' r.value type := fun same =>
    ownedType_not_mem _ _ (((rowName_eq_keyRow (text moves)).mp same.symm).2.2 ▸ known)
  have movedExpiry (moves : r.cls ∈ [.move, .clone]) (key' db'' : Bytes) :
      futureRow key select db' ≠ rowName key' r.value (ownedType intExpire db'') := fun same =>
    ownedType_ne (by decide) (by decide) (by decide) ((rowName_eq_keyRow (text moves)).mp same.symm).2.2
  have key_known : intKey ∈ typeRegs := by decide
  cases outcome with
  | stored value writes place =>
    have known := place.elim (fun registered => (registered_some registered).1)
      fun fresh => mem_typeRegs_of_mem_dataTypes (baseRequest_mem fresh.2.2)
    simp [Request.row, data known]
  | stray value => simp [futureRow, keyRow, rowName]
  | planned same => exact absurd same cls
  | copiedNothing value =>
    have other : ownedType intFuture db' ≠ processNull := fun same => by
      have colon : (58 : UInt8) ∈ processNull := same ▸ (by simp [ownedType])
      exact absurd colon (by decide)
    simp [futureRow, keyRow_inj, other]
  | renamed _ registered => simp [data (registered_some registered).1]
  | copied _ registered => simp [data (registered_some registered).1]
  | moved moves registered => simp [moved (by simp [moves]) (registered_some registered).1]
  | cloned moves registered => simp [moved (by simp [moves]) (registered_some registered).1]
  | transferred _ registered => simp [Request.row, data (registered_some registered).1]
  | movedExpiring moves =>
    simp [moved (by simp [moves]) key_known, movedExpiry (by simp [moves])]
  | clonedExpiring moves => simp [moved (by simp [moves]) key_known, expiry]
  | wiped => simp [wipe]
  | _ => simp [Request.row, data key_known, expiry]

/-- A row that no update puts is there afterwards only as it was before. -/
theorem contents_kept {g : Contents} {db row value : Bytes} (unput : ∀ value, .put db row value ∉ us)
    (held : contents us g db row = some value) : g db row = some value := by
  induction us generalizing g with
  | nil => exact held
  | cons u us ih =>
    simp only [List.mem_cons, not_or] at unput
    have here := ih (fun value => (unput value).2) held
    cases u with
    | put db' row' value' =>
      have other : ¬ (db = db' ∧ row = row') := fun same => (unput value').1 (by rw [same.1, same.2])
      simpa [Update.contents, other] using here
    | erase db' row' =>
      by_cases same : db = db' ∧ row = row'
      · simp [Update.contents, same] at here
      · simpa [Update.contents, same] using here
    | _ => exact here

theorem plan_future {db key : Bytes} {time : ℤ} {select : ℕ} (outcome : Outcome P k r us) (cls : r.cls ≠ .future) :
    .plan db time key select ∉ us := by
  cases outcome with
  | planned same => exact absurd same cls
  | wiped => simp [wipe]
  | _ => simp

end

namespace Agenda

variable {P : Platform} {s t : Agenda}

/-- A future is registered for a past time, or for a name no exec query waits for, and the new entry takes the
place of the old one. -/
def RegistersOnTime (s : Agenda) : Act → Prop
  | .server (.request r) => r.Registers s.kernel →
      (s.Waiting r.name → (r.id : ℤ) < s.kernel.now) ∧ s.kernel.moment r.name ≠ some 0 ∧
        (2 ^ 31 ≤ r.id → s.kernel.moment r.name = none)
  | _ => True

instance (s : Agenda) (a : Act) : Decidable (s.RegistersOnTime a) := by
  unfold RegistersOnTime
  split <;> infer_instance

/-- What is known of the row of a future: it was registered, was not applied, and is not executed early. -/
structure Held (s : Agenda) (name : Name) (row : Bytes) (p : Plan) : Prop where
  plan : s.plans name = some p
  row : row = p.row
  unapplied : ∀ a ∈ s.applied, a.plan.map Plan.number ≠ some p.number
  moment : ∀ t, s.kernel.moment name = some t → (p.time : ℤ) ≤ t
  waiting : s.Waiting name → (p.time : ℤ) < s.kernel.now

structure Sound (s : Agenda) : Prop where
  writable : s.kernel.Writable
  timed : TimedFutures s.kernel.futures
  rows : ∀ name : Name, s.kernel.Opened name.1 → ∀ row,
    s.kernel.get name.1 (futureRow name.2.1 name.2.2 name.1) = some row → ∃ p, s.Held name row p
  numbers : ∀ name p, s.plans name = some p → p.number < s.count
  distinct : ∀ name name' p p', s.plans name = some p → s.plans name' = some p' → p.number = p'.number → name = name'
  old : ∀ a ∈ s.applied, ∀ p, a.plan = some p → p.number < s.count
  onTime : s.OnTime

/-- A step that brings no future: rows, entries and waiting queries may go. -/
theorem Sound.less (h : s.Sound) {server : Server} {waiting : List FutureEntry} (writable : server.kernel.Writable)
    (timed : TimedFutures server.kernel.futures) (opened : ∀ db, server.kernel.Opened db → s.kernel.Opened db)
    (rows : ∀ db key select row, server.kernel.get db (futureRow key select db) = some row →
      s.kernel.get db (futureRow key select db) = some row)
    (moments : ∀ name t, server.kernel.moment name = some t → s.kernel.moment name = some t)
    (now : server.kernel.now = s.kernel.now) (fewer : ∀ e ∈ waiting, e ∈ s.waiting) :
    Sound { s with server, waiting } where
  writable := writable
  timed := timed
  rows name here row held := by
    obtain ⟨p, known⟩ := h.rows name (opened _ here) row (rows _ _ _ _ held)
    refine ⟨p, known.plan, known.row, known.unapplied, fun t found => known.moment t (moments name t found), ?_⟩
    rintro ⟨e, he, same⟩
    exact lt_of_lt_of_eq (known.waiting ⟨e, fewer e he, same⟩) now.symm
  numbers := h.numbers
  distinct := h.distinct
  old := h.old
  onTime := ⟨h.onTime.registered, h.onTime.once⟩

theorem Sound.tick (h : s.Sound) {time : ℤ} (later : s.kernel.now ≤ time) {server : Server}
    (same : server.kernel = { s.kernel with now := time }) :
    Sound { s with server, waiting := s.waiting ++ s.kernel.dueFutures time } where
  writable := by
    unfold Agenda.kernel
    rw [same]
    exact h.writable
  timed := by
    unfold Agenda.kernel
    rw [same]
    exact h.timed
  rows name here row held := by
    unfold Agenda.kernel at here held
    rw [same] at here held
    obtain ⟨p, known⟩ := h.rows name here row held
    have moments : server.kernel.moment name = s.kernel.moment name := by rw [same]; rfl
    refine ⟨p, known.plan, known.row, known.unapplied, fun t found => known.moment t (moments ▸ found), ?_⟩
    rintro ⟨e, he, rfl⟩
    change (p.time : ℤ) < server.kernel.now
    rw [same]
    rcases List.mem_append.mp he with old | new
    · exact lt_of_lt_of_le (known.waiting ⟨e, old, rfl⟩) later
    · have entry := mem_futures h.timed ((List.takeWhile_sublist _).mem new)
      have due : e.schedule < time := by simpa using List.mem_takeWhile_imp new
      exact lt_of_le_of_lt (known.moment _ entry) due
  numbers := h.numbers
  distinct := h.distinct
  old := h.old
  onTime := ⟨h.onTime.registered, h.onTime.once⟩

/-- A request that registers nothing. -/
theorem Sound.unregistering (h : s.Sound) {r : Request} (client : r.Client) (newSelect : r.NewSelect)
    (quiet : ¬ r.Registers s.kernel) {waiting : List FutureEntry} (fewer : ∀ e ∈ waiting, e ∈ s.waiting)
    (expired : List ExpireEntry) :
    Sound { s with server := { kernel := s.kernel.execute P r, expired }, waiting } := by
  obtain same | ⟨here, us, outcome, updated⟩ := execute_outcome P h.writable client
  · refine h.less ?_ ?_ ?_ ?_ ?_ ?_ fewer <;> rw [same]
    exacts [h.writable, h.timed, fun _ => id, fun _ _ _ _ => id, fun _ _ => id]
  · by_cases cls : r.cls = .future
    · have refused : ¬ r.Entered s.kernel := fun entered => quiet ⟨cls, entered⟩
      have same := execute_refused (P := P) cls refused
      refine h.less ?_ ?_ ?_ ?_ ?_ ?_ fewer <;> rw [same]
      exacts [h.writable, h.timed, fun _ => id, fun _ _ _ _ => id, fun _ _ => id]
    · obtain ⟨timed, moments⟩ := moment_updates h.timed us fun _ _ _ _ => plan_future outcome cls
      refine h.less ?_ ?_ ?_ ?_ ?_ ?_ fewer <;> rw [updated]
      · exact h.writable.updates us
      · exact timed
      · exact fun db hdb => ((opened_updates h.writable us db).mp hdb).1
      · intro db key select row held
        rw [get_updates h.writable] at held
        exact contents_kept (fun value => put_future newSelect outcome cls) held
      · exact moments
      · exact now_updates us

theorem cutAt_row (p : Plan) : (cutAt 58 p.row).2 = p.value :=
  congrArg Prod.snd (cutAt_append p.value (colon_not_mem_convtoString p.time))

theorem futureRow_inj {key key' db db' : Bytes} {select select' : ℕ} :
    futureRow key select db = futureRow key' select' db' ↔ key = key' ∧ select = select' ∧ db = db' := by
  rw [futureRow, futureRow, keyRow_inj, ownedType_inj]

theorem Sound.registering (h : s.Sound) {r : Request} (registers : r.Registers s.kernel) (id : r.id < 2 ^ 32)
    (onTime : s.RegistersOnTime (.server (.request r))) {server : Server} (same : server.kernel = s.kernel.execute P r) :
    Sound { server, waiting := s.waiting, applied := s.applied, count := s.count + 1,
            plans := Function.update s.plans r.name (some ⟨s.count, r.id, r.value⟩) } := by
  obtain ⟨past, notZero, absent⟩ := onTime registers
  have updated := execute_registers (P := P) h.writable registers
  have put := moment_update h.timed (.put r.database (futureRow r.key r.select r.database)
    (convtoString r.id ++ 58 :: r.value)) trivial
  have plan := moment_update put.1 (.plan r.database (toSigned r.id) r.key r.select)
    ⟨toSigned_lt _, fun _ => by rw [put.2]; exact notZero⟩
  have moment (name : Name) : server.kernel.moment name =
      (Update.plan r.database (toSigned r.id) r.key r.select).moments s.kernel.moment name := by
    rw [same, updated, updates_cons, updates_cons, updates_nil, plan.2]
    simp only [Update.moments]
    split
    · rfl
    · exact put.2 name
  have now : server.kernel.now = s.kernel.now := by rw [same, updated, now_updates]
  have fresh (a : Application) (ha : a ∈ s.applied) : a.plan.map Plan.number ≠ some s.count := fun old => by
    obtain ⟨p, hp, number⟩ := Option.map_eq_some_iff.mp old
    exact absurd (h.old a ha p hp) (by omega)
  have plans (name : Name) (p : Plan) (plan : Function.update s.plans r.name (some ⟨s.count, r.id, r.value⟩) name = some p) :
      name = r.name ∧ p = ⟨s.count, r.id, r.value⟩ ∨ name ≠ r.name ∧ s.plans name = some p := by
    by_cases own : name = r.name
    · subst own
      exact .inl ⟨rfl, (by simpa using plan : _ = p).symm⟩
    · exact .inr ⟨own, by rwa [Function.update_of_ne own] at plan⟩
  refine ⟨?_, ?_, ?_, ?_, ?_, ?_, ⟨h.onTime.registered, h.onTime.once⟩⟩
  · unfold Agenda.kernel
    rw [same, updated]
    exact h.writable.updates _
  · unfold Agenda.kernel
    rw [same, updated, updates_cons, updates_cons, updates_nil]
    exact plan.1
  · intro name here row held
    change server.kernel.Opened name.1 at here
    change server.kernel.get name.1 _ = some row at held
    rw [same, updated] at here held
    rw [get_updates h.writable] at held
    have here := ((opened_updates h.writable _ _).mp here).1
    by_cases own : name = r.name
    · subst own
      obtain rfl : _ = row := by simpa [Request.name, Update.contents] using held
      refine ⟨⟨s.count, r.id, r.value⟩, by simp, rfl, fresh, fun t found => ?_, fun waits => ?_⟩
      · change server.kernel.moment r.name = some t at found
        rw [moment] at found
        by_cases small : r.id < 2 ^ 31
        · obtain rfl : (r.id : ℤ) = t := by
            simpa [Update.moments, toSigned_id small, Request.name] using found
          exact le_refl _
        · have negative := toSigned_high (not_lt.mp small) id
          simp [Update.moments, not_le.mpr negative, absent (not_lt.mp small)] at found
      · exact lt_of_lt_of_eq (past waits) now.symm
    · obtain ⟨db, key, select⟩ := name
      have other : ¬ (db = r.database ∧ futureRow key select db = futureRow r.key r.select r.database) := by
        rintro ⟨-, row⟩
        obtain ⟨rfl, rfl, rfl⟩ := futureRow_inj.mp row
        exact own rfl
      obtain ⟨p, known⟩ := h.rows (db, key, select) here row (by simpa [Update.contents, other] using held)
      refine ⟨p, ?_, known.row, known.unapplied, fun t found => known.moment t ?_, fun waits =>
        lt_of_lt_of_eq (known.waiting waits) now.symm⟩
      · exact (Function.update_of_ne own _ _).trans known.plan
      · change server.kernel.moment (db, key, select) = some t at found
        rw [moment] at found
        rwa [Update.moments, if_neg (fun both => own both.2)] at found
  · intro name p plan
    rcases plans name p plan with ⟨rfl, rfl⟩ | ⟨-, plan⟩
    · exact Nat.lt_succ_self _
    · exact Nat.lt_succ_of_lt (h.numbers name p plan)
  · intro name name' p p' plan plan' number
    rcases plans name p plan with ⟨rfl, rfl⟩ | ⟨-, plan⟩ <;> rcases plans name' p' plan' with ⟨rfl, rfl⟩ | ⟨-, plan'⟩
    · rfl
    · exact absurd number (h.numbers name' p' plan').ne'
    · exact absurd number (h.numbers name p plan).ne
    · exact h.distinct name name' p p' plan plan' number
  · exact fun a ha p hp => Nat.lt_succ_of_lt (h.old a ha p hp)

/-- An application, by a client or by an exec query that waited. -/
theorem Sound.applying (h : s.Sound) {r : Request} (applies : r.Applies s.kernel) {timer : Bool}
    (asked : timer = true → s.Waiting r.name) {waiting : List FutureEntry} (fewer : ∀ e ∈ waiting, e ∈ s.waiting) :
    Sound { server := { s.server with kernel := s.kernel.execute P r }, waiting, count := s.count, plans := s.plans
            applied := s.applied ++
              [⟨s.plans r.name, timer, s.kernel.now, (s.kernel.execute P r).get r.database (r.row intKey)⟩] } := by
  have cls := applies.1
  obtain ⟨row, future, updated⟩ := execute_applies (P := P) h.writable applies
  obtain ⟨p, known⟩ := h.rows r.name applies.2.1.1 row future
  have less := h.unregistering (P := P) (r := r) ⟨by simp [cls], by simp [cls]⟩ (fun moves => by simp [cls] at moves)
    (fun registers => by simp [registers.1] at cls) fewer s.server.expired
  have get (db x : Bytes) := congrFun (congrFun (get_updates h.writable
    [.put r.database (r.row intKey) (toBin (cutAt 58 row).2), .unplan r.database r.key r.select,
      .erase r.database (futureRow r.key r.select r.database)]) db) x
  have written : (s.kernel.execute P r).get r.database (r.row intKey) = some (toBin p.value) := by
    rw [updated, get, known.row, cutAt_row]
    have key_known : intKey ∈ typeRegs := by decide
    simp [Update.contents, Request.row, (futureRow_ne_keyRow key_known).symm]
  refine { less with rows := ?_, old := ?_, onTime := ⟨?_, ?_⟩ }
  · intro name here row' held
    obtain ⟨p', known'⟩ := less.rows name here row' held
    refine ⟨p', known'.plan, known'.row, ?_, known'.moment, known'.waiting⟩
    intro a ha
    rcases List.mem_append.mp ha with old | new
    · exact known'.unapplied a old
    · obtain rfl : a = _ := List.mem_singleton.mp new
      rw [known.plan]
      intro number
      have same : r.name = name := h.distinct _ _ _ _ known.plan known'.plan (by simpa using number)
      subst same
      change (s.kernel.execute P r).get _ _ = _ at held
      rw [updated, get] at held
      simp [Update.contents, Request.name] at held
  · intro a ha p' hp'
    rcases List.mem_append.mp ha with old | new
    · exact h.old a old p' hp'
    · obtain rfl : a = _ := List.mem_singleton.mp new
      exact h.numbers _ _ hp'
  · intro a ha
    rcases List.mem_append.mp ha with old | new
    · exact h.onTime.registered a old
    · obtain rfl : a = _ := List.mem_singleton.mp new
      exact ⟨p, known.plan, written, fun timed => known.waiting (asked timed)⟩
  · rw [List.map_append, List.nodup_append]
    refine ⟨h.onTime.once, by simp, ?_⟩
    intro number old number' new same
    obtain ⟨a, ha, rfl⟩ := List.mem_map.mp old
    obtain rfl : number' = _ := by simpa using new
    exact known.unapplied a ha (by rw [same, known.plan]; rfl)

theorem Sound.record (h : s.Sound) {r : Request} {timer : Bool} (client : r.Client) (newSelect : r.NewSelect)
    (id : r.id < 2 ^ 32) (asked : timer = true → s.Waiting r.name ∧ r.cls = .futureExec) {waiting : List FutureEntry}
    (fewer : ∀ e ∈ waiting, e ∈ s.waiting) (same : timer = false → waiting = s.waiting)
    (onTime : s.RegistersOnTime (.server (.request r))) :
    Sound (s.record r timer { s.server with kernel := s.kernel.execute P r } waiting) := by
  unfold Agenda.record
  split_ifs with registers applies
  · have client : timer = false := by
      by_contra timed
      have cls := (asked (by simpa using timed)).2
      simp [registers.1] at cls
    rw [same client]
    exact h.registering registers id onTime rfl
  · exact h.applying applies (fun timed => (asked timed).1) fewer
  · exact h.unregistering client newSelect registers fewer s.server.expired

theorem Sound.next {a : Act} (h : s.Sound) (onTime : s.RegistersOnTime a) (step : next P s a = some t) : t.Sound := by
  cases a with
  | server e =>
    simp only [Agenda.next, Option.map_eq_some_iff] at step
    obtain ⟨server, step, rfl⟩ := step
    cases e with
    | request r =>
      simp only [Server.next, Option.ite_none_right_eq_some, Option.some.injEq] at step
      obtain ⟨accepted, rfl⟩ := step
      exact h.record accepted.toClient accepted.newSelect accepted.id (by simp) (fun _ he => he) (fun _ => rfl) onTime
    | tick time =>
      simp only [Server.next, Option.ite_none_right_eq_some, Option.some.injEq] at step
      obtain ⟨later, rfl⟩ := step
      exact h.tick later rfl
    | expire e =>
      simp only [Server.next, Option.ite_none_right_eq_some, Option.some.injEq] at step
      obtain ⟨-, rfl⟩ := step
      have quiet : ¬ e.expireDelete.Registers s.kernel := fun registers => by
        have cls : e.expireDelete.cls = .del := rfl
        simp [registers.1] at cls
      exact h.unregistering (Server.expireDelete_client e) (Server.expireDelete_newSelect e) quiet (fun _ he => he) _
  | execute e =>
    simp only [Agenda.next, Option.ite_none_right_eq_some, Option.some.injEq] at step
    obtain ⟨waits, rfl⟩ := step
    have cls : e.futureExecute.cls = .futureExec := rfl
    exact h.record ⟨by simp [cls], by simp [cls]⟩ (fun moves => by simp [cls] at moves)
      (by norm_num [FutureEntry.futureExecute])
      (fun _ => ⟨⟨e, waits, rfl⟩, cls⟩) (fun _ he => List.mem_of_mem_erase he) (by simp)
      fun registers => by simp [registers.1] at cls

/-- Along every run that registers futures on time, each is applied at most once, and by the timer only when its
time is past. -/
theorem futures_on_time (h : (machine P).Reach RegistersOnTime s) : s.OnTime := by
  have sound : s.Sound := h.invariant ?_ fun s a t hs onTime step => hs.next onTime step
  · exact sound.onTime
  · intro s hs
    have none (name : Name) : s.plans name = none := by rw [hs.plans]
    refine ⟨hs.server.writable, ?_, ?_, ?_, ?_, ?_, ?_, ?_⟩
    · exact ⟨by simp [Agenda.kernel, hs.server.futures, Timetable.Unique.nil], by simp [Agenda.kernel, hs.server.futures]⟩
    · intro name _ row held
      simp [Agenda.kernel, hs.server.empty] at held
    · simp [none]
    · simp [none]
    · simp [hs.applied]
    · simp [hs.applied]
    · simp [hs.applied]

def fresh : Agenda := { server := Server.fresh, waiting := [], count := 0, plans := fun _ => none, applied := [] }

/-- FUTURE and FUTSET of `k` in the database `db`, in select 1. -/
def register (time : ℕ) (value : Bytes) : Act :=
  .server (.request { cls := .future, database := lit "db", key := lit "k", select := 1, id := time, value })

/-- A future that the timer applies, and one that EXEC applies before its time. -/
theorem futures_on_time_applied : ∃ s, (machine Server.integers).Reach RegistersOnTime s ∧
    s.applied.map (·.timer) = [true, false] ∧ s.OnTime := by
  have h : ((machine Server.integers).exec RegistersOnTime fresh [register 10 (lit "v"), .server (.tick 11),
      .execute ⟨lit "db", lit "k", 1, 10, []⟩, register 100 (lit "w"),
      .server (Server.command .futureExec (lit "k") [])]).any fun s => s.applied.map (·.timer) = [true, false] := by decide
  obtain ⟨s, reached, found⟩ := Machine.exec_holds h (.initial ⟨Server.fresh_initial, rfl, rfl, rfl⟩)
  exact ⟨s, reached, found, futures_on_time reached⟩

/-- A future is registered again for a later time while an exec query waits, and is applied at once. -/
theorem registered_again_applied_early : ∃ s, (machine Server.integers).Reachable s ∧ ¬ s.OnTime := by
  have h : ((machine Server.integers).exec (fun _ _ => True) fresh [register 10 (lit "v"), .server (.tick 11),
      register 100 (lit "w"), .execute ⟨lit "db", lit "k", 1, 10, []⟩]).any fun s =>
        s.applied = [⟨some ⟨1, 100, lit "w"⟩, true, 11, some (toBin (lit "w"))⟩] := by decide
  obtain ⟨s, reached, found⟩ := Machine.exec_holds h (.initial ⟨Server.fresh_initial, rfl, rfl, rfl⟩)
  refine ⟨s, reached, fun onTime => ?_⟩
  obtain ⟨p, plan, -, late⟩ := onTime.registered _ (by rw [found]; exact List.mem_singleton_self _)
  obtain rfl : (⟨1, 100, lit "w"⟩ : Plan) = p := by simpa using plan
  exact absurd (late rfl) (by decide)

end Agenda
end BerylDB.Store
