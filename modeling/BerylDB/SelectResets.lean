import BerylDB.DeadlineTexts
import BerylDB.RowNames

/-! # SFLUSH, SRESET and FRESET

The three commands that empty one select.  The select comes as a text, or it is the current one, which the code assigns
to a string as one character. -/
namespace BerylDB.Store
open Text QueryBase Kernel Transition

/-! ## The handlers -/

/-- `Daemon::CheckRange`. -/
def checkRange (value : Bytes) (low high : ℤ) : Bool := low ≤ convtoSigned value ∧ convtoSigned value ≤ high

/-- The string `use`: `use = user->select` takes the number for one character. -/
def useText (arg : Option Bytes) (current : ℕ) : Bytes := arg.getD [current.toUInt8]

/-- The text that `CommandSFlush::Handle` gives `sflush_query` for its key. -/
def commandSFlush (arg : Option Bytes) (current : ℕ) : Option Bytes :=
  let select := useText arg current
  if checkValidPos select && checkRange select 1 100 then some select else none

/-- The select that `CommandSelectReset::Handle` resets. -/
def commandSelectReset (arg : Option Bytes) (current : ℕ) : Option ℕ :=
  if arg.all fun use => checkValidPos use && checkRange use 1 100 then some (convtoUnsigned (useText arg current)) else none

/-- The select that `CommandFReset::Handle` resets, unless the database is busy. -/
def commandFReset (closing : Bool) (arg : Option Bytes) (current : ℕ) : Option ℕ :=
  if arg.all fun use => checkValid use && checkRange use 1 100 then
    if closing then none else some (convtoUnsigned (useText arg current))
  else none

/-- The select that is meant. -/
def intended (arg : Option Bytes) (current : ℕ) : ℕ := (arg.map fun use => (numberValue use).toNat).getD current

/-- The select that SRESET and FRESET reset: for no argument, what the current one stands for as a character. -/
def resetSelect (arg : Option Bytes) (current : ℕ) : ℕ :=
  match arg with
  | some use => (numberValue use).toNat
  | none => if 48 ≤ current ∧ current ≤ 57 then current - 48 else 0

/-- `GlobalHelper::FutureGlobalCancel`. -/
def FutureEntry.cancel (e : FutureEntry) : Request where
  cls := .futureDel
  database := e.database
  key := e.key
  select := e.select
  flags := .quiet

/-- The queries of `FutureGlobalCancel` for the entries, one after the other. -/
def Kernel.cancelAll (P : Platform) (k : Kernel) (entries : List FutureEntry) : Kernel :=
  entries.foldl (fun k e => k.execute P e.cancel) k

/-- `FutureManager::SelectReset`. -/
def Kernel.selectFReset (P : Platform) (k : Kernel) (db : Bytes) (select : ℕ) : Kernel :=
  k.cancelAll P (k.futures.filter fun e => e.select = select ∧ e.database = db)

/-- The query of SFLUSH. -/
def sflushQuery (db : Bytes) (current : ℕ) (text : Bytes) (interrupt : Option ℕ) : Request where
  cls := .sflush
  database := db
  key := text
  select := current
  interrupt := interrupt

/-! ## What is to be gone -/

/-- The rows of the select are gone, and nothing else. -/
structure RowsGone (k k' : Kernel) (db : Bytes) (n : ℕ) : Prop where
  gone : ∀ key type, k'.get db (keyRow key n type) = none
  kept : ∀ db' row, (db' = db → ∀ key type, row ≠ keyRow key n type) → k'.get db' row = k.get db' row
  expires : k'.expires = k.expires
  futures : k'.futures = k.futures

/-- The expiries of the select are gone, and nothing else. -/
structure ExpiresGone (k k' : Kernel) (db : Bytes) (n : ℕ) : Prop where
  cleared : ∀ e ∈ k'.expires, ¬ (e.database = db ∧ e.select = n)
  others : ∀ m : Name, ¬ (m.1 = db ∧ m.2.2 = n) →
    Timetable.named ExpireEntry.name m k'.expires = Timetable.named ExpireEntry.name m k.expires
  gone : ∀ key, k'.get db (expireRow key n db) = none
  kept : ∀ db' row, (db' = db → ∀ key, row ≠ expireRow key n db) → k'.get db' row = k.get db' row
  futures : k'.futures = k.futures

/-- The futures of the select are gone, and nothing else. -/
structure FuturesGone (k k' : Kernel) (db : Bytes) (n : ℕ) : Prop where
  cleared : ∀ e ∈ k'.futures, ¬ (e.database = db ∧ e.select = n)
  others : ∀ m : Name, ¬ (m.1 = db ∧ m.2.2 = n) →
    Timetable.named FutureEntry.name m k'.futures = Timetable.named FutureEntry.name m k.futures
  gone : ∀ key, k'.get db (futureRow key n db) = none
  kept : ∀ db' row, (db' = db → ∀ key, row ≠ futureRow key n db) → k'.get db' row = k.get db' row
  expires : k'.expires = k.expires

/-! ## The select -/

section
variable {arg : Option Bytes} {current n : ℕ} {use : Bytes}

theorem numberValue_of_range (range : checkRange use 1 100 = true) :
    numberValue use = convtoSigned use ∧ 1 ≤ numberValue use ∧
    numberValue use ≤ 100 := by
  simp only [checkRange, decide_eq_true_eq] at range
  have read : convtoSigned use =
      if (readDigits use).2 = [] ∨ numberValue use < -2 ^ 31 ∨ 2 ^ 31 ≤ numberValue use then 0
      else numberValue use := rfl
  split at read <;> omega

/-- A text in the range is read as the number that it stands for. -/
theorem convtoUnsigned_of_range (range : checkRange use 1 100 = true) :
    convtoUnsigned use = (numberValue use).toNat := by
  obtain ⟨-, low, high⟩ := numberValue_of_range range
  have number := convtoUnsigned_eq (s := use) (by omega) (by omega)
  omega

/-- One character is read as the number of a digit, and as 0 otherwise. -/
theorem convtoUnsigned_character (low : 1 ≤ current) (high : current ≤ 100) :
    convtoUnsigned [current.toUInt8] = if 48 ≤ current ∧ current ≤ 57 then current - 48 else 0 := by
  have all : ∀ c < 101, convtoUnsigned [c.toUInt8] = if 48 ≤ c ∧ c ≤ 57 then c - 48 else 0 := by decide
  exact all current (by omega)

theorem commandSFlush_none (low : 1 ≤ current) (high : current ≤ 100) :
    (commandSFlush none current).isSome ↔ 49 ≤ current ∧ current ≤ 57 := by
  have all : ∀ c < 101, (commandSFlush none c).isSome ↔ 49 ≤ c ∧ c ≤ 57 := by decide
  exact all current (by omega)

theorem convtoUnsigned_useText (low : 1 ≤ current) (high : current ≤ 100)
    (range : arg.all fun use => checkRange use 1 100) :
    convtoUnsigned (useText arg current) = resetSelect arg current := by
  cases arg with
  | none => exact convtoUnsigned_character low high
  | some use => exact convtoUnsigned_of_range range

end

/-! ## SFLUSH -/

/-- No row of the database names its select by this text. -/
def Kernel.NoneNamed (k : Kernel) (db text : Bytes) : Prop :=
  ∀ row, (k.get db row).isSome → (colonTokens row)[1]? ≠ some text

section
variable {P : Platform} {k : Kernel} {db text row : Bytes} {current n : ℕ} {interrupt : Option ℕ}

theorem tables_foldl_erase (rows : List Bytes) :
    (rows.foldl (fun k row => k.erase db row) k).expires = k.expires ∧
      (rows.foldl (fun k row => k.erase db row) k).futures = k.futures := by
  induction rows generalizing k with
  | nil => exact ⟨rfl, rfl⟩
  | cons row rows ih =>
    rw [List.foldl_cons]
    exact ⟨ih.1.trans (expires_write _ _), ih.2.trans (futures_write _ _)⟩

theorem mem_sflushRows {q : QueryBase} (whole : q.interrupted k = false) :
    row ∈ Run.sflushRows k q ↔ (k.get q.database row).isSome ∧ (colonTokens row)[1]?.all (· == q.key) = true := by
  have all : q.scanned k = (k.rows q.database).toList := by
    unfold QueryBase.interrupted at whole
    unfold QueryBase.scanned
    split
    · rename_i last found
      rw [found] at whole
      exact List.take_of_length_le (by simpa using whole)
    · rfl
  simp only [Run.sflushRows, all, List.mem_filterMap, Option.ite_none_right_eq_some, Option.some.injEq, Prod.exists]
  constructor
  · rintro ⟨name, value, here, named, rfl⟩
    exact ⟨by rw [mem_rows.mp here]; rfl, named⟩
  · rintro ⟨here, named⟩
    obtain ⟨value, held⟩ := Option.isSome_iff_exists.mp here
    exact ⟨row, value, mem_rows.mpr held, named, rfl⟩

/-- SFLUSH that replied OK. -/
theorem sflush_ok (ok : (k.reply P (sflushQuery db current text interrupt)).finished = true) :
    k.Opened db ∧ (sflushQuery db current text interrupt).plain.interrupted k = false ∧
      k.execute P (sflushQuery db current text interrupt) =
        (Run.sflushRows k (sflushQuery db current text interrupt).plain).foldl (fun k row => k.erase db row) k := by
  unfold Kernel.reply at ok
  unfold Kernel.execute
  by_cases opened : k.Opened db
  · have ran : prepare P .sflush k (sflushQuery db current text interrupt).query =
        Run.sflush k (sflushQuery db current text interrupt).plain := prepare_opened opened
    rw [show (sflushQuery db current text interrupt).cls = .sflush from rfl, ran] at ok ⊢
    refine ⟨opened, ?_, rfl⟩
    by_contra cut
    have cut' : (sflushQuery db current text interrupt).plain.interrupted k = true := by simpa using cut
    simp only [Run.sflush, cut', if_true] at ok
    exact absurd ok Bool.false_ne_true
  · rw [prepare_closing opened] at ok
    exact absurd ok Bool.false_ne_true

theorem second_rowName {key type : Bytes} (key_ne : key ≠ []) (text_ne : text ≠ []) (colon : (58 : UInt8) ∉ text) :
    (colonTokens (rowName key text type))[1]? = some text := by
  rw [colonTokens_rowName type key_ne text_ne colon]
  rfl

theorem matches_iff {token : Option Bytes} {text' : Bytes} (found : token = some text') :
    token.all (· == text) = true ↔ text' = text := by
  rw [found]
  exact beq_iff_eq

theorem get_sflush (writable : k.Writable) (ok : (k.reply P (sflushQuery db current text interrupt)).finished = true)
    (db' row : Bytes) : (k.execute P (sflushQuery db current text interrupt)).get db' row =
      if db' = db ∧ (colonTokens row)[1]?.all (· == text) = true then none else k.get db' row := by
  obtain ⟨-, whole, ran⟩ := sflush_ok ok
  rw [ran, foldl_erase, get_updates writable, contents_erases]
  by_cases same : db' = db
  · subst same
    by_cases here : (k.get db' row).isSome
    · have listed : row ∈ Run.sflushRows k (sflushQuery db' current text interrupt).plain ↔
          (colonTokens row)[1]?.all (· == text) = true := (mem_sflushRows whole).trans (and_iff_right here)
      simp only [listed, true_and]
    · have none : k.get db' row = none := by simpa using here
      rw [none, ite_self, ite_self]
  · rw [if_neg fun h => same h.1, if_neg fun h => same h.1]

/-- SFLUSH is exact when its text is the one that the rows have, or no row has either text; and no row lacks one. -/
theorem rows_gone_iff (names : RowNames k.get) (writable : k.Writable)
    (ok : (k.reply P (sflushQuery db current text interrupt)).finished = true) :
    RowsGone k (k.execute P (sflushQuery db current text interrupt)) db n ↔
      k.get db [] = none ∧ (text = convtoString n ∨ k.NoneNamed db text ∧ k.NoneNamed db (convtoString n)) := by
  have rows (db' row : Bytes) : (k.execute P (sflushQuery db current text interrupt)).get db' row = _ :=
    get_sflush writable ok db' row
  have named {row : Bytes} (here : (k.get db row).isSome) (second : (colonTokens row)[1]? = some (convtoString n)) :
      ∃ key type, row = keyRow key n type := by
    rcases names db row here with rfl | ⟨key, text', type, key_ne, text_ne, colon, rfl⟩
    · simp [colonTokens] at second
    · rw [second_rowName key_ne text_ne colon] at second
      exact ⟨key, type, by rw [Option.some.inj second]; rfl⟩
  have token {key type : Bytes} (here : (k.get db (keyRow key n type)).isSome) :
      (colonTokens (keyRow key n type))[1]? = some (convtoString n) := by
    rcases names db _ here with empty | formed
    · exact absurd empty keyRow_ne_nil
    · exact second_rowName formed.key_ne (convtoString_ne_nil n) (colon_not_mem_convtoString n)
  constructor
  · intro h
    have empty : k.get db [] = none := by
      rw [← h.kept db [] fun _ key type same => keyRow_ne_nil same.symm, rows, if_pos ⟨rfl, rfl⟩]
    refine ⟨empty, or_iff_not_imp_left.mpr fun other => ⟨fun row here second => ?_, fun row here second => ?_⟩⟩
    · have kept := h.kept db row fun _ key type same => ?_
      · rw [rows, if_pos ⟨rfl, (matches_iff second).mpr rfl⟩] at kept
        simp [← kept] at here
      · subst same
        rw [token here] at second
        exact other (Option.some.inj second).symm
    · obtain ⟨key, type, rfl⟩ := named here second
      have gone := h.gone key type
      rw [rows, if_neg fun h => other ((matches_iff second).mp h.2).symm] at gone
      simp [gone] at here
  · rintro ⟨empty, place⟩
    obtain ⟨-, -, ran⟩ := sflush_ok ok
    refine ⟨fun key type => ?_, fun db' row outside => ?_, by rw [ran]; exact (tables_foldl_erase _).1,
      by rw [ran]; exact (tables_foldl_erase _).2⟩
    · rw [rows]
      split
      · rfl
      · rename_i missed
        by_contra held
        have here : (k.get db (keyRow key n type)).isSome := Option.isSome_iff_ne_none.mpr held
        rcases place with rfl | ⟨-, none⟩
        · exact missed ⟨rfl, (matches_iff (token here)).mpr rfl⟩
        · exact none _ here (token here)
    · rw [rows]
      split
      · rename_i matched
        obtain ⟨rfl, second⟩ := matched
        by_contra held
        have here : (k.get db' row).isSome := Option.isSome_iff_ne_none.mpr (Ne.symm held)
        rcases names db' row here with rfl | ⟨key, text', type, key_ne, text_ne, colon, rfl⟩
        · exact held empty.symm
        · obtain rfl := (matches_iff (second_rowName key_ne text_ne colon)).mp second
          rcases place with rfl | ⟨none, -⟩
          · exact outside rfl key type rfl
          · exact none _ here (second_rowName key_ne text_ne colon)
      · rfl

end

/-! ## The rows that a reset takes -/

/-- The rows at `place` of the names in the select `m` that `takes` allows are gone, and no other row. -/
def Swept (names : List Name) (place : Name → Bytes) (takes : Name → Prop) (db : Bytes) (m : ℕ) (g g' : Contents) : Prop :=
  ∀ db' row, g' db' row = none ∧ (∃ x ∈ names, (x.1 = db ∧ x.2.2 = m) ∧ takes x ∧ db' = db ∧ row = place x) ∨
    g' db' row = g db' row ∧ ¬ ∃ x ∈ names, (x.1 = db ∧ x.2.2 = m) ∧ takes x ∧ db' = db ∧ row = place x

section
variable {names : List Name} {place : Name → Bytes} {takes : Name → Prop} {db : Bytes} {m n : ℕ} {g g' : Contents}

theorem Swept.of_filter {ε : Type} {name : ε → Name} {entries : List ε} (each : ∀ db' row,
    g' db' row = none ∧ (∃ e ∈ entries.filter fun e => (name e).2.2 = m ∧ (name e).1 = db,
      takes (name e) ∧ db' = (name e).1 ∧ row = place (name e)) ∨
    g' db' row = g db' row ∧ ¬ ∃ e ∈ entries.filter fun e => (name e).2.2 = m ∧ (name e).1 = db,
      takes (name e) ∧ db' = (name e).1 ∧ row = place (name e)) :
    Swept (entries.map name) place takes db m g g' := by
  intro db' row
  rcases each db' row with ⟨gone, e, he, goes, database, same⟩ | ⟨kept, none⟩
  · have inside := (List.mem_filter.mp he).2
    simp only [decide_eq_true_eq] at inside
    exact .inl ⟨gone, name e, List.mem_map_of_mem (List.mem_of_mem_filter he), inside.symm, goes,
      database.trans inside.2, same⟩
  · refine .inr ⟨kept, ?_⟩
    rintro ⟨x, hx, ⟨rfl, rfl⟩, goes, database, same⟩
    obtain ⟨e, he, rfl⟩ := List.mem_map.mp hx
    exact none ⟨e, List.mem_filter.mpr ⟨he, by simp⟩, goes, database, same⟩

/-- When the rows of a select are gone, each of them had a name. -/
theorem Swept.listed (h : Swept names place takes db m g g') (inj : Function.Injective place) {key : Bytes}
    (gone : g' db (place (db, key, n)) = none) (here : (g db (place (db, key, n))).isSome) : (db, key, n) ∈ names := by
  rcases h db (place (db, key, n)) with ⟨-, x, hx, -, -, -, same⟩ | ⟨kept, -⟩
  · exact inj same ▸ hx
  · simp [← kept, gone] at here

theorem Swept.gone (h : Swept names place takes db m g g')
    (taken : ∀ x ∈ names, x.1 = db → x.2.2 = n → m = n ∧ takes x) {key : Bytes}
    (listed : (g db (place (db, key, n))).isSome → (db, key, n) ∈ names) : g' db (place (db, key, n)) = none := by
  rcases h db (place (db, key, n)) with ⟨gone, -⟩ | ⟨kept, none⟩
  · exact gone
  · by_contra held
    have here := listed (Option.isSome_iff_ne_none.mpr (kept ▸ held))
    obtain ⟨rfl, goes⟩ := taken _ here rfl rfl
    exact none ⟨_, here, ⟨rfl, rfl⟩, goes, rfl, rfl⟩

theorem Swept.kept (h : Swept names place takes db m g g')
    (spared : m ≠ n → ∀ x ∈ names, x.1 = db → x.2.2 = m → ¬ takes x) {db' row : Bytes}
    (outside : db' = db → ∀ key, row ≠ place (db, key, n)) : g' db' row = g db' row := by
  rcases h db' row with ⟨-, ⟨_, key, select⟩, hx, ⟨rfl, rfl⟩, goes, rfl, rfl⟩ | ⟨kept, -⟩
  · by_cases same : select = n
    · exact absurd (by rw [same]) (outside rfl key)
    · exact absurd goes (spared same _ hx rfl rfl)
  · exact kept

end

/-! ## SRESET -/

/-- A reset of the select `m` is exact for the select `n`. -/
structure Kernel.ExpiresResettable (k : Kernel) (db : Bytes) (n m : ℕ) : Prop where
  taken : ∀ e ∈ k.expires, e.database = db → e.select = n → m = n ∧ k.Persistable e.name
  rows : ∀ key, (k.get db (expireRow key n db)).isSome → ∃ e ∈ k.expires, e.name = (db, key, n)
  spared : m ≠ n → ∀ e ∈ k.expires, e.database = db → e.select = m → ¬ k.Persistable e.name

section
variable {P : Platform} {k : Kernel} {db : Bytes} {n m : ℕ}

theorem named_selectReset (x : Name) : Timetable.named ExpireEntry.name x (k.selectReset P db m).expires =
    if (x.1 = db ∧ x.2.2 = m) ∧ k.Persistable x then [] else Timetable.named ExpireEntry.name x k.expires := by
  unfold Kernel.selectReset
  by_cases inside : x.1 = db ∧ x.2.2 = m
  · rw [named_chosen]
    · simp only [inside, and_self, true_and]
    · rintro e - rfl
      simpa [ExpireEntry.name, and_comm] using inside
  · rw [if_neg fun h => inside h.1]
    by_cases goes : k.Persistable x
    · have none : (k.expires.filter fun e => e.select = m ∧ e.database = db).countP (fun e => e.name = x) = 0 := by
        refine List.countP_eq_zero.mpr fun e he => ?_
        have chosen := (List.mem_filter.mp he).2
        simp only [decide_eq_true_eq] at chosen ⊢
        rintro rfl
        exact inside ⟨chosen.2, chosen.1⟩
      rw [named_persistAll goes, none, List.drop_zero]
    · exact named_persistAll_kept goes _

theorem futures_persistAll (entries : List ExpireEntry) : (k.persistAll P entries).futures = k.futures := by
  induction entries generalizing k with
  | nil => rfl
  | cons e entries ih =>
    rw [persistAll, List.foldl_cons, ← persistAll, ih, execute_expireDel rfl]
    split
    · exact futures_write _ _
    · rfl

theorem Kernel.Writable.expireDel {r : Request} (writable : k.Writable) (cls : r.cls = .expireDel) :
    (k.execute P r).Writable := by
  rw [execute_expireDel cls]
  split
  · exact (show (k.deleteExpire r.database r.key r.select).Writable from writable).update (.erase _ _)
  · exact writable

theorem get_expireDel {r : Request} (writable : k.Writable) (cls : r.cls = .expireDel) (db' row : Bytes) :
    (k.execute P r).get db' row =
      if k.Persistable r.name ∧ db' = r.database ∧ row = expireRow r.key r.select r.database then none
      else k.get db' row := by
  rw [execute_expireDel cls]
  by_cases goes : k.Persistable r.name
  · have taken : (k.deleteExpire r.database r.key r.select).Writable := writable
    rw [if_pos goes]
    refine (get_update_erase taken _ _ _ _).trans ?_
    simp only [goes, true_and]
    rfl
  · rw [if_neg goes, if_neg fun h => goes h.1]

/-- Every query that runs takes the expiry row of its key. -/
theorem swept_selectReset (writable : k.Writable) : Swept (k.expires.map ExpireEntry.name)
    (fun x => expireRow x.2.1 x.2.2 x.1) k.Persistable db m k.get (k.selectReset P db m).get := by
  refine .of_filter fun db' row => foldl_clears (fun (k : Kernel) (e : ExpireEntry) => k.execute P e.persist)
    Kernel.Writable (fun k => k.get db' row) (fun k e => k.Persistable e.name)
    (fun e => db' = e.database ∧ row = expireRow e.key e.select e.database) (fun k e writable => ?_)
    (fun k e writable goes hit => ?_) (fun k e writable other => ?_) (fun k e e' _ goes => ?_)
    (fun k e e' _ _ _ goes => ?_) _ writable
  · exact writable.expireDel rfl
  · exact (get_expireDel writable rfl _ _).trans (if_pos ⟨goes, hit⟩)
  · exact (get_expireDel writable rfl _ _).trans (if_neg other)
  · exact (persistable_expireDel rfl _).mp goes
  · exact (persistable_expireDel rfl _).mpr goes

theorem expireRow_of_name : Function.Injective fun x : Name => expireRow x.2.1 x.2.2 x.1 := by
  rintro ⟨db, key, select⟩ ⟨db', key', select'⟩ same
  obtain ⟨rfl, rfl, rfl⟩ := expireRow_inj.mp same
  rfl

theorem ExpiresGone.resettable (writable : k.Writable) (h : ExpiresGone k (k.selectReset P db m) db n) :
    k.ExpiresResettable db n m where
  taken e he database select := by
    have none : e ∉ (k.selectReset P db m).expires := fun later => h.cleared e later ⟨database, select⟩
    rw [mem_expires_iff, named_selectReset] at none
    split at none
    · rename_i inside
      exact ⟨inside.1.2.symm.trans select, inside.2⟩
    · exact absurd (mem_expires_iff.mp he) none
  rows key here :=
    List.mem_map.mp ((swept_selectReset (P := P) writable).listed expireRow_of_name (h.gone key) here)
  spared other e he database select goes := by
    have kept := h.others e.name fun inside => other (select.symm.trans inside.2)
    rw [named_selectReset, if_pos ⟨⟨database, select⟩, goes⟩] at kept
    have here := mem_expires_iff.mp he
    rw [← kept] at here
    exact absurd here List.not_mem_nil

theorem Kernel.ExpiresResettable.gone (writable : k.Writable) (h : k.ExpiresResettable db n m) :
    ExpiresGone k (k.selectReset P db m) db n where
  cleared e later inside := by
    rw [mem_expires_iff, named_selectReset] at later
    split at later
    · exact absurd later List.not_mem_nil
    · rename_i kept
      obtain ⟨rfl, goes⟩ := h.taken e (mem_expires_iff.mpr later) inside.1 inside.2
      exact kept ⟨inside, goes⟩
  others x outside := by
    rw [named_selectReset]
    split
    · rename_i hit
      obtain ⟨⟨database, select⟩, goes⟩ := hit
      have other : m ≠ n := fun same => outside ⟨database, select.trans same⟩
      refine (List.eq_nil_iff_forall_not_mem.mpr fun e he => ?_).symm
      obtain ⟨here, rfl⟩ := Timetable.mem_named.mp he
      exact h.spared other e here database select goes
    · rfl
  gone key := (swept_selectReset writable).gone (List.forall_mem_map.mpr h.taken)
    fun here => List.mem_map.mpr (h.rows key here)
  kept db' row outside := (swept_selectReset writable).kept
    (fun other => List.forall_mem_map.mpr (h.spared other)) outside
  futures := futures_persistAll _

/-- SRESET is exact when the select that it resets is the one that is meant and all its entries go, or nothing is
there. -/
theorem expires_gone_iff (writable : k.Writable) :
    ExpiresGone k (k.selectReset P db m) db n ↔ k.ExpiresResettable db n m :=
  ⟨fun h => h.resettable writable, fun h => h.gone writable⟩

end

/-! ## FRESET -/

/-- `future_del_query` finds the row of the name, and no key of another type. -/
def Kernel.Cancelable (k : Kernel) (m : Name) : Prop :=
  k.Opened m.1 ∧ (registered k m.1 m.2.1 m.2.2 = some intKey ∨ registered k m.1 m.2.1 m.2.2 = none) ∧
    (k.get m.1 (futureRow m.2.1 m.2.2 m.1)).isSome

instance (k : Kernel) (m : Name) : Decidable (k.Cancelable m) := by
  unfold Kernel.Cancelable Kernel.Opened
  infer_instance

/-- A reset of the select `m` is exact for the select `n`. -/
structure Kernel.FuturesResettable (k : Kernel) (db : Bytes) (n m : ℕ) : Prop where
  taken : ∀ e ∈ k.futures, e.database = db → e.select = n →
    m = n ∧ k.Cancelable e.name ∧ Timetable.named FutureEntry.name e.name k.futures = [e]
  rows : ∀ key, (k.get db (futureRow key n db)).isSome → ∃ e ∈ k.futures, e.name = (db, key, n)
  spared : m ≠ n → ∀ e ∈ k.futures, e.database = db → e.select = m → ¬ k.Cancelable e.name

section
variable {P : Platform} {k : Kernel} {r : Request} {db : Bytes} {n m : ℕ}

theorem mem_futures_iff {e : FutureEntry} :
    e ∈ k.futures ↔ e ∈ Timetable.named FutureEntry.name e.name k.futures := by
  simp [Timetable.mem_named]

theorem futureRow_of_name : Function.Injective fun x : Name => futureRow x.2.1 x.2.2 x.1 := by
  rintro ⟨db, key, select⟩ ⟨db', key', select'⟩ same
  obtain ⟨rfl, rfl, rfl⟩ := Agenda.futureRow_inj.mp same
  rfl

theorem execute_futureDel (cls : r.cls = .futureDel) : k.execute P r =
    if k.Cancelable r.name then
      (k.deleteFuture r.database r.key r.select).erase r.database (futureRow r.key r.select r.database)
    else k := by
  have body (q : QueryBase) (database : q.database = r.database) (key : q.key = r.key) (select : q.select = r.select) :
      (Run.futureDel k q).1 = if (k.get r.database (futureRow r.key r.select r.database)).isSome then
        (k.deleteFuture r.database r.key r.select).erase r.database (futureRow r.key r.select r.database) else k := by
    rw [Run.futureDel, database, key, select]
    cases held : k.get r.database (futureRow r.key r.select r.database) with
    | none => rfl
    | some value => simp [delFuture, database, key, select]
  have asked (place : r.registered k = some intKey ∨ r.registered k = none) (opened : k.Opened r.database) :
      k.Cancelable r.name ↔ (k.get r.database (futureRow r.key r.select r.database)).isSome :=
    ⟨fun h => h.2.2, fun here => ⟨opened, place, here⟩⟩
  unfold Kernel.execute
  by_cases opened : k.Opened r.database
  · cases registered : r.registered k with
    | none =>
      rw [cls, prepare_absent opened registered (by decide)]
      refine (body r.absent rfl rfl rfl).trans ?_
      simp only [asked (.inr registered) opened]
    | some type =>
      rw [cls, prepare_looked opened registered (by decide) rfl]
      by_cases own : type = intKey
      · rw [if_pos own]
        refine (body (r.found type none) rfl rfl rfl).trans ?_
        simp only [asked (.inl (own ▸ registered)) opened]
      · have kept : ¬ k.Cancelable r.name := by
          rintro ⟨-, key | none, -⟩
          · exact own (Option.some.inj (registered.symm.trans key))
          · cases registered.symm.trans none
        rw [if_neg own, if_neg kept]
  · rw [prepare_closing opened, if_neg fun h : k.Cancelable r.name => opened h.1]

theorem Kernel.Writable.futureDel (writable : k.Writable) (cls : r.cls = .futureDel) : (k.execute P r).Writable := by
  rw [execute_futureDel cls]
  split
  · exact (show (k.deleteFuture r.database r.key r.select).Writable from writable).update (.erase _ _)
  · exact writable

theorem get_futureDel (writable : k.Writable) (cls : r.cls = .futureDel) (db' row : Bytes) :
    (k.execute P r).get db' row =
      if k.Cancelable r.name ∧ db' = r.database ∧ row = futureRow r.key r.select r.database then none
      else k.get db' row := by
  rw [execute_futureDel cls]
  by_cases goes : k.Cancelable r.name
  · have taken : (k.deleteFuture r.database r.key r.select).Writable := writable
    rw [if_pos goes]
    refine (get_update_erase taken _ _ _ _).trans ?_
    simp only [goes, true_and]
    rfl
  · rw [if_neg goes, if_neg fun h => goes h.1]

theorem named_futureDel (cls : r.cls = .futureDel) (x : Name) :
    Timetable.named FutureEntry.name x (k.execute P r).futures =
      if x = r.name ∧ k.Cancelable x then (Timetable.named FutureEntry.name x k.futures).tail
      else Timetable.named FutureEntry.name x k.futures := by
  rw [execute_futureDel cls]
  by_cases own : x = r.name
  · subst own
    by_cases goes : k.Cancelable r.name
    · rw [if_pos goes, if_pos ⟨rfl, goes⟩, Kernel.erase, futures_write, deleteFuture]
      exact Timetable.named_delete.trans (if_pos rfl)
    · rw [if_neg goes, if_neg fun h => goes h.2]
  · rw [if_neg fun h : x = r.name ∧ _ => own h.1]
    split
    · rw [Kernel.erase, futures_write, deleteFuture]
      exact Timetable.named_delete.trans (if_neg own)
    · rfl

/-- A query of FRESET takes the row of its own name, and then finds it no more. -/
theorem cancelable_futureDel (writable : k.Writable) (cls : r.cls = .futureDel) (x : Name) :
    (k.execute P r).Cancelable x ↔ k.Cancelable x ∧ x ≠ r.name := by
  have registry : registered (k.execute P r) = registered k := by
    funext db key select
    refine List.find?_congr fun type known => ?_
    rw [get_futureDel writable cls, if_neg fun h => futureRow_ne_keyRow known h.2.2.symm]
  have opened : (k.execute P r).Opened x.1 ↔ k.Opened x.1 := by
    rw [execute_futureDel cls]
    split
    · exact opened_erase _ _ _
    · rfl
  unfold Kernel.Cancelable
  rw [registry, opened, get_futureDel writable cls]
  by_cases own : x = r.name
  · subst own
    refine iff_of_false ?_ fun h => h.2 rfl
    rintro ⟨opened, place, here⟩
    split at here
    · exact absurd here Bool.false_ne_true
    · rename_i stays
      exact stays ⟨⟨opened, place, here⟩, rfl, rfl⟩
  · rw [if_neg fun h => own (futureRow_of_name h.2.2)]
    simp [own]

/-- Of the entries of a name the first one goes. -/
theorem named_cancelAll (writable : k.Writable) (entries : List FutureEntry) (x : Name) :
    Timetable.named FutureEntry.name x (k.cancelAll P entries).futures =
      if k.Cancelable x ∧ ∃ e ∈ entries, e.name = x then (Timetable.named FutureEntry.name x k.futures).tail
      else Timetable.named FutureEntry.name x k.futures := by
  induction entries generalizing k with
  | nil => simp [cancelAll]
  | cons e entries ih =>
    have step : Timetable.named FutureEntry.name x (k.execute P e.cancel).futures = _ := named_futureDel rfl x
    have later := ih (writable.futureDel (P := P) (r := e.cancel) rfl)
    simp only [cancelable_futureDel writable (r := e.cancel) rfl] at later
    rw [cancelAll, List.foldl_cons, ← cancelAll, later, step]
    by_cases own : x = e.name
    · have left : ¬ ((k.Cancelable x ∧ x ≠ e.cancel.name) ∧ ∃ e ∈ entries, e.name = x) := fun h => h.1.2 own
      rw [if_neg left]
      by_cases goes : k.Cancelable x
      · rw [if_pos ⟨own, goes⟩, if_pos ⟨goes, e, List.mem_cons_self, own.symm⟩]
      · rw [if_neg fun h => goes h.2, if_neg fun h => goes h.1]
    · have other : ¬ (x = e.cancel.name ∧ k.Cancelable x) := fun h => own h.1
      have same : (k.Cancelable x ∧ x ≠ e.cancel.name) ∧ (∃ e ∈ entries, e.name = x) ↔
          k.Cancelable x ∧ ∃ e' ∈ e :: entries, e'.name = x := by
        simp only [List.mem_cons, exists_eq_or_imp, Ne.symm own, false_or]
        exact and_congr_left fun _ => and_iff_left own
      rw [if_neg other]
      simp only [same]

theorem named_selectFReset (writable : k.Writable) (x : Name) :
    Timetable.named FutureEntry.name x (k.selectFReset P db m).futures =
      if (x.1 = db ∧ x.2.2 = m) ∧ k.Cancelable x then (Timetable.named FutureEntry.name x k.futures).tail
      else Timetable.named FutureEntry.name x k.futures := by
  rw [Kernel.selectFReset, named_cancelAll writable]
  cases held : Timetable.named FutureEntry.name x k.futures with
  | nil => simp
  | cons e rest =>
    obtain ⟨here, name⟩ := Timetable.mem_named.mp (held ▸ List.mem_cons_self : e ∈ Timetable.named FutureEntry.name x k.futures)
    have chosen : (∃ e ∈ k.futures.filter (fun e => e.select = m ∧ e.database = db), e.name = x) ↔ x.1 = db ∧
        x.2.2 = m := by
      constructor
      · rintro ⟨e', he', rfl⟩
        have inside := (List.mem_filter.mp he').2
        simp only [decide_eq_true_eq] at inside
        exact ⟨inside.2, inside.1⟩
      · rintro ⟨rfl, rfl⟩
        subst name
        exact ⟨e, List.mem_filter.mpr ⟨here, by simp [FutureEntry.name]⟩, rfl⟩
    have same : (k.Cancelable x ∧ ∃ e ∈ k.futures.filter (fun e => e.select = m ∧ e.database = db), e.name = x) ↔
        (x.1 = db ∧ x.2.2 = m) ∧ k.Cancelable x := by rw [chosen, and_comm]
    simp only [same]

theorem expires_cancelAll (entries : List FutureEntry) : (k.cancelAll P entries).expires = k.expires := by
  induction entries generalizing k with
  | nil => rfl
  | cons e entries ih =>
    rw [cancelAll, List.foldl_cons, ← cancelAll, ih, execute_futureDel rfl]
    split
    · exact expires_write _ _
    · rfl

theorem swept_selectFReset (writable : k.Writable) : Swept (k.futures.map FutureEntry.name)
    (fun x => futureRow x.2.1 x.2.2 x.1) k.Cancelable db m k.get (k.selectFReset P db m).get := by
  refine .of_filter fun db' row => foldl_clears (fun (k : Kernel) (e : FutureEntry) => k.execute P e.cancel)
    Kernel.Writable (fun k => k.get db' row) (fun k e => k.Cancelable e.name)
    (fun e => db' = e.name.1 ∧ row = futureRow e.name.2.1 e.name.2.2 e.name.1) (fun k e writable => ?_)
    (fun k e writable goes hit => ?_) (fun k e writable other => ?_) (fun k e e' writable goes => ?_)
    (fun k e e' writable other hit goes => ?_) _ writable
  · exact writable.futureDel rfl
  · exact (get_futureDel writable rfl _ _).trans (if_pos ⟨goes, hit⟩)
  · exact (get_futureDel writable rfl _ _).trans (if_neg other)
  · exact ((cancelable_futureDel writable rfl _).mp goes).1
  · refine (cancelable_futureDel writable rfl _).mpr ⟨goes, fun own => other ?_⟩
    have own : e'.name = e.name := own
    exact ⟨own ▸ goes, own ▸ hit⟩

theorem FuturesGone.resettable (writable : k.Writable) (h : FuturesGone k (k.selectFReset P db m) db n) :
    k.FuturesResettable db n m where
  taken e he database select := by
    have none : Timetable.named FutureEntry.name e.name (k.selectFReset P db m).futures = [] := by
      refine List.eq_nil_iff_forall_not_mem.mpr fun e' he' => ?_
      obtain ⟨later, name⟩ := Timetable.mem_named.mp he'
      simp only [FutureEntry.name, Prod.mk.injEq] at name
      exact h.cleared e' later ⟨name.1.trans database, name.2.2.trans select⟩
    have here := mem_futures_iff.mp he
    rw [named_selectFReset writable] at none
    split at none
    · rename_i inside
      refine ⟨inside.1.2.symm.trans select, inside.2, ?_⟩
      cases held : Timetable.named FutureEntry.name e.name k.futures with
      | nil => simp [held] at here
      | cons first rest =>
        rw [held] at none here
        obtain rfl : rest = [] := none
        rw [List.mem_singleton.mp here]
    · rw [none] at here
      exact absurd here List.not_mem_nil
  rows key here :=
    List.mem_map.mp ((swept_selectFReset (P := P) writable).listed futureRow_of_name (h.gone key) here)
  spared other e he database select goes := by
    have kept := h.others e.name fun inside => other (select.symm.trans inside.2)
    rw [named_selectFReset writable, if_pos ⟨⟨database, select⟩, goes⟩] at kept
    have here := mem_futures_iff.mp he
    cases held : Timetable.named FutureEntry.name e.name k.futures with
    | nil => simp [held] at here
    | cons first rest =>
      have short := congrArg List.length kept
      simp [held] at short

theorem Kernel.FuturesResettable.gone (writable : k.Writable) (h : k.FuturesResettable db n m) :
    FuturesGone k (k.selectFReset P db m) db n where
  cleared e later inside := by
    rw [mem_futures_iff, named_selectFReset writable] at later
    split at later
    · have here : e ∈ k.futures := (Timetable.mem_named.mp (List.mem_of_mem_tail later)).1
      rw [(h.taken e here inside.1 inside.2).2.2] at later
      exact absurd later List.not_mem_nil
    · rename_i kept
      obtain ⟨rfl, goes, -⟩ := h.taken e (mem_futures_iff.mpr later) inside.1 inside.2
      exact kept ⟨inside, goes⟩
  others x outside := by
    rw [named_selectFReset writable]
    split
    · rename_i hit
      obtain ⟨⟨database, select⟩, goes⟩ := hit
      have other : m ≠ n := fun same => outside ⟨database, select.trans same⟩
      have none : Timetable.named FutureEntry.name x k.futures = [] := by
        refine List.eq_nil_iff_forall_not_mem.mpr fun e he => ?_
        obtain ⟨here, rfl⟩ := Timetable.mem_named.mp he
        exact h.spared other e here database select goes
      rw [none]
      rfl
    · rfl
  gone key := (swept_selectFReset writable).gone
    (List.forall_mem_map.mpr fun e he database select => ⟨(h.taken e he database select).1, (h.taken e he database select).2.1⟩)
    fun here => List.mem_map.mpr (h.rows key here)
  kept db' row outside := (swept_selectFReset writable).kept
    (fun other => List.forall_mem_map.mpr (h.spared other)) outside
  expires := expires_cancelAll _

/-- FRESET is exact when the select that it resets is the one that is meant and all its entries go, or nothing is
there. -/
theorem futures_gone_iff (writable : k.Writable) :
    FuturesGone k (k.selectFReset P db m) db n ↔ k.FuturesResettable db n m :=
  ⟨fun h => h.resettable writable, fun h => h.gone writable⟩

end

/-! ## The three commands -/

/-- What SFLUSH is to do: it is not refused for the current select, and an OK means that the rows of the select are
gone. -/
def FlushesSelect (P : Platform) (k : Kernel) (db : Bytes) (arg : Option Bytes) (current : ℕ) : Prop :=
  (arg = none → (commandSFlush arg current).isSome) ∧
  ∀ text ∈ commandSFlush arg current, ∀ interrupt,
    (k.reply P (sflushQuery db current text interrupt)).finished = true →
      RowsGone k (k.execute P (sflushQuery db current text interrupt)) db (intended arg current)

/-- What SRESET is to do, once its queries ran. -/
def ResetsExpires (P : Platform) (k : Kernel) (db : Bytes) (arg : Option Bytes) (current : ℕ) : Prop :=
  (arg = none → (commandSelectReset arg current).isSome) ∧
  ∀ m ∈ commandSelectReset arg current, ExpiresGone k (k.selectReset P db m) db (intended arg current)

/-- What FRESET is to do, once its queries ran. -/
def ResetsFutures (P : Platform) (k : Kernel) (db : Bytes) (arg : Option Bytes) (current : ℕ) : Prop :=
  (arg = none → k.Opened db → (commandFReset (k.databases db).closing arg current).isSome) ∧
  ∀ m ∈ commandFReset (k.databases db).closing arg current,
    FuturesGone k (k.selectFReset P db m) db (intended arg current)

section
variable {P : Platform} {k : Kernel} {db : Bytes} {arg : Option Bytes} {current : ℕ}

theorem sflush_finished (opened : k.Opened db) (text : Bytes) :
    (k.reply P (sflushQuery db current text none)).finished = true := by
  have ran : prepare P .sflush k (sflushQuery db current text none).query =
      Run.sflush k (sflushQuery db current text none).plain := prepare_opened opened
  change (prepare P .sflush k _).2.finished = true
  rw [ran]
  rfl

theorem commandSelectReset_iff (low : 1 ≤ current) (high : current ≤ 100) {m : ℕ} :
    m ∈ commandSelectReset arg current ↔
      (arg.all fun use => checkValidPos use && checkRange use 1 100) = true ∧ m = resetSelect arg current := by
  simp only [commandSelectReset, Option.mem_def, Option.ite_none_right_eq_some, Option.some.injEq]
  refine and_congr_right fun accepted => ?_
  rw [convtoUnsigned_useText low high, eq_comm]
  cases arg with
  | none => rfl
  | some use => exact (Bool.and_eq_true_iff.mp accepted).2

theorem commandFReset_iff (low : 1 ≤ current) (high : current ≤ 100) {closing : Bool} {m : ℕ} :
    m ∈ commandFReset closing arg current ↔
      (arg.all fun use => checkValid use && checkRange use 1 100) = true ∧ closing = false ∧
        m = resetSelect arg current := by
  simp only [commandFReset, Option.mem_def, Option.ite_none_right_eq_some, Option.ite_none_left_eq_some,
    Option.some.injEq, Bool.not_eq_true]
  refine and_congr_right fun accepted => and_congr_right fun _ => ?_
  rw [convtoUnsigned_useText low high, eq_comm]
  cases arg with
  | none => rfl
  | some use => exact (Bool.and_eq_true_iff.mp accepted).2

end

/-- When SFLUSH, SRESET and FRESET hit exactly the select that is meant. -/
theorem select_resets_iff {P : Platform} {s : Server} {db : Bytes} {arg : Option Bytes} {current : ℕ}
    (reach : (Server.machine P).Reachable s) (low : 1 ≤ current) (high : current ≤ 100) :
    (FlushesSelect P s.kernel db arg current ↔
      (arg = none → 49 ≤ current ∧ current ≤ 57) ∧
      (useText arg current ∈ commandSFlush arg current → s.kernel.Opened db →
        s.kernel.get db [] = none ∧
          (useText arg current = convtoString (intended arg current) ∨
            s.kernel.NoneNamed db (useText arg current) ∧
              s.kernel.NoneNamed db (convtoString (intended arg current))))) ∧
    (ResetsExpires P s.kernel db arg current ↔
      ((arg.all fun use => checkValidPos use && checkRange use 1 100) = true →
        s.kernel.ExpiresResettable db (intended arg current) (resetSelect arg current))) ∧
    (ResetsFutures P s.kernel db arg current ↔
      ((arg.all fun use => checkValid use && checkRange use 1 100) = true → s.kernel.Opened db →
        s.kernel.FuturesResettable db (intended arg current) (resetSelect arg current))) := by
  obtain ⟨writable, -⟩ := reachable_inOrder reach
  have names := reachable_rowNames reach
  refine ⟨?_, ?_, ?_⟩
  · have only {text : Bytes} (given : text ∈ commandSFlush arg current) : text = useText arg current := by
      simp only [commandSFlush, Option.mem_def, Option.ite_none_right_eq_some, Option.some.injEq] at given
      exact given.2.symm
    have accepts : (arg = none → (commandSFlush arg current).isSome) ↔ (arg = none → 49 ≤ current ∧ current ≤ 57) :=
      forall_congr' fun none => by rw [none, commandSFlush_none low high]
    rw [FlushesSelect, accepts]
    refine and_congr_right fun _ => ⟨fun h given opened => ?_, fun h text given interrupt ok => ?_⟩
    · have ok : (s.kernel.reply P (sflushQuery db current (useText arg current) none)).finished = true :=
        sflush_finished opened _
      exact (rows_gone_iff names writable ok).mp (h _ given none ok)
    · obtain rfl := only given
      exact (rows_gone_iff names writable ok).mpr (h given (sflush_ok ok).1)
  · have accepts : arg = none → (commandSelectReset arg current).isSome := by
      rintro rfl
      rfl
    rw [ResetsExpires, and_iff_right accepts]
    simp only [commandSelectReset_iff low high, and_imp]
    refine ⟨fun h accepted => (expires_gone_iff writable).mp (h _ accepted rfl), ?_⟩
    rintro h _ accepted rfl
    exact (expires_gone_iff writable).mpr (h accepted)
  · have accepts : arg = none → s.kernel.Opened db →
      (commandFReset (s.kernel.databases db).closing arg current).isSome := by
      rintro rfl opened
      rw [show (s.kernel.databases db).closing = false from opened]
      rfl
    rw [ResetsFutures, and_iff_right accepts]
    simp only [commandFReset_iff low high, and_imp]
    refine ⟨fun h accepted opened => (futures_gone_iff writable).mp (h _ accepted opened rfl), ?_⟩
    rintro h _ accepted opened rfl
    exact (futures_gone_iff writable).mpr (h accepted opened)

/-- SFLUSH 1 on a store with a row of select 1. -/
theorem sflush_one_exact : ∃ s, (Server.machine Server.integers).Reachable s ∧
    (s.kernel.get (lit "db") (keyRow (lit "k") 1 intKey)).isSome ∧
    FlushesSelect Server.integers s.kernel (lit "db") (some (lit "1")) 3 := by
  have h : ((Server.machine Server.integers).exec (fun _ _ => True) Server.fresh
      [.request (inDb .set (lit "k") (lit "v"))]).any fun s =>
        (s.kernel.get (lit "db") (keyRow (lit "k") 1 intKey)).isSome ∧ s.kernel.get (lit "db") [] = none := by decide
  obtain ⟨s, reached, here, empty⟩ := Machine.exec_holds h (.initial Server.fresh_initial)
  have exact_iff : (FlushesSelect Server.integers s.kernel (lit "db") (some (lit "1")) 3 ↔ _) ∧ _ :=
    select_resets_iff reached (by decide) (by decide)
  exact ⟨s, reached, here, exact_iff.1.mpr ⟨fun none => (nomatch none), fun _ _ => ⟨empty, .inl (by decide)⟩⟩⟩

/-- Without an argument in select 1: SFLUSH is refused, SRESET and FRESET reset select 0. -/
theorem current_select_missed : ∃ s, (Server.machine Server.integers).Reachable s ∧
    commandSFlush none 1 = none ∧ commandSelectReset none 1 = some 0 ∧ commandFReset false none 1 = some 0 ∧
    ¬ FlushesSelect Server.integers s.kernel (lit "db") none 1 ∧
    ¬ ResetsExpires Server.integers s.kernel (lit "db") none 1 ∧
    ¬ ResetsFutures Server.integers s.kernel (lit "db") none 1 := by
  have h : ((Server.machine Server.integers).exec (fun _ _ => True) Server.fresh
      [.request { inDb .setex (lit "k") (lit "v") with id := 5 },
        .request { inDb .future (lit "f") (lit "w") with id := 9 }]).any fun s =>
        (s.kernel.databases (lit "db")).closing = false ∧
        fiveEntry ∈ (s.kernel.selectReset Server.integers (lit "db") 0).expires ∧
        ⟨lit "db", lit "f", 1, 9, []⟩ ∈ (s.kernel.selectFReset Server.integers (lit "db") 0).futures := by decide
  obtain ⟨s, reached, opened, expiry, future⟩ := Machine.exec_holds h (.initial Server.fresh_initial)
  refine ⟨s, reached, by decide, by decide, by decide, fun flush => ?_,
    fun reset => ?_, fun reset => ?_⟩
  · exact absurd (flush.1 rfl) (by decide)
  · exact (reset.2 0 (by decide)).cleared _ expiry ⟨rfl, rfl⟩
  · exact (reset.2 0 (by rw [opened]; decide)).cleared _ future ⟨rfl, rfl⟩

end BerylDB.Store
