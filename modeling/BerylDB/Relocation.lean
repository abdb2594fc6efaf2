import BerylDB.Preparing
import BerylDB.TimetableOrder

/-! # Keys that change their place

RENAME, MOVE, CLONE, COPY and TRANSFER ask `CheckDest` about another place and run on the registered row.
What they leave there is read off their updates, for every reachable store. -/
namespace BerylDB.Store
open Text QueryBase Kernel Transition

/-! ## The table in the order of its times -/

/-- The entries of `ExpireManager` in the order of their times, which a `signed int` holds. -/
structure InOrder (expires : List ExpireEntry) : Prop where
  sorted : Timetable.Sorted ExpireEntry.schedule expires
  range : ∀ e ∈ expires, 0 ≤ e.schedule ∧ e.schedule < 2 ^ 31

theorem InOrder.sublist {expires expires' : List ExpireEntry} (h : InOrder expires) (fewer : expires'.Sublist expires) :
    InOrder expires' where
  sorted := h.sorted.sublist fewer
  range e he := h.range e (fewer.mem he)

theorem InOrder.add {expires : List ExpireEntry} (h : InOrder expires) {e : ExpireEntry} (low : 0 ≤ e.schedule)
    (high : e.schedule < 2 ^ 31) : InOrder (Timetable.add ExpireEntry.schedule e expires) where
  sorted := h.sorted.add
  range x hx := by
    rcases Timetable.mem_add.mp hx with rfl | hx
    · exact ⟨low, high⟩
    · exact h.range x hx

section
variable {k : Kernel}

theorem InOrder.delete (h : InOrder k.expires) (db key : Bytes) (select : ℕ) :
    InOrder (k.deleteExpire db key select).expires := h.sublist List.eraseP_sublist

theorem InOrder.update (h : InOrder k.expires) (u : Update)
    (fits : ∀ db time key select, u = .schedule db time key select → time < 2 ^ 31) : InOrder (k.update u).expires := by
  cases u with
  | put db row value => exact (expires_write db _).symm ▸ h
  | erase db row => exact (expires_write db _).symm ▸ h
  | schedule db time key select =>
    rw [update_schedule, addExpire]
    split
    · exact h
    · rename_i low
      refine InOrder.add ?_ (not_lt.mp low) (fits db time key select rfl)
      split
      · exact h.delete db key select
      · exact h
  | cancel db key select => exact h.delete db key select
  | plan db time key select =>
    rw [update_plan, expires_addFuture]
    exact h
  | unplan db key select => exact h
  | close db => exact h.sublist List.filter_sublist

theorem InOrder.updates (h : InOrder k.expires) (us : List Update)
    (fits : ∀ db time key select, .schedule db time key select ∈ us → time < 2 ^ 31) :
    InOrder (k.updates us).expires := by
  induction us generalizing k with
  | nil => exact (updates_nil k).symm ▸ h
  | cons u us ih =>
    rw [updates_cons]
    refine ih (h.update u fun db time key select same => ?_) fun db time key select later => ?_
    · exact fits db time key select (same ▸ List.mem_cons_self)
    · exact fits db time key select (List.mem_cons_of_mem _ later)

end

/-- Every request schedules a time that went through a `signed int`. -/
theorem Outcome.fits {P : Platform} {k : Kernel} {r : Request} {us : List Update} (outcome : Outcome P k r us)
    {db key : Bytes}
    {time : ℤ} {select : ℕ} (schedules : .schedule db time key select ∈ us) : time < 2 ^ 31 := by
  cases outcome with
  | wiped cls => simp [wipe] at schedules
  | flushed cls => simp at schedules
  | near cls => simp at schedules
  | setex | deadline | renamedExpiring | copiedExpiring | movedExpiring | clonedExpiring | transferredExpiring =>
    simp only [List.mem_cons, List.not_mem_nil, or_false, reduceCtorEq, false_or, Update.schedule.injEq] at schedules
    rw [schedules.2.1]
    exact toSigned_lt _
  | _ => simp at schedules

theorem reachable_inOrder {P : Platform} {s : Server} (reach : (Server.machine P).Reachable s) :
    s.kernel.Writable ∧ InOrder s.kernel.expires := by
  refine Server.invariant (I := fun k => InOrder k.expires) reach ?_ ?_ ?_
  · intro s initial
    rw [initial.expires]
    exact ⟨.nil, by simp⟩
  · exact fun k time h => h
  · intro s a r us _ h _ _ _ outcome
    exact h.updates us fun db time key select schedules => outcome.fits schedules

/-! ## Deadlines -/

/-- The deadline that `Add` leaves of a name. -/
def Kernel.leftover (k : Kernel) (db key : Bytes) (select : ℕ) : Option ℤ :=
  (if 0 < k.expireTime db key select then k.deleteExpire db key select else k).deadline db key select

/-- Table and row give the key this deadline, or both none. -/
structure Kernel.ExpiresAt (k : Kernel) (db key : Bytes) (select : ℕ) (deadline : Option ℤ) : Prop where
  table : k.deadline db key select = deadline
  row : k.get db (expireRow key select db) = deadline.map fun t => convtoString t.toNat

section
variable {k : Kernel} {db db' key key' : Bytes} {select select' : ℕ} {t : ℤ}

theorem InOrder.ttl (h : InOrder k.expires) {r : Request} :
    r.ttl k = (k.deadline r.database r.key r.select).getD (-1) := expireTime_of_range h.range

theorem InOrder.deadline_of_positive (h : InOrder k.expires) {r : Request} (positive : 0 < r.ttl k) :
    k.deadline r.database r.key r.select = some (r.ttl k) := by
  rw [h.ttl] at positive ⊢
  cases held : k.deadline r.database r.key r.select with
  | none => simp [held] at positive
  | some t => rfl

theorem deadline_congr {k' : Kernel} (same : k'.expires = k.expires) : k'.deadline = k.deadline :=
  congrArg deadlineOf same

theorem expireTime_delete_other (other : (db', key', select') ≠ (db, key, select)) :
    (k.deleteExpire db key select).expireTime db' key' select' = k.expireTime db' key' select' := by
  unfold Kernel.expireTime
  rw [Kernel.deleteExpire, Timetable.lookup_delete_other other]

theorem leftover_eq : k.leftover db key select =
    (if 0 < k.expireTime db key select then (Timetable.named ExpireEntry.name (db, key, select) k.expires).tail.head?
      else Timetable.lookup ExpireEntry.name (db, key, select) k.expires).map ExpireEntry.schedule := by
  unfold Kernel.leftover Kernel.deadline deadlineOf
  split
  · rw [Kernel.deleteExpire, ← Timetable.head?_named, Timetable.named_delete, if_pos rfl]
  · rfl

theorem leftover_delete_other (other : (db', key', select') ≠ (db, key, select)) :
    (k.deleteExpire db key select).leftover db' key' select' = k.leftover db' key' select' := by
  rw [leftover_eq, leftover_eq, expireTime_delete_other other, Kernel.deleteExpire, Timetable.named_delete,
    if_neg other,
    Timetable.lookup_delete_other other]

theorem leftover_congr {k' : Kernel} (same : k'.expires = k.expires) : k'.leftover = k.leftover := by
  funext db key select
  rw [leftover_eq, leftover_eq, Kernel.expireTime, Kernel.expireTime, same]

theorem addExpire_late (low : 0 ≤ t) : k.addExpire db t key select true =
    { k with
      expires := Timetable.add ExpireEntry.schedule ⟨db, key, select, t⟩
        (if 0 < k.expireTime db key select then k.deleteExpire db key select else k).expires } := by
  rw [addExpire, if_neg (not_lt.mpr low)]
  split <;> rfl

/-- The key gets the new deadline if and only if `Add` leaves none that is earlier. -/
theorem InOrder.deadline_schedule (h : InOrder k.expires) (low : 0 ≤ t) :
    (k.addExpire db t key select true).deadline db key select = some t ↔ ∀ d ∈ k.leftover db key select, t ≤ d := by
  have sorted : Timetable.Sorted ExpireEntry.schedule
      (if 0 < k.expireTime db key select then k.deleteExpire db key select else k).expires := by
    split
    · exact (h.delete db key select).sorted
    · exact h.sorted
  have first (e : ExpireEntry) : (Timetable.lookup ExpireEntry.name e.name (Timetable.add ExpireEntry.schedule e _)).map
      ExpireEntry.schedule = some e.schedule ↔ _ := Timetable.time_add_self sorted
  rw [addExpire_late low]
  refine (first ⟨db, key, select, t⟩).trans ?_
  simp only [Kernel.leftover, Kernel.deadline, deadlineOf, ExpireEntry.name, Option.mem_def, Option.map_eq_some_iff,
    forall_exists_index, and_imp, forall_apply_eq_imp_iff₂]

theorem deadline_schedule_other (other : (db', key', select') ≠ (db, key, select)) :
    (k.addExpire db t key select true).deadline db' key' select' = k.deadline db' key' select' := by
  by_cases low : 0 ≤ t
  · rw [addExpire_late low]
    have new (e : ExpireEntry) (ne : (db', key', select') ≠ e.name) (l : List ExpireEntry) :
        Timetable.lookup ExpireEntry.name (db', key', select') (Timetable.add ExpireEntry.schedule e l) =
          Timetable.lookup ExpireEntry.name (db', key', select') l := Timetable.lookup_add_other ne
    refine congrArg (Option.map ExpireEntry.schedule) ((new ⟨db, key, select, t⟩ other _).trans ?_)
    split
    · exact Timetable.lookup_delete_other other
    · rfl
  · rw [addExpire, if_pos (not_le.mp low)]

end

/-! ## Registration -/

/-- The key has no row under the types that the registry asks for before this one. -/
def Kernel.NoneBefore (k : Kernel) (db key : Bytes) (select : ℕ) (type : Bytes) : Prop :=
  ∀ t ∈ typeRegs.takeWhile (· ≠ type), k.get db (keyRow key select t) = none

/-- The key has no row under another type. -/
def Kernel.OnlyType (k : Kernel) (db key : Bytes) (select : ℕ) (type : Bytes) : Prop :=
  ∀ t ∈ typeRegs, t ≠ type → k.get db (keyRow key select t) = none

theorem find?_eq_some_iff_takeWhile {α : Type} [DecidableEq α] (p : α → Bool) (l : List α) (b : α) :
    l.find? p = some b ↔ b ∈ l ∧ p b = true ∧ ∀ a ∈ l.takeWhile (· ≠ b), p a = false := by
  induction l with
  | nil => simp
  | cons a l ih =>
    by_cases here : p a = true
    · rw [List.find?_cons_of_pos here]
      constructor
      · rintro ⟨⟩
        exact ⟨List.mem_cons_self, here, by simp⟩
      · rintro ⟨-, -, none⟩
        by_contra other
        have ne : a ≠ b := fun same => other (congrArg some same)
        rw [List.takeWhile_cons_of_pos (by simpa using ne)] at none
        simp [none a List.mem_cons_self] at here
    · rw [List.find?_cons_of_neg here, ih, List.mem_cons]
      by_cases same : a = b
      · subst same
        simp [here]
      · rw [List.takeWhile_cons_of_pos (by simpa using same)]
        simp [Ne.symm same, here]

section
variable {k : Kernel} {db key type : Bytes} {select : ℕ}

theorem registered_iff : registered k db key select = some type ↔
    type ∈ typeRegs ∧ (k.get db (keyRow key select type)).isSome = true ∧ k.NoneBefore db key select type := by
  rw [QueryBase.registered, find?_eq_some_iff_takeWhile]
  simp [Kernel.NoneBefore]

theorem registered_none_iff (known : type ∈ typeRegs) : registered k db key select = none ↔
    k.get db (keyRow key select type) = none ∧ k.OnlyType db key select type := by
  rw [registered_none]
  constructor
  · exact fun none => ⟨none type known, fun t ht _ => none t ht⟩
  · rintro ⟨own, others⟩ t ht
    by_cases same : t = type
    · exact same ▸ own
    · exact others t ht same

theorem ne_of_mem_takeWhile {t : Bytes} (h : t ∈ typeRegs.takeWhile (· ≠ type)) : t ∈ typeRegs ∧ t ≠ type :=
  ⟨(List.takeWhile_sublist _).mem h, by simpa using List.mem_takeWhile_imp h⟩

end

/-- A request on the database `db`, in select 1. -/
def inDb (cls : QueryClass) (key value : Bytes) : Request where
  cls := cls
  database := lit "db"
  key := key
  select := 1
  value := value

/-! ## Rows and entries after the updates of a run -/

section
variable {k : Kernel} {r : Request}

@[simp] theorem expires_put (db row value : Bytes) : (k.update (.put db row value)).expires = k.expires :=
  expires_write db _

@[simp] theorem expires_erase (db row : Bytes) : (k.update (.erase db row)).expires = k.expires := expires_write db _

theorem deadline_of_empty (empty : k.expires = []) (db key : Bytes) (select : ℕ) : k.deadline db key select = none := by
  simp [Kernel.deadline, deadlineOf, Timetable.lookup, empty]

theorem lasting_of_empty (empty : k.expires = []) : ¬ r.Expiring k := by
  rintro ⟨-, positive⟩
  simp [Request.ttl, Kernel.expireTime, Timetable.lookup, empty] at positive

theorem get_update_put (writable : k.Writable) (db row value d x : Bytes) :
    (k.update (.put db row value)).get d x = if d = db ∧ x = row then some value else k.get d x := by
  rw [get_update writable]
  rfl

/-- A name that is free, or registered for the type of a row put under it, is then registered for that type. -/
theorem registered_put {db key type : Bytes} {select : ℕ} (writable : k.Writable) (known : type ∈ typeRegs)
    (free : registered k db key select = none ∨ registered k db key select = some type) (value : Bytes) :
    registered (k.update (.put db (keyRow key select type) value)) db key select = some type := by
  refine registered_iff.mpr ⟨known, ?_, fun t before => ?_⟩
  · rw [get_update_put writable, if_pos ⟨rfl, rfl⟩]
    rfl
  · obtain ⟨earlier, other⟩ := ne_of_mem_takeWhile before
    rw [get_update_put writable, if_neg fun h => other (keyRow_inj.mp h.2).2.2]
    rcases free with absent | registered
    · exact registered_none.mp absent t earlier
    · exact (registered_iff.mp registered).2.2 t before

theorem get_update_erase (writable : k.Writable) (db row d x : Bytes) :
    (k.update (.erase db row)).get d x = if d = db ∧ x = row then none else k.get d x := by
  rw [get_update writable]
  rfl

/-- A deadline that counts as positive goes through `signed int` as it is. -/
theorem toSigned_ttl (positive : 0 < r.ttl k) : toSigned ((r.ttl k).toNat : ℤ) = r.ttl k := by
  have high : r.ttl k < 2 ^ 31 := by
    unfold Request.ttl Kernel.expireTime
    split
    · exact toSigned_lt _
    · decide
  rw [Int.toNat_of_nonneg (by omega)]
  exact toSigned_of_range (by omega) high

/-- The rows after `value` was put in `new` and `mark` in `lookup`, and the row `gone` was deleted. -/
def PlacedRows (k k' : Kernel) (db : Bytes) (gone : Option Bytes) (new lookup value : Bytes) (mark : Option Bytes) :
    Prop :=
  ∀ db' row, k'.get db' row =
    if db' = db ∧ row ∈ gone then none
    else if db' = db ∧ row = new then some value
    else if db' = db ∧ row = lookup then mark
    else k.get db' row

end

section
variable {k k' : Kernel} {db new lookup value : Bytes} {gone mark : Option Bytes}

theorem PlacedRows.get_gone (rows : PlacedRows k k' db gone new lookup value mark) {row : Bytes}
    (deleted : row ∈ gone) :
    k'.get db row = none := by
  rw [rows, if_pos ⟨rfl, deleted⟩]

theorem PlacedRows.get_new (rows : PlacedRows k k' db gone new lookup value mark) (kept : new ∉ gone) :
    k'.get db new = some value := by
  rw [rows, if_neg fun h => kept h.2, if_pos ⟨rfl, rfl⟩]

theorem PlacedRows.get_mark (rows : PlacedRows k k' db gone new lookup value mark) (kept : lookup ∉ gone)
    (other : lookup ≠ new) : k'.get db lookup = mark := by
  rw [rows, if_neg fun h => kept h.2, if_neg fun h => other h.2, if_pos ⟨rfl, rfl⟩]

theorem PlacedRows.get_other (rows : PlacedRows k k' db gone new lookup value mark) {row : Bytes} (kept : row ∉ gone)
    (data : row ≠ new) (expiry : row ≠ lookup) (db' : Bytes) : k'.get db' row = k.get db' row := by
  rw [rows, if_neg fun h => kept h.2, if_neg fun h => data h.2, if_neg fun h => expiry h.2]

variable (writable : k.Writable)
include writable

theorem put_rows : PlacedRows k (k.updates [.put db new value]) db none new lookup value (k.get db lookup) := by
  intro db' row
  rw [get_updates writable]
  simp only [contents_cons, contents_nil, Update.contents, Option.not_mem_none, and_false, if_false]
  split
  · rfl
  · split
    · rename_i here
      rw [here.1, here.2]
    · rfl

theorem swap_rows (old : Bytes) :
    PlacedRows k (k.updates [.put db new value, .erase db old]) db (some old) new lookup value
    (k.get db lookup) := by
  intro db' row
  rw [get_updates writable]
  simp only [contents_cons, contents_nil, Update.contents, Option.mem_some_iff, eq_comm (a := old)]
  split
  · rfl
  · split
    · rfl
    · split
      · rename_i here
        rw [here.1, here.2]
      · rfl

theorem putExpire_rows {us : List Update} {text : Bytes}
    (same : contents us k.get = contents [.put db lookup text, .put db new value] k.get) :
    PlacedRows k (k.updates us) db none new lookup value (some text) := by
  intro db' row
  rw [get_updates writable, same]
  simp [Update.contents]

theorem swapExpire_rows {us : List Update} {old text : Bytes} (other : lookup ≠ new) (kept : lookup ≠ old)
    (same : contents us k.get = contents [.put db new value, .erase db old, .put db lookup text] k.get) :
    PlacedRows k (k.updates us) db (some old) new lookup value (some text) := by
  intro db' row
  rw [get_updates writable, same]
  simp only [contents_cons, contents_nil, Update.contents, Option.mem_some_iff, eq_comm (a := old)]
  by_cases expiry : db' = db ∧ row = lookup
  · rw [if_pos expiry, if_neg fun h => kept (expiry.2.symm.trans h.2), if_neg fun h => other (expiry.2.symm.trans h.2),
      if_pos expiry]
  · rw [if_neg expiry, if_neg expiry]

end

end BerylDB.Store
