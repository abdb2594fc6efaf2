import BerylDB.TableCalls

/-! # Values of futures

`Add`, `Delete` and `Exec` of `FutureManager`, in any order and at any times, against the value that the last `Add` of
a key was given. -/
namespace BerylDB.Store
open Text

/-- The calls with all their arguments, and the clock between them. -/
inductive FutureCall where
  | add (db : Bytes) (schedule : ℤ) (key value : Bytes) (select : ℕ) (epoch : Bool)
  | delete (db key : Bytes) (select : ℕ)
  | exec (db key : Bytes) (select : ℕ)
  | clock (now : ℤ)
deriving DecidableEq

namespace Kernel

/-- `FutureManager::GetVal`. -/
def getVal (k : Kernel) (db key : Bytes) (select : ℕ) : ℤ × Bytes :=
  match Timetable.lookup FutureEntry.name (db, key, select) k.futures with
  | some entry => (1, entry.value)
  | none => (0, [])

/-- `FutureManager::Exec`. -/
def execFuture (k : Kernel) (db key : Bytes) (select : ℕ) : Bool × Kernel :=
  match Timetable.lookup FutureEntry.name (db, key, select) k.futures with
  | some _ => (true, k.deleteFuture db key select)
  | none => (false, k)

/-- `Add` does not read its `value`. -/
def valueCall (k : Kernel) : FutureCall → Kernel
  | .add db schedule key _ select epoch => k.addFuture db schedule key select epoch
  | .delete db key select => k.deleteFuture db key select
  | .exec db key select => (k.execFuture db key select).2
  | .clock now => { k with now }

def valueCalls (k : Kernel) (calls : List FutureCall) : Kernel := calls.foldl valueCall k

end Kernel

/-- The value of the last successful `Add` of each key, when no `Delete` or `Exec` came after it. -/
abbrev Values := Bytes × Bytes × ℕ → Option Bytes

namespace Values

def call (s : Values) : FutureCall → Values
  | .add db schedule key value select _ => if schedule < 0 then s else Function.update s (db, key, select) (some value)
  | .delete db key select => Function.update s (db, key, select) none
  | .exec db key select => Function.update s (db, key, select) none
  | .clock _ => s

def calls (s : Values) (cs : List FutureCall) : Values := cs.foldl call s

end Values

namespace Kernel

/-- `GetVal` answers with the recorded values. -/
def Readable (k : Kernel) (s : Values) : Prop :=
  ∀ db key select, k.getVal db key select = match s (db, key, select) with
    | some value => (1, value)
    | none => (0, [])

/-- A successful `Add` has an empty value, and what is deleted has no second entry. -/
def Allows (k : Kernel) : FutureCall → Prop
  | .add _ schedule _ value _ _ => 0 ≤ schedule → value = []
  | .delete db key select => (Timetable.named FutureEntry.name (db, key, select) k.futures).length ≤ 1
  | .exec db key select => (Timetable.named FutureEntry.name (db, key, select) k.futures).length ≤ 1
  | .clock _ => True

def AllowsAll (k : Kernel) (calls : List FutureCall) : Prop := Transition.Along valueCall Allows k calls

/-- No entry has a value. -/
def Hollow (k : Kernel) : Prop := ∀ e ∈ k.futures, e.value = []

variable {k : Kernel} {s : Values} {db key value : Bytes} {schedule : ℤ} {select : ℕ} {epoch : Bool}

theorem readable_iff : k.Readable s ↔
    ∀ name, (Timetable.lookup FutureEntry.name name k.futures).map FutureEntry.value = s name := by
  have same (db key : Bytes) (select : ℕ) : (k.getVal db key select = match s (db, key, select) with
      | some value => (1, value)
      | none => (0, [])) ↔
      (Timetable.lookup FutureEntry.name (db, key, select) k.futures).map FutureEntry.value = s (db, key, select) := by
    unfold getVal
    cases Timetable.lookup FutureEntry.name (db, key, select) k.futures <;> cases s (db, key, select) <;> simp
  constructor
  · rintro h ⟨db, key, select⟩
    exact (same db key select).mp (h db key select)
  · intro h db key select
    exact (same db key select).mpr (h (db, key, select))

/-- `Exec` leaves what `Delete` leaves. -/
theorem execFuture_snd : (k.execFuture db key select).2 = k.deleteFuture db key select := by
  unfold execFuture
  cases held : Timetable.lookup FutureEntry.name (db, key, select) k.futures with
  | some e => rfl
  | none =>
    dsimp only
    rw [deleteFuture, Timetable.delete_eq_self.mpr held]

theorem Hollow.deleteFuture (h : k.Hollow) : (k.deleteFuture db key select).Hollow := fun e here =>
  h e (Timetable.mem_of_mem_delete here)

variable (k db key select epoch) in
/-- A successful `Add` brings in an entry without a value. -/
theorem addFuture_hollow (positive : 0 ≤ schedule) : ∃ e : FutureEntry, e.name = (db, key, select) ∧ e.value = [] ∧
    (k.addFuture db schedule key select epoch).futures =
      Timetable.replace FutureEntry.schedule FutureEntry.name toSigned e k.futures := by
  rw [addFuture_futures, if_neg (not_lt.mpr positive)]
  exact ⟨_, rfl, rfl, rfl⟩

theorem addFuture_refused (negative : schedule < 0) : k.addFuture db schedule key select epoch = k := if_pos negative

theorem Hollow.addFuture (h : k.Hollow) : (k.addFuture db schedule key select epoch).Hollow := by
  by_cases negative : schedule < 0
  · rw [addFuture_refused negative]
    exact h
  · obtain ⟨e, -, empty, added⟩ := addFuture_hollow k db key select epoch (not_lt.mp negative)
    rw [Hollow, added]
    intro x here
    rcases Timetable.mem_of_mem_replace here with rfl | old
    · exact empty
    · exact h x old

theorem Hollow.valueCall (h : k.Hollow) (c : FutureCall) : (k.valueCall c).Hollow := by
  cases c with
  | add db schedule key value select epoch => exact h.addFuture
  | delete db key select => exact h.deleteFuture
  | exec db key select =>
    rw [Kernel.valueCall, execFuture_snd]
    exact h.deleteFuture
  | clock now => exact h

/-- A key that is in a hollow list is read with an empty value. -/
theorem Hollow.lookup (h : k.Hollow) {e : FutureEntry} (here : e ∈ k.futures) :
    (Timetable.lookup FutureEntry.name e.name k.futures).map FutureEntry.value = some [] := by
  cases held : Timetable.lookup FutureEntry.name e.name k.futures with
  | some x => exact congrArg some (h x (Timetable.lookup_some held).1)
  | none => exact absurd rfl (Timetable.lookup_none.mp held e here)

/-- A value that was added is read when it is empty. -/
theorem add_readable (hollow : k.Hollow) (h : k.Readable s) :
    (k.addFuture db schedule key select epoch).Readable (s.call (.add db schedule key value select epoch)) ↔
      (0 ≤ schedule → value = []) := by
  by_cases negative : schedule < 0
  · rw [addFuture_refused negative, Values.call, if_pos negative]
    exact iff_of_true h fun positive => absurd negative (not_lt.mpr positive)
  have positive : 0 ≤ schedule := not_lt.mp negative
  obtain ⟨e, named, -, added⟩ := addFuture_hollow k db key select epoch positive
  have after : (k.addFuture db schedule key select epoch).Hollow := hollow.addFuture
  have own := after.lookup (e := e) (by rw [added]; exact Timetable.mem_replace_self)
  rw [readable_iff] at h ⊢
  rw [named, added] at own
  rw [added, Values.call, if_neg negative]
  constructor
  · intro all _
    have read := all (db, key, select)
    rw [own, Function.update_self] at read
    exact (Option.some.inj read).symm
  · intro empty name
    by_cases same : name = (db, key, select)
    · rw [same, own, Function.update_self, empty positive]
    · rw [Function.update_of_ne same, ← h name, Timetable.lookup_replace_other (named ▸ same)]

/-- A deletion is seen when there is no second entry. -/
theorem delete_readable (h : k.Readable s) :
    (k.deleteFuture db key select).Readable (Function.update s (db, key, select) none) ↔
      (Timetable.named FutureEntry.name (db, key, select) k.futures).length ≤ 1 := by
  rw [readable_iff] at h ⊢
  have own : (Timetable.lookup FutureEntry.name (db, key, select) (k.deleteFuture db key select).futures).map
      FutureEntry.value = none ↔ (Timetable.named FutureEntry.name (db, key, select) k.futures).length ≤ 1 := by
    rw [Option.map_eq_none_iff, deleteFuture, ← Timetable.head?_named, Timetable.named_delete, if_pos rfl,
      List.head?_eq_none_iff, ← List.length_eq_zero_iff, List.length_tail]
    omega
  rw [← own]
  constructor
  · intro all
    exact (all (db, key, select)).trans (Function.update_self _ _ _)
  · intro gone name
    by_cases same : name = (db, key, select)
    · rw [same, Function.update_self, gone]
    · rw [Function.update_of_ne same, deleteFuture, Timetable.lookup_delete_other same, h]

/-- A call keeps the values readable if and only if it is allowed. -/
theorem valueCall_readable (hollow : k.Hollow) (h : k.Readable s) (c : FutureCall) :
    (k.valueCall c).Readable (s.call c) ↔ k.Allows c := by
  cases c with
  | add db schedule key value select epoch => exact add_readable hollow h
  | delete db key select => exact delete_readable h
  | exec db key select =>
    rw [valueCall, execFuture_snd]
    exact delete_readable h
  | clock now => exact iff_of_true h trivial

theorem valueCalls_readable (hollow : k.Hollow) (h : k.Readable s) (calls : List FutureCall) :
    (∀ past, past <+: calls → (k.valueCalls past).Readable (s.calls past)) ↔ k.AllowsAll calls := by
  have exactly : Transition.Exact (fun (p : Kernel × Values) c => (p.1.valueCall c, p.2.call c)) (fun p _ => p.1.Hollow)
      (fun p => p.1.Readable p.2) (fun p c => p.1.Allows c) :=
    { keeps := fun _ c _ hollow => hollow.valueCall c
      judges := fun _ c _ hollow h => valueCall_readable hollow h c }
  have prefixes := exactly.prefixes calls (s := (k, s)) hollow h
  simp only [Transition.foldl_pair] at prefixes
  rw [Transition.along_pair] at prefixes
  exact prefixes

end Kernel

/-- After every call of a sequence `GetVal` answers with the recorded values, if and only if each successful `Add` has an
empty value and each `Delete` and `Exec` finds at most one entry. -/
theorem future_values_iff (k : Kernel) (calls : List FutureCall) :
    (∀ past, past <+: calls → (k.noEntries.valueCalls past).Readable (Values.calls (fun _ => none) past)) ↔
      k.noEntries.AllowsAll calls := by
  refine Kernel.valueCalls_readable ?_ ?_ calls
  · exact fun e none => absurd none List.not_mem_nil
  · exact fun db key select => rfl

/-- The value of an `Add` is read back as an empty one. -/
theorem future_value_lost :
    let calls := [.add (lit "db") 10 (lit "a") (lit "hello") 1 false]
    (Server.fresh.kernel.noEntries.valueCalls calls).getVal (lit "db") (lit "a") 1 = (1, []) ∧
    ¬ (Server.fresh.kernel.noEntries.valueCalls calls).Readable (Values.calls (fun _ => none) calls) := by
  refine ⟨by decide, fun readable => ?_⟩
  exact absurd (readable (lit "db") (lit "a") 1) (by decide)

end BerylDB.Store
