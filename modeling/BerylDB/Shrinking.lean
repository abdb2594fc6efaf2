import BerylDB.SequenceCommands

/-! # LPOPALL, LRESIZE and VRESIZE

The commands that take many items from a sequence at once. -/
namespace BerylDB.Store
open Text QueryBase Kernel Transition

inductive SequenceKind where
  | list | vector
deriving DecidableEq

namespace SequenceKind

def type : SequenceKind → Bytes
  | list => intList
  | vector => intVector

def commandResize (db : Bytes) (select : ℕ) (key value : Bytes) : SequenceKind → Option Request
  | list => commandLResize db select key value
  | vector => commandVResize db select key value

end SequenceKind

/-! ## LPOPALL -/

section
variable {P : Platform} {k : Kernel} {r : Request} {db key load arg : Bytes} {select : ℕ} {items : List Bytes}
  {kind : SequenceKind} {q : QueryBase}

theorem popAll_sublist (items : List Bytes) (key : Bytes) : (ListHandler.popAll items key).Sublist items := by
  unfold ListHandler.popAll
  split_ifs
  · exact List.Sublist.refl _
  · exact List.nil_sublist _
  · exact List.filter_sublist

theorem lpopall_stored (loaded : Loaded k r load q) : (Run.lpopall k q).1 =
    ListHandler.container.stored (ListHandler.popAll (ListHandler.create load) r.value) := by
  rw [Run.lpopall, loaded.onItemsWrite, store_stored, loaded.value]

/-- LPOPALL keeps exactly the other items if and only if the list has no single item, or the value in it. -/
theorem occurrences_removed_iff (writable : k.Writable) (opened : k.Opened r.database)
    (registered : r.registered k = some intList)
    (held : k.holds ListHandler.container r.database (r.row intList) = some items)
    (handled : commandPopAll db select key arg = some r) (nonempty : stripe arg ≠ []) :
    (k.execute P r).holds ListHandler.container r.database (r.row intList) =
        ListHandler.container.kept (items.filter (· ≠ stripe arg)) ↔ items.length ≠ 1 ∨ stripe arg ∈ items := by
  obtain ⟨load, got, rfl⟩ := ListHandler.holds_some held
  obtain ⟨-, -, rfl⟩ := simpleChecked_some.mp handled
  obtain ⟨q, loaded, executed, -⟩ := writer_ran (P := P) writable opened registered got rfl rfl
  have valid : ∀ item ∈ ListHandler.popAll (ListHandler.create load) (stripe arg), item ≠ [] :=
    fun item here => ListHandler.create_ne_nil load item ((popAll_sublist _ _).subset here)
  rw [executed, lpopall_stored loaded, holds_stored writable valid, ListHandler.container.kept_injective.eq_iff,
    ListHandler.popAll, if_neg nonempty]
  by_cases single : (ListHandler.create load).length = 1
  · obtain ⟨only, same⟩ := List.length_eq_one_iff.mp single
    rw [if_pos single, same]
    by_cases here : only = stripe arg <;> simp [here, eq_comm]
  · exact iff_of_true (if_neg single) (.inl single)

end

theorem occurrences_removed_two : ∃ s, (Server.machine Server.integers).Reachable s ∧
    ∃ r, commandPopAll (lit "db") 1 (lit "l") (lit "\"a\"") = some r ∧
      (s.kernel.execute Server.integers r).holds ListHandler.container (lit "db") (keyRow (lit "l") 1 intList) = none := by
  obtain ⟨s, reached, writable, opened, registered, held⟩ := list_a
  have handled : commandPopAll (lit "db") 1 (lit "l") (lit "\"a\"") = some (inDb .lpopall (lit "l") (lit "a")) := by decide
  have removed := occurrences_removed_iff (P := Server.integers) (r := inDb .lpopall (lit "l") (lit "a")) writable opened
    registered held handled (by decide)
  exact ⟨s, reached, _, handled, removed.mpr (.inr (by decide))⟩

/-- The only item is taken, whatever the value is. -/
theorem lpopall_takes_other : ∃ s, (Server.machine Server.integers).Reachable s ∧
    s.kernel.holds ListHandler.container (lit "db") (keyRow (lit "l") 1 intList) = some [lit "a"] ∧
    ∃ r, commandPopAll (lit "db") 1 (lit "l") (lit "\"b\"") = some r ∧
      (s.kernel.execute Server.integers r).holds ListHandler.container (lit "db") (keyRow (lit "l") 1 intList) ≠
        ListHandler.container.kept ([lit "a"].filter (· ≠ stripe (lit "\"b\""))) := by
  have h : ((Server.machine Server.integers).exec (fun _ _ => True) Server.fresh
      [.request (inDb .lpush (lit "l") (lit "a"))]).any fun s =>
        (s.kernel.get (lit "db") (keyRow (lit "l") 1 intList)).map ListHandler.create = some [lit "a"] ∧
        ((s.kernel.execute Server.integers (inDb .lpopall (lit "l") (lit "b"))).get (lit "db")
          (keyRow (lit "l") 1 intList)).map ListHandler.create = none := by decide
  obtain ⟨s, reached, held, gone⟩ := Machine.exec_holds h (.initial Server.fresh_initial)
  refine ⟨s, reached, held, inDb .lpopall (lit "l") (lit "b"), by decide, fun same => ?_⟩
  exact absurd (gone.symm.trans same) (by decide)

/-! ## LRESIZE and VRESIZE -/

section
variable {P : Platform} {k : Kernel} {r : Request} {db key load arg : Bytes} {select : ℕ} {items : List Bytes}
  {kind : SequenceKind} {q : QueryBase}

/-- The empty items that `resize` fills up with are not in the row. -/
theorem filter_resize {items : List Bytes} (nonempty : ∀ item ∈ items, item ≠ []) (size : ℕ) :
    (ListHandler.resize items size).filter (· ≠ []) = items.take size := by
  rw [ListHandler.resize, List.filter_append, List.filter_eq_self.mpr, List.filter_eq_nil_iff.mpr, List.append_nil]
  · intro item filled
    simp [List.eq_of_mem_replicate filled]
  · intro item here
    simpa using nonempty item (List.mem_of_mem_take here)

/-- What stays of the row: nothing when it is resized to nothing. -/
theorem resize_eq_nil {items : List Bytes} {size : ℕ} : ListHandler.resize items size = [] ↔ size = 0 := by
  rw [ListHandler.resize, List.append_eq_nil_iff, List.take_eq_nil_iff, List.replicate_eq_nil_iff]
  cases items with
  | nil => simp
  | cons item items =>
    simp only [reduceCtorEq, or_false, List.length_cons]
    omega

theorem resize_stored (loaded : Loaded k r load q) {run : Writer} (body : r.cls.body P = .writer run)
    (cls : r.cls = .lresize ∨ r.cls = .vresize) : (run k q).1 =
      ListHandler.container.stored (ListHandler.resize (ListHandler.create load) (convtoUnsigned r.value)) := by
  rcases cls with cls | cls <;> rw [cls] at body <;> cases body
  · rw [Run.lresize, loaded.onItemsWrite, store_stored, loaded.value]
  · rw [Run.vresize, loaded.onItemsWrite, store_stored, loaded.value]

/-- The first items stay, and the row is deleted when the size is read as 0. -/
theorem holds_resized (writable : k.Writable) {row : Bytes} (nonempty : ∀ item ∈ items, item ≠ []) (size : ℕ) :
    (k.apply db row (ListHandler.container.stored (ListHandler.resize items size))).holds ListHandler.container db row =
      if size = 0 then none else some (items.take size) := by
  rw [Container.stored]
  by_cases zero : size = 0
  · rw [if_neg, if_pos zero, holds_deleted writable]
    change ¬ 0 < (ListHandler.resize items size).length
    rw [resize_eq_nil.mpr zero, List.length_nil]
    exact Nat.lt_irrefl 0
  · rw [if_pos, if_neg zero, holds_put writable, ← filter_resize nonempty]
    · exact congrArg some (ListHandler.create_asString_filter _)
    · exact List.length_pos_iff.mpr (mt resize_eq_nil.mp zero)

/-- LRESIZE and VRESIZE leave the first items if and only if the size has 32 bits, or, for a row without an item, if and
only if the size is read as 0. -/
theorem resized_iff (writable : k.Writable) (opened : k.Opened r.database)
    (registered : r.registered k = some kind.type)
    (held : k.holds ListHandler.container r.database (r.row kind.type) = some items)
    (handled : kind.commandResize db select key arg = some r) :
    (k.execute P r).holds ListHandler.container r.database (r.row kind.type) =
        ListHandler.container.kept (items.take (digitsValue arg)) ↔
      if items = [] then digitsValue arg = 0 ∨ 2 ^ 32 ≤ digitsValue arg else digitsValue arg < 2 ^ 32 := by
  obtain ⟨load, got, rfl⟩ := ListHandler.holds_some held
  have nonempty := ListHandler.create_ne_nil load
  have position : checkValidPos arg = true := by cases kind <;> exact (Option.ite_none_right_eq_some.mp handled).1
  have resized : (k.execute P r).holds ListHandler.container r.database (r.row kind.type) =
      if convtoUnsigned arg = 0 then none else some ((ListHandler.create load).take (convtoUnsigned arg)) := by
    cases kind
    all_goals
      obtain ⟨-, made⟩ := Option.ite_none_right_eq_some.mp handled
      obtain ⟨-, rfl⟩ := simpleRetro_some.mp made
      obtain ⟨q, loaded, executed, -⟩ := writer_ran (P := P) writable opened registered got rfl rfl
      rw [executed, resize_stored (P := P) loaded rfl (by simp), stripe_pos position, holds_resized writable nonempty]
  rw [resized, convtoUnsigned_pos position]
  generalize ListHandler.create load = items
  generalize digitsValue arg = number
  by_cases empty : items = []
  · have none : ListHandler.container.kept (items.take number) = none := by rw [empty, List.take_nil, ListHandler.kept_nil]
    rw [none, if_pos empty, ite_eq_left_iff]
    simp only [reduceCtorEq, imp_false, not_not]
    split_ifs <;> omega
  · rw [if_neg empty]
    have some_taken (positive : number ≠ 0) : ListHandler.container.kept (items.take number) = some (items.take number) :=
      ListHandler.kept_of_ne_nil fun none => (List.take_eq_nil_iff.mp none).elim positive empty
    by_cases small : number < 2 ^ 32
    · rw [if_pos small]
      refine iff_of_true ?_ small
      by_cases zero : number = 0
      · rw [if_pos zero, zero, List.take_zero, ListHandler.kept_nil]
      · rw [if_neg zero, some_taken zero]
    · rw [if_neg small, if_pos rfl, some_taken (by omega)]
      exact iff_of_false (fun none => nomatch none) small

end

theorem resized_one : ∃ s, (Server.machine Server.integers).Reachable s ∧
    ∃ r, commandLResize (lit "db") 1 (lit "l") (lit "3") = some r ∧
      (s.kernel.execute Server.integers r).holds ListHandler.container (lit "db") (keyRow (lit "l") 1 intList) =
        some [lit "a"] := by
  obtain ⟨s, reached, writable, opened, registered, held⟩ := list_a
  have handled : SequenceKind.list.commandResize (lit "db") 1 (lit "l") (lit "3") =
      some (inDb .lresize (lit "l") (lit "3")) := by decide
  have registered : (inDb .lresize (lit "l") (lit "3")).registered s.kernel = some SequenceKind.list.type := registered
  have resized := resized_iff (P := Server.integers) writable opened registered held handled
  exact ⟨s, reached, _, handled, resized.mpr (by decide)⟩

/-- A size of 33 bits is read as 0, and the list is lost. -/
theorem lresize_loses : ∃ s, (Server.machine Server.integers).Reachable s ∧
    s.kernel.holds ListHandler.container (lit "db") (keyRow (lit "l") 1 intList) = some [lit "a"] ∧
    ∃ r, commandLResize (lit "db") 1 (lit "l") (lit "4294967296") = some r ∧
      (s.kernel.execute Server.integers r).holds ListHandler.container (lit "db") (keyRow (lit "l") 1 intList) ≠
        ListHandler.container.kept ([lit "a"].take (digitsValue (lit "4294967296"))) := by
  have h : ((Server.machine Server.integers).exec (fun _ _ => True) Server.fresh
      [.request (inDb .lpush (lit "l") (lit "a"))]).any fun s =>
        (s.kernel.get (lit "db") (keyRow (lit "l") 1 intList)).map ListHandler.create = some [lit "a"] ∧
        ((s.kernel.execute Server.integers (inDb .lresize (lit "l") (lit "4294967296"))).get (lit "db")
          (keyRow (lit "l") 1 intList)).map ListHandler.create = none := by decide
  obtain ⟨s, reached, held, gone⟩ := Machine.exec_holds h (.initial Server.fresh_initial)
  refine ⟨s, reached, held, inDb .lresize (lit "l") (lit "4294967296"), by decide, fun same => ?_⟩
  exact absurd (gone.symm.trans same) (by decide)

end BerylDB.Store
