import BerylDB.SequenceCommands

/-! # One value in different commands

LPUSH, LEXISTS and LDEL take the quotes from a value, and LREPEATS does not. -/
namespace BerylDB.Store
open Text QueryBase Kernel Transition

/-- LREPEATS counts the items that LEXISTS and LDEL find for the same argument, those that LPUSH pushes for it. -/
structure MeansPushed (P : Platform) (k : Kernel) (db : Bytes) (select : ℕ) (key arg : Bytes) (items : List Bytes)
    (pushed : Bytes) : Prop where
  counted : ∃ r, commandLRepeats db select key arg = some r ∧ (k.reply P r).finished = true ∧
    (k.reply P r).response = convtoString (items.count pushed)
  found : ∃ r, commandLExist db select key arg = some r ∧ (k.reply P r).finished = true ∧
    (k.reply P r).response = flag (0 < items.count pushed)
  deleted : ∃ r, commandLDel db select key arg = some r ∧ ((k.reply P r).finished = true ↔ 0 < items.count pushed) ∧
    (0 < items.count pushed → (k.execute P r).holds ListHandler.container db (keyRow key select intList) =
      ListHandler.container.kept (items.erase pushed))

section
variable {P : Platform} {k : Kernel} {r : Request} {db key arg load : Bytes} {select : ℕ} {items : List Bytes}
  {q : QueryBase}

theorem lrepeats_ran (loaded : Loaded k r load q) : Run.lrepeats k q =
    (q.respond (convtoString ((ListHandler.create load).count r.value))).setOK := by
  rw [Run.lrepeats, loaded.onItems, loaded.value, ListHandler.repeats]

theorem lexist_ran (loaded : Loaded k r load q) : Run.lexist k q =
    (q.respond (flag (0 < (ListHandler.create load).count r.value))).setOK := by
  rw [Run.lexist, loaded.onItems, loaded.value, exist_eq]
  simp only [List.count_pos_iff]

/-- LDEL of an item that is not there leaves the query unfinished. -/
theorem ldel_finished_iff (loaded : Loaded k r load q) :
    (Run.ldel k q).2.finished = true ↔ 0 < (ListHandler.create load).count r.value := by
  rw [Run.ldel, loaded.onItemsWrite, exist_eq, loaded.value, List.count_pos_iff]
  by_cases here : r.value ∈ ListHandler.create load
  · rw [decide_eq_true here, Bool.not_true, if_neg Bool.false_ne_true, store_setOK loaded.writable]
    exact iff_of_true rfl here
  · rw [decide_eq_false here, Bool.not_false, if_pos rfl]
    exact iff_of_false (by simp [loaded.unfinished, QueryBase.accessSet]) here

/-- The commands mean the same by an argument if and only if its text stands in the list as often as its value. -/
theorem values_agree_iff (writable : k.Writable) (opened : k.Opened r.database)
    (registered : r.registered k = some intList)
    (held : k.holds ListHandler.container r.database (r.row intList) = some items)
    (handled : commandLPush db select key arg = some r) :
    MeansPushed P k db select key arg items r.value ↔ items.count arg = items.count (stripe arg) := by
  obtain ⟨load, got, rfl⟩ := ListHandler.holds_some held
  obtain ⟨format, valid, rfl⟩ := simpleChecked_some.mp handled
  have repeats : commandLRepeats db select key arg = some { cls := .lrepeats, database := db, key, select, value := arg } :=
    (if_pos format).trans (simpleRetro_some.mpr ⟨valid, rfl⟩)
  obtain ⟨q, loaded, -, replied⟩ := reader_ran (P := P)
    (r := { cls := .lrepeats, database := db, key, select, value := arg }) writable opened registered got rfl rfl
      (by simp [QueryClass.queryType])
  rw [lrepeats_ran loaded] at replied
  constructor
  · rintro ⟨⟨r, handled, -, counted⟩, -, -⟩
    obtain rfl := Option.some.inj (repeats.symm.trans handled)
    rw [replied] at counted
    exact convtoString_injective counted
  · intro same
    refine ⟨⟨_, repeats, ?_⟩, ⟨_, simpleChecked_some.mpr ⟨format, valid, rfl⟩, ?_⟩,
      ⟨_, simpleChecked_some.mpr ⟨format, valid, rfl⟩, ?_⟩⟩
    · rw [replied]
      exact ⟨rfl, congrArg convtoString same⟩
    · obtain ⟨q', loaded', -, replied'⟩ := reader_ran (P := P)
        (r := { cls := .lexist, database := db, key, select, value := stripe arg }) writable opened registered got rfl rfl
        (by simp [QueryClass.queryType])
      rw [replied', lexist_ran loaded']
      exact ⟨rfl, rfl⟩
    · obtain ⟨q', loaded', executed, replied'⟩ := writer_ran (P := P)
        (r := { cls := .ldel, database := db, key, select, value := stripe arg }) writable opened registered got rfl rfl
      rw [replied', ldel_finished_iff loaded', executed]
      refine ⟨Iff.rfl, fun positive => ?_⟩
      have here := List.count_pos_iff.mp positive
      rw [SequenceCommand.stored (P := P) (c := .ldel arg) rfl loaded' rfl ⟨format, here⟩ (by simp [SequenceCommand.op])]
      exact holds_stored writable fun item left => ListHandler.create_ne_nil load item (List.mem_of_mem_erase left)

end

theorem values_agree_single : ∃ s, (Server.machine Server.integers).Reachable s ∧
    MeansPushed Server.integers s.kernel (lit "db") 1 (lit "l") (lit "a") [lit "a"] (lit "a") := by
  obtain ⟨s, reached, writable, opened, registered, held⟩ := list_a
  have handled : commandLPush (lit "db") 1 (lit "l") (lit "a") = some (inDb .lpush (lit "l") (lit "a")) := by decide
  have agree := values_agree_iff (P := Server.integers) (r := inDb .lpush (lit "l") (lit "a")) writable opened registered held
    handled
  exact ⟨s, reached, agree.mpr (by decide)⟩

/-- LREPEATS does not count what LPUSH pushes for the same quoted text. -/
theorem lrepeats_counts_quotes : ∃ s, (Server.machine Server.integers).Reachable s ∧
    s.kernel.holds ListHandler.container (lit "db") (keyRow (lit "l") 1 intList) = some [lit "abc"] ∧
    commandLPush (lit "db") 1 (lit "l") (lit "\"abc\"") = some (inDb .lpush (lit "l") (lit "abc")) ∧
    ¬ MeansPushed Server.integers s.kernel (lit "db") 1 (lit "l") (lit "\"abc\"") [lit "abc"] (lit "abc") := by
  have h : ((Server.machine Server.integers).exec (fun _ _ => True) Server.fresh
      [.request (inDb .lpush (lit "l") (lit "abc"))]).any fun s =>
        (s.kernel.get (lit "db") (keyRow (lit "l") 1 intList)).map ListHandler.create = some [lit "abc"] ∧
        (s.kernel.reply Server.integers (inDb .lrepeats (lit "l") (lit "\"abc\""))).response = lit "0" := by decide
  obtain ⟨s, reached, held, replied⟩ := Machine.exec_holds h (.initial Server.fresh_initial)
  refine ⟨s, reached, held, by decide, ?_⟩
  rintro ⟨⟨r, handled, -, counted⟩, -, -⟩
  have repeats : commandLRepeats (lit "db") 1 (lit "l") (lit "\"abc\"") =
      some (inDb .lrepeats (lit "l") (lit "\"abc\"")) := by decide
  obtain rfl := Option.some.inj (repeats.symm.trans handled)
  exact absurd (replied.symm.trans counted) (by decide)

end BerylDB.Store
