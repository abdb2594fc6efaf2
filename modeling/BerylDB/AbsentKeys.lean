import BerylDB.Formats

/-! # Absent keys

Which of the queries that work on a key report that it is not there. -/
namespace BerylDB.Store
open Text Kernel Transition

/-- The types of the queries that need a registered key. -/
def QueryType.needsKey : List QueryType :=
  [.read, .iter, .delete, .expire, .diff, .rename, .renamenx, .copy, .move, .clone, .transfer]

/-- `CheckFlush` answers NOT_FOUND, and neither the rows nor the two lists of entries have changed. -/
structure ReportsAbsent (P : Platform) (k : Kernel) (r : Request) : Prop where
  notFound : (k.reply P r).access = .notFound
  unchanged : k.execute P r = k

section
variable {P : Platform} {k : Kernel} {r : Request}

/-- NOT_FOUND is answered without the `Process` of the query. -/
theorem ReportsAbsent.unprocessed (h : ReportsAbsent P k r) : (k.reply P r).access.processed = false := by
  rw [h.notFound]
  rfl

theorem queryType_copy {c : QueryClass} (kind : c.queryType = .copy) : c = .copy := by
  cases c <;> first | rfl | (simp only [QueryClass.queryType, reduceCtorEq] at kind)

section
variable (opened : k.Opened r.database) (absent : r.registered k = none)
include opened absent

/-- The branches that ask for the identified type first. -/
theorem prepare_unidentified (kind : r.cls.queryType ∈ [.diff, .rename, .renamenx, .move, .clone, .transfer]) :
    ReportsAbsent P k r := by
  have loaded : r.plain.getRegistry k r.select r.key true = _ := getRegistry_none true absent
  have ran : (QueryBase.prepare P r.cls k r.query).1 = k ∧ (QueryBase.prepare P r.cls k r.query).2.access = .notFound := by
    rw [prepare_opened opened]
    unfold QueryBase.dispatch
    rw [show r.plain.select = r.select from rfl, show r.plain.key = r.key from rfl, loaded]
    simp only [List.mem_cons, List.not_mem_nil, or_false] at kind
    rcases kind with kind | kind | kind | kind | kind | kind <;> simp only [kind, if_true] <;> exact ⟨trivial, rfl⟩
  exact ⟨ran.2, ran.1⟩

/-- ITER sets nothing, and leaves what `Check` has set. -/
theorem reply_iter (kind : r.cls.queryType = .iter) : (k.reply P r).access = .statusOk := by
  have loaded : r.plain.getRegistry k r.select r.key true = _ := getRegistry_none true absent
  rw [Kernel.reply, prepare_opened opened]
  unfold QueryBase.dispatch
  rw [show r.plain.select = r.select from rfl, show r.plain.key = r.key from rfl, loaded]
  simp only [kind]
  rfl

/-- COPY runs without a source, unless its goal has a value. -/
theorem reply_copy (kind : r.cls.queryType = .copy) :
    (k.reply P r).access = .statusOk ∨ (k.reply P r).access = .invalidType := by
  have loaded : r.plain.getRegistry k r.select r.key true = _ := getRegistry_none true absent
  rw [Kernel.reply, prepare_opened opened, queryType_copy kind]
  unfold QueryBase.dispatch
  rw [show r.plain.select = r.select from rfl, show r.plain.key = r.key from rfl, loaded]
  simp only [QueryClass.queryType]
  split
  · exact .inr rfl
  · exact .inl rfl

end

/-- A query that needs its key reports an absent one if and only if the database is not closing and the query is neither of
the type ITER nor COPY. -/
theorem absent_reported_iff (kind : r.cls.queryType ∈ QueryType.needsKey) (absent : r.registered k = none) :
    ReportsAbsent P k r ↔ k.Opened r.database ∧ r.cls.queryType ≠ .iter ∧ r.cls.queryType ≠ .copy := by
  constructor
  · intro reports
    have opened : k.Opened r.database := by
      by_contra closing
      have broken := reports.notFound
      rw [Kernel.reply, prepare_closing closing] at broken
      cases broken
    refine ⟨opened, fun iter => ?_, fun copy => ?_⟩
    · cases reports.notFound.symm.trans (reply_iter opened absent iter)
    · rcases reply_copy (P := P) opened absent copy with ok | invalid
      · cases reports.notFound.symm.trans ok
      · cases reports.notFound.symm.trans invalid
  · rintro ⟨opened, iter, copy⟩
    by_cases missing : r.cls.queryType ∈ [.read, .lat, .long, .expire, .delete]
    · obtain ⟨same, notFound, -⟩ := prepare_missing (P := P) opened absent missing
      exact ⟨notFound, same⟩
    · refine prepare_unidentified opened absent ?_
      revert kind missing iter copy
      cases r.cls.queryType <;> decide

end

theorem absent_reported_get : ReportsAbsent Server.integers Server.fresh.kernel (inDb .get (lit "k") []) :=
  (absent_reported_iff (by decide) (by decide)).mpr ⟨rfl, by decide, by decide⟩

/-- LPOPALL of an absent key is answered by its own `Process`, and COPY of one writes a row. -/
theorem absent_unreported :
    (inDb .lpopall (lit "k") (lit "a")).registered Server.fresh.kernel = none ∧
    ¬ ReportsAbsent Server.integers Server.fresh.kernel (inDb .lpopall (lit "k") (lit "a")) ∧
    (Server.fresh.kernel.reply Server.integers (inDb .lpopall (lit "k") (lit "a"))).access.processed = true ∧
    ¬ ReportsAbsent Server.integers Server.fresh.kernel (inDb .copy (lit "k") (lit "l")) ∧
    (Server.fresh.kernel.execute Server.integers (inDb .copy (lit "k") (lit "l"))).get (lit "db")
      (keyRow (lit "l") 1 processNull) = some [] := by
  refine ⟨by decide, fun reports => ?_, by decide, fun reports => ?_, by decide⟩
  · exact absurd reports.notFound (by decide)
  · exact absurd reports.notFound (by decide)

end BerylDB.Store
