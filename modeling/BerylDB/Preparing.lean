import BerylDB.ExpiryTable

/-! # What `Prepare` makes of a query on an open database

One lemma for each shape of its switch, for a registered key and for an absent one. -/
namespace BerylDB.Store
open Text QueryBase Kernel

/-- The query as `Prepare` leaves it for the reply. -/
def Kernel.reply (P : Platform) (k : Kernel) (r : Request) : QueryBase := (prepare P r.cls k r.query).2

section
variable {P : Platform} {k : Kernel} {r : Request} {c : QueryClass} {type base : Bytes}

theorem prepare_closing (closing : ¬ k.Opened r.database) :
    prepare P c k r.query = (k, r.query.accessSet .statusBroken) := by
  unfold prepare
  exact if_pos (by simpa [Kernel.Opened] using closing)

theorem prepare_opened (opened : k.Opened r.database) : prepare P c k r.query = dispatch P c k r.plain := by
  have opened' : ¬ (k.databases r.query.database).closing = true := Bool.eq_false_iff.mp opened
  unfold prepare
  exact if_neg opened'

/-- Whether the data were loaded or not, `Get(dest)` finds the row of the registered type. -/
theorem get_found {value : Bytes} {mapped : Option Bytes} (held : k.get r.database (r.row type) = some value)
    (loaded : mapped = none ∨ mapped = k.get r.database (r.row type)) :
    (r.found type mapped).get k (r.found type mapped).dest = some value := by
  rw [Request.row] at held loaded
  rcases loaded with rfl | rfl <;> simp [QueryBase.get, held]

theorem writeDest_writable {q : QueryBase} (writable : (k.databases q.database).writable = true) (value : Bytes) :
    writeDest k q value = (.put value, q.setOK) := by
  rw [writeDest, if_pos writable]

/-! ## A registered key -/

section
variable (opened : k.Opened r.database) (registered : r.registered k = some type)
include opened registered

theorem prepare_loaded (kind : c.queryType ∈ [.write, .read, .lat, .long, .readAllow, .iter])
    (own : c.baseRequest = some base) :
    prepare P c k r.query =
      if type = base then run P c k (r.found type (k.get r.database (r.row type)))
      else (k, (r.found type (k.get r.database (r.row type))).invalidType) := by
  have loaded : r.plain.getRegistry k r.select r.key true = _ := getRegistry_some true registered
  rw [prepare_opened opened, dispatch, show r.plain.select = r.select from rfl, show r.plain.key = r.key from rfl,
    loaded]
  simp only [List.mem_cons, List.not_mem_nil, or_false] at kind
  rcases kind with kind | kind | kind | kind | kind | kind <;> simp only [kind, own, Option.getD_some, if_true] <;> rfl

/-- A query that only reads answers from the row of the key. -/
theorem reply_reader {run : Reader} (body : r.cls.body P = .reader run)
    (kind : r.cls.queryType ∈ [.write, .read, .lat, .long, .readAllow, .iter]) (own : r.cls.baseRequest = some type) :
    k.reply P r = run k (r.found type (k.get r.database (r.row type))) := by
  rw [Kernel.reply, prepare_loaded opened registered kind own, if_pos rfl, QueryBase.run, body]
  rfl

theorem prepare_looked (kind : c.queryType ∈ [.future, .expire]) (own : c.baseRequest = some base) :
    prepare P c k r.query =
      if type = base then run P c k (r.found type none) else (k, (r.found type none).invalidType) := by
  have loaded : r.plain.getRegistry k r.select r.key true = _ := getRegistry_some true registered
  have looked : r.plain.getRegistry k r.select r.key false = _ := getRegistry_some false registered
  rw [prepare_opened opened, dispatch, show r.plain.select = r.select from rfl, show r.plain.key = r.key from rfl,
    loaded, looked]
  simp only [List.mem_cons, List.not_mem_nil, or_false] at kind
  rcases kind with kind | kind <;> simp only [kind, own, Option.getD_some, if_true] <;> rfl

theorem prepare_any (kind : c.queryType ∈ [.exists, .type, .delete]) :
    prepare P c k r.query = run P c k (r.found type none) := by
  have loaded : r.plain.getRegistry k r.select r.key true = _ := getRegistry_some true registered
  have looked : r.plain.getRegistry k r.select r.key false = _ := getRegistry_some false registered
  rw [prepare_opened opened, dispatch, show r.plain.select = r.select from rfl, show r.plain.key = r.key from rfl,
    loaded, looked]
  simp only [List.mem_cons, List.not_mem_nil, or_false] at kind
  rcases kind with kind | kind | kind <;> simp only [kind, if_true] <;> rfl

/-- A registered key is refused for the place that `CheckDest` looks at, or the query runs on its row. -/
theorem prepare_routed (kind : r.cls ∈ [.rename, .copy, .move, .clone, .transfer])
    (goal : r.cls = .transfer → r.transfDb ≠ none) :
    prepare P r.cls k r.query =
      if Allows r.cls k r type then run P r.cls k (r.found type (k.get r.database (r.row type)))
      else (k, (r.found type (k.get r.database (r.row type))).invalidType) := by
  have loaded : r.plain.getRegistry k r.select r.key true = _ := getRegistry_some true registered
  have looked : r.plain.getRegistry k r.select r.key false = _ := getRegistry_some false registered
  have known : type ≠ processNull := typeRegs_ne_null (registered_some registered).1
  rw [prepare_opened opened]
  unfold dispatch
  rw [show r.plain.select = r.select from rfl, show r.plain.key = r.key from rfl, loaded, looked]
  simp only [List.mem_cons, List.not_mem_nil, or_false] at kind
  rcases kind with cls | cls | cls | cls | cls
  case inr.inr.inr.inr =>
    cases target : r.transfDb with
    | none => exact absurd target (goal cls)
    | some target' =>
      simp only [cls, QueryClass.queryType, known, if_false, target, Allows, Option.mem_def, Option.some.injEq,
        exists_eq_left', Request.plain_transfDb]
      split
      · rename_i refused
        rw [← target]
        exact (if_neg (not_not.mpr refused)).symm
      · rename_i accepted
        rw [← target]
        exact (if_pos accepted).symm
  all_goals
    simp only [cls, QueryClass.queryType, known, if_false, Allows]
    split
    · rename_i refused
      exact (if_neg (not_not.mpr refused)).symm
    · rename_i accepted
      exact (if_pos accepted).symm

end

/-- A query that replies OK ran on the registered row. -/
theorem prepare_of_finished (kind : r.cls ∈ [.rename, .copy, .move, .clone, .transfer])
    (goal : r.cls = .transfer → r.transfDb ≠ none) (registered : r.registered k = some type)
    (ok : (k.reply P r).finished = true) :
    prepare P r.cls k r.query = run P r.cls k (r.found type (k.get r.database (r.row type))) := by
  unfold Kernel.reply at ok
  by_cases opened : k.Opened r.database
  · rw [prepare_routed opened registered kind goal] at ok ⊢
    split at ok
    · rw [if_pos ‹_›]
    · exact absurd ok Bool.false_ne_true
  · rw [prepare_closing opened] at ok
    exact absurd ok Bool.false_ne_true

/-! ## An absent key -/

section
variable (opened : k.Opened r.database) (absent : r.registered k = none)
include opened absent

theorem prepare_absent (kind : c.queryType ∈ [.readAllow, .exists, .type, .future]) :
    prepare P c k r.query = run P c k r.absent := by
  have loaded : r.plain.getRegistry k r.select r.key true = _ := getRegistry_none true absent
  have looked : r.plain.getRegistry k r.select r.key false = _ := getRegistry_none false absent
  rw [prepare_opened opened, dispatch, show r.plain.select = r.select from rfl, show r.plain.key = r.key from rfl,
    loaded, looked]
  simp only [List.mem_cons, List.not_mem_nil, or_false] at kind
  rcases kind with kind | kind | kind | kind <;> simp only [kind] <;> rfl

theorem prepare_fresh (kind : c.queryType = .write) (own : c.baseRequest = some base) :
    prepare P c k r.query = run P c k (r.fresh base) := by
  have loaded : r.plain.getRegistry k r.select r.key true = _ := getRegistry_none true absent
  rw [prepare_opened opened, dispatch, show r.plain.select = r.select from rfl, show r.plain.key = r.key from rfl,
    loaded]
  simp only [kind, own]
  rfl

theorem prepare_missing (kind : c.queryType ∈ [.read, .lat, .long, .expire, .delete]) :
    (prepare P c k r.query).1 = k ∧ (prepare P c k r.query).2.access = .notFound ∧
      (prepare P c k r.query).2.finished = false := by
  have loaded : r.plain.getRegistry k r.select r.key true = _ := getRegistry_none true absent
  have looked : r.plain.getRegistry k r.select r.key false = _ := getRegistry_none false absent
  rw [prepare_opened opened, dispatch, show r.plain.select = r.select from rfl, show r.plain.key = r.key from rfl,
    loaded, looked]
  simp only [List.mem_cons, List.not_mem_nil, or_false] at kind
  rcases kind with kind | kind | kind | kind | kind <;> simp only [kind] <;> exact ⟨rfl, rfl, rfl⟩

end

end

end BerylDB.Store
