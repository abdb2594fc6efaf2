import BerylDB.Prepare
import Mathlib.Tactic.Simps.Basic

/-! # Which queries are run, and on what

`dispatch_cases` says once what `Prepare` hands to `Run`; the rest of the development reads it from there. -/
namespace BerylDB.Store
open Text QueryBase

/-- What a command sends: the members of a query that are set before it is pushed. -/
structure Request where
  cls : QueryClass
  database : Bytes
  key : Bytes
  select : ℕ
  value : Bytes := []
  hesh : Bytes := []
  id : ℕ := 0
  offset : ℤ := 0
  limit : ℤ := 0
  flags : QueryFlags := .none
  function : StrFunction := .toLow
  operation : OpType := .none
  transfDb : Option Bytes := none
  interrupt : Option ℕ := none
deriving DecidableEq

@[simps database key select value id dest mapped transfDb interrupt]
def Request.query (r : Request) : QueryBase where
  database := r.database
  key := r.key
  select := r.select
  value := r.value
  hesh := r.hesh
  id := r.id
  offset := r.offset
  limit := r.limit
  flags := r.flags
  function := r.function
  operation := r.operation
  transfDb := r.transfDb
  interrupt := r.interrupt

/-- What executing a request does to the kernel. -/
def Kernel.execute (P : Platform) (k : Kernel) (r : Request) : Kernel := (prepare P r.cls k r.query).1

/-- The type the key of a request is registered under. -/
def Request.registered (r : Request) (k : Kernel) : Option Bytes := QueryBase.registered k r.database r.key r.select

theorem registered_some {k : Kernel} {db key type : Bytes} {select : ℕ} (h : registered k db key select = some type) :
    type ∈ typeRegs ∧ ∃ value, k.get db (keyRow key select type) = some value :=
  ⟨List.mem_of_find?_eq_some h, Option.isSome_iff_exists.mp (by simpa using List.find?_some h)⟩

theorem registered_none {k : Kernel} {db key : Bytes} {select : ℕ} :
    registered k db key select = none ↔ ∀ type ∈ typeRegs, k.get db (keyRow key select type) = none := by
  simp [registered]

theorem typeRegs_ne_null {type : Bytes} (h : type ∈ typeRegs) : type ≠ processNull := by
  rintro rfl
  exact absurd h (by decide)

theorem mem_typeRegs_of_mem_dataTypes {type : Bytes} (h : type ∈ dataTypes) : type ∈ typeRegs := by
  have all : ∀ t ∈ dataTypes, t ∈ typeRegs := by decide
  exact all type h

theorem baseRequest_mem {c : QueryClass} {type : Bytes} (h : c.baseRequest = some type) : type ∈ dataTypes := by
  cases c <;> simp only [QueryClass.baseRequest, Option.some.injEq, reduceCtorEq] at h <;> subst h <;> decide

/-! ## Admission -/

/-- What `Prepare` asks of a key registered under `type` before it runs the query. -/
def Allows (c : QueryClass) (k : Kernel) (r : Request) (type : Bytes) : Prop :=
  match c.queryType with
  | .write | .read | .lat | .long | .readAllow | .iter | .future | .futureRun | .expire => c.baseRequest = some type
  | .rename | .copy => { r.query with identified := type }.checkDest k r.select r.value type r.database ≠ 2
  | .renamenx => { r.query with identified := type }.checkDest k r.select r.value type r.database = 0
  | .diff => { r.query with identified := type }.checkDest k r.select r.value type r.database = 1
  | .move | .clone =>
    { r.query with identified := type }.checkDest k (convtoUnsigned r.value) r.key type r.database ≠ 2
  | .transfer => ∃ target ∈ r.transfDb,
      { r.query with identified := type }.checkDest k r.select r.key type target ≠ 2
  | .delete | .exists | .type => True
  | .skip => False

/-! The query as `Run` sees it: behind `Check`, with a registered key, with no row found, and with the row
that a write is to create. -/

@[simps! database key select value id mapped dest transfDb interrupt]
def Request.plain (r : Request) : QueryBase := { r.query with access := .statusOk }

@[simps! database key select value id identified dest mapped transfDb]
def Request.found (r : Request) (type : Bytes) (mapped : Option Bytes) : QueryBase :=
  { r.plain with identified := type, dest := keyRow r.key r.select type, mapped }

@[simps! database key select value id identified dest mapped transfDb]
def Request.absent (r : Request) : QueryBase := { r.plain with identified := processNull }

@[simps! database key select value id identified dest mapped transfDb]
def Request.fresh (r : Request) (type : Bytes) : QueryBase := { r.absent with dest := keyRow r.key r.select type }

instance (c : QueryClass) (k : Kernel) (r : Request) (type : Bytes) : Decidable (Allows c k r type) := by
  unfold Allows
  split <;> infer_instance

inductive Admitted (k : Kernel) (r : Request) : QueryBase → Prop
  | found {type : Bytes} {mapped : Option Bytes} (registered : r.registered k = some type)
      (allows : Allows r.cls k r type)
      (loaded : mapped = none ∨ mapped = k.get r.database (keyRow r.key r.select type)) :
      Admitted k r (r.found type mapped)
  | fresh {type : Bytes} (absent : r.registered k = none) (writes : r.cls.queryType = .write)
      (base : r.cls.baseRequest = some type) : Admitted k r (r.fresh type)
  | absent (absent : r.registered k = none)
      (allowed : r.cls.queryType ∈ [.readAllow, .copy, .exists, .type, .future, .futureRun])
      (free : r.cls.queryType = .copy → r.absent.checkDest k r.select r.value processNull r.database ≠ 2) :
      Admitted k r r.absent
  | skip (skips : r.cls.queryType = .skip) : Admitted k r r.plain

theorem getRegistry_some {k : Kernel} {q : QueryBase} {select : ℕ} {key type : Bytes} (load : Bool)
    (h : registered k q.database key select = some type) :
    q.getRegistry k select key load =
      ({ q with
        identified := type, dest := keyRow key select type,
        mapped := if load then k.get q.database (keyRow key select type) else q.mapped }, true) := by
  simp only [getRegistry, h]

theorem getRegistry_none {k : Kernel} {q : QueryBase} {select : ℕ} {key : Bytes} (load : Bool)
    (h : registered k q.database key select = none) :
    q.getRegistry k select key load = ({ q with identified := processNull }, false) := by
  simp only [getRegistry, h]

/-- `base_request` is set wherever `Prepare` reads it. -/
theorem baseRequest_isSome {c : QueryClass}
    (h : c.queryType ∈ [QueryType.write, .read, .lat, .long, .readAllow, .iter, .future, .futureRun, .expire]) :
    ∃ type, c.baseRequest = some type := by
  cases c <;> first | exact ⟨_, rfl⟩ | exact absurd h (by decide)

theorem dispatch_registered {P : Platform} {k : Kernel} {r : Request} {type : Bytes} (h : r.registered k = some type) :
    (∃ q, Admitted k r q ∧ dispatch P r.cls k r.plain = run P r.cls k q) ∨
    (dispatch P r.cls k r.plain).1 = k ∨
    r.cls.queryType = .futureRun ∧ r.cls.baseRequest ≠ some type ∧
      (dispatch P r.cls k r.plain).1 = r.query.delFuture k := by
  have loaded : r.plain.getRegistry k r.select r.key true = _ := getRegistry_some true h
  have looked : r.plain.getRegistry k r.select r.key false = _ := getRegistry_some false h
  have known : type ≠ processNull := typeRegs_ne_null (registered_some h).1
  have enter (mapped : Option Bytes) (allows : Allows r.cls k r type)
      (loaded : mapped = none ∨ mapped = k.get r.database (keyRow r.key r.select type)) :
      Admitted k r (r.found type mapped) := .found h allows loaded
  unfold dispatch
  rw [show r.plain.select = r.select from rfl,
    show r.plain.key = r.key from rfl, loaded, looked]
  cases hT : r.cls.queryType with
  | write | read | lat | long | readAllow | iter =>
    obtain ⟨base, hb⟩ := baseRequest_isSome (by simp [hT] : r.cls.queryType ∈ _)
    by_cases same : type = base
    · exact .inl ⟨_, enter _ (by simp [Allows, hT, hb, same]) (.inr rfl), by simp [hb, same]; rfl⟩
    · exact .inr (.inl (by simp [hb, same]))
  | future | expire =>
    obtain ⟨base, hb⟩ := baseRequest_isSome (by simp [hT] : r.cls.queryType ∈ _)
    by_cases same : type = base
    · exact .inl ⟨_, enter _ (by simp [Allows, hT, hb, same]) (.inl rfl), by simp [hb, same]; rfl⟩
    · exact .inr (.inl (by simp [hb, same]))
  | futureRun =>
    obtain ⟨base, hb⟩ := baseRequest_isSome (by simp [hT] : r.cls.queryType ∈ _)
    by_cases same : type = base
    · exact .inl ⟨_, enter _ (by simp [Allows, hT, hb, same]) (.inl rfl), by simp [hb, same]; rfl⟩
    · exact .inr (.inr ⟨rfl, by simpa [hb] using Ne.symm same, by simp [hb, same]; rfl⟩)
  | rename | copy | move | clone =>
    simp only [known, if_false]
    split
    · exact .inr (.inl rfl)
    · rename_i accepted
      exact .inl ⟨_, enter _ (by simp only [Allows, hT]; exact accepted) (.inr rfl), rfl⟩
  | renamenx | diff =>
    simp only [known, if_false]
    split
    · rename_i accepted
      exact .inl ⟨_, enter _ (by simp only [Allows, hT]; exact accepted) (.inr rfl), rfl⟩
    all_goals exact .inr (.inl rfl)
  | transfer =>
    simp only [known, if_false]
    split
    · exact .inr (.inl rfl)
    · rename_i target hasTarget
      split
      · exact .inr (.inl rfl)
      · rename_i accepted
        exact .inl ⟨_, enter _ (by simp only [Allows, hT]; exact ⟨target, hasTarget, accepted⟩) (.inr rfl), rfl⟩
  | delete | «exists» | type => exact .inl ⟨_, enter _ (by simp [Allows, hT]) (.inl rfl), rfl⟩
  | skip => exact .inl ⟨_, .skip hT, rfl⟩

theorem dispatch_unregistered {P : Platform} {k : Kernel} {r : Request} (h : r.registered k = none) :
    (∃ q, Admitted k r q ∧ dispatch P r.cls k r.plain = run P r.cls k q) ∨
    (dispatch P r.cls k r.plain).1 = k := by
  have loaded : r.plain.getRegistry k r.select r.key true = _ := getRegistry_none true h
  have looked : r.plain.getRegistry k r.select r.key false = _ := getRegistry_none false h
  have enter (allowed : r.cls.queryType ∈ [.readAllow, .exists, .type, .future, .futureRun]) : Admitted k r r.absent :=
    .absent h (by simp at allowed ⊢; tauto) fun copies => by simp [copies] at allowed
  unfold dispatch
  rw [show r.plain.select = r.select from rfl,
    show r.plain.key = r.key from rfl, loaded, looked]
  cases hT : r.cls.queryType with
  | write =>
    obtain ⟨base, hb⟩ := baseRequest_isSome (by simp [hT] : r.cls.queryType ∈ _)
    exact .inl ⟨_, .fresh h hT hb, by simp [hb]; rfl⟩
  | copy =>
    dsimp only
    split
    · exact .inr rfl
    · rename_i free
      exact .inl ⟨_, .absent h (by simp [hT]) fun _ => free, rfl⟩
  | readAllow | future | futureRun | «exists» | type => exact .inl ⟨_, enter (by simp [hT]), rfl⟩
  | skip => exact .inl ⟨_, .skip hT, rfl⟩
  | _ => exact .inr rfl

/-- Whether the data were loaded or not, `Get(dest)` finds the row of the registered type. -/
theorem destValue_found {k : Kernel} {r : Request} {type value : Bytes} {mapped : Option Bytes} {q : QueryBase}
    (held : k.get r.database (keyRow r.key r.select type) = some value)
    (loaded : mapped = none ∨ mapped = k.get r.database (keyRow r.key r.select type))
    (sameMapped : q.mapped = mapped) (database : q.database = r.database)
    (dest : q.dest = keyRow r.key r.select type) : q.destValue k = value := by
  rcases loaded with rfl | rfl <;> simp [destValue, QueryBase.get, sameMapped, database, dest, held]

end BerylDB.Store
