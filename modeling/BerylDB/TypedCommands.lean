import BerylDB.SingleType

/-! # Commands with a requested type

Which commands leave a key of another type alone and answer `DBL_INVALID_TYPE`.  The branches of DELETE,
EXISTS and SKIP do not look at `base_request`, and the one of the timed futures deletes the future first. -/
namespace BerylDB.Store
open Text QueryBase Server

section
variable (q : QueryBase)

@[simp] theorem access_accessSet (status : DblCode) : (q.accessSet status).access = status := rfl
@[simp] theorem access_setOK : q.setOK.access = q.access := rfl
@[simp] theorem access_respond (response : Bytes) : (q.respond response).access = q.access := rfl

theorem access_listItems (items : List Bytes) (stopped : Bool) :
    (listItems q items stopped).access = q.access ∨ (listItems q items stopped).access = .interrupt := by
  unfold listItems
  dsimp only
  split
  · exact .inr rfl
  · exact .inl rfl

theorem access_writeDest (k : Kernel) (value : Bytes) :
    (writeDest k q value).2.access = q.access ∨ (writeDest k q value).2.access = .unableWrite := by
  unfold writeDest
  dsimp only
  split
  · exact .inl rfl
  · exact .inr rfl

theorem access_store (k : Kernel) (items : List Bytes) (okOnDelete : Bool) :
    (Run.store k q items okOnDelete).2.access = q.access ∨
      (Run.store k q items okOnDelete).2.access = .unableWrite := by
  unfold Run.store
  split
  · exact access_writeDest q k _
  · cases okOnDelete <;> exact .inl rfl

end

/-- The classes with a requested type whose branch of `Prepare` does not compare it. -/
def QueryClass.unchecked : List QueryClass :=
  [.hdel, .ldel, .vdel, .mdel, .hexists, .keys, .count, .search, .wdel, .random, .hfind, .lkeys, .vkeys, .mkeys,
    .georem, .geocalc, .geodistance, .gkeys]

/-- They never answer `DBL_INVALID_TYPE`. -/
theorem unchecked_access {P : Platform} {c : QueryClass} (k : Kernel) {q : QueryBase} (h : c ∈ QueryClass.unchecked)
    (entered : q.access = .statusOk) : (run P c k q).2.access ≠ .invalidType := by
  have listed (items : List Bytes) (stopped : Bool) : (listItems q items stopped).access ≠ .invalidType := by
    rcases access_listItems q items stopped with same | same <;> simp [same, entered]
  have written (value : Bytes) : (writeDest k q value).2.access ≠ .invalidType := by
    rcases access_writeDest q k value with same | same <;> simp [same, entered]
  have stored (items : List Bytes) : (Run.store k q items true).2.access ≠ .invalidType := by
    rcases access_store q k items true with same | same <;> simp [same, entered]
  cases c <;> first
    | exact absurd h (by decide)
    | simp only [run, QueryClass.body, Body.run]
  case keys | hfind | lkeys | vkeys | mkeys | gkeys => exact listed _ _
  case hdel =>
    have kept (map : MapMap) : (if MapHandler.count map > 0 then writeDest k q (MapHandler.asString map)
        else (Effect.delete, q.setOK)).2.access ≠ .invalidType := by
      split
      · exact written _
      · simp [entered]
    simp only [Run.hdel]
    split
    · simp
    · exact kept _
  case mdel =>
    simp only [Run.mdel]
    split
    · exact written _
    · simp [entered]
  case ldel =>
    simp only [Run.ldel, Run.onItemsWrite]
    split
    · split
      · simp
      · exact stored _
    · simp
  case vdel =>
    simp only [Run.vdel]
    split
    · simp
    · simpa using stored _
  case hexists =>
    simp only [Run.hexists]
    split <;> simp [entered]
  case count =>
    simp only [Run.count]
    split <;> simp [entered]
  case wdel =>
    simp only [Run.wdel]
    split <;> simp [entered]
  case search =>
    simp only [Run.search]
    split <;> simp [entered]
  case random =>
    simp only [Run.random]
    repeat' split
    all_goals simp [entered]
  case georem =>
    simp only [Run.georem]
    repeat' split
    all_goals simp [entered]
  case geocalc =>
    simp only [Run.geocalc]
    split <;> simp [entered]
  case geodistance =>
    simp only [Run.geodistance]
    split
    · simp
    · exact listed _ _

/-- The branches that compare the type before anything else. -/
def QueryType.checked : List QueryType := [.write, .read, .lat, .long, .readAllow, .iter, .expire, .future]

theorem requested_kind {c : QueryClass} {base : Bytes} (h : c.baseRequest = some base) :
    c.queryType ∈ QueryType.checked ∨ c.queryType = .futureRun ∨
      c ∈ QueryClass.unchecked ∧ c.queryType ∈ [QueryType.delete, .exists, .skip] := by
  cases c <;> first
    | exact .inl (by decide)
    | exact .inr (.inl rfl)
    | exact .inr (.inr (by decide))
    | (simp only [QueryClass.baseRequest, reduceCtorEq] at h)

theorem unchecked_kind {c : QueryClass} (h : c ∈ QueryClass.unchecked) :
    c.queryType ∉ QueryType.checked ∧ c.queryType ≠ .futureRun := by
  have all : ∀ c ∈ QueryClass.unchecked, c.queryType ∉ QueryType.checked ∧ c.queryType ≠ .futureRun := by decide
  exact all c h

/-- No future of the key is planned, and no row of one is there that could be deleted. -/
def Request.NoFuture (r : Request) (k : Kernel) : Prop :=
  Timetable.lookup FutureEntry.name (r.database, r.key, r.select) k.futures = none ∧
    (k.get r.database (futureRow r.key r.select r.database) = none ∨ (k.databases r.database).writable = false)

/-- The database is open, and the branch of the class compares the type before it does anything. -/
def Request.TypeChecked (r : Request) (k : Kernel) : Prop :=
  (k.databases r.database).closing = false ∧
    (r.cls.queryType ∈ QueryType.checked ∨
      r.cls.queryType = .futureRun ∧ r.NoFuture k)

section
variable {P : Platform} {k : Kernel} {r : Request} {base type : Bytes}

theorem deleteFuture_same {db key : Bytes} {select : ℕ} :
    k.deleteFuture db key select = k ↔ Timetable.lookup FutureEntry.name (db, key, select) k.futures = none := by
  rw [← Timetable.delete_eq_self]
  exact ⟨congrArg Kernel.futures, fun same => by rw [Kernel.deleteFuture, same]⟩

theorem futures_erase {db row : Bytes} : (k.erase db row).futures = k.futures := by
  unfold Kernel.erase Kernel.write
  dsimp only
  split <;> rfl

theorem erase_same {db row : Bytes} :
    k.erase db row = k ↔ k.get db row = none ∨ (k.databases db).writable = false := by
  cases writable : (k.databases db).writable with
  | false => simp [Kernel.erase, Kernel.write, writable]
  | true =>
    have erased : k.erase db row =
        { k with databases := Function.update k.databases db { k.databases db with rows := (k.rows db).erase row } } := by
      simp [Kernel.erase, Kernel.write, Kernel.rows, writable]
    constructor
    · intro same
      have rows := congrArg (fun k => k.get db row) same
      rw [erased] at rows
      exact .inl (by simpa [Kernel.get, Kernel.rows] using rows.symm)
    · rintro (missing | not)
      · have rows : (k.rows db).erase row = (k.databases db).rows := by
          refine Std.ExtTreeMap.ext_getElem? fun x => ?_
          rw [Std.ExtTreeMap.getElem?_erase]
          split
          · rename_i same
            rw [← Std.compare_eq_iff_eq.mp same]
            exact missing.symm
          · rfl
        rw [erased, rows, Function.update_eq_self]
      · simp at not

/-- Taking a future away changes nothing just when there is none. -/
theorem delFuture_same : r.query.delFuture k = k ↔ r.NoFuture k := by
  unfold Request.NoFuture delFuture
  rw [Request.query_database, Request.query_key, Request.query_select, ← deleteFuture_same, ← erase_same]
  constructor
  · intro same
    have unplanned : k.deleteFuture r.database r.key r.select = k := by
      have futures : (k.deleteFuture r.database r.key r.select).futures = k.futures := by
        rw [← futures_erase, same]
      rw [deleteFuture_same, ← Timetable.delete_eq_self]
      exact futures
    exact ⟨unplanned, by rwa [unplanned] at same⟩
  · rintro ⟨unplanned, missing⟩
    rw [unplanned, missing]

/-- What `Prepare` does on an open database with a key of another type. -/
theorem dispatch_other (requested : r.cls.baseRequest = some base) (registered : r.registered k = some type)
    (other : type ≠ base) :
    r.cls.queryType ∈ QueryType.checked ∧
        (dispatch P r.cls k r.plain).1 = k ∧ (dispatch P r.cls k r.plain).2.access = .invalidType ∨
      r.cls.queryType = .futureRun ∧
        (dispatch P r.cls k r.plain).1 = r.query.delFuture k ∧ (dispatch P r.cls k r.plain).2.access = .invalidType ∨
      r.cls ∈ QueryClass.unchecked ∧ (dispatch P r.cls k r.plain).2.access ≠ .invalidType := by
  have loaded : r.plain.getRegistry k r.select r.key true = _ := getRegistry_some true registered
  have looked : r.plain.getRegistry k r.select r.key false = _ := getRegistry_some false registered
  unfold dispatch
  rw [show r.plain.select = r.select from rfl, show r.plain.key = r.key from rfl, loaded, looked]
  have kinds := requested_kind requested
  cases hT : r.cls.queryType with
  | write | read | lat | long | readAllow | iter | expire | future =>
    exact .inl ⟨by simp [QueryType.checked], by simp [requested, other], by simp [requested, other, invalidType]⟩
  | futureRun =>
    exact .inr (.inl ⟨rfl, by simp [requested, other]; rfl, by simp [requested, other, invalidType]⟩)
  | delete | «exists» | skip =>
    have unchecked : r.cls ∈ QueryClass.unchecked := by simpa [hT, QueryType.checked] using kinds
    exact .inr (.inr ⟨unchecked, unchecked_access k unchecked rfl⟩)
  | _ => simp [hT, QueryType.checked] at kinds

/-- Just the commands whose branch checks the type leave a key of another type alone. -/
theorem typed_commands (requested : r.cls.baseRequest = some base) (registered : r.registered k = some type)
    (other : type ≠ base) :
    ((prepare P r.cls k r.query).1 = k ∧ (prepare P r.cls k r.query).2.access = .invalidType) ↔ r.TypeChecked k := by
  unfold Request.TypeChecked
  cases opened : (k.databases r.database).closing with
  | true =>
    have broken : (prepare P r.cls k r.query).2.access = .statusBroken := by simp [prepare, opened]
    simp [broken]
  | false =>
    have entered : prepare P r.cls k r.query = dispatch P r.cls k r.plain := by
      simp [prepare, opened]
      rfl
    rw [entered]
    obtain ⟨kind, same, access⟩ | ⟨kind, dropped, access⟩ | ⟨unchecked, access⟩ :=
      dispatch_other (P := P) requested registered other
    · simp [kind, same, access]
    · rw [dropped, delFuture_same]
      simp [kind, access, QueryType.checked]
    · obtain ⟨notChecked, notRun⟩ := unchecked_kind unchecked
      simp [access, notChecked, notRun]

end

/-- A store with one row, of the list `l` in select 1. -/
def oneList : Kernel := Server.fresh.kernel.updates [.put (lit "db") (keyRow (lit "l") 1 intList) (toBin (lit "x") ++ [58])]

def onList (cls : QueryClass) : Request := { cls, database := lit "db", key := lit "l", select := 1, value := lit "x" }

theorem typed_commands_get : (prepare integers .get oneList (onList .get).query).1 = oneList ∧
    (prepare integers .get oneList (onList .get).query).2.access = .invalidType :=
  have registered : (onList .get).registered oneList = some intList := by decide
  (typed_commands rfl registered (by decide)).mpr ⟨by decide, .inl (by decide)⟩

theorem oneList_singleType : SingleType oneList.get := by
  have writable : Server.fresh.kernel.Writable := Server.fresh_initial.writable
  have empty : SingleType Server.fresh.kernel.get := fun db key select type _ other _ here => by
    simp [Server.fresh_initial.empty] at here
  rw [oneList, get_updates writable]
  refine empty.updates (lit "db") (lit "l") intList 1 (fun _ _ _ _ => Server.fresh_initial.empty _ _) ?_
  intro d x s t v ht put
  obtain ⟨rfl, row, -⟩ : d = lit "db" ∧ keyRow x s t = keyRow (lit "l") 1 intList ∧ _ := by simpa using put
  exact ⟨rfl, keyRow_inj.mp row⟩

/-- VDEL of the only item of a list deletes the list. -/
theorem vdel_deletes_list : ¬ ∀ (k : Kernel) (r : Request) (base type : Bytes), SingleType k.get →
    r.cls.baseRequest = some base → r.registered k = some type → type ≠ base →
    (prepare integers r.cls k r.query).1 = k ∧ (prepare integers r.cls k r.query).2.access = .invalidType := by
  intro claim
  obtain ⟨same, -⟩ :=
    claim oneList (onList .vdel) intVector intList oneList_singleType rfl (by decide) (by decide)
  have gone : ((prepare integers .vdel oneList (onList .vdel).query).1.get (lit "db")
      (keyRow (lit "l") 1 intList)).isSome = false := by decide
  have held : (oneList.get (lit "db") (keyRow (lit "l") 1 intList)).isSome = true := by decide
  rw [show (onList .vdel).cls = .vdel from rfl] at same
  rw [same, held] at gone
  exact absurd gone (by decide)

end BerylDB.Store
