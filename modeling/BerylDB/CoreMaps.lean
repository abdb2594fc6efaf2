import BerylDB.Codec
import BerylDB.Views

/-! # The maps of the core database

The functions of `CMapsHelper` and `STHelper` prepare a query on the core database and read its reply.  `table` is the
map that a key of the core database holds. -/
namespace BerylDB.Store
open Text QueryBase

/-- `CORE_DB`. -/
def coreDatabase : Bytes := lit "core"

/-- `Helpers::make_cmap`; `Check` overwrites the status that an invalid key leaves. -/
def makeCmap (key hesh : Bytes) : QueryBase :=
  if key ≠ [] ∧ hesh ≠ [] then { database := coreDatabase, key, select := 1, flags := .core, hesh }
  else { database := coreDatabase, key := [], select := 1, flags := .core }

namespace CMapsHelper

variable (P : Platform)

/-- `STHelper::Set` is the same function. -/
def set (k : Kernel) (entry hesh value : Bytes) : Kernel :=
  (prepare P .hset k { makeCmap entry hesh with value }).1

/-- The response of `CMapsHelper::Get`. -/
def get (k : Kernel) (key hesh : Bytes) : Bytes := (prepare P .hget k (makeCmap key hesh)).2.response

def del (k : Kernel) (key hesh : Bytes) : Kernel := (prepare P .hdel k (makeCmap key hesh)).1

def erase (k : Kernel) (entry : Bytes) : Kernel := (prepare P .del k { makeCmap entry [] with key := entry }).1

/-- The list of `CMapsHelper::HList`. -/
def hlist (k : Kernel) (entry : Bytes) : List Bytes :=
  (prepare P .hlist k { makeCmap entry [] with key := entry }).2.vecData

end CMapsHelper

/-- The map under a key of the core database. -/
def Kernel.table (k : Kernel) (key : Bytes) : MapMap :=
  MapHandler.create ((k.get coreDatabase (keyRow key 1 intMap)).getD [])

/-- The core database as its helpers leave it: open, with no other rows than maps, and no empty values in them. -/
structure Kernel.Core (k : Kernel) : Prop where
  writable : k.Writable
  opened : (k.databases coreDatabase).closing = false
  maps : ∀ key type, type ∈ typeRegs → (k.get coreDatabase (keyRow key 1 type)).isSome → type = intMap
  filled : ∀ key hesh value : Bytes, (k.table key)[hesh]? = some value → value ≠ []

theorem MapHandler.create_nonempty {load key : Bytes} (h : key ∈ MapHandler.create load) : key ≠ [] := by
  have keep (items : List Bytes) (map : MapMap) (held : ∀ key ∈ map, key ≠ []) :
      ∀ key ∈ items.foldl (fun map mask => (MapHandler.add map (toStr (cutAt 47 mask).1) (toStr (cutAt 47 mask).2)).1) map,
        key ≠ [] := by
    induction items generalizing map with
    | nil => exact held
    | cons mask items ih =>
      refine ih _ fun key here => ?_
      dsimp only [MapHandler.add] at here
      split at here
      · exact held key here
      · rename_i nonempty
        rcases Std.ExtTreeMap.mem_insert.mp here with same | old
        · rwa [← Std.LawfulEqCmp.eq_of_compare same]
        · exact held key old
  exact keep _ ∅ (by simp) key h

theorem erase_absent {map : MapMap} {hesh : Bytes} (absent : hesh ∉ map) : map.erase hesh = map := by
  refine Std.ExtTreeMap.ext_getElem? fun name => ?_
  rw [Std.ExtTreeMap.getElem?_erase]
  split
  · rename_i equal
    obtain rfl := Std.LawfulEqCmp.eq_of_compare equal
    cases found : map[hesh]? with
    | none => rfl
    | some value => exact absurd (Std.ExtTreeMap.mem_iff_isSome_getElem?.mpr (by rw [found]; rfl)) absent
  · rfl

namespace Kernel.Core

variable {k : Kernel} {P : Platform}

theorem table_nonempty {key hesh : Bytes} (h : hesh ∈ k.table key) : hesh ≠ [] := MapHandler.create_nonempty h

theorem table_unnamed (k : Kernel) (key : Bytes) : (k.table key)[([] : Bytes)]? = none := by
  cases found : (k.table key)[([] : Bytes)]? with
  | none => rfl
  | some value => exact absurd rfl (table_nonempty (Std.ExtTreeMap.mem_iff_isSome_getElem?.mpr (by rw [found]; rfl)))

theorem registered (h : k.Core) (key : Bytes) : registered k coreDatabase key 1 =
    if (k.get coreDatabase (keyRow key 1 intMap)).isSome then some intMap else none := by
  cases found : QueryBase.registered k coreDatabase key 1 with
  | none => simp [registered_none.mp found intMap (by decide)]
  | some type =>
    obtain ⟨known, value, held⟩ := registered_some found
    obtain rfl := h.maps key type known (by simp [held])
    simp [held]

end Kernel.Core

section
variable {k : Kernel} {P : Platform} {c : QueryClass} {q : QueryBase}

theorem dispatch_map (kind : c ∈ [QueryClass.hset, .hget, .hlist, .hdel])
    (known : QueryBase.registered k q.database q.key q.select = some intMap) :
    dispatch P c k q = run P c k { q with
      identified := intMap
      dest := keyRow q.key q.select intMap
      mapped := if c = .hdel then q.mapped else k.get q.database (keyRow q.key q.select intMap) } := by
  have loaded := getRegistry_some true known
  have looked := getRegistry_some false known
  simp only [List.mem_cons, List.not_mem_nil, or_false] at kind
  rcases kind with rfl | rfl | rfl | rfl <;> simp [dispatch, QueryClass.queryType, QueryClass.baseRequest, loaded, looked]

theorem dispatch_no_map (kind : c ∈ [QueryClass.hget, .hlist, .hdel])
    (known : QueryBase.registered k q.database q.key q.select = none) :
    (dispatch P c k q).1 = k ∧ (dispatch P c k q).2.vecData = q.vecData ∧
      (c = .hget → (dispatch P c k q).2.response = q.response) := by
  have loaded := getRegistry_none true known
  have looked := getRegistry_none false known
  simp only [List.mem_cons, List.not_mem_nil, or_false] at kind
  rcases kind with rfl | rfl | rfl <;>
    simp [dispatch, QueryClass.queryType, loaded, looked, QueryBase.accessSet, QueryBase.respond]

theorem dispatch_no_key (known : QueryBase.registered k q.database q.key q.select = none) :
    (dispatch P .del k q).1 = k := by
  have loaded := getRegistry_none true known
  simp [dispatch, QueryClass.queryType, loaded]

theorem dispatch_erase (known : QueryBase.registered k q.database q.key q.select = some intMap) :
    (dispatch P .del k q).1 = k.erase q.database (keyRow q.key q.select intMap) := by
  have loaded := getRegistry_some true known
  have looked := getRegistry_some false known
  have kinds : intMap ≠ intKey := by decide
  simp [dispatch, QueryClass.queryType, loaded, looked, QueryBase.run, QueryClass.body, Body.run, Run.del, kinds]

theorem dispatch_new_map (known : QueryBase.registered k q.database q.key q.select = none) :
    dispatch P .hset k q = run P .hset k { q with identified := processNull, dest := keyRow q.key q.select intMap } := by
  have loaded := getRegistry_none true known
  simp [dispatch, QueryClass.queryType, QueryClass.baseRequest, loaded]

end

namespace Kernel.Core

variable {k : Kernel} {P : Platform}

theorem table_none {key : Bytes} (absent : k.get coreDatabase (keyRow key 1 intMap) = none) : k.table key = ∅ := by
  rw [Kernel.table, absent]
  rfl

theorem prepare_core (h : k.Core) (c : QueryClass) {q : QueryBase} (database : q.database = coreDatabase) :
    prepare P c k q = dispatch P c k (q.accessSet .statusOk) := by
  unfold prepare
  rw [if_neg (by simp [database, h.opened])]

theorem hset_missing {q : QueryBase} (missing : q.hesh = [] ∨ q.value = []) : (dispatch P .hset k q).1 = k := by
  have idle (q' : QueryBase) (hesh : q'.hesh = q.hesh) (value : q'.value = q.value) : (run P .hset k q').1 = k := by
    have refused : q'.value = [] ∨ q'.hesh = [] := by rw [hesh, value]; exact missing.symm
    simp [QueryBase.run, QueryClass.body, Body.run, Run.hset, refused, Kernel.apply]
  cases known : QueryBase.registered k q.database q.key q.select with
  | none =>
    rw [dispatch_new_map known]
    exact idle _ rfl rfl
  | some type =>
    have loaded := getRegistry_some true known
    simp only [dispatch, QueryClass.queryType, loaded]
    split
    · split
      · exact idle _ rfl rfl
      · rfl
    · exact idle _ rfl rfl

/-- `CMapsHelper::Set` rejects an empty value. -/
theorem set_eq (h : k.Core) (entry hesh value : Bytes) : CMapsHelper.set P k entry hesh value =
    if entry = [] ∨ hesh = [] ∨ value = [] then k
    else (k.put coreDatabase (keyRow entry 1 intMap) (MapHandler.asString ((k.table entry).insert hesh value))).1 := by
  unfold CMapsHelper.set makeCmap
  by_cases given : entry ≠ [] ∧ hesh ≠ []
  · rw [if_pos given, prepare_core h .hset rfl]
    by_cases empty : value = []
    · rw [hset_missing (.inr empty), if_pos (.inr (.inr empty))]
    · rw [if_neg (by simp [given, empty])]
      have known := h.registered entry
      cases held : k.get coreDatabase (keyRow entry 1 intMap) with
      | none =>
        rw [held] at known
        rw [dispatch_new_map, table_none held]
        · simp [QueryBase.run, QueryClass.body, Body.run, Run.hset, accessSet, empty, given, QueryBase.get, held,
            MapHandler.add, Kernel.apply]
        · exact known
      | some text =>
        rw [held] at known
        rw [dispatch_map]
        · simp [QueryBase.run, QueryClass.body, Body.run, Run.hset, accessSet, empty, given, QueryBase.get, held,
            MapHandler.add, Kernel.apply, writeDest, Kernel.table]
        · simp
        · exact known
  · rw [if_neg given, prepare_core h .hset rfl, hset_missing (.inl rfl), if_pos]
    by_cases entry_ne : entry = [] <;> simp_all

theorem remove_eq {map : MapMap} {hesh : Bytes} (nonempty : hesh ≠ []) (here : hesh ∈ map) :
    MapHandler.remove map hesh = map.erase hesh := by
  unfold MapHandler.remove
  rw [if_neg nonempty]
  split
  · rename_i single
    refine (Std.ExtTreeMap.eq_empty_iff_size_eq_zero.mpr ?_).symm
    rw [Std.ExtTreeMap.size_erase, if_pos (Std.ExtTreeMap.contains_iff_mem.mpr here), single]
  · rfl

/-- What `hdel_query` does to the row; its map has no empty values, so a field that is there is removed. -/
theorem hdel_effect (h : k.Core) (key : Bytes) {q : QueryBase} (loaded : Run.map k q = k.table key) :
    (Run.hdel k q).1 = if q.hesh ∈ k.table key then
      if 0 < ((k.table key).erase q.hesh).size then .put (MapHandler.asString ((k.table key).erase q.hesh)) else .delete
    else .none := by
  have named (hesh : Bytes) (here : hesh ∈ k.table key) : hesh ≠ [] := table_nonempty here
  have filled := h.filled key q.hesh
  unfold Run.hdel
  rw [loaded]
  generalize k.table key = map at named filled ⊢
  dsimp only
  cases found : map[q.hesh]? with
  | none =>
    have absent : q.hesh ∉ map := by simp [Std.ExtTreeMap.mem_iff_isSome_getElem?, found]
    simp [MapHandler.get, absent]
  | some value =>
    have here : q.hesh ∈ map := by simp [Std.ExtTreeMap.mem_iff_isSome_getElem?, found]
    simp only [MapHandler.get, found, reduceCtorEq, and_false, if_false, if_neg (filled value found), if_pos here,
      remove_eq (named _ here) here, MapHandler.count]
    split <;> rfl

theorem dispatch_hdel (h : k.Core) (key hesh : Bytes) (status : DblCode) :
    (dispatch P .hdel k { database := coreDatabase, key, select := 1, flags := .core, hesh, access := status }).1 =
      if hesh ∈ k.table key then
        k.apply coreDatabase (keyRow key 1 intMap) (if 0 < ((k.table key).erase hesh).size then
          .put (MapHandler.asString ((k.table key).erase hesh)) else .delete)
      else k := by
  have known := h.registered key
  cases held : k.get coreDatabase (keyRow key 1 intMap) with
  | none =>
    rw [held] at known
    refine (dispatch_no_map (by simp) ?_).1.trans ?_
    · exact known
    · rw [table_none held, if_neg (by simp)]
  | some text =>
    rw [held] at known
    rw [dispatch_map]
    · simp only [QueryBase.run, QueryClass.body, Body.run, if_true]
      rw [h.hdel_effect key (by simp [Run.map, QueryBase.destValue, QueryBase.get, Kernel.table])]
      split <;> rfl
    · simp
    · exact known

theorem del_eq (h : k.Core) (key hesh : Bytes) : CMapsHelper.del P k key hesh =
    if key ≠ [] ∧ hesh ∈ k.table key then
      k.apply coreDatabase (keyRow key 1 intMap) (if 0 < ((k.table key).erase hesh).size then
        .put (MapHandler.asString ((k.table key).erase hesh)) else .delete)
    else k := by
  unfold CMapsHelper.del makeCmap
  by_cases given : key ≠ [] ∧ hesh ≠ []
  · rw [if_pos given, prepare_core h .hdel rfl]
    refine (h.dispatch_hdel (P := P) key hesh .statusOk).trans ?_
    simp [given.1]
  · rw [if_neg given, prepare_core h .hdel rfl]
    refine (h.dispatch_hdel (P := P) [] [] .statusOk).trans ?_
    rw [if_neg fun here => table_nonempty here rfl, if_neg fun here => given ⟨here.1, table_nonempty here.2⟩]

theorem dispatch_hget (h : k.Core) (key hesh : Bytes) (status : DblCode) :
    (dispatch P .hget k { database := coreDatabase, key, select := 1, flags := .core, hesh, access := status }).2.response =
      ((k.table key)[hesh]?).getD [] := by
  have known := h.registered key
  cases held : k.get coreDatabase (keyRow key 1 intMap) with
  | none =>
    rw [held] at known
    refine ((dispatch_no_map (by simp) ?_).2.2 rfl).trans ?_
    · exact known
    · simp [table_none held]
  | some text =>
    rw [held] at known
    rw [dispatch_map]
    · have table : MapHandler.create text = k.table key := by rw [Kernel.table, held]; rfl
      by_cases empty : hesh = []
      · subst empty
        have absent := table_unnamed k key
        simp [QueryBase.run, QueryClass.body, Body.run, Run.hget, absent, accessSet]
      · cases found : (k.table key)[hesh]? <;>
          simp [QueryBase.run, QueryClass.body, Body.run, Run.hget, QueryBase.get, held, table, MapHandler.get, found,
            empty, respond, accessSet, setOK]
    · simp
    · exact known

theorem get_eq (h : k.Core) (key hesh : Bytes) : CMapsHelper.get P k key hesh =
    if key = [] then [] else ((k.table key)[hesh]?).getD [] := by
  unfold CMapsHelper.get makeCmap
  have absent := table_unnamed k
  by_cases given : key ≠ [] ∧ hesh ≠ []
  · rw [if_pos given, prepare_core h .hget rfl, if_neg given.1]
    exact h.dispatch_hget key hesh .statusOk
  · rw [if_neg given, prepare_core h .hget rfl]
    refine (h.dispatch_hget (P := P) [] [] .statusOk).trans ?_
    by_cases key_ne : key = []
    · simp [key_ne, absent]
    · obtain rfl : hesh = [] := by simpa [key_ne] using given
      simp [absent]

theorem hlist_eq (h : k.Core) (entry : Bytes) : CMapsHelper.hlist P k entry = (k.table entry).keys := by
  unfold CMapsHelper.hlist makeCmap
  rw [if_neg (by simp), prepare_core h .hlist rfl]
  have known := h.registered entry
  cases held : k.get coreDatabase (keyRow entry 1 intMap) with
  | none =>
    rw [held] at known
    refine (dispatch_no_map (by simp) ?_).2.1.trans ?_
    · exact known
    · rw [table_none held]
      rfl
  | some text =>
    rw [held] at known
    rw [dispatch_map]
    · simp [QueryBase.run, QueryClass.body, Body.run, Run.hlist, Run.map, accessSet, QueryBase.get, held, flagged,
        QueryBase.destValue, Kernel.table, setOK]
    · simp
    · exact known

/-! ## What the helpers leave in the maps -/

/-- A batch on the core database that changes the row of one key. -/
theorem rewrite (h : k.Core) {key : Bytes} (text : Option Bytes) {map : MapMap} (batch : Rows → Rows)
    (changed : ∀ x, (batch (k.rows coreDatabase))[x]? =
      if x = keyRow key 1 intMap then text else k.get coreDatabase x)
    (holds : MapHandler.create (text.getD []) = map)
    (filled : ∀ hesh value : Bytes, map[hesh]? = some value → value ≠ []) :
    (k.write coreDatabase batch).1.Core ∧
      ∀ other, (k.write coreDatabase batch).1.table other = if other = key then map else k.table other := by
  have rows (x : Bytes) : (k.write coreDatabase batch).1.get coreDatabase x =
      if x = keyRow key 1 intMap then text else k.get coreDatabase x := by
    rw [get_write h.writable, if_pos rfl, changed]
  have tables (other : Bytes) : (k.write coreDatabase batch).1.table other = if other = key then map else k.table other := by
    unfold Kernel.table
    rw [rows]
    by_cases same : other = key
    · subst same
      simp [holds]
    · simp [keyRow_inj, same]
  refine ⟨⟨h.writable.write _ _, ?_, fun other type known held => ?_, fun other hesh value held => ?_⟩, tables⟩
  · rw [write_writable h.writable]
    simp [h.opened]
  · rw [rows] at held
    by_cases same : keyRow other 1 type = keyRow key 1 intMap
    · exact (keyRow_inj.mp same).2.2
    · rw [if_neg same] at held
      exact h.maps other type known held
  · rw [tables] at held
    split at held
    · exact filled hesh value held
    · exact h.filled other hesh value held

theorem put_map (h : k.Core) (key : Bytes) {map : MapMap} (named : ∀ hesh ∈ map, hesh ≠ [])
    (filled : ∀ hesh value : Bytes, map[hesh]? = some value → value ≠ []) :
    (k.put coreDatabase (keyRow key 1 intMap) (MapHandler.asString map)).1.Core ∧
      ∀ other, (k.put coreDatabase (keyRow key 1 intMap) (MapHandler.asString map)).1.table other =
        if other = key then map else k.table other := by
  refine h.rewrite (some (MapHandler.asString map)) _ (fun x => ?_) (MapHandler.create_asString named) filled
  rw [Std.ExtTreeMap.getElem?_insert]
  by_cases same : x = keyRow key 1 intMap <;> simp [Kernel.get, same, Ne.symm]

theorem erase_map (h : k.Core) (key : Bytes) : (k.erase coreDatabase (keyRow key 1 intMap)).Core ∧
    ∀ other, (k.erase coreDatabase (keyRow key 1 intMap)).table other = if other = key then ∅ else k.table other := by
  refine h.rewrite none _ (fun x => ?_) rfl (by simp)
  rw [Std.ExtTreeMap.getElem?_erase]
  by_cases same : x = keyRow key 1 intMap <;> simp [Kernel.get, same, Ne.symm]

theorem set_spec (P : Platform) (h : k.Core) {entry : Bytes} (entry_ne : entry ≠ []) (hesh value : Bytes) :
    (CMapsHelper.set P k entry hesh value).Core ∧ ∀ other, (CMapsHelper.set P k entry hesh value).table other =
      if other = entry ∧ hesh ≠ [] ∧ value ≠ [] then (k.table entry).insert hesh value else k.table other := by
  rw [h.set_eq]
  by_cases accepted : hesh ≠ [] ∧ value ≠ []
  · rw [if_neg (by simp [entry_ne, accepted])]
    have named (key : Bytes) (here : key ∈ (k.table entry).insert hesh value) : key ≠ [] := by
      rcases Std.ExtTreeMap.mem_insert.mp here with same | old
      · rw [← Std.LawfulEqCmp.eq_of_compare same]
        exact accepted.1
      · exact table_nonempty old
    have filled (key item : Bytes) (held : ((k.table entry).insert hesh value)[key]? = some item) : item ≠ [] := by
      rw [Std.ExtTreeMap.getElem?_insert] at held
      split at held
      · cases held
        exact accepted.2
      · exact h.filled entry key item held
    simpa only [accepted, ne_eq, not_false_eq_true, and_true] using h.put_map entry named filled
  · rw [if_pos (by tauto)]
    exact ⟨h, fun other => by rw [if_neg fun given => accepted given.2]⟩

theorem del_spec (P : Platform) (h : k.Core) {key : Bytes} (key_ne : key ≠ []) (hesh : Bytes) :
    (CMapsHelper.del P k key hesh).Core ∧ ∀ other, (CMapsHelper.del P k key hesh).table other =
      if other = key then (k.table key).erase hesh else k.table other := by
  rw [h.del_eq]
  by_cases here : hesh ∈ k.table key
  · rw [if_pos ⟨key_ne, here⟩]
    have named (name : Bytes) (left : name ∈ (k.table key).erase hesh) : name ≠ [] :=
      table_nonempty (Std.ExtTreeMap.mem_of_mem_erase left)
    have filled (name value : Bytes) (held : ((k.table key).erase hesh)[name]? = some value) : value ≠ [] := by
      rw [Std.ExtTreeMap.getElem?_erase] at held
      split at held
      · simp at held
      · exact h.filled key name value held
    split
    · exact h.put_map key named filled
    · rename_i single
      have none : (k.table key).erase hesh = ∅ := Std.ExtTreeMap.eq_empty_iff_size_eq_zero.mpr (by omega)
      rw [none]
      exact h.erase_map key
  · rw [if_neg fun given => here given.2, erase_absent here]
    refine ⟨h, fun other => ?_⟩
    split
    · rename_i equal
      rw [equal]
    · rfl

theorem erase_eq (h : k.Core) (entry : Bytes) : CMapsHelper.erase P k entry =
    if (k.get coreDatabase (keyRow entry 1 intMap)).isSome then k.erase coreDatabase (keyRow entry 1 intMap) else k := by
  unfold CMapsHelper.erase makeCmap
  rw [if_neg (by simp), prepare_core h .del rfl]
  have known := h.registered entry
  cases held : k.get coreDatabase (keyRow entry 1 intMap) with
  | none =>
    rw [held] at known
    refine (dispatch_no_key ?_).trans ?_
    · exact known
    · rfl
  | some text =>
    rw [held] at known
    refine (dispatch_erase ?_).trans ?_
    · exact known
    · rfl

theorem erase_spec (P : Platform) (h : k.Core) (entry : Bytes) : (CMapsHelper.erase P k entry).Core ∧
    ∀ other, (CMapsHelper.erase P k entry).table other = if other = entry then ∅ else k.table other := by
  rw [h.erase_eq]
  split
  · exact h.erase_map entry
  · rename_i absent
    refine ⟨h, fun other => ?_⟩
    split
    · rename_i same
      rw [same]
      exact table_none (by simpa using absent)
    · rfl

end Kernel.Core

theorem mem_hlist {k : Kernel} {P : Platform} (h : k.Core) {entry item : Bytes} :
    item ∈ CMapsHelper.hlist P k entry ↔ item ∈ k.table entry := by
  rw [h.hlist_eq, Std.ExtTreeMap.mem_keys]

theorem get_insert (map : MapMap) (key value name : Bytes) :
    (map.insert key value)[name]? = if key = name then some value else map[name]? := by
  simp [Std.ExtTreeMap.getElem?_insert]

theorem get_erase (map : MapMap) (key name : Bytes) : (map.erase key)[name]? = if key = name then none else map[name]? := by
  simp [Std.ExtTreeMap.getElem?_erase]

/-! ## The fields of the maps -/

namespace Kernel.Core

variable {k : Kernel} {P : Platform} {entry hesh value : Bytes}

theorem set (h : k.Core) : (CMapsHelper.set P k entry hesh value).Core := by
  by_cases named : entry = []
  · rwa [h.set_eq, if_pos (.inl named)]
  · exact (h.set_spec P named hesh value).1

theorem set_field (h : k.Core) (key name : Bytes) : ((CMapsHelper.set P k entry hesh value).table key)[name]? =
    if key = entry ∧ name = hesh ∧ entry ≠ [] ∧ hesh ≠ [] ∧ value ≠ [] then some value else (k.table key)[name]? := by
  by_cases named : entry = []
  · rw [h.set_eq, if_pos (.inl named), if_neg fun given => given.2.2.1 named]
  · rw [(h.set_spec P named hesh value).2]
    by_cases written : key = entry ∧ hesh ≠ [] ∧ value ≠ []
    · rw [if_pos written, get_insert, written.1]
      simp [named, written.2, eq_comm]
    · rw [if_neg written, if_neg fun given => written ⟨given.1, given.2.2.2⟩]

theorem del (h : k.Core) : (CMapsHelper.del P k entry hesh).Core := by
  by_cases named : entry = []
  · rwa [h.del_eq, if_neg fun given => given.1 named]
  · exact (h.del_spec P named hesh).1

theorem del_field (h : k.Core) (key name : Bytes) : ((CMapsHelper.del P k entry hesh).table key)[name]? =
    if key = entry ∧ name = hesh ∧ entry ≠ [] then none else (k.table key)[name]? := by
  by_cases named : entry = []
  · rw [h.del_eq, if_neg fun given => given.1 named, if_neg fun given => given.2.2 named]
  · rw [(h.del_spec P named hesh).2]
    by_cases own : key = entry
    · rw [if_pos own, get_erase, own]
      simp [named, eq_comm]
    · rw [if_neg own, if_neg fun given => own given.1]

theorem erase (h : k.Core) : (CMapsHelper.erase P k entry).Core := (h.erase_spec P entry).1

theorem erase_field (h : k.Core) (key name : Bytes) : ((CMapsHelper.erase P k entry).table key)[name]? =
    if key = entry then none else (k.table key)[name]? := by
  rw [(h.erase_spec P entry).2]
  split
  · rfl
  · rfl

end Kernel.Core

/-! ## The core database of a first start -/

def freshCore : Kernel where
  databases _ := ⟨∅, false, true⟩
  expires := []
  futures := []
  now := 0
  keepExpires := true
  keepFutures := true

theorem freshCore_table (key : Bytes) : freshCore.table key = ∅ := by
  simp [Kernel.table, Kernel.get, Kernel.rows, freshCore]
  rfl

theorem freshCore_core : freshCore.Core := by
  refine ⟨fun _ => rfl, rfl, fun key type _ held => ?_, fun key hesh value held => ?_⟩
  · simp [Kernel.get, Kernel.rows, freshCore] at held
  · simp [freshCore_table] at held

end BerylDB.Store
