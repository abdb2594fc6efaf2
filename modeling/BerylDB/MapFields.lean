import BerylDB.Codec
import BerylDB.Relocation

/-! # HSETNX and HEXISTS

The two commands on fields that run for absent keys, or for keys of any type. -/
namespace BerylDB.Store
open Text QueryBase Kernel Transition

/-- The same key and field in a query of another class. -/
def Request.as (r : Request) (c : QueryClass) : Request := { r with cls := c }

/-- The fields of the map that the key names. -/
def Kernel.fields (k : Kernel) (r : Request) : MapMap := MapHandler.create ((k.get r.database (r.row intMap)).getD [])

/-- What HSETNX and HEXISTS are to do for every state of the map. -/
structure StoresField (P : Platform) (k : Kernel) (r : Request) : Prop where
  ok : (k.reply P r).finished = true ↔
    r.registered k = none ∨ r.registered k = some intMap ∧ r.hesh ∉ k.fields r
  get : (k.reply P r).finished = true →
    ((k.execute P r).reply P (r.as .hget)).finished = true ∧ ((k.execute P r).reply P (r.as .hget)).response = r.value
  others : (k.reply P r).finished = true →
    (∀ field ≠ r.hesh, ((k.execute P r).fields r)[field]? = (k.fields r)[field]?) ∧
    ∀ db row, ¬ (db = r.database ∧ row = r.row intMap) → (k.execute P r).get db row = k.get db row
  present : r.registered k = some intMap → r.hesh ∈ k.fields r →
    (k.reply P r).access = .entryExists ∧ k.execute P r = k
  answers : ((k.reply P (r.as .hexists)).finished = true ∧ (k.reply P (r.as .hexists)).response = lit "1") ↔
    r.registered k = some intMap ∧ r.hesh ∈ k.fields r

/-! ## Maps -/

/-- A map with one more field comes back from its text. -/
theorem create_insert {load field : Bytes} (value : Bytes) (nonempty : field ≠ []) :
    MapHandler.create (MapHandler.asString ((MapHandler.create load).insert field value)) =
      (MapHandler.create load).insert field value :=
  MapHandler.create_asString (MapHandler.insert_ne_nil (MapHandler.create_ne_nil load) nonempty)

/-! ## The two commands -/

section
variable {P : Platform} {k : Kernel} {r : Request} {type value : Bytes}

theorem map_found {mapped : Option Bytes} (held : k.get r.database (r.row type) = some value)
    (loaded : mapped = none ∨ mapped = k.get r.database (r.row type)) :
    Run.map k (r.found type mapped) = MapHandler.create value := by
  rw [Run.map, QueryBase.destValue, get_found held loaded, Option.getD_some]

theorem hsetnx_found (held : k.get r.database (r.row intMap) = some value) (writable : k.Writable)
    (field : r.hesh ≠ []) :
    Run.hsetnx k (r.found intMap (k.get r.database (r.row intMap))) =
      if r.hesh ∈ MapHandler.create value then
        (.none, (r.found intMap (k.get r.database (r.row intMap))).accessSet .entryExists)
      else (.put (MapHandler.asString ((MapHandler.create value).insert r.hesh r.value)),
        (r.found intMap (k.get r.database (r.row intMap))).setOK) := by
  have loaded := get_found held (.inr rfl)
  have map := map_found held (.inr rfl)
  have named : (r.found intMap (k.get r.database (r.row intMap))).hesh = r.hesh := rfl
  have taken : (k.databases r.database).writable = true := writable r.database
  by_cases here : r.hesh ∈ MapHandler.create value
  · simp only [Run.hsetnx, loaded, map, named, MapHandler.exists', if_pos here]
    simp [here]
  · simp only [Run.hsetnx, loaded, map, named, MapHandler.exists', MapHandler.add, if_neg field, Request.found_database,
      taken, if_neg here, Request.found_value]
    simp [here]

theorem hget_found (held : k.get r.database (r.row intMap) = some value) (field : r.hesh ≠ []) {item : Bytes}
    (found : (MapHandler.create value)[r.hesh]? = some item) :
    Run.hget k (r.found intMap (k.get r.database (r.row intMap))) =
      ((r.found intMap (k.get r.database (r.row intMap))).respond item).setOK := by
  have loaded := get_found held (.inr rfl)
  have named : (r.found intMap (k.get r.database (r.row intMap))).hesh = r.hesh := rfl
  simp only [Run.hget, loaded, named, if_neg field, MapHandler.get, found, if_true]

theorem hexists_found (held : k.get r.database (r.row type) = some value) (field : r.hesh ≠ []) :
    Run.hexists k (r.found type none) =
      ((r.found type none).respond (flag (MapHandler.exists' (MapHandler.create value) r.hesh))).setOK := by
  have loaded := get_found held (.inl rfl)
  have map := map_found held (.inl rfl)
  have named : (r.found type none).hesh = r.hesh := rfl
  simp only [Run.hexists, named, if_neg field, loaded, map, Option.isSome_some, Bool.true_and]

theorem flag_eq_one {b : Bool} : flag b = lit "1" ↔ b = true := by
  cases b <;> decide

/-! ## The three kinds of key -/

section
variable (opened : k.Opened r.database) (cls : r.cls = .hsetnx) (field : r.hesh ≠ [])
include opened cls field

theorem prepare_hsetnx_map (writable : k.Writable) (registered : r.registered k = some intMap)
    (held : k.get r.database (r.row intMap) = some value) : prepare P r.cls k r.query =
      if r.hesh ∈ MapHandler.create value then
        (k, (r.found intMap (k.get r.database (r.row intMap))).accessSet .entryExists)
      else (k.update (.put r.database (r.row intMap)
          (MapHandler.asString ((MapHandler.create value).insert r.hesh r.value))),
        (r.found intMap (k.get r.database (r.row intMap))).setOK) := by
  rw [cls, prepare_loaded opened registered (by decide) rfl, if_pos rfl]
  change (k.apply _ _ (Run.hsetnx k _).1, (Run.hsetnx k _).2) = _
  rw [hsetnx_found held writable field]
  split <;> rfl

omit cls in
theorem reply_hexists (registered : r.registered k = some type) (held : k.get r.database (r.row type) = some value) :
    k.reply P (r.as .hexists) =
      ((r.found type none).respond (flag (MapHandler.exists' (MapHandler.create value) r.hesh))).setOK := by
  have found : prepare P .hexists k r.query = _ := prepare_any opened registered (by decide)
  change (prepare P .hexists k r.query).2 = _
  rw [found]
  exact hexists_found held field

omit cls in
/-- HGET after a map was stored. -/
theorem reply_hget (writable : k.Writable) (registered : r.registered k = some intMap) {text item : Bytes}
    (found : (MapHandler.create text)[r.hesh]? = some item) :
    ((k.update (.put r.database (r.row intMap) text)).reply P (r.as .hget)).finished = true ∧
      ((k.update (.put r.database (r.row intMap) text)).reply P (r.as .hget)).response = item := by
  have held : (k.update (.put r.database (r.row intMap) text)).get r.database (r.row intMap) = some text := by
    rw [get_update_put writable, if_pos ⟨rfl, rfl⟩]
  have still : r.registered (k.update (.put r.database (r.row intMap) text)) = some intMap :=
    registered_put writable (by decide) (.inr registered) text
  have opened' : (k.update (.put r.database (r.row intMap) text)).Opened r.database :=
    (closing_update writable _ _).mpr ⟨opened, by simp⟩
  have ran : prepare P .hget _ r.query = _ := prepare_loaded opened' still (by decide) rfl
  rw [if_pos rfl] at ran
  unfold Kernel.reply
  change (prepare P .hget _ r.query).2.finished = true ∧ (prepare P .hget _ r.query).2.response = item
  rw [ran]
  change (Run.hget _ _).finished = true ∧ (Run.hget _ _).response = item
  rw [hget_found held field found]
  exact ⟨rfl, rfl⟩

/-- A map: the field is stored, or it is there. -/
theorem stores_map (writable : k.Writable) (registered : r.registered k = some intMap) : StoresField P k r := by
  obtain ⟨known, value, held⟩ := registered_some registered
  have held' : k.get r.database (r.row intMap) = some value := held
  have fields : k.fields r = MapHandler.create value := by rw [Kernel.fields, held', Option.getD_some]
  have ran := prepare_hsetnx_map (P := P) opened cls field writable registered held'
  have answer := reply_hexists (P := P) opened field registered held'
  have absent : ¬ r.registered k = none := by simp [registered]
  by_cases here : r.hesh ∈ MapHandler.create value
  · rw [if_pos here] at ran
    have refused : ¬ (k.reply P r).finished = true := by
      rw [Kernel.reply, ran]
      exact Bool.false_ne_true
    refine ⟨iff_of_false refused ?_, fun ok => absurd ok refused, fun ok => absurd ok refused, fun _ _ => ?_, ?_⟩
    · rintro (none | ⟨-, new⟩)
      · exact absent none
      · exact new (fields ▸ here)
    · rw [Kernel.reply, Kernel.execute, ran]
      exact ⟨rfl, rfl⟩
    · rw [answer, fields]
      refine iff_of_true ⟨rfl, ?_⟩ ⟨registered, here⟩
      exact flag_eq_one.mpr (Std.ExtTreeMap.contains_iff_mem.mpr here)
  · rw [if_neg here] at ran
    have ok : (k.reply P r).finished = true := by rw [Kernel.reply, ran]; rfl
    have after : k.execute P r = k.update (.put r.database (r.row intMap)
        (MapHandler.asString ((MapHandler.create value).insert r.hesh r.value))) := by rw [Kernel.execute, ran]
    have fields' : (k.execute P r).fields r = (MapHandler.create value).insert r.hesh r.value := by
      rw [Kernel.fields, after, get_update_put writable, if_pos ⟨rfl, rfl⟩, Option.getD_some, create_insert _ field]
    refine ⟨iff_of_true ok (.inr ⟨registered, fields ▸ here⟩), fun _ => ?_,
      fun _ => ⟨fun g other => ?_, fun db row outside => ?_⟩,
      fun _ present => absurd (fields ▸ present) here, ?_⟩
    · rw [after]
      refine reply_hget opened field writable registered ?_
      rw [create_insert _ field, Std.ExtTreeMap.getElem?_insert_self]
    · rw [fields', fields, Std.ExtTreeMap.getElem?_insert, if_neg]
      exact fun same => other (Std.compare_eq_iff_eq.mp same).symm
    · rw [after, get_update_put writable, if_neg outside]
    · rw [answer, fields]
      refine iff_of_false (fun one => here ?_) fun yes => here yes.2
      exact Std.ExtTreeMap.contains_iff_mem.mp (flag_eq_one.mp one.2)

/-- Another type: HSETNX refuses it, and HEXISTS looks into it. -/
theorem stores_other_iff (registered : r.registered k = some type) (other : type ≠ intMap) :
    StoresField P k r ↔ r.hesh ∉ MapHandler.create ((k.get r.database (r.row type)).getD []) := by
  obtain ⟨known, value, held⟩ := registered_some registered
  have held' : k.get r.database (r.row type) = some value := held
  have answer := reply_hexists (P := P) opened field registered held'
  have own : r.cls.baseRequest = some intMap := by rw [cls]; rfl
  have ran : prepare P r.cls k r.query = _ := prepare_loaded opened registered (by simp [cls, QueryClass.queryType]) own
  rw [if_neg other] at ran
  have refused : ¬ (k.reply P r).finished = true := by
    rw [Kernel.reply, ran]
    exact Bool.false_ne_true
  have nowhere : ¬ r.registered k = some intMap := by simpa [registered] using other
  rw [held', Option.getD_some]
  constructor
  · intro h here
    refine nowhere (h.answers.mp ?_).1
    rw [answer]
    exact ⟨rfl, flag_eq_one.mpr (Std.ExtTreeMap.contains_iff_mem.mpr here)⟩
  · intro missing
    refine ⟨iff_of_false refused ?_, fun ok => absurd ok refused, fun ok => absurd ok refused,
      fun yes => absurd yes nowhere, ?_⟩
    · rintro (none | ⟨yes, -⟩)
      · simp [registered] at none
      · exact nowhere yes
    · rw [answer]
      refine iff_of_false (fun one => missing ?_) fun yes => nowhere yes.1
      exact Std.ExtTreeMap.contains_iff_mem.mp (flag_eq_one.mp one.2)

omit opened cls field in
theorem reply_absent (kind : r.cls.queryType = .read) (absent : r.registered k = none) :
    ¬ (k.reply P r).finished = true := by
  unfold Kernel.reply
  by_cases opened : k.Opened r.database
  · rw [(prepare_missing opened absent (by simp [kind])).2.2]
    exact Bool.false_ne_true
  · rw [prepare_closing opened]
    exact Bool.false_ne_true

omit field in
/-- An absent key: the row of no name is written, and HGET does not find it. -/
theorem stores_absent (writable : k.Writable) (absent : r.registered k = none) : ¬ StoresField P k r := by
  intro h
  have ran : prepare P r.cls k r.query = run P r.cls k r.absent :=
    prepare_absent opened absent (by simp [cls, QueryClass.queryType])
  have rows (db : Bytes) {row : Bytes} (named : row ≠ []) : (k.execute P r).get db row = k.get db row := by
    rw [Kernel.execute, ran, QueryBase.run, cls]
    change (k.apply r.database [] (Run.hsetnx k r.absent).1).get db row = k.get db row
    cases (Run.hsetnx k r.absent).1 with
    | none => rfl
    | put value =>
      change (k.update (.put r.database [] value)).get db row = k.get db row
      rw [get_update_put writable, if_neg fun here => named here.2]
    | delete =>
      change (k.update (.erase r.database [])).get db row = k.get db row
      rw [get_update_erase writable, if_neg fun here => named here.2]
  have still : (r.as .hget).registered (k.execute P r) = none := by
    refine registered_none.mpr fun t ht => ?_
    rw [rows _ (by simp [keyRow, rowName])]
    exact registered_none.mp absent t ht
  exact reply_absent rfl still (h.get (h.ok.mpr (.inl absent))).1

end

end

section
variable {P : Platform} {s : Server} {r : Request}

/-- HSETNX and HEXISTS do what they are to, if and only if the key is registered as a map, or under another type whose
bytes do not read as a map with the field. -/
theorem hsetnx_exact_iff (reach : (Server.machine P).Reachable s) (cls : r.cls = .hsetnx)
    (opened : s.kernel.Opened r.database) (field : r.hesh ≠ []) :
    StoresField P s.kernel r ↔ ∃ type, r.registered s.kernel = some type ∧
      (type = intMap ∨ r.hesh ∉ MapHandler.create ((s.kernel.get r.database (r.row type)).getD [])) := by
  obtain ⟨writable, -⟩ := reachable_inOrder reach
  cases registered : r.registered s.kernel with
  | none => exact iff_of_false (stores_absent opened cls writable registered) (by simp)
  | some type =>
    by_cases map : type = intMap
    · subst map
      exact iff_of_true (stores_map opened cls field writable registered) ⟨intMap, rfl, .inl rfl⟩
    · rw [stores_other_iff opened cls field registered map]
      constructor
      · exact fun missing => ⟨type, rfl, .inr missing⟩
      · rintro ⟨t, same, own | missing⟩
        · exact absurd (Option.some.inj same ▸ own) map
        · exact Option.some.inj same ▸ missing

end

/-- HSETNX of a field in the first select of the database `db`. -/
def hsetnxIn (key field value : Bytes) : Request := { inDb .hsetnx key value with hesh := field }

theorem hsetnx_exact_plain : ∃ s, (Server.machine Server.integers).Reachable s ∧
    StoresField Server.integers s.kernel (hsetnxIn (lit "m") (lit "g") (lit "w")) := by
  have h : ((Server.machine Server.integers).exec (fun _ _ => True) Server.fresh
      [.request { inDb .hset (lit "m") (lit "v") with hesh := lit "f" }]).any fun s =>
        (hsetnxIn (lit "m") (lit "g") (lit "w")).registered s.kernel = some intMap ∧
        (s.kernel.databases (lit "db")).closing = false := by decide
  obtain ⟨s, reached, map, opened⟩ := Machine.exec_holds h (.initial Server.fresh_initial)
  have exact_iff := hsetnx_exact_iff (r := hsetnxIn (lit "m") (lit "g") (lit "w")) reached rfl opened (by decide)
  exact ⟨s, reached, exact_iff.mpr ⟨intMap, map, .inl rfl⟩⟩

/-- HSETNX of an absent map replies OK and writes the row of no name. -/
theorem hsetnx_absent_stray : (Server.machine Server.integers).Reachable Server.fresh ∧
    (hsetnxIn (lit "m") (lit "f") (lit "v")).Accepted ∧
    (hsetnxIn (lit "m") (lit "f") (lit "v")).registered Server.fresh.kernel = none ∧
    (Server.fresh.kernel.reply Server.integers (hsetnxIn (lit "m") (lit "f") (lit "v"))).finished = true ∧
    ((Server.fresh.kernel.execute Server.integers (hsetnxIn (lit "m") (lit "f") (lit "v"))).reply Server.integers
      ((hsetnxIn (lit "m") (lit "f") (lit "v")).as .hget)).finished = false ∧
    ¬ StoresField Server.integers Server.fresh.kernel (hsetnxIn (lit "m") (lit "f") (lit "v")) := by
  refine ⟨.initial Server.fresh_initial, by decide, by decide, by decide, by decide, fun stores => ?_⟩
  exact absurd (stores.get (by decide)).1 (by decide)

end BerylDB.Store
