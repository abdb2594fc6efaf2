import BerylDB.ContainerCommands

/-! # Maps and multimaps

What HSET, HDEL, HGET, HSTRLEN and HCOUNT are to do with a map, what MDEL is to do with a multimap, and when their
queries do it. -/
namespace BerylDB.Store
open Text QueryBase Kernel Transition

inductive MapCommand where
  | hset (hesh value : Bytes)
  | hdel (hesh : Bytes)
  | hget (hesh : Bytes)
  | hstrlen (hesh : Bytes)
  | hcount
deriving DecidableEq

/-- A reply tells what there is to tell, and that nothing was found otherwise. -/
structure Tells (reply : QueryBase) (answer : Option Bytes) : Prop where
  told : ∀ text, answer = some text → reply.finished = true ∧ reply.response = text
  missing : reply.access = .notFound ↔ answer = none

namespace MapCommand

def handle (db : Bytes) (select : ℕ) (key : Bytes) : MapCommand → Option Request
  | hset hesh value => commandHSet db select key hesh value
  | hdel hesh => commandHDel db select key hesh
  | hget hesh => commandHGet db select key hesh
  | hstrlen hesh => commandHStrlen db select key hesh
  | hcount => commandHCount db select key

/-- What a command is to make of a map: a value that is set is not empty. -/
def Refines (P : Platform) (k : Kernel) (r : Request) (fields : MapMap) : MapCommand → Prop
  | hset hesh value => stripe value ≠ [] → (k.execute P r).holds MapHandler.container r.database (r.row intMap) =
      some (fields.insert hesh (stripe value))
  | hdel hesh => ((k.reply P r).finished = true → (k.execute P r).holds MapHandler.container r.database (r.row intMap) =
      MapHandler.container.kept (fields.erase hesh)) ∧
      (hesh ∉ fields → (k.reply P r).access = .notFound ∧ (k.reply P r).finished = false ∧ k.execute P r = k)
  | hget hesh => Tells (k.reply P r) fields[hesh]?
  | hstrlen hesh => Tells (k.reply P r) (fields[hesh]?.map fun value => convtoString value.length)
  | hcount => (k.reply P r).finished = true ∧ (k.reply P r).counter = fields.size

/-- HDEL replies OK and takes nothing where the value of the field is empty. -/
def Exact (fields : MapMap) : MapCommand → Prop
  | hdel hesh => fields[hesh]? ≠ some []
  | _ => True

end MapCommand

section
variable {P : Platform} {k : Kernel} {r : Request} {db key load : Bytes} {select : ℕ} {fields : MapMap} {q : QueryBase}

theorem tells_found (accepted : q.access = .statusOk) (text : Bytes) : Tells (q.respond text).setOK (some text) where
  told _ same := ⟨rfl, Option.some.inj same⟩
  missing := iff_of_false (by simp [QueryBase.setOK, QueryBase.respond, accepted]) (Option.some_ne_none text)

theorem tells_missing (text : Bytes) : Tells ((q.respond text).accessSet .notFound) none where
  told _ same := nomatch same
  missing := iff_of_true rfl rfl

theorem MapHandler.holds_some (h : k.holds MapHandler.container db key = some fields) :
    ∃ load, k.get db key = some load ∧ MapHandler.create load = fields :=
  Store.holds_some h

/-- `MapHandler::Remove` of a field that is there. -/
theorem MapHandler.remove_eq {field : Bytes} (nonempty : field ≠ []) (here : field ∈ fields) :
    MapHandler.remove fields field = fields.erase field := by
  rw [MapHandler.remove, if_neg nonempty]
  split
  · rename_i single
    refine (Std.ExtTreeMap.eq_empty_iff_size_eq_zero.mpr ?_).symm
    rw [Std.ExtTreeMap.size_erase, if_pos (Std.ExtTreeMap.contains_iff_mem.mpr here), single]
  · rfl

section
variable (loaded : Loaded k r load q)
include loaded

theorem Loaded.map : Run.map k q = MapHandler.create load := by rw [Run.map, loaded.destValue]

theorem hset_stored (field : r.hesh ≠ []) (nonempty : r.value ≠ []) : (Run.hset k q).1 =
    .put (MapHandler.container.asString ((MapHandler.create load).insert r.hesh r.value)) := by
  rw [Run.hset, loaded.value, loaded.hesh, if_neg (not_or.mpr ⟨nonempty, field⟩), loaded.got]
  simp only [MapHandler.add, if_neg field, if_true, loaded.writeDest]
  rfl

/-- HDEL of a field that is there takes it, unless its value is empty. -/
theorem hdel_found (field : r.hesh ≠ []) {value : Bytes} (found : (MapHandler.create load)[r.hesh]? = some value) :
    (Run.hdel k q).2.finished = true ∧ (Run.hdel k q).1 = MapHandler.container.stored
      (if value = [] then MapHandler.create load else (MapHandler.create load).erase r.hesh) := by
  have here : r.hesh ∈ MapHandler.create load := Std.ExtTreeMap.mem_iff_isSome_getElem?.mpr (by rw [found]; rfl)
  have get : MapHandler.get (MapHandler.create load) r.hesh = (value, .ok) := by rw [MapHandler.get, found]
  have taken : (if value = [] then MapHandler.create load else MapHandler.remove (MapHandler.create load) r.hesh) =
      if value = [] then MapHandler.create load else (MapHandler.create load).erase r.hesh := by
    rw [MapHandler.remove_eq field here]
  have stored := loaded.store MapHandler.container
    (if value = [] then MapHandler.create load else (MapHandler.create load).erase r.hesh)
  have ran : Run.hdel k q = (MapHandler.container.stored
      (if value = [] then MapHandler.create load else (MapHandler.create load).erase r.hesh), q.setOK) := by
    rw [Run.hdel, loaded.map, loaded.hesh, get]
    simp only [reduceCtorEq, and_false, if_false, taken]
    exact stored
  rw [ran]
  exact ⟨rfl, rfl⟩

theorem hdel_missing (missing : (MapHandler.create load)[r.hesh]? = none) :
    Run.hdel k q = (.none, q.accessSet .notFound) := by
  have get : MapHandler.get (MapHandler.create load) r.hesh = ([], .notFound) := by rw [MapHandler.get, missing]
  rw [Run.hdel, loaded.map, loaded.hesh, get]
  rfl

theorem hget_tells (field : r.hesh ≠ []) : Tells (Run.hget k q) (MapHandler.create load)[r.hesh]? := by
  rw [Run.hget, loaded.hesh, if_neg field, loaded.got]
  cases found : (MapHandler.create load)[r.hesh]? with
  | some value =>
    simp only [MapHandler.get, found]
    exact tells_found loaded.accepted value
  | none =>
    simp only [MapHandler.get, found]
    exact tells_missing []

theorem hstrlen_tells (field : r.hesh ≠ []) : Tells (Run.hstrlen k q)
    ((MapHandler.create load)[r.hesh]?.map fun value => convtoString value.length) := by
  rw [Run.hstrlen, loaded.hesh, if_neg field, loaded.got]
  cases found : (MapHandler.create load)[r.hesh]? with
  | some value =>
    simp only [MapHandler.get, found]
    exact tells_found loaded.accepted (convtoString value.length)
  | none =>
    simp only [MapHandler.get, found]
    exact tells_missing (convtoString 0)

theorem hcount_counts (flags : r.flags = .count) :
    (Run.hlist k q).finished = true ∧ (Run.hlist k q).counter = (MapHandler.create load).size := by
  have counted : q.flags = .count := loaded.flags.trans flags
  rw [Run.hlist, loaded.map, flagged, counted]
  exact ⟨rfl, (List.length_map _).trans Std.ExtTreeMap.length_toList⟩

end

theorem valid_insert {field value : Bytes} (valid : MapHandler.container.Valid fields) (nonempty : field ≠ []) :
    MapHandler.container.Valid (fields.insert field value) :=
  MapHandler.insert_ne_nil valid nonempty

theorem valid_erase {field : Bytes} (valid : MapHandler.container.Valid fields) :
    MapHandler.container.Valid (fields.erase field) := fun key here => valid key (Std.ExtTreeMap.mem_of_mem_erase here)

/-- The commands do to a map what they are to do if and only if HDEL does not name a field with an empty value. -/
theorem map_refined_iff {c : MapCommand} (writable : k.Writable) (opened : k.Opened r.database)
    (registered : r.registered k = some intMap)
    (held : k.holds MapHandler.container r.database (r.row intMap) = some fields)
    (handled : c.handle db select key = some r) : c.Refines P k r fields ↔ c.Exact fields := by
  have valid := valid_of_holds held
  obtain ⟨load, got, rfl⟩ := MapHandler.holds_some held
  cases c with
  | hset hesh value =>
    refine iff_of_true (fun nonempty => ?_) trivial
    obtain ⟨-, made⟩ := Option.ite_none_right_eq_some.mp handled
    obtain ⟨hash, -, rfl⟩ := simpleHesh_some.mp made
    obtain ⟨q, loaded, executed, -⟩ := writer_ran (P := P) writable opened registered got rfl rfl
    rw [executed, hset_stored loaded (keyValidator_ne_nil hash) nonempty]
    exact holds_written writable (valid_insert valid (keyValidator_ne_nil hash))
  | hget hesh =>
    obtain ⟨hash, -, rfl⟩ := heshRetro_some.mp handled
    obtain ⟨q, loaded, -, replied⟩ := reader_ran (P := P) writable opened registered got rfl rfl
      (by simp [QueryClass.queryType])
    have tells := hget_tells loaded (keyValidator_ne_nil hash)
    rw [← replied] at tells
    exact iff_of_true tells trivial
  | hstrlen hesh =>
    obtain ⟨hash, -, rfl⟩ := heshRetro_some.mp handled
    obtain ⟨q, loaded, -, replied⟩ := reader_ran (P := P) writable opened registered got rfl rfl
      (by simp [QueryClass.queryType])
    have tells := hstrlen_tells loaded (keyValidator_ne_nil hash)
    rw [← replied] at tells
    exact iff_of_true tells trivial
  | hcount =>
    obtain ⟨_, made, rfl⟩ := Option.map_eq_some_iff.mp handled
    obtain ⟨-, rfl⟩ := retro_some.mp made
    obtain ⟨q, loaded, -, replied⟩ := reader_ran (P := P) writable opened registered got rfl rfl
      (by simp [QueryClass.queryType])
    have counts := hcount_counts loaded rfl
    rw [← replied] at counts
    exact iff_of_true counts trivial
  | hdel hesh =>
    obtain ⟨hash, -, rfl⟩ := heshRetro_some.mp handled
    obtain ⟨q, loaded, executed, replied⟩ := writer_ran (P := P) writable opened registered got rfl rfl
    cases found : (MapHandler.create load)[hesh]? with
    | none =>
      have ran := hdel_missing loaded found
      rw [ran] at executed replied
      have refused : (q.accessSet .notFound).finished = false := loaded.unfinished
      refine iff_of_true ⟨fun ok => ?_, fun _ => ?_⟩ (by simp [MapCommand.Exact, found])
      · rw [replied, refused] at ok
        exact absurd ok Bool.false_ne_true
      · rw [executed, replied]
        exact ⟨rfl, refused, rfl⟩
    | some value =>
      obtain ⟨finished, stored⟩ := hdel_found loaded (keyValidator_ne_nil hash) found
      have here : hesh ∈ MapHandler.create load := Std.ExtTreeMap.mem_iff_isSome_getElem?.mpr (by rw [found]; rfl)
      rw [← replied] at finished
      rw [stored] at executed
      by_cases empty : value = []
      · rw [if_pos empty] at executed
        refine iff_of_false (fun refined => ?_) (by simp [MapCommand.Exact, found, empty])
        have gone := refined.1 finished
        rw [executed] at gone
        have same := MapHandler.container.kept_injective ((holds_stored writable valid).symm.trans gone)
        rw [same] at here
        simp at here
      · rw [if_neg empty] at executed
        refine iff_of_true ⟨fun _ => ?_, fun missing => absurd here missing⟩ (by simp [MapCommand.Exact, found, empty])
        rw [executed]
        exact holds_stored writable (valid_erase valid)

end

/-- A query on the field of a map. -/
def fieldQuery (cls : QueryClass) (hesh value : Bytes) : Request := { inDb cls (lit "m") value with hesh }

theorem map_refined_hdel : ∃ s, (Server.machine Server.integers).Reachable s ∧ ∃ fields,
    s.kernel.holds MapHandler.container (lit "db") (keyRow (lit "m") 1 intMap) = some fields ∧
    (MapCommand.hdel (lit "f")).Refines Server.integers s.kernel (fieldQuery .hdel (lit "f") []) fields := by
  have h : ((Server.machine Server.integers).exec (fun _ _ => True) Server.fresh
      [.request (fieldQuery .hset (lit "f") (lit "v"))]).any fun s =>
        (s.kernel.databases (lit "db")).closing = false ∧
        QueryBase.registered s.kernel (lit "db") (lit "m") 1 = some intMap ∧
        (s.kernel.get (lit "db") (keyRow (lit "m") 1 intMap)).map (fun load => (MapHandler.create load)[lit "f"]?) =
          some (some (lit "v")) := by decide
  obtain ⟨s, reached, opened, registered, mapped⟩ := Machine.exec_holds h (.initial Server.fresh_initial)
  obtain ⟨load, got, found⟩ := Option.map_eq_some_iff.mp mapped
  have held : s.kernel.holds MapHandler.container (lit "db") (keyRow (lit "m") 1 intMap) = some (MapHandler.create load) :=
    congrArg (Option.map _) got
  have handled : (MapCommand.hdel (lit "f")).handle (lit "db") 1 (lit "m") = some (fieldQuery .hdel (lit "f") []) := by decide
  have refined := map_refined_iff (P := Server.integers) (r := fieldQuery .hdel (lit "f") []) (reachable_inOrder reached).1
    opened registered held handled
  refine ⟨s, reached, _, held, refined.mpr ?_⟩
  rw [MapCommand.Exact, found]
  decide

/-- HDEL of a field with an empty value replies OK, and the field stays. -/
theorem hdel_keeps_empty : ∃ s, (Server.machine Server.integers).Reachable s ∧ ∃ fields : MapMap,
    s.kernel.holds MapHandler.container (lit "db") (keyRow (lit "m") 1 intMap) = some fields ∧
    commandHDel (lit "db") 1 (lit "m") (lit "f") = some (fieldQuery .hdel (lit "f") []) ∧ fields[lit "f"]? = some [] ∧
    ¬ (MapCommand.hdel (lit "f")).Refines Server.integers s.kernel (fieldQuery .hdel (lit "f") []) fields := by
  have h : ((Server.machine Server.integers).exec (fun _ _ => True) Server.fresh
      [.request (fieldQuery .hset (lit "g") (lit "v")), .request (fieldQuery .hsetnx (lit "f") [])]).any fun s =>
        (s.kernel.get (lit "db") (keyRow (lit "m") 1 intMap)).map (fun load => (MapHandler.create load)[lit "f"]?) =
          some (some []) ∧
        (s.kernel.reply Server.integers (fieldQuery .hdel (lit "f") [])).finished = true ∧
        ((s.kernel.execute Server.integers (fieldQuery .hdel (lit "f") [])).get (lit "db")
          (keyRow (lit "m") 1 intMap)).map (fun load => (MapHandler.create load)[lit "f"]?) = some (some []) := by decide
  obtain ⟨s, reached, mapped, finished, mapped'⟩ := Machine.exec_holds h (.initial Server.fresh_initial)
  obtain ⟨load, got, found⟩ := Option.map_eq_some_iff.mp mapped
  obtain ⟨load', got', found'⟩ := Option.map_eq_some_iff.mp mapped'
  refine ⟨s, reached, MapHandler.create load, congrArg (Option.map _) got, by decide, found, fun refined => ?_⟩
  have still : (s.kernel.execute Server.integers (fieldQuery .hdel (lit "f") [])).holds MapHandler.container (lit "db")
      (keyRow (lit "m") 1 intMap) = some (MapHandler.create load') := congrArg (Option.map _) got'
  have gone := still.symm.trans (refined.1 finished)
  rw [Container.kept] at gone
  split at gone
  · cases gone
  · rw [Option.some.inj gone] at found'
    simp at found'

/-! ## MDEL -/

/-- When MDEL deletes a hash: it is looked for without its first and its last byte, unless it is a number or a single
byte, and an only entry goes with any value that is not empty. -/
def DeletesHash (map : MultiMap) (hesh : Bytes) : Prop :=
  if stripe hesh = [] then hesh ∉ map.map Prod.fst
  else if map.length = 1 then hesh ∈ map.map Prod.fst
  else stripe hesh = hesh ∨ stripe hesh ∉ map.map Prod.fst ∧ hesh ∉ map.map Prod.fst

section
variable {P : Platform} {k : Kernel} {r : Request} {db key load hesh : Bytes} {select : ℕ} {map : MultiMap} {q : QueryBase}

theorem filter_eq_filter_iff {α : Type} {l : List α} {p p' : α → Bool} :
    l.filter p = l.filter p' ↔ ∀ x ∈ l, p x = p' x := by
  constructor
  · intro same x here
    have member : x ∈ l.filter p ↔ x ∈ l.filter p' := by rw [same]
    simp only [List.mem_filter, here, true_and] at member
    exact Bool.eq_iff_iff.mpr member
  · exact List.filter_congr

theorem MultiMapHandler.holds_some (h : k.holds MultiMapHandler.container db key = some map) :
    ∃ load, k.get db key = some load ∧ MultiMapHandler.create load = map :=
  Store.holds_some h

theorem Loaded.multi (loaded : Loaded k r load q) : Run.multi k q = MultiMapHandler.create load := by
  rw [Run.multi, loaded.destValue]

theorem MultiMapHandler.remove_sublist (map : MultiMap) (key : Bytes) : (MultiMapHandler.remove map key).Sublist map := by
  unfold MultiMapHandler.remove
  split_ifs
  · exact List.Sublist.refl _
  · exact List.nil_sublist _
  · exact List.filter_sublist

/-- `MultiMapHandler::Remove` takes exactly the entries of a hash from a multimap if and only if `DeletesHash`. -/
theorem remove_stripe_iff : MultiMapHandler.remove map (stripe hesh) = map.filter (fun e => e.1 ≠ hesh) ↔
    DeletesHash map hesh := by
  unfold MultiMapHandler.remove DeletesHash
  by_cases none : stripe hesh = []
  · rw [if_pos none, if_pos none, eq_comm, List.filter_eq_self]
    constructor
    · intro all here
      obtain ⟨e, here, named⟩ := List.mem_map.mp here
      exact of_decide_eq_true (all e here) named
    · exact fun missing e here => decide_eq_true fun named => missing (named ▸ List.mem_map_of_mem here)
  · rw [if_neg none, if_neg none]
    by_cases single : map.length = 1
    · obtain ⟨only, rfl⟩ := List.length_eq_one_iff.mp single
      rw [if_pos single, if_pos single, eq_comm, List.filter_eq_nil_iff]
      simp only [List.mem_singleton, forall_eq, decide_eq_true_eq, not_not, List.map_cons, List.map_nil]
      exact eq_comm
    · rw [if_neg single, if_neg single, filter_eq_filter_iff]
      constructor
      · intro alike
        by_cases same : stripe hesh = hesh
        · exact .inl same
        · refine .inr ⟨fun here => ?_, fun here => ?_⟩
          · obtain ⟨e, here, named⟩ := List.mem_map.mp here
            have := alike e here
            simp [named, same] at this
          · obtain ⟨e, here, named⟩ := List.mem_map.mp here
            have := alike e here
            simp [named, Ne.symm same] at this
      · rintro (same | ⟨one, other⟩) e here
        · rw [same]
        · have first : e.1 ≠ stripe hesh := fun named => one (named ▸ List.mem_map_of_mem here)
          have second : e.1 ≠ hesh := fun named => other (named ▸ List.mem_map_of_mem here)
          simp [first, second]

/-- MDEL takes exactly the entries of a hash if and only if it deletes the hash. -/
theorem hash_removed_iff (writable : k.Writable) (opened : k.Opened r.database)
    (registered : r.registered k = some intMmap)
    (held : k.holds MultiMapHandler.container r.database (r.row intMmap) = some map)
    (handled : commandMDel db select key hesh = some r) :
    (k.execute P r).holds MultiMapHandler.container r.database (r.row intMmap) =
        MultiMapHandler.container.kept (map.filter fun e => e.1 ≠ hesh) ↔ DeletesHash map hesh := by
  have valid := valid_of_holds held
  obtain ⟨load, got, rfl⟩ := MultiMapHandler.holds_some held
  obtain ⟨-, made⟩ := Option.ite_none_right_eq_some.mp handled
  obtain ⟨-, rfl⟩ := simpleRetro_some.mp made
  obtain ⟨q, loaded, executed, -⟩ := writer_ran (P := P) writable opened registered got rfl rfl
  have removed := MultiMapHandler.remove_sublist (MultiMapHandler.create load) (stripe hesh)
  have ran : Run.mdel k q = (MultiMapHandler.container.stored
      (MultiMapHandler.remove (MultiMapHandler.create load) (stripe hesh)), q.setOK) := by
    rw [Run.mdel, loaded.multi, loaded.value]
    exact loaded.store MultiMapHandler.container _
  have left : MultiMapHandler.container.Valid (MultiMapHandler.remove (MultiMapHandler.create load) (stripe hesh)) :=
    ⟨valid.1.sublist removed, fun e here => valid.2 e (removed.subset here)⟩
  rw [executed, ran, holds_stored writable left, (Container.kept_injective _).eq_iff]
  exact remove_stripe_iff

end

theorem hash_removed_first : ∃ s, (Server.machine Server.integers).Reachable s ∧
    ∃ r, commandMDel (lit "db") 1 (lit "m") (lit "a") = some r ∧
      (s.kernel.execute Server.integers r).holds MultiMapHandler.container (lit "db") (keyRow (lit "m") 1 intMmap) =
        some [(lit "b", lit "y")] := by
  have h : ((Server.machine Server.integers).exec (fun _ _ => True) Server.fresh
      [.request (fieldQuery .mset (lit "a") (lit "x")), .request (fieldQuery .mset (lit "b") (lit "y"))]).any fun s =>
        (s.kernel.databases (lit "db")).closing = false ∧
        QueryBase.registered s.kernel (lit "db") (lit "m") 1 = some intMmap ∧
        (s.kernel.get (lit "db") (keyRow (lit "m") 1 intMmap)).map MultiMapHandler.create =
          some [(lit "a", lit "x"), (lit "b", lit "y")] := by decide
  obtain ⟨s, reached, opened, registered, held⟩ := Machine.exec_holds h (.initial Server.fresh_initial)
  have handled : commandMDel (lit "db") 1 (lit "m") (lit "a") = some (inDb .mdel (lit "m") (lit "a")) := by decide
  have removed := hash_removed_iff (P := Server.integers) (r := inDb .mdel (lit "m") (lit "a")) (reachable_inOrder reached).1
    opened registered held handled
  exact ⟨s, reached, _, handled, removed.mpr (.inl (by decide))⟩

/-- The only entry goes with another hash. -/
theorem mdel_takes_other : ∃ s, (Server.machine Server.integers).Reachable s ∧
    s.kernel.holds MultiMapHandler.container (lit "db") (keyRow (lit "m") 1 intMmap) = some [(lit "a", lit "x")] ∧
    ∃ r, commandMDel (lit "db") 1 (lit "m") (lit "b") = some r ∧
      (s.kernel.execute Server.integers r).holds MultiMapHandler.container (lit "db") (keyRow (lit "m") 1 intMmap) ≠
        MultiMapHandler.container.kept ([(lit "a", lit "x")].filter fun e => e.1 ≠ lit "b") := by
  have h : ((Server.machine Server.integers).exec (fun _ _ => True) Server.fresh
      [.request (fieldQuery .mset (lit "a") (lit "x"))]).any fun s =>
        (s.kernel.get (lit "db") (keyRow (lit "m") 1 intMmap)).map MultiMapHandler.create =
          some [(lit "a", lit "x")] ∧
        ((s.kernel.execute Server.integers (inDb .mdel (lit "m") (lit "b"))).get (lit "db")
          (keyRow (lit "m") 1 intMmap)).map MultiMapHandler.create = none := by decide
  obtain ⟨s, reached, held, gone⟩ := Machine.exec_holds h (.initial Server.fresh_initial)
  refine ⟨s, reached, held, inDb .mdel (lit "m") (lit "b"), by decide, fun same => ?_⟩
  exact absurd (gone.symm.trans same) (by decide)

end BerylDB.Store
