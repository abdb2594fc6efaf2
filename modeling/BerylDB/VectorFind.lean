import BerylDB.Parameters
import BerylDB.Preparing

/-! # VFIND

`CommandVFind::Handle` makes the query of VDEL, and takes its last parameter for the value. -/
namespace BerylDB.Store
open Text QueryBase Kernel Transition

/-- The query that `CommandVFind::Handle` pushes. -/
def commandVFind (db : Bytes) (select : ℕ) (parameters : List Bytes) : Option Request :=
  let key := parameters.getD 0 []
  if 2 ≤ parameters.length && parameters.length ≤ 4 && keyValidator key && checkFormat (parameters.getLastD []) then
    (getLimits 4 parameters).map fun (offset, limit) =>
      { cls := .vdel, database := db, key, select, value := stripe (parameters.getLastD []), offset, limit }
  else none

/-- VFIND changes no row and lists the elements that match; an absent key is not found. -/
structure FindsOnly (P : Platform) (k : Kernel) (r : Request) (pattern : Bytes) (offset limit : ℤ) : Prop where
  unchanged : ∀ db row, (k.execute P r).get db row = k.get db row
  finds : ∀ value, r.registered k = some intVector → k.get r.database (r.row intVector) = some value →
    (k.reply P r).finished = true ∧ (k.reply P r).delivered =
      page offset limit (ListHandler.find P (VectorHandler.create value) pattern)
  missing : r.registered k = none → (k.reply P r).access = .notFound

namespace VectorHandler

theorem remove_sublist (items : List Bytes) (key : Bytes) : (remove items key).Sublist items := by
  unfold remove
  split
  · exact List.Sublist.refl _
  · split
    · exact List.nil_sublist _
    · exact List.erase_sublist

theorem remove_length {items : List Bytes} {key : Bytes} (nonempty : ∀ item ∈ items, item ≠ []) (here : key ∈ items) :
    (remove items key).length < items.length := by
  have positive := List.length_pos_of_mem here
  rw [remove, if_neg (nonempty key here)]
  split
  · exact positive
  · rw [List.length_erase_of_mem here]
    omega

end VectorHandler

section
variable {P : Platform} {k : Kernel} {r : Request} {value : Bytes}

/-- VDEL of an item changes the row of the vector. -/
theorem vdel_changes (writable : k.Writable) (cls : r.cls = .vdel) (opened : k.Opened r.database)
    (registered : r.registered k = some intVector) (held : k.get r.database (r.row intVector) = some value)
    (here : r.value ∈ VectorHandler.create value) :
    (k.execute P r).get r.database (r.row intVector) ≠ k.get r.database (r.row intVector) := by
  have nonempty : ∀ item ∈ VectorHandler.create value, item ≠ [] := ListHandler.create_ne_nil value
  have found : (r.found intVector none).destValue k = value := by
    change ((k.get r.database (r.row intVector)).getD []) = value
    rw [held, Option.getD_some]
  have exist : ListHandler.exist (Run.items k (r.found intVector none)) r.value = true := by
    rw [Run.items, found]
    exact List.contains_iff_mem.mpr here
  have ran : k.execute P r = k.apply r.database (r.row intVector) (Run.vdel k (r.found intVector none)).1 := by
    rw [Kernel.execute, prepare_any opened registered (by simp [cls, QueryClass.queryType]), QueryBase.run, cls]
    rfl
  have effect : (Run.vdel k (r.found intVector none)).1 =
      (Run.store k (r.found intVector none) (VectorHandler.remove (VectorHandler.create value) r.value) true).1 := by
    rw [Run.vdel, Request.found_value, exist, Run.items, found]
    rfl
  rw [ran, effect, Run.store, held]
  split
  · rename_i left
    change (k.update (.put r.database (r.row intVector) _)).get _ _ ≠ _
    rw [get_update_put writable, if_pos ⟨rfl, rfl⟩]
    intro same
    have stored := Option.some.inj same
    have fewer := congrArg (fun load => (ListHandler.create load).length) stored
    rw [ListHandler.create_asString fun item left => nonempty item ((VectorHandler.remove_sublist _ _).mem left)] at fewer
    exact absurd fewer (VectorHandler.remove_length nonempty here).ne
  · change (k.update (.erase r.database (r.row intVector))).get _ _ ≠ _
    rw [get_update_erase writable, if_pos ⟨rfl, rfl⟩]
    intro none
    cases none

/-- VDEL of something else finds nothing. -/
theorem vdel_misses (cls : r.cls = .vdel) (opened : k.Opened r.database) (registered : r.registered k = some intVector)
    (held : k.get r.database (r.row intVector) = some value) (missing : r.value ∉ VectorHandler.create value) :
    (k.reply P r).finished = false := by
  have found : (r.found intVector none).destValue k = value := by
    change ((k.get r.database (r.row intVector)).getD []) = value
    rw [held, Option.getD_some]
  have exist : ListHandler.exist (Run.items k (r.found intVector none)) r.value = false := by
    rw [Run.items, found]
    exact Bool.eq_false_iff.mpr fun here => missing (List.contains_iff_mem.mp here)
  rw [Kernel.reply, prepare_any opened registered (by simp [cls, QueryClass.queryType]), QueryBase.run, cls]
  change (Run.vdel k (r.found intVector none)).2.finished = false
  rw [Run.vdel, Request.found_value, exist]
  rfl

end

section
variable {P : Platform} {s : Server} {r : Request} {db : Bytes} {select : ℕ} {parameters : List Bytes} {offset limit : ℤ}

/-- VFIND only reads if and only if the key is absent. -/
theorem vfind_reads_iff (reach : (Server.machine P).Reachable s)
    (handled : commandVFind db select parameters = some r) (limits : getLimits 4 parameters = some (offset, limit))
    (opened : s.kernel.Opened db) (place : r.registered s.kernel = some intVector ∨ r.registered s.kernel = none) :
    FindsOnly P s.kernel r (stripe (parameters.getD 1 [])) offset limit ↔ r.registered s.kernel = none := by
  obtain ⟨writable, -⟩ := reachable_inOrder reach
  obtain ⟨cls, rfl⟩ : r.cls = .vdel ∧ r.database = db := by
    simp only [commandVFind, limits, Option.ite_none_right_eq_some, Option.map_some, Option.some.injEq] at handled
    obtain ⟨-, rfl⟩ := handled
    exact ⟨rfl, rfl⟩
  have kind : r.cls.queryType ∈ [.read, .lat, .long, .expire, .delete] := by simp [cls, QueryClass.queryType]
  constructor
  · intro h
    refine place.resolve_left fun registered => ?_
    obtain ⟨-, value, held⟩ := registered_some registered
    by_cases here : r.value ∈ VectorHandler.create value
    · exact vdel_changes writable cls opened registered held here (h.unchanged _ _)
    · have finds := (h.finds value registered held).1
      rw [vdel_misses cls opened registered held here] at finds
      exact absurd finds Bool.false_ne_true
  · intro absent
    obtain ⟨same, missing, -⟩ := prepare_missing (P := P) opened absent kind
    refine ⟨fun db row => by rw [Kernel.execute, same], fun value registered => ?_, fun _ => missing⟩
    rw [absent] at registered
    cases registered

end

/-- VFIND of the key `v` in the first select of the database `db`. -/
def vfindQuery : Request where
  cls := .vdel
  database := lit "db"
  key := lit "v"
  select := 1
  value := lit "a"
  limit := -1

theorem vfind_handled : commandVFind (lit "db") 1 [lit "v", lit "\"a\""] = some vfindQuery := by decide

theorem vfind_reads_absent : FindsOnly Server.integers Server.fresh.kernel vfindQuery (stripe (lit "\"a\"")) 0 (-1) := by
  have start : (Server.machine Server.integers).Reachable Server.fresh := .initial Server.fresh_initial
  have reads := vfind_reads_iff start vfind_handled rfl rfl (.inr (by decide))
  exact reads.mpr (by decide)

/-- VFIND of the only element deletes the vector. -/
theorem vfind_deletes : ∃ s, (Server.machine Server.integers).Reachable s ∧
    commandVFind (lit "db") 1 [lit "v", lit "\"a\""] = some vfindQuery ∧
    vfindQuery.registered s.kernel = some intVector ∧
    vfindQuery.registered (s.kernel.execute Server.integers vfindQuery) = none ∧
    ¬ FindsOnly Server.integers s.kernel vfindQuery (stripe (lit "\"a\"")) 0 (-1) := by
  have h : ((Server.machine Server.integers).exec (fun _ _ => True) Server.fresh
      [.request { vfindQuery with cls := .vpush }]).any fun s =>
        vfindQuery.registered s.kernel = some intVector ∧
        vfindQuery.registered (s.kernel.execute Server.integers vfindQuery) = none ∧
        (s.kernel.get (lit "db") (keyRow (lit "v") 1 intVector)).isSome ∧
        (s.kernel.execute Server.integers vfindQuery).get (lit "db") (keyRow (lit "v") 1 intVector) = none := by decide
  obtain ⟨s, reached, vector, gone, before, after⟩ := Machine.exec_holds h (.initial Server.fresh_initial)
  refine ⟨s, reached, vfind_handled, vector, gone, fun finds => ?_⟩
  rw [← finds.unchanged, after] at before
  exact Bool.false_ne_true before

end BerylDB.Store
