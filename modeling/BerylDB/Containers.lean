import BerylDB.Codec
import BerylDB.Relocation

/-! # Containers in the rows

A container is read from the text of its row, worked on and written back, or the row is deleted when nothing is left. -/
namespace BerylDB.Store
open Text QueryBase Kernel

/-- A kind of container with its conversions: what is read is valid, and what is valid is read back as it was written.
There is one empty container. -/
structure Container (α : Type) where
  create : Bytes → α
  asString : α → Bytes
  count : α → ℕ
  Valid : α → Prop
  create_asString : ∀ a, Valid a → create (asString a) = a
  valid_create : ∀ load, Valid (create load)
  eq_of_empty : ∀ a b, count a = 0 → count b = 0 → a = b

/-- What a row is to hold of a container: nothing of an empty one. -/
def Container.kept {α : Type} (C : Container α) (a : α) : Option α := if C.count a = 0 then none else some a

/-- What is done to the row of a container: it is written back, or deleted when nothing is left. -/
def Container.stored {α : Type} (C : Container α) (a : α) : Effect :=
  if C.count a > 0 then .put (C.asString a) else .delete

/-- The container that a row holds. -/
def Kernel.holds {α : Type} (k : Kernel) (C : Container α) (db row : Bytes) : Option α := (k.get db row).map C.create

/-- Lists, and vectors, whose handler has the same conversions. -/
def ListHandler.container : Container (List Bytes) where
  create := create
  asString := asString
  count := count
  Valid items := ∀ item ∈ items, item ≠ []
  create_asString _ := create_asString
  valid_create := create_ne_nil
  eq_of_empty _ _ h h' := (List.length_eq_zero_iff.mp h).trans (List.length_eq_zero_iff.mp h').symm

def MapHandler.container : Container MapMap where
  create := create
  asString := asString
  count := count
  Valid map := ∀ key ∈ map, key ≠ []
  create_asString _ := create_asString
  valid_create := create_ne_nil
  eq_of_empty _ _ h h' :=
    (Std.ExtTreeMap.eq_empty_iff_size_eq_zero.mpr h).trans (Std.ExtTreeMap.eq_empty_iff_size_eq_zero.mpr h').symm

def MultiMapHandler.container : Container MultiMap where
  create := create
  asString := asString
  count := count
  Valid map := Sorted map ∧ ∀ e ∈ map, e.1 ≠ []
  create_asString _ valid := create_asString valid.1 valid.2
  valid_create load := ⟨create_sorted load, create_ne_nil load⟩
  eq_of_empty _ _ h h' := (List.length_eq_zero_iff.mp h).trans (List.length_eq_zero_iff.mp h').symm

theorem ListHandler.kept_nil : container.kept [] = none := rfl
theorem ListHandler.kept_of_ne_nil {items : List Bytes} (filled : items ≠ []) : container.kept items = some items :=
  if_neg (List.length_pos_iff.mpr filled).ne'

theorem Container.kept_injective {α : Type} (C : Container α) : Function.Injective C.kept := fun a b same => by
  unfold Container.kept at same
  split at same <;> split at same
  · exact C.eq_of_empty a b ‹_› ‹_›
  · exact nomatch same
  · exact nomatch same
  · exact Option.some.inj same

section
variable {α : Type} {C : Container α} {k : Kernel} {db row : Bytes} {a : α}

theorem holds_some (h : k.holds C db row = some a) : ∃ value, k.get db row = some value ∧ C.create value = a :=
  Option.map_eq_some_iff.mp h

theorem ListHandler.holds_some {items : List Bytes} (h : k.holds container db row = some items) :
    ∃ load, k.get db row = some load ∧ create load = items :=
  Store.holds_some h

theorem valid_of_holds (h : k.holds C db row = some a) : C.Valid a := by
  obtain ⟨value, -, rfl⟩ := holds_some h
  exact C.valid_create value

theorem holds_put (writable : k.Writable) (value : Bytes) :
    (k.apply db row (.put value)).holds C db row = some (C.create value) := by
  change ((k.update (.put db row value)).get db row).map C.create = _
  rw [get_update_put writable, if_pos ⟨rfl, rfl⟩, Option.map_some]

/-- A valid container is in the row that it was written to. -/
theorem holds_written (writable : k.Writable) (valid : C.Valid a) :
    (k.apply db row (.put (C.asString a))).holds C db row = some a := by
  rw [holds_put writable, C.create_asString a valid]

theorem holds_deleted (writable : k.Writable) : (k.apply db row .delete).holds C db row = none := by
  change ((k.update (.erase db row)).get db row).map C.create = _
  rw [get_update_erase writable, if_pos ⟨rfl, rfl⟩, Option.map_none]

/-- A container that is written back unless it is empty is kept. -/
theorem holds_stored (writable : k.Writable) (valid : C.Valid a) :
    (k.apply db row (C.stored a)).holds C db row = C.kept a := by
  rw [Container.stored, Container.kept]
  rcases Nat.eq_zero_or_pos (C.count a) with empty | positive
  · rw [if_neg (by omega), if_pos empty, holds_deleted writable]
  · rw [if_pos positive, if_neg (by omega), holds_written writable valid]

/-- A row stays as long as it is not deleted. -/
theorem holds_remains (writable : k.Writable) (held : k.holds C db row = some a) {effect : Effect}
    (stays : effect ≠ .delete) : (k.apply db row effect).holds C db row ≠ none := by
  cases effect with
  | none => exact held ▸ Option.some_ne_none a
  | put value => exact holds_put writable value ▸ Option.some_ne_none _
  | delete => exact absurd rfl stays

theorem writable_apply (writable : k.Writable) (effect : Effect) : (k.apply db row effect).Writable := by
  cases effect with
  | none => exact writable
  | put value => exact writable.update (.put db row value)
  | delete => exact writable.update (.erase db row)

theorem opened_apply (writable : k.Writable) (effect : Effect) {db' : Bytes} (opened : k.Opened db') :
    (k.apply db row effect).Opened db' := by
  cases effect with
  | none => exact opened
  | put value => exact (closing_update writable (.put db row value) db').mpr ⟨opened, by simp⟩
  | delete => exact (closing_update writable (.erase db row) db').mpr ⟨opened, by simp⟩

/-- Nothing is done to the other rows. -/
theorem get_apply (writable : k.Writable) (effect : Effect) {db' row' : Bytes} (other : ¬ (db' = db ∧ row' = row)) :
    (k.apply db row effect).get db' row' = k.get db' row' := by
  cases effect with
  | none => rfl
  | put value => exact (get_update_put writable ..).trans (if_neg other)
  | delete => exact (get_update_erase writable ..).trans (if_neg other)

end

/-! ## Queries on a registered container -/

/-- The query that `Run` is given for the row of a registered key. -/
structure Loaded (k : Kernel) (r : Request) (load : Bytes) (q : QueryBase) : Prop where
  got : q.get k q.dest = some load
  value : q.value = r.value
  hesh : q.hesh = r.hesh
  flags : q.flags = r.flags
  writable : (k.databases q.database).writable = true
  unfinished : q.finished = false
  accepted : q.access = .statusOk

section
variable {P : Platform} {k : Kernel} {r : Request} {type load : Bytes}

theorem loaded_found (writable : k.Writable) (held : k.get r.database (r.row type) = some load) {mapped : Option Bytes}
    (loaded : mapped = none ∨ mapped = k.get r.database (r.row type)) : Loaded k r load (r.found type mapped) where
  got := get_found held loaded
  value := rfl
  hesh := rfl
  flags := rfl
  writable := writable r.database
  unfinished := rfl
  accepted := rfl

section
variable (writable : k.Writable) (opened : k.Opened r.database) (registered : r.registered k = some type)
  (held : k.get r.database (r.row type) = some load) (own : r.cls.baseRequest = some type)
include writable opened registered held own

/-- A query that writes or deletes its row. -/
theorem writer_ran {run : Writer} (body : r.cls.body P = .writer run) : ∃ q, Loaded k r load q ∧
    k.execute P r = k.apply r.database (r.row type) (run k q).1 ∧ k.reply P r = (run k q).2 := by
  have kind := writer_queryType body
  have ran (mapped : Option Bytes) (loaded : mapped = none ∨ mapped = k.get r.database (r.row type))
      (prepared : prepare P r.cls k r.query = QueryBase.run P r.cls k (r.found type mapped)) : ∃ q, Loaded k r load q ∧
        k.execute P r = k.apply r.database (r.row type) (run k q).1 ∧ k.reply P r = (run k q).2 := by
    refine ⟨_, loaded_found writable held loaded, ?_, ?_⟩
    · rw [Kernel.execute, prepared, QueryBase.run, body]
      rfl
    · rw [Kernel.reply, prepared, QueryBase.run, body]
      rfl
  simp only [List.mem_cons, List.not_mem_nil, or_false] at kind
  rcases kind with kind | kind | kind | kind | kind
  case inr.inr.inr.inr => exact ran none (.inl rfl) (prepare_any opened registered (by simp [kind]))
  all_goals
    refine ran _ (.inr rfl) ?_
    rw [prepare_loaded opened registered (by simp [kind]) own, if_pos rfl]

/-- A query that only reads its row. -/
theorem reader_ran {run : Reader} (body : r.cls.body P = .reader run)
    (kind : r.cls.queryType ∈ [.write, .read, .lat, .long, .readAllow, .iter]) : ∃ q, Loaded k r load q ∧
      k.execute P r = k ∧ k.reply P r = run k q := by
  refine ⟨_, loaded_found writable held (.inr rfl), ?_, reply_reader opened registered body kind own⟩
  rw [Kernel.execute, prepare_loaded opened registered kind own, if_pos rfl, QueryBase.run, body]
  rfl

end

section
variable {q : QueryBase} (loaded : Loaded k r load q)
include loaded

theorem Loaded.destValue : q.destValue k = load := by rw [QueryBase.destValue, loaded.got, Option.getD_some]

theorem Loaded.items : Run.items k q = ListHandler.create load := by rw [Run.items, loaded.destValue]

theorem Loaded.onItems (f : List Bytes → QueryBase) : Run.onItems k q f = f (ListHandler.create load) := by
  rw [Run.onItems, loaded.got]

theorem Loaded.onItemsWrite (f : List Bytes → Effect × QueryBase) :
    Run.onItemsWrite k q f = f (ListHandler.create load) := by
  rw [Run.onItemsWrite, loaded.got]

theorem Loaded.writeDest (value : Bytes) : Store.writeDest k q value = (.put value, q.setOK) :=
  writeDest_writable loaded.writable value

/-- A container is written back, or its row is deleted, and the reply is OK. -/
theorem Loaded.store {α : Type} (C : Container α) (a : α) :
    (if C.count a > 0 then Store.writeDest k q (C.asString a) else (.delete, q.setOK)) = (C.stored a, q.setOK) := by
  rw [Container.stored, loaded.writeDest]
  split <;> rfl

end

theorem store_stored (k : Kernel) (q : QueryBase) (items : List Bytes) (okOnDelete : Bool) :
    (Run.store k q items okOnDelete).1 = ListHandler.container.stored items := by
  unfold Run.store
  rw [Container.stored]
  change _ = if ListHandler.count items > 0 then _ else _
  split <;> rfl

theorem store_setOK {k : Kernel} {q : QueryBase} (writable : (k.databases q.database).writable = true)
    (items : List Bytes) : (Run.store k q items true).2 = q.setOK := by
  unfold Run.store
  split
  · rw [writeDest_writable writable]
  · rfl

end

end BerylDB.Store
