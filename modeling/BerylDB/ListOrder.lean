import BerylDB.SequenceCommands

/-! # The order of a list

LFPOP makes the query of LRPOP, and LSORT calls `Reverse`. -/
namespace BerylDB.Store
open Text QueryBase Kernel Transition

/-! ## LFPOP -/

section
variable {α : Type} {x : α} {xs : List α}

/-- A list that begins as it goes on holds one item only. -/
theorem eq_of_rotated (same : x :: xs = xs ++ [x]) : ∀ y ∈ xs, y = x := by
  induction xs with
  | nil => simp
  | cons y ys ih =>
    rw [List.cons_append, List.cons_eq_cons] at same
    obtain ⟨rfl, rest⟩ := same
    intro z here
    rcases List.mem_cons.mp here with rfl | here
    · rfl
    · exact ih rest z here

theorem dropLast_eq_tail_iff : (x :: xs).dropLast = xs ∧ (x :: xs).getLast? = some x ↔ ∀ y ∈ xs, y = x := by
  constructor
  · rintro ⟨rest, last⟩
    refine eq_of_rotated ?_
    have split := List.dropLast_append_getLast? x last
    rw [rest] at split
    exact split.symm
  · intro same
    rw [List.eq_replicate_of_mem same, ← List.replicate_succ]
    simp [List.getLast?_replicate]

end

section
variable {P : Platform} {k : Kernel} {r : Request} {db key load arg x : Bytes} {select : ℕ} {items xs : List Bytes}

/-- What the query of LRPOP and LFPOP does. -/
theorem lrop_popped (writable : k.Writable) (opened : k.Opened r.database) (registered : r.registered k = some intList)
    (held : k.holds ListHandler.container r.database (r.row intList) = some items) (cls : r.cls = .lrop) {last : Bytes}
    (back : items.getLast? = some last) : (k.reply P r).finished = true ∧ (k.reply P r).response = last ∧
      k.execute P r = k.apply r.database (r.row intList) (ListHandler.container.stored items.dropLast) := by
  obtain ⟨load, got, rfl⟩ := ListHandler.holds_some held
  have body : r.cls.body P = .writer Run.lrop := by rw [cls]; rfl
  obtain ⟨q, loaded, executed, replied⟩ := writer_ran writable opened registered got (by rw [cls]; rfl) body
  rw [executed, replied, lrop_ran loaded back]
  exact ⟨rfl, rfl, rfl⟩

/-- LFPOP returns the first item and keeps the others. -/
structure PopsFirst (P : Platform) (k : Kernel) (r : Request) (first : Bytes) (rest : List Bytes) : Prop where
  finished : (k.reply P r).finished = true
  response : (k.reply P r).response = first
  row : (k.execute P r).holds ListHandler.container r.database (r.row intList) = ListHandler.container.kept rest

theorem popsFirst_iff (writable : k.Writable) (opened : k.Opened r.database) (registered : r.registered k = some intList)
    (held : k.holds ListHandler.container r.database (r.row intList) = some (x :: xs)) (cls : r.cls = .lrop) :
    PopsFirst P k r x xs ↔ ∀ y ∈ xs, y = x := by
  have valid : ∀ item ∈ (x :: xs).dropLast, item ≠ [] := fun item here =>
    valid_of_holds held item (List.dropLast_subset _ here)
  have back : (x :: xs).getLast? = some ((x :: xs).getLast (List.cons_ne_nil x xs)) := List.getLast?_eq_some_getLast _
  obtain ⟨finished, response, executed⟩ := lrop_popped (P := P) writable opened registered held cls back
  have row : (k.execute P r).holds ListHandler.container r.database (r.row intList) =
      ListHandler.container.kept (x :: xs).dropLast := by rw [executed, holds_stored writable valid]
  rw [← dropLast_eq_tail_iff, back, Option.some.injEq]
  constructor
  · intro pops
    exact ⟨ListHandler.container.kept_injective (row.symm.trans pops.row), response.symm.trans pops.response⟩
  · rintro ⟨rest, last⟩
    exact ⟨finished, response.trans last, row.trans (congrArg _ rest)⟩

/-! ## Histories -/

/-- A key that holds nothing but a list; an empty list is absent. -/
structure Queue (k : Kernel) (db : Bytes) (select : ℕ) (key : Bytes) (items : List Bytes) : Prop where
  writable : k.Writable
  opened : k.Opened db
  only : k.OnlyType db key select intList
  row : k.holds ListHandler.container db (keyRow key select intList) = ListHandler.container.kept items

namespace Queue

theorem absent (queue : Queue k db select key []) : QueryBase.registered k db key select = none :=
  (registered_none_iff (by decide : intList ∈ typeRegs)).mpr ⟨Option.map_eq_none_iff.mp queue.row, queue.only⟩

theorem registered (queue : Queue k db select key (x :: xs)) : QueryBase.registered k db key select = some intList := by
  obtain ⟨load, got, -⟩ := ListHandler.holds_some queue.row
  refine registered_iff.mpr ⟨by decide, Option.isSome_iff_exists.mpr ⟨load, got⟩, fun t before => ?_⟩
  obtain ⟨known, other⟩ := ne_of_mem_takeWhile before
  exact queue.only t known other

theorem of_absent (writable : k.Writable) (opened : k.Opened db) (absent : QueryBase.registered k db key select = none) :
    Queue k db select key [] := by
  obtain ⟨none, only⟩ := (registered_none_iff (by decide : intList ∈ typeRegs)).mp absent
  exact ⟨writable, opened, only, Option.map_eq_none_iff.mpr none⟩

/-- The row is rewritten, and no other one. -/
theorem stored (queue : Queue k db select key items) (valid : ∀ item ∈ xs, item ≠ []) :
    Queue (k.apply db (keyRow key select intList) (ListHandler.container.stored xs)) db select key xs where
  writable := writable_apply queue.writable _
  opened := opened_apply queue.writable _ queue.opened
  only t known other := by
    rw [get_apply queue.writable _ fun same => other (keyRow_inj.mp same.2).2.2]
    exact queue.only t known other
  row := holds_stored queue.writable valid

end Queue

inductive QueueCommand where
  | push (value : Bytes)
  | pop
deriving DecidableEq

namespace QueueCommand

def handle (db : Bytes) (select : ℕ) (key : Bytes) : QueueCommand → Option Request
  | push value => commandLPush db select key value
  | pop => commandFRop db select key

/-- The item that a command pushes. -/
def pushed : QueueCommand → Option Bytes
  | push value => if checkFormat value = true ∧ stripe value ≠ [] then some (stripe value) else none
  | pop => none

end QueueCommand

section
variable (P : Platform) (db : Bytes) (select : ℕ) (key : Bytes)

def Kernel.serve (k : Kernel) (c : QueueCommand) : Kernel :=
  ((c.handle db select key).map (k.execute P)).getD k

/-- The item that a command returns. -/
def QueueCommand.returned (k : Kernel) : QueueCommand → Option Bytes
  | .push _ => none
  | .pop => (commandFRop db select key).bind fun r =>
    if (k.reply P r).finished then some (k.reply P r).response else none

/-- The items that a history returns. -/
def answers : Kernel → List QueueCommand → List Bytes
  | _, [] => []
  | k, c :: cs => (c.returned P db select key k).toList ++ answers (k.serve P db select key c) cs

/-- In a history each LFPOP finds one item only, as often as it is there. -/
def OneItem : Kernel → List QueueCommand → Prop
  | _, [] => True
  | k, c :: cs => (c = .pop → ∀ x xs, k.holds ListHandler.container db (keyRow key select intList) = some (x :: xs) →
      ∀ y ∈ xs, y = x) ∧ OneItem (k.serve P db select key c) cs

end

namespace Queue

theorem valid (queue : Queue k db select key items) : ∀ item ∈ items, item ≠ [] := by
  cases items with
  | nil => simp
  | cons item items => exact valid_of_holds queue.row

/-- The query of LPUSH writes the list with one more item, whether there was one or not. -/
theorem lpush (queue : Queue k r.database r.select r.key items) (cls : r.cls = .lpush) : k.execute P r =
    if r.value = [] then k
    else k.apply r.database (r.row intList) (ListHandler.container.stored (items ++ [r.value])) := by
  have body : r.cls.body P = .writer Run.lpush := by rw [cls]; rfl
  cases items with
  | nil =>
    have prepared : prepare P r.cls k r.query = run P r.cls k (r.fresh intList) :=
      prepare_fresh queue.opened queue.absent (by rw [cls]; rfl) (by rw [cls]; rfl)
    have missing : (r.fresh intList).get k (r.fresh intList).dest = none := Option.map_eq_none_iff.mp queue.row
    rw [Kernel.execute, prepared, QueryBase.run, body]
    change k.apply r.database (r.row intList) (Run.push true k (r.fresh intList)).1 = _
    rw [Run.push, missing, Request.fresh_value]
    by_cases empty : r.value = []
    · rw [if_pos empty, if_pos empty]
      rfl
    · rw [if_neg empty, if_neg empty, List.nil_append, ← put_stored (List.cons_ne_nil _ _)]
      simp only [ListHandler.add, if_neg empty]
      rfl
  | cons x xs =>
    obtain ⟨load, got, same⟩ := ListHandler.holds_some queue.row
    obtain ⟨q, loaded, executed, -⟩ := writer_ran queue.writable queue.opened queue.registered got (by rw [cls]; rfl) body
    rw [executed]
    split_ifs with empty
    · rw [Run.lpush, Run.push, loaded.value, if_pos empty]
      rfl
    · rw [Run.lpush, push_stored loaded true empty, same]

/-- A push appends the item that it names, if it names one. -/
theorem push (queue : Queue k db select key items) (value : Bytes) (valid : keyValidator key = true) :
    Queue (k.serve P db select key (.push value)) db select key (items ++ (QueueCommand.push value).pushed.toList) := by
  by_cases format : checkFormat value = true
  · have handled : commandLPush db select key value = _ := simpleChecked_some.mpr ⟨format, valid, rfl⟩
    rw [Kernel.serve, QueueCommand.handle, handled, QueueCommand.pushed, Option.map_some, Option.getD_some, lpush queue rfl]
    by_cases empty : stripe value = []
    · rw [if_pos empty, if_neg fun h => h.2 empty, Option.toList_none, List.append_nil]
      exact queue
    · rw [if_neg empty, if_pos ⟨format, empty⟩, Option.toList_some]
      refine queue.stored fun item here => ?_
      rcases List.mem_append.mp here with here | here
      · exact queue.valid item here
      · exact List.mem_singleton.mp here ▸ empty
  · have refused : commandLPush db select key value = none := if_neg format
    rw [Kernel.serve, QueueCommand.handle, refused, QueueCommand.pushed, if_neg fun h => format h.1, Option.toList_none,
      List.append_nil]
    exact queue

/-- A pop returns the first item of a list that has one item only. -/
theorem pop (queue : Queue k db select key (x :: xs)) (valid : keyValidator key = true) (same : ∀ y ∈ xs, y = x) :
    QueueCommand.pop.returned P db select key k = some x ∧ Queue (k.serve P db select key .pop) db select key xs := by
  obtain ⟨rest, last⟩ := dropLast_eq_tail_iff.mpr same
  have handled : commandFRop db select key = _ := retro_some.mpr ⟨valid, rfl⟩
  obtain ⟨finished, response, executed⟩ := lrop_popped (P := P) (r := { cls := .lrop, database := db, key, select })
    queue.writable queue.opened queue.registered queue.row rfl last
  rw [Kernel.serve, QueueCommand.returned, QueueCommand.handle, handled, Option.bind_some, Option.map_some,
    Option.getD_some, finished, response, executed, rest]
  exact ⟨rfl, queue.stored fun item here => queue.valid item (List.mem_cons_of_mem x here)⟩

/-- There is nothing to return of an absent list. -/
theorem pop_nil (queue : Queue k db select key []) (valid : keyValidator key = true) :
    QueueCommand.pop.returned P db select key k = none ∧ Queue (k.serve P db select key .pop) db select key [] := by
  have handled : commandFRop db select key = some { cls := .lrop, database := db, key, select } :=
    retro_some.mpr ⟨valid, rfl⟩
  obtain ⟨same, -, unfinished⟩ := prepare_missing (P := P) (c := .lrop) (r := { cls := .lrop, database := db, key, select })
    queue.opened queue.absent (by decide)
  have still : k.execute P { cls := .lrop, database := db, key, select } = k := same
  rw [Kernel.serve, QueueCommand.returned, QueueCommand.handle, handled, Option.bind_some, Option.map_some,
    Option.getD_some, Kernel.reply, unfinished, still]
  exact ⟨rfl, queue⟩

/-- The items that a history returns are the first ones of the list, and of what is pushed behind it. -/
theorem answers_pushed (queue : Queue k db select key items) (valid : keyValidator key = true) (cs : List QueueCommand)
    (one : OneItem P db select key k cs) :
    answers P db select key k cs <+: items ++ cs.filterMap QueueCommand.pushed := by
  induction cs generalizing k items with
  | nil => exact List.nil_prefix
  | cons c cs ih =>
    obtain ⟨now, later⟩ := one
    cases c with
    | push value =>
      have behind : items ++ (QueueCommand.push value :: cs).filterMap QueueCommand.pushed =
          items ++ (QueueCommand.push value).pushed.toList ++ cs.filterMap QueueCommand.pushed := by
        rw [List.filterMap_cons, List.append_assoc]
        cases (QueueCommand.push value).pushed <;> rfl
      rw [behind]
      exact ih (queue.push value valid) later
    | pop =>
      cases items with
      | nil =>
        obtain ⟨none, next⟩ := queue.pop_nil (P := P) valid
        rw [answers, none]
        exact ih next later
      | cons x xs =>
        obtain ⟨first, next⟩ := queue.pop (P := P) valid (now rfl x xs queue.row)
        rw [answers, first]
        exact List.cons_prefix_cons.mpr ⟨rfl, ih next later⟩

end Queue

end

/-- LFPOP pops the first item if and only if the list has one item only, as often as it is there; histories in which
each LFPOP finds such a list, or none, return the items in the order in which they were pushed. -/
theorem lfpop_in_order (P : Platform) :
    (∀ {k : Kernel} {r : Request} {db key x : Bytes} {select : ℕ} {xs : List Bytes}, k.Writable → k.Opened r.database →
      r.registered k = some intList → k.holds ListHandler.container r.database (r.row intList) = some (x :: xs) →
      commandFRop db select key = some r → (PopsFirst P k r x xs ↔ ∀ y ∈ xs, y = x)) ∧
    ∀ {k : Kernel} {db key : Bytes} {select : ℕ} (cs : List QueueCommand), k.Writable → k.Opened db →
      QueryBase.registered k db key select = none → keyValidator key = true → OneItem P db select key k cs →
      answers P db select key k cs <+: cs.filterMap QueueCommand.pushed := by
  constructor
  · intro k r db key x select xs writable opened registered held handled
    obtain ⟨-, rfl⟩ := retro_some.mp handled
    exact popsFirst_iff writable opened registered held rfl
  · intro k db key select cs writable opened absent valid one
    exact (Queue.of_absent writable opened absent).answers_pushed valid cs one

theorem lfpop_in_order_singles : (∃ s, (Server.machine Server.integers).Reachable s ∧
      PopsFirst Server.integers s.kernel (inDb .lrop (lit "l") []) (lit "a") []) ∧
    answers Server.integers (lit "db") 1 (lit "l") Server.fresh.kernel [.push (lit "\"a\""), .pop, .push (lit "\"b\""), .pop] <+:
      [lit "a", lit "b"] := by
  constructor
  · obtain ⟨s, reached, writable, opened, registered, held⟩ := list_a
    have handled : commandFRop (lit "db") 1 (lit "l") = some (inDb .lrop (lit "l") []) := by decide
    have pops := (lfpop_in_order Server.integers).1 (r := inDb .lrop (lit "l") []) writable opened registered held handled
    exact ⟨s, reached, pops.mpr (by simp)⟩
  · have one (k : Kernel) (item : Bytes)
        (held : k.holds ListHandler.container (lit "db") (keyRow (lit "l") 1 intList) = some [item]) (x : Bytes)
        (xs : List Bytes)
        (head : k.holds ListHandler.container (lit "db") (keyRow (lit "l") 1 intList) = some (x :: xs)) :
        ∀ y ∈ xs, y = x := by
      obtain ⟨-, rfl⟩ := List.cons_eq_cons.mp (Option.some.inj (held.symm.trans head))
      simp
    refine (lfpop_in_order Server.integers).2 [.push (lit "\"a\""), .pop, .push (lit "\"b\""), .pop] (fun _ => rfl) rfl
      (by decide) (by decide) ⟨(nomatch ·), fun _ => one _ (lit "a") (by decide), (nomatch ·),
        fun _ => one _ (lit "b") (by decide), trivial⟩

/-- With two items in the list, the one that was pushed last comes back. -/
theorem lfpop_pops_last : (∃ s, (Server.machine Server.integers).Reachable s ∧
      s.kernel.holds ListHandler.container (lit "db") (keyRow (lit "l") 1 intList) = some [lit "a", lit "b"] ∧
      commandFRop (lit "db") 1 (lit "l") = some (inDb .lrop (lit "l") []) ∧
      ¬ PopsFirst Server.integers s.kernel (inDb .lrop (lit "l") []) (lit "a") [lit "b"]) ∧
    ¬ answers Server.integers (lit "db") 1 (lit "l") Server.fresh.kernel [.push (lit "\"a\""), .push (lit "\"b\""), .pop] <+:
      [lit "a", lit "b"] := by
  constructor
  · have h : ((Server.machine Server.integers).exec (fun _ _ => True) Server.fresh
        [.request (inDb .lpush (lit "l") (lit "a")), .request (inDb .lpush (lit "l") (lit "b"))]).any fun s =>
          (s.kernel.get (lit "db") (keyRow (lit "l") 1 intList)).map ListHandler.create = some [lit "a", lit "b"] ∧
          (s.kernel.reply Server.integers (inDb .lrop (lit "l") [])).response = lit "b" := by decide
    obtain ⟨s, reached, held, replied⟩ := Machine.exec_holds h (.initial Server.fresh_initial)
    refine ⟨s, reached, held, by decide, fun pops => ?_⟩
    exact absurd (replied.symm.trans pops.response) (by decide)
  · decide

/-! ## LSORT and VSORT -/

/-- LSORT leaves the items in their order, and VSORT leaves the same. -/
def SortsInOrder (P : Platform) (k k' : Kernel) (r r' : Request) (items : List Bytes) : Prop :=
  ∃ sorted, sorted.Perm items ∧ sorted.Pairwise (fun a b => bytesLe a b = true) ∧
    (k.execute P r).holds ListHandler.container r.database (r.row intList) = some sorted ∧
    (k'.execute P r').holds ListHandler.container r'.database (r'.row intVector) = some sorted

/-- The two commands sort alike, and another LSORT changes nothing. -/
structure SortsAlike (P : Platform) (k k' : Kernel) (r r' : Request) (items : List Bytes) : Prop where
  sorted : SortsInOrder P k k' r r' items
  again : ((k.execute P r).execute P r).holds ListHandler.container r.database (r.row intList) =
    (k.execute P r).holds ListHandler.container r.database (r.row intList)

section
variable {items : List Bytes} {a b : Bytes}

theorem bytesLe_antisymm (h : bytesLe a b = true) (h' : bytesLe b a = true) : a = b := by
  rw [MultiMapHandler.bytesLe_eq] at h h'
  exact Std.compare_eq_iff_eq.mp (Std.OrientedCmp.isLE_antisymm h h')

theorem sort_perm : (ListHandler.sort items).Perm items := List.mergeSort_perm items bytesLe

theorem sort_sorted : (ListHandler.sort items).Pairwise fun a b => bytesLe a b = true := by
  apply List.pairwise_mergeSort
  · exact fun a b c => MultiMapHandler.bytesLe_trans
  · intro a b
    cases h : bytesLe a b with
    | true => rfl
    | false => exact MultiMapHandler.bytesLe_total (Bool.eq_false_iff.mp h)

/-- There is one order of the items. -/
theorem sort_unique {sorted : List Bytes} (perm : sorted.Perm items) (order : sorted.Pairwise fun a b => bytesLe a b = true) :
    ListHandler.sort items = sorted :=
  (sort_perm.trans perm.symm).eq_of_pairwise (fun _ _ _ _ => bytesLe_antisymm) sort_sorted order

/-- A list that is in its order backwards and forwards has one item only, as often as it is there. -/
theorem one_item_iff : items.Pairwise (fun a b => bytesLe b a = true) ∧ items.reverse = items ↔
    ∀ a ∈ items, ∀ b ∈ items, a = b := by
  constructor
  · rintro ⟨falling, same⟩ a ha b hb
    have rising : items.Pairwise fun a b => bytesLe a b = true := same ▸ List.pairwise_reverse.mpr falling
    have refl : ∀ x ∈ items, bytesLe x x = true := fun x _ => by simp [MultiMapHandler.bytesLe_eq]
    have le := List.Pairwise.forall_of_forall_of_flip refl rising falling
    exact bytesLe_antisymm (le ha hb) (le hb ha)
  · intro same
    cases items with
    | nil => simp
    | cons x xs =>
      rw [List.eq_replicate_of_mem fun y here => same y here x List.mem_cons_self]
      refine ⟨List.pairwise_replicate.mpr (.inr (by simp [MultiMapHandler.bytesLe_eq])), List.reverse_replicate⟩

end

section
variable {P : Platform} {k k' : Kernel} {r r' : Request} {db key db' key' : Bytes} {select select' : ℕ}
  {items : List Bytes}

theorem lsort_reverses (writable : k.Writable) (opened : k.Opened r.database) (registered : r.registered k = some intList)
    (held : k.holds ListHandler.container r.database (r.row intList) = some items) (cls : r.cls = .lsort) :
    k.execute P r = k.apply r.database (r.row intList) (.put (ListHandler.asString items.reverse)) := by
  obtain ⟨load, got, rfl⟩ := ListHandler.holds_some held
  have body : r.cls.body P = .writer Run.lsort := by rw [cls]; rfl
  obtain ⟨q, loaded, executed, -⟩ := writer_ran writable opened registered got (by rw [cls]; rfl) body
  rw [executed, Run.lsort, loaded.onItemsWrite, loaded.writeDest]

theorem vsort_sorts (writable : k.Writable) (opened : k.Opened r.database) (registered : r.registered k = some intVector)
    (held : k.holds ListHandler.container r.database (r.row intVector) = some items) (cls : r.cls = .vsort) :
    (k.execute P r).holds ListHandler.container r.database (r.row intVector) = some (ListHandler.sort items) := by
  obtain ⟨load, got, rfl⟩ := ListHandler.holds_some held
  have body : r.cls.body P = .writer Run.vsort := by rw [cls]; rfl
  obtain ⟨q, loaded, executed, -⟩ := writer_ran writable opened registered got (by rw [cls]; rfl) body
  have valid : ∀ item ∈ ListHandler.sort (ListHandler.create load), item ≠ [] := fun item here =>
    ListHandler.create_ne_nil load item (sort_perm.mem_iff.mp here)
  rw [executed, Run.vsort, loaded.onItemsWrite, loaded.writeDest]
  exact holds_written writable valid

/-- After LSORT the list is there in the other order, and another LSORT turns it back. -/
theorem lsort_rows (writable : k.Writable) (opened : k.Opened r.database) (registered : r.registered k = some intList)
    (held : k.holds ListHandler.container r.database (r.row intList) = some items) (cls : r.cls = .lsort) :
    (k.execute P r).holds ListHandler.container r.database (r.row intList) = some items.reverse ∧
      ((k.execute P r).execute P r).holds ListHandler.container r.database (r.row intList) = some items := by
  have valid := valid_of_holds held
  have valid' : ListHandler.container.Valid items.reverse := fun item here => valid item (List.mem_reverse.mp here)
  have once := lsort_reverses (P := P) writable opened registered held cls
  have row : (k.execute P r).holds ListHandler.container r.database (r.row intList) = some items.reverse := by
    rw [once]
    exact holds_written writable valid'
  refine ⟨row, ?_⟩
  have writable' : (k.execute P r).Writable := once ▸ writable_apply writable _
  have opened' : (k.execute P r).Opened r.database := once ▸ opened_apply writable _ opened
  have registered' : r.registered (k.execute P r) = some intList := by
    rw [once]
    exact registered_put writable (by decide) (.inr registered) _
  rw [lsort_reverses writable' opened' registered' row cls, List.reverse_reverse]
  exact holds_written writable' valid

/-- LSORT sorts as VSORT does if and only if no item of the list is less than the next one; another LSORT leaves that
order if and only if all items are equal. -/
theorem sorted_alike_iff (writable : k.Writable) (opened : k.Opened r.database)
    (registered : r.registered k = some intList)
    (held : k.holds ListHandler.container r.database (r.row intList) = some items)
    (handled : commandLSort db select key = some r) (writable' : k'.Writable) (opened' : k'.Opened r'.database)
    (registered' : r'.registered k' = some intVector)
    (held' : k'.holds ListHandler.container r'.database (r'.row intVector) = some items)
    (handled' : commandVSort db' select' key' = some r') :
    (SortsInOrder P k k' r r' items ↔ items.Pairwise fun a b => bytesLe b a = true) ∧
      (SortsAlike P k k' r r' items ↔ ∀ a ∈ items, ∀ b ∈ items, a = b) := by
  obtain ⟨-, rfl⟩ := retro_some.mp handled
  obtain ⟨-, rfl⟩ := retro_some.mp handled'
  obtain ⟨row, again⟩ := lsort_rows (P := P) writable opened registered held rfl
  have vector := vsort_sorts (P := P) writable' opened' registered' held' rfl
  have inOrder : SortsInOrder P k k' { cls := .lsort, database := db, key, select }
      { cls := .vsort, database := db', key := key', select := select' } items ↔
        items.Pairwise fun a b => bytesLe b a = true := by
    constructor
    · rintro ⟨sorted, -, order, list, -⟩
      obtain rfl := Option.some.inj (list.symm.trans row)
      exact List.pairwise_reverse.mp order
    · intro falling
      have order := List.pairwise_reverse.mpr falling
      refine ⟨items.reverse, List.reverse_perm items, order, row, ?_⟩
      rw [vector, sort_unique (List.reverse_perm items) order]
  refine ⟨inOrder, ?_⟩
  rw [← one_item_iff]
  constructor
  · intro alike
    exact ⟨inOrder.mp alike.sorted, Option.some.inj (row.symm.trans (alike.again.symm.trans again))⟩
  · rintro ⟨falling, same⟩
    exact ⟨inOrder.mpr falling, by rw [again, row, same]⟩

end

theorem sorted_alike_single : ∃ s t, (Server.machine Server.integers).Reachable s ∧
    (Server.machine Server.integers).Reachable t ∧
    SortsAlike Server.integers s.kernel t.kernel (inDb .lsort (lit "l") []) (inDb .vsort (lit "v") []) [lit "a"] := by
  have h : ((Server.machine Server.integers).exec (fun _ _ => True) Server.fresh
      [.request (inDb .vpush (lit "v") (lit "a"))]).any fun s =>
        (s.kernel.databases (lit "db")).closing = false ∧
        QueryBase.registered s.kernel (lit "db") (lit "v") 1 = some intVector ∧
        (s.kernel.get (lit "db") (keyRow (lit "v") 1 intVector)).map ListHandler.create = some [lit "a"] := by decide
  obtain ⟨t, reached', opened', registered', held'⟩ := Machine.exec_holds h (.initial Server.fresh_initial)
  obtain ⟨s, reached, writable, opened, registered, held⟩ := list_a
  have handled : commandLSort (lit "db") 1 (lit "l") = some (inDb .lsort (lit "l") []) := by decide
  have handled' : commandVSort (lit "db") 1 (lit "v") = some (inDb .vsort (lit "v") []) := by decide
  have registered : (inDb .lsort (lit "l") []).registered s.kernel = some intList := registered
  have opened' : t.kernel.Opened (inDb .vsort (lit "v") []).database := opened'
  have registered' : (inDb .vsort (lit "v") []).registered t.kernel = some intVector := registered'
  have alike := (sorted_alike_iff (P := Server.integers) writable opened registered held handled
    (reachable_inOrder reached').1 opened' registered' held' handled').2
  exact ⟨s, t, reached, reached', alike.mpr (by simp)⟩

/-- Two items in their order are turned round, and turned back. -/
theorem lsort_unsorted : ∃ s, (Server.machine Server.integers).Reachable s ∧
    s.kernel.holds ListHandler.container (lit "db") (keyRow (lit "l") 1 intList) = some [lit "a", lit "b"] ∧
    commandLSort (lit "db") 1 (lit "l") = some (inDb .lsort (lit "l") []) ∧
    (∀ (k : Kernel) (r : Request),
      ¬ SortsInOrder Server.integers s.kernel k (inDb .lsort (lit "l") []) r [lit "a", lit "b"]) ∧
    (((s.kernel.execute Server.integers (inDb .lsort (lit "l") [])).execute Server.integers
      (inDb .lsort (lit "l") [])).holds ListHandler.container (lit "db") (keyRow (lit "l") 1 intList) =
        some [lit "a", lit "b"]) := by
  have h : ((Server.machine Server.integers).exec (fun _ _ => True) Server.fresh
      [.request (inDb .lpush (lit "l") (lit "a")), .request (inDb .lpush (lit "l") (lit "b"))]).any fun s =>
        (s.kernel.get (lit "db") (keyRow (lit "l") 1 intList)).map ListHandler.create = some [lit "a", lit "b"] ∧
        ((s.kernel.execute Server.integers (inDb .lsort (lit "l") [])).get (lit "db") (keyRow (lit "l") 1 intList)).map
          ListHandler.create = some [lit "b", lit "a"] ∧
        (((s.kernel.execute Server.integers (inDb .lsort (lit "l") [])).execute Server.integers
          (inDb .lsort (lit "l") [])).get (lit "db") (keyRow (lit "l") 1 intList)).map ListHandler.create =
            some [lit "a", lit "b"] := by decide
  obtain ⟨s, reached, held, turned, back⟩ := Machine.exec_holds h (.initial Server.fresh_initial)
  refine ⟨s, reached, held, by decide, fun k r inOrder => ?_, back⟩
  obtain ⟨sorted, -, order, list, -⟩ := inOrder
  obtain rfl := Option.some.inj (list.symm.trans turned)
  exact absurd order (by decide)

end BerylDB.Store
