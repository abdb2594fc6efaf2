import BerylDB.ContainerCommands

/-! # Lists and vectors as sequences

What the commands on lists and vectors are to do with a sequence, and when their queries do it. -/
namespace BerylDB.Store
open Text QueryBase Kernel Transition

/-- Operations on a sequence; `rop` is the one that returns what it takes from the back. -/
inductive SequenceOp (α : Type) where
  | push (item : α)
  | popFront
  | popBack
  | rop
  | del (item : α)
  | reverse
  | pos (number : ℕ)
  | count
deriving DecidableEq

namespace SequenceOp
variable {α : Type}

def reads : SequenceOp α → Bool
  | pos _ | count => true
  | _ => false

/-- The sequence that an operation leaves. -/
def after [BEq α] (items : List α) : SequenceOp α → List α
  | push item => items ++ [item]
  | popFront => items.tail
  | popBack | rop => items.dropLast
  | del item => items.erase item
  | reverse => items.reverse
  | pos _ | count => items

theorem after_subset [BEq α] {items : List α} {op : SequenceOp α} {item : α} (here : item ∈ op.after items) :
    item ∈ items ∨ op = .push item := by
  cases op with
  | push pushed =>
    rcases List.mem_append.mp here with here | here
    · exact .inl here
    · exact .inr (congrArg SequenceOp.push (List.mem_singleton.mp here).symm)
  | popFront => exact .inl (List.mem_of_mem_tail here)
  | popBack => exact .inl (List.dropLast_subset _ here)
  | rop => exact .inl (List.dropLast_subset _ here)
  | del gone => exact .inl (List.mem_of_mem_erase here)
  | reverse => exact .inl (List.mem_reverse.mp here)
  | pos number => exact .inl here
  | count => exact .inl here

/-- What the reply tells of a sequence. -/
def Answers (items : List Bytes) (reply : QueryBase) : SequenceOp Bytes → Prop
  | rop => ∀ item, items.getLast? = some item → reply.finished = true ∧ reply.response = item
  | pos number =>
    match items[number]? with
    | some item => reply.finished = true ∧ reply.response = item
    | none => reply.access = .notFound
  | count => reply.finished = true ∧ reply.counter = items.length
  | _ => True

end SequenceOp

/-- A query does to the sequence in its row what an operation does: an empty sequence has no row. -/
structure Refines (P : Platform) (k : Kernel) (r : Request) (type : Bytes) (items : List Bytes)
    (op : SequenceOp Bytes) : Prop where
  row : (k.execute P r).holds ListHandler.container r.database (r.row type) =
    if op.reads then some items else ListHandler.container.kept (op.after items)
  others : ∀ db row, ¬ (db = r.database ∧ row = r.row type) → (k.execute P r).get db row = k.get db row
  answer : op.Answers items (k.reply P r)

inductive SequenceCommand where
  | lpush (value : Bytes) | lpopFront | lpopBack | lrop | ldel (value : Bytes) | lreverse | lpos (value : Bytes) | lcount
  | vpush (value : Bytes) | vpopFront | vpopBack | vdel (value : Bytes) | vreverse | vpos (value : Bytes) | vcount
deriving DecidableEq

namespace SequenceCommand

def handle (db : Bytes) (select : ℕ) (key : Bytes) : SequenceCommand → Option Request
  | lpush value => commandLPush db select key value
  | lpopFront => commandLPopFront db select key
  | lpopBack => commandLPopBack db select key
  | lrop => commandLRop db select key
  | ldel value => commandLDel db select key value
  | lreverse => commandLReverse db select key
  | lpos value => commandLPos db select key value
  | lcount => commandLCount db select key
  | vpush value => commandVPush db select key value
  | vpopFront => commandVPopFront db select key
  | vpopBack => commandVPopBack db select key
  | vdel value => commandVDel db select key value
  | vreverse => commandVReverse db select key
  | vpos value => commandVPos db select key value
  | vcount => commandVCount db select key

def type : SequenceCommand → Bytes
  | lpush _ | lpopFront | lpopBack | lrop | ldel _ | lreverse | lpos _ | lcount => intList
  | vpush _ | vpopFront | vpopBack | vdel _ | vreverse | vpos _ | vcount => intVector

/-- What a command stands for. -/
def op : SequenceCommand → SequenceOp Bytes
  | lpush value | vpush value => .push (stripe value)
  | lpopFront | vpopFront => .popFront
  | lpopBack | vpopBack => .popBack
  | lrop => .rop
  | ldel value | vdel value => .del (stripe value)
  | lreverse | vreverse => .reverse
  | lpos value | vpos value => .pos (digitsValue value)
  | lcount | vcount => .count

/-- Accepted arguments: a value to push is not empty, and one to delete is there. -/
def Accepts (items : List Bytes) : SequenceCommand → Prop
  | lpush value | vpush value => checkFormat value = true ∧ stripe value ≠ []
  | ldel value | vdel value => checkFormat value = true ∧ stripe value ∈ items
  | lpos value | vpos value => checkValidPos value = true
  | _ => True

/-- When a command does what it stands for. -/
def Exact (key : Bytes) (items : List Bytes) : SequenceCommand → Prop
  | lrop | lreverse | vreverse => items ≠ []
  | lpos value | vpos value => items ≠ [] ∧ (digitsValue value < 2 ^ 32 ∨ items[digitsValue value]? = items[0]?)
  | vpopBack => checkFormat key = true
  | _ => True

/-- The query that a command makes. -/
def cls : SequenceCommand → QueryClass
  | lpush _ => .lpush
  | lpopFront => .lpopFront
  | lpopBack => .lpopBack
  | lrop => .lrop
  | ldel _ => .ldel
  | lreverse => .lreverse
  | lpos _ => .lpos
  | lcount => .lcount
  | vpush _ => .vpush
  | vpopFront => .vpopFront
  | vpopBack => .vpopBack
  | vdel _ => .vdel
  | vreverse => .vreverse
  | vpos _ => .vpos
  | vcount => .vcount

def value : SequenceCommand → Bytes
  | lpush value | vpush value | ldel value | vdel value => stripe value
  | lpos value | vpos value => value
  | _ => []

end SequenceCommand

section
variable {P : Platform} {k : Kernel} {r : Request} {db key load : Bytes} {select : ℕ} {items : List Bytes}
  {c : SequenceCommand} {q : QueryBase}

/-- Accepted arguments make a query; VPOPBACK asks its key for the format of a value. -/
theorem SequenceCommand.handle_valid (valid : keyValidator key = true) (accepts : c.Accepts items)
    (format : c = .vpopBack → checkFormat key = true) :
    c.handle db select key = some { cls := c.cls, database := db, key, select, value := c.value } := by
  cases c
  case lpush value | ldel value | vpush value | vdel value => exact simpleChecked_some.mpr ⟨accepts.1, valid, rfl⟩
  case lpos value | vpos value => exact (if_pos accepts).trans (simpleRetro_some.mpr ⟨valid, rfl⟩)
  case vpopBack => exact (if_pos (format rfl)).trans (retro_some.mpr ⟨valid, rfl⟩)
  all_goals exact retro_some.mpr ⟨valid, rfl⟩

/-! ## The rows -/

/-- A row with an item is written. -/
theorem put_stored (filled : items ≠ []) :
    Effect.put (ListHandler.asString items) = ListHandler.container.stored items :=
  (if_pos (List.length_pos_iff.mpr filled)).symm

/-- An item is pushed behind those of a registered row. -/
theorem push_stored (loaded : Loaded k r load q) (okUnwritten : Bool) (nonempty : r.value ≠ []) :
    (Run.push okUnwritten k q).1 = ListHandler.container.stored (ListHandler.create load ++ [r.value]) := by
  rw [← put_stored (by simp), Run.push, loaded.value, if_neg nonempty, loaded.got]
  simp only [ListHandler.add, if_neg nonempty, if_true, loaded.writeDest]

theorem exist_eq (items : List Bytes) (item : Bytes) : ListHandler.exist items item = decide (item ∈ items) := by
  rw [ListHandler.exist, List.contains_eq_mem]

/-- LRPOP returns the last item and keeps the others. -/
theorem lrop_ran (loaded : Loaded k r load q) {last : Bytes} (back : (ListHandler.create load).getLast? = some last) :
    Run.lrop k q = (ListHandler.container.stored (ListHandler.create load).dropLast, (q.respond last).setOK) := by
  have popped : ListHandler.rpop (ListHandler.create load) = ((ListHandler.create load).dropLast, last, .ok) := by
    rw [ListHandler.rpop, ListHandler.back, back]
  have writable : (k.databases (q.respond last).database).writable = true := loaded.writable
  have rest : Run.store k (q.respond last) (ListHandler.create load).dropLast true =
      (ListHandler.container.stored (ListHandler.create load).dropLast, (q.respond last).setOK) :=
    Prod.ext (store_stored ..) (store_setOK writable _)
  rw [Run.lrop, loaded.onItemsWrite, popped]
  exact rest

/-- `VectorHandler::Remove` of an item that is there. -/
theorem VectorHandler.remove_eq {item : Bytes} (nonempty : item ≠ []) (here : item ∈ items) :
    VectorHandler.remove items item = items.erase item := by
  rw [VectorHandler.remove, if_neg nonempty]
  split
  · rename_i single
    obtain ⟨only, rfl⟩ := List.length_eq_one_iff.mp single
    rw [List.mem_singleton.mp here, List.erase_cons_head]
  · rfl

/-- What the queries of writing commands do to the row. -/
theorem SequenceCommand.stored {run : Writer} (body : c.cls.body P = .writer run) (loaded : Loaded k r load q)
    (value : r.value = c.value) (accepts : c.Accepts (ListHandler.create load))
    (filled : c.op ∈ [.reverse, .rop] → ListHandler.create load ≠ []) :
    (run k q).1 = ListHandler.container.stored (c.op.after (ListHandler.create load)) := by
  cases c <;> cases body
  case lpush arg | vpush arg =>
    have nonempty : r.value ≠ [] := value ▸ accepts.2
    exact (push_stored loaded _ nonempty).trans (by rw [value]; rfl)
  case lpopFront | lpopBack =>
    simp only [Run.lpopFront, Run.lpopBack, loaded.onItemsWrite, store_stored]
    rfl
  case vpopFront | vpopBack =>
    simp only [Run.vpopFront, Run.vpopBack, loaded.items, store_stored]
    rfl
  case lrop =>
    have back := List.getLast?_eq_some_getLast (filled (by decide))
    exact congrArg Prod.fst (lrop_ran loaded back)
  case ldel arg =>
    have same : q.value = stripe arg := loaded.value.trans value
    rw [Run.ldel, loaded.onItemsWrite, exist_eq, same, decide_eq_true accepts.2, Bool.not_true, if_neg Bool.false_ne_true]
    exact store_stored ..
  case vdel arg =>
    have same : q.value = stripe arg := loaded.value.trans value
    have nonempty : stripe arg ≠ [] := ListHandler.create_ne_nil load _ accepts.2
    simp only [Run.vdel, loaded.items, exist_eq, same, decide_eq_true accepts.2, Bool.not_true, if_neg Bool.false_ne_true]
    exact (store_stored ..).trans (congrArg _ (VectorHandler.remove_eq nonempty accepts.2))
  case lreverse | vreverse =>
    have filled : (ListHandler.create load).reverse ≠ [] := List.reverse_ne_nil_iff.mpr (filled (by decide))
    simp only [Run.lreverse, Run.vreverse, loaded.onItemsWrite, loaded.writeDest]
    exact put_stored filled

/-- LREVERSE, VREVERSE and LRPOP leave the row of an empty sequence. -/
theorem SequenceCommand.stays {run : Writer} (body : c.cls.body P = .writer run) (loaded : Loaded k r load q)
    (empty : ListHandler.create load = []) (kept : c.op ∈ [.reverse, .rop]) : (run k q).1 ≠ .delete := by
  cases c <;> cases body
  case lreverse | vreverse =>
    simp only [Run.lreverse, Run.vreverse, loaded.onItemsWrite, loaded.writeDest]
    exact Effect.noConfusion
  case lrop =>
    rw [Run.lrop, loaded.onItemsWrite, empty]
    exact Effect.noConfusion
  all_goals simp [SequenceCommand.op] at kept

/-! ## The replies -/

/-- LPOS and VPOS answer for every position of 32 bits, and for the others when the first item stands there. -/
theorem pos_answers_iff (loaded : Loaded k r load q) (valid : checkValidPos r.value = true) :
    (SequenceOp.pos (digitsValue r.value)).Answers (ListHandler.create load) (Run.pos k q) ↔
      ListHandler.create load ≠ [] ∧ (digitsValue r.value < 2 ^ 32 ∨
        (ListHandler.create load)[digitsValue r.value]? = (ListHandler.create load)[0]?) := by
  rw [Run.pos, loaded.items, loaded.value, convtoUnsigned_pos valid, ListHandler.index]
  generalize ListHandler.create load = items
  generalize digitsValue r.value = number
  simp only [SequenceOp.Answers]
  cases items with
  | nil => simp [loaded.accepted]
  | cons first rest =>
    rw [if_neg (List.cons_ne_nil first rest)]
    by_cases small : number < 2 ^ 32
    · rw [if_pos small]
      refine iff_of_true ?_ ⟨List.cons_ne_nil first rest, .inl small⟩
      cases (first :: rest)[number]? with
      | none => rfl
      | some item => exact ⟨rfl, rfl⟩
    · rw [if_neg small, or_iff_right small, List.getElem?_cons_zero]
      cases (first :: rest)[number]? with
      | none => simp [loaded.accepted, QueryBase.setOK, QueryBase.respond]
      | some item => simp [QueryBase.setOK, QueryBase.respond, eq_comm]

theorem count_answers (loaded : Loaded k r load q) : SequenceOp.count.Answers (ListHandler.create load) (Run.lcount k q) := by
  rw [Run.lcount, loaded.onItems]
  exact ⟨rfl, rfl⟩

/-! ## The commands -/

theorem SequenceCommand.own : c.cls.baseRequest = some c.type := by cases c <;> rfl

theorem SequenceCommand.pushed_ne_nil {item : Bytes} (accepts : c.Accepts items) (pushed : c.op = .push item) :
    item ≠ [] := by
  cases c <;> cases pushed <;> exact accepts.2

/-- Only LRPOP returns something of what it writes. -/
theorem SequenceCommand.writer_answers {run : Writer} (body : c.cls.body P = .writer run) (loaded : Loaded k r load q) :
    c.op.Answers (ListHandler.create load) (run k q).2 := by
  cases c <;> cases body
  case lrop =>
    intro last back
    rw [lrop_ran loaded back]
    exact ⟨rfl, rfl⟩
  all_goals trivial

section
variable (writable : k.Writable) (opened : k.Opened r.database) (registered : r.registered k = some c.type)
  (held : k.get r.database (r.row c.type) = some load) (cls : r.cls = c.cls) (value : r.value = c.value)
  (accepts : c.Accepts (ListHandler.create load))
include writable opened registered held cls value accepts

/-- A writing command leaves what it stands for, unless it needs an item and has none. -/
theorem SequenceCommand.refines_writer {run : Writer} (body : r.cls.body P = .writer run) (writes : c.op.reads = false) :
    Refines P k r c.type (ListHandler.create load) c.op ↔ (c.op ∈ [.reverse, .rop] → ListHandler.create load ≠ []) := by
  obtain ⟨q, loaded, executed, replied⟩ := writer_ran writable opened registered held (cls ▸ SequenceCommand.own) body
  rw [cls] at body
  constructor
  · intro refined last empty
    have gone := refined.row
    have nothing : ListHandler.container.kept (c.op.after []) = none := by
      rcases List.mem_pair.mp last with op | op <;> rw [op] <;> rfl
    have still : k.holds ListHandler.container r.database (r.row c.type) = some (ListHandler.create load) :=
      congrArg (Option.map _) held
    rw [executed, writes, empty, if_neg Bool.false_ne_true, nothing] at gone
    exact holds_remains writable still (SequenceCommand.stays body loaded empty last) gone
  · intro filled
    have stored := SequenceCommand.stored body loaded value accepts filled
    refine ⟨?_, fun db row other => ?_, ?_⟩
    · rw [executed, stored, writes, if_neg Bool.false_ne_true]
      refine holds_stored writable fun item here => ?_
      rcases SequenceOp.after_subset here with here | pushed
      · exact ListHandler.create_ne_nil load item here
      · exact SequenceCommand.pushed_ne_nil accepts pushed
    · rw [executed, get_apply writable _ other]
    · rw [replied]
      exact SequenceCommand.writer_answers body loaded

omit value accepts in
/-- A reading command leaves the row, and its reply decides. -/
theorem SequenceCommand.refines_reader {run : Reader} (body : r.cls.body P = .reader run) (reads : c.op.reads = true)
    (kind : r.cls.queryType ∈ [.write, .read, .lat, .long, .readAllow, .iter]) : ∃ q, Loaded k r load q ∧
      (Refines P k r c.type (ListHandler.create load) c.op ↔ c.op.Answers (ListHandler.create load) (run k q)) := by
  obtain ⟨q, loaded, executed, replied⟩ :=
    reader_ran writable opened registered held (cls ▸ SequenceCommand.own) body kind
  have still : k.holds ListHandler.container r.database (r.row c.type) = some (ListHandler.create load) :=
    congrArg (Option.map _) held
  refine ⟨q, loaded, fun refined => replied ▸ refined.answer, fun answers => ⟨?_, fun db row _ => ?_, replied ▸ answers⟩⟩
  · rw [executed, reads, if_pos rfl, still]
  · rw [executed]

/-- The query of a command does what the command stands for if and only if the command is exact. -/
theorem SequenceCommand.refines_iff (format : c = .vpopBack → checkFormat r.key = true) :
    Refines P k r c.type (ListHandler.create load) c.op ↔ c.Exact r.key (ListHandler.create load) := by
  cases c
  case lpos arg | vpos arg =>
    obtain ⟨q, loaded, refined⟩ := refines_reader (P := P) writable opened registered held cls (by rw [cls]; rfl) rfl
      (by simp [cls, SequenceCommand.cls, QueryClass.queryType])
    have position : r.value = arg := value
    subst position
    exact refined.trans (pos_answers_iff loaded accepts)
  case lcount | vcount =>
    obtain ⟨q, loaded, refined⟩ := refines_reader (P := P) writable opened registered held cls (by rw [cls]; rfl) rfl
      (by simp [cls, SequenceCommand.cls, QueryClass.queryType])
    exact iff_of_true (refined.mpr (count_answers loaded)) trivial
  case lreverse | vreverse | lrop =>
    have refined := refines_writer (P := P) writable opened registered held cls value accepts (by rw [cls]; rfl) rfl
    exact refined.trans ⟨fun filled => filled (by decide), fun filled _ => filled⟩
  case vpopBack =>
    have refined := refines_writer (P := P) writable opened registered held cls value accepts (by rw [cls]; rfl) rfl
    exact iff_of_true (refined.mpr fun last => absurd last (by decide)) (format rfl)
  all_goals
    have refined := refines_writer (P := P) writable opened registered held cls value accepts (by rw [cls]; rfl) rfl
    exact iff_of_true (refined.mpr fun last => by simp [SequenceCommand.op] at last) trivial

end

/-- The commands refine the operations on sequences if and only if LREVERSE, VREVERSE and LRPOP have an item to work on,
LPOS and VPOS have one and a position of 32 bits, or the first item at the position that they are given, and the key of
VPOPBACK looks like a value. -/
theorem sequences_refined_iff (writable : k.Writable) (opened : k.Opened db) (valid : keyValidator key = true)
    (registered : QueryBase.registered k db key select = some c.type)
    (held : k.holds ListHandler.container db (keyRow key select c.type) = some items) (accepts : c.Accepts items) :
    (∃ r, c.handle db select key = some r ∧ Refines P k r c.type items c.op) ↔ c.Exact key items := by
  obtain ⟨load, got, rfl⟩ := ListHandler.holds_some held
  by_cases format : c = .vpopBack → checkFormat key = true
  · rw [SequenceCommand.handle_valid valid accepts format]
    simp only [Option.some.injEq, exists_eq_left']
    exact SequenceCommand.refines_iff writable opened registered got rfl rfl accepts format
  · obtain ⟨rfl, refused⟩ := Classical.not_imp.mp format
    refine iff_of_false ?_ refused
    rintro ⟨r, handled, -⟩
    rw [SequenceCommand.handle, commandVPopBack, if_neg refused] at handled
    exact nomatch handled

end

/-- A list with the item `a`. -/
theorem list_a : ∃ s, (Server.machine Server.integers).Reachable s ∧ s.kernel.Writable ∧ s.kernel.Opened (lit "db") ∧
    QueryBase.registered s.kernel (lit "db") (lit "l") 1 = some intList ∧
    s.kernel.holds ListHandler.container (lit "db") (keyRow (lit "l") 1 intList) = some [lit "a"] := by
  have h : ((Server.machine Server.integers).exec (fun _ _ => True) Server.fresh
      [.request (inDb .lpush (lit "l") (lit "a"))]).any fun s =>
        (s.kernel.databases (lit "db")).closing = false ∧
        QueryBase.registered s.kernel (lit "db") (lit "l") 1 = some intList ∧
        (s.kernel.get (lit "db") (keyRow (lit "l") 1 intList)).map ListHandler.create = some [lit "a"] := by decide
  obtain ⟨s, reached, opened, registered, held⟩ := Machine.exec_holds h (.initial Server.fresh_initial)
  exact ⟨s, reached, (reachable_inOrder reached).1, opened, registered, held⟩

theorem sequences_refined_push : ∃ s, (Server.machine Server.integers).Reachable s ∧
    ∃ r, commandLPush (lit "db") 1 (lit "l") (lit "\"b\"") = some r ∧
      Refines Server.integers s.kernel r intList [lit "a"] (.push (lit "b")) := by
  obtain ⟨s, reached, writable, opened, registered, held⟩ := list_a
  exact ⟨s, reached, (sequences_refined_iff (c := .lpush (lit "\"b\"")) writable opened (by decide) registered held
    ⟨by decide, by decide⟩).mpr trivial⟩

/-- A position of 33 bits is read as 0, and the first item is returned. -/
theorem lpos_unrefined : ∃ s, (Server.machine Server.integers).Reachable s ∧
    s.kernel.holds ListHandler.container (lit "db") (keyRow (lit "l") 1 intList) = some [lit "a"] ∧
    ¬ ∃ r, commandLPos (lit "db") 1 (lit "l") (lit "4294967296") = some r ∧
      Refines Server.integers s.kernel r intList [lit "a"] (.pos 4294967296) := by
  have h : ((Server.machine Server.integers).exec (fun _ _ => True) Server.fresh
      [.request (inDb .lpush (lit "l") (lit "a"))]).any fun s =>
        (s.kernel.get (lit "db") (keyRow (lit "l") 1 intList)).map ListHandler.create = some [lit "a"] ∧
        (commandLPos (lit "db") 1 (lit "l") (lit "4294967296")).all fun r =>
          (s.kernel.reply Server.integers r).response = lit "a" ∧
            (s.kernel.reply Server.integers r).access = .statusOk := by decide
  obtain ⟨s, reached, held, replied⟩ := Machine.exec_holds h (.initial Server.fresh_initial)
  refine ⟨s, reached, held, ?_⟩
  rintro ⟨r, handled, refined⟩
  rw [handled, Option.all_some] at replied
  have missing : (s.kernel.reply Server.integers r).access = .notFound := refined.answer
  exact absurd (missing.symm.trans (of_decide_eq_true replied).2) (by decide)

end BerylDB.Store
