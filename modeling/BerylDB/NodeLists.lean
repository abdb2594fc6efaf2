import BerylDB.LinkedNodes
import Mathlib.Data.List.Dedup

/-! # Intrusive lists

`node_list` and `node_list_tail` of `ilist.h` and `ilist_impl.h`: the links of a list are members of its nodes, so that the
lists of one tag share all links.  What a null pointer would be read through has no result. -/
namespace BerylDB.NodeLists
open LinkedNodes

structure NodeList (α : Type) where
  listhead : Option α := none
  listtail : Option α := none
  listsize : ℕ := 0
deriving DecidableEq

section
variable {α : Type} [DecidableEq α]

/-- `node_list_node::unlink`. -/
def unlink (h : Links α) (x : α) : Links α :=
  let h := h.setPrevIf (h.next x) (h.prev x)
  let h := h.setNextIf (h.prev x) (h.next x)
  (h.setNext x none).setPrev x none

/-- `push_front`; `hasTail` stands for `BERYL_node_list_HAS_TAIL`. -/
def pushFront (hasTail : Bool) (h : Links α) (list : NodeList α) (x : α) : Option (Links α × NodeList α) :=
  if list.listsize ≠ 0 then
    match list.listhead with
    | some first =>
      some ((h.setNext x list.listhead).setPrev first (some x),
        { list with listhead := some x, listsize := list.listsize + 1 })
    | none => none
  else
    let listtail := if hasTail then some x else list.listtail
    some (h, { listhead := some x, listtail, listsize := list.listsize + 1 })

/-- `push_back`, of `node_list_tail` only. -/
def pushBack (h : Links α) (list : NodeList α) (x : α) : Option (Links α × NodeList α) :=
  if list.listsize ≠ 0 then
    match list.listtail with
    | some last =>
      some ((h.setPrev x list.listtail).setNext last (some x),
        { list with listtail := some x, listsize := list.listsize + 1 })
    | none => none
  else some (h, { listhead := some x, listtail := some x, listsize := list.listsize + 1 })

def erase (hasTail : Bool) (h : Links α) (list : NodeList α) (x : α) : Links α × NodeList α :=
  let listhead := if list.listhead = some x then h.next x else list.listhead
  let listtail := if hasTail ∧ list.listtail = some x then h.prev x else list.listtail
  (unlink h x, { listhead, listtail, listsize := list.listsize - 1 })

def popFront (hasTail : Bool) (h : Links α) (list : NodeList α) : Option (Links α × NodeList α) :=
  list.listhead.map (erase hasTail h list)

def popBack (hasTail : Bool) (h : Links α) (list : NodeList α) : Option (Links α × NodeList α) :=
  list.listtail.map (erase hasTail h list)

end

/-! ## One list -/

/-- The list and the links of its nodes stand for `l`. -/
structure Holds {α : Type} (hasTail : Bool) (h : Links α) (list : NodeList α) (l : List α) : Prop where
  head : list.listhead = l.head?
  tail : hasTail = true → list.listtail = l.getLast?
  size : list.listsize = l.length
  chain : h.Chain none l none
  nodup : l.Nodup

section
variable {α : Type} {hasTail : Bool} {h g : Links α} {list : NodeList α} {l m : List α} {x : α}

def Detached (h : Links α) (x : α) : Prop := h.next x = none ∧ h.prev x = none

/-- The links of the nodes outside of both lists are as they were. -/
def Spares (h g : Links α) (l m : List α) : Prop := ∀ z, z ∉ l → z ∉ m → g.next z = h.next z ∧ g.prev z = h.prev z

theorem Holds.congr (holds : Holds hasTail h list l) (same : ∀ z ∈ l, g.next z = h.next z ∧ g.prev z = h.prev z) :
    Holds hasTail g list l :=
  { holds with chain := holds.chain.congr (fun z hz => (same z hz).1) fun z hz => (same z hz).2 }

variable [DecidableEq α]

theorem Holds.pushFront (holds : Holds hasTail h list l) (fresh : x ∉ l) (detached : Detached h x) :
    ∃ g list', pushFront hasTail h list x = some (g, list') ∧ Holds hasTail g list' (x :: l) ∧ Spares h g l (x :: l) := by
  cases l with
  | nil =>
    have size : list.listsize = 0 := holds.size
    refine ⟨h, _, by rw [NodeLists.pushFront, if_neg (not_not.mpr size)], ?_, fun z _ _ => ⟨rfl, rfl⟩⟩
    exact {
      head := rfl
      tail := fun has => if_pos has
      size := by simp [size]
      chain := Links.chain_singleton.mpr ⟨detached.2, detached.1⟩
      nodup := List.nodup_singleton x }
  | cons y l =>
    have size : list.listsize ≠ 0 := by simp [holds.size]
    have head : list.listhead = some y := holds.head
    have apart : x ≠ y := fun same => fresh (same ▸ List.mem_cons_self)
    refine ⟨(h.setNext x (some y)).setPrev y (some x), _, by rw [NodeLists.pushFront, if_pos size, head], ?_, ?_⟩
    · exact {
        head := rfl
        tail := fun has => by rw [List.getLast?_cons_cons]; exact holds.tail has
        size := by simp [holds.size]
        chain := by
          refine ⟨(Links.setPrev_prev_of_ne apart _).trans detached.2, Links.setNext_next_self _, ?_⟩
          exact (holds.chain.setNext fresh _).relinkFirst (List.nodup_cons.mp holds.nodup).1 _
        nodup := List.nodup_cons.mpr ⟨fresh, holds.nodup⟩ }
    · intro z out new
      obtain ⟨other, -⟩ := not_or.mp (mt List.mem_cons.mpr new)
      obtain ⟨away, -⟩ := not_or.mp (mt List.mem_cons.mpr out)
      exact ⟨Links.setNext_next_of_ne other _, Links.setPrev_prev_of_ne away _⟩

theorem Holds.pushBack (holds : Holds true h list l) (fresh : x ∉ l) (detached : Detached h x) :
    ∃ g list', pushBack h list x = some (g, list') ∧ Holds true g list' (l ++ [x]) ∧ Spares h g l (l ++ [x]) := by
  rcases List.eq_nil_or_concat l with rfl | ⟨l, y, rfl⟩
  · have size : list.listsize = 0 := holds.size
    refine ⟨h, _, by rw [NodeLists.pushBack, if_neg (not_not.mpr size)], ?_, fun z _ _ => ⟨rfl, rfl⟩⟩
    exact {
      head := rfl
      tail := fun _ => rfl
      size := by simp [size]
      chain := Links.chain_singleton.mpr ⟨detached.2, detached.1⟩
      nodup := List.nodup_singleton x }
  · rw [List.concat_eq_append] at holds fresh ⊢
    have size : list.listsize ≠ 0 := by simp [holds.size]
    have tail : list.listtail = some y := by rw [holds.tail rfl, List.getLast?_concat]
    have once : y ∉ l := fun hy => List.disjoint_of_nodup_append holds.nodup hy (List.mem_singleton_self y)
    have apart : x ≠ y := fun same => fresh (by simp [same])
    have nodup : (l ++ [y] ++ [x]).Nodup :=
      List.nodup_append.mpr ⟨holds.nodup, List.nodup_singleton x, fun z hz w hw same => by
        rw [List.mem_singleton.mp hw] at same
        exact fresh (same ▸ hz)⟩
    refine ⟨(h.setPrev x (some y)).setNext y (some x), _, by rw [NodeLists.pushBack, if_pos size, tail], ?_, ?_⟩
    · exact {
        head := by rw [List.head?_append_of_ne_nil _ (by simp)]; exact holds.head
        tail := fun _ => List.getLast?_concat.symm
        size := by simp [holds.size]
        chain := by
          refine Links.chain_append.mpr ⟨(holds.chain.setPrev fresh _).relinkLast once _, ?_⟩
          rw [List.getLast?_concat]
          refine Links.chain_singleton.mpr ⟨Links.setPrev_prev_self _, ?_⟩
          exact (Links.setNext_next_of_ne apart _).trans detached.1
        nodup }
    · intro z out new
      have other : z ≠ x := fun same => new (by simp [same])
      have away : z ≠ y := fun same => out (by simp [same])
      exact ⟨Links.setNext_next_of_ne away _, Links.setPrev_prev_of_ne other _⟩

/-- The neighbours of `x` are linked to each other, and `x` to nothing. -/
theorem unlink_chain (chain : h.Chain none (l ++ x :: m) none) (nodup : (l ++ x :: m).Nodup) :
    (unlink h x).Chain none (l ++ m) none := by
  obtain ⟨-, tails, apart⟩ := List.nodup_append.mp nodup
  obtain ⟨foreign, nodup'⟩ := List.nodup_cons.mp tails
  have nodup_l : l.Nodup := (List.nodup_append.mp nodup).1
  have foreign_l : x ∉ l := fun hx => apart x hx x List.mem_cons_self rfl
  have next : h.next x = m.head? := by rw [chain.next_of_split, Option.or_none]
  have prev : h.prev x = l.getLast? := by rw [chain.prev_of_split, Option.or_none]
  obtain ⟨front, back⟩ := Links.chain_append.mp chain
  have back : h.Chain (some x) m none := back.2.2
  have first : ∀ z, m.head? = some z → z ∉ l := fun z hz hl =>
    apart z hl z (List.mem_cons_of_mem x (List.mem_of_head? hz)) rfl
  have last : ∀ z, l.getLast? = some z → z ∉ m := fun z hz hm =>
    apart z (List.mem_of_getLast? hz) z (List.mem_cons_of_mem x hm) rfl
  have prev' : (h.setPrevIf m.head? l.getLast?).prev x = l.getLast? := by
    rw [Links.setPrevIf_prev_of_ne (fun same => foreign (List.mem_of_head? same)), prev]
  have next' : (h.setPrevIf m.head? l.getLast?).next x = m.head? := by rw [Links.setPrevIf_next, next]
  simp only [unlink, next, prev, prev', next']
  have front' := (front.setPrevIf first l.getLast?).setNextIf_last nodup_l m.head?
  have back' := (back.setPrevIf_head nodup' l.getLast?).setNextIf last m.head?
  have outside : x ∉ l ++ m := by simp [foreign, foreign_l]
  refine Links.Chain.setPrev (Links.Chain.setNext (Links.chain_append.mpr ⟨?_, ?_⟩) outside _) outside _
  · rw [Option.or_none]
    exact front'
  · rw [Option.or_none]
    exact back'

theorem unlink_detached (h : Links α) (x : α) : Detached (unlink h x) x :=
  ⟨Links.setNext_next_self none, Links.setPrev_prev_self none⟩

theorem unlink_spares (chain : h.Chain none (l ++ x :: m) none) : Spares h (unlink h x) (l ++ x :: m) (l ++ m) := by
  intro z out _
  simp only [List.mem_append, List.mem_cons, not_or] at out
  obtain ⟨in_l, other, in_m⟩ := out
  have next : h.next x = m.head? := by rw [chain.next_of_split, Option.or_none]
  have prev : h.prev x = l.getLast? := by rw [chain.prev_of_split, Option.or_none]
  have first : m.head? ≠ some z := fun same => in_m (List.mem_of_head? same)
  constructor
  · rw [unlink, Links.setPrev_next, Links.setNext_next_of_ne other, Links.setNextIf_next_of_ne, Links.setPrevIf_next]
    by_cases self : m.head? = some x
    · rw [next, prev, self]
      simp only [Links.setPrevIf, Links.setPrev_prev_self]
      exact fun same => in_l (List.mem_of_getLast? same)
    · rw [next, Links.setPrevIf_prev_of_ne self, prev]
      exact fun same => in_l (List.mem_of_getLast? same)
  · rw [unlink, Links.setPrev_prev_of_ne other, Links.setNext_prev, Links.setNextIf_prev, next,
      Links.setPrevIf_prev_of_ne first]

theorem Holds.erase (holds : Holds hasTail h list (l ++ x :: m)) :
    Holds hasTail (erase hasTail h list x).1 (erase hasTail h list x).2 (l ++ m) := by
  have next : h.next x = m.head? := by rw [holds.chain.next_of_split, Option.or_none]
  have prev : h.prev x = l.getLast? := by rw [holds.chain.prev_of_split, Option.or_none]
  obtain ⟨-, tails, apart⟩ := List.nodup_append.mp holds.nodup
  have foreign_l : x ∉ l := fun hx => apart x hx x List.mem_cons_self rfl
  have foreign_m : x ∉ m := (List.nodup_cons.mp tails).1
  exact {
    head := by
      simp only [NodeLists.erase, holds.head, next]
      cases l with
      | nil => simp
      | cons y l =>
        have other : y ≠ x := fun same => foreign_l (same ▸ List.mem_cons_self)
        simp [other]
    tail := fun has => by
      simp only [NodeLists.erase, holds.tail has, prev, has, true_and]
      rcases List.eq_nil_or_concat m with rfl | ⟨m, y, rfl⟩
      · simp
      · have other : y ≠ x := fun same => foreign_m (by simp [same])
        rw [List.concat_eq_append, ← List.cons_append, ← List.append_assoc, List.getLast?_concat,
          ← List.append_assoc, List.getLast?_concat, if_neg fun same => other (Option.some.inj same)]
    size := by
      simp only [NodeLists.erase, holds.size, List.length_append, List.length_cons]
      omega
    chain := unlink_chain holds.chain holds.nodup
    nodup := holds.nodup.sublist (List.Sublist.append_left (List.sublist_cons_self x m) l) }

end

/-! ## All lists of one tag -/

/-- The links of all nodes, and the lists. -/
structure Pool (ι α : Type) where
  links : Links α
  lists : ι → NodeList α

/-- The calls on the lists, of which `node_list` has the first three, and the loops over a list that erase. -/
inductive Call (ι α : Type) where
  | pushFront (i : ι) (x : α)
  | erase (i : ι) (x : α)
  | popFront (i : ι)
  | pushBack (i : ι) (x : α)
  | popBack (i : ι)
  | sweep (i : ι) (drop : α → Bool)

section
variable {ι α : Type} [DecidableEq ι] [DecidableEq α] (hasTail : ι → Bool)

def Pool.empty : Pool ι α := ⟨⟨fun _ => none, fun _ => none⟩, fun _ => {}⟩

def Pool.set (s : Pool ι α) (i : ι) (made : Links α × NodeList α) : Pool ι α :=
  ⟨made.1, Function.update s.lists i made.2⟩

/-- From `begin()` with `operator++`, for `n` nodes at most. -/
def Pool.forward (s : Pool ι α) (n : ℕ) (i : ι) : List α := walk s.links.next n (s.lists i).listhead

/-- From `back()` with `operator--`. -/
def Pool.backward (s : Pool ι α) (n : ℕ) (i : ι) : List α := walk s.links.prev n (s.lists i).listtail

/-- `for (i = begin(); i != end(); ) { curr = *i; ++i; .. }` with a body that erases the nodes of `drop`. -/
def Pool.sweep (i : ι) (drop : α → Bool) : ℕ → Option α → Pool ι α → List α × Pool ι α
  | 0, _, s => ([], s)
  | _, none, s => ([], s)
  | n + 1, some curr, s =>
    let next := s.links.next curr
    let t := if drop curr then s.set i (NodeLists.erase (hasTail i) s.links (s.lists i) curr) else s
    let (visited, t) := Pool.sweep i drop n next t
    (curr :: visited, t)

def Pool.call (s : Pool ι α) : Call ι α → Option (Pool ι α)
  | .pushFront i x => (NodeLists.pushFront (hasTail i) s.links (s.lists i) x).map (s.set i)
  | .erase i x => some (s.set i (NodeLists.erase (hasTail i) s.links (s.lists i) x))
  | .popFront i => (NodeLists.popFront (hasTail i) s.links (s.lists i)).map (s.set i)
  | .pushBack i x => (NodeLists.pushBack s.links (s.lists i) x).map (s.set i)
  | .popBack i => (NodeLists.popBack (hasTail i) s.links (s.lists i)).map (s.set i)
  | .sweep i drop => some (Pool.sweep hasTail i drop (s.lists i).listsize (s.lists i).listhead s).2

/-- What the calls are for: a node is in one list at most, and only a node of a list is taken from it. -/
def sequences (ls : ι → List α) : Call ι α → (ι → List α) → Prop
  | .pushFront i x, ms => (∀ j, x ∉ ls j) ∧ ms = Function.update ls i (x :: ls i)
  | .erase i x, ms => x ∈ ls i ∧ ms = Function.update ls i ((ls i).erase x)
  | .popFront i, ms => ls i ≠ [] ∧ ms = Function.update ls i (ls i).tail
  | .pushBack i x, ms => hasTail i = true ∧ (∀ j, x ∉ ls j) ∧ ms = Function.update ls i (ls i ++ [x])
  | .popBack i, ms => hasTail i = true ∧ ls i ≠ [] ∧ ms = Function.update ls i (ls i).dropLast
  | .sweep i drop, ms => ms = Function.update ls i ((ls i).filter fun x => !drop x)

inductive Sequences : (ι → List α) → List (Call ι α) → (ι → List α) → Prop
  | nil (ls : ι → List α) : Sequences ls [] ls
  | cons {ls ms ns : ι → List α} {call : Call ι α} {calls : List (Call ι α)} :
      sequences hasTail ls call ms → Sequences ms calls ns → Sequences ls (call :: calls) ns

structure Represents (s : Pool ι α) (ls : ι → List α) : Prop where
  holds : ∀ i, Holds (hasTail i) s.links (s.lists i) (ls i)
  apart : ∀ {i j x}, x ∈ ls i → x ∈ ls j → i = j
  detached : ∀ x, (∀ i, x ∉ ls i) → Detached s.links x

variable {hasTail} {s t : Pool ι α} {ls ms : ι → List α}

omit [DecidableEq ι] [DecidableEq α] in
theorem Represents.empty : Represents hasTail (Pool.empty : Pool ι α) fun _ => [] where
  holds _ := ⟨rfl, fun _ => rfl, rfl, trivial, List.nodup_nil⟩
  apart here := absurd here List.not_mem_nil
  detached _ _ := ⟨rfl, rfl⟩

/-- One list changes, with the links of the nodes that are in it before or afterwards. -/
theorem Represents.set (rep : Represents hasTail s ls) {i : ι} {made : Links α × NodeList α} {l : List α}
    (holds : Holds (hasTail i) made.1 made.2 l) (spares : Spares s.links made.1 (ls i) l)
    (own : ∀ x ∈ l, x ∈ ls i ∨ ∀ j, x ∉ ls j) (left : ∀ x ∈ ls i, x ∉ l → Detached made.1 x) :
    Represents hasTail (s.set i made) (Function.update ls i l) where
  holds j := by
    by_cases same : j = i
    · subst same
      simpa only [Pool.set, Function.update_self] using holds
    · simp only [Pool.set, Function.update_of_ne same]
      refine (rep.holds j).congr fun z hz => spares z (fun here => same (rep.apart hz here)) fun here => ?_
      rcases own z here with old | fresh
      · exact same (rep.apart hz old)
      · exact fresh j hz
  apart := by
    have unique : ∀ {j x}, x ∈ l → x ∈ ls j → j = i := fun {j x} new old => by
      rcases own x new with here | fresh
      · exact rep.apart old here
      · exact absurd old (fresh j)
    intro j j' x here here'
    by_cases same : j = i <;> by_cases same' : j' = i
    · exact same.trans same'.symm
    · rw [same, Function.update_self] at here
      rw [Function.update_of_ne same'] at here'
      exact absurd (unique here here') same'
    · rw [same', Function.update_self] at here'
      rw [Function.update_of_ne same] at here
      exact absurd (unique here' here) same
    · rw [Function.update_of_ne same] at here
      rw [Function.update_of_ne same'] at here'
      exact rep.apart here here'
  detached x out := by
    have gone : x ∉ l := by simpa only [Function.update_self] using out i
    by_cases here : x ∈ ls i
    · exact left x here gone
    · obtain ⟨next, prev⟩ := spares x here gone
      have before : Detached s.links x := rep.detached x fun j hx => by
        have other : j ≠ i := fun same => here (same ▸ hx)
        exact out j (by simpa only [Function.update_of_ne other] using hx)
      exact ⟨next.trans before.1, prev.trans before.2⟩

theorem Represents.push (rep : Represents hasTail s ls) {i : ι} {made : Links α × NodeList α} {l : List α} {x : α}
    (fresh : ∀ j, x ∉ ls j) (holds : Holds (hasTail i) made.1 made.2 l) (spares : Spares s.links made.1 (ls i) l)
    (new : ∀ z, z ∈ l ↔ z = x ∨ z ∈ ls i) : Represents hasTail (s.set i made) (Function.update ls i l) := by
  refine rep.set holds spares (fun z hz => ?_) fun z hz gone => absurd ((new z).mpr (.inr hz)) gone
  rcases (new z).mp hz with rfl | old
  · exact .inr fresh
  · exact .inl old

theorem Represents.erase (rep : Represents hasTail s ls) {i : ι} {x : α} {l m : List α} (split : ls i = l ++ x :: m) :
    Represents hasTail (s.set i (NodeLists.erase (hasTail i) s.links (s.lists i) x)) (Function.update ls i (l ++ m)) := by
  have holds : Holds (hasTail i) s.links (s.lists i) (l ++ x :: m) := split ▸ rep.holds i
  refine rep.set holds.erase (split ▸ unlink_spares holds.chain) (fun z hz => ?_) fun z hz gone => ?_
  · rw [split]
    rcases List.mem_append.mp hz with front | back
    · exact .inl (List.mem_append_left _ front)
    · exact .inl (List.mem_append_right _ (List.mem_cons_of_mem x back))
  · obtain rfl : z = x := by
      rw [split, List.mem_append, List.mem_cons] at hz
      rw [List.mem_append, not_or] at gone
      rcases hz with front | same | back
      · exact absurd front gone.1
      · exact same
      · exact absurd back gone.2
    exact unlink_detached s.links z

/-- The loop goes on from the node behind the one that it may erase, and meets every node of the list once. -/
theorem Represents.sweep (drop : α → Bool) {i : ι} (rest : List α) : ∀ (kept : List α) {s : Pool ι α}
    {ls : ι → List α} {n : ℕ}, Represents hasTail s ls → ls i = kept ++ rest → rest.length ≤ n →
    (Pool.sweep hasTail i drop n rest.head? s).1 = rest ∧
    Represents hasTail (Pool.sweep hasTail i drop n rest.head? s).2
      (Function.update ls i (kept ++ rest.filter fun x => !drop x)) := by
  induction rest with
  | nil =>
    intro kept s ls n rep split _
    have same : Function.update ls i (kept ++ [].filter fun x => !drop x) = ls := by
      rw [List.filter_nil, ← split, Function.update_eq_self]
    rw [same]
    cases n <;> exact ⟨rfl, rep⟩
  | cons curr rest ih =>
    intro kept s ls n rep split enough
    obtain ⟨n, rfl⟩ : ∃ m, n = m + 1 := ⟨n - 1, by simp only [List.length_cons] at enough; omega⟩
    have fewer : rest.length ≤ n := by simpa using enough
    have next : s.links.next curr = rest.head? := by
      have chain := (rep.holds i).chain
      rw [split] at chain
      rw [chain.next_of_split, Option.or_none]
    simp only [List.head?_cons, Pool.sweep, next]
    cases gone : drop curr with
    | true =>
      obtain ⟨visited, rep'⟩ := ih kept (rep.erase split) (Function.update_self ..) fewer
      rw [Function.update_idem] at rep'
      rw [List.filter_cons_of_neg (by simp [gone])]
      exact ⟨congrArg (curr :: ·) visited, rep'⟩
    | false =>
      obtain ⟨visited, rep'⟩ := ih (kept ++ [curr]) rep (by rw [split, List.append_assoc, List.singleton_append]) fewer
      rw [List.append_assoc, List.singleton_append] at rep'
      rw [List.filter_cons_of_pos (by simp [gone])]
      exact ⟨congrArg (curr :: ·) visited, rep'⟩

theorem Represents.call (rep : Represents hasTail s ls) {call : Call ι α} (legal : sequences hasTail ls call ms) :
    ∃ t, s.call hasTail call = some t ∧ Represents hasTail t ms := by
  cases call with
  | pushFront i x =>
    obtain ⟨fresh, rfl⟩ := legal
    obtain ⟨g, list, made, holds, spares⟩ := (rep.holds i).pushFront (fresh i) (rep.detached x fresh)
    refine ⟨s.set i (g, list), by rw [Pool.call, made, Option.map_some], ?_⟩
    exact rep.push fresh holds spares fun z => List.mem_cons
  | erase i x =>
    obtain ⟨here, rfl⟩ := legal
    obtain ⟨l, m, split⟩ := List.append_of_mem here
    have first : x ∉ l := fun hx => (List.nodup_append.mp (split ▸ (rep.holds i).nodup)).2.2 x hx x List.mem_cons_self rfl
    refine ⟨_, rfl, ?_⟩
    rw [split, List.erase_append_right _ first, List.erase_cons_head]
    exact rep.erase split
  | popFront i =>
    obtain ⟨some_node, rfl⟩ := legal
    obtain ⟨x, m, split⟩ := List.exists_cons_of_ne_nil some_node
    have head : (s.lists i).listhead = some x := by rw [(rep.holds i).head, split, List.head?_cons]
    refine ⟨_, by rw [Pool.call, NodeLists.popFront, head, Option.map_some, Option.map_some], ?_⟩
    have rest : (ls i).tail = [] ++ m := by rw [split, List.tail_cons, List.nil_append]
    rw [rest]
    exact rep.erase split
  | pushBack i x =>
    obtain ⟨has, fresh, rfl⟩ := legal
    have holds := rep.holds i
    rw [has] at holds
    obtain ⟨g, list, made, holds', spares⟩ := holds.pushBack (fresh i) (rep.detached x fresh)
    refine ⟨s.set i (g, list), by rw [Pool.call, made, Option.map_some], ?_⟩
    refine rep.push fresh (has ▸ holds') spares fun z => ?_
    rw [List.mem_append, List.mem_singleton, or_comm]
  | popBack i =>
    obtain ⟨has, some_node, rfl⟩ := legal
    have split : ls i = (ls i).dropLast ++ (ls i).getLast some_node :: [] := (List.dropLast_append_getLast some_node).symm
    have tail : (s.lists i).listtail = some ((ls i).getLast some_node) := by
      rw [(rep.holds i).tail has, List.getLast?_eq_getLast_of_ne_nil some_node]
    refine ⟨_, by rw [Pool.call, NodeLists.popBack, tail, Option.map_some, Option.map_some], ?_⟩
    have erased := rep.erase split
    rwa [List.append_nil] at erased
  | sweep i drop =>
    obtain rfl : ms = _ := legal
    have holds := rep.holds i
    refine ⟨_, rfl, ?_⟩
    rw [holds.head]
    exact (rep.sweep drop (ls i) [] rfl (Nat.le_of_eq holds.size.symm)).2

theorem Represents.calls (rep : Represents hasTail s ls) {calls : List (Call ι α)}
    (legal : Sequences hasTail ls calls ms) : ∃ t, calls.foldlM (Pool.call hasTail) s = some t ∧ Represents hasTail t ms := by
  induction legal generalizing s with
  | nil ls => exact ⟨s, rfl, rep⟩
  | cons first later ih =>
    obtain ⟨r, called, rep'⟩ := rep.call first
    obtain ⟨t, run, rep''⟩ := ih rep'
    exact ⟨t, by rw [List.foldlM_cons, called]; exact run, rep''⟩

/-- In every run of calls on the lists of one tag, walks and loops meet the nodes of the sequences that the calls make. -/
theorem lists_are_sequences {calls : List (Call ι α)} (legal : Sequences hasTail (fun _ => []) calls ls) :
    ∃ s, calls.foldlM (Pool.call hasTail) Pool.empty = some s ∧ ∀ i,
      (s.lists i).listsize = (ls i).length ∧ (s.lists i).listhead = (ls i).head? ∧
      (∀ n, (ls i).length ≤ n → s.forward n i = ls i) ∧
      (hasTail i = true → ∀ n, (ls i).length ≤ n → s.backward n i = (ls i).reverse) ∧
      ∀ drop n, (ls i).length ≤ n →
        (Pool.sweep hasTail i drop n (s.lists i).listhead s).1 = ls i ∧
        ∀ j m, (ls j).length ≤ m → (Pool.sweep hasTail i drop n (s.lists i).listhead s).2.forward m j =
          if j = i then (ls i).filter fun x => !drop x else ls j := by
  obtain ⟨s, run, rep⟩ := Represents.empty.calls legal
  have walks {t : Pool ι α} {ms : ι → List α} (rep : Represents hasTail t ms) (i : ι) (n : ℕ) (enough : (ms i).length ≤ n) :
      t.forward n i = ms i := by
    rw [Pool.forward, (rep.holds i).head]
    exact (rep.holds i).chain.walk_next enough
  refine ⟨s, run, fun i => ⟨(rep.holds i).size, (rep.holds i).head, walks rep i, fun has n enough => ?_, ?_⟩⟩
  · rw [Pool.backward, (rep.holds i).tail has]
    exact (rep.holds i).chain.walk_prev enough
  · intro drop n enough
    obtain ⟨visited, rep'⟩ := rep.sweep drop (ls i) [] rfl enough
    rw [(rep.holds i).head]
    refine ⟨visited, fun j m enough' => ?_⟩
    by_cases same : j = i
    · subst same
      have fewer : (Function.update ls j ([] ++ (ls j).filter fun x => !drop x) j).length ≤ m := by
        rw [Function.update_self]
        exact Nat.le_trans (List.length_filter_le ..) enough'
      rw [walks rep' j m fewer, Function.update_self, if_pos rfl]
      rfl
    · have other : Function.update ls i ([] ++ (ls i).filter fun x => !drop x) j = ls j := Function.update_of_ne same ..
      rw [walks rep' j m (other ▸ enough'), other, if_neg same]

end

/-- Node 3 is pushed in front of the nodes 1 and 2 of one list, node 1 moves to the back of the other one. -/
theorem lists_are_sequences_moves : ∃ s, [Call.pushFront false 2, .pushFront false 1, .pushFront false 3, .erase false 1,
      .pushBack true 5, .pushBack true 1].foldlM (Pool.call fun i => i) (Pool.empty : Pool Bool ℕ) = some s ∧
    s.forward 2 false = [3, 2] ∧ s.backward 2 true = [1, 5] := by
  have legal : Sequences (fun i : Bool => i) (fun _ => []) [Call.pushFront false 2, .pushFront false 1,
      .pushFront false 3, .erase false 1, .pushBack true 5, .pushBack true 1] _ :=
    .cons ⟨by decide, rfl⟩ <| .cons ⟨by decide, rfl⟩ <| .cons ⟨by decide, rfl⟩ <| .cons ⟨by decide, rfl⟩ <|
      .cons ⟨rfl, by decide, rfl⟩ <| .cons ⟨rfl, by decide, rfl⟩ <| .nil _
  obtain ⟨s, run, all⟩ := lists_are_sequences legal
  exact ⟨s, run, (all false).2.2.1 2 (by decide), (all true).2.2.2.1 rfl 2 (by decide)⟩

end BerylDB.NodeLists
