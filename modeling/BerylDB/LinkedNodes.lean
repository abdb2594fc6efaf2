import Mathlib.Data.List.Induction
import Mathlib.Data.List.Nodup
import Mathlib.Logic.Function.Basic
import Mathlib.Tactic.Common

/-! # Doubly linked nodes

Every node has a link to the next one and a link to the previous one.  `Chain p l q` says that the links of the nodes of
`l` are those of a list that stands between `p` and `q`. -/
namespace LinkedNodes

universe u

variable {α : Type u}

structure Links (α : Type u) where
  next : α → Option α
  prev : α → Option α

/-- What is met from a node on, following one of the links. -/
def walk (follow : α → Option α) : ℕ → Option α → List α
  | 0, _ => []
  | _, none => []
  | n + 1, some x => x :: walk follow n (follow x)

namespace Links

def Chain (h : Links α) : Option α → List α → Option α → Prop
  | _, [], _ => True
  | p, x :: l, q => h.prev x = p ∧ h.next x = l.head?.or q ∧ Chain h (some x) l q

variable {h g : Links α} {p q : Option α} {x : α} {l m : List α}

theorem chain_append : h.Chain p (l ++ m) q ↔ h.Chain p l (m.head?.or q) ∧ h.Chain (l.getLast?.or p) m q := by
  induction l generalizing p with
  | nil => simp [Chain]
  | cons x l ih =>
    have last : (x :: l).getLast?.or p = l.getLast?.or (some x) := by cases l <;> simp [List.getLast?_cons]
    have first : (l ++ m).head?.or q = l.head?.or (m.head?.or q) := by rw [List.head?_append, Option.or_assoc]
    simp only [List.cons_append, Chain, ih, last, first, and_assoc]

theorem chain_singleton : h.Chain p [x] q ↔ h.prev x = p ∧ h.next x = q := by simp [Chain]

theorem Chain.prev_of_split (chain : h.Chain p (l ++ x :: m) q) : h.prev x = l.getLast?.or p := (chain_append.mp chain).2.1

theorem Chain.next_of_split (chain : h.Chain p (l ++ x :: m) q) : h.next x = m.head?.or q := (chain_append.mp chain).2.2.1

/-- A chain is a matter of the links of its own nodes. -/
theorem Chain.congr (chain : h.Chain p l q) (next : ∀ x ∈ l, g.next x = h.next x)
    (prev : ∀ x ∈ l, g.prev x = h.prev x) : g.Chain p l q := by
  induction l generalizing p with
  | nil => trivial
  | cons x l ih =>
    obtain ⟨before, after, rest⟩ := chain
    refine ⟨(prev x List.mem_cons_self).trans before, (next x List.mem_cons_self).trans after, ih rest ?_ ?_⟩
    · exact fun y hy => next y (List.mem_cons_of_mem x hy)
    · exact fun y hy => prev y (List.mem_cons_of_mem x hy)

theorem Chain.walk_next (chain : h.Chain p l none) {n : ℕ} (enough : l.length ≤ n) : walk h.next n l.head? = l := by
  induction l generalizing p n with
  | nil => cases n <;> rfl
  | cons x l ih =>
    obtain ⟨n, rfl⟩ : ∃ m, n = m + 1 := ⟨n - 1, by simp only [List.length_cons] at enough; omega⟩
    obtain ⟨-, after, rest⟩ := chain
    have step : walk h.next n l.head? = l := ih rest (by simpa using enough)
    rw [List.head?_cons, walk, after, Option.or_none, step]

theorem Chain.walk_prev (chain : h.Chain none l q) {n : ℕ} (enough : l.length ≤ n) :
    walk h.prev n l.getLast? = l.reverse := by
  induction l using List.reverseRecOn generalizing q n with
  | nil => cases n <;> rfl
  | append_singleton l x ih =>
    obtain ⟨n, rfl⟩ : ∃ m, n = m + 1 := ⟨n - 1, by simp only [List.length_append, List.length_singleton] at enough; omega⟩
    obtain ⟨front, back⟩ := chain_append.mp chain
    have before : h.prev x = l.getLast? := by rw [(chain_singleton.mp back).1, Option.or_none]
    have step : walk h.prev n l.getLast? = l.reverse := ih front (by simpa using enough)
    rw [List.getLast?_concat, walk, before, step, List.reverse_concat]

section
variable [DecidableEq α]

def setNext (h : Links α) (x : α) (y : Option α) : Links α := { h with next := Function.update h.next x y }
def setPrev (h : Links α) (x : α) (y : Option α) : Links α := { h with prev := Function.update h.prev x y }

@[simp] theorem setNext_prev (y : Option α) : (h.setNext x y).prev = h.prev := rfl
@[simp] theorem setPrev_next (y : Option α) : (h.setPrev x y).next = h.next := rfl
@[simp] theorem setNext_next_self (y : Option α) : (h.setNext x y).next x = y := Function.update_self ..
@[simp] theorem setPrev_prev_self (y : Option α) : (h.setPrev x y).prev x = y := Function.update_self ..

theorem setNext_next_of_ne {z : α} (other : z ≠ x) (y : Option α) : (h.setNext x y).next z = h.next z :=
  Function.update_of_ne other ..

theorem setPrev_prev_of_ne {z : α} (other : z ≠ x) (y : Option α) : (h.setPrev x y).prev z = h.prev z :=
  Function.update_of_ne other ..

theorem Chain.setNext (chain : h.Chain p l q) (foreign : x ∉ l) (y : Option α) : (h.setNext x y).Chain p l q :=
  chain.congr (fun _ hz => setNext_next_of_ne (ne_of_mem_of_not_mem hz foreign) y) fun _ _ => rfl

theorem Chain.setPrev (chain : h.Chain p l q) (foreign : x ∉ l) (y : Option α) : (h.setPrev x y).Chain p l q :=
  chain.congr (fun _ _ => rfl) fun _ hz => setPrev_prev_of_ne (ne_of_mem_of_not_mem hz foreign) y

/-- The first node of a chain gets another one in front of it. -/
theorem Chain.relinkFirst (chain : h.Chain p (x :: l) q) (fresh : x ∉ l) (p' : Option α) :
    (h.setPrev x p').Chain p' (x :: l) q := by
  obtain ⟨-, after, rest⟩ := chain
  exact ⟨setPrev_prev_self p', after, rest.setPrev fresh p'⟩

/-- The last node of a chain gets another one behind it. -/
theorem Chain.relinkLast (chain : h.Chain p (l ++ [x]) q) (fresh : x ∉ l) (q' : Option α) :
    (h.setNext x q').Chain p (l ++ [x]) q' := by
  obtain ⟨front, back⟩ := chain_append.mp chain
  refine chain_append.mpr ⟨front.setNext fresh q', chain_singleton.mpr ⟨?_, setNext_next_self q'⟩⟩
  exact (chain_singleton.mp back).1

/-! ## Nodes that may be missing -/

def setNextIf (h : Links α) (node : Option α) (y : Option α) : Links α :=
  match node with
  | some x => h.setNext x y
  | none => h

def setPrevIf (h : Links α) (node : Option α) (y : Option α) : Links α :=
  match node with
  | some x => h.setPrev x y
  | none => h

theorem setPrevIf_next (node y : Option α) : (h.setPrevIf node y).next = h.next := by cases node <;> rfl

theorem setNextIf_prev (node y : Option α) : (h.setNextIf node y).prev = h.prev := by cases node <;> rfl

theorem setPrevIf_prev_of_ne {z : α} {node : Option α} (other : node ≠ some z) (y : Option α) :
    (h.setPrevIf node y).prev z = h.prev z := by
  cases node with
  | none => rfl
  | some x => exact setPrev_prev_of_ne (fun same => other (congrArg some same.symm)) y

theorem setNextIf_next_of_ne {z : α} {node : Option α} (other : node ≠ some z) (y : Option α) :
    (h.setNextIf node y).next z = h.next z := by
  cases node with
  | none => rfl
  | some x => exact setNext_next_of_ne (fun same => other (congrArg some same.symm)) y

theorem Chain.setPrevIf (chain : h.Chain p l q) {node : Option α} (foreign : ∀ x, node = some x → x ∉ l)
    (y : Option α) : (h.setPrevIf node y).Chain p l q := by
  cases node with
  | none => exact chain
  | some x => exact chain.setPrev (foreign x rfl) y

theorem Chain.setNextIf (chain : h.Chain p l q) {node : Option α} (foreign : ∀ x, node = some x → x ∉ l)
    (y : Option α) : (h.setNextIf node y).Chain p l q := by
  cases node with
  | none => exact chain
  | some x => exact chain.setNext (foreign x rfl) y

theorem Chain.setPrevIf_head (chain : h.Chain p l q) (nodup : l.Nodup) (p' : Option α) :
    (h.setPrevIf l.head? p').Chain p' l q := by
  cases l with
  | nil => trivial
  | cons x l => exact chain.relinkFirst (List.nodup_cons.mp nodup).1 p'

theorem Chain.setNextIf_last (chain : h.Chain p l q) (nodup : l.Nodup) (q' : Option α) :
    (h.setNextIf l.getLast? q').Chain p l q' := by
  rcases List.eq_nil_or_concat l with rfl | ⟨l, x, rfl⟩
  · trivial
  · rw [List.concat_eq_append] at chain nodup ⊢
    have fresh : x ∉ l := fun hx => List.disjoint_of_nodup_append nodup hx (List.mem_singleton_self x)
    rw [List.getLast?_concat]
    exact chain.relinkLast fresh q'

end

end Links

end LinkedNodes
