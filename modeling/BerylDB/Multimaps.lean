import Mathlib.Data.List.Pairwise
import Mathlib.Data.List.Perm.Basic
import Mathlib.Order.Lattice

/-! # Sorted lists that keep entries of one key

Entries are compared by `lt`, which is the order of what `f` makes of them.  A multimap takes a new entry behind those of
its key, a multiset in a sorted vector takes it in front of its equals. -/
namespace Multimap

variable {α κ : Type}

/-- At the upper bound of the entry. -/
def insertBehind (lt : α → α → Bool) (e : α) : List α → List α
  | [] => [e]
  | x :: l => if lt e x then e :: x :: l else x :: insertBehind lt e l

/-- At the lower bound of the entry. -/
def insertBefore (lt : α → α → Bool) (e : α) : List α → List α
  | [] => [e]
  | x :: l => if lt x e then x :: insertBefore lt e l else e :: x :: l

/-- The equal range of the entry goes. -/
def eraseEqual (lt : α → α → Bool) (e : α) (l : List α) : List α := l.filter fun x => lt x e || lt e x

variable {lt : α → α → Bool} {e x : α} {l : List α} {k : κ}

theorem insertBehind_perm : (insertBehind lt e l).Perm (e :: l) := by
  induction l with
  | nil => exact .refl _
  | cons x l ih =>
    rw [insertBehind]
    split
    · exact .refl _
    · exact (ih.cons x).trans (.swap e x l)

theorem sublist_insertBehind : l.Sublist (insertBehind lt e l) := by
  induction l with
  | nil => exact List.nil_sublist _
  | cons x l ih =>
    rw [insertBehind]
    split
    · exact List.sublist_cons_self ..
    · exact ih.cons_cons x

theorem insertBefore_perm : (insertBefore lt e l).Perm (e :: l) := by
  induction l with
  | nil => exact .refl _
  | cons x l ih =>
    rw [insertBefore]
    split
    · exact (ih.cons x).trans (.swap e x l)
    · exact .refl _

@[simp] theorem mem_insertBehind : x ∈ insertBehind lt e l ↔ x = e ∨ x ∈ l := by
  rw [insertBehind_perm.mem_iff, List.mem_cons]

@[simp] theorem mem_insertBefore : x ∈ insertBefore lt e l ↔ x = e ∨ x ∈ l := by
  rw [insertBefore_perm.mem_iff, List.mem_cons]

variable [LinearOrder κ] {f : α → κ}

def Sorted (f : α → κ) (l : List α) : Prop := l.Pairwise fun a b => f a ≤ f b

theorem Sorted.filter (sorted : Sorted f l) (p : α → Bool) : Sorted f (l.filter p) :=
  List.Pairwise.sublist List.filter_sublist sorted

variable (order : ∀ a b, lt a b = true ↔ f a < f b)
include order

theorem Sorted.insertBehind (sorted : Sorted f l) : Sorted f (insertBehind lt e l) := by
  induction l with
  | nil => exact List.pairwise_singleton ..
  | cons x l ih =>
    obtain ⟨first, rest⟩ := List.pairwise_cons.mp sorted
    rw [Multimap.insertBehind]
    split
    · next above =>
      have above := ((order _ _).mp above).le
      refine List.pairwise_cons.mpr ⟨fun y hy => ?_, sorted⟩
      rcases List.mem_cons.mp hy with rfl | hy
      · exact above
      · exact above.trans (first y hy)
    · next below =>
      have below := not_lt.mp (mt (order _ _).mpr below)
      refine List.pairwise_cons.mpr ⟨fun y hy => ?_, ih rest⟩
      rcases mem_insertBehind.mp hy with rfl | hy
      · exact below
      · exact first y hy

/-- The entries of one key stand in the order of their insertions. -/
theorem filter_insertBehind [DecidableEq κ] (sorted : Sorted f l) (k : κ) : (insertBehind lt e l).filter (fun x => f x = k) =
    if f e = k then l.filter (fun x => f x = k) ++ [e] else l.filter fun x => f x = k := by
  induction l with
  | nil => by_cases same : f e = k <;> simp [insertBehind, same]
  | cons x l ih =>
    obtain ⟨first, rest⟩ := List.pairwise_cons.mp sorted
    rw [insertBehind]
    by_cases above : f e < f x
    · rw [if_pos ((order _ _).mpr above)]
      by_cases same : f e = k
      · have none : (x :: l).filter (fun x => f x = k) = [] := by
          refine List.filter_eq_nil_iff.mpr fun y hy => ?_
          have later : f e < f y := by
            rcases List.mem_cons.mp hy with rfl | hy
            · exact above
            · exact above.trans_le (first y hy)
          simpa using (same ▸ later).ne'
        rw [List.filter_cons_of_pos (by simpa using same), if_pos same, none, List.nil_append]
      · rw [List.filter_cons_of_neg (by simpa using same), if_neg same]
    · rw [if_neg (mt (order _ _).mp above), List.filter_cons, List.filter_cons, ih rest]
      by_cases same : f e = k <;> by_cases here : f x = k <;> simp [same, here]

/-- The lower bound of a key is the first entry of the key, or an entry of another key. -/
theorem find_lowerBound [DecidableEq κ] (sorted : Sorted f l) (e : α) :
    (l.find? fun x => !lt x e).filter (fun x => f x = f e) = (l.filter fun x => f x = f e).head? := by
  induction l with
  | nil => rfl
  | cons x l ih =>
    obtain ⟨first, rest⟩ := List.pairwise_cons.mp sorted
    by_cases below : f x < f e
    · rw [List.find?_cons_of_neg (by simpa using (order _ _).mpr below), ih rest,
        List.filter_cons_of_neg (by simpa using below.ne)]
    · rw [List.find?_cons_of_pos (by simpa using mt (order _ _).mp below)]
      by_cases same : f x = f e
      · rw [List.filter_cons_of_pos (by simpa using same)]
        simp [same]
      · have none : (x :: l).filter (fun x => f x = f e) = [] := by
          refine List.filter_eq_nil_iff.mpr fun y hy => ?_
          have later : f e < f x := lt_of_le_of_ne (not_lt.mp below) (Ne.symm same)
          have later : f e < f y := by
            rcases List.mem_cons.mp hy with rfl | hy
            · exact later
            · exact later.trans_le (first y hy)
          simpa using later.ne'
        rw [none]
        simp [same]

/-! ## Sets -/

/-- Entries that differ stay so, in the order of the comparison. -/
theorem strict_insertBefore (strict : l.Pairwise fun a b => f a < f b) (fresh : ∀ x ∈ l, f x ≠ f e) :
    (insertBefore lt e l).Pairwise fun a b => f a < f b := by
  induction l with
  | nil => exact List.pairwise_singleton ..
  | cons x l ih =>
    obtain ⟨first, rest⟩ := List.pairwise_cons.mp strict
    rw [insertBefore]
    split
    · next below =>
      have below := (order _ _).mp below
      refine List.pairwise_cons.mpr ⟨fun y hy => ?_, ih rest fun y hy => fresh y (List.mem_cons_of_mem x hy)⟩
      rcases mem_insertBefore.mp hy with rfl | hy
      · exact below
      · exact first y hy
    · next above =>
      have above := lt_of_le_of_ne (not_lt.mp (mt (order _ _).mpr above)) (fresh x List.mem_cons_self).symm
      refine List.pairwise_cons.mpr ⟨fun y hy => ?_, strict⟩
      rcases List.mem_cons.mp hy with rfl | hy
      · exact above
      · exact above.trans (first y hy)

theorem mem_eraseEqual : x ∈ eraseEqual lt e l ↔ x ∈ l ∧ f x ≠ f e := by
  rw [eraseEqual, List.mem_filter, Bool.or_eq_true, order, order, ← lt_or_lt_iff_ne]

end Multimap
