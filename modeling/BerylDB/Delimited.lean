import Mathlib.Data.List.Basic

/-! # Segments that end in a separator -/
namespace Delimited

variable {α : Type} [DecidableEq α] {sep : α} {a b s t : List α}

/-- The segments that end in a separator, without it. -/
def lines (sep : α) (s : List α) : List (List α) := (s.splitOn sep).dropLast

/-- What follows the last separator. -/
def rest (sep : α) (s : List α) : List α := (s.splitOn sep).getLast (List.splitOn_ne_nil sep s)

@[simp] theorem lines_of_not_mem (h : sep ∉ s) : lines sep s = [] := by
  simp [lines, List.splitOn_eq_singleton h]

@[simp] theorem rest_of_not_mem (h : sep ∉ s) : rest sep s = s := by
  simp [rest, List.splitOn_eq_singleton h]

theorem lines_segment (h : sep ∉ a) : lines sep (a ++ sep :: b) = a :: lines sep b := by
  unfold lines
  rw [List.splitOn_append_cons_self_of_not_mem h, List.dropLast_cons_of_ne_nil (List.splitOn_ne_nil sep b)]

theorem rest_segment (h : sep ∉ a) : rest sep (a ++ sep :: b) = rest sep b := by
  unfold rest
  simp only [List.splitOn_append_cons_self_of_not_mem h]
  exact List.getLast_cons (List.splitOn_ne_nil sep b)

/-- Induction on the segments of a list. -/
@[elab_as_elim]
theorem segment_induction (sep : α) {motive : List α → Prop} (last : ∀ s, sep ∉ s → motive s)
    (segment : ∀ a b, sep ∉ a → motive b → motive (a ++ sep :: b)) (s : List α) : motive s := by
  induction hn : s.length using Nat.strongRecOn generalizing s with
  | ind n ih =>
    by_cases found : sep ∈ s
    · obtain ⟨a, b, rfl, first⟩ := List.eq_append_cons_of_mem found
      have shorter : b.length < n := by
        rw [← hn, List.length_append, List.length_cons]
        omega
      exact segment a b first (ih b.length shorter b rfl)
    · exact last s found

theorem not_mem_lines {l : List α} (h : l ∈ lines sep s) : sep ∉ l := by
  induction s using segment_induction sep with
  | last s absent => simp [absent] at h
  | segment a b first ih =>
    rw [lines_segment first] at h
    rcases List.mem_cons.mp h with rfl | h
    · exact first
    · exact ih h

theorem lines_append (s t : List α) : lines sep (s ++ t) = lines sep s ++ lines sep (rest sep s ++ t) := by
  induction s using segment_induction sep with
  | last s h => rw [lines_of_not_mem h, rest_of_not_mem h, List.nil_append]
  | segment a b h ih =>
    rw [lines_segment h, rest_segment h, List.cons_append, ← ih, List.append_assoc, List.cons_append, lines_segment h]

theorem rest_append (s t : List α) : rest sep (s ++ t) = rest sep (rest sep s ++ t) := by
  induction s using segment_induction sep with
  | last s h => rw [rest_of_not_mem h]
  | segment a b h ih => rw [rest_segment h, ← ih, List.append_assoc, List.cons_append, rest_segment h]

end Delimited
