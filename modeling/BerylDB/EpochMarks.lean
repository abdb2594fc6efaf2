import Mathlib.Data.List.Nodup
import Mathlib.Logic.Function.Basic
import Mathlib.Order.Lattice
import Mathlib.Tactic.Common

/-! # Marks of the present epoch

A walk that may meet an element several times marks it with the number of the walk, so that it is taken once.  The
numbers come from a counter of `size` values; when it starts again, the marks of the elements that are in use are
cleared. -/
namespace EpochMarks

variable {α : Type} [DecidableEq α]

structure Marks (α : Type) where
  mark : α → ℕ
  current : ℕ

namespace Marks

/-- A new epoch.  The number 0 stands for no epoch. -/
def next (m : Marks α) (size : ℕ) (inUse : α → Bool) : Marks α :=
  if (m.current + 1) % size = 0 then ⟨fun a => if inUse a then 0 else m.mark a, 1⟩
  else { m with current := (m.current + 1) % size }

def set (m : Marks α) (a : α) : Marks α := { m with mark := Function.update m.mark a m.current }

/-- The admitted elements that bear no mark of this epoch are taken and marked. -/
def visit (admits : α → Bool) (m : Marks α) : List α → Marks α × List α
  | [] => (m, [])
  | a :: l =>
    if m.mark a = m.current || !admits a then m.visit admits l
    else
      let rest := (m.set a).visit admits l
      (rest.1, a :: rest.2)

/-- No element in use has a mark of a later epoch. -/
structure Past (m : Marks α) (size : ℕ) (inUse : α → Prop) : Prop where
  bounded : m.current < size
  past : ∀ a, inUse a → m.mark a ≤ m.current

variable {m : Marks α} {size : ℕ} {admits : α → Bool} {a b : α} {l : List α}

@[simp] theorem set_current : (m.set a).current = m.current := rfl

@[simp] theorem set_mark : (m.set a).mark b = if b = a then m.current else m.mark b := by
  simp [set, Function.update_apply]

omit [DecidableEq α] in
theorem Past.mono {inUse fewer : α → Prop} (h : m.Past size inUse) (less : ∀ a, fewer a → inUse a) :
    m.Past size fewer := ⟨h.bounded, fun a used => h.past a (less a used)⟩

theorem Past.set {inUse : α → Prop} (h : m.Past size inUse) : (m.set a).Past size inUse := by
  refine ⟨h.bounded, fun b used => ?_⟩
  rw [set_mark]
  split
  · exact le_rfl
  · exact h.past b used

omit [DecidableEq α] in
/-- In a new epoch every element in use is unmarked, also when the counter starts again. -/
theorem Past.next {inUse : α → Bool} (h : m.Past size fun a => inUse a = true) (two : 1 < size) :
    (m.next size inUse).Past size (fun a => inUse a = true) ∧
    ∀ a, inUse a = true → (m.next size inUse).mark a ≠ (m.next size inUse).current := by
  unfold Marks.next
  split
  · refine ⟨⟨two, fun a used => ?_⟩, fun a used => ?_⟩ <;> simp [used]
  · rename_i more
    have step : (m.current + 1) % size = m.current + 1 := by
      refine Nat.mod_eq_of_lt (lt_of_le_of_ne h.bounded fun full => more ?_)
      rw [full, Nat.mod_self]
    rw [step]
    have bounded : m.current + 1 < size := step ▸ Nat.mod_lt _ (by omega)
    refine ⟨⟨bounded, fun a used => (h.past a used).trans (Nat.le_succ _)⟩, fun a used => ?_⟩
    exact ((h.past a used).trans_lt (Nat.lt_succ_self _)).ne

theorem Past.visit {inUse : α → Prop} (h : m.Past size inUse) : (m.visit admits l).1.Past size inUse := by
  induction l generalizing m with
  | nil => exact h
  | cons a l ih =>
    rw [Marks.visit]
    split
    · exact ih h
    · exact ih h.set

variable (m admits l) in
/-- A walk takes the admitted elements that are unmarked, each once. -/
theorem visit_spec : (m.visit admits l).2.Nodup ∧
    ∀ a, a ∈ (m.visit admits l).2 ↔ a ∈ l ∧ admits a = true ∧ m.mark a ≠ m.current := by
  induction l generalizing m with
  | nil => simp [Marks.visit]
  | cons b l ih =>
    rw [Marks.visit]
    split
    · rename_i passed
      obtain ⟨nodup, mem⟩ := ih m
      refine ⟨nodup, fun a => ?_⟩
      rw [mem, List.mem_cons]
      constructor
      · exact fun h => ⟨.inr h.1, h.2⟩
      · rintro ⟨rfl | here, admitted, unmarked⟩
        · simp [admitted, unmarked] at passed
        · exact ⟨here, admitted, unmarked⟩
    · rename_i taken
      obtain ⟨unmarked, admitted⟩ : m.mark b ≠ m.current ∧ admits b = true := by simpa using taken
      obtain ⟨nodup, mem⟩ := ih (m := m.set b)
      have new : b ∉ ((m.set b).visit admits l).2 := fun here => ((mem b).mp here).2.2 (by simp)
      refine ⟨List.nodup_cons.mpr ⟨new, nodup⟩, fun a => ?_⟩
      rw [List.mem_cons, mem, List.mem_cons]
      by_cases same : a = b
      · subst same
        simp [admitted, unmarked]
      · simp [same]

end Marks
end EpochMarks
