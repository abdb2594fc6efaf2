import Mathlib.Data.Finset.Card
import Mathlib.Data.Finset.Filter
import Mathlib.Data.Finset.Range
import Mathlib.Logic.Relation

/-! # Generations of an ancestry

`R i j` says that `j` is a parent of `i`.  Without a cycle, the ancestors of one of `n` individuals reach back less than
`n` generations. -/
namespace Ancestry

variable {R : ℕ → ℕ → Prop} {d e i j n : ℕ}

/-- The ancestors of `i` reach back at most `d` generations. -/
def Within (R : ℕ → ℕ → Prop) : ℕ → ℕ → Prop
  | 0, i => ∀ j, ¬ R i j
  | d + 1, i => ∀ j, R i j → Within R d j

theorem Within.mono (h : Within R d i) (le : d ≤ e) : Within R e i := by
  induction d generalizing e i with
  | zero =>
    cases e with
    | zero => exact h
    | succ e => exact fun j parent => absurd parent (h j)
  | succ d ih =>
    obtain ⟨e, rfl⟩ := Nat.exists_eq_add_of_le' (Nat.one_le_of_lt le)
    exact fun j parent => ih (h j parent) (Nat.le_of_succ_le_succ le)

open Classical in
/-- The ancestors among the first `n`. -/
noncomputable def ancestors (R : ℕ → ℕ → Prop) (n i : ℕ) : Finset ℕ := (Finset.range n).filter (Relation.TransGen R i)

theorem mem_ancestors : j ∈ ancestors R n i ↔ j < n ∧ Relation.TransGen R i j := by simp [ancestors]

variable (bounded : ∀ i j, R i j → j < n) (acyclic : ∀ i, ¬ Relation.TransGen R i i)
include bounded acyclic

/-- A parent has fewer ancestors. -/
theorem card_ancestors_lt (parent : R i j) : (ancestors R n j).card < (ancestors R n i).card := by
  refine Finset.card_lt_card ⟨fun k hk => ?_, fun all => ?_⟩
  · obtain ⟨inside, path⟩ := mem_ancestors.mp hk
    exact mem_ancestors.mpr ⟨inside, .head parent path⟩
  · have own := all (mem_ancestors.mpr ⟨bounded i j parent, .single parent⟩)
    exact acyclic j (mem_ancestors.mp own).2

theorem within_card (few : (ancestors R n i).card ≤ d) : Within R d i := by
  induction d generalizing i with
  | zero =>
    intro j parent
    have := card_ancestors_lt bounded acyclic parent
    omega
  | succ d ih =>
    intro j parent
    have fewer := card_ancestors_lt bounded acyclic parent
    exact ih (by omega)

/-- The ancestors of each reach back less generations than there are individuals. -/
theorem within_pred (inside : i < n) : Within R (n - 1) i := by
  refine within_card bounded acyclic (Nat.le_pred_of_lt ?_)
  have proper : ancestors R n i ⊂ Finset.range n :=
    ⟨fun _ hj => Finset.mem_range.mpr (mem_ancestors.mp hj).1,
      fun all => acyclic i (mem_ancestors.mp (all (Finset.mem_range.mpr inside))).2⟩
  simpa using Finset.card_lt_card proper

omit bounded acyclic

theorem Within.ancestor (h : Within R d i) (path : Relation.TransGen R i j) : ∃ e < d, Within R e j := by
  induction path with
  | single parent =>
    cases d with
    | zero => exact absurd parent (h _)
    | succ d => exact ⟨d, d.lt_succ_self, h _ parent⟩
  | tail _ parent ih =>
    obtain ⟨e, less, known⟩ := ih
    cases e with
    | zero => exact absurd parent (known _)
    | succ e => exact ⟨e, Nat.lt_of_succ_lt less, known _ parent⟩

/-- Whose ancestors reach back a number of generations is none of them. -/
theorem Within.no_cycle (h : Within R d i) : ¬ Relation.TransGen R i i := by
  induction d using Nat.strongRecOn with
  | ind d ih =>
    intro cycle
    obtain ⟨e, less, known⟩ := h.ancestor cycle
    exact ih e less known cycle

end Ancestry
