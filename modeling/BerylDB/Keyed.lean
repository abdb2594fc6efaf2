import Mathlib.Data.List.Pairwise
import Mathlib.Tactic.Common

/-! # Lists with distinct keys

A list stands for a map when the keys that `f` gives its entries differ.  Keys may be coarser than what an
entry shows, as with names that are compared without regard to case. -/
namespace Keyed

universe u v

variable {α : Type u} {κ : Type v} {f : α → κ} {l : List α} {a b : α} {k : κ}

def Distinct (f : α → κ) (l : List α) : Prop := l.Pairwise fun a b => f a ≠ f b

theorem Distinct.eq_of_key (h : Distinct f l) (ha : a ∈ l) (hb : b ∈ l) (hab : f a = f b) : a = b := by
  by_contra hne
  have hsymm : Std.Symm fun a b : α => f a ≠ f b := ⟨fun a b hab => hab.symm⟩
  exact h.forall ha hb hne hab

/-- A new entry whose key is absent. -/
theorem Distinct.concat (h : Distinct f l) (hnew : ∀ b ∈ l, f b ≠ f a) : Distinct f (l ++ [a]) := by
  refine List.pairwise_append.mpr ⟨h, List.pairwise_singleton .., fun b hb c hc => ?_⟩
  rw [List.mem_singleton.mp hc]
  exact hnew b hb

theorem Distinct.eraseP (h : Distinct f l) {p : α → Bool} : Distinct f (l.eraseP p) := h.sublist List.eraseP_sublist

variable [BEq κ] [LawfulBEq κ]

/-- The search finds the one entry that has the key. -/
theorem Distinct.find?_eq_some_iff (h : Distinct f l) : (l.find? fun a => f a == k) = some a ↔ a ∈ l ∧ f a = k := by
  constructor
  · intro hfind
    exact ⟨List.mem_of_find?_eq_some hfind, by simpa using List.find?_some hfind⟩
  · rintro ⟨ha, rfl⟩
    cases hfind : l.find? fun b => f b == f a with
    | none => exact absurd (List.find?_eq_none.mp hfind a ha) (by simp)
    | some b =>
      have hb : f b = f a := by simpa using List.find?_some hfind
      rw [h.eq_of_key (List.mem_of_find?_eq_some hfind) ha hb]

/-- Erasing a key takes out the one entry that has it. -/
theorem Distinct.mem_eraseP (h : Distinct f l) : a ∈ l.eraseP (fun a => f a == k) ↔ a ∈ l ∧ f a ≠ k := by
  induction l with
  | nil => simp
  | cons b l ih =>
    obtain ⟨hb, hl⟩ := List.pairwise_cons.mp h
    by_cases hk : f b = k
    · rw [List.eraseP_cons_of_pos (by simpa using hk)]
      constructor
      · intro ha
        exact ⟨List.mem_cons_of_mem _ ha, fun hak => hb a ha (hk.trans hak.symm)⟩
      · rintro ⟨ha, hak⟩
        rcases List.mem_cons.mp ha with rfl | ha
        · exact absurd hk hak
        · exact ha
    · rw [List.eraseP_cons_of_neg (by simpa using hk), List.mem_cons, List.mem_cons, ih hl]
      constructor
      · rintro (rfl | ⟨ha, hak⟩)
        · exact ⟨.inl rfl, hk⟩
        · exact ⟨.inr ha, hak⟩
      · rintro ⟨rfl | ha, hak⟩
        · exact .inl rfl
        · exact .inr ⟨ha, hak⟩

end Keyed
