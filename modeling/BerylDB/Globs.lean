import Mathlib.Computability.Language

/-! # Languages of glob masks

A mask is a list of pieces: a star for any string, a piece for any one letter, and a letter for those that count as
the same. -/
namespace Glob

universe u v

inductive Piece (β : Type v) where
  | star | any | letter (c : β)
deriving DecidableEq

variable {α : Type u} {β : Type v} {same : β → α → Prop}

/-- A piece that is not a star stands for one letter. -/
def Piece.accepts (same : β → α → Prop) : Piece β → α → Prop
  | .star, _ => False
  | .any, _ => True
  | .letter c, a => same c a

def Piece.language (same : β → α → Prop) : Piece β → Language α
  | .star => ⊤
  | .any => {s | ∃ a, s = [a]}
  | .letter c => {s | ∃ a, same c a ∧ s = [a]}

def language (same : β → α → Prop) (mask : List (Piece β)) : Language α := (mask.map (Piece.language same)).prod

variable {p : Piece β} {u m : List (Piece β)} {s t x base cp : List α} {a : α}

@[simp] theorem mem_nil : s ∈ language same [] ↔ s = [] := Language.mem_one s

theorem mem_cons : s ∈ language same (p :: m) ↔ ∃ x ∈ p.language same, ∃ t ∈ language same m, x ++ t = s := by
  rw [language, List.map_cons, List.prod_cons]
  exact Language.mem_mul

theorem Piece.mem_language (one : p ≠ .star) : s ∈ p.language same ↔ ∃ a, p.accepts same a ∧ s = [a] := by
  cases p with
  | star => exact absurd rfl one
  | any => exact ⟨fun ⟨a, single⟩ => ⟨a, trivial, single⟩, fun ⟨a, _, single⟩ => ⟨a, single⟩⟩
  | letter c => exact Iff.rfl

/-! ## One piece -/

theorem nil_not_mem (one : p ≠ .star) : [] ∉ language same (p :: m) := by
  rw [mem_cons]
  rintro ⟨x, here, t, -, split⟩
  obtain ⟨a, -, rfl⟩ := (Piece.mem_language one).mp here
  exact absurd split (by simp)

theorem cons_mem (one : p ≠ .star) : a :: s ∈ language same (p :: m) ↔ p.accepts same a ∧ s ∈ language same m := by
  rw [mem_cons]
  constructor
  · rintro ⟨x, here, t, rest, split⟩
    obtain ⟨b, accepted, rfl⟩ := (Piece.mem_language one).mp here
    obtain ⟨rfl, rfl⟩ := List.cons.inj split
    exact ⟨accepted, rest⟩
  · rintro ⟨accepted, rest⟩
    exact ⟨[a], (Piece.mem_language one).mpr ⟨a, accepted, rfl⟩, s, rest, rfl⟩

theorem mem_star : s ∈ language same (.star :: m) ↔ ∃ t, t <:+ s ∧ t ∈ language same m := by
  rw [mem_cons]
  constructor
  · rintro ⟨x, -, t, rest, split⟩
    exact ⟨t, ⟨x, split⟩, rest⟩
  · rintro ⟨t, ⟨x, split⟩, rest⟩
    exact ⟨x, trivial, t, rest, split⟩

theorem mem_last_star : s ∈ language same [.star] := mem_star.mpr ⟨[], List.nil_suffix, mem_nil.mpr rfl⟩

theorem nil_mem_star : [] ∈ language same (.star :: m) ↔ [] ∈ language same m := by
  rw [mem_star]
  constructor
  · rintro ⟨t, suffix, rest⟩
    rwa [List.suffix_nil.mp suffix] at rest
  · exact fun rest => ⟨[], List.nil_suffix, rest⟩

/-- A star ends here, or it takes a letter. -/
theorem cons_mem_star :
    a :: s ∈ language same (.star :: m) ↔ a :: s ∈ language same m ∨ s ∈ language same (.star :: m) := by
  simp only [mem_star, List.suffix_cons_iff, or_and_right, exists_or, exists_eq_left]

theorem star_of_suffix (suffix : t <:+ s) (later : t ∈ language same (.star :: m)) : s ∈ language same (.star :: m) := by
  obtain ⟨x, inside, rest⟩ := mem_star.mp later
  exact mem_star.mpr ⟨x, inside.trans suffix, rest⟩

/-- Only stars stand for the empty string. -/
theorem nil_mem_iff : [] ∈ language same m ↔ ∀ p ∈ m, p = .star := by
  induction m with
  | nil => simp
  | cons p m ih =>
    rw [List.forall_mem_cons]
    by_cases star : p = .star
    · rw [star, nil_mem_star, ih]
      exact (and_iff_right rfl).symm
    · exact iff_of_false (nil_not_mem star) fun stars => star stars.1

/-! ## Between two stars -/

/-- Pieces without a star take one letter each. -/
theorem drop_mem (plain : .star ∉ u) (h : s ∈ language same (u ++ m)) :
    u.length ≤ s.length ∧ s.drop u.length ∈ language same m := by
  induction u generalizing s with
  | nil => exact ⟨Nat.zero_le _, h⟩
  | cons p u ih =>
    obtain ⟨one, plain⟩ := not_or.mp (mt List.mem_cons.mpr plain)
    cases s with
    | nil => exact absurd h (nil_not_mem (Ne.symm one))
    | cons a s =>
      obtain ⟨shorter, rest⟩ := ih plain ((cons_mem (Ne.symm one)).mp h).2
      exact ⟨Nat.succ_le_succ shorter, rest⟩

/-- The pieces `u` were taken from `x`, and nothing is left: what the star in front of them takes behind the first
letter of `x` is too short to hold them again. -/
theorem star_end (plain : .star ∉ u) (length : x.length = u.length) (behind : x.tail = cp)
    (h : cp ∈ language same (.star :: u ++ m)) : [] ∈ language same m := by
  obtain ⟨t, suffix, matched⟩ := mem_star.mp h
  have long := (drop_mem plain matched).1.trans suffix.length_le
  rw [← behind, List.length_tail] at long
  obtain rfl : x = [] := List.length_eq_zero_iff.mp (by omega)
  obtain rfl : u = [] := List.length_eq_zero_iff.mp length.symm
  subst behind
  exact nil_mem_star.mp h

/-- The last star is enough: what an earlier one could still take, the later one takes as well. -/
theorem later_star (plain : .star ∉ u) (length : x.length = u.length) (behind : (x ++ base).tail = cp)
    (h : cp ∈ language same (.star :: u ++ .star :: m)) : base ∈ language same (.star :: m) := by
  obtain ⟨t, suffix, matched⟩ := mem_star.mp h
  obtain ⟨-, rest⟩ := drop_mem plain matched
  refine star_of_suffix ?_ rest
  have whole : t <:+ x ++ base := suffix.trans (behind ▸ List.tail_suffix _)
  obtain ⟨y, split⟩ := whole
  have tail : (x ++ base).drop (y.length + u.length) = t.drop u.length := by
    rw [← split, ← List.drop_drop, List.drop_left]
  rw [← tail, ← length, Nat.add_comm, ← List.drop_drop, List.drop_left]
  exact List.drop_suffix _ _

end Glob
