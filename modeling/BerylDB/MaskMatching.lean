import BerylDB.Globs
import BerylDB.Text

/-! # Masks

`MatchInternal` remembers one star.  What is left to match is the rest of the mask where it stands, or the mask behind
that star one byte later. -/
namespace BerylDB.Text
open Glob

section
variable (charmap : CharMap)

/-- The second loop with so much fuel; `none` when the fuel does not reach its end. -/
def matchRestFrom : ℕ → (base wildcard mp cp : Bytes) → Option Bool
  | 0, _, _, _, _ => none
  | _ + 1, [], wildcard, _, _ => some (wildcard.dropWhile (· == 42)).isEmpty
  | fuel + 1, b :: base, 42 :: wildcard, _, _ =>
    if wildcard.isEmpty then some true else matchRestFrom fuel (b :: base) wildcard wildcard base
  | fuel + 1, b :: base, w :: wildcard, mp, cp =>
    if charmap.get w == charmap.get b || w == 63 then matchRestFrom fuel base wildcard mp cp
    else matchRestFrom fuel cp mp mp cp.tail
  | fuel + 1, _ :: _, [], mp, cp => matchRestFrom fuel cp mp mp cp.tail

/-- `MatchInternal` with so much fuel for its second loop. -/
def matchFrom (fuel : ℕ) : Bytes → Bytes → Option Bool
  | b :: base, w :: wildcard =>
    if w == 42 then matchRestFrom charmap fuel (b :: base) (w :: wildcard) [] []
    else if charmap.get w != charmap.get b && w != 63 then some false
    else matchFrom fuel base wildcard
  | _ :: _, [] => some false
  | [], wildcard => some (wildcard.dropWhile (· == 42)).isEmpty

/-- What a byte of a mask stands for. -/
def maskPiece (w : UInt8) : Piece UInt8 := if w = 42 then .star else if w = 63 then .any else .letter w

/-- The strings that a mask stands for. -/
def maskLanguage (mask : Bytes) : Language UInt8 :=
  language (fun w b => charmap.get w = charmap.get b) (mask.map maskPiece)

end

section
variable {charmap : CharMap} {w b : UInt8} {base wildcard mp cp s mask : Bytes} {fuel : ℕ}

@[simp] theorem maskPiece_star : maskPiece 42 = .star := rfl

theorem maskPiece_ne_star (other : w ≠ 42) : maskPiece w ≠ .star := by
  unfold maskPiece
  rw [if_neg other]
  split <;> simp

theorem star_not_mem (plain : 42 ∉ mask) : Piece.star ∉ mask.map maskPiece := by
  intro here
  obtain ⟨w, held, star⟩ := List.mem_map.mp here
  exact maskPiece_ne_star (fun same => plain (same ▸ held)) star

/-- The test of the loops for one byte. -/
theorem accepts_iff (other : w ≠ 42) :
    (maskPiece w).accepts (fun w b => charmap.get w = charmap.get b) b ↔
      (charmap.get w == charmap.get b || w == 63) = true := by
  unfold maskPiece
  rw [if_neg other]
  by_cases any : w = 63
  · simp [any, Piece.accepts]
  · simp [any, Piece.accepts]

theorem cons_mem_mask (other : w ≠ 42) :
    b :: base ∈ maskLanguage charmap (w :: wildcard) ↔
      (charmap.get w == charmap.get b || w == 63) = true ∧ base ∈ maskLanguage charmap wildcard := by
  rw [← accepts_iff other]
  exact cons_mem (maskPiece_ne_star other)

/-- The loop over the stars at the end of a mask. -/
theorem stars_only : (wildcard.dropWhile (· == 42)).isEmpty = true ↔ [] ∈ maskLanguage charmap wildcard := by
  unfold maskLanguage
  rw [nil_mem_iff, List.isEmpty_iff, List.dropWhile_eq_nil_iff, List.forall_mem_map]
  refine forall_congr' fun w => imp_congr_right fun _ => ?_
  by_cases star : w = 42
  · simp [star]
  · simp [star, maskPiece_ne_star star]

/-! ## One star to go back to -/

/-- `wildcard` stands behind the star in front of `mp`, and `base` behind as many bytes; `cp` is one byte behind the
place where these begin. -/
structure Aligned (base wildcard mp cp : Bytes) where
  seen : Bytes
  taken : Bytes
  mask : mp = seen ++ wildcard
  plain : 42 ∉ seen
  length : taken.length = seen.length
  behind : (taken ++ base).tail = cp

/-- What the second loop has to find out. -/
def Possible (charmap : CharMap) (base wildcard mp cp : Bytes) : Prop :=
  base ∈ maskLanguage charmap wildcard ∨ cp ∈ maskLanguage charmap (42 :: mp)

/-- Going back ends the star here or lets it take one byte more. -/
theorem possible_back (fails : base ∉ maskLanguage charmap wildcard) :
    Possible charmap base wildcard mp cp ↔ Possible charmap cp mp mp cp.tail := by
  unfold Possible
  rw [or_iff_right fails]
  cases cp with
  | nil => exact nil_mem_star.trans (or_iff_left_of_imp nil_mem_star.mp).symm
  | cons c cp => exact cons_mem_star

theorem aligned_back : Nonempty (Aligned cp mp mp cp.tail) := ⟨[], [], rfl, by simp, rfl, rfl⟩

namespace Aligned

theorem possible_nil (aligned : Aligned [] wildcard mp cp) :
    Possible charmap [] wildcard mp cp ↔ [] ∈ maskLanguage charmap wildcard := by
  refine or_iff_left_of_imp fun later => ?_
  obtain ⟨seen, taken, rfl, plain, length, behind⟩ := aligned
  unfold maskLanguage at later ⊢
  rw [List.map_cons, List.map_append] at later
  exact star_end (star_not_mem plain) (by simpa using length) (by simpa using behind) later

/-- At a new star the old one is forgotten. -/
theorem possible_star (aligned : Aligned (b :: base) (42 :: wildcard) mp cp) :
    Possible charmap (b :: base) (42 :: wildcard) mp cp ↔ Possible charmap (b :: base) wildcard wildcard base := by
  have forgotten : Possible charmap (b :: base) (42 :: wildcard) mp cp ↔
      b :: base ∈ maskLanguage charmap (42 :: wildcard) := by
    refine or_iff_left_of_imp fun later => ?_
    obtain ⟨seen, taken, rfl, plain, length, behind⟩ := aligned
    unfold maskLanguage at later ⊢
    rw [List.map_cons, List.map_append] at later
    exact later_star (star_not_mem plain) (by simpa using length) behind later
  exact forgotten.trans cons_mem_star

theorem next (aligned : Aligned (b :: base) (w :: wildcard) mp cp) (other : w ≠ 42) :
    Nonempty (Aligned base wildcard mp cp) := by
  obtain ⟨seen, taken, rfl, plain, length, behind⟩ := aligned
  refine ⟨seen ++ [w], taken ++ [b], by simp, ?_, by simp [length], by simpa using behind⟩
  simpa [plain] using other.symm

/-- The stars behind the one to go back to, and the bytes behind the place to go back to. -/
theorem stars (aligned : Aligned base wildcard mp cp) : mp.count 42 = wildcard.count 42 := by
  obtain ⟨seen, taken, rfl, plain, -, -⟩ := aligned
  rw [List.count_append, List.count_eq_zero.mpr plain, Nat.zero_add]

theorem length_le (aligned : Aligned base wildcard mp cp) : base.length ≤ cp.length + 1 := by
  obtain ⟨seen, taken, -, -, -, rfl⟩ := aligned
  rw [List.length_tail, List.length_append]
  omega

end Aligned

/-- The rounds of the second loop that are left, at most; `n` bounds the places to go back to. -/
def rounds (n : ℕ) (base wildcard cp : Bytes) : ℕ := cp.length * (n + 2) + base.length + wildcard.count 42

theorem rounds_back {n : ℕ} (stars : mp.count 42 = wildcard.count 42) (few : cp.length ≤ n) :
    rounds n cp mp cp.tail < rounds n (b :: base) wildcard cp := by
  unfold rounds
  rw [stars, List.length_cons, List.length_tail]
  cases cp with
  | nil => simp
  | cons c cp =>
    rw [List.length_cons] at few ⊢
    rw [Nat.add_sub_cancel, Nat.succ_mul]
    omega

/-- With enough fuel the second loop ends, and finds out what it has to. -/
theorem matchRestFrom_spec {n : ℕ} (aligned : Aligned base wildcard mp cp) (few : cp.length ≤ n)
    (enough : rounds n base wildcard cp < fuel) :
    ∃ found, matchRestFrom charmap fuel base wildcard mp cp = some found ∧
      (found = true ↔ Possible charmap base wildcard mp cp) := by
  induction fuel generalizing base wildcard mp cp with
  | zero => exact absurd enough (Nat.not_lt_zero _)
  | succ fuel ih =>
    have back {b : UInt8} {base : Bytes} (aligned : Aligned (b :: base) wildcard mp cp)
        (enough : rounds n (b :: base) wildcard cp < fuel + 1) (fails : b :: base ∉ maskLanguage charmap wildcard) :
        ∃ found, matchRestFrom charmap fuel cp mp mp cp.tail = some found ∧
          (found = true ↔ Possible charmap (b :: base) wildcard mp cp) := by
      obtain ⟨restart⟩ : Nonempty (Aligned cp mp mp cp.tail) := aligned_back
      have less : rounds n cp mp cp.tail < rounds n (b :: base) wildcard cp := rounds_back aligned.stars few
      obtain ⟨found, result, exact⟩ := ih restart ((List.length_tail ▸ Nat.sub_le _ _).trans few) (by omega)
      exact ⟨found, result, exact.trans (possible_back fails).symm⟩
    cases base with
    | nil =>
      rw [matchRestFrom]
      exact ⟨_, rfl, stars_only.trans aligned.possible_nil.symm⟩
    | cons b base =>
      cases wildcard with
      | nil =>
        rw [matchRestFrom]
        exact back aligned enough (by simp [maskLanguage])
      | cons w wildcard =>
        by_cases star : w = 42
        · subst star
          rw [matchRestFrom, aligned.possible_star]
          split
          · rename_i last
            rw [List.isEmpty_iff] at last
            subst last
            refine ⟨true, rfl, iff_of_true rfl ?_⟩
            exact cons_mem_star.mp mem_last_star
          · obtain ⟨start⟩ : Nonempty (Aligned (b :: base) wildcard wildcard base) :=
              ⟨[], [], rfl, by simp, rfl, rfl⟩
            have short : base.length ≤ cp.length := by simpa using aligned.length_le
            refine ih start (short.trans few) ?_
            have fewer : base.length * (n + 2) ≤ cp.length * (n + 2) := Nat.mul_le_mul_right _ short
            simp only [rounds, List.count_cons_self] at enough ⊢
            omega
        · rw [matchRestFrom]
          · split
            · rename_i accepted
              obtain ⟨onward⟩ : Nonempty (Aligned base wildcard mp cp) := aligned.next star
              have less : rounds n base wildcard cp < fuel := by
                simp only [rounds, List.length_cons, List.count_cons_of_ne star] at enough ⊢
                omega
              obtain ⟨found, result, exact⟩ := ih onward few less
              refine ⟨found, result, exact.trans ?_⟩
              unfold Possible
              rw [cons_mem_mask star, and_iff_right accepted]
            · rename_i refused
              exact back aligned enough fun matched => refused ((cons_mem_mask star).mp matched).1
          · exact fun same => star same

/-! ## From the beginning -/

theorem matchRest_eq :
    matchRest charmap fuel base wildcard mp cp = (matchRestFrom charmap fuel base wildcard mp cp).getD false := by
  fun_induction matchRest charmap fuel base wildcard mp cp <;> simp_all [matchRestFrom]

/-- At a star nothing of what is remembered matters. -/
theorem matchRestFrom_star :
    matchRestFrom charmap fuel (b :: base) (42 :: wildcard) [] [] =
      matchRestFrom charmap fuel (b :: base) (42 :: wildcard) (42 :: wildcard) base := by
  cases fuel with
  | zero => rfl
  | succ fuel => rw [matchRestFrom, matchRestFrom]

theorem first_star (charmap : CharMap) (enough : (base.length + wildcard.length + 4) ^ 2 ≤ fuel) :
    ∃ found, matchRestFrom charmap fuel (b :: base) (42 :: wildcard) [] [] = some found ∧
      (found = true ↔ b :: base ∈ maskLanguage charmap (42 :: wildcard)) := by
  have aligned : Aligned (b :: base) (42 :: wildcard) (42 :: wildcard) base := ⟨[], [], rfl, by simp, rfl, rfl⟩
  have few : rounds base.length (b :: base) (42 :: wildcard) base < fuel := by
    have stars : wildcard.count 42 ≤ wildcard.length := List.count_le_length
    refine lt_of_lt_of_le ?_ enough
    simp only [rounds, List.length_cons, List.count_cons_self]
    nlinarith
  obtain ⟨found, result, exact⟩ := matchRestFrom_spec aligned (Nat.le_refl _) few
  refine ⟨found, matchRestFrom_star.trans result, exact.trans ?_⟩
  exact aligned.possible_star.trans cons_mem_star.symm

/-- With enough fuel the loops end, and answer whether the string is one that the mask stands for. -/
theorem matchFrom_spec (enough : (s.length + mask.length + 4) ^ 2 ≤ fuel) :
    matchFrom charmap fuel s mask = some (matchHead charmap s mask) ∧
      (matchHead charmap s mask = true ↔ s ∈ maskLanguage charmap mask) := by
  induction s generalizing mask with
  | nil =>
    rw [matchFrom, matchHead]
    exact ⟨rfl, stars_only⟩
  | cons b base ih =>
    cases mask with
    | nil =>
      rw [matchFrom, matchHead]
      exact ⟨rfl, by simp [maskLanguage]⟩
    | cons w wildcard =>
      have shorter : (base.length + wildcard.length + 4) ^ 2 ≤ fuel :=
        (Nat.pow_le_pow_left (by simp only [List.length_cons]; omega) 2).trans enough
      rw [matchFrom, matchHead]
      by_cases star : w = 42
      · subst star
        simp only [beq_self_eq_true, if_true]
        rw [matchRest_eq]
        obtain ⟨found, result, exact⟩ := first_star charmap (b := b) shorter
        obtain ⟨found', result', exact'⟩ :=
          first_star charmap (b := b) (Nat.le_refl ((base.length + wildcard.length + 4) ^ 2))
        have agree : found = found' := Bool.eq_iff_iff.mpr (exact.trans exact'.symm)
        rw [result, result', ← agree]
        exact ⟨rfl, exact⟩
      · have other : (w == 42) = false := beq_false_of_ne star
        have refuses : (charmap.get w != charmap.get b && w != 63) = !(charmap.get w == charmap.get b || w == 63) := by
          rw [Bool.not_or]
          rfl
        simp only [other, Bool.false_eq_true, if_false, refuses]
        rw [cons_mem_mask star]
        cases accepted : charmap.get w == charmap.get b || w == 63 with
        | true => simpa using ih shorter
        | false => simp

end

/-- `Daemon::Match` ends, and answers whether the string is one that the mask stands for. -/
theorem mask_matching (charmap : CharMap) (str mask : Bytes) (plain : 0 ∉ str ∧ 0 ∉ mask) :
    (∃ fuel, matchFrom charmap fuel str mask = some (matchMask charmap str mask)) ∧
      (matchMask charmap str mask = true ↔ str ∈ maskLanguage charmap mask) := by
  unfold matchMask
  rw [cStr_eq_iff.mpr plain.1, cStr_eq_iff.mpr plain.2]
  obtain ⟨ends, exact⟩ := matchFrom_spec (Nat.le_refl ((str.length + mask.length + 4) ^ 2))
  exact ⟨⟨_, ends⟩, exact⟩

/-- The star is tried at three places before the rest of the mask fits. -/
theorem mask_matching_back :
    (∃ fuel, matchFrom .brld1459 fuel (lit "xaAbabC") (lit "x*ab?") = some true) ∧
      lit "xaAbabC" ∈ maskLanguage .brld1459 (lit "x*ab?") := by
  have matched : matchMask .brld1459 (lit "xaAbabC") (lit "x*ab?") = true := by decide
  obtain ⟨ends, exact⟩ := mask_matching .brld1459 (lit "xaAbabC") (lit "x*ab?") (by decide)
  exact ⟨matched ▸ ends, exact.mp matched⟩

end BerylDB.Text
