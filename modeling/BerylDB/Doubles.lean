import BerylDB.Decimals
import Mathlib.Data.Int.Log
import Mathlib.Data.Rat.Floor

/-! # Floating point numbers of 64 bits

A sign and a magnitude, which the operations round to the nearest of the format, to an even significand in the middle. -/
namespace BerylDB.Doubles

/-- The nearest integer, the even one in the middle of two. -/
def roundEven (x : ℚ) : ℤ :=
  let low := ⌊x⌋
  if x - low < 1 / 2 ∨ x - low = 1 / 2 ∧ low % 2 = 0 then low else low + 1

/-- What the format holds: a significand of 53 bits, and an exponent for its last place. -/
def Representable (x : ℚ) : Prop := ∃ (m : ℕ) (e : ℤ), m < 2 ^ 53 ∧ -1074 ≤ e ∧ e ≤ 971 ∧ x = m * 2 ^ e

/-- The exponent of the last place that a magnitude is rounded to. -/
def lastPlace (x : ℚ) : ℤ := max (Int.log 2 x - 52) (-1074)

def nearest (x : ℚ) : ℚ := roundEven (x / 2 ^ lastPlace x) * 2 ^ lastPlace x

section
variable {x : ℚ} {n : ℤ}

theorem abs_roundEven_sub_le (x : ℚ) : |(roundEven x : ℚ) - x| ≤ 1 / 2 := by
  have low := Int.floor_le x
  have high := Int.lt_floor_add_one x
  simp only [roundEven]
  split
  · have : x - ⌊x⌋ ≤ 1 / 2 := by
      rcases ‹_ ∨ _› with less | ⟨same, -⟩
      · exact less.le
      · exact same.le
    rw [abs_sub_comm, abs_le]
    constructor <;> linarith
  · have : 1 / 2 ≤ x - ⌊x⌋ := by
      by_contra less
      exact ‹¬ _› (Or.inl (not_le.mp less))
    push_cast
    rw [abs_le]
    constructor <;> linarith

theorem roundEven_lt (below : x < n - 1 / 2) : roundEven x < n := by
  have := (abs_le.mp (abs_roundEven_sub_le x)).2
  exact_mod_cast (by linarith : (roundEven x : ℚ) < n)

theorem roundEven_le (below : x ≤ n) : roundEven x ≤ n := by
  have := (abs_le.mp (abs_roundEven_sub_le x)).2
  exact Int.lt_add_one_iff.mp (by exact_mod_cast (by linarith : (roundEven x : ℚ) < n + 1))

theorem le_roundEven (above : n ≤ x) : n ≤ roundEven x := by
  have := (abs_le.mp (abs_roundEven_sub_le x)).1
  exact Int.lt_add_one_iff.mp (by exact_mod_cast (by linarith : (n : ℚ) < roundEven x + 1))

@[simp] theorem roundEven_intCast (n : ℤ) : roundEven n = n :=
  (roundEven_le le_rfl).antisymm (le_roundEven le_rfl)

/-! ## The format -/

theorem lt_lastPlace (positive : 0 ≤ x) : x < 2 ^ (lastPlace x + 53) := by
  rcases positive.eq_or_lt with rfl | positive
  · positivity
  · have log := Int.lt_zpow_succ_log_self (R := ℚ) (b := 2) (by norm_num) x
    refine log.trans_le (zpow_le_zpow_right₀ (by norm_num) ?_)
    have := le_max_left (Int.log 2 x - 52) (-1074)
    rw [lastPlace]
    omega

theorem lastPlace_le (small : x < Decimals.overflow) : lastPlace x ≤ 971 := by
  have : x < (2 : ℚ) ^ (1024 : ℤ) := small.trans_le (sub_le_self _ (by positivity))
  rcases lt_or_ge 0 x with positive | negative
  · have log := (Int.lt_zpow_iff_log_lt (b := 2) (by norm_num) positive).mp this
    rw [lastPlace]
    omega
  · rw [lastPlace, Int.log_of_right_le_zero _ negative]
    decide

theorem representable_nat {m : ℕ} (small : m < 2 ^ 53) : Representable m :=
  ⟨m, 0, small, by norm_num, by norm_num, by simp⟩

/-- The middle between the largest number and the power of two behind it. -/
theorem overflow_eq : Decimals.overflow = ((2 ^ 53 : ℤ) - 1 / 2) * 2 ^ (971 : ℤ) := by
  have last : (2 : ℚ) ^ (971 : ℤ) = 2 ^ 970 * 2 := (zpow_natCast 2 (970 + 1)).trans (pow_succ 2 970)
  have top : (2 : ℚ) ^ 1024 = 2 ^ 54 * 2 ^ 970 := pow_add 2 54 970
  rw [Decimals.overflow, last, top]
  generalize (2 : ℚ) ^ 970 = unit
  push_cast
  ring

/-- Rounding stays in the format. -/
theorem representable_nearest (positive : 0 ≤ x) (small : x < Decimals.overflow) : Representable (nearest x) := by
  have unit : (0 : ℚ) < 2 ^ lastPlace x := by positivity
  have exponent := lastPlace_le small
  have lowest : -1074 ≤ lastPlace x := le_max_right _ _
  have start : 0 ≤ roundEven (x / 2 ^ lastPlace x) := le_roundEven (by push_cast; positivity)
  obtain ⟨m, significand⟩ := Int.eq_ofNat_of_zero_le start
  have scaled : x / 2 ^ lastPlace x < 2 ^ 53 := by
    rw [div_lt_iff₀ unit, ← zpow_natCast (2 : ℚ) 53, ← zpow_add₀ (by norm_num), add_comm]
    exact lt_lastPlace positive
  have carry : m ≤ 2 ^ 53 := by
    have := roundEven_le (n := 2 ^ 53) (x := x / 2 ^ lastPlace x) (by push_cast; exact scaled.le)
    omega
  rw [nearest, significand]
  rcases carry.lt_or_eq with less | same
  · exact ⟨m, lastPlace x, less, lowest, exponent, by norm_cast⟩
  · -- rounded up to the next power of two, which the largest numbers in front of the overflow are not
    have lower : lastPlace x ≠ 971 := by
      intro top
      have below : x / 2 ^ lastPlace x < (2 ^ 53 : ℤ) - 1 / 2 := by
        rw [div_lt_iff₀ unit, top]
        exact small.trans_le overflow_eq.le
      have := roundEven_lt below
      omega
    refine ⟨2 ^ 52, lastPlace x + 1, by norm_num, by omega, by omega, ?_⟩
    rw [same, zpow_add_one₀ (by norm_num)]
    push_cast
    ring

/-- A number of the format is not rounded. -/
theorem nearest_of_representable (representable : Representable x) : nearest x = x := by
  obtain ⟨m, e, significand, low, -, rfl⟩ := representable
  have unit : (2 : ℚ) ^ lastPlace (m * 2 ^ e) ≠ 0 := by positivity
  have place : m = 0 ∨ lastPlace (m * 2 ^ e) ≤ e := by
    rcases Nat.eq_zero_or_pos m with zero | positive
    · exact .inl zero
    · refine .inr (max_le ?_ low)
      have below : (m : ℚ) * 2 ^ e < 2 ^ (e + 53) := by
        rw [zpow_add₀ (by norm_num), mul_comm]
        exact mul_lt_mul_of_pos_left (by exact_mod_cast significand) (by positivity)
      have := (Int.lt_zpow_iff_log_lt (b := 2) (by norm_num) (by positivity)).mp below
      omega
  rcases place with rfl | place
  · simp [nearest, roundEven]
  · obtain ⟨d, apart⟩ := Int.eq_ofNat_of_zero_le (sub_nonneg.mpr place)
    have whole : (m : ℚ) * 2 ^ e / 2 ^ lastPlace (m * 2 ^ e) = ((m * 2 ^ d : ℤ) : ℚ) := by
      rw [mul_div_assoc, ← zpow_sub₀ (by norm_num), apart]
      push_cast
      rw [zpow_natCast]
    rw [nearest, whole, roundEven_intCast, ← whole, div_mul_cancel₀ _ unit]

theorem Representable.lt_overflow (representable : Representable x) : x < Decimals.overflow := by
  obtain ⟨m, e, significand, -, high, rfl⟩ := representable
  have largest : (m : ℚ) ≤ 2 ^ 53 - 1 := by
    have : ((m + 1 : ℕ) : ℚ) ≤ ((2 ^ 53 : ℕ) : ℚ) := Nat.cast_le.mpr significand
    push_cast at this
    linarith
  rw [overflow_eq]
  calc (m : ℚ) * 2 ^ e ≤ (2 ^ 53 - 1) * 2 ^ (971 : ℤ) :=
        mul_le_mul largest (zpow_le_zpow_right₀ (by norm_num) high) (by positivity) (by norm_num)
    _ < _ := mul_lt_mul_of_pos_right (by norm_num) (by positivity)

end

/-! ## The numbers -/

inductive Double where
  | nan
  | infinite (negative : Bool)
  | finite (negative : Bool) (magnitude : ℚ) (representable : Representable magnitude)

def signed (negative : Bool) (magnitude : ℚ) : ℚ := if negative then -magnitude else magnitude

namespace Double

/-- The number nearest to a magnitude, infinite from the overflow on. -/
def round (negative : Bool) (x : ℚ) : Double :=
  if small : |x| < Decimals.overflow then
    .finite negative (nearest |x|) (representable_nearest (abs_nonneg x) small)
  else .infinite negative

def neg : Double → Double
  | .nan => .nan
  | .infinite n => .infinite !n
  | .finite n x h => .finite (!n) x h

/-- A sum of zero is negative only when both numbers are. -/
def add : Double → Double → Double
  | .finite n x _, .finite m y _ =>
    let sum := signed n x + signed m y
    round (if sum = 0 then n && m else sum < 0) sum
  | .infinite n, .infinite m => if n = m then .infinite n else .nan
  | .infinite n, .finite .. => .infinite n
  | .finite .., .infinite m => .infinite m
  | .nan, _ => .nan
  | _, .nan => .nan

def sub (a b : Double) : Double := add a b.neg

def mul : Double → Double → Double
  | .finite n x _, .finite m y _ => round (n != m) (x * y)
  | .infinite n, .infinite m => .infinite (n != m)
  | .infinite n, .finite m y _ => if y = 0 then .nan else .infinite (n != m)
  | .finite n x _, .infinite m => if x = 0 then .nan else .infinite (n != m)
  | .nan, _ => .nan
  | _, .nan => .nan

def div : Double → Double → Double
  | .finite n x _, .finite m y _ =>
    if y = 0 then if x = 0 then .nan else .infinite (n != m) else round (n != m) (x / y)
  | .infinite n, .finite m _ _ => .infinite (n != m)
  | .finite n _ _, .infinite m => round (n != m) 0
  | .infinite _, .infinite _ => .nan
  | .nan, _ => .nan
  | _, .nan => .nan

def le : Double → Double → Bool
  | .finite n x _, .finite m y _ => signed n x ≤ signed m y
  | .infinite n, .infinite m => n || !m
  | .infinite n, .finite .. => n
  | .finite .., .infinite m => !m
  | .nan, _ => false
  | _, .nan => false

def lt (a b : Double) : Bool := le a b && !le b a

/-! ## Exact results -/

section
variable {n m negative : Bool} {x y : ℚ} {z : ℤ} {k : ℕ} {hx : Representable x} {hy : Representable y}

theorem round_of_representable (representable : Representable |x|) : round negative x = .finite negative |x| representable := by
  rw [round, dif_pos representable.lt_overflow]
  congr 1
  exact nearest_of_representable representable

/-- Integers that the format holds are not rounded. -/
theorem round_natCast (representable : Representable k) : round negative k = .finite negative k representable := by
  have : |(k : ℚ)| = k := Nat.abs_cast k
  rw [round_of_representable (by rwa [this])]
  congr 1

theorem add_exact (sum : signed n x + signed m y = z) (small : z.natAbs < 2 ^ 53) :
    add (.finite n x hx) (.finite m y hy) =
      .finite (if z = 0 then n && m else z < 0) z.natAbs (representable_nat small) := by
  have magnitude : |(z : ℚ)| = z.natAbs := by rw [Nat.cast_natAbs, Int.cast_abs]
  rw [add]
  simp only [sum, Int.cast_eq_zero, Int.cast_lt_zero]
  rw [round_of_representable (by rw [magnitude]; exact representable_nat small)]
  congr 1

end

/-! ## The order -/

section
variable {a b : Double}

theorem le_or_le (number : a ≠ .nan) (number' : b ≠ .nan) : le a b = true ∨ le b a = true := by
  cases a with
  | nan => exact absurd rfl number
  | infinite n =>
    cases b with
    | nan => exact absurd rfl number'
    | infinite m => cases n <;> cases m <;> decide
    | finite m y => cases n <;> simp [le]
  | finite n x =>
    cases b with
    | nan => exact absurd rfl number'
    | infinite m => cases m <;> simp [le]
    | finite m y => simpa [le] using le_total (signed n x) (signed m y)

/-- Only what is not a number is neither less nor greater. -/
theorem lt_iff (number : a ≠ .nan) (number' : b ≠ .nan) : lt a b = true ↔ ¬ le b a = true := by
  rw [lt, Bool.and_eq_true, Bool.not_eq_true', Bool.not_eq_true]
  refine ⟨And.right, fun h => ⟨?_, h⟩⟩
  rcases le_or_le number number' with first | second
  · exact first
  · rw [h] at second
    exact absurd second Bool.false_ne_true

theorem not_le_of_lt (less : lt a b = true) : ¬ le b a = true := by
  rw [lt, Bool.and_eq_true, Bool.not_eq_true'] at less
  rw [less.2]
  exact Bool.false_ne_true

theorem not_le_nan (a : Double) : ¬ le a .nan = true := by cases a <;> exact Bool.false_ne_true

theorem not_nan_lt (a : Double) : ¬ lt .nan a = true := by cases a <;> exact Bool.false_ne_true

theorem round_ne_nan (negative : Bool) (x : ℚ) : round negative x ≠ .nan := by
  unfold round
  split <;> exact Double.noConfusion

end
end Double
end BerylDB.Doubles
