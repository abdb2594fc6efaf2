import BerylDB.Text
import Mathlib.Algebra.Order.Field.Power
import Mathlib.Data.Rat.Cast.Order
import Mathlib.Tactic.Linarith
import Mathlib.Tactic.Positivity

/-! # Decimal texts

What `num_get` collects from a text for a number, and the grammar of a complete one. -/
namespace BerylDB.Decimals
open Text

def isSign (c : UInt8) : Bool := c == 45 || c == 43
def isExponent (c : UInt8) : Bool := c == 101 || c == 69

/-! ## The grammar -/

def Digits (s : Bytes) : Prop := ∀ c ∈ s, isDigit c = true
def OptionalSign (s : Bytes) : Prop := s = [] ∨ ∃ c, isSign c = true ∧ s = [c]

/-- An optionally signed non-empty sequence of digits. -/
def IsInteger (str : Bytes) : Prop :=
  ∃ sign digits, OptionalSign sign ∧ Digits digits ∧ digits ≠ [] ∧ str = sign ++ digits

/-- Digits with at most one point. -/
def IsMantissa (str : Bytes) : Prop :=
  Digits str ∧ str ≠ [] ∨ ∃ whole fraction, Digits whole ∧ Digits fraction ∧ whole ++ fraction ≠ [] ∧
    str = whole ++ 46 :: fraction

/-- A complete decimal number: an optional sign, digits with at most one point, and an optional exponent. -/
def IsDecimal (str : Bytes) : Prop :=
  ∃ sign mantissa, OptionalSign sign ∧ IsMantissa mantissa ∧
    (str = sign ++ mantissa ∨ ∃ letter exponent, isExponent letter = true ∧ IsInteger exponent ∧
      str = sign ++ mantissa ++ letter :: exponent)

/-! ## The conversions -/

/-- An optional sign: whether it is a minus, and what follows it. -/
def takeSign : Bytes → Bool × Bytes
  | [] => (false, [])
  | c :: s => if isSign c then (c == 45, s) else (false, c :: s)

/-- The point and the digits behind it. -/
def takeFraction : Bytes → Bytes × Bytes
  | [] => ([], [])
  | c :: s => if c = 46 then (s.takeWhile isDigit, s.dropWhile isDigit) else ([], c :: s)

/-- A signed sequence of digits, which `num_get` takes for an integer, and which follows the exponent letter. -/
structure Signed where
  negative : Bool
  digits : Bytes
  rest : Bytes

def scanSigned (s : Bytes) : Signed :=
  let (negative, s) := takeSign s
  { negative, digits := s.takeWhile isDigit, rest := s.dropWhile isDigit }

/-- What `num_get` takes for a floating point number. -/
structure Scanned where
  negative : Bool
  whole : Bytes
  fraction : Bytes
  exponent : Option Signed
  rest : Bytes

/-- The exponent letter counts only behind a digit. -/
def takeExponent (mantissa : Bytes) : Bytes → Option Signed × Bytes
  | [] => (none, [])
  | c :: s =>
    if isExponent c && mantissa ≠ [] then (some (scanSigned s), (scanSigned s).rest) else (none, c :: s)

def scan (s : Bytes) : Scanned :=
  let (negative, s) := takeSign s
  let whole := s.takeWhile isDigit
  let (fraction, s) := takeFraction (s.dropWhile isDigit)
  let (exponent, rest) := takeExponent (whole ++ fraction) s
  { negative, whole, fraction, exponent, rest }

/-- `strtod` takes all that was collected. -/
def Scanned.readable (n : Scanned) : Bool :=
  n.whole ++ n.fraction ≠ [] && n.exponent.all fun exponent => exponent.digits ≠ []

def Signed.value (n : Signed) : ℤ := if n.negative then -(digitsValue n.digits : ℤ) else digitsValue n.digits

/-- The number without its sign. -/
def Scanned.magnitude (n : Scanned) : ℚ :=
  digitsValue (n.whole ++ n.fraction) * 10 ^ ((n.exponent.map Signed.value).getD 0 - n.fraction.length)

def Scanned.value (n : Scanned) : ℚ := if n.negative then -n.magnitude else n.magnitude

/-! ## What is collected -/

section
variable {a b s sign str : Bytes} {c : UInt8}

theorem span_digits (digits : Digits a) (stops : ∀ c ∈ b.head?, isDigit c = false) :
    (a ++ b).takeWhile isDigit = a ∧ (a ++ b).dropWhile isDigit = b := by
  rw [List.takeWhile_append_of_pos digits, List.dropWhile_append_of_pos digits]
  cases b with
  | nil => exact ⟨List.append_nil a, rfl⟩
  | cons c b =>
    have stop : isDigit c = false := stops c rfl
    simp [stop]

theorem isDigit_of_isSign (sign : isSign c = true) : isDigit c = false := by
  simp only [isSign, Bool.or_eq_true, beq_iff_eq] at sign
  rcases sign with rfl | rfl <;> rfl

theorem isDigit_of_isExponent (letter : isExponent c = true) : isDigit c = false := by
  simp only [isExponent, Bool.or_eq_true, beq_iff_eq] at letter
  rcases letter with rfl | rfl <;> rfl

theorem takeSign_append (optional : OptionalSign sign) (stops : ∀ c ∈ s.head?, isSign c = false) :
    (takeSign (sign ++ s)).2 = s := by
  rcases optional with rfl | ⟨c, sign, rfl⟩
  · cases s with
    | nil => rfl
    | cons c s =>
      have stop : isSign c = false := stops c rfl
      simp [takeSign, stop]
  · simp [takeSign, sign]

theorem takeSign_split (s : Bytes) : ∃ sign, OptionalSign sign ∧ s = sign ++ (takeSign s).2 := by
  cases s with
  | nil => exact ⟨[], .inl rfl, rfl⟩
  | cons c s =>
    rw [takeSign]
    split
    · exact ⟨[c], .inr ⟨c, ‹_›, rfl⟩, rfl⟩
    · exact ⟨[], .inl rfl, rfl⟩

/-- A sign does not begin a sequence of digits. -/
theorem Digits.head_sign (digits : Digits a) : ∀ c ∈ a.head?, isSign c = false := by
  intro c head
  by_contra sign
  have digit := digits c (List.mem_of_mem_head? head)
  rw [isDigit_of_isSign (Bool.eq_true_of_not_eq_false sign)] at digit
  exact Bool.false_ne_true digit

theorem digits_takeWhile (s : Bytes) : Digits (s.takeWhile isDigit) := fun _ here => List.mem_takeWhile_imp here

/-- An integer is what `num_get` takes whole for a number. -/
theorem isInteger_iff : IsInteger str ↔ (scanSigned str).digits ≠ [] ∧ (scanSigned str).rest = [] := by
  constructor
  · rintro ⟨sign, digits, optional, all, nonempty, rfl⟩
    have rest := takeSign_append (s := digits) optional all.head_sign
    have whole := span_digits (b := []) all (by simp)
    rw [List.append_nil] at whole
    simp only [scanSigned, rest, whole]
    exact ⟨nonempty, trivial⟩
  · rintro ⟨nonempty, all⟩
    obtain ⟨sign, optional, split⟩ := takeSign_split str
    refine ⟨sign, (scanSigned str).digits, optional, digits_takeWhile _, nonempty, ?_⟩
    have whole : (takeSign str).2 = (scanSigned str).digits ++ (scanSigned str).rest := List.takeWhile_append_dropWhile.symm
    rw [all, List.append_nil] at whole
    rw [← whole]
    exact split

/-- The exponent that stands behind a mantissa, and nothing else. -/
def IsTail (tail : Bytes) : Prop :=
  tail = [] ∨ ∃ letter exponent, isExponent letter = true ∧ IsInteger exponent ∧ tail = letter :: exponent

theorem isDecimal_tail : IsDecimal str ↔
    ∃ sign mantissa tail, OptionalSign sign ∧ IsMantissa mantissa ∧ IsTail tail ∧ str = sign ++ (mantissa ++ tail) := by
  constructor
  · rintro ⟨sign, mantissa, optional, isMantissa, rfl | ⟨letter, exponent, isLetter, isInteger, rfl⟩⟩
    · exact ⟨sign, mantissa, [], optional, isMantissa, .inl rfl, by simp⟩
    · exact ⟨sign, mantissa, letter :: exponent, optional, isMantissa, .inr ⟨letter, exponent, isLetter, isInteger, rfl⟩,
        List.append_assoc _ _ _⟩
  · rintro ⟨sign, mantissa, tail, optional, isMantissa, rfl | ⟨letter, exponent, isLetter, isInteger, rfl⟩, rfl⟩
    · exact ⟨sign, mantissa, optional, isMantissa, .inl (by simp)⟩
    · exact ⟨sign, mantissa, optional, isMantissa, .inr ⟨letter, exponent, isLetter, isInteger,
        (List.append_assoc _ _ _).symm⟩⟩

theorem takeExponent_iff {mantissa : Bytes} (nonempty : mantissa ≠ []) : IsTail s ↔
    ((takeExponent mantissa s).1.all fun exponent => exponent.digits ≠ []) = true ∧ (takeExponent mantissa s).2 = [] := by
  cases s with
  | nil => exact iff_of_true (.inl rfl) ⟨rfl, rfl⟩
  | cons c s =>
    by_cases letter : isExponent c = true
    · rw [takeExponent, if_pos (by simp [letter, nonempty])]
      have tail : IsTail (c :: s) ↔ IsInteger s := by
        constructor
        · rintro (h | ⟨_, _, -, isInteger, ⟨⟩⟩)
          · exact nomatch h
          · exact isInteger
        · exact fun isInteger => .inr ⟨c, s, letter, isInteger, rfl⟩
      rw [tail, isInteger_iff]
      simp
    · rw [takeExponent, if_neg (by simp [letter])]
      refine iff_of_false ?_ fun h => nomatch h.2
      rintro (h | ⟨_, _, isLetter, -, ⟨⟩⟩)
      · exact nomatch h
      · exact letter isLetter

theorem IsTail.head (tail : IsTail s) : ∀ c ∈ s.head?, isDigit c = false ∧ c ≠ 46 := by
  rcases tail with rfl | ⟨letter, exponent, isLetter, -, rfl⟩
  · simp
  · rintro c ⟨⟩
    refine ⟨isDigit_of_isExponent isLetter, ?_⟩
    rintro rfl
    exact absurd isLetter (by decide)

theorem takeFraction_of_ne (other : ∀ c ∈ s.head?, c ≠ 46) : takeFraction s = ([], s) := by
  cases s with
  | nil => rfl
  | cons c s => exact if_neg (other c rfl)

/-- The mantissa is taken in front of a tail. -/
theorem IsMantissa.taken {mantissa : Bytes} (isMantissa : IsMantissa mantissa) (tail : IsTail s) :
    (mantissa ++ s).takeWhile isDigit ++ (takeFraction ((mantissa ++ s).dropWhile isDigit)).1 ≠ [] ∧
      (takeFraction ((mantissa ++ s).dropWhile isDigit)).2 = s := by
  have stops : ∀ c ∈ s.head?, isDigit c = false := fun c head => (tail.head c head).1
  rcases isMantissa with ⟨digits, nonempty⟩ | ⟨whole, fraction, hwhole, hfraction, nonempty, rfl⟩
  · obtain ⟨taken, dropped⟩ := span_digits digits stops
    rw [taken, dropped, takeFraction_of_ne fun c head => (tail.head c head).2]
    exact ⟨by simpa using nonempty, rfl⟩
  · obtain ⟨taken, dropped⟩ := span_digits (b := 46 :: (fraction ++ s)) hwhole (by simp [isDigit])
    obtain ⟨taken', dropped'⟩ := span_digits hfraction stops
    rw [List.append_assoc, List.cons_append, taken, dropped, takeFraction, if_pos rfl, taken', dropped']
    exact ⟨nonempty, rfl⟩

/-- What is taken for the mantissa is one, when it has a digit. -/
theorem isMantissa_of_taken (nonempty : s.takeWhile isDigit ++ (takeFraction (s.dropWhile isDigit)).1 ≠ []) :
    ∃ mantissa, IsMantissa mantissa ∧ s = mantissa ++ (takeFraction (s.dropWhile isDigit)).2 := by
  have split : s = s.takeWhile isDigit ++ s.dropWhile isDigit := List.takeWhile_append_dropWhile.symm
  cases rest : s.dropWhile isDigit with
  | nil =>
    rw [rest] at nonempty split
    exact ⟨s.takeWhile isDigit, .inl ⟨digits_takeWhile s, by simpa [takeFraction] using nonempty⟩, split⟩
  | cons c u =>
    rw [rest] at nonempty split
    by_cases point : c = 46
    · rw [takeFraction, if_pos point] at nonempty ⊢
      refine ⟨s.takeWhile isDigit ++ 46 :: u.takeWhile isDigit,
        .inr ⟨_, _, digits_takeWhile s, digits_takeWhile u, nonempty, rfl⟩, ?_⟩
      rw [List.append_assoc, List.cons_append, List.takeWhile_append_dropWhile, ← point]
      exact split
    · rw [takeFraction, if_neg point] at nonempty ⊢
      exact ⟨s.takeWhile isDigit, .inl ⟨digits_takeWhile s, by simpa using nonempty⟩, split⟩

theorem IsMantissa.head {mantissa : Bytes} (isMantissa : IsMantissa mantissa) :
    ∀ c ∈ (mantissa ++ s).head?, isSign c = false := by
  intro c head
  rcases isMantissa with ⟨digits, nonempty⟩ | ⟨whole, fraction, digits, -, -, rfl⟩
  · rw [List.head?_append_of_ne_nil _ nonempty] at head
    exact digits.head_sign c head
  · cases whole with
    | nil =>
      obtain rfl : 46 = c := by simpa using head
      rfl
    | cons d whole => exact digits.head_sign c (by simpa using head)

/-- A decimal number is what `num_get` takes whole and `strtod` reads. -/
theorem isDecimal_iff : IsDecimal str ↔ (scan str).readable = true ∧ (scan str).rest = [] := by
  have readable (n : Scanned) : n.readable = true ↔
      n.whole ++ n.fraction ≠ [] ∧ (n.exponent.all fun exponent => exponent.digits ≠ []) = true := by
    rw [Scanned.readable, Bool.and_eq_true, decide_eq_true_iff]
  rw [isDecimal_tail, readable]
  constructor
  · rintro ⟨sign, mantissa, tail, optional, isMantissa, isTail, rfl⟩
    have signed := takeSign_append (s := mantissa ++ tail) optional isMantissa.head
    obtain ⟨nonempty, left⟩ := isMantissa.taken isTail
    simp only [scan, signed, left]
    exact ⟨⟨nonempty, ((takeExponent_iff nonempty).mp isTail).1⟩, ((takeExponent_iff nonempty).mp isTail).2⟩
  · rintro ⟨⟨nonempty, exponent⟩, rest⟩
    obtain ⟨sign, optional, split⟩ := takeSign_split str
    obtain ⟨mantissa, isMantissa, left⟩ := isMantissa_of_taken (s := (takeSign str).2) nonempty
    exact ⟨sign, mantissa, _, optional, isMantissa, (takeExponent_iff nonempty).mpr ⟨exponent, rest⟩,
      split.trans (congrArg (sign ++ ·) left)⟩

end

/-! ## The number -/

/-- From here on `strtod` returns `HUGE_VAL`, and the extraction fails. -/
def overflow : ℚ := 2 ^ 1024 - 2 ^ 970

/-- `convto_num<double>` in front of its rounding: zero where the extraction fails. -/
def convtoDecimal (s : Bytes) : ℚ :=
  let n := scan (s.dropWhile isSpace)
  if n.readable = true ∧ n.magnitude < overflow then n.value else 0

theorem lt_overflow : (2 : ℚ) ^ 64 < overflow := by
  have large : (2 : ℚ) ^ 64 ≤ 2 ^ 970 := pow_le_pow_right₀ (by norm_num) (by norm_num)
  have split : overflow = 2 ^ 970 * (2 ^ 54 - 1) := by
    rw [overflow, mul_sub, mul_one, ← pow_add]
  rw [split]
  exact large.trans_lt (lt_mul_of_one_lt_right (by positivity) (by norm_num))

section
variable {s : Bytes} {n : Scanned}

theorem digitsValue_append (a b : Bytes) : digitsValue (a ++ b) = digitsValue a * 10 ^ b.length + digitsValue b := by
  rw [digitsValue, List.reverse_append, List.map_append, Nat.ofDigits_append, List.length_map, List.length_reverse]
  simp only [digitsValue]
  ring

theorem digitsValue_lt (digits : Digits s) : digitsValue s < 10 ^ s.length := by
  have small : ∀ d ∈ s.reverse.map fun c : UInt8 => c.toNat - 48, d < 10 := by
    intro d here
    obtain ⟨c, hc, rfl⟩ := List.mem_map.mp here
    have := (isDigit_iff c).mp (digits c (List.mem_reverse.mp hc))
    omega
  have := Nat.ofDigits_lt_base_pow_length (b := 10) (by decide) small
  rwa [List.length_map, List.length_reverse] at this

theorem magnitude_nonneg (n : Scanned) : 0 ≤ n.magnitude := by
  unfold Scanned.magnitude
  positivity

theorem digits_fraction (s : Bytes) : Digits (scan s).fraction := by
  have taken (s : Bytes) : Digits (takeFraction s).1 := by
    cases s with
    | nil => exact fun _ here => nomatch here
    | cons c s =>
      rw [takeFraction]
      split
      · exact digits_takeWhile s
      · exact fun _ here => nomatch here
  exact taken _

/-- A number without an exponent exceeds a bound by its whole part, or by its fraction. -/
theorem lt_magnitude_iff (bound : ℕ) (digits : Digits n.fraction) (plain : n.exponent = none) :
    (bound : ℚ) < n.magnitude ↔
      bound < digitsValue n.whole ∨ digitsValue n.whole = bound ∧ digitsValue n.fraction ≠ 0 := by
  have below := digitsValue_lt digits
  have scaled : n.magnitude = (digitsValue n.whole * 10 ^ n.fraction.length + digitsValue n.fraction : ℕ) /
      ((10 ^ n.fraction.length : ℕ) : ℚ) := by
    rw [Scanned.magnitude, plain, digitsValue_append, Option.map_none, Option.getD_none, zero_sub, zpow_neg, zpow_natCast,
      div_eq_mul_inv]
    push_cast
    rfl
  rw [scaled, lt_div_iff₀ (by positivity)]
  norm_cast
  generalize 10 ^ n.fraction.length = scale at below
  rcases lt_trichotomy bound (digitsValue n.whole) with more | same | less
  · have := Nat.mul_le_mul_right scale more
    rw [Nat.succ_mul] at this
    exact iff_of_true (by omega) (.inl more)
  · rw [← same]
    omega
  · have := Nat.mul_le_mul_right scale less
    rw [Nat.succ_mul] at this
    exact iff_of_false (by omega) (by omega)

theorem abs_value_le (bound : ℕ) (n : Scanned) : (-(bound : ℚ) ≤ n.value ∧ n.value ≤ bound) ↔ n.magnitude ≤ bound := by
  have positive := magnitude_nonneg n
  have natural : (0 : ℚ) ≤ bound := Nat.cast_nonneg bound
  unfold Scanned.value
  split <;> constructor <;> intro h
  · linarith [h.1]
  · exact ⟨by linarith, by linarith⟩
  · exact h.2
  · exact ⟨by linarith, h⟩

end

end BerylDB.Decimals
