import BerylDB.Doubles
import BerylDB.NumberTexts
import Mathlib.Data.List.DropRight

/-! # Floating point numbers as texts

`convto_num<double>` reads what `num_get` collects; `convto_string` prints with the default precision of a stream, which is
six significant digits. -/
namespace BerylDB.Doubles
open Text Decimals

/-- `convto_num<double>`: zero where the extraction fails. -/
def convtoNum (s : Bytes) : Double :=
  let n := scan (s.dropWhile isSpace)
  if n.readable = true ∧ n.magnitude < overflow then .round n.negative n.magnitude else .round false 0

/-- The six significant digits of a positive number, and the decimal exponent of the first. -/
def sixDigits (x : ℚ) : ℕ × ℤ :=
  let exponent := Int.log 10 x
  let digits := (roundEven (x / 10 ^ (exponent - 5))).toNat
  if digits = 10 ^ 6 then (10 ^ 5, exponent + 1) else (digits, exponent)

/-- A whole part and a fraction, without the zeros that end it. -/
def pointed (whole fraction : Bytes) : Bytes :=
  match fraction.rdropWhile (· == 48) with
  | [] => whole
  | c :: s => whole ++ 46 :: c :: s

/-- A sign and at least two digits. -/
def exponentText (exponent : ℤ) : Bytes :=
  let digits := convtoString exponent.natAbs
  (if exponent < 0 then 45 else 43) :: if digits.length < 2 then 48 :: digits else digits

/-- The conversion `%g`. -/
def magnitudeText (x : ℚ) : Bytes :=
  if x = 0 then [48]
  else
    let (number, exponent) := sixDigits x
    let digits := convtoString number
    if exponent < -4 ∨ 6 ≤ exponent then pointed (digits.take 1) (digits.drop 1) ++ 101 :: exponentText exponent
    else if exponent < 0 then pointed [48] (List.replicate (-exponent - 1).toNat 48 ++ digits)
    else pointed (digits.take (exponent + 1).toNat) (digits.drop (exponent + 1).toNat)

def signText (negative : Bool) : Bytes := if negative then [45] else []

/-- `convto_string<double>`; what is printed for a value that is not a number is up to the library. -/
def convtoString (nan : Bytes) : Double → Bytes
  | .nan => nan
  | .infinite negative => signText negative ++ lit "inf"
  | .finite negative magnitude _ => signText negative ++ magnitudeText magnitude

/-- The decimal text of an integer. -/
def decimalText (n : ℤ) : Bytes := signText (n < 0) ++ Text.convtoString n.natAbs

/-! ## Integers -/

section
variable {s : Bytes} {k : ℕ}

theorem convtoString_mul_pow (positive : 0 < k) (j : ℕ) :
    Text.convtoString (k * 10 ^ j) = Text.convtoString k ++ List.replicate j 48 := by
  have product : k * 10 ^ j ≠ 0 := by positivity
  rw [Text.convtoString, if_neg product, Text.convtoString, if_neg positive.ne', mul_comm,
    Nat.digits_base_pow_mul (by norm_num) positive, List.map_append, List.reverse_append, List.map_replicate,
    List.reverse_replicate]
  rfl

theorem length_convtoString (positive : 0 < k) : (Text.convtoString k).length = Nat.log 10 k + 1 := by
  rw [Text.convtoString, if_neg positive.ne', List.length_reverse, List.length_map,
    Nat.length_digits 10 k (by norm_num) positive.ne']

/-- The digits of an integer of six digits are its own, with zeros behind them. -/
theorem sixDigits_natCast (positive : 0 < k) (small : k < 10 ^ 6) :
    sixDigits k = (k * 10 ^ (5 - Nat.log 10 k), (Nat.log 10 k : ℤ)) := by
  have log : Nat.log 10 k < 6 := Nat.log_lt_of_lt_pow positive.ne' small
  have exact : (k : ℚ) / 10 ^ ((Nat.log 10 k : ℤ) - 5) = ((k * 10 ^ (5 - Nat.log 10 k) : ℕ) : ℤ) := by
    rw [div_eq_mul_inv, ← zpow_neg, show -((Nat.log 10 k : ℤ) - 5) = ((5 - Nat.log 10 k : ℕ) : ℤ) by omega, zpow_natCast]
    push_cast
    rfl
  have below : k * 10 ^ (5 - Nat.log 10 k) < 10 ^ 6 := by
    have : k < 10 ^ (Nat.log 10 k + 1) := Nat.lt_pow_succ_log_self (by norm_num) k
    calc k * 10 ^ (5 - Nat.log 10 k) < 10 ^ (Nat.log 10 k + 1) * 10 ^ (5 - Nat.log 10 k) :=
          Nat.mul_lt_mul_of_pos_right this (by positivity)
      _ = 10 ^ 6 := by
        rw [← pow_add]
        congr 1
        omega
  rw [sixDigits]
  simp only [Int.log_natCast, exact, roundEven_intCast, Int.toNat_natCast, below.ne, if_false]

theorem magnitudeText_natCast (small : k < 10 ^ 6) : magnitudeText k = Text.convtoString k := by
  rcases Nat.eq_zero_or_pos k with rfl | positive
  · simp [magnitudeText, Text.convtoString]
  · have log : Nat.log 10 k < 6 := Nat.log_lt_of_lt_pow positive.ne' small
    have nonzero : (k : ℚ) ≠ 0 := Nat.cast_ne_zero.mpr positive.ne'
    have whole : ((Nat.log 10 k : ℤ) + 1).toNat = (Text.convtoString k).length := by
      rw [length_convtoString positive]
      omega
    rw [magnitudeText, if_neg nonzero, sixDigits_natCast positive small]
    dsimp only
    rw [if_neg (by omega), if_neg (by omega), convtoString_mul_pow positive, whole, List.take_left, List.drop_left, pointed,
      List.rdropWhile_eq_nil_iff.mpr (by simp)]

/-- An integer of more than six digits is printed with an exponent. -/
theorem exponent_mem_magnitudeText (large : 10 ^ 6 ≤ k) : 101 ∈ magnitudeText k := by
  have positive : (k : ℚ) ≠ 0 := Nat.cast_ne_zero.mpr (by omega)
  have log : 6 ≤ Nat.log 10 k := (Nat.le_log_iff_pow_le (by norm_num) (by omega)).mpr large
  have exponent : 6 ≤ (sixDigits (k : ℚ)).2 := by
    simp only [sixDigits, Int.log_natCast]
    split
    · dsimp only
      omega
    · dsimp only
      omega
  rw [magnitudeText, if_neg positive]
  dsimp only
  rw [if_pos (.inr exponent)]
  simp

theorem isInteger_isNumber (integer : IsInteger s) : isNumber s true = true := by
  have accepted := isNumber_of_isInteger integer
  rw [isNumber_eq, List.all_eq_true] at accepted ⊢
  intro c here
  have digit := accepted c here
  simp only [isNumeral, Bool.false_and, Bool.false_or] at digit
  simp [isNumeral, digit]

theorem scan_integer (integer : IsInteger s) :
    scan s = ⟨(scanSigned s).negative, (scanSigned s).digits, [], none, []⟩ := by
  have ends : (takeSign s).2.dropWhile isDigit = [] := (isInteger_iff.mp integer).2
  simp only [scan, ends, takeFraction, takeExponent]
  rfl

/-- An integer that the format holds is read as it is. -/
theorem convtoNum_integer (integer : IsInteger s) (representable : Representable (digitsValue (scanSigned s).digits)) :
    convtoNum s = .finite (scanSigned s).negative (digitsValue (scanSigned s).digits) representable := by
  have scanned := scan_integer integer
  have magnitude : (scan s).magnitude = digitsValue (scanSigned s).digits := by
    rw [scanned]
    simp [Scanned.magnitude]
  have readable : (scan s).readable = true := by
    rw [scanned]
    simpa [Scanned.readable] using (isInteger_iff.mp integer).1
  rw [convtoNum, dropWhile_isSpace (isInteger_isNumber integer)]
  rw [if_pos ⟨readable, magnitude ▸ representable.lt_overflow⟩, magnitude, Double.round_natCast representable, scanned]

theorem scanSigned_decimalText (z : ℤ) :
    scanSigned (decimalText z) = ⟨decide (z < 0), Text.convtoString z.natAbs, []⟩ := by
  have digits : Digits (Text.convtoString z.natAbs) := fun _ here => isDigit_of_mem_convtoString here
  obtain ⟨taken, dropped⟩ := span_digits (b := []) digits (by simp)
  rw [List.append_nil] at taken dropped
  have signed : takeSign (decimalText z) = (decide (z < 0), Text.convtoString z.natAbs) := by
    unfold decimalText
    cases negative : decide (z < 0) with
    | true => rfl
    | false =>
      rw [signText, if_neg Bool.false_ne_true, List.nil_append]
      cases text : Text.convtoString z.natAbs with
      | nil => exact absurd text (convtoString_ne_nil _)
      | cons c s =>
        rw [text] at digits
        have unsigned : isSign c = false := digits.head_sign c rfl
        rw [takeSign, unsigned, if_neg Bool.false_ne_true]
  rw [scanSigned, signed]
  dsimp only
  rw [taken, dropped]

theorem isInteger_decimalText (z : ℤ) : IsInteger (decimalText z) := by
  rw [isInteger_iff, scanSigned_decimalText]
  exact ⟨convtoString_ne_nil _, rfl⟩

@[simp] theorem value_decimalText (z : ℤ) : (scanSigned (decimalText z)).value = z := by
  rw [scanSigned_decimalText, Signed.value, digitsValue_convtoString]
  dsimp only
  split
  · have : z < 0 := of_decide_eq_true ‹_›
    omega
  · have : ¬ z < 0 := of_decide_eq_false (Bool.eq_false_iff.mpr ‹_›)
    omega

theorem natAbs_value (n : Signed) : n.value.natAbs = digitsValue n.digits := by
  unfold Signed.value
  split <;> simp

theorem signed_value (n : Signed) : signed n.negative (digitsValue n.digits) = n.value := by
  unfold Signed.value signed
  split <;> simp

section
variable {t : Bytes} {z : ℤ} (left : IsInteger s) (right : IsInteger t) (leftSmall : (scanSigned s).value.natAbs < 2 ^ 53)
  (rightSmall : (scanSigned t).value.natAbs < 2 ^ 53) (small : z.natAbs < 2 ^ 53)
include left right leftSmall rightSmall

theorem add_integers (sum : (scanSigned s).value + (scanSigned t).value = z) : Double.add (convtoNum s) (convtoNum t) =
    .finite (if z = 0 then (scanSigned s).negative && (scanSigned t).negative else z < 0) z.natAbs
      (representable_nat small) := by
  rw [natAbs_value] at leftSmall rightSmall
  rw [convtoNum_integer left (representable_nat leftSmall), convtoNum_integer right (representable_nat rightSmall)]
  refine Double.add_exact ?_ small
  rw [signed_value, signed_value]
  exact_mod_cast sum

theorem sub_integers (sum : (scanSigned s).value - (scanSigned t).value = z) : Double.sub (convtoNum s) (convtoNum t) =
    .finite (if z = 0 then (scanSigned s).negative && !(scanSigned t).negative else z < 0) z.natAbs
      (representable_nat small) := by
  rw [natAbs_value] at leftSmall rightSmall
  rw [convtoNum_integer left (representable_nat leftSmall), convtoNum_integer right (representable_nat rightSmall),
    Double.sub, Double.neg]
  refine Double.add_exact ?_ small
  have opposite (negative : Bool) (x : ℚ) : signed (!negative) x = -signed negative x := by
    cases negative <;> simp [signed]
  rw [opposite, signed_value, signed_value, ← sub_eq_add_neg]
  exact_mod_cast sum

end

/-- What a sum is printed as is its decimal text if it has six digits and no negative zero. -/
theorem convtoString_iff (nan : Bytes) {z : ℤ} {negative : Bool} (representable : Representable z.natAbs) :
    convtoString nan (.finite (if z = 0 then negative else z < 0) z.natAbs representable) = decimalText z ↔
      z.natAbs < 10 ^ 6 ∧ ¬ (z = 0 ∧ negative = true) := by
  rw [convtoString, decimalText]
  rcases lt_or_ge z.natAbs (10 ^ 6) with small | large
  · rw [magnitudeText_natCast small]
    by_cases zero : z = 0
    · subst zero
      cases negative <;> simp [signText]
    · simpa [zero] using small
  · refine iff_of_false (fun same => ?_) fun h => absurd h.1 (Nat.not_lt.mpr large)
    have letter : (101 : UInt8) ∈ signText (z < 0) ++ Text.convtoString z.natAbs := by
      rw [← same]
      exact List.mem_append_right _ (exponent_mem_magnitudeText large)
    rcases List.mem_append.mp letter with sign | digits
    · unfold signText at sign
      split at sign <;> exact absurd sign (by decide)
    · exact absurd (isDigit_of_mem_convtoString digits) (by decide)

end

end BerylDB.Doubles
