import BerylDB.Text

/-! # The texts of signed numbers

`conv_numeric`, which prints an `int` and a `long` by remainders that are not positive for negative numbers. -/
namespace BerylDB.Text

/-- The loop of `conv_numeric`, last digit first; no quotient leaves the type, and no remainder is the minimum. -/
def quotientDigits (quotient : ℤ) : Bytes :=
  if quotient = 0 then [] else (48 + (quotient.tmod 10).natAbs).toUInt8 :: quotientDigits (quotient.tdiv 10)
termination_by quotient.natAbs
decreasing_by
  rw [Int.natAbs_tdiv]
  exact Nat.div_lt_self (Int.natAbs_pos.mpr ‹_›) (by decide)

/-- `conv_numeric`. -/
def convNumeric (n : ℤ) : Bytes :=
  if n = 0 then [48] else (quotientDigits n ++ if n < 0 then [45] else []).reverse

/-- Decimal digits of a number without zeros in front. -/
structure Numeral (n : ℕ) (digits : Bytes) : Prop where
  decimal : ∀ c ∈ digits, isDigit c = true
  leading : digits.head? = some 48 → digits = [48]
  nonempty : digits ≠ []
  value : digitsValue digits = n

/-- A minus sign in front of a negative number, and its digits. -/
def Canonical (n : ℤ) (text : Bytes) : Prop :=
  ∃ digits, Numeral n.natAbs digits ∧ text = if n < 0 then 45 :: digits else digits

section
variable {n m : ℤ} {s text : Bytes}

theorem quotientDigits_eq (n : ℤ) : quotientDigits n = (Nat.digits 10 n.natAbs).map fun d => (48 + d).toUInt8 := by
  induction n using quotientDigits.induct with
  | case1 => simp [quotientDigits]
  | case2 n nonzero ih =>
    have digits : Nat.digits 10 n.natAbs = n.natAbs % 10 :: Nat.digits 10 (n.natAbs / 10) :=
      Nat.digits_def' (by decide) (Int.natAbs_pos.mpr nonzero)
    have quotient : (n.tdiv 10).natAbs = n.natAbs / 10 := Int.natAbs_tdiv n 10
    have remainder : (n.tmod 10).natAbs = n.natAbs % 10 := Int.natAbs_tmod n 10
    rw [quotientDigits, if_neg nonzero, ih, digits, List.map_cons, quotient, remainder]

/-- The digits are those of the absolute value. -/
theorem convNumeric_eq (n : ℤ) :
    convNumeric n = if n < 0 then 45 :: convtoString n.natAbs else convtoString n.natAbs := by
  rw [convNumeric, convtoString, quotientDigits_eq]
  by_cases zero : n = 0
  · simp [zero]
  · rw [if_neg zero, if_neg (Int.natAbs_ne_zero.mpr zero)]
    split <;> simp

@[simp] theorem convNumeric_natCast (n : ℕ) : convNumeric n = convtoString n := by
  rw [convNumeric_eq, if_neg (by omega), Int.natAbs_natCast]

theorem convtoString_numeral (n : ℕ) : Numeral n (convtoString n) := by
  refine ⟨fun c here => isDigit_of_mem_convtoString here, fun zero => ?_, convtoString_ne_nil n,
    digitsValue_convtoString n⟩
  unfold convtoString at zero ⊢
  split at zero
  · rw [if_pos ‹_›]
  · rename_i positive
    have nonempty : Nat.digits 10 n ≠ [] := Nat.digits_ne_nil_iff_ne_zero.mpr positive
    have last := Nat.getLast_digit_ne_zero 10 positive
    have small := Nat.digits_lt_base (by decide : 1 < 10) (List.getLast_mem nonempty)
    have injective : ∀ d < 10, (48 + d).toUInt8 = 48 → d = 0 := by decide
    rw [List.head?_reverse, List.getLast?_map, List.getLast?_eq_some_getLast nonempty, Option.map_some] at zero
    exact absurd (injective _ small (Option.some.inj zero)) last

/-- A minus sign in front of digits. -/
theorem readDigits_minus (digits : ∀ c ∈ s, isDigit c = true) : readDigits (45 :: s) = (true, s) := by
  have space : isSpace 45 = false := by decide
  have all : s.takeWhile isDigit = s := List.takeWhile_eq_self_iff.mpr digits
  rw [readDigits, List.dropWhile_cons_of_neg (by simp [space])]
  simp only [all]

/-- What is printed is read with its sign. -/
theorem readDigits_convNumeric (n : ℤ) : readDigits (convNumeric n) = (decide (n < 0), convtoString n.natAbs) := by
  rw [convNumeric_eq]
  have digits := (convtoString_numeral n.natAbs).decimal
  by_cases negative : n < 0
  · rw [if_pos negative, readDigits_minus digits, decide_eq_true negative]
  · rw [if_neg negative, readDigits_digits digits, decide_eq_false negative]

theorem value_convNumeric (n : ℤ) :
    (if decide (n < 0) = true then -(digitsValue (convtoString n.natAbs) : ℤ)
      else digitsValue (convtoString n.natAbs)) = n := by
  rw [digitsValue_convtoString]
  by_cases negative : n < 0
  · rw [if_pos (decide_eq_true negative), Int.ofNat_natAbs_of_nonpos negative.le, neg_neg]
  · rw [if_neg (by simpa using negative), Int.natAbs_of_nonneg (not_lt.mp negative)]

theorem convtoSigned_convNumeric (low : -2 ^ 31 ≤ n) (high : n < 2 ^ 31) : convtoSigned (convNumeric n) = n := by
  rw [convtoSigned, readDigits_convNumeric]
  dsimp only
  rw [value_convNumeric, if_neg]
  rintro (none | below | above)
  · exact convtoString_ne_nil _ none
  · exact absurd low (not_le.mpr below)
  · exact absurd high (not_lt.mpr above)

theorem convtoLong_convNumeric (low : -2 ^ 63 ≤ n) (high : n < 2 ^ 63) : convtoLong (convNumeric n) = n := by
  rw [convtoLong, readDigits_convNumeric]
  dsimp only
  rw [value_convNumeric, if_neg]
  rintro (none | below | above)
  · exact convtoString_ne_nil _ none
  · exact absurd low (not_le.mpr below)
  · exact absurd high (not_lt.mpr above)

/-- A number has one numeral. -/
theorem Numeral.eq_convtoString {k : ℕ} (h : Numeral k s) : s = convtoString k := by
  have small : ∀ c ∈ s, c.toNat - 48 < 10 ∧ (48 + (c.toNat - 48)).toUInt8 = c := fun c here => by
    obtain ⟨low, high⟩ := (isDigit_iff c).mp (h.decimal c here)
    refine ⟨by omega, ?_⟩
    rw [Nat.add_sub_cancel' low]
    exact UInt8.ofNat_toNat
  cases s with
  | nil => exact absurd rfl h.nonempty
  | cons c s =>
    by_cases zero : c = 48
    · have alone := h.leading (congrArg some zero)
      rw [← h.value, alone]
      decide
    · have first : c.toNat - 48 ≠ 0 := fun none => by
        have same := (small c List.mem_cons_self).2
        rw [none] at same
        exact zero same.symm
      have digits : Nat.digits 10 k = (c :: s).reverse.map fun c => c.toNat - 48 := by
        rw [← h.value]
        refine Nat.digits_ofDigits 10 (by decide) _ (fun d hd => ?_) fun _ => ?_
        · obtain ⟨c', here, rfl⟩ := List.mem_map.mp hd
          exact (small c' (List.mem_reverse.mp here)).1
        · simpa using first
      have positive : k ≠ 0 := fun none => by simp [none] at digits
      rw [convtoString, if_neg positive, digits, List.map_map, ← List.map_reverse, List.reverse_reverse]
      exact ((List.map_congr_left fun c here => (small c here).2).trans (List.map_id _)).symm

theorem canonical_iff : Canonical n text ↔ text = convNumeric n := by
  rw [convNumeric_eq]
  constructor
  · rintro ⟨digits, numeral, rfl⟩
    rw [numeral.eq_convtoString]
  · rintro rfl
    exact ⟨convtoString n.natAbs, convtoString_numeral _, rfl⟩

theorem convNumeric_injective : Function.Injective convNumeric := fun n m same => by
  have read := readDigits_convNumeric n
  rw [same, readDigits_convNumeric m] at read
  obtain ⟨sign, digits⟩ := Prod.mk.inj read
  rw [← value_convNumeric n, ← value_convNumeric m, sign, digits]

/-- Every `int` and every `long` is printed in the one decimal text that it has, and read back. -/
theorem decimal_conversion_exact :
    (∀ n : Int32, Canonical n.toInt (convNumeric n.toInt) ∧ convtoSigned (convNumeric n.toInt) = n.toInt) ∧
      (∀ n : Int64, Canonical n.toInt (convNumeric n.toInt) ∧ convtoLong (convNumeric n.toInt) = n.toInt) ∧
      ∀ n m : ℤ, n ≠ m → convNumeric n ≠ convNumeric m :=
  ⟨fun n => ⟨canonical_iff.mpr rfl, convtoSigned_convNumeric n.le_toInt n.toInt_lt⟩,
    fun n => ⟨canonical_iff.mpr rfl, convtoLong_convNumeric n.le_toInt n.toInt_lt⟩,
    fun _ _ => convNumeric_injective.ne⟩

end

end BerylDB.Text
