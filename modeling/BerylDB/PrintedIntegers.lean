import BerylDB.DoubleTexts

/-! # Printed integers

What a text with an exponent denotes, and which integers six significant digits are enough for. -/
namespace BerylDB.Doubles
open Text Decimals

/-- The text is a complete decimal number, and the number is `v`. -/
structure Denotes (text : Bytes) (v : ℚ) : Prop where
  decimal : IsDecimal text
  value : (scan text).value = v

/-- At most six digits with zeros behind them. -/
def SixSignificant (n : ℕ) : Prop := ∃ m j, m < 10 ^ 6 ∧ n = m * 10 ^ j

/-! ## Reading -/

section
variable {s t digits : Bytes} {negative : Bool} {c : UInt8} {e : ℤ} {v : ℚ}

theorem scan_signText (stops : ∀ c ∈ t.head?, isSign c = false) :
    scan (signText negative ++ t) = { scan t with negative } := by
  have unsigned : takeSign t = (false, t) := by
    cases t with
    | nil => rfl
    | cons c t => rw [takeSign, stops c rfl, if_neg Bool.false_ne_true]
  have signed : takeSign (signText negative ++ t) = (negative, t) := by
    cases negative with
    | true => rfl
    | false => exact unsigned
  rw [scan, scan, signed, unsigned]

theorem scanSigned_exponentText (e : ℤ) : (scanSigned (exponentText e)).value = e ∧
    (scanSigned (exponentText e)).digits ≠ [] ∧ (scanSigned (exponentText e)).rest = [] := by
  obtain ⟨digits, text, all, nonempty, value⟩ : ∃ digits, exponentText e = (if e < 0 then 45 else 43) :: digits ∧
      Digits digits ∧ digits ≠ [] ∧ digitsValue digits = e.natAbs := by
    have all : Digits (Text.convtoString e.natAbs) := fun _ here => isDigit_of_mem_convtoString here
    refine ⟨_, rfl, ?_⟩
    split
    · refine ⟨fun c here => (List.mem_cons.mp here).elim (fun zero => zero ▸ rfl) (all c), List.cons_ne_nil _ _, ?_⟩
      have leading := digitsValue_append [48] (Text.convtoString e.natAbs)
      rw [digitsValue_convtoString, show digitsValue [48] = 0 from rfl, zero_mul, zero_add] at leading
      exact leading
    · exact ⟨all, convtoString_ne_nil _, digitsValue_convtoString _⟩
  obtain ⟨taken, dropped⟩ := span_digits (b := []) all (by simp)
  rw [List.append_nil] at taken dropped
  have scanned : scanSigned (exponentText e) = ⟨e < 0, digits, []⟩ := by
    rw [scanSigned, text]
    by_cases negative : e < 0
    · simp [takeSign, isSign, negative, taken, dropped]
    · simp [takeSign, isSign, negative, taken, dropped]
  rw [scanned, Signed.value]
  refine ⟨?_, nonempty, rfl⟩
  dsimp only
  rw [value]
  split
  · have : e < 0 := of_decide_eq_true ‹_›
    omega
  · have : ¬ e < 0 := of_decide_eq_false (Bool.eq_false_iff.mpr ‹_›)
    omega

theorem isDigit_of_rdropWhile (all : Digits digits) : Digits (digits.rdropWhile (· == 48)) :=
  fun c here => all c ((List.rdropWhile_prefix _ _).subset here)

/-- A digit, further digits and an exponent. -/
theorem scan_pointed (digit : isDigit c = true) (all : Digits digits) (e : ℤ) :
    scan (pointed [c] digits ++ 101 :: exponentText e) =
      ⟨false, [c], digits.rdropWhile (· == 48), some (scanSigned (exponentText e)), []⟩ := by
  have unsigned : isSign c = false := Digits.head_sign (a := [c]) (fun _ here => List.mem_singleton.mp here ▸ digit) c rfl
  have exponent (mantissa : Bytes) (nonempty : mantissa ≠ []) :
      takeExponent mantissa (101 :: exponentText e) = (some (scanSigned (exponentText e)), []) := by
    rw [takeExponent, if_pos (by simpa [isExponent] using nonempty), (scanSigned_exponentText e).2.2]
  have single : Digits [c] := fun _ here => List.mem_singleton.mp here ▸ digit
  rw [pointed]
  have kept := isDigit_of_rdropWhile all
  cases rest : digits.rdropWhile (· == 48) with
  | nil =>
    obtain ⟨taken, dropped⟩ := span_digits (b := 101 :: exponentText e) single (by simp; rfl)
    have scanned : takeSign ([c] ++ 101 :: exponentText e) = (false, [c] ++ 101 :: exponentText e) := by
      rw [List.singleton_append, takeSign, unsigned, if_neg Bool.false_ne_true]
    rw [scan, scanned]
    dsimp only
    rw [taken, dropped, takeFraction, if_neg (by decide)]
    dsimp only
    rw [List.append_nil, exponent _ (List.cons_ne_nil _ _)]
  | cons d s =>
    rw [rest] at kept
    obtain ⟨taken, dropped⟩ := span_digits (b := 46 :: d :: s ++ 101 :: exponentText e) single (by simp; rfl)
    obtain ⟨fraction, behind⟩ := span_digits (b := 101 :: exponentText e) kept (by simp; rfl)
    have scanned : takeSign ([c] ++ 46 :: d :: s ++ 101 :: exponentText e) =
        (false, [c] ++ (46 :: d :: s ++ 101 :: exponentText e)) := by
      rw [List.append_assoc, List.singleton_append, takeSign, unsigned, if_neg Bool.false_ne_true]
    rw [scan, scanned]
    dsimp only
    rw [taken, dropped, List.cons_append, takeFraction, if_pos rfl, fraction, behind]
    dsimp only
    rw [exponent ([c] ++ d :: s) (List.cons_ne_nil _ _)]

theorem digitsValue_zeros (n : ℕ) : digitsValue (List.replicate n 48) = 0 := by
  induction n with
  | zero => rfl
  | succ n ih =>
    rw [List.replicate_succ, ← List.singleton_append, digitsValue_append, ih, show digitsValue [48] = 0 from rfl, zero_mul]

/-- The zeros that are left out change nothing. -/
theorem magnitude_pointed (digit : isDigit c = true) (all : Digits digits) (e : ℤ) :
    (scan (pointed [c] digits ++ 101 :: exponentText e)).magnitude = digitsValue (c :: digits) * 10 ^ (e - digits.length) := by
  obtain ⟨n, zeros⟩ : ∃ n, digits = digits.rdropWhile (· == 48) ++ List.replicate n 48 := by
    refine ⟨(digits.rtakeWhile (· == 48)).length, ?_⟩
    have zeros := List.eq_replicate_of_mem fun c (here : c ∈ digits.rtakeWhile (· == 48)) =>
      beq_iff_eq.mp (List.mem_rtakeWhile_imp (p := (· == 48)) here)
    rw [← zeros, List.rdropWhile, List.rtakeWhile, ← List.reverse_append, List.takeWhile_append_dropWhile,
      List.reverse_reverse]
  rw [scan_pointed digit all, Scanned.magnitude, Option.map_some, Option.getD_some, (scanSigned_exponentText e).1]
  have value : digitsValue (c :: digits) = digitsValue ([c] ++ digits.rdropWhile (· == 48)) * 10 ^ n := by
    conv_lhs => rw [zeros, ← List.singleton_append, ← List.append_assoc, digitsValue_append, List.length_replicate,
      digitsValue_zeros, add_zero]
  have length : digits.length = (digits.rdropWhile (· == 48)).length + n := by
    conv_lhs => rw [zeros, List.length_append, List.length_replicate]
  rw [value, length]
  push_cast
  rw [mul_assoc, ← zpow_natCast, ← zpow_add₀ (by norm_num)]
  congr 2
  omega

end

/-! ## Printing -/

section
variable {k j : ℕ} {negative : Bool}

theorem sixDigits_scaled (log : Nat.log 10 k = j + 5) : sixDigits k =
    if (roundEven ((k : ℚ) / (10 ^ j : ℕ))).toNat = 10 ^ 6 then (10 ^ 5, (j : ℤ) + 6)
    else ((roundEven ((k : ℚ) / (10 ^ j : ℕ))).toNat, (j : ℤ) + 5) := by
  have scale : (10 : ℚ) ^ (((j + 5 : ℕ) : ℤ) - 5) = ((10 ^ j : ℕ) : ℚ) := by
    rw [show ((j + 5 : ℕ) : ℤ) - 5 = j by omega, zpow_natCast]
    push_cast
    rfl
  simp only [sixDigits, Int.log_natCast, log, scale]
  push_cast
  rfl

theorem log_large (large : 10 ^ 6 ≤ k) : ∃ j, Nat.log 10 k = j + 5 ∧ 1 ≤ j ∧ 10 ^ 5 * 10 ^ j ≤ k ∧ k < 10 ^ 6 * 10 ^ j := by
  have log : 6 ≤ Nat.log 10 k := (Nat.le_log_iff_pow_le (by norm_num) (by omega)).mpr large
  have low : 10 ^ Nat.log 10 k ≤ k := Nat.pow_log_le_self 10 (by omega)
  have high : k < 10 ^ (Nat.log 10 k + 1) := Nat.lt_pow_succ_log_self (by norm_num) k
  obtain ⟨j, same⟩ : ∃ j, Nat.log 10 k = j + 5 := ⟨Nat.log 10 k - 5, by omega⟩
  rw [same, pow_add, mul_comm] at low
  rw [same, show j + 5 + 1 = j + 6 from rfl, pow_add, mul_comm] at high
  exact ⟨j, same, by omega, low, high⟩

/-- Six digits, and a first one that stands at least in the seventh place. -/
theorem sixDigits_range (large : 10 ^ 6 ≤ k) :
    10 ^ 5 ≤ (sixDigits k).1 ∧ (sixDigits k).1 < 10 ^ 6 ∧ 6 ≤ (sixDigits k).2 := by
  obtain ⟨j, log, positive, low, high⟩ := log_large large
  have atLeast : 10 ^ 5 ≤ roundEven ((k : ℚ) / (10 ^ j : ℕ)) := by
    refine le_roundEven ?_
    rw [le_div_iff₀ (by positivity)]
    exact_mod_cast low
  have atMost : roundEven ((k : ℚ) / (10 ^ j : ℕ)) ≤ 10 ^ 6 := by
    refine roundEven_le ?_
    rw [div_le_iff₀ (by positivity)]
    exact_mod_cast high.le
  rw [sixDigits_scaled log]
  split
  · exact ⟨le_rfl, by norm_num, by dsimp only; omega⟩
  · dsimp only
    omega

/-- Six digits are all of an integer if zeros are behind them. -/
theorem sixDigits_exact_iff (large : 10 ^ 6 ≤ k) :
    ((sixDigits k).1 : ℚ) * 10 ^ ((sixDigits k).2 - 5) = k ↔ SixSignificant k := by
  constructor
  · intro exact
    obtain ⟨-, small, place⟩ := sixDigits_range large
    obtain ⟨j, same⟩ := Int.eq_ofNat_of_zero_le (by omega : 0 ≤ (sixDigits k).2 - 5)
    rw [same, zpow_natCast] at exact
    exact ⟨_, j, small, by exact_mod_cast exact.symm⟩
  · rintro ⟨m, i, small, rfl⟩
    obtain ⟨j, log, -, low, high⟩ := log_large large
    have shorter : j ≤ i := by
      by_contra longer
      have : 10 ^ (i + 1) ≤ 10 ^ j := Nat.pow_le_pow_right (by norm_num) (by omega)
      have := Nat.mul_lt_mul_of_pos_right small (show 0 < 10 ^ i by positivity)
      rw [pow_succ] at *
      omega
    obtain ⟨n, rfl⟩ := Nat.exists_eq_add_of_le shorter
    have digits : ((m * 10 ^ (j + n) : ℕ) : ℚ) / (10 ^ j : ℕ) = ((m * 10 ^ n : ℕ) : ℤ) := by
      rw [div_eq_iff (by positivity)]
      push_cast
      ring
    have below : m * 10 ^ n < 10 ^ 6 := by
      rw [pow_add, mul_left_comm, mul_comm] at high
      exact Nat.lt_of_mul_lt_mul_right high
    rw [sixDigits_scaled log, digits, roundEven_intCast, Int.toNat_natCast, if_neg below.ne]
    dsimp only
    rw [add_sub_cancel_right, zpow_natCast]
    push_cast
    ring

theorem scan_convtoString (k : ℕ) : scan (Text.convtoString k) = ⟨false, Text.convtoString k, [], none, []⟩ := by
  have same : decimalText k = Text.convtoString k := rfl
  have scanned := scanSigned_decimalText k
  rw [same] at scanned
  rw [scan_integer (same ▸ isInteger_decimalText k), scanned]
  rfl

/-- What is printed for an integer is read as a complete number, and as the integer if six digits are enough for it. -/
structure ReadsBack (k : ℕ) (text : Bytes) : Prop where
  unsigned : ∀ c ∈ text.head?, isSign c = false
  readable : (scan text).readable = true
  rest : (scan text).rest = []
  exact : (scan text).magnitude = k ↔ SixSignificant k

theorem magnitudeText_readsBack (k : ℕ) : ReadsBack k (magnitudeText k) := by
  rcases lt_or_ge k (10 ^ 6) with small | large
  · have all : Digits (Text.convtoString k) := fun _ here => isDigit_of_mem_convtoString here
    have nonempty := convtoString_ne_nil k
    rw [magnitudeText_natCast small]
    constructor
    · exact all.head_sign
    · rw [scan_convtoString]
      simpa [Scanned.readable] using nonempty
    · rw [scan_convtoString]
    · rw [scan_convtoString]
      exact iff_of_true (by simp [Scanned.magnitude, digitsValue_convtoString]) ⟨k, 0, small, (mul_one k).symm⟩
  · obtain ⟨low, high, place⟩ := sixDigits_range large
    have length : (Text.convtoString (sixDigits k).1).length = 6 := by
      rw [length_convtoString (by omega), (Nat.log_eq_iff (.inl (by norm_num))).mpr ⟨low, high⟩]
    obtain ⟨c, s, text⟩ := List.exists_cons_of_ne_nil (convtoString_ne_nil (sixDigits k).1)
    have all : Digits (c :: s) := fun _ here => isDigit_of_mem_convtoString (text ▸ here)
    have digit : isDigit c = true := all c List.mem_cons_self
    have rest : Digits s := fun d here => all d (List.mem_cons_of_mem c here)
    rw [text, List.length_cons] at length
    have printed : magnitudeText k = pointed [c] s ++ 101 :: exponentText (sixDigits k).2 := by
      rw [magnitudeText, if_neg (Nat.cast_ne_zero.mpr (by omega))]
      dsimp only
      rw [if_pos (.inr place), text]
      rfl
    have scanned := scan_pointed digit rest (sixDigits k).2
    have magnitude := magnitude_pointed digit rest (sixDigits k).2
    rw [← text, digitsValue_convtoString, show s.length = 5 by omega] at magnitude
    rw [printed]
    constructor
    · have unsigned : isSign c = false := all.head_sign c rfl
      rw [pointed]
      split <;> simpa using unsigned
    · rw [scanned]
      simp [Scanned.readable, (scanSigned_exponentText (sixDigits k).2).2.1]
    · rw [scanned]
    · rw [magnitude]
      exact sixDigits_exact_iff large

theorem signed_injective (negative : Bool) : Function.Injective (signed negative) := by
  cases negative
  · exact fun _ _ same => same
  · exact neg_injective

/-- A double holds an integer. -/
inductive Holds : Double → ℤ → Prop
  | finite {negative : Bool} {k : ℕ} {z : ℤ} (representable : Representable k) (value : signed negative k = z) :
      Holds (.finite negative k representable) z

section
variable {s : Bytes} {a b : Double} {z y : ℤ}

theorem natAbs_signed (value : signed negative k = z) : z.natAbs = k := by
  cases negative with
  | false =>
    have value : (k : ℚ) = z := value
    have : (k : ℤ) = z := by exact_mod_cast value
    omega
  | true =>
    have value : -(k : ℚ) = z := value
    have : -(k : ℤ) = z := by exact_mod_cast value
    omega

theorem holds_convtoNum (integer : IsInteger s) (representable : Representable (scanSigned s).value.natAbs) :
    Holds (convtoNum s) (scanSigned s).value := by
  rw [natAbs_value] at representable
  rw [convtoNum_integer integer representable]
  exact .finite representable (signed_value _)

theorem holds_zero : Holds (.round false ((0 : ℕ) : ℚ)) 0 := by
  have zero : Representable ((0 : ℕ) : ℚ) := representable_nat (by norm_num)
  rw [Double.round_natCast zero]
  exact .finite zero (by simp [signed])

theorem Holds.lt_iff (left : Holds a z) (right : Holds b y) : Double.lt a b = true ↔ z < y := by
  obtain ⟨-, value⟩ := left
  obtain ⟨-, value'⟩ := right
  simp only [Double.lt, Double.le, value, value', Bool.and_eq_true, Bool.not_eq_true', decide_eq_true_eq,
    decide_eq_false_iff_not, not_le, Int.cast_le]
  exact ⟨And.right, fun less => ⟨less.le, less⟩⟩

/-- An integer comes back from its text if six digits are enough for it. -/
theorem Holds.denotes_iff (holds : Holds a z) (nan : Bytes) :
    Denotes (convtoString nan a) z ↔ SixSignificant z.natAbs := by
  obtain ⟨representable, value⟩ := holds
  rename_i negative k
  obtain ⟨unsigned, readable, rest, exact⟩ := magnitudeText_readsBack k
  have scanned : scan (signText negative ++ magnitudeText k) = { scan (magnitudeText k) with negative } :=
    scan_signText unsigned
  have read : (scan (signText negative ++ magnitudeText k)).value = signed negative (scan (magnitudeText k)).magnitude := by
    rw [scanned]
    rfl
  rw [natAbs_signed value, ← exact, convtoString]
  constructor
  · rintro ⟨-, same⟩
    rw [read, ← value] at same
    exact (signed_injective negative).eq_iff.mp same
  · intro same
    refine ⟨isDecimal_iff.mpr ?_, ?_⟩
    · rw [scanned]
      exact ⟨readable, rest⟩
    · rw [read, same, value]

end
end
end BerylDB.Doubles
