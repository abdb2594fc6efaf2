import BerylDB.Decimals

/-! # Durations

`Daemon::Duration`, `IsValidDuration` and `duration_as_string`.  The year of the table has 365 days and a quarter, and
the year that is printed has 52 weeks. -/
namespace BerylDB.Text

/-- `num_duration`: the seconds of a unit, and 0 for a byte that is none. -/
def numDuration (c : UInt8) : UInt64 :=
  match (toLower c).toNat with
  | 100 => 86400
  | 104 => 3600
  | 109 => 60
  | 115 => 1
  | 119 => 604800
  | 121 => 31557600
  | _ => 0

def durationFrom : (total subtotal : UInt64) → Bytes → Option UInt64
  | total, subtotal, [] => some (total + subtotal)
  | total, subtotal, c :: str =>
    if isDigit c then durationFrom total (subtotal * 10 + (c - 48).toUInt64) str
    else
      let multiplier := numDuration c
      if multiplier = 0 then none else durationFrom (total + subtotal * multiplier) 0 str

/-- `Daemon::Duration`. -/
def duration (str : Bytes) : Option UInt64 := durationFrom 0 0 str

def isValidDuration (duration : Bytes) : Bool := duration.all fun c => isDigit c || numDuration c != 0

/-- A number and its unit, unless the number is 0. -/
def durationPart (n : ℕ) (unit : UInt8) : Bytes := if n ≠ 0 then convtoString n ++ [unit] else []

def durationAsString (duration : ℕ) : Bytes :=
  if duration = 0 then lit "0s"
  else
    let years := duration / 31449600
    let weeks := (duration / 604800) % 52
    let days := (duration / 86400) % 7
    let hours := (duration / 3600) % 24
    let minutes := (duration / 60) % 60
    let seconds := duration % 60
    durationPart years 121 ++ (durationPart weeks 119 ++ (durationPart days 100 ++
      (durationPart hours 104 ++ (durationPart minutes 109 ++ durationPart seconds 115))))

section
variable {total subtotal : UInt64} {digits rest str : Bytes} {t m n d : ℕ} {unit : UInt8}

/-! ## What is accepted -/

theorem durationFrom_isSome : (durationFrom total subtotal str).isSome = isValidDuration str := by
  induction str generalizing total subtotal with
  | nil => rfl
  | cons c str ih =>
    rw [durationFrom, isValidDuration, List.all_cons]
    by_cases digit : isDigit c = true
    · rw [if_pos digit, ih, digit, Bool.true_or, Bool.true_and, isValidDuration]
    · rw [if_neg digit]
      by_cases none : numDuration c = 0
      · simp [digit, none]
      · rw [if_neg none, ih]
        simp [none, isValidDuration]

/-! ## What is printed -/

theorem digitsValue_cons (c : UInt8) (digits : Bytes) :
    digitsValue (c :: digits) = (c.toNat - 48) * 10 ^ digits.length + digitsValue digits := by
  have first : digitsValue [c] = c.toNat - 48 := by simp [digitsValue]
  rw [← first, ← Decimals.digitsValue_append, List.singleton_append]

theorem digit_toUInt64 {c : UInt8} (digit : isDigit c = true) : (c - 48).toUInt64 = UInt64.ofNat (c.toNat - 48) := by
  have low : (48 : UInt8) ≤ c := UInt8.le_iff_toNat_le.mpr ((isDigit_iff c).mp digit).1
  rw [← UInt64.ofNat_uInt8ToNat, UInt8.toNat_sub_of_le _ _ low]
  rfl

/-- Digits are read into the number that stands in front of the next unit. -/
theorem durationFrom_digits (all : ∀ c ∈ digits, isDigit c = true) :
    durationFrom total (UInt64.ofNat m) (digits ++ rest) =
      durationFrom total (UInt64.ofNat (m * 10 ^ digits.length + digitsValue digits)) rest := by
  induction digits generalizing m with
  | nil => simp [digitsValue]
  | cons c digits ih =>
    obtain ⟨digit, later⟩ := List.forall_mem_cons.mp all
    have shifted : UInt64.ofNat m * 10 + (c - 48).toUInt64 = UInt64.ofNat (m * 10 + (c.toNat - 48)) := by
      rw [digit_toUInt64 digit, UInt64.ofNat_add, UInt64.ofNat_mul]
      rfl
    rw [List.cons_append, durationFrom, if_pos digit, shifted, ih later, digitsValue_cons, List.length_cons, pow_succ]
    congr 2
    ring

/-- A part adds its seconds to the total. -/
theorem durationFrom_part (letter : isDigit unit = false) (known : numDuration unit = UInt64.ofNat n) (some : UInt64.ofNat n ≠ 0) :
    durationFrom (UInt64.ofNat t) 0 (durationPart m unit ++ rest) = durationFrom (UInt64.ofNat (t + m * n)) 0 rest := by
  unfold durationPart
  split
  · have digits : ∀ c ∈ convtoString m, isDigit c = true := fun c => isDigit_of_mem_convtoString
    have read : durationFrom (UInt64.ofNat t) (UInt64.ofNat 0) (convtoString m ++ unit :: rest) = _ :=
      durationFrom_digits digits
    rw [Nat.zero_mul, Nat.zero_add, digitsValue_convtoString] at read
    rw [List.append_assoc, List.singleton_append]
    refine read.trans ?_
    rw [durationFrom, if_neg (by simp [letter]), known]
    dsimp only
    rw [if_neg some, UInt64.ofNat_add, UInt64.ofNat_mul]
  · rename_i none
    rw [not_not.mp none, Nat.zero_mul, Nat.add_zero, List.nil_append]

/-- What is read back has the years of the table for the years that were printed. -/
theorem duration_durationAsString (positive : d ≠ 0) :
    duration (durationAsString d) = some (UInt64.ofNat (d + d / 31449600 * 108000)) := by
  have split : d + d / 31449600 * 108000 = 0 + d / 31449600 * 31557600 + d / 604800 % 52 * 604800 +
      d / 86400 % 7 * 86400 + d / 3600 % 24 * 3600 + d / 60 % 60 * 60 + d % 60 * 1 := by
    have seconds := Nat.div_add_mod d 60
    have minutes := Nat.div_add_mod (d / 60) 60
    have hours := Nat.div_add_mod (d / 3600) 24
    have days := Nat.div_add_mod (d / 86400) 7
    have weeks := Nat.div_add_mod (d / 604800) 52
    simp only [Nat.div_div_eq_div_mul, Nat.reduceMul] at minutes hours days weeks
    linarith
  have last : durationFrom (UInt64.ofNat (0 + d / 31449600 * 31557600 + d / 604800 % 52 * 604800 + d / 86400 % 7 * 86400 +
      d / 3600 % 24 * 3600 + d / 60 % 60 * 60)) 0 (durationPart (d % 60) 115 ++ []) = _ :=
    durationFrom_part (n := 1) rfl rfl (by decide)
  rw [List.append_nil] at last
  unfold duration durationAsString
  rw [if_neg positive, split]
  dsimp only
  rw [show (0 : UInt64) = UInt64.ofNat 0 from rfl]
  refine (durationFrom_part (n := 31557600) rfl rfl (by decide)).trans ?_
  refine (durationFrom_part (n := 604800) rfl rfl (by decide)).trans ?_
  refine (durationFrom_part (n := 86400) rfl rfl (by decide)).trans ?_
  refine (durationFrom_part (n := 3600) rfl rfl (by decide)).trans ?_
  refine (durationFrom_part (n := 60) rfl rfl (by decide)).trans (last.trans ?_)
  rw [durationFrom, UInt64.add_zero]

end

/-- A duration comes back from its text if and only if it is shorter than the year of 52 weeks that is printed; a text
is valid if and only if `Duration` accepts it. -/
theorem durations_round_trip_iff (d : ℕ) (bound : d < 2 ^ 63) (str : Bytes) :
    ((duration (durationAsString d)).map UInt64.toNat = some d ↔ d < 31449600) ∧
      (isValidDuration str = true ↔ (duration str).isSome = true) := by
  refine ⟨?_, by rw [duration, durationFrom_isSome]⟩
  rcases Nat.eq_zero_or_pos d with rfl | positive
  · decide
  · have years : d / 31449600 * 31449600 ≤ d := Nat.div_mul_le_self d 31449600
    have small : d + d / 31449600 * 108000 < 2 ^ 64 := by
      generalize d / 31449600 = n at years ⊢
      omega
    rw [duration_durationAsString positive.ne', Option.map_some, Option.some.injEq, UInt64.toNat_ofNat',
      Nat.mod_eq_of_lt small, Nat.add_eq_left, Nat.mul_eq_zero, Nat.div_eq_zero_iff]
    simp

theorem durations_day : (duration (durationAsString 90061)).map UInt64.toNat = some 90061 ∧
    (duration (lit "1d1h")).isSome = true := by
  obtain ⟨back, valid⟩ := durations_round_trip_iff 90061 (by decide) (lit "1d1h")
  exact ⟨back.mpr (by decide), valid.mp (by decide)⟩

/-- 364 days are printed as one year, which is read as 365 days and a quarter. -/
theorem durations_year : ¬ (duration (durationAsString 31449600)).map UInt64.toNat = some 31449600 := by
  rw [duration_durationAsString (by decide)]
  decide

end BerylDB.Text
