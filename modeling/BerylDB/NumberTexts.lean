import BerylDB.Decimals

/-! # Accepted numbers

`is_number` skips every sign in front, and takes commas, points, plus signs and exponent letters anywhere behind. -/
namespace BerylDB.Text
open Decimals

/-- The characters that `is_number` takes behind the signs. -/
def isNumeral (allowdots : Bool) (c : UInt8) : Bool :=
  allowdots && (c == 44 || c == 46 || c == 43 || c == 101) || isDigit c

/-- No accepted text is anything else than a number, and each is taken whole by the conversion that follows. -/
structure SoundlyAccepted (str : Bytes) : Prop where
  integer : isNumber str false = true → IsInteger str
  decimal : isNumber str true = true → IsDecimal str
  signed : isNumber str false = true → (scanSigned str).digits ≠ [] ∧ (scanSigned str).rest = []
  scanned : isNumber str true = true → (scan str).readable = true ∧ (scan str).rest = []

/-- At most one sign in front, and something behind it. -/
structure SingleSign (str : Bytes) : Prop where
  sign : (str.takeWhile isSign).length ≤ 1
  nonempty : str.dropWhile isSign ≠ []

/-- What stands in front of the first exponent letter, without the signs. -/
def mantissaOf (str : Bytes) : Bytes := (str.dropWhile isSign).takeWhile (· ≠ 101)
/-- The first exponent letter and what stands behind it. -/
def tailOf (str : Bytes) : Bytes := (str.dropWhile isSign).dropWhile (· ≠ 101)

/-- The kinds of texts that `is_number` with dots should refuse: more than one sign, a comma or a plus sign or a second
point in the mantissa, a mantissa without a digit, and what is no integer behind the exponent letter. -/
structure Regular (str : Bytes) : Prop where
  sign : (str.takeWhile isSign).length ≤ 1
  comma : 44 ∉ mantissaOf str
  plus : 43 ∉ mantissaOf str
  point : (mantissaOf str).count 46 ≤ 1
  digit : ∃ c ∈ mantissaOf str, isDigit c = true
  exponent : tailOf str = [] ∨ isNumber (tailOf str).tail false = true ∧ SingleSign (tailOf str).tail

section
variable {str s sign digits : Bytes} {c : UInt8} {allowdots : Bool}

theorem isNumberFrom_started : isNumberFrom allowdots true s = s.all (isNumeral allowdots) := by
  induction s with
  | nil => rfl
  | cons c s ih =>
    rw [isNumberFrom, List.all_cons, ih, isNumeral]
    cases allowdots && (c == 44 || c == 46 || c == 43 || c == 101) <;> simp

/-- `is_number` looks at what stands behind the signs. -/
theorem isNumber_eq : isNumber str allowdots = (str.dropWhile isSign).all (isNumeral allowdots) := by
  unfold isNumber
  induction str with
  | nil => rfl
  | cons c s ih =>
    rw [isNumberFrom]
    cases sign : isSign c with
    | true => rw [if_pos (by simpa [isSign] using sign), ih, List.dropWhile_cons, if_pos sign]
    | false =>
      rw [if_neg (by simpa [isSign] using sign), List.dropWhile_cons, sign, if_neg Bool.false_ne_true, List.all_cons,
        isNumberFrom_started, isNumeral]
      cases allowdots && (c == 44 || c == 46 || c == 43 || c == 101) <;> simp

theorem isNumber_integer : isNumber str false = true ↔ Digits (str.dropWhile isSign) := by
  rw [isNumber_eq, List.all_eq_true]
  rfl

/-- An accepted text holds no white space. -/
theorem dropWhile_isSpace (accepted : isNumber s true = true) : s.dropWhile isSpace = s := by
  rw [isNumber_eq, List.all_eq_true] at accepted
  cases s with
  | nil => rfl
  | cons c s =>
    refine List.dropWhile_cons_of_neg ?_
    intro space
    by_cases sign : isSign c = true
    · simp only [isSign, Bool.or_eq_true, beq_iff_eq] at sign
      rcases sign with rfl | rfl <;> exact absurd space (by decide)
    · have numeral := accepted c (by rw [List.dropWhile_cons_of_neg (by simpa using sign)]; exact List.mem_cons_self)
      simp only [isNumeral, Bool.true_and, Bool.or_eq_true, beq_iff_eq, or_assoc] at numeral
      rcases numeral with rfl | rfl | rfl | rfl | digit
      all_goals first | exact absurd space (by decide) | skip
      have digit := (isDigit_iff c).mp digit
      simp only [isSpace, Bool.or_eq_true, beq_iff_eq, Bool.and_eq_true, decide_eq_true_eq, UInt8.le_iff_toNat_le] at space
      rcases space with rfl | ⟨-, high⟩
      · exact absurd digit.1 (by decide)
      · have := digit.1
        change c.toNat ≤ 13 at high
        omega

theorem span_sign (optional : OptionalSign sign) (stops : ∀ c ∈ s.head?, isSign c = false) :
    (sign ++ s).takeWhile isSign = sign ∧ (sign ++ s).dropWhile isSign = s := by
  have rest : s.takeWhile isSign = [] ∧ s.dropWhile isSign = s := by
    cases s with
    | nil => exact ⟨rfl, rfl⟩
    | cons c s =>
      have stop : isSign c = false := stops c rfl
      simp [stop]
  rcases optional with rfl | ⟨c, sign, rfl⟩
  · exact rest
  · simp [sign, rest]

theorem optionalSign_of_length (single : (str.takeWhile isSign).length ≤ 1) : OptionalSign (str.takeWhile isSign) := by
  match signs : str.takeWhile isSign with
  | [] => exact .inl rfl
  | [c] => exact .inr ⟨c, List.mem_takeWhile_imp (l := str) (signs ▸ List.mem_singleton_self c), rfl⟩
  | _ :: _ :: _ =>
    rw [signs] at single
    simp at single

theorem length_of_optionalSign (optional : OptionalSign sign) : sign.length ≤ 1 := by
  rcases optional with rfl | ⟨c, -, rfl⟩ <;> simp

/-- An accepted text is an integer if it has at most one sign, and something behind it. -/
theorem isInteger_iff_singleSign (accepted : isNumber str false = true) : IsInteger str ↔ SingleSign str := by
  constructor
  · rintro ⟨sign, digits, optional, all, nonempty, rfl⟩
    obtain ⟨taken, dropped⟩ := span_sign optional all.head_sign
    exact ⟨by rw [taken]; exact length_of_optionalSign optional, by rwa [dropped]⟩
  · rintro ⟨single, nonempty⟩
    exact ⟨_, _, optionalSign_of_length single, isNumber_integer.mp accepted, nonempty,
      List.takeWhile_append_dropWhile.symm⟩

theorem isNumber_of_isInteger (integer : IsInteger str) : isNumber str false = true := by
  obtain ⟨sign, digits, optional, all, -, rfl⟩ := integer
  rw [isNumber_integer, (span_sign optional all.head_sign).2]
  exact all

/-- A mantissa holds digits, and at most one point. -/
theorem isMantissa_iff : IsMantissa s ↔
    (∀ c ∈ s, isDigit c = true ∨ c = 46) ∧ s.count 46 ≤ 1 ∧ ∃ c ∈ s, isDigit c = true := by
  have pointless {a : Bytes} (digits : Digits a) : a.count 46 = 0 :=
    List.count_eq_zero.mpr fun here => absurd (digits 46 here) (by decide)
  constructor
  · rintro (⟨digits, nonempty⟩ | ⟨whole, fraction, hwhole, hfraction, nonempty, rfl⟩)
    · obtain ⟨c, here⟩ := List.exists_mem_of_ne_nil s nonempty
      exact ⟨fun c here => .inl (digits c here), by rw [pointless digits]; decide, c, here, digits c here⟩
    · obtain ⟨c, here⟩ := List.exists_mem_of_ne_nil _ nonempty
      have digit : isDigit c = true := (List.mem_append.mp here).elim (hwhole c) (hfraction c)
      refine ⟨fun c here => ?_, ?_, c, ?_, digit⟩
      · rcases List.mem_append.mp here with here | here
        · exact .inl (hwhole c here)
        · exact (List.mem_cons.mp here).symm.imp_left (hfraction c)
      · rw [List.count_append, List.count_cons_self, pointless hwhole, pointless hfraction]
      · rw [List.mem_append, List.mem_cons]
        exact (List.mem_append.mp here).imp_right .inr
  · rintro ⟨chars, single, c, here, digit⟩
    by_cases point : 46 ∈ s
    · obtain ⟨whole, fraction, rfl⟩ := List.mem_iff_append.mp point
      rw [List.count_append, List.count_cons_self] at single
      have digits {d : UInt8} (here : d ∈ whole ++ 46 :: fraction) (other : d ≠ 46) : isDigit d = true :=
        (chars d here).resolve_right other
      refine .inr ⟨whole, fraction, fun d hd => digits (by simp [hd]) ?_, fun d hd => digits (by simp [hd]) ?_, ?_, rfl⟩
      · rintro rfl
        have := List.count_pos_iff.mpr hd
        omega
      · rintro rfl
        have := List.count_pos_iff.mpr hd
        omega
      · intro empty
        obtain ⟨rfl, rfl⟩ := List.append_eq_nil_iff.mp empty
        obtain rfl := List.mem_singleton.mp here
        exact absurd digit (by decide)
    · exact .inl ⟨fun d hd => (chars d hd).resolve_right fun e => point (e ▸ hd), List.ne_nil_of_mem here⟩

/-- An accepted text behind its signs, cut in front of the first exponent letter. -/
theorem mantissa_tail (str : Bytes) : str = str.takeWhile isSign ++ (mantissaOf str ++ tailOf str) := by
  rw [mantissaOf, tailOf, List.takeWhile_append_dropWhile, List.takeWhile_append_dropWhile]

theorem tailOf_cases (str : Bytes) : tailOf str = [] ∨ ∃ s, tailOf str = 101 :: s := by
  unfold tailOf
  generalize str.dropWhile isSign = s
  induction s with
  | nil => exact .inl rfl
  | cons c s ih =>
    by_cases letter : c = 101
    · exact .inr ⟨s, by simp [letter]⟩
    · simpa [letter] using ih

/-- The cut in front of the exponent letter. -/
theorem span_letter {mantissa tail : Bytes} (chars : ∀ c ∈ mantissa, isDigit c = true ∨ c = 46)
    (starts : ∀ c ∈ tail.head?, c = 101) :
    (mantissa ++ tail).takeWhile (· ≠ 101) = mantissa ∧ (mantissa ++ tail).dropWhile (· ≠ 101) = tail := by
  have other : ∀ c ∈ mantissa, decide (c ≠ 101) = true := by
    intro c here
    rw [decide_eq_true_iff]
    rintro rfl
    rcases chars 101 here with h | h <;> exact absurd h (by decide)
  rw [List.takeWhile_append_of_pos other, List.dropWhile_append_of_pos other]
  cases tail with
  | nil => exact ⟨List.append_nil _, rfl⟩
  | cons c s =>
    obtain rfl : c = 101 := starts c rfl
    exact ⟨List.append_nil _, rfl⟩

/-- An accepted text is a decimal number if it is of none of the kinds that should be refused. -/
theorem isDecimal_iff_regular (accepted : isNumber str true = true) : IsDecimal str ↔ Regular str := by
  rw [isNumber_eq, List.all_eq_true] at accepted
  constructor
  · rw [isDecimal_tail]
    rintro ⟨sign, mantissa, tail, optional, isMantissa, isTail, rfl⟩
    obtain ⟨taken, dropped⟩ := span_sign optional (isMantissa.head (s := tail))
    obtain ⟨chars, point, digit⟩ := isMantissa_iff.mp isMantissa
    have starts : ∀ c ∈ tail.head?, c = 101 := by
      rcases isTail with rfl | ⟨letter, exponent, isLetter, -, rfl⟩
      · simp
      · rintro c ⟨⟩
        have numeral := accepted letter (by rw [dropped]; simp)
        simp only [isExponent, Bool.or_eq_true, beq_iff_eq] at isLetter
        rcases isLetter with rfl | rfl
        · rfl
        · exact absurd numeral (by decide)
    obtain ⟨front, behind⟩ := span_letter chars starts
    have hmantissa : mantissaOf (sign ++ (mantissa ++ tail)) = mantissa := by rw [mantissaOf, dropped, front]
    have htail : tailOf (sign ++ (mantissa ++ tail)) = tail := by rw [tailOf, dropped, behind]
    refine ⟨by rw [taken]; exact length_of_optionalSign optional, ?_, ?_, by rwa [hmantissa], by rwa [hmantissa], ?_⟩
    · rw [hmantissa]
      exact fun here => (chars 44 here).elim (fun h => absurd h (by decide)) (fun h => absurd h (by decide))
    · rw [hmantissa]
      exact fun here => (chars 43 here).elim (fun h => absurd h (by decide)) (fun h => absurd h (by decide))
    · rw [htail]
      refine isTail.imp_right ?_
      rintro ⟨letter, exponent, -, isInteger, rfl⟩
      have accepted := isNumber_of_isInteger isInteger
      exact ⟨accepted, (isInteger_iff_singleSign accepted).mp isInteger⟩
  · intro regular
    have chars : ∀ c ∈ mantissaOf str, isDigit c = true ∨ c = 46 := by
      intro c here
      have numeral := accepted c ((List.takeWhile_prefix _).subset here)
      have letter : c ≠ 101 := of_decide_eq_true (List.mem_takeWhile_imp (p := fun c => decide (c ≠ 101)) here)
      have comma : c ≠ 44 := fun e => regular.comma (e ▸ here)
      have plus : c ≠ 43 := fun e => regular.plus (e ▸ here)
      simp only [isNumeral, Bool.true_and, Bool.or_eq_true, beq_iff_eq, comma, plus, letter, false_or, or_false] at numeral
      exact numeral.symm
    have isTail : IsTail (tailOf str) := by
      rcases tailOf_cases str with empty | ⟨s, behind⟩
      · exact .inl empty
      · rcases regular.exponent with empty | ⟨accepted, single⟩
        · exact .inl empty
        · rw [behind] at accepted single ⊢
          exact .inr ⟨101, s, rfl, (isInteger_iff_singleSign accepted).mpr single, rfl⟩
    exact isDecimal_tail.mpr ⟨_, _, _, optionalSign_of_length regular.sign,
      isMantissa_iff.mpr ⟨chars, regular.point, regular.digit⟩, isTail, mantissa_tail str⟩

end

/-- Acceptance is sound if and only if an accepted text has at most one sign and something behind it, and one that is
accepted with dots is regular. -/
theorem number_sound_iff (str : Bytes) : SoundlyAccepted str ↔
    (isNumber str false = true → SingleSign str) ∧ (isNumber str true = true → Regular str) := by
  constructor
  · rintro ⟨integer, decimal, -, -⟩
    exact ⟨fun accepted => (isInteger_iff_singleSign accepted).mp (integer accepted),
      fun accepted => (isDecimal_iff_regular accepted).mp (decimal accepted)⟩
  · rintro ⟨single, regular⟩
    have integer (accepted : isNumber str false = true) := (isInteger_iff_singleSign accepted).mpr (single accepted)
    have decimal (accepted : isNumber str true = true) := (isDecimal_iff_regular accepted).mpr (regular accepted)
    exact ⟨integer, decimal, fun accepted => isInteger_iff.mp (integer accepted),
      fun accepted => isDecimal_iff.mp (decimal accepted)⟩

/-- Two signs are read as nothing, and a comma ends a number. -/
theorem number_unsound : ¬ SoundlyAccepted (lit "--5") ∧ ¬ SoundlyAccepted (lit "1,5") ∧ ¬ SoundlyAccepted [] ∧
    convtoSigned (lit "--5") = 0 ∧ (scan (lit "1,5")).rest = lit ",5" := by
  refine ⟨fun h => ?_, fun h => ?_, fun h => ?_, by decide, by decide⟩
  · exact absurd (h.signed (by decide)) (by decide)
  · exact absurd (h.scanned (by decide)) (by decide)
  · exact absurd (h.signed (by decide)) (by decide)

end BerylDB.Text
