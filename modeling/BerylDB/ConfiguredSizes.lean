import BerylDB.ConfigRules

/-! # Configured sizes

`config_rule::as_uint` with `readable_magnitude` and `readable_range`.  A number is read in the notation of `strtoul`
for the base 0, and an `unsigned long` has 64 bits. -/
namespace BerylDB.Config
open Text

/-- The value of a letter or a digit; 36 is no digit of any base. -/
def digitValue (c : UInt8) : ℕ :=
  if isDigit c then c.toNat - 48 else if isLower (toLower c) then (toLower c).toNat - 87 else 36

def isHexDigit (c : UInt8) : Bool := digitValue c < 16

/-- The base that a number begins with, and its digits and what follows. -/
def detectBase : Bytes → ℕ × Bytes
  | 48 :: x :: c :: s => if toLower x = 120 && isHexDigit c then (16, c :: s) else (8, 48 :: x :: c :: s)
  | 48 :: s => (8, 48 :: s)
  | s => (10, s)

/-- The integer at the front of a text, and what follows it. -/
structure Subject where
  negative : Bool
  magnitude : ℕ
  tail : Bytes
deriving DecidableEq

def readSign : Bytes → Bool × Bytes
  | 45 :: s => (true, s)
  | 43 :: s => (false, s)
  | s => (false, s)

def readSubject (s : Bytes) : Option Subject :=
  let (negative, s) := readSign (s.dropWhile isSpace)
  let (base, s) := detectBase s
  let digits := s.takeWhile fun c => digitValue c < base
  if digits = [] then none
  else some ⟨negative, digits.foldl (fun n c => n * base + digitValue c) 0, s.drop digits.length⟩

/-- What an integer becomes as an `unsigned long`, and ULONG_MAX for a magnitude that does not fit one. -/
def Subject.wrapped (subject : Subject) : ℕ :=
  if 2 ^ 64 ≤ subject.magnitude then 2 ^ 64 - 1
  else if subject.negative then (2 ^ 64 - subject.magnitude) % 2 ^ 64
  else subject.magnitude

/-- `strtoul` for the base 0; `none` is a tail that is the whole text.  The byte 0 is no digit, and ends the tail. -/
def strtoul (s : Bytes) : Option (ℕ × Bytes) :=
  (readSubject s).map fun subject => (subject.wrapped, cStr subject.tail)

/-- The factor of a unit. -/
def unitFactor (c : UInt8) : Option ℕ :=
  match (toUpper c).toNat with
  | 75 => some 1024
  | 77 => some (1024 * 1024)
  | 71 => some (1024 * 1024 * 1024)
  | _ => none

/-- `readable_magnitude`. -/
def readableMagnitude (num default : ℕ) : Bytes → ℕ
  | [] => num
  | c :: _ =>
    match unitFactor c with
    | some factor => num * factor % 2 ^ 64
    | none => default

/-- `readable_range`. -/
def readableRange (num default min max : ℕ) : ℕ := if min ≤ num ∧ num ≤ max then num else default

/-- `config_rule::as_uint`; with `force` a number that `convto_num` reads outside the bounds ends the process, which is
`none`. -/
def asUint (items : Items) (key : Bytes) (default min max : ℕ) (force : Bool) : Option ℕ :=
  match readString items key false with
  | none => some default
  | some result =>
    match strtoul result with
    | none => some default
    | some (res, tail) =>
      let res := readableRange (readableMagnitude res default tail) default min max
      if force && (max < convtoUnsigned result || convtoUnsigned result < min) then none else some res

/-! ## What a text denotes -/

/-- The factor of what follows a number: nothing, or one unit. -/
def tailFactor : Bytes → Option ℕ
  | [] => some 1
  | [c] => unitFactor c
  | _ => none

/-- The number that a text denotes; a negative one is none. -/
def denoted (text : Bytes) : Option ℕ :=
  (readSubject text).bind fun subject =>
    if subject.negative ∧ subject.magnitude ≠ 0 then none
    else (tailFactor subject.tail).map fun factor => subject.magnitude * factor

/-- What is denoted within the bounds, and otherwise the default. -/
def configured (text : Bytes) (default min max : ℕ) : ℕ :=
  match denoted text with
  | some n => if min ≤ n ∧ n ≤ max then n else default
  | none => default

/-- The factor that is applied: of a tail only the first byte is looked at. -/
def frontFactor : Bytes → Option ℕ
  | [] => some 1
  | c :: _ => unitFactor c

def Subject.integer (subject : Subject) : ℤ := if subject.negative then -subject.magnitude else subject.magnitude

/-- What is left of a product in 64 bits; a magnitude of more bits counts as the greatest number. -/
def leftOver (subject : Subject) (factor : ℕ) : ℤ :=
  (if 2 ^ 64 ≤ subject.magnitude then -1 else subject.integer) * factor % 2 ^ 64

/-- A negative number, a product of more than 64 bits, or bytes behind the unit. -/
def Subject.Unclear (subject : Subject) (factor : ℕ) : Prop :=
  subject.integer < 0 ∨ 2 ^ 64 ≤ subject.integer * factor ∨ tailFactor subject.tail = none

/-- What is left of an unclear product is within the bounds, and is not the default. -/
def Misread (text : Bytes) (default min max : ℕ) : Prop :=
  ∃ subject factor, readSubject text = some subject ∧ frontFactor (cStr subject.tail) = some factor ∧
    subject.Unclear factor ∧ min ≤ leftOver subject factor ∧ leftOver subject factor ≤ max ∧
      leftOver subject factor ≠ default

section
variable {items : Items} {key text : Bytes} {default min max factor : ℕ} {subject : Subject}

theorem configured_none (h : denoted text = none) : configured text default min max = default := by
  rw [configured, h]

theorem configured_some {n : ℕ} (h : denoted text = some n) :
    configured text default min max = readableRange n default min max := by
  rw [configured, h, readableRange]

theorem wrapped_modEq (subject : Subject) :
    (subject.wrapped : ℤ) ≡ (if 2 ^ 64 ≤ subject.magnitude then -1 else subject.integer) [ZMOD 2 ^ 64] := by
  unfold Subject.wrapped Subject.integer Int.ModEq
  generalize subject.magnitude = n
  by_cases large : 2 ^ 64 ≤ n
  · rw [if_pos large, if_pos large]
    rfl
  · rw [if_neg large, if_neg large]
    cases subject.negative with
    | false => rfl
    | true =>
      rw [if_pos rfl, if_pos rfl]
      omega

/-- The product in 64 bits. -/
theorem product_eq (subject : Subject) (factor : ℕ) :
    ((subject.wrapped * factor % 2 ^ 64 : ℕ) : ℤ) = leftOver subject factor := by
  push_cast
  exact (wrapped_modEq subject).mul_right factor

theorem wrapped_lt (subject : Subject) : subject.wrapped < 2 ^ 64 := by
  unfold Subject.wrapped
  split_ifs <;> omega

theorem unitFactor_pos {c : UInt8} (h : unitFactor c = some factor) : 0 < factor := by
  unfold unitFactor at h
  split at h <;> simp_all <;> omega

theorem frontFactor_pos {tail : Bytes} (h : frontFactor tail = some factor) : 0 < factor := by
  cases tail with
  | nil => exact Option.some.inj h ▸ Nat.one_pos
  | cons c tail => exact unitFactor_pos h

/-- A tail that is a unit or nothing is so up to a byte 0. -/
theorem frontFactor_of_tailFactor {tail : Bytes} (h : tailFactor tail = some factor) :
    frontFactor (cStr tail) = some factor := by
  match tail with
  | [] => exact h
  | [c] =>
    have letter : c ≠ 0 := fun zero => by simp [tailFactor, zero, unitFactor, toUpper, isLower] at h
    rw [cStr_eq_iff.mpr (by simpa using letter.symm)]
    exact h

theorem readableMagnitude_eq (subject : Subject) (tail : Bytes) : readableMagnitude subject.wrapped default tail =
    ((frontFactor tail).map fun factor => subject.wrapped * factor % 2 ^ 64).getD default := by
  cases tail with
  | nil =>
    rw [frontFactor, Option.map_some, Option.getD_some, Nat.mul_one, Nat.mod_eq_of_lt (wrapped_lt subject)]
    rfl
  | cons c tail =>
    rw [readableMagnitude, frontFactor]
    cases unitFactor c <;> rfl

theorem asUint_eq (found : readString items key false = some text) (number : readSubject text = some subject) :
    asUint items key default min max false =
      some (readableRange
        (((frontFactor (cStr subject.tail)).map fun factor => subject.wrapped * factor % 2 ^ 64).getD default)
        default min max) := by
  have value : strtoul text = some (subject.wrapped, cStr subject.tail) := by rw [strtoul, number, Option.map_some]
  unfold asUint
  rw [found]
  dsimp only
  rw [value]
  dsimp only
  rw [readableMagnitude_eq, Bool.false_and, if_neg Bool.false_ne_true]

theorem readableRange_default : readableRange default default min max = default := by
  unfold readableRange
  split <;> rfl

theorem denoted_eq (number : readSubject text = some subject) : denoted text =
    if subject.integer < 0 then none else (tailFactor subject.tail).map fun factor => subject.magnitude * factor := by
  have sign : (subject.negative = true ∧ subject.magnitude ≠ 0) ↔ subject.integer < 0 := by
    unfold Subject.integer
    cases subject.negative <;> simp [Nat.pos_iff_ne_zero]
  rw [denoted, number, Option.bind_some]
  simp only [sign]

theorem integer_eq (natural : ¬ subject.integer < 0) : subject.integer = subject.magnitude := by
  unfold Subject.integer at natural ⊢
  split at natural <;> split <;> simp_all

/-- An unclear product is the default. -/
theorem configured_unclear (number : readSubject text = some subject) (front : frontFactor (cStr subject.tail) = some factor)
    (unclear : subject.Unclear factor) (size : max < 2 ^ 64) : configured text default min max = default := by
  have read := denoted_eq number
  by_cases below : subject.integer < 0
  · rw [if_pos below] at read
    exact configured_none read
  · rw [if_neg below] at read
    cases tail : tailFactor subject.tail with
    | none =>
      rw [tail, Option.map_none] at read
      exact configured_none read
    | some factor' =>
      obtain rfl : factor' = factor := Option.some.inj ((frontFactor_of_tailFactor tail).symm.trans front)
      rcases unclear with negative | large | behind
      · exact absurd negative below
      · rw [tail, Option.map_some] at read
        rw [integer_eq below] at large
        have large : 2 ^ 64 ≤ subject.magnitude * factor' := by exact_mod_cast large
        rw [configured_some read]
        exact if_neg fun inside => absurd inside.2 (by omega)
      · simp [behind] at tail

/-- A clear product is denoted, and is not wrapped. -/
theorem configured_clear (number : readSubject text = some subject) (front : frontFactor (cStr subject.tail) = some factor)
    (clear : ¬ subject.Unclear factor) :
    configured text default min max = readableRange (subject.wrapped * factor % 2 ^ 64) default min max := by
  unfold Subject.Unclear at clear
  push Not at clear
  obtain ⟨natural, small, behind⟩ := clear
  have natural : ¬ subject.integer < 0 := not_lt.mpr natural
  obtain ⟨factor', tail⟩ := Option.ne_none_iff_exists'.mp behind
  obtain rfl : factor' = factor := Option.some.inj ((frontFactor_of_tailFactor tail).symm.trans front)
  have read := denoted_eq number
  rw [if_neg natural, tail, Option.map_some] at read
  have product : (subject.wrapped * factor' % 2 ^ 64 : ℕ) = subject.magnitude * factor' := by
    have positive := frontFactor_pos front
    rw [integer_eq natural] at small
    have fits : subject.magnitude * factor' < 2 ^ 64 := by exact_mod_cast small
    have one : subject.magnitude < 2 ^ 64 := (Nat.le_mul_of_pos_right _ positive).trans_lt fits
    have left := product_eq subject factor'
    rw [leftOver, if_neg (not_le.mpr one), integer_eq natural, Int.emod_eq_of_lt (by positivity) (by exact_mod_cast fits)]
      at left
    exact_mod_cast left
  rw [configured_some read, product]

/-- A size is the one that its text denotes, unless what is left of an unclear product passes for it. -/
theorem asUint_iff (items : Items) (key text : Bytes) (default min max : ℕ) (found : readString items key false = some text)
    (size : max < 2 ^ 64) :
    asUint items key default min max false = some (configured text default min max) ↔ ¬ Misread text default min max := by
  cases number : readSubject text with
  | none =>
    have absent : ¬ Misread text default min max := fun ⟨subject, _, number', _⟩ => by simp [number] at number'
    have none : denoted text = none := by rw [denoted, number, Option.bind_none]
    have value : strtoul text = Option.none := by rw [strtoul, number, Option.map_none]
    refine iff_of_true ?_ absent
    rw [configured_none none, asUint, found]
    dsimp only
    rw [value]
  | some subject =>
    rw [asUint_eq found number, Option.some_inj]
    cases front : frontFactor (cStr subject.tail) with
    | none =>
      have none : denoted text = none := by
        have tail : tailFactor subject.tail = none := by
          by_contra some
          obtain ⟨factor, tail⟩ := Option.ne_none_iff_exists'.mp some
          simp [frontFactor_of_tailFactor tail] at front
        rw [denoted_eq number, tail, Option.map_none, ite_self]
      refine iff_of_true ?_ fun ⟨subject', factor, number', front', _⟩ => ?_
      · rw [configured_none none]
        exact readableRange_default
      · obtain rfl := Option.some.inj (number.symm.trans number')
        simp [front] at front'
    | some factor =>
      have value := product_eq subject factor
      rw [Option.map_some, Option.getD_some]
      by_cases unclear : subject.Unclear factor
      · have misread : Misread text default min max ↔ min ≤ leftOver subject factor ∧ leftOver subject factor ≤ max ∧
            leftOver subject factor ≠ default := by
          constructor
          · rintro ⟨subject', factor', number', front', -, passes⟩
            obtain rfl := Option.some.inj (number.symm.trans number')
            obtain rfl := Option.some.inj (front.symm.trans front')
            exact passes
          · exact fun passes => ⟨subject, factor, number, front, unclear, passes⟩
        rw [configured_unclear number front unclear size, misread, ← value]
        unfold readableRange
        norm_cast
        split <;> tauto
      · refine iff_of_true (configured_clear number front unclear).symm ?_
        rintro ⟨subject', factor', number', front', unclear', -⟩
        obtain rfl := Option.some.inj (number.symm.trans number')
        obtain rfl := Option.some.inj (front.symm.trans front')
        exact unclear unclear'

theorem asUint_megabytes : asUint [(lit "size", lit "16M")] (lit "size") 7200 0 (2 ^ 64 - 1) false =
    some (configured (lit "16M") 7200 0 (2 ^ 64 - 1)) :=
  (asUint_iff [(lit "size", lit "16M")] (lit "size") (lit "16M") 7200 0 (2 ^ 64 - 1) (by decide +kernel) (by decide)).mpr
    fun ⟨subject, factor, number, front, unclear, _⟩ => by
      have value : readSubject (lit "16M") = some ⟨false, 16, [77]⟩ := by decide +kernel
      obtain rfl := Option.some.inj (value.symm.trans number)
      obtain rfl : 1048576 = factor := Option.some.inj front
      rcases unclear with negative | large | behind
      · exact absurd negative (by decide)
      · exact absurd large (by decide)
      · exact absurd behind (by decide)

/-- A product of more than 64 bits passes for a small size. -/
theorem sizes_are_misread : ¬ ∀ (items : Items) (key text : Bytes) (default min max : ℕ),
    readString items key false = some text → min ≤ default → default ≤ max → max < 2 ^ 64 →
      asUint items key default min max false = some (configured text default min max) := fun all => by
  have claimed := all [(lit "size", lit "18014398509481985K")] (lit "size") (lit "18014398509481985K") 7200 0 100000
    (by decide +kernel) (by decide) (by decide) (by decide)
  exact absurd claimed (by decide +kernel)

end

end BerylDB.Config
