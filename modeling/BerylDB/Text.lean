import Mathlib.Data.List.TakeWhile
import Mathlib.Data.Nat.Digits.Defs
import Mathlib.Data.Nat.Digits.Lemmas

/-! # Byte strings

The conversions of `converter.h` and `extras.h`, the token streams and `Daemon::Match`. -/
namespace BerylDB.Text

abbrev Bytes := List UInt8

instance : LawfulBEq Bytes := inferInstance

/-- The bytes of an ASCII literal. -/
def lit (s : String) : Bytes := s.toList.map Char.toUInt8

def isDigit (c : UInt8) : Bool := 48 ≤ c && c ≤ 57
def isBit (c : UInt8) : Bool := c == 48 || c == 49
def isSpace (c : UInt8) : Bool := c == 32 || 9 ≤ c && c ≤ 13
def isUpper (c : UInt8) : Bool := 65 ≤ c && c ≤ 90
def isLower (c : UInt8) : Bool := 97 ≤ c && c ≤ 122
def isAlnum (c : UInt8) : Bool := isDigit c || isUpper c || isLower c
def toUpper (c : UInt8) : UInt8 := if isLower c then c - 32 else c
def toLower (c : UInt8) : UInt8 := if isUpper c then c + 32 else c

/-- `std::bitset<8>(c).to_string()`. -/
def byteBits (c : UInt8) : Bytes :=
  [7, 6, 5, 4, 3, 2, 1, 0].map fun i => if c.toNat.testBit i then 49 else 48

def toBin (data : Bytes) : Bytes := data.flatMap byteBits

def bitsValue (bits : Bytes) : UInt8 := bits.foldl (fun n c => 2 * n + (c - 48)) 0

/-- One `sstream >> bits` after another: white space is skipped and up to eight binary digits are read. -/
def readBits : ℕ → Bytes → Bytes
  | 0, _ => []
  | fuel + 1, data =>
    let data := data.dropWhile isSpace
    let chunk := (data.take 8).takeWhile isBit
    if chunk = [] then [] else bitsValue chunk :: readBits fuel (data.drop chunk.length)

/-- `to_string`. -/
def toStr (data : Bytes) : Bytes := readBits data.length data

/-- The tokens that `items_extract` yields: empty ones are skipped. -/
def tokens (sep : UInt8) (s : Bytes) : List Bytes := (s.splitOn sep).filter (· ≠ [])

def colonTokens : Bytes → List Bytes := tokens 58
def spaceTokens : Bytes → List Bytes := tokens 32

/-- `s.substr(0, s.find_first_of(c))` and `s.substr(s.find_first_of(c) + 1)`: without `c` both are `s`. -/
def cutAt (c : UInt8) (s : Bytes) : Bytes × Bytes :=
  if c ∈ s then (s.takeWhile (· ≠ c), (s.dropWhile (· ≠ c)).tail) else (s, s)

/-- `conv_numeric` on an unsigned number. -/
def convtoString (n : ℕ) : Bytes :=
  if n = 0 then [48] else ((Nat.digits 10 n).map fun d => (48 + d).toUInt8).reverse

def digitsValue (s : Bytes) : ℕ := Nat.ofDigits 10 (s.reverse.map fun c => c.toNat - 48)

/-- The sign and the digits that a numeric `operator>>` reads. -/
def readDigits (s : Bytes) : Bool × Bytes :=
  match s.dropWhile isSpace with
  | 45 :: rest => (true, rest.takeWhile isDigit)
  | 43 :: rest => (false, rest.takeWhile isDigit)
  | rest => (false, rest.takeWhile isDigit)

/-- `convto_num<unsigned int>`. -/
def convtoUnsigned (s : Bytes) : ℕ :=
  let (negative, digits) := readDigits s
  let n := digitsValue digits
  if digits = [] ∨ 2 ^ 32 ≤ n then 0 else if negative then (2 ^ 32 - n) % 2 ^ 32 else n

/-- `convto_num<signed int>`. -/
def convtoSigned (s : Bytes) : ℤ :=
  let (negative, digits) := readDigits s
  let n := if negative then -(digitsValue digits : ℤ) else digitsValue digits
  if digits = [] ∨ n < -2 ^ 31 ∨ 2 ^ 31 ≤ n then 0 else n

/-- `convto_num<long>`. -/
def convtoLong (s : Bytes) : ℤ :=
  let (negative, digits) := readDigits s
  let n := if negative then -(digitsValue digits : ℤ) else digitsValue digits
  if digits = [] ∨ n < -2 ^ 63 ∨ 2 ^ 63 ≤ n then 0 else n

/-- `convto_num<uint16_t>`. -/
def convtoUint16 (s : Bytes) : ℕ :=
  let (negative, digits) := readDigits s
  let n := digitsValue digits
  if digits = [] ∨ 2 ^ 16 ≤ n then 0 else if negative then (2 ^ 16 - n) % 2 ^ 16 else n

/-- `convto_num<unsigned char>`. -/
def convtoUchar (s : Bytes) : ℕ := if convtoUint16 s ≤ 255 then convtoUint16 s else 0

/-- What a number becomes as a `signed int` of 32 bits. -/
def toSigned (n : ℤ) : ℤ := n.bmod 4294967296

/-- `started` is `counter != 0`. -/
def isNumberFrom (allowdots : Bool) : (started : Bool) → Bytes → Bool
  | _, [] => true
  | started, c :: s =>
    if !started && (c == 45 || c == 43) then isNumberFrom allowdots started s
    else if allowdots && (c == 44 || c == 46 || c == 43 || c == 101) then isNumberFrom allowdots true s
    else isDigit c && isNumberFrom allowdots true s

def isNumber (str : Bytes) (allowdots : Bool) : Bool := isNumberFrom allowdots false str

def stripe (str : Bytes) : Bytes :=
  if isNumber str true then str else if str.length = 1 then str else str.tail.dropLast

/-- `std::string::find`: the first position from `pos` on where `sub` begins. -/
def findFrom (sub : Bytes) : ℕ → Bytes → Option ℕ
  | pos, [] => if sub = [] then some pos else none
  | pos, c :: s => if sub.isPrefixOf (c :: s) then some pos else findFrom sub (pos + 1) s

def stringFind (str sub : Bytes) (pos : ℕ) : Option ℕ :=
  if pos ≤ str.length then findFrom sub pos (str.drop pos) else none

def max32BitInt : ℤ := 2147483647

/-- The sum of two numbers of the type `int`; it is undefined where it overflows. -/
def addInt (a b : ℤ) : Option ℤ := if -2 ^ 31 ≤ a + b ∧ a + b < 2 ^ 31 then some (a + b) else none

/-- What `SET_INDEX` makes of an index: a negative one counts from the end. -/
def indexFromEnd (index len : ℤ) : Option ℤ := if index < 0 then (addInt index len).map (max 0) else some index

/-- `SET_INDEX`. -/
def setIndex (start stop len : ℤ) : Option (ℤ × ℤ) := do
  let stop ← (if len < stop then some len else indexFromEnd stop len)
  let start ← indexFromEnd start len
  return (start, stop)

/-- `find`: the size and the position are narrowed to an `int`, and the end is compared as a `size_type`. -/
def find (str sub : Bytes) (start stop : ℤ) : Option ℤ := do
  let (start, stop) ← setIndex start stop (toSigned str.length)
  return match stringFind str sub start.toNat with
    | none => -1
    | some result => if stop % 2 ^ 64 < (result + sub.length : ℕ) then -1 else toSigned result

/-- The loop of `count_occur`; `none` when the fuel does not reach its end, or a cursor is undefined. -/
def countOccurFrom (str sub : Bytes) : ℕ → (cursor : ℤ) → (found : ℕ) → Option ℕ
  | 0, _, _ => none
  | fuel + 1, cursor, found => do
    let cursor ← find str sub cursor max32BitInt
    if cursor < 0 then return found
    countOccurFrom str sub fuel (← addInt cursor (toSigned sub.length)) (found + 1)

/-- `count_occur`: a loop that ends finds no position twice. -/
def countOccur (str sub : Bytes) : Option ℕ := countOccurFrom str sub (str.length + 2) 0 0

/-- What a function that takes a `const char*` sees. -/
def cStr (s : Bytes) : Bytes := s.takeWhile (· ≠ 0)

/-- `isalpha(const std::string&)`. -/
def isAlphaText (str : Bytes) : Bool := str ≠ [] && (cStr str).all isAlnum

/-- `DBValidator` and `AgentValidator`. -/
def nameValidator (name : Bytes) : Bool :=
  3 ≤ name.length && name.length ≤ 15 &&
    name.all fun i => 65 ≤ i && i ≤ 125 || isDigit i || i = 45 || i = 46

/-- `brld_case_insensitive_map`. -/
def caseMap (c : UInt8) : UInt8 := if 65 ≤ c && c ≤ 93 then c + 32 else c

/-- The maps that `casemapping` chooses from. -/
inductive CharMap where
  | ascii
  | brld1459
deriving DecidableEq

/-- `ascii_case_insensitive` and `brld_case_insensitive_map`. -/
def CharMap.get (charmap : CharMap) (c : UInt8) : UInt8 :=
  match charmap with
  | ascii => toLower c
  | brld1459 => caseMap c

/-- The equality of the keys of `GroupMap`, `DataMap` and their siblings, by `insensitive` and
`str_hash_comparison`. -/
def equals (charmap : CharMap) (s t : Bytes) : Bool := s.map charmap.get == t.map charmap.get

theorem isUpper_iff (c : UInt8) : isUpper c ↔ 65 ≤ c.toNat ∧ c.toNat ≤ 90 := by simp [isUpper, UInt8.le_iff_toNat_le]
theorem isLower_iff (c : UInt8) : isLower c ↔ 97 ≤ c.toNat ∧ c.toNat ≤ 122 := by simp [isLower, UInt8.le_iff_toNat_le]
theorem isDigit_iff (c : UInt8) : isDigit c ↔ 48 ≤ c.toNat ∧ c.toNat ≤ 57 := by simp [isDigit, UInt8.le_iff_toNat_le]

theorem toNat_toLower (c : UInt8) :
    (toLower c).toNat = if 65 ≤ c.toNat ∧ c.toNat ≤ 90 then c.toNat + 32 else c.toNat := by
  unfold toLower
  by_cases h : 65 ≤ c.toNat ∧ c.toNat ≤ 90
  · rw [if_pos ((isUpper_iff c).mpr h), if_pos h, UInt8.toNat_add]
    simp
    omega
  · rw [if_neg (mt (isUpper_iff c).mp h), if_neg h]

theorem toNat_caseMap (c : UInt8) :
    (caseMap c).toNat = if 65 ≤ c.toNat ∧ c.toNat ≤ 93 then c.toNat + 32 else c.toNat := by
  have range : (65 ≤ c && c ≤ 93) = true ↔ 65 ≤ c.toNat ∧ c.toNat ≤ 93 := by simp [UInt8.le_iff_toNat_le]
  unfold caseMap
  by_cases h : 65 ≤ c.toNat ∧ c.toNat ≤ 93
  · rw [if_pos (range.mpr h), if_pos h, UInt8.toNat_add]
    simp
    omega
  · rw [if_neg (mt range.mp h), if_neg h]

@[simp] theorem toLower_toLower (c : UInt8) : toLower (toLower c) = toLower c := by
  have lower := toNat_toLower c
  have lower' := toNat_toLower (toLower c)
  rw [← UInt8.toNat_inj]
  split at lower <;> split at lower' <;> omega

namespace CharMap
variable {charmap : CharMap} {c other : UInt8}

/-- The last of the bytes that a map changes, of which `A` is the first. -/
def last : CharMap → ℕ
  | ascii => 90
  | brld1459 => 93

theorem last_range (charmap : CharMap) : 90 ≤ charmap.last ∧ charmap.last ≤ 93 := by cases charmap <;> decide

theorem toNat_get (charmap : CharMap) (c : UInt8) :
    (charmap.get c).toNat = if 65 ≤ c.toNat ∧ c.toNat ≤ charmap.last then c.toNat + 32 else c.toNat := by
  cases charmap with
  | ascii => exact toNat_toLower c
  | brld1459 => exact toNat_caseMap c

@[simp] theorem get_toLower (charmap : CharMap) (c : UInt8) : charmap.get (toLower c) = charmap.get c := by
  have range := last_range charmap
  have lower := toNat_toLower c
  rw [← UInt8.toNat_inj, toNat_get, toNat_get]
  split at lower <;> split <;> split <;> omega

/-- What lies before the letters is mapped to itself, and nothing else is mapped to it. -/
theorem get_eq_symbol (symbol : other.toNat < 65) : charmap.get c = other ↔ c = other := by
  rw [← UInt8.toNat_inj, ← UInt8.toNat_inj, toNat_get]
  split <;> omega

@[simp] theorem get_zero (charmap : CharMap) : charmap.get 0 = 0 := (get_eq_symbol (by decide)).mpr rfl

/-- Only a NUL is mapped to a NUL. -/
theorem get_eq_zero : charmap.get c = 0 ↔ c = 0 := get_eq_symbol (by decide)

/-- To a lower case letter the maps and `toLower` map the same bytes. -/
theorem get_eq_lower (letter : isLower other) : charmap.get c = other ↔ toLower c = other := by
  have range := last_range charmap
  have lower := toNat_toLower c
  rw [isLower_iff] at letter
  rw [← UInt8.toNat_inj, ← UInt8.toNat_inj, toNat_get]
  split at lower <;> split <;> omega

end CharMap

section
variable (charmap : CharMap)

@[simp] theorem equals_self (s : Bytes) : equals charmap s s = true := by simp [equals]

@[simp] theorem equals_lower (s t : Bytes) : equals charmap s (t.map toLower) = equals charmap s t := by
  simp [equals, Function.comp_def]

/-- The second loop of `MatchInternal`. -/
def matchRest : ℕ → (base wildcard mp cp : Bytes) → Bool
  | 0, _, _, _, _ => false
  | _ + 1, [], wildcard, _, _ => (wildcard.dropWhile (· == 42)).isEmpty
  | fuel + 1, b :: base, 42 :: wildcard, _, _ =>
    if wildcard.isEmpty then true else matchRest fuel (b :: base) wildcard wildcard base
  | fuel + 1, b :: base, w :: wildcard, mp, cp =>
    if charmap.get w == charmap.get b || w == 63 then matchRest fuel base wildcard mp cp
    else matchRest fuel cp mp mp cp.tail
  | fuel + 1, _ :: _, [], mp, cp => matchRest fuel cp mp mp cp.tail

/-- The first loop, up to the first `*` of the mask. -/
def matchHead : Bytes → Bytes → Bool
  | b :: base, w :: wildcard =>
    if w == 42 then matchRest charmap ((base.length + wildcard.length + 4) ^ 2) (b :: base) (w :: wildcard) [] []
    else if charmap.get w != charmap.get b && w != 63 then false
    else matchHead base wildcard
  | _ :: _, [] => false
  | [], wildcard => (wildcard.dropWhile (· == 42)).isEmpty

/-- `Daemon::Match`. -/
def matchMask (str mask : Bytes) : Bool := matchHead charmap (cStr str) (cStr mask)

end

theorem cStr_eq_iff {s : Bytes} : cStr s = s ↔ 0 ∉ s := by
  unfold cStr
  rw [List.takeWhile_eq_self_iff]
  constructor
  · intro nonzero here
    exact absurd (nonzero 0 here) (by simp)
  · intro plain c here
    simpa using fun zero : c = 0 => plain (zero ▸ here)

/-- `Daemon::KeyValidator`. -/
def keyValidator (key : Bytes) : Bool := key ≠ [] && key.all fun c => c != 42 && c != 58

/-! ## Binary text -/

@[simp] theorem byteBits_length (c : UInt8) : (byteBits c).length = 8 := rfl

theorem mem_byteBits {c d : UInt8} (h : d ∈ byteBits c) : d = 48 ∨ d = 49 := by
  obtain ⟨i, -, rfl⟩ := List.mem_map.mp h
  split <;> simp

theorem bitsValue_byteBits (c : UInt8) : bitsValue (byteBits c) = c := by
  have all_values : ∀ n < 256, bitsValue (byteBits n.toUInt8) = n.toUInt8 := by decide +kernel
  have value := all_values c.toNat c.toNat_lt
  rwa [show c.toNat.toUInt8 = c from UInt8.ofNat_toNat] at value

@[simp] theorem toBin_nil : toBin [] = [] := rfl

@[simp] theorem toBin_cons (c : UInt8) (s : Bytes) : toBin (c :: s) = byteBits c ++ toBin s := rfl

theorem toBin_eq_nil {s : Bytes} : toBin s = [] ↔ s = [] := by
  cases s with
  | nil => simp
  | cons c s => simp [byteBits]

theorem mem_toBin {s : Bytes} {c : UInt8} (h : c ∈ toBin s) : c = 48 ∨ c = 49 := by
  obtain ⟨d, -, hc⟩ := List.mem_flatMap.mp h
  exact mem_byteBits hc

theorem colon_not_mem_toBin (s : Bytes) : (58 : UInt8) ∉ toBin s := fun h => by
  rcases mem_toBin h with h | h <;> simp at h

private theorem dropWhile_isSpace_toBin (s : Bytes) : (toBin s).dropWhile isSpace = toBin s := by
  cases h : toBin s with
  | nil => rfl
  | cons c rest =>
    have hc : c ∈ toBin s := by simp [h]
    rcases mem_toBin hc with rfl | rfl <;> rfl

private theorem readBits_toBin (s : Bytes) (fuel : ℕ) (enough : (toBin s).length ≤ fuel) :
    readBits fuel (toBin s) = s := by
  induction s generalizing fuel with
  | nil => cases fuel <;> rfl
  | cons c s ih =>
    cases fuel with
    | zero => simp at enough
    | succ fuel =>
      have chunk : ((toBin (c :: s)).take 8).takeWhile isBit = byteBits c := by
        rw [toBin_cons, List.take_left' (byteBits_length c)]
        refine List.takeWhile_eq_self_iff.mpr fun d hd => ?_
        rcases mem_byteBits hd with rfl | rfl <;> rfl
      have rest : (toBin (c :: s)).drop (byteBits c).length = toBin s := by
        rw [toBin_cons, List.drop_left]
      have shorter : (toBin s).length ≤ fuel := by
        rw [toBin_cons, List.length_append, byteBits_length] at enough
        omega
      rw [readBits, dropWhile_isSpace_toBin, chunk, if_neg (by simp [byteBits]), rest, ih fuel shorter,
        bitsValue_byteBits]

@[simp] theorem toStr_toBin (s : Bytes) : toStr (toBin s) = s := readBits_toBin s _ (Nat.le_refl _)

theorem toBin_injective : Function.Injective toBin := fun a b h => by
  rw [← toStr_toBin a, h, toStr_toBin]

/-! ## Decimal text -/

theorem isDigit_of_mem_convtoString {n : ℕ} {c : UInt8} (h : c ∈ convtoString n) : isDigit c = true := by
  unfold convtoString at h
  split at h
  · rw [List.mem_singleton.mp h]
    rfl
  · obtain ⟨d, hd, rfl⟩ := List.mem_map.mp (List.mem_reverse.mp h)
    have digit : ∀ d < 10, isDigit (48 + d).toUInt8 = true := by decide
    exact digit d (Nat.digits_lt_base (by norm_num) hd)

theorem convtoString_ne_nil (n : ℕ) : convtoString n ≠ [] := by
  unfold convtoString
  split
  · simp
  · simpa using Nat.digits_ne_nil_iff_ne_zero.mpr ‹n ≠ 0›

theorem colon_not_mem_convtoString (n : ℕ) : (58 : UInt8) ∉ convtoString n := fun h => by
  have digit : isDigit 58 = true := isDigit_of_mem_convtoString h
  simp [isDigit] at digit

@[simp] theorem digitsValue_convtoString (n : ℕ) : digitsValue (convtoString n) = n := by
  unfold digitsValue convtoString
  split
  · simpa using Eq.symm ‹n = 0›
  · rw [List.reverse_reverse, List.map_map]
    have digit : ∀ d < 10, ((48 + d).toUInt8).toNat - 48 = d := by decide
    have same : (Nat.digits 10 n).map ((fun c : UInt8 => c.toNat - 48) ∘ fun d => (48 + d).toUInt8) =
        Nat.digits 10 n := by
      refine (List.map_congr_left fun d hd => ?_).trans (List.map_id _)
      exact digit d (Nat.digits_lt_base (by norm_num) hd)
    rw [same, Nat.ofDigits_digits]

theorem convtoString_injective : Function.Injective convtoString := fun a b h => by
  rw [← digitsValue_convtoString a, h, digitsValue_convtoString]

theorem readDigits_digits {s : Bytes} (digits : ∀ c ∈ s, isDigit c = true) :
    readDigits s = (false, s) := by
  have all : s.takeWhile isDigit = s := List.takeWhile_eq_self_iff.mpr digits
  cases s with
  | nil => rfl
  | cons c s =>
    have hc : isDigit c = true := digits c (by simp)
    have space : isSpace c = false := by
      have low : 48 ≤ c.toNat := by
        simp only [isDigit, Bool.and_eq_true, decide_eq_true_eq, UInt8.le_iff_toNat_le] at hc
        exact hc.1
      have value : c ≠ 32 := fun e => by simp [e] at low
      simp only [isSpace, Bool.or_eq_false_iff, beq_eq_false_iff_ne, Bool.and_eq_false_iff,
        decide_eq_false_iff_not, UInt8.le_iff_toNat_le]
      exact ⟨value, .inr fun h => absurd (Nat.le_trans low h) (by decide)⟩
    have drop : (c :: s).dropWhile isSpace = c :: s := by simp [space]
    unfold readDigits
    rw [drop]
    split
    · simp_all [isDigit]
    · simp_all [isDigit]
    · rw [all]

@[simp] theorem readDigits_convtoString (n : ℕ) : readDigits (convtoString n) = (false, convtoString n) :=
  readDigits_digits fun _ h => isDigit_of_mem_convtoString h

theorem convtoUnsigned_convtoString {n : ℕ} (h : n < 2 ^ 32) : convtoUnsigned (convtoString n) = n := by
  have small : ¬ 2 ^ 32 ≤ n := Nat.not_le.mpr h
  simp only [convtoUnsigned, readDigits_convtoString, convtoString_ne_nil, digitsValue_convtoString, small,
    or_self, if_false, Bool.false_eq_true]

theorem convtoUnsigned_lt (s : Bytes) : convtoUnsigned s < 2 ^ 32 := by
  unfold convtoUnsigned
  dsimp only
  split
  · norm_num
  · split
    · exact Nat.mod_lt _ (by norm_num)
    · rename_i small _
      exact Nat.not_le.mp fun large => small (.inr large)

theorem convtoSigned_convtoString (n : ℕ) :
    convtoSigned (convtoString n) = if n < 2 ^ 31 then (n : ℤ) else 0 := by
  simp only [convtoSigned, readDigits_convtoString, convtoString_ne_nil, digitsValue_convtoString]
  split <;> split <;> grind

theorem toSigned_lt (n : ℤ) : toSigned n < 2 ^ 31 := lt_of_lt_of_le (Int.bmod_lt (by decide)) (by decide)

/-! ## Tokens -/

theorem tokens_append {sep : UInt8} {a : Bytes} (b : Bytes) (h : sep ∉ a) (nonempty : a ≠ []) :
    tokens sep (a ++ sep :: b) = a :: tokens sep b := by
  have split : (a ++ sep :: b).splitOn sep = a :: b.splitOn sep :=
    List.splitOnP_append_cons_of_forall_mem (fun c hc => by simpa using ne_of_mem_of_not_mem hc h) sep
      (by simp) b
  simp [tokens, split, nonempty]

theorem tokens_single {sep : UInt8} {a : Bytes} (h : sep ∉ a) (nonempty : a ≠ []) :
    tokens sep a = [a] := by
  have split : a.splitOn sep = [a] :=
    List.splitOnP_eq_singleton fun c hc => by simpa using ne_of_mem_of_not_mem hc h
  simp [tokens, split, nonempty]

@[simp] theorem tokens_nil (sep : UInt8) : tokens sep [] = [] := rfl

theorem tokens_cons (sep : UInt8) (b : Bytes) : tokens sep (sep :: b) = tokens sep b := by
  have split : ([] ++ sep :: b).splitOn sep = [] :: b.splitOn sep :=
    List.splitOnP_append_cons_of_forall_mem (by simp) sep (by simp) b
  rw [List.nil_append] at split
  simp [tokens, split]

theorem append_sep_inj {sep : UInt8} {a a' b b' : Bytes} (h : sep ∉ a) (h' : sep ∉ a') :
    a ++ sep :: b = a' ++ sep :: b' ↔ a = a' ∧ b = b' := by
  induction a generalizing a' with
  | nil =>
    cases a' with
    | nil => simp
    | cons c a' => grind
  | cons c a ih =>
    cases a' with
    | nil => grind
    | cons c' a' => grind

/-- A text cut behind a part without the separator. -/
theorem cutAt_append {c : UInt8} {a : Bytes} (b : Bytes) (h : c ∉ a) : cutAt c (a ++ c :: b) = (a, b) := by
  have before : ∀ x ∈ a, decide (x ≠ c) = true := fun x hx => decide_eq_true fun same => h (same ▸ hx)
  unfold cutAt
  rw [if_pos (by simp), List.takeWhile_append_of_pos before, List.dropWhile_append_of_pos before]
  simp

end BerylDB.Text
