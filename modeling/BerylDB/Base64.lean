import BerylDB.Text

/-! # Base64 text

`bin_to_base64` and `base_64_to_bin` of `strings.cpp`. -/
namespace BerylDB.Base64
open Text

/-- `base_64_table`. -/
def base64Table : Bytes := lit "ABCDEFGHIJKLMNOPQRSTUVWXYZabcdefghijklmnopqrstuvwxyz0123456789+/"

/-- `table[0x3F & (buffer >> shift)]`. -/
def sextet (table : Bytes) (buffer shift : ℕ) : UInt8 := table.getD (0x3F &&& buffer >>> shift) 0

def padding (pad : UInt8) (n : ℕ) : Bytes := if pad ≠ 0 then .replicate n pad else []

def encodeFrom (table : Bytes) (pad : UInt8) : Bytes → Bytes
  | a :: b :: c :: data =>
    let buffer := a.toNat <<< 16 ||| b.toNat <<< 8 ||| c.toNat
    sextet table buffer 18 :: sextet table buffer 12 :: sextet table buffer 6 :: sextet table buffer 0 ::
      encodeFrom table pad data
  | [] => []
  | [a] =>
    let buffer := a.toNat <<< 16
    sextet table buffer 18 :: sextet table buffer 12 :: padding pad 2
  | [a, b] =>
    let buffer := a.toNat <<< 16 ||| b.toNat <<< 8
    sextet table buffer 18 :: sextet table buffer 12 :: sextet table buffer 6 :: padding pad 1

/-- Without a table it is the default alphabet, and the pad 0 is none. -/
def binToBase64 (data : Bytes) (table : Option Bytes) (pad : UInt8) : Bytes :=
  encodeFrom (table.getD base64Table) pad data

/-- `strchr`, which also finds the terminator. -/
def strchr (s : Bytes) (c : UInt8) : Option ℕ := (cStr s ++ [0]).idxOf? c

/-- The buffer is a `uint32_t`. -/
def decodeFrom (table : Bytes) : (bitcount buffer : ℕ) → Bytes → Bytes
  | _, _, [] => []
  | bitcount, buffer, c :: data =>
    match strchr table c with
    | none => []
    | some find =>
      if 64 ≤ find then []
      else
        let buffer := buffer <<< 6 % 2 ^ 32 ||| find
        let bitcount := bitcount + 6
        if 8 ≤ bitcount then
          (buffer >>> (bitcount - 8) &&& 0xFF).toUInt8 :: decodeFrom table (bitcount - 8) buffer data
        else decodeFrom table bitcount buffer data

def base64ToBin (data : Bytes) (table : Option Bytes) : Bytes := decodeFrom (table.getD base64Table) 0 0 (data ++ [0])

section
variable {a b c pad : UInt8} {v n buffer bitcount : ℕ} {rest : Bytes}

/-! ## One character -/

theorem base64Table_eq : base64Table = [65, 66, 67, 68, 69, 70, 71, 72, 73, 74, 75, 76, 77, 78, 79, 80, 81, 82, 83, 84, 85,
    86, 87, 88, 89, 90, 97, 98, 99, 100, 101, 102, 103, 104, 105, 106, 107, 108, 109, 110, 111, 112, 113, 114, 115, 116,
    117, 118, 119, 120, 121, 122, 48, 49, 50, 51, 52, 53, 54, 55, 56, 57, 43, 47] := by decide +kernel

theorem zero_not_mem : 0 ∉ base64Table := by
  rw [base64Table_eq]
  decide +kernel

theorem strchr_letter (small : v < 64) : strchr base64Table (base64Table.getD v 0) = some v := by
  have all : ∀ v < 64, strchr base64Table (base64Table.getD v 0) = some v := by
    rw [base64Table_eq]
    decide +kernel
  exact all v small

theorem sextet_eq (shift : ℕ) : sextet base64Table buffer shift = base64Table.getD (buffer / 2 ^ shift % 64) 0 := by
  have mask : 0x3F &&& buffer >>> shift = buffer >>> shift % 64 := by
    rw [Nat.and_comm]
    exact Nat.and_two_pow_sub_one_eq_mod (buffer >>> shift) 6
  rw [sextet, mask, Nat.shiftRight_eq_div_pow]

/-- The letter of six bits appends them to the buffer. -/
theorem push_eq (small : v < 64) : buffer <<< 6 % 2 ^ 32 ||| v = buffer * 64 % 2 ^ 32 + v := by
  have shifted : buffer <<< 6 % 2 ^ 32 = (buffer % 2 ^ 26) <<< 6 := by
    rw [Nat.shiftLeft_eq, Nat.shiftLeft_eq]
    omega
  have room : v < 2 ^ 6 := small
  rw [shifted, ← Nat.shiftLeft_add_eq_or_of_lt room, ← shifted, Nat.shiftLeft_eq]

theorem decodeFrom_letter (small : v < 64) :
    decodeFrom base64Table bitcount buffer (base64Table.getD v 0 :: rest) =
      if 8 ≤ bitcount + 6 then
        ((buffer * 64 % 2 ^ 32 + v) / 2 ^ (bitcount + 6 - 8) % 256).toUInt8 ::
          decodeFrom base64Table (bitcount + 6 - 8) (buffer * 64 % 2 ^ 32 + v) rest
      else decodeFrom base64Table (bitcount + 6) (buffer * 64 % 2 ^ 32 + v) rest := by
  have byte (x : ℕ) : x &&& 0xFF = x % 256 := Nat.and_two_pow_sub_one_eq_mod x 8
  rw [decodeFrom, strchr_letter small]
  dsimp only
  rw [if_neg (Nat.not_le.mpr small), push_eq small, byte, Nat.shiftRight_eq_div_pow]

/-- The first letter of a group leaves six bits. -/
theorem decodeFrom_first (buffer : ℕ) (rest : Bytes) (small : v < 64) : ∃ buffer', buffer' % 64 = v ∧
    decodeFrom base64Table 0 buffer (base64Table.getD v 0 :: rest) = decodeFrom base64Table 6 buffer' rest := by
  refine ⟨buffer * 64 % 2 ^ 32 + v, by omega, ?_⟩
  rw [decodeFrom_letter small]
  rfl

/-- Each further one completes a byte. -/
theorem decodeFrom_next (rest : Bytes) (last : buffer % 64 = v) (small : n < 64) (two : 2 ≤ bitcount) (six : bitcount ≤ 6) :
    ∃ buffer', buffer' % 64 = n ∧ decodeFrom base64Table bitcount buffer (base64Table.getD n 0 :: rest) =
      ((v * 64 + n) / 2 ^ (bitcount - 2) % 256).toUInt8 :: decodeFrom base64Table (bitcount - 2) buffer' rest := by
  have both : (buffer * 64 % 2 ^ 32 + n) % 4096 = v * 64 + n := by omega
  refine ⟨buffer * 64 % 2 ^ 32 + n, by omega, ?_⟩
  have left : bitcount + 6 - 8 = bitcount - 2 := by omega
  have byte : (buffer * 64 % 2 ^ 32 + n) / 2 ^ (bitcount - 2) % 256 = (v * 64 + n) / 2 ^ (bitcount - 2) % 256 := by
    rw [← both]
    generalize buffer * 64 % 2 ^ 32 + n = x
    obtain h | h | h | h | h : bitcount = 2 ∨ bitcount = 3 ∨ bitcount = 4 ∨ bitcount = 5 ∨ bitcount = 6 := by omega
    all_goals subst h; omega
  rw [decodeFrom_letter small, if_pos (by omega), left, byte]

/-! ## One group -/

theorem group_eq (a b c : UInt8) :
    a.toNat <<< 16 ||| b.toNat <<< 8 ||| c.toNat = a.toNat * 65536 + b.toNat * 256 + c.toNat := by
  have second : b.toNat <<< 8 < 2 ^ 16 := by
    rw [Nat.shiftLeft_eq]
    have := b.toNat_lt
    omega
  have third : c.toNat < 2 ^ 8 := c.toNat_lt
  have low : a.toNat <<< 16 + b.toNat <<< 8 = (a.toNat * 256 + b.toNat) <<< 8 := by
    simp only [Nat.shiftLeft_eq]
    ring
  rw [← Nat.shiftLeft_add_eq_or_of_lt second, low, ← Nat.shiftLeft_add_eq_or_of_lt third, Nat.shiftLeft_eq]
  ring

theorem toUInt8_eq (same : n = a.toNat) : n.toUInt8 = a := by
  rw [same]
  exact UInt8.ofNat_toNat

/-- The first two letters of a group give its first byte. -/
theorem decodeFrom_one (buffer : ℕ) (rest : Bytes) (h : n / 65536 = a.toNat) :
    ∃ buffer', buffer' % 64 = n / 4096 % 64 ∧
    decodeFrom base64Table 0 buffer (sextet base64Table n 18 :: sextet base64Table n 12 :: rest) =
      a :: decodeFrom base64Table 4 buffer' rest := by
  have byte : (n / 262144 % 64 * 64 + n / 4096 % 64) / 16 % 256 = a.toNat := by
    have := a.toNat_lt
    omega
  obtain ⟨buffer₁, last₁, first⟩ := decodeFrom_first buffer (sextet base64Table n 12 :: rest)
    (Nat.mod_lt (n / 2 ^ 18) (by decide))
  obtain ⟨buffer₂, last₂, second⟩ := decodeFrom_next rest last₁ (Nat.mod_lt (n / 2 ^ 12) (by decide))
    (by decide) (Nat.le_refl 6)
  refine ⟨buffer₂, last₂, ?_⟩
  rw [sextet_eq 18, first, sextet_eq 12, second]
  exact congrArg (· :: _) (toUInt8_eq byte)

theorem decodeFrom_two (buffer : ℕ) (rest : Bytes) (h : n / 65536 = a.toNat) (h' : n / 256 % 256 = b.toNat) :
    ∃ buffer', buffer' % 64 = n / 64 % 64 ∧
    decodeFrom base64Table 0 buffer (sextet base64Table n 18 :: sextet base64Table n 12 :: sextet base64Table n 6 :: rest) =
      a :: b :: decodeFrom base64Table 2 buffer' rest := by
  have byte : (n / 4096 % 64 * 64 + n / 64 % 64) / 4 % 256 = b.toNat := by omega
  obtain ⟨buffer₂, last₂, one⟩ := decodeFrom_one buffer (sextet base64Table n 6 :: rest) h
  obtain ⟨buffer₃, last₃, third⟩ := decodeFrom_next rest last₂ (Nat.mod_lt (n / 2 ^ 6) (by decide))
    (show 2 ≤ 4 by decide) (by decide)
  refine ⟨buffer₃, last₃, ?_⟩
  rw [one, sextet_eq 6, third]
  exact congrArg (a :: · :: _) (toUInt8_eq byte)

theorem decodeFrom_three (buffer : ℕ) (rest : Bytes) (h : n / 65536 = a.toNat) (h' : n / 256 % 256 = b.toNat)
    (h'' : n % 256 = c.toNat) :
    ∃ buffer', decodeFrom base64Table 0 buffer (sextet base64Table n 18 :: sextet base64Table n 12 ::
        sextet base64Table n 6 :: sextet base64Table n 0 :: rest) =
      a :: b :: c :: decodeFrom base64Table 0 buffer' rest := by
  have byte : (n / 64 % 64 * 64 + n / 1 % 64) / 1 % 256 = c.toNat := by omega
  obtain ⟨buffer₃, last₃, two⟩ := decodeFrom_two buffer (sextet base64Table n 0 :: rest) h h'
  obtain ⟨buffer₄, last₄, fourth⟩ := decodeFrom_next rest last₃ (Nat.mod_lt (n / 2 ^ 0) (by decide))
    (Nat.le_refl 2) (by decide)
  refine ⟨buffer₄, ?_⟩
  rw [two, sextet_eq 0, fourth]
  exact congrArg (a :: b :: · :: _) (toUInt8_eq byte)

/-! ## Whole texts -/

/-- What is no letter ends the text: the padding, and the terminator. -/
theorem decodeFrom_end (outside : c ∉ base64Table) : decodeFrom base64Table bitcount buffer (c :: rest) = [] := by
  have plain : cStr base64Table = base64Table := cStr_eq_iff.mpr zero_not_mem
  rw [decodeFrom, strchr, plain]
  by_cases terminator : c = 0
  · rw [terminator]
    rfl
  · have missing : (base64Table ++ [0]).idxOf? c = none := by
      rw [List.idxOf?_eq_none_iff]
      simp [outside, terminator]
    rw [missing]

theorem decodeFrom_padding (outside : pad ∉ base64Table) :
    decodeFrom base64Table bitcount buffer (padding pad n ++ [0]) = [] := by
  unfold padding
  split
  · cases n with
    | zero => exact decodeFrom_end zero_not_mem
    | succ n => exact decodeFrom_end outside
  · exact decodeFrom_end zero_not_mem

theorem decodeFrom_encodeFrom (outside : pad ∉ base64Table) (data : Bytes) (buffer : ℕ) :
    decodeFrom base64Table 0 buffer (encodeFrom base64Table pad data ++ [0]) = data := by
  induction data using encodeFrom.induct generalizing buffer with
  | case1 a b c data ih =>
    have small := And.intro a.toNat_lt (And.intro b.toNat_lt c.toNat_lt)
    have group := group_eq a b c
    obtain ⟨buffer', three⟩ := decodeFrom_three (a := a) (b := b) (c := c)
      (n := a.toNat <<< 16 ||| b.toNat <<< 8 ||| c.toNat) buffer (encodeFrom base64Table pad data ++ [0])
      (by omega) (by omega) (by omega)
    rw [encodeFrom]
    exact three.trans (congrArg (a :: b :: c :: ·) (ih buffer'))
  | case2 => exact decodeFrom_end zero_not_mem
  | case3 a =>
    have small := a.toNat_lt
    have group := group_eq a 0 0
    obtain ⟨buffer', -, one⟩ := decodeFrom_one (a := a) (n := a.toNat <<< 16) buffer
      (padding pad 2 ++ [0]) (by simp at group; omega)
    rw [encodeFrom]
    exact one.trans (congrArg (a :: ·) (decodeFrom_padding outside))
  | case4 a b =>
    have small := And.intro a.toNat_lt b.toNat_lt
    have group := group_eq a b 0
    obtain ⟨buffer', -, two⟩ := decodeFrom_two (a := a) (b := b)
      (n := a.toNat <<< 16 ||| b.toNat <<< 8) buffer (padding pad 1 ++ [0]) (by simp at group; omega)
      (by simp at group; omega)
    rw [encodeFrom]
    exact two.trans (congrArg (a :: b :: ·) (decodeFrom_padding outside))

/-- Every byte string comes back, without padding and with every padding that is no letter. -/
theorem base64ToBin_binToBase64 (data : Bytes) (pad : UInt8) (outside : pad ∉ base64Table) :
    base64ToBin (binToBase64 data none pad) none = data := decodeFrom_encodeFrom outside data 0

theorem base64ToBin_binToBase64_padded :
    base64ToBin (binToBase64 [0, 255] none 0) none = [0, 255] ∧
      base64ToBin (binToBase64 [0, 255] none 61) none = [0, 255] :=
  ⟨base64ToBin_binToBase64 [0, 255] 0 zero_not_mem,
    base64ToBin_binToBase64 [0, 255] 61 (by rw [base64Table_eq]; decide +kernel)⟩

end

end BerylDB.Base64
