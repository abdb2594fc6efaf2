import BerylDB.NodeStreams

/-! # Masks of addresses

`aptosa`, `cidr_mask` and `MatchCompactIP` of `socket.cpp` and `cidr.cpp`.  `inet_pton` is a parameter. -/
namespace BerylDB.Sockets
open Text

/-- `AF_UNSPEC` is what a cleared `sockaddrs` has. -/
inductive Family where
  | unspec
  | inet
  | inet6
  | unix
deriving DecidableEq

structure Sockaddrs where
  family : Family
  addr : Bytes
deriving DecidableEq

/-- `type`, `length` and the 16 bytes of `bits`. -/
structure CidrMask where
  type : Family
  length : ℕ
  bits : Bytes
deriving DecidableEq

/-- The bytes that texts of addresses consist of. -/
def isAddressByte (c : UInt8) : Bool := isDigit c || 97 ≤ c && c ≤ 102 || 65 ≤ c && c ≤ 70 || c = 46 || c = 58

/-- `inet_pton` for both families: it parses texts of hexadecimal digits, dots and colons. -/
structure InetPton where
  inet : Bytes → Option Bytes
  inet6 : Bytes → Option Bytes
  inet_text : ∀ s addr, inet s = some addr → s ≠ [] ∧ s.all isAddressByte = true ∧ addr.length = 4
  inet6_text : ∀ s addr, inet6 s = some addr → s ≠ [] ∧ s.all isAddressByte = true ∧ addr.length = 16

/-- The bytes up to the border, and of the one at the border the bits of the mask. -/
def copyBits (bitmask : UInt8) : (border : ℕ) → Bytes → Bytes
  | _, [] => []
  | 0, b :: base => (b &&& bitmask) :: .replicate base.length 0
  | border + 1, b :: base => b :: copyBits bitmask border base

/-- What `sa2cidr` does for a family whose addresses have `width` bits. -/
def fill (width : ℕ) (sa : Sockaddrs) (range : ℕ) : CidrMask :=
  let length := if width < range then width else range
  let bitmask := (0xFF00 >>> (range &&& 7) &&& 0xFF).toUInt8
  ⟨sa.family, length, copyBits bitmask (length / 8) sa.addr ++ .replicate (16 - width / 8) 0⟩

def sa2cidr (sa : Sockaddrs) (range : ℕ) : CidrMask :=
  match sa.family with
  | .inet => fill 32 sa range
  | .inet6 => fill 128 sa range
  | family => ⟨family, 0, .replicate 16 0⟩

section
variable (pton : InetPton) (wildcardIPv6 : Bool) (agentMatch : Bytes → Bytes → Bool)

/-- `aptosa`; `none` is a text that it refuses. -/
def aptosa (addr : Bytes) : Option Sockaddrs :=
  if addr = [] ∨ addr.head? = some 42 then
    some (if wildcardIPv6 then ⟨.inet6, .replicate 16 0⟩ else ⟨.inet, .replicate 4 0⟩)
  else
    match pton.inet (cStr addr) with
    | some bytes => some ⟨.inet, bytes⟩
    | none => (pton.inet6 (cStr addr)).map fun bytes => ⟨.inet6, bytes⟩

/-- The constructor of `cidr_mask` from a text. -/
def cidrMask (mask : Bytes) : CidrMask :=
  match rfind 47 mask with
  | none => sa2cidr ((aptosa pton wildcardIPv6 mask).getD ⟨.unspec, []⟩) 128
  | some (addr, bits) => sa2cidr ((aptosa pton wildcardIPv6 addr).getD ⟨.unspec, []⟩) (convtoUchar bits)

/-- `MatchCompactIP` behind the agents. -/
def matchAddress (address mask : Bytes) : Bool :=
  match rfind 47 mask with
  | none => false
  | some (before, behind) =>
    if behind = [] || !behind.all isDigit || !before.all isAddressByte then false
    else
      match aptosa pton wildcardIPv6 address with
      | none => false
      | some addr => cidrMask pton wildcardIPv6 mask = sa2cidr addr (cidrMask pton wildcardIPv6 mask).length

/-- `MatchCompactIP`; `agentMatch` is `Daemon::Match` without regard to ASCII case. -/
def matchCompactIP (address mask : Bytes) (checkAgent : Bool) : Bool :=
  if checkAgent then
    match rfind 64 mask, rfind 64 address with
    | some (agentMask, mask), some (agent, address) =>
      agentMatch agent agentMask && matchAddress pton wildcardIPv6 address mask
    | agentMask, agent =>
      matchAddress pton wildcardIPv6 (agent.elim address (·.2)) (agentMask.elim mask (·.2))
  else matchAddress pton wildcardIPv6 address mask

end

/-! ## Networks -/

/-- The address of a text. -/
def InetPton.address (pton : InetPton) (text : Bytes) : Option Sockaddrs :=
  match pton.inet text with
  | some bytes => some ⟨.inet, bytes⟩
  | none => (pton.inet6 text).map fun bytes => ⟨.inet6, bytes⟩

def Sockaddrs.width (sa : Sockaddrs) : ℕ := 8 * sa.addr.length

/-- Two addresses of one family that agree on their first bits. -/
def SameNetwork (a net : Sockaddrs) (bits : ℕ) : Prop :=
  a.family = net.family ∧ (toBin a.addr).take (min bits net.width) = (toBin net.addr).take (min bits net.width)

instance (a net : Sockaddrs) (bits : ℕ) : Decidable (SameNetwork a net bits) := inferInstanceAs (Decidable (_ ∧ _))

section
variable {pton : InetPton} {wildcardIPv6 : Bool} {agentMatch : Bytes → Bytes → Bool} {a b : UInt8} {s t text : Bytes}
  {sa sb : Sockaddrs} {n r range border : ℕ}

/-! ## One byte -/

/-- `(0xFF00 >> r) & 0xFF`. -/
def byteMask (r : ℕ) : UInt8 := (0xFF00 >>> r &&& 0xFF).toUInt8

theorem testBit_byteMask : ∀ r < 8, ∀ i < 8, (byteMask r).toNat.testBit i = decide (8 - r ≤ i) := by decide +kernel

/-- The mask leaves the first bits. -/
theorem byteBits_byteMask (small : r < 8) (a : UInt8) :
    byteBits (a &&& byteMask r) = (byteBits a).take r ++ .replicate (8 - r) 48 := by
  have bits (i : ℕ) (inside : i < 8) : (a &&& byteMask r).toNat.testBit i = (a.toNat.testBit i && decide (8 - r ≤ i)) := by
    rw [UInt8.toNat_and, Nat.testBit_and, testBit_byteMask r small i inside]
  simp only [byteBits, List.map, bits, Nat.reduceLT]
  obtain rfl | rfl | rfl | rfl | rfl | rfl | rfl | rfl :
      r = 0 ∨ r = 1 ∨ r = 2 ∨ r = 3 ∨ r = 4 ∨ r = 5 ∨ r = 6 ∨ r = 7 := by omega
  all_goals simp [List.replicate]

theorem byteMask_eq_iff (small : r < 8) :
    a &&& byteMask r = b &&& byteMask r ↔ (byteBits a).take r = (byteBits b).take r := by
  constructor
  · intro same
    have bits := byteBits_byteMask small a
    rw [same, byteBits_byteMask small b] at bits
    exact (List.append_inj_left' bits rfl).symm
  · intro same
    rw [← bitsValue_byteBits (a &&& byteMask r), byteBits_byteMask small, same, ← byteBits_byteMask small,
      bitsValue_byteBits]

/-! ## The copied bits -/

/-- Two copies are equal if the addresses agree up to the border and on the bits of the byte there. -/
theorem copyBits_eq_iff (small : r < 8) (same : s.length = t.length) :
    copyBits (byteMask r) border s = copyBits (byteMask r) border t ↔
      (toBin s).take (8 * border + r) = (toBin t).take (8 * border + r) := by
  induction s generalizing t border with
  | nil =>
    obtain rfl := List.length_eq_zero_iff.mp same.symm
    simp
  | cons a s ih =>
    obtain ⟨b, t, rfl⟩ := List.exists_cons_of_length_eq_add_one same.symm
    have same : s.length = t.length := by simpa using same
    cases border with
    | zero =>
      have part (c : UInt8) (u : Bytes) : (toBin (c :: u)).take (8 * 0 + r) = (byteBits c).take r := by
        rw [toBin_cons, Nat.mul_zero, Nat.zero_add, List.take_append_of_le_length (by simp; omega)]
      rw [copyBits, copyBits, part, part, ← byteMask_eq_iff small, same]
      simp
    | succ border =>
      have part (c : UInt8) (u : Bytes) :
          (toBin (c :: u)).take (8 * (border + 1) + r) = byteBits c ++ (toBin u).take (8 * border + r) := by
        have count : 8 * (border + 1) + r = (byteBits c).length + (8 * border + r) := by simp; omega
        rw [toBin_cons, count, List.take_length_add_append]
      rw [copyBits, copyBits, part, part, List.cons.injEq, ih same]
      constructor
      · rintro ⟨rfl, rest⟩
        rw [rest]
      · intro whole
        obtain ⟨first, rest⟩ := List.append_inj whole rfl
        refine ⟨?_, rest⟩
        rw [← bitsValue_byteBits a, first, bitsValue_byteBits]

/-- Behind the border nothing is masked. -/
theorem copyBits_full (mask : UInt8) (full : s.length ≤ border) : copyBits mask border s = s := by
  induction s generalizing border with
  | nil => cases border <;> rfl
  | cons b s ih =>
    obtain ⟨border, rfl⟩ := Nat.exists_eq_succ_of_ne_zero (Nat.ne_of_gt (Nat.lt_of_lt_of_le (Nat.succ_pos _) full))
    rw [copyBits, ih (by simpa using full)]

/-- The mask depends on the clamped length only. -/
theorem fill_eq (length : sa.addr.length = n) (range : ℕ) : fill (8 * n) sa range =
    ⟨sa.family, min range (8 * n), copyBits (byteMask (min range (8 * n) % 8)) (min range (8 * n) / 8) sa.addr ++
      .replicate (16 - n) 0⟩ := by
  have seven : range &&& 7 = range % 8 := Nat.and_two_pow_sub_one_eq_mod range 3
  have whole : 8 * n / 8 = n := Nat.mul_div_cancel_left n (by decide)
  unfold fill
  dsimp only
  rw [seven, whole]
  by_cases beyond : 8 * n < range
  · rw [if_pos beyond, min_eq_right beyond.le, whole, copyBits_full _ length.le, copyBits_full _ length.le]
  · rw [if_neg beyond, min_eq_left (not_lt.mp beyond)]
    rfl

theorem fill_eq_iff (length : sa.addr.length = n) (length' : sb.addr.length = n) (range : ℕ) :
    fill (8 * n) sb range = fill (8 * n) sa (fill (8 * n) sb range).length ↔ sb.family = sa.family ∧
      (toBin sb.addr).take (min range (8 * n)) = (toBin sa.addr).take (min range (8 * n)) := by
  rw [fill_eq length', fill_eq length]
  dsimp only
  rw [min_assoc, min_self, CidrMask.mk.injEq, List.append_left_inj,
    copyBits_eq_iff (Nat.mod_lt _ (by decide)) (length'.trans length.symm), Nat.div_add_mod]
  tauto

/-! ## Texts of masks -/

theorem InetPton.address_text (h : pton.address s = some sa) : s ≠ [] ∧ s.all isAddressByte = true ∧
    (sa.family = .inet ∧ sa.addr.length = 4 ∨ sa.family = .inet6 ∧ sa.addr.length = 16) := by
  unfold InetPton.address at h
  split at h
  · rename_i bytes read
    obtain rfl := Option.some.inj h
    obtain ⟨nonempty, letters, length⟩ := pton.inet_text s bytes read
    exact ⟨nonempty, letters, .inl ⟨rfl, length⟩⟩
  · obtain ⟨bytes, read, rfl⟩ := Option.map_eq_some_iff.mp h
    obtain ⟨nonempty, letters, length⟩ := pton.inet6_text s bytes read
    exact ⟨nonempty, letters, .inr ⟨rfl, length⟩⟩

theorem not_mem_address (h : pton.address s = some sa) {c : UInt8} (other : isAddressByte c = false) : c ∉ s := by
  intro found
  simp [List.all_eq_true.mp (InetPton.address_text h).2.1 c found] at other

theorem aptosa_eq (h : pton.address s = some sa) : aptosa pton wildcardIPv6 s = some sa := by
  have plain : cStr s = s := cStr_eq_iff.mpr (not_mem_address h (by decide))
  have named : ¬ (s = [] ∨ s.head? = some 42) := by
    rintro (empty | star)
    · exact (InetPton.address_text h).1 empty
    · exact not_mem_address h (by decide) (List.mem_of_mem_head? star)
  rw [aptosa, if_neg named, plain]
  exact h

theorem sa2cidr_eq_iff (h : pton.address s = some sa) (h' : pton.address t = some sb) (range : ℕ) :
    sa2cidr sb range = sa2cidr sa (sa2cidr sb range).length ↔ SameNetwork sa sb range := by
  unfold SameNetwork Sockaddrs.width
  rcases (InetPton.address_text h).2.2 with ⟨family, length⟩ | ⟨family, length⟩ <;>
    rcases (InetPton.address_text h').2.2 with ⟨family', length'⟩ | ⟨family', length'⟩
  · simp only [sa2cidr, family, family', length']
    exact (fill_eq_iff length length' range).trans (by rw [family, family']; tauto)
  · simp [sa2cidr, family, family', fill]
  · simp [sa2cidr, family, family', fill]
  · simp only [sa2cidr, family, family', length']
    exact (fill_eq_iff length length' range).trans (by rw [family, family']; tauto)

/-- A mask matches the addresses of its network, with the length that `convto_num` makes of its digits. -/
theorem matchCompactIP_eq (h : pton.address s = some sa) (h' : pton.address t = some sb) (nonempty : text ≠ [])
    (digits : ∀ c ∈ text, isDigit c = true) :
    matchCompactIP pton wildcardIPv6 agentMatch s (t ++ 47 :: text) true =
      decide (SameNetwork sa sb (convtoUchar text)) := by
  have slash : (47 : UInt8) ∉ text := fun found => by simpa [isDigit] using digits 47 found
  have at_text : (64 : UInt8) ∉ text := fun found => by simpa [isDigit] using digits 64 found
  have agent : (64 : UInt8) ∉ t ++ 47 :: text := by
    rw [List.mem_append, List.mem_cons]
    rintro (found | same | found)
    · exact not_mem_address h' (by decide) found
    · exact absurd same (by decide)
    · exact at_text found
  have plain : (text = [] || !text.all isDigit || !t.all isAddressByte) = false := by
    simp only [Bool.or_eq_false_iff, Bool.not_eq_false', decide_eq_false_iff_not]
    exact ⟨⟨nonempty, List.all_eq_true.mpr digits⟩, (InetPton.address_text h').2.1⟩
  have mask : cidrMask pton wildcardIPv6 (t ++ 47 :: text) = sa2cidr sb (convtoUchar text) := by
    rw [cidrMask, rfind_append t slash]
    dsimp only
    rw [aptosa_eq h', Option.getD_some]
  rw [matchCompactIP, if_pos rfl, rfind_none agent, rfind_none (not_mem_address h (by decide))]
  dsimp only [Option.elim]
  rw [matchAddress, rfind_append t slash]
  dsimp only
  rw [plain, if_neg Bool.false_ne_true, aptosa_eq h]
  dsimp only
  rw [mask]
  exact decide_eq_decide.mpr (sa2cidr_eq_iff h h' _)

theorem convtoUchar_digits (digits : ∀ c ∈ text, isDigit c = true) :
    convtoUchar text = if digitsValue text ≤ 255 then digitsValue text else 0 := by
  have short : convtoUint16 text = if text = [] ∨ 2 ^ 16 ≤ digitsValue text then 0 else digitsValue text := by
    rw [convtoUint16, readDigits_digits digits]
    rfl
  rw [convtoUchar, short]
  by_cases none : text = [] ∨ 2 ^ 16 ≤ digitsValue text
  · rw [if_pos none]
    rcases none with rfl | large
    · rfl
    · rw [if_neg (show ¬ digitsValue text ≤ 255 by omega), ite_self]
  · rw [if_neg none]

/-- All bits are compared from the width of the family on. -/
theorem sameNetwork_wide (wide : sb.width ≤ n) (same : sa.family = sb.family → sa.addr.length = sb.addr.length) :
    SameNetwork sa sb n ↔ sa = sb := by
  have length (u : Bytes) : (toBin u).length = 8 * u.length := by
    induction u with
    | nil => rfl
    | cons c u ih =>
      rw [toBin_cons, List.length_append, ih, byteBits_length, List.length_cons]
      ring
  unfold SameNetwork
  rw [min_eq_right wide]
  constructor
  · rintro ⟨family, bits⟩
    rw [List.take_of_length_le (by rw [length, same family]; exact le_rfl),
      List.take_of_length_le (by rw [length]; exact le_rfl)] at bits
    obtain ⟨fa, addr⟩ := sa
    obtain ⟨fb, addr'⟩ := sb
    obtain rfl : fa = fb := family
    exact congrArg (Sockaddrs.mk fa) (toBin_injective bits)
  · rintro rfl
    exact ⟨rfl, rfl⟩

end

/-- A mask matches exactly its network if its number fits a byte, and otherwise if all of the family matches it anyway. -/
theorem matchCompactIP_iff (pton : InetPton) (wildcardIPv6 : Bool) (agentMatch : Bytes → Bytes → Bool)
    (address net number : Bytes) (a n : Sockaddrs) (parsed : pton.address address = some a)
    (parsed' : pton.address net = some n) (nonempty : number ≠ []) (digits : ∀ c ∈ number, isDigit c = true) :
    (matchCompactIP pton wildcardIPv6 agentMatch address (net ++ 47 :: number) true = true ↔
        SameNetwork a n (digitsValue number)) ↔
      digitsValue number ≤ 255 ∨ a.family ≠ n.family ∨ a = n := by
  rw [matchCompactIP_eq parsed parsed' nonempty digits, decide_eq_true_iff, convtoUchar_digits digits]
  by_cases small : digitsValue number ≤ 255
  · simp [small]
  · have lengths : n.width ≤ digitsValue number ∧ (a.family = n.family → a.addr.length = n.addr.length) := by
      unfold Sockaddrs.width
      rcases (InetPton.address_text parsed).2.2 with ⟨family, length⟩ | ⟨family, length⟩ <;>
        rcases (InetPton.address_text parsed').2.2 with ⟨family', length'⟩ | ⟨family', length'⟩ <;>
          simp [family, family', length, length'] <;> omega
    have none : SameNetwork a n 0 ↔ a.family = n.family := by simp [SameNetwork]
    rw [if_neg small, none, sameNetwork_wide lengths.1 lengths.2, or_iff_right small]
    constructor
    · intro same
      by_cases family : a.family = n.family
      · exact .inr (same.mp family)
      · exact .inl family
    · rintro (other | rfl)
      · exact ⟨fun family => absurd family other, fun same => absurd (same ▸ rfl) other⟩
      · exact iff_of_true rfl rfl

/-- Four numbers with dots between them. -/
def dottedQuad (s : Bytes) : Option Bytes :=
  let parts := s.splitOn 46
  if s ≠ [] ∧ s.all isAddressByte = true ∧ (parts.map fun part => (digitsValue part).toUInt8).length = 4 ∧
      parts.all (fun part =>
        part ≠ [] && part.all isDigit && (part = [48] || part.head? ≠ some 48) && digitsValue part ≤ 255) then
    some (parts.map fun part => (digitsValue part).toUInt8)
  else none

/-- `inet_pton` on texts of IPv4 addresses. -/
def pton4 : InetPton where
  inet := dottedQuad
  inet6 _ := none
  inet_text s addr h := by
    unfold dottedQuad at h
    dsimp only at h
    split at h
    · rename_i valid
      obtain rfl := Option.some.inj h
      exact ⟨valid.1, valid.2.1, valid.2.2.1⟩
    · simp at h
  inet6_text s addr h := by simp at h

theorem matchCompactIP_quarter : matchCompactIP pton4 true (fun _ _ => false) (lit "192.168.1.77")
    (lit "192.168.1.64" ++ 47 :: lit "26") true = true :=
  ((matchCompactIP_iff pton4 true (fun _ _ => false) (lit "192.168.1.77") (lit "192.168.1.64") (lit "26")
    ⟨.inet, [192, 168, 1, 77]⟩ ⟨.inet, [192, 168, 1, 64]⟩ (by decide +kernel) (by decide +kernel) (by decide)
      (by decide +kernel)).mpr (.inl (by decide))).mpr (by decide +kernel)

/-- A number of 256 and more is read as 0, and every address of the family matches. -/
theorem wide_masks_match_all : ¬ ∀ (pton : InetPton) (wildcardIPv6 : Bool) (agentMatch : Bytes → Bytes → Bool)
    (address net number : Bytes) (a n : Sockaddrs), pton.address address = some a → pton.address net = some n →
      number ≠ [] → (∀ c ∈ number, isDigit c = true) →
        (matchCompactIP pton wildcardIPv6 agentMatch address (net ++ 47 :: number) true = true ↔
          SameNetwork a n (digitsValue number)) := fun all => by
  have claimed := all pton4 true (fun _ _ => false) (lit "10.0.0.1") (lit "192.168.1.64") (lit "256")
    ⟨.inet, [10, 0, 0, 1]⟩ ⟨.inet, [192, 168, 1, 64]⟩ (by decide +kernel) (by decide +kernel) (by decide)
    (by decide +kernel)
  exact absurd (claimed.mp (by decide +kernel)) (by decide +kernel)

end BerylDB.Sockets
