import BerylDB.FlatMaps
import BerylDB.Text
import Mathlib.Data.List.Lex

/-! # The order of keys that differ in their case only

`insensitive_swo`, by which the maps and sets of such keys are sorted. -/
namespace BerylDB.Text.CharMap

/-- `engine::insensitive_swo`. -/
def insensitiveSwo (charmap : CharMap) : Bytes → Bytes → Bool
  | _, [] => false
  | [], _ :: _ => true
  | a :: s, b :: t =>
    if charmap.get b < charmap.get a then false
    else if charmap.get a < charmap.get b then true
    else insensitiveSwo charmap s t

/-- What the order sees of a key. -/
def key (charmap : CharMap) (s : Bytes) : List ℕ := s.map fun c => (charmap.get c).toNat

theorem key_cons {charmap : CharMap} (a b : UInt8) (s t : Bytes) :
    charmap.key (a :: s) = charmap.key (b :: t) ↔ charmap.get a = charmap.get b ∧ charmap.key s = charmap.key t := by
  rw [key, key, List.map_cons, List.map_cons, List.cons.injEq, UInt8.toNat_inj]
  rfl

theorem insensitiveSwo_iff (charmap : CharMap) : ∀ s t : Bytes,
    charmap.insensitiveSwo s t = true ↔ charmap.key s < charmap.key t
  | _, [] => by simp [insensitiveSwo, key]
  | [], b :: t => by simp [insensitiveSwo, key]
  | a :: s, b :: t => by
    have cons : charmap.key (a :: s) < charmap.key (b :: t) ↔ (charmap.get a).toNat < (charmap.get b).toNat ∨
        (charmap.get a).toNat = (charmap.get b).toNat ∧ charmap.key s < charmap.key t := List.cons_lt_cons_iff
    rw [insensitiveSwo, cons, ← insensitiveSwo_iff charmap s t]
    simp only [UInt8.lt_iff_toNat_lt]
    split
    · simp only [Bool.false_eq_true, false_iff]
      omega
    · split
      · simp only [true_iff]
        omega
      · rw [or_iff_right ‹_›, and_iff_right (by omega)]

theorem key_eq (charmap : CharMap) {s t : Bytes} : charmap.key s = charmap.key t ↔ Text.equals charmap s t = true := by
  have keys (s : Bytes) : charmap.key s = (s.map charmap.get).map UInt8.toNat := by
    simp [key, Function.comp_def]
  rw [keys, keys, (List.map_injective_iff.mpr fun _ _ => UInt8.toNat.inj).eq_iff, Text.equals, beq_iff_eq]

end BerylDB.Text.CharMap
