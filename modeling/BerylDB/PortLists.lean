import BerylDB.NodeStreams
import Mathlib.Data.Finset.Basic
import Mathlib.Data.Int.Interval

/-! # Lists of ports

`port_template` of `nodes.cpp`, which enumerates a list of ports and ranges of ports call by call. -/
namespace BerylDB.Ports
open Text

structure PortTemplate where
  sep : NodeStream
  inRange : ℤ
  rangeBegin : ℤ
  rangeEnd : ℤ
  overlapped : Bool
  overlapSet : Finset ℤ
deriving DecidableEq

namespace PortTemplate

def ofSource (source : Bytes) (allowOverlapped : Bool) : PortTemplate := ⟨.ofSource source 44, 0, 0, 0, allowOverlapped, ∅⟩

/-- `Overlaps`, which also inserts the port. -/
def overlaps (p : PortTemplate) (val : ℤ) : Bool × PortTemplate :=
  if p.overlapped then (false, p) else (val ∈ p.overlapSet, { p with overlapSet := insert val p.overlapSet })

/-- The loop over the ports of a range that were seen; `none` when the fuel does not reach its end. -/
def skipSeen : ℕ → PortTemplate → Option PortTemplate
  | 0, _ => none
  | fuel + 1, p =>
    let (seen, p) := p.overlaps p.inRange
    if seen && p.inRange ≤ p.rangeEnd then skipSeen fuel { p with inRange := p.inRange + 1 } else some p

/-- What a call does inside a range: the port that it returns, if the range has one left. -/
def nextInRange (p : PortTemplate) : Option (Option ℤ × PortTemplate) :=
  if 0 < p.inRange then
    let p := { p with inRange := p.inRange + 1 }
    if p.inRange ≤ p.rangeEnd then
      let (seen, p) := p.overlaps p.inRange
      if !seen then some (some p.inRange, p)
      else do
        let p ← skipSeen (p.rangeEnd + 2 - p.inRange).toNat p
        return (if p.inRange ≤ p.rangeEnd then some p.inRange else none, p)
    else some (none, { p with inRange := 0 })
  else some (none, p)

/-- The loop over the items whose number was seen. -/
def skipItems : ℕ → PortTemplate → Bytes → Option (Option Bytes × PortTemplate)
  | 0, _, _ => none
  | fuel + 1, p, x =>
    let (seen, p) := p.overlaps (convtoLong x)
    if !seen then some (some x, p)
    else
      match p.sep.itemsExtract with
      | (none, sep) => some (none, { p with sep })
      | (some x, sep) => skipItems fuel { p with sep } x

def beginItem (p : PortTemplate) (x : Bytes) : ℤ × PortTemplate :=
  match rfind 45 x with
  | some (sbegin, behind) =>
    let p := { p with rangeBegin := convtoLong sbegin, rangeEnd := convtoLong (cStr behind) }
    if 0 < p.rangeBegin && 0 < p.rangeEnd && p.rangeBegin < 65536 && p.rangeEnd < 65536 && p.rangeBegin < p.rangeEnd then
      (p.rangeBegin, { p with inRange := p.rangeBegin })
    else (convtoLong sbegin, p)
  | none => (convtoLong x, p)

def nextItem (p : PortTemplate) : Option (ℤ × PortTemplate) :=
  let (x, sep) := p.sep.itemsExtract
  let p := { p with sep }
  match x with
  | none => some (0, p)
  | some x => do
    match ← skipItems (p.sep.tokens.length + 1) p x with
    | (none, p) => some (0, p)
    | (some x, p) => some (p.beginItem x)

/-- `items_extract`. -/
def itemsExtract (p : PortTemplate) : Option (ℤ × PortTemplate) := do
  match ← p.nextInRange with
  | (some port, p) => some (port, p)
  | (none, p) => p.nextItem

/-- What the first calls return. -/
def calls : ℕ → PortTemplate → Option (List ℤ)
  | 0, _ => some []
  | n + 1, p => do
    let (port, p) ← p.itemsExtract
    let ports ← calls n p
    return port :: ports

end PortTemplate

/-- `first` and `last` of a range, which a single port is both of. -/
structure PortRange where
  first : ℤ
  last : ℤ
deriving DecidableEq

def PortRange.ports (r : PortRange) : List ℤ := (List.range (r.last + 1 - r.first).toNat).map fun i : ℕ => r.first + i

def IsNumber (s : Bytes) : Prop := s ≠ [] ∧ ∀ c ∈ s, isDigit c = true

/-- A port, or two of them around a dash. -/
inductive PortText : Bytes → PortRange → Prop
  | port {s : Bytes} : IsNumber s → 0 < digitsValue s → digitsValue s < 65536 → PortText s ⟨digitsValue s, digitsValue s⟩
  | range {s t : Bytes} : IsNumber s → IsNumber t → 0 < digitsValue s → digitsValue s < digitsValue t →
      digitsValue t < 65536 → PortText (s ++ 45 :: t) ⟨digitsValue s, digitsValue t⟩

/-- The calls return the ports of a list, and then 0. -/
def Yields (p : PortTemplate) (ports : List ℤ) : Prop :=
  ∀ n, p.calls n = some ((ports ++ .replicate n 0).take n)

/-! ## What is enumerated -/

/-- A port of one of the ranges. -/
def Covered (ranges : List PortRange) (port : ℤ) : Prop := ∃ r ∈ ranges, r.first ≤ port ∧ port ≤ r.last

instance (ranges : List PortRange) (port : ℤ) : Decidable (Covered ranges port) :=
  inferInstanceAs (Decidable (∃ r ∈ ranges, r.first ≤ port ∧ port ≤ r.last))

/-- The ranges whose first port is in none of the ranges before them that are kept. -/
def liveFrom (kept : List PortRange) : List PortRange → List PortRange
  | [] => []
  | r :: ranges => if Covered kept r.first then liveFrom kept ranges else r :: liveFrom (kept ++ [r]) ranges

/-- No live range ends inside the ones before it while the next port is listed elsewhere only. -/
def Tight (all kept live : List PortRange) : Prop :=
  ∀ before r after, live = before ++ r :: after → r.first < r.last → Covered (kept ++ before) r.last →
    Covered all (r.last + 1) → Covered (kept ++ before) (r.last + 1)

/-- The ports that are marked as seen behind a range, of which the one behind its end may be too many. -/
def marksAfter (marks : Finset ℤ) (r : PortRange) : Finset ℤ :=
  marks ∪ r.ports.toFinset ∪ if r.first < r.last ∧ r.last ∈ marks then {r.last + 1} else ∅

def enumerate (marks : Finset ℤ) : List PortRange → List ℤ
  | [] => []
  | r :: ranges =>
    if r.first ∈ marks then enumerate marks ranges
    else r.ports.filter (· ∉ marks) ++ enumerate (marksAfter marks r) ranges

section ranges
variable {a b port : ℤ} {r : PortRange} {marks : Finset ℤ} {kept all ranges : List PortRange}

@[simp] theorem mem_ports : port ∈ r.ports ↔ r.first ≤ port ∧ port ≤ r.last := by
  simp only [PortRange.ports, List.mem_map, List.mem_range]
  constructor
  · rintro ⟨i, small, rfl⟩
    omega
  · rintro ⟨low, high⟩
    exact ⟨(port - r.first).toNat, by omega, by omega⟩

theorem ports_nodup : r.ports.Nodup := List.nodup_range.map fun i j same => by simpa using same

theorem ports_nil (beyond : b < a) : (PortRange.mk a b).ports = [] := by
  have none : (b + 1 - a).toNat = 0 := by omega
  simp [PortRange.ports, none]

theorem ports_cons (within : a ≤ b) : (PortRange.mk a b).ports = a :: (PortRange.mk (a + 1) b).ports := by
  have count : (b + 1 - a).toNat = (b + 1 - (a + 1)).toNat + 1 := by omega
  simp only [PortRange.ports, count, List.range_succ_eq_map, List.map_cons, List.map_map]
  congr 1
  · simp
  · refine List.map_congr_left fun i _ => ?_
    simp only [Function.comp, Nat.succ_eq_add_one, Nat.cast_add, Nat.cast_one]
    ring

theorem covered_append : Covered (kept ++ ranges) port ↔ Covered kept port ∨ Covered ranges port := by
  simp only [Covered, List.mem_append, or_and_right, exists_or]

theorem covered_singleton : Covered [r] port ↔ r.first ≤ port ∧ port ≤ r.last := by simp [Covered]

theorem mem_marksAfter : port ∈ marksAfter marks r ↔
    port ∈ marks ∨ (r.first ≤ port ∧ port ≤ r.last) ∨ r.first < r.last ∧ r.last ∈ marks ∧ port = r.last + 1 := by
  unfold marksAfter
  by_cases extra : r.first < r.last ∧ r.last ∈ marks
  · rw [if_pos extra]
    simp only [extra, Finset.mem_union, List.mem_toFinset, mem_ports, Finset.mem_singleton, true_and, or_assoc]
  · rw [if_neg extra]
    have none : ¬ (r.first < r.last ∧ r.last ∈ marks ∧ port = r.last + 1) := fun h => extra ⟨h.1, h.2.1⟩
    simp only [none, Finset.mem_union, List.mem_toFinset, mem_ports, Finset.notMem_empty, or_false]

theorem covered_of_mem_enumerate (h : port ∈ enumerate marks ranges) : Covered ranges port := by
  induction ranges generalizing marks with
  | nil => simp [enumerate] at h
  | cons r ranges ih =>
    rw [← List.singleton_append, covered_append, covered_singleton]
    rw [enumerate] at h
    split at h
    · exact .inr (ih h)
    · rcases List.mem_append.mp h with own | later
      · exact .inl (mem_ports.mp (List.mem_filter.mp own).1)
      · exact .inr (ih later)

theorem not_marked_of_mem_enumerate (h : port ∈ enumerate marks ranges) : port ∉ marks := by
  induction ranges generalizing marks with
  | nil => simp [enumerate] at h
  | cons r ranges ih =>
    rw [enumerate] at h
    split at h
    · exact ih h
    · rcases List.mem_append.mp h with own | later
      · simpa using (List.mem_filter.mp own).2
      · exact fun marked => ih later (mem_marksAfter.mpr (.inl marked))

theorem enumerate_nodup (marks : Finset ℤ) (ranges : List PortRange) : (enumerate marks ranges).Nodup := by
  induction ranges generalizing marks with
  | nil => simp [enumerate]
  | cons r ranges ih =>
    rw [enumerate]
    split
    · exact ih marks
    · refine List.nodup_append.mpr ⟨ports_nodup.filter _, ih _, fun port own port' later same => ?_⟩
      have listed := mem_ports.mp (List.mem_filter.mp own).1
      exact not_marked_of_mem_enumerate later (mem_marksAfter.mpr (.inr (.inl (same ▸ listed))))

theorem tight_cons {live : List PortRange} : Tight all kept (r :: live) ↔
    (r.first < r.last → Covered kept r.last → Covered all (r.last + 1) → Covered kept (r.last + 1)) ∧
      Tight all (kept ++ [r]) live := by
  constructor
  · intro tight
    refine ⟨by simpa using tight [] r live rfl, fun before r' after split => ?_⟩
    simpa using tight (r :: before) r' after (by rw [split, List.cons_append])
  · rintro ⟨first, later⟩ before r' after split
    cases before with
    | nil =>
      obtain ⟨rfl, -⟩ := List.cons.inj split
      simpa using first
    | cons r'' before =>
      obtain ⟨rfl, rest⟩ := List.cons.inj split
      simpa using later before r' after rest

/-- All that is listed is enumerated if and only if the live ranges cover it and are tight. -/
theorem enumerate_all_iff (known : ∀ port, Covered all port → (port ∈ marks ↔ Covered kept port))
    (within : ∀ r ∈ ranges, r ∈ all) (valid : ∀ r ∈ ranges, r.first ≤ r.last) :
    (∀ port, Covered all port → port ∈ enumerate marks ranges ∨ Covered kept port) ↔
      (∀ port, Covered all port → Covered (kept ++ liveFrom kept ranges) port) ∧ Tight all kept (liveFrom kept ranges) := by
  induction ranges generalizing marks kept with
  | nil => simp [enumerate, liveFrom, Tight]
  | cons r ranges ih =>
    obtain ⟨listed, within⟩ := List.forall_mem_cons.mp within
    obtain ⟨order, valid⟩ := List.forall_mem_cons.mp valid
    have own : Covered all r.first := ⟨r, listed, le_refl _, order⟩
    by_cases seen : r.first ∈ marks
    · have skipped : Covered kept r.first := (known _ own).mp seen
      rw [enumerate, if_pos seen, liveFrom, if_pos skipped]
      exact ih known within valid
    · have fresh : ¬ Covered kept r.first := fun covered => seen ((known _ own).mpr covered)
      rw [enumerate, if_neg seen, liveFrom, if_neg fresh]
      have kept_iff (port : ℤ) : Covered (kept ++ [r]) port ↔ Covered kept port ∨ r.first ≤ port ∧ port ≤ r.last := by
        rw [covered_append, covered_singleton]
      by_cases tight : r.first < r.last → r.last ∈ marks → Covered all (r.last + 1) → Covered kept (r.last + 1)
      · have known' (port : ℤ) (inside : Covered all port) : port ∈ marksAfter marks r ↔ Covered (kept ++ [r]) port := by
          rw [mem_marksAfter, kept_iff, known port inside]
          constructor
          · rintro (before | own | ⟨proper, marked, rfl⟩)
            · exact .inl before
            · exact .inr own
            · exact .inl (tight proper marked inside)
          · rintro (before | own)
            · exact .inl before
            · exact .inr (.inl own)
        have same (port : ℤ) (inside : Covered all port) :
            port ∈ r.ports.filter (· ∉ marks) ++ enumerate (marksAfter marks r) ranges ∨ Covered kept port ↔
              port ∈ enumerate (marksAfter marks r) ranges ∨ Covered (kept ++ [r]) port := by
          rw [kept_iff, List.mem_append, List.mem_filter, mem_ports, decide_eq_true_iff, known port inside]
          tauto
        have rest := ih known' within valid
        rw [List.append_assoc, List.singleton_append] at rest
        rw [forall₂_congr same, rest, tight_cons]
        refine and_congr_right fun _ => (and_iff_right fun proper covered next => ?_).symm
        exact tight proper ((known _ ⟨r, listed, order, le_refl _⟩).mpr covered) next
      · push Not at tight
        obtain ⟨proper, marked, next, uncovered⟩ := tight
        refine iff_of_false (fun complete => ?_) fun both => ?_
        · rcases complete _ next with found | covered
          · rcases List.mem_append.mp found with own | later
            · exact absurd (mem_ports.mp (List.mem_filter.mp own).1).2 (by omega)
            · exact not_marked_of_mem_enumerate later (mem_marksAfter.mpr (.inr (.inr ⟨proper, marked, rfl⟩)))
          · exact uncovered covered
        · exact uncovered ((tight_cons.mp both.2).1 proper ((known _ ⟨r, listed, order, le_refl _⟩).mp marked) next)

end ranges

/-! ## The texts of the items -/

section texts
variable {s t x : Bytes} {r : PortRange}

theorem IsNumber.readDigits (h : IsNumber s) {rest : Bytes} (stop : ∀ c ∈ rest.head?, isDigit c = false) :
    Text.readDigits (s ++ rest) = (false, s) := by
  obtain ⟨nonempty, digits⟩ := h
  obtain ⟨c, s, rfl⟩ := List.exists_cons_of_ne_nil nonempty
  have first := (isDigit_iff c).mp (digits c (by simp))
  have space : isSpace c = false := by
    simp only [isSpace, Bool.or_eq_false_iff, beq_eq_false_iff_ne, Bool.and_eq_false_iff, decide_eq_false_iff_not,
      UInt8.le_iff_toNat_le]
    refine ⟨fun blank => ?_, .inr fun low => ?_⟩
    · simp [blank] at first
    · exact absurd low (by simp; omega)
  have whole : (c :: s ++ rest).takeWhile isDigit = c :: s := by
    rw [List.takeWhile_append_of_pos digits]
    cases rest with
    | nil => simp
    | cons d rest => simp [stop d rfl]
  unfold Text.readDigits
  rw [List.cons_append, List.dropWhile_cons_of_neg (by simp [space])]
  split
  · rename_i minus
    simp [(List.cons.inj minus).1] at first
  · rename_i plus
    simp [(List.cons.inj plus).1] at first
  · rw [← List.cons_append, whole]

theorem IsNumber.convtoLong (h : IsNumber s) (small : digitsValue s < 65536) {rest : Bytes}
    (stop : ∀ c ∈ rest.head?, isDigit c = false) : Text.convtoLong (s ++ rest) = digitsValue s := by
  unfold Text.convtoLong
  rw [h.readDigits stop]
  have fits : ¬ (s = [] ∨ (digitsValue s : ℤ) < -2 ^ 63 ∨ 2 ^ 63 ≤ (digitsValue s : ℤ)) := by
    rintro (none | low | high)
    · exact h.1 none
    · omega
    · omega
  exact if_neg fits

theorem IsNumber.convtoLong_self (h : IsNumber s) (small : digitsValue s < 65536) :
    Text.convtoLong s = digitsValue s := by
  have ends : ∀ c ∈ ([] : Bytes).head?, isDigit c = false := by simp
  have whole := h.convtoLong small ends
  rwa [List.append_nil] at whole

theorem IsNumber.not_mem (h : IsNumber s) {c : UInt8} (other : isDigit c = false) : c ∉ s := fun found => by
  simp [h.2 c found] at other

theorem PortText.convtoLong (h : PortText x r) : Text.convtoLong x = r.first := by
  cases h with
  | port number _ small => exact number.convtoLong_self small
  | range number _ _ order small => exact number.convtoLong (by omega) fun c dash => Option.some.inj dash ▸ rfl

theorem PortText.valid (h : PortText x r) : 0 < r.first ∧ r.first ≤ r.last ∧ r.last < 65536 := by
  cases h <;> dsimp only <;> omega

end texts

/-! ## The machine without overlaps -/

/-- A range is being enumerated, and `inRange` is the port that was returned last. -/
def PortTemplate.Inside (p : PortTemplate) : Prop := 0 < p.inRange ∧ p.inRange ≤ p.rangeEnd

instance (p : PortTemplate) : Decidable p.Inside := inferInstanceAs (Decidable (_ ∧ _))

structure Ready (p : PortTemplate) (items : List PortRange) : Prop where
  exclusive : p.overlapped = false
  plain : p.sep.allowEmpty = false
  texts : List.Forall₂ PortText p.sep.remaining items
  marked : p.Inside → p.inRange ∈ p.overlapSet

/-- What the calls to come return. -/
def ahead (p : PortTemplate) (items : List PortRange) : List ℤ :=
  if p.Inside then
    (PortRange.mk (p.inRange + 1) p.rangeEnd).ports.filter (· ∉ p.overlapSet) ++
      enumerate (marksAfter p.overlapSet ⟨p.inRange, p.rangeEnd⟩) items
  else enumerate p.overlapSet items

section machine
variable {p : PortTemplate} {items : List PortRange} {a b j : ℤ} {marks : Finset ℤ} {fuel : ℕ}

theorem overlaps_eq (exclusive : p.overlapped = false) (val : ℤ) :
    p.overlaps val = (decide (val ∈ p.overlapSet), { p with overlapSet := insert val p.overlapSet }) := by
  simp [PortTemplate.overlaps, exclusive]

/-- The loop stops at the first port that was not seen, or behind the range. -/
theorem skipSeen_eq (exclusive : p.overlapped = false) (within : p.inRange ≤ p.rangeEnd + 1)
    (enough : (p.rangeEnd + 2 - p.inRange).toNat ≤ fuel) :
    ∃ j, p.inRange ≤ j ∧ j ≤ p.rangeEnd + 1 ∧ (∀ x, p.inRange ≤ x → x < j → x ∈ p.overlapSet) ∧
      (j ≤ p.rangeEnd → j ∉ p.overlapSet) ∧
        p.skipSeen fuel = some { p with inRange := j, overlapSet := insert j p.overlapSet } := by
  induction fuel generalizing p with
  | zero => omega
  | succ fuel ih =>
    rw [PortTemplate.skipSeen, overlaps_eq exclusive]
    by_cases go : p.inRange ∈ p.overlapSet ∧ p.inRange ≤ p.rangeEnd
    · have stay : insert p.inRange p.overlapSet = p.overlapSet := Finset.insert_eq_of_mem go.1
      obtain ⟨j, low, high, seen, fresh, run⟩ :=
        ih (p := { p with inRange := p.inRange + 1 }) exclusive (by dsimp only; omega) (by dsimp only; omega)
      refine ⟨j, by dsimp only at low; omega, high, fun x above below => ?_, fresh, ?_⟩
      · rcases eq_or_lt_of_le above with rfl | above
        · exact go.1
        · exact seen x above below
      · rw [stay]
        simpa [go] using run
    · refine ⟨p.inRange, le_refl _, within, fun x above below => absurd above (by omega), fun le seen => go ⟨seen, le⟩, ?_⟩
      simpa using fun seen le => absurd ⟨seen, le⟩ go

/-- Ports that were seen are not enumerated. -/
theorem filter_ports_skip (low : a ≤ j) (high : j ≤ b + 1) (seen : ∀ x, a ≤ x → x < j → x ∈ marks) :
    (PortRange.mk a b).ports.filter (· ∉ marks) = (PortRange.mk j b).ports.filter (· ∉ marks) := by
  induction hn : (j - a).toNat generalizing a with
  | zero =>
    obtain rfl : a = j := by omega
    rfl
  | succ n ih =>
    have first : a ∈ marks := seen a (le_refl a) (by omega)
    rw [ports_cons (by omega), List.filter_cons_of_neg (by simpa using first)]
    exact ih (by omega) (fun x above => seen x (by omega)) (by omega)

theorem filter_ports_insert (below : j < a) :
    (PortRange.mk a b).ports.filter (· ∉ insert j marks) = (PortRange.mk a b).ports.filter (· ∉ marks) :=
  List.filter_congr fun x hx => by
    have above := (mem_ports.mp hx).1
    have other : x ≠ j := by
      dsimp only at above
      omega
    simp [other]

theorem marksAfter_insert (proper : a < b) (low : a ≤ j) (high : j ≤ b) (fresh : j ∉ marks)
    (seen : ∀ x, a ≤ x → x < j → x ∈ marks) : marksAfter (insert j marks) ⟨j, b⟩ = marksAfter marks ⟨a, b⟩ := by
  ext x
  simp only [mem_marksAfter, Finset.mem_insert]
  constructor
  · rintro ((rfl | before) | own | ⟨later, rfl | marked, rfl⟩)
    · exact .inr (.inl ⟨low, high⟩)
    · exact .inl before
    · exact .inr (.inl ⟨low.trans own.1, own.2⟩)
    · exact absurd later (lt_irrefl _)
    · exact .inr (.inr ⟨proper, marked, rfl⟩)
  · rintro (before | own | ⟨-, marked, rfl⟩)
    · exact .inl (.inr before)
    · rcases lt_or_ge x j with below | above
      · exact .inl (.inr (seen x own.1 below))
      · exact .inr (.inl ⟨above, own.2⟩)
    · have later : j ≠ b := fun same => fresh (same ▸ marked)
      exact .inr (.inr ⟨lt_of_le_of_ne high later, .inr marked, rfl⟩)

/-- The next port of the range that was not seen is returned. -/
theorem Ready.ahead_next (h : Ready p items) (inside : p.Inside) (low : p.inRange + 1 ≤ j) (high : j ≤ p.rangeEnd)
    (fresh : j ∉ p.overlapSet) (seen : ∀ x, p.inRange + 1 ≤ x → x < j → x ∈ p.overlapSet) :
    ahead p items = j :: ahead { p with inRange := j, overlapSet := insert j p.overlapSet } items := by
  have here := h.marked inside
  have positive := inside.1
  have inside' : PortTemplate.Inside { p with inRange := j, overlapSet := insert j p.overlapSet } :=
    ⟨by dsimp only; omega, high⟩
  have seen' : ∀ x, p.inRange ≤ x → x < j → x ∈ p.overlapSet := fun x above below => by
    rcases eq_or_lt_of_le above with rfl | above
    · exact here
    · exact seen x above below
  rw [ahead, if_pos inside, ahead, if_pos inside', filter_ports_skip low (by omega) seen, ports_cons high,
    List.filter_cons_of_pos (by simpa using fresh)]
  dsimp only
  rw [filter_ports_insert (by omega), marksAfter_insert (by omega) (by omega) high fresh seen', List.cons_append]

/-- A range whose ports were all seen marks the port behind it. -/
theorem Ready.ahead_over (h : Ready p items) (inside : p.Inside)
    (seen : ∀ x, p.inRange + 1 ≤ x → x ≤ p.rangeEnd → x ∈ p.overlapSet) :
    ahead p items =
      enumerate (if p.inRange < p.rangeEnd then insert (p.rangeEnd + 1) p.overlapSet else p.overlapSet) items := by
  have here := h.marked inside
  have none : (PortRange.mk (p.inRange + 1) p.rangeEnd).ports.filter (· ∉ p.overlapSet) = [] := by
    refine List.filter_eq_nil_iff.mpr fun x hx => ?_
    obtain ⟨low, high⟩ := mem_ports.mp hx
    simpa using seen x low high
  rw [ahead, if_pos inside, none, List.nil_append]
  congr 1
  ext x
  have inside (own : p.inRange ≤ x ∧ x ≤ p.rangeEnd) : x ∈ p.overlapSet := by
    rcases eq_or_lt_of_le own.1 with rfl | above
    · exact here
    · exact seen x above own.2
  rw [mem_marksAfter]
  dsimp only
  split
  · have last : p.rangeEnd ∈ p.overlapSet := seen _ (by omega) (le_refl _)
    rw [Finset.mem_insert]
    tauto
  · tauto

theorem Ready.nextInRange (h : Ready p items) : ∃ out p', p.nextInRange = some (out, p') ∧ Ready p' items ∧
    (out = none → ¬ p'.Inside ∧ ahead p items = ahead p' items) ∧
      ∀ j, out = some j → ahead p items = j :: ahead p' items := by
  unfold PortTemplate.nextInRange
  by_cases started : 0 < p.inRange
  · rw [if_pos started]
    dsimp only
    by_cases more : p.inRange + 1 ≤ p.rangeEnd
    · have inside : p.Inside := ⟨started, by omega⟩
      have exclusive : { p with inRange := p.inRange + 1 }.overlapped = false := h.exclusive
      rw [if_pos more, overlaps_eq exclusive]
      dsimp only
      by_cases seen : p.inRange + 1 ∈ p.overlapSet
      · obtain ⟨j, low, high, all, fresh, run⟩ := skipSeen_eq exclusive (by dsimp only; omega) (le_refl _)
        have stay : insert (p.inRange + 1) p.overlapSet = p.overlapSet := Finset.insert_eq_of_mem seen
        dsimp only at low high all fresh run
        rw [stay, run]
        by_cases within : j ≤ p.rangeEnd
        · refine ⟨some j, { p with inRange := j, overlapSet := insert j p.overlapSet }, by simp [seen, within],
            ⟨h.exclusive, h.plain, h.texts, fun _ => Finset.mem_insert_self j _⟩, by simp, fun i same => ?_⟩
          obtain rfl := Option.some.inj same
          exact h.ahead_next inside low within (fresh within) all
        · obtain rfl : j = p.rangeEnd + 1 := by omega
          have idle : ¬ PortTemplate.Inside
              { p with inRange := p.rangeEnd + 1, overlapSet := insert (p.rangeEnd + 1) p.overlapSet } :=
            fun inside => within inside.2
          refine ⟨none, { p with inRange := p.rangeEnd + 1, overlapSet := insert (p.rangeEnd + 1) p.overlapSet },
            by simp [seen], ⟨h.exclusive, h.plain, h.texts, fun inside => absurd inside idle⟩, fun _ => ⟨idle, ?_⟩, by simp⟩
          rw [h.ahead_over inside fun x low high => all x low (by omega), if_pos (by omega), ahead, if_neg idle]
      · refine ⟨some (p.inRange + 1),
          { p with inRange := p.inRange + 1, overlapSet := insert (p.inRange + 1) p.overlapSet }, by simp [seen],
          ⟨h.exclusive, h.plain, h.texts, fun _ => Finset.mem_insert_self _ _⟩, by simp, fun i same => ?_⟩
        obtain rfl := Option.some.inj same
        exact h.ahead_next inside (le_refl _) more seen fun x above below => absurd above (not_le.mpr below)
    · have idle : ¬ PortTemplate.Inside { p with inRange := 0 } := fun inside => absurd inside.1 (lt_irrefl 0)
      refine ⟨none, { p with inRange := 0 }, by simp [more],
        ⟨h.exclusive, h.plain, h.texts, fun inside => absurd inside idle⟩, fun _ => ⟨idle, ?_⟩, by simp⟩
      by_cases inside : p.Inside
      · rw [h.ahead_over inside fun x low high => absurd (low.trans high) more, if_neg (by omega), ahead, if_neg idle]
      · rw [ahead, if_neg inside, ahead, if_neg idle]
  · rw [if_neg started]
    have idle : ¬ p.Inside := fun inside => started inside.1
    exact ⟨none, p, rfl, h, fun _ => ⟨idle, rfl⟩, fun j impossible => by simp at impossible⟩

theorem enumerate_fresh {r : PortRange} (fresh : r.first ∉ marks) (valid : r.first ≤ r.last) :
    enumerate marks (r :: items) = r.first ::
      ((PortRange.mk (r.first + 1) r.last).ports.filter (· ∉ marks) ++ enumerate (marksAfter marks r) items) := by
  have split : r.ports = r.first :: (PortRange.mk (r.first + 1) r.last).ports := ports_cons valid
  rw [enumerate, if_neg fresh, split, List.filter_cons_of_pos (by simpa using fresh), List.cons_append]

/-- An item whose number is new is begun. -/
theorem beginItem_eq {x : Bytes} {r : PortRange} (item : PortText x r) (fresh : r.first ∉ marks)
    (exclusive : p.overlapped = false) (plain : p.sep.allowEmpty = false)
    (texts : List.Forall₂ PortText p.sep.remaining items) (idle : ¬ p.Inside)
    (inserted : p.overlapSet = insert r.first marks) :
    (p.beginItem x).1 = r.first ∧ Ready (p.beginItem x).2 items ∧
      r.first :: ahead (p.beginItem x).2 items = enumerate marks (r :: items) := by
  have value := item.convtoLong
  rw [enumerate_fresh fresh item.valid.2.1]
  unfold PortTemplate.beginItem
  cases item with
  | port number low high =>
    have none : rfind 45 x = none := rfind_none (number.not_mem (by decide))
    rw [none, value]
    refine ⟨rfl, ⟨exclusive, plain, texts, fun inside => absurd inside idle⟩, ?_⟩
    have single : insert (digitsValue x : ℤ) marks = marksAfter marks ⟨digitsValue x, digitsValue x⟩ := by
      ext port
      rw [mem_marksAfter, Finset.mem_insert]
      dsimp only
      constructor
      · rintro (rfl | before)
        · exact .inr (.inl ⟨le_refl _, le_refl _⟩)
        · exact .inl before
      · rintro (before | own | extra)
        · exact .inr before
        · exact .inl (le_antisymm own.2 own.1)
        · exact absurd extra.1 (lt_irrefl _)
    rw [ahead, if_neg idle, inserted, single]
    dsimp only
    rw [ports_nil (by omega)]
    rfl
  | @range s t number number' low order high =>
    have from_s : convtoLong s = digitsValue s := number.convtoLong_self (by omega)
    have plain_t : cStr t = t := cStr_eq_iff.mpr (number'.not_mem (by decide))
    rw [rfind_append s (number'.not_mem (by decide))]
    dsimp only
    rw [plain_t, from_s, number'.convtoLong_self high, if_pos (by simp; omega)]
    have inside : PortTemplate.Inside
        { p with rangeBegin := digitsValue s, rangeEnd := digitsValue t, inRange := digitsValue s } :=
      ⟨by dsimp only; omega, by dsimp only; omega⟩
    refine ⟨rfl, ⟨exclusive, plain, texts, fun _ => by simp [inserted]⟩, ?_⟩
    dsimp only at fresh inserted
    rw [ahead, if_pos inside]
    dsimp only
    rw [inserted, filter_ports_insert (by omega),
      marksAfter_insert (by omega) (le_refl _) (by omega) fresh fun x above below => absurd above (not_le.mpr below)]

/-- Items whose number was seen are passed over. -/
theorem skipItems_eq {x : Bytes} {r : PortRange} (item : PortText x r) (exclusive : p.overlapped = false)
    (plain : p.sep.allowEmpty = false) (texts : List.Forall₂ PortText p.sep.remaining items) (enough : items.length < fuel) :
    ∃ out sep' items', sep'.allowEmpty = false ∧ List.Forall₂ PortText sep'.remaining items' ∧
      ((out = none ∧ items' = [] ∧ p.skipItems fuel x = some (none, { p with sep := sep' }) ∧
          enumerate p.overlapSet (r :: items) = []) ∨
        ∃ x' r', out = some x' ∧ PortText x' r' ∧ r'.first ∉ p.overlapSet ∧
          p.skipItems fuel x = some (some x', { p with sep := sep', overlapSet := insert r'.first p.overlapSet }) ∧
            enumerate p.overlapSet (r :: items) = enumerate p.overlapSet (r' :: items')) := by
  induction fuel generalizing p x r items with
  | zero => omega
  | succ fuel ih =>
    rw [PortTemplate.skipItems, overlaps_eq exclusive, item.convtoLong]
    dsimp only
    by_cases seen : r.first ∈ p.overlapSet
    · have stay : insert r.first p.overlapSet = p.overlapSet := Finset.insert_eq_of_mem seen
      have passed (rest : List PortRange) : enumerate p.overlapSet (r :: rest) = enumerate p.overlapSet rest := by
        rw [enumerate, if_pos seen]
      obtain ⟨head, tail, plain', -⟩ := NodeStream.itemsExtract_eq plain
      rw [stay, passed, if_neg (by simp [seen])]
      cases hx : p.sep.itemsExtract with
      | mk out sep =>
        rw [hx] at head tail plain'
        dsimp only at head tail plain'
        cases texts' : p.sep.remaining with
        | nil =>
          rw [texts', List.head?_nil] at head
          rw [texts', List.tail_nil] at tail
          rw [texts'] at texts
          obtain rfl := List.forall₂_nil_left_iff.mp texts
          subst head
          exact ⟨none, sep, [], plain', tail ▸ .nil, .inl ⟨rfl, rfl, rfl, rfl⟩⟩
        | cons y rest =>
          rw [texts', List.head?_cons] at head
          rw [texts', List.tail_cons] at tail
          rw [texts'] at texts
          obtain ⟨r', items', item', later, rfl⟩ := List.forall₂_cons_left_iff.mp texts
          subst head
          have shorter : items'.length < fuel := by simpa using enough
          exact ih (p := { p with sep }) item' exclusive plain' (tail ▸ later) shorter
    · rw [if_pos (by simp [seen])]
      exact ⟨some x, p.sep, items, plain, texts, .inr ⟨x, r, rfl, item, seen, rfl, rfl⟩⟩

/-- Between ranges the next item is looked for. -/
theorem Ready.nextItem (h : Ready p items) (idle : ¬ p.Inside) : ∃ p' items',
    p.nextItem = some ((ahead p items).headD 0, p') ∧ Ready p' items' ∧ ahead p' items' = (ahead p items).tail := by
  obtain ⟨exclusive, plain, texts, -⟩ := h
  obtain ⟨head, tail, plain', same⟩ := NodeStream.itemsExtract_eq plain
  have few := NodeStream.length_remaining_le p.sep
  rw [ahead, if_neg idle]
  unfold PortTemplate.nextItem
  cases hx : p.sep.itemsExtract with
  | mk out sep =>
    rw [hx] at head tail plain' same
    dsimp only at head tail plain' same ⊢
    cases texts' : p.sep.remaining with
    | nil =>
      rw [texts', List.head?_nil] at head
      rw [texts', List.tail_nil] at tail
      rw [texts'] at texts
      obtain rfl := List.forall₂_nil_left_iff.mp texts
      subst head
      have idle' : ¬ PortTemplate.Inside { p with sep } := idle
      exact ⟨{ p with sep }, [], rfl, ⟨exclusive, plain', tail ▸ .nil, fun inside => absurd inside idle⟩,
        by rw [ahead, if_neg idle']; rfl⟩
    | cons y rest =>
      rw [texts', List.head?_cons] at head
      rw [texts', List.tail_cons] at tail
      rw [texts'] at texts few
      obtain ⟨r, items, item, later, rfl⟩ := List.forall₂_cons_left_iff.mp texts
      subst head
      dsimp only
      have enough : items.length < sep.tokens.length + 1 := by
        rw [← later.length_eq, same]
        exact Nat.lt_succ_of_lt few
      obtain ⟨out, sep', items', plain'', texts', found⟩ :=
        skipItems_eq (p := { p with sep }) item exclusive plain' (tail ▸ later) enough
      rcases found with ⟨rfl, rfl, run, beyond⟩ | ⟨x, r', rfl, item', fresh, run, onward⟩
      · have idle' : ¬ PortTemplate.Inside { p with sep := sep' } := idle
        dsimp only at run beyond
        rw [run, beyond]
        exact ⟨{ p with sep := sep' }, [], rfl, ⟨exclusive, plain'', texts', fun inside => absurd inside idle⟩,
          by rw [ahead, if_neg idle']; rfl⟩
      · dsimp only at run onward fresh
        obtain ⟨port, ready, all⟩ :=
          beginItem_eq (p := { p with sep := sep', overlapSet := insert r'.first p.overlapSet }) item' fresh exclusive
            plain'' texts' idle rfl
        rw [run, onward, ← all]
        exact ⟨_, items', congrArg some (Prod.ext port rfl), ready, rfl⟩

/-- A call returns the next port, and 0 where there is none. -/
theorem Ready.itemsExtract (h : Ready p items) : ∃ p' items',
    p.itemsExtract = some ((ahead p items).headD 0, p') ∧ Ready p' items' ∧ ahead p' items' = (ahead p items).tail := by
  obtain ⟨out, p', run, ready, beyond, next⟩ := h.nextInRange
  unfold PortTemplate.itemsExtract
  rw [run]
  cases out with
  | none =>
    obtain ⟨idle, same⟩ := beyond rfl
    rw [same]
    exact ready.nextItem idle
  | some port =>
    rw [next port rfl]
    exact ⟨p', items, rfl, ready, rfl⟩

/-- A call for each port of a list, each of which leaves the rest of it, yields the list. -/
theorem yields_of_steps {R : PortTemplate → List ℤ → Prop}
    (step : ∀ p ports, R p ports → ∃ p', p.itemsExtract = some (ports.headD 0, p') ∧ R p' ports.tail)
    {p : PortTemplate} {ports : List ℤ} (start : R p ports) : Yields p ports := by
  intro n
  induction n generalizing p ports with
  | zero => simp [PortTemplate.calls]
  | succ n ih =>
    obtain ⟨p', run, rest⟩ := step p ports start
    rw [PortTemplate.calls, run]
    dsimp only [bind, Option.bind]
    rw [ih rest]
    cases ports with
    | nil => simp [List.replicate_succ]
    | cons port ports => simp [List.replicate_succ', ← List.append_assoc, List.take_append]

theorem Ready.yields (h : Ready p items) : Yields p (ahead p items) :=
  yields_of_steps (R := fun p ports => ∃ items, Ready p items ∧ ahead p items = ports)
    (fun p ports ⟨items, ready, same⟩ => by
      obtain ⟨p', items', run, ready', rest⟩ := ready.itemsExtract
      exact ⟨p', same ▸ run, items', ready', same ▸ rest⟩) ⟨items, h, rfl⟩

end machine

/-! ## The machine with overlaps -/

structure Listing (p : PortTemplate) (items : List PortRange) : Prop where
  shared : p.overlapped = true
  plain : p.sep.allowEmpty = false
  texts : List.Forall₂ PortText p.sep.remaining items

/-- What the calls to come return. -/
def listed (p : PortTemplate) (items : List PortRange) : List ℤ :=
  (if p.Inside then (PortRange.mk (p.inRange + 1) p.rangeEnd).ports else []) ++ items.flatMap (·.ports)

section overlaps
variable {p : PortTemplate} {items : List PortRange}

theorem overlaps_shared (shared : p.overlapped = true) (val : ℤ) : p.overlaps val = (false, p) := if_pos shared

theorem Listing.beginItem {x : Bytes} {r : PortRange} (h : Listing p items) (item : PortText x r) (idle : ¬ p.Inside) :
    (p.beginItem x).1 = r.first ∧ Listing (p.beginItem x).2 items ∧
      r.first :: listed (p.beginItem x).2 items = r.ports ++ items.flatMap (·.ports) := by
  have split : r.ports = r.first :: (PortRange.mk (r.first + 1) r.last).ports := ports_cons item.valid.2.1
  have value := item.convtoLong
  rw [split]
  unfold PortTemplate.beginItem
  cases item with
  | port number low high =>
    have none : rfind 45 x = none := rfind_none (number.not_mem (by decide))
    rw [none, value]
    refine ⟨rfl, h, ?_⟩
    rw [listed, if_neg idle]
    dsimp only
    rw [ports_nil (by omega)]
    rfl
  | @range s t number number' low order high =>
    have from_s : convtoLong s = digitsValue s := number.convtoLong_self (by omega)
    have plain_t : cStr t = t := cStr_eq_iff.mpr (number'.not_mem (by decide))
    rw [rfind_append s (number'.not_mem (by decide))]
    dsimp only
    rw [plain_t, from_s, number'.convtoLong_self high, if_pos (by simp; omega)]
    have inside : PortTemplate.Inside
        { p with rangeBegin := digitsValue s, rangeEnd := digitsValue t, inRange := digitsValue s } :=
      ⟨by dsimp only; omega, by dsimp only; omega⟩
    refine ⟨rfl, ⟨h.shared, h.plain, h.texts⟩, ?_⟩
    rw [listed, if_pos inside]
    rfl

theorem Listing.nextItem (h : Listing p items) (idle : ¬ p.Inside) : ∃ p' items',
    p.nextItem = some ((listed p items).headD 0, p') ∧ Listing p' items' ∧ listed p' items' = (listed p items).tail := by
  obtain ⟨shared, plain, texts⟩ := h
  obtain ⟨head, tail, plain', -⟩ := NodeStream.itemsExtract_eq plain
  rw [listed, if_neg idle, List.nil_append]
  unfold PortTemplate.nextItem
  cases hx : p.sep.itemsExtract with
  | mk out sep =>
    rw [hx] at head tail plain'
    dsimp only at head tail plain' ⊢
    have idle' : ¬ PortTemplate.Inside { p with sep } := idle
    cases texts' : p.sep.remaining with
    | nil =>
      rw [texts', List.head?_nil] at head
      rw [texts', List.tail_nil] at tail
      rw [texts'] at texts
      obtain rfl := List.forall₂_nil_left_iff.mp texts
      subst head
      exact ⟨{ p with sep }, [], rfl, ⟨shared, plain', tail ▸ .nil⟩, by rw [listed, if_neg idle']; rfl⟩
    | cons y rest =>
      rw [texts', List.head?_cons] at head
      rw [texts', List.tail_cons] at tail
      rw [texts'] at texts
      obtain ⟨r, items, item, later, rfl⟩ := List.forall₂_cons_left_iff.mp texts
      subst head
      dsimp only
      have listing : Listing { p with sep } items := ⟨shared, plain', tail ▸ later⟩
      obtain ⟨port, listing', all⟩ := listing.beginItem item idle'
      rw [PortTemplate.skipItems, overlaps_shared (p := { p with sep }) shared, List.flatMap_cons, ← all]
      exact ⟨_, items, congrArg some (Prod.ext port rfl), listing', rfl⟩

theorem Listing.itemsExtract (h : Listing p items) : ∃ p' items',
    p.itemsExtract = some ((listed p items).headD 0, p') ∧ Listing p' items' ∧ listed p' items' = (listed p items).tail := by
  unfold PortTemplate.itemsExtract PortTemplate.nextInRange
  by_cases started : 0 < p.inRange
  · rw [if_pos started]
    dsimp only
    by_cases more : p.inRange + 1 ≤ p.rangeEnd
    · have shared : { p with inRange := p.inRange + 1 }.overlapped = true := h.shared
      have inside : p.Inside := ⟨started, by omega⟩
      have inside' : PortTemplate.Inside { p with inRange := p.inRange + 1 } := ⟨by dsimp only; omega, more⟩
      rw [if_pos more, overlaps_shared shared, listed, if_pos inside, ports_cons more]
      exact ⟨{ p with inRange := p.inRange + 1 }, items, rfl, ⟨h.shared, h.plain, h.texts⟩,
        by rw [listed, if_pos inside']; rfl⟩
    · have idle : ¬ PortTemplate.Inside { p with inRange := 0 } := fun inside => absurd inside.1 (lt_irrefl 0)
      have same : listed p items = listed { p with inRange := 0 } items := by
        rw [listed, listed, if_neg idle, ports_nil (by omega), ite_self]
      rw [if_neg more, same]
      exact Listing.nextItem ⟨h.shared, h.plain, h.texts⟩ idle
  · rw [if_neg started]
    exact h.nextItem fun inside => started inside.1

theorem Listing.yields (h : Listing p items) : Yields p (listed p items) :=
  yields_of_steps (R := fun p ports => ∃ items, Listing p items ∧ listed p items = ports)
    (fun p ports ⟨items, listing, same⟩ => by
      obtain ⟨p', items', run, listing', rest⟩ := listing.itemsExtract
      exact ⟨p', same ▸ run, items', listing', same ▸ rest⟩) ⟨items, h, rfl⟩

end overlaps

/-! ## Texts of any kind -/

/-- What holds of the machine without overlaps, whatever text it reads. -/
structure Steady (p : PortTemplate) : Prop where
  exclusive : p.overlapped = false
  plain : p.sep.allowEmpty = false
  small : p.rangeEnd < 2 ^ 63

/-- A bound on the calls that return a port. -/
def callsLeft (p : PortTemplate) : ℕ :=
  p.sep.remaining.length * 2 ^ 64 + if 0 < p.inRange then (p.rangeEnd + 1 - p.inRange).toNat else 0

section any
variable {p : PortTemplate} {fuel : ℕ}

theorem convtoLong_lt (s : Bytes) : convtoLong s < 2 ^ 63 := by
  unfold convtoLong
  dsimp only
  generalize (if (readDigits s).1 then -(digitsValue (readDigits s).2 : ℤ) else digitsValue (readDigits s).2) = n
  split <;> omega

theorem callsLeft_lt (h : Steady p) : callsLeft p < (p.sep.remaining.length + 1) * 2 ^ 64 := by
  have := h.small
  unfold callsLeft
  split <;> omega

theorem skipItems_steady (h : Steady p) (enough : p.sep.remaining.length < fuel) (x : Bytes) :
    ∃ out p', p.skipItems fuel x = some (out, p') ∧ Steady p' ∧ p'.sep.remaining.length ≤ p.sep.remaining.length := by
  induction fuel generalizing p x with
  | zero => omega
  | succ fuel ih =>
    rw [PortTemplate.skipItems, overlaps_eq h.exclusive]
    dsimp only
    split
    · exact ⟨some x, _, rfl, ⟨h.exclusive, h.plain, h.small⟩, le_refl _⟩
    · obtain ⟨head, tail, plain', -⟩ := NodeStream.itemsExtract_eq h.plain
      cases hx : p.sep.itemsExtract with
      | mk out sep =>
        rw [hx] at head tail plain'
        dsimp only at head tail plain' ⊢
        have shorter : sep.remaining.length ≤ p.sep.remaining.length := by
          rw [tail, List.length_tail]
          exact Nat.sub_le ..
        cases out with
        | none => exact ⟨none, _, rfl, ⟨h.exclusive, plain', h.small⟩, shorter⟩
        | some y =>
          have some : p.sep.remaining ≠ [] := fun none => by simp [none] at head
          have less : sep.remaining.length < fuel := by
            have := List.length_pos_iff.mpr some
            rw [tail, List.length_tail]
            omega
          obtain ⟨out, p', run, steady, le⟩ :=
            ih (p := { p with overlapSet := insert (convtoLong x) p.overlapSet, sep }) ⟨h.exclusive, plain', h.small⟩ less y
          exact ⟨out, p', run, steady, le.trans shorter⟩

theorem Steady.beginItem (h : Steady p) (x : Bytes) :
    Steady (p.beginItem x).2 ∧ (p.beginItem x).2.sep = p.sep := by
  unfold PortTemplate.beginItem
  split
  · rename_i sbegin behind _
    dsimp only
    split
    · exact ⟨⟨h.exclusive, h.plain, convtoLong_lt _⟩, rfl⟩
    · exact ⟨⟨h.exclusive, h.plain, convtoLong_lt _⟩, rfl⟩
  · exact ⟨h, rfl⟩

/-- Between ranges a token is taken. -/
theorem Steady.nextItem (h : Steady p) : ∃ port p', p.nextItem = some (port, p') ∧ Steady p' ∧
    (port = 0 ∨ p'.sep.remaining.length < p.sep.remaining.length) := by
  obtain ⟨head, tail, plain', same⟩ := NodeStream.itemsExtract_eq h.plain
  have few := NodeStream.length_remaining_le p.sep
  unfold PortTemplate.nextItem
  cases hx : p.sep.itemsExtract with
  | mk out sep =>
    rw [hx] at head tail plain' same
    dsimp only at head tail plain' same ⊢
    cases out with
    | none => exact ⟨0, _, rfl, ⟨h.exclusive, plain', h.small⟩, .inl rfl⟩
    | some x =>
      have some : p.sep.remaining ≠ [] := fun none => by simp [none] at head
      have less : sep.remaining.length < p.sep.remaining.length := by
        rw [tail, List.length_tail]
        exact Nat.sub_lt (List.length_pos_iff.mpr some) Nat.one_pos
      have enough : sep.remaining.length < sep.tokens.length + 1 := by
        rw [same]
        omega
      obtain ⟨out, p', run, steady, le⟩ :=
        skipItems_steady (p := { p with sep }) ⟨h.exclusive, plain', h.small⟩ enough x
      dsimp only
      rw [run]
      cases out with
      | none => exact ⟨0, p', rfl, steady, .inl rfl⟩
      | some y =>
        obtain ⟨steady', kept⟩ := steady.beginItem y
        have taken : (p'.beginItem y).2.sep.remaining.length < p.sep.remaining.length := by
          rw [kept]
          exact le.trans_lt less
        exact ⟨(p'.beginItem y).1, (p'.beginItem y).2, rfl, steady', .inr taken⟩

theorem Steady.nextInRange (h : Steady p) : ∃ out p', p.nextInRange = some (out, p') ∧ Steady p' ∧
    p'.sep = p.sep ∧ (out.isSome → callsLeft p' < callsLeft p) := by
  unfold PortTemplate.nextInRange
  by_cases started : 0 < p.inRange
  · rw [if_pos started]
    dsimp only
    by_cases more : p.inRange + 1 ≤ p.rangeEnd
    · have exclusive : { p with inRange := p.inRange + 1 }.overlapped = false := h.exclusive
      rw [if_pos more, overlaps_eq exclusive]
      dsimp only
      by_cases seen : p.inRange + 1 ∈ p.overlapSet
      · obtain ⟨j, low, high, -, -, run⟩ := skipSeen_eq exclusive (by dsimp only; omega) (le_refl _)
        have stay : insert (p.inRange + 1) p.overlapSet = p.overlapSet := Finset.insert_eq_of_mem seen
        dsimp only at low high run
        rw [stay, run]
        refine ⟨if j ≤ p.rangeEnd then some j else none, { p with inRange := j, overlapSet := insert j p.overlapSet },
          by simp [seen], ⟨h.exclusive, h.plain, h.small⟩, rfl, fun returned => ?_⟩
        have within : j ≤ p.rangeEnd := by
          by_contra beyond
          simp [beyond] at returned
        unfold callsLeft
        dsimp only
        rw [if_pos started, if_pos (by omega)]
        omega
      · refine ⟨some (p.inRange + 1),
          { p with inRange := p.inRange + 1, overlapSet := insert (p.inRange + 1) p.overlapSet }, by simp [seen],
          ⟨h.exclusive, h.plain, h.small⟩, rfl, fun _ => ?_⟩
        unfold callsLeft
        dsimp only
        rw [if_pos started, if_pos (by omega)]
        omega
    · exact ⟨none, { p with inRange := 0 }, by simp [more], ⟨h.exclusive, h.plain, h.small⟩, rfl, by simp⟩
  · rw [if_neg started]
    exact ⟨none, p, rfl, h, rfl, by simp⟩

/-- A call ends, and leaves fewer calls if it returns a port. -/
theorem Steady.itemsExtract (h : Steady p) : ∃ port p', p.itemsExtract = some (port, p') ∧ Steady p' ∧
    (port = 0 ∨ callsLeft p' < callsLeft p) := by
  obtain ⟨out, p', run, steady, same, less⟩ := h.nextInRange
  unfold PortTemplate.itemsExtract
  rw [run]
  cases out with
  | some port => exact ⟨port, p', rfl, steady, .inr (less rfl)⟩
  | none =>
    obtain ⟨port, q, item, steady', taken⟩ := steady.nextItem
    refine ⟨port, q, item, steady', taken.imp_right fun taken => ?_⟩
    rw [same] at taken
    calc callsLeft q < (q.sep.remaining.length + 1) * 2 ^ 64 := callsLeft_lt steady'
      _ ≤ p.sep.remaining.length * 2 ^ 64 := Nat.mul_le_mul_right _ taken
      _ ≤ callsLeft p := Nat.le_add_right ..

end any

/-! ## Whole lists -/

section lists
variable {p : PortTemplate} {ports ports' : List ℤ} {text : Bytes} {items : List PortRange}

/-- Only one list of ports is yielded. -/
theorem Yields.unique (h : Yields p ports) (h' : Yields p ports') (port : 0 ∉ ports) (port' : 0 ∉ ports') :
    ports = ports' := by
  have back {l : List ℤ} (nonzero : 0 ∉ l) {n : ℕ} (long : l.length ≤ n) :
      ((l ++ .replicate n 0).take n).filter (· ≠ 0) = l := by
    have all : l.filter (· ≠ 0) = l := List.filter_eq_self.mpr fun x hx => by
      simpa using ne_of_mem_of_not_mem hx nonzero
    rw [List.take_append, List.take_of_length_le long, List.filter_append, all]
    simp
  have same := Option.some.inj ((h (ports.length + ports'.length)).symm.trans (h' _))
  rw [← back port (Nat.le_add_right _ ports'.length), same, back port' (Nat.le_add_left _ _)]

theorem yields_exclusive (texts : List.Forall₂ PortText (tokens 44 text) items) :
    Yields (.ofSource text false) (enumerate ∅ items) := by
  have idle : ¬ (PortTemplate.ofSource text false).Inside := fun inside => absurd inside.1 (lt_irrefl 0)
  have ready : Ready (.ofSource text false) items := ⟨rfl, rfl, texts, fun inside => absurd inside idle⟩
  have yields := ready.yields
  rwa [ahead, if_neg idle] at yields

theorem yields_shared (texts : List.Forall₂ PortText (tokens 44 text) items) :
    Yields (.ofSource text true) (items.flatMap (·.ports)) := by
  have idle : ¬ (PortTemplate.ofSource text true).Inside := fun inside => absurd inside.1 (lt_irrefl 0)
  have listing : Listing (.ofSource text true) items := ⟨rfl, rfl, texts⟩
  have yields := listing.yields
  rwa [listed, if_neg idle, List.nil_append] at yields

/-- The ports of the list are returned once each where overlaps are not allowed, and otherwise one item after another. -/
def Enumerates (text : Bytes) (allowOverlapped : Bool) (items : List PortRange) : Prop :=
  if allowOverlapped then Yields (.ofSource text true) (items.flatMap (·.ports))
  else ∃ ports, ports.Nodup ∧ (∀ port, port ∈ ports ↔ Covered items port) ∧ Yields (.ofSource text false) ports

/-- The live ranges cover what is listed, and none of them marks a port that is listed later. -/
def Complete (items : List PortRange) : Prop :=
  (∀ port, Covered items port → Covered (liveFrom [] items) port) ∧ Tight items [] (liveFrom [] items)

theorem valid_of_texts {texts : List Bytes} (h : List.Forall₂ PortText texts items) :
    ∀ r ∈ items, 0 < r.first ∧ r.first ≤ r.last := by
  induction h with
  | nil => simp
  | cons item _ ih => exact List.forall_mem_cons.mpr ⟨⟨item.valid.1, item.valid.2.1⟩, ih⟩

theorem complete_iff (texts : List.Forall₂ PortText (tokens 44 text) items) :
    (∃ ports, ports.Nodup ∧ (∀ port, port ∈ ports ↔ Covered items port) ∧ Yields (.ofSource text false) ports) ↔
      Complete items := by
  have valid := valid_of_texts texts
  have zero : ¬ Covered items 0 := fun ⟨r, hr, low, _⟩ => absurd (valid r hr).1 (not_lt.mpr low)
  have all : (∀ port, Covered items port → port ∈ enumerate ∅ items ∨ Covered [] port) ↔ Complete items :=
    enumerate_all_iff (by simp [Covered]) (fun _ hr => hr) fun r hr => (valid r hr).2
  rw [← all]
  constructor
  · rintro ⟨ports, -, mem, yields⟩ port covered
    have same : ports = enumerate ∅ items := yields.unique (yields_exclusive texts)
      (fun h => zero ((mem 0).mp h)) fun h => zero (covered_of_mem_enumerate h)
    exact .inl (same ▸ (mem port).mpr covered)
  · intro complete
    refine ⟨enumerate ∅ items, enumerate_nodup ∅ items, fun port => ⟨covered_of_mem_enumerate, fun covered => ?_⟩,
      yields_exclusive texts⟩
    exact (complete port covered).resolve_right (by simp [Covered])

/-- A list is enumerated exactly where overlaps are allowed or its live ranges are complete. -/
theorem enumerates_iff (text : Bytes) (allowOverlapped : Bool) (items : List PortRange)
    (texts : List.Forall₂ PortText (tokens 44 text) items) :
    Enumerates text allowOverlapped items ↔ allowOverlapped = true ∨ Complete items := by
  unfold Enumerates
  cases allowOverlapped with
  | false => simpa using complete_iff texts
  | true => simpa using yields_shared texts

theorem enumerates_disjoint : Enumerates (lit "80,8000-8002") false [⟨80, 80⟩, ⟨8000, 8002⟩] :=
  (enumerates_iff (lit "80,8000-8002") false [⟨80, 80⟩, ⟨8000, 8002⟩]
    (.cons (.port ⟨by decide, by decide +kernel⟩ (by decide) (by decide))
      (.cons (.range (s := lit "8000") (t := lit "8002") ⟨by decide, by decide +kernel⟩
        ⟨by decide, by decide +kernel⟩ (by decide) (by decide) (by decide)) .nil))).mpr
    (.inr ⟨fun _ covered => covered, tight_cons.mpr ⟨by simp [Covered], tight_cons.mpr ⟨by simp [Covered],
      fun _ _ _ none => by simp [liveFrom] at none⟩⟩⟩)

/-- A range that begins inside an earlier one is dropped as a whole. -/
theorem overlapping_ranges_lose_ports : ¬ ∀ (text : Bytes) (allowOverlapped : Bool) (items : List PortRange),
    List.Forall₂ PortText (tokens 44 text) items → Enumerates text allowOverlapped items := fun all => by
  have texts : List.Forall₂ PortText (tokens 44 (lit "100-105,103-110")) [⟨100, 105⟩, ⟨103, 110⟩] :=
    .cons (.range (s := lit "100") (t := lit "105") ⟨by decide, by decide +kernel⟩ ⟨by decide, by decide +kernel⟩
        (by decide) (by decide) (by decide))
      (.cons (.range (s := lit "103") (t := lit "110") ⟨by decide, by decide +kernel⟩ ⟨by decide, by decide +kernel⟩
        (by decide) (by decide) (by decide)) .nil)
  have complete := (complete_iff texts).mp (all _ false _ texts)
  exact absurd (complete.1 110 (by decide)) (by decide)

example : (PortTemplate.ofSource (lit "2,1-2,3") false).calls 4 = some [2, 1, 0, 0] := by decide +kernel

end lists

end BerylDB.Ports
