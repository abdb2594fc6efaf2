import BerylDB.Text
import Mathlib.Data.List.DropRight

/-! # Token streams

`node_stream` of `nodes.cpp`, which keeps the text and the position from which it reads on. -/
namespace BerylDB.Text

/-- What stands before and behind the last byte `c`, where `rfind` finds it. -/
def rfind (c : UInt8) (x : Bytes) : Option (Bytes × Bytes) :=
  if c ∈ x then
    let behind := x.rtakeWhile (· ≠ c)
    some (x.take (x.length - behind.length - 1), behind)
  else none

theorem rfind_none {c : UInt8} {x : Bytes} (absent : c ∉ x) : rfind c x = none := if_neg absent

theorem rfind_append {c : UInt8} (s : Bytes) {t : Bytes} (absent : c ∉ t) : rfind c (s ++ c :: t) = some (s, t) := by
  have behind : (s ++ c :: t).rtakeWhile (· ≠ c) = t := by
    have plain : ∀ d ∈ t.reverse, decide (d ≠ c) = true := fun d hd =>
      decide_eq_true fun same => absent (same ▸ List.mem_reverse.mp hd)
    simp only [List.rtakeWhile, List.reverse_append, List.reverse_cons, List.append_assoc]
    rw [List.takeWhile_append_of_pos plain]
    simp
  have before : (s ++ c :: t).length - t.length - 1 = s.length := by simp; omega
  unfold rfind
  rw [behind, if_pos (by simp)]
  dsimp only
  rw [before, List.take_left]

structure NodeStream where
  tokens : Bytes
  sep : UInt8
  pos : ℕ
  allowEmpty : Bool
deriving DecidableEq

namespace NodeStream

def ofSource (source : Bytes) (separator : UInt8) : NodeStream := ⟨source, separator, 0, false⟩

/-- The first position from `pos` on whose byte satisfies `p`, as `find` and `find_first_not_of` look for it. -/
def findFirst (p : UInt8 → Bool) (s : Bytes) (pos : ℕ) : Option ℕ := ((s.drop pos).findIdx? p).map (pos + ·)

def streamFinish (s : NodeStream) : Bool := s.tokens.length < s.pos

/-- The token is cleared where there is none. -/
def itemsExtract (s : NodeStream) : Option Bytes × NodeStream :=
  if s.streamFinish then (none, s)
  else
    match if s.allowEmpty then some s.pos else findFirst (· ≠ s.sep) s.tokens s.pos with
    | none => (none, { s with pos := s.tokens.length + 1 })
    | some pos =>
      let p := (findFirst (· = s.sep) s.tokens pos).getD s.tokens.length
      (some ((s.tokens.drop pos).take (p - pos)), { s with pos := p + 1 })

def getRemaining (s : NodeStream) : Bytes := if !s.streamFinish then s.tokens.drop s.pos else []

/-- `contains`, whose loop extracts one token a turn. -/
def contains (value : Bytes) : (fuel : ℕ) → NodeStream → Option Bool
  | 0, _ => none
  | fuel + 1, s =>
    match s.itemsExtract with
    | (none, _) => some false
    | (some token, s) => if value = token then some true else contains value fuel s

/-! ## The tokens that are left -/

def remaining (s : NodeStream) : List Bytes := Text.tokens s.sep (s.tokens.drop s.pos)

section
variable {s : NodeStream} {sep : UInt8} {text : Bytes} {pos : ℕ}

theorem tokens_dropWhile (sep : UInt8) (text : Bytes) :
    Text.tokens sep (text.dropWhile (· = sep)) = Text.tokens sep text := by
  induction text with
  | nil => rfl
  | cons c text ih =>
    by_cases same : c = sep
    · rw [List.dropWhile_cons_of_pos (by simpa using same), ih, same, tokens_cons]
    · rw [List.dropWhile_cons_of_neg (by simpa using same)]

/-- A text that does not begin with the separator begins with its first token. -/
theorem tokens_of_head (head : ∀ c ∈ text.head?, c ≠ sep) (some : text ≠ []) :
    Text.tokens sep text = text.takeWhile (· ≠ sep) :: Text.tokens sep (text.dropWhile (· ≠ sep)).tail := by
  have absent : sep ∉ text.takeWhile (· ≠ sep) := fun found => by simpa using List.mem_takeWhile_imp found
  have nonempty : text.takeWhile (· ≠ sep) ≠ [] := by
    cases text with
    | nil => exact absurd rfl some
    | cons c text => simp [head c rfl]
  have whole := List.takeWhile_append_dropWhile (p := (· ≠ sep)) (l := text)
  cases rest : text.dropWhile (· ≠ sep) with
  | nil =>
    rw [rest, List.append_nil] at whole
    rw [whole] at absent nonempty ⊢
    exact tokens_single absent nonempty
  | cons c later =>
    have last : c = sep := by
      have stops := List.head?_dropWhile_not (· ≠ sep) text
      rw [rest] at stops
      simpa using stops
    rw [rest, last] at whole
    conv_lhs => rw [← whole]
    exact tokens_append later absent nonempty

theorem findFirst_eq_none {p : UInt8 → Bool} : findFirst p text pos = none ↔ ∀ c ∈ text.drop pos, p c = false := by
  simp [findFirst, List.findIdx?_eq_none_iff]

/-- What is found lies behind the bytes that do not satisfy `p`. -/
theorem findFirst_eq_some {p : UInt8 → Bool} {i : ℕ} (found : findFirst p text pos = some i) :
    i = pos + ((text.drop pos).takeWhile (! p ·)).length ∧ i < text.length := by
  obtain ⟨k, at_k, rfl⟩ := Option.map_eq_some_iff.mp found
  obtain ⟨inside, rfl⟩ := List.findIdx?_eq_some_iff_findIdx_eq.mp at_k
  rw [List.length_drop] at inside
  refine ⟨?_, by omega⟩
  rw [List.takeWhile_eq_take_findIdx_not, List.length_take, List.length_drop]
  have same : (text.drop pos).findIdx (fun c => !!p c) = (text.drop pos).findIdx p := by simp
  rw [same]
  omega

theorem drop_add_takeWhile (p : UInt8 → Bool) (text : Bytes) (pos : ℕ) :
    text.drop (pos + ((text.drop pos).takeWhile p).length) = (text.drop pos).dropWhile p := by
  rw [← List.drop_drop]
  generalize text.drop pos = rest
  calc rest.drop (rest.takeWhile p).length
      = (rest.takeWhile p ++ rest.dropWhile p).drop (rest.takeWhile p).length := by
        rw [List.takeWhile_append_dropWhile]
    _ = rest.dropWhile p := List.drop_left

/-- A token is extracted as long as one is left. -/
theorem itemsExtract_eq (plain : s.allowEmpty = false) : s.itemsExtract.1 = s.remaining.head? ∧
    s.itemsExtract.2.remaining = s.remaining.tail ∧ s.itemsExtract.2.allowEmpty = false ∧
      s.itemsExtract.2.tokens = s.tokens := by
  obtain ⟨text, sep, pos, allowEmpty⟩ := s
  subst plain
  unfold itemsExtract remaining streamFinish
  dsimp only
  by_cases beyond : text.length < pos
  · have empty : text.drop pos = [] := List.drop_eq_nil_of_le (Nat.le_of_lt beyond)
    simp [beyond, empty]
  · rw [if_neg (by simpa using beyond), if_neg Bool.false_ne_true]
    cases start : findFirst (· ≠ sep) text pos with
    | none =>
      have all := findFirst_eq_none.mp start
      have none : (text.drop pos).dropWhile (· = sep) = [] :=
        List.dropWhile_eq_nil_iff.mpr fun c hc => by simpa using all c hc
      have empty : Text.tokens sep (text.drop pos) = [] := by rw [← tokens_dropWhile, none, tokens_nil]
      have behind : text.drop (text.length + 1) = [] := List.drop_eq_nil_of_le (Nat.le_succ _)
      simp [empty, behind]
    | some i =>
      obtain ⟨hi, inside⟩ := findFirst_eq_some start
      have skipped : text.drop i = (text.drop pos).dropWhile (· = sep) := by
        rw [hi]
        simpa using drop_add_takeWhile (· = sep) text pos
      have head : ∀ c ∈ (text.drop i).head?, c ≠ sep := fun c hc same => by
        have stops := List.head?_dropWhile_not (· = sep) (text.drop pos)
        rw [← skipped] at stops
        simp_all
      have nonempty : text.drop i ≠ [] := by simpa using inside
      have whole : Text.tokens sep (text.drop pos) = (text.drop i).takeWhile (· ≠ sep) ::
          Text.tokens sep ((text.drop i).dropWhile (· ≠ sep)).tail := by
        rw [← tokens_dropWhile, ← skipped, tokens_of_head head nonempty]
      have ends : (findFirst (· = sep) text i).getD text.length = i + ((text.drop i).takeWhile (· ≠ sep)).length := by
        cases stop : findFirst (· = sep) text i with
        | none =>
          have all := findFirst_eq_none.mp stop
          have self : (text.drop i).takeWhile (· ≠ sep) = text.drop i :=
            List.takeWhile_eq_self_iff.mpr fun c hc => by simpa using all c hc
          rw [self, List.length_drop, Option.getD_none]
          omega
        | some j => simpa using (findFirst_eq_some stop).1
      dsimp only
      rw [whole, ends]
      refine ⟨?_, ?_, rfl, rfl⟩
      · rw [Nat.add_sub_cancel_left, List.head?_cons]
        exact congrArg some (List.prefix_iff_eq_take.mp (List.takeWhile_prefix _)).symm
      · rw [List.tail_cons, ← List.drop_drop, drop_add_takeWhile, List.drop_one]

@[simp] theorem remaining_ofSource (source : Bytes) (separator : UInt8) :
    (ofSource source separator).remaining = Text.tokens separator source := rfl

/-- There are no more tokens than bytes. -/
theorem length_tokens_le (sep : UInt8) (text : Bytes) : (Text.tokens sep text).length ≤ text.length := by
  induction hn : text.length using Nat.strongRecOn generalizing text with
  | ind n ih =>
    cases text with
    | nil => simp
    | cons c text =>
      by_cases same : c = sep
      · rw [same, tokens_cons]
        have := ih text.length (by rw [← hn]; simp) text rfl
        rw [← hn, List.length_cons]
        omega
      · rw [tokens_of_head (by simpa using same) (by simp), List.length_cons]
        have shorter : ((c :: text).dropWhile (· ≠ sep)).tail.length < n := by
          have := (List.dropWhile_sublist (· ≠ sep) (l := c :: text)).length_le
          rw [List.length_tail, ← hn]
          simp only [List.length_cons] at this ⊢
          omega
        have := ih _ shorter _ rfl
        omega

theorem length_remaining_le (s : NodeStream) : s.remaining.length ≤ s.tokens.length := by
  refine (length_tokens_le s.sep _).trans ?_
  simp

end

end NodeStream

end BerylDB.Text
