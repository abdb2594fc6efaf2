import BerylDB.Framing

/-! # Messages on the wire

`Serializer::Serialize` and `Serializer::Parse` of `core_serialize.cpp`, with `token_node_stream` of `nodes.cpp`.  A
token stream is the part of its message that has not been read. -/
namespace BerylDB.Protocol
open Text Delimited

/-- `INPUT_LIMIT`. -/
def inputLimit : ℕ := 65530

/-- A message without tags. -/
structure Message where
  source : Option Bytes
  command : Bytes
  params : List Bytes
deriving DecidableEq

namespace Message

def sourcePrefix (m : Message) : Bytes :=
  match m.source with
  | some source => 58 :: source ++ [32]
  | none => []

/-- The line that `Serialize` builds. -/
def line (m : Message) : Bytes :=
  m.sourcePrefix ++ m.command ++
    match m.params.getLast? with
    | some last => m.params.dropLast.flatMap (32 :: ·) ++ 32 :: 58 :: last
    | none => []

def serialize (m : Message) : Bytes :=
  (if m.line.length > inputLimit then m.line.take inputLimit else m.line) ++ [13, 10]

end Message

/-- `get_middle`: a token and what follows the blanks behind it. -/
def getMiddle (rest : Bytes) : Option (Bytes × Bytes) :=
  if rest = [] then none else some (rest.takeWhile (· ≠ 32), (rest.dropWhile (· ≠ 32)).dropWhile (· = 32))

def getTrailing (rest : Bytes) : Option (Bytes × Bytes) :=
  match rest with
  | 58 :: token => some (token, [])
  | _ => getMiddle rest

theorem getMiddle_lt {rest token rest' : Bytes} (h : getMiddle rest = some (token, rest')) : rest'.length < rest.length := by
  unfold getMiddle at h
  split at h
  · cases h
  · rename_i nonempty
    cases h
    obtain ⟨c, s, rfl⟩ := List.exists_cons_of_ne_nil nonempty
    have blanks (s : Bytes) : (s.dropWhile (· = 32)).length ≤ s.length := (List.dropWhile_suffix _).length_le
    have token (s : Bytes) : (s.dropWhile (· ≠ 32)).length ≤ s.length := (List.dropWhile_suffix _).length_le
    have short := (blanks (s.dropWhile (· ≠ 32))).trans (token s)
    by_cases blank : c = 32
    · have leading := blanks s
      simp only [List.dropWhile_cons, blank, List.length_cons, ne_eq, not_true_eq_false, decide_false, decide_true,
        Bool.false_eq_true, if_false, if_true]
      omega
    · simp only [List.dropWhile_cons, blank, List.length_cons, ne_eq, not_false_eq_true, decide_true, if_true] at short ⊢
      omega

theorem getTrailing_lt {rest token rest' : Bytes} (h : getTrailing rest = some (token, rest')) :
    rest'.length < rest.length := by
  unfold getTrailing at h
  split at h
  · cases h
    simp
  · exact getMiddle_lt h

/-- The loop over `get_trailing`. -/
def parseParams (rest : Bytes) : List Bytes :=
  match _found : getTrailing rest with
  | some (token, rest') => token :: parseParams rest'
  | none => []
termination_by rest.length
decreasing_by exact getTrailing_lt _found

/-- `Serializer::Parse`, for the command and the parameters; `none` when it returns false.  A token of tags is given to
the modules, which leave the command and the parameters alone. -/
def parse (line : Bytes) : Option (Bytes × List Bytes) :=
  match line.findIdx? (· ≠ 32) with
  | none => none
  | some start =>
    let tagged := (line.drop start).head? = some 64
    let maxline := (((inputLimit : ℤ) - start - 2 + if tagged then inputLimit + 1 else 0) % 2 ^ 64).toNat
    let message := (line.drop start).take maxline
    let (token, rest) := (getMiddle message).getD ([], [])
    let tokens :=
      if token.head? = some 64 then
        if token.length > inputLimit then none
        else
          let maxbrldline := token.length + inputLimit - 1
          getMiddle (rest.take (maxbrldline - (message.length - rest.length)))
      else some (token, rest)
    let tokens := tokens.bind fun (token, rest) => if token.head? = some 58 then getMiddle rest else some (token, rest)
    tokens.map fun (token, rest) => (token, parseParams rest)

/-! ## Tokens -/

/-- A parameter that is not the last one: it has no blank, and no colon begins it. -/
structure Word (w : Bytes) : Prop where
  nonempty : w ≠ []
  unbroken : 32 ∉ w
  plain : w.head? ≠ some 58

/-- What follows a token. -/
def Follows (s : Bytes) : Prop := s = [] ∨ s.head? = some 32

theorem getMiddle_append {w s : Bytes} (nonempty : w ≠ []) (unbroken : 32 ∉ w) (follows : Follows s) :
    getMiddle (w ++ s) = some (w, s.dropWhile (· = 32)) := by
  have word : ∀ c ∈ w, (decide (c ≠ 32)) = true := fun c here => by simpa using fun blank : c = 32 => unbroken (blank ▸ here)
  have stop : s.takeWhile (· ≠ 32) = [] ∧ s.dropWhile (· ≠ 32) = s := by
    rcases follows with rfl | blank
    · simp
    · obtain ⟨s, rfl⟩ : ∃ s', s = 32 :: s' := by
        cases s with
        | nil => cases blank
        | cons c s' => exact ⟨s', by simpa using blank⟩
      simp
  unfold getMiddle
  rw [if_neg (by simp [nonempty]), List.takeWhile_append_of_pos word, List.dropWhile_append_of_pos word, stop.1, stop.2,
    List.append_nil]

theorem parseParams_some {rest token rest' : Bytes} (h : getTrailing rest = some (token, rest')) :
    parseParams rest = token :: parseParams rest' := by
  rw [parseParams]
  split
  · rename_i found
    rw [h] at found
    cases found
    rfl
  · rename_i none
    rw [h] at none
    cases none

@[simp] theorem parseParams_nil : parseParams [] = [] := by
  rw [parseParams]
  rfl

@[simp] theorem parseParams_colon (last : Bytes) : parseParams (58 :: last) = [last] := by
  have token : getTrailing (58 :: last) = some (last, []) := rfl
  rw [parseParams_some token, parseParams_nil]

theorem parseParams_word {w s : Bytes} (word : Word w) (follows : Follows s) :
    parseParams (w ++ s) = w :: parseParams (s.dropWhile (· = 32)) := by
  have first : (w ++ s).head? = w.head? := List.head?_append_of_ne_nil _ word.nonempty
  refine parseParams_some ?_
  unfold getTrailing
  split
  · rename_i token colon
    rw [colon] at first
    exact absurd first.symm word.plain
  · exact getMiddle_append word.nonempty word.unbroken follows

theorem follows_words (middle : List Bytes) {s : Bytes} (follows : Follows s) : Follows (middle.flatMap (32 :: ·) ++ s) := by
  cases middle with
  | nil => exact follows
  | cons w middle => exact .inr rfl

/-- The words of the middle come back, and then what the rest holds. -/
theorem parseParams_middle {middle : List Bytes} (words : ∀ w ∈ middle, Word w) {s : Bytes} (follows : Follows s) :
    parseParams ((middle.flatMap (32 :: ·) ++ s).dropWhile (· = 32)) =
      middle ++ parseParams (s.dropWhile (· = 32)) := by
  induction middle with
  | nil => rfl
  | cons w middle ih =>
    have word := words w (by simp)
    have next := follows_words middle follows
    have start : ((w :: middle).flatMap (32 :: ·) ++ s).dropWhile (· = 32) = w ++ (middle.flatMap (32 :: ·) ++ s) := by
      obtain ⟨c, w', rfl⟩ := List.exists_cons_of_ne_nil word.nonempty
      have solid : c ≠ 32 := fun blank => word.unbroken (by simp [blank])
      simp [solid]
    rw [start, parseParams_word word next, ih fun w here => words w (by simp [here]), List.cons_append]

theorem mem_getMiddle {rest token rest' : Bytes} (h : getMiddle rest = some (token, rest')) :
    token ⊆ rest ∧ rest' ⊆ rest := by
  unfold getMiddle at h
  split at h
  · cases h
  · cases h
    exact ⟨(List.takeWhile_prefix _).subset, ((List.dropWhile_suffix _).trans (List.dropWhile_suffix _)).subset⟩

theorem mem_getTrailing {rest token rest' : Bytes} (h : getTrailing rest = some (token, rest')) :
    token ⊆ rest ∧ rest' ⊆ rest := by
  unfold getTrailing at h
  split at h
  · cases h
    exact ⟨List.subset_cons_self _ _, List.nil_subset _⟩
  · exact mem_getMiddle h

theorem mem_parseParams {rest w : Bytes} (h : w ∈ parseParams rest) : w ⊆ rest := by
  fun_induction parseParams rest with
  | case1 rest token rest' found ih =>
    obtain ⟨first, later⟩ := mem_getTrailing found
    rcases List.mem_cons.mp h with rfl | h
    · exact first
    · exact fun c held => later (ih h held)
  | case2 => cases h

/-- The parameters are made of bytes of the line. -/
theorem mem_parse {line command w : Bytes} {params : List Bytes} (h : parse line = some (command, params))
    (here : w ∈ params) :
    w ⊆ line := by
  unfold parse at h
  split at h
  · cases h
  · rename_i start _
    dsimp only at h
    generalize message_eq : (line.drop start).take _ = message at h
    have part : message ⊆ line := by
      rw [← message_eq]
      exact fun c held => List.mem_of_mem_drop (List.mem_of_mem_take held)
    have read : ((getMiddle message).getD ([], [])).2 ⊆ line := by
      cases word : getMiddle message with
      | none => exact List.nil_subset _
      | some tokens => exact fun c held => part ((mem_getMiddle word).2 held)
    obtain ⟨⟨token, rest⟩, tokens, same⟩ := Option.map_eq_some_iff.mp h
    obtain ⟨⟨token', rest'⟩, tagged, tokens⟩ := Option.bind_eq_some_iff.mp tokens
    have later : rest' ⊆ line := by
      split at tagged
      · split at tagged
        · cases tagged
        · exact fun c held => read (List.mem_of_mem_take ((mem_getMiddle tagged).2 held))
      · cases tagged
        exact read
    have last : rest ⊆ line := by
      split at tokens
      · exact fun c held => later ((mem_getMiddle tokens).2 held)
      · cases tokens
        exact later
    cases same
    exact fun c held => last (mem_parseParams here held)

/-! ## The round trip -/

/-- No byte that `StreamData` drops, replaces or ends a line at. -/
def Plain (s : Bytes) : Prop := ∀ c ∈ s, c ≠ 0 ∧ c ≠ 10 ∧ c ≠ 13

instance (s : Bytes) : Decidable (Plain s) := List.decidableBAll _ s

/-- A message of words and a last parameter that `Serialize` does not cut. -/
structure Message.Sendable (m : Message) (middle : List Bytes) (last : Bytes) : Prop where
  source : ∀ source ∈ m.source, 32 ∉ source
  command : m.command ≠ [] ∧ 32 ∉ m.command
  params : m.params = middle ++ [last]
  middle : ∀ w ∈ middle, Word w
  last : last ≠ [] ∧ Plain last
  length : m.line.length ≤ inputLimit

/-- Feeding the serialized bytes to `StreamData` and `Parse` yields the command and the parameters. -/
def Message.RoundTrips (m : Message) : Prop :=
  ((InstanceStream.fresh ()).streamRead .patient m.serialize).processed.map parse = [some (m.command, m.params)]

/-- Source and command come through `StreamData` as they are, and the command is not read as a source or as tags. -/
structure Message.Named (m : Message) : Prop where
  source : ∀ source ∈ m.source, Plain source
  command : Plain m.command
  plain : m.command.head? ≠ some 58
  untagged : m.command.head? ≠ some 64

/-- `Parse` does not cut the line, and the parameters come through `StreamData` as they are. -/
structure Message.Fits (m : Message) : Prop extends m.Named where
  short : m.line.length + 2 ≤ inputLimit
  params : ∀ w ∈ m.params, Plain w

theorem head_of_take {line : Bytes} {n : ℕ} {c : UInt8} (h : (line.take n).head? = some c) : line.head? = some c := by
  cases line with
  | nil => simp at h
  | cons d line =>
    cases n with
    | zero => simp at h
    | succ n => simpa using h

/-- `Parse` of a line that begins with neither a blank nor tags. -/
theorem parse_untagged {line token rest : Bytes} {c : UInt8} (first : line.head? = some c) (solid : c ≠ 32)
    (untagged : c ≠ 64) (word : getMiddle (line.take (inputLimit - 2)) = some (token, rest))
    (plain : token.head? ≠ some 64) : parse line =
      (if token.head? = some 58 then getMiddle rest else some (token, rest)).map fun (token, rest) =>
        (token, parseParams rest) := by
  obtain ⟨line', rfl⟩ : ∃ line', line = c :: line' := by
    cases line with
    | nil => cases first
    | cons d line' => exact ⟨line', by simpa using first⟩
  have start : (c :: line').findIdx? (· ≠ 32) = some 0 := by simp [List.findIdx?_cons, solid]
  have bound : (((inputLimit : ℤ) - (0 : ℕ) - 2 + (0 : ℕ)) % 2 ^ 64).toNat = inputLimit - 2 := by decide
  simp only [parse, start, List.drop_zero, List.head?_cons, Option.some.injEq, untagged, if_false, bound, word,
    Option.getD_some, plain, Option.bind_some]

namespace Message.Sendable

variable {m : Message} {middle : List Bytes} {last : Bytes}

theorem line_eq (h : m.Sendable middle last) :
    m.line = m.sourcePrefix ++ m.command ++ (middle.flatMap (32 :: ·) ++ 32 :: 58 :: last) := by
  simp [Message.line, h.params]

/-- `Parse` of a line whose first bytes are those of the message up to `s`. -/
theorem parse_eq (h : m.Sendable middle last) (named : m.Named) {line s : Bytes} (follows : Follows s)
    (cut : line.take (inputLimit - 2) = m.sourcePrefix ++ m.command ++ (middle.flatMap (32 :: ·) ++ s)) :
    parse line = some (m.command, middle ++ parseParams (s.dropWhile (· = 32))) := by
  have next := follows_words middle follows
  have command := getMiddle_append h.command.1 h.command.2 next
  obtain ⟨c, command', letters⟩ := List.exists_cons_of_ne_nil h.command.1
  have solid : c ≠ 32 := fun blank => h.command.2 (by simp [letters, blank])
  have untagged : c ≠ 64 := fun tag => named.untagged (by simp [letters, tag])
  rw [← parseParams_middle h.middle follows]
  unfold sourcePrefix at cut
  cases sent : m.source with
  | none =>
    simp only [sent, List.nil_append] at cut
    rw [← cut] at command
    have first : line.head? = some c := head_of_take (by rw [cut, letters]; rfl)
    rw [parse_untagged first solid untagged command named.untagged, if_neg named.plain]
    rfl
  | some source =>
    simp only [sent, List.append_assoc, List.cons_append, List.nil_append] at cut
    have word : getMiddle (58 :: source ++ 32 :: (m.command ++ (middle.flatMap (32 :: ·) ++ s))) =
        some (58 :: source, m.command ++ (middle.flatMap (32 :: ·) ++ s)) := by
      have unbroken : 32 ∉ 58 :: source := by simpa using h.source source sent
      rw [getMiddle_append (by simp) unbroken (.inr rfl)]
      simp [letters, solid]
    rw [List.cons_append, ← cut] at word
    have first : line.head? = some 58 := head_of_take (by rw [cut]; rfl)
    rw [parse_untagged first (by decide) (by decide) word (by simp), List.head?_cons, if_pos rfl, command]
    rfl

/-- `Parse` reads the line if it is short enough; otherwise it loses the end of the last parameter. -/
theorem parse_line (h : m.Sendable middle last) (named : m.Named) :
    parse m.line = some (m.command, m.params) ↔ m.line.length + 2 ≤ inputLimit := by
  have split := h.line_eq
  constructor
  · intro parsed
    by_contra long
    have bound := h.length
    have nonempty := List.length_pos_of_ne_nil h.last.1
    obtain ⟨n, cut, short⟩ : ∃ n, n ≤ last.length ∧ m.line.take (inputLimit - 2) =
        m.sourcePrefix ++ m.command ++ (middle.flatMap (32 :: ·) ++ 32 :: (58 :: last).take n) := by
      have length := congrArg List.length split
      simp only [← List.append_assoc, List.length_append, List.length_cons] at length split
      obtain ⟨n, total⟩ : ∃ n, inputLimit - 2 =
          (m.sourcePrefix ++ m.command ++ middle.flatMap (32 :: ·)).length + (n + 1) :=
        ⟨inputLimit - 3 - (m.sourcePrefix ++ m.command ++ middle.flatMap (32 :: ·)).length, by
          simp only [List.length_append]
          omega⟩
      refine ⟨n, ?_, ?_⟩
      · simp only [List.length_append] at total
        omega
      · rw [total, split, List.take_length_add_append, List.take_succ_cons]
        simp
    have parsed' := h.parse_eq named (.inr rfl) short
    rw [parsed, h.params] at parsed'
    simp only [Option.some.injEq, Prod.mk.injEq, true_and, List.append_cancel_left_eq, List.dropWhile_cons,
      decide_true, if_true] at parsed'
    cases n with
    | zero => simp at parsed'
    | succ n =>
      have lost : last = last.take n := by simpa using parsed'
      have length := congrArg List.length lost
      rw [List.length_take] at length
      omega
  · intro short
    have whole : m.line.take (inputLimit - 2) = m.line := List.take_of_length_le (by omega)
    rw [h.parse_eq named (.inr rfl) (whole.trans split), h.params]
    simp

end Message.Sendable

theorem processed_serialize (m : Message) :
    ((InstanceStream.fresh ()).streamRead .patient m.serialize).processed = (lines 10 m.serialize).map clean := by
  have settled : InstanceStream.Settled .patient (InstanceStream.fresh ()) := .initial ⟨rfl, rfl, rfl, rfl⟩
  have read := settled.next (e := .read m.serialize) rfl
  rw [(read.handed rfl).1, InstanceStream.streamRead_received]
  rfl

theorem plain_clean {segment : Bytes} (h : 10 ∉ segment) : Plain (clean segment) := by
  intro c here
  obtain ⟨d, there, same⟩ := List.mem_filterMap.mp here
  have unended : d ≠ 10 := fun newline => h (newline ▸ there)
  split at same
  · cases same
    decide
  · rename_i nonzero
    split at same
    · cases same
    · rename_i noreturn
      cases same
      exact ⟨nonzero, unended, noreturn⟩

theorem clean_plain {segment : Bytes} (h : Plain segment) : clean segment = segment := by
  induction segment with
  | nil => rfl
  | cons c segment ih =>
    obtain ⟨nonzero, -, noreturn⟩ := h c (by simp)
    have tail := ih fun c here => h c (by simp [here])
    unfold clean at tail ⊢
    simp [nonzero, noreturn, tail]

/-- The line comes through as it is when the parameters are plain. -/
theorem Message.Sendable.lines_eq {m : Message} {middle : List Bytes} {last : Bytes} (h : m.Sendable middle last)
    (named : m.Named) (plain : ∀ w ∈ m.params, Plain w) : (lines 10 m.serialize).map clean = [m.line] := by
  have bytes : Plain m.line := by
    intro c here
    rw [h.line_eq] at here
    simp only [List.mem_append, List.mem_flatMap, List.mem_cons] at here
    rcases here with (source | command) | ⟨w, word, rfl | held⟩ | rfl | rfl | held
    · unfold Message.sourcePrefix at source
      cases sent : m.source with
      | none => simp [sent] at source
      | some name =>
        have letters := named.source name sent c
        simp only [sent, List.cons_append, List.mem_cons, List.mem_append, List.not_mem_nil, or_false] at source
        rcases source with rfl | held | rfl
        · decide
        · exact letters held
        · decide
    · exact named.command c command
    · decide
    · exact plain w (by simp [h.params, word]) c held
    · decide
    · decide
    · exact h.last.2 c held
  have ended : 10 ∉ m.line ++ [13] := by
    simpa using fun here => (bytes 10 here).2.1 rfl
  have sent : m.serialize = (m.line ++ [13]) ++ 10 :: [] := by
    simp [Message.serialize, h.length]
  rw [sent, lines_segment ended, lines_of_not_mem (by simp)]
  have trimmed : clean (m.line ++ [13]) = clean m.line := by simp [clean]
  rw [List.map_cons, List.map_nil, trimmed, clean_plain bytes]

theorem Message.Sendable.roundTrips_plain {m : Message} {middle : List Bytes} {last : Bytes} (h : m.Sendable middle last)
    (named : m.Named) (plain : ∀ w ∈ m.params, Plain w) : m.RoundTrips ↔ m.line.length + 2 ≤ inputLimit := by
  unfold Message.RoundTrips
  rw [processed_serialize, h.lines_eq named plain, ← h.parse_line named]
  simp

/-- A message comes through when `Parse` does not cut its line and its parts are plain, and otherwise it does not. -/
theorem round_trip {m : Message} {middle : List Bytes} {last : Bytes} (h : m.Sendable middle last) :
    (m.Fits → m.RoundTrips) ∧ (m.Named → m.RoundTrips → m.Fits) := by
  constructor
  · intro fits
    exact (h.roundTrips_plain fits.toNamed fits.params).mpr fits.short
  · intro named trip
    have plain : ∀ w ∈ m.params, Plain w := by
      intro w here c held
      obtain ⟨line, handed, parsed⟩ : ∃ line ∈ (lines 10 m.serialize).map clean, parse line = some (m.command, m.params) := by
        have result : some (m.command, m.params) ∈ ((lines 10 m.serialize).map clean).map parse := by
          rw [← processed_serialize, trip]
          simp
        exact List.mem_map.mp result
      obtain ⟨segment, ended, rfl⟩ := List.mem_map.mp handed
      exact plain_clean (not_mem_lines ended) c (mem_parse parsed here held)
    exact ⟨named, (h.roundTrips_plain named plain).mp trip, plain⟩

/-- A last parameter with blanks and a colon. -/
theorem round_trip_publish :
    (Message.mk (some (lit "bob")) (lit "PUBLISH") [lit "news", lit ":one : two"]).RoundTrips := by
  have sendable : (Message.mk (some (lit "bob")) (lit "PUBLISH") [lit "news", lit ":one : two"]).Sendable
      [lit "news"] (lit ":one : two") := by
    refine ⟨by decide, by decide, rfl, ?_, by decide, by decide⟩
    intro w here
    obtain rfl : w = lit "news" := by simpa using here
    exact ⟨by decide, by decide, by decide⟩
  exact (round_trip sendable).1 ⟨⟨by decide, by decide, by decide, by decide⟩, by decide, by decide⟩

/-- A line of one byte less than `INPUT_LIMIT` loses the end of its last parameter. -/
theorem round_trip_cut : ¬ ∀ m middle last, Message.Sendable m middle last → m.RoundTrips := by
  intro trips
  obtain ⟨last, size, plain⟩ : ∃ last : Bytes, last.length = 65520 ∧ Plain last := by
    refine ⟨List.replicate 65520 97, List.length_replicate, fun c here => ?_⟩
    rw [List.eq_of_mem_replicate here]
    decide
  have nonempty : last ≠ [] := List.ne_nil_of_length_pos (by omega)
  have word : lit "PUBLISH" ≠ [] ∧ 32 ∉ lit "PUBLISH" := by decide
  have letters : Plain (lit "PUBLISH") ∧ (lit "PUBLISH").head? ≠ some 58 ∧ (lit "PUBLISH").head? ≠ some 64 := by decide
  have length : (Message.mk none (lit "PUBLISH") [last]).line.length = 65529 := by
    have command : (lit "PUBLISH").length = 7 := by decide
    simp [Message.line, Message.sourcePrefix, command, size]
  have sendable : (Message.mk none (lit "PUBLISH") [last]).Sendable [] last := by
    refine ⟨by simp, word, rfl, by simp, ⟨nonempty, plain⟩, ?_⟩
    rw [length]
    decide
  have short := (sendable.roundTrips_plain ⟨by simp, letters.1, letters.2.1, letters.2.2⟩ (by simpa using plain)).mp
    (trips _ _ _ sendable)
  rw [length] at short
  exact absurd short (by decide)

end BerylDB.Protocol
