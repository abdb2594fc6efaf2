import BerylDB.Authorization
import BerylDB.ContainerCommands
import BerylDB.Preparing
import BerylDB.Relocation
import BerylDB.Wire

/-! # Values in quotes

A line ends in a text in quotes.  `Parse` cuts the text at its blanks, `Execute` puts it together again, and `stripe` takes
the quotes away. -/
namespace BerylDB.Protocol
open Text

/-- A text in quotes. -/
def quoted (text : Bytes) : Bytes := 34 :: (text ++ [34])

/-- The line `command p1 ... pk "text"`. -/
def valueLine (command : Bytes) (middle : List Bytes) (text : Bytes) : Bytes :=
  command ++ (middle.flatMap (32 :: ·) ++ 32 :: quoted text)

/-- No blank is followed by another one or by a colon. -/
def Kept (text : Bytes) : Prop := text.IsChain fun a b => a = 32 → b ≠ 32 ∧ b ≠ 58

instance (text : Bytes) : Decidable (Kept text) := inferInstanceAs (Decidable (List.IsChain _ _))

/-- The tokens of a text, with one blank between them. -/
def rejoin (rest : Bytes) : Bytes := [32].intercalate (parseParams rest)

theorem kept_append {w s : Bytes} (unbroken : 32 ∉ w) : Kept (w ++ s) ↔ Kept s := by
  induction w with
  | nil => rfl
  | cons c w ih =>
    have solid : c ≠ 32 := fun blank => unbroken (by simp [blank])
    have tail : 32 ∉ w := fun here => unbroken (List.mem_cons_of_mem _ here)
    have first : Kept (c :: (w ++ s)) ↔ Kept (w ++ s) := by
      cases w ++ s with
      | nil => exact iff_of_true (List.isChain_singleton c) List.isChain_nil
      | cons d rest =>
        unfold Kept
        rw [List.isChain_cons_cons]
        exact and_iff_right fun blank => absurd blank solid
    rw [List.cons_append, first, ih tail]

theorem kept_blank {s : Bytes} {c : UInt8} : Kept (32 :: c :: s) ↔ (c ≠ 32 ∧ c ≠ 58) ∧ Kept (c :: s) := by
  unfold Kept
  rw [List.isChain_cons_cons]
  exact and_congr_left' (forall_prop_of_true rfl)

theorem kept_quoted {text : Bytes} : Kept (quoted text) ↔ Kept text := by
  have quote : 32 ∉ [(34 : UInt8)] := by decide
  unfold quoted
  rw [← List.singleton_append, kept_append quote]
  unfold Kept
  rw [List.isChain_append]
  refine and_iff_left ⟨List.isChain_singleton _, ?_⟩
  intro _ _ c last _
  obtain rfl : c = 34 := by simpa using last.symm
  decide

/-! ## Tokens -/

/-- A token is the whole text or ends at its first blank. -/
theorem getMiddle_some {rest token rest' : Bytes} (h : getMiddle rest = some (token, rest')) :
    (token = rest ∧ 32 ∉ rest ∧ rest' = []) ∨
      ∃ s, rest = token ++ 32 :: s ∧ 32 ∉ token ∧ rest' = s.dropWhile (· = 32) := by
  have solid (w : Bytes) (unbroken : 32 ∉ w) : ∀ c ∈ w, (decide (c ≠ 32)) = true := fun c here => by
    simpa using fun blank : c = 32 => unbroken (blank ▸ here)
  unfold getMiddle at h
  split at h
  · cases h
  · cases h
    by_cases blank : 32 ∈ rest
    · obtain ⟨w, s, rfl, unbroken⟩ := List.eq_append_cons_of_mem blank
      refine .inr ⟨s, ?_⟩
      rw [List.takeWhile_append_of_pos (solid w unbroken), List.dropWhile_append_of_pos (solid w unbroken)]
      simp [unbroken]
    · refine .inl ⟨List.takeWhile_eq_self_iff.mpr (solid rest blank), blank, ?_⟩
      rw [List.dropWhile_eq_nil_iff.mpr (solid rest blank)]
      rfl

theorem getTrailing_length {rest token rest' : Bytes} (h : getTrailing rest = some (token, rest')) :
    token.length ≤ rest.length ∧ (rest' ≠ [] → token.length + rest'.length + 1 ≤ rest.length) := by
  unfold getTrailing at h
  split at h
  · cases h
    simp
  · rcases getMiddle_some h with ⟨rfl, -, rfl⟩ | ⟨s, rfl, -, rfl⟩
    · simp
    · have shorter := (List.dropWhile_suffix (l := s) fun c => c = 32).length_le
      simp only [List.length_append, List.length_cons]
      omega

/-- Putting the tokens together never makes a text longer. -/
theorem rejoin_length (rest : Bytes) : (rejoin rest).length ≤ rest.length := by
  unfold rejoin
  fun_induction parseParams rest with
  | case1 rest token rest' found ih =>
    obtain ⟨short, shorter⟩ := getTrailing_length found
    cases later : parseParams rest' with
    | nil => simpa using short
    | cons next tokens =>
      have more : rest' ≠ [] := by
        rintro rfl
        simp at later
      rw [later] at ih
      simp only [List.intercalate_cons_cons, List.length_append, List.length_singleton]
      have := shorter more
      omega
  | case2 => simp

/-! ## Texts that end in a quote -/

theorem dropBlanks_last {s : Bytes} (last : s.getLast? = some 34) : (s.dropWhile (· = 32)).getLast? = some 34 := by
  obtain ⟨blanks, split⟩ := List.dropWhile_suffix (l := s) fun c => c = 32
  cases rest : s.dropWhile (· = 32) with
  | nil =>
    have blank : ∀ c ∈ s, c = 32 := by simpa using List.dropWhile_eq_nil_iff.mp rest
    exact absurd (blank 34 (List.mem_of_getLast? last)) (by decide)
  | cons c rest' =>
    rw [← split, rest, List.getLast?_append_of_ne_nil _ (List.cons_ne_nil c rest')] at last
    exact last

theorem last_blank {w s : Bytes} : (w ++ 32 :: s).getLast? = some 34 ↔ s.getLast? = some 34 := by
  rw [List.getLast?_append_of_ne_nil _ (List.cons_ne_nil 32 s)]
  cases s with
  | nil => decide
  | cons c s => rw [List.getLast?_cons_cons]

theorem getTrailing_none {rest : Bytes} (h : getTrailing rest = none) : rest = [] := by
  unfold getTrailing getMiddle at h
  split at h
  · cases h
  · by_contra more
    simp [more] at h

theorem intercalate_parseParams {token rest : Bytes} (more : rest ≠ []) :
    [32].intercalate (token :: parseParams rest) = token ++ 32 :: rejoin rest := by
  have tokens : parseParams rest ≠ [] := by
    cases found : getTrailing rest with
    | none => exact absurd (getTrailing_none found) more
    | some next => simp [parseParams_some found]
  rw [List.intercalate_cons_of_ne_nil tokens, List.append_assoc]
  rfl

theorem rejoin_last {rest : Bytes} (last : rest.getLast? = some 34) : (rejoin rest).getLast? = some 34 := by
  unfold rejoin
  fun_induction parseParams rest with
  | case1 rest token rest' found ih =>
    unfold getTrailing at found
    split at found
    · cases found
      cases token with
      | nil => exact absurd last (by decide)
      | cons c token => simpa using last
    · rcases getMiddle_some found with ⟨rfl, -, rfl⟩ | ⟨s, rfl, -, rfl⟩
      · simpa using last
      · have left := dropBlanks_last (last_blank.mp last)
        have more : s.dropWhile (· = 32) ≠ [] := fun none => by simp [none] at left
        rw [intercalate_parseParams more]
        exact last_blank.mpr (ih left)
  | case2 rest none =>
    obtain rfl := getTrailing_none none
    exact absurd last (by decide)

/-- The tokens of a text that begins with neither a blank nor a colon. -/
theorem rejoin_cases {rest : Bytes} (solid : rest.head? ≠ some 32) (plain : rest.head? ≠ some 58)
    (last : rest.getLast? = some 34) : (32 ∉ rest ∧ rejoin rest = rest) ∨
      ∃ w s, w ≠ [] ∧ 32 ∉ w ∧ s.getLast? = some 34 ∧ rest = w ++ 32 :: s ∧
        rejoin rest = w ++ 32 :: rejoin (s.dropWhile (· = 32)) := by
  by_cases blank : 32 ∈ rest
  · obtain ⟨w, s, rfl, unbroken⟩ := List.eq_append_cons_of_mem blank
    have nonempty : w ≠ [] := by
      rintro rfl
      exact solid rfl
    have word : Word w := ⟨nonempty, unbroken, fun colon => plain (by rw [List.head?_append_of_ne_nil _ nonempty, colon])⟩
    have quote := last_blank.mp last
    have left := dropBlanks_last quote
    have more : s.dropWhile (· = 32) ≠ [] := fun none => by simp [none] at left
    refine .inr ⟨w, s, nonempty, unbroken, quote, rfl, ?_⟩
    rw [rejoin, parseParams_word word (.inr rfl), List.dropWhile_cons_of_pos (by decide), intercalate_parseParams more]
  · refine .inl ⟨blank, ?_⟩
    have nonempty : rest ≠ [] := fun none => by simp [none] at last
    have single := parseParams_word (s := []) ⟨nonempty, blank, plain⟩ (.inl rfl)
    rw [List.append_nil, List.dropWhile_nil, parseParams_nil] at single
    rw [rejoin, single, List.intercalate_singleton]

/-- A text is put together as it was if and only if no blank in it is followed by another one or by a colon. -/
theorem rejoin_eq_iff {rest : Bytes} (solid : rest.head? ≠ some 32) (plain : rest.head? ≠ some 58)
    (last : rest.getLast? = some 34) : rejoin rest = rest ↔ Kept rest := by
  induction length : rest.length using Nat.strong_induction_on generalizing rest with
  | _ n ih =>
    rcases rejoin_cases solid plain last with ⟨unbroken, same⟩ | ⟨w, s, nonempty, unbroken, quote, rfl, joined⟩
    · refine iff_of_true same ?_
      have kept := kept_append (s := []) unbroken
      rw [List.append_nil] at kept
      exact kept.mpr List.isChain_nil
    · rw [joined, List.append_cancel_left_eq, List.cons.injEq, and_iff_right rfl, kept_append unbroken]
      cases s with
      | nil => exact absurd quote (by decide)
      | cons c s =>
        rw [kept_blank]
        by_cases blank : c = 32
        · refine iff_of_false (fun same => ?_) fun h => h.1.1 blank
          have shorter := rejoin_length (s.dropWhile (· = 32))
          have fewer := (List.dropWhile_suffix (l := s) fun c => c = 32).length_le
          rw [List.dropWhile_cons_of_pos (by simpa using blank)] at same
          have whole := congrArg List.length same
          rw [List.length_cons] at whole
          omega
        · rw [List.dropWhile_cons_of_neg (by simpa using blank)]
          by_cases colon : c = 58
          · refine iff_of_false (fun same => ?_) fun h => h.1.2 colon
            subst colon
            rw [rejoin, parseParams_colon, List.intercalate_singleton] at same
            have whole := congrArg List.length same
            rw [List.length_cons] at whole
            omega
          · have shorter : (c :: s).length < n := by
              simp only [← length, List.length_append, List.length_cons]
              omega
            rw [and_iff_right ⟨blank, colon⟩]
            exact ih _ shorter (by simpa using blank) (by simpa using colon) quote rfl

/-! ## The value that a handler reads -/

section
variable {text : Bytes}

theorem quoted_last : (quoted text).getLast? = some 34 := by
  unfold quoted
  rw [← List.cons_append, List.getLast?_append_of_ne_nil _ (by decide)]
  rfl

theorem rejoin_quoted_head : (rejoin (quoted text)).head? = some 34 ∧ 2 ≤ (rejoin (quoted text)).length := by
  have solid : (quoted text).head? ≠ some 32 := by simp [quoted]
  have plain : (quoted text).head? ≠ some 58 := by simp [quoted]
  rcases rejoin_cases solid plain quoted_last with
    ⟨-, same⟩ | ⟨w, s, nonempty, -, quote, split, joined⟩
  · rw [same]
    exact ⟨rfl, by simp [quoted]⟩
  · have first : (w ++ 32 :: s).head? = some 34 := by
      rw [← split]
      rfl
    rw [List.head?_append_of_ne_nil _ nonempty] at first
    have size : 0 < w.length := List.length_pos_iff.mpr nonempty
    rw [joined, List.head?_append_of_ne_nil _ nonempty, List.length_append, List.length_cons]
    exact ⟨first, by omega⟩

/-- `stripe` takes the first and the last byte of a text that begins with a quote. -/
theorem stripe_eq_iff {value : Bytes} (first : value.head? = some 34) (last : value.getLast? = some 34)
    (long : 2 ≤ value.length) : stripe value = text ↔ value = quoted text := by
  obtain ⟨inner, rfl⟩ : ∃ inner, value = quoted inner := by
    cases value with
    | nil => cases first
    | cons c rest =>
      obtain rfl : c = 34 := by simpa using first
      have more : rest ≠ [] := by
        rintro rfl
        simp at long
      have ended : rest.getLast? = some 34 := by
        rw [← List.singleton_append, List.getLast?_append_of_ne_nil _ more] at last
        exact last
      obtain ⟨inner, rfl⟩ := List.getLast?_eq_some_iff.mp ended
      exact ⟨inner, rfl⟩
  have text_only : isNumber (quoted inner) true = false := by simp [isNumber, quoted, isNumberFrom, isDigit]
  have stripped : stripe (quoted inner) = inner := by
    unfold stripe
    rw [text_only, if_neg Bool.false_ne_true, if_neg (by simp [quoted])]
    simp [quoted]
  rw [stripped]
  constructor
  · rintro rfl
    rfl
  · intro same
    simpa [quoted] using same

/-- What is put together again loses its quotes and is the text, if and only if the text is kept. -/
theorem stripe_rejoin : stripe (rejoin (quoted text)) = text ↔ Kept text := by
  rw [stripe_eq_iff rejoin_quoted_head.1 (rejoin_last quoted_last) rejoin_quoted_head.2,
    rejoin_eq_iff (by simp [quoted]) (by simp [quoted]) quoted_last, kept_quoted]

end

/-- The name of a command, which is no source and no tags. -/
structure CommandWord (command : Bytes) : Prop extends Word command where
  untagged : command.head? ≠ some 64

theorem parse_valueLine {command text : Bytes} {middle : List Bytes} (named : CommandWord command)
    (words : ∀ w ∈ middle, Word w) (short : (valueLine command middle text).length + 2 ≤ inputLimit) :
    parse (valueLine command middle text) = some (command, middle ++ parseParams (quoted text)) := by
  have next : Follows (middle.flatMap (32 :: ·) ++ 32 :: quoted text) := follows_words middle (.inr rfl)
  obtain ⟨c, rest, letters⟩ := List.exists_cons_of_ne_nil named.nonempty
  have solid : c ≠ 32 := fun blank => named.unbroken (by simp [letters, blank])
  have untagged : c ≠ 64 := fun tag => named.untagged (by simp [letters, tag])
  have first : (valueLine command middle text).head? = some c := by simp [valueLine, letters]
  have whole : (valueLine command middle text).take (inputLimit - 2) = valueLine command middle text :=
    List.take_of_length_le (by omega)
  have word := getMiddle_append named.nonempty named.unbroken next
  rw [← valueLine, ← whole] at word
  have params := parseParams_middle (s := 32 :: quoted text) words (.inr rfl)
  rw [parse_untagged first solid untagged word named.untagged, if_neg named.plain, Option.map_some]
  dsimp only
  rw [params, List.dropWhile_cons_of_pos (by decide)]
  rfl

/-! ## The parameters of a handler -/

section
open Groups
variable {d : Daemon} {u : LocalUser} {h : Command} {command : Bytes} {params given : List Bytes} {limits : Option (ℤ × ℤ)}

/-- With modules that leave a command alone, its handler gets the merged and trimmed parameters. -/
theorem execute_handled (silent : ∀ command params validated, d.onPreCommand command params validated = some (command, params))
    (base : d.getBase command = some h) (handled : d.execute u command params = .handled h given limits) :
    given = h.trim (h.merge params) := by
  unfold Daemon.execute at handled
  split at handled
  · cases handled
  · simp only [base, Daemon.perform, Daemon.validated, silent] at handled
    split_ifs at handled
    · cases handled
      rfl
    · split at handled
      · cases handled
      · cases handled
        rfl

theorem foldl_intercalate (tokens : List Bytes) (token : Bytes) :
    tokens.foldl (fun base i => base ++ 32 :: i) token = [32].intercalate (token :: tokens) := by
  induction tokens generalizing token with
  | nil => simp
  | cons next tokens ih =>
    rw [List.foldl_cons, ih, List.intercalate_cons_cons]
    cases tokens with
    | nil => simp
    | cons next' tokens => simp [List.intercalate_cons_cons]

/-- The tokens behind the first parameters become the last one. -/
theorem merge_tokens {middle tokens : List Bytes} (taken : h.maxParams = middle.length + 1) (present : tokens ≠ []) :
    h.merge (middle ++ tokens) = middle ++ [[32].intercalate tokens] := by
  obtain ⟨token, tokens, rfl⟩ := List.exists_cons_of_ne_nil present
  unfold Command.merge
  rw [taken]
  split
  · have first : (middle ++ token :: tokens)[middle.length]? = some token := by simp
    have rest : (middle ++ token :: tokens).drop (middle.length + 1) = tokens := by
      rw [List.append_cons, List.drop_left' (by simp)]
    rw [← foldl_intercalate, Nat.add_sub_cancel, List.take_left, first, rest]
    rfl
  · rename_i few
    have single : tokens = [] := by
      rw [← List.length_eq_zero_iff]
      simp only [List.length_append, List.length_cons] at few
      omega
    simp [single]

theorem trim_nonempty {middle : List Bytes} {last : Bytes} (present : last ≠ []) :
    h.trim (middle ++ [last]) = middle ++ [last] := by
  unfold Command.trim
  rw [if_neg]
  simp [present]

end

section
open Store QueryBase Kernel
variable {P : Platform} {k : Kernel} {db key value : Bytes} {select : ℕ} {r : Request}

/-- SET writes the row of a key that is free or has one. -/
theorem set_stored (writable : k.Writable) (opened : k.Opened db)
    (free : QueryBase.registered k db key select = none ∨ QueryBase.registered k db key select = some intKey)
    (handled : KeyHelper.simple db select key .set value = some r) :
    (k.execute P r).get db (keyRow key select intKey) = some (toBin (stripe value)) := by
  obtain ⟨-, rfl⟩ := simpleRetro_some.mp handled
  have ran : ∃ q : QueryBase, q.database = db ∧ q.value = stripe value ∧
      k.execute P { cls := .set, database := db, key, select, value := stripe value } =
        k.apply db (keyRow key select intKey) (Run.set k q).1 := by
    unfold Kernel.execute
    rcases free with absent | registered
    · rw [prepare_fresh (r := { cls := .set, database := db, key, select, value := stripe value }) opened absent rfl rfl]
      exact ⟨_, rfl, rfl, rfl⟩
    · rw [prepare_loaded (r := { cls := .set, database := db, key, select, value := stripe value }) opened registered
        (by simp [QueryClass.queryType]) rfl, if_pos rfl]
      exact ⟨_, rfl, rfl, rfl⟩
  obtain ⟨q, rfl, same, executed⟩ := ran
  rw [executed, Run.set, writeDest_writable (writable _), same]
  exact (get_update_put writable _ _ _ _ _).trans (if_pos ⟨rfl, rfl⟩)

end

/-- The value that a handler reads from a line with a text in quotes, and the row that SET writes of it, are the text, if
and only if no blank in it is followed by another one or by a colon.  The name is the command in capitals. -/
theorem quoted_value_iff {d : Groups.Daemon} {u : Groups.LocalUser} {h : Groups.Command} {command name text : Bytes}
    {middle : List Bytes}
    (silent : ∀ command params validated, d.onPreCommand command params validated = some (command, params))
    (base : d.getBase name = some h) (taken : h.maxParams = middle.length + 1) (named : CommandWord command)
    (words : ∀ w ∈ middle, Word w) (short : (valueLine command middle text).length + 2 ≤ inputLimit) :
    ∃ params, parse (valueLine command middle text) = some (command, params) ∧
      ∀ given limits, d.execute u name params = .handled h given limits →
        (stripe (given.getLastD []) = text ↔ Kept text) ∧
        ∀ (P : Store.Platform) (k : Store.Kernel) (db key : Bytes) (select : ℕ) (r : Store.Request),
          k.Writable → k.Opened db →
          (Store.QueryBase.registered k db key select = none ∨ Store.QueryBase.registered k db key select = some Store.intKey) →
          Store.KeyHelper.simple db select key .set (given.getLastD []) = some r →
          ((k.execute P r).get db (Store.keyRow key select Store.intKey) = some (toBin text) ↔ Kept text) := by
  refine ⟨_, parse_valueLine named words short, fun given limits handled => ?_⟩
  have long : 2 ≤ (rejoin (quoted text)).length := rejoin_quoted_head.2
  have nonempty : rejoin (quoted text) ≠ [] := List.length_pos_iff.mp (by omega)
  have present : parseParams (quoted text) ≠ [] := fun none => nonempty (by simp [rejoin, none])
  have last : given.getLastD [] = rejoin (quoted text) := by
    rw [execute_handled silent base handled, merge_tokens taken present]
    change (h.trim (middle ++ [rejoin (quoted text)])).getLastD [] = _
    rw [trim_nonempty nonempty]
    simp
  rw [last]
  refine ⟨stripe_rejoin, fun P k db key select r writable opened free handled => ?_⟩
  rw [set_stored writable opened free handled, Option.some.injEq, toBin_injective.eq_iff]
  exact stripe_rejoin

/-- The handler of SET. -/
def setCommand : Groups.Command where
  name := lit "SET"
  minParams := 2
  maxParams := 2
  checkValue := true
  checkKey := 0
  group := 'k'.toUInt8

theorem set_word : CommandWord (lit "SET") := ⟨⟨by decide, by decide, by decide⟩, by decide⟩

theorem words_key : ∀ w ∈ [lit "k"], Word w := by
  simp only [List.mem_singleton, forall_eq]
  exact ⟨by decide, by decide, by decide⟩

theorem quoted_value_blank : ∃ params, parse (valueLine (lit "SET") [lit "k"] (lit "a b")) = some (lit "SET", params) ∧
    ∀ given limits, (Groups.Daemon.only setCommand).execute Groups.keysAndLists (lit "SET") params =
      .handled setCommand given limits → stripe (given.getLastD []) = lit "a b" := by
  have silent : ∀ command params validated,
      (Groups.Daemon.only setCommand).onPreCommand command params validated = some (command, params) := fun _ _ _ => rfl
  have base : (Groups.Daemon.only setCommand).getBase (lit "SET") = some setCommand := rfl
  have short : (valueLine (lit "SET") [lit "k"] (lit "a b")).length + 2 ≤ inputLimit := by decide
  obtain ⟨params, parsed, arrives⟩ := quoted_value_iff (u := Groups.keysAndLists) silent base rfl set_word words_key short
  exact ⟨params, parsed, fun given limits handled => (arrives given limits handled).1.mpr (by decide)⟩

/-- SET runs on the line with a text in quotes, and its value is another text. -/
def SetGets (text value : Bytes) : Prop := ∃ params given limits,
  parse (valueLine (lit "SET") [lit "k"] text) = some (lit "SET", params) ∧
  (Groups.Daemon.only setCommand).execute Groups.keysAndLists (lit "SET") params = .handled setCommand given limits ∧
  stripe (given.getLastD []) = value ∧ value ≠ text

theorem setGets_tokens {text : Bytes} (short : (valueLine (lit "SET") [lit "k"] text).length + 2 ≤ inputLimit)
    (tokens : parseParams (quoted text) = [lit "\"a", lit "b\""]) (other : lit "a b" ≠ text) : SetGets text (lit "a b") := by
  have parsed := parse_valueLine set_word words_key short
  rw [tokens] at parsed
  exact ⟨_, [lit "k", lit "\"a b\""], none, parsed, by decide, by decide, other⟩

/-- Two blanks arrive as one, and a colon behind a blank is lost. -/
theorem quoted_value_changed : SetGets (lit "a  b") (lit "a b") ∧ SetGets (lit "a :b") (lit "a b") := by
  have blanks : getTrailing (quoted (lit "a  b")) = some (lit "\"a", lit "b\"") := by decide
  have colon : getTrailing (quoted (lit "a :b")) = some (lit "\"a", lit ":b\"") := by decide
  have last : getTrailing (lit "b\"") = some (lit "b\"", []) := by decide
  constructor
  · apply setGets_tokens (by decide) _ (by decide)
    rw [parseParams_some blanks, parseParams_some last, parseParams_nil]
  · apply setGets_tokens (by decide) _ (by decide)
    rw [parseParams_some colon]
    exact congrArg _ (parseParams_colon (lit "b\""))

end BerylDB.Protocol
