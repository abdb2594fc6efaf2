import BerylDB.CaseOrder
import BerylDB.ConfiguredSizes

/-! # Keys and values of a configuration file

`ConfFile` of `stackconf.cpp` reads a tag one key and value at a time, and `Configuration::Escape` writes a value.  A
byte that is ungot is the first of those that are still to come. -/
namespace BerylDB.Config
open Text

/-- What is written to `error_msg` before a `KernelException`, and its reason. -/
structure Thrown where
  notes : Bytes
  reason : Bytes
deriving DecidableEq

def throwKernel {α : Type} (reason : Bytes) : Except Thrown α := .error ⟨[], reason⟩

def endOfFile {α : Type} : Except Thrown α := throwKernel (lit "Unexpected end-of-file")

/-- The flags of a `ConfFile`, the tag that it is in, what its entities stand for, and the map that
`casemapping` chose before. -/
structure ConfFile where
  compat : Bool
  noEnv : Bool
  tag : Bytes
  input : Items
  getenv : Bytes → Option Bytes
  charmap : CharMap

/-- The entities that `parse_stack` begins with. -/
def parseStack (charmap : CharMap) : Items :=
  [("newline", "\n"), ("nl", "\n"), ("amp", "&"), ("apos", "'"), ("gt", ">"), ("lt", "<"), ("quot", "\"")].foldl
    (fun input entry => FlatMap.set charmap.insensitiveSwo input (lit entry.1) (lit entry.2)) []

def wordchar (ch : UInt8) : Bool := isAlnum ch || ch == 45 || ch == 46 || ch == 95

def isAlpha (ch : UInt8) : Bool := isUpper ch || isLower ch

/-- `process_comment`: the rest of the line is skipped. -/
def processComment (s : Bytes) : Except Thrown Bytes :=
  match s.dropWhile (· ≠ 10) with
  | [] => endOfFile
  | _ :: s => .ok s

/-- `iternext`: blanks are skipped and a word is read. -/
def iternext (s : Bytes) : Except Thrown (Bytes × Bytes) :=
  let s := s.dropWhile isSpace
  let word := s.takeWhile wordchar
  let s := s.drop word.length
  if s = [] then endOfFile else .ok (word, s)

/-- A number behind `#`, which `strtoul` reads in the base 10 or 16, where it may have a sign and `0x` in front. -/
def readReference (base : ℕ) (s : Bytes) : Option ℕ :=
  let (negative, s) := readSign s
  let s := match s with
    | 48 :: x :: c :: t => if base = 16 && toLower x = 120 && isHexDigit c then c :: t else s
    | _ => s
  let number : Subject := ⟨negative, s.foldl (fun n c => n * base + digitValue c) 0, []⟩
  if s ≠ [] && s.all (digitValue · < base) && number.wrapped ≤ 255 then some number.wrapped else none

/-- What an entity stands for. -/
def entity (c : ConfFile) (tagName : Bytes) : Except Thrown Bytes :=
  if tagName = [] then throwKernel (lit "Empty XML entity reference")
  else if tagName = lit "#" ∨ tagName = lit "#x" then throwKernel (lit "Empty numeric character reference")
  else if tagName.head? = some 35 then
    match if tagName[1]? = some 120 then readReference 16 (tagName.drop 2) else readReference 10 (tagName.drop 1) with
    | some value => .ok [value.toUInt8]
    | none => throwKernel (lit "Invalid numeric character reference '&" ++ tagName ++ lit ";'")
  else if lit "env." <+: tagName then
    if c.noEnv then throwKernel (lit "XML environment entity reference in file included with noenv=\"yes\"")
    else
      match c.getenv (tagName.drop 4) with
      | some envstr => .ok envstr
      | none => throwKernel (lit "XML environment entity reference '&" ++ tagName ++ lit ";'")
  else
    match FlatMap.find c.charmap.insensitiveSwo c.input tagName with
    | some var => .ok var.2
    | none => throwKernel (lit "XML entity reference '&" ++ tagName ++ lit ";'")

def invalidEntity {α : Type} (c : ConfFile) (key : Bytes) : Except Thrown α :=
  .error ⟨lit "Invalid XML entity name in value of <" ++ c.tag ++ lit ":" ++ key ++ lit ">\n" ++
    lit "To include an ampersand or quote, use &amp; or &quot;\n", lit "Parse error"⟩

/-- Where the loops of `kv` are: in the value, in the name of an entity, or behind a backslash. -/
inductive Place where
  | value
  | tagName (tagName : Bytes)
  | escaped

/-- The loops of `kv` up to the closing quote. -/
def readValue (c : ConfFile) (key : Bytes) : Place → (value : Bytes) → Bytes → Except Thrown (Bytes × Bytes)
  | _, _, [] => endOfFile
  | .value, value, ch :: s =>
    if ch = 38 && !c.compat then readValue c key (.tagName []) value s
    else if ch = 92 && c.compat then readValue c key .escaped value s
    else if ch = 34 then .ok (value, s)
    else readValue c key .value (if ch = 13 then value else value ++ [ch]) s
  | .tagName tagName, value, ch :: s =>
    if wordchar ch || tagName = [] && ch = 35 then readValue c key (.tagName (tagName ++ [ch])) value s
    else if ch = 59 then
      match entity c tagName with
      | .ok text => readValue c key .value (value ++ text) s
      | .error e => .error e
    else invalidEntity c key
  | .escaped, value, esc :: s =>
    if esc = 110 then readValue c key .value (value ++ [10]) s
    else if isAlpha esc then throwKernel (lit "Unknown character \\" ++ [esc])
    else readValue c key .value (value ++ [esc]) s

/-- `ConfFile::kv`: whether the tag goes on, its items, and the bytes that are still to come. -/
def kv (c : ConfFile) (items : Items) (s : Bytes) : Except Thrown (Bool × Items × Bytes) := do
  let (key, s) ← iternext s
  match s with
  | [] => endOfFile
  | ch :: s =>
    if ch = 62 ∧ key = [] then return (false, items, s)
    else if ch = 35 ∧ key = [] then return (true, items, ← processComment s)
    else if ch ≠ 61 then throwKernel (lit "Invalid character " ++ [ch] ++ lit " in key (" ++ key ++ lit ")")
    else
      match s with
      | [] => endOfFile
      | ch :: s =>
        if ch ≠ 34 then throwKernel (lit "Invalid character in value of <" ++ c.tag ++ lit ":" ++ key ++ lit ">")
        else
          let (value, s) ← readValue c key .value [] s
          if (FlatMap.find c.charmap.insensitiveSwo items key).isSome then
            throwKernel (lit "Key '" ++ key ++ lit "' found twice.")
          else return (true, FlatMap.set c.charmap.insensitiveSwo items key value, s)

/-- `Configuration::Escape`. -/
def escape (str : Bytes) (xml : Bool) : Bytes := str.flatMap fun c =>
  if c = 34 then if xml then lit "&quot;" else lit "\""
  else if c = 38 then if xml then lit "&amp;" else lit "&"
  else if c = 92 then if xml then lit "\\" else lit "\\\\"
  else [c]

/-- The quoted text of a value. -/
def quotedValue (str : Bytes) (xml : Bool) : Bytes := 34 :: (escape str xml ++ [34])

section
variable {c : ConfFile} {items : Items} {key value word text str rest s : Bytes}

theorem readValue_name {tagName : Bytes} (named : ∀ ch ∈ word, wordchar ch = true) :
    readValue c key (.tagName tagName) value (word ++ s) = readValue c key (.tagName (tagName ++ word)) value s := by
  induction word generalizing tagName with
  | nil => simp
  | cons ch word ih =>
    have first := named ch (List.mem_cons_self ..)
    rw [List.cons_append, readValue, if_pos (by simp [first]), ih fun d hd => named d (List.mem_cons_of_mem _ hd),
      List.append_assoc, List.singleton_append]

/-- An entity is read as what it stands for. -/
theorem readValue_entity (word : Bytes) (xml : c.compat = false) (named : ∀ ch ∈ word, wordchar ch = true)
    (stands : entity c word = .ok text) :
    readValue c key .value value (38 :: (word ++ 59 :: s)) = readValue c key .value (value ++ text) s := by
  have ends : ¬ wordchar 59 = true := by decide
  rw [readValue, if_pos (by simp [xml]), readValue_name named, List.nil_append, readValue, if_neg (by simpa using ends),
    if_pos rfl, stands]

theorem readValue_byte {ch : UInt8} (amp : ch = 38 → c.compat = true) (back : ch = 92 → c.compat = false)
    (quote : ch ≠ 34) (line : ch ≠ 13) :
    readValue c key .value value (ch :: s) = readValue c key .value (value ++ [ch]) s := by
  have noAmp : ¬ (ch = 38 && !c.compat) = true := by
    rw [Bool.and_eq_true, decide_eq_true_eq, Bool.not_eq_true']
    exact fun h => by simp [amp h.1] at h
  have noBack : ¬ (ch = 92 && c.compat) = true := by
    rw [Bool.and_eq_true, decide_eq_true_eq]
    exact fun h => by simp [back h.1] at h
  rw [readValue, if_neg noAmp, if_neg noBack, if_neg quote, if_neg line]

theorem readValue_quote : readValue c key .value value (34 :: s) = .ok (value, s) := by simp [readValue]

theorem entity_parseStack (table : c.input = parseStack c.charmap) :
    entity c (lit "quot") = .ok [34] ∧ entity c (lit "amp") = .ok [38] := by
  have quot : FlatMap.find c.charmap.insensitiveSwo (parseStack c.charmap) (lit "quot") = some (lit "quot", [34]) := by
    cases c.charmap <;> decide +kernel
  have amp : FlatMap.find c.charmap.insensitiveSwo (parseStack c.charmap) (lit "amp") = some (lit "amp", [38]) := by
    cases c.charmap <;> decide +kernel
  constructor
  · rw [entity, if_neg (by decide), if_neg (by decide), if_neg (by decide), if_neg (by decide), table, quot]
  · rw [entity, if_neg (by decide), if_neg (by decide), if_neg (by decide), if_neg (by decide), table, amp]

theorem escape_cons (ch : UInt8) (xml : Bool) : escape (ch :: str) xml = escape [ch] xml ++ escape str xml := by
  rw [escape, escape, escape, List.flatMap_cons, List.flatMap_singleton]

/-- What is escaped for XML is read back. -/
theorem readValue_escape_xml (mode : c.compat = false) (table : c.input = parseStack c.charmap) (line : 13 ∉ str) :
    readValue c key .value value (escape str true ++ s) = readValue c key .value (value ++ str) s := by
  induction str generalizing value with
  | nil => simp [escape]
  | cons ch str ih =>
    obtain ⟨plain, line⟩ := not_or.mp (List.mem_cons.not.mp line)
    have reads : readValue c key .value value (escape [ch] true ++ (escape str true ++ s)) =
        readValue c key .value (value ++ [ch]) (escape str true ++ s) := by
      rcases eq_or_ne ch 34 with rfl | quote
      · exact readValue_entity (lit "quot") mode (by decide +kernel) (entity_parseStack table).1
      · rcases eq_or_ne ch 38 with rfl | amp
        · exact readValue_entity (lit "amp") mode (by decide +kernel) (entity_parseStack table).2
        · have self : escape [ch] true = [ch] := by
            rw [escape, List.flatMap_singleton, if_neg quote, if_neg amp]
            split
            · rename_i h
              exact h ▸ rfl
            · rfl
          rw [self, List.singleton_append]
          exact readValue_byte (fun h => absurd h amp) (fun _ => mode) quote (Ne.symm plain)
    rw [escape_cons, List.append_assoc, reads, ih line, List.append_assoc, List.singleton_append]

/-- Without quotes, what is escaped for the old format is read back. -/
theorem readValue_escape_compat (mode : c.compat = true) (line : 13 ∉ str) (quotes : 34 ∉ str) :
    readValue c key .value value (escape str false ++ s) = readValue c key .value (value ++ str) s := by
  induction str generalizing value with
  | nil => simp [escape]
  | cons ch str ih =>
    obtain ⟨plain, line⟩ := not_or.mp (List.mem_cons.not.mp line)
    obtain ⟨quote, quotes⟩ := not_or.mp (List.mem_cons.not.mp quotes)
    have reads : readValue c key .value value (escape [ch] false ++ (escape str false ++ s)) =
        readValue c key .value (value ++ [ch]) (escape str false ++ s) := by
      rcases eq_or_ne ch 92 with rfl | back
      · have self : escape [92] false = [92, 92] := rfl
        rw [self, List.cons_append, List.singleton_append, readValue, if_neg (by simp), if_pos (by simp [mode]), readValue,
          if_neg (by decide), if_neg (by decide)]
      · have self : escape [ch] false = [ch] := by
          rw [escape, List.flatMap_singleton, if_neg (Ne.symm quote)]
          split
          · rename_i h
            exact h ▸ rfl
          · rfl
        rw [self, List.singleton_append]
        exact readValue_byte (fun _ => mode) (fun h => absurd h back) (Ne.symm quote) (Ne.symm plain)
    rw [escape_cons, List.append_assoc, reads, ih line quotes, List.append_assoc, List.singleton_append]

theorem kv_value (word : iternext s = .ok (key, 61 :: 34 :: text))
    (reads : readValue c key .value [] text = .ok (value, rest))
    (fresh : FlatMap.find c.charmap.insensitiveSwo items key = none) :
    kv c items s = .ok (true, FlatMap.set c.charmap.insensitiveSwo items key value, rest) := by
  simp [kv, word, reads, fresh, bind, Except.bind, pure, Except.pure]

/-- A file in one of the formats, as `parse_stack` begins it. -/
def confFile (xml : Bool) : ConfFile where
  compat := !xml
  noEnv := false
  tag := lit "oper"
  input := parseStack .brld1459
  getenv _ := none
  charmap := .brld1459

/-- A quoted value is stored as it was escaped, and nothing behind it is read, unless the format has no escape for a
quote. -/
theorem kv_quotedValue_iff (c : ConfFile) (items : Items) (key str rest s : Bytes) (xml : Bool) (mode : c.compat = !xml)
    (table : c.input = parseStack c.charmap) (line : 13 ∉ str)
    (word : iternext s = .ok (key, 61 :: (quotedValue str xml ++ rest)))
    (fresh : FlatMap.find c.charmap.insensitiveSwo items key = none) :
    kv c items s = .ok (true, FlatMap.set c.charmap.insensitiveSwo items key str, rest) ↔ xml = true ∨ 34 ∉ str := by
  rw [quotedValue, List.cons_append, List.append_assoc, List.singleton_append] at word
  cases xml with
  | true =>
    refine iff_of_true (kv_value word ?_ fresh) (.inl rfl)
    rw [readValue_escape_xml mode table line, List.nil_append, readValue_quote]
  | false =>
    rw [or_iff_right Bool.false_ne_true]
    constructor
    · intro stored quote
      obtain ⟨front, back, rfl, clean⟩ := List.eq_append_cons_of_mem quote
      have split : escape (front ++ 34 :: back) false = escape front false ++ 34 :: escape back false := by
        rw [escape, List.flatMap_append]
        rfl
      rw [split, List.append_assoc, List.cons_append] at word
      have reads : readValue c key .value [] (escape front false ++ 34 :: (escape back false ++ 34 :: rest)) =
          .ok (front, escape back false ++ 34 :: rest) := by
        rw [readValue_escape_compat mode (fun h => line (List.mem_append_left _ h)) clean, List.nil_append, readValue_quote]
      rw [kv_value word reads fresh, Except.ok.injEq, Prod.mk.injEq, Prod.mk.injEq] at stored
      have lengths := congrArg List.length stored.2.2
      rw [List.length_append, List.length_cons] at lengths
      omega
    · intro clean
      refine kv_value word ?_ fresh
      rw [readValue_escape_compat mode line clean, List.nil_append, readValue_quote]

theorem kv_quotedValue_xml : kv (confFile true) [] (lit " pass=" ++ (quotedValue (lit "a\"&\\") true ++ lit ">")) =
    .ok (true, FlatMap.set CharMap.brld1459.insensitiveSwo [] (lit "pass") (lit "a\"&\\"), lit ">") :=
  (kv_quotedValue_iff (confFile true) [] (lit "pass") (lit "a\"&\\") (lit ">") _ true rfl rfl (by decide) (by decide +kernel)
    rfl).mpr (.inl rfl)

theorem quotes_are_not_escaped : ¬ ∀ (c : ConfFile) (items : Items) (key str rest s : Bytes) (xml : Bool),
    c.compat = !xml → c.input = parseStack c.charmap → 13 ∉ str → 0 ∉ str →
      iternext s = .ok (key, 61 :: (quotedValue str xml ++ rest)) → FlatMap.find c.charmap.insensitiveSwo items key = none →
        kv c items s = .ok (true, FlatMap.set c.charmap.insensitiveSwo items key str, rest) := by
  intro claimed
  have stored := claimed (confFile false) [] (lit "pass") (lit "\"") (lit ">") (lit "pass=\"\"\">") false rfl rfl
    (by decide) (by decide) (by decide +kernel) rfl
  exact absurd stored (by decide +kernel)

end

end BerylDB.Config
