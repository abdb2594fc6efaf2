import BerylDB.Parameters
import BerylDB.Preparing
import Mathlib.Algebra.Order.BigOperators.Group.List

/-! # Formatted replies

`Daemon::Format` doubles its static buffer until `vsnprintf` reports a positive length that fits, and the replies of
lists format each item with it. -/
namespace BerylDB.Text

/-- `vsnprintf` on a buffer of some size: what it returns for the whole output, and the buffer. -/
def vsnprintf (output : Bytes) (size : ℕ) : ℤ × Bytes :=
  (if output.length < 2 ^ 31 then output.length else -1, output.take (size - 1) ++ [0])

/-- The loop of `Daemon::Format`: the text, and the size of the static buffer behind it; `none` when the fuel does not
reach its end. -/
def formatFrom (output : Bytes) : ℕ → (size : ℕ) → Option (Bytes × ℕ)
  | 0, _ => none
  | fuel + 1, size =>
    let (vsnret, buffer) := vsnprintf output size
    if 0 < vsnret ∧ vsnret < size then some (cStr buffer, size) else formatFrom output fuel (size * 2)

/-- One format after the other, on the same buffer. -/
def formatAll (fuel : ℕ) : List Bytes → (size : ℕ) → Option (List Bytes × ℕ)
  | [], size => some ([], size)
  | output :: outputs, size => do
    let (text, size) ← formatFrom output fuel size
    let (texts, size) ← formatAll fuel outputs size
    return (text :: texts, size)

/-- The directive `%-ns`. -/
def leftJustified (n : ℕ) (s : Bytes) : Bytes := cStr s ++ List.replicate (n - (cStr s).length) 32

/-- `Format` ends with the output up to its first NUL. -/
def Formats (output : Bytes) (size : ℕ) : Prop := ∃ fuel size', formatFrom output fuel size = some (cStr output, size')

def FormatsAll (outputs : List Bytes) (size : ℕ) : Prop :=
  ∃ fuel size', formatAll fuel outputs size = some (outputs.map cStr, size')

/-- An output whose length is a positive `int`. -/
structure Formattable (output : Bytes) : Prop where
  nonempty : output ≠ []
  short : output.length < 2 ^ 31

section
variable {output : Bytes} {outputs : List Bytes} {fuel size : ℕ}

theorem cStr_append_zero (s : Bytes) : cStr (s ++ [0]) = cStr s := by
  induction s with
  | nil => rfl
  | cons c s ih =>
    by_cases zero : c = 0
    · simp [cStr, zero]
    · simpa [cStr, zero] using ih

theorem vsnprintf_length (h : Formattable output) : (vsnprintf output size).1 = output.length := if_pos h.short

theorem vsnprintf_positive (positive : 0 < (vsnprintf output size).1) : Formattable output := by
  unfold vsnprintf at positive
  split at positive
  · rename_i short
    exact ⟨List.length_pos_iff.mp (Int.natCast_pos.mp positive), short⟩
  · exact absurd positive (show ¬ (0 : ℤ) < -1 by decide)

theorem vsnprintf_fits (fits : output.length < size) : cStr (vsnprintf output size).2 = cStr output := by
  rw [vsnprintf, List.take_of_length_le (by omega), cStr_append_zero]

/-- A formattable output is written when the buffer is large enough, and else the buffer is doubled. -/
theorem formatFrom_succ (h : Formattable output) : formatFrom output (fuel + 1) size =
    if output.length < size then some (cStr output, size) else formatFrom output fuel (size * 2) := by
  have long := List.length_pos_iff.mpr h.nonempty
  change (if 0 < (vsnprintf output size).1 ∧ (vsnprintf output size).1 < size
    then some (cStr (vsnprintf output size).2, size) else _) = _
  rw [vsnprintf_length h]
  by_cases fits : output.length < size
  · rw [if_pos (by omega), if_pos fits, vsnprintf_fits fits]
  · rw [if_neg (by omega), if_neg fits]

theorem formatFrom_grows (h : Formattable output) (doublings : ℕ) (positive : 0 < size)
    (enough : output.length < size * 2 ^ doublings) :
    ∃ size', 0 < size' ∧ formatFrom output (doublings + 1) size = some (cStr output, size') := by
  induction doublings generalizing size with
  | zero =>
    rw [formatFrom_succ h, if_pos (by simpa using enough)]
    exact ⟨size, positive, rfl⟩
  | succ doublings ih =>
    rw [formatFrom_succ h]
    split
    · exact ⟨size, positive, rfl⟩
    · exact ih (by omega) (by rwa [Nat.mul_assoc, ← Nat.pow_succ'])

theorem formatFrom_enough (h : Formattable output) (positive : 0 < size) (enough : output.length < fuel) :
    ∃ size', 0 < size' ∧ formatFrom output fuel size = some (cStr output, size') := by
  obtain ⟨doublings, rfl⟩ : ∃ doublings, fuel = doublings + 1 := ⟨fuel - 1, by omega⟩
  refine formatFrom_grows h doublings positive ?_
  calc output.length ≤ doublings := by omega
    _ < 2 ^ doublings := Nat.lt_two_pow_self
    _ ≤ size * 2 ^ doublings := Nat.le_mul_of_pos_left _ positive

/-- What is empty, or too long for an `int`, is formatted for ever. -/
theorem formatFrom_never (h : ¬ Formattable output) : formatFrom output fuel size = none := by
  induction fuel generalizing size with
  | zero => rfl
  | succ fuel ih =>
    change (if 0 < (vsnprintf output size).1 ∧ (vsnprintf output size).1 < size then _ else _) = _
    rw [if_neg fun returned => h (vsnprintf_positive returned.1), ih]

theorem formats_iff (positive : 0 < size) : Formats output size ↔ Formattable output := by
  constructor
  · rintro ⟨fuel, size', ends⟩
    by_contra h
    rw [formatFrom_never h] at ends
    exact nomatch ends
  · intro h
    obtain ⟨size', -, ends⟩ := formatFrom_enough h positive (Nat.lt_succ_self _)
    exact ⟨_, size', ends⟩

theorem formatAll_enough (h : ∀ output ∈ outputs, Formattable output) (positive : 0 < size)
    (enough : ∀ output ∈ outputs, output.length < fuel) :
    ∃ size', formatAll fuel outputs size = some (outputs.map cStr, size') := by
  induction outputs generalizing size with
  | nil => exact ⟨size, rfl⟩
  | cons output outputs ih =>
    obtain ⟨grown, positive', first⟩ := formatFrom_enough (h output List.mem_cons_self) positive
      (enough output List.mem_cons_self)
    obtain ⟨size', rest⟩ := ih (fun o ho => h o (List.mem_cons_of_mem _ ho)) positive'
      fun o ho => enough o (List.mem_cons_of_mem _ ho)
    refine ⟨size', ?_⟩
    rw [formatAll, first]
    dsimp only [Option.bind_eq_bind, Option.bind_some]
    rw [rest]
    rfl

theorem formatAll_never (h : ∃ output ∈ outputs, ¬ Formattable output) : formatAll fuel outputs size = none := by
  induction outputs generalizing size with
  | nil => simp at h
  | cons output outputs ih =>
    rw [formatAll]
    cases first : formatFrom output fuel size with
    | none => rfl
    | some written =>
      have formattable : Formattable output := by
        by_contra h
        rw [formatFrom_never h] at first
        exact nomatch first
      rw [List.exists_mem_cons_iff, or_iff_right (not_not.mpr formattable)] at h
      dsimp only [Option.bind_eq_bind, Option.bind_some]
      rw [ih h]
      rfl

/-- A run of formats ends if and only if each of them does. -/
theorem formatsAll_iff (positive : 0 < size) : FormatsAll outputs size ↔ ∀ output ∈ outputs, Formattable output := by
  constructor
  · rintro ⟨fuel, size', ends⟩
    by_contra h
    push Not at h
    rw [formatAll_never h] at ends
    exact nomatch ends
  · intro h
    have enough : ∀ output ∈ outputs, output.length < (outputs.map List.length).sum + 1 := fun output here =>
      Nat.lt_succ_of_le (List.le_sum_of_mem (List.mem_map_of_mem here))
    obtain ⟨size', ends⟩ := formatAll_enough h positive enough
    exact ⟨_, size', ends⟩

end

end BerylDB.Text

namespace BerylDB.Store
open Text Kernel Transition

/-- What `Process` of a class has formatted: `VectorFlush` with a title, `MMapFlush` with two, the loops of
`geodistance_query` and of `list_query` and `glist_query`, `Helpers::Format` of the response, the reply of
`dbsize_query`, or `TypeString` of the registered type. -/
inductive Flush where
  | vector (comillas : Bool) (title : Bytes)
  | mmap (comillas : Bool) (title subtitle : Bytes)
  | locations
  | counts
  | response
  | size
  | typeName
deriving DecidableEq

namespace Flush

def quoted (comillas : Bool) (item : Bytes) : Bytes := if comillas then 34 :: item ++ [34] else item

/-- `Dispatcher::Repeat("-", times)`. -/
def dashes (times : ℕ) : Bytes := List.replicate times 45

/-- `Dispatcher::Repeat("―", 30)`, three bytes each time. -/
def bars : Bytes := (List.replicate 30 [226, 128, 149]).flatten

def vectorRule : Bytes := lit "+" ++ leftJustified 22 (dashes 23) ++ lit "+"
def vectorRow (item : Bytes) : Bytes := lit "| " ++ leftJustified 22 item ++ lit "|"
def mmapRule : Bytes := lit "+" ++ leftJustified 16 (dashes 17) ++ lit "+" ++ leftJustified 29 (dashes 30) ++ lit "+"
def mmapRow (ikey item : Bytes) : Bytes :=
  lit "| " ++ leftJustified 16 ikey ++ lit "| " ++ leftJustified 29 item ++ lit "|"

/-- The directives `%s %s`. -/
def pair (ikey item : Bytes) : Bytes := cStr ikey ++ lit " " ++ cStr item

/-- The outputs that a flush has formatted, in their order: a header with the first part, each item for both kinds of
agent, and a rule behind the last part. -/
def framed (rule title : Bytes) (last : Bool) (subresult : ℕ) (rows : List (Bytes × Bytes)) : List Bytes :=
  if subresult = 1 ∧ rows = [] then []
  else
    (if subresult = 1 then [rule, title, rule] else []) ++ (rows.flatMap fun row => [row.1, row.2]) ++
      if last then [rule] else []

/-- `VectorFlush`; `last` says that the query is not partial. -/
def vectorFlush (comillas : Bool) (title : Bytes) (last : Bool) (subresult : ℕ) (vecData : List Bytes) : List Bytes :=
  framed vectorRule (vectorRow title) last subresult <| vecData.map fun item =>
    (vectorRow (quoted comillas item), cStr (quoted comillas item))

/-- `MMapFlush`. -/
def mmapFlush (comillas : Bool) (title subtitle : Bytes) (last : Bool) (subresult : ℕ) (mmap : MultiMap) : List Bytes :=
  framed mmapRule (mmapRow title subtitle) last subresult <| mmap.map fun (ikey, item) =>
    (mmapRow ikey (quoted comillas item), pair ikey (quoted comillas item))

/-- `Process` of `geodistance_query`. -/
def locationFlush (subresult : ℕ) (vecData : List Bytes) : List Bytes :=
  (if subresult = 1 then [leftJustified 30 (lit "Location"), leftJustified 30 bars] else []) ++
    vecData.flatMap fun item => [leftJustified 30 item, cStr item]

/-- The formats of `Helpers::TypeString`, without their plural. -/
def typeNames : List (Bytes × Bytes) := [
  (intKey, lit "KEY"), (intGeo, lit "GEO"), (intList, lit "LIST"), (intMap, lit "MAP"), (intVector, lit "VECTOR"),
  (intMmap, lit "MULTIMAP"), (intFuture, lit "FUTURE"), (intExpire, lit "EXPIRE")]

/-- What `Helpers::TypeString` has formatted, if anything. -/
def typeFormat (type : Bytes) (plural : Bool) : Option Bytes :=
  (typeNames.find? fun e => e.1 == type).map fun e => e.2 ++ if plural then lit "S" else []

/-- `Helpers::TypeString`. -/
def typeString (type : Bytes) (plural : Bool) : Bytes :=
  if type = [] ∨ type = processNull then processNull else (typeFormat type plural).getD (lit "UNKNOWN")

/-- `Process` of `list_query` and of `glist_query`. -/
def countFlush (nmap : List (Bytes × ℕ)) : List Bytes :=
  [mmapRule, mmapRow (lit "Type") (lit "Count"), mmapRule] ++
    (nmap.flatMap fun (type, item) => (typeFormat type true).toList ++
      [mmapRow (typeString type true) (convtoString item), pair (typeString type true) (convtoString item)]) ++
    [mmapRule]

def outputs (last : Bool) (q : QueryBase) : Flush → List Bytes
  | .vector comillas title => vectorFlush comillas title last q.subresult q.vecData
  | .mmap comillas title subtitle => mmapFlush comillas title subtitle last q.subresult q.mmap
  | .locations => locationFlush q.subresult q.vecData
  | .counts => countFlush q.nmap
  | .response => [quoted true (cStr q.response)]
  | .size => [pair q.size q.response]
  | .typeName => (typeFormat q.identified false).toList

/-- The items that are formatted bare, with `%s` alone. -/
def bare (q : QueryBase) : Flush → List Bytes
  | .vector false _ | .locations => q.vecData
  | _ => []

variable {last : Bool} {subresult : ℕ} {q : QueryBase} {comillas : Bool}

theorem vectorRow_ne_nil (item : Bytes) : vectorRow item ≠ [] := by simp [vectorRow, lit]
theorem mmapRow_ne_nil (ikey item : Bytes) : mmapRow ikey item ≠ [] := by simp [mmapRow, lit]
theorem mmapRule_ne_nil : mmapRule ≠ [] := by simp [mmapRule, lit]
theorem pair_ne_nil (ikey item : Bytes) : pair ikey item ≠ [] := by simp [pair, lit]

theorem leftJustified_ne_nil {n : ℕ} (wide : 0 < n) (s : Bytes) : leftJustified n s ≠ [] := by
  intro empty
  have length := congrArg List.length empty
  simp only [leftJustified, List.length_append, List.length_replicate, List.length_nil] at length
  omega

theorem typeFormat_ne_nil {type output : Bytes} {plural : Bool} (formatted : typeFormat type plural = some output) :
    output ≠ [] := by
  obtain ⟨e, found, rfl⟩ := Option.map_eq_some_iff.mp formatted
  have named : ∀ e ∈ typeNames, e.2 ≠ [] := by decide
  exact fun empty => named e (List.mem_of_find?_eq_some found) (List.append_eq_nil_iff.mp empty).1

/-- An empty output of a flush is one of its rows for an API agent. -/
theorem nil_mem_framed {rule title : Bytes} {rows : List (Bytes × Bytes)} (hrule : rule ≠ []) (htitle : title ≠ [])
    (hrows : ∀ row ∈ rows, row.1 ≠ []) : [] ∈ framed rule title last subresult rows ↔ ∃ row ∈ rows, row.2 = [] := by
  have header : [] ∉ if subresult = 1 then [rule, title, rule] else [] := by
    split <;> simp [hrule.symm, htitle.symm]
  have footer : [] ∉ if last then [rule] else [] := by
    split <;> simp [hrule.symm]
  unfold framed
  split
  · rename_i empty
    simp [empty.2]
  · rw [List.mem_append, List.mem_append, or_iff_right header, or_iff_left footer, List.mem_flatMap]
    refine exists_congr fun row => and_congr_right fun here => ?_
    simp [(hrows row here).symm, eq_comm]

theorem nil_mem_locationFlush {vecData : List Bytes} :
    [] ∈ locationFlush subresult vecData ↔ ∃ item ∈ vecData, cStr item = [] := by
  have wide (s : Bytes) : [] ≠ leftJustified 30 s := (leftJustified_ne_nil (by decide) s).symm
  have header : [] ∉ if subresult = 1 then [leftJustified 30 (lit "Location"), leftJustified 30 bars] else [] := by
    split
    · exact List.mem_pair.not.mpr (not_or.mpr ⟨wide _, wide _⟩)
    · exact List.not_mem_nil
  rw [locationFlush, List.mem_append, or_iff_right header, List.mem_flatMap]
  refine exists_congr fun item => and_congr_right fun _ => ?_
  rw [List.mem_pair, or_iff_right (wide item), eq_comm]

theorem nil_notMem_countFlush (nmap : List (Bytes × ℕ)) : [] ∉ countFlush nmap := by
  intro empty
  simp only [countFlush, List.mem_append, List.mem_cons, List.not_mem_nil, or_false, mmapRule_ne_nil.symm,
    (mmapRow_ne_nil _ _).symm, false_or, List.mem_flatMap, Option.mem_toList, (pair_ne_nil _ _).symm] at empty
  obtain ⟨e, -, formatted⟩ := empty
  exact typeFormat_ne_nil formatted rfl

/-- Only a bare item can be an empty output. -/
theorem nil_mem_outputs (flush : Flush) : [] ∈ flush.outputs last q ↔ ∃ item ∈ flush.bare q, cStr item = [] := by
  cases flush with
  | vector comillas title =>
    rw [outputs, vectorFlush, nil_mem_framed (by simp [vectorRule, lit]) (vectorRow_ne_nil title)]
    · cases comillas <;> simp [quoted, bare, cStr]
    · simp [vectorRow_ne_nil]
  | mmap comillas title subtitle =>
    rw [outputs, mmapFlush, nil_mem_framed mmapRule_ne_nil (mmapRow_ne_nil title subtitle)]
    · simp [bare, pair_ne_nil]
    · intro row here
      obtain ⟨item, -, rfl⟩ := List.mem_map.mp here
      exact mmapRow_ne_nil _ _
  | locations => exact nil_mem_locationFlush
  | counts => simpa [outputs, bare] using nil_notMem_countFlush q.nmap
  | response => simp [outputs, quoted, bare]
  | size => simpa [outputs, bare] using (pair_ne_nil q.size q.response).symm
  | typeName =>
    have never : typeFormat q.identified false ≠ some [] := fun formatted => typeFormat_ne_nil formatted rfl
    simpa [outputs, bare] using never

end Flush

/-- What `Process` has formatted; the query is known by its key, its registered type and its flags.  The alerts of SFLUSH
and DBRESET to other clients, which begin with a text of their own, are left out. -/
def QueryClass.flush (key identified : Bytes) (flags : QueryFlags) : QueryClass → Option Flush
  | .vkeys | .hfind | .hvals | .lkeys | .mkeys | .keys | .vfind => some (.vector false key)
  | .gkeys => some (.vector false (lit "Location"))
  | .hlist | .mget => if flags = .count then none else some (.vector false key)
  | .lget | .vget => if flags = .count then none else some (.vector true key)
  | .mvals => some (.vector true (lit "Multi"))
  | .miter => some (.vector true key)
  | .hgetall => some (.mmap false (lit "Hash") (lit "Value"))
  | .search => some (.mmap true (lit "Key") (lit "Value"))
  | .mgetall => some (.mmap true key (lit "Value"))
  | .diff =>
    if identified = intList then some (.vector false (lit "List"))
    else if identified = intVector then some (.vector false (lit "Vector"))
    else if identified = intMmap ∨ identified = intMap then some (.mmap false (lit "Map") (lit "Key"))
    else none
  | .geodistance => some .locations
  | .list | .glist => some .counts
  | .get | .getSubstr | .getset | .getdel | .getexp | .getpersist | .append | .insert | .hget | .lpos | .lrop | .lrfront
    | .lback | .lfront | .vpos | .vback | .vfront => some .response
  | .dbsize => some .size
  | .type => if identified = processNull then none else some .typeName
  | _ => none

/-- `Process` of an attached result: a request of its own, whose key not every class sets. -/
def QueryClass.partFlush (key : Bytes) (c : QueryClass) : Option Flush :=
  match c with
  | .keys | .lget | .hfind | .hlist | .hvals | .vfind | .vkeys | .vget => c.flush key [] .none
  | .mvals => QueryClass.hvals.flush [] [] .none
  | c => c.flush [] [] .none

def Part.subresult : Part → ℕ
  | .vector subresult _ | .multimap subresult _ => subresult

/-- The answers of `CheckFlush` that call `Process`. -/
def DblCode.processed (access : DblCode) : Bool :=
  access == .none || access == .statusOk || access == .interrupt

namespace QueryBase
variable {c : QueryClass} {q : QueryBase}

/-- The query as an attached result has it. -/
def ofPart (q : QueryBase) (part : Part) : QueryBase :=
  { q with subresult := part.subresult, vecData := part.vecData, mmap := part.mmap }

/-- The outputs that the delivery of a query has formatted: of its attached results, and then of its own reply or of
`InvalidType`. -/
def formatted (c : QueryClass) (q : QueryBase) : List Bytes :=
  (q.attached.flatMap fun part =>
    ((c.partFlush q.key).map fun flush => flush.outputs false (q.ofPart part)).getD []) ++
  if q.access.processed then ((c.flush q.key q.identified q.flags).map fun flush => flush.outputs true q).getD []
  else if q.access = .invalidType then (Flush.typeFormat q.response false).toList
  else []

/-- The items among them that are formatted bare. -/
def bareItems (c : QueryClass) (q : QueryBase) : List Bytes :=
  (q.attached.flatMap fun part => ((c.partFlush q.key).map fun flush => flush.bare (q.ofPart part)).getD []) ++
  if q.access.processed then ((c.flush q.key q.identified q.flags).map fun flush => flush.bare q).getD []
  else []

theorem nil_mem_formatted : [] ∈ q.formatted c ↔ ∃ item ∈ q.bareItems c, cStr item = [] := by
  have part (flush : Option Flush) (last : Bool) (q : QueryBase) :
      [] ∈ (flush.map fun flush => flush.outputs last q).getD [] ↔
        ∃ item ∈ (flush.map fun flush => flush.bare q).getD [], cStr item = [] := by
    cases flush with
    | none => simp
    | some flush => exact Flush.nil_mem_outputs flush
  unfold formatted bareItems
  simp only [List.mem_append, or_and_right, exists_or]
  refine or_congr ?_ ?_
  · simp only [List.mem_flatMap, part]
    constructor
    · rintro ⟨p, attached, item, here, empty⟩
      exact ⟨item, ⟨p, attached, here⟩, empty⟩
    · rintro ⟨item, ⟨p, attached, here⟩, empty⟩
      exact ⟨p, attached, item, here, empty⟩
  · split
    · exact part _ _ _
    · have refused : [] ∉ if q.access = .invalidType then (Flush.typeFormat q.response false).toList else [] := by
        split
        · exact fun formatted => Flush.typeFormat_ne_nil (Option.mem_toList.mp formatted) rfl
        · exact List.not_mem_nil
      simpa using refused

/-- A reply is delivered if and only if no bare item is empty, and each output has a length that `vsnprintf` can
return. -/
theorem delivers_iff {size : ℕ} (positive : 0 < size) : FormatsAll (q.formatted c) size ↔
    (∀ output ∈ q.formatted c, output.length < 2 ^ 31) ∧ ∀ item ∈ q.bareItems c, cStr item ≠ [] := by
  rw [formatsAll_iff positive]
  constructor
  · intro formattable
    refine ⟨fun output here => (formattable output here).short, fun item bare empty => ?_⟩
    exact (formattable [] (nil_mem_formatted.mpr ⟨item, bare, empty⟩)).nonempty rfl
  · rintro ⟨short, bare⟩ output here
    refine ⟨?_, short output here⟩
    rintro rfl
    obtain ⟨item, here, empty⟩ := nil_mem_formatted.mp here
    exact bare item here empty

end QueryBase

/-- `Format` ends if and only if its output is not empty and has an `int` for its length, and the delivery of a reply if
and only if no item that is formatted bare is empty, with the same bound. -/
theorem formatting_ends_iff {size : ℕ} (positive : 0 < size) :
    (∀ output : Bytes, Formats output size ↔ output ≠ [] ∧ output.length < 2 ^ 31) ∧
    ∀ (c : QueryClass) (q : QueryBase), FormatsAll (q.formatted c) size ↔
      (∀ item ∈ q.bareItems c, cStr item ≠ []) ∧ ∀ output ∈ q.formatted c, output.length < 2 ^ 31 := by
  constructor
  · intro output
    rw [formats_iff positive]
    exact ⟨fun h => ⟨h.nonempty, h.short⟩, fun h => ⟨h.1, h.2⟩⟩
  · intro c q
    rw [QueryBase.delivers_iff positive, and_comm]

theorem formatting_ends_at_start : Formats (lit "value") 1024 :=
  ((formatting_ends_iff (by decide : 0 < 1024)).1 (lit "value")).mpr (by decide)

/-- A query on the map `m` in the first select of the database `db`. -/
def hashQuery (cls : QueryClass) (value : Bytes) : Request where
  cls := cls
  database := lit "db"
  key := lit "m"
  select := 1
  hesh := lit "f"
  value := value
  limit := -1

/-- HSETNX takes the empty string in quotes, and HVALS formats it for ever. -/
theorem formatting_never_ends : ∃ s, (Server.machine Server.integers).Reachable s ∧
    (hashQuery .hvals []).registered s.kernel = some intMap ∧
    checkFormat (lit "\"\"") = true ∧ stripe (lit "\"\"") = [] ∧
    (s.kernel.reply Server.integers (hashQuery .hvals [])).delivered = [[], lit "x"] ∧
    ¬ Formats [] 1024 ∧
    ∀ fuel, formatAll fuel ((s.kernel.reply Server.integers (hashQuery .hvals [])).formatted .hvals) 1024 = none := by
  have h : ((Server.machine Server.integers).exec (fun _ _ => True) Server.fresh
      [.request { hashQuery .hset (lit "x") with hesh := lit "g" }, .request (hashQuery .hsetnx [])]).any fun s =>
        (hashQuery .hvals []).registered s.kernel = some intMap ∧
        (s.kernel.reply Server.integers (hashQuery .hvals [])).delivered = [[], lit "x"] ∧
        [] ∈ (s.kernel.reply Server.integers (hashQuery .hvals [])).formatted .hvals := by decide
  obtain ⟨s, reached, registered, delivered, empty⟩ := Machine.exec_holds h (.initial Server.fresh_initial)
  refine ⟨s, reached, registered, by decide, by decide, delivered, ?_,
    fun fuel => formatAll_never ⟨[], empty, fun h => h.nonempty rfl⟩⟩
  exact fun formats => ((formats_iff (by decide)).mp formats).nonempty rfl

end BerylDB.Store
