import BerylDB.Substrings

/-! # OCCURS

`count_occur` against the occurrences that a scan from the left finds. -/
namespace BerylDB.Text
open Store

/-! ## The scan from the left -/

/-- The positions of `sub` that a scan from the left finds; `skip` counts what is left of an occurrence. -/
def occurrencesFrom (sub : Bytes) : (pos skip : ℕ) → Bytes → List ℕ
  | _, _, [] => []
  | pos, skip + 1, _ :: s => occurrencesFrom sub (pos + 1) skip s
  | pos, 0, c :: s =>
    if sub.isPrefixOf (c :: s) then pos :: occurrencesFrom sub (pos + 1) (sub.length - 1) s
    else occurrencesFrom sub (pos + 1) 0 s

def occurrences (str sub : Bytes) : List ℕ := occurrencesFrom sub 0 0 str

section
variable {str sub s : Bytes} {pos p n fuel found : ℕ}

theorem occurrencesFrom_skip (skip : ℕ) :
    occurrencesFrom sub pos skip s = occurrencesFrom sub (pos + skip) 0 (s.drop skip) := by
  induction s generalizing pos skip with
  | nil => cases skip <;> rfl
  | cons c s ih =>
    cases skip with
    | zero => rfl
    | succ skip =>
      rw [occurrencesFrom, ih, List.drop_succ_cons]
      congr 1
      omega

theorem occurrencesFrom_fits {skip : ℕ} (here : p ∈ occurrencesFrom sub pos skip s) :
    p + sub.length ≤ pos + s.length := by
  induction s generalizing pos skip with
  | nil =>
    rw [occurrencesFrom] at here
    exact nomatch here
  | cons c s ih =>
    rw [List.length_cons]
    cases skip with
    | succ skip =>
      have := ih here
      omega
    | zero =>
      rw [occurrencesFrom] at here
      split at here
      · rename_i starts
        rcases List.mem_cons.mp here with rfl | later
        · have := (List.isPrefixOf_iff_prefix.mp starts).length_le
          rw [List.length_cons] at this
          omega
        · have := ih later
          omega
      · have := ih here
        omega

theorem occurrencesFrom_none (none : findFrom sub pos s = none) :
    occurrencesFrom sub pos 0 s = [] := by
  induction s generalizing pos with
  | nil => rfl
  | cons c s ih =>
    rw [findFrom] at none
    rw [occurrencesFrom]
    split at none
    · exact nomatch none
    · rw [if_neg ‹_›]
      exact ih none

theorem findFrom_le (here : findFrom sub pos s = some p) : pos ≤ p := by
  induction s generalizing pos with
  | nil =>
    rw [findFrom, Option.ite_none_right_eq_some, Option.some.injEq] at here
    exact here.2.le
  | cons c s ih =>
    rw [findFrom] at here
    split at here
    · exact (Option.some.inj here).le
    · exact (Nat.le_succ pos).trans (ih here)

/-- The first position found begins the list, and the rest begins behind it. -/
theorem occurrencesFrom_some (nonempty : sub ≠ []) (here : findFrom sub pos s = some p) :
    p + sub.length ≤ pos + s.length ∧ occurrencesFrom sub pos 0 s =
      p :: occurrencesFrom sub (p + sub.length) 0 (s.drop (p + sub.length - pos)) := by
  have long := List.length_pos_iff.mpr nonempty
  induction s generalizing pos with
  | nil => simp [findFrom, nonempty] at here
  | cons c s ih =>
    have further := findFrom_le here
    rw [findFrom] at here
    rw [occurrencesFrom]
    split at here
    · rename_i starts
      obtain rfl := Option.some.inj here
      have fits := (List.isPrefixOf_iff_prefix.mp starts).length_le
      refine ⟨by omega, ?_⟩
      rw [if_pos starts, occurrencesFrom_skip, show pos + sub.length - pos = (sub.length - 1) + 1 by omega,
        List.drop_succ_cons, show pos + 1 + (sub.length - 1) = pos + sub.length by omega]
    · rename_i other
      have later := findFrom_le here
      obtain ⟨fits, rest⟩ := ih here
      refine ⟨by simp only [List.length_cons]; omega, ?_⟩
      rw [if_neg other, rest, show p + sub.length - pos = (p + sub.length - (pos + 1)) + 1 by omega, List.drop_succ_cons]

/-! ## `find` from a cursor -/

/-- The occurrences from a position of the text on. -/
def occurrencesAt (str sub : Bytes) (pos : ℕ) : List ℕ := occurrencesFrom sub pos 0 (str.drop pos)

theorem occurrencesAt_none (inside : pos ≤ str.length) (none : stringFind str sub pos = none) :
    occurrencesAt str sub pos = [] := by
  rw [stringFind, if_pos inside] at none
  exact occurrencesFrom_none none

theorem occurrencesAt_some (nonempty : sub ≠ []) (here : stringFind str sub pos = some p) :
    pos ≤ p ∧ p + sub.length ≤ str.length ∧
      occurrencesAt str sub pos = p :: occurrencesAt str sub (p + sub.length) := by
  rw [stringFind, Option.ite_none_right_eq_some] at here
  obtain ⟨inside, here⟩ := here
  have further := findFrom_le here
  obtain ⟨fits, rest⟩ := occurrencesFrom_some nonempty here
  rw [List.length_drop] at fits
  refine ⟨further, by omega, ?_⟩
  rw [occurrencesAt, rest, List.drop_drop, show pos + (p + sub.length - pos) = p + sub.length by omega]
  rfl

/-- What is nowhere in a text is not behind a cursor either. -/
theorem stringFind_none (none : stringFind str sub 0 = none) (cursor : ℕ) : stringFind str sub cursor = Option.none := by
  have later (s : Bytes) (pos k : ℕ) (none : findFrom sub pos s = Option.none) :
      findFrom sub (pos + k) (s.drop k) = Option.none := by
    induction s generalizing pos k with
    | nil =>
      rw [List.drop_nil]
      rw [findFrom, ite_eq_right_iff] at none ⊢
      exact fun empty => nomatch none empty
    | cons c s ih =>
      cases k with
      | zero => exact none
      | succ k =>
        rw [findFrom] at none
        split at none
        · exact nomatch none
        · rw [List.drop_succ_cons, show pos + (k + 1) = pos + 1 + k by omega]
          exact ih (pos + 1) k none
  rw [stringFind, if_pos (Nat.zero_le _)] at none
  rw [stringFind, ite_eq_right_iff]
  intro _
  simpa using later str 0 cursor none

/-- How far into a text `find` looks: a size that is no `int` ends it elsewhere. -/
def findReach (str : Bytes) : ℤ := if toSigned str.length < 0 then max32BitInt else toSigned str.length

theorem findReach_short (short : str.length < 2 ^ 31) : findReach str = str.length := by
  rw [findReach, toSigned_of_range (by omega) (by omega), if_neg (by omega)]

theorem findReach_le (str : Bytes) : findReach str ≤ max32BitInt := by
  have high := toSigned_lt str.length
  unfold findReach max32BitInt
  split <;> omega

theorem indexFromEnd_natural (cursor : ℕ) (len : ℤ) : indexFromEnd cursor len = some (cursor : ℤ) :=
  if_neg (by omega)

theorem setIndex_cursor (cursor : ℕ) : setIndex cursor max32BitInt (toSigned str.length) =
    some ((cursor : ℤ), toSigned str.length) := by
  have high := toSigned_lt str.length
  unfold setIndex
  rw [indexFromEnd_natural]
  split
  · rfl
  · rename_i longest
    rw [show toSigned str.length = max32BitInt by unfold max32BitInt at *; omega]
    rfl

theorem find_cursor (cursor : ℕ) : find str sub cursor max32BitInt =
    some (match stringFind str sub cursor with
      | none => -1
      | some result =>
        if toSigned str.length % 2 ^ 64 < (result + sub.length : ℕ) then -1 else toSigned result) := by
  unfold find
  rw [setIndex_cursor]
  rfl

theorem find_none {cursor : ℕ} (none : stringFind str sub cursor = none) :
    find str sub cursor max32BitInt = some (-1) := by
  rw [find_cursor, none]

theorem find_reached {cursor : ℕ} (here : stringFind str sub cursor = some p)
    (reached : ((p + sub.length : ℕ) : ℤ) ≤ findReach str) : find str sub cursor max32BitInt = some (p : ℤ) := by
  have high := toSigned_lt str.length
  have low : -2 ^ 31 ≤ toSigned str.length := Int.le_bmod (by decide)
  rw [find_cursor, here]
  dsimp only
  unfold findReach max32BitInt at reached
  rw [toSigned_of_range (t := p) (by omega) (by split at reached <;> omega), if_neg]
  split at reached <;> omega

/-- In a text of 2 GiB and more `find` narrows a position that it should refuse. -/
theorem find_beyond {cursor : ℕ} (bounded : str.length < 2 ^ 32) (here : stringFind str sub cursor = some p)
    (fits : p + sub.length ≤ str.length) (beyond : findReach str < (p + sub.length : ℕ)) :
    2 ^ 31 ≤ str.length ∧ 2 ^ 31 ≤ p + sub.length ∧ find str sub cursor max32BitInt = some (toSigned p) := by
  have long : 2 ^ 31 ≤ str.length := by
    by_contra short
    rw [findReach_short (not_le.mp short)] at beyond
    omega
  have narrow : toSigned str.length < 0 := toSigned_high long bounded
  have low : -2 ^ 31 ≤ toSigned str.length := Int.le_bmod (by decide)
  rw [findReach, if_pos narrow, max32BitInt] at beyond
  refine ⟨long, by omega, ?_⟩
  rw [find_cursor, here]
  dsimp only
  rw [if_neg (by omega)]

/-! ## The loop -/

/-- One round of the loop of `count_occur`. -/
theorem countOccurFrom_succ {cursor next : ℤ} (found' : find str sub cursor max32BitInt = some next) :
    countOccurFrom str sub (fuel + 1) cursor found =
      if next < 0 then some found
      else (addInt next (toSigned sub.length)).bind fun cursor => countOccurFrom str sub fuel cursor (found + 1) := by
  rw [countOccurFrom, found']
  rfl

/-- The loop counts the occurrences when it reaches them all. -/
theorem countOccurFrom_reached (nonempty : sub ≠ []) {cursor : ℕ} (inside : cursor ≤ str.length)
    (reached : ∀ p ∈ occurrencesAt str sub cursor, ((p + sub.length : ℕ) : ℤ) ≤ findReach str)
    (enough : str.length - cursor < fuel) :
    countOccurFrom str sub fuel cursor found = some (found + (occurrencesAt str sub cursor).length) := by
  induction fuel generalizing cursor found with
  | zero => omega
  | succ fuel ih =>
    cases here : stringFind str sub cursor with
    | none =>
      rw [countOccurFrom_succ (find_none here), occurrencesAt_none inside here]
      rfl
    | some p =>
      obtain ⟨further, fits, rest⟩ := occurrencesAt_some nonempty here
      have long := List.length_pos_iff.mpr nonempty
      rw [rest] at reached ⊢
      have first := reached p List.mem_cons_self
      have bound := first.trans (findReach_le str)
      unfold max32BitInt at bound
      rw [countOccurFrom_succ (find_reached here first), if_neg (by omega), toSigned_of_range (by omega) (by omega),
        addInt, if_pos (by omega), Option.bind_some, ← Nat.cast_add,
        ih fits (fun q later => reached q (List.mem_cons_of_mem p later)) (by omega), List.length_cons]
      congr 1
      omega

/-- In a text of 2 GiB and more a negative cursor is undefined, or looks from the start. -/
theorem find_negative (long : 2 ^ 31 ≤ str.length) (bounded : str.length < 2 ^ 32) {cursor : ℤ} (back : cursor < 0) :
    find str sub cursor max32BitInt = none ∨ find str sub cursor max32BitInt = find str sub (0 : ℕ) max32BitInt := by
  have narrow : toSigned str.length < 0 := toSigned_high long bounded
  by_cases defined : -2 ^ 31 ≤ cursor + toSigned str.length
  · right
    have restart : setIndex cursor max32BitInt (toSigned str.length) =
        setIndex (0 : ℕ) max32BitInt (toSigned str.length) := by
      unfold setIndex
      rw [show indexFromEnd cursor (toSigned str.length) = some 0 by
        rw [indexFromEnd, if_pos back, addInt, if_pos ⟨defined, by omega⟩, Option.map_some, max_eq_left (by omega)]]
      rfl
    unfold find
    rw [restart]
  · left
    have undefined : setIndex cursor max32BitInt (toSigned str.length) = none := by
      unfold setIndex
      rw [show indexFromEnd cursor (toSigned str.length) = none by
        rw [indexFromEnd, if_pos back, addInt, if_neg fun h => defined h.1, Option.map_none]]
      split <;> rfl
    unfold find
    rw [undefined]
    rfl

/-- A text to look for that is no `int` long moves the cursor back to the start for ever. -/
theorem countOccurFrom_back (bounded : str.length < 2 ^ 32) (huge : 2 ^ 31 ≤ sub.length)
    (here : stringFind str sub 0 = some p) (fits : p + sub.length ≤ str.length) {cursor : ℤ} (back : cursor < 0) :
    countOccurFrom str sub fuel cursor found = none := by
  have beyond : findReach str < (p + sub.length : ℕ) := by
    have := findReach_le str
    unfold max32BitInt at this
    omega
  obtain ⟨long, -, again⟩ := find_beyond bounded here fits beyond
  rw [toSigned_of_range (t := p) (by omega) (by omega)] at again
  induction fuel generalizing found cursor with
  | zero => rfl
  | succ fuel ih =>
    have moved : find str sub cursor max32BitInt = none ∨ _ := find_negative long bounded back
    rcases moved with undefined | restart
    · rw [countOccurFrom, undefined]
      rfl
    · have negative : (p : ℤ) + toSigned sub.length < 0 := by
        unfold toSigned
        rw [Int.bmod_def]
        omega
      rw [countOccurFrom_succ (restart.trans again), if_neg (by omega), addInt]
      split
      · exact ih negative
      · rfl

/-- The loop counts something else, or nothing at all, when an occurrence is out of its reach. -/
theorem countOccurFrom_beyond (bounded : str.length < 2 ^ 32) (nonempty : sub ≠ []) {cursor : ℕ}
    (inside : cursor ≤ str.length)
    (beyond : ∃ p ∈ occurrencesAt str sub cursor, findReach str < (p + sub.length : ℕ)) :
    countOccurFrom str sub fuel cursor found ≠ some (found + (occurrencesAt str sub cursor).length) := by
  induction fuel generalizing cursor found with
  | zero => exact fun h => nomatch h
  | succ fuel ih =>
    cases here : stringFind str sub cursor with
    | none =>
      rw [occurrencesAt_none inside here] at beyond
      simp at beyond
    | some p =>
      obtain ⟨further, fits, rest⟩ := occurrencesAt_some nonempty here
      have long := List.length_pos_iff.mpr nonempty
      by_cases first : ((p + sub.length : ℕ) : ℤ) ≤ findReach str
      · have bound := first.trans (findReach_le str)
        unfold max32BitInt at bound
        rw [rest, List.exists_mem_cons_iff, or_iff_right (not_lt.mpr first)] at beyond
        rw [countOccurFrom_succ (find_reached here first), if_neg (by omega), toSigned_of_range (by omega) (by omega),
          addInt, if_pos (by omega), Option.bind_some, ← Nat.cast_add, rest, List.length_cons]
        have next : countOccurFrom str sub fuel (p + sub.length : ℕ) (found + 1) ≠
            some (found + 1 + (occurrencesAt str sub (p + sub.length)).length) := ih fits beyond
        rwa [show found + 1 + (occurrencesAt str sub (p + sub.length)).length =
          found + ((occurrencesAt str sub (p + sub.length)).length + 1) by omega] at next
      · obtain ⟨-, past, narrowed⟩ := find_beyond bounded here fits (not_le.mp first)
        rw [countOccurFrom_succ narrowed, rest]
        by_cases high : 2 ^ 31 ≤ p
        · rw [if_pos (toSigned_high high (by omega)), List.length_cons]
          intro same
          have := Option.some.inj same
          omega
        · rw [toSigned_of_range (t := p) (by omega) (by omega), if_neg (by omega), addInt]
          split
          · rename_i defined
            have huge : 2 ^ 31 ≤ sub.length := by
              by_contra small
              rw [toSigned_of_range (by omega) (by omega)] at defined
              omega
            cases start : stringFind str sub 0 with
            | none =>
              rw [stringFind_none start] at here
              exact nomatch here
            | some p' =>
              have fits' := (occurrencesAt_some nonempty start).2.1
              have back : (p : ℤ) + toSigned sub.length < 0 := by
                unfold toSigned
                rw [Int.bmod_def]
                omega
              rw [Option.bind_some, countOccurFrom_back bounded huge start fits' back]
              exact fun h => nomatch h
          · exact fun h => nomatch h

/-- An empty text is found at the cursor for ever. -/
theorem countOccurFrom_empty (str : Bytes) : countOccurFrom str [] fuel 0 found = none := by
  have here : stringFind str [] 0 = some 0 := by
    cases str <;> rfl
  have start : find str [] (0 : ℕ) max32BitInt = some (0 : ℤ) := by
    rw [find_cursor, here]
    exact congrArg some (if_neg (by simp only [List.length_nil]; omega))
  induction fuel generalizing found with
  | zero => rfl
  | succ fuel ih =>
    rw [← Nat.cast_zero, countOccurFrom_succ start]
    exact ih

/-- `count_occur` counts the occurrences that are within its reach. -/
theorem countOccur_reached (nonempty : sub ≠ [])
    (reached : ∀ p ∈ occurrences str sub, ((p + sub.length : ℕ) : ℤ) ≤ findReach str) :
    countOccur str sub = some (occurrences str sub).length := by
  have counted : countOccurFrom str sub (str.length + 2) (0 : ℕ) 0 = some (0 + (occurrencesAt str sub 0).length) :=
    countOccurFrom_reached nonempty (Nat.zero_le _) reached (by omega)
  rw [Nat.zero_add] at counted
  exact counted

/-- In a text of less than 4 GiB it counts nothing else. -/
theorem countOccur_only (bounded : str.length < 2 ^ 32) (counted : countOccur str sub = some (occurrences str sub).length) :
    sub ≠ [] ∧ ∀ p ∈ occurrences str sub, ((p + sub.length : ℕ) : ℤ) ≤ findReach str := by
  have nonempty : sub ≠ [] := by
    rintro rfl
    rw [countOccur, countOccurFrom_empty] at counted
    exact nomatch counted
  refine ⟨nonempty, ?_⟩
  by_contra beyond
  push Not at beyond
  have other : countOccurFrom str sub (str.length + 2) (0 : ℕ) 0 ≠ some (0 + (occurrencesAt str sub 0).length) :=
    countOccurFrom_beyond bounded nonempty (Nat.zero_le _) beyond
  rw [Nat.zero_add] at other
  exact other counted

end

end BerylDB.Text

namespace BerylDB.Store
open Text QueryBase Kernel Transition

/-- The query that `CommandGetOccurs::Handle` pushes. -/
def commandGetOccurs (db : Bytes) (select : ℕ) (key value : Bytes) : Option Request :=
  if keyValidator key && checkFormat value then
    some { cls := .getOccurs, database := db, key, select, value := stripe value }
  else none

/-- OCCURS ends, and replies with the number of the occurrences. -/
structure CountsOccurrences (P : Platform) (k : Kernel) (r : Request) : Prop where
  ends : countOccur (k.keyText r) r.value ≠ none
  ok : (k.reply P r).finished = true
  count : (k.reply P r).response = convtoString (occurrences (k.keyText r) r.value).length

section
variable {P : Platform} {k : Kernel} {r : Request}

theorem getOccurs_reply (cls : r.cls = .getOccurs) (opened : k.Opened r.database)
    (registered : r.registered k = some intKey) : ∃ q : QueryBase,
      q.value = r.value ∧ Run.text k q = k.keyText r ∧ k.reply P r = Run.getOccurs k q := by
  have body : r.cls.body P = .reader Run.getOccurs := by rw [cls, QueryClass.body]
  exact ⟨_, rfl, Kernel.keyText_found registered,
    reply_reader opened registered body (by simp [cls, QueryClass.queryType]) (by rw [cls]; rfl)⟩

theorem countsOccurrences_iff (cls : r.cls = .getOccurs) (opened : k.Opened r.database)
    (registered : r.registered k = some intKey) : CountsOccurrences P k r ↔
      countOccur (k.keyText r) r.value = some (occurrences (k.keyText r) r.value).length := by
  obtain ⟨q, value, text, reply⟩ := getOccurs_reply (P := P) cls opened registered
  rw [Run.getOccurs, value, text] at reply
  constructor
  · rintro ⟨ends, ok, count⟩
    rw [reply] at ok count
    cases counted : countOccur (k.keyText r) r.value with
    | none => exact absurd counted ends
    | some n =>
      rw [counted, Option.elim_some] at count
      exact congrArg some (convtoString_injective count)
  · intro counted
    rw [counted] at reply
    rw [Option.elim_some] at reply
    refine ⟨?_, by rw [reply]; rfl, by rw [reply]; rfl⟩
    rw [counted]
    exact Option.some_ne_none _

end

section
variable {P : Platform} {s : Server} {r : Request} {db key value : Bytes} {select : ℕ}

/-- The value is not `""`, and no occurrence lies where `find` narrows a position: none does in a text whose size is an
`int`. -/
structure Countable (text value : Bytes) : Prop where
  nonempty : value ≠ lit "\"\""
  reached : ∀ p ∈ occurrences text (stripe value), ((p + (stripe value).length : ℕ) : ℤ) ≤ findReach text

theorem Countable.of_short {text : Bytes} (nonempty : value ≠ lit "\"\"") (short : text.length < 2 ^ 31) :
    Countable text value := by
  refine ⟨nonempty, fun p here => ?_⟩
  have fits := occurrencesFrom_fits here
  rw [findReach_short short]
  omega

/-- OCCURS counts a countable value; in a text of less than 4 GiB, which is what RocksDB stores, it counts no other. -/
theorem occurs_counts_iff (handled : commandGetOccurs db select key value = some r) (opened : s.kernel.Opened db)
    (registered : r.registered s.kernel = some intKey) :
    (Countable (s.kernel.keyText r) value → CountsOccurrences P s.kernel r) ∧
    ((s.kernel.keyText r).length < 2 ^ 32 → CountsOccurrences P s.kernel r → Countable (s.kernel.keyText r) value) := by
  simp only [commandGetOccurs, Option.ite_none_right_eq_some, Option.some.injEq, Bool.and_eq_true] at handled
  obtain ⟨⟨-, format⟩, rfl⟩ := handled
  rw [countsOccurrences_iff rfl opened registered]
  constructor
  · exact fun h => countOccur_reached ((not_congr (stripe_eq_nil format)).mpr h.nonempty) h.reached
  · intro bounded counted
    obtain ⟨nonempty, reached⟩ := countOccur_only bounded counted
    exact ⟨(not_congr (stripe_eq_nil format)).mp nonempty, reached⟩

end

/-- OCCURS of the key `k` in the first select of the database `db`. -/
def occursQuery (value : Bytes) : Request where
  cls := .getOccurs
  database := lit "db"
  key := lit "k"
  select := 1
  value := value

/-- A server that holds the text `aaa` at the key `k`. -/
theorem occurs_stored : ∃ s, (Server.machine Server.integers).Reachable s ∧ s.kernel.Opened (lit "db") ∧
    (∀ value, (occursQuery value).registered s.kernel = some intKey) ∧
    ∀ value, s.kernel.keyText (occursQuery value) = lit "aaa" := by
  have h : ((Server.machine Server.integers).exec (fun _ _ => True) Server.fresh
      [.request { occursQuery (lit "aaa") with cls := .set }]).any fun s =>
        (s.kernel.databases (lit "db")).closing = false ∧ (occursQuery []).registered s.kernel = some intKey ∧
        s.kernel.keyText (occursQuery []) = lit "aaa" := by decide
  obtain ⟨s, reached, opened, registered, text⟩ := Machine.exec_holds h (.initial Server.fresh_initial)
  exact ⟨s, reached, opened, fun _ => registered, fun _ => text⟩

theorem occurs_counts_three : ∃ s : Server, CountsOccurrences Server.integers s.kernel (occursQuery (lit "a")) := by
  obtain ⟨s, -, opened, registered, text⟩ := occurs_stored
  have handled : commandGetOccurs (lit "db") 1 (lit "k") (lit "a") = some (occursQuery (lit "a")) := by decide
  exact ⟨s, (occurs_counts_iff handled opened (registered _)).1 (.of_short (by decide) (by rw [text]; decide))⟩

/-- OCCURS of the empty string in quotes never ends. -/
theorem occurs_never_ends : ∃ s, (Server.machine Server.integers).Reachable s ∧
    commandGetOccurs (lit "db") 1 (lit "k") (lit "\"\"") = some (occursQuery []) ∧
    (∀ fuel, countOccurFrom (s.kernel.keyText (occursQuery [])) [] fuel 0 0 = none) ∧
    ¬ CountsOccurrences Server.integers s.kernel (occursQuery []) := by
  obtain ⟨s, reach, opened, registered, text⟩ := occurs_stored
  refine ⟨s, reach, by decide, fun fuel => countOccurFrom_empty _, fun counts => counts.ends ?_⟩
  exact countOccurFrom_empty _

end BerylDB.Store
