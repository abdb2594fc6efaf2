import BerylDB.CaseFunctors
import Mathlib.Data.Nat.ModEq
import Mathlib.Data.Set.Card

/-! # Identifiers of clients

`UIDHandler` of `server.cpp`: an identifier is the server's and six letters or digits, which are counted up from the last
one with the letters before the digits. -/
namespace BerylDB.Uids
open Text

def uuidLimit : ℕ := 9

/-- `FindNext` and the positions at which it is called; `none` where it reads or writes outside of the text. -/
def findNext (pos : ℕ) (lastUID : Bytes) : Option (List ℕ × Bytes) :=
  match lastUID[pos]? with
  | none => none
  | some c =>
    if c = 90 then some ([pos], lastUID.set pos 48)
    else if c = 57 then
      let lastUID := lastUID.set pos 65
      if pos = 3 then some ([pos], lastUID)
      else
        match pos with
        | 0 => none
        | before + 1 => (findNext before lastUID).map fun r => ((before + 1) :: r.1, r.2)
    else some ([pos], lastUID.set pos (c + 1))

/-- `Initialize`; a byte that `sid` does not have is a NUL. -/
def initializeUID (lastUID sid : Bytes) : Bytes :=
  let lastUID := lastUID.take uuidLimit ++ .replicate (uuidLimit - lastUID.length) 57
  ((lastUID.set 0 (sid.getD 0 0)).set 1 (sid.getD 1 0)).set 2 (sid.getD 2 0)

/-- `GetUID`, whose loop takes one call of `FindNext` a turn. -/
def getUID (findUUID : Bytes → Bool) : (fuel : ℕ) → Bytes → Option Bytes
  | 0, _ => none
  | fuel + 1, lastUID => do
    let (_, lastUID) ← findNext (uuidLimit - 1) lastUID
    if findUUID lastUID then getUID findUUID fuel lastUID else some lastUID

/-- `ClientManager::FindUUID`, given the keys of `uuid_list`. -/
def findUUID (charmap : CharMap) (uuidList : List Bytes) (uid : Bytes) : Bool :=
  (charmap.hashedFind uuidList uid).isSome

/-- What the constructor of a user does to `uuid_list`; `none` is its exception. -/
def insertUser (charmap : CharMap) (uuidList : List Bytes) (uuid : Bytes) : Option (List Bytes) :=
  if findUUID charmap uuidList uuid then none else some (charmap.hashedInsert uuidList uuid)

/-- `LastUID` after that many calls of `FindNext`. -/
def uidAfter : ℕ → Bytes → Option Bytes
  | 0, lastUID => some lastUID
  | n + 1, lastUID => (findNext (uuidLimit - 1) lastUID).bind fun r => uidAfter n r.2

/-- Letters and digits. -/
def IsWord (k : ℕ) (w : Bytes) : Prop := w.length = k ∧ ∀ c ∈ w, (isUpper c || isDigit c) = true

/-! ## Words as numbers -/

/-- The letters come before the digits. -/
def digitChar (d : ℕ) : UInt8 := if d < 26 then (65 + d).toUInt8 else (48 + (d - 26)).toUInt8

/-- The digits of a number of base 36, last one last. -/
def word : ℕ → ℕ → Bytes
  | 0, _ => []
  | k + 1, v => word k (v / 36) ++ [digitChar (v % 36)]

section
variable {k v v' n : ℕ} {sid rest w : Bytes} {c : UInt8}

theorem digitChar_spec : ∀ d < 36, (isUpper (digitChar d) || isDigit (digitChar d)) = true ∧
    (digitChar d = 90 ↔ d = 25) ∧ (digitChar d = 57 ↔ d = 35) ∧
      (d ≠ 25 → d ≠ 35 → digitChar d + 1 = digitChar (d + 1)) := by
  decide

/-- The maps tell letters and digits apart. -/
theorem get_digitChar_injective (charmap : CharMap) :
    ∀ d < 36, ∀ e < 36, charmap.get (digitChar d) = charmap.get (digitChar e) → d = e := by
  cases charmap <;> decide +kernel

theorem exists_digitChar (h : (isUpper c || isDigit c) = true) : ∃ d < 36, digitChar d = c := by
  rw [Bool.or_eq_true, isUpper_iff, isDigit_iff] at h
  rcases h with ⟨low, high⟩ | ⟨low, high⟩
  · refine ⟨c.toNat - 65, by omega, ?_⟩
    rw [digitChar, if_pos (by omega), Nat.add_sub_cancel' low]
    exact UInt8.ofNat_toNat
  · refine ⟨c.toNat - 48 + 26, by omega, ?_⟩
    rw [digitChar, if_neg (by omega), Nat.add_sub_cancel, Nat.add_sub_cancel' low]
    exact UInt8.ofNat_toNat

@[simp] theorem length_word (k v : ℕ) : (word k v).length = k := by
  induction k generalizing v with
  | zero => rfl
  | succ k ih => rw [word, List.length_append, ih, List.length_singleton]

theorem word_isWord (k v : ℕ) : IsWord k (word k v) := by
  refine ⟨length_word k v, ?_⟩
  induction k generalizing v with
  | zero => simp [word]
  | succ k ih =>
    rw [word]
    refine List.forall_mem_append.mpr ⟨ih _, ?_⟩
    simpa using (digitChar_spec _ (Nat.mod_lt v (by decide))).1

theorem key_append (charmap : CharMap) (s t : Bytes) : charmap.key (s ++ t) = charmap.key s ++ charmap.key t :=
  List.map_append

theorem key_word_injective (charmap : CharMap) (hv : v < 36 ^ k) (hv' : v' < 36 ^ k)
    (same : charmap.key (word k v) = charmap.key (word k v')) : v = v' := by
  induction k generalizing v v' with
  | zero => omega
  | succ k ih =>
    rw [word, word, key_append, key_append] at same
    obtain ⟨front, last⟩ := List.append_inj' same rfl
    rw [pow_succ] at hv hv'
    have quotient := ih (Nat.div_lt_of_lt_mul (by omega)) (Nat.div_lt_of_lt_mul (by omega)) front
    have remainder := get_digitChar_injective charmap _ (Nat.mod_lt v (by decide)) _ (Nat.mod_lt v' (by decide))
      ((CharMap.key_cons _ _ [] []).mp last).1
    omega

theorem word_injective (hv : v < 36 ^ k) (hv' : v' < 36 ^ k) (same : word k v = word k v') : v = v' :=
  key_word_injective .ascii hv hv' (congrArg _ same)

theorem IsWord.exists_word (h : IsWord k w) : ∃ v < 36 ^ k, word k v = w := by
  induction k generalizing w with
  | zero => exact ⟨0, by decide, (List.length_eq_zero_iff.mp h.1).symm⟩
  | succ k ih =>
    obtain ⟨length, chars⟩ := h
    obtain ⟨front, last, rfl⟩ : ∃ front last, w = front ++ [last] :=
      (List.eq_nil_or_concat' w).resolve_left fun none => by simp [none] at length
    have parts := List.forall_mem_append.mp chars
    obtain ⟨v, small, same⟩ := ih ⟨by simpa using length, parts.1⟩
    obtain ⟨d, digit, same'⟩ := exists_digitChar (parts.2 last List.mem_cons_self)
    refine ⟨v * 36 + d, ?_, ?_⟩
    · rw [pow_succ]
      omega
    · have quotient : (v * 36 + d) / 36 = v := by omega
      have remainder : (v * 36 + d) % 36 = d := by omega
      rw [word, quotient, remainder, same, same']

/-! ## Counting -/

section
variable {front : Bytes} {d pos : ℕ}

/-- What `FindNext` sees of a digit and its place. -/
theorem findNext_place (place : front.length = pos) (d : ℕ) (rest : Bytes) :
    (front ++ [digitChar d] ++ rest)[pos]? = some (digitChar d) ∧
      ∀ c, (front ++ [digitChar d] ++ rest).set pos c = front ++ [c] ++ rest := by
  constructor
  · simp [← place]
  · simp [← place]

/-- Before the last digit there is no carry. -/
theorem findNext_up (digit : d < 35) (place : front.length = pos) (rest : Bytes) :
    findNext pos (front ++ [digitChar d] ++ rest) = some ([pos], front ++ [digitChar (d + 1)] ++ rest) := by
  obtain ⟨-, upper, last, up⟩ := digitChar_spec d (by omega)
  obtain ⟨char, set⟩ := findNext_place place d rest
  unfold findNext
  rw [char]
  dsimp only
  by_cases zed : d = 25
  · rw [if_pos (upper.mpr zed), set, zed]
    rfl
  · rw [if_neg (mt upper.mp zed), if_neg (mt last.mp (by omega)), set, up zed (by omega)]

theorem findNext_top (place : front.length = 3) (rest : Bytes) :
    findNext 3 (front ++ [digitChar 35] ++ rest) = some ([3], front ++ [digitChar 0] ++ rest) := by
  obtain ⟨char, set⟩ := findNext_place place 35 rest
  have other : digitChar 35 ≠ 90 := by decide
  have nine : digitChar 35 = 57 := by decide
  unfold findNext
  rw [char]
  dsimp only
  rw [if_neg other, if_pos nine, if_pos rfl, set]
  rfl

/-- The last digit is the first one again and carries to the place in front of it. -/
theorem findNext_carry (place : front.length = pos + 1) (inner : pos + 1 ≠ 3) (rest : Bytes) :
    findNext (pos + 1) (front ++ [digitChar 35] ++ rest) =
      (findNext pos (front ++ [digitChar 0] ++ rest)).map fun r => ((pos + 1) :: r.1, r.2) := by
  obtain ⟨char, set⟩ := findNext_place place 35 rest
  have other : digitChar 35 ≠ 90 := by decide
  have nine : digitChar 35 = 57 := by decide
  conv_lhs => unfold findNext
  rw [char]
  dsimp only
  rw [if_neg other, if_pos nine, if_neg inner, set]
  rfl

end

/-- The last digit is counted up, and those in front of it when it is the last one of all. -/
theorem findNext_word (three : sid.length = 3) (small : v < 36 ^ (k + 1)) (rest : Bytes) : ∃ calls,
    findNext (k + 3) (sid ++ word (k + 1) v ++ rest) =
      some (calls, sid ++ word (k + 1) ((v + 1) % 36 ^ (k + 1)) ++ rest) ∧ ∀ pos ∈ calls, 3 ≤ pos := by
  induction k generalizing v rest with
  | zero =>
    have one (d : ℕ) (digit : d < 36) : sid ++ word (0 + 1) d = sid ++ [digitChar d] := by
      rw [word, word, Nat.mod_eq_of_lt digit, List.nil_append]
    have digit : v < 36 := by simpa using small
    refine ⟨[3], ?_, by simp⟩
    have size : 36 ^ (0 + 1) = 36 := rfl
    rw [size, one v digit, one _ (Nat.mod_lt _ (by decide))]
    by_cases top : v = 35
    · rw [top]
      exact findNext_top three rest
    · have next : (v + 1) % 36 = v + 1 := Nat.mod_eq_of_lt (by omega)
      rw [next]
      exact findNext_up (by omega) three rest
  | succ k ih =>
    have place : (sid ++ word (k + 1) (v / 36)).length = k + 1 + 3 := by
      rw [List.length_append, length_word]
      omega
    have parts (u : ℕ) : sid ++ word (k + 1 + 1) u = (sid ++ word (k + 1) (u / 36)) ++ [digitChar (u % 36)] := by
      rw [word, List.append_assoc]
    have size : 36 ^ (k + 1 + 1) = 36 * 36 ^ (k + 1) := by rw [pow_succ, mul_comm]
    have front : v / 36 < 36 ^ (k + 1) := by omega
    rw [parts, parts]
    by_cases top : v % 36 = 35
    · obtain ⟨calls, found, deep⟩ := ih front ([digitChar 0] ++ rest)
      have next : (v + 1) % 36 ^ (k + 1 + 1) = 36 * ((v / 36 + 1) % 36 ^ (k + 1)) := by
        have carry : v + 1 = 36 * (v / 36 + 1) := by omega
        rw [carry, size, Nat.mul_mod_mul_left]
      have quotient : (v + 1) % 36 ^ (k + 1 + 1) / 36 = (v / 36 + 1) % 36 ^ (k + 1) := by omega
      have remainder : (v + 1) % 36 ^ (k + 1 + 1) % 36 = 0 := by omega
      refine ⟨(k + 1 + 3) :: calls, ?_, ?_⟩
      · rw [top, quotient, remainder]
        refine (findNext_carry place (by omega) rest).trans ?_
        rw [List.append_assoc, found, ← List.append_assoc]
        rfl
      · exact List.forall_mem_cons.mpr ⟨by omega, deep⟩
    · have next : (v + 1) % 36 ^ (k + 1 + 1) = v + 1 := Nat.mod_eq_of_lt (by omega)
      have quotient : (v + 1) / 36 = v / 36 := by omega
      have remainder : (v + 1) % 36 = v % 36 + 1 := by omega
      refine ⟨[k + 1 + 3], ?_, by simp⟩
      rw [next, quotient, remainder]
      exact findNext_up (by omega) place rest

/-- After that many calls the number is that much greater. -/
theorem uidAfter_word (three : sid.length = 3) (small : v < 36 ^ 6) (n : ℕ) :
    uidAfter n (sid ++ word 6 v) = some (sid ++ word 6 ((v + n) % 36 ^ 6)) := by
  induction n generalizing v with
  | zero => rw [uidAfter, Nat.add_zero, Nat.mod_eq_of_lt small]
  | succ n ih =>
    obtain ⟨calls, found, -⟩ := findNext_word three small []
    rw [List.append_nil, List.append_nil] at found
    have first : findNext (uuidLimit - 1) (sid ++ word 6 v) = _ := found
    rw [uidAfter, first, Option.bind_some, ih (Nat.mod_lt _ (by decide)), Nat.mod_add_mod, Nat.add_assoc, Nat.add_comm 1]

/-- The identifier that is never handed out first. -/
theorem initializeUID_eq (a b c : UInt8) : initializeUID [] [a, b, c] = [a, b, c] ++ word 6 (36 ^ 6 - 1) := by
  have nines : word 6 (36 ^ 6 - 1) = .replicate 6 57 := by decide
  rw [nines]
  rfl

/-! ## Identifiers that are not in use -/

section
variable {find : Bytes → Bool} {lastUID next uid : Bytes} {calls : List ℕ}

theorem getUID_succ (found : findNext (uuidLimit - 1) lastUID = some (calls, next)) (fuel : ℕ) :
    getUID find (fuel + 1) lastUID = if find next then getUID find fuel next else some next := by
  rw [getUID, found]
  rfl

/-- The loop stops at the first identifier that is not in use, within as many turns as lead to one. -/
theorem getUID_stops (reached : uidAfter (n + 1) lastUID = some uid) (free : find uid = false) :
    ∃ m uid', uidAfter (m + 1) lastUID = some uid' ∧ find uid' = false ∧
      ∀ fuel, n < fuel → getUID find fuel lastUID = some uid' := by
  induction n generalizing lastUID with
  | zero =>
    obtain ⟨⟨calls, next⟩, found, same⟩ := Option.bind_eq_some_iff.mp reached
    obtain rfl := Option.some.inj same
    refine ⟨0, next, reached, free, fun fuel some => ?_⟩
    obtain ⟨fuel, rfl⟩ := Nat.exists_eq_add_of_lt some
    rw [getUID_succ found, free, if_neg Bool.false_ne_true]
  | succ n ih =>
    obtain ⟨⟨calls, next⟩, found, later⟩ := Option.bind_eq_some_iff.mp reached
    have after (m : ℕ) : uidAfter (m + 1) lastUID = uidAfter m next := by
      rw [uidAfter, found]
      rfl
    cases used : find next with
    | false =>
      refine ⟨0, next, after 0, used, fun fuel some => ?_⟩
      obtain ⟨fuel, rfl⟩ := Nat.exists_eq_add_of_lt some
      rw [getUID_succ found, used, if_neg Bool.false_ne_true]
    | true =>
      obtain ⟨m, uid', reached', free', result⟩ := ih later
      refine ⟨m + 1, uid', (after (m + 1)).trans reached', free', fun fuel some => ?_⟩
      obtain ⟨fuel, rfl⟩ := Nat.exists_eq_add_of_lt some
      rw [getUID_succ found, used, if_pos rfl]
      exact result (n + 1 + fuel) (by omega)

end

/-- A key with a NUL is compared up to it. -/
theorem equals_takeWhile (charmap : CharMap) :
    ∀ s t : Bytes, charmap.equals s t = charmap.equals (s.takeWhile (· ≠ 0)) t
  | [], _ => rfl
  | a :: s, t => by
    by_cases nul : a = 0
    · subst nul
      cases t with
      | nil => simp [CharMap.equals]
      | cons b t => simp [CharMap.equals]
    · rw [List.takeWhile_cons_of_pos (by simpa using nul)]
      cases t with
      | nil => rfl
      | cons b t => rw [CharMap.equals, CharMap.equals, equals_takeWhile charmap s t]

/-- Each key is found for one identifier at most. -/
theorem hits_word_injective {charmap : CharMap} {key : Bytes} (plain : 0 ∉ sid) (hv : v < 36 ^ k) (hv' : v' < 36 ^ k)
    (hit : charmap.hits (sid ++ word k v) key = true) (hit' : charmap.hits (sid ++ word k v') key = true) : v = v' := by
  have nul (u : ℕ) : 0 ∉ sid ++ word k u := fun found => by
    have char := (word_isWord k u).2 0 ((List.mem_append.mp found).resolve_left plain)
    exact absurd char (by decide)
  have front : 0 ∉ key.takeWhile (· ≠ 0) := fun found => by simpa using List.mem_takeWhile_imp found
  have seen {u : ℕ} (hit : charmap.hits (sid ++ word k u) key = true) :
      charmap.key (key.takeWhile (· ≠ 0)) = charmap.key sid ++ charmap.key (word k u) := by
    have equal := (Bool.and_eq_true_iff.mp hit).2
    rw [equals_takeWhile, CharMap.equals_iff charmap front (nul u), key_append] at equal
    exact equal
  exact key_word_injective charmap hv hv' (List.append_cancel_left ((seen hit).symm.trans (seen hit')))

theorem ncard_isWord (k : ℕ) : {w | IsWord k w}.ncard = 36 ^ k := by
  have words : {w | IsWord k w} = ((Finset.range (36 ^ k)).image (word k) : Set Bytes) := by
    ext w
    simp only [Set.mem_ofPred_eq, Finset.coe_image, Finset.coe_range, Set.mem_image, Set.mem_Iio]
    constructor
    · exact IsWord.exists_word
    · rintro ⟨v, -, rfl⟩
      exact word_isWord k v
  rw [words, Set.ncard_coe_finset, Finset.card_image_of_injOn, Finset.card_range]
  intro v hv v' hv' same
  exact word_injective (by simpa using hv) (by simpa using hv') same

/-- The identifiers that are in use. -/
def usedWords (charmap : CharMap) (uuidList : List Bytes) (sid : Bytes) : Set Bytes :=
  {w | IsWord 6 w ∧ findUUID charmap uuidList (sid ++ w) = true}

/-- There are no more of them than keys. -/
theorem ncard_usedWords_le (charmap : CharMap) (uuidList : List Bytes) (plain : 0 ∉ sid) :
    (usedWords charmap uuidList sid).ncard ≤ uuidList.length := by
  have bound : (usedWords charmap uuidList sid).ncard ≤ (uuidList.toFinset : Set Bytes).ncard := by
    refine Set.ncard_le_ncard_of_injOn (fun w => (charmap.hashedFind uuidList (sid ++ w)).getD []) ?_ ?_
    · rintro w ⟨-, used⟩
      obtain ⟨key, found⟩ := Option.isSome_iff_exists.mp used
      simpa [found] using List.mem_of_find?_eq_some found
    · rintro w ⟨hw, used⟩ w' ⟨hw', used'⟩ same
      obtain ⟨key, found⟩ := Option.isSome_iff_exists.mp used
      obtain ⟨key', found'⟩ := Option.isSome_iff_exists.mp used'
      obtain rfl : key = key' := by simpa [found, found'] using same
      obtain ⟨v, hv, rfl⟩ := hw.exists_word
      obtain ⟨v', hv', rfl⟩ := hw'.exists_word
      exact congrArg _ (hits_word_injective plain hv hv' (List.find?_some found) (List.find?_some found'))
  rw [Set.ncard_coe_finset] at bound
  exact bound.trans (List.toFinset_card_le uuidList)

/-- The states that `FindNext` runs through after `Initialize`. -/
structure Cycles (sid : Bytes) : Prop where
  shape : ∀ n, ∃ w, IsWord 6 w ∧ uidAfter n (initializeUID [] sid) = some (sid ++ w)
  calls : ∀ n lastUID, uidAfter n (initializeUID [] sid) = some lastUID →
    ∃ calls next, findNext (uuidLimit - 1) lastUID = some (calls, next) ∧ ∀ pos ∈ calls, 3 ≤ pos
  once : ∀ w, IsWord 6 w → ∃! n, n < 36 ^ 6 ∧ uidAfter (n + 1) (initializeUID [] sid) = some (sid ++ w)
  repeats : ∀ n m, uidAfter n (initializeUID [] sid) = uidAfter m (initializeUID [] sid) ↔ n ≡ m [MOD 36 ^ 6]

theorem uidAfter_initializeUID (a b c : UInt8) (n : ℕ) : uidAfter n (initializeUID [] [a, b, c]) =
    some ([a, b, c] ++ word 6 ((36 ^ 6 - 1 + n) % 36 ^ 6)) := by
  rw [initializeUID_eq]
  exact uidAfter_word rfl (by decide) n

theorem cycles (a b c : UInt8) : Cycles [a, b, c] := by
  have small (n : ℕ) : n % 36 ^ 6 < 36 ^ 6 := Nat.mod_lt n (by decide)
  have same (n m : ℕ) : uidAfter n (initializeUID [] [a, b, c]) = uidAfter m (initializeUID [] [a, b, c]) ↔
      n ≡ m [MOD 36 ^ 6] := by
    rw [uidAfter_initializeUID, uidAfter_initializeUID, Option.some_inj, List.append_right_inj]
    constructor
    · intro equal
      exact Nat.ModEq.add_left_cancel' _ (word_injective (small _) (small _) equal)
    · intro equal
      exact congrArg _ (equal.add_left _)
  refine ⟨fun n => ?_, fun n lastUID reached => ?_, fun w hw => ?_, same⟩
  · exact ⟨_, word_isWord 6 _, uidAfter_initializeUID a b c n⟩
  · rw [uidAfter_initializeUID] at reached
    obtain rfl := Option.some.inj reached
    have three : [a, b, c].length = 3 := rfl
    obtain ⟨calls, found, deep⟩ := findNext_word three (small (36 ^ 6 - 1 + n)) []
    rw [List.append_nil, List.append_nil] at found
    exact ⟨calls, _, found, deep⟩
  · obtain ⟨v, hv, rfl⟩ := hw.exists_word
    have first : uidAfter (v + 1) (initializeUID [] [a, b, c]) = some ([a, b, c] ++ word 6 v) := by
      have again : (36 ^ 6 - 1 + (v + 1)) % 36 ^ 6 = v := by omega
      rw [uidAfter_initializeUID, again]
    refine ⟨v, ⟨hv, first⟩, ?_⟩
    rintro m ⟨hm, reached⟩
    have equal := (same (m + 1) (v + 1)).mp (reached.trans first.symm)
    exact (Nat.ModEq.add_right_cancel' 1 equal).eq_of_lt_of_lt hm hv

/-- As long as an identifier is free the loop of `GetUID` ends with one that is. -/
theorem getUID_free {findUUID : Bytes → Bool} (three : sid.length = 3) (hv : v < 36 ^ 6) (hw : IsWord 6 w)
    (free : findUUID (sid ++ w) = false) : ∃ w', IsWord 6 w' ∧ findUUID (sid ++ w') = false ∧
      ∀ fuel, 36 ^ 6 ≤ fuel → getUID findUUID fuel (sid ++ word 6 v) = some (sid ++ w') := by
  obtain ⟨u, hu, rfl⟩ := hw.exists_word
  have distance : ∃ n < 36 ^ 6, (v + (n + 1)) % 36 ^ 6 = u := ⟨(u + 36 ^ 6 - 1 - v) % 36 ^ 6, by omega, by omega⟩
  obtain ⟨n, near, there⟩ := distance
  have reached := uidAfter_word three hv (n + 1)
  rw [there] at reached
  obtain ⟨m, uid, after, free', result⟩ := getUID_stops reached free
  rw [uidAfter_word three hv] at after
  obtain rfl := Option.some.inj after
  exact ⟨_, word_isWord 6 _, free', fun fuel some => result fuel (by omega)⟩

end

/-- Identifiers are handed out in a cycle of all of them, and never one that is in use. -/
theorem client_ids_unique (charmap : CharMap) (a b c : UInt8) :
    Cycles [a, b, c] ∧
      (∀ (uuidList : List Bytes) (n : ℕ) (lastUID : Bytes), uidAfter n (initializeUID [] [a, b, c]) = some lastUID →
        (usedWords charmap uuidList [a, b, c]).ncard < 36 ^ 6 →
        ∃ w, IsWord 6 w ∧ findUUID charmap uuidList ([a, b, c] ++ w) = false ∧
          insertUser charmap uuidList ([a, b, c] ++ w) = some (uuidList ++ [[a, b, c] ++ w]) ∧
          ∀ fuel, 36 ^ 6 ≤ fuel → getUID (findUUID charmap uuidList) fuel lastUID = some ([a, b, c] ++ w)) ∧
      (0 ∉ [a, b, c] → ∀ uuidList : List Bytes, uuidList.length < 36 ^ 6 →
        (usedWords charmap uuidList [a, b, c]).ncard < 36 ^ 6) := by
  refine ⟨cycles a b c, fun uuidList n lastUID reached some => ?_, fun plain uuidList few => ?_⟩
  · rw [uidAfter_initializeUID] at reached
    obtain rfl := Option.some.inj reached
    have exists_free : ∃ w, IsWord 6 w ∧ findUUID charmap uuidList ([a, b, c] ++ w) = false := by
      by_contra all
      push Not at all
      have whole : usedWords charmap uuidList [a, b, c] = {w | IsWord 6 w} :=
        Set.ext fun w => and_iff_left_of_imp fun hw => by simpa using all w hw
      rw [whole, ncard_isWord] at some
      exact lt_irrefl _ some
    obtain ⟨w, hw, free⟩ := exists_free
    obtain ⟨w, hw, free, result⟩ := getUID_free rfl (Nat.mod_lt _ (by decide)) hw free
    refine ⟨w, hw, free, ?_, result⟩
    have new : uuidList.any (charmap.hits ([a, b, c] ++ w)) = false := by
      rw [← List.isSome_find?]
      exact free
    rw [insertUser, free, CharMap.hashedInsert, new]
    rfl
  · exact (ncard_usedWords_le charmap uuidList plain).trans_lt few

end BerylDB.Uids
