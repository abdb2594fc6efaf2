import BerylDB.Authorization

/-! # Accesses to the parameters

The indices at which `CommandHandler::Execute` and `GetLimits` read or write `cmd_params`. -/
namespace BerylDB.Groups
open Text

/-- The widths of the fields of a handler. -/
structure Command.Sized (h : Command) : Prop where
  checkKey : -2 ^ 31 ≤ h.checkKey ∧ h.checkKey < 2 ^ 31
  checkNum : -2 ^ 31 ≤ h.checkNum ∧ h.checkNum < 2 ^ 31
  checkLogin : -2 ^ 31 ≤ h.checkLogin ∧ h.checkLogin < 2 ^ 31
  checkHash : -2 ^ 31 ≤ h.checkHash ∧ h.checkHash < 2 ^ 31
  maxParams : h.maxParams < 2 ^ 32

/-- An access to `cmd_params`, with the size at that time. -/
structure Access where
  index : ℤ
  size : ℕ
deriving DecidableEq

def Access.Bounded (a : Access) : Prop := 0 ≤ a.index ∧ a.index < a.size

/-- What is appended to the last parameter, and that parameter. -/
def Command.mergeAccesses (h : Command) (params : List Bytes) : List Access :=
  if h.maxParams ≠ 0 ∧ h.maxParams < params.length then
    ((h.maxParams - 1) :: List.range' h.maxParams (params.length - h.maxParams)).map
      fun i : ℕ => ⟨i, params.length⟩
  else []

/-- `back()` of parameters that are not empty. -/
def Command.trimAccesses (params : List Bytes) : List Access :=
  if params = [] then [] else [⟨params.length - 1, params.length⟩]

namespace Daemon

/-! ## The checks in order -/

section
variable (d : Daemon) (h : Command) (params : List Bytes)

def keyPasses : Bool := !(h.checkKey ≥ 0 && given params h.checkKey && !keyValidator (d.param params h.checkKey))

def numPasses : Bool := !(h.checkNum ≠ 0 && given params h.checkNum && !isNumber (d.param params h.checkNum) true)

def valuePasses : Bool := !(h.checkValue && !checkFormat (params.getLastD []))

def loginPasses : Bool :=
  !(h.checkLogin ≥ 0 && given params h.checkLogin && !d.loginAccepted h (d.param params h.checkLogin))

def hashPasses : Bool := !(h.checkHash ≥ 0 && given params h.checkHash && !keyValidator (d.param params h.checkHash))

/-- The indices of `GetLimits`, in the arithmetic of `unsigned int`. -/
def limitReads (max : ℕ) : List ℤ :=
  if (params.length : ℤ) = (max - 1) % 2 ^ 32 then [((max : ℤ) - 2) % 2 ^ 32]
  else if params.length = max then
    (max - 1) :: if isZeroOrGreatOrMone (d.param params (max - 1)) then [((max : ℤ) - 2) % 2 ^ 32] else []
  else []

/-- Each check with the indices that it reads, and whether it passes. -/
def checks : List (List ℤ × Bool) :=
  [(if h.checkKey ≥ 0 ∧ given params h.checkKey then [h.checkKey] else [], d.keyPasses h params),
    (if h.checkNum ≠ 0 ∧ given params h.checkNum then [h.checkNum] else [], d.numPasses h params),
    (if h.checkValue then [params.length - 1] else [], valuePasses h params),
    (if h.checkLogin ≥ 0 ∧ given params h.checkLogin then [h.checkLogin] else [], d.loginPasses h params),
    (if h.checkHash ≥ 0 ∧ given params h.checkHash then [h.checkHash] else [], d.hashPasses h params),
    (if h.runConf then d.limitReads params h.maxParams else [], true)]

end

/-- The first check that fails is the last one that reads. -/
def readUntil : List (List ℤ × Bool) → List ℤ
  | [] => []
  | (reads, passed) :: rest => reads ++ if passed then readUntil rest else []

def checkReads (d : Daemon) (h : Command) (params : List Bytes) : List ℤ := readUntil (d.checks h params)

/-- The parameters with which `Execute` gets to its checks. -/
def checked (d : Daemon) (u : LocalUser) (h : Command) (command : Bytes) (params : List Bytes) : Option (List Bytes) :=
  match d.onPreCommand command (h.merge params) false with
  | none => none
  | some (command, params) =>
    if u.admitted h && h.minParams ≤ (h.trim params).length && (u.registered = .ok || h.preRegOk) then
      match d.onPreCommand command (h.trim params) true with
      | none => none
      | some (_, params) => if h.alias_ = [] ∧ params ≠ [] then some params else none
    else none

/-- The accesses of `Execute` once it has its handler. -/
def accesses (d : Daemon) (u : LocalUser) (h : Command) (command : Bytes) (params : List Bytes) : List Access :=
  h.mergeAccesses params ++
    (match d.onPreCommand command (h.merge params) false with
      | some (_, params) => if u.admitted h then Command.trimAccesses params else []
      | none => []) ++
    match d.checked u h command params with
    | some params => (d.checkReads h params).map fun i => ⟨i, params.length⟩
    | none => []

variable {d : Daemon} {u : LocalUser} {h : Command} {command : Bytes} {params : List Bytes}

theorem checkParams_eq : d.checkParams h params =
    if (d.checks h params).all (·.2) then
      if h.runConf then (d.getLimits h.maxParams params).map some else some none
    else none := by
  unfold checkParams checks keyPasses numPasses valuePasses loginPasses hashPasses
  simp only [List.all_cons, List.all_nil, Bool.and_true]
  generalize (decide (h.checkKey ≥ 0) && given params h.checkKey && !keyValidator (d.param params h.checkKey)) = key
  generalize (decide (h.checkNum ≠ 0) && given params h.checkNum && !isNumber (d.param params h.checkNum) true) = num
  generalize (h.checkValue && !checkFormat (params.getLastD [])) = value
  generalize
    (decide (h.checkLogin ≥ 0) && given params h.checkLogin && !d.loginAccepted h (d.param params h.checkLogin)) = login
  generalize (decide (h.checkHash ≥ 0) && given params h.checkHash && !keyValidator (d.param params h.checkHash)) = hash
  cases key <;> cases num <;> cases value <;> cases login <;> cases hash <;> rfl

/-- `Execute` runs its checks on the parameters of `checked`. -/
theorem perform_checked {given : List Bytes} (reached : d.checked u h command params = some given) :
    d.perform u h command params = (d.checkParams h given).elim (.refused h) fun limits => .handled h given limits := by
  unfold checked at reached
  unfold perform validated
  cases passed : d.onPreCommand command (h.merge params) false with
  | none =>
    rw [passed] at reached
    cases reached
  | some first =>
    obtain ⟨command', given'⟩ := first
    rw [passed] at reached
    dsimp only at reached ⊢
    split at reached
    · rename_i ready
      simp only [Bool.and_eq_true, Bool.or_eq_true, decide_eq_true_eq] at ready
      obtain ⟨⟨admitted, enough⟩, registered⟩ := ready
      have known : ¬ (u.registered ≠ .ok && !h.preRegOk) = true := by simpa [or_iff_not_imp_left] using registered
      rw [if_pos admitted, if_neg (not_lt.mpr enough), if_neg known]
      cases validated : d.onPreCommand command' (h.trim given') true with
      | none =>
        rw [validated] at reached
        cases reached
      | some second =>
        obtain ⟨command'', given''⟩ := second
        rw [validated] at reached
        dsimp only at reached ⊢
        split at reached
        · rename_i direct
          cases reached
          simp only [direct.1, direct.2, ne_eq, not_true_eq_false, if_false]
          cases d.checkParams h given <;> rfl
        · cases reached
    · cases reached

/-! ## Bounds -/

theorem mem_readUntil {P : ℤ → Prop} {reads : List ℤ} {passed : Bool} {rest : List (List ℤ × Bool)} :
    (∀ i ∈ readUntil ((reads, passed) :: rest), P i) ↔
      (∀ i ∈ reads, P i) ∧ (passed = true → ∀ i ∈ readUntil rest, P i) := by
  cases passed <;> simp [readUntil, or_imp, forall_and]

theorem mergeAccesses_bounded : ∀ a ∈ h.mergeAccesses params, a.Bounded := by
  unfold Command.mergeAccesses
  split
  · rename_i excess
    intro a here
    obtain ⟨i, among, rfl⟩ := List.mem_map.mp here
    rcases List.mem_cons.mp among with rfl | later
    · exact ⟨by dsimp only; omega, by dsimp only; omega⟩
    · obtain ⟨low, high⟩ := List.mem_range'_1.mp later
      exact ⟨by dsimp only; omega, by dsimp only; omega⟩
  · simp

theorem trimAccesses_bounded : ∀ a ∈ Command.trimAccesses params, a.Bounded := by
  unfold Command.trimAccesses
  split
  · simp
  · rename_i nonempty
    have some : 0 < params.length := List.length_pos_iff.mpr nonempty
    simp only [List.mem_singleton, forall_eq]
    exact ⟨by dsimp only; omega, by dsimp only; omega⟩

theorem given_iff {i : ℤ} : given params i ↔ i % 2 ^ 32 ≤ params.length := decide_eq_true_iff

section
variable (present : params ≠ [])

/-- A parameter that is checked is there unless its index is the size. -/
theorem given_bounded {i : ℤ} (low : -2 ^ 31 ≤ i) (high : i < 2 ^ 31) :
    (∀ j ∈ (if i ≥ 0 ∧ given params i then [i] else []), 0 ≤ j ∧ j < params.length) ↔ i ≠ params.length := by
  split
  · rename_i asked
    have reached := given_iff.mp asked.2
    simp only [List.mem_singleton, forall_eq]
    omega
  · rename_i unasked
    have behind : 0 ≤ i → ¬ i % 2 ^ 32 ≤ params.length := fun first reached => unasked ⟨first, given_iff.mpr reached⟩
    refine iff_of_true (by simp) ?_
    omega

include present

/-- `check_num` is asked for its parameter when it is -1, too. -/
theorem num_bounded {i : ℤ} (low : -2 ^ 31 ≤ i) (high : i < 2 ^ 31) :
    (∀ j ∈ (if i ≠ 0 ∧ given params i then [i] else []), 0 ≤ j ∧ j < params.length) ↔
      i ≠ params.length ∧ (i < 0 → params.length < 2 ^ 32 + i) := by
  have size : 0 < params.length := List.length_pos_iff.mpr present
  split
  · rename_i asked
    have reached := given_iff.mp asked.2
    simp only [List.mem_singleton, forall_eq]
    omega
  · rename_i unasked
    have behind : i ≠ 0 → ¬ i % 2 ^ 32 ≤ params.length := fun set reached => unasked ⟨set, given_iff.mpr reached⟩
    refine iff_of_true (by simp) ?_
    omega

theorem value_bounded {asked : Bool} :
    ∀ j ∈ (if asked then [(params.length : ℤ) - 1] else []), 0 ≤ j ∧ j < params.length := by
  have size : 0 < params.length := List.length_pos_iff.mpr present
  split
  · simp only [List.mem_singleton, forall_eq]
    omega
  · simp

/-- With one parameter of one, an accepted limit is followed by a look for an offset in front of it. -/
theorem limits_bounded {max : ℕ} (high : max < 2 ^ 32) :
    (∀ j ∈ d.limitReads params max, 0 ≤ j ∧ j < params.length) ↔
      ¬ (max = 1 ∧ params.length = 1 ∧ isZeroOrGreatOrMone (params.getLastD []) = true) := by
  have size : 0 < params.length := List.length_pos_iff.mpr present
  unfold limitReads
  split
  · simp only [List.mem_singleton, forall_eq]
    omega
  split
  · rename_i whole
    by_cases one : max = 1
    · obtain ⟨only, rfl⟩ := List.length_eq_one_iff.mp (whole.trans one)
      subst one
      have first : d.param [only] (((1 : ℕ) : ℤ) - 1) = only := rfl
      rw [first]
      split <;> simp_all
    · refine iff_of_true ?_ fun h => one h.1
      simp only [List.mem_cons, forall_eq_or_imp]
      refine ⟨by omega, ?_⟩
      split
      · simp only [List.mem_singleton, forall_eq]
        omega
      · simp
  · refine iff_of_true (by simp) ?_
    omega

end

/-- The checks that are reached have an index that is not the size, and limits have two places. -/
def Aligned (d : Daemon) (h : Command) (params : List Bytes) : Prop :=
  h.checkKey ≠ params.length ∧
    (d.keyPasses h params → (h.checkNum ≠ params.length ∧ (h.checkNum < 0 → params.length < 2 ^ 32 + h.checkNum)) ∧
      (d.numPasses h params → valuePasses h params → h.checkLogin ≠ params.length ∧
        (d.loginPasses h params → h.checkHash ≠ params.length ∧
          (d.hashPasses h params → h.runConf →
            ¬ (h.maxParams = 1 ∧ params.length = 1 ∧ isZeroOrGreatOrMone (params.getLastD []) = true)))))

theorem checkReads_bounded (sized : h.Sized) (nonempty : params ≠ []) :
    (∀ i ∈ d.checkReads h params, 0 ≤ i ∧ i < params.length) ↔ d.Aligned h params := by
  have limits : (∀ i ∈ (if h.runConf then d.limitReads params h.maxParams else []), 0 ≤ i ∧ i < (params.length : ℤ)) ↔
      (h.runConf → ¬ (h.maxParams = 1 ∧ params.length = 1 ∧ isZeroOrGreatOrMone (params.getLastD []) = true)) := by
    cases h.runConf
    · simp
    · simpa using limits_bounded nonempty sized.maxParams
  unfold checkReads checks Aligned
  rw [mem_readUntil, mem_readUntil, mem_readUntil, mem_readUntil, mem_readUntil, mem_readUntil,
    given_bounded sized.checkKey.1 sized.checkKey.2, num_bounded nonempty sized.checkNum.1 sized.checkNum.2,
    given_bounded sized.checkLogin.1 sized.checkLogin.2, given_bounded sized.checkHash.1 sized.checkHash.2, limits,
    and_iff_right (value_bounded nonempty)]
  simp only [readUntil, List.not_mem_nil, false_imp_iff, implies_true, and_true]

theorem checked_nonempty {given : List Bytes} (reached : d.checked u h command params = some given) : given ≠ [] := by
  unfold checked at reached
  split at reached
  · cases reached
  · split at reached
    · split at reached
      · cases reached
      · split at reached
        · rename_i direct
          cases reached
          exact direct.2
        · cases reached
    · cases reached

/-! ## What is read behind the parameters -/

section
variable (beyond : Bytes)

theorem param_beyond {i : ℤ} (low : 0 ≤ i) (high : i < params.length) :
    { d with beyond := beyond }.param params i = d.param params i := by
  have here : i.toNat < params.length := by omega
  simp [param, low, List.getElem?_eq_getElem here]

theorem test_beyond {i : ℤ} (test : Bytes → Bool) (asked : Bool)
    (bounded : asked = true → 0 ≤ i ∧ i < params.length) :
    (asked && !test ({ d with beyond := beyond }.param params i)) = (asked && !test (d.param params i)) := by
  cases asked with
  | false => rfl
  | true => rw [param_beyond beyond (bounded rfl).1 (bounded rfl).2]

theorem given_lt {i : ℤ} (high : i < 2 ^ 31) (other : i ≠ params.length) (asked : (decide (i ≥ 0) && given params i) = true) :
    0 ≤ i ∧ i < params.length := by
  simp only [Bool.and_eq_true, decide_eq_true_eq] at asked
  have reached := given_iff.mp asked.2
  omega

theorem getLimits_beyond (nonempty : params ≠ []) {max : ℕ} (high : max < 2 ^ 32)
    (aligned : ¬ (max = 1 ∧ params.length = 1 ∧ isZeroOrGreatOrMone (params.getLastD []) = true)) :
    { d with beyond := beyond }.getLimits max params = d.getLimits max params := by
  have bounded := (limits_bounded (d := d) nonempty high).mpr aligned
  have size : 0 < params.length := List.length_pos_iff.mpr nonempty
  unfold getLimits
  unfold limitReads at bounded
  split
  · rename_i short
    rw [if_pos short] at bounded
    obtain ⟨low, high⟩ := bounded _ (List.mem_singleton_self _)
    simp only [param_beyond beyond low high]
  · rename_i long
    rw [if_neg long] at bounded
    split
    · rename_i whole
      rw [if_pos whole] at bounded
      obtain ⟨low, high⟩ := bounded _ List.mem_cons_self
      simp only [param_beyond beyond low high]
      cases accepted : isZeroOrGreatOrMone (d.param params (max - 1)) with
      | false => rfl
      | true =>
        obtain ⟨low, high⟩ := bounded (((max : ℤ) - 2) % 2 ^ 32) (List.mem_cons_of_mem _ (by simp [accepted]))
        simp only [param_beyond beyond low high]
    · rfl

/-- The checks of aligned parameters do not depend on what is behind them. -/
theorem Aligned.checkParams_beyond (sized : h.Sized) (nonempty : params ≠ []) (aligned : d.Aligned h params) :
    { d with beyond := beyond }.checkParams h params = d.checkParams h params := by
  obtain ⟨key, later⟩ := aligned
  have keySame : { d with beyond := beyond }.keyPasses h params = d.keyPasses h params :=
    congrArg not (test_beyond beyond keyValidator _ (given_lt sized.checkKey.2 key))
  rw [checkParams_eq, checkParams_eq]
  simp only [checks, List.all_cons, List.all_nil, Bool.and_true, keySame]
  by_cases keyPasses : d.keyPasses h params = true
  swap
  · simp [keyPasses]
  obtain ⟨num, later⟩ := later keyPasses
  have numSame : { d with beyond := beyond }.numPasses h params = d.numPasses h params := by
    refine congrArg not (test_beyond beyond (isNumber · true) _ fun asked => ?_)
    simp only [Bool.and_eq_true, decide_eq_true_eq] at asked
    have reached := given_iff.mp asked.2
    have := sized.checkNum
    omega
  rw [numSame]
  by_cases passes : d.numPasses h params = true ∧ valuePasses h params = true
  swap
  · grind
  obtain ⟨login, later⟩ := later passes.1 passes.2
  have loginSame : { d with beyond := beyond }.loginPasses h params = d.loginPasses h params :=
    congrArg not (test_beyond beyond (d.loginAccepted h) _ (given_lt sized.checkLogin.2 login))
  rw [loginSame]
  by_cases loginPasses : d.loginPasses h params = true
  swap
  · simp [loginPasses]
  obtain ⟨hash, later⟩ := later loginPasses
  have hashSame : { d with beyond := beyond }.hashPasses h params = d.hashPasses h params :=
    congrArg not (test_beyond beyond keyValidator _ (given_lt sized.checkHash.2 hash))
  rw [hashSame]
  by_cases conf : d.hashPasses h params = true ∧ h.runConf = true
  · rw [getLimits_beyond beyond nonempty sized.maxParams (later conf.1 conf.2)]
  · grind

end

end Daemon

/-- `Execute` accesses the parameters in bounds if and only if they are aligned when it gets to its checks. -/
theorem accesses_bounded_iff {d : Daemon} {u : LocalUser} {h : Command} {command : Bytes} {params : List Bytes}
    (sized : h.Sized) : (∀ a ∈ d.accesses u h command params, a.Bounded) ↔
      ∀ given, d.checked u h command params = some given → d.Aligned h given := by
  have trimmed : ∀ a ∈ (match d.onPreCommand command (h.merge params) false with
      | some (_, params) => if u.admitted h then Command.trimAccesses params else []
      | none => []), a.Bounded := by
    split
    · split
      · exact Daemon.trimAccesses_bounded
      · simp
    · simp
  simp only [Daemon.accesses, List.mem_append, or_imp, forall_and, and_iff_right Daemon.mergeAccesses_bounded,
    and_iff_right trimmed]
  cases reached : d.checked u h command params with
  | none => simp
  | some given =>
    rw [List.forall_mem_map]
    simp only [Option.some.injEq, forall_eq']
    exact Daemon.checkReads_bounded sized (Daemon.checked_nonempty reached)

/-- A client that has logged in. -/
def loggedIn : LocalUser := ⟨false, .ok, none, []⟩

/-- A handler of one key. -/
def oneKey (checkKey : ℤ) : Command := { name := lit "GET", minParams := 1, maxParams := 1, checkKey }

theorem accesses_bounded_key :
    ⟨0, 1⟩ ∈ (Daemon.only (oneKey 0)).accesses loggedIn (oneKey 0) (lit "GET") [lit "a"] ∧
      ∀ a ∈ (Daemon.only (oneKey 0)).accesses loggedIn (oneKey 0) (lit "GET") [lit "a"], a.Bounded := by
  refine ⟨by decide, (accesses_bounded_iff ⟨by decide, by decide, by decide, by decide, by decide⟩).mpr fun given checked => ?_⟩
  have same : (Daemon.only (oneKey 0)).checked loggedIn (oneKey 0) (lit "GET") [lit "a"] = some [lit "a"] := by decide
  obtain rfl := Option.some.inj (same.symm.trans checked)
  exact ⟨by decide, fun _ => ⟨⟨by decide, by decide⟩, fun _ _ => ⟨by decide, fun _ => ⟨by decide, fun _ _ => by decide⟩⟩⟩⟩

/-- An index that is the number of the parameters passes `size() >= check_key`. -/
theorem accesses_unbounded : (oneKey 1).minParams ≤ [lit "a"].length ∧
    ⟨1, 1⟩ ∈ (Daemon.only (oneKey 1)).accesses loggedIn (oneKey 1) (lit "GET") [lit "a"] ∧ ¬ Access.Bounded ⟨1, 1⟩ := by
  refine ⟨by decide, by decide, fun bounded => ?_⟩
  exact absurd bounded.2 (by decide)

end BerylDB.Groups
