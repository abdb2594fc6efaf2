import BerylDB.Groups
import BerylDB.Sessions

/-! # Authorization of commands

`CommandHandler::Execute` of `commandproc.cpp`, with `User::InGroup` and `User::CanPerform`. -/
namespace BerylDB.Groups
open Text

inductive Registration where
  | none | user | login | loginUser | ok
deriving DecidableEq

/-- The fields of `Command` that `Execute` reads. -/
structure Command where
  name : Bytes
  minParams : ℕ := 0
  maxParams : ℕ := 0
  lastEmptyOk : Bool := true
  alias_ : Bytes := []
  checkExists : Bool := false
  checkRoot : Bool := false
  runConf : Bool := false
  checkValue : Bool := false
  checkLogin : ℤ := -1
  checkHash : ℤ := -1
  checkKey : ℤ := -1
  checkNum : ℤ := -1
  flags : UInt8 := 0
  group : UInt8 := 0
  groups : List UInt8 := []
  preRegOk : Bool := false
deriving DecidableEq

/-- A client as `Execute` sees it; `none` is a null pointer. -/
structure LocalUser where
  paused : Bool
  registered : Registration
  session : Option Sessions.Session
  groups : List (Option Group)
deriving DecidableEq

/-- What `Execute` asks of the daemon and its modules; `beyond` is what the code reads behind the last
parameter. -/
structure Daemon where
  getBase : Bytes → Option Command
  onPreCommand : Bytes → List Bytes → (validated : Bool) → Option (Bytes × List Bytes)
  created : Bytes → Bytes
  validLogin : Bytes → Bool
  beyond : Bytes

inductive Outcome where
  | ignored
  | stopped
  | unknown
  | noFlags (handler : Command)
  | missingParameters (handler : Command)
  | notLogged (handler : Command)
  | queued (handler : Bytes) (params : List Bytes)
  | refused (handler : Command)
  | handled (handler : Command) (params : List Bytes) (limits : Option (ℤ × ℤ))
deriving DecidableEq

namespace LocalUser

def canPerform (u : LocalUser) (flag : UInt8) : Bool :=
  match u.session with
  | none => false
  | some session =>
    session.canAdmin || flag = 'm'.toUInt8 && session.canManage ||
      flag = 'e'.toUInt8 && (session.canExecute || session.canManage)

def inGroup (u : LocalUser) (flag : UInt8) : Bool := u.groups.any fun group => group.any fun g => g.canDo flag

/-- The three checks of rights.  The loop over `groups` asks for `group` in every round. -/
def admitted (u : LocalUser) (h : Command) : Bool :=
  if h.flags ≠ 0 && !u.canPerform h.flags then false
  else
    let isManager := h.flags ≠ 0
    if !isManager && h.group ≠ 0 && !u.inGroup h.group then false
    else
      let skip := !isManager && h.group ≠ 0
      if !isManager && !skip then h.groups.all fun _ => u.inGroup h.group else true

end LocalUser

/-- Parameters in excess are appended to the last one that the command takes. -/
def Command.merge (h : Command) (params : List Bytes) : List Bytes :=
  if h.maxParams ≠ 0 ∧ h.maxParams < params.length then
    params.take (h.maxParams - 1) ++
      [(params.drop h.maxParams).foldl (fun base i => base ++ 32 :: i) ((params[h.maxParams - 1]?).getD [])]
  else params

/-- An empty last parameter is dropped unless the command takes it. -/
def Command.trim (h : Command) (params : List Bytes) : List Bytes :=
  if params.getLast? = some [] && !h.lastEmptyOk then params.dropLast else params

def isZeroOrGreat (s : Bytes) : Bool := isNumber s false && (s = lit "0" || s.all isDigit)

def isZeroOrGreatOrMone (s : Bytes) : Bool := isNumber s false && (s = lit "0" || s = lit "-1" || s.all isDigit)

/-- `CheckFormat`, with `is_correct`. -/
def checkFormat (value : Bytes) : Bool :=
  value ≠ [] && (value.length = 1 || isNumber value true || value.head? = some 34 && value.getLast? = some 34)

namespace Daemon

/-- `cmd_params[i]`. -/
def param (d : Daemon) (params : List Bytes) (i : ℤ) : Bytes :=
  if 0 ≤ i then (params[i.toNat]?).getD d.beyond else d.beyond

/-- `cmd_params.size() >= (unsigned int) i`, which also lets `i` be one behind the last parameter. -/
def given (params : List Bytes) (i : ℤ) : Bool := i % 2 ^ 32 ≤ params.length

/-- `GetLimits`: the offset and the limit, `none` for an error. -/
def getLimits (d : Daemon) (max : ℕ) (params : List Bytes) : Option (ℤ × ℤ) :=
  if (params.length : ℤ) = (max - 1) % 2 ^ 32 then
    let last := d.param params ((max - 2) % 2 ^ 32)
    if isZeroOrGreatOrMone last then some (0, convtoSigned last) else none
  else if params.length = max then
    let last := d.param params (max - 1)
    let first := d.param params ((max - 2) % 2 ^ 32)
    if isZeroOrGreatOrMone last && isZeroOrGreat first then some (convtoSigned first, convtoSigned last) else none
  else some (0, -1)

def loginAccepted (d : Daemon) (h : Command) (login : Bytes) : Bool :=
  !(h.checkExists && d.created login = []) && 3 ≤ login.length && login.length ≤ 15 && d.validLogin login &&
    !(h.checkRoot && login = lit "root")

/-- The checks of the parameters, `none` when one of them fails. -/
def checkParams (d : Daemon) (h : Command) (params : List Bytes) : Option (Option (ℤ × ℤ)) :=
  if h.checkKey ≥ 0 && given params h.checkKey && !keyValidator (d.param params h.checkKey) then none
  else if h.checkNum ≠ 0 && given params h.checkNum && !isNumber (d.param params h.checkNum) true then none
  else if h.checkValue && !checkFormat (params.getLastD []) then none
  else if h.checkLogin ≥ 0 && given params h.checkLogin && !d.loginAccepted h (d.param params h.checkLogin) then none
  else if h.checkHash ≥ 0 && given params h.checkHash && !keyValidator (d.param params h.checkHash) then none
  else if h.runConf then (d.getLimits h.maxParams params).map some
  else some none

/-- `Execute` behind the checks of rights and of the number of parameters. -/
def validated (d : Daemon) (h : Command) (command : Bytes) (params : List Bytes) : Outcome :=
  match d.onPreCommand command params true with
  | none => .stopped
  | some (_, params) =>
    if h.alias_ ≠ [] then .queued h.alias_ params
    else if params = [] then .handled h params none
    else
      match d.checkParams h params with
      | none => .refused h
      | some limits => .handled h params limits

/-- `Execute` once it has its handler. -/
def perform (d : Daemon) (u : LocalUser) (h : Command) (command : Bytes) (params : List Bytes) : Outcome :=
  match d.onPreCommand command (h.merge params) false with
  | none => .stopped
  | some (command, params) =>
    if u.admitted h then
      if (h.trim params).length < h.minParams then .missingParameters h
      else if u.registered ≠ .ok && !h.preRegOk then .notLogged h
      else d.validated h command (h.trim params)
    else .noFlags h

def execute (d : Daemon) (u : LocalUser) (command : Bytes) (params : List Bytes) : Outcome :=
  if u.paused && command ≠ lit "PONG" then .ignored
  else
    match d.getBase command with
    | some h => d.perform u h command params
    | none =>
      match d.onPreCommand command params false with
      | none => .stopped
      | some (command, params) =>
        match d.getBase command with
        | some h => d.perform u h command params
        | none => .unknown

end Daemon

/-- The rights that a handler asks for, whether or not the client is registered. -/
def Entitled (h : Command) (u : LocalUser) : Prop :=
  if h.flags ≠ 0 then u.canPerform h.flags = true
  else if h.group ≠ 0 then u.inGroup h.group = true
  else ∀ flag ∈ h.groups, u.inGroup flag

/-- The handler runs for clients with its rights only, and no client is refused for want of rights that it has. -/
structure Authorized (h : Command) (u : LocalUser) : Prop where
  handled : ∀ d command params given limits, Daemon.execute d u command params = .handled h given limits →
    (u.registered = .ok ∨ h.preRegOk) ∧ Entitled h u
  entitled : ∀ d command params, Entitled h u → Daemon.execute d u command params ≠ .noFlags h
  registered : ∀ d command params, u.registered = .ok ∨ h.preRegOk → Daemon.execute d u command params ≠ .notLogged h

/-! ## The checks of rights -/

theorem LocalUser.inGroup_iff (u : LocalUser) (flag : UInt8) :
    u.inGroup flag ↔ ∃ g : Group, some g ∈ u.groups ∧ g.canDo flag := by
  constructor
  · intro granted
    obtain ⟨group, mem, grants⟩ := List.any_eq_true.mp granted
    cases group with
    | none => simp at grants
    | some g => exact ⟨g, mem, by simpa using grants⟩
  · rintro ⟨g, mem, grants⟩
    exact List.any_eq_true.mpr ⟨some g, mem, by simpa using grants⟩

/-- No switch has the flag 0, so only `can_do_all` grants it. -/
theorem LocalUser.inGroup_zero (u : LocalUser) :
    u.inGroup 0 ↔ ∃ g : Group, some g ∈ u.groups ∧ g.permissions .canDoAll := by
  have unnamed : Switch.find 0 = none := by decide
  simp [LocalUser.inGroup_iff, Group.canDo, Permissions.canDo, unnamed]

theorem LocalUser.admitted_iff (u : LocalUser) (h : Command) :
    u.admitted h ↔
      if h.flags ≠ 0 then u.canPerform h.flags = true
      else if h.group ≠ 0 then u.inGroup h.group = true
      else h.groups = [] ∨ u.inGroup 0 := by
  unfold LocalUser.admitted
  by_cases flags : h.flags = 0
  · by_cases group : h.group = 0
    · cases granted : u.inGroup 0 <;> simp [flags, group, granted, List.eq_nil_iff_forall_not_mem]
    · simp [flags, group]
  · simp [flags]

theorem inGroup_of_zero {u : LocalUser} (h : u.inGroup 0) (flag : UInt8) : u.inGroup flag := by
  obtain ⟨g, mem, all⟩ := u.inGroup_zero.mp h
  exact (u.inGroup_iff flag).mpr ⟨g, mem, by simp [Group.canDo, Permissions.canDo, all]⟩

theorem entitled_of_admitted {u : LocalUser} {h : Command} (admitted : u.admitted h) : Entitled h u := by
  have decision := (u.admitted_iff h).mp admitted
  unfold Entitled
  split_ifs at decision ⊢ with flags group
  · exact decision
  · exact decision
  · intro flag mem
    cases decision with
    | inl none => simp [none] at mem
    | inr all => exact inGroup_of_zero all flag

/-! ## The outcomes of `Execute` -/

namespace Daemon

variable {d : Daemon} {u : LocalUser} {h h' : Command} {command : Bytes} {params : List Bytes}

theorem validated_handled {given : List Bytes} {limits : Option (ℤ × ℤ)}
    (outcome : d.validated h' command params = .handled h given limits) : h' = h := by
  unfold validated at outcome
  split at outcome
  · cases outcome
  · split_ifs at outcome
    · cases outcome; rfl
    · split at outcome
      · cases outcome
      · cases outcome; rfl

theorem validated_rights : d.validated h' command params ≠ .noFlags h ∧ d.validated h' command params ≠ .notLogged h := by
  unfold validated
  split
  · simp
  · split_ifs
    · simp
    · simp
    · split <;> simp

/-- What an outcome of `Execute` says about the rights of the client. -/
def Explains (u : LocalUser) : Outcome → Prop
  | .handled h _ _ => (u.registered = .ok ∨ h.preRegOk) ∧ u.admitted h
  | .noFlags h => u.admitted h = false
  | .notLogged h => u.registered ≠ .ok ∧ h.preRegOk = false
  | _ => True

theorem perform_explains : Explains u (d.perform u h command params) := by
  unfold perform
  split
  · trivial
  · split_ifs with admitted missing unregistered
    · trivial
    · simpa [Explains] using unregistered
    · have ready : u.registered = .ok ∨ h.preRegOk := by simpa [or_iff_not_imp_left] using unregistered
      cases outcome : d.validated h _ _ with
      | handled h' given limits =>
        obtain rfl := validated_handled outcome
        exact ⟨ready, admitted⟩
      | noFlags h' => exact absurd outcome validated_rights.1
      | notLogged h' => exact absurd outcome validated_rights.2
      | _ => trivial
    · simpa [Explains] using admitted

theorem execute_explains : Explains u (d.execute u command params) := by
  unfold execute
  split
  · trivial
  · split
    · exact perform_explains
    · split
      · trivial
      · split
        · exact perform_explains
        · trivial

/-- A daemon that knows one command and whose modules stop nothing. -/
def only (h : Command) : Daemon where
  getBase _ := some h
  onPreCommand command params _ := some (command, params)
  created _ := []
  validLogin _ := true
  beyond := []

/-- Even a paused client gets to the checks of rights with PONG. -/
theorem only_noFlags (refused : u.admitted h = false) : (only h).execute u (lit "PONG") [] = .noFlags h := by
  simp [execute, perform, only, refused]

end Daemon

/-- Commands that ask for a list of group flags refuse clients whose groups grant all of them, unless one of these
groups may do all. -/
theorem authorized_exactly (h : Command) (u : LocalUser) :
    Authorized h u ↔ (h.flags = 0 → h.group = 0 → h.groups ≠ [] → (∀ flag ∈ h.groups, u.inGroup flag) →
      ∃ g : Group, some g ∈ u.groups ∧ g.permissions .canDoAll) := by
  rw [← u.inGroup_zero]
  constructor
  · intro authorized flags group groups granted
    by_contra lacking
    have entitled : Entitled h u := by simpa [Entitled, flags, group] using granted
    have refused : u.admitted h = false := by
      rw [← Bool.not_eq_true, u.admitted_iff]
      simp [flags, group, groups, lacking]
    exact authorized.entitled (Daemon.only h) _ _ entitled (Daemon.only_noFlags refused)
  · intro condition
    refine ⟨fun d command params given limits outcome => ?_, fun d command params entitled outcome => ?_,
      fun d command params ready outcome => ?_⟩
    · have explained : Daemon.Explains u (d.execute u command params) := Daemon.execute_explains
      rw [outcome] at explained
      exact ⟨explained.1, entitled_of_admitted explained.2⟩
    · have explained : Daemon.Explains u (d.execute u command params) := Daemon.execute_explains
      rw [outcome] at explained
      have admitted : u.admitted h := by
        rw [u.admitted_iff]
        unfold Entitled at entitled
        split_ifs at entitled ⊢ with flags group
        · exact entitled
        · exact entitled
        · by_cases groups : h.groups = []
          · exact .inl groups
          · exact .inr (condition (by simpa using flags) (by simpa using group) groups entitled)
      simp [Daemon.Explains, admitted] at explained
    · have explained : Daemon.Explains u (d.execute u command params) := Daemon.execute_explains
      rw [outcome] at explained
      simp [Daemon.Explains] at explained
      simp [explained] at ready

/-- A command that asks for the flags `k` and `l`, and a client with a group that has both. -/
def listsKeys : Command where
  name := lit "KEYLIST"
  groups := lit "kl"

def keysAndLists : LocalUser where
  paused := false
  registered := .ok
  session := none
  groups := [some (Group.updateFlags ⟨lit "readers", [], Permissions.init⟩ (lit "kl")).1]

theorem listed_flags_refused : ¬ Authorized listsKeys keysAndLists := by
  intro authorized
  have entitled : Entitled listsKeys keysAndLists := by
    have granted : listsKeys.groups.all keysAndLists.inGroup := by decide
    simpa [Entitled, listsKeys] using granted
  exact authorized.entitled (Daemon.only listsKeys) (lit "KEYLIST") [] entitled (by decide)

end BerylDB.Groups
