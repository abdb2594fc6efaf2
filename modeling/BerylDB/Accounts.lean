import BerylDB.GroupMembership
import BerylDB.Settings

/-! # Accounts

`UserHelper` of `user.cpp`, `LoginCache` of `login.cpp`, and the commands of `core_umanager` on the record of an
account. -/
namespace BerylDB.Logins
open Text Store Groups

/-- `Daemon::LoginValidator`. -/
def loginValidator (login : Bytes) : Bool :=
  3 ≤ login.length && login.length ≤ 15 && login.zipIdx.all fun (i, at_) =>
    65 ≤ i && i ≤ 125 || (isDigit i || i = 45) && at_ ≠ 0

/-- `LoginMap`, with the entry that its iteration ends with at a position that the hashes of the names decide. -/
abbrev LoginMap := List (Bytes × Bytes)

namespace LoginMap

def find (logins : LoginMap) (user : Bytes) : Option Bytes := (logins.find? fun e => e.1 == user).map (·.2)

def removeLastCache (logins : LoginMap) (last : ℕ) : LoginMap := logins.eraseIdx (last % logins.length)

/-- `insert` leaves an entry that is there. -/
def add (logins : LoginMap) (user pass : Bytes) (last : ℕ) : LoginMap :=
  let logins := if (logins.find user).isSome then logins else logins ++ [(user, pass)]
  if logins.length ≥ 1024 then logins.removeLastCache last else logins

def remove (logins : LoginMap) (user : Bytes) : LoginMap := logins.filter fun e => e.1 != user

/-- `InCache` with a password; `compare` is `HashProvider::Compare`. -/
def inCache (compare : Bytes → Bytes → Bool) (logins : LoginMap) (user pass : Bytes) : ℤ :=
  match logins.find user with
  | some hash => if compare pass hash then 1 else -1
  | none => 0

end LoginMap

structure Accounts where
  core : Kernel
  logins : LoginMap

def notifyKey : Bytes := lit "notify"
def userchans (login : Bytes) : Bytes := login ++ lit "/chans"

/-- `convto_string` of a `bool`. -/
def boolText (b : Bool) : Bytes := if b then lit "1" else lit "0"

namespace UserHelper

variable (P : Platform)

/-- `Find`. -/
def find (k : Kernel) (key value : Bytes) : Bytes := CMapsHelper.get P k key value

/-- `ChangePass`; `hashed` is what the provider generates. -/
def changePass (s : Accounts) (user pass hashed : Bytes) : Accounts :=
  if pass.length < 3 ∨ pass.length > 30 then s
  else ⟨CMapsHelper.set P s.core user (lit "pass") hashed, s.logins.remove user⟩

def setFlags (s : Accounts) (user flags : Bytes) : Accounts :=
  { s with core := CMapsHelper.set P s.core user (lit "flags") flags }

def deleteFlags (s : Accounts) (user : Bytes) : Accounts :=
  { s with core := CMapsHelper.del P s.core user (lit "flags") }

def remove (s : Accounts) (user : Bytes) : Accounts where
  core :=
    let k := CMapsHelper.del P s.core user (lit "pass")
    let k := CMapsHelper.del P k user (lit "created")
    let k := CMapsHelper.del P k user (lit "status")
    let k := CMapsHelper.del P k user (lit "flags")
    let k := CMapsHelper.del P k user (lit "userlogin")
    let k := CMapsHelper.del P k userlist user
    let k := CMapsHelper.del P k notifyKey user
    let k := CMapsHelper.erase P k (usergroups user)
    CMapsHelper.erase P k (userchans user)
  logins := s.logins.remove user

/-- `CheckPass`, with a hash provider. -/
def checkPass (compare : Bytes → Bytes → Bool) (s : Accounts) (user key : Bytes) (last : ℕ) : Bool × Accounts :=
  let cached := s.logins.inCache compare user key
  if cached = -1 then (false, s)
  else if cached = 1 then (true, s)
  else if !asBool (find P s.core user (lit "status")) false then (false, s)
  else
    let passwd := find P s.core user (lit "pass")
    if !compare key passwd then (false, s)
    else (true, { s with logins := s.logins.add user passwd last })

end UserHelper

/-- `passwd` is PASSWD of a client with that login, `passwdOf` the one of an administrator. -/
inductive Command where
  | addUser (login pass hashed : Bytes) (now : ℕ)
  | delUser (login : Bytes)
  | passwd (login pass hashed : Bytes)
  | passwdOf (login pass hashed : Bytes)
  | setStatus (login status : Bytes)
  | addFlag (login flag : Bytes)
  | delFlag (login flag : Bytes)

/-- The login that a command is about. -/
def Command.login : Command → Bytes
  | .addUser login .. | .delUser login | .passwd login .. | .passwdOf login .. | .setStatus login .. | .addFlag login ..
  | .delFlag login .. => login

namespace Accounts

variable (P : Platform)

def exists' (s : Accounts) (login : Bytes) : Bool := UserHelper.find P s.core login (lit "created") ≠ []

/-- The checks of `Execute` on the login of ADDUSER, DELUSER, SETSTATUS and ADDFLAG. -/
def checkLogin (s : Accounts) (checkExists : Bool) (login : Bytes) : Bool :=
  !(checkExists && !s.exists' P login) && 3 ≤ login.length && login.length ≤ 15 && loginValidator login &&
    login ≠ lit "root"

def isFlag (flag : UInt8) : Bool := flag = 101 || flag = 114 || flag = 109

def addsUser (s : Accounts) (login pass : Bytes) : Bool :=
  s.checkLogin P false login && 3 ≤ pass.length && pass.length ≤ 30 && !s.exists' P login

/-- `CommandAddFlag::Handle`; the flag of an empty parameter is the byte behind it. -/
def addFlag (s : Accounts) (login flag : Bytes) : Accounts :=
  let exists_ := UserHelper.find P s.core login (lit "flags")
  if flag.length > 1 then s
  else if flag.any (!isFlag ·) then s
  else if exists_.any (· = flag.headD 0) then s
  else UserHelper.setFlags P s login (exists_ ++ [flag.headD 0])

/-- `CommandDelFlags::Handle`. -/
def delFlag (s : Accounts) (login flag : Bytes) : Accounts :=
  let adding := UserHelper.find P s.core login (lit "flags")
  if flag = [] ∨ flag.length > 1 then s
  else if !s.exists' P login then s
  else if login = lit "root" then s
  else if adding = [] then s
  else if flag.any (!isFlag ·) then s
  else
    let creating := adding.filter (· ≠ flag.headD 0)
    if creating = [] then UserHelper.deleteFlags P s login else UserHelper.setFlags P s login creating

/-- The handlers behind the checks of `Execute`. -/
def handle (s : Accounts) : Command → Accounts
  | .addUser login pass hashed now =>
    if s.addsUser P login pass then { s with core := Server.addUser P s.core login hashed now } else s
  | .delUser login => if s.checkLogin P true login then UserHelper.remove P s login else s
  | .passwd login pass hashed => UserHelper.changePass P s login pass hashed
  | .passwdOf newlogin pass hashed =>
    if newlogin.length < 3 ∨ newlogin.length > 15 then s
    else if !loginValidator newlogin then s
    else if pass.length < 3 ∨ pass.length > 30 then s
    else if !s.exists' P newlogin then s
    else UserHelper.changePass P s newlogin pass hashed
  | .setStatus login status =>
    if s.checkLogin P true login then
      let logins := if asBool status false = false then s.logins.remove login else s.logins
      ⟨CMapsHelper.set P s.core login (lit "status") (boolText (asBool status false)), logins⟩
    else s
  | .addFlag login flag => if s.checkLogin P true login then s.addFlag P login flag else s
  | .delFlag login flag => s.delFlag P login flag

def run (s : Accounts) (commands : List Command) : Accounts := commands.foldl (handle P) s

end Accounts

/-! ## What a command may change -/

/-- The fields of a record that `Add` sets; `Remove` deletes these and the flags. -/
def recordFields : List Bytes := [lit "userlogin", lit "pass", lit "status", lit "created"]

/-- The fields of the core database that a command may write. -/
def Command.Writes : Command → Bytes → Bytes → Prop
  | .addUser login .., key, name =>
    key = login ∧ name ∈ recordFields ∨ key = userlist ∧ name = login ∨ key = usergroups login ∧ name = lit "default"
  | .delUser login, key, name =>
    key = login ∧ name ∈ lit "flags" :: recordFields ∨ (key = userlist ∨ key = notifyKey) ∧ name = login ∨
      key = usergroups login ∨ key = userchans login
  | .passwd login .., key, name | .passwdOf login .., key, name => key = login ∧ name = lit "pass"
  | .setStatus login .., key, name => key = login ∧ name = lit "status"
  | .addFlag login .., key, name | .delFlag login .., key, name => key = login ∧ name = lit "flags"

instance (c : Command) (key name : Bytes) : Decidable (c.Writes key name) :=
  match c with
  | .addUser .. | .delUser _ | .passwd .. | .passwdOf .. | .setStatus .. | .addFlag .. | .delFlag .. => by
    unfold Command.Writes; infer_instance

variable {P : Platform}

theorem LoginMap.mem_remove {logins : LoginMap} {user : Bytes} {e : Bytes × Bytes} :
    e ∈ logins.remove user ↔ e ∈ logins ∧ e.1 ≠ user := by simp [remove]

namespace UserHelper

variable {k : Kernel} {s : Accounts} {user pass hashed flags : Bytes} {now : ℕ}

theorem add_core (h : k.Core) : (Server.addUser P k user hashed now).Core := by
  unfold Server.addUser
  split
  · exact h
  · exact h.set.set.set.set.set.set

theorem add_field (h : k.Core) (length : 3 ≤ user.length ∧ user.length ≤ 15) (key name : Bytes) :
    ((Server.addUser P k user hashed now).table key)[name]? =
      if key = usergroups user ∧ name = lit "default" then some (convtoString now)
      else if key = userlist ∧ name = user then some (lit "login")
      else if key = user ∧ name = lit "created" then some (convtoString now)
      else if key = user ∧ name = lit "status" then some (lit "1")
      else if key = user ∧ name = lit "pass" ∧ hashed ≠ [] then some hashed
      else if key = user ∧ name = lit "userlogin" then some user
      else (k.table key)[name]? := by
  have named : user ≠ [] := by
    intro empty
    simp [empty] at length
  have fields : lit "userlogin" ≠ [] ∧ lit "pass" ≠ [] ∧ lit "status" ≠ [] ∧ lit "created" ≠ [] ∧ lit "default" ≠ [] ∧
      lit "login" ≠ [] ∧ lit "1" ≠ [] := by decide
  unfold Server.addUser
  rw [if_neg (by omega)]
  dsimp only
  rw [h.set.set.set.set.set.set_field, h.set.set.set.set.set_field, h.set.set.set.set_field, h.set.set.set_field,
    h.set.set_field, h.set_field]
  simp [named, fields, usergroups_ne_nil, userlist_ne_nil, convtoString_ne_nil]

theorem remove_core (h : s.core.Core) : (remove P s user).core.Core := h.del.del.del.del.del.del.del.erase.erase

theorem remove_field (h : s.core.Core) (named : user ≠ []) (key name : Bytes) :
    ((remove P s user).core.table key)[name]? =
      if (Command.delUser user).Writes key name then none else (s.core.table key)[name]? := by
  have listed : userlist ≠ [] ∧ notifyKey ≠ [] := by decide
  have order : (Command.delUser user).Writes key name ↔ key = userchans user ∨ key = usergroups user ∨
      key = notifyKey ∧ name = user ∨ key = userlist ∧ name = user ∨ key = user ∧ name = lit "userlogin" ∨
      key = user ∧ name = lit "flags" ∨ key = user ∧ name = lit "status" ∨ key = user ∧ name = lit "created" ∨
      key = user ∧ name = lit "pass" := by
    simp only [Command.Writes, recordFields, List.mem_cons, List.not_mem_nil, or_false]
    generalize lit "userlogin" = userlogin, lit "flags" = flags, lit "status" = status, lit "created" = created,
      lit "pass" = pass, userchans user = chans, usergroups user = groups, userlist = list, notifyKey = notify
    grind
  unfold remove
  dsimp only
  rw [h.del.del.del.del.del.del.del.erase.erase_field, h.del.del.del.del.del.del.del.erase_field,
    h.del.del.del.del.del.del.del_field, h.del.del.del.del.del.del_field, h.del.del.del.del.del_field,
    h.del.del.del.del_field, h.del.del.del_field, h.del.del_field, h.del_field]
  simp only [order, ite_or, listed, named, ne_eq, not_false_eq_true, and_true]

theorem changePass_core (h : s.core.Core) : (changePass P s user pass hashed).core.Core := by
  unfold changePass
  split
  · exact h
  · exact h.set

/-- A helper that sets one field leaves the others. -/
theorem set_other {k : Kernel} (h : k.Core) {entry hesh value key name : Bytes} (other : ¬(key = entry ∧ name = hesh)) :
    ((CMapsHelper.set P k entry hesh value).table key)[name]? = (k.table key)[name]? := by
  rw [h.set_field, if_neg fun given => other ⟨given.1, given.2.1⟩]

theorem changePass_other (h : s.core.Core) {key name : Bytes} (other : ¬(key = user ∧ name = lit "pass")) :
    ((changePass P s user pass hashed).core.table key)[name]? = (s.core.table key)[name]? := by
  unfold changePass
  split
  · rfl
  · exact set_other h other

theorem add_other (h : k.Core) {key name : Bytes} (other : ¬(Command.addUser user pass hashed now).Writes key name) :
    ((Server.addUser P k user hashed now).table key)[name]? = (k.table key)[name]? := by
  simp only [Command.Writes, recordFields, List.mem_cons, List.not_mem_nil, or_false, not_or, not_and] at other
  obtain ⟨own, listed, grouped⟩ := other
  unfold Server.addUser
  split
  · rfl
  · dsimp only
    rw [set_other h.set.set.set.set.set fun given => grouped given.1 given.2,
      set_other h.set.set.set.set fun given => listed given.1 given.2,
      set_other h.set.set.set fun given => (own given.1).2.2.2 given.2,
      set_other h.set.set fun given => (own given.1).2.2.1 given.2,
      set_other h.set fun given => (own given.1).2.1 given.2, set_other h fun given => (own given.1).1 given.2]

end UserHelper

namespace Accounts

open UserHelper

variable {s : Accounts}

theorem addFlag_cases (P : Platform) (s : Accounts) (login flag : Bytes) :
    s.addFlag P login flag = s ∨ ∃ flags, s.addFlag P login flag = setFlags P s login flags := by
  unfold addFlag
  dsimp only
  split_ifs
  · exact .inl rfl
  · exact .inl rfl
  · exact .inl rfl
  · exact .inr ⟨_, rfl⟩

theorem delFlag_cases (P : Platform) (s : Accounts) (login flag : Bytes) : s.delFlag P login flag = s ∨
    s.delFlag P login flag = deleteFlags P s login ∨ ∃ flags, s.delFlag P login flag = setFlags P s login flags := by
  unfold delFlag
  dsimp only
  split_ifs
  any_goals exact .inl rfl
  · exact .inr (.inl rfl)
  · exact .inr (.inr ⟨_, rfl⟩)

/-- A command leaves the fields that it does not write. -/
theorem handle_frame (h : s.core.Core) (c : Command) : (s.handle P c).core.Core ∧
    ∀ key name, ¬c.Writes key name → ((s.handle P c).core.table key)[name]? = (s.core.table key)[name]? := by
  cases c with
  | addUser login pass hashed now =>
    simp only [handle]
    split
    · exact ⟨add_core h, fun key name other => add_other h other⟩
    · exact ⟨h, fun _ _ _ => rfl⟩
  | delUser login =>
    simp only [handle]
    split
    · rename_i accepted
      have named : login ≠ [] := by
        intro empty
        simp [checkLogin, empty] at accepted
      exact ⟨remove_core h, fun key name other => by rw [remove_field h named, if_neg other]⟩
    · exact ⟨h, fun _ _ _ => rfl⟩
  | passwd login pass hashed => exact ⟨changePass_core h, fun key name other => changePass_other h other⟩
  | passwdOf login pass hashed =>
    simp only [handle]
    split_ifs
    any_goals exact ⟨h, fun _ _ _ => rfl⟩
    exact ⟨changePass_core h, fun key name other => changePass_other h other⟩
  | setStatus login status =>
    simp only [handle]
    split
    · exact ⟨h.set, fun key name other => set_other h other⟩
    · exact ⟨h, fun _ _ _ => rfl⟩
  | addFlag login flag =>
    simp only [handle]
    split
    · rcases addFlag_cases P s login flag with same | ⟨flags, set⟩
      · rw [same]
        exact ⟨h, fun _ _ _ => rfl⟩
      · rw [set]
        exact ⟨h.set, fun key name other => set_other h other⟩
    · exact ⟨h, fun _ _ _ => rfl⟩
  | delFlag login flag =>
    simp only [handle]
    rcases delFlag_cases P s login flag with same | deleted | ⟨flags, set⟩
    · rw [same]
      exact ⟨h, fun _ _ _ => rfl⟩
    · rw [deleted]
      refine ⟨h.del, fun key name other => ?_⟩
      exact (h.del_field key name).trans (if_neg fun given => other ⟨given.1, given.2.1⟩)
    · rw [set]
      exact ⟨h.set, fun key name other => set_other h other⟩

/-- DELUSER only deletes. -/
theorem delUser_deletes (h : s.core.Core) (login key name : Bytes) :
    ((s.handle P (.delUser login)).core.table key)[name]? = (s.core.table key)[name]? ∨
      ((s.handle P (.delUser login)).core.table key)[name]? = none := by
  simp only [handle]
  split
  · rename_i accepted
    have named : login ≠ [] := by
      intro empty
      simp [checkLogin, empty] at accepted
    rw [UserHelper.remove_field h named]
    split
    · exact .inr rfl
    · exact .inl rfl
  · exact .inl rfl

theorem addFlag_logins (P : Platform) (s : Accounts) (login flag : Bytes) : (s.addFlag P login flag).logins = s.logins := by
  rcases addFlag_cases P s login flag with same | ⟨flags, set⟩
  · rw [same]
  · rw [set]
    rfl

theorem delFlag_logins (P : Platform) (s : Accounts) (login flag : Bytes) : (s.delFlag P login flag).logins = s.logins := by
  rcases delFlag_cases P s login flag with same | deleted | ⟨flags, set⟩
  · rw [same]
  · rw [deleted]
    rfl
  · rw [set]
    rfl

/-- Commands take logins out of the cache, or leave it. -/
theorem handle_logins {c : Command} {e : Bytes × Bytes} (here : e ∈ (s.handle P c).logins) : e ∈ s.logins := by
  have changePass (user pass hashed : Bytes) (here : e ∈ (UserHelper.changePass P s user pass hashed).logins) :
      e ∈ s.logins := by
    unfold UserHelper.changePass at here
    split at here
    · exact here
    · exact (LoginMap.mem_remove.mp here).1
  cases c with
  | addUser login pass hashed now =>
    simp only [handle] at here
    split at here
    · exact here
    · exact here
  | delUser login =>
    simp only [handle] at here
    split at here
    · exact (LoginMap.mem_remove.mp here).1
    · exact here
  | passwd login pass hashed => exact changePass login pass hashed here
  | passwdOf login pass hashed =>
    simp only [handle] at here
    split_ifs at here
    any_goals exact here
    exact changePass login pass hashed here
  | setStatus login status =>
    simp only [handle] at here
    split_ifs at here
    · exact (LoginMap.mem_remove.mp here).1
    · exact here
    · exact here
  | addFlag login flag =>
    simp only [handle] at here
    split at here
    · rwa [addFlag_logins] at here
    · exact here
  | delFlag login flag => rwa [handle, delFlag_logins] at here

end Accounts

end BerylDB.Logins
