import BerylDB.CoreMaps
import BerylDB.Groups
import BerylDB.Transition

/-! # Groups of a running server

`GroupManager` of `group.cpp`, the commands of `core_groups`, and `Initialize` and `LoadGroups` of
`core_dbload.cpp`. -/
namespace BerylDB.Groups
open Text Store Transition

/-- A client in the table of logins; `registered` is `REG_OK`.  Groups are positions in `objects`, as shared
pointers are. -/
structure Client where
  login : Bytes
  connected : Bool
  registered : Bool
  groups : List ℕ
deriving DecidableEq

structure Server where
  core : Kernel
  objects : List Group
  groupList : List (Bytes × ℕ)
  clients : List Client

/-- `Daemon::GroupValidator`. -/
def groupValidator (gname : Bytes) : Bool :=
  gname ≠ [] && gname.length ≤ 15 && isAlphaText gname && gname.tail.all fun c => c ≠ 32 && c ≠ 44 && c ≠ 7

def groupsKey : Bytes := lit "groups"
def userlist : Bytes := lit "userlist"
def usergroups (login : Bytes) : Bytes := login ++ lit "/groups"

def Client.pushGroup (c : Client) (group : ℕ) : Client :=
  if group ∈ c.groups then c else { c with groups := c.groups ++ [group] }

def Client.removeGroup (c : Client) (group : ℕ) : Client := { c with groups := c.groups.erase group }

namespace Server

variable (P : Platform)

/-- `GroupManager::Find`. -/
def find (s : Server) (name : Bytes) : Option ℕ := (s.groupList.find? fun e => equals P.charmap e.1 name).map (·.2)

def add (s : Server) (gname flags : Bytes) : Server :=
  let name := gname.map toLower
  if (s.find P name).isSome then s
  else
    let (group, valid) := Group.updateFlags ⟨name, [], Permissions.init⟩ flags
    { s with
      core := if valid then CMapsHelper.set P s.core groupsKey name flags else s.core
      objects := s.objects ++ [group]
      groupList := s.groupList ++ [(name, s.objects.length)] }

/-- `Group::UpdateFlags` on the object `group`. -/
def updateFlags (s : Server) (group : ℕ) (flags : Bytes) : Server :=
  match s.objects[group]? with
  | none => s
  | some g =>
    let (g', valid) := g.updateFlags flags
    { s with
      core := if valid then CMapsHelper.set P s.core groupsKey g.name flags else s.core
      objects := s.objects.set group g' }

def resetFlags (s : Server) (name : Bytes) : Server :=
  match s.find P name with
  | none => s
  | some group =>
    { s with
      core := CMapsHelper.set P s.core groupsKey name []
      objects := s.objects.modify group fun g => { g with rawflags := [], permissions := Permissions.init } }

/-- The inner loop of `Delete`. -/
def forget (name : Bytes) (core : Kernel) (login : Bytes) : Kernel :=
  (CMapsHelper.hlist P core (usergroups login)).foldl
    (fun core gdelete => if gdelete = name then CMapsHelper.del P core (usergroups login) name else core) core

def delete (s : Server) (gname : Bytes) : Server :=
  let name := gname.map toLower
  match s.find P name with
  | none => s
  | some inUse =>
    let core := CMapsHelper.del P s.core groupsKey name
    { s with
      core := (CMapsHelper.hlist P core userlist).foldl (forget P name) core
      groupList := s.groupList.filter fun e => !equals P.charmap e.1 name
      clients := s.clients.map fun c => if c.connected then c.removeGroup inUse else c }

/-- `UserHelper::Exists`. -/
def exists' (s : Server) (user : Bytes) : Bool := CMapsHelper.get P s.core user (lit "created") ≠ []

/-- The clients with an edit of those that `FindLogin` finds. -/
def editLogin (s : Server) (login : Bytes) (edit : Client → Client) : List Client :=
  s.clients.map fun c => if c.connected && c.registered && c.login == login then edit c else c

/-- `CommandAssign::Handle`. -/
def assign (s : Server) (gname dest : Bytes) (now : ℕ) : Server :=
  match s.find P gname with
  | none => s
  | some found =>
    if !s.exists' P dest || (CMapsHelper.hlist P s.core (usergroups dest)).contains gname then s
    else
      { s with
        core := CMapsHelper.set P s.core (usergroups dest) gname (convtoString now)
        clients := s.editLogin dest (·.pushGroup found) }

/-- `CommandUnAssign::Handle`. -/
def unAssign (s : Server) (gname dest : Bytes) : Server :=
  match s.find P gname with
  | none => s
  | some found =>
    if !s.exists' P dest || !(CMapsHelper.hlist P s.core (usergroups dest)).contains gname then s
    else
      { s with
        core := CMapsHelper.del P s.core (usergroups dest) gname
        clients := s.editLogin dest (·.removeGroup found) }

/-- `LoadGroups` for a client that finds no other one of its login. -/
def loadGroups (s : Server) (c : Client) : Client :=
  (CMapsHelper.hlist P s.core (usergroups c.login)).foldl
    (fun c channel => match s.find P channel with
      | some group => c.pushGroup group
      | none => c) c

/-- `ack_connection` with `LoadGroups`; `first` is the client that `FirstLogin` comes to. -/
def connect (s : Server) (client first : ℕ) : Option Server :=
  match s.clients[client]?, s.clients[first]? with
  | some c, some inUse =>
    if c.connected && !c.registered && inUse.connected && inUse.login == c.login &&
        (inUse.registered || first == client) then
      let user := { c with registered := true }
      let user := if first ≠ client then { user with groups := inUse.groups } else s.loadGroups P user
      some { s with clients := s.clients.set client user }
    else none
  | _, _ => none

/-- `ModuleCoreDB::Initialize` on the groups. -/
def startup (core : Kernel) : Server :=
  (CMapsHelper.hlist P core groupsKey).foldl (fun s name => s.add P name (CMapsHelper.get P s.core groupsKey name))
    ⟨core, [], [], []⟩

end Server

/-- Group commands, and the clients that come and go.  A client first gets into the table of logins, then it is
registered and loads its groups. -/
inductive Event where
  | groupAdd (gname : Bytes)
  | flagUpdate (gname flags : Bytes)
  | greset (gname : Bytes)
  | delGroup (gname : Bytes)
  | assign (gname dest : Bytes) (now : ℕ)
  | unAssign (gname dest : Bytes)
  | login (login : Bytes)
  | connect (client first : ℕ)
  | disconnect (client : ℕ)
deriving DecidableEq

/-- The byte 0 of a line is read as a blank, and `SetLogin` takes the accounts of `userlist`. -/
def Server.next (P : Platform) (s : Server) : Event → Option Server
  | .groupAdd gname =>
    if 0 ∈ gname then none else if groupValidator gname then some (s.add P gname defaultFlags) else some s
  | .flagUpdate gname flags =>
    match s.find P gname with
    | some group => some (s.updateFlags P group flags)
    | none => some s
  | .greset gname => if gname = lit "default" then some s else some (s.resetFlags P gname)
  | .delGroup gname => if gname = lit "default" then some s else some (s.delete P gname)
  | .assign gname dest now => some (s.assign P gname dest now)
  | .unAssign gname dest => some (s.unAssign P gname dest)
  | .login login =>
    if (CMapsHelper.hlist P s.core userlist).contains login then
      some { s with clients := s.clients ++ [⟨login, true, false, []⟩] }
    else none
  | .connect client first => s.connect P client first
  | .disconnect client => some { s with clients := s.clients.modify client fun c => { c with connected := false } }

/-! ## Names of groups -/

/-- The names under which `Add` files groups. -/
def GroupName (name : Bytes) : Prop := name ≠ [] ∧ ∀ c ∈ name, isDigit c || isLower c

theorem toLower_alnum {c : UInt8} (h : isAlnum c) : isDigit (toLower c) || isLower (toLower c) := by
  have lower := toNat_toLower c
  simp only [isAlnum, Bool.or_eq_true, isDigit_iff, isLower_iff, isUpper_iff] at h ⊢
  split at lower <;> omega

theorem get_eq_iff (charmap : CharMap) {c other : UInt8} (h : isDigit c || isLower c) :
    charmap.get c = charmap.get other ↔ toLower other = c := by
  have range := charmap.last_range
  have lower := toNat_toLower other
  simp only [Bool.or_eq_true, isDigit_iff, isLower_iff] at h
  rw [← UInt8.toNat_inj, ← UInt8.toNat_inj, CharMap.toNat_get, CharMap.toNat_get]
  split at lower <;> split <;> split <;> omega

theorem groupName_of_valid {gname : Bytes} (sent : 0 ∉ gname) (valid : groupValidator gname) :
    GroupName (gname.map toLower) := by
  have whole : cStr gname = gname := by
    unfold cStr
    exact List.takeWhile_eq_self_iff.mpr fun c hc => by simpa using fun zero : c = 0 => sent (zero ▸ hc)
  simp only [groupValidator, isAlphaText, whole, Bool.and_eq_true, decide_eq_true_eq, List.all_eq_true] at valid
  obtain ⟨⟨⟨nonempty, -⟩, -, alnum⟩, -⟩ := valid
  refine ⟨by simpa using nonempty, fun c hc => ?_⟩
  obtain ⟨d, hd, rfl⟩ := List.mem_map.mp hc
  exact toLower_alnum (alnum d hd)

theorem equals_iff {charmap : CharMap} {name other : Bytes} (h : GroupName name) :
    equals charmap name other ↔ other.map toLower = name := by
  have bytes := h.2
  clear h
  unfold equals
  rw [beq_iff_eq]
  induction name generalizing other with
  | nil => cases other <;> simp
  | cons c name ih =>
    cases other with
    | nil => simp
    | cons d other =>
      have tail : name.map charmap.get = other.map charmap.get ↔ other.map toLower = name :=
        ih fun c hc => bytes c (List.mem_cons_of_mem _ hc)
      simp only [List.map_cons, List.cons.injEq]
      rw [get_eq_iff charmap (bytes c (by simp)), tail]

end BerylDB.Groups
