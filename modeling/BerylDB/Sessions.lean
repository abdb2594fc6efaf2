import BerylDB.Transition
import Mathlib.Logic.Function.Basic

/-! # Sessions and privileges

Sessions are objects shared by all connections of a login: `SessionManager` maps a login to its
session, ADDFLAG and DELFLAG rewrite the stored flags and the session, and a new connection attaches
to the session that its login already has. -/
namespace BerylDB.Sessions
open Transition

abbrev Text := List Char

def ROOT_USER : Text := "root".toList

structure Session where
  canAdmin : Bool
  canExecute : Bool
  canManage : Bool
  rawflags : Text
deriving DecidableEq

def Session.setFlag (s : Session) (c : Char) : Session :=
  if c = 'r' then { s with canAdmin := true }
  else if c = 'e' then { s with canExecute := true }
  else if c = 'm' then { s with canManage := true }
  else s

/-- `Session::SetFlags`: the three rights are cleared, then set flag by flag. -/
def Session.setFlags (new : Session) (flags : Text) : Session :=
  flags.foldl setFlag { new with canAdmin := false, canExecute := false, canManage := false }

/-- `login` of a client whose registration is complete; `connected` until `Disconnect` takes the
client out of the login table, `destroyed` once its destructor has run. -/
structure User where
  login : Text
  connected : Bool
  destroyed : Bool
  session : Option ℕ
deriving DecidableEq

/-- Sessions live in `objects` and are referred to by position, as shared pointers are. -/
structure Server where
  flags : Text → Text
  created : Text → Bool
  objects : List Session
  sessions : Text → Option ℕ
  users : List User

namespace Server

/-- `ClientManager::FindLogin`, as positions of registered clients. -/
def findLogin (s : Server) (login : Text) : List ℕ :=
  (List.range s.users.length).filter fun i =>
    s.users[i]?.any fun u => u.connected && (u.login == login)

/-- `SessionManager::Add`. -/
def add (s : Server) (login flags : Text) : Server × Option ℕ :=
  if login = [] then (s, none)
  else
    ({ s with objects := s.objects ++ [Session.setFlags ⟨false, false, false, flags⟩ flags]
              sessions := Function.update s.sessions login (some s.objects.length) },
      some s.objects.length)

def setSession (s : Server) (i : ℕ) (session : Option ℕ) : Server :=
  { s with users := s.users.modify i fun u => { u with session } }

/-- `SessionManager::Attach`. -/
def attach (s : Server) (i : ℕ) (login flags : Text) : Server :=
  match s.sessions login with
  | none => (s.add login flags).1.setSession i (s.add login flags).2
  | some id => setSession { s with objects := s.objects.modify id (·.setFlags flags) } i (some id)

/-- `SessionManager::AttachExternal`. -/
def attachExternal (s : Server) (login flags : Text) : Server :=
  (s.findLogin login).foldl (fun s i => s.attach i login flags) s

/-- `SessionManager::DetermineLifetime`. -/
def determineLifetime (s : Server) (login : Text) : Server :=
  if (s.findLogin login).length > 0 then s
  else { s with sessions := Function.update s.sessions login none }

/-- `ModuleCoreDB::OnPostConnect`, after the client of `login` has been registered as number `i`. -/
def onPostConnect (s : Server) (i : ℕ) (login : Text) : Server :=
  match (s.sessions login).bind fun id => s.objects[id]? with
  | some session => s.attach i login session.rawflags
  | none => s.attach i login (s.flags login)

/-- `User::CanPerform('r')`. -/
def canAdmin (s : Server) (i : ℕ) : Bool :=
  match (s.users[i]?.bind (·.session)).bind fun id => s.objects[id]? with
  | some session => session.canAdmin
  | none => false

end Server

/-- `Daemon::LoginValidator`. -/
def loginValidator (login : Text) : Bool :=
  !(login.isEmpty || login.length < 3 || login.length > 15) &&
    login.zipIdx.all fun (c, i) =>
      ('A' ≤ c && c ≤ '\x7d') || ((('0' ≤ c && c ≤ '9') || c = '-') && i ≠ 0)

def isFlag (c : Char) : Bool := c = 'e' || c = 'r' || c = 'm'

/-- The checks of `CommandHandler::Execute` for ADDFLAG, and `CommandAddFlag::Handle`. -/
def addFlag (s : Server) (login flag : Text) : Server :=
  if s.created login = false then s
  else if login.length < 3 ∨ login.length > 15 then s
  else if loginValidator login = false then s
  else if login = ROOT_USER then s
  else if flag.length > 1 then s
  else if flag.any (!isFlag ·) then s
  else
    let first := flag.headD '\x00'
    if (s.flags login).any (· = first) then s
    else
      let adding := s.flags login ++ [first]
      Server.attachExternal { s with flags := Function.update s.flags login adding } login adding

/-- `CommandDelFlags::Handle`; deleting the flags leaves the empty text. -/
def delFlag (s : Server) (login flag : Text) : Server :=
  if flag = [] then s
  else if flag.length > 1 then s
  else if s.created login = false then s
  else if login = ROOT_USER then s
  else if s.flags login = [] then s
  else if flag.any (!isFlag ·) then s
  else
    let creating := (s.flags login).filter (· ≠ flag.headD '\x00')
    let s := s.attachExternal login creating
    { s with flags := Function.update s.flags login creating }

/-- Registrations and departures of clients, and the flag commands of the client `by`; `forget` is
the destructor of a client that gave a login and never completed its registration. -/
inductive Event where
  | connect (login : Text)
  | disconnect (client : ℕ)
  | destroy (client : ℕ)
  | forget (login : Text)
  | addFlag (by_ : ℕ) (login flag : Text)
  | delFlag (by_ : ℕ) (login flag : Text)
deriving DecidableEq

def next (s : Server) : Event → Option Server
  | .connect login =>
    if loginValidator login then
      some (Server.onPostConnect { s with users := s.users ++ [⟨login, true, false, none⟩] }
        s.users.length login)
    else none
  | .disconnect i => some { s with users := s.users.modify i fun u => { u with connected := false } }
  | .destroy i =>
    match s.users[i]? with
    | some u =>
      if u.connected || u.destroyed then none
      else some (Server.determineLifetime
        { s with users := s.users.modify i fun u => { u with destroyed := true } } u.login)
    | none => none
  | .forget login => some (s.determineLifetime login)
  | .addFlag i login flag => some (if s.canAdmin i then BerylDB.Sessions.addFlag s login flag else s)
  | .delFlag i login flag => some (if s.canAdmin i then BerylDB.Sessions.delFlag s login flag else s)

/-- The server starts with the accounts of its database and no client. -/
def machine : Machine Server Event :=
  ⟨fun s => s.objects = [] ∧ s.sessions = (fun _ => none) ∧ s.users = [], next⟩

end BerylDB.Sessions
