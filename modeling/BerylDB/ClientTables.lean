import BerylDB.Keyed
import BerylDB.Text
import BerylDB.Transition
import Mathlib.Data.List.Nodup

/-! # The tables of clients

`ClientManager` finds a client by its instance, by its identifier and by its login, counts those that are not
registered, and hands those that quit to the reducer, which deletes them, at once or when their queries are over. -/
namespace BerylDB.Clients
open Text Transition

/-- `ok` says that `registered` is `REG_OK`. -/
structure Client where
  uuid : Bytes
  instanceName : Bytes
  login : Bytes
  logged : Bool
  ok : Bool
  quitting : Bool
  locked : Bool
deriving DecidableEq

/-- `UserMap` and `LoginHash`: names, which are compared without regard to case, and clients. -/
abbrev UserMap := List (Bytes × ℕ)

/-- `users` are all clients that were ever made, and a pointer is a position in it; `reducer` is the list of the
ReducerHandler, and `charmap` the map that `casemapping` chose. -/
structure Tables where
  maxClients : ℕ
  charmap : CharMap
  users : List Client
  clientlist : UserMap
  uuidList : UserMap
  logins : UserMap
  localUsers : List ℕ
  notRegistered : ℕ
  awaitingExit : List ℕ
  reducer : List ℕ
  deleted : List ℕ

namespace UserMap
variable (charmap : CharMap)

def find (m : UserMap) (name : Bytes) : Option ℕ := (m.find? fun p => equals charmap p.1 name).map (·.2)

def erase (m : UserMap) (name : Bytes) : UserMap := m.eraseP fun p => equals charmap p.1 name

/-- `map[name] = user`. -/
def assign (m : UserMap) (name : Bytes) (user : ℕ) : UserMap :=
  if (m.find charmap name).isSome then m.map fun p => if equals charmap p.1 name then (p.1, user) else p
  else m ++ [(name, user)]

/-- `ClientManager::EraseLogin`. -/
def eraseLogin (m : UserMap) (user : ℕ) : UserMap := m.eraseP fun p => p.2 = user

end UserMap

namespace Tables

def modify (t : Tables) (user : ℕ) (f : Client → Client) : Tables := { t with users := t.users.modify user f }

/-- `ClientManager::Disconnect`; no module attaches to OnUserPreExit. -/
def disconnect (t : Tables) (user : ℕ) : Tables :=
  match t.users[user]? with
  | none => t
  | some u =>
    if u.quitting then t
    else
      { t.modify user fun u => { u with quitting := true } with
        reducer := if u.locked then t.reducer else t.reducer ++ [user]
        awaitingExit := if u.locked then t.awaitingExit ++ [user] else t.awaitingExit
        notRegistered := if u.ok then t.notRegistered else t.notRegistered - 1
        localUsers := t.localUsers.erase user
        clientlist := t.clientlist.erase t.charmap u.instanceName
        logins := t.logins.eraseLogin user
        uuidList := t.uuidList.erase t.charmap u.uuid }

/-- The constructors `User::User` and `LocalUser::LocalUser`, and the tables of `ClientManager::AddUser`. -/
def insert (t : Tables) (uuid : Bytes) : Tables :=
  let user := t.users.length
  { t with
    users := t.users ++ [⟨uuid, uuid, [], false, false, false, false⟩]
    uuidList := t.uuidList ++ [(uuid, user)]
    notRegistered := t.notRegistered + 1
    clientlist := t.clientlist.assign t.charmap uuid user
    localUsers := user :: t.localUsers }

/-- `ClientManager::AddUser`; `fails` tells whether the descriptor or a hook of the port refuses the connection. -/
def addUser (t : Tables) (uuid : Bytes) (fails : Bool) : Tables :=
  let added := t.insert uuid
  if fails || t.maxClients < added.localUsers.length then added.disconnect t.users.length else added

def newInstance (login uuid : Bytes) : Bytes := lit "I-" ++ login ++ 45 :: uuid

/-- `User::SetLogin`; `passed` is the answer of `CheckPass`. -/
def setLogin (t : Tables) (user : ℕ) (userlogin : Bytes) (passed : Bool) : Tables :=
  match t.users[user]? with
  | none => t
  | some u =>
    if u.logged || u.quitting then t
    else
      let t := t.modify user fun u => { u with logged := true, login := userlogin }
      if !passed then t.disconnect user
      else
        let newlogin := newInstance userlogin u.uuid
        let inUse := t.clientlist.find t.charmap userlogin
        if inUse = some user ∧ newlogin = u.instanceName then t
        else
          match inUse.filter (· ≠ user) with
          | some other => t.disconnect other
          | none =>
            { t.modify user fun u => { u with instanceName := newlogin } with
              clientlist := (t.clientlist.erase t.charmap u.instanceName).assign t.charmap newlogin user
              logins := t.logins ++ [(userlogin, user)] }

/-- `LocalUser::ack_connection`; `denied` is the answer of `check_con_conf`. -/
def ackConnection (t : Tables) (user : ℕ) (denied : Bool) : Tables :=
  if denied then t.disconnect user
  else { t.modify user fun u => { u with ok := true } with notRegistered := t.notRegistered - 1 }

/-- `ClientManager::FindInstanceOnly`. -/
def findInstanceOnly (t : Tables) (name : Bytes) : Option ℕ := t.clientlist.find t.charmap name

def findUUID (t : Tables) (uid : Bytes) : Option ℕ := t.uuidList.find t.charmap uid

/-- `ClientManager::FindLogin` for those that are registered. -/
def findLogin (t : Tables) (login : Bytes) : List ℕ :=
  (t.logins.filter fun p => p.1 = login && t.users[p.2]?.any fun u => u.ok).map (·.2)

/-- `ClientManager::DisconnectAll`. -/
def disconnectAll (t : Tables) (login : Bytes) : Tables := (t.findLogin login).foldl disconnect t

/-- A client that may be deleted. -/
def free (t : Tables) (user : ℕ) : Bool := t.users[user]?.any fun u => u.quitting && !u.locked

/-- `ClientManager::ForceExits`. -/
def forceExits (t : Tables) : Tables :=
  { t with
    reducer := t.reducer ++ t.awaitingExit.filter t.free
    awaitingExit := t.awaitingExit.filter fun user => !t.free user }

/-- `ReducerHandler::Apply`: every client of the list is discarded and then deleted.  What discarding adds to the list
has been discarded already. -/
def apply (t : Tables) : Tables :=
  let gone := t.reducer.reverse.dedup.reverse
  let discarded := gone.foldl disconnect t
  { discarded with reducer := [], deleted := t.deleted ++ gone }

end Tables

/-- Connections, logins, registrations and exits; a query locks a client that is in `clientlist`, and unlocks it when it
is over. -/
inductive Event where
  | addUser (uuid : Bytes) (fails : Bool)
  | setLogin (user : ℕ) (login : Bytes) (passed : Bool)
  | ackConnection (user : ℕ) (denied : Bool)
  | disconnect (user : ℕ)
  | disconnectAll (login : Bytes)
  | lock (user : ℕ)
  | unlock (user : ℕ)
  | forceExits
  | apply

open Tables

/-- An identifier has nine characters and is not in use. -/
def next (t : Tables) : Event → Option Tables
  | .addUser uuid fails =>
    if uuid.length = 9 ∧ t.uuidList.find t.charmap uuid = none then some (t.addUser uuid fails) else none
  | .setLogin user login passed => some (t.setLogin user login passed)
  | .ackConnection user denied =>
    if t.users[user]?.any fun u => !u.quitting && !u.ok then some (t.ackConnection user denied) else none
  | .disconnect user => some (t.disconnect user)
  | .disconnectAll login => some (t.disconnectAll login)
  | .lock user =>
    if t.clientlist.any fun p => p.2 = user then some (t.modify user fun u => { u with locked := true }) else none
  | .unlock user =>
    if t.users[user]?.any fun u => u.locked then some (t.modify user fun u => { u with locked := false }) else none
  | .forceExits => some t.forceExits
  | .apply => some t.apply

def machine : Machine Tables Event where
  initial t := ∃ maxClients charmap, t = ⟨maxClients, charmap, [], [], [], [], [], 0, [], [], []⟩
  next := next

/-! ## One table -/

namespace UserMap

def key (charmap : CharMap) (p : Bytes × ℕ) : Bytes := p.1.map charmap.get

/-- A table with one entry for a name, and with the entries that `holds` tells. -/
structure Indexed (charmap : CharMap) (m : UserMap) (holds : Bytes → ℕ → Prop) : Prop where
  distinct : Keyed.Distinct (key charmap) m
  mem : ∀ name i, (name, i) ∈ m ↔ holds name i
  single : ∀ name held i, holds name i → holds held i → name = held

variable {charmap : CharMap} {m : UserMap} {holds other : Bytes → ℕ → Prop} {name : Bytes} {i : ℕ}

theorem Indexed.congr (h : Indexed charmap m holds) (same : ∀ name i, holds name i ↔ other name i) :
    Indexed charmap m other :=
  ⟨h.distinct, fun name i => (h.mem name i).trans (same name i),
    fun name held i first second => h.single name held i ((same name i).mpr first) ((same held i).mpr second)⟩

/-- What is found by a name bears it in some letters. -/
theorem Indexed.find_eq_some (h : Indexed charmap m holds) :
    m.find charmap name = some i ↔ ∃ held, holds held i ∧ equals charmap held name = true := by
  have found : m.find charmap name = (m.find? fun p => key charmap p == name.map charmap.get).map (·.2) := rfl
  rw [found, Option.map_eq_some_iff]
  constructor
  · rintro ⟨⟨held, j⟩, first, rfl⟩
    obtain ⟨inside, same⟩ := h.distinct.find?_eq_some_iff.mp first
    exact ⟨held, (h.mem held j).mp inside, beq_iff_eq.mpr same⟩
  · rintro ⟨held, holds, same⟩
    exact ⟨(held, i), h.distinct.find?_eq_some_iff.mpr ⟨(h.mem held i).mpr holds, beq_iff_eq.mp same⟩, rfl⟩

theorem Indexed.absent (h : Indexed charmap m holds) (absent : m.find charmap name = none) {held : Bytes}
    (holds : holds held i) :
    equals charmap held name = false := by
  refine Bool.eq_false_iff.mpr fun same => ?_
  rw [h.find_eq_some.mpr ⟨held, holds, same⟩] at absent
  cases absent

theorem Indexed.concat (h : Indexed charmap m holds) (absent : m.find charmap name = none) (new : ∀ held, ¬ holds held i) :
    Indexed charmap (m ++ [(name, i)]) fun held j => holds held j ∨ held = name ∧ j = i := by
  refine ⟨h.distinct.concat fun p inside same => ?_, fun held j => ?_, ?_⟩
  · have differ := h.absent absent ((h.mem p.1 p.2).mp inside)
    exact absurd (beq_iff_eq.mpr same) (Bool.eq_false_iff.mp differ)
  · rw [List.mem_append, List.mem_singleton, h.mem, Prod.mk.injEq]
  · rintro first second j (old | ⟨named, here⟩) (old' | ⟨named', here'⟩)
    · exact h.single first second j old old'
    · exact absurd (here' ▸ old) (new _)
    · exact absurd (here ▸ old') (new _)
    · exact named.trans named'.symm

theorem Indexed.assign (h : Indexed charmap m holds) (absent : m.find charmap name = none) (new : ∀ held, ¬ holds held i) :
    Indexed charmap (m.assign charmap name i) fun held j => holds held j ∨ held = name ∧ j = i := by
  unfold UserMap.assign
  rw [absent]
  exact h.concat absent new

theorem Indexed.erase (h : Indexed charmap m holds) (here : holds name i) :
    Indexed charmap (m.erase charmap name) fun held j => holds held j ∧ j ≠ i := by
  refine ⟨h.distinct.eraseP, fun held j => ?_, fun first second j holds holds' =>
    h.single first second j holds.1 holds'.1⟩
  refine (h.distinct.mem_eraseP (k := name.map charmap.get)).trans ?_
  rw [h.mem]
  refine and_congr_right fun holds => ?_
  constructor
  · rintro differ rfl
    exact differ (congrArg (List.map charmap.get) (h.single held name j holds here))
  · intro differ same
    have equal := h.distinct.eq_of_key ((h.mem held j).mpr holds) ((h.mem name i).mpr here) same
    exact differ (Prod.mk.inj equal).2

end UserMap

end BerylDB.Clients
