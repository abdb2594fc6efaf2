import BerylDB.Text
import BerylDB.Transition

/-! # Channels and subscriptions

`ChannelManager` and `Channel` of `channels.cpp`, the commands JOIN, PART, PARTALL and HOP, and the parts of
`ClientManager` that they use.  A subscription is kept in the channel and in the client, and ChannelList keeps
the channels that exist. -/
namespace BerylDB.Channels
open Text Transition

/-- The keys of `subscribedlist` are clients. -/
structure Channel where
  name : Bytes
  subscribedlist : List ℕ
deriving DecidableEq

/-- `chans` holds the channel of each Subscription; `listed` tells whether the client is in the table of logins. -/
structure User where
  login : Bytes
  registered : Bool
  listed : Bool
  quitting : Bool
  canExecute : Bool
  chans : List ℕ
deriving DecidableEq

def User.fresh : User := ⟨[], false, false, false, false, []⟩

/-- Channels live in `channels` and are referred to by position, as pointers are; those that were removed stay
there without subscribers; `charmap` is the map that `casemapping` chose. -/
structure Server where
  charmap : CharMap
  allowchans : Bool
  chansync : Bool
  channels : List Channel
  channelList : List (Bytes × ℕ)
  users : List User

/-- The modules that attach to OnUserPreJoin, with the tags of their configuration by upper-case name. -/
inductive Hook where
  | chanRestrict
  | chainJoin (chain : Bytes → Option Bytes)
  | forward (forwards : Bytes → Option Bytes)

/-- `Daemon::ChannelValidator`. -/
def channelValidator : Bytes → Bool
  | 35 :: c :: rest =>
    rest.length + 2 ≤ 15 && !(c = 35 && rest.all (· = 35)) && (c :: rest).all fun i => i ≠ 32 && i ≠ 44 && i ≠ 7
  | _ => false

namespace Server

/-- `ChannelManager::Find`, by `insensitive` and `str_hash_comparison`. -/
def find (s : Server) (chan : Bytes) : Option ℕ := (s.channelList.find? fun p => equals s.charmap p.1 chan).map (·.2)

def subscribed (s : Server) (chan : ℕ) : List ℕ := (s.channels[chan]?.map (·.subscribedlist)).getD []

def chansOf (s : Server) (user : ℕ) : List ℕ := (s.users[user]?.map (·.chans)).getD []

/-- `Channel::IsSubscribed`. -/
def isSubscribed (s : Server) (chan user : ℕ) : Bool := user ∈ s.subscribed chan

/-- `ChannelManager::CheckRemoval`; no module attaches to OnChannelPreDelete. -/
def checkRemoval (s : Server) (chan : ℕ) : Server :=
  match s.channels[chan]? with
  | none => s
  | some channel =>
    if channel.subscribedlist ≠ [] then s
    else if s.find channel.name ≠ some chan then s
    else { s with channelList := s.channelList.eraseP fun p => equals s.charmap p.1 channel.name }

/-- `Channel::Channel`; `none` is its exception, which nothing catches. -/
def newChannel (s : Server) (cname : Bytes) : Option (Server × ℕ) :=
  if (s.find cname).isSome then none
  else
    some ({ s with
      channels := s.channels ++ [⟨cname, []⟩]
      channelList := s.channelList ++ [(cname, s.channels.length)] }, s.channels.length)

/-- `Channel::ExecuteJoin` with `AddUser`; `none` is the write through the null pointer that AddUser returns for a
client that is subscribed. -/
def executeJoin (s : Server) (chan user : ℕ) : Option Server :=
  if s.isSubscribed chan user then none
  else
    some { s with
      channels := s.channels.modify chan fun c => { c with subscribedlist := c.subscribedlist ++ [user] }
      users := s.users.modify user fun u => { u with chans := chan :: u.chans } }

/-- `Channel::DeleteUser`. -/
def deleteUser (s : Server) (chan user : ℕ) : Server :=
  if s.isSubscribed chan user then
    checkRemoval { s with
      channels := s.channels.modify chan fun c => { c with subscribedlist := c.subscribedlist.erase user } } chan
  else s

/-- `Channel::PartUser`. -/
def partUser (s : Server) (chan user : ℕ) : Server × Bool :=
  if s.isSubscribed chan user then
    (deleteUser { s with users := s.users.modify user fun u => { u with chans := u.chans.erase chan } } chan user, true)
  else (s, false)

/-- `Channel::JoinUser`; `preJoin` is what OnUserPreJoin comes to, given whether the channel exists, and tells whether
the join is stopped. -/
def joinWith (preJoin : Server → Bool → Bytes → Option (Server × Bool)) (s : Server) (user : ℕ) (cname : Bytes) :
    Option Server :=
  if !s.users[user]?.any (·.registered) then some s
  else
    let cname := cname.take 15
    match s.find cname with
    | none =>
      if !s.allowchans then some s
      else do
        let (s, stop) ← preJoin s false cname
        if stop then some s
        else
          let (s, chan) ← s.newChannel cname
          s.executeJoin chan user
    | some chan =>
      if s.isSubscribed chan user then some s
      else do
        let (s, stop) ← preJoin s true cname
        if stop then some s else s.executeJoin chan user

/-- `Channel::JoinUser` with `override`, which asks no module. -/
def joinOverride (s : Server) (user : ℕ) (cname : Bytes) : Option Server :=
  s.joinWith (fun s _ _ => some (s, false)) user cname

/-- `OnUserPreJoin` of the modules, in their order, until one stops the join. -/
def preJoin (user : ℕ) : List Hook → Server → Bool → Bytes → Option (Server × Bool)
  | [], s, _, _ => some (s, false)
  | .chanRestrict :: hooks, s, found, cname =>
    if !found && !s.users[user]?.any (·.canExecute) then some (s, true) else preJoin user hooks s found cname
  | .chainJoin chain :: hooks, s, found, cname =>
    match chain (cname.map toUpper) with
    | none => preJoin user hooks s found cname
    | some target => do
      let s ← s.joinOverride user target
      preJoin user hooks s found cname
  | .forward forwards :: hooks, s, found, cname =>
    match forwards (cname.map toUpper) with
    | none => preJoin user hooks s found cname
    | some target => do
      let s ← s.joinOverride user target
      some (s, true)

def joinUser (hooks : List Hook) (s : Server) (user : ℕ) (cname : Bytes) : Option Server :=
  s.joinWith (preJoin user hooks) user cname

/-- `ClientManager::FindLogin`, of registered clients. -/
def findLogin (s : Server) (login : Bytes) : List ℕ :=
  (List.range s.users.length).filter fun i =>
    s.users[i]?.any fun u => u.listed && u.login == login && u.registered

/-- `ClientManager::Join`. -/
def clientsJoin (s : Server) (skip : ℕ) (login channel : Bytes) : Option Server :=
  (s.findLogin login).foldlM (fun s user => if user = skip then some s else s.joinOverride user channel) s

/-- `ClientManager::Part`. -/
def clientsPart (s : Server) (skip : ℕ) (login channel : Bytes) : Server :=
  match s.find channel with
  | none => s
  | some chan =>
    (s.findLogin login).foldl (fun s user => if user = skip then s else (s.partUser chan user).1) s

/-- `User::CheckEmptyChannels`, which leaves the list that it walks. -/
def checkEmptyChannels (s : Server) (user : ℕ) : Server :=
  (s.chansOf user).foldl (fun s chan => s.deleteUser chan user) s

/-- `ClientManager::Disconnect`. -/
def disconnect (s : Server) (user : ℕ) : Server :=
  if s.users[user]?.any (·.quitting) then s
  else
    checkEmptyChannels { s with users := s.users.modify user fun u => { u with quitting := true, listed := false } } user

end Server

/-! ## The commands -/

/-- `MAX_DEST`. -/
def maxDest : ℕ := 100

/-- The items that differ from those before them, by `insensitive_swo`. -/
def withoutDupes (charmap : CharMap) : List Bytes → List Bytes
  | [] => []
  | item :: items => item :: (withoutDupes charmap items).filter fun other => !equals charmap item other

/-- The parameters that `CommandHandler::HasLoop` hands to the handler one by one; without a comma it is the one
parameter. -/
def loopItems (charmap : CharMap) (parameter : Bytes) (checkDupes usemax : Bool) : List Bytes :=
  if 44 ∈ parameter then
    let items := tokens 44 parameter
    let items := if usemax then items.take maxDest else items
    if checkDupes then withoutDupes charmap items else items
  else [parameter]

variable (hooks : List Hook)

/-- `CommandJoin::HandleLocal` on one channel. -/
def join (s : Server) (user : ℕ) (login channel : Bytes) : Option Server :=
  if !channelValidator channel then some s
  else if (s.find channel).any fun chan => s.isSubscribed chan user then some s
  else do
    let s ← s.joinUser hooks user channel
    if s.chansync then s.clientsJoin user login channel else some s

/-- `CommandPart::Handle` on one channel. -/
def part (s : Server) (user : ℕ) (login channel : Bytes) : Server :=
  match s.find channel with
  | none => s
  | some chan =>
    let (s, parted) := s.partUser chan user
    if parted && s.chansync then s.clientsPart user login channel else s

/-- `CommandPartAll::Handle`; the walk reads the next subscription before it parts. -/
def partAll (s : Server) (user : ℕ) (chans : List ℕ) : Server :=
  chans.foldl (fun s chan => (s.partUser chan user).1) s

/-- `CommandHop::HandleLocal` on one channel. -/
def hop (s : Server) (user : ℕ) (channel : Bytes) : Option Server :=
  match s.find channel with
  | none => some s
  | some chan =>
    if s.isSubscribed chan user then (s.partUser chan user).1.joinOverride user channel else some s

/-- Clients are accepted, log in, become registered and are disconnected; settings and rights change; registered
clients send commands.  `ready` carries the channels that OnPostConnect finds for the client, stored ones or those
of the configuration, and `extra` tells whether JOIN comes with a second parameter. -/
inductive Event where
  | accept
  | login (client : ℕ) (login : Bytes)
  | ready (client : ℕ) (chans : List Bytes)
  | disconnect (client : ℕ)
  | settings (allowchans chansync : Bool)
  | rights (client : ℕ) (canExecute : Bool)
  | join (client : ℕ) (parameter : Bytes) (extra : Bool)
  | part (client : ℕ) (parameter : Bytes)
  | partAll (client : ℕ)
  | hop (client : ℕ) (parameter : Bytes)

/-- The client of a command that the queue takes up: a registered one that is not quitting. -/
def Server.sender (s : Server) (client : ℕ) : Option User :=
  s.users[client]?.filter fun u => u.registered && !u.quitting

def next (s : Server) : Event → Option Server
  | .accept => some { s with users := s.users ++ [.fresh] }
  | .login i login =>
    match s.users[i]? with
    | none => none
    | some u =>
      if u.quitting || u.listed then none
      else some { s with users := s.users.modify i fun u => { u with login, listed := true } }
  | .ready i chans =>
    match s.users[i]? with
    | none => none
    | some u =>
      if u.quitting || u.registered then none
      else
        (chans.filter channelValidator).foldlM (fun s chan => s.joinOverride i chan)
          { s with users := s.users.modify i fun u => { u with registered := true } }
  | .disconnect i => some (s.disconnect i)
  | .settings allowchans chansync => some { s with allowchans, chansync }
  | .rights i canExecute => some { s with users := s.users.modify i fun u => { u with canExecute } }
  | .join i parameter extra =>
    (s.sender i).bind fun u =>
      (loopItems s.charmap parameter (!extra) false).foldlM (fun s channel => join hooks s i u.login channel) s
  | .part i parameter =>
    (s.sender i).map fun u => (loopItems s.charmap parameter true true).foldl (fun s channel => part s i u.login channel) s
  | .partAll i => (s.sender i).map fun u => partAll s i u.chans
  | .hop i parameter =>
    (s.sender i).bind fun _ => (loopItems s.charmap parameter true true).foldlM (fun s channel => hop s i channel) s

/-- The daemon starts without clients and channels. -/
def machine : Machine Server Event := ⟨fun s => s.channels = [] ∧ s.channelList = [] ∧ s.users = [], next hooks⟩

end BerylDB.Channels
