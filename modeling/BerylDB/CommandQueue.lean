import BerylDB.Transition

/-! # The command queue

`CommandQueue::Add` and `CommandQueue::Flush` over the two queues and the flags of a connected
client, with the handlers of MULTI, MULTIRESET and MRUN.  A connection also carries its history:
what `Add` took up and what was handed to `Execute`. -/
namespace BerylDB.CommandQueue

/-- The commands that `Add` and `Flush` tell apart by name. -/
inductive CommandName where
  | pong | multireset | multi | mrun
  | other (name : String)
deriving DecidableEq

/-- `passes` tells whether the checks of `CommandHandler::Execute` (pause, rights, parameters,
registration) let the command reach its handler when its turn comes. -/
structure PendingCMD where
  seq : ℕ
  command : CommandName
  cmdParams : List String
  passes : Bool
deriving DecidableEq

structure LocalUser where
  pendingList : List PendingCMD
  pendingMulti : List PendingCMD
  multi : Bool
  multiRunning : Bool
  quitting : Bool
  locked : Bool
deriving DecidableEq

def LocalUser.fresh : LocalUser := ⟨[], [], false, false, false, false⟩

inductive Receipt where
  | refused | queued | listed
deriving DecidableEq

inductive CommandResult where
  | success | failed
deriving DecidableEq

/-- `CommandQueue::Add`; `none` is the early return for a client that is quitting. -/
def add (user : LocalUser) (adding : PendingCMD) : Option (LocalUser × Receipt) :=
  if user.quitting then none
  else if adding.command = .pong then
    some ({ user with pendingList := user.pendingList ++ [adding] }, .listed)
  else if adding.command = .multireset then
    some ({ user with pendingMulti := [], multiRunning := false,
                      pendingList := user.pendingList ++ [adding] }, .listed)
  else if user.multi ∧ adding.command = .multi then some (user, .refused)
  else if user.multi ∧ adding.command ≠ .mrun then
    some ({ user with pendingMulti := user.pendingMulti ++ [adding] }, .queued)
  else if adding.command = .mrun ∧ ¬user.multi then some (user, .refused)
  else some ({ user with pendingList := user.pendingList ++ [adding] }, .listed)

/-- The `Handle` members of the commands; those other than MULTI and MULTIRESET leave both flags. -/
def handle (user : LocalUser) : CommandName → LocalUser × CommandResult
  | .multi => if user.multiRunning then (user, .failed) else ({ user with multi := true }, .success)
  | .multireset =>
    if user.multi then ({ user with multi := false, multiRunning := false }, .success)
    else (user, .failed)
  | .pong | .mrun | .other _ => (user, .success)

def execute (user : LocalUser) (event : PendingCMD) : LocalUser × Option CommandResult :=
  if event.passes then ((handle user event.command).1, some (handle user event.command).2)
  else (user, none)

structure Received where
  cmd : PendingCMD
  receipt : Receipt
deriving DecidableEq

/-- One call of `Execute`: `run` is the MRUN at the head of the list when the command comes out of
the multi queue, `received` how many commands the client had sent by then. -/
structure Execution where
  cmd : PendingCMD
  run : Option ℕ
  received : ℕ
  result : Option CommandResult
deriving DecidableEq

structure Connection where
  user : LocalUser
  received : List Received
  executed : List Execution
deriving DecidableEq

namespace Connection

def fresh : Connection := ⟨.fresh, [], []⟩

/-- A command line of the client reaches `Add`. -/
def receive (k : Connection) (command : CommandName) (params : List String) (passes : Bool) :
    Connection :=
  let adding : PendingCMD := ⟨k.received.length, command, params, passes⟩
  match add k.user adding with
  | none => k
  | some (user, receipt) => { k with user, received := k.received ++ [⟨adding, receipt⟩] }

/-- `Execute` on `event`, recorded in the history. -/
def perform (k : Connection) (user : LocalUser) (event : PendingCMD) (run : Option ℕ) : Connection :=
  { k with user := (execute user event).1
           executed := k.executed ++ [⟨event, run, k.received.length, (execute user event).2⟩] }

@[simp] theorem perform_received (k : Connection) (user : LocalUser) (event : PendingCMD) (run : Option ℕ) :
    (k.perform user event run).received = k.received := rfl

structure Visit where
  connection : Connection
  flag : Bool
  stop : Bool

/-- The body of the loop of `CommandQueue::Flush` for one client; `stop` is its early return. -/
def visit (k : Connection) : Visit :=
  let user := if k.user.quitting then { k.user with pendingList := [] } else k.user
  match user.pendingList with
  | [] => ⟨{ k with user }, false, false⟩
  | event :: rest =>
    if event.command = .pong then
      ⟨k.perform { user with pendingList := rest } event none, true, true⟩
    else if user.locked then ⟨{ k with user }, false, false⟩
    else
      let user := if user.multi ∧ event.command = .mrun
        then { user with multiRunning := true, multi := false } else user
      if user.multiRunning then
        match user.pendingMulti with
        | [] => ⟨{ k with user := { user with multiRunning := false } }, false, false⟩
        | mEvent :: _ =>
          let k' := k.perform user mEvent (some event.seq)
          ⟨{ k' with user := { k'.user with pendingMulti := k'.user.pendingMulti.tail } }, true, false⟩
      else ⟨k.perform { user with pendingList := rest } event none, true, false⟩

end Connection

/-- `CommandQueue::Flush` over the connected clients. -/
def flush : List Connection → Bool → List Connection × Bool
  | [], flag => ([], flag)
  | k :: ks, flag =>
    if k.visit.stop then (k.visit.connection :: ks, true)
    else ((k.visit.connection :: (flush ks (flag || k.visit.flag)).1),
      (flush ks (flag || k.visit.flag)).2)

/-- What can happen to the clients: connections, command lines, `Flush`, and the lock and quit
flags that other parts of the server set. -/
inductive Event where
  | connect
  | receive (client : ℕ) (command : CommandName) (params : List String) (passes : Bool)
  | flush
  | setLock (client : ℕ) (locked : Bool)
  | setQuit (client : ℕ)

def next (ks : List Connection) : Event → Option (List Connection)
  | .connect => some (ks ++ [.fresh])
  | .receive i command params passes =>
    ks[i]?.map fun k => ks.set i (k.receive command params passes)
  | .flush => some (flush ks false).1
  | .setLock i locked => ks[i]?.map fun k => ks.set i { k with user := { k.user with locked } }
  | .setQuit i => ks[i]?.map fun k => ks.set i { k with user := { k.user with quitting := true } }

def machine : Transition.Machine (List Connection) Event := ⟨fun ks => ks = [], next⟩

end BerylDB.CommandQueue
