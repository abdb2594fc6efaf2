import BerylDB.Transition
import Mathlib.Logic.Function.Basic

/-! # Dispatching queries to data threads

The lock of a client, the queues `pending` and `notifications`, and the data threads.  The passes of
`GetPending` and `GetResults` over the client list are taken one client at a time, since the threads
run in between. -/
namespace BerylDB.DataFlush
open Transition

inductive QueryFlags where
  | none | quiet | global
deriving DecidableEq

/-- `user = none` is the global user; `scan` marks the queries whose `Run` asks `CheckIterator`, and
`invalidFormat` those that `make_query` has already refused. -/
structure Query where
  user : Option ℕ
  database : ℕ
  flags : QueryFlags
  scan : Bool
  invalidFormat : Bool
deriving DecidableEq

/-- A result handed to the user; `more` is the member that marks all but the last part. -/
structure Signal where
  query : Query
  more : Bool
deriving DecidableEq

/-- `listed` says that the client is in the client list, `awaiting` that it is in `AwaitingExit`,
`reduced` that it has been handed to the reducer. -/
structure User where
  listed : Bool
  quitting : Bool
  locked : Bool
  awaiting : Bool
  reduced : Bool
  pending : List Query
  notifications : List Signal
deriving DecidableEq

def User.fresh : User := ⟨true, false, false, false, false, [], []⟩

/-- `request` is the query taken off the queue and not yet answered. -/
structure DataThread where
  queue : List Query
  busy : Bool
  request : Option Query
deriving DecidableEq

structure Kernel where
  users : List User
  globalPending : List Query
  globalNotifications : List Signal
  threads : List DataThread
  running : Bool
  closing : ℕ → Bool

namespace Kernel

def modifyUser (k : Kernel) (user : Option ℕ) (f : User → User) : Kernel :=
  match user with
  | some i => { k with users := k.users.modify i f }
  | none => k

/-- `User::SetLock`; the lock of the global user is never read. -/
def setLock (k : Kernel) (user : Option ℕ) (locked : Bool) : Kernel :=
  k.modifyUser user fun u => { u with locked }

/-- `DataFlush::AttachResult`. -/
def attachResult (k : Kernel) (signal : Signal) : Kernel :=
  match signal.query.user with
  | some i => { k with users := k.users.modify i fun u => { u with notifications := u.notifications ++ [signal] } }
  | none => { k with globalNotifications := k.globalNotifications ++ [signal] }

/-- `DataFlush::AttachGlobal`. -/
def attachGlobal (k : Kernel) (query : Query) : Kernel := k.setLock query.user false

/-- The thread that `DataFlush::Process` uses: the first one that is not busy, else a random one. -/
def toUse (k : Kernel) (random : ℕ) : ℕ :=
  match k.threads.findIdx? (!·.busy) with
  | some t => t
  | none => random % k.threads.length

/-- `DataThread::Post`. -/
def post (k : Kernel) (t : ℕ) (query : Query) : Kernel :=
  if k.closing query.database then k.setLock query.user false
  else { k with threads := k.threads.modify t fun d => { d with queue := d.queue ++ [query] } }

/-- `StoreManager::Push` of a query of client `i`. -/
def push (k : Kernel) (i : ℕ) (query : Query) : Kernel :=
  k.modifyUser (some i) fun u => if u.quitting then u else { u with pending := u.pending ++ [query] }

/-- `DataFlush::GetPending` while the global user has pending queries. -/
def getGlobalPending (k : Kernel) (random : ℕ) : Kernel :=
  if k.running then
    match k.globalPending with
    | [] => k
    | query :: rest => { k with globalPending := rest }.post (k.toUse random) query
  else k

/-- The body of the loop of `DataFlush::GetPending`, with `DataFlush::Process`, for client `i`. -/
def getPending (k : Kernel) (i : ℕ) (random : ℕ) : Kernel :=
  match k.users[i]? with
  | none => k
  | some u =>
    if k.running = false ∨ u.listed = false then k
    else if ¬u.quitting ∧ (u.pending = [] ∨ u.locked) then k
    else
      match u.pending with
      | [] => k.setLock (some i) true
      | query :: rest =>
        ((k.setLock (some i) true).modifyUser (some i) fun u => { u with pending := rest }).post
          (k.toUse random) query

/-- The body of the loop of `DataFlush::GetResults` for client `i`. -/
def getResults (k : Kernel) (i : ℕ) : Kernel :=
  match k.users[i]? with
  | none => k
  | some u =>
    if k.running = false ∨ u.listed = false ∨ u.quitting then k
    else
      match u.notifications with
      | [] => k
      | signal :: rest =>
        let k := k.modifyUser (some i) fun u => { u with notifications := rest }
        if signal.more then k else k.setLock (some i) false

def modifyThread (k : Kernel) (t : ℕ) (f : DataThread → DataThread) : Kernel :=
  { k with threads := k.threads.modify t f }

/-- The head of `DataThread::Process`: a paused flusher leaves the queue as it is. -/
def take (k : Kernel) (t : ℕ) : Kernel :=
  match k.threads[t]? with
  | some ⟨query :: rest, _, none⟩ =>
    if k.running then k.modifyThread t fun _ => ⟨rest, true, some query⟩
    else k.modifyThread t fun d => { d with busy := false }
  | _ => k

/-- `Dispatcher::CheckIterator`. -/
def checkIterator (k : Kernel) (query : Query) : Bool :=
  !((match query.user with
    | some i => k.users[i]?.any (·.quitting)
    | none => false) || !k.running || k.closing query.database)

/-- The end of `DataThread::Process`: what becomes of the request once it has been prepared. -/
def answer (k : Kernel) (query : Query) (interrupted : Bool) : Kernel :=
  match query.flags with
  | .quiet => k
  | .global => k.attachGlobal query
  | .none => if interrupted then k else k.attachResult ⟨query, false⟩

def release (k : Kernel) (t : ℕ) : Kernel := k.modifyThread t fun d => { d with busy := false, request := none }

/-- `DataFlush::ResetAll` between its `Pause` and its `Resume`. -/
def resetAll (k : Kernel) : Kernel :=
  { k with
    globalPending := []
    globalNotifications := []
    users := k.users.map fun u =>
      if u.listed = false ∨ u.quitting then u else { u with notifications := [], pending := [] } }

/-- `ClientManager::Disconnect`. -/
def disconnect (k : Kernel) (i : ℕ) : Kernel :=
  k.modifyUser (some i) fun u =>
    if u.quitting then u
    else if u.locked then { u with quitting := true, awaiting := true, listed := false }
    else { u with quitting := true, reduced := true, listed := false }

/-- `ClientManager::ForceExits`. -/
def forceExits (k : Kernel) : Kernel :=
  { k with users := k.users.map fun u =>
      if u.awaiting ∧ u.quitting ∧ ¬u.locked then { u with awaiting := false, reduced := true } else u }

end Kernel

/-- The steps of the main loop, of the data threads and of the clients. -/
inductive Event where
  | connect
  | push (client database : ℕ) (scan invalidFormat : Bool)
  | pushGlobal (database : ℕ) (flags : QueryFlags) (scan invalidFormat : Bool)
  | getGlobalPending (random : ℕ)
  | getPending (client random : ℕ)
  | getResults (client : ℕ)
  | take (thread : ℕ)
  | attachMore (thread : ℕ)
  | interrupt (thread : ℕ)
  | finish (thread : ℕ)
  | pause
  | resetAll
  | resume
  | disconnect (client : ℕ)
  | forceExits
  | setClosing (database : ℕ) (closing : Bool)
deriving DecidableEq

def next (k : Kernel) : Event → Option Kernel
  | .connect => some { k with users := k.users ++ [.fresh] }
  | .push i database scan invalidFormat => some (k.push i ⟨some i, database, .none, scan, invalidFormat⟩)
  | .pushGlobal database flags scan invalidFormat =>
    some { k with globalPending := k.globalPending ++ [⟨none, database, flags, scan, invalidFormat⟩] }
  | .getGlobalPending random => some (k.getGlobalPending random)
  | .getPending i random => if k.globalPending = [] then some (k.getPending i random) else none
  | .getResults i => some (k.getResults i)
  | .take t => some (k.take t)
  | .attachMore t =>
    match k.threads[t]?.bind (·.request) with
    | some query =>
      if query.scan ∧ ¬query.invalidFormat ∧ k.checkIterator query then some (k.attachResult ⟨query, true⟩)
      else none
    | none => none
  | .interrupt t =>
    match k.threads[t]?.bind (·.request) with
    | some query =>
      if query.scan ∧ ¬query.invalidFormat ∧ ¬k.checkIterator query then some ((k.release t).answer query true)
      else none
    | none => none
  | .finish t =>
    match k.threads[t]?.bind (·.request) with
    | some query => some ((k.release t).answer query false)
    | none => none
  | .pause => some { k with running := false }
  | .resetAll => some k.resetAll
  | .resume => some { k with running := true }
  | .disconnect i => some (k.disconnect i)
  | .forceExits => some k.forceExits
  | .setClosing database closing => some { k with closing := Function.update k.closing database closing }

/-- The server starts with its data threads idle and no client. -/
def machine : Machine Kernel Event :=
  ⟨fun k => k.users = [] ∧ k.globalPending = [] ∧ k.threads ≠ [] ∧ ∀ d ∈ k.threads, d = ⟨[], false, none⟩, next⟩

end BerylDB.DataFlush
