import BerylDB.SocketPools
import BerylDB.Transition

/-! # Turns of the socket pool

`Writes` and `Events` with whatever the handlers do in between.  A socket with bytes to write or to read is never
forgotten: it is noted for a trial, or the kernel has to report it, or its turn has come. -/
namespace BerylDB.SocketPool
open Text Sockets Transition Pool

/-- What `epoll_wait` reports of a descriptor; `err` is the text of its error. -/
structure Report where
  input : Bool := false
  output : Bool := false
  hup : Bool := false
  err : Option Bytes := none
deriving DecidableEq

/-- The second half of a turn: whether the reference is looked at again, and whether the socket is due to write. -/
structure Rest where
  handler : ℕ
  fd : ℕ
  check : Bool
  due : Bool
deriving DecidableEq

/-- `pending` and `batch` are what is left of `pendinglist` and of `events`. -/
structure Server where
  pool : Pool := {}
  pending : List ℕ := []
  batch : List (ℕ × Report) := []
  rest : Option Rest := none

inductive Event where
  | attach (h fd : ℕ) (unread room ok : Bool)
  | tryLink (h fd : ℕ) (ok : Bool)
  | append (h : ℕ) (data : Bytes)
  | close (h : ℕ) (results : List (WriteResult × Bool))
  | closeLater (h : ℕ) (results : List (WriteResult × Bool))
  | setError (h : ℕ) (err : Bytes)
  | timeout (h sfd : ℕ)
  | consume (h n : ℕ)
  | writes
  | trial (r : Received)
  | wait (reports : List (ℕ × Report))
  | event (r : Received)
  | pendingWrites (results : List (WriteResult × Bool))
  | arrive (fd : ℕ)
  | drain (fd : ℕ)
deriving DecidableEq

namespace Server

variable (iovMax bufferSize : ℕ)

def idle (s : Server) : Prop := s.pending = [] ∧ s.batch = [] ∧ s.rest = none

instance (s : Server) : Decidable s.idle := inferInstanceAs (Decidable (_ ∧ _ ∧ _))

/-- A constructed handler gets a descriptor of the kernel, and is added to the pool. -/
def enter (s : Server) (h fd : ℕ) (d : Descriptor) (connecting : Bool) (mask : EventMask) (ok : Bool) : Server :=
  let made := (s.pool.syscall fd fun _ => d).handle h fun _ => { fd := some fd, connecting := connecting }
  { s with pool := made.addDescriptor h fd mask ok }

/-- `SocketTimer::Run`; what `OnTimeout` and `OnError` do follows as events of their own. -/
def timeout (s : Server) (h sfd : ℕ) : Server :=
  if s.pool.getReference sfd ≠ some h then s
  else { s with pool := s.pool.handle h fun e => { e with connecting := false } }

/-- The next element of `pendinglist`, up to `OnPendingRead`. -/
def trial (s : Server) (fd : ℕ) (r : Received) : Server :=
  match s.pool.getReference fd with
  | none => s
  | some h =>
    let mask := (s.pool.handlers h).reqMask
    let p := s.pool.setReqMask h (mask \ trialNoteMask)
    { s with
      pool := if .addTrialRead ∈ mask ∧ .readWillBlock ∉ mask then p.onPendingRead bufferSize h fd r else p
      rest := some ⟨h, fd, false, .addWriteTrial ∈ mask ∧ .writeBlock ∉ mask⟩ }

/-- The mask of a handler when its input and output are reported, before `Q_SINGLE_WRITE` is cleared. -/
def reportedMask (mask : EventMask) (report : Report) : EventMask :=
  let mask := if report.input then mask \ {.readWillBlock} else mask
  if report.output then mask \ {.writeBlock} else mask

/-- The mask of a handler when it is reported; the kernel is told that `Q_SINGLE_WRITE` is cleared. -/
def unblock (p : Pool) (h : ℕ) (report : Report) : Pool :=
  let mask := reportedMask (p.handlers h).reqMask report
  if report.output = true ∧ .singleWrite ∈ mask then
    (p.onMaskReq h mask (mask \ {.singleWrite})).setReqMask h (mask \ {.singleWrite})
  else p.setReqMask h mask

/-- The next element of `events`, up to `OnPendingRead`. -/
def event (s : Server) (h : ℕ) (report : Report) (r : Received) : Server :=
  match (s.pool.handlers h).fd with
  | none => s
  | some fd =>
    if report.hup then { s with pool := s.pool.setError h (lit "Connection closed") }
    else
      match report.err with
      | some err => { s with pool := s.pool.setError h err }
      | none =>
        let p := unblock s.pool h report
        { s with
          pool := if report.input then p.onPendingRead bufferSize h fd r else p
          rest := some ⟨h, fd, report.input, report.output⟩ }

/-- The descriptors of a call of `epoll_wait`: what is reported is not due any more. -/
def report (d : Descriptor) (r : Report) : Descriptor :=
  { d with inputEdge := d.inputEdge && !r.input, outputEdge := d.outputEdge && !r.output }

/-- `epoll_wait`, with the handler that each event carries. -/
def wait (s : Server) : List (ℕ × Report) → Server
  | [] => s
  | (fd, r) :: reports =>
    let t := wait s reports
    match (t.pool.kernel fd).interest with
    | some (_, h) => { t with pool := t.pool.syscall fd fun d => report d r, batch := (h, r) :: t.batch }
    | none => t

end Server

open Server

variable (iovMax bufferSize : ℕ)

def next (s : Server) : Event → Option Server
  | .attach h fd unread room ok =>
    some (s.enter h fd { unread := unread, room := room } false {.fastRead, .edgeWrite} ok)
  | .tryLink h fd ok => some (s.enter h fd {} true {.noRead, .singleWrite, .writeBlock} ok)
  | .append h data => some { s with pool := s.pool.appendBuffer h data }
  | .close h results => some { s with pool := s.pool.closeStream iovMax h results }
  | .closeLater h results => some { s with pool := s.pool.closeLater iovMax h results }
  | .setError h err => some { s with pool := s.pool.setError h err }
  | .timeout h sfd => some (s.timeout h sfd)
  | .consume h n => some { s with pool := s.pool.handle h fun e => { e with recvq := e.recvq.drop n } }
  | .writes => if s.idle then some { s with pool := { s.pool with trials := [] }, pending := s.pool.trials } else none
  | .trial r =>
    match s.rest, s.pending with
    | none, fd :: pending => some ({ s with pending := pending }.trial bufferSize fd r)
    | _, _ => none
  | .wait reports => if s.idle then some (s.wait reports) else none
  | .event r =>
    match s.rest, s.batch with
    | none, (h, report) :: batch => some ({ s with batch := batch }.event bufferSize h report r)
    | _, _ => none
  | .pendingWrites results =>
    match s.rest with
    | some rest =>
      let t := { s with rest := none }
      if rest.check = true ∧ s.pool.getReference rest.fd ≠ some rest.handler ∨ rest.due = false then some t
      else some { t with pool := s.pool.onPendingWrites iovMax rest.handler results }
    | none => none
  | .arrive fd => some { s with pool := s.pool.syscall fd fun d => { d with unread := true, inputEdge := true } }
  | .drain fd => some { s with pool := s.pool.syscall fd fun d => { d with room := true, outputEdge := true } }

def machine : Machine Server Event where
  initial s := s = {}
  next := next iovMax bufferSize

/-! ## What the kernel promises -/

/-- A socket that takes less than it is offered, or would block, has no room left; the loop runs to its end. -/
def Answers : StreamSocket → List (WriteResult × Bool) → Prop
  | s, [] => s.writes = false
  | s, (r, left) :: results =>
    s.writes = true →
      (∀ n, r.accepted = some n → n ≤ (s.offered iovMax).length ∧ n < 2 ^ 31 ∧
        (n < (s.offered iovMax).length → left = false)) ∧
      (r.accepted = none → r.errno = .again → left = false) ∧ Answers (s.write iovMax r) results

/-- A `recv` that does not fill the buffer, or would block, has left nothing to be read; an error has a text. -/
def Drains (r : Received) : Prop :=
  match r.data with
  | some data => 0 < data.length → data.length ≠ bufferSize → r.unread = false
  | none => (r.errno = .again → r.unread = false) ∧ r.errno ≠ .other []

/-- A constructed handler is no object that the loops still hold, and its descriptor is used by no other. -/
def Fresh (s : Server) (h fd : ℕ) : Prop :=
  (∀ e ∈ s.batch, e.1 ≠ h) ∧ (∀ rest, s.rest = some rest → rest.handler ≠ h) ∧
    (s.pool.handlers h).fd = none ∧ ∀ h', (s.pool.handlers h').fd ≠ some fd

def Promised (s : Server) : Event → Prop
  | .attach h fd .. => Fresh s h fd
  | .tryLink h fd _ => Fresh s h fd
  | .pendingWrites results =>
    ∀ rest, s.rest = some rest → Answers iovMax (unsent (s.pool.handlers rest.handler)) results
  | .trial r => Drains bufferSize r
  | .event r => Drains bufferSize r
  | .wait reports => ∀ x ∈ reports, x.2.err ≠ some []
  | _ => True

end BerylDB.SocketPool
