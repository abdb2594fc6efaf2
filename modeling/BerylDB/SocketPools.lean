import BerylDB.SendQueue
import Mathlib.Data.Finset.SDiff
import Mathlib.Logic.Function.Basic

/-! # The socket pool

`SocketPool` on epoll, and the sockets that it serves.  The kernel holds what a descriptor is watched for, whether it has
bytes to read and room to write, and which of the two it has not reported since they came about. -/
namespace BerylDB.SocketPool
open Text Sockets

/-- `EventMask`, one flag for each bit. -/
inductive Flag where
  | noRead | reqPoolRead | fastRead | edgeRead
  | noWrite | reqPollWrite | fastWrite | edgeWrite | singleWrite
  | addTrialRead | readWillBlock | addWriteTrial | writeBlock
deriving DecidableEq

abbrev EventMask := Finset Flag

def reqReadMask : EventMask := {.noRead, .reqPoolRead, .fastRead, .edgeRead}

def reqWriteMask : EventMask := {.noWrite, .reqPollWrite, .fastWrite, .edgeWrite, .singleWrite}

def trialNoteMask : EventMask := {.addTrialRead, .addWriteTrial}

/-- `EPOLLET`, `EPOLLIN` and `EPOLLOUT` of a registration. -/
structure EpollEvents where
  edge : Bool
  input : Bool
  output : Bool
deriving DecidableEq

/-- `SetMask`. -/
def setMask (reqMask : EventMask) : EpollEvents :=
  if reqMask ∩ {.reqPoolRead, .reqPollWrite, .singleWrite} ≠ ∅ then
    ⟨false, reqMask ∩ {.reqPoolRead, .fastRead} ≠ ∅, reqMask ∩ {.reqPollWrite, .fastWrite, .singleWrite} ≠ ∅⟩
  else ⟨true, reqMask ∩ {.fastRead, .edgeRead} ≠ ∅, reqMask ∩ {.fastWrite, .edgeWrite} ≠ ∅⟩

/-- The mask that `EventSwitch` makes. -/
def switchMask (old change : EventMask) : EventMask :=
  let read := if change ∩ reqReadMask ≠ ∅ then old \ reqReadMask else old
  let write := if change ∩ reqWriteMask ≠ ∅ then read \ reqWriteMask else read
  write ∪ change

/-- A `StreamSocket` with its `EventHandler`; `fd` is `none` for -1, and `connecting` is the state S_CONNECTING. -/
structure Handler where
  fd : Option ℕ := none
  reqMask : EventMask := ∅
  stream : StreamSocket := {}
  recvq : Bytes := []
  closing : Bool := false
  closeonempty : Bool := false
  connecting : Bool := false
deriving DecidableEq

/-- A descriptor in the kernel. -/
structure Descriptor where
  interest : Option (EpollEvents × ℕ) := none
  unread : Bool := false
  room : Bool := false
  inputEdge : Bool := false
  outputEdge : Bool := false
deriving DecidableEq

structure Pool where
  ref : List (Option ℕ) := []
  fdSize : ℕ := 0
  trials : List ℕ := []
  handlers : ℕ → Handler := fun _ => {}
  kernel : ℕ → Descriptor := fun _ => {}

namespace Pool

def handle (p : Pool) (h : ℕ) (f : Handler → Handler) : Pool :=
  { p with handlers := Function.update p.handlers h (f (p.handlers h)) }

def syscall (p : Pool) (fd : ℕ) (f : Descriptor → Descriptor) : Pool :=
  { p with kernel := Function.update p.kernel fd (f (p.kernel fd)) }

def setReqMask (p : Pool) (h : ℕ) (mask : EventMask) : Pool := p.handle h fun e => { e with reqMask := mask }

/-! ## References -/

def getReference (p : Pool) (fd : ℕ) : Option ℕ := p.ref[fd]?.join

def hasFileDesc (p : Pool) (fd : ℕ) : Bool := (p.getReference fd).isSome

/-- The loop over `resize`, which adds at least one place each time. -/
def resizeFor (fd : ℕ) : ℕ → List (Option ℕ) → List (Option ℕ)
  | 0, ref => ref
  | n + 1, ref =>
    if fd ≥ ref.length then resizeFor fd n (ref ++ List.replicate (if ref.length = 0 then 1 else ref.length) none)
    else ref

def attachFileDescRef (p : Pool) (h fd : ℕ) : Option Pool :=
  if p.hasFileDesc fd then none
  else some { p with ref := (resizeFor fd (fd + 1) p.ref).set fd (some h), fdSize := p.fdSize + 1 }

def deleteFileDescRef (p : Pool) (h fd : ℕ) : Pool :=
  if p.getReference fd = some h then { p with ref := p.ref.set fd none, fdSize := p.fdSize - 1 } else p

/-! ## Calls of epoll -/

/-- The kernel looks at a descriptor anew when its events are set. -/
def watch (events : EpollEvents) (h : ℕ) (d : Descriptor) : Descriptor :=
  { d with interest := some (events, h), inputEdge := d.unread, outputEdge := d.room }

/-- `AddDescriptor` for a handler that has the descriptor; `ok` says whether `EPOLL_CTL_ADD` succeeds. -/
def addDescriptor (p : Pool) (h fd : ℕ) (mask : EventMask) (ok : Bool) : Pool :=
  match p.attachFileDescRef h fd with
  | none => p
  | some q => if ok then (q.syscall fd (watch (setMask mask) h)).setReqMask h mask else q

def onMaskReq (p : Pool) (h : ℕ) (oldMask newMask : EventMask) : Pool :=
  if setMask oldMask = setMask newMask then p
  else
    match (p.handlers h).fd with
    | some fd => if (p.kernel fd).interest = none then p else p.syscall fd (watch (setMask newMask) h)
    | none => p

/-- `trials.insert`, into a sorted set. -/
def insertTrial (fd : ℕ) : List ℕ → List ℕ
  | [] => [fd]
  | a :: trials => if fd < a then fd :: a :: trials else if fd = a then a :: trials else a :: insertTrial fd trials

def noteTrial (p : Pool) (h : ℕ) : Pool :=
  match (p.handlers h).fd with
  | some fd => { p with trials := insertTrial fd p.trials }
  | none => p

def eventSwitch (p : Pool) (h : ℕ) (change : EventMask) : Pool :=
  let old := (p.handlers h).reqMask
  let p := if change ∩ trialNoteMask ≠ ∅ ∧ old ∩ trialNoteMask = ∅ then p.noteTrial h else p
  if switchMask old change = old then p
  else (p.setReqMask h (switchMask old change)).onMaskReq h old (switchMask old change)

/-- `SocketPool::Close`: the kernel forgets the descriptor. -/
def closeDescriptor (p : Pool) (h : ℕ) : Pool :=
  match (p.handlers h).fd with
  | some fd => ((p.deleteFileDescRef h fd).syscall fd fun _ => {}).handle h fun e => { e with fd := none }
  | none => p

/-! ## Streams -/

/-- The queue of a handler, blocked as its mask says. -/
def unsent (e : Handler) : StreamSocket := { e.stream with blocked := Flag.writeBlock ∈ e.reqMask }

/-- Whether there is room after the rounds of a dispatch; each comes with the room that is left behind it. -/
def roomAfter (iovMax : ℕ) (room : Bool) : StreamSocket → List (WriteResult × Bool) → Bool
  | _, [] => room
  | s, (r, left) :: results => if s.writes then roomAfter iovMax left (s.write iovMax r) results else room

/-- What the mask becomes behind the rounds. -/
def eventChange (s : StreamSocket) : EventMask :=
  if s.error ≠ [] then {.noRead, .noWrite} else if s.blocked then {.fastWrite, .writeBlock} else {.edgeWrite}

variable (iovMax bufferSize : ℕ)

/-- `Dispatchsend_queue`. -/
def dispatchSendQueue (p : Pool) (h fd : ℕ) (results : List (WriteResult × Bool)) : Pool :=
  let s := unsent (p.handlers h)
  if s.blocked then p
  else
    let sent := s.dispatchSendQueue iovMax (results.map Prod.fst)
    ((p.syscall fd fun d => { d with room := roomAfter iovMax (p.kernel fd).room s results }).handle h fun e =>
      { e with stream := sent }).eventSwitch h (eventChange sent)

/-- `QueueWrite`, with what it does when the queue is empty and the socket waits for that to be closed. -/
def queueWriteThen (close : Pool → Pool) (p : Pool) (h : ℕ) (results : List (WriteResult × Bool)) : Pool :=
  let e := p.handlers h
  if e.stream.sendq.nbytes = 0 then if e.closeonempty then close p else p
  else
    match e.fd with
    | none => p
    | some fd =>
      if e.stream.error ≠ [] then p
      else
        let q := p.dispatchSendQueue iovMax h fd results
        if (q.handlers h).stream.sendq.nbytes = 0 ∧ (q.handlers h).closeonempty = true then close q else q

/-- `StreamSocket::Close`; when `QueueWrite` calls it again it returns at once. -/
def closeStream (p : Pool) (h : ℕ) (results : List (WriteResult × Bool)) : Pool :=
  if (p.handlers h).closing then p
  else
    let q := p.handle h fun e => { e with closing := true }
    if (q.handlers h).fd = none then q else (q.queueWriteThen iovMax id h results).closeDescriptor h

/-- `QueueWrite`; the queue is empty when it closes the socket. -/
def queueWrite (p : Pool) (h : ℕ) (results : List (WriteResult × Bool)) : Pool :=
  p.queueWriteThen iovMax (fun q => q.closeStream iovMax h []) h results

/-- `Close(true)`. -/
def closeLater (p : Pool) (h : ℕ) (results : List (WriteResult × Bool)) : Pool :=
  if (p.handlers h).stream.sendq.nbytes ≠ 0 then p.handle h fun e => { e with closeonempty := true }
  else p.closeStream iovMax h results

def appendBuffer (p : Pool) (h : ℕ) (data : Bytes) : Pool :=
  if (p.handlers h).fd = none then p
  else (p.handle h fun e => { e with stream := e.stream.appendBuffer data }).eventSwitch h {.addWriteTrial}

def setError (p : Pool) (h : ℕ) (err : Bytes) : Pool :=
  p.handle h fun e =>
    if e.stream.error = [] then { e with stream := { e.stream with error := err } } else e

/-- The result of `recv`, with whether bytes are left to be read. -/
structure Received where
  data : Option Bytes
  errno : Errno
  unread : Bool
deriving DecidableEq

/-- `ProcessRevQueue`. -/
def processRevQueue (p : Pool) (h fd : ℕ) (r : Received) : Pool :=
  let p := p.syscall fd fun d => { d with unread := r.unread }
  match r.data with
  | some data =>
    if data.length = bufferSize then
      (p.eventSwitch h {.fastRead, .addTrialRead}).handle h fun e => { e with recvq := e.recvq ++ data }
    else if data.length > 0 then
      (p.eventSwitch h {.fastRead}).handle h fun e => { e with recvq := e.recvq ++ data }
    else (p.handle h fun e => { e with stream := { e.stream with error := lit "Connection closed" } }).eventSwitch h
      {.noRead, .noWrite}
  | none =>
    match r.errno with
    | .again => p.eventSwitch h {.fastRead, .readWillBlock}
    | .interrupted => p.eventSwitch h {.fastRead, .addTrialRead}
    | .other message =>
      (p.handle h fun e => { e with stream := { e.stream with error := message } }).eventSwitch h {.noRead, .noWrite}

/-- `StreamSocket::OnPendingRead`; what `StreamData` and `OnError` do follows as events of their own. -/
def onPendingRead (p : Pool) (h fd : ℕ) (r : Received) : Pool :=
  if (p.handlers h).stream.error ≠ [] then p else p.processRevQueue bufferSize h fd r

/-- `LiveSocket::OnPendingWrites`. -/
def onPendingWrites (p : Pool) (h : ℕ) (results : List (WriteResult × Bool)) : Pool :=
  let p :=
    if (p.handlers h).connecting then
      (p.handle h fun e => { e with connecting := false }).eventSwitch h {.fastRead, .edgeWrite}
    else p
  if (p.handlers h).stream.error ≠ [] then p else p.queueWrite iovMax h results

end Pool

end BerylDB.SocketPool
