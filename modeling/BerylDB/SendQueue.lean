import BerylDB.Text
import BerylDB.Transition

/-! # The send queue

`send_queue` and `Dispatchsend_queue` of a `StreamSocket`, and the bytes that its socket has accepted. -/
namespace BerylDB.Sockets
open Text

/-- `send_queue`: the elements that wait, and their bytes. -/
structure SendQueue where
  data : List Bytes := []
  nbytes : ℕ := 0
deriving DecidableEq

namespace SendQueue

def empty (sq : SendQueue) : Bool := sq.nbytes = 0

def pushBack (sq : SendQueue) (newdata : Bytes) : SendQueue := ⟨sq.data ++ [newdata], sq.nbytes + newdata.length⟩

def clear : SendQueue := {}

/-- The loop over `pop_front` and `erase_front`, for `rv` bytes. -/
def consume : List Bytes → (nbytes rv : ℕ) → SendQueue
  | [], nbytes, _ => ⟨[], nbytes⟩
  | front :: rest, nbytes, rv =>
    if rv = 0 ∨ nbytes = 0 then ⟨front :: rest, nbytes⟩
    else if front.length ≤ rv then consume rest (nbytes - front.length) (rv - front.length)
    else ⟨front.drop rv :: rest, nbytes - rv⟩

end SendQueue

/-- `errno` after a call. -/
inductive Errno where
  | again
  | interrupted
  | other (message : Bytes)
deriving DecidableEq

/-- The result of `writev`: how many bytes the socket accepted, or `none` for -1. -/
structure WriteResult where
  accepted : Option ℕ
  errno : Errno
deriving DecidableEq

/-- What `WriteV` returns, as an `int`. -/
def WriteResult.rv (r : WriteResult) : ℤ :=
  match r.accepted with
  | some n => toSigned n
  | none => -1

/-- A socket with all that was appended to its queue and all that was accepted of it; `blocked` is `Q_WRITE_BLOCK`. -/
structure StreamSocket where
  sendq : SendQueue := {}
  error : Bytes := []
  blocked : Bool := false
  appended : Bytes := []
  accepted : Bytes := []
deriving DecidableEq

namespace StreamSocket

/-- `use_iov_max`. -/
def useIovMax (iovMax : ℕ) : ℕ := if iovMax < 128 then iovMax else 128

variable (iovMax : ℕ)

/-- The bytes of the elements that are offered at once. -/
def offered (s : StreamSocket) : Bytes := (s.sendq.data.take (useIovMax iovMax)).flatten

/-- The condition of the loop. -/
def writes (s : StreamSocket) : Bool := !s.blocked && s.error = [] && !s.sendq.empty

/-- The queue and the flags after one round of the loop. -/
def handle (s : StreamSocket) (r : WriteResult) : StreamSocket :=
  if r.rv = toSigned s.sendq.nbytes then { s with sendq := .clear }
  else if r.rv > 0 then
    { s with
      sendq := .consume s.sendq.data s.sendq.nbytes r.rv.toNat
      blocked := r.rv < toSigned (s.offered iovMax).length }
  else if r.rv = 0 then { s with error := lit "Connection closed" }
  else
    match r.errno with
    | .again => { s with blocked := true }
    | .interrupted => s
    | .other message => { s with error := message }

/-- The socket takes what it accepts from the front of what is offered. -/
def take (s : StreamSocket) (r : WriteResult) : StreamSocket :=
  { s with accepted := s.accepted ++ (s.offered iovMax).take (r.accepted.getD 0) }

/-- One round of the loop. -/
def write (s : StreamSocket) (r : WriteResult) : StreamSocket := (s.take iovMax r).handle iovMax r

/-- `Dispatchsend_queue`, as far as there are results. -/
def dispatchSendQueue (s : StreamSocket) : List WriteResult → StreamSocket
  | [] => s
  | r :: results => if s.writes then (s.write iovMax r).dispatchSendQueue results else s

/-- `AppendBuffer`. -/
def appendBuffer (s : StreamSocket) (data : Bytes) : StreamSocket :=
  { s with sendq := s.sendq.pushBack data, appended := s.appended ++ data }

end StreamSocket

/-- A buffer is appended, a result comes for a round of the loop, or the socket is ready for more. -/
inductive Event where
  | append (data : Bytes)
  | write (r : WriteResult)
  | ready
deriving DecidableEq

namespace StreamSocket

variable (iovMax : ℕ)

def step (s : StreamSocket) : Event → StreamSocket
  | .append data => s.appendBuffer data
  | .write r => if s.writes then s.write iovMax r else s
  | .ready => { s with blocked := false }

def run (s : StreamSocket) (events : List Event) : StreamSocket := events.foldl (step iovMax) s

/-- What was accepted and what waits is what was appended, and the counter is the number of bytes that wait. -/
structure Intact (s : StreamSocket) : Prop where
  delivered : s.accepted ++ s.sendq.data.flatten = s.appended
  counted : s.sendq.nbytes = s.sendq.data.flatten.length

/-- A result between 1 and the bytes that are offered, or one that would block or was interrupted. -/
def Fair (s : StreamSocket) (r : WriteResult) : Prop :=
  match r.accepted with
  | some n => 1 ≤ n ∧ n ≤ (s.offered iovMax).length
  | none => r.errno = .again ∨ r.errno = .interrupted

/-- The results of the rounds of a run are fair. -/
def FairAll (s : StreamSocket) (events : List Event) : Prop :=
  Transition.Along (step iovMax) (fun s e => ∀ r, e = .write r → s.writes = true → s.Fair iovMax r) s events

/-- The result of a round is not mistaken for another one when it and the counter become an `int`. -/
def Allows (s : StreamSocket) : Event → Prop
  | .write r => s.writes = true → match r.accepted with
    | some n => n = s.sendq.nbytes ∨ n < 2 ^ 31 ∧ s.sendq.nbytes % 2 ^ 32 ≠ n
    | none => s.sendq.nbytes % 2 ^ 32 ≠ 2 ^ 32 - 1
  | _ => True

def AllowsAll (s : StreamSocket) (events : List Event) : Prop := Transition.Along (step iovMax) Allows s events

variable {iovMax} {s : StreamSocket} {r : WriteResult} {n : ℕ}

/-- A call of `Dispatchsend_queue` is a run of its rounds. -/
theorem dispatchSendQueue_eq (results : List WriteResult) :
    s.dispatchSendQueue iovMax results = s.run iovMax (results.map .write) := by
  induction results generalizing s with
  | nil => rfl
  | cons r results ih =>
    rw [dispatchSendQueue, List.map_cons]
    unfold run at ih ⊢
    rw [List.foldl_cons, step, ← ih]
    split
    · rfl
    · rename_i idle
      cases results with
      | nil => rfl
      | cons r' results => rw [dispatchSendQueue, if_neg idle]

/-! ## Numbers of 32 bits -/

/-- A count keeps its value as an `int` when it is small, and otherwise becomes a smaller number. -/
theorem toSigned_small (small : n < 2 ^ 31) : toSigned n = n :=
  Int.bmod_eq_of_le (by omega) (by omega)

theorem toSigned_large (large : 2 ^ 31 ≤ n) : toSigned n < n := lt_of_lt_of_le (toSigned_lt n) (by exact_mod_cast large)

theorem toSigned_toNat_lt (large : 2 ^ 31 ≤ n) : (toSigned n).toNat < n := by
  have less := toSigned_large large
  have waiting : 0 < n := lt_of_lt_of_le (by decide) large
  generalize toSigned n = m at less
  clear large
  omega

theorem toSigned_eq_iff {m n : ℤ} : toSigned m = toSigned n ↔ m % 2 ^ 32 = n % 2 ^ 32 := by
  have width : (2 : ℤ) ^ 32 = (4294967296 : ℕ) := by norm_num
  unfold toSigned
  rw [width]
  constructor <;> intro same
  · rw [← Int.bmod_emod (x := m), same, Int.bmod_emod]
  · rw [← Int.emod_bmod (x := m), same, Int.emod_bmod]

/-! ## One round -/

/-- The loop over the front takes as many bytes as it is given. -/
theorem consume_eq (data : List Bytes) {total rv : ℕ} (counted : total = data.flatten.length) (few : rv ≤ total) :
    (SendQueue.consume data total rv).data.flatten = data.flatten.drop rv ∧
      (SendQueue.consume data total rv).nbytes = total - rv := by
  induction data generalizing total rv with
  | nil =>
    have none : total = 0 := counted
    simp [SendQueue.consume, none]
  | cons front rest ih =>
    rw [List.flatten_cons, List.length_append] at counted
    unfold SendQueue.consume
    split
    · have none : rv = 0 := by omega
      simp [none]
    · split
      · rename_i whole
        have later : total - front.length = rest.flatten.length := by omega
        have fewer : rv - front.length ≤ total - front.length := by omega
        obtain ⟨left, count⟩ := ih later fewer
        refine ⟨?_, ?_⟩
        · rw [left, List.flatten_cons, List.drop_append, List.drop_of_length_le whole, List.nil_append]
        · omega
      · rename_i cut
        refine ⟨?_, rfl⟩
        rw [List.flatten_cons, List.flatten_cons, List.drop_append_of_le_length (by omega)]

/-- What a round does to the bytes and to the queue. -/
theorem write_fields : (s.write iovMax r).accepted = s.accepted ++ (s.offered iovMax).take (r.accepted.getD 0) ∧
    (s.write iovMax r).appended = s.appended ∧ (s.write iovMax r).sendq =
      if r.rv = toSigned s.sendq.nbytes then .clear
      else if r.rv > 0 then .consume s.sendq.data s.sendq.nbytes r.rv.toNat
      else s.sendq := by
  unfold write handle
  rw [show (s.take iovMax r).sendq = s.sendq from rfl]
  split_ifs
  · exact ⟨rfl, rfl, rfl⟩
  · exact ⟨rfl, rfl, rfl⟩
  · exact ⟨rfl, rfl, rfl⟩
  · split <;> exact ⟨rfl, rfl, rfl⟩

theorem offered_take (bound : n ≤ (s.offered iovMax).length) :
    (s.offered iovMax).take n = s.sendq.data.flatten.take n := by
  have whole : s.offered iovMax ++ (s.sendq.data.drop (useIovMax iovMax)).flatten = s.sendq.data.flatten := by
    rw [offered, ← List.flatten_append, List.take_append_drop]
  rw [← whole, List.take_append_of_le_length bound]

/-- After a round the rest of the queue has to be what was not accepted. -/
theorem write_intact_iff (h : s.Intact) (bound : r.accepted.getD 0 ≤ (s.offered iovMax).length) :
    (s.write iovMax r).Intact ↔
      (s.write iovMax r).sendq.data.flatten = s.sendq.data.flatten.drop (r.accepted.getD 0) ∧
        (s.write iovMax r).sendq.nbytes = (s.write iovMax r).sendq.data.flatten.length := by
  have accepted : (s.write iovMax r).accepted = _ := write_fields.1
  have appended : (s.write iovMax r).appended = _ := write_fields.2.1
  have rest (left : Bytes) : s.accepted ++ s.sendq.data.flatten.take (r.accepted.getD 0) ++ left = s.appended ↔
      left = s.sendq.data.flatten.drop (r.accepted.getD 0) := by
    rw [← h.delivered, List.append_assoc, List.append_cancel_left_eq]
    nth_rewrite 2 [← List.take_append_drop (r.accepted.getD 0) s.sendq.data.flatten]
    rw [List.append_cancel_left_eq]
  constructor
  · rintro ⟨delivered, counted⟩
    rw [accepted, appended, offered_take bound] at delivered
    exact ⟨(rest _).mp delivered, counted⟩
  · rintro ⟨left, counted⟩
    refine ⟨?_, counted⟩
    rw [accepted, appended, offered_take bound]
    exact (rest _).mpr left

/-- A round that would block or was interrupted. -/
theorem write_none (h : s.Intact) (writes : s.writes = true) (none : r.accepted = none) :
    (s.write iovMax r).Intact ↔ s.sendq.nbytes % 2 ^ 32 ≠ 2 ^ 32 - 1 := by
  have waiting : s.sendq.nbytes ≠ 0 := by
    intro zero
    simp [StreamSocket.writes, SendQueue.empty, zero] at writes
  have rv : r.rv = -1 := by rw [WriteResult.rv, none]
  rw [write_intact_iff h (by simp [none]), write_fields.2.2, rv, none, Option.getD_none, List.drop_zero]
  have mistaken : -1 = toSigned s.sendq.nbytes ↔ s.sendq.nbytes % 2 ^ 32 = 2 ^ 32 - 1 := by
    rw [show (-1 : ℤ) = toSigned (-1) from by decide, toSigned_eq_iff]
    omega
  rw [Ne, ← mistaken]
  by_cases cleared : -1 = toSigned s.sendq.nbytes
  · rw [if_pos cleared]
    refine iff_of_false (fun same => waiting ?_) (not_not.mpr cleared)
    rw [h.counted, ← same.1]
    rfl
  · rw [if_neg cleared, if_neg (by decide)]
    exact iff_of_true ⟨rfl, h.counted⟩ cleared

/-- A round in which the socket accepts some of the bytes. -/
theorem write_some (h : s.Intact) (accepted : r.accepted = some n) (low : 1 ≤ n) (high : n ≤ (s.offered iovMax).length) :
    (s.write iovMax r).Intact ↔ n = s.sendq.nbytes ∨ n < 2 ^ 31 ∧ s.sendq.nbytes % 2 ^ 32 ≠ n := by
  have few : n ≤ s.sendq.nbytes := by
    rw [h.counted]
    have sub := (List.take_sublist (useIovMax iovMax) s.sendq.data).flatten.length_le
    exact high.trans sub
  have rv : r.rv = toSigned n := by rw [WriteResult.rv, accepted]
  have mistaken : toSigned n = toSigned s.sendq.nbytes ↔ n % 2 ^ 32 = s.sendq.nbytes % 2 ^ 32 := by
    rw [toSigned_eq_iff]
    norm_cast
  have own (small : n < 2 ^ 31) : n % 2 ^ 32 = n := Nat.mod_eq_of_lt (small.trans (by decide))
  have rest : (s.sendq.data.flatten.drop n).length = s.sendq.nbytes - n := by rw [List.length_drop, h.counted]
  rw [write_intact_iff h (by simpa [accepted] using high), write_fields.2.2, rv, accepted, Option.getD_some]
  by_cases cleared : toSigned n = toSigned s.sendq.nbytes
  · rw [if_pos cleared]
    constructor
    · rintro ⟨same, -⟩
      have none : s.sendq.nbytes - n = 0 := by rw [← rest, ← same]; rfl
      exact .inl (le_antisymm few (Nat.sub_eq_zero_iff_le.mp none))
    · rintro (whole | ⟨small, other⟩)
      · refine ⟨?_, rfl⟩
        rw [List.drop_of_length_le (by rw [← h.counted, whole])]
        rfl
      · exact absurd ((mistaken.mp cleared).symm.trans (own small)) other
  rw [if_neg cleared]
  by_cases small : n < 2 ^ 31
  · have read : toSigned n = n := toSigned_small small
    obtain ⟨left, count⟩ := consume_eq s.sendq.data h.counted few
    rw [read, if_pos (by omega), Int.toNat_natCast, left, count]
    refine iff_of_true ⟨rfl, ?_⟩ (.inr ⟨small, fun same => cleared (mistaken.mpr ((own small).trans same.symm))⟩)
    rw [rest]
  · have other : ¬ (n = s.sendq.nbytes ∨ n < 2 ^ 31 ∧ s.sendq.nbytes % 2 ^ 32 ≠ n) := by
      rintro (whole | ⟨small', -⟩)
      · exact cleared (by rw [whole])
      · exact small small'
    have less : (toSigned n).toNat < n := toSigned_toNat_lt (not_lt.mp small)
    refine iff_of_false (fun same => ?_) other
    have lengths := congrArg List.length same.1
    rw [rest] at lengths
    split at lengths
    · rw [(consume_eq s.sendq.data h.counted (less.le.trans few)).1, List.length_drop, ← h.counted] at lengths
      generalize (toSigned n).toNat = m at less lengths
      omega
    · rw [← h.counted] at lengths
      omega

/-! ## Runs -/

/-- A step keeps the bytes intact if and only if it is allowed. -/
theorem step_intact (h : s.Intact) (e : Event) (fair : ∀ r, e = .write r → s.writes = true → s.Fair iovMax r) :
    (s.step iovMax e).Intact ↔ s.Allows e := by
  cases e with
  | append data =>
    refine iff_of_true ⟨?_, ?_⟩ trivial
    · change s.accepted ++ (s.sendq.data ++ [data]).flatten = s.appended ++ data
      simp [← h.delivered]
    · change s.sendq.nbytes + data.length = (s.sendq.data ++ [data]).flatten.length
      simp [h.counted]
  | ready => exact iff_of_true ⟨h.delivered, h.counted⟩ trivial
  | write r =>
    change (if s.writes then s.write iovMax r else s).Intact ↔ (s.writes = true → _)
    by_cases writes : s.writes = true
    · rw [if_pos writes, forall_prop_of_true writes]
      have fair := fair r rfl writes
      unfold Fair at fair
      cases accepted : r.accepted with
      | some n =>
        simp only [accepted] at fair ⊢
        exact write_some h accepted fair.1 fair.2
      | none => exact write_none h writes accepted
    · rw [if_neg writes]
      exact iff_of_true h fun writes' => absurd writes' writes

theorem run_intact (events : List Event) (h : s.Intact) (fair : s.FairAll iovMax events) :
    (∀ past, past <+: events → (s.run iovMax past).Intact) ↔ s.AllowsAll iovMax events := by
  have exactly : Transition.Exact (step iovMax) (FairAll iovMax) Intact Allows :=
    { keeps := fun _ _ _ fair => fair.2
      judges := fun _ e _ fair h => step_intact h e fair.1 }
  exact exactly.prefixes events fair h

end StreamSocket

/-- After every event of a run what was accepted and what waits is what was appended, if and only if no result of a round
is mistaken for another one as an `int`. -/
theorem output_intact_iff (iovMax : ℕ) (events : List Event) (fair : StreamSocket.FairAll iovMax {} events) :
    (∀ past, past <+: events → (StreamSocket.run iovMax {} past).Intact) ↔ StreamSocket.AllowsAll iovMax {} events :=
  StreamSocket.run_intact events ⟨rfl, rfl⟩ fair

theorem output_intact_two : (StreamSocket.run 1024 {} [.append (lit "ab"), .write ⟨some 1, .again⟩]).Intact := by
  refine (output_intact_iff 1024 [.append (lit "ab"), .write ⟨some 1, .again⟩]
    ⟨(fun r same => nomatch same), fun r same writes => ?_, trivial⟩).mpr
    ⟨trivial, fun _ => .inr ⟨by decide, by decide⟩, trivial⟩ _ (List.prefix_refl _)
  cases same
  exact ⟨by decide, by decide⟩

/-- A queue of 2^32 + 1 bytes is cleared when the socket accepts the first byte. -/
theorem output_lost : ∃ data : Bytes, data.length = 2 ^ 32 + 1 ∧
    StreamSocket.FairAll 1024 {} [.append data, .write ⟨some 1, .again⟩] ∧
    ¬ (StreamSocket.run 1024 {} [.append data, .write ⟨some 1, .again⟩]).Intact := by
  obtain ⟨data, long⟩ : ∃ data : Bytes, data.length = 2 ^ 32 + 1 :=
    ⟨List.replicate (2 ^ 32 + 1) 97, List.length_replicate⟩
  have held : (StreamSocket.appendBuffer {} data).Intact := ⟨by simp [StreamSocket.appendBuffer, SendQueue.pushBack],
    by simp [StreamSocket.appendBuffer, SendQueue.pushBack]⟩
  have bytes : (StreamSocket.appendBuffer {} data).sendq.nbytes = 2 ^ 32 + 1 := (Nat.zero_add _).trans long
  have writes : (StreamSocket.appendBuffer {} data).writes = true := by
    unfold StreamSocket.writes SendQueue.empty
    rw [bytes]
    rfl
  have offered : 1 ≤ ((StreamSocket.appendBuffer {} data).offered 1024).length := by
    change 1 ≤ ([data].flatten).length
    rw [List.flatten_singleton, long]
    omega
  refine ⟨data, long, ⟨(fun r same => nomatch same), fun r same _ => ?_, trivial⟩, fun intact => ?_⟩
  · cases same
    exact ⟨le_rfl, offered⟩
  · change (if (StreamSocket.appendBuffer {} data).writes then
      (StreamSocket.appendBuffer {} data).write 1024 ⟨some 1, .again⟩ else _).Intact at intact
    rw [if_pos writes, StreamSocket.write_some held rfl le_rfl offered, bytes] at intact
    omega

end BerylDB.Sockets
