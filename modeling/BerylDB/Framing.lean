import BerylDB.Delimited
import BerylDB.Text
import BerylDB.Transition

/-! # Line framing

`InstanceStream::StreamData` of `instances.cpp` and `StreamSocket::StreamRead` of `sbuffer.cpp`. -/
namespace BerylDB.Protocol
open Text Transition Delimited

/-- What `ProcessBuffer` does to the server, and whether the client is quitting in it. -/
structure Host (σ : Type) where
  processBuffer : σ → Bytes → σ
  isQuitting : σ → Bool

/-- A client with the bytes that it has sent so far and the lines that `ProcessBuffer` was given. -/
structure InstanceStream (σ : Type) where
  server : σ
  recvq : Bytes
  checkedUntil : ℕ
  received : Bytes
  processed : List Bytes
deriving DecidableEq

/-- `recvq.find('\n', checked_until)`. -/
def findNewline (recvq : Bytes) (pos : ℕ) : Option ℕ := ((recvq.drop pos).findIdx? (· == 10)).map (pos + ·)

/-- The line without CR, and with a space for each NUL. -/
def clean (segment : Bytes) : Bytes :=
  segment.filterMap fun c => if c = 0 then some 32 else if c = 13 then none else some c

theorem findNewline_none {recvq : Bytes} {pos : ℕ} (missing : findNewline recvq pos = none) : 10 ∉ recvq.drop pos := by
  have none := List.findIdx?_eq_none_iff.mp (Option.map_eq_none_iff.mp missing)
  exact fun here => absurd (none 10 here) (by decide)

theorem findNewline_some {recvq : Bytes} {pos ipos : ℕ} (found : findNewline recvq pos = some ipos) :
    recvq = recvq.take ipos ++ 10 :: recvq.drop (ipos + 1) ∧ 10 ∉ (recvq.take ipos).drop pos := by
  obtain ⟨i, here, rfl⟩ := Option.map_eq_some_iff.mp found
  obtain ⟨bound, newline, before⟩ := List.findIdx?_eq_some_iff_getElem.mp here
  rw [List.length_drop] at bound
  have inside : pos + i < recvq.length := by omega
  have byte : recvq[pos + i] = 10 := by simpa using newline
  constructor
  · rw [← byte, List.getElem_cons_drop, List.take_append_drop]
  · rw [List.drop_take, Nat.add_sub_cancel_left]
    intro earlier
    obtain ⟨j, short, same⟩ := List.getElem_of_mem earlier
    rw [List.length_take] at short
    have newline' := before j (by omega)
    rw [List.getElem_take] at same
    simp [same] at newline'

namespace InstanceStream

variable {σ : Type} (h : Host σ)

def streamLoop (s : InstanceStream σ) : InstanceStream σ :=
  match _found : findNewline s.recvq s.checkedUntil with
  | none => { s with checkedUntil := s.recvq.length }
  | some ipos =>
    let line := clean (s.recvq.take ipos)
    let s' := { s with
      server := h.processBuffer s.server line
      recvq := s.recvq.drop (ipos + 1)
      checkedUntil := 0
      processed := s.processed ++ [line] }
    if h.isQuitting s'.server then s' else streamLoop s'
termination_by s.recvq.length
decreasing_by
  have split := congrArg List.length (findNewline_some _found).1
  simp only [List.length_append, List.length_cons] at split
  omega

/-- `StreamData`; the size of the send queue stays below `ULONG_MAX`. -/
def streamData (s : InstanceStream σ) : InstanceStream σ := if h.isQuitting s.server then s else s.streamLoop h

/-- `StreamRead` with the bytes that one call of `recv` brings. -/
def streamRead (s : InstanceStream σ) (bytes : Bytes) : InstanceStream σ :=
  let s := { s with
    recvq := s.recvq ++ bytes
    received := s.received ++ bytes }
  if bytes = [] then s else s.streamData h

end InstanceStream

/-- Reads, the calls of `ClientManager::Flush`, and whatever else changes the server, except that it does not make a
client return that is quitting. -/
inductive StreamEvent (σ : Type) where
  | read (bytes : Bytes)
  | flush
  | act (server : σ)

def Host.machine {σ : Type} (h : Host σ) : Machine (InstanceStream σ) (StreamEvent σ) where
  initial s := s.recvq = [] ∧ s.checkedUntil = 0 ∧ s.received = [] ∧ s.processed = []
  next s
    | .read bytes => some (s.streamRead h bytes)
    | .flush => some (s.streamData h)
    | .act server => if h.isQuitting s.server && !h.isQuitting server then none else some { s with server }

namespace InstanceStream

variable {σ : Type} {h : Host σ} {s : InstanceStream σ}

/-- What is read is what has been handed over and what is still in `recvq`. -/
structure Framed (s : InstanceStream σ) : Prop where
  reached : s.checkedUntil ≤ s.recvq.length
  scanned : 10 ∉ s.recvq.take s.checkedUntil
  handed : s.processed ++ (lines 10 s.recvq).map clean = (lines 10 s.received).map clean
  unfinished : rest 10 s.recvq = rest 10 s.received

theorem Framed.hand (framed : s.Framed) {ipos : ℕ} (found : findNewline s.recvq s.checkedUntil = some ipos) (server : σ) :
    Framed { s with
      server
      recvq := s.recvq.drop (ipos + 1)
      checkedUntil := 0
      processed := s.processed ++ [clean (s.recvq.take ipos)] } := by
  obtain ⟨split, later⟩ := findNewline_some found
  have first : 10 ∉ s.recvq.take ipos := by
    rw [← List.take_append_drop s.checkedUntil (s.recvq.take ipos), List.mem_append]
    refine fun here => here.elim (fun earlier => framed.scanned ?_) later
    rw [List.take_take] at earlier
    exact List.mem_of_mem_take (by rwa [List.take_take, Nat.min_comm])
  have handed := framed.handed
  have unfinished := framed.unfinished
  rw [split, lines_segment first] at handed
  rw [split, rest_segment first] at unfinished
  exact ⟨by simp, by simp, by simpa using handed, unfinished⟩

/-- The loop hands over every line, unless the client is quitting. -/
theorem streamLoop_framed (framed : s.Framed) :
    (s.streamLoop h).Framed ∧ (h.isQuitting (s.streamLoop h).server = false → 10 ∉ (s.streamLoop h).recvq) := by
  fun_induction streamLoop h s with
  | case1 s missing =>
    have clear : 10 ∉ s.recvq := by
      rw [← List.take_append_drop s.checkedUntil s.recvq, List.mem_append]
      exact fun here => here.elim framed.scanned (findNewline_none missing)
    exact ⟨⟨le_rfl, by simpa using clear, framed.handed, framed.unfinished⟩, fun _ => clear⟩
  | case2 s ipos found line s' quits =>
    exact ⟨framed.hand found _, fun stays => absurd quits (by rw [stays]; decide)⟩
  | case3 s ipos found line s' stays ih => exact ih (framed.hand found _)

/-- A client that is not quitting has no line left in `recvq`. -/
structure Settled (h : Host σ) (s : InstanceStream σ) : Prop where
  framed : s.Framed
  whole : h.isQuitting s.server = false → 10 ∉ s.recvq

/-- What a client that is not quitting has had handed over, and what waits in its `recvq`. -/
theorem Settled.handed (settled : Settled h s) (stays : h.isQuitting s.server = false) :
    s.processed = (lines 10 s.received).map clean ∧ s.recvq = rest 10 s.received := by
  have whole := settled.whole stays
  have handed := settled.framed.handed
  have unfinished := settled.framed.unfinished
  rw [lines_of_not_mem whole, List.map_nil, List.append_nil] at handed
  rw [rest_of_not_mem whole] at unfinished
  exact ⟨handed, unfinished⟩

theorem Framed.streamData (framed : s.Framed) : Settled h (s.streamData h) := by
  unfold InstanceStream.streamData
  split
  · rename_i quits
    exact ⟨framed, fun stays => absurd quits (by rw [stays]; decide)⟩
  · obtain ⟨framed', whole⟩ := streamLoop_framed (h := h) framed
    exact ⟨framed', whole⟩

theorem Framed.append (framed : s.Framed) (bytes : Bytes) : Framed { s with
    recvq := s.recvq ++ bytes
    received := s.received ++ bytes } where
  reached := by
    have reached := framed.reached
    simp only [List.length_append]
    omega
  scanned := by
    dsimp only
    rw [List.take_append_of_le_length framed.reached]
    exact framed.scanned
  handed := by
    dsimp only
    rw [lines_append, lines_append s.received, ← framed.unfinished, List.map_append, List.map_append, ← framed.handed,
      List.append_assoc]
  unfinished := by
    dsimp only
    rw [rest_append, rest_append s.received, framed.unfinished]

theorem Settled.initial (initial : h.machine.initial s) : Settled h s := by
  obtain ⟨recvq, checked, received, processed⟩ := initial
  refine ⟨⟨?_, ?_, ?_, ?_⟩, fun _ => ?_⟩
  · simp [checked]
  · simp [checked]
  · simp [recvq, received, processed]
  · simp [recvq, received]
  · simp [recvq]

theorem Settled.next {e : StreamEvent σ} {t : InstanceStream σ} (settled : Settled h s) (step : h.machine.next s e = some t) :
    Settled h t := by
  cases e with
  | read bytes =>
    cases step
    unfold streamRead
    split
    · rename_i empty
      subst empty
      simpa using settled
    · exact (settled.framed.append bytes).streamData
  | flush =>
    cases step
    exact settled.framed.streamData
  | act server =>
    simp only [Host.machine] at step
    split at step
    · cases step
    · rename_i monotone
      cases step
      obtain ⟨reached, scanned, handed, unfinished⟩ := settled.framed
      refine ⟨⟨reached, scanned, handed, unfinished⟩, fun stays => settled.whole ?_⟩
      simpa [stays] using monotone

@[simp] theorem streamLoop_received (s : InstanceStream σ) : (s.streamLoop h).received = s.received := by
  fun_induction streamLoop h s with
  | case1 => rfl
  | case2 => rfl
  | case3 s ipos found line s' stays ih => exact ih

theorem streamRead_received (s : InstanceStream σ) (bytes : Bytes) :
    (s.streamRead h bytes).received = s.received ++ bytes := by
  simp only [streamRead, streamData]
  split
  · rfl
  · split
    · rfl
    · rw [streamLoop_received]

end InstanceStream

/-- However the bytes of a client are split into reads, the lines handed to `ProcessBuffer` are those that ended with a
newline, and the rest waits in `recvq`. -/
theorem lines_independent {σ : Type} (h : Host σ) {s : InstanceStream σ} (reached : h.machine.Reachable s)
    (stays : h.isQuitting s.server = false) :
    s.processed = (lines 10 s.received).map clean ∧ s.recvq = rest 10 s.received := by
  have settled : InstanceStream.Settled h s := by
    refine reached.invariant (I := InstanceStream.Settled h) ?_ ?_
    · intro s initial
      exact .initial initial
    · intro s e t settled _ step
      exact settled.next step
  exact settled.handed stays

/-- A host whose clients never quit. -/
def Host.patient : Host Unit := ⟨fun _ _ => (), fun _ => false⟩

def InstanceStream.fresh {σ : Type} (server : σ) : InstanceStream σ := ⟨server, [], 0, [], []⟩

/-- Two reads that divide a line between CR and newline. -/
theorem lines_independent_split : ∃ s, Host.patient.machine.Reachable s ∧ s.received = lit "AUTH secret\r\nLOGIN bob" ∧
    s.processed = [lit "AUTH secret"] ∧ s.recvq = lit "LOGIN bob" := by
  have first : Host.patient.machine.Reachable ((InstanceStream.fresh ()).streamRead .patient (lit "AUTH secret\r")) :=
    .step (a := .read (lit "AUTH secret\r")) (.initial ⟨rfl, rfl, rfl, rfl⟩) trivial rfl
  have second := first.step (a := .read (lit "\nLOGIN bob")) trivial rfl
  obtain ⟨handed, unfinished⟩ := lines_independent Host.patient second rfl
  rw [InstanceStream.streamRead_received, InstanceStream.streamRead_received] at handed unfinished
  have received := InstanceStream.streamRead_received (h := Host.patient)
    ((InstanceStream.fresh ()).streamRead .patient (lit "AUTH secret\r")) (lit "\nLOGIN bob")
  rw [InstanceStream.streamRead_received (InstanceStream.fresh ())] at received
  exact ⟨_, second, received.trans (by decide), handed.trans (by decide), unfinished.trans (by decide)⟩

end BerylDB.Protocol
