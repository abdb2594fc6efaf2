import BerylDB.SocketTurns

/-! # What a socket is owed

A socket with bytes to write or to read is noted for a trial, or blocked and watched by the kernel, or its turn has come.
Each operation of the pool changes one handler and its descriptor, and keeps what they are owed. -/
namespace BerylDB.SocketPool
open Text Sockets Transition Pool

/-! ## Masks -/

section
variable {m n old change : EventMask} {f : Flag}

theorem inter_ne_empty : m ∩ n ≠ ∅ ↔ ∃ f ∈ n, f ∈ m := by
  rw [← Finset.nonempty_iff_ne_empty]
  constructor
  · rintro ⟨f, here⟩
    exact ⟨f, (Finset.mem_inter.mp here).2, (Finset.mem_inter.mp here).1⟩
  · rintro ⟨f, here, there⟩
    exact ⟨f, Finset.mem_inter.mpr ⟨there, here⟩⟩

theorem mem_switchMask : f ∈ switchMask old change ↔ f ∈ change ∨ f ∈ old ∧
    (f ∈ reqReadMask → change ∩ reqReadMask = ∅) ∧ (f ∈ reqWriteMask → change ∩ reqWriteMask = ∅) := by
  unfold switchMask
  by_cases read : change ∩ reqReadMask = ∅ <;> by_cases write : change ∩ reqWriteMask = ∅ <;>
    simp only [ne_eq, read, write, not_true_eq_false, not_false_eq_true, if_true, if_false, Finset.mem_union,
      Finset.mem_sdiff] <;> tauto

/-- Flags that no request masks are only added. -/
theorem mem_switchMask_note (read : f ∉ reqReadMask) (write : f ∉ reqWriteMask) :
    f ∈ switchMask old change ↔ f ∈ change ∨ f ∈ old := by
  rw [mem_switchMask, and_iff_left ⟨fun here => absurd here read, fun here => absurd here write⟩]

/-- The registration depends on the requests for reads and writes only. -/
theorem setMask_congr (same : ∀ f ∈ reqReadMask ∪ reqWriteMask, f ∈ m ↔ f ∈ n) : setMask m = setMask n := by
  have inter (flags : EventMask) (within : flags ⊆ reqReadMask ∪ reqWriteMask) : m ∩ flags = n ∩ flags := by
    ext f
    rw [Finset.mem_inter, Finset.mem_inter]
    exact and_congr_left fun here => same f (within here)
  unfold setMask
  rw [inter _ (by decide), inter _ (by decide), inter _ (by decide), inter _ (by decide), inter _ (by decide)]

theorem setMask_output (asked : .fastWrite ∈ m ∨ .singleWrite ∈ m) : (setMask m).output = true := by
  unfold setMask
  split
  · have some : m ∩ {.reqPollWrite, .fastWrite, .singleWrite} ≠ ∅ := by
      rw [inter_ne_empty]
      rcases asked with asked | asked
      · exact ⟨_, by decide, asked⟩
      · exact ⟨_, by decide, asked⟩
    simpa using some
  · rename_i none
    rw [inter_ne_empty] at none
    rcases asked with asked | asked
    · have some : m ∩ {.fastWrite, .edgeWrite} ≠ ∅ := inter_ne_empty.mpr ⟨_, by decide, asked⟩
      simpa using some
    · exact absurd ⟨_, by decide, asked⟩ none

end

/-! ## What a socket is owed -/

/-- The kernel has reported that there is something to read, or is going to. -/
def ReportsInput (d : Descriptor) : Prop :=
  ∃ events h, d.interest = some (events, h) ∧ events.input = true ∧
    (d.unread = true → events.edge = false ∨ d.inputEdge = true)

def ReportsOutput (d : Descriptor) : Prop :=
  ∃ events h, d.interest = some (events, h) ∧ events.output = true ∧
    (d.room = true → events.edge = false ∨ d.outputEdge = true)

/-- The registration follows the mask, and a socket that is blocked is reported when there is room. -/
structure Watched (e : Handler) (d : Descriptor) (h : ℕ) (noted write : Prop) : Prop where
  interest : d.interest = none ∨ d.interest = some (setMask e.reqMask, h)
  noted : e.reqMask ∩ trialNoteMask ≠ ∅ → noted
  held : e.stream.error = [] → .writeBlock ∈ e.reqMask → .fastWrite ∈ e.reqMask ∨ .singleWrite ∈ e.reqMask
  blocked : d.interest ≠ none → e.stream.error = [] → .writeBlock ∈ e.reqMask → ReportsOutput d ∨ write

/-- Bytes that wait are noted for a trial or blocked, or the turn has come. -/
def OutputOwed (e : Handler) (write : Prop) : Prop :=
  e.stream.error = [] → e.stream.sendq.nbytes ≠ 0 → .addWriteTrial ∈ e.reqMask ∨ .writeBlock ∈ e.reqMask ∨ write

def InputOwed (e : Handler) (d : Descriptor) (read : Prop) : Prop :=
  d.interest ≠ none → e.stream.error = [] → (setMask e.reqMask).input = true → d.unread = true →
    (.addTrialRead ∈ e.reqMask ∧ .readWillBlock ∉ e.reqMask) ∨ ReportsInput d ∨ read

def Handler.switch (e : Handler) (change : EventMask) : Handler := { e with reqMask := switchMask e.reqMask change }

/-- The descriptor when the mask of its handler changes. -/
def rewatch (old new : EventMask) (h : ℕ) (d : Descriptor) : Descriptor :=
  if setMask old = setMask new ∨ d.interest = none then d else watch (setMask new) h d

section
variable {e : Handler} {d : Descriptor} {h : ℕ} {noted write read noted' write' read' : Prop} {old new change : EventMask}

theorem Watched.mono (watched : Watched e d h noted write) (notes : noted → noted') (writes : write → write') :
    Watched e d h noted' write' where
  interest := watched.interest
  noted some := notes (watched.noted some)
  held := watched.held
  blocked known sound full := (watched.blocked known sound full).imp_right writes

theorem OutputOwed.mono (owed : OutputOwed e write) (writes : write → write') : OutputOwed e write' :=
  fun sound waiting => (owed sound waiting).imp_right (Or.imp_right writes)

theorem InputOwed.mono (owed : InputOwed e d read) (reads : read → read') : InputOwed e d read' :=
  fun known sound asked unread => (owed known sound asked unread).imp_right (Or.imp_right reads)

theorem rewatch_interest (interest : d.interest = none ∨ d.interest = some (setMask old, h)) :
    (rewatch old new h d).interest = none ∨ (rewatch old new h d).interest = some (setMask new, h) := by
  unfold rewatch
  split
  · rename_i still
    rcases still with same | none
    · rwa [← same]
    · exact .inl none
  · exact .inr rfl

theorem rewatch_none : (rewatch old new h d).interest = none ↔ d.interest = none := by
  unfold rewatch
  split
  · exact Iff.rfl
  · rename_i known
    push Not at known
    exact iff_of_false (by simp [watch]) known.2

theorem rewatch_unread : (rewatch old new h d).unread = d.unread := by
  unfold rewatch
  split <;> rfl

theorem rewatch_room : (rewatch old new h d).room = d.room := by
  unfold rewatch
  split <;> rfl

/-- The kernel looks at the descriptor anew, or nothing has changed. -/
theorem rewatch_cases (old new : EventMask) (h : ℕ) (known : d.interest ≠ none) :
    rewatch old new h d = watch (setMask new) h d ∨ setMask old = setMask new ∧ rewatch old new h d = d := by
  unfold rewatch
  split
  · rename_i still
    exact .inr ⟨still.resolve_right known, rfl⟩
  · exact .inl rfl

theorem ReportsOutput.rewatch (reports : ReportsOutput d) (asked : (setMask new).output = true) :
    ReportsOutput (rewatch old new h d) := by
  have known : d.interest ≠ none := by
    obtain ⟨events, h', interest, -⟩ := reports
    simp [interest]
  rcases rewatch_cases old new h known with anew | ⟨-, same⟩
  · rw [anew]
    exact ⟨_, _, rfl, asked, fun room => .inr room⟩
  · rw [same]
    exact reports

/-! ## Changes of a mask -/

/-- A new mask that blocks no writes unless there is no room. -/
theorem Watched.remask (watched : Watched e d h noted write) (notes : new ∩ trialNoteMask ≠ ∅ → noted')
    (held : e.stream.error = [] → .writeBlock ∈ new → .fastWrite ∈ new ∨ .singleWrite ∈ new)
    (full : .writeBlock ∈ new → .writeBlock ∈ e.reqMask ∨ d.room = false) :
    Watched { e with reqMask := new } (rewatch e.reqMask new h d) h noted' write where
  interest := rewatch_interest watched.interest
  noted := notes
  held := held
  blocked known sound blocked := by
    have known' : d.interest ≠ none := fun none => known (rewatch_none.mpr none)
    have asked := setMask_output (held sound blocked)
    rcases full blocked with before | none
    · exact (watched.blocked known' sound before).imp_left fun reports => reports.rewatch asked
    · have interest : (rewatch e.reqMask new h d).interest = some (setMask new, h) :=
        (rewatch_interest watched.interest).resolve_left known
      refine .inl ⟨_, _, interest, asked, fun room => ?_⟩
      rw [rewatch_room, none] at room
      cases room

theorem InputOwed.remask (owed : InputOwed e d read) (trial : .addTrialRead ∈ e.reqMask → .addTrialRead ∈ new)
    (will : .readWillBlock ∈ new → .readWillBlock ∈ e.reqMask ∨ d.unread = false) :
    InputOwed { e with reqMask := new } (rewatch e.reqMask new h d) read := by
  intro known sound asked unread
  rw [rewatch_unread] at unread
  have known' : d.interest ≠ none := fun none => known (rewatch_none.mpr none)
  rcases rewatch_cases e.reqMask new h known' with anew | ⟨same, still⟩
  · rw [anew]
    exact .inr (.inl ⟨_, _, rfl, asked, fun unread => .inr unread⟩)
  · rw [still]
    refine (owed known' sound (same ▸ asked) unread).imp_left fun noted => ⟨trial noted.1, fun block => ?_⟩
    rcases will block with before | drained
    · exact noted.2 before
    · rw [drained] at unread
      cases unread

end

/-! ## Operations on one handler -/

/-- An operation on `h` that keeps its descriptor: all other sockets are as they were. -/
structure Keeps (h : ℕ) (p q : Pool) : Prop where
  others : ∀ h', h' ≠ h → q.handlers h' = p.handlers h'
  fd : (q.handlers h).fd = (p.handlers h).fd
  kernel : ∀ fd, (p.handlers h).fd ≠ some fd → q.kernel fd = p.kernel fd
  trials : ∀ fd, fd ∈ p.trials → fd ∈ q.trials
  ref : q.ref = p.ref
  fdSize : q.fdSize = p.fdSize

section
variable {p q r : Pool} {h fd : ℕ} {change : EventMask}

theorem Keeps.refl : Keeps h p p := ⟨fun _ _ => rfl, rfl, fun _ _ => rfl, fun _ here => here, rfl, rfl⟩

theorem Keeps.trans (first : Keeps h p q) (second : Keeps h q r) : Keeps h p r where
  others h' other := (second.others h' other).trans (first.others h' other)
  fd := second.fd.trans first.fd
  kernel fd other := (second.kernel fd (first.fd ▸ other)).trans (first.kernel fd other)
  trials fd here := second.trials fd (first.trials fd here)
  ref := second.ref.trans first.ref
  fdSize := second.fdSize.trans first.fdSize

theorem Pool.handle_self (f : Handler → Handler) : (p.handle h f).handlers h = f (p.handlers h) :=
  Function.update_self ..

theorem keeps_handle {f : Handler → Handler} (same : (f (p.handlers h)).fd = (p.handlers h).fd) :
    Keeps h p (p.handle h f) where
  others _ other := Function.update_of_ne other ..
  fd := (congrArg Handler.fd (handle_self f)).trans same
  kernel _ _ := rfl
  trials _ here := here
  ref := rfl
  fdSize := rfl

theorem keeps_syscall (f : Descriptor → Descriptor) (own : (p.handlers h).fd = some fd) : Keeps h p (p.syscall fd f) where
  others _ _ := rfl
  fd := rfl
  kernel fd' other := by
    refine Function.update_of_ne ?_ ..
    rintro rfl
    exact other own
  trials _ here := here
  ref := rfl
  fdSize := rfl

theorem mem_insertTrial {trials : List ℕ} {x : ℕ} : x ∈ insertTrial fd trials ↔ x = fd ∨ x ∈ trials := by
  induction trials with
  | nil => simp [insertTrial]
  | cons a trials ih =>
    rw [insertTrial]
    split_ifs with below same
    · exact List.mem_cons
    · subst same
      simp
    · rw [List.mem_cons, ih, List.mem_cons]
      tauto

theorem keeps_onMaskReq {old new : EventMask} : Keeps h p (p.onMaskReq h old new) := by
  unfold Pool.onMaskReq
  split
  · exact .refl
  · split
    · next own =>
      split
      · exact .refl
      · exact keeps_syscall _ own
    · exact .refl

theorem keeps_noteTrial : Keeps h p (p.noteTrial h) := by
  unfold Pool.noteTrial
  split
  · exact ⟨fun _ _ => rfl, rfl, fun _ _ => rfl, fun _ here => mem_insertTrial.mpr (.inr here), rfl, rfl⟩
  · exact .refl

theorem onMaskReq_handlers {old new : EventMask} : (p.onMaskReq h old new).handlers = p.handlers := by
  unfold Pool.onMaskReq
  split
  · rfl
  · split
    · split <;> rfl
    · rfl

theorem onMaskReq_kernel {old new : EventMask} (own : (p.handlers h).fd = some fd) :
    (p.onMaskReq h old new).kernel fd = rewatch old new h (p.kernel fd) := by
  unfold Pool.onMaskReq rewatch
  split
  · next same => rw [if_pos (.inl same)]
  · next differ =>
    rw [own]
    dsimp only
    by_cases none : (p.kernel fd).interest = none
    · rw [if_pos none, if_pos (.inr none)]
    · rw [if_neg none, if_neg (by tauto)]
      exact Function.update_self ..

theorem onMaskReq_trials {old new : EventMask} : (p.onMaskReq h old new).trials = p.trials := by
  unfold Pool.onMaskReq
  split
  · rfl
  · split
    · split <;> rfl
    · rfl

theorem rewatch_same {m : EventMask} {d : Descriptor} : rewatch m m h d = d := if_pos (.inl rfl)

theorem keeps_eventSwitch : Keeps h p (p.eventSwitch h change) := by
  unfold Pool.eventSwitch
  dsimp only
  generalize noted : (if change ∩ trialNoteMask ≠ ∅ ∧ (p.handlers h).reqMask ∩ trialNoteMask = ∅ then p.noteTrial h
    else p) = q
  have keeps : Keeps h p q := by
    rw [← noted]
    split
    · exact keeps_noteTrial
    · exact .refl
  split
  · exact keeps
  · exact keeps.trans ((keeps_handle rfl).trans keeps_onMaskReq)

theorem noteTrial_handlers : (p.noteTrial h).handlers = p.handlers := by
  unfold Pool.noteTrial
  split <;> rfl

theorem noteTrial_kernel : (p.noteTrial h).kernel = p.kernel := by
  unfold Pool.noteTrial
  split <;> rfl

/-- What `EventSwitch` does to the socket. -/
structure Switched (h fd : ℕ) (change : EventMask) (p q : Pool) : Prop where
  keeps : Keeps h p q
  handler : q.handlers h = (p.handlers h).switch change
  kernel : q.kernel fd = rewatch (p.handlers h).reqMask (switchMask (p.handlers h).reqMask change) h (p.kernel fd)
  noted : change ∩ trialNoteMask ≠ ∅ → fd ∈ q.trials ∨ (p.handlers h).reqMask ∩ trialNoteMask ≠ ∅

theorem switched_eventSwitch (own : (p.handlers h).fd = some fd) : Switched h fd change p (p.eventSwitch h change) := by
  refine ⟨keeps_eventSwitch, ?_, ?_, ?_⟩
  all_goals
    unfold Pool.eventSwitch
    dsimp only
    generalize noted : (if change ∩ trialNoteMask ≠ ∅ ∧ (p.handlers h).reqMask ∩ trialNoteMask = ∅ then p.noteTrial h
      else p) = q
    have handlers : q.handlers = p.handlers := by
      rw [← noted]
      split
      · exact noteTrial_handlers
      · rfl
    have own' (mask : EventMask) : ((q.setReqMask h mask).handlers h).fd = some fd := by
      rw [setReqMask, handle_self, handlers]
      exact own
  · split
    · next same => rw [handlers, Handler.switch, same]
    · rw [onMaskReq_handlers, setReqMask, handle_self, handlers]
      rfl
  · have kernel : q.kernel = p.kernel := by
      rw [← noted]
      split
      · exact noteTrial_kernel
      · rfl
    split
    · next same => rw [kernel, same, rewatch_same]
    · rw [onMaskReq_kernel (own' _)]
      exact congrArg _ (congrFun kernel fd)
  · intro some
    have notes : fd ∈ q.trials ∨ (p.handlers h).reqMask ∩ trialNoteMask ≠ ∅ := by
      by_cases old : (p.handlers h).reqMask ∩ trialNoteMask = ∅
      · left
        rw [← noted, if_pos ⟨some, old⟩]
        simp only [Pool.noteTrial, own]
        exact mem_insertTrial.mpr (.inl rfl)
      · exact .inr old
    split
    · exact notes
    · rw [onMaskReq_trials]
      exact notes

theorem Switched.watched {pending write : Prop} (switched : Switched h fd change p q)
    (watched : Watched (p.handlers h) (p.kernel fd) h (fd ∈ p.trials ∨ pending) write)
    (held : (p.handlers h).stream.error = [] → .writeBlock ∈ switchMask (p.handlers h).reqMask change →
      .fastWrite ∈ switchMask (p.handlers h).reqMask change ∨ .singleWrite ∈ switchMask (p.handlers h).reqMask change)
    (full : .writeBlock ∈ change → (p.kernel fd).room = false) :
    Watched (q.handlers h) (q.kernel fd) h (fd ∈ q.trials ∨ pending) write := by
  rw [switched.handler, switched.kernel]
  refine watched.remask (fun some => ?_) held fun blocked => ?_
  · have before (old : (p.handlers h).reqMask ∩ trialNoteMask ≠ ∅) : fd ∈ q.trials ∨ pending :=
      (watched.noted old).imp_left (switched.keeps.trials fd)
    obtain ⟨f, note, here⟩ := inter_ne_empty.mp some
    rcases (mem_switchMask.mp here).imp_right And.left with new | old
    · exact (switched.noted (inter_ne_empty.mpr ⟨f, note, new⟩)).elim .inl before
    · exact before (inter_ne_empty.mpr ⟨f, note, old⟩)
  · rcases (mem_switchMask.mp blocked).imp_right And.left with new | old
    · exact .inr (full new)
    · exact .inl old

/-- A change that asks for no writes keeps what is asked for. -/
theorem held_of_switch {old : EventMask} {sound : Prop} (none : change ∩ reqWriteMask = ∅) (block : .writeBlock ∉ change)
    (held : sound → .writeBlock ∈ old → .fastWrite ∈ old ∨ .singleWrite ∈ old) :
    sound → .writeBlock ∈ switchMask old change → .fastWrite ∈ switchMask old change ∨ .singleWrite ∈ switchMask old change := by
  intro sound blocked
  have before := ((mem_switchMask.mp blocked).resolve_left block).1
  have stays {f : Flag} (read : f ∉ reqReadMask) (here : f ∈ old) : f ∈ switchMask old change :=
    mem_switchMask.mpr (.inr ⟨here, fun there => absurd there read, fun _ => none⟩)
  exact (held sound before).imp (stays (by decide)) (stays (by decide))

theorem Switched.output {write : Prop} (switched : Switched h fd change p q) (owed : OutputOwed (p.handlers h) write) :
    OutputOwed (q.handlers h) write := by
  rw [switched.handler]
  have stays {f : Flag} (read : f ∉ reqReadMask) (other : f ∉ reqWriteMask) (here : f ∈ (p.handlers h).reqMask) :
      f ∈ switchMask (p.handlers h).reqMask change := (mem_switchMask_note read other).mpr (.inr here)
  exact fun sound waiting => (owed sound waiting).imp (stays (by decide) (by decide))
    (Or.imp_left (stays (by decide) (by decide)))

theorem Switched.input {read : Prop} (switched : Switched h fd change p q)
    (owed : InputOwed (p.handlers h) (p.kernel fd) read) (will : .readWillBlock ∈ change → (p.kernel fd).unread = false) :
    InputOwed (q.handlers h) (q.kernel fd) read := by
  rw [switched.handler, switched.kernel]
  refine owed.remask (fun here => ?_) fun block => ?_
  · exact (mem_switchMask_note (by decide) (by decide)).mpr (.inr here)
  · exact ((mem_switchMask_note (by decide) (by decide)).mp block).elim (fun new => .inr (will new)) .inl

end

/-! ## The rounds of a dispatch -/

section
variable {iovMax : ℕ} {s : StreamSocket} {r : WriteResult} {left : Bool} {results : List (WriteResult × Bool)}

/-- A round blocks a socket that has no room left. -/
theorem write_blocked (open_ : s.blocked = false)
    (bound : ∀ n, r.accepted = some n → n ≤ (s.offered iovMax).length ∧ n < 2 ^ 31 ∧
      (n < (s.offered iovMax).length → left = false))
    (again : r.accepted = none → r.errno = .again → left = false) (blocked : (s.write iovMax r).blocked = true) :
    left = false := by
  unfold StreamSocket.write StreamSocket.handle at blocked
  have still : (s.take iovMax r).blocked = false := open_
  have offered : (s.take iovMax r).offered iovMax = s.offered iovMax := rfl
  rw [offered] at blocked
  split_ifs at blocked with clear some none
  · simp [still] at blocked
  · have less : r.rv < toSigned (s.offered iovMax).length := by simpa using blocked
    cases accepted : r.accepted with
    | none => simp [WriteResult.rv, accepted] at some
    | some n =>
      obtain ⟨fits, -, partly⟩ := bound n accepted
      refine partly (lt_of_le_of_ne fits fun whole => ?_)
      rw [WriteResult.rv, accepted, whole] at less
      exact lt_irrefl _ less
  · simp [still] at blocked
  · cases accepted : r.accepted with
    | some n =>
      have value : r.rv = n := by
        rw [WriteResult.rv, accepted]
        exact StreamSocket.toSigned_small (bound n accepted).2.1
      omega
    | none =>
      cases error : r.errno with
      | again => exact again accepted error
      | interrupted => simp [error, still] at blocked
      | other message => simp [error, still] at blocked

/-- The loop ends, and blocks the socket only when there is no room left. -/
theorem dispatch_ends (room : Bool) (answers : Answers iovMax s results) :
    (s.dispatchSendQueue iovMax (results.map Prod.fst)).writes = false ∧
      ((s.dispatchSendQueue iovMax (results.map Prod.fst)).blocked = true →
        s.blocked = true ∨ roomAfter iovMax room s results = false) := by
  induction results generalizing s room with
  | nil => exact ⟨answers, .inl⟩
  | cons x results ih =>
    obtain ⟨r, left⟩ := x
    rw [List.map_cons, StreamSocket.dispatchSendQueue, roomAfter]
    by_cases writes : s.writes = true
    · rw [if_pos writes, if_pos writes]
      obtain ⟨bound, again, later⟩ := answers writes
      obtain ⟨ends, full⟩ := ih left later
      refine ⟨ends, fun blocked => .inr ?_⟩
      rcases full blocked with first | none
      · have open_ : s.blocked = false := by
          simp only [StreamSocket.writes, Bool.and_eq_true, Bool.not_eq_true'] at writes
          exact writes.1.1
        have gone := write_blocked open_ bound again first
        have stopped : (s.write iovMax r).writes = false := by simp [StreamSocket.writes, first]
        cases results with
        | nil => exact gone
        | cons x results => rw [roomAfter, if_neg (by simp [stopped]), gone]
      · exact none
    · rw [if_neg writes, if_neg writes]
      exact ⟨by simpa using writes, .inl⟩

end

/-! ## What the operations owe -/

section
variable {iovMax bufferSize : ℕ} {p q : Pool} {h fd : ℕ} {pending write read : Prop} {results : List (WriteResult × Bool)}

/-- A socket is watched as its mask says and owed its bytes; `pending` says that its trial is still to come. -/
structure Served (p : Pool) (h fd : ℕ) (pending write read : Prop) : Prop where
  watched : Watched (p.handlers h) (p.kernel fd) h (fd ∈ p.trials ∨ pending) write
  output : OutputOwed (p.handlers h) write
  input : InputOwed (p.handlers h) (p.kernel fd) read

theorem Served.mono {pending' write' read' : Prop} (served : Served p h fd pending write read)
    (pendings : pending → pending') (writes : write → write') (reads : read → read') : Served p h fd pending' write' read' :=
  ⟨served.watched.mono (Or.imp_right pendings) writes, served.output.mono writes, served.input.mono reads⟩

/-- A socket with an error is owed nothing. -/
theorem served_of_error (watched : Watched (p.handlers h) (p.kernel fd) h (fd ∈ p.trials ∨ pending) write)
    (error : (p.handlers h).stream.error ≠ []) {write' : Prop} : Served p h fd pending write' read where
  watched := { watched with blocked := fun _ sound => absurd sound error }
  output sound := absurd sound error
  input _ sound := absurd sound error

/-- A dispatch sends what there is room for. -/
theorem dispatch_served (write' : Prop) (own : (p.handlers h).fd = some fd)
    (watched : Watched (p.handlers h) (p.kernel fd) h (fd ∈ p.trials ∨ pending) write)
    (owed : InputOwed (p.handlers h) (p.kernel fd) read) (open_ : .writeBlock ∉ (p.handlers h).reqMask)
    (sound : (p.handlers h).stream.error = []) (answers : Answers iovMax (unsent (p.handlers h)) results) :
    Keeps h p (p.dispatchSendQueue iovMax h fd results) ∧
      Served (p.dispatchSendQueue iovMax h fd results) h fd pending write' read := by
  have blocked : (unsent (p.handlers h)).blocked = false := decide_eq_false open_
  unfold Pool.dispatchSendQueue
  simp only [blocked, Bool.false_eq_true, if_false]
  obtain ⟨ends, full⟩ := dispatch_ends (p.kernel fd).room answers
  generalize (unsent (p.handlers h)).dispatchSendQueue iovMax (results.map Prod.fst) = sent at ends full ⊢
  generalize roomAfter iovMax (p.kernel fd).room (unsent (p.handlers h)) results = left at full ⊢
  have room (stops : sent.blocked = true) : left = false := (full stops).resolve_left (by simp [blocked])
  -- the descriptor and the queue as the rounds leave them
  set r := (p.syscall fd fun d => { d with room := left }).handle h fun e => { e with stream := sent } with made
  have handler : r.handlers h = { p.handlers h with stream := sent } := handle_self _
  have kernel : r.kernel fd = { p.kernel fd with room := left } := Function.update_self ..
  have keeps : Keeps h p r := (keeps_syscall _ own).trans (keeps_handle rfl)
  have switched : Switched h fd (eventChange sent) r (r.eventSwitch h (eventChange sent)) :=
    switched_eventSwitch (keeps.fd.trans own)
  have watched' : Watched (r.handlers h) (r.kernel fd) h (fd ∈ r.trials ∨ pending) False := by
    rw [handler, kernel]
    exact { watched with
      held := fun _ block => absurd block open_
      blocked := fun _ _ block => absurd block open_ }
  have owed' : InputOwed (r.handlers h) (r.kernel fd) read := by
    rw [handler, kernel]
    exact fun known _ asked unread => owed known sound asked unread
  have mask : (r.handlers h).reqMask = (p.handlers h).reqMask := by rw [handler]
  refine ⟨keeps.trans switched.keeps, ?_, ?_, ?_⟩
  · refine (switched.watched watched' (fun sound block => ?_) fun block => ?_).mono id False.elim
    · rw [mask] at block ⊢
      have new := ((mem_switchMask_note (by decide) (by decide)).mp block).resolve_right open_
      rw [mem_switchMask]
      unfold eventChange at new ⊢
      split_ifs at new ⊢ with error stops
      · exact absurd new (by decide)
      · exact .inl (.inl (by decide))
      · exact absurd new (by decide)
    · rw [kernel]
      unfold eventChange at block
      split_ifs at block with error stops
      · exact absurd block (by decide)
      · exact room stops
      · exact absurd block (by decide)
  · rw [switched.handler, handler]
    intro sound waiting
    change sent.error = [] at sound
    change sent.sendq.nbytes ≠ 0 at waiting
    have stops : sent.blocked = true := by
      simpa [StreamSocket.writes, SendQueue.empty, sound, waiting] using ends
    refine .inr (.inl (mem_switchMask.mpr (.inl ?_)))
    simp [eventChange, sound, stops]
  · refine switched.input owed' fun will => ?_
    unfold eventChange at will
    split_ifs at will
    · exact absurd will (by decide)
    · exact absurd will (by decide)
    · exact absurd will (by decide)

/-- `q` closes the socket, or serves it. -/
def Serves (h fd : ℕ) (pending write read : Prop) (p q : Pool) : Prop :=
  (∃ r, Keeps h p r ∧ q = r.closeDescriptor h) ∨ Keeps h p q ∧ Served q h fd pending write read

theorem keeps_dispatch {p : Pool} (own : (p.handlers h).fd = some fd) :
    Keeps h p (p.dispatchSendQueue iovMax h fd results) := by
  unfold Pool.dispatchSendQueue
  dsimp only
  split
  · exact .refl
  · refine Keeps.trans ?_ keeps_eventSwitch
    exact Keeps.trans (keeps_syscall _ own) (keeps_handle rfl)

theorem keeps_queueWrite {p : Pool} : Keeps h p (p.queueWriteThen iovMax id h results) := by
  unfold Pool.queueWriteThen
  dsimp only
  split
  · split <;> exact .refl
  · split
    · exact .refl
    · next own =>
      split
      · exact .refl
      · split <;> exact keeps_dispatch own

variable (iovMax p h results) in
/-- `Close` changes nothing but the flag of an open socket that it does not close. -/
theorem closeStream_cases : (∃ r, Keeps h p r ∧ p.closeStream iovMax h results = r.closeDescriptor h) ∨
    p.closeStream iovMax h results = p ∨
      (p.handlers h).fd = none ∧ Keeps h p (p.closeStream iovMax h results) := by
  unfold Pool.closeStream
  have keeps : Keeps h p (p.handle h fun e => { e with closing := true }) := keeps_handle rfl
  split
  · exact .inr (.inl rfl)
  · dsimp only
    split
    · next gone => exact .inr (.inr ⟨keeps.fd ▸ gone, keeps⟩)
    · exact .inl ⟨_, keeps.trans keeps_queueWrite, rfl⟩

theorem keeps_appendBuffer {data : Bytes} : Keeps h p (p.appendBuffer h data) := by
  unfold Pool.appendBuffer
  split
  · exact .refl
  · exact Keeps.trans (keeps_handle rfl) keeps_eventSwitch

/-- What is appended is noted for a trial. -/
theorem served_appendBuffer {data : Bytes} (own : (p.handlers h).fd = some fd)
    (served : Served p h fd pending write read) : Served (p.appendBuffer h data) h fd pending write read := by
  unfold Pool.appendBuffer
  rw [if_neg (by simp [own])]
  set q := p.handle h fun e => { e with stream := e.stream.appendBuffer data } with made
  have handler : q.handlers h = { p.handlers h with stream := (p.handlers h).stream.appendBuffer data } := handle_self _
  have own' : (q.handlers h).fd = some fd := by rw [handler]; exact own
  have switched : Switched h fd {.addWriteTrial} q (q.eventSwitch h {.addWriteTrial}) := switched_eventSwitch own'
  have watched : Watched (q.handlers h) (q.kernel fd) h (fd ∈ q.trials ∨ pending) write := by
    rw [handler]
    exact { served.watched with }
  have owed : InputOwed (q.handlers h) (q.kernel fd) read := by
    rw [handler]
    exact served.input
  refine ⟨switched.watched watched (held_of_switch (by decide) (by decide) watched.held)
    fun here => absurd here (by decide), ?_, switched.input owed fun here => absurd here (by decide)⟩
  rw [switched.handler]
  exact fun _ _ => .inl (mem_switchMask.mpr (.inl (by decide)))

theorem keeps_setError {err : Bytes} : Keeps h p (p.setError h err) := by
  refine keeps_handle ?_
  split <;> rfl

theorem setError_error {err : Bytes} (some : err ≠ []) : ((p.setError h err).handlers h).stream.error ≠ [] := by
  unfold Pool.setError
  rw [handle_self]
  split
  · exact some
  · assumption

theorem served_setError {err : Bytes} (served : Served p h fd pending write read) :
    Served (p.setError h err) h fd pending write read := by
  have handler : ((p.setError h err).handlers h) = p.handlers h ∨ ((p.setError h err).handlers h) =
      { p.handlers h with stream := { (p.handlers h).stream with error := err } } := by
    unfold Pool.setError
    rw [handle_self]
    split
    · exact .inr rfl
    · exact .inl rfl
  have kernel : (p.setError h err).kernel fd = p.kernel fd := rfl
  have trials : (p.setError h err).trials = p.trials := rfl
  by_cases none : err = []
  · have same : ((p.setError h err).handlers h) = p.handlers h := by
      rcases handler with same | changed
      · exact same
      · unfold Pool.setError
        rw [handle_self]
        split
        · next sound => rw [none, ← sound]
        · rfl
    exact ⟨by rw [same, kernel, trials]; exact served.watched, by rw [same]; exact served.output,
      by rw [same, kernel]; exact served.input⟩
  · have watched : Watched ((p.setError h err).handlers h) ((p.setError h err).kernel fd) h
        (fd ∈ (p.setError h err).trials ∨ pending) write := by
      rw [kernel, trials]
      rcases handler with same | changed
      · rw [same]
        exact served.watched
      · rw [changed]
        exact { served.watched with
          held := fun sound => absurd sound none
          blocked := fun _ sound => absurd sound none }
    exact served_of_error watched (setError_error none)

/-- What is owed depends on the mask and the stream of a handler. -/
theorem served_handle {f : Handler → Handler} (mask : (f (p.handlers h)).reqMask = (p.handlers h).reqMask)
    (stream : (f (p.handlers h)).stream = (p.handlers h).stream) (served : Served p h fd pending write read) :
    Served (p.handle h f) h fd pending write read := by
  have kernel : (p.handle h f).kernel fd = p.kernel fd := rfl
  have trials : (p.handle h f).trials = p.trials := rfl
  obtain ⟨⟨interest, noted, held, blocked⟩, output, input⟩ := served
  refine ⟨⟨?_, ?_, ?_, ?_⟩, ?_, ?_⟩
  · rwa [handle_self, kernel, mask]
  · rwa [handle_self, mask, trials]
  · rwa [handle_self, mask, stream]
  · rwa [handle_self, kernel, mask, stream]
  · unfold OutputOwed
    rwa [handle_self, mask, stream]
  · unfold InputOwed
    rwa [handle_self, kernel, mask, stream]

/-! ## Reads and writes -/

/-- The socket as a `recv` leaves it. -/
theorem served_read {change : EventMask} (own : (p.handlers h).fd = some fd)
    (watched : Watched (p.handlers h) (p.kernel fd) h (fd ∈ p.trials ∨ pending) write)
    (output : OutputOwed (p.handlers h) write) (none : change ∩ reqWriteMask = ∅) (block : .writeBlock ∉ change)
    (input : (.addTrialRead ∈ change ∧ .readWillBlock ∉ change ∧ .readWillBlock ∉ (p.handlers h).reqMask) ∨
      (p.kernel fd).unread = false) :
    Served (p.eventSwitch h change) h fd pending write read := by
  have switched : Switched h fd change p (p.eventSwitch h change) := switched_eventSwitch own
  refine ⟨?_, switched.output output, ?_⟩
  · exact switched.watched watched (held_of_switch none block watched.held) fun here => absurd here block
  · rw [switched.handler, switched.kernel]
    intro _ _ _ unread
    rcases input with ⟨trial, will, old⟩ | drained
    · refine .inl ⟨(mem_switchMask_note (by decide) (by decide)).mpr (.inl trial), fun here => ?_⟩
      exact ((mem_switchMask_note (by decide) (by decide)).mp here).elim will old
    · rw [rewatch_unread, drained] at unread
      cases unread

/-- A socket with an error is watched for nothing more. -/
theorem served_failed {err : Bytes} (own : (p.handlers h).fd = some fd)
    (watched : Watched (p.handlers h) (p.kernel fd) h (fd ∈ p.trials ∨ pending) write) (error : err ≠ []) :
    Served ((p.handle h fun e => { e with stream := { e.stream with error := err } }).eventSwitch h {.noRead, .noWrite})
      h fd pending write read := by
  set q := p.handle h fun e => { e with stream := { e.stream with error := err } } with made
  have handler : q.handlers h = { p.handlers h with stream := { (p.handlers h).stream with error := err } } :=
    handle_self _
  have failed : (q.handlers h).stream.error ≠ [] := by rw [handler]; exact error
  have switched : Switched h fd {.noRead, .noWrite} q (q.eventSwitch h {.noRead, .noWrite}) :=
    switched_eventSwitch (by rw [handler]; exact own)
  have watched' : Watched (q.handlers h) (q.kernel fd) h (fd ∈ q.trials ∨ pending) write := by
    rw [handler]
    exact { watched with
      held := fun sound => absurd sound error
      blocked := fun _ sound => absurd sound error }
  have watched'' := switched.watched watched' (fun sound => absurd sound failed) fun here => absurd here (by decide)
  refine served_of_error watched'' ?_
  rw [switched.handler]
  exact failed

theorem keeps_processRevQueue {r : Received} (own : (p.handlers h).fd = some fd) :
    Keeps h p (p.processRevQueue bufferSize h fd r) := by
  unfold Pool.processRevQueue
  have read : Keeps h p (p.syscall fd fun d => { d with unread := r.unread }) := keeps_syscall _ own
  dsimp only
  split
  · split_ifs
    · exact read.trans (Keeps.trans keeps_eventSwitch (keeps_handle rfl))
    · exact read.trans (Keeps.trans keeps_eventSwitch (keeps_handle rfl))
    · exact read.trans (Keeps.trans (keeps_handle rfl) keeps_eventSwitch)
  · split
    · exact read.trans keeps_eventSwitch
    · exact read.trans keeps_eventSwitch
    · exact read.trans (Keeps.trans (keeps_handle rfl) keeps_eventSwitch)

/-- A socket that has been read is owed the bytes that are left. -/
theorem served_onPendingRead {r : Received} {read' : Prop} (own : (p.handlers h).fd = some fd)
    (watched : Watched (p.handlers h) (p.kernel fd) h (fd ∈ p.trials ∨ pending) write)
    (output : OutputOwed (p.handlers h) write) (will : .readWillBlock ∉ (p.handlers h).reqMask)
    (drains : Drains bufferSize r) : Served (p.onPendingRead bufferSize h fd r) h fd pending write read' := by
  unfold Pool.onPendingRead
  split
  · next error => exact served_of_error watched error
  · next sound =>
    unfold Pool.processRevQueue
    set q := p.syscall fd fun d => { d with unread := r.unread } with made
    have kernel : q.kernel fd = { p.kernel fd with unread := r.unread } := Function.update_self ..
    have watched' : Watched (q.handlers h) (q.kernel fd) h (fd ∈ q.trials ∨ pending) write := by
      rw [kernel]
      exact { watched with }
    have empty (drained : r.unread = false) : (q.kernel fd).unread = false := by rw [kernel]; exact drained
    unfold Drains at drains
    dsimp only
    cases data : r.data with
    | some data =>
      rw [data] at drains
      dsimp only at drains ⊢
      split_ifs with whole some
      · refine served_handle rfl rfl (served_read own watched' output (by decide) (by decide) (.inl ⟨by decide, by decide, ?_⟩))
        exact will
      · exact served_handle rfl rfl
          (served_read own watched' output (by decide) (by decide) (.inr (empty (drains some whole))))
      · exact served_failed own watched' (by decide)
    | none =>
      rw [data] at drains
      dsimp only at drains ⊢
      obtain ⟨again, text⟩ := drains
      cases errno : r.errno with
      | again => exact served_read own watched' output (by decide) (by decide) (.inr (empty (again errno)))
      | interrupted =>
        exact served_read own watched' output (by decide) (by decide) (.inl ⟨by decide, by decide, will⟩)
      | other message =>
        refine served_failed own watched' fun none => text ?_
        rw [errno, none]

/-- A read blocks no writes. -/
theorem open_onPendingRead {r : Received} (own : (p.handlers h).fd = some fd)
    (open_ : .writeBlock ∉ (p.handlers h).reqMask) :
    .writeBlock ∉ ((p.onPendingRead bufferSize h fd r).handlers h).reqMask := by
  have switched (q : Pool) (change : EventMask) (mask : (q.handlers h).reqMask = (p.handlers h).reqMask)
      (fds : (q.handlers h).fd = some fd) (none : .writeBlock ∉ change) :
      .writeBlock ∉ ((q.eventSwitch h change).handlers h).reqMask := by
    rw [(switched_eventSwitch fds).handler]
    intro here
    exact ((mem_switchMask_note (by decide) (by decide)).mp here).elim none (mask ▸ open_)
  unfold Pool.onPendingRead Pool.processRevQueue
  split
  · exact open_
  · dsimp only
    split
    · split_ifs
      · rw [handle_self]
        exact switched _ _ rfl own (by decide)
      · rw [handle_self]
        exact switched _ _ rfl own (by decide)
      · exact switched _ _ (by rw [handle_self]; rfl) (by rw [handle_self]; exact own) (by decide)
    · split
      · exact switched _ _ rfl own (by decide)
      · exact switched _ _ rfl own (by decide)
      · exact switched _ _ (by rw [handle_self]; rfl) (by rw [handle_self]; exact own) (by decide)

/-- A write closes the socket, or serves it. -/
theorem serves_queueWrite (write' : Prop) (own : (p.handlers h).fd = some fd)
    (watched : Watched (p.handlers h) (p.kernel fd) h (fd ∈ p.trials ∨ pending) write)
    (input : InputOwed (p.handlers h) (p.kernel fd) read) (open_ : .writeBlock ∉ (p.handlers h).reqMask)
    (answers : Answers iovMax (unsent (p.handlers h)) results) :
    Serves h fd pending write' read p (p.queueWrite iovMax h results) := by
  -- without bytes that wait nothing is owed to be written
  have closes {q : Pool} (keeps : Keeps h p q) (served : Served q h fd pending write' read) :
      Serves h fd pending write' read p (q.closeStream iovMax h []) := by
    rcases closeStream_cases iovMax q h [] with ⟨r, keeps', closed⟩ | same | gone
    · exact .inl ⟨r, keeps.trans keeps', closed⟩
    · rw [same]
      exact .inr ⟨keeps, served⟩
    · rw [keeps.fd, own] at gone
      cases gone.1
  unfold Pool.queueWrite Pool.queueWriteThen
  dsimp only
  split
  · next none =>
    have served : Served p h fd pending write' read :=
      ⟨{ watched with blocked := fun _ _ block => absurd block open_ }, fun _ waiting => absurd none waiting, input⟩
    split
    · exact closes .refl served
    · exact .inr ⟨.refl, served⟩
  · rw [own]
    dsimp only
    split
    · next error => exact .inr ⟨.refl, served_of_error watched error⟩
    · next sound =>
      obtain ⟨keeps, served⟩ := dispatch_served write' own watched input open_ (not_not.mp sound) answers
      split
      · exact closes keeps served
      · exact .inr ⟨keeps, served⟩

/-- The second half of a turn, for a socket that is not blocked. -/
theorem serves_onPendingWrites (write' : Prop) (own : (p.handlers h).fd = some fd)
    (watched : Watched (p.handlers h) (p.kernel fd) h (fd ∈ p.trials ∨ pending) write)
    (input : InputOwed (p.handlers h) (p.kernel fd) read) (open_ : .writeBlock ∉ (p.handlers h).reqMask)
    (answers : Answers iovMax (unsent (p.handlers h)) results) :
    Serves h fd pending write' read p (p.onPendingWrites iovMax h results) := by
  unfold Pool.onPendingWrites
  dsimp only
  -- the mask and the stream of a socket that was connecting
  set c := p.handle h fun e => { e with connecting := false } with made
  have handler : c.handlers h = { p.handlers h with connecting := false } := handle_self _
  have own' : (c.handlers h).fd = some fd := by rw [handler]; exact own
  have switched : Switched h fd {.fastRead, .edgeWrite} c (c.eventSwitch h {.fastRead, .edgeWrite}) :=
    switched_eventSwitch own'
  have connected : Keeps h p (c.eventSwitch h {.fastRead, .edgeWrite}) := Keeps.trans (keeps_handle rfl) switched.keeps
  generalize linked : (if (p.handlers h).connecting = true then c.eventSwitch h {.fastRead, .edgeWrite} else p) = q
  have spec : Keeps h p q ∧ Watched (q.handlers h) (q.kernel fd) h (fd ∈ q.trials ∨ pending) write ∧
      InputOwed (q.handlers h) (q.kernel fd) read ∧ .writeBlock ∉ (q.handlers h).reqMask ∧
      unsent (q.handlers h) = unsent (p.handlers h) := by
    rw [← linked]
    split
    · have still : .writeBlock ∉ ((c.eventSwitch h {.fastRead, .edgeWrite}).handlers h).reqMask := by
        rw [switched.handler, handler]
        intro here
        exact ((mem_switchMask_note (by decide) (by decide)).mp here).elim (by decide) open_
      refine ⟨connected, switched.watched ?_ (fun _ block => ?_) fun here => absurd here (by decide),
        switched.input ?_ fun here => absurd here (by decide), still, ?_⟩
      · rw [handler]
        exact { watched with }
      · refine absurd ?_ still
        rw [switched.handler]
        exact block
      · rw [handler]
        exact input
      · have blocked : decide (Flag.writeBlock ∈ ((c.eventSwitch h {.fastRead, .edgeWrite}).handlers h).reqMask) =
            decide (Flag.writeBlock ∈ (p.handlers h).reqMask) := by
          rw [decide_eq_false still, decide_eq_false open_]
        unfold unsent
        rw [blocked, switched.handler, handler]
        rfl
    · exact ⟨.refl, watched, input, open_, rfl⟩
  obtain ⟨keeps, watched', input', open', same⟩ := spec
  split
  · next error => exact .inr ⟨keeps, served_of_error watched' error⟩
  · rcases serves_queueWrite write' (keeps.fd.trans own) watched' input' open' (same ▸ answers) with
      ⟨r, keeps', closed⟩ | ⟨keeps', served⟩
    · exact .inl ⟨r, keeps.trans keeps', closed⟩
    · exact .inr ⟨keeps.trans keeps', served⟩

variable (iovMax p h results) in
/-- The second half of a turn closes the socket or keeps its descriptor. -/
theorem onPendingWrites_cases : (∃ r, Keeps h p r ∧ p.onPendingWrites iovMax h results = r.closeDescriptor h) ∨
    Keeps h p (p.onPendingWrites iovMax h results) := by
  have closes {q : Pool} (keeps : Keeps h p q) : (∃ r, Keeps h p r ∧ q.closeStream iovMax h [] = r.closeDescriptor h) ∨
      Keeps h p (q.closeStream iovMax h []) := by
    rcases closeStream_cases iovMax q h [] with ⟨r, keeps', closed⟩ | same | ⟨-, keeps'⟩
    · exact .inl ⟨r, keeps.trans keeps', closed⟩
    · rw [same]
      exact .inr keeps
    · exact .inr (keeps.trans keeps')
  unfold Pool.onPendingWrites
  dsimp only
  generalize linked : (if (p.handlers h).connecting = true then
    (p.handle h fun e => { e with connecting := false }).eventSwitch h {.fastRead, .edgeWrite} else p) = q
  have keeps : Keeps h p q := by
    rw [← linked]
    split
    · exact Keeps.trans (keeps_handle rfl) keeps_eventSwitch
    · exact .refl
  split
  · exact .inr keeps
  · unfold Pool.queueWrite Pool.queueWriteThen
    dsimp only
    split
    · split
      · exact closes keeps
      · exact .inr keeps
    · split
      · exact .inr keeps
      · next own =>
        split
        · exact closes (keeps.trans (keeps_dispatch own))
        · exact .inr (keeps.trans (keeps_dispatch own))

end

end BerylDB.SocketPool
