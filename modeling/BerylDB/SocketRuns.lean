import BerylDB.SocketDues

/-! # Runs of the socket pool

Between the turns every socket is served: the pool refers to it, the kernel watches it as its mask says, and the bytes
that it has to write or to read are noted for a trial or going to be reported. -/
namespace BerylDB.SocketPool
open Text Sockets Transition Pool Server

/-- The turn of `h` to write has come: its report is in the batch, or the second half of its turn is. -/
def WriteTurn (s : Server) (h : ℕ) : Prop :=
  (∃ e ∈ s.batch, e.1 = h ∧ e.2.output = true) ∨ ∃ rest, s.rest = some rest ∧ rest.handler = h ∧ rest.due = true

def ReadTurn (s : Server) (h : ℕ) : Prop := ∃ e ∈ s.batch, e.1 = h ∧ e.2.input = true

structure Socket (s : Server) (h fd : ℕ) : Prop where
  reference : s.pool.getReference fd = some h
  served : Served s.pool h fd (fd ∈ s.pending) (WriteTurn s h) (ReadTurn s h)
  rest : ∀ rest, s.rest = some rest → rest.handler = h →
    rest.fd = fd ∧ (rest.due = true → .writeBlock ∉ (s.pool.handlers h).reqMask)

structure Invariant (s : Server) : Prop where
  sockets : ∀ h fd, (s.pool.handlers h).fd = some fd → Socket s h fd
  references : ∀ fd h, s.pool.getReference fd = some h → (s.pool.handlers h).fd = some fd
  used : s.pool.fdSize = s.pool.ref.countP Option.isSome
  texts : ∀ e ∈ s.batch, e.2.err ≠ some []

/-- What the loops hold of the sockets other than `h`. -/
structure Control (h : ℕ) (s t : Server) : Prop where
  pending : ∀ fd, s.pool.getReference fd ≠ some h → fd ∈ s.pending → fd ∈ t.pending
  write : ∀ h', h' ≠ h → WriteTurn s h' → WriteTurn t h'
  read : ∀ h', h' ≠ h → ReadTurn s h' → ReadTurn t h'
  rest : ∀ rest, t.rest = some rest → rest.handler ≠ h → s.rest = some rest
  batch : ∀ e ∈ t.batch, e ∈ s.batch

section
variable {iovMax bufferSize : ℕ} {s t : Server} {p q r : Pool} {h fd : ℕ} {results : List (WriteResult × Bool)}

theorem control_pool : Control h s { s with pool := q } where
  pending _ _ here := here
  write _ _ turn := turn
  read _ _ turn := turn
  rest _ same _ := same
  batch _ here := here

/-! ## References -/

theorem getReference_set {fd' : ℕ} {x : Option ℕ} (inside : fd < p.ref.length) :
    ({ p with ref := p.ref.set fd x } : Pool).getReference fd' = if fd' = fd then x else p.getReference fd' := by
  unfold Pool.getReference
  rw [List.getElem?_set]
  split
  · next same =>
    subst same
    rw [if_pos rfl]
    rfl
  · next other => rw [if_neg (Ne.symm other)]

theorem getReference_inside {fd : ℕ} (found : p.getReference fd = some h) : fd < p.ref.length := by
  by_contra out
  simp [Pool.getReference, List.getElem?_eq_none (not_lt.mp out)] at found

variable (fd) in
theorem resizeFor_spec (n : ℕ) (ref : List (Option ℕ)) (enough : fd < ref.length + n) :
    fd < (resizeFor fd n ref).length ∧ (∀ i : ℕ, (resizeFor fd n ref)[i]?.join = ref[i]?.join) ∧
      (resizeFor fd n ref).countP Option.isSome = ref.countP Option.isSome := by
  induction n generalizing ref with
  | zero => exact ⟨enough, fun _ => rfl, rfl⟩
  | succ n ih =>
    rw [resizeFor]
    split
    · have more : 0 < if ref.length = 0 then 1 else ref.length := by split <;> omega
      generalize (if ref.length = 0 then 1 else ref.length) = k at more ⊢
      obtain ⟨inside, same, count⟩ := ih (ref ++ List.replicate k none) (by
        rw [List.length_append, List.length_replicate]
        omega)
      refine ⟨inside, fun i => (same i).trans ?_, count.trans ?_⟩
      · rw [List.getElem?_append]
        split
        · rfl
        · next out =>
          rw [List.getElem?_eq_none (not_lt.mp out), List.getElem?_replicate]
          split <;> rfl
      · rw [List.countP_append, List.countP_replicate]
        simp
    · next inside => exact ⟨not_le.mp inside, fun _ => rfl, rfl⟩

/-! ## Operations of one socket -/

/-- A socket that an operation on another one leaves as it was. -/
theorem Socket.other {h' fd' : ℕ} (socket : Socket s h' fd') (control : Control h s t) (other : h' ≠ h)
    (handler : t.pool.handlers h' = s.pool.handlers h') (kernel : t.pool.kernel fd' = s.pool.kernel fd')
    (trials : fd' ∈ s.pool.trials → fd' ∈ t.pool.trials) (reference : t.pool.getReference fd' = some h') :
    Socket t h' fd' := by
  have away : s.pool.getReference fd' ≠ some h := by
    rw [socket.reference]
    exact fun same => other (Option.some.inj same)
  obtain ⟨watched, output, input⟩ := socket.served.mono (control.pending fd' away) (control.write h' other)
    (control.read h' other)
  refine ⟨reference, ⟨?_, ?_, ?_⟩, fun rest some own => ?_⟩
  · rw [handler, kernel]
    exact watched.mono (Or.imp_left trials) id
  · rw [handler]
    exact output
  · rw [handler, kernel]
    exact input
  · rw [handler]
    exact socket.rest rest (control.rest rest some (own ▸ other)) own

/-- An operation that keeps a socket open, and serves it. -/
theorem Invariant.keeps (inv : Invariant s) (keeps : Keeps h s.pool t.pool) (control : Control h s t)
    (own : ∀ fd, (s.pool.handlers h).fd = some fd → Served t.pool h fd (fd ∈ t.pending) (WriteTurn t h) (ReadTurn t h) ∧
      ∀ rest, t.rest = some rest → rest.handler = h →
        rest.fd = fd ∧ (rest.due = true → .writeBlock ∉ (t.pool.handlers h).reqMask)) : Invariant t := by
  have reference (fd : ℕ) : t.pool.getReference fd = s.pool.getReference fd := by
    rw [Pool.getReference, keeps.ref]
    rfl
  refine ⟨fun h' fd' open_ => ?_, fun fd h' found => ?_, ?_, fun e here => inv.texts e (control.batch e here)⟩
  · by_cases same : h' = h
    · subst same
      have before := keeps.fd ▸ open_
      exact ⟨(reference fd').trans (inv.sockets h' fd' before).reference, (own fd' before).1, (own fd' before).2⟩
    · have handler := keeps.others h' same
      rw [handler] at open_
      have socket := inv.sockets h' fd' open_
      refine socket.other control same handler (keeps.kernel fd' fun shared => same ?_) (keeps.trials fd')
        ((reference fd').trans socket.reference)
      exact Option.some.inj (socket.reference.symm.trans (inv.sockets h fd' shared).reference)
  · rw [reference] at found
    have before := inv.references fd h' found
    by_cases same : h' = h
    · subst same
      rw [keeps.fd, before]
    · rw [keeps.others h' same, before]
  · rw [keeps.fdSize, keeps.ref, inv.used]

/-- An operation that closes a socket in the end. -/
theorem Invariant.closes (inv : Invariant s) (keeps : Keeps h s.pool r) (closed : t.pool = r.closeDescriptor h)
    (control : Control h s t) : Invariant t := by
  have reference (fd : ℕ) : r.getReference fd = s.pool.getReference fd := by
    rw [Pool.getReference, keeps.ref]
    rfl
  cases gone : (s.pool.handlers h).fd with
  | none =>
    have same : t.pool = r := by
      rw [closed, Pool.closeDescriptor, keeps.fd, gone]
    refine inv.keeps (same ▸ keeps) control fun fd open_ => ?_
    rw [gone] at open_
    cases open_
  | some fd =>
    have own : r.getReference fd = some h := (reference fd).trans (inv.sockets h fd gone).reference
    have inside := getReference_inside own
    have pool : t.pool = (({ r with ref := r.ref.set fd none, fdSize := r.fdSize - 1 } : Pool).syscall fd
        fun _ => {}).handle h fun e => { e with fd := none } := by
      rw [closed, Pool.closeDescriptor, keeps.fd, gone]
      dsimp only
      rw [Pool.deleteFileDescRef, if_pos own]
    have self : (t.pool.handlers h).fd = none := by rw [pool, handle_self]
    have others (h' : ℕ) (other : h' ≠ h) : t.pool.handlers h' = s.pool.handlers h' := by
      rw [pool]
      exact (Function.update_of_ne other ..).trans (keeps.others h' other)
    have after (fd' : ℕ) : t.pool.getReference fd' = if fd' = fd then none else s.pool.getReference fd' := by
      rw [pool, ← reference]
      exact getReference_set (p := r) inside
    have distinct {h' fd' : ℕ} (open_ : (t.pool.handlers h').fd = some fd') :
        h' ≠ h ∧ fd' ≠ fd ∧ (s.pool.handlers h').fd = some fd' := by
      have other : h' ≠ h := by
        rintro rfl
        rw [self] at open_
        cases open_
      rw [others h' other] at open_
      refine ⟨other, ?_, open_⟩
      rintro rfl
      exact other (Option.some.inj ((inv.sockets h' fd' open_).reference.symm.trans
        (inv.sockets h fd' gone).reference))
    refine ⟨fun h' fd' open_ => ?_, fun fd' h' found => ?_, ?_, fun e here => inv.texts e (control.batch e here)⟩
    · obtain ⟨other, apart, before⟩ := distinct open_
      have socket := inv.sockets h' fd' before
      refine socket.other control other (others h' other) ?_ (fun here => ?_) ?_
      · rw [pool]
        refine (Function.update_of_ne apart ..).trans (keeps.kernel fd' fun same => apart ?_)
        exact (Option.some.inj (gone.symm.trans same)).symm
      · rw [pool]
        exact keeps.trials fd' here
      · rw [after, if_neg apart, socket.reference]
    · rw [after] at found
      split at found
      · cases found
      · next apart =>
        have before := inv.references fd' h' found
        have other : h' ≠ h := by
          rintro rfl
          exact apart (Option.some.inj (before.symm.trans gone))
        rw [others h' other, before]
    · have size : t.pool.fdSize = r.fdSize - 1 := by rw [pool]; rfl
      have refs : t.pool.ref = r.ref.set fd none := by rw [pool]; rfl
      have there : r.ref[fd] = some h := by
        rw [Pool.getReference, List.getElem?_eq_getElem inside] at own
        exact own
      rw [size, refs, List.countP_set inside, keeps.fdSize, inv.used, ← keeps.ref, there]
      simp

/-! ## Steps -/

/-- An operation of a socket that is open for writes if it was. -/
theorem Invariant.operate (inv : Invariant s) (keeps : Keeps h s.pool q)
    (serve : ∀ fd, (s.pool.handlers h).fd = some fd → ∀ pending write read, Served s.pool h fd pending write read →
      Served q h fd pending write read)
    (open_ : ∀ fd, (s.pool.handlers h).fd = some fd → .writeBlock ∈ (q.handlers h).reqMask →
      .writeBlock ∈ (s.pool.handlers h).reqMask) : Invariant { s with pool := q } := by
  refine inv.keeps keeps control_pool fun fd own => ?_
  have socket := inv.sockets h fd own
  refine ⟨serve fd own _ _ _ socket.served, fun rest some turn => ?_⟩
  obtain ⟨same, due⟩ := socket.rest rest some turn
  exact ⟨same, fun is block => due is (open_ fd own block)⟩

theorem Invariant.handle (inv : Invariant s) {f : Handler → Handler}
    (fds : (f (s.pool.handlers h)).fd = (s.pool.handlers h).fd)
    (mask : (f (s.pool.handlers h)).reqMask = (s.pool.handlers h).reqMask)
    (stream : (f (s.pool.handlers h)).stream = (s.pool.handlers h).stream) :
    Invariant { s with pool := s.pool.handle h f } := by
  refine inv.operate (keeps_handle fds) (fun _ _ _ _ _ served => served_handle mask stream served) fun _ _ block => ?_
  rwa [handle_self, mask] at block

theorem Invariant.append (inv : Invariant s) {data : Bytes} :
    Invariant { s with pool := s.pool.appendBuffer h data } := by
  refine inv.operate keeps_appendBuffer (fun _ own _ _ _ => served_appendBuffer own) fun fd own block => ?_
  rw [Pool.appendBuffer, if_neg (by simp [own]), (switched_eventSwitch (by rw [handle_self]; exact own)).handler,
    handle_self] at block
  exact ((mem_switchMask_note (by decide) (by decide)).mp block).resolve_left (by decide)

theorem Invariant.setError (inv : Invariant s) {err : Bytes} : Invariant { s with pool := s.pool.setError h err } := by
  refine inv.operate keeps_setError (fun _ _ _ _ _ => served_setError) fun _ _ block => ?_
  unfold Pool.setError at block
  rw [handle_self] at block
  split at block <;> exact block

theorem Invariant.closeStream (inv : Invariant s) :
    Invariant { s with pool := s.pool.closeStream iovMax h results } := by
  rcases closeStream_cases iovMax s.pool h results with ⟨r, keeps, closed⟩ | same | ⟨gone, keeps⟩
  · exact inv.closes keeps closed control_pool
  · rw [same]
    exact inv
  · refine inv.keeps keeps control_pool fun fd open_ => ?_
    rw [gone] at open_
    cases open_

theorem Invariant.closeLater (inv : Invariant s) : Invariant { s with pool := s.pool.closeLater iovMax h results } := by
  unfold Pool.closeLater
  split
  · exact inv.handle rfl rfl rfl
  · exact inv.closeStream

/-- `Writes` takes all trials that are noted. -/
theorem Invariant.writes (inv : Invariant s) (idle : s.idle) :
    Invariant { s with pool := { s.pool with trials := [] }, pending := s.pool.trials } where
  sockets h fd open_ := by
    obtain ⟨reference, ⟨watched, output, input⟩, rest⟩ := inv.sockets h fd open_
    refine ⟨reference, ⟨watched.mono (fun noted => ?_) id, output, input⟩, rest⟩
    rw [idle.1] at noted
    exact .inr (noted.resolve_right (by simp))
  references := inv.references
  used := inv.used
  texts := inv.texts

/-- What the kernel does to a descriptor of its own. -/
theorem Invariant.syscall (inv : Invariant s) {f : Descriptor → Descriptor}
    (interest : (f (s.pool.kernel fd)).interest = (s.pool.kernel fd).interest)
    (output : ReportsOutput (s.pool.kernel fd) → ReportsOutput (f (s.pool.kernel fd)))
    (input : ReportsInput (s.pool.kernel fd) → ReportsInput (f (s.pool.kernel fd)))
    (unread : ∀ events h, (s.pool.kernel fd).interest = some (events, h) → events.input = true →
      (f (s.pool.kernel fd)).unread = true → (s.pool.kernel fd).unread = true ∨ ReportsInput (f (s.pool.kernel fd))) :
    Invariant { s with pool := s.pool.syscall fd f } where
  sockets h fd' open_ := by
    obtain ⟨reference, ⟨watched, owed, owed'⟩, rest⟩ := inv.sockets h fd' open_
    refine ⟨reference, ?_, rest⟩
    by_cases same : fd' = fd
    · subst same
      have kernel : (s.pool.syscall fd' f).kernel fd' = f (s.pool.kernel fd') := Function.update_self ..
      refine ⟨⟨?_, watched.noted, watched.held, fun known sound block => ?_⟩, owed, fun known sound asked there => ?_⟩
      · rw [kernel, interest]
        exact watched.interest
      · rw [kernel, interest] at known
        rw [kernel]
        exact (watched.blocked known sound block).imp_left output
      · rw [kernel, interest] at known
        rw [kernel] at there ⊢
        have registered := watched.interest.resolve_left known
        rcases unread _ _ registered asked there with before | reports
        · exact (owed' known sound asked before).imp_right (Or.imp_left input)
        · exact .inr (.inl reports)
    · have kernel : (s.pool.syscall fd f).kernel fd' = s.pool.kernel fd' := Function.update_of_ne same ..
      refine ⟨?_, owed, ?_⟩
      · rw [kernel]
        exact watched
      · rw [kernel]
        exact owed'
  references := inv.references
  used := inv.used
  texts := inv.texts

theorem Invariant.arrive (inv : Invariant s) :
    Invariant { s with pool := s.pool.syscall fd fun d => { d with unread := true, inputEdge := true } } := by
  refine inv.syscall rfl id ?_ fun events h interest asked _ => .inr ⟨events, h, interest, asked, fun _ => .inr rfl⟩
  rintro ⟨events, h, interest, asked, -⟩
  exact ⟨events, h, interest, asked, fun _ => .inr rfl⟩

theorem Invariant.drain (inv : Invariant s) :
    Invariant { s with pool := s.pool.syscall fd fun d => { d with room := true, outputEdge := true } } := by
  refine inv.syscall rfl ?_ id fun _ _ _ _ there => .inl there
  rintro ⟨events, h, interest, asked, -⟩
  exact ⟨events, h, interest, asked, fun _ => .inr rfl⟩

/-- A report that the kernel makes is in the batch, and not due any more. -/
theorem Invariant.report (inv : Invariant s) {x : Report} {events : EpollEvents}
    (interest : (s.pool.kernel fd).interest = some (events, h)) (text : x.err ≠ some []) :
    Invariant { s with pool := s.pool.syscall fd fun d => Server.report d x, batch := (h, x) :: s.batch } where
  sockets h' fd' open_ := by
    obtain ⟨reference, ⟨watched, owed, owed'⟩, rest⟩ := inv.sockets h' fd' open_
    set t : Server := { s with pool := s.pool.syscall fd fun d => Server.report d x, batch := (h, x) :: s.batch } with made
    have writes (turn : WriteTurn s h') : WriteTurn t h' := by
      refine turn.imp_left ?_
      rintro ⟨e, here, same⟩
      exact ⟨e, List.mem_cons_of_mem _ here, same⟩
    have reads (turn : ReadTurn s h') : ReadTurn t h' := by
      obtain ⟨e, here, same⟩ := turn
      exact ⟨e, List.mem_cons_of_mem _ here, same⟩
    refine ⟨reference, ?_, rest⟩
    by_cases same : fd' = fd
    · subst same
      have kernel : t.pool.kernel fd' = Server.report (s.pool.kernel fd') x := Function.update_self ..
      have own : h' = h := by
        have registered := watched.interest.resolve_left (by simp [interest])
        rw [interest, Option.some.injEq, Prod.mk.injEq] at registered
        exact registered.2.symm
      subst own
      refine ⟨⟨?_, watched.noted, watched.held, fun known sound block => ?_⟩, owed.mono writes,
        fun known sound asked there => ?_⟩
      · rw [kernel]
        exact watched.interest
      · rw [kernel] at known
        rw [kernel]
        cases out : x.output with
        | true => exact .inr (.inl ⟨_, List.mem_cons_self, rfl, out⟩)
        | false =>
          refine (watched.blocked known sound block).imp ?_ writes
          rintro ⟨events, k, registered, output, edge⟩
          exact ⟨events, k, registered, output, by simpa [Server.report, out] using edge⟩
      · rw [kernel] at known there
        rw [kernel]
        cases inp : x.input with
        | true => exact .inr (.inr ⟨_, List.mem_cons_self, rfl, inp⟩)
        | false =>
          refine (owed' known sound asked there).imp_right (Or.imp ?_ reads)
          rintro ⟨events, k, registered, input, edge⟩
          exact ⟨events, k, registered, input, by simpa [Server.report, inp] using edge⟩
    · have kernel : t.pool.kernel fd' = s.pool.kernel fd' := Function.update_of_ne same ..
      refine ⟨?_, owed.mono writes, ?_⟩
      · rw [kernel]
        exact watched.mono id writes
      · rw [kernel]
        exact owed'.mono reads
  references := inv.references
  used := inv.used
  texts e here := by
    rcases List.mem_cons.mp here with rfl | here
    · exact text
    · exact inv.texts e here

theorem Invariant.wait (inv : Invariant s) {reports : List (ℕ × Report)} (texts : ∀ x ∈ reports, x.2.err ≠ some []) :
    Invariant (s.wait reports) := by
  induction reports with
  | nil => exact inv
  | cons x reports ih =>
    obtain ⟨fd, x⟩ := x
    have before := ih fun y here => texts y (List.mem_cons_of_mem _ here)
    simp only [Server.wait]
    split
    · next events h interest => exact before.report interest (texts _ List.mem_cons_self)
    · exact before

/-- `q` is `p` with a new socket on `fd`; `ok` says that the kernel took the descriptor. -/
structure Entered (p q : Pool) (h fd : ℕ) (d : Descriptor) (connecting ok : Bool) (mask : EventMask) : Prop where
  ref : q.ref = (resizeFor fd (fd + 1) p.ref).set fd (some h)
  fdSize : q.fdSize = p.fdSize + 1
  trials : q.trials = p.trials
  handlers : ∀ h', h' ≠ h → q.handlers h' = p.handlers h'
  kernels : ∀ fd', fd' ≠ fd → q.kernel fd' = p.kernel fd'
  handler : q.handlers h = { fd := some fd, connecting := connecting, reqMask := if ok then mask else ∅ }
  kernel : q.kernel fd = if ok then watch (setMask mask) h d else d

section
variable {d : Descriptor} {connecting ok : Bool} {mask : EventMask}

theorem entered_addDescriptor (vacant : p.getReference fd = none) :
    Entered p (((p.syscall fd fun _ => d).handle h fun _ => { fd := some fd, connecting := connecting }).addDescriptor
      h fd mask ok) h fd d connecting ok mask := by
  have free : Pool.hasFileDesc ((p.syscall fd fun _ => d).handle h
      fun _ => { fd := some fd, connecting := connecting }) fd = false := by
    change (p.getReference fd).isSome = false
    rw [vacant]
    rfl
  rw [Pool.addDescriptor, Pool.attachFileDescRef, free]
  cases ok with
  | true =>
    refine ⟨rfl, rfl, rfl, fun h' other => ?_, fun fd' other => ?_, ?_, ?_⟩
    · exact (Function.update_of_ne other ..).trans (Function.update_of_ne other ..)
    · exact (Function.update_of_ne other ..).trans (Function.update_of_ne other ..)
    · refine (Function.update_self ..).trans ?_
      change { (Function.update p.handlers h _ h : Handler) with reqMask := mask } = _
      rw [Function.update_self]
      rfl
    · refine (Function.update_self ..).trans ?_
      change watch (setMask mask) h (Function.update p.kernel fd d fd) = _
      rw [Function.update_self]
      rfl
  | false =>
    exact ⟨rfl, rfl, rfl, fun h' other => Function.update_of_ne other .., fun fd' other => Function.update_of_ne other ..,
      Function.update_self .., Function.update_self ..⟩

theorem Entered.reference (entered : Entered p q h fd d connecting ok mask) (fd' : ℕ) :
    q.getReference fd' = if fd' = fd then some h else p.getReference fd' := by
  obtain ⟨inside, same, -⟩ := resizeFor_spec fd (fd + 1) p.ref (by omega)
  unfold Pool.getReference
  rw [entered.ref, List.getElem?_set]
  by_cases here : fd' = fd
  · subst here
    rw [if_pos rfl, if_pos inside, if_pos rfl]
    rfl
  · rw [if_neg (Ne.symm here), if_neg here]
    exact same fd'

/-- The kernel watches a new socket as its mask says, or knows nothing of it. -/
theorem Entered.served {pending write read : Prop} (entered : Entered p q h fd d connecting ok mask)
    (unwatched : d.interest = none) (noted : mask ∩ trialNoteMask = ∅)
    (held : .writeBlock ∈ mask → .fastWrite ∈ mask ∨ .singleWrite ∈ mask) : Served q h fd pending write read := by
  refine ⟨⟨?_, fun some => ?_, fun _ block => ?_, fun known sound block => ?_⟩, fun _ waiting => absurd ?_ waiting,
    fun known sound asked _ => ?_⟩
  · rw [entered.kernel, entered.handler]
    cases ok with
    | true => exact .inr rfl
    | false => exact .inl unwatched
  · rw [entered.handler] at some
    cases ok with
    | true => exact absurd noted some
    | false => exact absurd rfl some
  · rw [entered.handler] at block ⊢
    cases ok with
    | true => exact held block
    | false => exact absurd block (Finset.notMem_empty _)
  · rw [entered.handler] at block
    rw [entered.kernel] at known ⊢
    cases ok with
    | true => exact .inl ⟨_, _, rfl, setMask_output (held block), fun room => .inr room⟩
    | false => exact absurd unwatched known
  · rw [entered.handler]
  · rw [entered.handler] at asked ⊢
    rw [entered.kernel] at known ⊢
    cases ok with
    | true => exact .inr (.inl ⟨_, _, rfl, asked, fun unread => .inr unread⟩)
    | false => exact absurd unwatched known

/-- A place more of the table is used. -/
theorem Entered.used (entered : Entered p q h fd d connecting ok mask) (vacant : p.getReference fd = none)
    (used : p.fdSize = p.ref.countP Option.isSome) : q.fdSize = q.ref.countP Option.isSome := by
  obtain ⟨inside, same, count⟩ := resizeFor_spec fd (fd + 1) p.ref (by omega)
  have empty : (resizeFor fd (fd + 1) p.ref)[fd] = none := by
    have found := (same fd).trans vacant
    rw [List.getElem?_eq_getElem inside] at found
    exact found
  rw [entered.fdSize, entered.ref, List.countP_set inside, count, used, empty]
  simp

end

/-- A new socket that the kernel watches, or that it refuses to watch. -/
theorem Invariant.enter (inv : Invariant s) (fresh : Fresh s h fd) {d : Descriptor} {connecting ok : Bool}
    {mask : EventMask} (unwatched : d.interest = none) (noted : mask ∩ trialNoteMask = ∅)
    (held : .writeBlock ∈ mask → .fastWrite ∈ mask ∨ .singleWrite ∈ mask) :
    Invariant (s.enter h fd d connecting mask ok) := by
  obtain ⟨batch, rest, new, unused⟩ := fresh
  have vacant : s.pool.getReference fd = none := by
    cases found : s.pool.getReference fd with
    | none => rfl
    | some h' => exact absurd (inv.references fd h' found) (unused h')
  unfold Server.enter
  dsimp only
  have entered : Entered s.pool _ h fd d connecting ok mask := entered_addDescriptor vacant
  generalize ((s.pool.syscall fd fun _ => d).handle h fun _ => { fd := some fd, connecting := connecting }).addDescriptor
    h fd mask ok = q at entered ⊢
  refine ⟨fun h' fd' open_ => ?_, fun fd' h' found => ?_, entered.used vacant inv.used, inv.texts⟩
  · by_cases own : h' = h
    · subst own
      obtain rfl : fd = fd' := by
        rw [entered.handler] at open_
        exact Option.some.inj open_
      exact ⟨by rw [entered.reference, if_pos rfl], entered.served unwatched noted held,
        fun r some turn => absurd turn (rest r some)⟩
    · rw [entered.handlers h' own] at open_
      have apart : fd' ≠ fd := by
        rintro rfl
        exact unused h' open_
      have socket := inv.sockets h' fd' open_
      refine socket.other (h := h) ⟨fun _ _ here => here, fun _ _ turn => turn, fun _ _ turn => turn,
        fun _ some _ => some, fun _ here => here⟩ own (entered.handlers h' own) (entered.kernels fd' apart)
        (fun here => entered.trials ▸ here) ?_
      rw [entered.reference, if_neg apart, socket.reference]
  · rw [entered.reference] at found
    split at found
    · next here =>
      rw [Option.some.injEq] at found
      rw [← found, entered.handler, here]
    · have before := inv.references fd' h' found
      have other : h' ≠ h := by
        rintro rfl
        rw [new] at before
        cases before
      rw [entered.handlers h' other, before]

/-- The first half of a turn: a socket that has to be read is, and its turn to write stays. -/
theorem read_half {todo due write read : Prop} [Decidable todo] {pending : Prop} {r : Received}
    (own : (q.handlers h).fd = some fd) (keeps : Keeps h p q)
    (watched : Watched (q.handlers h) (q.kernel fd) h (fd ∈ q.trials ∨ pending) write)
    (output : OutputOwed (q.handlers h) write) (will : todo → .readWillBlock ∉ (q.handlers h).reqMask)
    (quiet : ¬ todo → InputOwed (q.handlers h) (q.kernel fd) read) (open_ : due → .writeBlock ∉ (q.handlers h).reqMask)
    (drains : Drains bufferSize r) {q' : Pool} (made : (if todo then q.onPendingRead bufferSize h fd r else q) = q') :
    Keeps h p q' ∧ Served q' h fd pending write read ∧ (due → .writeBlock ∉ (q'.handlers h).reqMask) := by
  rw [← made]
  split
  · next now =>
    refine ⟨?_, served_onPendingRead own watched output (will now) drains, fun is => open_onPendingRead own (open_ is)⟩
    unfold Pool.onPendingRead
    split
    · exact keeps
    · exact keeps.trans (keeps_processRevQueue own)
  · next later => exact ⟨keeps, ⟨watched, output, quiet later⟩, open_⟩

/-- The next element of `pendinglist` is read if it is due, and due to write if it was. -/
theorem Invariant.trial (inv : Invariant s) {pending : List ℕ} (list : s.pending = fd :: pending) (none : s.rest = none)
    {r : Received} (drains : Drains bufferSize r) :
    Invariant ({ s with pending := pending }.trial bufferSize fd r) := by
  unfold Server.trial
  dsimp only
  cases found : s.pool.getReference fd with
  | none =>
    dsimp only
    refine ⟨fun h fd' open_ => ?_, inv.references, inv.used, inv.texts⟩
    obtain ⟨reference, served, rest⟩ := inv.sockets h fd' open_
    refine ⟨reference, served.mono (fun here => ?_) id id, rest⟩
    rw [list] at here
    refine (List.mem_cons.mp here).resolve_left fun same => ?_
    rw [same, found] at reference
    cases reference
  | some h =>
    dsimp only
    have own := inv.references fd h found
    obtain ⟨-, ⟨watched, output, input⟩, -⟩ := inv.sockets h fd own
    set mask := (s.pool.handlers h).reqMask with isMask
    set q := s.pool.setReqMask h (mask \ trialNoteMask) with made
    have handler : q.handlers h = { s.pool.handlers h with reqMask := mask \ trialNoteMask } := handle_self _
    have own' : (q.handlers h).fd = some fd := by rw [handler]; exact own
    have requests : setMask (mask \ trialNoteMask) = setMask mask := setMask_congr fun f request => by
      rw [Finset.mem_sdiff, and_iff_left]
      exact fun note => absurd note (by revert f; decide)
    have stays {f : Flag} (other : f ∉ trialNoteMask) : f ∈ mask \ trialNoteMask ↔ f ∈ mask := by
      rw [Finset.mem_sdiff, and_iff_left other]
    have watched' : Watched (q.handlers h) (q.kernel fd) h (fd ∈ q.trials ∨ fd ∈ pending) (WriteTurn s h) := by
      rw [handler]
      refine ⟨?_, fun some => absurd ?_ some, fun sound block => ?_, fun known sound block => ?_⟩
      · exact watched.interest.imp_right fun interest => interest.trans (by rw [← requests])
      · exact Finset.sdiff_inter_self ..
      · exact (watched.held sound ((stays (by decide)).mp block)).imp (stays (by decide)).mpr (stays (by decide)).mpr
      · exact watched.blocked known sound ((stays (by decide)).mp block)
    -- a trial that is blocked stays to be reported
    have turns (h' : ℕ) (rest : Option Rest) (p : Pool) (turn : WriteTurn s h') :
        WriteTurn { s with pending := pending, pool := p, rest := rest } h' := by
      rcases turn with batch | ⟨r, some, -⟩
      · exact .inl batch
      · rw [none] at some
        cases some
    set due : Bool := decide (Flag.addWriteTrial ∈ mask ∧ Flag.writeBlock ∉ mask) with isDue
    have output' : OutputOwed (q.handlers h) (WriteTurn s h ∨ due = true) := by
      rw [handler]
      intro sound waiting
      rcases output sound waiting with trial | block | turn
      · by_cases block : .writeBlock ∈ mask
        · exact .inr (.inl ((stays (by decide)).mpr block))
        · exact .inr (.inr (.inr (decide_eq_true ⟨trial, block⟩)))
      · exact .inr (.inl ((stays (by decide)).mpr block))
      · exact .inr (.inr (.inl turn))
    have open_ (is : due = true) : .writeBlock ∉ (q.handlers h).reqMask := by
      rw [handler]
      exact fun block => (of_decide_eq_true is).2 ((stays (by decide)).mp block)
    have will (now : .addTrialRead ∈ mask ∧ .readWillBlock ∉ mask) : .readWillBlock ∉ (q.handlers h).reqMask := by
      rw [handler]
      exact fun block => now.2 ((stays (by decide)).mp block)
    have quiet (later : ¬ (.addTrialRead ∈ mask ∧ .readWillBlock ∉ mask)) :
        InputOwed (q.handlers h) (q.kernel fd) (ReadTurn s h) := by
      rw [handler]
      intro known sound asked unread
      have asked' : (setMask mask).input = true := by
        rw [← requests]
        exact asked
      exact (input known sound asked' unread).imp_left fun noted => absurd noted later
    generalize read : (if .addTrialRead ∈ mask ∧ .readWillBlock ∉ mask then q.onPendingRead bufferSize h fd r else q) = q'
    obtain ⟨keeps', served, open'⟩ := read_half own' (keeps_handle rfl : Keeps h s.pool q) (watched'.mono id .inl) output'
      will quiet open_ drains read
    refine inv.keeps keeps' ⟨fun fd' away here => ?_, fun h' _ => turns h' _ _, fun _ _ turn => turn, fun rest some other => ?_,
      fun _ here => here⟩ fun fd' own'' => ?_
    · rw [list] at here
      refine (List.mem_cons.mp here).resolve_left ?_
      rintro rfl
      exact away found
    · rw [Option.some.injEq] at some
      exact absurd (congrArg Rest.handler some).symm other
    · obtain rfl : fd = fd' := Option.some.inj (own.symm.trans own'')
      refine ⟨served.mono id (fun turn => ?_) id, fun rest some _ => ?_⟩
      · rcases turn with turn | is
        · exact turns h _ _ turn
        · exact .inr ⟨_, rfl, rfl, is⟩
      · rw [Option.some.injEq] at some
        rw [← some]
        exact ⟨rfl, open'⟩

/-- The mask of a handler behind a report. -/
def takenMask (mask : EventMask) (x : Report) : EventMask :=
  if x.output then reportedMask mask x \ {.singleWrite} else reportedMask mask x

theorem mem_takenMask {mask : EventMask} {x : Report} {f : Flag} : f ∈ takenMask mask x ↔ f ∈ mask ∧
    (x.input = true → f ≠ .readWillBlock) ∧ (x.output = true → f ≠ .writeBlock ∧ f ≠ .singleWrite) := by
  unfold takenMask reportedMask
  cases x.input <;> cases x.output <;>
    simp only [Bool.false_eq_true, if_true, if_false, Finset.mem_sdiff, Finset.mem_singleton] <;> tauto

theorem setMask_reportedMask (mask : EventMask) (x : Report) : setMask (reportedMask mask x) = setMask mask := by
  refine setMask_congr fun f request => ?_
  have will : f ≠ .readWillBlock := by
    rintro rfl
    exact absurd request (by decide)
  have block : f ≠ .writeBlock := by
    rintro rfl
    exact absurd request (by decide)
  unfold reportedMask
  cases x.input <;> cases x.output <;> simp [will, block]

theorem unblock_spec {p : Pool} (x : Report) (own : (p.handlers h).fd = some fd) : Keeps h p (Server.unblock p h x) ∧
    (Server.unblock p h x).handlers h = { p.handlers h with reqMask := takenMask (p.handlers h).reqMask x } ∧
    (Server.unblock p h x).kernel fd =
      rewatch (p.handlers h).reqMask (takenMask (p.handlers h).reqMask x) h (p.kernel fd) := by
  unfold Server.unblock takenMask
  dsimp only
  have same := setMask_reportedMask (p.handlers h).reqMask x
  generalize reportedMask (p.handlers h).reqMask x = mask at same ⊢
  split
  · next single =>
    refine ⟨Keeps.trans keeps_onMaskReq (keeps_handle rfl), ?_, ?_⟩
    · rw [setReqMask, handle_self, onMaskReq_handlers, if_pos single.1]
    · refine (onMaskReq_kernel own).trans ?_
      unfold rewatch
      rw [if_pos single.1, same]
  · next single =>
    have new : (if x.output then mask \ {.singleWrite} else mask) = mask := by
      split
      · next output =>
        exact Finset.sdiff_eq_self_of_disjoint (Finset.disjoint_singleton_right.mpr fun here => single ⟨output, here⟩)
      · rfl
    rw [new]
    refine ⟨keeps_handle rfl, handle_self _, ?_⟩
    rw [rewatch, if_pos (.inl same.symm)]
    rfl

/-- Unblocked, a socket is owed what it was, and the turns that the report gives. -/
theorem served_unblock {x : Report} {pending write read : Prop} (own : (p.handlers h).fd = some fd)
    (served : Served p h fd pending write read) : Served (Server.unblock p h x) h fd pending
      ((write ∧ x.output = false) ∨ x.output = true) ((read ∧ x.input = false) ∨ x.input = true) := by
  obtain ⟨watched, output, input⟩ := served
  obtain ⟨keeps, handler, kernel⟩ := unblock_spec x own
  have stays {f : Flag} (will : f ≠ .readWillBlock) (block : f ≠ .writeBlock) (single : f ≠ .singleWrite) :
      f ∈ takenMask (p.handlers h).reqMask x ↔ f ∈ (p.handlers h).reqMask := by
    rw [mem_takenMask, and_iff_left ⟨fun _ => will, fun _ => ⟨block, single⟩⟩]
  -- only a socket that is not reported as writable stays blocked
  have closed (block : .writeBlock ∈ takenMask (p.handlers h).reqMask x) : x.output = false := by
    rw [Bool.eq_false_iff]
    exact fun is => ((mem_takenMask.mp block).2.2 is).1 rfl
  refine ⟨?_, ?_, ?_⟩
  · rw [handler, kernel]
    have remasked : Watched { p.handlers h with reqMask := takenMask (p.handlers h).reqMask x }
        (rewatch (p.handlers h).reqMask (takenMask (p.handlers h).reqMask x) h (p.kernel fd)) h
        (fd ∈ (Server.unblock p h x).trials ∨ pending) write := by
      refine watched.remask (fun some => ?_) (fun sound block => ?_) fun block => .inl (mem_takenMask.mp block).1
      · obtain ⟨f, note, here⟩ := inter_ne_empty.mp some
        exact (watched.noted (inter_ne_empty.mpr ⟨f, note, (mem_takenMask.mp here).1⟩)).imp_left (keeps.trials fd)
      · have stays' {f : Flag} (will : f ≠ .readWillBlock) (here : f ∈ (p.handlers h).reqMask) :
            f ∈ takenMask (p.handlers h).reqMask x :=
          mem_takenMask.mpr ⟨here, fun _ => will, fun is => absurd is (by simp [closed block])⟩
        exact (watched.held sound (mem_takenMask.mp block).1).imp (stays' (by decide)) (stays' (by decide))
    exact { remasked with
      blocked := fun known sound block => (remasked.blocked known sound block).imp_right fun turn =>
        .inl ⟨turn, closed block⟩ }
  · rw [handler]
    intro sound waiting
    cases reported : x.output with
    | true => exact .inr (.inr (.inr rfl))
    | false =>
      rcases output sound waiting with trial | block | turn
      · exact .inl ((stays (by decide) (by decide) (by decide)).mpr trial)
      · refine .inr (.inl (mem_takenMask.mpr ⟨block, fun _ => by decide, fun is => ?_⟩))
        rw [reported] at is
        cases is
      · exact .inr (.inr (.inl ⟨turn, rfl⟩))
  · rw [handler, kernel]
    refine (input.remask (fun here => ?_) fun here => .inl (mem_takenMask.mp here).1).mono fun turn => ?_
    · exact (stays (by decide) (by decide) (by decide)).mpr here
    · cases x.input with
      | true => exact .inr rfl
      | false => exact .inl ⟨turn, rfl⟩

section
variable {x : Report} {batch : List (ℕ × Report)} {rest : Option Rest} {h' : ℕ}

/-- The turns to write that are left when the first report is taken. -/
theorem WriteTurn.left (turn : WriteTurn s h') (list : s.batch = (h, x) :: batch) (none : s.rest = none)
    (other : h' ≠ h ∨ x.output = false) : WriteTurn { s with batch := batch, pool := p, rest := rest } h' := by
  rcases turn with ⟨e, here, own, output⟩ | ⟨rest, some, -⟩
  · rw [list] at here
    rcases List.mem_cons.mp here with rfl | here
    · rcases other with other | quiet
      · exact absurd own.symm other
      · rw [quiet] at output
        cases output
    · exact .inl ⟨e, here, own, output⟩
  · rw [none] at some
    cases some

theorem ReadTurn.left (turn : ReadTurn s h') (list : s.batch = (h, x) :: batch) (other : h' ≠ h ∨ x.input = false) :
    ReadTurn { s with batch := batch, pool := p, rest := rest } h' := by
  obtain ⟨e, here, own, input⟩ := turn
  rw [list] at here
  rcases List.mem_cons.mp here with rfl | here
  · rcases other with other | quiet
    · exact absurd own.symm other
    · rw [quiet] at input
      cases input
  · exact ⟨e, here, own, input⟩

theorem control_report (list : s.batch = (h, x) :: batch) (none : s.rest = none)
    (mine : ∀ rest', rest = some rest' → rest'.handler = h) :
    Control h s { s with batch := batch, pool := p, rest := rest } where
  pending _ _ here := here
  write _ other turn := turn.left list none (.inl other)
  read _ other turn := turn.left list (.inl other)
  rest rest' some other := absurd (mine rest' some) other
  batch _ here := list ▸ List.mem_cons_of_mem _ here

end

/-- The next element of `events` fails the socket, or is read and due to write as it says. -/
theorem Invariant.event (inv : Invariant s) {x : Report} {batch : List (ℕ × Report)} (list : s.batch = (h, x) :: batch)
    (none : s.rest = none) {r : Received} (drains : Drains bufferSize r) :
    Invariant ({ s with batch := batch }.event bufferSize h x r) := by
  unfold Server.event
  dsimp only
  split
  · next gone =>
    refine inv.keeps (h := h) .refl ?_ fun fd open_ => ?_
    · rw [none]
      exact control_report list none fun _ some => by cases some
    · rw [gone] at open_
      cases open_
  · next fd own =>
    have served := (inv.sockets h fd own).served
    -- an error is all that a socket is told of
    have failing (err : Bytes) (text : err ≠ []) :
        Invariant { s with batch := batch, pool := s.pool.setError h err } := by
      refine inv.keeps keeps_setError (control_report list none (by simp [none])) fun fd' own' => ?_
      obtain rfl : fd = fd' := Option.some.inj (own.symm.trans own')
      refine ⟨served_of_error (served_setError served).watched (setError_error text), fun rest some _ => ?_⟩
      rw [none] at some
      cases some
    split
    · exact failing _ (by decide)
    · split
      · next err error =>
        refine failing err fun empty => inv.texts (h, x) (list ▸ List.mem_cons_self) ?_
        rw [error, empty]
      · change Invariant { s with
          batch := batch
          pool := if x.input then (Server.unblock s.pool h x).onPendingRead bufferSize h fd r else Server.unblock s.pool h x
          rest := some ⟨h, fd, x.input, x.output⟩ }
        obtain ⟨keeps, handler, -⟩ := unblock_spec x own
        obtain ⟨watched, output, input⟩ := served_unblock (x := x) own served
        generalize Server.unblock s.pool h x = q at keeps handler watched output input ⊢
        have own' : (q.handlers h).fd = some fd := by rw [handler]; exact own
        have will (is : x.input = true) : .readWillBlock ∉ (q.handlers h).reqMask := by
          rw [handler]
          exact fun here => (mem_takenMask.mp here).2.1 is rfl
        have open_ (is : x.output = true) : .writeBlock ∉ (q.handlers h).reqMask := by
          rw [handler]
          exact fun here => ((mem_takenMask.mp here).2.2 is).1 rfl
        have quiet (silent : ¬ x.input = true) : InputOwed (q.handlers h) (q.kernel fd) (ReadTurn s h ∧ x.input = false) :=
          input.mono fun turn => turn.resolve_right silent
        generalize read : (if x.input = true then q.onPendingRead bufferSize h fd r else q) = q'
        obtain ⟨keeps', served', open'⟩ := read_half own' keeps watched output will quiet open_ drains read
        refine inv.keeps keeps' (control_report list none fun rest some => ?_) fun fd' own'' => ?_
        · rw [← Option.some.inj some]
        · obtain rfl : fd = fd' := Option.some.inj (own.symm.trans own'')
          refine ⟨served'.mono id (fun turn => ?_) fun turn => turn.1.left list (.inr turn.2), fun rest some _ => ?_⟩
          · rcases turn with turn | is
            · exact turn.1.left list none (.inr turn.2)
            · exact .inr ⟨_, rfl, rfl, is⟩
          · rw [← Option.some.inj some]
            exact ⟨rfl, open'⟩

/-- The second half of a turn. -/
theorem Invariant.pendingWrites (inv : Invariant s) {rest : Rest} (some : s.rest = some rest)
    (answers : Answers iovMax (unsent (s.pool.handlers rest.handler)) results) :
    Invariant (if rest.check = true ∧ s.pool.getReference rest.fd ≠ Option.some rest.handler ∨ rest.due = false then
      { s with rest := none }
    else { s with rest := none, pool := s.pool.onPendingWrites iovMax rest.handler results }) := by
  have batch (p : Pool) (h : ℕ) (other : h ≠ rest.handler ∨ rest.due = false) (turn : WriteTurn s h) :
      WriteTurn { s with rest := none, pool := p } h := by
    rcases turn with ⟨e, here, turn⟩ | ⟨rest', is, own, due⟩
    · exact .inl ⟨e, here, turn⟩
    · rw [some, Option.some.injEq] at is
      subst is
      rcases other with other | quiet
      · exact absurd own.symm other
      · rw [quiet] at due
        cases due
  have control (p : Pool) : Control rest.handler s { s with rest := none, pool := p } := {
    pending := fun _ _ here => here
    write := fun h' other => batch p h' (.inl other)
    read := fun _ _ turn => turn
    rest := fun _ is => by cases is
    batch := fun _ here => here }
  split
  · next skipped =>
    refine inv.keeps .refl (control _) fun fd own => ?_
    have socket := inv.sockets rest.handler fd own
    have quiet : rest.due = false := by
      rcases skipped with ⟨-, gone⟩ | quiet
      · rw [(socket.rest rest some rfl).1, socket.reference] at gone
        exact absurd rfl gone
      · exact quiet
    refine ⟨socket.served.mono id (batch _ _ (.inr quiet)) id, fun _ is => ?_⟩
    cases is
  · next going =>
    have due : rest.due = true := by
      by_contra quiet
      exact going (.inr (by simpa using quiet))
    cases own : (s.pool.handlers rest.handler).fd with
    | none =>
      have gone (fd : ℕ) (open_ : (s.pool.handlers rest.handler).fd = Option.some fd) : False := by
        rw [own] at open_
        cases open_
      rcases onPendingWrites_cases iovMax s.pool rest.handler results with ⟨r, keeps, closed⟩ | keeps
      · exact inv.closes keeps closed (control _)
      · exact inv.keeps keeps (control _) fun fd open_ => (gone fd open_).elim
    | some fd =>
      have socket := inv.sockets rest.handler fd own
      have open_ := (socket.rest rest some rfl).2 due
      rcases serves_onPendingWrites (WriteTurn { s with rest := none } rest.handler) own socket.served.watched
        socket.served.input open_ answers with ⟨r, keeps, closed⟩ | ⟨keeps, served⟩
      · exact inv.closes keeps closed (control _)
      · refine inv.keeps keeps (control _) fun fd' own' => ?_
        obtain rfl : fd = fd' := Option.some.inj (own.symm.trans own')
        exact ⟨served, fun _ is => by cases is⟩

theorem Invariant.next (inv : Invariant s) {e : Event} (promised : Promised iovMax bufferSize s e)
    (stepped : next iovMax bufferSize s e = some t) : Invariant t := by
  cases e with
  | attach h fd unread room ok =>
    cases stepped
    exact inv.enter promised rfl (by decide) fun block => absurd block (by decide)
  | tryLink h fd ok =>
    cases stepped
    exact inv.enter promised rfl (by decide) fun _ => .inr (by decide)
  | append h data =>
    cases stepped
    exact inv.append
  | close h results =>
    cases stepped
    exact inv.closeStream
  | closeLater h results =>
    cases stepped
    exact inv.closeLater
  | setError h err =>
    cases stepped
    exact inv.setError
  | timeout h sfd =>
    cases stepped
    unfold Server.timeout
    split
    · exact inv
    · exact inv.handle rfl rfl rfl
  | consume h n =>
    cases stepped
    exact inv.handle rfl rfl rfl
  | writes =>
    rw [SocketPool.next, Option.ite_none_right_eq_some] at stepped
    obtain ⟨idle, made⟩ := stepped
    cases made
    exact inv.writes idle
  | trial r =>
    rw [SocketPool.next] at stepped
    split at stepped
    · next none list =>
      cases stepped
      exact inv.trial list none promised
    · cases stepped
  | wait reports =>
    rw [SocketPool.next, Option.ite_none_right_eq_some] at stepped
    cases stepped.2
    exact inv.wait promised
  | event r =>
    rw [SocketPool.next] at stepped
    split at stepped
    · next none list =>
      cases stepped
      exact inv.event list none promised
    · cases stepped
  | pendingWrites results =>
    rw [SocketPool.next] at stepped
    split at stepped
    · next rest some =>
      have kept := inv.pendingWrites some (promised rest some)
      dsimp only at stepped
      split at stepped
      · next skipped =>
        rw [if_pos skipped] at kept
        cases stepped
        exact kept
      · next going =>
        rw [if_neg going] at kept
        cases stepped
        exact kept
    · cases stepped
  | arrive fd =>
    cases stepped
    exact inv.arrive
  | drain fd =>
    cases stepped
    exact inv.drain

theorem invariant_initial : Invariant {} where
  sockets _ _ open_ := by cases open_
  references _ _ found := by cases found
  used := rfl
  texts _ here := by cases here

/-- The bytes that a socket has to write are noted for a trial, or the kernel reports room for them, or its turn has
come. -/
def OutputServed (s : Server) (h fd : ℕ) : Prop :=
  .addWriteTrial ∈ (s.pool.handlers h).reqMask ∧ .writeBlock ∉ (s.pool.handlers h).reqMask ∧
      (fd ∈ s.pool.trials ∨ fd ∈ s.pending) ∨
    .writeBlock ∈ (s.pool.handlers h).reqMask ∧ ReportsOutput (s.pool.kernel fd) ∨ WriteTurn s h

def InputServed (s : Server) (h fd : ℕ) : Prop :=
  .addTrialRead ∈ (s.pool.handlers h).reqMask ∧ .readWillBlock ∉ (s.pool.handlers h).reqMask ∧
      (fd ∈ s.pool.trials ∨ fd ∈ s.pending) ∨
    ReportsInput (s.pool.kernel fd) ∨ ReadTurn s h

/-- In every run the pool refers to each open socket, the kernel watches it as its mask says, and neither what it has to
write nor what it has to read is ever forgotten. -/
theorem io_is_never_forgotten (reach : (machine iovMax bufferSize).Reach (Promised iovMax bufferSize) s)
    (opened : (s.pool.handlers h).fd = some fd) : s.pool.getReference fd = some h ∧
      s.pool.fdSize = s.pool.ref.countP Option.isSome ∧
      ((s.pool.kernel fd).interest ≠ none → (s.pool.kernel fd).interest = some (setMask (s.pool.handlers h).reqMask, h) ∧
        ((s.pool.handlers h).stream.error = [] →
          ((s.pool.handlers h).stream.sendq.nbytes ≠ 0 → OutputServed s h fd) ∧
          ((setMask (s.pool.handlers h).reqMask).input = true → (s.pool.kernel fd).unread = true → InputServed s h fd))) := by
  have inv : Invariant s := reach.invariant (fun _ start => start ▸ invariant_initial)
    fun _ _ _ inv promised stepped => inv.next promised stepped
  obtain ⟨reference, ⟨watched, output, input⟩, -⟩ := inv.sockets h fd opened
  have noted {f : Flag} (note : f ∈ trialNoteMask) (here : f ∈ (s.pool.handlers h).reqMask) :=
    watched.noted (inter_ne_empty.mpr ⟨f, note, here⟩)
  refine ⟨reference, inv.used, fun known => ⟨watched.interest.resolve_left known, fun sound => ⟨fun waiting => ?_,
    fun asked unread => ?_⟩⟩⟩
  · by_cases block : .writeBlock ∈ (s.pool.handlers h).reqMask
    · exact .inr ((watched.blocked known sound block).imp_left fun reports => ⟨block, reports⟩)
    · rcases output sound waiting with trial | block' | turn
      · exact .inl ⟨trial, block, noted (by decide) trial⟩
      · exact absurd block' block
      · exact .inr (.inr turn)
  · exact (input known sound asked unread).imp_left fun trial => ⟨trial.1, trial.2, noted (by decide) trial.1⟩

end

/-- Two bytes are appended to a socket that takes one; the kernel has to report room for the other. -/
theorem io_is_never_forgotten_two : ∃ s, (machine 1024 4).Reach (Promised 1024 4) s ∧
    (s.pool.handlers 0).stream.accepted = lit "a" ∧ OutputServed s 0 3 := by
  have fresh : Fresh {} 0 3 := ⟨fun _ => by simp, fun _ => by simp, rfl, fun _ => by simp⟩
  have attached := Machine.Reach.step (M := machine 1024 4) (G := Promised 1024 4) (.initial rfl)
    (a := Event.attach 0 3 false true true) fresh rfl
  have appended := attached.step (a := Event.append 0 (lit "ab")) trivial rfl
  have writes := appended.step (a := Event.writes) trivial rfl
  have drains : Drains 4 ⟨none, .interrupted, false⟩ := by simp [Drains]
  have tried := writes.step (a := Event.trial ⟨none, .interrupted, false⟩) drains rfl
  have sent := tried.step (a := Event.pendingWrites [(⟨some 1, .again⟩, false)]) (fun rest is => by
    cases is
    intro _
    refine ⟨fun n same => ?_, fun same => by simp at same, ?_⟩
    · cases same
      exact ⟨by decide +kernel, by decide, fun _ => rfl⟩
    · change StreamSocket.writes _ = false
      decide +kernel) rfl
  refine ⟨_, sent, ?_, ?_⟩
  · decide +kernel
  · have served := (@io_is_never_forgotten 1024 4 _ 0 3 sent (by decide +kernel)).2.2 (by decide +kernel)
    exact (served.2 (by decide +kernel)).1 (by decide +kernel)

end BerylDB.SocketPool
