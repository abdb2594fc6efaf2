import BerylDB.QueueInvariants

/-! # Transactions of a connection

A block is what a client sends between an accepted MULTI and the next MRUN or MULTIRESET. -/
namespace BerylDB.CommandQueue
open Transition

def Control (c : CommandName) : Prop := c = .mrun ∨ c = .multireset

namespace Connection

/-- A MULTI that its handler has answered with success. -/
def Accepted (k : Connection) (m : ℕ) : Prop :=
  ∃ e ∈ k.executed, e.cmd.seq = m ∧ e.cmd.command = .multi ∧ e.result = some .success

/-- `r` was sent in the block that the accepted MULTI number `m` opens. -/
structure InBlock (k : Connection) (m : ℕ) (r : Received) : Prop where
  accepted : k.Accepted m
  received : r ∈ k.received
  after : m < r.cmd.seq
  unbroken : ∀ d ∈ k.received, m < d.cmd.seq → d.cmd.seq ≤ r.cmd.seq → ¬Control d.cmd.command

/-- `q` is the first MRUN after the accepted MULTI number `m`, with no MULTIRESET between them. -/
structure Closes (k : Connection) (m : ℕ) (q : Received) : Prop where
  accepted : k.Accepted m
  received : q ∈ k.received
  mrun : q.cmd.command = .mrun
  after : m < q.cmd.seq
  unbroken : ∀ d ∈ k.received, m < d.cmd.seq → d.cmd.seq < q.cmd.seq → ¬Control d.cmd.command

/-- Transactions run only on MRUN, once and in order, apart from what a later MULTIRESET drops. -/
structure TransactionsOnMRUN (k : Connection) : Prop where
  waits : ∀ m r, k.InBlock m r → ∀ e ∈ k.executed, e.cmd = r.cmd →
    ∃ q, k.Closes m q ∧ q.cmd.seq < e.received ∧ e.run = some q.cmd.seq
  once : (k.executed.map (·.cmd)).Nodup
  ordered : k.executed.Pairwise fun e f => ∀ m r s, k.InBlock m r → k.InBlock m s →
    e.cmd = r.cmd → f.cmd = s.cmd → r.cmd.seq < s.cmd.seq
  complete : ∀ m q, k.Closes m q → ∀ pre e post, k.executed = pre ++ e :: post →
    q.cmd.seq ≤ e.cmd.seq → ∀ r, k.InBlock m r → r.receipt ≠ .refused →
      (∃ f ∈ pre, f.cmd = r.cmd) ∨ ∃ d ∈ k.received, d.cmd.command = .multireset ∧ q.cmd.seq < d.cmd.seq
  separate : ∀ e ∈ k.executed, ∀ q, e.run = some q → e.cmd.seq < q

/-- A MULTIRESET withdraws what is queued, and what follows it runs outside any transaction. -/
structure ResetIsolates (k : Connection) : Prop where
  abandoned : ∀ m r, k.InBlock m r → ∀ d ∈ k.received, d.cmd.command = .multireset →
    r.cmd.seq < d.cmd.seq → ∀ e ∈ k.executed, e.cmd = r.cmd → e.received ≤ d.cmd.seq
  outside : ∀ d ∈ k.received, d.cmd.command = .multireset → ∀ r ∈ k.received, d.cmd.seq < r.cmd.seq →
    (∀ c ∈ k.received, d.cmd.seq < c.cmd.seq → c.cmd.seq ≤ r.cmd.seq → c.cmd.command ≠ .multi) →
      r.cmd ∉ k.user.pendingMulti ∧ ∀ e ∈ k.executed, e.cmd = r.cmd → e.run = none

end Connection

/-- The open block is exactly what waits in the multi queue, or has left it. -/
structure Blocks (k : Connection) : Prop where
  multi : ∀ m, k.Accepted m → (∀ d ∈ k.received, m < d.cmd.seq → ¬Control d.cmd.command) →
    k.user.multi
  unlisted : ∀ m r, k.InBlock m r → r.cmd ∉ k.user.pendingList
  kept : ∀ m r, k.InBlock m r → r.receipt ≠ .refused → r.cmd ∈ k.user.pendingMulti ∨
    (∃ e ∈ k.executed, e.cmd = r.cmd) ∨
      ∃ d ∈ k.received, d.cmd.command = .multireset ∧ r.cmd.seq < d.cmd.seq
  onMRUN : k.TransactionsOnMRUN

namespace Connection

variable {k : Connection} {u : LocalUser} {x r q : Received} {m : ℕ}

theorem Accepted.lt (h : k.Accepted m) (hlog : Log k) : ∀ c ∈ k.user.pendingList, m < c.seq := by
  obtain ⟨e, he, rfl, hm, _⟩ := h
  have hr : e.run.isSome = false := by
    by_contra hr
    have := hlog.queued_other _ (hlog.executed e he) (by simp [hr])
    simp [hm] at this
  exact hlog.executed_list e he hr

theorem InBlock.old (h : InBlock ⟨u, k.received ++ [x], k.executed⟩ m r) (hr : r ∈ k.received) :
    k.InBlock m r :=
  ⟨h.accepted, hr, h.after, fun d hd => h.unbroken d (List.mem_append_left _ hd)⟩

theorem Closes.old (h : Closes ⟨u, k.received ++ [x], k.executed⟩ m q) (hq : q ∈ k.received) :
    k.Closes m q :=
  ⟨h.accepted, hq, h.mrun, h.after, fun d hd => h.unbroken d (List.mem_append_left _ hd)⟩

theorem Closes.grow (h : k.Closes m q) (hlog : Log k) (hx : x.cmd.seq = k.received.length) :
    Closes ⟨u, k.received ++ [x], k.executed⟩ m q :=
  ⟨h.accepted, List.mem_append_left _ h.received, h.mrun, h.after, List.forall_mem_append.mpr
    ⟨h.unbroken, by have := hlog.seq_lt h.received; simp; omega⟩⟩

/-- What is sent in a block comes before the MRUN that closes it. -/
theorem InBlock.lt_closes (h : k.InBlock m r) (hq : k.Closes m q) : r.cmd.seq < q.cmd.seq := by
  by_contra hle
  exact h.unbroken q hq.received hq.after (by omega) (.inl hq.mrun)

/-- A command after a block member that ends the block comes no earlier than the closing MRUN. -/
theorem Closes.le_control (hq : k.Closes m q) {d : Received} (hd : d ∈ k.received)
    (hc : Control d.cmd.command) (hm : m < d.cmd.seq) : q.cmd.seq ≤ d.cmd.seq := by
  by_contra hlt
  exact hq.unbroken d hd hm (by omega) hc

theorem TransactionsOnMRUN.arrive (h : k.TransactionsOnMRUN) (hlog : Log k)
    (hx : x.cmd.seq = k.received.length) :
    TransactionsOnMRUN ⟨u, k.received ++ [x], k.executed⟩ := by
  have hne : ∀ e ∈ k.executed, e.cmd.seq < x.cmd.seq := fun e he => hx ▸ hlog.seq_lt (hlog.executed e he)
  have hold : ∀ {m r}, InBlock ⟨u, k.received ++ [x], k.executed⟩ m r → ∀ e ∈ k.executed, e.cmd = r.cmd →
      k.InBlock m r := by
    intro m r hr e he heq
    rcases List.mem_append.mp hr.received with hmem | hmem
    · exact hr.old hmem
    · obtain rfl : r = x := by simpa using hmem
      exact absurd (heq ▸ hne e he) (Nat.lt_irrefl _)
  refine { waits := ?_, once := h.once, ordered := ?_, complete := ?_, separate := h.separate }
  · intro m r hr e he heq
    obtain ⟨q, hq, hlt, hrun⟩ := h.waits m r (hold hr e he heq) e he heq
    exact ⟨q, hq.grow hlog hx, hlt, hrun⟩
  · refine h.ordered.imp_of_mem fun {e f} he hf hef m r s hr hs her hfs => ?_
    exact hef m r s (hold hr e he her) (hold hs f hf hfs) her hfs
  · intro m q hq pre e post heq hle r hr hunref
    have heq : k.executed = pre ++ e :: post := heq
    have he : e ∈ k.executed := by simp [heq]
    rcases List.mem_append.mp hq.received with hqmem | hqmem
    · have hrmem : r ∈ k.received := by
        rcases List.mem_append.mp hr.received with hrmem | hrmem
        · exact hrmem
        · obtain rfl : r = x := by simpa using hrmem
          have := hr.lt_closes hq
          have := hlog.seq_lt hqmem
          omega
      rcases h.complete m q (hq.old hqmem) pre e post heq hle r (hr.old hrmem) hunref with hf | ⟨d, hd, hdr⟩
      · exact .inl hf
      · exact .inr ⟨d, List.mem_append_left _ hd, hdr⟩
    · obtain rfl : q = x := by simpa using hqmem
      exact absurd (hne e he) (by omega)

theorem InBlock.user (h : InBlock ⟨u, k.received, k.executed⟩ m r) : k.InBlock m r :=
  ⟨h.accepted, h.received, h.after, h.unbroken⟩

theorem Closes.user (h : Closes ⟨u, k.received, k.executed⟩ m q) : k.Closes m q :=
  ⟨h.accepted, h.received, h.mrun, h.after, h.unbroken⟩

/-- The property speaks of the history alone. -/
theorem TransactionsOnMRUN.user (h : k.TransactionsOnMRUN) :
    TransactionsOnMRUN ⟨u, k.received, k.executed⟩ where
  waits m r hr e he heq := by
    obtain ⟨q, hq, hlt⟩ := h.waits m r hr.user e he heq
    exact ⟨q, ⟨hq.accepted, hq.received, hq.mrun, hq.after, hq.unbroken⟩, hlt⟩
  once := h.once
  ordered := h.ordered.imp fun hef m r s hr hs => hef m r s hr.user hs.user
  complete m q hq pre e post heq hle r hr := h.complete m q hq.user pre e post heq hle r hr.user
  separate := h.separate

theorem TransactionsOnMRUN.perform (h : k.TransactionsOnMRUN) (e : Execution)
    (hin : ∀ m r, InBlock ⟨u, k.received, k.executed ++ [e]⟩ m r → k.InBlock m r)
    (hcl : ∀ m q, Closes ⟨u, k.received, k.executed ++ [e]⟩ m q → k.Closes m q)
    (hfresh : ∀ f ∈ k.executed, f.cmd ≠ e.cmd)
    (hwaits : ∀ m r, k.InBlock m r → e.cmd = r.cmd →
      ∃ q, k.Closes m q ∧ q.cmd.seq < e.received ∧ e.run = some q.cmd.seq)
    (hordered : ∀ m r, k.InBlock m r → e.cmd = r.cmd → ∀ f ∈ k.executed, f.run.isSome → f.cmd.seq < r.cmd.seq)
    (hcomplete : ∀ m q, k.Closes m q → q.cmd.seq ≤ e.cmd.seq → ∀ r, k.InBlock m r →
      r.receipt ≠ .refused → (∃ f ∈ k.executed, f.cmd = r.cmd) ∨
        ∃ d ∈ k.received, d.cmd.command = .multireset ∧ q.cmd.seq < d.cmd.seq)
    (hseparate : ∀ q, e.run = some q → e.cmd.seq < q) :
    TransactionsOnMRUN ⟨u, k.received, k.executed ++ [e]⟩ := by
  refine { waits := ?_, once := ?_, ordered := ?_, complete := ?_, separate := ?_ }
  · intro m r hr' f hf heq
    have hr := hin m r hr'
    rcases List.mem_append.mp hf with hf | hf
    · obtain ⟨q, hq, hlt⟩ := h.waits m r hr f hf heq
      exact ⟨q, ⟨hr'.accepted, hq.received, hq.mrun, hq.after, hq.unbroken⟩, hlt⟩
    · obtain rfl : f = e := List.mem_singleton.mp hf
      obtain ⟨q, hq, hlt⟩ := hwaits m r hr heq
      exact ⟨q, ⟨hr'.accepted, hq.received, hq.mrun, hq.after, hq.unbroken⟩, hlt⟩
  · simp only [List.map_append, List.map_cons, List.map_nil]
    refine List.nodup_append.mpr ⟨h.once, by simp, ?_⟩
    simpa using hfresh
  · refine List.pairwise_append.mpr ⟨?_, List.pairwise_singleton .., ?_⟩
    · exact h.ordered.imp fun hef m r s hr hs => hef m r s (hin m r hr) (hin m s hs)
    · simp only [List.mem_singleton, forall_eq]
      intro f hf m r s hr hs hfr hes
      obtain ⟨q, _, _, hrun⟩ := h.waits m r (hin m r hr) f hf hfr
      exact hfr ▸ hordered m s (hin m s hs) hes f hf (by simp [hrun])
  · intro m q hq pre f post heq hle r hr hunref
    have heq : k.executed ++ [e] = pre ++ f :: post := heq
    have hq := hcl m q hq
    have hr := hin m r hr
    rcases List.eq_nil_or_concat post with rfl | ⟨post', g, rfl⟩
    · obtain ⟨rfl, hfe⟩ := List.append_inj' heq rfl
      obtain rfl : e = f := by simpa using hfe
      exact hcomplete m q hq hle r hr hunref
    · have heq : k.executed ++ [e] = (pre ++ f :: post') ++ [g] := by simpa using heq
      exact h.complete m q hq pre f post' (List.append_inj' heq rfl).1 hle r hr hunref
  · exact List.forall_mem_append.mpr ⟨h.separate, by simpa using hseparate⟩

end Connection

namespace Blocks

variable {k k' : Connection}

theorem fresh : Blocks .fresh := by
  refine ⟨?_, ?_, ?_, ?_, ?_, ?_, ?_, ?_⟩
  all_goals simp [Connection.Accepted, Connection.fresh, LocalUser.fresh]
  intro m r hr
  simpa using hr.received

/-- What a new arrival must do for the open block: it may be a member only if the multi queue
takes it. -/
theorem arrive (h : Blocks k) (hlog : Log k) {c : PendingCMD} {receipt : Receipt} {u : LocalUser}
    (hs : c.seq = k.received.length) (hm : u.multi = k.user.multi)
    (hlist : ∀ d ∈ u.pendingList, d ∈ k.user.pendingList ∨
      d = c ∧ (k.user.multi → Control c.command))
    (hkeep : k.user.multi → ¬Control c.command → receipt ≠ .refused → c ∈ u.pendingMulti)
    (hpm : c.command = .multireset ∨ ∀ d ∈ k.user.pendingMulti, d ∈ u.pendingMulti) :
    Blocks ⟨u, k.received ++ [⟨c, receipt⟩], k.executed⟩ := by
  have hmulti : ∀ m, k.Accepted m → (∀ d ∈ k.received, m < d.cmd.seq → ¬Control d.cmd.command) →
      k.user.multi := h.multi
  have hnew : ∀ {m r}, Connection.InBlock ⟨u, k.received ++ [⟨c, receipt⟩], k.executed⟩ m r →
      k.InBlock m r ∨ r = ⟨c, receipt⟩ ∧ k.user.multi ∧ ¬Control c.command := by
    intro m r hr
    rcases List.mem_append.mp hr.received with hmem | hmem
    · exact .inl (hr.old hmem)
    · obtain rfl : r = ⟨c, receipt⟩ := by simpa using hmem
      refine .inr ⟨rfl, hmulti m hr.accepted fun d hd hlt => ?_, ?_⟩
      · exact hr.unbroken d (List.mem_append_left _ hd) hlt (by have := hlog.seq_lt hd; simp only; omega)
      · exact hr.unbroken ⟨c, receipt⟩ (by simp) hr.after (Nat.le_refl _)
  refine ⟨?_, ?_, ?_, h.onMRUN.arrive hlog hs⟩
  · intro m ha hd
    exact hm ▸ hmulti m ha fun d hdr => hd d (List.mem_append_left _ hdr)
  · intro m r hr hmem
    rcases hnew hr with hr | ⟨rfl, hopen, hctl⟩
    · rcases hlist _ hmem with hold | ⟨heq, _⟩
      · exact h.unlisted m r hr hold
      · have := hlog.seq_lt hr.received
        rw [heq] at this
        omega
    · rcases hlist _ hmem with hold | ⟨_, hctl'⟩
      · have := hlog.seq_lt (hlog.listed _ hold)
        simp only at this
        omega
      · exact hctl (hctl' hopen)
  · intro m r hr hunref
    rcases hnew hr with hr | ⟨rfl, hopen, hctl⟩
    · rcases h.kept m r hr hunref with hq | he | ⟨d, hd, hdr⟩
      · rcases hpm with hreset | hpm
        · refine .inr (.inr ⟨⟨c, receipt⟩, by simp, hreset, ?_⟩)
          have := hlog.seq_lt hr.received
          simp only
          omega
        · exact .inl (hpm _ hq)
      · exact .inr (.inl he)
      · exact .inr (.inr ⟨d, List.mem_append_left _ hd, hdr⟩)
    · exact .inl (hkeep hopen hctl hunref)

private theorem member_closes {q : PendingCMD} {rest : List PendingCMD} (h : Queues k) (hlog : Log k)
    (hl : k.user.pendingList = q :: rest) (hqm : q.command = .mrun) (hq : k.user.quitting = false)
    {m : ℕ} {r : Received} (hr : k.InBlock m r) (hmem : r.cmd ∈ k.user.pendingMulti) :
    k.Closes m ⟨q, .listed⟩ := by
  have hql : q ∈ k.user.pendingList := by simp [hl]
  refine ⟨hr.accepted, hlog.listed q hql, hqm, hr.accepted.lt hlog q hql, ?_⟩
  intro d hd hmd hdq hctl
  have hrd : r.cmd.seq < d.cmd.seq := by
    by_contra hle
    exact hr.unbroken d hd hmd (by omega) hctl
  rcases hctl with hctl | hctl
  · obtain ⟨q', hq', _, hle⟩ := h.mrun_waits hq _ hmem d hd hctl hrd
    have := hlog.front_le hl q' hq'
    simp only at hdq
    omega
  · have := h.since_reset _ hmem d hd hctl
    omega

/-- By the time a command sent after the closing MRUN is executed, no member of the block waits. -/
private theorem complete_of_drained (h : Blocks k) (hlog : Log k) {n m : ℕ} {q r : Received}
    (hr : k.InBlock m r) (hq : k.Closes m q) (hunref : r.receipt ≠ .refused) (hle : q.cmd.seq ≤ n)
    (hdrained : q.cmd.seq ≤ n → r.cmd.seq < q.cmd.seq → r.cmd ∉ k.user.pendingMulti) :
    (∃ f ∈ k.executed, f.cmd = r.cmd) ∨
      ∃ d ∈ k.received, d.cmd.command = .multireset ∧ q.cmd.seq < d.cmd.seq := by
  rcases h.kept m r hr hunref with hmem | he | ⟨d, hd, hdr, hlt⟩
  · exact absurd hmem (hdrained hle (hr.lt_closes hq))
  · exact .inl he
  · refine .inr ⟨d, hd, hdr, Nat.lt_of_le_of_ne ?_ fun heq => ?_⟩
    · exact hq.le_control hd (.inr hdr) (Nat.lt_trans hr.after hlt)
    · have hqm := hq.mrun
      rw [hlog.unique hq.received hd heq, hdr] at hqm
      simp at hqm

theorem member (h : Blocks k) (hqs : Queues k) (hlog : Log k) {q : PendingCMD} {rest : List PendingCMD}
    (hl : k.user.pendingList = q :: rest) (hq : k.user.quitting = false) (hr : k.user.multiRunning)
    {m : PendingCMD} {ms : List PendingCMD} (hp : k.user.pendingMulti = m :: ms) :
    Blocks { k.perform k.user m (some q.seq) with
      user := { (k.perform k.user m (some q.seq)).user with pendingMulti := ms } } := by
  have hmem : m ∈ k.user.pendingMulti := by simp [hp]
  have hql : q ∈ k.user.pendingList := by simp [hl]
  have hqm : q.command = .mrun := by
    obtain ⟨q', rest', hl', hqm⟩ := hqs.running hq hr
    obtain rfl : q = q' := by rw [hl] at hl'; exact (List.cons.inj hl').1
    exact hqm
  obtain ⟨name, hname⟩ : ∃ name, m.command = .other name := hlog.queued_other _ (hlog.queued m hmem) rfl
  have hu : (execute k.user m).1 = k.user := by
    rcases execute_cases k.user m with he | he | he
    · exact he
    all_goals simp [hname] at he
  have hacc : ∀ b, Connection.Accepted { k.perform k.user m (some q.seq) with
      user := { (k.perform k.user m (some q.seq)).user with pendingMulti := ms } } b → k.Accepted b := by
    rintro b ⟨e, he, hb, hmulti, hsucc⟩
    rcases List.mem_append.mp he with he | he
    · exact ⟨e, he, hb, hmulti, hsucc⟩
    · obtain rfl := List.mem_singleton.mp he
      simp [hname] at hmulti
  have hin : ∀ b r, Connection.InBlock { k.perform k.user m (some q.seq) with
      user := { (k.perform k.user m (some q.seq)).user with pendingMulti := ms } } b r → k.InBlock b r :=
    fun b r hr => ⟨hacc b hr.accepted, hr.received, hr.after, hr.unbroken⟩
  refine ⟨?_, ?_, ?_, ?_⟩
  · intro b hb hd
    simpa [Connection.perform, hu] using h.multi b (hacc b hb) hd
  · intro b r hr
    simpa [Connection.perform] using h.unlisted b r (hin b r hr)
  · intro b r hr hunref
    rcases h.kept b r (hin b r hr) hunref with hk | ⟨e, he, heq⟩ | hk
    · rcases List.mem_cons.mp (hp ▸ hk) with heq | hk
      · exact .inr (.inl ⟨_, List.mem_append_right _ (List.mem_singleton_self _), heq.symm⟩)
      · exact .inl hk
    · exact .inr (.inl ⟨e, List.mem_append_left _ he, heq⟩)
    · exact .inr (.inr hk)
  · have hmr : ∀ b r, k.InBlock b r → m = r.cmd → r.cmd ∈ k.user.pendingMulti := fun b r _ heq => heq ▸ hmem
    refine h.onMRUN.perform _ hin (fun b q hq => ⟨hacc b hq.accepted, hq.received, hq.mrun, hq.after, hq.unbroken⟩)
      (hlog.queued_fresh hmem) ?_ ?_ ?_ ?_
    · intro b r hr heq
      have hc := member_closes hqs hlog hl hqm hq hr (hmr b r hr heq)
      exact ⟨_, hc, hlog.seq_lt hc.received, rfl⟩
    · intro b r hr heq f hf hrun
      exact hlog.executed_multi f hf hrun _ (hmr b r hr heq)
    · intro b p hp hle r hr hunref
      refine h.complete_of_drained hlog hr hp hunref hle fun hle hlt hrm => ?_
      obtain ⟨q', hq', hqm', hle'⟩ := hqs.mrun_waits hq _ hrm p hp.received hp.mrun hlt
      have := hqs.before_mrun q' hq' hqm' m hmem
      simp only at hle
      omega
    · rintro p ⟨⟩
      exact hqs.before_mrun q hql hqm m hmem

theorem plain (h : Blocks k) (hqs : Queues k) (hlog : Log k) {c : PendingCMD} {rest : List PendingCMD}
    (hl : k.user.pendingList = c :: rest) (hq : k.user.quitting = false)
    (hc : c.command = .pong ∨ k.user.multiRunning = false ∧ ¬(k.user.multi ∧ c.command = .mrun)) :
    Blocks (k.perform { k.user with pendingList := rest } c none) := by
  have hmem : c ∈ k.user.pendingList := by simp [hl]
  -- a MULTI accepted now has only MULTIRESETs behind it, so its block is still empty
  have hacc : ∀ b, (k.perform { k.user with pendingList := rest } c none).Accepted b →
      k.Accepted b ∨ b = c.seq ∧ c.command = .multi ∧ c.passes ∧
        (execute { k.user with pendingList := rest } c).2 = some .success := by
    rintro b ⟨e, he, hb, hmulti, hsucc⟩
    rcases List.mem_append.mp he with he | he
    · exact .inl ⟨e, he, hb, hmulti, hsucc⟩
    · obtain rfl := List.mem_singleton.mp he
      refine .inr ⟨hb.symm, hmulti, ?_, hsucc⟩
      by_contra hpass
      simp [execute, hpass] at hsucc
  have hempty : ∀ r ∈ k.received, c.command = .multi → c.passes → c.seq < r.cmd.seq →
      r.cmd.command = .multireset := fun r hr hm hp hlt => hqs.opening hq c hmem hm hp r hr hlt
  have hin : ∀ b r, (k.perform { k.user with pendingList := rest } c none).InBlock b r → k.InBlock b r := by
    intro b r hr
    rcases hacc b hr.accepted with hb | ⟨rfl, hm, hp, _⟩
    · exact ⟨hb, hr.received, hr.after, hr.unbroken⟩
    · exact absurd (.inr (hempty r hr.received hm hp hr.after)) (hr.unbroken r hr.received hr.after (Nat.le_refl _))
  have hcl : ∀ b q, (k.perform { k.user with pendingList := rest } c none).Closes b q → k.Closes b q := by
    intro b q hqc
    rcases hacc b hqc.accepted with hb | ⟨rfl, hm, hp, _⟩
    · exact ⟨hb, hqc.received, hqc.mrun, hqc.after, hqc.unbroken⟩
    · have := hempty q hqc.received hm hp hqc.after
      simp [hqc.mrun] at this
  refine ⟨?_, ?_, ?_, ?_⟩
  · intro b hb hd
    rcases hacc b hb with hb | ⟨rfl, hm, hp, hsucc⟩
    · have hmulti := h.multi b hb hd
      change (execute { k.user with pendingList := rest } c).1.multi
      rcases execute_cases { k.user with pendingList := rest } c with he | ⟨_, _, he⟩ | ⟨hreset, _, he⟩
      · rw [he]; exact hmulti
      · rw [he]
      · exact absurd (.inr hreset) (hd _ (hlog.listed c hmem) (hb.lt hlog c hmem))
    · simp only [execute, hp, if_true, hm, handle] at hsucc
      simp only [Connection.perform, execute, hp, if_true, hm, handle]
      split <;> simp_all
  · intro b r hr hmemr
    have hmemr : r.cmd ∈ rest := by simpa [Connection.perform] using hmemr
    exact h.unlisted b r (hin b r hr) (by simp [hl, hmemr])
  · intro b r hr hunref
    rcases h.kept b r (hin b r hr) hunref with hk | ⟨e, he, heq⟩ | hk
    · exact .inl (by simpa [Connection.perform] using hk)
    · exact .inr (.inl ⟨e, List.mem_append_left _ he, heq⟩)
    · exact .inr (.inr hk)
  · have hout : ∀ b r, k.InBlock b r → c ≠ r.cmd := fun b r hr heq => h.unlisted b r hr (heq ▸ hmem)
    refine h.onMRUN.perform _ hin hcl (hlog.listed_fresh hmem) (fun b r hr heq => absurd heq (hout b r hr))
      (fun b r hr heq => absurd heq (hout b r hr)) ?_ (by simp)
    intro b p hp hle r hr hunref
    refine h.complete_of_drained hlog hr hp hunref hle fun hle hlt hrm => ?_
    obtain ⟨q', hq', hqm', hle'⟩ := hqs.mrun_waits hq _ hrm p hp.received hp.mrun hlt
    obtain rfl : c = q' := by
      have hfront := hlog.front_le hl q' hq'
      have := hlog.unique (hlog.listed c hmem) (hlog.listed q' hq') (by simp only at hle ⊢; omega)
      simpa using this
    have hidle : k.user.multiRunning = false ∧ k.user.multi = false := by simpa [hqm'] using hc
    simp [hqs.idle hidle.2 hidle.1] at hrm

theorem user (h : Blocks k) {u : LocalUser}
    (hmulti : ∀ m, k.Accepted m → (∀ d ∈ k.received, m < d.cmd.seq → ¬Control d.cmd.command) → u.multi)
    (hlist : ∀ c ∈ u.pendingList, c ∈ k.user.pendingList) (hpm : u.pendingMulti = k.user.pendingMulti) :
    Blocks ⟨u, k.received, k.executed⟩ where
  multi := hmulti
  unlisted m r hr hmem := h.unlisted m r hr.user (hlist _ hmem)
  kept m r hr hunref := by simpa [hpm] using h.kept m r hr.user hunref
  onMRUN := h.onMRUN.user

theorem change (h : Blocks k) (hqs : Queues k) (hlog : Log k) (hc : Change SettledArrival k k') :
    Blocks k' := by
  cases hc with
  | environment locked quitting hquit => exact h.user h.multi (fun c hc => hc) rfl
  | refuse c hs hg hq hc =>
    refine h.arrive hlog hs rfl (fun d hd => .inl hd) (by simp) (.inr fun d hd => hd)
  | queue c hs hg hq hm name hc =>
    exact h.arrive hlog hs rfl (fun d hd => .inl hd) (by simp) (.inr fun d hd => by simp [hd])
  | reset c hs hg hq hc =>
    refine h.arrive hlog hs rfl ?_ (fun _ hctl => absurd (.inr hc) hctl) (.inl hc)
    intro d hd
    rcases List.mem_append.mp hd with hd | hd
    · exact .inl hd
    · exact .inr ⟨by simpa using hd, fun _ => .inr hc⟩
  | list c hs hg hq hr hc =>
    have hctl : k.user.multi → Control c.command := by
      intro hm
      simp only [hm, if_true] at hc
      rcases hc with hpong | hc
      · rcases hg with hg | hg
        · exact absurd hg hr
        · simp [hg.2 hpong] at hm
      · exact .inl hc
    refine h.arrive hlog hs rfl ?_ (fun hm hnot => absurd (hctl hm) hnot) (.inr fun d hd => hd)
    intro d hd
    rcases List.mem_append.mp hd with hd | hd
    · exact .inl hd
    · exact .inr ⟨by simpa using hd, hctl⟩
  | drop hq => exact h.user h.multi (by simp) rfl
  | start c rest hl hq hc hm =>
    refine h.user (fun m hm hd => ?_) (fun c hc => hc) rfl
    have hmem : c ∈ k.user.pendingList := by simp [hl]
    exact absurd (.inl hc) (hd _ (hlog.listed c hmem) (Connection.Accepted.lt hm hlog c hmem))
  | stop hq hp => exact h.user h.multi (fun c hc => hc) rfl
  | member c rest hl hq hr m ms hp => exact h.member hqs hlog hl hq hr hp
  | plain c rest hl hq hc => exact h.plain hqs hlog hl hq hc

end Blocks

/-- The guard of an arrival when, besides, `Execute` refuses no MULTIRESET. -/
abbrev ResettableArrival (k : Connection) (command : CommandName) (passes : Bool) : Prop :=
  SettledArrival k command passes ∧ (command = .multireset → passes)

/-- What a MULTIRESET leaves behind, while every one of them passes the checks of `Execute`. -/
structure Resets (k : Connection) : Prop where
  passes : ∀ r ∈ k.received, r.cmd.command = .multireset → r.cmd.passes
  executed : ∀ e ∈ k.executed, e.run.isSome → ∀ d ∈ k.received, d.cmd.command = .multireset →
    e.cmd.seq < d.cmd.seq → e.received ≤ d.cmd.seq
  listed : k.user.quitting = false → ∀ r ∈ k.received, r.receipt = .listed →
    r.cmd ∈ k.user.pendingList ∨ ∃ e ∈ k.executed, e.cmd = r.cmd
  waiting : k.user.quitting = false → ∀ d ∈ k.received, d.cmd.command = .multireset →
    (∀ c ∈ k.received, d.cmd.seq < c.cmd.seq → c.cmd.command ≠ .multi) → k.user.multi →
      ∃ c ∈ k.user.pendingList, c.command = .multireset
  queued : ∀ r ∈ k.received, r.receipt = .queued → ∀ d ∈ k.received, d.cmd.command = .multireset →
    d.cmd.seq < r.cmd.seq → ∃ c ∈ k.received, c.cmd.command = .multi ∧ d.cmd.seq < c.cmd.seq ∧ c.cmd.seq < r.cmd.seq

namespace Resets

variable {k k' : Connection}

theorem fresh : Resets .fresh := by
  constructor <;> simp [Connection.fresh]

/-- An arrival: it must be listed at the end of the list, queued behind a MULTI, or refused. -/
theorem arrive (h : Resets k) (hlog : Log k) {c : PendingCMD} {receipt : Receipt} {u : LocalUser}
    (hs : c.seq = k.received.length) (hq : k.user.quitting = false) (hm : u.multi = k.user.multi)
    (hg : ResettableArrival k c.command c.passes) (hreset : c.command = .multireset → receipt = .listed)
    (hlist : u.pendingList = k.user.pendingList ∧ receipt ≠ .listed ∨ u.pendingList = k.user.pendingList ++ [c])
    (hqueued : receipt = .queued → k.user.multi ∧ c.command ≠ .multireset) :
    Resets ⟨u, k.received ++ [⟨c, receipt⟩], k.executed⟩ := by
  have hlt : ∀ r ∈ k.received, r.cmd.seq < c.seq := fun r hr => hs ▸ hlog.seq_lt hr
  have hsub : ∀ d ∈ k.user.pendingList, d ∈ u.pendingList := by
    intro d hd
    rcases hlist with hl | hl <;> simp [hl, hd]
  refine ⟨?_, ?_, ?_, ?_, ?_⟩
  · exact List.forall_mem_append.mpr ⟨h.passes, by simpa using hg.2⟩
  · refine fun e he hr => List.forall_mem_append.mpr ⟨h.executed e he hr, ?_⟩
    simpa [hs] using fun _ _ => hlog.counted e he
  · refine fun _ => List.forall_mem_append.mpr ⟨fun r hr hrl => ?_, ?_⟩
    · exact (h.listed hq r hr hrl).imp_left (hsub _)
    · simp only [List.mem_singleton, forall_eq]
      rintro rfl
      have hl : u.pendingList = k.user.pendingList ++ [c] := by simpa using hlist
      exact .inl (by simp [hl])
  · intro _
    refine List.forall_mem_append.mpr ⟨fun d hd hdr hno hmulti => ?_, ?_⟩
    · obtain ⟨w, hw, hwr⟩ := h.waiting hq d hd hdr (fun r hr => hno r (List.mem_append_left _ hr)) (hm ▸ hmulti)
      exact ⟨w, hsub w hw, hwr⟩
    · simp only [List.mem_singleton, forall_eq]
      intro hcr _ _
      have hl : u.pendingList = k.user.pendingList ++ [c] := by simpa [hreset hcr] using hlist
      exact ⟨c, by simp [hl], hcr⟩
  · refine List.forall_mem_append.mpr ⟨fun r hr hrq => List.forall_mem_append.mpr ⟨fun d hd hdr hdlt => ?_, ?_⟩, ?_⟩
    · obtain ⟨w, hw, hwm⟩ := h.queued r hr hrq d hd hdr hdlt
      exact ⟨w, List.mem_append_left _ hw, hwm⟩
    · simp only [List.mem_singleton, forall_eq]
      exact fun _ hclt => absurd (hlt r hr) (by omega)
    · simp only [List.mem_singleton, forall_eq]
      intro hrq
      obtain ⟨hmulti, hcr⟩ := hqueued hrq
      refine List.forall_mem_append.mpr ⟨fun d hd hdr _ => ?_, by simp [hcr]⟩
      by_contra hno
      -- no MULTI since the MULTIRESET, so it still waits to clear the flag that `Add` has read
      have hno : ∀ w ∈ k.received, d.cmd.seq < w.cmd.seq → w.cmd.command ≠ .multi :=
        fun w hw hdw hwm => hno ⟨w, List.mem_append_left _ hw, hwm, hdw, hlt w hw⟩
      obtain ⟨w, hw, hwr⟩ := h.waiting hq d hd hdr hno hmulti
      have hp : w.passes := h.passes _ (hlog.listed w hw) hwr
      rcases hg.1 with hg | ⟨hg, _⟩
      · exact hcr hg
      · have := hg w hw
        simp [PendingCMD.flips, hwr, hp, hmulti] at this

theorem change (h : Resets k) (hqs : Queues k) (hlog : Log k) (hc : Change ResettableArrival k k') :
    Resets k' := by
  cases hc with
  | environment locked quitting hquit =>
    exact { h with listed := fun hq => h.listed (by grind), waiting := fun hq => h.waiting (by grind) }
  | refuse c hs hg hq hc =>
    refine h.arrive hlog hs hq rfl hg ?_ (.inl ⟨rfl, by simp⟩) (by simp)
    rcases hc with hc | hc <;> simp [hc.1]
  | queue c hs hg hq hm name hc =>
    exact h.arrive hlog hs hq rfl hg (by simp [hc]) (.inl ⟨rfl, by simp⟩) (fun _ => ⟨hm, by simp [hc]⟩)
  | reset c hs hg hq hc => exact h.arrive hlog hs hq rfl hg (fun _ => rfl) (.inr rfl) (by simp)
  | list c hs hg hq hr hc => exact h.arrive hlog hs hq rfl hg (fun _ => rfl) (.inr rfl) (by simp)
  | drop hq => exact { h with listed := by simp [hq], waiting := by simp [hq] }
  | start c rest hl hq hc hm => exact { h with waiting := by simp }
  | stop hq hp => exact { h with }
  | member c rest hl hq hr m ms hp =>
    have hmem : m ∈ k.user.pendingMulti := by simp [hp]
    obtain ⟨name, hname⟩ : ∃ name, m.command = .other name := hlog.queued_other _ (hlog.queued m hmem) rfl
    have hu : (execute k.user m).1 = k.user := by
      rcases execute_cases k.user m with he | he | he
      · exact he
      all_goals simp [hname] at he
    refine { h with executed := ?_, listed := ?_, waiting := ?_ }
    · refine List.forall_mem_append.mpr ⟨h.executed, ?_⟩
      simp only [List.mem_singleton, forall_eq]
      intro _ d hd hdr hlt
      have := hqs.since_reset m hmem d hd hdr
      omega
    · intro _ r hr hrl
      rcases h.listed hq r hr hrl with hl | ⟨e, he, heq⟩
      · exact .inl (by simpa [Connection.perform] using hl)
      · exact .inr ⟨e, List.mem_append_left _ he, heq⟩
    · simpa [Connection.perform, hu] using h.waiting
  | plain c rest hl hq hc =>
    have hmem : c ∈ k.user.pendingList := by simp [hl]
    have hlisted : ∀ r ∈ k.received, r.receipt = .listed →
        r.cmd ∈ rest ∨ r.cmd = c ∨ ∃ e ∈ k.executed, e.cmd = r.cmd := by
      intro r hr hrl
      rcases h.listed hq r hr hrl with hmem | he
      · rcases List.mem_cons.mp (hl ▸ hmem) with heq | hmem
        · exact .inr (.inl heq)
        · exact .inl hmem
      · exact .inr (.inr he)
    refine { h with executed := ?_, listed := ?_, waiting := ?_ }
    · exact List.forall_mem_append.mpr ⟨h.executed, by simp⟩
    · intro _ r hr hrl
      rcases hlisted r hr hrl with hmem | heq | ⟨e, he, heq⟩
      · exact .inl (by simpa [Connection.perform] using hmem)
      · exact .inr ⟨_, List.mem_append_right _ (List.mem_singleton_self _), heq.symm⟩
      · exact .inr ⟨e, List.mem_append_left _ he, heq⟩
    · intro _ d hd hdr hno hmulti
      have hmulti : (execute { k.user with pendingList := rest } c).1.multi := hmulti
      suffices ∃ w ∈ rest, w.command = .multireset by simpa [Connection.perform] using this
      rcases execute_cases { k.user with pendingList := rest } c with he | ⟨hcm, _, _⟩ | ⟨_, _, he⟩
      · obtain ⟨w, hw, hwr⟩ := h.waiting hq d hd hdr hno (by simpa [he] using hmulti)
        rcases List.mem_cons.mp (hl ▸ hw) with rfl | hw
        · have hp : w.passes := h.passes _ (hlog.listed w hmem) hwr
          simp [execute, hp, hwr, handle] at hmulti
          grind
        · exact ⟨w, hw, hwr⟩
      · -- the MULTI executed now was sent before `d`, which therefore still waits
        have hcd : c.seq < d.cmd.seq := by
          rcases Nat.lt_trichotomy c.seq d.cmd.seq with hlt | heq | hgt
          · exact hlt
          · have := congrArg (·.cmd.command) (hlog.unique (hlog.listed c hmem) hd heq)
            simp [hcm, hdr] at this
          · exact absurd hcm (hno _ (hlog.listed c hmem) hgt)
        rcases hlisted d hd (hlog.reset_listed d hd hdr) with hrest | heq | ⟨e, he, heq⟩
        · exact ⟨d.cmd, hrest, hdr⟩
        · simp [heq] at hcd
        · have hrun : e.run.isSome = false := by
            by_contra hrun
            have := hlog.queued_other _ (hlog.executed e he) (by simp [hrun])
            simp [heq, hdr] at this
          have := hlog.executed_list e he hrun c hmem
          rw [heq] at this
          omega
      · simp [he] at hmulti

theorem isolates (h : Resets k) (hlog : Log k) (hb : Blocks k) : k.ResetIsolates where
  abandoned m r hr d hd hdr hlt e he heq := by
    obtain ⟨q, _, _, hrun⟩ := hb.onMRUN.waits m r hr e he heq
    exact h.executed e he (by simp [hrun]) d hd hdr (heq ▸ hlt)
  outside d hd hdr r hr hlt hno := by
    have hnot : r.receipt ≠ .queued := by
      intro hrq
      obtain ⟨w, hw, hwm, hdw, hwr⟩ := h.queued r hr hrq d hd hdr hlt
      exact hno w hw hdw (Nat.le_of_lt hwr) hwm
    constructor
    · intro hmem
      exact hnot (by rw [hlog.unique hr (hlog.queued _ hmem) rfl])
    · intro e he heq
      cases hrun : e.run with
      | none => rfl
      | some q =>
        have hreceived := hlog.executed e he
        simp only [hrun, Option.isSome_some, if_true] at hreceived
        exact absurd (by rw [hlog.unique hr hreceived (by rw [heq])]) hnot

end Resets

/-- Along every run whose commands find the Multi flag settled, transactions run only on MRUN. -/
theorem transactions_only_on_mrun {ks : List Connection} (h : machine.Reach (Arrivals SettledArrival) ks) :
    ∀ k ∈ ks, k.TransactionsOnMRUN := by
  have hall := reach_forall (I := fun k => Log k ∧ Queues k ∧ Blocks k) ⟨.fresh, .fresh, .fresh⟩
    (fun k k' hI hc => ⟨hI.1.change hc, hI.2.1.change hI.1 hc, hI.2.2.change hI.2.1 hI.1 hc⟩) h
  exact fun k hk => (hall k hk).2.2.onMRUN

theorem transactions_only_on_mrun_block : ∃ k : Connection, machine.Reach (Arrivals SettledArrival) [k] ∧
    k.executed.map (fun e => (e.cmd.seq, e.run)) = [(0, none), (1, some 3), (2, some 3), (3, none)] ∧
    ∀ k' ∈ [k], k'.TransactionsOnMRUN := by
  have h : machine.Reach (Arrivals SettledArrival) [(⟨.fresh,
      [⟨⟨0, .multi, [], true⟩, .listed⟩, ⟨⟨1, .other "SET", ["a", "1"], true⟩, .queued⟩,
        ⟨⟨2, .other "SET", ["b", "2"], true⟩, .queued⟩, ⟨⟨3, .mrun, [], true⟩, .listed⟩],
      [⟨⟨0, .multi, [], true⟩, none, 1, some .success⟩,
        ⟨⟨1, .other "SET", ["a", "1"], true⟩, some 3, 4, some .success⟩,
        ⟨⟨2, .other "SET", ["b", "2"], true⟩, some 3, 4, some .success⟩,
        ⟨⟨3, .mrun, [], true⟩, none, 4, some .success⟩]⟩ : Connection)] :=
    Machine.exec_reach (.initial rfl) [.connect, .receive 0 .multi [] true, .flush,
      .receive 0 (.other "SET") ["a", "1"] true, .receive 0 (.other "SET") ["b", "2"] true,
      .receive 0 .mrun [] true, .flush, .flush, .flush, .flush] (by decide)
  exact ⟨_, h, rfl, transactions_only_on_mrun h⟩

/-- MULTI, a command and MRUN that arrive in one batch: the command runs outside any transaction. -/
theorem batch_runs_without_mrun : ∃ ks, machine.Reachable ks ∧ ∃ k ∈ ks, ¬k.TransactionsOnMRUN := by
  refine ⟨[⟨{ LocalUser.fresh with multi := true },
      [⟨⟨0, .multi, [], true⟩, .listed⟩, ⟨⟨1, .other "SET", ["a", "1"], true⟩, .listed⟩,
        ⟨⟨2, .mrun, [], true⟩, .refused⟩],
      [⟨⟨0, .multi, [], true⟩, none, 3, some .success⟩,
        ⟨⟨1, .other "SET", ["a", "1"], true⟩, none, 3, some .success⟩]⟩], ?_, _, List.mem_singleton_self _, ?_⟩
  · exact Machine.exec_reach (.initial rfl) [.connect, .receive 0 .multi [] true,
      .receive 0 (.other "SET") ["a", "1"] true, .receive 0 .mrun [] true, .flush, .flush] (by decide)
  · intro h
    obtain ⟨q, _, _, hrun⟩ := h.waits 0 ⟨⟨1, .other "SET", ["a", "1"], true⟩, .listed⟩
      ⟨⟨_, List.mem_cons_self, rfl, rfl, rfl⟩, by simp, by simp, by simp [Control]⟩
      ⟨⟨1, .other "SET", ["a", "1"], true⟩, none, 3, some .success⟩ (by simp) rfl
    simp at hrun

/-- If, besides, no MULTIRESET is refused, each of them isolates what follows it. -/
theorem multireset_isolates {ks : List Connection} (h : machine.Reach (Arrivals ResettableArrival) ks) :
    ∀ k ∈ ks, k.ResetIsolates := by
  have hall := reach_forall (I := fun k => Log k ∧ Queues k ∧ Blocks k ∧ Resets k)
    ⟨.fresh, .fresh, .fresh, .fresh⟩ (fun k k' hI hc => by
      have hs : Change SettledArrival k k' := hc.mono fun _ _ _ hg => hg.1
      exact ⟨hI.1.change hc, hI.2.1.change hI.1 hs, hI.2.2.1.change hI.2.1 hI.1 hs,
        hI.2.2.2.change hI.2.1 hI.1 hc⟩) h
  exact fun k hk => (hall k hk).2.2.2.isolates (hall k hk).1 (hall k hk).2.2.1

theorem multireset_isolates_block : ∃ k : Connection, machine.Reach (Arrivals ResettableArrival) [k] ∧
    k.executed.map (fun e => (e.cmd.seq, e.run)) = [(0, none), (2, none), (3, none)] ∧
    ∀ k' ∈ [k], k'.ResetIsolates := by
  have h : machine.Reach (Arrivals ResettableArrival) [(⟨.fresh,
      [⟨⟨0, .multi, [], true⟩, .listed⟩, ⟨⟨1, .other "SET", ["a", "1"], true⟩, .queued⟩,
        ⟨⟨2, .multireset, [], true⟩, .listed⟩, ⟨⟨3, .other "SET", ["b", "2"], true⟩, .listed⟩],
      [⟨⟨0, .multi, [], true⟩, none, 1, some .success⟩, ⟨⟨2, .multireset, [], true⟩, none, 3, some .success⟩,
        ⟨⟨3, .other "SET", ["b", "2"], true⟩, none, 4, some .success⟩]⟩ : Connection)] :=
    Machine.exec_reach (.initial rfl) [.connect, .receive 0 .multi [] true, .flush,
      .receive 0 (.other "SET") ["a", "1"] true, .receive 0 .multireset [] true, .flush,
      .receive 0 (.other "SET") ["b", "2"] true, .flush] (by decide)
  exact ⟨_, h, rfl, multireset_isolates h⟩

/-- A command that arrives between a MULTIRESET and its execution runs in the next transaction. -/
theorem reset_leaks_into_next_block : ∃ ks, machine.Reachable ks ∧ ∃ k ∈ ks, ¬k.ResetIsolates := by
  refine ⟨[⟨⟨[⟨5, .mrun, [], true⟩], [], false, true, false, false⟩,
      [⟨⟨0, .multi, [], true⟩, .listed⟩, ⟨⟨1, .other "SET", ["a", "1"], true⟩, .queued⟩,
        ⟨⟨2, .multireset, [], true⟩, .listed⟩, ⟨⟨3, .other "SET", ["b", "2"], true⟩, .queued⟩,
        ⟨⟨4, .multi, [], true⟩, .listed⟩, ⟨⟨5, .mrun, [], true⟩, .listed⟩],
      [⟨⟨0, .multi, [], true⟩, none, 1, some .success⟩, ⟨⟨2, .multireset, [], true⟩, none, 4, some .success⟩,
        ⟨⟨4, .multi, [], true⟩, none, 5, some .success⟩,
        ⟨⟨3, .other "SET", ["b", "2"], true⟩, some 5, 6, some .success⟩]⟩], ?_, _, List.mem_singleton_self _, ?_⟩
  · exact Machine.exec_reach (.initial rfl) [.connect, .receive 0 .multi [] true, .flush,
      .receive 0 (.other "SET") ["a", "1"] true, .receive 0 .multireset [] true,
      .receive 0 (.other "SET") ["b", "2"] true, .flush, .receive 0 .multi [] true, .flush,
      .receive 0 .mrun [] true, .flush] (by decide)
  · intro h
    have hrun := (h.outside ⟨⟨2, .multireset, [], true⟩, .listed⟩ (by simp) rfl
      ⟨⟨3, .other "SET", ["b", "2"], true⟩, .queued⟩ (by simp) (by simp) (by simp)).2
      ⟨⟨3, .other "SET", ["b", "2"], true⟩, some 5, 6, some .success⟩ (by simp) rfl
    simp at hrun

end BerylDB.CommandQueue
