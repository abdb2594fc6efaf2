import BerylDB.CommandQueue
import Mathlib.Logic.Relation
import Mathlib.Data.List.Pairwise

/-! # The two queues of a connection

What one step can do to a connection, and what the history, the flags and the queues have to do
with each other while every command finds the Multi flag settled. -/
namespace BerylDB.CommandQueue

/-- Executing `c` will change a Multi flag whose value is `multi`. -/
def PendingCMD.flips (c : PendingCMD) (multi : Bool) : Bool :=
  match c.command with
  | .multi => c.passes && !multi
  | .multireset => c.passes && multi
  | .mrun => multi
  | .pong | .other _ => false

/-- `Add` reads the Multi flag as the commands sent earlier leave it: none of them still waits to
change it.  A PONG, which `Add` never queues, is not sent inside a transaction. -/
def Connection.Settled (k : Connection) (command : CommandName) : Prop :=
  command = .multireset ∨
    (∀ c ∈ k.user.pendingList, c.flips k.user.multi = false) ∧ (command = .pong → k.user.multi = false)

instance (k : Connection) (command : CommandName) : Decidable (k.Settled command) := by
  unfold Connection.Settled; infer_instance

/-- What one step can do to one connection, arrivals under the guard `G`. -/
inductive Change (G : Connection → CommandName → Bool → Prop) (k : Connection) : Connection → Prop
  | environment (locked quitting : Bool) (h : k.user.quitting → quitting) :
      Change G k { k with user := { k.user with locked, quitting } }
  | refuse (c : PendingCMD) (hs : c.seq = k.received.length) (hg : G k c.command c.passes)
      (hq : k.user.quitting = false)
      (h : c.command = .multi ∧ k.user.multi ∨ c.command = .mrun ∧ k.user.multi = false) :
      Change G k { k with received := k.received ++ [⟨c, .refused⟩] }
  | queue (c : PendingCMD) (hs : c.seq = k.received.length) (hg : G k c.command c.passes)
      (hq : k.user.quitting = false) (hm : k.user.multi) (name : String) (h : c.command = .other name) :
      Change G k ⟨{ k.user with pendingMulti := k.user.pendingMulti ++ [c] },
        k.received ++ [⟨c, .queued⟩], k.executed⟩
  | reset (c : PendingCMD) (hs : c.seq = k.received.length) (hg : G k c.command c.passes)
      (hq : k.user.quitting = false) (h : c.command = .multireset) :
      Change G k ⟨{ k.user with pendingMulti := [], multiRunning := false,
                                pendingList := k.user.pendingList ++ [c] },
        k.received ++ [⟨c, .listed⟩], k.executed⟩
  | list (c : PendingCMD) (hs : c.seq = k.received.length) (hg : G k c.command c.passes)
      (hq : k.user.quitting = false) (hr : c.command ≠ .multireset)
      (h : if k.user.multi then c.command = .pong ∨ c.command = .mrun else c.command ≠ .mrun) :
      Change G k ⟨{ k.user with pendingList := k.user.pendingList ++ [c] },
        k.received ++ [⟨c, .listed⟩], k.executed⟩
  | drop (hq : k.user.quitting) : Change G k { k with user := { k.user with pendingList := [] } }
  | start (c : PendingCMD) (rest : List PendingCMD) (hl : k.user.pendingList = c :: rest)
      (hq : k.user.quitting = false) (hc : c.command = .mrun) (hm : k.user.multi) :
      Change G k { k with user := { k.user with multiRunning := true, multi := false } }
  | stop (hq : k.user.quitting = false) (hp : k.user.pendingMulti = []) :
      Change G k { k with user := { k.user with multiRunning := false } }
  | member (c : PendingCMD) (rest : List PendingCMD) (hl : k.user.pendingList = c :: rest)
      (hq : k.user.quitting = false) (hr : k.user.multiRunning) (m : PendingCMD) (ms : List PendingCMD)
      (hp : k.user.pendingMulti = m :: ms) :
      Change G k { k.perform k.user m (some c.seq) with
        user := { (k.perform k.user m (some c.seq)).user with pendingMulti := ms } }
  | plain (c : PendingCMD) (rest : List PendingCMD) (hl : k.user.pendingList = c :: rest)
      (hq : k.user.quitting = false)
      (h : c.command = .pong ∨ k.user.multiRunning = false ∧ ¬(k.user.multi ∧ c.command = .mrun)) :
      Change G k (k.perform { k.user with pendingList := rest } c none)

@[simp] theorem execute_pendingList (u : LocalUser) (c : PendingCMD) :
    (execute u c).1.pendingList = u.pendingList := by
  unfold execute handle; split <;> [(split <;> (try split) <;> rfl); rfl]

@[simp] theorem execute_pendingMulti (u : LocalUser) (c : PendingCMD) :
    (execute u c).1.pendingMulti = u.pendingMulti := by
  unfold execute handle; split <;> [(split <;> (try split) <;> rfl); rfl]

@[simp] theorem execute_quitting (u : LocalUser) (c : PendingCMD) :
    (execute u c).1.quitting = u.quitting := by
  unfold execute handle; split <;> [(split <;> (try split) <;> rfl); rfl]

/-- Only MULTI and MULTIRESET change the client. -/
theorem execute_cases (u : LocalUser) (c : PendingCMD) :
    (execute u c).1 = u ∨
      (c.command = .multi ∧ c.passes ∧ (execute u c).1 = { u with multi := true }) ∨
      (c.command = .multireset ∧ c.passes ∧ (execute u c).1 = { u with multi := false, multiRunning := false }) := by
  unfold execute
  split
  · cases hc : c.command <;> simp only [handle] <;> (try split) <;> simp_all
  · exact .inl rfl

theorem add_change (G : Connection → CommandName → Bool → Prop) (k : Connection)
    (command : CommandName) (params : List String) (passes : Bool)
    (hg : k.user.quitting = false → G k command passes) :
    Change G k (k.receive command params passes) ∨ k.receive command params passes = k := by
  by_cases hq : k.user.quitting
  · simp [Connection.receive, add, hq]
  · left
    simp only [Bool.not_eq_true] at hq
    have hg := hg hq
    let c : PendingCMD := ⟨k.received.length, command, params, passes⟩
    cases command with
    | pong => simpa [Connection.receive, add, hq] using Change.list (G := G) c rfl hg hq (by simp [c]) (by simp [c])
    | multireset => simpa [Connection.receive, add, hq] using Change.reset (G := G) c rfl hg hq rfl
    | multi =>
      by_cases hm : k.user.multi
      · simpa [Connection.receive, add, hq, hm] using Change.refuse (G := G) c rfl hg hq (.inl ⟨rfl, hm⟩)
      · simpa [Connection.receive, add, hq, hm] using
          Change.list (G := G) c rfl hg hq (by simp [c]) (by simp [c, hm])
    | mrun =>
      by_cases hm : k.user.multi
      · simpa [Connection.receive, add, hq, hm] using
          Change.list (G := G) c rfl hg hq (by simp [c]) (by simp [c, hm])
      · simpa [Connection.receive, add, hq, hm] using
          Change.refuse (G := G) c rfl hg hq (.inr ⟨rfl, by simpa using hm⟩)
    | other name =>
      by_cases hm : k.user.multi
      · simpa [Connection.receive, add, hq, hm] using Change.queue (G := G) c rfl hg hq hm name rfl
      · simpa [Connection.receive, add, hq, hm] using
          Change.list (G := G) c rfl hg hq (by simp [c]) (by simp [c, hm])

theorem Change.mono {G H : Connection → CommandName → Bool → Prop} {k k' : Connection}
    (hGH : ∀ k c p, G k c p → H k c p) (h : Change G k k') : Change H k k' := by
  cases h with
  | environment locked quitting h => exact .environment locked quitting h
  | refuse c hs hg hq h => exact .refuse c hs (hGH _ _ _ hg) hq h
  | queue c hs hg hq hm name h => exact .queue c hs (hGH _ _ _ hg) hq hm name h
  | reset c hs hg hq h => exact .reset c hs (hGH _ _ _ hg) hq h
  | list c hs hg hq hr h => exact .list c hs (hGH _ _ _ hg) hq hr h
  | drop hq => exact .drop hq
  | start c rest hl hq hc hm => exact .start c rest hl hq hc hm
  | stop hq hp => exact .stop hq hp
  | member c rest hl hq hr m ms hp => exact .member c rest hl hq hr m ms hp
  | plain c rest hl hq h => exact .plain c rest hl hq h

/-- One visit of `Flush` is a short chain of changes. -/
theorem visit_changes (G : Connection → CommandName → Bool → Prop) (k : Connection) :
    Relation.ReflTransGen (Change G) k k.visit.connection := by
  by_cases hq : k.user.quitting
  · have hv : k.visit.connection = { k with user := { k.user with pendingList := [] } } := by
      simp [Connection.visit, hq]
    rw [hv]
    exact .single (.drop hq)
  · simp only [Bool.not_eq_true] at hq
    cases hl : k.user.pendingList with
    | nil =>
      have hv : k.visit.connection = k := by simp [Connection.visit, hq, hl]
      rw [hv]
    | cons c rest =>
      by_cases hc : c.command = .pong
      · have hv : k.visit.connection = k.perform { k.user with pendingList := rest } c none := by
          simp [Connection.visit, hq, hl, hc]
        rw [hv]
        exact .single (.plain c rest hl hq (.inl hc))
      by_cases hk : k.user.locked
      · have hv : k.visit.connection = k := by simp [Connection.visit, hq, hl, hc, hk]
        rw [hv]
      by_cases hs : k.user.multi ∧ c.command = .mrun
      · let s : Connection := { k with user := { k.user with multiRunning := true, multi := false } }
        have hstart : Change G k s := .start c rest hl hq hs.2 hs.1
        refine .trans (.single hstart) ?_
        cases hp : k.user.pendingMulti with
        | nil =>
          have hv : k.visit.connection = { s with user := { s.user with multiRunning := false } } := by
            simp [Connection.visit, s, hq, hl, hk, hs, hp]
          exact hv ▸ .single (.stop hq hp)
        | cons m ms =>
          have hv : k.visit.connection = { s.perform s.user m (some c.seq) with
              user := { (s.perform s.user m (some c.seq)).user with pendingMulti := ms } } := by
            simp [Connection.visit, Connection.perform, s, hq, hl, hk, hs, hp]
          exact hv ▸ .single (.member (k := s) c rest hl hq rfl m ms hp)
      by_cases hr : k.user.multiRunning
      · cases hp : k.user.pendingMulti with
        | nil =>
          have hv : k.visit.connection = { k with user := { k.user with multiRunning := false } } := by
            simp [Connection.visit, hq, hl, hc, hk, hs, hr, hp]
          exact hv ▸ .single (.stop hq hp)
        | cons m ms =>
          have hv : k.visit.connection = { k.perform k.user m (some c.seq) with
              user := { (k.perform k.user m (some c.seq)).user with pendingMulti := ms } } := by
            simp [Connection.visit, Connection.perform, hq, hl, hc, hk, hs, hr, hp]
          exact hv ▸ .single (.member c rest hl hq hr m ms hp)
      · have hv : k.visit.connection = k.perform { k.user with pendingList := rest } c none := by
          simp [Connection.visit, hq, hl, hc, hk, hs, hr]
        exact hv ▸ .single (.plain c rest hl hq (.inr ⟨by simpa using hr, hs⟩))

/-- What the history says about the queues. -/
structure Log (k : Connection) : Prop where
  numbered : ∀ i (r : Received), k.received[i]? = some r → r.cmd.seq = i
  listed : ∀ c ∈ k.user.pendingList, ⟨c, .listed⟩ ∈ k.received
  queued : ∀ c ∈ k.user.pendingMulti, ⟨c, .queued⟩ ∈ k.received
  executed : ∀ e ∈ k.executed, ⟨e.cmd, if e.run.isSome then .queued else .listed⟩ ∈ k.received
  counted : ∀ e ∈ k.executed, e.received ≤ k.received.length
  queued_other : ∀ r ∈ k.received, r.receipt = .queued → ∃ name, r.cmd.command = .other name
  reset_listed : ∀ r ∈ k.received, r.cmd.command = .multireset → r.receipt = .listed
  list_sorted : k.user.pendingList.Pairwise (·.seq < ·.seq)
  multi_sorted : k.user.pendingMulti.Pairwise (·.seq < ·.seq)
  executed_list : ∀ e ∈ k.executed, e.run.isSome = false → ∀ c ∈ k.user.pendingList, e.cmd.seq < c.seq
  executed_multi : ∀ e ∈ k.executed, e.run.isSome → ∀ c ∈ k.user.pendingMulti, e.cmd.seq < c.seq
  executed_sorted : k.executed.Pairwise fun e f => e.run.isSome = f.run.isSome → e.cmd.seq < f.cmd.seq

namespace Log

variable {k : Connection}

theorem seq_lt (h : Log k) {r : Received} (hr : r ∈ k.received) : r.cmd.seq < k.received.length := by
  obtain ⟨i, hi⟩ := List.mem_iff_getElem?.mp hr
  have hlt := (List.getElem?_eq_some_iff.mp hi).1
  rwa [h.numbered i r hi]

theorem unique (h : Log k) {r s : Received} (hr : r ∈ k.received) (hs : s ∈ k.received)
    (he : r.cmd.seq = s.cmd.seq) : r = s := by
  obtain ⟨i, hi⟩ := List.mem_iff_getElem?.mp hr
  obtain ⟨j, hj⟩ := List.mem_iff_getElem?.mp hs
  have hij : i = j := by rw [← h.numbered i r hi, ← h.numbered j s hj, he]
  subst hij
  exact Option.some.inj (hi.symm.trans hj)

theorem front_le (h : Log k) {c : PendingCMD} {rest : List PendingCMD} (hl : k.user.pendingList = c :: rest) :
    ∀ d ∈ k.user.pendingList, c.seq ≤ d.seq := by
  have hs := h.list_sorted
  rw [hl, List.pairwise_cons] at hs
  rw [hl]
  exact List.forall_mem_cons.mpr ⟨Nat.le_refl _, fun d hd => Nat.le_of_lt (hs.1 d hd)⟩

theorem listed_fresh (h : Log k) {c : PendingCMD} (hc : c ∈ k.user.pendingList) :
    ∀ e ∈ k.executed, e.cmd ≠ c := by
  rintro e he rfl
  cases hr : e.run.isSome with
  | false => exact Nat.lt_irrefl _ (h.executed_list e he hr _ hc)
  | true =>
    have := h.unique (h.executed e he) (h.listed _ hc) rfl
    simp [hr] at this

theorem queued_fresh (h : Log k) {c : PendingCMD} (hc : c ∈ k.user.pendingMulti) :
    ∀ e ∈ k.executed, e.cmd ≠ c := by
  rintro e he rfl
  cases hr : e.run.isSome with
  | true => exact Nat.lt_irrefl _ (h.executed_multi e he hr _ hc)
  | false =>
    have := h.unique (h.executed e he) (h.queued _ hc) rfl
    simp [hr] at this

theorem fresh : Log .fresh := by
  constructor <;> simp [Connection.fresh, LocalUser.fresh]

private theorem numbered_append (h : Log k) {x : Received} (hx : x.cmd.seq = k.received.length) (i : ℕ)
    (r : Received) (hr : (k.received ++ [x])[i]? = some r) : r.cmd.seq = i := by
  rcases Nat.lt_trichotomy i k.received.length with hi | rfl | hi
  · rw [List.getElem?_append_left hi] at hr
    exact h.numbered i r hr
  · obtain rfl : x = r := by simpa using hr
    exact hx
  · have hlen := (List.getElem?_eq_some_iff.mp hr).1
    simp only [List.length_append, List.length_singleton] at hlen
    omega

private theorem sorted_concat {l : List PendingCMD} {c : PendingCMD} (hl : l.Pairwise (·.seq < ·.seq))
    (h : ∀ a ∈ l, a.seq < c.seq) : (l ++ [c]).Pairwise (·.seq < ·.seq) :=
  List.pairwise_append.mpr ⟨hl, List.pairwise_singleton .., by simpa using h⟩

/-- An arrival is recorded, and joins at most the end of the queue its receipt names. -/
theorem arrive (h : Log k) {c : PendingCMD} {receipt : Receipt} {u : LocalUser}
    (hx : c.seq = k.received.length) (hq : receipt = .queued → ∃ name, c.command = .other name)
    (hr : c.command = .multireset → receipt = .listed)
    (hlist : u.pendingList = k.user.pendingList ∨
      receipt = .listed ∧ u.pendingList = k.user.pendingList ++ [c])
    (hmulti : u.pendingMulti = k.user.pendingMulti ∨ u.pendingMulti = [] ∨
      receipt = .queued ∧ u.pendingMulti = k.user.pendingMulti ++ [c]) :
    Log ⟨u, k.received ++ [⟨c, receipt⟩], k.executed⟩ := by
  have hold : ∀ r ∈ k.received, r.cmd.seq < c.seq := fun r hr => hx ▸ h.seq_lt hr
  have hexec : ∀ e ∈ k.executed, e.cmd.seq < c.seq := fun e he => hold _ (h.executed e he)
  have hlisted : ∀ d ∈ k.user.pendingList, d.seq < c.seq := fun d hd => hold _ (h.listed d hd)
  have hqueued : ∀ d ∈ k.user.pendingMulti, d.seq < c.seq := fun d hd => hold _ (h.queued d hd)
  refine {
    numbered := h.numbered_append hx
    listed := ?_
    queued := ?_
    executed := fun e he => List.mem_append_left _ (h.executed e he)
    counted := fun e he => Nat.le_trans (h.counted e he) (by simp)
    queued_other := List.forall_mem_append.mpr ⟨h.queued_other, by simpa using hq⟩
    reset_listed := List.forall_mem_append.mpr ⟨h.reset_listed, by simpa using hr⟩
    list_sorted := ?_
    multi_sorted := ?_
    executed_list := ?_
    executed_multi := ?_
    executed_sorted := h.executed_sorted }
  · rcases hlist with hl | ⟨rfl, hu⟩
    · exact fun d hd => List.mem_append_left _ (h.listed d (hl ▸ hd))
    · rw [hu]
      exact List.forall_mem_append.mpr ⟨fun d hd => List.mem_append_left _ (h.listed d hd), by simp⟩
  · rcases hmulti with hm | hm | ⟨rfl, hu⟩
    · exact fun d hd => List.mem_append_left _ (h.queued d (hm ▸ hd))
    · simp [hm]
    · rw [hu]
      exact List.forall_mem_append.mpr ⟨fun d hd => List.mem_append_left _ (h.queued d hd), by simp⟩
  · rcases hlist with hl | ⟨_, hu⟩
    · exact hl ▸ h.list_sorted
    · exact hu ▸ sorted_concat h.list_sorted hlisted
  · rcases hmulti with hm | hm | ⟨_, hu⟩
    · exact hm ▸ h.multi_sorted
    · simp [hm]
    · exact hu ▸ sorted_concat h.multi_sorted hqueued
  · intro e he hrun
    rcases hlist with hl | ⟨_, hu⟩
    · exact hl ▸ h.executed_list e he hrun
    · exact hu ▸ List.forall_mem_append.mpr ⟨h.executed_list e he hrun, by simpa using hexec e he⟩
  · intro e he hrun
    rcases hmulti with hm | hm | ⟨_, hu⟩
    · exact hm ▸ h.executed_multi e he hrun
    · simp [hm]
    · exact hu ▸ List.forall_mem_append.mpr ⟨h.executed_multi e he hrun, by simpa using hexec e he⟩

theorem change {G : Connection → CommandName → Bool → Prop} {k' : Connection} (h : Log k)
    (hc : Change G k k') : Log k' := by
  cases hc with
  | environment => exact { h with }
  | refuse c hs _ _ hc => exact h.arrive hs (by simp) (by grind) (.inl rfl) (.inl rfl)
  | queue c hs _ _ _ name hc =>
    exact h.arrive hs (fun _ => ⟨name, hc⟩) (by simp [hc]) (.inl rfl) (.inr (.inr ⟨rfl, rfl⟩))
  | reset c hs _ _ hc => exact h.arrive hs (by simp) (by simp) (.inr ⟨rfl, rfl⟩) (.inr (.inl rfl))
  | list c hs _ _ hr hc => exact h.arrive hs (by simp) (by simp) (.inr ⟨rfl, rfl⟩) (.inl rfl)
  | drop => exact { h with listed := by simp, list_sorted := .nil, executed_list := by simp }
  | start => exact { h with }
  | stop => exact { h with }
  | member c rest hl _ _ m ms hp =>
    have hms := h.multi_sorted
    rw [hp, List.pairwise_cons] at hms
    have hqueued := h.queued
    rw [hp, List.forall_mem_cons] at hqueued
    have hmulti := h.executed_multi
    simp only [hp, List.forall_mem_cons] at hmulti
    exact { h with
      listed := by simpa [Connection.perform] using h.listed
      queued := hqueued.2
      executed := List.forall_mem_append.mpr ⟨h.executed, by simpa using hqueued.1⟩
      counted := List.forall_mem_append.mpr ⟨h.counted, by simp⟩
      list_sorted := by simpa [Connection.perform] using h.list_sorted
      multi_sorted := hms.2
      executed_list := by
        simpa [Connection.perform, List.forall_mem_append, or_imp, forall_and] using h.executed_list
      executed_multi := List.forall_mem_append.mpr ⟨fun e he hr => (hmulti e he hr).2, by simpa using hms.1⟩
      executed_sorted := List.pairwise_append.mpr ⟨h.executed_sorted, List.pairwise_singleton ..,
        by simpa using fun e he hr => (hmulti e he hr).1⟩ }
  | plain c rest hl =>
    have hls := h.list_sorted
    rw [hl, List.pairwise_cons] at hls
    have hlisted := h.listed
    rw [hl, List.forall_mem_cons] at hlisted
    have hlist := h.executed_list
    simp only [hl, List.forall_mem_cons] at hlist
    exact { h with
      listed := by simpa [Connection.perform] using hlisted.2
      queued := by simpa [Connection.perform] using h.queued
      executed := List.forall_mem_append.mpr ⟨h.executed, by simpa using hlisted.1⟩
      counted := List.forall_mem_append.mpr ⟨h.counted, by simp⟩
      list_sorted := by simpa [Connection.perform] using hls.2
      multi_sorted := by simpa [Connection.perform] using h.multi_sorted
      executed_list := List.forall_mem_append.mpr ⟨fun e he hr => by
        simpa [Connection.perform] using (hlist e he hr).2, by simpa [Connection.perform] using hls.1⟩
      executed_multi := List.forall_mem_append.mpr ⟨fun e he hr => by
        simpa [Connection.perform] using h.executed_multi e he hr, by simp⟩
      executed_sorted := List.pairwise_append.mpr ⟨h.executed_sorted, List.pairwise_singleton ..,
        by simpa using fun e he hr => (hlist e he hr).1⟩ }

end Log

/-- While arrivals are settled, the flags and the queues agree on which block is open. -/
structure Queues (k : Connection) : Prop where
  idle : k.user.multi = false → k.user.multiRunning = false → k.user.pendingMulti = []
  before_mrun : ∀ q ∈ k.user.pendingList, q.command = .mrun → ∀ c ∈ k.user.pendingMulti, c.seq < q.seq
  since_reset : ∀ c ∈ k.user.pendingMulti, ∀ d ∈ k.received, d.cmd.command = .multireset →
    d.cmd.seq < c.seq
  withdrawn : ∀ d ∈ k.user.pendingList, d.command = .multireset → d.passes → k.user.pendingMulti = []
  running : k.user.quitting = false → k.user.multiRunning →
    ∃ q rest, k.user.pendingList = q :: rest ∧ q.command = .mrun
  mrun_waits : k.user.quitting = false → ∀ c ∈ k.user.pendingMulti, ∀ d ∈ k.received,
    d.cmd.command = .mrun → c.seq < d.cmd.seq →
      ∃ q ∈ k.user.pendingList, q.command = .mrun ∧ q.seq ≤ d.cmd.seq
  opening : k.user.quitting = false → ∀ m ∈ k.user.pendingList, m.command = .multi → m.passes →
    ∀ r ∈ k.received, m.seq < r.cmd.seq → r.cmd.command = .multireset
  opened : k.user.multi → ∀ m ∈ k.user.pendingList, m.command = .multi → m.passes = false

/-- The guard of an arrival, as the connection sees it. -/
abbrev SettledArrival (k : Connection) (command : CommandName) (_ : Bool) : Prop := k.Settled command

namespace Queues

variable {k k' : Connection}

theorem fresh : Queues .fresh := by
  constructor <;> simp [Connection.fresh, LocalUser.fresh]

private theorem unflipped {command : CommandName} (hg : k.Settled command)
    (hr : command ≠ .multireset) : ∀ d ∈ k.user.pendingList, d.flips k.user.multi = false := by
  rcases hg with hg | hg
  · exact absurd hg hr
  · exact hg.1

private theorem no_opening (h : Queues k) {command : CommandName} (hg : k.Settled command)
    (hr : command ≠ .multireset) :
    ∀ m ∈ k.user.pendingList, m.command = .multi → m.passes = false := by
  intro m hm hc
  by_cases hmulti : k.user.multi
  · exact h.opened hmulti m hm hc
  · simpa [PendingCMD.flips, hc, hmulti] using unflipped hg hr m hm

theorem refuse (h : Queues k) (hlog : Log k) {c : PendingCMD} (hs : c.seq = k.received.length)
    (hg : k.Settled c.command) (hq : k.user.quitting = false)
    (hc : c.command = .multi ∧ k.user.multi ∨ c.command = .mrun ∧ k.user.multi = false) :
    Queues { k with received := k.received ++ [⟨c, .refused⟩] } := by
  have hr : c.command ≠ .multireset := by rcases hc with hc | hc <;> simp [hc]
  refine { h with since_reset := ?_, mrun_waits := ?_, opening := ?_ }
  · exact fun d hd => List.forall_mem_append.mpr ⟨h.since_reset d hd, by simp [hr]⟩
  · refine fun _ d hd => List.forall_mem_append.mpr ⟨h.mrun_waits hq d hd, ?_⟩
    simp only [List.mem_singleton, forall_eq]
    intro hcm _
    have hm : k.user.multi = false := by simpa [hcm] using hc
    by_cases hrun : k.user.multiRunning
    · obtain ⟨q, rest, hl, hqm⟩ := h.running hq hrun
      have hlt := hlog.seq_lt (hlog.listed q (by simp [hl]))
      exact ⟨q, by simp [hl], hqm, by simp only at hlt; omega⟩
    · simp [h.idle hm (by simpa using hrun)] at hd
  · refine fun _ m hm hmc hp => List.forall_mem_append.mpr ⟨h.opening hq m hm hmc hp, ?_⟩
    simp [h.no_opening hg hr m hm hmc] at hp

theorem queue (h : Queues k) (hlog : Log k) {c : PendingCMD} (hs : c.seq = k.received.length)
    (hg : k.Settled c.command) (hq : k.user.quitting = false) (hm : k.user.multi) {name : String}
    (hc : c.command = .other name) :
    Queues ⟨{ k.user with pendingMulti := k.user.pendingMulti ++ [c] }, k.received ++ [⟨c, .queued⟩],
      k.executed⟩ := by
  have hu := unflipped hg (by simp [hc])
  have hlt : ∀ r ∈ k.received, r.cmd.seq < c.seq := fun r hr => hs ▸ hlog.seq_lt hr
  refine { h with idle := by simp [hm], before_mrun := ?_, since_reset := ?_, withdrawn := ?_,
                  mrun_waits := ?_, opening := ?_ }
  · intro q hql hqm
    simpa [PendingCMD.flips, hqm, hm] using hu q hql
  · refine List.forall_mem_append.mpr ⟨fun d hd => List.forall_mem_append.mpr ⟨h.since_reset d hd, by simp [hc]⟩, ?_⟩
    simp only [List.mem_singleton, forall_eq]
    exact List.forall_mem_append.mpr ⟨fun d hd _ => hlt d hd, by simp [hc]⟩
  · intro d hd hdr hp
    simpa [PendingCMD.flips, hdr, hm, hp] using hu d hd
  · refine fun _ => List.forall_mem_append.mpr ⟨fun d hd => List.forall_mem_append.mpr ⟨h.mrun_waits hq d hd, by simp [hc]⟩, ?_⟩
    simp only [List.mem_singleton, forall_eq]
    refine List.forall_mem_append.mpr ⟨fun d hd _ hcd => ?_, by simp [hc]⟩
    exact absurd (hlt d hd) (by omega)
  · intro _ m hml hmc hp
    simp [h.opened hm m hml hmc] at hp

theorem reset (h : Queues k) {c : PendingCMD} (hq : k.user.quitting = false)
    (hc : c.command = .multireset) :
    Queues ⟨{ k.user with pendingMulti := [], multiRunning := false,
                          pendingList := k.user.pendingList ++ [c] },
      k.received ++ [⟨c, .listed⟩], k.executed⟩ := by
  refine { idle := by simp, before_mrun := by simp, since_reset := by simp, withdrawn := by simp,
           running := by simp, mrun_waits := by simp, opening := ?_, opened := ?_ }
  · refine fun _ => List.forall_mem_append.mpr ⟨fun m hm hmc hp => ?_, by simp [hc]⟩
    exact List.forall_mem_append.mpr ⟨h.opening hq m hm hmc hp, by simp [hc]⟩
  · exact fun hm => List.forall_mem_append.mpr ⟨h.opened hm, by simp [hc]⟩

theorem list (h : Queues k) (hlog : Log k) {c : PendingCMD} (hs : c.seq = k.received.length)
    (hg : k.Settled c.command) (hq : k.user.quitting = false) (hr : c.command ≠ .multireset)
    (hc : if k.user.multi then c.command = .pong ∨ c.command = .mrun else c.command ≠ .mrun) :
    Queues ⟨{ k.user with pendingList := k.user.pendingList ++ [c] }, k.received ++ [⟨c, .listed⟩],
      k.executed⟩ := by
  have hlt : ∀ r ∈ k.received, r.cmd.seq < c.seq := fun r hr => hs ▸ hlog.seq_lt hr
  refine { h with before_mrun := ?_, since_reset := ?_, withdrawn := ?_, running := ?_, mrun_waits := ?_,
                  opening := ?_, opened := ?_ }
  · refine List.forall_mem_append.mpr ⟨h.before_mrun, ?_⟩
    simpa using fun _ d hd => hlt _ (hlog.queued d hd)
  · exact fun d hd => List.forall_mem_append.mpr ⟨h.since_reset d hd, by simp [hr]⟩
  · exact List.forall_mem_append.mpr ⟨h.withdrawn, by simp [hr]⟩
  · intro _ hrun
    obtain ⟨q, rest, hl, hqm⟩ := h.running hq hrun
    exact ⟨q, rest ++ [c], by simp [hl], hqm⟩
  · refine fun _ d hd => List.forall_mem_append.mpr ⟨fun e he hem hde => ?_, ?_⟩
    · obtain ⟨q, hql, hqm, hle⟩ := h.mrun_waits hq d hd e he hem hde
      exact ⟨q, List.mem_append_left _ hql, hqm, hle⟩
    · simp only [List.mem_singleton, forall_eq]
      exact fun hcm _ => ⟨c, by simp, hcm, Nat.le_refl _⟩
  · refine fun _ => List.forall_mem_append.mpr ⟨fun m hm hmc hp => ?_, ?_⟩
    · simp [h.no_opening hg hr m hm hmc] at hp
    · simp only [List.mem_singleton, forall_eq]
      intro _ _
      refine List.forall_mem_append.mpr ⟨fun d hd hcd => absurd (hlt d hd) (by omega), by simp⟩
  · refine fun hm => List.forall_mem_append.mpr ⟨h.opened hm, ?_⟩
    simp only [show k.user.multi = true from hm, if_true] at hc
    rcases hc with hc | hc <;> simp [hc]

theorem plain (h : Queues k) (hlog : Log k) {c : PendingCMD} {rest : List PendingCMD}
    (hl : k.user.pendingList = c :: rest) (hq : k.user.quitting = false)
    (hc : c.command = .pong ∨ k.user.multiRunning = false ∧ ¬(k.user.multi ∧ c.command = .mrun)) :
    Queues (k.perform { k.user with pendingList := rest } c none) := by
  have hsub : ∀ d ∈ rest, d ∈ k.user.pendingList := fun d hd => by simp [hl, hd]
  have hrun : k.user.multiRunning = false := by
    rcases hc with hc | hc
    · by_contra hrun
      obtain ⟨q, rest', hl', hqm⟩ := h.running hq (by simpa using hrun)
      grind
    · exact hc.1
  have hbase : Queues { k with user := { k.user with pendingList := rest } } := by
    refine { h with
      before_mrun := fun q hq => h.before_mrun q (hsub q hq)
      withdrawn := fun d hd => h.withdrawn d (hsub d hd)
      running := by simp [hrun]
      mrun_waits := ?_
      opening := fun _ m hm => h.opening hq m (hsub m hm)
      opened := fun hm m hmr => h.opened hm m (hsub m hmr) }
    intro _ d hd e he hem hde
    obtain ⟨q, hql, hqm, hle⟩ := h.mrun_waits hq d hd e he hem hde
    rcases List.mem_cons.mp (hl ▸ hql) with rfl | hql
    · have hm : k.user.multi = false := by simpa [hqm, hrun] using hc
      simp [h.idle hm hrun] at hd
    · exact ⟨q, hql, hqm, hle⟩
  change Queues ⟨(execute { k.user with pendingList := rest } c).1, k.received, _⟩
  rcases execute_cases { k.user with pendingList := rest } c with he | ⟨hmc, hp, he⟩ | ⟨hrc, hp, he⟩
  · rw [he]
    exact { hbase with }
  · rw [he]
    refine { hbase with idle := by simp, opened := ?_ }
    intro _ m hm hmm
    have hsorted := hlog.list_sorted
    rw [hl, List.pairwise_cons] at hsorted
    have := h.opening hq c (by simp [hl]) hmc hp _ (hlog.listed m (hsub m hm)) (hsorted.1 m hm)
    simp [hmm] at this
  · rw [he]
    have hempty := h.withdrawn c (by simp [hl]) hrc hp
    exact { hbase with idle := fun _ _ => hempty, running := by simp, opened := by simp }

theorem member (h : Queues k) (hlog : Log k) {m : PendingCMD} {ms : List PendingCMD}
    (hp : k.user.pendingMulti = m :: ms) (hr : k.user.multiRunning) (q : ℕ) :
    Queues { k.perform k.user m (some q) with
      user := { (k.perform k.user m (some q)).user with pendingMulti := ms } } := by
  obtain ⟨name, hname⟩ : ∃ name, m.command = .other name :=
    hlog.queued_other _ (hlog.queued m (by simp [hp])) rfl
  have he : (execute k.user m).1 = k.user := by
    rcases execute_cases k.user m with he | he | he
    · exact he
    all_goals simp [hname] at he
  have hsub : ∀ d ∈ ms, d ∈ k.user.pendingMulti := fun d hd => by simp [hp, hd]
  change Queues ⟨{ (execute k.user m).1 with pendingMulti := ms }, k.received, _⟩
  rw [he]
  refine { h with
    idle := by simp [hr]
    before_mrun := fun q hq hm c hc => h.before_mrun q hq hm c (hsub c hc)
    since_reset := fun c hc => h.since_reset c (hsub c hc)
    withdrawn := ?_
    mrun_waits := fun hq c hc => h.mrun_waits hq c (hsub c hc) }
  intro d hd hdr hpass
  simp [h.withdrawn d hd hdr hpass] at hp

theorem change (h : Queues k) (hlog : Log k) (hc : Change SettledArrival k k') : Queues k' := by
  cases hc with
  | environment locked quitting hquit =>
    exact { h with
      running := fun hq => h.running (by grind)
      mrun_waits := fun hq => h.mrun_waits (by grind)
      opening := fun hq => h.opening (by grind) }
  | refuse c hs hg hq hc => exact h.refuse hlog hs hg hq hc
  | queue c hs hg hq hm name hc => exact h.queue hlog hs hg hq hm hc
  | reset c hs hg hq hc => exact h.reset hq hc
  | list c hs hg hq hr hc => exact h.list hlog hs hg hq hr hc
  | drop hq =>
    exact { h with
      before_mrun := by simp
      withdrawn := by simp
      running := by simp [hq]
      mrun_waits := by simp [hq]
      opening := by simp
      opened := by simp }
  | start c rest hl hq hc hm =>
    exact { h with
      idle := by simp
      running := fun _ _ => ⟨c, rest, hl, hc⟩
      opened := by simp }
  | stop hq hp =>
    exact { h with idle := fun _ _ => hp, running := by simp }
  | member c rest hl hq hr m ms hp => exact h.member hlog hp hr c.seq
  | plain c rest hl hq hc => exact h.plain hlog hl hq hc

end Queues

/-- The commands that reach a client which is not quitting satisfy `G`. -/
def Arrivals (G : Connection → CommandName → Bool → Prop) (ks : List Connection) : Event → Prop
  | .receive i command _ passes => ∀ k ∈ ks[i]?, k.user.quitting = false → G k command passes
  | .connect | .flush | .setLock .. | .setQuit _ => True

instance (G : Connection → CommandName → Bool → Prop) [∀ k c p, Decidable (G k c p)]
    (ks : List Connection) (event : Event) : Decidable (Arrivals G ks event) := by
  cases event <;> unfold Arrivals <;> infer_instance

theorem flush_changes (G : Connection → CommandName → Bool → Prop) (ks : List Connection) (flag : Bool) :
    ∀ k' ∈ (flush ks flag).1, ∃ k ∈ ks, Relation.ReflTransGen (Change G) k k' := by
  induction ks generalizing flag with
  | nil => simp [flush]
  | cons k ks ih =>
    unfold flush
    split
    · refine List.forall_mem_cons.mpr ⟨⟨k, by simp, visit_changes G k⟩, fun k' hk => ?_⟩
      exact ⟨k', by simp [hk], .refl⟩
    · refine List.forall_mem_cons.mpr ⟨⟨k, by simp, visit_changes G k⟩, fun k' hk => ?_⟩
      obtain ⟨j, hj, hjk⟩ := ih (flag || k.visit.flag) k' hk
      exact ⟨j, by simp [hj], hjk⟩

private theorem set_changes {G : Connection → CommandName → Bool → Prop} {ks ks' : List Connection} {i : ℕ}
    {f : Connection → Connection} (h : ks[i]?.map (fun k => ks.set i (f k)) = some ks')
    (hf : ∀ k ∈ ks[i]?, Relation.ReflTransGen (Change G) k (f k)) :
    ∀ k' ∈ ks', ∃ k ∈ ks, Relation.ReflTransGen (Change G) k k' := by
  obtain ⟨k, hk, rfl⟩ := Option.map_eq_some_iff.mp h
  intro k' hk'
  rcases List.mem_or_eq_of_mem_set hk' with hk' | rfl
  · exact ⟨k', hk', .refl⟩
  · exact ⟨k, List.mem_of_getElem? hk, hf k hk⟩

/-- Every connection after a step was just made, or changed from one before it. -/
theorem next_changes {G : Connection → CommandName → Bool → Prop} {ks ks' : List Connection} {event : Event}
    (hg : Arrivals G ks event) (h : next ks event = some ks') :
    ∀ k' ∈ ks', k' = .fresh ∨ ∃ k ∈ ks, Relation.ReflTransGen (Change G) k k' := by
  cases event with
  | connect =>
    obtain rfl : ks ++ [.fresh] = ks' := by simpa [next] using h
    exact List.forall_mem_append.mpr ⟨fun k hk => .inr ⟨k, hk, .refl⟩, by simp⟩
  | receive i command params passes =>
    refine fun k' hk' => .inr (set_changes h (fun k hk => ?_) k' hk')
    rcases add_change G k command params passes (hg k hk) with hc | hc
    · exact .single hc
    · rw [hc]
  | flush =>
    obtain rfl : (flush ks false).1 = ks' := by simpa [next] using h
    exact fun k' hk' => .inr (flush_changes G ks false k' hk')
  | setLock i locked =>
    exact fun k' hk' => .inr (set_changes h (fun k _ => .single (.environment locked _ id)) k' hk')
  | setQuit i =>
    exact fun k' hk' => .inr (set_changes h (fun k _ => .single (.environment _ true fun _ => rfl)) k' hk')

/-- Run induction over connections: a property of fresh connections that every change keeps. -/
theorem reach_forall {G : Connection → CommandName → Bool → Prop} {I : Connection → Prop}
    (hfresh : I .fresh) (hchange : ∀ k k', I k → Change G k k' → I k') {ks : List Connection}
    (h : machine.Reach (Arrivals G) ks) : ∀ k ∈ ks, I k := by
  refine h.invariant (I := fun ks => ∀ k ∈ ks, I k) ?_ ?_
  · rintro ks rfl
    simp
  · intro ks event ks' hI hg hn k' hk'
    rcases next_changes hg hn k' hk' with rfl | ⟨k, hk, hchain⟩
    · exact hfresh
    · have hk := hI k hk
      clear hk'
      induction hchain with
      | refl => exact hk
      | tail _ hlast ih => exact hchange _ _ ih hlast

end BerylDB.CommandQueue
