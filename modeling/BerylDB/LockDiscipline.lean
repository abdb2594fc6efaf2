import BerylDB.DataFlush
import Mathlib.Algebra.BigOperators.Group.List.Basic
import Mathlib.Algebra.GroupWithZero.Nat

/-! # Lock discipline

A client is locked exactly while one of its queries is in flight: posted to a data thread, taken up
by it, or answered with a final result that has not been delivered. -/
namespace BerylDB.DataFlush
open Transition

def DataThread.load (d : DataThread) (i : ℕ) : ℕ :=
  d.queue.countP (·.user = some i) + d.request.toList.countP (·.user = some i)

def User.finals (u : User) : ℕ := u.notifications.countP (!·.more)

namespace Kernel

def load (k : Kernel) (i : ℕ) : ℕ := (k.threads.map (·.load i)).sum

/-- The queries of client `i` that are posted, running, or answered and not yet delivered. -/
def inFlight (k : Kernel) (i : ℕ) (u : User) : ℕ := k.load i + u.finals

/-- Some further run unlocks client `i`. -/
def Owed (k : Kernel) (i : ℕ) : Prop :=
  ∃ events k', machine.exec (fun _ _ => True) k events = some k' ∧ ∃ u ∈ k'.users[i]?, u.locked = false

def LockDiscipline (k : Kernel) : Prop :=
  ∀ (i : ℕ) (u : User), k.users[i]? = some u → (u.locked ↔ k.inFlight i u = 1) ∧ (u.awaiting → k.Owed i)

end Kernel

/-- No scan of a client is interrupted, `ResetAll` finds no final result waiting for a client, and no
locked client disconnects. -/
def Undisturbed (k : Kernel) : Event → Prop
  | .interrupt t => ∀ query ∈ k.threads[t]?.bind (·.request), query.user = none
  | .resetAll => ∀ u ∈ k.users, u.listed → u.quitting = false → ∀ s ∈ u.notifications, s.more
  | .disconnect i => ∀ u ∈ k.users[i]?, u.quitting = false → u.locked = false
  | _ => True

instance (k : Kernel) (e : Event) : Decidable (Undisturbed k e) := by
  cases e <;> unfold Undisturbed <;> infer_instance

/-- Every query is kept where its user expects it, and the lock counts what is in flight. -/
structure Invariant (k : Kernel) : Prop where
  threads : k.threads ≠ []
  pending : ∀ (i : ℕ) (u : User), k.users[i]? = some u → ∀ q ∈ u.pending, q.user = some i ∧ q.flags = .none
  globalPending : ∀ q ∈ k.globalPending, q.user = none
  posted : ∀ d ∈ k.threads, ∀ q ∈ d.queue ++ d.request.toList, ∀ i, q.user = some i →
    q.flags = .none ∧ i < k.users.length
  listed : ∀ u ∈ k.users, u.listed = !u.quitting
  present : ∀ u ∈ k.users, u.awaiting = false
  exact : ∀ (i : ℕ) (u : User), k.users[i]? = some u → k.inFlight i u = if u.locked then 1 else 0

theorem Invariant.lockDiscipline {k : Kernel} (h : Invariant k) : k.LockDiscipline := by
  intro i u hu
  have hexact := h.exact i u hu
  have hpresent := h.present u (List.mem_of_getElem? hu)
  refine ⟨?_, by simp [hpresent]⟩
  cases hl : u.locked <;> simp [hexact, hl]

/-- Rewriting one element of a list moves the sum by what that element contributes. -/
theorem sum_map_modify {α : Type*} (g : α → ℕ) (f : α → α) {l : List α} {t : ℕ} {a : α} (h : l[t]? = some a) :
    ((l.modify t f).map g).sum + g a = (l.map g).sum + g (f a) := by
  induction l generalizing t with
  | nil => simp at h
  | cons b l ih =>
    cases t with
    | zero =>
      obtain rfl : b = a := by simpa using h
      simp only [List.modify_zero_cons, List.map_cons, List.sum_cons]
      omega
    | succ t =>
      have := ih (t := t) (by simpa using h)
      simp only [List.modify_succ_cons, List.map_cons, List.sum_cons]
      omega

theorem getElem?_modify_cases {α : Type*} {l : List α} {i j : ℕ} {f : α → α} {v : α}
    (h : (l.modify i f)[j]? = some v) :
    (i ≠ j ∧ l[j]? = some v) ∨ (i = j ∧ ∃ u, l[i]? = some u ∧ v = f u) := by
  rw [List.getElem?_modify] at h
  obtain ⟨u, hu, rfl⟩ := Option.map_eq_some_iff.mp h
  by_cases hij : i = j
  · subst hij
    exact .inr ⟨rfl, u, hu, by simp⟩
  · exact .inl ⟨hij, by simpa [hij] using hu⟩

theorem forall_mem_modify {α : Type*} {p : α → Prop} {l : List α} {i : ℕ} {f : α → α} (h : ∀ v ∈ l, p v)
    (hf : ∀ v, l[i]? = some v → p (f v)) : ∀ v ∈ l.modify i f, p v := by
  intro v hv
  obtain ⟨j, hj⟩ := List.mem_iff_getElem?.mp hv
  rcases getElem?_modify_cases hj with ⟨_, hj⟩ | ⟨rfl, u, hu, rfl⟩
  · exact h v (List.mem_of_getElem? hj)
  · exact hf u hu

namespace Kernel

variable {k : Kernel}

/-- Posting a query adds one to the load of its client. -/
theorem load_enqueue {t : ℕ} (ht : t < k.threads.length) (query : Query) (i : ℕ) :
    ((k.threads.modify t fun d => { d with queue := d.queue ++ [query] }).map (·.load i)).sum =
      k.load i + if query.user = some i then 1 else 0 := by
  have h := sum_map_modify (DataThread.load · i) (fun d => { d with queue := d.queue ++ [query] })
    (List.getElem?_eq_getElem ht)
  simp only [DataThread.load, List.countP_append, List.countP_singleton, decide_eq_true_eq] at h
  simp only [load, DataThread.load]
  omega

theorem toUse_lt (h : k.threads ≠ []) (random : ℕ) : k.toUse random < k.threads.length := by
  unfold toUse
  split
  · next t ht => exact (List.findIdx?_eq_some_iff_getElem.mp ht).1
  · exact Nat.mod_lt _ (List.length_pos_iff.mpr h)

end Kernel

namespace Invariant

variable {k : Kernel}

/-- A step that rewrites client `i` and the threads, and moves no query of another client. -/
theorem move (h : Invariant k) {i : ℕ} {f : User → User} {threads : List DataThread} (hne : threads ≠ [])
    (hposted : ∀ d ∈ threads, ∀ q ∈ d.queue ++ d.request.toList, ∀ i, q.user = some i →
      q.flags = .none ∧ i < k.users.length)
    (hpending : ∀ u : User, k.users[i]? = some u → ∀ q ∈ (f u).pending, q.user = some i ∧ q.flags = .none)
    (hlisted : ∀ u : User, k.users[i]? = some u → (f u).listed = !(f u).quitting)
    (hpresent : ∀ u : User, k.users[i]? = some u → (f u).awaiting = false)
    (hother : ∀ j, i ≠ j → (threads.map (·.load j)).sum = k.load j)
    (hexact : ∀ u : User, k.users[i]? = some u →
      (threads.map (·.load i)).sum + (f u).finals = if (f u).locked then 1 else 0) :
    Invariant { k with users := k.users.modify i f, threads } where
  threads := hne
  pending j v hv := by
    rcases getElem?_modify_cases hv with ⟨_, hv⟩ | ⟨rfl, u, hu, rfl⟩
    · exact h.pending j v hv
    · exact hpending u hu
  globalPending := h.globalPending
  posted d hd q hq j hj := by simpa using hposted d hd q hq j hj
  listed := forall_mem_modify h.listed hlisted
  present := forall_mem_modify h.present hpresent
  exact j v hv := by
    rcases getElem?_modify_cases hv with ⟨hij, hv⟩ | ⟨rfl, u, hu, rfl⟩
    · have := h.exact j v hv
      simpa only [Kernel.inFlight, Kernel.load, hother j hij] using this
    · exact hexact u hu

/-- A step that rewrites client `i` alone. -/
theorem modifyUser (h : Invariant k) {i : ℕ} {f : User → User}
    (hpending : ∀ u : User, k.users[i]? = some u → ∀ q ∈ (f u).pending, q.user = some i ∧ q.flags = .none)
    (hlisted : ∀ u : User, k.users[i]? = some u → (f u).listed = !(f u).quitting)
    (hpresent : ∀ u : User, k.users[i]? = some u → (f u).awaiting = false)
    (hexact : ∀ u : User, k.users[i]? = some u → k.load i + (f u).finals = if (f u).locked then 1 else 0) :
    Invariant (k.modifyUser (some i) f) :=
  h.move h.threads h.posted hpending hlisted hpresent (fun _ _ => rfl) hexact

/-- A step that moves queries between the threads and the kernel, none of them of a client. -/
theorem rethread (h : Invariant k) {threads : List DataThread} (hne : threads ≠ [])
    (hposted : ∀ d ∈ threads, ∀ q ∈ d.queue ++ d.request.toList, ∀ i, q.user = some i →
      q.flags = .none ∧ i < k.users.length)
    (hload : ∀ j, (threads.map (·.load j)).sum = k.load j) : Invariant { k with threads } :=
  { h with
    threads := hne
    posted := hposted
    exact := fun i u hu => by simpa only [Kernel.inFlight, Kernel.load, hload] using h.exact i u hu }

private theorem posted_enqueue (h : Invariant k) {query : Query}
    (hquery : ∀ i, query.user = some i → query.flags = .none ∧ i < k.users.length) (t : ℕ) :
    ∀ d ∈ k.threads.modify t fun d => { d with queue := d.queue ++ [query] },
      ∀ q ∈ d.queue ++ d.request.toList, ∀ i, q.user = some i → q.flags = .none ∧ i < k.users.length := by
  refine forall_mem_modify h.posted fun d hd q hq => ?_
  have hposted := h.posted d (List.mem_of_getElem? hd)
  simp only [List.mem_append, List.mem_singleton] at hq hposted
  rcases hq with (hq | rfl) | hq
  · exact hposted q (.inl hq)
  · exact hquery
  · exact hposted q (.inr hq)

theorem modify_ne_nil {α : Type*} {l : List α} {t : ℕ} {f : α → α} (h : l ≠ []) : l.modify t f ≠ [] := by
  rw [ne_eq, ← List.length_eq_zero_iff, List.length_modify]
  exact fun hl => h (List.length_eq_zero_iff.mp hl)

theorem load_eq_zero (h : Invariant k) {i : ℕ} (hi : k.users.length ≤ i) : k.load i = 0 := by
  refine List.sum_eq_zero fun n hn => ?_
  obtain ⟨d, hd, rfl⟩ := List.mem_map.mp hn
  have hnone : ∀ q ∈ d.queue ++ d.request.toList, ¬q.user = some i := by
    intro q hq hqi
    exact absurd (h.posted d hd q hq i hqi).2 (by omega)
  rw [List.forall_mem_append] at hnone
  simp only [DataThread.load, Nat.add_eq_zero_iff, List.countP_eq_zero, decide_eq_true_eq]
  exact hnone

theorem connect (h : Invariant k) : Invariant { k with users := k.users ++ [.fresh] } := by
  have hcases : ∀ {i : ℕ} {u : User}, (k.users ++ [.fresh])[i]? = some u →
      k.users[i]? = some u ∨ i = k.users.length ∧ u = .fresh := by
    intro i u hu
    by_cases hi : i < k.users.length
    · exact .inl (by rwa [List.getElem?_append_left hi] at hu)
    · obtain ⟨hi', rfl⟩ : i = k.users.length ∧ User.fresh = u := by
        have hlen := (List.getElem?_eq_some_iff.mp hu).1
        simp only [List.length_append, List.length_singleton] at hlen
        obtain rfl : i = k.users.length := by omega
        simpa using hu
      exact .inr ⟨hi', rfl⟩
  refine { h with pending := ?_, posted := ?_, listed := ?_, present := ?_, exact := ?_ }
  · intro i u hu
    rcases hcases hu with hu | ⟨_, rfl⟩
    · exact h.pending i u hu
    · simp [User.fresh]
  · intro d hd q hq i hi
    have := h.posted d hd q hq i hi
    exact ⟨this.1, by simp only [List.length_append]; omega⟩
  · exact List.forall_mem_append.mpr ⟨h.listed, by simp [User.fresh]⟩
  · exact List.forall_mem_append.mpr ⟨h.present, by simp [User.fresh]⟩
  · intro i u hu
    rcases hcases hu with hu | ⟨rfl, rfl⟩
    · exact h.exact i u hu
    · change k.load k.users.length + 0 = 0
      rw [h.load_eq_zero (Nat.le_refl _)]

theorem push (h : Invariant k) (i : ℕ) (query : Query) (huser : query.user = some i) (hflags : query.flags = .none) :
    Invariant (k.push i query) := by
  have hcases : ∀ u : User, (if u.quitting then u else { u with pending := u.pending ++ [query] }) = u ∨
      (if u.quitting then u else { u with pending := u.pending ++ [query] }) =
        { u with pending := u.pending ++ [query] } := fun u => by split_ifs <;> simp
  refine h.modifyUser ?_ ?_ ?_ ?_ <;> intro u hu <;> rcases hcases u with heq | heq <;> rw [heq]
  · exact h.pending i u hu
  · exact List.forall_mem_append.mpr ⟨h.pending i u hu, by simp [huser, hflags]⟩
  all_goals first
    | exact h.listed u (List.mem_of_getElem? hu)
    | exact h.present u (List.mem_of_getElem? hu)
    | exact h.exact i u hu

/-- Posting a query that belongs to no client. -/
theorem post_global (h : Invariant k) {t : ℕ} (ht : t < k.threads.length) {query : Query} (huser : query.user = none) :
    Invariant (k.post t query) := by
  unfold Kernel.post
  split_ifs
  · simpa [Kernel.setLock, Kernel.modifyUser, huser] using h
  · refine h.rethread (modify_ne_nil h.threads) (h.posted_enqueue (by simp [huser]) t) fun j => ?_
    simp [Kernel.load_enqueue ht, huser]

theorem getGlobalPending (h : Invariant k) (random : ℕ) : Invariant (k.getGlobalPending random) := by
  unfold Kernel.getGlobalPending
  split_ifs
  · cases hg : k.globalPending with
    | nil => exact h
    | cons query rest =>
      have hglobal := h.globalPending
      rw [hg, List.forall_mem_cons] at hglobal
      have h' : Invariant { k with globalPending := rest } := { h with globalPending := hglobal.2 }
      exact h'.post_global (Kernel.toUse_lt h.threads random) hglobal.1
  · exact h

/-- A client is visited by `GetPending` only to lock it and post its first query. -/
theorem getPending (h : Invariant k) (i random : ℕ) : Invariant (k.getPending i random) := by
  unfold Kernel.getPending
  cases hu : k.users[i]? with
  | none => exact h
  | some u =>
    have hmem := List.mem_of_getElem? hu
    have hlisted := h.listed u hmem
    dsimp only
    split_ifs with hskip hidle
    · exact h
    · exact h
    obtain ⟨hrun, hl⟩ : k.running = true ∧ u.listed = true := by simpa using hskip
    have hquit : u.quitting = false := by simpa [hl] using hlisted.symm
    obtain ⟨hne, hlock⟩ : u.pending ≠ [] ∧ u.locked = false := by simpa [hquit] using hidle
    obtain ⟨query, rest, hp⟩ := List.exists_cons_of_ne_nil hne
    have hpending := h.pending i u hu
    rw [hp, List.forall_mem_cons] at hpending
    obtain ⟨⟨huser, hflags⟩, hrest⟩ := hpending
    have hexact : k.load i + u.finals = 0 := by simpa [hlock, Kernel.inFlight] using h.exact i u hu
    have hne := modify_ne_nil (t := k.toUse random)
      (f := fun d : DataThread => { d with queue := d.queue ++ [query] }) h.threads
    by_cases hclosing : k.closing query.database
    · have heq : ((k.setLock (some i) true).modifyUser (some i) fun u => { u with pending := rest }).post
          (k.toUse random) query = k.modifyUser (some i) fun u => { u with pending := rest, locked := false } := by
        simp [Kernel.post, Kernel.setLock, Kernel.modifyUser, hclosing, huser, List.modify_modify_eq,
          Function.comp_def]
      rw [hp]
      dsimp only
      rw [heq]
      refine h.modifyUser ?_ ?_ ?_ ?_ <;> intro v hv <;> obtain rfl : u = v := Option.some.inj (hu.symm.trans hv)
      · exact hrest
      · exact hlisted
      · exact h.present u hmem
      · exact hexact
    · have heq : ((k.setLock (some i) true).modifyUser (some i) fun u => { u with pending := rest }).post
          (k.toUse random) query =
          { k with
            users := k.users.modify i fun u => { u with pending := rest, locked := true }
            threads := k.threads.modify (k.toUse random) fun d => { d with queue := d.queue ++ [query] } } := by
        simp [Kernel.post, Kernel.setLock, Kernel.modifyUser, hclosing, List.modify_modify_eq,
          Function.comp_def]
      rw [hp]
      dsimp only
      rw [heq]
      have hload := Kernel.load_enqueue (Kernel.toUse_lt h.threads random) query
      simp only [huser, Option.some.injEq] at hload
      refine h.move hne (h.posted_enqueue (fun j hj => ⟨hflags, ?_⟩) _) ?_ ?_ ?_ (fun j hij => ?_) ?_
      · obtain rfl : i = j := by simpa [huser] using hj
        exact (List.getElem?_eq_some_iff.mp hu).1
      · exact fun v _ => hrest
      · exact fun v hv => h.listed v (List.mem_of_getElem? hv)
      · exact fun v hv => h.present v (List.mem_of_getElem? hv)
      · simp [hload, hij]
      · intro v hv
        obtain rfl : u = v := Option.some.inj (hu.symm.trans hv)
        simp only [hload, if_true, User.finals] at hexact ⊢
        omega

/-- Delivering the final result of a client unlocks it. -/
theorem getResults (h : Invariant k) (i : ℕ) : Invariant (k.getResults i) := by
  unfold Kernel.getResults
  cases hu : k.users[i]? with
  | none => exact h
  | some u =>
    dsimp only
    split_ifs
    · exact h
    cases hn : u.notifications with
    | nil => exact h
    | cons signal rest =>
      have hexact := h.exact i u hu
      simp only [Kernel.inFlight, User.finals, hn, List.countP_cons] at hexact
      have hkeep : ∀ {f : User → User}, (∀ v, (f v).pending = v.pending ∧ (f v).listed = v.listed ∧
          (f v).quitting = v.quitting ∧ (f v).awaiting = v.awaiting) →
          (k.load i + (f u).finals = if (f u).locked then 1 else 0) → Invariant (k.modifyUser (some i) f) := by
        intro f hf hfinals
        refine h.modifyUser ?_ ?_ ?_ ?_ <;> intro v hv <;> obtain ⟨hp, hl, hq, ha⟩ := hf v
        · rw [hp]; exact h.pending i v hv
        · rw [hl, hq]; exact h.listed v (List.mem_of_getElem? hv)
        · rw [ha]; exact h.present v (List.mem_of_getElem? hv)
        · obtain rfl : u = v := Option.some.inj (hu.symm.trans hv)
          exact hfinals
      cases hm : signal.more with
      | true =>
        simp only [hm, Bool.not_true, Bool.false_eq_true, if_false, Nat.add_zero] at hexact
        simp only [hm, if_true]
        exact hkeep (f := fun u => { u with notifications := rest }) (fun v => ⟨rfl, rfl, rfl, rfl⟩) hexact
      | false =>
        have heq : (k.modifyUser (some i) fun u => { u with notifications := rest }).setLock (some i) false =
            k.modifyUser (some i) fun u => { u with notifications := rest, locked := false } := by
          simp [Kernel.setLock, Kernel.modifyUser, List.modify_modify_eq, Function.comp_def]
        simp only [hm, heq, Bool.false_eq_true, if_false]
        refine hkeep (f := fun u => { u with notifications := rest, locked := false })
          (fun v => ⟨rfl, rfl, rfl, rfl⟩) ?_
        simp only [hm, Bool.not_false, if_true] at hexact
        simp only [User.finals, Bool.false_eq_true, if_false]
        split_ifs at hexact
        omega

theorem take (h : Invariant k) (t : ℕ) : Invariant (k.take t) := by
  unfold Kernel.take
  split
  · next query rest busy hd =>
    have hposted := h.posted _ (List.mem_of_getElem? hd)
    split_ifs
    · refine h.rethread (modify_ne_nil h.threads) (forall_mem_modify h.posted fun _ _ q hq => ?_) fun j => ?_
      · simp only [List.mem_append, Option.toList_some, List.mem_singleton] at hq
        rcases hq with hq | rfl
        · exact hposted q (by simp [hq])
        · exact hposted q (by simp)
      · have := sum_map_modify (DataThread.load · j) (fun _ => ⟨rest, true, some query⟩) hd
        simp only [DataThread.load, List.countP_cons, Option.toList_some, Option.toList_none, List.countP_nil] at this
        simp only [Kernel.load, DataThread.load]
        omega
    · refine h.rethread (modify_ne_nil h.threads) (forall_mem_modify h.posted fun d hd' => ?_) fun j => ?_
      · exact h.posted d (List.mem_of_getElem? hd')
      · have := sum_map_modify (DataThread.load · j) (fun d => { d with busy := false }) hd
        simp only [DataThread.load] at this
        simp only [Kernel.load, DataThread.load]
        omega
  · exact h

/-- Results go to the notifications of a client, final ones against the load they came from. -/
theorem request_of_bind {t : ℕ} {query : Query} (hr : k.threads[t]?.bind (·.request) = some query) :
    ∃ d, k.threads[t]? = some d ∧ d.request = some query := by
  simpa [Option.bind_eq_some_iff] using hr

theorem posted_release (h : Invariant k) (t : ℕ) :
    ∀ d ∈ k.threads.modify t fun d => { d with busy := false, request := none },
      ∀ q ∈ d.queue ++ d.request.toList, ∀ i, q.user = some i → q.flags = .none ∧ i < k.users.length :=
  forall_mem_modify h.posted fun d hd q hq => h.posted d (List.mem_of_getElem? hd) q (by simp at hq; simp [hq])

theorem load_release {t : ℕ} {query : Query} (hr : k.threads[t]?.bind (·.request) = some query) (i : ℕ) :
    ((k.threads.modify t fun d => { d with busy := false, request := none }).map (·.load i)).sum +
      (if query.user = some i then 1 else 0) = k.load i := by
  obtain ⟨d, hd, hreq⟩ := request_of_bind hr
  have := sum_map_modify (DataThread.load · i) (fun d => { d with busy := false, request := none }) hd
  simp only [DataThread.load, hreq, Option.toList_some, Option.toList_none, List.countP_singleton,
    List.countP_nil, decide_eq_true_eq] at this
  simp only [Kernel.load, DataThread.load]
  omega

/-- The answer to a query of the global user concerns no client. -/
theorem answer_global (h : Invariant k) {t : ℕ} {query : Query}
    (hr : k.threads[t]?.bind (·.request) = some query) (huser : query.user = none) (interrupted : Bool) :
    Invariant ((k.release t).answer query interrupted) := by
  have hrelease : Invariant (k.release t) := by
    refine h.rethread (modify_ne_nil h.threads) (h.posted_release t) fun j => ?_
    simpa [huser] using load_release hr j
  unfold Kernel.answer
  split
  · exact hrelease
  · simpa [Kernel.attachGlobal, Kernel.setLock, Kernel.modifyUser, huser] using hrelease
  · split_ifs
    · exact hrelease
    · simpa [Kernel.attachResult, huser] using { hrelease with }

theorem finish (h : Invariant k) {t : ℕ} {query : Query} (hr : k.threads[t]?.bind (·.request) = some query) :
    Invariant ((k.release t).answer query false) := by
  cases huser : query.user with
  | none => exact h.answer_global hr huser false
  | some i =>
    obtain ⟨d, hd, hreq⟩ := request_of_bind hr
    have hflags := (h.posted d (List.mem_of_getElem? hd) query (by simp [hreq]) i huser).1
    have heq : (k.release t).answer query false =
        { k with
          users := k.users.modify i fun u => { u with notifications := u.notifications ++ [⟨query, false⟩] }
          threads := k.threads.modify t fun d => { d with busy := false, request := none } } := by
      simp [Kernel.answer, hflags, Kernel.attachResult, huser, Kernel.release, Kernel.modifyThread]
    rw [heq]
    have hload := load_release hr
    simp only [huser, Option.some.injEq] at hload
    refine h.move (modify_ne_nil h.threads) (h.posted_release t) ?_ ?_ ?_ (fun j hij => ?_) fun u hu => ?_
    · exact fun u hu => h.pending i u hu
    · exact fun u hu => h.listed u (List.mem_of_getElem? hu)
    · exact fun u hu => h.present u (List.mem_of_getElem? hu)
    · simpa [hij] using hload j
    · have hexact := h.exact i u hu
      have := hload i
      simp only [Kernel.inFlight, User.finals, List.countP_append, List.countP_singleton, if_true,
        Bool.not_false] at this hexact ⊢
      omega

theorem attachMore (h : Invariant k) (query : Query) : Invariant (k.attachResult ⟨query, true⟩) := by
  unfold Kernel.attachResult
  split
  · next i _ =>
    refine h.modifyUser (i := i) ?_ ?_ ?_ fun u hu => ?_
    · exact fun u hu => h.pending i u hu
    · exact fun u hu => h.listed u (List.mem_of_getElem? hu)
    · exact fun u hu => h.present u (List.mem_of_getElem? hu)
    · simpa [User.finals, Kernel.inFlight] using h.exact i u hu
  · exact { h with }

theorem resetAll (h : Invariant k) (hfinal : ∀ u ∈ k.users, u.listed → u.quitting = false →
    ∀ s ∈ u.notifications, s.more) : Invariant k.resetAll := by
  have hcases : ∀ {i : ℕ} {v : User}, (k.resetAll.users)[i]? = some v → ∃ u, k.users[i]? = some u ∧
      (v = u ∨ v = { u with notifications := [], pending := [] } ∧ u.finals = 0) := by
    intro i v hv
    obtain ⟨u, hu, rfl⟩ := Option.map_eq_some_iff.mp (by simpa [Kernel.resetAll] using hv)
    refine ⟨u, hu, ?_⟩
    split_ifs with hskip
    · exact .inl rfl
    · obtain ⟨hl, hq⟩ : u.listed = true ∧ u.quitting = false := by simpa using hskip
      refine .inr ⟨rfl, ?_⟩
      simpa [User.finals, List.countP_eq_zero] using hfinal u (List.mem_of_getElem? hu) hl hq
  have hmem : ∀ {v}, v ∈ k.resetAll.users → ∃ u ∈ k.users, v.listed = u.listed ∧ v.quitting = u.quitting ∧
      v.awaiting = u.awaiting := by
    intro v hv
    obtain ⟨i, hi⟩ := List.mem_iff_getElem?.mp hv
    obtain ⟨u, hu, rfl | ⟨rfl, _⟩⟩ := hcases hi <;> exact ⟨_, List.mem_of_getElem? hu, rfl, rfl, rfl⟩
  refine { threads := h.threads, pending := ?_, globalPending := by simp [Kernel.resetAll], posted := ?_,
           listed := ?_, present := ?_, exact := ?_ }
  · intro i v hv
    obtain ⟨u, hu, rfl | ⟨rfl, _⟩⟩ := hcases hv
    · exact h.pending i _ hu
    · simp
  · simpa [Kernel.resetAll] using h.posted
  · intro v hv
    obtain ⟨u, hu, hl, hq, _⟩ := hmem hv
    rw [hl, hq, h.listed u hu]
  · intro v hv
    obtain ⟨u, hu, _, _, ha⟩ := hmem hv
    rw [ha, h.present u hu]
  · intro i v hv
    obtain ⟨u, hu, rfl | ⟨rfl, hzero⟩⟩ := hcases hv
    · exact h.exact i _ hu
    · have := h.exact i u hu
      simp only [Kernel.inFlight, hzero] at this
      simpa [Kernel.inFlight, User.finals, Kernel.load, Kernel.resetAll] using this

theorem disconnect (h : Invariant k) {i : ℕ}
    (hg : ∀ u : User, k.users[i]? = some u → u.quitting = false → u.locked = false) :
    Invariant (k.disconnect i) := by
  refine h.modifyUser ?_ ?_ ?_ ?_ <;> intro u hu <;>
    have hmem := List.mem_of_getElem? hu <;> by_cases hq : u.quitting
  · simpa [hq] using h.pending i u hu
  · simpa [hq, hg u hu (by simpa using hq)] using h.pending i u hu
  · simpa [hq] using h.listed u hmem
  · simp [hq, hg u hu (by simpa using hq)]
  · simpa [hq] using h.present u hmem
  · simpa [hq, hg u hu (by simpa using hq)] using h.present u hmem
  · simpa [hq, Kernel.inFlight] using h.exact i u hu
  · have hl := hg u hu (by simpa using hq)
    simpa [hq, hl, Kernel.inFlight, User.finals] using h.exact i u hu

theorem forceExits (h : Invariant k) : Invariant k.forceExits := by
  have heq : k.forceExits = k := by
    unfold Kernel.forceExits
    rw [List.map_congr_left (g := id) fun u hu => by simp [h.present u hu], List.map_id]
  rw [heq]
  exact h

theorem step {k' : Kernel} (h : Invariant k) {e : Event} (hg : Undisturbed k e) (hn : next k e = some k') :
    Invariant k' := by
  cases e with
  | connect => obtain rfl := Option.some.inj hn; exact h.connect
  | push i database scan invalidFormat => obtain rfl := Option.some.inj hn; exact h.push i _ rfl rfl
  | pushGlobal database flags scan invalidFormat =>
    obtain rfl := Option.some.inj hn
    exact { h with globalPending := List.forall_mem_append.mpr ⟨h.globalPending, by simp⟩ }
  | getGlobalPending random => obtain rfl := Option.some.inj hn; exact h.getGlobalPending random
  | getPending i random =>
    simp only [next] at hn
    split_ifs at hn
    obtain rfl := Option.some.inj hn
    exact h.getPending i random
  | getResults i => obtain rfl := Option.some.inj hn; exact h.getResults i
  | take t => obtain rfl := Option.some.inj hn; exact h.take t
  | attachMore t =>
    simp only [next] at hn
    split at hn
    · split_ifs at hn
      obtain rfl := Option.some.inj hn
      exact h.attachMore _
    · simp at hn
  | interrupt t =>
    simp only [next] at hn
    split at hn
    · next query hr =>
      split_ifs at hn
      obtain rfl := Option.some.inj hn
      exact h.answer_global hr (hg query hr) true
    · simp at hn
  | finish t =>
    simp only [next] at hn
    split at hn
    · next query hr =>
      obtain rfl := Option.some.inj hn
      exact h.finish hr
    · simp at hn
  | pause => obtain rfl := Option.some.inj hn; exact { h with }
  | resetAll => obtain rfl := Option.some.inj hn; exact h.resetAll hg
  | resume => obtain rfl := Option.some.inj hn; exact { h with }
  | disconnect i => obtain rfl := Option.some.inj hn; exact h.disconnect hg
  | forceExits => obtain rfl := Option.some.inj hn; exact h.forceExits
  | setClosing database closing => obtain rfl := Option.some.inj hn; exact { h with }

end Invariant

/-- Along every undisturbed run a client is locked exactly while one of its queries is in flight. -/
theorem lock_discipline {k : Kernel} (h : machine.Reach Undisturbed k) : k.LockDiscipline := by
  refine (h.invariant (I := Invariant) ?_ fun k e k' hk hg hn => hk.step hg hn).lockDiscipline
  rintro k ⟨hu, hp, hne, hidle⟩
  refine ⟨hne, by simp [hu], by simp [hp], fun d hd => ?_, by simp [hu], by simp [hu], by simp [hu]⟩
  simp [hidle d hd]

/-- A client that disconnects during a scan stays locked in `AwaitingExit` with nothing in flight. -/
theorem interrupted_scan_stays_locked : ∃ k, machine.Reachable k ∧ ¬k.LockDiscipline := by
  have h : (machine.exec (fun _ _ => True) ⟨[], [], [], [⟨[], false, none⟩], true, fun _ => false⟩
      [.connect, .push 0 0 true false, .getPending 0 0, .take 0, .disconnect 0, .interrupt 0]).any (fun k =>
        k.users = [⟨false, true, true, true, false, [], []⟩] ∧ k.load 0 = 0) := by decide
  obtain ⟨k, reached, husers, hload⟩ := Machine.exec_holds h (.initial ⟨rfl, rfl, by simp, by simp⟩)
  refine ⟨k, reached, fun hd => ?_⟩
  have := (hd 0 _ (by rw [husers]; rfl)).1
  simp [Kernel.inFlight, hload, User.finals] at this

theorem lock_discipline_run : ∃ k, machine.Reach Undisturbed k ∧
    k.users.map (·.locked) = [true, false] ∧ k.load 0 = 1 ∧ k.LockDiscipline := by
  have h : (machine.exec Undisturbed ⟨[], [], [], [⟨[], false, none⟩], true, fun _ => false⟩
      [.connect, .connect, .push 0 0 true false, .push 1 0 false false, .getPending 0 0, .getPending 1 0, .take 0,
        .attachMore 0, .getResults 0, .finish 0, .getResults 0, .take 0, .finish 0, .getResults 1,
        .push 0 0 false false, .getPending 0 0]).any (fun k =>
        k.users.map (·.locked) = [true, false] ∧ k.load 0 = 1) := by decide
  obtain ⟨k, hr, husers, hload⟩ := Machine.exec_holds h (.initial ⟨rfl, rfl, by simp, by simp⟩)
  exact ⟨k, hr, husers, hload, lock_discipline hr⟩

end BerylDB.DataFlush
