import BerylDB.LockDiscipline

/-! # What a client sees of its queries

Logs of what a client pushed, what the data threads took up for it, and which results were attached and
delivered.  The logs say nothing that the kernel reads. -/
namespace BerylDB.DataFlush
open Transition

structure Log where
  pushed : List Query := []
  started : List Query := []
  attached : List Signal := []
  delivered : List Signal := []

/-- The results of one query: `parts` partial ones, and the final one. -/
def answers (query : Query) (parts : ℕ) : List Signal := List.replicate parts ⟨query, true⟩ ++ [⟨query, false⟩]

/-- The results of the queries, one query after the other. -/
def AllAnswered (queries : List Query) (results : List Signal) : Prop :=
  ∃ parts : List ℕ, parts.length = queries.length ∧ results = (List.zipWith answers queries parts).flatten

/-- The same, where the last query may be executing: it has no final result yet. -/
def Answered (queries : List Query) (results : List Signal) : Option Query → Prop
  | none => AllAnswered queries results
  | some query => ∃ done before parts, queries = done ++ [query] ∧ AllAnswered done before ∧
      results = before ++ List.replicate parts ⟨query, true⟩

theorem AllAnswered.start {queries : List Query} {results : List Signal} (h : AllAnswered queries results) (query : Query) :
    Answered (queries ++ [query]) results (some query) :=
  ⟨queries, results, 0, rfl, h, by simp⟩

theorem Answered.more {queries : List Query} {results : List Signal} {query : Query}
    (h : Answered queries results (some query)) : Answered queries (results ++ [⟨query, true⟩]) (some query) := by
  obtain ⟨done, before, parts, rfl, answered, rfl⟩ := h
  exact ⟨done, before, parts + 1, rfl, answered, by simp [List.replicate_succ']⟩

theorem Answered.final {queries : List Query} {results : List Signal} {query : Query}
    (h : Answered queries results (some query)) : Answered queries (results ++ [⟨query, false⟩]) none := by
  obtain ⟨done, before, parts, rfl, ⟨counts, length, rfl⟩, rfl⟩ := h
  refine ⟨counts ++ [parts], by simp [length], ?_⟩
  rw [List.zipWith_append length.symm]
  simp [answers]

def postedTo (threads : List DataThread) (i : ℕ) : List Query :=
  threads.flatMap fun d => d.queue.filter (·.user = some i)

def executingFor (threads : List DataThread) (i : ℕ) : List Query :=
  threads.flatMap fun d => d.request.toList.filter (·.user = some i)

/-- What client `i` is owed: each query pushed was started, in order, or waits; each result attached was delivered,
in order, or waits; and what was posted, executes or waits as a final result is one query at most. -/
structure Ordered (threads : List DataThread) (i : ℕ) (u : User) (l : Log) : Prop where
  order : l.pushed = l.started ++ postedTo threads i ++ u.pending
  exclusive : (postedTo threads i).length + (executingFor threads i).length + u.finals = if u.locked then 1 else 0
  results : l.attached = l.delivered ++ u.notifications
  answered : Answered l.started l.attached (executingFor threads i).head?

/-! ## The kernel with its logs -/

inductive Observation where
  | pushed (query : Query)
  | started (query : Query)
  | attached (signal : Signal)
  | delivered (signal : Signal)

def Log.record (l : Log) : Observation → Log
  | .pushed query => { l with pushed := l.pushed ++ [query] }
  | .started query => { l with started := l.started ++ [query] }
  | .attached signal => { l with attached := l.attached ++ [signal] }
  | .delivered signal => { l with delivered := l.delivered ++ [signal] }

/-- What a step does to the queries of a client. -/
def observe (k : Kernel) : Event → Option (ℕ × Observation)
  | .push i database scan invalidFormat =>
    match k.users[i]? with
    | some u => if u.quitting then none else some (i, .pushed ⟨some i, database, .none, scan, invalidFormat⟩)
    | none => none
  | .getResults i =>
    match k.users[i]? with
    | some u =>
      if k.running = false ∨ u.listed = false ∨ u.quitting then none
      else u.notifications.head?.map fun signal => (i, .delivered signal)
    | none => none
  | .take t =>
    match k.threads[t]? with
    | some ⟨query :: _, _, none⟩ => if k.running then query.user.map fun i => (i, .started query) else none
    | _ => none
  | .attachMore t =>
    (k.threads[t]?.bind (·.request)).bind fun query => query.user.map fun i => (i, .attached ⟨query, true⟩)
  | .finish t =>
    (k.threads[t]?.bind (·.request)).bind fun query =>
      if query.flags = .none then query.user.map fun i => (i, .attached ⟨query, false⟩) else none
  | _ => none

structure Traced where
  kernel : Kernel
  logs : ℕ → Log

def Traced.record (logs : ℕ → Log) : Option (ℕ × Observation) → ℕ → Log
  | some (i, observation) => Function.update logs i ((logs i).record observation)
  | none => logs

def traced : Machine Traced Event where
  initial s := machine.initial s.kernel ∧ (∀ database, s.kernel.closing database = false) ∧ s.logs = fun _ => {}
  next s e := (next s.kernel e).map fun k => ⟨k, Traced.record s.logs (observe s.kernel e)⟩

/-- No reset, no interrupted query, no database that closes. -/
def Calm (_ : Traced) : Event → Prop
  | .resetAll | .interrupt _ | .setClosing _ _ => False
  | _ => True

instance (s : Traced) (e : Event) : Decidable (Calm s e) :=
  match e with
  | .connect | .push .. | .pushGlobal .. | .getGlobalPending _ | .getPending .. | .getResults _ | .take _ | .attachMore _
  | .interrupt _ | .finish _ | .pause | .resetAll | .resume | .disconnect _ | .forceExits | .setClosing .. => by
    unfold Calm; infer_instance

structure Sequenced (s : Traced) : Prop where
  threads : s.kernel.threads ≠ []
  closing : ∀ database, s.kernel.closing database = false
  globalPending : ∀ q ∈ s.kernel.globalPending, q.user = none
  pending : ∀ (i : ℕ) (u : User), s.kernel.users[i]? = some u → ∀ q ∈ u.pending, q.user = some i ∧ q.flags = .none
  posted : ∀ d ∈ s.kernel.threads, ∀ q ∈ d.queue ++ d.request.toList, ∀ i, q.user = some i →
    q.flags = .none ∧ i < s.kernel.users.length
  listed : ∀ u ∈ s.kernel.users, u.listed = !u.quitting
  fresh : ∀ i, s.kernel.users.length ≤ i → s.logs i = {}
  ordered : ∀ (i : ℕ) (u : User), s.kernel.users[i]? = some u → Ordered s.kernel.threads i u (s.logs i)

/-! ## Threads -/

theorem modify_middle {α : Type*} {l : List α} {t : ℕ} {d : α} (h : l[t]? = some d) (f : α → α) :
    ∃ a b : List α, l = a ++ d :: b ∧ l.modify t f = a ++ f d :: b := by
  induction l generalizing t with
  | nil => simp at h
  | cons x l ih =>
    cases t with
    | zero =>
      obtain rfl : x = d := by simpa using h
      exact ⟨[], l, rfl, rfl⟩
    | succ t =>
      obtain ⟨a, b, rfl, same⟩ := ih (t := t) (by simpa using h)
      exact ⟨x :: a, b, rfl, by rw [List.modify_succ_cons, same]; rfl⟩

section
variable {a b : List DataThread} {d : DataThread} {i : ℕ}

theorem postedTo_middle : postedTo (a ++ d :: b) i =
    postedTo a i ++ (d.queue.filter (·.user = some i) ++ postedTo b i) := by
  simp [postedTo]

theorem executingFor_middle : executingFor (a ++ d :: b) i =
    executingFor a i ++ (d.request.toList.filter (·.user = some i) ++ executingFor b i) := by
  simp [executingFor]

/-- What the threads hold of a client does not change when its part of the rewritten thread does not. -/
theorem threads_frame {threads : List DataThread} {t : ℕ} {f : DataThread → DataThread} (hd : threads[t]? = some d)
    (queue : (f d).queue.filter (·.user = some i) = d.queue.filter (·.user = some i))
    (request : (f d).request.toList.filter (·.user = some i) = d.request.toList.filter (·.user = some i)) :
    postedTo (threads.modify t f) i = postedTo threads i ∧ executingFor (threads.modify t f) i = executingFor threads i := by
  obtain ⟨a, b, rfl, same⟩ := modify_middle hd f
  simp only [same, postedTo_middle, executingFor_middle, queue, request, and_self]

end

namespace Sequenced

variable {s : Traced}

/-- A step that rewrites client `i`, its log and the threads, and moves no query of another client. -/
theorem move (h : Sequenced s) {i : ℕ} {f : User → User} {threads : List DataThread} {log : Log} (here : i < s.kernel.users.length)
    (some : threads ≠ [])
    (posted : ∀ d ∈ threads, ∀ q ∈ d.queue ++ d.request.toList, ∀ i, q.user = .some i →
      q.flags = .none ∧ i < s.kernel.users.length)
    (pending : ∀ u : User, s.kernel.users[i]? = .some u → ∀ q ∈ (f u).pending, q.user = .some i ∧ q.flags = .none)
    (listed : ∀ u : User, s.kernel.users[i]? = .some u → (f u).listed = !(f u).quitting)
    (other : ∀ j, i ≠ j → postedTo threads j = postedTo s.kernel.threads j ∧
      executingFor threads j = executingFor s.kernel.threads j)
    (own : ∀ u : User, s.kernel.users[i]? = .some u → Ordered threads i (f u) log) :
    Sequenced ⟨{ s.kernel with users := s.kernel.users.modify i f, threads }, Function.update s.logs i log⟩ where
  threads := some
  closing := h.closing
  globalPending := h.globalPending
  pending j v hv := by
    rcases getElem?_modify_cases hv with ⟨_, hv⟩ | ⟨rfl, u, hu, rfl⟩
    · exact h.pending j v hv
    · exact pending u hu
  posted d hd q hq j hj := by simpa using posted d hd q hq j hj
  listed := forall_mem_modify h.listed listed
  fresh j hj := by
    have far : s.kernel.users.length ≤ j := by simpa using hj
    simpa [Function.update_of_ne (show j ≠ i by omega)] using h.fresh j far
  ordered j v hv := by
    rcases getElem?_modify_cases hv with ⟨different, hv⟩ | ⟨rfl, u, hu, rfl⟩
    · obtain ⟨order, exclusive, results, answered⟩ := h.ordered j v hv
      obtain ⟨samePosted, sameExecuting⟩ := other j different
      have log : Function.update s.logs i log j = s.logs j := Function.update_of_ne different.symm _ _
      constructor
      · simpa only [log, samePosted] using order
      · simpa only [samePosted, sameExecuting] using exclusive
      · simpa only [log] using results
      · simpa only [log, sameExecuting] using answered
    · simpa using own u hu

/-- A step that moves queries between the threads and the kernel, none of them of a client. -/
theorem rethread (h : Sequenced s) {threads : List DataThread} (some : threads ≠ [])
    (posted : ∀ d ∈ threads, ∀ q ∈ d.queue ++ d.request.toList, ∀ i, q.user = .some i →
      q.flags = .none ∧ i < s.kernel.users.length)
    (same : ∀ j, postedTo threads j = postedTo s.kernel.threads j ∧
      executingFor threads j = executingFor s.kernel.threads j) : Sequenced ⟨{ s.kernel with threads }, s.logs⟩ :=
  { h with
    threads := some
    posted := posted
    ordered := fun i u hu => by
      obtain ⟨samePosted, sameExecuting⟩ := same i
      obtain ⟨order, exclusive, results, answered⟩ := h.ordered i u hu
      exact ⟨by rwa [samePosted], by rwa [samePosted, sameExecuting], results, by rwa [sameExecuting]⟩ }

/-- The threads hold nothing of a client that is not there yet. -/
theorem nothing_posted (h : Sequenced s) {i : ℕ} (far : s.kernel.users.length ≤ i) :
    postedTo s.kernel.threads i = [] ∧ executingFor s.kernel.threads i = [] := by
  have none : ∀ d ∈ s.kernel.threads, ∀ q ∈ d.queue ++ d.request.toList, ¬ q.user = some i := fun d hd q hq own =>
    absurd (h.posted d hd q hq i own).2 (by omega)
  constructor
  · simp only [postedTo, List.flatMap_eq_nil_iff, List.filter_eq_nil_iff, decide_eq_true_eq]
    exact fun d hd q hq => none d hd q (List.mem_append_left _ hq)
  · simp only [executingFor, List.flatMap_eq_nil_iff, List.filter_eq_nil_iff, decide_eq_true_eq]
    exact fun d hd q hq => none d hd q (List.mem_append_right _ hq)

theorem connect (h : Sequenced s) : Sequenced ⟨{ s.kernel with users := s.kernel.users ++ [.fresh] }, s.logs⟩ := by
  have cases {i : ℕ} {u : User} (hu : (s.kernel.users ++ [.fresh])[i]? = some u) :
      s.kernel.users[i]? = some u ∨ i = s.kernel.users.length ∧ u = .fresh := by
    rw [List.getElem?_append] at hu
    split at hu
    · exact .inl hu
    · rename_i far
      obtain ⟨small, rfl⟩ : i - s.kernel.users.length = 0 ∧ User.fresh = u := by
        simpa [List.getElem?_singleton] using hu
      exact .inr ⟨by omega, rfl⟩
  refine { h with pending := ?_, posted := ?_, listed := ?_, fresh := ?_, ordered := ?_ }
  · intro i u hu
    rcases cases hu with hu | ⟨-, rfl⟩
    · exact h.pending i u hu
    · simp [User.fresh]
  · intro d hd q hq i own
    obtain ⟨flags, low⟩ := h.posted d hd q hq i own
    exact ⟨flags, by simp only [List.length_append]; omega⟩
  · exact List.forall_mem_append.mpr ⟨h.listed, by simp [User.fresh]⟩
  · intro i far
    exact h.fresh i (by simp only [List.length_append] at far; omega)
  · intro i u hu
    rcases cases hu with hu | ⟨rfl, rfl⟩
    · exact h.ordered i u hu
    · obtain ⟨posted, executing⟩ := h.nothing_posted (Nat.le_refl _)
      have log : s.logs s.kernel.users.length = {} := h.fresh _ (Nat.le_refl _)
      refine ⟨?_, ?_, ?_, ?_⟩
      · simp [log, posted, User.fresh]
      · simp [posted, executing, User.fresh, User.finals]
      · simp [log, User.fresh]
      · rw [executing, log]
        exact ⟨[], rfl, rfl⟩

theorem push (h : Sequenced s) (i database : ℕ) (scan invalidFormat : Bool) :
    Sequenced ⟨s.kernel.push i ⟨some i, database, .none, scan, invalidFormat⟩,
      Traced.record s.logs (observe s.kernel (.push i database scan invalidFormat))⟩ := by
  cases hu : s.kernel.users[i]? with
  | none =>
    have far : s.kernel.users.length ≤ i := List.getElem?_eq_none_iff.mp hu
    simpa [Kernel.push, Kernel.modifyUser, observe, hu, Traced.record, List.modify_eq_self far] using h
  | some u =>
    have here : i < s.kernel.users.length := (List.getElem?_eq_some_iff.mp hu).1
    have is {v : User} (hv : s.kernel.users[i]? = some v) : u = v := Option.some.inj (hu.symm.trans hv)
    obtain ⟨order, exclusive, results, answered⟩ := h.ordered i u hu
    cases quit : u.quitting with
    | true =>
      have same : Traced.record s.logs (observe s.kernel (.push i database scan invalidFormat)) =
          Function.update s.logs i (s.logs i) := by
        simp [observe, hu, quit, Traced.record]
      rw [same]
      refine h.move here h.threads h.posted ?_ ?_ (fun _ _ => ⟨rfl, rfl⟩) ?_
      · rintro v hv
        obtain rfl := is hv
        simpa [quit] using h.pending i u hu
      · rintro v hv
        obtain rfl := is hv
        simpa [quit] using h.listed u (List.mem_of_getElem? hu)
      · rintro v hv
        obtain rfl := is hv
        simpa [quit] using ⟨order, exclusive, results, answered⟩
    | false =>
      have same : Traced.record s.logs (observe s.kernel (.push i database scan invalidFormat)) =
          Function.update s.logs i ((s.logs i).record (.pushed ⟨some i, database, .none, scan, invalidFormat⟩)) := by
        simp [observe, hu, quit, Traced.record]
      rw [same]
      refine h.move here h.threads h.posted ?_ ?_ (fun _ _ => ⟨rfl, rfl⟩) ?_
      · rintro v hv
        obtain rfl := is hv
        simpa [quit, or_imp, forall_and] using h.pending i u hu
      · rintro v hv
        obtain rfl := is hv
        simpa [quit] using h.listed u (List.mem_of_getElem? hu)
      · rintro v hv
        obtain rfl := is hv
        simp only [quit, Bool.false_eq_true, if_false]
        exact ⟨by simp [Log.record, order], exclusive, results, answered⟩

/-- A thread that gets a query which is no client's. -/
theorem enqueue_frame {threads : List DataThread} {t j : ℕ} {query : Query} (low : t < threads.length)
    (other : query.user ≠ some j) :
    postedTo (threads.modify t fun d => { d with queue := d.queue ++ [query] }) j = postedTo threads j ∧
      executingFor (threads.modify t fun d => { d with queue := d.queue ++ [query] }) j = executingFor threads j :=
  threads_frame (List.getElem?_eq_getElem low) (by simp [other]) rfl

theorem getGlobalPending (h : Sequenced s) (random : ℕ) : Sequenced ⟨s.kernel.getGlobalPending random, s.logs⟩ := by
  unfold Kernel.getGlobalPending
  split_ifs
  · cases pending : s.kernel.globalPending with
    | nil => exact h
    | cons query rest =>
      have globals := h.globalPending
      rw [pending, List.forall_mem_cons] at globals
      have h' : Sequenced ⟨{ s.kernel with globalPending := rest }, s.logs⟩ := { h with globalPending := globals.2 }
      have low := Kernel.toUse_lt h.threads random
      have posted : Kernel.post { s.kernel with globalPending := rest } (s.kernel.toUse random) query =
          { s.kernel with
            globalPending := rest
            threads := s.kernel.threads.modify (s.kernel.toUse random) fun d =>
              { d with queue := d.queue ++ [query] } } := by simp [Kernel.post, h.closing]
      change Sequenced ⟨Kernel.post { s.kernel with globalPending := rest } (s.kernel.toUse random) query, s.logs⟩
      rw [posted]
      refine h'.rethread (Invariant.modify_ne_nil h.threads) ?_ fun j => enqueue_frame low (by simp [globals.1])
      refine forall_mem_modify h.posted fun d hd q hq i own => ?_
      simp only [List.mem_append, List.mem_singleton] at hq
      rcases hq with (hq | rfl) | hq
      · exact h.posted d (List.mem_of_getElem? hd) q (by simp [hq]) i own
      · simp [globals.1] at own
      · exact h.posted d (List.mem_of_getElem? hd) q (by simp [hq]) i own
  · exact h

/-- Only a client with nothing in flight is locked, and its first query posted. -/
theorem getPending (h : Sequenced s) (i random : ℕ) : Sequenced ⟨s.kernel.getPending i random, s.logs⟩ := by
  unfold Kernel.getPending
  cases hu : s.kernel.users[i]? with
  | none => exact h
  | some u =>
    have here : i < s.kernel.users.length := (List.getElem?_eq_some_iff.mp hu).1
    dsimp only
    split_ifs with skip idle
    · exact h
    · exact h
    obtain ⟨-, listed⟩ : s.kernel.running = true ∧ u.listed = true := by simpa using skip
    have quit : u.quitting = false := by simpa [listed] using (h.listed u (List.mem_of_getElem? hu)).symm
    obtain ⟨some, unlocked⟩ : u.pending ≠ [] ∧ u.locked = false := by simpa [quit] using idle
    obtain ⟨query, rest, pending⟩ := List.exists_cons_of_ne_nil some
    have own := h.pending i u hu
    rw [pending, List.forall_mem_cons] at own
    obtain ⟨⟨user, flags⟩, later⟩ := own
    obtain ⟨order, exclusive, results, answered⟩ := h.ordered i u hu
    have nothing : (postedTo s.kernel.threads i).length + (executingFor s.kernel.threads i).length + u.finals = 0 := by
      simpa [unlocked] using exclusive
    have low := Kernel.toUse_lt h.threads random
    have posted : ((s.kernel.setLock (.some i) true).modifyUser (.some i) fun u => { u with pending := rest }).post
        (s.kernel.toUse random) query =
        { s.kernel with
          users := s.kernel.users.modify i fun u => { u with pending := rest, locked := true }
          threads := s.kernel.threads.modify (s.kernel.toUse random) fun d =>
            { d with queue := d.queue ++ [query] } } := by
      simp [Kernel.post, Kernel.setLock, Kernel.modifyUser, h.closing, List.modify_modify_eq, Function.comp_def]
    rw [pending]
    dsimp only
    rw [posted, ← Function.update_eq_self i s.logs]
    refine h.move here (Invariant.modify_ne_nil h.threads) ?_ ?_ ?_ ?_ ?_
    · refine forall_mem_modify h.posted fun d hd q hq j mine => ?_
      simp only [List.mem_append, List.mem_singleton] at hq
      rcases hq with (hq | rfl) | hq
      · exact h.posted d (List.mem_of_getElem? hd) q (by simp [hq]) j mine
      · obtain rfl : i = j := by simpa [user] using mine
        exact ⟨flags, here⟩
      · exact h.posted d (List.mem_of_getElem? hd) q (by simp [hq]) j mine
    · exact fun _ _ => later
    · exact fun v hv => h.listed v (List.mem_of_getElem? hv)
    · exact fun j different => enqueue_frame low (by simp [user, different])
    · intro v hv
      obtain rfl : u = v := Option.some.inj (hu.symm.trans hv)
      obtain ⟨a, b, split, modified⟩ := modify_middle (List.getElem?_eq_getElem low) fun d : DataThread =>
        { d with queue := d.queue ++ [query] }
      rw [modified]
      rw [split] at order nothing answered
      simp only [postedTo_middle, executingFor_middle, List.length_append, Nat.add_eq_zero_iff,
        List.length_eq_zero_iff] at nothing order answered
      obtain ⟨⟨⟨ha, hd, hb⟩, ha', hd', hb'⟩, finals⟩ := nothing
      refine ⟨?_, ?_, results, ?_⟩
      · simp [postedTo_middle, ha, hb, hd, user, order, pending]
      · simp only [User.finals] at finals ⊢
        simp [postedTo_middle, executingFor_middle, ha, hd, hb, ha', hd', hb', user, finals]
      · simpa [executingFor_middle, ha', hd', hb'] using answered

/-- A step that rewrites client `i` but for its pending queries. -/
theorem modifyUser (h : Sequenced s) {i : ℕ} {u : User} (hu : s.kernel.users[i]? = some u) {f : User → User} {log : Log}
    (pending : (f u).pending = u.pending) (listed : u.listed = !u.quitting → (f u).listed = !(f u).quitting)
    (own : Ordered s.kernel.threads i u (s.logs i) → Ordered s.kernel.threads i (f u) log) :
    Sequenced ⟨s.kernel.modifyUser (some i) f, Function.update s.logs i log⟩ := by
  have is {v : User} (hv : s.kernel.users[i]? = some v) : u = v := Option.some.inj (hu.symm.trans hv)
  refine h.move (List.getElem?_eq_some_iff.mp hu).1 h.threads h.posted ?_ ?_ (fun _ _ => ⟨rfl, rfl⟩) ?_
  · intro v hv
    obtain rfl := is hv
    rw [pending]
    exact h.pending i u hu
  · intro v hv
    obtain rfl := is hv
    exact listed (h.listed u (List.mem_of_getElem? hu))
  · intro v hv
    obtain rfl := is hv
    exact own (h.ordered i u hu)

/-- The first result goes to the client; a final one unlocks it. -/
theorem getResults (h : Sequenced s) (i : ℕ) :
    Sequenced ⟨s.kernel.getResults i, Traced.record s.logs (observe s.kernel (.getResults i))⟩ := by
  simp only [Kernel.getResults, observe]
  cases hu : s.kernel.users[i]? with
  | none => exact h
  | some u =>
    simp only
    split_ifs with skip
    · exact h
    cases waiting : u.notifications with
    | nil => exact h
    | cons signal rest =>
      simp only [List.head?_cons, Option.map_some, Traced.record]
      cases more : signal.more with
      | true =>
        simp only [if_true]
        refine h.modifyUser (f := fun u => { u with notifications := rest }) hu rfl id ?_
        intro ⟨order, exclusive, results, answered⟩
        rw [waiting] at results
        refine ⟨order, ?_, by simp [Log.record, results], answered⟩
        simpa [User.finals, waiting, more] using exclusive
      | false =>
        have unlocked : (s.kernel.modifyUser (some i) fun u => { u with notifications := rest }).setLock (some i) false =
            s.kernel.modifyUser (some i) fun u => { u with notifications := rest, locked := false } := by
          simp [Kernel.setLock, Kernel.modifyUser, List.modify_modify_eq, Function.comp_def]
        simp only [Bool.false_eq_true, if_false, unlocked]
        refine h.modifyUser (f := fun u => { u with notifications := rest, locked := false }) hu rfl id ?_
        intro ⟨order, exclusive, results, answered⟩
        rw [waiting] at results
        refine ⟨order, ?_, by simp [Log.record, results], answered⟩
        simp only [User.finals, waiting, List.countP_cons, more, Bool.not_false, if_true] at exclusive
        simp only [User.finals, Bool.false_eq_true, if_false]
        split_ifs at exclusive
        omega

/-- What `take` does: the first query of an idle thread starts. -/
theorem take_cases (k : Kernel) (t : ℕ) :
    (∃ query rest busy, k.threads[t]? = some ⟨query :: rest, busy, none⟩ ∧ k.running = true ∧
      k.take t = k.modifyThread t (fun _ => ⟨rest, true, some query⟩) ∧
      observe k (.take t) = query.user.map fun i => (i, .started query)) ∨
    ((k.take t = k ∨ ∃ d, k.threads[t]? = some d ∧ k.take t = k.modifyThread t fun d => { d with busy := false }) ∧
      observe k (.take t) = none) := by
  simp only [Kernel.take, observe]
  cases hd : k.threads[t]? with
  | none => exact .inr ⟨.inl rfl, rfl⟩
  | some d =>
    obtain ⟨queue, busy, request⟩ := d
    cases request with
    | some executing => exact .inr ⟨.inl (by cases queue <;> rfl), by cases queue <;> rfl⟩
    | none =>
      cases queue with
      | nil => exact .inr ⟨.inl rfl, rfl⟩
      | cons query rest =>
        cases running : k.running with
        | true => exact .inl ⟨query, rest, busy, rfl, rfl, by simp, by simp⟩
        | false => exact .inr ⟨.inr ⟨_, rfl, by simp⟩, by simp⟩

theorem take (h : Sequenced s) (t : ℕ) :
    Sequenced ⟨s.kernel.take t, Traced.record s.logs (observe s.kernel (.take t))⟩ := by
  obtain ⟨query, rest, busy, hd, -, step, observed⟩ | ⟨idle, observed⟩ := take_cases s.kernel t
  · rw [step, observed]
    have posted := h.posted _ (List.mem_of_getElem? hd)
    have posted' : ∀ d ∈ s.kernel.threads.modify t fun _ => ⟨rest, true, some query⟩,
        ∀ q ∈ d.queue ++ d.request.toList, ∀ i, q.user = some i → q.flags = .none ∧ i < s.kernel.users.length := by
      refine forall_mem_modify h.posted fun _ _ q hq => ?_
      simp only [List.mem_append, Option.toList_some, List.mem_singleton] at hq
      rcases hq with hq | rfl
      · exact posted q (by simp [hq])
      · exact posted q (by simp)
    have frame (j : ℕ) (other : query.user ≠ some j) := threads_frame (i := j)
      (f := fun _ => (⟨rest, true, some query⟩ : DataThread)) hd (by simp [other]) (by simp [other])
    cases user : query.user with
    | none =>
      simp only [Option.map_none, Traced.record]
      exact h.rethread (Invariant.modify_ne_nil h.threads) posted' fun j => frame j (by simp [user])
    | some i =>
      have here := (posted query (by simp) i user).2
      have same : s.kernel.users.modify i (fun u => u) = s.kernel.users := List.modify_id _ _
      have step : Sequenced ⟨{ s.kernel with
          users := s.kernel.users.modify i fun u => u
          threads := s.kernel.threads.modify t fun _ => ⟨rest, true, some query⟩ },
          Function.update s.logs i ((s.logs i).record (.started query))⟩ := h.move here
        (Invariant.modify_ne_nil h.threads) posted' (fun u hu => h.pending i u hu)
        (fun u hu => h.listed u (List.mem_of_getElem? hu))
        (fun j different => frame j (by simpa [user] using different)) fun u hu => ?_
      · rwa [same] at step
      obtain ⟨order, exclusive, results, answered⟩ := h.ordered i u hu
      obtain ⟨a, b, split, modified⟩ := modify_middle hd fun _ : DataThread => ⟨rest, true, some query⟩
      rw [modified]
      rw [split] at order exclusive answered
      simp only [postedTo_middle, executingFor_middle, user, List.filter_cons, decide_true, if_true,
        List.length_append, List.length_cons, Option.toList_none, List.filter_nil, List.nil_append] at order exclusive answered
      have bound : (if u.locked then 1 else 0) ≤ 1 := by split_ifs <;> omega
      have zero : (postedTo a i).length = 0 ∧ (rest.filter (·.user = some i)).length = 0 ∧ (postedTo b i).length = 0 ∧
          (executingFor a i).length = 0 ∧ (executingFor b i).length = 0 := by omega
      simp only [List.length_eq_zero_iff] at zero
      obtain ⟨ha, hr, hb, ha', hb'⟩ := zero
      refine ⟨?_, ?_, results, ?_⟩
      · simp [postedTo_middle, Log.record, ha, hr, hb, order]
      · simp only [ha, hr, hb, ha', hb', List.length_nil] at exclusive
        simp [postedTo_middle, executingFor_middle, ha, hr, hb, ha', hb', user, ← exclusive]
      · simp only [ha', hb', List.append_nil, List.head?_nil] at answered
        simpa [executingFor_middle, ha', hb', user, Log.record] using AllAnswered.start answered query
  · rw [observed]
    rcases idle with same | ⟨d, hd, same⟩
    · rw [same]
      exact h
    · rw [same]
      refine h.rethread (Invariant.modify_ne_nil h.threads) (forall_mem_modify h.posted fun d' hd' => ?_) fun j =>
        threads_frame (f := fun d => { d with busy := false }) hd rfl rfl
      exact h.posted d' (List.mem_of_getElem? hd')

/-- The threads hold one query of a client that executes. -/
theorem executing_alone (h : Sequenced s) {t i : ℕ} {d : DataThread} {query : Query} {u : User}
    (hu : s.kernel.users[i]? = some u) (hd : s.kernel.threads[t]? = some d) (request : d.request = some query)
    (user : query.user = some i) : postedTo s.kernel.threads i = [] ∧ executingFor s.kernel.threads i = [query] ∧
      u.finals = 0 ∧ u.locked = true := by
  have exclusive := (h.ordered i u hu).exclusive
  obtain ⟨a, b, split, -⟩ := modify_middle hd id
  have executing : executingFor s.kernel.threads i = executingFor a i ++ query :: executingFor b i := by
    simp [split, executingFor_middle, request, user]
  rw [executing] at exclusive ⊢
  simp only [List.length_append, List.length_cons] at exclusive
  split_ifs at exclusive with locked
  · have zero : (postedTo s.kernel.threads i).length = 0 ∧ (executingFor a i).length = 0 ∧
        (executingFor b i).length = 0 ∧ u.finals = 0 := by omega
    simp only [List.length_eq_zero_iff] at zero
    obtain ⟨posted, ha, hb, finals⟩ := zero
    exact ⟨posted, by rw [ha, hb]; rfl, finals, locked⟩
  · omega

theorem attachMore (h : Sequenced s) {t : ℕ} {query : Query}
    (executing : s.kernel.threads[t]?.bind (·.request) = some query) :
    Sequenced ⟨s.kernel.attachResult ⟨query, true⟩, Traced.record s.logs (observe s.kernel (.attachMore t))⟩ := by
  obtain ⟨d, hd, request⟩ := Invariant.request_of_bind executing
  simp only [observe, executing, Option.bind_some, Kernel.attachResult]
  cases user : query.user with
  | none => exact { h with }
  | some i =>
    have here := (h.posted d (List.mem_of_getElem? hd) query (by simp [request]) i user).2
    obtain ⟨u, hu⟩ : ∃ u, s.kernel.users[i]? = some u := ⟨_, List.getElem?_eq_getElem here⟩
    obtain ⟨posted, alone, -, -⟩ := h.executing_alone hu hd request user
    refine h.modifyUser (f := fun u => { u with notifications := u.notifications ++ [⟨query, true⟩] }) hu rfl id ?_
    rintro ⟨order, exclusive, results, answered⟩
    refine ⟨order, by simpa [User.finals] using exclusive, by simp [Log.record, results], ?_⟩
    rw [alone] at answered ⊢
    exact Answered.more answered

/-- The final result takes the place of the query among what is in flight. -/
theorem finish (h : Sequenced s) {t : ℕ} {query : Query} (executing : s.kernel.threads[t]?.bind (·.request) = some query) :
    Sequenced ⟨(s.kernel.release t).answer query false, Traced.record s.logs (observe s.kernel (.finish t))⟩ := by
  obtain ⟨d, hd, request⟩ := Invariant.request_of_bind executing
  have posted := h.posted d (List.mem_of_getElem? hd)
  have posted' := forall_mem_modify h.posted (i := t) (f := fun d => { d with busy := false, request := none })
    fun d' hd' q hq => h.posted d' (List.mem_of_getElem? hd') q (by simp at hq; simp [hq])
  have frame (j : ℕ) (other : query.user ≠ some j) := threads_frame (i := j)
    (f := fun d : DataThread => { d with busy := false, request := none }) hd rfl (by simp [request, other])
  simp only [observe, executing, Option.bind_some]
  cases user : query.user with
  | none =>
    have released : Sequenced ⟨s.kernel.release t, s.logs⟩ :=
      h.rethread (Invariant.modify_ne_nil h.threads) posted' fun j => frame j (by simp [user])
    have same : Traced.record s.logs (if query.flags = .none then
        (none : Option ℕ).map fun i => (i, Observation.attached ⟨query, false⟩) else none) = s.logs := by
      split_ifs <;> rfl
    rw [same]
    unfold Kernel.answer
    split
    · exact released
    · simpa [Kernel.attachGlobal, Kernel.setLock, Kernel.modifyUser, user] using released
    · simpa [Kernel.attachResult, user] using { released with }
  | some i =>
    obtain ⟨flags, here⟩ := posted query (by simp [request]) i user
    obtain ⟨u, hu⟩ : ∃ u, s.kernel.users[i]? = some u := ⟨_, List.getElem?_eq_getElem here⟩
    obtain ⟨none, alone, finals, locked⟩ := h.executing_alone hu hd request user
    have answer : (s.kernel.release t).answer query false =
        { s.kernel with
          users := s.kernel.users.modify i fun u => { u with notifications := u.notifications ++ [⟨query, false⟩] }
          threads := s.kernel.threads.modify t fun d => { d with busy := false, request := Option.none } } := by
      simp [Kernel.answer, flags, Kernel.attachResult, user, Kernel.release, Kernel.modifyThread]
    rw [answer, if_pos flags]
    refine h.move here (Invariant.modify_ne_nil h.threads) posted' (fun v hv => h.pending i v hv)
      (fun v hv => h.listed v (List.mem_of_getElem? hv)) (fun j different => frame j (by simpa [user] using different)) ?_
    intro v hv
    obtain rfl : u = v := Option.some.inj (hu.symm.trans hv)
    obtain ⟨order, exclusive, results, answered⟩ := h.ordered i u hu
    have posted : postedTo (s.kernel.threads.modify t fun d => { d with busy := false, request := Option.none }) i = [] ∧
        executingFor (s.kernel.threads.modify t fun d => { d with busy := false, request := Option.none }) i = [] := by
      obtain ⟨a, b, split, modified⟩ := modify_middle hd fun d => { d with busy := false, request := Option.none }
      rw [split] at none alone
      simp only [postedTo_middle, executingFor_middle, List.append_eq_nil_iff, request, Option.toList_some, user,
        List.filter_cons, decide_true, if_true, List.filter_nil, List.cons_append, List.nil_append] at none alone
      have lengths := congrArg List.length alone
      simp only [List.length_append, List.length_cons, List.length_nil] at lengths
      have ha : executingFor a i = [] := List.length_eq_zero_iff.mp (by omega)
      have hb : executingFor b i = [] := List.length_eq_zero_iff.mp (by omega)
      simp [modified, postedTo_middle, executingFor_middle, none, ha, hb]
    rw [none] at order
    rw [alone] at answered
    refine ⟨?_, ?_, by simp [Log.record, results], ?_⟩
    · simpa [posted.1, Log.record] using order
    · simp only [User.finals] at finals
      simp [posted, User.finals, finals, locked]
    · rw [posted.2]
      exact Answered.final answered

theorem disconnect (h : Sequenced s) (i : ℕ) : Sequenced ⟨s.kernel.disconnect i, s.logs⟩ := by
  unfold Kernel.disconnect
  cases hu : s.kernel.users[i]? with
  | none =>
    have far : s.kernel.users.length ≤ i := List.getElem?_eq_none_iff.mp hu
    simpa [Kernel.modifyUser, List.modify_eq_self far] using h
  | some u =>
    rw [← Function.update_eq_self i s.logs]
    refine h.modifyUser hu ?_ ?_ ?_
    · split_ifs <;> rfl
    · split_ifs with quit
      · exact id
      · exact fun _ => rfl
      · exact fun _ => rfl
    · rintro ⟨order, exclusive, results, answered⟩
      split_ifs <;> exact ⟨order, exclusive, results, answered⟩

theorem forceExits (h : Sequenced s) : Sequenced ⟨s.kernel.forceExits, s.logs⟩ := by
  have cases {i : ℕ} {v : User} (hv : s.kernel.forceExits.users[i]? = some v) : ∃ u, s.kernel.users[i]? = some u ∧
      v.pending = u.pending ∧ v.notifications = u.notifications ∧ v.locked = u.locked ∧
      v.listed = u.listed ∧ v.quitting = u.quitting := by
    obtain ⟨u, hu, rfl⟩ := Option.map_eq_some_iff.mp (by simpa [Kernel.forceExits] using hv)
    refine ⟨u, hu, ?_⟩
    split_ifs <;> exact ⟨rfl, rfl, rfl, rfl, rfl⟩
  have length : s.kernel.forceExits.users.length = s.kernel.users.length := by simp [Kernel.forceExits]
  refine ⟨h.threads, h.closing, h.globalPending, ?_, ?_, ?_, ?_, ?_⟩
  · intro i v hv
    obtain ⟨u, hu, pending, -⟩ := cases hv
    rw [pending]
    exact h.pending i u hu
  · intro d hd q hq i own
    rw [length]
    exact h.posted d hd q hq i own
  · intro v hv
    obtain ⟨i, hi⟩ := List.mem_iff_getElem?.mp hv
    obtain ⟨u, hu, -, -, -, listed, quitting⟩ := cases hi
    rw [listed, quitting]
    exact h.listed u (List.mem_of_getElem? hu)
  · intro i far
    exact h.fresh i (by rwa [length] at far)
  · intro i v hv
    obtain ⟨u, hu, pending, notifications, locked, -, -⟩ := cases hv
    obtain ⟨order, exclusive, results, answered⟩ := h.ordered i u hu
    have threads : s.kernel.forceExits.threads = s.kernel.threads := rfl
    exact ⟨by rwa [pending], by simpa only [User.finals, notifications, locked, threads] using exclusive,
      by rwa [notifications], answered⟩

theorem step {s' : Traced} (h : Sequenced s) {e : Event} (calm : Calm s e) (hs : traced.next s e = some s') :
    Sequenced s' := by
  simp only [traced, Option.map_eq_some_iff] at hs
  obtain ⟨k, hk, rfl⟩ := hs
  cases e with
  | connect => obtain rfl := Option.some.inj hk; exact h.connect
  | push i database scan invalidFormat => obtain rfl := Option.some.inj hk; exact h.push i database scan invalidFormat
  | pushGlobal database flags scan invalidFormat =>
    obtain rfl := Option.some.inj hk
    exact { h with globalPending := List.forall_mem_append.mpr ⟨h.globalPending, by simp⟩ }
  | getGlobalPending random => obtain rfl := Option.some.inj hk; exact h.getGlobalPending random
  | getPending i random =>
    simp only [next] at hk
    split_ifs at hk
    obtain rfl := Option.some.inj hk
    exact h.getPending i random
  | getResults i => obtain rfl := Option.some.inj hk; exact h.getResults i
  | take t => obtain rfl := Option.some.inj hk; exact h.take t
  | attachMore t =>
    simp only [next] at hk
    split at hk
    · rename_i query executing
      split_ifs at hk
      obtain rfl := Option.some.inj hk
      exact h.attachMore executing
    · simp at hk
  | finish t =>
    simp only [next] at hk
    split at hk
    · rename_i query executing
      obtain rfl := Option.some.inj hk
      exact h.finish executing
    · simp at hk
  | pause => obtain rfl := Option.some.inj hk; exact { h with }
  | resume => obtain rfl := Option.some.inj hk; exact { h with }
  | disconnect i => obtain rfl := Option.some.inj hk; exact h.disconnect i
  | forceExits => obtain rfl := Option.some.inj hk; exact h.forceExits
  | interrupt _ | resetAll | setClosing _ _ => exact calm.elim

end Sequenced

theorem sequenced {s : Traced} (h : traced.Reach Calm s) : Sequenced s := by
  refine h.invariant ?_ fun s e s' hs calm step => hs.step calm step
  rintro s ⟨⟨users, pending, some, idle⟩, closing, logs⟩
  refine ⟨some, closing, by simp [pending], by simp [users], fun d hd => ?_, by simp [users], by simp [logs], by simp [users]⟩
  simp [idle d hd]

/-! ## Nothing waits for ever -/

/-- Some run without disturbances leads from `s` to `t`. -/
def Leads (s t : Traced) : Prop := ∃ events, traced.exec Calm s events = some t

theorem Leads.refl (s : Traced) : Leads s s := ⟨[], rfl⟩

theorem Leads.cons {s r t : Traced} {e : Event} (calm : Calm s e) (step : traced.next s e = some r) (h : Leads r t) :
    Leads s t := by
  obtain ⟨events, run⟩ := h
  exact ⟨e :: events, by simp [Machine.exec, calm, step, run]⟩

theorem Leads.trans {s r t : Traced} (h : Leads s r) (h' : Leads r t) : Leads s t := by
  obtain ⟨events, run⟩ := h
  induction events generalizing s with
  | nil =>
    obtain rfl : s = r := by simpa [Machine.exec] using run
    exact h'
  | cons e events ih =>
    by_cases calm : Calm s e
    · simp only [Machine.exec, if_pos calm, Option.bind_eq_some_iff] at run
      obtain ⟨q, step, run⟩ := run
      exact .cons calm step (ih run)
    · simp [Machine.exec, calm] at run

/-- What the steps of the threads leave alone. -/
structure Kept (i : ℕ) (s t : Traced) : Prop where
  running : t.kernel.running = s.kernel.running
  pushed : (t.logs i).pushed = (s.logs i).pushed
  user : ∀ u, s.kernel.users[i]? = some u → ∃ v, t.kernel.users[i]? = some v ∧
    v.listed = u.listed ∧ v.quitting = u.quitting ∧ v.pending = u.pending

theorem Kept.refl (i : ℕ) (s : Traced) : Kept i s s := ⟨rfl, rfl, fun u hu => ⟨u, hu, rfl, rfl, rfl⟩⟩

theorem Kept.trans {i : ℕ} {s r t : Traced} (h : Kept i s r) (h' : Kept i r t) : Kept i s t where
  running := h'.running.trans h.running
  pushed := h'.pushed.trans h.pushed
  user u hu := by
    obtain ⟨v, hv, listed, quitting, pending⟩ := h.user u hu
    obtain ⟨w, hw, listed', quitting', pending'⟩ := h'.user v hv
    exact ⟨w, hw, listed'.trans listed, quitting'.trans quitting, pending'.trans pending⟩

theorem pushed_record {logs : ℕ → Log} {o : Option (ℕ × Observation)} (other : ∀ j query, o ≠ some (j, .pushed query))
    (i : ℕ) : (Traced.record logs o i).pushed = (logs i).pushed := by
  cases o with
  | none => rfl
  | some o =>
    obtain ⟨j, observation⟩ := o
    by_cases same : i = j
    · subst same
      cases observation with
      | pushed query => exact absurd rfl (other i query)
      | _ => simp [Traced.record, Log.record]
    · simp [Traced.record, Function.update_of_ne same]

/-- What the threads still have to do. -/
def work (threads : List DataThread) : ℕ := (threads.map fun d => 2 * d.queue.length + d.request.toList.length).sum

/-- The answer to a query rewrites the notifications or the lock of one client. -/
theorem answer_cases (k : Kernel) (t : ℕ) (query : Query) : ∃ (j : ℕ) (f : User → User) (signals : List Signal),
    (∀ u, (f u).listed = u.listed ∧ (f u).quitting = u.quitting ∧ (f u).pending = u.pending) ∧
    (k.release t).answer query false = { k with
      users := k.users.modify j f
      globalNotifications := signals
      threads := k.threads.modify t fun d => { d with busy := false, request := none } } := by
  have same : k.users.modify 0 id = k.users := List.modify_id _ _
  unfold Kernel.answer
  split
  · refine ⟨0, id, k.globalNotifications, fun u => ⟨rfl, rfl, rfl⟩, ?_⟩
    rw [same]
    rfl
  · cases user : query.user with
    | none =>
      refine ⟨0, id, k.globalNotifications, fun u => ⟨rfl, rfl, rfl⟩, ?_⟩
      rw [same]
      simp [Kernel.attachGlobal, Kernel.setLock, Kernel.modifyUser, user, Kernel.release, Kernel.modifyThread]
    | some j =>
      refine ⟨j, fun u => { u with locked := false }, k.globalNotifications, fun u => ⟨rfl, rfl, rfl⟩, ?_⟩
      simp [Kernel.attachGlobal, Kernel.setLock, Kernel.modifyUser, user, Kernel.release, Kernel.modifyThread]
  · cases user : query.user with
    | none =>
      refine ⟨0, id, k.globalNotifications ++ [⟨query, false⟩], fun u => ⟨rfl, rfl, rfl⟩, ?_⟩
      rw [same]
      simp [Kernel.attachResult, user, Kernel.release, Kernel.modifyThread]
    | some j =>
      refine ⟨j, fun u => { u with notifications := u.notifications ++ [⟨query, false⟩] }, k.globalNotifications,
        fun u => ⟨rfl, rfl, rfl⟩, ?_⟩
      simp [Kernel.attachResult, user, Kernel.release, Kernel.modifyThread]

theorem finish_kept {s : Traced} {t : ℕ} {query : Query} (i : ℕ)
    (executing : s.kernel.threads[t]?.bind (·.request) = some query) :
    Kept i s ⟨(s.kernel.release t).answer query false, Traced.record s.logs (observe s.kernel (.finish t))⟩ := by
  obtain ⟨j, f, signals, kept, answer⟩ := answer_cases s.kernel t query
  rw [answer]
  refine ⟨rfl, pushed_record (fun j q => ?_) i, fun u hu => ?_⟩
  · simp only [observe, executing, Option.bind_some]
    split_ifs <;> simp
  · dsimp only
    rw [List.getElem?_modify, hu]
    by_cases same : j = i
    · exact ⟨f u, by simp [same], kept u⟩
    · exact ⟨u, by simp [same], rfl, rfl, rfl⟩

theorem work_finish {s : Traced} {t : ℕ} {query : Query} (executing : s.kernel.threads[t]?.bind (·.request) = some query) :
    work ((s.kernel.release t).answer query false).threads < work s.kernel.threads := by
  obtain ⟨d, hd, request⟩ := Invariant.request_of_bind executing
  obtain ⟨j, f, signals, -, answer⟩ := answer_cases s.kernel t query
  have less := sum_map_modify (fun d => 2 * d.queue.length + d.request.toList.length)
    (fun d => { d with busy := false, request := none }) hd
  rw [answer]
  simp only [request, Option.toList_some, Option.toList_none, List.length_singleton, List.length_nil] at less
  simp only [work]
  omega

/-- The threads can do all they have. -/
theorem Sequenced.idle {s : Traced} (h : Sequenced s) (running : s.kernel.running = true) (i : ℕ) :
    ∃ t, Leads s t ∧ Sequenced t ∧ Kept i s t ∧ t.kernel.globalPending = s.kernel.globalPending ∧
      work t.kernel.threads = 0 := by
  induction less : work s.kernel.threads using Nat.strongRecOn generalizing s with
  | ind n ih =>
    by_cases zero : n = 0
    · exact ⟨s, .refl s, h, .refl i s, rfl, less.trans zero⟩
    · obtain ⟨d, hd, busy⟩ : ∃ d ∈ s.kernel.threads, 2 * d.queue.length + d.request.toList.length ≠ 0 := by
        by_contra all
        push Not at all
        refine zero (less.symm.trans (List.sum_eq_zero fun n hn => ?_))
        obtain ⟨d, hd, rfl⟩ := List.mem_map.mp hn
        exact all d hd
      obtain ⟨t, ht⟩ := List.mem_iff_getElem?.mp hd
      have advance {r : Traced} (e : Event) (calm : Calm s e) (step : traced.next s e = some r) (kept : Kept i s r)
          (globals : r.kernel.globalPending = s.kernel.globalPending)
          (smaller : work r.kernel.threads < work s.kernel.threads) : ∃ t, Leads s t ∧ Sequenced t ∧ Kept i s t ∧
            t.kernel.globalPending = s.kernel.globalPending ∧ work t.kernel.threads = 0 := by
        obtain ⟨t, leads, sequenced, kept', globals', done⟩ := ih _ (less ▸ smaller) (h.step calm step)
          (kept.running.trans running) rfl
        exact ⟨t, .cons calm step leads, sequenced, kept.trans kept', globals'.trans globals, done⟩
      cases request : d.request with
      | some query =>
        have executing : s.kernel.threads[t]?.bind (·.request) = some query := by simp [ht, request]
        obtain ⟨j, f, signals, -, answer⟩ := answer_cases s.kernel t query
        exact advance (.finish t) trivial (by simp [traced, next, executing]) (finish_kept i executing)
          (by rw [answer]) (work_finish executing)
      | none =>
        obtain ⟨query, rest, queue⟩ : ∃ query rest, d.queue = query :: rest :=
          List.exists_cons_of_ne_nil fun empty => busy (by simp [empty, request])
        have ht : s.kernel.threads[t]? = some ⟨query :: rest, d.busy, none⟩ := by rw [ht, ← queue, ← request]
        have taken : s.kernel.take t = s.kernel.modifyThread t fun _ => ⟨rest, true, some query⟩ := by
          simp [Kernel.take, ht, running]
        have fewer := sum_map_modify (fun d => 2 * d.queue.length + d.request.toList.length)
          (fun _ : DataThread => ⟨rest, true, some query⟩) ht
        refine advance (r := ⟨s.kernel.take t, Traced.record s.logs (observe s.kernel (.take t))⟩) (.take t) trivial rfl
          ?_ (by rw [taken]; rfl) ?_
        · rw [taken]
          refine ⟨rfl, pushed_record (fun j q => ?_) i, fun u hu => ⟨u, hu, rfl, rfl, rfl⟩⟩
          simp [observe, ht, running]
        · simp only [List.length_cons, Option.toList_none, List.length_nil, Option.toList_some] at fewer
          simp only [taken, work, Kernel.modifyThread]
          omega

/-- The queries of the global user can be done. -/
theorem Sequenced.globals {s : Traced} (h : Sequenced s) (running : s.kernel.running = true) (i : ℕ) :
    ∃ t, Leads s t ∧ Sequenced t ∧ Kept i s t ∧ t.kernel.globalPending = [] ∧ work t.kernel.threads = 0 := by
  induction length : s.kernel.globalPending.length generalizing s with
  | zero =>
    obtain ⟨t, leads, sequenced, kept, globals, done⟩ := h.idle running i
    exact ⟨t, leads, sequenced, kept, by rw [globals, List.length_eq_zero_iff.mp length], done⟩
  | succ n ih =>
    obtain ⟨query, rest, pending⟩ := List.exists_cons_of_length_eq_add_one length
    have calm : Calm s (.getGlobalPending 0) := trivial
    have step : traced.next s (.getGlobalPending 0) = some ⟨s.kernel.getGlobalPending 0, s.logs⟩ := rfl
    have posted : s.kernel.getGlobalPending 0 = { s.kernel with
        globalPending := rest
        threads := s.kernel.threads.modify (s.kernel.toUse 0) fun d => { d with queue := d.queue ++ [query] } } := by
      simp [Kernel.getGlobalPending, running, pending, Kernel.post, h.closing]
    obtain ⟨t, leads, sequenced, kept, globals, done⟩ := ih (h.step calm step) (by rw [posted]; exact running)
      (by rw [posted]; simpa [pending] using length)
    refine ⟨t, .cons calm step leads, sequenced, Kept.trans ?_ kept, globals, done⟩
    rw [posted]
    exact ⟨rfl, rfl, fun u hu => ⟨u, hu, rfl, rfl, rfl⟩⟩

/-- The results of a client that is there can be delivered. -/
theorem Sequenced.deliver {s : Traced} (h : Sequenced s) (running : s.kernel.running = true) {i : ℕ} {u : User}
    (hu : s.kernel.users[i]? = some u) (listed : u.listed = true) : ∃ t v, Leads s t ∧ Sequenced t ∧ Kept i s t ∧
      t.kernel.globalPending = s.kernel.globalPending ∧ t.kernel.threads = s.kernel.threads ∧
      t.kernel.users[i]? = some v ∧ v.notifications = [] := by
  induction length : u.notifications.length generalizing s u with
  | zero => exact ⟨s, u, .refl s, h, .refl i s, rfl, rfl, hu, List.length_eq_zero_iff.mp length⟩
  | succ n ih =>
    obtain ⟨signal, rest, waiting⟩ := List.exists_cons_of_length_eq_add_one length
    have quit : u.quitting = false := by simpa [listed] using (h.listed u (List.mem_of_getElem? hu)).symm
    let f : User → User := fun u => { u with notifications := rest, locked := if signal.more then u.locked else false }
    have calm : Calm s (.getResults i) := trivial
    have step : traced.next s (.getResults i) =
        some ⟨s.kernel.getResults i, Traced.record s.logs (observe s.kernel (.getResults i))⟩ := rfl
    have delivered : s.kernel.getResults i = { s.kernel with users := s.kernel.users.modify i f } := by
      cases more : signal.more <;>
        simp [Kernel.getResults, hu, running, listed, quit, waiting, more, f, Kernel.setLock, Kernel.modifyUser,
          List.modify_modify_eq, Function.comp_def]
    have hu' : (s.kernel.getResults i).users[i]? = some (f u) := by simp [delivered, hu]
    obtain ⟨t, v, leads, sequenced, kept, globals, threads, hv, none⟩ := ih (h.step calm step)
      (by rw [delivered]; exact running) hu' listed (by simpa [waiting, f] using length)
    refine ⟨t, v, .cons calm step leads, sequenced, Kept.trans ?_ kept, ?_, ?_, hv, none⟩
    · refine ⟨by rw [delivered], pushed_record (fun j q => ?_) i, fun w hw => ?_⟩
      · simp [observe, hu, running, listed, quit, waiting]
      · obtain rfl : u = w := Option.some.inj (hu.symm.trans hw)
        exact ⟨f u, hu', rfl, rfl, rfl⟩
    · rw [globals, delivered]
    · rw [threads, delivered]

/-- Idle threads hold nothing of a client. -/
theorem idle_threads {threads : List DataThread} (idle : work threads = 0) (i : ℕ) :
    postedTo threads i = [] ∧ executingFor threads i = [] := by
  have all : ∀ d ∈ threads, d.queue = [] ∧ d.request = none := by
    intro d hd
    have zero := List.sum_eq_zero_iff_forall_eq_nat.mp idle _ (List.mem_map_of_mem hd)
    have queue : d.queue.length = 0 := by omega
    have request : d.request.toList.length = 0 := by omega
    exact ⟨List.length_eq_zero_iff.mp queue, by simpa using request⟩
  constructor
  · simp only [postedTo, List.flatMap_eq_nil_iff]
    exact fun d hd => by simp [all d hd]
  · simp only [executingFor, List.flatMap_eq_nil_iff]
    exact fun d hd => by simp [all d hd]

/-- The queries of a client that is there can all be done, and all their results delivered. -/
theorem Sequenced.settle {s : Traced} (h : Sequenced s) (running : s.kernel.running = true) {i : ℕ} {u : User}
    (hu : s.kernel.users[i]? = some u) (listed : u.listed = true) : ∃ t v, Leads s t ∧ Sequenced t ∧
      (t.logs i).pushed = (s.logs i).pushed ∧ work t.kernel.threads = 0 ∧ t.kernel.users[i]? = some v ∧
      v.pending = [] ∧ v.notifications = [] := by
  induction length : u.pending.length generalizing s u with
  | zero =>
    obtain ⟨r, leads, sequenced, kept, globals, idle⟩ := h.globals running i
    obtain ⟨v, hv, listed', quitting, pending⟩ := kept.user u hu
    obtain ⟨t, w, leads', sequenced', kept', -, threads, hw, none⟩ := sequenced.deliver (kept.running.trans running) hv
      (listed'.trans listed)
    obtain ⟨w', hw', -, -, pending'⟩ := kept'.user v hv
    obtain rfl : w = w' := Option.some.inj (hw.symm.trans hw')
    refine ⟨t, w, leads.trans leads', sequenced', kept'.pushed.trans kept.pushed, by rw [threads, idle], hw, ?_, none⟩
    rw [pending', pending, List.length_eq_zero_iff.mp length]
  | succ n ih =>
    obtain ⟨r, leads, sequenced, kept, globals, idle⟩ := h.globals running i
    obtain ⟨v, hv, listed', quitting, pending⟩ := kept.user u hu
    obtain ⟨t, w, leads', sequenced', kept', globals', threads, hw, none⟩ := sequenced.deliver
      (kept.running.trans running) hv (listed'.trans listed)
    obtain ⟨w', hw', listed'', quitting', pending'⟩ := kept'.user v hv
    obtain rfl : w = w' := Option.some.inj (hw.symm.trans hw')
    have running' : t.kernel.running = true := kept'.running.trans (kept.running.trans running)
    have there : w.listed = true := listed''.trans (listed'.trans listed)
    have quit : w.quitting = false := by
      simpa [there] using (sequenced'.listed w (List.mem_of_getElem? hw)).symm
    have unlocked : w.locked = false := by
      have exclusive := (sequenced'.ordered i w hw).exclusive
      obtain ⟨posted, executing⟩ := idle_threads idle i
      rw [threads, posted, executing] at exclusive
      simpa [User.finals, none] using exclusive
    obtain ⟨query, rest, waiting⟩ := List.exists_cons_of_length_eq_add_one
      (show w.pending.length = n + 1 by rw [pending', pending, length])
    have calm : Calm t (.getPending i 0) := trivial
    have step : traced.next t (.getPending i 0) = some ⟨t.kernel.getPending i 0, t.logs⟩ := by
      simp [traced, next, globals', globals, observe, Traced.record]
    have posted : t.kernel.getPending i 0 = { t.kernel with
        users := t.kernel.users.modify i fun u => { u with pending := rest, locked := true }
        threads := t.kernel.threads.modify (t.kernel.toUse 0) fun d => { d with queue := d.queue ++ [query] } } := by
      have toUse : Kernel.toUse { t.kernel with users := t.kernel.users.modify i fun u =>
        { u with pending := rest, locked := true } } 0 = t.kernel.toUse 0 := rfl
      simp [Kernel.getPending, hw, running', there, unlocked, waiting, Kernel.post, Kernel.setLock, Kernel.modifyUser,
        sequenced'.closing, List.modify_modify_eq, Function.comp_def, quit]
    have hw' : (t.kernel.getPending i 0).users[i]? = some { w with pending := rest, locked := true } := by
      simp [posted, hw]
    obtain ⟨t', v', leads'', sequenced'', pushed, idle', hv', done⟩ := ih (sequenced'.step calm step)
      (by rw [posted]; exact running') hw' there
      (by simpa [pending', pending, length] using congrArg List.length waiting.symm)
    exact ⟨t', v', (leads.trans leads').trans (.cons calm step leads''), sequenced'',
      pushed.trans (kept'.pushed.trans kept.pushed), idle', hv', done⟩

/-- A client is served in order, and as long as it is there all it pushed can still be done. -/
structure Served (s : Traced) (i : ℕ) (u : User) : Prop where
  ordered : Ordered s.kernel.threads i u (s.logs i)
  settles : u.listed = true → ∃ t, Leads s t ∧ (t.logs i).pushed = (s.logs i).pushed ∧
    (t.logs i).started = (s.logs i).pushed ∧ (t.logs i).delivered = (t.logs i).attached ∧
    AllAnswered (s.logs i).pushed (t.logs i).delivered

theorem Sequenced.served {s : Traced} (h : Sequenced s) {i : ℕ} {u : User} (hu : s.kernel.users[i]? = some u) :
    Served s i u := by
  refine ⟨h.ordered i u hu, fun listed => ?_⟩
  have calm : Calm s .resume := trivial
  have step : traced.next s .resume = some ⟨{ s.kernel with running := true }, s.logs⟩ := rfl
  obtain ⟨t, v, leads, sequenced, pushed, idle, hv, pending, notifications⟩ := (h.step calm step).settle rfl hu listed
  obtain ⟨posted, executing⟩ := idle_threads idle i
  obtain ⟨order, -, results, answered⟩ := sequenced.ordered i v hv
  rw [posted, pending, List.append_nil, List.append_nil, pushed] at order
  rw [notifications, List.append_nil] at results
  rw [executing] at answered
  refine ⟨t, .cons calm step leads, pushed, order.symm, results.symm, ?_⟩
  rw [order, ← results]
  exact answered

/-- Along every run without resets, interrupts and closing databases, every client is served in order. -/
theorem client_order {s : Traced} (h : traced.Reach Calm s) {i : ℕ} {u : User} (hu : s.kernel.users[i]? = some u) :
    Served s i u := (sequenced h).served hu

/-- Two queries of one client on two threads, the first with a partial result, while another client is served. -/
theorem client_order_run : ∃ s, traced.Reach Calm s ∧ ∃ u, s.kernel.users[0]? = some u ∧
    (s.logs 0).pushed.length = 2 ∧ (s.logs 0).delivered.length = 2 ∧ Served s 0 u := by
  have h : (traced.exec Calm ⟨⟨[], [], [], [⟨[], false, none⟩, ⟨[], false, none⟩], true, fun _ => false⟩, fun _ => {}⟩
      [.connect, .connect, .push 0 0 true false, .push 0 0 false false, .push 1 0 false false, .getPending 0 0,
        .take 0, .getPending 1 0, .take 1, .attachMore 0, .getResults 0, .finish 0, .getPending 0 0, .getResults 0,
        .getPending 0 0, .finish 1, .take 0]).any (fun s =>
        s.kernel.users[0]? = some ⟨true, false, true, false, false, [], []⟩ ∧ (s.logs 0).pushed.length = 2 ∧
          (s.logs 0).delivered.length = 2) := by decide
  obtain ⟨s, reached, hu, pushed, delivered⟩ :=
      Machine.exec_holds h (.initial ⟨⟨rfl, rfl, by simp, by simp⟩, fun _ => rfl, rfl⟩)
  exact ⟨s, reached, _, hu, pushed, delivered, client_order reached hu⟩

end BerylDB.DataFlush
