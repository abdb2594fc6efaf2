import BerylDB.Server
import BerylDB.TimetableOrder

/-! # Calls on the two timed lists

`Add` and `Delete` of `ExpireManager` and of `FutureManager`, in any order and at any times, against the
entry that the last successful `Add` gave a key. -/
namespace BerylDB.Store
open Text

/-- The calls, and the clock between them. -/
inductive TableCall where
  | add (db : Bytes) (schedule : ℤ) (key : Bytes) (select : ℕ) (epoch : Bool)
  | delete (db key : Bytes) (select : ℕ)
  | clock (now : ℤ)
deriving DecidableEq

namespace Kernel

def expireCall (k : Kernel) : TableCall → Kernel
  | .add db schedule key select epoch => k.addExpire db schedule key select epoch
  | .delete db key select => k.deleteExpire db key select
  | .clock now => { k with now }

def futureCall (k : Kernel) : TableCall → Kernel
  | .add db schedule key select epoch => k.addFuture db schedule key select epoch
  | .delete db key select => k.deleteFuture db key select
  | .clock now => { k with now }

def expireCalls (k : Kernel) (calls : List TableCall) : Kernel := calls.foldl expireCall k
def futureCalls (k : Kernel) (calls : List TableCall) : Kernel := calls.foldl futureCall k

/-- Both lists empty. -/
def noEntries (k : Kernel) : Kernel := { k with expires := [], futures := [] }

end Kernel

/-- The time that the last successful `Add` of a key stored, when no `Delete` came after it. -/
structure Ledger where
  now : ℤ
  last : Bytes × Bytes × ℕ → Option ℤ

namespace Ledger

def call (s : Ledger) : TableCall → Ledger
  | .add db schedule key select epoch =>
    if schedule < 0 then s
    else { s with
      last := Function.update s.last (db, key, select) (some (if epoch then schedule else s.now + schedule)) }
  | .delete db key select => { s with last := Function.update s.last (db, key, select) none }
  | .clock now => { s with now }

def calls (s : Ledger) (cs : List TableCall) : Ledger := cs.foldl call s

def start (now : ℤ) : Ledger := ⟨now, fun _ => none⟩

/-- A successful `Add` finds no time that is not positive as a `signed int`. -/
def Allows (s : Ledger) : TableCall → Prop
  | .add db schedule key select _ => 0 ≤ schedule → ∀ t ∈ s.last (db, key, select), 0 < toSigned t
  | _ => True

def AllowsAll (s : Ledger) : List TableCall → Prop
  | [] => True
  | c :: cs => s.Allows c ∧ (s.call c).AllowsAll cs

end Ledger

/-- Each key has the one entry of the ledger, or none, and then `GetTIME` answers -1. -/
structure OneEntry {α : Type} (name : α → Bytes × Bytes × ℕ) (time : α → ℤ) (getTIME : Bytes → Bytes → ℕ → ℤ)
    (s : Ledger) (l : List α) : Prop where
  entries : ∀ n, (Timetable.named name n l).map time = (s.last n).toList
  absent : ∀ db key select, s.last (db, key, select) = none → getTIME db key select = -1

def Kernel.OneExpire (k : Kernel) (s : Ledger) : Prop :=
  OneEntry ExpireEntry.name ExpireEntry.schedule k.expireTime s k.expires

def Kernel.OneFuture (k : Kernel) (s : Ledger) : Prop :=
  OneEntry FutureEntry.name FutureEntry.schedule k.futureTime s k.futures

/-! ## What a call does to a list -/

section
variable (k : Kernel) (db : Bytes) (schedule : ℤ) (key : Bytes) (select : ℕ) (epoch : Bool)

theorem addExpire_expires : (k.addExpire db schedule key select epoch).expires =
    if schedule < 0 then k.expires
    else Timetable.replace ExpireEntry.schedule ExpireEntry.name toSigned
      ⟨db, key, select, if epoch then schedule else k.now + schedule⟩ k.expires := by
  unfold Kernel.addExpire
  split
  · rfl
  · have same : k.expireTime db key select > 0 ↔
        (Timetable.lookup ExpireEntry.name (db, key, select) k.expires).any fun e => 0 < toSigned e.schedule := by
      unfold Kernel.expireTime
      cases Timetable.lookup ExpireEntry.name (db, key, select) k.expires <;> simp
    change _ = Timetable.add ExpireEntry.schedule ⟨db, key, select, if epoch then schedule else k.now + schedule⟩
      (if (Timetable.lookup ExpireEntry.name (db, key, select) k.expires).any fun e => 0 < toSigned e.schedule then
        (k.deleteExpire db key select).expires else k.expires)
    dsimp only
    by_cases late : k.expireTime db key select > 0
    · rw [if_pos late, if_pos (same.mp late)]
      rfl
    · rw [if_neg late, if_neg (mt same.mpr late)]

theorem addFuture_futures : (k.addFuture db schedule key select epoch).futures =
    if schedule < 0 then k.futures
    else Timetable.replace FutureEntry.schedule FutureEntry.name toSigned
      ⟨db, key, select, if epoch then schedule else k.now + schedule, []⟩ k.futures := by
  unfold Kernel.addFuture
  split
  · rfl
  · have same : k.futureTime db key select > 0 ↔
        (Timetable.lookup FutureEntry.name (db, key, select) k.futures).any fun e => 0 < toSigned e.schedule := by
      unfold Kernel.futureTime
      cases Timetable.lookup FutureEntry.name (db, key, select) k.futures <;> simp
    change _ = Timetable.add FutureEntry.schedule ⟨db, key, select, if epoch then schedule else k.now + schedule, []⟩
      (if (Timetable.lookup FutureEntry.name (db, key, select) k.futures).any fun e => 0 < toSigned e.schedule then
        (k.deleteFuture db key select).futures else k.futures)
    dsimp only
    by_cases late : k.futureTime db key select > 0
    · rw [if_pos late, if_pos (same.mp late)]
      rfl
    · rw [if_neg late, if_neg (mt same.mpr late)]

theorem expireTime_missing (h : Timetable.lookup ExpireEntry.name (db, key, select) k.expires = none) :
    k.expireTime db key select = -1 := by simp [Kernel.expireTime, h]

theorem futureTime_missing (h : Timetable.lookup FutureEntry.name (db, key, select) k.futures = none) :
    k.futureTime db key select = -1 := by simp [Kernel.futureTime, h]

theorem now_addExpire : (k.addExpire db schedule key select epoch).now = k.now := by
  unfold Kernel.addExpire
  split
  · rfl
  · dsimp only
    split <;> rfl

theorem now_addFuture : (k.addFuture db schedule key select epoch).now = k.now := by
  unfold Kernel.addFuture
  split
  · rfl
  · dsimp only
    split <;> rfl

end

/-- What the calls of a manager do to its table. -/
structure Managed {α : Type} (name : α → Bytes × Bytes × ℕ) (time : α → ℤ) (table : Kernel → List α)
    (getTIME : Kernel → Bytes → Bytes → ℕ → ℤ) (call : Kernel → TableCall → Kernel) : Prop where
  now : ∀ (k : Kernel) (s : Ledger) c, s.now = k.now → (s.call c).now = (call k c).now
  add : ∀ k db schedule key select epoch, ∃ e, name e = (db, key, select) ∧
    time e = (if epoch then schedule else k.now + schedule) ∧
    table (call k (.add db schedule key select epoch)) =
      if schedule < 0 then table k else Timetable.replace time name toSigned e (table k)
  delete : ∀ k db key select, table (call k (.delete db key select)) = Timetable.delete name (db, key, select) (table k)
  clock : ∀ k now, table (call k (.clock now)) = table k
  missing : ∀ k db key select, Timetable.lookup name (db, key, select) (table k) = none → getTIME k db key select = -1

theorem Ledger.call_now (s : Ledger) (c : TableCall) :
    (s.call c).now = match c with | .clock now => now | _ => s.now := by
  cases c with
  | add db schedule key select epoch =>
    simp only [Ledger.call]
    split <;> rfl
  | delete db key select => rfl
  | clock now => rfl

theorem expires_managed :
    Managed ExpireEntry.name ExpireEntry.schedule Kernel.expires Kernel.expireTime Kernel.expireCall where
  now k s c same := by
    rw [Ledger.call_now]
    cases c with
    | add db schedule key select epoch => exact same.trans (now_addExpire k db schedule key select epoch).symm
    | delete db key select => exact same
    | clock now => rfl
  add k db schedule key select epoch := ⟨_, rfl, rfl, addExpire_expires k db schedule key select epoch⟩
  delete _ _ _ _ := rfl
  clock _ _ := rfl
  missing k db key select h := expireTime_missing k db key select h

theorem futures_managed :
    Managed FutureEntry.name FutureEntry.schedule Kernel.futures Kernel.futureTime Kernel.futureCall where
  now k s c same := by
    rw [Ledger.call_now]
    cases c with
    | add db schedule key select epoch => exact same.trans (now_addFuture k db schedule key select epoch).symm
    | delete db key select => exact same
    | clock now => rfl
  add k db schedule key select epoch := ⟨_, rfl, rfl, addFuture_futures k db schedule key select epoch⟩
  delete _ _ _ _ := rfl
  clock _ _ := rfl
  missing k db key select h := futureTime_missing k db key select h

/-! ## One entry for each key -/

section
variable {α : Type} {name : α → Bytes × Bytes × ℕ} {time : α → ℤ} {table : Kernel → List α}
  {getTIME : Kernel → Bytes → Bytes → ℕ → ℤ} {call : Kernel → TableCall → Kernel} {s : Ledger} {k : Kernel}

/-- The entries say what the ledger says; then `GetTIME` does, too. -/
theorem OneEntry.of_entries (managed : Managed name time table getTIME call)
    (entries : ∀ n, (Timetable.named name n (table k)).map time = (s.last n).toList) :
    OneEntry name time (getTIME k) s (table k) where
  entries := entries
  absent db key select none := by
    refine managed.missing k db key select ?_
    have empty := entries (db, key, select)
    rw [none, Option.toList_none, List.map_eq_nil_iff] at empty
    rw [← Timetable.head?_named, empty, List.head?_nil]

theorem Managed.start (managed : Managed name time table getTIME call) (now : ℤ) (empty : table k = []) :
    OneEntry name time (getTIME k) (Ledger.start now) (table k) :=
  .of_entries managed fun n => by simp [empty, Timetable.named, Ledger.start]

theorem OneEntry.length (h : OneEntry name time (getTIME k) s (table k)) (n : Bytes × Bytes × ℕ) :
    (Timetable.named name n (table k)).length ≤ 1 := by
  rw [← List.length_map (f := time), h.entries n]
  cases s.last n <;> simp

/-- An entry of the name is the one of the ledger. -/
theorem OneEntry.time_mem (h : OneEntry name time (getTIME k) s (table k)) {n : Bytes × Bytes × ℕ} {x : α}
    (hx : x ∈ Timetable.named name n (table k)) : s.last n = some (time x) := by
  have here : time x ∈ (s.last n).toList := h.entries n ▸ List.mem_map_of_mem hx
  simpa using here

theorem OneEntry.lookup (h : OneEntry name time (getTIME k) s (table k)) {n : Bytes × Bytes × ℕ} {t : ℤ}
    (last : s.last n = some t) : ∃ x, Timetable.lookup name n (table k) = some x ∧ time x = t := by
  have entries := h.entries n
  rw [last] at entries
  cases held : Timetable.named name n (table k) with
  | nil => simp [held] at entries
  | cons x rest =>
    refine ⟨x, ?_, ?_⟩
    · rw [← Timetable.head?_named, held, List.head?_cons]
    · rw [held, List.map_cons] at entries
      exact (List.cons.inj entries).1

theorem Managed.add_iff (managed : Managed name time table getTIME call)
    (h : OneEntry name time (getTIME k) s (table k)) (same : s.now = k.now) (db : Bytes) (schedule : ℤ) (key : Bytes)
    (select : ℕ) (epoch : Bool) :
    OneEntry name time (getTIME (call k (.add db schedule key select epoch)))
      (s.call (.add db schedule key select epoch)) (table (call k (.add db schedule key select epoch))) ↔
        s.Allows (.add db schedule key select epoch) := by
  obtain ⟨e, named, stored, added⟩ := managed.add k db schedule key select epoch
  by_cases negative : schedule < 0
  · rw [if_pos negative] at added
    simp only [Ledger.call, if_pos negative, Ledger.Allows]
    refine iff_of_true (.of_entries managed ?_) (by omega)
    rw [added]
    exact h.entries
  rw [if_neg negative] at added
  simp only [Ledger.call, if_neg negative, Ledger.Allows]
  constructor
  · intro one _ t last
    by_contra late
    obtain ⟨x, first, rfl⟩ := h.lookup last
    have two : 1 < (Timetable.named name (name e) (Timetable.replace time name toSigned e (table k))).length :=
      Timetable.named_replace_beside (named ▸ first) late
    have single := one.length (name e)
    rw [added] at single
    omega
  · intro allowed
    have positive : ∀ x ∈ Timetable.named name (name e) (table k), 0 < toSigned (time x) := fun x hx =>
      allowed (not_lt.mp negative) _ (h.time_mem (named ▸ hx))
    refine .of_entries managed fun m => ?_
    rw [added]
    dsimp only
    by_cases own : m = name e
    · subst own
      rw [Timetable.named_replace_self (h.length _) positive, named, Function.update_self, List.map_singleton, stored, same,
        Option.toList_some]
    · rw [Timetable.named_replace_other own, h.entries, Function.update_of_ne (named ▸ own)]

/-- A call keeps one entry for each key if and only if it is one that the ledger allows. -/
theorem Managed.call_iff (managed : Managed name time table getTIME call)
    (h : OneEntry name time (getTIME k) s (table k)) (same : s.now = k.now) (c : TableCall) :
    OneEntry name time (getTIME (call k c)) (s.call c) (table (call k c)) ↔ s.Allows c := by
  cases c with
  | add db schedule key select epoch => exact managed.add_iff h same db schedule key select epoch
  | delete db key select =>
    refine iff_of_true (.of_entries managed fun m => ?_) trivial
    rw [managed.delete, Timetable.named_delete, Ledger.call]
    dsimp only
    by_cases own : m = (db, key, select)
    · have single := h.length (db, key, select)
      rw [if_pos own, own, Function.update_self]
      match Timetable.named name (db, key, select) (table k), single with
      | [], _ => rfl
      | [x], _ => rfl
    · rw [if_neg own, h.entries, Function.update_of_ne own]
  | clock now =>
    refine iff_of_true (.of_entries managed fun m => ?_) trivial
    rw [managed.clock]
    exact h.entries m

theorem Ledger.allowsAll_along (s : Ledger) (calls : List TableCall) :
    Transition.Along Ledger.call Ledger.Allows s calls ↔ s.AllowsAll calls := by
  induction calls generalizing s with
  | nil => exact Iff.rfl
  | cons c calls ih => exact and_congr_right fun _ => ih (s.call c)

/-- After every call of a run each key has one entry, if and only if every call is allowed. -/
theorem Managed.calls_iff (managed : Managed name time table getTIME call) (calls : List TableCall)
    (h : OneEntry name time (getTIME k) s (table k)) (same : s.now = k.now) :
    (∀ past, past <+: calls → OneEntry name time (getTIME (past.foldl call k)) (s.calls past) (table (past.foldl call k))) ↔
      s.AllowsAll calls := by
  have exactly : Transition.Exact (fun p c => (p.1.call c, call p.2 c)) (fun p _ => p.1.now = p.2.now)
      (fun p => OneEntry name time (getTIME p.2) p.1 (table p.2)) (fun p c => p.1.Allows c) :=
    { keeps := fun p c _ same => managed.now p.2 p.1 c same
      judges := fun p c _ same h => managed.call_iff h same c }
  have prefixes := exactly.prefixes calls (s := (s, k)) same h
  simp only [Transition.foldl_pair] at prefixes
  rw [Transition.along_pair, Ledger.allowsAll_along] at prefixes
  exact prefixes

end

/-- Under every sequence of calls each table holds the one entry of the ledger for each key after every call, if
and only if no successful `Add` comes for a key whose time is not positive as a `signed int`. -/
theorem calls_one_entry (k : Kernel) (calls : List TableCall) :
    ((∀ past, past <+: calls → (k.noEntries.expireCalls past).OneExpire ((Ledger.start k.now).calls past)) ↔
      (Ledger.start k.now).AllowsAll calls) ∧
    ((∀ past, past <+: calls → (k.noEntries.futureCalls past).OneFuture ((Ledger.start k.now).calls past)) ↔
      (Ledger.start k.now).AllowsAll calls) :=
  ⟨expires_managed.calls_iff calls (expires_managed.start k.now rfl) rfl,
    futures_managed.calls_iff calls (futures_managed.start k.now rfl) rfl⟩

/-- A time of 0 stays when the key is added again, and comes after the deletion of the other. -/
theorem added_again_two_entries :
    let calls := [.add [] 0 (lit "a") 1 true, .add [] 5 (lit "a") 1 true]
    let deleted := calls ++ [.delete [] (lit "a") 1]
    ¬ (Server.fresh.kernel.noEntries.expireCalls calls).OneExpire ((Ledger.start 0).calls calls) ∧
    ¬ (Server.fresh.kernel.noEntries.futureCalls calls).OneFuture ((Ledger.start 0).calls calls) ∧
    (Server.fresh.kernel.noEntries.expireCalls deleted).expireTime [] (lit "a") 1 = 5 ∧
    (Server.fresh.kernel.noEntries.futureCalls deleted).futureTime [] (lit "a") 1 = 5 := by
  refine ⟨fun one => ?_, fun one => ?_, by decide, by decide⟩
  · exact absurd (one.entries ([], lit "a", 1)) (by decide)
  · exact absurd (one.entries ([], lit "a", 1)) (by decide)

end BerylDB.Store
