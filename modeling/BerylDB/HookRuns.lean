import BerylDB.Hooks
import BerylDB.Transition

/-! # Runs of the module handler

Modules are registered, attached, called, put in order and unloaded in any order. -/
namespace BerylDB.Hooks
open Transition Text

section
variable {Mod : Type} [DecidableEq Mod]

inductive Event (Mod : Type) where
  | register (filename : Bytes) (m : Mod)
  | attachAll (m : Mod)
  | call (untilResult : Bool) (app : Application) (given : Mod → Option ModuleResult)
  | prioritizeAttachs
  | checkUnload (m : Mod)
  | smartUnload (m : Mod) (given : Mod → Option ModuleResult)

/-- `attached` holds the loaded modules for which `AttachAll` was called. -/
structure Server (Mod : Type) where
  handler : ModuleHandler Mod
  attached : List Mod

variable (overrides : Mod → Application → Bool) (prioritize : Mod → List (Request Mod))

def ModuleHandler.Loaded (h : ModuleHandler Mod) (m : Mod) : Prop := h.modules[h.sourceFile m]? = some m

instance (h : ModuleHandler Mod) (m : Mod) : Decidable (h.Loaded m) := by
  unfold ModuleHandler.Loaded
  infer_instance

/-- A module that is registered is a new object. -/
def next (s : Server Mod) : Event Mod → Option (Server Mod)
  | .register filename m =>
    if s.handler.Loaded m ∨ filename ∈ s.handler.modules then none
    else some { s with handler := s.handler.register filename m }
  | .attachAll m =>
    if s.handler.Loaded m then some { handler := s.handler.attachAll m, attached := m :: s.attached } else none
  | .call untilResult app given => some { s with handler := (s.handler.call overrides untilResult app given).2.1 }
  | .prioritizeAttachs => some { s with handler := (s.handler.prioritizeAttachs prioritize).1 }
  | .checkUnload m => some { s with handler := (s.handler.checkUnload m).1 }
  | .smartUnload m given =>
    if s.handler.Loaded m then
      some { handler := s.handler.smartUnload overrides m given, attached := s.attached.filter (· ≠ m) }
    else none

def machine : Machine (Server Mod) (Event Mod) where
  initial s := ∃ sourceFile, s = ⟨.empty sourceFile, []⟩
  next := next overrides prioritize

structure Invariant (s : Server Mod) : Prop where
  named : ∀ {filename m}, s.handler.modules[filename]? = some m → s.handler.sourceFile m = filename
  nodup : ∀ app, (s.handler.eventHandlers app).Nodup
  loaded : ∀ {app m}, m ∈ s.handler.eventHandlers app → s.handler.Loaded m
  attached_loaded : ∀ {m}, m ∈ s.attached → s.handler.Loaded m
  attached : ∀ {app m}, m ∈ s.attached → overrides m app = true → m ∈ s.handler.eventHandlers app

/-! ## Requests only change the order -/

namespace ModuleHandler

variable {overrides prioritize} {h g k : ModuleHandler Mod}

theorem request_shuffled (h : ModuleHandler Mod) (call : Mod × Request Mod) : Shuffled h (h.request call) where
  perm app := by
    by_cases same : app = call.2.app
    · subst same
      simp only [request, Function.update_self]
      exact (setPriority_moved ..).perm
    · simp only [request, Function.update_of_ne same]
      exact .refl _
  modules := rfl
  sourceFile := rfl
  exiting := rfl

theorem requests_shuffled (calls : List (Mod × Request Mod)) (h : ModuleHandler Mod) :
    Shuffled h (calls.foldl request h) := by
  induction calls generalizing h with
  | nil => exact Shuffled.refl h h.priorityState
  | cons call calls ih => exact (request_shuffled h call).trans (ih (h.request call))

theorem attempt_shuffled (h : ModuleHandler Mod) (state : PriorityState) : Shuffled h (h.attempt prioritize state) :=
  (Shuffled.refl h state).trans (requests_shuffled _ _)

theorem attempts_shuffled (n : ℕ) (state : PriorityState) (h : ModuleHandler Mod) :
    Shuffled h (h.attempts prioritize n state).1 := by
  induction n generalizing state h with
  | zero => exact Shuffled.refl h h.priorityState
  | succ n ih =>
    have first : Shuffled h (h.attempt prioritize state) := attempt_shuffled h state
    rw [attempts]
    split
    · exact first
    · split
      · exact first
      · exact first.trans (ih ..)

omit [DecidableEq Mod] in
theorem requests_same (same : Shuffled h g) : g.requests prioritize = h.requests prioritize := by
  rw [requests, same.modules, requests]

/-! ## Invariants -/

theorem call_eventHandlers (nodup : ∀ app, (h.eventHandlers app).Nodup) (untilResult : Bool) (app : Application)
    (given : Mod → Option ModuleResult) : h.call overrides untilResult app given =
      (calledOf untilResult (overrides · app) given (callOrder h.exiting (h.eventHandlers app)),
        { h with
          eventHandlers := Function.update h.eventHandlers app ((h.eventHandlers app).filter fun m =>
            decide (m ∉ calledOf untilResult (overrides · app) given (callOrder h.exiting (h.eventHandlers app))) ||
              overrides m app) },
        resultOf untilResult (overrides · app) given (callOrder h.exiting (h.eventHandlers app))) := by
  have spec := foreachApp_spec untilResult h.exiting (overrides · app) given (h.eventHandlers app) [] (by simpa using nodup app)
  rw [List.append_nil] at spec
  rw [call, spec]

/-- A call leaves the modules that override the method. -/
theorem call_keeps (nodup : ∀ app, (h.eventHandlers app).Nodup) (untilResult : Bool) (app : Application)
    (given : Mod → Option ModuleResult) (other : Application) :
    ((h.call overrides untilResult app given).2.1.eventHandlers other).Sublist (h.eventHandlers other) ∧
    ∀ m ∈ h.eventHandlers other, overrides m other = true →
      m ∈ (h.call overrides untilResult app given).2.1.eventHandlers other := by
  rw [call_eventHandlers nodup]
  by_cases same : other = app
  · subst same
    simp only [Function.update_self]
    exact ⟨List.filter_sublist, fun m here own => List.mem_filter.mpr ⟨here, by rw [own, Bool.or_true]⟩⟩
  · simp only [Function.update_of_ne same]
    exact ⟨.refl _, fun m here _ => here⟩

end ModuleHandler

variable {overrides : Mod → Application → Bool} {prioritize : Mod → List (Request Mod)} {s t : Server Mod}

theorem Invariant.call (inv : Invariant overrides s) (untilResult : Bool) (app : Application)
    (given : Mod → Option ModuleResult) :
    Invariant overrides { s with handler := (s.handler.call overrides untilResult app given).2.1 } where
  named := by
    rw [ModuleHandler.call_eventHandlers inv.nodup]
    exact inv.named
  nodup other := (inv.nodup other).sublist (ModuleHandler.call_keeps inv.nodup untilResult app given other).1
  loaded {other m} here := by
    have before := inv.loaded ((ModuleHandler.call_keeps inv.nodup untilResult app given other).1.subset here)
    rw [ModuleHandler.call_eventHandlers inv.nodup]
    exact before
  attached_loaded here := by
    rw [ModuleHandler.call_eventHandlers inv.nodup]
    exact inv.attached_loaded here
  attached {other m} here own :=
    (ModuleHandler.call_keeps inv.nodup untilResult app given other).2 m (inv.attached here own) own

omit [DecidableEq Mod] in
theorem Invariant.shuffled (inv : Invariant overrides s) {h : ModuleHandler Mod} (shuffled : Shuffled s.handler h) :
    Invariant overrides { s with handler := h } where
  named := by
    rw [shuffled.modules, shuffled.sourceFile]
    exact inv.named
  nodup app := (shuffled.perm app).nodup_iff.mpr (inv.nodup app)
  loaded {app m} here := by
    rw [ModuleHandler.Loaded, shuffled.modules, shuffled.sourceFile]
    exact inv.loaded ((shuffled.perm app).mem_iff.mp here)
  attached_loaded here := by
    rw [ModuleHandler.Loaded, shuffled.modules, shuffled.sourceFile]
    exact inv.attached_loaded here
  attached here own := (shuffled.perm _).mem_iff.mpr (inv.attached here own)

theorem Invariant.register (inv : Invariant overrides s) {filename : Bytes} {m : Mod} (fresh : ¬ s.handler.Loaded m)
    (free : filename ∉ s.handler.modules) : Invariant overrides { s with handler := s.handler.register filename m } := by
  have keeps {n : Mod} (loaded : s.handler.Loaded n) : (s.handler.register filename m).Loaded n := by
    have other : n ≠ m := fun same => fresh (same ▸ loaded)
    have apart : filename ≠ s.handler.sourceFile n := fun same => by
      rw [same, Std.ExtTreeMap.mem_iff_isSome_getElem?, show s.handler.modules[s.handler.sourceFile n]? = some n from loaded] at free
      exact free rfl
    simp only [ModuleHandler.Loaded, ModuleHandler.register, Function.update_of_ne other, Std.ExtTreeMap.getElem?_insert]
    rw [if_neg (by simpa using apart)]
    exact loaded
  exact {
    named := fun {name n} here => by
      simp only [ModuleHandler.register, Std.ExtTreeMap.getElem?_insert] at here ⊢
      split at here
      · next same =>
        obtain rfl : m = n := Option.some.inj here
        rw [Function.update_self]
        simpa using same
      · have known := inv.named here
        have other : n ≠ m := fun same => fresh (by
          rw [← same, ModuleHandler.Loaded, known]
          exact here)
        rw [Function.update_of_ne other, known]
    nodup := inv.nodup
    loaded := fun here => keeps (inv.loaded here)
    attached_loaded := fun here => keeps (inv.attached_loaded here)
    attached := inv.attached }

theorem Invariant.attachAll (inv : Invariant overrides s) {m : Mod} (loaded : s.handler.Loaded m) :
    Invariant overrides { handler := s.handler.attachAll m, attached := m :: s.attached } := by
  have members (app : Application) (n : Mod) : n ∈ (s.handler.attachAll m).eventHandlers app ↔
      n ∈ s.handler.eventHandlers app ∨ n = m := by
    simp only [ModuleHandler.attachAll, ModuleHandler.attach]
    split
    · next here => exact ⟨.inl, fun h => h.elim id fun same => same ▸ here⟩
    · simp
  exact {
    named := inv.named
    nodup := fun app => by
      simp only [ModuleHandler.attachAll, ModuleHandler.attach]
      split
      · exact inv.nodup app
      · next out =>
        refine List.nodup_append.mpr ⟨inv.nodup app, List.nodup_singleton m, fun x hx y hy same => ?_⟩
        rw [List.mem_singleton.mp hy] at same
        exact out (same ▸ hx)
    loaded := fun {app n} here => by
      rcases (members app n).mp here with here | rfl
      · exact inv.loaded here
      · exact loaded
    attached_loaded := fun {n} here => by
      rcases List.mem_cons.mp here with rfl | here
      · exact loaded
      · exact inv.attached_loaded here
    attached := fun {app n} here own => by
      refine (members app n).mpr ?_
      rcases List.mem_cons.mp here with same | here
      · exact .inr same
      · exact .inl (inv.attached here own) }

theorem Invariant.smartUnload (inv : Invariant overrides s) {m : Mod} (loaded : s.handler.Loaded m)
    (given : Mod → Option ModuleResult) : Invariant overrides
      { handler := s.handler.smartUnload overrides m given, attached := s.attached.filter (· ≠ m) } := by
  have called := inv.call false .onUnloadModule given
  have handlers (app : Application) : (s.handler.smartUnload overrides m given).eventHandlers app =
      ((s.handler.call overrides false .onUnloadModule given).2.1.eventHandlers app).erase m := rfl
  have keeps {n : Mod} (other : n ≠ m) (before : s.handler.Loaded n) :
      (s.handler.smartUnload overrides m given).Loaded n := by
    have apart : s.handler.sourceFile m ≠ s.handler.sourceFile n := fun same => by
      have first : s.handler.modules[s.handler.sourceFile m]? = some m := loaded
      rw [same, show s.handler.modules[s.handler.sourceFile n]? = some n from before] at first
      exact other (Option.some.inj first)
    simp only [ModuleHandler.Loaded, ModuleHandler.smartUnload, ModuleHandler.detachAll,
      ModuleHandler.call_eventHandlers inv.nodup, Std.ExtTreeMap.getElem?_erase]
    rw [if_neg (by simpa using apart)]
    exact before
  have others {app : Application} {n : Mod} (here : n ∈ (s.handler.smartUnload overrides m given).eventHandlers app) :
      n ≠ m ∧ n ∈ s.handler.eventHandlers app := by
    rw [handlers, (called.nodup app).mem_erase_iff] at here
    exact ⟨here.1, (ModuleHandler.call_keeps inv.nodup false .onUnloadModule given app).1.subset here.2⟩
  exact {
    named := fun {filename n} here => by
      simp only [ModuleHandler.smartUnload, ModuleHandler.detachAll, ModuleHandler.call_eventHandlers inv.nodup,
        Std.ExtTreeMap.getElem?_erase] at here ⊢
      split at here
      · cases here
      · exact inv.named here
    nodup := fun app => (called.nodup app).erase m
    loaded := fun here => keeps (others here).1 (inv.loaded (others here).2)
    attached_loaded := fun {n} here => by
      obtain ⟨here, other⟩ := List.mem_filter.mp here
      exact keeps (of_decide_eq_true other) (inv.attached_loaded here)
    attached := fun {app n} here own => by
      obtain ⟨here, other⟩ := List.mem_filter.mp here
      rw [handlers, (called.nodup app).mem_erase_iff]
      exact ⟨of_decide_eq_true other, called.attached here own⟩ }

theorem Invariant.next (inv : Invariant overrides s) {e : Event Mod} (step : next overrides prioritize s e = some t) :
    Invariant overrides t := by
  cases e with
  | register filename m =>
    simp only [Hooks.next, Option.ite_none_left_eq_some, Option.some.injEq, not_or] at step
    obtain ⟨⟨fresh, free⟩, rfl⟩ := step
    exact inv.register fresh free
  | attachAll m =>
    simp only [Hooks.next, Option.ite_none_right_eq_some, Option.some.injEq] at step
    obtain ⟨loaded, rfl⟩ := step
    exact inv.attachAll loaded
  | call untilResult app given =>
    obtain rfl := Option.some.inj step
    exact inv.call untilResult app given
  | prioritizeAttachs =>
    obtain rfl := Option.some.inj step
    exact inv.shuffled (ModuleHandler.attempts_shuffled ..)
  | checkUnload m =>
    obtain rfl := Option.some.inj step
    rw [ModuleHandler.checkUnload]
    split
    · exact { inv with }
    · exact inv
  | smartUnload m given =>
    simp only [Hooks.next, Option.ite_none_right_eq_some, Option.some.injEq] at step
    obtain ⟨loaded, rfl⟩ := step
    exact inv.smartUnload loaded given

theorem reachable_invariant (reach : (machine overrides prioritize).Reachable s) : Invariant overrides s := by
  refine reach.invariant ?_ fun s e t inv _ step => inv.next step
  rintro s ⟨sourceFile, rfl⟩
  exact {
    named := fun here => by simp [ModuleHandler.empty] at here
    nodup := fun _ => List.nodup_nil
    loaded := fun here => absurd here List.not_mem_nil
    attached_loaded := fun here => absurd here List.not_mem_nil
    attached := fun here => absurd here List.not_mem_nil }

/-- The vectors hold loaded modules, each of them once, and those that override the method are there.  A call meets the
modules that are not exiting once each from the back, up to the first one that answers, and takes out those of them that
do not override the method. -/
theorem calls_reach_modules (reach : (machine overrides prioritize).Reachable s) (app : Application) :
    (s.handler.eventHandlers app).Nodup ∧ (∀ m ∈ s.handler.eventHandlers app, s.handler.Loaded m) ∧
    (∀ m ∈ s.attached, overrides m app = true → m ∈ s.handler.eventHandlers app) ∧
    ∀ untilResult given, s.handler.call overrides untilResult app given =
      (calledOf untilResult (overrides · app) given (callOrder s.handler.exiting (s.handler.eventHandlers app)),
        { s.handler with
          eventHandlers := Function.update s.handler.eventHandlers app ((s.handler.eventHandlers app).filter fun m =>
            decide (m ∉ calledOf untilResult (overrides · app) given
              (callOrder s.handler.exiting (s.handler.eventHandlers app))) || overrides m app) },
        resultOf untilResult (overrides · app) given (callOrder s.handler.exiting (s.handler.eventHandlers app))) := by
  have inv := reachable_invariant reach
  exact ⟨inv.nodup app, fun m here => inv.loaded here, fun m here own => inv.attached here own,
    fun untilResult given => ModuleHandler.call_eventHandlers inv.nodup untilResult app given⟩

end

/-- Module 1 does not override `OnPostJoin`; module 2 does, and answers. -/
theorem calls_reach_modules_two : ∃ s, (machine (fun (m : ℕ) _ => m == 2) fun _ => []).Reachable s ∧
    (s.handler.call (fun m _ => m == 2) false .onPostJoin fun _ => none).1 = [2, 1] ∧
    (s.handler.call (fun m _ => m == 2) true .onPostJoin fun _ => some .stop).1 = [2] := by
  have run : ((machine (fun m _ => m == 2) fun _ => []).exec (fun _ _ => True) ⟨.empty fun _ => [], []⟩
      [.register (lit "m_a.so") 1, .attachAll 1, .register (lit "m_b.so") 2, .attachAll 2]).any (fun s =>
        s.handler.eventHandlers .onPostJoin = [1, 2] ∧ s.handler.exiting 1 = false ∧ s.handler.exiting 2 = false) := by
    decide +kernel
  obtain ⟨s, reach, handlers, first, second⟩ := Machine.exec_holds run (.initial ⟨fun _ => [], rfl⟩)
  have spec := (calls_reach_modules reach .onPostJoin).2.2.2
  refine ⟨s, reach, ?_, ?_⟩
  · rw [spec, handlers]
    simp [callOrder, calledOf, answers, first, second]
  · rw [spec, handlers]
    simp [callOrder, calledOf, answers, first, second]

section
variable {Mod : Type} [DecidableEq Mod] {prioritize : Mod → List (Request Mod)}

/-! ## Priorities -/

namespace ModuleHandler

variable {h : ModuleHandler Mod}

/-- Requests that leave the state at `PRIO_STATE_LAST` changed nothing, and were met before. -/
theorem requests_last (calls : List (Mod × Request Mod)) {h : ModuleHandler Mod}
    (still : (calls.foldl request h).priorityState = .last) :
    h.priorityState = .last ∧ (calls.foldl request h).eventHandlers = h.eventHandlers ∧
    ∀ c ∈ calls, Settled (h.eventHandlers c.2.app) c.1 c.2.priority c.2.which := by
  induction calls generalizing h with
  | nil => exact ⟨still, rfl, fun c here => absurd here List.not_mem_nil⟩
  | cons c calls ih =>
    obtain ⟨state, later, settled⟩ := ih still
    obtain ⟨state', same, now⟩ := (setPriority_moved ..).settled state
    have handlers : (h.request c).eventHandlers = h.eventHandlers := by
      simp only [request]
      rw [same, Function.update_eq_self]
    rw [handlers] at later settled
    refine ⟨state', later, fun c' here => ?_⟩
    rcases List.mem_cons.mp here with rfl | here
    · exact now
    · exact settled c' here

theorem attempt_last {state : PriorityState} (still : (h.attempt prioritize state).priorityState = .last) :
    state = .last ∧ ∀ c ∈ h.requests prioritize,
      Settled ((h.attempt prioritize state).eventHandlers c.2.app) c.1 c.2.priority c.2.which := by
  obtain ⟨first, same, settled⟩ := requests_last _ still
  refine ⟨first, ?_⟩
  rw [attempt, same]
  exact settled

theorem attempts_settled (n : ℕ) {state : PriorityState} (done : (h.attempts prioritize n state).2 = true) (some_left : n ≠ 0) :
    ∀ c ∈ h.requests prioritize,
      Settled ((h.attempts prioritize n state).1.eventHandlers c.2.app) c.1 c.2.priority c.2.which := by
  induction n generalizing state h with
  | zero => exact absurd rfl some_left
  | succ n ih =>
    rw [attempts] at done ⊢
    split at done
    · next still =>
      rw [if_pos still]
      exact (attempt_last still).2
    · next moved =>
      rw [if_neg moved]
      split at done
      · cases done
      · next left =>
        rw [if_neg left]
        have settled := ih done left
        rwa [requests_same (attempt_shuffled h state)] at settled

/-! ### Requests for the first or the last place -/

def Outer (calls : List (Mod × Request Mod)) : Prop := ∀ c ∈ calls, c.2.priority = .first ∨ c.2.priority = .last

theorem request_first {c : Mod × Request Mod} (early : h.priorityState = .first) : (h.request c).priorityState = .first := by
  simp only [request]
  rw [early]
  exact (setPriority_moved ..).early

theorem requests_first (calls : List (Mod × Request Mod)) {h : ModuleHandler Mod} (early : h.priorityState = .first) :
    (calls.foldl request h).priorityState = .first := by
  induction calls generalizing h with
  | nil => exact early
  | cons c calls ih => exact ih (request_first early)

theorem request_late {c : Mod × Request Mod} (outer : c.2.priority = .first ∨ c.2.priority = .last)
    (late : h.priorityState = .last) : h.request c = h := by
  have moved := setPriority_moved h.priorityState (h.eventHandlers c.2.app) c.1 c.2.priority c.2.which
  rw [late] at moved
  obtain ⟨state, handlers⟩ := moved.late outer
  simp only [request, late, state, handlers, Function.update_eq_self]
  rw [← late]

theorem requests_late (calls : List (Mod × Request Mod)) (outer : Outer calls) (late : h.priorityState = .last) :
    calls.foldl request h = h := by
  induction calls with
  | nil => rfl
  | cons c calls ih =>
    rw [List.foldl_cons, request_late (outer c List.mem_cons_self) late]
    exact ih fun c' here => outer c' (List.mem_cons_of_mem c here)

theorem attempts_outer (outer : Outer (h.requests prioritize)) : h.prioritizeAttachs prioritize =
    ({ h.attempt prioritize .first with priorityState := .last }, true) := by
  have first : (h.attempt prioritize .first).priorityState ≠ .last := by
    rw [attempt, requests_first _ rfl]
    exact PriorityState.noConfusion
  have second : (h.attempt prioritize .first).attempt prioritize .last =
      { h.attempt prioritize .first with priorityState := .last } := by
    rw [attempt, requests_same (attempt_shuffled h .first)]
    exact requests_late _ outer rfl
  rw [prioritizeAttachs, attempts, if_neg first, if_neg (by decide), attempts, second]
  exact if_pos rfl

theorem request_other {c : Mod × Request Mod} {app : Application} (other : c.2.app ≠ app) :
    (h.request c).eventHandlers app = h.eventHandlers app := by
  simp only [request, Function.update_of_ne other.symm]

theorem request_same {c : Mod × Request Mod} : (h.request c).eventHandlers c.2.app =
    (setPriority h.priorityState (h.eventHandlers c.2.app) c.1 c.2.priority c.2.which).2.1 := by
  simp only [request, Function.update_self]

/-- A module stays at the back when the others that are there ask for the front only. -/
theorem requests_keepForemost (calls : List (Mod × Request Mod)) {h : ModuleHandler Mod} {app : Application} {m : Mod}
    (early : h.priorityState = .first) (last : (h.eventHandlers app).getLast? = some m)
    (away : ∀ c ∈ calls, c.2.app = app → c.1 ∈ h.eventHandlers app → c.2.priority = .last ∧ c.1 ≠ m) :
    ((calls.foldl request h).eventHandlers app).getLast? = some m := by
  induction calls generalizing h with
  | nil => exact last
  | cons c calls ih =>
    refine ih (request_first early) ?_ fun c' here same inside => ?_
    · by_cases same : c.2.app = app
      · subst same
        have moved := setPriority_moved h.priorityState (h.eventHandlers c.2.app) c.1 c.2.priority c.2.which
        rw [early] at moved
        rw [request_same, early]
        exact moved.keepsForemost last (away c List.mem_cons_self rfl)
      · rw [request_other same]
        exact last
    · exact away c' (List.mem_cons_of_mem c here) same (((request_shuffled h c).perm app).mem_iff.mp inside)

end ModuleHandler

/-- `PrioritizeAttachs` only changes the order of the vectors.  When it succeeds every request before or after another
module is met.  It succeeds when all requests are for an outer place, and the module that asks last for the first one of
an application is called first. -/
theorem prioritizeAttachs_orders (h : ModuleHandler Mod) :
    (∀ app, ((h.prioritizeAttachs prioritize).1.eventHandlers app).Perm (h.eventHandlers app)) ∧
    ((h.prioritizeAttachs prioritize).2 = true → ∀ c ∈ h.requests prioritize,
      Settled ((h.prioritizeAttachs prioritize).1.eventHandlers c.2.app) c.1 c.2.priority c.2.which) ∧
    (ModuleHandler.Outer (h.requests prioritize) → (h.prioritizeAttachs prioritize).2 = true ∧
      ∀ past later m app which, h.requests prioritize = past ++ (m, ⟨app, .first, which⟩) :: later →
        m ∈ h.eventHandlers app →
        (∀ c ∈ later, c.2.app = app → c.1 ∈ h.eventHandlers app → c.2.priority = .last ∧ c.1 ≠ m) →
        ((h.prioritizeAttachs prioritize).1.eventHandlers app).reverse.head? = some m) := by
  refine ⟨(ModuleHandler.attempts_shuffled ..).perm, fun done => ModuleHandler.attempts_settled 20 done (by decide), ?_⟩
  intro outer
  rw [ModuleHandler.attempts_outer outer]
  refine ⟨rfl, fun past later m app which split here away => ?_⟩
  rw [List.head?_reverse]
  -- the state in which the module asks for the first place
  let g := past.foldl ModuleHandler.request { h with priorityState := .first }
  have early : g.priorityState = .first := ModuleHandler.requests_first past rfl
  have shuffled : Shuffled h g := (Shuffled.refl h .first).trans (ModuleHandler.requests_shuffled past _)
  have whole : h.attempt prioritize .first = later.foldl ModuleHandler.request (g.request (m, ⟨app, .first, which⟩)) := by
    rw [ModuleHandler.attempt, split, List.foldl_append, List.foldl_cons]
  have inside : m ∈ g.eventHandlers app := (shuffled.perm app).mem_iff.mpr here
  have asked := shuffled.trans (ModuleHandler.request_shuffled g (m, ⟨app, .first, which⟩))
  rw [whole]
  refine ModuleHandler.requests_keepForemost later (ModuleHandler.request_first early) ?_ fun c later same there =>
    away c later same ((asked.perm app).mem_iff.mp there)
  have moved := setPriority_moved g.priorityState (g.eventHandlers app) m .first which
  rw [early] at moved
  rw [ModuleHandler.request_same, early]
  exact moved.foremost inside

end

end BerylDB.Hooks
