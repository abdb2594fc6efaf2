import Mathlib.Data.List.Basic
import Mathlib.Tactic.Common

/-! # Labelled machines and guarded runs

A machine is a partial step function driven by labels.  A guard restricts which labels a run may
take in which state; invariants are proved from one step and hold along every guarded run. -/
namespace Transition

universe u v

/-- `next s a = none` says that the label `a` is not enabled in `s`. -/
structure Machine (σ : Type u) (α : Type v) where
  initial : σ → Prop
  next : σ → α → Option σ

namespace Machine

variable {σ : Type u} {α : Type v} {M : Machine σ α} {G H : σ → α → Prop} {s t : σ}

/-- The states reached by runs each of whose steps satisfies the guard `G`. -/
inductive Reach (M : Machine σ α) (G : σ → α → Prop) : σ → Prop
  | initial {s : σ} : M.initial s → Reach M G s
  | step {s : σ} {a : α} {t : σ} : Reach M G s → G s a → M.next s a = some t → Reach M G t

/-- The states reached by any run. -/
abbrev Reachable (M : Machine σ α) : σ → Prop := M.Reach fun _ _ => True

theorem Reach.mono (h : M.Reach G s) (hGH : ∀ s a, G s a → H s a) : M.Reach H s := by
  induction h with
  | initial hi => exact .initial hi
  | step _ hg hn ih => exact ih.step (hGH _ _ hg) hn

theorem Reach.reachable (h : M.Reach G s) : M.Reachable s := h.mono fun _ _ _ => trivial

/-- Run induction: what every guarded step preserves holds in every state a guarded run reaches. -/
theorem Reach.invariant {I : σ → Prop} (h : M.Reach G s) (hinit : ∀ s, M.initial s → I s)
    (hstep : ∀ s a t, I s → G s a → M.next s a = some t → I t) : I s := by
  induction h with
  | initial hi => exact hinit _ hi
  | step _ hg hn ih => exact hstep _ _ _ ih hg hn

/-- Runs a list of labels, stopping at the first one that is not enabled or that `G` forbids. -/
def exec (M : Machine σ α) (G : σ → α → Prop) [∀ s a, Decidable (G s a)] : σ → List α → Option σ
  | s, [] => some s
  | s, a :: as => if G s a then (M.next s a).bind fun t => exec M G t as else none

theorem exec_reach [∀ s a, Decidable (G s a)] (hs : M.Reach G s) (as : List α)
    (h : M.exec G s as = some t) : M.Reach G t := by
  induction as generalizing s with
  | nil =>
    obtain rfl : s = t := by simpa [exec] using h
    exact hs
  | cons a as ih =>
    by_cases hg : G s a
    · simp only [exec, if_pos hg, Option.bind_eq_some_iff] at h
      obtain ⟨r, hr, hrt⟩ := h
      exact ih (hs.step hg hr) hrt
    · simp [exec, hg] at h

/-- What is evaluated to hold at the end of a list of labels holds of a state that a run reaches. -/
theorem exec_holds [∀ s a, Decidable (G s a)] {p : σ → Prop} [DecidablePred p] {as : List α}
    (h : ((M.exec G s as).any fun t => p t) = true) (hs : M.Reach G s) : ∃ t, M.Reach G t ∧ p t := by
  obtain ⟨t, ht, found⟩ := (Option.any_eq_true _ _).mp h
  exact ⟨t, exec_reach hs as ht, of_decide_eq_true found⟩

end Machine

/-- Steps of which each one clears what it hits and is allowed to take: after all of them it is cleared if one of them
was allowed to at first, and otherwise as it was. -/
theorem foldl_clears {σ : Type u} {ε : Type v} {α : Type} (step : σ → ε → σ) (I : σ → Prop) (get : σ → Option α)
    (takes : σ → ε → Prop) (hit : ε → Prop) (keeps : ∀ s e, I s → I (step s e))
    (clears : ∀ s e, I s → takes s e → hit e → get (step s e) = none)
    (spares : ∀ s e, I s → ¬ (takes s e ∧ hit e) → get (step s e) = get s)
    (fewer : ∀ s e e', I s → takes (step s e) e' → takes s e')
    (still : ∀ s e e', I s → ¬ (takes s e ∧ hit e) → hit e' → takes s e' → takes (step s e) e')
    (entries : List ε) {s : σ} (start : I s) :
    get (entries.foldl step s) = none ∧ (∃ e ∈ entries, takes s e ∧ hit e) ∨
      get (entries.foldl step s) = get s ∧ ¬ ∃ e ∈ entries, takes s e ∧ hit e := by
  induction entries generalizing s with
  | nil => exact .inr ⟨rfl, by simp⟩
  | cons e entries ih =>
    rw [List.foldl_cons]
    rcases ih (keeps s e start) with ⟨gone, e', he', allowed, hits⟩ | ⟨same, none⟩
    · exact .inl ⟨gone, e', List.mem_cons_of_mem _ he', fewer s e e' start allowed, hits⟩
    · by_cases now : takes s e ∧ hit e
      · exact .inl ⟨same.trans (clears s e start now.1 now.2), e, List.mem_cons_self, now⟩
      · refine .inr ⟨same.trans (spares s e start now), ?_⟩
        rintro ⟨e', he', allowed, hits⟩
        rcases List.mem_cons.mp he' with rfl | he'
        · exact now ⟨allowed, hits⟩
        · exact none ⟨e', he', still s e e' start now hits allowed, hits⟩

/-! ## What every prefix of a run keeps -/

section
variable {σ : Type u} {ε : Type v} {step : σ → ε → σ} {Inv : σ → List ε → Prop} {Good : σ → Prop} {Allows : σ → ε → Prop}

/-- Each step of a run is allowed in the state that it finds. -/
def Along (step : σ → ε → σ) (Allows : σ → ε → Prop) : σ → List ε → Prop
  | _, [] => True
  | s, e :: events => Allows s e ∧ Along step Allows (step s e) events

/-- What is allowed at each step is allowed behind every part of the run. -/
theorem along_iff {s : σ} {events : List ε} :
    Along step Allows s events ↔ ∀ past e, past ++ [e] <+: events → Allows (past.foldl step s) e := by
  induction events generalizing s with
  | nil => exact iff_of_true trivial fun past e early => by simp at early
  | cons e events ih =>
    rw [Along, ih]
    constructor
    · rintro ⟨allowed, later⟩ past e' early
      cases past with
      | nil =>
        obtain ⟨rfl, -⟩ := List.cons_prefix_cons.mp early
        exact allowed
      | cons e'' past =>
        obtain ⟨rfl, earlier⟩ := List.cons_prefix_cons.mp early
        exact later past e' earlier
    · intro all
      refine ⟨all [] e (by simp), fun past e' early => ?_⟩
      exact all (e :: past) e' (List.cons_prefix_cons.mpr ⟨rfl, early⟩)

/-- Two conditions on the steps agree along a run whose invariant makes them agree at each of its steps. -/
theorem along_congr {Allows' : σ → ε → Prop} (judges : ∀ s e events, Inv s (e :: events) → (Allows s e ↔ Allows' s e))
    (keeps : ∀ s e events, Inv s (e :: events) → Allows' s e → Inv (step s e) events) (events : List ε) {s : σ}
    (inv : Inv s events) : Along step Allows s events ↔ Along step Allows' s events := by
  induction events generalizing s with
  | nil => exact Iff.rfl
  | cons e events ih =>
    rw [Along, Along, judges s e events inv]
    exact and_congr_right fun allowed => ih (keeps s e events inv allowed)

/-- A step from a good state gives a good state if and only if it is allowed; `Inv` may speak of the steps to come. -/
structure Exact (step : σ → ε → σ) (Inv : σ → List ε → Prop) (Good : σ → Prop) (Allows : σ → ε → Prop) : Prop where
  keeps : ∀ s e events, Inv s (e :: events) → Inv (step s e) events
  judges : ∀ s e events, Inv s (e :: events) → Good s → (Good (step s e) ↔ Allows s e)

theorem Exact.prefixes (h : Exact step Inv Good Allows) (events : List ε) {s : σ} (inv : Inv s events)
    (good : Good s) : (∀ past, past <+: events → Good (past.foldl step s)) ↔ Along step Allows s events := by
  induction events generalizing s with
  | nil =>
    refine iff_of_true (fun past none => ?_) trivial
    rw [List.prefix_nil.mp none]
    exact good
  | cons e events ih =>
    have first := h.judges s e events inv good
    constructor
    · intro all
      have next : Good (step s e) := all [e] (by simp)
      refine ⟨first.mp next, (ih (h.keeps s e events inv) next).mp fun past early => ?_⟩
      exact all (e :: past) (List.cons_prefix_cons.mpr ⟨rfl, early⟩)
    · rintro ⟨allowed, later⟩ past early
      cases past with
      | nil => exact good
      | cons e' past =>
        obtain ⟨rfl, earlier⟩ := List.cons_prefix_cons.mp early
        exact (ih (h.keeps s e' events inv) (first.mpr allowed)).mpr later past earlier

/-- Two runs over the same steps are one run of pairs. -/
theorem foldl_pair {τ : Type u} (step : σ → ε → σ) (step' : τ → ε → τ) (events : List ε) (s : σ) (t : τ) :
    events.foldl (fun p e => (step p.1 e, step' p.2 e)) (s, t) = (events.foldl step s, events.foldl step' t) := by
  induction events generalizing s t with
  | nil => rfl
  | cons e events ih => exact ih (step s e) (step' t e)

/-- What is allowed by the first of two states is allowed along its own run. -/
theorem along_pair {τ : Type u} (step : σ → ε → σ) (step' : τ → ε → τ) (events : List ε) (s : σ) (t : τ) :
    Along (fun p e => (step p.1 e, step' p.2 e)) (fun p e => Allows p.1 e) (s, t) events ↔ Along step Allows s events := by
  induction events generalizing s t with
  | nil => exact Iff.rfl
  | cons e events ih => exact and_congr_right fun _ => ih (step s e) (step' t e)

end

end Transition
