import Mathlib.Tactic.Common

/-! # Programs with a state that may fail

A program changes a state and returns or throws; one that is not given enough fuel has no result.  `Ensures` tells what
holds of every result, and has one rule for each way to build a program. -/
namespace Fallible

universe u

variable {ε σ α β : Type u} {m : ExceptT ε (StateT σ Option) α} {f : α → ExceptT ε (StateT σ Option) β}
  {s : σ} {post post' : Except ε α → σ → Prop} {posted : Except ε β → σ → Prop}

/-- Whatever the program comes to from `s`, it is as `post` says. -/
def Ensures (m : ExceptT ε (StateT σ Option) α) (s : σ) (post : Except ε α → σ → Prop) : Prop :=
  ∀ r t, m.run.run s = some (r, t) → post r t

theorem Ensures.mono (h : Ensures m s post) (weaker : ∀ r t, post r t → post' r t) : Ensures m s post' :=
  fun r t runs => weaker r t (h r t runs)

theorem ensures_pure {a : α} (h : post (.ok a) s) : Ensures (pure a) s post := by
  intro r t runs
  cases runs
  exact h

theorem ensures_throw {e : ε} (h : post (.error e) s) : Ensures (throw e) s post := by
  intro r t runs
  cases runs
  exact h

/-- What follows is run where the first program returns. -/
theorem ensures_bind (h : Ensures m s fun r t => match r with
    | .ok a => Ensures (f a) t posted
    | .error e => posted (.error e) t) : Ensures (m >>= f) s posted := by
  intro r t runs
  change (m.run.run s).bind (fun x => (ExceptT.bindCont f x.1).run x.2) = _ at runs
  obtain ⟨⟨first, between⟩, ran, rest⟩ := Option.bind_eq_some_iff.mp runs
  have h := h first between ran
  cases first with
  | ok a => exact h r t rest
  | error e =>
    cases rest
    exact h

/-- A handler is run where the program throws. -/
theorem ensures_tryCatch {handler : ε → ExceptT ε (StateT σ Option) α} (h : Ensures m s fun r t => match r with
    | .ok a => post (.ok a) t
    | .error e => Ensures (handler e) t post) : Ensures (tryCatch m handler) s post := by
  intro r t runs
  change (m.run.run s).bind _ = _ at runs
  obtain ⟨⟨first, between⟩, ran, rest⟩ := Option.bind_eq_some_iff.mp runs
  have h := h first between ran
  cases first with
  | ok a =>
    cases rest
    exact h
  | error e => exact h r t rest

theorem ensures_get_bind {g : σ → ExceptT ε (StateT σ Option) β} (h : Ensures (g s) s posted) :
    Ensures (get >>= g) s posted := fun r t runs => h r t runs

theorem ensures_modify_bind {change : σ → σ} {g : PUnit → ExceptT ε (StateT σ Option) β}
    (h : Ensures (g ⟨⟩) (change s) posted) : Ensures (modify change >>= g) s posted := fun r t runs => h r t runs

/-- What holds of nothing, and of one step after another, holds of a loop. -/
theorem ensures_forM {P : σ → Except ε PUnit → σ → Prop} {g : α → ExceptT ε (StateT σ Option) PUnit} {l : List α}
    (refl : ∀ s, P s (.ok ⟨⟩) s) (trans : ∀ s t r u, P s (.ok ⟨⟩) t → P t r u → P s r u)
    (each : ∀ a ∈ l, ∀ s, Ensures (g a) s (P s)) : Ensures (l.forM g) s (P s) := by
  induction l generalizing s with
  | nil => exact ensures_pure (refl s)
  | cons a l ih =>
    refine ensures_bind ((each a (List.mem_cons_self ..) s).mono fun r t first => ?_)
    cases r with
    | error e => exact first
    | ok =>
      refine (ih fun b inside => each b (List.mem_cons_of_mem _ inside)).mono fun r u rest => ?_
      exact trans s t r u first rest

end Fallible
