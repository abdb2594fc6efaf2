import BerylDB.Text
import Std.Data.ExtTreeMap
import Mathlib.Logic.Function.Basic
import Mathlib.Data.List.Dedup

/-! # Hooks of modules

`ModuleHandler` of `modules.cpp` keeps the modules of each application in a vector, which `NOTIFY_MODS` and
`UNTIL_RESULT` walk from the back.  A module that does not override the method of an application takes itself out of the
vector when it is called. -/
namespace BerylDB.Hooks
open Text

inductive Application where
  | onUserAdd | onExpireAdd | onFutureAdd | onInstaceReady | onAcceptConnection | onAddLine
  | onEveryTwoSeconds | onEveryHalfMinute | onNeighborBuild | onHostSet | onSetHost | onSetAgent
  | onChannelDelete | onChannelPreDelete | onUserReady | onCommandBlocked | onQueryFailed | onConnectionFail
  | onDecodeMetaData | onExpireLine | onEveryHour | instanceLogout | onLoadModule | onAdmin | onPassCompare
  | onPostCommand | onPostConnect | onPostJoin | onPreChangeHost | onPreCommand | onServiceAdd | onServiceDel
  | onSetConnectConfig | onSetUserIP | onHalt | onUnloadModule | onInstanceConnect | onInstanceDisconnect
  | onUserExit | onInstanceInit | onUserJoin | onInstancePublish | onInstancePublishBlocked | onUserPart
  | onInstancePostInit | onInstancePostPublish | onUserPostLogin | onUserPreJoin | onInstancePrePublish
  | onUserPreLogin | onUserPreExit | onUserRegister
deriving DecidableEq

inductive ModuleResult where
  | ok | skip | stop
deriving DecidableEq

inductive Priority where
  | first | last | before | after
deriving DecidableEq

inductive PriorityState where
  | first | again | last
deriving DecidableEq

section
variable {Mod : Type}

/-! ## Moving a module -/

/-- `std::swap` of the modules at `j` and `j + 1`. -/
def swapNext (l : List Mod) (j : ℕ) : List Mod :=
  match l[j]?, l[j + 1]? with
  | some a, some b => (l.set j b).set (j + 1) a
  | _, _ => l

/-- The loop of `SetPriority` with the increment 1, for `n` positions. -/
def shiftUp : List Mod → ℕ → ℕ → List Mod
  | l, _, 0 => l
  | l, j, n + 1 => shiftUp (if j + 1 > l.length - 1 then l else swapNext l j) (j + 1) n

/-- The loop of `SetPriority` with the increment -1. -/
def shiftDown : List Mod → ℕ → ℕ → List Mod
  | l, _, 0 => l
  | l, j, n + 1 => shiftDown (if j = 0 ∨ j - 1 > l.length - 1 then l else swapNext l (j - 1)) (j - 1) n

variable {l as bs cs : List Mod} {a b x : Mod}

theorem swapNext_split : swapNext (as ++ a :: b :: cs) as.length = as ++ b :: a :: cs := by
  have first : (as ++ a :: b :: cs)[as.length]? = some a := by simp
  have second : (as ++ a :: b :: cs)[as.length + 1]? = some b := by simp
  simp only [swapNext, first, second]
  rw [List.set_append_right _ _ (Nat.le_refl _), Nat.sub_self, List.set_cons_zero,
    List.set_append_right _ _ (Nat.le_succ _), Nat.succ_sub (Nat.le_refl _), Nat.sub_self, List.set_cons_succ,
    List.set_cons_zero]

theorem shiftUp_split : shiftUp (as ++ x :: (bs ++ cs)) as.length bs.length = as ++ bs ++ x :: cs := by
  induction bs generalizing as with
  | nil => simp [shiftUp]
  | cons b bs ih =>
    have inside : ¬ as.length + 1 > (as ++ x :: (b :: bs ++ cs)).length - 1 := by simp
    rw [List.length_cons, shiftUp, if_neg inside, List.cons_append, swapNext_split]
    have moved : shiftUp (as ++ [b] ++ x :: (bs ++ cs)) (as ++ [b]).length bs.length = as ++ [b] ++ bs ++ x :: cs := ih
    simpa using moved

theorem shiftDown_split :
    shiftDown (as ++ (bs ++ x :: cs)) (as.length + bs.length) bs.length = as ++ x :: (bs ++ cs) := by
  induction bs using List.reverseRecOn generalizing cs with
  | nil => simp [shiftDown]
  | append_singleton bs b ih =>
    have inside : ¬ (as.length + (bs.length + 1) = 0 ∨ as.length + (bs.length + 1) - 1 >
        (as ++ (bs ++ [b] ++ x :: cs)).length - 1) := by
      simp only [List.length_append, List.length_cons]
      omega
    have here : as ++ (bs ++ [b] ++ x :: cs) = (as ++ bs) ++ b :: x :: cs := by simp
    have place : as.length + (bs.length + 1) - 1 = (as ++ bs).length := by
      rw [List.length_append]
      omega
    rw [List.length_append, List.length_singleton, shiftDown, if_neg inside, place, here, swapNext_split,
      List.append_assoc, List.length_append, ih]
    simp

/-! ## What a request can do -/

/-- What `SetPriority` can do to a vector. -/
inductive Moved (state : PriorityState) (l : List Mod) (m : Mod) (s : Priority) (which : Option Mod) :
    PriorityState × List Mod × Bool → Prop
  | absent (out : m ∉ l) : Moved state l m s which (state, l, false)
  | still {as bs : List Mod} (split : l = as ++ m :: bs) (before : s = .before → ∀ w ∈ which, w ∉ bs)
      (after : s = .after → ∀ w ∈ which, w ∉ as) (first : s = .first → state = .first → bs = [])
      (last : s = .last → state = .first → as = []) : Moved state l m s which (state, l, true)
  | up {as bs cs : List Mod} (split : l = as ++ m :: (bs ++ cs)) (other : bs ≠ [])
      (why : s = .before ∨ s = .first ∧ state = .first ∧ cs = []) :
      Moved state l m s which (if state = .last then .again else state, as ++ bs ++ m :: cs, true)
  | down {as bs cs : List Mod} (split : l = as ++ (bs ++ m :: cs)) (other : bs ≠ [])
      (why : s = .after ∨ s = .last ∧ state = .first ∧ as = []) :
      Moved state l m s which (if state = .last then .again else state, as ++ m :: (bs ++ cs), true)

variable {state : PriorityState} {m : Mod} {s : Priority} {which : Option Mod}

theorem Moved.perm {r : PriorityState × List Mod × Bool} (moved : Moved state l m s which r) : r.2.1.Perm l := by
  cases moved with
  | absent out => exact .refl l
  | still split => exact .refl l
  | up split =>
    rw [split, List.append_assoc]
    exact List.perm_middle.append_left _
  | down split =>
    rw [split]
    exact List.perm_middle.symm.append_left _

/-- In the call order, which is the reverse of the vector, a request before or after another module is met. -/
def Settled (l : List Mod) (m : Mod) (s : Priority) (which : Option Mod) : Prop :=
  ∀ w ∈ which, m ∈ l → w ∈ l → m ≠ w →
    (s = .before → [m, w].Sublist l.reverse) ∧ (s = .after → [w, m].Sublist l.reverse)

theorem pair_sublist {a b : Mod} {front back : List Mod} (first : a ∈ front) (second : b ∈ back) :
    [a, b].Sublist (front ++ back) :=
  (List.singleton_sublist.mpr first).append (List.singleton_sublist.mpr second)

/-- A request that leaves the state at `PRIO_STATE_LAST` moves nothing, and finds the modules in its order. -/
theorem Moved.settled {r : PriorityState × List Mod × Bool} (moved : Moved state l m s which r) (still : r.1 = .last) :
    state = .last ∧ r.2.1 = l ∧ Settled l m s which := by
  have bump : (if state = .last then PriorityState.again else state) ≠ .last := by split <;> simp_all
  cases moved with
  | absent out => exact ⟨still, rfl, fun w _ here => absurd here out⟩
  | @still as bs split before after =>
    refine ⟨still, rfl, fun w isWhich _ here other => ?_⟩
    have reversed : l.reverse = bs.reverse ++ m :: as.reverse := by
      rw [split, List.reverse_append, List.reverse_cons, List.append_assoc, List.singleton_append]
    rw [split, List.mem_append, List.mem_cons] at here
    rw [reversed]
    constructor
    · intro kind
      rcases here with here | same | here
      · have whole := pair_sublist (List.mem_append_right bs.reverse (List.mem_singleton_self m)) (List.mem_reverse.mpr here)
        rwa [List.append_assoc, List.singleton_append] at whole
      · exact absurd same.symm other
      · exact absurd here (before kind w isWhich)
    · intro kind
      rcases here with here | same | here
      · exact absurd here (after kind w isWhich)
      · exact absurd same.symm other
      · exact pair_sublist (List.mem_reverse.mpr here) List.mem_cons_self
  | up => exact absurd still bump
  | down => exact absurd still bump

theorem Moved.early {r : PriorityState × List Mod × Bool} (moved : Moved .first l m s which r) : r.1 = .first := by
  cases moved <;> rfl

/-- Requests for an outer place are for the first attempt only. -/
theorem Moved.late {r : PriorityState × List Mod × Bool} (moved : Moved .last l m s which r)
    (outer : s = .first ∨ s = .last) : r.1 = .last ∧ r.2.1 = l := by
  cases moved with
  | absent out => exact ⟨rfl, rfl⟩
  | still split => exact ⟨rfl, rfl⟩
  | up split other why => simp_all
  | down split other why => simp_all

/-- The module at the back is called first. -/
theorem Moved.foremost {r : PriorityState × List Mod × Bool} (moved : Moved .first l m .first which r) (here : m ∈ l) :
    r.2.1.getLast? = some m := by
  cases moved with
  | absent out => exact absurd here out
  | still split before after first =>
    rw [split, first rfl rfl]
    exact List.getLast?_concat
  | up split other why =>
    obtain why | ⟨-, -, rfl⟩ := why
    · cases why
    · exact List.getLast?_concat
  | down split other why => simp at why

theorem Moved.keepsForemost {r : PriorityState × List Mod × Bool} (moved : Moved .first l m s which r) {n : Mod}
    (last : l.getLast? = some n) (away : m ∈ l → s = .last ∧ m ≠ n) : r.2.1.getLast? = some n := by
  cases moved with
  | absent out => exact last
  | still split => exact last
  | up split other why =>
    obtain ⟨rfl, -⟩ := away (by rw [split]; simp)
    simp at why
  | @down as bs cs split other why =>
    obtain ⟨-, apart⟩ := away (by rw [split]; simp)
    rcases List.eq_nil_or_concat cs with rfl | ⟨cs, c, rfl⟩
    · rw [split, ← List.append_assoc, List.getLast?_concat] at last
      exact absurd (Option.some.inj last) apart
    · rw [split, List.concat_eq_append, ← List.cons_append, ← List.append_assoc, ← List.append_assoc,
        List.getLast?_concat] at last
      rw [← last, List.concat_eq_append, ← List.append_assoc, ← List.cons_append, ← List.append_assoc, List.getLast?_concat]

end

section
variable {Mod : Type} [DecidableEq Mod]

/-- The position that `SetPriority` looks for; `none` where it returns without a swap. -/
def swapPos (state : PriorityState) (l : List Mod) (my_pos : ℕ) (s : Priority) (which : Option Mod) : Option ℕ :=
  match s with
  | .last => if state ≠ .first then none else some 0
  | .first => if state ≠ .first then none else some (l.length - 1)
  | .before => (List.range' (my_pos + 1) (l.length - 1 - my_pos)).reverse.find? fun x => l[x]? = which
  | .after => (List.range my_pos).find? fun x => l[x]? = which

/-- `SetPriority` on the vector of one application; `which` may be a null pointer. -/
def setPriority (state : PriorityState) (l : List Mod) (module : Mod) (s : Priority) (which : Option Mod) :
    PriorityState × List Mod × Bool :=
  match l.idxOf? module with
  | none => (state, l, false)
  | some my_pos =>
    match swapPos state l my_pos s which with
    | none => (state, l, true)
    | some swap_pos =>
      if swap_pos = my_pos then (state, l, true)
      else
        let state := if state = .last then .again else state
        if my_pos < swap_pos then (state, shiftUp l my_pos (swap_pos - my_pos), true)
        else (state, shiftDown l my_pos (my_pos - swap_pos), true)

variable {state : PriorityState} {l as bs cs : List Mod} {m : Mod} {s : Priority} {which : Option Mod}

theorem idxOf?_split (first : m ∉ as) : (as ++ m :: bs).idxOf? m = some as.length := by
  refine List.idxOf?_eq_some_iff.mpr ⟨by simp, by simp, fun j early same => ?_⟩
  rw [List.getElem_append_left early] at same
  exact first (same ▸ List.getElem_mem early)

theorem setPriority_split (first : m ∉ as) : setPriority state (as ++ m :: bs) m s which =
    match swapPos state (as ++ m :: bs) as.length s which with
    | none => (state, as ++ m :: bs, true)
    | some swap_pos =>
      if swap_pos = as.length then (state, as ++ m :: bs, true)
      else
        let state := if state = .last then .again else state
        if as.length < swap_pos then (state, shiftUp (as ++ m :: bs) as.length (swap_pos - as.length), true)
        else (state, shiftDown (as ++ m :: bs) as.length (as.length - swap_pos), true) := by
  rw [setPriority, idxOf?_split first]

/-- The module goes up to the position `as.length + n`. -/
theorem moved_up {n : ℕ} (first : m ∉ as) (pos : swapPos state (as ++ m :: bs) as.length s which = some (as.length + n))
    (positive : 0 < n) (inside : n ≤ bs.length) (why : s = .before ∨ s = .first ∧ state = .first ∧ n = bs.length) :
    Moved state (as ++ m :: bs) m s which (setPriority state (as ++ m :: bs) m s which) := by
  have split : bs = bs.take n ++ bs.drop n := (List.take_append_drop n bs).symm
  have long : (bs.take n).length = n := List.length_take_of_le inside
  have shifted : shiftUp (as ++ m :: bs) as.length n = as ++ bs.take n ++ m :: bs.drop n := by
    have moved : shiftUp (as ++ m :: (bs.take n ++ bs.drop n)) as.length (bs.take n).length =
        as ++ bs.take n ++ m :: bs.drop n := shiftUp_split
    rwa [← split, long] at moved
  rw [setPriority_split first, pos]
  simp only [if_neg (show ¬ as.length + n = as.length by omega), if_pos (show as.length < as.length + n by omega),
    Nat.add_sub_cancel_left, shifted]
  refine .up (congrArg (as ++ m :: ·) split) (fun none => ?_) (why.imp_right fun ⟨isFirst, early, all⟩ => ?_)
  · rw [none] at long
    exact absurd long positive.ne
  · exact ⟨isFirst, early, by rw [all, List.drop_length]⟩

/-- The module goes down to the position `n`. -/
theorem moved_down {n : ℕ} (first : m ∉ as) (pos : swapPos state (as ++ m :: bs) as.length s which = some n)
    (inside : n < as.length) (why : s = .after ∨ s = .last ∧ state = .first ∧ n = 0) :
    Moved state (as ++ m :: bs) m s which (setPriority state (as ++ m :: bs) m s which) := by
  have split : as = as.take n ++ as.drop n := (List.take_append_drop n as).symm
  have long : (as.drop n).length = as.length - n := List.length_drop
  have short : (as.take n).length = n := List.length_take_of_le inside.le
  have shifted : shiftDown (as ++ m :: bs) as.length (as.length - n) = as.take n ++ m :: (as.drop n ++ bs) := by
    have moved : shiftDown (as.take n ++ (as.drop n ++ m :: bs)) ((as.take n).length + (as.drop n).length)
        (as.drop n).length = as.take n ++ m :: (as.drop n ++ bs) := shiftDown_split
    rwa [← List.append_assoc, ← split, short, long, Nat.add_sub_cancel' inside.le] at moved
  rw [setPriority_split first, pos]
  simp only [if_neg inside.ne, if_neg (show ¬ as.length < n by omega), shifted]
  refine .down ?_ (fun none => ?_) (why.imp_right fun ⟨isLast, early, zero⟩ => ?_)
  · rw [← List.append_assoc, ← split]
  · rw [none, List.length_nil] at long
    omega
  · exact ⟨isLast, early, by rw [zero, List.take_zero]⟩

theorem setPriority_moved (state : PriorityState) (l : List Mod) (m : Mod) (s : Priority) (which : Option Mod) :
    Moved state l m s which (setPriority state l m s which) := by
  by_cases here : m ∈ l
  · obtain ⟨as, bs, rfl, first⟩ := List.eq_append_cons_of_mem here
    have stay (pos : swapPos state (as ++ m :: bs) as.length s which = none ∨
        swapPos state (as ++ m :: bs) as.length s which = some as.length) :
        setPriority state (as ++ m :: bs) m s which = (state, as ++ m :: bs, true) := by
      rw [setPriority_split first]
      rcases pos with pos | pos
      · rw [pos]
      · rw [pos]
        exact if_pos rfl
    cases s with
    | first =>
      by_cases early : state = .first
      · have pos : swapPos state (as ++ m :: bs) as.length .first which = some (as.length + bs.length) := by
          simp only [swapPos, early, ne_eq, not_true_eq_false, if_false, List.length_append, List.length_cons]
          rfl
        by_cases none : bs = []
        · rw [stay (.inr (by rw [pos, none]; rfl))]
          exact .still rfl (by simp) (by simp) (fun _ _ => none) (by simp)
        · exact moved_up first pos (List.length_pos_of_ne_nil none) (Nat.le_refl _) (.inr ⟨rfl, early, rfl⟩)
      · rw [stay (.inl (by simp [swapPos, early]))]
        exact .still rfl (by simp) (by simp) (fun _ now => absurd now early) (by simp)
    | last =>
      by_cases early : state = .first
      · have pos : swapPos state (as ++ m :: bs) as.length .last which = some 0 := by simp [swapPos, early]
        by_cases none : as = []
        · rw [stay (.inr (by rw [pos, none]; rfl))]
          exact .still rfl (by simp) (by simp) (by simp) fun _ _ => none
        · exact moved_down first pos (List.length_pos_of_ne_nil none) (.inr ⟨rfl, early, rfl⟩)
      · rw [stay (.inl (by simp [swapPos, early]))]
        exact .still rfl (by simp) (by simp) (by simp) fun _ now => absurd now early
    | before =>
      have count : (as ++ m :: bs).length - 1 - as.length = bs.length := by simp
      cases pos : swapPos state (as ++ m :: bs) as.length .before which with
      | none =>
        rw [stay (.inl pos)]
        refine .still rfl (fun _ w isWhich inside => ?_) (by simp) (by simp) (by simp)
        obtain ⟨k, small, found⟩ := List.getElem_of_mem inside
        have here : as.length + 1 + k ∈ (List.range' (as.length + 1) bs.length).reverse := by
          rw [List.mem_reverse, List.mem_range'_1]
          omega
        rw [swapPos, count] at pos
        have other := List.find?_eq_none.mp pos _ here
        rw [Option.mem_def.mp isWhich] at other
        refine other (decide_eq_true ?_)
        rw [List.getElem?_append_right (by omega), show as.length + 1 + k - as.length = k + 1 by omega,
          List.getElem?_cons_succ, List.getElem?_eq_getElem small, found]
      | some x =>
        have inside : x ∈ (List.range' (as.length + 1) bs.length).reverse := by
          have found := pos
          rw [swapPos, count] at found
          exact List.mem_of_find?_eq_some found
        rw [List.mem_reverse, List.mem_range'_1] at inside
        obtain ⟨n, rfl⟩ : ∃ n, x = as.length + n := ⟨x - as.length, by omega⟩
        exact moved_up first pos (by omega) (by omega) (.inl rfl)
    | after =>
      cases pos : swapPos state (as ++ m :: bs) as.length .after which with
      | none =>
        rw [stay (.inl pos)]
        refine .still rfl (by simp) (fun _ w isWhich inside => ?_) (by simp) (by simp)
        obtain ⟨k, small, found⟩ := List.getElem_of_mem inside
        have other := List.find?_eq_none.mp pos k (List.mem_range.mpr small)
        rw [Option.mem_def.mp isWhich] at other
        refine other (decide_eq_true ?_)
        rw [List.getElem?_append_left small, List.getElem?_eq_getElem small, found]
      | some x =>
        have inside : x ∈ List.range as.length := List.mem_of_find?_eq_some pos
        exact moved_down first pos (List.mem_range.mp inside) (.inl rfl)
  · rw [setPriority, List.idxOf?_eq_none_iff.mpr here]
    exact .absent here

end

/-! ## Calling the modules of an application -/

section
variable {Mod : Type}

variable (untilResult : Bool) (exiting overrides : Mod → Bool) (given : Mod → Option ModuleResult)

/-- The module ends an `UNTIL_RESULT`. -/
def answers (m : Mod) : Bool := untilResult && overrides m && decide ((given m).getD .skip ≠ .skip)

/-- The modules that are to be called, in their order. -/
def callOrder (l : List Mod) : List Mod := l.reverse.filter fun m => !exiting m

def calledOf (order : List Mod) : List Mod :=
  order.takeWhile (fun m => !answers untilResult overrides given m) ++
    (order.find? (answers untilResult overrides given)).toList

def resultOf (order : List Mod) : ModuleResult :=
  ((order.find? (answers untilResult overrides given)).bind given).getD .skip

theorem calledOf_cons {m : Mod} {order : List Mod} (goes : answers untilResult overrides given m = false) :
    calledOf untilResult overrides given (m :: order) = m :: calledOf untilResult overrides given order := by
  simp [calledOf, goes]

theorem resultOf_cons {m : Mod} {order : List Mod} (goes : answers untilResult overrides given m = false) :
    resultOf untilResult overrides given (m :: order) = resultOf untilResult overrides given order := by
  simp [resultOf, goes]

end

section
variable {Mod : Type} [DecidableEq Mod]

/-- `NOTIFY_MODS`, and with `untilResult` `UNTIL_RESULT`, from the reverse iterator with the base `p` on: the modules
that are called, the vector afterwards and the result.  `given` is what a method returns that a module overrides, and
`none` when it throws. -/
def foreachApp (untilResult : Bool) (exiting overrides : Mod → Bool) (given : Mod → Option ModuleResult) :
    ℕ → List Mod → List Mod × List Mod × ModuleResult
  | 0, l => ([], l, .skip)
  | p + 1, l =>
    match l[p]? with
    | none => ([], l, .skip)
    | some m =>
      if exiting m then foreachApp untilResult exiting overrides given p l
      else if overrides m then
        if untilResult ∧ (given m).getD .skip ≠ .skip then ([m], l, (given m).getD .skip)
        else
          let (called, left, v) := foreachApp untilResult exiting overrides given p l
          (m :: called, left, v)
      else
        -- `DetachEvent`, while `_next` points in front of the module already
        let (called, left, v) := foreachApp untilResult exiting overrides given p (l.erase m)
        (m :: called, left, v)

variable (untilResult : Bool) (exiting overrides : Mod → Bool) (given : Mod → Option ModuleResult)

theorem foreachApp_spec (front : List Mod) : ∀ back : List Mod, (front ++ back).Nodup →
    foreachApp untilResult exiting overrides given front.length (front ++ back) =
      (calledOf untilResult overrides given (callOrder exiting front),
        (front ++ back).filter (fun m =>
          decide (m ∉ calledOf untilResult overrides given (callOrder exiting front)) || overrides m),
        resultOf untilResult overrides given (callOrder exiting front)) := by
  induction front using List.reverseRecOn with
  | nil => simp [foreachApp, callOrder, calledOf, resultOf]
  | append_singleton front m ih =>
    intro back nodup
    have whole : front ++ [m] ++ back = front ++ m :: back := by simp
    rw [whole] at nodup ⊢
    have here : (front ++ m :: back)[front.length]? = some m := by simp
    have order : callOrder exiting (front ++ [m]) = if exiting m then callOrder exiting front
        else m :: callOrder exiting front := by
      rw [callOrder, List.reverse_concat, List.filter_cons]
      cases exiting m <;> rfl
    rw [List.length_append, List.length_singleton, foreachApp, here, order]
    dsimp only
    by_cases out : exiting m = true
    · simp only [if_pos out]
      exact ih (m :: back) nodup
    · simp only [if_neg out]
      by_cases own : overrides m = true
      · simp only [if_pos own]
        by_cases stops : untilResult ∧ (given m).getD .skip ≠ .skip
        · have answer : answers untilResult overrides given m = true := by simp [answers, own, stops]
          have kept : (front ++ m :: back).filter (fun x => decide (x ∉ [m]) || overrides x) = front ++ m :: back := by
            refine List.filter_eq_self.mpr fun x _ => ?_
            by_cases same : x = m
            · rw [same, own, Bool.or_true]
            · simp [same]
          have called : calledOf untilResult overrides given (m :: callOrder exiting front) = [m] := by
            simp [calledOf, answer]
          rw [if_pos stops, called, kept]
          simp [resultOf, answer]
        · have answer : answers untilResult overrides given m = false := by
            rw [answers, own, Bool.and_true, ← Bool.not_eq_true, Bool.and_eq_true, decide_eq_true_eq]
            exact stops
          rw [if_neg stops, ih (m :: back) nodup, calledOf_cons _ _ _ answer, resultOf_cons _ _ _ answer]
          refine Prod.ext rfl (Prod.ext (List.filter_congr fun x _ => ?_) rfl)
          by_cases same : x = m
          · rw [same, own, Bool.or_true, Bool.or_true]
          · simp [same]
      · have answer : answers untilResult overrides given m = false := by simp [answers, own]
        have fresh : m ∉ front ++ back := (List.nodup_middle.mp nodup).notMem
        have erased : (front ++ m :: back).erase m = front ++ back := by
          rw [List.erase_append_right _ fun inside => fresh (List.mem_append_left back inside), List.erase_cons_head]
        have rest : (front ++ back).Nodup := (List.nodup_cons.mp (List.nodup_middle.mp nodup)).2
        rw [if_neg own, erased, ih back rest, calledOf_cons _ _ _ answer, resultOf_cons _ _ _ answer]
        refine Prod.ext rfl (Prod.ext ?_ rfl)
        simp only [List.filter_append]
        rw [List.filter_cons_of_neg (by simp [own])]
        have others (l : List Mod) (sub : ∀ x ∈ l, x ∈ front ++ back) (called : List Mod) :
            l.filter (fun x => decide (x ∉ called) || overrides x) =
              l.filter (fun x => decide (x ∉ m :: called) || overrides x) := by
          refine List.filter_congr fun x hx => ?_
          have other : x ≠ m := fun same => fresh (same ▸ sub x hx)
          simp [other]
        exact congrArg₂ _ (others front (fun x hx => List.mem_append_left back hx) _)
          (others back (fun x hx => List.mem_append_right front hx) _)

end

/-! ## The module handler -/

/-- A call of `SetPriority` in the `Prioritize` method of a module. -/
structure Request (Mod : Type) where
  app : Application
  priority : Priority
  which : Option Mod := none

structure ModuleHandler (Mod : Type) where
  eventHandlers : Application → List Mod
  modules : Std.ExtTreeMap Bytes Mod
  sourceFile : Mod → Bytes
  exiting : Mod → Bool
  priorityState : PriorityState

/-- The vectors hold what they held, in another order. -/
structure Shuffled {Mod : Type} (h g : ModuleHandler Mod) : Prop where
  perm : ∀ app, (g.eventHandlers app).Perm (h.eventHandlers app)
  modules : g.modules = h.modules
  sourceFile : g.sourceFile = h.sourceFile
  exiting : g.exiting = h.exiting

section
variable {Mod : Type} {h g k : ModuleHandler Mod}

theorem Shuffled.refl (h : ModuleHandler Mod) (state : PriorityState) : Shuffled h { h with priorityState := state } :=
  ⟨fun _ => .refl _, rfl, rfl, rfl⟩

theorem Shuffled.trans (first : Shuffled h g) (second : Shuffled g k) : Shuffled h k where
  perm app := (second.perm app).trans (first.perm app)
  modules := second.modules.trans first.modules
  sourceFile := second.sourceFile.trans first.sourceFile
  exiting := second.exiting.trans first.exiting

end

section
variable {Mod : Type} [DecidableEq Mod]

namespace ModuleHandler

def empty (sourceFile : Mod → Bytes) : ModuleHandler Mod where
  eventHandlers _ := []
  modules := ∅
  sourceFile
  exiting _ := false
  priorityState := .first

def attach (h : ModuleHandler Mod) (app : Application) (m : Mod) : List Mod :=
  if m ∈ h.eventHandlers app then h.eventHandlers app else h.eventHandlers app ++ [m]

def attachAll (h : ModuleHandler Mod) (m : Mod) : ModuleHandler Mod :=
  { h with eventHandlers := fun app => h.attach app m }

def detachAll (h : ModuleHandler Mod) (m : Mod) : ModuleHandler Mod :=
  { h with eventHandlers := fun app => (h.eventHandlers app).erase m }

/-- The part of `Load` that enters a new module. -/
def register (h : ModuleHandler Mod) (filename : Bytes) (m : Mod) : ModuleHandler Mod :=
  { h with
    modules := h.modules.insert filename m
    sourceFile := Function.update h.sourceFile m filename
    exiting := Function.update h.exiting m false }

def checkUnload (h : ModuleHandler Mod) (m : Mod) : ModuleHandler Mod × Bool :=
  if h.modules[h.sourceFile m]? = some m ∧ h.exiting m = false then
    ({ h with exiting := Function.update h.exiting m true }, true)
  else (h, false)

variable (overrides : Mod → Application → Bool) (prioritize : Mod → List (Request Mod))

/-- `NOTIFY_MODS` or `UNTIL_RESULT`, with the modules that were called and the result. -/
def call (h : ModuleHandler Mod) (untilResult : Bool) (app : Application) (given : Mod → Option ModuleResult) :
    List Mod × ModuleHandler Mod × ModuleResult :=
  let l := h.eventHandlers app
  let (called, left, v) := foreachApp untilResult h.exiting (overrides · app) given l.length l
  (called, { h with eventHandlers := Function.update h.eventHandlers app left }, v)

def smartUnload (h : ModuleHandler Mod) (m : Mod) (given : Mod → Option ModuleResult) : ModuleHandler Mod :=
  let h := (h.call overrides false .onUnloadModule given).2.1
  let h := h.detachAll m
  { h with modules := h.modules.erase (h.sourceFile m) }

def request (h : ModuleHandler Mod) (call : Mod × Request Mod) : ModuleHandler Mod :=
  let (state, l, _) := setPriority h.priorityState (h.eventHandlers call.2.app) call.1 call.2.priority call.2.which
  { h with priorityState := state, eventHandlers := Function.update h.eventHandlers call.2.app l }

/-- The calls of `SetPriority` in one walk over `Modules`. -/
def requests (h : ModuleHandler Mod) : List (Mod × Request Mod) :=
  h.modules.toList.flatMap fun n => (prioritize n.2).map fun r => (n.2, r)

def attempt (h : ModuleHandler Mod) (state : PriorityState) : ModuleHandler Mod :=
  (h.requests prioritize).foldl request { h with priorityState := state }

/-- The loop of `PrioritizeAttachs`, with the number of attempts that are left. -/
def attempts : ℕ → PriorityState → ModuleHandler Mod → ModuleHandler Mod × Bool
  | 0, _, h => (h, true)
  | n + 1, state, h =>
    let h := h.attempt prioritize state
    if h.priorityState = .last then (h, true) else if n = 0 then (h, false) else attempts n .last h

def prioritizeAttachs (h : ModuleHandler Mod) : ModuleHandler Mod × Bool := attempts prioritize 20 .first h

end ModuleHandler

end

end BerylDB.Hooks
