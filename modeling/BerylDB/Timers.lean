import BerylDB.TimetableOrder
import BerylDB.Transition
import Mathlib.Data.List.TakeWhile

/-! # Timers

`TickManager` of `timers.cpp`: a multimap of timers by their times, which `Flush` changes while it walks it. -/
namespace BerylDB.Timers
open Timetable

structure Timer where
  schedule : ℤ
  secs : ℕ
  repeats : Bool
deriving DecidableEq

/-- Timers live in `objects` and are referred to by position, as pointers are; `timers` is the multimap. -/
structure TickManager where
  objects : List Timer
  timers : List (ℤ × ℕ)
deriving DecidableEq

namespace TickManager

def timer (m : TickManager) (i : ℕ) : Timer := m.objects[i]?.getD ⟨0, 0, false⟩

def setSchedule (m : TickManager) (i : ℕ) (nextschedule : ℤ) : TickManager :=
  { m with objects := m.objects.modify i fun timer => { timer with schedule := nextschedule } }

/-- `Add`: a multimap inserts behind the entries of the same key. -/
def add (m : TickManager) (i : ℕ) : TickManager :=
  { m with timers := Timetable.add Prod.fst ((m.timer i).schedule, i) m.timers }

/-- `Remove`: of the entries under the timer's time the one of the timer. -/
def remove (m : TickManager) (i : ℕ) : TickManager :=
  { m with timers := m.timers.eraseP fun e => e.1 = (m.timer i).schedule ∧ e.2 = i }

/-- `Timer::SetNextTick`. -/
def setNextTick (m : TickManager) (now : ℤ) (i tick : ℕ) : TickManager :=
  let m := m.remove i
  let m := { m with objects := m.objects.modify i fun timer => { timer with secs := tick } }
  (m.setSchedule i (now + tick)).add i

/-- An insertion while an iterator stands between two parts of the map: what is inserted right before the entry that
it points to is behind it. -/
def insertAround (e : ℤ × ℕ) (before after : List (ℤ × ℕ)) : List (ℤ × ℕ) × List (ℤ × ℕ) :=
  if before.any (fun x => e.1 < x.1) || after.head?.all (fun x => e.1 < x.1) then (Timetable.add Prod.fst e before, after)
  else (before, Timetable.add Prod.fst e after)

/-- The loop of `Flush`, with the entries before the iterator and those from it on, and the timers that ran; `none` when
the fuel does not reach its end. -/
def flushFrom (time : ℤ) (run : ℕ → Bool) : ℕ → TickManager → (before after : List (ℤ × ℕ)) → (ran : List ℕ) →
    Option (TickManager × List ℕ)
  | 0, _, _, _, _ => none
  | _ + 1, m, before, [], ran => some ({ m with timers := before }, ran)
  | fuel + 1, m, before, (key, i) :: after, ran =>
    if time < (m.timer i).schedule then some ({ m with timers := before ++ (key, i) :: after }, ran)
    else if !run i then flushFrom time run fuel m before after (ran ++ [i])
    else if (m.timer i).repeats then
      let m := m.setSchedule i (time + (m.timer i).secs)
      let (before, after) := insertAround ((m.timer i).schedule, i) before after
      flushFrom time run fuel m before after (ran ++ [i])
    else flushFrom time run fuel m before after (ran ++ [i])

/-- `Flush`; `run` tells what the timers' `Run` return. -/
def flush (m : TickManager) (fuel : ℕ) (time : ℤ) (run : ℕ → Bool) : Option (TickManager × List ℕ) :=
  flushFrom time run fuel m [] m.timers []

def Registered (m : TickManager) (i : ℕ) : Prop := ∃ key, (key, i) ∈ m.timers

/-- Run() asked for another run of a repeating timer. -/
def again (m : TickManager) (run : ℕ → Bool) (i : ℕ) : Bool := run i && (m.timer i).repeats

/-- The keys of the map are the times of its timers, which are there once each and repeat after a second at least. -/
structure Valid (m : TickManager) : Prop where
  sorted : Sorted Prod.fst m.timers
  unique : Unique Prod.snd m.timers
  scheduled : ∀ e ∈ m.timers, e.1 = (m.timer e.2).schedule
  objects : ∀ e ∈ m.timers, e.2 < m.objects.length
  intervals : ∀ i < m.objects.length, 1 ≤ (m.timer i).secs

/-- What a call does: the timers that are due run, once each and in the order of their times, and of these the ones that
repeat are registered for later. -/
structure Fires (m : TickManager) (time : ℤ) (run : ℕ → Bool) (m' : TickManager) (ran : List ℕ) : Prop where
  due : ∀ i, i ∈ ran ↔ m.Registered i ∧ (m.timer i).schedule ≤ time
  once : ran.Nodup
  order : ran.Pairwise fun i j => (m.timer i).schedule ≤ (m.timer j).schedule
  registered : ∀ i, m'.Registered i ↔ m.Registered i ∧ (i ∈ ran → m.again run i = true)
  later : ∀ i ∈ ran, m'.Registered i → time < (m'.timer i).schedule
  others : ∀ i, i ∉ ran → m'.timer i = m.timer i

end TickManager

section
variable {m : TickManager} {time : ℤ} {run : ℕ → Bool} {e x : ℤ × ℕ} {i j fuel : ℕ} {due later : List (ℤ × ℕ)} {ran : List ℕ}

theorem timer_setSchedule (inside : i < m.objects.length) (next : ℤ) (j : ℕ) :
    (m.setSchedule i next).timer j = if j = i then { m.timer j with schedule := next } else m.timer j := by
  unfold TickManager.timer TickManager.setSchedule
  dsimp only
  rw [List.getElem?_modify]
  by_cases same : j = i
  · subst same
    rw [List.getElem?_eq_getElem inside]
    simp
  · cases m.objects[j]? <;> simp [same, Ne.symm same]

/-- An entry goes behind those that are not later. -/
theorem add_append (early : ∀ x ∈ due, x.1 ≤ e.1) :
    Timetable.add Prod.fst e (due ++ later) = due ++ Timetable.add Prod.fst e later := by
  induction due with
  | nil => rfl
  | cons x due ih =>
    obtain ⟨first, early⟩ := List.forall_mem_cons.mp early
    rw [List.cons_append, add_cons, if_pos first, ih early, List.cons_append]

/-- The due entries are taken one by one; those that repeat are put among the later ones. -/
def reschedule (time : ℤ) (run : ℕ → Bool) : TickManager → (due later : List (ℤ × ℕ)) → TickManager
  | m, [], later => { m with timers := later }
  | m, e :: due, later =>
    if m.again run e.2 then
      reschedule time run (m.setSchedule e.2 (time + (m.timer e.2).secs)) due
        (Timetable.add Prod.fst (time + (m.timer e.2).secs, e.2) later)
    else reschedule time run m due later

/-- What holds of the two parts of the map all along a call. -/
structure Walk (m : TickManager) (time : ℤ) (due later : List (ℤ × ℕ)) : Prop where
  early : ∀ e ∈ due, e.1 ≤ time
  late : ∀ e ∈ later, time < e.1
  sorted : Sorted Prod.fst later
  unique : Unique Prod.snd (due ++ later)
  scheduled : ∀ e ∈ due ++ later, e.1 = (m.timer e.2).schedule
  objects : ∀ e ∈ due ++ later, e.2 < m.objects.length
  intervals : ∀ i < m.objects.length, 1 ≤ (m.timer i).secs

theorem Walk.tail (h : Walk m time (e :: due) later) : Walk m time due later where
  early x hx := h.early x (List.mem_cons_of_mem _ hx)
  late := h.late
  sorted := h.sorted
  unique := (List.nodup_cons.mp h.unique).2
  scheduled x hx := h.scheduled x (List.mem_cons_of_mem _ hx)
  objects x hx := h.objects x (List.mem_cons_of_mem _ hx)
  intervals := h.intervals

theorem Walk.objects_head (h : Walk m time (e :: due) later) : e.2 < m.objects.length :=
  h.objects e List.mem_cons_self

theorem Walk.fresh (h : Walk m time (e :: due) later) : ∀ x ∈ due ++ later, x.2 ≠ e.2 := fun _ hx same =>
  (List.nodup_cons.mp h.unique).1 (same ▸ List.mem_map_of_mem hx)

theorem Walk.again (h : Walk m time (e :: due) later) :
    Walk (m.setSchedule e.2 (time + (m.timer e.2).secs)) time due
      (Timetable.add Prod.fst (time + (m.timer e.2).secs, e.2) later) := by
  have inside := h.objects_head
  have interval := h.intervals e.2 inside
  have fresh := h.fresh
  have rest := h.tail
  have length : (m.setSchedule e.2 (time + (m.timer e.2).secs)).objects.length = m.objects.length := by
    simp [TickManager.setSchedule]
  refine ⟨rest.early, fun x hx => ?_, h.sorted.add, ?_, fun x hx => ?_, fun x hx => ?_, fun i hi => ?_⟩
  · rcases mem_add.mp hx with rfl | hx
    · dsimp only
      omega
    · exact h.late x hx
  · have order : (due ++ Timetable.add Prod.fst (time + (m.timer e.2).secs, e.2) later).Perm
        ((time + (m.timer e.2).secs, e.2) :: (due ++ later)) :=
      (add_perm.append_left due).trans List.perm_middle
    refine (order.map Prod.snd).nodup_iff.mpr (List.nodup_cons.mpr ⟨fun found => ?_, rest.unique⟩)
    obtain ⟨x, hx, same⟩ := List.mem_map.mp found
    exact fresh x hx same
  · rw [timer_setSchedule inside]
    rcases List.mem_append.mp hx with hx | hx
    · rw [if_neg (fresh x (List.mem_append_left _ hx))]
      exact rest.scheduled x (List.mem_append_left _ hx)
    · rcases mem_add.mp hx with rfl | hx
      · rw [if_pos rfl]
      · rw [if_neg (fresh x (List.mem_append_right _ hx))]
        exact rest.scheduled x (List.mem_append_right _ hx)
  · rw [length]
    rcases List.mem_append.mp hx with hx | hx
    · exact rest.objects x (List.mem_append_left _ hx)
    · rcases mem_add.mp hx with rfl | hx
      · exact inside
      · exact rest.objects x (List.mem_append_right _ hx)
  · rw [length] at hi
    rw [timer_setSchedule inside]
    split
    · exact h.intervals i hi
    · exact h.intervals i hi

/-- Without a due entry the loop ends. -/
theorem flushFrom_end (late : ∀ x ∈ later, time < (m.timer x.2).schedule) (before : List (ℤ × ℕ)) :
    TickManager.flushFrom time run (fuel + 1) m before later ran = some ({ m with timers := before ++ later }, ran) := by
  cases later with
  | nil => rw [TickManager.flushFrom, List.append_nil]
  | cons x later => rw [TickManager.flushFrom, if_pos (late x List.mem_cons_self)]

/-- A timer that runs again comes behind the due entries, and the loop goes on with these. -/
theorem flushFrom_again (early : ∀ x ∈ due, x.1 ≤ e.1) (late : ∀ x ∈ later, time < (m.timer x.2).schedule)
    (own : time < (m.timer e.2).schedule) :
    TickManager.flushFrom time run (fuel + 1) m (TickManager.insertAround e [] (due ++ later)).1
        (TickManager.insertAround e [] (due ++ later)).2 ran =
      TickManager.flushFrom time run (fuel + 1) m [] (due ++ Timetable.add Prod.fst e later) ran := by
  unfold TickManager.insertAround
  rw [add_append early, List.any_nil, Bool.false_or]
  by_cases first : ((due ++ later).head?.all fun x => decide (e.1 < x.1)) = true
  · rw [if_pos first]
    cases due with
    | cons x due =>
      have after : e.1 < x.1 := by simpa using first
      have before := early x List.mem_cons_self
      omega
    | nil =>
      have front : Timetable.add Prod.fst e later = e :: later := by
        cases later with
        | nil => rfl
        | cons x later =>
          have after : e.1 < x.1 := by simpa using first
          rw [add_cons, if_neg (by omega)]
      have late' : ∀ x ∈ e :: later, time < (m.timer x.2).schedule := List.forall_mem_cons.mpr ⟨own, late⟩
      rw [front, List.nil_append, List.nil_append, flushFrom_end late', flushFrom_end late]
      rfl
  · rw [if_neg first]

theorem flushFrom_eq (run : ℕ → Bool) (ran : List ℕ) (h : Walk m time due later) (enough : due.length < fuel) :
    TickManager.flushFrom time run fuel m [] (due ++ later) ran =
      some (reschedule time run m due later, ran ++ due.map Prod.snd) := by
  induction due generalizing m later ran fuel with
  | nil =>
    obtain ⟨fuel, rfl⟩ := Nat.exists_eq_succ_of_ne_zero (Nat.ne_of_gt enough)
    have late : ∀ x ∈ later, time < (m.timer x.2).schedule := fun x hx => h.scheduled x hx ▸ h.late x hx
    rw [List.nil_append, flushFrom_end late, reschedule, List.nil_append, List.map_nil, List.append_nil]
  | cons e due ih =>
    obtain ⟨fuel, rfl⟩ := Nat.exists_eq_succ_of_ne_zero (Nat.ne_of_gt (Nat.lt_of_le_of_lt (Nat.zero_le _) enough))
    have enough : due.length < fuel := by simpa using enough
    have now : ¬ time < (m.timer e.2).schedule := by
      have := h.early e List.mem_cons_self
      rw [← h.scheduled e List.mem_cons_self]
      omega
    have order : ran ++ (e :: due).map Prod.snd = ran ++ [e.2] ++ due.map Prod.snd := by simp
    rw [List.cons_append, TickManager.flushFrom, if_neg now, order]
    cases answer : run e.2 with
    | false =>
      have stops : m.again run e.2 = false := by rw [TickManager.again, answer, Bool.false_and]
      rw [reschedule, stops]
      exact ih _ h.tail enough
    | true =>
      have asks : m.again run e.2 = (m.timer e.2).repeats := by rw [TickManager.again, answer, Bool.true_and]
      rw [reschedule, asks]
      by_cases repeats : (m.timer e.2).repeats = true
      · have walk := h.again
        have interval := h.intervals e.2 h.objects_head
        have self : ((m.setSchedule e.2 (time + (m.timer e.2).secs)).timer e.2).schedule =
            time + (m.timer e.2).secs := by rw [timer_setSchedule h.objects_head, if_pos rfl]
        obtain ⟨fuel, rfl⟩ := Nat.exists_eq_succ_of_ne_zero (Nat.ne_of_gt (Nat.lt_of_le_of_lt (Nat.zero_le _) enough))
        simp only [repeats, Bool.not_true, Bool.false_eq_true, if_false, if_true]
        rw [self, ← ih _ walk enough]
        refine flushFrom_again (fun x hx => ?_) (fun x hx => ?_) ?_
        · have := walk.early x hx
          dsimp only
          omega
        · have member : x ∈ due ++ Timetable.add Prod.fst (time + (m.timer e.2).secs, e.2) later :=
            List.mem_append_right _ (mem_add.mpr (.inr hx))
          rw [← walk.scheduled x member]
          exact walk.late x (mem_add.mpr (.inr hx))
        · rw [self]
          omega
      · simp only [Bool.not_true, Bool.false_eq_true, if_false, repeats]
        exact ih _ h.tail enough

/-! ## What a call leaves -/

/-- A timer with the time that it is put off to. -/
def Timer.putOff (timer : Timer) (time : ℤ) : Timer := { timer with schedule := time + timer.secs }

theorem again_setSchedule (inside : i < m.objects.length) (next : ℤ) (j : ℕ) :
    (m.setSchedule i next).again run j = m.again run j := by
  unfold TickManager.again
  rw [timer_setSchedule inside]
  split <;> rfl

theorem timer_reschedule (h : Walk m time due later) (j : ℕ) : (reschedule time run m due later).timer j =
    if j ∈ due.map Prod.snd ∧ m.again run j = true then (m.timer j).putOff time else m.timer j := by
  induction due generalizing m later with
  | nil => simp [reschedule, TickManager.timer]
  | cons e due ih =>
    have fresh : e.2 ∉ due.map Prod.snd := fun found => by
      obtain ⟨x, hx, same⟩ := List.mem_map.mp found
      exact h.fresh x (List.mem_append_left _ hx) same
    have other (same : j ≠ e.2) : j ∈ (e :: due).map Prod.snd ∧ m.again run j = true ↔
        j ∈ due.map Prod.snd ∧ m.again run j = true := by
      rw [List.map_cons, List.mem_cons, or_iff_right same]
    rw [reschedule]
    by_cases asks : m.again run e.2 = true
    · rw [if_pos asks, ih h.again, again_setSchedule h.objects_head, timer_setSchedule h.objects_head]
      by_cases same : j = e.2
      · subst same
        simp [fresh, asks, Timer.putOff]
      · rw [if_neg same, if_congr (other same) rfl rfl]
    · rw [if_neg asks, ih h.tail]
      by_cases same : j = e.2
      · subst same
        simp [asks]
      · rw [if_congr (other same) rfl rfl]

theorem objects_reschedule : (reschedule time run m due later).objects.length = m.objects.length := by
  induction due generalizing m later with
  | nil => rfl
  | cons e due ih =>
    rw [reschedule]
    split
    · rw [ih]
      simp [TickManager.setSchedule]
    · exact ih

theorem sorted_reschedule (h : Walk m time due later) : Sorted Prod.fst (reschedule time run m due later).timers := by
  induction due generalizing m later with
  | nil => exact h.sorted
  | cons e due ih =>
    rw [reschedule]
    split
    · exact ih h.again
    · exact ih h.tail

theorem timers_reschedule (h : Walk m time due later) : (reschedule time run m due later).timers.Perm
    ((due.filter fun e => m.again run e.2).map (fun e => (time + (m.timer e.2).secs, e.2)) ++ later) := by
  induction due generalizing m later with
  | nil => exact .refl _
  | cons e due ih =>
    have fresh : ∀ x ∈ due, x.2 ≠ e.2 := fun x hx => h.fresh x (List.mem_append_left _ hx)
    rw [reschedule]
    by_cases asks : m.again run e.2 = true
    · have entries : (due.filter fun x => (m.setSchedule e.2 (time + (m.timer e.2).secs)).again run x.2).map
          (fun x => (time + ((m.setSchedule e.2 (time + (m.timer e.2).secs)).timer x.2).secs, x.2)) =
          (due.filter fun x => m.again run x.2).map fun x => (time + (m.timer x.2).secs, x.2) := by
        simp only [again_setSchedule h.objects_head]
        refine List.map_congr_left fun x hx => ?_
        rw [timer_setSchedule h.objects_head, if_neg (fresh x (List.mem_filter.mp hx).1)]
      rw [if_pos asks, List.filter_cons_of_pos (by simpa using asks), List.map_cons]
      refine (ih h.again).trans ?_
      rw [entries]
      exact (add_perm.append_left _).trans List.perm_middle
    · rw [if_neg asks, List.filter_cons_of_neg (by simpa using asks)]
      exact ih h.tail

end

/-! ## Calls -/

section
variable {m : TickManager} {time : ℤ} {run : ℕ → Bool} {due later : List (ℤ × ℕ)}

/-- The entries that are due stand in front. -/
theorem TickManager.Valid.walk (h : m.Valid) (time : ℤ) : Walk m time (m.timers.takeWhile fun e => e.1 ≤ time)
    (m.timers.dropWhile fun e => e.1 ≤ time) := by
  have whole := List.takeWhile_append_dropWhile (p := fun e : ℤ × ℕ => decide (e.1 ≤ time)) (l := m.timers)
  refine ⟨fun e he => by simpa using List.mem_takeWhile_imp he, fun e he => ?_, ?_, ?_, ?_, ?_, h.intervals⟩
  · exact h.sorted.late_of_dropWhile e he
  · exact h.sorted.sublist (List.dropWhile_sublist _)
  · rw [whole]
    exact h.unique
  · rw [whole]
    exact h.scheduled
  · rw [whole]
    exact h.objects

theorem Walk.mem_timers (h : Walk m time due later) (x : ℤ × ℕ) : x ∈ (reschedule time run m due later).timers ↔
    (∃ e ∈ due, m.again run e.2 = true ∧ x = (time + (m.timer e.2).secs, e.2)) ∨ x ∈ later := by
  rw [(timers_reschedule h).mem_iff, List.mem_append, List.mem_map]
  simp only [List.mem_filter, and_assoc, eq_comm]

theorem Walk.ids (h : Walk m time due later) : (due.map Prod.snd ++ later.map Prod.snd).Nodup := by
  have unique := h.unique
  rwa [Timetable.Unique, List.map_append] at unique

theorem Walk.apart (h : Walk m time due later) {i : ℕ} (here : i ∈ due.map Prod.snd) : i ∉ later.map Prod.snd :=
  fun there => List.disjoint_of_nodup_append h.ids here there

theorem Walk.valid (h : Walk m time due later) : (reschedule time run m due later).Valid := by
  have unique : Timetable.Unique Prod.snd
      ((due.filter fun e => m.again run e.2).map (fun e => (time + (m.timer e.2).secs, e.2)) ++ later) := by
    have kept : ((due.filter fun e => m.again run e.2).map Prod.snd ++ later.map Prod.snd).Sublist
        (due.map Prod.snd ++ later.map Prod.snd) := ((List.filter_sublist).map _).append (.refl _)
    rw [Timetable.Unique, List.map_append, List.map_map]
    exact kept.nodup h.ids
  have moved (e : ℤ × ℕ) (he : e ∈ due) (asks : m.again run e.2 = true) :
      ((reschedule time run m due later).timer e.2).schedule = time + (m.timer e.2).secs := by
    rw [timer_reschedule h, if_pos ⟨List.mem_map_of_mem he, asks⟩, Timer.putOff]
  have stays (e : ℤ × ℕ) (he : e ∈ later) : (reschedule time run m due later).timer e.2 = m.timer e.2 := by
    rw [timer_reschedule h, if_neg fun found => h.apart found.1 (List.mem_map_of_mem he)]
  refine ⟨sorted_reschedule h, ?_, fun x hx => ?_, fun x hx => ?_, fun i hi => ?_⟩
  · exact ((timers_reschedule h).map Prod.snd).nodup_iff.mpr unique
  · rcases (h.mem_timers x).mp hx with ⟨e, he, asks, rfl⟩ | hx
    · exact (moved e he asks).symm
    · rw [stays x hx]
      exact h.scheduled x (List.mem_append_right _ hx)
  · rw [objects_reschedule]
    rcases (h.mem_timers x).mp hx with ⟨e, he, -, rfl⟩ | hx
    · exact h.objects e (List.mem_append_left _ he)
    · exact h.objects x (List.mem_append_right _ hx)
  · rw [objects_reschedule] at hi
    rw [timer_reschedule h]
    split
    · exact h.intervals i hi
    · exact h.intervals i hi

theorem Walk.fires (h : Walk m time due later) (whole : due ++ later = m.timers) (sorted : Sorted Prod.fst due) :
    m.Fires time run (reschedule time run m due later) (due.map Prod.snd) := by
  have registered (i : ℕ) : m.Registered i ↔ i ∈ due.map Prod.snd ∨ i ∈ later.map Prod.snd := by
    rw [← List.mem_append, ← List.map_append, whole]
    simp [TickManager.Registered]
  have kept (i : ℕ) : (reschedule time run m due later).Registered i ↔
      i ∈ due.map Prod.snd ∧ m.again run i = true ∨ i ∈ later.map Prod.snd := by
    simp only [TickManager.Registered, h.mem_timers, List.mem_map]
    constructor
    · rintro ⟨key, ⟨e, he, asks, same⟩ | hx⟩
      · obtain ⟨rfl, rfl⟩ := Prod.mk.inj same
        exact .inl ⟨⟨e, he, rfl⟩, asks⟩
      · exact .inr ⟨(key, i), hx, rfl⟩
    · rintro (⟨⟨e, he, rfl⟩, asks⟩ | ⟨x, hx, rfl⟩)
      · exact ⟨_, .inl ⟨e, he, asks, rfl⟩⟩
      · exact ⟨x.1, .inr hx⟩
  have time_of {e : ℤ × ℕ} (he : e ∈ due) : (m.timer e.2).schedule = e.1 := (h.scheduled e (List.mem_append_left _ he)).symm
  refine ⟨fun i => ?_, (List.nodup_append.mp h.ids).1, ?_, fun i => ?_, fun i hi there => ?_, fun i hi => ?_⟩
  · rw [registered]
    constructor
    · intro hi
      obtain ⟨e, he, rfl⟩ := List.mem_map.mp hi
      exact ⟨.inl hi, time_of he ▸ h.early e he⟩
    · rintro ⟨hi | hi, now⟩
      · exact hi
      · obtain ⟨e, he, rfl⟩ := List.mem_map.mp hi
        have := h.late e he
        rw [← h.scheduled e (List.mem_append_right _ he)] at now
        omega
  · refine List.pairwise_map.mpr (sorted.imp_of_mem fun ha hb le => ?_)
    rw [time_of ha, time_of hb]
    exact le
  · rw [kept, registered]
    constructor
    · rintro (⟨here, asks⟩ | there)
      · exact ⟨.inl here, fun _ => asks⟩
      · exact ⟨.inr there, fun here => absurd there (h.apart here)⟩
    · rintro ⟨here | there, asks⟩
      · exact .inl ⟨here, asks here⟩
      · exact .inr there
  · obtain ⟨-, asks⟩ := ((kept i).mp there).resolve_right (h.apart hi)
    obtain ⟨e, he, rfl⟩ := List.mem_map.mp hi
    have interval := h.intervals e.2 (h.objects e (List.mem_append_left _ he))
    rw [timer_reschedule h, if_pos ⟨hi, asks⟩, Timer.putOff]
    dsimp only
    omega
  · rw [timer_reschedule h, if_neg fun both => hi both.1]

/-- A call ends, and does what it should. -/
theorem TickManager.Valid.flush (h : m.Valid) (time : ℤ) (run : ℕ → Bool) : ∃ m' ran,
    (∀ fuel, m.timers.length < fuel → m.flush fuel time run = some (m', ran)) ∧ m.Fires time run m' ran ∧ m'.Valid := by
  have walk := h.walk time
  have whole := List.takeWhile_append_dropWhile (p := fun e : ℤ × ℕ => decide (e.1 ≤ time)) (l := m.timers)
  refine ⟨_, _, fun fuel enough => ?_, walk.fires whole (h.sorted.sublist (List.takeWhile_sublist _)), walk.valid⟩
  have short := (List.takeWhile_sublist (fun e : ℤ × ℕ => decide (e.1 ≤ time)) (l := m.timers)).length_le
  have eq := flushFrom_eq run [] walk (Nat.lt_of_le_of_lt short enough)
  rwa [whole, List.nil_append] at eq

/-! ## Runs -/

/-- Timers are made and added, are set to another tick or removed, and the manager is called. -/
inductive Event where
  | create (timer : Timer)
  | remove (i : ℕ)
  | setNextTick (now : ℤ) (i tick : ℕ)
  | flush (time : ℤ) (run : ℕ → Bool)

def next (m : TickManager) : Event → Option TickManager
  | .create timer => some ({ m with objects := m.objects ++ [timer] }.add m.objects.length)
  | .remove i => some (m.remove i)
  | .setNextTick now i tick => if i < m.objects.length then some (m.setNextTick now i tick) else none
  | .flush time run => (m.flush (m.timers.length + 1) time run).map (·.1)

def machine : Transition.Machine TickManager Event := ⟨fun m => m = ⟨[], []⟩, next⟩

/-- Intervals have a second at least. -/
def Intervals (_ : TickManager) : Event → Prop
  | .create timer => 1 ≤ timer.secs
  | .setNextTick _ _ tick => 1 ≤ tick
  | _ => True

namespace TickManager

theorem Valid.add (h : m.Valid) {i : ℕ} (inside : i < m.objects.length) (fresh : ∀ e ∈ m.timers, e.2 ≠ i) :
    (m.add i).Valid where
  sorted := h.sorted.add
  unique := h.unique.add fresh
  scheduled e he := by
    rcases mem_add.mp he with rfl | he
    · rfl
    · exact h.scheduled e he
  objects e he := by
    rcases mem_add.mp he with rfl | he
    · exact inside
    · exact h.objects e he
  intervals := h.intervals

theorem eraseP_congr {l : List (ℤ × ℕ)} {p q : ℤ × ℕ → Bool} (same : ∀ e ∈ l, p e = q e) : l.eraseP p = l.eraseP q := by
  induction l with
  | nil => rfl
  | cons e l ih =>
    obtain ⟨first, rest⟩ := List.forall_mem_cons.mp same
    rw [List.eraseP_cons, List.eraseP_cons, first, ih rest]

theorem Valid.remove (h : m.Valid) (i : ℕ) : (m.remove i).Valid ∧ ∀ e ∈ (m.remove i).timers, e.2 ≠ i := by
  have sub : (m.remove i).timers.Sublist m.timers := List.eraseP_sublist
  refine ⟨⟨h.sorted.sublist sub, (sub.map _).nodup h.unique, fun e he => h.scheduled e (sub.subset he),
    fun e he => h.objects e (sub.subset he), h.intervals⟩, ?_⟩
  have same : (m.remove i).timers = Timetable.delete Prod.snd i m.timers := by
    refine eraseP_congr fun e he => ?_
    rw [h.scheduled e he]
    exact decide_eq_decide.mpr ⟨And.right, fun own => ⟨by rw [own], own⟩⟩
  intro e he
  rw [same] at he
  exact ((Timetable.mem_delete h.unique).mp he).2

/-- Changes of timers that are not registered. -/
theorem Valid.modify (h : m.Valid) {i : ℕ} (fresh : ∀ e ∈ m.timers, e.2 ≠ i) {f : Timer → Timer}
    (interval : ∀ timer, 1 ≤ timer.secs → 1 ≤ (f timer).secs) : { m with objects := m.objects.modify i f }.Valid := by
  have timer_eq (j : ℕ) (inside : j < m.objects.length) :
      { m with objects := m.objects.modify i f }.timer j = if i = j then f (m.timer j) else m.timer j := by
    unfold timer
    dsimp only
    rw [List.getElem?_modify, List.getElem?_eq_getElem inside]
    split <;> rfl
  refine ⟨h.sorted, h.unique, fun e he => ?_, fun e he => ?_, fun j hj => ?_⟩
  · rw [timer_eq _ (h.objects e he), if_neg (Ne.symm (fresh e he))]
    exact h.scheduled e he
  · simpa using h.objects e he
  · have hj : j < m.objects.length := by simpa using hj
    rw [timer_eq j hj]
    split
    · exact interval _ (h.intervals j hj)
    · exact h.intervals j hj

theorem Valid.create (h : m.Valid) {timer : Timer} (interval : 1 ≤ timer.secs) :
    ({ m with objects := m.objects ++ [timer] }.add m.objects.length).Valid := by
  have old (j : ℕ) (inside : j < m.objects.length) : { m with objects := m.objects ++ [timer] }.timer j = m.timer j := by
    unfold TickManager.timer
    dsimp only
    rw [List.getElem?_append_left inside]
  have base : { m with objects := m.objects ++ [timer] }.Valid := by
    refine ⟨h.sorted, h.unique, fun e he => ?_, fun e he => ?_, fun j hj => ?_⟩
    · rw [old _ (h.objects e he)]
      exact h.scheduled e he
    · rw [List.length_append]
      exact Nat.lt_add_right _ (h.objects e he)
    · rcases Nat.lt_succ_iff_lt_or_eq.mp (by simpa using hj) with before | rfl
      · rw [old j before]
        exact h.intervals j before
      · simpa [TickManager.timer] using interval
  refine base.add (by simp) fun e he same => ?_
  exact absurd (h.objects e he) (by rw [same]; exact Nat.lt_irrefl _)

theorem Valid.setNextTick (h : m.Valid) {now : ℤ} {i tick : ℕ} (inside : i < m.objects.length) (interval : 1 ≤ tick) :
    (m.setNextTick now i tick).Valid := by
  obtain ⟨removed, fresh⟩ := h.remove i
  have ticked := removed.modify (f := fun timer => { timer with secs := tick }) fresh fun _ _ => interval
  have scheduled := ticked.modify (f := fun timer => { timer with schedule := now + tick }) fresh fun _ => id
  exact scheduled.add (by simpa [TickManager.remove] using inside) fresh

end TickManager

theorem reach_valid (reached : machine.Reach Intervals m) : m.Valid := by
  refine reached.invariant (fun m start => ?_) fun m event m' valid intervals step => ?_
  · subst start
    exact ⟨.nil, .nil, by simp, by simp, by simp⟩
  · cases event with
    | create timer =>
      obtain rfl := Option.some.inj step
      exact valid.create intervals
    | remove i =>
      obtain rfl := Option.some.inj step
      exact (valid.remove i).1
    | setNextTick now i tick =>
      simp only [machine, next] at step
      split at step
      · obtain rfl := Option.some.inj step
        exact valid.setNextTick ‹_› intervals
      · simp at step
    | flush time run =>
      obtain ⟨m'', ran, ends, -, valid'⟩ := valid.flush time run
      have same : next m (.flush time run) = some m'' := by rw [next, ends _ (Nat.lt_succ_self _), Option.map_some]
      obtain rfl := Option.some.inj (same.symm.trans step)
      exact valid'

/-- In every run each call ends, runs the timers that are due once each and in their order, and keeps of these the ones
that repeat, for later. -/
theorem flush_fires (m : TickManager) (reached : machine.Reach Intervals m) (time : ℤ) (run : ℕ → Bool) : ∃ m' ran,
    (∀ fuel, m.timers.length < fuel → m.flush fuel time run = some (m', ran)) ∧ m.Fires time run m' ran ∧
      machine.Reach Intervals m' := by
  obtain ⟨m', ran, ends, fires, -⟩ := (reach_valid reached).flush time run
  refine ⟨m', ran, ends, fires, reached.step (a := Event.flush time run) trivial ?_⟩
  exact (congrArg (Option.map Prod.fst) (ends _ (Nat.lt_succ_self _)))

/-- Two repeating timers and one that does not repeat, in the order of their times. -/
def threeTimers : TickManager where
  objects := [⟨10, 5, true⟩, ⟨4, 3, false⟩, ⟨20, 2, true⟩]
  timers := [(4, 1), (10, 0), (20, 2)]

theorem flush_fires_repeating : ∃ m', (∀ fuel, 3 < fuel → threeTimers.flush fuel 12 (fun _ => true) = some (m', [1, 0])) ∧
    threeTimers.Fires 12 (fun _ => true) m' [1, 0] ∧ machine.Reach Intervals m' := by
  have first : machine.Reach Intervals ⟨[⟨10, 5, true⟩], [(10, 0)]⟩ :=
    .step (a := Event.create ⟨10, 5, true⟩) (.initial rfl) (show 1 ≤ 5 by decide) rfl
  have second : machine.Reach Intervals ⟨[⟨10, 5, true⟩, ⟨4, 3, false⟩], [(4, 1), (10, 0)]⟩ :=
    .step (a := Event.create ⟨4, 3, false⟩) first (show 1 ≤ 3 by decide) rfl
  have third : machine.Reach Intervals threeTimers :=
    .step (a := Event.create ⟨20, 2, true⟩) second (show 1 ≤ 2 by decide) rfl
  obtain ⟨m', ran, ends, fires, reached⟩ := flush_fires threeTimers third 12 fun _ => true
  obtain rfl : [1, 0] = ran := Option.some.inj (congrArg (Option.map Prod.snd) (ends 4 (by decide)))
  exact ⟨m', ends, fires, reached⟩

end

end BerylDB.Timers
