import BerylDB.FlatMaps
import BerylDB.Text
import BerylDB.Transition
import Mathlib.Data.List.Lex

/-! # Log streams

`LogHandler` of `logs.cpp` attaches a stream to the types of a text, and counts how often each stream is attached. -/
namespace BerylDB.Logs
open Text

/-- The address of a `LogStream`. -/
abbrev Stream := ℕ

def streamLess (a b : Stream) : Bool := a < b

def textKey (s : Bytes) : List ℕ := s.map UInt8.toNat

/-- The order of `std::string`. -/
def textLess (a b : Bytes) : Bool := textKey a < textKey b

theorem streamLess_iff (a b : Stream) : streamLess a b = true ↔ id a < id b := decide_eq_true_iff

theorem textLess_iff (a b : Bytes) : textLess a b = true ↔ textKey a < textKey b := decide_eq_true_iff

theorem textKey_injective : Function.Injective textKey := List.map_injective_iff.mpr fun _ _ => UInt8.toNat.inj

structure LogHandler where
  activeStreams : List (Bytes × List Stream)
  allStreams : List (Stream × ℤ)
  generalStreams : List (Stream × List Bytes)
  deleted : List Stream
deriving DecidableEq

namespace LogHandler

def empty : LogHandler := ⟨[], [], [], []⟩

/-- `ActiveStreams[type]`. -/
def streamsOf (h : LogHandler) (type : Bytes) : List Stream :=
  ((FlatMap.find textLess h.activeStreams type).map Prod.snd).getD []

/-- `AllStreams[l]`. -/
def countOf (h : LogHandler) (l : Stream) : ℤ := ((FlatMap.find streamLess h.allStreams l).map Prod.snd).getD 0

def attachType (h : LogHandler) (type : Bytes) (l : Stream) (autoclose : Bool) : LogHandler :=
  { h with
    activeStreams := FlatMap.set textLess h.activeStreams type (h.streamsOf type ++ [l])
    generalStreams := if type = lit "*" ∧ FlatMap.find streamLess h.generalStreams l = none then
      FlatMap.set streamLess h.generalStreams l [] else h.generalStreams
    allStreams := if autoclose then FlatMap.set streamLess h.allStreams l (h.countOf l + 1) else h.allStreams }

/-- The stream that is deleted is the first of all. -/
def deleteStream (h : LogHandler) (l : Stream) : LogHandler :=
  let h := { h with
    activeStreams := h.activeStreams.map fun i : Bytes × List Stream => (i.1, i.2.filter (· ≠ l))
    generalStreams := FlatMap.erase streamLess h.generalStreams l }
  match h.allStreams with
  | [] => h
  | ai :: rest => { h with allStreams := rest, deleted := ai.1 :: h.deleted }

def deleteType (h : LogHandler) (type : Bytes) (l : Stream) : Bool × LogHandler :=
  let h := if type = lit "*" then { h with generalStreams := FlatMap.erase streamLess h.generalStreams l } else h
  match FlatMap.find textLess h.activeStreams type with
  | none => (false, h)
  | some i =>
    if l ∈ i.2 then
      let h := { h with
        activeStreams := if i.2.erase l = [] then FlatMap.erase textLess h.activeStreams type
          else FlatMap.set textLess h.activeStreams type (i.2.erase l) }
      match FlatMap.find streamLess h.allStreams l with
      | none => (true, h)
      | some ai =>
        if ai.2 - 1 < 1 then
          (true, { h with allStreams := FlatMap.erase streamLess h.allStreams l, deleted := l :: h.deleted })
        else (true, { h with allStreams := FlatMap.set streamLess h.allStreams l (ai.2 - 1) })
    else (false, h)

/-- The loop over the exclusions, and whether it returned. -/
def exclude (l : Stream) : LogHandler → (excludes : List Bytes) → Bool × LogHandler
  | h, [] => (false, h)
  | h, i :: excludes => if i = lit "*" then (true, h.deleteStream l) else exclude l (h.deleteType i l).2 excludes

def isExclude (token : Bytes) : Bool := token.head? = some 45

def excludesOf (types : Bytes) : List Bytes := ((spaceTokens types).filter isExclude).map List.tail

def attachTypes (h : LogHandler) (types : Bytes) (l : Stream) (autoclose : Bool) : LogHandler :=
  let h := (spaceTokens types).foldl (fun h token => if isExclude token then h else h.attachType token l autoclose) h
  let (returned, h) := exclude l h (excludesOf types)
  if returned then h
  else
    match FlatMap.find streamLess h.generalStreams l with
    | none => h
    | some _ => { h with generalStreams := FlatMap.set streamLess h.generalStreams l (excludesOf types) }

/-- The streams that `Log` writes to. -/
def log (h : LogHandler) (type : Bytes) : List Stream :=
  ((h.generalStreams.filter fun gi => type ∉ gi.2).map Prod.fst) ++ h.streamsOf type

/-! ## What the books say -/

/-- How often a stream is attached. -/
def occurrences (h : LogHandler) (l : Stream) : ℕ := (h.activeStreams.flatMap Prod.snd).count l

/-- The books after a call for the stream `l`. -/
structure Exact (before : LogHandler) (l : Stream) (h : LogHandler) : Prop where
  live : ∀ x ∈ h.deleted, h.occurrences x = 0 ∧ x ∉ h.generalStreams.map Prod.fst
  counted : ∀ x, h.countOf x = h.occurrences x
  own : ∀ x ∈ h.deleted, x ∈ before.deleted ∨ x = l
  written : ∀ type, ∀ x ∈ h.log type, x ∉ h.deleted

/-- The types that are left of those that are attached, behind the exclusions in front of a `*`. -/
def leftTypes (types : Bytes) : List Bytes :=
  ((spaceTokens types).filter (!isExclude ·)).diff ((excludesOf types).takeWhile (· ≠ lit "*"))

/-- No `-*`, or the stream is the first of all, or it is not attached and there is none. -/
def Removes (h : LogHandler) (types : Bytes) (l : Stream) : Prop :=
  lit "*" ∈ excludesOf types →
    if leftTypes types = [] then h.allStreams = [] else ∀ x ∈ h.allStreams.map Prod.fst, l < x

/-- The books in the middle of a call, with the types that the stream is attached to. -/
structure Attached (before : LogHandler) (l : Stream) (types : List Bytes) (h : LogHandler) : Prop where
  sortedTypes : FlatMap.Sorted textKey (h.activeStreams.map Prod.fst)
  sortedAll : FlatMap.Sorted id (h.allStreams.map Prod.fst)
  sortedGeneral : FlatMap.Sorted id (h.generalStreams.map Prod.fst)
  own : ∀ type, (h.streamsOf type).count l = types.count type
  total : h.occurrences l = types.length
  others : ∀ x ≠ l, h.occurrences x = before.occurrences x
  count : (FlatMap.find streamLess h.allStreams l).map Prod.snd = if types = [] then none else some (types.length : ℤ)
  counts : ∀ x ≠ l, (FlatMap.find streamLess h.allStreams x).map Prod.snd =
    (FlatMap.find streamLess before.allStreams x).map Prod.snd
  general : l ∈ h.generalStreams.map Prod.fst → lit "*" ∈ types
  generals : ∀ x ≠ l, x ∈ h.generalStreams.map Prod.fst → x ∈ before.generalStreams.map Prod.fst
  deleted : h.deleted = before.deleted ∨ types = [] ∧ h.deleted = l :: before.deleted

section
variable {before h : LogHandler} {l x : Stream} {type : Bytes} {types : List Bytes} {streams : List Stream}

theorem occurrences_eq (h : LogHandler) (x : Stream) :
    h.occurrences x = (h.activeStreams.map fun i => i.2.count x).sum := by
  rw [occurrences, List.count_flatMap]
  rfl

theorem find_elim_count (h : LogHandler) (type : Bytes) (x : Stream) :
    (FlatMap.find textLess h.activeStreams type).elim 0 (fun i => i.2.count x) = (h.streamsOf type).count x := by
  rw [streamsOf]
  cases FlatMap.find textLess h.activeStreams type <;> rfl

theorem occurrences_set (h : LogHandler) (type : Bytes) (streams : List Stream) (all : List (Stream × ℤ))
    (general : List (Stream × List Bytes)) (deleted : List Stream) (x : Stream) :
    (LogHandler.mk (FlatMap.set textLess h.activeStreams type streams) all general deleted).occurrences x +
      (h.streamsOf type).count x = h.occurrences x + streams.count x := by
  rw [occurrences_eq, occurrences_eq, ← find_elim_count]
  exact FlatMap.sum_set fun streams : List Stream => streams.count x

theorem occurrences_erase (h : LogHandler) (type : Bytes) (all : List (Stream × ℤ)) (general : List (Stream × List Bytes))
    (deleted : List Stream) (x : Stream) :
    (LogHandler.mk (FlatMap.erase textLess h.activeStreams type) all general deleted).occurrences x +
      (h.streamsOf type).count x = h.occurrences x := by
  rw [occurrences_eq, occurrences_eq, ← find_elim_count]
  exact FlatMap.sum_erase fun streams : List Stream => streams.count x

theorem streamsOf_set (sorted : FlatMap.Sorted textKey (h.activeStreams.map Prod.fst)) (all : List (Stream × ℤ))
    (general : List (Stream × List Bytes)) (deleted : List Stream) (type' : Bytes) :
    (LogHandler.mk (FlatMap.set textLess h.activeStreams type streams) all general deleted).streamsOf type' =
      if type' = type then streams else h.streamsOf type' := by
  rw [streamsOf, FlatMap.find_set textLess_iff sorted]
  by_cases same : type' = type
  · rw [if_pos (congrArg textKey same), if_pos same, Option.getD_some]
  · rw [if_neg (textKey_injective.ne same), if_neg same, streamsOf]

theorem streamsOf_erase (sorted : FlatMap.Sorted textKey (h.activeStreams.map Prod.fst)) (all : List (Stream × ℤ))
    (general : List (Stream × List Bytes)) (deleted : List Stream) (type' : Bytes) :
    (LogHandler.mk (FlatMap.erase textLess h.activeStreams type) all general deleted).streamsOf type' =
      if type' = type then [] else h.streamsOf type' := by
  rw [streamsOf, FlatMap.find_erase textLess_iff sorted]
  by_cases same : type' = type
  · rw [if_pos (congrArg textKey same), if_pos same]
    rfl
  · rw [if_neg (textKey_injective.ne same), if_neg same, streamsOf]

theorem find_all_set {all : List (Stream × ℤ)} (sorted : FlatMap.Sorted id (all.map Prod.fst)) (n : ℤ) (x : Stream) :
    (FlatMap.find streamLess (FlatMap.set streamLess all l n) x).map Prod.snd =
      if x = l then some n else (FlatMap.find streamLess all x).map Prod.snd :=
  FlatMap.find_set streamLess_iff sorted x

/-- One more type is attached. -/
theorem Attached.attachType (a : Attached before l types h) (alive : h.deleted = before.deleted) (type : Bytes) :
    Attached before l (types ++ [type]) (h.attachType type l true) ∧
      (h.attachType type l true).deleted = before.deleted := by
  have more : types ++ [type] ≠ [] := by simp
  have one (x : Stream) : (h.attachType type l true).occurrences x = h.occurrences x + [l].count x := by
    have sum : (h.attachType type l true).occurrences x + (h.streamsOf type).count x =
        h.occurrences x + (h.streamsOf type ++ [l]).count x := occurrences_set h type _ _ _ _ x
    rw [List.count_append] at sum
    omega
  have keys : ∀ x, x ∈ (h.attachType type l true).generalStreams.map Prod.fst →
      x ∈ h.generalStreams.map Prod.fst ∨ x = l ∧ type = lit "*" := by
    intro x hx
    dsimp only [LogHandler.attachType] at hx
    split at hx
    · rename_i new
      exact (FlatMap.fst_set hx).symm.imp_right fun same => ⟨same, new.1⟩
    · exact .inl hx
  have count_all (x : Stream) := find_all_set a.sortedAll (l := l) (h.countOf l + 1) x
  refine ⟨⟨FlatMap.sorted_set textLess_iff a.sortedTypes, FlatMap.sorted_set streamLess_iff a.sortedAll, ?_, fun type' => ?_,
    ?_, fun x other => ?_, ?_, fun x other => ?_, fun listed => ?_, fun x other listed => ?_, .inl alive⟩, alive⟩
  · dsimp only [LogHandler.attachType]
    split
    · exact FlatMap.sorted_set streamLess_iff a.sortedGeneral
    · exact a.sortedGeneral
  · have streams : (h.attachType type l true).streamsOf type' =
        if type' = type then h.streamsOf type ++ [l] else h.streamsOf type' := streamsOf_set a.sortedTypes _ _ _ type'
    rw [streams, List.count_append]
    split
    · rename_i same
      rw [List.count_append, a.own, same, List.count_singleton_self, List.count_singleton_self]
    · rename_i other
      rw [a.own, List.count_singleton, if_neg (by simpa using Ne.symm other), Nat.add_zero]
  · rw [one, a.total, List.count_singleton_self, List.length_append, List.length_singleton]
  · rw [one, a.others x other, List.count_singleton, if_neg (by simpa using Ne.symm other), Nat.add_zero]
  · have counted : h.countOf l = types.length := by
      rw [countOf, a.count]
      split
      · rename_i none
        rw [none]
        rfl
      · rfl
    refine (count_all l).trans ?_
    rw [if_pos rfl, if_neg more, counted, List.length_append]
    rfl
  · refine (count_all x).trans ?_
    rw [if_neg other, a.counts x other]
  · rcases keys l listed with before' | ⟨-, rfl⟩
    · exact List.mem_append_left _ (a.general before')
    · simp
  · rcases keys x listed with before' | ⟨same, -⟩
    · exact a.generals x other before'
    · exact absurd same other

theorem Attached.attachAll (a : Attached before l types h) (alive : h.deleted = before.deleted) (tokens : List Bytes) :
    Attached before l (types ++ tokens.filter (!isExclude ·))
        (tokens.foldl (fun h token => if isExclude token then h else h.attachType token l true) h) ∧
      (tokens.foldl (fun h token => if isExclude token then h else h.attachType token l true) h).deleted =
        before.deleted := by
  induction tokens generalizing types h with
  | nil => simpa using ⟨a, alive⟩
  | cons token tokens ih =>
    rw [List.foldl_cons]
    by_cases exclusion : isExclude token = true
    · rw [if_pos exclusion, List.filter_cons_of_neg (by simp [exclusion])]
      exact ih a alive
    · obtain ⟨a', alive'⟩ := a.attachType alive token
      rw [if_neg exclusion, List.filter_cons_of_pos (by simp [exclusion]), List.append_cons]
      exact ih a' alive'

/-- What is left of the streams of a type without one of them. -/
def without (h : LogHandler) (type : Bytes) (l : Stream) : List (Bytes × List Stream) :=
  if (h.streamsOf type).erase l = [] then FlatMap.erase textLess h.activeStreams type
  else FlatMap.set textLess h.activeStreams type ((h.streamsOf type).erase l)

theorem without_spec (sorted : FlatMap.Sorted textKey (h.activeStreams.map Prod.fst)) (attached : l ∈ h.streamsOf type)
    (all : List (Stream × ℤ)) (general : List (Stream × List Bytes)) (deleted : List Stream) :
    FlatMap.Sorted textKey ((h.without type l).map Prod.fst) ∧
      (∀ type', (LogHandler.mk (h.without type l) all general deleted).streamsOf type' =
        if type' = type then (h.streamsOf type).erase l else h.streamsOf type') ∧
      ∀ x, (LogHandler.mk (h.without type l) all general deleted).occurrences x + [l].count x = h.occurrences x := by
  have parts (x : Stream) : (h.streamsOf type).count x = ((h.streamsOf type).erase l).count x + [l].count x := by
    rw [(List.perm_cons_erase attached).count_eq, List.count_cons, List.count_singleton]
  unfold without
  split
  · rename_i last
    refine ⟨FlatMap.sorted_erase sorted, fun type' => ?_, fun x => ?_⟩
    · rw [last]
      exact streamsOf_erase sorted all general deleted type'
    · have sum := occurrences_erase h type all general deleted x
      rw [parts x, last, List.count_nil] at sum
      omega
  · refine ⟨FlatMap.sorted_set textLess_iff sorted, streamsOf_set sorted all general deleted, fun x => ?_⟩
    have sum := occurrences_set h type ((h.streamsOf type).erase l) all general deleted x
    rw [parts x] at sum
    omega

theorem Attached.find_all (a : Attached before l types h) (nonempty : types ≠ []) :
    ∃ ai, FlatMap.find streamLess h.allStreams l = some ai ∧ ai.2 = types.length := by
  have count := a.count
  rw [if_neg nonempty] at count
  exact Option.map_eq_some_iff.mp count

/-- A type that is excluded is one less. -/
theorem Attached.deleteType (a : Attached before l types h) (type : Bytes) (plain : type ≠ lit "*") :
    Attached before l (types.erase type) (h.deleteType type l).2 := by
  unfold LogHandler.deleteType
  rw [if_neg plain]
  dsimp only
  have idle (absent : l ∉ h.streamsOf type) : Attached before l (types.erase type) h := by
    have missing : type ∉ types := List.count_eq_zero.mp ((a.own type).symm.trans (List.count_eq_zero.mpr absent))
    rwa [List.erase_of_not_mem missing]
  cases found : FlatMap.find textLess h.activeStreams type with
  | none => exact idle (by simp [streamsOf, found])
  | some i =>
    have streams : h.streamsOf type = i.2 := by simp [streamsOf, found]
    dsimp only
    by_cases attached : l ∈ i.2
    · rw [← streams] at attached
      have present : type ∈ types := by
        have := List.count_pos_iff.mpr attached
        rw [a.own] at this
        exact List.count_pos_iff.mp this
      have nonempty : types ≠ [] := List.ne_nil_of_mem present
      have alive : h.deleted = before.deleted := a.deleted.resolve_right fun none => nonempty none.1
      have length := List.length_erase_of_mem present
      have positive := List.length_pos_iff.mpr nonempty
      obtain ⟨ai, hai, count⟩ := a.find_all nonempty
      have rest (all : List (Stream × ℤ)) (deleted : List Stream) (sortedAll : FlatMap.Sorted id (all.map Prod.fst))
          (count : (FlatMap.find streamLess all l).map Prod.snd =
            if types.erase type = [] then none else some ((types.erase type).length : ℤ))
          (counts : ∀ x ≠ l, (FlatMap.find streamLess all x).map Prod.snd =
            (FlatMap.find streamLess h.allStreams x).map Prod.snd)
          (gone : deleted = before.deleted ∨ types.erase type = [] ∧ deleted = l :: before.deleted) :
          Attached before l (types.erase type) ⟨h.without type l, all, h.generalStreams, deleted⟩ := by
        obtain ⟨sorted, streams', sums⟩ := without_spec a.sortedTypes attached all h.generalStreams deleted
        refine ⟨sorted, sortedAll, a.sortedGeneral, fun type' => ?_, ?_, fun x other => ?_, count,
          fun x other => (counts x other).trans (a.counts x other),
          fun listed => (List.mem_erase_of_ne plain.symm).mpr (a.general listed), a.generals, gone⟩
        · rw [streams']
          by_cases same : type' = type
          · rw [if_pos same, same, List.count_erase_self, List.count_erase_self, a.own]
          · rw [if_neg same, List.count_erase_of_ne same, a.own]
        · have sum := sums l
          rw [List.count_singleton_self, a.total] at sum
          omega
        · have sum := sums x
          rw [List.count_singleton, if_neg (by simpa using Ne.symm other), a.others x other] at sum
          exact sum
      rw [if_pos (streams ▸ attached), hai, ← streams]
      dsimp only
      by_cases last : ai.2 - 1 < 1
      · have none : types.erase type = [] := List.length_eq_zero_iff.mp (by omega)
        rw [if_pos last]
        refine rest _ _ (FlatMap.sorted_erase a.sortedAll) ?_ (fun x other => ?_) (.inr ⟨none, by rw [alive]⟩)
        · rw [if_pos none, FlatMap.find_erase streamLess_iff a.sortedAll, if_pos rfl]
          rfl
        · rw [FlatMap.find_erase streamLess_iff a.sortedAll, if_neg (show ¬ id x = id l from other)]
      · have more : types.erase type ≠ [] := fun none => by
          have := List.length_eq_zero_iff.mpr none
          omega
        rw [if_neg last]
        refine rest _ _ (FlatMap.sorted_set streamLess_iff a.sortedAll) ?_ (fun x other => ?_) (.inl alive)
        · rw [find_all_set a.sortedAll, if_pos rfl, if_neg more, Option.some_inj]
          omega
        · rw [find_all_set a.sortedAll, if_neg other]
    · rw [if_neg attached]
      exact idle (streams ▸ attached)

theorem Attached.exclude (a : Attached before l types h) (excludes : List Bytes) :
    ∃ h', Attached before l (types.diff (excludes.takeWhile (· ≠ lit "*"))) h' ∧
      LogHandler.exclude l h excludes = if lit "*" ∈ excludes then (true, h'.deleteStream l) else (false, h') := by
  induction excludes generalizing types h with
  | nil => exact ⟨h, a, rfl⟩
  | cons i excludes ih =>
    rw [LogHandler.exclude]
    by_cases all : i = lit "*"
    · rw [if_pos all, List.takeWhile_cons_of_neg (by simpa using all)]
      exact ⟨h, a, (if_pos (by simp [all])).symm⟩
    · obtain ⟨h', a', run⟩ := ih (a.deleteType i all)
      rw [if_neg all, List.takeWhile_cons_of_pos (by simpa using all), List.diff_cons, run]
      exact ⟨h', a', by simp only [List.mem_cons, Ne.symm all, false_or]⟩

/-- The books between the calls. -/
structure Steady (h : LogHandler) : Prop where
  sortedTypes : FlatMap.Sorted textKey (h.activeStreams.map Prod.fst)
  sortedAll : FlatMap.Sorted id (h.allStreams.map Prod.fst)
  sortedGeneral : FlatMap.Sorted id (h.generalStreams.map Prod.fst)
  live : ∀ x ∈ h.deleted, h.occurrences x = 0 ∧ x ∉ h.generalStreams.map Prod.fst
  counted : ∀ x, h.countOf x = h.occurrences x
  positive : ∀ ai ∈ h.allStreams, 1 ≤ ai.2

/-- A stream that was not there before. -/
structure Fresh (h : LogHandler) (l : Stream) : Prop where
  unattached : h.occurrences l = 0
  unlisted : l ∉ h.generalStreams.map Prod.fst
  alive : l ∉ h.deleted

theorem count_streamsOf_le (h : LogHandler) (type : Bytes) (x : Stream) : (h.streamsOf type).count x ≤ h.occurrences x := by
  have sum := occurrences_erase h type h.allStreams h.generalStreams h.deleted x
  omega

theorem Steady.find_some (s : Steady h) {ai : Stream × ℤ} (listed : ai ∈ h.allStreams) :
    FlatMap.find streamLess h.allStreams ai.1 = some ai :=
  (FlatMap.find_eq_some streamLess_iff s.sortedAll).mpr ⟨listed, rfl⟩

theorem Steady.attached (s : Steady h) {ai : Stream × ℤ} (listed : ai ∈ h.allStreams) : 1 ≤ h.occurrences ai.1 := by
  have counted := s.counted ai.1
  have positive := s.positive ai listed
  rw [countOf, s.find_some listed] at counted
  dsimp only [Option.map_some, Option.getD_some] at counted
  omega

theorem Steady.find_none (s : Steady h) (fresh : h.occurrences l = 0) : FlatMap.find streamLess h.allStreams l = none := by
  cases found : FlatMap.find streamLess h.allStreams l with
  | none => rfl
  | some ai =>
    obtain ⟨listed, same⟩ := (FlatMap.find_eq_some streamLess_iff s.sortedAll).mp found
    have attached := s.attached listed
    rw [show ai.1 = l from same] at attached
    omega

theorem Steady.start (s : Steady h) (fresh : Fresh h l) : Attached h l [] h := by
  refine ⟨s.sortedTypes, s.sortedAll, s.sortedGeneral, fun type => ?_, fresh.unattached, fun _ _ => rfl, ?_, fun _ _ => rfl,
    fun listed => absurd listed fresh.unlisted, fun _ _ listed => listed, .inl rfl⟩
  · have := count_streamsOf_le h type l
    rw [fresh.unattached] at this
    rw [List.count_nil]
    omega
  · rw [s.find_none fresh.unattached]
    rfl

/-- What a call does up to the exclusion of all types. -/
theorem Steady.attachTypes (s : Steady h) (fresh : Fresh h l) (types : Bytes) : ∃ h', Attached h l (leftTypes types) h' ∧
    h.attachTypes types l true = if lit "*" ∈ excludesOf types then h'.deleteStream l
      else match FlatMap.find streamLess h'.generalStreams l with
        | none => h'
        | some _ => { h' with generalStreams := FlatMap.set streamLess h'.generalStreams l (excludesOf types) } := by
  obtain ⟨a, -⟩ := (s.start fresh).attachAll rfl (spaceTokens types)
  obtain ⟨h', a', run⟩ := a.exclude (excludesOf types)
  refine ⟨h', a', ?_⟩
  unfold LogHandler.attachTypes
  dsimp only
  rw [run]
  by_cases all : lit "*" ∈ excludesOf types
  · simp [all]
  · simp [all]

/-- What is written to is not deleted. -/
theorem written_of_live (live : ∀ x ∈ h.deleted, h.occurrences x = 0 ∧ x ∉ h.generalStreams.map Prod.fst) (type : Bytes)
    (written : x ∈ h.log type) : x ∉ h.deleted := by
  intro dead
  obtain ⟨unattached, unlisted⟩ := live x dead
  rcases List.mem_append.mp written with general | active
  · obtain ⟨gi, hgi, rfl⟩ := List.mem_map.mp general
    exact unlisted (List.mem_map_of_mem (List.mem_filter.mp hgi).1)
  · have attached := List.count_pos_iff.mpr active
    have := count_streamsOf_le h type x
    omega

theorem Steady.exact (s : Steady h) (own : ∀ x ∈ h.deleted, x ∈ before.deleted ∨ x = l) : Exact before l h :=
  ⟨s.live, s.counted, own, fun type _ => written_of_live s.live type⟩

theorem Attached.countOf_eq (a : Attached before l types h) (s : Steady before) (x : Stream) :
    h.countOf x = h.occurrences x := by
  rcases eq_or_ne x l with rfl | other
  · rw [countOf, a.count, a.total]
    split
    · rename_i none
      rw [none]
      rfl
    · rfl
  · rw [countOf, a.counts x other, a.others x other]
    exact s.counted x

theorem Attached.positive (a : Attached before l types h) (s : Steady before) : ∀ ai ∈ h.allStreams, 1 ≤ ai.2 := by
  intro ai listed
  have found := (FlatMap.find_eq_some streamLess_iff a.sortedAll).mpr ⟨listed, rfl⟩
  rcases eq_or_ne ai.1 l with same | other
  · have count := a.count
    rw [← same, found] at count
    split at count
    · cases count
    · rename_i nonempty
      have := List.length_pos_iff.mpr nonempty
      have := Option.some.inj count
      omega
  · have counts := a.counts ai.1 other
    rw [found] at counts
    obtain ⟨ai', found', same⟩ := Option.map_eq_some_iff.mp counts.symm
    have := s.positive ai' ((FlatMap.find_eq_some streamLess_iff s.sortedAll).mp found').1
    rwa [same] at this

theorem Attached.live (a : Attached before l types h) (s : Steady before) (fresh : Fresh before l) :
    ∀ x ∈ h.deleted, h.occurrences x = 0 ∧ x ∉ h.generalStreams.map Prod.fst := by
  have old (x : Stream) (dead : x ∈ before.deleted) : h.occurrences x = 0 ∧ x ∉ h.generalStreams.map Prod.fst := by
    have other : x ≠ l := ne_of_mem_of_not_mem dead fresh.alive
    obtain ⟨unattached, unlisted⟩ := s.live x dead
    exact ⟨(a.others x other).trans unattached, fun listed => unlisted (a.generals x other listed)⟩
  intro x dead
  rcases a.deleted with same | ⟨rfl, same⟩
  · exact old x (same ▸ dead)
  · rw [same] at dead
    rcases List.mem_cons.mp dead with rfl | dead
    · exact ⟨a.total, fun listed => List.not_mem_nil (a.general listed)⟩
    · exact old x dead

theorem Attached.steady (a : Attached before l types h) (s : Steady before) (fresh : Fresh before l) : Steady h :=
  ⟨a.sortedTypes, a.sortedAll, a.sortedGeneral, a.live s fresh, a.countOf_eq s, a.positive s⟩

theorem Attached.deletes_own (a : Attached before l types h) : ∀ x ∈ h.deleted, x ∈ before.deleted ∨ x = l := by
  intro x dead
  rcases a.deleted with same | ⟨-, same⟩
  · exact .inl (same ▸ dead)
  · rw [same] at dead
    exact (List.mem_cons.mp dead).symm

/-- The exclusions of a general stream are kept with it. -/
theorem Steady.swap (s : Steady h) (listed : l ∈ h.generalStreams.map Prod.fst) (excludes : List Bytes) :
    Steady { h with generalStreams := FlatMap.set streamLess h.generalStreams l excludes } := by
  refine ⟨s.sortedTypes, s.sortedAll, FlatMap.sorted_set streamLess_iff s.sortedGeneral, fun x dead => ?_, s.counted,
    s.positive⟩
  obtain ⟨unattached, unlisted⟩ := s.live x dead
  refine ⟨unattached, fun listed' => unlisted ?_⟩
  rcases FlatMap.fst_set listed' with rfl | old
  · exact listed
  · exact old

/-- Without an exclusion of all types the books stay exact. -/
theorem Steady.attachTypes_kept (s : Steady h) (fresh : Fresh h l) (types : Bytes) (plain : lit "*" ∉ excludesOf types) :
    Steady (h.attachTypes types l true) ∧ Exact h l (h.attachTypes types l true) := by
  obtain ⟨h', a, run⟩ := s.attachTypes fresh types
  rw [run, if_neg plain]
  have steady := a.steady s fresh
  cases found : FlatMap.find streamLess h'.generalStreams l with
  | none => exact ⟨steady, steady.exact a.deletes_own⟩
  | some gi =>
    obtain ⟨listed, same⟩ := (FlatMap.find_eq_some streamLess_iff a.sortedGeneral).mp found
    have key : gi.1 ∈ h'.generalStreams.map Prod.fst := List.mem_map_of_mem listed
    rw [show gi.1 = l from same] at key
    have swapped := steady.swap key (excludesOf types)
    exact ⟨swapped, swapped.exact a.deletes_own⟩

theorem occurrences_deleteStream (h : LogHandler) (l x : Stream) :
    (h.deleteStream l).occurrences x = if x = l then 0 else h.occurrences x := by
  have streams : (h.deleteStream l).activeStreams.flatMap Prod.snd = (h.activeStreams.flatMap Prod.snd).filter (· ≠ l) := by
    have active : (h.deleteStream l).activeStreams = h.activeStreams.map fun i => (i.1, i.2.filter (· ≠ l)) := by
      unfold deleteStream
      dsimp only
      split <;> rfl
    rw [active, List.flatMap_map, List.filter_flatMap]
  rw [occurrences, streams]
  split
  · rename_i same
    exact List.count_eq_zero.mpr fun found => by simpa [same] using (List.mem_filter.mp found).2
  · rename_i other
    exact List.count_filter (by simpa using other)

/-- What is left of a handler when a stream is removed, and the first of all is deleted. -/
theorem deleteStream_eq (h : LogHandler) (l : Stream) :
    (h.deleteStream l).generalStreams = FlatMap.erase streamLess h.generalStreams l ∧
      (h.deleteStream l).activeStreams.map Prod.fst = h.activeStreams.map Prod.fst ∧
      (h.deleteStream l).allStreams = h.allStreams.tail ∧
        (h.deleteStream l).deleted = (h.allStreams.head?.map Prod.fst).toList ++ h.deleted := by
  unfold deleteStream
  cases h.allStreams <;> simp [Function.comp_def]

/-- The first of all streams is the one of the call. -/
theorem Attached.first_iff (a : Attached before l types h) (s : Steady before) (fresh : Fresh before l) :
    (∀ ai ∈ h.allStreams.head?, ai.1 = l) ↔
      if types = [] then before.allStreams = [] else ∀ x ∈ before.allStreams.map Prod.fst, l < x := by
  have unknown : FlatMap.find streamLess before.allStreams l = none := s.find_none fresh.unattached
  have keys {x : Stream} (other : x ≠ l) : x ∈ h.allStreams.map Prod.fst ↔ x ∈ before.allStreams.map Prod.fst := by
    rw [FlatMap.mem_keys_iff streamLess_iff a.sortedAll Function.injective_id,
      FlatMap.mem_keys_iff streamLess_iff s.sortedAll Function.injective_id]
    have same := congrArg Option.isSome (a.counts x other)
    simpa using same
  have newcomer : l ∉ before.allStreams.map Prod.fst := by
    rw [FlatMap.mem_keys_iff streamLess_iff s.sortedAll Function.injective_id, unknown]
    exact Bool.false_ne_true
  have member : l ∈ h.allStreams.map Prod.fst ↔ types ≠ [] := by
    rw [FlatMap.mem_keys_iff streamLess_iff a.sortedAll Function.injective_id, ← Option.isSome_map, a.count]
    split <;> simp_all
  have sorted := a.sortedAll
  cases hall : h.allStreams with
  | nil =>
    rw [hall] at keys member
    have none : types = [] := by simpa using member
    rw [if_pos none]
    have unlisted : before.allStreams.map Prod.fst = [] := List.eq_nil_iff_forall_not_mem.mpr fun x hx =>
      absurd ((keys (ne_of_mem_of_not_mem hx newcomer)).mpr hx) (by simp)
    exact iff_of_true (by simp) (List.map_eq_nil_iff.mp unlisted)
  | cons ai rest =>
    rw [hall] at keys member sorted
    have first : ∀ x ∈ rest.map Prod.fst, ai.1 < x := (List.pairwise_cons.mp sorted).1
    simp only [List.head?_cons, Option.mem_some_iff, forall_eq']
    constructor
    · intro same
      have nonempty : types ≠ [] := member.mp (by simp [same])
      rw [if_neg nonempty]
      intro x hx
      have other : x ≠ l := ne_of_mem_of_not_mem hx newcomer
      rcases List.mem_cons.mp ((keys other).mpr hx) with rfl | later
      · exact absurd same other
      · exact same ▸ first x later
    · intro condition
      by_contra other
      have known := (keys other).mp (List.mem_cons_self ..)
      split at condition
      · rw [condition] at known
        exact List.not_mem_nil known
      · rename_i nonempty
        have less := condition ai.1 known
        rcases List.mem_cons.mp (member.mpr nonempty) with same | later
        · exact other same.symm
        · exact absurd (first l later) less.not_gt

theorem Steady.deleteStream (s : Steady h) (removes : ∀ ai ∈ h.allStreams.head?, ai.1 = l) : Steady (h.deleteStream l) := by
  obtain ⟨general, active, tail, dead⟩ := deleteStream_eq h l
  have counts (x : Stream) : FlatMap.find streamLess h.allStreams.tail x =
      if x = l then none else FlatMap.find streamLess h.allStreams x := by
    have sorted := s.sortedAll
    cases hall : h.allStreams with
    | nil => simp [FlatMap.find]
    | cons ai rest =>
      rw [hall] at sorted
      have first : ai.1 = l := removes ai (by rw [hall]; rfl)
      rw [List.tail_cons, FlatMap.find_cons streamLess_iff sorted, ← first]
      by_cases same : x = ai.1
      · rw [if_pos same]
        exact (FlatMap.find_eq_none streamLess_iff (List.pairwise_cons.mp sorted).2).mpr fun d hd =>
          same ▸ ((List.pairwise_cons.mp sorted).1 d.1 (List.mem_map_of_mem hd)).ne'
      · rw [if_neg same, if_neg (show ¬ id ai.1 = id x from Ne.symm same)]
  have kept {x : Stream} (listed : x ∈ (h.deleteStream l).generalStreams.map Prod.fst) :
      x ≠ l ∧ x ∈ h.generalStreams.map Prod.fst := by
    rw [general] at listed
    refine ⟨fun same => ?_, (FlatMap.erase_sublist.map Prod.fst).subset listed⟩
    rw [FlatMap.mem_keys_iff streamLess_iff (FlatMap.sorted_erase s.sortedGeneral) Function.injective_id,
      FlatMap.find_erase streamLess_iff s.sortedGeneral, if_pos (congrArg id same)] at listed
    cases listed
  refine ⟨active ▸ s.sortedTypes, ?_, general ▸ FlatMap.sorted_erase s.sortedGeneral, fun x hx => ?_, fun x => ?_, ?_⟩
  · rw [tail]
    exact s.sortedAll.sublist ((List.tail_sublist _).map _)
  · have gone : x = l ∨ x ∈ h.deleted := by
      rw [dead] at hx
      refine (List.mem_append.mp hx).imp_left fun first => ?_
      obtain ⟨ai, hai, rfl⟩ := Option.map_eq_some_iff.mp (Option.mem_toList.mp first)
      exact removes ai hai
    rw [occurrences_deleteStream]
    refine ⟨?_, fun listed => ?_⟩
    · split
      · rfl
      · exact (s.live x (gone.resolve_left ‹_›)).1
    · obtain ⟨other, listed⟩ := kept listed
      exact (s.live x (gone.resolve_left other)).2 listed
  · rw [countOf, tail, counts, occurrences_deleteStream]
    split
    · rfl
    · exact s.counted x
  · rw [tail]
    exact fun ai hai => s.positive ai (List.mem_of_mem_tail hai)

/-- An exclusion of all types keeps the books exact if and only if it removes the stream of the call. -/
theorem Steady.attachTypes_removed (s : Steady h) (fresh : Fresh h l) (types : Bytes) (all : lit "*" ∈ excludesOf types) :
    (Exact h l (h.attachTypes types l true) ↔ Removes h types l) ∧
      (Removes h types l → Steady (h.attachTypes types l true)) := by
  obtain ⟨h', a, run⟩ := s.attachTypes fresh types
  have steady' := a.steady s fresh
  have first := a.first_iff s fresh
  obtain ⟨-, -, -, dead⟩ := deleteStream_eq h' l
  rw [run, if_pos all]
  have condition : Removes h types l ↔ ∀ ai ∈ h'.allStreams.head?, ai.1 = l := by
    rw [first]
    exact ⟨fun removes => removes all, fun removes _ => removes⟩
  have steady (removes : ∀ ai ∈ h'.allStreams.head?, ai.1 = l) : Steady (h'.deleteStream l) :=
    steady'.deleteStream removes
  rw [condition]
  refine ⟨⟨fun exact ai hai => ?_, fun removes => (steady removes).exact fun x hx => ?_⟩, steady⟩
  · have gone : ai.1 ∈ (h'.deleteStream l).deleted := by
      rw [dead, Option.mem_def.mp hai]
      exact List.mem_cons_self ..
    refine (exact.own ai.1 gone).resolve_left fun earlier => ?_
    have other : ai.1 ≠ l := ne_of_mem_of_not_mem earlier fresh.alive
    have attached := steady'.attached (List.mem_of_mem_head? hai)
    rw [a.others ai.1 other, (s.live ai.1 earlier).1] at attached
    omega
  · rw [dead] at hx
    rcases List.mem_append.mp hx with first' | before'
    · obtain ⟨ai, hai, rfl⟩ := Option.map_eq_some_iff.mp (Option.mem_toList.mp first')
      exact .inr (removes ai hai)
    · exact a.deletes_own x before'

/-- A call keeps the books exact if and only if it removes no other stream. -/
theorem Steady.attachTypes_iff (s : Steady h) (fresh : Fresh h l) (types : Bytes) :
    (Exact h l (h.attachTypes types l true) ↔ Removes h types l) ∧
      (Removes h types l → Steady (h.attachTypes types l true)) := by
  by_cases all : lit "*" ∈ excludesOf types
  · exact s.attachTypes_removed fresh types all
  · obtain ⟨steady, exact⟩ := s.attachTypes_kept fresh types all
    exact ⟨iff_of_true exact fun h => absurd h all, fun _ => steady⟩

/-- A stream that was not there is not there behind the call for another one. -/
theorem Fresh.attachTypes (fresh' : Fresh h x) (s : Steady h) (fresh : Fresh h l) (other : x ≠ l) (types : Bytes)
    (exact : Exact h l (h.attachTypes types l true)) : Fresh (h.attachTypes types l true) x := by
  refine ⟨?_, fun listed => ?_, fun dead => ?_⟩
  · obtain ⟨h', a, run⟩ := s.attachTypes fresh types
    have unattached : h'.occurrences x = 0 := (a.others x other).trans fresh'.unattached
    rw [run]
    split
    · rw [occurrences_deleteStream, if_neg other, unattached]
    · split
      · exact unattached
      · exact unattached
  · obtain ⟨h', a, run⟩ := s.attachTypes fresh types
    have unlisted : x ∉ h'.generalStreams.map Prod.fst := fun listed' => fresh'.unlisted (a.generals x other listed')
    rw [run] at listed
    split at listed
    · rw [(deleteStream_eq h' l).1] at listed
      exact unlisted ((FlatMap.erase_sublist.map Prod.fst).subset listed)
    · split at listed
      · exact unlisted listed
      · exact (FlatMap.fst_set listed).elim other unlisted
  · exact (exact.own x dead).elim fresh'.alive other

theorem steady_empty : Steady empty := by
  refine ⟨.nil, .nil, .nil, ?_, ?_, ?_⟩ <;> simp [empty, countOf, occurrences, FlatMap.find]

end

/-- One call of `AttachTypes` for a stream that is closed with the handler. -/
def attach (h : LogHandler) (call : Bytes × Stream) : LogHandler := h.attachTypes call.1 call.2 true

/-- The books in front of the calls to come. -/
structure Ahead (h : LogHandler) (calls : List (Bytes × Stream)) : Prop where
  steady : Steady h
  fresh : ∀ call ∈ calls, Fresh h call.2
  distinct : (calls.map Prod.snd).Nodup

theorem Ahead.judges {h : LogHandler} {call : Bytes × Stream} {calls : List (Bytes × Stream)} (a : Ahead h (call :: calls)) :
    Exact h call.2 (attach h call) ↔ Removes h call.1 call.2 :=
  (a.steady.attachTypes_iff (a.fresh call (List.mem_cons_self ..)) call.1).1

theorem Ahead.attach {h : LogHandler} {call : Bytes × Stream} {calls : List (Bytes × Stream)} (a : Ahead h (call :: calls))
    (removes : Removes h call.1 call.2) : Ahead (attach h call) calls := by
  obtain ⟨later, distinct⟩ := List.nodup_cons.mp a.distinct
  have own := a.fresh call (List.mem_cons_self ..)
  obtain ⟨exact, keeps⟩ := a.steady.attachTypes_iff own call.1
  refine ⟨keeps removes, fun other hother => ?_, distinct⟩
  have differs : other.2 ≠ call.2 := fun same => later (same ▸ List.mem_map_of_mem hother)
  exact (a.fresh other (List.mem_cons_of_mem _ hother)).attachTypes a.steady own differs call.1 (exact.mpr removes)

/-- Behind every call the books are exact, if and only if no call removes another stream than its own. -/
theorem attachTypes_exact_iff (calls : List (Bytes × Stream)) (distinct : (calls.map Prod.snd).Nodup) :
    (∀ past call, past ++ [call] <+: calls →
        Exact (past.foldl attach empty) call.2 (attach (past.foldl attach empty) call)) ↔
      ∀ past call, past ++ [call] <+: calls → Removes (past.foldl attach empty) call.1 call.2 := by
  have exact_iff : Transition.Along attach (fun h call => Exact h call.2 (attach h call)) empty calls ↔
      ∀ past call, past ++ [call] <+: calls →
        Exact (past.foldl attach empty) call.2 (attach (past.foldl attach empty) call) :=
    Transition.along_iff
  have removes_iff : Transition.Along attach (fun h call => Removes h call.1 call.2) empty calls ↔
      ∀ past call, past ++ [call] <+: calls → Removes (past.foldl attach empty) call.1 call.2 := Transition.along_iff
  have start : Ahead empty calls := ⟨steady_empty, fun _ _ => ⟨rfl, List.not_mem_nil, List.not_mem_nil⟩, distinct⟩
  rw [← exact_iff, ← removes_iff]
  exact Transition.along_congr (fun _ _ _ => Ahead.judges) (fun _ _ _ => Ahead.attach) calls start

theorem attachTypes_exact_pair : Exact empty 1 (attach empty (lit "A A", 1)) ∧
    Exact (attach empty (lit "A A", 1)) 2 (attach (attach empty (lit "A A", 1)) (lit "* -B -A C", 2)) := by
  have plain : lit "*" ∉ excludesOf (lit "A A") ∧ lit "*" ∉ excludesOf (lit "* -B -A C") := by decide +kernel
  have along : Transition.Along attach (fun h call => Removes h call.1 call.2) empty
      [(lit "A A", 1), (lit "* -B -A C", 2)] :=
    ⟨fun all => absurd all plain.1, fun all => absurd all plain.2, trivial⟩
  have exact := (attachTypes_exact_iff [(lit "A A", 1), (lit "* -B -A C", 2)] (by decide)).mpr
    (Transition.along_iff.mp along)
  exact ⟨exact [] (lit "A A", 1) (by simp), exact [(lit "A A", 1)] (lit "* -B -A C", 2) (List.prefix_refl _)⟩

theorem first_stream_is_deleted : ¬ ∀ calls : List (Bytes × Stream), (calls.map Prod.snd).Nodup →
    ∀ past call, past ++ [call] <+: calls →
      Exact (past.foldl attach empty) call.2 (attach (past.foldl attach empty) call) := by
  intro claimed
  have exact := claimed [(lit "A", 1), (lit "A -*", 2)] (by decide) [(lit "A", 1)] (lit "A -*", 2) (List.prefix_refl _)
  have deleted : (attach (attach empty (lit "A", 1)) (lit "A -*", 2)).deleted = [1] := by decide +kernel
  have own := exact.own 1 (by
    dsimp only [List.foldl_cons, List.foldl_nil]
    rw [deleted]
    exact List.mem_singleton_self 1)
  exact absurd own (by decide +kernel)

end LogHandler

end BerylDB.Logs
