import BerylDB.Server

/-! # Differences of maps

`CompareMap` and `CompareMultiMap` of `diff.cpp` against `CompareList` on the keys. -/
namespace BerylDB.Store
open Text

namespace DiffHandler

/-- The inner loop: `found` is set by every key that is not the item. -/
def foundOther (item : Bytes) (list2 : List Bytes) : Bool :=
  list2.foldl (fun found item2 => if item2 ≠ item then true else found) false

/-- The outer loop. -/
def compareKeys (list list2 : List Bytes) : List Bytes :=
  list.foldl (fun result item => if foundOther item list2 then result ++ [item] else result) []

def compareMap (list list2 : MapMap) : List Bytes := compareKeys (list.toList.map (·.1)) (list2.toList.map (·.1))
def compareMultiMap (list list2 : MultiMap) : List Bytes := compareKeys (list.map (·.1)) (list2.map (·.1))

end DiffHandler

open DiffHandler

section
variable {list list2 : List Bytes} {item : Bytes}

theorem foundOther_eq : foundOther item list2 = list2.any fun item2 => item2 ≠ item := by
  have loop (found : Bool) : list2.foldl (fun found item2 => if item2 ≠ item then true else found) found =
      (found || list2.any fun item2 => item2 ≠ item) := by
    induction list2 generalizing found with
    | nil => simp
    | cons item2 list2 ih =>
      rw [List.foldl_cons, ih, List.any_cons]
      by_cases other : item2 = item <;> simp [other]
  exact (loop false).trans (Bool.false_or _)

theorem compareKeys_eq : compareKeys list list2 = Run.compareMap list list2 := by
  have loop (result : List Bytes) :
      list.foldl (fun result item => if foundOther item list2 then result ++ [item] else result) result =
        result ++ Run.compareMap list list2 := by
    induction list generalizing result with
    | nil => simp [Run.compareMap]
    | cons item list ih =>
      rw [List.foldl_cons, ih, foundOther_eq]
      unfold Run.compareMap
      rw [List.filter_cons]
      split <;> simp
  exact loop []

theorem filter_eq_iff {α : Type} {l : List α} {p p' : α → Bool} : l.filter p = l.filter p' ↔ ∀ a ∈ l, p a = p' a := by
  refine ⟨fun same a here => ?_, List.filter_congr⟩
  have left : a ∈ l.filter p ↔ p a = true := by simp [here]
  have right : a ∈ l.filter p' ↔ p' a = true := by simp [here]
  exact Bool.eq_iff_iff.mpr (left.symm.trans (same ▸ right))

/-- A key is kept rightly when it is none of the second list, which has others, or the only one. -/
theorem foundOther_iff : foundOther item list2 = !list2.contains item ↔
    list2 ≠ [] ∧ (item ∈ list2 → ∀ item2 ∈ list2, item2 = item) := by
  rw [foundOther_eq, Bool.eq_iff_iff]
  by_cases here : item ∈ list2
  · have some : list2 ≠ [] := List.ne_nil_of_mem here
    simp [here, some]
  · cases list2 with
    | nil => simp
    | cons item2 list2 =>
      have other : item2 ≠ item := fun same => here (same ▸ List.mem_cons_self)
      simp [here, other]

/-- The second list tells the keys of the first apart: it is not empty, and each of them that it has is its only one. -/
def Separates (list list2 : List Bytes) : Prop :=
  list = [] ∨ list2 ≠ [] ∧ ∀ item ∈ list, item ∈ list2 → ∀ item2 ∈ list2, item2 = item

theorem compareKeys_iff : compareKeys list list2 = Run.compareList list list2 ↔ Separates list list2 := by
  have kept : compareKeys list list2 = list.filter fun item => foundOther item list2 := by
    simp only [compareKeys_eq, Run.compareMap, foundOther_eq]
  rw [kept, Run.compareList, filter_eq_iff, Separates]
  simp only [foundOther_iff]
  cases list with
  | nil => simp
  | cons item list =>
    constructor
    · intro right
      exact .inr ⟨(right item List.mem_cons_self).1, fun item here => (right item here).2⟩
    · rintro (none | ⟨some, only⟩) item here
      · exact absurd none (List.cons_ne_nil _ _)
      · exact ⟨some, only item here⟩

end

/-- The difference of two maps or multimaps is that of their keys if and only if the first is empty, or the second is not
and each key of the first that it has is its only one. -/
theorem map_differences_iff (list list2 : MapMap) (multi multi2 : MultiMap) :
    (compareMap list list2 = Run.compareList (list.toList.map (·.1)) (list2.toList.map (·.1)) ↔
      Separates (list.toList.map (·.1)) (list2.toList.map (·.1))) ∧
    (compareMultiMap multi multi2 = Run.compareList (multi.map (·.1)) (multi2.map (·.1)) ↔
      Separates (multi.map (·.1)) (multi2.map (·.1))) :=
  ⟨compareKeys_iff, compareKeys_iff⟩

/-- The difference of a map with two keys and itself holds both of them, and that with an empty map none. -/
theorem map_differences_itself :
    let map : MapMap := ((∅ : MapMap).insert (lit "a") (lit "1")).insert (lit "b") (lit "2")
    compareMap map map = [lit "a", lit "b"] ∧
      ¬ compareMap map map = Run.compareList (map.toList.map (·.1)) (map.toList.map (·.1)) ∧
      ¬ compareMap map ∅ = Run.compareList (map.toList.map (·.1)) ((∅ : MapMap).toList.map (·.1)) ∧
      ¬ compareMultiMap map.toList map.toList = Run.compareList (map.toList.map (·.1)) (map.toList.map (·.1)) := by
  decide

end BerylDB.Store
