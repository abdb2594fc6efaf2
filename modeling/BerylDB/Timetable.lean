import BerylDB.Keyed
import Mathlib.Data.Int.Notation
import Mathlib.Data.List.Nodup
import Mathlib.Data.List.Perm.Basic

/-! # Lists of named entries in the order of their times -/
namespace Timetable

variable {α κ : Type}

/-- Behind the entries that are not later. -/
def add (time : α → ℤ) (e : α) (l : List α) : List α :=
  l.takeWhile (fun x => time x ≤ time e) ++ e :: l.dropWhile fun x => time x ≤ time e

/-- The first entry of that name goes. -/
def delete [DecidableEq κ] (name : α → κ) (n : κ) (l : List α) : List α := l.eraseP fun x => name x = n

def lookup [DecidableEq κ] (name : α → κ) (n : κ) (l : List α) : Option α := l.find? fun x => name x = n

def Unique (name : α → κ) (l : List α) : Prop := (l.map name).Nodup

variable {time : α → ℤ} {name : α → κ} {l : List α} {e x : α} {n m : κ}

theorem add_perm : (add time e l).Perm (e :: l) := by
  have whole : l.takeWhile (fun x => time x ≤ time e) ++ l.dropWhile (fun x => time x ≤ time e) = l :=
    List.takeWhile_append_dropWhile
  unfold add
  exact List.perm_middle.trans (by rw [whole])

@[simp] theorem mem_add : x ∈ add time e l ↔ x = e ∨ x ∈ l := by
  rw [add_perm.mem_iff, List.mem_cons]

theorem Unique.nil : Unique name ([] : List α) := List.nodup_nil

theorem Unique.add (h : Unique name l) (fresh : ∀ x ∈ l, name x ≠ name e) : Unique name (add time e l) := by
  have names : ((Timetable.add time e l).map name).Perm (name e :: l.map name) := by
    simpa using add_perm.map name
  refine names.nodup_iff.mpr (List.nodup_cons.mpr ⟨fun hmem => ?_, h⟩)
  obtain ⟨x, hx, same⟩ := List.mem_map.mp hmem
  exact fresh x hx same

theorem Unique.filter (h : Unique name l) (p : α → Bool) : Unique name (l.filter p) :=
  (List.filter_sublist.map name).nodup h

theorem Unique.distinct (h : Unique name l) : Keyed.Distinct name l := List.pairwise_map.mp h

variable [DecidableEq κ]

theorem Unique.delete (h : Unique name l) : Unique name (delete name n l) :=
  (List.eraseP_sublist.map name).nodup h

theorem mem_of_mem_delete (h : x ∈ delete name n l) : x ∈ l := List.mem_of_mem_eraseP h

theorem mem_delete_of_ne (h : name x ≠ n) : x ∈ delete name n l ↔ x ∈ l := by
  unfold delete
  exact List.mem_eraseP_of_neg (by simpa using h)

theorem mem_delete (h : Unique name l) : x ∈ delete name n l ↔ x ∈ l ∧ name x ≠ n := h.distinct.mem_eraseP

theorem lookup_some (h : lookup name n l = some e) : e ∈ l ∧ name e = n :=
  ⟨List.mem_of_find?_eq_some h, by simpa using List.find?_some h⟩

theorem lookup_none : lookup name n l = none ↔ ∀ x ∈ l, name x ≠ n := by
  simp [lookup, List.find?_eq_none]

theorem delete_eq_self : delete name n l = l ↔ lookup name n l = none := by
  rw [lookup_none, delete, List.eraseP_eq_self_iff]
  simp

theorem lookup_eq_some (h : Unique name l) : lookup name n l = some e ↔ e ∈ l ∧ name e = n :=
  h.distinct.find?_eq_some_iff

theorem lookup_delete (h : Unique name l) :
    lookup name m (delete name n l) = if m = n then none else lookup name m l := by
  split
  · rename_i same
    exact lookup_none.mpr fun x hx => same ▸ ((mem_delete h).mp hx).2
  · rename_i other
    refine Option.ext fun x => ?_
    rw [lookup_eq_some h.delete, lookup_eq_some h, mem_delete h]
    constructor
    · exact fun ⟨⟨hx, _⟩, hm⟩ => ⟨hx, hm⟩
    · exact fun ⟨hx, hm⟩ => ⟨⟨hx, hm ▸ other⟩, hm⟩

theorem Unique.add_of_lookup (h : Unique name l) (fresh : lookup name (name e) l = none) :
    Unique name (Timetable.add time e l) := h.add (lookup_none.mp fresh)

theorem lookup_add (h : Unique name l) (fresh : lookup name (name e) l = none) :
    lookup name m (add time e l) = if m = name e then some e else lookup name m l := by
  have unique : Unique name (Timetable.add time e l) := h.add_of_lookup fresh
  refine Option.ext fun x => ?_
  rw [lookup_eq_some unique, mem_add]
  split
  · rename_i same
    constructor
    · rintro ⟨rfl | hx, hm⟩
      · rfl
      · exact absurd (hm.trans same) (lookup_none.mp fresh x hx)
    · rintro ⟨⟩
      exact ⟨.inl rfl, same.symm⟩
  · rename_i other
    rw [lookup_eq_some h]
    constructor
    · rintro ⟨rfl | hx, hm⟩
      · exact absurd hm.symm other
      · exact ⟨hx, hm⟩
    · exact fun ⟨hx, hm⟩ => ⟨.inr hx, hm⟩

/-- The entry of that name goes before the new one comes. -/
theorem Unique.replace (h : Unique name l) (time : α → ℤ) (e : α) :
    Unique name (Timetable.add time e (Timetable.delete name (name e) l)) ∧
    ∀ m, lookup name m (Timetable.add time e (Timetable.delete name (name e) l)) =
      if m = name e then some e else lookup name m l := by
  have fresh : lookup name (name e) (Timetable.delete name (name e) l) = none := by simp [lookup_delete h]
  refine ⟨h.delete.add_of_lookup fresh, fun m => ?_⟩
  rw [lookup_add h.delete fresh, lookup_delete h]
  by_cases same : m = name e <;> simp [same]

/-- No entry of that name is there when none has a time after 0, and none is at 0. -/
theorem delete_eq_self_of_late (low : ∀ x ∈ l, 0 ≤ time x) (notZero : (lookup name n l).map time ≠ some 0)
    (late : ¬((lookup name n l).map time).getD (-1) > 0) : delete name n l = l := by
  refine delete_eq_self.mpr ?_
  cases found : lookup name n l with
  | none => rfl
  | some x =>
    have here := low x (lookup_some found).1
    have positive : time x ≠ 0 := fun zero => notZero (by simp [found, zero])
    have passed : ¬time x > 0 := by simpa only [found, Option.map_some, Option.getD_some] using late
    omega

theorem lookup_filter (h : Unique name l) (keeps : κ → Bool) :
    lookup name m (l.filter fun x => keeps (name x)) = if keeps m then lookup name m l else none := by
  refine Option.ext fun x => ?_
  rw [lookup_eq_some (h.filter _), List.mem_filter]
  split
  · rename_i kept
    rw [lookup_eq_some h]
    constructor
    · exact fun ⟨⟨hx, _⟩, hm⟩ => ⟨hx, hm⟩
    · exact fun ⟨hx, hm⟩ => ⟨⟨hx, hm ▸ kept⟩, hm⟩
  · rename_i dropped
    constructor
    · exact fun ⟨⟨_, kept⟩, hm⟩ => absurd (hm ▸ kept) dropped
    · exact fun none => nomatch none

/-- A fold that adds an entry for each row that gives one, when no two entries have one name. -/
theorem foldl_add_perm {σ ρ : Type} (entry : ρ → Option α) (table : σ → List α) (load : σ → ρ → σ) (loads : σ → Prop)
    {rows : List ρ} {s : σ} (skips : ∀ s, loads s → ∀ row ∈ rows, entry row = none → load s row = s)
    (adds : ∀ s, loads s → ∀ row ∈ rows, ∀ e, entry row = some e → lookup name (name e) (table s) = none →
      loads (load s row) ∧ (table (load s row)).Perm (e :: table s))
    (start : loads s) (distinct : Unique name (rows.filterMap entry ++ table s)) :
    (table (rows.foldl load s)).Perm (rows.filterMap entry ++ table s) := by
  induction rows generalizing s with
  | nil => exact List.Perm.refl _
  | cons row rows ih =>
    have skips' := fun s hs row' here => skips s hs row' (List.mem_cons_of_mem _ here)
    have adds' := fun s hs row' here => adds s hs row' (List.mem_cons_of_mem _ here)
    rw [List.foldl_cons]
    cases found : entry row with
    | none =>
      rw [List.filterMap_cons_none found] at distinct ⊢
      rw [skips s start row List.mem_cons_self found]
      exact ih skips' adds' start distinct
    | some e =>
      rw [List.filterMap_cons_some found] at distinct ⊢
      have fresh : lookup name (name e) (table s) = none := by
        refine lookup_none.mpr fun x here same => (List.nodup_cons.mp distinct).1 ?_
        exact List.mem_map.mpr ⟨x, List.mem_append_right _ here, same⟩
      obtain ⟨loaded, added⟩ := adds s start row List.mem_cons_self e found fresh
      have order : (rows.filterMap entry ++ table (load s row)).Perm (e :: (rows.filterMap entry ++ table s)) :=
        (added.append_left _).trans List.perm_middle
      exact (ih skips' adds' loaded ((order.map name).nodup_iff.mpr distinct)).trans order

end Timetable
