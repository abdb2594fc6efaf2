import BerylDB.Timetable

/-! # The order of a timetable, and several entries of one name -/
namespace Timetable

variable {α κ : Type} {time : α → ℤ} {name : α → κ} {l : List α} {e x : α} {n m : κ}

def Sorted (time : α → ℤ) (l : List α) : Prop := l.Pairwise fun a b => time a ≤ time b

theorem Sorted.nil : Sorted time ([] : List α) := List.Pairwise.nil

theorem Sorted.sublist {l' : List α} (h : Sorted time l) (sub : l'.Sublist l) : Sorted time l' :=
  List.Pairwise.sublist sub h

theorem add_cons (y : α) :
    add time e (y :: l) = if time y ≤ time e then y :: add time e l else e :: y :: l := by
  unfold add
  split <;> simp [*]

theorem Sorted.add (h : Sorted time l) : Sorted time (Timetable.add time e l) := by
  induction l with
  | nil => simp [Timetable.add, Sorted]
  | cons y l ih =>
    obtain ⟨first, rest⟩ := List.pairwise_cons.mp h
    rw [add_cons]
    split
    · rename_i early
      refine List.pairwise_cons.mpr ⟨fun x hx => ?_, ih rest⟩
      rcases mem_add.mp hx with rfl | hx
      · exact early
      · exact first x hx
    · rename_i late
      refine List.pairwise_cons.mpr ⟨fun x hx => ?_, h⟩
      rcases List.mem_cons.mp hx with rfl | hx
      · omega
      · have := first x hx
        omega

/-- Behind the entries up to a time all are later. -/
theorem Sorted.late_of_dropWhile (h : Sorted time l) {now : ℤ} : ∀ x ∈ l.dropWhile (fun x => time x ≤ now), now < time x := by
  induction l with
  | nil => simp
  | cons y l ih =>
    obtain ⟨first, rest⟩ := List.pairwise_cons.mp h
    by_cases early : time y ≤ now
    · rw [List.dropWhile_cons_of_pos (by simpa using early)]
      exact ih rest
    · rw [List.dropWhile_cons_of_neg (by simpa using early)]
      intro x hx
      rcases List.mem_cons.mp hx with rfl | hx
      · omega
      · have := first x hx
        omega

variable [DecidableEq κ]

theorem Sorted.delete (h : Sorted time l) : Sorted time (Timetable.delete name n l) := h.sublist List.eraseP_sublist

theorem lookup_cons (y : α) : lookup name n (y :: l) = if name y = n then some y else lookup name n l := by
  unfold lookup
  rw [List.find?_cons]
  by_cases own : name y = n <;> simp [own]

theorem lookup_add_other (other : m ≠ name e) : lookup name m (add time e l) = lookup name m l := by
  induction l with
  | nil => simp [add, lookup, Ne.symm other]
  | cons y l ih =>
    rw [add_cons]
    split
    · rw [lookup_cons, lookup_cons, ih]
    · rw [lookup_cons, if_neg (Ne.symm other)]

/-- The first entry of the name is the new one, unless one that is not later stands before it. -/
theorem lookup_add_self (sorted : Sorted time l) : lookup name (name e) (add time e l) =
    match lookup name (name e) l with
    | some x => if time x ≤ time e then some x else some e
    | none => some e := by
  induction l with
  | nil => simp [add, lookup]
  | cons y l ih =>
    obtain ⟨first, rest⟩ := List.pairwise_cons.mp sorted
    rw [add_cons]
    by_cases early : time y ≤ time e
    · rw [if_pos early, lookup_cons, lookup_cons, ih rest]
      by_cases own : name y = name e <;> simp [own, early]
    · rw [if_neg early, lookup_cons, if_pos rfl]
      cases found : lookup name (name e) (y :: l) with
      | none => rfl
      | some x =>
        have late : time y ≤ time x := by
          rcases List.mem_cons.mp (lookup_some found).1 with rfl | hx
          · exact Int.le_refl _
          · exact first x hx
        have after : ¬time x ≤ time e := by omega
        simp [after]

/-- The first time of the name is the new one if and only if no entry of the name is earlier. -/
theorem time_add_self (sorted : Sorted time l) : (lookup name (name e) (add time e l)).map time = some (time e) ↔
    ∀ x ∈ lookup name (name e) l, time e ≤ time x := by
  rw [lookup_add_self sorted]
  cases lookup name (name e) l with
  | none => simp
  | some x =>
    by_cases early : time x ≤ time e
    · simp only [if_pos early, Option.map_some, Option.some.injEq, Option.mem_def, forall_eq']
      omega
    · simp only [if_neg early, Option.map_some, Option.mem_def, Option.some.injEq, forall_eq', true_iff]
      omega

/-! ## All entries of one name -/

def named (name : α → κ) (n : κ) (l : List α) : List α := l.filter fun x => name x = n

theorem head?_named : (named name n l).head? = lookup name n l := List.head?_filter

theorem named_cons (y : α) : named name n (y :: l) = if name y = n then y :: named name n l else named name n l := by
  unfold named
  rw [List.filter_cons]
  simp

theorem named_delete : named name m (delete name n l) = if m = n then (named name n l).tail else named name m l := by
  induction l with
  | nil => simp [delete, named]
  | cons y l ih =>
    unfold delete at ih ⊢
    by_cases own : name y = n
    · rw [List.eraseP_cons_of_pos (by simpa using own), named_cons, named_cons, if_pos own]
      by_cases same : m = n
      · simp [same]
      · simp [same, own, Ne.symm same]
    · rw [List.eraseP_cons_of_neg (by simpa using own), named_cons, named_cons, named_cons, ih]
      by_cases same : m = n
      · simp [same, own]
      · simp [same]

theorem lookup_delete_other (other : m ≠ n) : lookup name m (delete name n l) = lookup name m l := by
  rw [← head?_named, named_delete, if_neg other, head?_named]

theorem mem_named : x ∈ named name n l ↔ x ∈ l ∧ name x = n := by simp [named]

theorem countP_named (p : α → Bool) :
    (l.filter p).countP (fun x => name x = n) = ((named name n l).filter p).length := by
  rw [List.countP_filter, List.countP_eq_length_filter, named, List.filter_filter]
  congr 1
  exact List.filter_congr fun x _ => Bool.and_comm _ _

/-- Deleting a name leaves the entries of other kinds as they are, in their order. -/
theorem filter_delete_other {p : α → Bool} (other : ∀ x, name x = n → p x = false) :
    (delete name n l).filter p = l.filter p := by
  induction l with
  | nil => rfl
  | cons y l ih =>
    unfold delete at ih ⊢
    by_cases own : name y = n
    · rw [List.eraseP_cons_of_pos (by simpa using own), List.filter_cons_of_neg (by simp [other y own])]
    · rw [List.eraseP_cons_of_neg (by simpa using own), List.filter_cons, List.filter_cons, ih]

omit [DecidableEq κ] in
theorem filter_add_other {p : α → Bool} (other : p e = false) : (add time e l).filter p = l.filter p := by
  have whole : l.takeWhile (fun x => time x ≤ time e) ++ l.dropWhile (fun x => time x ≤ time e) = l :=
    List.takeWhile_append_dropWhile
  unfold add
  rw [List.filter_append, List.filter_cons_of_neg (by simp [other]), ← List.filter_append, whole]

theorem named_add_other (other : m ≠ name e) : named name m (add time e l) = named name m l := by
  induction l with
  | nil => simp [add, named, Ne.symm other]
  | cons y l ih =>
    rw [add_cons]
    split
    · rw [named_cons, named_cons, ih]
    · rw [named_cons, if_neg (Ne.symm other)]

theorem named_add_self : (named name (name e) (add time e l)).Perm (e :: named name (name e) l) := by
  have moved : (named name (name e) (add time e l)).Perm (named name (name e) (e :: l)) := add_perm.filter _
  rwa [named_cons, if_pos rfl] at moved

/-! ## Replacing an entry -/

/-- The first entry of the name goes when its time counts as positive, and then the new one comes. -/
def replace (time : α → ℤ) (name : α → κ) (counts : ℤ → ℤ) (e : α) (l : List α) : List α :=
  add time e (if (lookup name (name e) l).any fun x => 0 < counts (time x) then delete name (name e) l else l)

variable {counts : ℤ → ℤ}

theorem Sorted.replace (h : Sorted time l) : Sorted time (Timetable.replace time name counts e l) := by
  refine Sorted.add ?_
  split
  · exact h.delete
  · exact h

theorem mem_replace_self : e ∈ replace time name counts e l := mem_add.mpr (.inl rfl)

theorem mem_of_mem_replace (h : x ∈ replace time name counts e l) : x = e ∨ x ∈ l := by
  refine (mem_add.mp h).imp_right fun old => ?_
  split at old
  · exact mem_of_mem_delete old
  · exact old

theorem named_replace_other (other : m ≠ name e) : named name m (replace time name counts e l) = named name m l := by
  unfold replace
  rw [named_add_other other]
  split
  · rw [named_delete, if_neg other]
  · rfl

theorem lookup_replace_other (other : m ≠ name e) : lookup name m (replace time name counts e l) = lookup name m l := by
  rw [← head?_named, named_replace_other other, head?_named]

/-- A single entry of a positive time is replaced. -/
theorem named_replace_self (few : (named name (name e) l).length ≤ 1)
    (positive : ∀ x ∈ named name (name e) l, 0 < counts (time x)) :
    named name (name e) (replace time name counts e l) = [e] := by
  have gone : named name (name e)
      (if (lookup name (name e) l).any fun x => 0 < counts (time x) then delete name (name e) l else l) = [] := by
    rw [← head?_named]
    match held : named name (name e) l, few with
    | [], _ => simp [held]
    | [x], _ =>
      have late : 0 < counts (time x) := positive x (by simp [held])
      simp [late, named_delete, held]
  have added (rest : List α) : (named name (name e) (add time e rest)).Perm (e :: named name (name e) rest) :=
    named_add_self
  unfold replace
  have single := added (if (lookup name (name e) l).any fun x => 0 < counts (time x) then delete name (name e) l else l)
  rw [gone] at single
  exact List.perm_singleton.mp single

/-- An entry of no positive time stays beside the new one. -/
theorem named_replace_beside (first : lookup name (name e) l = some x) (late : ¬0 < counts (time x)) :
    1 < (named name (name e) (replace time name counts e l)).length := by
  have some : 0 < (named name (name e) l).length := by
    rw [← head?_named] at first
    cases held : named name (name e) l with
    | nil => simp [held] at first
    | cons y rest => simp
  unfold replace
  rw [if_neg (by simpa [first] using late), named_add_self.length_eq, List.length_cons]
  omega

end Timetable
