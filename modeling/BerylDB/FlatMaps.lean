import Mathlib.Data.List.Pairwise
import Mathlib.Algebra.GroupWithZero.Nat
import Mathlib.Order.Lattice

/-! # Maps and sets in sorted vectors

Keys are compared by `lt`, which is the order of what `f` makes of them: keys of one image count as one key, and the
first of them stays. -/
namespace FlatMap

variable {α κ ν : Type}

/-- The entry at the lower bound of the key, if it has the key. -/
def find (lt : α → α → Bool) : List (α × ν) → α → Option (α × ν)
  | [], _ => none
  | e :: m, key => if lt e.1 key then find lt m key else if lt key e.1 then none else some e

/-- The value of the key, which is inserted where there is none. -/
def set (lt : α → α → Bool) : List (α × ν) → α → ν → List (α × ν)
  | [], key, value => [(key, value)]
  | e :: m, key, value =>
    if lt e.1 key then e :: set lt m key value
    else if lt key e.1 then (key, value) :: e :: m
    else (e.1, value) :: m

def erase (lt : α → α → Bool) : List (α × ν) → α → List (α × ν)
  | [], _ => []
  | e :: m, key => if lt e.1 key then e :: erase lt m key else if lt key e.1 then e :: m else m

/-- The insertion into a set, and whether the key is new. -/
def insert (lt : α → α → Bool) : List α → α → List α × Bool
  | [], key => ([key], true)
  | x :: s, key =>
    if lt x key then (x :: (insert lt s key).1, (insert lt s key).2)
    else if lt key x then (key :: x :: s, true)
    else (x :: s, false)

variable [LinearOrder κ] {f : α → κ} {lt : α → α → Bool} {m : List (α × ν)} {s : List α} {key k x : α} {value : ν}
  {e : α × ν}

def Sorted (f : α → κ) (l : List α) : Prop := l.Pairwise fun a b => f a < f b

theorem Sorted.nil : Sorted f [] := List.Pairwise.nil

variable (order : ∀ a b, lt a b = true ↔ f a < f b)
include order

theorem find_eq_some (sorted : Sorted f (m.map Prod.fst)) : find lt m key = some e ↔ e ∈ m ∧ f e.1 = f key := by
  induction m with
  | nil => simp [find]
  | cons d m ih =>
    obtain ⟨first, rest⟩ := List.pairwise_cons.mp sorted
    have first : ∀ e ∈ m, f d.1 < f e.1 := fun e he => first e.1 (List.mem_map_of_mem he)
    rw [find, List.mem_cons]
    by_cases below : f d.1 < f key
    · rw [if_pos ((order _ _).mpr below), ih rest]
      constructor
      · exact fun ⟨he, same⟩ => ⟨.inr he, same⟩
      · rintro ⟨rfl | he, same⟩
        · exact absurd below (same ▸ lt_irrefl _)
        · exact ⟨he, same⟩
    · rw [if_neg (mt (order _ _).mp below)]
      by_cases above : f key < f d.1
      · rw [if_pos ((order _ _).mpr above)]
        refine iff_of_false (by simp) ?_
        rintro ⟨rfl | he, same⟩
        · exact absurd above (same ▸ lt_irrefl _)
        · exact absurd (above.trans (first e he)) (same ▸ lt_irrefl _)
      · have same := le_antisymm (not_lt.mp above) (not_lt.mp below)
        rw [if_neg (mt (order _ _).mp above), Option.some_inj]
        constructor
        · rintro rfl
          exact ⟨.inl rfl, same⟩
        · rintro ⟨rfl | he, same'⟩
          · rfl
          · exact absurd (first e he) (by rw [same, same']; exact lt_irrefl _)

theorem find_eq_none (sorted : Sorted f (m.map Prod.fst)) : find lt m key = none ↔ ∀ e ∈ m, f e.1 ≠ f key := by
  rw [Option.eq_none_iff_forall_ne_some]
  simp only [ne_eq, find_eq_some order sorted, not_and]

omit [LinearOrder κ] order in
theorem fst_set {x : α} (hx : x ∈ (set lt m key value).map Prod.fst) : x = key ∨ x ∈ m.map Prod.fst := by
  induction m with
  | nil => exact .inl (by simpa [set] using hx)
  | cons d m ih =>
    rw [set] at hx
    split at hx
    · rcases List.mem_cons.mp hx with rfl | hx
      · exact .inr (List.mem_cons_self ..)
      · exact (ih hx).imp id (List.mem_cons_of_mem _)
    · split at hx
      · exact List.mem_cons.mp hx
      · exact .inr hx

theorem sorted_set (sorted : Sorted f (m.map Prod.fst)) : Sorted f ((set lt m key value).map Prod.fst) := by
  induction m with
  | nil => exact List.pairwise_singleton ..
  | cons d m ih =>
    have parts := List.pairwise_cons.mp sorted
    rw [set]
    by_cases below : f d.1 < f key
    · rw [if_pos ((order _ _).mpr below)]
      refine List.pairwise_cons.mpr ⟨fun x hx => ?_, ih parts.2⟩
      rcases fst_set hx with rfl | hx
      · exact below
      · exact parts.1 x hx
    · rw [if_neg (mt (order _ _).mp below)]
      by_cases above : f key < f d.1
      · rw [if_pos ((order _ _).mpr above)]
        refine List.pairwise_cons.mpr ⟨fun x hx => ?_, sorted⟩
        rcases List.mem_cons.mp hx with rfl | hx
        · exact above
        · exact above.trans (parts.1 x hx)
      · rwa [if_neg (mt (order _ _).mp above)]

/-- The value that a key has after `set`. -/
theorem find_set (sorted : Sorted f (m.map Prod.fst)) (k : α) : (find lt (set lt m key value) k).map Prod.snd =
    if f k = f key then some value else (find lt m k).map Prod.snd := by
  induction m with
  | nil =>
    simp only [set, find]
    by_cases same : f k = f key
    · rw [if_neg (mt (order _ _).mp (same ▸ lt_irrefl _)), if_neg (mt (order _ _).mp (same ▸ lt_irrefl _)), if_pos same]
      rfl
    · rw [if_neg same]
      rcases lt_or_gt_of_ne same with h | h
      · rw [if_neg (mt (order _ _).mp h.not_gt), if_pos ((order _ _).mpr h)]
      · rw [if_pos ((order _ _).mpr h)]
  | cons d m ih =>
    have parts := List.pairwise_cons.mp sorted
    rw [set]
    by_cases below : f d.1 < f key
    · rw [if_pos ((order _ _).mpr below), find, find, apply_ite (Option.map Prod.snd), apply_ite (Option.map Prod.snd),
        apply_ite (Option.map Prod.snd), apply_ite (Option.map Prod.snd), ih parts.2]
      by_cases same : f k = f key
      · rw [if_pos ((order _ _).mpr (same ▸ below)), if_pos same, if_pos same]
      · simp only [if_neg same]
    · rw [if_neg (mt (order _ _).mp below)]
      by_cases above : f key < f d.1
      · rw [if_pos ((order _ _).mpr above), find]
        by_cases same : f k = f key
        · rw [if_neg (mt (order _ _).mp (same ▸ lt_irrefl _)), if_neg (mt (order _ _).mp (same ▸ lt_irrefl _)), if_pos same]
          rfl
        · rw [if_neg same]
          rcases lt_or_gt_of_ne same with h | h
          · rw [if_neg (mt (order _ _).mp h.not_gt), if_pos ((order _ _).mpr h), find,
              if_neg (mt (order _ _).mp (h.trans above).not_gt), if_pos ((order _ _).mpr (h.trans above))]
          · rw [if_pos ((order _ _).mpr h)]
      · have place := le_antisymm (not_lt.mp above) (not_lt.mp below)
        rw [if_neg (mt (order _ _).mp above), find, find]
        by_cases same : f k = f key
        · rw [if_neg (mt (order _ _).mp (by rw [same, place]; exact lt_irrefl _)),
            if_neg (mt (order _ _).mp (by rw [same, place]; exact lt_irrefl _)), if_pos same]
          rfl
        · rw [if_neg same]
          rcases lt_or_gt_of_ne same with h | h
          · rw [if_neg (mt (order _ _).mp (place ▸ h).not_gt), if_pos ((order _ _).mpr (place ▸ h)),
              if_neg (mt (order _ _).mp (place ▸ h).not_gt), if_pos ((order _ _).mpr (place ▸ h))]
          · rw [if_pos ((order _ _).mpr (place ▸ h)), if_pos ((order _ _).mpr (place ▸ h))]

theorem find_cons (sorted : Sorted f ((e :: m).map Prod.fst)) (k : α) :
    find lt (e :: m) k = if f e.1 = f k then some e else find lt m k := by
  split
  · rename_i same
    exact (find_eq_some order sorted).mpr ⟨List.mem_cons_self .., same⟩
  · rename_i other
    rw [find]
    rcases lt_or_gt_of_ne other with below | above
    · rw [if_pos ((order _ _).mpr below)]
    · rw [if_neg (mt (order _ _).mp above.not_gt), if_pos ((order _ _).mpr above)]
      obtain ⟨first, rest⟩ := List.pairwise_cons.mp sorted
      exact ((find_eq_none order rest).mpr fun d hd =>
        (above.trans (first d.1 (List.mem_map_of_mem hd))).ne').symm

/-- The values of a map are laid over those of another. -/
theorem find_foldl_set {m' : List (α × ν)} (sorted : Sorted f (m.map Prod.fst)) (sorted' : Sorted f (m'.map Prod.fst))
    (k : α) :
    (find lt (m'.foldl (fun m e => set lt m e.1 e.2) m) k).map Prod.snd =
      ((find lt m' k).map Prod.snd).or ((find lt m k).map Prod.snd) := by
  induction m' generalizing m with
  | nil => simp [find]
  | cons e m' ih =>
    have rest := (List.pairwise_cons.mp sorted').2
    rw [List.foldl_cons, ih (sorted_set order sorted) rest, find_set order sorted, find_cons order sorted']
    by_cases same : f k = f e.1
    · have last : find lt m' k = none := (find_eq_none order rest).mpr fun d hd =>
        same ▸ ((List.pairwise_cons.mp sorted').1 d.1 (List.mem_map_of_mem hd)).ne'
      rw [last, if_pos same, if_pos same.symm]
      rfl
    · rw [if_neg same, if_neg (Ne.symm same)]

/-- A filter that sees of a key what the order sees. -/
theorem find_filter {p : α → Bool} (sorted : Sorted f (m.map Prod.fst)) (respects : ∀ a b, f a = f b → p a = p b) (k : α) :
    find lt (m.filter fun e => p e.1) k = if p k then find lt m k else none := by
  induction m with
  | nil => simp [find]
  | cons e m ih =>
    have kept : Sorted f (((e :: m).filter fun e => p e.1).map Prod.fst) := sorted.sublist (List.filter_sublist.map _)
    have rest := ih (List.pairwise_cons.mp sorted).2
    rw [find_cons order sorted]
    by_cases keep : p e.1 = true
    · rw [List.filter_cons_of_pos (p := fun e : α × ν => p e.1) keep] at kept ⊢
      rw [find_cons order kept, rest]
      by_cases same : f e.1 = f k
      · rw [if_pos same, if_pos same, if_pos (respects _ _ same ▸ keep)]
      · rw [if_neg same, if_neg same]
    · rw [List.filter_cons_of_neg (p := fun e : α × ν => p e.1) keep, rest]
      by_cases same : f e.1 = f k
      · rw [if_neg (respects _ _ same ▸ keep), if_neg (respects _ _ same ▸ keep)]
      · rw [if_neg same]

omit [LinearOrder κ] order in
theorem erase_sublist : (erase lt m key).Sublist m := by
  induction m with
  | nil => exact .slnil
  | cons e m ih =>
    rw [erase]
    split
    · exact ih.cons_cons e
    · split
      · exact .refl _
      · exact .cons e (.refl m)

omit order in
theorem sorted_erase (sorted : Sorted f (m.map Prod.fst)) : Sorted f ((erase lt m key).map Prod.fst) :=
  sorted.sublist (erase_sublist.map _)

theorem find_erase (sorted : Sorted f (m.map Prod.fst)) (k : α) :
    find lt (erase lt m key) k = if f k = f key then none else find lt m k := by
  induction m with
  | nil => simp [erase, find]
  | cons e m ih =>
    obtain ⟨first, rest⟩ := List.pairwise_cons.mp sorted
    have kept : Sorted f ((erase lt (e :: m) key).map Prod.fst) := sorted_erase sorted
    rw [find_cons order sorted]
    rw [erase] at kept ⊢
    by_cases below : f e.1 < f key
    · rw [if_pos ((order _ _).mpr below)] at kept ⊢
      rw [find_cons order kept, ih rest]
      by_cases same : f k = f key
      · rw [if_pos same, if_pos same, if_neg (same ▸ below.ne)]
      · rw [if_neg same, if_neg same]
    · rw [if_neg (mt (order _ _).mp below)]
      by_cases above : f key < f e.1
      · rw [if_pos ((order _ _).mpr above)]
        by_cases same : f k = f key
        · rw [if_pos same, find_cons order sorted, if_neg (same ▸ above.ne')]
          exact (find_eq_none order rest).mpr fun d hd =>
            same ▸ (above.trans (first d.1 (List.mem_map_of_mem hd))).ne'
        · rw [if_neg same, find_cons order sorted]
      · have place := le_antisymm (not_lt.mp above) (not_lt.mp below)
        rw [if_neg (mt (order _ _).mp above)]
        by_cases same : f k = f key
        · rw [if_pos same]
          exact (find_eq_none order rest).mpr fun d hd =>
            (same.trans place.symm) ▸ (first d.1 (List.mem_map_of_mem hd)).ne'
        · rw [if_neg same, if_neg fun h => same (h.symm.trans place)]

theorem mem_keys_iff (sorted : Sorted f (m.map Prod.fst)) (injective : Function.Injective f) :
    key ∈ m.map Prod.fst ↔ (find lt m key).isSome := by
  rw [← not_iff_not, Bool.not_eq_true, Option.isSome_eq_false_iff, Option.isNone_iff_eq_none, find_eq_none order sorted]
  simp only [List.mem_map, not_exists, not_and, injective.ne_iff]

omit [LinearOrder κ] order in
/-- What the values add up to when one of them is set. -/
theorem sum_set (weight : ν → ℕ) : ((set lt m key value).map fun e => weight e.2).sum +
    (find lt m key).elim 0 (fun e => weight e.2) = (m.map fun e => weight e.2).sum + weight value := by
  induction m with
  | nil => simp [set, find]
  | cons e m ih =>
    rw [set, find]
    split
    · simp only [List.map_cons, List.sum_cons]
      omega
    · split
      · simp only [List.map_cons, List.sum_cons, Option.elim_none]
        omega
      · simp only [List.map_cons, List.sum_cons, Option.elim_some]
        omega

omit [LinearOrder κ] order in
theorem sum_erase (weight : ν → ℕ) : ((erase lt m key).map fun e => weight e.2).sum +
    (find lt m key).elim 0 (fun e => weight e.2) = (m.map fun e => weight e.2).sum := by
  induction m with
  | nil => simp [erase, find]
  | cons e m ih =>
    rw [erase, find]
    split
    · simp only [List.map_cons, List.sum_cons]
      omega
    · split
      · simp
      · simp only [List.map_cons, List.sum_cons, Option.elim_some]
        omega

theorem insert_new (sorted : Sorted f s) : (insert lt s key).2 = true ↔ ∀ x ∈ s, f x ≠ f key := by
  induction s with
  | nil => simp [insert]
  | cons x s ih =>
    obtain ⟨first, rest⟩ := List.pairwise_cons.mp sorted
    rw [insert, List.forall_mem_cons]
    by_cases below : f x < f key
    · rw [if_pos ((order _ _).mpr below), ih rest]
      exact (and_iff_right below.ne).symm
    · rw [if_neg (mt (order _ _).mp below)]
      by_cases above : f key < f x
      · rw [if_pos ((order _ _).mpr above)]
        exact iff_of_true rfl ⟨above.ne', fun y hy => (above.trans (first y hy)).ne'⟩
      · rw [if_neg (mt (order _ _).mp above)]
        exact iff_of_false Bool.false_ne_true fun h => h.1 (le_antisymm (not_lt.mp above) (not_lt.mp below))

omit [LinearOrder κ] order in
theorem insert_old (old : (insert lt s key).2 = false) : (insert lt s key).1 = s := by
  induction s with
  | nil => simp [insert] at old
  | cons x s ih =>
    rw [insert] at old ⊢
    split at old
    · rename_i h
      rw [if_pos h, ih old]
    · rename_i h
      split at old
      · cases old
      · rename_i h'
        rw [if_neg h, if_neg h']

omit [LinearOrder κ] order in
theorem mem_insert (new : (insert lt s key).2 = true) : x ∈ (insert lt s key).1 ↔ x = key ∨ x ∈ s := by
  induction s with
  | nil => simp [insert]
  | cons y s ih =>
    rw [insert] at new ⊢
    split at new
    · rename_i h
      rw [if_pos h, List.mem_cons, ih new, List.mem_cons, or_left_comm]
    · rename_i h
      split at new
      · rename_i h'
        rw [if_neg h, if_pos h', List.mem_cons]
      · cases new

theorem sorted_insert (sorted : Sorted f s) : Sorted f (insert lt s key).1 := by
  rcases Bool.eq_false_or_eq_true (insert lt s key).2 with new | old
  · induction s with
    | nil => exact List.pairwise_singleton ..
    | cons y s ih =>
      obtain ⟨first, rest⟩ := List.pairwise_cons.mp sorted
      rw [insert] at new ⊢
      split at new
      · rename_i h
        rw [if_pos h]
        refine List.pairwise_cons.mpr ⟨fun x hx => ?_, ih rest new⟩
        rcases (mem_insert new).mp hx with rfl | hx
        · exact (order _ _).mp h
        · exact first x hx
      · rename_i h
        split at new
        · rename_i h'
          have above := (order _ _).mp h'
          rw [if_neg h, if_pos h']
          refine List.pairwise_cons.mpr ⟨fun x hx => ?_, sorted⟩
          rcases List.mem_cons.mp hx with rfl | hx
          · exact above
          · exact above.trans (first x hx)
        · cases new
  · rwa [insert_old old]

end FlatMap
