import BerylDB.CaseOrder
import BerylDB.Keyed
import Mathlib.Order.Defs.Unbundled

/-! # Comparison without regard to case

`equals`, `insensitive_swo` and `insensitive` of `nodes.cpp`, three loops over the map that `locale_case_insensitive_map`
points to, by which containers are compared, ordered and hashed. -/
namespace BerylDB.Text.CharMap

/-- `engine::equals`, on texts that end with a NUL. -/
def equals (charmap : CharMap) : Bytes → Bytes → Bool
  | [], [] => charmap.get 0 == charmap.get 0
  | [], b :: _ => charmap.get 0 == charmap.get b
  | a :: _, [] => charmap.get a == charmap.get 0
  | a :: s, b :: t =>
    if a ≠ 0 && b ≠ 0 then if charmap.get a ≠ charmap.get b then false else equals charmap s t
    else charmap.get a == charmap.get b

/-- `engine::insensitive`, in a `size_t`. -/
def insensitive (charmap : CharMap) (s : Bytes) : ℕ := s.foldl (fun t x => (5 * t + (charmap.get x).toNat) % 2 ^ 64) 0

/-- Whether the key of a hashed container is the name that is looked up. -/
def hits (charmap : CharMap) (name key : Bytes) : Bool :=
  charmap.insensitive key == charmap.insensitive name && charmap.equals key name

/-- A set ordered by `insensitive_swo` takes a name that it does not have. -/
def orderedInsert (charmap : CharMap) (keys : List Bytes) (name : Bytes) : List Bytes :=
  (FlatMap.insert charmap.insensitiveSwo keys name).1

/-- A set hashed by `insensitive` takes a name that it does not have. -/
def hashedInsert (charmap : CharMap) (keys : List Bytes) (name : Bytes) : List Bytes :=
  if keys.any (charmap.hits name) then keys else keys ++ [name]

/-- The key that is found for a name. -/
def orderedFind (charmap : CharMap) (keys : List Bytes) (name : Bytes) : Option Bytes :=
  (FlatMap.find charmap.insensitiveSwo (keys.map fun key => (key, ())) name).map Prod.fst

def hashedFind (charmap : CharMap) (keys : List Bytes) (name : Bytes) : Option Bytes := keys.find? (charmap.hits name)

section
variable {charmap : CharMap} {s t : Bytes} {c : UInt8} {names : List Bytes}

/-! ## The three loops -/

/-- The walk ends where one of the texts does. -/
theorem equals_iff (charmap : CharMap) : ∀ {s t : Bytes}, 0 ∉ s → 0 ∉ t →
    (charmap.equals s t = true ↔ charmap.key s = charmap.key t)
  | [], [], _, _ => by simp [equals]
  | [], b :: t, _, ht => by
    have first : b ≠ 0 := fun nul => ht (nul ▸ List.mem_cons_self)
    rw [equals, beq_iff_eq]
    exact iff_of_false (fun same => first (get_eq_zero.mp (same.symm.trans (get_zero charmap)))) (by simp [key])
  | a :: s, [], hs, _ => by
    have first : a ≠ 0 := fun nul => hs (nul ▸ List.mem_cons_self)
    rw [equals, beq_iff_eq]
    exact iff_of_false (fun same => first (get_eq_zero.mp (same.trans (get_zero charmap)))) (by simp [key])
  | a :: s, b :: t, hs, ht => by
    obtain ⟨first, hs⟩ := not_or.mp (List.mem_cons.not.mp hs)
    obtain ⟨first', ht⟩ := not_or.mp (List.mem_cons.not.mp ht)
    rw [equals, if_pos (by simp [Ne.symm first, Ne.symm first']), key_cons]
    by_cases same : charmap.get a = charmap.get b
    · rw [if_neg (not_not.mpr same), equals_iff charmap hs ht, and_iff_right same]
    · rw [if_pos same]
      exact iff_of_false Bool.false_ne_true fun both => same both.1

theorem insensitive_eq (s : Bytes) :
    charmap.insensitive s = (charmap.key s).foldl (fun t x => (5 * t + x) % 2 ^ 64) 0 := by
  rw [insensitive, key, List.foldl_map]

theorem hits_iff (hs : 0 ∉ s) (ht : 0 ∉ t) : charmap.hits s t = true ↔ charmap.key t = charmap.key s := by
  rw [hits, Bool.and_eq_true, beq_iff_eq, equals_iff charmap ht hs]
  refine and_iff_right_of_imp fun same => ?_
  rw [insensitive_eq, insensitive_eq, same]

/-- The equality of keys elsewhere is that of the loop. -/
theorem equals_eq (hs : 0 ∉ s) (ht : 0 ∉ t) : charmap.equals s t = Text.equals charmap s t := by
  rw [Bool.eq_iff_iff, equals_iff charmap hs ht]
  exact key_eq charmap

/-! ## Containers -/

variable {keys keys' : List Bytes} {name : Bytes}

/-- The two sets hold the same names, each of them once. -/
structure Alike (charmap : CharMap) (keys keys' : List Bytes) : Prop where
  sorted : FlatMap.Sorted charmap.key keys
  distinct : Keyed.Distinct charmap.key keys'
  same : ∀ x, x ∈ keys ↔ x ∈ keys'
  plain : ∀ x ∈ keys', 0 ∉ x

theorem Alike.nil : Alike charmap [] [] := ⟨.nil, .nil, fun _ => .rfl, by simp⟩

theorem Alike.insert (h : Alike charmap keys keys') (plain : 0 ∉ name) :
    Alike charmap (charmap.orderedInsert keys name) (charmap.hashedInsert keys' name) := by
  have order := insensitiveSwo_iff charmap
  have new : keys'.any (charmap.hits name) = false ↔ ∀ x ∈ keys', charmap.key x ≠ charmap.key name := by
    rw [List.any_eq_false]
    exact forall₂_congr fun x hx => not_congr (hits_iff plain (h.plain x hx))
  have both : (FlatMap.insert charmap.insensitiveSwo keys name).2 = true ↔ keys'.any (charmap.hits name) = false := by
    rw [FlatMap.insert_new order h.sorted, new]
    exact forall_congr' fun x => by rw [h.same]
  unfold orderedInsert hashedInsert
  cases known : keys'.any (charmap.hits name) with
  | true =>
    have old : (FlatMap.insert charmap.insensitiveSwo keys name).2 = false :=
      eq_false_of_ne_true fun inserted => by simp [both.mp inserted] at known
    rw [FlatMap.insert_old old]
    exact h
  | false =>
    rw [if_neg Bool.false_ne_true]
    refine ⟨FlatMap.sorted_insert order h.sorted, h.distinct.concat (new.mp known), fun x => ?_, ?_⟩
    · rw [FlatMap.mem_insert (both.mpr known), h.same, List.mem_append, List.mem_singleton, or_comm]
    · exact List.forall_mem_append.mpr ⟨h.plain, by simpa using plain⟩

theorem Alike.run (h : Alike charmap keys keys') (names : List Bytes) (plain : ∀ name ∈ names, 0 ∉ name) :
    Alike charmap (names.foldl charmap.orderedInsert keys) (names.foldl charmap.hashedInsert keys') := by
  induction names generalizing keys keys' with
  | nil => exact h
  | cons name names ih =>
    obtain ⟨first, rest⟩ := List.forall_mem_cons.mp plain
    exact ih (h.insert first) rest

/-- Both sets find the same key for a name. -/
theorem Alike.find (h : Alike charmap keys keys') (plain : 0 ∉ name) :
    charmap.orderedFind keys name = charmap.hashedFind keys' name := by
  have sorted : FlatMap.Sorted charmap.key ((keys.map fun key => (key, ())).map Prod.fst) := by
    simpa [Function.comp_def] using h.sorted
  have hashed : charmap.hashedFind keys' name = keys'.find? fun key => charmap.key key == charmap.key name := by
    rw [hashedFind, ← List.head?_filter, ← List.head?_filter]
    refine congrArg List.head? (List.filter_congr fun key hkey => ?_)
    rw [Bool.eq_iff_iff, hits_iff plain (h.plain key hkey), beq_iff_eq]
  refine Option.ext fun key => ?_
  rw [hashed, h.distinct.find?_eq_some_iff, ← h.same, orderedFind, Option.map_eq_some_iff]
  constructor
  · rintro ⟨e, found, rfl⟩
    obtain ⟨mem, same⟩ := (FlatMap.find_eq_some (insensitiveSwo_iff charmap) sorted).mp found
    obtain ⟨key, hkey, rfl⟩ := List.mem_map.mp mem
    exact ⟨hkey, same⟩
  · rintro ⟨mem, same⟩
    refine ⟨(key, ()), (FlatMap.find_eq_some (insensitiveSwo_iff charmap) sorted).mpr ⟨?_, same⟩, rfl⟩
    exact List.mem_map_of_mem mem

end

/-- A text without NUL. -/
abbrev Name := { s : Bytes // 0 ∉ s }

/-- The order, the equality and the hash tell the same names apart, and so do the containers keyed by them. -/
theorem functors_consistent (charmap : CharMap) :
    IsStrictWeakOrder Name (fun a b => charmap.insensitiveSwo a.1 b.1 = true) ∧
      (∀ a b : Name, ¬ charmap.insensitiveSwo a.1 b.1 = true ∧ ¬ charmap.insensitiveSwo b.1 a.1 = true ↔
        charmap.equals a.1 b.1 = true) ∧
      Equivalence (fun a b : Name => charmap.equals a.1 b.1 = true) ∧
      (∀ a b : Name, charmap.equals a.1 b.1 = true → charmap.insensitive a.1 = charmap.insensitive b.1) ∧
      ∀ (names : List Name) (name : Name),
        charmap.orderedFind ((names.map Subtype.val).foldl charmap.orderedInsert []) name.1 =
          charmap.hashedFind ((names.map Subtype.val).foldl charmap.hashedInsert []) name.1 := by
  have less (a b : Name) := insensitiveSwo_iff charmap a.1 b.1
  have same (a b : Name) := equals_iff charmap a.2 b.2
  refine ⟨?_, fun a b => ?_, ?_, fun a b equal => ?_, fun names name => ?_⟩
  · simp only [less]
    refine { irrefl := fun a => lt_irrefl _, trans := fun a b c => lt_trans, incomp_trans := fun a b c h h' => ?_ }
    have first := le_antisymm (not_lt.mp h.2) (not_lt.mp h.1)
    have second := le_antisymm (not_lt.mp h'.2) (not_lt.mp h'.1)
    rw [first, second]
    exact ⟨lt_irrefl _, lt_irrefl _⟩
  · rw [less, less, same, not_lt, not_lt, and_comm]
    exact le_antisymm_iff.symm
  · simp only [same]
    exact ⟨fun _ => rfl, fun h => h.symm, fun h h' => h.trans h'⟩
  · rw [insensitive_eq, insensitive_eq, (same a b).mp equal]
  · refine (Alike.nil.run _ fun key hkey => ?_).find name.2
    obtain ⟨a, -, rfl⟩ := List.mem_map.mp hkey
    exact a.2

end BerylDB.Text.CharMap
