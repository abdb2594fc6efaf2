import BerylDB.Handlers

/-! # Containers are read back as they were written

Keys and values are written in the digits 0 and 1, so `:` ends an entry and `/` a key, whatever bytes they hold. -/
namespace BerylDB.Store
open Text

/-- Entries that each end with a colon are the tokens of the text. -/
theorem colonTokens_flatMap {α : Type} {entry : α → Bytes} {items : List α}
    (safe : ∀ x ∈ items, entry x ≠ [] ∧ (58 : UInt8) ∉ entry x) :
    colonTokens (items.flatMap fun x => entry x ++ [58]) = items.map entry := by
  induction items with
  | nil => rfl
  | cons x items ih =>
    obtain ⟨nonempty, colon⟩ := safe x (by simp)
    rw [List.flatMap_cons, List.append_assoc, List.singleton_append, colonTokens, tokens_append _ colon nonempty,
      List.map_cons]
    exact congrArg _ (ih fun y hy => safe y (by simp [hy]))

theorem toBin_safe {key : Bytes} (nonempty : key ≠ []) : toBin key ≠ [] ∧ (58 : UInt8) ∉ toBin key :=
  ⟨fun empty => nonempty (toBin_eq_nil.mp empty), colon_not_mem_toBin key⟩

/-- The text of a key and its value. -/
def pairText (key value : Bytes) : Bytes := toBin key ++ 47 :: toBin value

theorem slash_not_mem_toBin (s : Bytes) : (47 : UInt8) ∉ toBin s := fun h => by
  rcases mem_toBin h with same | same <;> exact absurd same (by decide)

theorem pairText_safe (key value : Bytes) : pairText key value ≠ [] ∧ (58 : UInt8) ∉ pairText key value := by
  constructor
  · simp [pairText]
  · simp [pairText, colon_not_mem_toBin]

@[simp] theorem cutAt_pairText (key value : Bytes) : cutAt 47 (pairText key value) = (toBin key, toBin value) :=
  cutAt_append _ (slash_not_mem_toBin key)

namespace ListHandler

theorem create_asString {items : List Bytes} (nonempty : ∀ item ∈ items, item ≠ []) : create (asString items) = items := by
  have added (items held : List Bytes) (nonempty : ∀ item ∈ items, item ≠ []) :
      (items.map toBin).foldl (fun items mask => (add items (toStr mask)).1) held = held ++ items := by
    induction items generalizing held with
    | nil => simp
    | cons item items ih =>
      have first := nonempty item (by simp)
      rw [List.map_cons, List.foldl_cons, toStr_toBin, add, if_neg first, ih _ fun x hx => nonempty x (by simp [hx])]
      simp
  rw [create, asString, colonTokens_flatMap fun item h => toBin_safe (nonempty item h)]
  exact added items [] nonempty

/-- Empty items leave their colons, which are passed over. -/
theorem colonTokens_asString (items : List Bytes) :
    colonTokens (asString items) = colonTokens (asString (items.filter (· ≠ []))) := by
  induction items with
  | nil => rfl
  | cons item items ih =>
    by_cases empty : item = []
    · subst empty
      have kept : ([] :: items).filter (· ≠ []) = items.filter (· ≠ []) := by simp
      rw [kept, ← ih]
      exact tokens_cons 58 _
    · obtain ⟨nonempty, colon⟩ := toBin_safe empty
      have kept : (item :: items).filter (· ≠ []) = item :: items.filter (· ≠ []) := by simp [empty]
      have text (rest : List Bytes) : asString (item :: rest) = toBin item ++ 58 :: asString rest := by simp [asString]
      rw [kept, text, text, colonTokens, tokens_append _ colon nonempty, tokens_append _ colon nonempty]
      exact congrArg _ ih

theorem create_asString_filter (items : List Bytes) : create (asString items) = items.filter (· ≠ []) := by
  rw [create, colonTokens_asString]
  exact create_asString fun item here => by simpa using (List.mem_filter.mp here).2

/-- No item of a stored container is empty. -/
theorem create_ne_nil (load : Bytes) : ∀ item ∈ create load, item ≠ [] := by
  have added (masks items : List Bytes) (held : ∀ item ∈ items, item ≠ []) :
      ∀ item ∈ masks.foldl (fun items mask => (add items (toStr mask)).1) items, item ≠ [] := by
    induction masks generalizing items with
    | nil => exact held
    | cons mask masks ih =>
      apply ih
      intro item here
      by_cases empty : toStr mask = []
      · exact held item (by simpa [add, empty] using here)
      · rcases List.mem_append.mp (show item ∈ items ++ [toStr mask] by simpa [add, empty] using here) with here | here
        · exact held item here
        · exact List.mem_singleton.mp here ▸ empty
  exact added (colonTokens load) [] (by simp)

end ListHandler

/-- Decoding puts the pairs in again, in the order in which they were written. -/
theorem foldl_pairText {α : Type} (put : α → Bytes → Bytes → α) (entries : List (Bytes × Bytes)) (held : α) :
    (entries.map fun e => pairText e.1 e.2).foldl (fun map mask =>
      put map (toStr (cutAt 47 mask).1) (toStr (cutAt 47 mask).2)) held =
        entries.foldl (fun map e => put map e.1 e.2) held := by
  simp [List.foldl_map]

namespace MapHandler

theorem colonTokens_asString (map : MapMap) : colonTokens (asString map) = map.toList.map fun e => pairText e.1 e.2 := by
  rw [← colonTokens_flatMap fun e _ => pairText_safe e.1 e.2]
  simp [asString, pairText]

theorem foldl_add (entries : List (Bytes × Bytes)) (held : MapMap) (nonempty : ∀ e ∈ entries, e.1 ≠ []) :
    entries.foldl (fun map e => (add map e.1 e.2).1) held = held.insertMany entries := by
  induction entries generalizing held with
  | nil => rfl
  | cons e entries ih =>
    have first := nonempty e (by simp)
    rw [List.foldl_cons, ih _ fun x hx => nonempty x (by simp [hx]), add, if_neg first]
    exact Std.ExtTreeMap.insertMany_cons.symm

/-- A map is what its pairs make of the empty map. -/
theorem insertMany_toList (map : MapMap) : (∅ : MapMap).insertMany map.toList = map := by
  refine Std.ExtTreeMap.ext_getElem? fun key => ?_
  cases found : map[key]? with
  | some value =>
    have here := Std.ExtTreeMap.mem_toList_iff_getElem?_eq_some.mpr found
    exact Std.ExtTreeMap.getElem?_insertMany_list_of_mem (by simp) Std.ExtTreeMap.distinct_keys_toList here
  | none =>
    rw [Std.ExtTreeMap.getElem?_insertMany_list_of_contains_eq_false]
    · simp
    · rw [Std.ExtTreeMap.map_fst_toList_eq_keys, Bool.eq_false_iff]
      intro here
      have here : key ∈ map := by simpa using here
      simp [Std.ExtTreeMap.mem_iff_isSome_getElem?, found] at here

theorem create_asString {map : MapMap} (nonempty : ∀ key ∈ map, key ≠ []) : create (asString map) = map := by
  have entries (e : Bytes × Bytes) (he : e ∈ map.toList) : e.1 ≠ [] := by
    have found := Std.ExtTreeMap.mem_toList_iff_getElem?_eq_some.mp he
    exact nonempty e.1 (Std.ExtTreeMap.mem_iff_isSome_getElem?.mpr (by rw [found]; rfl))
  rw [create, colonTokens_asString]
  have decoded := foldl_pairText (fun map path file => (add map path file).1) map.toList ∅
  rw [foldl_add map.toList ∅ entries, insertMany_toList] at decoded
  exact decoded

theorem insert_ne_nil {map : MapMap} {field value : Bytes} (held : ∀ key ∈ map, key ≠ []) (nonempty : field ≠ []) :
    ∀ key ∈ map.insert field value, key ≠ [] := by
  intro key here
  rcases Std.ExtTreeMap.mem_insert.mp here with same | here
  · exact Std.compare_eq_iff_eq.mp same ▸ nonempty
  · exact held key here

/-- No field of a stored map is empty. -/
theorem create_ne_nil (load : Bytes) : ∀ key ∈ create load, key ≠ [] := by
  have added (entries : List Bytes) (held : MapMap) (nonempty : ∀ key ∈ held, key ≠ []) :
      ∀ key ∈ entries.foldl (fun map mask => (add map (toStr (cutAt 47 mask).1) (toStr (cutAt 47 mask).2)).1) held,
        key ≠ [] := by
    induction entries generalizing held with
    | nil => exact nonempty
    | cons entry entries ih =>
      refine ih _ ?_
      dsimp only [add]
      split
      · exact nonempty
      · exact insert_ne_nil nonempty ‹_›
  exact added (colonTokens load) ∅ fun key none => absurd none Std.ExtTreeMap.not_mem_empty

end MapHandler

namespace MultiMapHandler

/-- Entries stand in the order of their keys. -/
def Sorted (map : MultiMap) : Prop := map.Pairwise fun a b => bytesLe a.1 b.1

theorem colonTokens_asString (map : MultiMap) : colonTokens (asString map) = map.map fun e => pairText e.1 e.2 := by
  rw [← colonTokens_flatMap fun e _ => pairText_safe e.1 e.2]
  simp [asString, pairText]

theorem bytesLe_eq (a b : Bytes) : bytesLe a b = (compare a b).isLE := by
  unfold bytesLe
  cases compare a b <;> rfl

theorem bytesLe_trans {a b c : Bytes} (h : bytesLe a b) (h' : bytesLe b c) : bytesLe a c := by
  rw [bytesLe_eq] at *
  exact Std.TransCmp.isLE_trans h h'

theorem bytesLe_total {a b : Bytes} (h : ¬ bytesLe a b) : bytesLe b a := by
  rw [bytesLe_eq] at *
  have swap : compare b a = (compare a b).swap := Std.OrientedCmp.eq_swap
  rw [swap]
  cases order : compare a b <;> simp_all

theorem Sorted.insert {map : MultiMap} (h : Sorted map) (key value : Bytes) :
    Sorted (MultiMapHandler.insert map key value) := by
  have behind : ∀ e ∈ map.dropWhile (fun e => bytesLe e.1 key), bytesLe key e.1 := by
    cases rest : map.dropWhile (fun e => bytesLe e.1 key) with
    | nil => simp
    | cons first rest' =>
      have later : ¬ bytesLe first.1 key := by
        have head := List.head?_dropWhile_not (fun e : Bytes × Bytes => bytesLe e.1 key) map
        rw [rest] at head
        simpa using head
      have sorted : Sorted (first :: rest') := rest ▸ h.sublist (List.dropWhile_sublist _)
      intro e he
      rcases List.mem_cons.mp he with rfl | he
      · exact bytesLe_total later
      · exact bytesLe_trans (bytesLe_total later) ((List.pairwise_cons.mp sorted).1 e he)
  have before (e : Bytes × Bytes) (he : e ∈ map.takeWhile fun e => bytesLe e.1 key) : bytesLe e.1 key := by
    simpa using List.mem_takeWhile_imp he
  refine List.pairwise_append.mpr ⟨h.sublist (List.takeWhile_sublist _), ?_, ?_⟩
  · exact List.pairwise_cons.mpr ⟨behind, h.sublist (List.dropWhile_sublist _)⟩
  · intro a ha b hb
    rcases List.mem_cons.mp hb with rfl | hb
    · exact before a ha
    · exact bytesLe_trans (before a ha) (behind b hb)

theorem Sorted.add {map : MultiMap} (h : Sorted map) (key value : Bytes) : Sorted (add map key value).1 := by
  unfold MultiMapHandler.add
  split
  · exact h
  · exact h.insert key value

theorem create_sorted (load : Bytes) : Sorted (create load) := by
  have step (entries : List Bytes) (held : MultiMap) (h : Sorted held) : Sorted (entries.foldl (fun map mask =>
      (MultiMapHandler.add map (toStr (cutAt 47 mask).1) (toStr (cutAt 47 mask).2)).1) held) := by
    induction entries generalizing held with
    | nil => exact h
    | cons mask entries ih => exact ih _ (h.add _ _)
  exact step _ [] List.Pairwise.nil

theorem mem_insert {map : MultiMap} {key value : Bytes} {e : Bytes × Bytes} :
    e ∈ insert map key value ↔ e = (key, value) ∨ e ∈ map := by
  have split : e ∈ map ↔ e ∈ map.takeWhile (fun e => bytesLe e.1 key) ∨ e ∈ map.dropWhile fun e => bytesLe e.1 key := by
    rw [← List.mem_append, List.takeWhile_append_dropWhile]
  rw [insert, List.mem_append, List.mem_cons, split]
  tauto

/-- An entry that is not less than the others goes behind them. -/
theorem insert_last {map : MultiMap} {key value : Bytes} (last : ∀ e ∈ map, bytesLe e.1 key) :
    insert map key value = map ++ [(key, value)] := by
  unfold insert
  rw [List.takeWhile_eq_self_iff.mpr last, List.dropWhile_eq_nil_iff.mpr last]

theorem foldl_add (entries held : MultiMap) (nonempty : ∀ e ∈ entries, e.1 ≠ []) (sorted : Sorted (held ++ entries)) :
    entries.foldl (fun map e => (add map e.1 e.2).1) held = held ++ entries := by
  induction entries generalizing held with
  | nil => simp
  | cons e entries ih =>
    have first := nonempty e (by simp)
    have last : ∀ x ∈ held, bytesLe x.1 e.1 := fun x hx => (List.pairwise_append.mp sorted).2.2 x hx e (by simp)
    rw [List.foldl_cons, add, if_neg first, insert_last last, ih _ (fun x hx => nonempty x (by simp [hx]))]
    · simp
    · simpa using sorted

theorem create_asString {map : MultiMap} (sorted : Sorted map) (nonempty : ∀ e ∈ map, e.1 ≠ []) :
    create (asString map) = map := by
  rw [create, colonTokens_asString]
  exact (foldl_pairText (fun map path file => (add map path file).1) map []).trans (foldl_add map [] nonempty sorted)

/-- No hash of a stored multimap is empty. -/
theorem create_ne_nil (load : Bytes) : ∀ e ∈ create load, e.1 ≠ [] := by
  have added (entries : List Bytes) (held : MultiMap) (nonempty : ∀ e ∈ held, e.1 ≠ []) :
      ∀ e ∈ entries.foldl (fun map mask => (add map (toStr (cutAt 47 mask).1) (toStr (cutAt 47 mask).2)).1) held,
        e.1 ≠ [] := by
    induction entries generalizing held with
    | nil => exact nonempty
    | cons entry entries ih =>
      refine ih _ fun e here => ?_
      by_cases empty : toStr (cutAt 47 entry).1 = []
      · simp only [add, if_pos empty] at here
        exact nonempty e here
      · simp only [add, if_neg empty, mem_insert] at here
        rcases here with rfl | here
        · exact empty
        · exact nonempty e here
  exact added (colonTokens load) [] (by simp)

end MultiMapHandler

/-- Every container without an empty key, or an empty item, is read back from its text. -/
theorem codec_round_trip :
    (∀ items : List Bytes, (∀ item ∈ items, item ≠ []) →
      ListHandler.create (ListHandler.asString items) = items ∧
        VectorHandler.create (VectorHandler.asString items) = items) ∧
    (∀ map : MapMap, (∀ key ∈ map, key ≠ []) → MapHandler.create (MapHandler.asString map) = map) ∧
    ∀ map : MultiMap, MultiMapHandler.Sorted map → (∀ e ∈ map, e.1 ≠ []) →
      MultiMapHandler.create (MultiMapHandler.asString map) = map := by
  refine ⟨fun items nonempty => ?_, fun map nonempty => ?_, fun map sorted nonempty => ?_⟩
  · exact ⟨ListHandler.create_asString nonempty, ListHandler.create_asString nonempty⟩
  · exact MapHandler.create_asString nonempty
  · exact MultiMapHandler.create_asString sorted nonempty

/-- Separators in items, keys and values, a byte 0, and empty values. -/
theorem codec_round_trip_separators :
    (ListHandler.create (ListHandler.asString [lit "a:b", lit "/", [0, 255]]) = [lit "a:b", lit "/", [0, 255]] ∧
      VectorHandler.create (VectorHandler.asString [lit "a:b", lit "/", [0, 255]]) = [lit "a:b", lit "/", [0, 255]]) ∧
    MapHandler.create (MapHandler.asString ((∅ : MapMap).insert (lit ":/") [])) = (∅ : MapMap).insert (lit ":/") [] ∧
    MultiMapHandler.create (MultiMapHandler.asString [(lit "k/", lit ":"), (lit "k/", []), (lit "k/", lit ":")]) =
      [(lit "k/", lit ":"), (lit "k/", []), (lit "k/", lit ":")] := by
  refine ⟨codec_round_trip.1 _ (by decide), codec_round_trip.2.1 _ ?_, codec_round_trip.2.2 _ ?_ (by decide)⟩
  · intro key here
    obtain rfl : lit ":/" = key := by simpa using here
    decide
  · unfold MultiMapHandler.Sorted
    decide

end BerylDB.Store
