import BerylDB.Paging

/-! # Replies of maps and multimaps

Their loops clear the container they walk through when a part is full, and not the part. -/
namespace BerylDB.Store
open Text

namespace Paging

variable {α : Type} {offset limit : ℤ} {p : Paging α} {item : α} {items : List α} {insert : List α → α → List α}

/-- The part stays as it is when it is attached. -/
def keep (insert : List α → α → List α) (p : Paging α) (item : α) : Paging α :=
  if (p.aux + 1) % iterLimit = 0 then (p.collect insert item).attach else p.collect insert item

theorem loopCleared_taken (takes : Takes offset limit p) : loopCleared insert offset limit (item :: items) p =
    if (p.aux + 1 : ℤ) = limit then some (keep insert p item)
    else if (p.aux + 1) % iterLimit = 0 then none
    else loopCleared insert offset limit items (keep insert p item).count := by
  have aux : ((keep insert p item).aux : ℤ) = p.aux + 1 := by
    unfold keep
    split <;> rfl
  rw [loopCleared, ← aux]
  rcases takes with all | ⟨started, room⟩
  · have never : ((keep insert p item).aux : ℤ) ≠ limit := by rw [all]; omega
    rw [if_neg (by simp [all]), if_pos all, if_neg never]
    rfl
  · have other : limit ≠ -1 := by omega
    rw [if_pos ⟨other, started⟩, if_pos room]
    rfl

theorem loopCleared_skipped (skips : ¬ Takes offset limit p) :
    loopCleared insert offset limit (item :: items) p = loopCleared insert offset limit items p.count := by
  obtain ⟨all, late⟩ : ¬ limit = -1 ∧ (offset ≤ p.total → ¬ (p.aux : ℤ) < limit) := by
    simpa [Takes, not_or] using skips
  rw [loopCleared]
  by_cases started : offset ≤ p.total
  · rw [if_pos ⟨all, started⟩, if_neg (late started)]
  · rw [if_neg (by simp [started]), if_neg all]

/-- Below `ITER_LIMIT` nothing is attached or cleared. -/
theorem loopCleared_short (items : List α) (p : Paging α)
    (short : p.aux + (rest offset limit p items).length < iterLimit) :
    ∃ p', loopCleared insert offset limit items p = some p' ∧ p'.sent = p.sent ∧
      p'.result = (rest offset limit p items).foldl insert p.result := by
  induction items generalizing p with
  | nil => exact ⟨p, rfl, rfl, by simp [rest]⟩
  | cons item items ih =>
    by_cases takes : Takes offset limit p
    · have next : (p.collect insert item).count.total = p.total + 1 := rfl
      rw [rest_taken takes (p.collect insert item).count next rfl] at short ⊢
      have below : p.aux + 1 + (rest offset limit (p.collect insert item).count items).length < iterLimit := by
        simpa [Nat.add_assoc, Nat.add_comm] using short
      have open' : (p.aux + 1) % iterLimit ≠ 0 := by rw [Nat.mod_eq_of_lt (by omega)]; omega
      have kept : keep insert p item = p.collect insert item := if_neg open'
      rw [loopCleared_taken takes, if_neg open', kept]
      split
      · rename_i full
        have none : rest offset limit (p.collect insert item).count items = [] :=
          rest_last (by simpa [count, collect] using full)
        rw [none]
        exact ⟨_, rfl, rfl, rfl⟩
      · obtain ⟨p', left, sent, result⟩ := ih (p.collect insert item).count below
        exact ⟨p', left, sent, result⟩
    · rw [loopCleared_skipped takes, rest_skipped takes p.count rfl rfl]
      exact ih p.count (by rwa [rest_skipped takes p.count rfl rfl] at short)

/-- A full part is delivered again with the final result, if the loop ends at all. -/
theorem loopCleared_full (grows : ∀ items item, (insert items item).length = items.length + 1)
    (items : List α) (p : Paging α) (full : iterLimit ≤ p.aux + (rest offset limit p items).length)
    (room : p.aux < iterLimit) (result : p.result.length = p.aux) {p' : Paging α}
    (left : loopCleared insert offset limit items p = some p') :
    limit = iterLimit ∧ 2 * iterLimit ≤ p'.delivered.length := by
  induction items generalizing p with
  | nil => simp [rest] at full; omega
  | cons item items ih =>
    by_cases takes : Takes offset limit p
    · have next : (p.collect insert item).count.total = p.total + 1 := rfl
      rw [rest_taken takes (p.collect insert item).count next rfl] at full
      have whole : iterLimit ≤ p.aux + 1 + (rest offset limit (p.collect insert item).count items).length := by
        simpa [Nat.add_assoc, Nat.add_comm] using full
      have longer : (p.collect insert item).result.length = p.aux + 1 := by simp [collect, grows, result]
      rw [loopCleared_taken takes] at left
      split at left
      · rename_i last
        have none : rest offset limit (p.collect insert item).count items = [] :=
          rest_last (by simpa [count, collect] using last)
        rw [none] at whole
        have here : p.aux + 1 = iterLimit := by simp at whole; omega
        obtain rfl := Option.some.inj left
        refine ⟨by omega, ?_⟩
        have attached : keep insert p item = (p.collect insert item).attach := if_pos (by rw [here, Nat.mod_self])
        have part : (p.collect insert item).attach.result = (p.collect insert item).result := rfl
        rw [attached, delivered, part]
        simp [attach, longer]
        omega
      · split at left
        · simp at left
        · rename_i open'
          have below : p.aux + 1 ≠ iterLimit := fun here => open' (by rw [here, Nat.mod_self])
          have kept : keep insert p item = p.collect insert item := if_neg open'
          rw [kept] at left
          exact ih (p.collect insert item).count whole (by change p.aux + 1 < iterLimit; omega) longer left
    · rw [loopCleared_skipped takes] at left
      rw [rest_skipped takes p.count rfl rfl] at full
      exact ih p.count full room result left

/-- A page of less than `ITER_LIMIT` items comes with the final result. -/
theorem loopCleared_answers (short : (page offset limit items).length < iterLimit) :
    ∃ p', loopCleared insert offset limit items {} = some p' ∧ p'.delivered = (page offset limit items).foldl insert [] := by
  obtain ⟨p', left, sent, result⟩ : ∃ p', loopCleared insert offset limit items {} = some p' ∧ p'.sent = [] ∧
      p'.result = (page offset limit items).foldl insert [] :=
    loopCleared_short items {} (by rw [rest_start]; simpa using short)
  refine ⟨p', left, ?_⟩
  rw [delivered, sent, result]
  rfl

/-- Of a longer page there is no answer, or one that repeats items. -/
theorem loopCleared_repeats (grows : ∀ items item, (insert items item).length = items.length + 1)
    (long : iterLimit ≤ (page offset limit items).length) {p' : Paging α}
    (left : loopCleared insert offset limit items {} = some p') :
    (page offset limit items).length < p'.delivered.length := by
  obtain ⟨whole, twice⟩ := loopCleared_full grows items {} (by rw [rest_start]; simpa using long) iterLimit_pos rfl left
  have most : (page offset limit items).length ≤ iterLimit := by
    rw [page, if_neg (by omega), whole]
    exact List.length_take_le _ _
  have := iterLimit_pos
  omega

/-- The loop ends with the whole page if and only if it has less than `ITER_LIMIT` items. -/
theorem loopCleared_iff (grows : ∀ items item, (insert items item).length = items.length + 1) (whole : List α → Prop)
    (all : whole ((page offset limit items).foldl insert []))
    (length : ∀ sent, whole sent → sent.length = (page offset limit items).length) :
    (∃ p', loopCleared insert offset limit items {} = some p' ∧ whole p'.delivered) ↔
      (page offset limit items).length < iterLimit := by
  constructor
  · rintro ⟨p', left, sent⟩
    by_contra long
    have longer := loopCleared_repeats grows (not_lt.mp long) left
    rw [length _ sent] at longer
    exact lt_irrefl _ longer
  · intro short
    obtain ⟨p', left, sent⟩ : ∃ p', loopCleared insert offset limit items {} = some p' ∧
        p'.delivered = (page offset limit items).foldl insert [] := loopCleared_answers short
    exact ⟨p', left, sent ▸ all⟩

end Paging

theorem insertPair_perm (items : MultiMap) (item : Bytes × Bytes) : (insertPair items item).Perm (items ++ [item]) := by
  have whole : items.takeWhile (fun e => bytesLe e.1 item.1) ++ items.dropWhile (fun e => bytesLe e.1 item.1) = items :=
    List.takeWhile_append_dropWhile
  unfold insertPair MultiMapHandler.insert
  refine List.perm_middle.trans ?_
  rw [whole]
  exact (List.perm_append_singleton item items).symm

theorem foldl_insertPair (items held : MultiMap) : (items.foldl insertPair held).Perm (held ++ items) := by
  induction items generalizing held with
  | nil => simp
  | cons item items ih =>
    refine (ih _).trans ?_
    rw [List.append_cons]
    exact (insertPair_perm held item).append_right items

theorem foldl_pushBack (items held : List Bytes) : items.foldl pushBack held = held ++ items := by
  induction items generalizing held with
  | nil => simp
  | cons item items ih =>
    rw [List.foldl_cons, ih, pushBack]
    simp

namespace QueryBase

/-- The fields or values that a query walks through; HLIST and MGET with the flags CORE and COUNT do not page. -/
def walked (c : QueryClass) (k : Kernel) (q : QueryBase) : Option (List Bytes) :=
  let plain := ¬ (q.flags = .core ∨ q.flags = .count)
  match c with
  | .hlist => if plain then some ((Run.map k q).toList.map (·.1)) else none
  | .hvals => some (MapHandler.getValues (Run.map k q))
  | .mget => if plain then (q.get k q.dest).map fun value => (MultiMapHandler.create value).map (·.1) else none
  | .mvals => some (MultiMapHandler.getValues (Run.multi k q))
  | .miter => some (MultiMapHandler.getVals (Run.multi k q) q.value)
  | _ => none

/-- The pairs that a query walks through. -/
def walkedPairs (c : QueryClass) (k : Kernel) (q : QueryBase) : Option MultiMap :=
  match c with
  | .hgetall => some (Run.map k q).toList
  | .mgetall => some (Run.multi k q)
  | _ => none

end QueryBase

section
variable {k : Kernel} {q : QueryBase}

theorem pageCleared_iff (new : q.attached = [] ∧ q.finished = false) (items : List Bytes) :
    ((pageCleared q items).finished = true ∧ (pageCleared q items).delivered = page q.offset q.limit items) ↔
      (page q.offset q.limit items).length < iterLimit := by
  have grows (items : List Bytes) (item : Bytes) : (pushBack items item).length = items.length + 1 := by simp [pushBack]
  rw [← Paging.loopCleared_iff grows (· = page q.offset q.limit items) (by rw [foldl_pushBack, List.nil_append])
    fun _ same => congrArg List.length same]
  unfold pageCleared
  cases Paging.loopCleared pushBack q.offset q.limit items {} with
  | none => simp [new.2]
  | some p => simp [QueryBase.delivered, QueryBase.setOK, new.1, flatMap_vectorParts, Paging.delivered]

theorem pagePairsCleared_iff (new : q.attached = [] ∧ q.finished = false) (items : MultiMap) :
    ((pagePairsCleared q items).finished = true ∧
        (pagePairsCleared q items).deliveredPairs.Perm (page q.offset q.limit items)) ↔
      (page q.offset q.limit items).length < iterLimit := by
  have grows (items : MultiMap) (item : Bytes × Bytes) : (insertPair items item).length = items.length + 1 := by
    simpa using (insertPair_perm items item).length_eq
  rw [← Paging.loopCleared_iff grows (List.Perm · (page q.offset q.limit items)) (foldl_insertPair _ [])
    fun _ => List.Perm.length_eq]
  unfold pagePairsCleared
  cases Paging.loopCleared insertPair q.offset q.limit items {} with
  | none => simp [new.2]
  | some p =>
    simp [QueryBase.deliveredPairs, QueryBase.setOK, new.1, multimapParts, List.flatMap_map, Part.mmap, Paging.delivered]

/-- The loops that clear the container answer with the page if and only if it has less than `ITER_LIMIT` entries. -/
theorem cleared_replies (P : Platform) (c : QueryClass) (new : q.attached = [] ∧ q.finished = false) :
    (∀ items, q.walked c k = some items →
      ((QueryBase.run P c k q).2.finished = true ∧
          (QueryBase.run P c k q).2.delivered = page q.offset q.limit items ↔
        (page q.offset q.limit items).length < iterLimit)) ∧
    ∀ pairs, q.walkedPairs c k = some pairs →
      ((QueryBase.run P c k q).2.finished = true ∧
          (QueryBase.run P c k q).2.deliveredPairs.Perm (page q.offset q.limit pairs) ↔
        (page q.offset q.limit pairs).length < iterLimit) := by
  have flagged_iff (plain : ¬ (q.flags = .core ∨ q.flags = .count)) (items : List Bytes) :
      ((flagged q items (pageCleared q items)).finished = true ∧
          (flagged q items (pageCleared q items)).delivered = page q.offset q.limit items) ↔
        (page q.offset q.limit items).length < iterLimit := by
    obtain ⟨core, count⟩ := not_or.mp plain
    unfold flagged
    rw [if_neg core, if_neg count]
    exact pageCleared_iff new items
  constructor
  · intro items walks
    cases c
    case hvals => cases walks; exact pageCleared_iff new _
    case mvals => cases walks; exact pageCleared_iff new _
    case miter => cases walks; exact pageCleared_iff new _
    case hlist =>
      obtain ⟨plain, walks⟩ := Option.ite_none_right_eq_some.mp walks
      cases walks
      exact flagged_iff plain _
    case mget =>
      obtain ⟨plain, walks⟩ := Option.ite_none_right_eq_some.mp walks
      obtain ⟨value, held, rfl⟩ := Option.map_eq_some_iff.mp walks
      have body : (QueryBase.run P .mget k q).2 = Run.mget k q := rfl
      rw [body]
      unfold Run.mget
      rw [held]
      exact flagged_iff plain _
    all_goals simp [QueryBase.walked] at walks
  · intro pairs walks
    cases c
    case hgetall => cases walks; exact pagePairsCleared_iff new _
    case mgetall => cases walks; exact pagePairsCleared_iff new _
    all_goals simp [QueryBase.walkedPairs] at walks

end

/-- A query of a multimap with so many entries, all with the field `f` and the value `v`. -/
def multiQuery (entries : ℕ) : QueryBase where
  database := lit "db"
  key := lit "m"
  select := 1
  limit := -1
  mapped := some (MultiMapHandler.asString (List.replicate entries (lit "f", lit "v")))

theorem multiQuery_stored (entries : ℕ) :
    Run.multi Server.fresh.kernel (multiQuery entries) = List.replicate entries (lit "f", lit "v") := by
  refine MultiMapHandler.create_asString ?_ fun e he => by rw [(List.mem_replicate.mp he).2]; decide
  exact List.pairwise_replicate.mpr (.inr (by decide))

/-- Both kinds of answers, of a multimap with 49 entries. -/
theorem cleared_replies_below :
    ((QueryBase.run Server.integers .mvals Server.fresh.kernel (multiQuery 49)).2.finished = true ∧
      (QueryBase.run Server.integers .mvals Server.fresh.kernel (multiQuery 49)).2.delivered =
        page 0 (-1) (MultiMapHandler.getValues (List.replicate 49 (lit "f", lit "v")))) ∧
    (QueryBase.run Server.integers .mgetall Server.fresh.kernel (multiQuery 49)).2.finished = true ∧
      (QueryBase.run Server.integers .mgetall Server.fresh.kernel (multiQuery 49)).2.deliveredPairs.Perm
        (page 0 (-1) (List.replicate 49 (lit "f", lit "v"))) := by
  constructor
  · refine ((cleared_replies Server.integers .mvals (q := multiQuery 49) ⟨rfl, rfl⟩).1 _
      (by rw [QueryBase.walked, multiQuery_stored])).mpr ?_
    rw [page, if_pos (show (multiQuery 49).limit = -1 from rfl), MultiMapHandler.getValues, List.length_map, List.length_replicate]
    decide
  · refine ((cleared_replies Server.integers .mgetall (q := multiQuery 49) ⟨rfl, rfl⟩).2 _
      (by rw [QueryBase.walkedPairs, multiQuery_stored])).mpr ?_
    rw [page, if_pos (show (multiQuery 49).limit = -1 from rfl), List.length_replicate]
    decide

/-- MVALS of a multimap with 50 entries does not deliver them. -/
theorem fifty_values_lost : ¬ ((QueryBase.run Server.integers .mvals Server.fresh.kernel (multiQuery 50)).2.finished = true ∧
    (QueryBase.run Server.integers .mvals Server.fresh.kernel (multiQuery 50)).2.delivered =
      page 0 (-1) (MultiMapHandler.getValues (List.replicate 50 (lit "f", lit "v")))) := by
  have answer := pageCleared_iff (q := multiQuery 50) ⟨rfl, rfl⟩
    (MultiMapHandler.getValues (Run.multi Server.fresh.kernel (multiQuery 50)))
  rw [multiQuery_stored] at answer
  intro complete
  simp only [QueryBase.run, QueryClass.body, Body.run, Run.mvals, multiQuery_stored] at complete
  have short := answer.mp complete
  simp [page, multiQuery, MultiMapHandler.getValues, iterLimit] at short

end BerylDB.Store
