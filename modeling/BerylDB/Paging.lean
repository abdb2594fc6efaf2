import BerylDB.Codec
import BerylDB.Server

/-! # Paged replies

What a paged reply delivers is the sequence of its parts and of the final result. -/
namespace BerylDB.Store
open Text

/-- The items that an offset and a limit select; the limit -1 selects all. -/
def page {α : Type} (offset limit : ℤ) (items : List α) : List α :=
  if limit = -1 then items else (items.drop offset.toNat).take limit.toNat

theorem iterLimit_pos : 0 < iterLimit := by decide

namespace Paging

variable {α : Type} {offset limit : ℤ} {p : Paging α} {item : α} {items : List α} {insert : List α → α → List α}

def delivered (p : Paging α) : List α := p.sent.flatMap (·.2) ++ p.result

/-- What is still to come when `items` are left. -/
def rest (offset limit : ℤ) (p : Paging α) (items : List α) : List α :=
  if limit = -1 then items else (items.drop (offset.toNat - p.total)).take (limit.toNat - p.aux)

theorem rest_start : rest offset limit ({} : Paging α) items = page offset limit items := rfl

/-- The item is taken. -/
def Takes (offset limit : ℤ) (p : Paging α) : Prop := limit = -1 ∨ offset ≤ p.total ∧ p.aux < limit

theorem rest_taken (takes : Takes offset limit p) (p' : Paging α) (total : p'.total = p.total + 1)
    (aux : p'.aux = p.aux + 1) : rest offset limit p (item :: items) = item :: rest offset limit p' items := by
  unfold rest
  by_cases all : limit = -1
  · rw [if_pos all, if_pos all]
  · obtain ⟨started, room⟩ := takes.resolve_left all
    have here : offset.toNat - p.total = 0 := by omega
    have next : offset.toNat - p'.total = 0 := by omega
    obtain ⟨n, left⟩ : ∃ n, limit.toNat - p.aux = n + 1 := ⟨limit.toNat - p.aux - 1, by omega⟩
    have less : limit.toNat - p'.aux = n := by omega
    rw [if_neg all, if_neg all, here, next, left, less]
    rfl

theorem rest_skipped (skips : ¬ Takes offset limit p) (p' : Paging α)
    (total : p'.total = p.total + 1) (aux : p'.aux = p.aux) :
    rest offset limit p (item :: items) = rest offset limit p' items := by
  obtain ⟨all, late⟩ : ¬ limit = -1 ∧ (offset ≤ p.total → ¬ (p.aux : ℤ) < limit) := by
    simpa [Takes, not_or] using skips
  unfold rest
  rw [if_neg all, if_neg all, aux]
  by_cases started : offset ≤ p.total
  · have none : limit.toNat - p.aux = 0 := by have := late started; omega
    rw [none, List.take_zero, List.take_zero]
  · obtain ⟨n, left⟩ : ∃ n, offset.toNat - p.total = n + 1 := ⟨offset.toNat - p.total - 1, by omega⟩
    have less : offset.toNat - p'.total = n := by omega
    rw [left, less]
    rfl

/-- Nothing comes behind the item that makes the limit full. -/
theorem rest_last (full : (p.aux : ℤ) = limit) : rest offset limit p items = [] := by
  unfold rest
  rw [if_neg (by omega)]
  have none : limit.toNat - p.aux = 0 := by omega
  rw [none, List.take_zero]

/-- The part is attached when it is full, and a new one is begun. -/
def push (insert : List α → α → List α) (p : Paging α) (item : α) : Paging α :=
  if (p.collect insert item).aux % iterLimit = 0 then { (p.collect insert item).attach with result := [] }
  else p.collect insert item

@[simp] theorem push_total : (push insert p item).total = p.total := by
  unfold push
  split <;> rfl

@[simp] theorem push_aux : (push insert p item).aux = p.aux + 1 := by
  unfold push
  split <;> rfl

theorem push_delivered (append : ∀ items item, insert items item = items ++ [item]) :
    (push insert p item).delivered = p.delivered ++ [item] := by
  unfold push
  split <;> simp [delivered, attach, collect, append]

theorem loop_taken (takes : Takes offset limit p) : loop insert offset limit (item :: items) p =
    if ((push insert p item).aux : ℤ) = limit then (push insert p item, true)
    else loop insert offset limit items (push insert p item).count := by
  rw [loop]
  rcases takes with all | ⟨started, room⟩
  · have never : ((push insert p item).aux : ℤ) ≠ limit := by rw [all]; omega
    rw [if_neg (by simp [all]), if_pos all, if_neg never]
    rfl
  · have other : limit ≠ -1 := by omega
    rw [if_pos ⟨other, started⟩, if_pos room]
    rfl

theorem loop_skipped (skips : ¬ Takes offset limit p) :
    loop insert offset limit (item :: items) p = loop insert offset limit items p.count := by
  obtain ⟨all, late⟩ : ¬ limit = -1 ∧ (offset ≤ p.total → ¬ (p.aux : ℤ) < limit) := by
    simpa [Takes, not_or] using skips
  rw [loop]
  by_cases started : offset ≤ p.total
  · rw [if_pos ⟨all, started⟩, if_neg (late started)]
  · rw [if_neg (by simp [started]), if_neg all]

/-- The loop delivers what is still to come. -/
theorem loop_delivered (append : ∀ items item, insert items item = items ++ [item])
    (items : List α) (p : Paging α) :
    (loop insert offset limit items p).1.delivered = p.delivered ++ rest offset limit p items := by
  induction items generalizing p with
  | nil => simp [loop, rest]
  | cons item items ih =>
    by_cases takes : Takes offset limit p
    · rw [loop_taken takes]
      have next : (push insert p item).count.total = p.total + 1 := by simp [count]
      rw [rest_taken takes (push insert p item).count next (by simp [count])]
      split
      · rename_i full
        have none : rest offset limit (push insert p item).count items = [] := rest_last full
        rw [none]
        exact push_delivered append
      · rw [ih]
        change (push insert p item).delivered ++ _ = _
        rw [push_delivered append]
        simp
    · rw [loop_skipped takes, ih, rest_skipped takes p.count rfl rfl]
      rfl

end Paging

/-! ## Replies of keys and items -/

def Part.vecData : Part → List Bytes
  | .vector _ items => items
  | .multimap _ _ => []

def Part.mmap : Part → MultiMap
  | .vector _ _ => []
  | .multimap _ items => items

namespace QueryBase

/-- `VecData` of the attached results, in their order, and then of the final one. -/
def delivered (q : QueryBase) : List Bytes := q.attached.flatMap Part.vecData ++ q.vecData

/-- The same for the replies with pairs. -/
def deliveredPairs (q : QueryBase) : MultiMap := q.attached.flatMap Part.mmap ++ q.mmap

/-- The keys of a type that a scan meets. -/
def scannedKeys (P : Platform) (type : Bytes) (k : Kernel) (q : QueryBase) : List Bytes :=
  (k.rows q.database).toList.filterMap fun row =>
    scanKey (matchMask P.charmap · q.key) (convtoString q.select) type (colonTokens row.1)

/-- LGET and VGET with the flags CORE and COUNT do not page. -/
def plainItems (k : Kernel) (q : QueryBase) : Option (List Bytes) :=
  if q.flags = .core ∨ q.flags = .count then none else (q.get k q.dest).map ListHandler.create

/-- What a query has to list: a scan that is not interrupted, or the items of a list or a vector that is there. -/
def matching (P : Platform) (c : QueryClass) (k : Kernel) (q : QueryBase) : Option (List Bytes) :=
  let scan (type : Bytes) := if q.interrupted k then none else some (scannedKeys P type k q)
  match c with
  | .keys => scan intKey
  | .lkeys => scan intList
  | .vkeys => scan intVector
  | .gkeys => scan intGeo
  | .mkeys => scan intMmap
  | .hfind => scan intMap
  | .lget | .vget => plainItems k q
  | .vfind => (k.get q.database q.dest).map fun value => ListHandler.find P (ListHandler.create value) q.value
  | _ => none

end QueryBase

section
variable {k : Kernel} {q : QueryBase}

theorem flatMap_vectorParts (sent : List (ℕ × List Bytes)) : (vectorParts sent).flatMap Part.vecData = sent.flatMap (·.2) := by
  simp [vectorParts, List.flatMap_map, Part.vecData]

theorem scanned_whole (whole : q.interrupted k = false) : q.scanned k = (k.rows q.database).toList := by
  unfold QueryBase.scanned
  unfold QueryBase.interrupted at whole
  cases stop : q.interrupt with
  | none => rfl
  | some n =>
    rw [stop] at whole
    exact List.take_of_length_le (by simpa using whole)

/-- A reply that pages a list delivers the page, and is final. -/
theorem loop_reply (new : q.attached = []) (items : List Bytes) {r : QueryBase}
    (attached : r.attached = q.attached ++ vectorParts (Paging.loop pushBack q.offset q.limit items {}).1.sent)
    (final : r.vecData = (Paging.loop pushBack q.offset q.limit items {}).1.result) :
    r.delivered = page q.offset q.limit items := by
  have delivered : (Paging.loop pushBack q.offset q.limit items {}).1.delivered = page q.offset q.limit items :=
    Paging.loop_delivered (fun _ _ => rfl) items {}
  rw [QueryBase.delivered, attached, new, final, List.nil_append, flatMap_vectorParts]
  exact delivered

theorem listItems_delivered (new : q.attached = []) (items : List Bytes) :
    (listItems q items false).finished = true ∧ (listItems q items false).delivered = page q.offset q.limit items := by
  have whole : listItems q items false = { q with
      attached := q.attached ++ vectorParts (Paging.loop pushBack q.offset q.limit items {}).1.sent
      subresult := (Paging.loop pushBack q.offset q.limit items {}).1.tracker + 1
      counter := (Paging.loop pushBack q.offset q.limit items {}).1.aux
      vecData := (Paging.loop pushBack q.offset q.limit items {}).1.result }.setOK := by
    simp [listItems]
  rw [whole]
  exact ⟨rfl, loop_reply new items rfl rfl⟩

theorem scanType_delivered (P : Platform) (new : q.attached = []) (whole : q.interrupted k = false) (type : Bytes) :
    (scanType P type k q).finished = true ∧
      (scanType P type k q).delivered = page q.offset q.limit (q.scannedKeys P type k) := by
  rw [scanType, listScanned, whole, scanned_whole whole]
  exact listItems_delivered new _

theorem pageVector_delivered (new : q.attached = []) (items : List Bytes) :
    (pageVector q items).finished = true ∧ (pageVector q items).delivered = page q.offset q.limit items :=
  ⟨rfl, loop_reply new items rfl rfl⟩

/-- The paged replies are complete: every part and the final result, one behind the other, are the page. -/
theorem paged_replies (P : Platform) {c : QueryClass} {items : List Bytes} (new : q.attached = [])
    (lists : q.matching P c k = some items) : (QueryBase.run P c k q).2.finished = true ∧
      (QueryBase.run P c k q).2.delivered = page q.offset q.limit items := by
  have scan {type : Bytes} (found : (if q.interrupted k then none else some (q.scannedKeys P type k)) = some items) :
      (scanType P type k q).finished = true ∧ (scanType P type k q).delivered = page q.offset q.limit items := by
    split at found
    · simp at found
    · rename_i whole
      cases found
      exact scanType_delivered P new (by simpa using whole) type
  have stored (found : q.plainItems k = some items) :
      (Run.onItems k q fun items => flagged q items (pageVector q items)).finished = true ∧
        (Run.onItems k q fun items => flagged q items (pageVector q items)).delivered = page q.offset q.limit items := by
    unfold QueryBase.plainItems at found
    split at found
    · simp at found
    · rename_i plain
      obtain ⟨core, count⟩ := not_or.mp plain
      obtain ⟨value, held, rfl⟩ := Option.map_eq_some_iff.mp found
      unfold Run.onItems flagged
      rw [held]
      dsimp only
      rw [if_neg core, if_neg count]
      exact pageVector_delivered new _
  unfold QueryBase.matching at lists
  cases c
  case keys => exact scan lists
  case lkeys => exact scan lists
  case vkeys => exact scan lists
  case gkeys => exact scan lists
  case mkeys => exact scan lists
  case hfind => exact scan lists
  case lget => exact stored lists
  case vget => exact stored lists
  case vfind =>
    obtain ⟨value, held, rfl⟩ := Option.map_eq_some_iff.mp lists
    simp only [QueryBase.run, QueryClass.body, Body.run, Run.vfind, held]
    exact ⟨rfl, loop_reply new _ rfl rfl⟩
  all_goals simp at lists

/-- LGET of a list with 60 items, from the sixth on, in two parts. -/
def lgetSixty : QueryBase where
  database := lit "db"
  key := lit "k"
  select := 1
  offset := 5
  limit := 52
  mapped := some (ListHandler.asString (List.replicate 60 (lit "x")))

theorem paged_replies_lget : (QueryBase.run Server.integers .lget Server.fresh.kernel lgetSixty).2.finished = true ∧
    (QueryBase.run Server.integers .lget Server.fresh.kernel lgetSixty).2.delivered =
      page 5 52 (List.replicate 60 (lit "x")) := by
  have items : ListHandler.create (ListHandler.asString (List.replicate 60 (lit "x"))) = List.replicate 60 (lit "x") :=
    ListHandler.create_asString fun item here => by rw [(List.mem_replicate.mp here).2]; decide
  refine paged_replies Server.integers rfl ?_
  simpa [QueryBase.matching, QueryBase.plainItems, QueryBase.get, lgetSixty] using items

end

end BerylDB.Store
