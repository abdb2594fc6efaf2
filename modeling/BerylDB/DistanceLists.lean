import BerylDB.Paging
import BerylDB.Removals

/-! # Places that GDIST lists

GDIST passes over the places within the distance and lists the others, and the row of the empty name among them. -/
namespace BerylDB.Store
open Text QueryBase Kernel Transition
open Doubles (Double convtoNum)

/-- The name in a row of a place of the select, when it is not the reference's. -/
def Request.placeName (r : Request) (row : Bytes) : Option Bytes :=
  let name := toStr (row.takeWhile (· ≠ 58))
  if name ≠ r.key ∧ row = keyRow name r.select intGeo then some name else none

/-- The names of the places within the distance, in store order. -/
def Request.within (P : Platform) (r : Request) (k : Kernel) : List Bytes :=
  (k.rows r.database).toList.filterMap fun row =>
    if P.le (r.away P k row.2) (P.convtoNum r.value) then r.placeName row.1 else none

/-- The names of the places beyond the distance, and the empty name when its row is. -/
def Request.beyond (P : Platform) (r : Request) (k : Kernel) : List Bytes :=
  (k.rows r.database).toList.filterMap fun row =>
    if P.le (r.away P k row.2) (P.convtoNum r.value) then none else if row.1 = [] then some [] else r.placeName row.1

/-- GDIST without an offset and a limit, and GREM with the same distance. -/
def Request.listing (r : Request) : Request := { r with offset := 0, limit := -1 }
def Request.removing (r : Request) : Request := { r with cls := .georem }

/-- GDIST lists the places within the distance, each once, and without an offset and a limit all that GREM removes. -/
structure ListsWithin (P : Platform) (k : Kernel) (r : Request) : Prop where
  finished : (k.reply P r).finished = true
  delivered : (k.reply P r).delivered = page r.offset r.limit (r.within P k)
  once : (k.reply P r).delivered.Nodup
  consistent : ∀ name, (k.get r.database (keyRow name r.select intGeo)).isSome →
    (k.execute P r.removing).get r.database (keyRow name r.select intGeo) = none →
    name ∈ (k.reply P r.listing).delivered

/-- The page leaves out all of `n` items. -/
def Request.Skips (r : Request) (n : ℕ) : Prop := n = 0 ∨ r.limit ≠ -1 ∧ (r.limit ≤ 0 ∨ (n : ℤ) ≤ r.offset)

/-- The state in which GDIST does so: there is nothing to list, neither within the distance nor beyond, no place is closer
than the distance, and GREM does not take the reference for a place. -/
structure ListsNothing (L : Library) (k : Kernel) (r : Request) : Prop where
  reference : r.reference k ≠ []
  whole : r.plain.interrupted k = false
  within : r.Skips (r.within L.platform k).length
  beyond : r.Skips (r.beyond L.platform k).length
  closest : ∀ row value, r.IsPlace row → k.get r.database row = some value →
    Double.le (r.away L.platform k value) (convtoNum r.value) = true →
    Double.le (convtoNum r.value) (r.away L.platform k value) = true
  kept : r.Mistaken (keyRow r.key r.select intGeo) →
    Double.le (convtoNum r.value) (r.away L.platform k (r.reference k)) = true

section
variable {P : Platform} {L : Library} {k : Kernel} {r : Request} {row name : Bytes}

theorem placeName_iff : r.placeName row = some name ↔ name ≠ r.key ∧ row = keyRow name r.select intGeo := by
  have named (name : Bytes) : toStr ((keyRow name r.select intGeo).takeWhile (· ≠ 58)) = name := by
    have colon : ∀ c ∈ toBin name, decide (c ≠ 58) = true := fun c here => by
      rw [decide_eq_true_iff]
      rintro rfl
      exact colon_not_mem_toBin name here
    rw [keyRow, rowName, List.takeWhile_append_of_pos colon, List.takeWhile_cons_of_neg (by simp), List.append_nil,
      toStr_toBin]
  unfold Request.placeName
  dsimp only
  rw [Option.ite_none_right_eq_some, Option.some.injEq]
  constructor
  · rintro ⟨other, rfl⟩
    exact other
  · rintro ⟨other, rfl⟩
    rw [named]
    exact ⟨⟨other, rfl⟩, rfl⟩

theorem page_eq_nil {items : List Bytes} : page r.offset r.limit items = [] ↔ r.Skips items.length := by
  unfold page Request.Skips
  split
  · rename_i all
    simp [all]
  · rename_i limited
    rw [List.take_eq_nil_iff, List.drop_eq_nil_iff]
    by_cases none : items.length = 0
    · simp [none]
    · simp only [none, limited, ne_eq, not_false_eq_true, true_and, false_or]
      omega

/-- A page has no names but those of the list. -/
theorem mem_of_mem_page {items : List Bytes} (here : name ∈ page r.offset r.limit items) : name ∈ items := by
  unfold page at here
  split at here
  · exact here
  · exact List.mem_of_mem_drop (List.mem_of_mem_take here)

/-! ## What is delivered -/

/-- The walk of GDIST takes the places of other names, and the row of the empty name. -/
theorem scanKey_place (typed : row = [] ∨ TypedRow row) :
    scanKey (fun name => name ≠ r.key) (convtoString r.select) intGeo (colonTokens row) =
      if row = [] then some [] else r.placeName row := by
  rcases typed with rfl | ⟨key, text, type, key_ne, text_ne, colon, kind, rfl⟩
  · rfl
  · rw [if_neg (by simp [rowName])]
    ext name
    obtain ⟨third, rest, tokens, plain⟩ := kind.third
    rw [placeName_iff, colonTokens_rowName type key_ne text_ne colon, tokens]
    simp only [scanKey, List.getElem?_cons_succ, List.getElem?_cons_zero, Option.all_some, Option.map_some, Option.getD_some,
      toStr_toBin, Option.ite_none_right_eq_some, Option.some.injEq, Bool.and_eq_true, decide_eq_true_eq, beq_iff_eq]
    constructor
    · rintro ⟨⟨⟨other, rfl⟩, rfl⟩, rfl⟩
      exact ⟨other, by rw [plain rfl]; rfl⟩
    · rintro ⟨other, same⟩
      obtain ⟨rfl, rfl, rfl⟩ := (rowName_eq_keyRow colon).mp same
      rw [colonTokens_typeRegs (by decide)] at tokens
      exact ⟨⟨⟨other, rfl⟩, (List.cons.inj tokens).1.symm⟩, rfl⟩

/-- The names that GDIST meets. -/
def Request.met (P : Platform) (r : Request) (k : Kernel) : List Bytes :=
  (r.plain.scanned k).filterMap fun row =>
    if P.le (r.away P k row.2) (P.convtoNum r.value) then none else if row.1 = [] then some [] else r.placeName row.1

theorem filterMap_scanned (types : RowTypes k.get) : ((r.plain.scanned k).filterMap fun row =>
    match scanKey (fun name => name ≠ r.key) (convtoString r.select) intGeo (colonTokens row.1) with
    | some name => if P.le (r.away P k row.2) (P.convtoNum r.value) then none else some name
    | none => none) = r.met P k := by
  refine List.filterMap_congr fun row here => ?_
  have typed := types r.database row.1 (by rw [scanned_get here]; rfl)
  rw [scanKey_place typed]
  by_cases empty : row.1 = []
  · rw [if_pos empty]
  · rw [if_neg empty]
    cases r.placeName row.1 <;> simp

theorem geodistance_reply (types : RowTypes k.get) (opened : k.Opened r.database) (cls : r.cls = .geodistance)
    (reference : r.reference k ≠ []) : k.reply P r = listScanned k r.plain (r.met P k) := by
  rw [← filterMap_scanned types]
  unfold Kernel.reply
  rw [cls, prepare_opened opened]
  exact if_neg reference

theorem met_whole (whole : r.plain.interrupted k = false) : r.met P k = r.beyond P k := by
  rw [Request.met, scanned_whole whole]
  rfl

/-- The end of a loop that was left with `break` has delivered something. -/
theorem loop_broke (items : List Bytes) (p : Paging Bytes) (broke : (Paging.loop pushBack r.offset r.limit items p).2 = true) :
    (Paging.loop pushBack r.offset r.limit items p).1.delivered ≠ [] := by
  induction items generalizing p with
  | nil => exact absurd broke Bool.false_ne_true
  | cons item items ih =>
    by_cases takes : Paging.Takes r.offset r.limit p
    · rw [Paging.loop_taken takes] at broke ⊢
      split at broke
      · rw [if_pos ‹_›]
        change (Paging.push pushBack p item).delivered ≠ []
        rw [Paging.push_delivered fun items item => (rfl : pushBack items item = items ++ [item])]
        simp
      · rw [if_neg ‹_›]
        exact ih _ broke
    · rw [Paging.loop_skipped takes] at broke ⊢
      exact ih _ broke

/-- A final reply delivers the page, and one that is left early delivers something. -/
theorem listItems_finished {items : List Bytes} {stopped : Bool} (finished : (listItems r.plain items stopped).finished = true) :
    (listItems r.plain items stopped).delivered = page r.offset r.limit items ∧
      (stopped = true → page r.offset r.limit items ≠ []) := by
  have looped : (Paging.loop pushBack r.offset r.limit items {}).1.delivered = page r.offset r.limit items :=
    Paging.loop_delivered (fun _ _ => rfl) items {}
  have whole : listItems r.plain items stopped = if !(Paging.loop pushBack r.offset r.limit items {}).2 && stopped then
      ({ r.plain with attached := r.plain.attached ++ vectorParts (Paging.loop pushBack r.offset r.limit items {}).1.sent }
        : QueryBase).accessSet .interrupt
      else (listItems r.plain items false) := by
    simp [listItems]
    rfl
  rw [whole] at finished ⊢
  split at finished
  · exact absurd finished Bool.false_ne_true
  · rename_i final
    rw [if_neg final]
    refine ⟨(listItems_delivered rfl items).2, fun stop => ?_⟩
    rw [← looped]
    exact loop_broke items {} (by simpa [stop] using final)

theorem geodistance_absent (opened : k.Opened r.database) (cls : r.cls = .geodistance) (absent : r.reference k = []) :
    (k.reply P r).finished = false := by
  have missing : Run.place k r.plain r.plain.key = [] := absent
  have ran : k.reply P r = Run.geodistance P k r.plain := by
    unfold Kernel.reply
    rw [cls, prepare_opened opened]
    rfl
  rw [ran, Run.geodistance, if_pos missing]
  rfl

/-- A place is stored under a name that is not empty. -/
theorem RowTypes.named (types : RowTypes k.get) (here : (k.get r.database (keyRow name r.select intGeo)).isSome) :
    name ≠ [] := by
  rcases types r.database _ here with empty | typed
  · exact absurd empty keyRow_ne_nil
  · exact typed.named.key_ne

theorem mem_within : name ∈ r.within P k ↔ name ≠ r.key ∧ ∃ value,
    k.get r.database (keyRow name r.select intGeo) = some value ∧ P.le (r.away P k value) (P.convtoNum r.value) = true := by
  simp only [Request.within, List.mem_filterMap, Option.ite_none_right_eq_some, placeName_iff]
  constructor
  · rintro ⟨⟨row, value⟩, here, le, other, rfl⟩
    exact ⟨other, value, mem_rows.mp here, le⟩
  · rintro ⟨other, value, held, le⟩
    exact ⟨(_, value), mem_rows.mpr held, le, other, rfl⟩

/-- A name that GDIST meets is the empty one, or that of a place beyond the distance. -/
theorem mem_met (here : name ∈ r.met P k) : name = [] ∨ name ≠ r.key ∧ ∃ value,
    k.get r.database (keyRow name r.select intGeo) = some value ∧ ¬ P.le (r.away P k value) (P.convtoNum r.value) = true := by
  simp only [Request.met, List.mem_filterMap, Option.ite_none_left_eq_some] at here
  obtain ⟨⟨row, value⟩, scanned, far, found⟩ := here
  split at found
  · exact .inl (Option.some.inj found).symm
  · obtain ⟨other, rfl⟩ := placeName_iff.mp found
    exact .inr ⟨other, value, scanned_get scanned, far⟩

theorem met_not_within (types : RowTypes k.get) (met : name ∈ r.met P k) : name ∉ r.within P k := by
  intro within
  obtain ⟨-, value, held, le⟩ := mem_within.mp within
  rcases mem_met met with rfl | ⟨-, value', held', far⟩
  · exact types.named (by rw [held]; rfl) rfl
  · obtain rfl : value' = value := Option.some.inj (held'.symm.trans held)
    exact far le

/-- GDIST without an offset and a limit delivers all that it meets. -/
theorem listing_delivered (types : RowTypes k.get) (opened : k.Opened r.database) (cls : r.cls = .geodistance)
    (reference : r.reference k ≠ []) (whole : r.plain.interrupted k = false) :
    (k.reply P r.listing).delivered = r.met P k := by
  have reply : k.reply P r.listing = listScanned k r.listing.plain (r.listing.met P k) :=
    geodistance_reply types opened cls reference
  have uncut : r.listing.plain.interrupted k = false := whole
  rw [reply, listScanned, uncut, (listItems_delivered rfl _).2]
  exact if_pos rfl

/-- The rows of places that GREM deletes. -/
theorem removing_get (types : RowTypes k.get) (writable : k.Writable) (opened : k.Opened r.database)
    (reference : r.reference k ≠ []) (whole : r.plain.interrupted k = false) {value : Bytes}
    (held : k.get r.database row = some value) : (k.execute P r.removing).get r.database row = none ↔
      (r.IsPlace row ∨ r.Mistaken row) ∧ ¬ P.le (P.convtoNum r.value) (r.away P k value) = true := by
  have typed : row = [] ∨ TypedRow row := types r.database row (by rw [held]; rfl)
  have get := georem_get (P := P) (r := r.removing) writable opened rfl r.database row
  have scanned : r.removing.plain.scanned k = (k.rows r.database).toList := scanned_whole whole
  have listed := mem_georemRows (P := P) (k := k) (r := r.removing) typed
  rw [scanned] at listed
  rw [get]
  constructor
  · intro gone
    split at gone
    · rename_i erased
      obtain ⟨taken, value', here, close⟩ := listed.mp erased.2.2
      obtain rfl : value' = value := Option.some.inj ((mem_rows.mp here).symm.trans held)
      exact ⟨taken, close⟩
    · rw [held] at gone
      exact nomatch gone
  · rintro ⟨taken, close⟩
    exact if_pos ⟨rfl, reference, listed.mpr ⟨taken, value, mem_rows.mpr held, close⟩⟩

theorem listsWithin_iff (types : RowTypes k.get) (writable : k.Writable) (opened : k.Opened r.database)
    (cls : r.cls = .geodistance) : ListsWithin L.platform k r ↔ ListsNothing L k r := by
  constructor
  · intro lists
    have finished := lists.finished
    have reference : r.reference k ≠ [] := by
      intro absent
      rw [geodistance_absent opened cls absent] at finished
      exact Bool.false_ne_true finished
    have reply := geodistance_reply (P := L.platform) types opened cls reference
    have delivered := lists.delivered
    rw [reply] at finished delivered
    obtain ⟨page, early⟩ := listItems_finished finished
    -- the two pages are the same one, but have no name in common
    have same := page.symm.trans delivered
    have nothing : BerylDB.Store.page r.offset r.limit (r.met L.platform k) = [] := by
      refine List.eq_nil_iff_forall_not_mem.mpr fun name here => ?_
      exact met_not_within types (mem_of_mem_page here) (mem_of_mem_page (same ▸ here))
    have whole : r.plain.interrupted k = false := by
      by_contra stopped
      exact early (Bool.eq_true_of_not_eq_false stopped) nothing
    have consistent {name value : Bytes} (held : k.get r.database (keyRow name r.select intGeo) = some value)
        (taken : r.IsPlace (keyRow name r.select intGeo) ∨ r.Mistaken (keyRow name r.select intGeo))
        (close : ¬ Double.le (convtoNum r.value) (r.away L.platform k value) = true) : name ∈ r.met L.platform k := by
      rw [← listing_delivered types opened cls reference whole]
      exact lists.consistent name (by rw [held]; rfl)
        ((removing_get types writable opened reference whole held).mpr ⟨taken, close⟩)
    refine ⟨reference, whole, page_eq_nil.mp (same ▸ nothing), page_eq_nil.mp (met_whole whole ▸ nothing), ?_, ?_⟩
    · rintro row value ⟨name, other, rfl⟩ held le
      by_contra close
      exact met_not_within types (consistent held (.inl ⟨name, other, rfl⟩) close) (mem_within.mpr ⟨other, value, held, le⟩)
    · intro mistaken
      by_contra close
      obtain ⟨value, held⟩ : ∃ value, k.get r.database (keyRow r.key r.select intGeo) = some value := by
        by_contra none
        have missing : k.get r.database (keyRow r.key r.select intGeo) = .none :=
          Option.eq_none_iff_forall_ne_some.mpr fun value held => none ⟨value, held⟩
        exact reference (congrArg (Option.getD · []) missing)
      have own : r.reference k = value := congrArg (Option.getD · []) held
      rw [own] at close
      rcases mem_met (consistent held (.inr mistaken) close) with empty | ⟨other, -⟩
      · exact types.named (r := r) (by rw [held]; rfl) empty
      · exact other rfl
  · intro nothing
    have reply := geodistance_reply (P := L.platform) types opened cls nothing.reference
    have met := met_whole (P := L.platform) nothing.whole
    obtain ⟨finished, delivered⟩ := listItems_delivered (q := r.plain) rfl (r.met L.platform k)
    have beyond : page r.offset r.limit (r.met L.platform k) = [] := met ▸ page_eq_nil.mpr nothing.beyond
    have empty : (k.reply L.platform r).delivered = [] := by
      rw [reply, listScanned, nothing.whole, delivered]
      exact beyond
    refine ⟨by rw [reply, listScanned, nothing.whole]; exact finished,
      empty.trans (page_eq_nil.mpr nothing.within).symm, by rw [empty]; exact List.nodup_nil, fun name here gone => ?_⟩
    obtain ⟨value, held⟩ := Option.isSome_iff_exists.mp here
    rw [listing_delivered types opened cls nothing.reference nothing.whole, met]
    obtain ⟨taken, close⟩ := (removing_get types writable opened nothing.reference nothing.whole held).mp gone
    rcases taken with place | mistaken
    · have far : ¬ Double.le (r.away L.platform k value) (convtoNum r.value) = true := fun le =>
        close (nothing.closest _ value place held le)
      obtain ⟨name', other, same⟩ := place
      obtain rfl := (keyRow_inj.mp same).1
      refine List.mem_filterMap.mpr ⟨(_, value), mem_rows.mpr held, ?_⟩
      refine (if_neg far).trans ((if_neg keyRow_ne_nil).trans (placeName_iff.mpr ⟨other, rfl⟩))
    · rcases mistaken with absurd' | ⟨text, type, -, colon, same, shifted⟩
      · exact absurd absurd' keyRow_ne_nil
      · obtain ⟨rfl, rfl, rfl⟩ := (rowName_eq_keyRow colon).mp same.symm
        have own : r.reference k = value := congrArg (Option.getD · []) held
        exact absurd (own ▸ nothing.kept (.inr ⟨_, _, convtoString_ne_nil _, colon, rfl, shifted⟩)) close

/-- GDIST lists the places within the distance, in agreement with GREM, if and only if there is nothing to list. -/
theorem distances_listed_iff {s : Server} (reach : (Server.machine L.platform).Reachable s)
    (opened : s.kernel.Opened r.database) (cls : r.cls = .geodistance) :
    ListsWithin L.platform s.kernel r ↔ ListsNothing L s.kernel r :=
  listsWithin_iff (reachable_rowTypes reach) (reachable_inOrder reach).1 opened cls

end

def distanceQuery : Request := { placeQuery .geodistance 1 (lit "p") (lit "5") [] with limit := -1 }

theorem distances_listed_alone : ∃ s, (Server.machine Library.plain.platform).Reachable s ∧
    QueryBase.registered s.kernel (lit "db") (lit "p") 1 = some intGeo ∧
    ListsWithin Library.plain.platform s.kernel distanceQuery := by
  have h : ((Server.machine Library.plain.platform).exec (fun _ _ => True) Server.fresh
      [.request (placeQuery .geoadd 1 (lit "p") (lit "1") (lit "2"))]).any fun s =>
        (s.kernel.rows (lit "db")).toList.map Prod.fst = [keyRow (lit "p") 1 intGeo] ∧
        QueryBase.registered s.kernel (lit "db") (lit "p") 1 = some intGeo ∧
        (placeQuery .georem 1 (lit "p") (lit "5") []).reference s.kernel ≠ [] ∧
        (s.kernel.databases (lit "db")).closing = false := by decide
  obtain ⟨s, reach, rows, registered, reference, opened⟩ := Machine.exec_holds h (.initial Server.fresh_initial)
  have only {row value : Bytes} (held : s.kernel.get (lit "db") row = some value) : row = keyRow (lit "p") 1 intGeo := by
    have named : row ∈ (s.kernel.rows (lit "db")).toList.map Prod.fst := List.mem_map.mpr ⟨_, mem_rows.mpr held, rfl⟩
    rwa [rows, List.mem_singleton] at named
  have alone {name value : Bytes} (held : s.kernel.get (lit "db") (keyRow name 1 intGeo) = some value) : name = lit "p" :=
    (keyRow_inj.mp (only held)).1
  refine ⟨s, reach, registered, (distances_listed_iff (r := distanceQuery) reach opened rfl).mpr
    ⟨reference, rfl, .inl (List.length_eq_zero_iff.mpr ?_), .inl (List.length_eq_zero_iff.mpr ?_), ?_, fun mistaken => ?_⟩⟩
  · refine List.eq_nil_iff_forall_not_mem.mpr fun name here => ?_
    obtain ⟨other, value, held, -⟩ := mem_within.mp here
    exact other (alone held)
  · refine List.eq_nil_iff_forall_not_mem.mpr fun name here => ?_
    obtain ⟨⟨row, value⟩, here, found⟩ := List.mem_filterMap.mp here
    obtain ⟨-, found⟩ := Option.ite_none_left_eq_some.mp found
    rw [if_neg fun empty => keyRow_ne_nil ((only (mem_rows.mp here)).symm.trans empty)] at found
    obtain ⟨other, same⟩ := placeName_iff.mp found
    exact other (keyRow_inj.mp (same.symm.trans (only (mem_rows.mp here)))).1
  · rintro row value ⟨name, other, rfl⟩ held -
    exact absurd (alone held) other
  · exact absurd ((mistaken_keyRow (by decide) (by decide)).mp mistaken) (by decide)

/-- A place within the distance is not listed. -/
theorem distances_unlisted : ∃ s, (Server.machine Library.plain.platform).Reachable s ∧ s.kernel.Opened (lit "db") ∧
    lit "q" ∈ distanceQuery.within Library.plain.platform s.kernel ∧
    ¬ ListsWithin Library.plain.platform s.kernel distanceQuery := by
  obtain ⟨s, reach, opened, -, ⟨value, held⟩, -⟩ := two_places
  have close := plain_close distanceQuery s.kernel value
  have within : lit "q" ∈ distanceQuery.within
      Library.plain.platform s.kernel := mem_within.mpr ⟨by decide, value, held, (Bool.and_eq_true_iff.mp close).1⟩
  refine ⟨s, reach, opened, within, fun lists => ?_⟩
  have nothing := (listsWithin_iff (r := distanceQuery) (reachable_rowTypes reach) (reachable_inOrder reach).1 opened rfl).mp lists
  rcases nothing.within with empty | ⟨limited, -⟩
  · exact List.ne_nil_of_mem within (List.length_eq_zero_iff.mp empty)
  · exact limited rfl

end BerylDB.Store
