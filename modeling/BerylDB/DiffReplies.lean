import BerylDB.Formats

/-! # Replies of DIFF

All four loops of `diff_hints.cpp` fill `VecData`.  The attached requests have no type, so that `Process` prints nothing
for them, and for maps it prints `mmap`. -/
namespace BerylDB.Store
open Text Kernel Transition

/-! ## Parts of a paged reply -/

namespace Paging

variable {α : Type} {offset limit : ℤ} {p : Paging α} {item : α} {items : List α} {insert : List α → α → List α}

/-- What is attached is full, and the part being filled is not. -/
structure Chunked (p : Paging α) : Prop where
  full : ∀ part ∈ p.sent, part.2.length = iterLimit
  filling : p.result.length = p.aux % iterLimit

theorem Chunked.start : Chunked ({} : Paging α) := ⟨by simp, rfl⟩

theorem Chunked.push (grows : ∀ items item, (insert items item).length = items.length + 1) (h : p.Chunked) :
    (push insert p item).Chunked := by
  have longer : (insert p.result item).length = p.aux % iterLimit + 1 := by rw [grows, h.filling]
  have aux : (p.collect insert item).aux = p.aux + 1 := rfl
  unfold Paging.push
  split
  · rename_i last
    have fifty : p.aux % iterLimit + 1 = iterLimit := by
      rw [aux] at last
      unfold iterLimit at last ⊢
      omega
    refine ⟨fun part here => ?_, last.symm⟩
    rcases List.mem_append.mp here with earlier | here
    · exact h.full part earlier
    · rw [List.mem_singleton.mp here]
      exact longer.trans fifty
  · rename_i more
    refine ⟨h.full, longer.trans ?_⟩
    rw [aux] at more ⊢
    unfold iterLimit at more ⊢
    omega

theorem Chunked.loop (grows : ∀ items item, (insert items item).length = items.length + 1) (items : List α)
    (h : p.Chunked) : (loop insert offset limit items p).1.Chunked := by
  induction items generalizing p with
  | nil => exact h
  | cons item items ih =>
    by_cases takes : Takes offset limit p
    · rw [loop_taken takes]
      have next : (Paging.push insert p item).Chunked := h.push grows
      split
      · exact next
      · exact ih (p := (Paging.push insert p item).count) ⟨next.full, next.filling⟩
    · rw [loop_skipped takes]
      exact ih (p := p.count) ⟨h.full, h.filling⟩

/-- The loop is left early when what is left to take reaches the limit. -/
theorem loop_broke (items : List α) (p : Paging α) : (loop insert offset limit items p).2 = true ↔
    (p.aux : ℤ) < limit ∧ limit ≤ p.aux + (rest offset limit p items).length := by
  induction items generalizing p with
  | nil =>
    simp only [loop, rest, List.drop_nil, List.take_nil, ite_self, List.length_nil]
    simp
  | cons item items ih =>
    by_cases takes : Takes offset limit p
    · rw [loop_taken takes, rest_taken takes (push insert p item).count (by simp [count]) (by simp [count]),
        List.length_cons]
      have aux : (push insert p item).count.aux = p.aux + 1 := push_aux
      split
      · rename_i last
        rw [push_aux] at last
        simp only [true_iff]
        omega
      · rename_i more
        rw [push_aux] at more
        rw [ih, aux]
        omega
    · rw [loop_skipped takes, rest_skipped takes p.count rfl rfl, ih]
      rfl

end Paging

theorem lastPart_suffix {offset limit : ℤ} {items : List Bytes} :
    (Paging.loop pushBack offset limit items {}).1.result <:+ page offset limit items := by
  have delivered : (Paging.loop pushBack offset limit items {}).1.delivered = page offset limit items :=
    Paging.loop_delivered (fun _ _ => rfl) items {}
  exact delivered ▸ List.suffix_append _ _

/-- The last part of a list is the whole page if and only if the page is shorter than one part. -/
theorem lastPart_iff {offset limit : ℤ} {items : List Bytes} :
    (Paging.loop pushBack offset limit items {}).1.result.length = (page offset limit items).length ↔
      (page offset limit items).length < iterLimit := by
  have chunked : (Paging.loop pushBack offset limit items {}).1.Chunked :=
    Paging.Chunked.start.loop (fun _ _ => by simp [pushBack]) items
  have delivered : (Paging.loop pushBack offset limit items {}).1.delivered = page offset limit items :=
    Paging.loop_delivered (fun _ _ => rfl) items {}
  have short : (Paging.loop pushBack offset limit items {}).1.result.length < iterLimit :=
    chunked.filling ▸ Nat.mod_lt _ iterLimit_pos
  rw [← delivered, Paging.delivered, List.length_append]
  cases sent : (Paging.loop pushBack offset limit items {}).1.sent with
  | nil => simpa using short
  | cons part parts =>
    have full : part.2.length = iterLimit := chunked.full part (sent ▸ List.mem_cons_self)
    have positive := iterLimit_pos
    rw [List.flatMap_cons, List.length_append, full]
    omega

/-! ## What is printed -/

namespace Flush

/-- The lines of the items, as an API agent gets them. -/
def lines (q : QueryBase) : Flush → List Bytes
  | .vector comillas _ => q.vecData.map fun item => cStr (quoted comillas item)
  | .mmap comillas _ _ => q.mmap.map fun (ikey, item) => pair ikey (quoted comillas item)
  | .locations => q.vecData.map cStr
  | .counts => q.nmap.map fun (type, item) => pair (typeString type true) (convtoString item)
  | .response => [quoted true (cStr q.response)]
  | .size => [pair q.size q.response]
  | .typeName => (typeFormat q.identified false).toList

variable {last : Bool} {subresult : ℕ} {q : QueryBase}

theorem mem_framed {rule title : Bytes} {rows : List (Bytes × Bytes)} {row : Bytes × Bytes} (here : row ∈ rows) :
    row.2 ∈ framed rule title last subresult rows := by
  unfold framed
  rw [if_neg fun empty => List.ne_nil_of_mem here empty.2]
  refine List.mem_append_left _ (List.mem_append_right _ (List.mem_flatMap.mpr ⟨row, here, ?_⟩))
  exact List.mem_cons_of_mem _ List.mem_cons_self

/-- Each line is formatted by the flush. -/
theorem lines_subset (flush : Flush) : flush.lines q ⊆ flush.outputs last q := by
  intro line here
  cases flush with
  | vector comillas title =>
    obtain ⟨item, held, rfl⟩ := List.mem_map.mp here
    exact mem_framed (List.mem_map_of_mem held)
  | mmap comillas title subtitle =>
    obtain ⟨e, held, rfl⟩ := List.mem_map.mp here
    exact mem_framed (List.mem_map_of_mem held)
  | locations =>
    obtain ⟨item, held, rfl⟩ := List.mem_map.mp here
    exact List.mem_append_right _ (List.mem_flatMap.mpr ⟨item, held, List.mem_cons_of_mem _ List.mem_cons_self⟩)
  | counts =>
    obtain ⟨e, held, rfl⟩ := List.mem_map.mp here
    refine List.mem_append_left _ (List.mem_append_right _ (List.mem_flatMap.mpr ⟨e, held, ?_⟩))
    exact List.mem_append_right _ (List.mem_cons_of_mem _ List.mem_cons_self)
  | response | size | typeName => exact here

end Flush

namespace QueryBase

/-- The lines that the client gets for a reply: of its attached results, and then of the final one. -/
def lines (c : QueryClass) (q : QueryBase) : List Bytes :=
  (q.attached.flatMap fun part =>
    ((c.partFlush q.key).map fun flush => flush.lines (q.ofPart part)).getD []) ++
  if q.access.processed then ((c.flush q.key q.identified q.flags).map fun flush => flush.lines q).getD []
  else []

end QueryBase

/-- The difference that DIFF computes from the data of two keys of one type. -/
def difference (type load value : Bytes) : List Bytes :=
  if type = intMap then
    Run.compareMap ((MapHandler.create value).toList.map (·.1)) ((MapHandler.create load).toList.map (·.1))
  else if type = intMmap then
    Run.compareMap ((MultiMapHandler.create value).map (·.1)) ((MultiMapHandler.create load).map (·.1))
  else Run.compareList (ListHandler.create value) (ListHandler.create load)

/-- `CheckIterator` does not fail before the loop has met the last item of the slice. -/
def Request.Completes (r : Request) (items : List Bytes) : Prop :=
  ∀ n ∈ r.interrupt, items.length ≤ n ∨ 0 < r.limit ∧ r.offset.toNat + r.limit.toNat ≤ n

section
variable {P : Platform} {k : Kernel} {r : Request} {q : QueryBase} {type load value : Bytes} {items : List Bytes}

theorem page_take {offset limit : ℤ} {n : ℕ} (positive : 0 < limit) (inside : offset.toNat + limit.toNat ≤ n) :
    page offset limit (items.take n) = page offset limit items := by
  unfold page
  rw [if_neg (by omega), if_neg (by omega), List.drop_take, List.take_take]
  congr 1
  omega

theorem page_reaches {offset limit : ℤ} {n : ℕ} (short : n < items.length) :
    0 < limit ∧ limit ≤ (page offset limit (items.take n)).length ↔ 0 < limit ∧ offset.toNat + limit.toNat ≤ n := by
  refine and_congr_right fun positive => ?_
  unfold page
  rw [if_neg (by omega), List.length_take, List.length_drop, List.length_take]
  omega

theorem listItems_vecData (stopped : Bool) : (listItems q items stopped).vecData =
    if (!(Paging.loop pushBack q.offset q.limit items {}).2 && stopped) = true then q.vecData
    else (Paging.loop pushBack q.offset q.limit items {}).1.result := by
  unfold listItems
  dsimp only
  split <;> rfl

variable (items) in
/-- The final result of a list that is not cut short has the last part of it, and otherwise nothing. -/
theorem listDiff_vecData (same : q.interrupt = r.interrupt ∧ q.offset = r.offset ∧ q.limit = r.limit)
    (new : q.vecData = []) : (r.Completes items → ∃ items', page r.offset r.limit items' = page r.offset r.limit items ∧
        (Run.listDiff q items).vecData = (Paging.loop pushBack r.offset r.limit items' {}).1.result) ∧
      (¬ r.Completes items → (Run.listDiff q items).vecData = []) := by
  obtain ⟨interrupt, offset, limit⟩ := same
  unfold Run.listDiff Request.Completes
  rw [interrupt]
  cases r.interrupt with
  | none =>
    refine ⟨fun _ => ⟨items, rfl, ?_⟩, by simp⟩
    rw [listItems_vecData, Bool.and_false, if_neg Bool.false_ne_true, offset, limit]
  | some n =>
    simp only [Option.mem_def, Option.some.injEq, forall_eq', listItems_vecData, offset, limit, new]
    by_cases whole : items.length ≤ n
    · refine ⟨fun _ => ⟨items, rfl, ?_⟩, fun cut => absurd (.inl whole) cut⟩
      rw [List.take_of_length_le whole, if_neg (by simp [whole])]
    · have broke : (Paging.loop pushBack r.offset r.limit (items.take n) {}).2 = true ↔ _ :=
        Paging.loop_broke (items.take n) {}
      rw [Paging.rest_start, Nat.cast_zero, zero_add, page_reaches (not_le.mp whole)] at broke
      rw [or_iff_right whole, ← broke]
      refine ⟨fun early => ⟨items.take n, ?_, ?_⟩, fun late => ?_⟩
      · exact page_take (broke.mp early).1 (broke.mp early).2
      · rw [if_neg (by simp [early])]
      · rw [if_pos (by simpa [late] using whole)]

variable (items) in
/-- What a difference leaves as it was, and that the reply comes to `Process`. -/
theorem listDiff_frame (new : q.mmap = []) (accepted : q.access = .statusOk) :
    (Run.listDiff q items).identified = q.identified ∧ (Run.listDiff q items).mmap = [] ∧
      (Run.listDiff q items).access.processed = true := by
  have frame (items : List Bytes) (stopped : Bool) : (listItems q items stopped).identified = q.identified ∧
      (listItems q items stopped).mmap = [] ∧ (listItems q items stopped).access.processed = true := by
    unfold listItems
    dsimp only
    split
    · exact ⟨rfl, new, rfl⟩
    · refine ⟨rfl, new, ?_⟩
      change q.access.processed = true
      rw [accepted]
      rfl
  unfold Run.listDiff
  split
  · exact frame _ _
  · exact frame _ _

/-- The lines of a difference are those of its last part, and for maps there are none. -/
theorem listDiff_lines {mapped : Option Bytes} : (Run.listDiff (r.found type mapped) items).lines .diff =
    if type = intList ∨ type = intVector then (Run.listDiff (r.found type mapped) items).vecData.map cStr else [] := by
  obtain ⟨identified, mmap, processed⟩ :=
    listDiff_frame (q := r.found type mapped) items rfl rfl
  have parts (key : Bytes) : QueryClass.diff.partFlush key = none := by
    change QueryClass.diff.flush [] [] .none = none
    decide
  unfold QueryBase.lines
  simp only [parts, Option.map_none, Option.getD_none, processed, identified, if_true, QueryClass.flush,
    Request.found_identified]
  rw [List.flatMap_eq_nil_iff.mpr fun _ _ => rfl, List.nil_append]
  by_cases list : type = intList
  · simp [list, Flush.lines, Flush.quoted]
  · by_cases vector : type = intVector
    · simp [vector, Flush.lines, Flush.quoted, show intVector ≠ intList from by decide]
    · by_cases maps : type = intMmap ∨ type = intMap
      · simp [list, vector, maps, Flush.lines, mmap]
      · simp [list, vector, maps]

theorem map_cStr_eq : items.map cStr = items ↔ ∀ item ∈ items, 0 ∉ item := by
  induction items with
  | nil => simp
  | cons item items ih => rw [List.map_cons, List.cons.injEq, ih, cStr_eq_iff, List.forall_mem_cons]

/-- A difference is printed whole if and only if there is nothing to print, or it is one of lists or vectors that is not cut
short, is shorter than a part, and has no item with a NUL. -/
theorem listDiff_printed {mapped : Option Bytes} :
    (Run.listDiff (r.found type mapped) items).lines .diff = page r.offset r.limit items ↔
      page r.offset r.limit items = [] ∨ (type = intList ∨ type = intVector) ∧ r.Completes items ∧
        (page r.offset r.limit items).length < iterLimit ∧ ∀ item ∈ page r.offset r.limit items, 0 ∉ item := by
  rw [listDiff_lines]
  obtain ⟨whole, cut⟩ := listDiff_vecData (q := r.found type mapped) (r := r) items ⟨rfl, rfl, rfl⟩ rfl
  by_cases own : type = intList ∨ type = intVector
  · rw [if_pos own, and_iff_right own]
    by_cases completes : r.Completes items
    · obtain ⟨items', same, last⟩ := whole completes
      rw [last, and_iff_right completes, ← same, ← lastPart_iff, ← map_cStr_eq]
      have suffix : (Paging.loop pushBack r.offset r.limit items' {}).1.result <:+ page r.offset r.limit items' :=
        lastPart_suffix
      constructor
      · intro printed
        have length := congrArg List.length printed
        rw [List.length_map] at length
        exact .inr ⟨length, suffix.eq_of_length length ▸ printed⟩
      · rintro (none | ⟨length, plain⟩)
        · rw [none, List.suffix_nil] at suffix
          rw [suffix, none, List.map_nil]
        · rw [suffix.eq_of_length length, plain]
    · rw [cut completes, List.map_nil, eq_comm]
      exact (or_iff_left fun all => completes all.1).symm
  · rw [if_neg own, eq_comm]
    exact (or_iff_left fun all => own all.1).symm

/-- DIFF runs on the row of its key when `CheckDest` finds the type of the other key, and is refused otherwise. -/
theorem reply_diff (opened : k.Opened r.database) (registered : r.registered k = some type) (cls : r.cls = .diff) :
    (Allows .diff k r type → k.reply P r = Run.diff k (r.found type (k.get r.database (r.row type)))) ∧
      (¬ Allows .diff k r type → (k.reply P r).attached = [] ∧ (k.reply P r).access.processed = false) := by
  have loaded : r.plain.getRegistry k r.select r.key true = _ := getRegistry_some true registered
  have known : type ≠ processNull := typeRegs_ne_null (registered_some registered).1
  rw [Kernel.reply, prepare_opened opened]
  unfold QueryBase.dispatch
  rw [show r.plain.select = r.select from rfl, show r.plain.key = r.key from rfl, loaded]
  simp only [cls, QueryClass.queryType, known, if_false, Allows]
  split
  · rename_i own
    exact ⟨fun _ => rfl, fun refused => absurd own refused⟩
  · rename_i other
    refine ⟨fun own => ?_, fun _ => ⟨rfl, rfl⟩⟩
    exact absurd (own.symm.trans other) (by decide)
  · rename_i missing _
    exact ⟨fun own => absurd own missing, fun _ => ⟨rfl, rfl⟩⟩

theorem lines_refused (new : q.attached = []) (refused : q.access.processed = false) : q.lines .diff = [] := by
  unfold QueryBase.lines
  rw [new, refused]
  rfl

theorem diff_listed {q : QueryBase} (found : k.get q.database (keyRow q.value q.select q.identified) = some value)
    (kind : q.identified ∈ [intList, intVector, intMap, intMmap]) :
    Run.diff k q = Run.listDiff q (difference q.identified (q.destValue k) value) := by
  unfold Run.diff difference
  rw [found]
  simp only [List.mem_cons, List.not_mem_nil, or_false] at kind
  rcases kind with kind | kind | kind | kind <;> rw [kind] <;> rfl

/-- What DIFF computes for a key and another one of the same type. -/
def Request.diffItems (r : Request) (k : Kernel) (type : Bytes) : List Bytes :=
  difference type ((k.get r.database (r.row type)).getD []) ((k.get r.database (keyRow r.value r.select type)).getD [])

/-- The client gets the slice of the difference of two registered keys if and only if the slice is empty, or the keys are
lists or vectors, the query is let in and not cut short, and the slice is shorter than a part and has no NUL. -/
theorem diff_delivers_iff (cls : r.cls = .diff) (registered : r.registered k = some type)
    (other : QueryBase.registered k r.database r.value r.select = some type)
    (kind : type ∈ [intList, intVector, intMap, intMmap]) :
    (k.reply P r).lines .diff = page r.offset r.limit (r.diffItems k type) ↔
      page r.offset r.limit (r.diffItems k type) = [] ∨
        (k.Opened r.database ∧ Allows .diff k r type) ∧ (type = intList ∨ type = intVector) ∧
          r.Completes (r.diffItems k type) ∧ (page r.offset r.limit (r.diffItems k type)).length < iterLimit ∧
            ∀ item ∈ page r.offset r.limit (r.diffItems k type), 0 ∉ item := by
  obtain ⟨-, load, held⟩ := registered_some registered
  obtain ⟨-, value, held'⟩ := registered_some other
  by_cases admitted : k.Opened r.database ∧ Allows .diff k r type
  · have ran : k.reply P r = Run.listDiff (r.found type (k.get r.database (r.row type))) (r.diffItems k type) := by
      rw [(reply_diff admitted.1 registered cls).1 admitted.2,
        diff_listed (q := r.found type (k.get r.database (r.row type))) held' kind]
      have text : (r.found type (k.get r.database (r.row type))).destValue k = load :=
        destValue_found held (.inr rfl) rfl rfl rfl
      rw [text, Request.diffItems, held', show k.get r.database (r.row type) = some load from held]
      rfl
    rw [ran, and_iff_right admitted]
    exact listDiff_printed
  · have silent : (k.reply P r).lines .diff = [] := by
      by_cases opened : k.Opened r.database
      · obtain ⟨new, refused⟩ := (reply_diff (P := P) opened registered cls).2 fun allows => admitted ⟨opened, allows⟩
        exact lines_refused new refused
      · rw [Kernel.reply, prepare_closing opened]
        exact lines_refused rfl rfl
    rw [silent, eq_comm]
    exact (or_iff_left fun all => admitted all.1).symm

end

/-- DIFF of the keys `a` and `b` of the database `db`, without a limit. -/
def diffQuery : Request := { inDb .diff (lit "a") (lit "b") with limit := -1 }

theorem diff_delivers_lists : ∃ s, (Server.machine Server.integers).Reachable s ∧
    (s.kernel.reply Server.integers diffQuery).lines .diff = [lit "y"] := by
  have h : ((Server.machine Server.integers).exec (fun _ _ => True) Server.fresh
      [.request (inDb .lpush (lit "a") (lit "x")), .request (inDb .lpush (lit "b") (lit "y"))]).any fun s =>
        QueryBase.registered s.kernel (lit "db") (lit "a") 1 = some intList ∧
          QueryBase.registered s.kernel (lit "db") (lit "b") 1 = some intList ∧
          page 0 (-1) (diffQuery.diffItems s.kernel intList) = [lit "y"] ∧
          (s.kernel.databases (lit "db")).closing = false ∧ Allows .diff s.kernel diffQuery intList := by decide
  obtain ⟨s, reached, registered, other, items, admitted⟩ := Machine.exec_holds h (.initial Server.fresh_initial)
  have delivers := (diff_delivers_iff (P := Server.integers) (r := diffQuery) rfl registered other (by decide)).mpr
  refine ⟨s, reached, (delivers (.inr ⟨admitted, .inl rfl, nofun, ?_⟩)).trans items⟩
  rw [show page diffQuery.offset diffQuery.limit (diffQuery.diffItems s.kernel intList) = [lit "y"] from items]
  decide

/-- The difference of two maps with one key each is not printed. -/
theorem diff_of_maps_lost : ∃ s, (Server.machine Server.integers).Reachable s ∧
    QueryBase.registered s.kernel (lit "db") (lit "a") 1 = some intMap ∧
    QueryBase.registered s.kernel (lit "db") (lit "b") 1 = some intMap ∧
    diffQuery.diffItems s.kernel intMap = [lit "g"] ∧ (s.kernel.reply Server.integers diffQuery).finished = true ∧
    ¬ (s.kernel.reply Server.integers diffQuery).lines .diff = page 0 (-1) (diffQuery.diffItems s.kernel intMap) := by
  have h : ((Server.machine Server.integers).exec (fun _ _ => True) Server.fresh
      [.request { inDb .hset (lit "a") (lit "x") with hesh := lit "f" },
        .request { inDb .hset (lit "b") (lit "x") with hesh := lit "g" }]).any fun s =>
        QueryBase.registered s.kernel (lit "db") (lit "a") 1 = some intMap ∧
          QueryBase.registered s.kernel (lit "db") (lit "b") 1 = some intMap ∧
          diffQuery.diffItems s.kernel intMap = [lit "g"] ∧ (s.kernel.reply Server.integers diffQuery).finished = true ∧
          ¬ (s.kernel.reply Server.integers diffQuery).lines .diff = page 0 (-1) (diffQuery.diffItems s.kernel intMap) := by
    decide
  obtain ⟨s, reached, holds⟩ := Machine.exec_holds h (.initial Server.fresh_initial)
  exact ⟨s, reached, holds⟩

end BerylDB.Store
