import BerylDB.NodeStreams

/-! # Splitting by token streams

What the calls of `items_extract` yield one after another: the segments between the separators, or all fields when empty
ones are allowed. -/
namespace BerylDB.Text.NodeStream

/-- The constructor. -/
def nodeStream (source : Bytes) (separator : UInt8) (allowempty : Bool) : NodeStream :=
  ⟨source, separator, 0, allowempty⟩

/-- The stream after that many calls. -/
def afterCalls : ℕ → NodeStream → NodeStream
  | 0, s => s
  | k + 1, s => afterCalls k s.itemsExtract.2

/-- A piece from `i` up to `j` without the separator that is not empty and cannot be extended. -/
structure Segment (sep : UInt8) (source : Bytes) (i j : ℕ) : Prop where
  nonempty : i < j
  inside : j ≤ source.length
  plain : ∀ k, i ≤ k → k < j → source[k]? ≠ some sep
  left : i = 0 ∨ source[i - 1]? = some sep
  right : j = source.length ∨ source[j]? = some sep

def slice (source : Bytes) (bounds : ℕ × ℕ) : Bytes := (source.drop bounds.1).take (bounds.2 - bounds.1)

/-- The segments that a stream has in front of it, and what its calls make of them. -/
structure Splits (s : NodeStream) (bounds : List (ℕ × ℕ)) : Prop where
  ordered : bounds.Pairwise fun a b => a.2 < b.1
  segments : ∀ i j, (i, j) ∈ bounds ↔ s.pos ≤ i ∧ Segment s.sep s.tokens i j
  extracted : ∀ k, (afterCalls k s).itemsExtract.1 = bounds[k]?.map (slice s.tokens)
  unread : ∀ k b, bounds[k]? = some b → (afterCalls (k + 1) s).getRemaining = s.tokens.drop (b.2 + 1)
  finished : ∀ k, bounds.length < k → (afterCalls k s).getRemaining = []

section
variable {s : NodeStream} {sep c : UInt8} {source : Bytes} {i j i' j' k pos : ℕ}

/-! ## Positions -/

theorem findFirst_none {p : UInt8 → Bool} (none : findFirst p source pos = none) (k : ℕ) (low : pos ≤ k)
    (char : source[k]? = some c) : p c = false := by
  refine findFirst_eq_none.mp none c (List.mem_of_getElem? (i := k - pos) ?_)
  rw [List.getElem?_drop, Nat.add_sub_cancel' low, char]

theorem findFirst_some {p : UInt8 → Bool} (found : findFirst p source pos = some i) : pos ≤ i ∧
    (∃ c, source[i]? = some c ∧ p c = true) ∧ ∀ k c, pos ≤ k → k < i → source[k]? = some c → p c = false := by
  obtain ⟨n, hn, rfl⟩ := Option.map_eq_some_iff.mp found
  obtain ⟨inside, here, before⟩ := List.findIdx?_eq_some_iff_getElem.mp hn
  refine ⟨Nat.le_add_right _ _, ⟨_, ?_, here⟩, fun k c low high char => ?_⟩
  · rw [← List.getElem?_drop]
    exact List.getElem?_eq_getElem inside
  · have first := before (k - pos) (by omega)
    have same : (source.drop pos)[k - pos]? = some c := by rw [List.getElem?_drop, Nat.add_sub_cancel' low, char]
    rw [(List.getElem?_eq_some_iff.mp same).2] at first
    simpa using first

theorem getRemaining_eq (s : NodeStream) : s.getRemaining = s.tokens.drop s.pos := by
  unfold getRemaining streamFinish
  by_cases finish : s.tokens.length < s.pos
  · simp [finish, List.drop_eq_nil_of_le (Nat.le_of_lt finish)]
  · simp [finish]

/-- Two segments are the same, or a separator stands between them. -/
theorem Segment.lt_of_le (h : Segment sep source i j) (h' : Segment sep source i' j') (first : i ≤ i') :
    (i, j) = (i', j') ∨ j < i' := by
  rcases first.eq_or_lt with rfl | later
  · refine .inl (Prod.ext rfl ?_)
    have ends {a b : ℕ} (ha : Segment sep source i a) (hb : Segment sep source i b) : ¬ a < b := fun shorter => by
      rcases ha.right with last | stop
      · exact absurd hb.inside (by omega)
      · exact hb.plain a (Nat.le_of_lt ha.nonempty) shorter stop
    exact le_antisymm (not_lt.mp (ends h' h)) (not_lt.mp (ends h h'))
  · refine .inr ?_
    have stop := h'.left.resolve_left (by omega)
    by_contra inside
    exact h.plain (i' - 1) (by omega) (by omega) stop

/-! ## One call -/

/-- A stream stands at its start, behind a separator or behind its end. -/
def Standing (s : NodeStream) : Prop := s.pos = 0 ∨ s.tokens.length < s.pos ∨ s.tokens[s.pos - 1]? = some s.sep

theorem itemsExtract_finished (finish : s.tokens.length < s.pos) : s.itemsExtract = (none, s) :=
  if_pos (decide_eq_true finish)

/-- A call extracts the first segment in front of the stream, and fails where there is none. -/
theorem itemsExtract_segment (plain : s.allowEmpty = false) (standing : s.Standing) :
    (∃ pos, s.itemsExtract = (none, { s with pos := pos }) ∧ s.tokens.length < pos ∧
      ∀ i j, s.pos ≤ i → ¬ Segment s.sep s.tokens i j) ∨
    ∃ i j, s.itemsExtract = (some (slice s.tokens (i, j)), { s with pos := j + 1 }) ∧ s.pos ≤ i ∧
      Segment s.sep s.tokens i j ∧ ∀ i' j', s.pos ≤ i' → Segment s.sep s.tokens i' j' → i ≤ i' := by
  by_cases finish : s.tokens.length < s.pos
  · refine .inl ⟨s.pos, itemsExtract_finished finish, finish, fun i j low h => ?_⟩
    exact absurd (h.nonempty.trans_le h.inside) (by omega)
  unfold itemsExtract streamFinish
  rw [if_neg (by simpa using finish), if_neg (by simp [plain])]
  have begins {i j : ℕ} (h : Segment s.sep s.tokens i j) : ∃ c, s.tokens[i]? = some c ∧ c ≠ s.sep :=
    ⟨_, List.getElem?_eq_getElem (h.nonempty.trans_le h.inside), fun same => h.plain i le_rfl h.nonempty
      ((List.getElem?_eq_getElem (h.nonempty.trans_le h.inside)).trans (congrArg some same))⟩
  cases start : findFirst (· ≠ s.sep) s.tokens s.pos with
  | none =>
    refine .inl ⟨_, rfl, Nat.lt_succ_self _, fun i j low h => ?_⟩
    obtain ⟨c, char, other⟩ := begins h
    simpa [other] using findFirst_none start i low char
  | some i =>
    obtain ⟨low, ⟨c, here, other⟩, skipped⟩ := findFirst_some start
    have inside : i < s.tokens.length := (List.getElem?_eq_some_iff.mp here).1
    have left : i = 0 ∨ s.tokens[i - 1]? = some s.sep := by
      rcases low.eq_or_lt with same | later
      · rw [← same]
        exact standing.imp_right fun rest => rest.resolve_left finish
      · have char := List.getElem?_eq_getElem (l := s.tokens) (i := i - 1) (by omega)
        have separator := skipped (i - 1) _ (by omega) (by omega) char
        exact .inr (char.trans (congrArg some (by simpa using separator)))
    have first (i' j' : ℕ) (low' : s.pos ≤ i') (h : Segment s.sep s.tokens i' j') : i ≤ i' := by
      obtain ⟨c', char, other'⟩ := begins h
      by_contra before
      simpa [other'] using skipped i' c' low' (by omega) char
    refine .inr ⟨i, _, rfl, low, ?_, first⟩
    cases stop : findFirst (· = s.sep) s.tokens i with
    | none =>
      refine ⟨inside, le_rfl, fun k low' _ separator => ?_, left, .inl rfl⟩
      simpa using findFirst_none stop k low' separator
    | some j =>
      obtain ⟨low', ⟨d, there, separator⟩, passed⟩ := findFirst_some stop
      have same : d = s.sep := by simpa using separator
      have behind : i ≠ j := by
        rintro rfl
        rw [here] at there
        simp [Option.some.inj there, same] at other
      refine ⟨lt_of_le_of_ne low' behind, (List.getElem?_eq_some_iff.mp there).1.le, fun k low' high char => ?_, left,
        .inr (there.trans (congrArg some same))⟩
      simpa using passed k s.sep low' high char

/-! ## All calls -/

theorem afterCalls_finished (finish : s.tokens.length < s.pos) (k : ℕ) : afterCalls k s = s := by
  induction k with
  | zero => rfl
  | succ k ih => rw [afterCalls, itemsExtract_finished finish, ih]

theorem Splits.nil (fails : s.itemsExtract = (none, { s with pos := pos })) (finish : s.tokens.length < pos)
    (no_segment : ∀ i j, s.pos ≤ i → ¬ Segment s.sep s.tokens i j) : Splits s [] := by
  have later (k : ℕ) : afterCalls (k + 1) s = { s with pos := pos } := by
    rw [afterCalls, fails]
    exact afterCalls_finished finish k
  refine ⟨.nil, fun i j => ?_, fun k => ?_, by simp, fun k some => ?_⟩
  · simpa using no_segment i j
  · cases k with
    | zero => exact congrArg Prod.fst fails
    | succ k =>
      rw [later, itemsExtract_finished finish]
      rfl
  · obtain ⟨k, rfl⟩ := Nat.exists_eq_succ_of_ne_zero (Nat.ne_of_gt some)
    rw [later, getRemaining_eq]
    exact List.drop_eq_nil_of_le (Nat.le_of_lt finish)

theorem Splits.cons {bounds : List (ℕ × ℕ)}
    (first : s.itemsExtract = (some (slice s.tokens (i, j)), { s with pos := j + 1 })) (low : s.pos ≤ i)
    (segment : Segment s.sep s.tokens i j) (least : ∀ i' j', s.pos ≤ i' → Segment s.sep s.tokens i' j' → i ≤ i')
    (rest : Splits { s with pos := j + 1 } bounds) : Splits s ((i, j) :: bounds) := by
  have next (k : ℕ) : afterCalls (k + 1) s = afterCalls k { s with pos := j + 1 } := by rw [afterCalls, first]
  refine ⟨List.pairwise_cons.mpr ⟨fun b hb => ((rest.segments b.1 b.2).mp hb).1, rest.ordered⟩, fun i' j' => ?_,
    fun k => ?_, fun k b hb => ?_, fun k some => ?_⟩
  · rw [List.mem_cons, rest.segments]
    constructor
    · rintro (same | ⟨behind, h⟩)
      · obtain ⟨rfl, rfl⟩ := Prod.mk.inj same
        exact ⟨low, segment⟩
      · have := segment.nonempty
        exact ⟨by dsimp only at behind; omega, h⟩
    · rintro ⟨low', h⟩
      exact (segment.lt_of_le h (least i' j' low' h)).imp Eq.symm fun behind => ⟨behind, h⟩
  · cases k with
    | zero => exact congrArg Prod.fst first
    | succ k =>
      rw [next, List.getElem?_cons_succ]
      exact rest.extracted k
  · cases k with
    | zero =>
      obtain rfl := Option.some.inj hb
      rw [next, getRemaining_eq]
      rfl
    | succ k =>
      rw [next]
      exact rest.unread k b (by simpa using hb)
  · obtain ⟨k, rfl⟩ := Nat.exists_eq_succ_of_ne_zero (Nat.ne_of_gt (Nat.zero_lt_of_lt some))
    rw [next]
    exact rest.finished k (by simpa using some)

/-- Each call moves the position on, so that the induction is on what lies in front of it. -/
theorem exists_splits (plain : s.allowEmpty = false) (standing : s.Standing) : ∃ bounds, Splits s bounds := by
  induction left : s.tokens.length + 1 - s.pos using Nat.strongRecOn generalizing s with
  | ind n ih =>
    rcases itemsExtract_segment plain standing with
      ⟨pos, fails, finish, no_segment⟩ | ⟨i, j, first, low, segment, least⟩
    · exact ⟨[], .nil fails finish no_segment⟩
    · have nonempty := segment.nonempty
      have inside := segment.inside
      have shorter : s.tokens.length + 1 - (j + 1) < n := by omega
      have standing' : Standing { s with pos := j + 1 } := by
        rcases segment.right with last | separator
        · refine .inr (.inl ?_)
          dsimp only
          omega
        · exact .inr (.inr separator)
      obtain ⟨bounds, rest⟩ := ih _ shorter (s := { s with pos := j + 1 }) plain standing' rfl
      exact ⟨(i, j) :: bounds, .cons first low segment least rest⟩

/-! ## Fields -/

/-- What is left between the separators. -/
def fields (s : NodeStream) : List Bytes := if s.streamFinish then [] else (s.tokens.drop s.pos).splitOn s.sep

theorem itemsExtract_field (empty : s.allowEmpty = true) : s.itemsExtract.2.allowEmpty = true ∧
    s.itemsExtract.2.sep = s.sep ∧ s.itemsExtract.1 = s.fields.head? ∧ s.itemsExtract.2.fields = s.fields.tail := by
  by_cases finish : s.tokens.length < s.pos
  · have none : s.fields = [] := if_pos (decide_eq_true finish)
    rw [itemsExtract_finished finish, none]
    exact ⟨empty, rfl, rfl, rfl⟩
  have some_fields : s.fields = (s.tokens.drop s.pos).splitOn s.sep := if_neg (by simpa [streamFinish] using finish)
  rw [some_fields]
  unfold itemsExtract streamFinish
  rw [if_neg (by simpa using finish), if_pos empty]
  dsimp only
  refine ⟨empty, rfl, ?_⟩
  cases stop : findFirst (· = s.sep) s.tokens s.pos with
  | none =>
    have absent : s.sep ∉ s.tokens.drop s.pos := fun found => by simpa using findFirst_eq_none.mp stop s.sep found
    have whole : (s.tokens.drop s.pos).take (s.tokens.length - s.pos) = s.tokens.drop s.pos :=
      List.take_of_length_le (by rw [List.length_drop])
    rw [List.splitOn_eq_singleton absent, Option.getD_none, whole]
    exact ⟨rfl, if_pos (decide_eq_true (Nat.lt_succ_self _))⟩
  | some p =>
    obtain ⟨low, ⟨d, there, separator⟩, passed⟩ := findFirst_some stop
    have inside := (List.getElem?_eq_some_iff.mp there).1
    have absent : s.sep ∉ (s.tokens.drop s.pos).take (p - s.pos) := fun found => by
      obtain ⟨k, hk, char⟩ := List.mem_take_iff_getElem.mp found
      have same : s.tokens[s.pos + k]? = some s.sep := by
        rw [← List.getElem?_drop, ← char]
        exact List.getElem?_eq_getElem _
      simpa using passed (s.pos + k) s.sep (by omega) (by omega) same
    have cut : s.tokens.drop s.pos = (s.tokens.drop s.pos).take (p - s.pos) ++ s.sep :: s.tokens.drop (p + 1) := by
      have rest : s.tokens.drop p = s.sep :: s.tokens.drop (p + 1) := by
        rw [List.drop_eq_getElem_cons inside]
        exact congrArg (· :: _) (by simpa using (List.getElem?_eq_some_iff.mp there).2.trans (by simpa using separator))
      have behind : (s.tokens.drop s.pos).drop (p - s.pos) = s.tokens.drop p := by
        rw [List.drop_drop, Nat.add_sub_cancel' low]
      rw [← rest, ← behind, List.take_append_drop]
    have more : ¬ s.tokens.length < p + 1 := by omega
    have split := List.splitOn_append_cons_self_of_not_mem absent (s.tokens.drop (p + 1))
    rw [← cut] at split
    rw [split]
    exact ⟨rfl, if_neg (by simpa [streamFinish] using more)⟩

/-- Where each call takes the first one of what is left, the calls take one after another. -/
theorem afterCalls_left {P : NodeStream → Prop} {left : NodeStream → List Bytes}
    (step : ∀ s, P s → P s.itemsExtract.2 ∧ s.itemsExtract.1 = (left s).head? ∧ left s.itemsExtract.2 = (left s).tail)
    (h : P s) (k : ℕ) : P (afterCalls k s) ∧ left (afterCalls k s) = (left s).drop k ∧
      (afterCalls k s).itemsExtract.1 = (left s)[k]? := by
  induction k generalizing s with
  | zero => exact ⟨h, rfl, by rw [← List.head?_eq_getElem?]; exact (step s h).2.1⟩
  | succ k ih =>
    obtain ⟨next, -, tail⟩ := step s h
    obtain ⟨holds, drops, item⟩ := ih next
    rw [tail] at drops item
    exact ⟨holds, by rw [afterCalls, drops, List.drop_tail], by rw [afterCalls, item, List.getElem?_tail]⟩

theorem contains_eq {items : List Bytes} (value : Bytes) {fuel : ℕ} (some_fuel : items.length < fuel)
    (extracted : ∀ k, (afterCalls k s).itemsExtract.1 = items[k]?) :
    s.contains value fuel = some (decide (value ∈ items)) := by
  induction items generalizing s fuel with
  | nil =>
    obtain ⟨fuel, rfl⟩ := Nat.exists_eq_succ_of_ne_zero (Nat.ne_of_gt some_fuel)
    have none : s.itemsExtract = (none, s.itemsExtract.2) := Prod.ext (extracted 0) rfl
    rw [contains, none]
    rfl
  | cons token items ih =>
    obtain ⟨fuel, rfl⟩ := Nat.exists_eq_succ_of_ne_zero (Nat.ne_of_gt (Nat.zero_lt_of_lt some_fuel))
    have first : s.itemsExtract = (some token, s.itemsExtract.2) := Prod.ext (extracted 0) rfl
    rw [contains, first]
    dsimp only
    by_cases same : value = token
    · simp [same]
    · have rest := ih (s := s.itemsExtract.2) (Nat.lt_of_succ_lt_succ some_fuel) fun k => extracted (k + 1)
      rw [if_neg same, rest]
      simp [same]

theorem getRemaining_fields (s : NodeStream) : s.getRemaining = [s.sep].intercalate s.fields := by
  unfold getRemaining fields
  cases s.streamFinish with
  | false => exact (List.intercalate_splitOn s.sep).symm
  | true => rfl

/-- What is there for the calls to take, in both modes. -/
def items (source : Bytes) (separator : UInt8) (allowempty : Bool) : List Bytes :=
  if allowempty then source.splitOn separator else Text.tokens separator source

theorem afterCalls_items (source : Bytes) (separator : UInt8) (allowempty : Bool) (k : ℕ) :
    (afterCalls k (nodeStream source separator allowempty)).itemsExtract.1 = (items source separator allowempty)[k]? := by
  cases allowempty with
  | false =>
    have step (s : NodeStream) (plain : s.allowEmpty = false) : s.itemsExtract.2.allowEmpty = false ∧
        s.itemsExtract.1 = s.remaining.head? ∧ s.itemsExtract.2.remaining = s.remaining.tail := by
      obtain ⟨head, tail, plain, -⟩ := itemsExtract_eq plain
      exact ⟨plain, head, tail⟩
    exact (afterCalls_left step rfl k).2.2
  | true =>
    have step (s : NodeStream) (empty : s.allowEmpty = true) : s.itemsExtract.2.allowEmpty = true ∧
        s.itemsExtract.1 = s.fields.head? ∧ s.itemsExtract.2.fields = s.fields.tail := by
      obtain ⟨empty, -, head, tail⟩ := itemsExtract_field empty
      exact ⟨empty, head, tail⟩
    exact (afterCalls_left step rfl k).2.2

/-- What is left unread are the fields that have not been taken, joined again. -/
theorem afterCalls_getRemaining (source : Bytes) (separator : UInt8) (k : ℕ) :
    (afterCalls k (nodeStream source separator true)).getRemaining =
      [separator].intercalate ((source.splitOn separator).drop k) := by
  have step (s : NodeStream) (h : s.allowEmpty = true ∧ s.sep = separator) :
      (s.itemsExtract.2.allowEmpty = true ∧ s.itemsExtract.2.sep = separator) ∧
        s.itemsExtract.1 = s.fields.head? ∧ s.itemsExtract.2.fields = s.fields.tail := by
    obtain ⟨empty, same, head, tail⟩ := itemsExtract_field h.1
    exact ⟨⟨empty, same.trans h.2⟩, head, tail⟩
  obtain ⟨⟨-, same⟩, left, -⟩ := afterCalls_left step (s := nodeStream source separator true) ⟨rfl, rfl⟩ k
  rw [getRemaining_fields, left, same]
  rfl

/-- The texts of the segments are the tokens that the codecs of the rows take apart. -/
theorem Splits.tokens {bounds : List (ℕ × ℕ)} (h : Splits (nodeStream source sep false) bounds) :
    bounds.map (slice source) = Text.tokens sep source := by
  refine List.ext_getElem? fun k => ?_
  have calls := (h.extracted k).symm.trans (afterCalls_items source sep false k)
  rw [List.getElem?_map]
  exact calls

end

/-- The calls yield the segments of the source, or all of its fields, and then fail for ever. -/
theorem token_streams_split (source : Bytes) (separator : UInt8) :
    (∃ bounds, Splits (nodeStream source separator false) bounds ∧
        bounds.map (slice source) = Text.tokens separator source) ∧
      (∀ k, (afterCalls k (nodeStream source separator true)).itemsExtract.1 = (source.splitOn separator)[k]? ∧
        (afterCalls k (nodeStream source separator true)).getRemaining =
          [separator].intercalate ((source.splitOn separator).drop k)) ∧
      ∀ allowempty, (nodeStream source separator allowempty).getRemaining = source ∧
        ∀ value fuel, (items source separator allowempty).length < fuel →
          (nodeStream source separator allowempty).contains value fuel =
            some (decide (value ∈ items source separator allowempty)) := by
  refine ⟨?_, fun k => ⟨?_, ?_⟩, fun allowempty => ⟨rfl, fun value fuel some => ?_⟩⟩
  · obtain ⟨bounds, h⟩ := exists_splits (s := nodeStream source separator false) rfl (.inl rfl)
    exact ⟨bounds, h, h.tokens⟩
  · exact afterCalls_items source separator true k
  · exact afterCalls_getRemaining source separator k
  · exact contains_eq value some (afterCalls_items source separator allowempty)

end BerylDB.Text.NodeStream
