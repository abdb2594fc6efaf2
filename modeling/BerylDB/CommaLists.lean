import BerylDB.CaseOrder
import BerylDB.Channels
import BerylDB.NodeStreams

/-! # Lists of channels

`CommandHandler::HasLoop` calls a handler again for each item of a list, and JOIN, PART and HOP begin with it. -/
namespace BerylDB.Channels
open Text

/-- The variables of the loop: two streams, the items so far and their count. -/
structure Split where
  items1 : NodeStream
  items2 : NodeStream
  dupes : List Bytes
  max : ℕ
  splitparams : List Bytes

section loop
variable (charmap : CharMap) (handle : Server → List Bytes → Option Server) (splithere : ℕ) (extra : Option ℕ) (usemax : Bool)

/-- The loop of `HasLoop`; `none` also when the fuel does not reach its end. -/
def splitLoop : ℕ → Split → Server → Option Server
  | 0, _, _ => none
  | fuel + 1, w, s =>
    match w.items1.itemsExtract with
    | (none, _) => some s
    | (some item, items1) =>
      if usemax && maxDest ≤ w.max then some s
      else
        let w := { w with items1, max := if usemax then w.max + 1 else w.max }
        let (dupes, fresh) := if extra.isNone then FlatMap.insert charmap.insensitiveSwo w.dupes item else (w.dupes, true)
        let w := { w with dupes }
        if fresh then
          let splitparams := w.splitparams.set splithere item
          let w := match extra with
            | none => { w with splitparams }
            | some extra =>
              let (item, items2) := w.items2.itemsExtract
              { w with items2, splitparams := splitparams.set extra (item.getD []) }
          (handle s w.splitparams).bind (splitLoop fuel w)
        else splitLoop fuel w s

/-- `CommandHandler::HasLoop`, and whether it found a list. -/
def hasLoop (s : Server) (parameters : List Bytes) : Option (Bool × Server) :=
  match parameters[splithere]? with
  | none => some (false, s)
  | some list =>
    if 44 ∉ list then some (false, s)
    else
      let items2 := match extra with
        | none => NodeStream.ofSource [] 44
        | some extra => NodeStream.ofSource (parameters[extra]?.getD []) 44
      (splitLoop s.charmap handle splithere extra usemax (list.length + 1)
        ⟨.ofSource list 44, { items2 with allowEmpty := true }, [], 0, parameters⟩ s).map fun s => (true, s)

end loop

/-- A handler that begins with `HasLoop` on its first parameter, which calls it again as often as the depth allows. -/
def loopHandler (single : Server → Bytes → Option Server) (extra : List Bytes → Option ℕ) (usemax : Bool) :
    ℕ → Server → List Bytes → Option Server
  | 0, _, _ => none
  | depth + 1, s, parameters =>
    (hasLoop (loopHandler single extra usemax depth) 0 (extra parameters) usemax s parameters).bind fun (looped, s) =>
      if looped then some s
      else
        match parameters with
        | [] => none
        | channel :: _ => single s channel

/-- `CommandJoin::HandleLocal`; with a second parameter HasLoop splits that as well. -/
def commandJoin (hooks : List Hook) (user : ℕ) (login : Bytes) : ℕ → Server → List Bytes → Option Server :=
  loopHandler (fun s channel => join hooks s user login channel)
    (fun parameters => if 1 < parameters.length then some 1 else none) false

/-- `CommandPart::Handle`. -/
def commandPart (user : ℕ) (login : Bytes) : ℕ → Server → List Bytes → Option Server :=
  loopHandler (fun s channel => some (part s user login channel)) (fun _ => none) true

/-- `CommandHop::HandleLocal`. -/
def commandHop (user : ℕ) : ℕ → Server → List Bytes → Option Server :=
  loopHandler (fun s channel => hop s user channel) (fun _ => none) true

/-- The items that differ from all before them, where that is asked for, and that are among the first of them. -/
def keptFrom (charmap : CharMap) (checkDupes usemax : Bool) : (before : List Bytes) → List Bytes → List Bytes
  | _, [] => []
  | before, item :: items =>
    (if (!usemax || before.length < maxDest) && !(checkDupes && before.any fun other => equals charmap other item) then [item]
      else []) ++
      keptFrom charmap checkDupes usemax (before ++ [item]) items

/-- The items of a list that a command is executed for. -/
def keptItems (charmap : CharMap) (usemax : Bool) (list : Bytes) : List Bytes :=
  keptFrom charmap true usemax [] (tokens 44 list)

section
variable {charmap : CharMap} {checkDupes usemax : Bool} {before items : List Bytes} {item list text : Bytes} {s : Server}

theorem keptFrom_over (bounded : usemax = true) (beyond : maxDest ≤ before.length) :
    keptFrom charmap checkDupes usemax before items = [] := by
  induction items generalizing before with
  | nil => rfl
  | cons item items ih =>
    rw [keptFrom, if_neg (by simp [bounded]; omega), List.nil_append]
    exact ih (by simp; omega)

/-- No token has the separator in it. -/
theorem not_mem_of_mem_tokens {sep : UInt8} (h : item ∈ tokens sep text) : sep ∉ item := by
  induction hn : text.length using Nat.strongRecOn generalizing text with
  | ind n ih =>
    cases text with
    | nil => simp at h
    | cons c text =>
      by_cases same : c = sep
      · rw [same, tokens_cons] at h
        exact ih text.length (by rw [← hn]; simp) h rfl
      · rw [NodeStream.tokens_of_head (by simpa using same) (by simp)] at h
        rcases List.mem_cons.mp h with rfl | later
        · exact fun found => by simpa using List.mem_takeWhile_imp found
        · have shorter : ((c :: text).dropWhile (· ≠ sep)).tail.length < n := by
            have := (List.dropWhile_sublist (· ≠ sep) (l := c :: text)).length_le
            rw [List.length_tail, ← hn]
            simp only [List.length_cons] at this ⊢
            omega
          exact ih _ shorter later rfl

/-- The variables of the loop behind the items that it has taken. -/
structure Between (charmap : CharMap) (checkDupes usemax : Bool) (before items : List Bytes) (w : Split) : Prop where
  plain : w.items1.allowEmpty = false
  left : w.items1.remaining = items
  count : usemax = true → w.max = before.length
  sorted : FlatMap.Sorted charmap.key w.dupes
  dupes : checkDupes = true → ∀ item, (∃ other ∈ w.dupes, charmap.key other = charmap.key item) ↔
    ∃ other ∈ before, charmap.key other = charmap.key item
  parameters : w.splitparams ≠ []

/-- The set of the items so far finds those that are equal up to case. -/
theorem Between.fresh_eq {w : Split} (b : Between charmap true usemax before items w) (item : Bytes) :
    (FlatMap.insert charmap.insensitiveSwo w.dupes item).2 = !before.any fun other => equals charmap other item := by
  rw [Bool.eq_iff_iff, FlatMap.insert_new (CharMap.insensitiveSwo_iff charmap) b.sorted, Bool.not_eq_true', List.any_eq_false]
  have seen := b.dupes rfl item
  simp only [← CharMap.key_eq]
  constructor
  · exact fun fresh other hother same => by
      obtain ⟨x, hx, same'⟩ := seen.mpr ⟨other, hother, same⟩
      exact fresh x hx same'
  · exact fun fresh x hx same => by
      obtain ⟨other, hother, same'⟩ := seen.mp ⟨x, hx, same⟩
      exact fresh other hother same'

/-- Behind one more item. -/
theorem Between.next {w : Split} (b : Between charmap checkDupes usemax before (item :: items) w) (items1 items2 : NodeStream)
    (params : List Bytes) (plain : items1.allowEmpty = false) (left : items1.remaining = items) (some : params ≠ []) :
    Between charmap checkDupes usemax (before ++ [item]) items ⟨items1, items2,
      if checkDupes then (FlatMap.insert charmap.insensitiveSwo w.dupes item).1 else w.dupes,
        if usemax then w.max + 1 else w.max, params⟩ := by
  refine ⟨plain, left, fun bounded => ?_, ?_, fun checked other => ?_, some⟩
  · rw [if_pos bounded, b.count bounded, List.length_append, List.length_singleton]
  · dsimp only
    split
    · exact FlatMap.sorted_insert (CharMap.insensitiveSwo_iff charmap) b.sorted
    · exact b.sorted
  · subst checked
    have seen := b.dupes rfl
    have same_iff : (∃ x ∈ (FlatMap.insert charmap.insensitiveSwo w.dupes item).1, charmap.key x = charmap.key other) ↔
        charmap.key item = charmap.key other ∨ ∃ x ∈ w.dupes, charmap.key x = charmap.key other := by
      cases new : (FlatMap.insert charmap.insensitiveSwo w.dupes item).2 with
      | true => simp only [FlatMap.mem_insert new, exists_eq_or_imp]
      | false =>
        rw [FlatMap.insert_old new]
        refine (or_iff_right_of_imp fun same => ?_).symm
        have old := b.fresh_eq item
        rw [new, eq_comm, Bool.not_eq_false', List.any_eq_true] at old
        obtain ⟨x, hx, equal⟩ := old
        exact (seen other).mpr ⟨x, hx, ((CharMap.key_eq charmap).mpr equal).trans same⟩
    simp only [if_true, same_iff, seen other, List.mem_append, List.mem_singleton, or_and_right, exists_or, exists_eq_left]
    exact or_comm

section run
variable {handle : Server → List Bytes → Option Server} {single : Server → Bytes → Option Server} {extra : Option ℕ}
  {fuel : ℕ} {w : Split}

/-- The loop calls the handler for the items that are kept. -/
theorem splitLoop_eq (handles : ∀ s item rest, 44 ∉ item → handle s (item :: rest) = single s item)
    (behind : ∀ e ∈ extra, 0 < e) (b : Between charmap extra.isNone usemax before items w) (whole : ∀ item ∈ items, 44 ∉ item)
    (enough : items.length < fuel) : splitLoop charmap handle 0 extra usemax fuel w s =
      (keptFrom charmap extra.isNone usemax before items).foldlM single s := by
  induction fuel generalizing w s before items with
  | zero => omega
  | succ fuel ih =>
    obtain ⟨head, tail, plain', -⟩ := NodeStream.itemsExtract_eq b.plain
    rw [b.left] at head tail
    rw [splitLoop]
    cases hx : w.items1.itemsExtract with
    | mk out items1 =>
      rw [hx] at head tail plain'
      dsimp only at head tail plain' ⊢
      cases items with
      | nil =>
        obtain rfl : out = none := head
        rfl
      | cons item items =>
        obtain rfl : out = some item := head
        obtain ⟨comma, whole⟩ := List.forall_mem_cons.mp whole
        have fewer : items.length < fuel := by simpa using enough
        dsimp only
        by_cases beyond : usemax = true ∧ maxDest ≤ before.length
        · rw [if_pos (by simp [beyond.1, b.count beyond.1, beyond.2]), keptFrom_over beyond.1 beyond.2]
          rfl
        · have stays : ¬ (usemax && decide (maxDest ≤ w.max)) = true := by
            rw [Bool.and_eq_true, decide_eq_true_eq]
            exact fun h => beyond ⟨h.1, b.count h.1 ▸ h.2⟩
          have within : (!usemax || decide (before.length < maxDest)) = true := by
            rw [Bool.or_eq_true, Bool.not_eq_true', decide_eq_true_eq, or_iff_not_imp_left]
            exact fun bounded => not_le.mp fun beyond' => beyond ⟨by simpa using bounded, beyond'⟩
          obtain ⟨first, rest, hparams⟩ := List.exists_cons_of_ne_nil b.parameters
          have step (items2 : NodeStream) (params : List Bytes) (some : params ≠ []) (s : Server) :=
            ih (s := s) (b.next items1 items2 params plain' tail some) whole fewer
          rw [if_neg stays, keptFrom, within, Bool.true_and]
          have called (items2 : NodeStream) (params : List Bytes) (dupes : List Bytes) (max : ℕ)
              (goes : ∀ s, splitLoop charmap handle 0 extra usemax fuel ⟨items1, items2, dupes, max, item :: params⟩ s =
                (keptFrom charmap extra.isNone usemax (before ++ [item]) items).foldlM single s) :
              (handle s (item :: params)).bind
                  (splitLoop charmap handle 0 extra usemax fuel ⟨items1, items2, dupes, max, item :: params⟩) =
                ([item] ++ keptFrom charmap extra.isNone usemax (before ++ [item]) items).foldlM single s := by
            rw [handles s item params comma, List.singleton_append, List.foldlM_cons]
            exact congrArg (Option.bind (single s item)) (funext goes)
          cases extra with
          | some e =>
            obtain ⟨e, rfl⟩ := Nat.exists_eq_add_of_lt (behind e rfl)
            rw [Nat.zero_add] at *
            simp only [Option.isNone_some, Bool.false_eq_true, if_false, Bool.false_and, Bool.not_false, if_true, hparams,
              List.set_cons_zero, List.set_cons_succ] at step called ⊢
            exact called _ _ _ _ (step _ _ (List.cons_ne_nil _ _))
          | none =>
            have fresh := b.fresh_eq item
            simp only [Option.isNone_none, if_true, Bool.true_and, hparams, List.set_cons_zero, fresh] at step called ⊢
            split
            · exact called _ _ _ _ (step _ _ (List.cons_ne_nil _ _))
            · rename_i old
              exact step w.items2 (first :: rest) (List.cons_ne_nil _ _) s

end run

section handler
variable {single : Server → Bytes → Option Server} {extra : List Bytes → Option ℕ} {depth : ℕ} {rest : List Bytes}

theorem loopHandler_single (comma : 44 ∉ item) :
    loopHandler single extra usemax (depth + 1) s (item :: rest) = single s item := by
  have whole : hasLoop (loopHandler single extra usemax depth) 0 (extra (item :: rest)) usemax s (item :: rest) =
      some (false, s) := if_pos comma
  rw [loopHandler, whole]
  rfl

/-- A list is expanded into the items that are kept. -/
theorem loopHandler_list (comma : 44 ∈ list) (behind : ∀ e ∈ extra (list :: rest), 0 < e) :
    loopHandler single extra usemax (depth + 2) s (list :: rest) =
      (keptFrom s.charmap (extra (list :: rest)).isNone usemax [] (tokens 44 list)).foldlM single s := by
  have start (items2 : NodeStream) : Between s.charmap (extra (list :: rest)).isNone usemax [] (tokens 44 list)
      ⟨.ofSource list 44, items2, [], 0, list :: rest⟩ :=
    ⟨rfl, rfl, fun _ => rfl, .nil, fun _ item => by simp, List.cons_ne_nil _ _⟩
  have enough : (tokens 44 list).length < list.length + 1 := Nat.lt_succ_of_le (NodeStream.length_tokens_le 44 list)
  have looped : hasLoop (loopHandler single extra usemax (depth + 1)) 0 (extra (list :: rest)) usemax s (list :: rest) =
      ((keptFrom s.charmap (extra (list :: rest)).isNone usemax [] (tokens 44 list)).foldlM single s).map
        fun s => (true, s) := by
    rw [← splitLoop_eq (fun s item rest comma => loopHandler_single comma) behind (start _)
      (fun item hitem => not_mem_of_mem_tokens hitem) enough]
    exact if_neg (not_not.mpr comma)
  rw [loopHandler, looped]
  cases (keptFrom s.charmap (extra (list :: rest)).isNone usemax [] (tokens 44 list)).foldlM single s <;> rfl

end handler

/-- A command does with a channel what it does with one, and with a list what it does with each of the items that are
kept, one after another. -/
def Expands (command : ℕ → Server → List Bytes → Option Server) (single : Server → Bytes → Option Server)
    (usemax : Bool) : Prop :=
  ∀ depth s list, (44 ∉ list → command (depth + 1) s [list] = single s list) ∧
    (44 ∈ list → command (depth + 2) s [list] =
      (keptItems s.charmap usemax list).foldlM (fun s item => command (depth + 2) s [item]) s)

theorem kept_subset {charmap : CharMap} {checkDupes usemax : Bool} {before items : List Bytes} {item : Bytes}
    (h : item ∈ keptFrom charmap checkDupes usemax before items) : item ∈ items := by
  induction items generalizing before with
  | nil => exact absurd h List.not_mem_nil
  | cons other items ih =>
    rw [keptFrom, List.mem_append] at h
    rcases h with own | later
    · split at own
      · exact List.mem_cons.mpr (.inl (List.mem_singleton.mp own))
      · exact absurd own List.not_mem_nil
    · exact List.mem_cons_of_mem _ (ih later)

theorem foldlM_congr {α β : Type} {f g : β → α → Option β} {as : List α} (same : ∀ a ∈ as, ∀ b, f b a = g b a) (b : β) :
    as.foldlM f b = as.foldlM g b := by
  induction as generalizing b with
  | nil => rfl
  | cons a as ih =>
    rw [List.foldlM_cons, List.foldlM_cons, same a (List.mem_cons_self ..)]
    exact congrArg (Option.bind (g b a)) (funext fun c => ih (fun a' ha' => same a' (List.mem_cons_of_mem _ ha')) c)

theorem loopHandler_expands {single : Server → Bytes → Option Server} {extra : List Bytes → Option ℕ}
    (plain : ∀ item, extra [item] = none) : Expands (loopHandler single extra usemax) single usemax := by
  intro depth s list
  refine ⟨loopHandler_single, fun comma => ?_⟩
  rw [loopHandler_list comma (by simp [plain]), plain]
  exact foldlM_congr (fun item hitem s => (loopHandler_single (not_mem_of_mem_tokens (kept_subset hitem))).symm) s

/-- JOIN, PART and HOP with a list are JOIN, PART and HOP with its items: those that differ up to case from all before
them and, but for JOIN, are among the first MAX_DEST. -/
theorem comma_lists_expand (hooks : List Hook) (user : ℕ) (login : Bytes) :
    Expands (commandJoin hooks user login) (fun s channel => join hooks s user login channel) false ∧
      Expands (commandPart user login) (fun s channel => some (part s user login channel)) true ∧
        Expands (commandHop user) (fun s channel => hop s user channel) true :=
  ⟨loopHandler_expands fun _ => rfl, loopHandler_expands fun _ => rfl, loopHandler_expands fun _ => rfl⟩

/-! ## The events -/

theorem keptFrom_eq (before items : List Bytes) : keptFrom charmap true usemax before items =
    (withoutDupes charmap (if usemax then items.take (maxDest - before.length) else items)).filter
      fun item => !before.any fun other => equals charmap other item := by
  induction items generalizing before with
  | nil => cases usemax <;> simp [keptFrom, withoutDupes]
  | cons item items ih =>
    by_cases beyond : usemax = true ∧ maxDest ≤ before.length
    · rw [keptFrom_over beyond.1 beyond.2, if_pos beyond.1, Nat.sub_eq_zero_of_le beyond.2]
      rfl
    · have rest : (if usemax then (item :: items).take (maxDest - before.length) else item :: items) =
          item :: if usemax then items.take (maxDest - (before ++ [item]).length) else items := by
        cases usemax with
        | false => rfl
        | true =>
          have room : maxDest - before.length = maxDest - (before ++ [item]).length + 1 := by
            have below := not_le.mp fun le => beyond ⟨rfl, le⟩
            rw [List.length_append, List.length_singleton]
            omega
          rw [if_pos rfl, if_pos rfl, room, List.take_succ_cons]
      have within : (!usemax || decide (before.length < maxDest)) = true := by
        rw [Bool.or_eq_true, Bool.not_eq_true', decide_eq_true_eq, or_iff_not_imp_left]
        exact fun bounded => not_le.mp fun beyond' => beyond ⟨by simpa using bounded, beyond'⟩
      rw [keptFrom, ih, rest, withoutDupes, List.filter_cons, List.filter_filter, within, Bool.true_and, Bool.true_and]
      have same (x : Bytes) : (!(before ++ [item]).any fun other => equals charmap other x) =
          ((!before.any fun other => equals charmap other x) && !equals charmap item x) := by simp
      simp only [same]
      split <;> rfl

theorem loopItems_eq (list : Bytes) (checkDupes usemax : Bool) (comma : 44 ∈ list)
    (bounded : checkDupes = false → usemax = false) :
    loopItems charmap list checkDupes usemax = keptFrom charmap checkDupes usemax [] (tokens 44 list) := by
  rw [loopItems, if_pos comma]
  cases checkDupes with
  | true => simp [keptFrom_eq]
  | false =>
    have all (before items : List Bytes) : keptFrom charmap false false before items = items := by
      induction items generalizing before with
      | nil => rfl
      | cons item items ih => simp [keptFrom, ih]
    rw [bounded rfl, all]
    rfl

/-- The handler of a command is the step of its event. -/
theorem loopHandler_eq {single : Server → Bytes → Option Server} {extra : List Bytes → Option ℕ} {rest : List Bytes}
    (bounded : extra (list :: rest) ≠ none → usemax = false) (behind : ∀ e ∈ extra (list :: rest), 0 < e) :
    loopHandler single extra usemax 2 s (list :: rest) =
      (loopItems s.charmap list (extra (list :: rest)).isNone usemax).foldlM single s := by
  by_cases comma : 44 ∈ list
  · have bounded' : (extra (list :: rest)).isNone = false → usemax = false :=
      fun h => bounded (Option.isSome_iff_ne_none.mp (by simpa using h))
    rw [loopHandler_list comma behind, loopItems_eq _ _ _ comma bounded']
  · rw [loopHandler_single comma, loopItems, if_neg comma]
    cases h : single s list <;> simp [h]

theorem next_eq_handlers (hooks : List Hook) (s : Server) (i : ℕ) (list second : Bytes) :
    next hooks s (.join i list false) = (s.sender i).bind (fun u => commandJoin hooks i u.login 2 s [list]) ∧
      next hooks s (.join i list true) = (s.sender i).bind (fun u => commandJoin hooks i u.login 2 s [list, second]) ∧
      next hooks s (.part i list) = (s.sender i).bind (fun u => commandPart i u.login 2 s [list]) ∧
        next hooks s (.hop i list) = (s.sender i).bind (fun _ => commandHop i 2 s [list]) := by
  have joins (u : User) : commandJoin hooks i u.login 2 s [list] =
      (loopItems s.charmap list true false).foldlM (fun s channel => join hooks s i u.login channel) s :=
    loopHandler_eq (fun _ => rfl) (fun e he => by cases he)
  have joins_extra (u : User) : commandJoin hooks i u.login 2 s [list, second] =
      (loopItems s.charmap list false false).foldlM (fun s channel => join hooks s i u.login channel) s :=
    loopHandler_eq (fun _ => rfl) (fun e he => by cases he; exact Nat.one_pos)
  have parts (u : User) : commandPart i u.login 2 s [list] =
      some ((loopItems s.charmap list true true).foldl (fun s channel => part s i u.login channel) s) :=
    (loopHandler_eq (fun h => absurd rfl h) (fun e he => by cases he)).trans List.foldlM_pure
  have hops : commandHop i 2 s [list] = (loopItems s.charmap list true true).foldlM (fun s channel => hop s i channel) s :=
    loopHandler_eq (fun h => absurd rfl h) (fun e he => by cases he)
  refine ⟨?_, ?_, ?_, ?_⟩
  · simp only [next, joins, Bool.not_false]
  · simp only [next, joins_extra, Bool.not_true]
  · simp only [next, parts, Option.map_eq_bind]
    rfl
  · simp only [next, hops]

end

end BerylDB.Channels
