import BerylDB.MapCommands
import BerylDB.RowNames
import BerylDB.Shrinking

/-! # Empty containers

The rows that the commands on lists, vectors, maps and multimaps write hold something, whichever of these types a command
takes its row for: an entry is read by all of them, or by none. -/
namespace BerylDB.Store
open Text QueryBase Kernel Transition

/-! ## Texts that hold something -/

/-- The text has an entry with a key. -/
def HasItems (load : Bytes) : Prop := ∃ mask ∈ colonTokens load, toStr mask ≠ []

section
variable {s load : Bytes} {c : UInt8}

theorem toStr_ne_nil : toStr s ≠ [] ↔ ∃ c ∈ (s.dropWhile isSpace).head?, isBit c = true := by
  cases rest : s.dropWhile isSpace with
  | nil =>
    have empty : ∀ fuel, readBits fuel s = [] := fun fuel => by
      cases fuel with
      | zero => rfl
      | succ fuel => simp [readBits, rest]
    simp [toStr, empty]
  | cons c t =>
    obtain ⟨fuel, length⟩ : ∃ fuel, s.length = fuel + 1 := by
      have shorter := (List.dropWhile_sublist (p := isSpace) (l := s)).length_le
      rw [rest, List.length_cons] at shorter
      exact ⟨s.length - 1, by omega⟩
    rw [toStr, length, readBits]
    simp only [rest]
    cases bit : isBit c <;> simp [bit]

/-- A key is read from the whole entry if and only if one is read from what stands in front of the slash. -/
theorem toStr_cutAt (s : Bytes) : toStr (cutAt 47 s).1 ≠ [] ↔ toStr s ≠ [] := by
  unfold cutAt
  split
  · rename_i slash
    clear slash
    simp only [toStr_ne_nil]
    induction s with
    | nil => rfl
    | cons c s ih =>
      by_cases slash : c = 47
      · subst slash
        have stays : (47 :: s : Bytes).dropWhile isSpace = 47 :: s := rfl
        rw [stays, List.takeWhile_cons_of_neg (by simp)]
        simp
        decide
      · rw [List.takeWhile_cons_of_pos (by simpa using slash)]
        by_cases space : isSpace c = true
        · rw [List.dropWhile_cons_of_pos space, List.dropWhile_cons_of_pos space, ih]
        · rw [List.dropWhile_cons_of_neg space, List.dropWhile_cons_of_neg space]
          rfl
  · rfl

/-- A loop that takes what counts makes something of nothing if and only if something counts. -/
theorem foldl_filled {α β : Type} {step : α → β → α} {Counts : β → Prop} (Filled : α → Prop)
    (steps : ∀ a b, Filled (step a b) ↔ Filled a ∨ Counts b) (bs : List β) (a : α) :
    Filled (bs.foldl step a) ↔ Filled a ∨ ∃ b ∈ bs, Counts b := by
  induction bs generalizing a with
  | nil => simp
  | cons b bs ih =>
    rw [List.foldl_cons, ih, steps]
    simp [or_assoc]

theorem ListHandler.filled_iff : create load ≠ [] ↔ HasItems load := by
  have step (items : List Bytes) (mask : Bytes) : (add items (toStr mask)).1 ≠ [] ↔ items ≠ [] ∨ toStr mask ≠ [] := by
    unfold add
    split <;> simp [*]
  exact (foldl_filled (· ≠ []) step (colonTokens load) []).trans (by simp [HasItems])

theorem MapHandler.filled_iff : create load ≠ ∅ ↔ HasItems load := by
  have step (map : MapMap) (mask : Bytes) :
      (add map (toStr (cutAt 47 mask).1) (toStr (cutAt 47 mask).2)).1 ≠ ∅ ↔ map ≠ ∅ ∨ toStr mask ≠ [] := by
    rw [← toStr_cutAt]
    unfold add
    split <;> simp [*]
  exact (foldl_filled (· ≠ ∅) step (colonTokens load) ∅).trans (by simp [HasItems])

theorem MultiMapHandler.filled_iff : create load ≠ [] ↔ HasItems load := by
  have step (map : MultiMap) (mask : Bytes) :
      (add map (toStr (cutAt 47 mask).1) (toStr (cutAt 47 mask).2)).1 ≠ [] ↔ map ≠ [] ∨ toStr mask ≠ [] := by
    rw [← toStr_cutAt]
    unfold add
    split <;> simp [*, insert]
  exact (foldl_filled (· ≠ []) step (colonTokens load) []).trans (by simp [HasItems])

theorem ListHandler.hasItems_asString {items : List Bytes} : HasItems (asString items) ↔ ∃ item ∈ items, item ≠ [] := by
  rw [← filled_iff, create_asString_filter, Ne, List.filter_eq_nil_iff]
  simp

theorem hasItems_pairs {entries : List (Bytes × Bytes)} (text : colonTokens load = entries.map fun e => pairText e.1 e.2) :
    HasItems load ↔ ∃ e ∈ entries, e.1 ≠ [] := by
  have key (e : Bytes × Bytes) : toStr (pairText e.1 e.2) ≠ [] ↔ e.1 ≠ [] := by
    rw [← toStr_cutAt, cutAt_pairText, toStr_toBin]
  simp only [HasItems, text, List.mem_map, exists_exists_and_eq_and, key]

theorem MapHandler.hasItems_asString {map : MapMap} : HasItems (asString map) ↔ ∃ e ∈ map.toList, e.1 ≠ [] :=
  hasItems_pairs (colonTokens_asString map)

theorem MultiMapHandler.hasItems_asString {map : MultiMap} : HasItems (asString map) ↔ ∃ e ∈ map, e.1 ≠ [] :=
  hasItems_pairs (colonTokens_asString map)

/-- What is left of a stored list. -/
theorem hasItems_of_sublist {items : List Bytes} (part : items.Sublist (ListHandler.create load)) (left : items ≠ []) :
    HasItems (ListHandler.asString items) := by
  obtain ⟨item, here⟩ := List.exists_mem_of_ne_nil items left
  exact ListHandler.hasItems_asString.mpr ⟨item, here, ListHandler.create_ne_nil load item (part.subset here)⟩

end

/-! ## What the queries write -/

section
variable {P : Platform} {k : Kernel} {q : QueryBase} {c : QueryClass} {items : List Bytes} {value load : Bytes} {ok : Bool}

theorem store_put (put : (Run.store k q items ok).1 = .put value) : items ≠ [] ∧ ListHandler.asString items = value := by
  rw [store_stored, Container.stored] at put
  split at put
  · exact ⟨List.length_pos_iff.mp ‹_›, Effect.put.inj put⟩
  · cases put

theorem onItemsWrite_put {f : List Bytes → Effect × QueryBase} (put : (Run.onItemsWrite k q f).1 = .put value) :
    ∃ load, q.get k q.dest = some load ∧ (f (ListHandler.create load)).1 = .put value := by
  unfold Run.onItemsWrite at put
  split at put
  · exact ⟨_, ‹_›, put⟩
  · exact nomatch put

theorem items_cases (k : Kernel) (q : QueryBase) : (∃ load, q.get k q.dest = some load ∧ Run.items k q = ListHandler.create load) ∨
    q.get k q.dest = none ∧ Run.items k q = [] := by
  unfold Run.items destValue
  cases q.get k q.dest with
  | some load => exact .inl ⟨load, rfl, rfl⟩
  | none => exact .inr ⟨rfl, rfl⟩

/-- A part of the row's list. -/
theorem store_hasItems (part : items.Sublist (ListHandler.create load)) (put : (Run.store k q items ok).1 = .put value) :
    HasItems value := by
  obtain ⟨left, rfl⟩ := store_put put
  exact hasItems_of_sublist part left

theorem vremove_sublist (items : List Bytes) (key : Bytes) : (VectorHandler.remove items key).Sublist items := by
  unfold VectorHandler.remove
  split_ifs
  · exact List.Sublist.refl _
  · exact List.nil_sublist _
  · exact List.erase_sublist

/-- The items of the row in another order. -/
theorem writeDest_hasItems (perm : items.Perm (ListHandler.create load)) (filled : HasItems load)
    (put : (writeDest k q (ListHandler.asString items)).1 = .put value) : HasItems value := by
  rw [writeDest_fst, Effect.put.injEq] at put
  obtain ⟨item, here⟩ := List.exists_mem_of_ne_nil _ (ListHandler.filled_iff.mpr filled)
  rw [← put]
  exact ListHandler.hasItems_asString.mpr ⟨item, perm.mem_iff.mpr here, ListHandler.create_ne_nil load item here⟩

theorem resize_hasItems {size : ℕ} (filled : HasItems load)
    (put : (Run.store k q (ListHandler.resize (ListHandler.create load) size) ok).1 = .put value) : HasItems value := by
  obtain ⟨left, rfl⟩ := store_put put
  have positive := mt resize_eq_nil.mpr left
  rw [ListHandler.hasItems_asString]
  have nonempty := ListHandler.create_ne_nil load
  cases items : ListHandler.create load with
  | nil => exact absurd items (ListHandler.filled_iff.mpr filled)
  | cons item rest =>
    rw [items] at nonempty
    refine ⟨item, List.mem_append_left _ ?_, nonempty item List.mem_cons_self⟩
    obtain ⟨n, rfl⟩ := Nat.exists_eq_succ_of_ne_zero positive
    exact List.mem_cons_self

theorem push_hasItems (put : (Run.push ok k q).1 = .put value) : HasItems value := by
  have added (items : List Bytes) (nonempty : q.value ≠ []) : HasItems (ListHandler.asString (items ++ [q.value])) :=
    ListHandler.hasItems_asString.mpr ⟨q.value, List.mem_append_right _ List.mem_cons_self, nonempty⟩
  unfold Run.push at put
  split at put
  · exact nomatch put
  · rename_i nonempty
    simp only [ListHandler.add, if_neg nonempty] at put
    split at put
    · have put : Effect.put (ListHandler.asString [q.value]) = .put value := by cases ok <;> exact put
      exact Effect.put.inj put ▸ added [] nonempty
    · simp only [if_true, writeDest_fst, Effect.put.injEq] at put
      exact put ▸ added _ nonempty

/-- Only an empty value for a key without a row leaves nothing. -/
theorem pushnx_hasItems (filled : ∀ load, q.get k q.dest = some load → HasItems load)
    (pushed : q.get k q.dest = none → q.value ≠ []) (put : (Run.pushnx k q).1 = .put value) : HasItems value := by
  unfold Run.pushnx at put
  split at put
  · exact nomatch put
  · rw [writeDest_fst, Effect.put.injEq] at put
    rw [← put, ListHandler.hasItems_asString, ListHandler.add]
    split
    · rename_i empty
      rcases items_cases k q with ⟨load, got, same⟩ | ⟨absent, -⟩
      · obtain ⟨item, here⟩ := List.exists_mem_of_ne_nil _ (ListHandler.filled_iff.mpr (filled load got))
        exact ⟨item, same ▸ here, ListHandler.create_ne_nil load item here⟩
      · exact absurd empty (pushed absent)
    · exact ⟨q.value, List.mem_append_right _ List.mem_cons_self, ‹_›⟩

theorem fields_hasItems {map : MapMap} {other : QueryBase} (valid : MapHandler.container.Valid map)
    (put : (if MapHandler.count map > 0 then writeDest k q (MapHandler.asString map) else (.delete, other)).1 = .put value) :
    HasItems value := by
  split at put
  · rename_i left
    have filled : map.toList ≠ [] := fun empty => by
      have none := congrArg List.length empty
      rw [Std.ExtTreeMap.length_toList] at none
      exact absurd none left.ne'
    obtain ⟨e, here⟩ := List.exists_mem_of_ne_nil _ filled
    have found := Std.ExtTreeMap.mem_toList_iff_getElem?_eq_some.mp here
    have member : e.1 ∈ map := Std.ExtTreeMap.mem_iff_isSome_getElem?.mpr (by rw [found]; rfl)
    rw [writeDest_fst, Effect.put.injEq] at put
    exact put ▸ MapHandler.hasItems_asString.mpr ⟨e, here, valid e.1 member⟩
  · exact nomatch put

theorem field_hasItems (map : MapMap) {field : Bytes} (nonempty : field ≠ []) :
    HasItems (MapHandler.asString (map.insert field value)) :=
  MapHandler.hasItems_asString.mpr ⟨(field, value), Std.ExtTreeMap.mem_toList_iff_getElem?_eq_some.mpr (by simp), nonempty⟩

theorem hset_hasItems (put : (Run.hset k q).1 = .put value) : HasItems value := by
  unfold Run.hset at put
  split at put
  · exact nomatch put
  · rename_i given
    have nonempty : q.hesh ≠ [] := fun empty => given (.inr empty)
    simp only [MapHandler.add, if_neg nonempty] at put
    split at put
    · simp only [if_true, Effect.put.injEq] at put
      exact put ▸ field_hasItems _ nonempty
    · simp only [if_true, writeDest_fst, Effect.put.injEq] at put
      exact put ▸ field_hasItems _ nonempty

theorem hsetnx_hasItems (put : (Run.hsetnx k q).1 = .put value) : HasItems value := by
  have nonempty := hsetnx_put put
  unfold Run.hsetnx at put
  split at put
  · exact nomatch put
  · simp only [MapHandler.add, if_neg nonempty, if_true, Effect.put.injEq] at put
    exact put ▸ field_hasItems _ nonempty

theorem MapHandler.valid_remove {map : MapMap} (valid : container.Valid map) (key : Bytes) :
    container.Valid (remove map key) := by
  unfold remove
  split_ifs
  · exact valid
  · exact fun key none => absurd none Std.ExtTreeMap.not_mem_empty
  · exact valid_erase valid

theorem hdel_hasItems (put : (Run.hdel k q).1 = .put value) : HasItems value := by
  have valid : MapHandler.container.Valid (Run.map k q) := MapHandler.create_ne_nil _
  unfold Run.hdel at put
  dsimp only at put
  split at put
  · exact nomatch put
  · refine fields_hasItems ?_ put
    split
    · exact valid
    · exact MapHandler.valid_remove valid _

theorem hash_hasItems (map : MultiMap) {hash : Bytes} (nonempty : hash ≠ []) :
    HasItems (MultiMapHandler.asString (MultiMapHandler.insert map hash value)) :=
  MultiMapHandler.hasItems_asString.mpr ⟨(hash, value), MultiMapHandler.mem_insert.mpr (.inl rfl), nonempty⟩

/-- MSET and MSETNX add a value to a hash that is not empty. -/
theorem add_put {map : MultiMap} {other : QueryBase}
    (put : (let (map, last) := MultiMapHandler.add map q.hesh q.value
      if last = HandlerMsg.ok then writeDest k q (MultiMapHandler.asString map) else (.none, other)).1 = .put value) :
    HasItems value := by
  unfold MultiMapHandler.add at put
  by_cases empty : q.hesh = []
  · simp [empty] at put
  · simp only [if_neg empty, if_true, writeDest_fst, Effect.put.injEq] at put
    exact put ▸ hash_hasItems map empty

theorem mset_hasItems (put : (Run.mset k q).1 = .put value) : HasItems value := by
  unfold Run.mset at put
  split at put <;> exact add_put put

theorem msetnx_hasItems (put : (Run.msetnx k q).1 = .put value) : HasItems value := by
  unfold Run.msetnx at put
  split at put
  · exact add_put put
  · dsimp only at put
    split at put
    · exact nomatch put
    · exact add_put put

theorem mdel_hasItems (put : (Run.mdel k q).1 = .put value) : HasItems value := by
  unfold Run.mdel at put
  dsimp only at put
  split at put
  · rename_i left
    rw [writeDest_fst, Effect.put.injEq] at put
    obtain ⟨e, here⟩ := List.exists_mem_of_length_pos left
    rw [← put]
    exact MultiMapHandler.hasItems_asString.mpr
      ⟨e, here, MultiMapHandler.create_ne_nil _ e ((MultiMapHandler.remove_sublist _ _).subset here)⟩
  · exact nomatch put

/-- The types of containers. -/
def containerTypes : List Bytes := [intList, intVector, intMap, intMmap]

/-- The classes of the commands on lists, vectors, maps and multimaps. -/
def QueryClass.OnContainers (c : QueryClass) : Prop := ∃ type ∈ containerTypes, c.baseRequest = some type

instance (c : QueryClass) : Decidable c.OnContainers := by
  unfold QueryClass.OnContainers
  infer_instance

theorem QueryClass.OnContainers.not_runner (container : c.OnContainers) (run : Runner) : c.body P ≠ .runner run := by
  cases c <;> first
    | exact absurd container (by decide)
    | exact fun body => nomatch body

/-- A row of a container is not left without an entry, whatever the type of its container. -/
theorem writer_hasItems {run : Writer} (body : c.body P = .writer run) (container : c.OnContainers)
    (filled : ∀ load, q.get k q.dest = some load → HasItems load)
    (pushed : c ∈ [.lpushnx, .vpushnx] → q.get k q.dest = none → q.value ≠ []) (put : (run k q).1 = .put value) :
    HasItems value := by
  cases c <;> first
    | exact absurd container (by decide)
    | (simp only [QueryClass.body, reduceCtorEq] at body; done)
    | cases body
  case lpush | vpush => exact push_hasItems put
  case lpushnx | vpushnx => exact pushnx_hasItems filled (pushed (by simp)) put
  case hset => exact hset_hasItems put
  case hsetnx => exact hsetnx_hasItems put
  case hdel => exact hdel_hasItems put
  case mset => exact mset_hasItems put
  case msetnx => exact msetnx_hasItems put
  case mdel => exact mdel_hasItems put
  case lreverse | vreverse | lsort =>
    obtain ⟨load, got, put⟩ := onItemsWrite_put put
    exact writeDest_hasItems (List.reverse_perm _) (filled load got) put
  case vsort =>
    obtain ⟨load, got, put⟩ := onItemsWrite_put put
    exact writeDest_hasItems (List.mergeSort_perm _ _) (filled load got) put
  case lresize | vresize =>
    obtain ⟨load, got, put⟩ := onItemsWrite_put put
    exact resize_hasItems (filled load got) put
  case lpopFront =>
    obtain ⟨load, got, put⟩ := onItemsWrite_put put
    exact store_hasItems (List.tail_sublist _) put
  case lpopBack =>
    obtain ⟨load, got, put⟩ := onItemsWrite_put put
    exact store_hasItems (List.dropLast_sublist _) put
  case lpopall =>
    obtain ⟨load, got, put⟩ := onItemsWrite_put put
    exact store_hasItems (popAll_sublist _ _) put
  case lrop =>
    obtain ⟨load, got, put⟩ := onItemsWrite_put put
    dsimp only at put
    split at put
    · cases put
    · exact store_hasItems (List.dropLast_sublist _) put
  case lrfront =>
    obtain ⟨load, got, put⟩ := onItemsWrite_put put
    dsimp only at put
    split at put
    · cases put
    · exact store_hasItems (List.tail_sublist _) put
  case ldel =>
    obtain ⟨load, got, put⟩ := onItemsWrite_put put
    split at put
    · cases put
    · exact store_hasItems List.erase_sublist put
  case vpopFront => exact store_hasItems (List.tail_sublist _) put
  case vpopBack => exact store_hasItems (List.dropLast_sublist _) put
  case vdel =>
    unfold Run.vdel at put
    dsimp only at put
    split at put
    · cases put
    · exact store_hasItems (vremove_sublist _ _) put

end

/-! ## Every run -/

/-- LPUSHNX or VPUSHNX of an empty value for a key that has no row. -/
def Request.PushesNothing (r : Request) (k : Kernel) : Prop :=
  r.cls ∈ [.lpushnx, .vpushnx] ∧ r.value = [] ∧ r.registered k = none

instance (r : Request) (k : Kernel) : Decidable (r.PushesNothing k) := by
  unfold Request.PushesNothing
  infer_instance

/-- All rows of keys are of containers, and hold something. -/
def AllFilled (k : Kernel) : Prop :=
  ∀ db key select type load, k.get db (keyRow key select type) = some load → type ∈ containerTypes ∧ HasItems load

section
variable {P : Platform} {k : Kernel} {q : QueryBase} {r : Request} {db row : Bytes}

theorem AllFilled.apply (filled : AllFilled k) (writable : k.Writable) {effect : Effect}
    (written : ∀ value, effect = .put value → ∀ key select type, row = keyRow key select type →
      type ∈ containerTypes ∧ HasItems value) : AllFilled (k.apply db row effect) := by
  intro db' key select type load got
  by_cases same : db' = db ∧ keyRow key select type = row
  · obtain ⟨rfl, rfl⟩ := same
    cases effect with
    | none => exact filled _ _ _ _ _ got
    | put value =>
      change (k.update (.put db' (keyRow key select type) value)).get db' (keyRow key select type) = some load at got
      rw [get_update_put writable, if_pos ⟨rfl, rfl⟩, Option.some.injEq] at got
      exact got ▸ written value rfl key select type rfl
    | delete =>
      change (k.update (.erase db' (keyRow key select type))).get db' (keyRow key select type) = some load at got
      rw [get_update_erase writable, if_pos ⟨rfl, rfl⟩] at got
      exact nomatch got
  · rw [get_apply writable effect same] at got
    exact filled _ _ _ _ _ got

/-- A query that was let in leaves no row without an entry. -/
theorem AllFilled.run (filled : AllFilled k) (writable : k.Writable) (container : r.cls.OnContainers)
    (kept : ¬ r.PushesNothing k) (admitted : Admitted k r q) : AllFilled (QueryBase.run P r.cls k q).1 := by
  unfold QueryBase.run
  cases body : r.cls.body P with
  | reader run => exact filled
  | runner run => exact absurd body (container.not_runner run)
  | writer run =>
    refine filled.apply writable fun value put key select type same => ?_
    cases admitted with
    | @found type' mapped registered allows loaded =>
      obtain ⟨-, load, held⟩ := registered_some registered
      obtain ⟨known, items⟩ := filled _ _ _ _ _ held
      obtain ⟨-, -, rfl⟩ := keyRow_inj.mp same
      have got := get_found held loaded
      refine ⟨known, writer_hasItems body container (fun load' got' => ?_) (fun _ absent => ?_) put⟩
      · exact Option.some.inj (got.symm.trans got') ▸ items
      · cases got.symm.trans absent
    | @fresh base absent writes own =>
      obtain ⟨base', known, own'⟩ := container
      obtain rfl := Option.some.inj (own.symm.trans own')
      obtain ⟨-, -, rfl⟩ := keyRow_inj.mp same
      have none : (r.fresh base).get k (r.fresh base).dest = none := by
        simpa [QueryBase.get] using registered_none.mp absent base (mem_typeRegs_of_mem_dataTypes (baseRequest_mem own))
      refine ⟨known, writer_hasItems body ⟨base, known, own⟩ (fun load got => ?_) (fun pushes _ empty => ?_) put⟩
      · cases none.symm.trans got
      · exact kept ⟨pushes, empty, absent⟩
    | absent => exact absurd same.symm keyRow_ne_nil
    | skip => exact absurd same.symm keyRow_ne_nil

theorem AllFilled.execute (filled : AllFilled k) (writable : k.Writable) (container : r.cls.OnContainers)
    (kept : ¬ r.PushesNothing k) : AllFilled (k.execute P r) := by
  unfold Kernel.execute
  by_cases opened : k.Opened r.database
  · rw [prepare_opened opened]
    cases registry : r.registered k with
    | some type =>
      obtain ⟨q, admitted, ran⟩ | same | ⟨kind, -, -⟩ := dispatch_registered (P := P) registry
      · rw [ran]
        exact filled.run writable container kept admitted
      · rw [same]
        exact filled
      · rw [futureRun_class kind] at container
        exact absurd container (by decide)
    | none =>
      obtain ⟨q, admitted, ran⟩ | same := dispatch_unregistered (P := P) registry
      · rw [ran]
        exact filled.run writable container kept admitted
      · rw [same]
        exact filled
  · rw [prepare_closing opened]
    exact filled

/-- The timer's delete queries only erase. -/
theorem AllFilled.expireDelete (filled : AllFilled k) (writable : k.Writable) (e : ExpireEntry) :
    AllFilled (k.execute P e.expireDelete) := by
  obtain same | ⟨-, us, outcome, updated⟩ := execute_outcome P writable (Server.expireDelete_client e)
  · rw [same]
    exact filled
  · rw [updated]
    obtain rfl | ⟨type, -, -, rfl⟩ | ⟨⟨key, -⟩, -⟩ := outcome.del rfl
    · rwa [updates_nil]
    · rw [updates_cons, updates_nil]
      have erased : AllFilled (k.apply e.database (e.expireDelete.row type) .delete) :=
        filled.apply writable fun value put => nomatch put
      exact erased
    · obtain ⟨-, load, held⟩ := registered_some key
      exact absurd (filled _ _ _ _ _ held).1 (by decide)

/-- The number of items, fields or hashes that a row of a type holds. -/
def containerCount (type load : Bytes) : ℕ :=
  if type = intMap then MapHandler.count (MapHandler.create load)
  else if type = intMmap then MultiMapHandler.count (MultiMapHandler.create load)
  else ListHandler.count (ListHandler.create load)

theorem containerCount_pos {type load : Bytes} (items : HasItems load) : 0 < containerCount type load := by
  unfold containerCount
  split
  · exact Nat.pos_of_ne_zero (mt Std.ExtTreeMap.eq_empty_iff_size_eq_zero.mpr (MapHandler.filled_iff.mpr items))
  · split
    · exact List.length_pos_iff.mpr (MultiMapHandler.filled_iff.mpr items)
    · exact List.length_pos_iff.mpr (ListHandler.filled_iff.mpr items)

/-- No row holds an empty container: what is registered is a container with something in it, and the commands that work on
the first item find one. -/
structure NoEmptyContainers (P : Platform) (k : Kernel) : Prop where
  rows : ∀ db key select, ∀ type ∈ containerTypes, ∀ load, k.get db (keyRow key select type) = some load →
    0 < containerCount type load
  registry : ∀ db key select type, QueryBase.registered k db key select = some type → type ∈ containerTypes ∧
    ∃ load, k.get db (keyRow key select type) = some load ∧ 0 < containerCount type load
  front : ∀ db select key r, commandLFront db select key = some r → k.Opened r.database → r.registered k = some intList →
    (k.reply P r).finished = true ∧ ∃ rest,
      k.holds ListHandler.container r.database (r.row intList) = some ((k.reply P r).response :: rest)
  popFront : ∀ db select key r, commandLPopFront db select key = some r → k.Opened r.database →
    r.registered k = some intList → ∃ item rest,
      k.holds ListHandler.container r.database (r.row intList) = some (item :: rest) ∧
        (k.execute P r).holds ListHandler.container r.database (r.row intList) = ListHandler.container.kept rest
  low : ∀ db select key r, commandLLow db select key = some r → r.registered k = some intList → ∃ items value,
    k.holds ListHandler.container r.database (r.row intList) = some items ∧ ListHandler.getLow P items = some value

theorem AllFilled.noEmptyContainers (filled : AllFilled k) (writable : k.Writable) : NoEmptyContainers P k := by
  have registry {db key type : Bytes} {select : ℕ} (registered : QueryBase.registered k db key select = some type) :
      type ∈ containerTypes ∧ ∃ load, k.get db (keyRow key select type) = some load ∧ HasItems load := by
    obtain ⟨-, load, held⟩ := registered_some registered
    obtain ⟨known, items⟩ := filled _ _ _ _ _ held
    exact ⟨known, load, held, items⟩
  have list {r : Request} (registered : r.registered k = some intList) : ∃ load item rest,
      k.get r.database (r.row intList) = some load ∧ ListHandler.create load = item :: rest := by
    obtain ⟨-, load, held, items⟩ := registry registered
    obtain ⟨item, rest, same⟩ := List.exists_cons_of_ne_nil (ListHandler.filled_iff.mpr items)
    exact ⟨load, item, rest, held, same⟩
  constructor
  case rows => exact fun db key select type known load held => containerCount_pos (filled _ _ _ _ _ held).2
  case registry =>
    intro db key select type registered
    obtain ⟨known, load, held, items⟩ := registry registered
    exact ⟨known, load, held, containerCount_pos items⟩
  case front =>
    intro db select key r handled opened registered
    obtain ⟨load, item, rest, held, same⟩ := list registered
    obtain ⟨-, rfl⟩ := retro_some.mp handled
    obtain ⟨q, loaded, -, replied⟩ := reader_ran (P := P) writable opened registered held rfl rfl
      (by simp [QueryClass.queryType])
    rw [Run.lfront, loaded.onItems, same] at replied
    rw [replied]
    exact ⟨rfl, rest, by rw [Kernel.holds, held]; exact congrArg some same⟩
  case popFront =>
    intro db select key r handled opened registered
    obtain ⟨load, item, rest, held, same⟩ := list registered
    obtain ⟨-, rfl⟩ := retro_some.mp handled
    obtain ⟨q, loaded, executed, -⟩ := writer_ran (P := P) writable opened registered held rfl rfl
    have popped : (Run.lpopFront k q).1 = ListHandler.container.stored rest := by
      rw [Run.lpopFront, loaded.onItemsWrite, store_stored, same]
      rfl
    refine ⟨item, rest, by rw [Kernel.holds, held]; exact congrArg some same, ?_⟩
    rw [executed, popped]
    refine holds_stored writable fun item here => ListHandler.create_ne_nil load item ?_
    exact same ▸ List.mem_cons_of_mem _ here
  case low =>
    intro db select key r handled registered
    obtain ⟨load, item, rest, held, same⟩ := list registered
    exact ⟨item :: rest, _, by rw [Kernel.holds, held]; exact congrArg some same, rfl⟩

/-- What `Add` refuses is written all the same: every such request leaves a row without an entry. -/
theorem pushesNothing_empties (pushes : r.PushesNothing k) (writable : k.Writable) (opened : k.Opened r.database) :
    ∃ type ∈ containerTypes, (k.execute P r).get r.database (r.row type) = some [] := by
  obtain ⟨cls, empty, absent⟩ := pushes
  have ran (base : Bytes) (known : base ∈ typeRegs) (body : r.cls.body P = .writer Run.pushnx)
      (kind : r.cls.queryType = .write) (own : r.cls.baseRequest = some base) :
      (k.execute P r).get r.database (r.row base) = some [] := by
    have missing : (r.fresh base).get k (r.fresh base).dest = none := by
      simpa [QueryBase.get] using registered_none.mp absent base known
    have none : Run.items k (r.fresh base) = [] := by
      rw [Run.items, destValue, missing]
      rfl
    have put : (Run.pushnx k (r.fresh base)).1 = .put [] := by
      rw [Run.pushnx, none, show (r.fresh base).value = [] from empty]
      rfl
    rw [Kernel.execute, prepare_fresh opened absent kind own, QueryBase.run, body]
    change (k.apply r.database (r.row base) (Run.pushnx k (r.fresh base)).1).get r.database (r.row base) = some []
    rw [put]
    exact (get_update_put writable ..).trans (if_pos ⟨rfl, rfl⟩)
  simp only [List.mem_cons, List.not_mem_nil, or_false] at cls
  rcases cls with cls | cls
  · exact ⟨intList, by decide, ran intList (by decide) (by rw [cls]; rfl) (by rw [cls]; rfl) (by rw [cls]; rfl)⟩
  · exact ⟨intVector, by decide, ran intVector (by decide) (by rw [cls]; rfl) (by rw [cls]; rfl) (by rw [cls]; rfl)⟩

/-- The requests of the commands on lists, vectors, maps and multimaps, and the timer. -/
def ContainersOnly : Event → Prop
  | .request r => r.cls.OnContainers
  | _ => True

/-- No request pushes an empty value to a key without a row. -/
def PushesSomething (s : Server) : Event → Prop
  | .request r => ¬ r.PushesNothing s.kernel
  | _ => True

instance (a : Event) : Decidable (ContainersOnly a) :=
  match a with
  | .request _ | .tick _ | .expire _ => by unfold ContainersOnly; infer_instance

instance (s : Server) (a : Event) : Decidable (PushesSomething s a) :=
  match a with
  | .request _ | .tick _ | .expire _ => by unfold PushesSomething; infer_instance

/-- In every run of the commands on containers that pushes no empty value to a key without a row, no row holds an empty
container. -/
theorem no_empty_containers {s : Server}
    (reach : (Server.machine P).Reach (fun s a => ContainersOnly a ∧ PushesSomething s a) s) :
    NoEmptyContainers P s.kernel := by
  obtain ⟨writable, filled⟩ : s.kernel.Writable ∧ AllFilled s.kernel := by
    refine reach.invariant (I := fun s => s.kernel.Writable ∧ AllFilled s.kernel) ?_ ?_
    · intro s initial
      exact ⟨initial.writable, fun db key select type load got => nomatch (initial.empty _ _).symm.trans got⟩
    · rintro s a t ⟨writable, filled⟩ ⟨containers, pushes⟩ step
      refine ⟨Server.next_writable writable step, ?_⟩
      cases a with
      | request r =>
        obtain ⟨-, made⟩ := Option.ite_none_right_eq_some.mp step
        obtain rfl := Option.some.inj made
        exact filled.execute writable containers pushes
      | tick time =>
        obtain ⟨-, made⟩ := Option.ite_none_right_eq_some.mp step
        obtain rfl := Option.some.inj made
        exact filled
      | expire e =>
        obtain ⟨-, made⟩ := Option.ite_none_right_eq_some.mp step
        obtain rfl := Option.some.inj made
        exact filled.expireDelete writable e
  exact filled.noEmptyContainers writable

end

theorem no_empty_containers_pushed : ∃ s, (Server.machine Server.integers).Reachable s ∧
    NoEmptyContainers Server.integers s.kernel ∧
    (s.kernel.get (lit "db") (keyRow (lit "l") 1 intList)).isSome = true ∧
    (s.kernel.get (lit "db") (keyRow (lit "m") 1 intMap)).isSome = true := by
  have h : ((Server.machine Server.integers).exec (fun s a => ContainersOnly a ∧ PushesSomething s a) Server.fresh
      [.request (inDb .lpushnx (lit "l") (lit "a")), .request (inDb .lpushnx (lit "l") []),
        .request (fieldQuery .hset (lit "f") (lit "v"))]).any fun s =>
          (s.kernel.get (lit "db") (keyRow (lit "l") 1 intList)).isSome = true ∧
          (s.kernel.get (lit "db") (keyRow (lit "m") 1 intMap)).isSome = true := by decide
  obtain ⟨s, reached, held⟩ := Machine.exec_holds h (.initial Server.fresh_initial)
  exact ⟨s, reached.reachable, no_empty_containers reached, held⟩

/-- LPUSHNX and VPUSHNX of an empty text make a list and a vector without an item. -/
theorem pushnx_stores_nothing : ∃ s, (Server.machine Server.integers).Reach (fun _ a => ContainersOnly a) s ∧
    commandLPushNX (lit "db") 1 (lit "l") (lit "\"\"") = some (inDb .lpushnx (lit "l") []) ∧
    commandVPushNX (lit "db") 1 (lit "v") (lit "\"\"") = some (inDb .vpushnx (lit "v") []) ∧
    s.kernel.holds ListHandler.container (lit "db") (keyRow (lit "l") 1 intList) = some [] ∧
    s.kernel.holds ListHandler.container (lit "db") (keyRow (lit "v") 1 intVector) = some [] ∧
    ¬ NoEmptyContainers Server.integers s.kernel := by
  have h : ((Server.machine Server.integers).exec (fun _ a => ContainersOnly a) Server.fresh
      [.request (inDb .lpushnx (lit "l") []), .request (inDb .vpushnx (lit "v") [])]).any fun s =>
        s.kernel.get (lit "db") (keyRow (lit "l") 1 intList) = some [] ∧
        s.kernel.get (lit "db") (keyRow (lit "v") 1 intVector) = some [] := by decide
  obtain ⟨s, reached, list, vector⟩ := Machine.exec_holds h (.initial Server.fresh_initial)
  refine ⟨s, reached, by decide, by decide, ?_, ?_, fun none => ?_⟩
  · rw [Kernel.holds, list]
    rfl
  · rw [Kernel.holds, vector]
    rfl
  · exact absurd (none.rows (lit "db") (lit "l") 1 intList (by decide) [] list) (by decide)

end BerylDB.Store
