import BerylDB.ExpiryReload
import BerylDB.Paging

/-! # Scans select what lookups find

KEYS, COUNT and WDEL read the names of all rows; `GetRegistry` puts the name of one row together. -/
namespace BerylDB.Store
open Text Transition Kernel

/-- What is asked for: a key that matches the pattern and has a KEY row in the select. -/
def Request.Selects (P : Platform) (r : Request) (k : Kernel) (key : Bytes) : Prop :=
  matchMask P.charmap key r.key = true ∧ (k.get r.database (keyRow key r.select intKey)).isSome

/-- The walk through the tokens of a well-formed row. -/
theorem scanKey_keyRow {accepts : Bytes → Bool} {key type third found : Bytes} {select : ℕ} {rest : List Bytes}
    (key_ne : key ≠ []) (tokens : colonTokens type = third :: rest) (s : ℕ) (wanted : Bytes) :
    scanKey accepts (convtoString s) wanted (colonTokens (keyRow key select type)) = some found ↔
      accepts key = true ∧ select = s ∧ third = wanted ∧ found = key := by
  rw [colonTokens_keyRow select type key_ne, tokens]
  simp only [scanKey, List.getElem?_cons_zero, List.getElem?_cons_succ, Option.all_some, Option.map_some, toStr_toBin,
    Option.getD_some]
  constructor
  · intro taken
    obtain ⟨checks, same⟩ := Option.ite_none_right_eq_some.mp taken
    cases same
    simp only [Bool.and_eq_true, beq_iff_eq] at checks
    obtain ⟨⟨name, text⟩, type⟩ := checks
    exact ⟨name, convtoString_injective text, type, rfl⟩
  · rintro ⟨name, rfl, rfl, rfl⟩
    simp [name]

theorem RowFormed.third {db row : Bytes} (h : RowFormed db row) : ∃ key select type third rest, key ≠ [] ∧
    row = keyRow key select type ∧ colonTokens type = third :: rest ∧ (third ∈ dataTypes → type = third) := by
  obtain ⟨key, select, type, key_ne, -, -, kind, row⟩ := h
  rcases kind with data | rfl | rfl
  · exact ⟨key, select, type, type, [], key_ne, row, colonTokens_typeRegs (mem_typeRegs_of_mem_dataTypes data), fun _ => rfl⟩
  · exact ⟨key, select, _, intExpire, _, key_ne, row, colonTokens_ownedType db (by decide) (by decide),
      fun data => absurd data (by decide)⟩
  · exact ⟨key, select, _, intFuture, _, key_ne, row, colonTokens_ownedType db (by decide) (by decide),
      fun data => absurd data (by decide)⟩

/-- A scan takes the row of a key of the wanted type, and no other. -/
theorem RowFormed.scanKey_iff {db row key wanted : Bytes} {accepts : Bytes → Bool} {s : ℕ} (h : RowFormed db row)
    (data : wanted ∈ dataTypes) : scanKey accepts (convtoString s) wanted (colonTokens row) = some key ↔
      accepts key = true ∧ row = keyRow key s wanted := by
  obtain ⟨key', select, type, third, rest, key_ne, rfl, tokens, plain⟩ := h.third
  rw [scanKey_keyRow key_ne tokens, keyRow_inj]
  constructor
  · rintro ⟨name, rfl, rfl, rfl⟩
    exact ⟨name, rfl, rfl, plain data⟩
  · rintro ⟨name, rfl, rfl, rfl⟩
    rw [colonTokens_typeRegs (mem_typeRegs_of_mem_dataTypes data)] at tokens
    exact ⟨name, rfl, (List.cons.inj tokens).1.symm, rfl⟩

section
variable {P : Platform} {k : Kernel} {r : Request}

theorem mem_matchedKeys (formed : ∀ row, (k.get r.database row).isSome → RowFormed r.database row)
    (whole : r.plain.interrupted k = false) {found : Bytes × Bytes} : found ∈ Run.matchedKeys P k r.plain ↔
      r.Selects P k found.2 ∧ found.1 = keyRow found.2 r.select intKey := by
  obtain ⟨row, key⟩ := found
  simp only [Run.matchedKeys, scanned_whole whole, List.mem_filterMap, Option.map_eq_some_iff]
  constructor
  · rintro ⟨⟨row', value⟩, hrow, key', taken, same⟩
    cases same
    have here : (k.get r.database row').isSome := Option.isSome_iff_exists.mpr ⟨value, mem_rows.mp hrow⟩
    obtain ⟨name, rfl⟩ := ((formed row' here).scanKey_iff (by decide)).mp taken
    exact ⟨⟨name, here⟩, rfl⟩
  · rintro ⟨⟨name, here⟩, rfl⟩
    obtain ⟨value, held⟩ := Option.isSome_iff_exists.mp here
    exact ⟨(_, value), mem_rows.mpr held, key, ((formed _ here).scanKey_iff (by decide)).mpr ⟨name, rfl⟩, rfl⟩

theorem matchedKeys_nodup (formed : ∀ row, (k.get r.database row).isSome → RowFormed r.database row)
    (whole : r.plain.interrupted k = false) : ((Run.matchedKeys P k r.plain).map Prod.snd).Nodup := by
  have rows : ((Run.matchedKeys P k r.plain).map Prod.fst).Nodup := by
    unfold List.Nodup Run.matchedKeys
    rw [scanned_whole whole, List.pairwise_map, List.pairwise_filterMap]
    refine rows_distinct.imp fun {a b} different => ?_
    rintro found hfound found' hfound'
    obtain ⟨key, -, rfl⟩ := Option.map_eq_some_iff.mp hfound
    obtain ⟨key', -, rfl⟩ := Option.map_eq_some_iff.mp hfound'
    exact different
  refine List.Nodup.map_on ?_ rows.of_map
  intro found here found' here' same
  have row := ((mem_matchedKeys formed whole).mp here).2
  have row' := ((mem_matchedKeys formed whole).mp here').2
  exact Prod.ext (by rw [row, row', same]) same

theorem contents_wipe (f : Bytes × Bytes) (g : Contents) (db row : Bytes) : contents (wipe r f) g db row =
    if db = r.database ∧ (row = f.1 ∨ row = expireRow r.key r.select r.database) then none else g db row := by
  by_cases here : db = r.database <;> by_cases expiry : row = expireRow r.key r.select r.database <;>
    simp [wipe, Update.contents, here, expiry]

/-- What WDEL deletes: the rows found, and the expiry row of the name that is the pattern. -/
theorem contents_wipes (found : List (Bytes × Bytes)) (g : Contents) (db row : Bytes) :
    contents (found.flatMap (wipe r)) g db row =
      if db = r.database ∧ (row ∈ found.map Prod.fst ∨ found ≠ [] ∧ row = expireRow r.key r.select r.database) then none
      else g db row := by
  induction found generalizing g with
  | nil => simp
  | cons f found ih =>
    rw [List.flatMap_cons, contents_append, ih, contents_wipe]
    simp only [List.map_cons, List.mem_cons]
    split_ifs <;> first | rfl | (exfalso; tauto)

theorem scannedKeys_eq (whole : r.plain.interrupted k = false) :
    QueryBase.scannedKeys P intKey k r.plain = (Run.matchedKeys P k r.plain).map Prod.snd := by
  rw [Run.matchedKeys, scanned_whole whole, List.map_filterMap]
  simp [QueryBase.scannedKeys, Function.comp_def]

/-- `GetRegistry` registers a key as KEY if and only if the key has a KEY row. -/
theorem getRegistry_key (formed : ∀ row, (k.get r.database row).isSome → RowFormed r.database row)
    (single : SingleType k.get) (key : Bytes) (load : Bool) :
    (r.plain.getRegistry k r.select key load).1.identified = intKey ↔
      (k.get r.database (keyRow key r.select intKey)).isSome := by
  unfold QueryBase.getRegistry
  constructor
  · intro identified
    cases found : QueryBase.registered k r.database key r.select with
    | none =>
      simp only [show r.plain.database = r.database from rfl, found] at identified
      exact absurd identified (by decide)
    | some type =>
      simp only [show r.plain.database = r.database from rfl, found] at identified
      obtain ⟨-, value, held⟩ := registered_some found
      rw [identified] at held
      rw [held]
      rfl
  · intro here
    cases found : QueryBase.registered k r.database key r.select with
    | none =>
      rw [registered_none.mp found intKey (by decide)] at here
      simp at here
    | some type =>
      simp only [show r.plain.database = r.database from rfl, found]
      obtain ⟨known, value, held⟩ := registered_some found
      have there : (k.get r.database (keyRow key r.select type)).isSome := by rw [held]; rfl
      obtain ⟨key', select', type', -, -, -, kind, row⟩ := formed _ there
      obtain ⟨-, -, rfl⟩ := keyRow_inj.mp row
      rcases kind with data | rfl | rfl
      · exact single r.database key r.select type data intKey (by decide) there here
      · exact absurd known (ownedType_not_mem _ _)
      · exact absurd known (ownedType_not_mem _ _)

/-- A row that is there before, and not after. -/
def Kernel.Loses (k k' : Kernel) (db row : Bytes) : Prop := (k.get db row).isSome ∧ k'.get db row = none

/-- KEYS lists, COUNT counts and WDEL deletes the same keys, those with a KEY row that match the pattern.  Beside their
rows WDEL deletes only expiry rows of the select. -/
structure ScansAgree (P : Platform) (k : Kernel) (r : Request) : Prop where
  once : (Run.keys P k r.plain).delivered.Nodup
  keys : ∀ key, key ∈ (Run.keys P k r.plain).delivered ↔ r.Selects P k key
  count : (Run.count P k r.plain).counter = (Run.keys P k r.plain).delivered.length
  wdel : ∀ key, k.Loses (Run.wdel P k r.plain).1 r.database (keyRow key r.select intKey) ↔ r.Selects P k key
  beside : ∀ row, k.Loses (Run.wdel P k r.plain).1 r.database row →
    (∃ key, row = keyRow key r.select intKey) ∨ ∃ key, row = expireRow key r.select r.database
  kept : ∀ db row, ¬ k.Loses (Run.wdel P k r.plain).1 db row → (Run.wdel P k r.plain).1.get db row = k.get db row
  others : ∀ db row, k.Loses (Run.wdel P k r.plain).1 db row → db = r.database
  registered : SingleType k.get → ∀ key, r.Selects P k key ↔
    matchMask P.charmap key r.key = true ∧ (r.plain.getRegistry k r.select key false).1.identified = intKey

theorem get_wdel (writable : k.Writable) (db row : Bytes) : (Run.wdel P k r.plain).1.get db row =
    if db = r.database ∧ (row ∈ (Run.matchedKeys P k r.plain).map Prod.fst ∨
      Run.matchedKeys P k r.plain ≠ [] ∧ row = expireRow r.key r.select r.database) then none else k.get db row := by
  rw [Run.wdel]
  dsimp only
  rw [foldl_wdelRow, get_updates writable, contents_wipes]

/-- The rows that WDEL deletes: those of the keys found, and the expiry row of the name that is the pattern. -/
theorem loses_wdel (formed : ∀ row, (k.get r.database row).isSome → RowFormed r.database row) (writable : k.Writable)
    (whole : r.plain.interrupted k = false) (row : Bytes) : k.Loses (Run.wdel P k r.plain).1 r.database row ↔
      (∃ key, r.Selects P k key ∧ row = keyRow key r.select intKey) ∨
        (∃ key, r.Selects P k key) ∧ row = expireRow r.key r.select r.database ∧ (k.get r.database row).isSome := by
  have some : Run.matchedKeys P k r.plain ≠ [] ↔ ∃ key, r.Selects P k key := by
    constructor
    · intro nonempty
      obtain ⟨found, here⟩ := List.exists_mem_of_ne_nil _ nonempty
      exact ⟨_, ((mem_matchedKeys formed whole).mp here).1⟩
    · rintro ⟨key, selects⟩
      exact List.ne_nil_of_mem ((mem_matchedKeys formed whole).mpr ⟨selects, rfl⟩ : (keyRow key r.select intKey, key) ∈ _)
  have row_iff : row ∈ (Run.matchedKeys P k r.plain).map Prod.fst ↔
      ∃ key, r.Selects P k key ∧ row = keyRow key r.select intKey := by
    simp only [List.mem_map, mem_matchedKeys formed whole]
    constructor
    · rintro ⟨⟨row, key⟩, ⟨selects, same⟩, rfl⟩
      exact ⟨key, selects, same⟩
    · rintro ⟨key, selects, rfl⟩
      exact ⟨(_, key), ⟨selects, rfl⟩, rfl⟩
  unfold Loses
  rw [get_wdel writable, ← row_iff, ← some]
  constructor
  · rintro ⟨here, gone⟩
    split at gone
    · rename_i taken
      exact taken.2.imp id fun expiry => ⟨expiry.1, expiry.2, here⟩
    · rw [gone] at here
      simp at here
  · rintro (found | ⟨nonempty, expiry, here⟩)
    · obtain ⟨key, selects, same⟩ := row_iff.mp found
      exact ⟨by rw [same]; exact selects.2, if_pos ⟨rfl, .inl found⟩⟩
    · exact ⟨here, if_pos ⟨rfl, .inr ⟨nonempty, expiry⟩⟩⟩

theorem scans_agree (formed : ∀ row, (k.get r.database row).isSome → RowFormed r.database row) (writable : k.Writable)
    (whole : r.plain.interrupted k = false) (limit : r.limit = -1) : ScansAgree P k r := by
  have delivered : (Run.keys P k r.plain).delivered = (Run.matchedKeys P k r.plain).map Prod.snd := by
    rw [← scannedKeys_eq whole, Run.keys, (scanType_delivered P rfl whole intKey).2]
    exact if_pos limit
  have loses := loses_wdel (P := P) formed writable whole
  refine ⟨?_, fun key => ?_, ?_, fun key => ?_, fun row lost => ?_, fun db row lost => ?_, fun db row lost => ?_,
    fun single key => ?_⟩
  · rw [delivered]
    exact matchedKeys_nodup formed whole
  · rw [delivered, List.mem_map]
    constructor
    · rintro ⟨found, here, rfl⟩
      exact ((mem_matchedKeys formed whole).mp here).1
    · intro selects
      exact ⟨(keyRow key r.select intKey, key), (mem_matchedKeys formed whole).mpr ⟨selects, rfl⟩, rfl⟩
  · rw [Run.count, if_neg (by simp [whole]), delivered, List.length_map]
    rfl
  · rw [loses]
    constructor
    · rintro (⟨other, selects, same⟩ | ⟨-, same, -⟩)
      · exact (keyRow_inj.mp same).1 ▸ selects
      · exact absurd same.symm (expireRow_ne_keyRow (by decide))
    · exact fun selects => .inl ⟨key, selects, rfl⟩
  · rcases (loses row).mp lost with ⟨key, -, same⟩ | ⟨-, same, -⟩
    · exact .inl ⟨key, same⟩
    · exact .inr ⟨r.key, same⟩
  · unfold Loses at lost
    rw [get_wdel writable] at lost ⊢
    split at lost
    · rename_i taken
      rw [if_pos taken]
      cases held : k.get db row with
      | none => rfl
      | some value => exact absurd ⟨by rw [held]; rfl, rfl⟩ lost
    · rename_i taken
      rw [if_neg taken]
  · obtain ⟨here, gone⟩ := lost
    rw [get_wdel writable] at gone
    split at gone
    · rename_i taken
      exact taken.1
    · rw [gone] at here
      simp at here
  · rw [getRegistry_key formed single]
    rfl

end

namespace Server

/-- WDEL of a pattern in select 1, and so KEYS and COUNT of it. -/
def scan (pattern : Bytes) : Request where
  cls := .wdel
  database := lit "db"
  key := pattern
  select := 1
  limit := -1

/-- An expiring key and a list. -/
def scanned : List Event := [
  .request { cls := .setex, database := lit "db", key := lit "k", select := 1, value := lit "v", id := 100 },
  command .lpush (lit "l") (lit "x")]

theorem scans_agree_all : ∃ s, (machine integers).Reach KeepsShape s ∧ (scan (lit "*")).Selects integers s.kernel (lit "k") ∧
    ScansAgree integers s.kernel (scan (lit "*")) := by
  have h : ((machine integers).exec KeepsShape fresh scanned).any fun s => matchMask .brld1459 (lit "k") (lit "*") = true ∧
      (s.kernel.get (lit "db") (keyRow (lit "k") 1 intKey)).isSome := by decide
  obtain ⟨s, reached, found⟩ := Machine.exec_holds h (.initial fresh_initial)
  have writable := (invariant (I := fun _ => True) reached (fun _ _ => trivial) (fun _ _ _ => trivial)
    fun _ _ _ _ _ _ _ _ _ _ => trivial).1
  obtain ⟨name, row⟩ := found
  exact ⟨s, reached, ⟨name, row⟩, scans_agree (row_shape reached _) writable rfl rfl⟩

/-- WDEL of an expiring key deletes its expiry row, which is no KEY row. -/
theorem wdel_deletes_expiry_row : ∃ s, (machine integers).Reach KeepsShape s ∧
    ¬ ∀ row, s.kernel.Loses (Run.wdel integers s.kernel (scan (lit "k")).plain).1 (lit "db") row ↔
      ∃ key, (scan (lit "k")).Selects integers s.kernel key ∧ row = keyRow key 1 intKey := by
  have h : ((machine integers).exec KeepsShape fresh scanned).any fun s =>
      (s.kernel.get (lit "db") (expireRow (lit "k") 1 (lit "db"))).isSome ∧
        (Run.wdel integers s.kernel (scan (lit "k")).plain).1.get (lit "db") (expireRow (lit "k") 1 (lit "db")) = none := by
    decide
  obtain ⟨s, reached, found⟩ := Machine.exec_holds h (.initial fresh_initial)
  refine ⟨s, reached, fun exactly => ?_⟩
  obtain ⟨held, gone⟩ := found
  obtain ⟨key, -, row⟩ := (exactly _).mp ⟨held, gone⟩
  exact expireRow_ne_keyRow (by decide) row

end Server
end BerylDB.Store
