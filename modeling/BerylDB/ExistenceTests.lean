import BerylDB.AbsentKeys

/-! # Tests for a key

`GetRegistry` asks for a row, and `CheckDest` for a value that is not empty. -/
namespace BerylDB.Store
open Text Kernel Transition

/-! ## The two loops over `TypeRegs` -/

/-- `GetRegistry` succeeds. -/
def Kernel.Known (k : Kernel) (db : Bytes) (select : ℕ) (key : Bytes) : Prop :=
  (QueryBase.registered k db key select).isSome = true

/-- A row of the key has a value that is not empty. -/
def Kernel.Filled (k : Kernel) (db : Bytes) (select : ℕ) (key : Bytes) : Prop :=
  ∃ type ∈ typeRegs, (k.get db (keyRow key select type)).getD [] ≠ []

instance (k : Kernel) (db : Bytes) (select : ℕ) (key : Bytes) : Decidable (k.Known db select key) :=
  inferInstanceAs (Decidable (_ = true))

instance (k : Kernel) (db : Bytes) (select : ℕ) (key : Bytes) : Decidable (k.Filled db select key) :=
  inferInstanceAs (Decidable (∃ _ ∈ typeRegs, _))

section
variable {P : Platform} {k : Kernel} {db key type : Bytes} {select : ℕ} {q : QueryBase}

theorem known_iff : k.Known db select key ↔ ∃ type ∈ typeRegs, (k.get db (keyRow key select type)).isSome = true := by
  unfold Kernel.Known QueryBase.registered
  rw [List.find?_isSome]

theorem Kernel.Filled.known (h : k.Filled db select key) : k.Known db select key := by
  obtain ⟨type, here, filled⟩ := h
  refine known_iff.mpr ⟨type, here, ?_⟩
  cases held : k.get db (keyRow key select type) with
  | none => simp [held] at filled
  | some value => rfl

/-- Unless it is asked for its own key and type, `CheckDest` finds a filled row or answers 0. -/
theorem checkDest_ne_zero (other : ¬ (db = q.database ∧ select = q.select ∧ q.key = key ∧ type = q.identified)) :
    q.checkDest k select key type db ≠ 0 ↔ k.Filled db select key := by
  unfold QueryBase.checkDest
  rw [if_neg other]
  split
  · rename_i found here
    have filled : k.Filled db select key := by
      refine ⟨found, List.mem_of_find?_eq_some here, ?_⟩
      simpa using List.find?_some here
    refine iff_of_true ?_ filled
    split <;> decide
  · rename_i none
    refine iff_of_false (by simp) ?_
    rintro ⟨type, here, filled⟩
    exact absurd (List.find?_eq_none.mp none type here) (by simpa using filled)

end

/-! ## The commands -/

/-- A query on one key. -/
def onKey (cls : QueryClass) (db : Bytes) (select : ℕ) (key : Bytes) : Request := { cls, database := db, key, select }

/-- A query on the keys of a text, which has no key of its own. -/
def onText (cls : QueryClass) (db : Bytes) (select : ℕ) (text : Bytes) : Request :=
  { cls, database := db, key := [], select, value := text }

/-- RENAMENX of `source` onto `key`. -/
def onto (db : Bytes) (select : ℕ) (source key : Bytes) : Request :=
  { cls := .renamenx, database := db, key := source, select, value := key }

/-- Each of the six tests finds the key. -/
structure FoundByAll (P : Platform) (k : Kernel) (db : Bytes) (select : ℕ) (source key : Bytes) : Prop where
  exists_ : (k.reply P (onKey .exists db select key)).response = lit "1"
  type : (k.reply P (onKey .type db select key)).identified ≠ processNull
  touch : (k.reply P (onText .touch db select key)).counter = 1
  ntouch : (k.reply P (onText .ntouch db select key)).counter = 0
  renamenx : (k.reply P (onto db select source key)).access = .entryExists
  registry : k.Known db select key

/-- None of the six tests finds the key. -/
structure FoundByNone (P : Platform) (k : Kernel) (db : Bytes) (select : ℕ) (source key : Bytes) : Prop where
  exists_ : (k.reply P (onKey .exists db select key)).response ≠ lit "1"
  type : (k.reply P (onKey .type db select key)).identified = processNull
  touch : (k.reply P (onText .touch db select key)).counter ≠ 1
  ntouch : (k.reply P (onText .ntouch db select key)).counter ≠ 0
  renamenx : (k.reply P (onto db select source key)).access ≠ .entryExists
  registry : ¬ k.Known db select key

/-- The names of a text are never the empty one that the query has for its key. -/
theorem touched_iff {k : Kernel} {db name text : Bytes} {select : ℕ} (here : name ∈ spaceTokens text) (cls : QueryClass) :
    (onText cls db select text).plain.checkDest k select name [] db ≠ 0 ↔ k.Filled db select name := by
  refine checkDest_ne_zero fun own => ?_
  have nonempty : name ≠ [] := by simpa using (List.mem_filter.mp here).2
  exact nonempty own.2.2.1.symm

section
variable {P : Platform} {k : Kernel} {db source key text type : Bytes} {select : ℕ} (opened : k.Opened db)
include opened

theorem exists_known : (k.reply P (onKey .exists db select key)).response = lit "1" ↔ k.Known db select key := by
  unfold Kernel.Known
  cases registry : QueryBase.registered k db key select with
  | none =>
    have ran := prepare_absent (P := P) (c := .exists) (r := onKey .exists db select key) opened registry (by decide)
    refine iff_of_false ?_ (by decide)
    rw [Kernel.reply, show (onKey .exists db select key).cls = .exists from rfl, ran]
    change ¬ flag (processNull ≠ [] && processNull ≠ processNull) = lit "1"
    decide
  | some type =>
    have here := registered_some registry
    have ran := prepare_any (P := P) (c := .exists) (r := onKey .exists db select key) opened registry (by decide)
    refine iff_of_true ?_ rfl
    rw [Kernel.reply, show (onKey .exists db select key).cls = .exists from rfl, ran]
    have every : ∀ type ∈ typeRegs, flag (type ≠ [] && type ≠ processNull) = lit "1" := by decide
    exact every type here.1

theorem type_known : (k.reply P (onKey .type db select key)).identified ≠ processNull ↔ k.Known db select key := by
  unfold Kernel.Known
  cases registry : QueryBase.registered k db key select with
  | none =>
    have ran := prepare_absent (P := P) (c := .type) (r := onKey .type db select key) opened registry (by decide)
    rw [Kernel.reply, show (onKey .type db select key).cls = .type from rfl, ran]
    exact iff_of_false (not_not.mpr rfl) (by decide)
  | some type =>
    have ran := prepare_any (P := P) (c := .type) (r := onKey .type db select key) opened registry (by decide)
    rw [Kernel.reply, show (onKey .type db select key).cls = .type from rfl, ran]
    exact iff_of_true (typeRegs_ne_null (registered_some registry).1) rfl

theorem touch_counter : (k.reply P (onText .touch db select text)).counter =
    (spaceTokens text).countP fun name => k.Filled db select name := by
  rw [Kernel.reply, prepare_opened (r := onText .touch db select text) opened, List.countP_eq_length_filter]
  change ((spaceTokens text).filter _).length = _
  congr 1
  exact List.filter_congr fun name here => decide_eq_decide.mpr (touched_iff here .touch)

theorem ntouch_counter : (k.reply P (onText .ntouch db select text)).counter =
    (spaceTokens text).countP fun name => ¬ k.Filled db select name := by
  rw [Kernel.reply, prepare_opened (r := onText .ntouch db select text) opened, List.countP_eq_length_filter]
  change ((spaceTokens text).filter _).length = _
  congr 1
  exact List.filter_congr fun name here => decide_eq_decide.mpr (not_iff_comm.mp (touched_iff here .ntouch)).symm

/-- RENAMENX of a registered key is refused for another one with a filled row, and for itself. -/
theorem renamenx_refused (registered : QueryBase.registered k db source select = some type) :
    (k.reply P (onto db select source key)).access = .entryExists ↔ source = key ∨ k.Filled db select key := by
  have loaded : (onto db select source key).plain.getRegistry k select source true = _ := getRegistry_some true registered
  have known : type ≠ processNull := typeRegs_ne_null (registered_some registered).1
  have accepted (q : QueryBase) (ok : q.access = .statusOk) : (Run.renamenx k q).2.access ≠ .entryExists := by
    unfold Run.renamenx Run.renameBody
    dsimp only
    split <;> dsimp only <;> split <;> simp [QueryBase.setOK, QueryBase.accessSet, ok]
  rw [Kernel.reply, prepare_opened (r := onto db select source key) opened]
  unfold QueryBase.dispatch
  rw [show (onto db select source key).plain.select = select from rfl,
    show (onto db select source key).plain.key = source from rfl, loaded]
  simp only [show (onto db select source key).cls.queryType = .renamenx from rfl, known, if_false]
  split
  · rename_i zero
    refine iff_of_false (accepted _ rfl) ?_
    rintro (same | filled)
    · exact absurd zero (by simp [QueryBase.checkDest, onto, same])
    · by_cases same : source = key
      · exact absurd zero (by simp [QueryBase.checkDest, onto, same])
      · exact (checkDest_ne_zero fun own => same own.2.2.1).mpr filled zero
  · rename_i found
    refine iff_of_true rfl (or_iff_not_imp_left.mpr fun other => ?_)
    exact (checkDest_ne_zero fun own => other own.2.2.1).mp found

end

/-! ## Agreement -/

/-- The tests agree on a key: it has a filled row, or no row at all. TOUCH and NTOUCH read the names of the key. -/
inductive Coincides (k : Kernel) (db : Bytes) (select : ℕ) (source key : Bytes) : Prop
  | found (known : k.Known db select key) (own : source = key ∨ k.Filled db select key) (name : Bytes)
      (only : spaceTokens key = [name]) (filled : k.Filled db select name)
  | absent (unknown : ¬ k.Known db select key)
      (touch : (spaceTokens key).countP (fun name => k.Filled db select name) ≠ 1)
      (ntouch : (spaceTokens key).countP (fun name => ¬ k.Filled db select name) ≠ 0)

section
variable {P : Platform} {k : Kernel} {db source key text type : Bytes} {select : ℕ}

theorem coincides_plain (nonempty : key ≠ []) (plain : 32 ∉ key) :
    Coincides k db select source key ↔ (k.Known db select key → k.Filled db select key) := by
  have single : spaceTokens key = [key] := tokens_single plain nonempty
  constructor
  · rintro (⟨-, -, name, only, filled⟩ | ⟨unknown, -, -⟩) known
    · obtain rfl : key = name := by simpa [single] using only
      exact filled
    · exact absurd known unknown
  · intro filled
    by_cases known : k.Known db select key
    · exact .found known (.inr (filled known)) key single (filled known)
    · have empty : ¬ k.Filled db select key := fun here => known here.known
      refine .absent known ?_ ?_ <;> simp [single, empty]

/-- A list of names splits into the ones with a filled row and the others. -/
theorem countP_split (names : List Bytes) :
    names.countP (fun name => k.Filled db select name) + names.countP (fun name => ¬ k.Filled db select name) =
      names.length := by
  rw [List.length_eq_countP_add_countP fun name => decide (k.Filled db select name)]
  simp

theorem countP_all {names : List Bytes} :
    names.countP (fun name => k.Filled db select name) = 1 ∧
      names.countP (fun name => ¬ k.Filled db select name) = 0 ↔ ∃ name, names = [name] ∧ k.Filled db select name := by
  have total : names.countP (fun name => k.Filled db select name) + names.countP (fun name => ¬ k.Filled db select name) =
      names.length := countP_split names
  constructor
  · rintro ⟨one, zero⟩
    obtain ⟨name, rfl⟩ := List.length_eq_one_iff.mp (total.symm.trans (by rw [one, zero]))
    exact ⟨name, rfl, by simpa using one⟩
  · rintro ⟨name, rfl, filled⟩
    simp [filled]

theorem foundByAll_iff (opened : k.Opened db) (registered : QueryBase.registered k db source select = some type) :
    FoundByAll P k db select source key ↔ k.Known db select key ∧ (source = key ∨ k.Filled db select key) ∧
      ∃ name, spaceTokens key = [name] ∧ k.Filled db select name := by
  rw [← countP_all, ← touch_counter (P := P) opened, ← ntouch_counter (P := P) opened,
    ← renamenx_refused (P := P) opened registered]
  constructor
  · intro h
    exact ⟨h.registry, h.renamenx, h.touch, h.ntouch⟩
  · rintro ⟨known, renamenx, touch, ntouch⟩
    exact ⟨(exists_known opened).mpr known, (type_known opened).mpr known, touch, ntouch, renamenx, known⟩

theorem foundByNone_iff (opened : k.Opened db) (registered : QueryBase.registered k db source select = some type) :
    FoundByNone P k db select source key ↔ ¬ k.Known db select key ∧
      (spaceTokens key).countP (fun name => k.Filled db select name) ≠ 1 ∧
      (spaceTokens key).countP (fun name => ¬ k.Filled db select name) ≠ 0 := by
  rw [← touch_counter (P := P) opened, ← ntouch_counter (P := P) opened]
  constructor
  · intro h
    exact ⟨h.registry, h.touch, h.ntouch⟩
  · rintro ⟨unknown, touch, ntouch⟩
    refine ⟨mt (exists_known opened).mp unknown, not_not.mp (mt (type_known opened).mp unknown), touch, ntouch, ?_, unknown⟩
    rw [Ne, renamenx_refused opened registered]
    rintro (rfl | filled)
    · exact unknown (by rw [Kernel.Known, registered]; rfl)
    · exact unknown filled.known

theorem not_found_closing (closing : ¬ k.Opened db) :
    ¬ (FoundByAll P k db select source key ∨ FoundByNone P k db select source key) := by
  rintro (h | h)
  · have touched := h.touch
    rw [Kernel.reply, prepare_closing (r := onText .touch db select key) closing] at touched
    cases touched
  · refine h.ntouch ?_
    rw [Kernel.reply, prepare_closing (r := onText .ntouch db select key) closing]
    rfl

theorem spaceTokens_intercalate {names : List Bytes} (plain : ∀ name ∈ names, name ≠ [] ∧ 32 ∉ name) :
    spaceTokens ([32].intercalate names) = names := by
  induction names with
  | nil => rfl
  | cons name names ih =>
    obtain ⟨nonempty, blank⟩ := plain name List.mem_cons_self
    cases names with
    | nil => simpa [spaceTokens] using tokens_single blank nonempty
    | cons next names =>
      have rest : spaceTokens ([32].intercalate (next :: names)) = next :: names :=
        ih fun name here => plain name (List.mem_cons_of_mem _ here)
      rw [List.intercalate_cons_cons, List.append_assoc, List.singleton_append, spaceTokens, tokens_append _ blank nonempty]
      exact congrArg (name :: ·) rest

/-- The tests agree on a key if and only if its database is open and the key has no row, or a filled one. -/
theorem tests_agree_iff (registered : QueryBase.registered k db source select = some type) :
    ((FoundByAll P k db select source key ∨ FoundByNone P k db select source key) ↔
      k.Opened db ∧ Coincides k db select source key) ∧
    (key ≠ [] → 32 ∉ key → (Coincides k db select source key ↔ (k.Known db select key → k.Filled db select key))) ∧
    (k.Opened db → ∀ names : List Bytes, (∀ name ∈ names, name ≠ [] ∧ 32 ∉ name) →
      (k.reply P (onText .touch db select ([32].intercalate names))).counter +
        (k.reply P (onText .ntouch db select ([32].intercalate names))).counter = names.length) := by
  refine ⟨?_, coincides_plain, fun opened names plain => ?_⟩
  · by_cases opened : k.Opened db
    · rw [foundByAll_iff opened registered, foundByNone_iff opened registered, and_iff_right opened]
      constructor
      · rintro (⟨known, own, name, only, filled⟩ | ⟨unknown, touch, ntouch⟩)
        · exact .found known own name only filled
        · exact .absent unknown touch ntouch
      · rintro (⟨known, own, name, only, filled⟩ | ⟨unknown, touch, ntouch⟩)
        · exact .inl ⟨known, own, name, only, filled⟩
        · exact .inr ⟨unknown, touch, ntouch⟩
    · exact iff_of_false (not_found_closing opened) fun h => opened h.1
  · rw [touch_counter opened, ntouch_counter opened, spaceTokens_intercalate plain, countP_split]

end

theorem tests_agree_pushed : ∃ s, (Server.machine Server.integers).Reachable s ∧
    (FoundByAll Server.integers s.kernel (lit "db") 1 (lit "l") (lit "l") ∨
      FoundByNone Server.integers s.kernel (lit "db") 1 (lit "l") (lit "l")) := by
  have h : ((Server.machine Server.integers).exec (fun _ _ => True) Server.fresh
      [.request (inDb .lpush (lit "l") (lit "a"))]).any fun s =>
        QueryBase.registered s.kernel (lit "db") (lit "l") 1 = some intList ∧
          (s.kernel.databases (lit "db")).closing = false ∧ s.kernel.Filled (lit "db") 1 (lit "l") := by decide
  obtain ⟨s, reached, registered, opened, filled⟩ := Machine.exec_holds h (.initial Server.fresh_initial)
  obtain ⟨agree, plain, -⟩ := tests_agree_iff (P := Server.integers) registered
  exact ⟨s, reached, agree.mpr ⟨opened, (plain (by decide) (by decide)).mpr fun _ => filled⟩⟩

/-- SET with an empty value leaves a row that EXISTS finds and TOUCH does not. -/
theorem tests_disagree : ∃ s, (Server.machine Server.integers).Reachable s ∧
    QueryBase.registered s.kernel (lit "db") (lit "l") 1 = some intList ∧ keyValidator (lit "k") = true ∧
    s.kernel.Opened (lit "db") ∧
    ¬ (FoundByAll Server.integers s.kernel (lit "db") 1 (lit "l") (lit "k") ∨
      FoundByNone Server.integers s.kernel (lit "db") 1 (lit "l") (lit "k")) := by
  have h : ((Server.machine Server.integers).exec (fun _ _ => True) Server.fresh
      [.request (inDb .lpush (lit "l") (lit "a")), .request (inDb .set (lit "k") [])]).any fun s =>
        QueryBase.registered s.kernel (lit "db") (lit "l") 1 = some intList ∧ (s.kernel.databases (lit "db")).closing = false ∧
          (s.kernel.reply Server.integers (onKey .exists (lit "db") 1 (lit "k"))).response = lit "1" ∧
          (s.kernel.reply Server.integers (onText .touch (lit "db") 1 (lit "k"))).counter = 0 := by decide
  obtain ⟨s, reached, registered, opened, found, untouched⟩ := Machine.exec_holds h (.initial Server.fresh_initial)
  refine ⟨s, reached, registered, by decide, opened, ?_⟩
  rintro (all | none)
  · exact absurd (untouched.symm.trans all.touch) (by decide)
  · exact none.exists_ found

end BerylDB.Store
