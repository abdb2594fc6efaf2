import BerylDB.Deadlines
import BerylDB.RowShape

/-! # Expiry rows and the table of deadlines

The rows that `expire_list_query` takes for expiry rows and the entries of `ExpireManager` say the same.
Rows that the code writes or leaves behind without their entry are told apart by `KeepsDeadlines`. -/
namespace BerylDB.Store
open Text Transition Kernel

/-! ## Rows that `expire_list_query` reads -/

theorem colonTokens_rowName {key text : Bytes} (type : Bytes) (key_ne : key ≠ []) (text_ne : text ≠ [])
    (colon : (58 : UInt8) ∉ text) : colonTokens (rowName key text type) = toBin key :: text :: colonTokens type := by
  unfold colonTokens rowName
  rw [tokens_append _ (colon_not_mem_toBin key) (by simpa [toBin_eq_nil] using key_ne), tokens_append _ colon text_ne]

theorem colonTokens_keyRow {key : Bytes} (select : ℕ) (type : Bytes) (key_ne : key ≠ []) :
    colonTokens (keyRow key select type) = toBin key :: convtoString select :: colonTokens type :=
  colonTokens_rowName type key_ne (convtoString_ne_nil select) (colon_not_mem_convtoString select)

theorem colonTokens_typeRegs {type : Bytes} (h : type ∈ typeRegs) : colonTokens type = [type] := by
  have nonempty : ∀ t ∈ typeRegs, t ≠ [] := by decide
  exact tokens_single (colon_not_mem_typeRegs h) (nonempty type h)

theorem colonTokens_ownedType {type : Bytes} (database : Bytes) (colon : (58 : UInt8) ∉ type) (nonempty : type ≠ []) :
    colonTokens (ownedType type database) = type :: colonTokens database :=
  tokens_append database colon nonempty

/-- The third token decides, the fourth one is only compared. -/
theorem third_of_isExpireRow {db a b : Bytes} {rest : List Bytes} {c : Bytes}
    (h : Run.isExpireRow db (a :: b :: c :: rest) = true) : c = intExpire := by
  simp only [Run.isExpireRow, Bool.and_eq_true] at h
  simpa using h.1

/-- Rows under another type are not taken for expiry rows. -/
theorem not_isExpireRow {db key text type : Bytes} (key_ne : key ≠ []) (text_ne : text ≠ [])
    (colon : (58 : UInt8) ∉ text) {third : Bytes} {rest : List Bytes} (tokens : colonTokens type = third :: rest)
    (other : third ≠ intExpire) : Run.isExpireRow db (colonTokens (rowName key text type)) = false := by
  rw [colonTokens_rowName type key_ne text_ne colon, tokens]
  exact Bool.eq_false_iff.mpr fun yes => other (third_of_isExpireRow yes)

/-- What `expire_list_query` makes of a row. -/
def decodeExpire (db : Bytes) (row value : Bytes) : Option (Bytes × ℕ × ℤ) :=
  let names := colonTokens row
  if Run.isExpireRow db names then
    some ((names[0]?.map toStr).getD [], convtoUnsigned (names[1]?.getD []), convtoSigned value)
  else none

theorem tokens_database {db : Bytes} (colon : (58 : UInt8) ∉ db) : (colonTokens db)[0]?.all (· == db) = true := by
  by_cases empty : db = []
  · subst empty
    rfl
  · rw [colonTokens, tokens_single colon empty]
    simp

theorem isExpireRow_expireRow {db key : Bytes} {select : ℕ} (key_ne : key ≠ []) (colon : (58 : UInt8) ∉ db) :
    Run.isExpireRow db (colonTokens (expireRow key select db)) = true := by
  rw [expireRow, colonTokens_keyRow _ _ key_ne, colonTokens_ownedType db (by decide) (by decide)]
  simpa [Run.isExpireRow] using tokens_database colon

theorem decodeExpire_expireRow {db key : Bytes} {select : ℕ} {t : ℤ} (key_ne : key ≠ []) (bound : select < 2 ^ 32)
    (colon : (58 : UInt8) ∉ db) (low : 0 ≤ t) (high : t < 2 ^ 31) :
    decodeExpire db (expireRow key select db) (convtoString t.toNat) = some (key, select, t) := by
  have number : convtoSigned (convtoString t.toNat) = t := by
    rw [convtoSigned_convtoString]
    split <;> omega
  simp only [decodeExpire, isExpireRow_expireRow key_ne colon, if_true]
  rw [expireRow, colonTokens_keyRow _ _ key_ne]
  simp [convtoUnsigned_convtoString bound, number]

/-! ## The invariant -/

/-- On open databases an expiry row is one of an entry, and an entry has its row. -/
structure Synced (opened : Bytes → Prop) (g : Contents) (d : Deadlines) : Prop where
  noStray : ∀ db, opened db → ∀ row, (g db row).isSome → Run.isExpireRow db (colonTokens row) = true →
    ∃ key select, key ≠ [] ∧ row = expireRow key select db
  marks : ∀ db, opened db → ∀ key select, key ≠ [] →
    g db (expireRow key select db) = (d db key select).map fun t => convtoString t.toNat
  legit : ∀ db, opened db → ∀ key select t, d db key select = some t →
    key ≠ [] ∧ select < 2 ^ 32 ∧ (58 : UInt8) ∉ db

def Kernel.Opened (k : Kernel) (db : Bytes) : Prop := (k.databases db).closing = false

/-- The puts of expiry rows are well formed. -/
def PutsOwn (us : List Update) : Prop :=
  ∀ db row value, .put db row value ∈ us → Run.isExpireRow db (colonTokens row) = true →
    ∃ key select, key ≠ [] ∧ row = expireRow key select db

section
variable {opened : Bytes → Prop} {g : Contents} {d : Deadlines} {us : List Update}

/-- Updates that change row and entry of one name alike. -/
theorem Synced.patch (h : Synced opened g d) (puts : PutsOwn us) (db key : Bytes) (select : ℕ) (time : Option ℤ)
    (rows : ∀ db' key' select', key' ≠ [] → contents us g db' (expireRow key' select' db') =
      if db' = db ∧ key' = key ∧ select' = select then time.map fun t => convtoString t.toNat
      else g db' (expireRow key' select' db'))
    (times : ∀ db' key' select', deadlines us d db' key' select' =
      if db' = db ∧ key' = key ∧ select' = select then time else d db' key' select')
    (legal : time.isSome → key ≠ [] ∧ select < 2 ^ 32 ∧ (58 : UInt8) ∉ db) :
    Synced opened (contents us g) (deadlines us d) where
  noStray db' hdb row here expiry := by
    rcases contents_isSome here with here | ⟨value, put⟩
    · exact h.noStray db' hdb row here expiry
    · exact puts db' row value put expiry
  marks db' hdb key' select' key_ne := by
    rw [rows _ _ _ key_ne, times]
    split
    · rfl
    · exact h.marks db' hdb key' select' key_ne
  legit db' hdb key' select' t ht := by
    rw [times] at ht
    split at ht
    · rename_i same
      obtain ⟨rfl, rfl, rfl⟩ := same
      exact legal (by simp [ht])
    · exact h.legit db' hdb key' select' t ht

/-- Updates that touch no expiry row and no entry. -/
theorem Synced.frame (h : Synced opened g d) (puts : PutsOwn us)
    (rows : ∀ db key select, opened db → key ≠ [] → contents us g db (expireRow key select db) = g db (expireRow key select db))
    (times : deadlines us d = d) : Synced opened (contents us g) (deadlines us d) where
  noStray db' hdb row here expiry := by
    rcases contents_isSome here with here | ⟨value, put⟩
    · exact h.noStray db' hdb row here expiry
    · exact puts db' row value put expiry
  marks db' hdb key' select' key_ne := by
    rw [rows _ _ _ hdb key_ne, times]
    exact h.marks db' hdb key' select' key_ne
  legit := by
    rw [times]
    exact h.legit

end

/-! ## What a request must not do -/

/-- A deadline in 31 bits that does not replace an entry at 0, on a database whose name the rows can hold. -/
def Request.Timely (r : Request) (k : Kernel) : Prop :=
  (58 : UInt8) ∉ r.database ∧ r.id < 2 ^ 31 ∧ k.deadline r.database r.key r.select ≠ some 0

/-- The rows a scan deletes are no expiry rows of entries. -/
def Kernel.SparesExpiries (k : Kernel) (db : Bytes) (rows : List Bytes) : Prop :=
  ∀ e ∈ k.expires, e.database = db → expireRow e.key e.select db ∉ rows

/-- Row and entry are written, moved and deleted together, unless HSETNX writes the empty row, a deadline
does not fit, an expiring key gets a new name, select or database, or WDEL, SFLUSH or GREM delete one side. -/
def Request.KeepsDeadlines (P : Platform) (r : Request) (k : Kernel) : Prop :=
  k.Opened r.database →
    match r.cls with
    | .hsetnx => r.registered k ≠ none ∨ r.hesh = []
    | .setex => r.registered k = some intKey ∨ r.registered k = none → r.Timely k
    | .expire | .expireat | .getexp => r.registered k = some intKey → r.Timely k
    | .rename | .renamenx => r.Expiring k → Allows r.cls k r intKey → r.value = r.key
    | .copy => r.Expiring k → Allows r.cls k r intKey → k.deadline r.database r.value r.select ≠ some 0
    | .move => r.Expiring k → Allows r.cls k r intKey → r.value = convtoString r.select
    | .clone => r.Expiring k → Allows r.cls k r intKey → k.deadline r.database r.key (convtoUnsigned r.value) ≠ some 0
    | .transfer => ¬ (r.Expiring k ∧ Allows r.cls k r intKey)
    | .wdel => ∀ found ∈ Run.matchedKeys P k r.plain, found.2 ≠ r.key → k.deadline r.database found.2 r.select = none
    | .sflush => k.SparesExpiries r.database (Run.sflushRows k r.plain)
    | .georem => k.SparesExpiries r.database (Run.georemRows P k r.plain)
    | _ => True

instance (P : Platform) (r : Request) (k : Kernel) : Decidable (r.KeepsDeadlines P k) := by
  unfold Request.KeepsDeadlines Request.Timely Request.Expiring Kernel.Opened SparesExpiries
  generalize r.cls = c
  -- unlike `split` it leaves no equations in the data
  induction c using QueryClass.casesOn <;> infer_instance

section
variable {k : Kernel} {r : Request}

/-- The deadline of an expiring key. -/
theorem expiring_deadline (timed : Timed k.expires) (expiring : r.Expiring k) :
    ∃ t : ℤ, 0 < t ∧ t < 2 ^ 31 ∧ k.deadline r.database r.key r.select = some t ∧ (r.ttl k).toNat = t.toNat ∧
      toSigned ((r.ttl k).toNat) = t := by
  have positive := expiring.2
  have time : r.ttl k = (k.deadline r.database r.key r.select).getD (-1) := expireTime_eq timed
  cases found : k.deadline r.database r.key r.select with
  | none =>
    rw [time, found] at positive
    exact absurd positive (by decide)
  | some t =>
    obtain ⟨low, high⟩ := deadline_range timed found
    rw [time, found] at positive
    have same : r.ttl k = t := by rw [time, found]; rfl
    refine ⟨t, positive, high, rfl, by rw [same], ?_⟩
    rw [same, Int.toNat_of_nonneg low, toSigned_of_range (by omega) high]

theorem toSigned_id {n : ℕ} (h : n < 2 ^ 31) : toSigned n = n := toSigned_of_range (by omega) (by omega)

/-- On an open database no row of the type EXPIRE stands without its database. -/
theorem Synced.registered {type : Bytes} (h : Synced k.Opened k.get k.deadline) (opened : k.Opened r.database)
    (registered : r.registered k = some type) (key_ne : r.key ≠ []) : type ≠ intExpire := by
  rintro rfl
  obtain ⟨known, value, held⟩ := registered_some registered
  have expiry : Run.isExpireRow r.database (colonTokens (keyRow r.key r.select intExpire)) = true := by
    rw [colonTokens_keyRow _ _ key_ne, colonTokens_typeRegs known]
    rfl
  obtain ⟨key, select, -, row⟩ := h.noStray r.database opened _ (by rw [held]; rfl) expiry
  exact expireRow_ne_keyRow known row.symm

theorem expireRow_ne_intKey {key key' db : Bytes} {select select' : ℕ} :
    expireRow key select db ≠ keyRow key' select' intKey := expireRow_ne_keyRow (by decide)

theorem expireRow_ne_rowName {key key' text type db : Bytes} {select : ℕ} (text_colon : (58 : UInt8) ∉ text)
    (colon : (58 : UInt8) ∉ type) : expireRow key select db ≠ rowName key' text type := fun same => by
  obtain ⟨-, -, types⟩ := (rowName_eq_keyRow text_colon).mp same.symm
  exact colon (types ▸ by simp [ownedType])

theorem contents_erases (db : Bytes) (rows : List Bytes) (g : Contents) (d x : Bytes) :
    contents (rows.map fun row => .erase db row) g d x = if d = db ∧ x ∈ rows then none else g d x := by
  induction rows generalizing g with
  | nil => simp
  | cons row rows ih =>
    rw [List.map_cons, contents_cons, ih]
    by_cases same : d = db
    · by_cases here : x = row <;> by_cases later : x ∈ rows <;> simp [Update.contents, same, here, later]
    · simp [Update.contents, same]

theorem deadlines_erases (db : Bytes) (rows : List Bytes) (d : Deadlines) :
    deadlines (rows.map fun row => .erase db row) d = d := by
  induction rows with
  | nil => rfl
  | cons row rows ih => exact ih

/-- Deleting rows that belong to no entry. -/
theorem Synced.erases (h : Synced k.Opened k.get k.deadline) (timed : Timed k.expires) {db : Bytes} {rows : List Bytes}
    (spares : k.SparesExpiries db rows) : Synced k.Opened (contents (rows.map fun row => .erase db row) k.get)
      (deadlines (rows.map fun row => .erase db row) k.deadline) := by
  refine h.frame ?_ ?_ (deadlines_erases db rows _)
  · intro db' row value put
    simp at put
  · intro db' key select opened key_ne
    rw [contents_erases]
    split
    · rename_i erased
      obtain ⟨rfl, erased⟩ := erased
      rw [h.marks db' opened key select key_ne]
      cases found : k.deadline db' key select with
      | none => rfl
      | some t => exact absurd erased (spares _ ((mem_expires timed).mpr found) rfl)
    · rfl

/-- DEL and the timer's deletes. -/
theorem Synced.del {P : Platform} (h : Synced k.Opened k.get k.deadline) {us : List Update} (cls : r.cls = .del)
    (outcome : Outcome P k r us) : Synced k.Opened (contents us k.get) (deadlines us k.deadline) := by
  obtain rfl | ⟨type, registered, -, rfl⟩ | ⟨-, rfl⟩ := outcome.del cls
  · exact h
  · have known := (registered_some registered).1
    refine h.frame (fun db row value put => by simp at put) (fun db key select _ _ => ?_) rfl
    simp [Update.contents, Request.row, expireRow_ne_keyRow known]
  · refine h.patch (fun db row value put => by simp at put) r.database r.key r.select none ?_ ?_ (by simp)
    · intro db key select _
      by_cases same : db = r.database <;>
        simp [Update.contents, Request.row, expireRow_inj, expireRow_ne_intKey, same]
    · intro db key select
      simp [Update.deadlines]

theorem Synced.wipe {opened : Bytes → Prop} {g : Contents} {d : Deadlines} (h : Synced opened g d) (found : Bytes × Bytes)
    (row : ∀ key select, key ≠ [] → expireRow key select r.database ≠ found.1)
    (name : found.2 ≠ r.key → d r.database found.2 r.select = none) :
    Synced opened (contents (wipe r found) g) (deadlines (wipe r found) d) ∧
      ∀ key, d r.database key r.select = none → deadlines (wipe r found) d r.database key r.select = none := by
  have times (db key : Bytes) (select : ℕ) : deadlines (Store.wipe r found) d db key select =
      if db = r.database ∧ key = r.key ∧ select = r.select then none else d db key select := by
    by_cases here : db = r.database ∧ select = r.select
    · obtain ⟨rfl, rfl⟩ := here
      by_cases pattern : key = r.key
      · simp [Store.wipe, Update.deadlines, pattern]
      · by_cases same : key = found.2
        · subst same
          simp [Store.wipe, Update.deadlines, pattern, name pattern]
        · simp [Store.wipe, Update.deadlines, pattern, same]
    · have other (key' : Bytes) : ¬ (db = r.database ∧ key = key' ∧ select = r.select) := fun same =>
        here ⟨same.1, same.2.2⟩
      simp [Store.wipe, Update.deadlines, other]
  constructor
  · refine h.patch (fun db x value put => by simp [Store.wipe] at put) r.database r.key r.select none ?_ times (by simp)
    intro db key select key_ne
    by_cases same : db = r.database
    · subst same
      simp [Store.wipe, Update.contents, expireRow_inj, row key select key_ne]
    · simp [Store.wipe, Update.contents, same]
  · intro key none
    rw [times]
    split <;> simp [none]

theorem Synced.wipes {opened : Bytes → Prop} {g : Contents} {d : Deadlines} (h : Synced opened g d)
    (found : List (Bytes × Bytes)) (rows : ∀ f ∈ found, ∀ key select, key ≠ [] → expireRow key select r.database ≠ f.1)
    (names : ∀ f ∈ found, f.2 ≠ r.key → d r.database f.2 r.select = none) :
    Synced opened (contents (found.flatMap (Store.wipe r)) g) (deadlines (found.flatMap (Store.wipe r)) d) := by
  induction found generalizing g d with
  | nil => exact h
  | cons f found ih =>
    obtain ⟨first, less⟩ := h.wipe f (rows f (by simp)) (names f (by simp))
    rw [List.flatMap_cons, contents_append, deadlines_append]
    refine ih first (fun f' hf' => rows f' (by simp [hf'])) fun f' hf' other => ?_
    exact less _ (names f' (by simp [hf']) other)

/-- The rows that WDEL takes for keys are no expiry rows. -/
theorem matchedKeys_row {P : Platform} {q : QueryBase} {found : Bytes × Bytes} (h : found ∈ Run.matchedKeys P k q)
    {key db : Bytes} {select : ℕ} (key_ne : key ≠ []) : expireRow key select db ≠ found.1 := by
  intro same
  simp only [Run.matchedKeys, List.mem_filterMap, Option.map_eq_some_iff] at h
  obtain ⟨row, -, name, scanned, rfl⟩ := h
  rw [← same, expireRow, colonTokens_keyRow _ _ key_ne, colonTokens_ownedType db (by decide) (by decide)] at scanned
  have other : (intExpire == intKey) = false := by decide
  simp [scanKey, other] at scanned

theorem plainRow {db key text type : Bytes} (key_ne : key ≠ []) (text_ne : text ≠ []) (colon : (58 : UInt8) ∉ text)
    (known : type ∈ typeRegs) (other : type ≠ intExpire) :
    Run.isExpireRow db (colonTokens (rowName key text type)) = false :=
  not_isExpireRow key_ne text_ne colon (colonTokens_typeRegs known) other

theorem dataTypes_ne_expire {type : Bytes} (h : type ∈ dataTypes) : type ≠ intExpire := by
  rintro rfl
  exact absurd h (by decide)

end

/-! ## Updates of other rows -/

/-- Updates that leave expiry rows and entries alone. -/
def Update.Plain : Update → Prop
  | .put db row _ =>
    Run.isExpireRow db (colonTokens row) = false ∧ ∀ key select, key ≠ [] → expireRow key select db ≠ row
  | .erase db row => ∀ key select, key ≠ [] → expireRow key select db ≠ row
  | .plan .. | .unplan .. => True
  | .schedule .. | .cancel .. | .close _ => False

section
variable {opened : Bytes → Prop} {g : Contents} {d : Deadlines} {us : List Update}

theorem Synced.plain (h : Synced opened g d) (plain : ∀ u ∈ us, u.Plain) :
    Synced opened (contents us g) (deadlines us d) := by
  induction us generalizing g d with
  | nil => exact h
  | cons u us ih =>
    refine ih ?_ fun v hv => plain v (by simp [hv])
    have hu := plain u (by simp)
    cases u with
    | put db row value =>
      refine (h.frame ?_ ?_ rfl : Synced opened (contents [.put db row value] g) (deadlines [.put db row value] d))
      · intro db' row' value' put expiry
        obtain ⟨rfl, rfl, rfl⟩ : db' = db ∧ row' = row ∧ value' = value := by simpa using put
        simp [hu.1] at expiry
      · intro db' key select _ key_ne
        have other : ¬ (db' = db ∧ expireRow key select db' = row) := fun same =>
          hu.2 key select key_ne (same.1 ▸ same.2)
        simp [Update.contents, other]
    | erase db row =>
      refine (h.frame (by simp [PutsOwn]) ?_ rfl : Synced opened (contents [.erase db row] g) (deadlines [.erase db row] d))
      intro db' key select _ key_ne
      have other : ¬ (db' = db ∧ expireRow key select db' = row) := fun same => hu key select key_ne (same.1 ▸ same.2)
      simp [Update.contents, other]
    | plan => exact h
    | unplan => exact h
    | schedule => exact hu.elim
    | cancel => exact hu.elim
    | close => exact hu.elim

theorem plain_put {db key text type value : Bytes} (key_ne : key ≠ []) (text_ne : text ≠ [])
    (colon : (58 : UInt8) ∉ text) (known : type ∈ typeRegs) (other : type ≠ intExpire) :
    (Update.put db (rowName key text type) value).Plain :=
  ⟨plainRow key_ne text_ne colon known other, fun _ _ _ => expireRow_ne_rowName colon (colon_not_mem_typeRegs known)⟩

theorem plain_putKey {db key type value : Bytes} {select : ℕ} (key_ne : key ≠ []) (known : type ∈ typeRegs)
    (other : type ≠ intExpire) : (Update.put db (keyRow key select type) value).Plain :=
  plain_put key_ne (convtoString_ne_nil select) (colon_not_mem_convtoString select) known other

theorem plain_erase {db key type : Bytes} {select : ℕ} (known : type ∈ typeRegs) :
    (Update.erase db (keyRow key select type)).Plain := fun _ _ _ => expireRow_ne_keyRow known

theorem plain_future {db key value : Bytes} {select : ℕ} {time : ℤ} (key_ne : key ≠ []) :
    (Update.put db (futureRow key select db) value).Plain ∧ (Update.plan db time key select).Plain :=
  ⟨⟨not_isExpireRow key_ne (convtoString_ne_nil _) (colon_not_mem_convtoString _)
      (colonTokens_ownedType db (by decide) (by decide)) (by decide),
    fun _ _ _ => futureRow_ne_expireRow.symm⟩, trivial⟩

@[simp] theorem putsOwn_nil : PutsOwn [] := fun _ _ _ put => by simp at put

@[simp] theorem putsOwn_put {db row value : Bytes} : PutsOwn (.put db row value :: us) ↔
    (Run.isExpireRow db (colonTokens row) = true → ∃ key select, key ≠ [] ∧ row = expireRow key select db) ∧ PutsOwn us := by
  constructor
  · exact fun h => ⟨h db row value (by simp), fun db' row' value' put => h db' row' value' (by simp [put])⟩
  · rintro ⟨first, rest⟩ db' row' value' put
    rcases List.mem_cons.mp put with same | put
    · obtain ⟨rfl, rfl, rfl⟩ : db' = db ∧ row' = row ∧ value' = value := by simpa using same
      exact first
    · exact rest db' row' value' put

@[simp] theorem putsOwn_erase {db row : Bytes} : PutsOwn (.erase db row :: us) ↔ PutsOwn us := by simp [PutsOwn]
@[simp] theorem putsOwn_cancel {db key : Bytes} {select : ℕ} : PutsOwn (.cancel db key select :: us) ↔ PutsOwn us := by
  simp [PutsOwn]
@[simp] theorem putsOwn_schedule {db key : Bytes} {time : ℤ} {select : ℕ} :
    PutsOwn (.schedule db time key select :: us) ↔ PutsOwn us := by simp [PutsOwn]

theorem putsOwn_expireRow {db key : Bytes} {select : ℕ} (key_ne : key ≠ [])
    (_ : Run.isExpireRow db (colonTokens (expireRow key select db)) = true) :
    ∃ key' select', key' ≠ [] ∧ expireRow key select db = expireRow key' select' db := ⟨key, select, key_ne, rfl⟩

end

section
variable {k : Kernel} {r : Request}

/-- Row and entry stay together in every outcome that the condition leaves. -/
theorem Synced.outcome {P : Platform} {us : List Update} (h : Synced k.Opened k.get k.deadline) (timed : Timed k.expires)
    (accepted : r.Accepted) (opened : k.Opened r.database) (keeps : r.KeepsDeadlines P k)
    (outcome : Outcome P k r us) (lasts : r.cls ≠ .dbreset) :
    Synced k.Opened (contents us k.get) (deadlines us k.deadline) := by
  have keeps := keeps opened
  have valid (kind : r.cls.queryType ≠ .skip) : r.key ≠ [] := keyValidator_ne_nil (accepted.key kind)
  have newKey (cls : r.cls ∈ [.rename, .renamenx, .copy]) : r.value ≠ [] := keyValidator_ne_nil (accepted.newKey cls)
  have select_bound : r.select < 2 ^ 32 := lt_of_le_of_lt accepted.select.2 (by norm_num)
  have timedKey : ∀ c ∈ [QueryClass.expire, .expireat, .getexp], c.queryType ≠ .skip := by decide
  have renameKey : ∀ c ∈ [QueryClass.rename, .renamenx], c.queryType ≠ .skip := by decide
  have digits (cls : r.cls ∈ [.move, .clone]) : r.value ≠ [] ∧ (58 : UInt8) ∉ r.value := by
    obtain ⟨all, low, -⟩ := accepted.newSelect cls
    refine ⟨fun empty => ?_, colon_not_mem_digits all⟩
    rw [empty] at low
    exact absurd low (by decide)
  have intKey_row (db key : Bytes) (select : ℕ) (key_ne : key ≠ []) :
      Run.isExpireRow db (colonTokens (keyRow key select intKey)) = false :=
    plainRow key_ne (convtoString_ne_nil _) (colon_not_mem_convtoString _) (by decide) (by decide)
  cases outcome with
  | unchanged => exact h
  | @stored type value writes place =>
    have key_ne := valid (writes_queryType writes)
    have data : type ∈ typeRegs ∧ type ≠ intExpire := by
      rcases place with registered | ⟨-, -, base⟩
      · exact ⟨(registered_some registered).1, h.registered opened registered key_ne⟩
      · exact ⟨mem_typeRegs_of_mem_dataTypes (baseRequest_mem base), dataTypes_ne_expire (baseRequest_mem base)⟩
    exact h.plain (by simpa [Request.row] using plain_putKey key_ne data.1 data.2)
  | removed registered how => exact h.plain (by simpa [Request.row] using plain_erase (registered_some registered).1)
  | deleted cls registered lasting => exact h.del (P := P) cls (.deleted cls registered lasting)
  | deletedExpiring cls expiring => exact h.del (P := P) cls (.deletedExpiring cls expiring)
  | stray value cls absent field => simp [cls, absent, field] at keeps
  | setex cls place =>
    have key_ne := valid (by simp [cls, QueryClass.queryType])
    obtain ⟨colon, small, -⟩ : r.Timely k := by simpa [cls, place] using keeps
    refine h.patch ?_ r.database r.key r.select (some (toSigned r.id)) ?_ ?_ fun _ => ⟨key_ne, select_bound, colon⟩
    · simpa [Request.row, intKey_row _ _ _ key_ne] using putsOwn_expireRow key_ne
    · intro db key select _
      by_cases same : db = r.database <;>
        simp [Update.contents, Request.row, expireRow_inj, expireRow_ne_intKey, same,
          toSigned_id small]
    · intro db key select
      simp [Update.deadlines, toSigned_id small]
  | deadline cls registered =>
    have key_ne := valid (timedKey r.cls cls)
    obtain ⟨colon, small, -⟩ : r.Timely k := by
      simp only [List.mem_cons, List.not_mem_nil, or_false] at cls
      rcases cls with cls | cls | cls <;> simpa [cls, registered] using keeps
    refine h.patch ?_ r.database r.key r.select (some (toSigned r.id)) ?_ ?_ fun _ => ⟨key_ne, select_bound, colon⟩
    · simpa using putsOwn_expireRow key_ne
    · intro db key select _
      by_cases same : db = r.database <;> simp [Update.contents, expireRow_inj, same, toSigned_id small]
    · intro db key select
      simp [Update.deadlines, toSigned_id small]
  | persisted cls registered =>
    refine h.patch (by simp) r.database r.key r.select none ?_ ?_ (by simp)
    · intro db key select _
      by_cases same : db = r.database <;> simp [Update.contents, expireRow_inj, same]
    · intro db key select
      simp [Update.deadlines]
  | @renamed type value cls registered allows held lasting =>
    have key_ne := valid (renameKey r.cls cls)
    have known := (registered_some registered).1
    have other := h.registered opened registered key_ne
    have new_ne := newKey (List.mem_append_left [QueryClass.copy] cls)
    exact h.plain (by simpa [Request.row] using ⟨plain_putKey new_ne known other, plain_erase known⟩)
  | renamedExpiring cls expiring allows held =>
    have key_ne := valid (renameKey r.cls cls)
    have same : r.value = r.key := by
      simp only [List.mem_cons, List.not_mem_nil, or_false] at cls
      rcases cls with cls | cls <;> (simp only [cls] at keeps allows; exact keeps expiring allows)
    obtain ⟨t, positive, high, found, text, time⟩ := expiring_deadline timed expiring
    obtain ⟨-, -, colon⟩ := h.legit _ opened _ _ _ found
    refine h.patch ?_ r.database r.key r.select (some t) ?_ ?_ fun _ => ⟨key_ne, select_bound, colon⟩
    · simpa [same, Request.row, intKey_row _ _ _ key_ne] using putsOwn_expireRow key_ne
    · intro db key select _
      by_cases here : db = r.database <;>
        simp [Update.contents, Request.row, expireRow_inj, expireRow_ne_intKey, here, same, text]
    · intro db key select
      simp only [deadlines_cons, deadlines_nil, Update.deadlines, same, time, positive.le, true_and]
      split <;> simp_all
  | copied cls registered allows held lasting =>
    have known := (registered_some registered).1
    have other := h.registered opened registered (valid (by simp [cls, QueryClass.queryType]))
    exact h.plain (by simpa using plain_putKey (newKey (by simp [cls])) known other)
  | copiedExpiring cls expiring allows held =>
    have new_ne := newKey (by simp [cls])
    obtain ⟨t, positive, high, found, text, time⟩ := expiring_deadline timed expiring
    obtain ⟨-, -, colon⟩ := h.legit _ opened _ _ _ found
    refine h.patch ?_ r.database r.value r.select (some t) ?_ ?_ fun _ => ⟨new_ne, select_bound, colon⟩
    · simpa [intKey_row _ _ _ new_ne] using putsOwn_expireRow new_ne
    · intro db key select _
      by_cases here : db = r.database <;> simp [Update.contents, expireRow_inj, expireRow_ne_intKey, here, text]
    · intro db key select
      simp only [deadlines_cons, deadlines_nil, Update.deadlines, time, positive.le, true_and]
  | copiedNothing value cls absent free =>
    have plain : (Update.put r.database (keyRow r.value r.select processNull) value).Plain :=
      ⟨not_isExpireRow (newKey (by simp [cls])) (convtoString_ne_nil _) (colon_not_mem_convtoString _)
        (tokens_single (by decide) (by decide)) (by decide),
      fun _ _ _ => expireRow_ne_rowName (colon_not_mem_convtoString _) (by decide)⟩
    exact h.plain (by simpa using plain)
  | moved cls registered allows held lasting =>
    have key_ne := valid (by simp [cls, QueryClass.queryType])
    have known := (registered_some registered).1
    obtain ⟨text_ne, colon⟩ := digits (by simp [cls])
    have other := h.registered opened registered key_ne
    exact h.plain (by simpa [Request.row] using ⟨plain_put key_ne text_ne colon known other, plain_erase known⟩)
  | movedExpiring cls expiring allows held =>
    have key_ne := valid (by simp [cls, QueryClass.queryType])
    have same : r.value = convtoString r.select := by
      simp only [cls] at keeps allows
      exact keeps expiring allows
    obtain ⟨t, positive, high, found, text, time⟩ := expiring_deadline timed expiring
    obtain ⟨-, -, colon⟩ := h.legit _ opened _ _ _ found
    have number : convtoUnsigned r.value = r.select := by rw [same, convtoUnsigned_convtoString select_bound]
    have expiry : rowName r.key r.value (ownedType intExpire r.database) = expireRow r.key r.select r.database := by
      rw [same]
      rfl
    have data : rowName r.key r.value intKey = r.row intKey := by
      rw [same]
      rfl
    rw [expiry, data, number]
    refine h.patch ?_ r.database r.key r.select (some t) ?_ ?_ fun _ => ⟨key_ne, select_bound, colon⟩
    · simpa [Request.row, intKey_row _ _ _ key_ne] using putsOwn_expireRow key_ne
    · intro db key select _
      by_cases here : db = r.database <;>
        simp [Update.contents, Request.row, expireRow_inj, expireRow_ne_intKey, here, text]
    · intro db key select
      simp only [deadlines_cons, deadlines_nil, Update.deadlines, time, positive.le, true_and]
      split <;> simp_all
  | cloned cls registered allows held lasting =>
    have key_ne := valid (by simp [cls, QueryClass.queryType])
    have known := (registered_some registered).1
    obtain ⟨text_ne, colon⟩ := digits (by simp [cls])
    have other := h.registered opened registered key_ne
    exact h.plain (by simpa using plain_put key_ne text_ne colon known other)
  | clonedExpiring cls expiring allows =>
    have key_ne := valid (by simp [cls, QueryClass.queryType])
    obtain ⟨text_ne, colon⟩ := digits (by simp [cls])
    obtain ⟨t, positive, high, found, text, time⟩ := expiring_deadline timed expiring
    obtain ⟨-, -, nameColon⟩ := h.legit _ opened _ _ _ found
    have bound : convtoUnsigned r.value < 2 ^ 32 := convtoUnsigned_lt r.value
    have data (db key : Bytes) (select : ℕ) : expireRow key select db ≠ rowName r.key r.value intKey :=
      expireRow_ne_rowName colon (by decide)
    have row (db : Bytes) : Run.isExpireRow db (colonTokens (rowName r.key r.value intKey)) = false :=
      plainRow key_ne text_ne colon (by decide) (by decide)
    refine h.patch ?_ r.database r.key (convtoUnsigned r.value) (some t) ?_ ?_ fun _ => ⟨key_ne, bound, nameColon⟩
    · simpa [row] using putsOwn_expireRow key_ne
    · intro db key select _
      by_cases here : db = r.database <;> simp [Update.contents, expireRow_inj, here, text, data]
    · intro db key select
      simp only [deadlines_cons, deadlines_nil, Update.deadlines, time, positive.le, true_and]
  | transferred cls registered allows goal held lasting =>
    have key_ne := valid (by simp [cls, QueryClass.queryType])
    have known := (registered_some registered).1
    have other := h.registered opened registered key_ne
    exact h.plain (by simpa [Request.row] using ⟨plain_putKey key_ne known other, plain_erase known⟩)
  | transferredExpiring cls expiring allows goal held =>
    simp only [cls] at keeps allows
    exact absurd ⟨expiring, allows⟩ keeps
  | wiped cls =>
    simp only [cls] at keeps
    exact h.wipes _ (fun f hf key select key_ne => matchedKeys_row hf key_ne) keeps
  | flushed cls =>
    simp only [cls] at keeps
    exact h.erases timed keeps
  | near cls =>
    simp only [cls] at keeps
    exact h.erases timed keeps
  | planned cls => exact h.plain (by simpa using plain_future (valid (by simp [cls, QueryClass.queryType])))
  | unplanned cls => exact h.plain (by simpa [Update.Plain] using fun _ _ _ => futureRow_ne_expireRow.symm)
  | @applied row cls held place =>
    have key_ne := valid (by simp [cls, QueryClass.queryType])
    have future (key : Bytes) (select : ℕ) : expireRow key select r.database ≠ futureRow r.key r.select r.database :=
      futureRow_ne_expireRow.symm
    have data : (Update.put r.database (r.row intKey) (toBin (cutAt 58 row).2)).Plain :=
      plain_putKey key_ne (by decide) (by decide)
    exact h.plain (by simpa [Update.Plain, future] using data)
  | closed cls => exact absurd cls lasts

/-- The database that is closed is not looked at any more. -/
theorem Synced.close {opened opened' : Bytes → Prop} {g : Contents} {d : Deadlines} (h : Synced opened g d) (db : Bytes)
    (less : ∀ db', opened' db' → opened db' ∧ db' ≠ db) :
    Synced opened' g ((Update.close db).deadlines d) where
  noStray db' hdb := h.noStray db' (less db' hdb).1
  marks db' hdb key select key_ne := by
    obtain ⟨before, other⟩ := less db' hdb
    simpa [Update.deadlines, other] using h.marks db' before key select key_ne
  legit db' hdb key select t found := by
    obtain ⟨before, other⟩ := less db' hdb
    exact h.legit db' before key select t (by simpa [Update.deadlines, other] using found)

theorem Ready.outcome {P : Platform} {us : List Update} (timed : Timed k.expires) (opened : k.Opened r.database)
    (keeps : r.KeepsDeadlines P k) (bound : r.select < 2 ^ 32) (outcome : Outcome P k r us) : Ready us k.deadline := by
  have keeps := keeps opened
  cases outcome with
  | setex cls place =>
    obtain ⟨-, small, notZero⟩ : r.Timely k := by simpa [cls, place] using keeps
    simp only [Ready, Update.deadlines, and_true]
    exact ⟨by rw [toSigned_id small]; omega, fun _ => notZero⟩
  | deadline cls registered =>
    obtain ⟨-, small, notZero⟩ : r.Timely k := by
      simp only [List.mem_cons, List.not_mem_nil, or_false] at cls
      rcases cls with cls | cls | cls <;> simpa [cls, registered] using keeps
    simp only [Ready, Update.deadlines, and_true]
    exact ⟨by rw [toSigned_id small]; omega, fun _ => notZero⟩
  | renamedExpiring cls expiring allows held =>
    obtain ⟨t, -, high, -, -, time⟩ := expiring_deadline timed expiring
    have same : r.value = r.key := by
      simp only [List.mem_cons, List.not_mem_nil, or_false] at cls
      rcases cls with cls | cls <;> (simp only [cls] at keeps allows; exact keeps expiring allows)
    simp only [Ready, Update.deadlines, time, same, and_true]
    exact ⟨high, by simp⟩
  | copiedExpiring cls expiring allows held =>
    obtain ⟨t, -, high, -, -, time⟩ := expiring_deadline timed expiring
    simp only [cls] at keeps allows
    simp only [Ready, Update.deadlines, time, and_true]
    exact ⟨high, fun _ => keeps expiring allows⟩
  | movedExpiring cls expiring allows held =>
    obtain ⟨t, -, high, -, -, time⟩ := expiring_deadline timed expiring
    simp only [cls] at keeps allows
    have number : convtoUnsigned r.value = r.select := by
      rw [keeps expiring allows, convtoUnsigned_convtoString bound]
    simp only [Ready, Update.deadlines, time, number, and_true]
    exact ⟨high, by simp⟩
  | clonedExpiring cls expiring allows =>
    obtain ⟨t, -, high, -, -, time⟩ := expiring_deadline timed expiring
    simp only [cls] at keeps allows
    simp only [Ready, Update.deadlines, time, and_true]
    exact ⟨high, fun _ => keeps expiring allows⟩
  | transferredExpiring cls expiring allows goal held =>
    simp only [cls] at keeps allows
    exact absurd ⟨expiring, allows⟩ keeps
  | wiped cls => exact Ready.of_no_schedule (by simp [wipe]) _
  | _ => exact Ready.of_no_schedule (by simp) _

theorem Ready.del {P : Platform} {us : List Update} (cls : r.cls = .del) (outcome : Outcome P k r us) (d : Deadlines) :
    Ready us d := by
  obtain rfl | ⟨type, -, -, rfl⟩ | ⟨-, rfl⟩ := outcome.del cls <;> exact Ready.of_no_schedule (by simp) _

theorem closing_update (h : k.Writable) (u : Update) (db : Bytes) :
    (k.update u).Opened db ↔ k.Opened db ∧ u ≠ .close db := by
  unfold Kernel.Opened
  cases u with
  | put db' row value =>
    rw [update, Kernel.put, write_writable h]
    by_cases same : db = db' <;> simp [same]
  | erase db' row =>
    rw [update, Kernel.erase, write_writable h]
    by_cases same : db = db' <;> simp [same]
  | schedule db' time key select => simp [update_schedule, databases_addExpire]
  | plan db' time key select => simp [update_plan, databases_addFuture]
  | cancel db' key select => simp [update_cancel, Kernel.deleteExpire]
  | unplan db' key select => simp [update, Kernel.deleteFuture]
  | close db' =>
    by_cases same : db' = db
    · simp [update, Kernel.closeExpires, Kernel.closeFutures, Kernel.close, same]
    · simp [update, Kernel.closeExpires, Kernel.closeFutures, Kernel.close, same, Ne.symm same]

theorem opened_updates (h : k.Writable) (us : List Update) (db : Bytes) :
    (k.updates us).Opened db ↔ k.Opened db ∧ .close db ∉ us := by
  induction us generalizing k with
  | nil =>
    rw [updates_nil]
    simp
  | cons u us ih =>
    rw [updates_cons, ih (h.update u), closing_update h]
    simp only [List.mem_cons, not_or, and_assoc, ne_comm]

end

end BerylDB.Store
