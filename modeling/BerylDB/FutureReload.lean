import BerylDB.ExpiryReload
import BerylDB.Futures

/-! # Loading the futures again

`ModuleCoreDB::Initialize` pushes `expire_list_query` for every database of the core map `databases`, and
`future_list_query` when it comes to the last one. -/
namespace BerylDB.Store
open Text Transition Kernel

/-! ## The queries pushed at startup -/

/-- `DBManager::Find`, with the databases that `OpenAll` has loaded: of names that differ in case only, the
first one stays in `DBMap`. -/
def findDatabase (P : Platform) (dblist : List Bytes) (name : Bytes) : Option Bytes :=
  dblist.find? fun db => db ≠ [] ∧ equals P.charmap db (name.map toLower)

/-- `ExpireHelper::ListFutures`. -/
def listFutures (db : Bytes) : Request where
  cls := .futureList
  database := db
  key := []
  select := 0
  flags := .global
  id := 1000

/-- The loop of `Initialize` over the databases. -/
def initializeFrom (P : Platform) (dblist : List Bytes) : ℕ → List Bytes → List Request
  | _, [] => []
  | counter, name :: names =>
    (match findDatabase P dblist name with
      | some database =>
        expireList database :: if dblist.length = counter + 1 then [listFutures database] else []
      | none => []) ++ initializeFrom P dblist (counter + 1) names

def initializeQueries (P : Platform) (dblist : List Bytes) : List Request := initializeFrom P dblist 0 dblist

/-- The memory when `Initialize` is called, with KeepFutures. -/
def Kernel.startup (disk : Bytes → Rows) (keepExpires : Bool) (now : ℤ) : Kernel where
  databases db := { rows := disk db, closing := false, writable := true }
  expires := []
  futures := []
  now := now
  keepExpires := keepExpires
  keepFutures := true

theorem initializeFrom_pushed {P : Platform} {dblist names : List Bytes} {counter : ℕ}
    (length : dblist.length = counter + names.length) :
    ∃ lists : List Request, (∀ r ∈ lists, ∃ db, r = expireList db) ∧
      (initializeFrom P dblist counter names).Perm
        (((names.getLast?.bind (findDatabase P dblist)).map listFutures).toList ++ lists) := by
  induction names generalizing counter with
  | nil => exact ⟨[], by simp, List.Perm.refl _⟩
  | cons name names ih =>
    obtain ⟨lists, expires, pushed⟩ := @ih (counter + 1) (by simp at length; omega)
    cases names with
    | nil =>
      have last : dblist.length = counter + 1 := length
      cases found : findDatabase P dblist name with
      | none => exact ⟨[], by simp, by simp [initializeFrom, found]⟩
      | some db =>
        refine ⟨[expireList db], by simp, ?_⟩
        simpa [initializeFrom, found, last] using List.Perm.swap _ _ _
    | cons name' names =>
      have early : dblist.length ≠ counter + 1 := by simp at length; omega
      rw [List.getLast?_cons_cons]
      cases found : findDatabase P dblist name with
      | none =>
        refine ⟨lists, expires, ?_⟩
        rw [initializeFrom, found]
        exact pushed
      | some db =>
        refine ⟨expireList db :: lists, ?_, ?_⟩
        · rintro r (_ | ⟨_, hr⟩)
          · exact ⟨db, rfl⟩
          · exact expires r hr
        · rw [initializeFrom, found]
          simp only [early, if_false]
          exact (pushed.cons _).trans List.perm_middle.symm

/-! ## `future_list_query` -/

/-- What `future_list_query` makes of a row. -/
def decodeFuture (row value : Bytes) : Option (Bytes × ℕ × ℤ) :=
  let names := colonTokens row
  if names[2]?.all (· == intFuture) then
    some ((names[0]?.map toStr).getD [], convtoUnsigned (names[1]?.getD []), convtoSigned (cutAt 58 value).1)
  else none

/-- The entries that `future_list_query` finds in rows. -/
def futureEntries (db : Bytes) (rows : List (Bytes × Bytes)) : List FutureEntry :=
  rows.filterMap fun row => (decodeFuture row.1 row.2).map fun (key, select, time) => ⟨db, key, select, time, []⟩

theorem futureListRow_eq {k : Kernel} {q : QueryBase} (keep : k.keepFutures = true) (row : Bytes × Bytes) :
    Run.futureListRow q k row =
      match decodeFuture row.1 row.2 with
      | some (key, select, time) => k.addFuture q.database time key select true
      | none => k := by
  unfold Run.futureListRow decodeFuture
  dsimp only
  cases (colonTokens row.1)[2]?.all (· == intFuture) with
  | true => simp [keep]
  | false => simp

theorem addFuture_new {k : Kernel} {db key : Bytes} {select : ℕ} {time : ℤ} (low : 0 ≤ time)
    (new : Timetable.lookup FutureEntry.name (db, key, select) k.futures = none) :
    k.addFuture db time key select true =
      { k with futures := Timetable.add FutureEntry.schedule ⟨db, key, select, time, []⟩ k.futures } := by
  have absent : ¬ k.futureTime db key select > 0 := by simp [Kernel.futureTime, new]
  unfold Kernel.addFuture
  rw [if_neg (not_lt.mpr low), if_neg absent]
  rfl

/-- Rows of different names are all added. -/
theorem foldl_futureListRow (q : QueryBase) (rows : List (Bytes × Bytes)) {k : Kernel} (keep : k.keepFutures = true)
    (low : ∀ e ∈ futureEntries q.database rows, 0 ≤ e.schedule)
    (distinct : ((futureEntries q.database rows ++ k.futures).map FutureEntry.name).Nodup) :
    (rows.foldl (Run.futureListRow q) k).futures.Perm (futureEntries q.database rows ++ k.futures) := by
  refine Timetable.foldl_add_perm _ Kernel.futures (Run.futureListRow q) (·.keepFutures = true) ?_ ?_ keep distinct
  · intro k keep row _ none
    rw [futureListRow_eq keep, Option.map_eq_none_iff.mp none]
  · intro k keep row here e found new
    have late : 0 ≤ e.schedule := low e (List.mem_filterMap.mpr ⟨row, here, found⟩)
    obtain ⟨⟨key, select, time⟩, decoded, rfl⟩ := Option.map_eq_some_iff.mp found
    rw [futureListRow_eq keep, decoded]
    dsimp only
    rw [addFuture_new late new]
    exact ⟨keep, Timetable.add_perm⟩

/-! ## The rows on disk -/

/-- The rows of a database are as the commands write them, and the FUTURE rows as `WriteFuture` does. -/
structure FutureRows (g : Contents) (db : Bytes) : Prop where
  formed : ∀ row, (g db row).isSome → RowFormed db row
  text : ∀ key select value, g db (futureRow key select db) = some value →
    ∃ (time : ℕ) (fvalue : Bytes), time < 2 ^ 32 ∧ value = convtoString time ++ 58 :: fvalue

section
variable {k : Kernel} {db : Bytes}

theorem decodeFuture_futureRow {key fvalue : Bytes} {select time : ℕ} (key_ne : key ≠ []) (bound : select < 2 ^ 32) :
    decodeFuture (futureRow key select db) (convtoString time ++ 58 :: fvalue) =
      some (key, select, if time < 2 ^ 31 then (time : ℤ) else 0) := by
  have tokens : colonTokens (futureRow key select db) = toBin key :: convtoString select :: intFuture :: colonTokens db := by
    rw [futureRow, colonTokens_keyRow select _ key_ne, colonTokens_ownedType db (by decide) (by decide)]
  have number : convtoSigned (cutAt 58 (convtoString time ++ 58 :: fvalue)).1 = if time < 2 ^ 31 then (time : ℤ) else 0 := by
    rw [cutAt_append fvalue (colon_not_mem_convtoString time), convtoSigned_convtoString]
  simp only [decodeFuture, tokens]
  simp [convtoUnsigned_convtoString bound, number]

/-- A row that `future_list_query` takes is a FUTURE row of the database. -/
theorem FutureRows.decoded (h : FutureRows k.get db) {row value key : Bytes} {select : ℕ} {t : ℤ}
    (held : k.get db row = some value) (found : decodeFuture row value = some (key, select, t)) :
    key ≠ [] ∧ row = futureRow key select db ∧ ∃ (time : ℕ) (fvalue : Bytes),
      value = convtoString time ++ 58 :: fvalue ∧ t = if time < 2 ^ 31 then (time : ℤ) else 0 := by
  obtain ⟨key', select', type, key_ne, low, high, kind, rfl⟩ := h.formed row (by rw [held]; rfl)
  have skipped {third : Bytes} {rest : List Bytes} (tokens : colonTokens type = third :: rest) : third = intFuture := by
    by_contra other
    have names : colonTokens (keyRow key' select' type) = toBin key' :: convtoString select' :: third :: rest := by
      rw [colonTokens_keyRow select' type key_ne, tokens]
    simp [decodeFuture, names, other] at found
  obtain rfl : type = ownedType intFuture db := by
    rcases kind with data | rfl | rfl
    · obtain rfl := skipped (colonTokens_typeRegs (mem_typeRegs_of_mem_dataTypes data))
      exact absurd data (by decide)
    · exact absurd (skipped (colonTokens_ownedType db (by decide) (by decide))) (by decide)
    · rfl
  obtain ⟨time, fvalue, bound, rfl⟩ := h.text key' select' value held
  have small : select' < 2 ^ 32 := lt_of_le_of_lt high (by norm_num)
  have decoded : decodeFuture (futureRow key' select' db) (convtoString time ++ 58 :: fvalue) = some (key, select, t) := found
  rw [decodeFuture_futureRow key_ne small] at decoded
  cases decoded
  exact ⟨key_ne, rfl, time, fvalue, rfl, rfl⟩

/-- Loading the expiries leaves the futures and their rows alone. -/
structure Kernel.SparesFutures (k k' : Kernel) : Prop where
  writable : k'.Writable
  opened : ∀ db, k.Opened db → k'.Opened db
  futures : k'.futures = k.futures
  keepFutures : k'.keepFutures = k.keepFutures
  fewer : ∀ db row value, k'.get db row = some value → k.get db row = some value
  kept : ∀ db key select value, key ≠ [] → k.get db (futureRow key select db) = some value →
    k'.get db (futureRow key select db) = some value

theorem Kernel.SparesFutures.refl (h : k.Writable) : k.SparesFutures k :=
  ⟨h, fun _ => id, rfl, rfl, fun _ _ _ => id, fun _ _ _ _ _ => id⟩

theorem Kernel.SparesFutures.trans {k' k'' : Kernel} (h : k.SparesFutures k') (h' : k'.SparesFutures k'') :
    k.SparesFutures k'' where
  writable := h'.writable
  opened db here := h'.opened db (h.opened db here)
  futures := h'.futures.trans h.futures
  keepFutures := h'.keepFutures.trans h.keepFutures
  fewer db row value held := h.fewer db row value (h'.fewer db row value held)
  kept db key select value key_ne held := h'.kept db key select value key_ne (h.kept db key select value key_ne held)

theorem Kernel.SparesFutures.addExpire (h : k.Writable) (db' : Bytes) (time : ℤ) (key : Bytes) (select : ℕ) :
    k.SparesFutures (k.addExpire db' time key select true) := by
  have databases := databases_addExpire k db' time key select true
  have keep : (k.addExpire db' time key select true).keepFutures = k.keepFutures := by
    unfold Kernel.addExpire
    split
    · rfl
    · dsimp only
      split <;> rfl
  have get : (k.addExpire db' time key select true).get = k.get := by
    unfold Kernel.get Kernel.rows
    rw [databases]
  refine ⟨fun db => databases ▸ h db, fun db here => ?_, futures_addExpire db' time key select true, keep, ?_, ?_⟩
  · rwa [Kernel.Opened, databases]
  · exact fun db row value held => get ▸ held
  · exact fun db key select value _ held => get ▸ held

theorem futureRow_not_expiry {key db' : Bytes} {select : ℕ} (key_ne : key ≠ []) :
    Run.isExpireRow db' (colonTokens (futureRow key select db)) = false :=
  not_isExpireRow key_ne (convtoString_ne_nil select) (colon_not_mem_convtoString select)
    (colonTokens_ownedType db (by decide) (by decide)) (by decide)

theorem Kernel.SparesFutures.erase (h : k.Writable) {db' row : Bytes}
    (expiry : Run.isExpireRow db' (colonTokens row) = true) : k.SparesFutures (k.erase db' row) := by
  have get (db x : Bytes) := congrFun (congrFun (get_update h (.erase db' row)) db) x
  refine ⟨h.write db' _, fun db here => ?_, futures_write db' _, ?_, fun db x value held => ?_, ?_⟩
  · exact (opened_updates h [.erase db' row] db).mpr ⟨here, by simp⟩
  · unfold Kernel.erase
    rw [write_writable h]
  · change (k.update (.erase db' row)).get db x = some value at held
    rw [get] at held
    simp only [Update.contents] at held
    split at held
    · simp at held
    · exact held
  · intro db key select value key_ne held
    have other : futureRow key select db ≠ row := by
      rintro rfl
      rw [futureRow_not_expiry key_ne] at expiry
      exact Bool.false_ne_true expiry
    change (k.update (.erase db' row)).get db _ = some value
    rw [get]
    simpa [Update.contents, other] using held

theorem Kernel.SparesFutures.expireListRow (h : k.Writable) (q : QueryBase) (row : Bytes × Bytes) :
    k.SparesFutures (Run.expireListRow q k row) := by
  unfold Run.expireListRow
  dsimp only
  cases expiry : Run.isExpireRow q.database (colonTokens row.1) with
  | false => exact .refl h
  | true =>
    cases k.keepExpires with
    | true => exact .addExpire h q.database _ _ _
    | false => exact .erase h expiry

theorem Kernel.SparesFutures.foldl (q : QueryBase) (rows : List (Bytes × Bytes)) (h : k.Writable) :
    k.SparesFutures (rows.foldl (Run.expireListRow q) k) := by
  induction rows generalizing k with
  | nil => exact .refl h
  | cons row rows ih =>
    have first := SparesFutures.expireListRow h q row
    exact first.trans (ih first.writable)

theorem Kernel.SparesFutures.execute (P : Platform) (h : k.Writable) (db' : Bytes) :
    k.SparesFutures (k.execute P (expireList db')) := by
  unfold Kernel.execute QueryBase.prepare
  split
  · exact .refl h
  · exact .foldl _ _ h

theorem Kernel.SparesFutures.executes (P : Platform) {lists : List Request} (expires : ∀ r ∈ lists, ∃ db, r = expireList db)
    (h : k.Writable) : k.SparesFutures (lists.foldl (Kernel.execute P) k) := by
  induction lists generalizing k with
  | nil => exact .refl h
  | cons r lists ih =>
    obtain ⟨db, rfl⟩ := expires r (by simp)
    have first := SparesFutures.execute P h db
    exact first.trans (ih (fun r hr => expires r (by simp [hr])) first.writable)

theorem FutureRows.spared {k' : Kernel} (h : FutureRows k.get db) (spares : k.SparesFutures k') :
    FutureRows k'.get db where
  formed row here := by
    obtain ⟨value, held⟩ := Option.isSome_iff_exists.mp here
    exact h.formed row (by rw [spares.fewer db row value held]; rfl)
  text key select value held := h.text key select value (spares.fewer db _ value held)

/-- The FUTURE rows of a database and the entries made of them. -/
theorem FutureRows.mem_entries (h : FutureRows k.get db) {e : FutureEntry} : e ∈ futureEntries db (k.rows db).toList ↔
    e.database = db ∧ e.value = [] ∧ ∃ (time : ℕ) (fvalue : Bytes),
      k.get db (futureRow e.key e.select db) = some (convtoString time ++ 58 :: fvalue) ∧
        e.schedule = if time < 2 ^ 31 then (time : ℤ) else 0 := by
  obtain ⟨database, key, select, schedule, value⟩ := e
  simp only [futureEntries, List.mem_filterMap, Option.map_eq_some_iff]
  constructor
  · rintro ⟨row, hrow, ⟨key', select', t⟩, found, same⟩
    cases same
    have held := mem_rows.mp hrow
    obtain ⟨-, row_eq, time, fvalue, text, number⟩ := h.decoded held found
    rw [row_eq, text] at held
    exact ⟨rfl, rfl, time, fvalue, held, number⟩
  · rintro ⟨rfl, rfl, time, fvalue, held, number⟩
    obtain ⟨key', select', type, key_ne, -, high, -, row⟩ := h.formed _ (by rw [held]; rfl)
    obtain ⟨rfl, rfl, -⟩ := keyRow_inj.mp row
    refine ⟨(futureRow key select database, _), mem_rows.mpr held, (key, select, schedule), ?_, rfl⟩
    rw [decodeFuture_futureRow key_ne (lt_of_le_of_lt high (by norm_num)), number]

theorem FutureRows.distinct (h : FutureRows k.get db) :
    ((futureEntries db (k.rows db).toList).map FutureEntry.name).Nodup := by
  unfold List.Nodup futureEntries
  rw [List.pairwise_map, List.pairwise_filterMap]
  refine rows_distinct.imp_of_mem fun {a b} ha hb different => ?_
  rintro e he e' he' same
  obtain ⟨⟨key, select, time⟩, found, rfl⟩ := Option.map_eq_some_iff.mp he
  obtain ⟨⟨key', select', time'⟩, found', rfl⟩ := Option.map_eq_some_iff.mp he'
  obtain ⟨-, rfl, rfl⟩ : db = db ∧ key = key' ∧ select = select' := by simpa [FutureEntry.name] using same
  refine different ?_
  rw [(h.decoded (mem_rows.mp ha) found).2.1, (h.decoded (mem_rows.mp hb) found').2.1]

theorem execute_listFutures (P : Platform) (opened : k.Opened db) : k.execute P (listFutures db) =
    (k.rows db).toList.foldl (Run.futureListRow (listFutures db).plain) k := by
  have opened' : (k.databases db).closing = false := opened
  unfold Kernel.execute QueryBase.prepare
  rw [if_neg (by simp [listFutures, opened'])]
  rfl

theorem Kernel.Writable.listFutures (P : Platform) (h : k.Writable) (opened : k.Opened db) :
    (k.execute P (listFutures db)).Writable := by
  rw [execute_listFutures P opened]
  generalize (k.rows db).toList = rows
  clear opened
  induction rows generalizing k with
  | nil => exact h
  | cons row rows ih =>
    refine ih (k := Run.futureListRow (Store.listFutures db).plain k row) ?_
    unfold Run.futureListRow
    dsimp only
    split
    · exact h
    · split
      · exact fun d => databases_addFuture k .. ▸ h d
      · exact h.write _ _

/-- `future_list_query` on an empty table adds the FUTURE rows of its database. -/
theorem FutureRows.loaded (P : Platform) (h : FutureRows k.get db) (opened : k.Opened db) (keep : k.keepFutures = true)
    (empty : k.futures = []) :
    (k.execute P (listFutures db)).futures.Perm (futureEntries db (k.rows db).toList) := by
  rw [execute_listFutures P opened]
  have loaded := foldl_futureListRow (listFutures db).plain (k.rows db).toList keep ?_ ?_
  · simpa [empty, listFutures] using loaded
  · intro e he
    obtain ⟨-, -, time, fvalue, -, number⟩ := h.mem_entries.mp he
    rw [number]
    split <;> omega
  · simpa [empty, listFutures] using h.distinct

end

/-! ## After startup -/

/-- A database that `OpenAll` loads. -/
def Registered (P : Platform) (dblist : List Bytes) (db : Bytes) : Prop := findDatabase P dblist db = some db

theorem findDatabase_some {P : Platform} {dblist : List Bytes} {name db : Bytes}
    (found : findDatabase P dblist name = some db) :
    Registered P dblist db := by
  obtain ⟨-, same⟩ : db ≠ [] ∧ equals P.charmap db (name.map toLower) := by simpa using List.find?_some found
  have agree (other : Bytes) : equals P.charmap other (db.map toLower) = equals P.charmap other (name.map toLower) := by
    simp only [equals_lower] at same ⊢
    rw [equals, equals, eq_of_beq same]
  unfold Registered findDatabase
  simp only [agree]
  exact found

/-- One entry for each FUTURE row of each registered database, at the time of the row, and no other entry. -/
structure FuturesLoaded (P : Platform) (dblist : List Bytes) (g : Contents) (futures : List FutureEntry) : Prop where
  unique : Timetable.Unique FutureEntry.name futures
  entries : ∀ db key select (schedule : ℤ), (∃ e ∈ futures, e.name = (db, key, select) ∧ e.schedule = schedule) ↔
    Registered P dblist db ∧ ∃ (time : ℕ) (fvalue : Bytes),
      g db (futureRow key select db) = some (convtoString time ++ 58 :: fvalue) ∧ schedule = time

/-- The database that `Find` gives for the last name of the list is the only one with futures, and their times
fit in 31 bits. -/
def FuturesInLast (P : Platform) (dblist : List Bytes) (g : Contents) : Prop :=
  ∀ db, Registered P dblist db → ∀ key select (time : ℕ) (fvalue : Bytes),
    g db (futureRow key select db) = some (convtoString time ++ 58 :: fvalue) →
      dblist.getLast?.bind (findDatabase P dblist) = some db ∧ time < 2 ^ 31

section
variable {P : Platform} {dblist : List Bytes} {disk : Bytes → Rows} {keepExpires : Bool} {now : ℤ} {order : List Request}

/-- The table after startup: the FUTURE rows of the database that `Find` has for the last name. -/
theorem startup_futures (rows : ∀ db, Registered P dblist db → FutureRows (startup disk keepExpires now).get db)
    (pushed : order.Perm (initializeQueries P dblist)) :
    Timetable.Unique FutureEntry.name (order.foldl (Kernel.execute P) (startup disk keepExpires now)).futures ∧
      ∀ e, e ∈ (order.foldl (Kernel.execute P) (startup disk keepExpires now)).futures ↔
        dblist.getLast?.bind (findDatabase P dblist) = some e.database ∧ e.value = [] ∧
          ∃ (time : ℕ) (fvalue : Bytes), (startup disk keepExpires now).get e.database
            (futureRow e.key e.select e.database) = some (convtoString time ++ 58 :: fvalue) ∧
              e.schedule = if time < 2 ^ 31 then (time : ℤ) else 0 := by
  have writable : (startup disk keepExpires now).Writable := fun _ => rfl
  obtain ⟨lists, expires, queries⟩ := initializeFrom_pushed (Nat.zero_add dblist.length).symm
  have order_perm := pushed.trans queries
  cases last : dblist.getLast?.bind (findDatabase P dblist) with
  | none =>
    rw [last] at order_perm
    have only : ∀ r ∈ order, ∃ db, r = expireList db := fun r hr => expires r (by simpa using order_perm.mem_iff.mp hr)
    have spares := SparesFutures.executes P only writable
    rw [spares.futures]
    exact ⟨Timetable.Unique.nil, fun e => by simp [startup]⟩
  | some db =>
    rw [last] at order_perm
    obtain ⟨first, rest, rfl⟩ := List.append_of_mem (order_perm.mem_iff.mpr (by simp : listFutures db ∈ _))
    have others : (first ++ rest).Perm lists := by
      simpa using (List.perm_middle.symm.trans order_perm : (listFutures db :: (first ++ rest)).Perm _)
    have expire (r : Request) (hr : r ∈ first ++ rest) : ∃ db, r = expireList db := expires r (others.mem_iff.mp hr)
    have before := SparesFutures.executes P (fun r hr => expire r (List.mem_append_left _ hr)) writable
    rw [List.foldl_append, List.foldl_cons]
    generalize reached : first.foldl (Kernel.execute P) (startup disk keepExpires now) = k at before ⊢
    obtain ⟨name, -, found⟩ := Option.bind_eq_some_iff.mp last
    have held := (rows db (findDatabase_some found)).spared before
    have opened : k.Opened db := before.opened db rfl
    have loaded := held.loaded P opened before.keepFutures before.futures
    have after := SparesFutures.executes P (fun r hr => expire r (List.mem_append_right _ hr))
      (before.writable.listFutures P opened)
    rw [after.futures]
    refine ⟨(loaded.map FutureEntry.name).nodup_iff.mpr held.distinct, fun e => ?_⟩
    rw [loaded.mem_iff, held.mem_entries]
    constructor
    · rintro ⟨rfl, value, time, fvalue, text, number⟩
      exact ⟨rfl, value, time, fvalue, before.fewer _ _ _ text, number⟩
    · rintro ⟨same, value, time, fvalue, text, number⟩
      obtain rfl : db = e.database := Option.some.inj same
      obtain ⟨key, select, type, key_ne, -, -, -, row⟩ :=
        (rows e.database (findDatabase_some found)).formed _ (by rw [text]; rfl)
      obtain ⟨rfl, -, -⟩ := keyRow_inj.mp row
      exact ⟨rfl, value, time, fvalue, before.kept _ _ _ _ key_ne text, number⟩

/-- The futures survive a restart when they all stand in the last database, before 2^31. -/
theorem futures_reloaded (rows : ∀ db, Registered P dblist db → FutureRows (startup disk keepExpires now).get db)
    (pushed : order.Perm (initializeQueries P dblist)) :
    FuturesLoaded P dblist (startup disk keepExpires now).get
        (order.foldl (Kernel.execute P) (startup disk keepExpires now)).futures ↔
      FuturesInLast P dblist (startup disk keepExpires now).get := by
  obtain ⟨unique, entries⟩ := startup_futures (P := P) rows pushed
  generalize (order.foldl (Kernel.execute P) (startup disk keepExpires now)).futures = futures at unique entries ⊢
  have text_inj {time time' : ℕ} {fvalue fvalue' : Bytes}
      (same : convtoString time ++ 58 :: fvalue = convtoString time' ++ 58 :: fvalue') : time = time' :=
    convtoString_injective ((append_sep_inj (colon_not_mem_convtoString _) (colon_not_mem_convtoString _)).mp same).1
  constructor
  · intro loaded db registered key select time fvalue held
    obtain ⟨e, he, name, schedule⟩ := (loaded.entries db key select time).mpr ⟨registered, time, fvalue, held, rfl⟩
    obtain ⟨database, key', select', t, value⟩ := e
    cases name
    obtain ⟨last, -, time', fvalue', held', number⟩ := (entries _).mp he
    rw [held] at held'
    obtain rfl := text_inj (Option.some.inj held')
    refine ⟨last, ?_⟩
    dsimp only at number schedule
    split at number <;> omega
  · intro inLast
    refine ⟨unique, fun db key select schedule => ?_⟩
    constructor
    · rintro ⟨⟨database, key', select', t, value⟩, he, same, rfl⟩
      obtain ⟨rfl, rfl, rfl⟩ : database = db ∧ key' = key ∧ select' = select := by simpa [FutureEntry.name] using same
      obtain ⟨last, -, time, fvalue, held, number⟩ := (entries _).mp he
      obtain ⟨name, -, found⟩ := Option.bind_eq_some_iff.mp last
      have registered := (findDatabase_some found)
      refine ⟨registered, time, fvalue, held, number.trans (if_pos ?_)⟩
      exact (inLast database registered key' select' time fvalue held).2
    · rintro ⟨registered, time, fvalue, held, rfl⟩
      obtain ⟨last, small⟩ := inLast db registered key select time fvalue held
      exact ⟨⟨db, key, select, time, []⟩, (entries _).mpr ⟨last, rfl, time, fvalue, held, (if_pos small).symm⟩, rfl, rfl⟩

end

/-- The outcomes of FUTURE. -/
theorem Outcome.future {P : Platform} {k : Kernel} {r : Request} {us : List Update} (outcome : Outcome P k r us)
    (cls : r.cls = .future) : us = [] ∨ us = [.put r.database (futureRow r.key r.select r.database)
      (convtoString r.id ++ 58 :: r.value), .plan r.database (toSigned r.id) r.key r.select] := by
  cases outcome with
  | unchanged => exact .inl rfl
  | planned cls => exact .inr rfl
  | stored value writes =>
    obtain ⟨P, run, body⟩ := writes
    simp [cls, QueryClass.body] at body
  | removed registered how => simp [cls, QueryClass.mayDelete] at how
  | _ => simp_all

namespace Server

variable {P : Platform}

/-- Along every run that keeps the shape of the rows, FUTURE rows are as `WriteFuture` writes them. -/
theorem future_rows {s : Server} (h : (machine P).Reach KeepsShape s) (db : Bytes) : FutureRows s.kernel.get db := by
  refine ⟨row_shape h db, ?_⟩
  have texts := (invariant (I := fun k => ∀ key select value, k.get db (futureRow key select db) = some value →
    ∃ (time : ℕ) (fvalue : Bytes), time < 2 ^ 32 ∧ value = convtoString time ++ 58 :: fvalue) h ?_ ?_ ?_).2
  · exact texts
  · intro s hs key select value held
    simp [hs.empty] at held
  · exact fun k time hk => hk
  · intro s a r us writable hs guard source opened outcome key select value held
    rw [get_updates writable] at held
    have old (cls : r.cls ≠ .future) (newSelect : r.NewSelect) : ∃ (time : ℕ) (fvalue : Bytes),
        time < 2 ^ 32 ∧ value = convtoString time ++ 58 :: fvalue :=
      hs key select value (contents_kept (fun value => put_future newSelect outcome cls) held)
    obtain ⟨rfl, accepted⟩ | ⟨e, -, rfl, rfl⟩ := source
    · by_cases cls : r.cls = .future
      · obtain rfl | rfl := outcome.future cls
        · exact hs key select value held
        · by_cases own : db = r.database ∧ futureRow key select db = futureRow r.key r.select r.database
          · have text : convtoString r.id ++ 58 :: r.value = value := by
              simpa only [contents_cons, contents_nil, Update.contents, if_pos own, Option.some.injEq] using held
            exact ⟨r.id, r.value, accepted.id, text.symm⟩
          · exact hs key select value (by simpa [Update.contents, own] using held)
      · exact old cls accepted.newSelect
    · exact old (by simp [ExpireEntry.expireDelete]) (expireDelete_newSelect e)

/-- FUTURE of `k` in a database. -/
def register (db : Bytes) : Event :=
  .request { cls := .future, database := db, key := lit "k", select := 1, id := 10, value := lit "v" }

/-- The only database with a future stands last. -/
theorem futures_reloaded_last : ∃ s, (machine integers).Reach KeepsShape s ∧
    FuturesLoaded integers [lit "a", lit "b"] s.kernel.get ((initializeQueries integers [lit "a", lit "b"]).foldl
      (Kernel.execute integers) (startup s.kernel.rows true 0)).futures ∧
    ((initializeQueries integers [lit "a", lit "b"]).foldl (Kernel.execute integers) (startup s.kernel.rows true 0)).futures =
      [⟨lit "b", lit "k", 1, 10, []⟩] := by
  have h : ((machine integers).exec KeepsShape fresh [register (lit "b")]).any fun s =>
      ((initializeQueries integers [lit "a", lit "b"]).foldl (Kernel.execute integers) (startup s.kernel.rows true 0)).futures =
        [⟨lit "b", lit "k", 1, 10, []⟩] ∧ (s.kernel.rows (lit "a")).toList = [] ∧
      (s.kernel.rows (lit "b")).toList.map Prod.snd = [convtoString 10 ++ 58 :: lit "v"] := by decide
  obtain ⟨s, reached, found, none, one⟩ := Machine.exec_holds h (.initial fresh_initial)
  have rows (db : Bytes) (_ : Registered integers [lit "a", lit "b"] db) := future_rows reached db
  have loaded : FuturesLoaded integers [lit "a", lit "b"] s.kernel.get ((initializeQueries integers [lit "a", lit "b"]).foldl
      (Kernel.execute integers) (startup s.kernel.rows true 0)).futures ↔ _ := futures_reloaded rows (List.Perm.refl _)
  refine ⟨s, reached, loaded.mpr ?_, found⟩
  intro db registered key select time fvalue held
  have there : (futureRow key select db, convtoString time ++ 58 :: fvalue) ∈ (s.kernel.rows db).toList :=
    Std.ExtTreeMap.mem_toList_iff_getElem?_eq_some.mpr held
  have named : db ∈ [lit "a", lit "b"] := List.mem_of_find?_eq_some registered
  rcases List.mem_pair.mp named with rfl | rfl
  · rw [none] at there
    exact absurd there List.not_mem_nil
  · have value := List.mem_map_of_mem (f := Prod.snd) there
    rw [one, List.mem_singleton] at value
    obtain ⟨same, -⟩ := (append_sep_inj (colon_not_mem_convtoString _) (colon_not_mem_convtoString _)).mp value
    rw [convtoString_injective same]
    decide

/-- A future of a database that does not stand last is not loaded. -/
theorem futures_lost : ∃ s, (machine integers).Reachable s ∧
    ¬ FuturesLoaded integers [lit "a", lit "b"] s.kernel.get ((initializeQueries integers [lit "a", lit "b"]).foldl
      (Kernel.execute integers) (startup s.kernel.rows true 0)).futures := by
  have h : ((machine integers).exec (fun _ _ => True) fresh [register (lit "a")]).any fun s =>
      ((initializeQueries integers [lit "a", lit "b"]).foldl (Kernel.execute integers) (startup s.kernel.rows true 0)).futures = [] ∧
        s.kernel.get (lit "a") (futureRow (lit "k") 1 (lit "a")) = some (convtoString 10 ++ 58 :: lit "v") := by decide
  obtain ⟨s, reached, empty, held⟩ := Machine.exec_holds h (.initial fresh_initial)
  refine ⟨s, reached, fun loaded => ?_⟩
  obtain ⟨e, he, -⟩ := (loaded.entries (lit "a") (lit "k") 1 10).mpr ⟨rfl, 10, lit "v", held, rfl⟩
  rw [empty] at he
  simp at he

end Server

end BerylDB.Store
