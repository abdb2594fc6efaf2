import BerylDB.ExpiryTable

/-! # Loading the expiries again

`expire_list_query` on a list of rows is one `Add` after another, and gives back the table that the rows were
kept for. -/
namespace BerylDB.Store
open Text Transition Kernel

/-- The entries that `expire_list_query` finds in rows. -/
def expireEntries (db : Bytes) (rows : List (Bytes × Bytes)) : List ExpireEntry :=
  rows.filterMap fun row => (decodeExpire db row.1 row.2).map fun (key, select, time) => ⟨db, key, select, time⟩

theorem expireListRow_eq {k : Kernel} {q : QueryBase} (keep : k.keepExpires = true) (row : Bytes × Bytes) :
    Run.expireListRow q k row =
      match decodeExpire q.database row.1 row.2 with
      | some (key, select, time) => k.addExpire q.database time key select true
      | none => k := by
  unfold Run.expireListRow decodeExpire
  dsimp only
  cases Run.isExpireRow q.database (colonTokens row.1) with
  | true => simp [keep]
  | false => simp

theorem addExpire_new {k : Kernel} {db key : Bytes} {select : ℕ} {time : ℤ} (low : 0 ≤ time)
    (new : Timetable.lookup ExpireEntry.name (db, key, select) k.expires = none) :
    k.addExpire db time key select true =
      { k with expires := Timetable.add ExpireEntry.schedule ⟨db, key, select, time⟩ k.expires } := by
  have absent : ¬ k.expireTime db key select > 0 := by simp [Kernel.expireTime, new]
  unfold Kernel.addExpire
  rw [if_neg (not_lt.mpr low), if_neg absent]
  rfl

/-- Rows of different names are all added. -/
theorem foldl_expireListRow (q : QueryBase) (rows : List (Bytes × Bytes)) {k : Kernel} (keep : k.keepExpires = true)
    (low : ∀ e ∈ expireEntries q.database rows, 0 ≤ e.schedule)
    (distinct : ((expireEntries q.database rows ++ k.expires).map ExpireEntry.name).Nodup) :
    (rows.foldl (Run.expireListRow q) k).expires.Perm (expireEntries q.database rows ++ k.expires) := by
  refine Timetable.foldl_add_perm _ Kernel.expires (Run.expireListRow q) (·.keepExpires = true) ?_ ?_ keep distinct
  · intro k keep row _ none
    rw [expireListRow_eq keep, Option.map_eq_none_iff.mp none]
  · intro k keep row here e found new
    have late : 0 ≤ e.schedule := low e (List.mem_filterMap.mpr ⟨row, here, found⟩)
    obtain ⟨⟨key, select, time⟩, decoded, rfl⟩ := Option.map_eq_some_iff.mp found
    rw [expireListRow_eq keep, decoded]
    dsimp only
    rw [addExpire_new late new]
    exact ⟨keep, Timetable.add_perm⟩

/-! ## After a restart -/

/-- The memory after a restart with KeepExpires. -/
def Kernel.restart (k : Kernel) : Kernel := { k with expires := [], keepExpires := true }

/-- `ExpireHelper::List`. -/
def expireList (db : Bytes) : Request where
  cls := .expireList
  database := db
  key := []
  select := 0

section
variable {k : Kernel} {db : Bytes}

theorem execute_expireList (P : Platform) (opened : k.Opened db) : k.restart.execute P (expireList db) =
    (k.rows db).toList.foldl (Run.expireListRow (expireList db).plain) k.restart := by
  have opened' : (k.restart.databases db).closing = false := opened
  unfold Kernel.execute QueryBase.prepare
  rw [if_neg (by simp [expireList, opened'])]
  rfl

theorem mem_rows {row value : Bytes} : (row, value) ∈ (k.rows db).toList ↔ k.get db row = some value :=
  Std.ExtTreeMap.mem_toList_iff_getElem?_eq_some

theorem rows_distinct : (k.rows db).toList.Pairwise fun a b => a.1 ≠ b.1 :=
  Std.ExtTreeMap.distinct_keys_toList.imp fun different same => different (Std.compare_eq_iff_eq.mpr same)

theorem mem_expireEntries {rows : List (Bytes × Bytes)} {e : ExpireEntry} : e ∈ expireEntries db rows ↔
    e.database = db ∧ ∃ row ∈ rows, decodeExpire db row.1 row.2 = some (e.key, e.select, e.schedule) := by
  obtain ⟨database, key, select, time⟩ := e
  simp only [expireEntries, List.mem_filterMap, Option.map_eq_some_iff]
  constructor
  · rintro ⟨row, hrow, ⟨key', select', time'⟩, found, same⟩
    cases same
    exact ⟨rfl, row, hrow, found⟩
  · rintro ⟨rfl, row, hrow, found⟩
    exact ⟨row, hrow, _, found, rfl⟩

/-- An expiry row holds the deadline of an entry. -/
theorem Synced.decoded (h : Synced k.Opened k.get k.deadline) (timed : Timed k.expires) (opened : k.Opened db)
    {row value key : Bytes} {select : ℕ} {time : ℤ} (held : k.get db row = some value)
    (found : decodeExpire db row value = some (key, select, time)) :
    row = expireRow key select db ∧ k.deadline db key select = some time := by
  have expiry : Run.isExpireRow db (colonTokens row) = true := by
    by_contra no
    simp [decodeExpire, no] at found
  obtain ⟨key', select', key_ne, rfl⟩ := h.noStray db opened row (by rw [held]; rfl) expiry
  have mark := h.marks db opened key' select' key_ne
  rw [held] at mark
  obtain ⟨t, deadline, text⟩ := Option.map_eq_some_iff.mp mark.symm
  obtain ⟨-, bound, colon⟩ := h.legit db opened key' select' t deadline
  obtain ⟨low, high⟩ := deadline_range timed deadline
  rw [← text, decodeExpire_expireRow key_ne bound colon low high] at found
  cases found
  exact ⟨rfl, deadline⟩

theorem Synced.decode_iff (h : Synced k.Opened k.get k.deadline) (timed : Timed k.expires) (opened : k.Opened db)
    {key : Bytes} {select : ℕ} {time : ℤ} : ⟨db, key, select, time⟩ ∈ k.expires ↔
      ∃ row value, k.get db row = some value ∧ decodeExpire db row value = some (key, select, time) := by
  rw [mem_expires timed]
  constructor
  · intro deadline
    obtain ⟨key_ne, bound, colon⟩ := h.legit db opened key select time deadline
    obtain ⟨low, high⟩ := deadline_range timed deadline
    refine ⟨expireRow key select db, convtoString time.toNat, ?_, decodeExpire_expireRow key_ne bound colon low high⟩
    rw [h.marks db opened key select key_ne, deadline]
    rfl
  · rintro ⟨row, value, held, found⟩
    exact (h.decoded timed opened held found).2

/-- The rows of an open database give the entries of the database back. -/
theorem Synced.reload (P : Platform) (h : Synced k.Opened k.get k.deadline) (timed : Timed k.expires)
    (opened : k.Opened db) : (k.restart.execute P (expireList db)).expires.Perm
      (k.expires.filter fun e => e.database = db) := by
  have entries (e : ExpireEntry) : e ∈ expireEntries db (k.rows db).toList ↔ e.database = db ∧ e ∈ k.expires := by
    rw [mem_expireEntries]
    refine and_congr_right fun same => ?_
    obtain ⟨database, key, select, time⟩ := e
    obtain rfl : database = db := same
    rw [h.decode_iff timed opened]
    simp only [Prod.exists, mem_rows]
  have distinct : ((expireEntries db (k.rows db).toList).map ExpireEntry.name).Nodup := by
    unfold List.Nodup expireEntries
    rw [List.pairwise_map, List.pairwise_filterMap]
    refine rows_distinct.imp_of_mem fun {a b} ha hb different => ?_
    rintro e he e' he' same
    obtain ⟨⟨key, select, time⟩, found, rfl⟩ := Option.map_eq_some_iff.mp he
    obtain ⟨⟨key', select', time'⟩, found', rfl⟩ := Option.map_eq_some_iff.mp he'
    obtain ⟨-, rfl, rfl⟩ : db = db ∧ key = key' ∧ select = select' := by simpa [ExpireEntry.name] using same
    refine different ?_
    rw [(h.decoded timed opened (mem_rows.mp ha) found).1, (h.decoded timed opened (mem_rows.mp hb) found').1]
  rw [execute_expireList P opened]
  have loaded := foldl_expireListRow (expireList db).plain (k.rows db).toList (k := k.restart) rfl
    (fun e he => (timed.range e ((entries e).mp he).2).1) (by simpa [Kernel.restart, expireList] using distinct)
  refine loaded.trans ?_
  rw [show k.restart.expires = [] from rfl, List.append_nil]
  refine (List.perm_ext_iff_of_nodup distinct.of_map (timed.unique.of_map.filter _)).mpr fun e => ?_
  rw [List.mem_filter, decide_eq_true_eq]
  exact (entries e).trans and_comm

end

namespace Server

variable {P : Platform}

/-- The entries of a database are what its expiry rows say, and a restart gives them back. -/
structure ExpiryTable (P : Platform) (k : Kernel) (db : Bytes) : Prop where
  decoded : ∀ key select time, ⟨db, key, select, time⟩ ∈ k.expires ↔
    ∃ row value, k.get db row = some value ∧ decodeExpire db row value = some (key, select, time)
  reloaded : (k.restart.execute P (expireList db)).expires.Perm (k.expires.filter fun e => e.database = db)

def KeepsDeadlines (P : Platform) (s : Server) : Event → Prop
  | .request r => r.KeepsDeadlines P s.kernel
  | .tick _ | .expire _ => True

instance (s : Server) (a : Event) : Decidable (KeepsDeadlines P s a) :=
  match a with
  | .request _ | .tick _ | .expire _ => by unfold KeepsDeadlines; infer_instance

theorem synced {s : Server} (h : (machine P).Reach (KeepsDeadlines P) s) :
    Timed s.kernel.expires ∧ Synced s.kernel.Opened s.kernel.get s.kernel.deadline := by
  refine (invariant (I := fun k => Timed k.expires ∧ Synced k.Opened k.get k.deadline) h ?_ ?_ ?_).2
  · intro s hs
    have none : s.kernel.deadline = fun _ _ _ => none := by
      funext db key select
      simp [Kernel.deadline, deadlineOf, hs.expires, Timetable.lookup]
    refine ⟨⟨by simp [hs.expires, Timetable.Unique.nil], by simp [hs.expires]⟩, ?_, ?_, ?_⟩
    · intro db _ row here
      simp [hs.empty] at here
    · intro db _ key select _
      simp [hs.empty, none]
    · intro db _ key select t found
      simp [none] at found
  · exact fun k time hk => hk
  · rintro s a r us writable ⟨timed, hs⟩ guard source opened outcome
    have kept : Ready us s.kernel.deadline ∧ (r.cls ≠ .dbreset →
        Synced s.kernel.Opened (contents us s.kernel.get) (deadlines us s.kernel.deadline)) := by
      obtain ⟨rfl, accepted⟩ | ⟨e, -, rfl, rfl⟩ := source
      · have bound : r.select < 2 ^ 32 := lt_of_le_of_lt accepted.select.2 (by norm_num)
        exact ⟨Ready.outcome timed opened guard bound outcome, hs.outcome timed accepted opened guard outcome⟩
      · exact ⟨Ready.del rfl outcome _, fun _ => hs.del rfl outcome⟩
    obtain ⟨timed', table⟩ := deadline_updates timed us kept.1
    rw [get_updates writable, table]
    refine ⟨timed', ?_⟩
    have less (db : Bytes) (hdb : (s.kernel.updates us).Opened db) : s.kernel.Opened db :=
      ((opened_updates writable us db).mp hdb).1
    by_cases reset : r.cls = .dbreset
    · obtain rfl | rfl := outcome.dbreset reset
      · rw [updates_nil]
        exact hs
      · refine hs.close r.database fun db hdb => ⟨less db hdb, fun same => ?_⟩
        subst same
        exact ((opened_updates writable _ _).mp hdb).2 (by simp)
    · have rest := kept.2 reset
      exact ⟨fun db hdb => rest.noStray db (less db hdb), fun db hdb => rest.marks db (less db hdb),
        fun db hdb => rest.legit db (less db hdb)⟩

/-- On open databases, the entries and the expiry rows agree, and so do the entries after a restart. -/
theorem expiry_table {s : Server} (h : (machine P).Reach (KeepsDeadlines P) s) {db : Bytes} (opened : s.kernel.Opened db) :
    ExpiryTable P s.kernel db := by
  obtain ⟨timed, table⟩ := synced h
  exact ⟨fun _ _ _ => table.decode_iff timed opened, table.reload P timed opened⟩

/-- SETEX, and a copy of the key whose own deadline is then taken away. -/
theorem expiry_table_copied : ∃ s, (machine integers).Reach (KeepsDeadlines integers) s ∧
    s.kernel.expires = [⟨lit "db", lit "m", 1, 100⟩] ∧ ExpiryTable integers s.kernel (lit "db") := by
  have h : ((machine integers).exec (KeepsDeadlines integers) fresh [
      .request { cls := .setex, database := lit "db", key := lit "k", select := 1, value := lit "v", id := 100 },
      command .copy (lit "k") (lit "m"), command .expireDel (lit "k") []]).any fun s =>
        s.kernel.expires = [⟨lit "db", lit "m", 1, 100⟩] ∧ (s.kernel.databases (lit "db")).closing = false := by decide
  obtain ⟨s, reached, entries, opened⟩ := Machine.exec_holds h (.initial fresh_initial)
  exact ⟨s, reached, entries, expiry_table reached opened⟩

/-- RENAME of an expiring key leaves its expiry row behind. -/
theorem rename_leaves_expiry_row : ∃ s, (machine integers).Reachable s ∧
    ∃ db, s.kernel.Opened db ∧ ¬ ExpiryTable integers s.kernel db := by
  have h : ((machine integers).exec (fun _ _ => True) fresh [
      .request { cls := .setex, database := lit "db", key := lit "k", select := 1, value := lit "v", id := 100 },
      command .rename (lit "k") (lit "m")]).any fun s =>
        (s.kernel.databases (lit "db")).closing = false ∧ ⟨lit "db", lit "k", 1, 100⟩ ∉ s.kernel.expires ∧
          s.kernel.get (lit "db") (expireRow (lit "k") 1 (lit "db")) = some (lit "100") := by decide
  obtain ⟨s, reached, opened, missing, row⟩ := Machine.exec_holds h (.initial fresh_initial)
  refine ⟨s, reached, lit "db", opened, fun table => missing ?_⟩
  exact (table.decoded _ _ _).mpr ⟨_, _, row, by decide⟩

end Server
end BerylDB.Store
