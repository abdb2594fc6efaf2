import BerylDB.DueDeletes
import BerylDB.Transfers
import Mathlib.Data.List.Find

/-! # Entries that are due

The delete query of the timer, PERSIST, RESET and SRESET are to take an entry out of the table. -/
namespace BerylDB.Store
open Text QueryBase Kernel Transition

/-- `ExpireHelper::Persist`. -/
def ExpireEntry.persist (e : ExpireEntry) : Request where
  cls := .expireDel
  database := e.database
  key := e.key
  select := e.select
  flags := .quiet

/-- `CommandPersist::Handle`, with `ExpireHelper::QuickPersist`. -/
def Kernel.persistKey (P : Platform) (k : Kernel) (db key : Bytes) (select : ℕ) : Kernel :=
  if k.expireTime db key select ≠ -1 then k.execute P { cls := .expireDel, database := db, key, select } else k

/-- The queries of `ExpireHelper::Persist` for the entries, one after the other. -/
def Kernel.persistAll (P : Platform) (k : Kernel) (entries : List ExpireEntry) : Kernel :=
  entries.foldl (fun k e => k.execute P e.persist) k

/-- `ExpireManager::Reset`. -/
def Kernel.reset (P : Platform) (k : Kernel) : Kernel := k.persistAll P k.expires

/-- `ExpireManager::SelectReset`. -/
def Kernel.selectReset (P : Platform) (k : Kernel) (db : Bytes) (select : ℕ) : Kernel :=
  k.persistAll P (k.expires.filter fun e => e.select = select ∧ e.database = db)

/-- The entry and its expiry row are gone. -/
structure Kernel.Consumed (k : Kernel) (e : ExpireEntry) : Prop where
  entry : e ∉ k.expires
  row : k.get e.database (expireRow e.key e.select e.database) = none

/-- The entry is the first one of its name, and none behind it is equal. -/
def Kernel.Foremost (k : Kernel) (e : ExpireEntry) : Prop :=
  ∃ rest, Timetable.named ExpireEntry.name e.name k.expires = e :: rest ∧ e ∉ rest

/-- The name is registered as a KEY, on an open database. -/
def Kernel.Persistable (k : Kernel) (m : Name) : Prop := k.Opened m.1 ∧ registered k m.1 m.2.1 m.2.2 = some intKey

instance (k : Kernel) (m : Name) : Decidable (k.Persistable m) := by
  unfold Kernel.Persistable Kernel.Opened
  infer_instance

section
variable {P : Platform} {k : Kernel} {r : Request} {e : ExpireEntry}

theorem mem_expires_iff : e ∈ k.expires ↔ e ∈ Timetable.named ExpireEntry.name e.name k.expires := by
  simp [Timetable.mem_named]

theorem mem_deleteExpire : e ∈ (k.deleteExpire e.database e.key e.select).expires ↔
    e ∈ (Timetable.named ExpireEntry.name e.name k.expires).tail := by
  have rest : Timetable.named ExpireEntry.name e.name (k.deleteExpire e.database e.key e.select).expires =
      (Timetable.named ExpireEntry.name e.name k.expires).tail := Timetable.named_delete.trans (if_pos rfl)
  rw [mem_expires_iff, rest]

theorem foremost_iff (here : e ∈ k.expires) :
    e ∉ (k.deleteExpire e.database e.key e.select).expires ↔ k.Foremost e := by
  rw [mem_expires_iff] at here
  rw [mem_deleteExpire, Foremost]
  cases held : Timetable.named ExpireEntry.name e.name k.expires with
  | nil => simp [held] at here
  | cons first others =>
    rw [held] at here
    constructor
    · intro gone
      rcases List.mem_cons.mp here with rfl | later
      · exact ⟨others, rfl, gone⟩
      · exact absurd later gone
    · rintro ⟨rest, same, gone⟩
      obtain ⟨-, rfl⟩ := List.cons.inj same
      exact gone

/-! ## One query -/

/-- `expire_del_query` asks for a key that is registered as a KEY. -/
theorem execute_expireDel (cls : r.cls = .expireDel) : k.execute P r =
    if k.Persistable r.name then
      (k.deleteExpire r.database r.key r.select).erase r.database (expireRow r.key r.select r.database)
    else k := by
  unfold Kernel.execute
  by_cases opened : k.Opened r.database
  · cases registered : r.registered k with
    | none =>
      have kept : ¬ k.Persistable r.name := fun h => nomatch h.2.symm.trans registered
      rw [if_neg kept, cls, (prepare_missing opened registered (c := .expireDel) (by decide)).1]
    | some type =>
      rw [cls, prepare_loaded opened registered (by decide) rfl]
      by_cases own : type = intKey
      · have goes : k.Persistable r.name := ⟨opened, registered.trans (congrArg some own)⟩
        rw [if_pos own, if_pos goes]
        rfl
      · have kept : ¬ k.Persistable r.name := fun h => own (Option.some.inj (registered.symm.trans h.2))
        rw [if_neg own, if_neg kept]
  · rw [prepare_closing opened, if_neg fun h : k.Persistable r.name => opened h.1]

theorem named_expireDel (cls : r.cls = .expireDel) (m : Name) :
    Timetable.named ExpireEntry.name m (k.execute P r).expires =
      if m = r.name ∧ k.Persistable m then (Timetable.named ExpireEntry.name m k.expires).tail
      else Timetable.named ExpireEntry.name m k.expires := by
  rw [execute_expireDel cls]
  by_cases own : m = r.name
  · subst own
    by_cases goes : k.Persistable r.name
    · rw [if_pos goes, if_pos ⟨rfl, goes⟩, Kernel.erase, expires_write, deleteExpire]
      exact Timetable.named_delete.trans (if_pos rfl)
    · rw [if_neg goes, if_neg fun h => goes h.2]
  · rw [if_neg fun h : m = r.name ∧ _ => own h.1]
    split
    · rw [Kernel.erase, expires_write, deleteExpire]
      exact Timetable.named_delete.trans (if_neg own)
    · rfl

theorem execute_del {type : Bytes} (cls : r.cls = .del) (opened : k.Opened r.database)
    (registered : r.registered k = some type) : k.execute P r = (Run.del k (r.found type none)).1 := by
  unfold Kernel.execute
  rw [cls, prepare_any opened registered (by decide)]
  rfl

theorem execute_del_expiring (cls : r.cls = .del) (opened : k.Opened r.database)
    (registered : r.registered k = some intKey)
    (positive : 0 < r.ttl k) : k.execute P r =
      if k.Takes r.database then
        (k.write r.database fun rows =>
          (rows.erase (r.row intKey)).erase (expireRow r.key r.select r.database)).1.deleteExpire r.database r.key r.select
      else k := by
  have ttl : (r.found intKey none).isExpiring k = r.ttl k := if_pos positive
  rw [execute_del cls opened registered, Run.del]
  simp only [ttl, Request.found_identified, positive, and_self, if_true]
  by_cases takes : k.Takes r.database
  · have taken : (k.databases r.database).writable = true := takes
    simp only [Kernel.write, Request.found_database, taken, takes, if_true]
    rfl
  · have refused : ¬ (k.databases r.database).writable = true := takes
    simp [Kernel.write, refused, takes]

theorem execute_del_lasting {type : Bytes} (cls : r.cls = .del) (opened : k.Opened r.database)
    (registered : r.registered k = some type) (lasting : ¬ (type = intKey ∧ 0 < r.ttl k)) :
    k.execute P r = k.erase r.database (r.row type) := by
  rw [execute_del cls opened registered]
  simp only [Run.del, Request.found_identified, if_neg (not_expiring lasting)]
  rfl

/-- The delete query of the timer. -/
theorem consumed_del (opened : k.Opened e.database) (here : e ∈ k.expires) :
    (k.execute P e.expireDelete).Consumed e ↔
      registered k e.database e.key e.select = some intKey ∧ 0 < k.expireTime e.database e.key e.select ∧
        k.Takes e.database ∧ k.Foremost e := by
  rw [← foremost_iff here]
  change _ ↔ e.expireDelete.registered k = some intKey ∧ 0 < e.expireDelete.ttl k ∧ _
  cases found : e.expireDelete.registered k with
  | none =>
    have same : k.execute P e.expireDelete = k := (prepare_missing opened found (c := .del) (by decide)).1
    rw [same]
    exact iff_of_false (fun gone => gone.entry here) (by simp)
  | some type =>
    by_cases expiring : type = intKey ∧ 0 < e.expireDelete.ttl k
    · obtain ⟨rfl, positive⟩ := expiring
      rw [execute_del_expiring rfl opened found positive]
      by_cases takes : k.Takes e.expireDelete.database
      · rw [if_pos takes]
        constructor
        · refine fun gone => ⟨rfl, positive, takes, ?_⟩
          have table := gone.entry
          rwa [deleteExpire, expires_write] at table
        · rintro ⟨-, -, -, gone⟩
          refine ⟨by rwa [deleteExpire, expires_write], ?_⟩
          change (k.write e.database _).1.get _ _ = none
          rw [get_write_takes, if_pos ⟨rfl, takes⟩]
          exact Std.ExtTreeMap.getElem?_erase_self
      · rw [if_neg takes]
        exact iff_of_false (fun gone => gone.entry here) fun h => takes h.2.2.1
    · rw [execute_del_lasting rfl opened found expiring]
      refine iff_of_false (fun gone => gone.entry ?_) ?_
      · exact (expires_write _ _).symm ▸ here
      · exact fun h => expiring ⟨Option.some.inj h.1, h.2.1⟩

/-! ## The queries of a reset -/

/-- A query of PERSIST or of a reset changes no row that the registry asks for. -/
theorem registered_expireDel (cls : r.cls = .expireDel) : registered (k.execute P r) = registered k := by
  funext db key select
  refine List.find?_congr fun type known => ?_
  rw [execute_expireDel cls]
  split
  · rw [get_erase_takes, if_neg fun h => expireRow_ne_keyRow known h.2.1.symm]
    rfl
  · rfl

theorem opened_erase (db row db' : Bytes) : (k.erase db row).Opened db' ↔ k.Opened db' := by
  unfold Kernel.Opened Kernel.erase Kernel.write
  dsimp only
  split
  · by_cases same : db' = db <;> simp [same]
  · rfl

theorem opened_expireDel (cls : r.cls = .expireDel) (db : Bytes) : (k.execute P r).Opened db ↔ k.Opened db := by
  rw [execute_expireDel cls]
  split
  · exact opened_erase _ _ _
  · rfl

theorem persistable_expireDel (cls : r.cls = .expireDel) (m : Name) :
    (k.execute P r).Persistable m ↔ k.Persistable m := by
  unfold Kernel.Persistable
  rw [opened_expireDel cls, registered_expireDel cls]

/-- Each query takes the first entry of its name. -/
theorem named_persistAll {m : Name} (goes : k.Persistable m) (entries : List ExpireEntry) :
    Timetable.named ExpireEntry.name m (k.persistAll P entries).expires =
      (Timetable.named ExpireEntry.name m k.expires).drop ((entries.countP fun e => e.name = m)) := by
  induction entries generalizing k with
  | nil => rfl
  | cons e entries ih =>
    have step := named_expireDel (P := P) (k := k) (r := e.persist) rfl m
    rw [persistAll, List.foldl_cons, ← persistAll, ih ((persistable_expireDel rfl m).mpr goes), step, List.countP_cons]
    by_cases own : e.name = m
    · rw [if_pos ⟨own.symm, goes⟩, if_pos (by simpa using own), List.drop_tail]
    · rw [if_neg fun h => own h.1.symm, if_neg (by simpa using own), Nat.add_zero]

theorem named_persistAll_kept {m : Name} (stays : ¬ k.Persistable m) (entries : List ExpireEntry) :
    Timetable.named ExpireEntry.name m (k.persistAll P entries).expires =
      Timetable.named ExpireEntry.name m k.expires := by
  induction entries generalizing k with
  | nil => rfl
  | cons e entries ih =>
    have step := named_expireDel (P := P) (k := k) (r := e.persist) rfl m
    rw [persistAll, List.foldl_cons, ← persistAll, ih (mt (persistable_expireDel rfl m).mp stays), step,
      if_neg fun h => stays h.2]

/-- A reset of chosen entries takes all entries of a name, or none. -/
theorem named_chosen {m : Name} (chosen : ExpireEntry → Bool) (all : ∀ e ∈ k.expires, e.name = m → chosen e = true) :
    Timetable.named ExpireEntry.name m (k.persistAll P (k.expires.filter chosen)).expires =
      if k.Persistable m then [] else Timetable.named ExpireEntry.name m k.expires := by
  have whole : (Timetable.named ExpireEntry.name m k.expires).filter chosen =
    Timetable.named ExpireEntry.name m k.expires :=
    List.filter_eq_self.mpr fun e he => all e (Timetable.mem_named.mp he).1 (Timetable.mem_named.mp he).2
  split
  · rename_i goes
    rw [named_persistAll goes, Timetable.countP_named, whole, List.drop_length]
  · rename_i stays
    exact named_persistAll_kept stays _

theorem chosen_gone (chosen : ExpireEntry → Bool) (here : e ∈ k.expires)
    (all : ∀ x ∈ k.expires, x.name = e.name → chosen x = true) :
    e ∉ (k.persistAll P (k.expires.filter chosen)).expires ↔ k.Persistable e.name := by
  rw [mem_expires_iff, named_chosen chosen all]
  split
  · exact iff_of_true List.not_mem_nil ‹_›
  · exact iff_of_false (fun gone => gone (mem_expires_iff.mp here)) ‹_›

theorem gone_persistKey (here : e ∈ k.expires) : e ∉ (k.persistKey P e.database e.key e.select).expires ↔
    k.Persistable e.name ∧ k.expireTime e.database e.key e.select ≠ -1 ∧ k.Foremost e := by
  have step (r : Request) (cls : r.cls = .expireDel) (own : r.name = e.name) :
      Timetable.named ExpireEntry.name e.name (k.execute P r).expires = _ := named_expireDel cls e.name
  rw [← foremost_iff here]
  unfold Kernel.persistKey
  by_cases timed : k.expireTime e.database e.key e.select ≠ -1
  · rw [if_pos timed, mem_expires_iff, step _ rfl rfl]
    by_cases goes : k.Persistable e.name
    · rw [if_pos ⟨rfl, goes⟩]
      rw [mem_deleteExpire]
      exact ⟨fun gone => ⟨goes, timed, gone⟩, fun h => h.2.2⟩
    · rw [if_neg fun h => goes h.2]
      exact iff_of_false (fun gone => gone (mem_expires_iff.mp here)) fun h => goes h.1
  · rw [if_neg timed]
    exact iff_of_false (fun gone => gone here) fun h => timed h.2.1

end

/-- The delete query of the timer, PERSIST, RESET and SRESET take an entry out under these conditions. -/
theorem consumed_iff {P : Platform} {k : Kernel} {e : ExpireEntry} (opened : k.Opened e.database)
    (here : e ∈ k.expires) :
    ((k.execute P e.expireDelete).Consumed e ↔
      registered k e.database e.key e.select = some intKey ∧ 0 < k.expireTime e.database e.key e.select ∧
        k.Takes e.database ∧ k.Foremost e) ∧
    (e ∉ (k.persistKey P e.database e.key e.select).expires ↔
      registered k e.database e.key e.select = some intKey ∧
        k.expireTime e.database e.key e.select ≠ -1 ∧ k.Foremost e) ∧
    (e ∉ (k.reset P).expires ↔ registered k e.database e.key e.select = some intKey) ∧
    (e ∉ (k.selectReset P e.database e.select).expires ↔ registered k e.database e.key e.select = some intKey) := by
  have goes : k.Persistable e.name ↔ registered k e.database e.key e.select = some intKey := and_iff_right opened
  refine ⟨consumed_del opened here, ?_, ?_, ?_⟩
  · rw [gone_persistKey here, goes]
  · have all := chosen_gone (P := P) (fun _ => true) here fun _ _ _ => rfl
    rwa [List.filter_true, goes] at all
  · rw [← goes]
    refine chosen_gone _ here fun x _ own => ?_
    simp only [ExpireEntry.name, Prod.mk.injEq] at own
    simp [own]

/-- The key `k` of the database `db`, with a deadline at 5. -/
def fiveEntry : ExpireEntry := ⟨lit "db", lit "k", 1, 5⟩

theorem consumed_setex : ∃ s, (Server.machine Server.integers).Reachable s ∧ fiveEntry ∈ s.expired ∧
    (s.kernel.execute Server.integers fiveEntry.expireDelete).Consumed fiveEntry ∧
    fiveEntry ∉ (s.kernel.persistKey Server.integers (lit "db") (lit "k") 1).expires ∧
    fiveEntry ∉ (s.kernel.reset Server.integers).expires ∧
    fiveEntry ∉ (s.kernel.selectReset Server.integers (lit "db") 1).expires := by
  have h : ((Server.machine Server.integers).exec (fun _ _ => True) Server.fresh
      [.request { inDb .setex (lit "k") (lit "v") with id := 5 }, .tick 6]).any fun s =>
        fiveEntry ∈ s.expired ∧ s.kernel.expires = [fiveEntry] ∧ (s.kernel.databases (lit "db")).closing = false ∧
        registered s.kernel (lit "db") (lit "k") 1 = some intKey ∧ s.kernel.Takes (lit "db") := by decide
  obtain ⟨s, reached, pushed, entries, opened, key, takes⟩ := Machine.exec_holds h (.initial Server.fresh_initial)
  have here : fiveEntry ∈ s.kernel.expires := by rw [entries]; exact List.mem_singleton_self _
  have time : s.kernel.expireTime (lit "db") (lit "k") 1 = 5 := by
    rw [Kernel.expireTime, entries]
    decide
  have foremost : s.kernel.Foremost fiveEntry := by
    refine ⟨[], ?_, List.not_mem_nil⟩
    rw [entries]
    decide
  obtain ⟨del, persist, reset, sreset⟩ := consumed_iff (P := Server.integers) (e := fiveEntry) opened here
  refine ⟨s, reached, pushed, del.mpr ⟨key, ?_, takes, foremost⟩,
    persist.mpr ⟨key, ?_, foremost⟩, reset.mpr key, sreset.mpr key⟩
  · exact time.symm ▸ by decide
  · exact time.symm ▸ by decide

/-- GETDEL leaves the entry, which no later delete takes away, and every tick pushes it again. -/
theorem getdel_entry_stays : ∃ s, (Server.machine Server.integers).Reachable s ∧ fiveEntry ∈ s.expired ∧
    s.kernel.Opened (lit "db") ∧ fiveEntry ∈ (s.kernel.execute Server.integers fiveEntry.expireDelete).dueExpires s.kernel.now ∧
    ¬ (s.kernel.execute Server.integers fiveEntry.expireDelete).Consumed fiveEntry ∧
    fiveEntry ∈ (s.kernel.persistKey Server.integers (lit "db") (lit "k") 1).expires ∧
    fiveEntry ∈ (s.kernel.reset Server.integers).expires ∧
    fiveEntry ∈ (s.kernel.selectReset Server.integers (lit "db") 1).expires := by
  have h : ((Server.machine Server.integers).exec (fun _ _ => True) Server.fresh
      [.request { inDb .setex (lit "k") (lit "v") with id := 5 },
        .request (inDb .getdel (lit "k") []), .tick 6]).any fun s =>
        fiveEntry ∈ s.expired ∧ (s.kernel.databases (lit "db")).closing = false ∧
        fiveEntry ∈ (s.kernel.execute Server.integers fiveEntry.expireDelete).dueExpires s.kernel.now ∧
        fiveEntry ∈ (s.kernel.execute Server.integers fiveEntry.expireDelete).expires ∧
        fiveEntry ∈ (s.kernel.persistKey Server.integers (lit "db") (lit "k") 1).expires ∧
        fiveEntry ∈ (s.kernel.reset Server.integers).expires ∧
        fiveEntry ∈ (s.kernel.selectReset Server.integers (lit "db") 1).expires := by decide
  obtain ⟨s, reached, pushed, opened, due, stays, others⟩ := Machine.exec_holds h (.initial Server.fresh_initial)
  exact ⟨s, reached, pushed, opened, due, fun gone => gone.entry stays,
    others⟩

end BerylDB.Store
