import BerylDB.Relocation

/-! # RENAME

The whole entry of a name: its row under the registered type, its deadline in memory and its expiry row. -/
namespace BerylDB.Store
open Text QueryBase Kernel Transition

/-- A row of data of the key, under any registered type, or its expiry row. -/
def OwnRow (db key : Bytes) (select : ℕ) (row : Bytes) : Prop :=
  (∃ type ∈ typeRegs, row = keyRow key select type) ∨ row = expireRow key select db

/-- The new name holds the whole entry of the old one, which has nothing left; equal names change nothing. -/
structure Renamed (k k' : Kernel) (r : Request) (type : Bytes) : Prop where
  registered : registered k' r.database r.value r.select = some type
  value : k'.get r.database (keyRow r.value r.select type) = k.get r.database (r.row type)
  expiry : k'.ExpiresAt r.database r.value r.select (k.deadline r.database r.key r.select)
  gone : r.value ≠ r.key → QueryBase.registered k' r.database r.key r.select = none ∧
    k'.get r.database (expireRow r.key r.select r.database) = none
  same : r.value = r.key → k'.get = k.get ∧ k'.expires = k.expires
  others : ∀ db row, (db = r.database → ¬ OwnRow r.database r.key r.select row ∧
    ¬ OwnRow r.database r.value r.select row) → k'.get db row = k.get db row

/-- The state in which RENAME moves the whole entry: the names differ, the old one has its one row and no expiry row,
and the new name ends with the old one's deadline. -/
structure Request.RenamesWhole (r : Request) (k : Kernel) (type : Bytes) : Prop where
  differ : r.value ≠ r.key
  only : k.OnlyType r.database r.key r.select type
  noRow : k.get r.database (expireRow r.key r.select r.database) = none
  expiring : r.Expiring k → ∀ d ∈ k.leftover r.database r.value r.select, r.ttl k ≤ d
  lasting : ¬ r.Expiring k → k.ExpiresAt r.database r.value r.select (k.deadline r.database r.key r.select)

section
variable {k k' : Kernel} {r : Request} {type value : Bytes} {mark : Option Bytes}

/-- The rows that RENAME leaves: the registered row is put under the new name, then deleted. -/
abbrev RenamedRows (k k' : Kernel) (r : Request) (type value : Bytes) (mark : Option Bytes) : Prop :=
  PlacedRows k k' r.database (some (r.row type)) (keyRow r.value r.select type) (expireRow r.value r.select r.database)
    value mark

/-- Rows under the other types stay. -/
theorem RenamedRows.get_type (rows : RenamedRows k k' r type value mark) {t : Bytes} (known : t ∈ typeRegs)
    (other : t ≠ type) (key : Bytes) :
    k'.get r.database (keyRow key r.select t) = k.get r.database (keyRow key r.select t) := by
  refine rows.get_other (fun h => other ?_) (fun h => other (keyRow_inj.mp h).2.2)
    (fun h => expireRow_ne_keyRow known h.symm) _
  exact (keyRow_inj.mp (Option.mem_some_iff.mp h)).2.2.symm

theorem RenamedRows.marked (rows : RenamedRows k k' r type value mark) (known : type ∈ typeRegs) :
    k'.get r.database (expireRow r.value r.select r.database) = mark :=
  rows.get_mark (fun h => expireRow_ne_keyRow known (Option.mem_some_iff.mp h).symm) (expireRow_ne_keyRow known)

theorem RenamedRows.renamed_iff (rows : RenamedRows k k' r type value mark) (known : type ∈ typeRegs)
    (held : k.get r.database (r.row type) = some value)
    (free : registered k r.database r.value r.select = none ∨ registered k r.database r.value r.select = some type) :
    Renamed k k' r type ↔ r.value ≠ r.key ∧ k.OnlyType r.database r.key r.select type ∧
      k.get r.database (expireRow r.key r.select r.database) = none ∧
      k'.ExpiresAt r.database r.value r.select (k.deadline r.database r.key r.select) := by
  have lost : k'.get r.database (r.row type) = none := rows.get_gone rfl
  have oldRow (differ : r.value ≠ r.key) : k'.get r.database (expireRow r.key r.select r.database) =
      k.get r.database (expireRow r.key r.select r.database) :=
    rows.get_other (fun h => expireRow_ne_keyRow known (Option.mem_some_iff.mp h).symm) (expireRow_ne_keyRow known)
      (fun h => differ (expireRow_inj.mp h).1.symm) _
  have others : k'.OnlyType r.database r.key r.select type ↔ k.OnlyType r.database r.key r.select type := by
    refine forall₂_congr fun t ht => forall_congr' fun other => ?_
    rw [rows.get_type ht other]
  constructor
  · intro h
    have differ : r.value ≠ r.key := by
      intro same
      have moved := h.value
      rw [same] at moved
      exact absurd (lost.symm.trans (moved.trans held)) (by simp)
    obtain ⟨none, row⟩ := h.gone differ
    exact ⟨differ, others.mp ((registered_none_iff known).mp none).2, oldRow differ ▸ row, h.expiry⟩
  · rintro ⟨differ, only, row, expiry⟩
    have moved : k'.get r.database (keyRow r.value r.select type) = some value :=
      rows.get_new fun h => differ (keyRow_inj.mp (Option.mem_some_iff.mp h)).1.symm
    refine ⟨?_, moved.trans held.symm, expiry, fun _ => ⟨?_, (oldRow differ).trans row⟩,
      fun same => absurd same differ, ?_⟩
    · refine registered_iff.mpr ⟨known, by rw [moved]; rfl, fun t before => ?_⟩
      obtain ⟨ht, other⟩ := ne_of_mem_takeWhile before
      rw [rows.get_type ht other]
      rcases free with absent | same
      · exact registered_none.mp absent t ht
      · exact (registered_iff.mp same).2.2 t before
    · exact (registered_none_iff known).mpr ⟨lost, others.mpr only⟩
    · intro db row outside
      rw [rows, if_neg, if_neg, if_neg]
      · rintro ⟨here, rfl⟩
        exact (outside here).2 (.inr rfl)
      · rintro ⟨here, rfl⟩
        exact (outside here).2 (.inl ⟨type, known, rfl⟩)
      · rintro ⟨here, old⟩
        exact (outside here).1 (.inl ⟨type, known, (Option.mem_some_iff.mp old).symm⟩)

theorem lasting_expiresAt (writable : k.Writable) (known : type ∈ typeRegs) {deadline : Option ℤ} :
    (k.updates [.put r.database (keyRow r.value r.select type) value, .erase r.database (r.row type)]).ExpiresAt
      r.database r.value r.select deadline ↔ k.ExpiresAt r.database r.value r.select deadline := by
  have table : (k.updates [.put r.database (keyRow r.value r.select type) value,
    .erase r.database (r.row type)]).deadline =
      k.deadline := deadline_congr (by simp)
  have rows : RenamedRows k (k.updates [.put r.database (keyRow r.value r.select type) value,
    .erase r.database (r.row type)]) r type value _ := swap_rows writable _
  have row := RenamedRows.marked rows known
  constructor
  · exact fun h => ⟨table ▸ h.table, row ▸ h.row⟩
  · exact fun h => ⟨table.symm ▸ h.table, row.trans h.row⟩

/-- The updates of RENAME for an expiring key. -/
def expiringRename (k : Kernel) (r : Request) (value : Bytes) : List Update :=
  [.put r.database (keyRow r.value r.select intKey) value, .erase r.database (r.row intKey),
    .put r.database (expireRow r.value r.select r.database) (convtoString (r.ttl k).toNat),
    .cancel r.database r.key r.select, .schedule r.database (toSigned (r.ttl k).toNat) r.value r.select]

theorem expiring_rows (writable : k.Writable) : RenamedRows k (k.updates (expiringRename k r value)) r intKey value
    (some (convtoString (r.ttl k).toNat)) :=
  swapExpire_rows writable (expireRow_ne_keyRow (by decide)) (expireRow_ne_keyRow (by decide)) rfl

theorem expiring_expiresAt (writable : k.Writable) (order : InOrder k.expires) (differ : r.value ≠ r.key)
    (positive : 0 < r.ttl k) :
    (k.updates (expiringRename k r value)).ExpiresAt r.database r.value r.select (k.deadline r.database r.key r.select) ↔
      ∀ d ∈ k.leftover r.database r.value r.select, r.ttl k ≤ d := by
  have other : (r.database, r.value, r.select) ≠ (r.database, r.key, r.select) := by simpa using differ
  have rows : RenamedRows k (k.updates (expiringRename k r value)) r intKey value _ := expiring_rows writable
  have row := RenamedRows.marked rows (by decide)
  have table : (k.updates (expiringRename k r value)).deadline r.database r.value r.select = some (r.ttl k) ↔
      ∀ d ∈ k.leftover r.database r.value r.select, r.ttl k ≤ d := by
    simp only [expiringRename, updates_cons, updates_nil, update_schedule, update_cancel, toSigned_ttl positive]
    rw [InOrder.deadline_schedule, leftover_delete_other other, leftover_congr]
    · simp
    · exact InOrder.delete (by simpa using order) _ _ _
    · omega
  rw [order.deadline_of_positive positive]
  constructor
  · exact fun h => table.mp h.table
  · exact fun h => ⟨table.mpr h, row⟩

end

section
variable {P : Platform} {s : Server} {r : Request} {type : Bytes}

/-- After a RENAME that replied OK the new name holds the whole entry and nothing is left of the old one, if and only
if the state was `RenamesWhole`. -/
theorem rename_whole_iff (reach : (Server.machine P).Reachable s) (cls : r.cls = .rename)
    (registered : r.registered s.kernel = some type)
    (free : QueryBase.registered s.kernel r.database r.value r.select = none ∨
      QueryBase.registered s.kernel r.database r.value r.select = some type)
    (ok : (s.kernel.reply P r).finished = true) :
    Renamed s.kernel (s.kernel.execute P r) r type ↔ r.RenamesWhole s.kernel type := by
  obtain ⟨writable, order⟩ := reachable_inOrder reach
  obtain ⟨known, value, held⟩ := registered_some registered
  have entered := prepare_of_finished (by simp [cls]) (by simp [cls]) registered ok
  have ran : s.kernel.execute P r =
      (Run.renameBody s.kernel (r.found type (s.kernel.get r.database (r.row type)))).1 := by
    rw [Kernel.execute, entered, QueryBase.run, cls]
    rfl
  rw [ran]
  by_cases expiring : type = intKey ∧ 0 < r.ttl s.kernel
  · obtain ⟨own, positive⟩ := expiring
    rw [renameBody_expiring writable held (.inr rfl) own positive, ← expiringRename]
    subst own
    rw [RenamedRows.renamed_iff (expiring_rows writable) known held free]
    constructor
    · rintro ⟨differ, only, row, expiry⟩
      exact ⟨differ, only, row, fun _ => (expiring_expiresAt writable order differ positive).mp expiry,
        fun lasting => absurd ⟨registered, positive⟩ lasting⟩
    · rintro ⟨differ, only, row, late, -⟩
      exact ⟨differ, only, row, (expiring_expiresAt writable order differ positive).mpr (late ⟨registered, positive⟩)⟩
  · have lasting := lasting_of_not registered expiring
    rw [renameBody_lasting writable held (.inr rfl) expiring,
      RenamedRows.renamed_iff (swap_rows writable _) known held free,
      lasting_expiresAt writable known]
    constructor
    · rintro ⟨differ, only, row, expiry⟩
      exact ⟨differ, only, row, fun yes => absurd yes lasting, fun _ => expiry⟩
    · rintro ⟨differ, only, row, -, expiry⟩
      exact ⟨differ, only, row, expiry lasting⟩

end

theorem rename_whole_plain : ∃ s, (Server.machine Server.integers).Reachable s ∧
    Renamed s.kernel (s.kernel.execute Server.integers (inDb .rename (lit "k") (lit "m"))) (inDb .rename (lit "k") (lit "m")) intKey := by
  have h : ((Server.machine Server.integers).exec (fun _ _ => True) Server.fresh [
      .request { cls := .set, database := lit "db", key := lit "k", select := 1, value := lit "v" }]).any fun s =>
        (inDb .rename (lit "k") (lit "m")).registered s.kernel = some intKey ∧
        registered s.kernel (lit "db") (lit "m") 1 = none ∧
        (s.kernel.reply Server.integers (inDb .rename (lit "k") (lit "m"))).finished = true ∧
        (∀ t ∈ typeRegs, t ≠ intKey → s.kernel.get (lit "db") (keyRow (lit "k") 1 t) = none) ∧
        s.kernel.get (lit "db") (expireRow (lit "k") 1 (lit "db")) = none ∧
        s.kernel.get (lit "db") (expireRow (lit "m") 1 (lit "db")) = none ∧ s.kernel.expires = [] := by decide
  obtain ⟨s, reached, key, free, ok, only, oldRow, newRow, entries⟩ :=
      Machine.exec_holds h (.initial Server.fresh_initial)
  have none := deadline_of_empty entries (lit "db")
  refine ⟨s, reached, (rename_whole_iff reached rfl key (.inl free) ok).mpr ⟨by decide, only, oldRow,
    fun expiring => absurd expiring (lasting_of_empty entries), fun _ => ⟨(none _ _).trans (none _ _).symm, ?_⟩⟩⟩
  exact newRow.trans (congrArg (Option.map _) (none (lit "k") 1)).symm

/-- RENAME of a key to its own name deletes it; of an expiring key it leaves the expiry row. -/
theorem rename_loses : ∃ s, (Server.machine Server.integers).Reachable s ∧
    (∃ r, r.cls = .rename ∧ r.Accepted ∧ r.value = r.key ∧ r.registered s.kernel = some intKey ∧
      (s.kernel.reply Server.integers r).finished = true ∧
      ¬ Renamed s.kernel (s.kernel.execute Server.integers r) r intKey) ∧
    ∃ r, r.cls = .rename ∧ r.Accepted ∧ r.value ≠ r.key ∧ r.registered s.kernel = some intKey ∧
      registered s.kernel r.database r.value r.select = none ∧
      (s.kernel.reply Server.integers r).finished = true ∧
      ¬ Renamed s.kernel (s.kernel.execute Server.integers r) r intKey := by
  have h : ((Server.machine Server.integers).exec (fun _ _ => True) Server.fresh [
      .request
        { cls := .setex, database := lit "db", key := lit "k", select := 1, value := lit "v", id := 100 }]).any fun s =>
        (inDb .rename (lit "k") (lit "k")).registered s.kernel = some intKey ∧
        registered s.kernel (lit "db") (lit "m") 1 = none ∧
        (s.kernel.reply Server.integers (inDb .rename (lit "k") (lit "k"))).finished = true ∧
        (s.kernel.reply Server.integers (inDb .rename (lit "k") (lit "m"))).finished = true ∧
        registered (s.kernel.execute Server.integers (inDb .rename (lit "k") (lit "k"))) (lit "db") (lit "k") 1 = none ∧
        (s.kernel.execute Server.integers (inDb .rename (lit "k") (lit "m"))).get (lit "db")
          (expireRow (lit "k") 1 (lit "db")) = some (lit "100") := by decide
  obtain ⟨s, reached, key, free, itself, other, lost, row⟩ := Machine.exec_holds h (.initial Server.fresh_initial)
  refine ⟨s, reached,
    ⟨inDb .rename (lit "k") (lit "k"), rfl, by decide, rfl, key, itself, fun whole => ?_⟩,
    inDb .rename (lit "k") (lit "m"), rfl, by decide, by decide, key, free, other, fun whole => ?_⟩
  · exact absurd (whole.registered.symm.trans lost) (by simp)
  · exact absurd ((whole.gone (by decide)).2.symm.trans row) (by simp)

end BerylDB.Store
