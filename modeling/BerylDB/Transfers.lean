import BerylDB.Relocation

/-! # TRANSFER

Two databases, of which the second may refuse every write. -/
namespace BerylDB.Store
open Text QueryBase Kernel Transition

/-- The store when RocksDB takes the writes of one database, or refuses them. -/
def Kernel.setWritable (k : Kernel) (db : Bytes) (writable : Bool) : Kernel :=
  { k with databases := Function.update k.databases db { k.databases db with writable } }

def Kernel.Takes (k : Kernel) (db : Bytes) : Prop := (k.databases db).writable = true

instance (k : Kernel) (db : Bytes) : Decidable (k.Takes db) := inferInstanceAs (Decidable (_ = true))

/-- The key with its value and its deadline is in the target, and nothing of it in the source. -/
structure Arrived (k k' : Kernel) (r : Request) (type target : Bytes) : Prop where
  registered : registered k' target r.key r.select = some type
  value : k'.get target (r.row type) = k.get r.database (r.row type)
  expiry : k'.ExpiresAt target r.key r.select (k.deadline r.database r.key r.select)
  gone : QueryBase.registered k' r.database r.key r.select = none
  left : k'.ExpiresAt r.database r.key r.select none

/-- The source is as it was, and the query has an error. -/
structure Refused (P : Platform) (k : Kernel) (r : Request) : Prop where
  rows : ∀ row, (k.execute P r).get r.database row = k.get r.database row
  expires : (k.execute P r).expires = k.expires
  error : (k.reply P r).access ≠ .statusOk

/-- The state in which TRANSFER moves the whole entry. -/
structure Request.TransfersWhole (r : Request) (k : Kernel) (type target : Bytes) : Prop where
  put : k.Takes target ∨ k.get target (r.row type) = k.get r.database (r.row type)
  before : k.NoneBefore target r.key r.select type
  only : k.OnlyType r.database r.key r.select type
  expiring : r.Expiring k →
    k.get target (expireRow r.key r.select target) = some (convtoString (r.ttl k).toNat) ∧
    (∀ d ∈ k.leftover target r.key r.select, r.ttl k ≤ d) ∧
    (k.deleteExpire r.database r.key r.select).deadline r.database r.key r.select = none
  lasting : ¬ r.Expiring k → k.ExpiresAt target r.key r.select none ∧ k.ExpiresAt r.database r.key r.select none

/-! ## Databases of which some refuse writes -/

section
variable {k : Kernel} {db d row x value : Bytes}

theorem takes_write (batch : Rows → Rows) : (k.write db batch).1.Takes d ↔ k.Takes d := by
  unfold Kernel.write Kernel.Takes
  dsimp only
  split
  · by_cases same : d = db
    · subst same
      simp
    · simp [same]
  · rfl

theorem get_write_takes (batch : Rows → Rows) :
    (k.write db batch).1.get d x = if d = db ∧ k.Takes db then (batch (k.rows db))[x]? else k.get d x := by
  by_cases takes : k.Takes db
  · have taken : (k.databases db).writable = true := takes
    by_cases same : d = db
    · subst same
      simp [Kernel.write, Kernel.get, Kernel.rows, taken, takes]
    · simp [Kernel.write, Kernel.get, Kernel.rows, taken, takes, same]
  · have refused : ¬ (k.databases db).writable = true := takes
    simp [Kernel.write, refused, takes]

theorem get_put_takes : (k.put db row value).1.get d x =
    if d = db ∧ x = row ∧ k.Takes db then some value else k.get d x := by
  rw [Kernel.put, get_write_takes, Std.ExtTreeMap.getElem?_insert]
  by_cases here : d = db
  · subst here
    by_cases takes : k.Takes d <;> by_cases same : row = x <;> simp [takes, same, Ne.symm, Kernel.get]
  · simp [here]

theorem get_erase_takes : (k.erase db row).get d x = if d = db ∧ x = row ∧ k.Takes db then none else k.get d x := by
  rw [Kernel.erase, get_write_takes, Std.ExtTreeMap.getElem?_erase]
  by_cases here : d = db
  · subst here
    by_cases takes : k.Takes d <;> by_cases same : row = x <;> simp [takes, same, Ne.symm, Kernel.get]
  · simp [here]

theorem get_addExpire (time : ℤ) (key : Bytes) (select : ℕ) (epoch : Bool) :
    (k.addExpire db time key select epoch).get = k.get := by
  unfold Kernel.get Kernel.rows
  rw [databases_addExpire]

theorem takes_addExpire (time : ℤ) (key : Bytes) (select : ℕ) (epoch : Bool) :
    (k.addExpire db time key select epoch).Takes d ↔ k.Takes d := by
  unfold Kernel.Takes
  rw [databases_addExpire]

theorem writeExpire_takes {q : QueryBase} (takes : k.Takes q.database) (key : Bytes) (select ttl : ℕ) (db : Bytes) :
    q.writeExpire k key select ttl db =
      (k.put q.database (expireRow key select db) (convtoString ttl)).1.addExpire db (toSigned ttl) key select true := by
  have ok : (k.put q.database (expireRow key select db) (convtoString ttl)).2 = true := by
    have taken : (k.databases q.database).writable = true := takes
    simp [Kernel.put, Kernel.write, taken]
  exact if_pos ok

@[simp] theorem get_setWritable (w : Bool) : (k.setWritable db w).get = k.get := by
  funext d x
  by_cases same : d = db
  · subst same
    simp [Kernel.setWritable, Kernel.get, Kernel.rows]
  · simp [Kernel.setWritable, Kernel.get, Kernel.rows, same]

end

/-! ## The run -/

/-- The kernel after TRANSFER for a key that has no deadline to take along. -/
def lastingTransfer (k : Kernel) (r : Request) (type target value : Bytes) : Kernel :=
  (k.put target (r.row type) value).1.erase r.database (r.row type)

/-- The kernel after `DelExpire` and `WriteExpire` of TRANSFER. -/
def movedDeadline (k : Kernel) (r : Request) (target : Bytes) : Kernel :=
  (((k.deleteExpire r.database r.key r.select).erase r.database (expireRow r.key r.select r.database)).put r.database
    (expireRow r.key r.select target) (convtoString (r.ttl k).toNat)).1.addExpire target (r.ttl k) r.key r.select true

section
variable {k : Kernel} {r : Request} {type target value : Bytes} {mapped : Option Bytes}

theorem transfer_lasting (held : k.get r.database (r.row type) = some value)
    (loaded : mapped = none ∨ mapped = k.get r.database (r.row type)) (lasting : ¬ (type = intKey ∧ 0 < r.ttl k)) :
    (Run.transfer target k (r.found type mapped)).1 = lastingTransfer k r type target value := by
  have text : (r.found type mapped).destValue k = value := destValue_found held loaded rfl rfl rfl
  simp only [Run.transfer, Request.found_identified, if_neg (not_expiring lasting), text]
  rfl

theorem transfer_expiring (held : k.get r.database (r.row type) = some value)
    (loaded : mapped = none ∨ mapped = k.get r.database (r.row type)) (takes : k.Takes r.database)
    (own : type = intKey) (positive : 0 < r.ttl k) :
    (Run.transfer target k (r.found type mapped)).1 =
      lastingTransfer (movedDeadline k r target) r intKey target value := by
  subst own
  have text : (r.found intKey mapped).destValue k = value := destValue_found held loaded rfl rfl rfl
  have ttl : (r.found intKey mapped).isExpiring k = r.ttl k := if_pos positive
  have taken : ((r.found intKey mapped).delExpire k).Takes r.database := by
    unfold delExpire
    rw [Kernel.erase, takes_write]
    exact takes
  simp only [Run.transfer, ttl, text]
  rw [if_pos ⟨rfl, positive⟩, writeExpire_takes taken, toSigned_ttl positive]
  rfl

end

section
variable {k k₀ : Kernel} {r : Request} {type target value : Bytes}

theorem get_lastingTransfer (takes : k.Takes r.database) (db row : Bytes) :
    (lastingTransfer k r type target value).get db row =
      if db = r.database ∧ row = r.row type then none
      else if db = target ∧ row = r.row type ∧ k.Takes target then some value
      else k.get db row := by
  have kept : (k.put target (r.row type) value).1.Takes r.database := (takes_write _).mpr takes
  unfold lastingTransfer
  rw [get_erase_takes, get_put_takes]
  simp only [kept, and_true]

theorem get_movedDeadline (takes : k.Takes r.database) (db row : Bytes) :
    (movedDeadline k r target).get db row =
      if db = r.database ∧ row = expireRow r.key r.select target then some (convtoString (r.ttl k).toNat)
      else if db = r.database ∧ row = expireRow r.key r.select r.database then none
      else k.get db row := by
  have taken : (k.deleteExpire r.database r.key r.select).Takes r.database := takes
  have kept : ((k.deleteExpire r.database r.key r.select).erase r.database
    (expireRow r.key r.select r.database)).Takes r.database := (takes_write _).mpr taken
  unfold movedDeadline
  rw [get_addExpire, get_put_takes, get_erase_takes]
  simp only [taken, kept, and_true]
  rfl

theorem takes_movedDeadline (db : Bytes) : (movedDeadline k r target).Takes db ↔ k.Takes db := by
  unfold movedDeadline
  rw [takes_addExpire, Kernel.put, takes_write, Kernel.erase, takes_write]
  rfl

theorem expires_lastingTransfer : (lastingTransfer k r type target value).expires = k.expires := by
  unfold lastingTransfer
  rw [Kernel.erase, expires_write, Kernel.put, expires_write]

theorem lastingTransfer_expiresAt (known : type ∈ typeRegs) (takes : k.Takes r.database) {db : Bytes}
    {deadline : Option ℤ} :
    (lastingTransfer k r type target value).ExpiresAt db r.key r.select deadline ↔
      k.ExpiresAt db r.key r.select deadline := by
  have table : (lastingTransfer k r type target value).deadline = k.deadline := deadline_congr expires_lastingTransfer
  have row : (lastingTransfer k r type target value).get db (expireRow r.key r.select db) =
      k.get db (expireRow r.key r.select db) := by
    rw [get_lastingTransfer takes, if_neg fun h => expireRow_ne_keyRow known h.2,
      if_neg fun h => expireRow_ne_keyRow known h.2.1]
  constructor
  · exact fun h => ⟨table ▸ h.table, row ▸ h.row⟩
  · exact fun h => ⟨table.symm ▸ h.table, row.trans h.row⟩

/-- What the last two writes leave, after a kernel `k` that came from `k₀` by moving the deadline, if there was one. -/
theorem arrived_iff (distinct : target ≠ r.database) (known : type ∈ typeRegs) (takes : k.Takes r.database)
    (held : k₀.get r.database (r.row type) = some value)
    (data : ∀ db t, t ∈ typeRegs → k.get db (r.row t) = k₀.get db (r.row t)) :
    Arrived k₀ (lastingTransfer k r type target value) r type target ↔
      (k.Takes target ∨ k₀.get target (r.row type) = k₀.get r.database (r.row type)) ∧
      k₀.NoneBefore target r.key r.select type ∧ k₀.OnlyType r.database r.key r.select type ∧
      k.ExpiresAt target r.key r.select (k₀.deadline r.database r.key r.select) ∧
      k.ExpiresAt r.database r.key r.select none := by
  have copy : (lastingTransfer k r type target value).get target (r.row type) =
      if k.Takes target then some value else k₀.get target (r.row type) := by
    rw [get_lastingTransfer takes, if_neg fun h => distinct h.1]
    simp [data target type known]
  have lost : (lastingTransfer k r type target value).get r.database (r.row type) = none := by
    rw [get_lastingTransfer takes, if_pos ⟨rfl, rfl⟩]
  have others {db t : Bytes} (ht : t ∈ typeRegs) (other : t ≠ type) :
      (lastingTransfer k r type target value).get db (keyRow r.key r.select t) =
        k₀.get db (keyRow r.key r.select t) := by
    rw [get_lastingTransfer takes, if_neg fun h => other (keyRow_inj.mp h.2).2.2,
      if_neg fun h => other (keyRow_inj.mp h.2.1).2.2]
    exact data db t ht
  have before : (lastingTransfer k r type target value).NoneBefore target r.key r.select type ↔
      k₀.NoneBefore target r.key r.select type := by
    refine forall₂_congr fun t earlier => ?_
    rw [others (ne_of_mem_takeWhile earlier).1 (ne_of_mem_takeWhile earlier).2]
  have only : (lastingTransfer k r type target value).OnlyType r.database r.key r.select type ↔
      k₀.OnlyType r.database r.key r.select type := by
    refine forall₂_congr fun t ht => forall_congr' fun other => ?_
    rw [others ht other]
  rw [← lastingTransfer_expiresAt known takes, ← lastingTransfer_expiresAt known takes]
  constructor
  · intro h
    refine ⟨?_, before.mp (registered_iff.mp h.registered).2.2, only.mp ((registered_none_iff known).mp h.gone).2,
      h.expiry, h.left⟩
    have moved := h.value
    rw [copy] at moved
    split at moved
    · exact .inl ‹_›
    · exact .inr moved
  · rintro ⟨put, first, alone, expiry, left⟩
    have moved : (lastingTransfer k r type target value).get target (r.row type) = k₀.get r.database (r.row type) := by
      rw [copy]
      split
      · exact held.symm
      · exact put.resolve_left ‹_›
    refine ⟨registered_iff.mpr ⟨known, ?_, before.mpr first⟩, moved, expiry,
      (registered_none_iff known).mpr ⟨lost, only.mpr alone⟩, left⟩
    change ((lastingTransfer k r type target value).get target (r.row type)).isSome = true
    rw [moved, held]
    rfl

theorem expires_beforeSchedule : (((k.deleteExpire r.database r.key r.select).erase r.database
    (expireRow r.key r.select r.database)).put r.database (expireRow r.key r.select target)
    (convtoString (r.ttl k).toNat)).1.expires = (k.deleteExpire r.database r.key r.select).expires := by
  rw [Kernel.put, expires_write, Kernel.erase, expires_write]

theorem movedDeadline_target (distinct : target ≠ r.database) (order : InOrder k.expires) (takes : k.Takes r.database)
    (positive : 0 < r.ttl k) :
    (movedDeadline k r target).ExpiresAt target r.key r.select (k.deadline r.database r.key r.select) ↔
      k.get target (expireRow r.key r.select target) = some (convtoString (r.ttl k).toNat) ∧
      ∀ d ∈ k.leftover target r.key r.select, r.ttl k ≤ d := by
  have other : (target, r.key, r.select) ≠ (r.database, r.key, r.select) := by simpa using distinct
  have row : (movedDeadline k r target).get target (expireRow r.key r.select target) =
      k.get target (expireRow r.key r.select target) := by
    rw [get_movedDeadline takes, if_neg fun h => distinct h.1, if_neg fun h => distinct h.1]
  have table : (movedDeadline k r target).deadline target r.key r.select = some (r.ttl k) ↔
      ∀ d ∈ k.leftover target r.key r.select, r.ttl k ≤ d := by
    unfold movedDeadline
    rw [InOrder.deadline_schedule, leftover_congr expires_beforeSchedule, leftover_delete_other other]
    · rw [expires_beforeSchedule]
      exact order.delete _ _ _
    · omega
  rw [order.deadline_of_positive positive]
  constructor
  · exact fun h => ⟨row ▸ h.row, table.mp h.table⟩
  · exact fun ⟨text, late⟩ => ⟨table.mpr late, row.trans text⟩

theorem movedDeadline_source (distinct : target ≠ r.database) (takes : k.Takes r.database) :
    (movedDeadline k r target).ExpiresAt r.database r.key r.select none ↔
      (k.deleteExpire r.database r.key r.select).deadline r.database r.key r.select = none := by
  have other : (r.database, r.key, r.select) ≠ (target, r.key, r.select) := by simpa using distinct.symm
  have row : (movedDeadline k r target).get r.database (expireRow r.key r.select r.database) = none := by
    rw [get_movedDeadline takes, if_neg fun h => distinct (expireRow_inj.mp h.2).2.2.symm, if_pos ⟨rfl, rfl⟩]
  have table : (movedDeadline k r target).deadline r.database r.key r.select =
      (k.deleteExpire r.database r.key r.select).deadline r.database r.key r.select := by
    unfold movedDeadline
    rw [deadline_schedule_other other, deadline_congr expires_beforeSchedule]
  constructor
  · exact fun h => table ▸ h.table
  · exact fun none => ⟨table.trans none, row⟩

end

section
variable {P : Platform} {k : Kernel} {r : Request} {type target value : Bytes}

theorem transfer_refused (cls : r.cls = .transfer) (goal : r.transfDb = some target) (opened : k.Opened r.database)
    (registered : r.registered k = some type) (refused : ¬ Allows r.cls k r type) : Refused P k r := by
  have routed := prepare_routed (P := P) opened registered (by simp [cls]) (by simp [goal])
  rw [if_neg refused] at routed
  have same : k.execute P r = k := by rw [Kernel.execute, routed]
  refine ⟨fun row => by rw [same], by rw [same], ?_⟩
  rw [Kernel.reply, routed]
  intro h
  cases h

/-- A query that is let in runs to its end, and reports no error. -/
theorem transfer_runs (cls : r.cls = .transfer) (goal : r.transfDb = some target) (opened : k.Opened r.database)
    (registered : r.registered k = some type) (allows : Allows r.cls k r type) :
    k.execute P r = (Run.transfer target k (r.found type (k.get r.database (r.row type)))).1 ∧
      (k.reply P r).access = .statusOk := by
  have routed := prepare_routed (P := P) opened registered (by simp [cls]) (by simp [goal])
  rw [if_pos allows, QueryBase.run, cls] at routed
  change prepare P _ k r.query = transferBody k _ at routed
  rw [transferBody, Request.found_transfDb, goal] at routed
  rw [Kernel.execute, Kernel.reply, cls, routed]
  exact ⟨rfl, rfl⟩

theorem transfer_arrived_iff (order : InOrder k.expires) (takes : k.Takes r.database) (distinct : target ≠ r.database)
    (registered : r.registered k = some type) :
    Arrived k (Run.transfer target k (r.found type (k.get r.database (r.row type)))).1 r type target ↔
      r.TransfersWhole k type target := by
  obtain ⟨known, value, held⟩ := registered_some registered
  by_cases expiring : type = intKey ∧ 0 < r.ttl k
  · obtain ⟨own, positive⟩ := expiring
    rw [transfer_expiring held (.inr rfl) takes own positive]
    subst own
    have data (db t : Bytes) (ht : t ∈ typeRegs) : (movedDeadline k r target).get db (r.row t) = k.get db (r.row t) := by
      rw [get_movedDeadline takes, if_neg fun h => expireRow_ne_keyRow ht h.2.symm,
        if_neg fun h => expireRow_ne_keyRow ht h.2.symm]
    rw [arrived_iff distinct known ((takes_movedDeadline _).mpr takes) held data, takes_movedDeadline,
      movedDeadline_target distinct order takes positive, movedDeadline_source distinct takes]
    constructor
    · rintro ⟨put, before, only, ⟨row, late⟩, single⟩
      exact ⟨put, before, only, fun _ => ⟨row, late, single⟩, fun lasting => absurd ⟨registered, positive⟩ lasting⟩
    · rintro ⟨put, before, only, whole, -⟩
      obtain ⟨row, late, single⟩ := whole ⟨registered, positive⟩
      exact ⟨put, before, only, ⟨row, late⟩, single⟩
  · have lasting := lasting_of_not registered expiring
    rw [transfer_lasting held (.inr rfl) expiring, arrived_iff distinct known takes held fun _ _ _ => rfl]
    constructor
    · rintro ⟨put, before, only, expiry, left⟩
      exact ⟨put, before, only, fun yes => absurd yes lasting, fun _ => ⟨left.table ▸ expiry, left⟩⟩
    · rintro ⟨put, before, only, -, whole⟩
      obtain ⟨expiry, left⟩ := whole lasting
      exact ⟨put, before, only, left.table.symm ▸ expiry, left⟩

end

section
variable {P : Platform} {s : Server} {r : Request} {type target : Bytes}

/-- TRANSFER moves the whole entry or leaves the source as it was with an error, whether the target takes writes or not,
if and only if `CheckDest` refuses it or the state was `TransfersWhole`. -/
theorem transfer_whole_iff (reach : (Server.machine P).Reachable s) (writable : Bool) (cls : r.cls = .transfer)
    (goal : r.transfDb = some target) (distinct : target ≠ r.database) (opened : s.kernel.Opened r.database)
    (registered : r.registered s.kernel = some type) :
    let k := s.kernel.setWritable target writable
    Arrived k (k.execute P r) r type target ∨ Refused P k r ↔
      ¬ Allows r.cls k r type ∨ r.TransfersWhole k type target := by
  intro k
  obtain ⟨taken, order⟩ := reachable_inOrder reach
  have source : k.databases r.database = s.kernel.databases r.database := Function.update_of_ne distinct.symm _ _
  have takes : k.Takes r.database := by
    rw [Kernel.Takes, source]
    exact taken r.database
  have opened' : k.Opened r.database := by
    rw [Kernel.Opened, source]
    exact opened
  have registered' : r.registered k = some type := by
    rw [← registered, Request.registered, Request.registered, QueryBase.registered, QueryBase.registered,
      get_setWritable]
  by_cases allows : Allows r.cls k r type
  · obtain ⟨ran, quiet⟩ := transfer_runs (P := P) cls goal opened' registered' allows
    have order' : InOrder k.expires := order
    rw [ran, transfer_arrived_iff order' takes distinct registered']
    constructor
    · rintro (whole | refused)
      · exact .inr whole
      · exact absurd quiet refused.error
    · rintro (refused | whole)
      · exact absurd allows refused
      · exact .inl whole
  · exact iff_of_true (.inr (transfer_refused cls goal opened' registered' allows)) (.inl allows)

end

/-- TRANSFER of a key of the database `db` to `db2`. -/
def toDb2 (key : Bytes) : Request := { inDb .transfer key [] with transfDb := some (lit "db2") }

theorem transfer_whole_plain : ∃ s, (Server.machine Server.integers).Reachable s ∧
    let k := s.kernel.setWritable (lit "db2") true
    Arrived k (k.execute Server.integers (toDb2 (lit "k"))) (toDb2 (lit "k")) intKey (lit "db2") ∨
      Refused Server.integers k (toDb2 (lit "k")) := by
  have h : ((Server.machine Server.integers).exec (fun _ _ => True) Server.fresh
      [.request (inDb .set (lit "k") (lit "v"))]).any fun s =>
        (toDb2 (lit "k")).registered s.kernel = some intKey ∧ (s.kernel.databases (lit "db")).closing = false ∧
        (∀ t ∈ typeRegs.takeWhile (· ≠ intKey), s.kernel.get (lit "db2") (keyRow (lit "k") 1 t) = none) ∧
        (∀ t ∈ typeRegs, t ≠ intKey → s.kernel.get (lit "db") (keyRow (lit "k") 1 t) = none) ∧
        s.kernel.get (lit "db") (expireRow (lit "k") 1 (lit "db")) = none ∧
        s.kernel.get (lit "db2") (expireRow (lit "k") 1 (lit "db2")) = none ∧ s.kernel.expires = [] := by decide
  obtain ⟨s, reached, key, opened, before, only, oldRow, newRow, entries⟩ :=
      Machine.exec_holds h (.initial Server.fresh_initial)
  have whole := transfer_whole_iff (r := toDb2 (lit "k")) reached true rfl rfl (by decide) opened key
  refine ⟨s, reached, whole.mpr (.inr ⟨.inl ?_, ?_, ?_, fun expiring => ?_, fun _ => ⟨⟨?_, ?_⟩, ⟨?_, ?_⟩⟩⟩)⟩
  · simp [Kernel.Takes, Kernel.setWritable]
  · simp only [Kernel.NoneBefore, get_setWritable]
    exact before
  · simp only [Kernel.OnlyType, get_setWritable]
    exact only
  · exact absurd expiring (lasting_of_empty entries)
  · exact deadline_of_empty entries _ _ _
  · rw [get_setWritable]
    exact newRow
  · exact deadline_of_empty entries _ _ _
  · rw [get_setWritable]
    exact oldRow

/-- A target that refuses the write loses the key; the expiry row of a key that arrives stays in the source. -/
theorem transfer_loses : ∃ s, (Server.machine Server.integers).Reachable s ∧ s.kernel.Opened (lit "db") ∧
    s.kernel.Opened (lit "db2") ∧ (toDb2 (lit "k")).Accepted ∧
    (toDb2 (lit "k")).registered s.kernel = some intKey ∧ ∀ writable : Bool,
      let k := s.kernel.setWritable (lit "db2") writable
      ¬ (Arrived k (k.execute Server.integers (toDb2 (lit "k"))) (toDb2 (lit "k")) intKey (lit "db2") ∨
        Refused Server.integers k (toDb2 (lit "k"))) := by
  have h : ((Server.machine Server.integers).exec (fun _ _ => True) Server.fresh
      [.request { inDb .setex (lit "k") (lit "v") with id := 100 }]).any fun s =>
        (toDb2 (lit "k")).registered s.kernel = some intKey ∧ (s.kernel.databases (lit "db")).closing = false ∧
        (s.kernel.databases (lit "db2")).closing = false ∧
        s.kernel.deadline (lit "db") (lit "k") 1 = some 100 ∧ ∀ writable : Bool,
          let k := s.kernel.setWritable (lit "db2") writable
          (k.reply Server.integers (toDb2 (lit "k"))).access = .statusOk ∧
            (k.execute Server.integers (toDb2 (lit "k"))).get (lit "db2") (expireRow (lit "k") 1 (lit "db2")) =
              none := by decide
  obtain ⟨s, reached, key, opened, opened2, deadline, runs⟩ := Machine.exec_holds h (.initial Server.fresh_initial)
  refine ⟨s, reached, opened, opened2, by decide, key,
    fun writable => ?_⟩
  obtain ⟨quiet, missing⟩ := runs writable
  intro k
  rintro (arrived | refused)
  · have row := arrived.expiry.row.symm.trans missing
    have same : (s.kernel.setWritable (lit "db2") writable).deadline (lit "db") (lit "k") 1 = some 100 := deadline
    exact absurd ((congrArg (Option.map _) same.symm).trans row) (by simp)
  · exact refused.error quiet

end BerylDB.Store
