import BerylDB.Server

/-! # The table of deadlines

`ExpireManager` as a function of database, key and select.  `Add` takes an old entry away only when its time
is greater than 0, so an entry at 0 must not be scheduled again. -/
namespace BerylDB.Store
open Text Kernel

/-- The entries have different names, and times that a `signed int` holds. -/
structure Timed (expires : List ExpireEntry) : Prop where
  unique : Timetable.Unique ExpireEntry.name expires
  range : ∀ e ∈ expires, 0 ≤ e.schedule ∧ e.schedule < 2 ^ 31

def deadlineOf (expires : List ExpireEntry) : Deadlines := fun db key select =>
  (Timetable.lookup ExpireEntry.name (db, key, select) expires).map ExpireEntry.schedule

def Kernel.deadline (k : Kernel) : Deadlines := deadlineOf k.expires

theorem toSigned_of_range {t : ℤ} (low : -2 ^ 31 ≤ t) (high : t < 2 ^ 31) : toSigned t = t := by
  unfold toSigned
  rw [Int.bmod_eq_of_le] <;> omega

theorem toSigned_high {n : ℕ} (low : 2 ^ 31 ≤ n) (high : n < 2 ^ 32) : toSigned n < 0 := by
  unfold toSigned
  rw [Int.bmod_def]
  omega

section
variable {k : Kernel} {db key : Bytes} {select : ℕ}

theorem mem_expires (timed : Timed k.expires) {t : ℤ} :
    ⟨db, key, select, t⟩ ∈ k.expires ↔ k.deadline db key select = some t := by
  unfold Kernel.deadline deadlineOf
  rw [Option.map_eq_some_iff]
  constructor
  · exact fun h => ⟨_, (Timetable.lookup_eq_some timed.unique).mpr ⟨h, rfl⟩, rfl⟩
  · rintro ⟨⟨db', key', select', t'⟩, found, rfl⟩
    obtain ⟨h, name⟩ := (Timetable.lookup_eq_some timed.unique).mp found
    obtain ⟨rfl, rfl, rfl⟩ : db' = db ∧ key' = key ∧ select' = select := by simpa [ExpireEntry.name] using name
    exact h

theorem deadline_range (timed : Timed k.expires) {t : ℤ} (h : k.deadline db key select = some t) : 0 ≤ t ∧ t < 2 ^ 31 :=
  timed.range _ ((mem_expires timed).mpr h)

theorem expireTime_of_range (range : ∀ e ∈ k.expires, 0 ≤ e.schedule ∧ e.schedule < 2 ^ 31) :
    k.expireTime db key select = (k.deadline db key select).getD (-1) := by
  unfold Kernel.expireTime Kernel.deadline deadlineOf
  cases found : Timetable.lookup ExpireEntry.name (db, key, select) k.expires with
  | none => rfl
  | some e =>
    obtain ⟨low, high⟩ := range e (Timetable.lookup_some found).1
    exact toSigned_of_range (by omega) high

theorem expireTime_eq (timed : Timed k.expires) :
    k.expireTime db key select = (k.deadline db key select).getD (-1) := expireTime_of_range timed.range

end

/-! ## Updates -/

def Update.deadlines : Update → Deadlines → Deadlines
  | .schedule db time key select, d => fun db' key' select' =>
    if 0 ≤ time ∧ db' = db ∧ key' = key ∧ select' = select then some time else d db' key' select'
  | .cancel db key select, d => fun db' key' select' =>
    if db' = db ∧ key' = key ∧ select' = select then none else d db' key' select'
  | .close db, d => fun db' key' select' => if db' = db then none else d db' key' select'
  | _, d => d

def deadlines (us : List Update) (d : Deadlines) : Deadlines := us.foldl (fun d u => u.deadlines d) d

@[simp] theorem deadlines_nil (d : Deadlines) : deadlines [] d = d := rfl

@[simp] theorem deadlines_cons (u : Update) (us : List Update) (d : Deadlines) :
    deadlines (u :: us) d = deadlines us (u.deadlines d) := rfl

theorem deadlines_append (us vs : List Update) (d : Deadlines) : deadlines (us ++ vs) d = deadlines vs (deadlines us d) :=
  List.foldl_append

/-- The updates schedule times of 31 bits, and none where an entry at 0 is. -/
def Ready : List Update → Deadlines → Prop
  | [], _ => True
  | .schedule db time key select :: us, d =>
    (time < 2 ^ 31 ∧ (0 ≤ time → d db key select ≠ some 0)) ∧
      Ready us ((Update.schedule db time key select).deadlines d)
  | u :: us, d => Ready us (u.deadlines d)

section
variable {k : Kernel} (timed : Timed k.expires)
include timed

theorem timed_delete (db key : Bytes) (select : ℕ) : Timed (k.deleteExpire db key select).expires :=
  ⟨timed.unique.delete, fun e he => timed.range e (Timetable.mem_of_mem_delete he)⟩

theorem deadline_delete (db key : Bytes) (select : ℕ) :
    (k.deleteExpire db key select).deadline = (Update.cancel db key select).deadlines k.deadline := by
  funext db' key' select'
  unfold Kernel.deadline deadlineOf Kernel.deleteExpire
  simp only [Update.deadlines, Timetable.lookup_delete timed.unique, Prod.mk.injEq]
  split <;> rfl

theorem timed_close (db : Bytes) : Timed (k.closeExpires db).expires :=
  ⟨timed.unique.filter _, fun e he => timed.range e (List.mem_of_mem_filter he)⟩

theorem deadline_close (db : Bytes) : (k.closeExpires db).deadline = (Update.close db).deadlines k.deadline := by
  funext db' key' select'
  have filtered := Timetable.lookup_filter (m := (db', key', select')) timed.unique fun name => decide (name.1 ≠ db)
  unfold Kernel.deadline deadlineOf Kernel.closeExpires
  rw [show (fun e : ExpireEntry => decide (e.database ≠ db)) = fun e => decide ((ExpireEntry.name e).1 ≠ db) from rfl,
    filtered]
  by_cases same : db' = db <;> simp [Update.deadlines, same]

/-- What `Add` leaves of the old entry, unless its time is 0. -/
theorem cleared_expires {db key : Bytes} {select : ℕ} (notZero : k.deadline db key select ≠ some 0) :
    (if k.expireTime db key select > 0 then k.deleteExpire db key select else k) = k.deleteExpire db key select := by
  split
  · rfl
  · rename_i late
    rw [expireTime_eq timed] at late
    rw [Kernel.deleteExpire, Timetable.delete_eq_self_of_late (fun e he => (timed.range e he).1) notZero late]

theorem addExpire_spec {db key : Bytes} {select : ℕ} {t : ℤ} (high : t < 2 ^ 31)
    (notZero : 0 ≤ t → k.deadline db key select ≠ some 0) :
    Timed (k.addExpire db t key select true).expires ∧
      (k.addExpire db t key select true).deadline = (Update.schedule db t key select).deadlines k.deadline := by
  by_cases low : 0 ≤ t
  · have entry : k.addExpire db t key select true = { k with
        expires := Timetable.add ExpireEntry.schedule ⟨db, key, select, t⟩ (k.deleteExpire db key select).expires } := by
      unfold Kernel.addExpire
      rw [if_neg (not_lt.mpr low), cleared_expires timed (notZero low)]
      rfl
    obtain ⟨unique, replaced⟩ := timed.unique.replace ExpireEntry.schedule ⟨db, key, select, t⟩
    rw [entry]
    refine ⟨⟨unique, ?_⟩, ?_⟩
    · intro e he
      rcases Timetable.mem_add.mp he with rfl | he
      · exact ⟨low, high⟩
      · exact (timed_delete timed db key select).range e he
    · funext db' key' select'
      unfold Kernel.deadline deadlineOf Kernel.deleteExpire
      refine (congrArg _ (replaced (db', key', select'))).trans ?_
      simp only [ExpireEntry.name, Update.deadlines, Prod.mk.injEq, low, true_and]
      split <;> rfl
  · have same : k.addExpire db t key select true = k := by
      unfold Kernel.addExpire
      rw [if_pos (not_le.mp low)]
    rw [same]
    exact ⟨timed, by funext db' key' select'; simp [Update.deadlines, low]⟩

end

section
variable {k : Kernel}

theorem expires_write (db : Bytes) (batch : Rows → Rows) : (k.write db batch).1.expires = k.expires := by
  unfold Kernel.write
  dsimp only
  split <;> rfl

theorem expires_addFuture (db : Bytes) (time : ℤ) (key : Bytes) (select : ℕ) (epoch : Bool) :
    (k.addFuture db time key select epoch).expires = k.expires := by
  unfold Kernel.addFuture
  split
  · rfl
  · dsimp only
    split <;> rfl

/-- Every update that is ready acts on the table as `Update.deadlines` says. -/
theorem deadline_update (timed : Timed k.expires) (u : Update) (ready : Ready [u] k.deadline) :
    Timed (k.update u).expires ∧ (k.update u).deadline = u.deadlines k.deadline := by
  cases u with
  | put db row value =>
    have same : (k.update (.put db row value)).expires = k.expires := expires_write db _
    exact ⟨same ▸ timed, congrArg deadlineOf same⟩
  | erase db row =>
    have same : (k.update (.erase db row)).expires = k.expires := expires_write db _
    exact ⟨same ▸ timed, congrArg deadlineOf same⟩
  | schedule db time key select =>
    rw [update_schedule]
    exact addExpire_spec timed ready.1.1 ready.1.2
  | cancel db key select =>
    rw [update_cancel]
    exact ⟨timed_delete timed db key select, deadline_delete timed db key select⟩
  | plan db time key select =>
    have same : (k.update (.plan db time key select)).expires = k.expires := by
      rw [update_plan]
      exact expires_addFuture db time key select true
    exact ⟨same ▸ timed, congrArg deadlineOf same⟩
  | unplan db key select => exact ⟨timed, rfl⟩
  | close db => exact ⟨timed_close (k := k.close db) timed db, deadline_close (k := k.close db) timed db⟩

theorem Ready.cons {u : Update} {us : List Update} {d : Deadlines} :
    Ready (u :: us) d ↔ Ready [u] d ∧ Ready us (u.deadlines d) := by
  cases u <;> simp [Ready]

theorem deadline_updates (timed : Timed k.expires) (us : List Update) (ready : Ready us k.deadline) :
    Timed (k.updates us).expires ∧ (k.updates us).deadline = deadlines us k.deadline := by
  induction us generalizing k with
  | nil =>
    rw [updates_nil]
    exact ⟨timed, rfl⟩
  | cons u us ih =>
    obtain ⟨here, later⟩ := Ready.cons.mp ready
    obtain ⟨timed', same⟩ := deadline_update timed u here
    rw [updates_cons, deadlines_cons, ← same]
    exact ih timed' (same ▸ later)

/-- Lists that schedule nothing are ready. -/
theorem Ready.of_no_schedule {us : List Update} (h : ∀ db time key select, .schedule db time key select ∉ us)
    (d : Deadlines) : Ready us d := by
  induction us generalizing d with
  | nil => trivial
  | cons u us ih =>
    have rest : Ready us (u.deadlines d) := ih (fun db time key select hmem => h db time key select (by simp [hmem])) _
    cases u with
    | schedule db time key select => exact absurd (List.mem_cons_self) (h db time key select)
    | _ => exact rest

end

end BerylDB.Store
