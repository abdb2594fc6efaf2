import BerylDB.DueDeletes

/-! # The table of futures

`FutureManager` as a function of database, key and select.  `Add` takes an old entry away only when its time
is greater than 0, so an entry at 0 must not be registered again. -/
namespace BerylDB.Store
open Text Kernel

/-- The entries have different names, and times that a `signed int` holds. -/
structure TimedFutures (futures : List FutureEntry) : Prop where
  unique : Timetable.Unique FutureEntry.name futures
  range : ∀ e ∈ futures, 0 ≤ e.schedule ∧ e.schedule < 2 ^ 31

/-- The time at which the entry of a name is to be executed. -/
def Kernel.moment (k : Kernel) (name : Name) : Option ℤ :=
  (Timetable.lookup FutureEntry.name name k.futures).map FutureEntry.schedule

/-- What an update does to the times of the futures. -/
def Update.moments (u : Update) (m : Name → Option ℤ) (name : Name) : Option ℤ :=
  match u with
  | .plan db time key select => if 0 ≤ time ∧ name = (db, key, select) then some time else m name
  | .unplan db key select => if name = (db, key, select) then none else m name
  | .close db => if name.1 = db then none else m name
  | _ => m name

/-- The update registers a time of 31 bits, and none where an entry at 0 is. -/
def Update.Plannable (k : Kernel) : Update → Prop
  | .plan db time key select => time < 2 ^ 31 ∧ (0 ≤ time → k.moment (db, key, select) ≠ some 0)
  | _ => True

section
variable {k : Kernel}

theorem mem_futures (timed : TimedFutures k.futures) {e : FutureEntry} (he : e ∈ k.futures) :
    k.moment e.name = some e.schedule := by
  unfold Kernel.moment
  rw [(Timetable.lookup_eq_some timed.unique).mpr ⟨he, rfl⟩]
  rfl

theorem futureTime_eq (timed : TimedFutures k.futures) (db key : Bytes) (select : ℕ) :
    k.futureTime db key select = (k.moment (db, key, select)).getD (-1) := by
  unfold Kernel.futureTime Kernel.moment
  cases found : Timetable.lookup FutureEntry.name (db, key, select) k.futures with
  | none => rfl
  | some e =>
    obtain ⟨low, high⟩ := timed.range e (Timetable.lookup_some found).1
    exact toSigned_of_range (by omega) high

theorem timed_unplan (timed : TimedFutures k.futures) (db key : Bytes) (select : ℕ) :
    TimedFutures (k.deleteFuture db key select).futures :=
  ⟨timed.unique.delete, fun e he => timed.range e (Timetable.mem_of_mem_delete he)⟩

theorem moment_unplan (timed : TimedFutures k.futures) (db key : Bytes) (select : ℕ) (name : Name) :
    (k.deleteFuture db key select).moment name = (Update.unplan db key select).moments k.moment name := by
  unfold Kernel.moment Kernel.deleteFuture
  simp only [Update.moments, Timetable.lookup_delete timed.unique]
  split <;> rfl

/-- What `Add` leaves of the old entry, unless its time is 0. -/
theorem cleared_futures (timed : TimedFutures k.futures) {db key : Bytes} {select : ℕ}
    (notZero : k.moment (db, key, select) ≠ some 0) :
    (if k.futureTime db key select > 0 then k.deleteFuture db key select else k) = k.deleteFuture db key select := by
  split
  · rfl
  · rename_i late
    rw [futureTime_eq timed] at late
    rw [Kernel.deleteFuture, Timetable.delete_eq_self_of_late (fun e he => (timed.range e he).1) notZero late]

theorem addFuture_spec (timed : TimedFutures k.futures) {db key : Bytes} {select : ℕ} {t : ℤ} (high : t < 2 ^ 31)
    (notZero : 0 ≤ t → k.moment (db, key, select) ≠ some 0) :
    TimedFutures (k.addFuture db t key select true).futures ∧
      ∀ name, (k.addFuture db t key select true).moment name = (Update.plan db t key select).moments k.moment name := by
  by_cases low : 0 ≤ t
  · have entry : k.addFuture db t key select true = { k with
        futures := Timetable.add FutureEntry.schedule ⟨db, key, select, t, []⟩ (k.deleteFuture db key select).futures } := by
      unfold Kernel.addFuture
      rw [if_neg (not_lt.mpr low), cleared_futures timed (notZero low)]
      rfl
    obtain ⟨unique, replaced⟩ := timed.unique.replace FutureEntry.schedule ⟨db, key, select, t, []⟩
    rw [entry]
    refine ⟨⟨unique, ?_⟩, ?_⟩
    · intro e he
      rcases Timetable.mem_add.mp he with rfl | he
      · exact ⟨low, high⟩
      · exact (timed_unplan timed db key select).range e he
    · intro name
      unfold Kernel.moment Kernel.deleteFuture
      refine (congrArg _ (replaced name)).trans ?_
      by_cases same : name = (db, key, select) <;> simp [FutureEntry.name, Update.moments, low, same]
  · have same : k.addFuture db t key select true = k := by
      unfold Kernel.addFuture
      rw [if_pos (not_le.mp low)]
    rw [same]
    exact ⟨timed, fun name => by simp [Update.moments, low]⟩

theorem timed_closeFutures (timed : TimedFutures k.futures) (db : Bytes) : TimedFutures (k.closeFutures db).futures :=
  ⟨timed.unique.filter _, fun e he => timed.range e (List.mem_of_mem_filter he)⟩

theorem moment_close (timed : TimedFutures k.futures) (db : Bytes) (name : Name) :
    (k.closeFutures db).moment name = (Update.close db).moments k.moment name := by
  have filtered := Timetable.lookup_filter (m := name) timed.unique fun name => decide (name.1 ≠ db)
  unfold Kernel.moment Kernel.closeFutures
  rw [show (fun e : FutureEntry => decide (e.database ≠ db)) = fun e => decide ((FutureEntry.name e).1 ≠ db) from rfl,
    filtered]
  by_cases same : name.1 = db <;> simp [Update.moments, same]

theorem futures_write (db : Bytes) (batch : Rows → Rows) : (k.write db batch).1.futures = k.futures := by
  unfold Kernel.write
  dsimp only
  split <;> rfl

theorem futures_addExpire (db : Bytes) (time : ℤ) (key : Bytes) (select : ℕ) (epoch : Bool) :
    (k.addExpire db time key select epoch).futures = k.futures := by
  unfold Kernel.addExpire
  split
  · rfl
  · dsimp only
    split <;> rfl

/-- Every update that is plannable acts on the table as `Update.moments` says. -/
theorem moment_update (timed : TimedFutures k.futures) (u : Update) (plannable : u.Plannable k) :
    TimedFutures (k.update u).futures ∧ ∀ name, (k.update u).moment name = u.moments k.moment name := by
  have frame {k' : Kernel} (same : k'.futures = k.futures) :
      TimedFutures k'.futures ∧ ∀ name, k'.moment name = k.moment name := by
    unfold Kernel.moment
    rw [same]
    exact ⟨timed, fun _ => rfl⟩
  cases u with
  | put db row value => exact frame (futures_write db _)
  | erase db row => exact frame (futures_write db _)
  | schedule db time key select =>
    rw [update_schedule]
    exact frame (futures_addExpire db time key select true)
  | cancel db key select => exact frame rfl
  | plan db time key select =>
    rw [update_plan]
    exact addFuture_spec timed plannable.1 plannable.2
  | unplan db key select => exact ⟨timed_unplan timed db key select, moment_unplan timed db key select⟩
  | close db => exact ⟨timed_closeFutures (k := (k.close db).closeExpires db) timed db,
      moment_close (k := (k.close db).closeExpires db) timed db⟩

/-- Updates that plan nothing leave every future where it was, or take it away. -/
theorem moment_updates (timed : TimedFutures k.futures) (us : List Update)
    (unplanned : ∀ db time key select, .plan db time key select ∉ us) : TimedFutures (k.updates us).futures ∧
      ∀ name t, (k.updates us).moment name = some t → k.moment name = some t := by
  induction us generalizing k with
  | nil =>
    rw [updates_nil]
    exact ⟨timed, fun _ _ found => found⟩
  | cons u us ih =>
    simp only [List.mem_cons, not_or] at unplanned
    have plannable : u.Plannable k := by
      cases u with
      | plan db time key select => exact absurd rfl (unplanned db time key select).1
      | _ => trivial
    obtain ⟨timed', same⟩ := moment_update timed u plannable
    obtain ⟨timed'', less⟩ := ih timed' fun db time key select => (unplanned db time key select).2
    rw [updates_cons]
    refine ⟨timed'', fun name t found => ?_⟩
    have found := less name t found
    rw [same] at found
    cases u with
    | plan db time key select => exact absurd rfl (unplanned db time key select).1
    | unplan db key select =>
      simp only [Update.moments] at found
      split at found
      · simp at found
      · exact found
    | close db =>
      simp only [Update.moments] at found
      split at found
      · simp at found
      · exact found
    | _ => exact found

end

end BerylDB.Store
