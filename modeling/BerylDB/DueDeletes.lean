import BerylDB.Orphans

/-! # Delete queries of the timer

A delete query of the timer never looks at the entry again: it deletes what is registered under the name when
it runs.  While one waits, its name has a past entry or no key. -/
namespace BerylDB.Store
open Text Transition Kernel

/-- Database, key and select. -/
abbrev Name := Bytes × Bytes × ℕ

/-- `ExpireList` has an entry of the name that is past. -/
def Kernel.Due (k : Kernel) (name : Name) : Prop := ∃ e ∈ k.expires, e.name = name ∧ e.schedule < k.now

instance (k : Kernel) (name : Name) : Decidable (k.Due name) := by
  unfold Kernel.Due
  infer_instance

/-- What a delete query of the name finds: a past entry, or no key. -/
def Kernel.Passed (k : Kernel) (name : Name) : Prop :=
  k.Due name ∨ QueryBase.registered k name.1 name.2.1 name.2.2 = none

/-! ## Updates of the entries -/

section
variable {k : Kernel} {name : Name}

@[simp] theorem now_update (u : Update) : (k.update u).now = k.now := by
  cases u with
  | put db row value => simp only [update, Kernel.put, Kernel.write]; split <;> rfl
  | erase db row => simp only [update, Kernel.erase, Kernel.write]; split <;> rfl
  | schedule db time key select =>
    simp only [update_schedule, addExpire]
    split
    · rfl
    · dsimp only
      split <;> rfl
  | plan db time key select =>
    simp only [update_plan, addFuture]
    split
    · rfl
    · dsimp only
      split <;> rfl
  | cancel db key select => rfl
  | unplan db key select => rfl
  | close db => rfl

@[simp] theorem now_updates (us : List Update) : (k.updates us).now = k.now := by
  induction us generalizing k with
  | nil => rw [updates_nil]
  | cons u us ih => rw [updates_cons, ih, now_update]

/-- `Add` at a time from 0 on, in the past, makes the name due. -/
theorem due_schedule {time : ℤ} (low : 0 ≤ time) (late : time < k.now) :
    (k.update (.schedule name.1 time name.2.1 name.2.2)).Due name := by
  refine ⟨⟨name.1, name.2.1, name.2.2, time⟩, ?_, rfl, by simpa using late⟩
  rw [update_schedule, addExpire, if_neg (not_lt.mpr low)]
  exact Timetable.mem_add.mpr (.inl rfl)

/-- Only cancelling, closing and a later time take a past entry away. -/
theorem Kernel.Due.update (due : k.Due name) (u : Update) (kept : u ≠ .cancel name.1 name.2.1 name.2.2)
    (opened : u ≠ .close name.1) (late : ∀ time, u = .schedule name.1 time name.2.1 name.2.2 → time < k.now) :
    (k.update u).Due name := by
  obtain ⟨e, he, rfl, past⟩ := due
  have still (here : e ∈ (k.update u).expires) : (k.update u).Due e.name := ⟨e, here, rfl, by simpa using past⟩
  cases u with
  | put db row value => exact still ((expires_write db _).symm ▸ he)
  | erase db row => exact still ((expires_write db _).symm ▸ he)
  | schedule db time key select =>
    by_cases same : e.name = (db, key, select)
    · by_cases low : time < 0
      · refine still ?_
        rwa [update_schedule, addExpire, if_pos low]
      · rw [show db = e.name.1 by rw [same], show key = e.name.2.1 by rw [same], show select = e.name.2.2 by rw [same]]
        exact due_schedule (not_lt.mp low) (late time (by simp [same]))
    · refine still ?_
      rw [update_schedule, addExpire]
      split
      · exact he
      · refine Timetable.mem_add.mpr (.inr ?_)
        split
        · exact (Timetable.mem_delete_of_ne same).mpr he
        · exact he
  | cancel db key select =>
    refine still ((Timetable.mem_delete_of_ne fun same => kept ?_).mpr he)
    rw [same]
  | plan db time key select =>
    refine still ?_
    rwa [update_plan, expires_addFuture]
  | unplan db key select => exact still he
  | close db =>
    exact still (List.mem_filter.mpr ⟨he, decide_eq_true fun same => opened (congrArg Update.close same.symm)⟩)

theorem due_updates {us : List Update}
    (here : k.Due name ∨ ∃ time, 0 ≤ time ∧ .schedule name.1 time name.2.1 name.2.2 ∈ us)
    (kept : .cancel name.1 name.2.1 name.2.2 ∉ us) (opened : .close name.1 ∉ us)
    (late : ∀ time, .schedule name.1 time name.2.1 name.2.2 ∈ us → time < k.now) : (k.updates us).Due name := by
  induction us generalizing k with
  | nil => simpa using here
  | cons u us ih =>
    simp only [List.mem_cons, not_or] at kept opened
    rw [updates_cons]
    refine ih ?_ kept.2 opened.2 fun time later => by simpa using late time (List.mem_cons_of_mem _ later)
    rcases here with due | ⟨time, low, scheduled⟩
    · exact .inl (due.update u (Ne.symm kept.1) (Ne.symm opened.1) fun time now => late time (by simp [now]))
    · rcases List.mem_cons.mp scheduled with rfl | later
      · exact .inl (due_schedule low (late time (by simp)))
      · exact .inr ⟨time, low, later⟩

/-- Updates keep what a waiting query finds when they cancel nothing of the name, schedule it in the past
and put no row under it without a past entry. -/
theorem Kernel.Passed.updates (h : k.Passed name) (writable : k.Writable) {us : List Update}
    (kept : .cancel name.1 name.2.1 name.2.2 ∉ us) (opened : .close name.1 ∉ us)
    (late : ∀ time, .schedule name.1 time name.2.1 name.2.2 ∈ us → time < k.now)
    (puts : ∀ type ∈ typeRegs, ∀ value, .put name.1 (keyRow name.2.1 name.2.2 type) value ∈ us →
      k.Due name ∨ ∃ time, 0 ≤ time ∧ .schedule name.1 time name.2.1 name.2.2 ∈ us) : (k.updates us).Passed name := by
  rcases h with due | absent
  · exact .inl (due_updates (.inl due) kept opened late)
  · by_cases put : ∃ type ∈ typeRegs, ∃ value, .put name.1 (keyRow name.2.1 name.2.2 type) value ∈ us
    · obtain ⟨type, known, value, put⟩ := put
      exact .inl (due_updates (puts type known value put) kept opened late)
    · refine .inr (registered_none.mpr fun type known => ?_)
      rw [get_updates writable, ← Option.not_isSome_iff_eq_none]
      intro here
      rcases contents_isSome here with here | ⟨value, here⟩
      · simp [registered_none.mp absent type known] at here
      · exact put ⟨type, known, value, here⟩

/-- A name none of whose rows is left has passed. -/
theorem passed_of_rows (writable : k.Writable) {us : List Update}
    (rows : ∀ type ∈ typeRegs, contents us k.get name.1 (keyRow name.2.1 name.2.2 type) = none) :
    (k.updates us).Passed name :=
  .inr (registered_none.mpr fun type known => by rw [get_updates writable, rows type known])

end

/-! ## What a request must not do -/

/-- A delete query of the name waits. -/
def Awaited (expired : List ExpireEntry) (name : Name) : Prop := ∃ e ∈ expired, e.name = name

instance (expired : List ExpireEntry) (name : Name) : Decidable (Awaited expired name) := by
  unfold Awaited
  infer_instance

def Request.name (r : Request) : Name := (r.database, r.key, r.select)

/-- The name that gets the entry when a key is brought to another place. -/
def Request.destination (r : Request) : Option Name :=
  match r.cls with
  | .rename | .renamenx | .copy => some (r.database, r.value, r.select)
  | .move | .clone => some (r.database, r.key, convtoUnsigned r.value)
  | .transfer => r.transfDb.map fun target => (target, r.key, r.select)
  | _ => none

/-- No row but the KEY row is there. -/
def Kernel.OnlyKey (k : Kernel) (name : Name) : Prop :=
  ∀ type ∈ typeRegs, type ≠ intKey → k.get name.1 (keyRow name.2.1 name.2.2 type) = none

instance (r : Request) (k : Kernel) : Decidable (r.Expiring k) := by
  unfold Request.Expiring
  infer_instance

/-- A name for which a delete query waits gets no key without a past entry, and keeps none when its entry goes. -/
def Request.SparesAwaited (P : Platform) (r : Request) (k : Kernel) (expired : List ExpireEntry) : Prop :=
  k.Opened r.database →
    match r.cls with
    | .setex => r.registered k = some intKey ∨ r.registered k = none → Awaited expired r.name →
      toSigned r.id < k.now ∧ (0 ≤ toSigned r.id ∨ k.Due r.name)
    | .expire | .expireat | .getexp => r.registered k = some intKey → Awaited expired r.name → toSigned r.id < k.now
    | .expireDel | .getpersist => r.registered k = some intKey → ¬ Awaited expired r.name
    | .del => r.Expiring k → Awaited expired r.name → k.OnlyKey r.name
    | .rename | .renamenx | .copy | .move | .clone | .transfer =>
      ∀ type ∈ r.registered k, Allows r.cls k r type →
        (∀ name ∈ r.destination, Awaited expired name →
          if r.Expiring k then r.ttl k < k.now else r.target = some name → k.Due name) ∧
        (r.cls ∉ [.copy, .clone] → r.Expiring k → Awaited expired r.name → k.OnlyKey r.name)
    | .wdel => ∀ found ∈ Run.matchedKeys P k r.plain, ∀ key ∈ [found.2, r.key], Awaited expired (r.database, key, r.select) →
      ∀ type ∈ typeRegs, keyRow key r.select type ∉ (Run.matchedKeys P k r.plain).map (·.1) →
        k.get r.database (keyRow key r.select type) = none
    | .futureExec => r.registered k = none → (k.get r.database (futureRow r.key r.select r.database)).isSome →
      Awaited expired r.name → k.Due r.name
    | _ => r.cls.queryType = .write → r.registered k = none → Awaited expired r.name → k.Due r.name

instance (P : Platform) (r : Request) (k : Kernel) (expired : List ExpireEntry) :
    Decidable (r.SparesAwaited P k expired) := by
  unfold Request.SparesAwaited Kernel.Opened Kernel.OnlyKey
  generalize r.cls = c
  -- unlike `split` it leaves no equations in the data
  induction c using QueryClass.casesOn <;> infer_instance

section
variable {P : Platform} {k : Kernel} {r : Request} {us : List Update} {expired : List ExpireEntry} {name : Name}

theorem signed_ttl (expiring : r.Expiring k) : toSigned (r.ttl k).toNat = r.ttl k := by
  have positive := expiring.2
  have high : r.ttl k < 2 ^ 31 := by
    unfold Request.ttl Kernel.expireTime
    split
    · exact toSigned_lt _
    · norm_num
  rw [Int.toNat_of_nonneg positive.le, toSigned_of_range (by omega) high]

/-- A row that is erased and not put is gone. -/
theorem contents_erased {g : Contents} {db row : Bytes} (erased : .erase db row ∈ us)
    (unput : ∀ value, .put db row value ∉ us) : contents us g db row = none := by
  induction us generalizing g with
  | nil => simp at erased
  | cons u us ih =>
    rcases List.mem_cons.mp erased with rfl | later
    · rw [contents_cons, ← Option.not_isSome_iff_eq_none]
      intro here
      rcases contents_isSome here with here | ⟨value, put⟩
      · simp [Update.contents] at here
      · exact unput value (List.mem_cons_of_mem _ put)
    · exact ih later fun value put => unput value (List.mem_cons_of_mem _ put)

theorem Kernel.Passed.due (h : k.Passed r.name) {type : Bytes} (registered : r.registered k = some type) : k.Due r.name := by
  rcases h with due | absent
  · exact due
  · exact absurd registered (by rw [show r.registered k = none from absent]; simp)

/-- What WRITE commands store under a new name, the name is due. -/
theorem Request.SparesAwaited.stored (spares : r.SparesAwaited P k expired) (opened : k.Opened r.database)
    (writes : r.cls.Writes) (kind : r.cls.queryType = .write) (absent : r.registered k = none)
    (awaited : Awaited expired r.name) : k.Due r.name := by
  have spares := spares opened
  obtain ⟨P, run, body⟩ := writes
  split at spares
  all_goals first | exact spares kind absent awaited | simp_all [QueryClass.body, QueryClass.queryType]

theorem Request.SparesAwaited.brought (spares : r.SparesAwaited P k expired) (opened : k.Opened r.database)
    (dest : r.destination = some name) {type : Bytes} (registered : r.registered k = some type)
    (allows : Allows r.cls k r type) (awaited : Awaited expired name) :
    if r.Expiring k then r.ttl k < k.now else r.target = some name → k.Due name := by
  have spares := spares opened
  split at spares
  case h_8 | h_9 | h_10 | h_11 | h_12 | h_13 => exact (spares type registered allows).1 name dest awaited
  all_goals simp_all [Request.destination]

/-- A key without a deadline is brought to a name that is due. -/
theorem Request.SparesAwaited.lasting (spares : r.SparesAwaited P k expired) (opened : k.Opened r.database)
    (place : r.target = some name) {type : Bytes} (registered : r.registered k = some type)
    (allows : Allows r.cls k r type) (awaited : Awaited expired name) (lasting : ¬ r.Expiring k) : k.Due name := by
  have dest : r.destination = some name := by
    unfold Request.target at place
    unfold Request.destination
    split at place <;> simp_all
  have due := spares.brought opened dest registered allows awaited
  rw [if_neg lasting] at due
  exact due place

/-- A key with a deadline is brought to a name with the deadline in the past. -/
theorem Request.SparesAwaited.late (spares : r.SparesAwaited P k expired) (opened : k.Opened r.database)
    (dest : r.destination = some name) (expiring : r.Expiring k) (allows : Allows r.cls k r intKey)
    (awaited : Awaited expired name) : toSigned (r.ttl k).toNat < k.now := by
  have late := spares.brought opened dest expiring.1 allows awaited
  rw [if_pos expiring] at late
  rwa [signed_ttl expiring]

theorem Request.SparesAwaited.left (spares : r.SparesAwaited P k expired) (opened : k.Opened r.database)
    (cls : r.cls ∈ [.rename, .renamenx, .move, .transfer]) (expiring : r.Expiring k) (allows : Allows r.cls k r intKey)
    (awaited : Awaited expired r.name) : k.OnlyKey r.name := by
  have spares := spares opened
  simp only [List.mem_cons, List.not_mem_nil, or_false] at cls
  rcases cls with cls | cls | cls | cls <;>
    (simp only [cls] at spares allows; exact (spares intKey expiring.1 allows).2 (by simp) expiring awaited)

/-- The updates of a request leave each waiting query a past entry or no key. -/
theorem Kernel.Passed.outcome (h : k.Passed name) (writable : k.Writable) (awaited : Awaited expired name)
    (newSelect : r.NewSelect) (elsewhere : r.cls = .transfer → r.transfDb ≠ some r.database) (opened : k.Opened r.database)
    (spares : r.SparesAwaited P k expired) (outcome : Outcome P k r us) (still : .close name.1 ∉ us) :
    (k.updates us).Passed name := by
  have stored := spares.stored opened
  have keeps := spares opened
  obtain ⟨db, key, select⟩ := name
  have expiry {type : Bytes} (known : type ∈ typeRegs) (key key' db : Bytes) (select select' : ℕ) :
      keyRow key select type ≠ expireRow key' select' db := (expireRow_ne_keyRow known).symm
  have planned {type : Bytes} (known : type ∈ typeRegs) (key key' db : Bytes) (select select' : ℕ) :
      keyRow key select type ≠ futureRow key' select' db := (futureRow_ne_keyRow known).symm
  cases outcome with
  | unchanged => simpa using h
  | @stored type value writes place =>
    refine h.updates writable (by simp) still (by simp) fun type' known v put => .inl ?_
    obtain ⟨rfl, row, -⟩ : db = r.database ∧ keyRow key select type' = keyRow r.key r.select type ∧ v = value := by
      simpa [Request.row] using put
    obtain ⟨rfl, rfl, -⟩ := keyRow_inj.mp row
    rcases place with registered | ⟨absent, kind, -⟩
    · exact h.due registered
    · exact stored writes kind absent awaited
  | setex cls place =>
    simp only [cls] at keeps
    refine h.updates writable (by simp) still ?_ fun type known v put => ?_
    · intro time scheduled
      obtain ⟨rfl, moment, rfl, rfl⟩ : db = r.database ∧ time = toSigned r.id ∧ key = r.key ∧ select = r.select := by
        simpa using scheduled
      rw [moment]
      exact (keeps place awaited).1
    · obtain ⟨rfl, row, -⟩ : db = r.database ∧ keyRow key select type = keyRow r.key r.select intKey ∧ _ := by
        simpa [Request.row, expiry known] using put
      obtain ⟨rfl, rfl, -⟩ := keyRow_inj.mp row
      rcases (keeps place awaited).2 with low | due
      · exact .inr ⟨_, low, by simp⟩
      · exact .inl due
  | deadline cls registered =>
    refine h.updates writable (by simp) still ?_ fun type known v put => ?_
    · intro time scheduled
      obtain ⟨rfl, moment, rfl, rfl⟩ : db = r.database ∧ time = toSigned r.id ∧ key = r.key ∧ select = r.select := by
        simpa using scheduled
      rw [moment]
      simp only [List.mem_cons, List.not_mem_nil, or_false] at cls
      rcases cls with cls | cls | cls <;> (simp only [cls] at keeps; exact keeps registered awaited)
    · simp [expiry known] at put
  | persisted cls registered =>
    refine h.updates writable (fun cancelled => ?_) still (by simp) fun type known v put => by simp at put
    obtain ⟨rfl, rfl, rfl⟩ : db = r.database ∧ key = r.key ∧ select = r.select := by simpa using cancelled
    simp only [List.mem_cons, List.not_mem_nil, or_false] at cls
    rcases cls with cls | cls <;> (simp only [cls] at keeps; exact keeps registered awaited)
  | @renamed type value cls registered allows held lasting =>
    have place := target_renamed (List.mem_append_left [QueryClass.copy] cls)
    refine h.updates writable (by simp) still (by simp) fun type' known v put => .inl ?_
    obtain ⟨rfl, row, -⟩ : db = r.database ∧ keyRow key select type' = keyRow r.value r.select type ∧ v = value := by
      simpa using put
    obtain ⟨rfl, rfl, -⟩ := keyRow_inj.mp row
    exact spares.lasting opened place registered allows awaited lasting
  | renamedExpiring cls expiring allows held =>
    have dest : r.destination = some (r.database, r.value, r.select) := by
      simp only [List.mem_cons, List.not_mem_nil, or_false] at cls
      rcases cls with cls | cls <;> simp [Request.destination, cls]
    by_cases own : (db, key, select) = r.name
    · obtain ⟨rfl, rfl, rfl⟩ : db = r.database ∧ key = r.key ∧ select = r.select := by simpa [Request.name] using own
      have only : ∀ type ∈ typeRegs, type ≠ intKey → k.get r.database (keyRow r.key r.select type) = none :=
        spares.left opened (List.mem_append_left [QueryClass.move, .transfer] cls) expiring allows awaited
      refine passed_of_rows writable fun type known => ?_
      by_cases same : type = intKey
      · simp [Update.contents, Request.row, same, expireRow_ne_intKey.symm]
      · simp [Update.contents, Request.row, expiry known, keyRow_inj, same, only type known same]
    · refine h.updates writable (by simpa [Request.name] using own) still ?_ fun type known v put => .inr ?_
      · intro time scheduled
        obtain ⟨rfl, moment, rfl, rfl⟩ : db = r.database ∧ time = toSigned (r.ttl k).toNat ∧ key = r.value ∧
            select = r.select := by simpa using scheduled
        exact moment ▸ spares.late opened dest expiring allows awaited
      · obtain ⟨rfl, row, -⟩ : db = r.database ∧ keyRow key select type = keyRow r.value r.select intKey ∧ _ := by
          simpa [expiry known] using put
        obtain ⟨rfl, rfl, -⟩ := keyRow_inj.mp row
        exact ⟨_, (signed_ttl expiring).symm ▸ expiring.2.le, by simp⟩
  | @copied type value cls registered allows held lasting =>
    refine h.updates writable (by simp) still (by simp) fun type' known v put => .inl ?_
    obtain ⟨rfl, row, -⟩ : db = r.database ∧ keyRow key select type' = keyRow r.value r.select type ∧ v = value := by
      simpa using put
    obtain ⟨rfl, rfl, -⟩ := keyRow_inj.mp row
    exact spares.lasting opened (target_renamed (by simp [cls])) registered allows awaited lasting
  | copiedExpiring cls expiring allows held =>
    have dest : r.destination = some (r.database, r.value, r.select) := by simp [Request.destination, cls]
    refine h.updates writable (by simp) still ?_ fun type known v put => .inr ?_
    · intro time scheduled
      obtain ⟨rfl, moment, rfl, rfl⟩ : db = r.database ∧ time = toSigned (r.ttl k).toNat ∧ key = r.value ∧
          select = r.select := by simpa using scheduled
      exact moment ▸ spares.late opened dest expiring allows awaited
    · obtain ⟨rfl, row, -⟩ : db = r.database ∧ keyRow key select type = keyRow r.value r.select intKey ∧ _ := by
        simpa [expiry known] using put
      obtain ⟨rfl, rfl, -⟩ := keyRow_inj.mp row
      exact ⟨_, (signed_ttl expiring).symm ▸ expiring.2.le, by simp⟩
  | copiedNothing value cls absent free =>
    refine h.updates writable (by simp) still (by simp) fun type known v put => ?_
    obtain ⟨-, row, -⟩ : db = r.database ∧ keyRow key select type = keyRow r.value r.select processNull ∧ v = value := by
      simpa using put
    exact absurd (keyRow_inj.mp row).2.2 (typeRegs_ne_null known)
  | @moved type value cls registered allows held lasting =>
    refine h.updates writable (by simp) still (by simp) fun type' known v put => .inl ?_
    obtain ⟨rfl, row, -⟩ : db = r.database ∧ keyRow key select type' = rowName r.key r.value type ∧ v = value := by
      simpa using put
    obtain ⟨place, rfl, -, -⟩ := movedRow newSelect (by simp [cls]) row
    exact spares.lasting opened place registered allows awaited lasting
  | @cloned type value cls registered allows held lasting =>
    refine h.updates writable (by simp) still (by simp) fun type' known v put => .inl ?_
    obtain ⟨rfl, row, -⟩ : db = r.database ∧ keyRow key select type' = rowName r.key r.value type ∧ v = value := by
      simpa using put
    obtain ⟨place, rfl, -, -⟩ := movedRow newSelect (by simp [cls]) row
    exact spares.lasting opened place registered allows awaited lasting
  | @transferred type value target cls registered allows goal held lasting =>
    refine h.updates writable (by simp) still (by simp) fun type' known v put => .inl ?_
    obtain ⟨rfl, row, -⟩ : db = target ∧ keyRow key select type' = keyRow r.key r.select type ∧ v = value := by
      simpa [Request.row] using put
    obtain ⟨rfl, rfl, -⟩ := keyRow_inj.mp row
    exact spares.lasting opened (target_transferred cls goal) registered allows awaited lasting
  | movedExpiring cls expiring allows held =>
    have dest : r.destination = some (r.database, r.key, convtoUnsigned r.value) := by simp [Request.destination, cls]
    have expiry {type : Bytes} (known : type ∈ typeRegs) (key : Bytes) (select : ℕ) :
        keyRow key select type ≠ rowName r.key r.value (ownedType intExpire r.database) := fun row =>
      ownedType_not_mem _ _ ((movedRow newSelect (by simp [cls]) row).2.2.2 ▸ known)
    by_cases own : (db, key, select) = r.name
    · obtain ⟨rfl, rfl, rfl⟩ : db = r.database ∧ key = r.key ∧ select = r.select := by simpa [Request.name] using own
      have only : ∀ type ∈ typeRegs, type ≠ intKey → k.get r.database (keyRow r.key r.select type) = none :=
        spares.left opened (by simp [cls]) expiring allows awaited
      refine passed_of_rows writable fun type known => ?_
      by_cases same : type = intKey
      · subst same
        simp [Update.contents, Request.row, expiry known]
      · have other : keyRow r.key r.select type ≠ rowName r.key r.value intKey := fun row =>
          same (movedRow newSelect (by simp [cls]) row).2.2.2
        simp [Update.contents, Request.row, expiry known, keyRow_inj, same, other, only type known same]
    · refine h.updates writable (by simpa [Request.name] using own) still ?_ fun type known v put => .inr ?_
      · intro time scheduled
        obtain ⟨rfl, moment, rfl, rfl⟩ : db = r.database ∧ time = toSigned (r.ttl k).toNat ∧ key = r.key ∧
            select = convtoUnsigned r.value := by simpa using scheduled
        exact moment ▸ spares.late opened dest expiring allows awaited
      · obtain ⟨rfl, row, -⟩ : db = r.database ∧ keyRow key select type = rowName r.key r.value intKey ∧ _ := by
          simpa [expiry known] using put
        obtain ⟨-, rfl, rfl, -⟩ := movedRow newSelect (by simp [cls]) row
        exact ⟨_, (signed_ttl expiring).symm ▸ expiring.2.le, by simp⟩
  | clonedExpiring cls expiring allows =>
    have dest : r.destination = some (r.database, r.key, convtoUnsigned r.value) := by simp [Request.destination, cls]
    refine h.updates writable (by simp) still ?_ fun type known v put => .inr ?_
    · intro time scheduled
      obtain ⟨rfl, moment, rfl, rfl⟩ : db = r.database ∧ time = toSigned (r.ttl k).toNat ∧ key = r.key ∧
          select = convtoUnsigned r.value := by simpa using scheduled
      exact moment ▸ spares.late opened dest expiring allows awaited
    · obtain ⟨rfl, row, -⟩ : db = r.database ∧ keyRow key select type = rowName r.key r.value intKey ∧ _ := by
        simpa [expiry known] using put
      obtain ⟨-, rfl, rfl, -⟩ := movedRow newSelect (by simp [cls]) row
      exact ⟨_, (signed_ttl expiring).symm ▸ expiring.2.le, by simp⟩
  | @transferredExpiring value target cls expiring allows goal held =>
    have other : target ≠ r.database := fun same => elsewhere cls (same ▸ goal)
    have dest : r.destination = some (target, r.key, r.select) := by simp [Request.destination, cls, goal]
    by_cases own : (db, key, select) = r.name
    · obtain ⟨rfl, rfl, rfl⟩ : db = r.database ∧ key = r.key ∧ select = r.select := by simpa [Request.name] using own
      have only : ∀ type ∈ typeRegs, type ≠ intKey → k.get r.database (keyRow r.key r.select type) = none :=
        spares.left opened (by simp [cls]) expiring allows awaited
      refine passed_of_rows writable fun type known => ?_
      by_cases same : type = intKey
      · simp [Update.contents, Request.row, same]
      · simp [Update.contents, Request.row, other.symm, expiry known, keyRow_inj, same, only type known same]
    · refine h.updates writable (by simpa [Request.name] using own) still ?_ fun type known v put => .inr ?_
      · intro time scheduled
        obtain ⟨rfl, moment, rfl, rfl⟩ : db = target ∧ time = toSigned (r.ttl k).toNat ∧ key = r.key ∧
            select = r.select := by simpa using scheduled
        exact moment ▸ spares.late opened dest expiring allows awaited
      · obtain ⟨rfl, row, -⟩ : db = target ∧ keyRow key select type = keyRow r.key r.select intKey ∧ _ := by
          simpa [Request.row, expiry known] using put
        obtain ⟨rfl, rfl, -⟩ := keyRow_inj.mp row
        exact ⟨_, (signed_ttl expiring).symm ▸ expiring.2.le, by simp⟩
  | deletedExpiring cls expiring =>
    simp only [cls] at keeps
    by_cases own : (db, key, select) = r.name
    · obtain ⟨rfl, rfl, rfl⟩ : db = r.database ∧ key = r.key ∧ select = r.select := by simpa [Request.name] using own
      have only : ∀ type ∈ typeRegs, type ≠ intKey → k.get r.database (keyRow r.key r.select type) = none :=
        keeps expiring awaited
      refine passed_of_rows writable fun type known => ?_
      by_cases same : type = intKey
      · simp [Update.contents, Request.row, same]
      · simp [Update.contents, Request.row, expiry known, keyRow_inj, same, only type known same]
    · exact h.updates writable (by simpa [Request.name] using own) still (by simp) fun type known v put => by simp at put
  | wiped cls =>
    simp only [cls] at keeps
    by_cases cancelled : ∃ found ∈ Run.matchedKeys P k r.plain, db = r.database ∧ key ∈ [found.2, r.key] ∧ select = r.select
    · obtain ⟨found, hfound, rfl, hkey, rfl⟩ := cancelled
      refine passed_of_rows writable fun type known => ?_
      have unput (value : Bytes) : .put r.database (keyRow key r.select type) value ∉
          (Run.matchedKeys P k r.plain).flatMap (wipe r) := by simp [wipe]
      by_cases erased : keyRow key r.select type ∈ (Run.matchedKeys P k r.plain).map (·.1)
      · obtain ⟨f, hf, row⟩ := List.mem_map.mp erased
        exact contents_erased (List.mem_flatMap.mpr ⟨f, hf, by simp [wipe, row]⟩) unput
      · rw [← Option.not_isSome_iff_eq_none]
        intro here
        rcases contents_isSome here with here | ⟨value, put⟩
        · simp [keeps found hfound key hkey awaited type known erased] at here
        · exact unput value put
    · refine h.updates writable (fun cancel => cancelled ?_) still (by simp [wipe]) fun type known v put => by
        simp [wipe] at put
      obtain ⟨found, hfound, cancel⟩ := List.mem_flatMap.mp cancel
      have either : db = r.database ∧ key = found.2 ∧ select = r.select ∨
          db = r.database ∧ key = r.key ∧ select = r.select := by
        simpa [wipe] using cancel
      refine ⟨found, hfound, ?_⟩
      rcases either with ⟨rfl, rfl, rfl⟩ | ⟨rfl, rfl, rfl⟩ <;> simp
  | applied cls held place =>
    simp only [cls] at keeps
    refine h.updates writable (by simp) still (by simp) fun type known v put => .inl ?_
    obtain ⟨rfl, row, -⟩ : db = r.database ∧ keyRow key select type = keyRow r.key r.select intKey ∧ _ := by
      simpa [Request.row] using put
    obtain ⟨rfl, rfl, -⟩ := keyRow_inj.mp row
    rcases place with registered | absent
    · exact h.due registered
    · exact keeps absent (by simp [held]) awaited
  | planned cls =>
    exact h.updates writable (by simp) still (by simp) fun type known v put => by simp [planned known] at put
  | stray value cls absent field =>
    exact h.updates writable (by simp) still (by simp) fun type known v put => by simp [keyRow, rowName] at put
  | _ => exact h.updates writable (by simp) still (by simp) fun type known v put => by simp at put

end

namespace Server

variable {P : Platform} {s t : Server} {a : Event}

/-- The condition on a step, for the delete queries that wait beside it. -/
def SparesAwaited (P : Platform) (s : Server) : Event → Prop
  | .request r => r.SparesAwaited P s.kernel s.expired
  | .tick _ => True
  | .expire e => e.expireDelete.SparesAwaited P s.kernel (s.expired.erase e)

instance (P : Platform) (s : Server) (a : Event) : Decidable (SparesAwaited P s a) :=
  match a with
  | .request _ | .tick _ | .expire _ => by unfold SparesAwaited; infer_instance

/-- Every waiting delete query of an open database finds a past entry or no key. -/
structure Punctual (s : Server) : Prop where
  writable : s.kernel.Writable
  passed : ∀ name, Awaited s.expired name → s.kernel.Opened name.1 → s.kernel.Passed name

theorem Punctual.tick (h : Punctual s) {time : ℤ} (later : s.kernel.now ≤ time) :
    Punctual { kernel := { s.kernel with now := time }, expired := s.expired ++ s.kernel.dueExpires time } where
  writable := h.writable
  passed name awaited opened := by
    obtain ⟨e, he, rfl⟩ := awaited
    rcases List.mem_append.mp he with old | new
    · rcases h.passed e.name ⟨e, old, rfl⟩ opened with ⟨entry, hentry, same, past⟩ | absent
      · exact .inl ⟨entry, hentry, same, lt_of_lt_of_le past later⟩
      · exact .inr absent
    · exact .inl ⟨e, (List.takeWhile_sublist _).mem new, rfl, by simpa using List.mem_takeWhile_imp new⟩

/-- A step of a request, for the queries that wait beside it. -/
theorem Punctual.execute {r : Request} (h : Punctual s) {expired : List ExpireEntry} (fewer : ∀ e ∈ expired, e ∈ s.expired)
    (client : r.Client) (newSelect : r.NewSelect) (elsewhere : r.cls = .transfer → r.transfDb ≠ some r.database)
    (spares : r.SparesAwaited P s.kernel expired) : Punctual { kernel := s.kernel.execute P r, expired } := by
  obtain ⟨writable, passed⟩ := h
  have before (name : Name) (awaited : Awaited expired name) : Awaited s.expired name :=
    let ⟨e, he, same⟩ := awaited
    ⟨e, fewer e he, same⟩
  obtain same | ⟨here, us, outcome, updated⟩ := execute_outcome P writable client
  · rw [same]
    exact ⟨writable, fun name awaited opened => passed name (before name awaited) opened⟩
  · rw [updated]
    refine ⟨writable.updates us, fun name awaited opened => ?_⟩
    obtain ⟨open', still⟩ := (opened_updates writable us name.1).mp opened
    exact (passed name (before name awaited) open').outcome writable awaited newSelect elsewhere here spares outcome still

theorem Punctual.next (h : Punctual s) (spares : SparesAwaited P s a) (step : next P s a = some t) : Punctual t := by
  cases a with
  | request r =>
    simp only [Server.next, Option.ite_none_right_eq_some, Option.some.injEq] at step
    obtain ⟨accepted, rfl⟩ := step
    exact h.execute (fun e he => he) accepted.toClient accepted.newSelect accepted.elsewhere spares
  | tick time =>
    simp only [Server.next, Option.ite_none_right_eq_some, Option.some.injEq] at step
    obtain ⟨later, rfl⟩ := step
    exact h.tick later
  | expire e =>
    simp only [Server.next, Option.ite_none_right_eq_some, Option.some.injEq] at step
    obtain ⟨pushed, rfl⟩ := step
    exact h.execute (fun e' he => List.mem_of_mem_erase he) (expireDelete_client e) (expireDelete_newSelect e) (by
      simp [ExpireEntry.expireDelete]) spares

/-- A delete query of the timer changes the store only when the entry is past as it runs. -/
theorem due_deletes (h : (machine P).Reach (SparesAwaited P) s) {e : ExpireEntry} (pushed : e ∈ s.expired)
    (changed : s.kernel.execute P e.expireDelete ≠ s.kernel) :
    ∃ entry ∈ s.kernel.expires, entry.name = e.name ∧ entry.schedule < s.kernel.now := by
  have punctual : Punctual s := h.invariant
    (fun s hs => ⟨hs.writable, fun name ⟨e, he, _⟩ => by simp [hs.expired] at he⟩)
    fun s a t hs spares step => hs.next spares step
  obtain same | ⟨opened, us, outcome, updated⟩ := execute_outcome P punctual.writable (expireDelete_client e)
  · exact absurd same changed
  · rcases punctual.passed e.name ⟨e, pushed, rfl⟩ opened with due | absent
    · exact due
    · have absent : e.expireDelete.registered s.kernel = none := absent
      obtain rfl | ⟨type, registered, -⟩ | ⟨expiring, -⟩ := outcome.del rfl
      · exact absurd (updated.trans (updates_nil _)) changed
      · simp [absent] at registered
      · exact absurd expiring.1 (by simp [absent])

/-- SETEX, a tick that pushes the delete query, and the query. -/
theorem due_deletes_setex : ∃ s, (machine integers).Reach (SparesAwaited integers) s ∧ ∃ e ∈ s.expired,
    s.kernel.execute integers e.expireDelete ≠ s.kernel ∧
      ∃ entry ∈ s.kernel.expires, entry.name = e.name ∧ entry.schedule < s.kernel.now := by
  have h : ((machine integers).exec (SparesAwaited integers) fresh [
      .request { cls := .setex, database := lit "db", key := lit "k", select := 1, value := lit "v", id := 100 },
      .tick 101]).any fun s => ⟨lit "db", lit "k", 1, 100⟩ ∈ s.expired ∧
        (s.kernel.execute integers (ExpireEntry.expireDelete ⟨lit "db", lit "k", 1, 100⟩)).expires ≠
          s.kernel.expires := by decide
  obtain ⟨s, reached, pushed, changed⟩ := Machine.exec_holds h (.initial fresh_initial)
  have changed' : s.kernel.execute integers (ExpireEntry.expireDelete ⟨lit "db", lit "k", 1, 100⟩) ≠ s.kernel :=
    fun same => changed (congrArg Kernel.expires same)
  exact ⟨s, reached, _, pushed, changed', due_deletes reached pushed changed'⟩

/-- PERSIST behind the tick takes the entry away, and the waiting query deletes the key. -/
theorem persisted_key_deleted : ∃ s, (machine integers).Reachable s ∧ ∃ e ∈ s.expired,
    s.kernel.execute integers e.expireDelete ≠ s.kernel ∧
      ¬ ∃ entry ∈ s.kernel.expires, entry.name = e.name ∧ entry.schedule < s.kernel.now := by
  have h : ((machine integers).exec (fun _ _ => True) fresh [
      .request { cls := .setex, database := lit "db", key := lit "k", select := 1, value := lit "v", id := 100 },
      .tick 101, command .expireDel (lit "k") []]).any fun s =>
        ⟨lit "db", lit "k", 1, 100⟩ ∈ s.expired ∧ s.kernel.expires = [] ∧
        (s.kernel.execute integers (ExpireEntry.expireDelete ⟨lit "db", lit "k", 1, 100⟩)).get (lit "db")
          (keyRow (lit "k") 1 intKey) ≠ s.kernel.get (lit "db") (keyRow (lit "k") 1 intKey) := by decide
  obtain ⟨s, reached, pushed, entries, changed⟩ := Machine.exec_holds h (.initial fresh_initial)
  refine ⟨s, reached, _, pushed, fun same => changed ?_, by simp [entries]⟩
  rw [same]

end Server
end BerylDB.Store
