import BerylDB.ExpiryTable

/-! # Entries without a key

An entry of `ExpireManager` names a KEY row, unless a command takes the row and leaves the entry. -/
namespace BerylDB.Store
open Text Transition Kernel

/-- On open databases every entry names a key that has a KEY row. -/
structure Anchored (opened : Bytes → Prop) (g : Contents) (d : Deadlines) : Prop where
  held : ∀ db, opened db → ∀ key select t, d db key select = some t → (g db (keyRow key select intKey)).isSome
  named : ∀ db, opened db → ∀ key select t, d db key select = some t → key ≠ []

/-- A row stays or comes when nothing erases it. -/
theorem isSome_contents {us : List Update} {g : Contents} {db row : Bytes}
    (here : (g db row).isSome ∨ ∃ value, .put db row value ∈ us) (kept : .erase db row ∉ us) :
    (contents us g db row).isSome := by
  induction us generalizing g with
  | nil => simpa using here
  | cons u us ih =>
    refine ih ?_ fun erased => kept (by simp [erased])
    rcases here with here | ⟨value, put⟩
    · left
      cases u with
      | put db' row' value => by_cases same : db = db' ∧ row = row' <;> simp [Update.contents, same, here]
      | erase db' row' =>
        have other : ¬ (db = db' ∧ row = row') := fun same => kept (by simp [same.1, same.2])
        simpa [Update.contents, other] using here
      | _ => exact here
    · rcases List.mem_cons.mp put with rfl | put
      · left
        simp [Update.contents]
      · exact .inr ⟨value, put⟩

/-- An entry stays or comes. -/
theorem of_deadlines {us : List Update} {d : Deadlines} {db key : Bytes} {select : ℕ} {t : ℤ}
    (found : deadlines us d db key select = some t) :
    d db key select = some t ∧ .cancel db key select ∉ us ∨ .schedule db t key select ∈ us := by
  induction us generalizing d with
  | nil => exact .inl ⟨found, by simp⟩
  | cons u us ih =>
    rcases ih found with ⟨before, kept⟩ | later
    · cases u with
      | schedule db' time key' select' =>
        by_cases same : 0 ≤ time ∧ db = db' ∧ key = key' ∧ select = select'
        · obtain rfl : time = t := by simpa [Update.deadlines, same] using before
          exact .inr (by simp [same.2])
        · exact .inl ⟨by simpa [Update.deadlines, same] using before, by simpa using kept⟩
      | cancel db' key' select' =>
        by_cases same : db = db' ∧ key = key' ∧ select = select'
        · simp [Update.deadlines, same] at before
        · refine .inl ⟨by simpa [Update.deadlines, same] using before, ?_⟩
          simpa [kept] using fun h1 h2 h3 => same ⟨h1, h2, h3⟩
      | close db' =>
        by_cases same : db = db'
        · simp [Update.deadlines, same] at before
        · exact .inl ⟨by simpa [Update.deadlines, same] using before, by simpa using kept⟩
      | _ => exact .inl ⟨before, by simpa using kept⟩
    · exact .inr (by simp [later])

theorem Anchored.updates {opened : Bytes → Prop} {g : Contents} {d : Deadlines} {us : List Update}
    (h : Anchored opened g d)
    (kept : ∀ db key select t, opened db → d db key select = some t → .cancel db key select ∉ us →
      .erase db (keyRow key select intKey) ∉ us)
    (new : ∀ db key select time, opened db → .schedule db time key select ∈ us →
      key ≠ [] ∧ .erase db (keyRow key select intKey) ∉ us ∧
        ((g db (keyRow key select intKey)).isSome ∨ ∃ value, .put db (keyRow key select intKey) value ∈ us)) :
    Anchored opened (contents us g) (deadlines us d) := by
  constructor
  · intro db hdb key select t found
    rcases of_deadlines found with ⟨before, uncancelled⟩ | scheduled
    · exact isSome_contents (.inl (h.held db hdb key select t before)) (kept db key select t hdb before uncancelled)
    · obtain ⟨-, unerased, here⟩ := new db key select t hdb scheduled
      exact isSome_contents here unerased
  · intro db hdb key select t found
    rcases of_deadlines found with ⟨before, -⟩ | scheduled
    · exact h.named db hdb key select t before
    · exact (new db key select t hdb scheduled).1

/-! ## What a request must not do -/

/-- The rows a scan deletes are no KEY rows of entries. -/
def Kernel.SparesKeys (k : Kernel) (db : Bytes) (rows : List Bytes) : Prop :=
  ∀ e ∈ k.expires, e.database = db → keyRow e.key e.select intKey ∉ rows

/-- The place of MOVE and CLONE will have a KEY row: they write it, or it is there. -/
def Request.Lands (r : Request) (k : Kernel) : Prop :=
  convtoString (convtoUnsigned r.value) = r.value ∨
    (k.get r.database (keyRow r.key (convtoUnsigned r.value) intKey)).isSome

/-- A KEY row goes with its entry, and no entry is added beside one at time 0. -/
def Request.KeepsKeys (P : Platform) (r : Request) (k : Kernel) : Prop :=
  k.Opened r.database →
    match r.cls with
    | .setex => r.registered k = some intKey ∨ r.registered k = none → 0 ≤ toSigned r.id →
      k.deadline r.database r.key r.select ≠ some 0
    | .expire | .expireat | .getexp => r.registered k = some intKey → 0 ≤ toSigned r.id →
      k.deadline r.database r.key r.select ≠ some 0
    | .getdel | .ldel | .vdel | .hdel | .mdel => r.registered k = some intKey →
      k.deadline r.database r.key r.select = none
    | .del => r.registered k = some intKey → k.deadline r.database r.key r.select ≠ some 0
    | .rename | .renamenx => r.registered k = some intKey → Allows r.cls k r intKey →
      k.deadline r.database r.key r.select ≠ some 0 ∧
        (r.Expiring k → r.value ≠ r.key ∧ k.deadline r.database r.value r.select ≠ some 0)
    | .copy => r.Expiring k → Allows r.cls k r intKey → k.deadline r.database r.value r.select ≠ some 0
    | .move => r.registered k = some intKey → Allows r.cls k r intKey →
      k.deadline r.database r.key r.select ≠ some 0 ∧
        (r.Expiring k → convtoUnsigned r.value ≠ r.select ∧ r.Lands k ∧
          k.deadline r.database r.key (convtoUnsigned r.value) ≠ some 0)
    | .clone => r.Expiring k → Allows r.cls k r intKey →
      r.Lands k ∧ k.deadline r.database r.key (convtoUnsigned r.value) ≠ some 0
    | .transfer => r.registered k = some intKey → Allows r.cls k r intKey →
      k.deadline r.database r.key r.select ≠ some 0 ∧
        (r.Expiring k → ∀ target ∈ r.transfDb, k.deadline target r.key r.select ≠ some 0)
    | .sflush => k.SparesKeys r.database (Run.sflushRows k r.plain)
    | .georem => k.SparesKeys r.database (Run.georemRows P k r.plain)
    | _ => True

instance (P : Platform) (r : Request) (k : Kernel) : Decidable (r.KeepsKeys P k) := by
  unfold Request.KeepsKeys Request.Lands Request.Expiring Kernel.Opened SparesKeys
  generalize r.cls = c
  -- unlike `split` it leaves no equations in the data
  induction c using QueryClass.casesOn <;> infer_instance

section
variable {P : Platform} {k : Kernel} {r : Request} {us : List Update}

theorem lasting_deadline (timed : Timed k.expires) (registered : r.registered k = some intKey)
    (lasting : ¬ r.Expiring k) (notZero : k.deadline r.database r.key r.select ≠ some 0) :
    k.deadline r.database r.key r.select = none := by
  cases found : k.deadline r.database r.key r.select with
  | none => rfl
  | some t =>
    obtain ⟨low, high⟩ := deadline_range timed found
    have positive : t ≠ 0 := fun zero => notZero (zero ▸ found)
    have time : r.ttl k = t := by
      have same : r.ttl k = (k.deadline r.database r.key r.select).getD (-1) := expireTime_eq timed
      rwa [found] at same
    exact absurd ⟨registered, by rw [time]; omega⟩ lasting

theorem removed_class {c : QueryClass} (deletes : c.mayDelete = true)
    (kind : c.queryType = .delete ∨ c.baseRequest = some intKey) :
    c ∈ [QueryClass.getdel, .ldel, .vdel, .hdel, .mdel] := by
  revert deletes kind
  cases c <;> decide

/-- A row that WDEL takes for a key is the row of that key. -/
theorem matchedKeys_name {found : Bytes × Bytes} (h : found ∈ Run.matchedKeys P k r.plain) {key : Bytes} {select : ℕ}
    (key_ne : key ≠ []) (row : found.1 = keyRow key select intKey) : found.2 = key ∧ select = r.select := by
  simp only [Run.matchedKeys, List.mem_filterMap, Option.map_eq_some_iff] at h
  obtain ⟨x, -, name, scanned, rfl⟩ := h
  obtain row : x.1 = keyRow key select intKey := row
  rw [row, colonTokens_keyRow _ _ key_ne, colonTokens_typeRegs (by decide)] at scanned
  obtain ⟨accepted, same⟩ : (_ ∧ convtoString select = convtoString r.select) ∧ key = name := by
    simpa [scanKey, Option.ite_none_right_eq_some] using scanned
  exact ⟨same.symm, convtoString_injective accepted.2⟩

/-- The only row of a key that an entry asks for is its KEY row. -/
theorem erase_row_ne {type db key : Bytes} {select : ℕ} {t : ℤ} (registered : r.registered k = some type)
    (none : type = intKey → k.deadline r.database r.key r.select = none) (found : k.deadline db key select = some t) :
    Update.erase db (keyRow key select intKey) ≠ .erase r.database (r.row type) := by
  intro same
  obtain ⟨rfl, row⟩ : db = r.database ∧ keyRow key select intKey = keyRow r.key r.select type := by
    simpa [Request.row] using same
  obtain ⟨rfl, rfl, rfl⟩ := keyRow_inj.mp row
  simp [none rfl] at found

/-- Updates that schedule nothing and erase no KEY row of an entry. -/
theorem Anchored.keep {opened : Bytes → Prop} {g : Contents} {d : Deadlines} (h : Anchored opened g d)
    (kept : ∀ db key select t, opened db → d db key select = some t → .cancel db key select ∉ us →
      .erase db (keyRow key select intKey) ∉ us)
    (old : ∀ db time key select, .schedule db time key select ∉ us) :
    Anchored opened (contents us g) (deadlines us d) :=
  h.updates kept fun db key select time _ scheduled => absurd scheduled (old db time key select)

theorem Anchored.del (h : Anchored k.Opened k.get k.deadline) (timed : Timed k.expires) (cls : r.cls = .del)
    (keeps : r.registered k = some intKey → k.deadline r.database r.key r.select ≠ some 0)
    (outcome : Outcome P k r us) : Anchored k.Opened (contents us k.get) (deadlines us k.deadline) := by
  obtain rfl | ⟨type, registered, lasting, rfl⟩ | ⟨expiring, rfl⟩ := outcome.del cls
  · exact h
  · refine h.keep (fun db key select t _ found _ => ?_) (by simp)
    have none (key : type = intKey) : k.deadline r.database r.key r.select = none := by
      subst key
      exact lasting_deadline timed registered lasting (keeps registered)
    simpa using erase_row_ne registered none found
  · refine h.keep (fun db key select t _ found uncancelled erased => uncancelled ?_) (by simp)
    simpa [Request.row, keyRow_inj, expireRow_ne_intKey.symm] using erased

theorem Anchored.outcome (h : Anchored k.Opened k.get k.deadline) (timed : Timed k.expires) (accepted : r.Accepted)
    (opened : k.Opened r.database) (keeps : r.KeepsKeys P k) (outcome : Outcome P k r us) :
    Anchored k.Opened (contents us k.get) (deadlines us k.deadline) := by
  have keeps := keeps opened
  have valid (kind : r.cls.queryType ≠ .skip) : r.key ≠ [] := keyValidator_ne_nil (accepted.key kind)
  have newKey (cls : r.cls ∈ [.rename, .renamenx, .copy]) : r.value ≠ [] := keyValidator_ne_nil (accepted.newKey cls)
  have timedKey : ∀ c ∈ [QueryClass.expire, .expireat, .getexp], c.queryType ≠ .skip := by decide
  have renameKey : ∀ c ∈ [QueryClass.rename, .renamenx], c.queryType ≠ .skip := by decide
  cases outcome with
  | unchanged => exact h
  | stored value writes place => exact h.keep (by simp) (by simp)
  | @removed type registered how =>
    refine h.keep (fun db key select t _ found _ => ?_) (by simp)
    have none (key : type = intKey) : k.deadline r.database r.key r.select = none := by
      subst key
      have classes := removed_class how.1 how.2
      simp only [List.mem_cons, List.not_mem_nil, or_false] at classes
      rcases classes with cls | cls | cls | cls | cls <;> (simp only [cls] at keeps; exact keeps registered)
    simpa using erase_row_ne registered none found
  | stray value cls absent field => exact h.keep (by simp) (by simp)
  | setex cls place =>
    refine h.updates (by simp [keyRow]) ?_
    intro db key select time _ scheduled
    obtain ⟨rfl, -, rfl, rfl⟩ : db = r.database ∧ time = toSigned r.id ∧ key = r.key ∧ select = r.select := by
      simpa using scheduled
    exact ⟨valid (by simp [cls, QueryClass.queryType]), by simp, .inr ⟨toBin r.value, by simp [Request.row]⟩⟩
  | deadline cls registered =>
    refine h.updates (by simp) ?_
    intro db key select time _ scheduled
    obtain ⟨rfl, -, rfl, rfl⟩ : db = r.database ∧ time = toSigned r.id ∧ key = r.key ∧ select = r.select := by
      simpa using scheduled
    obtain ⟨-, value, held⟩ := registered_some registered
    exact ⟨valid (timedKey r.cls cls), by simp, .inl (by rw [held]; rfl)⟩
  | persisted cls registered =>
    refine h.keep (fun db key select t _ found _ erased => ?_) (by simp)
    obtain ⟨-, row⟩ : db = r.database ∧ keyRow key select intKey = expireRow r.key r.select r.database := by
      simpa using erased
    exact expireRow_ne_intKey row.symm
  | @renamed type value cls registered allows held lasting =>
    refine h.keep (fun db key select t _ found _ => ?_) (by simp)
    have none (key : type = intKey) : k.deadline r.database r.key r.select = none := by
      subst key
      refine lasting_deadline timed registered lasting ?_
      simp only [List.mem_cons, List.not_mem_nil, or_false] at cls
      rcases cls with cls | cls <;> (simp only [cls] at keeps allows; exact (keeps registered allows).1)
    simpa using erase_row_ne registered none found
  | renamedExpiring cls expiring allows held =>
    have other : r.value ≠ r.key := by
      simp only [List.mem_cons, List.not_mem_nil, or_false] at cls
      rcases cls with cls | cls <;>
        (simp only [cls] at keeps allows; exact ((keeps expiring.1 allows).2 expiring).1)
    refine h.updates (fun db key select t _ found uncancelled erased => uncancelled ?_) ?_
    · simpa [Request.row, keyRow_inj] using erased
    · intro db key select time _ scheduled
      obtain ⟨rfl, -, rfl, rfl⟩ : db = r.database ∧ _ ∧ key = r.value ∧ select = r.select := by simpa using scheduled
      exact ⟨newKey (List.mem_append_left [QueryClass.copy] cls), by simpa [Request.row, keyRow_inj] using other,
        .inr ⟨_, by simp; exact .inl rfl⟩⟩
  | copied cls registered allows held lasting => exact h.keep (by simp) (by simp)
  | copiedExpiring cls expiring allows held =>
    refine h.updates (by simp) ?_
    intro db key select time _ scheduled
    obtain ⟨rfl, -, rfl, rfl⟩ : db = r.database ∧ _ ∧ key = r.value ∧ select = r.select := by simpa using scheduled
    exact ⟨newKey (by simp [cls]), by simp, .inr ⟨_, by simp; exact .inr rfl⟩⟩
  | copiedNothing value cls absent free => exact h.keep (by simp) (by simp)
  | @moved type value cls registered allows held lasting =>
    refine h.keep (fun db key select t _ found _ => ?_) (by simp)
    have none (key : type = intKey) : k.deadline r.database r.key r.select = none := by
      subst key
      simp only [cls] at keeps allows
      exact lasting_deadline timed registered lasting (keeps registered allows).1
    simpa using erase_row_ne registered none found
  | movedExpiring cls expiring allows held =>
    simp only [cls] at keeps allows
    obtain ⟨other, lands, -⟩ := (keeps expiring.1 allows).2 expiring
    refine h.updates (fun db key select t _ found uncancelled erased => uncancelled ?_) ?_
    · simpa [Request.row, keyRow_inj] using erased
    · intro db key select time _ scheduled
      obtain ⟨rfl, -, rfl, rfl⟩ : db = r.database ∧ _ ∧ key = r.key ∧ select = convtoUnsigned r.value := by
        simpa using scheduled
      refine ⟨valid (by simp [cls, QueryClass.queryType]), by simpa [Request.row, keyRow_inj] using other, ?_⟩
      rcases lands with canonical | here
      · right
        rw [keyRow, canonical]
        exact ⟨_, by simp; exact .inl rfl⟩
      · exact .inl here
  | cloned cls registered allows held lasting => exact h.keep (by simp) (by simp)
  | clonedExpiring cls expiring allows =>
    simp only [cls] at keeps allows
    obtain ⟨lands, -⟩ := keeps expiring allows
    refine h.updates (by simp) ?_
    intro db key select time _ scheduled
    obtain ⟨rfl, -, rfl, rfl⟩ : db = r.database ∧ _ ∧ key = r.key ∧ select = convtoUnsigned r.value := by
      simpa using scheduled
    refine ⟨valid (by simp [cls, QueryClass.queryType]), by simp, ?_⟩
    rcases lands with canonical | here
    · right
      rw [keyRow, canonical]
      exact ⟨_, by simp; exact .inr rfl⟩
    · exact .inl here
  | @transferred type value target cls registered allows goal held lasting =>
    refine h.keep (fun db key select t _ found _ => ?_) (by simp)
    have none (key : type = intKey) : k.deadline r.database r.key r.select = none := by
      subst key
      simp only [cls] at keeps allows
      exact lasting_deadline timed registered lasting (keeps registered allows).1
    simpa using erase_row_ne registered none found
  | @transferredExpiring value target cls expiring allows goal held =>
    have elsewhere : target ≠ r.database := fun same => accepted.elsewhere cls (same ▸ goal)
    refine h.updates (fun db key select t _ found uncancelled erased => uncancelled ?_) ?_
    · simpa [Request.row, keyRow_inj, expireRow_ne_intKey.symm] using erased
    · intro db key select time _ scheduled
      obtain ⟨rfl, -, rfl, rfl⟩ : db = target ∧ _ ∧ key = r.key ∧ select = r.select := by simpa using scheduled
      exact ⟨valid (by simp [cls, QueryClass.queryType]), by simp [elsewhere],
        .inr ⟨value, by simp [Request.row]⟩⟩
  | deleted cls registered lasting =>
    simp only [cls] at keeps
    exact h.del timed cls keeps (.deleted (P := P) cls registered lasting)
  | deletedExpiring cls expiring =>
    simp only [cls] at keeps
    exact h.del timed cls keeps (.deletedExpiring (P := P) cls expiring)
  | wiped cls =>
    refine h.keep (fun db key select t hdb found uncancelled erased => uncancelled ?_) (by simp [wipe])
    obtain ⟨matched, hmatched, erased⟩ := List.mem_flatMap.mp erased
    obtain ⟨rfl, row⟩ : db = r.database ∧ keyRow key select intKey = matched.1 := by
      simpa [wipe, expireRow_ne_intKey.symm] using erased
    obtain ⟨rfl, rfl⟩ := matchedKeys_name hmatched (h.named _ hdb _ _ _ found) row.symm
    exact List.mem_flatMap.mpr ⟨matched, hmatched, by simp [wipe]⟩
  | flushed cls =>
    simp only [cls] at keeps
    refine h.keep (fun db key select t _ found _ erased => ?_) (by simp)
    obtain ⟨row, hrow, rfl, rfl⟩ : ∃ row ∈ Run.sflushRows k r.plain, r.database = db ∧ row = keyRow key select intKey := by
      simpa using erased
    exact keeps _ ((mem_expires timed).mpr found) rfl hrow
  | near cls =>
    simp only [cls] at keeps
    refine h.keep (fun db key select t _ found _ erased => ?_) (by simp)
    obtain ⟨row, hrow, rfl, rfl⟩ : ∃ row ∈ Run.georemRows P k r.plain, r.database = db ∧ row = keyRow key select intKey := by
      simpa using erased
    exact keeps _ ((mem_expires timed).mpr found) rfl hrow
  | planned cls => exact h.keep (by simp) (by simp)
  | unplanned cls =>
    refine h.keep (fun db key select t _ found _ erased => ?_) (by simp)
    obtain ⟨-, row⟩ : db = r.database ∧ keyRow key select intKey = futureRow r.key r.select r.database := by
      simpa using erased
    exact futureRow_ne_keyRow (by decide) row.symm
  | applied cls held place =>
    refine h.keep (fun db key select t _ found _ erased => ?_) (by simp)
    obtain ⟨-, row⟩ : db = r.database ∧ keyRow key select intKey = futureRow r.key r.select r.database := by
      simpa using erased
    exact futureRow_ne_keyRow (by decide) row.symm
  | closed cls => exact h.keep (by simp) (by simp)

theorem Ready.anchored (keeps : r.KeepsKeys P k) (opened : k.Opened r.database) (accepted : r.Accepted)
    (outcome : Outcome P k r us) : Ready us k.deadline := by
  have keeps := keeps opened
  cases outcome with
  | setex cls place =>
    simp only [cls] at keeps
    exact ⟨⟨toSigned_lt _, keeps place⟩, trivial⟩
  | deadline cls registered =>
    refine ⟨⟨toSigned_lt _, ?_⟩, trivial⟩
    simp only [List.mem_cons, List.not_mem_nil, or_false] at cls
    rcases cls with cls | cls | cls <;> (simp only [cls] at keeps; exact keeps registered)
  | renamedExpiring cls expiring allows held =>
    have notZero : k.deadline r.database r.value r.select ≠ some 0 := by
      simp only [List.mem_cons, List.not_mem_nil, or_false] at cls
      rcases cls with cls | cls <;> (simp only [cls] at keeps allows; exact ((keeps expiring.1 allows).2 expiring).2)
    simp only [Ready, Update.deadlines, and_true]
    exact ⟨toSigned_lt _, fun _ => by split <;> simp [notZero]⟩
  | copiedExpiring cls expiring allows held =>
    simp only [cls] at keeps allows
    exact ⟨⟨toSigned_lt _, fun _ => keeps expiring allows⟩, trivial⟩
  | movedExpiring cls expiring allows held =>
    simp only [cls] at keeps allows
    obtain ⟨-, -, notZero⟩ := (keeps expiring.1 allows).2 expiring
    simp only [Ready, Update.deadlines, and_true]
    exact ⟨toSigned_lt _, fun _ => by split <;> simp [notZero]⟩
  | clonedExpiring cls expiring allows =>
    simp only [cls] at keeps allows
    exact ⟨⟨toSigned_lt _, fun _ => (keeps expiring allows).2⟩, trivial⟩
  | transferredExpiring cls expiring allows goal held =>
    simp only [cls] at keeps allows
    have elsewhere : _ ≠ r.database := fun same => accepted.elsewhere cls (same ▸ goal)
    simp only [Ready, Update.deadlines, and_true]
    exact ⟨toSigned_lt _, fun _ => by simpa [elsewhere] using (keeps expiring.1 allows).2 expiring _ goal⟩
  | wiped cls => exact Ready.of_no_schedule (by simp [wipe]) _
  | _ => exact Ready.of_no_schedule (by simp) _

/-- On a name without a key, only SETEX gives a deadline. -/
theorem no_schedule (outcome : Outcome P k r us) (absent : r.registered k = none) (cls : r.cls ≠ .setex) (db : Bytes)
    (time : ℤ) (key : Bytes) (select : ℕ) : .schedule db time key select ∉ us := by
  cases outcome with
  | setex same => exact absurd same cls
  | deadline _ registered => simp [absent] at registered
  | renamedExpiring _ expiring => exact absurd expiring.1 (by simp [absent])
  | copiedExpiring _ expiring => exact absurd expiring.1 (by simp [absent])
  | movedExpiring _ expiring => exact absurd expiring.1 (by simp [absent])
  | clonedExpiring _ expiring => exact absurd expiring.1 (by simp [absent])
  | transferredExpiring _ expiring => exact absurd expiring.1 (by simp [absent])
  | wiped => simp [wipe]
  | _ => simp

end

namespace Server

variable {P : Platform}

/-- Every entry of an open database has its KEY row, and what is stored under a new name gets no deadline. -/
structure NoOrphans (P : Platform) (k : Kernel) : Prop where
  held : ∀ e ∈ k.expires, k.Opened e.database → (k.get e.database (keyRow e.key e.select intKey)).isSome
  fresh : ∀ r : Request, r.Accepted → k.Opened r.database → r.registered k = none → r.cls ≠ .setex →
    (k.execute P r).expireTime r.database r.key r.select = -1

def KeepsKeys (P : Platform) (s : Server) : Event → Prop
  | .request r => r.KeepsKeys P s.kernel
  | .tick _ => True
  | .expire e => e.expireDelete.KeepsKeys P s.kernel

instance (s : Server) (a : Event) : Decidable (KeepsKeys P s a) :=
  match a with
  | .request _ | .tick _ | .expire _ => by unfold KeepsKeys; infer_instance

theorem anchored {s : Server} (h : (machine P).Reach (KeepsKeys P) s) :
    s.kernel.Writable ∧ Timed s.kernel.expires ∧ Anchored s.kernel.Opened s.kernel.get s.kernel.deadline := by
  refine invariant (I := fun k => Timed k.expires ∧ Anchored k.Opened k.get k.deadline) h ?_ ?_ ?_
  · intro s hs
    have none : s.kernel.deadline = fun _ _ _ => none := by
      funext db key select
      simp [Kernel.deadline, deadlineOf, hs.expires, Timetable.lookup]
    exact ⟨⟨by simp [hs.expires, Timetable.Unique.nil], by simp [hs.expires]⟩, by simp [none], by simp [none]⟩
  · exact fun k time hk => hk
  · rintro s a r us writable ⟨timed, hs⟩ guard source opened outcome
    have kept : Ready us s.kernel.deadline ∧
        Anchored s.kernel.Opened (contents us s.kernel.get) (deadlines us s.kernel.deadline) := by
      obtain ⟨rfl, accepted⟩ | ⟨e, -, rfl, rfl⟩ := source
      · exact ⟨Ready.anchored guard opened accepted outcome, hs.outcome timed accepted opened guard outcome⟩
      · exact ⟨Ready.del rfl outcome _, hs.del timed rfl (guard opened) outcome⟩
    obtain ⟨timed', table⟩ := deadline_updates timed us kept.1
    rw [get_updates writable, table]
    have less (db : Bytes) (hdb : (s.kernel.updates us).Opened db) : s.kernel.Opened db :=
      ((opened_updates writable us db).mp hdb).1
    exact ⟨timed', fun db hdb => kept.2.held db (less db hdb), fun db hdb => kept.2.named db (less db hdb)⟩

/-- Along every run in which KEY rows go with their entries, no entry is left without its KEY row. -/
theorem no_orphans {s : Server} (h : (machine P).Reach (KeepsKeys P) s) : NoOrphans P s.kernel := by
  obtain ⟨writable, timed, held⟩ := anchored h
  constructor
  · exact fun e he opened => held.held _ opened _ _ _ ((mem_expires timed).mp he)
  · intro r accepted opened absent cls
    have none : s.kernel.deadline r.database r.key r.select = none := by
      cases found : s.kernel.deadline r.database r.key r.select with
      | none => rfl
      | some t =>
        have here := held.held _ opened _ _ _ found
        rw [registered_none.mp absent intKey (by decide)] at here
        exact absurd here (by simp)
    obtain same | ⟨-, us, outcome, updated⟩ := execute_outcome P writable accepted.toClient
    · rw [same, expireTime_eq timed, none]
      rfl
    · have unscheduled := no_schedule outcome absent cls
      obtain ⟨timed', table⟩ := deadline_updates timed us (Ready.of_no_schedule unscheduled _)
      rw [updated, expireTime_eq timed', table]
      cases found : deadlines us s.kernel.deadline r.database r.key r.select with
      | none => rfl
      | some t =>
        rcases of_deadlines found with ⟨before, -⟩ | scheduled
        · exact absurd before (by simp [none])
        · exact absurd scheduled (unscheduled _ _ _ _)

/-- An expiring key is renamed, and its name is used for a list. -/
theorem no_orphans_renamed : ∃ s, (machine integers).Reach (KeepsKeys integers) s ∧
    s.kernel.expires = [⟨lit "db", lit "m", 1, 100⟩] ∧ NoOrphans integers s.kernel := by
  have h : ((machine integers).exec (KeepsKeys integers) fresh [
      .request { cls := .setex, database := lit "db", key := lit "k", select := 1, value := lit "v", id := 100 },
      command .rename (lit "k") (lit "m"), command .lpush (lit "k") (lit "x")]).any fun s =>
        s.kernel.expires = [⟨lit "db", lit "m", 1, 100⟩] := by decide
  obtain ⟨s, reached, found⟩ := Machine.exec_holds h (.initial fresh_initial)
  exact ⟨s, reached, found, no_orphans reached⟩

/-- GETDEL of an expiring key leaves its entry, and a list under the name gets the deadline. -/
theorem getdel_leaves_entry : ∃ s, (machine integers).Reachable s ∧ ¬ NoOrphans integers s.kernel := by
  have h : ((machine integers).exec (fun _ _ => True) fresh [
      .request { cls := .setex, database := lit "db", key := lit "k", select := 1, value := lit "v", id := 100 },
      command .getdel (lit "k") []]).any fun s =>
        ⟨lit "db", lit "k", 1, 100⟩ ∈ s.kernel.expires ∧ (s.kernel.databases (lit "db")).closing = false ∧
          s.kernel.get (lit "db") (keyRow (lit "k") 1 intKey) = none := by decide
  obtain ⟨s, reached, entry, opened, missing⟩ := Machine.exec_holds h (.initial fresh_initial)
  refine ⟨s, reached, fun orphans => ?_⟩
  exact absurd (orphans.held _ entry opened) (by simp [missing])

end Server
end BerylDB.Store
