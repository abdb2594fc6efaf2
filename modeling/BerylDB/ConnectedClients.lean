import BerylDB.ClientTables

/-! # Who is connected

What the tables of clients tell agrees with who is connected, after every call, and so in every run. -/
namespace BerylDB.Clients
open Text Transition Tables

/-- A client that is connected. -/
def Tables.Live (t : Tables) (i : ℕ) (u : Client) : Prop := t.users[i]? = some u ∧ u.quitting = false

/-- A client that has logged in. -/
def Client.Assigned (u : Client) : Prop := u.instanceName ≠ u.uuid

structure Client.Formed (u : Client) : Prop where
  length : u.uuid.length = 9
  assigned : u.Assigned → u.logged = true ∧ u.instanceName = newInstance u.login u.uuid

/-- The three tables of names tell who is connected. -/
structure Named (t : Tables) : Prop where
  instances : UserMap.Indexed t.charmap t.clientlist fun name i => ∃ u, t.Live i u ∧ u.instanceName = name
  uuids : UserMap.Indexed t.charmap t.uuidList fun name i => ∃ u, t.Live i u ∧ u.uuid = name
  logins : ∀ name i, (name, i) ∈ t.logins ↔ ∃ u, t.Live i u ∧ u.login = name ∧ u.Assigned
  once : Keyed.Distinct Prod.snd t.logins
  formed : ∀ (i : ℕ) (u : Client), t.users[i]? = some u → u.Formed

/-- Those that are connected, and how many of them are not registered. -/
structure Counted (t : Tables) : Prop where
  nodup : t.localUsers.Nodup
  connected : ∀ i, i ∈ t.localUsers ↔ ∃ u, t.Live i u
  waiting : t.notRegistered = t.localUsers.countP fun i => t.users[i]?.any fun u => !u.ok

/-- A client that quits is in one place on its way out, and is freed only when nothing locks it. -/
structure Leaving (t : Tables) : Prop where
  ways : (t.awaitingExit ++ t.reducer ++ t.deleted).Nodup
  quits : ∀ i, i ∈ t.awaitingExit ++ t.reducer ++ t.deleted ↔ ∃ u, t.users[i]? = some u ∧ u.quitting = true
  free : ∀ i ∈ t.reducer ++ t.deleted, t.free i = true

/-- The tables tell the same. -/
structure Agree (t : Tables) : Prop extends Named t, Counted t, Leaving t

section
variable {t : Tables} {i j : ℕ} {u v : Client} {f : Client → Client}

@[simp] theorem users_modify : (t.modify i f).users[j]? = (t.users[j]?).map fun u => if i = j then f u else u :=
  List.getElem?_modify ..

theorem users_modify_of_ne (other : i ≠ j) : (t.modify i f).users[j]? = t.users[j]? := by
  rw [users_modify]
  simp only [if_neg other, Option.map_id']

theorem Live.unique (h : t.Live i u) (h' : t.Live i v) : u = v := Option.some.inj (h.1.symm.trans h'.1)

theorem newInstance_length (login uuid : Bytes) : (newInstance login uuid).length = login.length + uuid.length + 3 := by
  simp only [newInstance, List.length_append, List.length_cons, show (lit "I-").length = 2 from by decide +kernel]
  omega

/-- Instances of different clients differ in their identifiers. -/
theorem newInstance_equals {charmap : CharMap} {login login' uuid uuid' : Bytes} (lengths : uuid.length = uuid'.length)
    (same : equals charmap (newInstance login uuid) (newInstance login' uuid') = true) :
    equals charmap uuid uuid' = true := by
  simp only [equals, newInstance, List.map_append, List.map_cons, beq_iff_eq] at same ⊢
  have ends := List.append_inj_right' same (by simpa using lengths)
  exact (List.cons.inj ends).2

theorem length_equals {charmap : CharMap} {s s' : Bytes} (same : equals charmap s s' = true) : s.length = s'.length := by
  simpa using congrArg List.length (beq_iff_eq.mp same)

theorem live_modify (keeps : ∀ u, t.users[i]? = some u → (f u).quitting = u.quitting) :
    (t.modify i f).Live j v ↔ ∃ u, t.Live j u ∧ (if i = j then f u else u) = v := by
  unfold Tables.Live
  rw [users_modify, Option.map_eq_some_iff]
  constructor
  · rintro ⟨⟨u, found, rfl⟩, quitting⟩
    refine ⟨u, ⟨found, ?_⟩, rfl⟩
    split at quitting
    · subst_vars
      rwa [← keeps u found]
    · exact quitting
  · rintro ⟨u, ⟨found, quitting⟩, rfl⟩
    refine ⟨⟨u, found, rfl⟩, ?_⟩
    split
    · subst_vars
      rwa [keeps u found]
    · exact quitting

/-- What a change does not touch holds of the same clients. -/
theorem exists_live_modify {p : Client → Prop} (keeps : ∀ u, t.users[i]? = some u → (f u).quitting = u.quitting)
    (same : ∀ u, t.users[i]? = some u → (p (f u) ↔ p u)) :
    (∃ v, (t.modify i f).Live j v ∧ p v) ↔ ∃ u, t.Live j u ∧ p u := by
  constructor
  · rintro ⟨v, changed, holds⟩
    obtain ⟨u, live, rfl⟩ := (live_modify keeps).mp changed
    refine ⟨u, live, ?_⟩
    split at holds
    · subst_vars
      exact (same u live.1).mp holds
    · exact holds
  · rintro ⟨u, live, holds⟩
    refine ⟨_, (live_modify keeps).mpr ⟨u, live, rfl⟩, ?_⟩
    split
    · subst_vars
      exact (same u live.1).mpr holds
    · exact holds

theorem live_disconnect (here : t.Live i u) : (t.disconnect i).Live j v ↔ t.Live j v ∧ j ≠ i := by
  unfold disconnect
  rw [here.1]
  simp only [here.2, Bool.false_eq_true, if_false]
  unfold Tables.Live
  simp only [users_modify]
  by_cases same : i = j
  · subst same
    simp only [here.1, if_true, Option.map_some, Option.some.injEq]
    constructor
    · rintro ⟨rfl, quitting⟩
      simp at quitting
    · simp
  · simp [same, Ne.symm same]

theorem connected_modify (keeps : ∀ u, t.users[i]? = some u → (f u).quitting = u.quitting) :
    (∃ v, (t.modify i f).Live j v) ↔ ∃ u, t.Live j u := by
  have same := exists_live_modify (j := j) (p := fun _ => True) keeps fun _ _ => Iff.rfl
  simpa only [and_true] using same

/-- A change of what the tables do not tell. -/
structure Harmless (u v : Client) : Prop where
  uuid : v.uuid = u.uuid
  instanceName : v.instanceName = u.instanceName
  quitting : v.quitting = u.quitting
  assigned : u.Assigned → v.logged = u.logged ∧ v.login = u.login

theorem Harmless.assigned_iff (h : Harmless u v) : v.Assigned ↔ u.Assigned := by
  rw [Client.Assigned, Client.Assigned, h.uuid, h.instanceName]

theorem Harmless.formed (h : Harmless u v) (formed : u.Formed) : v.Formed := by
  refine ⟨h.uuid ▸ formed.length, fun assigned => ?_⟩
  have assigned := h.assigned_iff.mp assigned
  rw [(h.assigned assigned).1, (h.assigned assigned).2, h.instanceName, h.uuid]
  exact formed.assigned assigned

theorem formed_modify (h : ∀ (j : ℕ) (u : Client), t.users[j]? = some u → u.Formed)
    (keeps : ∀ u, t.users[i]? = some u → u.Formed → (f u).Formed) :
    ∀ (j : ℕ) (v : Client), (t.modify i f).users[j]? = some v → v.Formed := by
  intro j v found
  obtain ⟨u, before, rfl⟩ := Option.map_eq_some_iff.mp (users_modify.symm.trans found)
  split
  · subst_vars
    exact keeps u before (h _ u before)
  · exact h j u before

theorem Named.modify (h : Named t) (harmless : ∀ u, t.users[i]? = some u → Harmless u (f u)) :
    Named (t.modify i f) := by
  have keeps := fun u found => (harmless u found).quitting
  refine ⟨?instances, ?uuids, ?logins, h.once, formed_modify h.formed fun u found => (harmless u found).formed⟩
  case instances =>
    refine h.instances.congr fun name j => (exists_live_modify keeps fun u found => ?_).symm
    rw [(harmless u found).instanceName]
  case uuids =>
    refine h.uuids.congr fun name j => (exists_live_modify keeps fun u found => ?_).symm
    rw [(harmless u found).uuid]
  case logins =>
    intro name j
    refine (h.logins name j).trans (exists_live_modify keeps fun u found => ?_).symm
    rw [(harmless u found).assigned_iff]
    exact and_congr_left fun assigned => by rw [((harmless u found).assigned assigned).2]

theorem Counted.modify (h : Counted t)
    (keeps : ∀ u, t.users[i]? = some u → (f u).quitting = u.quitting ∧ (f u).ok = u.ok) : Counted (t.modify i f) := by
  refine ⟨h.nodup, fun j => ?_, ?_⟩
  · exact (h.connected j).trans (connected_modify fun u found => (keeps u found).1).symm
  · refine h.waiting.trans (List.countP_congr fun j _ => ?_)
    rw [users_modify]
    cases found : t.users[j]? with
    | none => rfl
    | some u =>
      simp only [Option.map_some, Option.any_some]
      split
      · subst_vars
        rw [(keeps u found).2]
      · rfl

theorem Leaving.modify (h : Leaving t)
    (keeps : ∀ u, t.users[i]? = some u → (f u).quitting = u.quitting ∧
      (u.quitting = true → u.locked = false → (f u).locked = false)) : Leaving (t.modify i f) := by
  refine ⟨h.ways, fun j => (h.quits j).trans ?_, fun j inside => ?_⟩
  · rw [users_modify]
    constructor
    · rintro ⟨u, found, quitting⟩
      refine ⟨_, by rw [found]; rfl, ?_⟩
      split
      · subst_vars
        rwa [(keeps u found).1]
      · exact quitting
    · rintro ⟨v, found, quitting⟩
      obtain ⟨u, before, rfl⟩ := Option.map_eq_some_iff.mp found
      refine ⟨u, before, ?_⟩
      split at quitting
      · subst_vars
        rwa [(keeps u before).1] at quitting
      · exact quitting
  · have free := h.free j inside
    unfold Tables.free at free ⊢
    rw [users_modify]
    cases found : t.users[j]? with
    | none => rw [found] at free; cases free
    | some u =>
      rw [found] at free
      obtain ⟨quitting, unlocked⟩ : u.quitting = true ∧ u.locked = false := by simpa using free
      simp only [Option.map_some, Option.any_some]
      split
      · subst_vars
        simp [(keeps u found).1, quitting, (keeps u found).2 quitting unlocked]
      · simp [quitting, unlocked]

theorem disconnect_of_quitting (gone : ∀ u, ¬ t.Live i u) : t.disconnect i = t := by
  unfold disconnect
  cases found : t.users[i]? with
  | none => rfl
  | some u =>
    cases quitting : u.quitting with
    | false => exact absurd ⟨found, quitting⟩ (gone u)
    | true => simp [quitting]

theorem disconnect_of_live (here : t.Live i u) : t.disconnect i =
    { t.modify i fun u => { u with quitting := true } with
      reducer := if u.locked then t.reducer else t.reducer ++ [i]
      awaitingExit := if u.locked then t.awaitingExit ++ [i] else t.awaitingExit
      notRegistered := if u.ok then t.notRegistered else t.notRegistered - 1
      localUsers := t.localUsers.erase i
      clientlist := t.clientlist.erase t.charmap u.instanceName
      logins := t.logins.eraseLogin i
      uuidList := t.uuidList.erase t.charmap u.uuid } := by
  unfold disconnect
  rw [here.1]
  simp only [here.2, Bool.false_eq_true, if_false]

theorem exists_live_disconnect (here : t.Live i u) {p : Client → Prop} :
    ((∃ v, t.Live j v ∧ p v) ∧ j ≠ i) ↔ ∃ v, (t.disconnect i).Live j v ∧ p v := by
  simp only [live_disconnect here]
  constructor
  · rintro ⟨⟨v, live, holds⟩, other⟩
    exact ⟨v, ⟨live, other⟩, holds⟩
  · rintro ⟨v, ⟨live, other⟩, holds⟩
    exact ⟨⟨v, live, holds⟩, other⟩

theorem Named.disconnect (h : Named t) (here : t.Live i u) : Named (t.disconnect i) := by
  have instances := (h.instances.erase ⟨u, here, rfl⟩).congr fun _ _ => exists_live_disconnect here
  have uuids := (h.uuids.erase ⟨u, here, rfl⟩).congr fun _ _ => exists_live_disconnect here
  have logins (name j) : (name, j) ∈ t.logins.eraseLogin i ↔
      ∃ v, (t.disconnect i).Live j v ∧ v.login = name ∧ v.Assigned := by
    rw [← exists_live_disconnect here, ← h.logins]
    exact h.once.mem_eraseP
  rw [disconnect_of_live here] at instances uuids logins ⊢
  exact ⟨instances, uuids, logins, h.once.eraseP,
    formed_modify h.formed fun u found formed => ⟨formed.length, formed.assigned⟩⟩

theorem Counted.disconnect (h : Counted t) (here : t.Live i u) : Counted (t.disconnect i) := by
  have inside : i ∈ t.localUsers := (h.connected i).mpr ⟨u, here⟩
  have connected (j) : j ∈ t.localUsers.erase i ↔ ∃ v, (t.disconnect i).Live j v := by
    have rest := exists_live_disconnect (j := j) here (p := fun _ => True)
    simp only [and_true] at rest
    rw [← rest, ← h.connected, h.nodup.mem_erase_iff, and_comm]
  rw [disconnect_of_live here] at connected ⊢
  refine ⟨h.nodup.erase i, connected, ?_⟩
  have others : (t.localUsers.erase i).countP
      (fun j => (t.modify i fun u => { u with quitting := true }).users[j]?.any fun u => !u.ok) =
        (t.localUsers.erase i).countP fun j => t.users[j]?.any fun u => !u.ok := by
    refine List.countP_congr fun j rest => ?_
    rw [users_modify_of_ne (h.nodup.mem_erase_iff.mp rest).1.symm]
  have split := (List.perm_cons_erase inside).countP_eq fun j => t.users[j]?.any fun u => !u.ok
  rw [List.countP_cons, here.1, Option.any_some, ← h.waiting] at split
  refine Eq.trans ?_ others.symm
  cases ok : u.ok with
  | false => simp [ok] at split ⊢; omega
  | true => simpa [ok] using split

theorem quits_disconnect (here : t.Live i u) : (∃ v, (t.disconnect i).users[j]? = some v ∧ v.quitting = true) ↔
    j = i ∨ ∃ v, t.users[j]? = some v ∧ v.quitting = true := by
  rw [disconnect_of_live here]
  simp only [users_modify]
  by_cases same : i = j
  · subst same
    simp [here.1]
  · simp [same, Ne.symm same]

theorem free_disconnect (here : t.Live i u) (other : j ≠ i) : (t.disconnect i).free j = t.free j := by
  rw [disconnect_of_live here]
  exact congrArg (Option.any _) (users_modify_of_ne other.symm)

theorem Leaving.disconnect (h : Leaving t) (here : t.Live i u) : Leaving (t.disconnect i) := by
  have outside : i ∉ t.awaitingExit ++ t.reducer ++ t.deleted := by
    rw [h.quits]
    rintro ⟨v, found, quitting⟩
    rw [Option.some.inj (found.symm.trans here.1), here.2] at quitting
    cases quitting
  have moved : List.Perm ((t.disconnect i).awaitingExit ++ (t.disconnect i).reducer ++ (t.disconnect i).deleted)
      (i :: (t.awaitingExit ++ t.reducer ++ t.deleted)) := by
    rw [disconnect_of_live here]
    cases locked : u.locked with
    | true =>
      simp only [if_true, Tables.modify, List.append_assoc, List.singleton_append]
      exact List.perm_middle
    | false =>
      simp only [Bool.false_eq_true, if_false, Tables.modify, ← List.append_assoc]
      rw [List.append_assoc _ [i], List.singleton_append]
      exact List.perm_middle
  refine ⟨moved.nodup_iff.mpr (List.nodup_cons.mpr ⟨outside, h.ways⟩), fun j => ?_, fun j inside => ?_⟩
  · rw [moved.mem_iff, List.mem_cons, quits_disconnect here, h.quits]
  · by_cases same : j = i
    · subst same
      rw [disconnect_of_live here] at inside ⊢
      cases locked : u.locked with
      | true =>
        have inside : j ∈ t.reducer ++ t.deleted := by simpa [locked, Tables.modify] using inside
        exact absurd (List.append_assoc .. ▸ List.mem_append_right _ inside) outside
      | false => simp [Tables.free, here.1, locked]
    · rw [free_disconnect here same]
      refine h.free j ?_
      rw [disconnect_of_live here] at inside
      cases locked : u.locked <;> simpa [locked, same, Tables.modify] using inside

theorem Agree.disconnect (h : Agree t) : Agree (t.disconnect i) := by
  by_cases live : ∃ u, t.Live i u
  · obtain ⟨u, here⟩ := live
    exact ⟨h.toNamed.disconnect here, h.toCounted.disconnect here, h.toLeaving.disconnect here⟩
  · rw [disconnect_of_quitting (not_exists.mp live)]
    exact h

theorem Agree.foldl_disconnect {l : List ℕ} (h : Agree t) : Agree (l.foldl Tables.disconnect t) := by
  induction l generalizing t with
  | nil => exact h
  | cons i l ih => exact ih h.disconnect

theorem users_insert {uuid : Bytes} : (t.insert uuid).users[j]? =
    if j = t.users.length then some ⟨uuid, uuid, [], false, false, false, false⟩ else t.users[j]? := by
  change (t.users ++ [_])[j]? = _
  rw [List.getElem?_append]
  rcases Nat.lt_trichotomy j t.users.length with less | rfl | more
  · rw [if_pos less, if_neg (Nat.ne_of_lt less)]
  · simp
  · rw [if_neg (by omega), if_neg (by omega), List.getElem?_eq_none (by simp; omega), List.getElem?_eq_none (by omega)]

theorem exists_live_insert {uuid : Bytes} {p : Client → Prop} : (∃ v, (t.insert uuid).Live j v ∧ p v) ↔
    (∃ v, t.Live j v ∧ p v) ∨ p ⟨uuid, uuid, [], false, false, false, false⟩ ∧ j = t.users.length := by
  unfold Tables.Live
  rw [users_insert]
  by_cases same : j = t.users.length
  · subst same
    simp
  · simp [same]

/-- No instance bears the name of an identifier that is not in use. -/
theorem Named.find_uuid (h : Named t) {uuid : Bytes} (length : uuid.length = 9)
    (absent : t.uuidList.find t.charmap uuid = none) :
    t.clientlist.find t.charmap uuid = none := by
  by_contra found
  obtain ⟨i, found⟩ := Option.ne_none_iff_exists'.mp found
  obtain ⟨_, ⟨u, live, rfl⟩, same⟩ := h.instances.find_eq_some.mp found
  have formed := h.formed i u live.1
  by_cases assigned : u.Assigned
  · have lengths := length_equals same
    rw [(formed.assigned assigned).2, newInstance_length, formed.length, length] at lengths
    omega
  · rw [not_not.mp assigned, h.uuids.absent absent ⟨u, live, rfl⟩] at same
    cases same

theorem Named.insert (h : Named t) {uuid : Bytes} (length : uuid.length = 9)
    (absent : t.uuidList.find t.charmap uuid = none) :
    Named (t.insert uuid) := by
  have new (p : Client → Prop) : ¬ ∃ v, t.Live t.users.length v ∧ p v := by
    rintro ⟨v, live, -⟩
    have found := live.1
    rw [List.getElem?_eq_none le_rfl] at found
    cases found
  refine ⟨?instances, ?uuids, ?logins, h.once, ?formed⟩
  case instances =>
    refine (h.instances.assign (h.find_uuid length absent) fun _ => new _).congr fun name j => ?_
    rw [exists_live_insert, eq_comm (a := name)]
  case uuids =>
    refine (h.uuids.concat absent fun _ => new _).congr fun name j => ?_
    rw [exists_live_insert, eq_comm (a := name)]
  case logins =>
    intro name j
    refine (h.logins name j).trans ?_
    rw [exists_live_insert]
    simp [Client.Assigned]
  case formed =>
    intro j v found
    rw [users_insert] at found
    split at found
    · cases found
      exact ⟨length, fun assigned => absurd rfl assigned⟩
    · exact h.formed j v found

theorem Counted.insert (h : Counted t) {uuid : Bytes} : Counted (t.insert uuid) := by
  have outside : t.users.length ∉ t.localUsers := by
    rw [h.connected]
    rintro ⟨v, live⟩
    have found := live.1
    rw [List.getElem?_eq_none le_rfl] at found
    cases found
  refine ⟨List.nodup_cons.mpr ⟨outside, h.nodup⟩, fun j => ?_, ?_⟩
  · have same : (∃ v, (t.insert uuid).Live j v ∧ True) ↔ _ := exists_live_insert (p := fun _ => True)
    simp only [and_true, true_and] at same
    rw [same, ← h.connected, or_comm]
    exact List.mem_cons
  · have others : t.localUsers.countP (fun j => (t.insert uuid).users[j]?.any fun u => !u.ok) = t.notRegistered := by
      rw [h.waiting]
      refine List.countP_congr fun j inside => ?_
      rw [users_insert, if_neg (by rintro rfl; exact outside inside)]
    change t.notRegistered + 1 = (t.users.length :: t.localUsers).countP _
    rw [List.countP_cons, others, users_insert, if_pos rfl]
    rfl

theorem Leaving.insert (h : Leaving t) {uuid : Bytes} : Leaving (t.insert uuid) := by
  refine ⟨h.ways, fun j => (h.quits j).trans ?_, fun j inside => ?_⟩
  · rw [users_insert]
    by_cases same : j = t.users.length
    · subst same
      simp
    · simp [same]
  · have free := h.free j inside
    unfold Tables.free at free ⊢
    rw [users_insert]
    split
    · subst_vars
      rw [List.getElem?_eq_none le_rfl] at free
      cases free
    · exact free

theorem Agree.addUser (h : Agree t) {uuid : Bytes} {fails : Bool} (length : uuid.length = 9)
    (absent : t.uuidList.find t.charmap uuid = none) : Agree (t.addUser uuid fails) := by
  have added : Agree (t.insert uuid) := ⟨h.toNamed.insert length absent, h.toCounted.insert, h.toLeaving.insert⟩
  unfold Tables.addUser
  dsimp only
  split
  · exact added.disconnect
  · exact added

theorem exists_live_set (here : t.Live i u) {p : Client → Prop} (keeps : (f u).quitting = u.quitting) :
    (∃ v, (t.modify i f).Live j v ∧ p v) ↔ (∃ v, t.Live j v ∧ p v) ∧ j ≠ i ∨ p (f u) ∧ j = i := by
  have keeps : ∀ v, t.users[i]? = some v → (f v).quitting = v.quitting := by
    intro v found
    cases Option.some.inj (found.symm.trans here.1)
    exact keeps
  simp only [live_modify keeps]
  by_cases same : j = i
  · subst same
    constructor
    · rintro ⟨_, ⟨v, live, rfl⟩, holds⟩
      cases Live.unique live here
      exact .inr ⟨by simpa using holds, rfl⟩
    · rintro (⟨-, differ⟩ | ⟨holds, -⟩)
      · exact absurd rfl differ
      · exact ⟨_, ⟨u, here, rfl⟩, by simpa using holds⟩
  · simp [same, Ne.symm same]

/-- The name of an instance is new: it has the identifier in it. -/
theorem Named.find_newInstance (h : Named t) (here : t.Live i u) (login : Bytes) :
    (t.clientlist.erase t.charmap u.instanceName).find t.charmap (newInstance login u.uuid) = none := by
  by_contra found
  obtain ⟨j, found⟩ := Option.ne_none_iff_exists'.mp found
  obtain ⟨_, ⟨⟨v, live, rfl⟩, other⟩, same⟩ := (h.instances.erase ⟨u, here, rfl⟩).find_eq_some.mp found
  have formed := h.formed j v live.1
  have length := (h.formed i u here.1).length
  by_cases assigned : v.Assigned
  · rw [(formed.assigned assigned).2] at same
    have uuids := newInstance_equals (formed.length.trans length.symm) same
    have entry := h.uuids.distinct.eq_of_key ((h.uuids.mem _ j).mpr ⟨v, live, rfl⟩)
      ((h.uuids.mem _ i).mpr ⟨u, here, rfl⟩) (beq_iff_eq.mp uuids)
    exact other (Prod.mk.inj entry).2
  · have lengths := length_equals same
    rw [not_not.mp assigned, newInstance_length, formed.length, length] at lengths
    omega

theorem Named.rename (h : Named t) (here : t.Live i u) (logged : u.logged = true) (fresh : ¬ u.Assigned) :
    Named { t.modify i fun v => { v with instanceName := newInstance u.login u.uuid } with
      clientlist := (t.clientlist.erase t.charmap u.instanceName).assign t.charmap (newInstance u.login u.uuid) i
      logins := t.logins ++ [(u.login, i)] } := by
  have longer : newInstance u.login u.uuid ≠ u.uuid := by
    intro same
    have lengths := congrArg List.length same
    rw [newInstance_length] at lengths
    omega
  have unlisted (name) : (name, i) ∉ t.logins := by
    rw [h.logins]
    rintro ⟨v, live, -, assigned⟩
    exact fresh (Live.unique live here ▸ assigned)
  have set {j} {p : Client → Prop} := exists_live_set (j := j) (p := p) here
    (f := fun v => { v with instanceName := newInstance u.login u.uuid }) rfl
  refine ⟨?instances, ?uuids, ?logins, ?once, ?formed⟩
  case instances =>
    refine ((h.instances.erase ⟨u, here, rfl⟩).assign (h.find_newInstance here u.login) ?_).congr fun name j => ?_
    · rintro held ⟨-, differ⟩
      exact differ rfl
    · rw [eq_comm (a := name)]
      exact set.symm
  case uuids =>
    refine h.uuids.congr fun name j => Iff.symm (exists_live_modify (t := t) (i := i) (j := j)
      (f := fun v => { v with instanceName := newInstance u.login u.uuid }) (p := fun v => v.uuid = name) ?_ ?_)
    · exact fun _ _ => rfl
    · exact fun _ _ => Iff.rfl
  case logins =>
    intro name j
    rw [List.mem_append, List.mem_singleton, h.logins, Prod.mk.injEq]
    refine Iff.trans ?_ set.symm
    constructor
    · rintro (old | ⟨rfl, rfl⟩)
      · refine .inl ⟨old, ?_⟩
        rintro rfl
        exact unlisted name ((h.logins ..).mpr old)
      · exact .inr ⟨⟨rfl, longer⟩, rfl⟩
    · rintro (⟨old, -⟩ | ⟨⟨rfl, -⟩, rfl⟩)
      · exact .inl old
      · exact .inr ⟨rfl, rfl⟩
  case once =>
    refine h.once.concat fun p inside same => ?_
    exact unlisted p.1 ((show p.2 = i from same) ▸ inside)
  case formed =>
    refine formed_modify h.formed fun v found formed => ?_
    cases Option.some.inj (found.symm.trans here.1)
    exact ⟨formed.length, fun _ => ⟨logged, rfl⟩⟩

theorem Agree.modify (h : Agree t) (harmless : ∀ u, t.users[i]? = some u → Harmless u (f u))
    (ok : ∀ u, t.users[i]? = some u → (f u).ok = u.ok)
    (unlocked : ∀ u, t.users[i]? = some u → u.quitting = true → u.locked = false → (f u).locked = false) :
    Agree (t.modify i f) :=
  ⟨h.toNamed.modify harmless, h.toCounted.modify fun u found => ⟨(harmless u found).quitting, ok u found⟩,
    h.toLeaving.modify fun u found => ⟨(harmless u found).quitting, unlocked u found⟩⟩

theorem Agree.rename (h : Agree t) (here : t.Live i u) (logged : u.logged = true) (fresh : ¬ u.Assigned) :
    Agree { t.modify i fun v => { v with instanceName := newInstance u.login u.uuid } with
      clientlist := (t.clientlist.erase t.charmap u.instanceName).assign t.charmap (newInstance u.login u.uuid) i
      logins := t.logins ++ [(u.login, i)] } := by
  have counted := h.toCounted.modify (i := i) (f := fun v => { v with instanceName := newInstance u.login u.uuid })
    fun _ _ => ⟨rfl, rfl⟩
  have leaving := h.toLeaving.modify (i := i) (f := fun v => { v with instanceName := newInstance u.login u.uuid })
    fun _ _ => ⟨rfl, fun _ unlocked => unlocked⟩
  exact ⟨h.toNamed.rename here logged fresh, ⟨counted.nodup, counted.connected, counted.waiting⟩,
    ⟨leaving.ways, leaving.quits, leaving.free⟩⟩

theorem Agree.setLogin (h : Agree t) {login : Bytes} {passed : Bool} : Agree (t.setLogin i login passed) := by
  unfold Tables.setLogin
  cases found : t.users[i]? with
  | none => exact h
  | some u =>
    dsimp only
    split
    · exact h
    · rename_i refused
      obtain ⟨unlogged, quitting⟩ : u.logged = false ∧ u.quitting = false := by simpa using refused
      have fresh : ¬ u.Assigned := by
        intro assigned
        rw [((h.formed i u found).assigned assigned).1] at unlogged
        cases unlogged
      have logged : Agree (t.modify i fun v => { v with logged := true, login }) := by
        refine h.modify (fun v before => ?_) (fun _ _ => rfl) fun _ _ _ unlocked => unlocked
        cases Option.some.inj (before.symm.trans found)
        exact ⟨rfl, rfl, rfl, fun assigned => absurd assigned fresh⟩
      split
      · exact logged.disconnect
      · split
        · exact logged
        · split
          · exact logged.disconnect
          · have here : (t.modify i fun v => { v with logged := true, login }).Live i
                { u with logged := true, login } := by
              refine ⟨?_, quitting⟩
              rw [users_modify, found]
              simp
            exact logged.rename here rfl fresh

theorem Counted.register (h : Counted t) (here : t.Live i u) (waits : u.ok = false) :
    Counted { t.modify i fun v => { v with ok := true } with notRegistered := t.notRegistered - 1 } := by
  have inside : i ∈ t.localUsers := (h.connected i).mpr ⟨u, here⟩
  have split := (List.perm_cons_erase inside).countP_eq
  have others : (t.localUsers.erase i).countP
      (fun j => (t.modify i fun v => { v with ok := true }).users[j]?.any fun v => !v.ok) =
        (t.localUsers.erase i).countP fun j => t.users[j]?.any fun v => !v.ok := by
    refine List.countP_congr fun j rest => ?_
    rw [users_modify_of_ne (h.nodup.mem_erase_iff.mp rest).1.symm]
  have before := split fun j => t.users[j]?.any fun v => !v.ok
  have after := split fun j => (t.modify i fun v => { v with ok := true }).users[j]?.any fun v => !v.ok
  rw [List.countP_cons, here.1, ← h.waiting] at before
  rw [List.countP_cons, others, users_modify, here.1] at after
  refine ⟨h.nodup, fun j => (h.connected j).trans (connected_modify (f := fun v => { v with ok := true }) ?_).symm, ?_⟩
  · exact fun _ _ => rfl
  · refine Eq.trans ?_ after.symm
    simp [before, waits]

theorem Agree.ackConnection (h : Agree t) {denied : Bool} (here : t.Live i u) (waits : u.ok = false) :
    Agree (t.ackConnection i denied) := by
  cases denied with
  | true => exact h.disconnect
  | false =>
    have named := h.toNamed.modify (i := i) (f := fun v => { v with ok := true }) fun _ _ =>
      ⟨rfl, rfl, rfl, fun _ => ⟨rfl, rfl⟩⟩
    have leaving := h.toLeaving.modify (i := i) (f := fun v => { v with ok := true }) fun _ _ =>
      ⟨rfl, fun _ unlocked => unlocked⟩
    exact ⟨⟨named.instances, named.uuids, named.logins, named.once, named.formed⟩, h.toCounted.register here waits,
      ⟨leaving.ways, leaving.quits, leaving.free⟩⟩

theorem Agree.forceExits (h : Agree t) : Agree t.forceExits := by
  have moved : List.Perm (t.forceExits.awaitingExit ++ t.forceExits.reducer ++ t.forceExits.deleted)
      (t.awaitingExit ++ t.reducer ++ t.deleted) := by
    refine List.Perm.append_right _ ?_
    have parts := List.filter_append_perm (fun i => !t.free i) t.awaitingExit
    simp only [Bool.not_not] at parts
    calc List.Perm (t.awaitingExit.filter (fun i => !t.free i) ++ (t.reducer ++ t.awaitingExit.filter t.free)) _ :=
          List.Perm.append_left _ List.perm_append_comm
      List.Perm _ (t.awaitingExit ++ t.reducer) := by
          rw [← List.append_assoc]
          exact parts.append_right _
  refine ⟨⟨h.instances, h.uuids, h.logins, h.once, h.formed⟩, ⟨h.nodup, h.connected, h.waiting⟩,
    ⟨moved.nodup_iff.mpr h.ways, fun j => moved.mem_iff.trans (h.quits j), fun j inside => ?_⟩⟩
  rcases List.mem_append.mp inside with listed | deleted
  · rcases List.mem_append.mp listed with old | freed
    · exact h.free j (List.mem_append_left _ old)
    · exact (List.mem_filter.mp freed).2
  · exact h.free j (List.mem_append_right _ deleted)

theorem foldl_disconnect {l : List ℕ} (gone : ∀ i ∈ l, ∀ u, ¬ t.Live i u) : l.foldl Tables.disconnect t = t := by
  induction l with
  | nil => rfl
  | cons i l ih =>
    rw [List.foldl_cons, disconnect_of_quitting (gone i (List.mem_cons_self ..))]
    exact ih fun j inside => gone j (List.mem_cons_of_mem _ inside)

theorem Leaving.gone (h : Leaving t) (inside : i ∈ t.awaitingExit ++ t.reducer ++ t.deleted) : ¬ t.Live i u := by
  intro live
  obtain ⟨v, found, quitting⟩ := (h.quits i).mp inside
  rw [Option.some.inj (found.symm.trans live.1), live.2] at quitting
  cases quitting

/-- All that is in the list has quitted, and is there once. -/
theorem Leaving.apply_eq (h : Leaving t) : t.apply = { t with reducer := [], deleted := t.deleted ++ t.reducer } := by
  have reducer : t.reducer.Nodup := (List.nodup_append.mp (List.nodup_append.mp h.ways).1).2.1
  have once : t.reducer.reverse.dedup.reverse = t.reducer := by
    rw [(List.nodup_reverse.mpr reducer).dedup, List.reverse_reverse]
  unfold Tables.apply
  rw [once]
  dsimp only
  rw [foldl_disconnect]
  exact fun i inside u => h.gone (List.mem_append_left _ (List.mem_append_right _ inside))

theorem Agree.apply (h : Agree t) : Agree t.apply := by
  rw [h.toLeaving.apply_eq]
  have moved : List.Perm (t.awaitingExit ++ [] ++ (t.deleted ++ t.reducer))
      (t.awaitingExit ++ t.reducer ++ t.deleted) := by
    rw [List.append_nil, List.append_assoc]
    exact List.Perm.append_left _ List.perm_append_comm
  refine ⟨⟨h.instances, h.uuids, h.logins, h.once, h.formed⟩, ⟨h.nodup, h.connected, h.waiting⟩,
    ⟨moved.nodup_iff.mpr h.ways, fun j => moved.mem_iff.trans (h.quits j), fun j inside => ?_⟩⟩
  exact h.free j (List.perm_append_comm.mem_iff.mp inside)

theorem Agree.next {e : Event} {t' : Tables} (h : Agree t) (step : Clients.next t e = some t') : Agree t' := by
  cases e <;> simp only [Clients.next, Option.ite_none_right_eq_some, Option.some.injEq] at step
  case addUser uuid fails =>
    obtain ⟨⟨length, absent⟩, rfl⟩ := step
    exact h.addUser length absent
  case setLogin => exact step ▸ h.setLogin
  case ackConnection i denied =>
    obtain ⟨waits, rfl⟩ := step
    obtain ⟨u, found, waits⟩ := (Option.any_eq_true ..).mp waits
    obtain ⟨quitting, waits⟩ : u.quitting = false ∧ u.ok = false := by simpa using waits
    exact h.ackConnection ⟨found, quitting⟩ waits
  case disconnect => exact step ▸ h.disconnect
  case disconnectAll => exact step ▸ h.foldl_disconnect
  case lock i =>
    obtain ⟨listed, rfl⟩ := step
    obtain ⟨entry, inside, here⟩ := List.any_eq_true.mp listed
    obtain ⟨u, live, -⟩ := (h.instances.mem entry.1 i).mp (of_decide_eq_true here ▸ inside)
    refine h.modify (fun _ _ => ⟨rfl, rfl, rfl, fun _ => ⟨rfl, rfl⟩⟩) (fun _ _ => rfl) fun v found quitting => ?_
    rw [Option.some.inj (found.symm.trans live.1), live.2] at quitting
    cases quitting
  case unlock i =>
    obtain ⟨-, rfl⟩ := step
    exact h.modify (fun _ _ => ⟨rfl, rfl, rfl, fun _ => ⟨rfl, rfl⟩⟩) (fun _ _ => rfl) fun _ _ _ _ => rfl
  case forceExits => exact step ▸ h.forceExits
  case apply => exact step ▸ h.apply

theorem agree_of_reachable (h : machine.Reachable t) : Agree t := by
  refine h.invariant ?_ fun _ _ _ agree _ step => agree.next step
  rintro _ ⟨maxClients, charmap, rfl⟩
  refine ⟨⟨⟨List.Pairwise.nil, ?_, ?_⟩, ⟨List.Pairwise.nil, ?_, ?_⟩, ?_, List.Pairwise.nil, ?_⟩,
    ⟨List.nodup_nil, ?_, rfl⟩, ⟨List.nodup_nil, ?_, ?_⟩⟩ <;> simp [Tables.Live]

theorem Named.mem_findLogin (h : Named t) {login : Bytes} :
    i ∈ t.findLogin login ↔ ∃ u, t.Live i u ∧ u.login = login ∧ u.Assigned ∧ u.ok = true := by
  unfold findLogin
  simp only [List.mem_map, List.mem_filter, Bool.and_eq_true, decide_eq_true_eq]
  constructor
  · rintro ⟨⟨name, i⟩, ⟨inside, rfl, ok⟩, rfl⟩
    obtain ⟨u, live, named, assigned⟩ := (h.logins ..).mp inside
    rw [live.1] at ok
    exact ⟨u, live, named, assigned, ok⟩
  · rintro ⟨u, live, rfl, assigned, ok⟩
    refine ⟨(u.login, i), ⟨(h.logins ..).mpr ⟨u, live, rfl, assigned⟩, rfl, ?_⟩, rfl⟩
    rw [live.1]
    exact ok

/-- In every state a run reaches, the tables find exactly those that are connected, by the names they bear, and count
them; one that quits is on one way out, once, and nothing that is deleted is locked. -/
theorem tables_agree (h : machine.Reachable t) :
    (∀ name i, t.findInstanceOnly name = some i ↔ ∃ u, t.Live i u ∧ equals t.charmap u.instanceName name = true) ∧
      (∀ uid i, t.findUUID uid = some i ↔ ∃ u, t.Live i u ∧ equals t.charmap u.uuid uid = true) ∧
      (∀ login i, i ∈ t.findLogin login ↔ ∃ u, t.Live i u ∧ u.login = login ∧ u.Assigned ∧ u.ok = true) ∧
      Counted t ∧ Leaving t := by
  have agree := agree_of_reachable h
  refine ⟨fun name i => ?_, fun uid i => ?_, fun login i => agree.toNamed.mem_findLogin, agree.toCounted,
    agree.toLeaving⟩
  · refine agree.instances.find_eq_some.trans ⟨?_, ?_⟩
    · rintro ⟨_, ⟨u, live, rfl⟩, same⟩
      exact ⟨u, live, same⟩
    · rintro ⟨u, live, same⟩
      exact ⟨_, ⟨u, live, rfl⟩, same⟩
  · refine agree.uuids.find_eq_some.trans ⟨?_, ?_⟩
    · rintro ⟨_, ⟨u, live, rfl⟩, same⟩
      exact ⟨u, live, same⟩
    · rintro ⟨u, live, same⟩
      exact ⟨_, ⟨u, live, rfl⟩, same⟩

end

/-- Two clients; the second, whose query runs, quits, and is deleted only when the query is over. -/
theorem tables_agree_two : ∃ t : Tables, machine.Reachable t ∧
    (t.findLogin (lit "root") = [0] ∧ t.awaitingExit = [1] ∧ t.deleted = []) ∧ Counted t ∧ Leaving t := by
  have h : ((machine.exec (fun _ _ => True) ⟨3, .brld1459, [], [], [], [], [], 0, [], [], []⟩
      [.addUser (lit "001AAAAAA") false, .addUser (lit "001AAAAAB") false, .setLogin 0 (lit "root") true,
        .ackConnection 0 false, .lock 1, .disconnect 1, .forceExits, .apply]).any fun t =>
      t.findLogin (lit "root") = [0] ∧ t.awaitingExit = [1] ∧ t.deleted = []) = true := by decide +kernel
  obtain ⟨t, reached, shown⟩ := Machine.exec_holds h (.initial ⟨3, .brld1459, rfl⟩)
  exact ⟨t, reached, shown, (tables_agree reached).2.2.2⟩

end BerylDB.Clients
