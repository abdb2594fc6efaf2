import BerylDB.Privileges

/-! # Monitor and notification streams

`MonitorHandler` and `Notifier` hold the clients that receive the commands of other clients and the events of
the server.  The right to manage is checked when a stream is requested; a level that NOTIFY has stored
puts the client back into the list at its next connection. -/
namespace BerylDB.Streams
open Transition Sessions

def MONITOR_DEBUG : ℕ := 10
def MONITOR_DEFAULT : ℕ := 20

def NOTIFY_DEBUG : ℕ := 10
def NOTIFY_VERBOSE : ℕ := 20
def NOTIFY_DEFAULT : ℕ := 30

/-- Both lists hold clients of `base` with their levels; `notify` is the stored level of a login. -/
structure Server where
  base : Sessions.Server
  instances : ℕ → Text
  notify : Text → Text
  monitorList : List (ℕ × ℕ)
  notifyList : List (ℕ × ℕ)

/-- A command waiting to be shown to the monitors: who ran it, and its level. -/
structure CMDBuffer where
  inst : Text
  level : ℕ

/-- An event waiting to be notified. -/
structure Notification where
  skip : Option ℕ
  level : ℕ

namespace Server

/-- `User::CanPerform`. -/
def canPerform (s : Server) (i : ℕ) (flag : Char) : Bool :=
  match (s.base.users[i]?.bind (·.session)).bind fun id => s.base.objects[id]? with
  | some session =>
    session.canAdmin || (flag = 'm' && session.canManage) ||
      (flag = 'e' && (session.canExecute || session.canManage))
  | none => false

def isQuitting (s : Server) (i : ℕ) : Bool := s.base.users[i]?.all fun u => !u.connected

/-- `MonitorHandler::Add`, into a multimap. -/
def monitorAdd (s : Server) (i level : ℕ) : Server :=
  if s.isQuitting i then s else { s with monitorList := s.monitorList ++ [(i, level)] }

def monitorHas (s : Server) (i : ℕ) : Bool := s.monitorList.any (·.1 = i)

def monitorRemove (s : Server) (i : ℕ) : Server := { s with monitorList := s.monitorList.filter (·.1 ≠ i) }

def notifyHas (s : Server) (i : ℕ) : Bool := s.notifyList.any (·.1 = i)

/-- `Notifier::Add`, into a map. -/
def notifyAdd (s : Server) (i level : ℕ) : Server :=
  if s.isQuitting i then s
  else if s.notifyHas i then s
  else { s with notifyList := s.notifyList ++ [(i, level)] }

def notifyRemove (s : Server) (i : ℕ) : Server := { s with notifyList := s.notifyList.filter (·.1 ≠ i) }

/-- `MonitorHandler::Flush`: the clients that receive the next command. -/
def flushMonitor (s : Server) (flushing : CMDBuffer) : List ℕ :=
  (s.monitorList.filter fun (i, level) =>
    !s.isQuitting i && s.instances i ≠ flushing.inst && level ≤ flushing.level).map (·.1)

/-- `Notifier::Flush`: the clients that receive the next event. -/
def flushNotify (s : Server) (ready : Notification) : List ℕ :=
  (s.notifyList.filter fun (i, level) =>
    !s.isQuitting i && !(ready.skip.any fun skip => !s.isQuitting skip && skip = i) &&
      level ≤ ready.level).map (·.1)

end Server

/-! ## The commands -/

def toUpper (text : Text) : Text := text.map Char.toUpper

def monitorLevel (level : Text) : Option ℕ :=
  if level = "DEFAULT".toList then some MONITOR_DEFAULT
  else if level = "DEBUG".toList then some MONITOR_DEBUG
  else none

def notifyLevel (level : Text) : Option ℕ :=
  if level = "DEFAULT".toList then some NOTIFY_DEFAULT
  else if level = "VERBOSE".toList then some NOTIFY_VERBOSE
  else if level = "DEBUG".toList then some NOTIFY_DEBUG
  else none

/-- `CommandMonitor::Handle`. -/
def monitor (s : Server) (i : ℕ) (parameter : Option Text) : Server :=
  let s := s.monitorRemove i
  match parameter with
  | some level =>
    match monitorLevel (toUpper level) with
    | some level => s.monitorAdd i level
    | none => s
  | none => s.monitorAdd i MONITOR_DEFAULT

/-- `CommandStopMonitor::Handle`. -/
def stopMonitor (s : Server) (i : ℕ) : Server := if s.monitorHas i then s.monitorRemove i else s

def setNotify (s : Server) (login level : Text) : Server :=
  { s with notify := Function.update s.notify login level }

/-- `CommandNotifier::Handle`. -/
def notifier (s : Server) (i : ℕ) (login : Text) (parameter : Option Text) : Server :=
  let s := s.notifyRemove i
  match parameter with
  | some level =>
    match notifyLevel (toUpper level) with
    | some monitor => (setNotify s login (toUpper level)).notifyAdd i monitor
    | none => s
  | none => (setNotify s login "DEFAULT".toList).notifyAdd i NOTIFY_DEFAULT

/-- `CommandStopNotify::Handle`, a command without flags; deleting the level leaves the empty text. -/
def stopNotify (s : Server) (i : ℕ) (login : Text) : Server :=
  if s.notifyHas i then (setNotify s login []).notifyRemove i else s

/-- `LoadNotify`; the empty text is no level. -/
def loadNotify (s : Server) (i : ℕ) (login : Text) : Server :=
  match notifyLevel (s.notify login) with
  | some monitor => s.notifyAdd i monitor
  | none => s

/-- What happens to the sessions, and the stream commands of a registered client with their parameter. -/
inductive Event where
  | session (e : Sessions.Event)
  | monitor (client : ℕ) (parameter : Option Text)
  | stopMonitor (client : ℕ)
  | notify (client : ℕ) (parameter : Option Text)
  | stopNotify (client : ℕ)
deriving DecidableEq

/-- What the streams add to an event of the sessions: OnPostConnect loads the stored level of the new client, and
the destructor takes the client out of both lists. -/
def follow (s : Server) (base : Sessions.Server) : Sessions.Event → Server
  | .connect login => loadNotify { s with base } s.base.users.length login
  | .destroy i => ({ s with base }.monitorRemove i).notifyRemove i
  | _ => { s with base }

def next (s : Server) : Event → Option Server
  | .session e => (Sessions.next s.base e).map fun base => follow s base e
  | .monitor i parameter => s.base.users[i]?.map fun _ => if s.canPerform i 'm' then monitor s i parameter else s
  | .stopMonitor i => s.base.users[i]?.map fun _ => if s.canPerform i 'm' then stopMonitor s i else s
  | .notify i parameter =>
    s.base.users[i]?.map fun u => if s.canPerform i 'm' then notifier s i u.login parameter else s
  | .stopNotify i => s.base.users[i]?.map fun u => stopNotify s i u.login

/-- The server starts with no client, and with the levels that its database has stored. -/
def machine : Machine Server Event :=
  ⟨fun s => Sessions.machine.initial s.base ∧ s.monitorList = [] ∧ s.notifyList = [], next⟩

/-! ## Streams follow privileges -/

/-- The clients in one of the two lists. -/
def Server.listed (s : Server) : List ℕ := s.monitorList.map (·.1) ++ s.notifyList.map (·.1)

def StreamsFollow (s : Server) : Prop := ∀ i ∈ s.listed, s.canPerform i 'm'

instance (s : Server) : Decidable (StreamsFollow s) := by unfold StreamsFollow; infer_instance

/-- Flags that give the right to manage, or the admin right that stands for every right. -/
def manages (flags : Text) : Bool := flags.contains 'r' || flags.contains 'm'

/-- A client in one of the lists holds the session that the login has now. -/
def Server.Held (s : Server) (login : Text) : Prop :=
  ∃ i ∈ s.listed, (s.base.sessions login).isSome ∧ s.base.users[i]?.bind (·.session) = s.base.sessions login

/-- The checks of ADDFLAG pass. -/
def AddsFlag (s : Sessions.Server) (login flag : Text) : Prop :=
  s.created login ∧ ¬(login.length < 3 ∨ login.length > 15) ∧ loginValidator login ∧ login ≠ ROOT_USER ∧
    flag.length ≤ 1 ∧ (flag.any (!isFlag ·)) = false ∧ (s.flags login).any (· = flag.headD '\x00') = false

/-- The checks of DELFLAG pass. -/
def DelsFlag (s : Sessions.Server) (login flag : Text) : Prop :=
  flag ≠ [] ∧ flag.length ≤ 1 ∧ s.created login ∧ login ≠ ROOT_USER ∧ s.flags login ≠ [] ∧
    (flag.any (!isFlag ·)) = false

/-- The flags that OnPostConnect attaches a new client with. -/
def connectFlags (s : Sessions.Server) (login : Text) : Text :=
  match (s.sessions login).bind fun id => s.objects[id]? with
  | some session => session.rawflags
  | none => s.flags login

/-- A connection whose stored level is loaded, and a change of the flags of a session that a listed client holds, come
with flags that keep the right to manage. -/
def Kept (s : Server) : Event → Prop
  | .session (.connect login) => s.Held login ∨ (notifyLevel (s.notify login)).isSome →
    manages (connectFlags s.base login)
  | .session (.addFlag i login flag) => s.base.canAdmin i → AddsFlag s.base login flag →
    s.base.findLogin login ≠ [] → s.Held login → manages (s.base.flags login ++ [flag.headD '\x00'])
  | .session (.delFlag i login flag) => s.base.canAdmin i → DelsFlag s.base login flag →
    s.base.findLogin login ≠ [] → s.Held login → manages ((s.base.flags login).filter (· ≠ flag.headD '\x00'))
  | _ => True

instance (s : Server) (e : Event) : Decidable (Kept s e) := by
  unfold Kept Server.Held AddsFlag DelsFlag
  split <;> infer_instance

/-! ## Rights of the clients -/

section rights

variable {s : Server} {i id : ℕ}

def Session.manages (o : Session) : Bool := o.canAdmin || o.canManage

@[simp] theorem setFlags_manages (o : Session) (flags : Text) : Session.manages (o.setFlags flags) = manages flags := by
  have h := setFlags_rights o flags
  simp only [Session.rights, rights, Rights.mk.injEq] at h
  simp [Session.manages, manages, h.1, h.2.2]

theorem canPerform_manage (s : Server) (i : ℕ) : s.canPerform i 'm' =
    ((s.base.users[i]?.bind (·.session)).bind fun id => s.base.objects[id]?).any Session.manages := by
  unfold Server.canPerform
  cases (s.base.users[i]?.bind (·.session)).bind fun id => s.base.objects[id]? with
  | none => rfl
  | some o => simp [Session.manages]

theorem canPerform_holds (hid : s.base.users[i]?.bind (·.session) = some id) :
    s.canPerform i 'm' = s.base.objects[id]?.any Session.manages := by
  rw [canPerform_manage, hid, Option.bind_some]

theorem canPerform_session (h : s.canPerform i 'm') :
    ∃ id, s.base.users[i]?.bind (·.session) = some id ∧ id < s.base.objects.length := by
  rw [canPerform_manage, Option.any_eq_true] at h
  obtain ⟨o, ho, -⟩ := h
  obtain ⟨id, hid, ho⟩ := Option.bind_eq_some_iff.mp ho
  exact ⟨id, hid, (List.getElem?_eq_some_iff.mp ho).1⟩

theorem canPerform_user (h : s.canPerform i 'm') : i < s.base.users.length := by
  obtain ⟨id, hid, -⟩ := canPerform_session h
  obtain ⟨u, hu, -⟩ := Option.bind_eq_some_iff.mp hid
  exact (List.getElem?_eq_some_iff.mp hu).1

/-- New flags of one session reach the clients that hold it, and no other. -/
theorem canPerform_modify {flags : Text} {users : List User} (h : s.canPerform i 'm')
    (husers : s.base.users <+: users) :
    Server.canPerform
      { s with base := { s.base with users, objects := s.base.objects.modify id (·.setFlags flags) } } i 'm' =
      if s.base.users[i]?.bind (·.session) = some id then manages flags else true := by
  obtain ⟨j, hj, hlt⟩ := canPerform_session h
  have huser : users[i]? = s.base.users[i]? := by
    rw [List.getElem?_eq_getElem (canPerform_user h)]
    exact List.prefix_iff_getElem?.mp husers i (canPerform_user h)
  rw [canPerform_holds (show users[i]?.bind (·.session) = some j by rwa [huser]), hj]
  rw [canPerform_holds hj] at h
  by_cases hij : j = id
  · subst hij
    simp [List.getElem?_eq_getElem hlt]
  · simpa [hij, Ne.symm hij] using h

end rights

/-! ## What one event does to the lists -/

section lists

variable {s t : Server} {i : ℕ}

theorem listed_monitorAdd {level : ℕ} {j : ℕ} (h : j ∈ (s.monitorAdd i level).listed) : j ∈ s.listed ∨ j = i := by
  unfold Server.monitorAdd at h
  split_ifs at h
  · exact .inl h
  · simp only [Server.listed, List.map_append, List.mem_append, List.map_cons, List.map_nil, List.mem_singleton] at h ⊢
    tauto

theorem listed_notifyAdd {level : ℕ} {j : ℕ} (h : j ∈ (s.notifyAdd i level).listed) : j ∈ s.listed ∨ j = i := by
  unfold Server.notifyAdd at h
  split_ifs at h
  · exact .inl h
  · exact .inl h
  · simp only [Server.listed, List.map_append, List.mem_append, List.map_cons, List.map_nil, List.mem_singleton] at h ⊢
    tauto

theorem listed_monitorRemove {j : ℕ} (h : j ∈ (s.monitorRemove i).listed) : j ∈ s.listed := by
  simp only [Server.listed, Server.monitorRemove, List.mem_append] at h ⊢
  exact h.imp_left fun h => (List.filter_sublist.map _).subset h

theorem listed_notifyRemove {j : ℕ} (h : j ∈ (s.notifyRemove i).listed) : j ∈ s.listed := by
  simp only [Server.listed, Server.notifyRemove, List.mem_append] at h ⊢
  exact h.imp_right fun h => (List.filter_sublist.map _).subset h

@[simp] theorem monitorAdd_base (s : Server) (i level : ℕ) : (s.monitorAdd i level).base = s.base := by
  unfold Server.monitorAdd
  split_ifs <;> rfl

@[simp] theorem notifyAdd_base (s : Server) (i level : ℕ) : (s.notifyAdd i level).base = s.base := by
  unfold Server.notifyAdd
  split_ifs <;> rfl

@[simp] theorem monitorRemove_base (s : Server) (i : ℕ) : (s.monitorRemove i).base = s.base := rfl

@[simp] theorem notifyRemove_base (s : Server) (i : ℕ) : (s.notifyRemove i).base = s.base := rfl

@[simp] theorem setNotify_base (s : Server) (login level : Text) : (setNotify s login level).base = s.base := rfl

/-- An event that leaves the sessions alone and lists at most the client `i`. -/
structure Lists (i : ℕ) (s t : Server) : Prop where
  base : t.base = s.base
  listed : ∀ j ∈ t.listed, j ∈ s.listed ∨ j = i

theorem monitor_lists (s : Server) (i : ℕ) (parameter : Option Text) : Lists i s (monitor s i parameter) := by
  unfold monitor
  dsimp only
  split
  · split
    · exact ⟨by simp, fun j hj => (listed_monitorAdd hj).imp_left listed_monitorRemove⟩
    · exact ⟨rfl, fun j hj => .inl (listed_monitorRemove hj)⟩
  · exact ⟨by simp, fun j hj => (listed_monitorAdd hj).imp_left listed_monitorRemove⟩

theorem stopMonitor_lists (s : Server) (i : ℕ) : Lists i s (stopMonitor s i) := by
  unfold stopMonitor
  split_ifs
  · exact ⟨rfl, fun j hj => .inl (listed_monitorRemove hj)⟩
  · exact ⟨rfl, fun j hj => .inl hj⟩

theorem listed_setNotify {login level : Text} {j : ℕ} (h : j ∈ (setNotify s login level).listed) : j ∈ s.listed := h

theorem notifier_lists (s : Server) (i : ℕ) (login : Text) (parameter : Option Text) :
    Lists i s (notifier s i login parameter) := by
  unfold notifier
  dsimp only
  split
  · split
    · refine ⟨by simp, fun j hj => (listed_notifyAdd hj).imp_left fun hj => ?_⟩
      exact listed_notifyRemove (listed_setNotify hj)
    · exact ⟨rfl, fun j hj => .inl (listed_notifyRemove hj)⟩
  · refine ⟨by simp, fun j hj => (listed_notifyAdd hj).imp_left fun hj => ?_⟩
    exact listed_notifyRemove (listed_setNotify hj)

theorem stopNotify_lists (s : Server) (i : ℕ) (login : Text) : ∀ j ∈ (stopNotify s i login).listed, j ∈ s.listed := by
  unfold stopNotify
  split_ifs
  · exact fun j hj => listed_setNotify (listed_notifyRemove hj)
  · exact fun j hj => hj

theorem stopNotify_base (s : Server) (i : ℕ) (login : Text) : (stopNotify s i login).base = s.base := by
  unfold stopNotify
  split_ifs <;> rfl

end lists

theorem canPerform_base {s t : Server} (h : t.base = s.base) (i : ℕ) (flag : Char) :
    t.canPerform i flag = s.canPerform i flag := by
  simp only [Server.canPerform, h]

/-- Fewer clients in the lists, with their sessions unchanged. -/
theorem StreamsFollow.fewer {s t : Server} (h : StreamsFollow s) (hsub : ∀ j ∈ t.listed, j ∈ s.listed)
    (hcan : ∀ j, t.canPerform j 'm' = s.canPerform j 'm') : StreamsFollow t := by
  intro j hj
  rw [hcan]
  exact h j (hsub j hj)

/-! ## What the events of the sessions do -/

section sessions

variable {s : Server} {login : Text}

/-- Departures change no session that a client holds. -/
theorem canPerform_modify_users {t : Server} {i : ℕ} {f : User → User} (hf : ∀ u, (f u).session = u.session)
    (hobjects : t.base.objects = s.base.objects) (husers : t.base.users = s.base.users.modify i f) (j : ℕ) :
    t.canPerform j 'm' = s.canPerform j 'm' := by
  have huser : t.base.users[j]?.bind (·.session) = s.base.users[j]?.bind (·.session) := by
    rw [husers, List.getElem?_modify]
    cases s.base.users[j]? with
    | none => rfl
    | some u => by_cases hij : i = j <;> simp [hij, hf]
  rw [canPerform_manage, canPerform_manage, huser, hobjects]

theorem determineLifetime_objects (b : Sessions.Server) (login : Text) :
    (b.determineLifetime login).objects = b.objects ∧ (b.determineLifetime login).users = b.users := by
  unfold Sessions.Server.determineLifetime
  split_ifs <;> exact ⟨rfl, rfl⟩

theorem canPerform_determineLifetime (s : Server) (login : Text) (i : ℕ) (flag : Char) :
    Server.canPerform { s with base := s.base.determineLifetime login } i flag = s.canPerform i flag := by
  simp only [Server.canPerform, determineLifetime_objects]

/-- The clients that hold the session of `login` take its new flags, the others keep their rights. -/
theorem follows_modify {flags : Text} {users : List User} {id : ℕ} (h : StreamsFollow s)
    (hid : s.base.sessions login = some id) (husers : s.base.users <+: users) :
    (∀ i ∈ s.listed, Server.canPerform
      { s with base := { s.base with users, objects := s.base.objects.modify id (·.setFlags flags) } } i 'm') ↔
    (s.Held login → manages flags) := by
  constructor
  · rintro hall ⟨i, hi, -, hsession⟩
    have := hall i hi
    rwa [canPerform_modify (h i hi) husers, if_pos (hsession.trans hid)] at this
  · intro hheld i hi
    rw [canPerform_modify (h i hi) husers]
    by_cases hsession : s.base.users[i]?.bind (·.session) = some id
    · rw [if_pos hsession]
      exact hheld ⟨i, hi, by simp [hid], hsession.trans hid.symm⟩
    · rw [if_neg hsession]

theorem findLogin_eq_nil (b : Sessions.Server) (h : ∀ u ∈ b.users, u.connected → u.login ≠ login) :
    b.findLogin login = [] := by
  refine List.eq_nil_iff_forall_not_mem.mpr fun i hi => ?_
  obtain ⟨u, hu, hc, hl⟩ := Sessions.Server.mem_findLogin.mp hi
  exact h u (List.mem_of_getElem? hu) hc hl

/-- An accepted flag command keeps the property exactly when it leaves the right to manage, or nobody in the lists
holds the session. -/
theorem follows_reflag (h : StreamsFollow s) (ht : Table s.base) (flags : Text) :
    StreamsFollow { s with base := reflag s.base login flags } ↔
      (s.base.findLogin login ≠ [] → s.Held login → manages flags) := by
  by_cases hempty : s.base.findLogin login = []
  · have hsame : reflag s.base login flags = { s.base with flags := Function.update s.base.flags login flags } := by
      simp [reflag, Sessions.Server.attachExternal, hempty]
    rw [hsame]
    exact iff_of_true h fun hne => absurd hempty hne
  · rcases Sessions.Server.attachExternal_cases ht login flags with ⟨-, hno⟩ | ⟨id, hid, heq⟩
    · exact absurd (findLogin_eq_nil s.base hno) hempty
    · rw [reflag, heq]
      refine (follows_modify h hid (List.prefix_refl s.base.users)).trans ?_
      exact ⟨fun hkeep _ => hkeep, fun hkeep => hkeep hempty⟩

theorem addFlag_accepted {b : Sessions.Server} {flag : Text} (h : AddsFlag b login flag) :
    addFlag b login flag = reflag b login (b.flags login ++ [flag.headD '\x00']) := by
  obtain ⟨hcreated, hlen, hvalid, hroot, hflag, his, hset⟩ := h
  have hlong : ¬flag.length > 1 := by omega
  simp only [addFlag, hcreated, hlen, hvalid, hroot, hlong, his, hset, if_false, Bool.true_eq_false, Bool.false_eq_true]
  exact attachExternal_flags ..

theorem addFlag_refused {b : Sessions.Server} {flag : Text} (h : ¬AddsFlag b login flag) : addFlag b login flag = b := by
  unfold addFlag
  dsimp only
  split_ifs with hcreated hlen hvalid hroot hlong his hset
  all_goals first
    | rfl
    | exact absurd ⟨by simpa using hcreated, hlen, by simpa using hvalid, hroot, by omega, by simpa using his,
        Bool.eq_false_iff.mpr hset⟩ h

theorem delFlag_accepted {b : Sessions.Server} {flag : Text} (h : DelsFlag b login flag) :
    delFlag b login flag = reflag b login ((b.flags login).filter (· ≠ flag.headD '\x00')) := by
  obtain ⟨hne, hflag, hcreated, hroot, hset, his⟩ := h
  have hlong : ¬flag.length > 1 := by omega
  simp only [delFlag, hne, hcreated, hroot, hlong, his, hset, if_false, Bool.true_eq_false, Bool.false_eq_true,
    attachExternal_keeps_flags]
  rfl

theorem delFlag_refused {b : Sessions.Server} {flag : Text} (h : ¬DelsFlag b login flag) : delFlag b login flag = b := by
  unfold delFlag
  dsimp only
  split_ifs with hne hlong hcreated hroot hset his
  all_goals first
    | rfl
    | exact absurd ⟨hne, by omega, by simpa using hcreated, hroot, hset, by simpa using his⟩ h

/-- The stored level of a new client is loaded whatever its rights are. -/
theorem follows_loadNotify {flags : Text} {b : Sessions.Server} (h : StreamsFollow s)
    (hold : (∀ i ∈ s.listed, Server.canPerform { s with base := b } i 'm') ↔ (s.Held login → manages flags))
    (hnew : Server.canPerform { s with base := b } s.base.users.length 'm' = manages flags)
    (hquit : Server.isQuitting { s with base := b } s.base.users.length = false) :
    StreamsFollow (loadNotify { s with base := b } s.base.users.length login) ↔
      (s.Held login ∨ (notifyLevel (s.notify login)).isSome → manages flags) := by
  have hfresh : ∀ i ∈ s.listed, i ≠ s.base.users.length := fun i hi => Nat.ne_of_lt (canPerform_user (h i hi))
  have hhas : Server.notifyHas { s with base := b } s.base.users.length = false := by
    refine List.any_eq_false.mpr fun p hp => ?_
    have := hfresh p.1 (List.mem_append_right _ (List.mem_map_of_mem hp))
    simpa using this
  cases hlevel : notifyLevel (s.notify login) with
  | none =>
    rw [loadNotify, hlevel]
    refine Iff.trans hold ?_
    simp
  | some level =>
    have hlisted : ∀ i, i ∈ (loadNotify { s with base := b } s.base.users.length login).listed ↔
        i ∈ s.listed ∨ i = s.base.users.length := fun i => by
      simp [loadNotify, hlevel, Server.notifyAdd, hquit, hhas, Server.listed, or_assoc]
    have hbase : (loadNotify { s with base := b } s.base.users.length login).base = b := by
      simp [loadNotify, hlevel]
    have hcan : ∀ i flag, (loadNotify { s with base := b } s.base.users.length login).canPerform i flag =
        Server.canPerform { s with base := b } i flag := canPerform_base hbase
    constructor
    · intro hall _
      rw [← hnew, ← hcan]
      exact hall _ ((hlisted _).mpr (.inr rfl))
    · intro hkeep i hi
      have hflags := hkeep (.inr rfl)
      rw [hcan]
      rcases (hlisted i).mp hi with hi | rfl
      · exact hold.mpr (fun _ => hflags) i hi
      · rw [hnew]
        exact hflags

theorem follows_connect {b : Sessions.Server} (h : StreamsFollow s) (ht : Table s.base)
    (hn : Sessions.next s.base (.connect login) = some b) :
    StreamsFollow (loadNotify { s with base := b } s.base.users.length login) ↔ Kept s (.session (.connect login)) := by
  obtain ⟨hv, rfl⟩ : loginValidator login = true ∧ _ = b := by simpa [Sessions.next] using hn
  rcases ht.onPostConnect_cases hv with ⟨hid, heq⟩ | ⟨id, o, hid, ho, heq⟩
  · rw [heq]
    have hflags : connectFlags s.base login = s.base.flags login := by simp [connectFlags, hid]
    rw [Kept, hflags]
    refine follows_loadNotify h (iff_of_true (fun i hi => ?_) fun hheld => ?_) ?_ ?_
    · obtain ⟨j, hj, hlt⟩ := canPerform_session (h i hi)
      have := h i hi
      rw [canPerform_holds hj] at this
      have hj' : (s.base.users ++ [(⟨login, true, false, some s.base.objects.length⟩ : User)])[i]?.bind
          (·.session) = some j := by
        rwa [List.getElem?_append_left (canPerform_user (h i hi))]
      rw [canPerform_holds hj']
      simpa [List.getElem?_append_left hlt] using this
    · obtain ⟨_, _, hsome, _⟩ := hheld
      simp [hid] at hsome
    · rw [canPerform_manage]
      simp
    · simp [Server.isQuitting]
  · rw [heq]
    have hflags : connectFlags s.base login = o.rawflags := by simp [connectFlags, hid, ho]
    rw [Kept, hflags]
    refine follows_loadNotify h (follows_modify h hid (List.prefix_append ..)) ?_ ?_
    · rw [canPerform_manage]
      simp [ho]
    · simp [Server.isQuitting]

end sessions

/-! ## Every run -/

/-- A stream command leaves the sessions alone, and lists nobody but a client that may manage. -/
structure Requests (s t : Server) : Prop where
  base : t.base = s.base
  listed : ∀ j ∈ t.listed, j ∈ s.listed ∨ s.canPerform j 'm'

theorem Requests.refl (s : Server) : Requests s s := ⟨rfl, fun _ hj => .inl hj⟩

theorem Lists.requests {s t : Server} {i : ℕ} (h : Lists i s t) (hi : s.canPerform i 'm') : Requests s t := by
  refine ⟨h.base, fun j hj => (h.listed j hj).imp_right ?_⟩
  rintro rfl
  exact hi

/-- An event is one of the sessions, or a stream command. -/
theorem next_cases {s t : Server} {e : Event} (hn : next s e = some t) :
    (∃ event b, e = .session event ∧ Sessions.next s.base event = some b ∧ t = follow s b event) ∨
      Requests s t ∧ Kept s e := by
  cases e with
  | session event =>
    obtain ⟨b, hb, rfl⟩ := Option.map_eq_some_iff.mp hn
    exact .inl ⟨event, b, rfl, hb, rfl⟩
  | monitor i parameter =>
    obtain ⟨u, -, rfl⟩ := Option.map_eq_some_iff.mp hn
    refine .inr ⟨?_, trivial⟩
    split_ifs with hcan
    · exact (monitor_lists s i parameter).requests hcan
    · exact .refl s
  | stopMonitor i =>
    obtain ⟨u, -, rfl⟩ := Option.map_eq_some_iff.mp hn
    refine .inr ⟨?_, trivial⟩
    split_ifs with hcan
    · exact (stopMonitor_lists s i).requests hcan
    · exact .refl s
  | notify i parameter =>
    obtain ⟨u, -, rfl⟩ := Option.map_eq_some_iff.mp hn
    refine .inr ⟨?_, trivial⟩
    split_ifs with hcan
    · exact (notifier_lists s i u.login parameter).requests hcan
    · exact .refl s
  | stopNotify i =>
    obtain ⟨u, -, rfl⟩ := Option.map_eq_some_iff.mp hn
    exact .inr ⟨⟨stopNotify_base s i u.login, fun j hj => .inl (stopNotify_lists s i u.login j hj)⟩, trivial⟩

/-- A client that asks for a stream while it may manage does not break the property. -/
theorem StreamsFollow.requests {s t : Server} (h : StreamsFollow s) (hr : Requests s t) : StreamsFollow t := by
  intro j hj
  rw [canPerform_base hr.base]
  rcases hr.listed j hj with hj | hcan
  · exact h j hj
  · exact hcan

/-- An event of the sessions keeps the property exactly when it is `Kept`. -/
theorem follows_follow {s : Server} {b : Sessions.Server} {e : Sessions.Event} (h : StreamsFollow s) (ht : Table s.base)
    (hb : Sessions.next s.base e = some b) : StreamsFollow (follow s b e) ↔ Kept s (.session e) := by
  cases e with
  | connect login => exact follows_connect h ht hb
  | disconnect i =>
    obtain rfl : _ = b := by simpa [Sessions.next] using hb
    refine iff_of_true (h.fewer (fun _ hj => hj) ?_) trivial
    exact canPerform_modify_users (f := fun u => { u with connected := false }) (fun _ => rfl) rfl rfl
  | destroy i =>
    refine iff_of_true (h.fewer (fun _ hj => listed_monitorRemove (listed_notifyRemove hj)) ?_) trivial
    simp only [Sessions.next] at hb
    split at hb
    · split_ifs at hb
      obtain rfl := Option.some.inj hb
      refine canPerform_modify_users (i := i) (f := fun u => { u with destroyed := true }) (fun _ => rfl) ?_ ?_
      · simp [follow, determineLifetime_objects]
      · simp [follow, determineLifetime_objects]
    · simp at hb
  | forget login =>
    obtain rfl : _ = b := by simpa [Sessions.next] using hb
    exact iff_of_true (h.fewer (fun _ hj => hj) fun j => canPerform_determineLifetime s login j 'm') trivial
  | addFlag i login flag =>
    obtain rfl := Option.some.inj hb
    by_cases hadmin : s.base.canAdmin i
    · by_cases hadds : AddsFlag s.base login flag
      · simpa [Kept, follow, hadmin, hadds, addFlag_accepted hadds] using follows_reflag h ht _
      · simpa [Kept, follow, hadmin, hadds, addFlag_refused hadds] using h
    · simpa [Kept, follow, hadmin] using h
  | delFlag i login flag =>
    obtain rfl := Option.some.inj hb
    by_cases hadmin : s.base.canAdmin i
    · by_cases hdels : DelsFlag s.base login flag
      · simpa [Kept, follow, hadmin, hdels, delFlag_accepted hdels] using follows_reflag h ht _
      · simpa [Kept, follow, hadmin, hdels, delFlag_refused hdels] using h
    · simpa [Kept, follow, hadmin] using h

theorem follows_next {s t : Server} {e : Event} (h : StreamsFollow s) (ht : Table s.base) (hn : next s e = some t) :
    StreamsFollow t ↔ Kept s e := by
  rcases next_cases hn with ⟨event, b, rfl, hb, rfl⟩ | ⟨hr, hkept⟩
  · exact follows_follow h ht hb
  · exact iff_of_true (h.requests hr) hkept

theorem follow_base (s : Server) (b : Sessions.Server) (e : Sessions.Event) : (follow s b e).base = b := by
  cases e with
  | connect login =>
    simp only [follow, loadNotify]
    split <;> simp
  | disconnect | destroy | forget | addFlag | delFlag => rfl

theorem table_next {s t : Server} {e : Event} (ht : Table s.base) (hn : next s e = some t) : Table t.base := by
  rcases next_cases hn with ⟨event, b, rfl, hb, rfl⟩ | ⟨hr, -⟩
  · rw [follow_base]
    exact ht.step hb
  · rwa [hr.base]

theorem flushMonitor_listed {s : Server} {flushing : CMDBuffer} {i : ℕ} (hi : i ∈ s.flushMonitor flushing) :
    i ∈ s.listed :=
  List.mem_append_left _ ((List.filter_sublist.map _).subset hi)

theorem flushNotify_listed {s : Server} {ready : Notification} {i : ℕ} (hi : i ∈ s.flushNotify ready) : i ∈ s.listed :=
  List.mem_append_right _ ((List.filter_sublist.map _).subset hi)

/-- While flag changes and connections leave the right to manage to the clients that the lists hold, every listed
client has it and so has every client that a flush delivers to; the first event that is not so breaks the property. -/
theorem streams_follow_privileges {s : Server} (h : machine.Reach Kept s) :
    StreamsFollow s ∧
    (∀ flushing, ∀ i ∈ s.flushMonitor flushing, s.canPerform i 'm') ∧
    (∀ ready, ∀ i ∈ s.flushNotify ready, s.canPerform i 'm') ∧
    ∀ e t, next s e = some t → (StreamsFollow t ↔ Kept s e) := by
  have hinv : Table s.base ∧ StreamsFollow s := by
    induction h with
    | initial hstart =>
      obtain ⟨hbase, hmonitor, hnotify⟩ := hstart
      exact ⟨.start hbase, by simp [StreamsFollow, Server.listed, hmonitor, hnotify]⟩
    | step _ hg hn ih => exact ⟨table_next ih.1 hn, (follows_next ih.2 ih.1 hn).mpr hg⟩
  obtain ⟨ht, hs⟩ := hinv
  refine ⟨hs, fun flushing i hi => ?_, fun ready i hi => ?_, fun e t hn => follows_next hs ht hn⟩
  · exact hs i (flushMonitor_listed hi)
  · exact hs i (flushNotify_listed hi)

/-- The root user, and a login with the right to manage. -/
def twoManagers : Server where
  base :=
    { flags := fun login => if login = ROOT_USER then ['r'] else if login = "robert".toList then ['m'] else []
      created := fun _ => true
      objects := []
      sessions := fun _ => none
      users := [] }
  instances i := (Nat.repr i).toList
  notify _ := []
  monitorList := []
  notifyList := []

theorem twoManagers_initial : machine.initial twoManagers := ⟨⟨rfl, rfl, rfl⟩, rfl, rfl⟩

theorem streams_follow_privileges_run : ∃ s, machine.Reach Kept s ∧ s.monitorList = [(1, MONITOR_DEBUG)] ∧
    s.notifyList = [(1, NOTIFY_DEFAULT)] ∧ s.canPerform 1 'm' := by
  have h : (machine.exec Kept twoManagers [.session (.connect ROOT_USER), .session (.connect "robert".toList),
      .monitor 1 (some "debug".toList), .notify 1 none, .session (.delFlag 0 "robert".toList ['e'])]).any (fun s =>
        s.monitorList = [(1, MONITOR_DEBUG)] ∧ s.notifyList = [(1, NOTIFY_DEFAULT)]) := by decide
  obtain ⟨s, hr, hmonitor, hnotify⟩ := Machine.exec_holds h (.initial twoManagers_initial)
  exact ⟨s, hr, hmonitor, hnotify, (streams_follow_privileges hr).1 1 (by simp [Server.listed, hmonitor])⟩

/-- DELFLAG leaves the monitor in the list, and the stored level brings the client back after it reconnects. -/
theorem revoked_keeps_streams :
    (∃ s, machine.Reachable s ∧ ¬StreamsFollow s ∧
      ∃ i ∈ s.flushMonitor ⟨"0".toList, MONITOR_DEFAULT⟩, s.canPerform i 'm' = false) ∧
    ∃ s, machine.Reachable s ∧ ¬StreamsFollow s ∧
      ∃ i ∈ s.flushNotify ⟨none, NOTIFY_DEFAULT⟩, s.canPerform i 'm' = false := by
  have hmonitor : (machine.exec (fun _ _ => True) twoManagers [.session (.connect ROOT_USER),
      .session (.connect "robert".toList), .monitor 1 none, .session (.delFlag 0 "robert".toList ['m'])]).any (fun s =>
        ¬StreamsFollow s ∧ ∃ i ∈ s.flushMonitor ⟨"0".toList, MONITOR_DEFAULT⟩, s.canPerform i 'm' = false) := by decide
  have hnotify : (machine.exec (fun _ _ => True) twoManagers [.session (.connect ROOT_USER),
      .session (.connect "robert".toList), .notify 1 none, .session (.delFlag 0 "robert".toList ['m']),
      .session (.disconnect 1), .session (.destroy 1), .session (.connect "robert".toList)]).any (fun s =>
        ¬StreamsFollow s ∧ ∃ i ∈ s.flushNotify ⟨none, NOTIFY_DEFAULT⟩, s.canPerform i 'm' = false) := by decide
  constructor
  · exact Machine.exec_holds hmonitor (.initial twoManagers_initial)
  · exact Machine.exec_holds hnotify (.initial twoManagers_initial)

end BerylDB.Streams
