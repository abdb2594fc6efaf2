import BerylDB.Accounts

/-! # Accounts and system tables

Records of accounts are maps under the name of the login, next to the maps that the daemon reads when it starts. -/
namespace BerylDB.Logins
open Text Store Groups

def databasesKey : Bytes := lit "databases"

/-- The maps of the daemon in the core database. -/
def systemTables : List Bytes :=
  [groupsKey, databasesKey, confKey, lit "dbconf", lit "dbuser", notifyKey, lit "instance", userlist]

/-- What the commands may change of the system tables. -/
structure Framed (k k' : Kernel) (commands : List Command) : Prop where
  tables : ∀ key ∈ systemTables, key ≠ notifyKey → key ≠ userlist → k'.table key = k.table key
  notify : ∀ login, (k'.table notifyKey)[login]? = (k.table notifyKey)[login]? ∨
    .delUser login ∈ commands ∧ (k'.table notifyKey)[login]? = none
  users : ∀ login, (∀ c ∈ commands, c.login ≠ login) → (k'.table userlist)[login]? = (k.table userlist)[login]?

/-- A restart reads the same settings, groups and databases. -/
structure SameRestart (P : Platform) (k k' : Kernel) : Prop where
  settings : (Settings.load P k').setMap = (Settings.load P k).setMap
  objects : (Groups.Server.startup P k').objects = (Groups.Server.startup P k).objects
  groupList : (Groups.Server.startup P k').groupList = (Groups.Server.startup P k).groupList
  databases : CMapsHelper.hlist P k' databasesKey = CMapsHelper.hlist P k databasesKey

variable {P : Platform} {k k' : Kernel}

/-- Names of system tables have no slash. -/
theorem systemTable_plain {key : Bytes} (system : key ∈ systemTables) (login : Bytes) :
    key ≠ usergroups login ∧ key ≠ userchans login := by
  have slash : (47 : UInt8) ∉ key := by
    have each : systemTables.all fun key => !key.contains 47 := by decide
    simpa using List.all_eq_true.mp each key system
  constructor
  · rintro rfl
    exact slash (List.mem_append_right login (by decide))
  · rintro rfl
    exact slash (List.mem_append_right login (by decide))

theorem systemTable_accepted {key : Bytes} (system : key ∈ systemTables) :
    (3 ≤ key.length ∧ key.length ≤ 15) ∧ loginValidator key ∧ key ≠ lit "root" := by
  have each : systemTables.all fun key => decide ((3 ≤ key.length ∧ key.length ≤ 15) ∧ loginValidator key ∧ key ≠ lit "root") := by
    decide
  simpa using List.all_eq_true.mp each key system

/-- A command about another login writes only its own entries of two of the system tables. -/
theorem Command.writes_system {c : Command} (plain : c.login ∉ systemTables) {key name : Bytes}
    (system : key ∈ systemTables) (writes : c.Writes key name) :
    key = userlist ∧ name = c.login ∨ key = notifyKey ∧ c = .delUser name := by
  have other : key ≠ c.login := fun own => plain (own ▸ system)
  obtain ⟨groups, chans⟩ := systemTable_plain system c.login
  cases c with
  | addUser login pass hashed now =>
    rcases writes with own | listed | grouped
    · exact absurd own.1 other
    · exact .inl listed
    · exact absurd grouped.1 groups
  | delUser login =>
    rcases writes with own | ⟨listed | notified, rfl⟩ | grouped | joined
    · exact absurd own.1 other
    · exact .inl ⟨listed, rfl⟩
    · exact .inr ⟨notified, rfl⟩
    · exact absurd grouped groups
    · exact absurd joined chans
  | passwd => exact absurd writes.1 other
  | passwdOf => exact absurd writes.1 other
  | setStatus => exact absurd writes.1 other
  | addFlag => exact absurd writes.1 other
  | delFlag => exact absurd writes.1 other

namespace Accounts

variable {s : Accounts} {commands : List Command}

/-- One more command about another login keeps the frame. -/
theorem handle_framed (core : s.core.Core) (framed : Framed k s.core commands) {c : Command}
    (plain : c.login ∉ systemTables) : Framed k (s.handle P c).core (commands ++ [c]) := by
  have frame := (handle_frame (P := P) core c).2
  have writes {key name : Bytes} (system : key ∈ systemTables) (written : c.Writes key name) :=
    Command.writes_system plain system written
  refine ⟨fun key system notify users => ?_, fun login => ?_, fun login others => ?_⟩
  · rw [← framed.tables key system notify users]
    refine Std.ExtTreeMap.ext_getElem? fun name => frame key name fun written => ?_
    rcases writes system written with listed | notified
    · exact users listed.1
    · exact notify notified.1
  · have kept := framed.notify login
    by_cases written : c.Writes notifyKey login
    · rcases writes (by decide) written with ⟨listed, -⟩ | ⟨-, rfl⟩
      · exact absurd listed (by decide)
      · rcases delUser_deletes (P := P) core login notifyKey login with same | deleted
        · rw [same]
          exact kept.imp id fun gone => ⟨List.mem_append_left _ gone.1, gone.2⟩
        · exact .inr ⟨List.mem_append_right _ (by simp), deleted⟩
    · rw [frame notifyKey login written]
      exact kept.imp id fun gone => ⟨List.mem_append_left _ gone.1, gone.2⟩
  · rw [frame userlist login fun written => ?_]
    · exact framed.users login fun c here => others c (List.mem_append_left _ here)
    · rcases writes (by decide) written with ⟨-, own⟩ | ⟨notified, -⟩
      · exact others c (by simp) own.symm
      · exact absurd notified (by decide)

theorem run_framed (core : s.core.Core) (plain : ∀ c ∈ commands, c.login ∉ systemTables) :
    (s.run P commands).core.Core ∧ Framed s.core (s.run P commands).core commands := by
  induction commands using List.reverseRecOn with
  | nil => exact ⟨core, fun _ _ _ _ => rfl, fun _ => .inl rfl, fun _ _ => rfl⟩
  | append_singleton commands c ih =>
    obtain ⟨core', framed⟩ := ih fun c here => plain c (List.mem_append_left _ here)
    have ran : s.run P (commands ++ [c]) = (s.run P commands).handle P c := by simp [run]
    rw [ran]
    exact ⟨(handle_frame core' c).1, handle_framed core' framed (plain c (by simp))⟩

end Accounts

/-! ## Restarts -/

/-- Two servers with the same groups, in memory and on disk. -/
structure AlikeGroups (s t : Groups.Server) : Prop where
  core : s.core.Core ∧ t.core.Core
  table : t.core.table groupsKey = s.core.table groupsKey
  objects : t.objects = s.objects
  groupList : t.groupList = s.groupList

theorem AlikeGroups.add {s t : Groups.Server} (h : AlikeGroups s t) (name flags : Bytes) :
    AlikeGroups (s.add P name flags) (t.add P name flags) := by
  have find : t.find P (name.map toLower) = s.find P (name.map toLower) := by
    unfold Groups.Server.find
    rw [h.groupList]
  unfold Groups.Server.add
  dsimp only
  rw [find, h.objects, h.groupList]
  split
  · exact h
  · refine ⟨?_, ?_, rfl, rfl⟩
    · split
      · exact ⟨h.core.1.set, h.core.2.set⟩
      · exact h.core
    · split
      · refine Std.ExtTreeMap.ext_getElem? fun item => ?_
        rw [h.core.2.set_field, h.core.1.set_field, h.table]
      · exact h.table

theorem AlikeGroups.startup (core : k.Core) (core' : k'.Core) (same : k'.table groupsKey = k.table groupsKey) :
    AlikeGroups (Groups.Server.startup P k) (Groups.Server.startup P k') := by
  have load (names : List Bytes) (s t : Groups.Server) (h : AlikeGroups s t) :
      AlikeGroups (names.foldl (fun s name => s.add P name (CMapsHelper.get P s.core groupsKey name)) s)
        (names.foldl (fun s name => s.add P name (CMapsHelper.get P s.core groupsKey name)) t) := by
    induction names generalizing s t with
    | nil => exact h
    | cons name names ih =>
      have flags : CMapsHelper.get P t.core groupsKey name = CMapsHelper.get P s.core groupsKey name := by
        rw [h.core.2.get_eq, h.core.1.get_eq, h.table]
      simp only [List.foldl_cons, flags]
      exact ih _ _ (h.add name _)
  unfold Groups.Server.startup
  rw [core.hlist_eq, core'.hlist_eq, same]
  exact load _ _ _ ⟨⟨core, core'⟩, same, rfl, rfl⟩

theorem Framed.sameRestart {commands : List Command} (h : Framed k k' commands) (core : k.Core) (core' : k'.Core) :
    SameRestart P k k' := by
  have groups := AlikeGroups.startup (P := P) core core' (h.tables groupsKey (by decide) (by decide) (by decide))
  refine ⟨?_, groups.objects, groups.groupList, ?_⟩
  · rw [Settings.load_setMap core, Settings.load_setMap core', h.tables confKey (by decide) (by decide) (by decide)]
  · rw [core.hlist_eq, core'.hlist_eq, h.tables databasesKey (by decide) (by decide) (by decide)]

/-- ADDUSER of a system table, on a first start. -/
theorem addUser_unframed {key : Bytes} (system : key ∈ systemTables) : ¬ Framed freshCore
    ((⟨freshCore, []⟩ : Accounts).run P [.addUser key (lit "secret") (lit "hashed") 7]).core
    [.addUser key (lit "secret") (lit "hashed") 7] := by
  obtain ⟨length, valid, other⟩ := systemTable_accepted system
  have accepted : (⟨freshCore, []⟩ : Accounts).addsUser P key (lit "secret") := by
    have secret : 3 ≤ (lit "secret").length ∧ (lit "secret").length ≤ 30 := by decide
    have new : CMapsHelper.get P freshCore key (lit "created") = [] := by simp [freshCore_core.get_eq, freshCore_table]
    simp [Accounts.addsUser, Accounts.checkLogin, Accounts.exists', UserHelper.find, length, valid, other, secret, new]
  have plain := systemTable_plain system key
  have listed : ¬(key = userlist ∧ lit "userlogin" = key) := by
    rintro ⟨rfl, same⟩
    exact absurd same (by decide)
  have fields : lit "userlogin" ≠ lit "created" ∧ lit "userlogin" ≠ lit "status" ∧ lit "userlogin" ≠ lit "pass" := by decide
  have written : (((⟨freshCore, []⟩ : Accounts).run P [.addUser key (lit "secret") (lit "hashed") 7]).core.table key)[lit
      "userlogin"]? = some key := by
    simp only [Accounts.run, List.foldl_cons, List.foldl_nil, Accounts.handle, if_pos accepted]
    rw [UserHelper.add_field freshCore_core length]
    simp [plain.1, listed, fields]
  have unwritten : (freshCore.table key)[lit "userlogin"]? = none := by simp [freshCore_table]
  intro framed
  by_cases notify : key = notifyKey
  · subst notify
    rcases framed.notify (lit "userlogin") with same | removed
    · rw [written, unwritten] at same
      cases same
    · simp at removed
  · by_cases users : key = userlist
    · subst users
      have same := framed.users (lit "userlogin") (by decide)
      rw [written, unwritten] at same
      cases same
    · have same := framed.tables key system notify users
      rw [same, unwritten] at written
      cases written

/-- Commands about some logins keep the system tables, over every run, exactly if none of the logins is the name of one;
a restart then reads what it would have read without them. -/
theorem tables_framed (P : Platform) (logins : Set Bytes) :
    ((∀ s : Accounts, s.core.Core → ∀ commands : List Command, (∀ c ∈ commands, c.login ∈ logins) →
        Framed s.core (s.run P commands).core commands) ↔ ∀ key ∈ systemTables, key ∉ logins) ∧
      ((∀ key ∈ systemTables, key ∉ logins) → ∀ s : Accounts, s.core.Core → ∀ commands : List Command,
        (∀ c ∈ commands, c.login ∈ logins) → SameRestart P s.core (s.run P commands).core) := by
  refine ⟨⟨fun framed key system named => ?_, fun plain s core commands about => ?_⟩, fun plain s core commands about => ?_⟩
  · exact addUser_unframed system (framed ⟨freshCore, []⟩ freshCore_core _ (by simpa [Command.login] using named))
  · exact (Accounts.run_framed core fun c here system => plain _ system (about c here)).2
  · obtain ⟨core', framed⟩ := Accounts.run_framed (P := P) core fun c here system => plain _ system (about c here)
    exact framed.sameRestart core core'

open Store.Server (integers)

/-- An account with the name `groups` is accepted, and its record adds groups. -/
theorem tables_unframed : ¬ ∀ login : Bytes, loginValidator login → login ≠ lit "root" →
    ∀ s : Accounts, s.core.Core → ∀ commands : List Command, (∀ c ∈ commands, c.login = login) →
      Framed s.core (s.run integers commands).core commands := by
  intro framed
  have run := framed groupsKey (by decide) (by decide) ⟨freshCore, []⟩ freshCore_core
    [.addUser groupsKey (lit "secret") (lit "hashed") 7] (by simp [Command.login])
  exact addUser_unframed (by decide) run

end BerylDB.Logins
