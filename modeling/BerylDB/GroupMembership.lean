import BerylDB.GroupPermissions

/-! # Group membership

The groups of a connected client and the map `login/groups` of its login.  `Find` takes a name in any case; GSET and
GDEL write and compare the name as it was given. -/
namespace BerylDB.Groups
open Text Store Transition

variable {P : Platform}

/-- The groups of a client are those of the table whose names are listed for its login. -/
structure Client.Member (c : Client) (s : Server) : Prop where
  once : c.groups.Nodup
  exactly : ∀ group, group ∈ c.groups ↔
    ∃ name ∈ s.core.table (usergroups c.login), (name, group) ∈ s.groupList

/-- Every client that is registered and connected has exactly the groups listed for its login. -/
def Coherent (s : Server) : Prop := ∀ c ∈ s.clients, c.connected → c.registered → c.Member s

/-- GSET for a listed account gives the name of the group in lower case. -/
def InLowerCase (P : Platform) (s : Server) : Event → Prop
  | .assign gname dest _ => (s.find P gname).isSome → s.exists' P dest → (s.core.table userlist).contains dest →
    gname.map toLower = gname
  | _ => True

instance (P : Platform) (s : Server) (e : Event) : Decidable (InLowerCase P s e) :=
  match e with
  | .groupAdd _ | .flagUpdate .. | .greset _ | .delGroup _ | .assign .. | .unAssign .. | .login _ | .connect ..
  | .disconnect _ => by
    unfold InLowerCase; infer_instance

/-- A core database whose accounts are listed in groups that it has entries for. -/
structure Listed (k : Kernel) : Prop where
  saved : Server.Saved k
  groups : ∀ login ∈ k.table userlist, ∀ name ∈ k.table (usergroups login), name ∈ k.table groupsKey

theorem Server.Filed.name_iff {s : Server} (h : s.Filed) {name name' : Bytes} {group group' : ℕ}
    (filed : (name, group) ∈ s.groupList) (filed' : (name', group') ∈ s.groupList) : name = name' ↔ group = group' :=
  ⟨fun same => congrArg Prod.snd (List.inj_on_of_nodup_map h.distinct filed filed' same),
    fun same => congrArg Prod.fst (List.inj_on_of_nodup_map h.unshared filed filed' same)⟩

namespace Client

variable {c : Client} {group group' : ℕ}

theorem mem_pushGroup : group' ∈ (c.pushGroup group).groups ↔ group' ∈ c.groups ∨ group' = group := by
  unfold pushGroup
  split
  · rename_i held
    exact ⟨.inl, fun either => either.elim id fun same => same ▸ held⟩
  · simp

theorem nodup_pushGroup (h : c.groups.Nodup) : (c.pushGroup group).groups.Nodup := by
  unfold pushGroup
  split
  · exact h
  · rename_i lacking
    exact h.append (by simp) (by simpa using lacking)

@[simp] theorem pushGroup_login : (c.pushGroup group).login = c.login := by unfold pushGroup; split <;> rfl
@[simp] theorem pushGroup_connected : (c.pushGroup group).connected = c.connected := by unfold pushGroup; split <;> rfl
@[simp] theorem pushGroup_registered : (c.pushGroup group).registered = c.registered := by unfold pushGroup; split <;> rfl

end Client

namespace Client.Member

variable {c : Client} {s : Server} {name : Bytes} {group : ℕ}

/-- `RemoveGroup` leaves the groups of the other names. -/
theorem removeGroup (h : c.Member s) (filed : s.Filed) (here : (name, group) ∈ s.groupList) :
    (c.removeGroup group).groups.Nodup ∧ ∀ group', group' ∈ (c.removeGroup group).groups ↔
      ∃ name', name' ≠ name ∧ name' ∈ s.core.table (usergroups c.login) ∧ (name', group') ∈ s.groupList := by
  refine ⟨h.once.erase group, fun group' => ?_⟩
  rw [Client.removeGroup, h.once.mem_erase_iff, h.exactly]
  constructor
  · rintro ⟨other, name', listed, there⟩
    exact ⟨name', mt (filed.name_iff there here).mp other, listed, there⟩
  · rintro ⟨name', other, listed, there⟩
    exact ⟨mt (filed.name_iff there here).mpr other, name', listed, there⟩

/-- `PushGroup` adds the group of a name. -/
theorem pushGroup (h : c.Member s) (filed : s.Filed) (here : (name, group) ∈ s.groupList) :
    (c.pushGroup group).groups.Nodup ∧ ∀ group', group' ∈ (c.pushGroup group).groups ↔
      ∃ name', (name' = name ∨ name' ∈ s.core.table (usergroups c.login)) ∧ (name', group') ∈ s.groupList := by
  refine ⟨nodup_pushGroup h.once, fun group' => ?_⟩
  rw [mem_pushGroup, h.exactly]
  constructor
  · rintro (⟨name', listed, there⟩ | rfl)
    · exact ⟨name', .inr listed, there⟩
    · exact ⟨name, .inl rfl, here⟩
  · rintro ⟨name', rfl | listed, there⟩
    · exact .inr ((filed.name_iff there here).mp rfl)
    · exact .inl ⟨name', listed, there⟩

end Client.Member

namespace Server

/-- Accounts are listed in groups of the table, clients belong to accounts, and a client has no groups before it is
registered. -/
structure Coherence (s : Server) : Prop where
  formed : s.WellFormed
  listed : ∀ login ∈ s.core.table userlist, ∀ name ∈ s.core.table (usergroups login), name ∈ s.groupList.map (·.1)
  accounts : ∀ c ∈ s.clients, c.login ∈ s.core.table userlist
  unregistered : ∀ c ∈ s.clients, c.registered = false → c.groups = []
  members : Coherent s

namespace Coherence

variable {s t : Server} {gname flags dest : Bytes} {group now : ℕ}

theorem startup {k : Kernel} (h : Listed k) : (startup P k).Coherence := by
  have loaded := startup_loaded (P := P) h.saved
  refine ⟨.startup h.saved, fun login here name listed => ?_, ?_, ?_, ?_⟩
  · rw [loaded.tables] at here listed
    rw [loaded.names, Std.ExtTreeMap.mem_keys]
    exact h.groups login here name listed
  · simp [loaded.clients]
  · simp [loaded.clients]
  · simp [Coherent, loaded.clients]

/-- A step that changes neither the table of groups nor the clients, nor what the accounts are listed in. -/
theorem quiet (h : s.Coherence) (formed : t.WellFormed) (groupList : t.groupList = s.groupList)
    (clients : t.clients = s.clients) (tables : ∀ key, key ≠ groupsKey → t.core.table key = s.core.table key) :
    t.Coherence := by
  have users : t.core.table userlist = s.core.table userlist := tables userlist (by decide)
  have maps (login : Bytes) := tables (usergroups login) (usergroups_ne_groupsKey login)
  refine ⟨formed, ?_, ?_, ?_, ?_⟩
  · rw [users, groupList]
    intro login here name listed
    exact h.listed login here name (maps login ▸ listed)
  · rw [users, clients]
    exact h.accounts
  · rw [clients]
    exact h.unregistered
  · unfold Coherent
    rw [clients]
    intro c here connected registered
    obtain ⟨once, exactly⟩ := h.members c here connected registered
    exact ⟨once, fun group => by rw [maps, groupList]; exact exactly group⟩

theorem add (h : s.Coherence) (named : GroupName (gname.map toLower)) (new : s.find P gname = none)
    (valid : Permissions.valid flags) (flags_ne : flags ≠ []) : (s.add P gname flags).Coherence := by
  have formed := h.formed.add (P := P) named new valid flags_ne
  have fresh := h.formed.filed.find_none_iff.mp new
  have tables := (h.formed.filed.add (P := P) named new flags).2
  have kept (key : Bytes) (other : key ≠ groupsKey) : (s.add P gname flags).core.table key = s.core.table key := by
    rw [tables, if_neg fun own => other own.1]
  have users := kept userlist (by decide)
  have maps (login : Bytes) := kept (usergroups login) (usergroups_ne_groupsKey login)
  have clients : (s.add P gname flags).clients = s.clients := by rw [Filed.add_eq new]
  have groupList : (s.add P gname flags).groupList = s.groupList ++ [(gname.map toLower, s.objects.length)] := by
    rw [Filed.add_eq new]
  refine ⟨formed, ?_, ?_, ?_, ?_⟩
  · rw [users, groupList]
    intro login here name listed
    rw [List.map_append]
    exact List.mem_append_left _ (h.listed login here name (maps login ▸ listed))
  · rw [users, clients]
    exact h.accounts
  · rw [clients]
    exact h.unregistered
  · unfold Coherent
    rw [clients]
    intro c here connected registered
    obtain ⟨once, exactly⟩ := h.members c here connected registered
    refine ⟨once, fun group => (exactly group).trans ?_⟩
    rw [maps, groupList]
    constructor
    · rintro ⟨name, listed, filed⟩
      exact ⟨name, listed, List.mem_append_left _ filed⟩
    · rintro ⟨name, listed, filed⟩
      refine ⟨name, listed, ?_⟩
      rcases List.mem_append.mp filed with old | last
      · exact old
      · obtain ⟨rfl, -⟩ : name = gname.map toLower ∧ group = s.objects.length := by simpa using last
        exact absurd (h.listed c.login (h.accounts c here) _ listed) fresh

theorem delete (h : s.Coherence) : (s.delete P gname).Coherence := by
  have formed : (s.delete P gname).WellFormed := h.formed.delete
  cases found : s.find P gname with
  | none => rwa [Filed.delete_unknown found]
  | some group =>
    have filed := h.formed.filed.find_iff.mp found
    have deleted := (h.formed.filed.delete (P := P) found).2
    have users : (s.delete P gname).core.table userlist = s.core.table userlist :=
      deleted.others userlist (by decide) fun login _ => (usergroups_ne_userlist login).symm
    refine ⟨formed, ?_, ?_, ?_, ?_⟩
    · rw [users, deleted.groupList]
      intro login here name listed
      rw [deleted.listed login here, Std.ExtTreeMap.mem_erase] at listed
      obtain ⟨e, there, rfl⟩ := List.mem_map.mp (h.listed login here name listed.2)
      have other : e.1 ≠ gname.map toLower := fun own => listed.1 (by simp [own])
      exact List.mem_map.mpr ⟨e, List.mem_filter.mpr ⟨there, by simpa using other⟩, rfl⟩
    · rw [users, deleted.clients]
      intro c here
      obtain ⟨old, there, rfl⟩ := List.mem_map.mp here
      split
      · exact h.accounts old there
      · exact h.accounts old there
    · rw [deleted.clients]
      intro c here unregistered
      obtain ⟨old, there, rfl⟩ := List.mem_map.mp here
      split at unregistered
      · simp [Client.removeGroup, h.unregistered old there unregistered, *]
      · simp [h.unregistered old there unregistered, *]
    · rw [Coherent, deleted.clients]
      intro c here connected registered
      obtain ⟨old, there, rfl⟩ := List.mem_map.mp here
      by_cases online : old.connected
      · rw [if_pos online] at registered ⊢
        have member := h.members old there online registered
        obtain ⟨once, exactly⟩ := member.removeGroup h.formed.filed filed
        refine ⟨once, fun group' => (exactly group').trans ?_⟩
        have map : (s.delete P gname).core.table (usergroups (old.removeGroup group).login) = _ :=
          deleted.listed old.login (h.accounts old there)
        rw [map, deleted.groupList]
        simp only [Std.ExtTreeMap.mem_erase, ne_eq, Std.LawfulEqCmp.compare_eq_iff_eq, List.mem_filter, decide_eq_true_eq]
        constructor
        · rintro ⟨name, other, listed, filed'⟩
          exact ⟨name, ⟨Ne.symm other, listed⟩, filed', other⟩
        · rintro ⟨name, ⟨-, listed⟩, filed', other⟩
          exact ⟨name, other, listed, filed'⟩
      · rw [if_neg online] at connected
        exact absurd connected online

/-- An edit of the clients and the map of one login. -/
theorem edit (h : s.Coherence) {k : Kernel} {change : Client → Client}
    (formed : WellFormed { s with core := k, clients := s.editLogin dest change })
    (tables : ∀ key, key ≠ usergroups dest → k.table key = s.core.table key)
    (frame : ∀ c, (change c).login = c.login ∧ (change c).connected = c.connected ∧ (change c).registered = c.registered)
    (edited : dest ∈ s.core.table userlist →
      (∀ name ∈ k.table (usergroups dest), name ∈ s.groupList.map (·.1)) ∧
      ∀ c, c.Member s → c.login = dest → (change c).groups.Nodup ∧
        ∀ group, group ∈ (change c).groups ↔ ∃ name ∈ k.table (usergroups dest), (name, group) ∈ s.groupList) :
    Coherence { s with core := k, clients := s.editLogin dest change } := by
  have users : k.table userlist = s.core.table userlist := tables userlist (usergroups_ne_userlist dest).symm
  have maps (login : Bytes) (other : login ≠ dest) : k.table (usergroups login) = s.core.table (usergroups login) :=
    tables (usergroups login) fun same => other (usergroups_injective same)
  refine ⟨formed, ?_, fun c here => ?_, fun c here unregistered => ?_, fun c here connected registered => ?_⟩
  · dsimp only
    rw [users]
    intro login here name listed
    by_cases own : login = dest
    · subst own
      exact (edited here).1 name listed
    · rw [maps login own] at listed
      exact h.listed login here name listed
  · dsimp only
    rw [users]
    obtain ⟨old, there, rfl⟩ := List.mem_map.mp here
    split
    · rw [(frame old).1]
      exact h.accounts old there
    · exact h.accounts old there
  · obtain ⟨old, there, rfl⟩ := List.mem_map.mp here
    split at unregistered
    · rename_i touched
      simp only [Bool.and_eq_true, beq_iff_eq] at touched
      rw [(frame old).2.2, touched.1.2] at unregistered
      cases unregistered
    · rename_i untouched
      rw [if_neg untouched]
      exact h.unregistered old there unregistered
  · obtain ⟨old, there, rfl⟩ := List.mem_map.mp here
    have account := h.accounts old there
    split at connected
    · rename_i touched
      rw [if_pos touched]
      simp only [Bool.and_eq_true, beq_iff_eq] at touched
      obtain ⟨⟨online, authentic⟩, login⟩ := touched
      obtain ⟨once, exactly⟩ := (edited (login ▸ account)).2 old (h.members old there online authentic) login
      refine ⟨once, fun group => ?_⟩
      rw [exactly, (frame old).1, login]
    · rename_i untouched
      rw [if_neg untouched] at registered ⊢
      have other : old.login ≠ dest := by simpa [connected, registered] using untouched
      obtain ⟨once, exactly⟩ := h.members old there connected registered
      refine ⟨once, fun group => ?_⟩
      dsimp only
      rw [exactly, maps old.login other]

theorem assign (h : s.Coherence) (condition : InLowerCase P s (.assign gname dest now)) :
    (s.assign P gname dest now).Coherence := by
  have formed : (s.assign P gname dest now).WellFormed := h.formed.same (assign_same h.formed.filed)
  obtain idle | ⟨group, found, account, -, changed⟩ := assign_cases P h.formed.filed gname dest now
  · rwa [idle]
  · rw [changed] at formed ⊢
    have tables := (h.formed.filed.core.set_spec P (usergroups_ne_nil dest) gname (convtoString now)).2
    refine h.edit formed (fun key other => ?_) (fun c => by simp) fun here => ?_
    · rw [tables, if_neg fun own => other own.1]
    · have lower : gname.map toLower = gname := condition (by simp [found]) account (by simpa using here)
      have filed := h.formed.filed.find_iff.mp found
      rw [lower] at filed
      have named : gname ≠ [] := (h.formed.filed.names _ filed).1
      rw [tables, if_pos ⟨rfl, named, convtoString_ne_nil now⟩]
      refine ⟨fun name listed => ?_, fun c member login => ?_⟩
      · rcases Std.ExtTreeMap.mem_insert.mp listed with own | old
        · rw [← Std.LawfulEqCmp.eq_of_compare own]
          exact List.mem_map.mpr ⟨_, filed, rfl⟩
        · exact h.listed dest here name old
      · obtain ⟨once, exactly⟩ := member.pushGroup h.formed.filed filed
        refine ⟨once, fun group => (exactly group).trans ?_⟩
        simp only [Std.ExtTreeMap.mem_insert, Std.LawfulEqCmp.compare_eq_iff_eq, login, @eq_comm _ gname]

theorem unAssign (h : s.Coherence) : (s.unAssign P gname dest).Coherence := by
  have formed : (s.unAssign P gname dest).WellFormed := h.formed.same (unAssign_same h.formed.filed)
  obtain idle | ⟨group, found, listed, changed⟩ := unAssign_cases P h.formed.filed gname dest
  · rwa [idle]
  · rw [changed] at formed ⊢
    have tables := (h.formed.filed.core.del_spec P (usergroups_ne_nil dest) gname).2
    refine h.edit formed (fun key other => ?_) (fun c => by simp [Client.removeGroup]) fun here => ?_
    · rw [tables, if_neg other]
    · obtain ⟨e, own, rfl⟩ := List.mem_map.mp (h.listed dest here gname listed)
      have filed := h.formed.filed.find_iff.mp found
      rw [Filed.lower (h.formed.filed.names e own)] at filed
      rw [tables, if_pos rfl]
      refine ⟨fun name left => h.listed dest here name (Std.ExtTreeMap.mem_of_mem_erase left), fun c member login => ?_⟩
      obtain ⟨once, exactly⟩ := member.removeGroup h.formed.filed filed
      refine ⟨once, fun group => (exactly group).trans ?_⟩
      simp only [Std.ExtTreeMap.mem_erase, ne_eq, Std.LawfulEqCmp.compare_eq_iff_eq, login, @eq_comm _ e.1, and_assoc]

/-- A step that only replaces clients. -/
theorem clients (h : s.Coherence) {clients : List Client} (each : ∀ c ∈ clients, c ∈ s.clients ∨
      c.login ∈ s.core.table userlist ∧ (c.registered = false → c.groups = []) ∧ (c.connected → c.registered → c.Member s)) :
    Coherence { s with clients := clients } where
  formed := h.formed.same ⟨h.formed.filed.core, rfl, rfl, rfl⟩
  listed := h.listed
  accounts c here := (each c here).elim (h.accounts c) fun new => new.1
  unregistered c here := (each c here).elim (h.unregistered c) fun new => new.2.1
  members c here connected registered := by
    have member : c.Member s :=
      (each c here).elim (fun old => h.members c old connected registered) fun new => new.2.2 connected registered
    exact ⟨member.once, member.exactly⟩

theorem login (h : s.Coherence) {login : Bytes} (account : login ∈ s.core.table userlist) :
    Coherence { s with clients := s.clients ++ [⟨login, true, false, []⟩] } := by
  refine h.clients fun c here => ?_
  rcases List.mem_append.mp here with old | last
  · exact .inl old
  · rw [List.mem_singleton.mp last]
    exact .inr ⟨account, fun _ => rfl, by simp⟩

theorem foldl_pushGroup (s : Server) (names : List Bytes) (held : Client) (once : held.groups.Nodup) :
    let loaded := names.foldl (fun c channel => match s.find P channel with
      | some group => c.pushGroup group
      | none => c) held
    loaded.login = held.login ∧ loaded.registered = held.registered ∧ loaded.groups.Nodup ∧
      ∀ group, group ∈ loaded.groups ↔ group ∈ held.groups ∨ ∃ name ∈ names, s.find P name = some group := by
  induction names generalizing held with
  | nil => simpa using once
  | cons name names ih =>
    rw [List.foldl_cons]
    cases found : s.find P name with
    | none => simpa [found] using ih held once
    | some inUse =>
      obtain ⟨login, registered, once', exactly⟩ := ih (held.pushGroup inUse) (Client.nodup_pushGroup once)
      refine ⟨by simpa [found] using login, by simpa [found] using registered, by simpa [found] using once', ?_⟩
      intro group
      refine (exactly group).trans ?_
      simp [Client.mem_pushGroup, found, or_assoc, eq_comm]

/-- `LoadGroups` gives a client the groups that its map lists. -/
theorem loadGroups (h : s.Coherence) {c : Client} (account : c.login ∈ s.core.table userlist) (empty : c.groups = []) :
    (s.loadGroups P c).login = c.login ∧ (s.loadGroups P c).registered = c.registered ∧ (s.loadGroups P c).Member s := by
  obtain ⟨login, registered, once, exactly⟩ := foldl_pushGroup s (CMapsHelper.hlist P s.core (usergroups c.login)) c (by simp [empty])
  have same : (s.loadGroups P c).login = c.login := login
  refine ⟨same, registered, once, fun group => (exactly group).trans ?_⟩
  rw [same]
  simp only [empty, List.not_mem_nil, false_or, mem_hlist h.formed.filed.core]
  refine exists_congr fun name => and_congr_right fun listed => ?_
  obtain ⟨e, filed, rfl⟩ := List.mem_map.mp (h.listed c.login account name listed)
  rw [h.formed.filed.find_iff, Filed.lower (h.formed.filed.names e filed)]

/-- A new connection copies the groups of another client of its login, or it loads them. -/
theorem connect {client first : ℕ} (h : s.Coherence) (connects : s.connect P client first = some t) : t.Coherence := by
  obtain ⟨c, inUse, here, there, -, unregistered, used, login, kind, rfl⟩ := connect_cases (P := P) connects
  have account := h.accounts c (List.mem_of_getElem? here)
  refine h.clients fun user new => ?_
  rcases List.mem_or_eq_of_mem_set new with old | rfl
  · exact .inl old
  · right
    split
    · rename_i other
      have authentic : inUse.registered := kind.resolve_right other
      obtain ⟨once, exactly⟩ := h.members inUse (List.mem_of_getElem? there) used authentic
      exact ⟨account, by simp, fun _ _ => ⟨once, by rwa [login] at exactly⟩⟩
    · have empty := h.unregistered c (List.mem_of_getElem? here) unregistered
      obtain ⟨same, registered, member⟩ := h.loadGroups (P := P) (c := { c with registered := true }) account empty
      exact ⟨by rwa [same], by simp [registered], fun _ _ => member⟩

theorem disconnect (h : s.Coherence) (client : ℕ) :
    Coherence { s with clients := s.clients.modify client fun c => { c with connected := false } } := by
  refine h.clients fun user new => ?_
  obtain ⟨i, held⟩ := List.mem_iff_getElem?.mp new
  rw [List.getElem?_modify] at held
  obtain ⟨c, here, rfl⟩ := Option.map_eq_some_iff.mp held
  have old := List.mem_of_getElem? here
  split
  · exact .inr ⟨h.accounts c old, h.unregistered c old, by simp⟩
  · exact .inl old

theorem updateFlags (h : s.Coherence) (found : s.find P gname = some group) : (s.updateFlags P group flags).Coherence := by
  obtain ⟨g, object, name⟩ := h.formed.filed.object found
  have formed : (s.updateFlags P group flags).WellFormed := h.formed.updateFlags found
  have stored := h.formed.filed.core.set_spec P groupsKey_ne_nil g.name flags
  rw [Filed.updateFlags_eq object] at formed ⊢
  refine h.quiet formed rfl rfl fun key other => ?_
  dsimp only
  split
  · rw [stored.2, if_neg fun own => other own.1]
  · rfl

theorem resetFlags (h : s.Coherence) : (s.resetFlags P gname).Coherence := by
  have formed : (s.resetFlags P gname).WellFormed := h.formed.resetFlags
  cases found : s.find P gname with
  | none => rwa [Filed.resetFlags_unknown found]
  | some group =>
    obtain ⟨g, object, -⟩ := h.formed.filed.object found
    rw [h.formed.filed.resetFlags_eq found object] at formed ⊢
    exact h.quiet formed rfl rfl fun _ _ => rfl

/-- One step, by its event. -/
theorem next {e : Event} (h : s.Coherence) (condition : InLowerCase P s e) (step : s.next P e = some t) :
    t.Coherence := by
  cases e with
  | groupAdd gname =>
    simp only [Server.next] at step
    split at step
    · cases step
    · rename_i sent
      split at step
      · rename_i valid
        cases step
        cases new : s.find P gname with
        | none => exact h.add (groupName_of_valid sent valid) new (by decide) (by decide)
        | some group => rwa [Filed.add_known new]
      · cases step
        exact h
  | flagUpdate gname flags =>
    simp only [Server.next] at step
    split at step
    · rename_i group found
      cases step
      exact h.updateFlags found
    · cases step
      exact h
  | greset gname =>
    simp only [Server.next] at step
    split at step
    · cases step
      exact h
    · cases step
      exact h.resetFlags
  | delGroup gname =>
    simp only [Server.next] at step
    split at step
    · cases step
      exact h
    · cases step
      exact h.delete
  | assign gname dest now =>
    cases step
    exact h.assign condition
  | unAssign gname dest =>
    cases step
    exact h.unAssign
  | login login =>
    simp only [Server.next] at step
    split at step
    · rename_i account
      cases step
      exact h.login (by simpa [mem_hlist h.formed.filed.core] using account)
    · cases step
  | connect client first => exact h.connect step
  | disconnect client =>
    cases step
    exact h.disconnect client

end Coherence

/-- `UserHelper::Add`; `hashed` is the password as the provider hashes it. -/
def addUser (P : Platform) (k : Kernel) (user hashed : Bytes) (now : ℕ) : Kernel :=
  if user.length < 3 ∨ user.length > 15 then k
  else
    let k := CMapsHelper.set P k user (lit "userlogin") user
    let k := CMapsHelper.set P k user (lit "pass") hashed
    let k := CMapsHelper.set P k user (lit "status") (lit "1")
    let k := CMapsHelper.set P k user (lit "created") (convtoString now)
    let k := CMapsHelper.set P k userlist user (lit "login")
    CMapsHelper.set P k (usergroups user) (lit "default") (convtoString now)

theorem mem_set {k : Kernel} (h : k.Core) {entry hesh value other name : Bytes} (entry_ne : entry ≠ []) :
    name ∈ (CMapsHelper.set P k entry hesh value).table other ↔
      other = entry ∧ name = hesh ∧ hesh ≠ [] ∧ value ≠ [] ∨ name ∈ k.table other := by
  rw [(h.set_spec P entry_ne hesh value).2]
  split
  · rename_i written
    rw [Std.ExtTreeMap.mem_insert, Std.LawfulEqCmp.compare_eq_iff_eq, @eq_comm _ hesh]
    simp [written]
  · rename_i rejected
    tauto

/-- A new account is listed in the group `default` alone. -/
theorem addUser_listed {k : Kernel} (h : Listed k) {user hashed : Bytes} {now : ℕ}
    (plain : user ≠ groupsKey ∧ user ≠ userlist ∧ ∀ login, user ≠ usergroups login)
    (new : k.table (usergroups user) = ∅) (present : lit "default" ∈ k.table groupsKey) :
    Listed (addUser P k user hashed now) := by
  unfold addUser
  split
  · exact h
  · rename_i size
    have user_ne : user ≠ [] := by rintro rfl; simp at size
    have set {k : Kernel} (core : k.Core) {entry : Bytes} (entry_ne : entry ≠ []) (hesh value : Bytes) :=
      (core.set_spec P entry_ne hesh value).1
    have login := set h.saved.core user_ne (lit "userlogin") user
    have pass := set login user_ne (lit "pass") hashed
    have status := set pass user_ne (lit "status") (lit "1")
    have created := set status user_ne (lit "created") (convtoString now)
    have users := set created userlist_ne_nil user (lit "login")
    have groups := set users (usergroups_ne_nil user) (lit "default") (convtoString now)
    dsimp only
    generalize written : CMapsHelper.set P _ (usergroups user) (lit "default") (convtoString now) = k' at groups ⊢
    have mem (other name : Bytes) (elsewhere : other ≠ user) : name ∈ k'.table other ↔
        other = usergroups user ∧ name = lit "default" ∨ other = userlist ∧ name = user ∨ name ∈ k.table other := by
      rw [← written, mem_set users (usergroups_ne_nil user), mem_set created userlist_ne_nil, mem_set status user_ne,
        mem_set pass user_ne, mem_set login user_ne, mem_set h.saved.core user_ne]
      simp [elsewhere, user_ne, convtoString_ne_nil, lit]
    have entries (name : Bytes) : name ∈ k'.table groupsKey ↔ name ∈ k.table groupsKey := by
      have unlisted : groupsKey ≠ userlist := by decide
      simp [mem groupsKey name plain.1.symm, (usergroups_ne_groupsKey user).symm, unlisted]
    refine ⟨⟨groups, fun name here => h.saved.names name ((entries name).mp here)⟩, fun login here name listed => ?_⟩
    rw [entries]
    rw [mem _ _ (plain.2.2 login).symm] at listed
    rw [mem _ _ plain.2.1.symm] at here
    rcases listed with ⟨-, rfl⟩ | ⟨same, -⟩ | listed
    · exact present
    · exact absurd same (usergroups_ne_userlist login)
    · rcases here with ⟨same, -⟩ | ⟨-, rfl⟩ | here
      · exact absurd same.symm (usergroups_ne_userlist user)
      · simp [new] at listed
      · exact h.groups login here name listed

end Server

/-- Along every run whose GSETs meet the condition, every client that is logged in has exactly the groups listed for
its login. -/
theorem membership_coherent {s : Server} (h : (machine P Listed).Reach (InLowerCase P) s) : Coherent s := by
  have invariant : s.Coherence := by
    refine h.invariant (I := Server.Coherence) ?_ ?_
    · rintro _ ⟨k, listed, rfl⟩
      exact .startup listed
    · intro s e t coherence condition step
      exact coherence.next condition step
  exact invariant.members

open Store.Server (integers)

/-- The core database of a first start, with one account. -/
def bobCore : Kernel := Server.addUser integers (CMapsHelper.set integers freshCore groupsKey (lit "default") defaultFlags)
  (lit "bob") (lit "secret") 7

theorem bobCore_listed : Listed bobCore := by
  have stored := freshCore_saved.core.set_spec integers groupsKey_ne_nil (lit "default") defaultFlags
  have unwritten (key : Bytes) (other : key ≠ groupsKey) :
      (CMapsHelper.set integers freshCore groupsKey (lit "default") defaultFlags).table key = ∅ := by
    rw [stored.2, if_neg fun own => other own.1, freshCore_table]
  have entry (name : Bytes) : name ∈ (CMapsHelper.set integers freshCore groupsKey (lit "default") defaultFlags).table groupsKey ↔
      name = lit "default" := by
    rw [stored.2, if_pos (by decide), freshCore_table, Std.ExtTreeMap.mem_insert, Std.LawfulEqCmp.compare_eq_iff_eq]
    simp [eq_comm]
  refine Server.addUser_listed ⟨⟨stored.1, fun name here => ?_⟩, fun login here => ?_⟩ ?_ ?_ ?_
  · rw [(entry name).mp here]
    have letters : (lit "default").all fun c => isDigit c || isLower c := by decide
    exact ⟨by decide, by simpa using letters⟩
  · simp [unwritten userlist (by decide)] at here
  · refine ⟨by decide, by decide, fun login same => ?_⟩
    have slash : (47 : UInt8) ∈ lit "bob" := same ▸ List.mem_append_right login (by decide)
    exact absurd slash (by decide)
  · exact unwritten _ (usergroups_ne_groupsKey _)
  · rw [entry]

/-- GSET with the name in lower case. -/
theorem membership_coherent_lower_case : ∃ s, (machine integers Listed).Reach (InLowerCase integers) s ∧
    (∃ c ∈ s.clients, c.connected ∧ c.registered ∧ c.groups = [0, 1]) ∧ Coherent s := by
  have h : ((machine integers Listed).exec (InLowerCase integers) (Server.startup integers bobCore)
      [.groupAdd (lit "readers"), .login (lit "bob"), .connect 0 0, .assign (lit "readers") (lit "bob") 8]).any fun s =>
        ∃ c ∈ s.clients, c.connected ∧ c.registered ∧ c.groups = [0, 1] := by decide +kernel
  obtain ⟨s, reached, found⟩ := Machine.exec_holds h (.initial ⟨bobCore, bobCore_listed, rfl⟩)
  exact ⟨s, reached, found, membership_coherent reached⟩

/-- GSET lists a group a second time in upper case, and GDEL of that name takes the group from the client, though it
stays listed. -/
theorem membership_incoherent : ∃ s, (machine integers Listed).Reachable s ∧ ¬ Coherent s := by
  have h : ((machine integers Listed).exec (fun _ _ => True) (Server.startup integers bobCore)
      [.groupAdd (lit "readers"), .login (lit "bob"), .connect 0 0, .assign (lit "readers") (lit "bob") 8,
        .assign (lit "READERS") (lit "bob") 9, .unAssign (lit "READERS") (lit "bob")]).any fun s =>
      ∃ c ∈ s.clients, c.connected ∧ c.registered ∧ 1 ∉ c.groups ∧
        lit "readers" ∈ s.core.table (usergroups c.login) ∧ (lit "readers", 1) ∈ s.groupList := by decide +kernel
  obtain ⟨s, reached, c, here, connected, registered, lacking, listed, filed⟩ :=
      Machine.exec_holds h (.initial ⟨bobCore, bobCore_listed, rfl⟩)
  refine ⟨s, reached, fun coherent => lacking ?_⟩
  exact ((coherent c here connected registered).exactly 1).mpr ⟨_, listed, filed⟩

end BerylDB.Groups
