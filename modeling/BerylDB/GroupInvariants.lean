import BerylDB.GroupServer

/-! # The table of groups and its entries in the core database -/
namespace BerylDB.Groups
open Text Store Transition

variable {P : Platform}

/-! ## Rows that the commands leave alone -/

theorem usergroups_ne_groupsKey (login : Bytes) : usergroups login ≠ groupsKey := fun h => by
  have length := congrArg List.length h
  simp [usergroups, groupsKey, lit] at length

theorem usergroups_ne_userlist (login : Bytes) : usergroups login ≠ userlist := fun h => by
  have slash : (47 : UInt8) ∈ userlist := h ▸ List.mem_append_right _ (by decide)
  exact absurd slash (by decide)

theorem groupsKey_ne_nil : groupsKey ≠ [] := by decide
theorem userlist_ne_nil : userlist ≠ [] := by decide
theorem usergroups_ne_nil (login : Bytes) : usergroups login ≠ [] := by simp [usergroups, lit]

theorem usergroups_injective {login login' : Bytes} (h : usergroups login = usergroups login') : login = login' :=
  List.append_cancel_right h

/-- A loop whose rounds delete the field `name` in some maps. -/
theorem foldl_del {α : Type} {name : Bytes} {touches : α → Bytes → Bool} {step : Kernel → α → Kernel}
    (spec : ∀ k a, k.Core → (step k a).Core ∧ ∀ other, (step k a).table other =
      if touches a other then (k.table other).erase name else k.table other)
    (items : List α) {k : Kernel} (h : k.Core) : (items.foldl step k).Core ∧ ∀ other, (items.foldl step k).table other =
      if items.any (touches · other) then (k.table other).erase name else k.table other := by
  induction items generalizing k with
  | nil => exact ⟨h, fun _ => rfl⟩
  | cons a items ih =>
    obtain ⟨core, tables⟩ := spec k a h
    obtain ⟨core', tables'⟩ := ih core
    refine ⟨core', fun other => ?_⟩
    rw [List.foldl_cons, tables', tables, List.any_cons]
    have twice : ((k.table other).erase name).erase name = (k.table other).erase name := erase_absent (by simp)
    cases touches a other <;> cases items.any (touches · other) <;> simp [twice]

theorem forget_spec {k : Kernel} (h : k.Core) (name login : Bytes) : (Server.forget P name k login).Core ∧
    ∀ other, (Server.forget P name k login).table other =
      if other == usergroups login then (k.table other).erase name else k.table other := by
  have round (k : Kernel) (gdelete : Bytes) (h : k.Core) :
      (if gdelete = name then CMapsHelper.del P k (usergroups login) name else k).Core ∧ ∀ other,
        (if gdelete = name then CMapsHelper.del P k (usergroups login) name else k).table other =
          if gdelete == name && other == usergroups login then (k.table other).erase name else k.table other := by
    by_cases same : gdelete = name
    · simp only [same, if_true, beq_self_eq_true, Bool.true_and]
      obtain ⟨core, tables⟩ := h.del_spec P (usergroups_ne_nil login) name
      refine ⟨core, fun other => ?_⟩
      rw [tables]
      by_cases key : other = usergroups login
      · simp [key]
      · simp [key]
    · simpa [same] using h
  obtain ⟨core, tables⟩ := foldl_del round (CMapsHelper.hlist P k (usergroups login)) h
  refine ⟨core, fun other => (tables other).trans ?_⟩
  by_cases key : other = usergroups login
  · subst key
    by_cases here : name ∈ k.table (usergroups login)
    · have listed : (CMapsHelper.hlist P k (usergroups login)).any
          (fun gdelete => gdelete == name && usergroups login == usergroups login) :=
        List.any_eq_true.mpr ⟨name, (mem_hlist h).mpr here, by simp⟩
      rw [if_pos listed]
      simp
    · simp [erase_absent here]
  · have untouched : (CMapsHelper.hlist P k (usergroups login)).any
        (fun gdelete => gdelete == name && other == usergroups login) = false := by simp [key]
    rw [untouched]
    simp [key]

/-- What the loops of `Delete` leave in the core database. -/
theorem foldl_forget {k : Kernel} (h : k.Core) (name : Bytes) (users : List Bytes) :
    (users.foldl (Server.forget P name) k).Core ∧ ∀ other, (users.foldl (Server.forget P name) k).table other =
      if users.any (other == usergroups ·) then (k.table other).erase name else k.table other :=
  foldl_del (fun _ login h => forget_spec h name login) users h

/-! ## The table of groups -/

namespace Server

/-- The table of groups and the objects that it refers to. -/
structure Filed (s : Server) : Prop where
  core : s.core.Core
  names : ∀ e ∈ s.groupList, GroupName e.1
  distinct : (s.groupList.map (·.1)).Nodup
  unshared : (s.groupList.map (·.2)).Nodup
  held : ∀ e ∈ s.groupList, ∃ g, s.objects[e.2]? = some g ∧ g.name = e.1

namespace Filed

variable {s : Server} {gname : Bytes} {group : ℕ}

theorem lower (h : GroupName gname) : gname.map toLower = gname :=
  (@equals_iff .ascii _ _ h).mp (equals_self _ _)

/-- `Find` takes the name in any case, and the table is filed under lower case. -/
theorem find_iff (h : s.Filed) : s.find P gname = some group ↔ (gname.map toLower, group) ∈ s.groupList := by
  unfold find
  constructor
  · intro found
    obtain ⟨e, filed, rfl⟩ := Option.map_eq_some_iff.mp found
    have here := List.mem_of_find?_eq_some filed
    have equal : equals P.charmap e.1 gname := by simpa using List.find?_some filed
    rwa [(equals_iff (h.names e here)).mp equal]
  · intro here
    have equal : equals P.charmap (gname.map toLower) gname := (equals_iff (h.names _ here)).mpr rfl
    cases filed : s.groupList.find? fun e => equals P.charmap e.1 gname with
    | none => exact absurd equal (by simpa using List.find?_eq_none.mp filed _ here)
    | some e =>
      have other := List.mem_of_find?_eq_some filed
      have equal' : equals P.charmap e.1 gname := by simpa using List.find?_some filed
      have same := (equals_iff (h.names e other)).mp equal'
      have unique := List.inj_on_of_nodup_map h.distinct other here same.symm
      simp [unique]

theorem find_none_iff (h : s.Filed) : s.find P gname = none ↔ gname.map toLower ∉ s.groupList.map (·.1) := by
  constructor
  · intro missing here
    obtain ⟨⟨name, group⟩, filed, rfl⟩ := List.mem_map.mp here
    have found : s.find P gname = some group := h.find_iff.mpr filed
    simp [missing] at found
  · intro absent
    cases found : s.find P gname with
    | none => rfl
    | some group => exact absurd (List.mem_map.mpr ⟨_, h.find_iff.mp found, rfl⟩) absent

theorem lt_length (h : s.Filed) {e : Bytes × ℕ} (here : e ∈ s.groupList) : e.2 < s.objects.length := by
  obtain ⟨g, object, -⟩ := h.held e here
  exact (List.getElem?_eq_some_iff.mp object).1

@[simp] theorem find_lower : s.find P (gname.map toLower) = s.find P gname := by simp [find]

/-- The group that `Add` files. -/
theorem add_eq (new : s.find P gname = none) (flags : Bytes) : s.add P gname flags = { s with
    core := if Permissions.valid flags then CMapsHelper.set P s.core groupsKey (gname.map toLower) flags else s.core
    objects := s.objects ++ [⟨gname.map toLower, flags, Permissions.of flags⟩]
    groupList := s.groupList ++ [(gname.map toLower, s.objects.length)] } := by
  simp [Server.add, new, Group.updateFlags_eq]

theorem add_known (found : s.find P gname = some group) (flags : Bytes) : s.add P gname flags = s := by
  simp [Server.add, found]

theorem add (h : s.Filed) (named : GroupName (gname.map toLower)) (new : s.find P gname = none) (flags : Bytes) :
    (s.add P gname flags).Filed ∧ ∀ other, (s.add P gname flags).core.table other =
      if other = groupsKey ∧ Permissions.valid flags ∧ flags ≠ [] then
        (s.core.table groupsKey).insert (gname.map toLower) flags
      else s.core.table other := by
  have fresh := h.find_none_iff.mp new
  have bound (e : Bytes × ℕ) (here : e ∈ s.groupList) := h.lt_length here
  have stored := h.core.set_spec P groupsKey_ne_nil (gname.map toLower) flags
  rw [add_eq new]
  refine ⟨⟨?_, fun e here => ?_, ?_, ?_, fun e here => ?_⟩, fun other => ?_⟩
  · dsimp only
    split
    · exact stored.1
    · exact h.core
  · rcases List.mem_append.mp here with old | last
    · exact h.names e old
    · rw [List.mem_singleton.mp last]
      exact named
  · rw [List.map_append, List.nodup_append]
    refine ⟨h.distinct, by simp, fun a here b last => ?_⟩
    rintro rfl
    rw [List.mem_singleton.mp last] at here
    exact fresh here
  · rw [List.map_append, List.nodup_append]
    refine ⟨h.unshared, by simp, fun a here b last => ?_⟩
    rintro rfl
    obtain ⟨e, filed, rfl⟩ := List.mem_map.mp here
    have same : e.2 = s.objects.length := by simpa using last
    exact absurd (bound e filed) (by omega)
  · rcases List.mem_append.mp here with old | last
    · obtain ⟨g, object, name⟩ := h.held e old
      exact ⟨g, by rw [List.getElem?_append_left (bound e old)]; exact object, name⟩
    · rw [List.mem_singleton.mp last]
      exact ⟨⟨gname.map toLower, flags, Permissions.of flags⟩, by simp, rfl⟩
  · dsimp only
    by_cases valid : Permissions.valid flags
    · rw [if_pos valid, stored.2]
      have named' : gname.map toLower ≠ [] := named.1
      simp [valid, named']
    · simp [valid]

theorem object (h : s.Filed) (found : s.find P gname = some group) :
    ∃ g, s.objects[group]? = some g ∧ g.name = gname.map toLower := h.held _ (h.find_iff.mp found)

/-- A group keeps its name when its flags change. -/
theorem replace (h : s.Filed) {k : Kernel} (core : k.Core) {g g' : Group} (object : s.objects[group]? = some g)
    (name : g'.name = g.name) : Filed { s with
      core := k
      objects := s.objects.set group g' } where
  core := core
  names := h.names
  distinct := h.distinct
  unshared := h.unshared
  held e here := by
    obtain ⟨old, held, same⟩ := h.held e here
    by_cases own : group = e.2
    · subst own
      obtain rfl : old = g := by simpa [held] using object
      exact ⟨g', by simp [(List.getElem?_eq_some_iff.mp held).1], name.trans same⟩
    · exact ⟨old, by simpa [List.getElem?_set, own] using held, same⟩

theorem updateFlags_eq {g : Group} (object : s.objects[group]? = some g) (flags : Bytes) :
    s.updateFlags P group flags = { s with
      core :=
        if Permissions.valid (g.rawflags ++ flags) then CMapsHelper.set P s.core groupsKey g.name flags else s.core
      objects := s.objects.set group { g with
        rawflags := g.rawflags ++ flags
        permissions := Permissions.of (g.rawflags ++ flags) } } := by
  simp [updateFlags, object, Group.updateFlags_eq]

theorem resetFlags_eq (h : s.Filed) (found : s.find P gname = some group) {g : Group}
    (object : s.objects[group]? = some g) : s.resetFlags P gname = { s with
      objects := s.objects.set group { g with
        rawflags := []
        permissions := Permissions.init } } := by
  have rejected : CMapsHelper.set P s.core groupsKey gname [] = s.core := by simp [h.core.set_eq]
  have modified : s.objects.modify group (fun g => { g with rawflags := [], permissions := Permissions.init }) =
      s.objects.set group { g with rawflags := [], permissions := Permissions.init } := by
    rw [List.modify_eq_set_getElem?, object]
    rfl
  simp [resetFlags, found, rejected, modified]

theorem resetFlags_unknown (missing : s.find P gname = none) : s.resetFlags P gname = s := by simp [resetFlags, missing]
theorem delete_unknown (missing : s.find P gname = none) : s.delete P gname = s := by simp [Server.delete, missing]

end Filed

/-- `Delete` takes a group from the table, its entry from the core database, and its name from the maps of the
listed users. -/
structure Deleted (s t : Server) (name : Bytes) (group : ℕ) : Prop where
  objects : t.objects = s.objects
  groupList : t.groupList = s.groupList.filter fun e => e.1 ≠ name
  clients : t.clients = s.clients.map fun c => if c.connected then c.removeGroup group else c
  entry : t.core.table groupsKey = (s.core.table groupsKey).erase name
  listed : ∀ login ∈ s.core.table userlist, t.core.table (usergroups login) = (s.core.table (usergroups login)).erase name
  others : ∀ key, key ≠ groupsKey → (∀ login ∈ s.core.table userlist, key ≠ usergroups login) →
    t.core.table key = s.core.table key

namespace Filed

variable {s : Server} {gname : Bytes} {group : ℕ}

theorem delete (h : s.Filed) (found : s.find P gname = some group) :
    (s.delete P gname).Filed ∧ Deleted s (s.delete P gname) (gname.map toLower) group := by
  have named : GroupName (gname.map toLower) := h.names _ (h.find_iff.mp found)
  have entry := h.core.del_spec P groupsKey_ne_nil (gname.map toLower)
  have users (login : Bytes) : login ∈ CMapsHelper.hlist P (CMapsHelper.del P s.core groupsKey (gname.map toLower)) userlist ↔
      login ∈ s.core.table userlist := by
    rw [mem_hlist entry.1, entry.2, if_neg (by decide)]
  have swept := foldl_forget (P := P) entry.1 (gname.map toLower)
    (CMapsHelper.hlist P (CMapsHelper.del P s.core groupsKey (gname.map toLower)) userlist)
  have kept : (s.groupList.filter fun e => !equals P.charmap e.1 (gname.map toLower)) =
      s.groupList.filter fun e => e.1 ≠ gname.map toLower := by
    refine List.filter_congr fun e here => ?_
    have same : equals P.charmap e.1 (gname.map toLower) ↔ gname.map toLower = e.1 := by
      rw [equals_iff (h.names e here), lower named]
    by_cases own : gname.map toLower = e.1
    · simp [own]
    · simp [mt same.mp own, Ne.symm own]
  have removed : s.delete P gname = { s with
      core := (CMapsHelper.hlist P (CMapsHelper.del P s.core groupsKey (gname.map toLower)) userlist).foldl
        (forget P (gname.map toLower)) (CMapsHelper.del P s.core groupsKey (gname.map toLower))
      groupList := s.groupList.filter fun e => e.1 ≠ gname.map toLower
      clients := s.clients.map fun c => if c.connected then c.removeGroup group else c } := by
    rw [← kept]
    simp [Server.delete, found]
  rw [removed]
  have part : (s.groupList.filter fun e => e.1 ≠ gname.map toLower).Sublist s.groupList := List.filter_sublist
  refine ⟨⟨swept.1, fun e here => h.names e (part.subset here), h.distinct.sublist (part.map _),
    h.unshared.sublist (part.map _), fun e here => h.held e (part.subset here)⟩, ⟨rfl, rfl, rfl, ?_, fun login here => ?_,
    fun key other unlisted => ?_⟩⟩
  · have untouched : (CMapsHelper.hlist P (CMapsHelper.del P s.core groupsKey (gname.map toLower)) userlist).any
        (groupsKey == usergroups ·) = false := by
      simpa using fun login _ => (usergroups_ne_groupsKey login).symm
    dsimp only
    rw [swept.2, untouched, entry.2]
    simp
  · have touched : (CMapsHelper.hlist P (CMapsHelper.del P s.core groupsKey (gname.map toLower)) userlist).any
        (usergroups login == usergroups ·) := List.any_eq_true.mpr ⟨login, (users login).mpr here, by simp⟩
    dsimp only
    rw [swept.2, if_pos touched, entry.2, if_neg (usergroups_ne_groupsKey login)]
  · have untouched : (CMapsHelper.hlist P (CMapsHelper.del P s.core groupsKey (gname.map toLower)) userlist).any
        (key == usergroups ·) = false := by
      simpa using fun login here => unlisted login ((users login).mp here)
    dsimp only
    rw [swept.2, untouched, entry.2, if_neg other]
    simp

end Filed

/-! ## Startup -/

/-- A core database that `Initialize` can read: its entries are names that `Add` files. -/
structure Saved (k : Kernel) : Prop where
  core : k.Core
  names : ∀ name ∈ k.table groupsKey, GroupName name

/-- Part of the way through the loop of `Initialize`, with the names read so far. -/
structure Loading (k : Kernel) (read : List Bytes) (s : Server) : Prop where
  filed : s.Filed
  names : s.groupList.map (·.1) = read
  clients : s.clients = []
  tables : ∀ key, s.core.table key = k.table key
  flags : ∀ e ∈ s.groupList, ∃ g, s.objects[e.2]? = some g ∧ (k.table groupsKey)[e.1]? = some g.rawflags
  parsed : ∀ g ∈ s.objects, g.permissions = Permissions.of g.rawflags

theorem insert_held {map : MapMap} {key value : Bytes} (held : map[key]? = some value) : map.insert key value = map := by
  refine Std.ExtTreeMap.ext_getElem? fun other => ?_
  rw [Std.ExtTreeMap.getElem?_insert]
  split
  · rename_i equal
    rw [← Std.LawfulEqCmp.eq_of_compare equal, held]
  · rfl

theorem Loading.add {k : Kernel} {read : List Bytes} {s : Server} (h : Loading k read s) (saved : Saved k) {name : Bytes}
    (listed : name ∈ k.table groupsKey) (new : name ∉ read) :
    Loading k (read ++ [name]) (s.add P name (CMapsHelper.get P s.core groupsKey name)) := by
  have named := saved.names name listed
  have lower := Filed.lower named
  have missing : s.find P name = none := h.filed.find_none_iff.mpr (by rwa [lower, h.names])
  obtain ⟨flags, held⟩ := Option.isSome_iff_exists.mp (Std.ExtTreeMap.mem_iff_isSome_getElem?.mp listed)
  have got : CMapsHelper.get P s.core groupsKey name = flags := by
    rw [h.filed.core.get_eq, if_neg (by decide), h.tables, held]
    rfl
  obtain ⟨filed, tables⟩ := h.filed.add (P := P) (by rwa [lower]) missing flags
  rw [got]
  refine ⟨filed, ?_, ?_, fun key => ?_, ?_, ?_⟩
  · rw [Filed.add_eq missing]
    simp [h.names, lower]
  · rw [Filed.add_eq missing]
    exact h.clients
  · rw [tables]
    split
    · rename_i own
      rw [own.1, lower, h.tables, insert_held held]
    · exact h.tables key
  · rw [Filed.add_eq missing]
    intro e here
    rcases List.mem_append.mp here with old | last
    · obtain ⟨g, object, same⟩ := h.flags e old
      exact ⟨g, by rw [List.getElem?_append_left (h.filed.lt_length old)]; exact object, same⟩
    · rw [List.mem_singleton.mp last]
      exact ⟨⟨name.map toLower, flags, Permissions.of flags⟩, by simp, by simpa [lower] using held⟩
  · rw [Filed.add_eq missing]
    intro g here
    rcases List.mem_append.mp here with old | last
    · exact h.parsed g old
    · rw [List.mem_singleton.mp last]

theorem Loading.foldl {k : Kernel} (saved : Saved k) (names : List Bytes) {read : List Bytes} {s : Server}
    (h : Loading k read s) (listed : ∀ name ∈ names, name ∈ k.table groupsKey) (distinct : (read ++ names).Nodup) :
    Loading k (read ++ names)
      (names.foldl (fun s name => s.add P name (CMapsHelper.get P s.core groupsKey name)) s) := by
  induction names generalizing read s with
  | nil => simpa using h
  | cons name names ih =>
    have new : name ∉ read := fun here => (List.nodup_append.mp distinct).2.2 name here name (by simp) rfl
    have next := h.add (P := P) saved (listed name (by simp)) new
    simpa using ih next (fun other here => listed other (by simp [here])) (by simpa using distinct)

theorem startup_loaded {k : Kernel} (saved : Saved k) : Loading k (k.table groupsKey).keys (startup P k) := by
  have empty : Loading k [] ⟨k, [], [], []⟩ :=
    ⟨⟨saved.core, by simp, by simp, by simp, by simp⟩, rfl, rfl, fun _ => rfl, by simp, by simp⟩
  unfold startup
  rw [saved.core.hlist_eq]
  refine empty.foldl saved _ (fun name here => Std.ExtTreeMap.mem_keys.mp here) ?_
  exact Std.ExtTreeMap.nodup_keys

/-! ## Steps -/

/-- The entries of the core database name the groups of the table, and the switches of a group are those of its raw
flags. -/
structure WellFormed (s : Server) : Prop where
  filed : s.Filed
  saved : ∀ name, name ∈ s.core.table groupsKey ↔ name ∈ s.groupList.map (·.1)
  parsed : ∀ g ∈ s.objects, g.permissions = Permissions.of g.rawflags

theorem WellFormed.startup {k : Kernel} (saved : Saved k) : (startup P k).WellFormed := by
  have loaded := startup_loaded (P := P) saved
  refine ⟨loaded.filed, fun name => ?_, loaded.parsed⟩
  rw [loaded.tables, loaded.names, Std.ExtTreeMap.mem_keys]

/-- A step that leaves the groups and their entries as they are. -/
structure SameGroups (s t : Server) : Prop where
  core : t.core.Core
  entry : t.core.table groupsKey = s.core.table groupsKey
  objects : t.objects = s.objects
  groupList : t.groupList = s.groupList

theorem WellFormed.same {s t : Server} (h : s.WellFormed) (same : SameGroups s t) : t.WellFormed where
  filed := ⟨same.core, same.groupList ▸ h.filed.names, same.groupList ▸ h.filed.distinct,
    same.groupList ▸ h.filed.unshared, by rw [same.groupList, same.objects]; exact h.filed.held⟩
  saved name := by rw [same.entry, same.groupList]; exact h.saved name
  parsed := same.objects ▸ h.parsed

section
variable {s t : Server} {gname flags dest : Bytes} {group now : ℕ}

theorem SameGroups.refl (h : s.Filed) : SameGroups s s := ⟨h.core, rfl, rfl, rfl⟩

/-- GSET is refused, or it writes the name as it was given. -/
theorem assign_cases (P : Platform) (h : s.Filed) (gname dest : Bytes) (now : ℕ) :
    s.assign P gname dest now = s ∨ ∃ group, s.find P gname = some group ∧
    s.exists' P dest ∧ gname ∉ s.core.table (usergroups dest) ∧ s.assign P gname dest now = { s with
      core := CMapsHelper.set P s.core (usergroups dest) gname (convtoString now)
      clients := s.editLogin dest (·.pushGroup group) } := by
  unfold assign
  split
  · exact .inl rfl
  · rename_i group found
    split
    · exact .inl rfl
    · rename_i accepted
      have accepted : s.exists' P dest = true ∧ gname ∉ s.core.table (usergroups dest) := by
        simpa [mem_hlist h.core] using accepted
      exact .inr ⟨group, found, accepted.1, accepted.2, rfl⟩

theorem unAssign_cases (P : Platform) (h : s.Filed) (gname dest : Bytes) :
    s.unAssign P gname dest = s ∨ ∃ group, s.find P gname = some group ∧
    gname ∈ s.core.table (usergroups dest) ∧ s.unAssign P gname dest = { s with
      core := CMapsHelper.del P s.core (usergroups dest) gname
      clients := s.editLogin dest (·.removeGroup group) } := by
  unfold unAssign
  split
  · exact .inl rfl
  · rename_i group found
    split
    · exact .inl rfl
    · rename_i accepted
      have accepted : s.exists' P dest = true ∧ gname ∈ s.core.table (usergroups dest) := by
        simpa [mem_hlist h.core] using accepted
      exact .inr ⟨group, found, accepted.2, rfl⟩

theorem assign_same (h : s.Filed) : SameGroups s (s.assign P gname dest now) := by
  obtain idle | ⟨group, -, -, -, changed⟩ := assign_cases P h gname dest now
  · rw [idle]
    exact .refl h
  · have stored := h.core.set_spec P (usergroups_ne_nil dest) gname (convtoString now)
    rw [changed]
    exact ⟨stored.1, by rw [stored.2, if_neg fun own => usergroups_ne_groupsKey dest own.1.symm], rfl, rfl⟩

theorem unAssign_same (h : s.Filed) : SameGroups s (s.unAssign P gname dest) := by
  obtain idle | ⟨group, -, -, changed⟩ := unAssign_cases P h gname dest
  · rw [idle]
    exact .refl h
  · have removed := h.core.del_spec P (usergroups_ne_nil dest) gname
    rw [changed]
    exact ⟨removed.1, by rw [removed.2, if_neg fun own => usergroups_ne_groupsKey dest own.symm], rfl, rfl⟩

theorem connect_cases {client first : ℕ} (connects : s.connect P client first = some t) : ∃ c inUse : Client,
    s.clients[client]? = some c ∧ s.clients[first]? = some inUse ∧ c.connected ∧ c.registered = false ∧ inUse.connected ∧
      inUse.login = c.login ∧ (inUse.registered ∨ first = client) ∧
      t = { s with
        clients := s.clients.set client (if first ≠ client then { c with registered := true, groups := inUse.groups }
          else s.loadGroups P { c with registered := true }) } := by
  unfold connect at connects
  split at connects
  · rename_i c inUse here there
    split at connects
    · rename_i allowed
      simp only [Bool.and_eq_true, Bool.or_eq_true, Bool.not_eq_true', beq_iff_eq] at allowed
      obtain ⟨⟨⟨⟨connected, unregistered⟩, used⟩, login⟩, kind⟩ := allowed
      exact ⟨c, inUse, here, there, connected, unregistered, used, login, kind, (Option.some.inj connects).symm⟩
    · cases connects
  · cases connects

theorem WellFormed.add (h : s.WellFormed) (named : GroupName (gname.map toLower)) (new : s.find P gname = none)
    (valid : Permissions.valid flags) (flags_ne : flags ≠ []) : (s.add P gname flags).WellFormed := by
  obtain ⟨filed, tables⟩ := h.filed.add (P := P) named new flags
  refine ⟨filed, fun name => ?_, fun g here => ?_⟩
  · rw [tables, if_pos ⟨rfl, valid, flags_ne⟩, Filed.add_eq new, Std.ExtTreeMap.mem_insert, h.saved]
    simp only [Std.LawfulEqCmp.compare_eq_iff_eq, List.map_append, List.map_cons, List.map_nil, List.mem_append,
      List.mem_singleton]
    tauto
  · rw [Filed.add_eq new] at here
    rcases List.mem_append.mp here with old | last
    · exact h.parsed g old
    · rw [List.mem_singleton.mp last]

theorem WellFormed.updateFlags (h : s.WellFormed) (found : s.find P gname = some group) :
    (s.updateFlags P group flags).WellFormed := by
  obtain ⟨g, object, name⟩ := h.filed.object found
  have entry := (h.saved g.name).mpr (List.mem_map.mpr ⟨_, h.filed.find_iff.mp found, name.symm⟩)
  have stored := h.filed.core.set_spec P groupsKey_ne_nil g.name flags
  rw [Filed.updateFlags_eq object]
  refine ⟨h.filed.replace ?_ object rfl, fun other => ?_, fun g' here => ?_⟩
  · split
    · exact stored.1
    · exact h.filed.core
  · dsimp only
    rw [← h.saved]
    split
    · rw [stored.2]
      split
      · rw [Std.ExtTreeMap.mem_insert, Std.LawfulEqCmp.compare_eq_iff_eq]
        exact ⟨fun here => here.elim (fun own => own ▸ entry) id, .inr⟩
      · exact Iff.rfl
    · exact Iff.rfl
  · rcases List.mem_or_eq_of_mem_set here with old | rfl
    · exact h.parsed g' old
    · rfl

theorem WellFormed.resetFlags (h : s.WellFormed) : (s.resetFlags P gname).WellFormed := by
  cases found : s.find P gname with
  | none => rwa [Filed.resetFlags_unknown found]
  | some group =>
    obtain ⟨g, object, name⟩ := h.filed.object found
    rw [h.filed.resetFlags_eq found object]
    refine ⟨h.filed.replace h.filed.core object rfl, h.saved, fun g' here => ?_⟩
    rcases List.mem_or_eq_of_mem_set here with old | rfl
    · exact h.parsed g' old
    · rfl

theorem WellFormed.delete (h : s.WellFormed) : (s.delete P gname).WellFormed := by
  cases found : s.find P gname with
  | none => rwa [Filed.delete_unknown found]
  | some group =>
    obtain ⟨filed, deleted⟩ := h.filed.delete (P := P) found
    refine ⟨filed, fun name => ?_, deleted.objects ▸ h.parsed⟩
    rw [deleted.entry, deleted.groupList, Std.ExtTreeMap.mem_erase, h.saved]
    simp only [ne_eq, Std.LawfulEqCmp.compare_eq_iff_eq, List.mem_map, List.mem_filter, decide_eq_true_eq]
    constructor
    · rintro ⟨other, e, here, rfl⟩
      exact ⟨e, ⟨here, Ne.symm other⟩, rfl⟩
    · rintro ⟨e, ⟨here, other⟩, rfl⟩
      exact ⟨Ne.symm other, e, here, rfl⟩

end

theorem WellFormed.next {s t : Server} {e : Event} (h : s.WellFormed) (step : s.next P e = some t) : t.WellFormed := by
  cases e with
  | groupAdd gname =>
    simp only [Server.next] at step
    split at step
    · cases step
    · rename_i sent
      split at step
      · rename_i valid
        cases step
        cases new : s.find P gname with
        | none => exact h.add (groupName_of_valid sent valid) new (by decide) (by decide)
        | some group => rwa [Filed.add_known new]
      · cases step
        exact h
  | flagUpdate gname flags =>
    simp only [Server.next] at step
    split at step
    · rename_i group found
      cases step
      exact h.updateFlags found
    · cases step
      exact h
  | greset gname =>
    simp only [Server.next] at step
    split at step
    · cases step
      exact h
    · cases step
      exact h.resetFlags
  | delGroup gname =>
    simp only [Server.next] at step
    split at step
    · cases step
      exact h
    · cases step
      exact h.delete
  | assign gname dest now =>
    cases step
    exact h.same (assign_same h.filed)
  | unAssign gname dest =>
    cases step
    exact h.same (unAssign_same h.filed)
  | login login =>
    simp only [Server.next] at step
    split at step
    · cases step
      exact h.same ⟨h.filed.core, rfl, rfl, rfl⟩
    · cases step
  | connect client first =>
    obtain ⟨c, inUse, -, -, -, -, -, -, -, rfl⟩ := connect_cases (P := P) step
    exact h.same ⟨h.filed.core, rfl, rfl, rfl⟩
  | disconnect client =>
    cases step
    exact h.same ⟨h.filed.core, rfl, rfl, rfl⟩

end Server

end BerylDB.Groups
