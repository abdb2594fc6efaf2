import BerylDB.GroupInvariants
import BerylDB.Server

/-! # Permissions of groups across a restart

`UpdateFlags` parses the flags of a group with the new ones behind them, and stores the new ones alone. -/
namespace BerylDB.Groups
open Text Store Transition

variable {P : Platform}

/-- The switches of the group that `Find` gives. -/
def Server.permissions (P : Platform) (s : Server) (gname : Bytes) : Option Permissions :=
  ((s.find P gname).bind fun group => s.objects[group]?).map (·.permissions)

/-- A restart gives every group the switches that it has. -/
def Agrees (P : Platform) (s : Server) : Prop :=
  ∀ gname, (Server.startup P s.core).permissions P gname = s.permissions P gname

/-- GUPDATE with an invalid flag leaves the group and its entry as they were. -/
def Atomic (P : Platform) (s t : Server) : Event → Prop
  | .flagUpdate gname flags => Permissions.valid flags = false → ∀ group, s.find P gname = some group →
    t.objects[group]? = s.objects[group]? ∧
      CMapsHelper.get P t.core groupsKey (gname.map toLower) = CMapsHelper.get P s.core groupsKey (gname.map toLower)
  | _ => True

/-- GUPDATE repeats the flags that the group has, and GRESET is for groups that have none. -/
def Persists (P : Platform) (s : Server) : Event → Prop
  | .flagUpdate gname flags => ∀ group ∈ s.find P gname, ∀ g ∈ s.objects[group]?,
    Permissions.valid flags ∧ (flags = [] ∨ Permissions.valid g.rawflags = false ∨ ∀ flag ∈ g.rawflags, flag ∈ flags)
  | .greset gname => gname = lit "default" ∨ ∀ group ∈ s.find P gname, ∀ g ∈ s.objects[group]?,
    g.permissions = Permissions.init
  | _ => True

instance (P : Platform) (s : Server) (e : Event) : Decidable (Persists P s e) :=
  have subset (flags other : Bytes) : Decidable (∀ flag ∈ flags, flag ∈ other) := List.decidableBAll _ _
  match e with
  | .groupAdd _ | .flagUpdate .. | .greset _ | .delGroup _ | .assign .. | .unAssign .. | .login _ | .connect ..
  | .disconnect _ => by
    unfold Persists; infer_instance

/-- A server that starts from a core database and then runs. -/
def machine (P : Platform) (ready : Kernel → Prop) : Machine Server Event where
  initial s := ∃ k, ready k ∧ s = Server.startup P k
  next s e := s.next P e

namespace Server

/-! ## The switches after a restart -/

theorem startup_permissions {k : Kernel} (saved : Saved k) (gname : Bytes) :
    (startup P k).permissions P gname = ((k.table groupsKey)[gname.map toLower]?).map Permissions.of := by
  have loaded := startup_loaded (P := P) saved
  unfold permissions
  cases found : (startup P k).find P gname with
  | none =>
    have absent := loaded.filed.find_none_iff.mp found
    rw [loaded.names, Std.ExtTreeMap.mem_keys, Std.ExtTreeMap.mem_iff_isSome_getElem?] at absent
    rw [Option.not_isSome_iff_eq_none.mp absent]
    rfl
  | some group =>
    obtain ⟨g, object, flags⟩ := loaded.flags _ (loaded.filed.find_iff.mp found)
    have parsed := loaded.parsed g (List.mem_of_getElem? object)
    simp [object, flags, parsed]

/-- The entries of the core database stand for the switches of the groups. -/
def Kept (s : Server) : Prop :=
  ∀ e ∈ s.groupList, ∃ g flags, s.objects[e.2]? = some g ∧ (s.core.table groupsKey)[e.1]? = some flags ∧
    Permissions.of flags = g.permissions

theorem WellFormed.toSaved {s : Server} (h : s.WellFormed) : Saved s.core := by
  refine ⟨h.filed.core, fun name here => ?_⟩
  obtain ⟨e, filed, rfl⟩ := List.mem_map.mp ((h.saved name).mp here)
  exact h.filed.names e filed

theorem WellFormed.agrees_iff {s : Server} (h : s.WellFormed) : Agrees P s ↔ s.Kept := by
  constructor
  · intro agrees e here
    obtain ⟨g, object, name⟩ := h.filed.held e here
    have lower := Filed.lower (h.filed.names e here)
    have found : s.find P e.1 = some e.2 := h.filed.find_iff.mpr (by rwa [lower])
    have entry := (h.saved e.1).mpr (List.mem_map.mpr ⟨e, here, rfl⟩)
    obtain ⟨flags, held⟩ := Option.isSome_iff_exists.mp (Std.ExtTreeMap.mem_iff_isSome_getElem?.mp entry)
    have same := agrees e.1
    rw [startup_permissions h.toSaved, lower, held] at same
    refine ⟨g, flags, object, held, ?_⟩
    simpa [permissions, found, object] using same
  · intro kept gname
    rw [startup_permissions h.toSaved]
    unfold permissions
    cases found : s.find P gname with
    | none =>
      have absent := h.filed.find_none_iff.mp found
      rw [← h.saved, Std.ExtTreeMap.mem_iff_isSome_getElem?] at absent
      rw [Option.not_isSome_iff_eq_none.mp absent]
      rfl
    | some group =>
      obtain ⟨g, flags, object, held, same⟩ := kept _ (h.filed.find_iff.mp found)
      simp [object, held, same]

/-! ## One step -/

section
variable {s t : Server} {gname flags : Bytes} {group : ℕ} {g : Group}

theorem Kept.same (kept : s.Kept) (same : SameGroups s t) : t.Kept := by
  unfold Kept
  rw [same.groupList, same.objects, same.entry]
  exact kept

theorem Kept.clients (kept : s.Kept) (clients : List Client) : Kept { s with clients } := kept

theorem Kept.add (kept : s.Kept) (h : s.WellFormed) (named : GroupName (gname.map toLower)) (new : s.find P gname = none)
    (valid : Permissions.valid flags) (flags_ne : flags ≠ []) : (s.add P gname flags).Kept := by
  have tables := (h.filed.add (P := P) named new flags).2
  have fresh := h.filed.find_none_iff.mp new
  intro e here
  rw [tables, if_pos ⟨rfl, valid, flags_ne⟩]
  rw [Filed.add_eq new] at here ⊢
  rcases List.mem_append.mp here with old | last
  · obtain ⟨g, stored, object, held, same⟩ := kept e old
    have other : gname.map toLower ≠ e.1 := fun own => fresh (List.mem_map.mpr ⟨e, old, own.symm⟩)
    refine ⟨g, stored, ?_, ?_, same⟩
    · rw [List.getElem?_append_left (h.filed.lt_length old)]
      exact object
    · simpa [Std.ExtTreeMap.getElem?_insert, other] using held
  · rw [List.mem_singleton.mp last]
    exact ⟨⟨gname.map toLower, flags, Permissions.of flags⟩, flags, by simp, by simp, rfl⟩

theorem Kept.delete (kept : s.Kept) (h : s.WellFormed) : (s.delete P gname).Kept := by
  cases found : s.find P gname with
  | none => rwa [Filed.delete_unknown found]
  | some group =>
    have deleted := (h.filed.delete (P := P) found).2
    intro e here
    rw [deleted.groupList] at here
    obtain ⟨old, other⟩ : e ∈ s.groupList ∧ e.1 ≠ gname.map toLower := by simpa using here
    rw [deleted.objects, deleted.entry]
    simpa [Std.ExtTreeMap.getElem?_erase, Ne.symm other] using kept e old

/-- Where one group gets a new object, the entry of that group decides. -/
theorem Kept.replace_iff (kept : s.Kept) (h : s.WellFormed) (found : s.find P gname = some group)
    (object : s.objects[group]? = some g) {k : Kernel} {g' : Group}
    (others : ∀ name, name ≠ gname.map toLower → (k.table groupsKey)[name]? = (s.core.table groupsKey)[name]?) :
    Kept { s with core := k, objects := s.objects.set group g' } ↔
      ∃ stored, (k.table groupsKey)[gname.map toLower]? = some stored ∧ Permissions.of stored = g'.permissions := by
  have filed := h.filed.find_iff.mp found
  have bound := (List.getElem?_eq_some_iff.mp object).1
  constructor
  · intro kept'
    obtain ⟨g'', stored, held, entry, same⟩ := kept' _ filed
    obtain rfl : g' = g'' := by simpa [bound] using held
    exact ⟨stored, entry, same⟩
  · rintro ⟨stored, entry, same⟩ e here
    by_cases own : e.2 = group
    · have unique := List.inj_on_of_nodup_map h.filed.unshared here filed own
      rw [unique]
      exact ⟨g', stored, by simp [bound], entry, same⟩
    · have other : e.1 ≠ gname.map toLower := fun same =>
        own (congrArg Prod.snd (List.inj_on_of_nodup_map h.filed.distinct here filed same))
      obtain ⟨old, stored', object', entry', same'⟩ := kept e here
      refine ⟨old, stored', ?_, ?_, same'⟩
      · simpa [List.getElem?_set, Ne.symm own] using object'
      · exact (others e.1 other).trans entry'

/-- GUPDATE stores the new flags alone, if the flags of the group are valid. -/
theorem updateFlags_entry (h : s.WellFormed) (object : s.objects[group]? = some g) (name : GroupName g.name)
    (valid : Permissions.valid flags) (other : Bytes) : ((s.updateFlags P group flags).core.table groupsKey)[other]? =
      if other = g.name ∧ Permissions.valid g.rawflags ∧ flags ≠ [] then some flags
      else (s.core.table groupsKey)[other]? := by
  have whole : Permissions.valid (g.rawflags ++ flags) = Permissions.valid g.rawflags := by
    unfold Permissions.valid at valid ⊢
    rw [List.all_append, valid, Bool.and_true]
  have stored := (h.filed.core.set_spec P groupsKey_ne_nil g.name flags).2 groupsKey
  rw [Filed.updateFlags_eq object, whole]
  dsimp only
  by_cases raw : Permissions.valid g.rawflags
  · rw [if_pos raw, stored]
    by_cases empty : flags = []
    · simp [empty]
    · rw [if_pos ⟨rfl, name.1, empty⟩, Std.ExtTreeMap.getElem?_insert]
      by_cases own : other = g.name
      · simp [own, raw, empty]
      · simp [own, Ne.symm own]
  · rw [if_neg raw]
    simp [raw]

theorem updateFlags_kept (kept : s.Kept) (h : s.WellFormed) (found : s.find P gname = some group)
    (object : s.objects[group]? = some g) (valid : Permissions.valid flags) : (s.updateFlags P group flags).Kept ↔
      flags = [] ∨ Permissions.valid g.rawflags = false ∨ ∀ flag ∈ g.rawflags, flag ∈ flags := by
  have filed := h.filed.find_iff.mp found
  obtain ⟨g', stored, object', entry, same⟩ := kept _ filed
  obtain rfl : g' = g := by simpa [object'] using object
  have parsed := h.parsed g' (List.mem_of_getElem? object)
  obtain ⟨_, object'', name⟩ := h.filed.object found
  obtain rfl : g' = _ := by simpa [object] using object''
  have entries := updateFlags_entry (P := P) h object (name ▸ h.filed.names _ filed) valid
  have others (other : Bytes) (ne : other ≠ gname.map toLower) :
      ((s.updateFlags P group flags).core.table groupsKey)[other]? = (s.core.table groupsKey)[other]? := by
    rw [entries, if_neg fun own => ne (own.1.trans name)]
  have own := entries (gname.map toLower)
  rw [Filed.updateFlags_eq object] at others own ⊢
  rw [kept.replace_iff h found object others]
  dsimp only at own ⊢
  rw [own, entry]
  by_cases raw : Permissions.valid g'.rawflags
  · by_cases empty : flags = []
    · simp [empty, same, parsed]
    · have alone := Permissions.of_append_eq_iff raw valid
      simp [name, raw, empty, ← alone, eq_comm]
  · have before := Permissions.of_append_invalid (Bool.not_eq_true _ ▸ raw) flags
    simp [raw, before, same, parsed]

theorem found_iff {Q : Group → Prop} (found : s.find P gname = some group) (object : s.objects[group]? = some g) :
    (∀ group' ∈ s.find P gname, ∀ g' ∈ s.objects[group']?, Q g') ↔ Q g := by
  simp [found, object]

theorem updateFlags_iff (kept : s.Kept) (h : s.WellFormed) (found : s.find P gname = some group) :
    Atomic P s (s.updateFlags P group flags) (.flagUpdate gname flags) ∧ (s.updateFlags P group flags).Kept ↔
      Persists P s (.flagUpdate gname flags) := by
  obtain ⟨g, object, name⟩ := h.filed.object found
  have persists : Persists P s (.flagUpdate gname flags) ↔ Permissions.valid flags ∧
      (flags = [] ∨ Permissions.valid g.rawflags = false ∨ ∀ flag ∈ g.rawflags, flag ∈ flags) := found_iff found object
  rw [persists]
  cases valid : Permissions.valid flags with
  | false =>
    have flags_ne : flags ≠ [] := by rintro rfl; simp [Permissions.valid] at valid
    have changed : ¬ Atomic P s (s.updateFlags P group flags) (.flagUpdate gname flags) := fun atomic => by
      have unchanged := (atomic valid group found).1
      rw [Filed.updateFlags_eq object, object] at unchanged
      have rawflags := congrArg (Option.map Group.rawflags) unchanged
      have bound := (List.getElem?_eq_some_iff.mp object).1
      simp [bound, flags_ne] at rawflags
    simp [changed]
  | true =>
    have atomic : Atomic P s (s.updateFlags P group flags) (.flagUpdate gname flags) := fun invalid => by
      simp [valid] at invalid
    rw [updateFlags_kept kept h found object valid]
    simp [atomic]

theorem resetFlags_iff (kept : s.Kept) (h : s.WellFormed) (found : s.find P gname = some group)
    (object : s.objects[group]? = some g) : (s.resetFlags P gname).Kept ↔ g.permissions = Permissions.init := by
  obtain ⟨g', stored, object', entry, same⟩ := kept _ (h.filed.find_iff.mp found)
  obtain rfl : g' = g := by simpa [object'] using object
  rw [h.filed.resetFlags_eq found object, kept.replace_iff h found object fun _ _ => rfl, entry]
  simp [same]

end

/-- A step keeps the entries in agreement with the groups, and an invalid GUPDATE without effect, exactly under the
condition. -/
theorem Kept.next_iff {s t : Server} {e : Event} (kept : s.Kept) (h : s.WellFormed) (step : s.next P e = some t) :
    Atomic P s t e ∧ t.Kept ↔ Persists P s e := by
  cases e with
  | groupAdd gname =>
    suffices t.Kept by simpa [Atomic, Persists] using this
    simp only [Server.next] at step
    split at step
    · cases step
    · rename_i sent
      split at step
      · rename_i valid
        cases step
        cases new : s.find P gname with
        | none => exact kept.add h (groupName_of_valid sent valid) new (by decide) (by decide)
        | some group => rwa [Filed.add_known new]
      · cases step
        exact kept
  | flagUpdate gname flags =>
    simp only [Server.next] at step
    split at step
    · rename_i group found
      cases step
      exact updateFlags_iff kept h found
    · rename_i missing
      cases step
      simp [Atomic, Persists, missing, kept]
  | greset gname =>
    simp only [Server.next] at step
    split at step
    · rename_i protected_
      cases step
      simp [Atomic, Persists, protected_, kept]
    · rename_i allowed
      cases step
      cases found : s.find P gname with
      | none => simpa [Atomic, Persists, found, Filed.resetFlags_unknown found] using kept
      | some group =>
        obtain ⟨g, object, -⟩ := h.filed.object found
        have reset := resetFlags_iff (P := P) kept h found object
        have persists : Persists P s (.greset gname) ↔ g.permissions = Permissions.init := by
          simp only [Persists, allowed, false_or]
          exact found_iff found object
        simp [Atomic, persists, reset]
  | delGroup gname =>
    suffices t.Kept by simpa [Atomic, Persists] using this
    simp only [Server.next] at step
    split at step
    · cases step
      exact kept
    · cases step
      exact kept.delete h
  | assign gname dest now =>
    cases step
    simpa [Atomic, Persists] using kept.same (assign_same h.filed)
  | unAssign gname dest =>
    cases step
    simpa [Atomic, Persists] using kept.same (unAssign_same h.filed)
  | login login =>
    suffices t.Kept by simpa [Atomic, Persists] using this
    simp only [Server.next] at step
    split at step
    · cases step
      exact kept.clients _
    · cases step
  | connect client first =>
    obtain ⟨c, inUse, -, -, -, -, -, -, -, rfl⟩ := connect_cases (P := P) step
    have quiet := kept.clients
    simp [Atomic, Persists, quiet]
  | disconnect client =>
    cases step
    have quiet := kept.clients
    simp [Atomic, Persists, quiet]

theorem Kept.startup {k : Kernel} (saved : Saved k) : (startup P k).Kept := by
  have loaded := startup_loaded (P := P) saved
  intro e here
  obtain ⟨g, object, flags⟩ := loaded.flags e here
  refine ⟨g, g.rawflags, object, ?_, (loaded.parsed g (List.mem_of_getElem? object)).symm⟩
  rw [loaded.tables, flags]

end Server

/-- Along every run whose steps meet the condition a restart keeps the switches of every group, and of such a state
the next step keeps them, and has no effect when its flags are invalid, exactly if it meets the condition. -/
theorem permissions_persist {s : Server} (h : (machine P Server.Saved).Reach (Persists P) s) :
    Agrees P s ∧ ∀ e t, s.next P e = some t → (Atomic P s t e ∧ Agrees P t ↔ Persists P s e) := by
  have invariant : s.WellFormed ∧ s.Kept := by
    refine h.invariant (I := fun s => s.WellFormed ∧ s.Kept) ?_ ?_
    · rintro _ ⟨k, saved, rfl⟩
      exact ⟨.startup saved, .startup saved⟩
    · rintro s e t ⟨formed, kept⟩ condition step
      exact ⟨formed.next step, ((kept.next_iff formed step).mpr condition).2⟩
  refine ⟨invariant.1.agrees_iff.mpr invariant.2, fun e t step => ?_⟩
  rw [(invariant.1.next step).agrees_iff]
  exact invariant.2.next_iff invariant.1 step

/-! ## Runs from an empty core database -/

theorem freshCore_saved : Server.Saved freshCore := ⟨freshCore_core, fun name here => by simp [freshCore_table] at here⟩

open Store.Server (integers)

theorem fresh_initial : (machine integers Server.Saved).initial (Server.startup integers freshCore) :=
  ⟨_, freshCore_saved, rfl⟩

/-- GUPDATE that repeats all flags of a new group and adds one. -/
theorem permissions_persist_repeated : ∃ s, (machine integers Server.Saved).Reach (Persists integers) s ∧ Agrees integers s ∧
    ∀ t, s.next integers (.flagUpdate (lit "readers") (defaultFlags ++ lit "z")) = some t → Agrees integers t := by
  have h : ((machine integers Server.Saved).exec (Persists integers) (Server.startup integers freshCore)
      [.groupAdd (lit "readers")]).any fun s =>
        Persists integers s (.flagUpdate (lit "readers") (defaultFlags ++ lit "z")) := by decide +kernel
  obtain ⟨s, reached, condition⟩ := Machine.exec_holds h (.initial fresh_initial)
  obtain ⟨agrees, next⟩ := permissions_persist reached
  exact ⟨s, reached, agrees, fun t step => ((next _ t step).mpr condition).2⟩

/-- GUPDATE with an invalid flag takes the switches of the group away, and one with a valid flag stores that flag
alone. -/
theorem permissions_lost : (∃ s t, (machine integers Server.Saved).Reachable s ∧
      s.next integers (.flagUpdate (lit "readers") (lit "?k")) = some t ∧
      ¬ Atomic integers s t (.flagUpdate (lit "readers") (lit "?k"))) ∧
    ∃ s, (machine integers Server.Saved).Reachable s ∧ ¬ Agrees integers s := by
  constructor
  · have h : ((machine integers Server.Saved).exec (fun _ _ => True) (Server.startup integers freshCore)
        [.groupAdd (lit "readers")]).any fun s => s.find integers (lit "readers") = some 0 ∧ s.objects.length = 1 ∧
          (s.next integers (.flagUpdate (lit "readers") (lit "?k"))).any fun t => t.objects[0]? ≠ s.objects[0]? := by
      decide +kernel
    obtain ⟨s, reached, filed, -, changes⟩ := Machine.exec_holds h (.initial fresh_initial)
    obtain ⟨t, step, changed⟩ := (Option.any_eq_true _ _).mp changes
    refine ⟨s, t, reached, step, fun atomic => ?_⟩
    exact of_decide_eq_true changed (atomic (by decide) 0 filed).1
  · have h : ((machine integers Server.Saved).exec (fun _ _ => True) (Server.startup integers freshCore)
        [.groupAdd (lit "readers"), .flagUpdate (lit "readers") (lit "k")]).any fun s =>
          (Server.startup integers s.core).permissions integers (lit "readers") ≠ s.permissions integers (lit "readers") := by
      decide +kernel
    obtain ⟨s, reached, differ⟩ := Machine.exec_holds h (.initial fresh_initial)
    exact ⟨s, reached, fun agrees => differ (agrees _)⟩

end BerylDB.Groups
