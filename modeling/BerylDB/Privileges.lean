import BerylDB.Sessions

/-! # Privileges follow the stored flags -/
namespace BerylDB.Sessions
open Transition

structure Rights where
  canAdmin : Bool
  canExecute : Bool
  canManage : Bool
deriving DecidableEq

/-- The rights that a text of flags denotes. -/
def rights (flags : Text) : Rights := ⟨flags.contains 'r', flags.contains 'e', flags.contains 'm'⟩

def Session.rights (s : Session) : Rights := ⟨s.canAdmin, s.canExecute, s.canManage⟩

private theorem foldl_setFlag (flags : Text) (s : Session) :
    flags.foldl Session.setFlag s = ⟨s.canAdmin || flags.contains 'r', s.canExecute || flags.contains 'e',
      s.canManage || flags.contains 'm', s.rawflags⟩ := by
  induction flags generalizing s with
  | nil => simp
  | cons c flags ih =>
    rw [List.foldl_cons, ih]
    simp only [List.contains_cons]
    by_cases hr : c = 'r'
    · subst hr; simp [Session.setFlag]
    by_cases he : c = 'e'
    · subst he; simp [Session.setFlag]
    by_cases hm : c = 'm'
    · subst hm; simp [Session.setFlag]
    simp [Session.setFlag, hr, he, hm, beq_eq_false_iff_ne.mpr (Ne.symm hr),
      beq_eq_false_iff_ne.mpr (Ne.symm he), beq_eq_false_iff_ne.mpr (Ne.symm hm)]

@[simp] theorem setFlags_rights (s : Session) (flags : Text) : (s.setFlags flags).rights = rights flags := by
  simp [Session.setFlags, foldl_setFlag, Session.rights, rights]

@[simp] theorem setFlags_rawflags (s : Session) (flags : Text) : (s.setFlags flags).rawflags = s.rawflags := by
  simp [Session.setFlags, foldl_setFlag]

@[simp] theorem setFlags_setFlags (s : Session) (flags flags' : Text) :
    (s.setFlags flags).setFlags flags' = s.setFlags flags' := by
  simp [Session.setFlags, foldl_setFlag]

/-- Every connected client has exactly the rights that the stored flags of its login denote. -/
def PrivilegesFollowFlags (s : Server) : Prop :=
  ∀ u ∈ s.users, u.connected → ∃ o ∈ u.session.bind fun id => s.objects[id]?,
    o.rights = rights (s.flags u.login)

instance (s : Server) : Decidable (PrivilegesFollowFlags s) := by
  unfold PrivilegesFollowFlags; infer_instance

/-- A client connects only while its login has no session, or one whose raw flags are as strong as
the stored flags. -/
def FreshConnects (s : Server) : Event → Prop
  | .connect login => ∀ o ∈ (s.sessions login).bind fun id => s.objects[id]?, rights o.rawflags = rights (s.flags login)
  | _ => True

instance (s : Server) (e : Event) : Decidable (FreshConnects s e) := by
  cases e <;> unfold FreshConnects <;> infer_instance

/-- The session table is injective, and connected clients refer to the session of their login. -/
structure Table (s : Server) : Prop where
  bound : ∀ login id, s.sessions login = some id → id < s.objects.length
  injective : ∀ l l' id, s.sessions l = some id → s.sessions l' = some id → l = l'
  attached : ∀ u ∈ s.users, u.connected → u.session = s.sessions u.login ∧ (s.sessions u.login).isSome

/-- The session of a login with a connected client has the rights of the stored flags. -/
def Follows (s : Server) : Prop :=
  ∀ u ∈ s.users, u.connected → ∀ id, s.sessions u.login = some id → ∀ o, s.objects[id]? = some o →
    o.rights = rights (s.flags u.login)

theorem Follows.privileges {s : Server} (h : Follows s) (ht : Table s) : PrivilegesFollowFlags s := by
  intro u hu hc
  obtain ⟨hsess, hsome⟩ := ht.attached u hu hc
  obtain ⟨id, hid⟩ := Option.isSome_iff_exists.mp hsome
  have hlt := ht.bound _ _ hid
  exact ⟨s.objects[id], by simp [hsess.trans hid, hlt], h u hu hc id hid _ (by simp [hlt])⟩

namespace Server

theorem mem_findLogin {s : Server} {login : Text} {i : ℕ} :
    i ∈ s.findLogin login ↔ ∃ u, s.users[i]? = some u ∧ u.connected ∧ u.login = login := by
  simp only [findLogin, List.mem_filter, List.mem_range, Option.any_eq_true, Bool.and_eq_true, beq_iff_eq]
  constructor
  · rintro ⟨_, u, hu, hc⟩
    exact ⟨u, hu, hc⟩
  · rintro ⟨u, hu, hc⟩
    exact ⟨(List.getElem?_eq_some_iff.mp hu).1, u, hu, hc⟩

/-- Attaching a client to the session it already has only rewrites the rights of that session. -/
theorem attach_attached {s : Server} {login flags : Text} {id i : ℕ} {u : User}
    (hid : s.sessions login = some id) (hu : s.users[i]? = some u) (hs : u.session = some id) :
    s.attach i login flags = { s with objects := s.objects.modify id (·.setFlags flags) } := by
  have husers : s.users.modify i (fun u => { u with session := some id }) = s.users := by
    refine List.ext_getElem? fun j => ?_
    rw [List.getElem?_modify]
    by_cases hij : i = j
    · subst hij
      simp [hu, ← hs]
    · simp [hij]
  simp [attach, hid, setSession, husers]

theorem foldl_attach {s : Server} {login flags : Text} {id : ℕ} (hid : s.sessions login = some id)
    (is : List ℕ) (hne : is ≠ []) (h : ∀ i ∈ is, ∃ u, s.users[i]? = some u ∧ u.session = some id) :
    is.foldl (fun s i => s.attach i login flags) s =
      { s with objects := s.objects.modify id (·.setFlags flags) } := by
  induction is generalizing s with
  | nil => exact absurd rfl hne
  | cons i is ih =>
    obtain ⟨u, hu, hs⟩ := h i List.mem_cons_self
    rw [List.foldl_cons, attach_attached hid hu hs]
    by_cases his : is = []
    · simp [his]
    · have ih := ih (s := { s with objects := s.objects.modify id (·.setFlags flags) }) hid his
        fun j hj => h j (List.mem_cons_of_mem _ hj)
      rw [ih]
      simp [List.modify_modify_eq, Function.comp_def]

/-- `AttachExternal` rewrites the one session that the connected clients of the login share. -/
theorem attachExternal_cases {s : Server} (h : Table s) (login flags : Text) :
    (s.attachExternal login flags = s ∧ ∀ u ∈ s.users, u.connected → u.login ≠ login) ∨
      ∃ id, s.sessions login = some id ∧
        s.attachExternal login flags = { s with objects := s.objects.modify id (·.setFlags flags) } := by
  by_cases hne : s.findLogin login = []
  · refine .inl ⟨by simp [attachExternal, hne], fun u hu hc hl => ?_⟩
    obtain ⟨i, hi⟩ := List.mem_iff_getElem?.mp hu
    have : i ∈ s.findLogin login := mem_findLogin.mpr ⟨u, hi, hc, hl⟩
    simp [hne] at this
  · obtain ⟨i, hi⟩ := List.exists_mem_of_ne_nil _ hne
    obtain ⟨u, hu, hc, rfl⟩ := mem_findLogin.mp hi
    obtain ⟨id, hid⟩ := Option.isSome_iff_exists.mp (h.attached u (List.mem_of_getElem? hu) hc).2
    refine .inr ⟨id, hid, foldl_attach hid _ hne fun j hj => ?_⟩
    obtain ⟨v, hv, hvc, hvl⟩ := mem_findLogin.mp hj
    exact ⟨v, hv, (h.attached v (List.mem_of_getElem? hv) hvc).1.trans (hvl ▸ hid)⟩

end Server

theorem Table.objects {s : Server} (h : Table s) {objects : List Session}
    (hlen : objects.length = s.objects.length) : Table { s with objects } :=
  { h with bound := fun login id hid => hlen ▸ h.bound login id hid }

theorem Table.attachExternal {s : Server} (h : Table s) (login flags : Text) :
    Table (s.attachExternal login flags) := by
  rcases Server.attachExternal_cases h login flags with ⟨heq, _⟩ | ⟨id, _, heq⟩
  · rw [heq]; exact h
  · rw [heq]; exact h.objects (by simp)

/-- Storing flags together with `AttachExternal` keeps clients and flags in step. -/
theorem Follows.attachExternal {s : Server} (h : Follows s) (ht : Table s) (login flags : Text) :
    Follows { s.attachExternal login flags with flags := Function.update s.flags login flags } := by
  rcases Server.attachExternal_cases ht login flags with ⟨heq, hno⟩ | ⟨id, hid, heq⟩
  · rw [heq]
    intro u hu hc i hi o ho
    simpa [hno u hu hc] using h u hu hc i hi o ho
  · rw [heq]
    intro u hu hc i hi o ho
    have hi : s.sessions u.login = some i := hi
    have ho : (s.objects.modify id (·.setFlags flags))[i]? = some o := ho
    rw [List.getElem?_modify] at ho
    by_cases hl : u.login = login
    · obtain rfl : id = i := by rw [hl, hid] at hi; exact Option.some.inj hi
      obtain ⟨o', _, rfl⟩ := Option.map_eq_some_iff.mp (by simpa using ho)
      simp [hl]
    · have hne : id ≠ i := by
        rintro rfl
        exact hl (ht.injective _ _ _ hi hid)
      simp only [hne, if_false] at ho
      simpa [hl] using h u hu hc i hi o (by simpa using ho)

private theorem foldl_attach_flags (f : Text → Text) (login flags : Text) (is : List ℕ) (s : Server) :
    is.foldl (fun s i => s.attach i login flags) { s with flags := f } =
      { is.foldl (fun s i => s.attach i login flags) s with flags := f } := by
  induction is generalizing s with
  | nil => rfl
  | cons i is ih =>
    have hattach : Server.attach { s with flags := f } i login flags = { s.attach i login flags with flags := f } := by
      unfold Server.attach
      cases s.sessions login with
      | none => by_cases hl : login = [] <;> simp [Server.add, Server.setSession, hl]
      | some id => rfl
    rw [List.foldl_cons, List.foldl_cons, hattach, ih]

theorem attachExternal_flags (s : Server) (login flags : Text) (f : Text → Text) :
    Server.attachExternal { s with flags := f } login flags = { s.attachExternal login flags with flags := f } :=
  foldl_attach_flags f login flags _ s

theorem attachExternal_keeps_flags (s : Server) (login flags : Text) :
    (s.attachExternal login flags).flags = s.flags := by
  have h := congrArg Server.flags (attachExternal_flags s login flags s.flags)
  exact h

/-- An accepted flag command stores new flags and hands them to the connected clients. -/
def reflag (s : Server) (login flags : Text) : Server :=
  { s.attachExternal login flags with flags := Function.update s.flags login flags }

theorem addFlag_cases (s : Server) (login flag : Text) :
    addFlag s login flag = s ∨ ∃ flags, addFlag s login flag = reflag s login flags := by
  unfold addFlag
  dsimp only
  split_ifs
  all_goals first
    | exact .inl rfl
    | exact .inr ⟨_, attachExternal_flags ..⟩

theorem delFlag_cases (s : Server) (login flag : Text) :
    delFlag s login flag = s ∨ ∃ flags, delFlag s login flag = reflag s login flags := by
  unfold delFlag
  dsimp only
  split_ifs
  all_goals first
    | exact .inl rfl
    | exact .inr ⟨_, by rw [attachExternal_keeps_flags]; rfl⟩

private theorem forall_mem_modify {α : Type} {p : α → Prop} {l : List α} {i : ℕ} {f : α → α}
    (h : ∀ a ∈ l, p a) (hf : ∀ a ∈ l, p (f a)) : ∀ a ∈ l.modify i f, p a := by
  intro a ha
  obtain ⟨j, hj⟩ := List.mem_iff_getElem?.mp ha
  rw [List.getElem?_modify] at hj
  obtain ⟨b, hb, hab⟩ := Option.map_eq_some_iff.mp hj
  have hb := List.mem_of_getElem? hb
  by_cases hij : i = j
  · simp only [hij, if_true] at hab
    exact hab ▸ hf b hb
  · simp only [hij, if_false] at hab
    exact hab ▸ h b hb

/-! ## The table of sessions in every run -/

namespace Table

variable {s s' : Server}

theorem reflag (h : Table s) (login flags : Text) : Table (reflag s login flags) := { h.attachExternal login flags with }

/-- Fewer connected clients, with what they refer to unchanged. -/
theorem users (h : Table s) {users : List User}
    (hu : ∀ u ∈ users, u.connected → ∃ v ∈ s.users, v.connected ∧ v.login = u.login ∧ v.session = u.session) :
    Table { s with users } :=
  { h with
    attached := fun u hmem hc => by
      obtain ⟨v, hv, hvc, hl, hs⟩ := hu u hmem hc
      have := h.attached v hv hvc
      rwa [hl, hs] at this }

theorem disconnect (h : Table s) (i : ℕ) :
    Table { s with users := s.users.modify i fun u => { u with connected := false } } :=
  h.users (forall_mem_modify (fun u hu hc => ⟨u, hu, hc, rfl, rfl⟩) (by simp))

theorem destroyed (h : Table s) (i : ℕ) :
    Table { s with users := s.users.modify i fun u => { u with destroyed := true } } :=
  h.users (forall_mem_modify (fun u hu hc => ⟨u, hu, hc, rfl, rfl⟩) fun u hu hc => ⟨u, hu, hc, rfl, rfl⟩)

theorem not_connected {login : Text} (hempty : s.findLogin login = []) :
    ∀ u ∈ s.users, u.connected → u.login ≠ login := by
  intro u hu hc hl
  obtain ⟨i, hi⟩ := List.mem_iff_getElem?.mp hu
  have : i ∈ s.findLogin login := Server.mem_findLogin.mpr ⟨u, hi, hc, hl⟩
  simp [hempty] at this

theorem forgotten {login l : Text} {id : ℕ} (hl : Function.update s.sessions login none l = some id) :
    s.sessions l = some id := by
  by_cases hll : l = login
  · simp [hll] at hl
  · simpa [hll] using hl

theorem determineLifetime (h : Table s) (login : Text) : Table (s.determineLifetime login) := by
  unfold Server.determineLifetime
  split_ifs with hcount
  · exact h
  · have hno : ∀ u ∈ s.users, u.connected → u.login ≠ login := not_connected (by simpa using hcount)
    refine ⟨fun l id hl => h.bound l id (forgotten hl), fun l l' id hl hl' =>
      h.injective l l' id (forgotten hl) (forgotten hl'), fun u hu hc => ?_⟩
    simpa [hno u hu hc] using h.attached u hu hc

/-- The first connection of a login makes its session. -/
theorem connect_first (h : Table s) {login : Text} (hid : s.sessions login = none) (o : Session) :
    Table { s with
      objects := s.objects ++ [o]
      sessions := Function.update s.sessions login (some s.objects.length)
      users := s.users ++ [⟨login, true, false, some s.objects.length⟩] } := by
  have hother : ∀ {l id}, l ≠ login → Function.update s.sessions login (some s.objects.length) l = some id →
      s.sessions l = some id ∧ id < s.objects.length := by
    intro l id hl hs
    have hs : s.sessions l = some id := by simpa [hl] using hs
    exact ⟨hs, h.bound l id hs⟩
  refine ⟨?_, ?_, ?_⟩
  · intro l id hl
    by_cases hll : l = login
    · obtain rfl : s.objects.length = id := by simpa [hll] using hl
      simp
    · have := (hother hll hl).2
      simp only [List.length_append, List.length_singleton]
      omega
  · intro l l' id hl hl'
    by_cases hll : l = login
    · obtain rfl : s.objects.length = id := by simpa [hll] using hl
      by_contra hne
      exact Nat.lt_irrefl _ (hother (fun heq => hne (hll.trans heq.symm)) hl').2
    · by_cases hll' : l' = login
      · obtain rfl : s.objects.length = id := by simpa [hll'] using hl'
        exact absurd (hother hll hl).2 (Nat.lt_irrefl _)
      · exact h.injective l l' id (hother hll hl).1 (hother hll' hl').1
  · refine List.forall_mem_append.mpr ⟨fun u hu hc => ?_, by simp⟩
    have hold : u.login ≠ login := by
      intro hl
      have := (h.attached u hu hc).2
      simp [hl, hid] at this
    simpa [hold] using h.attached u hu hc

/-- A further connection attaches to the session of its login. -/
theorem connect_again (h : Table s) {login : Text} {id : ℕ} (hid : s.sessions login = some id) (f : Session → Session) :
    Table { s with
      objects := s.objects.modify id f
      users := s.users ++ [⟨login, true, false, some id⟩] } := by
  refine ⟨?_, h.injective, ?_⟩
  · simpa using h.bound
  · exact List.forall_mem_append.mpr ⟨h.attached, by simp [hid]⟩

/-- What a connection does to the sessions: it makes one from the stored flags, or it resets that of its login to
its raw flags. -/
theorem onPostConnect_cases (h : Table s) {login : Text} (hv : loginValidator login) :
    (s.sessions login = none ∧
      Server.onPostConnect { s with users := s.users ++ [⟨login, true, false, none⟩] } s.users.length login =
        { s with
          objects := s.objects ++ [Session.setFlags ⟨false, false, false, s.flags login⟩ (s.flags login)]
          sessions := Function.update s.sessions login (some s.objects.length)
          users := s.users ++ [⟨login, true, false, some s.objects.length⟩] }) ∨
    ∃ id o, s.sessions login = some id ∧ s.objects[id]? = some o ∧
      Server.onPostConnect { s with users := s.users ++ [⟨login, true, false, none⟩] } s.users.length login =
        { s with
          objects := s.objects.modify id (·.setFlags o.rawflags)
          users := s.users ++ [⟨login, true, false, some id⟩] } := by
  have hne : login ≠ [] := by
    rintro rfl
    simp [loginValidator] at hv
  have hmodify : ∀ session, (s.users ++ [(⟨login, true, false, none⟩ : User)]).modify s.users.length
      (fun u => { u with session }) = s.users ++ [⟨login, true, false, session⟩] := fun session => by
    rw [List.modify_eq_set_getElem?]
    simp
  cases hid : s.sessions login with
  | none =>
    refine .inl ⟨rfl, ?_⟩
    simp [Server.onPostConnect, hid, Server.attach, Server.add, hne, Server.setSession, hmodify]
  | some id =>
    obtain ⟨o, ho⟩ : ∃ o, s.objects[id]? = some o := ⟨_, List.getElem?_eq_getElem (h.bound _ _ hid)⟩
    refine .inr ⟨id, o, rfl, ho, ?_⟩
    simp [Server.onPostConnect, hid, ho, Server.attach, Server.setSession, hmodify]

theorem addFlag (h : Table s) (login flag : Text) : Table (addFlag s login flag) := by
  rcases addFlag_cases s login flag with heq | ⟨flags, heq⟩
  · rw [heq]; exact h
  · rw [heq]; exact h.reflag login flags

theorem delFlag (h : Table s) (login flag : Text) : Table (delFlag s login flag) := by
  rcases delFlag_cases s login flag with heq | ⟨flags, heq⟩
  · rw [heq]; exact h
  · rw [heq]; exact h.reflag login flags

theorem step (h : Table s) {e : Event} (hn : next s e = some s') : Table s' := by
  cases e with
  | connect login =>
    obtain ⟨hv, rfl⟩ : loginValidator login = true ∧ _ = s' := by simpa [next] using hn
    rcases h.onPostConnect_cases hv with ⟨hid, heq⟩ | ⟨id, o, hid, -, heq⟩
    · rw [heq]; exact h.connect_first hid _
    · rw [heq]; exact h.connect_again hid _
  | disconnect i =>
    obtain rfl : _ = s' := by simpa [next] using hn
    exact h.disconnect i
  | destroy i =>
    simp only [next] at hn
    split at hn
    · split_ifs at hn
      obtain rfl : _ = s' := by simpa using hn
      exact (h.destroyed i).determineLifetime _
    · simp at hn
  | forget login =>
    obtain rfl : _ = s' := by simpa [next] using hn
    exact h.determineLifetime login
  | addFlag i login flag =>
    simp only [next, Option.some.injEq] at hn
    split_ifs at hn
    · exact hn ▸ h.addFlag login flag
    · exact hn ▸ h
  | delFlag i login flag =>
    simp only [next, Option.some.injEq] at hn
    split_ifs at hn
    · exact hn ▸ h.delFlag login flag
    · exact hn ▸ h

theorem start (hstart : machine.initial s) : Table s := by
  obtain ⟨-, hsess, hu⟩ := hstart
  constructor <;> simp [hsess, hu]

end Table

/-! ## The rights of the sessions -/

namespace Follows

variable {s s' : Server}

theorem users (h : Follows s) {users : List User}
    (hu : ∀ u ∈ users, u.connected → ∃ v ∈ s.users, v.connected ∧ v.login = u.login) : Follows { s with users } := by
  intro u hmem hc id hid o ho
  obtain ⟨v, hv, hvc, hl⟩ := hu u hmem hc
  have hid : s.sessions v.login = some id := hl ▸ hid
  exact hl ▸ h v hv hvc id hid o ho

theorem determineLifetime (h : Follows s) (login : Text) : Follows (s.determineLifetime login) := by
  unfold Server.determineLifetime
  split_ifs
  · exact h
  · exact fun u hu hc id hid => h u hu hc id (Table.forgotten hid)

theorem reflag (h : Follows s) (ht : Table s) (login flags : Text) : Follows (reflag s login flags) :=
  h.attachExternal ht login flags

/-- The first connection of a login makes its session from the stored flags. -/
theorem connect_first (h : Follows s) (ht : Table s) {login : Text} (hid : s.sessions login = none) :
    Follows { s with
      objects := s.objects ++ [Session.setFlags ⟨false, false, false, s.flags login⟩ (s.flags login)]
      sessions := Function.update s.sessions login (some s.objects.length)
      users := s.users ++ [⟨login, true, false, some s.objects.length⟩] } := by
  refine List.forall_mem_append.mpr ⟨fun u hu hc id hid' o ho => ?_, ?_⟩
  · have hold : u.login ≠ login := by
      intro hl
      have := (ht.attached u hu hc).2
      simp [hl, hid] at this
    have hid' : s.sessions u.login = some id := by simpa [hold] using hid'
    have ho : s.objects[id]? = some o := by simpa [List.getElem?_append_left (ht.bound _ _ hid')] using ho
    exact h u hu hc id hid' o ho
  · simp only [List.mem_singleton, forall_eq, Function.update_self, Option.some.injEq]
    rintro _ id rfl o ho
    obtain rfl : _ = o := by simpa using ho
    simp

/-- A further connection attaches to the session of its login, whose raw flags are up to date. -/
theorem connect_again (h : Follows s) (ht : Table s) {login : Text} {id : ℕ} {flags : Text}
    (hid : s.sessions login = some id) (hflags : rights flags = rights (s.flags login)) :
    Follows { s with
      objects := s.objects.modify id (·.setFlags flags)
      users := s.users ++ [⟨login, true, false, some id⟩] } := by
  have hrights : ∀ l i, s.sessions l = some i → ∀ o, (s.objects.modify id (·.setFlags flags))[i]? = some o →
      (l ≠ login → ∀ o, s.objects[i]? = some o → o.rights = rights (s.flags l)) → o.rights = rights (s.flags l) := by
    intro l i hi o ho hother
    rw [List.getElem?_modify] at ho
    by_cases hl : l = login
    · obtain rfl : id = i := by rw [hl, hid] at hi; exact Option.some.inj hi
      obtain ⟨o', _, rfl⟩ := Option.map_eq_some_iff.mp (by simpa using ho)
      simp [hl, hflags]
    · have hne : id ≠ i := by
        rintro rfl
        exact hl (ht.injective _ _ _ hi hid)
      exact hother hl o (by simpa [hne] using ho)
  refine List.forall_mem_append.mpr ⟨fun u hu hc i hi o ho => ?_, ?_⟩
  · exact hrights _ i hi o ho fun _ => h u hu hc i hi
  · simp only [List.mem_singleton, forall_eq]
    exact fun _ i hi o ho => hrights _ i hi o ho fun hne => absurd rfl hne

theorem addFlag (h : Follows s) (ht : Table s) (login flag : Text) : Follows (addFlag s login flag) := by
  rcases addFlag_cases s login flag with heq | ⟨flags, heq⟩
  · rw [heq]; exact h
  · rw [heq]; exact h.reflag ht login flags

theorem delFlag (h : Follows s) (ht : Table s) (login flag : Text) : Follows (delFlag s login flag) := by
  rcases delFlag_cases s login flag with heq | ⟨flags, heq⟩
  · rw [heq]; exact h
  · rw [heq]; exact h.reflag ht login flags

theorem step (h : Follows s) (ht : Table s) {e : Event} (hg : FreshConnects s e) (hn : next s e = some s') :
    Follows s' := by
  cases e with
  | connect login =>
    obtain ⟨hv, rfl⟩ : loginValidator login = true ∧ _ = s' := by simpa [next] using hn
    rcases ht.onPostConnect_cases hv with ⟨hid, heq⟩ | ⟨id, o, hid, ho, heq⟩
    · rw [heq]; exact h.connect_first ht hid
    · rw [heq]; exact h.connect_again ht hid (hg o (by simp [hid, ho]))
  | disconnect i =>
    obtain rfl : _ = s' := by simpa [next] using hn
    exact h.users (forall_mem_modify (fun u hu hc => ⟨u, hu, hc, rfl⟩) (by simp))
  | destroy i =>
    simp only [next] at hn
    split at hn
    · split_ifs at hn
      obtain rfl : _ = s' := by simpa using hn
      refine determineLifetime (h.users (forall_mem_modify ?_ ?_)) _
      · exact fun u hu hc => ⟨u, hu, hc, rfl⟩
      · exact fun u hu hc => ⟨u, hu, hc, rfl⟩
    · simp at hn
  | forget login =>
    obtain rfl : _ = s' := by simpa [next] using hn
    exact h.determineLifetime login
  | addFlag i login flag =>
    simp only [next, Option.some.injEq] at hn
    split_ifs at hn
    · exact hn ▸ h.addFlag ht login flag
    · exact hn ▸ h
  | delFlag i login flag =>
    simp only [next, Option.some.injEq] at hn
    split_ifs at hn
    · exact hn ▸ h.delFlag ht login flag
    · exact hn ▸ h

end Follows

/-- While every new connection finds no session of its login, or one whose raw flags are up to date,
all connected clients have the rights of the stored flags. -/
theorem privileges_follow_flags {s : Server} (h : machine.Reach FreshConnects s) : PrivilegesFollowFlags s := by
  have hinv : Table s ∧ Follows s := by
    induction h with
    | initial hstart =>
      obtain ⟨-, -, hu⟩ := id hstart
      exact ⟨.start hstart, by simp [Follows, hu]⟩
    | step _ hg hn ih => exact ⟨ih.1.step hn, ih.2.step ih.1 hg hn⟩
  exact hinv.2.privileges hinv.1

/-- Two accounts, the root user and a login with the right to execute. -/
def twoAccounts : Server where
  flags login := if login = ROOT_USER then ['r'] else if login = "robert".toList then ['e'] else []
  created _ := true
  objects := []
  sessions _ := none
  users := []

theorem privileges_follow_flags_run : ∃ s, machine.Reach FreshConnects s ∧
    s.users.map (·.session) = [some 0, some 1, some 1] ∧ s.flags "robert".toList = ['e', 'm'] ∧
    PrivilegesFollowFlags s := by
  have h : (machine.exec FreshConnects twoAccounts [.connect ROOT_USER, .connect "robert".toList,
      .connect "robert".toList, .addFlag 0 "robert".toList ['m']]).any (fun s =>
        s.users.map (·.session) = [some 0, some 1, some 1] ∧ s.flags "robert".toList = ['e', 'm']) := by decide
  obtain ⟨s, hr, hsessions, hflags⟩ := Machine.exec_holds h (.initial ⟨rfl, rfl, rfl⟩)
  exact ⟨s, hr, hsessions, hflags, privileges_follow_flags hr⟩

/-- A right that DELFLAG has revoked comes back with the next connection of the login. -/
theorem revoked_right_returns : ∃ s, machine.Reachable s ∧ ¬PrivilegesFollowFlags s := by
  have h : (machine.exec (fun _ _ => True) twoAccounts [.connect ROOT_USER, .connect "robert".toList,
      .delFlag 0 "robert".toList ['e'], .connect "robert".toList]).any (fun s => ¬PrivilegesFollowFlags s) := by decide
  exact Machine.exec_holds h (.initial ⟨rfl, rfl, rfl⟩)

end BerylDB.Sessions
