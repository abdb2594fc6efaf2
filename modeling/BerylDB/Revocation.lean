import BerylDB.Gate

/-! # Revocation of logins

What SETSTATUS and DELUSER leave of the clients of a login, and what the login is good for afterwards. -/
namespace BerylDB.Connections
open Text Store Groups Logins Transition

variable {P : Platform} {compare : Bytes → Bytes → Bool} {d : Daemon} {s t : Server}

/-- No connected client of the login has passed LOGIN without being registered. -/
def NonePartial (s : Server) (login : Bytes) : Prop :=
  ∀ c ∈ s.clients, c.quitting = false → c.login = login → c.registered ∉ [Registration.login, .loginUser]

instance (s : Server) (login : Bytes) : Decidable (NonePartial s login) := by unfold NonePartial; infer_instance

/-- SETSTATUS that disables, and DELUSER, find no partial registration of the login. -/
def Settled (P : Platform) (s : Server) : Event → Prop
  | .command (.delUser login) => s.accounts.checkLogin P true login → NonePartial s login
  | .command (.setStatus login status) =>
    s.accounts.checkLogin P true login → asBool status false = false → NonePartial s login
  | _ => True

instance (P : Platform) (s : Server) (e : Event) : Decidable (Settled P s e) :=
  match e with
  | .command (.addUser ..) | .command (.delUser _) | .command (.passwd ..) | .command (.passwdOf ..)
  | .command (.setStatus ..) | .command (.addFlag ..) | .command (.delFlag ..) | .connect _ | .disconnect _ | .receive ..
  | .flush .. | .verify .. | .resetCache => by
    unfold Settled; infer_instance

/-- A login that is disabled, also as the cache has it. -/
structure Closed (P : Platform) (accounts : Accounts) (login : Bytes) : Prop where
  uncached : ∀ e ∈ accounts.logins, e.1 ≠ login
  disabled : asBool (UserHelper.find P accounts.core login (lit "status")) false = false

namespace Closed

variable {accounts : Accounts} {login : Bytes}

theorem checkPass (h : Closed P accounts login) (key : Bytes) (last : ℕ) :
    UserHelper.checkPass P compare accounts login key last = (false, accounts) := by
  have absent : accounts.logins.find login = none := by
    unfold LoginMap.find
    rw [Option.map_eq_none_iff, List.find?_eq_none]
    simpa using h.uncached
  simp [UserHelper.checkPass, LoginMap.inCache, absent, h.disabled]

/-- `CheckPass` of any login leaves a closed one closed. -/
theorem after_checkPass (h : Closed P accounts login) (user key : Bytes) (last : ℕ) :
    Closed P (UserHelper.checkPass P compare accounts user key last).2 login := by
  unfold UserHelper.checkPass
  dsimp only
  split_ifs with hit miss enabled matching
  · exact h
  · exact h
  · exact h
  · exact h
  · refine ⟨fun e here => ?_, h.disabled⟩
    rcases LoginMap.mem_add here with old | rfl
    · exact h.uncached e old
    · rintro rfl
      simp [h.disabled] at enabled

end Closed

/-- A command that does not enable a login. -/
def Opens (P : Platform) (accounts : Accounts) (login : Bytes) : Logins.Command → Prop
  | .addUser user pass .. => user = login ∧ accounts.addsUser P user pass
  | .setStatus user status => user = login ∧ accounts.checkLogin P true user ∧ asBool status false
  | _ => False

theorem disabled_of {k : Kernel} (core : k.Core) {login : Bytes}
    (field : (k.table login)[lit "status"]? ∈ [none, some (lit "0"), some (lit "login")]) :
    asBool (UserHelper.find P k login (lit "status")) false = false := by
  unfold UserHelper.find
  rw [core.get_eq]
  split
  · decide
  · simp only [List.mem_cons, List.not_mem_nil, or_false] at field
    rcases field with none | zero | listed
    · rw [none]
      decide
    · rw [zero]
      decide
    · rw [listed]
      decide

theorem Closed.handle {accounts : Accounts} {login : Bytes} (core : accounts.core.Core) (h : Closed P accounts login)
    {c : Logins.Command} (shut : ¬Opens P accounts login c) : Closed P (accounts.handle P c) login := by
  obtain ⟨core', frame⟩ := Accounts.handle_frame (P := P) core c
  refine ⟨fun e here => h.uncached e (Accounts.handle_logins here), ?_⟩
  by_cases written : c.Writes login (lit "status")
  · cases c with
    | addUser user pass hashed now =>
      by_cases accepted : accounts.addsUser P user pass
      · rcases written with own | listed | grouped
        · exact absurd ⟨own.1.symm, accepted⟩ shut
        · obtain ⟨table, rfl⟩ := listed
          have length : 3 ≤ (lit "status").length ∧ (lit "status").length ≤ 15 := by decide
          have value : ((Server.addUser P accounts.core (lit "status") hashed now).table login)[lit "status"]? = _ :=
            UserHelper.add_field core length login (lit "status")
          have groups : login ≠ usergroups (lit "status") := by
            rw [table]
            decide
          rw [if_neg fun given => groups given.1, if_pos ⟨table, rfl⟩] at value
          refine disabled_of core' ?_
          simp only [Accounts.handle, if_pos accepted, value]
          simp
        · exact absurd grouped.2 (by decide)
      · have idle : accounts.handle P (.addUser user pass hashed now) = accounts := by
          simp only [Accounts.handle, if_neg accepted]
        rw [idle]
        exact h.disabled
    | delUser user =>
      rcases Accounts.delUser_deletes (P := P) core user login (lit "status") with same | deleted
      · rw [find_same core core' same]
        exact h.disabled
      · exact disabled_of core' (by simp [deleted])
    | setStatus user status =>
      obtain ⟨rfl, -⟩ := written
      by_cases accepted : accounts.checkLogin P true login
      · have off : asBool status false = false := by
          by_contra on
          exact shut ⟨rfl, accepted, by simpa using on⟩
        have named : login ≠ [] := by
          intro empty
          simp [Accounts.checkLogin, empty] at accepted
        refine disabled_of core' ?_
        simp only [Accounts.handle, if_pos accepted]
        rw [core.set_field, if_pos ⟨rfl, rfl, named, by decide, by simp [off, boolText, lit]⟩]
        simp [off, boolText]
      · have idle : accounts.handle P (.setStatus login status) = accounts := by simp only [Accounts.handle, if_neg accepted]
        rw [idle]
        exact h.disabled
    | passwd => exact absurd written.2 (by decide)
    | passwdOf => exact absurd written.2 (by decide)
    | addFlag => exact absurd written.2 (by decide)
    | delFlag => exact absurd written.2 (by decide)
  · rw [find_same core core' (frame login _ written)]
    exact h.disabled

/-- SETSTATUS that disables, and DELUSER, close the login. -/
theorem closed_after {accounts : Accounts} {login : Bytes} (core : accounts.core.Core) {c : Logins.Command}
    (accepted : accounts.checkLogin P true login)
    (revokes : c = .delUser login ∨ ∃ status, asBool status false = false ∧ c = .setStatus login status) :
    Closed P (accounts.handle P c) login := by
  have named : login ≠ [] := by
    intro empty
    simp [Accounts.checkLogin, empty] at accepted
  have core' := (Accounts.handle_frame (P := P) core c).1
  rcases revokes with rfl | ⟨status, off, rfl⟩
  · refine ⟨fun e here => ?_, disabled_of core' ?_⟩
    · simp only [Accounts.handle, if_pos accepted, UserHelper.remove, LoginMap.mem_remove] at here
      exact here.2
    · simp only [Accounts.handle, if_pos accepted]
      rw [UserHelper.remove_field core named, if_pos (.inl ⟨rfl, by decide⟩)]
      simp
  · refine ⟨fun e here => ?_, disabled_of core' ?_⟩
    · simp only [Accounts.handle, if_pos accepted, off, if_true, LoginMap.mem_remove] at here
      exact here.2
    · simp only [Accounts.handle, if_pos accepted]
      rw [core.set_field, if_pos ⟨rfl, rfl, named, by decide, by simp [off, boolText, lit]⟩]
      simp [off, boolText]

/-- Revoked logins are closed, their connected clients have not passed LOGIN, and who has is in the table of logins. -/
structure Shut (P : Platform) (s : Server) : Prop where
  core : s.accounts.core.Core
  closed : ∀ login ∈ s.revoked, Closed P s.accounts login
  out : ∀ c ∈ s.clients, c.login ∈ s.revoked → c.quitting = false → c.registered ∈ [Registration.none, .user]
  listed : ∀ c ∈ s.clients, c.quitting = false → c.registered ∈ [Registration.none, .user] ∨ c.listed

/-- A step lets no client of a closed login pass. -/
theorem Moves.out {accounts : Accounts} {revoked : List Bytes} (closed : ∀ login ∈ revoked, Closed P accounts login)
    {c c' : Client} (unlogged : c.logged = false → c.registered ∈ [Registration.none, .user])
    (out : c.login ∈ revoked → c.quitting = false → c.registered ∈ [Registration.none, .user])
    (moves : Moves P compare accounts c c') :
    c'.login ∈ revoked → c'.quitting = false → c'.registered ∈ [Registration.none, .user] := by
  intro login online
  cases moves.standing with
  | kept registered own quitting =>
    rw [own] at login
    rw [registered]
    exact out login (quitting online).1
  | agent early registered own _ quitting =>
    rw [own] at login
    have before := out login (quitting ▸ online)
    rw [registered]
    cases state : c.registered <;> simp_all [addUserBit]
  | registers complete _ own _ quitting =>
    rw [own] at login
    have before := out login (quitting ▸ online)
    simp [complete] at before
  | refused early registered _ =>
    rw [registered online]
    exact unlogged early
  | passed last _ _ answer =>
    rw [(closed _ login).checkPass] at answer
    cases answer

/-- Who passes LOGIN gets into the table of logins, and leaves it when it is disconnected. -/
theorem Moves.listed {accounts : Accounts} {c c' : Client}
    (listed : c.quitting = false → c.registered ∈ [Registration.none, .user] ∨ c.listed)
    (moves : Moves P compare accounts c c') :
    c'.quitting = false → c'.registered ∈ [Registration.none, .user] ∨ c'.listed := by
  intro online
  cases moves.standing with
  | kept registered _ quitting =>
    rw [registered, (quitting online).2]
    exact listed (quitting online).1
  | agent early registered _ same quitting =>
    have before := listed (quitting ▸ online)
    rw [registered, same]
    cases state : c.registered <;> simp_all [addUserBit]
  | registers complete _ _ same quitting =>
    have before := listed (quitting ▸ online)
    rw [same]
    exact .inr (by simpa [complete] using before)
  | refused _ registered same =>
    rw [registered online, (same online).1]
    exact listed (same online).2
  | passed _ _ inside _ => exact .inr inside

namespace Server

/-- The accounts after a step that is not a command on them. -/
def Quiet (P : Platform) (compare : Bytes → Bytes → Bool) (s t : Server) : Prop :=
  t.revoked = s.revoked ∧ (t.accounts = s.accounts ∨
    (∃ user key last, t.accounts = (UserHelper.checkPass P compare s.accounts user key last).2) ∨
    t.accounts = { s.accounts with logins := [] })

theorem invoke_quiet (s : Server) (i : ℕ) (c : Client) (handler : Groups.Command) (params : List Bytes) (view : View) :
    Quiet P compare s (s.invoke P compare i c handler params view) := by
  unfold invoke
  dsimp only
  split
  · split
    · exact ⟨rfl, .inr (.inl ⟨_, _, _, rfl⟩)⟩
    · exact ⟨rfl, .inr (.inl ⟨_, _, _, rfl⟩)⟩
  · exact ⟨rfl, .inl rfl⟩

theorem flush_quiet {i position : ℕ} {view : View} (flushed : s.flush P compare d i position view = some t) :
    Quiet P compare s t := by
  unfold flush at flushed
  split at flushed
  · cases flushed
  · split_ifs at flushed with quitting late
    · obtain rfl := Option.some.inj flushed
      exact ⟨rfl, .inl rfl⟩
    · split at flushed
      · cases flushed
      · dsimp only at flushed
        split at flushed
        · obtain rfl := Option.some.inj flushed
          exact invoke_quiet _ _ _ _ _ _
        · obtain rfl := Option.some.inj flushed
          exact ⟨rfl, .inl rfl⟩
        · obtain rfl := Option.some.inj flushed
          exact ⟨rfl, .inl rfl⟩

end Server

namespace Shut

/-- The clients after a step, by the logins that were revoked before it. -/
theorem clients (h : Shut P s)
    (unlogged : ∀ c ∈ s.clients, c.logged = false → c.registered ∈ [Registration.none, .user])
    (moved : ∀ k : ℕ, Moved P compare s.accounts s.clients[k]? t.clients[k]?) (c' : Client) (here : c' ∈ t.clients) :
    (c'.login ∈ s.revoked → c'.quitting = false → c'.registered ∈ [Registration.none, .user]) ∧
      (c'.quitting = false → c'.registered ∈ [Registration.none, .user] ∨ c'.listed) := by
  obtain ⟨k, at_⟩ := List.mem_iff_getElem?.mp here
  have moves := moved k
  rw [at_] at moves
  generalize before : s.clients[k]? = old at moves
  cases moves with
  | fresh uuid => simp [Client.fresh]
  | @some c _ moves =>
    have there := List.mem_of_getElem? before
    exact ⟨moves.out h.closed (unlogged c there) (h.out c there), moves.listed (h.listed c there)⟩

theorem quiet (h : Shut P s) (quiet : Server.Quiet P compare s t)
    (clients : ∀ c' ∈ t.clients,
      (c'.login ∈ s.revoked → c'.quitting = false → c'.registered ∈ [Registration.none, .user]) ∧
        (c'.quitting = false → c'.registered ∈ [Registration.none, .user] ∨ c'.listed)) : Shut P t := by
  obtain ⟨revoked, accounts⟩ := quiet
  refine ⟨?_, fun login gone => ?_, fun c' here login => ?_, fun c' here => (clients c' here).2⟩
  · rcases accounts with same | ⟨user, key, last, checked⟩ | reset
    · rw [same]
      exact h.core
    · have core : (UserHelper.checkPass P compare s.accounts user key last).2.core = s.accounts.core := by
        unfold UserHelper.checkPass
        dsimp only
        split_ifs <;> rfl
      rw [checked, core]
      exact h.core
    · rw [reset]
      exact h.core
  · rw [revoked] at gone
    have closed := h.closed login gone
    rcases accounts with same | ⟨user, key, last, checked⟩ | reset
    · rwa [same]
    · rw [checked]
      exact closed.after_checkPass user key last
    · rw [reset]
      exact ⟨by simp, closed.disabled⟩
  · rw [revoked] at login
    exact (clients c' here).1 login

/-- A step that changes neither the accounts nor the revoked logins. -/
theorem calm (h : Shut P s) (accounts : t.accounts = s.accounts) (revoked : t.revoked = s.revoked)
    (clients : ∀ c' ∈ t.clients,
      (c'.login ∈ s.revoked → c'.quitting = false → c'.registered ∈ [Registration.none, .user]) ∧
        (c'.quitting = false → c'.registered ∈ [Registration.none, .user] ∨ c'.listed)) : Shut P t := by
  have quiet : Server.Quiet P (fun _ _ => false) s t := ⟨revoked, .inl accounts⟩
  exact h.quiet quiet clients

/-- A command that revokes no login and enables none that stays revoked. -/
theorem kept (h : Shut P s) {c : Logins.Command} {revoked : List Bytes}
    (fewer : ∀ login ∈ revoked, login ∈ s.revoked ∧ ¬Opens P s.accounts login c) :
    Shut P { s with accounts := s.accounts.handle P c, revoked := revoked } :=
  ⟨(Accounts.handle_frame h.core c).1,
    fun login gone => (h.closed login (fewer login gone).1).handle h.core (fewer login gone).2,
    fun c' here login => h.out c' here (fewer _ login).1, h.listed⟩

/-- A command that revokes a login. -/
theorem revoke (h : Shut P s) {c : Logins.Command} {login : Bytes} (accepted : s.accounts.checkLogin P true login)
    (revokes : c = .delUser login ∨ ∃ status, asBool status false = false ∧ c = .setStatus login status)
    (none : NonePartial s login) :
    Shut P (Server.disconnectAll { s with accounts := s.accounts.handle P c, revoked := login :: s.revoked } login) := by
  have shut (other : Bytes) : ¬Opens P s.accounts other c := by
    rcases revokes with rfl | ⟨status, off, rfl⟩
    · exact id
    · rintro ⟨-, -, on⟩
      rw [off] at on
      cases on
  refine ⟨(Accounts.handle_frame h.core c).1, fun other gone => ?_, fun c' here gone online => ?_, fun c' here online => ?_⟩
  · rcases List.mem_cons.mp gone with rfl | old
    · exact closed_after h.core accepted revokes
    · exact (h.closed other old).handle h.core (shut other)
  · obtain ⟨c₀, there, rfl⟩ := List.mem_map.mp here
    split at online
    · rw [Client.disconnect_quits] at online
      cases online
    · rename_i spared
      rw [if_neg spared] at gone ⊢
      rcases List.mem_cons.mp gone with own | old
      · have partial_ := none c₀ there online own
        have listed := h.listed c₀ there online
        cases state : c₀.registered <;> simp_all
      · exact h.out c₀ there old online
  · obtain ⟨c₀, there, rfl⟩ := List.mem_map.mp here
    split at online
    · rw [Client.disconnect_quits] at online
      cases online
    · rename_i spared
      rw [if_neg spared]
      exact h.listed c₀ there online

theorem command (h : Shut P s) {c : Logins.Command} (settled : Settled P s (.command c)) : Shut P (s.command P c) := by
  have others (shut : ∀ login, ¬Opens P s.accounts login c) : Shut P { s with accounts := s.accounts.handle P c } :=
    h.kept fun login gone => ⟨gone, shut login⟩
  cases c with
  | addUser login pass hashed now =>
    simp only [Server.command]
    split
    · refine h.kept fun other gone => ?_
      obtain ⟨old, different⟩ := List.mem_filter.mp gone
      exact ⟨old, fun opens => by simp [opens.1] at different⟩
    · rename_i refused
      exact others fun other opens => refused opens.2
  | delUser login =>
    simp only [Server.command]
    split
    · rename_i accepted
      exact h.revoke accepted (.inl rfl) (settled accepted)
    · exact others fun _ => id
  | setStatus login status =>
    simp only [Server.command]
    split_ifs with accepted on
    · refine h.kept fun other gone => ?_
      obtain ⟨old, different⟩ := List.mem_filter.mp gone
      exact ⟨old, fun opens => by simp [opens.1] at different⟩
    · have off : asBool status false = false := by simpa using on
      exact h.revoke accepted (.inr ⟨status, off, rfl⟩) (settled accepted off)
    · exact others fun other opens => accepted opens.2.1
  | passwd => exact others fun _ => id
  | passwdOf => exact others fun _ => id
  | addFlag => exact others fun _ => id
  | delFlag => exact others fun _ => id

theorem step (h : Shut P s) (unlogged : ∀ c ∈ s.clients, c.logged = false → c.registered ∈ [Registration.none, .user])
    {e : Event} (settled : Settled P s e) (stepped : next P compare d s e = some t) : Shut P t := by
  have moved := Server.next_moved stepped
  cases e with
  | command c =>
    obtain rfl := Option.some.inj stepped
    exact h.command settled
  | flush i position view => exact h.quiet (Server.flush_quiet stepped) (h.clients unlogged moved)
  | resetCache =>
    obtain rfl := Option.some.inj stepped
    have quiet : Server.Quiet P compare s { s with accounts := { s.accounts with logins := [] } } := ⟨rfl, .inr (.inr rfl)⟩
    exact h.quiet quiet (h.clients unlogged moved)
  | connect uuid =>
    obtain rfl := Option.some.inj stepped
    exact h.calm rfl rfl (h.clients unlogged moved)
  | disconnect i =>
    obtain rfl := Option.some.inj stepped
    exact h.calm rfl rfl (h.clients unlogged moved)
  | receive i command params =>
    obtain rfl := Option.some.inj stepped
    exact h.calm rfl rfl (h.clients unlogged moved)
  | verify i denied timeout =>
    obtain rfl := Option.some.inj stepped
    exact h.calm rfl rfl (h.clients unlogged moved)

end Shut

/-- In every run whose revocations find no partial registration of their login, no connected client of a revoked login is
registered. -/
theorem revoked_shut_out (h : (machine P compare d).Reach (Settled P) s) :
    ∀ c ∈ s.clients, c.login ∈ s.revoked → c.quitting = false → c.registered ≠ .ok := by
  have shut : Shut P s := by
    induction h with
    | initial start =>
      obtain ⟨core, -, clients, revoked⟩ := start
      exact ⟨core, by simp [revoked], by simp [clients], by simp [clients]⟩
    | step reached settled stepped ih =>
      refine ih.step (fun c here => ?_) settled stepped
      obtain ⟨i, at_⟩ := List.mem_iff_getElem?.mp here
      exact (gated reached at_).unlogged
  intro c here revoked online registered
  have early := shut.out c here revoked online
  simp [registered] at early

open Store.Server (integers)

/-- An account that is disabled while its client is registered. -/
theorem revoked_shut_out_bob : ∃ s, (machine integers dollar registrationDaemon).Reach (Settled integers) s ∧
    lit "bob" ∈ s.revoked ∧ ∀ c ∈ s.clients, c.login ∈ s.revoked → c.quitting = false → c.registered ≠ .ok := by
  have h : ((machine integers dollar registrationDaemon).exec (Settled integers) ⟨⟨freshCore, []⟩, [], []⟩
      (.command (.addUser (lit "bob") (lit "secret") (lit "$secret") 7) :: batch (lit "bob") (lit "secret") ++
        [.command (.setStatus (lit "bob") (lit "off"))])).any fun s => lit "bob" ∈ s.revoked := by decide +kernel
  obtain ⟨s, reached, revoked⟩ := Machine.exec_holds h (.initial ⟨freshCore_core, rfl, rfl, rfl⟩)
  exact ⟨s, reached, revoked, revoked_shut_out reached⟩

/-- An account is disabled between LOGIN and AGENT. -/
theorem revoked_gets_in : ∃ s, (machine integers dollar registrationDaemon).Reachable s ∧
    ∃ c ∈ s.clients, c.login ∈ s.revoked ∧ c.quitting = false ∧ c.registered = .ok := by
  have h : ((machine integers dollar registrationDaemon).exec (fun _ _ => True) ⟨⟨freshCore, []⟩, [], []⟩
      [.command (.addUser (lit "bob") (lit "secret") (lit "$secret") 7), .connect (lit "0001"),
        .receive 0 (lit "AUTH") [lit "secret"], .receive 0 (lit "LOGIN") [lit "bob"], .receive 0 (lit "AGENT") [lit "agent"],
        .flush 0 0 plainView, .flush 0 0 plainView, .command (.setStatus (lit "bob") (lit "off")), .flush 0 0 plainView,
        .verify 0 false false]).any fun s =>
      s.clients.any fun c => c.login ∈ s.revoked ∧ c.quitting = false ∧ c.registered = .ok := by decide +kernel
  obtain ⟨s, hs, found⟩ := (Option.any_eq_true _ _).mp h
  obtain ⟨c, here, inside⟩ := List.any_eq_true.mp found
  exact ⟨s, Machine.exec_reach (.initial ⟨freshCore_core, rfl, rfl, rfl⟩) _ hs, c, here, of_decide_eq_true inside⟩

end BerylDB.Connections
