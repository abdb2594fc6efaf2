import BerylDB.Registration
import BerylDB.LoginCache

/-! # The gate of registration

A client is registered for the login that it gave with a valid password, and runs no other handlers before. -/
namespace BerylDB.Connections
open Text Store Groups Logins Transition

variable {P : Platform} {compare : Bytes → Bytes → Bool} {d : Daemon} {accounts : Accounts} {s t : Server}

/-- The password of the last AUTH; a client that gave none has the empty one. -/
def latestAuth (history : List Invocation) : Bytes :=
  history.foldl (fun auth found =>
    if found.handler.name = lit "AUTH" ∧ 3 ≤ (found.param 0).length ∧ (found.param 0).length ≤ 100 then found.param 0
    else auth) []

/-- The history has a LOGIN at which `CheckPass` took the latest password. -/
def Authenticated (P : Platform) (compare : Bytes → Bytes → Bool) (history : List Invocation) (login : Bytes) : Prop :=
  ∃ before found after, history = before ++ found :: after ∧ found.handler.name = lit "LOGIN" ∧ found.param 0 = login ∧
    (UserHelper.checkPass P compare found.accounts login (latestAuth before) found.last).1 = true

/-- What holds of every client. -/
structure Client.Gated (P : Platform) (compare : Bytes → Bytes → Bool) (c : Client) : Prop where
  auth : c.auth = latestAuth c.history
  unlogged : c.logged = false → c.registered ∈ [Registration.none, .user]
  admitted : c.registered ∈ [Registration.login, .loginUser, .ok] → Authenticated P compare c.history c.login
  handlers : ∀ found ∈ c.history, found.registered = .ok ∨ found.handler.preRegOk

theorem latestAuth_append (history : List Invocation) (found : Invocation) : latestAuth (history ++ [found]) =
    if found.handler.name = lit "AUTH" ∧ 3 ≤ (found.param 0).length ∧ (found.param 0).length ≤ 100 then found.param 0
    else latestAuth history := by
  simp [latestAuth]

theorem Authenticated.append {history : List Invocation} {login : Bytes} (h : Authenticated P compare history login)
    (found : Invocation) : Authenticated P compare (history ++ [found]) login := by
  obtain ⟨before, at_, after, rfl, name, own, passed⟩ := h
  exact ⟨before, at_, after ++ [found], by simp, name, own, passed⟩

namespace Client

variable {c : Client}

/-- A change of none of the fields that the gate is about, unless the client is disconnected. -/
theorem Gated.same (h : c.Gated P compare) {c' : Client} (auth : c'.auth = c.auth) (logged : c'.logged = c.logged)
    (registered : c'.registered = c.registered) (login : c'.login = c.login) (history : c'.history = c.history) :
    c'.Gated P compare := by
  refine ⟨?_, ?_, ?_, ?_⟩
  · rw [auth, history]
    exact h.auth
  · rw [logged, registered]
    exact h.unlogged
  · rw [registered, history, login]
    exact h.admitted
  · rw [history]
    exact h.handlers

theorem Gated.disconnect (h : c.Gated P compare) : c.disconnect.Gated P compare := by
  unfold Client.disconnect
  split
  · exact h
  · exact h.same rfl rfl rfl rfl rfl

theorem Gated.verify (h : c.Gated P compare) (denied timeout : Bool) : (c.verify denied timeout).Gated P compare := by
  rcases c.verify_cases denied timeout with idle | quits | ⟨complete, registers⟩
  · rwa [idle]
  · rw [quits]
    exact h.disconnect
  · rw [registers]
    refine ⟨h.auth, fun unlogged => ?_, fun _ => h.admitted (by simp [complete]), h.handlers⟩
    have early := h.unlogged unlogged
    simp [complete] at early

/-- An invocation that is recorded, before its handler runs. -/
structure Recorded (P : Platform) (compare : Bytes → Bytes → Bool) (c : Client) (found : Invocation) (c' : Client) : Prop where
  gated : c.Gated P compare
  ready : found.registered = .ok ∨ found.handler.preRegOk
  auth : c'.auth = c.auth
  logged : c'.logged = c.logged
  registered : c'.registered = c.registered
  login : c'.login = c.login
  history : c'.history = c.history ++ [found]

namespace Recorded

variable {found : Invocation} {c' : Client}

theorem handlers (h : Recorded P compare c found c') :
    ∀ found' ∈ c'.history, found'.registered = .ok ∨ found'.handler.preRegOk := by
  rw [h.history]
  intro found' here
  rcases List.mem_append.mp here with old | new
  · exact h.gated.handlers found' old
  · rw [List.mem_singleton.mp new]
    exact h.ready

/-- A handler that is neither AUTH nor a LOGIN that passes. -/
theorem gated_of (h : Recorded P compare c found c') (name : found.handler.name ≠ lit "AUTH") : c'.Gated P compare := by
  refine ⟨?_, ?_, ?_, h.handlers⟩
  · rw [h.auth, h.history, latestAuth_append, if_neg fun given => name given.1]
    exact h.gated.auth
  · rw [h.logged, h.registered]
    exact h.gated.unlogged
  · rw [h.registered, h.history, h.login]
    exact fun admitted => (h.gated.admitted admitted).append found

theorem setAgent (h : Recorded P compare c found c') (name : found.handler.name = lit "AGENT") (agent : Bytes) :
    (c'.setAgent agent).Gated P compare := by
  have kept := h.gated_of (by rw [name]; decide)
  unfold Client.setAgent
  split_ifs with again
  · exact kept
  · exact kept
  · exact kept
  · refine ⟨kept.auth, fun unlogged => ?_, fun admitted => ?_, kept.handlers⟩
    · have early := kept.unlogged unlogged
      dsimp only
      cases state : c'.registered <;> simp_all [addUserBit]
    · refine kept.admitted ?_
      dsimp only at admitted
      cases state : c'.registered <;> simp_all [addUserBit]

theorem setAuth (h : Recorded P compare c found c') (name : found.handler.name = lit "AUTH") :
    (c'.setAuth (found.param 0)).Gated P compare := by
  have admitted (state : c'.registered ∈ [Registration.login, .loginUser, .ok]) :
      Authenticated P compare c'.history c'.login := by
    rw [h.registered] at state
    rw [h.history, h.login]
    exact (h.gated.admitted state).append found
  have unlogged (logged : c'.logged = false) : c'.registered ∈ [Registration.none, .user] := by
    rw [h.logged] at logged
    rw [h.registered]
    exact h.gated.unlogged logged
  unfold Client.setAuth
  split
  · rename_i length
    refine Gated.disconnect ⟨?_, unlogged, admitted, h.handlers⟩
    rw [h.auth, h.history, latestAuth_append, if_neg (by omega)]
    exact h.gated.auth
  · rename_i length
    refine ⟨?_, unlogged, admitted, h.handlers⟩
    dsimp only
    rw [h.history, latestAuth_append, if_pos ⟨name, by omega, by omega⟩]

theorem handleLogin (h : Recorded P compare c found c') (name : found.handler.name = lit "LOGIN") {passed inUse : Bool}
    (answer : passed → (UserHelper.checkPass P compare found.accounts (found.param 0) c.auth found.last).1) :
    (c'.handleLogin (found.param 0) passed inUse).Gated P compare := by
  have kept := h.gated_of (by rw [name]; decide)
  rw [c'.handleLogin_eq]
  split_ifs with refused failed inUse
  · exact kept
  · have unlogged : c'.logged = false := by simpa using fun logged => refused (.inl logged)
    have early := kept.unlogged unlogged
    refine ⟨kept.auth, by simp, fun admitted => ?_, kept.handlers⟩
    dsimp only at admitted
    cases state : c'.registered <;> simp_all
  · have unlogged : c'.logged = false := by simpa using fun logged => refused (.inl logged)
    have early := kept.unlogged unlogged
    refine ⟨kept.auth, by simp, fun admitted => ?_, kept.handlers⟩
    dsimp only at admitted
    cases state : c'.registered <;> simp_all
  · refine ⟨kept.auth, by simp, fun _ => ?_, kept.handlers⟩
    refine ⟨c.history, found, [], h.history, name, rfl, ?_⟩
    rw [← h.gated.auth]
    exact answer (by simpa using failed)

/-- Every handler keeps the gate. -/
theorem handle (h : Recorded P compare c found c') {passed inUse : Bool}
    (answer : passed → (UserHelper.checkPass P compare found.accounts (found.param 0) c.auth found.last).1) :
    (c'.handle found.handler found.params passed inUse).Gated P compare := by
  unfold Client.handle
  dsimp only
  split_ifs with agent auth login iLogin
  · exact h.setAgent agent _
  · exact h.setAuth auth
  · exact h.handleLogin login answer
  · obtain ⟨queued, queues⟩ := c'.iLogin_queues ((found.params[0]?).getD []) ((found.params[1]?).getD [])
      ((found.params[2]?).getD [])
    rw [queues]
    exact (h.gated_of auth).same rfl rfl rfl rfl rfl
  · exact h.gated_of auth

end Recorded

theorem Gated.moves (h : c.Gated P compare) {c' : Client} (moves : Moves P compare accounts c c') : c'.Gated P compare := by
  cases moves with
  | same => exact h
  | disconnect => exact h.disconnect
  | queue pending => exact h.same rfl rfl rfl rfl rfl
  | verify denied timeout => exact h.verify denied timeout
  | handle pending found passed inUse online ready registered table answer =>
    subst table
    have recorded : Recorded P compare c found { c with pending, history := c.history ++ [found] } :=
      ⟨h, by rwa [registered], rfl, rfl, rfl, rfl, rfl⟩
    exact recorded.handle answer

theorem Gated.fresh (uuid : Bytes) : (fresh uuid).Gated P compare := by
  refine ⟨rfl, by simp [Client.fresh], fun admitted => ?_, by simp [Client.fresh]⟩
  simp [Client.fresh] at admitted

/-- A client that is registered stays so, with its login. -/
theorem Gated.stays (h : c.Gated P compare) (registered : c.registered = .ok) {c' : Client}
    (moves : Moves P compare accounts c c') : c'.registered = .ok ∧ c'.login = c.login := by
  have logged : c.logged = true := by
    by_contra unlogged
    have early := h.unlogged (by simpa using unlogged)
    simp [registered] at early
  cases moves.standing with
  | kept same own _ => exact ⟨same.trans registered, own⟩
  | agent early => simp [registered] at early
  | registers complete => simp [registered] at complete
  | refused unlogged => simp [logged] at unlogged
  | passed _ unlogged => simp [logged] at unlogged

end Client

theorem gated {G : Server → Event → Prop} (h : (machine P compare d).Reach G s) {i : ℕ} {c : Client}
    (here : s.clients[i]? = some c) : c.Gated P compare := by
  induction h generalizing c with
  | initial start =>
    rw [start.2.2.1] at here
    simp at here
  | @step s e t _ _ stepped ih =>
    have moved := Server.next_moved stepped i
    rw [here] at moved
    generalize before : s.clients[i]? = old at moved
    cases moved with
    | fresh uuid => exact .fresh uuid
    | some moves => exact (ih before).moves moves

/-- In every run a registered client executed a LOGIN that `CheckPass` took with its latest password, it keeps that
login, and before it was registered only handlers of commands for unregistered clients were invoked for it. -/
theorem authentication_gate (h : (machine P compare d).Reachable s) {i : ℕ} {c : Client} (here : s.clients[i]? = some c) :
    (c.registered = .ok → Authenticated P compare c.history c.login ∧ ∀ e t, next P compare d s e = some t →
      ∃ c', t.clients[i]? = some c' ∧ c'.registered = .ok ∧ c'.login = c.login) ∧
    ∀ found ∈ c.history, found.registered = .ok ∨ found.handler.preRegOk := by
  have gated := gated h here
  refine ⟨fun registered => ⟨gated.admitted (by simp [registered]), fun e t stepped => ?_⟩, gated.handlers⟩
  have moved := Server.next_moved stepped i
  rw [here] at moved
  generalize after : t.clients[i]? = new at moved ⊢
  cases moved with
  | some moves => exact ⟨_, rfl, gated.stays registered moves⟩

open Store.Server (integers)

/-- The commands of registration, as their constructors set them. -/
def registrationDaemon : Daemon where
  getBase command :=
    if command = lit "AGENT" then
      some { name := lit "AGENT", minParams := 1, maxParams := 1, lastEmptyOk := false, preRegOk := true }
    else if command = lit "AUTH" then some { name := lit "AUTH", minParams := 1, maxParams := 1, preRegOk := true }
    else if command = lit "LOGIN" then
      some { name := lit "LOGIN", minParams := 1, maxParams := 1, checkLogin := 0, preRegOk := true }
    else none
  onPreCommand command params _ := some (command, params)
  created _ := []
  validLogin := loginValidator
  beyond := []

def plainView : View := ⟨false, none, [], none, 0⟩

/-- AUTH, LOGIN and AGENT sent in one batch, then visits. -/
def batch (login pass : Bytes) : List Event :=
  [.connect (lit "0001"), .receive 0 (lit "AUTH") [pass], .receive 0 (lit "LOGIN") [login], .receive 0 (lit "AGENT") [login],
    .flush 0 0 plainView, .flush 0 0 plainView, .flush 0 0 plainView, .verify 0 false false]

theorem authentication_gate_bob : ∃ s c, (machine integers dollar registrationDaemon).Reachable s ∧
    s.clients[0]? = some c ∧ c.registered = .ok ∧ Authenticated integers dollar c.history c.login := by
  have h : ((machine integers dollar registrationDaemon).exec (fun _ _ => True) ⟨⟨freshCore, []⟩, [], []⟩
      (.command (.addUser (lit "bob") (lit "secret") (lit "$secret") 7) :: batch (lit "bob") (lit "secret"))).any fun s =>
        s.clients[0]?.any fun c => c.registered = .ok := by decide +kernel
  obtain ⟨s, hs, found⟩ := (Option.any_eq_true _ _).mp h
  obtain ⟨c, here, registered⟩ := (Option.any_eq_true _ _).mp found
  have reached : (machine integers dollar registrationDaemon).Reachable s :=
    Machine.exec_reach (.initial ⟨freshCore_core, rfl, rfl, rfl⟩) _ hs
  have ok : c.registered = .ok := of_decide_eq_true registered
  exact ⟨s, c, reached, here, ok, ((authentication_gate reached here).1 ok).1⟩

end BerylDB.Connections
