import BerylDB.Accounts
import BerylDB.Authorization

/-! # Registration of clients

AGENT, AUTH, LOGIN and ILOGIN of `core_user`, `User::SetLogin`, and the visits of `CommandQueue::Flush` and
`ClientManager::Flush` to a client, beside the commands of administrators on accounts. -/
namespace BerylDB.Connections
open Text Store Groups Logins Transition

/-- A handler that was invoked, and what it found. -/
structure Invocation where
  handler : Groups.Command
  params : List Bytes
  registered : Registration
  accounts : Accounts
  last : ℕ

/-- `listed` tells whether the client is in the table of logins. -/
structure Client where
  registered : Registration
  agent : Bytes
  auth : Bytes
  login : Bytes
  logged : Bool
  listed : Bool
  quitting : Bool
  pending : List (Bytes × List Bytes)
  history : List Invocation

/-- A new client has its UUID for an agent. -/
def Client.fresh (uuid : Bytes) : Client := ⟨.none, uuid, [], [], false, false, false, [], []⟩

/-- `revoked` holds the logins that were disabled or deleted, and neither enabled nor added since. -/
structure Server where
  accounts : Accounts
  clients : List Client
  revoked : List Bytes

/-- What a handler finds beyond the state: the fields of the client that `Execute` reads, the client that
`FindInstanceOnly` finds, and the last entry of the cache of logins. -/
structure View where
  paused : Bool
  session : Option Sessions.Session
  groups : List (Option Group)
  inUse : Option ℕ
  last : ℕ

/-- `registered | REG_USER`. -/
def addUserBit : Registration → Registration
  | .none => .user
  | .login => .loginUser
  | state => state

/-- `registered | REG_LOGIN`. -/
def addLoginBit : Registration → Registration
  | .none => .login
  | .user => .loginUser
  | state => state

namespace Client

/-- `ClientManager::Disconnect`. -/
def disconnect (c : Client) : Client := if c.quitting then c else { c with quitting := true, listed := false }

/-- `CommandQueue::Add`, when it takes the command up. -/
def add (c : Client) (command : Bytes) (params : List Bytes) : Client :=
  if c.quitting then c else { c with pending := c.pending ++ [(command, params)] }

/-- `CommandAgent::HandleLocal`. -/
def setAgent (c : Client) (agent : Bytes) : Client :=
  if c.registered ∈ [Registration.user, .loginUser, .ok] then c
  else if agent.length < 3 ∨ agent.length > 15 then c
  else if !nameValidator agent then c
  else { c with agent, registered := addUserBit c.registered }

/-- `CommandAuth::HandleLocal`. -/
def setAuth (c : Client) (password : Bytes) : Client :=
  if password.length < 3 ∨ password.length > 100 then c.disconnect else { c with auth := password }

/-- `CommandILogin::Handle`. -/
def iLogin (c : Client) (agent auth login : Bytes) : Client :=
  if c.logged then c
  else ((c.add (lit "AGENT") [agent]).add (lit "AUTH") [auth]).add (lit "LOGIN") [login]

/-- `User::SetLogin`; `passed` is the answer of `CheckPass`, and `inUse` tells whether `FindInstanceOnly` finds another
client. -/
def setLogin (c : Client) (userlogin : Bytes) (passed inUse : Bool) : Bool × Client :=
  if c.logged then (false, c)
  else if c.quitting then (false, c)
  else
    let c := { c with logged := true, login := userlogin }
    if !passed then (false, c.disconnect)
    else if inUse then (false, c)
    else (true, { c with listed := true })

/-- `CommandLogin::HandleLocal`. -/
def handleLogin (c : Client) (newlogin : Bytes) (passed inUse : Bool) : Client :=
  let (done, c) := c.setLogin newlogin passed inUse
  if !done then c
  else if c.registered ∈ [Registration.none, .user, .login] then { c with registered := addLoginBit c.registered }
  else c

/-- Handlers other than these neither read nor write what is modelled here. -/
def handle (c : Client) (handler : Groups.Command) (params : List Bytes) (passed inUse : Bool) : Client :=
  let param (n : ℕ) : Bytes := (params[n]?).getD []
  if handler.name = lit "AGENT" then c.setAgent (param 0)
  else if handler.name = lit "AUTH" then c.setAuth (param 0)
  else if handler.name = lit "LOGIN" then c.handleLogin (param 0) passed inUse
  else if handler.name = lit "ILOGIN" then c.iLogin (param 0) (param 1) (param 2)
  else c

/-- The visit of `ClientManager::Flush` to a client that is not quitting; `denied` and `timeout` are what
`check_con_conf` and `VerifyRegistrationTimeout` come to. -/
def verify (c : Client) (denied timeout : Bool) : Client :=
  if c.quitting then c
  else
    match c.registered with
    | .ok => c
    | .loginUser => if denied then c.disconnect else { c with registered := .ok }
    | _ => if timeout then c.disconnect else c

end Client

namespace Server

variable (P : Platform) (compare : Bytes → Bytes → Bool) (d : Daemon)

/-- A handler is invoked.  LOGIN asks `CheckPass` unless the client is logged or quitting, and another client that is
found in use is disconnected. -/
def invoke (s : Server) (i : ℕ) (c : Client) (handler : Groups.Command) (params : List Bytes) (view : View) : Server :=
  let found : Invocation := ⟨handler, params, c.registered, s.accounts, view.last⟩
  let c := { c with history := c.history ++ [found] }
  if handler.name = lit "LOGIN" ∧ c.logged = false ∧ c.quitting = false then
    let (passed, accounts) := UserHelper.checkPass P compare s.accounts ((params[0]?).getD []) c.auth view.last
    match if passed then view.inUse.filter (· ≠ i) else none with
    | none => { s with accounts, clients := s.clients.set i (c.handle handler params passed false) }
    | some inUse =>
      { s with accounts, clients := (s.clients.set i (c.handle handler params passed true)).modify inUse Client.disconnect }
  else { s with clients := s.clients.set i (c.handle handler params false false) }

/-- The visit of `CommandQueue::Flush`.  Before a client is registered no transaction begins, and the first command is
taken; then it may come from the list of a transaction, whose place among the others is left open. -/
def flush (s : Server) (i position : ℕ) (view : View) : Option Server :=
  match s.clients[i]? with
  | none => none
  | some c =>
    if c.quitting then some { s with clients := s.clients.set i { c with pending := [] } }
    else if c.registered ≠ .ok ∧ position ≠ 0 then none
    else
      match c.pending[position]? with
      | none => none
      | some (command, params) =>
        let c := { c with pending := c.pending.eraseIdx position }
        let s := { s with clients := s.clients.set i c }
        match d.execute ⟨view.paused, c.registered, view.session, view.groups⟩ command params with
        | .handled handler params _ => some (s.invoke P compare i c handler params view)
        | .queued alias_ params => some { s with clients := s.clients.set i (c.add alias_ params) }
        | _ => some s

/-- `DisconnectAll`. -/
def disconnectAll (s : Server) (login : Bytes) : Server :=
  { s with clients := s.clients.map fun c =>
      if c.listed && c.login == login && c.registered = .ok then c.disconnect else c }

/-- A command of an administrator on accounts. -/
def command (s : Server) (c : Logins.Command) : Server :=
  let t := { s with accounts := s.accounts.handle P c }
  match c with
  | .addUser login pass _ _ =>
    if s.accounts.addsUser P login pass then { t with revoked := s.revoked.filter (· ≠ login) } else t
  | .delUser login =>
    if s.accounts.checkLogin P true login then { t with revoked := login :: s.revoked }.disconnectAll login else t
  | .setStatus login status =>
    if s.accounts.checkLogin P true login then
      if asBool status false then { t with revoked := s.revoked.filter (· ≠ login) }
      else { t with revoked := login :: s.revoked }.disconnectAll login
    else t
  | _ => t

end Server

/-- Clients connect and are disconnected, send commands that `Add` takes up, and are visited; administrators change
accounts. -/
inductive Event where
  | connect (uuid : Bytes)
  | disconnect (client : ℕ)
  | receive (client : ℕ) (command : Bytes) (params : List Bytes)
  | flush (client position : ℕ) (view : View)
  | verify (client : ℕ) (denied timeout : Bool)
  | command (c : Logins.Command)
  | resetCache

def next (P : Platform) (compare : Bytes → Bytes → Bool) (d : Daemon) (s : Server) : Event → Option Server
  | .connect uuid => some { s with clients := s.clients ++ [.fresh uuid] }
  | .disconnect i => some { s with clients := s.clients.modify i Client.disconnect }
  | .receive i command params => some { s with clients := s.clients.modify i fun c => c.add command params }
  | .flush i position view => s.flush P compare d i position view
  | .verify i denied timeout => some { s with clients := s.clients.modify i fun c => c.verify denied timeout }
  | .command c => some (s.command P c)
  | .resetCache => some { s with accounts := { s.accounts with logins := [] } }

/-- The daemon starts with any core database, an empty cache and no clients. -/
def machine (P : Platform) (compare : Bytes → Bytes → Bool) (d : Daemon) : Machine Server Event :=
  ⟨fun s => s.accounts.core.Core ∧ s.accounts.logins = [] ∧ s.clients = [] ∧ s.revoked = [], next P compare d⟩

/-! ## What a step does to one client -/

variable {P : Platform} {compare : Bytes → Bytes → Bool} {d : Daemon} {accounts : Accounts} {s t : Server}

/-- The parameters that the handlers read. -/
def Invocation.param (found : Invocation) (n : ℕ) : Bytes := (found.params[n]?).getD []

/-- What becomes of a client in a step. -/
inductive Moves (P : Platform) (compare : Bytes → Bytes → Bool) (accounts : Accounts) : Client → Client → Prop
  | same (c : Client) : Moves P compare accounts c c
  | disconnect (c : Client) : Moves P compare accounts c c.disconnect
  | queue (c : Client) (pending : List (Bytes × List Bytes)) : Moves P compare accounts c { c with pending }
  | verify (c : Client) (denied timeout : Bool) : Moves P compare accounts c (c.verify denied timeout)
  | handle (c : Client) (pending : List (Bytes × List Bytes)) (found : Invocation) (passed inUse : Bool) :
    c.quitting = false → (c.registered = .ok ∨ found.handler.preRegOk) → found.registered = c.registered →
    found.accounts = accounts →
    (passed → (UserHelper.checkPass P compare accounts (found.param 0) c.auth found.last).1) →
    Moves P compare accounts c
      (Client.handle { c with pending, history := c.history ++ [found] } found.handler found.params passed inUse)

/-- The client at one place, before and after a step. -/
inductive Moved (P : Platform) (compare : Bytes → Bytes → Bool) (accounts : Accounts) : Option Client → Option Client → Prop
  | none : Moved P compare accounts none none
  | fresh (uuid : Bytes) : Moved P compare accounts none (some (.fresh uuid))
  | some {c c' : Client} : Moves P compare accounts c c' → Moved P compare accounts (some c) (some c')

theorem Moved.same (o : Option Client) : Moved P compare accounts o o := by
  cases o with
  | none => exact .none
  | some c => exact .some (.same c)

theorem moved_set {cs : List Client} {i : ℕ} {c c' : Client} (here : cs[i]? = some c) (moves : Moves P compare accounts c c')
    (k : ℕ) : Moved P compare accounts cs[k]? (cs.set i c')[k]? := by
  rw [List.getElem?_set]
  split
  · rename_i own
    subst own
    rw [here, if_pos (List.getElem?_eq_some_iff.mp here).1]
    exact .some moves
  · exact .same _

theorem moved_modify {cs : List Client} {f : Client → Client} (moves : ∀ c, Moves P compare accounts c (f c)) (i k : ℕ) :
    Moved P compare accounts cs[k]? (cs.modify i f)[k]? := by
  rw [List.getElem?_modify]
  cases cs[k]? with
  | none => exact .none
  | some c =>
    simp only [Option.map_eq_map, Option.map_some]
    split
    · exact .some (moves c)
    · exact .some (.same c)

theorem Client.add_moves (c : Client) (command : Bytes) (params : List Bytes) :
    Moves P compare accounts c (c.add command params) := by
  unfold add
  split
  · exact .same c
  · exact .queue c _

/-- Only the visit to a client that gave both an agent and a login registers it. -/
theorem Client.verify_cases (c : Client) (denied timeout : Bool) : c.verify denied timeout = c ∨
    c.verify denied timeout = c.disconnect ∨
    c.registered = .loginUser ∧ c.verify denied timeout = { c with registered := .ok } := by
  unfold verify
  split
  · exact .inl rfl
  · split
    · exact .inl rfl
    · rename_i complete
      split
      · exact .inr (.inl rfl)
      · exact .inr (.inr ⟨complete, rfl⟩)
    · split
      · exact .inr (.inl rfl)
      · exact .inl rfl

/-- The ways that LOGIN ends. -/
theorem Client.handleLogin_eq (c : Client) (newlogin : Bytes) (passed inUse : Bool) :
    c.handleLogin newlogin passed inUse =
      if c.logged ∨ c.quitting then c
      else if passed = false then { c with logged := true, login := newlogin, quitting := true, listed := false }
      else if inUse then { c with logged := true, login := newlogin }
      else { c with logged := true, login := newlogin, listed := true, registered := addLoginBit c.registered } := by
  unfold handleLogin setLogin
  cases logged : c.logged with
  | true => simp
  | false =>
    cases quitting : c.quitting with
    | true => simp
    | false =>
      cases passed with
      | false => simp [disconnect]
      | true =>
        cases inUse with
        | true => simp
        | false => cases c.registered <;> simp [addLoginBit]

theorem Client.disconnect_quits (c : Client) : c.disconnect.quitting = true := by
  unfold disconnect
  split
  · assumption
  · rfl

/-- ILOGIN only puts commands into the queue. -/
theorem Client.iLogin_queues (c : Client) (agent auth login : Bytes) :
    ∃ pending, c.iLogin agent auth login = { c with pending } := by
  unfold iLogin add
  split_ifs
  · exact ⟨_, rfl⟩
  · exact ⟨_, rfl⟩
  · exact ⟨_, rfl⟩

/-- What a step leaves of the registration of a client. -/
inductive Standing (P : Platform) (compare : Bytes → Bytes → Bool) (accounts : Accounts) (c c' : Client) : Prop
  | kept : c'.registered = c.registered → c'.login = c.login →
    (c'.quitting = false → c.quitting = false ∧ c'.listed = c.listed) → Standing P compare accounts c c'
  | agent : c.registered ∈ [Registration.none, .login] → c'.registered = addUserBit c.registered → c'.login = c.login →
    c'.listed = c.listed → c'.quitting = c.quitting → Standing P compare accounts c c'
  | registers : c.registered = .loginUser → c'.registered = .ok → c'.login = c.login → c'.listed = c.listed →
    c'.quitting = c.quitting → Standing P compare accounts c c'
  | refused : c.logged = false → (c'.quitting = false → c'.registered = c.registered) →
    (c'.quitting = false → c'.listed = c.listed ∧ c.quitting = false) → Standing P compare accounts c c'
  | passed (last : ℕ) : c.logged = false → c'.listed = true →
    (UserHelper.checkPass P compare accounts c'.login c.auth last).1 = true → Standing P compare accounts c c'

theorem Standing.disconnect (c : Client) : Standing P compare accounts c c.disconnect := by
  refine .kept ?_ ?_ fun online => ?_
  · unfold Client.disconnect
    split <;> rfl
  · unfold Client.disconnect
    split <;> rfl
  · rw [c.disconnect_quits] at online
    cases online

theorem Moves.standing {c c' : Client} (moves : Moves P compare accounts c c') : Standing P compare accounts c c' := by
  have same : Standing P compare accounts c c := .kept rfl rfl fun online => ⟨online, rfl⟩
  cases moves with
  | same => exact same
  | disconnect => exact .disconnect c
  | queue pending => exact .kept rfl rfl fun online => ⟨online, rfl⟩
  | verify denied timeout =>
    rcases c.verify_cases denied timeout with idle | quits | ⟨complete, registers⟩
    · rwa [idle]
    · rw [quits]
      exact .disconnect c
    · rw [registers]
      exact .registers complete rfl rfl rfl rfl
  | handle pending found passed inUse online ready at_ table answer =>
    have recorded : Standing P compare accounts c { c with pending, history := c.history ++ [found] } :=
      .kept rfl rfl fun online => ⟨online, rfl⟩
    unfold Client.handle
    dsimp only
    split_ifs with agent auth login iLogin
    · unfold Client.setAgent
      split_ifs with again
      · exact recorded
      · exact recorded
      · exact recorded
      · refine .agent ?_ rfl rfl rfl rfl
        cases state : c.registered <;> simp_all
    · unfold Client.setAuth
      split
      · have quits := Client.disconnect_quits { c with pending, history := c.history ++ [found] }
        refine .kept ?_ ?_ fun online => ?_
        · simp [Client.disconnect, online]
        · simp [Client.disconnect, online]
        · rw [quits] at online
          cases online
      · exact .kept rfl rfl fun online => ⟨online, rfl⟩
    · rw [Client.handleLogin_eq]
      split_ifs with refused failed used
      · exact recorded
      · have unlogged : c.logged = false := by simpa using fun logged => refused (.inl logged)
        exact .refused unlogged (by simp) (by simp)
      · have unlogged : c.logged = false := by simpa using fun logged => refused (.inl logged)
        exact .refused unlogged (fun _ => rfl) fun _ => ⟨rfl, online⟩
      · have unlogged : c.logged = false := by simpa using fun logged => refused (.inl logged)
        exact .passed found.last unlogged rfl (answer (by simpa using failed))
    · obtain ⟨queued, queues⟩ := Client.iLogin_queues { c with pending, history := c.history ++ [found] }
        ((found.params[0]?).getD []) ((found.params[1]?).getD []) ((found.params[2]?).getD [])
      rw [queues]
      exact .kept rfl rfl fun online => ⟨online, rfl⟩
    · exact recorded

namespace Server

/-- The handler of a client that is visited. -/
theorem invoke_moved {i : ℕ} {c : Client} {handler : Groups.Command} {params : List Bytes} {view : View}
    (pending : List (Bytes × List Bytes)) (here : s.clients[i]? = some c) (online : c.quitting = false)
    (ready : c.registered = .ok ∨ handler.preRegOk) (k : ℕ) : Moved P compare s.accounts s.clients[k]?
      (invoke P compare { s with clients := s.clients.set i { c with pending } } i { c with pending } handler params
        view).clients[k]? := by
  have moves (passed inUse : Bool)
      (answer : passed → (UserHelper.checkPass P compare s.accounts ((params[0]?).getD []) c.auth view.last).1) :=
    Moves.handle c pending ⟨handler, params, c.registered, s.accounts, view.last⟩ passed inUse online ready rfl rfl answer
  unfold invoke
  dsimp only
  split
  · split
    · rw [List.set_set]
      exact moved_set here (moves _ false id) k
    · rename_i inUse found
      rw [List.set_set]
      have passed : (UserHelper.checkPass P compare s.accounts ((params[0]?).getD []) c.auth view.last).1 = true := by
        by_contra failed
        simp [failed] at found
      have other : inUse ≠ i := by
        rw [if_pos passed] at found
        have kept := (Option.filter_eq_some_iff.mp found).2
        simpa using kept
      rw [List.getElem?_modify]
      by_cases own : k = i
      · subst own
        rw [List.getElem?_set_self (List.getElem?_eq_some_iff.mp here).1, here]
        simp only [Option.map_eq_map, Option.map_some, if_neg other]
        exact .some (moves _ true id)
      · rw [List.getElem?_set_ne (Ne.symm own), ← List.getElem?_modify]
        exact moved_modify (fun c => .disconnect c) inUse k
  · rw [List.set_set]
    exact moved_set here (moves false false (by simp)) k

theorem flush_moved {i position : ℕ} {view : View} (flushed : s.flush P compare d i position view = some t) (k : ℕ) :
    Moved P compare s.accounts s.clients[k]? t.clients[k]? := by
  unfold flush at flushed
  split at flushed
  · cases flushed
  · rename_i c here
    split_ifs at flushed with quitting late
    · obtain rfl := Option.some.inj flushed
      exact moved_set here (.queue c []) k
    · split at flushed
      · cases flushed
      · rename_i command params taken
        dsimp only at flushed
        have explained : Daemon.Explains ⟨view.paused, c.registered, view.session, view.groups⟩
            (d.execute ⟨view.paused, c.registered, view.session, view.groups⟩ command params) := Daemon.execute_explains
        split at flushed
        · rename_i handler given limits outcome
          rw [outcome] at explained
          obtain rfl := Option.some.inj flushed
          exact invoke_moved _ here (by simpa using quitting) explained.1 k
        · rename_i alias_ given outcome
          obtain rfl := Option.some.inj flushed
          rw [List.set_set]
          have added : Client.add { c with pending := c.pending.eraseIdx position } alias_ given =
              { c with pending := c.pending.eraseIdx position ++ [(alias_, given)] } := by
            simp [Client.add, quitting]
          rw [added]
          exact moved_set here (.queue c _) k
        · obtain rfl := Option.some.inj flushed
          exact moved_set here (.queue c _) k

theorem disconnectAll_moved (s : Server) (login : Bytes) (k : ℕ) :
    Moved P compare accounts s.clients[k]? (s.disconnectAll login).clients[k]? := by
  unfold disconnectAll
  rw [List.getElem?_map]
  cases s.clients[k]? with
  | none => exact .none
  | some c =>
    dsimp only [Option.map_some]
    split
    · exact .some (.disconnect c)
    · exact .some (.same c)

theorem command_moved (s : Server) (c : Logins.Command) (k : ℕ) :
    Moved P compare accounts s.clients[k]? (s.command P c).clients[k]? := by
  unfold command
  dsimp only
  cases c with
  | addUser =>
    dsimp only
    split
    · exact .same _
    · exact .same _
  | delUser =>
    dsimp only
    split
    · exact disconnectAll_moved _ _ k
    · exact .same _
  | setStatus =>
    dsimp only
    split_ifs
    · exact .same _
    · exact disconnectAll_moved _ _ k
    · exact .same _
  | _ => exact .same _

theorem next_moved {e : Event} (stepped : next P compare d s e = some t) (k : ℕ) :
    Moved P compare s.accounts s.clients[k]? t.clients[k]? := by
  cases e with
  | connect uuid =>
    obtain rfl := Option.some.inj stepped
    dsimp only
    rcases lt_trichotomy k s.clients.length with before | rfl | behind
    · rw [List.getElem?_append_left before]
      exact .same _
    · simpa using Moved.fresh uuid
    · rw [List.getElem?_eq_none (by omega), List.getElem?_eq_none (by simp; omega)]
      exact .none
  | disconnect i =>
    obtain rfl := Option.some.inj stepped
    exact moved_modify (fun c => .disconnect c) i k
  | receive i command params =>
    obtain rfl := Option.some.inj stepped
    exact moved_modify (fun c => c.add_moves command params) i k
  | flush i position view => exact flush_moved stepped k
  | verify i denied timeout =>
    obtain rfl := Option.some.inj stepped
    exact moved_modify (fun c => .verify c denied timeout) i k
  | command c =>
    obtain rfl := Option.some.inj stepped
    exact command_moved s c k
  | resetCache =>
    obtain rfl := Option.some.inj stepped
    exact .same _

end Server

end BerylDB.Connections
