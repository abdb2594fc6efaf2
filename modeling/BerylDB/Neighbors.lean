import BerylDB.ChannelSync
import BerylDB.EpochMarks

/-! # Who is told of an exit

A client that leaves is a neighbor of those with whom it shares channels, and the administrators among them are told.
`User::for_each_neighbor` walks all its channels, so it marks in `already_sent` whom it has met, with the number that
`ClientManager::next_sentid` counts up. -/
namespace BerylDB.Channels
open Text Transition EpochMarks

/-- The values of a `sent_id`. -/
def sentIds : ℕ := 2 ^ 32

/-- `sent` holds `already_sent` of every client and `dispatch_sent_id`; `told` lists who was sent the exit of whom. -/
structure Hub where
  server : Server
  admin : ℕ → Bool
  muted : List ℕ
  sent : Marks ℕ
  told : List (ℕ × ℕ)

inductive HubEvent where
  | channels (e : Event)
  | rights (client : ℕ) (canAdmin : Bool)
  | mute (channel : Bytes)
  | unmute (channel : Bytes)

namespace Hub

/-- The clients of `local_users`. -/
def isLocal (h : Hub) (user : ℕ) : Bool := h.server.users[user]?.any fun u => !u.quitting

/-- The subscribers of the channels of a client, in the order of the walk. -/
def walk (h : Hub) (user : ℕ) : List ℕ := (h.server.chansOf user).flatMap h.server.subscribed

/-- `User::for_each_neighbor`, with the clients that the handler is executed for; no module attaches to
OnNeighborBuild. -/
def forEachNeighbor (h : Hub) (user : ℕ) (includeSelf : Bool) : Hub × List ℕ :=
  let visited := ((h.sent.next sentIds h.isLocal).set user).visit h.admin (h.walk user)
  ({ h with sent := visited.1 }, (if includeSelf && h.isLocal user then [user] else []) ++ visited.2)

/-- `DispatchQuit`. -/
def dispatchQuit (h : Hub) (user : ℕ) : Hub :=
  let met := h.forEachNeighbor user false
  { met.1 with told := h.told ++ met.2.map (·, user) }

/-- `ClientManager::Disconnect`; no module attaches to OnUserPreExit.  Only a registered client has neighbors. -/
def disconnect (h : Hub) (user : ℕ) : Hub :=
  { if h.server.users[user]?.any fun u => !u.quitting && u.registered then h.dispatchQuit user else h with
    server := h.server.disconnect user }

/-- A new client has not been sent anything. -/
def accept (h : Hub) : Hub :=
  { h with
    server := { h.server with users := h.server.users ++ [.fresh] }
    sent := { h.sent with mark := Function.update h.sent.mark h.server.users.length 0 } }

variable (hooks : List Hook)

def next (h : Hub) : HubEvent → Option Hub
  | .channels .accept => some h.accept
  | .channels (.disconnect i) => some (h.disconnect i)
  | .channels e => (Channels.next hooks h.server e).map fun server => { h with server }
  | .rights i canAdmin => some { h with admin := Function.update h.admin i canAdmin }
  | .mute channel => some { h with muted := h.muted ++ (h.server.find channel).toList }
  | .unmute channel => some { h with muted := h.muted.filter fun c => h.server.find channel ≠ some c }

/-- The daemon starts without clients and channels, and `dispatch_sent_id` is 0. -/
def machine : Machine Hub HubEvent where
  initial h := (Channels.machine hooks).initial h.server ∧ h.sent = ⟨fun _ => 0, 0⟩ ∧ h.told = [] ∧ h.muted = []
  next := next hooks

end Hub

/-! ## Who is quitting -/

/-- The exits of all clients. -/
def Server.quits (s : Server) : List Bool := s.users.map (·.quitting)

section
variable {hooks : List Hook} {s t : Server} {u w : ℕ} {cname login : Bytes}

theorem quits_modify {f : User → User} (same : ∀ v, (f v).quitting = v.quitting) (ht : t.users = s.users.modify u f) :
    t.quits = s.quits := by
  unfold Server.quits
  rw [ht]
  refine List.ext_getElem? fun i => ?_
  rw [List.getElem?_map, List.getElem?_map, List.getElem?_modify]
  cases s.users[i]? with
  | none => rfl
  | some v => by_cases own : u = i <;> simp [own, same]

theorem quits_executeJoin {c : ℕ} (hj : s.executeJoin c u = some t) : t.quits = s.quits := by
  obtain ⟨-, rfl⟩ := executeJoin_eq hj
  exact quits_modify (f := fun v => { v with chans := c :: v.chans }) (fun _ => rfl) rfl

theorem quits_newChannel {r : Server} {c : ℕ} (hn : s.newChannel cname = some (r, c)) : r.quits = s.quits := by
  obtain ⟨-, -, rfl⟩ := newChannel_eq hn
  rfl

theorem quits_deleteUser (c : ℕ) : (s.deleteUser c u).quits = s.quits := by
  unfold Server.deleteUser
  split
  · exact congrArg (List.map _) (checkRemoval_keeps _ c).2.1
  · rfl

theorem quits_partUser (c : ℕ) : (s.partUser c u).1.quits = s.quits := by
  unfold Server.partUser
  split
  · have parted : Server.quits { s with users := s.users.modify u fun v => { v with chans := v.chans.erase c } } =
        s.quits := quits_modify (f := fun v => { v with chans := v.chans.erase c }) (fun _ => rfl) rfl
    exact (quits_deleteUser c).trans parted
  · rfl

theorem quits_joinWith {preJoin : Server → Bool → Bytes → Option (Server × Bool)}
    (hpre : ∀ found cname r stop, preJoin s found cname = some (r, stop) → r.quits = s.quits)
    (hj : s.joinWith preJoin u cname = some t) : t.quits = s.quits := by
  unfold Server.joinWith at hj
  dsimp only at hj
  split at hj
  · rw [← Option.some.inj hj]
  · split at hj
    · split_ifs at hj
      · rw [← Option.some.inj hj]
      · obtain ⟨⟨r, stop⟩, hr, hj⟩ := Option.bind_eq_some_iff.mp hj
        cases stop with
        | true => exact Option.some.inj hj ▸ hpre _ _ _ _ hr
        | false =>
          obtain ⟨⟨q, c⟩, hq, hj⟩ := Option.bind_eq_some_iff.mp hj
          exact (quits_executeJoin hj).trans ((quits_newChannel hq).trans (hpre _ _ _ _ hr))
    · split_ifs at hj
      · rw [← Option.some.inj hj]
      · obtain ⟨⟨r, stop⟩, hr, hj⟩ := Option.bind_eq_some_iff.mp hj
        cases stop with
        | true => exact Option.some.inj hj ▸ hpre _ _ _ _ hr
        | false => exact (quits_executeJoin hj).trans (hpre _ _ _ _ hr)

theorem quits_joinOverride (hj : s.joinOverride u cname = some t) : t.quits = s.quits := by
  refine quits_joinWith (fun found cname r stop hr => ?_) hj
  obtain ⟨rfl, -⟩ := Prod.mk.inj (Option.some.inj hr)
  rfl

theorem quits_preJoin (hooks : List Hook) {found stop : Bool}
    (hj : Server.preJoin u hooks s found cname = some (t, stop)) : t.quits = s.quits := by
  induction hooks generalizing s with
  | nil =>
    obtain ⟨rfl, -⟩ := Prod.mk.inj (Option.some.inj hj)
    rfl
  | cons hook hooks ih =>
    cases hook with
    | chanRestrict =>
      simp only [Server.preJoin] at hj
      split_ifs at hj
      · obtain ⟨rfl, -⟩ := Prod.mk.inj (Option.some.inj hj)
        rfl
      · exact ih hj
    | chainJoin chain =>
      simp only [Server.preJoin] at hj
      split at hj
      · exact ih hj
      · obtain ⟨r, hr, hj⟩ := Option.bind_eq_some_iff.mp hj
        exact (ih hj).trans (quits_joinOverride hr)
    | forward forwards =>
      simp only [Server.preJoin] at hj
      split at hj
      · exact ih hj
      · obtain ⟨r, hr, hj⟩ := Option.bind_eq_some_iff.mp hj
        obtain ⟨rfl, -⟩ := Prod.mk.inj (Option.some.inj hj)
        exact quits_joinOverride hr

theorem quits_foldl {α : Type} {f : Server → α → Server} (same : ∀ s a, (f s a).quits = s.quits) (as : List α) :
    (as.foldl f s).quits = s.quits := by
  induction as generalizing s with
  | nil => rfl
  | cons a as ih => exact ih.trans (same s a)

theorem quits_foldlM {α : Type} {f : Server → α → Option Server} (same : ∀ s a t, f s a = some t → t.quits = s.quits)
    {as : List α} (run : as.foldlM f s = some t) : t.quits = s.quits :=
  foldlM_keeps (P := fun r => r.quits = s.quits) (fun r a q kept step => (same r a q step).trans kept) as rfl run

theorem quits_clientsPart (skip : ℕ) : (s.clientsPart skip login cname).quits = s.quits := by
  unfold Server.clientsPart
  split
  · rfl
  · rename_i c _
    refine quits_foldl (fun r w => ?_) _
    split
    · rfl
    · exact quits_partUser c

theorem quits_clientsJoin {skip : ℕ} (hj : s.clientsJoin skip login cname = some t) : t.quits = s.quits := by
  refine quits_foldlM (fun r w q step => ?_) hj
  split at step
  · rw [← Option.some.inj step]
  · exact quits_joinOverride step

theorem quits_join (hj : join hooks s u login cname = some t) : t.quits = s.quits := by
  unfold join at hj
  split_ifs at hj
  · rw [← Option.some.inj hj]
  · rw [← Option.some.inj hj]
  · obtain ⟨r, hr, hj⟩ := Option.bind_eq_some_iff.mp hj
    have joined : r.quits = s.quits := quits_joinWith (fun _ _ _ _ hr => quits_preJoin hooks hr) hr
    split_ifs at hj
    · exact (quits_clientsJoin hj).trans joined
    · exact Option.some.inj hj ▸ joined

theorem quits_part : (part s u login cname).quits = s.quits := by
  unfold part
  split
  · rfl
  · rename_i c _
    dsimp only
    split
    · exact (quits_clientsPart u).trans (quits_partUser c)
    · exact quits_partUser c

theorem quits_hop (hj : hop s u cname = some t) : t.quits = s.quits := by
  unfold hop at hj
  split at hj
  · rw [← Option.some.inj hj]
  · rename_i c _
    split_ifs at hj
    · exact (quits_joinOverride hj).trans (quits_partUser c)
    · rw [← Option.some.inj hj]

theorem quits_disconnect : (s.disconnect u).quits = s.quits.modify u fun _ => true := by
  have marked (s : Server) : Server.quits { s with users := s.users.modify u fun v =>
      { v with quitting := true, listed := false } } = s.quits.modify u fun _ => true := by
    unfold Server.quits
    refine List.ext_getElem? fun i => ?_
    rw [List.getElem?_map, List.getElem?_modify, List.getElem?_modify, List.getElem?_map]
    cases s.users[i]? with
    | none => rfl
    | some v => by_cases own : u = i <;> simp [own]
  unfold Server.disconnect
  split
  · rename_i quitting
    refine List.ext_getElem? fun i => ?_
    unfold Server.quits
    rw [List.getElem?_modify, List.getElem?_map]
    by_cases own : u = i
    · subst own
      cases found : s.users[u]? with
      | none => rfl
      | some v => simpa [found] using quitting
    · simp [own]
  · exact (quits_foldl (fun _ c => quits_deleteUser c) _).trans (marked s)

/-- Only a disconnection makes a client quit. -/
theorem quits_next {e : Event} (hn : next hooks s e = some t) :
    t.quits = match e with
      | .accept => s.quits ++ [false]
      | .disconnect i => s.quits.modify i fun _ => true
      | _ => s.quits := by
  cases e with
  | accept =>
    obtain rfl := Option.some.inj hn
    simp [Server.quits, User.fresh]
  | login i login =>
    simp only [next] at hn
    split at hn
    · simp at hn
    · split_ifs at hn
      exact Option.some.inj hn ▸ quits_modify (f := fun v => { v with login, listed := true }) (fun _ => rfl) rfl
  | ready i chans =>
    simp only [next] at hn
    split at hn
    · simp at hn
    · split_ifs at hn
      have ready : Server.quits { s with users := s.users.modify i fun v => { v with registered := true } } = s.quits :=
        quits_modify (f := fun v => { v with registered := true }) (fun _ => rfl) rfl
      exact (quits_foldlM (fun _ _ _ => quits_joinOverride) hn).trans ready
  | disconnect i =>
    exact Option.some.inj hn ▸ quits_disconnect
  | settings allowchans chansync => exact Option.some.inj hn ▸ rfl
  | rights i canExecute =>
    exact Option.some.inj hn ▸ quits_modify (f := fun v => { v with canExecute }) (fun _ => rfl) rfl
  | join i parameter extra =>
    obtain ⟨v, -, hn⟩ := Option.bind_eq_some_iff.mp hn
    exact quits_foldlM (fun _ _ _ => quits_join) hn
  | part i parameter =>
    obtain ⟨v, -, rfl⟩ := Option.map_eq_some_iff.mp hn
    exact quits_foldl (fun _ _ => quits_part) _
  | partAll i =>
    obtain ⟨v, -, rfl⟩ := Option.map_eq_some_iff.mp hn
    exact quits_foldl (fun _ c => quits_partUser c) _
  | hop i parameter =>
    obtain ⟨v, -, hn⟩ := Option.bind_eq_some_iff.mp hn
    exact quits_foldlM (fun _ _ _ => quits_hop) hn

end

/-! ## Every run -/

namespace Hub

/-- Marks are of the past, and nobody was told of a client that is still there. -/
structure Kept (h : Hub) : Prop where
  invariant : Invariant h.server
  past : h.sent.Past sentIds fun w => h.isLocal w = true
  nodup : h.told.Nodup
  gone : ∀ p ∈ h.told, h.server.quits[p.2]? = some true

section
variable {h k : Hub} {u w : ℕ} {hooks : List Hook}

theorem isLocal_iff : h.isLocal w = true ↔ h.server.quits[w]? = some false := by
  unfold isLocal Server.quits
  rw [List.getElem?_map]
  cases h.server.users[w]? <;> simp

theorem live_isLocal (live : h.server.Live w) : h.isLocal w = true := by
  obtain ⟨v, found, here⟩ := live
  simp [isLocal, found, here]

theorem mem_walk : w ∈ h.walk u ↔ ∃ c ∈ h.server.chansOf u, w ∈ h.server.subscribed c := List.mem_flatMap

/-- The administrators that the client shares a channel with are met, each once. -/
theorem Kept.met (kept : h.Kept) : (h.forEachNeighbor u false).2.Nodup ∧
    (∀ w, w ∈ (h.forEachNeighbor u false).2 ↔
      w ≠ u ∧ h.admin w = true ∧ ∃ c ∈ h.server.chansOf u, w ∈ h.server.subscribed c) ∧
    (h.forEachNeighbor u false).1.sent.Past sentIds fun w => h.isLocal w = true := by
  obtain ⟨past, fresh⟩ := kept.past.next (by decide)
  have visited : (h.forEachNeighbor u false).2 =
      (((h.sent.next sentIds h.isLocal).set u).visit h.admin (h.walk u)).2 := rfl
  obtain ⟨nodup, mem⟩ :=
    Marks.visit_spec ((h.sent.next sentIds h.isLocal).set u) h.admin (h.walk u)
  rw [visited]
  refine ⟨nodup, fun w => ?_, past.set.visit⟩
  rw [mem, mem_walk, Marks.set_mark, Marks.set_current]
  constructor
  · rintro ⟨shared, admin, unmarked⟩
    refine ⟨?_, admin, shared⟩
    rintro rfl
    simp at unmarked
  · rintro ⟨other, admin, c, own, shared⟩
    have unmarked := fresh w (live_isLocal (kept.invariant.linked.live c w shared))
    exact ⟨⟨c, own, shared⟩, admin, by rwa [if_neg other]⟩

theorem isLocal_congr {h k : Hub} (same : k.server.quits = h.server.quits) (w : ℕ) : k.isLocal w = h.isLocal w := by
  rw [Bool.eq_iff_iff, isLocal_iff, isLocal_iff, same]

/-- A step of the server that disconnects nobody. -/
theorem Kept.server (kept : h.Kept) {s : Server} (invariant : Invariant s) (same : s.quits = h.server.quits) :
    Kept { h with server := s } where
  invariant := invariant
  past := kept.past.mono fun w here => (isLocal_congr (h := h) (k := { h with server := s }) same w) ▸ here
  nodup := kept.nodup
  gone p told := same ▸ kept.gone p told

theorem Kept.accept (kept : h.Kept) (invariant : Invariant h.accept.server) : h.accept.Kept := by
  have quits : h.accept.server.quits = h.server.quits ++ [false] := by simp [Hub.accept, Server.quits, User.fresh]
  have length : h.server.quits.length = h.server.users.length := List.length_map ..
  refine ⟨invariant, ⟨kept.past.bounded, fun w here => ?_⟩, kept.nodup, fun p told => ?_⟩
  · change Function.update h.sent.mark h.server.users.length 0 w ≤ h.sent.current
    rw [Function.update_apply]
    split
    · exact Nat.zero_le _
    · rename_i old
      refine kept.past.past w ?_
      rw [isLocal_iff, quits, List.getElem?_append] at here
      split at here
      · exact isLocal_iff.mpr here
      · have inside := (List.getElem?_eq_some_iff.mp here).1
        simp only [List.length_singleton] at inside
        omega
  · rw [quits, List.getElem?_append_left (List.getElem?_eq_some_iff.mp (kept.gone p told)).1]
    exact kept.gone p told

theorem Kept.disconnect (kept : h.Kept) (u : ℕ) : (h.disconnect u).Kept := by
  have quits : (h.disconnect u).server.quits = h.server.quits.modify u fun _ => true := quits_disconnect
  have later {w : ℕ} (here : (h.disconnect u).isLocal w = true) : h.isLocal w = true := by
    rw [isLocal_iff, quits, List.getElem?_modify] at here
    split at here
    · simp at here
    · simpa [isLocal_iff] using here
  have still {w : ℕ} (gone : h.server.quits[w]? = some true) : (h.disconnect u).server.quits[w]? = some true := by
    rw [quits, List.getElem?_modify, gone]
    split <;> rfl
  obtain ⟨nodup, mem, past⟩ := kept.met (u := u)
  by_cases leaves : (h.server.users[u]?.any fun u => !u.quitting && u.registered) = true
  · have told : (h.disconnect u).told = h.told ++ (h.forEachNeighbor u false).2.map (·, u) := by
      unfold Hub.disconnect
      rw [if_pos leaves]
      rfl
    have marks : (h.disconnect u).sent = (h.forEachNeighbor u false).1.sent := by
      unfold Hub.disconnect
      rw [if_pos leaves]
      rfl
    have here : h.server.quits[u]? = some false := by
      obtain ⟨v, found, registered⟩ := (Option.any_eq_true _ _).mp leaves
      unfold Server.quits
      rw [List.getElem?_map, found]
      simp_all
    refine ⟨kept.invariant.disconnect u, ?_, ?_, ?_⟩
    · rw [marks]
      exact past.mono fun w here => later here
    · rw [told]
      refine kept.nodup.append (nodup.map fun v w same => (Prod.mk.inj same).1) ?_
      rintro p old new
      obtain ⟨w, -, rfl⟩ := List.mem_map.mp new
      have gone := kept.gone _ old
      rw [here] at gone
      simp at gone
    · intro p among
      rw [told, List.mem_append] at among
      rcases among with old | new
      · exact still (kept.gone p old)
      · obtain ⟨w, -, rfl⟩ := List.mem_map.mp new
        rw [quits, List.getElem?_modify, here]
        simp
  · have same : h.disconnect u = { h with server := h.server.disconnect u } := by
      unfold Hub.disconnect
      rw [if_neg leaves]
    rw [same] at later still ⊢
    exact ⟨kept.invariant.disconnect u, kept.past.mono fun w here => later here, kept.nodup,
      fun p told => still (kept.gone p told)⟩

theorem Kept.next (kept : h.Kept) {e : HubEvent} (step : next hooks h e = some k) : k.Kept := by
  cases e with
  | rights i canAdmin => exact Option.some.inj step ▸ ⟨kept.invariant, kept.past, kept.nodup, kept.gone⟩
  | mute channel => exact Option.some.inj step ▸ ⟨kept.invariant, kept.past, kept.nodup, kept.gone⟩
  | unmute channel => exact Option.some.inj step ▸ ⟨kept.invariant, kept.past, kept.nodup, kept.gone⟩
  | channels e =>
    cases e with
    | accept => exact Option.some.inj step ▸ kept.accept (kept.invariant.next hooks (e := .accept) rfl)
    | disconnect i => exact Option.some.inj step ▸ kept.disconnect i
    | _ =>
      simp only [Hub.next, Option.map_eq_some_iff] at step
      obtain ⟨s, hn, rfl⟩ := step
      exact kept.server (kept.invariant.next hooks hn) (quits_next hn)

theorem reachable_kept (reach : (machine hooks).Reachable h) : h.Kept := by
  refine reach.invariant (fun h start => ?_) fun h e k kept _ step => kept.next step
  obtain ⟨server, sent, told, -⟩ := start
  refine ⟨.start hooks server, ?_, by simp [told], by simp [told]⟩
  rw [sent]
  exact ⟨by decide, fun _ _ => Nat.zero_le _⟩

end

/-- In every run, however often the numbers start again, a registered client that is disconnected is told to the
administrators with whom it shares a channel at that time and to nobody else, and nobody is ever told of it twice. -/
theorem exits_told_once (hooks : List Hook) {h : Hub} (reach : (machine hooks).Reachable h) : h.told.Nodup ∧
    ∀ u user, h.server.users[u]? = some user → user.quitting = false → ∀ w, (w, u) ∈ (h.disconnect u).told ↔
      user.registered = true ∧ w ≠ u ∧ h.admin w = true ∧ ∃ c ∈ h.server.chansOf u, w ∈ h.server.subscribed c := by
  have kept := reachable_kept reach
  refine ⟨kept.nodup, fun u user found here w => ?_⟩
  have untold : (w, u) ∉ h.told := fun told => by
    have gone := kept.gone _ told
    simp [Server.quits, found, here] at gone
  cases registered : user.registered with
  | false =>
    have same : (h.disconnect u).told = h.told := by simp [disconnect, found, registered]
    simp [same, untold]
  | true =>
    have same : (h.disconnect u).told = h.told ++ (h.forEachNeighbor u false).2.map (·, u) := by
      simp [disconnect, found, here, registered, dispatchQuit]
    rw [same, List.mem_append, or_iff_right untold]
    simpa using kept.met.2.1 w

/-- Of two clients on the channels of a third one that leaves, the administrator is told, once. -/
theorem exits_told_once_three : ∃ h, (machine []).Reachable h ∧ h.told = [(1, 0)] ∧ h.told.Nodup := by
  have start : (machine []).initial ⟨⟨.brld1459, true, false, [], [], []⟩, fun _ => false, [], ⟨fun _ => 0, 0⟩, []⟩ :=
    ⟨⟨rfl, rfl, rfl⟩, rfl, rfl, rfl⟩
  have h : ((machine []).exec (fun _ _ => True)
      ⟨⟨.brld1459, true, false, [], [], []⟩, fun _ => false, [], ⟨fun _ => 0, 0⟩, []⟩
      [.channels .accept, .channels .accept, .channels .accept, .channels (.ready 0 [lit "#a", lit "#b"]),
        .channels (.ready 1 [lit "#a", lit "#b"]), .channels (.ready 2 [lit "#B"]), .rights 1 true,
        .channels (.disconnect 0)]).any fun h => h.told = [(1, 0)] := by decide +kernel
  obtain ⟨h, reach, told⟩ := Machine.exec_holds h (.initial start)
  exact ⟨h, reach, told, (exits_told_once [] reach).1⟩

end Hub

end BerylDB.Channels
