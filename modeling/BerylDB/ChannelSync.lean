import BerylDB.Subscriptions

/-! # The sessions of a login

JOIN and PART repeat for the other sessions of a login what they do for the one that sends them, HOP comes back to where
it was, and PARTALL is for one session only. -/
namespace BerylDB.Channels
open Text Transition

/-- These sessions are subscribed to the same channels. -/
def Agree (s : Server) (sessions : List ℕ) : Prop :=
  ∀ u ∈ sessions, ∀ w ∈ sessions, ∀ c, c ∈ s.chansOf u ↔ c ∈ s.chansOf w

/-- The sessions of each login are subscribed to the same channels. -/
def Together (s : Server) : Prop := ∀ login, Agree s (s.findLogin login)

/-- The modules stop no join of a client with these rights. -/
def NoVeto (hooks : List Hook) (canExecute : Bool) : Prop := ∀ hook ∈ hooks,
  match hook with
  | .chanRestrict => canExecute = true
  | .chainJoin _ => True
  | .forward forwards => ∀ cname, forwards cname = none

/-- The session is the only one of its login that is found. -/
def Alone (s : Server) (i : ℕ) (login : Bytes) : Prop := i ∈ s.findLogin login → ∀ w ∈ s.findLogin login, w = i

/-- The channels that the modules join together with one. -/
def chained : List Hook → Bytes → List Bytes
  | [], _ => []
  | .chainJoin chain :: hooks, cname => (chain (cname.map toUpper)).toList ++ chained hooks cname
  | .chanRestrict :: hooks, cname => chained hooks cname
  | .forward _ :: hooks, cname => chained hooks cname

def hasName (charmap : CharMap) (names : List Bytes) (cname : Bytes) : Bool :=
  names.any fun name => equals charmap name cname

/-- The channels that are chained to those of a list that are new are among those that the session is in by then. -/
def ChainsKnown (charmap : CharMap) (hooks : List Hook) : (names : List Bytes) → List Bytes → Prop
  | _, [] => True
  | names, cname :: items =>
    if channelValidator cname ∧ hasName charmap names cname = false then
      (∀ target ∈ chained hooks cname, hasName charmap names (target.take 15) = true) ∧
        ChainsKnown charmap hooks (cname :: names) items
    else ChainsKnown charmap hooks names items

def ChainsKnown.decide (charmap : CharMap) (hooks : List Hook) :
    (names items : List Bytes) → Decidable (ChainsKnown charmap hooks names items)
  | _, [] => .isTrue trivial
  | names, cname :: items =>
    have := ChainsKnown.decide charmap hooks (cname :: names) items
    have := ChainsKnown.decide charmap hooks names items
    inferInstanceAs (Decidable (if channelValidator cname ∧ hasName charmap names cname = false then
      (∀ target ∈ chained hooks cname, hasName charmap names (target.take 15) = true) ∧
        ChainsKnown charmap hooks (cname :: names) items
      else ChainsKnown charmap hooks names items))

instance (charmap : CharMap) (hooks : List Hook) (names items : List Bytes) :
    Decidable (ChainsKnown charmap hooks names items) :=
  ChainsKnown.decide charmap hooks names items

/-- The names of the channels of a session. -/
def Server.namesOf (s : Server) (user : ℕ) : List Bytes :=
  (s.chansOf user).filterMap fun c => s.channels[c]?.map (·.name)

/-- A command about channels that a session sends. -/
def OfSession (i : ℕ) : Event → Prop
  | .join j _ _ => j = i
  | .part j _ => j = i
  | .partAll j => j = i
  | .hop j _ => j = i
  | _ => False

/-- What a command does for one session only. -/
def Synced (hooks : List Hook) (s : Server) (i : ℕ) (u : User) : Event → Prop
  | .join _ parameter extra => Alone s i u.login ∨
    ChainsKnown s.charmap hooks (s.namesOf i) (loopItems s.charmap parameter (!extra) false)
  | .partAll _ => Alone s i u.login ∨ u.chans = []
  | _ => True

/-! ## What the operations leave alone -/

def User.clear (u : User) : User := { u with chans := [] }

/-- All but the subscriptions, and channels that are new. -/
structure Same (s t : Server) : Prop where
  users : ∀ w : ℕ, t.users[w]?.map User.clear = s.users[w]?.map User.clear
  count : t.users.length = s.users.length
  chansync : t.chansync = s.chansync
  allowchans : t.allowchans = s.allowchans
  names : ∀ (c : ℕ) (name : Bytes), s.channels[c]?.map (·.name) = some name → t.channels[c]?.map (·.name) = some name

/-- Names are cut to 15 bytes. -/
def Short (s : Server) : Prop := ∀ p ∈ s.channelList, p.1.length ≤ 15

structure Standing (s : Server) : Prop where
  invariant : Invariant s
  short : Short s

/-- An operation that changes subscriptions, and does not touch anything else. -/
structure Carried (s t : Server) : Prop extends Onward s t, Same s t where
  short : Short t

/-- Sessions join channels of these names. -/
structure Joins (who : ℕ → Bytes → Prop) (s t : Server) : Prop extends Carried s t where
  chans : ∀ w d, d ∈ t.chansOf w ↔ d ∈ s.chansOf w ∨ ∃ name, who w name ∧ t.find (name.take 15) = some d
  found : ∀ w name, who w name → ∃ d, t.find (name.take 15) = some d

/-- Sessions leave these channels. -/
structure Drops (gone : ℕ → ℕ → Prop) (s t : Server) : Prop extends Carried s t where
  chans : ∀ w d, d ∈ t.chansOf w ↔ d ∈ s.chansOf w ∧ ¬ gone w d

/-- A session whose joins are not refused. -/
structure Server.May (s : Server) (u : ℕ) : Prop where
  live : s.Live u
  registered : s.users[u]?.any (·.registered) = true
  allowed : s.allowchans = true

section same
variable {s r t : Server} {w : ℕ} {v : User} {login : Bytes}

theorem Same.refl (s : Server) : Same s s := ⟨fun _ => rfl, rfl, rfl, rfl, fun _ _ h => h⟩

theorem Same.trans (h : Same s r) (h' : Same r t) : Same s t :=
  ⟨fun w => (h'.users w).trans (h.users w), h'.count.trans h.count, h'.chansync.trans h.chansync,
    h'.allowchans.trans h.allowchans, fun c name hc => h'.names c name (h.names c name hc)⟩

theorem Same.any (h : Same s t) {p : User → Bool} (blind : ∀ v, p v.clear = p v) :
    t.users[w]?.any p = s.users[w]?.any p := by
  have clear (o : Option User) : (o.map User.clear).any p = o.any p := by cases o <;> simp [blind]
  rw [← clear, h.users, clear]

theorem Same.findLogin (h : Same s t) : t.findLogin login = s.findLogin login := by
  unfold Server.findLogin
  rw [h.count]
  exact List.filter_congr fun i _ => h.any fun _ => rfl

theorem Carried.refl (st : Standing s) : Carried s s := ⟨.refl st.invariant, .refl s, st.short⟩

theorem Carried.trans (h : Carried s r) (h' : Carried r t) : Carried s t :=
  ⟨h.toOnward.trans h'.toOnward, h.toSame.trans h'.toSame, h'.short⟩

theorem Carried.standing (h : Carried s t) : Standing t := ⟨h.invariant, h.short⟩

theorem Carried.may (h : Carried s t) (may : s.May w) : t.May w :=
  ⟨(h.live w).mpr may.live, (h.any fun _ => rfl).trans may.registered, h.allowchans.trans may.allowed⟩

end same

section operations
variable {s r t : Server} {c u w : ℕ} {who who' : ℕ → Bytes → Prop} {cname : Bytes}

/-- A channel that a session is in is found by its name. -/
theorem Standing.find_iff (st : Standing s) (live : s.Live w) (inside : c ∈ s.chansOf w) : s.find cname = some c ↔
    ∃ name, s.channels[c]?.map (·.name) = some name ∧ name.map s.charmap.get = cname.map s.charmap.get := by
  have taken : s.subscribed c ≠ [] := List.ne_nil_of_mem ((st.invariant.linked.linked w live c).mp inside)
  obtain ⟨p, hp, rfl⟩ := (st.invariant.populated c).mpr taken
  rw [st.invariant.named.find_iff]
  constructor
  · rintro ⟨q, hq, same, at_c⟩
    exact ⟨q.1, at_c ▸ st.invariant.named.named q hq, same⟩
  · rintro ⟨name, named, same⟩
    obtain rfl := Option.some.inj ((st.invariant.named.named p hp).symm.trans named)
    exact ⟨p, hp, same, rfl⟩

/-- A channel that is found has a session in it. -/
theorem Standing.occupied (st : Standing s) (found : s.find cname = some c) : ∃ w, s.Live w ∧ c ∈ s.chansOf w := by
  obtain ⟨p, hp, -, rfl⟩ := st.invariant.named.find_iff.mp found
  obtain ⟨w, hw⟩ := List.exists_mem_of_ne_nil _ ((st.invariant.populated p.2).mp ⟨p, hp, rfl⟩)
  have live := st.invariant.linked.live p.2 w hw
  exact ⟨w, live, (st.invariant.linked.linked w live p.2).mpr hw⟩

theorem Standing.isSubscribed (st : Standing s) (live : s.Live u) : s.isSubscribed c u = true ↔ c ∈ s.chansOf u := by
  rw [st.invariant.linked.linked u live c, Server.isSubscribed, decide_eq_true_iff]

/-- A channel that sessions stay in keeps its name. -/
theorem Carried.find (h : Carried s t) (st : Standing s) {w' : ℕ} (live : s.Live w) (inside : c ∈ s.chansOf w)
    (live' : s.Live w') (inside' : c ∈ t.chansOf w') : t.find cname = some c ↔ s.find cname = some c := by
  rw [st.find_iff live inside, h.standing.find_iff ((h.live w').mpr live') inside', h.charmap]
  have taken : s.subscribed c ≠ [] := List.ne_nil_of_mem ((st.invariant.linked.linked w live c).mp inside)
  obtain ⟨p, hp, rfl⟩ := (st.invariant.populated c).mpr taken
  rw [st.invariant.named.named p hp, h.names p.2 p.1 (st.invariant.named.named p hp)]

/-- What is found is found as long as nobody leaves. -/
theorem Carried.found (h : Carried s t) (st : Standing s) (more : ∀ w d, d ∈ s.chansOf w → d ∈ t.chansOf w)
    (found : s.find cname = some c) : t.find cname = some c := by
  obtain ⟨w, live, inside⟩ := st.occupied found
  exact (h.find st live inside live (more w c inside)).mpr found

/-! ## Joins -/

theorem Joins.refl (st : Standing s) : Joins (fun _ _ => False) s s := ⟨.refl st, by simp, by simp⟩

theorem Joins.find (h : Joins who s t) (st : Standing s) (found : s.find cname = some c) : t.find cname = some c :=
  h.toCarried.found st (fun w d inside => (h.chans w d).mpr (.inl inside)) found

theorem Joins.congr (h : Joins who s t) (same : ∀ w name, who w name ↔ who' w name) : Joins who' s t := by
  obtain rfl : who = who' := funext fun w => funext fun name => propext (same w name)
  exact h

theorem Joins.trans (h : Joins who s r) (h' : Joins who' r t) : Joins (fun w name => who w name ∨ who' w name) s t := by
  have later {w : ℕ} {name : Bytes} (joined : who w name) (d : ℕ) :
      r.find (name.take 15) = some d ↔ t.find (name.take 15) = some d := by
    obtain ⟨e, he⟩ := h.found w name joined
    rw [he, h'.find h.standing he]
  refine ⟨h.toCarried.trans h'.toCarried, fun w d => ?_, fun w name joined => ?_⟩
  · rw [h'.chans, h.chans, or_assoc]
    refine or_congr_right ⟨?_, ?_⟩
    · rintro (⟨name, joined, found⟩ | ⟨name, joined, found⟩)
      · exact ⟨name, .inl joined, (later joined d).mp found⟩
      · exact ⟨name, .inr joined, found⟩
    · rintro ⟨name, joined | joined, found⟩
      · exact .inl ⟨name, joined, (later joined d).mpr found⟩
      · exact .inr ⟨name, joined, found⟩
  · rcases joined with joined | joined
    · obtain ⟨d, found⟩ := h.found w name joined
      exact ⟨d, (later joined d).mp found⟩
    · exact h'.found w name joined

theorem executeJoin_same (hj : s.executeJoin c u = some t) : Same s t ∧ t.channelList = s.channelList := by
  obtain ⟨-, rfl⟩ := executeJoin_eq hj
  refine ⟨⟨fun w => ?_, List.length_modify .., rfl, rfl, fun d name hd => ?_⟩, rfl⟩
  · dsimp only
    rw [List.getElem?_modify]
    cases s.users[w]? with
    | none => rfl
    | some v => by_cases same : u = w <;> simp [same, User.clear]
  · rw [← hd]
    exact names_modify (f := fun chan => { chan with subscribedlist := chan.subscribedlist ++ [u] }) (fun _ => rfl) rfl d

theorem executeJoin_chans (live : s.Live u) (hj : s.executeJoin c u = some t) (w d : ℕ) :
    d ∈ t.chansOf w ↔ d ∈ s.chansOf w ∨ w = u ∧ d = c := by
  obtain ⟨-, ht⟩ := executeJoin_eq hj
  rw [chansOf_modify (t := t) (f := (c :: ·)) (.inl live.lt) (by rw [ht])]
  split
  · rename_i same
    rw [List.mem_cons, or_comm, and_iff_right same]
  · rename_i other
    exact (or_iff_left fun h => other h.1).symm

theorem executeJoin_short (short : Short s) (hj : s.executeJoin c u = some t) : Short t := by
  rw [Short, (executeJoin_same hj).2]
  exact short

/-- A channel that exists is entered. -/
theorem Standing.enter (st : Standing s) (live : s.Live u) (found : s.find (cname.take 15) = some c)
    (hj : s.executeJoin c u = some t) :
    Joins (fun w name => w = u ∧ name = cname) s t ∧ t.find (cname.take 15) = some c ∧ c ∉ s.chansOf u := by
  have same := (executeJoin_same hj).1
  have chans := executeJoin_chans live hj
  have carried : Carried s t := ⟨(st.invariant.enter live found hj).toOnward, same, executeJoin_short st.short hj⟩
  have found' := carried.found st (fun w d inside => (chans w d).mpr (.inl inside)) found
  refine ⟨⟨carried, fun w d => ?_, ?_⟩, found', fun listed => ?_⟩
  · rw [chans]
    simp [found', eq_comm]
  · rintro w name ⟨-, rfl⟩
    exact ⟨c, found'⟩
  · exact (executeJoin_eq hj).1 ((st.invariant.linked.linked u live c).mp listed)

theorem newChannel_eq (hn : s.newChannel cname = some (r, c)) : s.find cname = none ∧ c = s.channels.length ∧
    r = { s with
      channels := s.channels ++ [⟨cname, []⟩]
      channelList := s.channelList ++ [(cname, s.channels.length)] } := by
  unfold Server.newChannel at hn
  split_ifs at hn with found
  obtain ⟨rfl, rfl⟩ := Prod.mk.inj (Option.some.inj hn)
  exact ⟨by simpa using found, rfl, rfl⟩

theorem newChannel_same (hn : s.newChannel cname = some (r, c)) : Same s r := by
  obtain ⟨-, -, rfl⟩ := newChannel_eq hn
  refine ⟨fun _ => rfl, rfl, rfl, rfl, fun c name hc => ?_⟩
  obtain ⟨channel, hchannel, -⟩ := Option.map_eq_some_iff.mp hc
  dsimp only
  rwa [List.getElem?_append_left (List.getElem?_eq_some_iff.mp hchannel).1]

theorem newChannel_short (short : Short s) (cut : cname.length ≤ 15) (hn : s.newChannel cname = some (r, c)) :
    Short r := by
  obtain ⟨-, -, rfl⟩ := newChannel_eq hn
  exact List.forall_mem_append.mpr ⟨short, by simpa using cut⟩

/-- A channel that is new is made and entered. -/
theorem Standing.create (st : Standing s) (live : s.Live u) (hn : s.newChannel (cname.take 15) = some (r, c))
    (hj : r.executeJoin c u = some t) :
    Joins (fun w name => w = u ∧ name = cname) s t ∧ t.find (cname.take 15) = some c ∧ c ∉ s.chansOf u := by
  have joined := st.invariant.create live hn hj
  obtain ⟨same, list⟩ := executeJoin_same hj
  obtain ⟨-, rfl, made⟩ := newChannel_eq hn
  have begun := (st.invariant.linked.newChannel hn).2.2
  have listed : t.channelList = s.channelList ++ [(cname.take 15, s.channels.length)] := by rw [list, made]
  have short : Short t := executeJoin_short (newChannel_short st.short (by simp) hn) hj
  have found : t.find (cname.take 15) = some s.channels.length := by
    refine joined.invariant.named.find_iff.mpr ⟨(cname.take 15, s.channels.length), ?_, rfl, rfl⟩
    rw [listed]
    simp
  refine ⟨⟨⟨joined.toOnward, (newChannel_same hn).trans same, short⟩, fun w d => ?_, ?_⟩, found, fun inside => ?_⟩
  · have before : r.chansOf w = s.chansOf w := by rw [made]; rfl
    rw [executeJoin_chans ((begun u).mpr live) hj, before]
    simp [found, eq_comm]
  · rintro w name ⟨-, rfl⟩
    exact ⟨_, found⟩
  · have subscribed := (st.invariant.linked.linked u live _).mp inside
    simp [Server.subscribed] at subscribed

/-- `JoinUser`, whose modules let the session join more before it joins the channel. -/
theorem Standing.joinWith (st : Standing s) (may : s.May u) {preJoin : Server → Bool → Bytes → Option (Server × Bool)}
    (pre : ∀ found r stop, preJoin s found (cname.take 15) = some (r, stop) → stop = false ∧ Joins who s r)
    (hj : s.joinWith preJoin u cname = some t) :
    t = s ∧ (∃ c ∈ s.chansOf u, s.find (cname.take 15) = some c) ∨
      ∃ r c, Joins who s r ∧ Joins (fun w name => w = u ∧ name = cname) r t ∧ t.find (cname.take 15) = some c ∧
        c ∉ r.chansOf u := by
  unfold Server.joinWith at hj
  dsimp only at hj
  rw [may.registered, may.allowed] at hj
  cases found : s.find (cname.take 15) with
  | none =>
    simp only [found, Bool.not_true, Bool.false_eq_true, if_false] at hj
    obtain ⟨⟨r, stop⟩, hr, hj⟩ := Option.bind_eq_some_iff.mp hj
    obtain ⟨rfl, joins⟩ := pre _ _ _ hr
    obtain ⟨⟨q, c⟩, hq, hj⟩ := Option.bind_eq_some_iff.mp hj
    obtain ⟨joins', found', new⟩ := joins.standing.create (joins.may may).live hq hj
    exact .inr ⟨r, c, joins, joins', found', new⟩
  | some c =>
    simp only [found, Bool.not_true, Bool.false_eq_true, if_false] at hj
    split_ifs at hj with inside
    · exact .inl ⟨(Option.some.inj hj).symm, c, (st.isSubscribed may.live).mp inside, rfl⟩
    · obtain ⟨⟨r, stop⟩, hr, hj⟩ := Option.bind_eq_some_iff.mp hj
      obtain ⟨rfl, joins⟩ := pre _ _ _ hr
      obtain ⟨joins', found', new⟩ := joins.standing.enter (joins.may may).live (joins.find st found) hj
      exact .inr ⟨r, c, joins, joins', found', new⟩

theorem Standing.joinOverride (st : Standing s) (may : s.May u) (hj : s.joinOverride u cname = some t) :
    Joins (fun w name => w = u ∧ name = cname) s t := by
  have pre : ∀ (found : Bool) r stop, some (s, false) = some (r, stop) → stop = false ∧ Joins (fun _ _ => False) s r := by
    intro found r stop hr
    obtain ⟨rfl, rfl⟩ := Prod.mk.inj (Option.some.inj hr)
    exact ⟨rfl, .refl st⟩
  rcases st.joinWith may pre hj with ⟨rfl, c, inside, found⟩ | ⟨r, c, joins, joins', -, -⟩
  · refine ⟨.refl st, fun w d => (or_iff_left_of_imp ?_).symm, ?_⟩
    · rintro ⟨name, ⟨rfl, rfl⟩, found'⟩
      rwa [← Option.some.inj (found.symm.trans found')]
    · rintro w name ⟨-, rfl⟩
      exact ⟨c, found⟩
  · exact (joins.trans joins').congr fun w name => by simp

/-- The modules join the session to the channels that are chained. -/
theorem preJoin_joins (hooks : List Hook) (st : Standing s) (may : s.May u) {canExecute : Bool}
    (rights : s.users[u]?.any (·.canExecute) = canExecute) (permits : NoVeto hooks canExecute) {found stop : Bool}
    (hj : Server.preJoin u hooks s found cname = some (t, stop)) :
    stop = false ∧ Joins (fun w name => w = u ∧ name ∈ chained hooks cname) s t := by
  induction hooks generalizing s with
  | nil =>
    obtain ⟨rfl, rfl⟩ := Prod.mk.inj (Option.some.inj hj)
    exact ⟨rfl, (Joins.refl st).congr fun w name => by simp [chained]⟩
  | cons hook hooks ih =>
    have permits' : NoVeto hooks canExecute := fun hook' mem => permits hook' (List.mem_cons_of_mem _ mem)
    have permit := permits hook List.mem_cons_self
    cases hook with
    | chanRestrict =>
      simp only at permit
      simp only [Server.preJoin, rights, permit, Bool.not_true, Bool.and_false, Bool.false_eq_true, if_false] at hj
      exact ih st may rights permits' hj
    | chainJoin chain =>
      simp only [Server.preJoin] at hj
      cases target : chain (cname.map toUpper) with
      | none =>
        simp only [target] at hj
        have joins := ih st may rights permits' hj
        exact ⟨joins.1, joins.2.congr fun w name => by simp [chained, target]⟩
      | some name =>
        simp only [target] at hj
        obtain ⟨r, hr, hj⟩ := Option.bind_eq_some_iff.mp hj
        have first := st.joinOverride may hr
        have rest := ih first.standing (first.may may) ((first.any fun _ => rfl).trans rights) permits' hj
        refine ⟨rest.1, (first.trans rest.2).congr fun w name => ?_⟩
        simp only [chained, target, Option.toList_some, List.singleton_append, List.mem_cons]
        exact and_or_left.symm
    | forward forwards =>
      simp only at permit
      simp only [Server.preJoin, permit] at hj
      exact ih st may rights permits' hj

theorem findLogin_may {login : Bytes} (st : Standing s) (allowed : s.allowchans = true) (hw : w ∈ s.findLogin login) :
    s.May w := by
  refine ⟨findLogin_live st.invariant.logins hw, ?_, allowed⟩
  simp only [Server.findLogin, List.mem_filter, Option.any_eq_true, Bool.and_eq_true] at hw ⊢
  obtain ⟨-, v, hv, -, registered⟩ := hw
  exact ⟨v, hv, registered⟩

/-- The sessions of a list join in turn, but for the one that is skipped. -/
theorem Standing.joinEach {skip : ℕ} {sessions : List ℕ} (st : Standing s) (may : ∀ w ∈ sessions, s.May w)
    (run : sessions.foldlM (fun s user => if user = skip then some s else s.joinOverride user cname) s = some t) :
    Joins (fun w name => (w ∈ sessions ∧ w ≠ skip) ∧ name = cname) s t := by
  induction sessions generalizing s with
  | nil =>
    obtain rfl := Option.some.inj run
    exact (Joins.refl st).congr fun w name => by simp
  | cons u sessions ih =>
    obtain ⟨r, hr, run⟩ := Option.bind_eq_some_iff.mp run
    have first : Joins (fun w name => (w = u ∧ w ≠ skip) ∧ name = cname) s r := by
      dsimp only at hr
      split_ifs at hr with skipped
      · obtain rfl := Option.some.inj hr
        exact (Joins.refl st).congr fun w name => by simp [skipped]
      · refine (st.joinOverride (may u List.mem_cons_self) hr).congr fun w name => and_congr_left fun _ => ?_
        exact (and_iff_left_of_imp fun same => same ▸ skipped).symm
    have rest := ih first.standing (fun w hw => first.may (may w (List.mem_cons_of_mem _ hw))) run
    refine (first.trans rest).congr fun w name => ?_
    rw [List.mem_cons, or_and_right, or_and_right]

end operations

/-! ## One channel of JOIN -/

/-- Who sends a command, and under which settings. -/
structure Setting (hooks : List Hook) (s : Server) (i : ℕ) : Prop extends Standing s, Server.May s i where
  permits : NoVeto hooks (s.users[i]?.any (·.canExecute))
  sync : s.chansync = true

/-- What a channel that is new to the sender leads to: the sender is in the chained channels and in that one, and the
others of its login are in that one. -/
structure Entered (hooks : List Hook) (s t : Server) (i c : ℕ) (login cname : Bytes) : Prop extends Carried s t where
  find : t.find cname = some c
  absent : c ∉ s.chansOf i
  chain : ∀ target ∈ chained hooks cname, ∃ d, d ≠ c ∧ t.find (target.take 15) = some d
  older : ∀ name d, s.find name = some d → t.find name = some d
  sender : ∀ d, d ∈ t.chansOf i ↔
    d ∈ s.chansOf i ∨ d = c ∨ ∃ target ∈ chained hooks cname, t.find (target.take 15) = some d
  members : ∀ w ∈ s.findLogin login, w ≠ i → ∀ d, d ∈ t.chansOf w ↔ d ∈ s.chansOf w ∨ d = c
  others : ∀ w, w ∉ s.findLogin login → w ≠ i → ∀ d, d ∈ t.chansOf w ↔ d ∈ s.chansOf w

section items
variable {hooks : List Hook} {s t : Server} {i w : ℕ} {login cname : Bytes}

theorem Carried.setting (h : Carried s t) (set : Setting hooks s i) : Setting hooks t i :=
  have rights : t.users[i]?.any (·.canExecute) = s.users[i]?.any (·.canExecute) := h.any fun _ => rfl
  ⟨h.standing, h.may set.toMay, rights ▸ set.permits, h.chansync.trans set.sync⟩

theorem hasName_iff (st : Standing s) (live : s.Live i) :
    hasName s.charmap (s.namesOf i) cname = true ↔ ∃ c ∈ s.chansOf i, s.find cname = some c := by
  simp only [hasName, Server.namesOf, List.any_eq_true, List.mem_filterMap, equals, beq_iff_eq]
  constructor
  · rintro ⟨name, ⟨c, inside, named⟩, same⟩
    exact ⟨c, inside, (st.find_iff live inside).mpr ⟨name, named, same⟩⟩
  · rintro ⟨c, inside, found⟩
    obtain ⟨name, named, same⟩ := (st.find_iff live inside).mp found
    exact ⟨name, ⟨c, inside, named⟩, same⟩

theorem channelValidator_take (valid : channelValidator cname = true) : cname.take 15 = cname := by
  refine List.take_of_length_le ?_
  unfold channelValidator at valid
  split at valid
  · simp only [Bool.and_eq_true, decide_eq_true_iff] at valid
    simp only [List.length_cons]
    omega
  · simp at valid

/-- A name that is not valid, or of a channel that the sender is in, changes nothing. -/
theorem join_idle (set : Setting hooks s i) (idle : ¬(channelValidator cname ∧ hasName s.charmap (s.namesOf i) cname = false))
    (hj : join hooks s i login cname = some t) : t = s := by
  unfold join at hj
  split_ifs at hj with invalid inside
  · exact (Option.some.inj hj).symm
  · exact (Option.some.inj hj).symm
  · refine absurd ⟨by simpa using invalid, ?_⟩ idle
    refine eq_false_of_ne_true fun known => inside ?_
    obtain ⟨c, hc, found⟩ := (hasName_iff set.toStanding set.live).mp known
    simp [found, (set.isSubscribed set.live).mpr hc]

theorem join_entered (set : Setting hooks s i) (valid : channelValidator cname = true)
    (new : hasName s.charmap (s.namesOf i) cname = false) (hj : join hooks s i login cname = some t) :
    ∃ c, Entered hooks s t i c login cname := by
  have cut := channelValidator_take valid
  unfold join at hj
  split_ifs at hj with invalid inside
  · simp [valid] at invalid
  · obtain ⟨c, found, subscribed⟩ := (Option.any_eq_true _ _).mp inside
    have known := (hasName_iff set.toStanding set.live).mpr ⟨c, (set.isSubscribed set.live).mp subscribed, found⟩
    simp [new] at known
  · obtain ⟨q, hq, hj⟩ := Option.bind_eq_some_iff.mp hj
    have pre : ∀ found r stop, Server.preJoin i hooks s found (cname.take 15) = some (r, stop) →
        stop = false ∧ Joins (fun w name => w = i ∧ name ∈ chained hooks cname) s r := by
      intro found r stop hr
      rw [cut] at hr
      exact preJoin_joins hooks set.toStanding set.toMay rfl set.permits hr
    rcases set.joinWith set.toMay pre hq with ⟨-, c, hc, found⟩ | ⟨r, c, first, second, found, absent⟩
    · rw [cut] at found
      exact absurd ((hasName_iff set.toStanding set.live).mpr ⟨c, hc, found⟩) (by simp [new])
    · have own := first.trans second
      rw [if_pos (own.chansync.trans set.sync)] at hj
      have third := own.standing.joinEach (fun w hw => findLogin_may own.standing (own.may set.toMay).allowed hw) hj
      rw [own.findLogin] at third
      have all := own.trans third
      have found' := third.find own.standing found
      have chain (target : Bytes) (chain : target ∈ chained hooks cname) :
          ∃ d, d ∈ r.chansOf i ∧ t.find (target.take 15) = some d := by
        obtain ⟨d, hd⟩ := first.found i target ⟨rfl, chain⟩
        have inside := (first.chans i d).mpr (.inr ⟨target, ⟨rfl, chain⟩, hd⟩)
        exact ⟨d, inside, third.find own.standing (second.find first.standing hd)⟩
      refine ⟨c, all.toCarried, cut ▸ found', fun inside => ?_, fun target hit => ?_, fun name d => all.find set.toStanding,
        fun d => ?_, fun w hw other d => ?_, fun w hw other d => ?_⟩
      · exact absent ((first.chans i c).mpr (.inl inside))
      · obtain ⟨d, inside, found⟩ := chain target hit
        exact ⟨d, fun same => absent (same ▸ inside), found⟩
      · rw [all.chans]
        simp [or_and_right, exists_or, found', eq_comm, or_comm]
      · rw [all.chans]
        simp [hw, other, found', eq_comm]
      · rw [all.chans]
        simp [hw, other]

theorem join_step (set : Setting hooks s i) (hj : join hooks s i login cname = some t) :
    t = s ∨ ∃ c, Entered hooks s t i c login cname := by
  by_cases new : channelValidator cname ∧ hasName s.charmap (s.namesOf i) cname = false
  · exact .inr (join_entered set new.1 new.2 hj)
  · exact .inl (join_idle set new hj)

/-! ## The list of JOIN -/

variable {c : ℕ}

/-- The session is in a channel that the other one is not in. -/
def Ahead (s : Server) (i w : ℕ) : Prop := ∃ d ∈ s.chansOf i, d ∉ s.chansOf w

theorem Ahead.disagree {sessions : List ℕ} (h : Ahead s i w) (hi : i ∈ sessions) (hw : w ∈ sessions) :
    ¬ Agree s sessions := by
  obtain ⟨d, inside, outside⟩ := h
  exact fun agree => outside ((agree i hi w hw d).mp inside)

/-- Sessions that join the same channel still agree. -/
theorem Agree.joined {sessions : List ℕ} (h : Agree s sessions)
    (same : ∀ w ∈ sessions, ∀ d, d ∈ t.chansOf w ↔ d ∈ s.chansOf w ∨ d = c) : Agree t sessions := by
  intro u hu w hw d
  rw [same u hu, same w hw, h u hu w hw]

theorem Standing.find_same (st : Standing s) (found : s.find cname = some c) (name : Bytes) :
    s.find name = some c ↔ equals s.charmap cname name = true := by
  obtain ⟨w, live, inside⟩ := st.occupied found
  obtain ⟨bears, named, same⟩ := (st.find_iff live inside).mp found
  rw [st.find_iff live inside, named, equals, beq_iff_eq, ← same]
  simp

theorem Entered.chained_known (h : Entered hooks s t i c login cname) (st : Standing s) (live : s.Live i)
    (known : ∀ target ∈ chained hooks cname, hasName s.charmap (s.namesOf i) (target.take 15) = true) (d : ℕ) :
    d ∈ t.chansOf i ↔ d ∈ s.chansOf i ∨ d = c := by
  rw [h.sender, ← or_assoc]
  refine or_iff_left_of_imp ?_
  rintro ⟨target, hit, found⟩
  obtain ⟨e, inside, older⟩ := (hasName_iff st live).mp (known target hit)
  exact .inl (Option.some.inj ((h.older _ e older).symm.trans found) ▸ inside)

theorem Entered.knows (h : Entered hooks s t i c login cname) (st : Standing s) (live : s.Live i)
    (known : ∀ target ∈ chained hooks cname, hasName s.charmap (s.namesOf i) (target.take 15) = true) (name : Bytes) :
    hasName s.charmap (t.namesOf i) name = hasName s.charmap (cname :: s.namesOf i) name := by
  have sender := h.chained_known st live known
  rw [← h.charmap, Bool.eq_iff_iff, hasName_iff h.standing ((h.live i).mpr live), h.charmap]
  have cons : hasName s.charmap (cname :: s.namesOf i) name = true ↔
      equals s.charmap cname name = true ∨ hasName s.charmap (s.namesOf i) name = true := by simp [hasName]
  rw [cons, hasName_iff st live, ← h.charmap, ← h.standing.find_same h.find]
  constructor
  · rintro ⟨d, inside, found⟩
    rcases (sender d).mp inside with old | rfl
    · exact .inr ⟨d, old, (h.toCarried.find st live old live inside).mp found⟩
    · exact .inl found
  · rintro (found | ⟨d, inside, found⟩)
    · exact ⟨c, (sender c).mpr (.inr rfl), found⟩
    · exact ⟨d, (sender d).mpr (.inl inside), h.older name d found⟩

theorem Entered.agree (h : Entered hooks s t i c login cname) (st : Standing s) (live : s.Live i)
    (known : ∀ target ∈ chained hooks cname, hasName s.charmap (s.namesOf i) (target.take 15) = true)
    (agree : Agree s (s.findLogin login)) : Agree t (s.findLogin login) := by
  refine agree.joined (c := c) fun w hw d => ?_
  by_cases self : w = i
  · exact self ▸ h.chained_known st live known d
  · exact h.members w hw self d

/-- A chained channel that is new to the sender is not joined by the others of its login. -/
theorem Entered.ahead_of_unknown (h : Entered hooks s t i c login cname) (st : Standing s) (live : s.Live i)
    (unknown : ¬ ∀ target ∈ chained hooks cname, hasName s.charmap (s.namesOf i) (target.take 15) = true)
    (agree : Agree s (s.findLogin login)) (hi : i ∈ s.findLogin login) (hw : w ∈ s.findLogin login) (other : w ≠ i) :
    Ahead t i w := by
  push Not at unknown
  obtain ⟨target, hit, new⟩ := unknown
  obtain ⟨d, hd, found⟩ := h.chain target hit
  have inside := (h.sender d).mpr (.inr (.inr ⟨target, hit, found⟩))
  refine ⟨d, inside, fun both => ?_⟩
  rcases (h.members w hw other d).mp both with old | same
  · have older := (agree w hw i hi d).mp old
    exact new ((hasName_iff st live).mpr ⟨d, older, (h.toCarried.find st live older live inside).mp found⟩)
  · exact hd same

theorem Entered.ahead (h : Entered hooks s t i c login cname) (hw : w ∈ s.findLogin login) (other : w ≠ i)
    (ahead : Ahead s i w) : Ahead t i w := by
  obtain ⟨d, inside, outside⟩ := ahead
  refine ⟨d, (h.sender d).mpr (.inl inside), fun both => ?_⟩
  rcases (h.members w hw other d).mp both with old | rfl
  · exact outside old
  · exact h.absent inside

theorem foldlM_keeps {σ α : Type} {P : σ → Prop} {f : σ → α → Option σ} (keeps : ∀ s a t, P s → f s a = some t → P t)
    (as : List α) {s t : σ} (start : P s) (run : as.foldlM f s = some t) : P t := by
  induction as generalizing s with
  | nil => exact Option.some.inj run ▸ start
  | cons a as ih =>
    obtain ⟨r, hr, run⟩ := Option.bind_eq_some_iff.mp run
    exact ih (keeps s a r start hr) run

/-- What each channel that is new to the sender keeps. -/
theorem Setting.joins_keep {P : Server → Prop} (set : Setting hooks s i)
    (keeps : ∀ r q c name, Setting hooks r i → r.findLogin login = s.findLogin login →
      Entered hooks r q i c login name → P r → P q) (items : List Bytes) (start : P s)
    (run : items.foldlM (fun s channel => join hooks s i login channel) s = some t) : P t := by
  suffices all : Setting hooks t i ∧ t.findLogin login = s.findLogin login ∧ P t from all.2.2
  refine foldlM_keeps (P := fun r => Setting hooks r i ∧ r.findLogin login = s.findLogin login ∧ P r)
    (fun r name q kept hj => ?_) items ⟨set, rfl, start⟩ run
  obtain ⟨set, members, kept⟩ := kept
  rcases join_step set hj with rfl | ⟨c, entered⟩
  · exact ⟨set, members, kept⟩
  · exact ⟨entered.setting set, entered.findLogin.trans members, keeps r q c name set members entered kept⟩

variable {items : List Bytes}

theorem joins_carried (set : Setting hooks s i)
    (run : items.foldlM (fun s channel => join hooks s i login channel) s = some t) : Carried s t :=
  set.joins_keep (fun _ _ _ _ _ _ entered kept => kept.trans entered.toCarried) items (.refl set.toStanding) run

theorem joins_others (set : Setting hooks s i)
    (run : items.foldlM (fun s channel => join hooks s i login channel) s = some t) (hw : w ∉ s.findLogin login)
    (other : w ≠ i) (d : ℕ) : d ∈ t.chansOf w ↔ d ∈ s.chansOf w := by
  refine set.joins_keep (P := fun r => d ∈ r.chansOf w ↔ d ∈ s.chansOf w) (fun r q c name _ same entered kept => ?_) items
    .rfl run
  exact (entered.others w (same ▸ hw) other d).trans kept

/-- A sender that is not among the sessions of the login joins them all. -/
theorem joins_outside (set : Setting hooks s i)
    (run : items.foldlM (fun s channel => join hooks s i login channel) s = some t) (outside : i ∉ s.findLogin login)
    (agree : Agree s (s.findLogin login)) : Agree t (s.findLogin login) := by
  refine set.joins_keep (P := fun r => Agree r (s.findLogin login)) (fun r q c name _ same entered kept => ?_) items
    agree run
  refine kept.joined (c := c) fun w hw d => entered.members w (same.symm ▸ hw) ?_ d
  rintro rfl
  exact outside hw

/-- The sessions agree behind the list just when every chained channel is one that the sender is in by then. -/
theorem joins_inside (set : Setting hooks s i) (names : List Bytes)
    (known : ∀ name, hasName s.charmap (s.namesOf i) name = hasName s.charmap names name)
    (run : items.foldlM (fun s channel => join hooks s i login channel) s = some t) (hi : i ∈ s.findLogin login)
    (hw : w ∈ s.findLogin login) (other : w ≠ i) (agree : Agree s (s.findLogin login)) :
    Agree t (s.findLogin login) ↔ ChainsKnown s.charmap hooks names items := by
  induction items generalizing s names with
  | nil =>
    obtain rfl := Option.some.inj run
    exact iff_of_true agree trivial
  | cons cname items ih =>
    obtain ⟨r, hr, later⟩ := Option.bind_eq_some_iff.mp run
    rw [ChainsKnown, ← known]
    by_cases new : channelValidator cname ∧ hasName s.charmap (s.namesOf i) cname = false
    · rw [if_pos new]
      obtain ⟨c, entered⟩ := join_entered set new.1 new.2 hr
      have same : r.findLogin login = s.findLogin login := entered.findLogin
      by_cases chains : ∀ target ∈ chained hooks cname, hasName s.charmap (s.namesOf i) (target.take 15) = true
      · have names' (name : Bytes) : hasName s.charmap (r.namesOf i) name = hasName s.charmap (cname :: names) name := by
          rw [entered.knows set.toStanding set.live chains]
          simp only [hasName, List.any_cons] at known ⊢
          rw [known]
        have rest := ih (entered.setting set) (cname :: names) (entered.charmap ▸ names') later (same ▸ hi) (same ▸ hw)
          (same ▸ entered.agree set.toStanding set.live chains agree)
        rw [same] at rest
        rw [rest, entered.charmap]
        exact (and_iff_right fun target hit => (known _).symm.trans (chains target hit)).symm
      · have ahead := entered.ahead_of_unknown set.toStanding set.live chains agree hi hw other
        have still : Ahead t i w := (entered.setting set).joins_keep
          (fun q q' c name _ same' entered => entered.ahead (same'.trans same ▸ hw) other) items ahead later
        refine iff_of_false (still.disagree hi hw) fun all => chains fun target hit => ?_
        exact (known _).trans (all.1 target hit)
    · rw [if_neg new]
      obtain rfl := join_idle set new hr
      exact ih set names known later hi hw agree

end items

/-! ## Parts -/

section parts
variable {s r t : Server} {c i u w : ℕ} {gone gone' : ℕ → ℕ → Prop} {cname login : Bytes}

theorem Drops.congr (h : Drops gone s t) (same : ∀ w d, gone w d ↔ gone' w d) : Drops gone' s t :=
  ⟨h.toCarried, fun w d => by rw [h.chans, same]⟩

theorem Drops.trans (h : Drops gone s r) (h' : Drops gone' r t) : Drops (fun w d => gone w d ∨ gone' w d) s t :=
  ⟨h.toCarried.trans h'.toCarried, fun w d => by rw [h'.chans, h.chans, not_or, and_assoc]⟩

theorem Drops.refl (st : Standing s) : Drops (fun _ _ => False) s s := ⟨.refl st, by simp⟩

theorem Short.sublist (h : Short s) (list : t.channelList.Sublist s.channelList) : Short t :=
  fun p hp => h p (list.subset hp)

theorem checkRemoval_same (s : Server) (c : ℕ) : Same s (s.checkRemoval c) := by
  unfold Server.checkRemoval
  split
  · exact .refl s
  · split_ifs
    · exact .refl s
    · exact .refl s
    · exact ⟨fun _ => rfl, rfl, rfl, rfl, fun _ _ h => h⟩

/-- The parting of a session from a channel, before the channel is removed. -/
def Server.parted (s : Server) (c u : ℕ) : Server :=
  { s with
    channels := s.channels.modify c fun chan => { chan with subscribedlist := chan.subscribedlist.erase u }
    users := s.users.modify u fun v => { v with chans := v.chans.erase c } }

theorem parted_same (s : Server) (c u : ℕ) : Same s (s.parted c u) := by
  refine ⟨fun w => ?_, List.length_modify .., rfl, rfl, fun d name hd => ?_⟩
  · rw [Server.parted, List.getElem?_modify]
    cases s.users[w]? with
    | none => rfl
    | some v => by_cases same : u = w <;> simp [same, User.clear]
  · rw [← hd]
    exact names_modify (f := fun chan => { chan with subscribedlist := chan.subscribedlist.erase u }) (fun _ => rfl) rfl d

theorem partUser_eq (inside : s.isSubscribed c u = true) : s.partUser c u = ((s.parted c u).checkRemoval c, true) := by
  unfold Server.partUser Server.deleteUser
  rw [if_pos inside]
  exact congrArg (·, true) (if_pos inside)

theorem Standing.partUser (st : Standing s) (live : s.Live u) :
    Drops (fun w d => w = u ∧ d = c) s (s.partUser c u).1 := by
  by_cases inside : s.isSubscribed c u = true
  · obtain ⟨-, users, list⟩ := checkRemoval_keeps (s.parted c u) c
    have chans := chansOf_modify (s := s) (f := (List.erase · c)) (.inr rfl) users
    have onward := st.invariant.partUser c u
    rw [partUser_eq inside] at onward ⊢
    refine ⟨⟨onward, (parted_same s c u).trans (checkRemoval_same ..), st.short.sublist list⟩, fun w d => ?_⟩
    rw [chans]
    by_cases self : w = u
    · rw [if_pos self, self, (st.invariant.linked.chans u live).mem_erase_iff, and_comm]
      simp
    · simp [self]
  · have outside : c ∉ s.chansOf u := fun mem => inside ((st.isSubscribed live).mpr mem)
    rw [Server.partUser, if_neg inside]
    refine ⟨.refl st, fun w d => (and_iff_left_of_imp ?_).symm⟩
    rintro mem ⟨rfl, rfl⟩
    exact outside mem

/-- The sessions of a list leave the channel in turn, but for the one that is skipped. -/
theorem Standing.partEach (st : Standing s) (c skip : ℕ) {sessions : List ℕ} (live : ∀ w ∈ sessions, s.Live w) :
    Drops (fun w d => (w ∈ sessions ∧ w ≠ skip) ∧ d = c) s
      (sessions.foldl (fun s user => if user = skip then s else (s.partUser c user).1) s) := by
  induction sessions generalizing s with
  | nil => exact (Drops.refl st).congr fun w d => by simp
  | cons u sessions ih =>
    have first : Drops (fun w d => (w = u ∧ w ≠ skip) ∧ d = c) s (if u = skip then s else (s.partUser c u).1) := by
      split_ifs with skipped
      · exact (Drops.refl st).congr fun w d => by simp [skipped]
      · refine (st.partUser (live u List.mem_cons_self)).congr fun w d => and_congr_left fun _ => ?_
        exact (and_iff_left_of_imp fun same => same ▸ skipped).symm
    have rest := ih first.standing fun w hw => (first.live w).mpr (live w (List.mem_cons_of_mem _ hw))
    refine (first.trans rest).congr fun w d => ?_
    rw [List.mem_cons, or_and_right, or_and_right]

/-- PART takes the sender and the sessions of the login out of the channel, or nobody. -/
theorem part_step (st : Standing s) (login cname : Bytes) (live : s.Live i) (sync : s.chansync = true) :
    part s i login cname = s ∨
      ∃ c, Drops (fun w d => (w = i ∨ w ∈ s.findLogin login) ∧ d = c) s (part s i login cname) := by
  unfold part
  cases found : s.find cname with
  | none => exact .inl rfl
  | some c =>
    dsimp only
    by_cases inside : s.isSubscribed c i = true
    · have first := st.partUser (c := c) live
      rw [partUser_eq inside] at first ⊢
      dsimp only at first ⊢
      generalize (s.parted c i).checkRemoval c = r at first ⊢
      rw [first.chansync, sync, Bool.and_self, if_pos rfl]
      refine .inr ⟨c, ?_⟩
      unfold Server.clientsPart
      cases later : r.find cname with
      | none =>
        refine ⟨first.toCarried, fun w d => ?_⟩
        rw [first.chans]
        refine and_congr_right fun mem => not_congr (and_congr_left fun same => (or_iff_left_of_imp fun hw => ?_).symm)
        by_contra other
        subst same
        have liveW := findLogin_live st.invariant.logins hw
        have stays := (first.chans w d).mpr ⟨mem, fun both => other both.1⟩
        rw [(first.toCarried.find st liveW mem liveW stays).mpr found] at later
        cases later
      | some c' =>
        obtain ⟨w, liveW, mem⟩ := first.standing.occupied later
        have liveW := (first.live w).mp liveW
        have before := ((first.chans w c').mp mem).1
        obtain rfl := Option.some.inj (found.symm.trans ((first.toCarried.find st liveW before liveW mem).mp later))
        have live' : ∀ w ∈ r.findLogin login, r.Live w := fun w hw => findLogin_live first.invariant.logins hw
        have rest := first.standing.partEach c i live'
        refine (first.trans rest).congr fun w d => ?_
        rw [first.findLogin, ← or_and_right]
        refine and_congr_left fun _ => ?_
        by_cases self : w = i <;> simp [self]
    · left
      rw [Server.partUser, if_neg inside]
      rfl

theorem Drops.agree {sessions : List ℕ} (h : Drops (fun w d => (w = i ∨ w ∈ sessions) ∧ d = c) s t)
    (agree : Agree s sessions) : Agree t sessions := by
  intro u hu w hw d
  rw [h.chans, h.chans, agree u hu w hw]
  simp [hu, hw]

theorem parts_agree (st : Standing s) (live : s.Live i) (sync : s.chansync = true) (items : List Bytes)
    (agree : Agree s (s.findLogin login)) :
    Carried s (items.foldl (fun s channel => part s i login channel) s) ∧
      (∀ w, w ∉ s.findLogin login → w ≠ i → ∀ d,
        d ∈ (items.foldl (fun s channel => part s i login channel) s).chansOf w ↔ d ∈ s.chansOf w) ∧
      Agree (items.foldl (fun s channel => part s i login channel) s) (s.findLogin login) := by
  refine List.foldlRecOn items _ (motive := fun r => Carried s r ∧
    (∀ w, w ∉ s.findLogin login → w ≠ i → ∀ d, d ∈ r.chansOf w ↔ d ∈ s.chansOf w) ∧ Agree r (s.findLogin login))
    ⟨.refl st, fun _ _ _ _ => .rfl, agree⟩ ?_
  rintro r ⟨carried, others, agree⟩ cname -
  have step := part_step carried.standing login cname ((carried.live i).mpr live) (carried.chansync.trans sync)
  rw [carried.findLogin] at step
  rcases step with same | ⟨c, drops⟩
  · rw [same]
    exact ⟨carried, others, agree⟩
  · refine ⟨carried.trans drops.toCarried, fun w hw other d => ?_, drops.agree agree⟩
    rw [drops.chans, others w hw other]
    exact and_iff_left fun both => both.1.elim other hw

/-- PARTALL is for the session that sends it. -/
theorem partAll_drops (st : Standing s) (live : s.Live i) (chans : List ℕ) :
    Drops (fun w d => w = i ∧ d ∈ chans) s (partAll s i chans) := by
  unfold partAll
  induction chans generalizing s with
  | nil => exact (Drops.refl st).congr fun w d => by simp
  | cons c chans ih =>
    have first := st.partUser (c := c) live
    refine (first.trans (ih first.standing ((first.live i).mpr live))).congr fun w d => ?_
    rw [List.mem_cons, and_or_left]

/-- HOP concerns the sender, whose channels stay the same as long as another session is in them. -/
theorem hop_step (st : Standing s) (may : s.May i) (hh : hop s i cname = some t) :
    Carried s t ∧ (∀ w, w ≠ i → ∀ d, d ∈ t.chansOf w ↔ d ∈ s.chansOf w) ∧
      ((∃ w, w ≠ i ∧ s.Live w ∧ ∀ d ∈ s.chansOf i, d ∈ s.chansOf w) → ∀ d, d ∈ t.chansOf i ↔ d ∈ s.chansOf i) := by
  have idle : Carried s s ∧ (∀ w, w ≠ i → ∀ d, d ∈ s.chansOf w ↔ d ∈ s.chansOf w) ∧
      ((∃ w, w ≠ i ∧ s.Live w ∧ ∀ d ∈ s.chansOf i, d ∈ s.chansOf w) → ∀ d, d ∈ s.chansOf i ↔ d ∈ s.chansOf i) :=
    ⟨.refl st, fun _ _ _ => .rfl, fun _ _ => .rfl⟩
  unfold hop at hh
  cases found : s.find cname with
  | none => exact Option.some.inj (found ▸ hh) ▸ idle
  | some c =>
    simp only [found] at hh
    split_ifs at hh with inside
    · have first := st.partUser (c := c) may.live
      have second := first.standing.joinOverride (first.may may) hh
      have sender := (st.isSubscribed may.live).mp inside
      refine ⟨first.toCarried.trans second.toCarried, fun w other d => ?_, ?_⟩
      · rw [second.chans, first.chans]
        simp [other]
      · rintro ⟨w, other, live, shares⟩ d
        have stays := (first.chans w c).mpr ⟨shares c sender, fun both => other both.1⟩
        have still := (first.toCarried.find st live (shares c sender) live stays).mpr found
        obtain ⟨p, hp, same, -⟩ := st.invariant.named.find_iff.mp found
        have short : cname.take 15 = cname := by
          refine List.take_of_length_le ?_
          have length := congrArg List.length same
          simp only [key, List.length_map] at length
          exact length ▸ st.short p hp
        rw [second.chans, first.chans]
        simp only [true_and, exists_eq_left, short, second.find first.standing still, Option.some.injEq]
        by_cases self : d = c
        · simp [self, sender]
        · simp [self, Ne.symm self]
    · exact Option.some.inj hh ▸ idle

end parts

/-! ## Names in every run -/

section short
variable {s t : Server} {u : ℕ} {cname : Bytes}

theorem Short.joinWith (short : Short s) {preJoin : Server → Bool → Bytes → Option (Server × Bool)}
    (pre : ∀ found cname r stop, preJoin s found cname = some (r, stop) → Short r)
    (hj : s.joinWith preJoin u cname = some t) : Short t := by
  unfold Server.joinWith at hj
  dsimp only at hj
  split at hj
  · exact Option.some.inj hj ▸ short
  · split at hj
    · split_ifs at hj
      · exact Option.some.inj hj ▸ short
      · obtain ⟨⟨r, stop⟩, hr, hj⟩ := Option.bind_eq_some_iff.mp hj
        have before := pre _ _ _ _ hr
        cases stop with
        | true => exact Option.some.inj hj ▸ before
        | false =>
          obtain ⟨⟨q, c⟩, hq, hj⟩ := Option.bind_eq_some_iff.mp hj
          exact executeJoin_short (newChannel_short before (by simp) hq) hj
    · split_ifs at hj
      · exact Option.some.inj hj ▸ short
      · obtain ⟨⟨r, stop⟩, hr, hj⟩ := Option.bind_eq_some_iff.mp hj
        have before := pre _ _ _ _ hr
        cases stop with
        | true => exact Option.some.inj hj ▸ before
        | false => exact executeJoin_short before hj

theorem Short.joinOverride (short : Short s) (hj : s.joinOverride u cname = some t) : Short t := by
  refine short.joinWith (fun found cname r stop hr => ?_) hj
  obtain ⟨rfl, -⟩ := Prod.mk.inj (Option.some.inj hr)
  exact short

theorem Short.preJoin (hooks : List Hook) (short : Short s) {found stop : Bool}
    (hj : Server.preJoin u hooks s found cname = some (t, stop)) : Short t := by
  induction hooks generalizing s with
  | nil =>
    obtain ⟨rfl, -⟩ := Prod.mk.inj (Option.some.inj hj)
    exact short
  | cons hook hooks ih =>
    cases hook with
    | chanRestrict =>
      simp only [Server.preJoin] at hj
      split_ifs at hj
      · obtain ⟨rfl, -⟩ := Prod.mk.inj (Option.some.inj hj)
        exact short
      · exact ih short hj
    | chainJoin chain =>
      simp only [Server.preJoin] at hj
      split at hj
      · exact ih short hj
      · obtain ⟨r, hr, hj⟩ := Option.bind_eq_some_iff.mp hj
        exact ih (short.joinOverride hr) hj
    | forward forwards =>
      simp only [Server.preJoin] at hj
      split at hj
      · exact ih short hj
      · obtain ⟨r, hr, hj⟩ := Option.bind_eq_some_iff.mp hj
        obtain ⟨rfl, -⟩ := Prod.mk.inj (Option.some.inj hj)
        exact short.joinOverride hr

theorem Short.clientsJoin (short : Short s) {skip : ℕ} {login : Bytes} (hj : s.clientsJoin skip login cname = some t) :
    Short t := by
  refine foldlM_keeps (fun r w q kept step => ?_) _ short hj
  split_ifs at step
  · exact Option.some.inj step ▸ kept
  · exact kept.joinOverride step

theorem Short.join (hooks : List Hook) (short : Short s) {login : Bytes} (hj : join hooks s u login cname = some t) :
    Short t := by
  unfold Channels.join at hj
  split_ifs at hj
  · exact Option.some.inj hj ▸ short
  · exact Option.some.inj hj ▸ short
  · obtain ⟨r, hr, hj⟩ := Option.bind_eq_some_iff.mp hj
    have joined : Short r := short.joinWith (fun _ _ _ _ => short.preJoin hooks) hr
    split_ifs at hj
    · exact joined.clientsJoin hj
    · exact Option.some.inj hj ▸ joined

theorem Short.deleteUser (short : Short s) (c : ℕ) : Short (s.deleteUser c u) := by
  unfold Server.deleteUser
  split_ifs
  · exact short.sublist (checkRemoval_keeps _ c).2.2
  · exact short

theorem Short.partUser (short : Short s) (c : ℕ) : Short (s.partUser c u).1 := by
  unfold Server.partUser
  split_ifs
  · exact Short.deleteUser (s := { s with users := s.users.modify u fun v => { v with chans := v.chans.erase c } }) short c
  · exact short

theorem Short.clientsPart (short : Short s) (skip : ℕ) (login : Bytes) : Short (s.clientsPart skip login cname) := by
  unfold Server.clientsPart
  split
  · exact short
  · refine List.foldlRecOn _ _ short fun r kept w _ => ?_
    split_ifs
    · exact kept
    · exact kept.partUser _

theorem Short.part (short : Short s) (login : Bytes) : Short (part s u login cname) := by
  unfold Channels.part
  split
  · exact short
  · have parted := short.partUser (u := u) ‹ℕ›
    dsimp only
    split_ifs
    · exact parted.clientsPart u login
    · exact parted

theorem Short.hop (short : Short s) (hh : hop s u cname = some t) : Short t := by
  unfold Channels.hop at hh
  split at hh
  · exact Option.some.inj hh ▸ short
  · split_ifs at hh
    · exact (short.partUser _).joinOverride hh
    · exact Option.some.inj hh ▸ short

theorem Short.next (hooks : List Hook) (short : Short s) {e : Event} (hn : next hooks s e = some t) : Short t := by
  cases e with
  | accept => exact Option.some.inj hn ▸ short
  | login i login =>
    simp only [Channels.next] at hn
    split at hn
    · simp at hn
    · split_ifs at hn
      exact Option.some.inj hn ▸ short
  | ready i chans =>
    simp only [Channels.next] at hn
    split at hn
    · simp at hn
    · split_ifs at hn
      refine foldlM_keeps (P := Short) (fun r chan q kept step => kept.joinOverride step) _ ?_ hn
      exact short
  | disconnect i =>
    obtain rfl := Option.some.inj hn
    unfold Server.disconnect
    split_ifs
    · exact short
    · exact List.foldlRecOn (motive := Short) _ _ short fun r kept chan _ => kept.deleteUser chan
  | settings allowchans chansync => exact Option.some.inj hn ▸ short
  | rights i canExecute => exact Option.some.inj hn ▸ short
  | join i parameter extra =>
    obtain ⟨u, hu, hn⟩ := Option.bind_eq_some_iff.mp hn
    exact foldlM_keeps (fun r channel q kept step => kept.join hooks step) _ short hn
  | part i parameter =>
    obtain ⟨u, hu, rfl⟩ := Option.map_eq_some_iff.mp hn
    exact List.foldlRecOn _ _ short fun r kept channel _ => kept.part u.login
  | partAll i =>
    obtain ⟨u, hu, rfl⟩ := Option.map_eq_some_iff.mp hn
    exact List.foldlRecOn _ _ short fun r kept chan _ => kept.partUser chan
  | hop i parameter =>
    obtain ⟨u, hu, hn⟩ := Option.bind_eq_some_iff.mp hn
    exact foldlM_keeps (fun r channel q kept step => kept.hop step) _ short hn

theorem reachable_standing (hooks : List Hook) (run : (machine hooks).Reachable s) : Standing s := by
  refine run.invariant (fun s start => ⟨.start hooks start, ?_⟩) fun s e t st _ hn => ?_
  · simp [Short, start.2.1]
  · exact ⟨st.invariant.next hooks hn, st.short.next hooks hn⟩

end short

/-! ## Every command -/

section commands
variable {hooks : List Hook} {s t : Server} {i w : ℕ} {u v : User} {e : Event} {login : Bytes}

theorem mem_findLogin (hv : s.users[w]? = some v) (hw : w ∈ s.findLogin login) : v.login = login := by
  simp only [Server.findLogin, List.mem_filter, hv, Option.any_some, Bool.and_eq_true, beq_iff_eq] at hw
  exact hw.2.1.2

/-- One that is found alone agrees with itself. -/
theorem Alone.agree (alone : Alone s i login) (hi : i ∈ s.findLogin login) (t : Server) :
    Agree t (s.findLogin login) := by
  intro a ha b hb d
  rw [alone hi a ha, alone hi b hb]

theorem sibling_of_not_alone (h : ¬ Alone s i login) : i ∈ s.findLogin login ∧ ∃ w ∈ s.findLogin login, w ≠ i := by
  unfold Alone at h
  push Not at h
  exact h

/-- What a command of the session changes is about the sessions of its login only, and these agree behind it just when
the condition holds. -/
structure Outcome (s t : Server) (i : ℕ) (login : Bytes) (condition : Prop) : Prop extends Carried s t where
  others : ∀ w, w ∉ s.findLogin login → w ≠ i → ∀ d, d ∈ t.chansOf w ↔ d ∈ s.chansOf w
  agree : Agree t (s.findLogin login) ↔ condition

variable {condition : Prop}

theorem Outcome.foreign (h : Outcome s t i u.login condition) (hu : s.users[i]? = some u) (hv : s.users[w]? = some v)
    (foreign : v.login ≠ u.login) (d : ℕ) : d ∈ t.chansOf w ↔ d ∈ s.chansOf w := by
  refine h.others w (fun hw => foreign (mem_findLogin hv hw)) ?_ d
  rintro rfl
  exact foreign (congrArg User.login (Option.some.inj (hv.symm.trans hu)))

theorem Outcome.together (h : Outcome s t i u.login condition) (hu : s.users[i]? = some u) (together : Together s) :
    Together t ↔ condition := by
  rw [← h.agree]
  constructor
  · intro all
    exact h.findLogin ▸ all u.login
  · intro agree login
    rw [h.findLogin]
    by_cases same : login = u.login
    · exact same ▸ agree
    · intro a ha b hb d
      have unchanged {w : ℕ} (hw : w ∈ s.findLogin login) : d ∈ t.chansOf w ↔ d ∈ s.chansOf w := by
        have lt : w < s.users.length := List.mem_range.mp (List.mem_filter.mp hw).1
        have hv := List.getElem?_eq_getElem lt
        exact h.foreign hu hv (fun mine => same ((mem_findLogin hv hw).symm.trans mine)) d
      rw [unchanged ha, unchanged hb]
      exact together login a ha b hb d

theorem join_outcome (set : Setting hooks s i) (items : List Bytes) (agree : Agree s (s.findLogin login))
    (run : items.foldlM (fun s channel => join hooks s i login channel) s = some t) :
    Outcome s t i login (Alone s i login ∨ ChainsKnown s.charmap hooks (s.namesOf i) items) := by
  refine ⟨joins_carried set run, fun w => joins_others set run, ?_⟩
  by_cases alone : Alone s i login
  · refine iff_of_true ?_ (.inl alone)
    by_cases hi : i ∈ s.findLogin login
    · exact alone.agree hi t
    · exact joins_outside set run hi agree
  · obtain ⟨hi, w, hw, other⟩ := sibling_of_not_alone alone
    rw [or_iff_right alone]
    exact joins_inside set (s.namesOf i) (fun _ => rfl) run hi hw other agree

theorem part_outcome (st : Standing s) (live : s.Live i) (sync : s.chansync = true) (items : List Bytes)
    (agree : Agree s (s.findLogin login)) :
    Outcome s (items.foldl (fun s channel => part s i login channel) s) i login True :=
  have ⟨carried, others, agree⟩ := parts_agree st live sync items agree
  ⟨carried, others, iff_true_intro agree⟩

theorem partAll_outcome (st : Standing s) (live : s.Live i) (agree : Agree s (s.findLogin login)) :
    Outcome s (partAll s i (s.chansOf i)) i login (Alone s i login ∨ s.chansOf i = []) := by
  have drops := partAll_drops st live (s.chansOf i)
  have others (w : ℕ) (other : w ≠ i) (d : ℕ) : d ∈ (partAll s i (s.chansOf i)).chansOf w ↔ d ∈ s.chansOf w := by
    rw [drops.chans]
    exact and_iff_left fun both => other both.1
  refine ⟨drops.toCarried, fun w _ => others w, ?_⟩
  by_cases alone : Alone s i login
  · refine iff_of_true ?_ (.inl alone)
    by_cases hi : i ∈ s.findLogin login
    · exact alone.agree hi _
    · intro a ha b hb d
      rw [others a (fun same => hi (same ▸ ha)), others b (fun same => hi (same ▸ hb))]
      exact agree a ha b hb d
  · obtain ⟨hi, w, hw, other⟩ := sibling_of_not_alone alone
    rw [or_iff_right alone]
    constructor
    · intro agree'
      refine List.eq_nil_iff_forall_not_mem.mpr fun d inside => ?_
      have left := (agree' w hw i hi d).mp ((others w other d).mpr ((agree i hi w hw d).mp inside))
      exact ((drops.chans i d).mp left).2 ⟨rfl, inside⟩
    · intro none
      rw [none]
      exact agree

theorem hop_outcome (st : Standing s) (may : s.May i) (items : List Bytes) (agree : Agree s (s.findLogin login))
    (run : items.foldlM (fun s channel => hop s i channel) s = some t) : Outcome s t i login True := by
  have kept : Carried s t ∧ (∀ w, w ≠ i → ∀ d, d ∈ t.chansOf w ↔ d ∈ s.chansOf w) ∧
      ((∃ w, w ≠ i ∧ s.Live w ∧ ∀ d ∈ s.chansOf i, d ∈ s.chansOf w) → ∀ d, d ∈ t.chansOf i ↔ d ∈ s.chansOf i) := by
    refine foldlM_keeps (P := fun r => Carried s r ∧ (∀ w, w ≠ i → ∀ d, d ∈ r.chansOf w ↔ d ∈ s.chansOf w) ∧
      ((∃ w, w ≠ i ∧ s.Live w ∧ ∀ d ∈ s.chansOf i, d ∈ s.chansOf w) → ∀ d, d ∈ r.chansOf i ↔ d ∈ s.chansOf i))
      (fun r name q kept step => ?_) items ⟨.refl st, fun _ _ _ => .rfl, fun _ _ => .rfl⟩ run
    obtain ⟨carried, others, shared⟩ := kept
    obtain ⟨carried', others', shared'⟩ := hop_step carried.standing (carried.may may) step
    refine ⟨carried.trans carried', fun w other d => (others' w other d).trans (others w other d), fun sibling d => ?_⟩
    obtain ⟨w, other, live, shares⟩ := id sibling
    refine (shared' ⟨w, other, (carried.live w).mpr live, fun d inside => ?_⟩ d).trans (shared sibling d)
    exact (others w other d).mpr (shares d ((shared sibling d).mp inside))
  obtain ⟨carried, others, shared⟩ := kept
  refine ⟨carried, fun w _ => others w, iff_true_intro ?_⟩
  by_cases alone : Alone s i login ∧ i ∈ s.findLogin login
  · exact alone.1.agree alone.2 t
  · have same {w : ℕ} (hw : w ∈ s.findLogin login) (d : ℕ) : d ∈ t.chansOf w ↔ d ∈ s.chansOf w := by
      by_cases self : w = i
      · subst self
        obtain ⟨-, b, hb, other⟩ := sibling_of_not_alone fun h => alone ⟨h, hw⟩
        exact shared ⟨b, other, findLogin_live st.invariant.logins hb, fun d => (agree w hw b hb d).mp⟩ d
      · exact others w self d
    intro a ha b hb d
    rw [same ha, same hb]
    exact agree a ha b hb d

theorem together_of_users (same : ∀ v ∈ s.users, ∀ v' ∈ s.users, v.login = v'.login → v.chans = v'.chans) :
    Together s := by
  have chans {login : Bytes} {w : ℕ} (hw : w ∈ s.findLogin login) :
      ∃ v ∈ s.users, v.login = login ∧ s.chansOf w = v.chans := by
    have lt : w < s.users.length := List.mem_range.mp (List.mem_filter.mp hw).1
    have hv := List.getElem?_eq_getElem lt
    exact ⟨_, List.mem_of_getElem? hv, mem_findLogin hv hw, by simp [Server.chansOf, hv]⟩
  intro login a ha b hb d
  obtain ⟨v, hv, mine, own⟩ := chans ha
  obtain ⟨v', hv', other, own'⟩ := chans hb
  rw [own, own', same v hv v' hv' (mine.trans other.symm)]

/-- The modules of a configuration that chains one channel. -/
def chainedTo (cname target : Bytes) : List Hook := [.chainJoin fun asked => if asked = cname then some target else none]

/-- A command about channels leaves the sessions of other logins alone, and those of each login together unless it is
PARTALL or a JOIN that is chained to a channel that is new. -/
theorem command_together (run : (machine hooks).Reachable s) (sync : s.chansync = true) (allow : s.allowchans = true)
    (sender : s.sender i = some u) (permits : NoVeto hooks u.canExecute) (together : Together s) (command : OfSession i e)
    (hn : next hooks s e = some t) :
    (Together t ∧ ∀ w v, s.users[w]? = some v → v.login ≠ u.login → ∀ c, c ∈ t.chansOf w ↔ c ∈ s.chansOf w) ↔
      Synced hooks s i u e := by
  obtain ⟨hu, ready⟩ := Option.filter_eq_some_iff.mp sender
  have may : s.May i := ⟨sender_live sender, by simp_all, allow⟩
  have set : Setting hooks s i := ⟨reachable_standing hooks run, may, by rwa [hu], sync⟩
  have chans : s.chansOf i = u.chans := by simp [Server.chansOf, hu]
  have outcome : Outcome s t i u.login (Synced hooks s i u e) := by
    cases e with
    | accept | login | ready | disconnect | settings | rights => exact command.elim
    | join j parameter extra =>
      obtain rfl : j = i := command
      simp only [Channels.next, sender, Option.bind_some] at hn
      exact join_outcome set _ (together u.login) hn
    | part j parameter =>
      obtain rfl : j = i := command
      simp only [Channels.next, sender, Option.map_some, Option.some.injEq] at hn
      exact hn ▸ part_outcome set.toStanding may.live sync _ (together u.login)
    | partAll j =>
      obtain rfl : j = i := command
      simp only [Channels.next, sender, Option.map_some, Option.some.injEq] at hn
      have all := partAll_outcome set.toStanding may.live (together u.login)
      rw [chans, hn] at all
      exact all
    | hop j parameter =>
      obtain rfl : j = i := command
      simp only [Channels.next, sender, Option.bind_some] at hn
      exact hop_outcome set.toStanding may _ (together u.login) hn
  rw [outcome.together hu together]
  exact and_iff_left fun w v hv foreign => outcome.foreign hu hv foreign

/-- Two sessions of a login join two channels, of which one is chained to a channel that they are in. -/
theorem command_together_chained : ∃ s t, (machine (chainedTo (lit "#B") (lit "#a"))).Reachable s ∧
    next (chainedTo (lit "#B") (lit "#a")) s (.join 0 (lit "#b,#C") false) = some t ∧
    t.users.map (·.chans) = [[3, 2, 1], [3, 2, 1], [0]] ∧ Together t := by
  have h : ((machine (chainedTo (lit "#B") (lit "#a"))).exec (fun _ _ => True) ⟨.brld1459, true, true, [], [], []⟩ [
      .accept, .accept, .accept,
      .login 0 (lit "bob"), .login 1 (lit "bob"), .login 2 (lit "eve"), .ready 0 [], .ready 1 [], .ready 2 [],
      .join 2 (lit "#z") false, .join 0 (lit "#A") false]).any (fun s =>
        (∀ v ∈ s.users, ∀ v' ∈ s.users, v.login = v'.login → v.chans = v'.chans) ∧
        s.sender 0 = some ⟨lit "bob", true, true, false, false, [1]⟩ ∧ s.chansync = true ∧ s.allowchans = true ∧
        ChainsKnown s.charmap (chainedTo (lit "#B") (lit "#a")) (s.namesOf 0)
          (loopItems s.charmap (lit "#b,#C") true false) ∧
        (next (chainedTo (lit "#B") (lit "#a")) s (.join 0 (lit "#b,#C") false)).any fun t =>
          t.users.map (·.chans) = [[3, 2, 1], [3, 2, 1], [0]]) := by
    decide +kernel
  obtain ⟨s, run, users, sender, sync, allow, known, after⟩ := Machine.exec_holds h (.initial ⟨rfl, rfl, rfl⟩)
  obtain ⟨t, hn, chans⟩ := (Option.any_eq_true _ _).mp after
  have permits : NoVeto (chainedTo (lit "#B") (lit "#a")) false := by simp [NoVeto, chainedTo]
  have command : OfSession 0 (.join 0 (lit "#b,#C") false) := rfl
  have all := command_together run sync allow sender permits (together_of_users users) command hn
  exact ⟨s, t, run, hn, of_decide_eq_true chans, (all.mpr (.inr known)).1⟩

/-- PARTALL takes one of two sessions out of the channel. -/
theorem partAll_parts_sessions : ¬ ∀ (hooks : List Hook) (s t : Server) (i : ℕ) (u : User) (e : Event),
    (machine hooks).Reachable s → s.chansync = true → s.allowchans = true → s.sender i = some u →
    NoVeto hooks u.canExecute → Together s → OfSession i e → next hooks s e = some t →
    Together t ∧ ∀ w v, s.users[w]? = some v → v.login ≠ u.login → ∀ c, c ∈ t.chansOf w ↔ c ∈ s.chansOf w := by
  intro claim
  have h : ((machine []).exec (fun _ _ => True) ⟨.brld1459, true, true, [], [], []⟩ [.accept, .accept, .login 0 (lit "bob"),
      .login 1 (lit "bob"), .ready 0 [], .ready 1 [], .join 0 (lit "#a") false]).any (fun s =>
        (∀ v ∈ s.users, ∀ v' ∈ s.users, v.login = v'.login → v.chans = v'.chans) ∧
        s.sender 0 = some ⟨lit "bob", true, true, false, false, [0]⟩ ∧ s.chansync = true ∧ s.allowchans = true ∧
        (next [] s (.partAll 0)).any fun t =>
          0 ∈ t.findLogin (lit "bob") ∧ 1 ∈ t.findLogin (lit "bob") ∧ 0 ∉ t.chansOf 0 ∧ 0 ∈ t.chansOf 1) := by
    decide +kernel
  obtain ⟨s, run, users, sender, sync, allow, after⟩ := Machine.exec_holds h (.initial ⟨rfl, rfl, rfl⟩)
  obtain ⟨t, hn, chans⟩ := (Option.any_eq_true _ _).mp after
  obtain ⟨first, second, left, stays⟩ := of_decide_eq_true chans
  have permits : NoVeto [] false := by simp [NoVeto]
  have command : OfSession 0 (.partAll 0) := rfl
  have together := (claim [] s t 0 _ _ run sync allow sender permits (together_of_users users) command hn).1
  exact left ((together (lit "bob") 0 first 1 second 0).mpr stays)

end commands

end BerylDB.Channels
