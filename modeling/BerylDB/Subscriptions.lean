import BerylDB.Channels
import BerylDB.Keyed

/-! # Subscriptions agree

Membership is kept in the channel and in the client, and ChannelList is a third copy of which channels have
subscribers.  Each operation of `channels.cpp` keeps the three in step, whatever the commands that use it. -/
namespace BerylDB.Channels
open Text Transition

/-- The key of an entry of ChannelList. -/
def key (charmap : CharMap) (p : Bytes × ℕ) : Bytes := p.1.map charmap.get

/-- A client that is not quitting. -/
def Server.Live (s : Server) (user : ℕ) : Prop := ∃ u, s.users[user]? = some u ∧ u.quitting = false

/-- The clients of `subscribedlist` are not quitting, and those that are not quitting list the same channels. -/
structure Linked (s : Server) : Prop where
  nodup : ∀ c, (s.subscribed c).Nodup
  live : ∀ c, ∀ u ∈ s.subscribed c, s.Live u
  chans : ∀ u, s.Live u → (s.chansOf u).Nodup
  linked : ∀ u, s.Live u → ∀ c, c ∈ s.chansOf u ↔ u ∈ s.subscribed c

/-- ChannelList has one entry for a name without regard to case, and its entries bear the names of the channels. -/
structure Named (s : Server) : Prop where
  distinct : Keyed.Distinct (key s.charmap) s.channelList
  named : ∀ p ∈ s.channelList, s.channels[p.2]?.map (·.name) = some p.1

/-- The entries of ChannelList are those of the channels with subscribers. -/
def Populated (s : Server) : Prop := ∀ c, (∃ p ∈ s.channelList, p.2 = c) ↔ s.subscribed c ≠ []

/-- The table of logins has no quitting client. -/
def LoginsLive (s : Server) : Prop := ∀ u ∈ s.users, u.listed → u.quitting = false

/-! ## What the operations change -/

section fields

variable {s t : Server} {c u : ℕ}

theorem subscribed_modify {f : List ℕ → List ℕ} (hf : c < s.channels.length ∨ f [] = [])
    (ht : t.channels = s.channels.modify c fun chan => { chan with subscribedlist := f chan.subscribedlist }) (d : ℕ) :
    t.subscribed d = if d = c then f (s.subscribed d) else s.subscribed d := by
  unfold Server.subscribed
  rw [ht, List.getElem?_modify]
  by_cases hd : d = c
  · subst hd
    cases hchan : s.channels[d]? with
    | none =>
      have hnil : f [] = [] := hf.resolve_left (by simpa using hchan)
      simp [hnil]
    | some chan => simp
  · cases s.channels[d]? <;> simp [hd, Ne.symm hd]

theorem names_modify {f : Channel → Channel} (hf : ∀ chan, (f chan).name = chan.name)
    (ht : t.channels = s.channels.modify c f) (d : ℕ) :
    t.channels[d]?.map (·.name) = s.channels[d]?.map (·.name) := by
  rw [ht, List.getElem?_modify]
  cases s.channels[d]? with
  | none => rfl
  | some chan => by_cases hd : c = d <;> simp [hd, hf]

theorem chansOf_modify {f : List ℕ → List ℕ} (hf : u < s.users.length ∨ f [] = [])
    (ht : t.users = s.users.modify u fun v => { v with chans := f v.chans }) (w : ℕ) :
    t.chansOf w = if w = u then f (s.chansOf w) else s.chansOf w := by
  unfold Server.chansOf
  rw [ht, List.getElem?_modify]
  by_cases hw : w = u
  · subst hw
    cases huser : s.users[w]? with
    | none =>
      have hnil : f [] = [] := hf.resolve_left (by simpa using huser)
      simp [hnil]
    | some v => simp
  · cases s.users[w]? <;> simp [hw, Ne.symm hw]

theorem live_modify {f : User → User} (hf : ∀ v, (f v).quitting = v.quitting) (ht : t.users = s.users.modify u f)
    (w : ℕ) : t.Live w ↔ s.Live w := by
  unfold Server.Live
  rw [ht, List.getElem?_modify]
  cases s.users[w]? with
  | none => simp
  | some v => by_cases hw : u = w <;> simp [hw, hf]

theorem loginsLive_modify {f : User → User} (h : LoginsLive s)
    (hf : ∀ v ∈ s.users, (v.listed → v.quitting = false) → (f v).listed → (f v).quitting = false)
    (ht : t.users = s.users.modify u f) : LoginsLive t := by
  intro v hv hlisted
  rw [ht] at hv
  obtain ⟨i, hi⟩ := List.mem_iff_getElem?.mp hv
  rw [List.getElem?_modify] at hi
  obtain ⟨w, hw, rfl⟩ := Option.map_eq_some_iff.mp hi
  have hmem := List.mem_of_getElem? hw
  by_cases hui : u = i
  · simp only [hui, if_true] at hlisted ⊢
    exact hf w hmem (h w hmem) hlisted
  · simp only [hui, if_false] at hlisted ⊢
    exact h w hmem hlisted

theorem Server.Live.lt (h : s.Live u) : u < s.users.length := by
  obtain ⟨v, hv, -⟩ := h
  exact (List.getElem?_eq_some_iff.mp hv).1

/-- The search in ChannelList finds the entry of that name. -/
theorem Named.find_iff (h : Named s) {chan : Bytes} :
    s.find chan = some c ↔ ∃ p ∈ s.channelList, key s.charmap p = chan.map s.charmap.get ∧ p.2 = c := by
  have hfind : s.find chan = (s.channelList.find? fun p => key s.charmap p == chan.map s.charmap.get).map (·.2) := rfl
  rw [hfind, Option.map_eq_some_iff]
  constructor
  · rintro ⟨p, hp, rfl⟩
    obtain ⟨hmem, hkey⟩ := h.distinct.find?_eq_some_iff.mp hp
    exact ⟨p, hmem, hkey, rfl⟩
  · rintro ⟨p, hmem, hkey, rfl⟩
    exact ⟨p, h.distinct.find?_eq_some_iff.mpr ⟨hmem, hkey⟩, rfl⟩

theorem Named.find_lt (h : Named s) {chan : Bytes} (hfind : s.find chan = some c) : c < s.channels.length := by
  obtain ⟨p, hp, -, rfl⟩ := h.find_iff.mp hfind
  obtain ⟨channel, hchannel, -⟩ := Option.map_eq_some_iff.mp (h.named p hp)
  exact (List.getElem?_eq_some_iff.mp hchannel).1

/-- CheckRemoval takes out the entry of the channel if it has no subscriber left. -/
theorem Named.mem_checkRemoval (h : Named s) (p : Bytes × ℕ) :
    p ∈ (s.checkRemoval c).channelList ↔ p ∈ s.channelList ∧ (p.2 = c → s.subscribed c ≠ []) := by
  unfold Server.checkRemoval
  cases hchannel : s.channels[c]? with
  | none =>
    refine ⟨fun hp => ⟨hp, fun hc => ?_⟩, fun hp => hp.1⟩
    have := h.named p hp
    simp [hc, hchannel] at this
  | some channel =>
    have hsubscribed : s.subscribed c = channel.subscribedlist := by simp [Server.subscribed, hchannel]
    have hname : ∀ q ∈ s.channelList, q.2 = c → key s.charmap q = channel.name.map s.charmap.get := by
      rintro q hq rfl
      have := h.named q hq
      simp only [hchannel, Option.map_some, Option.some.injEq] at this
      rw [key, this]
    dsimp only
    split_ifs with hne hfind
    · rw [hsubscribed]
      exact ⟨fun hp => ⟨hp, fun _ => hne⟩, fun hp => hp.1⟩
    · refine ⟨fun hp => ⟨hp, fun hc => ?_⟩, fun hp => hp.1⟩
      exact absurd (h.find_iff.mpr ⟨p, hp, hname p hp hc, hc⟩) hfind
    · have hnil : s.subscribed c = [] := by simpa [hsubscribed] using hne
      rw [hnil]
      refine (h.distinct.mem_eraseP (k := channel.name.map s.charmap.get)).trans (and_congr_right fun hp => ?_)
      obtain ⟨q, hq, hkey, hqc⟩ := h.find_iff.mp (not_not.mp hfind)
      constructor
      · exact fun hpk hpc => absurd (hname p hp hpc) hpk
      · intro hpc hpk
        have hpq : p = q := h.distinct.eq_of_key hp hq (hpk.trans hkey.symm)
        exact hpc (hpq ▸ hqc) rfl

theorem checkRemoval_keeps (s : Server) (c : ℕ) :
    (s.checkRemoval c).channels = s.channels ∧ (s.checkRemoval c).users = s.users ∧
      (s.checkRemoval c).channelList.Sublist s.channelList := by
  unfold Server.checkRemoval
  split
  · exact ⟨rfl, rfl, .refl _⟩
  · split_ifs
    · exact ⟨rfl, rfl, .refl _⟩
    · exact ⟨rfl, rfl, .refl _⟩
    · exact ⟨rfl, rfl, List.eraseP_sublist⟩

/-- The map that `casemapping` chose stays. -/
@[simp] theorem checkRemoval_charmap (s : Server) (c : ℕ) : (s.checkRemoval c).charmap = s.charmap := by
  unfold Server.checkRemoval
  split
  · rfl
  · split_ifs <;> rfl

end fields

/-! ## The invariant, operation by operation -/

/-- The three copies agree. -/
structure Invariant (s : Server) : Prop where
  linked : Linked s
  named : Named s
  populated : Populated s
  logins : LoginsLive s

/-- What an operation leads to that disconnects nobody. -/
structure Onward (s t : Server) : Prop where
  invariant : Invariant t
  live : ∀ w, t.Live w ↔ s.Live w
  charmap : t.charmap = s.charmap

/-- What a join leads to. -/
structure Joined (s t : Server) : Prop extends Onward s t where
  grown : s.channelList ⊆ t.channelList

theorem Onward.refl {s : Server} (h : Invariant s) : Onward s s := ⟨h, fun _ => .rfl, rfl⟩

theorem Onward.trans {s r t : Server} (h : Onward s r) (h' : Onward r t) : Onward s t :=
  ⟨h'.invariant, fun w => (h'.live w).trans (h.live w), h'.charmap.trans h.charmap⟩

theorem Joined.refl {s : Server} (h : Invariant s) : Joined s s := ⟨.refl h, fun _ hp => hp⟩

theorem Joined.trans {s r t : Server} (h : Joined s r) (h' : Joined r t) : Joined s t :=
  ⟨h.toOnward.trans h'.toOnward, fun _ hp => h'.grown (h.grown hp)⟩

section operations

variable {s t : Server} {c u : ℕ}

theorem executeJoin_eq (hj : s.executeJoin c u = some t) : u ∉ s.subscribed c ∧
    t = { s with
      channels := s.channels.modify c fun chan => { chan with subscribedlist := chan.subscribedlist ++ [u] }
      users := s.users.modify u fun v => { v with chans := c :: v.chans } } := by
  unfold Server.executeJoin at hj
  split_ifs at hj with hsub
  exact ⟨by simpa [Server.isSubscribed] using hsub, (Option.some.inj hj).symm⟩

theorem Linked.executeJoin (h : Linked s) (hc : c < s.channels.length) (hu : s.Live u) (hj : s.executeJoin c u = some t) :
    Linked t ∧ ∀ w, t.Live w ↔ s.Live w := by
  obtain ⟨hnew, ht⟩ := executeJoin_eq hj
  have hsubscribed := subscribed_modify (t := t) (f := (· ++ [u])) (.inl hc) (by rw [ht])
  have hchans := chansOf_modify (t := t) (f := (c :: ·)) (.inl hu.lt) (by rw [ht])
  have hlive := live_modify (t := t) (f := fun v => { v with chans := c :: v.chans }) (fun _ => rfl) (by rw [ht])
  refine ⟨⟨fun d => ?_, fun d w hw => ?_, fun w hw => ?_, fun w hw d => ?_⟩, fun w => hlive w⟩
  · rw [hsubscribed]
    by_cases hd : d = c
    · subst hd
      rw [if_pos rfl, List.nodup_append_comm]
      exact List.nodup_cons.mpr ⟨hnew, h.nodup d⟩
    · simpa [hd] using h.nodup d
  · rw [hlive]
    rw [hsubscribed] at hw
    by_cases hd : d = c
    · simp only [hd, if_true, List.mem_append, List.mem_singleton] at hw
      rcases hw with hw | rfl
      · exact h.live c w hw
      · exact hu
    · exact h.live d w (by simpa [hd] using hw)
  · rw [hlive] at hw
    rw [hchans]
    by_cases hwu : w = u
    · subst hwu
      have hnot : c ∉ s.chansOf w := fun hmem => hnew ((h.linked w hw c).mp hmem)
      simpa using ⟨hnot, h.chans w hw⟩
    · simpa [hwu] using h.chans w hw
  · rw [hlive] at hw
    have hold := h.linked w hw d
    rw [hchans, hsubscribed]
    by_cases hwu : w = u <;> by_cases hd : d = c <;> simp [hwu, hd, hold]
    · exact hwu ▸ hold
    · exact hd ▸ hold

theorem Named.modify (h : Named s) {f : Channel → Channel} (hf : ∀ chan, (f chan).name = chan.name)
    (hchannels : t.channels = s.channels.modify c f) (hlist : t.channelList = s.channelList)
    (hcharmap : t.charmap = s.charmap) : Named t := by
  refine ⟨hcharmap ▸ hlist ▸ h.distinct, fun p hp => ?_⟩
  rw [names_modify hf hchannels]
  exact h.named p (hlist ▸ hp)

/-- A join of a channel that has an entry, or that has just been made. -/
theorem executeJoin_joined (hlinked : Linked s) (hnamed : Named s) (hlogins : LoginsLive s)
    (hpopulated : ∀ d, (∃ p ∈ s.channelList, p.2 = d) ↔ s.subscribed d ≠ [] ∨ d = c) (hc : c < s.channels.length)
    (hu : s.Live u) (hj : s.executeJoin c u = some t) : Joined s t := by
  obtain ⟨hlinked', hlive⟩ := hlinked.executeJoin hc hu hj
  obtain ⟨-, ht⟩ := executeJoin_eq hj
  have hlist : t.channelList = s.channelList := by rw [ht]
  have hcharmap : t.charmap = s.charmap := by rw [ht]
  refine ⟨⟨⟨hlinked', ?_, fun d => ?_, ?_⟩, hlive, hcharmap⟩, hlist ▸ List.Subset.refl _⟩
  · exact hnamed.modify (f := fun chan => { chan with subscribedlist := chan.subscribedlist ++ [u] }) (fun _ => rfl)
      (by rw [ht]) hlist hcharmap
  · rw [subscribed_modify (t := t) (f := (· ++ [u])) (.inl hc) (by rw [ht]) d, hlist]
    refine (hpopulated d).trans ?_
    by_cases hd : d = c <;> simp [hd]
  · exact loginsLive_modify (f := fun v => { v with chans := c :: v.chans }) hlogins (fun v _ hv => hv) (by rw [ht])

theorem Linked.newChannel (h : Linked s) {cname : Bytes} (hn : s.newChannel cname = some (t, c)) :
    Linked t ∧ (∀ d, t.subscribed d = s.subscribed d) ∧ ∀ w, t.Live w ↔ s.Live w := by
  unfold Server.newChannel at hn
  split_ifs at hn
  obtain ⟨rfl, rfl⟩ := Prod.mk.inj (Option.some.inj hn)
  have hsubscribed : ∀ d, Server.subscribed { s with
      channels := s.channels ++ [⟨cname, []⟩]
      channelList := s.channelList ++ [(cname, s.channels.length)] } d = s.subscribed d := fun d => by
    unfold Server.subscribed
    rcases Nat.lt_trichotomy d s.channels.length with hd | rfl | hd
    · simp [List.getElem?_append_left hd]
    · simp
    · have hnone : s.channels.length + 1 ≤ d := hd
      simp [List.getElem?_eq_none (Nat.le_of_lt hd), List.getElem?_eq_none, hnone]
  refine ⟨⟨fun d => ?_, fun d w hw => ?_, h.chans, fun w hw d => ?_⟩, hsubscribed, fun _ => .rfl⟩
  · exact hsubscribed d ▸ h.nodup d
  · exact h.live d w (hsubscribed d ▸ hw)
  · rw [hsubscribed]
    exact h.linked w hw d

theorem Named.newChannel (h : Named s) {cname : Bytes} (hn : s.newChannel cname = some (t, c)) :
    Named t ∧ c < t.channels.length ∧ ∀ d, (∃ p ∈ t.channelList, p.2 = d) ↔ (∃ p ∈ s.channelList, p.2 = d) ∨ d = c := by
  unfold Server.newChannel at hn
  split_ifs at hn with hfind
  obtain ⟨rfl, rfl⟩ := Prod.mk.inj (Option.some.inj hn)
  refine ⟨⟨h.distinct.concat fun p hp hkey => ?_, fun p hp => ?_⟩, by simp, fun d => ?_⟩
  · have hsome := h.find_iff.mpr ⟨p, hp, hkey, rfl⟩
    simp [hsome] at hfind
  · rcases List.mem_append.mp hp with hp | hp
    · have hname := h.named p hp
      have hlt : p.2 < s.channels.length := by
        obtain ⟨chan, hchan, -⟩ := Option.map_eq_some_iff.mp hname
        exact (List.getElem?_eq_some_iff.mp hchan).1
      rwa [List.getElem?_append_left hlt]
    · rw [List.mem_singleton.mp hp]
      simp
  · simp [or_and_right, exists_or, eq_comm]

/-- A channel that is made and joined at once. -/
theorem Invariant.create (h : Invariant s) {r : Server} {cname : Bytes} (hu : s.Live u)
    (hn : s.newChannel cname = some (r, c)) (hj : r.executeJoin c u = some t) :
    Joined s t := by
  obtain ⟨hlinked, hsubscribed, hlive⟩ := h.linked.newChannel hn
  obtain ⟨hnamed, hlt, hlist⟩ := h.named.newChannel hn
  obtain ⟨hlogins, hgrown, hcharmap⟩ : LoginsLive r ∧ s.channelList ⊆ r.channelList ∧ r.charmap = s.charmap := by
    unfold Server.newChannel at hn
    split_ifs at hn
    obtain ⟨rfl, -⟩ := Prod.mk.inj (Option.some.inj hn)
    exact ⟨h.logins, List.subset_append_left .., rfl⟩
  have hpopulated : ∀ d, (∃ p ∈ r.channelList, p.2 = d) ↔ r.subscribed d ≠ [] ∨ d = c := fun d => by
    rw [hlist, h.populated d, hsubscribed]
  have hjoined := executeJoin_joined hlinked hnamed hlogins hpopulated hlt ((hlive u).mpr hu) hj
  exact ⟨⟨hjoined.invariant, fun w => (hjoined.live w).trans (hlive w), hjoined.charmap.trans hcharmap⟩,
    fun _ hp => hjoined.grown (hgrown hp)⟩

/-- A join of a channel that exists. -/
theorem Invariant.enter (h : Invariant s) {chan : Bytes} (hu : s.Live u) (hfind : s.find chan = some c)
    (hj : s.executeJoin c u = some t) : Joined s t := by
  refine executeJoin_joined h.linked h.named h.logins (fun d => ?_) (h.named.find_lt hfind) hu hj
  obtain ⟨p, hp, -, hpc⟩ := h.named.find_iff.mp hfind
  rw [h.populated d]
  constructor
  · exact .inl
  · rintro (hd | rfl)
    · exact hd
    · exact (h.populated d).mp ⟨p, hp, hpc⟩

/-- `JoinUser`, whatever the modules do before it as long as that is a join. -/
theorem Invariant.joinWith (h : Invariant s) {preJoin : Server → Bool → Bytes → Option (Server × Bool)}
    (hpre : ∀ found cname r stop, preJoin s found cname = some (r, stop) → Joined s r) (hu : s.Live u) {cname : Bytes}
    (hj : s.joinWith preJoin u cname = some t) : Joined s t := by
  unfold Server.joinWith at hj
  dsimp only at hj
  split at hj
  · exact Option.some.inj hj ▸ .refl h
  · cases hfind : s.find (cname.take 15) with
    | none =>
      simp only [hfind] at hj
      split_ifs at hj
      · exact Option.some.inj hj ▸ .refl h
      · obtain ⟨⟨r, stop⟩, hr, hj⟩ := Option.bind_eq_some_iff.mp hj
        have hjoined := hpre _ _ _ _ hr
        cases stop with
        | true => exact Option.some.inj hj ▸ hjoined
        | false =>
          obtain ⟨⟨q, chan⟩, hq, hj⟩ := Option.bind_eq_some_iff.mp hj
          exact hjoined.trans (hjoined.invariant.create ((hjoined.live u).mpr hu) hq hj)
    | some chan =>
      simp only [hfind] at hj
      split_ifs at hj
      · exact Option.some.inj hj ▸ .refl h
      · obtain ⟨⟨r, stop⟩, hr, hj⟩ := Option.bind_eq_some_iff.mp hj
        have hjoined := hpre _ _ _ _ hr
        cases stop with
        | true => exact Option.some.inj hj ▸ hjoined
        | false =>
          obtain ⟨p, hp, hkey, hpc⟩ := h.named.find_iff.mp hfind
          have hfound := hjoined.invariant.named.find_iff.mpr ⟨p, hjoined.grown hp, hjoined.charmap ▸ hkey, hpc⟩
          exact hjoined.trans (hjoined.invariant.enter ((hjoined.live u).mpr hu) hfound hj)

theorem Invariant.joinOverride (h : Invariant s) (hu : s.Live u) {cname : Bytes} (hj : s.joinOverride u cname = some t) :
    Joined s t := by
  refine h.joinWith (fun found cname r stop hr => ?_) hu hj
  obtain ⟨rfl, -⟩ := Prod.mk.inj (Option.some.inj hr)
  exact .refl h

theorem preJoin_joined (hooks : List Hook) (h : Invariant s) (hu : s.Live u) {found stop : Bool} {cname : Bytes}
    (hj : Server.preJoin u hooks s found cname = some (t, stop)) : Joined s t := by
  induction hooks generalizing s with
  | nil =>
    obtain ⟨rfl, -⟩ := Prod.mk.inj (Option.some.inj hj)
    exact .refl h
  | cons hook hooks ih =>
    cases hook with
    | chanRestrict =>
      simp only [Server.preJoin] at hj
      split_ifs at hj
      · obtain ⟨rfl, -⟩ := Prod.mk.inj (Option.some.inj hj)
        exact .refl h
      · exact ih h hu hj
    | chainJoin chain =>
      simp only [Server.preJoin] at hj
      split at hj
      · exact ih h hu hj
      · obtain ⟨r, hr, hj⟩ := Option.bind_eq_some_iff.mp hj
        have hjoined := h.joinOverride hu hr
        exact hjoined.trans (ih hjoined.invariant ((hjoined.live u).mpr hu) hj)
    | forward forwards =>
      simp only [Server.preJoin] at hj
      split at hj
      · exact ih h hu hj
      · obtain ⟨r, hr, hj⟩ := Option.bind_eq_some_iff.mp hj
        obtain ⟨rfl, -⟩ := Prod.mk.inj (Option.some.inj hj)
        exact h.joinOverride hu hr

theorem Invariant.joinUser (h : Invariant s) (hooks : List Hook) (hu : s.Live u) {cname : Bytes}
    (hj : s.joinUser hooks u cname = some t) : Joined s t :=
  h.joinWith (fun _ _ _ _ hr => preJoin_joined hooks h hu hr) hu hj

/-! ## Parts and departures -/

/-- The subscriptions that `gone` tells are taken out of the channels. -/
structure Removed (gone : ℕ → ℕ → Prop) (s t : Server) : Prop where
  users : t.users = s.users
  charmap : t.charmap = s.charmap
  named : Named t
  populated : Populated t
  nodup : ∀ d, (t.subscribed d).Nodup
  mem : ∀ d w, w ∈ t.subscribed d ↔ w ∈ s.subscribed d ∧ ¬gone d w

theorem Named.checkRemoval (h : Named s) : Named (s.checkRemoval c) := by
  obtain ⟨hchannels, -, hlist⟩ := checkRemoval_keeps s c
  refine ⟨?_, fun p hp => hchannels ▸ h.named p (hlist.subset hp)⟩
  rw [checkRemoval_charmap]
  exact h.distinct.sublist hlist

theorem deleteUser_removed (hnamed : Named s) (hpopulated : Populated s) (hnodup : ∀ d, (s.subscribed d).Nodup) :
    Removed (fun d w => d = c ∧ w = u) s (s.deleteUser c u) := by
  unfold Server.deleteUser
  by_cases hsub : s.isSubscribed c u
  · rw [if_pos hsub]
    have hmem : u ∈ s.subscribed c := by simpa [Server.isSubscribed] using hsub
    set r : Server := { s with
      channels := s.channels.modify c fun chan => { chan with subscribedlist := chan.subscribedlist.erase u } } with hr
    have hsubscribed := subscribed_modify (s := s) (t := r) (c := c) (f := (List.erase · u)) (.inr rfl) rfl
    have hnamed' : Named r := hnamed.modify (c := c)
      (f := fun chan => { chan with subscribedlist := chan.subscribedlist.erase u }) (fun _ => rfl) rfl rfl rfl
    obtain ⟨hchannels, husers, -⟩ := checkRemoval_keeps r c
    have hsame : ∀ d, (r.checkRemoval c).subscribed d = r.subscribed d := fun d => by
      simp only [Server.subscribed, hchannels]
    refine ⟨husers, checkRemoval_charmap r c, hnamed'.checkRemoval, fun d => ?_, fun d => ?_, fun d w => ?_⟩
    · simp only [hnamed'.mem_checkRemoval, hsame]
      by_cases hd : d = c
      · subst hd
        constructor
        · rintro ⟨p, ⟨-, hne⟩, hp⟩
          exact hne hp
        · intro hne
          obtain ⟨p, hp, hpd⟩ := (hpopulated d).mpr (List.ne_nil_of_mem hmem)
          exact ⟨p, ⟨hp, fun _ => hne⟩, hpd⟩
      · rw [hsubscribed d, if_neg hd, ← hpopulated d]
        constructor
        · rintro ⟨p, ⟨hp, -⟩, hpd⟩
          exact ⟨p, hp, hpd⟩
        · rintro ⟨p, hp, hpd⟩
          exact ⟨p, ⟨hp, fun hpc => absurd (hpd.symm.trans hpc) hd⟩, hpd⟩
    · rw [hsame, hsubscribed]
      split_ifs
      · exact (hnodup d).erase u
      · exact hnodup d
    · rw [hsame, hsubscribed]
      by_cases hd : d = c
      · rw [if_pos hd, (hnodup d).mem_erase_iff]
        simp [hd, and_comm]
      · simp [hd]
  · rw [if_neg hsub]
    refine ⟨rfl, rfl, hnamed, hpopulated, hnodup, fun d w => (and_iff_left_of_imp ?_).symm⟩
    rintro hw ⟨rfl, rfl⟩
    exact hsub (by simpa [Server.isSubscribed] using hw)

theorem Invariant.partUser (h : Invariant s) (c u : ℕ) : Onward s (s.partUser c u).1 := by
  unfold Server.partUser
  split_ifs with hsub
  · set r : Server := { s with users := s.users.modify u fun v => { v with chans := v.chans.erase c } } with hr
    have hremoved : Removed (fun d w => d = c ∧ w = u) r (r.deleteUser c u) :=
      deleteUser_removed ⟨h.named.distinct, h.named.named⟩ h.populated h.linked.nodup
    have husers : (r.deleteUser c u).users = s.users.modify u fun v => { v with chans := v.chans.erase c } :=
      hremoved.users
    have hlive := live_modify (f := fun v => { v with chans := v.chans.erase c }) (fun _ => rfl) husers
    have hchans := chansOf_modify (f := (List.erase · c)) (.inr rfl) husers
    refine ⟨⟨⟨hremoved.nodup, fun d w hw => ?_, fun w hw => ?_, fun w hw d => ?_⟩, hremoved.named,
      hremoved.populated, ?_⟩, hlive, hremoved.charmap⟩
    · exact (hlive w).mpr (h.linked.live d w ((hremoved.mem d w).mp hw).1)
    · rw [hchans]
      have hold := h.linked.chans w ((hlive w).mp hw)
      split_ifs
      · exact hold.erase c
      · exact hold
    · rw [hremoved.mem d w, hchans]
      have hw := (hlive w).mp hw
      have hold : d ∈ s.chansOf w ↔ w ∈ r.subscribed d := h.linked.linked w hw d
      by_cases hwu : w = u
      · rw [if_pos hwu, (h.linked.chans w hw).mem_erase_iff, hold]
        simp [hwu, and_comm]
      · simp [hwu, hold]
    · exact loginsLive_modify (f := fun v => { v with chans := v.chans.erase c }) h.logins (fun v _ hv => hv) husers
  · exact .refl h

theorem Removed.refl (hnamed : Named s) (hpopulated : Populated s) (hnodup : ∀ d, (s.subscribed d).Nodup) :
    Removed (fun _ _ => False) s s :=
  ⟨rfl, rfl, hnamed, hpopulated, hnodup, by simp⟩

theorem Removed.trans {gone gone' : ℕ → ℕ → Prop} {r : Server} (h : Removed gone s r) (h' : Removed gone' r t) :
    Removed (fun d w => gone d w ∨ gone' d w) s t := by
  refine ⟨h'.users.trans h.users, h'.charmap.trans h.charmap, h'.named, h'.populated, h'.nodup, fun d w => ?_⟩
  rw [h'.mem, h.mem, not_or, and_assoc]

/-- The walk of `CheckEmptyChannels` takes the client out of every channel of the list. -/
theorem foldl_deleteUser (hnamed : Named s) (hpopulated : Populated s) (hnodup : ∀ d, (s.subscribed d).Nodup)
    (chans : List ℕ) : Removed (fun d w => d ∈ chans ∧ w = u) s (chans.foldl (fun s chan => s.deleteUser chan u) s) := by
  induction chans generalizing s with
  | nil => simpa using Removed.refl hnamed hpopulated hnodup
  | cons chan chans ih =>
    have hfirst := deleteUser_removed (c := chan) (u := u) hnamed hpopulated hnodup
    have hrest := ih hfirst.named hfirst.populated hfirst.nodup
    simpa only [List.foldl_cons, List.mem_cons, or_and_right] using hfirst.trans hrest

theorem Invariant.disconnect (h : Invariant s) (u : ℕ) : Invariant (s.disconnect u) := by
  unfold Server.disconnect
  split_ifs with hquitting
  · exact h
  · set r : Server := { s with users := s.users.modify u fun v => { v with quitting := true, listed := false } } with hr
    have hremoved : Removed (fun d w => d ∈ r.chansOf u ∧ w = u) r (r.checkEmptyChannels u) :=
      foldl_deleteUser (s := r) ⟨h.named.distinct, h.named.named⟩ h.populated h.linked.nodup _
    have huser : ∀ w, r.users[w]? =
        s.users[w]?.map fun v => if u = w then { v with quitting := true, listed := false } else v := fun w => by
      rw [hr]
      exact List.getElem?_modify ..
    have hchans : ∀ w, r.chansOf w = s.chansOf w := fun w => by
      unfold Server.chansOf
      rw [huser]
      cases s.users[w]? with
      | none => rfl
      | some v => by_cases hw : u = w <;> simp [hw]
    have hlive : ∀ w, r.Live w ↔ s.Live w ∧ w ≠ u := fun w => by
      unfold Server.Live
      rw [huser]
      cases s.users[w]? with
      | none => simp
      | some v =>
        by_cases hw : u = w
        · simp [hw]
        · simp [hw, Ne.symm hw]
    have hlive' : ∀ w, (r.checkEmptyChannels u).Live w ↔ s.Live w ∧ w ≠ u := fun w => by
      rw [← hlive]
      simp only [Server.Live, hremoved.users]
    have hchans' : ∀ w, (r.checkEmptyChannels u).chansOf w = s.chansOf w := fun w => by
      rw [← hchans]
      simp only [Server.chansOf, hremoved.users]
    refine ⟨⟨hremoved.nodup, fun d w hw => ?_, fun w hw => ?_, fun w hw d => ?_⟩, hremoved.named,
      hremoved.populated, ?_⟩
    · obtain ⟨hw, hnot⟩ := (hremoved.mem d w).mp hw
      have hw : w ∈ s.subscribed d := hw
      have hlivew := h.linked.live d w hw
      refine (hlive' w).mpr ⟨hlivew, ?_⟩
      rintro rfl
      exact hnot ⟨hchans w ▸ (h.linked.linked w hlivew d).mpr hw, rfl⟩
    · rw [hchans']
      exact h.linked.chans w ((hlive' w).mp hw).1
    · obtain ⟨hw, hne⟩ := (hlive' w).mp hw
      rw [hchans', hremoved.mem d w, h.linked.linked w hw d]
      exact (and_iff_left fun hgone => hne hgone.2).symm
    · refine loginsLive_modify (f := fun v => { v with quitting := true, listed := false }) h.logins ?_ hremoved.users
      simp

end operations

/-! ## The commands -/

section commands

variable {s t : Server} {i : ℕ}

theorem onward_foldl {α : Type} {f : Server → α → Server} (hf : ∀ s a, Invariant s → Onward s (f s a)) (as : List α)
    (h : Invariant s) : Onward s (as.foldl f s) := by
  induction as generalizing s with
  | nil => exact .refl h
  | cons a as ih =>
    have hfirst := hf s a h
    exact hfirst.trans (ih hfirst.invariant)

/-- A loop over commands of clients that are not quitting. -/
theorem onward_foldlM {α : Type} (client : α → ℕ) {f : Server → α → Option Server}
    (hf : ∀ s a t, Invariant s → s.Live (client a) → f s a = some t → Onward s t) (as : List α) (h : Invariant s)
    (hlive : ∀ a ∈ as, s.Live (client a)) (hfold : as.foldlM f s = some t) : Onward s t := by
  induction as generalizing s with
  | nil => exact Option.some.inj hfold ▸ .refl h
  | cons a as ih =>
    obtain ⟨r, hr, hfold⟩ := Option.bind_eq_some_iff.mp hfold
    have hfirst := hf s a r h (hlive a List.mem_cons_self) hr
    refine hfirst.trans (ih hfirst.invariant (fun b hb => ?_) hfold)
    exact (hfirst.live _).mpr (hlive b (List.mem_cons_of_mem _ hb))

theorem findLogin_live (h : LoginsLive s) {login : Bytes} (hi : i ∈ s.findLogin login) : s.Live i := by
  simp only [Server.findLogin, List.mem_filter, Option.any_eq_true, Bool.and_eq_true] at hi
  obtain ⟨-, u, hu, ⟨hlisted, -⟩, -⟩ := hi
  exact ⟨u, hu, h u (List.mem_of_getElem? hu) hlisted⟩

theorem Invariant.clientsJoin (h : Invariant s) {skip : ℕ} {login channel : Bytes}
    (hj : s.clientsJoin skip login channel = some t) : Onward s t := by
  refine onward_foldlM id (fun s user t h hlive hstep => ?_) _ h (fun user huser => findLogin_live h.logins huser) hj
  split_ifs at hstep
  · exact Option.some.inj hstep ▸ .refl h
  · exact (h.joinOverride hlive hstep).toOnward

theorem Invariant.clientsPart (h : Invariant s) (skip : ℕ) (login channel : Bytes) :
    Onward s (s.clientsPart skip login channel) := by
  unfold Server.clientsPart
  split
  · exact .refl h
  · refine onward_foldl (fun s user h => ?_) _ h
    split_ifs
    · exact .refl h
    · exact h.partUser _ user

theorem join_onward (hooks : List Hook) (h : Invariant s) (hlive : s.Live i) {login channel : Bytes}
    (hj : join hooks s i login channel = some t) : Onward s t := by
  unfold join at hj
  split_ifs at hj
  · exact Option.some.inj hj ▸ .refl h
  · exact Option.some.inj hj ▸ .refl h
  · obtain ⟨r, hr, hj⟩ := Option.bind_eq_some_iff.mp hj
    have hjoined := (h.joinUser hooks hlive hr).toOnward
    split_ifs at hj
    · exact hjoined.trans (hjoined.invariant.clientsJoin hj)
    · exact Option.some.inj hj ▸ hjoined

theorem part_onward (h : Invariant s) (login channel : Bytes) : Onward s (part s i login channel) := by
  unfold part
  split
  · exact .refl h
  · rename_i chan _
    have hparted := h.partUser chan i
    dsimp only
    split_ifs
    · exact hparted.trans (hparted.invariant.clientsPart i login channel)
    · exact hparted

theorem hop_onward (h : Invariant s) (hlive : s.Live i) {channel : Bytes} (hj : hop s i channel = some t) :
    Onward s t := by
  unfold hop at hj
  split at hj
  · exact Option.some.inj hj ▸ .refl h
  · rename_i chan _
    split_ifs at hj
    · have hparted := h.partUser chan i
      exact hparted.trans (hparted.invariant.joinOverride ((hparted.live i).mpr hlive) hj).toOnward
    · exact Option.some.inj hj ▸ .refl h

/-- A change of a client that is not about its channels. -/
theorem Invariant.modify (h : Invariant s) {f : User → User} (hchans : ∀ v, (f v).chans = v.chans)
    (hquitting : ∀ v, (f v).quitting = v.quitting)
    (hlisted : ∀ v, s.users[i]? = some v → (f v).listed → v.quitting = false) :
    Onward s { s with users := s.users.modify i f } := by
  set r : Server := { s with users := s.users.modify i f } with hr
  have hlive := live_modify (s := s) (t := r) hquitting rfl
  have hsame : ∀ w, r.chansOf w = s.chansOf w := fun w => by
    have huser : r.users[w]? = s.users[w]?.map fun v => if i = w then f v else v := by
      rw [hr]
      exact List.getElem?_modify ..
    unfold Server.chansOf
    rw [huser]
    cases s.users[w]? with
    | none => rfl
    | some v => by_cases hw : i = w <;> simp [hw, hchans]
  refine ⟨⟨⟨h.linked.nodup, fun d w hw => ?_, fun w hw => ?_, fun w hw d => ?_⟩, ⟨h.named.distinct, h.named.named⟩,
    h.populated, fun v hv hlist => ?_⟩, hlive, rfl⟩
  · exact (hlive w).mpr (h.linked.live d w hw)
  · exact hsame w ▸ h.linked.chans w ((hlive w).mp hw)
  · rw [hsame]
    exact h.linked.linked w ((hlive w).mp hw) d
  · obtain ⟨j, hj⟩ := List.mem_iff_getElem?.mp hv
    have hj : s.users[j]?.map (fun v => if i = j then f v else v) = some v := by
      rw [← hj, hr]
      exact (List.getElem?_modify ..).symm
    obtain ⟨w, hw, rfl⟩ := Option.map_eq_some_iff.mp hj
    by_cases hij : i = j
    · subst hij
      rw [if_pos rfl] at hlist ⊢
      rw [hquitting]
      exact hlisted w hw hlist
    · rw [if_neg hij] at hlist ⊢
      exact h.logins w (List.mem_of_getElem? hw) hlist

theorem Invariant.accept (h : Invariant s) : Invariant { s with users := s.users ++ [.fresh] } := by
  have hold : ∀ w, w < s.users.length → (s.users ++ [User.fresh])[w]? = s.users[w]? := fun w hw =>
    List.getElem?_append_left hw
  have hlive : ∀ w, s.Live w → Server.Live { s with users := s.users ++ [.fresh] } w := fun w hw => by
    obtain ⟨v, hv, hquitting⟩ := id hw
    exact ⟨v, (hold w hw.lt).trans hv, hquitting⟩
  have hnew : ∀ w, Server.Live { s with users := s.users ++ [.fresh] } w → s.Live w ∨ w = s.users.length := fun w hw => by
    obtain ⟨v, hv, hquitting⟩ := id hw
    have hlt := hw.lt
    rw [List.length_append, List.length_singleton] at hlt
    rcases Nat.lt_succ_iff_lt_or_eq.mp hlt with hlt | rfl
    · exact .inl ⟨v, (hold w hlt).symm.trans hv, hquitting⟩
    · exact .inr rfl
  have hchans : ∀ w, s.Live w → Server.chansOf { s with users := s.users ++ [.fresh] } w = s.chansOf w := fun w hw => by
    unfold Server.chansOf
    rw [hold w hw.lt]
  have hfresh : Server.chansOf { s with users := s.users ++ [.fresh] } s.users.length = [] := by
    simp [Server.chansOf, User.fresh]
  refine ⟨⟨h.linked.nodup, fun d w hw => hlive w (h.linked.live d w hw), fun w hw => ?_, fun w hw d => ?_⟩,
    ⟨h.named.distinct, h.named.named⟩, h.populated, ?_⟩
  · rcases hnew w hw with hw | rfl
    · exact hchans w hw ▸ h.linked.chans w hw
    · simp [hfresh]
  · rcases hnew w hw with hw | rfl
    · rw [hchans w hw]
      exact h.linked.linked w hw d
    · rw [hfresh]
      refine iff_of_false List.not_mem_nil fun hmem => ?_
      exact Nat.lt_irrefl _ (h.linked.live d _ hmem).lt
  · exact List.forall_mem_append.mpr ⟨h.logins, by simp [User.fresh]⟩

theorem sender_live {u : User} (hsender : s.sender i = some u) : s.Live i := by
  obtain ⟨hu, hlive⟩ := Option.filter_eq_some_iff.mp hsender
  exact ⟨u, hu, by simp_all⟩

theorem Invariant.next (hooks : List Hook) (h : Invariant s) {e : Event} (hn : next hooks s e = some t) :
    Invariant t := by
  cases e with
  | accept => exact Option.some.inj hn ▸ h.accept
  | login i login =>
    simp only [Channels.next] at hn
    split at hn
    · simp at hn
    · rename_i u hu
      split_ifs at hn with hrefused
      have hlogged := h.modify (i := i) (f := fun u => { u with login, listed := true }) (fun _ => rfl) (fun _ => rfl)
      refine Option.some.inj hn ▸ (hlogged ?_).invariant
      intro v hv _
      obtain rfl : u = v := Option.some.inj (hu.symm.trans hv)
      simp_all
  | ready i chans =>
    simp only [Channels.next] at hn
    split at hn
    · simp at hn
    · rename_i u hu
      split_ifs at hn with hrefused
      have hlive : s.Live i := ⟨u, hu, by simp_all⟩
      have hready := h.modify (i := i) (f := fun u => { u with registered := true }) (fun _ => rfl) (fun _ => rfl)
        fun v hv hlisted => h.logins v (List.mem_of_getElem? hv) hlisted
      exact (onward_foldlM (fun _ => i) (fun s chan t h hlive hj => (h.joinOverride hlive hj).toOnward) _
        hready.invariant (fun _ _ => (hready.live i).mpr hlive) hn).invariant
  | disconnect i => exact Option.some.inj hn ▸ h.disconnect i
  | settings allowchans chansync =>
    refine Option.some.inj hn ▸ ⟨⟨?_, ?_, ?_, ?_⟩, ⟨?_, ?_⟩, ?_, ?_⟩
    · exact h.linked.nodup
    · exact h.linked.live
    · exact h.linked.chans
    · exact h.linked.linked
    · exact h.named.distinct
    · exact h.named.named
    · exact h.populated
    · exact h.logins
  | rights i canExecute =>
    refine Option.some.inj hn ▸ (h.modify (f := fun u => { u with canExecute }) (fun _ => rfl) (fun _ => rfl) ?_).invariant
    exact fun v hv hlisted => h.logins v (List.mem_of_getElem? hv) hlisted
  | join i parameter extra =>
    obtain ⟨u, hu, hn⟩ := Option.bind_eq_some_iff.mp hn
    exact (onward_foldlM (fun _ => i) (fun s channel t h hlive hj => join_onward hooks h hlive hj) _ h
      (fun _ _ => sender_live hu) hn).invariant
  | part i parameter =>
    obtain ⟨u, hu, rfl⟩ := Option.map_eq_some_iff.mp hn
    exact (onward_foldl (fun s channel h => part_onward h u.login channel) _ h).invariant
  | partAll i =>
    obtain ⟨u, hu, rfl⟩ := Option.map_eq_some_iff.mp hn
    exact (onward_foldl (fun s chan h => h.partUser chan i) _ h).invariant
  | hop i parameter =>
    obtain ⟨u, hu, hn⟩ := Option.bind_eq_some_iff.mp hn
    exact (onward_foldlM (fun _ => i) (fun s channel t h hlive hj => hop_onward h hlive hj) _ h
      (fun _ _ => sender_live hu) hn).invariant

theorem Invariant.start (hooks : List Hook) (hstart : (machine hooks).initial s) : Invariant s := by
  obtain ⟨hchannels, hlist, husers⟩ := hstart
  have hsubscribed : ∀ d, s.subscribed d = [] := fun d => by simp [Server.subscribed, hchannels]
  have hdead : ∀ w, ¬s.Live w := fun w hw => by simpa [husers] using hw.lt
  constructor
  · constructor
    · simp [hsubscribed]
    · simp [hsubscribed]
    · exact fun w hw => absurd hw (hdead w)
    · exact fun w hw => absurd hw (hdead w)
  · constructor
    · simp [hlist, Keyed.Distinct]
    · simp [hlist]
  · intro d
    simp [hlist, hsubscribed]
  · simp [LoginsLive, husers]

end commands

/-! ## Every run -/

/-- Channels, clients and ChannelList tell the same about who is subscribed where. -/
structure Coherent (s : Server) : Prop where
  subscribed : ∀ u (user : User), s.users[u]? = some user → user.quitting = false →
    ∀ c (chan : Channel), s.channels[c]? = some chan → (u ∈ chan.subscribedlist ↔ user.chans.count c = 1)
  listed : ∀ c (chan : Channel), s.channels[c]? = some chan →
    ((∃ name, (name, c) ∈ s.channelList) ↔ chan.subscribedlist ≠ [])
  named : ∀ p ∈ s.channelList, ∃ chan, s.channels[p.2]? = some chan ∧ chan.name = p.1
  distinct : s.channelList.Pairwise fun p q => equals s.charmap p.1 q.1 = false
  gone : ∀ u (user : User), s.users[u]? = some user → user.quitting → ∀ chan ∈ s.channels, u ∉ chan.subscribedlist

theorem Invariant.coherent {s : Server} (h : Invariant s) : Coherent s := by
  have hsubscribed : ∀ {c chan}, s.channels[c]? = some chan → s.subscribed c = chan.subscribedlist := fun hchan => by
    simp [Server.subscribed, hchan]
  constructor
  · intro u user huser hlive c chan hchan
    have hchans : s.chansOf u = user.chans := by simp [Server.chansOf, huser]
    have hlinked := h.linked.linked u ⟨user, huser, hlive⟩ c
    have hnodup := h.linked.chans u ⟨user, huser, hlive⟩
    rw [hchans] at hlinked hnodup
    rw [← hsubscribed hchan, ← hlinked]
    constructor
    · exact List.count_eq_one_of_mem hnodup
    · intro hcount
      exact List.count_pos_iff.mp (by omega)
  · intro c chan hchan
    rw [← hsubscribed hchan, ← h.populated c]
    constructor
    · rintro ⟨name, hmem⟩
      exact ⟨_, hmem, rfl⟩
    · rintro ⟨p, hmem, rfl⟩
      exact ⟨p.1, hmem⟩
  · exact fun p hp => Option.map_eq_some_iff.mp (h.named.named p hp)
  · exact h.named.distinct.imp fun hne => beq_eq_false_iff_ne.mpr hne
  · intro u user huser hquitting chan hchan hmem
    obtain ⟨c, hc⟩ := List.mem_iff_getElem?.mp hchan
    obtain ⟨v, hv, hlive⟩ := h.linked.live c u (by rwa [hsubscribed hc])
    obtain rfl : user = v := Option.some.inj (huser.symm.trans hv)
    simp [hquitting] at hlive

/-- In every state of every run, whatever modules ask about joins. -/
theorem subscriptions_coherent (hooks : List Hook) {s : Server} (h : (machine hooks).Reachable s) : Coherent s := by
  refine Invariant.coherent ?_
  induction h with
  | initial hstart => exact .start hooks hstart
  | step _ _ hn ih => exact ih.next hooks hn

/-- Two connections of a login join, hop in other letters, part and leave. -/
theorem subscriptions_coherent_run : ∃ s, (machine []).Reachable s ∧
    s.users.map (·.chans) = [[0, 2], [4, 3]] ∧ s.channels.map (·.subscribedlist) = [[], [], [], [1], [1]] ∧
    Coherent s := by
  have h : ((machine []).exec (fun _ _ => True) ⟨.brld1459, true, true, [], [], []⟩ [.accept, .accept, .login 0 (lit "bob"),
      .login 1 (lit "bob"), .ready 0 [], .ready 1 [], .join 0 (lit "#a,#B,#A,#a]") false, .hop 0 (lit "#A"),
      .part 1 (lit "#b"), .disconnect 0, .hop 1 (lit "#A,#a\x7d")]).any (fun s =>
        s.users.map (·.chans) = [[0, 2], [4, 3]] ∧ s.channels.map (·.subscribedlist) = [[], [], [], [1], [1]]) := by
    decide +kernel
  obtain ⟨s, hr, hchans, hlists⟩ := Machine.exec_holds h (.initial ⟨rfl, rfl, rfl⟩)
  exact ⟨s, hr, hchans, hlists, subscriptions_coherent [] hr⟩

/-! ## Commands that cannot stop the daemon -/

section survival

variable {s : Server} {u : ℕ}

/-- A join succeeds when the modules before it either stop it or leave the server alone. -/
theorem joinWith_survives {preJoin : Server → Bool → Bytes → Option (Server × Bool)} (cname : Bytes)
    (hpre : ∀ found cname, ∃ t stop, preJoin s found cname = some (t, stop) ∧ (stop = false → t = s)) :
    (s.joinWith preJoin u cname).isSome := by
  unfold Server.joinWith
  dsimp only
  split
  · rfl
  · cases hfind : s.find (cname.take 15) with
    | none =>
      obtain ⟨t, stop, ht, hsame⟩ := hpre false (cname.take 15)
      dsimp only
      split
      · rfl
      · cases stop with
        | true => simp [ht]
        | false =>
          obtain rfl := hsame rfl
          simp [ht, hfind, Server.newChannel, Server.executeJoin, Server.isSubscribed, Server.subscribed]
    | some chan =>
      obtain ⟨t, stop, ht, hsame⟩ := hpre true (cname.take 15)
      dsimp only
      split
      · rfl
      · rename_i hnot
        cases stop with
        | true => simp [ht]
        | false =>
          obtain rfl := hsame rfl
          simp [ht, Server.executeJoin, hnot]

theorem joinOverride_survives (s : Server) (u : ℕ) (cname : Bytes) : (s.joinOverride u cname).isSome :=
  joinWith_survives cname fun _ _ => ⟨s, false, rfl, fun _ => rfl⟩

/-- Only a chain lets the join go on after another join. -/
theorem preJoin_survives (hooks : List Hook) (hchain : ∀ chain, Hook.chainJoin chain ∉ hooks) (found : Bool)
    (cname : Bytes) : ∃ t stop, Server.preJoin u hooks s found cname = some (t, stop) ∧ (stop = false → t = s) := by
  induction hooks with
  | nil => exact ⟨s, false, rfl, fun _ => rfl⟩
  | cons hook hooks ih =>
    have ih := ih fun chain hmem => hchain chain (List.mem_cons_of_mem _ hmem)
    cases hook with
    | chanRestrict =>
      simp only [Server.preJoin]
      split_ifs
      · exact ⟨s, true, rfl, by simp⟩
      · exact ih
    | chainJoin chain => exact absurd List.mem_cons_self (hchain chain)
    | forward forwards =>
      simp only [Server.preJoin]
      split
      · exact ih
      · rename_i target _
        obtain ⟨t, ht⟩ := Option.isSome_iff_exists.mp (joinOverride_survives s u target)
        exact ⟨t, true, by simp [ht], by simp⟩

theorem foldlM_survives {α : Type} {f : Server → α → Option Server} (hf : ∀ s a, (f s a).isSome) (as : List α)
    (s : Server) : (as.foldlM f s).isSome := by
  induction as generalizing s with
  | nil => rfl
  | cons a as ih =>
    obtain ⟨t, ht⟩ := Option.isSome_iff_exists.mp (hf s a)
    simpa [List.foldlM_cons, ht] using ih t

theorem join_survives (hooks : List Hook) (hchain : ∀ chain, Hook.chainJoin chain ∉ hooks) (s : Server)
    (login channel : Bytes) : (join hooks s u login channel).isSome := by
  unfold join
  split_ifs
  · rfl
  · rfl
  · obtain ⟨t, ht⟩ := Option.isSome_iff_exists.mp
      (joinWith_survives (u := u) channel (preJoin_survives (s := s) hooks hchain))
    have ht : s.joinUser hooks u channel = some t := ht
    simp only [ht, Option.bind_eq_bind, Option.bind_some]
    split_ifs
    · refine foldlM_survives (fun s user => ?_) _ t
      split_ifs
      · rfl
      · exact joinOverride_survives s user channel
    · rfl

theorem hop_survives (s : Server) (channel : Bytes) : (hop s u channel).isSome := by
  unfold hop
  split
  · rfl
  · split_ifs
    · exact joinOverride_survives _ u channel
    · rfl

/-- Without a chain of the configuration no command of a registered client stops the daemon. -/
theorem commands_survive (hooks : List Hook) (hchain : ∀ chain, Hook.chainJoin chain ∉ hooks)
    (hsender : (s.sender u).isSome) (parameter : Bytes) (extra : Bool) :
    (next hooks s (.join u parameter extra)).isSome ∧ (next hooks s (.part u parameter)).isSome ∧
      (next hooks s (.partAll u)).isSome ∧ (next hooks s (.hop u parameter)).isSome := by
  obtain ⟨user, huser⟩ := Option.isSome_iff_exists.mp hsender
  simp only [next, huser, Option.bind_some, Option.map_some, Option.isSome_some, true_and]
  constructor
  · exact foldlM_survives (fun s channel => join_survives hooks hchain s user.login channel) _ s
  · exact foldlM_survives (fun s channel => hop_survives s channel) _ s

end survival

end BerylDB.Channels
