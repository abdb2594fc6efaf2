import BerylDB.Neighbors
import BerylDB.Settings
import Mathlib.Algebra.BigOperators.Group.List.Basic

/-! # Publications

PUBLISH of `core_publish.cpp`: the targets of a comma list are channels, clients and masks of the server, and every
subscriber of a channel but the one who publishes gets one copy, in whatever letters and however often it is named. -/
namespace BerylDB.Channels
open Text Transition

/-- What the tables of instances and groups say when the command is handled. -/
structure Directory where
  findInstanceOnly : Bytes → Option ℕ
  instanceName : ℕ → Bytes
  serverName : Bytes
  inGroup : ℕ → UInt8 → Bool

inductive Target where
  | channel (chan : ℕ)
  | client (user : ℕ)
  | server
deriving DecidableEq

/-- A `Messages::Publish` on its way to a client. -/
structure Publication where
  dest : ℕ
  source : ℕ
  target : Target
  text : Bytes
deriving DecidableEq

namespace Hub

variable (h : Hub) (d : Directory)

/-- The parameters of the message; the target of a channel is its name. -/
def params (p : Publication) : List Bytes :=
  [match p.target with
    | .channel chan => (h.server.channels[chan]?.map (·.name)).getD []
    | .client user => d.instanceName user
    | .server => lit "$*", p.text]

/-- `OnInstancePrePublish` of `core_publish` lets the channel have it. -/
def opens (user chan : ℕ) : Bool :=
  chan ∉ h.muted && (d.inGroup user 112 || h.admin user || h.server.isSubscribed chan user)

/-- `HandleChannelTarget` with `Channel::Write`. -/
def channelTarget (user : ℕ) (target text : Bytes) : List Publication :=
  match h.server.find target with
  | none => []
  | some chan =>
    if h.opens d user chan then
      ((h.server.subscribed chan).filter (· ≠ user)).map fun dest => ⟨dest, user, .channel chan, text⟩
    else []

/-- `HandleServerTarget`, for the mask behind the dollar. -/
def serverTarget (user : ℕ) (target text : Bytes) : List Publication :=
  if !h.admin user then []
  else if matchMask h.server.charmap d.serverName (target.drop 1) then
    let others := (List.range h.server.users.length).reverse.filter fun dest =>
      h.isLocal dest && h.server.users[dest]?.any (·.registered) && dest ≠ user
    others.map fun dest => ⟨dest, user, .server, text⟩
  else []

/-- `HandleUserTarget` of a local client: behind an at sign stands the name of the server. -/
def userTarget (user : ℕ) (target text : Bytes) : List Publication :=
  let found := if 64 ∈ target then
      (d.findInstanceOnly (target.takeWhile (· ≠ 64))).filter fun _ =>
        Store.equalsci d.serverName ((target.dropWhile (· ≠ 64)).drop 1)
    else d.findInstanceOnly target
  match found with
  | none => []
  | some dest => if h.server.users[dest]?.any (·.registered) then [⟨dest, user, .client dest, text⟩] else []

/-- `CommandMessage::Handle` on one target. -/
def publishTo (user : ℕ) (text target : Bytes) : List Publication :=
  if text = [] then []
  else if target.head? = some 36 then h.serverTarget d user target text
  else if target = [] then []
  else if target.head? = some 35 then h.channelTarget d user target text
  else if !d.inGroup user 99 && !h.admin user then []
  else h.userTarget d user target text

/-- PUBLISH with the loop of `HasLoop` over its first parameter. -/
def publish (user : ℕ) (parameter text : Bytes) : List Publication :=
  (loopItems h.server.charmap parameter true true).flatMap (h.publishTo d user text)

/-- The targets that are looked at. -/
def targets (parameter : Bytes) : List Bytes :=
  if 44 ∈ parameter then (tokens 44 parameter).take maxDest else [parameter]

end Hub

/-! ## Lists without dupes -/

section
variable {charmap : CharMap} {items : List Bytes} {item other : Bytes}

theorem withoutDupes_pairwise (charmap : CharMap) (items : List Bytes) :
    (withoutDupes charmap items).Pairwise fun item other => equals charmap item other = false := by
  induction items with
  | nil => exact .nil
  | cons item items ih =>
    refine List.pairwise_cons.mpr ⟨fun other kept => ?_, ih.filter _⟩
    simpa using (List.mem_filter.mp kept).2

theorem mem_of_mem_withoutDupes (kept : item ∈ withoutDupes charmap items) : item ∈ items := by
  induction items with
  | nil => exact kept
  | cons first items ih =>
    rcases List.mem_cons.mp kept with rfl | later
    · exact List.mem_cons_self
    · exact List.mem_cons_of_mem _ (ih (List.mem_filter.mp later).1)

/-- Every item is kept, or one that equals it. -/
theorem kept_withoutDupes (here : item ∈ items) : ∃ other ∈ withoutDupes charmap items, equals charmap other item = true := by
  induction items with
  | nil => simp at here
  | cons first items ih =>
    by_cases same : equals charmap first item = true
    · exact ⟨first, List.mem_cons_self, same⟩
    · rcases List.mem_cons.mp here with rfl | later
      · simp at same
      · obtain ⟨other, kept, equal⟩ := ih later
        refine ⟨other, List.mem_cons_of_mem _ (List.mem_filter.mpr ⟨kept, ?_⟩), equal⟩
        simp only [Bool.not_eq_true']
        refine Bool.eq_false_iff.mpr fun first => same ?_
        simp only [equals, beq_iff_eq] at first equal ⊢
        exact first.trans equal

theorem equals_head (same : equals charmap item other = true) : item.head? = some 35 ↔ other.head? = some 35 := by
  have sharp (s : Bytes) : s.head? = some 35 ↔ (s.map charmap.get).head? = some 35 := by
    have first (c : UInt8) : charmap.get c = 35 ↔ c = 35 := CharMap.get_eq_symbol (by decide)
    cases s <;> simp [first]
  rw [sharp item, sharp other, beq_iff_eq.mp same]

theorem find_equals {s : Server} (same : equals s.charmap item other = true) : s.find item = s.find other := by
  simp only [equals, beq_iff_eq] at same
  simp only [Server.find, equals, same]

/-- Names of one channel equal each other. -/
theorem Named.equals_of_find {s : Server} {c : ℕ} (h : Named s) (found : s.find item = some c)
    (found' : s.find other = some c) : equals s.charmap item other = true := by
  obtain ⟨p, inside, key_p, rfl⟩ := h.find_iff.mp found
  obtain ⟨q, inside', key_q, same⟩ := h.find_iff.mp found'
  have names : p.1 = q.1 := by
    have bears := h.named q inside'
    rw [same, h.named p inside] at bears
    exact Option.some.inj bears
  rw [equals, beq_iff_eq, ← key_p, ← key_q, key, key, names]

theorem count_flatMap_of_each {α β : Type} [BEq β] {f : α → List β} {b : β} {p : α → Bool}
    (each : ∀ a, (f a).count b = if p a then 1 else 0) (l : List α) : (l.flatMap f).count b = l.countP p := by
  induction l with
  | nil => rfl
  | cons a l ih => rw [List.flatMap_cons, List.count_append, List.countP_cons, ih, each, Nat.add_comm]

/-- Of conditions that exclude each other at most one is counted. -/
theorem countP_exclusive {α : Type} {p : α → Bool} {l : List α}
    (exclusive : l.Pairwise fun a b => ¬ (p a = true ∧ p b = true)) :
    l.countP p = if l.any p then 1 else 0 := by
  induction l with
  | nil => rfl
  | cons a l ih =>
    obtain ⟨first, rest⟩ := List.pairwise_cons.mp exclusive
    rw [List.countP_cons, ih rest]
    by_cases holds : p a = true
    · have none : l.any p = false := by
        simp only [List.any_eq_false]
        exact fun b here also => first b here ⟨holds, also⟩
      simp [holds, none]
    · simp [holds]

end

namespace Hub
variable {h : Hub} {d : Directory} {u c w : ℕ} {parameter text item : Bytes}

theorem count_filter_map (nodup : (h.server.subscribed c).Nodup) :
    (((h.server.subscribed c).filter (· ≠ u)).map fun dest => (⟨dest, u, .channel c, text⟩ : Publication)).count
      ⟨w, u, .channel c, text⟩ = if w ≠ u ∧ w ∈ h.server.subscribed c then 1 else 0 := by
  have injective : Function.Injective fun dest => (⟨dest, u, .channel c, text⟩ : Publication) := fun a b same => by
    injection same
  rw [List.count_map_of_injective _ _ injective, (nodup.filter _).count]
  simp [List.mem_filter, and_comm]

/-- `w` is another subscriber of the channel, and the sender may write to it. -/
def gets (h : Hub) (d : Directory) (u c w : ℕ) : Bool := w ≠ u && h.server.isSubscribed c w && h.opens d u c

/-- The target is the channel. -/
def isName (h : Hub) (c : ℕ) (item : Bytes) : Bool := item.head? = some 35 && h.server.find item = some c

/-- What a target brings to a subscriber of a channel. -/
theorem count_publishTo (nodup : (h.server.subscribed c).Nodup) (some_text : text ≠ []) :
    (h.publishTo d u text item).count ⟨w, u, .channel c, text⟩ =
      if (h.gets d u c w && h.isName c item) = true then 1 else 0 := by
  simp only [gets, isName, Server.isSubscribed, Bool.and_eq_true, decide_eq_true_eq]
  unfold publishTo
  rw [if_neg some_text]
  split
  · rename_i dollar
    have none : (⟨w, u, .channel c, text⟩ : Publication) ∉ h.serverTarget d u item text := by
      unfold serverTarget
      split
      · simp
      · split <;> simp
    rw [List.count_eq_zero_of_not_mem none, if_neg]
    simp [dollar]
  · split
    · rename_i empty
      simp [empty]
    · split
      · rename_i sharp
        unfold channelTarget
        cases found : h.server.find item with
        | none => simp
        | some chan =>
          by_cases same : chan = c
          · subst same
            by_cases opens : h.opens d u chan = true
            · dsimp only
              rw [if_pos opens, count_filter_map nodup]
              simp [opens, sharp]
            · simp [opens]
          · dsimp only
            split
            · have none : (⟨w, u, .channel c, text⟩ : Publication) ∉
                  ((h.server.subscribed chan).filter (· ≠ u)).map fun dest => ⟨dest, u, .channel chan, text⟩ := by
                simp [same]
              rw [List.count_eq_zero_of_not_mem none, if_neg]
              simp [same]
            · simp [same]
      · rename_i sharp
        refine Eq.trans (List.count_eq_zero_of_not_mem ?_) (if_neg fun holds => sharp holds.2.1).symm
        split
        · simp
        · unfold userTarget
          dsimp only
          split
          · simp
          · split <;> simp

theorem any_loopItems :
    (loopItems h.server.charmap parameter true true).any (h.isName c) = (targets parameter).any (h.isName c) := by
  unfold loopItems targets
  split
  · rw [Bool.eq_iff_iff]
    simp only [List.any_eq_true, if_true]
    constructor
    · exact fun h => h.imp fun item holds => ⟨mem_of_mem_withoutDupes holds.1, holds.2⟩
    · rintro ⟨item, here, named⟩
      obtain ⟨other, kept, same⟩ := kept_withoutDupes here
      refine ⟨other, kept, ?_⟩
      simpa only [isName, equals_head same, find_equals same] using named
  · rfl

/-- Of the targets that are kept only one is the channel. -/
theorem loopItems_exclusive (named : Named h.server) :
    (loopItems h.server.charmap parameter true true).Pairwise fun item other =>
    ¬ (h.isName c item = true ∧ h.isName c other = true) := by
  have differ : (loopItems h.server.charmap parameter true true).Pairwise fun item other =>
      equals h.server.charmap item other = false := by
    unfold loopItems
    split
    · exact withoutDupes_pairwise _ _
    · exact List.pairwise_singleton ..
  refine differ.imp fun {item other} differ both => ?_
  simp only [isName, Bool.and_eq_true, decide_eq_true_eq] at both
  simp [named.equals_of_find both.1.2 both.2.2] at differ

/-- Every subscriber of a channel that PUBLISH names gets the text once, if the channel is not muted and the sender may
write to it, and nobody else gets it from that channel. -/
theorem published_once (hooks : List Hook) (reach : (machine hooks).Reachable h) (some_text : text ≠ []) :
    (h.publish d u parameter text).count ⟨w, u, .channel c, text⟩ =
      if (h.gets d u c w && (targets parameter).any (h.isName c)) = true then 1 else 0 := by
  have kept := (reachable_kept reach).invariant
  unfold publish
  rw [count_flatMap_of_each fun item => count_publishTo (kept.linked.nodup c) some_text, countP_exclusive]
  · cases gets : h.gets d u c w <;> simp [← any_loopItems]
  · refine (loopItems_exclusive (c := c) kept.named).imp fun exclusive both => exclusive ?_
    simp only [Bool.and_eq_true] at both
    exact ⟨both.1.2, both.2.2⟩

/-- The channel is named twice, in other letters. -/
theorem published_once_two : ∃ h, (machine []).Reachable h ∧
    (h.publish ⟨fun _ => none, fun _ => [], lit "server", fun _ _ => false⟩ 0 (lit "#a,#A,#b") (lit "text")).count
      ⟨1, 0, .channel 0, lit "text"⟩ = 1 := by
  have start : (machine []).initial ⟨⟨.brld1459, true, false, [], [], []⟩, fun _ => false, [], ⟨fun _ => 0, 0⟩, []⟩ :=
    ⟨⟨rfl, rfl, rfl⟩, rfl, rfl, rfl⟩
  have h : ((machine []).exec (fun _ _ => True)
      ⟨⟨.brld1459, true, false, [], [], []⟩, fun _ => false, [], ⟨fun _ => 0, 0⟩, []⟩
      [.channels .accept, .channels .accept, .channels (.ready 0 [lit "#a"]), .channels (.ready 1 [lit "#A"])]).any
      fun h => (h.gets ⟨fun _ => none, fun _ => [], lit "server", fun _ _ => false⟩ 0 0 1 &&
        (targets (lit "#a,#A,#b")).any (h.isName 0)) = true := by decide +kernel
  obtain ⟨h, reach, gets⟩ := Machine.exec_holds h (.initial start)
  exact ⟨h, reach, (published_once [] reach (by decide +kernel)).trans (if_pos gets)⟩

end Hub
end BerylDB.Channels
