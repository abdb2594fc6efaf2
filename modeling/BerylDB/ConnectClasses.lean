import BerylDB.CaseOrder
import BerylDB.ConfigRules
import BerylDB.Generations
import BerylDB.PortLists
import BerylDB.Settings

/-! # Connect classes

`Configuration::CrossCheckConnectBlocks`, which makes a class of each connect block once the class of its parent is
there, and the constructors of `ConfigConnect`. -/
namespace BerylDB.Config
open Text

structure ConfigRule (charmap : CharMap) where
  tag : Bytes
  srcName : Bytes
  srcLine : ℕ
  items : Items
  sorted : FlatMap.Sorted charmap.key (items.map Prod.fst)

variable {charmap : CharMap}

namespace ConfigRule

def create (tag file : Bytes) (line : ℕ) : ConfigRule charmap := ⟨tag, file, line, [], .nil⟩

/-- `(*items)[key] = value`. -/
def set (rule : ConfigRule charmap) (key value : Bytes) : ConfigRule charmap :=
  { rule with
    items := FlatMap.set charmap.insensitiveSwo rule.items key value
    sorted := FlatMap.sorted_set (CharMap.insensitiveSwo_iff charmap) rule.sorted }

def getTagLocation (rule : ConfigRule charmap) : Bytes := rule.srcName ++ 58 :: convtoString rule.srcLine

def parentName (rule : ConfigRule charmap) : Bytes := asString rule.items (lit "parent") []

def name (rule : ConfigRule charmap) : Bytes := asString rule.items (lit "name") []

/-- The value of a key. -/
def value (rule : ConfigRule charmap) (key : Bytes) : Option Bytes :=
  (FlatMap.find charmap.insensitiveSwo rule.items key).map Prod.snd

end ConfigRule

inductive ClassType where
  | ccAllow
  | ccDeny
  | ccNamed
deriving DecidableEq

structure ConfigConnect (charmap : CharMap) where
  config : ConfigRule charmap
  type : ClassType
  name : Bytes
  host : Bytes
  ports : Finset ℤ

namespace ConfigConnect

def ofTag (tag : ConfigRule charmap) (type : ClassType) (mask : Bytes) : ConfigConnect charmap :=
  ⟨tag, type, lit "undefined", mask, ∅⟩

/-- The keys that a block does not have from its parent. -/
def ownKey (key : Bytes) : Bool := Store.equalsci key (lit "name") || Store.equalsci key (lit "parent")

/-- The constructor with a parent, of which the ports stay. -/
def ofParent (tag : ConfigRule charmap) (type : ClassType) (mask : Bytes) (parent : ConfigConnect charmap) :
    ConfigConnect charmap :=
  let items := ConfigRule.create tag.tag tag.srcName tag.srcLine
  let items := parent.config.items.foldl
    (fun items piter => if ownKey piter.1 then items else items.set piter.1 piter.2) items
  let items := tag.items.foldl (fun items citer => items.set citer.1 citer.2) items
  { parent with config := items, type, name := lit "undefined", host := mask }

end ConfigConnect

/-- The loop over the ports of a class, of which an `int` keeps 32 bits; `none` when the fuel does not reach its end. -/
def insertPorts : ℕ → Ports.PortTemplate → Finset ℤ → Option (Finset ℤ)
  | 0, _, _ => none
  | fuel + 1, portrange, ports => do
    let (port, portrange) ← portrange.itemsExtract
    if toSigned port = 0 then return ports else insertPorts fuel portrange (insert (toSigned port) ports)

/-- The calls that a list of ports can take. -/
def portCalls (ports : Bytes) : ℕ := (tokens 44 ports).length * 2 ^ 64 + 1

structure Resolution (charmap : CharMap) where
  classes : List (Option (ConfigConnect charmap))
  names : List (Bytes × ℕ)
  tryAgain : Bool

/-- What a block is for, and its mask. -/
def connectMask (tag : ConfigRule charmap) : Option (ClassType × Bytes) :=
  match readString tag.items (lit "allow") false with
  | some mask => some (.ccAllow, mask)
  | none =>
    match readString tag.items (lit "deny") false with
    | some mask => some (.ccDeny, mask)
    | none => if tag.name ≠ [] then some (.ccNamed, tag.name) else none

def effectiveName (i : ℕ) (tag : ConfigRule charmap) : Bytes :=
  if tag.name = [] then lit "undefined-" ++ convtoString i else tag.name

/-- The part of the loop that makes the class of a block. -/
def makeClass (r : Resolution charmap) (i : ℕ) (tag : ConfigRule charmap) (parent : Option (ConfigConnect charmap)) :
    Option (Except Bytes (Resolution charmap)) :=
  match connectMask tag with
  | none => some (.error (lit "Connects are required to have allow, deny, or name specified at " ++ tag.getTagLocation))
  | some (type, mask) =>
    let name := effectiveName i tag
    if (r.names.lookup name).isSome then some (.error (lit "Two classes with same name: \"" ++ name ++ lit "\" found."))
    else
      let me : ConfigConnect charmap := match parent with
        | some parent => .ofParent tag type mask parent
        | none => .ofTag tag type mask
      let ports := asString tag.items (lit "port") []
      let inserted := if ports = [] then some me.ports
        else insertPorts (portCalls ports) (.ofSource ports false) me.ports
      inserted.map fun ports => .ok
        { r with classes := r.classes.set i (some { me with name, ports }), names := (name, i) :: r.names }

/-- One block of a pass. -/
def checkBlock (connectCounts attempts : ℕ) (r : Resolution charmap) (i : ℕ) (tag : ConfigRule charmap) :
    Option (Except Bytes (Resolution charmap)) :=
  if (r.classes[i]?.join).isSome then some (.ok r)
  else if tag.parentName ≠ [] then
    match r.names.lookup tag.parentName with
    | none =>
      if connectCounts ≤ attempts then
        some (.error (lit "Could not find parent connect class \"" ++ tag.parentName ++ lit "\" for connect block at " ++
          tag.getTagLocation))
      else some (.ok { r with tryAgain := true })
    | some parentIter => makeClass r i tag (r.classes[parentIter]?.join)
  else makeClass r i tag none

/-- One pass over the blocks from the position `i` on. -/
def checkPass (connectCounts attempts : ℕ) :
    Resolution charmap → (i : ℕ) → List (ConfigRule charmap) → Option (Except Bytes (Resolution charmap))
  | r, _, [] => some (.ok r)
  | r, i, tag :: tags =>
    match checkBlock connectCounts attempts r i tag with
    | some (.ok r) => checkPass connectCounts attempts r (i + 1) tags
    | stop => stop

/-- The passes, at most as many as the fuel. -/
def checkPasses (blocks : List (ConfigRule charmap)) :
    (fuel attempts : ℕ) → Resolution charmap → Option (Except Bytes (Resolution charmap))
  | 0, _, _ => none
  | fuel + 1, attempts, r =>
    match checkPass blocks.length attempts { r with tryAgain := false } 0 blocks with
    | some (.ok r) => if r.tryAgain then checkPasses blocks fuel (attempts + 1) r else some (.ok r)
    | stop => stop

def autoBlock (charmap : CharMap) : ConfigRule charmap :=
  (ConfigRule.create (lit "connect") (lit "<auto>") 0).set (lit "allow") (lit "*")

/-- `Configuration::CrossCheckConnectBlocks`; `none` would be a run that does not end. -/
def crossCheckConnectBlocks (blocks : List (ConfigRule charmap)) :
    Option (Except Bytes (List (Option (ConfigConnect charmap)))) :=
  let blocks := if blocks = [] then [autoBlock charmap] else blocks
  (checkPasses blocks (blocks.length + 1) 0 ⟨.replicate blocks.length none, [], true⟩).map (Except.map Resolution.classes)

/-! ## What is resolved -/

/-- The block `j` has the name that the block `i` gives of its parent. -/
def IsParent (blocks : List (ConfigRule charmap)) (i j : ℕ) : Prop :=
  ∃ tag tag', blocks[i]? = some tag ∧ blocks[j]? = some tag' ∧
  tag.parentName ≠ [] ∧ effectiveName j tag' = tag.parentName

/-- The values of a block, laid over those that its parent resolves to. -/
inductive Resolved (blocks : List (ConfigRule charmap)) : ℕ → (Bytes → Option Bytes) → Prop
  | root {i : ℕ} {tag : ConfigRule charmap} : blocks[i]? = some tag → tag.parentName = [] → Resolved blocks i tag.value
  | child {i j : ℕ} {tag : ConfigRule charmap} {values : Bytes → Option Bytes} : blocks[i]? = some tag → IsParent blocks i j →
      Resolved blocks j values →
      Resolved blocks i fun key => (tag.value key).or (if ConfigConnect.ownKey key then none else values key)

structure ClassOf (blocks : List (ConfigRule charmap)) (i : ℕ) (cls : ConfigConnect charmap) : Prop where
  named : ∃ tag, blocks[i]? = some tag ∧ cls.name = effectiveName i tag
  resolved : Resolved blocks i cls.config.value

structure Resolvable (blocks : List (ConfigRule charmap)) : Prop where
  parents : ∀ i tag, blocks[i]? = some tag → tag.parentName ≠ [] → ∃ j, IsParent blocks i j
  acyclic : ∀ i, ¬ Relation.TransGen (IsParent blocks) i i

def Distinct (blocks : List (ConfigRule charmap)) : Prop :=
  ∀ i j tag tag', blocks[i]? = some tag → blocks[j]? = some tag' →
  effectiveName i tag = effectiveName j tag' → i = j

def Done (r : Resolution charmap) (i : ℕ) : Prop := ∃ cls, r.classes[i]? = some (some cls)

structure Consistent (blocks : List (ConfigRule charmap)) (r : Resolution charmap) : Prop where
  length : r.classes.length = blocks.length
  classOf : ∀ i cls, r.classes[i]? = some (some cls) → ClassOf blocks i cls
  names : ∀ name i, r.names.lookup name = some i ↔
    ∃ tag, Done r i ∧ blocks[i]? = some tag ∧ effectiveName i tag = name

/-- The parent that a block names is done. -/
def Ready (blocks : List (ConfigRule charmap)) (r : Resolution charmap) (i : ℕ) : Prop :=
  ∀ tag, blocks[i]? = some tag → tag.parentName ≠ [] → ∃ j, IsParent blocks i j ∧ Done r j

section items
variable {rule parent tag : ConfigRule charmap} {items : Items}

theorem map_toLower_eq_iff (charmap : CharMap) {s w : Bytes} (letters : ∀ l ∈ w, isLower l = true) :
    s.map toLower = w ↔ s.map charmap.get = w := by
  induction s generalizing w with
  | nil => rfl
  | cons c s ih =>
    cases w with
    | nil => simp
    | cons l w =>
      obtain ⟨first, letters⟩ := List.forall_mem_cons.mp letters
      rw [List.map_cons, List.map_cons, List.cons.injEq, List.cons.injEq, CharMap.get_eq_lower first, ih letters]

theorem cStr_map_get (charmap : CharMap) (s : Bytes) : (cStr s).map charmap.get = cStr (s.map charmap.get) := by
  rw [cStr, cStr, List.takeWhile_map]
  congr 2
  funext c
  simp [CharMap.get_eq_zero]

/-- A word of lower case letters is found in the order of the keys as it is by `strcasecmp`. -/
theorem equalsci_iff (charmap : CharMap) {key w : Bytes} (letters : ∀ l ∈ w, isLower l = true) :
    Store.equalsci key w = true ↔ cStr (key.map charmap.get) = w := by
  have self : (cStr w).map toLower = w := by
    have plain : cStr w = w := cStr_eq_iff.mpr fun zero => absurd (letters 0 zero) (by decide)
    have lower : ∀ l ∈ w, toLower l = l := fun l hl => by
      have range := (isLower_iff l).mp (letters l hl)
      have upper := isUpper_iff l
      simp only [toLower]
      exact if_neg fun h => by
        have := upper.mp h
        omega
    rw [plain, List.map_congr_left lower, List.map_id']
  rw [Store.equalsci, beq_iff_eq, self, map_toLower_eq_iff charmap letters, cStr_map_get]

theorem ownKey_key {a b : Bytes} (same : charmap.key a = charmap.key b) :
    ConfigConnect.ownKey a = ConfigConnect.ownKey b := by
  have maps : a.map charmap.get = b.map charmap.get := by
    have equal := (CharMap.key_eq charmap).mp same
    rwa [equals, beq_iff_eq] at equal
  rw [ConfigConnect.ownKey, ConfigConnect.ownKey, Bool.eq_iff_iff, Bool.or_eq_true, Bool.or_eq_true,
    equalsci_iff charmap (by decide +kernel), equalsci_iff charmap (by decide +kernel),
    equalsci_iff charmap (by decide +kernel), equalsci_iff charmap (by decide +kernel), maps]

theorem items_foldl_set (items : Items) (rule : ConfigRule charmap) :
    (items.foldl (fun rule item => rule.set item.1 item.2) rule).items =
    items.foldl (fun m item => FlatMap.set charmap.insensitiveSwo m item.1 item.2) rule.items := by
  induction items generalizing rule with
  | nil => rfl
  | cons item items ih => exact ih (rule.set item.1 item.2)

theorem value_ofParent (tag : ConfigRule charmap) (type : ClassType) (mask : Bytes) (parent : ConfigConnect charmap)
    (key : Bytes) :
    (ConfigConnect.ofParent tag type mask parent).config.value key =
      (tag.value key).or (if ConfigConnect.ownKey key then none else parent.config.value key) := by
  have inherited : parent.config.items.foldl (fun (items : ConfigRule charmap) piter =>
      if ConfigConnect.ownKey piter.1 then items else items.set piter.1 piter.2)
        (ConfigRule.create tag.tag tag.srcName tag.srcLine) =
      (parent.config.items.filter fun item => !ConfigConnect.ownKey item.1).foldl (fun rule item => rule.set item.1 item.2)
        (ConfigRule.create tag.tag tag.srcName tag.srcLine) := by
    rw [List.foldl_filter]
    congr
    funext rule item
    cases ConfigConnect.ownKey item.1 <;> rfl
  have kept : FlatMap.Sorted charmap.key
      ((parent.config.items.filter fun item => !ConfigConnect.ownKey item.1).map Prod.fst) :=
    parent.config.sorted.sublist (List.filter_sublist.map _)
  unfold ConfigConnect.ofParent ConfigRule.value
  dsimp only
  rw [inherited, items_foldl_set, FlatMap.find_foldl_set (CharMap.insensitiveSwo_iff charmap) (ConfigRule.sorted _) tag.sorted,
    items_foldl_set, FlatMap.find_foldl_set (CharMap.insensitiveSwo_iff charmap) .nil kept,
    FlatMap.find_filter (p := fun key => !ConfigConnect.ownKey key) (CharMap.insensitiveSwo_iff charmap) parent.config.sorted
      (fun a b same => by rw [ownKey_key same])]
  cases ConfigConnect.ownKey key <;> simp [FlatMap.find, ConfigRule.create]

end items

section passes
variable {blocks tags : List (ConfigRule charmap)} {r r' : Resolution charmap} {tag : ConfigRule charmap}
  {cls : ConfigConnect charmap} {type : ClassType} {mask : Bytes} {i j k attempts : ℕ}
  {parent : Option (ConfigConnect charmap)}

/-- The loop over the ports ends. -/
theorem insertPorts_ends {portrange : Ports.PortTemplate} {fuel : ℕ} (steady : Ports.Steady portrange)
    (enough : Ports.callsLeft portrange < fuel) (ports : Finset ℤ) :
    ∃ ports', insertPorts fuel portrange ports = some ports' := by
  induction fuel generalizing portrange ports with
  | zero => omega
  | succ fuel ih =>
    obtain ⟨port, p', run, steady', less⟩ := steady.itemsExtract
    rw [insertPorts, run]
    dsimp only [bind, Option.bind]
    by_cases zero : toSigned port = 0
    · exact ⟨ports, if_pos zero⟩
    · have fewer := less.resolve_left fun zero' => zero (by rw [zero']; rfl)
      rw [if_neg zero]
      exact ih steady' (by omega) _

theorem Consistent.inside (h : Consistent blocks r) (block : blocks[i]? = some tag) : i < r.classes.length :=
  h.length ▸ (List.getElem?_eq_some_iff.mp block).1

theorem done_iff_join : (r.classes[i]?.join).isSome = true ↔ Done r i := by
  unfold Done
  cases r.classes[i]? with
  | none => simp
  | some cls => cases cls <;> simp

/-- A class that is added keeps the names and the classes in step. -/
theorem Consistent.add (h : Consistent blocks r) (distinct : Distinct blocks) (block : blocks[i]? = some tag)
    (made : ClassOf blocks i cls) :
    Consistent blocks { r with classes := r.classes.set i (some cls), names := (effectiveName i tag, i) :: r.names } ∧
      ∀ k, Done { r with classes := r.classes.set i (some cls), names := (effectiveName i tag, i) :: r.names } k ↔
        Done r k ∨ k = i := by
  have inside := h.inside block
  have done (k : ℕ) : Done { r with classes := r.classes.set i (some cls), names := (effectiveName i tag, i) :: r.names } k ↔
      Done r k ∨ k = i := by
    unfold Done
    dsimp only
    rw [List.getElem?_set]
    by_cases same : i = k
    · simp [same, same ▸ inside]
    · simp [same, Ne.symm same]
  refine ⟨⟨by simpa using h.length, fun k cls' hk => ?_, fun name k => ?_⟩, done⟩
  · dsimp only at hk
    rw [List.getElem?_set] at hk
    by_cases same : i = k
    · rw [if_pos same, if_pos inside] at hk
      obtain rfl := Option.some.inj (Option.some.inj hk)
      exact same ▸ made
    · rw [if_neg same] at hk
      exact h.classOf k cls' hk
  · rw [List.lookup_cons]
    by_cases same : name = effectiveName i tag
    · rw [beq_iff_eq.mpr same]
      dsimp only
      rw [Option.some_inj]
      constructor
      · rintro rfl
        exact ⟨tag, (done i).mpr (.inr rfl), block, same.symm⟩
      · rintro ⟨tag', -, block', named⟩
        exact distinct i k tag tag' block block' (by rw [named, same])
    · rw [beq_eq_false_iff_ne.mpr same]
      dsimp only
      rw [h.names name k]
      constructor
      · rintro ⟨tag', is_done, block', named⟩
        exact ⟨tag', (done k).mpr (.inl is_done), block', named⟩
      · rintro ⟨tag', is_done, block', named⟩
        refine ⟨tag', ((done k).mp is_done).resolve_right fun same' => same ?_, block', named⟩
        obtain rfl := Option.some.inj ((same' ▸ block').symm.trans block)
        rw [← named, same']

theorem makeClass_eq (h : Consistent blocks r) (distinct : Distinct blocks) (block : blocks[i]? = some tag)
    (fresh : ¬ Done r i) (specified : (connectMask tag).isSome)
    (inherits : parent = none ∧ tag.parentName = [] ∨
      ∃ j cls, parent = some cls ∧ IsParent blocks i j ∧ ClassOf blocks j cls) :
    ∃ r', makeClass r i tag parent = some (.ok r') ∧ Consistent blocks r' ∧ (∀ k, Done r' k ↔ Done r k ∨ k = i) ∧
      r'.tryAgain = r.tryAgain := by
  obtain ⟨⟨type, mask⟩, hm⟩ := Option.isSome_iff_exists.mp specified
  have unused : r.names.lookup (effectiveName i tag) = none := by
    rw [Option.eq_none_iff_forall_ne_some]
    intro j found
    obtain ⟨tag', is_done, block', named⟩ := (h.names _ j).mp found
    exact fresh (distinct j i tag' tag block' block named ▸ is_done)
  have inserted (me : ConfigConnect charmap) : ∃ ports', (if asString tag.items (lit "port") [] = [] then some me.ports
      else insertPorts (portCalls (asString tag.items (lit "port") []))
        (.ofSource (asString tag.items (lit "port") []) false) me.ports) = some ports' := by
    split
    · exact ⟨_, rfl⟩
    · refine insertPorts_ends ⟨rfl, rfl, by norm_num [Ports.PortTemplate.ofSource]⟩ ?_ _
      simp [Ports.callsLeft, portCalls, Ports.PortTemplate.ofSource]
  unfold makeClass
  rw [hm]
  dsimp only
  rw [unused]
  rcases inherits with ⟨rfl, root⟩ | ⟨j, cls, rfl, parental, made⟩
  · obtain ⟨ports', hp⟩ := inserted (.ofTag tag type mask)
    have class_of : ClassOf blocks i
        { ConfigConnect.ofTag tag type mask with name := effectiveName i tag, ports := ports' } :=
      ⟨⟨tag, block, rfl⟩, .root block root⟩
    obtain ⟨consistent, done⟩ := h.add distinct block class_of
    dsimp only
    rw [hp]
    exact ⟨_, rfl, consistent, done, rfl⟩
  · obtain ⟨ports', hp⟩ := inserted (.ofParent tag type mask cls)
    have values := funext (value_ofParent tag type mask cls)
    have class_of : ClassOf blocks i
        { ConfigConnect.ofParent tag type mask cls with name := effectiveName i tag, ports := ports' } :=
      ⟨⟨tag, block, rfl⟩, by dsimp only; rw [values]; exact .child block parental made.resolved⟩
    obtain ⟨consistent, done⟩ := h.add distinct block class_of
    dsimp only
    rw [hp]
    exact ⟨_, rfl, consistent, done, rfl⟩

/-- A block is done, or it waits for its parent. -/
theorem checkBlock_cases (attempts : ℕ) (h : Consistent blocks r) (distinct : Distinct blocks)
    (block : blocks[i]? = some tag) (specified : (connectMask tag).isSome) :
    (∃ r', checkBlock blocks.length attempts r i tag = some (.ok r') ∧ Consistent blocks r' ∧
        (∀ k, Done r' k ↔ Done r k ∨ k = i) ∧ r'.tryAgain = r.tryAgain) ∨
      ¬ Done r i ∧ ¬ Ready blocks r i ∧
        if blocks.length ≤ attempts then ∃ reason, checkBlock blocks.length attempts r i tag = some (.error reason)
        else checkBlock blocks.length attempts r i tag = some (.ok { r with tryAgain := true }) := by
  unfold checkBlock
  by_cases done : Done r i
  · rw [if_pos (done_iff_join.mpr done)]
    refine .inl ⟨r, rfl, h, fun k => ?_, rfl⟩
    exact (or_iff_left_of_imp fun same => same ▸ done).symm
  · rw [if_neg (mt done_iff_join.mp done)]
    by_cases named : tag.parentName ≠ []
    · rw [if_pos named]
      cases found : r.names.lookup tag.parentName with
      | none =>
        refine .inr ⟨done, fun ready => ?_, ?_⟩
        · obtain ⟨j, ⟨tag₁, tag₂, block₁, block₂, -, same⟩, done'⟩ := ready tag block named
          obtain rfl := Option.some.inj (block₁.symm.trans block)
          have listed := (h.names _ j).mpr ⟨tag₂, done', block₂, same⟩
          rw [found] at listed
          cases listed
        · dsimp only
          split
          · exact ⟨_, rfl⟩
          · rfl
      | some j =>
        obtain ⟨tag', ⟨cls, hcls⟩, block', same⟩ := (h.names _ j).mp found
        have parental : IsParent blocks i j := ⟨tag, tag', block, block', named, same⟩
        refine .inl (makeClass_eq h distinct block done specified (.inr ⟨j, cls, ?_, parental, h.classOf j cls hcls⟩))
        rw [hcls]
        rfl
    · rw [if_neg named]
      exact .inl (makeClass_eq h distinct block done specified (.inl ⟨rfl, not_not.mp named⟩))

theorem Ready.mono (h : Ready blocks r k) (kept : ∀ k, Done r k → Done r' k) : Ready blocks r' k := fun tag block named =>
  have ⟨j, parental, done⟩ := h tag block named
  ⟨j, parental, kept j done⟩

/-- What a pass from the position `i` on makes of a state. -/
structure Passed (blocks : List (ConfigRule charmap)) (attempts i : ℕ) (r r' : Resolution charmap) : Prop where
  consistent : Consistent blocks r'
  kept : ∀ k, Done r k → Done r' k
  ready : ∀ k, i ≤ k → k < blocks.length → Ready blocks r k → Done r' k
  settled : r'.tryAgain = false → ∀ k, i ≤ k → k < blocks.length → Done r' k
  again : r.tryAgain = true → r'.tryAgain = true
  early : r'.tryAgain = true → r.tryAgain = true ∨ attempts < blocks.length

theorem checkPass_cases (attempts : ℕ) (h : Consistent blocks r) (distinct : Distinct blocks)
    (specified : ∀ tag ∈ blocks, (connectMask tag).isSome) (rest : blocks.drop i = tags) :
    (∃ r', checkPass blocks.length attempts r i tags = some (.ok r') ∧ Passed blocks attempts i r r') ∨
      ∃ reason, checkPass blocks.length attempts r i tags = some (.error reason) ∧ blocks.length ≤ attempts ∧
        ∃ k < blocks.length, ¬ Ready blocks r k := by
  induction tags generalizing r i with
  | nil =>
    have beyond : blocks.length ≤ i := by simpa using rest
    refine .inl ⟨r, rfl, h, fun _ done => done, ?_, ?_, fun again => again, .inl⟩
    · exact fun k low high => absurd (low.trans_lt high) (not_lt.mpr beyond)
    · exact fun _ k low high => absurd (low.trans_lt high) (not_lt.mpr beyond)
  | cons tag tags ih =>
    have block : blocks[i]? = some tag := by
      rw [← Nat.add_zero i, ← List.getElem?_drop, rest]
      rfl
    have inside : i < blocks.length := (List.getElem?_eq_some_iff.mp block).1
    have rest' : blocks.drop (i + 1) = tags := by
      rw [← List.drop_drop, rest]
      rfl
    rw [checkPass]
    rcases checkBlock_cases attempts h distinct block (specified tag (List.mem_of_getElem? block)) with
      ⟨r₁, run, h₁, done, same⟩ | ⟨undone, waiting, run⟩
    · rw [run]
      have kept : ∀ k, Done r k → Done r₁ k := fun k was => (done k).mpr (.inl was)
      rcases ih h₁ rest' with ⟨r', run', passed⟩ | ⟨reason, run', late, k, high, unready⟩
      · have own : Done r' i := passed.kept i ((done i).mpr (.inr rfl))
        refine .inl ⟨r', run', passed.consistent, fun k was => passed.kept k (kept k was), fun k low high ready => ?_,
          fun stop k low high => ?_, fun again => passed.again (same ▸ again), fun again => same ▸ passed.early again⟩
        · rcases eq_or_lt_of_le low with rfl | low
          · exact own
          · exact passed.ready k low high (ready.mono kept)
        · rcases eq_or_lt_of_le low with rfl | low
          · exact own
          · exact passed.settled stop k low high
      · exact .inr ⟨reason, run', late, k, high, fun ready => unready (ready.mono kept)⟩
    · by_cases late : blocks.length ≤ attempts
      · rw [if_pos late] at run
        obtain ⟨reason, run⟩ := run
        rw [run]
        exact .inr ⟨reason, rfl, late, i, inside, waiting⟩
      · rw [if_neg late] at run
        rw [run]
        have waits : Consistent blocks { r with tryAgain := true } := ⟨h.length, h.classOf, h.names⟩
        rcases ih waits rest' with ⟨r', run', passed⟩ | ⟨_, _, late', _⟩
        · have again : r'.tryAgain = true := passed.again rfl
          refine .inl ⟨r', run', passed.consistent, passed.kept, fun k low high ready => ?_, fun stop => ?_, fun _ => again,
            fun _ => .inr (not_le.mp late)⟩
          · rcases eq_or_lt_of_le low with rfl | low
            · exact absurd ready waiting
            · exact passed.ready k low high ready
          · rw [again] at stop
            cases stop
        · exact absurd late' late

theorem IsParent.inside (parental : IsParent blocks i j) : i < blocks.length ∧ j < blocks.length := by
  obtain ⟨tag, tag', block, block', -⟩ := parental
  exact ⟨(List.getElem?_eq_some_iff.mp block).1, (List.getElem?_eq_some_iff.mp block').1⟩

/-- A block has one parent at most. -/
theorem IsParent.unique (distinct : Distinct blocks) (parental : IsParent blocks i j) (parental' : IsParent blocks i k) :
    j = k := by
  obtain ⟨tag, tag', block, block', -, same⟩ := parental
  obtain ⟨tag₁, tag₁', block₁, block₁', -, same₁⟩ := parental'
  obtain rfl := Option.some.inj (block.symm.trans block₁)
  exact distinct j k tag' tag₁' block' block₁' (same.trans same₁.symm)

/-- What is resolved has its ancestors, and they end. -/
theorem Resolved.founded (distinct : Distinct blocks) {values : Bytes → Option Bytes} (h : Resolved blocks i values) :
    (∀ tag, blocks[i]? = some tag → tag.parentName ≠ [] → ∃ j, IsParent blocks i j) ∧
      ∃ d, Ancestry.Within (IsParent blocks) d i := by
  induction h with
  | root block root =>
    refine ⟨fun tag block' named => ?_, 0, fun j parental => ?_⟩
    · obtain rfl := Option.some.inj (block.symm.trans block')
      exact absurd root named
    · obtain ⟨tag, tag', block', -, named, -⟩ := parental
      obtain rfl := Option.some.inj (block.symm.trans block')
      exact named root
  | @child i j tag values block parental _ ih =>
    obtain ⟨-, d, within⟩ := ih
    exact ⟨fun _ _ _ => ⟨j, parental⟩, d + 1, fun k parental' => parental.unique distinct parental' ▸ within⟩

theorem resolvable_of_done (h : Consistent blocks r) (distinct : Distinct blocks) (all : ∀ i < blocks.length, Done r i) :
    Resolvable blocks := by
  have founded (i : ℕ) (inside : i < blocks.length) :
      (∀ tag, blocks[i]? = some tag → tag.parentName ≠ [] → ∃ j, IsParent blocks i j) ∧
        ∃ d, Ancestry.Within (IsParent blocks) d i := by
    obtain ⟨cls, hcls⟩ := all i inside
    exact (h.classOf i cls hcls).resolved.founded distinct
  refine ⟨fun i tag block => (founded i (List.getElem?_eq_some_iff.mp block).1).1 tag block, fun i cycle => ?_⟩
  by_cases inside : i < blocks.length
  · obtain ⟨-, d, within⟩ := founded i inside
    exact within.no_cycle cycle
  · have orphan : Ancestry.Within (IsParent blocks) 0 i := fun j parental => inside parental.inside.1
    exact orphan.no_cycle cycle

/-- Blocks whose ancestors reach back less generations than there were passes are done. -/
def DoneBefore (blocks : List (ConfigRule charmap)) (attempts : ℕ) (r : Resolution charmap) : Prop :=
  ∀ k < blocks.length, ∀ d < attempts, Ancestry.Within (IsParent blocks) d k → Done r k

theorem ready_of_within {d : ℕ} (parents : Resolvable blocks) (within : Ancestry.Within (IsParent blocks) d k)
    (before : DoneBefore blocks d r) : Ready blocks r k := by
  intro tag block named
  obtain ⟨j, parental⟩ := parents.parents k tag block named
  cases d with
  | zero => exact absurd parental (within j)
  | succ d => exact ⟨j, parental, before j parental.inside.2 d d.lt_succ_self (within j parental)⟩

theorem Resolvable.within (h : Resolvable blocks) (inside : k < blocks.length) :
    Ancestry.Within (IsParent blocks) (blocks.length - 1) k :=
  Ancestry.within_pred (fun _ _ parental => parental.inside.2) h.acyclic inside

/-- The passes end: all blocks are done, or not all can be resolved. -/
theorem checkPasses_cases {fuel : ℕ} (h : Consistent blocks r) (distinct : Distinct blocks)
    (specified : ∀ tag ∈ blocks, (connectMask tag).isSome) (count : fuel + attempts = blocks.length + 1)
    (early : attempts ≤ blocks.length) (before : Resolvable blocks → DoneBefore blocks attempts r) :
    (∃ r', checkPasses blocks fuel attempts r = some (.ok r') ∧ Consistent blocks r' ∧ ∀ k < blocks.length, Done r' k) ∨
      ∃ reason, checkPasses blocks fuel attempts r = some (.error reason) ∧ ¬ Resolvable blocks := by
  induction fuel generalizing attempts r with
  | zero => omega
  | succ fuel ih =>
    have start : Consistent blocks { r with tryAgain := false } := ⟨h.length, h.classOf, h.names⟩
    rw [checkPasses]
    rcases checkPass_cases attempts start distinct specified List.drop_zero with
      ⟨r', run, passed⟩ | ⟨reason, run, late, k, inside, waiting⟩
    · rw [run]
      dsimp only
      by_cases again : r'.tryAgain = true
      · rw [if_pos again]
        have more := (passed.early again).resolve_left Bool.false_ne_true
        refine ih passed.consistent (by omega) more fun resolvable k inside d less within => ?_
        rcases Nat.lt_succ_iff_lt_or_eq.mp less with less | rfl
        · exact passed.kept k (before resolvable k inside d less within)
        · exact passed.ready k (Nat.zero_le k) inside (ready_of_within resolvable within (before resolvable))
      · rw [if_neg again]
        exact .inl ⟨r', rfl, passed.consistent, fun k inside =>
          passed.settled (Bool.eq_false_iff.mpr again) k (Nat.zero_le k) inside⟩
    · rw [run]
      refine .inr ⟨reason, rfl, fun resolvable => waiting ?_⟩
      refine ready_of_within resolvable (resolvable.within inside) fun j inside' d less within => ?_
      exact before resolvable j inside' d (by omega) within

/-- An allow, a deny, or a name that is not empty. -/
def Specified (tag : ConfigRule charmap) : Prop := (readString tag.items (lit "allow") false).isSome ∨
  (readString tag.items (lit "deny") false).isSome ∨ tag.name ≠ []

theorem Specified.connectMask (h : Specified tag) : (connectMask tag).isSome := by
  unfold Config.connectMask
  cases allow : readString tag.items (lit "allow") false with
  | some mask => rfl
  | none =>
    cases deny : readString tag.items (lit "deny") false with
    | some mask => rfl
    | none =>
      have named : tag.name ≠ [] := by simpa [Specified, allow, deny] using h
      dsimp only
      rw [if_pos named]
      rfl

theorem crossCheck_blocks (some : blocks ≠ []) (specified : ∀ tag ∈ blocks, Specified tag) (distinct : Distinct blocks) :
    (Resolvable blocks → ∃ classes, crossCheckConnectBlocks blocks = .some (.ok classes) ∧ classes.length = blocks.length ∧
        ∀ i < blocks.length, ∃ cls, classes[i]? = .some (.some cls) ∧ ClassOf blocks i cls) ∧
      (¬ Resolvable blocks → ∃ reason, crossCheckConnectBlocks blocks = .some (.error reason)) := by
  have none_done (k : ℕ) : ¬ Done (⟨.replicate blocks.length none, [], true⟩ : Resolution charmap) k := by
    rintro ⟨cls, hcls⟩
    rw [List.getElem?_replicate] at hcls
    split at hcls <;> cases hcls
  have start : Consistent blocks ⟨.replicate blocks.length none, [], true⟩ :=
    ⟨List.length_replicate, fun i cls hcls => absurd ⟨cls, hcls⟩ (none_done i),
      fun name i => iff_of_false (by simp) fun ⟨_, done, _⟩ => none_done i done⟩
  unfold crossCheckConnectBlocks
  rw [if_neg some]
  dsimp only
  rcases checkPasses_cases start distinct (fun tag ht => (specified tag ht).connectMask)
      (show blocks.length + 1 + 0 = blocks.length + 1 from rfl) (Nat.zero_le _)
      (fun _ k _ d less => absurd less (Nat.not_lt_zero d)) with ⟨r', run, consistent, all⟩ | ⟨reason, run, unresolvable⟩
  · rw [run]
    refine ⟨fun _ => ⟨r'.classes, rfl, consistent.length, fun i inside => ?_⟩, fun not => ?_⟩
    · obtain ⟨cls, hcls⟩ := all i inside
      exact ⟨cls, hcls, consistent.classOf i cls hcls⟩
    · exact absurd (resolvable_of_done consistent distinct all) not
  · rw [run]
    exact ⟨fun resolvable => absurd resolvable unresolvable, fun _ => ⟨reason, rfl⟩⟩

theorem single_block (tag : ConfigRule charmap) : Distinct [tag] ∧ (tag.parentName = [] → Resolvable [tag]) := by
  have only {i : ℕ} {tag' : ConfigRule charmap} (block : [tag][i]? = some tag') : i = 0 ∧ tag' = tag := by
    cases i with
    | zero => exact ⟨rfl, (Option.some.inj block).symm⟩
    | succ i => cases block
  refine ⟨fun i j _ _ block block' _ => (only block).1.trans (only block').1.symm, fun orphan => ?_⟩
  have none (i j : ℕ) : ¬ IsParent [tag] i j := fun ⟨tag', _, block, _, named, _⟩ => named ((only block).2 ▸ orphan)
  refine ⟨fun i tag' block named => absurd ((only block).2 ▸ orphan) named, fun i cycle => ?_⟩
  cases cycle with
  | single parental => exact none _ _ parental
  | tail _ parental => exact none _ _ parental

end passes

/-- A block of two items, the first of which is its name. -/
def namedBlock (name key value : Bytes) : ConfigRule .brld1459 :=
  ((ConfigRule.create (lit "connect") (lit "beryl.conf") 1).set (lit "name") name).set key value

/-- A block in front of its parent. -/
def childFirst : List (ConfigRule .brld1459) :=
  [namedBlock (lit "child") (lit "parent") (lit "main"), namedBlock (lit "main") (lit "allow") (lit "*")]

theorem childFirst_blocks {i : ℕ} {tag : ConfigRule .brld1459} (block : childFirst[i]? = some tag) :
    i = 0 ∧ tag = namedBlock (lit "child") (lit "parent") (lit "main") ∨
      i = 1 ∧ tag = namedBlock (lit "main") (lit "allow") (lit "*") := by
  match i with
  | 0 => exact .inl ⟨rfl, (Option.some.inj block).symm⟩
  | 1 => exact .inr ⟨rfl, (Option.some.inj block).symm⟩
  | i + 2 => cases block

theorem childFirst_distinct : Distinct childFirst := by
  intro i j tag tag' block block' same
  rcases childFirst_blocks block with ⟨rfl, rfl⟩ | ⟨rfl, rfl⟩ <;>
    rcases childFirst_blocks block' with ⟨rfl, rfl⟩ | ⟨rfl, rfl⟩
  · rfl
  · exact absurd same (by decide +kernel)
  · exact absurd same (by decide +kernel)
  · rfl

theorem childFirst_resolvable : Resolvable childFirst := by
  have orphan (j : ℕ) : ¬ IsParent childFirst 1 j := by
    rintro ⟨tag, tag', block, -, named, -⟩
    obtain rfl := Option.some.inj block
    exact named (by decide +kernel)
  have first : IsParent childFirst 0 1 := ⟨_, _, rfl, rfl, by decide +kernel, by decide +kernel⟩
  refine ⟨fun i tag block named => ?_, fun i => Ancestry.Within.no_cycle (d := 1) fun j parental => ?_⟩
  · rcases childFirst_blocks block with ⟨rfl, rfl⟩ | ⟨rfl, rfl⟩
    · exact ⟨1, first⟩
    · exact absurd (by decide +kernel) named
  · obtain ⟨tag, _, block, -, -, -⟩ := id parental
    rcases childFirst_blocks block with ⟨rfl, -⟩ | ⟨rfl, -⟩
    · exact parental.unique childFirst_distinct first ▸ orphan
    · exact absurd parental (orphan j)

/-- Every block gets its class in its own position, if every parent that is named is there and no block is its own
ancestor, and otherwise an exception is thrown. -/
theorem crossCheckConnectBlocks_resolves (blocks : List (ConfigRule charmap)) (specified : ∀ tag ∈ blocks, Specified tag)
    (distinct : Distinct blocks) :
    (Resolvable blocks → ∃ classes, crossCheckConnectBlocks blocks = some (.ok classes) ∧
        classes.length = max 1 blocks.length ∧
          ∀ i < blocks.length, ∃ cls, classes[i]? = some (some cls) ∧ ClassOf blocks i cls) ∧
      (¬ Resolvable blocks → ∃ reason, crossCheckConnectBlocks blocks = some (.error reason)) := by
  rcases eq_or_ne blocks [] with rfl | some
  · obtain ⟨distinct', resolvable⟩ := single_block (autoBlock charmap)
    have allowed : ∀ tag ∈ [autoBlock charmap], Specified tag := fun tag ht => by
      obtain rfl := List.mem_singleton.mp ht
      exact .inl rfl
    obtain ⟨classes, run, one, -⟩ := (crossCheck_blocks (by simp) allowed distinct').1 (resolvable rfl)
    have empty : Resolvable ([] : List (ConfigRule charmap)) := ⟨fun i tag block => by simp at block, fun i cycle => by
      obtain ⟨j, ⟨_, _, block, _⟩, _⟩ := Relation.TransGen.head'_iff.mp cycle
      simp at block⟩
    exact ⟨fun _ => ⟨classes, run, one, fun i inside => by simp at inside⟩, fun not => absurd empty not⟩
  · have count : max 1 blocks.length = blocks.length := max_eq_right (List.length_pos_iff.mpr some)
    rw [count]
    exact crossCheck_blocks some specified distinct

theorem childFirst_resolves : ∃ classes, crossCheckConnectBlocks childFirst = some (.ok classes) ∧
    ∀ i < 2, ∃ cls, classes[i]? = some (some cls) ∧ ClassOf childFirst i cls := by
  have specified : ∀ tag ∈ childFirst, Specified tag := by
    simp only [childFirst, List.forall_mem_cons]
    exact ⟨.inr (.inr (by decide +kernel)), .inl (by decide +kernel), by simp⟩
  obtain ⟨classes, run, -, all⟩ :=
    (crossCheckConnectBlocks_resolves childFirst specified childFirst_distinct).1 childFirst_resolvable
  exact ⟨classes, run, all⟩

/-- A block whose name is empty. -/
def namelessBlock : ConfigRule .brld1459 :=
  (ConfigRule.create (lit "connect") (lit "beryl.conf") 1).set (lit "name") []

theorem empty_names_are_none : ¬ ∀ (charmap : CharMap) (blocks : List (ConfigRule charmap)),
    (∀ tag ∈ blocks, (readString tag.items (lit "allow") false).isSome ∨ (readString tag.items (lit "deny") false).isSome ∨
      (readString tag.items (lit "name") false).isSome) → Distinct blocks → Resolvable blocks →
        ∃ classes, crossCheckConnectBlocks blocks = some (.ok classes) := by
  intro claimed
  have block := single_block namelessBlock
  obtain ⟨classes, run⟩ := claimed .brld1459 [_] (by decide +kernel) block.1 (block.2 (by decide +kernel))
  have thrown : (crossCheckConnectBlocks [namelessBlock]).any Except.toBool = false := by decide +kernel
  rw [run] at thrown
  cases thrown

end BerylDB.Config
