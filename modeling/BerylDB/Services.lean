import BerylDB.CaseFunctors
import BerylDB.Multimaps
import Mathlib.Data.List.Induction

/-! # Services and references to them

`DataProviders` of `ModuleHandler`, the references of `dynref.h` that are resolved in it, and the subscribers that an
event provider of `event.h` gets when the references of its listeners are.  Objects are told apart by their addresses. -/
namespace BerylDB.Services
open Text

inductive ServiceID where
  | command | stream | data | queue | custom
deriving DecidableEq

structure ServiceProvider where
  address : ℕ
  name : Bytes
  service : ServiceID
  creator : Option ℕ := none
deriving DecidableEq

/-- Whose reference it is, which decides what `OnCapture` does. -/
inductive Owner where
  | plain
  | listener (eventpriority : ℕ)
  | provider (p : ServiceProvider)
deriving DecidableEq

/-- `ddl_base_ref`. -/
structure Ref where
  address : ℕ
  name : Bytes
  owner : Owner
  value : Option ServiceProvider
deriving DecidableEq

structure Subscriber where
  eventpriority : ℕ
  address : ℕ
deriving DecidableEq

/-- `ModuleEventProvider::ElementComp`. -/
def elementComp (lhs rhs : Subscriber) : Bool :=
  if lhs.eventpriority < rhs.eventpriority then true
  else if lhs.eventpriority > rhs.eventpriority then false
  else lhs.address < rhs.address

/-- The subscribers of the event provider at an address. -/
abbrev Subscribers := ℕ → List Subscriber

/-- `DataProviders`, the list of all references from `begin()` on, and the members `subscribers`. -/
structure Table where
  providers : List (Bytes × ServiceProvider)
  refs : List Ref
  subscribers : Subscribers

def Table.empty : Table := ⟨[], [], fun _ => []⟩

section
variable (charmap : CharMap)

/-- The comparison of two entries of `DataProviders`. -/
def comp (a b : Bytes × ServiceProvider) : Bool := charmap.insensitiveSwo a.1 b.1

def insertProvider (providers : List (Bytes × ServiceProvider)) (name : Bytes) (p : ServiceProvider) :
    List (Bytes × ServiceProvider) := Multimap.insertBehind (comp charmap) (name, p) providers

/-- What `resolve` finds at the lower bound of a name. -/
def lookup (providers : List (Bytes × ServiceProvider)) (name : Bytes) : Option ServiceProvider :=
  match providers.find? fun e => !charmap.insensitiveSwo e.1 name with
  | some e => if e.1 = name then some e.2 else none
  | none => none

/-- `FindService`; the error is that of the `ModuleException`. -/
def findService (providers : List (Bytes × ServiceProvider)) (type : ServiceID) (name : Bytes) :
    Except Bytes (Option ServiceProvider) :=
  match type with
  | .data | .queue =>
    match providers.find? fun e => !charmap.insensitiveSwo e.1 name with
    | some e => .ok (if charmap.insensitiveSwo name e.1 then none else if e.2.service = type then some e.2 else none)
    | none => .ok none
  | _ => .error (lit "Cannot find unknown service type")

def subscribe (subs : Subscribers) (p : ServiceProvider) (eventpriority address : ℕ) : Subscribers :=
  Function.update subs p.address (Multimap.insertBefore elementComp ⟨eventpriority, address⟩ (subs p.address))

def unsubscribe (subs : Subscribers) (p : ServiceProvider) (eventpriority address : ℕ) : Subscribers :=
  Function.update subs p.address (Multimap.eraseEqual elementComp ⟨eventpriority, address⟩ (subs p.address))

/-- `OnCapture` of a listener, and of an event provider, which looks whether the name is its own. -/
def onCapture (subs : Subscribers) (r : Ref) (value : ServiceProvider) : Subscribers :=
  match r.owner with
  | .plain => subs
  | .listener eventpriority => subscribe subs value eventpriority r.address
  | .provider p => if value ≠ p then Function.update subs p.address [] else subs

def resolve (providers : List (Bytes × ServiceProvider)) (r : Ref) (subs : Subscribers) : Ref × Subscribers :=
  match lookup charmap providers r.name with
  | some newvalue =>
    if r.value ≠ some newvalue then ({ r with value := some newvalue }, onCapture subs r newvalue) else (r, subs)
  | none => ({ r with value := none }, subs)

def resolveAll (providers : List (Bytes × ServiceProvider)) : List Ref → Subscribers → List Ref × Subscribers
  | [], subs => ([], subs)
  | r :: refs, subs =>
    let (r, subs) := resolve charmap providers r subs
    let (refs, subs) := resolveAll providers refs subs
    (r :: refs, subs)

/-- `ddl_base_ref::reset_all`. -/
def resetAll (t : Table) : Table :=
  let (refs, subscribers) := resolveAll charmap t.providers t.refs t.subscribers
  { t with refs, subscribers }

/-- The names that `AttachService` inserts. -/
def ServiceProvider.names (p : ServiceProvider) : List Bytes :=
  if 47 ∈ p.name then [p.name, (cutAt 47 p.name).1, (cutAt 47 p.name).2] else [p.name]

/-- The services that `DataProviders` is for. -/
def ServiceProvider.isData (p : ServiceProvider) : Bool := p.service = .data ∨ p.service = .queue

inductive Event where
  | attachService (p : ServiceProvider)
  | unAttachService (p : ServiceProvider)
  | createReference (name : Bytes) (p : ServiceProvider)
  | smartUnload (module : ℕ)
  | construct (address : ℕ) (name : Bytes) (owner : Owner)
  | setProvider (address : ℕ) (newname : Bytes)
  | destruct (address : ℕ)

/-- The condition `prov` in the constructor and the destructor of a listener. -/
def ifListening (owner : Owner) (value : Option ServiceProvider) (act : ServiceProvider → ℕ → Subscribers)
    (subs : Subscribers) : Subscribers :=
  match owner, value with
  | .listener eventpriority, some p => act p eventpriority
  | _, _ => subs

/-- The constructors of `ddl_base_ref`, which resolves before there is an `attach`, and of a listener. -/
def construct (t : Table) (address : ℕ) (name : Bytes) (owner : Owner) : Table :=
  let value := lookup charmap t.providers name
  { t with
    refs := ⟨address, name, owner, value⟩ :: t.refs
    subscribers := ifListening owner value (fun p prio => subscribe t.subscribers p prio address) t.subscribers }

def setProvider (t : Table) (address : ℕ) (newname : Bytes) : Table :=
  match t.refs.find? fun r => r.address = address with
  | some r =>
    let (made, subscribers) := resolve charmap t.providers { r with name := newname } t.subscribers
    { t with refs := t.refs.map fun r => if r.address = address then made else r, subscribers }
  | none => t

/-- The destructors of a listener and of `ddl_base_ref`. -/
def destruct (t : Table) (address : ℕ) : Table :=
  match t.refs.find? fun r => r.address = address with
  | some r =>
    { t with
      refs := t.refs.filter fun r => r.address ≠ address
      subscribers := ifListening r.owner r.value (fun p prio => unsubscribe t.subscribers p prio address) t.subscribers }
  | none => t

def step (t : Table) : Event → Table
  | .attachService p =>
    if p.isData then
      resetAll charmap { t with providers := p.names.foldl (fun l name => insertProvider charmap l name p) t.providers }
    else t
  | .unAttachService p =>
    if p.isData then resetAll charmap { t with providers := t.providers.filter fun e => e.2 ≠ p } else t
  | .createReference name p => resetAll charmap { t with providers := insertProvider charmap t.providers name p }
  | .smartUnload module =>
    resetAll charmap { t with providers := t.providers.filter fun e => e.2.creator ≠ some module }
  | .construct address name owner => construct charmap t address name owner
  | .setProvider address newname => setProvider charmap t address newname
  | .destruct address => destruct t address

def run (events : List Event) : Table := events.foldl (step charmap) .empty

end

/-! ## What the table is for -/

def register (l : List (Bytes × ServiceProvider)) : Event → List (Bytes × ServiceProvider)
  | .attachService p => if p.isData then l ++ p.names.map fun name => (name, p) else l
  | .unAttachService p => if p.isData then l.filter fun e => e.2 ≠ p else l
  | .createReference name p => l ++ [(name, p)]
  | .smartUnload module => l.filter fun e => e.2.creator ≠ some module
  | _ => l

/-- The names in the order in which they were registered. -/
def registered (events : List Event) : List (Bytes × ServiceProvider) := events.foldl register []

/-- The entry that was registered first among those whose names are the same without regard to case. -/
def foremost (charmap : CharMap) (l : List (Bytes × ServiceProvider)) (name : Bytes) : Option (Bytes × ServiceProvider) :=
  l.find? fun e => charmap.key e.1 = charmap.key name

section
variable {charmap : CharMap} {providers l : List (Bytes × ServiceProvider)} {name : Bytes} {p : ServiceProvider}
  {subs : Subscribers} {t : Table} {e : Event}

theorem comp_iff (charmap : CharMap) (a b : Bytes × ServiceProvider) :
    comp charmap a b = true ↔ charmap.key a.1 < charmap.key b.1 := CharMap.insensitiveSwo_iff charmap a.1 b.1

/-- The multimap has the entries of each name in the order of their registration. -/
structure Ordered (charmap : CharMap) (providers l : List (Bytes × ServiceProvider)) : Prop where
  sorted : Multimap.Sorted (fun e => charmap.key e.1) providers
  same : ∀ k, providers.filter (fun e => charmap.key e.1 = k) = l.filter fun e => charmap.key e.1 = k

theorem Ordered.nil : Ordered charmap [] [] := ⟨List.Pairwise.nil, fun _ => rfl⟩

theorem Ordered.insertProvider (ordered : Ordered charmap providers l) (name : Bytes) (p : ServiceProvider) :
    Ordered charmap (insertProvider charmap providers name p) (l ++ [(name, p)]) where
  sorted := ordered.sorted.insertBehind (comp_iff charmap)
  same k := by
    rw [Services.insertProvider, Multimap.filter_insertBehind (comp_iff charmap) ordered.sorted, ordered.same,
      List.filter_append, List.filter_singleton]
    by_cases here : charmap.key name = k <;> simp [here]

theorem Ordered.insertProviders (ordered : Ordered charmap providers l) (names : List Bytes) (p : ServiceProvider) :
    Ordered charmap (names.foldl (fun l name => Services.insertProvider charmap l name p) providers)
      (l ++ names.map fun name => (name, p)) := by
  induction names generalizing providers l with
  | nil => simpa using ordered
  | cons name names ih => simpa using ih (ordered.insertProvider name p)

theorem Ordered.filter (ordered : Ordered charmap providers l) (keep : Bytes × ServiceProvider → Bool) :
    Ordered charmap (providers.filter keep) (l.filter keep) where
  sorted := ordered.sorted.filter keep
  same k := by rw [List.filter_comm, ordered.same, List.filter_comm]

/-- What stands at the lower bound of a name, when it has the name. -/
theorem Ordered.lowerBound (ordered : Ordered charmap providers l) (name : Bytes) :
    (providers.find? fun e => !charmap.insensitiveSwo e.1 name).filter (fun e => charmap.key e.1 = charmap.key name) =
      foremost charmap l name := by
  have found := Multimap.find_lowerBound (comp_iff charmap) ordered.sorted (name, ⟨0, [], .data, none⟩)
  rw [ordered.same, List.head?_filter] at found
  exact found

theorem Ordered.lookup (ordered : Ordered charmap providers l) (name : Bytes) : lookup charmap providers name =
    ((foremost charmap l name).filter fun e => e.1 = name).map Prod.snd := by
  rw [← ordered.lowerBound, Services.lookup]
  cases providers.find? fun e => !charmap.insensitiveSwo e.1 name with
  | none => rfl
  | some e =>
    by_cases same : e.1 = name
    · simp [Option.filter, same]
    · by_cases alike : charmap.key e.1 = charmap.key name <;> simp [same, alike]

theorem Ordered.findService (ordered : Ordered charmap providers l) {type : ServiceID} (known : type ∈ [.data, .queue])
    (name : Bytes) : findService charmap providers type name =
      .ok (((foremost charmap l name).filter fun e => e.2.service = type).map Prod.snd) := by
  have looked : Services.findService charmap providers type name =
      match providers.find? fun e => !charmap.insensitiveSwo e.1 name with
      | some e => .ok (if charmap.insensitiveSwo name e.1 then none else if e.2.service = type then some e.2 else none)
      | none => .ok none := by
    rcases List.mem_pair.mp known with rfl | rfl <;> rfl
  rw [← ordered.lowerBound, looked]
  cases found : providers.find? fun e => !charmap.insensitiveSwo e.1 name with
  | none => rfl
  | some e =>
    have notBelow : ¬ charmap.key e.1 < charmap.key name := by
      have := List.find?_some found
      rwa [Bool.not_eq_true', ← Bool.not_eq_true, CharMap.insensitiveSwo_iff] at this
    by_cases same : charmap.key e.1 = charmap.key name
    · have notAbove : ¬ charmap.insensitiveSwo name e.1 = true := by
        rw [CharMap.insensitiveSwo_iff, same]
        exact lt_irrefl _
      by_cases kind : e.2.service = type <;> simp [Option.filter, same, notAbove, kind]
    · have above : charmap.insensitiveSwo name e.1 = true :=
        (CharMap.insensitiveSwo_iff ..).mpr (lt_of_le_of_ne (not_lt.mp notBelow) (Ne.symm same))
      simp [same, above]

/-! ## References -/

theorem resolve_fst (r : Ref) : (resolve charmap providers r subs).1 =
    { r with value := Services.lookup charmap providers r.name } := by
  rw [resolve]
  cases Services.lookup charmap providers r.name with
  | none => rfl
  | some newvalue =>
    by_cases same : r.value = some newvalue
    · simp [← same]
    · simp [same]

theorem resolveAll_fst (refs : List Ref) (subs : Subscribers) : (resolveAll charmap providers refs subs).1 =
    refs.map fun r => { r with value := Services.lookup charmap providers r.name } := by
  induction refs generalizing subs with
  | nil => rfl
  | cons r refs ih =>
    rw [resolveAll]
    simp only [ih, resolve_fst, List.map_cons]

def Resolved (charmap : CharMap) (t : Table) : Prop := ∀ r ∈ t.refs, r.value = Services.lookup charmap t.providers r.name

theorem resetAll_resolved (t : Table) : Resolved charmap (resetAll charmap t) := by
  intro r here
  simp only [resetAll, resolveAll_fst] at here
  obtain ⟨r, -, rfl⟩ := List.mem_map.mp here
  rfl

@[simp] theorem resetAll_providers (t : Table) : (resetAll charmap t).providers = t.providers := rfl

theorem step_resolved (resolved : Resolved charmap t) (e : Event) : Resolved charmap (step charmap t e) := by
  cases e with
  | attachService p =>
    rw [step]
    split
    · exact resetAll_resolved _
    · exact resolved
  | unAttachService p =>
    rw [step]
    split
    · exact resetAll_resolved _
    · exact resolved
  | createReference name p => exact resetAll_resolved _
  | smartUnload module => exact resetAll_resolved _
  | construct address name owner =>
    intro r here
    rcases List.mem_cons.mp here with rfl | here
    · rfl
    · exact resolved r here
  | setProvider address newname =>
    rw [step, setProvider]
    split
    · intro r here
      simp only [resolve_fst] at here
      obtain ⟨r, known, rfl⟩ := List.mem_map.mp here
      split
      · rfl
      · exact resolved r known
    · exact resolved
  | destruct address =>
    rw [step, destruct]
    split
    · exact fun r here => resolved r (List.mem_filter.mp here).1
    · exact resolved

theorem step_ordered (ordered : Ordered charmap t.providers l) (e : Event) :
    Ordered charmap (step charmap t e).providers (register l e) := by
  cases e with
  | attachService p =>
    rw [step, register]
    split
    · exact ordered.insertProviders p.names p
    · exact ordered
  | unAttachService p =>
    rw [step, register]
    split
    · exact ordered.filter _
    · exact ordered
  | createReference name p => exact ordered.insertProvider name p
  | smartUnload module => exact ordered.filter _
  | construct address name owner => exact ordered
  | setProvider address newname =>
    rw [step, setProvider]
    split <;> exact ordered
  | destruct address =>
    rw [step, destruct]
    split <;> exact ordered

theorem run_invariant (charmap : CharMap) (events : List Event) :
    Ordered charmap (run charmap events).providers (registered events) ∧ Resolved charmap (run charmap events) := by
  induction events using List.reverseRecOn with
  | nil => exact ⟨.nil, fun r here => absurd here List.not_mem_nil⟩
  | append_singleton events e ih =>
    simp only [run, registered, List.foldl_append, List.foldl_cons, List.foldl_nil]
    exact ⟨step_ordered ih.1 e, step_resolved ih.2 e⟩

/-- After any calls, each reference has the provider that was registered first under its name, spelled like this, and
none when the name is not registered or was registered first in another spelling; no reference is left to a provider
that is not registered.  `FindService` does not ask for the spelling, and throws for the types that it does not know. -/
theorem references_follow_registrations (charmap : CharMap) (events : List Event) :
    (∀ r ∈ (run charmap events).refs,
      r.value = ((foremost charmap (registered events) r.name).filter fun e => e.1 = r.name).map Prod.snd ∧
      ∀ p ∈ r.value, (r.name, p) ∈ registered events) ∧
    (∀ type ∈ [.data, .queue], ∀ name, findService charmap (run charmap events).providers type name =
      .ok (((foremost charmap (registered events) name).filter fun e => e.2.service = type).map Prod.snd)) ∧
    ∀ type ∉ [.data, .queue], ∀ name, findService charmap (run charmap events).providers type name =
      .error (lit "Cannot find unknown service type") := by
  obtain ⟨ordered, resolved⟩ := run_invariant charmap events
  refine ⟨fun r here => ?_, fun type known name => ordered.findService known name, fun type unknown name => ?_⟩
  case refine_2 =>
    cases type with
    | data | queue => exact absurd (by decide) unknown
    | command | stream | custom => rfl
  have value := (resolved r here).trans (ordered.lookup r.name)
  refine ⟨value, fun p held => ?_⟩
  rw [value, Option.mem_def, Option.map_eq_some_iff] at held
  obtain ⟨e, found, rfl⟩ := held
  obtain ⟨found, spelled⟩ := Option.filter_eq_some_iff.mp found
  rw [← of_decide_eq_true spelled]
  exact List.mem_of_find?_eq_some found

end

end BerylDB.Services
