import BerylDB.Services
import BerylDB.Transition
import Mathlib.Data.Prod.Lex

/-! # Subscribers of event providers

Every listener is a subscriber of the provider that its reference is resolved to, as long as a provider is attached once
only and the names of events have one slash. -/
namespace BerylDB.Services
open Text Transition

/-- The order of the subscribers: by priority, and by address when the priorities are equal. -/
def Subscriber.place (x : Subscriber) : ℕ ×ₗ ℕ := toLex (x.eventpriority, x.address)

theorem place_inj {x y : Subscriber} : x.place = y.place ↔ x = y := by
  rw [Subscriber.place, Subscriber.place, toLex_inj, Prod.mk.injEq, ← Subscriber.mk.injEq]

theorem elementComp_iff (x y : Subscriber) : elementComp x y = true ↔ x.place < y.place := by
  rw [Subscriber.place, Subscriber.place, Prod.Lex.toLex_lt_toLex, elementComp]
  split
  · next less => exact iff_of_true rfl (.inl less)
  · split
    · next greater => exact iff_of_false Bool.false_ne_true (by rintro (less | ⟨same, -⟩) <;> omega)
    · next least greatest =>
      have same : x.eventpriority = y.eventpriority := by omega
      simp [same]

abbrev Strict (l : List Subscriber) : Prop := l.Pairwise fun a b => a.place < b.place

/-- The subscriber that a listener is. -/
def Ref.Listens (r : Ref) (x : Subscriber) : Prop := r.owner = .listener x.eventpriority ∧ r.address = x.address

section
variable {charmap : CharMap} {providers providers' : List (Bytes × ServiceProvider)} {name : Bytes} {p q : ServiceProvider}
  {subs : Subscribers} {t : Table} {r : Ref} {refs : List Ref} {x : Subscriber} {a : ℕ}

/-! ## Lookups -/

theorem lookup_mem (found : lookup charmap providers name = some p) : (name, p) ∈ providers := by
  rw [lookup] at found
  split at found
  · next e there =>
    rw [Option.ite_none_right_eq_some, Option.some.injEq] at found
    obtain ⟨rfl, rfl⟩ := found
    exact List.mem_of_find?_eq_some there
  · cases found

theorem lookup_eq_some : lookup charmap providers name = some p ↔
    (providers.find? fun e => !charmap.insensitiveSwo e.1 name) = some (name, p) := by
  rw [lookup]
  split
  · next e there =>
    rw [there, Option.ite_none_right_eq_some, Option.some.injEq, Option.some.injEq]
    constructor
    · rintro ⟨rfl, rfl⟩
      rfl
    · rintro rfl
      exact ⟨rfl, rfl⟩
  · next none => simp [none]

/-- A provider that stays keeps the names that it is found under. -/
theorem lookup_filter (keep : Bytes × ServiceProvider → Bool) (kept : keep (name, p) = true)
    (found : lookup charmap providers name = some p) : lookup charmap (providers.filter keep) name = some p := by
  rw [lookup_eq_some] at found ⊢
  rw [List.find?_filter]
  induction providers with
  | nil => exact found
  | cons e providers ih =>
    by_cases below : charmap.insensitiveSwo e.1 name = true
    · rw [List.find?_cons_of_neg (by simp [below])] at found ⊢
      exact ih found
    · rw [List.find?_cons_of_pos (by simpa using below), Option.some.injEq] at found
      subst found
      rw [List.find?_cons_of_pos]
      simpa [kept] using below

theorem lookup_insertProvider (new : Bytes) (found : lookup charmap providers name = some p) :
    lookup charmap (insertProvider charmap providers new q) name = some p := by
  have trans {a b c : Bytes} (first : charmap.insensitiveSwo a b = true) (second : charmap.insensitiveSwo b c = true) :
      charmap.insensitiveSwo a c = true := by
    rw [CharMap.insensitiveSwo_iff] at *
    exact first.trans second
  rw [lookup_eq_some] at found ⊢
  rw [insertProvider]
  induction providers with
  | nil => cases found
  | cons e providers ih =>
    rw [Multimap.insertBehind]
    by_cases below : charmap.insensitiveSwo e.1 name = true
    · rw [List.find?_cons_of_neg (by simp [below])] at found
      split
      · next above => rw [List.find?_cons_of_neg (by simpa using trans above below), List.find?_cons_of_neg (by simp [below]), found]
      · rw [List.find?_cons_of_neg (by simp [below])]
        exact ih found
    · rw [List.find?_cons_of_pos (by simpa using below), Option.some.injEq] at found
      subst found
      split
      · next above =>
        rw [List.find?_cons_of_neg (by simpa [comp] using above), List.find?_cons_of_pos (by simpa using below)]
      · rw [List.find?_cons_of_pos (by simpa using below)]

theorem lookup_insertProviders (names : List Bytes) (found : lookup charmap providers name = some p) :
    lookup charmap (names.foldl (fun l name => insertProvider charmap l name q) providers) name = some p := by
  induction names generalizing providers with
  | nil => exact found
  | cons new names ih => exact ih (lookup_insertProvider new found)

theorem mem_insertProviders {e : Bytes × ServiceProvider} (names : List Bytes) :
    e ∈ names.foldl (fun l name => insertProvider charmap l name q) providers ↔
      e ∈ providers ∨ e.1 ∈ names ∧ e.2 = q := by
  induction names generalizing providers with
  | nil => simp
  | cons new names ih =>
    rw [List.foldl_cons, ih, insertProvider, Multimap.mem_insertBehind, List.mem_cons]
    constructor
    · rintro ((rfl | old) | ⟨here, same⟩)
      · exact .inr ⟨.inl rfl, rfl⟩
      · exact .inl old
      · exact .inr ⟨.inr here, same⟩
    · rintro (old | ⟨here | here, same⟩)
      · exact .inl (.inr old)
      · exact .inl (.inl (Prod.ext here same))
      · exact .inr ⟨here, same⟩

/-! ## Captures -/

/-- The reference is captured by a provider at the address. -/
def Captured (charmap : CharMap) (providers : List (Bytes × ServiceProvider)) (a : ℕ) (r : Ref) : Prop :=
  ∃ q, lookup charmap providers r.name = some q ∧ q.address = a ∧ r.value ≠ some q

variable (charmap r) in
theorem resolve_plain (plain : r.owner = .plain) : (resolve charmap providers r subs).2 = subs := by
  rw [resolve]
  split
  · split
    · simp only [onCapture, plain]
    · rfl
  · rfl

variable (charmap providers subs a) in
theorem resolve_listener {n : ℕ} (listener : r.owner = .listener n) :
    (Captured charmap providers a r ∧
        (resolve charmap providers r subs).2 a = Multimap.insertBefore elementComp ⟨n, r.address⟩ (subs a)) ∨
      ¬ Captured charmap providers a r ∧ (resolve charmap providers r subs).2 a = subs a := by
  rw [resolve]
  cases found : lookup charmap providers r.name with
  | none =>
    refine .inr ⟨?_, rfl⟩
    rintro ⟨q, there, -⟩
    rw [found] at there
    cases there
  | some q =>
    dsimp only
    by_cases same : r.value = some q
    · refine .inr ⟨?_, by simp [same]⟩
      rintro ⟨q', there, -, new⟩
      exact new (by rw [same, ← there, found])
    · simp only [ne_eq, same, not_false_eq_true, if_true, onCapture, listener, subscribe]
      by_cases here : q.address = a
      · subst here
        exact .inl ⟨⟨q, found, rfl, same⟩, Function.update_self ..⟩
      · refine .inr ⟨?_, Function.update_of_ne (Ne.symm here) ..⟩
        rintro ⟨q', there, place, -⟩
        rw [found, Option.some.injEq] at there
        exact here (there ▸ place)

variable (charmap providers subs a) in
theorem resolve_provider (owner : r.owner = .provider p) :
    (resolve charmap providers r subs).2 a = subs a ∨
      p.address = a ∧ (resolve charmap providers r subs).2 a = [] ∧
        ∃ q, lookup charmap providers r.name = some q ∧ q ≠ p := by
  rw [resolve]
  cases found : lookup charmap providers r.name with
  | none => exact .inl rfl
  | some q =>
    dsimp only
    by_cases same : r.value = some q
    · exact .inl (by simp [same])
    · simp only [ne_eq, same, not_false_eq_true, if_true, onCapture, owner]
      by_cases own : q = p
      · exact .inl (by simp [own])
      · rw [if_pos own]
        by_cases here : p.address = a
        · subst here
          exact .inr ⟨rfl, Function.update_self .., q, rfl, own⟩
        · exact .inl (Function.update_of_ne (Ne.symm here) ..)

variable (charmap providers) in
/-- Without a listener that is captured nothing is added. -/
theorem resolveAll_nil (refs : List Ref) {subs : Subscribers} (empty : subs a = [])
    (none : ∀ r ∈ refs, ∀ n, r.owner = .listener n → ¬ Captured charmap providers a r) :
    (resolveAll charmap providers refs subs).2 a = [] := by
  induction refs generalizing subs with
  | nil => exact empty
  | cons r refs ih =>
    rw [resolveAll]
    refine ih ?_ fun r' here => none r' (List.mem_cons_of_mem r here)
    cases owner : r.owner with
    | plain => rw [resolve_plain _ _ owner, empty]
    | listener n =>
      rcases resolve_listener charmap providers subs a owner with ⟨taken, -⟩ | ⟨-, same⟩
      · exact absurd taken (none r List.mem_cons_self n owner)
      · rw [same, empty]
    | provider p =>
      rcases resolve_provider charmap providers subs a owner with same | ⟨-, same, -⟩
      · rw [same, empty]
      · exact same

variable (charmap providers) in
/-- The listeners that are captured become subscribers, when no provider at the address loses its name. -/
theorem resolveAll_members (refs : List Ref) (subs : Subscribers) (strict : Strict (subs a))
    (distinct : (refs.map Ref.address).Nodup)
    (own : ∀ r ∈ refs, ∀ p, r.owner = .provider p → p.address = a → ∀ q, lookup charmap providers r.name = some q → q = p)
    (new : ∀ r ∈ refs, ∀ x, r.Listens x → Captured charmap providers a r → x ∉ subs a) :
    Strict ((resolveAll charmap providers refs subs).2 a) ∧
    ∀ x, x ∈ (resolveAll charmap providers refs subs).2 a ↔
      x ∈ subs a ∨ ∃ r ∈ refs, r.Listens x ∧ Captured charmap providers a r := by
  induction refs generalizing subs with
  | nil => exact ⟨strict, fun x => by simp [resolveAll]⟩
  | cons r refs ih =>
    obtain ⟨apart, distinct⟩ := List.nodup_cons.mp distinct
    have own' := fun r' here => own r' (List.mem_cons_of_mem r here)
    have new' := fun r' here => new r' (List.mem_cons_of_mem r here)
    rw [resolveAll]
    have still (same : (resolve charmap providers r subs).2 a = subs a) (quiet : ∀ x, ¬ (r.Listens x ∧ Captured charmap providers a r)) :
        Strict ((resolveAll charmap providers refs (resolve charmap providers r subs).2).2 a) ∧
        ∀ x, x ∈ (resolveAll charmap providers refs (resolve charmap providers r subs).2).2 a ↔
          x ∈ subs a ∨ ∃ r' ∈ r :: refs, r'.Listens x ∧ Captured charmap providers a r' := by
      obtain ⟨strict', members⟩ := ih (resolve charmap providers r subs).2 (same ▸ strict) distinct own' (same ▸ new')
      refine ⟨strict', fun x => ?_⟩
      rw [members, same]
      refine or_congr_right ⟨?_, ?_⟩
      · rintro ⟨r', here, both⟩
        exact ⟨r', List.mem_cons_of_mem r here, both⟩
      · rintro ⟨r', here, both⟩
        rcases List.mem_cons.mp here with rfl | here
        · exact absurd both (quiet x)
        · exact ⟨r', here, both⟩
    cases owner : r.owner with
    | plain =>
      refine still (by rw [resolve_plain _ _ owner]) fun x both => ?_
      have listens := both.1.1
      simp [owner] at listens
    | listener n =>
      rcases resolve_listener charmap providers _ a owner with ⟨taken, added⟩ | ⟨free, same⟩
      · have listens : r.Listens ⟨n, r.address⟩ := ⟨owner, rfl⟩
        have fresh := new r List.mem_cons_self _ listens taken
        have strict' : Strict ((resolve charmap providers r subs).2 a) := by
          rw [added]
          exact Multimap.strict_insertBefore elementComp_iff strict fun x hx same => fresh (place_inj.mp same ▸ hx)
        obtain ⟨strict', members⟩ := ih (resolve charmap providers r subs).2 strict' distinct own' (by
          intro r' here x listens' taken' inside
          rw [added, Multimap.mem_insertBefore] at inside
          rcases inside with rfl | inside
          · exact apart (List.mem_map.mpr ⟨r', here, listens'.2⟩)
          · exact new' r' here x listens' taken' inside)
        refine ⟨strict', fun x => ?_⟩
        rw [members, added, Multimap.mem_insertBefore]
        constructor
        · rintro ((rfl | old) | ⟨r', here, both⟩)
          · exact .inr ⟨r, List.mem_cons_self, listens, taken⟩
          · exact .inl old
          · exact .inr ⟨r', List.mem_cons_of_mem r here, both⟩
        · rintro (old | ⟨r', here, listens', taken'⟩)
          · exact .inl (.inr old)
          · rcases List.mem_cons.mp here with rfl | here
            · refine .inl (.inl ?_)
              obtain ⟨kind, place⟩ := listens'
              rw [owner, Owner.listener.injEq] at kind
              rw [kind, place]
            · exact .inr ⟨r', here, listens', taken'⟩
      · exact still same fun x both => free both.2
    | provider p =>
      refine still ?_ fun x both => ?_
      · rcases resolve_provider charmap providers _ a owner with same | ⟨here, -, q, found, other⟩
        · exact same
        · exact absurd (own r List.mem_cons_self p owner here q found) other
      · have listens := both.1.1
        simp [owner] at listens

theorem ifListening_of_not {owner : Owner} {value : Option ServiceProvider} {act : ServiceProvider → ℕ → Subscribers}
    (h : ¬ ∃ n p, owner = .listener n ∧ value = some p) : ifListening owner value act subs = subs := by
  cases owner with
  | plain => rfl
  | provider p => rfl
  | listener n =>
    cases value with
    | none => rfl
    | some p => exact absurd ⟨n, p, rfl, rfl⟩ h

/-! ## What the subscribers are -/

/-- The subscribers of a registered provider are the listeners whose name it is found under. -/
def Subscribed (charmap : CharMap) (providers : List (Bytes × ServiceProvider)) (refs : List Ref) (subs : Subscribers)
    (p : ServiceProvider) : Prop :=
  Strict (subs p.address) ∧
  ∀ x, x ∈ subs p.address ↔ ∃ r ∈ refs, r.Listens x ∧ lookup charmap providers r.name = some p

/-- `attached` holds the addresses of the providers that were attached so far. -/
structure Registry (providers : List (Bytes × ServiceProvider)) (attached : List ℕ) : Prop where
  address : ∀ e ∈ providers, e.2.address ∈ attached
  slash : ∀ e ∈ providers, 47 ∈ e.1 → e.1 = e.2.name
  same : ∀ e ∈ providers, ∀ e' ∈ providers, e.2.address = e'.2.address → e.2 = e'.2

/-- An event provider looks for its own name, and a listener for one with a slash. -/
structure Named (providers : List (Bytes × ServiceProvider)) (refs : List Ref) : Prop where
  listener : ∀ r ∈ refs, ∀ n, r.owner = .listener n → 47 ∈ r.name
  provider : ∀ r ∈ refs, ∀ p, r.owner = .provider p → r.name = p.name
  same : ∀ r ∈ refs, ∀ p, r.owner = .provider p → ∀ e ∈ providers, e.2.address = p.address → e.2 = p
  distinct : (refs.map Ref.address).Nodup

structure Coherent (charmap : CharMap) (t : Table) (attached : List ℕ) : Prop where
  registry : Registry t.providers attached
  named : Named t.providers t.refs
  resolved : Resolved charmap t
  idle : ∀ a ∉ attached, t.subscribers a = []
  subscribed : ∀ e ∈ t.providers, Subscribed charmap t.providers t.refs t.subscribers e.2

theorem lookup_address {attached : List ℕ} (registry : Registry providers attached)
    (found : lookup charmap providers name = some p) : p.address ∈ attached :=
  registry.address _ (lookup_mem found)

theorem eq_of_address (distinct : (refs.map Ref.address).Nodup) {r r' : Ref} (here : r ∈ refs) (here' : r' ∈ refs)
    (same : r.address = r'.address) : r = r' :=
  List.inj_on_of_nodup_map distinct here here' same

/-- The values of the references are not looked at. -/
theorem Named.revalued (named : Named providers refs) (value : Ref → Option ServiceProvider) :
    Named providers (refs.map fun r => { r with value := value r }) where
  listener r here n := by
    obtain ⟨r, known, rfl⟩ := List.mem_map.mp here
    exact named.listener r known n
  provider r here p := by
    obtain ⟨r, known, rfl⟩ := List.mem_map.mp here
    exact named.provider r known p
  same r here p := by
    obtain ⟨r, known, rfl⟩ := List.mem_map.mp here
    exact named.same r known p
  distinct := by
    rw [List.map_map]
    exact named.distinct

theorem Subscribed.revalued (subscribed : Subscribed charmap providers refs subs p) (value : Ref → Option ServiceProvider) :
    Subscribed charmap providers (refs.map fun r => { r with value := value r }) subs p := by
  refine ⟨subscribed.1, fun x => (subscribed.2 x).trans ⟨?_, ?_⟩⟩
  · rintro ⟨r, known, listens, found⟩
    exact ⟨_, List.mem_map_of_mem known, listens, found⟩
  · rintro ⟨r', there, listens, found⟩
    obtain ⟨r, known, rfl⟩ := List.mem_map.mp there
    exact ⟨r, known, listens, found⟩

section
variable {attached attached' : List ℕ} {e : Bytes × ServiceProvider}

/-- A provider that is found under its own name gains the listeners that find it now. -/
theorem Subscribed.found (c : Coherent charmap t attached) (named : Named providers' t.refs) (here : e ∈ providers')
    (before : Subscribed charmap t.providers t.refs t.subscribers e.2)
    (stays : ∀ name, lookup charmap t.providers name = some e.2 → lookup charmap providers' name = some e.2)
    (unique : ∀ name q, lookup charmap providers' name = some q → q.address = e.2.address → q = e.2)
    (current : lookup charmap providers' e.2.name = some e.2) :
    Subscribed charmap providers' t.refs (resolveAll charmap providers' t.refs t.subscribers).2 e.2 := by
  obtain ⟨strict, members⟩ := before
  have own (r : Ref) (known : r ∈ t.refs) (p : ServiceProvider) (owner : r.owner = .provider p)
      (place : p.address = e.2.address) (q : ServiceProvider) (found : lookup charmap providers' r.name = some q) :
      q = p := by
    have same : e.2 = p := named.same r known p owner e here place.symm
    rw [named.provider r known p owner, ← same, current, Option.some.injEq] at found
    rw [← found, same]
  have new (r : Ref) (known : r ∈ t.refs) (x : Subscriber) (listens : r.Listens x)
      (taken : Captured charmap providers' e.2.address r) : x ∉ t.subscribers e.2.address := by
    intro inside
    obtain ⟨q, found, place, new⟩ := taken
    obtain ⟨r', known', listens', found'⟩ := (members x).mp inside
    obtain rfl := eq_of_address named.distinct known known' (listens.2.trans listens'.2.symm)
    rw [c.resolved r known, found', unique _ q found place] at new
    exact new rfl
  obtain ⟨strict', members'⟩ := resolveAll_members charmap providers' t.refs t.subscribers strict named.distinct own new
  refine ⟨strict', fun x => ?_⟩
  rw [members', members]
  constructor
  · rintro (⟨r, known, listens, found⟩ | ⟨r, known, listens, q, found, place, -⟩)
    · exact ⟨r, known, listens, stays _ found⟩
    · exact ⟨r, known, listens, unique _ q found place ▸ found⟩
  · rintro ⟨r, known, listens, found⟩
    by_cases old : lookup charmap t.providers r.name = some e.2
    · exact .inl ⟨r, known, listens, old⟩
    · exact .inr ⟨r, known, listens, e.2, found, rfl, c.resolved r known ▸ old⟩

/-- A provider whose name is registered first for another one is found by no listener, and has none. -/
theorem Subscribed.hidden (registry : Registry providers' attached') (named : Named providers' t.refs)
    (before : Subscribed charmap t.providers t.refs t.subscribers e.2)
    (stays : ∀ name, lookup charmap t.providers name = some e.2 → lookup charmap providers' name = some e.2)
    (unique : ∀ name q, lookup charmap providers' name = some q → q.address = e.2.address → q = e.2)
    (other : lookup charmap providers' e.2.name ≠ some e.2) :
    Subscribed charmap providers' t.refs (resolveAll charmap providers' t.refs t.subscribers).2 e.2 := by
  have nobody (r : Ref) (known : r ∈ t.refs) (n : ℕ) (owner : r.owner = .listener n) :
      lookup charmap providers' r.name ≠ some e.2 := by
    intro found
    have spelled := registry.slash _ (lookup_mem found) (named.listener r known n owner)
    exact other (spelled ▸ found)
  have empty : t.subscribers e.2.address = [] := by
    refine List.eq_nil_iff_forall_not_mem.mpr fun x inside => ?_
    obtain ⟨r, known, listens, found⟩ := (before.2 x).mp inside
    exact nobody r known _ listens.1 (stays _ found)
  have still := resolveAll_nil charmap providers' t.refs empty fun r known n owner => by
    rintro ⟨q, found, place, -⟩
    exact nobody r known n owner (unique _ q found place ▸ found)
  rw [Subscribed, still]
  refine ⟨List.Pairwise.nil, fun x => iff_of_false List.not_mem_nil ?_⟩
  rintro ⟨r, known, listens, found⟩
  exact nobody r known _ listens.1 found

/-- Other providers are registered, and all references are resolved again. -/
theorem Coherent.reset (c : Coherent charmap t attached)
    (registry : Registry providers' attached') (named : Named providers' t.refs) (more : ∀ a ∈ attached, a ∈ attached')
    (stays : ∀ name p, lookup charmap t.providers name = some p → (∃ k, (k, p) ∈ providers') →
      lookup charmap providers' name = some p)
    (known : ∀ e ∈ providers', (∃ k, (k, e.2) ∈ t.providers) ∨ e.2.address ∉ attached) :
    Coherent charmap (resetAll charmap { t with providers := providers' }) attached' := by
  have refs : (resetAll charmap { t with providers := providers' }).refs =
      t.refs.map fun r => { r with value := lookup charmap providers' r.name } := resolveAll_fst ..
  have subs : (resetAll charmap { t with providers := providers' }).subscribers =
      (resolveAll charmap providers' t.refs t.subscribers).2 := rfl
  -- what an address of a registered provider has to do with the old table
  have before : ∀ e ∈ providers', Subscribed charmap t.providers t.refs t.subscribers e.2 := fun e here => by
    rcases known e here with ⟨k, old⟩ | new
    · exact c.subscribed (k, e.2) old
    · rw [Subscribed, c.idle _ new]
      refine ⟨List.Pairwise.nil, fun x => iff_of_false List.not_mem_nil ?_⟩
      rintro ⟨r, -, -, found⟩
      exact new (lookup_address c.registry found)
  exact {
    registry := registry
    named := by
      rw [refs]
      exact named.revalued _
    resolved := resetAll_resolved _
    idle := fun a out => by
      rw [subs]
      refine resolveAll_nil _ _ t.refs (c.idle a fun old => out (more a old)) ?_
      rintro r - n - ⟨q, found, rfl, -⟩
      exact out (lookup_address registry found)
    subscribed := fun e here => by
      have stays' (name : Bytes) (found : lookup charmap t.providers name = some e.2) :
          lookup charmap providers' name = some e.2 := stays name e.2 found ⟨e.1, here⟩
      have unique (name : Bytes) (q : ServiceProvider) (found : lookup charmap providers' name = some q)
          (same : q.address = e.2.address) : q = e.2 := registry.same _ (lookup_mem found) e here same
      rw [subs, refs]
      refine Subscribed.revalued ?_ _
      by_cases current : lookup charmap providers' e.2.name = some e.2
      · exact Subscribed.found c named here (before e here) stays' unique current
      · exact Subscribed.hidden registry named (before e here) stays' unique current }

end

/-! ## Runs -/

/-- A provider is attached once, with one slash in its name at most.  Objects have addresses of their own, the names that
listeners look for have a slash, and an event provider looks for its own name. -/
def Allowed (s : Table × List ℕ) : Event → Prop
  | .attachService p =>
    p.address ∉ s.2 ∧ 47 ∉ (cutAt 47 p.name).2 ∧ ∀ r ∈ s.1.refs, ∀ q, r.owner = .provider q → q.address = p.address → p = q
  | .createReference _ _ => False
  | .construct address name owner => (∀ r ∈ s.1.refs, r.address ≠ address) ∧
    match owner with
    | .plain => True
    | .listener _ => 47 ∈ name
    | .provider p => name = p.name ∧ p.address ∉ s.2
  | .setProvider address _ => ∀ r ∈ s.1.refs, r.address = address → r.owner = .plain
  | _ => True

/-- The table, and the addresses of the providers that were attached. -/
def attachStep (charmap : CharMap) (s : Table × List ℕ) (e : Event) : Table × List ℕ :=
  (step charmap s.1 e, match e with
    | .attachService p => p.address :: s.2
    | _ => s.2)

variable {s : Table × List ℕ} {attached : List ℕ}

theorem Registry.filter (registry : Registry providers attached) (keep : Bytes × ServiceProvider → Bool) :
    Registry (providers.filter keep) attached where
  address e here := registry.address e (List.mem_filter.mp here).1
  slash e here := registry.slash e (List.mem_filter.mp here).1
  same e here e' here' := registry.same e (List.mem_filter.mp here).1 e' (List.mem_filter.mp here').1

theorem Coherent.filter (c : Coherent charmap t attached) (keep : ServiceProvider → Bool) :
    Coherent charmap (resetAll charmap { t with providers := t.providers.filter fun e => keep e.2 }) attached := by
  refine c.reset (c.registry.filter _) ?_ (fun _ here => here) (fun name p found there => ?_) fun e here => ?_
  · exact { c.named with same := fun r known p owner e here => c.named.same r known p owner e (List.mem_filter.mp here).1 }
  · obtain ⟨k, there⟩ := there
    exact lookup_filter (fun e => keep e.2) (List.mem_filter.mp there).2 found
  · exact .inl ⟨e.1, (List.mem_filter.mp here).1⟩

/-- With one slash at most, only the whole name has one. -/
theorem slash_names (one : 47 ∉ (cutAt 47 p.name).2) (here : name ∈ p.names) (slash : 47 ∈ name) : name = p.name := by
  rw [ServiceProvider.names] at here
  split at here
  · next has =>
    have front : 47 ∉ (cutAt 47 p.name).1 := by
      rw [cutAt, if_pos has]
      exact fun inside => by simpa using List.mem_takeWhile_imp inside
    simp only [List.mem_cons, List.not_mem_nil, or_false] at here
    rcases here with rfl | rfl | rfl
    · rfl
    · exact absurd slash front
    · exact absurd slash one
  · exact List.mem_singleton.mp here

theorem Coherent.attach (c : Coherent charmap t attached) (fresh : p.address ∉ attached) (one : 47 ∉ (cutAt 47 p.name).2)
    (own : ∀ r ∈ t.refs, ∀ q, r.owner = .provider q → q.address = p.address → p = q) :
    Coherent charmap
      (resetAll charmap { t with providers := p.names.foldl (fun l name => insertProvider charmap l name p) t.providers })
      (p.address :: attached) := by
  refine c.reset ?_ ?_ (fun a here => List.mem_cons_of_mem _ here) (fun name q found _ => lookup_insertProviders _ found) ?_
  · exact {
      address := fun e here => by
        rcases (mem_insertProviders _).mp here with old | ⟨-, same⟩
        · exact List.mem_cons_of_mem _ (c.registry.address e old)
        · rw [same]
          exact List.mem_cons_self
      slash := fun e here slash => by
        rcases (mem_insertProviders _).mp here with old | ⟨named, same⟩
        · exact c.registry.slash e old slash
        · rw [same]
          exact slash_names one named slash
      same := fun e here e' here' equal => by
        rcases (mem_insertProviders _).mp here with old | ⟨-, same⟩ <;>
          rcases (mem_insertProviders _).mp here' with old' | ⟨-, same'⟩
        · exact c.registry.same e old e' old' equal
        · exact absurd (equal ▸ c.registry.address e old) (same' ▸ fresh)
        · exact absurd (equal.symm ▸ c.registry.address e' old') (same ▸ fresh)
        · rw [same, same'] }
  · exact { c.named with
      same := fun r known q owner e here equal => by
        rcases (mem_insertProviders _).mp here with old | ⟨-, same⟩
        · exact c.named.same r known q owner e old equal
        · rw [same] at equal ⊢
          exact own r known q owner equal.symm }
  · intro e here
    rcases (mem_insertProviders _).mp here with old | ⟨-, same⟩
    · exact .inl ⟨e.1, old⟩
    · exact .inr (same ▸ fresh)

/-- One more reference, on an address of its own. -/
theorem Named.cons {r : Ref} (named : Named providers refs) (fresh : ∀ r' ∈ refs, r'.address ≠ r.address)
    (listener : ∀ n, r.owner = .listener n → 47 ∈ r.name) (provider : ∀ p, r.owner = .provider p → r.name = p.name)
    (same : ∀ p, r.owner = .provider p → ∀ e ∈ providers, e.2.address = p.address → e.2 = p) :
    Named providers (r :: refs) where
  listener r' here := by
    rcases List.mem_cons.mp here with rfl | here
    · exact listener
    · exact named.listener r' here
  provider r' here := by
    rcases List.mem_cons.mp here with rfl | here
    · exact provider
    · exact named.provider r' here
  same r' here := by
    rcases List.mem_cons.mp here with rfl | here
    · exact same
    · exact named.same r' here
  distinct := by
    refine List.nodup_cons.mpr ⟨fun there => ?_, named.distinct⟩
    obtain ⟨r', here, equal⟩ := List.mem_map.mp there
    exact fresh r' here equal

theorem Coherent.construct (c : Coherent charmap t attached) {owner : Owner} (fresh : ∀ r ∈ t.refs, r.address ≠ a)
    (listener : ∀ n, owner = .listener n → 47 ∈ name)
    (provider : ∀ p, owner = .provider p → name = p.name ∧ p.address ∉ attached) :
    Coherent charmap (construct charmap t a name owner) attached := by
  have named : Named t.providers (⟨a, name, owner, lookup charmap t.providers name⟩ :: t.refs) :=
    c.named.cons fresh listener (fun p kind => (provider p kind).1) fun p kind e known equal =>
      absurd (equal ▸ c.registry.address e known) (provider p kind).2
  have resolved : Resolved charmap (Services.construct charmap t a name owner) :=
    step_resolved c.resolved (.construct a name owner)
  -- the members without the new reference
  have others (e : Bytes × ServiceProvider) (here : e ∈ t.providers) (x : Subscriber)
      (quiet : ¬ (owner = .listener x.eventpriority ∧ a = x.address ∧ lookup charmap t.providers name = some e.2)) :
      x ∈ t.subscribers e.2.address ↔ ∃ r ∈ (⟨a, name, owner, lookup charmap t.providers name⟩ :: t.refs : List Ref),
        r.Listens x ∧ lookup charmap t.providers r.name = some e.2 := by
    rw [(c.subscribed e here).2]
    constructor
    · rintro ⟨r, known, both⟩
      exact ⟨r, List.mem_cons_of_mem _ known, both⟩
    · rintro ⟨r, known, both⟩
      rcases List.mem_cons.mp known with rfl | known
      · exact absurd ⟨both.1.1, both.1.2, both.2⟩ quiet
      · exact ⟨r, known, both⟩
  by_cases taken : ∃ n p, owner = .listener n ∧ lookup charmap t.providers name = some p
  · obtain ⟨n, p, rfl, found⟩ := taken
    have made : Services.construct charmap t a name (.listener n) =
        { t with
          refs := ⟨a, name, .listener n, lookup charmap t.providers name⟩ :: t.refs
          subscribers := subscribe t.subscribers p n a } := by
      simp only [Services.construct, found, ifListening]
    rw [made] at resolved ⊢
    exact {
      registry := c.registry
      named := named
      resolved := resolved
      idle := fun b out => by
        have other : b ≠ p.address := fun same => out (same ▸ lookup_address c.registry found)
        simp only [subscribe, Function.update_of_ne other]
        exact c.idle b out
      subscribed := fun e here => by
        by_cases own : e.2.address = p.address
        · have same : e.2 = p := c.registry.same e here (name, p) (lookup_mem found) own
          have new : ∀ x ∈ t.subscribers e.2.address, x.place ≠ Subscriber.place ⟨n, a⟩ := fun x inside equal => by
            obtain ⟨r, known, listens, -⟩ := ((c.subscribed e here).2 x).mp inside
            rw [place_inj.mp equal] at listens
            exact fresh r known listens.2
          rw [Subscribed]
          simp only [subscribe, ← own, Function.update_self]
          refine ⟨Multimap.strict_insertBefore elementComp_iff (c.subscribed e here).1 new, fun x => ?_⟩
          rw [Multimap.mem_insertBefore]
          by_cases self : x = ⟨n, a⟩
          · subst self
            exact iff_of_true (.inl rfl) ⟨_, List.mem_cons_self, ⟨rfl, rfl⟩, same ▸ found⟩
          · rw [or_iff_right self]
            exact others e here x fun both => self (by rw [Owner.listener.inj both.1, both.2.1])
        · rw [Subscribed]
          simp only [subscribe, Function.update_of_ne own]
          refine ⟨(c.subscribed e here).1, fun x => others e here x fun both => own ?_⟩
          have found' := both.2.2
          rw [found, Option.some.injEq] at found'
          rw [found'] }
  · have made : Services.construct charmap t a name owner =
        { t with refs := ⟨a, name, owner, lookup charmap t.providers name⟩ :: t.refs } := by
      rw [Services.construct, ifListening_of_not taken]
    rw [made] at resolved ⊢
    exact {
      registry := c.registry
      named := named
      resolved := resolved
      idle := c.idle
      subscribed := fun e here => ⟨(c.subscribed e here).1, fun x => others e here x fun both =>
        taken ⟨_, _, both.1, both.2.2⟩⟩ }

theorem Coherent.setProvider (c : Coherent charmap t attached) (plain : ∀ r ∈ t.refs, r.address = a → r.owner = .plain) :
    Coherent charmap (setProvider charmap t a name) attached := by
  have resolved : Resolved charmap (Services.setProvider charmap t a name) := step_resolved c.resolved (.setProvider a name)
  rw [Services.setProvider] at resolved ⊢
  cases found : t.refs.find? fun r => r.address = a with
  | none => exact c
  | some r =>
    have known := List.mem_of_find?_eq_some found
    have place : r.address = a := by simpa using List.find?_some found
    have silent := plain r known place
    rw [found] at resolved
    simp only [resolve_fst, resolve_plain charmap { r with name := name } silent] at resolved ⊢
    -- all but the plain reference stay as they are
    have members (r' : Ref) : r' ∈ t.refs.map (fun r' => if r'.address = a then
          ({ r with name := name, value := lookup charmap t.providers name } : Ref) else r') →
        r' ∈ t.refs ∧ r'.address ≠ a ∨ r'.owner = .plain := by
      intro there
      obtain ⟨r', known', rfl⟩ := List.mem_map.mp there
      split
      · exact .inr silent
      · next other => exact .inl ⟨known', other⟩
    have addresses : (t.refs.map (fun r' => if r'.address = a then
          ({ r with name := name, value := lookup charmap t.providers name } : Ref) else r')).map Ref.address =
        t.refs.map Ref.address := by
      rw [List.map_map]
      refine List.map_congr_left fun r' _ => ?_
      by_cases same : r'.address = a <;> simp [same, place]
    exact {
      registry := c.registry
      named := {
        listener := fun r' there n owner => by
          rcases members r' there with ⟨here, -⟩ | none
          · exact c.named.listener r' here n owner
          · simp [none] at owner
        provider := fun r' there p owner => by
          rcases members r' there with ⟨here, -⟩ | none
          · exact c.named.provider r' here p owner
          · simp [none] at owner
        same := fun r' there p owner => by
          rcases members r' there with ⟨here, -⟩ | none
          · exact c.named.same r' here p owner
          · simp [none] at owner
        distinct := addresses ▸ c.named.distinct }
      resolved := resolved
      idle := c.idle
      subscribed := fun e here => by
        refine ⟨(c.subscribed e here).1, fun x => ((c.subscribed e here).2 x).trans ⟨?_, ?_⟩⟩
        · rintro ⟨r', here', listens, looked⟩
          have other : r'.address ≠ a := fun same => by simpa [plain r' here' same] using listens.1
          exact ⟨r', List.mem_map.mpr ⟨r', here', if_neg other⟩, listens, looked⟩
        · rintro ⟨r', there, listens, looked⟩
          rcases members r' there with ⟨here', -⟩ | none
          · exact ⟨r', here', listens, looked⟩
          · have kind := listens.1
            simp [none] at kind }

theorem Named.filter (named : Named providers refs) (keep : Ref → Bool) : Named providers (refs.filter keep) where
  listener r here := named.listener r (List.mem_filter.mp here).1
  provider r here := named.provider r (List.mem_filter.mp here).1
  same r here := named.same r (List.mem_filter.mp here).1
  distinct := (List.filter_sublist.map _).nodup named.distinct

theorem Coherent.destruct (c : Coherent charmap t attached) : Coherent charmap (destruct t a) attached := by
  have resolved : Resolved charmap (Services.destruct t a) := step_resolved c.resolved (.destruct a)
  rw [Services.destruct] at resolved ⊢
  cases found : t.refs.find? fun r => r.address = a with
  | none => exact c
  | some r =>
    have known := List.mem_of_find?_eq_some found
    have place : r.address = a := by simpa using List.find?_some found
    rw [found] at resolved
    dsimp only at resolved ⊢
    have named : Named t.providers (t.refs.filter fun r => r.address ≠ a) := c.named.filter _
    have stays (r' : Ref) : r' ∈ t.refs.filter (fun r => r.address ≠ a) ↔ r' ∈ t.refs ∧ r' ≠ r := by
      rw [List.mem_filter, decide_eq_true_eq]
      refine and_congr_right fun here => not_congr ⟨fun same => ?_, fun same => same ▸ place⟩
      exact eq_of_address c.named.distinct here known (same.trans place.symm)
    -- the members of a provider that the reference is not captured by
    have others (e : Bytes × ServiceProvider) (here : e ∈ t.providers) (x : Subscriber)
        (quiet : ¬ (r.Listens x ∧ lookup charmap t.providers r.name = some e.2)) :
        x ∈ t.subscribers e.2.address ↔ ∃ r' ∈ t.refs.filter (fun r => r.address ≠ a),
          r'.Listens x ∧ lookup charmap t.providers r'.name = some e.2 := by
      rw [(c.subscribed e here).2]
      constructor
      · rintro ⟨r', here', both⟩
        exact ⟨r', (stays r').mpr ⟨here', fun same => quiet (same ▸ both)⟩, both⟩
      · rintro ⟨r', here', both⟩
        exact ⟨r', ((stays r').mp here').1, both⟩
    by_cases taken : ∃ n p, r.owner = .listener n ∧ r.value = some p
    · obtain ⟨n, p, owner, value⟩ := taken
      have looked : lookup charmap t.providers r.name = some p := (c.resolved r known).symm.trans value
      simp only [owner, value, ifListening] at resolved ⊢
      exact {
        registry := c.registry
        named := named
        resolved := resolved
        idle := fun b out => by
          have other : b ≠ p.address := fun same => out (same ▸ lookup_address c.registry looked)
          simp only [unsubscribe, Function.update_of_ne other]
          exact c.idle b out
        subscribed := fun e here => by
          rw [Subscribed]
          by_cases own : e.2.address = p.address
          · simp only [unsubscribe, ← own, Function.update_self]
            refine ⟨List.Pairwise.sublist List.filter_sublist (c.subscribed e here).1, fun x => ?_⟩
            rw [Multimap.mem_eraseEqual elementComp_iff, ne_eq, place_inj]
            by_cases self : x = ⟨n, a⟩
            · subst self
              refine iff_of_false (fun both => both.2 rfl) ?_
              rintro ⟨r', here', listens, -⟩
              exact of_decide_eq_true (List.mem_filter.mp here').2 listens.2
            · rw [and_iff_left self]
              refine others e here x fun both => self ?_
              have kind := both.1.1
              rw [owner, Owner.listener.injEq] at kind
              rw [kind, ← place, both.1.2]
          · simp only [unsubscribe, Function.update_of_ne own]
            refine ⟨(c.subscribed e here).1, fun x => others e here x fun both => own ?_⟩
            have found' := both.2
            rw [looked, Option.some.injEq] at found'
            rw [found'] }
    · rw [ifListening_of_not taken] at resolved ⊢
      exact {
        registry := c.registry
        named := named
        resolved := resolved
        idle := c.idle
        subscribed := fun e here => ⟨(c.subscribed e here).1, fun x => others e here x fun both =>
          taken ⟨_, _, both.1.1, (c.resolved r known).trans both.2⟩⟩ }

theorem Coherent.step (c : Coherent charmap s.1 s.2) {e : Event} (allowed : Allowed s e) :
    Coherent charmap (attachStep charmap s e).1 (attachStep charmap s e).2 := by
  cases e with
  | attachService p =>
    obtain ⟨fresh, one, own⟩ := allowed
    simp only [attachStep, Services.step]
    split
    · exact c.attach fresh one own
    · exact {
        registry := { c.registry with address := fun e here => List.mem_cons_of_mem _ (c.registry.address e here) }
        named := c.named
        resolved := c.resolved
        idle := fun a out => c.idle a fun old => out (List.mem_cons_of_mem _ old)
        subscribed := c.subscribed }
  | unAttachService p =>
    simp only [attachStep, Services.step]
    split
    · exact c.filter fun q => q ≠ p
    · exact c
  | createReference name p => exact allowed.elim
  | smartUnload module => exact c.filter fun q => q.creator ≠ some module
  | construct address name owner =>
    obtain ⟨fresh, kind⟩ := allowed
    refine c.construct fresh (fun n same => ?_) fun p same => ?_
    · rw [same] at kind
      exact kind
    · rw [same] at kind
      exact kind
  | setProvider address newname => exact c.setProvider allowed
  | destruct address => exact c.destruct

theorem Coherent.run (events : List Event) (c : Coherent charmap s.1 s.2) (along : Along (attachStep charmap) Allowed s events) :
    Coherent charmap (events.foldl (attachStep charmap) s).1 (events.foldl (attachStep charmap) s).2 := by
  induction events generalizing s with
  | nil => exact c
  | cons e events ih =>
    obtain ⟨allowed, later⟩ := along
    exact ih (c.step allowed) later

theorem attachStep_fst (events : List Event) (s : Table × List ℕ) :
    (events.foldl (attachStep charmap) s).1 = events.foldl (Services.step charmap) s.1 := by
  induction events generalizing s with
  | nil => rfl
  | cons e events ih => exact ih (attachStep charmap s e)

/-- In every run, the subscribers of a registered provider are the listeners that are resolved to it, each of them once,
in the order of their priorities and addresses. -/
theorem events_reach_listeners (charmap : CharMap) (events : List Event)
    (along : Along (attachStep charmap) Allowed (.empty, []) events) :
    ∀ e ∈ (run charmap events).providers,
      ((run charmap events).subscribers e.2.address).Pairwise (fun a b => a.place < b.place) ∧
      ∀ x, x ∈ (run charmap events).subscribers e.2.address ↔
        ∃ r ∈ (run charmap events).refs, r.owner = .listener x.eventpriority ∧ r.address = x.address ∧ r.value = some e.2 := by
  have start : Coherent charmap Table.empty [] := {
    registry := ⟨by simp [Table.empty], by simp [Table.empty], by simp [Table.empty]⟩
    named := ⟨by simp [Table.empty], by simp [Table.empty], by simp [Table.empty], List.nodup_nil⟩
    resolved := fun r here => absurd here List.not_mem_nil
    idle := fun _ _ => rfl
    subscribed := by simp [Table.empty] }
  have c := start.run (s := (.empty, [])) events along
  rw [attachStep_fst] at c
  refine fun e here => ⟨(c.subscribed e here).1, fun x => ((c.subscribed e here).2 x).trans ?_⟩
  refine exists_congr fun r => and_congr_right fun known => ?_
  rw [c.resolved r known, Ref.Listens, and_assoc]

end

/-- Two listeners of one event, the second one with the smaller number, and a module whose provider takes over. -/
theorem events_reach_listeners_two : ((run .ascii [.construct 10 (lit "event/x") (.listener 100),
      .attachService ⟨1, lit "event/x", .data, some 7⟩, .construct 11 (lit "event/x") (.listener 50),
      .attachService ⟨2, lit "event/x", .data, none⟩, .smartUnload 7]).subscribers 2).Pairwise (fun a b => a.place < b.place) := by
  have here : ((lit "event/x", ⟨2, lit "event/x", .data, none⟩) : Bytes × ServiceProvider) ∈ (run .ascii
      [.construct 10 (lit "event/x") (.listener 100), .attachService ⟨1, lit "event/x", .data, some 7⟩,
        .construct 11 (lit "event/x") (.listener 50), .attachService ⟨2, lit "event/x", .data, none⟩,
        .smartUnload 7]).providers := by decide +kernel
  have listeners {owner : Owner} {q : ServiceProvider} (one : owner ∈ [Owner.listener 100, .listener 50])
      (same : owner = .provider q) : False := by
    rw [same] at one
    simp at one
  have along : Along (attachStep .ascii) Allowed (.empty, []) [.construct 10 (lit "event/x") (.listener 100),
      .attachService ⟨1, lit "event/x", .data, some 7⟩, .construct 11 (lit "event/x") (.listener 50),
      .attachService ⟨2, lit "event/x", .data, none⟩, .smartUnload 7] := by
    refine ⟨⟨by decide +kernel, ?_⟩, ⟨by decide +kernel, by decide +kernel, fun r here q owner => ?_⟩,
      ⟨by decide +kernel, ?_⟩, ⟨by decide +kernel, by decide +kernel, fun r here q owner => ?_⟩, trivial, trivial⟩
    · exact (by decide +kernel : 47 ∈ lit "event/x")
    · exact (listeners ((by decide +kernel : ∀ r ∈ (run .ascii [.construct 10 (lit "event/x") (.listener 100)]).refs,
        r.owner ∈ [Owner.listener 100, .listener 50]) r here) owner).elim
    · exact (by decide +kernel : 47 ∈ lit "event/x")
    · exact (listeners ((by decide +kernel : ∀ r ∈ (run .ascii [.construct 10 (lit "event/x") (.listener 100),
        .attachService ⟨1, lit "event/x", .data, some 7⟩, .construct 11 (lit "event/x") (.listener 50)]).refs,
        r.owner ∈ [Owner.listener 100, .listener 50]) r here) owner).elim
  exact (events_reach_listeners .ascii _ along _ here).1

end BerylDB.Services
