import BerylDB.CoreMaps
import BerylDB.Server

/-! # Settings

`Settings::Set`, `Load`, `Get` and `AsBool` of `settings.cpp`. -/
namespace BerylDB.Store
open Text

def confKey : Bytes := lit "conf"

theorem confKey_ne_nil : confKey ≠ [] := by decide

structure Settings where
  setMap : Std.ExtTreeMap Bytes Bytes
  core : Kernel

/-- `equalsci`, by `strcasecmp`. -/
def equalsci (s t : Bytes) : Bool := (cStr s).map toLower == (cStr t).map toLower

/-- `Helpers::as_bool`. -/
def asBool (key : Bytes) (default : Bool) : Bool :=
  if key = [] then default
  else if equalsci key (lit "yes") || equalsci key (lit "true") || equalsci key (lit "on") || key = lit "1" then true
  else if equalsci key (lit "no") || equalsci key (lit "false") || equalsci key (lit "off") || key = lit "0" then false
  else default

namespace Settings

variable (P : Platform)

/-- `Load` at startup, when `SetMap` is empty. -/
def load (core : Kernel) : Settings where
  setMap := (CMapsHelper.hlist P core confKey).foldl (fun map key => map.insert key (CMapsHelper.get P core confKey key)) ∅
  core := core

def set (s : Settings) (key value : Bytes) : Settings where
  setMap := s.setMap.insert (key.map toLower) (value.map toLower)
  core := CMapsHelper.set P s.core confKey (key.map toLower) (value.map toLower)

def get (s : Settings) (key : Bytes) : Bytes := (s.setMap[key.map toLower]?).getD []

def bool (s : Settings) (key : Bytes) : Bool := asBool (s.get key) false

/-- A sequence of calls of `Set`. -/
def run (s : Settings) (calls : List (Bytes × Bytes)) : Settings := calls.foldl (fun s call => s.set P call.1 call.2) s

end Settings

/-- The last call for a key, which is given in lower case. -/
def lastCall (calls : List (Bytes × Bytes)) (key : Bytes) : Option (Bytes × Bytes) :=
  calls.reverse.find? fun call => call.1.map toLower = key

/-- No call has an empty key, and the last one for each key has a value. -/
def Lasting (calls : List (Bytes × Bytes)) : Prop :=
  ∀ call ∈ calls, call.1 ≠ [] ∧ ∀ last ∈ lastCall calls (call.1.map toLower), last.2 ≠ []

instance (calls : List (Bytes × Bytes)) : Decidable (Lasting calls) := by unfold Lasting; infer_instance

namespace Settings

variable {P : Platform} {s : Settings} {core : Kernel}

theorem foldl_insert (f : Bytes → Bytes) (keys : List Bytes) (map : Std.ExtTreeMap Bytes Bytes) (name : Bytes) :
    (keys.foldl (fun map key => map.insert key (f key)) map)[name]? = if name ∈ keys then some (f name) else map[name]? := by
  induction keys generalizing map with
  | nil => simp
  | cons key keys ih =>
    rw [List.foldl_cons, ih, get_insert]
    by_cases later : name ∈ keys
    · simp [later]
    · by_cases own : key = name
      · simp [own]
      · simp [later, own, Ne.symm own]

theorem load_setMap (h : core.Core) : (load P core).setMap = core.table confKey := by
  refine Std.ExtTreeMap.ext_getElem? fun name => ?_
  unfold load
  simp only [foldl_insert, mem_hlist h, h.get_eq, if_neg confKey_ne_nil]
  cases held : (core.table confKey)[name]? with
  | none => simp [Std.ExtTreeMap.mem_iff_isSome_getElem?, held]
  | some value => simp [Std.ExtTreeMap.mem_iff_isSome_getElem?, held]

/-- A call of `Set` leaves memory and the core database in agreement on the keys that it does not name, and on its own
key if both key and value are there. -/
theorem set_agrees (h : s.core.Core) (key value name : Bytes) : (s.set P key value).core.Core ∧
    ((s.set P key value).setMap[name]? = ((s.set P key value).core.table confKey)[name]? ↔
      if key.map toLower = name then key ≠ [] ∧ value ≠ []
      else s.setMap[name]? = (s.core.table confKey)[name]?) := by
  obtain ⟨core, tables⟩ := h.set_spec P confKey_ne_nil (key.map toLower) (value.map toLower)
  refine ⟨core, ?_⟩
  unfold set
  dsimp only
  rw [tables, get_insert]
  simp only [true_and, ne_eq, List.map_eq_nil_iff]
  by_cases own : key.map toLower = name
  · subst own
    by_cases accepted : ¬key = [] ∧ ¬value = []
    · simp [accepted]
    · rw [if_pos rfl, if_pos rfl, if_neg accepted]
      refine iff_of_false (fun same => ?_) accepted
      by_cases unnamed : key = []
      · subst unnamed
        rw [List.map_nil, Kernel.Core.table_unnamed] at same
        cases same
      · obtain rfl : value = [] := by simpa [unnamed] using accepted
        exact h.filled confKey _ _ same.symm rfl
  · rw [if_neg own, if_neg own]
    split
    · rw [get_insert, if_neg own]
    · rfl

theorem lastCall_append (calls : List (Bytes × Bytes)) (call : Bytes × Bytes) (name : Bytes) :
    lastCall (calls ++ [call]) name = if call.1.map toLower = name then some call else lastCall calls name := by
  by_cases own : call.1.map toLower = name
  · simp [lastCall, own]
  · simp [lastCall, own]

theorem run_agrees (h : core.Core) (calls : List (Bytes × Bytes)) : ((load P core).run P calls).core.Core ∧
    ∀ name, ((load P core).run P calls).setMap[name]? = (((load P core).run P calls).core.table confKey)[name]? ↔
      ∀ last ∈ lastCall calls name, last.1 ≠ [] ∧ last.2 ≠ [] := by
  induction calls using List.reverseRecOn with
  | nil =>
    refine ⟨h, fun name => ?_⟩
    simp [run, lastCall, load_setMap h]
    rfl
  | append_singleton calls call ih =>
    have ran : (load P core).run P (calls ++ [call]) = ((load P core).run P calls).set P call.1 call.2 := by simp [run]
    rw [ran]
    refine ⟨(set_agrees ih.1 call.1 call.2 []).1, fun name => ?_⟩
    rw [(set_agrees ih.1 call.1 call.2 name).2, lastCall_append, ih.2]
    by_cases own : call.1.map toLower = name
    · simp [own]
    · simp [own]

end Settings

theorem lasting_iff (calls : List (Bytes × Bytes)) :
    Lasting calls ↔ ∀ name, ∀ last ∈ lastCall calls name, last.1 ≠ [] ∧ last.2 ≠ [] := by
  constructor
  · intro lasting name last found
    have own : last.1.map toLower = name := by simpa using List.find?_some found
    obtain ⟨named, valued⟩ := lasting last (by simpa using List.mem_of_find?_eq_some found)
    exact ⟨named, valued last (by rwa [own])⟩
  · intro every call here
    refine ⟨fun unnamed => ?_, fun last found => (every _ last found).2⟩
    cases found : lastCall calls [] with
    | none =>
      have absent := List.find?_eq_none.mp found call (by simpa using here)
      simp [unnamed] at absent
    | some last =>
      have own : last.1.map toLower = [] := by simpa using List.find?_some found
      exact (every [] last found).1 (List.map_eq_nil_iff.mp own)

/-- After a sequence of calls memory is what `Load` rebuilds exactly if the calls are lasting, and then a restart changes
no answer. -/
theorem settings_survive (P : Platform) {core : Kernel} (h : core.Core) (calls : List (Bytes × Bytes)) :
    let s := (Settings.load P core).run P calls
    (s.setMap = (Settings.load P s.core).setMap ↔ Lasting calls) ∧
      (Lasting calls → ∀ key, s.get key = (Settings.load P s.core).get key ∧ s.bool key = (Settings.load P s.core).bool key) := by
  dsimp only
  obtain ⟨core', agrees⟩ := Settings.run_agrees (P := P) h calls
  have equal : ((Settings.load P core).run P calls).setMap =
      (Settings.load P ((Settings.load P core).run P calls).core).setMap ↔ Lasting calls := by
    rw [Settings.load_setMap core', lasting_iff]
    constructor
    · intro same name
      rw [← agrees name, same]
    · intro lasting
      exact Std.ExtTreeMap.ext_getElem? fun name => (agrees name).mpr (lasting name)
  refine ⟨equal, fun lasting key => ?_⟩
  have same := equal.mpr lasting
  have answer : ((Settings.load P core).run P calls).get key =
      (Settings.load P ((Settings.load P core).run P calls).core).get key := by
    unfold Settings.get
    rw [← same]
  refine ⟨answer, ?_⟩
  unfold Settings.bool
  rw [answer]

open Server (integers)

/-- A key that is emptied and then given a value. -/
theorem settings_survive_again :
    let s := (Settings.load integers freshCore).run integers [(lit "autojoin", []), (lit "AutoJoin", lit "on")]
    s.setMap = (Settings.load integers s.core).setMap :=
  (settings_survive integers freshCore_core _).1.mpr (by decide)

/-- A setting with a value is emptied: memory answers that it is off, and after a restart it is on again. -/
theorem settings_lost : ¬ ∀ core : Kernel, core.Core → ∀ calls : List (Bytes × Bytes),
    let s := (Settings.load integers core).run integers calls
    s.setMap = (Settings.load integers s.core).setMap := by
  intro survive
  have same := survive freshCore freshCore_core [(lit "autojoin", lit "on"), (lit "autojoin", [])]
  have answers : ∀ s t : Settings, s.setMap = t.setMap → s.bool (lit "autojoin") = t.bool (lit "autojoin") := by
    intro s t equal
    unfold Settings.bool Settings.get
    rw [equal]
  exact absurd (answers _ _ same) (by decide +kernel)

end BerylDB.Store
