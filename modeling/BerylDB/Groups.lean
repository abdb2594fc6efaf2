import BerylDB.Text
import Mathlib.Data.Fintype.Basic
import Mathlib.Logic.Function.Basic

/-! # Groups

The switches of a group, `Group::UpdateFlags` and `Group::CanDo` of `group.cpp`. -/
namespace BerylDB.Groups
open Text

/-- `DEFAULT_GFLAGS`. -/
def defaultFlags : Bytes := lit "klgvefmxphw"

inductive Switch where
  | canKeys | canDoAll | canList | canGeo | canVector | canExpire | canFuture | canMap | canMmap | canPublishChan
  | canPublishClients | canHints | canDualExec
deriving DecidableEq

namespace Switch

/-- In the order in which the loop of `UpdateFlags` asks for them. -/
def all : List Switch :=
  [canKeys, canDoAll, canList, canGeo, canVector, canExpire, canFuture, canMap, canMmap, canPublishChan,
    canPublishClients, canHints, canDualExec]

def flag : Switch → UInt8
  | canKeys => 'k'.toUInt8
  | canDoAll => 'z'.toUInt8
  | canList => 'l'.toUInt8
  | canGeo => 'g'.toUInt8
  | canVector => 'v'.toUInt8
  | canExpire => 'e'.toUInt8
  | canFuture => 'f'.toUInt8
  | canMap => 'm'.toUInt8
  | canMmap => 'x'.toUInt8
  | canPublishChan => 'p'.toUInt8
  | canPublishClients => 'c'.toUInt8
  | canHints => 'h'.toUInt8
  | canDualExec => 'w'.toUInt8

/-- The switch that a flag names, `none` for an invalid flag. -/
def find (flag : UInt8) : Option Switch := all.find? fun s => flag == s.flag

theorem mem_all (s : Switch) : s ∈ all := by cases s <;> decide

theorem flag_injective {s t : Switch} (h : s.flag = t.flag) : s = t := by
  have distinct : (all.map flag).Nodup := by decide
  exact List.inj_on_of_nodup_map distinct (mem_all s) (mem_all t) h

@[simp] theorem find_eq_some {flag : UInt8} {s : Switch} : find flag = some s ↔ flag = s.flag := by
  constructor
  · intro h
    simpa using List.find?_some h
  · rintro rfl
    have found : (find s.flag).isSome := List.find?_isSome.mpr ⟨s, mem_all s, by simp⟩
    obtain ⟨t, ht⟩ := Option.isSome_iff_exists.mp found
    have same : s.flag = t.flag := by simpa using List.find?_some ht
    rw [ht, flag_injective same]

@[simp] theorem find_flag (s : Switch) : find s.flag = some s := find_eq_some.mpr rfl

instance : Fintype Switch := ⟨⟨all, by decide⟩, mem_all⟩

end Switch

abbrev Permissions := Switch → Bool

namespace Permissions

/-- What `Group::Init` leaves. -/
def init : Permissions := fun _ => false

/-- The loop of `UpdateFlags`: the switches it leaves, and whether it met no invalid flag. -/
def setFlags : Bytes → Permissions → Permissions × Bool
  | [], p => (p, true)
  | flag :: flags, p =>
    match Switch.find flag with
    | some s => setFlags flags (Function.update p s true)
    | none => (p, false)

/-- `Group::CanDo`, which has no branch of its own for the flag `z`. -/
def canDo (p : Permissions) (flag : UInt8) : Bool := p .canDoAll || (Switch.find flag).any p

/-- The flags that the loop of `UpdateFlags` gets through. -/
def read (flags : Bytes) : Bytes := flags.takeWhile fun flag => (Switch.find flag).isSome

/-- No flag of the text is invalid. -/
def valid (flags : Bytes) : Bool := flags.all fun flag => (Switch.find flag).isSome

theorem setFlags_eq (flags : Bytes) (p : Permissions) :
    setFlags flags p = (fun s => p s || (read flags).contains s.flag, valid flags) := by
  induction flags generalizing p with
  | nil => simp [setFlags, read, valid]
  | cons flag flags ih =>
    cases found : Switch.find flag with
    | none => simp [setFlags, read, valid, found]
    | some s =>
      obtain rfl : flag = s.flag := Switch.find_eq_some.mp found
      rw [setFlags, found]
      simp only [ih, read, valid, List.takeWhile_cons, List.all_cons, Switch.find_flag, Option.isSome_some,
        Bool.true_and, if_true, List.contains_cons]
      congr 1
      funext t
      by_cases h : t = s
      · subst h; simp
      · have : t.flag ≠ s.flag := fun e => h (Switch.flag_injective e)
        simp [h, beq_eq_false_iff_ne.mpr this]

theorem canDo_iff (p : Permissions) (flag : UInt8) :
    p.canDo flag ↔ p .canDoAll ∨ ∃ s : Switch, s.flag = flag ∧ p s := by
  unfold canDo
  cases found : Switch.find flag with
  | none =>
    have unnamed (s : Switch) : s.flag ≠ flag := fun h => by simp [← h] at found
    simp [unnamed]
  | some s =>
    obtain rfl : flag = s.flag := Switch.find_eq_some.mp found
    have named (t : Switch) : t.flag = s.flag ↔ t = s := ⟨Switch.flag_injective, fun h => h ▸ rfl⟩
    simp [named]

end Permissions

structure Group where
  name : Bytes
  rawflags : Bytes
  permissions : Permissions
deriving DecidableEq

namespace Group

/-- `UpdateFlags` up to its `STHelper::Set`, which is reached when the flags are all valid. -/
def updateFlags (g : Group) (flags : Bytes) : Group × Bool :=
  let rawflags := g.rawflags ++ flags
  let (permissions, valid) := Permissions.setFlags rawflags Permissions.init
  ({ g with rawflags, permissions }, valid)

def canDo (g : Group) (flag : UInt8) : Bool := g.permissions.canDo flag

end Group

namespace Permissions

/-- The switches that a text of flags stands for. -/
def of (flags : Bytes) : Permissions := fun s => (read flags).contains s.flag

theorem read_valid {flags : Bytes} (h : valid flags) : read flags = flags :=
  List.takeWhile_eq_self_iff.mpr fun flag here => List.all_eq_true.mp h flag here

/-- The loop does not get past an invalid flag. -/
theorem read_append (flags more : Bytes) :
    read (flags ++ more) = if valid flags then flags ++ read more else read flags := by
  induction flags with
  | nil => simp [valid]
  | cons flag flags ih =>
    unfold read valid at ih ⊢
    rw [List.cons_append, List.takeWhile_cons, List.takeWhile_cons, List.all_cons, ih]
    cases (Switch.find flag).isSome <;> simp
    split <;> rfl

theorem of_append_invalid {flags : Bytes} (h : valid flags = false) (more : Bytes) : of (flags ++ more) = of flags := by
  funext s
  simp [of, read_append, h]

/-- More flags stand for the same switches as they do alone when they repeat those before them. -/
theorem of_append_eq_iff {flags more : Bytes} (h : valid flags) (h' : valid more) :
    of (flags ++ more) = of more ↔ ∀ flag ∈ flags, flag ∈ more := by
  constructor
  · intro same flag here
    obtain ⟨s, found⟩ := Option.isSome_iff_exists.mp (List.all_eq_true.mp h flag here)
    obtain rfl := Switch.find_eq_some.mp found
    have on := congrFun same s
    simpa [of, read_append, h, read_valid h', here] using on
  · intro repeated
    funext s
    by_cases here : s.flag ∈ more
    · simp [of, read_append, h, read_valid h', here]
    · simp [of, read_append, h, read_valid h', here, mt (repeated s.flag) here]

end Permissions

theorem Group.updateFlags_eq (g : Group) (flags : Bytes) :
    g.updateFlags flags = ({ g with
      rawflags := g.rawflags ++ flags
      permissions := Permissions.of (g.rawflags ++ flags) }, Permissions.valid (g.rawflags ++ flags)) := by
  simp only [updateFlags, Permissions.setFlags_eq, Permissions.init, Bool.false_or]
  rfl

end BerylDB.Groups
