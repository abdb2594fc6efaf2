import BerylDB.Transition
import BerylDB.Views

/-! # The store with its timer

Queries run one after the other.  On every tick the timer pushes a delete query for each entry that is
due; a pushed query runs at any later moment, whatever has run in between. -/
namespace BerylDB.Store
open Text Transition

/-- MOVE and CLONE get digits for a new select in 1..100. -/
def Request.NewSelect (r : Request) : Prop :=
  r.cls ∈ [.move, .clone] → r.value.all isDigit = true ∧ 1 ≤ convtoSigned r.value ∧ convtoSigned r.value ≤ 100

instance (r : Request) : Decidable r.NewSelect := by
  unfold Request.NewSelect
  infer_instance

/-- What the handlers accept: a select in 1..100, a valid key for the queries that work on one, a valid new
key, a new select of digits, another database. -/
structure Request.Accepted (r : Request) : Prop extends r.Client where
  select : 1 ≤ r.select ∧ r.select ≤ 100
  key : r.cls.queryType ≠ .skip → keyValidator r.key = true
  newKey : r.cls ∈ [.rename, .renamenx, .copy] → keyValidator r.value = true
  newSelect : r.NewSelect
  elsewhere : r.cls = .transfer → r.transfDb ≠ some r.database
  id : r.id < 2 ^ 32

instance (r : Request) : Decidable r.Accepted :=
  decidable_of_iff
    (((r.cls ≠ .expireList ∧ r.cls ≠ .futureList) ∧ (r.cls = .dbreset → r.key = r.database)) ∧
      (1 ≤ r.select ∧ r.select ≤ 100) ∧ (r.cls.queryType ≠ .skip → keyValidator r.key = true) ∧
      (r.cls ∈ [.rename, .renamenx, .copy] → keyValidator r.value = true) ∧
      r.NewSelect ∧
      (r.cls = .transfer → r.transfDb ≠ some r.database) ∧ r.id < 2 ^ 32)
    ⟨fun ⟨⟨own, reset⟩, select, key, newKey, newSelect, elsewhere, id⟩ =>
      ⟨⟨own, reset⟩, select, key, newKey, newSelect, elsewhere, id⟩,
    fun h => ⟨⟨h.own, h.reset⟩, h.select, h.key, h.newKey, h.newSelect, h.elsewhere, h.id⟩⟩

/-- `GlobalHelper::ExpireDelete`. -/
def ExpireEntry.expireDelete (e : ExpireEntry) : Request where
  cls := .del
  database := e.database
  key := e.key
  select := e.select
  flags := .quiet

/-- `expired` holds the entries whose delete queries were pushed and did not run yet. -/
structure Server where
  kernel : Kernel
  expired : List ExpireEntry

inductive Event where
  | request (r : Request)
  | tick (time : ℤ)
  | expire (e : ExpireEntry)

namespace Server

def next (P : Platform) (s : Server) : Event → Option Server
  | .request r => if r.Accepted then some { s with kernel := s.kernel.execute P r } else none
  | .tick time =>
    if s.kernel.now ≤ time then
      some { kernel := { s.kernel with now := time }, expired := s.expired ++ s.kernel.dueExpires time }
    else none
  | .expire e =>
    if e ∈ s.expired then
      some { kernel := s.kernel.execute P e.expireDelete, expired := s.expired.erase e }
    else none

/-- The empty store, on databases that take writes. -/
structure Initial (s : Server) : Prop where
  writable : s.kernel.Writable
  empty : ∀ db row, s.kernel.get db row = none
  expires : s.kernel.expires = []
  futures : s.kernel.futures = []
  expired : s.expired = []

def machine (P : Platform) : Machine Server Event where
  initial := Initial
  next := next P

/-- Integers in the place of floating point numbers, for runs that calculate nothing. -/
def integers : Platform where
  Real := ℤ
  convtoNum := convtoSigned
  convtoString n := convtoString n.toNat
  ofNat := Int.ofNat
  add := (· + ·)
  sub := (· - ·)
  mul := (· * ·)
  div := (· / ·)
  sqrt n := n.toNat.sqrt
  trunc n := n
  toFloat n := n
  lt a b := a < b
  le a b := a ≤ b
  calculateDistance _ _ _ _ := 0
  intRand _ low _ := low
  charmap := .brld1459

/-- All databases empty and open. -/
def fresh : Server where
  kernel := {
    databases _ := ⟨∅, false, true⟩
    expires := []
    futures := []
    now := 0
    keepExpires := true
    keepFutures := true }
  expired := []

theorem fresh_initial : Initial fresh where
  writable _ := rfl
  empty _ _ := by simp [fresh, Kernel.get, Kernel.rows]
  expires := rfl
  futures := rfl
  expired := rfl

variable {P : Platform} {s t : Server} {a : Event} {G : Server → Event → Prop}

theorem expireDelete_newSelect (e : ExpireEntry) : e.expireDelete.NewSelect := fun cls => by
  simp [ExpireEntry.expireDelete] at cls

theorem expireDelete_client (e : ExpireEntry) : e.expireDelete.Client :=
  ⟨⟨by simp [ExpireEntry.expireDelete], by simp [ExpireEntry.expireDelete]⟩, by simp [ExpireEntry.expireDelete]⟩

/-- What a step does to the kernel: the clock moves, or an open database gets the updates of an outcome. -/
theorem next_kernel (h : s.kernel.Writable) (step : next P s a = some t) :
    (∃ time, t.kernel = { s.kernel with now := time }) ∨ t.kernel = s.kernel ∨
    ∃ r us, (a = .request r ∧ r.Accepted ∨ ∃ e ∈ s.expired, a = .expire e ∧ r = e.expireDelete) ∧
      (s.kernel.databases r.database).closing = false ∧ Outcome P s.kernel r us ∧
      t.kernel = s.kernel.updates us := by
  cases a with
  | request r =>
    simp only [next, Option.ite_none_right_eq_some, Option.some.injEq] at step
    obtain ⟨accepted, rfl⟩ := step
    obtain same | ⟨opened, us, outcome, updated⟩ := execute_outcome P h accepted.toClient
    · exact .inr (.inl same)
    · exact .inr (.inr ⟨r, us, .inl ⟨rfl, accepted⟩, opened, outcome, updated⟩)
  | tick time =>
    simp only [next, Option.ite_none_right_eq_some, Option.some.injEq] at step
    obtain ⟨-, rfl⟩ := step
    exact .inl ⟨time, rfl⟩
  | expire e =>
    simp only [next, Option.ite_none_right_eq_some, Option.some.injEq] at step
    obtain ⟨pushed, rfl⟩ := step
    obtain same | ⟨opened, us, outcome, updated⟩ := execute_outcome P h (expireDelete_client e)
    · exact .inr (.inl same)
    · exact .inr (.inr ⟨_, us, .inr ⟨e, pushed, rfl, rfl⟩, opened, outcome, updated⟩)

theorem next_writable (h : s.kernel.Writable) (step : next P s a = some t) : t.kernel.Writable := by
  obtain ⟨time, same⟩ | same | ⟨r, us, -, -, -, same⟩ := next_kernel h step
  · exact same ▸ h
  · exact same ▸ h
  · exact same ▸ h.updates us

/-- Run induction on the kernel: the clock does not matter, and the updates of every outcome keep `I`. -/
theorem invariant {I : Kernel → Prop} (h : (machine P).Reach G s) (initial : ∀ s, Initial s → I s.kernel)
    (clock : ∀ k time, I k → I { k with now := time })
    (outcome : ∀ s a r us, s.kernel.Writable → I s.kernel → G s a →
      (a = .request r ∧ r.Accepted ∨ ∃ e ∈ s.expired, a = .expire e ∧ r = e.expireDelete) →
      (s.kernel.databases r.database).closing = false → Outcome P s.kernel r us → I (s.kernel.updates us)) :
    s.kernel.Writable ∧ I s.kernel := by
  refine h.invariant (I := fun s => s.kernel.Writable ∧ I s.kernel) (fun s hs => ⟨hs.writable, initial s hs⟩) ?_
  rintro s a t ⟨writable, hs⟩ guard step
  refine ⟨next_writable writable step, ?_⟩
  obtain ⟨time, same⟩ | same | ⟨r, us, source, opened, hus, same⟩ := next_kernel writable step
  · exact same ▸ clock _ _ hs
  · exact same ▸ hs
  · exact same ▸ outcome s a r us writable hs guard source opened hus

end Server
end BerylDB.Store
