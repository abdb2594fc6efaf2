import BerylDB.Relocation

/-! # MOVE and CLONE

Both name their new row by the text of the select as it was given, and everything else by its number. -/
namespace BerylDB.Store
open Text QueryBase Kernel Transition

/-- The select that the text of MOVE and CLONE stands for. -/
def Request.goal (r : Request) : ℕ := convtoUnsigned r.value

/-- The text is the one that rows of its select are named by. -/
def Request.Spelled (r : Request) : Prop := r.value = convtoString r.goal

instance (r : Request) : Decidable r.Spelled := inferInstanceAs (Decidable (r.value = convtoString r.goal))

/-- The expiry row that MOVE writes. -/
def Request.lookupRow (r : Request) : Bytes := rowName r.key r.value (ownedType intExpire r.database)

theorem goal_of_text {r : Request} (bound : r.select < 2 ^ 32) (text : r.value = convtoString r.select) :
    r.goal = r.select := by
  rw [Request.goal, text, convtoUnsigned_convtoString bound]

theorem Request.Spelled.row {r : Request} (spelled : r.Spelled) (type : Bytes) :
    rowName r.key r.value type = keyRow r.key r.goal type := by
  rw [keyRow, ← spelled]

/-! ## MOVE -/

/-- The key is in the new select with its value and its deadline, and no longer in the old one. -/
structure Moved (k k' : Kernel) (r : Request) (type : Bytes) : Prop where
  registered : registered k' r.database r.key r.goal = some type
  value : k'.get r.database (keyRow r.key r.goal type) = k.get r.database (r.row type)
  expiry : k'.ExpiresAt r.database r.key r.goal (k.deadline r.database r.key r.select)
  gone : r.goal ≠ r.select → QueryBase.registered k' r.database r.key r.select = none ∧
    k'.get r.database (expireRow r.key r.select r.database) = none

/-- The state in which MOVE moves the whole entry. -/
structure Request.MovesWhole (r : Request) (k : Kernel) (type : Bytes) : Prop where
  differ : r.goal ≠ r.select
  text : r.Spelled ∨ k.get r.database (keyRow r.key r.goal type) = k.get r.database (r.row type)
  before : k.NoneBefore r.database r.key r.goal type
  only : k.OnlyType r.database r.key r.select type
  noRow : k.get r.database (expireRow r.key r.select r.database) = none
  expiring : r.Expiring k → (∀ d ∈ k.leftover r.database r.key r.goal, r.ttl k ≤ d) ∧
    (r.Spelled ∨ k.get r.database (expireRow r.key r.goal r.database) = some (convtoString (r.ttl k).toNat))
  lasting : ¬ r.Expiring k → k.ExpiresAt r.database r.key r.goal (k.deadline r.database r.key r.select)

section
variable {k k' : Kernel} {r : Request} {type value : Bytes} {mark : Option Bytes}

/-- The rows that MOVE leaves. -/
abbrev MovedRows (k k' : Kernel) (r : Request) (type value : Bytes) (mark : Option Bytes) : Prop :=
  PlacedRows k k' r.database (some (r.row type)) (rowName r.key r.value type) r.lookupRow value mark

variable (colon : (58 : UInt8) ∉ r.value) (bound : r.select < 2 ^ 32)
include colon

theorem lookupRow_ne (known : type ∈ typeRegs) (key : Bytes) (select : ℕ) : r.lookupRow ≠ keyRow key select type := fun h =>
  ownedType_not_mem _ _ (((rowName_eq_keyRow colon).mp h).2.2 ▸ known)

theorem lookupRow_ne_rowName (known : type ∈ typeRegs) : r.lookupRow ≠ rowName r.key r.value type := fun h =>
  ownedType_not_mem _ _ (((rowName_inj colon colon).mp h).2.2 ▸ known)

theorem MovedRows.get_type (rows : MovedRows k k' r type value mark) {t : Bytes} (known : t ∈ typeRegs)
    (other : t ≠ type)
    (select : ℕ) : k'.get r.database (keyRow r.key select t) = k.get r.database (keyRow r.key select t) := by
  refine rows.get_other (fun h => other ?_) (fun h => other ((rowName_eq_keyRow colon).mp h.symm).2.2.symm)
    (lookupRow_ne colon known _ _).symm _
  exact (keyRow_inj.mp (Option.mem_some_iff.mp h)).2.2.symm

include bound

theorem MovedRows.get_goal (rows : MovedRows k k' r type value mark) (known : type ∈ typeRegs)
    (differ : r.goal ≠ r.select) :
    k'.get r.database (keyRow r.key r.goal type) =
      if r.Spelled then some value else k.get r.database (keyRow r.key r.goal type) := by
  split
  · rename_i spelled
    rw [← spelled.row]
    refine rows.get_new fun h => differ (goal_of_text bound ?_)
    exact ((rowName_eq_keyRow colon).mp (Option.mem_some_iff.mp h).symm).2.1
  · rename_i misspelled
    refine rows.get_other (fun h => differ ?_) (fun h => misspelled ((rowName_eq_keyRow colon).mp h.symm).2.1)
      (lookupRow_ne colon known _ _).symm _
    exact (keyRow_inj.mp (Option.mem_some_iff.mp h)).2.1.symm

omit bound in
theorem MovedRows.get_expiry (rows : MovedRows k k' r type value mark) (known : type ∈ typeRegs) (select : ℕ) :
    k'.get r.database (expireRow r.key select r.database) =
      if r.value = convtoString select then mark else k.get r.database (expireRow r.key select r.database) := by
  split
  · rename_i text
    have named : expireRow r.key select r.database = r.lookupRow := by
      rw [expireRow, keyRow, Request.lookupRow, text]
    rw [named]
    exact rows.get_mark (fun h => lookupRow_ne colon known _ _ (Option.mem_some_iff.mp h).symm)
      (lookupRow_ne_rowName colon known)
  · rename_i other
    exact rows.get_other (fun h => expireRow_ne_keyRow known (Option.mem_some_iff.mp h).symm)
      (fun h => other ((rowName_eq_keyRow colon).mp h.symm).2.1)
      (fun h => other ((rowName_eq_keyRow colon).mp h.symm).2.1) _

theorem MovedRows.moved_iff (rows : MovedRows k k' r type value mark) (known : type ∈ typeRegs)
    (held : k.get r.database (r.row type) = some value) :
    Moved k k' r type ↔ r.goal ≠ r.select ∧
      (r.Spelled ∨ k.get r.database (keyRow r.key r.goal type) = k.get r.database (r.row type)) ∧
      k.NoneBefore r.database r.key r.goal type ∧ k.OnlyType r.database r.key r.select type ∧
      k.get r.database (expireRow r.key r.select r.database) = none ∧
      k'.ExpiresAt r.database r.key r.goal (k.deadline r.database r.key r.select) := by
  have lost : k'.get r.database (r.row type) = none := rows.get_gone rfl
  have oldRow (differ : r.goal ≠ r.select) : k'.get r.database (expireRow r.key r.select r.database) =
      k.get r.database (expireRow r.key r.select r.database) := by
    rw [rows.get_expiry colon known, if_neg fun text => differ (goal_of_text bound text)]
  have others : k'.OnlyType r.database r.key r.select type ↔ k.OnlyType r.database r.key r.select type := by
    refine forall₂_congr fun t ht => forall_congr' fun other => ?_
    rw [rows.get_type colon ht other]
  have before : k'.NoneBefore r.database r.key r.goal type ↔ k.NoneBefore r.database r.key r.goal type := by
    refine forall₂_congr fun t earlier => ?_
    rw [rows.get_type colon (ne_of_mem_takeWhile earlier).1 (ne_of_mem_takeWhile earlier).2]
  constructor
  · intro h
    have differ : r.goal ≠ r.select := by
      intro same
      have moved := h.value
      rw [same] at moved
      exact absurd (lost.symm.trans (moved.trans held)) (by simp)
    obtain ⟨none, row⟩ := h.gone differ
    refine ⟨differ, ?_, before.mp (registered_iff.mp h.registered).2.2,
      others.mp ((registered_none_iff known).mp none).2, oldRow differ ▸ row, h.expiry⟩
    have moved := h.value
    rw [rows.get_goal colon bound known differ] at moved
    split at moved
    · exact .inl ‹_›
    · exact .inr moved
  · rintro ⟨differ, text, first, only, row, expiry⟩
    have moved : k'.get r.database (keyRow r.key r.goal type) = k.get r.database (r.row type) := by
      rw [rows.get_goal colon bound known differ]
      split
      · exact held.symm
      · exact text.resolve_left ‹_›
    exact ⟨registered_iff.mpr ⟨known, by rw [moved, held]; rfl, before.mpr first⟩, moved, expiry,
      fun _ => ⟨(registered_none_iff known).mpr ⟨lost, others.mpr only⟩, (oldRow differ).trans row⟩⟩

omit bound in
theorem lasting_move_expiresAt (writable : k.Writable) (known : type ∈ typeRegs) {deadline : Option ℤ} :
    (k.updates [.put r.database (rowName r.key r.value type) value, .erase r.database (r.row type)]).ExpiresAt
      r.database r.key r.goal deadline ↔ k.ExpiresAt r.database r.key r.goal deadline := by
  have rows : MovedRows k (k.updates [.put r.database (rowName r.key r.value type) value,
    .erase r.database (r.row type)]) r type value _ := swap_rows writable _
  have table : (k.updates [.put r.database (rowName r.key r.value type) value,
    .erase r.database (r.row type)]).deadline =
      k.deadline := deadline_congr (by simp)
  have row := MovedRows.get_expiry colon rows known r.goal
  have same (text : r.value = convtoString r.goal) :
      k.get r.database r.lookupRow = k.get r.database (expireRow r.key r.goal r.database) :=
    congrArg _ (Request.Spelled.row text _)
  rw [ite_eq_right_iff.mpr same] at row
  constructor
  · exact fun h => ⟨table ▸ h.table, row ▸ h.row⟩
  · exact fun h => ⟨table.symm ▸ h.table, row.trans h.row⟩

/-- The updates of MOVE for an expiring key. -/
def expiringMove (k : Kernel) (r : Request) (value : Bytes) : List Update :=
  [.put r.database (rowName r.key r.value intKey) value, .erase r.database (r.row intKey),
    .put r.database (rowName r.key r.value (ownedType intExpire r.database)) (convtoString (r.ttl k).toNat),
    .cancel r.database r.key r.select, .schedule r.database (toSigned (r.ttl k).toNat) r.key (convtoUnsigned r.value)]

omit bound in
theorem expiring_move_rows (writable : k.Writable) : MovedRows k (k.updates (expiringMove k r value)) r intKey value
    (some (convtoString (r.ttl k).toNat)) :=
  swapExpire_rows writable (lookupRow_ne_rowName colon (by decide)) (lookupRow_ne colon (by decide) _ _) rfl

omit bound in
theorem expiring_move_expiresAt (writable : k.Writable) (order : InOrder k.expires) (differ : r.goal ≠ r.select)
    (positive : 0 < r.ttl k) :
    (k.updates (expiringMove k r value)).ExpiresAt r.database r.key r.goal (k.deadline r.database r.key r.select) ↔
      (∀ d ∈ k.leftover r.database r.key r.goal, r.ttl k ≤ d) ∧
      (r.Spelled ∨ k.get r.database (expireRow r.key r.goal r.database) = some (convtoString (r.ttl k).toNat)) := by
  have other : (r.database, r.key, r.goal) ≠ (r.database, r.key, r.select) := by simpa using differ
  have rows : MovedRows k (k.updates (expiringMove k r value)) r intKey value _ := expiring_move_rows colon writable
  have row := MovedRows.get_expiry colon rows (by decide) r.goal
  have table : (k.updates (expiringMove k r value)).deadline r.database r.key r.goal = some (r.ttl k) ↔
      ∀ d ∈ k.leftover r.database r.key r.goal, r.ttl k ≤ d := by
    simp only [expiringMove, updates_cons, updates_nil, update_schedule, update_cancel, toSigned_ttl positive]
    change (addExpire _ _ _ _ r.goal _).deadline _ _ _ = _ ↔ _
    rw [InOrder.deadline_schedule, leftover_delete_other other, leftover_congr]
    · simp
    · exact InOrder.delete (by simpa using order) _ _ _
    · omega
  rw [order.deadline_of_positive positive]
  constructor
  · intro h
    refine ⟨table.mp h.table, ?_⟩
    have text := h.row
    rw [row] at text
    split at text
    · exact .inl ‹_›
    · exact .inr text
  · rintro ⟨late, text⟩
    refine ⟨table.mpr late, ?_⟩
    rw [row]
    split
    · rfl
    · exact text.resolve_left ‹_›

end

section
variable {P : Platform} {s : Server} {r : Request} {type : Bytes}

theorem Request.Accepted.colon (accepted : r.Accepted) (cls : r.cls ∈ [.move, .clone]) : (58 : UInt8) ∉ r.value := by
  intro colon
  have digit := List.all_eq_true.mp (accepted.newSelect cls).1 58 colon
  exact absurd digit (by decide)

theorem Request.Accepted.bound (accepted : r.Accepted) : r.select < 2 ^ 32 := by
  have := accepted.select
  omega

/-- After a MOVE that replied OK the whole entry of the key is in the new select, if and only if the state was
`MovesWhole`. -/
theorem move_whole_iff (reach : (Server.machine P).Reachable s) (cls : r.cls = .move) (accepted : r.Accepted)
    (registered : r.registered s.kernel = some type) (ok : (s.kernel.reply P r).finished = true) :
    Moved s.kernel (s.kernel.execute P r) r type ↔ r.MovesWhole s.kernel type := by
  obtain ⟨writable, order⟩ := reachable_inOrder reach
  obtain ⟨known, value, held⟩ := registered_some registered
  have colon := accepted.colon (by simp [cls])
  have bound := accepted.bound
  have entered := prepare_of_finished (by simp [cls]) (by simp [cls]) registered ok
  have ran : s.kernel.execute P r =
      (Run.move s.kernel (r.found type (s.kernel.get r.database (r.row type)))).1 := by
    rw [Kernel.execute, entered, QueryBase.run, cls]
    rfl
  rw [ran]
  by_cases expiring : type = intKey ∧ 0 < r.ttl s.kernel
  · obtain ⟨own, positive⟩ := expiring
    rw [move_expiring writable held (.inr rfl) own positive, ← expiringMove]
    subst own
    rw [MovedRows.moved_iff colon bound (expiring_move_rows colon writable) known held]
    constructor
    · rintro ⟨differ, text, before, only, row, expiry⟩
      exact ⟨differ, text, before, only, row,
        fun _ => (expiring_move_expiresAt colon writable order differ positive).mp expiry,
        fun lasting => absurd ⟨registered, positive⟩ lasting⟩
    · rintro ⟨differ, text, before, only, row, late, -⟩
      exact ⟨differ, text, before, only, row,
        (expiring_move_expiresAt colon writable order differ positive).mpr (late ⟨registered, positive⟩)⟩
  · have lasting := lasting_of_not registered expiring
    rw [move_lasting writable held (.inr rfl) expiring,
      MovedRows.moved_iff colon bound (swap_rows writable _) known held,
      lasting_move_expiresAt colon writable known]
    constructor
    · rintro ⟨differ, text, before, only, row, expiry⟩
      exact ⟨differ, text, before, only, row, fun yes => absurd yes lasting, fun _ => expiry⟩
    · rintro ⟨differ, text, before, only, row, -, expiry⟩
      exact ⟨differ, text, before, only, row, expiry lasting⟩

end

theorem move_whole_plain : ∃ s, (Server.machine Server.integers).Reachable s ∧
    Moved s.kernel (s.kernel.execute Server.integers (inDb .move (lit "k") (lit "2"))) (inDb .move (lit "k") (lit "2")) intKey := by
  have h : ((Server.machine Server.integers).exec (fun _ _ => True) Server.fresh
      [.request (inDb .set (lit "k") (lit "v"))]).any fun s =>
        (inDb .move (lit "k") (lit "2")).registered s.kernel = some intKey ∧
        (s.kernel.reply Server.integers (inDb .move (lit "k") (lit "2"))).finished = true ∧
        (∀ t ∈ typeRegs.takeWhile (· ≠ intKey), s.kernel.get (lit "db") (keyRow (lit "k") 2 t) = none) ∧
        (∀ t ∈ typeRegs, t ≠ intKey → s.kernel.get (lit "db") (keyRow (lit "k") 1 t) = none) ∧
        s.kernel.get (lit "db") (expireRow (lit "k") 1 (lit "db")) = none ∧
        s.kernel.get (lit "db") (expireRow (lit "k") 2 (lit "db")) = none ∧ s.kernel.expires = [] := by decide
  obtain ⟨s, reached, key, ok, before, only, oldRow, newRow, entries⟩ :=
      Machine.exec_holds h (.initial Server.fresh_initial)
  have none := deadline_of_empty entries (lit "db")
  refine ⟨s, reached, (move_whole_iff reached rfl (by decide) key ok).mpr ⟨by decide, .inl (by decide), before, only, oldRow,
    fun expiring => absurd expiring (lasting_of_empty entries), fun _ => ⟨(none _ _).trans (none _ _).symm, ?_⟩⟩⟩
  exact newRow.trans (congrArg (Option.map _) (none (lit "k") 1)).symm

/-- MOVE to a select with a leading zero, and to the current one, leaves the key nowhere. -/
theorem move_loses : ∃ s, (Server.machine Server.integers).Reachable s ∧ ∀ text ∈ [lit "02", lit "1"],
    (inDb .move (lit "k") text).Accepted ∧ (inDb .move (lit "k") text).registered s.kernel = some intKey ∧
    (s.kernel.reply Server.integers (inDb .move (lit "k") text)).finished = true ∧
    ¬ Moved s.kernel (s.kernel.execute Server.integers (inDb .move (lit "k") text)) (inDb .move (lit "k") text) intKey := by
  have h : ((Server.machine Server.integers).exec (fun _ _ => True) Server.fresh
      [.request (inDb .set (lit "k") (lit "v"))]).any fun s => ∀ text ∈ [lit "02", lit "1"],
        (inDb .move (lit "k") text).Accepted ∧ (inDb .move (lit "k") text).registered s.kernel = some intKey ∧
        (s.kernel.reply Server.integers (inDb .move (lit "k") text)).finished = true ∧
        registered (s.kernel.execute Server.integers (inDb .move (lit "k") text)) (lit "db") (lit "k")
          (inDb .move (lit "k") text).goal = none := by decide
  obtain ⟨s, reached, found⟩ := Machine.exec_holds h (.initial Server.fresh_initial)
  refine ⟨s, reached, fun text here => ?_⟩
  obtain ⟨accepted, key, ok, lost⟩ := found text here
  exact ⟨accepted, key, ok, fun moved => absurd (moved.registered.symm.trans lost) (by simp)⟩

/-! ## CLONE -/

/-- The key is in the new select with its value and its deadline, and in the old one as it was. -/
structure Cloned (k k' : Kernel) (r : Request) (type : Bytes) : Prop where
  registered : registered k' r.database r.key r.goal = some type
  value : k'.get r.database (keyRow r.key r.goal type) = k.get r.database (r.row type)
  expiry : k'.ExpiresAt r.database r.key r.goal (k.deadline r.database r.key r.select)
  source : k'.get r.database (r.row type) = k.get r.database (r.row type)
  sourceRow : k'.get r.database (expireRow r.key r.select r.database) =
    k.get r.database (expireRow r.key r.select r.database)
  sourceDeadline : k'.deadline r.database r.key r.select = k.deadline r.database r.key r.select

/-- The state in which CLONE copies value and deadline; an expiring key must hold the text of the select. -/
structure Request.ClonesWhole (r : Request) (k : Kernel) (type : Bytes) : Prop where
  before : k.NoneBefore r.database r.key r.goal type
  expiring : r.Expiring k →
    (if r.Spelled then k.get r.database (r.row type) = some (toBin r.value)
      else k.get r.database (keyRow r.key r.goal type) = k.get r.database (r.row type)) ∧
    (∀ d ∈ k.leftover r.database r.key r.goal, r.ttl k ≤ d) ∧
    (r.goal = r.select →
      k.get r.database (expireRow r.key r.select r.database) = some (convtoString (r.ttl k).toNat))
  lasting : ¬ r.Expiring k →
    (r.Spelled ∨ k.get r.database (keyRow r.key r.goal type) = k.get r.database (r.row type)) ∧
    k.ExpiresAt r.database r.key r.goal (k.deadline r.database r.key r.select)

section
variable {k k' : Kernel} {r : Request} {type value text : Bytes} {mark : Option Bytes}

/-- The rows that CLONE leaves, with `text` for the value. -/
abbrev ClonedRows (k k' : Kernel) (r : Request) (type text : Bytes) (mark : Option Bytes) : Prop :=
  PlacedRows k k' r.database none (rowName r.key r.value type) (expireRow r.key r.goal r.database) text mark

variable (colon : (58 : UInt8) ∉ r.value)
include colon

theorem ClonedRows.get_data (rows : ClonedRows k k' r type text mark) {t : Bytes} (known : t ∈ typeRegs) (select : ℕ) :
    k'.get r.database (keyRow r.key select t) =
      if r.value = convtoString select ∧ type = t then some text else k.get r.database (keyRow r.key select t) := by
  split
  · rename_i own
    have named : keyRow r.key select t = rowName r.key r.value type := by rw [keyRow, own.1, own.2]
    rw [named]
    exact rows.get_new (by simp)
  · rename_i other
    exact rows.get_other (by simp) (fun h => other ((rowName_eq_keyRow colon).mp h.symm).2)
      (expireRow_ne_keyRow known).symm _

theorem ClonedRows.get_expiry (rows : ClonedRows k k' r type text mark) (known : type ∈ typeRegs) :
    k'.get r.database (expireRow r.key r.goal r.database) = mark :=
  rows.get_mark (by simp) fun h => ownedType_not_mem _ _ (((rowName_eq_keyRow colon).mp h.symm).2.2 ▸ known)

theorem ClonedRows.get_sourceRow (rows : ClonedRows k k' r type text mark) (known : type ∈ typeRegs)
    (differ : r.goal ≠ r.select) : k'.get r.database (expireRow r.key r.select r.database) =
      k.get r.database (expireRow r.key r.select r.database) :=
  rows.get_other (by simp) (fun h => ownedType_not_mem _ _ (((rowName_eq_keyRow colon).mp h.symm).2.2 ▸ known))
    (fun h => differ (expireRow_inj.mp h).2.1.symm) _

theorem ClonedRows.cloned_iff (rows : ClonedRows k k' r type text mark) (known : type ∈ typeRegs)
    (bound : r.select < 2 ^ 32) (held : k.get r.database (r.row type) = some value) :
    Cloned k k' r type ↔ k.NoneBefore r.database r.key r.goal type ∧
      (if r.Spelled then value = text else k.get r.database (keyRow r.key r.goal type) = some value) ∧
      k'.ExpiresAt r.database r.key r.goal (k.deadline r.database r.key r.select) ∧
      (r.goal = r.select → k.get r.database (expireRow r.key r.select r.database) = mark) ∧
      k'.deadline r.database r.key r.select = k.deadline r.database r.key r.select := by
  have copy : k'.get r.database (keyRow r.key r.goal type) = k.get r.database (r.row type) ↔
      if r.Spelled then value = text else k.get r.database (keyRow r.key r.goal type) = some value := by
    rw [rows.get_data colon known, held]
    by_cases spelled : r.Spelled
    · rw [if_pos spelled, if_pos ⟨spelled, rfl⟩, Option.some.injEq, eq_comm]
    · rw [if_neg spelled, if_neg fun h => spelled h.1]
  have before : k'.NoneBefore r.database r.key r.goal type ↔ k.NoneBefore r.database r.key r.goal type := by
    refine forall₂_congr fun t earlier => ?_
    rw [rows.get_data colon (ne_of_mem_takeWhile earlier).1, if_neg fun h => (ne_of_mem_takeWhile earlier).2 h.2.symm]
  have sourceRow : k'.get r.database (expireRow r.key r.select r.database) =
      k.get r.database (expireRow r.key r.select r.database) ↔
      (r.goal = r.select → k.get r.database (expireRow r.key r.select r.database) = mark) := by
    by_cases differ : r.goal = r.select
    · have row := rows.get_expiry colon known
      rw [differ] at row
      rw [row, eq_comm]
      exact ⟨fun h _ => h, fun h => h differ⟩
    · exact iff_of_true (rows.get_sourceRow colon known differ) fun same => absurd same differ
  constructor
  · intro h
    exact ⟨before.mp (registered_iff.mp h.registered).2.2, copy.mp h.value, h.expiry, sourceRow.mp h.sourceRow,
      h.sourceDeadline⟩
  · rintro ⟨first, same, expiry, row, deadline⟩
    have copied := copy.mpr same
    refine ⟨registered_iff.mpr ⟨known, by rw [copied, held]; rfl, before.mpr first⟩, copied, expiry, ?_,
      sourceRow.mpr row, deadline⟩
    rw [Request.row, rows.get_data colon known]
    split
    · rename_i own
      have spelled : r.Spelled := own.1.trans (congrArg convtoString (goal_of_text bound own.1).symm)
      rw [if_pos spelled] at same
      exact same ▸ held.symm
    · rfl

/-- The updates of CLONE for an expiring key. -/
def expiringClone (k : Kernel) (r : Request) : List Update :=
  [.put r.database (expireRow r.key (convtoUnsigned r.value) r.database) (convtoString (r.ttl k).toNat),
    .put r.database (rowName r.key r.value intKey) (toBin r.value),
    .schedule r.database (toSigned (r.ttl k).toNat) r.key (convtoUnsigned r.value)]

omit colon in
theorem expiring_clone_deadline (order : InOrder k.expires) (positive : 0 < r.ttl k) :
    (k.updates (expiringClone k r)).deadline r.database r.key r.goal = some (r.ttl k) ↔
      ∀ d ∈ k.leftover r.database r.key r.goal, r.ttl k ≤ d := by
  simp only [expiringClone, updates_cons, updates_nil, update_schedule, toSigned_ttl positive]
  change (addExpire _ _ _ _ r.goal _).deadline _ _ _ = _ ↔ _
  rw [InOrder.deadline_schedule, leftover_congr]
  · simp
  · simpa using order
  · omega

omit colon in
theorem expiring_clone_source (differ : r.goal ≠ r.select) :
    (k.updates (expiringClone k r)).deadline r.database r.key r.select = k.deadline r.database r.key r.select := by
  have other : (r.database, r.key, r.select) ≠ (r.database, r.key, r.goal) := by simpa using differ.symm
  simp only [expiringClone, updates_cons, updates_nil, update_schedule]
  change (addExpire _ _ _ _ r.goal _).deadline _ _ _ = _
  rw [deadline_schedule_other other, deadline_congr]
  simp

theorem expiring_clone_whole_iff (writable : k.Writable) (order : InOrder k.expires)
    (bound : r.select < 2 ^ 32) (registered : r.registered k = some intKey) (positive : 0 < r.ttl k) :
    Cloned k (k.updates (expiringClone k r)) r intKey ↔ r.ClonesWhole k intKey := by
  obtain ⟨known, value, held⟩ := registered_some registered
  have rows : ClonedRows k (k.updates (expiringClone k r)) r intKey (toBin r.value)
      (some (convtoString (r.ttl k).toNat)) := putExpire_rows writable rfl
  have expiry := ClonedRows.get_expiry colon rows known
  have late := expiring_clone_deadline (r := r) order positive
  rw [ClonedRows.cloned_iff colon rows known bound held, order.deadline_of_positive positive]
  constructor
  · rintro ⟨before, copy, expires, row, -⟩
    refine ⟨before, fun _ => ⟨?_, late.mp expires.table, row⟩, fun lasting => absurd ⟨registered, positive⟩ lasting⟩
    split
    · rename_i spelled
      rw [if_pos spelled] at copy
      exact held.trans (congrArg some copy)
    · rename_i misspelled
      rw [if_neg misspelled] at copy
      exact copy.trans held.symm
  · rintro ⟨before, whole, -⟩
    obtain ⟨copy, leaves, row⟩ := whole ⟨registered, positive⟩
    have table := late.mpr leaves
    refine ⟨before, ?_, ⟨table, expiry⟩, row, ?_⟩
    · split
      · rename_i spelled
        rw [if_pos spelled] at copy
        exact Option.some.inj (held.symm.trans copy)
      · rename_i misspelled
        rw [if_neg misspelled] at copy
        exact copy.trans held
    · by_cases differ : r.goal = r.select
      · exact differ ▸ table
      · exact (expiring_clone_source differ).trans (order.deadline_of_positive positive)

theorem lasting_clone_whole_iff (writable : k.Writable) (bound : r.select < 2 ^ 32) (known : type ∈ typeRegs)
    (held : k.get r.database (r.row type) = some value) (lasting : ¬ r.Expiring k) :
    Cloned k (k.updates [.put r.database (rowName r.key r.value type) value]) r type ↔ r.ClonesWhole k type := by
  have rows : ClonedRows k (k.updates [.put r.database (rowName r.key r.value type) value]) r type value
      (k.get r.database (expireRow r.key r.goal r.database)) := put_rows writable
  have table : (k.updates [.put r.database (rowName r.key r.value type) value]).deadline = k.deadline :=
    deadline_congr (by simp)
  have expiry := ClonedRows.get_expiry colon rows known
  rw [ClonedRows.cloned_iff colon rows known bound held]
  constructor
  · rintro ⟨before, copy, expires, -, -⟩
    refine ⟨before, fun yes => absurd yes lasting, fun _ => ⟨?_, ⟨table ▸ expires.table, expiry ▸ expires.row⟩⟩⟩
    by_cases spelled : r.Spelled
    · exact .inl spelled
    · rw [if_neg spelled] at copy
      exact .inr (copy.trans held.symm)
  · rintro ⟨before, -, whole⟩
    obtain ⟨copy, expires⟩ := whole lasting
    refine ⟨before, ?_, ⟨table.symm ▸ expires.table, expiry.trans expires.row⟩, fun here => here ▸ rfl, by rw [table]⟩
    split
    · rfl
    · rename_i misspelled
      exact (copy.resolve_left misspelled).trans held

end

section
variable {P : Platform} {s : Server} {r : Request} {type : Bytes}

/-- After a CLONE that replied OK the new select has the value and the deadline, and the source is as it was, if and
only if the state was `ClonesWhole`. -/
theorem clone_whole_iff (reach : (Server.machine P).Reachable s) (cls : r.cls = .clone) (accepted : r.Accepted)
    (registered : r.registered s.kernel = some type) (ok : (s.kernel.reply P r).finished = true) :
    Cloned s.kernel (s.kernel.execute P r) r type ↔ r.ClonesWhole s.kernel type := by
  obtain ⟨writable, order⟩ := reachable_inOrder reach
  obtain ⟨known, value, held⟩ := registered_some registered
  have colon := accepted.colon (by simp [cls])
  have bound := accepted.bound
  have entered := prepare_of_finished (by simp [cls]) (by simp [cls]) registered ok
  have ran : s.kernel.execute P r =
      (Run.clone s.kernel (r.found type (s.kernel.get r.database (r.row type)))).1 := by
    rw [Kernel.execute, entered, QueryBase.run, cls]
    rfl
  rw [ran]
  by_cases expiring : type = intKey ∧ 0 < r.ttl s.kernel
  · obtain ⟨own, positive⟩ := expiring
    rw [clone_expiring writable own positive, ← expiringClone]
    subst own
    dsimp only
    exact expiring_clone_whole_iff colon writable order bound registered positive
  · rw [clone_lasting held (.inr rfl) expiring]
    exact lasting_clone_whole_iff colon writable bound known held (lasting_of_not registered expiring)

end

theorem clone_whole_plain : ∃ s, (Server.machine Server.integers).Reachable s ∧
    Cloned s.kernel (s.kernel.execute Server.integers (inDb .clone (lit "k") (lit "2"))) (inDb .clone (lit "k") (lit "2")) intKey := by
  have h : ((Server.machine Server.integers).exec (fun _ _ => True) Server.fresh
      [.request (inDb .set (lit "k") (lit "v"))]).any fun s =>
        (inDb .clone (lit "k") (lit "2")).registered s.kernel = some intKey ∧
        (s.kernel.reply Server.integers (inDb .clone (lit "k") (lit "2"))).finished = true ∧
        (∀ t ∈ typeRegs.takeWhile (· ≠ intKey), s.kernel.get (lit "db") (keyRow (lit "k") 2 t) = none) ∧
        s.kernel.get (lit "db") (expireRow (lit "k") 2 (lit "db")) = none ∧ s.kernel.expires = [] := by decide
  obtain ⟨s, reached, key, ok, before, newRow, entries⟩ := Machine.exec_holds h (.initial Server.fresh_initial)
  have none := deadline_of_empty entries (lit "db")
  refine ⟨s, reached, (clone_whole_iff reached rfl (by decide) key ok).mpr ⟨before,
    fun expiring => absurd expiring (lasting_of_empty entries),
    fun _ => ⟨.inl (by decide), ⟨(none _ _).trans (none _ _).symm, ?_⟩⟩⟩⟩
  exact newRow.trans (congrArg (Option.map _) (none (lit "k") 1)).symm

/-- The clone of an expiring key holds the text of the select. -/
theorem clone_stores_select : ∃ s, (Server.machine Server.integers).Reachable s ∧
    (inDb .clone (lit "k") (lit "2")).Accepted ∧ (inDb .clone (lit "k") (lit "2")).registered s.kernel = some intKey ∧
    (s.kernel.reply Server.integers (inDb .clone (lit "k") (lit "2"))).finished = true ∧
    ¬ Cloned s.kernel (s.kernel.execute Server.integers (inDb .clone (lit "k") (lit "2")))
      (inDb .clone (lit "k") (lit "2")) intKey := by
  have h : ((Server.machine Server.integers).exec (fun _ _ => True) Server.fresh
      [.request { inDb .setex (lit "k") (lit "v") with id := 100 }]).any fun s =>
        (inDb .clone (lit "k") (lit "2")).registered s.kernel = some intKey ∧
        (s.kernel.reply Server.integers (inDb .clone (lit "k") (lit "2"))).finished = true ∧
        s.kernel.get (lit "db") (keyRow (lit "k") 1 intKey) = some (toBin (lit "v")) ∧
        (s.kernel.execute Server.integers (inDb .clone (lit "k") (lit "2"))).get (lit "db") (keyRow (lit "k") 2 intKey) =
          some (toBin (lit "2")) := by decide
  obtain ⟨s, reached, key, ok, source, copy⟩ := Machine.exec_holds h (.initial Server.fresh_initial)
  refine ⟨s, reached, by decide, key, ok, fun cloned => ?_⟩
  have same : some (toBin (lit "2")) = some (toBin (lit "v")) := copy.symm.trans (cloned.value.trans source)
  exact absurd same (by decide)

end BerylDB.Store
