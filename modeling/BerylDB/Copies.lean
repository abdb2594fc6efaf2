import BerylDB.Relocation

/-! # COPY

What it leaves for a registered source, for an absent one and for a destination of another type. -/
namespace BerylDB.Store
open Text QueryBase Kernel Transition

/-- The destination has the value and the deadline of the source, which is as it was. -/
structure Copied (k k' : Kernel) (r : Request) (type : Bytes) : Prop where
  registered : registered k' r.database r.value r.select = some type
  value : k'.get r.database (keyRow r.value r.select type) = k.get r.database (r.row type)
  expiry : k'.ExpiresAt r.database r.value r.select (k.deadline r.database r.key r.select)
  source : k'.get r.database (r.row type) = k.get r.database (r.row type)
  sourceRow : k'.get r.database (expireRow r.key r.select r.database) =
    k.get r.database (expireRow r.key r.select r.database)
  sourceDeadline : k'.deadline r.database r.key r.select = k.deadline r.database r.key r.select

/-- The destination is absent or of the type of the source. -/
def Request.Free (r : Request) (k : Kernel) (type : Bytes) : Prop :=
  QueryBase.registered k r.database r.value r.select = none ∨
    QueryBase.registered k r.database r.value r.select = some type

/-- COPY for every state of source and destination: an exact copy, or an error that changes nothing. -/
structure CopiesExactly (P : Platform) (k : Kernel) (r : Request) : Prop where
  found : ∀ type, r.registered k = some type → r.Free k type → Copied k (k.execute P r) r type
  missing : r.registered k = none →
    (k.reply P r).access = .notFound ∧ (k.execute P r).get = k.get ∧ (k.execute P r).expires = k.expires
  other : ∀ type, r.registered k = some type → ¬ r.Free k type →
    (k.reply P r).access = .invalidType ∧ (k.execute P r).get = k.get ∧ (k.execute P r).expires = k.expires

/-- The state in which COPY does so: the source is registered, a destination of another type holds a value, and a free
one ends with the deadline of the source. -/
structure Request.CopiesWhole (r : Request) (k : Kernel) (type : Bytes) : Prop where
  registered : r.registered k = some type
  foreign : ¬ r.Free k type → ¬ Allows r.cls k r type
  refused : r.Free k type → ¬ Allows r.cls k r type →
    k.get r.database (keyRow r.value r.select type) = k.get r.database (r.row type) ∧
    k.ExpiresAt r.database r.value r.select (k.deadline r.database r.key r.select)
  expiring : r.Free k type → Allows r.cls k r type → r.Expiring k →
    (∀ d ∈ k.leftover r.database r.value r.select, r.ttl k ≤ d) ∧
    (r.value = r.key → k.get r.database (expireRow r.key r.select r.database) = some (convtoString (r.ttl k).toNat))
  lasting : r.Free k type → Allows r.cls k r type → ¬ r.Expiring k →
    k.ExpiresAt r.database r.value r.select (k.deadline r.database r.key r.select)

section
variable {k k' : Kernel} {r : Request} {type value : Bytes} {mark : Option Bytes}

theorem Request.CopiesWhole.free (whole : r.CopiesWhole k type) (allows : Allows r.cls k r type) : r.Free k type := by
  by_contra foreign
  exact whole.foreign foreign allows

/-- The rows that COPY leaves. -/
abbrev CopiedRows (k k' : Kernel) (r : Request) (type value : Bytes) (mark : Option Bytes) : Prop :=
  PlacedRows k k' r.database none (keyRow r.value r.select type) (expireRow r.value r.select r.database) value mark

theorem CopiedRows.get_type (rows : CopiedRows k k' r type value mark) {t : Bytes} (known : t ∈ typeRegs)
    (other : t ≠ type) : k'.get r.database (keyRow r.value r.select t) = k.get r.database (keyRow r.value r.select t) :=
  rows.get_other (by simp) (fun h => other (keyRow_inj.mp h).2.2) (expireRow_ne_keyRow known).symm _

theorem CopiedRows.get_source (rows : CopiedRows k k' r type value mark) (known : type ∈ typeRegs)
    (held : k.get r.database (r.row type) = some value) :
    k'.get r.database (r.row type) = k.get r.database (r.row type) := by
  by_cases same : r.value = r.key
  · rw [held, Request.row, ← same]
    exact rows.get_new (by simp)
  · exact rows.get_other (by simp) (fun h => same (keyRow_inj.mp h).1.symm) (expireRow_ne_keyRow known).symm _

theorem CopiedRows.get_mark (rows : CopiedRows k k' r type value mark) (known : type ∈ typeRegs) :
    k'.get r.database (expireRow r.value r.select r.database) = mark :=
  PlacedRows.get_mark rows (by simp) (expireRow_ne_keyRow known)

theorem CopiedRows.get_sourceRow (rows : CopiedRows k k' r type value mark) (known : type ∈ typeRegs) :
    k'.get r.database (expireRow r.key r.select r.database) = k.get r.database (expireRow r.key r.select r.database) ↔
      (r.value = r.key → k.get r.database (expireRow r.key r.select r.database) = mark) := by
  by_cases same : r.value = r.key
  · have row := CopiedRows.get_mark rows known
    rw [same] at row
    rw [row, eq_comm]
    exact ⟨fun h _ => h, fun h => h same⟩
  · refine iff_of_true (rows.get_other (by simp) (expireRow_ne_keyRow known) (fun h => same ?_) _) fun h =>
      absurd h same
    exact (expireRow_inj.mp h).1.symm

theorem CopiedRows.copied_iff (rows : CopiedRows k k' r type value mark) (known : type ∈ typeRegs)
    (held : k.get r.database (r.row type) = some value) (free : r.Free k type) :
    Copied k k' r type ↔ k'.ExpiresAt r.database r.value r.select (k.deadline r.database r.key r.select) ∧
      (r.value = r.key → k.get r.database (expireRow r.key r.select r.database) = mark) ∧
      k'.deadline r.database r.key r.select = k.deadline r.database r.key r.select := by
  have copied : k'.get r.database (keyRow r.value r.select type) = some value := rows.get_new (by simp)
  constructor
  · exact fun h => ⟨h.expiry, (CopiedRows.get_sourceRow rows known).mp h.sourceRow, h.sourceDeadline⟩
  · rintro ⟨expiry, row, deadline⟩
    refine ⟨registered_iff.mpr ⟨known, by rw [copied]; rfl, fun t before => ?_⟩, copied.trans held.symm, expiry,
      CopiedRows.get_source rows known held, (CopiedRows.get_sourceRow rows known).mpr row, deadline⟩
    obtain ⟨ht, other⟩ := ne_of_mem_takeWhile before
    rw [CopiedRows.get_type rows ht other]
    rcases free with absent | same
    · exact registered_none.mp absent t ht
    · exact (registered_iff.mp same).2.2 t before

/-- The updates of COPY for an expiring key. -/
def expiringCopy (k : Kernel) (r : Request) (value : Bytes) : List Update :=
  [.put r.database (expireRow r.value r.select r.database) (convtoString (r.ttl k).toNat),
    .schedule r.database (toSigned (r.ttl k).toNat) r.value r.select,
    .put r.database (keyRow r.value r.select intKey) value]

theorem expiring_copy_deadline (order : InOrder k.expires) (positive : 0 < r.ttl k) :
    (k.updates (expiringCopy k r value)).deadline r.database r.value r.select = some (r.ttl k) ↔
      ∀ d ∈ k.leftover r.database r.value r.select, r.ttl k ≤ d := by
  simp only [expiringCopy, updates_cons, updates_nil, update_schedule, toSigned_ttl positive]
  rw [deadline_congr (expires_put _ _ _), InOrder.deadline_schedule, leftover_congr]
  · simp
  · simpa using order
  · omega

theorem expiring_copy_source (differ : r.value ≠ r.key) :
    (k.updates (expiringCopy k r value)).deadline r.database r.key r.select = k.deadline r.database r.key r.select := by
  have other : (r.database, r.key, r.select) ≠ (r.database, r.value, r.select) := by simpa using differ.symm
  simp only [expiringCopy, updates_cons, updates_nil, update_schedule]
  rw [deadline_congr (expires_put _ _ _), deadline_schedule_other other, deadline_congr]
  simp

/-- A refused COPY is exact where the copy was already there. -/
theorem copied_self_iff (known : type ∈ typeRegs) (held : k.get r.database (r.row type) = some value)
    (free : r.Free k type) :
    Copied k k r type ↔ k.get r.database (keyRow r.value r.select type) = k.get r.database (r.row type) ∧
      k.ExpiresAt r.database r.value r.select (k.deadline r.database r.key r.select) := by
  constructor
  · exact fun h => ⟨h.value, h.expiry⟩
  · rintro ⟨same, expiry⟩
    refine ⟨free.resolve_left fun absent => ?_, same, expiry, rfl, rfl, rfl⟩
    have none := registered_none.mp absent type known
    exact absurd (none.symm.trans (same.trans held)) (by simp)

theorem expiring_copied_iff (writable : k.Writable) (order : InOrder k.expires) (positive : 0 < r.ttl k)
    (held : k.get r.database (r.row intKey) = some value) (free : r.Free k intKey) :
    Copied k (k.updates (expiringCopy k r value)) r intKey ↔
      (∀ d ∈ k.leftover r.database r.value r.select, r.ttl k ≤ d) ∧
      (r.value = r.key →
        k.get r.database (expireRow r.key r.select r.database) = some (convtoString (r.ttl k).toNat)) := by
  have rows : CopiedRows k (k.updates (expiringCopy k r value)) r intKey value (some (convtoString (r.ttl k).toNat)) :=
    putExpire_rows writable rfl
  have late : (k.updates (expiringCopy k r value)).deadline r.database r.value r.select = _ ↔ _ :=
    expiring_copy_deadline order positive
  rw [CopiedRows.copied_iff rows (by decide) held free, order.deadline_of_positive positive]
  constructor
  · rintro ⟨expiry, row, -⟩
    exact ⟨late.mp expiry.table, row⟩
  · rintro ⟨leaves, row⟩
    refine ⟨⟨late.mpr leaves, CopiedRows.get_mark rows (by decide)⟩, row, ?_⟩
    by_cases same : r.value = r.key
    · exact same ▸ late.mpr leaves
    · exact (expiring_copy_source same).trans (order.deadline_of_positive positive)

theorem lasting_copied_iff (writable : k.Writable) (known : type ∈ typeRegs)
    (held : k.get r.database (r.row type) = some value) (free : r.Free k type) :
    Copied k (k.updates [.put r.database (keyRow r.value r.select type) value]) r type ↔
      k.ExpiresAt r.database r.value r.select (k.deadline r.database r.key r.select) := by
  have rows : CopiedRows k (k.updates [.put r.database (keyRow r.value r.select type) value]) r type value
      (k.get r.database (expireRow r.value r.select r.database)) := put_rows writable
  have table : (k.updates [.put r.database (keyRow r.value r.select type) value]).deadline = k.deadline :=
    deadline_congr (by simp)
  have row := CopiedRows.get_mark rows known
  rw [CopiedRows.copied_iff rows known held free]
  constructor
  · rintro ⟨expiry, -, -⟩
    exact ⟨table ▸ expiry.table, row ▸ expiry.row⟩
  · intro expiry
    exact ⟨⟨table.symm ▸ expiry.table, row.trans expiry.row⟩, fun same => same ▸ rfl, by rw [table]⟩

end

section
variable {P : Platform} {k : Kernel} {r : Request} {type : Bytes}

/-- An absent source is not reported. -/
theorem copy_absent_reply (cls : r.cls = .copy) (opened : k.Opened r.database) (absent : r.registered k = none) :
    (k.reply P r).access ≠ .notFound := by
  have loaded : r.plain.getRegistry k r.select r.key true = _ := getRegistry_none true absent
  unfold Kernel.reply
  rw [prepare_opened opened]
  unfold dispatch
  rw [show r.plain.select = r.select from rfl, show r.plain.key = r.key from rfl, loaded]
  simp only [cls, QueryClass.queryType]
  split
  · intro h
    cases h
  · intro h
    cases h

theorem copies_refused_iff (cls : r.cls = .copy) (opened : k.Opened r.database)
    (registered : r.registered k = some type)
    (refused : ¬ Allows r.cls k r type) : CopiesExactly P k r ↔ (r.Free k type → Copied k k r type) := by
  have routed := prepare_routed (P := P) opened registered (by simp [cls]) (by simp [cls])
  rw [if_neg refused] at routed
  have same : k.execute P r = k := by rw [Kernel.execute, routed]
  have error : (k.reply P r).access = .invalidType := by
    rw [Kernel.reply, routed]
    rfl
  constructor
  · intro h free
    have copied := h.found type registered free
    rwa [same] at copied
  · intro h
    refine ⟨fun type' own free => ?_, fun absent => absurd (absent.symm.trans registered) (by simp), fun _ _ _ => ?_⟩
    · obtain rfl := Option.some.inj (registered.symm.trans own)
      exact same.symm ▸ h free
    · rw [same]
      exact ⟨error, rfl, rfl⟩

theorem copies_allowed_iff (cls : r.cls = .copy) (opened : k.Opened r.database)
    (registered : r.registered k = some type)
    (allows : Allows r.cls k r type) : CopiesExactly P k r ↔ r.Free k type ∧
      Copied k (Run.copy k (r.found type (k.get r.database (r.row type)))).1 r type := by
  have routed := prepare_routed (P := P) opened registered (by simp [cls]) (by simp [cls])
  rw [if_pos allows, QueryBase.run, cls] at routed
  have ran : k.execute P r = (Run.copy k (r.found type (k.get r.database (r.row type)))).1 := by
    rw [Kernel.execute, cls, routed]
    rfl
  have quiet : (k.reply P r).access = .statusOk := by
    rw [Kernel.reply, cls, routed]
    rfl
  rw [← ran]
  constructor
  · intro h
    by_cases free : r.Free k type
    · exact ⟨free, h.found type registered free⟩
    · exact absurd (quiet.symm.trans (h.other type registered free).1) (by simp)
  · rintro ⟨free, copied⟩
    refine ⟨fun type' own _ => ?_, fun absent => absurd (absent.symm.trans registered) (by simp),
      fun type' own foreign => ?_⟩
    · obtain rfl := Option.some.inj (registered.symm.trans own)
      exact copied
    · obtain rfl := Option.some.inj (registered.symm.trans own)
      exact absurd free foreign

end

section
variable {P : Platform} {s : Server} {r : Request}

/-- COPY makes an exact copy or fails cleanly, if and only if the state was `CopiesWhole`. -/
theorem copy_exact_iff (reach : (Server.machine P).Reachable s) (cls : r.cls = .copy)
    (opened : s.kernel.Opened r.database) :
    CopiesExactly P s.kernel r ↔ ∃ type, r.CopiesWhole s.kernel type := by
  obtain ⟨writable, order⟩ := reachable_inOrder reach
  cases registered : r.registered s.kernel with
  | none =>
    refine iff_of_false (fun h => copy_absent_reply cls opened registered (h.missing registered).1) ?_
    rintro ⟨type, whole⟩
    exact absurd (registered.symm.trans whole.registered) (by simp)
  | some type =>
    obtain ⟨known, value, held⟩ := registered_some registered
    have only : (∃ t, r.CopiesWhole s.kernel t) ↔ r.CopiesWhole s.kernel type := by
      refine ⟨?_, fun whole => ⟨type, whole⟩⟩
      rintro ⟨t, whole⟩
      obtain rfl := Option.some.inj (registered.symm.trans whole.registered)
      exact whole
    rw [only]
    by_cases allows : Allows r.cls s.kernel r type
    · rw [copies_allowed_iff cls opened registered allows]
      by_cases expiring : type = intKey ∧ 0 < r.ttl s.kernel
      · obtain ⟨own, positive⟩ := expiring
        rw [copy_expiring writable held (.inr rfl) own positive, ← expiringCopy]
        dsimp only
        subst own
        constructor
        · rintro ⟨free, copied⟩
          exact ⟨registered, fun foreign => absurd free foreign, fun _ no => absurd allows no,
            fun _ _ _ => (expiring_copied_iff writable order positive held free).mp copied,
            fun _ _ lasting => absurd ⟨registered, positive⟩ lasting⟩
        · intro whole
          have free := whole.free allows
          exact ⟨free, (expiring_copied_iff writable order positive held free).mpr
            (whole.expiring free allows ⟨registered, positive⟩)⟩
      · have lasting := lasting_of_not registered expiring
        rw [copy_lasting held (.inr rfl) expiring]
        dsimp only
        constructor
        · rintro ⟨free, copied⟩
          exact ⟨registered, fun foreign => absurd free foreign, fun _ no => absurd allows no,
            fun _ _ yes => absurd yes lasting, fun _ _ _ => (lasting_copied_iff writable known held free).mp copied⟩
        · intro whole
          have free := whole.free allows
          exact ⟨free, (lasting_copied_iff writable known held free).mpr (whole.lasting free allows lasting)⟩
    · rw [copies_refused_iff cls opened registered allows]
      constructor
      · intro h
        exact ⟨registered, fun _ => allows, fun free _ => (copied_self_iff known held free).mp (h free),
          fun _ yes => absurd yes allows, fun _ yes => absurd yes allows⟩
      · exact fun whole free => (copied_self_iff known held free).mpr (whole.refused free allows)

end

theorem copy_exact_plain : ∃ s, (Server.machine Server.integers).Reachable s ∧
    CopiesExactly Server.integers s.kernel (inDb .copy (lit "k") (lit "m")) := by
  have h : ((Server.machine Server.integers).exec (fun _ _ => True) Server.fresh
      [.request (inDb .set (lit "k") (lit "v"))]).any fun s =>
        (inDb .copy (lit "k") (lit "m")).registered s.kernel = some intKey ∧
        registered s.kernel (lit "db") (lit "m") 1 = none ∧ (s.kernel.databases (lit "db")).closing = false ∧
        Allows .copy s.kernel (inDb .copy (lit "k") (lit "m")) intKey ∧
        s.kernel.get (lit "db") (expireRow (lit "m") 1 (lit "db")) = none ∧ s.kernel.expires = [] := by decide
  obtain ⟨s, reached, key, absent, opened, allows, newRow, entries⟩ :=
      Machine.exec_holds h (.initial Server.fresh_initial)
  have none := deadline_of_empty entries (lit "db")
  have exactly := copy_exact_iff (r := inDb .copy (lit "k") (lit "m")) reached rfl opened
  refine ⟨s, reached, exactly.mpr ⟨intKey, key, fun foreign => absurd (.inl absent) foreign,
    fun _ no => absurd allows no, fun _ _ expiring => absurd expiring (lasting_of_empty entries),
    fun _ _ _ => ⟨(none _ _).trans (none _ _).symm, ?_⟩⟩⟩
  exact newRow.trans (congrArg (Option.map _) (none (lit "k") 1)).symm

/-- COPY of an absent key reports nothing and puts a row. -/
theorem copy_absent_puts : (Server.machine Server.integers).Reachable Server.fresh ∧
    (inDb .copy (lit "k") (lit "m")).Accepted ∧ (inDb .copy (lit "k") (lit "m")).registered Server.fresh.kernel = none ∧
    (Server.fresh.kernel.execute Server.integers (inDb .copy (lit "k") (lit "m"))).get (lit "db")
      (keyRow (lit "m") 1 processNull) = some [] ∧
    ¬ CopiesExactly Server.integers Server.fresh.kernel (inDb .copy (lit "k") (lit "m")) := by
  refine ⟨.initial Server.fresh_initial, by decide, by decide, by decide, fun exactly => ?_⟩
  exact absurd (exactly.missing (by decide)).1 (by decide)

end BerylDB.Store
