import BerylDB.FutureTable
import BerylDB.Removals
import BerylDB.TimetableOrder

/-! # Selects that no request reaches

A database is shared by its selects: their rows stand in one store, their expiries and futures in one table each.
`Request.Reaches` says which selects a request may touch, and a run whose events reach a select nowhere leaves all
that it holds as it was, in its order. -/
namespace BerylDB.Store
open Text Kernel Transition

/-- What a select holds: the rows by key and type, and its entries of the two tables. -/
@[ext] structure Space where
  rows : Bytes → Bytes → Option Bytes
  expires : List ExpireEntry
  futures : List FutureEntry

def Kernel.space (k : Kernel) (db : Bytes) (n : ℕ) : Space where
  rows key type := k.get db (keyRow key n type)
  expires := k.expires.filter fun e => e.database = db ∧ e.select = n
  futures := k.futures.filter fun e => e.database = db ∧ e.select = n

/-- The request may touch the select `n` of the database `db`.  GREM takes places of other selects only where the key of
the reference has rows. -/
def Request.Reaches (k : Kernel) (r : Request) (db : Bytes) (n : ℕ) : Prop :=
  match r.cls with
  | .dbreset => r.database = db
  | .sflush => r.database = db ∧ r.key = convtoString n
  | .move => r.database = db ∧ (r.select = n ∨ convtoUnsigned r.value = n)
  | .clone => r.database = db ∧ convtoUnsigned r.value = n
  | .transfer => r.select = n ∧ (r.database = db ∨ r.transfDb = some db)
  | .georem => r.database = db ∧ (r.select = n ∨ ∃ type, (k.get db (keyRow r.key n type)).isSome)
  | _ => r.database = db ∧ r.select = n

/-- A tick pushes delete queries and touches nothing; a pushed query is a request. -/
def Event.Reaches (k : Kernel) (a : Event) (db : Bytes) (n : ℕ) : Prop :=
  match a with
  | .request r => r.Reaches k db n
  | .tick _ => False
  | .expire e => e.expireDelete.Reaches k db n

/-- The runs that start in `s`. -/
abbrev Server.runs (P : Platform) (s : Server) : Machine Server Event where
  initial u := u = s
  next := Server.next P

/-! ## Updates -/

/-- The update is about another select. -/
def Update.Avoids (db : Bytes) (n : ℕ) : Update → Prop
  | .put d row _ | .erase d row => d = db → ∀ key type, row ≠ keyRow key n type
  | .schedule d _ _ select | .cancel d _ select | .plan d _ _ select | .unplan d _ select => ¬ (d = db ∧ select = n)
  | .close d => d ≠ db

section
variable {d db key row type value : Bytes} {select n : ℕ} {time : ℤ}

theorem keyRow_avoids : (d = db → ∀ key' type', keyRow key select type ≠ keyRow key' n type') ↔
    ¬ (d = db ∧ select = n) := by
  constructor
  · rintro avoids ⟨rfl, rfl⟩
    exact avoids rfl key type rfl
  · exact fun other here _ _ same => other ⟨here, (keyRow_inj.mp same).2.1⟩

@[simp] theorem put_avoids : (Update.put d (keyRow key select type) value).Avoids db n ↔ ¬ (d = db ∧ select = n) :=
  keyRow_avoids

@[simp] theorem erase_avoids : (Update.erase d (keyRow key select type)).Avoids db n ↔ ¬ (d = db ∧ select = n) :=
  keyRow_avoids

@[simp] theorem schedule_avoids : (Update.schedule d time key select).Avoids db n ↔ ¬ (d = db ∧ select = n) := Iff.rfl
@[simp] theorem cancel_avoids : (Update.cancel d key select).Avoids db n ↔ ¬ (d = db ∧ select = n) := Iff.rfl
@[simp] theorem plan_avoids : (Update.plan d time key select).Avoids db n ↔ ¬ (d = db ∧ select = n) := Iff.rfl
@[simp] theorem unplan_avoids : (Update.unplan d key select).Avoids db n ↔ ¬ (d = db ∧ select = n) := Iff.rfl

@[simp] theorem put_nil_avoids : (Update.put d [] value).Avoids db n := fun _ _ _ same => keyRow_ne_nil same.symm

end

section
variable {P : Platform} {k : Kernel} {r : Request} {db key type : Bytes} {n : ℕ} {us : List Update}

theorem space_expires {k' : Kernel} (same : k'.expires = k.expires) :
    (k'.space db n).expires = (k.space db n).expires := congrArg (List.filter _) same

theorem space_futures {k' : Kernel} (same : k'.futures = k.futures) :
    (k'.space db n).futures = (k.space db n).futures := congrArg (List.filter _) same

theorem expires_addExpire_other (time : ℤ) {d : Bytes} {select : ℕ} (other : ¬ (d = db ∧ select = n)) :
    (k.addExpire d time key select true).expires.filter (fun e => e.database = db ∧ e.select = n) =
      k.expires.filter fun e => e.database = db ∧ e.select = n := by
  have kept : (k.deleteExpire d key select).expires.filter (fun e => e.database = db ∧ e.select = n) =
      k.expires.filter fun e => e.database = db ∧ e.select = n :=
    Timetable.filter_delete_other fun e same => by
      obtain ⟨rfl, -, rfl⟩ : e.database = d ∧ e.key = key ∧ e.select = select := by simpa [ExpireEntry.name] using same
      simpa using other
  unfold Kernel.addExpire
  split
  · rfl
  · refine (Timetable.filter_add_other (by simpa using other)).trans ?_
    split
    · exact kept
    · rfl

theorem futures_addFuture_other (time : ℤ) {d : Bytes} {select : ℕ} (other : ¬ (d = db ∧ select = n)) :
    (k.addFuture d time key select true).futures.filter (fun e => e.database = db ∧ e.select = n) =
      k.futures.filter fun e => e.database = db ∧ e.select = n := by
  have kept : (k.deleteFuture d key select).futures.filter (fun e => e.database = db ∧ e.select = n) =
      k.futures.filter fun e => e.database = db ∧ e.select = n :=
    Timetable.filter_delete_other fun e same => by
      obtain ⟨rfl, -, rfl⟩ : e.database = d ∧ e.key = key ∧ e.select = select := by simpa [FutureEntry.name] using same
      simpa using other
  unfold Kernel.addFuture
  split
  · rfl
  · refine (Timetable.filter_add_other (by simpa using other)).trans ?_
    split
    · exact kept
    · rfl

theorem space_update (writable : k.Writable) {u : Update} (avoids : u.Avoids db n) :
    (k.update u).space db n = k.space db n := by
  have rows : (∀ key type, u.contents k.get db (keyRow key n type) = k.get db (keyRow key n type)) →
      ((k.update u).space db n).rows = (k.space db n).rows := fun same => by
    funext key type
    exact (congrFun (congrFun (get_update writable u) db) _).trans (same key type)
  cases u with
  | put d row value =>
    refine Space.ext (rows fun key type => if_neg ?_) ?_ ?_
    · rintro ⟨rfl, same⟩
      exact avoids rfl key type same.symm
    · exact space_expires (expires_write d _)
    · exact space_futures (futures_write d _)
  | erase d row =>
    refine Space.ext (rows fun key type => if_neg ?_) ?_ ?_
    · rintro ⟨rfl, same⟩
      exact avoids rfl key type same.symm
    · exact space_expires (expires_write d _)
    · exact space_futures (futures_write d _)
  | schedule d time key select =>
    refine Space.ext (rows fun _ _ => rfl) ?_ ?_ <;> rw [update_schedule]
    · exact expires_addExpire_other time avoids
    · exact space_futures (futures_addExpire d time key select true)
  | cancel d key select =>
    refine Space.ext (rows fun _ _ => rfl) (Timetable.filter_delete_other fun e same => ?_) rfl
    obtain ⟨rfl, -, rfl⟩ : e.database = d ∧ e.key = key ∧ e.select = select := by simpa [ExpireEntry.name] using same
    simpa [Update.Avoids] using avoids
  | plan d time key select =>
    refine Space.ext (rows fun _ _ => rfl) ?_ ?_ <;> rw [update_plan]
    · exact space_expires (expires_addFuture d time key select true)
    · exact futures_addFuture_other time avoids
  | unplan d key select =>
    refine Space.ext (rows fun _ _ => rfl) rfl (Timetable.filter_delete_other fun e same => ?_)
    obtain ⟨rfl, -, rfl⟩ : e.database = d ∧ e.key = key ∧ e.select = select := by simpa [FutureEntry.name] using same
    simpa [Update.Avoids] using avoids
  | close d =>
    have other : db ≠ d := Ne.symm avoids
    refine Space.ext (rows fun _ _ => rfl) ?_ ?_
    · refine (List.filter_filter ..).trans (List.filter_congr fun e _ => ?_)
      by_cases here : e.database = db <;> simp [here, other]
    · refine (List.filter_filter ..).trans (List.filter_congr fun e _ => ?_)
      by_cases here : e.database = db <;> simp [here, other]

theorem space_updates (writable : k.Writable) (avoids : ∀ u ∈ us, u.Avoids db n) :
    (k.updates us).space db n = k.space db n := by
  induction us generalizing k with
  | nil => rw [updates_nil]
  | cons u us ih =>
    rw [updates_cons, ih (writable.update u) fun u' later => avoids u' (List.mem_cons_of_mem _ later)]
    exact space_update writable (avoids u List.mem_cons_self)

/-! ## Outcomes -/

theorem reaches_own (cls : r.cls ≠ .sflush ∧ r.cls ≠ .clone) (own : r.database = db ∧ r.select = n) :
    r.Reaches k db n := by
  obtain ⟨database, select⟩ := own
  unfold Request.Reaches
  split
  · exact database
  · exact absurd ‹_› cls.1
  · exact ⟨database, .inl select⟩
  · exact absurd ‹_› cls.2
  · exact ⟨select, .inl database⟩
  · exact ⟨database, .inl select⟩
  · exact ⟨database, select⟩

/-- MOVE and CLONE name the new select by a text, which only reads as the select that it names. -/
theorem rowName_avoids {d key text type : Bytes} (digits : text.all isDigit = true) (least : 1 ≤ convtoSigned text)
    (other : d = db → convtoUnsigned text ≠ n) :
    d = db → ∀ key' type', rowName key text type ≠ keyRow key' n type' := by
  intro here key' type' same
  obtain ⟨-, rfl, -⟩ := (rowName_eq_keyRow (colon_not_mem_digits digits)).mp same
  rw [convtoSigned_convtoString] at least
  have bound : n < 2 ^ 32 := by
    split at least <;> omega
  exact other here (convtoUnsigned_convtoString bound)

/-- What a scan takes is a row of the database, and so it has a key. -/
theorem scanned_key (named : RowNames k.get) {value : Bytes}
    (here : (keyRow key n type, value) ∈ r.plain.scanned k) : key ≠ [] := by
  rcases named r.database _ (by rw [scanned_get here]; rfl) with empty | named
  · exact absurd empty keyRow_ne_nil
  · exact named.key_ne

/-- The rows that SFLUSH takes have its text for their select. -/
theorem sflushRows_avoid (named : RowNames k.get) (cls : r.cls = .sflush) (unreached : ¬ r.Reaches k db n) {row : Bytes}
    (here : row ∈ Run.sflushRows k r.plain) : r.database = db → ∀ key type, row ≠ keyRow key n type := by
  rintro own key type rfl
  simp only [Run.sflushRows, List.mem_filterMap, Option.ite_none_right_eq_some, Option.some.injEq] at here
  obtain ⟨⟨_, value⟩, scanned, token, rfl⟩ := here
  rw [colonTokens_keyRow n type (scanned_key named scanned)] at token
  have text : convtoString n = r.key := by simpa using token
  refine unreached ?_
  simp only [Request.Reaches, cls]
  exact ⟨own, text.symm⟩

theorem matchedKeys_avoid (named : RowNames k.get) (other : ¬ (r.database = db ∧ r.select = n)) {found : Bytes × Bytes}
    (here : found ∈ Run.matchedKeys P k r.plain) : r.database = db → ∀ key type, found.1 ≠ keyRow key n type := by
  intro own key type same
  simp only [Run.matchedKeys, List.mem_filterMap, Option.map_eq_some_iff] at here
  obtain ⟨row, scanned, name, matched, rfl⟩ := here
  obtain ⟨_, value⟩ := row
  obtain rfl : _ = keyRow key n type := same
  rw [colonTokens_keyRow n type (scanned_key named scanned)] at matched
  obtain ⟨⟨⟨-, select⟩, -⟩, -⟩ : ((_ ∧ convtoString n = convtoString r.select) ∧ _) ∧ _ := by
    simpa [scanKey, Option.ite_none_right_eq_some] using matched
  exact other ⟨own, (convtoString_injective select).symm⟩

/-- The rows that GREM takes are places of its select, or rows of the reference's key. -/
theorem georemRows_avoid (types : RowTypes k.get) (cls : r.cls = .georem) (unreached : ¬ r.Reaches k db n) {row : Bytes}
    (here : row ∈ Run.georemRows P k r.plain) : r.database = db → ∀ key type, row ≠ keyRow key n type := by
  rintro rfl key type rfl
  refine unreached ?_
  simp only [Request.Reaches, cls, true_and]
  have held : ∃ value, (keyRow key n type, value) ∈ r.plain.scanned k := by
    simp only [Run.georemRows, List.mem_filterMap, Option.ite_none_right_eq_some, Option.some.injEq] at here
    obtain ⟨⟨_, value⟩, scanned, -, rfl⟩ := here
    exact ⟨value, scanned⟩
  obtain ⟨value, scanned⟩ := held
  have isSome : (k.get r.database (keyRow key n type)).isSome := by rw [scanned_get scanned]; rfl
  rcases ((mem_georemRows (types _ _ isSome)).mp here).1 with ⟨name, -, same⟩ | empty | ⟨text, type', -, colon, same, -⟩
  · exact .inl (keyRow_inj.mp same).2.1.symm
  · exact absurd empty keyRow_ne_nil
  · obtain ⟨rfl, -, -⟩ := (rowName_eq_keyRow colon).mp same.symm
    exact .inr ⟨type, isSome⟩

/-- The updates of a request are about the selects that it reaches. -/
theorem Outcome.avoids (types : RowTypes k.get) (newSelect : r.NewSelect) (outcome : Outcome P k r us)
    (unreached : ¬ r.Reaches k db n) : ∀ u ∈ us, u.Avoids db n := by
  have own (cls : r.cls ≠ .sflush ∧ r.cls ≠ .clone) : ¬ (r.database = db ∧ r.select = n) := fun same =>
    unreached (reaches_own cls same)
  have moved (cls : r.cls ∈ [.move, .clone]) : ¬ (r.database = db ∧ convtoUnsigned r.value = n) ∧
      ∀ type value, (Update.put r.database (rowName r.key r.value type) value).Avoids db n := by
    obtain ⟨digits, least, -⟩ := newSelect cls
    have other : ¬ (r.database = db ∧ convtoUnsigned r.value = n) := fun same => unreached (by
      rcases List.mem_pair.mp cls with cls | cls <;> simp [Request.Reaches, cls, same])
    exact ⟨other, fun type value => rowName_avoids digits least fun here same => other ⟨here, same⟩⟩
  have target {goal : Bytes} (cls : r.cls = .transfer) (sent : r.transfDb = some goal) :
      ¬ (goal = db ∧ r.select = n) := by
    rintro ⟨rfl, same⟩
    exact unreached (by simp [Request.Reaches, cls, sent, same])
  cases outcome with
  | unchanged => simp
  | stored value writes place =>
    have cls : r.cls ≠ .sflush ∧ r.cls ≠ .clone := by
      obtain ⟨P, run, body⟩ := writes
      constructor <;> intro cls <;> simp [cls, QueryClass.body] at body
    simpa [Request.row] using own cls
  | removed registered how =>
    have cls : r.cls ≠ .sflush ∧ r.cls ≠ .clone := by
      constructor <;> intro cls <;> simp [cls, QueryClass.mayDelete] at how
    simpa [Request.row] using own cls
  | stray value cls absent field => simp
  | setex cls | copied cls | copiedExpiring cls | copiedNothing _ cls | deleted cls | deletedExpiring cls | planned cls
    | applied cls =>
    have other := own (by simp [cls])
    simp [Request.row, expireRow, futureRow, other]
  | deadline cls | persisted cls | renamed cls | renamedExpiring cls | unplanned cls =>
    have other := own (by constructor <;> intro same <;> simp [same] at cls)
    simp [Request.row, expireRow, futureRow, other]
  | moved cls =>
    have other := own (by simp [cls])
    obtain ⟨-, put⟩ := moved (by simp [cls])
    simp [Request.row, other, put]
  | movedExpiring cls =>
    have other := own (by simp [cls])
    obtain ⟨new, put⟩ := moved (by simp [cls])
    simp [Request.row, other, new, put]
  | cloned cls => simp [(moved (by simp [cls])).2]
  | clonedExpiring cls =>
    obtain ⟨new, put⟩ := moved (by simp [cls])
    simp [expireRow, new, put]
  | transferred cls registered allows goal =>
    have other := own (by simp [cls])
    simp [Request.row, other, target cls goal]
  | transferredExpiring cls expiring allows goal =>
    have other := own (by simp [cls])
    simp [Request.row, expireRow, other, target cls goal]
  | wiped cls =>
    intro u hu
    obtain ⟨found, here, hu⟩ := List.mem_flatMap.mp hu
    have other := own (by simp [cls])
    simp only [wipe, List.mem_cons, List.not_mem_nil, or_false] at hu
    rcases hu with rfl | rfl | rfl | rfl
    · exact matchedKeys_avoid types.names other here
    · exact other
    · exact other
    · exact erase_avoids.mpr other
  | flushed cls =>
    intro u hu
    obtain ⟨row, here, rfl⟩ := List.mem_map.mp hu
    exact sflushRows_avoid types.names cls unreached here
  | near cls =>
    intro u hu
    obtain ⟨row, here, rfl⟩ := List.mem_map.mp hu
    exact georemRows_avoid types cls unreached here
  | closed cls => simpa [Update.Avoids, Request.Reaches, cls] using unreached

end

/-! ## Runs -/

theorem space_next {P : Platform} {s t : Server} {a : Event} {db : Bytes} {n : ℕ} (writable : s.kernel.Writable)
    (types : RowTypes s.kernel.get) (step : Server.next P s a = some t) (unreached : ¬ a.Reaches s.kernel db n) :
    t.kernel.space db n = s.kernel.space db n := by
  obtain ⟨time, same⟩ | same | ⟨r, us, source, -, outcome, same⟩ := Server.next_kernel writable step
  · rw [same]
    rfl
  · rw [same]
  · rw [same]
    refine space_updates writable ?_
    obtain ⟨rfl, accepted⟩ | ⟨e, -, rfl, rfl⟩ := source
    · exact outcome.avoids types accepted.newSelect unreached
    · exact outcome.avoids types (Server.expireDelete_newSelect e) unreached

/-- From any reachable state, a run none of whose requests and expiries reaches a select leaves its rows, its expiries
and its futures as they are. -/
theorem unreached_select_stays {P : Platform} {s t : Server} {db : Bytes} {n : ℕ}
    (reach : (Server.machine P).Reachable s)
    (run : (Server.runs P s).Reach (fun u a => ¬ a.Reaches u.kernel db n) t) :
    t.kernel.space db n = s.kernel.space db n := by
  refine (run.invariant (I := fun u => (Server.machine P).Reachable u ∧ u.kernel.space db n = s.kernel.space db n)
    ?_ ?_).2
  · rintro u rfl
    exact ⟨reach, rfl⟩
  · rintro u a v ⟨reach, same⟩ unreached step
    have writable := (Server.invariant (I := fun _ => True) reach (fun _ _ => trivial) (fun _ _ _ => trivial)
      fun _ _ _ _ _ _ _ _ _ _ => trivial).1
    exact ⟨reach.step trivial step, (space_next writable (reachable_rowTypes reach) step unreached).trans same⟩


/-- A key of the select 1 stays while the key of that name in the select 2 gets another value. -/
theorem unreached_select_stays_two : ∃ s t : Server, (Server.machine Server.integers).Reachable s ∧
    (s.kernel.space (lit "db") 1).rows (lit "k") intKey = some (toBin (lit "v")) ∧
    (t.kernel.space (lit "db") 2).rows (lit "k") intKey = some (toBin (lit "w")) ∧
    t.kernel.space (lit "db") 1 = s.kernel.space (lit "db") 1 := by
  have h : ((Server.machine Server.integers).exec (fun _ _ => True) Server.fresh
      [.request (inDb .set (lit "k") (lit "v"))]).any fun s =>
        s.kernel.get (lit "db") (keyRow (lit "k") 1 intKey) = some (toBin (lit "v")) ∧
        (Server.next Server.integers s (.request { inDb .set (lit "k") (lit "w") with select := 2 })).any
          (fun t => t.kernel.get (lit "db") (keyRow (lit "k") 2 intKey) = some (toBin (lit "w"))) = true := by
    decide +kernel
  obtain ⟨s, reach, held, next⟩ := Machine.exec_holds h (.initial Server.fresh_initial)
  obtain ⟨t, step, written⟩ := (Option.any_eq_true _ _).mp next
  have run : (Server.runs Server.integers s).Reach (fun u a => ¬ a.Reaches u.kernel (lit "db") 1) t := by
    refine .step (a := .request { inDb .set (lit "k") (lit "w") with select := 2 }) (.initial rfl) ?_ step
    exact fun reaches => absurd reaches.2 (by decide)
  exact ⟨s, t, reach, held, of_decide_eq_true written, unreached_select_stays reach run⟩

end BerylDB.Store
