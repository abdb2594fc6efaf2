import BerylDB.Server

/-! # One type for a key

`GetRegistry` takes a key for registered when a row is found, `CheckDest` when a row has a value.  The two
differ on rows with an empty value, and six commands write where only `CheckDest` has looked. -/
namespace BerylDB.Store
open Text Transition

def SingleType (g : Contents) : Prop :=
  ∀ db key select, ∀ type ∈ dataTypes, ∀ other ∈ dataTypes,
    (g db (keyRow key select type)).isSome → (g db (keyRow key select other)).isSome → type = other

/-- Where the commands that bring a key to a new name, select or database put it.  A select that is not
written as `convto_string` writes it names no place. -/
def Request.target (r : Request) : Option (Bytes × Bytes × ℕ) :=
  match r.cls with
  | .rename | .renamenx | .copy => some (r.database, r.value, r.select)
  | .move | .clone =>
    if convtoString (convtoUnsigned r.value) = r.value then some (r.database, r.key, convtoUnsigned r.value) else none
  | .transfer => r.transfDb.map fun target => (target, r.key, r.select)
  | _ => none

/-- At the place a key is brought to there is no empty row of another type. -/
def Request.KeepsType (r : Request) (k : Kernel) : Prop :=
  (k.databases r.database).closing = false → ∀ place ∈ r.target, ∀ type ∈ r.registered k, ∀ other ∈ dataTypes,
    other ≠ type → k.get place.1 (keyRow place.2.1 place.2.2 other) ≠ some []

instance (r : Request) (k : Kernel) : Decidable (r.KeepsType k) := by
  unfold Request.KeepsType
  infer_instance

/-- Only one place is written with data, and no other type is there. -/
theorem SingleType.updates {g : Contents} (h : SingleType g) {us : List Update} (db key type : Bytes) (select : ℕ)
    (alone : type ∈ dataTypes → ∀ other ∈ dataTypes, other ≠ type → g db (keyRow key select other) = none)
    (puts : ∀ d x s t v, t ∈ dataTypes → .put d (keyRow x s t) v ∈ us → d = db ∧ x = key ∧ s = select ∧ t = type) :
    SingleType (contents us g) := by
  intro d x s t ht t' ht' here there
  rcases contents_isSome here with here | ⟨v, here⟩ <;> rcases contents_isSome there with there | ⟨v', there⟩
  · exact h d x s t ht t' ht' here there
  · obtain ⟨rfl, rfl, rfl, rfl⟩ := puts _ _ _ _ _ ht' there
    by_contra different
    simp [alone ht' t ht different] at here
  · obtain ⟨rfl, rfl, rfl, rfl⟩ := puts _ _ _ _ _ ht here
    by_contra different
    simp [alone ht t' ht' (Ne.symm different)] at there
  · rw [(puts _ _ _ _ _ ht here).2.2.2, (puts _ _ _ _ _ ht' there).2.2.2]

theorem SingleType.registered {k : Kernel} {r : Request} {type : Bytes} (h : SingleType k.get)
    (place : r.registered k = some type ∨ r.registered k = none) (data : type ∈ dataTypes) :
    ∀ other ∈ dataTypes, other ≠ type → k.get r.database (keyRow r.key r.select other) = none := by
  intro other hother different
  rcases place with registered | absent
  · obtain ⟨-, value, held⟩ := registered_some registered
    cases found : k.get r.database (keyRow r.key r.select other) with
    | none => rfl
    | some v =>
      exact absurd (h r.database r.key r.select other hother type data (by simp [found]) (by simp [held])) different
  · exact registered_none.mp absent other (mem_typeRegs_of_mem_dataTypes hother)

/-- Where `CheckDest` finds no other type and no row is empty, no other type is registered. -/
theorem SingleType.checkDest {k : Kernel} {q : QueryBase} {db key type : Bytes} {select : ℕ} (h : SingleType k.get)
    (data : type ∈ dataTypes) (accepted : q.checkDest k select key type db ≠ 2)
    (same : db = q.database ∧ select = q.select ∧ q.key = key → (k.get db (keyRow key select type)).isSome)
    (noEmpty : ∀ other ∈ dataTypes, other ≠ type → k.get db (keyRow key select other) ≠ some []) :
    ∀ other ∈ dataTypes, other ≠ type → k.get db (keyRow key select other) = none := by
  intro other hother different
  cases found : k.get db (keyRow key select other) with
  | none => rfl
  | some v =>
    exfalso
    have value : v ≠ [] := fun e => noEmpty other hother different (e ▸ found)
    have apart (held : (k.get db (keyRow key select type)).isSome) : False :=
      different (h db key select other hother type data (by simp [found]) held)
    revert accepted
    unfold QueryBase.checkDest
    split
    · rename_i place
      exact fun _ => apart (same ⟨place.1, place.2.1, place.2.2.1⟩)
    · split
      · rename_i first hfirst
        split
        · rename_i hsame
          subst hsame
          have filled : (k.get db (keyRow key select first)).getD [] ≠ [] := by simpa using List.find?_some hfirst
          cases held : k.get db (keyRow key select first) with
          | none => simp [held] at filled
          | some w => exact fun _ => apart (by simp [held])
        · exact fun no => no rfl
      · rename_i nothing
        have empty := List.find?_eq_none.mp nothing other (mem_typeRegs_of_mem_dataTypes hother)
        simp [found, value] at empty

/-- A command that is let in brings its key to a place without another type. -/
theorem SingleType.target {k : Kernel} {r : Request} {type db key : Bytes} {select : ℕ} (h : SingleType k.get)
    (opened : (k.databases r.database).closing = false) (keeps : r.KeepsType k)
    (registered : r.registered k = some type) (place : r.target = some (db, key, select))
    (accepted : { r.query with identified := type }.checkDest k select key type db ≠ 2) (data : type ∈ dataTypes) :
    ∀ other ∈ dataTypes, other ≠ type → k.get db (keyRow key select other) = none := by
  refine h.checkDest data accepted ?_ (keeps opened (db, key, select) place type registered)
  rintro ⟨rfl, rfl, rfl⟩
  obtain ⟨-, value, held⟩ := registered_some registered
  rw [Request.query_database, Request.query_select, Request.query_key, held]
  rfl

/-- The digits of a select in range are the ones of `convto_string`, or no number's. -/
theorem select_text {text : Bytes} {select : ℕ} (low : 1 ≤ convtoSigned text) (same : text = convtoString select) :
    convtoUnsigned text = select := by
  rw [same, convtoSigned_convtoString] at low
  rw [same, convtoUnsigned_convtoString]
  split at low <;> omega

theorem colon_not_mem_digits {text : Bytes} (h : text.all isDigit = true) : (58 : UInt8) ∉ text := fun colon => by
  have digit := List.all_eq_true.mp h 58 colon
  simp [isDigit] at digit

section
variable {P : Platform} {k : Kernel} {r : Request}

/-- The row of MOVE and CLONE is the row of the target, or of no key. -/
theorem movedRow {key type type' : Bytes} {select : ℕ} (accepted : r.NewSelect) (cls : r.cls ∈ [.move, .clone])
    (same : keyRow key select type' = rowName r.key r.value type) :
    r.target = some (r.database, r.key, select) ∧ key = r.key ∧ convtoUnsigned r.value = select ∧ type' = type := by
  obtain ⟨digits, low, -⟩ := accepted cls
  obtain ⟨rfl, text, rfl⟩ := (rowName_eq_keyRow (colon_not_mem_digits digits)).mp same.symm
  have number := select_text low text
  refine ⟨?_, rfl, number, rfl⟩
  simp only [List.mem_cons, List.not_mem_nil, or_false] at cls
  rcases cls with cls | cls <;> simp [Request.target, cls, number, ← text]

theorem target_renamed (cls : r.cls ∈ [.rename, .renamenx, .copy]) : r.target = some (r.database, r.value, r.select) := by
  simp only [List.mem_cons, List.not_mem_nil, or_false] at cls
  rcases cls with cls | cls | cls <;> simp [Request.target, cls]

theorem target_transferred {target : Bytes} (cls : r.cls = .transfer) (goal : r.transfDb = some target) :
    r.target = some (target, r.key, r.select) := by
  simp [Request.target, cls, goal]

theorem allows_target {type db key : Bytes} {select : ℕ} (allows : Allows r.cls k r type)
    (place : r.target = some (db, key, select)) :
    { r.query with identified := type }.checkDest k select key type db ≠ 2 := by
  unfold Request.target at place
  split at place
  case h_1 cls | h_3 cls =>
    obtain ⟨rfl, rfl, rfl⟩ : r.database = db ∧ r.value = key ∧ r.select = select := by simpa using place
    simpa only [cls, Allows, QueryClass.queryType] using allows
  case h_2 cls =>
    obtain ⟨rfl, rfl, rfl⟩ : r.database = db ∧ r.value = key ∧ r.select = select := by simpa using place
    simp only [cls, Allows, QueryClass.queryType] at allows
    exact fun two => absurd (allows.symm.trans two) (by decide)
  case h_4 cls | h_5 cls =>
    simp only [Option.ite_none_right_eq_some, Option.some.injEq, Prod.mk.injEq] at place
    obtain ⟨-, rfl, rfl, rfl⟩ := place
    simpa only [cls, Allows, QueryClass.queryType] using allows
  case h_6 cls =>
    obtain ⟨target, goal, rfl, rfl, rfl⟩ : ∃ target, r.transfDb = some target ∧ target = db ∧ r.key = key ∧
        r.select = select := by simpa using place
    simpa only [cls, Allows, QueryClass.queryType, goal, Option.mem_some, exists_eq_left'] using allows
  case h_7 => simp at place

/-- Every outcome puts data at one place at most, and there no other type is registered. -/
theorem SingleType.outcome {us : List Update} (h : SingleType k.get) (accepted : r.NewSelect)
    (opened : (k.databases r.database).closing = false) (keeps : r.KeepsType k) (outcome : Outcome P k r us) :
    SingleType (contents us k.get) := by
  have expireRow (t : Bytes) (ht : t ∈ dataTypes) (x x' db : Bytes) (s s' : ℕ) : keyRow x s t ≠ expireRow x' s' db :=
    (expireRow_ne_keyRow (mem_typeRegs_of_mem_dataTypes ht)).symm
  have futureRow (t : Bytes) (ht : t ∈ dataTypes) (x x' db : Bytes) (s s' : ℕ) : keyRow x s t ≠ futureRow x' s' db :=
    (futureRow_ne_keyRow (mem_typeRegs_of_mem_dataTypes ht)).symm
  have nothing (none : ∀ d x s t v, t ∈ dataTypes → .put d (keyRow x s t) v ∉ us) : SingleType (contents us k.get) :=
    h.updates [] [] [] 0 (fun data => absurd data (by decide)) fun d x s t v ht put => absurd put (none d x s t v ht)
  have brought {type db key : Bytes} {select : ℕ} (registered : r.registered k = some type)
      (allows : Allows r.cls k r type) (place : r.target = some (db, key, select))
      (only : ∀ d x s t v, t ∈ dataTypes → .put d (keyRow x s t) v ∈ us → d = db ∧ keyRow x s t = keyRow key select type) :
      SingleType (contents us k.get) := by
    refine h.updates db key type select (h.target opened keeps registered place (allows_target allows place)) ?_
    intro d x s t v ht put
    obtain ⟨database, row⟩ := only d x s t v ht put
    exact ⟨database, keyRow_inj.mp row⟩
  have moving {type : Bytes} (registered : r.registered k = some type) (allows : Allows r.cls k r type)
      (cls : r.cls ∈ [.move, .clone])
      (only : ∀ d x s t v, t ∈ dataTypes → .put d (keyRow x s t) v ∈ us →
        d = r.database ∧ keyRow x s t = rowName r.key r.value type) : SingleType (contents us k.get) := by
    cases place : r.target with
    | none =>
      refine nothing fun d x s t v ht put => ?_
      simp [(movedRow accepted cls (only d x s t v ht put).2).1] at place
    | some target =>
      obtain ⟨db, key, select⟩ := target
      refine h.updates db key type select (h.target opened keeps registered place (allows_target allows place)) ?_
      intro d x s t v ht put
      obtain ⟨database, row⟩ := only d x s t v ht put
      obtain ⟨same, sameKey, -, sameType⟩ := movedRow accepted cls row
      obtain ⟨rfl, rfl, rfl⟩ : r.database = db ∧ r.key = key ∧ s = select := by simpa [same] using place
      exact ⟨database, sameKey, rfl, sameType⟩
  cases outcome with
  | unchanged => exact h
  | @stored type value writes place =>
    refine h.updates r.database r.key type r.select (h.registered (place.imp_right And.left)) ?_
    intro d x s t v ht put
    obtain ⟨rfl, row, -⟩ : d = r.database ∧ keyRow x s t = keyRow r.key r.select type ∧ v = value := by
      simpa [Request.row] using put
    exact ⟨rfl, keyRow_inj.mp row⟩
  | stray value cls absent field =>
    refine nothing fun d x s t v ht put => ?_
    simp [keyRow, rowName] at put
  | setex cls place =>
    refine h.updates r.database r.key intKey r.select (h.registered place) ?_
    intro d x s t v ht put
    obtain ⟨rfl, row, -⟩ : d = r.database ∧ keyRow x s t = keyRow r.key r.select intKey ∧ v = toBin r.value := by
      simpa [Request.row, expireRow t ht] using put
    exact ⟨rfl, keyRow_inj.mp row⟩
  | applied cls held place =>
    refine h.updates r.database r.key intKey r.select (h.registered place) ?_
    intro d x s t v ht put
    obtain ⟨rfl, row, -⟩ : d = r.database ∧ keyRow x s t = keyRow r.key r.select intKey ∧ _ := by
      simpa [Request.row] using put
    exact ⟨rfl, keyRow_inj.mp row⟩
  | removed registered how => exact nothing (by simp)
  | persisted cls registered => exact nothing (by simp)
  | deleted cls registered lasting => exact nothing (by simp)
  | deletedExpiring cls expiring => exact nothing (by simp)
  | unplanned cls => exact nothing (by simp)
  | closed cls => exact nothing (by simp)
  | wiped cls => exact nothing (by simp [wipe])
  | flushed cls => exact nothing (by simp)
  | near cls => exact nothing (by simp)
  | deadline cls registered => exact nothing fun d x s t v ht put => by simp [expireRow t ht] at put
  | planned cls => exact nothing fun d x s t v ht put => by simp [futureRow t ht] at put
  | renamed cls registered allows held lasting =>
    refine brought registered allows (target_renamed (List.mem_append_left [QueryClass.copy] cls)) ?_
    simp +contextual
  | renamedExpiring cls expiring allows held =>
    refine brought expiring.1 allows (target_renamed (List.mem_append_left [QueryClass.copy] cls)) ?_
    simp +contextual [expireRow]
  | copied cls registered allows held lasting =>
    refine brought registered allows (target_renamed (by simp [cls])) ?_
    simp +contextual
  | copiedExpiring cls expiring allows held =>
    refine brought expiring.1 allows (target_renamed (by simp [cls])) ?_
    simp +contextual [expireRow]
  | copiedNothing value cls absent free =>
    refine nothing fun d x s t v ht put => ?_
    obtain ⟨-, row, -⟩ : d = r.database ∧ keyRow x s t = keyRow r.value r.select processNull ∧ v = value := by
      simpa using put
    exact absurd ht ((keyRow_inj.mp row).2.2 ▸ by decide)
  | moved cls registered allows held lasting =>
    refine moving registered allows (by simp [cls]) ?_
    simp +contextual
  | movedExpiring cls expiring allows held =>
    have text := colon_not_mem_digits (accepted (by simp [cls])).1
    have other (t : Bytes) (ht : t ∈ dataTypes) (x : Bytes) (s : ℕ) :
        keyRow x s t ≠ rowName r.key r.value (ownedType intExpire r.database) := fun same =>
      ownedType_not_mem _ _ (((rowName_eq_keyRow text).mp same.symm).2.2 ▸ mem_typeRegs_of_mem_dataTypes ht)
    refine moving expiring.1 allows (by simp [cls]) ?_
    simp +contextual [other]
  | cloned cls registered allows held lasting =>
    refine moving registered allows (by simp [cls]) ?_
    simp +contextual
  | clonedExpiring cls expiring allows =>
    refine moving expiring.1 allows (by simp [cls]) ?_
    simp +contextual [expireRow]
  | transferred cls registered allows goal held lasting =>
    refine brought registered allows (target_transferred cls goal) ?_
    simp +contextual [Request.row]
  | transferredExpiring cls expiring allows goal held =>
    refine brought expiring.1 allows (target_transferred cls goal) ?_
    simp +contextual [Request.row, expireRow]

end

namespace Server

variable {P : Platform}

/-- The guard of `SingleType`: whatever the timer does, requests bring keys to places without empty rows. -/
def KeepsType (s : Server) : Event → Prop
  | .request r => r.KeepsType s.kernel
  | .tick _ | .expire _ => True

instance (s : Server) (a : Event) : Decidable (KeepsType s a) := by
  cases a <;> unfold KeepsType <;> infer_instance

/-- While no key is brought to a place where an empty row of another type is, a key has rows of one type. -/
theorem single_type {s : Server} (h : (machine P).Reach KeepsType s) : SingleType s.kernel.get := by
  refine (invariant (I := fun k => SingleType k.get) h ?_ ?_ ?_).2
  · intro s hs db key select type _ other _ here
    simp [hs.empty] at here
  · exact fun k time hk => hk
  · intro s a r us writable hs guard source opened outcome
    rw [get_updates writable]
    obtain ⟨rfl, accepted⟩ | ⟨e, -, rfl, rfl⟩ := source
    · exact hs.outcome accepted.newSelect opened guard outcome
    · exact hs.outcome (expireDelete_newSelect e) opened (fun _ place none => nomatch none) outcome

/-- Requests on the database `db`, in select 1. -/
def command (cls : QueryClass) (key value : Bytes) : Event :=
  .request { cls, database := lit "db", key, select := 1, value }

/-- A list is renamed onto a key that was deleted. -/
theorem single_type_renamed : ∃ s, (machine integers).Reach KeepsType s ∧
    (s.kernel.get (lit "db") (keyRow (lit "k") 1 intList)).isSome ∧ SingleType s.kernel.get := by
  have h : ((machine integers).exec KeepsType fresh [command .set (lit "k") [], command .lpush (lit "l") (lit "x"),
      command .del (lit "k") [], command .rename (lit "l") (lit "k")]).any fun s =>
        (s.kernel.get (lit "db") (keyRow (lit "k") 1 intList)).isSome := by decide
  obtain ⟨s, hs, found⟩ := (Option.any_eq_true _ _).mp h
  have reached : (machine integers).Reach KeepsType s := Machine.exec_reach (.initial fresh_initial) _ hs
  exact ⟨s, reached, found, single_type reached⟩

/-- A list is renamed onto a key with the empty value. -/
theorem empty_value_hides_type : ∃ s, (machine integers).Reachable s ∧ ¬ SingleType s.kernel.get := by
  have h : ((machine integers).exec (fun _ _ => True) fresh [command .set (lit "k") [],
      command .lpush (lit "l") (lit "x"), command .rename (lit "l") (lit "k")]).any fun s =>
        (s.kernel.get (lit "db") (keyRow (lit "k") 1 intList)).isSome ∧
          (s.kernel.get (lit "db") (keyRow (lit "k") 1 intKey)).isSome := by decide
  obtain ⟨s, reached, found⟩ := Machine.exec_holds h (.initial fresh_initial)
  refine ⟨s, reached, fun single => ?_⟩
  obtain ⟨list, key⟩ := found
  exact absurd (single _ _ _ intList (by decide) intKey (by decide) list key) (by decide)

end Server
end BerylDB.Store
