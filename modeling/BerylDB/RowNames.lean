import BerylDB.ExpiryTable

/-! # The names of rows in every store

Whatever the commands do, a row is named by a key, a text for the select and a type, or it is the row of the empty name
that HSETNX writes. -/
namespace BerylDB.Store
open Text Kernel

/-- A row of a key in the select that the text `text` names. -/
def NamedRow (row : Bytes) : Prop :=
  ∃ key text type, key ≠ [] ∧ text ≠ [] ∧ (58 : UInt8) ∉ text ∧ row = rowName key text type

def RowNames (g : Contents) : Prop := ∀ db row, (g db row).isSome → row = [] ∨ NamedRow row

/-- What stands behind the select: a registered type, `PROCESS_NULL`, or the type of a deadline or a future with the name
of a database. -/
def RowType (type : Bytes) : Prop :=
  type ∈ typeRegs ∨ type = processNull ∨ ∃ db, type = ownedType intExpire db ∨ type = ownedType intFuture db

def TypedRow (row : Bytes) : Prop :=
  ∃ key text type, key ≠ [] ∧ text ≠ [] ∧ (58 : UInt8) ∉ text ∧ RowType type ∧ row = rowName key text type

def RowTypes (g : Contents) : Prop := ∀ db row, (g db row).isSome → row = [] ∨ TypedRow row

theorem TypedRow.named {row : Bytes} (h : TypedRow row) : NamedRow row := by
  obtain ⟨key, text, type, key_ne, text_ne, colon, -, same⟩ := h
  exact ⟨key, text, type, key_ne, text_ne, colon, same⟩

theorem RowTypes.names {g : Contents} (h : RowTypes g) : RowNames g := fun db row here =>
  (h db row here).imp_right TypedRow.named

theorem rowType_expire (db : Bytes) : RowType (ownedType intExpire db) := .inr (.inr ⟨db, .inl rfl⟩)
theorem rowType_future (db : Bytes) : RowType (ownedType intFuture db) := .inr (.inr ⟨db, .inr rfl⟩)

theorem RowTypes.updates {g : Contents} (h : RowTypes g) {us : List Update}
    (puts : ∀ db row value, .put db row value ∈ us → row = [] ∨ TypedRow row) : RowTypes (contents us g) := by
  intro db row here
  rcases contents_isSome here with here | ⟨value, put⟩
  · exact h db row here
  · exact puts db row value put

section
variable {P : Platform} {k : Kernel} {r : Request} {key type : Bytes} {select : ℕ}

theorem typedRow_keyRow (key_ne : key ≠ []) (kind : RowType type) : TypedRow (keyRow key select type) :=
  ⟨key, convtoString select, type, key_ne, convtoString_ne_nil select, colon_not_mem_convtoString select, kind, rfl⟩

theorem keyRow_ne_nil : keyRow key select type ≠ [] := by simp [keyRow, rowName]

theorem NamedRow.key_ne (h : NamedRow (keyRow key select type)) : key ≠ [] := by
  obtain ⟨key', text, type', key_ne, -, colon, same⟩ := h
  exact ((rowName_eq_keyRow colon).mp same.symm).1 ▸ key_ne

theorem RowNames.registered (h : RowNames k.get) (registered : r.registered k = some type) : r.key ≠ [] := by
  obtain ⟨known, value, held⟩ := registered_some registered
  rcases h r.database _ (by rw [held]; rfl) with empty | named
  · exact absurd empty keyRow_ne_nil
  · exact named.key_ne

/-- The rows that the commands put. -/
theorem RowTypes.outcome {us : List Update} (h : RowTypes k.get) (accepted : r.Accepted) (outcome : Outcome P k r us) :
    RowTypes (contents us k.get) := by
  have valid (kind : r.cls.queryType ≠ .skip) : r.key ≠ [] := keyValidator_ne_nil (accepted.key kind)
  have newKey (cls : r.cls ∈ [.rename, .renamenx, .copy]) : r.value ≠ [] := keyValidator_ne_nil (accepted.newKey cls)
  have named {type : Bytes} (registered : r.registered k = some type) : r.key ≠ [] := h.names.registered registered
  have known {type : Bytes} (registered : r.registered k = some type) : RowType type := .inl (registered_some registered).1
  have plain : RowType intKey := .inl (by decide)
  have expire := rowType_expire r.database
  have moved (cls : r.cls ∈ [.move, .clone]) {t type : Bytes} (registered : r.registered k = some t) (kind : RowType type) :
      TypedRow (rowName r.key r.value type) := by
    obtain ⟨digits, least, -⟩ := accepted.newSelect cls
    refine ⟨r.key, r.value, type, named registered, fun empty => ?_, colon_not_mem_digits digits, kind, rfl⟩
    rw [empty] at least
    exact absurd least (by decide)
  refine h.updates fun db row value put => ?_
  cases outcome with
  | stored value writes place =>
    obtain ⟨-, rfl, -⟩ : db = r.database ∧ row = r.row _ ∧ _ := by simpa using put
    rcases place with registered | ⟨absent, kind, base⟩
    · exact .inr (typedRow_keyRow (named registered) (known registered))
    · exact .inr (typedRow_keyRow (valid (by simp [kind])) (.inl (mem_typeRegs_of_mem_dataTypes (baseRequest_mem base))))
  | stray value cls absent field =>
    obtain ⟨-, rfl, -⟩ : db = r.database ∧ row = [] ∧ _ := by simpa using put
    exact .inl rfl
  | setex cls place =>
    have key_ne := valid (by simp [cls, QueryClass.queryType])
    obtain ⟨-, rfl, -⟩ | ⟨-, rfl, -⟩ : _ ∨ _ := by simpa using put
    · exact .inr (typedRow_keyRow key_ne expire)
    · exact .inr (typedRow_keyRow key_ne plain)
  | deadline cls registered =>
    obtain ⟨-, rfl, -⟩ := by simpa using put
    exact .inr (typedRow_keyRow (named registered) expire)
  | renamed cls registered allows held lasting =>
    obtain ⟨-, rfl, -⟩ := by simpa using put
    exact .inr (typedRow_keyRow (newKey (List.mem_append_left [QueryClass.copy] cls)) (known registered))
  | renamedExpiring cls expiring allows held =>
    have key_ne := newKey (List.mem_append_left [QueryClass.copy] cls)
    obtain ⟨-, rfl, -⟩ | ⟨-, rfl, -⟩ : _ ∨ _ := by simpa using put
    · exact .inr (typedRow_keyRow key_ne plain)
    · exact .inr (typedRow_keyRow key_ne expire)
  | copied cls registered allows held lasting =>
    obtain ⟨-, rfl, -⟩ := by simpa using put
    exact .inr (typedRow_keyRow (newKey (by simp [cls])) (known registered))
  | copiedExpiring cls expiring allows held =>
    have key_ne := newKey (by simp [cls])
    obtain ⟨-, rfl, -⟩ | ⟨-, rfl, -⟩ : _ ∨ _ := by simpa using put
    · exact .inr (typedRow_keyRow key_ne expire)
    · exact .inr (typedRow_keyRow key_ne plain)
  | copiedNothing value cls absent free =>
    obtain ⟨-, rfl, -⟩ := by simpa using put
    exact .inr (typedRow_keyRow (newKey (by simp [cls])) (.inr (.inl rfl)))
  | moved cls registered allows held lasting =>
    obtain ⟨-, rfl, -⟩ := by simpa using put
    exact .inr (moved (by simp [cls]) registered (known registered))
  | movedExpiring cls expiring allows held =>
    obtain ⟨-, rfl, -⟩ | ⟨-, rfl, -⟩ : _ ∨ _ := by simpa using put
    · exact .inr (moved (by simp [cls]) expiring.1 plain)
    · exact .inr (moved (by simp [cls]) expiring.1 expire)
  | cloned cls registered allows held lasting =>
    obtain ⟨-, rfl, -⟩ := by simpa using put
    exact .inr (moved (by simp [cls]) registered (known registered))
  | clonedExpiring cls expiring allows =>
    obtain ⟨-, rfl, -⟩ | ⟨-, rfl, -⟩ : _ ∨ _ := by simpa using put
    · exact .inr (typedRow_keyRow (named expiring.1) expire)
    · exact .inr (moved (by simp [cls]) expiring.1 plain)
  | transferred cls registered allows goal held lasting =>
    obtain ⟨-, rfl, -⟩ := by simpa using put
    exact .inr (typedRow_keyRow (named registered) (known registered))
  | transferredExpiring cls expiring allows goal held =>
    obtain ⟨-, rfl, -⟩ | ⟨-, rfl, -⟩ : _ ∨ _ := by simpa using put
    · exact .inr (typedRow_keyRow (named expiring.1) (rowType_expire _))
    · exact .inr (typedRow_keyRow (named expiring.1) plain)
  | planned cls =>
    obtain ⟨-, rfl, -⟩ := by simpa using put
    exact .inr (typedRow_keyRow (valid (by simp [cls, QueryClass.queryType])) (rowType_future _))
  | applied cls held place =>
    obtain ⟨-, rfl, -⟩ := by simpa using put
    exact .inr (typedRow_keyRow (valid (by simp [cls, QueryClass.queryType])) plain)
  | wiped cls => simp [wipe] at put
  | _ => simp at put

end

/-- Every row of every reachable store has such a name. -/
theorem reachable_rowTypes {P : Platform} {s : Server} (reach : (Server.machine P).Reachable s) :
    RowTypes s.kernel.get := by
  refine (Server.invariant (I := fun k => RowTypes k.get) reach ?_ ?_ ?_).2
  · intro s initial db row here
    simp [initial.empty] at here
  · exact fun k time h => h
  · intro s a r us writable h _ source _ outcome
    rw [get_updates writable]
    obtain ⟨rfl, accepted⟩ | ⟨e, -, rfl, rfl⟩ := source
    · exact h.outcome accepted outcome
    · refine h.updates fun db row value put => ?_
      obtain rfl | ⟨type, -, -, rfl⟩ | ⟨-, rfl⟩ := outcome.del rfl <;> simp at put

theorem reachable_rowNames {P : Platform} {s : Server} (reach : (Server.machine P).Reachable s) :
    RowNames s.kernel.get := (reachable_rowTypes reach).names

end BerylDB.Store
