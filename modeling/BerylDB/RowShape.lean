import BerylDB.SingleType

/-! # The shape of the row names

Every row a command writes is `to_bin(key):select:type`, but for four slips: HSETNX of an absent key has no
`dest`, COPY of an absent key takes `PROCESS_NULL` for a type, MOVE and CLONE write the select as it was
typed, and TRANSFER writes the expiry row of another database. -/
namespace BerylDB.Store
open Text Transition

def RowFormed (db row : Bytes) : Prop :=
  ∃ key select type, key ≠ [] ∧ 1 ≤ select ∧ select ≤ 100 ∧
    (type ∈ dataTypes ∨ type = ownedType intExpire db ∨ type = ownedType intFuture db) ∧ row = keyRow key select type

def RowShape (g : Contents) : Prop := ∀ db row, (g db row).isSome → RowFormed db row

/-- The four slips do not happen: a field is added to a map that is there, COPY finds its key or is refused,
MOVE and CLONE get a select as `convto_string` writes it or are refused, and so is TRANSFER of an expiring
key. -/
def Request.KeepsShape (r : Request) (k : Kernel) : Prop :=
  (k.databases r.database).closing = false →
    match r.cls with
    | .hsetnx => r.registered k ≠ none ∨ r.hesh = []
    | .copy => r.registered k ≠ none ∨ r.absent.checkDest k r.select r.value processNull r.database = 2
    | .move | .clone => ∀ type ∈ r.registered k, Allows r.cls k r type → convtoString (convtoUnsigned r.value) = r.value
    | .transfer => ¬ (r.Expiring k ∧ Allows r.cls k r intKey)
    | _ => True

instance (r : Request) (k : Kernel) : Decidable (r.KeepsShape k) := by
  unfold Request.KeepsShape Request.Expiring
  split <;> infer_instance

theorem RowShape.updates {g : Contents} (h : RowShape g) {us : List Update}
    (puts : ∀ db row value, .put db row value ∈ us → RowFormed db row) : RowShape (contents us g) := by
  intro db row here
  rcases contents_isSome here with here | ⟨value, put⟩
  · exact h db row here
  · exact puts db row value put

section
variable {P : Platform} {k : Kernel} {r : Request}

/-- The rows of a key name a key, a select and one of the data types. -/
theorem RowShape.registered {type : Bytes} (h : RowShape k.get) (registered : r.registered k = some type) :
    r.key ≠ [] ∧ 1 ≤ r.select ∧ r.select ≤ 100 ∧ type ∈ dataTypes := by
  obtain ⟨known, value, held⟩ := registered_some registered
  obtain ⟨key, select, type', nonempty, low, high, kind, row⟩ := h r.database _ (by rw [held]; rfl)
  obtain ⟨rfl, rfl, rfl⟩ := keyRow_inj.mp row
  refine ⟨nonempty, low, high, ?_⟩
  rcases kind with data | rfl | rfl
  · exact data
  · exact absurd known (ownedType_not_mem _ _)
  · exact absurd known (ownedType_not_mem _ _)

theorem rowFormed_data {db key type : Bytes} {select : ℕ} (key_ne : key ≠ []) (low : 1 ≤ select) (high : select ≤ 100)
    (data : type ∈ dataTypes) : RowFormed db (keyRow key select type) :=
  ⟨key, select, type, key_ne, low, high, .inl data, rfl⟩

theorem rowFormed_expire {db key : Bytes} {select : ℕ} (key_ne : key ≠ []) (low : 1 ≤ select) (high : select ≤ 100) :
    RowFormed db (expireRow key select db) :=
  ⟨key, select, _, key_ne, low, high, .inr (.inl rfl), rfl⟩

theorem rowFormed_future {db key : Bytes} {select : ℕ} (key_ne : key ≠ []) (low : 1 ≤ select) (high : select ≤ 100) :
    RowFormed db (futureRow key select db) :=
  ⟨key, select, _, key_ne, low, high, .inr (.inr rfl), rfl⟩

theorem keyValidator_ne_nil {key : Bytes} (h : keyValidator key = true) : key ≠ [] := by
  simp only [keyValidator, Bool.and_eq_true, decide_eq_true_eq] at h
  exact h.1

/-- A select of digits in 1..100. -/
theorem newSelect_range {text : Bytes} (low : 1 ≤ convtoSigned text) (high : convtoSigned text ≤ 100)
    (canonical : convtoString (convtoUnsigned text) = text) : 1 ≤ convtoUnsigned text ∧ convtoUnsigned text ≤ 100 := by
  rw [← canonical, convtoSigned_convtoString] at low high
  split at low <;> omega

/-- The rows that the commands put are well formed, but for the four slips. -/
theorem RowShape.outcome {us : List Update} (h : RowShape k.get) (accepted : r.Accepted)
    (opened : (k.databases r.database).closing = false) (keeps : r.KeepsShape k) (outcome : Outcome P k r us) :
    RowShape (contents us k.get) := by
  have valid (kind : r.cls.queryType ≠ .skip) : r.key ≠ [] := keyValidator_ne_nil (accepted.key kind)
  obtain ⟨low, high⟩ := accepted.select
  have keeps := keeps opened
  have newKey (cls : r.cls ∈ [.rename, .renamenx, .copy]) : r.value ≠ [] := keyValidator_ne_nil (accepted.newKey cls)
  have moved (cls : r.cls ∈ [.move, .clone]) {type : Bytes} (registered : r.registered k = some type)
      (allows : Allows r.cls k r type)
      (canonical : ∀ type ∈ r.registered k, Allows r.cls k r type → convtoString (convtoUnsigned r.value) = r.value) :
      1 ≤ convtoUnsigned r.value ∧ convtoUnsigned r.value ≤ 100 ∧
        ∀ type, rowName r.key r.value type = keyRow r.key (convtoUnsigned r.value) type := by
    obtain ⟨-, least, most⟩ := accepted.newSelect cls
    have text := canonical type registered allows
    obtain ⟨select_low, select_high⟩ := newSelect_range least most text
    exact ⟨select_low, select_high, fun type => by rw [keyRow, text]⟩
  refine h.updates fun db row value put => ?_
  cases outcome with
  | stored value writes place =>
    obtain ⟨rfl, rfl, -⟩ : db = r.database ∧ row = r.row _ ∧ _ := by simpa using put
    rcases place with registered | ⟨absent, kind, base⟩
    · exact rowFormed_data (h.registered registered).1 low high (h.registered registered).2.2.2
    · exact rowFormed_data (valid (by simp [kind])) low high (baseRequest_mem base)
  | stray value cls absent field => simp [cls, absent, field] at keeps
  | setex cls place =>
    have key_ne := valid (by simp [cls, QueryClass.queryType])
    obtain ⟨rfl, rfl, -⟩ | ⟨rfl, rfl, -⟩ : _ ∨ _ := by simpa using put
    · exact rowFormed_expire key_ne low high
    · exact rowFormed_data key_ne low high (by decide)
  | deadline cls registered =>
    obtain ⟨rfl, rfl, -⟩ := by simpa using put
    exact rowFormed_expire (h.registered registered).1 low high
  | renamed cls registered allows held lasting =>
    obtain ⟨rfl, rfl, -⟩ := by simpa using put
    exact rowFormed_data (newKey (List.mem_append_left [QueryClass.copy] cls)) low high (h.registered registered).2.2.2
  | renamedExpiring cls expiring allows held =>
    have key_ne := newKey (List.mem_append_left [QueryClass.copy] cls)
    obtain ⟨rfl, rfl, -⟩ | ⟨rfl, rfl, -⟩ : _ ∨ _ := by simpa using put
    · exact rowFormed_data key_ne low high (by decide)
    · exact rowFormed_expire key_ne low high
  | copied cls registered allows held lasting =>
    obtain ⟨rfl, rfl, -⟩ := by simpa using put
    exact rowFormed_data (newKey (by simp [cls])) low high (h.registered registered).2.2.2
  | copiedExpiring cls expiring allows held =>
    have key_ne := newKey (by simp [cls])
    obtain ⟨rfl, rfl, -⟩ | ⟨rfl, rfl, -⟩ : _ ∨ _ := by simpa using put
    · exact rowFormed_expire key_ne low high
    · exact rowFormed_data key_ne low high (by decide)
  | copiedNothing value cls absent free => simp [cls, absent, free] at keeps
  | moved cls registered allows held lasting =>
    obtain ⟨select_low, select_high, row_eq⟩ := moved (by simp [cls]) registered allows (by simpa [cls] using keeps)
    obtain ⟨rfl, rfl, -⟩ := by simpa [row_eq] using put
    exact rowFormed_data (h.registered registered).1 select_low select_high (h.registered registered).2.2.2
  | movedExpiring cls expiring allows held =>
    obtain ⟨select_low, select_high, row_eq⟩ := moved (by simp [cls]) expiring.1 allows (by simpa [cls] using keeps)
    have key_ne := (h.registered expiring.1).1
    obtain ⟨rfl, rfl, -⟩ | ⟨rfl, rfl, -⟩ : _ ∨ _ := by simpa [row_eq] using put
    · exact rowFormed_data key_ne select_low select_high (by decide)
    · exact rowFormed_expire key_ne select_low select_high
  | cloned cls registered allows held lasting =>
    obtain ⟨select_low, select_high, row_eq⟩ := moved (by simp [cls]) registered allows (by simpa [cls] using keeps)
    obtain ⟨rfl, rfl, -⟩ := by simpa [row_eq] using put
    exact rowFormed_data (h.registered registered).1 select_low select_high (h.registered registered).2.2.2
  | clonedExpiring cls expiring allows =>
    obtain ⟨select_low, select_high, row_eq⟩ := moved (by simp [cls]) expiring.1 allows (by simpa [cls] using keeps)
    have key_ne := (h.registered expiring.1).1
    obtain ⟨rfl, rfl, -⟩ | ⟨rfl, rfl, -⟩ : _ ∨ _ := by simpa [row_eq] using put
    · exact rowFormed_expire key_ne select_low select_high
    · exact rowFormed_data key_ne select_low select_high (by decide)
  | transferred cls registered allows goal held lasting =>
    obtain ⟨rfl, rfl, -⟩ := by simpa using put
    exact rowFormed_data (h.registered registered).1 low high (h.registered registered).2.2.2
  | transferredExpiring cls expiring allows goal held =>
    simp only [cls] at keeps allows
    exact absurd ⟨expiring, allows⟩ keeps
  | planned cls =>
    obtain ⟨rfl, rfl, -⟩ := by simpa using put
    exact rowFormed_future (valid (by simp [cls, QueryClass.queryType])) low high
  | applied cls held place =>
    obtain ⟨rfl, rfl, -⟩ := by simpa using put
    exact rowFormed_data (valid (by simp [cls, QueryClass.queryType])) low high (by decide)
  | wiped cls => simp [wipe] at put
  | _ => simp at put

end

namespace Server

variable {P : Platform}

def KeepsShape (s : Server) : Event → Prop
  | .request r => r.KeepsShape s.kernel
  | .tick _ | .expire _ => True

instance (s : Server) (a : Event) : Decidable (KeepsShape s a) :=
  match a with
  | .request _ | .tick _ | .expire _ => by unfold KeepsShape; infer_instance

/-- But for the four slips, every row of every database is well formed. -/
theorem row_shape {s : Server} (h : (machine P).Reach KeepsShape s) : RowShape s.kernel.get := by
  refine (invariant (I := fun k => RowShape k.get) h ?_ ?_ ?_).2
  · intro s hs db row here
    simp [hs.empty] at here
  · exact fun k time hk => hk
  · intro s a r us writable hs guard source opened outcome
    rw [get_updates writable]
    obtain ⟨rfl, accepted⟩ | ⟨e, -, rfl, rfl⟩ := source
    · exact hs.outcome accepted opened guard outcome
    · refine hs.updates fun db row value put => ?_
      obtain rfl | ⟨type, -, -, rfl⟩ | ⟨-, rfl⟩ := outcome.del rfl <;> simp at put

/-- A map gets a second field, and moves to select 5. -/
theorem row_shape_moved : ∃ s, (machine integers).Reach KeepsShape s ∧
    (s.kernel.get (lit "db") (keyRow (lit "m") 5 intMap)).isSome ∧ RowShape s.kernel.get := by
  have h : ((machine integers).exec KeepsShape fresh [
      .request { cls := .hset, database := lit "db", key := lit "m", select := 1, value := lit "x", hesh := lit "f" },
      .request { cls := .hsetnx, database := lit "db", key := lit "m", select := 1, value := lit "y", hesh := lit "g" },
      command .move (lit "m") (lit "5")]).any fun s =>
        (s.kernel.get (lit "db") (keyRow (lit "m") 5 intMap)).isSome := by decide
  obtain ⟨s, hs, found⟩ := (Option.any_eq_true _ _).mp h
  have reached : (machine integers).Reach KeepsShape s := Machine.exec_reach (.initial fresh_initial) _ hs
  exact ⟨s, reached, found, row_shape reached⟩

/-- HSETNX of a key that is not there writes the row whose name is empty. -/
theorem hsetnx_writes_empty_row : ∃ s, (machine integers).Reachable s ∧ ¬ RowShape s.kernel.get := by
  have h : ((machine integers).exec (fun _ _ => True) fresh [
      .request { cls := .hsetnx, database := lit "db", key := lit "m", select := 1, value := lit "x", hesh := lit "f" }
      ]).any fun s => (s.kernel.get (lit "db") []).isSome := by decide
  obtain ⟨s, hs, found⟩ := (Option.any_eq_true _ _).mp h
  refine ⟨s, Machine.exec_reach (.initial fresh_initial) _ hs, fun shape => ?_⟩
  obtain ⟨key, select, type, -, -, -, -, row⟩ := shape _ _ found
  simp [keyRow, rowName] at row

end Server
end BerylDB.Store
