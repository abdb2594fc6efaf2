import BerylDB.ConfigLoad
import BerylDB.FallibleRuns

/-! # Errors of the configuration

An error in a file, however deep it is included, is told in `error_msg`, and makes the load fail. -/
namespace BerylDB.Config
open Text Fallible

def utf8Note : Bytes := lit "Configuration files must be written in UTF8.\n"

/-- `Configuration::Load`: whether it is ready, and the stack with what is written to `errstr`. -/
def load (w : System) (fuel : ℕ) (configFile : Bytes) : Option (Bool × ParseStack) :=
  ((processConfBuffer w fuel configFile ⟨false, false, false, false⟩ [] false).run.run
    ⟨[], parseStack w.charmap, [], [], []⟩).map
    fun
    | (.ok ready, stack) => (ready, stack)
    | (.error err, stack) => (false, { stack with errorMsg := stack.errorMsg ++ err.reason ++ [10] })

/-- A later stack in the same file. -/
structure Later (stack stack' : ParseStack) : Prop where
  streaming : stack'.streaming = stack.streaming
  output : stack.output.Sublist stack'.output
  errors : stack.errorMsg <+: stack'.errorMsg

/-- A later stack with no error that is new. -/
structure Clean (stack stack' : ParseStack) : Prop extends Later stack stack' where
  notes : ∃ n, stack'.errorMsg = stack.errorMsg ++ (List.replicate n utf8Note).flatten

/-- What a call comes to. -/
def Reports {α : Type} (stack : ParseStack) : Except Thrown α → ParseStack → Prop
  | .ok _, stack' => Clean stack stack'
  | .error err, stack' => Later stack stack' ∧ err.reason ≠ []

/-- What the call for a whole file comes to. -/
def Answers (stack : ParseStack) : Except Thrown Bool → ParseStack → Prop
  | .ok true, stack' => Clean stack stack'
  | .ok false, stack' => Later stack stack' ∧ stack.errorMsg.length < stack'.errorMsg.length
  | .error err, stack' => Later stack stack' ∧ err.reason ≠ []

def Explained {α : Type} (x : Except Thrown α) : Prop := ∀ err, x = .error err → err.reason ≠ []

section
variable {stack stack' stack'' : ParseStack} {w : System} {flags : Flags} {tag : Rule} {r : Reader}
  {process : Bytes → Flags → Bytes → Bool → Parsing Bool} {α β : Type}

theorem Later.refl : Later stack stack := ⟨rfl, List.Sublist.refl _, List.prefix_rfl⟩

theorem Later.trans (h : Later stack stack') (h' : Later stack' stack'') : Later stack stack'' :=
  ⟨h'.streaming.trans h.streaming, h.output.trans h'.output, h.errors.trans h'.errors⟩

theorem Clean.refl : Clean stack stack := ⟨Later.refl, 0, by simp⟩

theorem Clean.trans (h : Clean stack stack') (h' : Clean stack' stack'') : Clean stack stack'' := by
  obtain ⟨n, first⟩ := h.notes
  obtain ⟨k, second⟩ := h'.notes
  refine ⟨h.toLater.trans h'.toLater, n + k, ?_⟩
  rw [second, first, List.append_assoc, ← List.flatten_append, ← List.replicate_add]

theorem Reports.trans {x : Except Thrown α} (h : Clean stack stack') (h' : Reports stack' x stack'') :
    Reports stack x stack'' := by
  cases x with
  | ok => exact h.trans h'
  | error => exact ⟨h.toLater.trans h'.1, h'.2⟩

/-- A call behind one that reports. -/
theorem ensures_reports {m : Parsing α} {f : α → Parsing β} (first : Ensures m stack (Reports stack))
    (rest : ∀ a stack', Ensures (f a) stack' (Reports stack')) : Ensures (m >>= f) stack (Reports stack) := by
  refine ensures_bind (first.mono fun x stack' reports => ?_)
  cases x with
  | ok a => exact (rest a stack').mono fun y stack'' reports' => Reports.trans reports reports'
  | error err => exact reports

theorem ensures_throwReason {reason : Bytes} (explained : reason ≠ []) :
    Ensures (throwReason reason : Parsing α) stack (Reports stack) := ensures_throw ⟨Later.refl, explained⟩

@[simp] theorem lit_eq_nil {s : String} : lit s = [] ↔ s.toList = [] := List.map_eq_nil_iff

/-! ## Reasons -/

theorem Explained.bind {x : Except Thrown α} {f : α → Except Thrown β} (h : Explained x) (h' : ∀ a, Explained (f a)) :
    Explained (x >>= f) := by
  cases x with
  | ok a => exact h' a
  | error err =>
    intro err' failed
    cases failed
    exact h err rfl

theorem explained_ok {a : α} : Explained (.ok a) := by
  intro err failed
  cases failed

theorem explained_throw {reason : Bytes} (explained : reason ≠ []) : Explained (throwKernel reason : Except Thrown α) := by
  intro err failed
  cases failed
  exact explained

theorem explained_endOfFile : Explained (endOfFile : Except Thrown α) := explained_throw (by simp)

theorem explained_processComment {s : Bytes} : Explained (processComment s) := by
  unfold processComment
  split
  · exact explained_endOfFile
  · exact explained_ok

theorem explained_iternext {s : Bytes} : Explained (iternext s) := by
  unfold iternext
  dsimp only
  split
  · exact explained_endOfFile
  · exact explained_ok

theorem explained_entity {c : ConfFile} {tagName : Bytes} : Explained (entity c tagName) := by
  unfold entity
  repeat' split
  all_goals first | exact explained_ok | exact explained_throw (by simp)

theorem explained_readValue {c : ConfFile} {key : Bytes} (place : Place) (value s : Bytes) :
    Explained (readValue c key place value s) := by
  induction s generalizing place value with
  | nil => cases place <;> exact explained_endOfFile
  | cons ch s ih =>
    cases place with
    | value =>
      unfold readValue
      repeat' split
      all_goals first | exact ih _ _ | exact explained_ok
    | tagName tagName =>
      unfold readValue
      split
      · exact ih _ _
      · split
        · have explained : Explained (entity c tagName) := explained_entity
          cases stands : entity c tagName with
          | ok text => exact ih _ _
          | error err =>
            intro err' failed
            cases failed
            exact explained err stands
        · intro err failed
          cases failed
          simp
    | escaped =>
      unfold readValue
      split
      · exact ih _ _
      · split
        · exact explained_throw (by simp)
        · exact ih _ _

theorem explained_kv {c : ConfFile} {items : Items} {s : Bytes} : Explained (kv c items s) := by
  refine explained_iternext.bind fun (key, s) => ?_
  cases s with
  | nil => exact explained_endOfFile
  | cons ch s =>
    dsimp only
    split
    · exact explained_ok
    · split
      · exact explained_processComment.bind fun _ => explained_ok
      · split
        · exact explained_throw (by simp)
        · cases s with
          | nil => exact explained_endOfFile
          | cons ch s =>
            dsimp only
            split
            · exact explained_throw (by simp)
            · refine Explained.bind (explained_readValue .value [] s) fun (value, s) => ?_
              dsimp only
              split
              · exact explained_throw (by simp)
              · exact explained_ok

theorem explained_kvs {c : ConfFile} (fuel : ℕ) {items : Items} {s : Bytes} : Explained (kvs c fuel items s) := by
  induction fuel generalizing items s with
  | zero => exact explained_endOfFile
  | succ fuel ih =>
    refine explained_kv.bind fun (more, items, s) => ?_
    dsimp only
    split
    · exact ih
    · exact explained_ok

theorem explained_readTag {file : Bytes} {input : Items} : Explained (readTag w flags file input r) := by
  refine explained_iternext.bind fun (name, s) => ?_
  cases s with
  | nil => exact explained_endOfFile
  | cons spc behind =>
    dsimp only
    split
    · exact explained_throw (by simp)
    · split
      · exact explained_throw (by simp)
      · exact (explained_kvs _).bind fun _ => explained_ok

/-! ## Calls -/

theorem ensures_modify {change : ParseStack → ParseStack} (clean : Clean stack (change stack)) :
    Ensures (modify change : Parsing PUnit) stack (Reports stack) := by
  intro x stack' runs
  cases runs
  exact clean

theorem loadFileToBuff_reports {key name : Bytes} {exec : Bool} :
    Ensures (loadFileToBuff w key name flags exec) stack (Reports stack) := by
  unfold loadFileToBuff
  split
  · exact ensures_throwReason (by simp)
  · split
    · exact ensures_throwReason (by simp)
    · split
      · exact ensures_throwReason (by simp)
      · exact ensures_modify ⟨⟨rfl, List.Sublist.refl _, List.prefix_rfl⟩, 0, by simp⟩

/-- What the calls for the files inside come to. -/
def Answering (process : Bytes → Flags → Bytes → Bool → Parsing Bool) : Prop :=
  ∀ path flags required exec stack, Ensures (process path flags required exec) stack (Answers stack)

theorem Answering.included (answering : Answering process) {path required : Bytes} {exec : Bool} :
    Ensures (included process path flags required exec) stack (Reports stack) := by
  refine ensures_bind ((answering path flags required exec stack).mono fun x stack' answers => ?_)
  cases x with
  | error err => exact answers
  | ok ready =>
    cases ready with
    | true => exact ensures_pure answers
    | false => exact ensures_throw ⟨answers.1, by simp⟩

theorem forM_reports {l : List α} {g : α → Parsing PUnit} (each : ∀ a ∈ l, ∀ stack, Ensures (g a) stack (Reports stack)) :
    Ensures (l.forM g) stack (Reports stack) :=
  ensures_forM (fun _ => Clean.refl) (fun _ _ _ _ first rest => Reports.trans first rest) each

theorem Answering.includeFile (answering : Answering process) :
    Ensures (includeFile w process tag flags) stack (Reports stack) := by
  unfold Config.includeFile
  split
  · exact ensures_throwReason (by simp)
  · dsimp only
    split
    · exact answering.included
    · split
      · split
        · exact ensures_throwReason (by simp)
        · exact forM_reports fun _ _ _ => answering.included
      · split
        · split
          · exact ensures_throwReason (by simp)
          · exact answering.included
        · exact ensures_pure Clean.refl

theorem Answering.runTag (answering : Answering process) :
    Ensures (runTag w process tag flags) stack (Reports stack) := by
  have returns (compat : Bool) : ∀ (_ : PUnit) stack, Ensures (pure compat : Parsing Bool) stack (Reports stack) :=
    fun _ _ => ensures_pure Clean.refl
  unfold Config.runTag
  split
  · exact ensures_reports answering.includeFile (returns _)
  · split
    · exact ensures_reports (forM_reports fun _ _ _ => loadFileToBuff_reports) (returns _)
    · split
      · exact ensures_reports (forM_reports fun _ _ _ => loadFileToBuff_reports) (returns _)
      · split
        · split
          · exact ensures_throwReason (by simp)
          · split
            · exact ensures_throwReason (by simp)
            · exact ensures_reports (ensures_modify ⟨⟨rfl, List.Sublist.refl _, List.prefix_rfl⟩, 0, by simp⟩) (returns _)
        · split
          · dsimp only
            split
            · exact ensures_pure Clean.refl
            · split
              · exact ensures_pure Clean.refl
              · split
                · exact ensures_throwReason (by simp)
                · exact ensures_pure Clean.refl
          · exact ensures_reports (ensures_modify ⟨⟨rfl, Multimap.sublist_insertBehind, List.prefix_rfl⟩, 0, by simp⟩)
              (returns _)

theorem ensures_parseTags (answering : Answering process) {file : Bytes} (fuel : ℕ) :
    Ensures (parseTags w process flags file fuel r) stack (Reports stack) := by
  have ends (r : Reader) (stack : ParseStack) : Ensures (atEnd r) stack (Reports stack) := by
    unfold atEnd
    split
    · exact ensures_pure Clean.refl
    · exact ensures_throwReason (by simp)
  induction fuel generalizing r stack with
  | zero => exact ends r stack
  | succ fuel ih =>
    unfold parseTags
    split
    · exact ends r stack
    · split
      · split
        · exact ih
        · next failed => exact ensures_throw ⟨Later.refl, explained_processComment _ failed⟩
      · split
        · refine ensures_get_bind ?_
          split
          · exact ensures_reports answering.runTag fun _ _ => ih
          · next failed => exact ensures_throw ⟨Later.refl, explained_readTag _ failed⟩
        · split
          · exact ih
          · split
            · refine ensures_modify_bind (ih.mono fun x stack' reports => Reports.trans ?_ reports)
              exact ⟨⟨rfl, List.Sublist.refl _, List.prefix_append ..⟩, 1, by simp [utf8Note]⟩
            · exact ensures_throwReason (by simp)

/-- Nothing that a file throws leaves it. -/
theorem ensures_outTagParse (answering : Answering process) {file required text : Bytes} :
    Ensures (outTagParse w process flags file required text) stack fun x stack' =>
      Answers stack x stack' ∧ ∃ ready, x = .ok ready := by
  refine ensures_tryCatch (ensures_bind ((ensures_parseTags answering _).mono fun x stack' reports => ?_))
  cases x with
  | ok => exact ensures_pure ⟨reports, true, rfl⟩
  | error err =>
    obtain ⟨later, explained⟩ := reports
    refine ensures_modify_bind (ensures_pure ⟨⟨⟨later.streaming, later.output, ?_⟩, ?_⟩, false, rfl⟩)
    · exact later.errors.trans (List.append_assoc .. ▸ List.prefix_append ..)
    · have longer := List.length_pos_of_ne_nil explained
      have shorter := later.errors.length_le
      simp only [List.length_append]
      omega

/-- Where the file that is entered is left, the stack is that of a call for it. -/
theorem Later.leave {path : Bytes} (later : Later { stack with streaming := stack.streaming ++ [path] } stack') :
    Later stack { stack' with streaming := stack'.streaming.dropLast } :=
  ⟨by rw [later.streaming, List.dropLast_concat], later.output, later.errors⟩

theorem answering_processConfBuffer (w : System) (fuel : ℕ) : Answering (processConfBuffer w fuel) := by
  induction fuel with
  | zero =>
    intro path flags required exec stack x stack' runs
    cases runs
  | succ fuel ih =>
    intro path flags required exec stack
    unfold processConfBuffer
    refine ensures_get_bind ?_
    split
    · refine ensures_throw ⟨Later.refl, ?_⟩
      split <;> simp
    · split
      · exact ensures_throw ⟨Later.refl, by simp⟩
      · refine ensures_modify_bind (ensures_bind ((ensures_outTagParse ih).mono fun x stack' answers => ?_))
        obtain ⟨answers, ready, rfl⟩ := answers
        refine ensures_modify_bind (ensures_pure ?_)
        cases ready with
        | true => exact ⟨answers.toLater.leave, answers.notes⟩
        | false => exact ⟨answers.1.leave, answers.2⟩

/-- Whatever files there are: a load that is ready has met no error in any of them, and one that is not has told why; no
file is left in `streaming`. -/
theorem load_tells_errors (w : System) (fuel : ℕ) (configFile : Bytes) (ready : Bool) (stack : ParseStack)
    (loaded : load w fuel configFile = some (ready, stack)) : stack.streaming = [] ∧
      (ready = true → ∃ n, stack.errorMsg = (List.replicate n utf8Note).flatten) ∧
      (ready = false → stack.errorMsg ≠ []) := by
  obtain ⟨⟨x, stack'⟩, runs, came⟩ := Option.map_eq_some_iff.mp loaded
  have answers := answering_processConfBuffer w fuel _ _ _ _ _ x stack' runs
  cases x with
  | error err =>
    cases came
    exact ⟨answers.1.streaming, fun ready => (Bool.false_ne_true ready).elim, fun _ => by simp⟩
  | ok ready' =>
    cases came
    cases ready with
    | true => exact ⟨answers.streaming, fun _ => by simpa using answers.notes, fun failed => by cases failed⟩
    | false =>
      refine ⟨answers.1.streaming, fun ready => (Bool.false_ne_true ready).elim, fun _ => ?_⟩
      exact List.ne_nil_of_length_pos (Nat.zero_lt_of_lt answers.2)

end

/-- An error in a file that is included. -/
theorem load_tells_errors_included :
    let fopen : Bytes → Option Bytes := fun path =>
      if path = lit "/a" then some (lit "<include file=\"/b\">") else if path = lit "/b" then some (lit "b") else none
    ∃ ready stack, load ⟨fopen, fun _ => none, fun _ => none, fun _ => none, lit "conf", .brld1459⟩ 3 (lit "/a") =
      some (ready, stack) ∧ ready = false ∧ stack.errorMsg ≠ [] := by
  intro fopen
  have h : ((load ⟨fopen, fun _ => none, fun _ => none, fun _ => none, lit "conf", .brld1459⟩ 3 (lit "/a")).any
      fun loaded => loaded.1 = false) = true := by decide +kernel
  obtain ⟨⟨ready, stack⟩, loaded, failed⟩ := (Option.any_eq_true _ _).mp h
  have failed : ready = false := of_decide_eq_true failed
  exact ⟨ready, stack, loaded, failed, (load_tells_errors _ 3 _ ready stack loaded).2.2 failed⟩

end BerylDB.Config
