import BerylDB.DoubleTexts
import BerylDB.Preparing
import BerylDB.Relocation

/-! # Counters

INCR, DECR, INCRBY and DECRBY on a key: a number is read, calculated with in floating point and printed again. -/
namespace BerylDB.Store
open Text Decimals Doubles QueryBase Kernel Transition

/-- What is left open of the library, and what the counters do not use. -/
structure Library where
  nan : Bytes
  sqrt : Double → Double
  trunc : Double → Double
  toFloat : Double → Double
  calculateDistance : Double → Double → Double → Double → Double
  intRand : ℕ → ℕ → ℕ → ℕ
  charmap : CharMap

/-- Floating point arithmetic as it is. -/
def Library.platform (L : Library) : Platform where
  Real := Double
  convtoNum := Doubles.convtoNum
  convtoString := Doubles.convtoString L.nan
  ofNat n := .round false n
  add := Double.add
  sub := Double.sub
  mul := Double.mul
  div := Double.div
  sqrt := L.sqrt
  trunc := L.trunc
  toFloat := L.toFloat
  lt := Double.lt
  le := Double.le
  calculateDistance := L.calculateDistance
  intRand := L.intRand
  charmap := L.charmap

/-! ## The commands -/

section
variable (db : Bytes) (select : ℕ) (key : Bytes)

/-- `KeyHelper::Operation`, behind the check of the key. -/
def operation (type : OpType) (oper : Bytes) : Option Request :=
  if keyValidator key then some { cls := .op, database := db, key, select, value := oper, operation := type } else none

/-- A command with `check_num`. -/
def operationBy (type : OpType) (oper : Bytes) : Option Request :=
  if isNumber oper true then operation db select key type oper else none

def commandIncr : Option Request := operation db select key .incr []
def commandDecr : Option Request := operation db select key .decr []
def commandIncrBy (value : Bytes) : Option Request := operationBy db select key .add value
def commandDecrBy (value : Bytes) : Option Request := operationBy db select key .min value

inductive Counting where
  | incr
  | decr
  | incrBy (value : Bytes)
  | decrBy (value : Bytes)
deriving DecidableEq

def Counting.handle : Counting → Option Request
  | .incr => commandIncr db select key
  | .decr => commandDecr db select key
  | .incrBy value => commandIncrBy db select key value
  | .decrBy value => commandDecrBy db select key value

/-- The text that `op_query` takes for the value of a key: 0 when there is none. -/
def Kernel.counterText (k : Kernel) : Bytes := ((k.get db (keyRow key select intKey)).map toStr).getD (lit "0")

end

namespace Counting

def minus : Counting → Bool
  | .incr | .incrBy _ => false
  | .decr | .decrBy _ => true

def operand : Counting → Bytes
  | .incr | .decr => lit "1"
  | .incrBy value | .decrBy value => value

def operandValue (c : Counting) : ℤ := (scanSigned c.operand).value

/-- What is added to the number, and whether it is added with a minus sign. -/
def amount (c : Counting) : ℤ := if c.minus then -c.operandValue else c.operandValue
def negative (c : Counting) : Bool := (scanSigned c.operand).negative != c.minus

end Counting

/-- The commands count by integers, and all numbers are of 53 bits. -/
def Counts : ℤ → List Counting → Prop
  | _, [] => True
  | n, c :: cs => IsInteger c.operand ∧ (n.natAbs < 2 ^ 53 ∧ c.amount.natAbs < 2 ^ 53 ∧ (n + c.amount).natAbs < 2 ^ 53) ∧
      Counts (n + c.amount) cs

/-- Each command stores the decimal text of the sum. -/
def StoresSums (P : Platform) (db : Bytes) (select : ℕ) (key : Bytes) : Kernel → ℤ → List Counting → Prop
  | _, _, [] => True
  | k, n, c :: cs => ∃ r, c.handle db select key = some r ∧
      (k.execute P r).get db (keyRow key select intKey) = some (toBin (decimalText (n + c.amount))) ∧
      StoresSums P db select key (k.execute P r) (n + c.amount) cs

/-- The sums that six digits are enough for, without a negative zero; `negative` is the sign of the text of `n`. -/
def Printable : (negative : Bool) → ℤ → List Counting → Prop
  | _, _, [] => True
  | negative, n, c :: cs => (n + c.amount).natAbs < 10 ^ 6 ∧
      ¬ (n = 0 ∧ c.amount = 0 ∧ negative = true ∧ c.negative = true) ∧ Printable (n + c.amount < 0) (n + c.amount) cs

/-- The reply is NOT_NUM, and nothing is changed. -/
structure NotNumeric (P : Platform) (k : Kernel) (r : Request) : Prop where
  access : (k.reply P r).access = .notNum
  refused : (k.reply P r).finished = false
  unchanged : k.execute P r = k

/-! ## One command -/

namespace Counting

/-- The operation and the operand of a query. -/
def type : Counting → OpType
  | .incr => .incr
  | .decr => .decr
  | .incrBy _ => .add
  | .decrBy _ => .min

def oper : Counting → Bytes
  | .incr | .decr => []
  | .incrBy value | .decrBy value => value

end Counting

section
variable {P : Platform} {L : Library} {k : Kernel} {r : Request} {c : Counting} {db key t : Bytes} {select : ℕ}

theorem Counting.handle_some : c.handle db select key = some r ↔
    (keyValidator key = true ∧ isNumber c.operand true = true) ∧
      { cls := .op, database := db, key, select, value := c.oper, operation := c.type } = r := by
  have one : isNumber (lit "1") true = true := by decide
  cases c <;> simp only [handle, commandIncr, commandDecr, commandIncrBy, commandDecrBy, operationBy, operation, operand, oper,
    type, one, Option.ite_none_right_eq_some, Option.some.injEq] <;> tauto

theorem Counting.handled (handled : c.handle db select key = some r) : r.database = db ∧ r.key = key ∧ r.select = select ∧
    r.cls = .op ∧ r.value = c.oper ∧ r.operation = c.type := by
  obtain ⟨-, rfl⟩ := handle_some.mp handled
  exact ⟨rfl, rfl, rfl, rfl, rfl, rfl⟩

/-- The query of a command runs on the row of the key, which may be absent. -/
theorem Counting.runs (handled : c.handle db select key = some r) (opened : k.Opened db)
    (free : QueryBase.registered k db key select = none ∨ QueryBase.registered k db key select = some intKey) :
    ∃ q : QueryBase, q.database = db ∧ q.value = c.oper ∧ q.operation = c.type ∧ q.finished = false ∧
      q.get k q.dest = k.get db (keyRow key select intKey) ∧ (k.reply P r) = (Run.op P k q).2 ∧
      k.execute P r = k.apply db (keyRow key select intKey) (Run.op P k q).1 := by
  obtain ⟨rfl, rfl, rfl, cls, value, type⟩ := Counting.handled handled
  unfold Kernel.reply Kernel.execute
  rw [cls]
  rcases free with absent | registered
  · rw [prepare_fresh (r := r) opened absent rfl rfl]
    exact ⟨_, rfl, value, type, rfl, rfl, rfl, rfl⟩
  · rw [prepare_loaded (r := r) opened registered (by decide) rfl, if_pos rfl]
    refine ⟨_, rfl, value, type, rfl, ?_, rfl, rfl⟩
    exact ite_self (k.get r.database (keyRow r.key r.select intKey))

/-- The operand of a query. -/
def Counting.real (P : Platform) (c : Counting) : P.Real :=
  if c.oper = [] then P.ofNat 0 else P.convtoNum c.oper

/-- A text that is no number is refused, and any other one is calculated with. -/
theorem Counting.execute (writable : k.Writable) (handled : c.handle db select key = some r) (opened : k.Opened db)
    (free : QueryBase.registered k db key select = none ∨ QueryBase.registered k db key select = some intKey) :
    (isNumber (k.counterText db select key) true = false → NotNumeric P k r) ∧
    (isNumber (k.counterText db select key) true = true → (k.reply P r).finished = true ∧
      k.execute P r = k.update (.put db (keyRow key select intKey) (toBin (P.convtoString
        (Run.operate P c.type (P.convtoNum (k.counterText db select key)) (c.real P)))))) := by
  obtain ⟨q, database, value, type, unfinished, held, reply, execute⟩ := Counting.runs (P := P) handled opened free
  have text : ((q.get k q.dest).map toStr).getD (lit "0") = k.counterText db select key := by
    rw [held]
    rfl
  have real : (if q.value = [] then P.ofNat 0 else P.convtoNum q.value) = c.real P := by
    rw [value]
    rfl
  constructor <;> intro number
  · have ran : Run.op P k q = (.none, (q.respond (Run.text k q)).accessSet .notNum) := by
      rw [Run.op, text, number]
      rfl
    rw [ran] at reply execute
    exact ⟨by rw [reply]; rfl, by rw [reply]; exact unfinished, execute⟩
  · have ran : ∃ q', q'.finished = true ∧ Run.op P k q = (.put (toBin (P.convtoString
        (Run.operate P c.type (P.convtoNum (k.counterText db select key)) (c.real P)))), q') := by
      have operation : (q.respond (Run.text k q)).operation = c.type := type
      rw [Run.op, text, number, real]
      dsimp only
      rw [operation, writeDest_writable (writable _)]
      exact ⟨_, rfl, rfl⟩
    obtain ⟨q', finished, ran⟩ := ran
    rw [ran] at reply execute
    exact ⟨by rw [reply]; exact finished, execute⟩

theorem Counting.notNumeric_iff (writable : k.Writable) (handled : c.handle db select key = some r)
    (opened : k.Opened db)
    (free : QueryBase.registered k db key select = none ∨ QueryBase.registered k db key select = some intKey) :
    NotNumeric P k r ↔ isNumber (k.counterText db select key) true = false := by
  obtain ⟨refused, calculated⟩ := Counting.execute (P := P) writable handled opened free
  refine ⟨fun notNumeric => ?_, refused⟩
  by_contra number
  have finished := (calculated (Bool.eq_true_of_not_eq_false number)).1
  rw [notNumeric.refused] at finished
  exact Bool.false_ne_true finished

/-! ## Exact sums -/

theorem value_nonpos {n : Signed} (negative : n.negative = true) : n.value ≤ 0 := by
  rw [Signed.value, negative]
  simp

theorem value_nonneg {n : Signed} (positive : n.negative = false) : 0 ≤ n.value := by
  rw [Signed.value, positive]
  simp

theorem Counting.amount_nonpos (negative : c.negative = true) : c.amount ≤ 0 := by
  unfold Counting.negative at negative
  unfold Counting.amount Counting.operandValue
  cases minus : c.minus with
  | false =>
    rw [minus, Bool.bne_false] at negative
    exact value_nonpos negative
  | true =>
    rw [minus, Bool.bne_true] at negative
    exact neg_nonpos.mpr (value_nonneg (by simpa using negative))

theorem isInteger_one : IsInteger (lit "1") := isInteger_iff.mpr (by decide)

/-- What a command calculates from an integer. -/
theorem Counting.operate_integer (integer : IsInteger t) (operand : IsInteger c.operand)
    (small : (scanSigned t).value.natAbs < 2 ^ 53) (amount : c.amount.natAbs < 2 ^ 53)
    (sum : ((scanSigned t).value + c.amount).natAbs < 2 ^ 53) :
    Run.operate L.platform c.type (L.platform.convtoNum t) (c.real L.platform) =
      .finite (if (scanSigned t).value + c.amount = 0 then (scanSigned t).negative && c.negative
        else (scanSigned t).value + c.amount < 0) ((scanSigned t).value + c.amount).natAbs (representable_nat sum) := by
  have one : Double.round false ((1 : ℕ) : ℚ) = Doubles.convtoNum (lit "1") := by
    rw [convtoNum_integer isInteger_one (representable_nat (by decide)), Double.round_natCast (representable_nat (by norm_num))]
    congr 1
  have given (given : IsInteger c.oper) : c.real L.platform = Doubles.convtoNum c.oper := by
    refine if_neg fun empty => ?_
    rw [empty] at given
    exact absurd (isInteger_iff.mp given).1 (by decide)
  cases c with
  | incr =>
    change Double.add _ (Double.round false ((1 : ℕ) : ℚ)) = _
    rw [one]
    exact add_integers integer isInteger_one small amount sum rfl
  | decr =>
    change Double.sub _ (Double.round false ((1 : ℕ) : ℚ)) = _
    rw [one]
    exact sub_integers integer isInteger_one small (by decide) sum rfl
  | incrBy value =>
    have sign : (incrBy value).negative = (scanSigned value).negative := Bool.bne_false _
    rw [given operand, sign]
    exact add_integers integer operand small amount sum rfl
  | decrBy value =>
    have sign : (decrBy value).negative = !(scanSigned value).negative := Bool.bne_true _
    rw [given operand, sign]
    exact sub_integers integer operand small ((Int.natAbs_neg _).symm.trans_lt amount) sum rfl

/-- What one command keeps, and when it stores the decimal text of the sum. -/
theorem Counting.step (writable : k.Writable) (opened : k.Opened db)
    (free : QueryBase.registered k db key select = none ∨ QueryBase.registered k db key select = some intKey)
    (handled : c.handle db select key = some r) (integer : IsInteger (k.counterText db select key))
    (operand : IsInteger c.operand) {n : ℤ} (value : (scanSigned (k.counterText db select key)).value = n)
    (small : n.natAbs < 2 ^ 53 ∧ c.amount.natAbs < 2 ^ 53 ∧ (n + c.amount).natAbs < 2 ^ 53) :
    (k.execute L.platform r).Writable ∧ (k.execute L.platform r).Opened db ∧
      QueryBase.registered (k.execute L.platform r) db key select = some intKey ∧
      ((k.execute L.platform r).get db (keyRow key select intKey) = some (toBin (decimalText (n + c.amount))) ↔
        (n + c.amount).natAbs < 10 ^ 6 ∧ ¬ (n + c.amount = 0 ∧
          ((scanSigned (k.counterText db select key)).negative && c.negative) = true)) := by
  subst value
  have calculated := ((Counting.execute (P := L.platform) writable handled opened free).2 (isInteger_isNumber integer)).2
  rw [Counting.operate_integer integer operand small.1 small.2.1 small.2.2] at calculated
  rw [calculated]
  refine ⟨writable.update _, (closing_update writable _ _).mpr ⟨opened, by simp⟩,
    registered_put writable (by decide) free _, ?_⟩
  rw [get_update_put writable, if_pos ⟨rfl, rfl⟩, Option.some.injEq, toBin_injective.eq_iff]
  exact convtoString_iff L.nan (representable_nat small.2.2)

/-- The texts stored by a sequence of commands are those of the sums if and only if six digits are enough. -/
theorem storesSums_iff (valid : keyValidator key = true) (cs : List Counting) {n : ℤ} (writable : k.Writable)
    (opened : k.Opened db)
    (free : QueryBase.registered k db key select = none ∨ QueryBase.registered k db key select = some intKey)
    (integer : IsInteger (k.counterText db select key)) (value : (scanSigned (k.counterText db select key)).value = n)
    (counts : Counts n cs) : StoresSums L.platform db select key k n cs ↔
      Printable (scanSigned (k.counterText db select key)).negative n cs := by
  induction cs generalizing k n with
  | nil => exact Iff.rfl
  | cons c cs ih =>
    obtain ⟨operand, small, rest⟩ := counts
    obtain ⟨r, handled⟩ : ∃ r, c.handle db select key = some r :=
      ⟨_, Counting.handle_some.mpr ⟨⟨valid, isInteger_isNumber operand⟩, rfl⟩⟩
    obtain ⟨writable', opened', registered, stored⟩ :=
      Counting.step (L := L) writable opened free handled integer operand value small
    have later (exact : (k.execute L.platform r).get db (keyRow key select intKey) =
        some (toBin (decimalText (n + c.amount)))) : StoresSums L.platform db select key (k.execute L.platform r)
          (n + c.amount) cs ↔ Printable (n + c.amount < 0) (n + c.amount) cs := by
      have text : (k.execute L.platform r).counterText db select key = decimalText (n + c.amount) := by
        rw [Kernel.counterText, exact]
        exact toStr_toBin _
      have := ih writable' opened' (.inr registered) (text ▸ isInteger_decimalText _) (text ▸ value_decimalText _) rest
      rwa [text, scanSigned_decimalText] at this
    -- a sum of zero with two negative signs is one of two zeros
    have zero : n + c.amount = 0 ∧ ((scanSigned (k.counterText db select key)).negative && c.negative) = true ↔
        n = 0 ∧ c.amount = 0 ∧ (scanSigned (k.counterText db select key)).negative = true ∧ c.negative = true := by
      rw [Bool.and_eq_true]
      constructor
      · rintro ⟨sum, first, second⟩
        have below : n ≤ 0 := value ▸ value_nonpos first
        have below' : c.amount ≤ 0 := Counting.amount_nonpos second
        exact ⟨by omega, by omega, first, second⟩
      · rintro ⟨none, nothing, first, second⟩
        exact ⟨by omega, first, second⟩
    rw [zero] at stored
    constructor
    · rintro ⟨r', handled', exact, more⟩
      obtain rfl : r = r' := Option.some.inj (handled.symm.trans handled')
      obtain ⟨digits, positive⟩ := stored.mp exact
      exact ⟨digits, positive, (later exact).mp more⟩
    · rintro ⟨digits, positive, more⟩
      have exact := stored.mpr ⟨digits, positive⟩
      exact ⟨r, handled, exact, (later exact).mpr more⟩

/-- A sequence of commands on an integer stores the decimal texts of the sums if and only if each of them has at most six
digits and none is a sum of two negative zeros; a stored text is reported for no number if and only if `is_number` refuses
it. -/
theorem counters_exact_iff {s : Server} (reach : (Server.machine L.platform).Reachable s) (opened : s.kernel.Opened db)
    (valid : keyValidator key = true)
    (free : QueryBase.registered s.kernel db key select = none ∨ QueryBase.registered s.kernel db key select = some intKey) :
    (∀ cs, IsInteger (s.kernel.counterText db select key) →
      Counts (scanSigned (s.kernel.counterText db select key)).value cs →
      (StoresSums L.platform db select key s.kernel (scanSigned (s.kernel.counterText db select key)).value cs ↔
        Printable (scanSigned (s.kernel.counterText db select key)).negative
          (scanSigned (s.kernel.counterText db select key)).value cs)) ∧
    ∀ c r, Counting.handle db select key c = some r →
      (NotNumeric L.platform s.kernel r ↔ isNumber (s.kernel.counterText db select key) true = false) := by
  have writable := (reachable_inOrder reach).1
  exact ⟨fun cs integer counts => storesSums_iff valid cs writable opened free integer rfl counts,
    fun _ _ handled => Counting.notNumeric_iff writable handled opened free⟩

end

/-- A library that calculates no roots, and for which all distances are zero. -/
def Library.plain : Library where
  nan := lit "nan"
  sqrt a := a
  trunc a := a
  toFloat a := a
  calculateDistance _ _ _ _ := .round false 0
  intRand _ low _ := low
  charmap := .brld1459

theorem counters_exact_fresh : StoresSums Library.plain.platform (lit "db") 1 (lit "n") Server.fresh.kernel 0
    [.incr, .incrBy (lit "41"), .decrBy (lit "50"), .decr] := by
  have text : Server.fresh.kernel.counterText (lit "db") 1 (lit "n") = lit "0" := by decide
  refine ((counters_exact_iff (L := Library.plain) (.initial Server.fresh_initial) rfl (by decide) (.inl (by decide))).1 _
    ?_ ?_).mpr ?_
  · rw [text]
    exact isInteger_iff.mpr (by decide)
  · rw [text]
    exact ⟨isInteger_one, by decide, isInteger_iff.mpr (by decide), by decide, isInteger_iff.mpr (by decide), by decide,
      isInteger_one, by decide, trivial⟩
  · rw [text]
    exact ⟨by decide, by decide, by decide, by decide, by decide, by decide, by decide, by decide, trivial⟩

/-- 1000000 is stored with an exponent, and 1.2.3 is counted with. -/
theorem counters_inexact : (∃ s, (Server.machine Library.plain.platform).Reachable s ∧ s.kernel.Opened (lit "db") ∧
      QueryBase.registered s.kernel (lit "db") (lit "n") 1 = some intKey ∧
      s.kernel.counterText (lit "db") 1 (lit "n") = lit "999999" ∧ Counts 999999 [.incr] ∧
      ¬ StoresSums Library.plain.platform (lit "db") 1 (lit "n") s.kernel 999999 [.incr]) ∧
    ∃ s r, (Server.machine Library.plain.platform).Reachable s ∧ s.kernel.counterText (lit "db") 1 (lit "n") = lit "1.2.3" ∧
      ¬ IsDecimal (lit "1.2.3") ∧ commandIncr (lit "db") 1 (lit "n") = some r ∧
      ¬ NotNumeric Library.plain.platform s.kernel r := by
  constructor
  · have h : ((Server.machine Library.plain.platform).exec (fun _ _ => True) Server.fresh
        [.request { cls := .set, database := lit "db", key := lit "n", select := 1, value := lit "999999" }]).any fun s =>
          QueryBase.registered s.kernel (lit "db") (lit "n") 1 = some intKey ∧
          s.kernel.counterText (lit "db") 1 (lit "n") = lit "999999" ∧
          (s.kernel.databases (lit "db")).closing = false := by decide
    obtain ⟨s, reach, registered, text, opened⟩ := Machine.exec_holds h (.initial Server.fresh_initial)
    have counts : Counts 999999 [.incr] := ⟨isInteger_one, by decide, trivial⟩
    have integer : IsInteger (s.kernel.counterText (lit "db") 1 (lit "n")) := text ▸ isInteger_iff.mpr (by decide)
    refine ⟨s, reach, opened, registered, text, counts, fun stores => ?_⟩
    have printable := (storesSums_iff (by decide) [.incr] (reachable_inOrder reach).1 opened (.inr registered) integer
      (text ▸ by decide) counts).mp stores
    exact absurd printable.1 (by decide)
  · have h : ((Server.machine Library.plain.platform).exec (fun _ _ => True) Server.fresh
        [.request { cls := .set, database := lit "db", key := lit "n", select := 1, value := lit "1.2.3" }]).any fun s =>
          QueryBase.registered s.kernel (lit "db") (lit "n") 1 = some intKey ∧
          s.kernel.counterText (lit "db") 1 (lit "n") = lit "1.2.3" ∧
          (s.kernel.databases (lit "db")).closing = false := by decide
    obtain ⟨s, reach, registered, text, opened⟩ := Machine.exec_holds h (.initial Server.fresh_initial)
    refine ⟨s, _, reach, text, fun decimal => absurd (isDecimal_iff.mp decimal).2 (by decide), rfl, fun notNumeric => ?_⟩
    have refused := (Counting.notNumeric_iff (c := .incr) (reachable_inOrder reach).1 rfl opened (.inr registered)).mp notNumeric
    rw [text] at refused
    exact absurd refused (by decide)

end BerylDB.Store
