import BerylDB.Counters
import BerylDB.PrintedIntegers
import BerylDB.Shrinking
import Mathlib.Order.Bounds.Basic

/-! # LHIGH, VHIGH, LLOW and VLOW

A loop keeps the best number that it has met: from zero on for the highest, from the first item on for the lowest. -/
namespace BerylDB.Store
open Text Decimals Doubles QueryBase Kernel Transition

/-! ## Keeping the best -/

section
variable {α β δ : Type} [LinearOrder α] {Holds : δ → α → Prop} {better : δ → δ → Bool} {value : β → α} {read : β → δ}

/-- A loop that takes over what is better ends with the greatest of what it has met. -/
theorem foldl_greatest (compares : ∀ {d e a b}, Holds d a → Holds e b → (better d e = true ↔ a < b)) (items : List β)
    (reads : ∀ item ∈ items, Holds (read item) (value item)) {d : δ} {a : α} (start : Holds d a) :
    ∃ b, Holds (items.foldl (fun d item => if better d (read item) then read item else d) d) b ∧
      IsGreatest (insert a {b | ∃ item ∈ items, value item = b}) b := by
  induction items generalizing d a with
  | nil => exact ⟨a, start, by simp⟩
  | cons item items ih =>
    have here := reads item List.mem_cons_self
    have step : Holds (if better d (read item) then read item else d) (max a (value item)) := by
      by_cases less : a < value item
      · rw [if_pos ((compares start here).mpr less), max_eq_right less.le]
        exact here
      · rw [if_neg (mt (compares start here).mp less), max_eq_left (not_lt.mp less)]
        exact start
    obtain ⟨b, ends, member, bound⟩ := ih (fun item here => reads item (List.mem_cons_of_mem _ here)) step
    refine ⟨b, ends, ?_, ?_⟩
    · rcases member with best | ⟨other, there, same⟩
      · rcases max_choice a (value item) with first | second
        · exact .inl (best.trans first)
        · exact .inr ⟨item, List.mem_cons_self, (best.trans second).symm⟩
      · exact .inr ⟨other, List.mem_cons_of_mem _ there, same⟩
    · have best := bound (Set.mem_insert _ _)
      rintro c (rfl | ⟨other, there, rfl⟩)
      · exact (le_max_left _ _).trans best
      · rcases List.mem_cons.mp there with rfl | there
        · exact (le_max_right _ _).trans best
        · exact bound (.inr ⟨other, there, rfl⟩)

theorem foldl_least (compares : ∀ {d e a b}, Holds d a → Holds e b → (better d e = true ↔ b < a)) (items : List β)
    (reads : ∀ item ∈ items, Holds (read item) (value item)) {d : δ} {a : α} (start : Holds d a) :
    ∃ b, Holds (items.foldl (fun d item => if better d (read item) then read item else d) d) b ∧
      IsLeast (insert a {b | ∃ item ∈ items, value item = b}) b :=
  @foldl_greatest αᵒᵈ β δ _ Holds better value read compares items reads d a start

end

/-! ## The commands -/

namespace SequenceKind

def commandHigh (db : Bytes) (select : ℕ) (key : Bytes) : SequenceKind → Option Request
  | list => commandLHigh db select key
  | vector => commandVHigh db select key

def commandLow (db : Bytes) (select : ℕ) (key : Bytes) : SequenceKind → Option Request
  | list => commandLLow db select key
  | vector => commandVLow db select key

end SequenceKind

/-- The integers that the items are read as. -/
def integerValues (items : List Bytes) : Set ℤ := {z | ∃ item ∈ items, (scanSigned item).value = z}

/-- The items are decimal integers that the format holds. -/
def Integral (items : List Bytes) : Prop :=
  ∀ item ∈ items, IsInteger item ∧ Representable (scanSigned item).value.natAbs

/-- An integer is returned. -/
structure Returns (P : Platform) (k : Kernel) (r : Request) (z : ℤ) : Prop where
  finished : (k.reply P r).finished = true
  access : (k.reply P r).access = .statusOk
  response : Denotes (k.reply P r).response z

section
variable {L : Library} {k : Kernel} {r : Request} {db key load : Bytes} {select : ℕ} {items : List Bytes}
  {kind : SequenceKind} {q : QueryBase} {z : ℤ}

theorem Integral.numeric (integral : Integral items) : ListHandler.isNumeric items = true :=
  List.all_eq_true.mpr fun item here => isInteger_isNumber (integral item here).1

/-- The greatest of the integers and zero. -/
theorem getHigh_holds (integral : Integral items) : ∃ z, Holds (ListHandler.getHigh L.platform items) z ∧
    IsGreatest (insert 0 (integerValues items)) z :=
  foldl_greatest (fun left right => left.lt_iff right) items
    (fun item here => holds_convtoNum (integral item here).1 (integral item here).2) holds_zero

theorem getLow_holds (integral : Integral items) (nonempty : items ≠ []) :
    ∃ value z, ListHandler.getLow L.platform items = some value ∧ Holds value z ∧ IsLeast (integerValues items) z := by
  obtain ⟨front, rest, rfl⟩ := List.exists_cons_of_ne_nil nonempty
  have reads := fun item here => holds_convtoNum (integral item here).1 (integral item here).2
  have found : ∃ z, Holds ((front :: rest).foldl (fun value item =>
      if Double.lt (convtoNum item) value then convtoNum item else value) (convtoNum front)) z ∧
      IsLeast (insert (scanSigned front).value (integerValues (front :: rest))) z :=
    foldl_least (fun left right => right.lt_iff left) (front :: rest) reads (reads front List.mem_cons_self)
  have first : (scanSigned front).value ∈ integerValues (front :: rest) := ⟨front, List.mem_cons_self, rfl⟩
  rw [Set.insert_eq_of_mem first] at found
  obtain ⟨z, holds, least⟩ := found
  exact ⟨_, z, rfl, holds, least⟩

theorem aggregate_returns {cls : QueryClass} {f : List Bytes → Option L.platform.Real} {value : Double}
    (writable : k.Writable) (opened : k.Opened db) (registered : QueryBase.registered k db key select = some kind.type)
    (got : k.get db (keyRow key select kind.type) = some load) (integral : Integral (ListHandler.create load))
    (body : cls.body L.platform = .reader (Run.aggregate L.platform f)) (own : cls.baseRequest = some kind.type)
    (type : cls.queryType ∈ [.write, .read, .lat, .long, .readAllow, .iter])
    (found : f (ListHandler.create load) = some value) :
    Returns L.platform k { cls, database := db, key, select } z ↔ Denotes (convtoString L.nan value) z := by
  obtain ⟨q, loaded, -, replied⟩ := reader_ran (P := L.platform) (r := { cls, database := db, key, select }) writable opened
    registered got own body type
  have reply : k.reply L.platform { cls, database := db, key, select } = (q.respond (convtoString L.nan value)).setOK := by
    rw [replied, Run.aggregate, loaded.onItems, integral.numeric, found]
    rfl
  constructor
  · rintro ⟨-, -, denotes⟩
    rwa [reply] at denotes
  · intro denotes
    constructor
    · rw [reply]
      rfl
    · rw [reply]
      exact loaded.accepted
    · rwa [reply]

/-- Where all integers are negative, zero is printed. -/
theorem highest_iff {a : Double} {y : ℤ} (holds : Holds a y) (best : IsGreatest (insert 0 (integerValues items)) y) (nan : Bytes) :
    (∃ z, IsGreatest (integerValues items) z ∧ Denotes (convtoString nan a) z) ↔
      (∃ item ∈ items, 0 ≤ (scanSigned item).value) ∧ ∀ z, IsGreatest (integerValues items) z → SixSignificant z.natAbs := by
  have same {z : ℤ} (positive : 0 ≤ z) (greatest : IsGreatest (integerValues items) z) : z = y := by
    have with_zero := greatest.insert 0
    rw [max_eq_right positive] at with_zero
    exact with_zero.unique best
  constructor
  · rintro ⟨z, greatest, denotes⟩
    rcases lt_or_ge z 0 with negative | positive
    · have with_zero := greatest.insert 0
      rw [max_eq_left negative.le] at with_zero
      obtain rfl := with_zero.unique best
      have zero := ((holds.denotes_iff nan).mpr ⟨0, 0, by norm_num, rfl⟩).value
      rw [denotes.value] at zero
      exact absurd (Int.cast_injective zero) negative.ne
    · obtain ⟨item, here, value⟩ := greatest.1
      refine ⟨⟨item, here, value ▸ positive⟩, fun z' greatest' => ?_⟩
      obtain rfl := greatest'.unique greatest
      obtain rfl := same positive greatest
      exact (holds.denotes_iff nan).mp denotes
  · rintro ⟨⟨item, here, positive⟩, six⟩
    have above : (scanSigned item).value ≤ y := best.2 (.inr ⟨item, here, rfl⟩)
    have member : y ∈ integerValues items := by
      rcases best.1 with zero | member
      · exact ⟨item, here, le_antisymm above (zero ▸ positive)⟩
      · exact member
    have greatest : IsGreatest (integerValues items) y := ⟨member, fun z here => best.2 (.inr here)⟩
    exact ⟨y, greatest, (holds.denotes_iff nan).mpr (six y greatest)⟩

theorem lowest_iff {a : Double} {y : ℤ} (holds : Holds a y) (least : IsLeast (integerValues items) y) (nan : Bytes) :
    (∃ z, IsLeast (integerValues items) z ∧ Denotes (convtoString nan a) z) ↔
      ∀ z, IsLeast (integerValues items) z → SixSignificant z.natAbs := by
  constructor
  · rintro ⟨z, least', denotes⟩ z' least''
    obtain rfl := least'.unique least
    obtain rfl := least''.unique least
    exact (holds.denotes_iff nan).mp denotes
  · exact fun six => ⟨y, least, (holds.denotes_iff nan).mpr (six y least)⟩

section
variable (writable : k.Writable) (opened : k.Opened db)
  (registered : QueryBase.registered k db key select = some kind.type)
  (held : k.holds ListHandler.container db (keyRow key select kind.type) = some items) (integral : Integral items)
include writable opened registered held integral

theorem high_iff (handled : kind.commandHigh db select key = some r) :
    (∃ z, IsGreatest (integerValues items) z ∧ Returns L.platform k r z) ↔
      (∃ item ∈ items, 0 ≤ (scanSigned item).value) ∧ ∀ z, IsGreatest (integerValues items) z → SixSignificant z.natAbs := by
  obtain ⟨load, got, rfl⟩ := ListHandler.holds_some held
  obtain ⟨y, holds, greatest⟩ := getHigh_holds (L := L) integral
  rw [← highest_iff holds greatest L.nan]
  cases kind
  all_goals
    obtain ⟨-, rfl⟩ := retro_some.mp handled
    exact exists_congr fun z => and_congr_right fun _ => aggregate_returns writable opened registered got integral rfl rfl
      (by simp [QueryClass.queryType]) rfl

theorem low_iff (nonempty : items ≠ []) (handled : kind.commandLow db select key = some r) :
    (∃ z, IsLeast (integerValues items) z ∧ Returns L.platform k r z) ↔
      ∀ z, IsLeast (integerValues items) z → SixSignificant z.natAbs := by
  obtain ⟨load, got, rfl⟩ := ListHandler.holds_some held
  obtain ⟨value, y, found, holds, least⟩ := getLow_holds (L := L) integral nonempty
  rw [← lowest_iff holds least L.nan]
  cases kind
  all_goals
    obtain ⟨-, rfl⟩ := retro_some.mp handled
    exact exists_congr fun z => and_congr_right fun _ => aggregate_returns writable opened registered got integral rfl rfl
      (by simp [QueryClass.queryType]) found

/-- LHIGH and VHIGH return the greatest integer if and only if one of them is not negative and six digits are enough for
the greatest; LLOW and VLOW return the least if and only if six digits are enough for it. -/
theorem extremes_iff {r' : Request} (nonempty : items ≠ []) (high : kind.commandHigh db select key = some r)
    (low : kind.commandLow db select key = some r') :
    ((∃ z, IsGreatest (integerValues items) z ∧ Returns L.platform k r z) ↔
      (∃ item ∈ items, 0 ≤ (scanSigned item).value) ∧ ∀ z, IsGreatest (integerValues items) z → SixSignificant z.natAbs) ∧
    ((∃ z, IsLeast (integerValues items) z ∧ Returns L.platform k r' z) ↔
      ∀ z, IsLeast (integerValues items) z → SixSignificant z.natAbs) :=
  ⟨high_iff writable opened registered held integral high,
    low_iff writable opened registered held integral nonempty low⟩

end
end

theorem extremes_mixed : ∃ s, (Server.machine Library.plain.platform).Reachable s ∧
    s.kernel.holds ListHandler.container (lit "db") (keyRow (lit "l") 1 intList) = some [lit "-3", lit "12"] ∧
    (∃ z, IsGreatest (integerValues [lit "-3", lit "12"]) z ∧
      Returns Library.plain.platform s.kernel (inDb .lhigh (lit "l") []) z) ∧
    ∃ z, IsLeast (integerValues [lit "-3", lit "12"]) z ∧
      Returns Library.plain.platform s.kernel (inDb .llow (lit "l") []) z := by
  have h : ((Server.machine Library.plain.platform).exec (fun _ _ => True) Server.fresh
      [.request (inDb .lpush (lit "l") (lit "-3")), .request (inDb .lpush (lit "l") (lit "12"))]).any fun s =>
        (s.kernel.databases (lit "db")).closing = false ∧
        QueryBase.registered s.kernel (lit "db") (lit "l") 1 = some intList ∧
        (s.kernel.get (lit "db") (keyRow (lit "l") 1 intList)).map ListHandler.create = some [lit "-3", lit "12"] := by decide
  obtain ⟨s, reached, opened, registered, held⟩ := Machine.exec_holds h (.initial Server.fresh_initial)
  have small (z : ℤ) (here : z ∈ integerValues [lit "-3", lit "12"]) : SixSignificant z.natAbs := by
    obtain ⟨item, there, rfl⟩ := here
    simp only [List.mem_cons, List.not_mem_nil, or_false] at there
    rcases there with rfl | rfl
    · exact ⟨3, 0, by decide, by decide⟩
    · exact ⟨12, 0, by decide, by decide⟩
  have integral : Integral [lit "-3", lit "12"] := by
    intro item there
    simp only [List.mem_cons, List.not_mem_nil, or_false] at there
    rcases there with rfl | rfl
    · exact ⟨isInteger_iff.mpr (by decide), representable_nat (by decide)⟩
    · exact ⟨isInteger_iff.mpr (by decide), representable_nat (by decide)⟩
  have high : SequenceKind.list.commandHigh (lit "db") 1 (lit "l") = some (inDb .lhigh (lit "l") []) := by decide
  have low : SequenceKind.list.commandLow (lit "db") 1 (lit "l") = some (inDb .llow (lit "l") []) := by decide
  have held : s.kernel.holds ListHandler.container (lit "db") (keyRow (lit "l") 1 SequenceKind.list.type) =
    some [lit "-3", lit "12"] := held
  have extremes := extremes_iff (L := Library.plain) (reachable_inOrder reached).1 opened registered held integral (by decide)
    high low
  exact ⟨s, reached, held, extremes.1.mpr ⟨⟨lit "12", by decide, by decide⟩, fun z greatest => small z greatest.1⟩,
    extremes.2.mpr fun z least => small z least.1⟩

/-- The highest item of -1 is 0. -/
theorem lhigh_misses_negative : ∃ s, (Server.machine Library.plain.platform).Reachable s ∧
    s.kernel.holds ListHandler.container (lit "db") (keyRow (lit "l") 1 intList) = some [lit "-1"] ∧
    Integral [lit "-1"] ∧ commandLHigh (lit "db") 1 (lit "l") = some (inDb .lhigh (lit "l") []) ∧
    ¬ ∃ z, IsGreatest (integerValues [lit "-1"]) z ∧ Returns Library.plain.platform s.kernel (inDb .lhigh (lit "l") []) z := by
  have h : ((Server.machine Library.plain.platform).exec (fun _ _ => True) Server.fresh
      [.request (inDb .lpush (lit "l") (lit "-1"))]).any fun s =>
        (s.kernel.databases (lit "db")).closing = false ∧
        QueryBase.registered s.kernel (lit "db") (lit "l") 1 = some intList ∧
        (s.kernel.get (lit "db") (keyRow (lit "l") 1 intList)).map ListHandler.create = some [lit "-1"] := by decide
  obtain ⟨s, reached, opened, registered, held⟩ := Machine.exec_holds h (.initial Server.fresh_initial)
  have integral : Integral [lit "-1"] := by
    intro item there
    obtain rfl := List.mem_singleton.mp there
    exact ⟨isInteger_iff.mpr (by decide), representable_nat (by decide)⟩
  have handled : SequenceKind.list.commandHigh (lit "db") 1 (lit "l") = some (inDb .lhigh (lit "l") []) := by decide
  have held : s.kernel.holds ListHandler.container (lit "db") (keyRow (lit "l") 1 SequenceKind.list.type) =
    some [lit "-1"] := held
  refine ⟨s, reached, held, integral, handled, fun returned => ?_⟩
  obtain ⟨⟨item, there, positive⟩, -⟩ := (high_iff (reachable_inOrder reached).1 opened registered held integral
    handled).mp returned
  obtain rfl := List.mem_singleton.mp there
  exact absurd positive (by decide)

end BerylDB.Store
