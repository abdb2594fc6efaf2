import BerylDB.Counters
import BerylDB.ExpiryReload
import BerylDB.RowNames

/-! # Places that GREM removes

GREM walks through the tokens of each row.  A token that decodes to the name of the reference is passed over and not
counted, so that in the rows of that name the select stands for the name, and the type for the select. -/
namespace BerylDB.Store
open Text QueryBase Kernel Transition
open Doubles (Double convtoNum)

/-- The place of the reference, empty when there is none. -/
def Request.reference (r : Request) (k : Kernel) : Bytes := Run.place k r.plain r.key

/-- The distance of a stored place from the reference. -/
def Request.away (P : Platform) (r : Request) (k : Kernel) (value : Bytes) : P.Real := Run.distance P (r.reference k) value

/-- A place of the select with another name than the reference. -/
def Request.IsPlace (r : Request) (row : Bytes) : Prop := ∃ name, name ≠ r.key ∧ row = keyRow name r.select intGeo

/-- A place whose distance from the reference is below the one asked for. -/
def Request.Near (P : Platform) (r : Request) (k : Kernel) (row : Bytes) : Prop :=
  r.IsPlace row ∧ ∃ value, k.get r.database row = some value ∧ P.lt (r.away P k value) (P.convtoNum r.value) = true

/-- GREM deletes the near places, and nothing else. -/
structure RemovesNear (P : Platform) (k : Kernel) (r : Request) : Prop where
  removed : ∀ row, r.Near P k row → (k.execute P r).get r.database row = none
  kept : ∀ db row, ¬ (db = r.database ∧ r.Near P k row) → (k.execute P r).get db row = k.get db row

/-- A row that is taken for a place of the select: the row of the empty name, and a row of the reference's own name in
which the select and the type, without those that decode to the name, stand for the name and the select. -/
def Request.Mistaken (r : Request) (row : Bytes) : Prop :=
  row = [] ∨ ∃ text type, text ≠ [] ∧ (58 : UInt8) ∉ text ∧ row = rowName r.key text type ∧
    let names := (text :: colonTokens type).dropWhile fun name => toStr name = r.key
    names[1]?.all (· == convtoString r.select) = true ∧ names[2]?.all (· == intGeo) = true

/-- The state in which GREM does so: the scan gets to the near places, every distance is a number, and no row that is
taken for a place is closer than the distance asked for. -/
structure RemovesCleanly (L : Library) (k : Kernel) (r : Request) : Prop where
  reached : ∀ row value, r.IsPlace row → k.get r.database row = some value →
    Double.lt (r.away L.platform k value) (convtoNum r.value) = true →
    r.reference k ≠ [] ∧ (row, value) ∈ r.plain.scanned k
  numbers : r.reference k ≠ [] → ∀ row value, (row, value) ∈ r.plain.scanned k → r.IsPlace row →
    r.away L.platform k value ≠ Double.nan
  mistaken : r.reference k ≠ [] → ∀ row value, (row, value) ∈ r.plain.scanned k → r.Mistaken row →
    Double.le (convtoNum r.value) (r.away L.platform k value) = true

/-! ## The walk through a row -/

section
variable {P : Platform} {L : Library} {k : Kernel} {r : Request} {row type : Bytes}

theorem RowType.third (kind : RowType type) : ∃ third rest, colonTokens type = third :: rest ∧
    (third = intGeo → type = intGeo) := by
  rcases kind with known | rfl | ⟨db, rfl | rfl⟩
  · exact ⟨type, [], colonTokens_typeRegs known, id⟩
  · exact ⟨processNull, [], by decide, id⟩
  · exact ⟨intExpire, _, colonTokens_ownedType db (by decide) (by decide), fun same => absurd same (by decide)⟩
  · exact ⟨intFuture, _, colonTokens_ownedType db (by decide) (by decide), fun same => absurd same (by decide)⟩

theorem Request.IsPlace.not_mistaken (place : r.IsPlace row) : ¬ r.Mistaken row := by
  obtain ⟨name, other, rfl⟩ := place
  rintro (empty | ⟨text, type, -, colon, same, -⟩)
  · exact keyRow_ne_nil empty
  · exact other ((rowName_eq_keyRow colon).mp same.symm).1.symm

/-- The walk takes the places of the select, and the rows that it mistakes for one. -/
theorem walk_iff (typed : row = [] ∨ TypedRow row) :
    (scanKey (fun _ => true) (convtoString r.select) intGeo
      ((colonTokens row).dropWhile fun name => toStr name = r.key)).isSome = true ↔ r.IsPlace row ∨ r.Mistaken row := by
  have passes (names : List Bytes) : (scanKey (fun _ => true) (convtoString r.select) intGeo names).isSome = true ↔
      names[1]?.all (· == convtoString r.select) = true ∧ names[2]?.all (· == intGeo) = true := by
    have any : names[0]?.all (fun _ => true) = true := by cases names[0]? <;> rfl
    simp only [scanKey, any, Bool.true_and, Bool.and_eq_true]
    split <;> simp_all
  rw [passes]
  rcases typed with rfl | ⟨key, text, type, key_ne, text_ne, colon, kind, rfl⟩
  · exact iff_of_true (by simp [colonTokens]) (.inr (.inl rfl))
  rw [colonTokens_rowName type key_ne text_ne colon]
  by_cases own : key = r.key
  · subst own
    rw [List.dropWhile_cons_of_pos (by simp)]
    constructor
    · exact fun taken => .inr (.inr ⟨text, type, text_ne, colon, rfl, taken⟩)
    · rintro (⟨name, other, same⟩ | empty | ⟨text', type', -, colon', same, taken⟩)
      · exact absurd ((rowName_eq_keyRow colon).mp same).1.symm other
      · simp [rowName] at empty
      · obtain ⟨-, rfl, rfl⟩ := (rowName_inj colon colon').mp same
        exact taken
  · rw [List.dropWhile_cons_of_neg (by simpa using own)]
    obtain ⟨third, rest, tokens, plain⟩ := kind.third
    rw [tokens]
    simp only [List.getElem?_cons_succ, List.getElem?_cons_zero, Option.all_some, beq_iff_eq]
    constructor
    · rintro ⟨rfl, rfl⟩
      exact .inl ⟨key, own, by rw [plain rfl]; rfl⟩
    · rintro (⟨name, other, same⟩ | empty | ⟨text', type', -, colon', same, -⟩)
      · obtain ⟨-, rfl, rfl⟩ := (rowName_eq_keyRow colon).mp same
        rw [colonTokens_typeRegs (by decide)] at tokens
        exact ⟨rfl, (List.cons.inj tokens).1.symm⟩
      · simp [rowName] at empty
      · exact absurd ((rowName_inj colon colon').mp same).1 own

/-- Among the rows of the reference's own name those are taken whose type is the number of the select. -/
theorem mistaken_keyRow {select : ℕ} (known : type ∈ typeRegs)
    (plain : toStr (convtoString select) ≠ r.key) :
    r.Mistaken (keyRow r.key select type) ↔ type = convtoString r.select := by
  have left (type : Bytes) : ((convtoString select :: colonTokens type).dropWhile fun name => toStr name = r.key) =
      convtoString select :: colonTokens type := List.dropWhile_cons_of_neg (by simpa using plain)
  constructor
  · rintro (empty | ⟨text, type', -, colon, same, taken⟩)
    · exact absurd empty keyRow_ne_nil
    · obtain ⟨-, rfl, rfl⟩ := (rowName_eq_keyRow colon).mp same.symm
      rw [left, colonTokens_typeRegs known] at taken
      simpa using taken
  · intro same
    refine .inr ⟨convtoString select, type, convtoString_ne_nil select, colon_not_mem_convtoString select, rfl, ?_⟩
    rw [left, colonTokens_typeRegs known]
    simpa using same

/-! ## What is deleted -/

theorem mem_georemRows (typed : row = [] ∨ TypedRow row) : row ∈ Run.georemRows P k r.plain ↔
    (r.IsPlace row ∨ r.Mistaken row) ∧ ∃ value, (row, value) ∈ r.plain.scanned k ∧
      ¬ P.le (P.convtoNum r.value) (r.away P k value) = true := by
  rw [← walk_iff typed]
  simp only [Run.georemRows, List.mem_filterMap, Option.ite_none_right_eq_some, Option.some.injEq, Bool.and_eq_true,
    Bool.not_eq_true']
  constructor
  · rintro ⟨⟨row', value⟩, scanned, ⟨walk, close⟩, rfl⟩
    exact ⟨walk, value, scanned, Bool.eq_false_iff.mp close⟩
  · rintro ⟨walk, value, scanned, close⟩
    exact ⟨(row, value), scanned, ⟨walk, Bool.eq_false_iff.mpr close⟩, rfl⟩

/-- GREM on an open database deletes its rows, when there is a reference. -/
theorem georem_get (writable : k.Writable) (opened : k.Opened r.database) (cls : r.cls = .georem) (db row : Bytes) :
    (k.execute P r).get db row =
      if db = r.database ∧ r.reference k ≠ [] ∧ row ∈ Run.georemRows P k r.plain then none else k.get db row := by
  have ran : k.execute P r = (Run.georem P k r.plain).1 := by
    unfold Kernel.execute
    rw [cls, prepare_opened opened]
    rfl
  rw [ran, Run.georem]
  by_cases empty : Run.place k r.plain r.plain.key = []
  · rw [if_pos empty, if_neg fun h => h.2.1 empty]
  · have held : r.reference k ≠ [] := empty
    rw [if_neg empty]
    change ((Run.georemRows P k r.plain).foldl (fun k row => k.erase r.database row) k).get db row = _
    rw [foldl_erase, get_updates writable, contents_erases]
    simp only [held, ne_eq, not_false_eq_true, true_and]

theorem scanned_get {value : Bytes} (scanned : (row, value) ∈ r.plain.scanned k) : k.get r.database row = some value := by
  refine mem_rows.mp ?_
  unfold QueryBase.scanned at scanned
  split at scanned
  · exact List.mem_of_mem_take scanned
  · exact scanned

theorem removesNear_iff (types : RowTypes k.get) (writable : k.Writable) (opened : k.Opened r.database)
    (cls : r.cls = .georem) : RemovesNear L.platform k r ↔ RemovesCleanly L k r := by
  have get := georem_get (P := L.platform) writable opened cls
  have typed {row value : Bytes} (held : k.get r.database row = some value) : row = [] ∨ TypedRow row :=
    types r.database row (by rw [held]; rfl)
  have number : convtoNum r.value ≠ .nan := by
    unfold convtoNum
    dsimp only
    split <;> exact Double.round_ne_nan _ _
  constructor
  · intro removes
    -- what is deleted though it is not near
    have spared {row value : Bytes} (reference : r.reference k ≠ []) (scanned : (row, value) ∈ r.plain.scanned k)
        (taken : r.IsPlace row ∨ r.Mistaken row) (far : ¬ r.Near L.platform k row) :
        Double.le (convtoNum r.value) (r.away L.platform k value) = true := by
      by_contra close
      have held := scanned_get scanned
      have kept := removes.kept r.database row fun h => far h.2
      rw [get, if_pos ⟨rfl, reference, (mem_georemRows (typed held)).mpr ⟨taken, value, scanned, close⟩⟩, held] at kept
      exact nomatch kept
    refine ⟨fun row value place held close => ?_, fun reference row value scanned place nan => ?_,
      fun reference row value scanned mistaken => spared reference scanned (.inr mistaken) fun near =>
        near.1.not_mistaken mistaken⟩
    · have gone := removes.removed row ⟨place, value, held, close⟩
      rw [get] at gone
      split at gone
      · rename_i erased
        obtain ⟨-, value', scanned, -⟩ := (mem_georemRows (typed held)).mp erased.2.2
        obtain rfl : value' = value := Option.some.inj ((scanned_get scanned).symm.trans held)
        exact ⟨erased.2.1, scanned⟩
      · rw [held] at gone
        exact nomatch gone
    · have le := spared reference scanned (.inl place) ?_
      · rw [nan] at le
        exact Double.not_le_nan _ le
      · rintro ⟨-, value', held, close⟩
        obtain rfl : value = value' := Option.some.inj ((scanned_get scanned).symm.trans held)
        change Double.lt (r.away L.platform k value) _ = true at close
        rw [nan] at close
        exact Double.not_nan_lt _ close
  · intro cleanly
    refine ⟨fun row near => ?_, fun db row far => ?_⟩
    · obtain ⟨place, value, held, close⟩ := near
      obtain ⟨reference, scanned⟩ := cleanly.reached row value place held close
      rw [get, if_pos ⟨rfl, reference, (mem_georemRows (typed held)).mpr
        ⟨.inl place, value, scanned, Double.not_le_of_lt close⟩⟩]
    · rw [get]
      refine if_neg ?_
      rintro ⟨rfl, reference, erased⟩
      obtain ⟨value, held⟩ : ∃ value, (row, value) ∈ r.plain.scanned k := by
        obtain ⟨⟨row', value⟩, scanned, found⟩ := List.mem_filterMap.mp erased
        obtain ⟨-, same⟩ := Option.ite_none_right_eq_some.mp found
        exact ⟨value, Option.some.inj same ▸ scanned⟩
      obtain ⟨taken, value', scanned, close⟩ := (mem_georemRows (typed (scanned_get held))).mp erased
      rcases taken with place | mistaken
      · have less := (Double.lt_iff (cleanly.numbers reference row value' scanned place) number).mpr close
        exact far ⟨rfl, place, value', scanned_get scanned, less⟩
      · exact close (cleanly.mistaken reference row value' scanned mistaken)

/-- GREM deletes exactly the near places if and only if the scan gets to them, the distances are numbers, and no row is
mistaken for a place. -/
theorem removals_exact_iff {s : Server} (reach : (Server.machine L.platform).Reachable s)
    (opened : s.kernel.Opened r.database) (cls : r.cls = .georem) :
    RemovesNear L.platform s.kernel r ↔ RemovesCleanly L s.kernel r :=
  removesNear_iff (reachable_rowTypes reach) (reachable_inOrder reach).1 opened cls

end

theorem plain_away (r : Request) (k : Kernel) (value : Bytes) :
    r.away Library.plain.platform k value = Double.finite false (0 : ℕ) (Doubles.representable_nat (Nat.two_pow_pos _)) :=
  Double.round_natCast (Doubles.representable_nat (Nat.two_pow_pos _))

/-- All distances of the library are below 5. -/
theorem plain_close (r : Request) (k : Kernel) (value : Bytes) :
    Double.lt (r.away Library.plain.platform k value) (convtoNum (lit "5")) = true := by
  have five : convtoNum (lit "5") = Double.finite false (5 : ℕ) (Doubles.representable_nat (by norm_num)) :=
    Doubles.convtoNum_integer (Decimals.isInteger_iff.mpr (by decide)) (Doubles.representable_nat (by decide))
  rw [plain_away, five]
  simp [Double.lt, Double.le, Doubles.signed]

def placeQuery (cls : QueryClass) (select : ℕ) (key value hesh : Bytes) : Request :=
  { cls, database := lit "db", select, key, value, hesh }

/-- A store with two places in one select. -/
theorem two_places : ∃ s, (Server.machine Library.plain.platform).Reachable s ∧ s.kernel.Opened (lit "db") ∧
    (s.kernel.rows (lit "db")).toList.map Prod.fst = [keyRow (lit "p") 1 intGeo, keyRow (lit "q") 1 intGeo] ∧
    (∃ value, s.kernel.get (lit "db") (keyRow (lit "q") 1 intGeo) = some value) ∧
    (placeQuery .georem 1 (lit "p") (lit "5") []).reference s.kernel ≠ [] := by
  have h : ((Server.machine Library.plain.platform).exec (fun _ _ => True) Server.fresh
      [.request (placeQuery .geoadd 1 (lit "p") (lit "1") (lit "2")),
        .request (placeQuery .geoadd 1 (lit "q") (lit "3") (lit "4"))]).any fun s =>
        (s.kernel.rows (lit "db")).toList.map Prod.fst = [keyRow (lit "p") 1 intGeo, keyRow (lit "q") 1 intGeo] ∧
        (s.kernel.get (lit "db") (keyRow (lit "q") 1 intGeo)).isSome = true ∧
        (placeQuery .georem 1 (lit "p") (lit "5") []).reference s.kernel ≠ [] ∧
        (s.kernel.databases (lit "db")).closing = false := by decide
  obtain ⟨s, reached, rows, here, reference, opened⟩ := Machine.exec_holds h (.initial Server.fresh_initial)
  exact ⟨s, reached, opened, rows, Option.isSome_iff_exists.mp here, reference⟩

theorem removals_exact_near : ∃ s, (Server.machine Library.plain.platform).Reachable s ∧
    (placeQuery .georem 1 (lit "p") (lit "5") []).Near Library.plain.platform s.kernel (keyRow (lit "q") 1 intGeo) ∧
    RemovesNear Library.plain.platform s.kernel (placeQuery .georem 1 (lit "p") (lit "5") []) := by
  obtain ⟨s, reach, opened, rows, ⟨value, held⟩, reference⟩ := two_places
  have place : (placeQuery .georem 1 (lit "p") (lit "5") []).IsPlace (keyRow (lit "q") 1 intGeo) := ⟨lit "q", by decide, rfl⟩
  refine ⟨s, reach, ⟨place, value, held, plain_close _ _ value⟩,
    (removals_exact_iff (r := placeQuery .georem 1 (lit "p") (lit "5") []) reach opened rfl).mpr
      ⟨fun row value _ held _ => ⟨reference, mem_rows.mpr held⟩, fun _ row value _ _ => ?_,
        fun _ row value scanned mistaken => ?_⟩⟩
  · rw [plain_away]
    exact Double.noConfusion
  · have named : row ∈ (s.kernel.rows (lit "db")).toList.map Prod.fst := List.mem_map.mpr ⟨_, scanned, rfl⟩
    rw [rows, List.mem_cons, List.mem_singleton] at named
    rcases named with rfl | rfl
    · exact absurd ((mistaken_keyRow (by decide) (by decide)).mp mistaken) (by decide)
    · exact absurd mistaken place.not_mistaken

/-- In the select that has the number of the type, the reference is removed, though its distance is zero. -/
theorem removals_inexact : ∃ s, (Server.machine Library.plain.platform).Reachable s ∧ s.kernel.Opened (lit "db") ∧
    QueryBase.registered s.kernel (lit "db") (lit "p") 4 = some intGeo ∧
    ¬ RemovesNear Library.plain.platform s.kernel (placeQuery .georem 4 (lit "p") (lit "5") []) := by
  have h : ((Server.machine Library.plain.platform).exec (fun _ _ => True) Server.fresh
      [.request (placeQuery .geoadd 4 (lit "p") (lit "1") (lit "2"))]).any fun s =>
        QueryBase.registered s.kernel (lit "db") (lit "p") 4 = some intGeo ∧
        (s.kernel.get (lit "db") (keyRow (lit "p") 4 intGeo)).isSome = true ∧
        (placeQuery .georem 4 (lit "p") (lit "5") []).reference s.kernel ≠ [] ∧
        (s.kernel.databases (lit "db")).closing = false := by decide
  obtain ⟨s, reach, registered, here, reference, opened⟩ := Machine.exec_holds h (.initial Server.fresh_initial)
  refine ⟨s, reach, opened, registered, fun removes => ?_⟩
  have cleanly := (removesNear_iff (r := placeQuery .georem 4 (lit "p") (lit "5") []) (reachable_rowTypes reach)
    (reachable_inOrder reach).1 opened rfl).mp removes
  obtain ⟨value, held⟩ := Option.isSome_iff_exists.mp here
  have mistaken : (placeQuery .georem 4 (lit "p") (lit "5") []).Mistaken (keyRow (lit "p") 4 intGeo) :=
    (mistaken_keyRow (by decide) (by decide)).mpr (by decide)
  exact Double.not_le_of_lt (plain_close _ _ value) (cleanly.mistaken reference _ value (mem_rows.mpr held) mistaken)

end BerylDB.Store
