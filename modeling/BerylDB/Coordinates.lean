import BerylDB.Places

/-! # Stored coordinates

The handlers check the integer that a text begins with; GCALC, GDIST and GREM read back the decimal that it denotes. -/
namespace BerylDB.Decimals
open Text

section
variable {s : Bytes}

/-- An integer conversion reads the digits that a decimal one takes for the whole part. -/
theorem readDigits_eq (s : Bytes) :
    readDigits s = ((scan (s.dropWhile isSpace)).negative, (scan (s.dropWhile isSpace)).whole) := by
  unfold readDigits
  change _ = ((takeSign (s.dropWhile isSpace)).1, (takeSign (s.dropWhile isSpace)).2.takeWhile isDigit)
  generalize s.dropWhile isSpace = u
  cases u with
  | nil => rfl
  | cons c u =>
    by_cases minus : c = 45
    · rw [minus]
      rfl
    · by_cases plus : c = 43
      · rw [plus]
        rfl
      · have unsigned : isSign c = false := by simp [isSign, minus, plus]
        rw [takeSign, unsigned, if_neg Bool.false_ne_true]
        split
        · rename_i h
          exact absurd (List.cons.inj h).1 minus
        · rename_i h
          exact absurd (List.cons.inj h).1 plus
        · rfl

/-! ## What the checks do not see -/

/-- A text whose integer is let in by a check of `checked`, though its decimal exceeds `bound`: an integer that `int`
does not hold, or that the check is too wide for, a fraction behind the bound, or an exponent. -/
def Exceeds (checked bound : ℕ) (t : Bytes) : Prop :=
  (scan t).readable = true ∧ (scan t).magnitude < overflow ∧
    match (scan t).exponent with
    | none => 2 ^ 31 ≤ digitsValue (scan t).whole ∨
      bound < digitsValue (scan t).whole ∧ digitsValue (scan t).whole ≤ checked ∨
      digitsValue (scan t).whole = bound ∧ digitsValue (scan t).fraction ≠ 0
    | some _ => bound < (scan t).magnitude

theorem exceeds_plain {checked bound : ℕ} {t : Bytes} (plain : (scan t).exponent = none) : Exceeds checked bound t ↔
    (scan t).readable = true ∧ (scan t).magnitude < overflow ∧ (2 ^ 31 ≤ digitsValue (scan t).whole ∨
      bound < digitsValue (scan t).whole ∧ digitsValue (scan t).whole ≤ checked ∨
      digitsValue (scan t).whole = bound ∧ digitsValue (scan t).fraction ≠ 0) := by
  rw [Exceeds, plain]

/-- The integer of an accepted text, when an `int` holds it. -/
theorem whole_le (accepted : isNumber s true = true) {checked : ℕ} (low : -(checked : ℤ) ≤ convtoSigned s)
    (high : convtoSigned s ≤ checked) (fits : digitsValue (scan s).whole < 2 ^ 31) :
    digitsValue (scan s).whole ≤ checked := by
  rw [convtoSigned, readDigits_eq, dropWhile_isSpace accepted] at low high
  dsimp only at low high
  by_cases empty : (scan s).whole = []
  · rw [empty]
    exact Nat.zero_le _
  · cases negative : (scan s).negative with
    | true =>
      rw [negative, if_pos rfl, if_neg (by simp only [empty, false_or]; omega)] at low
      omega
    | false =>
      rw [negative, if_neg Bool.false_ne_true, if_neg (by simp only [empty, false_or]; omega)] at high
      omega

/-- An accepted text that passes its check denotes a number within a bound unless it exceeds that in one of these ways. -/
theorem within_iff (accepted : isNumber s true = true) {checked bound : ℕ} (low : -(checked : ℤ) ≤ convtoSigned s)
    (high : convtoSigned s ≤ checked) (small : bound < 2 ^ 31) :
    (-(bound : ℚ) ≤ convtoDecimal s ∧ convtoDecimal s ≤ bound) ↔ ¬ Exceeds checked bound s := by
  rw [convtoDecimal, dropWhile_isSpace accepted]
  by_cases read : (scan s).readable = true ∧ (scan s).magnitude < overflow
  · rw [if_pos read, abs_value_le, ← not_lt, not_iff_not]
    have body : ∀ {p : Prop}, (scan s).readable = true ∧ (scan s).magnitude < overflow ∧ p ↔ p := by
      intro p
      rw [← and_assoc]
      exact and_iff_right read
    cases exponent : (scan s).exponent with
    | some _ => rw [Exceeds, body, exponent]
    | none =>
      rw [exceeds_plain exponent, body, lt_magnitude_iff bound (digits_fraction s) exponent]
      have whole := whole_le accepted low high
      constructor
      · rintro (more | same)
        · by_cases fits : digitsValue (scan s).whole < 2 ^ 31
          · exact .inr (.inl ⟨more, whole fits⟩)
          · exact .inl (not_lt.mp fits)
        · exact .inr (.inr same)
      · rintro (large | ⟨more, -⟩ | same)
        · exact .inl (by omega)
        · exact .inl more
        · exact .inr same
  · rw [if_neg read]
    refine iff_of_true ⟨?_, Nat.cast_nonneg bound⟩ fun h => read ⟨h.1, h.2.1⟩
    linarith [(Nat.cast_nonneg bound : (0 : ℚ) ≤ bound)]

end

end BerylDB.Decimals

namespace BerylDB.Store
open Text QueryBase Kernel Transition Decimals

/-- The numbers that are read back from the row of a place. -/
def readLongitude (row : Bytes) : ℚ := convtoDecimal (toStr (cutAt 58 row).1)
def readLatitude (row : Bytes) : ℚ := convtoDecimal (toStr (cutAt 58 row).2)

structure InRange (row : Bytes) : Prop where
  latitude : -90 ≤ readLatitude row ∧ readLatitude row ≤ 90
  longitude : -180 ≤ readLongitude row ∧ readLongitude row ≤ 180

/-- The bound that a command checks the latitude against, and the one for the longitude. -/
def GeoInsert.latitudeChecked : GeoInsert → ℕ
  | .geoAdd | .geoAddNX => 90
  | .geoAddPub => 180

def GeoInsert.longitudeChecked : GeoInsert → ℕ
  | .geoAdd | .geoAddNX => 180
  | .geoAddPub => 90

section
variable {P : Platform} {s : Server} {r : Request} {c : GeoInsert} {db key latitude longitude : Bytes} {select : ℕ}

theorem validLat_iff {number : ℤ} : validLat number = true ↔ -90 ≤ number ∧ number ≤ 90 := by
  simp [validLat, and_comm]

theorem validLong_iff {number : ℤ} : validLong number = true ↔ -180 ≤ number ∧ number ≤ 180 := by
  simp [validLong, and_comm]

/-- What a command has checked of the pair that it takes. -/
theorem GeoInsert.checked (handled : c.handle db select key latitude longitude = some r) :
    isNumber latitude true = true ∧ isNumber longitude true = true ∧
    (-(c.latitudeChecked : ℤ) ≤ convtoSigned latitude ∧ convtoSigned latitude ≤ c.latitudeChecked) ∧
    (-(c.longitudeChecked : ℤ) ≤ convtoSigned longitude ∧ convtoSigned longitude ≤ c.longitudeChecked) := by
  cases c <;> obtain ⟨⟨-, first, second, long, lat⟩, -⟩ := insertPlace_some.mp handled
  · exact ⟨first, second, validLat_iff.mp lat, validLong_iff.mp long⟩
  · exact ⟨first, second, validLat_iff.mp lat, validLong_iff.mp long⟩
  · exact ⟨second, first, validLong_iff.mp long, validLat_iff.mp lat⟩

/-- The stored coordinates are in range if and only if none exceeds its bound in a way that the checks do not see. -/
theorem coordinates_in_range_iff (reach : (Server.machine P).Reachable s)
    (handled : c.handle db select key latitude longitude = some r) (opened : s.kernel.Opened db)
    (writes : c.Writes s.kernel r) :
    InRange (((s.kernel.execute P r).get db (keyRow key select intGeo)).getD []) ↔
      ¬ Exceeds c.latitudeChecked 90 latitude ∧ ¬ Exceeds c.longitudeChecked 180 longitude := by
  obtain ⟨numeric, numeric', ⟨low, high⟩, low', high'⟩ := GeoInsert.checked handled
  have row := (GeoInsert.registered (P := P) (reachable_inOrder reach).1 handled opened writes).2
  have cut : cutAt 58 (placeRow latitude longitude) = (toBin longitude, toBin latitude) :=
    cutAt_append _ (colon_not_mem_toBin longitude)
  rw [row, Option.getD_some, ← within_iff numeric low high (by decide), ← within_iff numeric' low' high' (by decide)]
  have lat : readLatitude (placeRow latitude longitude) = convtoDecimal latitude := by rw [readLatitude, cut, toStr_toBin]
  have long : readLongitude (placeRow latitude longitude) = convtoDecimal longitude := by
    rw [readLongitude, cut, toStr_toBin]
  constructor
  · rintro ⟨inLat, inLong⟩
    rw [lat] at inLat
    rw [long] at inLong
    exact ⟨by exact_mod_cast inLat, by exact_mod_cast inLong⟩
  · rintro ⟨inLat, inLong⟩
    exact ⟨by rw [lat]; exact_mod_cast inLat, by rw [long]; exact_mod_cast inLong⟩

end

/-- GEOADD of the place `p` in the first select of the database `db`. -/
def geoAddQuery (latitude longitude : Bytes) : Request where
  cls := .geoadd
  database := lit "db"
  key := lit "p"
  select := 1
  value := latitude
  hesh := longitude

theorem coordinates_in_range_near : InRange (((Server.fresh.kernel.execute Server.integers
    (geoAddQuery (lit "45") (lit "120"))).get (lit "db") (keyRow (lit "p") 1 intGeo)).getD []) := by
  have handled : GeoInsert.geoAdd.handle (lit "db") 1 (lit "p") (lit "45") (lit "120") =
      some (geoAddQuery (lit "45") (lit "120")) := by decide
  refine (coordinates_in_range_iff (.initial Server.fresh_initial) handled rfl (.inl (by decide))).mpr ⟨?_, ?_⟩
  · exact fun h => absurd ((exceeds_plain rfl).mp h).2.2 (by decide)
  · exact fun h => absurd ((exceeds_plain rfl).mp h).2.2 (by decide)

/-- GEOADD takes the latitude 90.5, whose integer is 90. -/
theorem coordinates_out_of_range : ∃ s, (Server.machine Server.integers).Reachable s ∧
    commandGeoAdd (lit "db") 1 (lit "p") (lit "90.5") (lit "0") = some (geoAddQuery (lit "90.5") (lit "0")) ∧
    ¬ InRange (((s.kernel.execute Server.integers (geoAddQuery (lit "90.5") (lit "0"))).get (lit "db")
      (keyRow (lit "p") 1 intGeo)).getD []) := by
  refine ⟨_, .initial Server.fresh_initial, by decide, fun inRange => ?_⟩
  have row : (Server.fresh.kernel.execute Server.integers (geoAddQuery (lit "90.5") (lit "0"))).get (lit "db")
      (keyRow (lit "p") 1 intGeo) = some (placeRow (lit "90.5") (lit "0")) := by decide
  have small : (scan (lit "90.5")).magnitude < overflow := by
    refine lt_of_le_of_lt (not_lt.mp ?_ : _ ≤ ((91 : ℕ) : ℚ)) (lt_trans (by norm_num) lt_overflow)
    rw [lt_magnitude_iff 91 (digits_fraction _) rfl]
    decide
  have past : Exceeds 90 90 (lit "90.5") := (exceeds_plain rfl).mpr ⟨by decide, small, by decide⟩
  have latitude := inRange.latitude
  rw [row, Option.getD_some, readLatitude, placeRow, cutAt_append _ (colon_not_mem_toBin _), toStr_toBin] at latitude
  have inside : ¬ Exceeds 90 90 (lit "90.5") :=
    (within_iff (by decide) (by decide) (by decide) (by decide)).mp (by exact_mod_cast latitude)
  exact inside past

end BerylDB.Store
