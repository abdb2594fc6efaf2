import BerylDB.NumberTexts
import BerylDB.Parameters
import BerylDB.Preparing

/-! # The commands that insert a place

GEOADD and GEOADDNX take a latitude and a longitude; GAPUB takes the longitude first, but checks it for a latitude. -/
namespace BerylDB.Store
open Text QueryBase Kernel Transition

def validLong (number : ℤ) : Bool := number ≤ 180 && -180 ≤ number
def validLat (number : ℤ) : Bool := number ≤ 90 && -90 ≤ number

/-- What the handlers of the three commands share; the two texts become the value and the hesh. -/
def insertPlace (cls : QueryClass) (db : Bytes) (select : ℕ) (key latitude longitude : Bytes) : Option Request :=
  if keyValidator key && isNumber latitude true && isNumber longitude true && validLong (convtoSigned longitude) &&
      validLat (convtoSigned latitude) then
    some { cls, database := db, key, select, value := latitude, hesh := longitude }
  else none

def commandGeoAdd : Bytes → ℕ → Bytes → Bytes → Bytes → Option Request := insertPlace .geoadd
def commandGeoAddNX : Bytes → ℕ → Bytes → Bytes → Bytes → Option Request := insertPlace .geoaddnx

/-- `CommandGeoAddPub::Handle` calls its third parameter the latitude, which is the longitude of its syntax. -/
def commandGeoAddPub (db : Bytes) (select : ℕ) (key third fourth : Bytes) : Option Request :=
  insertPlace .geoaddPub db select key third fourth

inductive GeoInsert where
  | geoAdd | geoAddNX | geoAddPub
deriving DecidableEq

namespace GeoInsert

/-- The command with its parameters in the order of its syntax. -/
def handle (c : GeoInsert) (db : Bytes) (select : ℕ) (key latitude longitude : Bytes) : Option Request :=
  match c with
  | .geoAdd => commandGeoAdd db select key latitude longitude
  | .geoAddNX => commandGeoAddNX db select key latitude longitude
  | .geoAddPub => commandGeoAddPub db select key longitude latitude

/-- The command writes the row of the name: GEOADDNX does only when it is absent. -/
def Writes (c : GeoInsert) (k : Kernel) (r : Request) : Prop :=
  r.registered k = none ∨ c ≠ .geoAddNX ∧ r.registered k = some intGeo

end GeoInsert

/-- The row of a place: its longitude and its latitude. -/
def placeRow (latitude longitude : Bytes) : Bytes := toBin longitude ++ 58 :: toBin latitude

/-- A query on the place of a request. -/
def Request.asks (r : Request) (cls : QueryClass) : Request :=
  { cls, database := r.database, key := r.key, select := r.select }

section
variable {P : Platform} {k : Kernel} {r : Request} {c : GeoInsert} {db key latitude longitude : Bytes} {select : ℕ}

theorem insertPlace_some {cls : QueryClass} : insertPlace cls db select key latitude longitude = some r ↔
    (keyValidator key = true ∧ isNumber latitude true = true ∧ isNumber longitude true = true ∧
      validLong (convtoSigned longitude) = true ∧ validLat (convtoSigned latitude) = true) ∧
    { cls, database := db, key, select, value := latitude, hesh := longitude } = r := by
  simp only [insertPlace, Option.ite_none_right_eq_some, Bool.and_eq_true, Option.some.injEq, and_assoc]

/-- The database, the row and the effect of the query of an insertion. -/
theorem GeoInsert.handled (handled : c.handle db select key latitude longitude = some r) :
    r.database = db ∧ r.key = key ∧ r.select = select ∧ r.cls ∈ [.geoadd, .geoaddnx, .geoaddPub] ∧
      (r.cls = .geoaddnx ↔ c = .geoAddNX) ∧
      placeRow latitude longitude =
        if r.cls = .geoaddPub then toBin r.value ++ 58 :: toBin r.hesh else toBin r.hesh ++ 58 :: toBin r.value := by
  cases c <;> obtain ⟨-, rfl⟩ := insertPlace_some.mp handled <;> simp [placeRow]

/-- An insertion writes the row of the place, and nothing else. -/
theorem GeoInsert.execute (writable : k.Writable) (handled : c.handle db select key latitude longitude = some r)
    (opened : k.Opened db) (writes : c.Writes k r) : (k.reply P r).finished = true ∧
    k.execute P r = k.update (.put db (keyRow key select intGeo) (placeRow latitude longitude)) := by
  obtain ⟨rfl, rfl, rfl, cls, nx, row⟩ := GeoInsert.handled handled
  rw [row]
  unfold Kernel.reply Kernel.execute
  simp only [List.mem_cons, List.not_mem_nil, or_false] at cls
  have stored (q : QueryBase) (value : Bytes) (own : q.database = r.database) :
      (writeDest k q value).2.finished = true ∧ k.apply r.database (keyRow r.key r.select intGeo) (writeDest k q value).1 =
        k.update (.put r.database (keyRow r.key r.select intGeo) value) := by
    rw [writeDest_writable (own ▸ writable _)]
    exact ⟨rfl, rfl⟩
  rcases writes with absent | ⟨other, registered⟩
  · have nothing : k.get r.database (keyRow r.key r.select intGeo) = none := registered_none.mp absent intGeo (by decide)
    rcases cls with cls | cls | cls <;> rw [cls, prepare_fresh opened absent rfl rfl]
    · exact stored _ _ rfl
    · change (Run.geoaddnx k (r.fresh intGeo)).2.finished = true ∧ k.apply _ _ (Run.geoaddnx k (r.fresh intGeo)).1 = _
      rw [Run.geoaddnx, show QueryBase.get k (r.fresh intGeo) (r.fresh intGeo).dest = none from nothing]
      exact ⟨rfl, (stored (r.fresh intGeo) _ rfl).2⟩
    · exact stored _ _ rfl
  · rcases cls with cls | cls | cls
    · rw [cls, prepare_loaded opened registered (by decide) rfl, if_pos rfl]
      exact stored _ _ rfl
    · exact absurd (nx.mp cls) other
    · rw [cls, prepare_loaded opened registered (by decide) rfl, if_pos rfl]
      exact stored _ _ rfl

/-- The name of an inserted place is registered for it. -/
theorem GeoInsert.registered (writable : k.Writable) (handled : c.handle db select key latitude longitude = some r)
    (opened : k.Opened db) (writes : c.Writes k r) : QueryBase.registered (k.execute P r) db key select = some intGeo ∧
    (k.execute P r).get db (keyRow key select intGeo) = some (placeRow latitude longitude) := by
  have free : QueryBase.registered k db key select = none ∨ QueryBase.registered k db key select = some intGeo := by
    obtain ⟨rfl, rfl, rfl, -⟩ := GeoInsert.handled handled
    exact writes.imp_right And.right
  rw [(GeoInsert.execute (P := P) writable handled opened writes).2]
  refine ⟨registered_put writable (by decide) free _, ?_⟩
  rw [get_update_put writable, if_pos ⟨rfl, rfl⟩]

/-- The answers of GEOGET, GLAGET and GLOGET to a place. -/
theorem geoget_replies (opened : k.Opened r.database) (registered : r.registered k = some intGeo)
    (row : k.get r.database (r.row intGeo) = some (placeRow latitude longitude)) :
    (r.cls = .geoget → (k.reply P r).response = longitude ++ 32 :: latitude) ∧
    (r.cls = .geogetLat → (k.reply P r).response = latitude) ∧
    (r.cls = .geogetLong → (k.reply P r).response = longitude) := by
  have dest : (r.found intGeo (k.get r.database (r.row intGeo))).destValue k = placeRow latitude longitude := by
    rw [row]
    rfl
  have cut : cutAt 58 (placeRow latitude longitude) = (toBin longitude, toBin latitude) :=
    cutAt_append _ (colon_not_mem_toBin longitude)
  refine ⟨fun cls => ?_, fun cls => ?_, fun cls => ?_⟩
  · have answer : k.reply P r = Run.geoget k (r.found intGeo (k.get r.database (r.row intGeo))) :=
      reply_reader opened registered (by rw [cls]; rfl) (by rw [cls]; decide) (by rw [cls]; rfl)
    rw [answer, Run.geoget, dest, cut]
    change toStr (toBin longitude) ++ 32 :: toStr (toBin latitude) = _
    rw [toStr_toBin, toStr_toBin]
  · have answer : k.reply P r = Run.geogetCustom false k (r.found intGeo (k.get r.database (r.row intGeo))) :=
      reply_reader opened registered (by rw [cls]; rfl) (by rw [cls]; decide) (by rw [cls]; rfl)
    rw [answer, Run.geogetCustom, dest, cut]
    exact toStr_toBin latitude
  · have answer : k.reply P r = Run.geogetCustom true k (r.found intGeo (k.get r.database (r.row intGeo))) :=
      reply_reader opened registered (by rw [cls]; rfl) (by rw [cls]; decide) (by rw [cls]; rfl)
    rw [answer, Run.geogetCustom, dest, cut]
    exact toStr_toBin longitude

end

/-- The three commands accept the same pairs, and store the same row, which GEOGET, GLAGET and GLOGET read back. -/
structure InsertsAgree (P : Platform) (k : Kernel) (db : Bytes) (select : ℕ) (key latitude longitude : Bytes) : Prop where
  accepts : ∀ c c' : GeoInsert, (c.handle db select key latitude longitude).isSome =
    (c'.handle db select key latitude longitude).isSome
  rows : ∀ (c : GeoInsert) (r : Request), c.handle db select key latitude longitude = some r → c.Writes k r →
    (k.execute P r).get db (keyRow key select intGeo) = some (toBin longitude ++ 58 :: toBin latitude)
  answers : ∀ (c : GeoInsert) (r : Request), c.handle db select key latitude longitude = some r → c.Writes k r →
    ((k.execute P r).reply P (r.asks .geoget)).response = longitude ++ 32 :: latitude ∧
    ((k.execute P r).reply P (r.asks .geogetLat)).response = latitude ∧
    ((k.execute P r).reply P (r.asks .geogetLong)).response = longitude

/-- Both coordinates are latitudes, or none is, where both are longitudes. -/
def Interchangeable (key latitude longitude : Bytes) : Prop :=
  keyValidator key = true → isNumber latitude true = true → isNumber longitude true = true →
    validLong (convtoSigned latitude) = true → validLong (convtoSigned longitude) = true →
    (validLat (convtoSigned latitude) = true ↔ validLat (convtoSigned longitude) = true)

section
variable {P : Platform} {s : Server} {db key latitude longitude : Bytes} {select : ℕ}

theorem validLong_of_validLat {number : ℤ} (valid : validLat number = true) : validLong number = true := by
  simp only [validLat, validLong, Bool.and_eq_true, decide_eq_true_eq] at valid ⊢
  omega

theorem accepts_iff : (∀ c c' : GeoInsert, (c.handle db select key latitude longitude).isSome =
    (c'.handle db select key latitude longitude).isSome) ↔ Interchangeable key latitude longitude := by
  have accepted (cls : QueryClass) (a b : Bytes) : (insertPlace cls db select key a b).isSome = true ↔
      keyValidator key = true ∧ isNumber a true = true ∧ isNumber b true = true ∧
        validLong (convtoSigned b) = true ∧ validLat (convtoSigned a) = true := by
    simp only [insertPlace, Option.isSome_ite, Bool.and_eq_true, and_assoc]
  constructor
  · intro same valid lat long latLong longLong
    have swapped := Bool.eq_iff_iff.mp (same .geoAdd .geoAddPub)
    simp only [GeoInsert.handle, commandGeoAdd, commandGeoAddPub, accepted, valid, lat, long, latLong, longLong,
      true_and] at swapped
    exact swapped
  · intro interchangeable
    have same (cls cls' : QueryClass) : (insertPlace cls db select key latitude longitude).isSome =
        (insertPlace cls' db select key latitude longitude).isSome := Bool.eq_iff_iff.mpr (by rw [accepted, accepted])
    have swapped (cls cls' : QueryClass) : (insertPlace cls db select key latitude longitude).isSome =
        (insertPlace cls' db select key longitude latitude).isSome := by
      rw [Bool.eq_iff_iff, accepted, accepted]
      constructor
      · rintro ⟨valid, lat, long, longLong, latLat⟩
        have latLong := validLong_of_validLat latLat
        exact ⟨valid, long, lat, latLong, (interchangeable valid lat long latLong longLong).mp latLat⟩
      · rintro ⟨valid, long, lat, latLong, longLat⟩
        have longLong := validLong_of_validLat longLat
        exact ⟨valid, lat, long, longLong, (interchangeable valid lat long latLong longLong).mpr longLat⟩
    intro c c'
    cases c <;> cases c' <;> first | exact same _ _ | exact swapped _ _ | exact (swapped _ _).symm | rfl

/-- The three inserts agree if and only if both coordinates are latitudes or none is, where both are longitudes. -/
theorem inserts_agree_iff (reach : (Server.machine P).Reachable s) (opened : s.kernel.Opened db) :
    InsertsAgree P s.kernel db select key latitude longitude ↔ Interchangeable key latitude longitude := by
  obtain ⟨writable, -⟩ := reachable_inOrder reach
  refine ⟨fun agree => accepts_iff.mp agree.accepts, fun interchangeable => ⟨accepts_iff.mpr interchangeable, ?_, ?_⟩⟩
  · intro c r handled writes
    exact (GeoInsert.registered writable handled opened writes).2
  · intro c r handled writes
    obtain ⟨registered, row⟩ := GeoInsert.registered (P := P) writable handled opened writes
    have opened' : (s.kernel.execute P r).Opened db := by
      rw [(GeoInsert.execute (P := P) writable handled opened writes).2]
      exact (closing_update writable _ _).mpr ⟨opened, by simp⟩
    obtain ⟨rfl, rfl, rfl, -⟩ := GeoInsert.handled handled
    exact ⟨(geoget_replies (r := r.asks .geoget) opened' registered row).1 rfl,
      (geoget_replies (r := r.asks .geogetLat) opened' registered row).2.1 rfl,
      (geoget_replies (r := r.asks .geogetLong) opened' registered row).2.2 rfl⟩

end

theorem inserts_agree_near : InsertsAgree Server.integers Server.fresh.kernel (lit "db") 1 (lit "p") (lit "45") (lit "60") :=
  (inserts_agree_iff (.initial Server.fresh_initial) rfl).mpr fun _ _ _ _ _ => by decide

/-- GAPUB refuses a longitude that GEOADD takes. -/
theorem inserts_disagree : ∃ s, (Server.machine Server.integers).Reachable s ∧
    (commandGeoAdd (lit "db") 1 (lit "p") (lit "45") (lit "120")).isSome = true ∧
    (commandGeoAddPub (lit "db") 1 (lit "p") (lit "120") (lit "45")).isSome = false ∧
    ¬ InsertsAgree Server.integers s.kernel (lit "db") 1 (lit "p") (lit "45") (lit "120") := by
  refine ⟨_, .initial Server.fresh_initial, by decide, by decide, fun agree => ?_⟩
  exact absurd (agree.accepts .geoAdd .geoAddPub) (by decide)

end BerylDB.Store
