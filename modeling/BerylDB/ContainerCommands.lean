import BerylDB.Containers
import BerylDB.NumberTexts
import BerylDB.Parameters

/-! # Commands on containers

The handlers of `core_list`, `core_vector`, `core_maps` and `core_mmaps`, behind the checks of their parameters. -/
namespace BerylDB.Store
open Text

section
variable (db : Bytes) (select : ℕ) (key : Bytes)

namespace KeyHelper

/-- `Retro`, behind the check of the key. -/
def retro (cls : QueryClass) : Option Request :=
  if keyValidator key then some { cls, database := db, key, select } else none

def simpleRetro (cls : QueryClass) (value : Bytes) : Option Request :=
  (retro db select key cls).map fun r => { r with value }

def simple (cls : QueryClass) (value : Bytes) : Option Request := simpleRetro db select key cls (stripe value)

/-- `HeshRetro`, behind the check of the hash. -/
def heshRetro (cls : QueryClass) (hesh : Bytes) : Option Request :=
  if keyValidator hesh then (retro db select key cls).map fun r => { r with hesh } else none

def simpleHesh (cls : QueryClass) (hesh value : Bytes) : Option Request :=
  (heshRetro db select key cls hesh).map fun r => { r with value := stripe value }

end KeyHelper
open KeyHelper

/-! ## Lists -/

/-- A command with `check_value`. -/
def simpleChecked (cls : QueryClass) (value : Bytes) : Option Request :=
  if checkFormat value then simple db select key cls value else none

def commandLPush (value : Bytes) : Option Request := simpleChecked db select key .lpush value
def commandLPushNX (value : Bytes) : Option Request := simpleChecked db select key .lpushnx value
def commandLExist (value : Bytes) : Option Request := simpleChecked db select key .lexist value
def commandLDel (value : Bytes) : Option Request := simpleChecked db select key .ldel value
def commandPopAll (value : Bytes) : Option Request := simpleChecked db select key .lpopall value
def commandLPopFront : Option Request := retro db select key .lpopFront
def commandLPopBack : Option Request := retro db select key .lpopBack
def commandLRop : Option Request := retro db select key .lrop
/-- LFPOP makes the query of LRPOP. -/
def commandFRop : Option Request := retro db select key .lrop
def commandLReverse : Option Request := retro db select key .lreverse
def commandLSort : Option Request := retro db select key .lsort
def commandLCount : Option Request := retro db select key .lcount
def commandLFront : Option Request := retro db select key .lfront
def commandLHigh : Option Request := retro db select key .lhigh
def commandLLow : Option Request := retro db select key .llow

/-- The quotes of the value are left where they are. -/
def commandLRepeats (value : Bytes) : Option Request :=
  if checkFormat value then simpleRetro db select key .lrepeats value else none

def commandLPos (value : Bytes) : Option Request :=
  if checkValidPos value then simpleRetro db select key .lpos value else none

def commandLResize (value : Bytes) : Option Request :=
  if checkValidPos value then simple db select key .lresize value else none

/-! ## Vectors -/

def commandVPush (value : Bytes) : Option Request := simpleChecked db select key .vpush value
def commandVPushNX (value : Bytes) : Option Request := simpleChecked db select key .vpushnx value
def commandVDel (value : Bytes) : Option Request := simpleChecked db select key .vdel value
def commandVPopFront : Option Request := retro db select key .vpopFront
/-- VPOPBACK has `check_value`, too, and its last parameter is the key. -/
def commandVPopBack : Option Request := if checkFormat key then retro db select key .vpopBack else none
def commandVReverse : Option Request := retro db select key .vreverse
def commandVSort : Option Request := retro db select key .vsort
def commandVCount : Option Request := retro db select key .vcount
def commandVHigh : Option Request := retro db select key .vhigh
def commandVLow : Option Request := retro db select key .vlow

def commandVPos (value : Bytes) : Option Request :=
  if checkValidPos value then simpleRetro db select key .vpos value else none

def commandVResize (value : Bytes) : Option Request :=
  if checkValidPos value then simple db select key .vresize value else none

/-! ## Maps and multimaps -/

def commandHSet (hesh value : Bytes) : Option Request :=
  if checkFormat value then simpleHesh db select key .hset hesh value else none

def commandHGet (hesh : Bytes) : Option Request := heshRetro db select key .hget hesh
def commandHStrlen (hesh : Bytes) : Option Request := heshRetro db select key .hstrlen hesh
def commandHDel (hesh : Bytes) : Option Request := heshRetro db select key .hdel hesh
def commandHCount : Option Request := (retro db select key .hlist).map fun r => { r with flags := .count }

/-- The hash of MDEL goes through `stripe`. -/
def commandMDel (hesh : Bytes) : Option Request :=
  if keyValidator hesh then simple db select key .mdel hesh else none

/-! ## Accepted parameters -/

section
variable {db : Bytes} {select : ℕ} {key hesh value : Bytes} {cls : QueryClass} {r : Request}

theorem retro_some : retro db select key cls = some r ↔
    keyValidator key = true ∧ { cls, database := db, key, select } = r := by
  rw [retro, Option.ite_none_right_eq_some, Option.some.injEq]

theorem simpleRetro_some : simpleRetro db select key cls value = some r ↔
    keyValidator key = true ∧ { cls, database := db, key, select, value } = r := by
  simp only [simpleRetro, Option.map_eq_some_iff, retro_some]
  constructor
  · rintro ⟨_, ⟨valid, rfl⟩, rfl⟩
    exact ⟨valid, rfl⟩
  · rintro ⟨valid, rfl⟩
    exact ⟨_, ⟨valid, rfl⟩, rfl⟩

theorem simpleChecked_some : simpleChecked db select key cls value = some r ↔
    checkFormat value = true ∧ keyValidator key = true ∧ { cls, database := db, key, select, value := stripe value } = r := by
  rw [simpleChecked, Option.ite_none_right_eq_some, simple, simpleRetro_some]

theorem heshRetro_some : heshRetro db select key cls hesh = some r ↔
    keyValidator hesh = true ∧ keyValidator key = true ∧ { cls, database := db, key, select, hesh } = r := by
  simp only [heshRetro, Option.ite_none_right_eq_some, Option.map_eq_some_iff, retro_some]
  constructor
  · rintro ⟨hash, _, ⟨valid, rfl⟩, rfl⟩
    exact ⟨hash, valid, rfl⟩
  · rintro ⟨hash, valid, rfl⟩
    exact ⟨hash, _, ⟨valid, rfl⟩, rfl⟩

theorem simpleHesh_some : simpleHesh db select key cls hesh value = some r ↔ keyValidator hesh = true ∧
    keyValidator key = true ∧ { cls, database := db, key, select, hesh, value := stripe value } = r := by
  simp only [simpleHesh, Option.map_eq_some_iff, heshRetro_some]
  constructor
  · rintro ⟨_, ⟨hash, valid, rfl⟩, rfl⟩
    exact ⟨hash, valid, rfl⟩
  · rintro ⟨hash, valid, rfl⟩
    exact ⟨_, ⟨hash, valid, rfl⟩, rfl⟩

end

end

/-! ## Positions -/

theorem all_of_checkValidPos {number : Bytes} (valid : checkValidPos number = true) : ∀ c ∈ number, isDigit c = true := by
  simp only [checkValidPos, Bool.and_eq_true, List.all_eq_true] at valid
  exact valid.2

/-- A position that has no 32 bits is read as 0. -/
theorem convtoUnsigned_pos {number : Bytes} (valid : checkValidPos number = true) :
    convtoUnsigned number = if digitsValue number < 2 ^ 32 then digitsValue number else 0 := by
  rw [convtoUnsigned, readDigits_digits (all_of_checkValidPos valid)]
  by_cases empty : number = []
  · subst empty
    rfl
  · by_cases small : digitsValue number < 2 ^ 32
    · rw [if_pos small]
      exact if_neg fun large => large.elim empty (Nat.not_le.mpr small)
    · rw [if_neg small]
      exact if_pos (.inr (Nat.not_lt.mp small))

/-- Positions have no quotes to lose. -/
theorem stripe_pos {number : Bytes} (valid : checkValidPos number = true) : stripe number = number := by
  have digits : isNumber number true = true := by
    rw [isNumber_eq, List.all_eq_true]
    intro c here
    have digit := all_of_checkValidPos valid c ((List.dropWhile_suffix _).subset here)
    rw [isNumeral, digit, Bool.or_true]
  rw [stripe, if_pos digits]

end BerylDB.Store
