import BerylDB.DeadlineTexts
import BerylDB.Paging

/-! # Parameters of the commands

What `CommandHandler::Execute` checks before it calls a handler: the format of a value, and the limits of a list. -/
namespace BerylDB.Store
open Text

/-- `is_correct`. -/
def isCorrect (str : Bytes) : Bool := str.head? == some 34 && str.getLast? == some 34

/-- `CheckFormat`. -/
def checkFormat (value : Bytes) : Bool := value ≠ [] && (value.length = 1 || isNumber value true || isCorrect value)

def isZeroOrGreat (str : Bytes) : Bool := isNumber str false && (str = lit "0" || str.all isDigit)

def isZeroOrGreatOrMone (str : Bytes) : Bool :=
  isNumber str false && (str = lit "0" || str = lit "-1" || str.all isDigit)

/-- The offset and the limit of `GetLimits`. -/
def getLimits (max : ℕ) (parameters : List Bytes) : Option (ℤ × ℤ) :=
  let last := parameters.getD (max - 1) []
  let previous := parameters.getD (max - 2) []
  if parameters.length = max - 1 then
    if isZeroOrGreatOrMone previous then some (0, convtoSigned previous) else none
  else if parameters.length = max then
    if isZeroOrGreatOrMone last && isZeroOrGreat previous then some (convtoSigned previous, convtoSigned last) else none
  else some (0, -1)

/-- `stripe` leaves nothing of two quotes only. -/
theorem stripe_eq_nil {arg : Bytes} (format : checkFormat arg = true) : stripe arg = [] ↔ arg = [34, 34] := by
  have long : arg ≠ [] := by
    rintro rfl
    exact absurd format (by decide)
  unfold stripe
  constructor
  · intro empty
    split at empty
    · exact absurd empty long
    · split at empty
      · exact absurd empty long
      · rename_i number single
        have quoted : isCorrect arg = true := by simpa [checkFormat, long, single, number] using format
        match arg with
        | [] => exact absurd rfl long
        | [c] => exact absurd rfl single
        | [c, d] => simpa [isCorrect] using quoted
        | c :: d :: e :: rest => simp at empty
  · rintro rfl
    decide

/-! ## Numbers of 32 bits -/

theorem convtoSigned_range (s : Bytes) : -2 ^ 31 ≤ convtoSigned s ∧ convtoSigned s < 2 ^ 31 := by
  unfold convtoSigned
  dsimp only
  split_ifs <;> omega

end BerylDB.Store
