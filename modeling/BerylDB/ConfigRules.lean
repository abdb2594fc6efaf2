import BerylDB.Text

/-! # Rules of the configuration

`config_rule` of `configprocess.h` and what `stackconf.cpp` reads of one. -/
namespace BerylDB.Config
open Text

/-- `file_config_items`: keys and values in the order of their map. -/
abbrev Items := List (Bytes × Bytes)

/-- `config_rule::read_string`. -/
def readString (items : Items) (key : Bytes) (allowLf : Bool) : Option Bytes :=
  (items.find? fun item => item.1 = key).map fun item =>
    if allowLf then item.2 else item.2.map fun n => if n = 10 then 32 else n

/-- `config_rule::as_string` with the lengths that it has by default. -/
def asString (items : Items) (key default : Bytes) : Bytes :=
  match readString items key false with
  | none => default
  | some res => if res.length ≤ 4294967295 then res else default

end BerylDB.Config
