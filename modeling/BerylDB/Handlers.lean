import BerylDB.Store

/-! # Stored containers

`ListHandler` and `VectorHandler` have the same methods, over `std::list` and over `std::vector`; the two
`Remove` differ, and only a list has `PopAll`, `RPOP` and `FPOP`, only a vector `Sum`. -/
namespace BerylDB.Store
open Text

/-- The floating point arithmetic, `CalculateDistance`, `IntRand`, whose `n`-th draw is `intRand n`, and the map that
`casemapping` chose. -/
structure Platform where
  Real : Type
  convtoNum : Bytes → Real
  convtoString : Real → Bytes
  ofNat : ℕ → Real
  add : Real → Real → Real
  sub : Real → Real → Real
  mul : Real → Real → Real
  div : Real → Real → Real
  sqrt : Real → Real
  trunc : Real → Real
  toFloat : Real → Real
  lt : Real → Real → Bool
  le : Real → Real → Bool
  calculateDistance : Real → Real → Real → Real → Real
  intRand : ℕ → ℕ → ℕ → ℕ
  charmap : CharMap

inductive HandlerMsg where
  | notFound | ok | invalid
deriving DecidableEq

/-- `std::string::operator<=`. -/
def bytesLe (a b : Bytes) : Bool := compare a b != .gt

namespace ListHandler

def add (items : List Bytes) (key : Bytes) : List Bytes × HandlerMsg :=
  if key = [] then (items, .invalid) else (items ++ [key], .ok)

def create (load : Bytes) : List Bytes := (colonTokens load).foldl (fun items mask => (add items (toStr mask)).1) []

def asString (items : List Bytes) : Bytes := items.flatMap fun key => toBin key ++ [58]

def popFront (items : List Bytes) : List Bytes := items.tail
def popBack (items : List Bytes) : List Bytes := items.dropLast
def exist (items : List Bytes) (key : Bytes) : Bool := items.contains key
def repeats (items : List Bytes) (word : Bytes) : ℕ := items.count word
def count (items : List Bytes) : ℕ := items.length
def isNumeric (items : List Bytes) : Bool := items.all fun item => isNumber item true

/-- `Index`: `none` for an empty container, where the code builds a string from a null pointer. -/
def index (items : List Bytes) (pos : ℕ) : Option (Bytes × HandlerMsg) :=
  if items = [] then none
  else
    match items[pos]? with
    | some item => some (item, .ok)
    | none => some ([], .notFound)

def front (items : List Bytes) : Bytes × HandlerMsg :=
  match items.head? with
  | some item => (item, .ok)
  | none => ([], .notFound)

def back (items : List Bytes) : Bytes × HandlerMsg :=
  match items.getLast? with
  | some item => (item, .ok)
  | none => ([], .notFound)

def rpop (items : List Bytes) : List Bytes × Bytes × HandlerMsg := (items.dropLast, back items)
def fpop (items : List Bytes) : List Bytes × Bytes × HandlerMsg := (items.tail, front items)

def popAll (items : List Bytes) (key : Bytes) : List Bytes :=
  if key = [] then items else if items.length = 1 then [] else items.filter (· ≠ key)

def remove (items : List Bytes) (key : Bytes) : List Bytes := items.erase key

/-- `resize` fills up with empty strings. -/
def resize (items : List Bytes) (size : ℕ) : List Bytes :=
  items.take size ++ List.replicate (size - items.length) []

def sort (items : List Bytes) : List Bytes := items.mergeSort bytesLe

variable (P : Platform)

def find (items : List Bytes) (key : Bytes) : List Bytes := items.filter fun item => matchMask P.charmap item key

def sum (items : List Bytes) : P.Real :=
  items.foldl (fun value item => P.add value (P.convtoNum item)) (P.ofNat 0)

def getSMA (items : List Bytes) : P.Real := P.div (sum P items) (P.ofNat items.length)

def getHigh (items : List Bytes) : P.Real :=
  items.foldl (fun value item => if P.lt value (P.convtoNum item) then P.convtoNum item else value) (P.ofNat 0)

/-- `GetLow`; an empty container has no front. -/
def getLow (items : List Bytes) : Option P.Real :=
  items.head?.map fun front =>
    items.foldl (fun value item => if P.lt (P.convtoNum item) value then P.convtoNum item else value)
      (P.convtoNum front)

end ListHandler

/-- `VectorHandler::Create`. -/
def VectorHandler.create (load : Bytes) : List Bytes := ListHandler.create load

/-- `VectorHandler::as_string`. -/
def VectorHandler.asString (items : List Bytes) : Bytes := ListHandler.asString items

/-- `VectorHandler::Remove`. -/
def VectorHandler.remove (items : List Bytes) (key : Bytes) : List Bytes :=
  if key = [] then items else if items.length = 1 then [] else items.erase key

abbrev MapMap := Std.ExtTreeMap Bytes Bytes

namespace MapHandler

def add (map : MapMap) (key value : Bytes) : MapMap × HandlerMsg :=
  if key = [] then (map, .invalid) else (map.insert key value, .ok)

def create (load : Bytes) : MapMap :=
  (colonTokens load).foldl (fun map mask =>
    let (path, file) := cutAt 47 mask
    (add map (toStr path) (toStr file)).1) ∅

def asString (map : MapMap) : Bytes := map.toList.flatMap fun (key, value) => toBin key ++ 47 :: (toBin value ++ [58])

def get (map : MapMap) (key : Bytes) : Bytes × HandlerMsg :=
  match map[key]? with
  | some value => (value, .ok)
  | none => ([], .notFound)

def exists' (map : MapMap) (word : Bytes) : Bool := map.contains word

def remove (map : MapMap) (key : Bytes) : MapMap :=
  if key = [] then map else if map.size = 1 then ∅ else map.erase key

def count (map : MapMap) : ℕ := map.size
def getValues (map : MapMap) : List Bytes := map.toList.map (·.2)

end MapHandler

abbrev MultiMap := List (Bytes × Bytes)

namespace MultiMapHandler

/-- `std::multimap::insert`: behind the entries whose key is not greater. -/
def insert (map : MultiMap) (key value : Bytes) : MultiMap :=
  map.takeWhile (fun e => bytesLe e.1 key) ++ (key, value) :: map.dropWhile fun e => bytesLe e.1 key

def add (map : MultiMap) (key value : Bytes) : MultiMap × HandlerMsg :=
  if key = [] then (map, .invalid) else (insert map key value, .ok)

def create (load : Bytes) : MultiMap :=
  (colonTokens load).foldl (fun map mask =>
    let (path, file) := cutAt 47 mask
    (add map (toStr path) (toStr file)).1) []

def asString (map : MultiMap) : Bytes := map.flatMap fun (key, value) => toBin key ++ 47 :: (toBin value ++ [58])

def exists' (map : MultiMap) (word : Bytes) : Bool := map.any fun e => e.1 == word
def count (map : MultiMap) : ℕ := map.length

def remove (map : MultiMap) (key : Bytes) : MultiMap :=
  if key = [] then map else if map.length = 1 then [] else map.filter fun e => e.1 ≠ key

def repeats (map : MultiMap) (key : Bytes) : ℕ := map.countP fun e => e.1 == key
def getValues (map : MultiMap) : List Bytes := map.map (·.2)
def getVals (map : MultiMap) (key : Bytes) : List Bytes := (map.filter fun e => e.1 == key).map (·.2)

end MultiMapHandler

end BerylDB.Store
