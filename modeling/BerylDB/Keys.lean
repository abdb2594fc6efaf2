import BerylDB.Scans

/-! # Commands on keys

The `Run` methods of `keys.cpp`, and of `operation.cpp` where they work on keys. -/
namespace BerylDB.Store.Run
open Text

/-- The text of the key, decoded. -/
def text (k : Kernel) (q : QueryBase) : Bytes := toStr (q.destValue k)

def set : Writer := fun k q => writeDest k q (toBin q.value)

def getSubstr : Writer := fun k q =>
  let q := q.respond (text k q)
  if (q.response.length : ℤ) < (q.offset + q.limit) % 2 ^ 32 then (.none, q.accessSet .invalidRange)
  else
    -- `substr` takes `size_t` arguments, where a negative number is huge, and throws past the end
    let offset := (q.offset % 2 ^ 64).toNat
    let limit := (q.limit % 2 ^ 64).toNat
    if q.response.length < offset then (.none, q)
    else
      let q := q.respond ((q.response.drop offset).take limit)
      writeDest k q (toBin q.response)

def modify : Writer := fun k q =>
  let s := text k q
  let q := q.respond <| match q.function with
    | .toUpper => s.map toUpper
    | .toLow => s.map toLower
    | .toCap => match s with
      | [] => []
      | c :: s => toUpper c :: s
  writeDest k q (toBin q.response)

/-- `count_occur` may not end, and then neither does the query. -/
def getOccurs : Reader := fun k q =>
  (countOccur (text k q) q.value).elim (q.respond (text k q)) fun n => (q.respond (convtoString n)).setOK

def alpha : Reader := fun k q => (q.respond (flag (isAlphaText (text k q)))).setOK

def char : Reader := fun k q =>
  match (text k q)[convtoUnsigned q.value]? with
  | some c => (q.respond [c]).setOK
  | none => q.accessSet .invalidRange

def isnum : Reader := fun k q => (q.respond (flag (isNumber (text k q) true))).setOK

def isbool : Reader := fun k q =>
  let words := [lit "0", lit "1", lit "true", lit "false", lit "on", lit "off"]
  (q.respond (flag (words.contains (text k q)))).setOK

def asbool : Reader := fun k q =>
  let words := [lit "1", lit "true", lit "on"]
  (q.respond (if words.contains (text k q) then lit "true" else lit "false")).setOK

def ismatch (P : Platform) : Reader := fun k q => (q.respond (flag (matchMask P.charmap (text k q) q.value))).setOK
def get : Reader := fun k q => (q.respond (text k q)).setOK
def strlen : Reader := fun k q => (q.respond (convtoString (text k q).length)).setOK

def getdel : Writer := fun k q => (.delete, (q.respond (text k q)).setOK)
def getset : Writer := fun k q => writeDest k (q.respond (text k q)) (toBin q.value)

def setnx : Writer := fun k q =>
  match q.get k q.dest with
  | none => writeDest k q (toBin q.value)
  | some _ => (.none, q.accessSet .entryExists)

/-- The status of the write is not looked at. -/
def settx : Writer := fun k q =>
  if q.isExpiring k < 0 then (.put (toBin q.value), q.setOK) else (.none, q.accessSet .entryExpires)

def append : Writer := fun k q =>
  let q := q.respond (text k q ++ q.value)
  writeDest k q (toBin q.response)

def insert : Writer := fun k q =>
  let s := text k q
  if s.length < q.id then (.none, q.accessSet .invalidRange)
  else
    let q := q.respond (s.take q.id ++ q.value ++ s.drop q.id)
    writeDest k q (toBin q.response)

/-- The switch of `op_query`. -/
def operate (P : Platform) (operation : OpType) (value operand : P.Real) : P.Real :=
  match operation with
  | .incr => P.add value (P.ofNat 1)
  | .decr => P.sub value (P.ofNat 1)
  | .mult => P.mul value operand
  | .avg => P.div (P.add value operand) (P.ofNat 2)
  | .div => P.div value operand
  | .add => P.add value operand
  | .min => P.sub value operand
  | .sqrt => P.sqrt value
  | .none => value

/-- `op_query`; a key that is not there counts as 0. -/
def op (P : Platform) : Writer := fun k q =>
  let operand := if q.value = [] then P.ofNat 0 else P.convtoNum q.value
  let number := ((q.get k q.dest).map toStr).getD (lit "0")
  let q := q.respond (text k q)
  if !isNumber number true then (.none, q.accessSet .notNum)
  else
    let inserting := P.convtoString (operate P q.operation (P.convtoNum number) operand)
    let (effect, q) := writeDest k q (toBin inserting)
    (effect, if q.finished then q.respond inserting else q)

/-! ## Deadlines -/

def setex : Runner := fun k q => (q.expireBatch k q.dest q.value q.key q.select q.id, q.setOK)
def expire : Runner := fun k q => (q.writeExpire k q.key q.select q.id q.database, q.setOK)
def expireat : Runner := fun k q => (q.writeExpire k q.key q.select q.id q.database, q.setOK)
def expireDel : Runner := fun k q => (q.delExpire k, q.setOK)
def getpersist : Runner := fun k q => (q.delExpire k, (q.respond (text k q)).setOK)

def getexp : Runner := fun k q =>
  (q.writeExpire k q.key q.select q.id q.database, (q.respond (text k q)).setOK)

/-! ## Scans -/

def keys (P : Platform) : Reader := scanType P intKey

/-- The rows of the keys that match the pattern `key`, with their names. -/
def matchedKeys (P : Platform) (k : Kernel) (q : QueryBase) : List (Bytes × Bytes) :=
  (q.scanned k).filterMap fun row =>
    (scanKey (matchMask P.charmap · q.key) (convtoString q.select) intKey (colonTokens row.1)).map (row.1, ·)

def count (P : Platform) : Reader := fun k q =>
  if q.interrupted k then q.accessSet .interrupt
  else { q with counter := (matchedKeys P k q).length }.setOK

/-- One row of WDEL: `DelExpire` is for the pattern, not for the name found. -/
def wdelRow (q : QueryBase) (k : Kernel) (found : Bytes × Bytes) : Kernel :=
  q.delExpire ((k.erase q.database found.1).deleteExpire q.database found.2 q.select)

def wdel (P : Platform) : Runner := fun k q =>
  let found := matchedKeys P k q
  (found.foldl (wdelRow q) k,
    if q.interrupted k then q.accessSet .interrupt else { q with counter := found.length }.setOK)

/-- The values that match the pattern, each with its key. -/
def search (P : Platform) : Reader := fun k q =>
  let found := (q.scanned k).filterMap fun row =>
    let value := toStr row.2
    if matchMask P.charmap value q.key then
      (scanKey (fun _ => true) (convtoString q.select) intKey (colonTokens row.1)).map (·, value)
    else none
  let (p, broke) := Paging.loop insertPair q.offset q.limit found {}
  let q := { q with attached := q.attached ++ multimapParts p.sent }
  if !broke && q.interrupted k then q.accessSet .interrupt
  else { q with subresult := p.tracker + 1, counter := p.aux, mmap := p.result }.setOK

/-- The loop of `random_query`: how many keys it saw, the one it holds, and whether it was left with
`break`. -/
def pick (P : Platform) : List Bytes → (draw total : ℕ) → Bytes → ℕ × Bytes × Bool
  | [], _, total, found => (total, found, false)
  | key :: keys, draw, total, found =>
    if found = [] then pick P keys draw (total + 1) key
    else
      let found := if P.intRand draw 0 1 = 0 then key else found
      if P.intRand (draw + 1) 2 1000 = total + 1 then (total + 1, found, true)
      else pick P keys (draw + 2) (total + 1) found

def random (P : Platform) : Reader := fun k q =>
  let keys := (q.scanned k).filterMap fun row =>
    scanKey (fun _ => true) (convtoString q.select) intKey (colonTokens row.1)
  let (total, found, broke) := pick P keys 0 0 []
  if !broke && q.interrupted k then q.accessSet .interrupt
  else if total = 0 ∧ found = [] then q.accessSet .notFound
  else (q.respond found).setOK

/-- Whether `expire_list_query` takes a row for an expiry row of the database. -/
def isExpireRow (db : Bytes) (names : List Bytes) : Bool :=
  names[2]?.all (· == intExpire) && names[3]?.all (· == db)

def expireListRow (q : QueryBase) (k : Kernel) (row : Bytes × Bytes) : Kernel :=
  let names := colonTokens row.1
  if !isExpireRow q.database names then k
  else if k.keepExpires then
    k.addExpire q.database (convtoSigned row.2) ((names[0]?.map toStr).getD [])
      (convtoUnsigned (names[1]?.getD [])) true
  else k.erase q.database row.1

def expireList : Runner := fun k q =>
  ((q.scanned k).foldl (expireListRow q) k, if q.interrupted k then q.accessSet .interrupt else q)

end BerylDB.Store.Run
