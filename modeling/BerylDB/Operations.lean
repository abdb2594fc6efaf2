import BerylDB.Scans

/-! # Commands on any type

The routed queries of the `*_hints.cpp` files, the futures of `etc.cpp` and the rest of `operation.cpp`. -/
namespace BerylDB.Store.Run
open Text QueryBase

/-! ## Renaming and copying -/

/-- RENAME and RENAMENX have the same body. -/
def renameBody : Runner := fun k q =>
  let newdest := keyRow q.value q.select q.identified
  let ttl := q.isExpiring k
  if q.identified = intKey ∧ ttl > 0 then
    let q := { q with id := ttl.toNat }
    let stats := q.swapWithExpire k newdest q.dest (q.destValue k) q.select q.value q.id q.key
    (stats.1, if stats.2 then q.setOK else q.accessSet .batchFailed)
  else
    let stats := q.swap k newdest q.dest (q.destValue k)
    (stats.1, if stats.2 then q.setOK else q.accessSet .batchFailed)

def rename : Runner := renameBody
def renamenx : Runner := renameBody

/-- COPY writes the expiry row first and never calls `SetOK`. -/
def copy : Runner := fun k q =>
  let value := q.destValue k
  let ttl := q.isExpiring k
  let k := if q.identified = intKey ∧ ttl > 0 then q.writeExpire k q.value q.select ttl.toNat q.database else k
  ((k.put q.database (keyRow q.value q.select q.identified) value).1, q)

/-- The row names of MOVE and CLONE hold the text of the select as it was given. -/
def move : Runner := fun k q =>
  let newdest := rowName q.key q.value q.identified
  let ttl := q.isExpiring k
  if q.identified = intKey ∧ ttl > 0 then
    let q := { q with id := ttl.toNat }
    let lookup := rowName q.key q.value (ownedType intExpire q.database)
    let value := q.destValue k
    let stats := k.write q.database fun rows =>
      ((rows.insert newdest value).erase q.dest).insert lookup (convtoString q.id)
    if stats.2 then
      ((stats.1.deleteExpire q.database q.key q.select).addExpire q.database (toSigned q.id) q.key
        (convtoUnsigned q.value) true, q.setOK)
    else (stats.1, q.accessSet .batchFailed)
  else
    let stats := q.swap k newdest q.dest (q.destValue k)
    (stats.1, if stats.2 then q.setOK else q.accessSet .batchFailed)

/-- The copy of an expiring key gets the text of the select for its value. -/
def clone : Runner := fun k q =>
  let newdest := rowName q.key q.value q.identified
  let ttl := q.isExpiring k
  if q.identified = intKey ∧ ttl > 0 then
    let q := { q with id := ttl.toNat }
    (q.expireBatch k newdest q.value q.key (convtoUnsigned q.value) q.id, q.setOK)
  else ((k.put q.database newdest (q.destValue k)).1, q.setOK)

def transfer (target : Bytes) : Runner := fun k q =>
  let value := q.destValue k
  let ttl := q.isExpiring k
  let k := if q.identified = intKey ∧ ttl > 0 then q.writeExpire (q.delExpire k) q.key q.select ttl.toNat target else k
  let k := (k.put target (keyRow q.key q.select q.identified) value).1
  (k.erase q.database q.dest, q)

/-! ## Deleting -/

def del : Runner := fun k q =>
  let ttl := q.isExpiring k
  if q.identified = intKey ∧ ttl > 0 then
    let q := { q with id := ttl.toNat }
    let stats := k.write q.database fun rows => (rows.erase q.dest).erase (expireRow q.key q.select q.database)
    if stats.2 then (stats.1.deleteExpire q.database q.key q.select, q.setOK)
    else (stats.1, q.accessSet .batchFailed)
  else (k.erase q.database q.dest, q.setOK)

/-- The rows whose second token is the text `key`, or that have no second token. -/
def sflushRows (k : Kernel) (q : QueryBase) : List Bytes :=
  (q.scanned k).filterMap fun row => if (colonTokens row.1)[1]?.all (· == q.key) then some row.1 else none

def sflush : Runner := fun k q =>
  ((sflushRows k q).foldl (fun k row => k.erase q.database row) k,
    if q.interrupted k then q.accessSet .interrupt else q.setOK)

def dbreset : Runner := fun k q =>
  let d := k.databases q.database
  let k := { k with databases := Function.update k.databases q.database { d with closing := true } }
  ((k.closeExpires q.key).closeFutures q.key, q)

/-! ## Futures -/

def future : Runner := fun k q => (q.writeFuture k q.key q.select q.id q.value, q.setOK)

/-- `future_exec_query`, for the timer and for EXEC. -/
def futureExec : Runner := fun k q =>
  match k.get q.database (futureRow q.key q.select q.database) with
  | some value =>
    let q := { q with dest := keyRow q.key q.select intKey }
    let stats := k.put q.database q.dest (toBin (cutAt 58 value).2)
    (q.delFuture stats.1, if stats.2 then q.setOK else q.accessSet .unableWrite)
  | none => (q.delFuture k, q.accessSet .notFound)

def futureDel : Runner := fun k q =>
  match k.get q.database (futureRow q.key q.select q.database) with
  | some _ => (q.delFuture k, q.setOK)
  | none => (k, q.accessSet .notFound)

/-- A fourth token with another database name does not make the code skip the row. -/
def futureListRow (q : QueryBase) (k : Kernel) (row : Bytes × Bytes) : Kernel :=
  let names := colonTokens row.1
  if !names[2]?.all (· == intFuture) then k
  else if k.keepFutures then
    k.addFuture q.database (convtoSigned (cutAt 58 row.2).1) ((names[0]?.map toStr).getD [])
      (convtoUnsigned (names[1]?.getD [])) true
  else k.erase q.database row.1

def futureList : Runner := fun k q =>
  ((q.scanned k).foldl (futureListRow q) k, if q.interrupted k then q.accessSet .interrupt else q)

/-! ## Questions -/

def exists' : Reader := fun _ q =>
  (q.respond (flag (q.identified ≠ [] && q.identified ≠ processNull))).setOK

def type : Reader := fun _ q => q.setOK

/-- The names of TOUCH and NTOUCH that have, or have not, a value; they have no `base_request`. -/
def touch : Reader := fun k q =>
  let touched := (spaceTokens q.value).filter fun name => q.checkDest k q.select name [] q.database ≠ 0
  { q with counter := touched.length }.setOK

def ntouch : Reader := fun k q =>
  let missing := (spaceTokens q.value).filter fun name => q.checkDest k q.select name [] q.database = 0
  { q with counter := missing.length }.setOK

def inSelect (q : QueryBase) (row : Bytes × Bytes) : Bool :=
  (colonTokens row.1)[1]?.all (· == convtoString q.select)

def total : Reader := fun k q =>
  if q.interrupted k then q.accessSet .interrupt
  else { q with counter := ((q.scanned k).filter (inSelect q)).length }.setOK

/-- `result[token]++` for the third token of each row, from the registered types at 0. -/
def countTypes (rows : List (Bytes × Bytes)) : List (Bytes × ℕ) :=
  let start : Std.ExtTreeMap Bytes ℕ := typeRegs.foldl (fun result type => result.insert type 0) ∅
  (rows.foldl (fun result row =>
    match (colonTokens row.1)[2]? with
    | some token => result.insert token (result.getD token 0 + 1)
    | none => result) start).toList

def list : Reader := fun k q =>
  if q.interrupted k then q.accessSet .interrupt
  else { q with nmap := countTypes ((q.scanned k).filter (inSelect q)) }.setOK

def glist : Reader := fun k q =>
  if q.interrupted k then q.accessSet .interrupt else { q with nmap := countTypes (q.scanned k) }.setOK

/-- `test_dump_query` prints the row names. -/
def testDump : Reader := fun k q => if q.interrupted k then q.accessSet .interrupt else q

/-- The size in the unit of the reply, as text. -/
def dbsize (P : Platform) : Reader := fun k q =>
  if q.interrupted k then q.accessSet .interrupt
  else
    let bytes := (q.scanned k).foldl (fun size row => size + (row.1.length + 2) + (row.2.length + 2)) 0
    let kilo (size : P.Real) := P.div size (P.ofNat 1024)
    let round (size : P.Real) := P.convtoString (P.div (P.trunc (P.mul size (P.ofNat 10))) (P.ofNat 10))
    let mega := P.toFloat (kilo (kilo (P.ofNat bytes)))
    let q :=
      if P.le mega (P.ofNat 1) then { q with size := round (kilo (P.ofNat bytes)) }.respond (lit "KB")
      else if P.lt mega (P.ofNat 1024) then { q with size := round mega }.respond (lit "MB")
      else if P.lt (P.ofNat 1024) mega then
        { q with size := round (kilo (kilo (kilo (P.ofNat bytes)))) }.respond (lit "GB")
      else { q with size := round (P.ofNat 0) }
    q.setOK

/-! ## Differences -/

/-- `CompareList` and `CompareVector`. -/
def compareList (list list2 : List Bytes) : List Bytes := list.filter fun item => !list2.contains item

/-- `CompareMap` and `CompareMultiMap`: a key is kept when some key of the other map differs from it. -/
def compareMap (list list2 : List Bytes) : List Bytes := list.filter fun item => list2.any (· ≠ item)

/-- The items of the difference; `CheckIterator` is asked before each of them. -/
def listDiff (q : QueryBase) (items : List Bytes) : QueryBase :=
  match q.interrupt with
  | some n => listItems q (items.take n) (n < items.length)
  | none => listItems q items false

def diff : Reader := fun k q =>
  let load := q.destValue k
  match k.get q.database (keyRow q.value q.select q.identified) with
  | none => if dataTypes.contains q.identified then q.accessSet .notFound else q
  | some value =>
    if q.identified = intKey then q.respond (flag (load ≠ value))
    else if q.identified = intMap then
      listDiff q (compareMap ((MapHandler.create value).toList.map (·.1)) ((MapHandler.create load).toList.map (·.1)))
    else if q.identified = intMmap then
      listDiff q (compareMap ((MultiMapHandler.create value).map (·.1)) ((MultiMapHandler.create load).map (·.1)))
    else if q.identified = intGeo then q.respond (flag (load = value))
    else if q.identified = intList ∨ q.identified = intVector then
      listDiff q (compareList (ListHandler.create value) (ListHandler.create load))
    else q

end BerylDB.Store.Run
