import BerylDB.Scans

/-! # Commands on maps, multimaps and places

The `Run` methods of `maps.cpp`, `multis.cpp` and `geo.cpp`. -/
namespace BerylDB.Store.Run
open Text

/-! ## Maps -/

def map (k : Kernel) (q : QueryBase) : MapMap := MapHandler.create (q.destValue k)

/-- A row that could not be created leaves no mark on the query. -/
def hset : Writer := fun k q =>
  if q.value = [] ∨ q.hesh = [] then (.none, q.accessSet .missArgs)
  else
    match q.get k q.dest with
    | none =>
      let (map, last) := MapHandler.add ∅ q.hesh q.value
      if last = .ok then
        (.put (MapHandler.asString map), if (k.databases q.database).writable then q.setOK else q)
      else (.none, q.accessSet .unableWrite)
    | some value =>
      let (map, last) := MapHandler.add (MapHandler.create value) q.hesh q.value
      if last = .ok then writeDest k q (MapHandler.asString map) else (.none, q.accessSet .unableWrite)

def hsetnx : Writer := fun k q =>
  if (q.get k q.dest).isSome && MapHandler.exists' (map k q) q.hesh then (.none, q.accessSet .entryExists)
  else
    let (map, last) := MapHandler.add (map k q) q.hesh q.value
    if last = .ok then
      (.put (MapHandler.asString map), if (k.databases q.database).writable then q.setOK else q)
    else (.none, q.accessSet .unableWrite)

def hexists : Reader := fun k q =>
  if q.hesh = [] then q.accessSet .missArgs
  else (q.respond (flag ((q.get k q.dest).isSome && MapHandler.exists' (map k q) q.hesh))).setOK

def hstrlen : Reader := fun k q =>
  if q.hesh = [] then q.accessSet .missArgs
  else
    match q.get k q.dest with
    | none => q.accessSet .notFound
    | some value =>
      let (item, last) := MapHandler.get (MapHandler.create value) q.hesh
      let q := q.respond (convtoString item.length)
      if last = .ok then q.setOK else q.accessSet .notFound

def hget : Reader := fun k q =>
  if q.hesh = [] then q.accessSet .missArgs
  else
    match q.get k q.dest with
    | none => q.accessSet .notFound
    | some value =>
      let (item, last) := MapHandler.get (MapHandler.create value) q.hesh
      let q := q.respond item
      if last = .ok then q.setOK else q.accessSet .notFound

/-- A field with an empty value is not removed. -/
def hdel : Writer := fun k q =>
  let m := map k q
  let (item, last) := MapHandler.get m q.hesh
  if item = [] ∧ last = .notFound then (.none, q.accessSet .notFound)
  else
    let m := if item = [] then m else MapHandler.remove m q.hesh
    if MapHandler.count m > 0 then writeDest k q (MapHandler.asString m) else (.delete, q.setOK)

def hlist : Reader := fun k q =>
  let fields := (map k q).toList.map (·.1)
  flagged q fields (pageCleared q fields)

def hvals : Reader := fun k q => pageCleared q (MapHandler.getValues (map k q))
def hgetall : Reader := fun k q => pagePairsCleared q (map k q).toList
def hfind (P : Platform) : Reader := scanType P intMap

/-! ## Multimaps -/

def multi (k : Kernel) (q : QueryBase) : MultiMap := MultiMapHandler.create (q.destValue k)

def mset : Writer := fun k q =>
  match q.get k q.dest with
  | none =>
    let (map, last) := MultiMapHandler.add [] q.hesh q.value
    if last = .ok then writeDest k q (MultiMapHandler.asString map) else (.none, q)
  | some value =>
    let (map, last) := MultiMapHandler.add (MultiMapHandler.create value) q.hesh q.value
    if last = .ok then writeDest k q (MultiMapHandler.asString map) else (.none, q.setOK)

def msetnx : Writer := fun k q =>
  match q.get k q.dest with
  | none =>
    let (map, last) := MultiMapHandler.add [] q.hesh q.value
    if last = .ok then writeDest k q (MultiMapHandler.asString map) else (.none, q)
  | some value =>
    let map := MultiMapHandler.create value
    if MultiMapHandler.exists' map q.hesh then (.none, q.accessSet .entryExists)
    else
      let (map, last) := MultiMapHandler.add map q.hesh q.value
      if last = .ok then writeDest k q (MultiMapHandler.asString map) else (.none, q.setOK)

def mdel : Writer := fun k q =>
  let map := MultiMapHandler.remove (multi k q) q.value
  if MultiMapHandler.count map > 0 then writeDest k q (MultiMapHandler.asString map) else (.delete, q.setOK)

def mget : Reader := fun k q =>
  match q.get k q.dest with
  | none => q.accessSet .notFound
  | some value =>
    let hashes := (MultiMapHandler.create value).map (·.1)
    flagged q hashes (pageCleared q hashes)

def mvals : Reader := fun k q => pageCleared q (MultiMapHandler.getValues (multi k q))
def mgetall : Reader := fun k q => pagePairsCleared q (multi k q)
def miter : Reader := fun k q => pageCleared q (MultiMapHandler.getVals (multi k q) q.value)

def mrepeats : Reader := fun k q =>
  (q.respond (convtoString (MultiMapHandler.repeats (multi k q) q.value))).setOK

def mkeys (P : Platform) : Reader := scanType P intMmap

/-! ## Places -/

def geoadd : Writer := fun k q => writeDest k q (toBin q.hesh ++ 58 :: toBin q.value)
def geoaddPub : Writer := fun k q => writeDest k q (toBin q.value ++ 58 :: toBin q.hesh)

def geoaddnx : Writer := fun k q =>
  match q.get k q.dest with
  | some _ => (.none, q.accessSet .entryExists)
  | none =>
    let (effect, q) := writeDest k q (toBin q.hesh ++ 58 :: toBin q.value)
    (effect, q.setOK)

def geoget : Reader := fun k q =>
  let (path, file) := cutAt 58 (q.destValue k)
  (q.respond (toStr path ++ 32 :: toStr file)).setOK

/-- `geoget_custom_query`; `long` says that its type is `QUERY_TYPE_LONG`. -/
def geogetCustom (long : Bool) : Reader := fun k q =>
  let (path, file) := cutAt 58 (q.destValue k)
  (q.respond (toStr (if long then path else file))).setOK

def gkeys (P : Platform) : Reader := scanType P intGeo

/-- `CalculateDistance` between two stored places. -/
def distance (P : Platform) (a b : Bytes) : P.Real :=
  let (path1, file1) := cutAt 58 a
  let (path2, file2) := cutAt 58 b
  P.calculateDistance (P.convtoNum (toStr path1)) (P.convtoNum (toStr file1)) (P.convtoNum (toStr path2))
    (P.convtoNum (toStr file2))

/-- The stored place of a name, empty when there is none. -/
def place (k : Kernel) (q : QueryBase) (name : Bytes) : Bytes :=
  (k.get q.database (keyRow name q.select intGeo)).getD []

def geocalc (P : Platform) : Reader := fun k q =>
  if place k q q.key = [] ∨ place k q q.value = [] then q.accessSet .notFound
  else (q.respond (P.convtoString (distance P (place k q q.key) (place k q q.value)))).setOK

def geodistance (P : Platform) : Reader := fun k q =>
  let first := place k q q.key
  if first = [] then q.accessSet .notFound
  else
    listScanned k q <| (q.scanned k).filterMap fun row =>
      match scanKey (· ≠ q.key) (convtoString q.select) intGeo (colonTokens row.1) with
      | some name => if P.le (distance P first row.2) (P.convtoNum q.value) then none else some name
      | none => none

/-- The rows that GREM deletes.  The first token is passed over while it names the reference place. -/
def georemRows (P : Platform) (k : Kernel) (q : QueryBase) : List Bytes :=
  (q.scanned k).filterMap fun row =>
    let names := (colonTokens row.1).dropWhile fun name => toStr name = q.key
    if (scanKey (fun _ => true) (convtoString q.select) intGeo names).isSome &&
        !P.le (P.convtoNum q.value) (distance P (place k q q.key) row.2)
    then some row.1 else none

def georem (P : Platform) : Runner := fun k q =>
  if place k q q.key = [] then (k, q.accessSet .notFound)
  else
    let rows := georemRows P k q
    (rows.foldl (fun k row => k.erase q.database row) k,
      if q.interrupted k then q.accessSet .interrupt else { q with counter := rows.length }.setOK)

end BerylDB.Store.Run
