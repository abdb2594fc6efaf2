import BerylDB.Store

/-! # Queries

The members of `QueryBase` and the helpers of `query.cpp`.  A part of a reply that `AttachResult` sends
ahead of the final one is appended to `attached`. -/
namespace BerylDB.Store
open Text

inductive DblCode where
  | none | statusOk | missArgs | notFound | entryExists | statusBroken | notNum | interrupt | invalidType
  | unableWrite | invalidFormat | invalidRange | entryExpires | batchFailed
deriving DecidableEq

inductive QueryType where
  | rename | copy | type | delete | iter | write | read | expire | exists | skip | move | clone | future
  | futureRun | readAllow | renamenx | diff | lat | long | transfer
deriving DecidableEq

inductive QueryFlags where
  | none | quiet | core | count | global
deriving DecidableEq

inductive StrFunction where
  | toLow | toUpper | toCap
deriving DecidableEq

inductive OpType where
  | none | incr | decr | add | min | avg | div | mult | sqrt
deriving DecidableEq

/-- A partial result: the items of `VecData` or of `mmap`. -/
inductive Part where
  | vector (subresult : ℕ) (items : List Bytes)
  | multimap (subresult : ℕ) (items : List (Bytes × Bytes))
deriving DecidableEq

/-- `mapped` is the loaded `RocksData`; `interrupt` is the number of rows after which `CheckIterator`
answers false. -/
structure QueryBase where
  database : Bytes
  key : Bytes
  select : ℕ
  value : Bytes := []
  hesh : Bytes := []
  id : ℕ := 0
  offset : ℤ := 0
  limit : ℤ := 0
  flags : QueryFlags := .none
  function : StrFunction := .toLow
  operation : OpType := .none
  transfDb : Option Bytes := none
  interrupt : Option ℕ := none
  access : DblCode := .none
  identified : Bytes := []
  dest : Bytes := []
  mapped : Option Bytes := none
  response : Bytes := []
  counter : ℕ := 0
  size : Bytes := []
  subresult : ℕ := 0
  vecData : List Bytes := []
  mmap : List (Bytes × Bytes) := []
  nmap : List (Bytes × ℕ) := []
  attached : List Part := []
  finished : Bool := false
deriving DecidableEq

namespace QueryBase

def accessSet (q : QueryBase) (status : DblCode) : QueryBase := { q with access := status }
def setOK (q : QueryBase) : QueryBase := { q with finished := true }
def respond (q : QueryBase) (response : Bytes) : QueryBase := { q with response }

/-- `Get`: the loaded data when there are any, `none` when the status is not ok. -/
def get (k : Kernel) (q : QueryBase) (row : Bytes) : Option Bytes :=
  if q.mapped.isSome then q.mapped else k.get q.database row

/-- The value that `Get(dest)` leaves in its result. -/
def destValue (k : Kernel) (q : QueryBase) : Bytes := (q.get k q.dest).getD []

/-- The first type a row of the key is found under. -/
def registered (k : Kernel) (db key : Bytes) (select : ℕ) : Option Bytes :=
  typeRegs.find? fun type => (k.get db (keyRow key select type)).isSome

def getRegistry (k : Kernel) (q : QueryBase) (select : ℕ) (key : Bytes) (load : Bool) : QueryBase × Bool :=
  match registered k q.database key select with
  | some type =>
    let dest := keyRow key select type
    ({ q with identified := type, dest, mapped := if load then k.get q.database dest else q.mapped }, true)
  | none => ({ q with identified := processNull }, false)

/-- `CheckDest`: 0 when no type has a value, 1 when `type` has, 2 when another one does. -/
def checkDest (k : Kernel) (q : QueryBase) (select : ℕ) (key type db : Bytes) : ℕ :=
  if db = q.database ∧ select = q.select ∧ q.key = key ∧ type = q.identified then 1
  else
    match typeRegs.find? fun found => (k.get db (keyRow key select found)).getD [] ≠ [] with
    | some found => if found = type then 1 else 2
    | none => 0

/-- `IsExpiring`. -/
def isExpiring (k : Kernel) (q : QueryBase) : ℤ :=
  let ttl := k.expireTime q.database q.key q.select
  if ttl > 0 then ttl else -1

def swap (k : Kernel) (q : QueryBase) (newdest dest value : Bytes) : Kernel × Bool :=
  k.write q.database fun rows => (rows.insert newdest value).erase dest

def swapWithExpire (k : Kernel) (q : QueryBase) (newdest dest value : Bytes) (select : ℕ) (key : Bytes)
    (ttl : ℕ) (oldkey : Bytes) : Kernel × Bool :=
  let stats := k.write q.database fun rows =>
    ((rows.insert newdest value).erase dest).insert (expireRow key select q.database) (convtoString ttl)
  if stats.2 then
    ((stats.1.deleteExpire q.database oldkey select).addExpire q.database (toSigned ttl) key select true, true)
  else stats

def expireBatch (k : Kernel) (q : QueryBase) (dest value key : Bytes) (select ttl : ℕ) : Kernel :=
  let stats := k.write q.database fun rows =>
    (rows.insert (expireRow key select q.database) (convtoString ttl)).insert dest (toBin value)
  if stats.2 then stats.1.addExpire q.database (toSigned ttl) key select true else stats.1

/-- `WriteExpire`: the row goes to the database of the query, whichever database `db` it names. -/
def writeExpire (k : Kernel) (q : QueryBase) (key : Bytes) (select ttl : ℕ) (db : Bytes) : Kernel :=
  let stats := k.put q.database (expireRow key select db) (convtoString ttl)
  if stats.2 then stats.1.addExpire db (toSigned ttl) key select true else stats.1

def writeFuture (k : Kernel) (q : QueryBase) (key : Bytes) (select ttl : ℕ) (value : Bytes) : Kernel :=
  let stats := k.put q.database (futureRow key select q.database) (convtoString ttl ++ 58 :: value)
  if stats.2 then stats.1.addFuture q.database (toSigned ttl) key select true else stats.1

def delFuture (k : Kernel) (q : QueryBase) : Kernel :=
  (k.deleteFuture q.database q.key q.select).erase q.database (futureRow q.key q.select q.database)

def delExpire (k : Kernel) (q : QueryBase) : Kernel :=
  (k.deleteExpire q.database q.key q.select).erase q.database (expireRow q.key q.select q.database)

/-- The rows that an iterator reaches before `CheckIterator` answers false. -/
def scanned (k : Kernel) (q : QueryBase) : List (Bytes × Bytes) :=
  let rows := (k.rows q.database).toList
  match q.interrupt with
  | some n => rows.take n
  | none => rows

def interrupted (k : Kernel) (q : QueryBase) : Bool :=
  match q.interrupt with
  | some n => n < (k.rows q.database).toList.length
  | none => false

end QueryBase

end BerylDB.Store
