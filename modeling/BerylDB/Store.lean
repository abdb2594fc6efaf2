import BerylDB.Text
import BerylDB.Timetable
import Mathlib.Logic.Function.Basic
import Std.Data.ExtTreeMap

/-! # Databases and the two timed lists

A database is an ordered map from byte strings to byte strings.  `writable` says whether RocksDB takes a
write, and a write batch is one function on the map.  Databases are told apart by their names. -/
namespace BerylDB.Store
open Text

abbrev Rows := Std.ExtTreeMap Bytes Bytes

def intKey : Bytes := lit "1"
def intMap : Bytes := lit "2"
def intList : Bytes := lit "3"
def intGeo : Bytes := lit "4"
def intMmap : Bytes := lit "5"
def intVector : Bytes := lit "6"
def intExpire : Bytes := lit "8"
def intFuture : Bytes := lit "9"
def processNull : Bytes := lit "NULL"

def typeRegs : List Bytes := [intList, intKey, intGeo, intMap, intMmap, intVector, intExpire, intFuture]

/-- The registered types that hold data. -/
def dataTypes : List Bytes := [intList, intKey, intGeo, intMap, intMmap, intVector]

/-- `to_bin(key) + ":" + select + ":" + type`. -/
def rowName (key select type : Bytes) : Bytes := toBin key ++ 58 :: (select ++ 58 :: type)

/-- The row of a key in a numbered select. -/
def keyRow (key : Bytes) (select : ℕ) (type : Bytes) : Bytes := rowName key (convtoString select) type

/-- The type text of the expiry and future rows, which also names the database. -/
def ownedType (type database : Bytes) : Bytes := type ++ 58 :: database

def expireRow (key : Bytes) (select : ℕ) (database : Bytes) : Bytes := keyRow key select (ownedType intExpire database)
def futureRow (key : Bytes) (select : ℕ) (database : Bytes) : Bytes := keyRow key select (ownedType intFuture database)

structure Database where
  rows : Rows
  closing : Bool
  writable : Bool

structure ExpireEntry where
  database : Bytes
  key : Bytes
  select : ℕ
  schedule : ℤ
deriving DecidableEq

structure FutureEntry where
  database : Bytes
  key : Bytes
  select : ℕ
  schedule : ℤ
  value : Bytes
deriving DecidableEq

structure Kernel where
  databases : Bytes → Database
  expires : List ExpireEntry
  futures : List FutureEntry
  now : ℤ
  keepExpires : Bool
  keepFutures : Bool

def ExpireEntry.name (e : ExpireEntry) : Bytes × Bytes × ℕ := (e.database, e.key, e.select)
def FutureEntry.name (e : FutureEntry) : Bytes × Bytes × ℕ := (e.database, e.key, e.select)

namespace Kernel

def rows (k : Kernel) (db : Bytes) : Rows := (k.databases db).rows

def get (k : Kernel) (db row : Bytes) : Option Bytes := (k.rows db)[row]?

/-- `rocksdb::DB::Write`, and whether its status is ok. -/
def write (k : Kernel) (db : Bytes) (batch : Rows → Rows) : Kernel × Bool :=
  let d := k.databases db
  if d.writable then ({ k with databases := Function.update k.databases db { d with rows := batch d.rows } }, true)
  else (k, false)

def put (k : Kernel) (db row value : Bytes) : Kernel × Bool := k.write db fun rows => rows.insert row value

def erase (k : Kernel) (db row : Bytes) : Kernel := (k.write db fun rows => rows.erase row).1

/-- `ExpireManager::GetTIME`. -/
def expireTime (k : Kernel) (db key : Bytes) (select : ℕ) : ℤ :=
  match Timetable.lookup ExpireEntry.name (db, key, select) k.expires with
  | some e => toSigned e.schedule
  | none => -1

/-- `ExpireManager::Delete`. -/
def deleteExpire (k : Kernel) (db key : Bytes) (select : ℕ) : Kernel :=
  { k with expires := Timetable.delete ExpireEntry.name (db, key, select) k.expires }

/-- `ExpireManager::Add`. -/
def addExpire (k : Kernel) (db : Bytes) (schedule : ℤ) (key : Bytes) (select : ℕ) (epoch : Bool) : Kernel :=
  if schedule < 0 then k
  else
    let k := if k.expireTime db key select > 0 then k.deleteExpire db key select else k
    let entry := ⟨db, key, select, if epoch then schedule else k.now + schedule⟩
    { k with expires := Timetable.add ExpireEntry.schedule entry k.expires }

/-- `ExpireManager::PreDBClose`. -/
def closeExpires (k : Kernel) (db : Bytes) : Kernel :=
  { k with expires := k.expires.filter fun e => e.database ≠ db }

/-- The entries that `ExpireManager::Flush(TIME)` pushes a delete query for. -/
def dueExpires (k : Kernel) (time : ℤ) : List ExpireEntry := k.expires.takeWhile fun e => e.schedule < time

/-- `FutureManager::GetTIME`. -/
def futureTime (k : Kernel) (db key : Bytes) (select : ℕ) : ℤ :=
  match Timetable.lookup FutureEntry.name (db, key, select) k.futures with
  | some e => toSigned e.schedule
  | none => -1

/-- `FutureManager::Delete`. -/
def deleteFuture (k : Kernel) (db key : Bytes) (select : ℕ) : Kernel :=
  { k with futures := Timetable.delete FutureEntry.name (db, key, select) k.futures }

/-- `FutureManager::Add`; the new entry is given no value. -/
def addFuture (k : Kernel) (db : Bytes) (schedule : ℤ) (key : Bytes) (select : ℕ) (epoch : Bool) : Kernel :=
  if schedule < 0 then k
  else
    let k := if k.futureTime db key select > 0 then k.deleteFuture db key select else k
    let entry := ⟨db, key, select, if epoch then schedule else k.now + schedule, []⟩
    { k with futures := Timetable.add FutureEntry.schedule entry k.futures }

/-- `FutureManager::PreDBClose`. -/
def closeFutures (k : Kernel) (db : Bytes) : Kernel :=
  { k with futures := k.futures.filter fun e => e.database ≠ db }

end Kernel

end BerylDB.Store
