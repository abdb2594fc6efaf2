import BerylDB.Handlers
import BerylDB.Query

/-! # Scans over the rows and paged replies

A `Run` is one of three kinds: it only answers, it also writes or deletes the row `dest`, or it does more. -/
namespace BerylDB.Store
open Text

/-- What is done to the row `dest`. -/
inductive Effect where
  | none | put (value : Bytes) | delete
deriving DecidableEq

def Kernel.apply (k : Kernel) (db dest : Bytes) : Effect → Kernel
  | .none => k
  | .put value => (k.put db dest value).1
  | .delete => k.erase db dest

abbrev Reader := Kernel → QueryBase → QueryBase
abbrev Writer := Kernel → QueryBase → Effect × QueryBase
abbrev Runner := Kernel → QueryBase → Kernel × QueryBase

/-- `Write(dest, value)`, then `SetOK` or `DBL_UNABLE_WRITE`. -/
def writeDest (k : Kernel) (q : QueryBase) (value : Bytes) : Effect × QueryBase :=
  (.put value, if (k.databases q.database).writable then q.setOK else q.accessSet .unableWrite)

def flag (b : Bool) : Bytes := if b then lit "1" else lit "0"

def iterLimit : ℕ := 50

/-- The counters of a paged reply: `result` is the part being filled, `sent` the parts attached. -/
structure Paging (α : Type) where
  total : ℕ := 0
  aux : ℕ := 0
  tracker : ℕ := 0
  result : List α := []
  sent : List (ℕ × List α) := []

namespace Paging

variable {α : Type}

def attach (p : Paging α) : Paging α :=
  { p with tracker := p.tracker + 1, sent := p.sent ++ [(p.tracker + 1, p.result)] }

def count (p : Paging α) : Paging α := { p with total := p.total + 1 }

def collect (insert : List α → α → List α) (p : Paging α) (item : α) : Paging α :=
  { p with aux := p.aux + 1, result := insert p.result item }

/-- The loop over what a reply lists, and whether it was left with `break`. -/
def loop (insert : List α → α → List α) (offset limit : ℤ) : List α → Paging α → Paging α × Bool
  | [], p => (p, false)
  | item :: items, p =>
    let push : Paging α :=
      let p := p.collect insert item
      if p.aux % iterLimit = 0 then { p.attach with result := [] } else p
    if limit ≠ -1 ∧ offset ≤ p.total then
      if p.aux < limit then
        if push.aux = limit then (push, true) else loop insert offset limit items push.count
      else loop insert offset limit items p.count
    else if limit = -1 then loop insert offset limit items push.count
    else loop insert offset limit items p.count

/-- The same loop where a full part makes the code clear the container it walks through, not the part:
`none` when the walk goes on after that. -/
def loopCleared (insert : List α → α → List α) (offset limit : ℤ) : List α → Paging α → Option (Paging α)
  | [], p => some p
  | item :: items, p =>
    let p' := p.collect insert item
    let full := p'.aux % iterLimit = 0
    let push := if full then p'.attach else p'
    if limit ≠ -1 ∧ offset ≤ p.total then
      if p.aux < limit then
        if push.aux = limit then some push
        else if full then none else loopCleared insert offset limit items push.count
      else loopCleared insert offset limit items p.count
    else if limit = -1 then if full then none else loopCleared insert offset limit items push.count
    else loopCleared insert offset limit items p.count

end Paging

def pushBack (items : List Bytes) (item : Bytes) : List Bytes := items ++ [item]
def insertPair (items : MultiMap) (item : Bytes × Bytes) : MultiMap := MultiMapHandler.insert items item.1 item.2

def vectorParts (sent : List (ℕ × List Bytes)) : List Part := sent.map fun part => .vector part.1 part.2
def multimapParts (sent : List (ℕ × MultiMap)) : List Part := sent.map fun part => .multimap part.1 part.2

/-- The walk through the tokens of a row name: the key, unless one of the first three tokens is refused.
A token that is missing is not checked. -/
def scanKey (accepts : Bytes → Bool) (select type : Bytes) (names : List Bytes) : Option Bytes :=
  let key := (names[0]?.map toStr).getD []
  if names[0]?.all (fun name => accepts (toStr name)) && names[1]?.all (· == select) && names[2]?.all (· == type)
  then some key else none

/-- A reply that lists `items`; `stopped` says that `CheckIterator` fails behind the last of them. -/
def listItems (q : QueryBase) (items : List Bytes) (stopped : Bool) : QueryBase :=
  let (p, broke) := Paging.loop pushBack q.offset q.limit items {}
  let q := { q with attached := q.attached ++ vectorParts p.sent }
  if !broke && stopped then q.accessSet .interrupt
  else { q with subresult := p.tracker + 1, counter := p.aux, vecData := p.result }.setOK

/-- The end of a scan that lists keys. -/
def listScanned (k : Kernel) (q : QueryBase) (keys : List Bytes) : QueryBase := listItems q keys (q.interrupted k)

/-- KEYS and its siblings: the keys of one type that match the pattern `key`. -/
def scanType (P : Platform) (type : Bytes) : Reader := fun k q =>
  listScanned k q <| (q.scanned k).filterMap fun row =>
    scanKey (matchMask P.charmap · q.key) (convtoString q.select) type (colonTokens row.1)

/-- LGET and its siblings, with the flags CORE and COUNT. -/
def flagged (q : QueryBase) (items : List Bytes) (paged : QueryBase) : QueryBase :=
  if q.flags = .core then { q with subresult := 1, counter := items.length, vecData := items }.setOK
  else if q.flags = .count then { q with subresult := 1, counter := items.length }.setOK
  else paged

def pageVector (q : QueryBase) (items : List Bytes) : QueryBase :=
  let p := (Paging.loop pushBack q.offset q.limit items {}).1
  { q with
    subresult := p.tracker + 1, counter := p.total, vecData := p.result,
    attached := q.attached ++ vectorParts p.sent }.setOK

/-- A walk that goes on through a cleared container never gets to its reply. -/
def pageCleared (q : QueryBase) (items : List Bytes) : QueryBase :=
  match Paging.loopCleared pushBack q.offset q.limit items {} with
  | some p =>
    { q with
      subresult := p.tracker + 1, counter := p.total, vecData := p.result,
      attached := q.attached ++ vectorParts p.sent }.setOK
  | none => q

def pagePairsCleared (q : QueryBase) (items : MultiMap) : QueryBase :=
  match Paging.loopCleared insertPair q.offset q.limit items {} with
  | some p =>
    { q with
      subresult := p.tracker + 1, counter := p.total, mmap := p.result,
      attached := q.attached ++ multimapParts p.sent }.setOK
  | none => q

end BerylDB.Store
