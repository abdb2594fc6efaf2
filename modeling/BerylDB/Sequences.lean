import BerylDB.Scans

/-! # Commands on lists and vectors

The `Run` methods of `lists.cpp` and `vectors.cpp`. -/
namespace BerylDB.Store.Run
open Text ListHandler

/-- The row is written back, or deleted when nothing is left; `okOnDelete` says whether `SetOK` follows
the deletion. -/
def store (k : Kernel) (q : QueryBase) (items : List Bytes) (okOnDelete : Bool) : Effect × QueryBase :=
  if ListHandler.count items > 0 then writeDest k q (asString items) else (.delete, if okOnDelete then q.setOK else q)

/-- Most methods give up with `DBL_NOT_FOUND` when `Get` finds no row. -/
def onItems (k : Kernel) (q : QueryBase) (f : List Bytes → QueryBase) : QueryBase :=
  match q.get k q.dest with
  | some value => f (create value)
  | none => q.accessSet .notFound

def onItemsWrite (k : Kernel) (q : QueryBase) (f : List Bytes → Effect × QueryBase) : Effect × QueryBase :=
  match q.get k q.dest with
  | some value => f (create value)
  | none => (.none, q.accessSet .notFound)

/-- The items of methods that do not ask whether `Get` found a row. -/
def items (k : Kernel) (q : QueryBase) : List Bytes := create (q.destValue k)

def answer (q : QueryBase) (item : Bytes × HandlerMsg) : QueryBase :=
  let q := q.respond item.1
  if item.2 = .notFound then q.accessSet .notFound else q.setOK

/-- `convto_string` of a mean, an extreme value or a sum; a container with other texts is refused. -/
def aggregate (P : Platform) (f : List Bytes → Option P.Real) : Reader := fun k q =>
  onItems k q fun items =>
    if !isNumeric items then q.accessSet .invalidRange
    else
      match f items with
      | some value => (q.respond (P.convtoString value)).setOK
      | none => q

/-- LPUSH and VPUSH; `okUnwritten` says that a new row is not asked whether it was written. -/
def push (okUnwritten : Bool) : Writer := fun k q =>
  if q.value = [] then (.none, q.accessSet .missArgs)
  else
    match q.get k q.dest with
    | none =>
      let (items, last) := add [] q.value
      if last ≠ .ok then (.none, q.accessSet .unableWrite)
      else if okUnwritten then (.put (asString items), q.setOK)
      else writeDest k q (asString items)
    | some value =>
      let (items, last) := add (create value) q.value
      if last = .ok then writeDest k q (asString items) else (.none, q.accessSet .unableWrite)

def pushnx : Writer := fun k q =>
  if exist (items k q) q.value then (.none, q.accessSet .entryExists)
  else writeDest k q (asString (add (items k q) q.value).1)

/-- `Index` of an empty container does not return. -/
def pos : Reader := fun k q =>
  match index (items k q) (convtoUnsigned q.value) with
  | some (item, last) => if last = .notFound then q.accessSet .notFound else (q.respond item).setOK
  | none => q

def lpush : Writer := push true
def vpush : Writer := push false
def lpushnx : Writer := pushnx
def vpushnx : Writer := pushnx

def lreverse : Writer := fun k q => onItemsWrite k q fun items => writeDest k q (asString items.reverse)
def vreverse : Writer := fun k q => onItemsWrite k q fun items => writeDest k q (asString items.reverse)
/-- LSORT calls `Reverse`. -/
def lsort : Writer := fun k q => onItemsWrite k q fun items => writeDest k q (asString items.reverse)
def vsort : Writer := fun k q => onItemsWrite k q fun items => writeDest k q (asString (sort items))

def lresize : Writer := fun k q =>
  onItemsWrite k q fun items => store k q (resize items (convtoUnsigned q.value)) false
def vresize : Writer := fun k q =>
  onItemsWrite k q fun items => store k q (resize items (convtoUnsigned q.value)) true

def lpopFront : Writer := fun k q => onItemsWrite k q fun items => store k q (popFront items) false
def lpopBack : Writer := fun k q => onItemsWrite k q fun items => store k q (popBack items) false
def vpopFront : Writer := fun k q => store k q (popFront (items k q)) true
def vpopBack : Writer := fun k q => store k q (popBack (items k q)) true
def lpopall : Writer := fun k q => onItemsWrite k q fun items => store k q (popAll items q.value) true

def lrop : Writer := fun k q =>
  onItemsWrite k q fun items =>
    let (rest, item, last) := rpop items
    let q := q.respond item
    if last = .notFound then (.none, q.accessSet .notFound) else store k q rest true

def lrfront : Writer := fun k q =>
  onItemsWrite k q fun items =>
    let (rest, item, last) := fpop items
    let q := q.respond item
    if last = .notFound then (.none, q.accessSet .notFound) else store k q rest true

def ldel : Writer := fun k q =>
  onItemsWrite k q fun items =>
    if !exist items q.value then (.none, q.accessSet .notFound) else store k q (remove items q.value) true

/-- `SetOK` follows a failed write, too. -/
def vdel : Writer := fun k q =>
  let items := items k q
  if !exist items q.value then (.none, q.accessSet .notFound)
  else
    let (effect, q) := store k q (VectorHandler.remove items q.value) true
    (effect, q.setOK)

def lpos : Reader := pos
def vpos : Reader := pos
def lcount : Reader := fun k q => onItems k q fun items => { q with counter := ListHandler.count items }.setOK
def vcount : Reader := fun k q => onItems k q fun items => { q with counter := ListHandler.count items }.setOK
def lexist : Reader := fun k q => onItems k q fun items => (q.respond (flag (exist items q.value))).setOK
def vexist : Reader := fun k q => onItems k q fun items => (q.respond (flag (exist items q.value))).setOK
def lrepeats : Reader := fun k q => onItems k q fun items => (q.respond (convtoString (repeats items q.value))).setOK
def vrepeats : Reader := fun k q => onItems k q fun items => (q.respond (convtoString (repeats items q.value))).setOK
def lback : Reader := fun k q => onItems k q fun items => answer q (back items)
def vback : Reader := fun k q => onItems k q fun items => answer q (back items)
def lfront : Reader := fun k q => onItems k q fun items => answer q (front items)
def vfront : Reader := fun k q => onItems k q fun items => answer q (front items)
def lget : Reader := fun k q => onItems k q fun items => flagged q items (pageVector q items)
def vget : Reader := fun k q => onItems k q fun items => flagged q items (pageVector q items)

def lavg (P : Platform) : Reader := aggregate P fun items => some (getSMA P items)
def vavg (P : Platform) : Reader := aggregate P fun items => some (getSMA P items)
def lhigh (P : Platform) : Reader := aggregate P fun items => some (getHigh P items)
def vhigh (P : Platform) : Reader := aggregate P fun items => some (getHigh P items)
def llow (P : Platform) : Reader := aggregate P (getLow P)
def vlow (P : Platform) : Reader := aggregate P (getLow P)
def vsum (P : Platform) : Reader := aggregate P fun items => some (sum P items)

def lkeys (P : Platform) : Reader := scanType P intList
def vkeys (P : Platform) : Reader := scanType P intVector

/-- `vfind_query`, which no command uses: it reads the row anew and counts what it lists. -/
def vfind (P : Platform) : Reader := fun k q =>
  match k.get q.database q.dest with
  | none => q.accessSet .notFound
  | some value =>
    let p := (Paging.loop pushBack q.offset q.limit (find P (create value) q.value) {}).1
    { q with
      subresult := p.tracker + 1, counter := p.aux, vecData := p.result,
      attached := q.attached ++ vectorParts p.sent }.setOK

end BerylDB.Store.Run
