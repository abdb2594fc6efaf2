import BerylDB.Keys
import BerylDB.Sequences
import BerylDB.Maps
import BerylDB.Operations

/-! # Preparing a query

The query classes of `query.h` with their types and requested types, and `QueryBase::Prepare`. -/
namespace BerylDB.Store
open Text

inductive QueryClass where
  | set | setnx | settx | setex | append | getSubstr | op
  | get | strlen | getOccurs | alpha | char | isnum | isbool | asbool | ismatch | getset | getdel | insert
  | modify | getexp | getpersist | expireat | expireDel | expire
  | future | futureDel | futureExec | futureList | expireList
  | keys | count | search | wdel | random
  | hset | hsetnx | hget | hstrlen | hlist | hvals | hgetall | hexists | hdel | hfind
  | lpush | lpushnx | lpopFront | lpopBack | lresize | lrop | lrfront | lreverse | lsort | lpos | lcount | lget
  | lexist | lrepeats | lback | lfront | lavg | lhigh | llow | lpopall | ldel | lkeys
  | vpush | vpushnx | vget | vresize | vexist | vrepeats | vcount | vfront | vback | vpopFront | vpopBack | vsort
  | vreverse | vpos | vavg | vhigh | vlow | vsum | vfind | vdel | vkeys
  | mset | msetnx | mget | mvals | mgetall | miter | mrepeats | mdel | mkeys
  | geoadd | geoaddnx | geoaddPub | geoget | geogetLat | geogetLong | georem | geocalc | geodistance | gkeys
  | rename | renamenx | move | clone | copy | transfer | del | exists | diff | type
  | total | glist | list | testDump | touch | ntouch | sflush | dbsize | dbreset
deriving DecidableEq

namespace QueryClass

def queryType : QueryClass → QueryType
  | set | setnx | settx | setex | append | getSubstr | op => .write
  | get | strlen | getOccurs | alpha | char | isnum | isbool | asbool | ismatch | getset | getdel | insert
  | modify | getexp | getpersist | expireat | expireDel => .read
  | expire => .expire
  | future | futureDel => .future
  | futureExec => .futureRun
  | hset | lpush | lpushnx | vpush | vpushnx | mset | msetnx | geoadd | geoaddnx | geoaddPub => .write
  | hsetnx => .readAllow
  | hget | hstrlen | hlist | hvals | hgetall => .read
  | lpopFront | lpopBack | lresize | lrop | lrfront | lreverse | lsort | lpos | lcount | lget | lexist | lrepeats
  | lback | lfront | lavg | lhigh | llow => .read
  | vget | vresize | vexist | vrepeats | vcount | vfront | vback | vpopFront | vpopBack | vsort | vreverse | vpos
  | vavg | vhigh | vlow | vsum => .read
  | mget | mvals | mgetall | miter | mrepeats | geoget => .read
  | geogetLat => .lat
  | geogetLong => .long
  | lpopall | vfind => .iter
  | hdel | ldel | vdel | mdel | del => .delete
  | hexists | .exists => .exists
  | rename => .rename
  | renamenx => .renamenx
  | move => .move
  | clone => .clone
  | copy => .copy
  | transfer => .transfer
  | diff => .diff
  | type => .type
  | keys | count | search | wdel | random | hfind | lkeys | vkeys | mkeys | georem | geocalc | geodistance | gkeys
  | futureList | expireList | total | glist | list | testDump | touch | ntouch | sflush | dbsize | dbreset => .skip

/-- `base_request`, when the class has one. -/
def baseRequest : QueryClass → Option Bytes
  | set | setnx | settx | setex | append | getSubstr | op | get | strlen | getOccurs | alpha | char | isnum | isbool
  | asbool | ismatch | getset | getdel | insert | modify | getexp | getpersist | expireat | expireDel | expire
  | future | futureDel | futureExec | keys | count | search | wdel | random => some intKey
  | hset | hsetnx | hget | hstrlen | hlist | hvals | hgetall | hexists | hdel | hfind => some intMap
  | lpush | lpushnx | lpopFront | lpopBack | lresize | lrop | lrfront | lreverse | lsort | lpos | lcount | lget
  | lexist | lrepeats | lback | lfront | lavg | lhigh | llow | lpopall | ldel | lkeys | vkeys => some intList
  | vpush | vpushnx | vget | vresize | vexist | vrepeats | vcount | vfront | vback | vpopFront | vpopBack | vsort
  | vreverse | vpos | vavg | vhigh | vlow | vsum | vfind | vdel => some intVector
  | mset | msetnx | mget | mvals | mgetall | miter | mrepeats | mdel | mkeys => some intMmap
  | geoadd | geoaddnx | geoaddPub | geoget | geogetLat | geogetLong | georem | geocalc | geodistance
  | gkeys => some intGeo
  | futureList | expireList | rename | renamenx | move | clone | copy | transfer | del | .exists | diff | type
  | total | glist | list | testDump | touch | ntouch | sflush | dbsize | dbreset => none

end QueryClass

/-- The `Run` method of a class, by what it may do to the store. -/
inductive Body where
  | reader (run : Reader)
  | writer (run : Writer)
  | runner (run : Runner)

def Body.run : Body → Runner
  | .reader run => fun k q => (k, run k q)
  | .writer run => fun k q => (k.apply q.database q.dest (run k q).1, (run k q).2)
  | .runner run => run

/-- `transfer_query::Run` is not reached without a `transf_db`. -/
def transferBody : Runner := fun k q =>
  match q.transfDb with
  | some target => Run.transfer target k q
  | none => (k, q)

def QueryClass.body (P : Platform) : QueryClass → Body
  | set => .writer Run.set
  | setnx => .writer Run.setnx
  | settx => .writer Run.settx
  | setex => .runner Run.setex
  | append => .writer Run.append
  | getSubstr => .writer Run.getSubstr
  | op => .writer (Run.op P)
  | get => .reader Run.get
  | strlen => .reader Run.strlen
  | getOccurs => .reader Run.getOccurs
  | alpha => .reader Run.alpha
  | char => .reader Run.char
  | isnum => .reader Run.isnum
  | isbool => .reader Run.isbool
  | asbool => .reader Run.asbool
  | ismatch => .reader (Run.ismatch P)
  | getset => .writer Run.getset
  | getdel => .writer Run.getdel
  | insert => .writer Run.insert
  | modify => .writer Run.modify
  | getexp => .runner Run.getexp
  | getpersist => .runner Run.getpersist
  | expireat => .runner Run.expireat
  | expireDel => .runner Run.expireDel
  | expire => .runner Run.expire
  | future => .runner Run.future
  | futureDel => .runner Run.futureDel
  | futureExec => .runner Run.futureExec
  | futureList => .runner Run.futureList
  | expireList => .runner Run.expireList
  | keys => .reader (Run.keys P)
  | count => .reader (Run.count P)
  | search => .reader (Run.search P)
  | wdel => .runner (Run.wdel P)
  | random => .reader (Run.random P)
  | hset => .writer Run.hset
  | hsetnx => .writer Run.hsetnx
  | hget => .reader Run.hget
  | hstrlen => .reader Run.hstrlen
  | hlist => .reader Run.hlist
  | hvals => .reader Run.hvals
  | hgetall => .reader Run.hgetall
  | hexists => .reader Run.hexists
  | hdel => .writer Run.hdel
  | hfind => .reader (Run.hfind P)
  | lpush => .writer Run.lpush
  | lpushnx => .writer Run.lpushnx
  | lpopFront => .writer Run.lpopFront
  | lpopBack => .writer Run.lpopBack
  | lresize => .writer Run.lresize
  | lrop => .writer Run.lrop
  | lrfront => .writer Run.lrfront
  | lreverse => .writer Run.lreverse
  | lsort => .writer Run.lsort
  | lpos => .reader Run.lpos
  | lcount => .reader Run.lcount
  | lget => .reader Run.lget
  | lexist => .reader Run.lexist
  | lrepeats => .reader Run.lrepeats
  | lback => .reader Run.lback
  | lfront => .reader Run.lfront
  | lavg => .reader (Run.lavg P)
  | lhigh => .reader (Run.lhigh P)
  | llow => .reader (Run.llow P)
  | lpopall => .writer Run.lpopall
  | ldel => .writer Run.ldel
  | lkeys => .reader (Run.lkeys P)
  | vpush => .writer Run.vpush
  | vpushnx => .writer Run.vpushnx
  | vget => .reader Run.vget
  | vresize => .writer Run.vresize
  | vexist => .reader Run.vexist
  | vrepeats => .reader Run.vrepeats
  | vcount => .reader Run.vcount
  | vfront => .reader Run.vfront
  | vback => .reader Run.vback
  | vpopFront => .writer Run.vpopFront
  | vpopBack => .writer Run.vpopBack
  | vsort => .writer Run.vsort
  | vreverse => .writer Run.vreverse
  | vpos => .reader Run.vpos
  | vavg => .reader (Run.vavg P)
  | vhigh => .reader (Run.vhigh P)
  | vlow => .reader (Run.vlow P)
  | vsum => .reader (Run.vsum P)
  | vfind => .reader (Run.vfind P)
  | vdel => .writer Run.vdel
  | vkeys => .reader (Run.vkeys P)
  | mset => .writer Run.mset
  | msetnx => .writer Run.msetnx
  | mget => .reader Run.mget
  | mvals => .reader Run.mvals
  | mgetall => .reader Run.mgetall
  | miter => .reader Run.miter
  | mrepeats => .reader Run.mrepeats
  | mdel => .writer Run.mdel
  | mkeys => .reader (Run.mkeys P)
  | geoadd => .writer Run.geoadd
  | geoaddnx => .writer Run.geoaddnx
  | geoaddPub => .writer Run.geoaddPub
  | geoget => .reader Run.geoget
  | geogetLat => .reader (Run.geogetCustom false)
  | geogetLong => .reader (Run.geogetCustom true)
  | georem => .runner (Run.georem P)
  | geocalc => .reader (Run.geocalc P)
  | geodistance => .reader (Run.geodistance P)
  | gkeys => .reader (Run.gkeys P)
  | rename => .runner Run.rename
  | renamenx => .runner Run.renamenx
  | move => .runner Run.move
  | clone => .runner Run.clone
  | copy => .runner Run.copy
  | transfer => .runner transferBody
  | del => .runner Run.del
  | .exists => .reader Run.exists'
  | diff => .reader Run.diff
  | type => .reader Run.type
  | total => .reader Run.total
  | glist => .reader Run.glist
  | list => .reader Run.list
  | testDump => .reader Run.testDump
  | touch => .reader Run.touch
  | ntouch => .reader Run.ntouch
  | sflush => .runner Run.sflush
  | dbsize => .reader (Run.dbsize P)
  | dbreset => .runner Run.dbreset

theorem writer_queryType {P : Platform} {c : QueryClass} {run : Writer} (body : c.body P = .writer run) :
    c.queryType ∈ [QueryType.write, .read, .readAllow, .iter, .delete] := by
  cases c <;> first | decide | (simp only [QueryClass.body, reduceCtorEq] at body)

namespace QueryBase

variable (P : Platform) (c : QueryClass)

def run (k : Kernel) (q : QueryBase) : Kernel × QueryBase := (c.body P).run k q

/-- `access_set(DBL_INVALID_TYPE)` with the registered type for a response. -/
def invalidType (q : QueryBase) : QueryBase := (q.accessSet .invalidType).respond q.identified

/-- The switch of `Prepare`, behind `Check`. -/
def dispatch (k : Kernel) (q : QueryBase) : Kernel × QueryBase :=
  let base := c.baseRequest.getD []
  let (loaded, found) := q.getRegistry k q.select q.key true
  let (looked, _) := q.getRegistry k q.select q.key false
  match c.queryType with
  | .write =>
    if found then
      if loaded.identified = base then run P c k loaded else (k, loaded.invalidType)
    else run P c k { loaded with dest := keyRow q.key q.select base }
  | .lat | .long | .read =>
    if found then
      if loaded.identified = base then run P c k loaded else (k, loaded.invalidType)
    else (k, loaded.accessSet .notFound)
  | .readAllow =>
    if found then
      if loaded.identified = base then run P c k loaded else (k, loaded.invalidType)
    else run P c k loaded
  | .diff =>
    if loaded.identified = processNull then (k, (loaded.accessSet .notFound).respond processNull)
    else
      match loaded.checkDest k q.select q.value loaded.identified q.database with
      | 1 => run P c k loaded
      | 2 => (k, loaded.invalidType)
      | _ => (k, (loaded.accessSet .notFound).respond loaded.identified)
  | .rename =>
    if loaded.identified = processNull then (k, loaded.accessSet .notFound)
    else
      match loaded.checkDest k q.select q.value loaded.identified q.database with
      | 2 => (k, loaded.invalidType)
      | _ => run P c k loaded
  | .transfer =>
    if loaded.identified = processNull then (k, loaded.accessSet .notFound)
    else
      match q.transfDb with
      | none => (k, loaded.accessSet .unableWrite)
      | some target =>
        match loaded.checkDest k q.select q.key loaded.identified target with
        | 2 => (k, loaded.invalidType)
        | _ => run P c k loaded
  | .renamenx =>
    if loaded.identified = processNull then (k, loaded.accessSet .notFound)
    else
      match loaded.checkDest k q.select q.value loaded.identified q.database with
      | 0 => run P c k loaded
      | _ => (k, loaded.accessSet .entryExists)
  | .clone =>
    if loaded.identified = processNull then (k, (loaded.accessSet .notFound).respond processNull)
    else
      match loaded.checkDest k (convtoUnsigned q.value) q.key loaded.identified q.database with
      | 2 => (k, loaded.invalidType)
      | _ => run P c k loaded
  | .move =>
    if loaded.identified = processNull then (k, loaded.accessSet .notFound)
    else
      match loaded.checkDest k (convtoUnsigned q.value) q.key loaded.identified q.database with
      | 2 => (k, loaded.invalidType)
      | _ => run P c k loaded
  | .copy =>
    -- the check for an absent key stands behind the results 0, 1 and 2, and is not reached
    match loaded.checkDest k q.select q.value loaded.identified q.database with
    | 2 => (k, loaded.invalidType)
    | _ => run P c k loaded
  | .exists | .type => run P c k looked
  | .skip => run P c k q
  | .future =>
    if found then
      if looked.identified = base then run P c k looked else (k, looked.invalidType)
    else run P c k looked
  | .futureRun =>
    if found then
      if looked.identified = base then run P c k looked else (looked.delFuture k, looked.invalidType)
    else run P c k looked
  | .expire =>
    if found then
      if looked.identified = base then run P c k looked else (k, looked.invalidType)
    else (k, looked.accessSet .notFound)
  | .iter =>
    if found then
      if loaded.identified = base then run P c k loaded else (k, loaded.invalidType)
    else (k, loaded)
  | .delete =>
    if found then run P c k looked else (k, (looked.accessSet .notFound).respond looked.identified)

/-- `Prepare`; a query that was refused when it was made does not come here. -/
def prepare (k : Kernel) (q : QueryBase) : Kernel × QueryBase :=
  if (k.databases q.database).closing then (k, q.accessSet .statusBroken)
  else dispatch P c k (q.accessSet .statusOk)

end QueryBase

end BerylDB.Store
