import BerylDB.Admission

/-! # Executing a request as a list of updates

`execute_outcome` sums up the query classes: on databases that take writes, executing a request is one of
a few lists of elementary updates.  The invariants of the store are case analyses over these lists. -/
namespace BerylDB.Store
open Text QueryBase

inductive Update where
  | put (db row value : Bytes)
  | erase (db row : Bytes)
  | schedule (db : Bytes) (time : ℤ) (key : Bytes) (select : ℕ)
  | cancel (db key : Bytes) (select : ℕ)
  | plan (db : Bytes) (time : ℤ) (key : Bytes) (select : ℕ)
  | unplan (db key : Bytes) (select : ℕ)
  | close (db : Bytes)
deriving DecidableEq

namespace Kernel

def close (k : Kernel) (db : Bytes) : Kernel :=
  { k with databases := Function.update k.databases db { k.databases db with closing := true } }

def update (k : Kernel) : Update → Kernel
  | .put db row value => (k.put db row value).1
  | .erase db row => k.erase db row
  | .schedule db time key select => k.addExpire db time key select true
  | .cancel db key select => k.deleteExpire db key select
  | .plan db time key select => k.addFuture db time key select true
  | .unplan db key select => k.deleteFuture db key select
  | .close db => ((k.close db).closeExpires db).closeFutures db

def updates (k : Kernel) (us : List Update) : Kernel := us.foldl update k

-- not by `rfl`: the kernel would unfold `addExpire` down to the arithmetic of `toSigned`
@[simp] theorem updates_cons (k : Kernel) (u : Update) (us : List Update) :
    k.updates (u :: us) = (k.update u).updates us := by
  unfold updates
  rw [List.foldl_cons]

@[simp] theorem updates_nil (k : Kernel) : k.updates [] = k := by
  unfold updates
  rw [List.foldl_nil]

theorem update_schedule (k : Kernel) (db : Bytes) (time : ℤ) (key : Bytes) (select : ℕ) :
    k.update (.schedule db time key select) = k.addExpire db time key select true := by rw [update]

theorem update_plan (k : Kernel) (db : Bytes) (time : ℤ) (key : Bytes) (select : ℕ) :
    k.update (.plan db time key select) = k.addFuture db time key select true := by rw [update]

theorem update_cancel (k : Kernel) (db key : Bytes) (select : ℕ) :
    k.update (.cancel db key select) = k.deleteExpire db key select := by rw [update]

theorem updates_append (k : Kernel) (us vs : List Update) : k.updates (us ++ vs) = (k.updates us).updates vs :=
  List.foldl_append

/-! ## Databases that take writes -/

def Writable (k : Kernel) : Prop := ∀ db, (k.databases db).writable = true

variable {k : Kernel}

theorem write_writable (h : k.Writable) (db : Bytes) (batch : Rows → Rows) :
    k.write db batch =
      ({ k with databases := Function.update k.databases db { k.databases db with rows := batch (k.rows db) } }, true) := by
  simp [write, h db, rows]

theorem Writable.write (h : k.Writable) (db : Bytes) (batch : Rows → Rows) : (k.write db batch).1.Writable := by
  intro d
  rw [write_writable h]
  by_cases hd : d = db
  · subst hd
    simpa using h d
  · simpa [hd] using h d

theorem databases_addExpire (k : Kernel) (db : Bytes) (time : ℤ) (key : Bytes) (select : ℕ) (epoch : Bool) :
    (k.addExpire db time key select epoch).databases = k.databases := by
  unfold addExpire
  split
  · rfl
  · dsimp only
    split <;> rfl

theorem databases_addFuture (k : Kernel) (db : Bytes) (time : ℤ) (key : Bytes) (select : ℕ) (epoch : Bool) :
    (k.addFuture db time key select epoch).databases = k.databases := by
  unfold addFuture
  split
  · rfl
  · dsimp only
    split <;> rfl

theorem Writable.close (h : k.Writable) (db : Bytes) : (k.close db).Writable := by
  intro d
  unfold Kernel.close
  by_cases hd : d = db
  · subst hd
    simpa using h d
  · simpa [hd] using h d

theorem Writable.update (h : k.Writable) (u : Update) : (k.update u).Writable := by
  cases u with
  | put db row value => exact h.write db _
  | erase db row => exact h.write db _
  | schedule db time key select =>
    intro d
    rw [Kernel.update, databases_addExpire]
    exact h d
  | plan db time key select =>
    intro d
    rw [Kernel.update, databases_addFuture]
    exact h d
  | cancel db key select => exact h
  | unplan db key select => exact h
  | close db => exact h.close db

theorem Writable.updates (h : k.Writable) (us : List Update) : (k.updates us).Writable := by
  induction us generalizing k with
  | nil => exact h
  | cons u us ih => exact ih (h.update u)

theorem write_write (h : k.Writable) (db : Bytes) (first second : Rows → Rows) :
    ((k.write db first).1.write db second) = k.write db fun rows => second (first rows) := by
  rw [write_writable (h.write db first), write_writable h, write_writable h]
  simp [rows]

/-- A batch is its operations one after the other. -/
theorem swap_updates (h : k.Writable) (db newdest dest value : Bytes) :
    k.write db (fun rows => (rows.insert newdest value).erase dest) =
      (k.updates [.put db newdest value, .erase db dest], true) := by
  refine Prod.ext ?_ (by rw [write_writable h])
  simp only [updates_cons, updates_nil, update, put, erase]
  rw [write_write h]

theorem swapExpire_updates (h : k.Writable) (db newdest dest value row text : Bytes) :
    k.write db (fun rows => ((rows.insert newdest value).erase dest).insert row text) =
      (k.updates [.put db newdest value, .erase db dest, .put db row text], true) := by
  refine Prod.ext ?_ (by rw [write_writable h])
  simp only [updates_cons, updates_nil, update, put, erase]
  rw [write_write h, write_write h]

theorem putPut_updates (h : k.Writable) (db row text dest value : Bytes) :
    k.write db (fun rows => (rows.insert row text).insert dest value) =
      (k.updates [.put db row text, .put db dest value], true) := by
  refine Prod.ext ?_ (by rw [write_writable h])
  simp only [updates_cons, updates_nil, update, put]
  rw [write_write h]

theorem eraseErase_updates (h : k.Writable) (db dest row : Bytes) :
    k.write db (fun rows => (rows.erase dest).erase row) =
      (k.updates [.erase db dest, .erase db row], true) := by
  refine Prod.ext ?_ (by rw [write_writable h])
  simp only [updates_cons, updates_nil, update, erase]
  rw [write_write h]

theorem put_writable (h : k.Writable) (db row value : Bytes) :
    k.put db row value = (k.update (.put db row value), true) :=
  Prod.ext rfl (by rw [put, write_writable h])

end Kernel

section Helpers
open Kernel
variable {k : Kernel} (h : k.Writable) (q : QueryBase)
include h

theorem writeExpire_updates (key : Bytes) (select ttl : ℕ) (db : Bytes) :
    q.writeExpire k key select ttl db =
      k.updates [.put q.database (expireRow key select db) (convtoString ttl), .schedule db (toSigned ttl) key select] := by
  simp only [updates_cons, updates_nil, update_schedule]
  unfold writeExpire
  rw [put_writable h]
  exact if_pos rfl

theorem writeFuture_updates (key : Bytes) (select ttl : ℕ) (value : Bytes) :
    q.writeFuture k key select ttl value =
      k.updates [.put q.database (futureRow key select q.database) (convtoString ttl ++ 58 :: value),
        .plan q.database (toSigned ttl) key select] := by
  simp only [updates_cons, updates_nil, update_plan]
  unfold writeFuture
  rw [put_writable h]
  exact if_pos rfl

theorem expireBatch_updates (dest value key : Bytes) (select ttl : ℕ) :
    q.expireBatch k dest value key select ttl =
      k.updates [.put q.database (expireRow key select q.database) (convtoString ttl), .put q.database dest (toBin value),
        .schedule q.database (toSigned ttl) key select] := by
  simp only [updates_cons, updates_nil, update_schedule]
  unfold expireBatch
  rw [putPut_updates h]
  exact if_pos rfl

theorem swapWithExpire_updates (newdest dest value : Bytes) (select : ℕ) (key : Bytes) (ttl : ℕ) (oldkey : Bytes) :
    q.swapWithExpire k newdest dest value select key ttl oldkey =
      (k.updates [.put q.database newdest value, .erase q.database dest,
        .put q.database (expireRow key select q.database) (convtoString ttl), .cancel q.database oldkey select,
        .schedule q.database (toSigned ttl) key select], true) := by
  simp only [updates_cons, updates_nil, update_schedule, update_cancel]
  unfold swapWithExpire
  rw [swapExpire_updates h]
  exact if_pos rfl

end Helpers

/-- The four updates of WDEL for one row. -/
def wipe (r : Request) (found : Bytes × Bytes) : List Update :=
  [.erase r.database found.1, .cancel r.database found.2 r.select, .cancel r.database r.key r.select,
    .erase r.database (expireRow r.key r.select r.database)]

theorem foldl_wdelRow (r : Request) (found : List (Bytes × Bytes)) (k : Kernel) :
    found.foldl (Run.wdelRow r.plain) k = k.updates (found.flatMap (wipe r)) := by
  induction found generalizing k with
  | nil => rfl
  | cons f found ih =>
    rw [List.foldl_cons, ih, List.flatMap_cons, Kernel.updates_append]
    rfl

theorem foldl_erase (db : Bytes) (rows : List Bytes) (k : Kernel) :
    rows.foldl (fun k row => k.erase db row) k = k.updates (rows.map fun row => .erase db row) := by
  unfold Kernel.updates
  rw [List.foldl_map]
  rfl

/-! ## The kinds of outcome -/

/-- The classes that delete the row they work on when nothing is left of it. -/
def QueryClass.mayDelete (c : QueryClass) : Bool :=
  c ∈ [.getdel, .lpopFront, .lpopBack, .lresize, .lrop, .lrfront, .lpopall, .ldel, .vresize, .vpopFront, .vpopBack,
    .vdel, .hdel, .mdel]

/-- The classes whose `Run` writes or deletes the row `dest`. -/
def QueryClass.Writes (c : QueryClass) : Prop := ∃ P run, c.body P = .writer run

/-- `Kernel.expireTime` of the key of the request. -/
def Request.ttl (r : Request) (k : Kernel) : ℤ := k.expireTime r.database r.key r.select

/-- The key has an entry that `IsExpiring` sees. -/
def Request.Expiring (r : Request) (k : Kernel) : Prop := r.registered k = some intKey ∧ 0 < r.ttl k

/-- The row of the request's key under a type. -/
def Request.row (r : Request) (type : Bytes) : Bytes := keyRow r.key r.select type

inductive Outcome (P : Platform) (k : Kernel) (r : Request) : List Update → Prop
  | unchanged : Outcome P k r []
  | stored {type : Bytes} (value : Bytes) (writes : r.cls.Writes)
      (place : r.registered k = some type ∨
        r.registered k = none ∧ r.cls.queryType = .write ∧ r.cls.baseRequest = some type) :
      Outcome P k r [.put r.database (r.row type) value]
  | removed {type : Bytes} (registered : r.registered k = some type)
      (how : r.cls.mayDelete = true ∧ (r.cls.queryType = .delete ∨ r.cls.baseRequest = some type)) :
      Outcome P k r [.erase r.database (r.row type)]
  | stray (value : Bytes) (cls : r.cls = .hsetnx) (absent : r.registered k = none) (field : r.hesh ≠ []) :
      Outcome P k r [.put r.database [] value]
  | setex (cls : r.cls = .setex) (place : r.registered k = some intKey ∨ r.registered k = none) :
      Outcome P k r [.put r.database (expireRow r.key r.select r.database) (convtoString r.id),
        .put r.database (r.row intKey) (toBin r.value), .schedule r.database (toSigned r.id) r.key r.select]
  | deadline (cls : r.cls ∈ [.expire, .expireat, .getexp]) (registered : r.registered k = some intKey) :
      Outcome P k r [.put r.database (expireRow r.key r.select r.database) (convtoString r.id),
        .schedule r.database (toSigned r.id) r.key r.select]
  | persisted (cls : r.cls ∈ [.expireDel, .getpersist]) (registered : r.registered k = some intKey) :
      Outcome P k r [.cancel r.database r.key r.select, .erase r.database (expireRow r.key r.select r.database)]
  | renamed {type value : Bytes} (cls : r.cls ∈ [.rename, .renamenx]) (registered : r.registered k = some type)
      (allows : Allows r.cls k r type) (held : k.get r.database (r.row type) = some value)
      (lasting : ¬ r.Expiring k) :
      Outcome P k r [.put r.database (keyRow r.value r.select type) value, .erase r.database (r.row type)]
  | renamedExpiring {value : Bytes} (cls : r.cls ∈ [.rename, .renamenx]) (expiring : r.Expiring k)
      (allows : Allows r.cls k r intKey) (held : k.get r.database (r.row intKey) = some value) :
      Outcome P k r [.put r.database (keyRow r.value r.select intKey) value, .erase r.database (r.row intKey),
        .put r.database (expireRow r.value r.select r.database) (convtoString (r.ttl k).toNat),
        .cancel r.database r.key r.select, .schedule r.database (toSigned (r.ttl k).toNat) r.value r.select]
  | copied {type value : Bytes} (cls : r.cls = .copy) (registered : r.registered k = some type)
      (allows : Allows r.cls k r type) (held : k.get r.database (r.row type) = some value)
      (lasting : ¬ r.Expiring k) :
      Outcome P k r [.put r.database (keyRow r.value r.select type) value]
  | copiedExpiring {value : Bytes} (cls : r.cls = .copy) (expiring : r.Expiring k) (allows : Allows r.cls k r intKey)
      (held : k.get r.database (r.row intKey) = some value) :
      Outcome P k r [.put r.database (expireRow r.value r.select r.database) (convtoString (r.ttl k).toNat),
        .schedule r.database (toSigned (r.ttl k).toNat) r.value r.select,
        .put r.database (keyRow r.value r.select intKey) value]
  | copiedNothing (value : Bytes) (cls : r.cls = .copy) (absent : r.registered k = none)
      (free : r.absent.checkDest k r.select r.value processNull r.database ≠ 2) :
      Outcome P k r [.put r.database (keyRow r.value r.select processNull) value]
  | moved {type value : Bytes} (cls : r.cls = .move) (registered : r.registered k = some type)
      (allows : Allows r.cls k r type) (held : k.get r.database (r.row type) = some value)
      (lasting : ¬ r.Expiring k) :
      Outcome P k r [.put r.database (rowName r.key r.value type) value, .erase r.database (r.row type)]
  | movedExpiring {value : Bytes} (cls : r.cls = .move) (expiring : r.Expiring k) (allows : Allows r.cls k r intKey)
      (held : k.get r.database (r.row intKey) = some value) :
      Outcome P k r [.put r.database (rowName r.key r.value intKey) value, .erase r.database (r.row intKey),
        .put r.database (rowName r.key r.value (ownedType intExpire r.database)) (convtoString (r.ttl k).toNat),
        .cancel r.database r.key r.select,
        .schedule r.database (toSigned (r.ttl k).toNat) r.key (convtoUnsigned r.value)]
  | cloned {type value : Bytes} (cls : r.cls = .clone) (registered : r.registered k = some type)
      (allows : Allows r.cls k r type) (held : k.get r.database (r.row type) = some value)
      (lasting : ¬ r.Expiring k) :
      Outcome P k r [.put r.database (rowName r.key r.value type) value]
  | clonedExpiring (cls : r.cls = .clone) (expiring : r.Expiring k) (allows : Allows r.cls k r intKey) :
      Outcome P k r [
        .put r.database (expireRow r.key (convtoUnsigned r.value) r.database) (convtoString (r.ttl k).toNat),
        .put r.database (rowName r.key r.value intKey) (toBin r.value),
        .schedule r.database (toSigned (r.ttl k).toNat) r.key (convtoUnsigned r.value)]
  | transferred {type value target : Bytes} (cls : r.cls = .transfer) (registered : r.registered k = some type)
      (allows : Allows r.cls k r type) (goal : r.transfDb = some target)
      (held : k.get r.database (r.row type) = some value) (lasting : ¬ r.Expiring k) :
      Outcome P k r [.put target (r.row type) value, .erase r.database (r.row type)]
  | transferredExpiring {value target : Bytes} (cls : r.cls = .transfer) (expiring : r.Expiring k)
      (allows : Allows r.cls k r intKey) (goal : r.transfDb = some target)
      (held : k.get r.database (r.row intKey) = some value) :
      Outcome P k r [.cancel r.database r.key r.select, .erase r.database (expireRow r.key r.select r.database),
        .put r.database (expireRow r.key r.select target) (convtoString (r.ttl k).toNat),
        .schedule target (toSigned (r.ttl k).toNat) r.key r.select, .put target (r.row intKey) value,
        .erase r.database (r.row intKey)]
  | deleted {type : Bytes} (cls : r.cls = .del) (registered : r.registered k = some type)
      (lasting : ¬ r.Expiring k) : Outcome P k r [.erase r.database (r.row type)]
  | deletedExpiring (cls : r.cls = .del) (expiring : r.Expiring k) :
      Outcome P k r [.erase r.database (r.row intKey), .erase r.database (expireRow r.key r.select r.database),
        .cancel r.database r.key r.select]
  | wiped (cls : r.cls = .wdel) :
      Outcome P k r ((Run.matchedKeys P k r.plain).flatMap (wipe r))
  | flushed (cls : r.cls = .sflush) :
      Outcome P k r ((Run.sflushRows k r.plain).map fun row => .erase r.database row)
  | near (cls : r.cls = .georem) :
      Outcome P k r ((Run.georemRows P k r.plain).map fun row => .erase r.database row)
  | planned (cls : r.cls = .future) :
      Outcome P k r [.put r.database (futureRow r.key r.select r.database) (convtoString r.id ++ 58 :: r.value),
        .plan r.database (toSigned r.id) r.key r.select]
  | unplanned (cls : r.cls ∈ [.futureDel, .futureExec]) :
      Outcome P k r [.unplan r.database r.key r.select, .erase r.database (futureRow r.key r.select r.database)]
  | applied {row : Bytes} (cls : r.cls = .futureExec)
      (held : k.get r.database (futureRow r.key r.select r.database) = some row)
      (place : r.registered k = some intKey ∨ r.registered k = none) :
      Outcome P k r [.put r.database (r.row intKey) (toBin (cutAt 58 row).2), .unplan r.database r.key r.select,
        .erase r.database (futureRow r.key r.select r.database)]
  | closed (cls : r.cls = .dbreset) : Outcome P k r [.close r.database]

/-- The outcomes of DEL, and so of the timer's delete queries. -/
theorem Outcome.del {P : Platform} {k : Kernel} {r : Request} {us : List Update} (outcome : Outcome P k r us)
    (cls : r.cls = .del) :
    us = [] ∨ (∃ type, r.registered k = some type ∧ ¬ r.Expiring k ∧ us = [.erase r.database (r.row type)]) ∨
    r.Expiring k ∧ us = [.erase r.database (r.row intKey), .erase r.database (expireRow r.key r.select r.database),
      .cancel r.database r.key r.select] := by
  cases outcome with
  | unchanged => exact .inl rfl
  | deleted cls registered lasting => exact .inr (.inl ⟨_, registered, lasting, rfl⟩)
  | deletedExpiring cls expiring => exact .inr (.inr ⟨expiring, rfl⟩)
  | stored value writes =>
    obtain ⟨P, run, body⟩ := writes
    simp [cls, QueryClass.body] at body
  | removed registered how => simp [cls, QueryClass.mayDelete] at how
  | _ => simp_all

/-- The outcomes of DBRESET. -/
theorem Outcome.dbreset {P : Platform} {k : Kernel} {r : Request} {us : List Update} (outcome : Outcome P k r us)
    (cls : r.cls = .dbreset) : us = [] ∨ us = [.close r.database] := by
  cases outcome with
  | unchanged => exact .inl rfl
  | closed cls => exact .inr rfl
  | stored value writes =>
    obtain ⟨P, run, body⟩ := writes
    simp [cls, QueryClass.body] at body
  | removed registered how => simp [cls, QueryClass.mayDelete] at how
  | _ => simp_all

end BerylDB.Store
