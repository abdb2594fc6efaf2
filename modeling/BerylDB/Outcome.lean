import BerylDB.Updates

/-! # The outcome of a request

Executing a request on databases that take writes is the update list of its outcome. -/
namespace BerylDB.Store
open Text QueryBase Kernel

@[simp] theorem writeDest_fst (k : Kernel) (q : QueryBase) (value : Bytes) : (writeDest k q value).1 = .put value := rfl

/-- Only the classes of `mayDelete` delete the row they work on. -/
theorem writer_delete {P : Platform} {c : QueryClass} {run : Writer} {k : Kernel} {q : QueryBase}
    (body : c.body P = .writer run) (deletes : (run k q).1 = .delete) : c.mayDelete = true := by
  cases c <;> first
    | rfl
    | (simp only [QueryClass.body, reduceCtorEq] at body; done)
    | (simp only [QueryClass.body, Body.writer.injEq] at body; subst body; exfalso; revert deletes)
  case set | modify | getset | append | geoadd | geoaddPub =>
    simp [Run.set, Run.modify, Run.getset, Run.append, Run.geoadd, Run.geoaddPub]
  case setnx | settx | insert | op =>
    simp only [Run.setnx, Run.settx, Run.insert, Run.op]
    split <;> simp
  case getSubstr =>
    simp only [Run.getSubstr]
    split <;> [skip; split] <;> simp
  case hset | lpush | vpush | mset | msetnx =>
    simp only [Run.hset, Run.lpush, Run.vpush, Run.push, Run.mset, Run.msetnx]
    repeat' split
    all_goals simp
  case hsetnx | lpushnx | vpushnx | geoaddnx =>
    simp only [Run.hsetnx, Run.lpushnx, Run.vpushnx, Run.pushnx, Run.geoaddnx]
    repeat' split
    all_goals simp
  case lreverse | lsort | vsort | vreverse =>
    simp only [Run.lreverse, Run.lsort, Run.vsort, Run.vreverse, Run.onItemsWrite]
    split <;> simp

theorem hsetnx_put {k : Kernel} {q : QueryBase} {value : Bytes} (h : (Run.hsetnx k q).1 = .put value) : q.hesh ≠ [] := by
  intro empty
  revert h
  simp only [Run.hsetnx, MapHandler.add, empty]
  split <;> simp

theorem writes_queryType {c : QueryClass} (h : c.Writes) : c.queryType ≠ .skip := by
  obtain ⟨P, run, body⟩ := h
  have kind := writer_queryType body
  intro skip
  simp [skip] at kind

theorem queryType_readAllow {c : QueryClass} (h : c.queryType = .readAllow) : c = .hsetnx := by
  cases c <;> first | rfl | (simp only [QueryClass.queryType, reduceCtorEq] at h)

theorem futureRun_class {c : QueryClass} (h : c.queryType = .futureRun) : c = .futureExec := by
  cases c <;> first | rfl | (simp only [QueryClass.queryType, reduceCtorEq] at h)

theorem mayDelete_queryType {c : QueryClass} (h : c.mayDelete = true) :
    c.queryType ∈ [QueryType.read, .iter, .delete] := by
  cases c <;> first | decide | exact absurd h (by decide)

/-- A query that was let in for a registered key asks for its type, or deletes. -/
theorem allows_base {c : QueryClass} {k : Kernel} {r : Request} {type : Bytes} (h : Allows c k r type)
    (kind : c.queryType ∈ [QueryType.write, .read, .readAllow, .iter, .delete]) :
    c.queryType = .delete ∨ c.baseRequest = some type := by
  simp only [List.mem_cons, List.not_mem_nil, or_false] at kind
  rcases kind with kind | kind | kind | kind | kind <;> simp only [Allows, kind] at h ⊢
  · exact .inr h
  · exact .inr h
  · exact .inr h
  · exact .inr h
  · exact .inl trivial

section
variable {P : Platform} {k : Kernel} {r : Request} {q : QueryBase}

theorem writer_outcome {run : Writer} (body : r.cls.body P = .writer run) (admitted : Admitted k r q) :
    ∃ us, Outcome P k r us ∧ k.apply q.database q.dest (run k q).1 = k.updates us := by
  have kind := writer_queryType body
  cases effect : (run k q).1 with
  | none => exact ⟨[], .unchanged, by simp [Kernel.apply]⟩
  | put value =>
    cases admitted with
    | found registered allows loaded =>
      exact ⟨_, .stored value ⟨P, run, body⟩ (.inl registered), by simp [Kernel.apply, update, Request.row]⟩
    | fresh absent writes base =>
      exact ⟨_, .stored value ⟨P, run, body⟩ (.inr ⟨absent, writes, base⟩), by simp [Kernel.apply, update, Request.row]⟩
    | absent absent allowed free =>
      have readAllow : r.cls.queryType = .readAllow := by
        revert kind allowed
        cases r.cls.queryType <;> decide
      have cls := queryType_readAllow readAllow
      have field : r.hesh ≠ [] := by
        rw [cls] at body
        obtain rfl : Run.hsetnx = run := by simpa only [QueryClass.body, Body.writer.injEq] using body
        exact hsetnx_put effect
      exact ⟨_, .stray value cls absent field, by simp [Kernel.apply, update]⟩
    | skip skips => simp [skips] at kind
  | delete =>
    have deletes := writer_delete body effect
    cases admitted with
    | found registered allows loaded =>
      exact ⟨_, .removed registered ⟨deletes, allows_base allows kind⟩, by
        simp [Kernel.apply, update, Request.row]⟩
    | fresh absent writes base =>
      have := mayDelete_queryType deletes
      simp [writes] at this
    | absent absent allowed free =>
      have deleting := mayDelete_queryType deletes
      exfalso
      revert deleting allowed
      cases r.cls.queryType <;> decide
    | skip skips => simp [skips] at kind

/-! ## The other methods -/

theorem isExpiring_found {type : Bytes} {mapped : Option Bytes} :
    (r.found type mapped).isExpiring k = if 0 < r.ttl k then r.ttl k else -1 := rfl

theorem not_expiring {type : Bytes} {mapped : Option Bytes} (h : ¬ (type = intKey ∧ 0 < r.ttl k)) :
    ¬ (type = intKey ∧ (r.found type mapped).isExpiring k > 0) := by
  rintro ⟨key, positive⟩
  rw [isExpiring_found, if_neg fun pos => h ⟨key, pos⟩] at positive
  exact absurd positive (by decide)

theorem lasting_of_not {type : Bytes} (registered : r.registered k = some type) (h : ¬ (type = intKey ∧ 0 < r.ttl k)) :
    ¬ r.Expiring k := by
  rintro ⟨key, positive⟩
  exact h ⟨Option.some.inj (registered.symm.trans key), positive⟩

section
variable {type value : Bytes} {mapped : Option Bytes} (h : k.Writable)
  (held : k.get r.database (r.row type) = some value)
  (loaded : mapped = none ∨ mapped = k.get r.database (r.row type))
include h held loaded

theorem renameBody_lasting (lasting : ¬ (type = intKey ∧ 0 < r.ttl k)) : Run.renameBody k (r.found type mapped) =
    (k.updates [.put r.database (keyRow r.value r.select type) value, .erase r.database (r.row type)],
      (r.found type mapped).setOK) := by
  have text : (r.found type mapped).destValue k = value := destValue_found held loaded rfl rfl rfl
  simp only [Run.renameBody, Request.found_identified, if_neg (not_expiring lasting), text, QueryBase.swap]
  rw [swap_updates h]
  simp [Request.row]

theorem renameBody_expiring (own : type = intKey) (positive : 0 < r.ttl k) : Run.renameBody k (r.found type mapped) =
    (k.updates [.put r.database (keyRow r.value r.select intKey) value, .erase r.database (r.row intKey),
        .put r.database (expireRow r.value r.select r.database) (convtoString (r.ttl k).toNat),
        .cancel r.database r.key r.select, .schedule r.database (toSigned (r.ttl k).toNat) r.value r.select],
      { r.found type mapped with id := (r.ttl k).toNat }.setOK) := by
  subst own
  have ttl : (r.found intKey mapped).isExpiring k = r.ttl k := if_pos positive
  have text : { r.found intKey mapped with id := (r.ttl k).toNat }.destValue k = value :=
    destValue_found held loaded rfl rfl rfl
  simp only [Run.renameBody, ttl, text, swapWithExpire_updates h]
  simp [positive, Request.row]

omit h in
theorem copy_lasting (lasting : ¬ (type = intKey ∧ 0 < r.ttl k)) : Run.copy k (r.found type mapped) =
    (k.updates [.put r.database (keyRow r.value r.select type) value], r.found type mapped) := by
  have text : (r.found type mapped).destValue k = value := destValue_found held loaded rfl rfl rfl
  simp only [Run.copy, Request.found_identified, if_neg (not_expiring lasting), text]
  simp [update]

theorem copy_expiring (own : type = intKey) (positive : 0 < r.ttl k) : Run.copy k (r.found type mapped) =
    (k.updates [.put r.database (expireRow r.value r.select r.database) (convtoString (r.ttl k).toNat),
        .schedule r.database (toSigned (r.ttl k).toNat) r.value r.select,
        .put r.database (keyRow r.value r.select intKey) value],
      r.found type mapped) := by
  subst own
  have text : (r.found intKey mapped).destValue k = value := destValue_found held loaded rfl rfl rfl
  have ttl : (r.found intKey mapped).isExpiring k = r.ttl k := if_pos positive
  simp only [Run.copy, ttl, text, writeExpire_updates h]
  simp [positive, update]

theorem move_lasting (lasting : ¬ (type = intKey ∧ 0 < r.ttl k)) : Run.move k (r.found type mapped) =
    (k.updates [.put r.database (rowName r.key r.value type) value, .erase r.database (r.row type)],
      (r.found type mapped).setOK) := by
  have text : (r.found type mapped).destValue k = value := destValue_found held loaded rfl rfl rfl
  simp only [Run.move, Request.found_identified, if_neg (not_expiring lasting), text, QueryBase.swap]
  rw [swap_updates h]
  simp [Request.row]

theorem move_expiring (own : type = intKey) (positive : 0 < r.ttl k) : Run.move k (r.found type mapped) =
    (k.updates [.put r.database (rowName r.key r.value intKey) value, .erase r.database (r.row intKey),
        .put r.database (rowName r.key r.value (ownedType intExpire r.database)) (convtoString (r.ttl k).toNat),
        .cancel r.database r.key r.select,
        .schedule r.database (toSigned (r.ttl k).toNat) r.key (convtoUnsigned r.value)],
      { r.found type mapped with id := (r.ttl k).toNat }.setOK) := by
  subst own
  have ttl : (r.found intKey mapped).isExpiring k = r.ttl k := if_pos positive
  have text : { r.found intKey mapped with id := (r.ttl k).toNat }.destValue k = value :=
    destValue_found held loaded rfl rfl rfl
  simp only [Run.move, ttl, text, swapExpire_updates h]
  simp [positive, Request.row, update_cancel, update_schedule]

omit h in
theorem clone_lasting (lasting : ¬ (type = intKey ∧ 0 < r.ttl k)) : Run.clone k (r.found type mapped) =
    (k.updates [.put r.database (rowName r.key r.value type) value], (r.found type mapped).setOK) := by
  have text : (r.found type mapped).destValue k = value := destValue_found held loaded rfl rfl rfl
  simp only [Run.clone, Request.found_identified, if_neg (not_expiring lasting), text]
  simp [update]

end

theorem clone_expiring {type : Bytes} {mapped : Option Bytes} (h : k.Writable) (own : type = intKey)
    (positive : 0 < r.ttl k) : Run.clone k (r.found type mapped) =
      (k.updates [
          .put r.database (expireRow r.key (convtoUnsigned r.value) r.database) (convtoString (r.ttl k).toNat),
          .put r.database (rowName r.key r.value intKey) (toBin r.value),
          .schedule r.database (toSigned (r.ttl k).toNat) r.key (convtoUnsigned r.value)],
        { r.found type mapped with id := (r.ttl k).toNat }.setOK) := by
  subst own
  have ttl : (r.found intKey mapped).isExpiring k = r.ttl k := if_pos positive
  simp only [Run.clone, ttl, expireBatch_updates h]
  simp [positive]

section
variable {type : Bytes} {mapped : Option Bytes} (h : k.Writable) (registered : r.registered k = some type)
  (allows : Allows r.cls k r type) (loaded : mapped = none ∨ mapped = k.get r.database (keyRow r.key r.select type))
include h registered allows loaded

theorem rename_outcome (cls : r.cls ∈ [.rename, .renamenx]) :
    ∃ us, Outcome P k r us ∧ (Run.renameBody k (r.found type mapped)).1 = k.updates us := by
  obtain ⟨-, value, held⟩ := registered_some registered
  by_cases expiring : type = intKey ∧ 0 < r.ttl k
  · obtain ⟨rfl, positive⟩ := expiring
    exact ⟨_, .renamedExpiring cls ⟨registered, positive⟩ allows held,
      by rw [renameBody_expiring h held loaded rfl positive]⟩
  · exact ⟨_, .renamed cls registered allows held (lasting_of_not registered expiring),
      by rw [renameBody_lasting h held loaded expiring]⟩

theorem copy_outcome (cls : r.cls = .copy) :
    ∃ us, Outcome P k r us ∧ (Run.copy k (r.found type mapped)).1 = k.updates us := by
  obtain ⟨-, value, held⟩ := registered_some registered
  by_cases expiring : type = intKey ∧ 0 < r.ttl k
  · obtain ⟨rfl, positive⟩ := expiring
    exact ⟨_, .copiedExpiring cls ⟨registered, positive⟩ allows held,
      by rw [copy_expiring h held loaded rfl positive]⟩
  · exact ⟨_, .copied cls registered allows held (lasting_of_not registered expiring),
      by rw [copy_lasting held loaded expiring]⟩

theorem move_outcome (cls : r.cls = .move) :
    ∃ us, Outcome P k r us ∧ (Run.move k (r.found type mapped)).1 = k.updates us := by
  obtain ⟨-, value, held⟩ := registered_some registered
  by_cases expiring : type = intKey ∧ 0 < r.ttl k
  · obtain ⟨rfl, positive⟩ := expiring
    exact ⟨_, .movedExpiring cls ⟨registered, positive⟩ allows held,
      by rw [move_expiring h held loaded rfl positive]⟩
  · exact ⟨_, .moved cls registered allows held (lasting_of_not registered expiring),
      by rw [move_lasting h held loaded expiring]⟩

theorem clone_outcome (cls : r.cls = .clone) :
    ∃ us, Outcome P k r us ∧ (Run.clone k (r.found type mapped)).1 = k.updates us := by
  obtain ⟨-, value, held⟩ := registered_some registered
  by_cases expiring : type = intKey ∧ 0 < r.ttl k
  · obtain ⟨rfl, positive⟩ := expiring
    exact ⟨_, .clonedExpiring cls ⟨registered, positive⟩ allows, by rw [clone_expiring h rfl positive]⟩
  · exact ⟨_, .cloned cls registered allows held (lasting_of_not registered expiring),
      by rw [clone_lasting held loaded expiring]⟩

end

/-- Nothing is registered, so the type of the row is `PROCESS_NULL`. -/
theorem copy_absent (r : Request) : (Run.copy k r.absent).1 =
    k.updates [.put r.database (keyRow r.value r.select processNull) (r.absent.destValue k)] := by
  have other : ¬ (processNull = intKey ∧ r.absent.isExpiring k > 0) := fun same => absurd same.1 (by decide)
  simp only [Run.copy, Request.absent_identified, if_neg other]
  simp [update]

theorem transfer_outcome (h : k.Writable) (cls : r.cls = .transfer) {type target : Bytes} {mapped : Option Bytes}
    (registered : r.registered k = some type) (allows : Allows r.cls k r type) (goal : r.transfDb = some target)
    (loaded : mapped = none ∨ mapped = k.get r.database (keyRow r.key r.select type)) :
    ∃ us, Outcome P k r us ∧ (Run.transfer target k (r.found type mapped)).1 = k.updates us := by
  obtain ⟨-, value, held⟩ := registered_some registered
  have text : (r.found type mapped).destValue k = value := destValue_found held loaded rfl rfl rfl
  by_cases expiring : type = intKey ∧ 0 < r.ttl k
  · obtain ⟨rfl, positive⟩ := expiring
    refine ⟨_, .transferredExpiring cls ⟨registered, positive⟩ allows goal held, ?_⟩
    have ttl : (r.found intKey mapped).isExpiring k = r.ttl k := if_pos positive
    have removed : (r.found intKey mapped).delExpire k =
        k.updates [.cancel r.database r.key r.select, .erase r.database (expireRow r.key r.select r.database)] := by
      simp [delExpire, update]
    simp only [Run.transfer, ttl, text, removed, writeExpire_updates (h.updates _)]
    simp [positive, update, Request.row]
  · refine ⟨_, .transferred cls registered allows goal held (lasting_of_not registered expiring), ?_⟩
    simp only [Run.transfer, Request.found_identified, if_neg (not_expiring expiring), text]
    simp [update, Request.row]

theorem del_outcome (h : k.Writable) (cls : r.cls = .del) {type : Bytes} {mapped : Option Bytes}
    (registered : r.registered k = some type) :
    ∃ us, Outcome P k r us ∧ (Run.del k (r.found type mapped)).1 = k.updates us := by
  by_cases expiring : type = intKey ∧ 0 < r.ttl k
  · obtain ⟨rfl, positive⟩ := expiring
    refine ⟨_, .deletedExpiring cls ⟨registered, positive⟩, ?_⟩
    have ttl : (r.found intKey mapped).isExpiring k = r.ttl k := if_pos positive
    simp only [Run.del, ttl, eraseErase_updates h]
    simp [positive, Request.row, update_cancel]
  · refine ⟨_, .deleted cls registered (lasting_of_not registered expiring), ?_⟩
    simp only [Run.del, Request.found_identified, if_neg (not_expiring expiring)]
    simp [update, Request.row]

theorem persist_outcome (cls : r.cls ∈ [.expireDel, .getpersist]) {mapped : Option Bytes}
    (registered : r.registered k = some intKey) :
    ∃ us, Outcome P k r us ∧ (r.found intKey mapped).delExpire k = k.updates us :=
  ⟨_, .persisted cls registered, by simp [delExpire, update]⟩

theorem deadline_outcome (h : k.Writable) (cls : r.cls ∈ [.expire, .expireat, .getexp]) {mapped : Option Bytes}
    (registered : r.registered k = some intKey) :
    ∃ us, Outcome P k r us ∧
      (r.found intKey mapped).writeExpire k r.key r.select r.id r.database = k.updates us :=
  ⟨_, .deadline cls registered, writeExpire_updates h _ _ _ _ _⟩

theorem future_outcome (h : k.Writable) (cls : r.cls = .future) (database : q.database = r.database)
    (key : q.key = r.key) (select : q.select = r.select) (id : q.id = r.id) (value : q.value = r.value) :
    ∃ us, Outcome P k r us ∧ (Run.future k q).1 = k.updates us := by
  refine ⟨_, .planned cls, ?_⟩
  rw [Run.future, key, select, id, value, writeFuture_updates h, database]

theorem delFuture_updates (k : Kernel) (q : QueryBase) :
    q.delFuture k = k.updates [.unplan q.database q.key q.select,
      .erase q.database (futureRow q.key q.select q.database)] := by
  simp [delFuture, update]

theorem futureDel_outcome (cls : r.cls = .futureDel) (database : q.database = r.database) (key : q.key = r.key)
    (select : q.select = r.select) : ∃ us, Outcome P k r us ∧ (Run.futureDel k q).1 = k.updates us := by
  unfold Run.futureDel
  split
  · exact ⟨_, .unplanned (by simp [cls]), by rw [delFuture_updates, database, key, select]⟩
  · exact ⟨[], .unchanged, (updates_nil k).symm⟩

theorem futureExec_outcome (h : k.Writable) (cls : r.cls = .futureExec)
    (place : r.registered k = some intKey ∨ r.registered k = none) (database : q.database = r.database)
    (key : q.key = r.key) (select : q.select = r.select) :
    ∃ us, Outcome P k r us ∧ (Run.futureExec k q).1 = k.updates us := by
  unfold Run.futureExec
  split
  · rename_i row held
    rw [database, key, select] at held
    refine ⟨_, .applied cls held place, ?_⟩
    dsimp only
    rw [delFuture_updates, put_writable h, updates_cons k, Request.row, ← database, ← key, ← select]
  · exact ⟨_, .unplanned (by simp [cls]), by rw [delFuture_updates, database, key, select]⟩

theorem setex_outcome (h : k.Writable) (cls : r.cls = .setex)
    (place : r.registered k = some intKey ∨ r.registered k = none) (database : q.database = r.database)
    (key : q.key = r.key) (select : q.select = r.select) (id : q.id = r.id) (value : q.value = r.value)
    (dest : q.dest = r.row intKey) : ∃ us, Outcome P k r us ∧ (Run.setex k q).1 = k.updates us := by
  refine ⟨_, .setex cls place, ?_⟩
  rw [Run.setex, key, select, id, value, dest, expireBatch_updates h, database]

theorem dbreset_outcome (cls : r.cls = .dbreset) (own : r.key = r.database) :
    ∃ us, Outcome P k r us ∧ (Run.dbreset k r.plain).1 = k.updates us := by
  refine ⟨_, .closed cls, ?_⟩
  simp [Run.dbreset, update, own, Kernel.close]

/-! ## Every class -/

theorem admitted_found (kind : r.cls.queryType ∈ [QueryType.read, .expire, .rename, .renamenx, .move, .clone,
    .transfer, .delete]) (admitted : Admitted k r q) :
    ∃ type mapped, q = r.found type mapped ∧ r.registered k = some type ∧ Allows r.cls k r type ∧
      (mapped = none ∨ mapped = k.get r.database (keyRow r.key r.select type)) := by
  cases admitted with
  | found registered allows loaded => exact ⟨_, _, rfl, registered, allows, loaded⟩
  | fresh absent writes => simp [writes] at kind
  | absent absent allowed free =>
    exfalso
    revert kind allowed
    cases r.cls.queryType <;> decide
  | skip skips => simp [skips] at kind

theorem admitted_skip (kind : r.cls.queryType = .skip) (admitted : Admitted k r q) : q = r.plain := by
  cases admitted with
  | found registered allows => simp [Allows, kind] at allows
  | fresh absent writes => simp [kind] at writes
  | absent absent allowed free => simp [kind] at allowed
  | skip => rfl

/-- The classes that work on a key or write a future, whatever is registered. -/
theorem admitted_place (type : Bytes) (base : r.cls.baseRequest = some type)
    (kind : r.cls.queryType ∈ [QueryType.write, .future, .futureRun]) (admitted : Admitted k r q) :
    (r.registered k = some type ∨ r.registered k = none) ∧ q.database = r.database ∧ q.key = r.key ∧
      q.select = r.select ∧ q.id = r.id ∧ q.value = r.value ∧ (r.cls.queryType = .write → q.dest = r.row type) := by
  cases admitted with
  | @found known _ registered allows =>
    have same : r.cls.baseRequest = some known := by
      revert allows
      simp only [List.mem_cons, List.not_mem_nil, or_false] at kind
      rcases kind with kind | kind | kind <;> simp [Allows, kind]
    cases Option.some.inj (same.symm.trans base)
    exact ⟨.inl registered, rfl, rfl, rfl, rfl, rfl, fun _ => rfl⟩
  | fresh absent writes same =>
    cases Option.some.inj (same.symm.trans base)
    exact ⟨.inr absent, rfl, rfl, rfl, rfl, rfl, fun _ => rfl⟩
  | absent absent allowed free =>
    exact ⟨.inr absent, rfl, rfl, rfl, rfl, rfl, fun writes => by simp [writes] at allowed⟩
  | skip skips => simp [skips] at kind

/-- What the handlers let a client send: the two loading queries are the server's own, and DBRESET names the
database it is for. -/
structure Request.Client (r : Request) : Prop where
  own : r.cls ≠ .expireList ∧ r.cls ≠ .futureList
  reset : r.cls = .dbreset → r.key = r.database

theorem runner_outcome (h : k.Writable) (client : r.Client) {run : Runner} (body : r.cls.body P = .runner run)
    (admitted : Admitted k r q) : ∃ us, Outcome P k r us ∧ (run k q).1 = k.updates us := by
  have deadline (cls : r.cls ∈ [.expire, .expireat, .getexp]) : ∃ us, Outcome P k r us ∧
      q.writeExpire k q.key q.select q.id q.database = k.updates us := by
    simp only [List.mem_cons, List.not_mem_nil, or_false] at cls
    obtain ⟨type, mapped, rfl, registered, allows, -⟩ := admitted_found (by
      rcases cls with cls | cls | cls <;> simp [cls, QueryClass.queryType]) admitted
    have base : r.cls.baseRequest = some type := by
      rcases cls with cls | cls | cls <;> simpa [Allows, cls, QueryClass.queryType] using allows
    obtain rfl : type = intKey := by
      rcases cls with cls | cls | cls <;> simpa [cls, QueryClass.baseRequest, eq_comm] using base
    exact deadline_outcome h (by simpa using cls) registered
  have persist (cls : r.cls ∈ [.expireDel, .getpersist]) : ∃ us, Outcome P k r us ∧ q.delExpire k = k.updates us := by
    simp only [List.mem_cons, List.not_mem_nil, or_false] at cls
    obtain ⟨type, mapped, rfl, registered, allows, -⟩ := admitted_found (by
      rcases cls with cls | cls <;> simp [cls, QueryClass.queryType]) admitted
    obtain rfl : type = intKey := by
      rcases cls with cls | cls <;> simpa [Allows, cls, QueryClass.queryType, QueryClass.baseRequest, eq_comm] using allows
    exact persist_outcome (by simpa using cls) registered
  cases cls : r.cls <;> rw [cls] at body <;>
    simp only [QueryClass.body, Body.runner.injEq, reduceCtorEq] at body <;> subst body
  case setex =>
    obtain ⟨place, database, key, select, id, value, dest⟩ :=
      admitted_place intKey (by simp [cls, QueryClass.baseRequest]) (by simp [cls, QueryClass.queryType]) admitted
    exact setex_outcome h cls place database key select id value (dest (by simp [cls, QueryClass.queryType]))
  case future =>
    obtain ⟨-, database, key, select, id, value, -⟩ :=
      admitted_place intKey (by simp [cls, QueryClass.baseRequest]) (by simp [cls, QueryClass.queryType]) admitted
    exact future_outcome h cls database key select id value
  case futureDel =>
    obtain ⟨-, database, key, select, -⟩ :=
      admitted_place intKey (by simp [cls, QueryClass.baseRequest]) (by simp [cls, QueryClass.queryType]) admitted
    exact futureDel_outcome cls database key select
  case futureExec =>
    obtain ⟨place, database, key, select, -⟩ :=
      admitted_place intKey (by simp [cls, QueryClass.baseRequest]) (by simp [cls, QueryClass.queryType]) admitted
    exact futureExec_outcome h cls place database key select
  case expire | expireat | getexp => exact deadline (by simp [cls])
  case expireDel | getpersist => exact persist (by simp [cls])
  case futureList => exact absurd cls client.own.2
  case expireList => exact absurd cls client.own.1
  case wdel =>
    cases admitted_skip (by simp [cls, QueryClass.queryType]) admitted
    exact ⟨_, .wiped cls, foldl_wdelRow r _ k⟩
  case georem =>
    cases admitted_skip (by simp [cls, QueryClass.queryType]) admitted
    unfold Run.georem
    split
    · exact ⟨[], .unchanged, (updates_nil k).symm⟩
    · exact ⟨_, .near cls, foldl_erase _ _ k⟩
  case sflush =>
    cases admitted_skip (by simp [cls, QueryClass.queryType]) admitted
    exact ⟨_, .flushed cls, foldl_erase _ _ k⟩
  case dbreset =>
    cases admitted_skip (by simp [cls, QueryClass.queryType]) admitted
    exact dbreset_outcome cls (client.reset cls)
  case copy =>
    cases admitted with
    | found registered allows loaded => exact copy_outcome h registered allows loaded cls
    | fresh absent writes => simp [cls, QueryClass.queryType] at writes
    | absent absent allowed free =>
      exact ⟨_, .copiedNothing (r.absent.destValue k) cls absent (free (by simp [cls, QueryClass.queryType])), copy_absent r⟩
    | skip skips => simp [cls, QueryClass.queryType] at skips
  all_goals
    obtain ⟨type, mapped, rfl, registered, allows, loaded⟩ :=
      admitted_found (by simp [cls, QueryClass.queryType]) admitted
  case rename => exact rename_outcome h registered allows loaded (by simp [cls])
  case renamenx => exact rename_outcome h registered allows loaded (by simp [cls])
  case move => exact move_outcome h registered allows loaded cls
  case clone => exact clone_outcome h registered allows loaded cls
  case del => exact del_outcome h cls registered
  case transfer =>
    obtain ⟨target, goal, -⟩ : ∃ target ∈ r.transfDb, _ := by
      simpa only [Allows, cls, QueryClass.queryType] using allows
    rw [Option.mem_def] at goal
    simpa only [transferBody, Request.found_transfDb, goal] using transfer_outcome h cls registered allows goal loaded

theorem run_outcome (h : k.Writable) (client : r.Client) (admitted : Admitted k r q) :
    ∃ us, Outcome P k r us ∧ (run P r.cls k q).1 = k.updates us := by
  unfold run
  cases body : r.cls.body P with
  | reader run => exact ⟨[], .unchanged, (updates_nil k).symm⟩
  | writer run => exact writer_outcome body admitted
  | runner run => exact runner_outcome h client body admitted

/-- On databases that take writes, executing a client's request on an open database is one of the lists of
updates; on a closing one it does nothing. -/
theorem execute_outcome (P : Platform) (h : k.Writable) (client : r.Client) :
    k.execute P r = k ∨
      (k.databases r.database).closing = false ∧ ∃ us, Outcome P k r us ∧ k.execute P r = k.updates us := by
  have entered : ∃ us, Outcome P k r us ∧ (dispatch P r.cls k r.plain).1 = k.updates us := by
    cases registry : r.registered k with
    | some type =>
      obtain ⟨q, admitted, ran⟩ | same | ⟨kind, -, dropped⟩ := dispatch_registered (P := P) registry
      · rw [ran]
        exact run_outcome h client admitted
      · exact ⟨[], .unchanged, same.trans (updates_nil k).symm⟩
      · rw [dropped]
        have cls : r.cls = .futureExec := futureRun_class kind
        exact ⟨_, .unplanned (by simp [cls]), delFuture_updates k r.query⟩
    | none =>
      obtain ⟨q, admitted, ran⟩ | same := dispatch_unregistered (P := P) registry
      · rw [ran]
        exact run_outcome h client admitted
      · exact ⟨[], .unchanged, same.trans (updates_nil k).symm⟩
  unfold Kernel.execute prepare
  split
  · exact .inl rfl
  · rename_i opened
    exact .inr ⟨by simpa using opened, entered⟩

end

end BerylDB.Store
