import BerylDB.Outcome

/-! # What updates leave in the rows and in the table of deadlines

`contents` and `deadlines` say what is read after a list of updates: the rows as one function of database
and row name, the list of expiries as one of database, key and select. -/
namespace BerylDB.Store
open Text Kernel

abbrev Contents := Bytes → Bytes → Option Bytes
abbrev Deadlines := Bytes → Bytes → ℕ → Option ℤ

/-! ## Names -/

theorem rowName_inj {key key' select select' type type' : Bytes} (h : (58 : UInt8) ∉ select)
    (h' : (58 : UInt8) ∉ select') :
    rowName key select type = rowName key' select' type' ↔ key = key' ∧ select = select' ∧ type = type' := by
  unfold rowName
  rw [append_sep_inj (colon_not_mem_toBin key) (colon_not_mem_toBin key'), append_sep_inj h h', toBin_injective.eq_iff]

theorem keyRow_inj {key key' type type' : Bytes} {select select' : ℕ} :
    keyRow key select type = keyRow key' select' type' ↔ key = key' ∧ select = select' ∧ type = type' := by
  unfold keyRow
  rw [rowName_inj (colon_not_mem_convtoString select) (colon_not_mem_convtoString select'),
    convtoString_injective.eq_iff]

theorem rowName_eq_keyRow {key key' text type type' : Bytes} {select : ℕ} (h : (58 : UInt8) ∉ text) :
    rowName key text type = keyRow key' select type' ↔ key = key' ∧ text = convtoString select ∧ type = type' :=
  rowName_inj h (colon_not_mem_convtoString select)

theorem colon_not_mem_typeRegs {type : Bytes} (h : type ∈ typeRegs) : (58 : UInt8) ∉ type := by
  have all : ∀ t ∈ typeRegs, (58 : UInt8) ∉ t := by decide
  exact all type h

/-- The types that name a database are not registered ones. -/
theorem ownedType_not_mem (type database : Bytes) : ownedType type database ∉ typeRegs := fun h =>
  colon_not_mem_typeRegs h (by simp [ownedType])

theorem expireRow_ne_keyRow {key key' type database : Bytes} {select select' : ℕ} (h : type ∈ typeRegs) :
    expireRow key select database ≠ keyRow key' select' type := fun same =>
  ownedType_not_mem _ _ ((keyRow_inj.mp same).2.2 ▸ h)

theorem futureRow_ne_keyRow {key key' type database : Bytes} {select select' : ℕ} (h : type ∈ typeRegs) :
    futureRow key select database ≠ keyRow key' select' type := fun same =>
  ownedType_not_mem _ _ ((keyRow_inj.mp same).2.2 ▸ h)

theorem ownedType_inj {type database database' : Bytes} :
    ownedType type database = ownedType type database' ↔ database = database' := by
  simp [ownedType]

theorem expireRow_inj {key key' database database' : Bytes} {select select' : ℕ} :
    expireRow key select database = expireRow key' select' database' ↔
      key = key' ∧ select = select' ∧ database = database' := by
  rw [expireRow, expireRow, keyRow_inj, ownedType_inj]

theorem ownedType_ne {type type' database database' : Bytes} (h : (58 : UInt8) ∉ type) (h' : (58 : UInt8) ∉ type')
    (other : type ≠ type') : ownedType type database ≠ ownedType type' database' := fun same =>
  other ((append_sep_inj h h').mp same).1

theorem futureRow_ne_expireRow {key key' database database' : Bytes} {select select' : ℕ} :
    futureRow key select database ≠ expireRow key' select' database' := fun same =>
  ownedType_ne (by decide) (by decide) (by decide) (keyRow_inj.mp same).2.2

/-! ## Rows -/

def Update.contents : Update → Contents → Contents
  | .put db row value, g => fun d x => if d = db ∧ x = row then some value else g d x
  | .erase db row, g => fun d x => if d = db ∧ x = row then none else g d x
  | _, g => g

def contents (us : List Update) (g : Contents) : Contents := us.foldl (fun g u => u.contents g) g

@[simp] theorem contents_nil (g : Contents) : contents [] g = g := rfl

@[simp] theorem contents_cons (u : Update) (us : List Update) (g : Contents) :
    contents (u :: us) g = contents us (u.contents g) := rfl

theorem contents_append (us vs : List Update) (g : Contents) : contents (us ++ vs) g = contents vs (contents us g) :=
  List.foldl_append

theorem get_write {k : Kernel} (h : k.Writable) (db : Bytes) (batch : Rows → Rows) (d x : Bytes) :
    (k.write db batch).1.get d x = if d = db then (batch (k.rows db))[x]? else k.get d x := by
  rw [write_writable h]
  by_cases hd : d = db
  · subst hd
    simp [Kernel.get, Kernel.rows]
  · simp [Kernel.get, Kernel.rows, hd]

theorem get_update {k : Kernel} (h : k.Writable) (u : Update) : (k.update u).get = u.contents k.get := by
  funext d x
  cases u with
  | put db row value =>
    rw [update, Kernel.put, get_write h, Std.ExtTreeMap.getElem?_insert]
    by_cases hd : d = db
    · subst hd
      by_cases hx : row = x <;> simp [Update.contents, hx, Ne.symm, Kernel.get]
    · simp [Update.contents, hd]
  | erase db row =>
    rw [update, Kernel.erase, get_write h, Std.ExtTreeMap.getElem?_erase]
    by_cases hd : d = db
    · subst hd
      by_cases hx : row = x <;> simp [Update.contents, hx, Ne.symm, Kernel.get]
    · simp [Update.contents, hd]
  | schedule db time key select =>
    rw [update]
    simp only [Kernel.get, Kernel.rows, databases_addExpire, Update.contents]
  | plan db time key select =>
    rw [update]
    simp only [Kernel.get, Kernel.rows, databases_addFuture, Update.contents]
  | cancel db key select => rfl
  | unplan db key select => rfl
  | close db =>
    by_cases hd : d = db
    · subst hd
      simp [update, Kernel.close, closeExpires, closeFutures, Kernel.get, Kernel.rows, Update.contents]
    · simp [update, Kernel.close, closeExpires, closeFutures, Kernel.get, Kernel.rows, Update.contents, hd]

theorem get_updates {k : Kernel} (h : k.Writable) (us : List Update) : (k.updates us).get = contents us k.get := by
  induction us generalizing k with
  | nil => rw [updates_nil, contents_nil]
  | cons u us ih => rw [updates_cons, contents_cons, ih (h.update u), get_update h]

/-- A row that is there after the updates was there before, or one of them put it. -/
theorem contents_isSome {us : List Update} {g : Contents} {db row : Bytes} (h : (contents us g db row).isSome) :
    (g db row).isSome ∨ ∃ value, .put db row value ∈ us := by
  induction us generalizing g with
  | nil => exact .inl h
  | cons u us ih =>
    rcases ih h with here | ⟨value, later⟩
    · cases u with
      | put db' row' value =>
        by_cases same : db = db' ∧ row = row'
        · obtain ⟨rfl, rfl⟩ := same
          exact .inr ⟨value, by simp⟩
        · exact .inl (by simpa [Update.contents, same] using here)
      | erase db' row' =>
        by_cases same : db = db' ∧ row = row'
        · simp [Update.contents, same] at here
        · exact .inl (by simpa [Update.contents, same] using here)
      | _ => exact .inl here
    · exact .inr ⟨value, List.mem_cons_of_mem _ later⟩

end BerylDB.Store
