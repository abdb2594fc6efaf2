import BerylDB.Parameters
import BerylDB.Preparing

/-! # SUBSTR

The sum of offset and limit is compared as an `unsigned int`; `substr` then takes both for a `size_t`. -/
namespace BerylDB.Store
open Text QueryBase Kernel Transition

/-- The query that `CommandGetSubstr::Handle` pushes; any text is a number. -/
def commandGetSubstr (db : Bytes) (select : ℕ) (key start count : Bytes) : Option Request :=
  if keyValidator key then
    some { cls := .getSubstr, database := db, key, select, offset := convtoSigned start, limit := convtoSigned count }
  else none

/-- The text of a key; an absent one has none. -/
def Kernel.keyText (k : Kernel) (r : Request) : Bytes := toStr ((k.get r.database (r.row intKey)).getD [])

/-- The row of a key has the substring, and no other row is changed. -/
structure Cuts (P : Platform) (k : Kernel) (r : Request) : Prop where
  offset : 0 ≤ r.offset
  limit : 0 ≤ r.limit
  inside : r.offset + r.limit ≤ (k.keyText r).length
  registered : r.registered k = some intKey
  ok : (k.reply P r).finished = true
  row : (k.execute P r).get r.database (r.row intKey) =
    some (toBin (((k.keyText r).drop r.offset.toNat).take r.limit.toNat))
  others : ∀ db row, ¬ (db = r.database ∧ row = r.row intKey) → (k.execute P r).get db row = k.get db row

/-- SUBSTR refuses the range and changes nothing, or cuts a substring of an existing key. -/
def SubstrSafe (P : Platform) (k : Kernel) (r : Request) : Prop :=
  (k.reply P r).access = .invalidRange ∧ k.execute P r = k ∨ Cuts P k r

/-! ## The three ways of `get_substr_query::Run` -/

section
variable {k : Kernel} {q : QueryBase}

theorem getSubstr_refused (refused : ((Run.text k q).length : ℤ) < (q.offset + q.limit) % 2 ^ 32) :
    Run.getSubstr k q = (.none, (q.respond (Run.text k q)).accessSet .invalidRange) := if_pos refused

/-- `substr` throws. -/
theorem getSubstr_thrown (let_in : ¬ ((Run.text k q).length : ℤ) < (q.offset + q.limit) % 2 ^ 32)
    (past : (Run.text k q).length < (q.offset % 2 ^ 64).toNat) :
    Run.getSubstr k q = (.none, q.respond (Run.text k q)) :=
  (if_neg let_in).trans (if_pos past)

theorem getSubstr_cut (let_in : ¬ ((Run.text k q).length : ℤ) < (q.offset + q.limit) % 2 ^ 32)
    (inside : ¬ (Run.text k q).length < (q.offset % 2 ^ 64).toNat) : ∃ q' : QueryBase,
    q'.database = q.database ∧ q'.access = q.access ∧ Run.getSubstr k q = writeDest k q'
      (toBin (((Run.text k q).drop (q.offset % 2 ^ 64).toNat).take (q.limit % 2 ^ 64).toNat)) :=
  ⟨(q.respond (Run.text k q)).respond (((Run.text k q).drop (q.offset % 2 ^ 64).toNat).take (q.limit % 2 ^ 64).toNat),
    rfl, rfl, by
      unfold Run.getSubstr
      exact (if_neg let_in).trans (if_neg inside)⟩

end

section
variable {P : Platform} {k : Kernel} {r : Request}

/-- `Run` reads the text of a registered key. -/
theorem Kernel.keyText_found (registered : r.registered k = some intKey) :
    Run.text k (r.found intKey (k.get r.database (r.row intKey))) = k.keyText r := by
  obtain ⟨-, value, held⟩ := registered_some registered
  change toStr ((QueryBase.get k (r.found intKey (k.get r.database (r.row intKey))) _).getD []) = _
  rw [keyText, show k.get r.database (r.row intKey) = some value from held]
  rfl

/-- `Run` is given the row of the key, or the row to create. -/
theorem getSubstr_ran (cls : r.cls = .getSubstr) (opened : k.Opened r.database)
    (place : r.registered k = some intKey ∨ r.registered k = none) :
    ∃ q : QueryBase, q.offset = r.offset ∧ q.limit = r.limit ∧ q.database = r.database ∧ q.access ≠ .invalidRange ∧
      q.finished = false ∧ Run.text k q = k.keyText r ∧
      prepare P r.cls k r.query = (k.apply r.database (r.row intKey) (Run.getSubstr k q).1, (Run.getSubstr k q).2) := by
  have kind : r.cls.queryType = .write := by rw [cls]; rfl
  have own : r.cls.baseRequest = some intKey := by rw [cls]; rfl
  rcases place with registered | absent
  · refine ⟨r.found intKey (k.get r.database (r.row intKey)), rfl, rfl, rfl, DblCode.noConfusion, rfl,
      Kernel.keyText_found registered, ?_⟩
    rw [prepare_loaded opened registered (by simp [kind]) own, if_pos rfl, cls]
    rfl
  · refine ⟨r.fresh intKey, rfl, rfl, rfl, DblCode.noConfusion, rfl, rfl, ?_⟩
    rw [prepare_fresh opened absent kind own, cls]
    rfl

theorem getSubstr_safe (writable : k.Writable) (cls : r.cls = .getSubstr) (opened : k.Opened r.database)
    (place : r.registered k = some intKey ∨ r.registered k = none) (offset : -2 ^ 31 ≤ r.offset ∧ r.offset < 2 ^ 31)
    (limit : -2 ^ 31 ≤ r.limit ∧ r.limit < 2 ^ 31) : SubstrSafe P k r ↔
      ((k.keyText r).length : ℤ) < (r.offset + r.limit) % 2 ^ 32 ∨
      r.registered k = some intKey ∧ 0 ≤ r.offset ∧ 0 ≤ r.limit := by
  obtain ⟨q, hoffset, hlimit, hdb, fresh, unfinished, htext, ran⟩ := getSubstr_ran (P := P) cls opened place
  have reply : k.reply P r = (Run.getSubstr k q).2 := congrArg Prod.snd ran
  have effect : k.execute P r = k.apply r.database (r.row intKey) (Run.getSubstr k q).1 := congrArg Prod.fst ran
  by_cases refused : ((k.keyText r).length : ℤ) < (r.offset + r.limit) % 2 ^ 32
  · refine iff_of_true (.inl ?_) (.inl refused)
    rw [reply, effect, getSubstr_refused (by rwa [htext, hoffset, hlimit])]
    exact ⟨rfl, rfl⟩
  · have let_in : ¬ ((Run.text k q).length : ℤ) < (q.offset + q.limit) % 2 ^ 32 := by rwa [htext, hoffset, hlimit]
    by_cases past : (k.keyText r).length < (r.offset % 2 ^ 64).toNat
    · have ran := getSubstr_thrown let_in (by rwa [htext, hoffset])
      refine iff_of_false ?_ ?_
      · rintro (⟨invalid, -⟩ | cuts)
        · rw [reply, ran] at invalid
          exact fresh invalid
        · have ok := cuts.ok
          rw [reply, ran] at ok
          exact Bool.false_ne_true (unfinished.symm.trans ok)
      · rintro (h | ⟨-, h, h'⟩)
        · exact refused h
        · omega
    · obtain ⟨q', hdb', access, cut⟩ := getSubstr_cut let_in (by rwa [htext, hoffset])
      rw [writeDest_writable (writable _), htext, hoffset, hlimit] at cut
      rw [or_iff_right refused]
      constructor
      · rintro (⟨invalid, -⟩ | cuts)
        · rw [reply, cut] at invalid
          exact absurd (access.symm.trans invalid) fresh
        · exact ⟨cuts.registered, cuts.offset, cuts.limit⟩
      · rintro ⟨registered, hoffset, hlimit⟩
        rw [Int.emod_eq_of_lt hoffset (by omega), Int.emod_eq_of_lt hlimit (by omega)] at cut
        have stored := get_update_put writable r.database (r.row intKey)
          (toBin (((k.keyText r).drop r.offset.toNat).take r.limit.toNat))
        rw [Int.emod_eq_of_lt (by omega) (by omega)] at refused
        refine .inr ⟨hoffset, hlimit, not_lt.mp refused, registered, by rw [reply, cut]; rfl, ?_, fun db row other => ?_⟩
        · rw [effect, cut]
          exact (stored _ _).trans (if_pos ⟨rfl, rfl⟩)
        · rw [effect, cut]
          exact (stored db row).trans (if_neg other)

end

section
variable {P : Platform} {s : Server} {r : Request} {db key start count : Bytes} {select : ℕ}

/-- SUBSTR is safe if and only if it is refused, or both numbers are natural and the key exists. -/
theorem substr_safe_iff (reach : (Server.machine P).Reachable s)
    (handled : commandGetSubstr db select key start count = some r) (opened : s.kernel.Opened db)
    (place : r.registered s.kernel = some intKey ∨ r.registered s.kernel = none) : SubstrSafe P s.kernel r ↔
      ((s.kernel.keyText r).length : ℤ) < (convtoSigned start + convtoSigned count) % 2 ^ 32 ∨
      r.registered s.kernel = some intKey ∧ 0 ≤ convtoSigned start ∧ 0 ≤ convtoSigned count := by
  simp only [commandGetSubstr, Option.ite_none_right_eq_some, Option.some.injEq] at handled
  obtain ⟨-, rfl⟩ := handled
  exact getSubstr_safe (reachable_inOrder reach).1 rfl opened place (convtoSigned_range start) (convtoSigned_range count)

end

/-- SUBSTR of the key `k` in the first select of the database `db`. -/
def substrQuery (offset limit : ℤ) : Request where
  cls := .getSubstr
  database := lit "db"
  key := lit "k"
  select := 1
  offset := offset
  limit := limit

theorem substr_safe_absent : SubstrSafe Server.integers Server.fresh.kernel (substrQuery 0 1) := by
  have handled : commandGetSubstr (lit "db") 1 (lit "k") (lit "0") (lit "1") = some (substrQuery 0 1) := by decide
  exact (substr_safe_iff (.initial Server.fresh_initial) handled rfl (.inr (by decide))).mpr (.inl (by decide))

/-- SUBSTR lets a negative offset in and throws, and creates an absent key for an empty range. -/
theorem substr_unsafe : ∃ s, (Server.machine Server.integers).Reachable s ∧
    commandGetSubstr (lit "db") 1 (lit "k") (lit "-1") (lit "2") = some (substrQuery (-1) 2) ∧
    commandGetSubstr (lit "db") 1 (lit "k") (lit "0") (lit "0") = some (substrQuery 0 0) ∧
    (substrQuery (-1) 2).registered s.kernel = some intKey ∧ s.kernel.keyText (substrQuery (-1) 2) = lit "abc" ∧
    (substrQuery 0 0).registered Server.fresh.kernel = none ∧
    (substrQuery 0 0).registered (Server.fresh.kernel.execute Server.integers (substrQuery 0 0)) = some intKey ∧
    ¬ SubstrSafe Server.integers s.kernel (substrQuery (-1) 2) ∧
    ¬ SubstrSafe Server.integers Server.fresh.kernel (substrQuery 0 0) := by
  have h : ((Server.machine Server.integers).exec (fun _ _ => True) Server.fresh
      [.request { substrQuery 0 0 with cls := .set, value := lit "abc" }]).any fun s =>
        (substrQuery (-1) 2).registered s.kernel = some intKey ∧
        s.kernel.keyText (substrQuery (-1) 2) = lit "abc" ∧
        (s.kernel.reply Server.integers (substrQuery (-1) 2)).access = .statusOk := by decide
  obtain ⟨s, reached, registered, text, access⟩ := Machine.exec_holds h (.initial Server.fresh_initial)
  refine ⟨s, reached, by decide, by decide, registered, text, by decide,
    by decide, ?_, ?_⟩
  · rintro (⟨invalid, -⟩ | cuts)
    · rw [access] at invalid
      exact DblCode.noConfusion invalid
    · exact absurd cuts.offset (by decide)
  · rintro (⟨invalid, -⟩ | cuts)
    · exact absurd invalid (by decide)
    · exact absurd cuts.registered (by decide)

end BerylDB.Store
