import BerylDB.Accounts
import BerylDB.Transition

/-! # The cache of logins

The answers of `CheckPass` beside those of a check of the core database alone. -/
namespace BerylDB.Logins
open Text Store Groups Transition

/-- `LoginCache::InCache` without a password. -/
def LoginMap.cached (logins : LoginMap) (user : Bytes) : Bool := (logins.find user).isSome

inductive Event where
  | command (c : Command)
  | resetCache
  | checkPass (user key : Bytes) (last : ℕ)

variable {P : Platform} {compare : Bytes → Bytes → Bool}

/-- Status and password of a login in the core database. -/
def uncached (P : Platform) (compare : Bytes → Bytes → Bool) (k : Kernel) (user key : Bytes) : Bool :=
  asBool (UserHelper.find P k user (lit "status")) false && compare key (UserHelper.find P k user (lit "pass"))

/-- ADDUSER of a login that is not in the cache, and DELUSER of one whose maps are not; for the logins `pass` and
`status`, whose entries in the tables of accounts look like fields of a record, the tables are not in the cache. -/
def Aside (P : Platform) (s : Accounts) : Event → Prop
  | .command (.addUser login pass ..) => s.addsUser P login pass →
    !s.logins.cached login ∧ (login ∈ [lit "pass", lit "status"] → !s.logins.cached userlist)
  | .command (.delUser login) => s.checkLogin P true login →
    !s.logins.cached (usergroups login) ∧ !s.logins.cached (userchans login) ∧
      (login ∈ [lit "pass", lit "status"] → !s.logins.cached userlist ∧ !s.logins.cached notifyKey)
  | _ => True

instance (P : Platform) (s : Accounts) (e : Event) : Decidable (Aside P s e) :=
  match e with
  | .command (.addUser ..) | .command (.delUser _) | .command (.passwd ..) | .command (.passwdOf ..)
  | .command (.setStatus ..) | .command (.addFlag ..) | .command (.delFlag ..) | .resetCache | .checkPass .. => by
    unfold Aside; infer_instance

def next (P : Platform) (compare : Bytes → Bytes → Bool) (s : Accounts) : Event → Option Accounts
  | .command c => some (s.handle P c)
  | .resetCache => some { s with logins := [] }
  | .checkPass user key last => some (UserHelper.checkPass P compare s user key last).2

/-- The daemon starts with any core database and an empty cache. -/
def machine (P : Platform) (compare : Bytes → Bytes → Bool) : Machine Accounts Event :=
  ⟨fun s => s.core.Core ∧ s.logins = [], next P compare⟩

/-- Every login in the cache is enabled, and its password is that of the core database. -/
structure Current (P : Platform) (s : Accounts) : Prop where
  core : s.core.Core
  entries : ∀ e ∈ s.logins, asBool (UserHelper.find P s.core e.1 (lit "status")) false = true ∧
    UserHelper.find P s.core e.1 (lit "pass") = e.2

namespace LoginMap

variable {logins : LoginMap} {user pass : Bytes}

theorem mem_of_find {hash : Bytes} (found : logins.find user = some hash) : (user, hash) ∈ logins := by
  obtain ⟨e, here, rfl⟩ := Option.map_eq_some_iff.mp found
  have own : e.1 = user := by simpa using List.find?_some here
  rw [← own]
  exact List.mem_of_find?_eq_some here

theorem not_mem_of_not_cached {e : Bytes × Bytes} (absent : (!logins.cached user) = true) (here : e ∈ logins) :
    e.1 ≠ user := by
  rintro rfl
  have none := Option.not_isSome_iff_eq_none.mp (by simpa [cached] using absent)
  exact absurd (List.find?_eq_none.mp (Option.map_eq_none_iff.mp none) e here) (by simp)

theorem mem_add {e : Bytes × Bytes} {last : ℕ} (here : e ∈ logins.add user pass last) : e ∈ logins ∨ e = (user, pass) := by
  have evicted (kept : LoginMap) (left : e ∈ if kept.length ≥ 1024 then kept.removeLastCache last else kept) : e ∈ kept := by
    split at left
    · exact List.mem_of_mem_eraseIdx left
    · exact left
  have inserted := evicted _ here
  split at inserted
  · exact .inl inserted
  · simpa using inserted

end LoginMap

theorem find_same {k k' : Kernel} (h : k.Core) (h' : k'.Core) {user name : Bytes}
    (same : (k'.table user)[name]? = (k.table user)[name]?) :
    UserHelper.find P k' user name = UserHelper.find P k user name := by
  unfold UserHelper.find
  rw [h.get_eq, h'.get_eq, same]

namespace Current

variable {s : Accounts}

/-- A command that writes neither the status nor the password of the logins that stay in the cache. -/
theorem frame (h : Current P s) (c : Command)
    (kept : ∀ e ∈ (s.handle P c).logins, e ∈ s.logins ∧ ¬c.Writes e.1 (lit "status") ∧ ¬c.Writes e.1 (lit "pass")) :
    Current P (s.handle P c) := by
  obtain ⟨core, frame⟩ := Accounts.handle_frame (P := P) h.core c
  refine ⟨core, fun e here => ?_⟩
  obtain ⟨old, status, pass⟩ := kept e here
  rw [find_same h.core core (frame e.1 _ status), find_same h.core core (frame e.1 _ pass)]
  exact h.entries e old

theorem changePass (h : Current P s) (user pass hashed : Bytes) :
    Current P (UserHelper.changePass P s user pass hashed) := by
  by_cases refused : pass.length < 3 ∨ pass.length > 30
  · have idle : UserHelper.changePass P s user pass hashed = s := if_pos refused
    rwa [idle]
  · refine h.frame (.passwd user pass hashed) fun e here => ?_
    simp only [Accounts.handle, UserHelper.changePass, if_neg refused, LoginMap.mem_remove] at here
    exact ⟨here.1, fun own => here.2 own.1, fun own => here.2 own.1⟩

/-- Status `1` of a login that is enabled changes no answer, and a login that is disabled leaves the cache. -/
theorem setStatus (h : Current P s) {login status : Bytes} (accepted : s.checkLogin P true login) :
    Current P (s.handle P (.setStatus login status)) := by
  have other : lit "pass" ≠ lit "status" := by decide
  by_cases enabled : asBool status false
  · have named : login ≠ [] := by
      intro empty
      simp [Accounts.checkLogin, empty] at accepted
    obtain ⟨core, frame⟩ := Accounts.handle_frame (P := P) h.core (.setStatus login status)
    have logins : (s.handle P (.setStatus login status)).logins = s.logins := by simp [Accounts.handle, accepted, enabled]
    refine ⟨core, fun e here => ?_⟩
    rw [logins] at here
    obtain ⟨able, pass⟩ := h.entries e here
    refine ⟨?_, by rwa [find_same h.core core (frame e.1 _ fun own => other own.2)]⟩
    by_cases own : e.1 = login
    · have written : UserHelper.find P (s.handle P (.setStatus login status)).core login (lit "status") = lit "1" := by
        unfold UserHelper.find
        rw [core.get_eq, if_neg named]
        simp only [Accounts.handle, if_pos accepted]
        rw [h.core.set_field, if_pos ⟨rfl, rfl, named, by decide, by simp [enabled, boolText, lit]⟩]
        simp [enabled, boolText]
      rw [own, written]
      decide
    · rwa [find_same h.core core (frame e.1 _ fun written => own written.1)]
  · refine h.frame _ fun e here => ?_
    simp only [Accounts.handle, if_pos accepted, enabled, if_true, LoginMap.mem_remove] at here
    exact ⟨here.1, fun own => here.2 own.1, fun own => here.2 own.1⟩

theorem handle (h : Current P s) {c : Command} (aside : Aside P s (.command c)) : Current P (s.handle P c) := by
  have fields : lit "status" ≠ lit "default" ∧ lit "pass" ≠ lit "default" := by decide
  have flags : lit "status" ≠ lit "flags" ∧ lit "pass" ≠ lit "flags" := by decide
  cases c with
  | addUser login pass hashed now =>
    by_cases accepted : s.addsUser P login pass
    · obtain ⟨new, tables⟩ := aside accepted
      refine h.frame _ fun e here => ?_
      simp only [Accounts.handle, if_pos accepted] at here
      have other := LoginMap.not_mem_of_not_cached new here
      have unlisted (name : Bytes) (field : name ∈ [lit "pass", lit "status"]) : ¬(e.1 = userlist ∧ name = login) :=
        fun listed => LoginMap.not_mem_of_not_cached (tables (listed.2 ▸ field)) here listed.1
      refine ⟨here, ?_, ?_⟩
      · rintro (own | listed | grouped)
        · exact other own.1
        · exact unlisted _ (by simp) listed
        · exact fields.1 grouped.2
      · rintro (own | listed | grouped)
        · exact other own.1
        · exact unlisted _ (by simp) listed
        · exact fields.2 grouped.2
    · have idle : s.handle P (.addUser login pass hashed now) = s := by simp only [Accounts.handle, if_neg accepted]
      rwa [idle]
  | delUser login =>
    by_cases accepted : s.checkLogin P true login
    · obtain ⟨groups, chans, tables⟩ := aside accepted
      refine h.frame _ fun e here => ?_
      simp only [Accounts.handle, if_pos accepted, UserHelper.remove, LoginMap.mem_remove] at here
      obtain ⟨old, other⟩ := here
      have kept (name : Bytes) (field : name ∈ [lit "pass", lit "status"]) : ¬(Command.delUser login).Writes e.1 name := by
        rintro (own | ⟨table, rfl⟩ | grouped | joined)
        · exact other own.1
        · obtain ⟨users, notify⟩ := tables field
          exact table.elim (LoginMap.not_mem_of_not_cached users old) (LoginMap.not_mem_of_not_cached notify old)
        · exact LoginMap.not_mem_of_not_cached groups old grouped
        · exact LoginMap.not_mem_of_not_cached chans old joined
      exact ⟨old, kept _ (by simp), kept _ (by simp)⟩
    · have idle : s.handle P (.delUser login) = s := by simp only [Accounts.handle, if_neg accepted]
      rwa [idle]
  | passwd login pass hashed => exact h.changePass login pass hashed
  | passwdOf login pass hashed =>
    simp only [Accounts.handle]
    split_ifs
    any_goals exact h
    exact h.changePass login pass hashed
  | setStatus login status =>
    by_cases accepted : s.checkLogin P true login
    · exact h.setStatus accepted
    · have idle : s.handle P (.setStatus login status) = s := by simp only [Accounts.handle, if_neg accepted]
      rwa [idle]
  | addFlag login flag =>
    refine h.frame _ fun e here => ⟨?_, fun own => flags.1 own.2, fun own => flags.2 own.2⟩
    simp only [Accounts.handle] at here
    split at here
    · rwa [Accounts.addFlag_logins] at here
    · exact here
  | delFlag login flag =>
    refine h.frame _ fun e here => ⟨?_, fun own => flags.1 own.2, fun own => flags.2 own.2⟩
    rwa [Accounts.handle, Accounts.delFlag_logins] at here

theorem checkPass (h : Current P s) (user key : Bytes) (last : ℕ) :
    Current P (UserHelper.checkPass P compare s user key last).2 := by
  unfold UserHelper.checkPass
  dsimp only
  split_ifs with hit miss enabled matching
  · exact h
  · exact h
  · exact h
  · exact h
  · refine ⟨h.core, fun e here => ?_⟩
    rcases LoginMap.mem_add here with old | rfl
    · exact h.entries e old
    · exact ⟨by simpa using enabled, rfl⟩

/-- A login in the cache is answered as the core database would. -/
theorem answer (h : Current P s) (user key : Bytes) (last : ℕ) :
    (UserHelper.checkPass P compare s user key last).1 = uncached P compare s.core user key := by
  unfold UserHelper.checkPass uncached LoginMap.inCache
  cases found : s.logins.find user with
  | some hash =>
    obtain ⟨enabled, pass⟩ := h.entries _ (LoginMap.mem_of_find found)
    dsimp only at enabled pass
    by_cases matching : compare key hash <;> simp [enabled, pass, matching]
  | none =>
    dsimp only
    split_ifs with hit miss enabled matching <;> simp_all

theorem step (h : Current P s) {e : Event} (aside : Aside P s e) {t : Accounts} (stepped : next P compare s e = some t) :
    Current P t := by
  cases e with
  | command c =>
    obtain rfl := Option.some.inj stepped
    exact h.handle aside
  | resetCache =>
    obtain rfl := Option.some.inj stepped
    exact ⟨h.core, by simp⟩
  | checkPass user key last =>
    obtain rfl := Option.some.inj stepped
    exact h.checkPass user key last

end Current

/-- In every run whose commands stay aside of the cache, `CheckPass` answers as a check of the core database does. -/
theorem cache_transparent {s : Accounts} (h : (machine P compare).Reach (Aside P) s) (user key : Bytes) (last : ℕ) :
    (UserHelper.checkPass P compare s user key last).1 = uncached P compare s.core user key := by
  have current : Current P s := by
    refine h.invariant (fun s initial => ⟨initial.1, by simp [initial.2]⟩) fun s e t held aside stepped => ?_
    exact held.step aside stepped
  exact current.answer user key last

open Store.Server (integers)

/-- A provider whose hash of a password is the password behind a dollar sign. -/
def dollar (pass hash : Bytes) : Bool := hash == 36 :: pass

/-- A login in the cache whose password changes. -/
def bobRun : List Event :=
  [.command (.addUser (lit "bob") (lit "secret") (lit "$secret") 7), .checkPass (lit "bob") (lit "secret") 0,
    .command (.passwd (lit "bob") (lit "hidden") (lit "$hidden")), .checkPass (lit "bob") (lit "hidden") 0]

theorem cache_transparent_bob : ∃ s, (machine integers dollar).Reach (Aside integers) s ∧ s.logins.cached (lit "bob") ∧
    (UserHelper.checkPass integers dollar s (lit "bob") (lit "secret") 0).1 =
      uncached integers dollar s.core (lit "bob") (lit "secret") := by
  have h : ((machine integers dollar).exec (Aside integers) ⟨freshCore, []⟩ bobRun).any fun s =>
      s.logins.cached (lit "bob") := by decide +kernel
  obtain ⟨s, hs, cached⟩ := (Option.any_eq_true _ _).mp h
  have reached : (machine integers dollar).Reach (Aside integers) s :=
    Machine.exec_reach (.initial ⟨freshCore_core, rfl⟩) _ hs
  exact ⟨s, reached, cached, cache_transparent reached _ _ _⟩

/-- The account `status` is listed in a field of the account `userlist`, which disables it but for the cache. -/
theorem cache_stale : ∃ s, (machine integers dollar).Reachable s ∧
    (UserHelper.checkPass integers dollar s userlist (lit "secret") 0).1 ≠
      uncached integers dollar s.core userlist (lit "secret") := by
  have h : ((machine integers dollar).exec (fun _ _ => True) ⟨freshCore, []⟩
      [.command (.addUser userlist (lit "secret") (lit "$secret") 7), .checkPass userlist (lit "secret") 0,
        .command (.addUser (lit "status") (lit "secret") (lit "$secret") 8)]).any fun s =>
      (UserHelper.checkPass integers dollar s userlist (lit "secret") 0).1 ≠
        uncached integers dollar s.core userlist (lit "secret") := by decide +kernel
  exact Machine.exec_holds h (.initial ⟨freshCore_core, rfl⟩)

end BerylDB.Logins
