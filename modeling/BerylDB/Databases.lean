import BerylDB.CoreMaps
import BerylDB.Server
import BerylDB.Keyed

/-! # The databases of the daemon

`DBManager` of `dbmanager.cpp`, `GetRealPath`, and the commands DBCREATE and DBDELETE. -/
namespace BerylDB.Databases
open Text Store Transition

def databasesKey : Bytes := lit "databases"

/-- `MAX_DATABASES`. -/
def maxDatabases : ℕ := 5

/-- The setting `dbdir`, and `getenv("HOME")`. -/
structure Paths where
  db : Bytes
  home : Option Bytes

/-- `FileSystem::GetRealPath` with the base of `SetWDDB`. -/
def Paths.setWDDB (c : Paths) (fragment : Bytes) : Bytes :=
  if fragment.head? = some 47 then fragment
  else
    match c.home with
    | some home =>
      if fragment.take 2 = lit "~/" ∧ home ≠ [] then home ++ 47 :: fragment.drop 2 else c.db ++ 47 :: fragment
    | none => c.db ++ 47 :: fragment

/-- `Daemon::DBValidator`. -/
def dbValidator (name : Bytes) : Bool := nameValidator name

structure Database where
  name : Bytes
  path : Bytes
deriving DecidableEq

/-- `resets` are the keys of the queries that DBDELETE pushed and that were not processed yet. -/
structure Server where
  core : Kernel
  dbMap : List Database
  resets : List Bytes

namespace Server

variable (P : Platform) (c : Paths)

/-- The search in `DBMap`, by `insensitive` and `str_hash_comparison`. -/
def lookup (dbMap : List Database) (name : Bytes) : Option Database := dbMap.find? fun d => equals P.charmap d.name name

def find (s : Server) (name : Bytes) : Option Database := lookup P s.dbMap (name.map toLower)

def findPath (s : Server) (path : Bytes) : Option Database :=
  s.dbMap.find? fun d => d.path == (c.setWDDB path ++ lit ".db").map toLower

/-- `Load`; `insert` leaves a database that is there. -/
def load (s : Server) (name : Bytes) : Server :=
  if name = [] then s
  else
    let path := CMapsHelper.get P s.core databasesKey name
    if (lookup P s.dbMap name).isSome then s else { s with dbMap := s.dbMap ++ [⟨name, c.setWDDB path⟩] }

/-- `Create`, `none` when it answers false. -/
def create (s : Server) (name path : Bytes) : Option Server :=
  if (s.find P name).isSome then none
  else if (s.findPath c path).isSome then none
  else if !dbValidator name then none
  else some { s with core := CMapsHelper.set P s.core databasesKey name (path ++ lit ".db") }

def delete (s : Server) (name : Bytes) : Server :=
  match s.find P name with
  | none => s
  | some _ =>
    { s with
      core := CMapsHelper.del P s.core databasesKey name
      dbMap := s.dbMap.filter fun d => !equals P.charmap d.name name }

/-- `CommandDBCreate::Handle`.  The last check before `Create` is of the name of the command. -/
def dbCreate (s : Server) (name : Bytes) (path : Option Bytes) : Server :=
  let dbname := name.map toLower
  let dbpath := (path.getD dbname).map toLower
  if dbname ∈ [lit "dbdefault", coreDatabase, lit "root"] then s
  else if s.dbMap.length > maxDatabases then s
  else if !dbValidator (lit "DBCREATE") then s
  else
    match s.create P c dbname dbpath with
    | some s => s.load P c dbname
    | none => s

/-- `CommandDBDelete::Handle`; `closing` is the answer of `IsClosing`. -/
def dbDelete (s : Server) (name : Bytes) (closing : Bool) : Server :=
  match s.find P name with
  | none => s
  | some database => if closing then s else { s with resets := s.resets ++ [database.name] }

/-- `dbreset_query::Process`. -/
def process (s : Server) (key : Bytes) : Server :=
  let s := { s with resets := s.resets.erase key }
  match s.find P key with
  | none => s
  | some _ => s.delete P key

/-- `OpenAll`. -/
def openAll (core : Kernel) : Server :=
  (CMapsHelper.hlist P core databasesKey).foldl (load P c) ⟨core, [], []⟩

end Server

/-- A pushed query is processed at any later moment. -/
inductive Event where
  | dbCreate (name : Bytes) (path : Option Bytes)
  | dbDelete (name : Bytes) (closing : Bool)
  | process (key : Bytes)

def next (P : Platform) (c : Paths) (s : Server) : Event → Option Server
  | .dbCreate name path => some (s.dbCreate P c name path)
  | .dbDelete name closing => some (s.dbDelete P name closing)
  | .process key => if key ∈ s.resets then some (s.process P key) else none

/-- The daemon starts without databases, and creates the first one as DBCREATE does. -/
def machine (P : Platform) (c : Paths) : Machine Server Event :=
  ⟨fun s => ∃ k : Kernel, k.Core ∧ k.table databasesKey = ∅ ∧ s = Server.openAll P c k, next P c⟩

/-- The paths of DBCREATE, given or by default. -/
def Event.Uses (paths : Set Bytes) : Event → Prop
  | .dbCreate name path => path.getD name ∈ paths
  | _ => True

/-- No two databases are in the same directory, and a database is found by its name in any case; `disk` is the directory
of a path. -/
structure Apart {δ : Type} (P : Platform) (disk : Bytes → δ) (s : Server) : Prop where
  paths : s.dbMap.Pairwise fun d e => disk d.path ≠ disk e.path
  found : ∀ d ∈ s.dbMap, ∀ name, name.map toLower = d.name → s.find P name = some d

/-- The path that DBCREATE opens. -/
def Paths.opened (c : Paths) (path : Bytes) : Bytes := c.setWDDB (path.map toLower ++ lit ".db")

/-- What `FindPath` compares with is the opened path in lower case. -/
theorem Paths.compared_eq (c : Paths) (path : Bytes) :
    (c.setWDDB (path.map toLower) ++ lit ".db").map toLower = (c.opened path).map toLower := by
  have appended (fragment : Bytes) : c.setWDDB (fragment ++ lit ".db") = c.setWDDB fragment ++ lit ".db" := by
    have suffix : lit ".db" = [46, 100, 98] := rfl
    have tilde : lit "~/" = [126, 47] := rfl
    unfold setWDDB
    rw [suffix, tilde]
    rcases fragment with _ | ⟨a, _ | ⟨b, rest⟩⟩
    · cases c.home <;> simp
    · cases c.home <;> by_cases slash : a = 47 <;> simp [slash]
    · cases c.home with
      | none => by_cases slash : a = 47 <;> simp [slash]
      | some home =>
        by_cases slash : a = 47
        · simp [slash]
        · by_cases own : [a, b] = [126, 47] ∧ home ≠ []
          · simp_all
          · have other : ¬((a = 126 ∧ b = 47) ∧ ¬home = []) := by simpa using own
            simp [slash, other]
  rw [opened, appended]

/-- The paths used name the same directory only if `FindPath` would see that. -/
def Seen {δ : Type} (disk : Bytes → δ) (c : Paths) (paths : Set Bytes) : Prop :=
  ∀ p ∈ paths, ∀ q ∈ paths, disk (c.opened p) = disk (c.opened q) → c.opened p = (c.opened q).map toLower

namespace Server

variable {P : Platform} {c : Paths} {s : Server} {name : Bytes} {path : Option Bytes}

/-- The checks that DBCREATE makes. -/
structure Accepts (P : Platform) (c : Paths) (s : Server) (dbname path : Bytes) : Prop where
  free : dbname ∉ [lit "dbdefault", coreDatabase, lit "root"]
  room : s.dbMap.length ≤ maxDatabases
  name : s.find P dbname = none
  path : ∀ d ∈ s.dbMap, d.path ≠ (c.opened path).map toLower
  valid : dbValidator dbname

theorem findPath_none (c : Paths) (s : Server) (path : Bytes) :
    s.findPath c (path.map toLower) = none ↔ ∀ d ∈ s.dbMap, d.path ≠ (c.opened path).map toLower := by
  unfold findPath
  rw [c.compared_eq]
  simp

/-- DBCREATE registers an accepted name with the path that it opens. -/
theorem dbCreate_accepted (h : s.core.Core) (accepts : s.Accepts P c (name.map toLower) (path.getD name)) :
    s.dbCreate P c name path = { s with
      core := CMapsHelper.set P s.core databasesKey (name.map toLower) ((path.getD name).map toLower ++ lit ".db")
      dbMap := s.dbMap ++ [⟨name.map toLower, c.opened (path.getD name)⟩] } := by
  have lowered : (path.getD (name.map toLower)).map toLower = (path.getD name).map toLower := by cases path <;> simp
  have named : name.map toLower ≠ [] := by
    intro empty
    have valid := accepts.valid
    rw [empty] at valid
    exact absurd valid (by decide)
  have handler : dbValidator (lit "DBCREATE") = true := by decide
  have nonempty : (path.getD name).map toLower ++ lit ".db" ≠ [] := by simp [lit]
  have stored : CMapsHelper.get P (CMapsHelper.set P s.core databasesKey (name.map toLower)
      ((path.getD name).map toLower ++ lit ".db")) databasesKey (name.map toLower) =
        (path.getD name).map toLower ++ lit ".db" := by
    rw [h.set.get_eq, if_neg (by decide), h.set_field, if_pos ⟨rfl, rfl, by decide, named, nonempty⟩]
    rfl
  have absent : lookup P s.dbMap (name.map toLower) = none := by simpa [find, Function.comp_def] using accepts.name
  unfold dbCreate
  dsimp only
  rw [if_neg accepts.free, if_neg (by have := accepts.room; omega), handler, lowered]
  simp only [create, accepts.name, (findPath_none c s _).mpr accepts.path, accepts.valid, Option.isSome_none, Bool.not_true,
    Bool.false_eq_true, if_false]
  simp only [load, if_neg named, absent, stored, Option.isSome_none, Bool.false_eq_true, if_false]
  rfl

theorem dbCreate_refused (refused : ¬s.Accepts P c (name.map toLower) (path.getD name)) : s.dbCreate P c name path = s := by
  have lowered : (path.getD (name.map toLower)).map toLower = (path.getD name).map toLower := by cases path <;> simp
  unfold dbCreate
  dsimp only
  split_ifs with free room handler
  · rfl
  · rfl
  · rfl
  · have rejected : s.create P c (name.map toLower) ((path.getD (name.map toLower)).map toLower) = none := by
      rw [lowered]
      unfold create
      split_ifs with named pathed valid
      · rfl
      · rfl
      · rfl
      · refine absurd ⟨free, by omega, by simpa using named, ?_, by simpa using valid⟩ refused
        exact (findPath_none c s _).mp (by simpa using pathed)
    rw [rejected]

/-- Names are in lower case and differ as keys of `DBMap`, and the paths are those that DBCREATE opened. -/
structure Registered {δ : Type} (P : Platform) (disk : Bytes → δ) (c : Paths) (paths : Set Bytes) (s : Server) : Prop where
  core : s.core.Core
  lower : ∀ d ∈ s.dbMap, d.name.map toLower = d.name
  names : s.dbMap.Pairwise fun d e => equals P.charmap d.name e.name = false
  opened : ∀ d ∈ s.dbMap, ∃ p ∈ paths, d.path = c.opened p
  apart : s.dbMap.Pairwise fun d e => disk d.path ≠ disk e.path

namespace Registered

variable {δ : Type} {disk : Bytes → δ} {paths : Set Bytes}

theorem lookup_mem (h : s.Registered P disk c paths) {d : Database} (here : d ∈ s.dbMap) :
    lookup P s.dbMap d.name = some d := by
  have distinct : Keyed.Distinct (fun d : Database => d.name.map P.charmap.get) s.dbMap := h.names.imp beq_eq_false_iff_ne.mp
  exact distinct.find?_eq_some_iff.mpr ⟨here, rfl⟩

theorem apart_found (h : s.Registered P disk c paths) : Apart P disk s := by
  refine ⟨h.apart, fun d here name created => ?_⟩
  unfold find
  rw [created]
  exact h.lookup_mem here

theorem dbCreate (h : s.Registered P disk c paths) (seen : Seen disk c paths) (used : path.getD name ∈ paths) :
    (s.dbCreate P c name path).Registered P disk c paths := by
  by_cases accepts : s.Accepts P c (name.map toLower) (path.getD name)
  · rw [dbCreate_accepted h.core accepts]
    have absent (d : Database) (here : d ∈ s.dbMap) : equals P.charmap d.name (name.map toLower) = false := by
      have none := accepts.name
      simp only [find, lookup, List.find?_eq_none] at none
      simpa [Function.comp_def] using none d here
    refine ⟨h.core.set, fun d here => ?_, ?_, fun d here => ?_, ?_⟩
    · rcases List.mem_append.mp here with old | new
      · exact h.lower d old
      · rw [List.mem_singleton.mp new]
        simp [Function.comp_def]
    · rw [List.pairwise_append]
      refine ⟨h.names, by simp, fun d old e new => ?_⟩
      rw [List.mem_singleton.mp new]
      exact absent d old
    · rcases List.mem_append.mp here with old | new
      · exact h.opened d old
      · exact ⟨_, used, by rw [List.mem_singleton.mp new]⟩
    · rw [List.pairwise_append]
      refine ⟨h.apart, by simp, fun d old e new shared => ?_⟩
      rw [List.mem_singleton.mp new] at shared
      obtain ⟨p, mine, opened⟩ := h.opened d old
      refine accepts.path d old ?_
      rw [opened] at shared ⊢
      exact seen p mine _ used shared
  · rwa [dbCreate_refused accepts]

theorem dbDelete (h : s.Registered P disk c paths) (closing : Bool) :
    (s.dbDelete P name closing).Registered P disk c paths := by
  unfold Server.dbDelete
  split
  · exact h
  · split
    · exact h
    · exact ⟨h.core, h.lower, h.names, h.opened, h.apart⟩

theorem process (h : s.Registered P disk c paths) : (s.process P name).Registered P disk c paths := by
  have pushed : Registered P disk c paths { s with resets := s.resets.erase name } :=
    ⟨h.core, h.lower, h.names, h.opened, h.apart⟩
  unfold Server.process
  dsimp only
  split
  · exact pushed
  · unfold delete
    split
    · exact pushed
    · exact ⟨h.core.del, fun d here => h.lower d (List.mem_of_mem_filter here), h.names.filter _,
        fun d here => h.opened d (List.mem_of_mem_filter here), h.apart.filter _⟩

theorem step (h : s.Registered P disk c paths) (seen : Seen disk c paths) {e : Event} (uses : e.Uses paths) {t : Server}
    (stepped : next P c s e = some t) : t.Registered P disk c paths := by
  cases e with
  | dbCreate name path =>
    obtain rfl := Option.some.inj stepped
    exact h.dbCreate seen uses
  | dbDelete name closing =>
    obtain rfl := Option.some.inj stepped
    exact h.dbDelete closing
  | process key =>
    simp only [next] at stepped
    split at stepped
    · obtain rfl := Option.some.inj stepped
      exact h.process
    · cases stepped

end Registered

/-- Two DBCREATE commands whose paths name one directory, which `FindPath` does not see. -/
theorem collision {δ : Type} {disk : Bytes → δ} {paths : Set Bytes} {p q : Bytes} (first : p ∈ paths) (second : q ∈ paths)
    (shared : disk (c.opened p) = disk (c.opened q)) (unseen : c.opened p ≠ (c.opened q).map toLower) :
    ∃ s, (machine P c).Reach (fun _ e => e.Uses paths) s ∧ ¬ Apart P disk s := by
  have started : openAll P c freshCore = ⟨freshCore, [], []⟩ := by
    unfold openAll
    rw [freshCore_core.hlist_eq, freshCore_table]
    rfl
  have initial : (machine P c).Reach (fun _ e => e.Uses paths) ⟨freshCore, [], []⟩ :=
    .initial ⟨freshCore, freshCore_core, freshCore_table _, started.symm⟩
  have usesFirst : Event.Uses paths (.dbCreate (lit "one") (some p)) := first
  have usesSecond : Event.Uses paths (.dbCreate (lit "two") (some q)) := second
  have opened := initial.step usesFirst rfl
  have lower : (lit "one").map toLower = lit "one" ∧ (lit "two").map toLower = lit "two" := by decide
  have differ : equals P.charmap (lit "one") (lit "two") = false := by cases P.charmap <;> decide
  rw [dbCreate_accepted freshCore_core ⟨by rw [lower.1]; decide, by simp, rfl, by simp, by rw [lower.1]; decide⟩] at opened
  have both := opened.step usesSecond rfl
  rw [dbCreate_accepted (Kernel.Core.set (P := P) freshCore_core) ⟨by rw [lower.2]; decide, by simp [maxDatabases],
    by rw [lower.1, lower.2]; simp [find, lookup, differ], by simpa using unseen, by rw [lower.2]; decide⟩] at both
  refine ⟨_, both, fun apart => ?_⟩
  have paths := apart.paths
  simp [shared] at paths

end Server

/-- In every run whose DBCREATE commands use some paths the databases are apart, exactly if no two of the paths name one
directory in different spellings and their real paths have no letters in upper case. -/
theorem databases_apart {δ : Type} (P : Platform) (c : Paths) (disk : Bytes → δ) (paths : Set Bytes) :
    (∀ s, (machine P c).Reach (fun _ e => e.Uses paths) s → Apart P disk s) ↔ Seen disk c paths := by
  constructor
  · intro apart p first q second shared
    by_contra unseen
    obtain ⟨s, reached, together⟩ := Server.collision (P := P) first second shared unseen
    exact together (apart s reached)
  · intro seen s reached
    have registered : s.Registered P disk c paths := by
      refine reached.invariant (fun s initial => ?_) fun s e t held uses stepped => held.step seen uses stepped
      obtain ⟨k, core, empty, rfl⟩ := initial
      have started : Server.openAll P c k = ⟨k, [], []⟩ := by
        unfold Server.openAll
        rw [core.hlist_eq, empty]
        rfl
      rw [started]
      exact ⟨core, by simp, .nil, by simp, .nil⟩
    exact registered.apart_found

open Store.Server (integers)

/-- Below a directory with letters in upper case two databases get one path. -/
theorem databases_together : ¬ ∀ (c : Paths) (s : Server), (machine integers c).Reachable s → Apart integers id s := by
  intro apart
  have unseen : (Paths.opened ⟨lit "/BerylDB/db", none⟩ (lit "shared")) ≠
      (Paths.opened ⟨lit "/BerylDB/db", none⟩ (lit "shared")).map toLower := by decide
  obtain ⟨s, reached, together⟩ : ∃ s, (machine integers _).Reach (fun _ e => e.Uses Set.univ) s ∧ ¬ Apart integers id s :=
    Server.collision (Set.mem_univ _) (Set.mem_univ _) rfl unseen
  exact together (apart _ s reached.reachable)

end BerylDB.Databases
