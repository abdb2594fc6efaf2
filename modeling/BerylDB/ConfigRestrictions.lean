import BerylDB.ConfigLoad

/-! # Restricted files

What `noexec`, `noenv` and `noinclude` forbid a file of the configuration, they forbid all that it includes.  It is stated
on two systems: a file cannot tell them apart if they differ only in what it must not use. -/
namespace BerylDB.Config
open Text

/-- Two systems that are the same to a file with the flags. -/
structure Alike (flags : Flags) (w w' : System) : Prop where
  env : flags.noEnv = false → w.getenv = w'.getenv
  home : flags.noInclude = false → w.getenv (lit "HOME") = w'.getenv (lit "HOME")
  config : flags.noInclude = false → w.config = w'.config
  files : flags.noInclude = false → w.fopen = w'.fopen
  directories : flags.noInclude = false → w.opendir = w'.opendir
  commands : flags.noInclude = false → flags.noExecute = false → w.popen = w'.popen
  charmap : w.charmap = w'.charmap

section
variable {flags : Flags} {w w' : System} {file name key text : Bytes} {input items : Items} {r : Reader} {tag : Rule}
  {process process' : Bytes → Flags → Bytes → Bool → Parsing Bool} {exec : Bool}

/-- The process of what is included is the same on both systems, where it opens the same. -/
def SameProcess (w w' : System) (process process' : Bytes → Flags → Bytes → Bool → Parsing Bool) : Prop :=
  ∀ path flags required exec, Alike flags w w' →
    (if exec then w.popen (cStr path) = w'.popen (cStr path) else w.fopen (cStr path) = w'.fopen (cStr path)) →
      process path flags required exec = process' path flags required exec

theorem Alike.restrict (alike : Alike flags w w') : Alike (flags.restrict tag exec) w w' := by
  have included : (flags.restrict tag exec).noInclude = false → flags.noInclude = false := by
    intro free
    exact (Bool.or_eq_false_iff.mp free).1
  refine ⟨fun free => ?_, fun free => alike.home (included free), fun free => alike.config (included free),
    fun free => alike.files (included free), fun free => alike.directories (included free), fun free free' => ?_,
    alike.charmap⟩
  · exact alike.env (Bool.or_eq_false_iff.mp free).1
  · exact alike.commands (included free) (Bool.or_eq_false_iff.mp free').1

theorem Alike.compat (alike : Alike flags w w') (compat : Bool) : Alike { flags with compat } w w' :=
  ⟨alike.env, alike.home, alike.config, alike.files, alike.directories, alike.commands, alike.charmap⟩

theorem Alike.setWDConfig (alike : Alike flags w w') (free : flags.noInclude = false) :
    setWDConfig w name = setWDConfig w' name := by
  rw [Config.setWDConfig, Config.setWDConfig, getRealPath, getRealPath, alike.config free, alike.home free]

/-! ## One file -/

theorem entity_noEnv {c : ConfFile} (noEnv : c.noEnv = true) (getenv : Bytes → Option Bytes) :
    entity { c with getenv } name = entity c name := by
  rw [entity, entity]
  simp only [noEnv, if_true]

theorem readValue_noEnv {c : ConfFile} (noEnv : c.noEnv = true) (getenv : Bytes → Option Bytes) (place : Place)
    (value s : Bytes) : readValue { c with getenv } key place value s = readValue c key place value s := by
  induction s generalizing place value with
  | nil => cases place <;> rfl
  | cons ch s ih =>
    cases place with
    | value => simp only [readValue, ih]
    | tagName tagName =>
      simp only [readValue, ih, entity_noEnv noEnv]
      rfl
    | escaped => simp only [readValue, ih]

theorem kv_noEnv {c : ConfFile} (noEnv : c.noEnv = true) (getenv : Bytes → Option Bytes) (s : Bytes) :
    kv { c with getenv } items s = kv c items s := by
  simp only [kv, readValue_noEnv noEnv]

theorem kvs_noEnv {c : ConfFile} (noEnv : c.noEnv = true) (getenv : Bytes → Option Bytes) (fuel : ℕ) (s : Bytes) :
    kvs { c with getenv } fuel items s = kvs c fuel items s := by
  induction fuel generalizing items s with
  | zero => rfl
  | succ fuel ih => simp only [kvs, kv_noEnv noEnv, ih]

theorem Alike.readTag (alike : Alike flags w w') : readTag w flags file input r = readTag w' flags file input r := by
  unfold Config.readTag
  cases noEnv : flags.noEnv with
  | false => rw [alike.env noEnv, alike.charmap]
  | true =>
    have same (name s : Bytes) : kvs ⟨r.compat, true, name, input, w.getenv, w'.charmap⟩ s.length [] s =
        kvs ⟨r.compat, true, name, input, w'.getenv, w'.charmap⟩ s.length [] s :=
      kvs_noEnv (c := ⟨r.compat, true, name, input, w'.getenv, w'.charmap⟩) rfl w.getenv s.length s
    simp only [alike.charmap, same]

theorem Alike.loadFileToBuff (alike : Alike flags w w') :
    loadFileToBuff w key name flags exec = loadFileToBuff w' key name flags exec := by
  unfold Config.loadFileToBuff
  split
  · rfl
  · next free =>
    have free := Bool.eq_false_iff.mpr free
    split
    · rfl
    · next allowed =>
      rw [alike.setWDConfig free, alike.files free]
      cases exec with
      | false => rfl
      | true => rw [alike.commands free (by simpa using allowed)]

theorem Alike.includeFile (alike : Alike flags w w') (same : SameProcess w w' process process') :
    includeFile w process tag flags = includeFile w' process' tag flags := by
  unfold Config.includeFile
  split
  · rfl
  · next free =>
    have free := Bool.eq_false_iff.mpr free
    have files (path required) : included process path (flags.restrict tag false) required false =
        included process' path (flags.restrict tag false) required false := by
      rw [included, included, same path _ required false alike.restrict (congrFun (alike.files free) _)]
    dsimp only
    cases readString tag.items (lit "file") false with
    | some name =>
      dsimp only
      rw [alike.setWDConfig free, files]
    | none =>
      dsimp only
      cases readString tag.items (lit "directory") false with
      | some name => simp only [alike.setWDConfig free, alike.directories free, alike.charmap, files]
      | none =>
        dsimp only
        cases readString tag.items (lit "executable") false with
        | none => rfl
        | some name =>
          dsimp only
          split
          · rfl
          · next allowed =>
            have commands := congrFun (alike.commands free (Bool.eq_false_iff.mpr allowed)) (cStr name)
            rw [included, included, same name _ _ true alike.restrict commands]

theorem Alike.runTag (alike : Alike flags w w') (same : SameProcess w w' process process') :
    runTag w process tag flags = runTag w' process' tag flags := by
  unfold Config.runTag
  simp only [alike.includeFile same, alike.loadFileToBuff, alike.charmap]

theorem Alike.parseTags (alike : Alike flags w w') (same : SameProcess w w' process process') (fuel : ℕ) :
    parseTags w process flags file fuel r = parseTags w' process' flags file fuel r := by
  induction fuel generalizing r with
  | zero => rfl
  | succ fuel ih =>
    unfold Config.parseTags
    simp only [ih, alike.readTag, (alike.compat _).runTag same]

theorem Alike.outTagParse (alike : Alike flags w w') (same : SameProcess w w' process process') (required : Bytes) :
    outTagParse w process flags file required text = outTagParse w' process' flags file required text := by
  rw [Config.outTagParse, Config.outTagParse, alike.parseTags same]

/-! ## Files inside of files -/

theorem sameProcess (w w' : System) (fuel : ℕ) :
    SameProcess w w' (processConfBuffer w fuel) (processConfBuffer w' fuel) := by
  induction fuel with
  | zero => exact fun _ _ _ _ _ _ => rfl
  | succ fuel ih =>
    intro path flags required exec alike opened
    unfold processConfBuffer
    cases exec with
    | false =>
      rw [if_neg Bool.false_ne_true] at opened
      simp only [Bool.false_eq_true, if_false, opened, alike.outTagParse ih]
    | true =>
      rw [if_pos rfl] at opened
      simp only [if_true, opened, alike.outTagParse ih]

/-- A file, with all that it includes, is read in the same way on two systems that differ only in what its flags forbid:
the answers of commands, the environment without HOME, and other files. -/
theorem restricted_files_are_blind (fuel : ℕ) (file required text : Bytes) (alike : Alike flags w w') :
    outTagParse w (processConfBuffer w fuel) flags file required text =
      outTagParse w' (processConfBuffer w' fuel) flags file required text :=
  alike.outTagParse (sameProcess w w' fuel) required

end

/-- What the command answers is not seen through a file that the restricted one includes. -/
theorem restricted_files_are_blind_command :
    let fopen : Bytes → Option Bytes := fun path => if path = lit "/b" then some (lit "<execfiles a=\"ls\">") else none
    let w : System := ⟨fopen, fun _ => some (lit "c"), fun _ => none, fun _ => none, lit "conf", .brld1459⟩
    let w' : System := { w with popen := fun _ => none }
    outTagParse w (processConfBuffer w 2) ⟨false, true, false, false⟩ (lit "/a") [] (lit "<include file=\"/b\">") =
      outTagParse w' (processConfBuffer w' 2) ⟨false, true, false, false⟩ (lit "/a") [] (lit "<include file=\"/b\">") :=
  restricted_files_are_blind 2 _ _ _
    ⟨fun _ => rfl, fun _ => rfl, fun _ => rfl, fun _ => rfl, fun _ => rfl, fun _ allowed => (by cases allowed), rfl⟩

end BerylDB.Config
