import BerylDB.ConfFiles
import BerylDB.Multimaps
import BerylDB.Settings

/-! # Loading the configuration

`parse_stack` of `stackconf.cpp` reads a file of the configuration, and what it includes, under the flags that an
`<include>` tag sets.  The position in the message of an error is left out. -/
namespace BerylDB.Config
open Text
open Store (equalsci)

/-- What the loader asks of the system, `Paths->Config`, and the map that `casemapping` chose before. -/
structure System where
  fopen : Bytes → Option Bytes
  popen : Bytes → Option Bytes
  opendir : Bytes → Option (List Bytes)
  getenv : Bytes → Option Bytes
  config : Bytes
  charmap : CharMap

/-- `parse_options`. -/
structure Flags where
  compat : Bool
  noExecute : Bool
  noInclude : Bool
  noEnv : Bool
deriving DecidableEq

/-- `config_rule`. -/
structure Rule where
  tag : Bytes
  srcName : Bytes
  srcLine : ℕ
  items : Items
deriving DecidableEq

structure ParseStack where
  streaming : List Bytes
  input : Items
  output : List Rule
  fileContent : List (Bytes × List Bytes)
  errorMsg : Bytes
deriving DecidableEq

/-- The calls of a `ConfFile` and of `parse_stack`, which may throw; `none` is a call that has not returned yet. -/
abbrev Parsing := ExceptT Thrown (StateT ParseStack Option)

def throwReason {α : Type} (reason : Bytes) : Parsing α := throw ⟨[], reason⟩

def unfinished {α : Type} : Parsing α := ExceptT.mk fun _ => none

/-- What a `ConfFile` has read so far of its text; only `OPTION_USE_COMPAT` of its flags changes. -/
structure Reader where
  compat : Bool
  requiredTag : Bytes
  line : ℕ
  rest : Bytes

/-- The line after everything in front of `s` is read. -/
def Reader.lineAt (r : Reader) (s : Bytes) : ℕ := r.line + (r.rest.count 10 - s.count 10)

/-- `FileSystem::GetRealPath`. -/
def getRealPath (w : System) (base fragment : Bytes) : Bytes :=
  if fragment.head? = some 47 then fragment
  else
    match (w.getenv (lit "HOME")).filter fun home => home ≠ [] ∧ lit "~/" <+: fragment with
    | some home => home ++ 47 :: fragment.drop 2
    | none => base ++ 47 :: fragment

def setWDConfig (w : System) (fn : Bytes) : Bytes := getRealPath w w.config fn

/-- `config_rule::as_bool`. -/
def asBool (items : Items) (key : Bytes) (default : Bool) : Bool :=
  match readString items key false with
  | none => default
  | some result =>
    if equalsci result (lit "yes") || equalsci result (lit "true") || equalsci result (lit "on") || result = lit "1" then
      true
    else if equalsci result (lit "no") || equalsci result (lit "false") || equalsci result (lit "off") ||
      result = lit "0" then false
    else default

/-- The loop around `kv`. -/
def kvs (c : ConfFile) : ℕ → Items → Bytes → Except Thrown (Items × Bytes)
  | 0, _, _ => endOfFile
  | fuel + 1, items, s => do
    let (more, items, s) ← kv c items s
    if more then kvs c fuel items s else return (items, s)

/-- `ConfFile::real_parse` up to the end of the tag. -/
def readTag (w : System) (flags : Flags) (file : Bytes) (input : Items) (r : Reader) : Except Thrown (Rule × Reader) := do
  let (name, s) ← iternext r.rest
  match s with
  | [] => endOfFile
  | spc :: behind =>
    if spc ≠ 62 ∧ isSpace spc = false then throwKernel (lit "Tag contains an invalid character.")
    else if name = [] then throwKernel (lit "Empty tag name")
    else
      let s := if spc = 62 then s else behind
      let (items, rest) ← kvs ⟨r.compat, flags.noEnv, name, input, w.getenv, w.charmap⟩ s.length [] s
      return (⟨name, file, r.lineAt behind, items⟩,
        { r with requiredTag := if name = r.requiredTag then [] else r.requiredTag, line := r.lineAt rest, rest })

/-- `fgets` with a buffer of 5120 bytes, and what is kept of each line. -/
def fileLines : ℕ → Bytes → List Bytes
  | 0, _ => []
  | fuel + 1, s =>
    if s = [] then []
    else
      let n := min 5119 ((s.takeWhile (· ≠ 10)).length + 1)
      let buffer := cStr (s.take n)
      if buffer = [] then fileLines fuel (s.drop n)
      else (if buffer.getLast? = some 10 then buffer.dropLast else buffer) :: fileLines fuel (s.drop n)

/-- `parse_stack::load_file_tobuff`. -/
def loadFileToBuff (w : System) (key name : Bytes) (flags : Flags) (exec : Bool) : Parsing Unit :=
  if flags.noInclude then throwReason (lit "Invalid <files> tag in file included with noinclude=\"yes\"")
  else if exec && flags.noExecute then
    throwReason (lit "Invalid <execfiles> tag in file included with noexec=\"yes\"")
  else
    match if exec then w.popen (cStr name) else w.fopen (cStr (setWDConfig w name)) with
    | none => throwReason (lit "Could not read \"" ++ setWDConfig w name ++ lit "\" for \"" ++ key ++ lit "\" file")
    | some file => modify fun stack => { stack with
        fileContent := FlatMap.set (fun a b => decide (a < b)) stack.fileContent key (fileLines file.length file) }

/-- The flags of what a tag includes. -/
def Flags.restrict (flags : Flags) (tag : Rule) (exec : Bool) : Flags where
  compat := flags.compat
  noInclude := flags.noInclude || asBool tag.items (lit "noinclude") false
  noExecute := flags.noExecute || asBool tag.items (lit "noexec") exec
  noEnv := flags.noEnv || asBool tag.items (lit "noenv") exec

/-- `process` is `parse_stack::process_conf_buffer`. -/
def included (process : Bytes → Flags → Bytes → Bool → Parsing Bool) (path : Bytes) (flags : Flags) (required : Bytes)
    (exec : Bool) : Parsing Unit := do
  if ← process path flags required exec then pure () else throwReason (lit "Included")

/-- `parse_stack::include_file`. -/
def includeFile (w : System) (process : Bytes → Flags → Bytes → Bool → Parsing Bool) (tag : Rule) (flags : Flags) :
    Parsing Unit :=
  if flags.noInclude then throwReason (lit "Invalid <include> tag in file included with noinclude=\"yes\"")
  else
    let mustHaveTag := (readString tag.items (lit "must_have_tag") false).getD []
    match readString tag.items (lit "file") false with
    | some name => included process (setWDConfig w name) (flags.restrict tag false) mustHaveTag false
    | none =>
      match readString tag.items (lit "directory") false with
      | some name =>
        let includedir := setWDConfig w name
        match w.opendir (cStr includedir) with
        | none => throwReason (lit "Unable to read directory for include: " ++ includedir)
        | some entries =>
          let files := entries.filter fun entry => matchMask w.charmap entry (lit "*.conf")
          let files := files.mergeSort fun a b => decide (a ≤ b)
          files.forM fun file => included process (includedir ++ 47 :: file) (flags.restrict tag false) mustHaveTag false
      | none =>
        match readString tag.items (lit "executable") false with
        | some name =>
          if flags.noExecute then
            throwReason (lit "Invalid <include:executable> tag in file included with noexec=\"yes\"")
          else included process name (flags.restrict tag true) mustHaveTag true
        | none => pure ()

/-- `ConfFile::real_parse` behind the tag; the answer tells whether the format is the old one from now on. -/
def runTag (w : System) (process : Bytes → Flags → Bytes → Bool → Parsing Bool) (tag : Rule) (flags : Flags) :
    Parsing Bool :=
  if equalsci tag.tag (lit "include") then do
    includeFile w process tag flags
    return flags.compat
  else if equalsci tag.tag (lit "files") then do
    tag.items.forM fun i => loadFileToBuff w i.1 i.2 flags false
    return flags.compat
  else if equalsci tag.tag (lit "execfiles") then do
    tag.items.forM fun i => loadFileToBuff w i.1 i.2 flags true
    return flags.compat
  else if equalsci tag.tag (lit "define") then
    if flags.compat then
      throwReason (lit "<define> tags may only be used in XML format (add <config format=\"xml\">)")
    else if asString tag.items (lit "name") [] = [] then
      throwReason (lit "Variable define must include variable name")
    else do
      modify fun stack => { stack with
        input := FlatMap.set w.charmap.insensitiveSwo stack.input (asString tag.items (lit "name") [])
          (asString tag.items (lit "value") []) }
      return flags.compat
  else if equalsci tag.tag (lit "config") then
    let format := asString tag.items (lit "format") []
    if equalsci format (lit "xml") then return false
    else if equalsci format (lit "compat") then return true
    else if format ≠ [] then throwReason (lit "Unknown configuration format " ++ format)
    else return flags.compat
  else do
    modify fun stack => { stack with
      output := Multimap.insertBehind (fun a b => w.charmap.insensitiveSwo a.tag b.tag) tag stack.output }
    return flags.compat

/-- What `out_tag_parse` does at the end of the file. -/
def atEnd (r : Reader) : Parsing Unit :=
  if r.requiredTag = [] then pure ()
  else throwReason (lit "Required tag \"" ++ r.requiredTag ++ lit "\" not found.")

/-- The loop of `ConfFile::out_tag_parse`. -/
def parseTags (w : System) (process : Bytes → Flags → Bytes → Bool → Parsing Bool) (flags : Flags) (file : Bytes) :
    ℕ → Reader → Parsing Unit
  | 0, r => atEnd r
  | fuel + 1, r =>
    match r.rest with
    | [] => atEnd r
    | ch :: s =>
      if ch = 35 then
        match processComment s with
        | .ok rest => parseTags w process flags file fuel { r with line := r.lineAt rest, rest }
        | .error e => throw e
      else if ch = 60 then do
        match readTag w flags file (← get).input { r with rest := s } with
        | .ok (tag, r) =>
          let compat ← runTag w process tag { flags with compat := r.compat }
          parseTags w process flags file fuel { r with compat }
        | .error e => throw e
      else if ch = 32 ∨ ch = 13 ∨ ch = 9 ∨ ch = 10 then
        parseTags w process flags file fuel { r with line := r.lineAt s, rest := s }
      else if ch = 254 ∨ ch = 255 then do
        modify fun stack => { stack with
          errorMsg := stack.errorMsg ++ lit "Configuration files must be written in UTF8.\n" }
        parseTags w process flags file fuel { r with line := r.lineAt s, rest := s }
      else throwReason (lit "Tag start expected.")

/-- `ConfFile::out_tag_parse` on a whole text.  The error text has the reasons, without the position and the tag that
`file_position` puts behind each. -/
def outTagParse (w : System) (process : Bytes → Flags → Bytes → Bool → Parsing Bool) (flags : Flags)
    (file required text : Bytes) : Parsing Bool :=
  tryCatch (do
    parseTags w process flags file text.length ⟨flags.compat, required, 1, text⟩
    return true) fun err => do
    modify fun stack => { stack with errorMsg := stack.errorMsg ++ err.notes ++ err.reason }
    return false

/-- `parse_stack::process_conf_buffer`, for so many files inside of each other. -/
def processConfBuffer (w : System) : ℕ → (path : Bytes) → Flags → (required : Bytes) → (isexec : Bool) → Parsing Bool
  | 0, _, _, _, _ => unfinished
  | fuel + 1, path, flags, required, isexec => do
    if path ∈ (← get).streaming then
      throwReason ((if isexec then lit "Executable " else lit "File ") ++ path ++
        lit " is included recursively (looped inclusion)")
    else
      match if isexec then w.popen (cStr path) else w.fopen (cStr path) with
      | none => throwReason (lit "Could not read \"" ++ path ++ lit "\" for include")
      | some text => do
        modify fun stack => { stack with streaming := stack.streaming ++ [path] }
        let ok ← outTagParse w (processConfBuffer w fuel) flags path required text
        modify fun stack => { stack with streaming := stack.streaming.dropLast }
        return ok

end BerylDB.Config
