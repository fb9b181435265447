import Shading.Session.Basic
import Shading.Text.Quoted

/-!
# The command line

The arguments of the command, and what the command does with the files that they name.

Main definitions:

- `CommandLine.parse` reads the arguments.
- `CommandLine.run` compiles what they ask for, given the contents of files.
- `CommandError` is what can go wrong.
-/

namespace Shading

/-- Something to compile: a field, a distribution, or several fields as a switch. -/
inductive Request
  | expression (path : String)
  | distribution (path : String)
  | switch (paths : List String)
  deriving Repr, DecidableEq

/-- The request as it is named in diagnostics. -/
def Request.label : Request → String
  | .expression path => "Expression(" ++ quotedText path ++ ")"
  | .distribution path => "Distribution(" ++ quotedText path ++ ")"
  | .switch paths => "Switch([" ++ commaText (paths.map quotedText) ++ "])"

/-- The arguments of the command. -/
structure CommandLine where
  material : Option String
  target : Option TargetKind
  requests : List Request
  assets : Option String
  options : Option String
  overrides : List (String × String)
  out : Option String
  deriving Repr, DecidableEq

/-- Why the command failed. -/
inductive CommandError
  | missingValue (flag : String)
  | unknownTarget (name : String)
  | malformedSetting (text : String)
  | unknownArgument (text : String)
  | materialRequired
  | targetRequired
  | nothingToCompile
  | unreadable (what path : String)
  | unwritable (path : String)
  | json
  | material (cause : MaterialError)
  | options (cause : OptionError)
  | setting (name value : String) (cause : OptionError)
  | request (r : Request) (cause : CompileError)
  | link (cause : CompileError)
  deriving Repr, DecidableEq

namespace CommandLine

/-- A summary of the arguments that there are. -/
def usage : String :=
  "supported: --material <file.json>, --target native|portable-ir|gpu, --path <field>, "
    ++ "--df <field>, --switch <field,field,...>, --assets <file.json>, --options <file.json>, "
    ++ "--set name=value, --out <file>"

end CommandLine

/-- The wording of a command error. -/
def CommandError.message : CommandError → String
  | .missingValue flag => s!"missing value for {flag}"
  | .unknownTarget name => s!"unknown target '{name}'"
  | .malformedSetting text => s!"--set expects name=value, got '{text}'"
  | .unknownArgument text => s!"unknown argument: {text} ({CommandLine.usage})"
  | .materialRequired => s!"--material is required ({CommandLine.usage})"
  | .targetRequired => s!"--target is required ({CommandLine.usage})"
  | .nothingToCompile => "nothing to compile: pass at least one --path, --df or --switch"
  | .unreadable what path => s!"failed to read {what} {path}"
  | .unwritable path => s!"failed to write {path}"
  | .json => "malformed JSON"
  | .material cause => cause.message
  | .options cause => "invalid backend options: " ++ cause.message
  | .setting name value cause => s!"--set {name}={value}: " ++ cause.message
  | .request r cause =>
    r.label ++ " failed with code " ++ toString cause.code ++ ": " ++ cause.message
  | .link cause => "link unit failed with code " ++ toString cause.code ++ ": " ++ cause.message

namespace CommandLine

/-! ## Arguments -/

/-- No arguments. -/
def empty : CommandLine :=
  ⟨none, none, [], none, none, [], none⟩

/-- The characters before and after the first occurrence of a character. -/
def splitOnce (c : Char) : List Char → Option (List Char × List Char)
  | [] => none
  | x :: rest =>
    if x = c then some ([], rest) else (splitOnce c rest).map fun p => (x :: p.1, p.2)

/-- The pieces between the occurrences of a character, at least one. -/
def splitAll (c : Char) : List Char → List (List Char)
  | [] => [[]]
  | x :: rest =>
    if x = c then [] :: splitAll c rest
    else
      match splitAll c rest with
      | [] => [[x]]
      | piece :: pieces => (x :: piece) :: pieces

/-- Takes one flag with its value. -/
def accept (l : CommandLine) (flag value : String) : Except CommandError CommandLine :=
  match flag with
  | "--material" => .ok { l with material := some value }
  | "--target" =>
    match TargetKind.parse? value with
    | some target => .ok { l with target := some target }
    | none => .error (.unknownTarget value)
  | "--path" => .ok { l with requests := l.requests ++ [.expression value] }
  | "--df" => .ok { l with requests := l.requests ++ [.distribution value] }
  | "--switch" =>
    let paths := (splitAll ',' value.toList).map String.ofList
    .ok { l with requests := l.requests ++ [.switch paths] }
  | "--assets" => .ok { l with assets := some value }
  | "--options" => .ok { l with options := some value }
  | "--set" =>
    match splitOnce '=' value.toList with
    | some (name, setting) =>
      .ok { l with overrides := l.overrides ++ [(String.ofList name, String.ofList setting)] }
    | none => .error (.malformedSetting value)
  | "--out" => .ok { l with out := some value }
  | other => .error (.unknownArgument other)

/-- The flags that there are.  Every one of them takes a value. -/
def flags : List String :=
  ["--material", "--target", "--path", "--df", "--switch", "--assets", "--options", "--set",
    "--out"]

/-- Takes arguments in order. -/
def parseFrom (l : CommandLine) : List String → Except CommandError CommandLine
  | [] => .ok l
  | [flag] =>
    if flags.contains flag then .error (.missingValue flag) else .error (.unknownArgument flag)
  | flag :: value :: rest => do parseFrom (← l.accept flag value) rest

/-- Reads the arguments. -/
def parse (args : List String) : Except CommandError CommandLine :=
  empty.parseFrom args

/-! ## Running -/

/-- The name of the function of a field: letters and digits stay, and everything else
becomes an underscore. -/
def functionName (namePrefix path : String) : String :=
  namePrefix ++ String.ofList (path.toList.map fun c => if c.isAlphanum then c else '_')

/-- What is compiled for a request. -/
def compilable (m : Material) (lib : Library) (r : Request) (o : Options) :
    Except CompileError Compilable :=
  match r with
  | .expression path => Compilable.ofField m path (functionName "" path) o.compileConstants
  | .distribution path =>
    Compilable.ofDistribution m path (functionName "df_" path) lib o.compileConstants
  | .switch paths =>
    Compilable.ofFields m paths (functionName "switch_" (String.intercalate "_" paths))
      o.compileConstants

/-- The contents of a file. -/
def contents (read : String → Option String) (what path : String) : Except CommandError String :=
  match read path with
  | some text => .ok text
  | none => .error (.unreadable what path)

/-- Loads the material. -/
def loadMaterial (read : String → Option String) (path : String) :
    Except CommandError Material := do
  match Material.loadText (← contents read "material" path) with
  | .ok m => return m
  | .error .json => throw .json
  | .error (.invalid e) => throw (.material e)

/-- Loads the known resources. -/
def loadAssets (read : String → Option String) : Option String → Except CommandError AssetStore
  | none => .ok .empty
  | some path => do
    match AssetStore.ofText? (← contents read "asset list" path) with
    | some store => return store
    | none => throw .json

/-- Loads the options. -/
def loadOptions (read : String → Option String) : Option String → Except CommandError Options
  | none => .ok .default
  | some path => do
    match Options.load (Json.parse? (← contents read "options" path)) with
    | .ok o => return o
    | .error .json => throw .json
    | .error (.invalid e) => throw (.options e)

/-- Applies settings in order. -/
def applySettings : Options → List (String × String) → Except CommandError Options
  | o, [] => .ok o
  | o, (name, value) :: rest =>
    match o.set name value with
    | .error e => .error (.setting name value e)
    | .ok o => applySettings o rest

/-- What a command needs: the loaded files, the options and the target. -/
structure Job where
  material : Material
  store : AssetStore
  options : Options
  target : TargetKind

/-- Loads everything that the arguments name. -/
def job (l : CommandLine) (read : String → Option String) : Except CommandError Job := do
  let some path := l.material | throw .materialRequired
  let some target := l.target | throw .targetRequired
  if l.requests.isEmpty then throw .nothingToCompile
  let material ← loadMaterial read path
  let store ← loadAssets read l.assets
  let options ← applySettings (← loadOptions read l.options) l.overrides
  return ⟨material, store, options, target⟩

/-- The outcome of a command: the errors that it logs, and what it fails with or the
artifact. -/
structure Outcome where
  logged : List String
  result : Except CommandError Artifact

/-- A message as it is logged. -/
def logLine (m : Message) : String :=
  m.severity.label ++ ": " ++ m.text

/-- Adds requests to a unit.  The first one that fails ends the command and logs all
messages of the unit. -/
def addRequests (j : Job) (s : Surroundings) :
    LinkUnit → List Request → Except (CommandError × List Message) LinkUnit
  | u, [] => .ok u
  | u, r :: rest =>
    match u.add s (compilable j.material s.library r) with
    | (.ok _, u) => addRequests j s u rest
    | (.error e, u) =>
      .error (.request r e, (u.compilation.map (·.messages)).getD [])

/-- Compiles all requests of a job as one unit. -/
def Job.compile [ShaderCheck] (j : Job) (requests : List Request) : Outcome :=
  let backend : Backend := ⟨j.target, j.options, true⟩
  match addRequests j ⟨j.store, .empty⟩ (LinkUnit.create backend) requests with
  | .error (e, messages) => ⟨messages.map logLine, .error e⟩
  | .ok u =>
    match (backend.closeUnit u).1 with
    | .error failure => ⟨failure.messages.map logLine, .error (.link failure.error)⟩
    | .ok artifact => ⟨[], .ok artifact⟩

/-- Runs the command, given the contents of files. -/
def run [ShaderCheck] (l : CommandLine) (read : String → Option String) : Outcome :=
  match l.job read with
  | .error e => ⟨[], .error e⟩
  | .ok j => j.compile l.requests

/-- What the command prints about an artifact. -/
def printed (a : Artifact) : String :=
  a.summary.pretty

end CommandLine

end Shading
