import Shading.Code.Artifact
import Shading.Lowering.Assembly
import Shading.Session.Compilable

/-!
# Compilations

The state of a compile, to which functions are added until it is finished.

Main definitions:

- `Surroundings` is what every compile needs from outside.
- `Compilation` is the state; `Compilation.add` compiles one function or distribution
  into it, and `Compilation.finish` generates the code.
- `Compilation.rollBack` undoes what a failed item changed.
-/

namespace Shading

/-- The resources that are known and the fragments that can be called. -/
structure Surroundings where
  store : AssetStore
  library : Library

/-- Why an item could not be compiled: its parameters cannot be stored, or it cannot be
lowered. -/
inductive ItemError
  | storage (e : StorageError)
  | lowering (e : LowerFailure)
  deriving Repr, DecidableEq

/-- The jobs of an item, or why there are none. -/
def Compilable.jobs (item : Compilable) (s : AssemblySettings) (resources : ResourceMap)
    (block : Option BlockBinding) : Except LowerFailure (List Assembly.Job) :=
  match item with
  | .function f kind => Assembly.fragmentJobs s f resources kind block
  | .distribution d => Assembly.distributionJobs s d resources block

/-- A compile in progress. -/
structure Compilation where
  target : TargetKind
  options : Options
  useRoSegment : Bool
  assembly : Assembly
  tables : ResourceTables
  functions : List FunctionRow
  layouts : List Layout
  blockValues : List (List Value)
  messages : List Message

namespace Compilation

/-- A compile to which nothing was added yet. -/
def start (target : TargetKind) (o : Options) (linkUnit : Bool) : Compilation where
  target := target
  options := o
  useRoSegment := target.useRoSegment o linkUnit
  assembly := .empty o
  tables := .initial
  functions := []
  layouts := []
  blockValues := []
  messages := []

/-- Adds a message. -/
def note (c : Compilation) (m : Message) : Compilation :=
  { c with messages := c.messages ++ [m] }

/-- Records an error as a message. -/
def reject (c : Compilation) (e : CompileError) : Compilation :=
  c.note (.error e.message)

/-- The settings of the compile. -/
def settings (c : Compilation) (s : Surroundings) : AssemblySettings :=
  ⟨c.options, s.library, c.useRoSegment, c.target.rules⟩

/-- The layout of the parameters, none if there are no parameters. -/
def parameterLayout (c : Compilation) (item : Compilable) : Except StorageError (Option Layout) :=
  if item.main.capturesParameters then (Layout.build item.parameters c.target.rules).map some
  else .ok none

/-- Declares the argument block of a layout.  Strings among the arguments get ids if
strings have ids. -/
def declareBlock (c : Compilation) (item : Compilable) (layout : Option Layout) :
    Option BlockBinding × Assembly :=
  match layout with
  | none => (none, c.assembly)
  | some layout =>
    let strings := if c.options.mapStringsToIds then item.argumentStrings else []
    let (block, assembly) := (c.assembly.internAll strings).declareArgBlock item.parameters layout
    (some block, assembly)

/-- Lowers the functions of an item. -/
def lowerItem (c : Compilation) (s : Surroundings) (item : Compilable) (resources : ResourceMap)
    (block : Option BlockBinding) : Except LowerFailure Unit × Assembly :=
  c.assembly.addJobs c.options (item.jobs (c.settings s) resources block)

/-- Declares the argument block of an item and lowers its functions. -/
def lowerLaidOut (c : Compilation) (s : Surroundings) (item : Compilable)
    (resources : ResourceMap) (layout : Option Layout) : Except LowerFailure Unit × Assembly :=
  let declared := c.declareBlock item layout
  { c with assembly := declared.2 }.lowerItem s item resources declared.1

/-- The index of the next argument block, if there is a layout for it. -/
def nextIndex (c : Compilation) (layout : Option Layout) : Option Nat :=
  layout.map fun _ => c.layouts.length

/-- The state after an item was lowered: its functions are listed, and its layout with its
values. -/
def accept (c : Compilation) (item : Compilable) (tables : ResourceTables)
    (layout : Option Layout) (assembly : Assembly) : Compilation :=
  let added := assembly.routines.drop c.assembly.routines.length
  { c with
    assembly
    tables
    functions := c.functions ++ added.map fun r => ⟨r.name, r.kind, c.nextIndex layout, ""⟩
    layouts := c.layouts ++ layout.toList
    blockValues := c.blockValues ++ (layout.toList.map fun _ => item.argumentValues) }

/-- Compiles an item into the state.  A failure leaves the state as it is by then, with the
message of the failure if it has one. -/
def compile (c : Compilation) (s : Surroundings) (item : Compilable) :
    Except ItemError (Option Nat) × Compilation :=
  let (tables, resources) := item.bindResources c.tables s.store s.library
  match c.parameterLayout item with
  | .error e => (.error (.storage e), { c with tables })
  | .ok layout =>
    match c.lowerLaidOut s item resources.main layout with
    | (.error e, assembly) =>
      (.error (.lowering e), { c with tables, assembly, messages := c.messages ++ e.messages })
    | (.ok (), assembly) => (.ok (c.nextIndex layout), c.accept item tables layout assembly)

/-- The state to which a failure goes back: copies of the program and of the tables, and
the numbers of functions and layouts. -/
structure Checkpoint where
  assembly : Assembly
  tables : ResourceTables
  functions : Nat
  layouts : Nat

/-- The present state as a checkpoint. -/
def checkpoint (c : Compilation) : Checkpoint :=
  ⟨c.assembly, c.tables, c.functions.length, c.layouts.length⟩

/-- Goes back to a checkpoint; what was appended since is cut off.  Messages stay. -/
def rollBack (c : Compilation) (p : Checkpoint) : Compilation :=
  { c with
    assembly := p.assembly
    tables := p.tables
    functions := c.functions.take p.functions
    layouts := c.layouts.take p.layouts
    blockValues := c.blockValues.take p.layouts }

/-- Why an item cannot be compiled here: it has no results, it is an environment function
with parameters, or one of its names is taken. -/
def refusal? (c : Compilation) (item : Compilable) : Option (CompileError × Message) :=
  if item.main.rootNodes.isEmpty then
    let e := .emptyFragment item.name
    some (e, .error e.message)
  else
    match item with
    | .function f .environment =>
      if f.capturesParameters then
        let e := .capturedParameters f.name
        some (e, .error e.message)
      else taken? item.functionNames
    | _ => taken? item.functionNames
where
  /-- The first name that is taken. -/
  taken? (names : List String) : Option (CompileError × Message) :=
    (names.find? c.assembly.hasFunction).map fun name =>
      (.backendFailure name, .error (s!"function '{name}' is already defined in this unit"))

/-- Adds an item and returns the index of its argument block layout.  A failure goes back
to the state before and leaves at least one message. -/
def add (c : Compilation) (s : Surroundings) (item : Compilable) :
    Except CompileError (Option Nat) × Compilation :=
  match c.refusal? item with
  | some (e, m) => (.error e, c.note m)
  | none =>
    match c.compile s item with
    | (.ok index, c) => (.ok index, c)
    | (.error _, failed) =>
      let restored := failed.rollBack c.checkpoint
      let text := "compiling " ++ item.label ++ " failed: internal backend error"
      (.error (.backendFailure item.name),
        if restored.messages.length = c.messages.length then restored.note (.internal text)
        else restored)

/-- The parts of an artifact around the given code. -/
def parts (c : Compilation) (program : Program) (code : Emitted) : CodeParts where
  target := c.target
  functions := c.functions.zipWith (fun f prototype => { f with prototype }) code.prototypes
  body := code.body
  roSegment := program.roSegment
  strings := program.strings
  stringsMapped := c.options.mapStringsToIds
  layouts := c.layouts
  resources := c.tables
  messages := c.messages
  stateUsage := program.stateUsage

/-- Generates the code of everything that was added. -/
def finish [ShaderCheck] (c : Compilation) : Except CompileFailure Artifact :=
  if c.functions.isEmpty then .error ⟨.linkFailed, (c.reject .linkFailed).messages⟩
  else
    let program := c.assembly.finish
    match program.emitChecked c.target c.options with
    | .error e =>
      let names := String.intercalate ", " (c.functions.map (·.name))
      .error ⟨.backendFailure names, (c.note (.internal e.message)).messages⟩
    | .ok code => .ok (Artifact.assemble (c.parts program code) c.blockValues)

end Compilation

end Shading
