import Shading.Code.Key

/-!
# What can be compiled

Main definitions:

- `Compilable` is a fragment or a distribution that becomes entry points.
- `Compilable.ofField`, `Compilable.ofFields`, `Compilable.ofDistribution` and their kin
  build one from a request.
-/

namespace Shading

/-- Something that compiles into entry points. -/
inductive Compilable
  | function (f : Fragment) (kind : FunctionKind)
  | distribution (d : Distribution)

/-- The resources of a compilable: one map for each of its fragments. -/
inductive CompilableResources
  | function (map : ResourceMap)
  | distribution (maps : DistributionResources)

/-- The map by which the code refers to resources. -/
def CompilableResources.main : CompilableResources → ResourceMap
  | .function map => map
  | .distribution maps => maps.main

namespace Compilable

/-- Functions need a name. -/
def checkName (name : String) : Except CompileError Unit :=
  if name = "" then .error (.invalidParameters .emptyName) else .ok ()

/-- An environment function. -/
def ofEnvironment (call : EnvironmentCall) (name : String) : Except CompileError Compilable := do
  checkName name
  return .function (← Fragment.ofEnvironment call name) .environment

/-- A field of a material. -/
def ofField (m : Material) (path name : String) (compileConstants : Bool) :
    Except CompileError Compilable := do
  checkName name
  return .function (← Fragment.ofField m path name compileConstants) .lambda

/-- Adds fields as further roots. -/
def addFields (m : Material) (compileConstants : Bool) :
    Fragment → List String → Except CompileError Fragment
  | f, [] => .ok f
  | f, path :: rest =>
    match f.addField m path compileConstants with
    | (_, .error e) => .error e
    | (f, .ok _) => addFields m compileConstants f rest

/-- Several fields of a material as one switch. -/
def ofFields (m : Material) (paths : List String) (name : String) (compileConstants : Bool) :
    Except CompileError Compilable := do
  checkName name
  match paths with
  | [] => throw (.invalidParameters (.noPaths name))
  | first :: _ =>
    let f := (Fragment.empty name (ExecutionContext.ofPath first)).toSwitch
    return .function (← addFields m compileConstants f paths) .switchLambda

/-- A field of a material for one object, whose transforms and id become constants.  The
material must have no parameters. -/
def ofUniformField (m : Material) (path name : String) (u : UniformState)
    (compileConstants : Bool) : Except CompileError Compilable := do
  checkName name
  let f ← Fragment.ofField m path name compileConstants
  if f.capturesParameters then throw (.capturedParameters name)
  return .function { f with uniform := some u } .lambda

/-- The kind of function that a fragment becomes. -/
def kindOf (f : Fragment) : FunctionKind :=
  match f.roots with
  | some (.multiRoot _) => .switchLambda
  | _ => if f.context = .environment then .environment else .lambda

/-- A fragment. -/
def ofFragment (f : Fragment) : Except CompileError Compilable := do
  checkName f.name
  return .function f (kindOf f)

/-- A distribution of a material. -/
def ofDistribution (m : Material) (path name : String) (resolver : Resolver)
    (compileConstants : Bool) : Except CompileError Compilable := do
  checkName name
  return .distribution (← Distribution.ofMaterial m path name resolver compileConstants)

/-! ## Properties -/

/-- The main fragment. -/
def main : Compilable → Fragment
  | .function f _ => f
  | .distribution d => d.main

/-- The name of the function. -/
def name (c : Compilable) : String :=
  c.main.name

/-- The compilable as it is named in diagnostics. -/
def label (c : Compilable) : String :=
  let what := match c with
    | .function _ .environment => "environment function"
    | .function _ .switchLambda => "switch function"
    | .function _ _ => "lambda"
    | .distribution _ => "distribution function"
  what ++ " '" ++ c.name ++ "'"

/-- The names of the entry points, in order. -/
def functionNames (c : Compilable) : List String :=
  match c with
  | .function f _ => [f.name]
  | .distribution d =>
    FunctionKind.distributionEntries.map fun e => d.name ++ "_" ++ e.2

/-- The parameters that are set at run time. -/
def parameters (c : Compilable) : List Parameter :=
  c.main.parameters

/-- The values of the parameters. -/
def argumentValues (c : Compilable) : List Value :=
  c.main.argumentValues

/-- The strings in the values of the parameters, in order. -/
def argumentStrings (c : Compilable) : List String :=
  c.argumentValues.flatMap Value.strings

/-- Looks up everything that a compilable refers to. -/
def bindResources (c : Compilable) (t : ResourceTables) (store : AssetStore) (lib : Library) :
    ResourceTables × CompilableResources :=
  match c with
  | .function f _ =>
    let (t, map) := t.bindFragment store lib f
    (t, .function map)
  | .distribution d =>
    let (t, maps) := t.bindDistribution store lib d
    (t, .distribution maps)

/-- The key of a compilable with its resources. -/
def cacheKey (c : Compilable) (r : CompilableResources) (target : TargetKind) (o : Options) :
    Digest :=
  match c, r with
  | .distribution d, .distribution maps => d.cacheKey maps target o
  | c, r => c.main.cacheKey r.main target o

end Compilable

end Shading
