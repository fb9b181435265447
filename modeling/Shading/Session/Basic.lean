import Shading.Code.Cache
import Shading.Session.Compilation

/-!
# Sessions

A session compiles single functions, by way of a cache, and link units to which many
functions are added before their code is generated.

Main definitions:

- `Session` holds the surroundings and the cache, `Backend` the target and the options.
- `Session.compile` compiles one function.
- `LinkUnit` is a compile that stays open: `LinkUnit.request` adds what a `UnitRequest`
  asks for, and `Backend.closeUnit` closes it.
-/

namespace Shading

/-- Code that was compiled before, without what depends on argument values. -/
structure CachedCode where
  body : CodeBody
  functions : List FunctionRow
  roSegment : Bytes
  strings : List String
  layout : Option Layout
  stateUsage : StateUsage
  deriving DecidableEq

/-- What is kept of an artifact. -/
def CachedCode.ofArtifact (a : Artifact) : CachedCode :=
  ⟨a.body, a.functions, a.roSegment, a.strings, a.layouts.head?, a.stateUsage⟩

/-- The surroundings of all compiles and the cache of their code. -/
structure Session where
  surroundings : Surroundings
  cache : Cache Digest CachedCode

/-- A target with options; single functions are looked up in the cache if it is used. -/
structure Backend where
  target : TargetKind
  options : Options
  useCache : Bool
  deriving Repr, DecidableEq

/-- An artifact from cached code, with the tables of this compile and the values of the
parameters.  Strings among the values that the cached table lacks are appended. -/
def Compilation.restore (c : Compilation) (cached : CachedCode) (item : Compilable) : Artifact :=
  let strings :=
    if c.options.mapStringsToIds then internStrings cached.strings item.argumentStrings
    else cached.strings
  let parts : CodeParts := {
    target := c.target
    functions := cached.functions
    body := cached.body
    roSegment := cached.roSegment
    strings
    stringsMapped := c.options.mapStringsToIds
    layouts := cached.layout.toList
    resources := c.tables
    messages := c.messages
    stateUsage := cached.stateUsage }
  Artifact.assemble parts [item.argumentValues]

section

variable [ShaderCheck]

namespace Session

/-- Compiles one item without the cache. -/
def compileFresh (s : Session) (c : Compilation) (item : Compilable) :
    Except CompileFailure Artifact :=
  match c.add s.surroundings item with
  | (.error e, c) => .error ⟨e, c.messages⟩
  | (.ok _, c) => c.finish

/-- Compiles one item, or takes its code from the cache.  New code is cached. -/
def compileItem (s : Session) (b : Backend) (item : Compilable) :
    Except CompileFailure Artifact × Session :=
  let c := Compilation.start b.target b.options false
  if b.useCache then
    let (tables, resources) :=
      item.bindResources c.tables s.surroundings.store s.surroundings.library
    let c := { c with tables }
    let key := item.cacheKey resources b.target b.options
    match s.cache.lookup key with
    | (some hit, cache) => (.ok (c.restore hit item), { s with cache })
    | (none, cache) =>
      match s.compileFresh c item with
      | .error e => (.error e, { s with cache })
      | .ok a => (.ok a, { s with cache := cache.insert key (.ofArtifact a) })
  else (s.compileFresh c item, s)

/-- Compiles what a request asks for. -/
def compile (s : Session) (b : Backend) (item : Except CompileError Compilable) :
    Except CompileFailure Artifact × Session :=
  match item with
  | .error e => (.error (.ofError e), s)
  | .ok item => s.compileItem b item

end Session

end

/-! ## Link units -/

/-- What can be added to a unit: an environment function, a field of a material, several
fields as one switch, a distribution, or a fragment. -/
inductive UnitRequest
  | environment (call : EnvironmentCall) (name : String)
  | field (m : Material) (path name : String)
  | fields (m : Material) (paths : List String) (name : String)
  | distribution (m : Material) (path name : String)
  | fragment (f : Fragment)

/-- What a request compiles, with the options of the unit. -/
def UnitRequest.build (r : UnitRequest) (lib : Library) (o : Options) :
    Except CompileError Compilable :=
  match r with
  | .environment call name => Compilable.ofEnvironment call name
  | .field m path name => Compilable.ofField m path name o.compileConstants
  | .fields m paths name => Compilable.ofFields m paths name o.compileConstants
  | .distribution m path name => Compilable.ofDistribution m path name lib o.compileConstants
  | .fragment f => Compilable.ofFragment f

/-- A compile that stays open until its code is generated; nothing is left of a closed
one. -/
structure LinkUnit where
  compilation : Option Compilation

namespace LinkUnit

/-- An open unit with the target and the options of a backend. -/
def create (b : Backend) : LinkUnit :=
  ⟨some (.start b.target b.options true)⟩

/-- Whether the unit is closed. -/
def isClosed (u : LinkUnit) : Bool :=
  u.compilation.isNone

/-- Adds what a request asks for and returns the index of its argument block layout.  A
request that cannot be built leaves a message. -/
def add (u : LinkUnit) (s : Surroundings) (item : Options → Except CompileError Compilable) :
    Except CompileError (Option Nat) × LinkUnit :=
  match u.compilation with
  | none => (.error (.invalidParameters .unitClosed), u)
  | some c =>
    match item c.options with
    | .error e => (.error e, ⟨some (c.reject e)⟩)
    | .ok item =>
      let (result, c) := c.add s item
      (result, ⟨some c⟩)

/-- Adds what a request asks for. -/
def request (u : LinkUnit) (s : Surroundings) (r : UnitRequest) :
    Except CompileError (Option Nat) × LinkUnit :=
  u.add s (r.build s.library)

end LinkUnit

/-- Closes a unit and generates its code.  A unit for another target stays open. -/
def Backend.closeUnit [ShaderCheck] (b : Backend) (u : LinkUnit) :
    Except CompileFailure Artifact × LinkUnit :=
  match u.compilation with
  | none => (.error (.ofError (.invalidParameters .unitClosed)), u)
  | some c =>
    if c.target ≠ b.target then
      (.error (.ofError (.invalidParameters (.otherTarget c.target b.target))), u)
    else (c.finish, ⟨none⟩)

end Shading
