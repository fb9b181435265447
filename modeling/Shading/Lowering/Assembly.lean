import Shading.Lowering.Expression
import Shading.Program.Optimize

/-!
# Assembling programs

A program that grows by one fragment or distribution at a time.

Main definitions:

- `Assembly` is the growing program, `Assembly.finish` the finished one.
- `Assembly.declareArgBlock` declares the parameters of a function.
- `Assembly.Job` is a routine that is to be lowered, and `Assembly.addJobs` lowers and optimises
  routines one after the other.
- `Assembly.addFragment` and `Assembly.addDistribution` add the routines of functions.
-/

namespace Shading

/-- A program under construction. -/
structure Assembly where
  routines : List Routine
  argBlocks : List ArgBlock
  pool : DataPool
  usage : StateUsage
  numTextureSpaces : Nat
  numTextureResults : Nat
  deriving DecidableEq

/-- The settings that all functions of a program share. -/
structure AssemblySettings where
  options : Options
  resolver : Resolver
  useRoSegment : Bool
  rules : LayoutRules

/-- What the lowering of a fragment depends on. -/
def AssemblySettings.lowerEnv (s : AssemblySettings) (f : Fragment) (resources : ResourceMap) :
    LowerEnv :=
  ⟨s.options, s.resolver, s.useRoSegment, s.rules, resources, f.context, f.uniform⟩

/-- What the lowering of a distribution depends on. -/
def AssemblySettings.distributionEnv (s : AssemblySettings) (d : Distribution)
    (resources : ResourceMap) : LowerEnv :=
  ⟨s.options, s.resolver, s.useRoSegment, s.rules, resources, d.main.context, none⟩

/-- The argument block of a function: its index, and the offsets of the parameters. -/
structure BlockBinding where
  index : Nat
  offsets : List Nat
  deriving Repr, DecidableEq

namespace Assembly

/-- The program without functions. -/
def empty (o : Options) : Assembly :=
  ⟨[], [], .empty, .none, o.numTextureSpaces, o.numTextureResults⟩

/-- The finished program. -/
def finish (a : Assembly) : Program :=
  ⟨a.routines, a.pool.bytes, a.pool.strings, a.argBlocks, a.usage, a.numTextureSpaces,
    a.numTextureResults⟩

/-- Whether there is a function of a name. -/
def hasFunction (a : Assembly) (name : String) : Bool :=
  a.routines.any fun r => r.name == name

/-- The id of a string that is in the table. -/
def stringId? (a : Assembly) (s : String) : Option Nat :=
  Shading.stringId? a.pool.strings s

/-- Gives a string its id. -/
def intern (a : Assembly) (s : String) : Nat × Assembly :=
  let (id, pool) := a.pool.intern s
  (id, { a with pool })

/-- Gives strings their ids. -/
def internAll (a : Assembly) (strings : List String) : Assembly :=
  { a with pool := { a.pool with strings := internStrings a.pool.strings strings } }

/-- Declares an argument block with the given layout. -/
def declareArgBlock (a : Assembly) (parameters : List Parameter) (layout : Layout) :
    BlockBinding × Assembly :=
  let offsets := (List.range parameters.length).map fun i =>
    ((layout.parameter? i).map (·.offset)).getD 0
  let block : ArgBlock := ⟨parameters.map (·.name), parameters.map fun p => p.type.storage⟩
  (⟨a.argBlocks.length, offsets⟩, { a with argBlocks := a.argBlocks ++ [block] })

end Assembly

/-- Where a function reads its parameters. -/
def BlockBinding.source : Option BlockBinding → ParameterSource
  | some b => .argBlock b.index b.offsets
  | none => .none

/-! ## Functions -/

/-- What the lowering of a function gives: results, and stores of texture results. -/
structure RoutineResult where
  results : List Nat
  stores : List (Nat × Nat)
  deriving Repr, DecidableEq

namespace Assembly

/-- The routine with the code that lowering gave, after optimisation. -/
def finishRoutine (o : Options) (r : Routine) (result : RoutineResult) (body : Array Instr) :
    Routine :=
  Routine.optimize { r with body, results := result.results, stores := result.stores }
    o.optLevel o.fastMath

/-- Lowers one routine.  Data that was placed stays even if lowering fails; what the
routine reads of the state counts once it is finished. -/
def lowerRoutine (a : Assembly) (o : Options) (r : Routine) (lower : LowerM RoutineResult) :
    Except LowerFailure Routine × Assembly :=
  match lower.run ⟨a.pool, #[], .none⟩ with
  | (.error e, s) => (.error ⟨r.name, e⟩, { a with pool := s.pool })
  | (.ok result, s) =>
    (.ok (finishRoutine o r result s.body),
      { a with pool := s.pool, usage := a.usage.union s.usage })

/-- A routine that is to be lowered: its header, and the code that gives its instructions. -/
structure Job where
  header : Routine
  code : LowerM RoutineResult

/-- Lowers jobs one after the other. -/
def lowerJobs (o : Options) : List Job → Assembly → Except LowerFailure (List Routine) × Assembly
  | [], a => (.ok [], a)
  | job :: rest, a =>
    match a.lowerRoutine o job.header job.code with
    | (.error e, a) => (.error e, a)
    | (.ok r, a) =>
      match lowerJobs o rest a with
      | (.error e, a) => (.error e, a)
      | (.ok routines, a) => (.ok (r :: routines), a)

/-- Lowers the jobs of an item and appends the routines. -/
def addJobs (a : Assembly) (o : Options) (jobs : Except LowerFailure (List Job)) :
    Except LowerFailure Unit × Assembly :=
  match jobs with
  | .error e => (.error e, a)
  | .ok jobs =>
    match lowerJobs o jobs a with
    | (.error e, a) => (.error e, a)
    | (.ok new, a) => (.ok (), { a with routines := a.routines ++ new })

/-! ## Fragments -/

/-- Checks that a fragment has the form of roots that a kind of function needs. -/
def checkRoots (f : Fragment) (kind : FunctionKind) : Except LowerError Unit :=
  match kind, f.roots with
  | .switchLambda, some (.multiRoot _) => .ok ()
  | .switchLambda, _ => .error (.noRootList f.name)
  | _, some (.single _) => .ok ()
  | _, _ => .error (.noSingleBody f.name)

/-- The job of a fragment. -/
def fragmentJob (s : AssemblySettings) (f : Fragment) (resources : ResourceMap)
    (kind : FunctionKind) (block : Option BlockBinding) : Job where
  header := { Routine.empty f.name kind f.context with argBlock := block.map (·.index) }
  code := do
    let results ← lowerGraph (s.lowerEnv f resources) LowerError.nestingLimit f.graph f.rootNodes
      (BlockBinding.source block) []
    return ⟨results, []⟩

/-- The jobs of a fragment, which is one function. -/
def fragmentJobs (s : AssemblySettings) (f : Fragment) (resources : ResourceMap)
    (kind : FunctionKind) (block : Option BlockBinding) : Except LowerFailure (List Job) :=
  match checkRoots f kind with
  | .error e => .error ⟨f.name, e⟩
  | .ok () => .ok [fragmentJob s f resources kind block]

/-- Adds a fragment as one function. -/
def addFragment (a : Assembly) (s : AssemblySettings) (f : Fragment) (resources : ResourceMap)
    (kind : FunctionKind) (block : Option BlockBinding) : Except LowerFailure Unit × Assembly :=
  a.addJobs s.options (fragmentJobs s f resources kind block)

/-! ## Distributions -/

/-- Whether a value can be kept in a texture result. -/
def fitsTextureResult : ValueType → Bool
  | .float | .color => true
  | .vector element size => element = .float && decide (size ≤ 4)
  | _ => false

/-- Whether the value of an auxiliary fragment is kept in a texture result, if there are
`n` of them. -/
def isCached (n index : Nat) (type : ValueType) : Bool :=
  decide (index < n) && fitsTextureResult type

/-- Notes that texture results are in use, if the value of an instruction is cached. -/
def noteCached (cached : Bool) (id : Nat) : LowerM Nat := do
  if cached then noteUsage .textureResults
  return id

/-- The instruction of an auxiliary fragment: a read of its texture result, or the code of
its root. -/
def lowerAuxRoot (env : LowerEnv) (kind : FunctionKind) (source : ParameterSource)
    (index : Nat) (g : Graph) (type : ValueType) (root : Nat) : LowerM Nat :=
  let cached := isCached env.options.numTextureResults index type
  if cached ∧ kind ≠ .dfInit then do
    noteUsage .textureResults
    emit type (.textureResult index)
  else do
    let id ← lowerRoot env g root source []
    noteCached cached id

/-- Lowers the auxiliary fragments of a distribution, counted from an index.  The first
entry point computes all of them and stores those that fit into texture results; the
others read the stored ones back. -/
def lowerAux (env : LowerEnv) (kind : FunctionKind) (source : ParameterSource) :
    (index : Nat) → List Fragment → LowerM RoutineResult
  | _, [] => return ⟨[], []⟩
  | index, f :: rest => do
    match f.rootType? 0, f.rootNodes with
    | some type, root :: _ =>
      let id ← lowerAuxRoot env kind source index f.graph type root
      let others ← lowerAux env kind source (index + 1) rest
      return ⟨id :: others.results,
        (if isCached env.options.numTextureResults index type && kind = .dfInit then
          [(index, id)] else []) ++ others.stores⟩
    | _, _ => throw (.auxWithoutBody index)

/-- Lowers one entry point of a distribution. -/
def lowerEntry (env : LowerEnv) (d : Distribution) (root : Nat) (kind : FunctionKind)
    (source : ParameterSource) : LowerM RoutineResult := do
  let aux ← lowerAux env kind source 0 d.aux
  if kind = .dfInit then return ⟨[], aux.stores⟩
  let result ← lowerBsdf env d.main.graph kind source aux.results root
  return ⟨[result], []⟩

/-- The header of an entry point: its name, kind and context, and the argument block of the
distribution. -/
def entryRoutine (d : Distribution) (block : Option BlockBinding)
    (entry : FunctionKind × String) : Routine :=
  { Routine.empty (d.name ++ "_" ++ entry.2) entry.1 d.main.context with
    argBlock := block.map (·.index) }

/-- The job of an entry point. -/
def entryJob (env : LowerEnv) (d : Distribution) (root : Nat) (block : Option BlockBinding)
    (entry : FunctionKind × String) : Job :=
  ⟨entryRoutine d block entry, lowerEntry env d root entry.1 (BlockBinding.source block)⟩

/-- The jobs of a distribution, which is four functions. -/
def distributionJobs (s : AssemblySettings) (d : Distribution) (resources : ResourceMap)
    (block : Option BlockBinding) : Except LowerFailure (List Job) :=
  match d.main.rootNodes with
  | [] => .error ⟨d.name, .noBody d.name⟩
  | root :: _ => .ok (FunctionKind.distributionEntries.map
      (entryJob (s.distributionEnv d resources) d root block))

/-- Adds a distribution as its four functions. -/
def addDistribution (a : Assembly) (s : AssemblySettings) (d : Distribution)
    (resources : ResourceMap) (block : Option BlockBinding) : Except LowerFailure Unit × Assembly :=
  a.addJobs s.options (distributionJobs s d resources block)

end Assembly

end Shading
