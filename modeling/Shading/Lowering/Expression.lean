import Shading.Lowering.Call

/-!
# Lowering of expressions

The instructions of a graph.  A call of a fragment is replaced by the instructions of
its body, with its parameters bound to the arguments.

Main definitions:

- `ParameterSource` tells where parameters are read.
- `lowerNodes` lowers the nodes of a graph one after the other.
- `inlinerAt` lowers calls of fragments, nested up to a limit, and `lowerGraph` a graph.
- `lowerBsdf` lowers a distribution.
-/

namespace Shading

/-- Where parameter nodes read their values: nowhere, in an argument block at the given
offsets, or in the arguments of a call. -/
inductive ParameterSource
  | none
  | argBlock (block : Nat) (offsets : List Nat)
  | bound (args : List Nat)
  deriving Repr, DecidableEq

/-- Lowers a call of a fragment, given its name, the fragment and the arguments. -/
abbrev Inliner := String → Fragment → List Nat → LowerM Nat

/-- Which node became which instruction. -/
abbrev Lowered := OrderedMap Nat Nat

/-- The instruction of a parameter. -/
def lowerParameter (source : ParameterSource) (type : ValueType) (index : Nat) : LowerM Nat :=
  match source with
  | .argBlock block offsets =>
    match offsets[index]? with
    | some offset => emit type (.argLoad block offset)
    | Option.none => throw (.parameterNotInBlock index)
  | .bound args =>
    match args[index]? with
    | some id => return id
    | Option.none => throw (.argumentNotBound index)
  | .none => throw (.parameterNotCaptured index)

/-- The instructions of arguments. -/
def loweredArgs (done : Lowered) (args : List Nat) : Except LowerError (List Nat) :=
  args.mapM fun a =>
    match done.find? a with
    | some id => .ok id
    | none => .error (.argumentNotLowered a)

/-- The instructions of roots. -/
def loweredRoots (done : Lowered) (roots : List Nat) : Except LowerError (List Nat) :=
  roots.mapM fun r =>
    match done.find? r with
    | some id => .ok id
    | none => .error (.rootNotLowered r)

/-- The instruction of a call. -/
def lowerCall (env : LowerEnv) (inliner : Inliner) (name : String) (c : CallSite) : LowerM Nat :=
  match env.resolver.resolve? name with
  | none => throw (.unresolvedCall name)
  | some (.fragment f) => inliner name f c.args
  | some (.intrinsic i) => lowerIntrinsic env c i

/-- The instruction of a node; `aux` are the results of auxiliary fragments. -/
def lowerNode (env : LowerEnv) (inliner : Inliner) (g : Graph) (source : ParameterSource)
    (aux : List Nat) (done : Lowered) (node : Node) : LowerM Nat :=
  match node.op with
  | .constant value => lowerConstant env value node.type
  | .parameter index => lowerParameter source node.type index
  | .lambdaResult index =>
    match aux[index]? with
    | some id => return id
    | none => throw (.strayLambdaResult index)
  | .call name args => do
    let ids ← loweredArgs done args
    lowerCall env inliner name ⟨g, node.type, args, ids⟩

/-- Lowers the nodes of a list, arguments before users. -/
def lowerNodes (env : LowerEnv) (inliner : Inliner) (g : Graph) (source : ParameterSource)
    (aux : List Nat) : List Nat → Lowered → LowerM Lowered
  | [], done => return done
  | id :: rest, done => do
    match g.node? id with
    | none => throw (.missingNode id)
    | some node =>
      let instr ← lowerNode env inliner g source aux done node
      lowerNodes env inliner g source aux rest (done.insert id instr)

/-- Lowers what some roots need, and returns the instructions of the roots. -/
def lowerRoots (env : LowerEnv) (inliner : Inliner) (g : Graph) (roots : List Nat)
    (source : ParameterSource) (aux : List Nat) : LowerM (List Nat) := do
  let done ← lowerNodes env inliner g source aux (g.postOrder roots) OrderedMap.empty
  loweredRoots done roots

/-- The body of a fragment that is called with the given number of arguments. -/
def calleeBody (name : String) (f : Fragment) (passed : Nat) : Except LowerError Nat :=
  match f.roots with
  | some (.single body) =>
    if f.parameters.length = passed then .ok body
    else .error (.argumentCount name f.parameters.length passed)
  | _ => .error (.calleeWithoutBody name)

/-- The instruction of a root that was lowered by itself. -/
def onlyResult (root : Nat) : List Nat → Except LowerError Nat
  | [id] => .ok id
  | _ => .error (.rootNotLowered root)

/-- Lowers calls of fragments that nest at most `budget` deep. -/
def inlinerAt (env : LowerEnv) : (budget : Nat) → Inliner
  | 0 => fun name _ _ => throw (.nestedTooDeep name)
  | budget + 1 => fun name f args => do
    let body ← calleeBody name f args.length
    onlyResult body (← lowerRoots env (inlinerAt env budget) f.graph [body] (.bound args) [])

/-- Lowers what some roots need, with calls of fragments nested at most `budget` deep. -/
def lowerGraph (env : LowerEnv) (budget : Nat) (g : Graph) (roots : List Nat)
    (source : ParameterSource) (aux : List Nat) : LowerM (List Nat) :=
  lowerRoots env (inlinerAt env budget) g roots source aux

/-- Lowers what a root needs, and returns the instruction of the root. -/
def lowerRoot (env : LowerEnv) (g : Graph) (root : Nat) (source : ParameterSource)
    (aux : List Nat) : LowerM Nat := do
  onlyResult root (← lowerGraph env LowerError.nestingLimit g [root] source aux)

/-! ## Distributions -/

/-- The type of what an entry point of a distribution function returns. -/
def distributionResult : FunctionKind → ValueType
  | .dfSample => .vector .float 4
  | .dfEvaluate => .color
  | _ => .float

/-- The entry point in the names of runtime functions. -/
def distributionSuffix : FunctionKind → String
  | .dfSample => "sample"
  | .dfEvaluate => "evaluate"
  | _ => "pdf"

/-- The building block that a distribution node calls, with its name and arguments. -/
def bsdfAt (env : LowerEnv) (g : Graph) (id : Nat) :
    Except LowerError (BsdfNode × String × List Nat) :=
  match g.node? id with
  | none => .error (.missingNode id)
  | some ⟨.call name args, _⟩ =>
    match env.resolver.resolve? name with
    | some (.intrinsic (.bsdf node)) => .ok (node, name, args)
    | _ => .error (.unsupportedBsdf name)
  | some _ => .error (.notACall id)

/-- Whether a node is a distribution. -/
def isBsdfNode (g : Graph) (id : Nat) : Bool :=
  match g.node? id with
  | some node => node.type = .bsdf
  | none => false

namespace Graph

/-- The arguments of a building block that are distributions. -/
def layerArgs (g : Graph) (args : List Nat) : List Nat :=
  args.filter fun a => isBsdfNode g a

/-- The arguments of a building block that are values. -/
def valueArgs (g : Graph) (args : List Nat) : List Nat :=
  args.filter fun a => !isBsdfNode g a

end Graph

/-- Checks that a building block has as many layers and values as it takes. -/
def checkBsdf (node : BsdfNode) (name : String) (layers values : Nat) : Except LowerError Unit :=
  match node with
  | .tint => if layers = 1 ∧ values = 1 then .ok () else .error .tintArguments
  | .weightedLayer => if layers = 2 ∧ values = 1 then .ok () else .error .layerArguments
  | _ => if layers = 0 then .ok () else .error (.leafArguments name)

/-- The instruction of a building block.  A tint scales what is evaluated, a weighted layer
mixes its two layers, and everything else is a runtime function of its values. -/
def combineBsdf (kind : FunctionKind) (node : BsdfNode) (layers values : List Nat) : LowerM Nat :=
  match node, layers, values with
  | .tint, [inner], [tint] =>
    if kind = .dfEvaluate then emit (distributionResult kind) (.binary .mul tint inner)
    else return inner
  | .weightedLayer, [top, base], [weight] =>
    if kind = .dfSample then
      emit (distributionResult kind) (.runtimeCall "bsdf_layer_sample" [weight, top, base])
    else emit (distributionResult kind) (.ternary .lerp base top weight)
  | leaf, _, _ =>
    emit (distributionResult kind)
      (.runtimeCall ("bsdf_" ++ leaf.runtimeName ++ "_" ++ distributionSuffix kind) values)

/-- Lowers a distribution for an entry point: the values, then the layers, then the building
block itself. -/
def lowerBsdf (env : LowerEnv) (g : Graph) (kind : FunctionKind) (source : ParameterSource)
    (aux : List Nat) (id : Nat) : LowerM Nat := do
  let (node, name, args) ← bsdfAt env g id
  let values ← (g.valueArgs args).mapM fun a => lowerRoot env g a source aux
  checkBsdf node name (g.layerArgs args).length (g.valueArgs args).length
  let layers ← (g.layerArgs args).mapM fun layer =>
    if _h : layer < id then lowerBsdf env g kind source aux layer else throw (.missingNode layer)
  combineBsdf kind node layers values
termination_by id

end Shading
