import Shading.Diagnostic
import Shading.Digest
import Shading.Material.Json
import Shading.Resource.Store

/-!
# Fragments

A fragment is an expression graph of its own with the results that it computes.  One
that is built from a material holds a copy of the reachable part of the material's
graph, so later edits of the material do not reach it.

Main definitions:

- `Fragment` is the type of fragments, `Roots` its results: one body, or several roots
  of which an index selects one.
- `Fragment.ofField`, `Fragment.addField` and `Fragment.ofEnvironment` build fragments.
- `Fragment.contentHash` is a digest of what determines the code of a fragment.
-/

namespace Shading

/-- The results of a fragment. -/
inductive Roots
  | single (body : Nat)
  | multiRoot (roots : List Nat)
  deriving Repr, DecidableEq

/-- A fragment.  `copied` tells which node of the material became which node, and
`resources` holds the bindings of resources that were made already. -/
structure Fragment where
  name : String
  context : ExecutionContext
  graph : Graph
  roots : Option Roots
  parameters : List Parameter
  copied : Graph.CopyMap
  uniform : Option UniformState
  resources : ResourceMap

namespace Fragment

/-- A fragment without nodes. -/
def empty (name : String) (context : ExecutionContext) : Fragment :=
  ⟨name, context, Graph.empty, none, [], OrderedMap.empty, none, OrderedMap.empty⟩

/-- The root nodes in the order of the results. -/
def rootNodes (f : Fragment) : List Nat :=
  match f.roots with
  | none => []
  | some (.single body) => [body]
  | some (.multiRoot roots) => roots

/-- The type of a result. -/
def rootType? (f : Fragment) (index : Nat) : Option ValueType :=
  (f.rootNodes[index]?.bind f.graph.node?).map (·.type)

/-- Whether the fragment reads parameters that are set at run time. -/
def capturesParameters (f : Fragment) : Bool :=
  !f.parameters.isEmpty

/-- The values of the parameters. -/
def argumentValues (f : Fragment) : List Value :=
  f.parameters.map (·.value)

/-- The nodes that the results need, arguments before users. -/
def reachable (f : Fragment) : List (Nat × Node) :=
  (f.graph.postOrder f.rootNodes).filterMap fun id => (f.graph.node? id).map (id, ·)

/-! ## Building -/

/-- Adds a parameter and the node that reads it. -/
def addParameter (f : Fragment) (p : Parameter) : Nat × Fragment :=
  (f.graph.size,
    { f with
      parameters := f.parameters ++ [p]
      graph := f.graph.append ⟨.parameter f.parameters.length, p.type⟩ })

/-- Makes a node the body.  A fragment with several roots has no body. -/
def setBody (f : Fragment) (body : Nat) : Except CompileError Fragment :=
  match f.roots with
  | some (.multiRoot _) => .error (.switchFormViolation f.name)
  | _ => .ok { f with roots := some (.single body) }

/-- Turns the body into the first of several roots. -/
def toSwitch (f : Fragment) : Fragment :=
  { f with roots := some (.multiRoot f.rootNodes) }

/-- Appends a root and returns its index.  A fragment with a body has to be turned into
one with several roots first. -/
def addRoot (f : Fragment) (root : Nat) : Except CompileError (Nat × Fragment) :=
  match f.roots with
  | some (.single _) => .error (.switchFormViolation f.name)
  | _ => .ok (f.rootNodes.length, { f with roots := some (.multiRoot (f.rootNodes ++ [root])) })

/-- The node of a field that can be compiled as a value. -/
def fieldNode (m : Material) (path : String) (compileConstants : Bool) : Except CompileError Nat :=
  match m.field? path with
  | none => .error (.invalidPath path)
  | some id =>
    match m.graph.node? id with
    | none => .error (.invalidPath path)
    | some node =>
      if !compileConstants && m.graph.isConstant id then .error (.constantRejected path)
      else if node.type.containsDistribution || node.type.isResource then
        .error (.unsupportedFieldType path node.type)
      else .ok id

/-- The fragment that computes a field.  It captures all parameters of the material. -/
def ofField (m : Material) (path name : String) (compileConstants : Bool) :
    Except CompileError Fragment :=
  match fieldNode m path compileConstants with
  | .error e => .error e
  | .ok id =>
    match Graph.Copy.root m.graph ⟨Graph.empty, OrderedMap.empty⟩ id with
    | (_, .error _) => .error (.invalidPath path)
    | (copy, .ok body) =>
      .ok { empty name (ExecutionContext.ofPath path) with
        graph := copy.graph
        roots := some (.single body)
        parameters := m.parameters
        copied := copy.map }

/-- Appends a field of the same material as a further root, and returns its index.  Nodes
that were copied before are shared.  A failed copy keeps what was copied. -/
def addField (f : Fragment) (m : Material) (path : String) (compileConstants : Bool) :
    Fragment × Except CompileError Nat :=
  match f.roots with
  | some (.single _) => (f, .error (.switchFormViolation f.name))
  | _ =>
    match fieldNode m path compileConstants with
    | .error e => (f, .error e)
    | .ok id =>
      let found := ExecutionContext.ofPath path
      if found ≠ f.context then (f, .error (.mixedExecutionContext path f.context found))
      else
        let f := if f.parameters.isEmpty then { f with parameters := m.parameters } else f
        let (copy, root) := Graph.Copy.root m.graph ⟨f.graph, f.copied⟩ id
        let f := { f with graph := copy.graph, copied := copy.map }
        match root with
        | .error _ => (f, .error (.invalidPath path))
        | .ok root =>
          match f.addRoot root with
          | .error e => (f, .error e)
          | .ok (index, f) => (f, .ok index)

/-- Adds an argument of an environment function, and returns its node. -/
def addArgument (f : Fragment) : EnvironmentArgument → Nat × Fragment
  | .constant value type =>
    (f.graph.size, { f with graph := f.graph.append ⟨.constant value, type⟩ })
  | .parameter p => f.addParameter p

/-- Adds the arguments of an environment function, and returns their nodes. -/
def addArguments (f : Fragment) : List EnvironmentArgument → List Nat × Fragment
  | [] => ([], f)
  | a :: rest =>
    let (id, f) := f.addArgument a
    let (ids, f) := f.addArguments rest
    (id :: ids, f)

/-- Adds a call and returns its node. -/
def addCall (f : Fragment) (name : String) (args : List Nat) (type : ValueType) :
    Except GraphError (Nat × Fragment) :=
  match f.graph.push ⟨.call name args, type⟩ with
  | .error e => .error e
  | .ok (id, graph) => .ok (id, { f with graph })

/-- The body of an environment function: the call, of whose result a texture-based
function gives its color. -/
def environmentBody (f : Fragment) (call : EnvironmentCall) (args : List Nat) :
    Except GraphError (Nat × Fragment) := do
  let (body, f) ← f.addCall call.function args call.returnType
  if call.returnType.isTextureReturn then f.addCall "member:0" [body] .color else return (body, f)

/-- The fragment of an environment function. -/
def ofEnvironment (call : EnvironmentCall) (name : String) : Except CompileError Fragment :=
  if call.returnType ≠ .color ∧ !call.returnType.isTextureReturn then
    .error (.invalidEnvironmentType call.function call.returnType)
  else
    let (args, f) := (empty name .environment).addArguments call.arguments
    match f.environmentBody call args with
    | .error e => .error (.invalidParameters (.graph e))
    | .ok (body, f) => .ok { f with roots := some (.single body) }

/-! ## Content -/

/-- The roots as JSON. -/
def rootsToJson : Roots → Json
  | .single body => .object [("form", .string "single"), ("nodes", .ofNat body)]
  | .multiRoot roots => .object [("form", .string "multi_root"), ("nodes", .ofList .ofNat roots)]

/-- Everything that determines the code of a fragment, its name apart.  The values of the
parameters are left out, because they stand in argument blocks. -/
def content (f : Fragment) : Json :=
  .sortKeys <| .object [
    ("context", .ofNamed f.context),
    ("roots", .ofOption rootsToJson f.roots),
    ("nodes", .ofList (fun n : Nat × Node =>
      .object [("id", .ofNat n.1), ("node", n.2.toJson .ofWidened)]) f.reachable),
    ("parameters", .ofList (fun p : Parameter =>
      .object [("name", .string p.name), ("type", p.type.toJson)]) f.parameters),
    ("uniform_state", .ofOption (UniformState.toJson .ofWidened) f.uniform)]

/-- The digest of the content. -/
def contentHash (f : Fragment) : Digest :=
  Digest.ofText f.content.text

end Fragment

end Shading
