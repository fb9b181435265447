import Shading.Fragment.Library

/-!
# Distribution functions

A distribution of a material, split into the tree of its building blocks and the values
that they read.  The building blocks are the main fragment; every value that is not a
constant is an auxiliary fragment, whose result the main fragment reads back.

Main definitions:

- `Distribution` is the split distribution.
- `Distribution.ofMaterial` splits the distribution of a field.
-/

namespace Shading

/-- A split distribution. -/
structure Distribution where
  main : Fragment
  aux : List Fragment

namespace Distribution

/-- The name of the distribution function. -/
def name (d : Distribution) : String :=
  d.main.name

/-- A distribution that is being split: the nodes of the main fragment, the auxiliary
fragments, and which nodes of the material they come from. -/
structure Split where
  graph : Graph
  aux : List Fragment
  auxOf : OrderedMap Nat Nat
  mainOf : OrderedMap Nat Nat

namespace Split

/-- The split before anything was looked at. -/
def empty : Split :=
  ⟨Graph.empty, [], OrderedMap.empty, OrderedMap.empty⟩

/-- Appends a node to the main fragment and returns its id. -/
def push (s : Split) (node : Node) : Except CompileError (Nat × Split) :=
  match s.graph.push node with
  | .error e => .error (.backendFailure e.message)
  | .ok (id, graph) => .ok (id, { s with graph })

/-- The auxiliary fragment that computes a node of the material, made if it is new. -/
def auxIndex (m : Material) (name : String) (s : Split) (arg : Nat) :
    Except CompileError (Nat × Split) :=
  match s.auxOf.find? arg with
  | some index => .ok (index, s)
  | none =>
    let index := s.aux.length
    match Graph.Copy.root m.graph ⟨Graph.empty, OrderedMap.empty⟩ arg with
    | (_, .error e) => .error (.backendFailure e.message)
    | (copy, .ok root) =>
      let f := { Fragment.empty (s!"{name}_expr_{index}") .core with
        graph := copy.graph
        roots := some (.single root)
        parameters := m.parameters }
      .ok (index, { s with aux := s.aux ++ [f], auxOf := s.auxOf.insert arg index })

/-- Copies an argument that is not a distribution: a constant, or the result of an
auxiliary fragment. -/
def value (m : Material) (name : String) (s : Split) (arg : Nat) (node : Node) :
    Except CompileError (Nat × Split) :=
  match node.op with
  | .constant value => s.push ⟨.constant value, node.type⟩
  | _ => do
    let (index, s) ← s.auxIndex m name arg
    s.push ⟨.lambdaResult index, node.type⟩

end Split

/-- The call at a node, which has to be a building block of distributions. -/
def bsdfCall (resolver : Resolver) (id : Nat) (node : Node) :
    Except CompileError (String × List Nat) :=
  match node.op with
  | .call name args =>
    match resolver.resolve? name with
    | some (.intrinsic (.bsdf _)) => .ok (name, args)
    | _ => .error (.unsupportedBsdf name)
  | _ => .error (.unsupportedBsdf (node.type.text ++ " node " ++ nodeText id))

mutual

/-- Splits the distribution at a node and returns its node in the main fragment. -/
def split (m : Material) (resolver : Resolver) (name : String) (id : Nat) (s : Split) :
    Except CompileError (Nat × Split) :=
  match s.mainOf.find? id with
  | some done => .ok (done, s)
  | none =>
    match m.graph.node? id with
    | none => .error (.invalidPath (nodeText id))
    | some node => do
      let (call, args) ← bsdfCall resolver id node
      let (args, s) ← splitArgs m resolver name call id args s
      let (copied, s) ← s.push ⟨.call call args, .bsdf⟩
      return (copied, { s with mainOf := s.mainOf.insert id copied })
termination_by (id, 1, 0)

/-- Splits the arguments of a building block, which are earlier nodes than it. -/
def splitArgs (m : Material) (resolver : Resolver) (name call : String) (bound : Nat)
    (args : List Nat) (s : Split) : Except CompileError (List Nat × Split) :=
  match args with
  | [] => .ok ([], s)
  | arg :: rest =>
    if _h : arg < bound then
      match m.graph.node? arg with
      | none => .error (.invalidPath (nodeText arg))
      | some node => do
        let (copied, s) ←
          if node.type = .bsdf then split m resolver name arg s
          else if node.type.isDistribution then
            .error (.unsupportedBsdf (s!"{call} with " ++ node.type.text ++ " argument"))
          else s.value m name arg node
        let (others, s) ← splitArgs m resolver name call bound rest s
        return (copied :: others, s)
    else .error (.invalidPath (nodeText arg))
termination_by (bound, 0, args.length)

end

/-- The node of a field that is a distribution function. -/
def fieldNode (m : Material) (path : String) (compileConstants : Bool) : Except CompileError Nat :=
  match m.field? path with
  | none => .error (.invalidPath path)
  | some id =>
    match m.graph.node? id with
    | none => .error (.invalidPath path)
    | some node =>
      match node.type with
      | .bsdf =>
        if !compileConstants && m.graph.isConstant id then .error (.constantRejected path)
        else .ok id
      | .edf => .error (.edfNotSupported path)
      | .vdf => .error (.vdfNotSupported path)
      | other => .error (.unsupportedFieldType path other)

/-- Splits the distribution of a field. -/
def ofMaterial (m : Material) (path name : String) (resolver : Resolver) (compileConstants : Bool) :
    Except CompileError Distribution := do
  let id ← fieldNode m path compileConstants
  let (root, s) ← split m resolver name id .empty
  return {
    main := { Fragment.empty name (ExecutionContext.ofPath path) with
      graph := s.graph
      roots := some (.single root)
      parameters := m.parameters }
    aux := s.aux }

end Distribution

end Shading
