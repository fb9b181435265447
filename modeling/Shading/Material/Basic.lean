import Shading.Graph.Basic

/-!
# Materials

A material is an expression graph with named fields that point into it, and the
parameters whose values stay open until run time.  An environment call is a call of
a function that produces the surroundings, with its arguments.

Main definitions:

- `Material` and `Parameter` are the data, `Material.check` its consistency.
- `Material.addParameter`, `Material.setField` and `Material.field?` build and read a
  material.
- `EnvironmentCall` is a bound call of an environment function.
-/

namespace Shading

/-- A parameter with the value it has until another one is set. -/
structure Parameter where
  name : String
  type : ValueType
  value : Value
  deriving Inhabited

/-- A material: parameter nodes of the graph count into the parameter list, and fields
name nodes of the graph. -/
structure Material where
  name : String
  graph : Graph
  fields : OrderedMap String Nat
  parameters : List Parameter

/-- Why a material is inconsistent. -/
inductive MaterialError
  | graph (material : String) (cause : GraphError)
  | missingNode (path : String) (node : Nat)
  | missingParameter (node index count : Nat)
  | parameterType (node : Nat) (name : String) (declared used : ValueType)
  | parameterValue (name : String) (type : ValueType)
  deriving Repr, DecidableEq

/-- The wording of a material error. -/
def MaterialError.message : MaterialError → String
  | .graph material cause => s!"material '{material}': " ++ cause.message
  | .missingNode path node => s!"field '{path}' references missing node " ++ nodeText node
  | .missingParameter node index count =>
    "node " ++ nodeText node ++ s!" references parameter {index}, material has {count}"
  | .parameterType node name declared used =>
    "node " ++ nodeText node ++ s!": parameter '{name}' is " ++ declared.text ++ ", node says "
      ++ used.text
  | .parameterValue name type => s!"parameter '{name}' value does not conform to " ++ type.text

namespace Material

/-- A material without fields and parameters. -/
def empty (name : String) : Material :=
  ⟨name, Graph.empty, OrderedMap.empty, []⟩

/-- The node that computes a field. -/
def field? (m : Material) (path : String) : Option Nat :=
  m.fields.find? path

/-- Lets a field be computed by a node. -/
def setField (m : Material) (path : String) (node : Nat) : Material :=
  { m with fields := m.fields.insert path node }

/-- Adds a parameter and the node that reads it. -/
def addParameter (m : Material) (p : Parameter) : Nat × Material :=
  (m.graph.size,
    { m with
      parameters := m.parameters ++ [p]
      graph := m.graph.append ⟨.parameter m.parameters.length, p.type⟩ })

/-- The values of the parameters. -/
def argumentValues (m : Material) : List Value :=
  m.parameters.map (·.value)

/-! ## Consistency -/

/-- The first field whose node is missing. -/
def checkFields (m : Material) : Except MaterialError Unit :=
  match m.fields.entries.find? fun f => (m.graph.node? f.2).isNone with
  | some (path, node) => .error (.missingNode path node)
  | none => .ok ()

/-- Checks a parameter node against the parameter list. -/
def checkParameterNode (m : Material) (id : Nat) (node : Node) : Except MaterialError Unit :=
  match node.op with
  | .parameter index =>
    match m.parameters[index]? with
    | none => .error (.missingParameter id index m.parameters.length)
    | some p =>
      if p.type = node.type then .ok ()
      else .error (.parameterType id p.name p.type node.type)
  | _ => .ok ()

/-- Checks the parameter nodes of a list whose first node has the given id. -/
def checkParameterNodes (m : Material) : (id : Nat) → List Node → Except MaterialError Unit
  | _, [] => .ok ()
  | id, node :: rest =>
    match m.checkParameterNode id node with
    | .error e => .error e
    | .ok () => m.checkParameterNodes (id + 1) rest

/-- The first parameter whose value does not inhabit its type. -/
def checkParameters (m : Material) : Except MaterialError Unit :=
  match m.parameters.find? fun p => !p.value.conformsTo p.type with
  | some p => .error (.parameterValue p.name p.type)
  | none => .ok ()

/-- Checks the graph, the fields, the parameter nodes and the parameter values, in this
order. -/
def check (m : Material) : Except MaterialError Unit :=
  match m.graph.check with
  | .error e => .error (.graph m.name e)
  | .ok () => do
    m.checkFields
    m.checkParameterNodes 0 m.graph.nodes.toList
    m.checkParameters

end Material

/-! ## Environment calls -/

/-- An argument of an environment function. -/
inductive EnvironmentArgument
  | constant (value : Value) (type : ValueType)
  | parameter (p : Parameter)

/-- A call of an environment function. -/
structure EnvironmentCall where
  function : String
  returnType : ValueType
  arguments : List EnvironmentArgument

end Shading
