import Shading.Lowering.Assembly
import Shading.Proofs.Program.Meaning

/-!
# The value of an expression

What the nodes of an expression graph stand for, said node by node and without
instructions.  A constant is its stored value, a parameter what is bound to it, a call of
a fragment the value of the fragment's body, and a call of an intrinsic an operator that
is applied to the values of the arguments.

Main definitions:

- `constantValue` is the value of a literal.
- `intrinsicValue` is what an intrinsic computes from the values of its arguments.
- `NodeValue` relates a node of a graph to its value.

Main results:

- Theorem `NodeValue.unique`: a node has at most one value.
-/

namespace Shading

variable {V : Type}

/-! ## Constants -/

section

variable (env : LowerEnv) (I : Interpretation V) (pool : DataPool)

/-- The handle of a string: its id, or where its bytes and a closing zero are. -/
def stringHandle? (s : String) : Option Nat :=
  if env.options.mapStringsToIds then stringId? pool.strings s
  else pool.pieces.lookup (Bytes.ofText s ++ [0])

/-- Where a constant is in the read-only data, if it belongs there. -/
def constantPlace? (v : Value) (t : ValueType) : Option Nat :=
  (env.roBytes v t pool.strings).1.bind fun bytes => pool.pieces.lookup bytes

/-- A compound constant: read from the read-only data, or made of the given parts. -/
def compoundValue (v : Value) (t : ValueType) (parts : Option (List V)) : Option V :=
  match constantPlace? env pool v t with
  | some offset => some (I t.storage (.roLoad offset) [])
  | none => parts.map (I t.storage .construct)

/-- The index of a resource. -/
def resourceValue (ref : ResourceRef) : V :=
  I .int (.int (Int32.ofNat (((env.resources.find? ref).map (·.index)).getD 0))) []

mutual

/-- The value of a literal of a type. -/
def constantValue : Value → ValueType → Option V
  | .bool b, _ => some (I .bool (.bool b) [])
  | .int n, _ | .enum n, _ => some (I .int (.int n) [])
  | .float x, _ => some (I .float (.float x) [])
  | .double x, _ => some (I .double (.double x) [])
  | .string s, _ =>
    (stringHandle? env pool s).map fun handle => I .string (.int (Int32.ofNat handle)) []
  | .vector parts, t => compoundValue env I pool (.vector parts) t (partValues parts t 0)
  | .matrix parts, t => compoundValue env I pool (.matrix parts) t (partValues parts t 0)
  | .array parts, t => compoundValue env I pool (.array parts) t (partValues parts t 0)
  | .struct parts, t => compoundValue env I pool (.struct parts) t (partValues parts t 0)
  | .color r g b, t =>
    compoundValue env I pool (.color r g b) t
      (some [I .float (.float r) [], I .float (.float g) [], I .float (.float b) []])
  | .texture name _, _ => some (resourceValue env I ⟨.texture, name⟩)
  | .lightProfile name, _ => some (resourceValue env I ⟨.lightProfile, name⟩)
  | .bsdfMeasurement name, _ => some (resourceValue env I ⟨.bsdfMeasurement, name⟩)

/-- The values of the parts of a literal of a type, counted from an index. -/
def partValues : List Value → ValueType → (index : Nat) → Option (List V)
  | [], _, _ => some []
  | v :: rest, t, index =>
    (t.childType index).bind fun part =>
      (constantValue v part).bind fun x =>
        (partValues rest t (index + 1)).map fun xs => x :: xs

end

end

/-! ## Intrinsics -/

section

variable (env : LowerEnv) (I : Interpretation V)

/-- The sum of a value and the products of a row with values. -/
def rowValue : (acc : V) → List (Float32 × V) → V
  | acc, [] => acc
  | acc, (k, part) :: rest =>
    rowValue (I .float (.binary .add)
      [acc, I .float (.binary .mul) [I .float (.float k) [], part]]) rest

/-- The first three rows of a matrix applied to a value of three components; only a point
is shifted by the last column. -/
def transformValue (t : ValueType) (v : V) (m : Transform) (point : Bool) : V :=
  let parts := [0, 1, 2].map fun k => I .float (.extract k) [v]
  I t.storage .construct ([m.get 0, m.get 1, m.get 2].map fun row =>
    rowValue I (I .float (.float (if point then row.get 3 else 0)) []) (row.toList.zip parts))

/-- A field of the state. -/
def fieldValue (t : ValueType) (field : StateField) : V :=
  I t.storage (.state field) []

/-- A field of the state in object space: as it is if shading is done there, else by way of
the matrix of the object, if that is known, or of a runtime function. -/
def objectSpaceValue (t : ValueType) (field : StateField) (matrix : UniformState → Transform)
    (point : Bool) (function : String) : V :=
  if env.options.internalSpace = .object then fieldValue I t field
  else
    match env.uniform with
    | some u => transformValue I t (fieldValue I t field) (matrix u) point
    | none => I t.storage (.runtimeCall function) [fieldValue I t field]

/-- A texture coordinate; `first` is the node of the index.  Beyond the spaces that there
are the coordinate is zero. -/
def textureCoordinateValue (t : ValueType) (first : Option Node) : Option V :=
  match first with
  | some ⟨.constant (.int n), _⟩ =>
    if n < 0 then none
    else if env.options.numTextureSpaces ≤ n.toInt.toNat then
      some (I t.storage .construct [I .float (.float 0) []])
    else some (I t.storage (.textureCoordinate n.toInt.toNat) [])
  | _ => none

/-- What a read of the shading state gives. -/
def stateValue (t : ValueType) (first : Option Node) : StateQuery → Option V
  | .normal => some (fieldValue I t .normal)
  | .position => some (fieldValue I t .position)
  | .direction => some (fieldValue I t .direction)
  | .animationTime => some (fieldValue I t .animationTime)
  | .objectPosition => some (objectSpaceValue env I t .position (·.worldToObject) true
      "transform_point_to_object")
  | .objectNormal => some (objectSpaceValue env I t .normal (·.objectToWorld.transpose) false
      "transform_normal_to_object")
  | .objectId =>
    match env.uniform with
    | some u => some (I t.storage (.int u.objectId) [])
    | none => some (fieldValue I t .objectId)
  | .textureCoordinate => textureCoordinateValue env I t first

/-- An operator of two operands.  If exceptions are enabled, the quotient of integers is
left to a runtime function. -/
def binaryValue (t : ValueType) (args : List V) (op : BinaryOp) : V :=
  if op = .div ∧ env.options.enableExceptions ∧ t.storage = .int then
    I t.storage (.runtimeCall "checked_div_i32") args
  else I t.storage (.binary op) args

/-- A texture lookup by way of the renderer's function for the shape of the texture. -/
def lookupValue (t : ValueType) (first : Option Node) (args : List V) (what : TextureLookup) :
    Option V :=
  match first with
  | some ⟨_, .texture shape⟩ =>
    let name := env.options.texLookupCallMode.namePrefix ++ "tex_lookup_" ++ what.resultName
      ++ "_" ++ Named.name shape
    some (I t.storage (.runtimeCall name) args)
  | _ => none

/-- The binding of a constant resource. -/
def bindingOf? (first : Option Node) : Option ResourceBinding :=
  match first with
  | some ⟨.constant value, _⟩ => value.resource?.bind env.resources.find?
  | _ => none

/-- A question about a resource: answered if the resource is known, else left to a
runtime function. -/
def queryValue (t : ValueType) (first : Option Node) (args : List V) (q : ResourceQuery) : V :=
  match bindingOf? env first with
  | some b => I (q.answer b).1.storage (q.answer b).2.operator []
  | none =>
    let name := env.options.texLookupCallMode.namePrefix ++ q.runtimeName
    I t.storage (.runtimeCall name) args

/-- What an intrinsic computes from the values of its arguments; `first` is the node of the
first argument.  A part of the state that the context does not have has no value. -/
def intrinsicValue (t : ValueType) (first : Option Node) (args : List V) : Intrinsic → Option V
  | .unary op => some (I t.storage (.unary op) args)
  | .binary op => some (binaryValue env I t args op)
  | .ternary op => some (I t.storage (.ternary op) args)
  | .construct => some (I t.storage .construct args)
  | .member index => some (I t.storage (.extract index) args)
  | .state q =>
    match checkContext env.context q with
    | .ok () => stateValue env I t first q
    | .error _ => none
  | .lookup what => lookupValue env I t first args what
  | .resource q => some (queryValue env I t first args q)
  | .bsdf _ => none

end

/-! ## Nodes -/

/-- What a graph is given: the values of parameters, which are read at a type, and the
results of auxiliary fragments. -/
structure Scope (V : Type) where
  parameter : ValueType → Nat → Option V
  aux : List V

namespace Scope

/-- The parameters of a function, read in its argument block. -/
def ofBlock (I : Interpretation V) (block : Option BlockBinding) : Scope V where
  parameter t index := block.bind fun b =>
    b.offsets[index]?.map fun offset => I t.storage (.argLoad b.index offset) []
  aux := []

/-- The parameters of a called fragment, bound to the arguments. -/
def ofArgs (args : List V) : Scope V where
  parameter _ index := args[index]?
  aux := []

end Scope

/-- The value of a node of a graph.  Arguments and their values are matched by
position. -/
inductive NodeValue (env : LowerEnv) (I : Interpretation V) (pool : DataPool) :
    Graph → Scope V → Nat → V → Prop
  | constant {g : Graph} {scope : Scope V} {id : Nat} {v : Value} {t : ValueType} {x : V} :
    g.node? id = some ⟨.constant v, t⟩ → constantValue env I pool v t = some x →
    NodeValue env I pool g scope id x
  | parameter {g : Graph} {scope : Scope V} {id index : Nat} {t : ValueType} {x : V} :
    g.node? id = some ⟨.parameter index, t⟩ → scope.parameter t index = some x →
    NodeValue env I pool g scope id x
  | lambdaResult {g : Graph} {scope : Scope V} {id index : Nat} {t : ValueType} {x : V} :
    g.node? id = some ⟨.lambdaResult index, t⟩ → scope.aux[index]? = some x →
    NodeValue env I pool g scope id x
  | intrinsic {g : Graph} {scope : Scope V} {id : Nat} {name : String} {args : List Nat}
    {t : ValueType} {i : Intrinsic} {xs : List V} {x : V} :
    g.node? id = some ⟨.call name args, t⟩ → env.resolver.resolve? name = some (.intrinsic i) →
    xs.length = args.length →
    (∀ (k a : Nat) (y : V), args[k]? = some a → xs[k]? = some y →
      NodeValue env I pool g scope a y) →
    intrinsicValue env I t (args[0]?.bind g.node?) xs i = some x →
    NodeValue env I pool g scope id x
  | fragment {g : Graph} {scope : Scope V} {id : Nat} {name : String} {args : List Nat}
    {t : ValueType} {f : Fragment} {body : Nat} {xs : List V} {x : V} :
    g.node? id = some ⟨.call name args, t⟩ → env.resolver.resolve? name = some (.fragment f) →
    f.roots = some (.single body) → f.parameters.length = args.length →
    xs.length = args.length →
    (∀ (k a : Nat) (y : V), args[k]? = some a → xs[k]? = some y →
      NodeValue env I pool g scope a y) →
    NodeValue env I pool f.graph (.ofArgs xs) body x → NodeValue env I pool g scope id x

/-- Values that are equal position by position. -/
theorem eq_of_values {args : List Nat} {xs ys : List V} {P : Nat → V → Prop}
    (hx : xs.length = args.length) (hy : ys.length = args.length)
    (hP : ∀ (k a : Nat) (y : V), args[k]? = some a → ys[k]? = some y → P a y)
    (h : ∀ (k a : Nat) (x : V), args[k]? = some a → xs[k]? = some x →
      ∀ y, P a y → x = y) : xs = ys := by
  apply List.ext_getElem (hx.trans hy.symm)
  intro k hkx hky
  have hk : k < args.length := hx ▸ hkx
  have harg := List.getElem?_eq_getElem hk
  exact h k _ _ harg (List.getElem?_eq_getElem hkx) _
    (hP k _ _ harg (List.getElem?_eq_getElem hky))

/-- A node has at most one value. -/
theorem NodeValue.unique {env : LowerEnv} {I : Interpretation V} {pool : DataPool} {g : Graph}
    {scope : Scope V} {id : Nat} {x y : V} (hx : NodeValue env I pool g scope id x)
    (hy : NodeValue env I pool g scope id y) : x = y := by
  induction hx generalizing y with
  | constant hnode hval => cases hy <;> simp_all
  | parameter hnode hval => cases hy <;> simp_all
  | lambdaResult hnode hval => cases hy <;> simp_all
  | intrinsic hnode hres hlen _ hval ih =>
    cases hy with
    | intrinsic hnode' hres' hlen' hargs' hval' =>
      rw [hnode] at hnode'
      cases hnode'
      rw [hres] at hres'
      cases hres'
      rw [eq_of_values hlen hlen' hargs' fun k a x ha hx y => ih k a x ha hx] at hval
      exact Option.some.inj (hval.symm.trans hval')
    | _ => simp_all
  | fragment hnode hres hroots _ hlen _ _ ih ihbody =>
    cases hy with
    | fragment hnode' hres' hroots' _ hlen' hargs' hbody' =>
      rw [hnode] at hnode'
      cases hnode'
      rw [hres] at hres'
      cases hres'
      rw [hroots] at hroots'
      cases hroots'
      rw [← eq_of_values hlen hlen' hargs' fun k a x ha hx y => ih k a x ha hx] at hbody'
      exact ihbody hbody'
    | _ => simp_all

end Shading
