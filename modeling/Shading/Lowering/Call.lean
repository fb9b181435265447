import Shading.Lowering.Constant

/-!
# Lowering of intrinsic calls

Main definitions:

- `lowerIntrinsic` lowers a call of an intrinsic function.
- `foldTransform` applies a fixed matrix.
- `ResourceQuery.answer` answers a question about a known resource.
-/

namespace Shading

/-- A call whose arguments were lowered: the node, the graph in which it stands, the
nodes of its arguments, and their instructions. -/
structure CallSite where
  graph : Graph
  type : ValueType
  argNodes : List Nat
  args : List Nat

namespace CallSite

/-- The node of an argument. -/
def argNode? (c : CallSite) (index : Nat) : Option Node :=
  c.argNodes[index]?.bind c.graph.node?

end CallSite

/-- Checks the number of arguments of an intrinsic. -/
def expectArgs (i : Intrinsic) (args : List Nat) (count : Nat) : Except LowerError Unit :=
  if args.length = count then .ok () else .error (.arity i.label count args.length)

/-! ## Operators -/

/-- An operator of two operands.  If exceptions are enabled, the quotient of integers is
left to a runtime function. -/
def lowerBinary (env : LowerEnv) (c : CallSite) (op : BinaryOp) : LowerM Nat := do
  expectArgs (.binary op) c.args 2
  if op = .div ∧ env.options.enableExceptions ∧ c.type.storage = .int then
    emit c.type (.runtimeCall "checked_div_i32" c.args)
  else
    match c.args with
    | [a, b] => emit c.type (.binary op a b)
    | _ => throw (.arity (Intrinsic.binary op).label 2 c.args.length)

/-- An operator of one operand. -/
def lowerUnary (c : CallSite) (op : UnaryOp) : LowerM Nat :=
  match c.args with
  | [a] => emit c.type (.unary op a)
  | _ => throw (.arity (Intrinsic.unary op).label 1 c.args.length)

/-- An operator of three operands. -/
def lowerTernary (c : CallSite) (op : TernaryOp) : LowerM Nat :=
  match c.args with
  | [x, y, z] => emit c.type (.ternary op x y z)
  | _ => throw (.arity (Intrinsic.ternary op).label 3 c.args.length)

/-- A value made of as many parts as its type has, or of one part that is repeated. -/
def lowerConstruct (c : CallSite) : LowerM Nat :=
  let count := c.type.childCount
  if count = 0 ∨ (c.args.length ≠ count ∧ c.args.length ≠ 1) then
    throw (.construction c.type c.args.length)
  else emit c.type (.construct c.args)

/-- A part of a value. -/
def lowerMember (c : CallSite) (index : Nat) : LowerM Nat :=
  match c.args with
  | [a] => emit c.type (.extract a index)
  | _ => throw (.arity (Intrinsic.member index).label 1 c.args.length)

/-! ## State -/

/-- The sum of an instruction and the products of a row with instructions. -/
def foldRow : (acc : Nat) → List (Float32 × Nat) → LowerM Nat
  | acc, [] => return acc
  | acc, (k, part) :: rest => do
    let factor ← emit .float (.float k)
    let term ← emit .float (.binary .mul factor part)
    foldRow (← emit .float (.binary .add acc term)) rest

/-- Applies the first three rows of a matrix to a value of three components; only a point
is shifted by the last column. -/
def foldTransform (type : ValueType) (value : Nat) (m : Transform) (point : Bool) : LowerM Nat := do
  let parts ← [0, 1, 2].mapM fun index => emit .float (.extract value index)
  let rows ← [m[0], m[1], m[2]].mapM fun row => do
    let acc ← emit .float (.float (if point then row[3] else 0))
    foldRow acc (row.toList.zip parts)
  emit type (.construct rows)

/-- The matrix with rows and columns exchanged. -/
def Transform.transpose (m : Transform) : Transform :=
  Vector.ofFn fun r => Vector.ofFn fun c => m[c][r]

/-- A field of the state, whose use is recorded. -/
def lowerField (type : ValueType) (field : StateField) (flag : StateFlag) : LowerM Nat := do
  noteUsage flag
  emit type (.state field)

/-- The position in object space. -/
def lowerObjectPosition (env : LowerEnv) (type : ValueType) : LowerM Nat := do
  let v ← lowerField type .position .position
  if env.options.internalSpace = .object then return v
  match env.uniform with
  | some u => foldTransform type v u.worldToObject true
  | none =>
    noteUsage .transforms
    emit type (.runtimeCall "transform_point_to_object" [v])

/-- The normal in object space.  Normals go through the inverse transpose of the matrix
for points. -/
def lowerObjectNormal (env : LowerEnv) (type : ValueType) : LowerM Nat := do
  let v ← lowerField type .normal .normal
  if env.options.internalSpace = .object then return v
  match env.uniform with
  | some u => foldTransform type v u.objectToWorld.transpose false
  | none =>
    noteUsage .transforms
    emit type (.runtimeCall "transform_normal_to_object" [v])

/-- The id of the object. -/
def lowerObjectId (env : LowerEnv) (type : ValueType) : LowerM Nat :=
  match env.uniform with
  | some u => emit type (.int u.objectId)
  | none => lowerField type .objectId .objectId

/-- A texture coordinate.  The index is a constant; beyond the spaces that there are the
coordinate is zero. -/
def lowerTextureCoordinate (env : LowerEnv) (c : CallSite) : LowerM Nat := do
  expectArgs (.state .textureCoordinate) c.args 1
  match c.argNode? 0 with
  | some ⟨.constant (.int n), _⟩ =>
    if n < 0 then throw .textureCoordinateIndex
    let index := n.toInt.toNat
    if env.options.numTextureSpaces ≤ index then
      let component ← emit .float (.float 0)
      emit c.type (.construct [component])
    else
      noteUsage .textureCoordinate
      emit c.type (.textureCoordinate index)
  | _ => throw .textureCoordinateIndex

/-- Whether a part of the state can be read in a context: the direction exists only in
environment functions, and there it is alone with the time. -/
def checkContext (context : ExecutionContext) (q : StateQuery) : Except LowerError Unit :=
  match q with
  | .direction => if context = .environment then .ok () else .error .onlyInEnvironment
  | .animationTime => .ok ()
  | _ => if context = .environment then .error (.notInEnvironment q.label) else .ok ()

/-- A read of the shading state. -/
def lowerState (env : LowerEnv) (c : CallSite) (q : StateQuery) : LowerM Nat := do
  checkContext env.context q
  match q with
  | .normal => lowerField c.type .normal .normal
  | .position => lowerField c.type .position .position
  | .direction => lowerField c.type .direction .direction
  | .animationTime => lowerField c.type .animationTime .animationTime
  | .objectPosition => lowerObjectPosition env c.type
  | .objectNormal => lowerObjectNormal env c.type
  | .objectId => lowerObjectId env c.type
  | .textureCoordinate => lowerTextureCoordinate env c

/-! ## Resources -/

/-- A texture lookup by way of the renderer's function for the shape of the texture. -/
def lowerLookup (env : LowerEnv) (c : CallSite) (what : TextureLookup) : LowerM Nat := do
  expectArgs (.lookup what) c.args 2
  match c.argNode? 0 with
  | some ⟨_, .texture shape⟩ =>
    let name := env.options.texLookupCallMode.namePrefix ++ "tex_lookup_" ++ what.resultName
      ++ "_" ++ Named.name shape
    emit c.type (.runtimeCall name c.args)
  | _ => throw (.noTextureArgument what.label)

/-- The answer to a question about a known resource, and its type. -/
def ResourceQuery.answer (q : ResourceQuery) (b : ResourceBinding) : ValueType × Op :=
  match q, b.attributes.description with
  | .texWidth, .texture _ width _ _ => (.int, .int (Int32.ofNat width))
  | .texHeight, .texture _ _ height _ => (.int, .int (Int32.ofNat height))
  | .texDepth, .texture _ _ _ depth => (.int, .int (Int32.ofNat depth))
  | .texWidth, _ | .texHeight, _ | .texDepth, _ => (.int, .int 0)
  | .lightProfilePower, .lightProfile power _ => (.float, .float power)
  | .lightProfileMaximum, .lightProfile _ maximum => (.float, .float maximum)
  | .lightProfilePower, _ | .lightProfileMaximum, _ => (.float, .float 0)
  | _, _ => (.bool, .bool (b.attributes.valid && b.index != 0))

/-- The binding of an argument that is a constant resource. -/
def constantBinding? (env : LowerEnv) (c : CallSite) : Option ResourceBinding :=
  match c.argNode? 0 with
  | some ⟨.constant value, _⟩ => value.resource?.bind env.resources.find?
  | _ => none

/-- A question about a resource: answered if the resource is known, else left to a
runtime function. -/
def lowerResourceQuery (env : LowerEnv) (c : CallSite) (q : ResourceQuery) : LowerM Nat := do
  expectArgs (.resource q) c.args 1
  match constantBinding? env c with
  | some b => emit (q.answer b).1 (q.answer b).2
  | none =>
    let name := env.options.texLookupCallMode.namePrefix ++ q.runtimeName
    emit c.type (.runtimeCall name c.args)

/-- A call of an intrinsic function. -/
def lowerIntrinsic (env : LowerEnv) (c : CallSite) : Intrinsic → LowerM Nat
  | .unary op => lowerUnary c op
  | .binary op => lowerBinary env c op
  | .ternary op => lowerTernary c op
  | .construct => lowerConstruct c
  | .member index => lowerMember c index
  | .state q => lowerState env c q
  | .lookup what => lowerLookup env c what
  | .resource q => lowerResourceQuery env c q
  | .bsdf node => throw (.strayDistribution (Intrinsic.bsdf node).label)

end Shading
