import Shading.OrderedMap
import Shading.Value.Basic

/-!
# Expression graphs

An expression graph is an arena of typed nodes in which calls refer to the nodes
created before them.  Graphs are extended at the end, checked node by node, walked
in dependency order, and copied into one another.

Main definitions:

- `Graph.push` appends a node and refuses a call of a node that is not there yet;
  `Graph.WellFormed` is what it keeps.
- `Graph.check` checks a graph that was not built that way.
- `Graph.postOrder` lists the nodes reachable from some roots, arguments before
  users.
- `Graph.Copy.root` copies a subgraph of another graph and remembers which node
  became which.
-/

namespace Shading

/-- What a node computes. -/
inductive NodeOp
  | constant (value : Value)
  | parameter (index : Nat)
  | call (name : String) (args : List Nat)
  | lambdaResult (index : Nat)
  deriving Inhabited

/-- A typed node. -/
structure Node where
  op : NodeOp
  type : ValueType
  deriving Inhabited

/-- The nodes that a node reads. -/
def Node.args (n : Node) : List Nat :=
  match n.op with
  | .call _ args => args
  | _ => []

/-- An arena of nodes, addressed by position. -/
structure Graph where
  nodes : Array Node
  deriving Inhabited

/-- Why a graph could not be built, checked or copied. -/
inductive GraphError
  | undefinedArgument (call : String) (arg : Nat)
  | lateArgument (node : Nat) (call : String) (arg : Nat)
  | illTypedConstant (node : Nat) (type : ValueType)
  | missingNode (node : Nat)
  | unmappedArgument (arg : Nat)
  | missingRoot (root : Nat)
  deriving Repr, DecidableEq

/-- A node as it is named in diagnostics. -/
def nodeText (id : Nat) : String :=
  "n" ++ toString id

/-- The wording of a graph error. -/
def GraphError.message : GraphError → String
  | .undefinedArgument call arg =>
    s!"call '{call}' references undefined node " ++ nodeText arg
  | .lateArgument node call arg =>
    "node " ++ nodeText node ++ s!" (call '{call}') references " ++ nodeText arg
      ++ ", which is not an earlier node"
  | .illTypedConstant node type =>
    "node " ++ nodeText node ++ ": constant does not conform to its type " ++ type.text
  | .missingNode node => "import: missing node " ++ nodeText node
  | .unmappedArgument arg => "import: unmapped " ++ nodeText arg
  | .missingRoot root =>
    "import: root " ++ nodeText root ++ " is not part of the source graph"

namespace Graph

/-- The graph without nodes. -/
def empty : Graph :=
  ⟨#[]⟩

/-- The number of nodes. -/
def size (g : Graph) : Nat :=
  g.nodes.size

/-- The node of an id. -/
def node? (g : Graph) (id : Nat) : Option Node :=
  g.nodes[id]?

/-- Every call reads earlier nodes only. -/
def WellFormed (g : Graph) : Prop :=
  ∀ id node, g.node? id = some node → ∀ a ∈ node.args, a < id

/-! ## Building -/

/-- Appends a node without a check. -/
def append (g : Graph) (node : Node) : Graph :=
  ⟨g.nodes.push node⟩

/-- Appends a node and returns its id.  A call may only read nodes that are there. -/
def push (g : Graph) (node : Node) : Except GraphError (Nat × Graph) :=
  match node.op with
  | .call name args =>
    match args.find? fun a => decide (g.size ≤ a) with
    | some a => .error (.undefinedArgument name a)
    | none => .ok (g.size, g.append node)
  | _ => .ok (g.size, g.append node)

/-- Whether a node is a constant. -/
def isConstant (g : Graph) (id : Nat) : Bool :=
  match g.node? id with
  | some ⟨.constant _, _⟩ => true
  | _ => false

/-! ## Checking -/

/-- Checks one node at its position: calls read earlier nodes, and constants inhabit
their types. -/
def checkNode (id : Nat) (node : Node) : Except GraphError Unit :=
  match node.op with
  | .call name args =>
    match args.find? fun a => decide (id ≤ a) with
    | some a => .error (.lateArgument id name a)
    | none => .ok ()
  | .constant value =>
    if value.conformsTo node.type then .ok () else .error (.illTypedConstant id node.type)
  | _ => .ok ()

/-- Checks the nodes of a list whose first one has the given id. -/
def checkNodes : (id : Nat) → List Node → Except GraphError Unit
  | _, [] => .ok ()
  | id, node :: rest =>
    match checkNode id node with
    | .error e => .error e
    | .ok () => checkNodes (id + 1) rest

/-- Checks every node of the graph. -/
def check (g : Graph) : Except GraphError Unit :=
  checkNodes 0 g.nodes.toList

/-! ## Walking -/

/-- A task of the walk: look at a node for the first time, or list it now that its
arguments are listed. -/
inductive Visit
  | enter (id : Nat)
  | leave (id : Nat)
  deriving Repr, DecidableEq

/-- The number of nodes that were not entered yet. -/
def unseen (g : Graph) (seen : List Nat) : Nat :=
  (List.range g.size).countP fun id => decide (id ∉ seen)

/-- A list holds fewer members of a smaller class, if one of its members is only in the
greater one. -/
theorem countP_lt_countP {α : Type} {p q : α → Bool} {l : List α} {a : α}
    (sub : ∀ x, q x = true → p x = true) (mem : a ∈ l) (hp : p a = true) (hq : q a = false) :
    l.countP q < l.countP p := by
  induction l with
  | nil => cases mem
  | cons x xs ih =>
    have le : xs.countP q ≤ xs.countP p := List.countP_mono_left fun x _ => sub x
    rw [List.countP_cons, List.countP_cons]
    rcases List.mem_cons.mp mem with rfl | mem
    · rw [if_pos hp, if_neg (by rw [hq]; decide)]
      omega
    · have lt := ih mem
      by_cases hqx : q x = true
      · rw [if_pos hqx, if_pos (sub x hqx)]
        omega
      · rw [if_neg hqx]
        split <;> omega

/-- Entering a node leaves fewer nodes to enter. -/
theorem unseen_cons_lt {g : Graph} {seen : List Nat} {id : Nat} (bound : id < g.size)
    (fresh : id ∉ seen) : g.unseen (id :: seen) < g.unseen seen := by
  apply countP_lt_countP (a := id)
  · intro x
    simp
  · simpa using bound
  · simpa using fresh
  · simp

/-- Works off a stack of tasks.  A node that was seen before is not entered again, its
arguments are only put on the stack if they were not seen, and an id without a node is
skipped. -/
def walk (g : Graph) (stack : List Visit) (seen : List Nat) : List Nat :=
  match stack with
  | [] => []
  | .leave id :: rest => id :: g.walk rest seen
  | .enter id :: rest =>
    if bound : id < g.size then
      if id ∈ seen then g.walk rest seen
      else
        g.walk ((g.nodes[id].args.filter (· ∉ id :: seen)).map .enter ++ .leave id :: rest)
          (id :: seen)
    else g.walk rest seen
termination_by (g.unseen seen, stack.length)
decreasing_by
  all_goals simp_wf
  · exact Prod.Lex.right _ (Nat.lt_succ_self _)
  · exact Prod.Lex.right _ (Nat.lt_succ_self _)
  · rename_i fresh
    exact Prod.Lex.left _ _ (unseen_cons_lt bound fresh)
  · exact Prod.Lex.right _ (Nat.lt_succ_self _)

/-- The nodes reachable from the roots, each once: arguments before users, roots in
the given order, arguments from left to right. -/
def postOrder (g : Graph) (roots : List Nat) : List Nat :=
  g.walk (roots.map .enter) []

/-! ## Copying -/

/-- Which node of a source graph became which node of the target graph. -/
abbrev CopyMap := OrderedMap Nat Nat

/-- A graph into which nodes are copied, and where the copied ones went. -/
structure Copy where
  graph : Graph
  map : CopyMap

/-- The ids to which the arguments of a call went. -/
def Copy.args? (c : Copy) : List Nat → Except GraphError (List Nat)
  | [] => .ok []
  | a :: rest =>
    match c.map.find? a with
    | none => .error (.unmappedArgument a)
    | some b => (c.args? rest).map (b :: ·)

/-- Copies one node whose arguments were copied before. -/
def Copy.node? (c : Copy) (node : Node) : Except GraphError Node :=
  match node.op with
  | .call name args => (c.args? args).map fun args => ⟨.call name args, node.type⟩
  | _ => .ok node

/-- Copies the listed nodes of a source graph, those left out that were copied before.
A failure ends the copying and keeps what was copied up to there. -/
def Copy.nodes (source : Graph) (c : Copy) : List Nat → Copy × Option GraphError
  | [] => (c, none)
  | id :: rest =>
    if c.map.contains id then c.nodes source rest
    else
      match source.node? id with
      | none => (c, some (.missingNode id))
      | some node =>
        match c.node? node with
        | .error e => (c, some e)
        | .ok node =>
          match c.graph.push node with
          | .error e => (c, some e)
          | .ok (copied, graph) => Copy.nodes source ⟨graph, c.map.insert id copied⟩ rest

/-- Copies the subgraph below a root of a source graph, and returns where the root
went. -/
def Copy.root (source : Graph) (c : Copy) (root : Nat) : Copy × Except GraphError Nat :=
  match c.nodes source (source.postOrder [root]) with
  | (c, some e) => (c, .error e)
  | (c, none) =>
    match c.map.find? root with
    | some copied => (c, .ok copied)
    | none => (c, .error (.missingRoot root))

end Graph

end Shading
