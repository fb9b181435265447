import Mathlib
import Shading.Proofs.Lowering.Expression

/-!
# Lowering that counts nested calls

`lowerGraph` has a budget of nested calls and ends for this reason.  Here lowering is written as
two functions that call each other, one for graphs and one for calls of fragments, without a
budget.  A counter tells how many calls lowering is inside of: it goes up before the body of a
fragment is lowered and down after it, also if the body fails, and a call at the limit is refused.

Main definitions:

- `Descent` is a state of lowering with the counter and the highest value that it had.
- `LowerEnv.descendGraph` and `LowerEnv.descendCall` lower a graph and a call of a fragment.
- `Descent.Follows` says that counted lowering ends, does what a computation does, leaves the
  counter as it was, and never had it above the limit.

Main results:

- `descendGraph_follows` and `descendCall_follows`: counted lowering does what lowering with the
  rest of the budget does.
-/

namespace Shading

/-- Where a lowering stands that counts nested calls: its state, the number of calls that it is
inside of, and the largest such number so far. -/
structure Descent where
  state : LowerState
  depth : Nat
  deepest : Nat

namespace Descent

/-- Runs a computation that calls no fragment. -/
def run {α : Type} (d : Descent) (m : LowerM α) : Except LowerError α × Descent :=
  ((m.run d.state).1, { d with state := (m.run d.state).2 })

/-- Goes into a call. -/
def enter (d : Descent) : Descent :=
  { d with depth := d.depth + 1, deepest := max d.deepest (d.depth + 1) }

/-- Leaves a call. -/
def leave (d : Descent) : Descent :=
  { d with depth := d.depth - 1 }

end Descent

/-- The fragment that a node calls, with its name and the arguments. -/
def Resolver.callee? (names : Resolver) (node : Node) : Option (String × List Nat × Fragment) :=
  match node.op with
  | .call name args =>
    match names.resolve? name with
    | some (.fragment f) => some (name, args, f)
    | _ => none
  | _ => none

/-- An inliner for nodes that call no fragment. -/
def noInliner : Inliner := fun name _ _ => throw (.unresolvedCall name)

mutual

/-- Lowers the nodes of a list, arguments before users. -/
def LowerEnv.descendNodes (env : LowerEnv) (g : Graph) (source : ParameterSource)
    (aux ids : List Nat) (done : Lowered) (d : Descent) :
    Option (Except LowerError Lowered × Descent) :=
  match ids with
  | [] => some (.ok done, d)
  | id :: rest =>
    match g.node? id with
    | none => some (.error (.missingNode id), d)
    | some node => do
      match ← env |>.descendNode g source aux done node d with
      | (.error e, d) => some (.error e, d)
      | (.ok instr, d) => env |>.descendNodes g source aux rest (done.insert id instr) d
partial_fixpoint

/-- Lowers a node, whose arguments are lowered. -/
def LowerEnv.descendNode (env : LowerEnv) (g : Graph) (source : ParameterSource) (aux : List Nat)
    (done : Lowered) (node : Node) (d : Descent) : Option (Except LowerError Nat × Descent) :=
  match env.resolver.callee? node with
  | none => some (d.run (lowerNode env noInliner g source aux done node))
  | some (name, args, f) =>
    match loweredArgs done args with
    | .error e => some (.error e, d)
    | .ok ids => env |>.descendCall name f ids d
partial_fixpoint

/-- Lowers what some roots need. -/
def LowerEnv.descendGraph (env : LowerEnv) (g : Graph) (roots : List Nat)
    (source : ParameterSource) (aux : List Nat) (d : Descent) :
    Option (Except LowerError (List Nat) × Descent) := do
  let (done, d) ← env |>.descendNodes g source aux (g.postOrder roots) OrderedMap.empty d
  return (done.bind fun done => loweredRoots done roots, d)
partial_fixpoint

/-- Lowers a call of a fragment. -/
def LowerEnv.descendCall (env : LowerEnv) (name : String) (f : Fragment) (args : List Nat)
    (d : Descent) : Option (Except LowerError Nat × Descent) :=
  if LowerError.nestingLimit ≤ d.depth then some (.error (.nestedTooDeep name), d)
  else
    match calleeBody name f args.length with
    | .error e => some (.error e, d)
    | .ok body => do
      let (results, d) ← env |>.descendGraph f.graph [body] (.bound args) [] d.enter
      return (results.bind (onlyResult body), d.leave)
partial_fixpoint

end

/-! ## Lowering with a budget -/

section

variable {env : LowerEnv} {g : Graph} {source : ParameterSource} {aux : List Nat} {node : Node}
  {inliner : Inliner} {d : Descent}

theorem Resolver.callee?_eq_some_iff {names : Resolver} {name : String} {args : List Nat}
    {f : Fragment} : names.callee? node = some (name, args, f) ↔
      node.op = .call name args ∧ names.resolve? name = some (.fragment f) := by
  unfold callee?
  split
  · rename_i name' args' hop
    rw [hop, NodeOp.call.injEq]
    split
    · rename_i f' hfound
      rw [Option.some.injEq, Prod.mk.injEq, Prod.mk.injEq]
      constructor
      · rintro ⟨rfl, rfl, rfl⟩
        exact ⟨⟨rfl, rfl⟩, hfound⟩
      · rintro ⟨⟨rfl, rfl⟩, h⟩
        cases hfound.symm.trans h
        exact ⟨rfl, rfl, rfl⟩
    · rename_i hnone
      refine iff_of_false (by simp) ?_
      rintro ⟨⟨rfl, rfl⟩, h⟩
      exact hnone f h
  · rename_i hop
    exact iff_of_false (by simp) fun h => hop name args h.1

/-- A node that calls no fragment is lowered without an inliner. -/
theorem lowerNode_of_callee?_none (h : env.resolver.callee? node = none)
    (inliner inliner' : Inliner) (done : Lowered) :
    lowerNode env inliner g source aux done node
      = lowerNode env inliner' g source aux done node := by
  obtain ⟨op, type⟩ := node
  cases op with
  | call name args =>
    have hcall : ∀ c, lowerCall env inliner name c = lowerCall env inliner' name c := by
      intro c
      unfold lowerCall
      split
      · rfl
      · rename_i f hf
        cases h.symm.trans (Resolver.callee?_eq_some_iff.mpr ⟨rfl, hf⟩)
      · rfl
    simp only [lowerNode, hcall]
  | _ => rfl

/-- A node that calls a fragment is lowered by the inliner. -/
theorem lowerNode_of_callee? {name : String} {args : List Nat} {f : Fragment}
    (h : env.resolver.callee? node = some (name, args, f)) (inliner : Inliner) (done : Lowered) :
    lowerNode env inliner g source aux done node
      = liftM (loweredArgs done args) >>= inliner name f := by
  obtain ⟨hop, hfound⟩ := Resolver.callee?_eq_some_iff.mp h
  simp only [lowerNode, hop, lowerCall, hfound]

/-! ## Agreement -/

/-- A run whose first part fails fails like it. -/
theorem run_bind_of_error {α β : Type} {m : LowerM α} {f : α → LowerM β} {s t : LowerState}
    {e : LowerError} (h : m.run s = (.error e, t)) : (m >>= f).run s = (.error e, t) := by
  change ExceptT.bindCont f (m.run s).1 (m.run s).2 = _
  rw [h]
  rfl

/-- Counted lowering ends, does what a computation does, leaves the counter as it was, and never
had it above the limit. -/
def Descent.Follows {α : Type} (m : LowerM α) (d : Descent)
    (r : Option (Except LowerError α × Descent)) : Prop :=
  ∃ deepest, r = some ((m.run d.state).1, ⟨(m.run d.state).2, d.depth, deepest⟩) ∧
    d.deepest ≤ deepest ∧ deepest ≤ max d.deepest LowerError.nestingLimit

namespace Descent.Follows

variable {α β : Type} {d : Descent}

variable {r : Option (Except LowerError α × Descent)} {m : LowerM α}

theorem run (m : LowerM α) (d : Descent) : Follows m d (some (d.run m)) :=
  ⟨d.deepest, rfl, Nat.le_refl _, Nat.le_max_left _ _⟩

/-- One computation after the other; the second one starts with the same counter. -/
theorem bind {f : α → LowerM β}
    {k : Except LowerError α × Descent → Option (Except LowerError β × Descent)}
    (hm : Follows m d r) (hfails : ∀ e d', k (.error e, d') = some (.error e, d'))
    (hf : ∀ a d', d'.depth = d.depth → Follows (f a) d' (k (.ok a, d'))) :
    Follows (m >>= f) d (r.bind k) := by
  obtain ⟨deepest, rfl, hle, hmax⟩ := hm
  unfold Follows
  rcases hrun : m.run d.state with ⟨e | a, s⟩
  · rw [run_bind_of_error hrun]
    exact ⟨deepest, hfails e _, hle, hmax⟩
  · obtain ⟨deepest', hk, hle', hmax'⟩ := hf a ⟨s, d.depth, deepest⟩ rfl
    rw [run_bind_of_ok hrun]
    refine ⟨deepest', hk, hle.trans hle', ?_⟩
    exact hmax'.trans (max_le hmax (Nat.le_max_right _ _))

/-- A check after a computation. -/
theorem thenCheck (hm : Follows m d r) (x : α → Except LowerError β) :
    Follows (m >>= fun a => liftM (x a)) d (r.bind fun p => some (p.1.bind x, p.2)) := by
  refine hm.bind (fun _ _ => rfl) fun a d' _ => ?_
  change Follows (liftM (x a)) d' (some (x a, d'))
  cases x a with
  | error e => exact run (throw e) d'
  | ok b => exact run (pure b) d'

/-- A computation inside a call. -/
theorem inCall (hdepth : d.depth < LowerError.nestingLimit) (hm : Follows m d.enter r) :
    Follows m d (r.map fun p => (p.1, p.2.leave)) := by
  obtain ⟨deepest, rfl, hle, hmax⟩ := hm
  refine ⟨deepest, rfl, (Nat.le_max_left _ _).trans hle, hmax.trans (max_le ?_ ?_)⟩
  · exact max_le (Nat.le_max_left _ _) (Nat.le_trans hdepth (Nat.le_max_right _ _))
  · exact Nat.le_max_right _ _

end Descent.Follows

/-- Counted lowering of calls from a depth does what an inliner does. -/
def FollowsCalls (env : LowerEnv) (inliner : Inliner) (depth : Nat) : Prop :=
  ∀ (name : String) (f : Fragment) (args : List Nat) (d : Descent), d.depth = depth →
    d.Follows (inliner name f args) (env.descendCall name f args d)

theorem descendNode_follows (h : FollowsCalls env inliner d.depth) (done : Lowered) (node : Node) :
    d.Follows (lowerNode env inliner g source aux done node)
      (env.descendNode g source aux done node d) := by
  rw [LowerEnv.descendNode]
  cases hcallee : env.resolver.callee? node with
  | none =>
    rw [lowerNode_of_callee?_none hcallee inliner noInliner done]
    exact .run _ d
  | some callee =>
    obtain ⟨name, args, f⟩ := callee
    rw [lowerNode_of_callee? hcallee]
    dsimp only
    cases loweredArgs done args with
    | error e => exact .run (throw e) d
    | ok ids => exact h name f ids d rfl

theorem descendNodes_follows (h : FollowsCalls env inliner d.depth) (ids : List Nat)
    (done : Lowered) :
    d.Follows (lowerNodes env inliner g source aux ids done)
      (env.descendNodes g source aux ids done d) := by
  induction ids generalizing done d with
  | nil =>
    rw [LowerEnv.descendNodes, lowerNodes]
    exact .run _ d
  | cons id rest ih =>
    rw [LowerEnv.descendNodes, lowerNodes]
    cases g.node? id with
    | none => exact .run (throw _) d
    | some node =>
      refine (descendNode_follows h done node).bind (fun _ _ => rfl) fun instr d' hdepth => ?_
      rw [← hdepth] at h
      exact ih h _

theorem descendRoots_follows (h : FollowsCalls env inliner d.depth) (roots : List Nat) :
    d.Follows (lowerRoots env inliner g roots source aux)
      (env.descendGraph g roots source aux d) := by
  rw [LowerEnv.descendGraph]
  exact (descendNodes_follows h _ _).thenCheck fun done => loweredRoots done roots

/-- Counted lowering of a call does what lowering with the rest of the budget does.  The induction
is on this rest. -/
theorem descendCall_follows (env : LowerEnv) {budget depth : Nat}
    (h : depth + budget = LowerError.nestingLimit) :
    FollowsCalls env (inlinerAt env budget) depth := by
  induction budget generalizing depth with
  | zero =>
    intro name f args d hd
    rw [LowerEnv.descendCall, if_pos (by omega)]
    exact .run (throw _) d
  | succ budget ih =>
    intro name f args d hd
    rw [LowerEnv.descendCall, if_neg (by omega)]
    unfold inlinerAt
    cases calleeBody name f args.length with
    | error e => exact .run (throw e) d
    | ok body =>
      have hbody : d.enter.Follows
          (lowerRoots env (inlinerAt env budget) f.graph [body] (.bound args) [])
          (env.descendGraph f.graph [body] (.bound args) [] d.enter) := by
        refine descendRoots_follows (ih ?_) [body]
        change d.depth + 1 + budget = _
        omega
      have hcall := (hbody.inCall (by omega)).thenCheck (onlyResult body)
      rw [Option.bind_map] at hcall
      exact hcall

/-- Counted lowering of a graph does what lowering with the rest of the budget does. -/
theorem descendGraph_follows (env : LowerEnv) (g : Graph) (roots : List Nat)
    (source : ParameterSource) (aux : List Nat) {budget : Nat}
    (h : d.depth + budget = LowerError.nestingLimit) :
    d.Follows (lowerGraph env budget g roots source aux)
      (env.descendGraph g roots source aux d) :=
  descendRoots_follows (descendCall_follows env h) roots

end

end Shading
