import Shading.Program.Fold

/-!
# Optimisation

The passes that clean up a routine.  Level 1 simplifies instructions one by one.  Level 2
also merges identical instructions and drops those that nothing needs.

Main definitions:

- `Routine.simplify` simplifies and merges instructions.
- `Routine.dropDead` drops instructions that no result and no store needs.
- `Routine.optimize` runs the passes of a level.
-/

namespace Shading

/-! ## Simplifying -/

/-- A body that is being simplified, and where each instruction of the old one went. -/
structure Simplified where
  body : Array Instr
  moved : Array Nat
  deriving DecidableEq

namespace Simplified

/-- The simplified body before the first instruction. -/
def empty : Simplified :=
  ⟨#[], #[]⟩

/-- Where an instruction went. -/
def rename (s : Simplified) (id : Nat) : Nat :=
  s.moved.getD id 0

/-- Adds an instruction, or finds an identical one if instructions are merged. -/
def emit (merge : Bool) (body : Array Instr) (i : Instr) : Nat × Array Instr :=
  if merge then
    match body.findIdx? fun other => decide (other = i) with
    | some id => (id, body)
    | none => (body.size, body.push i)
  else (body.size, body.push i)

/-- Adds what becomes of an instruction, and tells where it went. -/
def apply (merge : Bool) (body : Array Instr) (i : Instr) : Simplification → Nat × Array Instr
  | .keep => emit merge body i
  | .alias id => (id, body)
  | .replace op => emit merge body ⟨i.type, op⟩
  | .scale value factor =>
    let (c, body) := emit merge body ⟨.float, .float factor⟩
    emit merge body ⟨i.type, .binary .mul value c⟩

/-- Takes the next instruction of the old body. -/
def step (merge fastMath : Bool) (s : Simplified) (i : Instr) : Simplified :=
  let i := i.mapOperands s.rename
  let (id, body) := apply merge s.body i (i.simplification s.body fastMath)
  ⟨body, s.moved.push id⟩

end Simplified

/-! ## Dead code -/

/-- The instructions that are needed, given the instructions with their ids and those
needed from outside. -/
def neededIds (body : List (Instr × Nat)) (outside : List Nat) : List Nat :=
  body.foldr (fun i needed => if i.2 ∈ needed then i.1.op.operands ++ needed else needed) outside

/-- Takes the next instruction of the old body, if it is needed. -/
def Simplified.keepNeeded (needed : List Nat) (s : Simplified) (i : Instr × Nat) : Simplified :=
  if i.2 ∈ needed then ⟨s.body.push (i.1.mapOperands s.rename), s.moved.push s.body.size⟩
  else ⟨s.body, s.moved.push 0⟩

namespace Routine

/-- The routine with a new body, results and stores following the instructions. -/
def withBody (r : Routine) (s : Simplified) : Routine :=
  { r with
    body := s.body
    results := r.results.map s.rename
    stores := r.stores.map fun store => (store.1, s.rename store.2) }

/-- Simplifies the instructions one by one. -/
def simplify (r : Routine) (merge fastMath : Bool) : Routine :=
  r.withBody (r.body.foldl (Simplified.step merge fastMath) .empty)

/-- The instructions that results and stores use directly. -/
def roots (r : Routine) : List Nat :=
  r.results ++ r.stores.map (·.2)

/-- Drops the instructions that no result and no store needs. -/
def dropDead (r : Routine) : Routine :=
  let needed := neededIds r.body.toList.zipIdx r.roots
  r.withBody (r.body.toList.zipIdx.foldl (Simplified.keepNeeded needed) .empty)

/-- Runs the passes of a level. -/
def optimize (r : Routine) (level : Nat) (fastMath : Bool) : Routine :=
  if level = 0 then r
  else if level = 1 then r.simplify false fastMath
  else (r.simplify true fastMath).dropDead

end Routine

end Shading
