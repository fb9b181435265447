import Shading.Proofs.Program.Optimize
import Shading.Session.Compilation

/-!
# The routines that an item becomes

A fragment becomes one routine, and a distribution becomes four that are lowered one after the
other.  Both are lists of jobs: headers of routines, each with the code that gives its instructions.
What lowering does to a program is then said once, of a list of jobs.

Main definitions:

- `Assembly.Lowers` says that jobs were lowered with success.
- `Compilable.lowerEnv` is what the lowering of an item depends on.

Main results:

- Theorem `Assembly.lowerRoutine_eq_ok_iff`: what a routine that was lowered is made of.
- Theorem `Assembly.addJobs_eq_ok_iff`: what a successful addition is made of.
-/

namespace Shading

namespace Assembly

/-! ## Auxiliary fragments -/

theorem lt_of_isCached {n index : Nat} {type : ValueType} (h : isCached n index type = true) :
    index < n :=
  of_decide_eq_true (Bool.and_eq_true_iff.mp h).1

section

variable {env : LowerEnv} {kind : FunctionKind} {source : ParameterSource} {index : Nat}
  {f : Fragment} {rest : List Fragment}

theorem lowerAux_of_untyped (h : f.rootType? 0 = none) :
    lowerAux env kind source index (f :: rest) = throw (.auxWithoutBody index) := by
  rw [lowerAux, h]

theorem exists_root_of_type {type : ValueType} (h : f.rootType? 0 = some type) :
    ∃ root more, f.rootNodes = root :: more := by
  unfold Fragment.rootType? at h
  cases hroots : f.rootNodes with
  | nil =>
    rw [hroots] at h
    cases h
  | cons root more => exact ⟨root, more, rfl⟩

/-- The first auxiliary fragment is lowered before the others, and is stored by the first
entry point if it is cached. -/
theorem lowerAux_cons {type : ValueType} {root : Nat} {more : List Nat}
    (htype : f.rootType? 0 = some type) (hroots : f.rootNodes = root :: more) :
    lowerAux env kind source index (f :: rest) = (do
      let id ← lowerAuxRoot env kind source index f.graph type root
      let others ← lowerAux env kind source (index + 1) rest
      return ⟨id :: others.results,
        (if isCached env.options.numTextureResults index type && kind = .dfInit then
          [(index, id)] else []) ++ others.stores⟩) := by
  rw [lowerAux, htype, hroots]

/-- The first entry point always has the code. -/
theorem lowerAuxRoot_init (g : Graph) (type : ValueType) (root : Nat) :
    lowerAuxRoot env .dfInit source index g type root
      = lowerRoot env g root source []
        >>= noteCached (isCached env.options.numTextureResults index type) :=
  if_neg fun h => h.2 rfl

end

/-! ## Routines -/

theorem finishRoutine_sameHeader (o : Options) (r : Routine) (result : RoutineResult)
    (body : Array Instr) :
    Routine.SameHeader { r with body, results := result.results, stores := result.stores }
      (finishRoutine o r result body) :=
  Routine.optimize_sameHeader _ _ _

variable {a a' : Assembly} {o : Options}

theorem lowerRoutine_eq_ok_iff {r r' : Routine} {lower : LowerM RoutineResult} :
    a.lowerRoutine o r lower = (.ok r', a') ↔ ∃ result t,
      lower.run ⟨a.pool, #[], .none⟩ = (.ok result, t) ∧ r' = finishRoutine o r result t.body ∧
        a' = { a with pool := t.pool, usage := a.usage.union t.usage } := by
  unfold lowerRoutine
  constructor
  · intro h
    split at h
    · cases h
    · rename_i result t hrun
      cases h
      exact ⟨result, t, hrun, rfl, rfl⟩
  · rintro ⟨result, t, hrun, rfl, rfl⟩
    rw [hrun]

/-! ## Jobs -/

/-- Jobs were lowered with success: what they became, and the program after it. -/
inductive Lowers (o : Options) : List Job → Assembly → List Routine → Assembly → Prop
  | nil {a : Assembly} : Lowers o [] a [] a
  | cons {job : Job} {jobs : List Job} {a b c : Assembly} {r : Routine} {new : List Routine}
      (hfirst : a.lowerRoutine o job.header job.code = (.ok r, b))
      (hrest : Lowers o jobs b new c) : Lowers o (job :: jobs) a (r :: new) c

variable {new : List Routine}

theorem lowerJobs_eq_ok_iff {jobs : List Job} :
    lowerJobs o jobs a = (.ok new, a') ↔ Lowers o jobs a new a' := by
  constructor
  · intro h
    induction jobs generalizing a new with
    | nil =>
      cases h
      exact .nil
    | cons job rest ih =>
      rw [lowerJobs] at h
      split at h
      · cases h
      rename_i r b hfirst
      split at h
      · cases h
      rename_i routines c hrest
      cases h
      exact .cons hfirst (ih hrest)
  · intro h
    induction h with
    | nil => rfl
    | cons hfirst _ ih =>
      rw [lowerJobs, hfirst]
      dsimp only
      rw [ih]

theorem addJobs_eq_ok_iff {jobs : Except LowerFailure (List Job)} :
    a.addJobs o jobs = (.ok (), a') ↔ ∃ js new b, jobs = .ok js ∧ Lowers o js a new b ∧
      a' = { b with routines := b.routines ++ new } := by
  simp only [← lowerJobs_eq_ok_iff]
  constructor
  · intro h
    cases jobs with
    | error e => cases h
    | ok js =>
      unfold addJobs at h
      dsimp only at h
      split at h
      · cases h
      · rename_i new b hjobs
        cases h
        exact ⟨js, new, b, rfl, hjobs, rfl⟩
  · rintro ⟨js, new, b, rfl, hjobs, rfl⟩
    unfold addJobs
    dsimp only
    rw [hjobs]

section

variable {s : AssemblySettings} {resources : ResourceMap} {block : Option BlockBinding}
  {jobs : List Job}

theorem fragmentJobs_eq_ok {f : Fragment} {kind : FunctionKind}
    (h : fragmentJobs s f resources kind block = .ok jobs) :
    jobs = [fragmentJob s f resources kind block] := by
  unfold fragmentJobs at h
  split at h <;> cases h
  rfl

theorem distributionJobs_eq_ok {d : Distribution}
    (h : distributionJobs s d resources block = .ok jobs) :
    ∃ root more, d.main.rootNodes = root :: more ∧ jobs = FunctionKind.distributionEntries.map
      (entryJob (s.distributionEnv d resources) d root block) := by
  unfold distributionJobs at h
  split at h <;> cases h
  exact ⟨_, _, ‹_›, rfl⟩

end

/-- Lowering jobs changes nothing but the data and the flags of the program. -/
theorem Lowers.frame {jobs : List Job} (h : Lowers o jobs a new a') :
    ∃ pool usage, a' = { a with pool, usage } := by
  induction h with
  | nil => exact ⟨_, _, rfl⟩
  | cons hfirst _ ih =>
    obtain ⟨result, t, -, -, rfl⟩ := lowerRoutine_eq_ok_iff.mp hfirst
    exact ih

end Assembly

/-! ## Items -/

/-- The fragments of an item. -/
def Compilable.fragments : Compilable → List Fragment
  | .function f _ => [f]
  | .distribution d => d.main :: d.aux

/-- What the lowering of an item depends on. -/
def Compilable.lowerEnv (item : Compilable) (s : AssemblySettings) (resources : ResourceMap) :
    LowerEnv :=
  match item with
  | .function f _ => s.lowerEnv f resources
  | .distribution d => s.distributionEnv d resources

@[simp] theorem Compilable.lowerEnv_options (item : Compilable) (s : AssemblySettings)
    (resources : ResourceMap) : (item.lowerEnv s resources).options = s.options := by
  cases item <;> rfl

@[simp] theorem Compilable.lowerEnv_rules (item : Compilable) (s : AssemblySettings)
    (resources : ResourceMap) : (item.lowerEnv s resources).rules = s.rules := by
  cases item <;> rfl

@[simp] theorem Compilable.lowerEnv_context (item : Compilable) (s : AssemblySettings)
    (resources : ResourceMap) : (item.lowerEnv s resources).context = item.main.context := by
  cases item <;> rfl

theorem Assembly.addDistribution_eq_ok_iff {a a' : Assembly} {s : AssemblySettings}
    {d : Distribution} {resources : ResourceMap} {block : Option BlockBinding} :
    a.addDistribution s d resources block = (.ok (), a') ↔ ∃ root more new b,
      d.main.rootNodes = root :: more ∧
      Lowers s.options (FunctionKind.distributionEntries.map
        (entryJob (s.distributionEnv d resources) d root block)) a new b ∧
      a' = { b with routines := b.routines ++ new } := by
  unfold addDistribution distributionJobs
  rw [addJobs_eq_ok_iff]
  cases d.main.rootNodes <;> simp

end Shading
