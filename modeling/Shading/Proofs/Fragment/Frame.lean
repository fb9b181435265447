import Shading.Proofs.Fragment.Parameters
import Shading.Session.Basic

/-!
# What building a fragment leaves alone

Arguments, calls and fields add nodes, parameters and results to a fragment.  Its context
and the bindings of its resources stay as they are, so a fragment that is built has the
kind of function that its request asks for.

Main definitions:

- `Fragment.SameFrame` says that two fragments agree in context and bindings.
- `Compilable.KindFits` says that a function is of the kind that its fragment becomes.

Main results:

- `Fragment.ofEnvironment_frame`, `Fragment.addField_frame` and `Compilable.addFields_frame`:
  what the steps of building leave alone.
- `UnitRequest.kindFits_of_build`: a request builds functions of the kind that fits them.
-/

namespace Shading

variable {name : String} {m : Material} {compileConstants : Bool} {f : Fragment}

namespace Fragment

/-- Two fragments that agree in their context and in the bindings of their resources. -/
structure SameFrame (f g : Fragment) : Prop where
  context : g.context = f.context
  resources : g.resources = f.resources

variable {f g h : Fragment}

theorem SameFrame.refl (f : Fragment) : f.SameFrame f :=
  ⟨rfl, rfl⟩

theorem SameFrame.trans (hfg : f.SameFrame g) (hgh : g.SameFrame h) : f.SameFrame h :=
  ⟨hgh.context.trans hfg.context, hgh.resources.trans hfg.resources⟩

theorem addArguments_frame (args : List EnvironmentArgument) (f : Fragment) :
    f.SameFrame (f.addArguments args).2 := by
  induction args generalizing f with
  | nil => exact .refl f
  | cons a rest ih =>
    have hargument : f.SameFrame (f.addArgument a).2 := by cases a <;> exact ⟨rfl, rfl⟩
    exact hargument.trans (ih (f.addArgument a).2)

theorem addCall_frame {args : List Nat} {type : ValueType} {id : Nat}
    (hcall : f.addCall name args type = .ok (id, g)) : f.SameFrame g := by
  unfold addCall at hcall
  split at hcall
  · cases hcall
  · cases hcall
    exact ⟨rfl, rfl⟩

/-- An environment function has one body. -/
theorem ofEnvironment_frame {call : EnvironmentCall} (hf : ofEnvironment call name = .ok f) :
    (Fragment.empty name .environment).SameFrame f ∧ ∃ body, f.roots = some (.single body) := by
  unfold ofEnvironment at hf
  split at hf
  · cases hf
  dsimp only at hf
  split at hf
  · cases hf
  rename_i body g hbody
  cases hf
  have hargs := addArguments_frame call.arguments (Fragment.empty name .environment)
  obtain ⟨⟨id, g₁⟩, hcall, hbody⟩ := exists_of_bind_eq_ok hbody
  have hg : g₁.SameFrame g := by
    dsimp only at hbody
    split at hbody
    · exact addCall_frame hbody
    · cases hbody
      exact .refl g
  have hframe := (hargs.trans (addCall_frame hcall)).trans hg
  exact ⟨⟨hframe.context, hframe.resources⟩, body, rfl⟩

/-- A field has one body and runs in the context of its path. -/
theorem ofField_frame {path : String} (hf : ofField m path name compileConstants = .ok f) :
    (Fragment.empty name (ExecutionContext.ofPath path)).SameFrame f ∧
      ∃ body, f.roots = some (.single body) := by
  unfold ofField at hf
  split at hf
  · cases hf
  split at hf
  · cases hf
  · cases hf
    exact ⟨⟨rfl, rfl⟩, _, rfl⟩

/-- A further field leaves a list of roots a list of roots. -/
theorem addField_frame (f : Fragment) (m : Material) (path : String) (compileConstants : Bool) :
    f.SameFrame (f.addField m path compileConstants).1 ∧
      ((∃ roots, f.roots = some (.multiRoot roots)) →
        ∃ roots, (f.addField m path compileConstants).1.roots = some (.multiRoot roots)) := by
  have hparameters : f.SameFrame (if f.parameters.isEmpty then
      { f with parameters := m.parameters } else f) := by
    split <;> exact ⟨rfl, rfl⟩
  have hroots : (if f.parameters.isEmpty then { f with parameters := m.parameters }
      else f).roots = f.roots := by
    split <;> rfl
  unfold addField
  split
  · exact ⟨.refl f, id⟩
  split
  · exact ⟨.refl f, id⟩
  dsimp only
  split
  · exact ⟨.refl f, id⟩
  split
  · exact ⟨⟨hparameters.context, hparameters.resources⟩,
      fun ⟨roots, h⟩ => ⟨roots, hroots.trans h⟩⟩
  split
  · exact ⟨⟨hparameters.context, hparameters.resources⟩,
      fun ⟨roots, h⟩ => ⟨roots, hroots.trans h⟩⟩
  · rename_i hroot
    unfold addRoot at hroot
    split at hroot
    · cases hroot
    · cases hroot
      exact ⟨⟨hparameters.context, hparameters.resources⟩, fun _ => ⟨_, rfl⟩⟩

end Fragment

namespace Compilable

theorem addFields_frame {paths : List String} {g : Fragment}
    (h : addFields m compileConstants f paths = .ok g) :
    f.SameFrame g ∧ ((∃ roots, f.roots = some (.multiRoot roots)) →
      ∃ roots, g.roots = some (.multiRoot roots)) := by
  induction paths generalizing f with
  | nil =>
    cases h
    exact ⟨.refl g, id⟩
  | cons path rest ih =>
    have hadd := f.addField_frame m path compileConstants
    unfold addFields at h
    split at h
    · cases h
    · rename_i next _ hnext
      rw [hnext] at hadd
      obtain ⟨hframe, hroots⟩ := ih h
      exact ⟨hadd.1.trans hframe, fun hf => hroots (hadd.2 hf)⟩

/-- A function is of the kind that its fragment becomes. -/
def KindFits : Compilable → Prop
  | .function f kind => kind = kindOf f
  | .distribution _ => True

theorem kindOf_multiRoot {roots : List Nat} (h : f.roots = some (.multiRoot roots)) :
    kindOf f = .switchLambda := by
  unfold kindOf
  rw [h]

theorem kindOf_single {body : Nat} (h : f.roots = some (.single body)) :
    kindOf f = if f.context = .environment then .environment else .lambda := by
  unfold kindOf
  rw [h]

/-- Fields of materials are no environment functions. -/
theorem kindOf_ofField {path : String} (h : Fragment.ofField m path name compileConstants = .ok f) :
    kindOf f = .lambda := by
  obtain ⟨hframe, body, hbody⟩ := Fragment.ofField_frame h
  have hcontext : f.context ≠ .environment := by
    rw [hframe.context]
    change ExecutionContext.ofPath path ≠ .environment
    unfold ExecutionContext.ofPath
    split <;> decide
  rw [kindOf_single hbody, if_neg hcontext]

end Compilable

namespace UnitRequest

/-- How a request builds an item. -/
inductive Builds (lib : Library) (o : Options) : UnitRequest → Compilable → Prop
  | environment {call : EnvironmentCall} {name : String} {f : Fragment}
      (hf : Fragment.ofEnvironment call name = .ok f) :
      Builds lib o (.environment call name) (.function f .environment)
  | field {m : Material} {path name : String} {f : Fragment}
      (hf : Fragment.ofField m path name o.compileConstants = .ok f) :
      Builds lib o (.field m path name) (.function f .lambda)
  | fields {m : Material} {first : String} {rest : List String} {name : String} {f : Fragment}
      (hf : Compilable.addFields m o.compileConstants
        (Fragment.empty name (ExecutionContext.ofPath first)).toSwitch (first :: rest) = .ok f) :
      Builds lib o (.fields m (first :: rest) name) (.function f .switchLambda)
  | distribution {m : Material} {path name : String} {d : Distribution}
      (hd : Distribution.ofMaterial m path name lib o.compileConstants = .ok d) :
      Builds lib o (.distribution m path name) (.distribution d)
  | fragment {f : Fragment} : Builds lib o (.fragment f) (.function f (Compilable.kindOf f))

variable {r : UnitRequest} {lib : Library} {o : Options} {item : Compilable}

theorem builds_of_build (h : r.build lib o = .ok item) : Builds lib o r item := by
  cases r with
  | environment call name =>
    obtain ⟨_, _, h⟩ := exists_of_bind_eq_ok h
    obtain ⟨f, hf, h⟩ := exists_of_bind_eq_ok h
    cases h
    exact .environment hf
  | field m path name =>
    obtain ⟨_, _, h⟩ := exists_of_bind_eq_ok h
    obtain ⟨f, hf, h⟩ := exists_of_bind_eq_ok h
    cases h
    exact .field hf
  | fields m paths name =>
    obtain ⟨_, _, h⟩ := exists_of_bind_eq_ok h
    cases paths with
    | nil => cases h
    | cons first rest =>
      obtain ⟨f, hf, h⟩ := exists_of_bind_eq_ok h
      cases h
      exact .fields hf
  | distribution m path name =>
    obtain ⟨_, _, h⟩ := exists_of_bind_eq_ok h
    obtain ⟨d, hd, h⟩ := exists_of_bind_eq_ok h
    cases h
    exact .distribution hd
  | fragment f =>
    obtain ⟨_, _, h⟩ := exists_of_bind_eq_ok h
    cases h
    exact .fragment

/-- A request builds functions of the kind that fits them. -/
theorem kindFits_of_build (h : r.build lib o = .ok item) : item.KindFits := by
  cases builds_of_build h with
  | environment hf =>
    obtain ⟨hframe, body, hbody⟩ := Fragment.ofEnvironment_frame hf
    exact ((Compilable.kindOf_single hbody).trans (if_pos hframe.context)).symm
  | field hf => exact (Compilable.kindOf_ofField hf).symm
  | fields hf =>
    obtain ⟨roots, hroots⟩ := (Compilable.addFields_frame hf).2 ⟨_, rfl⟩
    exact (Compilable.kindOf_multiRoot hroots).symm
  | distribution hd => trivial
  | fragment => exact rfl

end UnitRequest

end Shading
