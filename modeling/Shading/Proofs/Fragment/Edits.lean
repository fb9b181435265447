import Shading.Proofs.Fragment.Switch

/-!
# Edits of a fragment

A fragment has a body or several roots.  Its results are edited by four calls, of which some may
fail.  A failed call leaves the fragment as it was: the only step that could fail late is the
copying of a field, and that succeeds for the fields of a checked material.

Main definitions:

- `Fragment.Edit` lists the calls, `Fragment.edit` makes one and `Fragment.edits` makes several.
- `Fragment.Edit.Effect` says what a call does to the results if it succeeds.
- `Fragment.Edited` says that a fragment is reached by such calls with one material.

Main results:

- Theorem `Fragment.edit_cases`: a call changes nothing or has its effect.
- Theorem `Fragment.root_forms_are_exclusive`: a body gives way to several roots in one way only,
  and roots are only appended.
-/

namespace Shading

namespace Fragment

/-- A call that edits the results of a fragment. -/
inductive Edit
  | body (node : Nat)
  | switch
  | root (node : Nat)
  | field (path : String) (compileConstants : Bool)

/-- Makes an edit.  If it adds a root, the answer is the index of the root. -/
def edit (m : Material) (f : Fragment) : Edit → Fragment × Except CompileError (Option Nat)
  | .body node =>
    match f.setBody node with
    | .error e => (f, .error e)
    | .ok g => (g, .ok none)
  | .switch => (f.toSwitch, .ok none)
  | .root node =>
    match f.addRoot node with
    | .error e => (f, .error e)
    | .ok (index, g) => (g, .ok (some index))
  | .field path compileConstants =>
    match f.addField m path compileConstants with
    | (g, .error e) => (g, .error e)
    | (g, .ok index) => (g, .ok (some index))

/-- The fragment after some edits, whether they fail or not. -/
def edits (m : Material) (f : Fragment) : List Edit → Fragment
  | [] => f
  | e :: rest => (f.edit m e).1.edits m rest

/-- The fragments that are reached by edits with the fields of a material. -/
inductive Edited (m : Material) : Fragment → Prop
  | empty (name : String) (context : ExecutionContext) : Edited m (.empty name context)
  | ofField {path name : String} {compileConstants : Bool} {f : Fragment}
      (built : ofField m path name compileConstants = .ok f) : Edited m f
  | edit {f : Fragment} (before : Edited m f) (e : Edit) : Edited m (f.edit m e).1

/-- What a successful edit does to the results, and its answer. -/
inductive Edit.Effect (f g : Fragment) : Edit → Option Nat → Prop
  | body {node : Nat} (before : ∀ roots, f.roots ≠ some (.multiRoot roots))
      (after : g.roots = some (.single node)) : Effect f g (.body node) none
  | switch (after : g.roots = some (.multiRoot f.rootNodes)) : Effect f g .switch none
  | root {node : Nat} (before : ∀ body, f.roots ≠ some (.single body))
      (after : g.roots = some (.multiRoot (f.rootNodes ++ [node]))) :
      Effect f g (.root node) (some f.rootNodes.length)
  | field {path : String} {compileConstants : Bool} {node : Nat}
      (before : ∀ body, f.roots ≠ some (.single body))
      (after : g.roots = some (.multiRoot (f.rootNodes ++ [node]))) :
      Effect f g (.field path compileConstants) (some f.rootNodes.length)

variable {m : Material} {f g : Fragment} {e : Edit}

/-! ## One edit -/

/-- What was copied into a fragment stands for what is in the material. -/
def CopiesFrom (m : Material) (f : Fragment) : Prop :=
  Graph.Copy.Consistent m.graph ⟨f.graph, f.copied⟩

/-- A body is set unless there are several roots. -/
theorem setBody_of_roots (h : ∀ roots, f.roots ≠ some (.multiRoot roots)) (node : Nat) :
    f.setBody node = .ok { f with roots := some (.single node) } := by
  unfold setBody
  split
  · rename_i hroots
    exact absurd hroots (h _)
  · rfl

/-- A root is appended unless there is a body. -/
theorem addRoot_of_roots (h : ∀ body, f.roots ≠ some (.single body)) (node : Nat) :
    f.addRoot node
      = .ok (f.rootNodes.length,
          { f with roots := some (.multiRoot (f.rootNodes ++ [node])) }) := by
  unfold addRoot
  split
  · rename_i hbody
    exact absurd hbody (h _)
  · rfl

/-- A field is refused before anything is changed, or it is copied and becomes a root. -/
theorem addField_cases (hm : m.graph.WellFormed) (h : f.CopiesFrom m) (path : String)
    (compileConstants : Bool) :
    (∃ error, f.addField m path compileConstants = (f, .error error)) ∨
      (∀ body, f.roots ≠ some (.single body)) ∧
        ∃ g node, f.addField m path compileConstants = (g, .ok f.rootNodes.length) ∧
          g.roots = some (.multiRoot (f.rootNodes ++ [node])) ∧ g.CopiesFrom m := by
  obtain ⟨parameters, hparameters⟩ : ∃ parameters, (if f.parameters.isEmpty then
      { f with parameters := m.parameters } else f) = { f with parameters } := by
    split
    · exact ⟨m.parameters, rfl⟩
    · exact ⟨f.parameters, rfl⟩
  unfold addField
  split
  · exact .inl ⟨_, rfl⟩
  rename_i hroots
  cases hfield : fieldNode m path compileConstants with
  | error error => exact .inl ⟨error, rfl⟩
  | ok id =>
    dsimp only
    split
    · exact .inl ⟨_, rfl⟩
    · obtain ⟨-, node, hnode, -⟩ := fieldNode_eq_ok_iff.mp hfield
      obtain ⟨c, copied, hrun, hc, -⟩ :=
        Graph.Copy.root_copies hm h (Graph.lt_size_of_node? hnode)
      rw [hparameters]
      dsimp only
      rw [hrun]
      dsimp only
      rw [addRoot_of_roots (by exact hroots)]
      exact .inr ⟨hroots, _, copied, rfl, rfl, hc⟩

/-- An edit fails and changes nothing, or it has its effect. -/
theorem edit_cases (hm : m.graph.WellFormed) (h : f.CopiesFrom m) (e : Edit) :
    (∃ error, f.edit m e = (f, .error error)) ∨
      ∃ g answer, f.edit m e = (g, .ok answer) ∧ e.Effect f g answer ∧ g.CopiesFrom m := by
  cases e with
  | body node =>
    by_cases hroots : ∃ roots, f.roots = some (.multiRoot roots)
    · obtain ⟨roots, hroots⟩ := hroots
      exact .inl ⟨.switchFormViolation f.name, by simp only [edit, setBody, hroots]⟩
    · push Not at hroots
      refine .inr ⟨{ f with roots := some (.single node) }, none, ?_, .body hroots rfl, h⟩
      rw [edit, setBody_of_roots hroots]
  | switch => exact .inr ⟨f.toSwitch, none, rfl, .switch rfl, h⟩
  | root node =>
    by_cases hroots : ∃ body, f.roots = some (.single body)
    · obtain ⟨body, hbody⟩ := hroots
      exact .inl ⟨.switchFormViolation f.name, by simp only [edit, addRoot, hbody]⟩
    · push Not at hroots
      refine .inr ⟨{ f with roots := some (.multiRoot (f.rootNodes ++ [node])) }, _, ?_,
        .root hroots rfl, h⟩
      rw [edit, addRoot_of_roots hroots]
  | field path compileConstants =>
    rcases addField_cases hm h path compileConstants with
      ⟨error, hadd⟩ | ⟨hroots, g, node, hadd, hg, hcopies⟩
    · exact .inl ⟨error, by rw [edit, hadd]⟩
    · exact .inr ⟨g, _, by rw [edit, hadd], .field hroots hg, hcopies⟩

/-! ## Any number of edits -/

theorem Edited.copiesFrom (hm : m.graph.WellFormed) (h : Edited m f) : f.CopiesFrom m := by
  induction h with
  | empty name context => exact (Graph.Copy.sound_empty m.graph).toConsistent
  | @ofField path name compileConstants f built =>
    unfold Fragment.ofField at built
    split at built
    · cases built
    · rename_i id hfield
      obtain ⟨-, node, hnode, -⟩ := fieldNode_eq_ok_iff.mp hfield
      obtain ⟨c, copied, hrun, hc, -⟩ := Graph.Copy.root_copies hm
        (Graph.Copy.sound_empty m.graph).toConsistent (Graph.lt_size_of_node? hnode)
      rw [hrun] at built
      cases built
      exact hc
  | @edit f before e ih =>
    rcases edit_cases hm ih e with ⟨error, hfail⟩ | ⟨g, answer, hedit, -, hg⟩
    · rwa [hfail]
    · rwa [hedit]

/-- Roots are only appended. -/
theorem edits_append (hm : m.graph.WellFormed) (h : f.CopiesFrom m) {roots : List Nat}
    (hroots : f.roots = some (.multiRoot roots)) (es : List Edit) :
    ∃ more, (f.edits m es).roots = some (.multiRoot (roots ++ more)) := by
  induction es generalizing f roots with
  | nil => exact ⟨[], by rw [List.append_nil]; exact hroots⟩
  | cons e rest ih =>
    have hnodes : f.rootNodes = roots := by simp only [rootNodes, hroots]
    rw [edits]
    rcases edit_cases hm h e with ⟨error, hfail⟩ | ⟨g, answer, hedit, heffect, hg⟩
    · rw [hfail]
      exact ih h hroots
    · rw [hedit]
      cases heffect with
      | body before after => exact absurd hroots (before roots)
      | switch after => exact ih hg (hnodes ▸ after)
      | root before after | field before after =>
        obtain ⟨more, hmore⟩ := ih hg (hnodes ▸ after)
        exact ⟨_, by rw [hmore, List.append_assoc]⟩

/-- The two forms of results exclude each other, and failed edits change nothing.  A body gives
way to several roots only by the turn to a switch, which keeps it as the first root; several
roots stay so, and further ones are appended; the answer to a root that is added is its index. -/
theorem root_forms_are_exclusive (hm : m.check = .ok ()) (h : Edited m f) (e : Edit)
    (es : List Edit) :
    (∀ error, (f.edit m e).2 = .error error → (f.edit m e).1 = f) ∧
    (∀ answer, (f.edit m e).2 = .ok answer → e.Effect f (f.edit m e).1 answer) ∧
    (∀ body roots, f.roots = some (.single body) →
      (f.edit m e).1.roots = some (.multiRoot roots) → e = .switch ∧ roots = [body]) ∧
    (∀ roots, f.roots = some (.multiRoot roots) →
      ∃ more, (f.edits m es).roots = some (.multiRoot (roots ++ more))) := by
  have hgraph := Material.graph_wellFormed_of_check hm
  have hcopies := h.copiesFrom hgraph
  refine ⟨?_, ?_, ?_, fun roots hroots => edits_append hgraph hcopies hroots es⟩
  all_goals rcases edit_cases hgraph hcopies e with
    ⟨error, hfail⟩ | ⟨g, answer, hedit, heffect, -⟩
  · intro _ _
    rw [hfail]
  · intro error herror
    rw [hedit] at herror
    cases herror
  · intro answer hanswer
    rw [hfail] at hanswer
    cases hanswer
  · intro answer' hanswer
    rw [hedit] at hanswer ⊢
    cases hanswer
    exact heffect
  · intro body roots hbody hroots
    rw [hfail] at hroots
    cases hbody.symm.trans hroots
  · intro body roots hbody hroots
    rw [hedit] at hroots
    cases heffect with
    | body before after => cases after.symm.trans hroots
    | switch after =>
      have hnodes : f.rootNodes = [body] := by simp only [rootNodes, hbody]
      cases (hnodes ▸ after).symm.trans hroots
      exact ⟨rfl, rfl⟩
    | root before after | field before after => exact absurd hbody (before body)

/-- A field as the body takes no second field; turned into a switch, it takes one and no body. -/
theorem root_forms_are_exclusive_glaze :
    ∃ f, ofField glaze "sheen" "pick" false = .ok f ∧
      (f.edit glaze (.field "tint" false)).1 = f ∧
      ∃ more, ((f.edit glaze .switch).1.edits glaze
        [.body 0, .field "gloss" true, .field "tint" false]).roots
          = some (.multiRoot ([1] ++ more)) := by
  have hcheck : glaze.check = .ok () := by
    cbv
  have hbuilt : (ofField glaze "sheen" "pick" false).map (fun f => (f.roots,
      (f.edit glaze (.field "tint" false)).2.toOption)) = .ok (some (.single 1), none) := by
    cbv
  cases hf : ofField glaze "sheen" "pick" false with
  | error error =>
    rw [hf] at hbuilt
    cases hbuilt
  | ok f =>
    rw [hf] at hbuilt
    obtain ⟨hroots, hanswer⟩ := Prod.mk.inj (Except.ok.inj hbuilt)
    have hfield := root_forms_are_exclusive hcheck (.ofField hf) (.field "tint" false) []
    have hswitch := root_forms_are_exclusive hcheck (.edit (.ofField hf) .switch) .switch
      [.body 0, .field "gloss" true, .field "tint" false]
    refine ⟨f, rfl, ?_, hswitch.2.2.2 [1] ?_⟩
    · cases herror : (f.edit glaze (.field "tint" false)).2 with
      | error error => exact hfield.1 error herror
      | ok index =>
        rw [herror] at hanswer
        cases hanswer
    · simp only [edit, toSwitch, rootNodes, hroots]

end Fragment

end Shading
