import Mathlib
import Shading.Proofs.Shader.Conditions

/-!
# Names at module scope

A shader declares the shading state, the structures that were named, its buffers and one
function for each routine.  All but the functions have names of their own: structures are
marked and numbered apart, and buffers begin with other letters.  The names of functions
are those of the routines, which are not compared with the rest.

Main definitions:

- `Declaration` is a declaration at module scope, `Declaration.Opens` says that a text makes it.
- `Program.declarations` lists what a program declares.
- `ShaderNames.Declared` says that structures have names of their own.

Main results:

- Theorem `shader_declares_distinct_names`: a shader is made of its declarations, and a name is
  declared twice exactly if a routine is called like something else.
-/

namespace Shading

open List

/-- A declaration at module scope. -/
inductive Declaration
  | struct (name : String)
  | buffer (group binding : Nat) (name : String)
  | function (name : String)
  deriving DecidableEq

namespace Declaration

/-- The name that is declared. -/
def name : Declaration → String
  | .struct name | .buffer _ _ name | .function name => name

/-- The text of a declaration from its first word on, as far as its kind and name decide it. -/
def head : Declaration → String
  | .struct name => s!"struct {name} \x7b\n"
  | .buffer group binding name =>
    s!"@group({group}) @binding({binding}) var<storage, read> {name}: array<u32>;\n"
  | .function name => s!"fn {name}("

/-- A text makes a declaration: it begins with the head, after empty lines and comments. -/
inductive Opens (d : Declaration) : String → Prop
  | head (rest : String) : d.Opens (d.head ++ rest)
  | emptyLine {text : String} (h : d.Opens text) : d.Opens ("\n" ++ text)
  | comment {note text : String} (hline : '\n' ∉ note.toList) (h : d.Opens text) :
    d.Opens ("// " ++ note ++ "\n" ++ text)

theorem opens_of_eq {d : Declaration} {head : String} (h : head = d.head) (rest : String) :
    d.Opens (head ++ rest) := by
  rw [h]
  exact .head rest

theorem opens_head (d : Declaration) : d.Opens d.head := by
  have h := Opens.head (d := d) ""
  rwa [String.append_empty] at h

theorem opens_function (name rest : String) :
    (function name).Opens ("fn " ++ (name ++ ("(" ++ rest))) := by
  rw [← String.append_assoc, ← String.append_assoc]
  exact .head rest

end Declaration

variable (base : String)

/-! ## Structures -/

theorem numberedName_succ (k : Nat) :
    numberedName base (k + 1) = base ++ ("_" ++ (k + 1).repr) := by
  rw [← String.append_assoc]
  rfl

theorem numberedName_ne (k : Nat) : numberedName base (k + 1) ≠ base := by
  intro h
  have hlength := congrArg String.length h
  simp [numberedName_succ] at hlength

theorem numberedName_injective : Function.Injective (numberedName base) := by
  intro j k h
  cases j with
  | zero =>
    cases k with
    | zero => rfl
    | succ k => exact absurd h.symm (numberedName_ne base k)
  | succ j =>
    cases k with
    | zero => exact absurd h (numberedName_ne base j)
    | succ k =>
      rw [numberedName_succ, numberedName_succ, String.append_right_inj,
        String.append_right_inj] at h
      exact Nat.repr_inj.mp h

theorem numberedName_eq_append (k : Nat) : ∃ rest, numberedName base k = base ++ rest := by
  cases k with
  | zero => exact ⟨"", String.append_empty.symm⟩
  | succ k => exact ⟨_, numberedName_succ base k⟩

/-- The name that is found is not in use, and it is the first such of the numbered names. -/
theorem freshName_spec (used : List String) :
    freshName base used ∉ used ∧ ∃ k ≤ used.length, freshName base used = numberedName base k ∧
      ∀ j < k, numberedName base j ∈ used := by
  -- One more name is tried than there are names in use, and all of them differ.
  have hfree : ∃ name ∈ (List.range (used.length + 1)).map (numberedName base),
      (!used.contains name) = true := by
    by_contra! hused
    have hsubset : (List.range (used.length + 1)).map (numberedName base) ⊆ used := by
      intro name hname
      simpa using hused name hname
    have hlength := (nodup_range.map (numberedName_injective base)).length_le_of_subset hsubset
    simp at hlength
  rcases Option.isSome_iff_exists.mp (find?_isSome.mpr hfree) with ⟨name, hname⟩
  have hfresh : freshName base used = name := by
    simp only [freshName, hname, Option.getD_some]
  rcases find?_eq_some_iff_getElem.mp hname with ⟨hnew, k, hk, hget, hearlier⟩
  simp at hnew hk hget hearlier
  rw [hfresh]
  exact ⟨hnew, k, hk, hget.symm, hearlier⟩

/-- Structures can be expressed, have names of their own, which are marked, and are defined by
these names. -/
structure ShaderNames.Declared (names : ShaderNames) : Prop where
  expressible : names.Expressible
  distinct : (names.structs.map (·.name)).Nodup
  marked : ∀ s ∈ names.structs, ∃ rest, s.name = "S_" ++ rest
  opens : ∀ s ∈ names.structs, (Declaration.struct s.name).Opens s.definition

namespace ShaderNames

theorem declared_empty : ShaderNames.empty.Declared :=
  ⟨by simp [empty, Expressible], nodup_nil, by simp [empty], by simp [empty]⟩

theorem declared_stable : Stable Declared := by
  refine ⟨Declared.expressible, ?_, ?_⟩
  · intro type name members htype names fresh later h hnames
    cases h
    rcases freshName_spec ("S_" ++ sanitize name) (names.structs.map (·.name))
      with ⟨hfresh, k, -, hk, -⟩
    rcases numberedName_eq_append ("S_" ++ sanitize name) k with ⟨rest, hrest⟩
    refine ⟨⟨hnames.expressible.define htype, ?_, ?_, ?_⟩, trivial⟩
    · rw [map_append, map_singleton, ← concat_eq_append]
      exact hnames.distinct.concat hfresh
    · intro s hs
      rcases mem_append.mp hs with hs | hs
      · exact hnames.marked s hs
      · rw [mem_singleton.mp hs, hk, hrest, String.append_assoc]
        exact ⟨_, rfl⟩
    · intro s hs
      rcases mem_append.mp hs with hs | hs
      · exact hnames.opens s hs
      · rw [mem_singleton.mp hs, String.append_assoc]
        exact .head _
  · intro names stub hnames
    exact ⟨hnames.expressible, hnames.distinct, hnames.marked, hnames.opens⟩

end ShaderNames

/-! ## Functions -/

/-- The text of a routine declares a function of its name. -/
theorem Routine.shader_opens {r : Routine} {names later : ShaderNames} {prototype text : String}
    (h : r.shader.run names = .ok ((prototype, text), later)) :
    (Declaration.function r.name).Opens text := by
  have hname := isIdentifier_of_shader h
  unfold Routine.shader at h
  simp only [hname, Bool.not_true, Bool.false_eq_true, if_false] at h
  split at h
  · rcases ShaderM.run_bind_eq_ok h with ⟨cases, mid, -, h⟩
    cases h
    simp only [switchText, switchPrototype, String.append_assoc]
    exact Declaration.opens_function _ _
  · rcases ShaderM.run_bind_eq_ok h with ⟨body, mid, -, h⟩
    cases h
    simp only [functionText, String.append_assoc]
    exact Declaration.opens_function _ _
  · split at h
    · cases h
    · rcases ShaderM.run_bind_eq_ok h with ⟨t, mid, -, h⟩
      rcases ShaderM.run_bind_eq_ok h with ⟨body, last, -, h⟩
      cases h
      simp only [functionText, String.append_assoc]
      exact Declaration.opens_function _ _

theorem routineShaders_open {routines : List Routine} {names later : ShaderNames}
    {prototypes : List String} {text : String}
    (h : (routineShaders routines).run names = .ok ((prototypes, text), later)) :
    ∃ parts, text = String.join parts ∧
      Forall₂ Declaration.Opens (routines.map fun r => .function r.name) parts := by
  induction routines generalizing names prototypes text with
  | nil =>
    cases h
    exact ⟨[], rfl, .nil⟩
  | cons r rest ih =>
    rcases ShaderM.run_bind_eq_ok h with ⟨⟨prototype, first⟩, mid, hfirst, h⟩
    rcases ShaderM.run_bind_eq_ok h with ⟨⟨others, texts⟩, last, hrest, h⟩
    cases h
    rcases ih hrest with ⟨parts, rfl, hparts⟩
    refine ⟨("\n" ++ first) :: parts, String.join_cons.symm, ?_⟩
    exact .cons (.emptyLine (r.shader_opens hfirst)) hparts

/-! ## Buffers -/

theorem linesText_append (first second : List String) :
    linesText (first ++ second) = linesText first ++ linesText second := by
  simp [linesText]

theorem newline_not_mem_commaText {items : List String}
    (h : ∀ item ∈ items, '\n' ∉ item.toList) : '\n' ∉ (commaText items).toList := by
  unfold commaText
  induction items with
  | nil => simp
  | cons item items ih =>
    cases items with
    | nil => simpa using h
    | cons next items =>
      have hrest := ih fun item hitem => h item (mem_cons_of_mem _ hitem)
      rw [String.intercalate_cons_cons, String.toList_append, String.toList_append]
      simp only [mem_append, not_or]
      exact ⟨⟨h item mem_cons_self, by decide⟩, hrest⟩

theorem newline_not_mem_repr (n : Nat) : '\n' ∉ n.repr.toList := by
  rw [Nat.toList_repr]
  intro h
  have hdigit := Nat.isDigit_of_mem_toDigits (by decide) (by decide) h
  simp at hdigit

namespace Program

variable (p : Program)

/-- The buffer of an argument block. -/
def blockBuffer (k : Nat) : Declaration :=
  .buffer 1 k s!"arg_block_{k}"

/-- What the comment on an argument block says. -/
def blockNote (b : ArgBlock × Nat) : String :=
  s!"arg block {b.2}: " ++ commaText b.1.names

/-- The text of an argument block. -/
def blockText (b : ArgBlock × Nat) : String :=
  "// " ++ blockNote b ++ "\n" ++ (blockBuffer b.2).head

/-- The buffers of a program. -/
def buffers (p : Program) : List Declaration :=
  (if p.roSegment.isEmpty then [] else [.buffer 0 0 "ro_data"])
    ++ p.argBlocks.zipIdx.map fun b => blockBuffer b.2

/-- The texts of the buffers, one for each. -/
def bufferTexts (p : Program) : List String :=
  (if p.roSegment.isEmpty then [] else [(Declaration.buffer 0 0 "ro_data").head])
    ++ p.argBlocks.zipIdx.map blockText

theorem linesText_block (b : ArgBlock × Nat) :
    linesText [s!"// arg block {b.2}: " ++ commaText b.1.names,
      s!"@group(1) @binding({b.2}) var<storage, read> arg_block_{b.2}: array<u32>;"] =
        blockText b := by
  rw [← String.toList_inj]
  simp [linesText, toString, blockText, blockNote, blockBuffer, Declaration.head]
  rfl

theorem linesText_bufferLines : linesText p.bufferLines = String.join p.bufferTexts := by
  have hblocks (blocks : List (ArgBlock × Nat)) :
      linesText (blocks.flatMap fun b => [s!"// arg block {b.2}: " ++ commaText b.1.names,
        s!"@group(1) @binding({b.2}) var<storage, read> arg_block_{b.2}: array<u32>;"]) =
          String.join (blocks.map blockText) := by
    induction blocks with
    | nil => rfl
    | cons b blocks ih =>
      rw [flatMap_cons, linesText_append, linesText_block, ih, map_cons,
        String.join_cons]
  rw [bufferLines, bufferTexts, linesText_append, hblocks, String.join_append]
  split
  · rfl
  · rfl

/-- The names of arguments have no line breaks, so a comment can list them. -/
def ArgumentsOnLines (p : Program) : Prop :=
  ∀ b ∈ p.argBlocks, ∀ name ∈ b.names, '\n' ∉ name.toList

theorem newline_not_mem_blockNote {b : ArgBlock × Nat}
    (h : ∀ name ∈ b.1.names, '\n' ∉ name.toList) : '\n' ∉ (blockNote b).toList := by
  have hindex : '\n' ∉ (toString b.2).toList := newline_not_mem_repr b.2
  have hnames := newline_not_mem_commaText h
  simp only [blockNote, String.toList_append, mem_append, not_or]
  exact ⟨⟨⟨by decide, hindex⟩, by decide⟩, hnames⟩

theorem bufferTexts_open {p : Program} (h : p.ArgumentsOnLines) :
    Forall₂ Declaration.Opens p.buffers p.bufferTexts := by
  have hdata : Forall₂ Declaration.Opens
      (if p.roSegment.isEmpty then [] else [.buffer 0 0 "ro_data"])
      (if p.roSegment.isEmpty then [] else [(Declaration.buffer 0 0 "ro_data").head]) := by
    split
    · exact .nil
    · exact .cons (Declaration.opens_head _) .nil
  apply rel_append hdata
  rw [forall₂_map_left_iff, forall₂_map_right_iff, forall₂_same]
  intro b hb
  have hnote := newline_not_mem_blockNote (h b.1 (fst_mem_of_mem_zipIdx hb))
  exact .comment hnote (Declaration.opens_head _)

theorem map_name_buffers :
    p.buffers.map Declaration.name =
      (if p.roSegment.isEmpty then [] else ["ro_data"])
        ++ (List.range p.argBlocks.length).map fun k => s!"arg_block_{k}" := by
  have hindices : p.argBlocks.zipIdx.map Prod.snd = List.range p.argBlocks.length := by
    rw [zipIdx_map_snd, range_eq_range']
  rw [buffers, map_append, ← hindices, map_map, map_map]
  split
  · rfl
  · rfl

theorem blockName_injective : Function.Injective fun k : Nat => s!"arg_block_{k}" := by
  intro j k h
  exact Nat.repr_inj.mp ((String.append_right_inj _).mp h)

theorem buffers_distinct : (p.buffers.map Declaration.name).Nodup := by
  rw [map_name_buffers, nodup_append]
  refine ⟨?_, nodup_range.map blockName_injective, ?_⟩
  · split <;> simp
  · intro name hname other hother heq
    rcases mem_map.mp hother with ⟨k, -, rfl⟩
    split at hname
    · cases hname
    · rw [mem_singleton.mp hname, ← String.toList_inj] at heq
      simp [toString] at heq

/-- The name of a buffer does not begin like that of a structure. -/
theorem head?_of_mem_buffers {p : Program} {name : String}
    (h : name ∈ p.buffers.map Declaration.name) : name.toList.head? ≠ some 'S' := by
  rw [map_name_buffers, mem_append] at h
  rcases h with h | h
  · split at h
    · cases h
    · rw [mem_singleton.mp h]
      decide
  · rcases mem_map.mp h with ⟨k, -, rfl⟩
    simp [toString]

/-! ## Programs -/

/-- What a program declares besides its functions. -/
def globals (p : Program) (names : ShaderNames) : List Declaration :=
  .struct "ShadingState" :: names.structs.map (fun s => .struct s.name) ++ p.buffers

/-- What a program declares, in the order of the text. -/
def declarations (p : Program) (names : ShaderNames) : List Declaration :=
  p.globals names ++ p.routines.map fun r => .function r.name

variable {p : Program} {names : ShaderNames}

theorem map_name_globals (names : ShaderNames) :
    (p.globals names).map Declaration.name =
      "ShadingState" :: names.structs.map (·.name) ++ p.buffers.map Declaration.name := by
  simp [globals, Declaration.name]

theorem map_name_declarations (names : ShaderNames) :
    (p.declarations names).map Declaration.name =
      (p.globals names).map Declaration.name ++ p.routines.map Routine.name := by
  simp [declarations, Declaration.name]

/-- Whatever a program declares besides its functions has a name of its own. -/
theorem globals_distinct (h : names.Declared) : ((p.globals names).map Declaration.name).Nodup := by
  have hmarked (name : String) (hname : name ∈ names.structs.map (·.name)) :
      ∃ rest, name = "S_" ++ rest := by
    rcases mem_map.mp hname with ⟨s, hs, rfl⟩
    exact h.marked s hs
  rw [map_name_globals, nodup_append, nodup_cons]
  refine ⟨⟨?_, h.distinct⟩, p.buffers_distinct, ?_⟩
  · intro hstate
    rcases hmarked _ hstate with ⟨rest, hrest⟩
    rw [← String.toList_inj] at hrest
    simp at hrest
  · intro name hname other hother heq
    apply head?_of_mem_buffers hother
    rw [← heq]
    rcases mem_cons.mp hname with rfl | hname
    · decide
    · rcases hmarked name hname with ⟨rest, rfl⟩
      simp

theorem declarations_distinct_iff (hroutines : (p.routines.map Routine.name).Nodup)
    (h : names.Declared) :
    ((p.declarations names).map Declaration.name).Nodup ↔
      ∀ r ∈ p.routines, r.name ∉ (p.globals names).map Declaration.name := by
  rw [map_name_declarations, nodup_append]
  constructor
  · intro hdistinct r hr hmem
    exact hdistinct.2.2 r.name hmem r.name (mem_map_of_mem hr) rfl
  · intro hother
    refine ⟨p.globals_distinct h, hroutines, ?_⟩
    intro name hname other hmem heq
    rcases mem_map.mp hmem with ⟨r, hr, rfl⟩
    exact hother r hr (heq ▸ hname)

theorem stateStruct_opens : (Declaration.struct "ShadingState").Opens (p.stateStruct ++ "\n") := by
  have hhead : "struct ShadingState \x7b\n" = (Declaration.struct "ShadingState").head := by
    rw [Declaration.head]
    decide
  unfold stateStruct
  simp only [String.append_assoc]
  exact Declaration.opens_of_eq hhead _

/-- The text of a program behind its first line, one part for each declaration. -/
def parts (p : Program) (names : ShaderNames) (functions : List String) : List String :=
  (p.stateStruct ++ "\n") :: names.structs.map (·.definition) ++ p.bufferTexts ++ functions

theorem parts_open {functions : List String} (h : names.Declared) (hlines : p.ArgumentsOnLines)
    (hfunctions :
      Forall₂ Declaration.Opens (p.routines.map fun r => .function r.name) functions) :
    Forall₂ Declaration.Opens (p.declarations names) (p.parts names functions) := by
  have hstructs : Forall₂ Declaration.Opens (names.structs.map fun s => .struct s.name)
      (names.structs.map (·.definition)) := by
    rw [forall₂_map_left_iff, forall₂_map_right_iff, forall₂_same]
    exact h.opens
  have hglobals := rel_append (.cons p.stateStruct_opens hstructs) (bufferTexts_open hlines)
  exact rel_append hglobals hfunctions

/-- How the text of a program is put together. -/
theorem source_of_shader {m : ShaderModule} (h : p.shader = .ok m) :
    ∃ prototypes functions names,
      (routineShaders p.routines).run .empty = .ok ((prototypes, String.join functions), names) ∧
      Forall₂ Declaration.Opens (p.routines.map fun r => .function r.name) functions ∧
      m.source =
        "// generated by node-forge-codegen\n\n" ++ String.join (p.parts names functions) := by
  unfold Program.shader at h
  cases hrun : (routineShaders p.routines).run .empty with
  | error e =>
    rw [hrun] at h
    cases h
  | ok out =>
    rw [hrun] at h
    cases h
    rcases out with ⟨⟨prototypes, text⟩, names⟩
    rcases routineShaders_open hrun with ⟨functions, rfl, hfunctions⟩
    refine ⟨prototypes, functions, names, rfl, hfunctions, ?_⟩
    simp [parts, linesText_bufferLines, String.append_assoc]

end Program

/-- The names at module scope of a shader whose routines have different names.

- The text is a first line and one part for each declaration, in order.  This reads the names
  of arguments as parts of comments, so they must not contain line breaks.
- All but the functions have different names.
- All names are different if and only if no routine is called like something else.
- The names of structures are marked.  So a routine does not have the name of a structure,
  unless its name has the mark, too. -/
theorem shader_declares_distinct_names {p : Program} {m : ShaderModule}
    (hroutines : (p.routines.map Routine.name).Nodup) (hm : p.shader = .ok m) :
    ∃ written names parts,
      (routineShaders p.routines).run .empty = .ok (written, names) ∧
      m.source = "// generated by node-forge-codegen\n\n" ++ String.join parts ∧
      (p.ArgumentsOnLines → Forall₂ Declaration.Opens (p.declarations names) parts) ∧
      ((p.globals names).map Declaration.name).Nodup ∧
      (((p.declarations names).map Declaration.name).Nodup ↔
        ∀ r ∈ p.routines, r.name ∉ (p.globals names).map Declaration.name) ∧
      ∀ s ∈ names.structs, ∃ rest, s.name = "S_" ++ rest := by
  rcases Program.source_of_shader hm with
    ⟨prototypes, functions, names, hrun, hfunctions, hsource⟩
  have hdeclared : names.Declared :=
    (routineShaders_keeps ShaderNames.declared_stable p.routines hrun
      ShaderNames.declared_empty).1
  refine ⟨_, names, p.parts names functions, hrun, hsource, ?_, p.globals_distinct hdeclared,
    Program.declarations_distinct_iff hroutines hdeclared, hdeclared.marked⟩
  intro hlines
  exact Program.parts_open hdeclared hlines hfunctions

/-- A program with a structure in its read-only data and an argument block. -/
def layered : Program :=
  { Program.empty 0 0 with
    routines := [{ Routine.empty "layer" .lambda .core with
      body := #[⟨.struct "layer" [("weight", .float)], .roLoad 0⟩, ⟨.float, .extract 0 0⟩]
      results := [1] }]
    roSegment := [0, 0, 128, 63]
    argBlocks := [⟨["tint"], [.color]⟩] }

theorem shader_declares_distinct_names_layered :
    ∃ m names, layered.shader = .ok m ∧ names.structs.map (·.name) = ["S_layer"] ∧
      ((layered.declarations names).map Declaration.name).Nodup := by
  have hm : ∃ m, layered.shader = .ok m := ⟨_, rfl⟩
  have hstructs : ∃ written names, (routineShaders layered.routines).run .empty =
      .ok (written, names) ∧ names.structs.map (·.name) = ["S_layer"] := ⟨_, _, rfl, by decide⟩
  rcases hm with ⟨m, hm⟩
  rcases hstructs with ⟨written, names, hrun, hstructs⟩
  rcases shader_declares_distinct_names (by decide) hm with
    ⟨written', names', parts, hrun', -, -, -, hdistinct, -⟩
  cases hrun.symm.trans hrun'
  refine ⟨m, names, hm, hstructs, hdistinct.mpr ?_⟩
  rw [Program.map_name_globals, hstructs]
  decide

/-- A routine that is called like the shading state. -/
def stateNamesake : Program :=
  { Program.empty 0 0 with
    routines := [{ Routine.empty "ShadingState" .lambda .core with
      body := #[⟨.float, .float 1⟩]
      results := [0] }] }

/-- The name is an identifier, so the shader is written, and the name is declared twice. -/
theorem stateNamesake_declares_name_twice :
    (stateNamesake.routines.map Routine.name).Nodup ∧ (∃ m, stateNamesake.shader = .ok m) ∧
      ∀ names, ¬ ((stateNamesake.declarations names).map Declaration.name).Nodup := by
  refine ⟨by decide, ⟨_, rfl⟩, ?_⟩
  intro names hdistinct
  rw [Program.map_name_declarations, nodup_append] at hdistinct
  have hstate : "ShadingState" ∈ (stateNamesake.globals names).map Declaration.name := by
    simp [Program.map_name_globals]
  exact hdistinct.2.2 "ShadingState" hstate "ShadingState" (by decide) rfl

end Shading
