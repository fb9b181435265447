import Shading.Proofs.Lowering.Assembly
import Shading.Proofs.Lowering.ReadOnly

/-!
# Read-only data over the life of a program

A program under construction only ever adds to its data, also when the lowering of a
function fails half way.  So what was read from the data once is read from it for ever.

Main definitions:

- `Assembly.Continues` relates a program under construction to its later states.

Main results:

- Theorem `Assembly.Continues.reaches`: later states hold the data of the earlier ones.
- Theorem `read_only_data_is_kept`: constants and strings are read back from every later
  state, and pieces of data do not overlap.
-/

namespace Shading

/-! ## Additions -/

namespace Assembly

variable {a : Assembly} {o : Options}

theorem lowerRoutine_reaches {r : Routine} {lower : LowerM RoutineResult}
    {P : LowerState → Instr → Prop} {Q : RoutineResult → LowerState → Prop}
    (hlower : Advances P lower ⟨a.pool, #[], .none⟩ Q) :
    a.pool.Reaches (a.lowerRoutine o r lower).2.pool := by
  have hreaches := hlower.steps.reaches
  unfold lowerRoutine
  generalize lower.run ⟨a.pool, #[], .none⟩ = outcome at hreaches ⊢
  obtain ⟨result, s'⟩ := outcome
  cases result <;> exact hreaches

theorem lowerJobs_reaches {env : LowerEnv} {Loads : Nat → Nat → ValueType → Prop}
    {block : Option Nat} {jobs : List Job} (hjobs : ∀ job ∈ jobs, job.Sound env Loads block) :
    a.pool.Reaches (lowerJobs o jobs a).2.pool := by
  induction jobs generalizing a with
  | nil => exact .refl
  | cons job rest ih =>
    have hfirst := lowerRoutine_reaches (o := o) (r := job.header)
      ((hjobs job List.mem_cons_self).within a.pool)
    rw [lowerJobs]
    generalize a.lowerRoutine o job.header job.code = first at hfirst ⊢
    rcases first with ⟨e | r, b⟩
    · exact hfirst
    · have hrest := ih (a := b) fun job hjob => hjobs job (List.mem_cons_of_mem _ hjob)
      dsimp only
      generalize lowerJobs o rest b = others at hrest ⊢
      rcases others with ⟨e | routines, c⟩ <;> exact hfirst.trans hrest

/-- An item adds to the data, whether or not it can be lowered. -/
theorem addJobs_reaches (item : Compilable) (s : AssemblySettings) (resources : ResourceMap)
    (block : Option BlockBinding) :
    a.pool.Reaches (a.addJobs o (item.jobs s resources block)).2.pool := by
  unfold addJobs
  split
  · exact .refl
  · rename_i jobs hjobs
    have hreaches := lowerJobs_reaches (o := o) (a := a)
      (Compilable.jobs_sound (fun f _ => supplied_source f.graph block) hjobs)
    generalize lowerJobs o jobs a = lowered at hreaches ⊢
    rcases lowered with ⟨e | routines, b⟩ <;> exact hreaches

/-- A later state of a program under construction: strings got ids, argument blocks were
declared, and functions were added or could not be added. -/
inductive Continues (a : Assembly) : Assembly → Prop
  | refl : a.Continues a
  | internAll {b : Assembly} (strings : List String) :
      a.Continues b → a.Continues (b.internAll strings)
  | declareArgBlock {b : Assembly} (parameters : List Parameter) (layout : Layout) :
      a.Continues b → a.Continues (b.declareArgBlock parameters layout).2
  | addFragment {b : Assembly} (s : AssemblySettings) (f : Fragment) (resources : ResourceMap)
      (kind : FunctionKind) (block : Option BlockBinding) :
      a.Continues b → a.Continues (b.addFragment s f resources kind block).2
  | addDistribution {b : Assembly} (s : AssemblySettings) (d : Distribution)
      (resources : ResourceMap) (block : Option BlockBinding) :
      a.Continues b → a.Continues (b.addDistribution s d resources block).2

/-- Later states hold the data of the earlier ones. -/
theorem Continues.reaches {b : Assembly} (h : a.Continues b) : a.pool.Reaches b.pool := by
  induction h with
  | refl => exact .refl
  | internAll strings _ ih => exact ih.trans (.internStrings _ strings)
  | declareArgBlock parameters layout _ ih => exact ih
  | addFragment s f resources kind block _ ih =>
    exact ih.trans (addJobs_reaches (.function f kind) s resources block)
  | addDistribution s d resources block _ ih =>
    exact ih.trans (addJobs_reaches (.distribution d) s resources block)

end Assembly

/-! ## Reading back -/

/-- Pieces of data that were placed one after the other, the second one possibly much
later: their places are aligned, equal pieces share one, and others do not overlap. -/
theorem DataPool.addBytes_places {p q : DataPool} (hp : p.Sound) (x y : Bytes)
    (hq : (p.addBytes x).2.Reaches q) :
    pieceAlign ∣ (p.addBytes x).1 ∧ pieceAlign ∣ (q.addBytes y).1 ∧
      (x = y → (p.addBytes x).1 = (q.addBytes y).1) ∧
      (x ≠ y → (p.addBytes x).1 + x.length ≤ (q.addBytes y).1 ∨
        (q.addBytes y).1 + y.length ≤ (p.addBytes x).1) := by
  have hsound := (hq.sound (hp.addBytes x)).addBytes y
  have hgrows := hq.grows.trans (addBytes_grows q y)
  have hx := mem_of_lookup (lookup_of_grows hgrows.pieces (lookup_addBytes p x))
  have hy := mem_of_lookup (lookup_addBytes q y)
  exact ⟨hsound.aligned hx, hsound.aligned hy, hsound.places hx hy⟩

section

variable {env : LowerEnv} {s s' : LowerState} {v : Value} {t : ValueType} {id : Nat}

theorem lowerConstant_reaches (hrun : (lowerConstant env v t).run s = (.ok id, s')) :
    s.pool.Reaches s'.pool := by
  have hsteps := (@lowerConstant_emits env (fun _ _ _ => True) v t s).steps
  rw [hrun] at hsteps
  exact hsteps.reaches

/-- What a read of a constant gives later on is the value that its parts have when they are
put together. -/
theorem readAt?_of_lowerConstant {V : Type} (I : Interpretation V) {p : DataPool} {offset : Nat}
    {type : ValueType} (hs : s.pool.Sound) (hrun : (lowerConstant env v t).run s = (.ok id, s'))
    (hload : s'.body[id]? = some ⟨type, .roLoad offset⟩) (hv : v.conformsTo t = true)
    (hnarrow : env.rules = .gpuStorage → t.narrow = true) (hp : s'.pool.Reaches p) :
    ∃ (root : Nat) (made : LowerState) (x : V),
      (lowerConstant env.inline v t).run ⟨p, #[], .none⟩ = (.ok root, made) ∧
        valueAt I made.body root = some x ∧ t.readAt? I env.rules p.bytes offset = some x := by
  obtain ⟨bytes, known, hbytes, hplace, hknown⟩ :=
    lowerConstant_placedAt v t s id s' hrun type offset hload
  obtain ⟨root, made, hmade⟩ := lowerConstant_succeeds env.inline v t hv ⟨p, #[], .none⟩
  have hgrows := hp.grows.trans (lowerConstant_reaches hmade).grows
  obtain ⟨x, hread, hvalue⟩ := readAt?_of_roBytes (I := I)
    ((lowerConstant_reaches hrun).sound hs) hp hbytes hplace (hknown.trans hgrows.strings) hv
    hnarrow
  have hyields := lowerConstant_yields (I := I) v t _ root made hmade made.pool
    (DataPool.Grows.refl _)
  exact ⟨root, made, x, hmade, hyields.2.2.trans hvalue, hread⟩

/-- The handle of a string leads to its bytes and a closing zero. -/
theorem read_of_lowerString {text : String} {p : DataPool} (hs : s.pool.Sound)
    (hmap : env.options.mapStringsToIds = false)
    (hrun : (lowerConstant env (.string text) t).run s = (.ok id, s')) (hp : s'.pool.Reaches p)
    (hlength : p.bytes.length < 2 ^ 32) :
    ∃ handle : Int32, s'.body[id]? = some ⟨.string, .int handle⟩ ∧
      p.bytes.read handle.toUInt32.toNat ((Bytes.ofText text).length + 1) =
        Bytes.ofText text ++ [0] := by
  have hsound := (lowerConstant_reaches hrun).sound hs
  rw [lowerConstant] at hrun
  obtain ⟨handle, hlast, hplace⟩ := lowerString_last hmap text s id s' hrun
  have hinside := hsound.inside (mem_of_lookup hplace)
  have hbytes := hp.bytes.length_le
  have hhandle : (Int32.ofNat handle).toUInt32.toNat = handle := by
    rw [← UInt32.toInt32_ofNat', UInt32.toUInt32_toInt32, UInt32.toNat_ofNat']
    exact Nat.mod_eq_of_lt (by omega)
  refine ⟨Int32.ofNat handle, hlast, ?_⟩
  rw [hhandle, ← hsound.read_of_lookup hp hplace, List.length_append]
  rfl

end

/-- Read-only data is never lost, moved or confused.  A program has come to a state `a`, a
literal is lowered on the way to a state `b`, and the program has come to a state `c`.  If the
literal was placed in the read-only data, then what is read there in state `c` is what the
literal gives when it is put together from its parts.  If it is a string without an id, its
handle leads to its bytes and a closing zero.  Pieces of data are placed at multiples of
sixteen, equal ones in one place and different ones apart. -/
theorem read_only_data_is_kept {o : Options} {a b c : Assembly} {env : LowerEnv}
    {s s' : LowerState} {v : Value} {t : ValueType} {id : Nat}
    (ha : (Assembly.empty o).Continues a) (hs : a.pool.Reaches s.pool)
    (hrun : (lowerConstant env v t).run s = (.ok id, s')) (hb : s'.pool.Reaches b.pool)
    (hc : b.Continues c) :
    (∀ type offset, s'.body[id]? = some ⟨type, .roLoad offset⟩ → v.conformsTo t = true →
      (env.rules = .gpuStorage → t.narrow = true) →
      ∀ {V : Type} (I : Interpretation V), ∃ (root : Nat) (made : LowerState) (x : V),
        (lowerConstant env.inline v t).run ⟨c.pool, #[], .none⟩ = (.ok root, made) ∧
          valueAt I made.body root = some x ∧
          t.readAt? I env.rules c.finish.roSegment offset = some x) ∧
    (∀ text, v = .string text → env.options.mapStringsToIds = false →
      c.finish.roSegment.length < 2 ^ 32 →
      ∃ handle : Int32, s'.body[id]? = some ⟨.string, .int handle⟩ ∧
        Bytes.read c.finish.roSegment handle.toUInt32.toNat ((Bytes.ofText text).length + 1) =
          Bytes.ofText text ++ [0]) ∧
    ∀ (p q : DataPool) (x y : Bytes), a.pool.Reaches p → (p.addBytes x).2.Reaches q →
      16 ∣ (p.addBytes x).1 ∧ 16 ∣ (q.addBytes y).1 ∧
        (x = y → (p.addBytes x).1 = (q.addBytes y).1) ∧
        (x ≠ y → (p.addBytes x).1 + x.length ≤ (q.addBytes y).1 ∨
          (q.addBytes y).1 + y.length ≤ (p.addBytes x).1) := by
  have hsound := ha.reaches.sound DataPool.empty_sound
  have hlater := hb.trans hc.reaches
  refine ⟨fun type offset hload hv hnarrow V I => ?_, fun text htext hmap hlength => ?_,
    fun p q x y hp hq => ?_⟩
  · exact readAt?_of_lowerConstant I (hs.sound hsound) hrun hload hv hnarrow hlater
  · subst htext
    exact read_of_lowerString (hs.sound hsound) hmap hrun hlater hlength
  · exact DataPool.addBytes_places (hp.sound hsound) x y hq

/-- A layer with a colour, a name and a texture. -/
def layerType : ValueType :=
  .struct "layer" [("tint", .vector .float 3), ("name", .string), ("map", .texture .flat)]

def layerValue : Value :=
  .struct [.vector [.float 1, .float 2, .float 4], .string "coat", .texture (some "coat.png") .flat]

/-- Storage buffers with ids for strings, and one texture. -/
def layerEnv : LowerEnv where
  options := { Options.default with mapStringsToIds := true }
  resolver := Library.empty
  useRoSegment := true
  rules := .gpuStorage
  resources := OrderedMap.empty.insert ⟨.texture, some "coat.png"⟩ ⟨1, .invalid .texture⟩
  context := .core
  uniform := none

/-- The layer is placed at the start of the data, and read back after further strings got
ids. -/
theorem read_only_data_is_kept_layer :
    ∃ s', (lowerConstant layerEnv layerValue layerType).run ⟨.empty, #[], .none⟩ = (.ok 0, s') ∧
      s'.body[0]? = some ⟨layerType.storage, .roLoad 0⟩ ∧
      ∀ {V : Type} (I : Interpretation V), ∃ (root : Nat) (made : LowerState) (x : V),
        (lowerConstant layerEnv.inline layerValue layerType).run
          ⟨{ s'.pool with strings := internStrings s'.pool.strings ["base", "coat"] }, #[], .none⟩ =
            (.ok root, made) ∧
          valueAt I made.body root = some x ∧
          layerType.readAt? I .gpuStorage s'.pool.bytes 0 = some x := by
  have hok : ((lowerConstant layerEnv layerValue layerType).run ⟨.empty, #[], .none⟩).1 =
      .ok 0 := by
    decide +kernel
  have hload : ((lowerConstant layerEnv layerValue layerType).run
      ⟨.empty, #[], .none⟩).2.body[0]? = some ⟨layerType.storage, .roLoad 0⟩ := by
    decide +kernel
  have hrun := Prod.ext hok rfl
  refine ⟨_, hrun, hload, fun {V} I => ?_⟩
  have hkept := @read_only_data_is_kept layerEnv.options (.empty layerEnv.options)
    { Assembly.empty layerEnv.options with
      pool := ((lowerConstant layerEnv layerValue layerType).run ⟨.empty, #[], .none⟩).2.pool }
    _ _ _ _ _ _ _ .refl .refl hrun .refl (.internAll ["base", "coat"] .refl)
  exact hkept.1 _ 0 hload (by decide) (fun _ => by decide) I

end Shading
