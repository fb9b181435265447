import Shading.Proofs.Lowering.Expression

/-!
# Lowering a second time

Two runs that lower the same nodes may differ in the instructions that are there before and
in the instructions of arguments.  They ask for the same data all the same: a second run
from the same data adds what the first one added, and a second run with all of that data
there adds nothing.

Main definitions:

- `Pass` tells the two ways in which a second run can start.
- `Repeats` says that a computation does for the data what another one did.
- `AddsNoData` is said of a computation that succeeds and leaves the data as it is.

Main results:

- Theorem `Repeats.bind`: computations one after the other.
- Theorem `lowerConstant_repeats`: literals.
- Theorem `lowerGraph_repeats`: graphs, with calls of fragments nested to any depth.
- Theorem `lowerBsdf_repeats`: distributions.
-/

namespace Shading

open List

/-! ## Data that is there -/

/-- A string that has an id gets it again. -/
theorem internString_of_grows {table longer : List String} {s : String}
    (h : (internString table s).2 <+: longer) :
    internString longer s = ((internString table s).1, longer) := by
  have hid := stringId?_of_grows h (stringId?_internString table s)
  cases longer with
  | nil => cases hid
  | cons first rest =>
    unfold internString
    simp only [isEmpty_cons, Bool.false_eq_true, if_false, hid]
    rfl

theorem internStrings_of_grows {table longer strings : List String}
    (h : internStrings table strings <+: longer) : internStrings longer strings = longer := by
  induction strings generalizing table with
  | nil => rfl
  | cons s strings ih =>
    have hs := internString_of_grows ((internStrings_grows _ strings).trans h)
    change internStrings (internString longer s).2 strings = longer
    rw [hs]
    exact ih h

theorem DataPool.intern_of_grows {p q : DataPool} {s : String} (h : (p.intern s).2.Grows q) :
    q.intern s = ((p.intern s).1, q) := by
  unfold DataPool.intern at h ⊢
  rw [internString_of_grows h.strings]

theorem DataPool.addBytes_of_grows {p q : DataPool} {piece : Bytes}
    (h : (p.addBytes piece).2.Grows q) : q.addBytes piece = ((p.addBytes piece).1, q) := by
  have hfound := lookup_of_grows h.pieces (p.lookup_addBytes piece)
  rw [DataPool.addBytes, hfound]

/-- The strings of a constant that are known stay as they are. -/
theorem roBytes_strings_of_grows {env : LowerEnv} {v : Value} {t : ValueType}
    {strings longer : List String} (h : (env.roBytes v t strings).2 <+: longer) :
    (env.roBytes v t longer).2 = longer := by
  rcases roBytes_cases env v t with hnone | ⟨packed, _, hpacked⟩
  · rw [hnone]
  · rw [hpacked] at h ⊢
    unfold LowerEnv.packedStrings at h ⊢
    by_cases hmap : env.options.mapStringsToIds = true
    · simp only [hmap, if_true] at h ⊢
      exact internStrings_of_grows h
    · simp only [hmap, Bool.false_eq_true, if_false]

/-! ## Second runs -/

/-- How a second run starts: from the data that the first run started from, or with all of
the data there that the first run left. -/
inductive Pass
  | fresh
  | again

namespace Pass

/-- The data from which the second run starts, if the first one leads from `p` to `p'`. -/
def Ready : Pass → (p p' q : DataPool) → Prop
  | fresh, p, _, q => q = p
  | again, _, p', q => p'.Grows q

/-- The data that the second run leaves, if it starts from `q`. -/
def after : Pass → (p' q : DataPool) → DataPool
  | fresh, p', _ => p'
  | again, _, q => q

variable {pass : Pass} {p p' p'' q : DataPool}

theorem Ready.of_grows (h : pass.Ready p p'' q) (hgrows : p'.Grows p'') : pass.Ready p p' q := by
  cases pass with
  | fresh => exact h
  | again => exact hgrows.trans h

theorem Ready.next (h : pass.Ready p p'' q) : pass.Ready p' p'' (pass.after p' q) := by
  cases pass with
  | fresh => rfl
  | again => exact h

theorem after_after : pass.after p'' (pass.after p' q) = pass.after p'' q := by
  cases pass <;> rfl

theorem Ready.after_self (h : pass.Ready p p q) : pass.after p q = q := by
  cases pass with
  | fresh => exact h.symm
  | again => rfl

end Pass

/-- If the first computation succeeds, so does the second one with a related result, and it
leaves the data that it should. -/
def Repeats {α β : Type} (pass : Pass) (R : α → β → Prop) (m : LowerM α) (m' : LowerM β) : Prop :=
  ∀ s a t, m.run s = (.ok a, t) → s.pool.Grows t.pool ∧
    ∀ s', pass.Ready s.pool t.pool s'.pool →
      ∃ b t', m'.run s' = (.ok b, t') ∧ R a b ∧ t'.pool = pass.after t.pool s'.pool

/-- A second computation of one instruction. -/
abbrev RepeatsId (pass : Pass) (m m' : LowerM Nat) : Prop :=
  Repeats pass (fun _ _ => True) m m'

/-- A second computation of as many instructions. -/
abbrev RepeatsIds (pass : Pass) (m m' : LowerM (List Nat)) : Prop :=
  Repeats pass (fun ids ids' => ids.length = ids'.length) m m'

/-- A computation that succeeds and adds no data. -/
def AddsNoData {α : Type} (m : LowerM α) : Prop :=
  ∀ s, ∃ a t, m.run s = (.ok a, t) ∧ t.pool = s.pool

namespace AddsNoData

variable {α β : Type}

theorem pure (a : α) : AddsNoData (Pure.pure a) :=
  fun s => ⟨a, s, rfl, rfl⟩

theorem emit (t : ValueType) (op : Op) : AddsNoData (Shading.emit t op) :=
  fun _ => ⟨_, _, rfl, rfl⟩

theorem noteUsage (flag : StateFlag) : AddsNoData (Shading.noteUsage flag) :=
  fun _ => ⟨_, _, rfl, rfl⟩

theorem bind {m : LowerM α} {f : α → LowerM β} (hm : AddsNoData m)
    (hf : ∀ a, AddsNoData (f a)) : AddsNoData (m >>= f) := by
  intro s
  obtain ⟨a, t, hrun, hpool⟩ := hm s
  obtain ⟨b, u, hrun', hpool'⟩ := hf a t
  exact ⟨b, u, (run_bind_of_ok hrun).trans hrun', hpool'.trans hpool⟩

theorem mapM {f : α → LowerM β} (hf : ∀ a, AddsNoData (f a)) (l : List α) :
    AddsNoData (l.mapM f) := by
  induction l with
  | nil => exact .pure _
  | cons a l ih =>
    rw [mapM_cons]
    exact (hf a).bind fun _ => ih.bind fun _ => .pure _

end AddsNoData

namespace Repeats

variable {pass : Pass} {α β γ δ : Type} {R : α → β → Prop} {S : γ → δ → Prop}

variable {m' : LowerM β} {m : LowerM α}

theorem pure {a : α} {b : β} (h : R a b) : Repeats pass R (Pure.pure a) (Pure.pure b) := by
  intro s a' t hrun
  cases hrun
  exact ⟨DataPool.Grows.refl _, fun s' hs' => ⟨b, s', rfl, h, hs'.after_self.symm⟩⟩

theorem throw {e : LowerError} : Repeats pass R (MonadExcept.throw e) m' := by
  intro s a t hrun
  cases hrun

theorem lift {r : Except LowerError α} {r' : Except LowerError β}
    (h : ∀ a, r = .ok a → ∃ b, r' = .ok b ∧ R a b) :
    Repeats pass R (MonadLift.monadLift r) (MonadLift.monadLift r') := by
  intro s a t hrun
  obtain ⟨hr, rfl⟩ := Ensures.lift r s a t hrun
  obtain ⟨b, rfl, hR⟩ := h a hr
  exact ⟨DataPool.Grows.refl _, fun s' hs' => ⟨b, s', rfl, hR, hs'.after_self.symm⟩⟩

/-- A check that is made in both. -/
theorem lift_self (r : Except LowerError α) :
    Repeats pass Eq (MonadLift.monadLift r) (MonadLift.monadLift r : LowerM α) :=
  lift fun a h => ⟨a, h, rfl⟩

/-- Computations that add no data. -/
theorem of_addsNoData (hm : AddsNoData m) (hm' : AddsNoData m')
    (h : ∀ a b, R a b) : Repeats pass R m m' := by
  intro s a t hrun
  obtain ⟨a', t', hrun', hpool⟩ := hm s
  rw [hrun] at hrun'
  cases hrun'
  refine ⟨hpool ▸ DataPool.Grows.refl _, fun s' hs' => ?_⟩
  obtain ⟨b, u, hrun', hpool'⟩ := hm' s'
  rw [hpool] at hs' ⊢
  exact ⟨b, u, hrun', h a b, hpool'.trans hs'.after_self.symm⟩

/-- Where all of the data is there, a computation that adds none can stand for any other. -/
theorem again_of_addsNoData {m'' : LowerM δ} {T : α → δ → Prop}
    (hm : Repeats pass T m m'') (hm' : AddsNoData m') (h : ∀ a b, R a b) :
    Repeats .again R m m' := by
  intro s a t hrun
  refine ⟨(hm s a t hrun).1, fun s' _ => ?_⟩
  obtain ⟨b, u, hrun', hpool⟩ := hm' s'
  exact ⟨b, u, hrun', h a b, hpool⟩

/-- Computations one after the other. -/
theorem bind {f : α → LowerM γ} {f' : β → LowerM δ}
    (hm : Repeats pass R m m') (hf : ∀ a b, R a b → Repeats pass S (f a) (f' b)) :
    Repeats pass S (m >>= f) (m' >>= f') := by
  intro s c u hrun
  obtain ⟨a, t, hfirst, hrest⟩ := exists_of_run_bind hrun
  obtain ⟨hst, hsecond⟩ := hm s a t hfirst
  -- the related result is known once a start for the second run is given
  have hgrows : t.pool.Grows u.pool := by
    cases pass with
    | fresh =>
      obtain ⟨b, _, _, hab, _⟩ := hsecond s rfl
      exact (hf a b hab t c u hrest).1
    | again =>
      obtain ⟨b, _, _, hab, _⟩ := hsecond t (DataPool.Grows.refl _)
      exact (hf a b hab t c u hrest).1
  refine ⟨hst.trans hgrows, fun s' hs' => ?_⟩
  obtain ⟨b, t', hfirst', hab, hpool⟩ := hsecond s' (hs'.of_grows hgrows)
  obtain ⟨d, u', hrest', hcd, hpool'⟩ := (hf a b hab t c u hrest).2 t' (hpool ▸ hs'.next)
  refine ⟨d, u', (run_bind_of_ok hfirst').trans hrest', hcd, ?_⟩
  rw [hpool', hpool, Pass.after_after]

theorem mapM {f : α → LowerM γ} {f' : α → LowerM δ} {l : List α}
    (h : ∀ a ∈ l, Repeats pass S (f a) (f' a)) :
    Repeats pass (fun xs ys => xs.length = ys.length) (l.mapM f) (l.mapM f') := by
  induction l with
  | nil => exact .pure rfl
  | cons a l ih =>
    rw [mapM_cons, mapM_cons]
    refine (h a mem_cons_self).bind fun _ _ _ => ?_
    exact (ih fun b hb => h b (mem_cons_of_mem a hb)).bind fun _ _ hlen =>
      .pure (congrArg Nat.succ hlen)

/-- A change of the data that is made once gives the same result when it is made again. -/
theorem modifyPool {f : DataPool → α × DataPool} (hgrows : ∀ p : DataPool, p.Grows (f p).2)
    (hagain : ∀ p q, (f p).2.Grows q → f q = ((f p).1, q)) :
    Repeats pass Eq (Shading.modifyPool f) (Shading.modifyPool f) := by
  intro s a t hrun
  cases hrun
  refine ⟨hgrows s.pool, fun s' hs' => ?_⟩
  cases pass with
  | fresh =>
    refine ⟨_, _, rfl, ?_, ?_⟩
    · rw [show s'.pool = s.pool from hs']
    · exact congrArg (fun p => (f p).2) hs'
  | again =>
    have hf := hagain s.pool s'.pool hs'
    refine ⟨_, _, rfl, ?_, ?_⟩
    · rw [hf]
    · exact congrArg Prod.snd hf

end Repeats

section

variable {pass : Pass} {env : LowerEnv}

theorem emit_repeats (t t' : ValueType) (op op' : Op) : RepeatsId pass (emit t op) (emit t' op') :=
  .of_addsNoData (.emit t op) (.emit t' op') fun _ _ => trivial

theorem noteUsage_repeats (flag : StateFlag) : Repeats pass Eq (noteUsage flag) (noteUsage flag) :=
  .of_addsNoData (.noteUsage flag) (.noteUsage flag) fun _ _ => rfl

/-! ## Constants -/

theorem placeConstant_repeats (v : Value) (t : ValueType) :
    Repeats pass Eq (placeConstant env v t) (placeConstant env v t) := by
  refine .modifyPool (fun p => ?_) fun p q h => ?_
  · have hstrings : p.Grows { p with strings := (env.roBytes v t p.strings).2 } :=
      ⟨roBytes_grows env v t p.strings, prefix_refl _⟩
    dsimp only
    split
    · exact hstrings
    · exact hstrings.trans (DataPool.addBytes_grows _ _)
  · dsimp only at h ⊢
    have hbytes := fun longer => @roBytes_of_grows env v t p.strings longer
    have hstrings := fun longer => @roBytes_strings_of_grows env v t p.strings longer
    generalize env.roBytes v t p.strings = packed at h hbytes hstrings ⊢
    obtain ⟨bytes, strings⟩ := packed
    have hpacked : strings <+: q.strings → env.roBytes v t q.strings = (bytes, q.strings) :=
      fun hgrows => Prod.ext (hbytes _ hgrows) (hstrings _ hgrows)
    cases bytes with
    | none => rw [hpacked h.strings]
    | some bytes =>
      have hadd := DataPool.addBytes_grows { p with strings } bytes
      rw [hpacked (hadd.trans h).strings]
      have hfound := DataPool.addBytes_of_grows h
      dsimp only
      rw [hfound]

theorem lowerString_repeats (text : String) :
    RepeatsId pass (lowerString env text) (lowerString env text) := by
  unfold lowerString
  split
  · refine (Repeats.modifyPool (fun p => p.intern_grows text) fun p q h => ?_).bind
      fun _ _ _ => emit_repeats _ _ _ _
    exact DataPool.intern_of_grows h
  · refine (noteUsage_repeats _).bind fun _ _ _ => ?_
    refine (Repeats.modifyPool (fun p => p.addBytes_grows _) fun p q h => ?_).bind
      fun _ _ _ => emit_repeats _ _ _ _
    exact DataPool.addBytes_of_grows h

theorem lowerCompound_repeats {v : Value} {t : ValueType} {parts : LowerM (List Nat)}
    (hparts : RepeatsIds pass parts parts) :
    RepeatsId pass (lowerCompound env v t parts) (lowerCompound env v t parts) := by
  refine (placeConstant_repeats v t).bind ?_
  rintro place _ rfl
  cases place with
  | some offset => exact (noteUsage_repeats _).bind fun _ _ _ => emit_repeats _ _ _ _
  | none => exact hparts.bind fun _ _ _ => emit_repeats _ _ _ _

mutual

/-- A literal asks for the same data again. -/
theorem lowerConstant_repeats (v : Value) (t : ValueType) :
    RepeatsId pass (lowerConstant env v t) (lowerConstant env v t) := by
  cases v with
  | vector parts | matrix parts | array parts | struct parts =>
    simp only [lowerConstant]
    exact lowerCompound_repeats (lowerParts_repeats parts t 0)
  | color r g b =>
    simp only [lowerConstant]
    refine lowerCompound_repeats ((Repeats.lift_self _).bind fun _ _ _ => ?_)
    refine (emit_repeats _ _ _ _).bind fun _ _ _ => ?_
    refine (emit_repeats _ _ _ _).bind fun _ _ _ => ?_
    exact (emit_repeats _ _ _ _).bind fun _ _ _ => .pure rfl
  | string text =>
    simp only [lowerConstant]
    exact lowerString_repeats text
  | _ =>
    simp only [lowerConstant]
    exact emit_repeats _ _ _ _

theorem lowerParts_repeats (parts : List Value) (t : ValueType) (index : Nat) :
    RepeatsIds pass (lowerParts env parts t index) (lowerParts env parts t index) := by
  cases parts with
  | nil =>
    simp only [lowerParts]
    exact .pure rfl
  | cons v rest =>
    have hv := fun part => lowerConstant_repeats v part
    have hrest := lowerParts_repeats rest t (index + 1)
    simp only [lowerParts]
    refine (Repeats.lift_self _).bind ?_
    rintro part _ rfl
    exact (hv part).bind fun _ _ _ => hrest.bind fun _ _ hlen => .pure (congrArg Nat.succ hlen)

end

/-! ## Calls -/

theorem foldRow_addsNoData (acc : Nat) (row : List (Float32 × Nat)) :
    AddsNoData (foldRow acc row) := by
  induction row generalizing acc with
  | nil => exact .pure acc
  | cons entry row ih =>
    exact .bind (.emit _ _) fun _ => .bind (.emit _ _) fun _ => .bind (.emit _ _) ih

theorem foldTransform_addsNoData (t : ValueType) (value : Nat) (m : Transform) (point : Bool) :
    AddsNoData (foldTransform t value m point) := by
  refine .bind (.mapM (fun _ => .emit _ _) _) fun parts => ?_
  refine .bind (.mapM (fun row => ?_) _) fun rows => .emit _ _
  exact .bind (.emit _ _) fun acc => foldRow_addsNoData acc _

theorem lowerField_addsNoData (t : ValueType) (field : StateField) (flag : StateFlag) :
    AddsNoData (lowerField t field flag) :=
  .bind (.noteUsage flag) fun _ => .emit _ _

theorem objectSpace_addsNoData (v : Nat) (t : ValueType) (matrix : UniformState → Transform)
    (point : Bool) (function : String) :
    AddsNoData (if env.options.internalSpace = .object then pure v
      else match env.uniform with
        | some u => foldTransform t v (matrix u) point
        | none => do
          noteUsage .transforms
          emit t (.runtimeCall function [v])) := by
  split
  · exact .pure v
  · cases env.uniform with
    | some u => exact foldTransform_addsNoData t v _ point
    | none => exact .bind (.noteUsage _) fun _ => .emit _ _

theorem lowerObjectId_addsNoData (t : ValueType) : AddsNoData (lowerObjectId env t) := by
  unfold lowerObjectId
  split
  · exact .emit _ _
  · exact lowerField_addsNoData _ _ _

theorem expectArgs_congr {i : Intrinsic} {args args' : List Nat} {count : Nat}
    (hlen : args.length = args'.length) : expectArgs i args count = expectArgs i args' count := by
  unfold expectArgs
  rw [hlen]

section

variable {g : Graph} {t : ValueType} {nodes args args' : List Nat}

theorem lowerState_repeats (hlen : args.length = args'.length) (q : StateQuery) :
    RepeatsId pass (lowerState env ⟨g, t, nodes, args⟩ q)
      (lowerState env ⟨g, t, nodes, args'⟩ q) := by
  refine (Repeats.lift_self _).bind fun _ _ _ => ?_
  have hfield := fun field flag => @Repeats.of_addsNoData pass _ _ (fun _ _ => True) _ _
    (lowerField_addsNoData t field flag) (lowerField_addsNoData t field flag)
    fun _ _ => trivial
  cases q with
  | normal | position | direction | animationTime => exact hfield _ _
  | objectPosition | objectNormal =>
    exact (hfield _ _).bind fun v v' _ => .of_addsNoData (objectSpace_addsNoData v t _ _ _)
      (objectSpace_addsNoData v' t _ _ _) fun _ _ => trivial
  | objectId =>
    exact .of_addsNoData (lowerObjectId_addsNoData t) (lowerObjectId_addsNoData t)
      fun _ _ => trivial
  | textureCoordinate =>
    unfold lowerTextureCoordinate
    dsimp only
    rw [expectArgs_congr hlen]
    refine (Repeats.lift_self _).bind fun _ _ _ => ?_
    unfold CallSite.argNode?
    dsimp only
    split
    · split
      · exact .throw
      · split
        · exact (emit_repeats _ _ _ _).bind fun _ _ _ => emit_repeats _ _ _ _
        · exact (noteUsage_repeats _).bind fun _ _ _ => emit_repeats _ _ _ _
    · exact .throw

/-- A call of an intrinsic depends on the number of its arguments, and asks for no data. -/
theorem lowerIntrinsic_repeats (hlen : args.length = args'.length) (i : Intrinsic) :
    RepeatsId pass (lowerIntrinsic env ⟨g, t, nodes, args⟩ i)
      (lowerIntrinsic env ⟨g, t, nodes, args'⟩ i) := by
  cases i with
  | unary op =>
    simp only [lowerIntrinsic, lowerUnary]
    split
    · rename_i a
      obtain ⟨a', rfl⟩ := length_eq_one_iff.mp hlen.symm
      exact emit_repeats _ _ _ _
    · exact .throw
  | member index =>
    simp only [lowerIntrinsic, lowerMember]
    split
    · rename_i a
      obtain ⟨a', rfl⟩ := length_eq_one_iff.mp hlen.symm
      exact emit_repeats _ _ _ _
    · exact .throw
  | ternary op =>
    simp only [lowerIntrinsic, lowerTernary]
    split
    · rename_i x y z
      obtain ⟨x', y', z', rfl⟩ := length_eq_three.mp hlen.symm
      exact emit_repeats _ _ _ _
    · exact .throw
  | binary op =>
    simp only [lowerIntrinsic, lowerBinary, expectArgs_congr hlen]
    refine (Repeats.lift_self _).bind fun _ _ _ => ?_
    split
    · exact emit_repeats _ _ _ _
    · split
      · rename_i a b
        obtain ⟨a', b', rfl⟩ := length_eq_two.mp hlen.symm
        exact emit_repeats _ _ _ _
      · exact .throw
  | construct =>
    simp only [lowerIntrinsic, lowerConstruct, hlen]
    split
    · exact .throw
    · exact emit_repeats _ _ _ _
  | state q => exact lowerState_repeats hlen q
  | lookup what =>
    simp only [lowerIntrinsic, lowerLookup, expectArgs_congr hlen, CallSite.argNode?]
    refine (Repeats.lift_self _).bind fun _ _ _ => ?_
    split
    · exact emit_repeats _ _ _ _
    · exact .throw
  | resource q =>
    simp only [lowerIntrinsic, lowerResourceQuery, expectArgs_congr hlen]
    refine (Repeats.lift_self _).bind fun _ _ _ => ?_
    unfold constantBinding? CallSite.argNode?
    dsimp only
    split
    · exact emit_repeats _ _ _ _
    · exact emit_repeats _ _ _ _
  | bsdf node => exact .throw

end

/-! ## Graphs -/

/-- Places where parameters are read that are the same, or are as many arguments. -/
inductive ParameterSource.Alike : ParameterSource → ParameterSource → Prop
  | same (source : ParameterSource) : Alike source source
  | bound {args args' : List Nat} (h : args.length = args'.length) :
    Alike (.bound args) (.bound args')

/-- The nodes that the first map remembers are remembered by the second one. -/
def Remembers (done done' : Lowered) : Prop :=
  ∀ node, (done.find? node).isSome → (done'.find? node).isSome

theorem Remembers.insert {done done' : Lowered} (h : Remembers done done') (node id id' : Nat) :
    Remembers (done.insert node id) (done'.insert node id') := by
  intro other
  rw [OrderedMap.find?_insert (fun a b h₁ h₂ => by omega),
    OrderedMap.find?_insert (fun a b h₁ h₂ => by omega)]
  split
  · exact fun _ => rfl
  · exact h other

theorem getElem?_of_length {args args' : List Nat} (hlen : args.length = args'.length) {k a : Nat}
    (ha : args[k]? = some a) : ∃ a', args'[k]? = some a' := by
  have hk : k < args'.length := hlen ▸ (List.getElem?_eq_some_iff.mp ha).1
  exact ⟨_, getElem?_eq_getElem hk⟩

theorem exists_mapM_of_remembers {done done' : Lowered} (h : Remembers done done')
    {e : Nat → LowerError} {nodes ids : List Nat}
    (hids : (nodes.mapM fun a => match done.find? a with
      | some id => Except.ok id
      | none => Except.error (e a)) = .ok ids) :
    ∃ ids', (nodes.mapM fun a => match done'.find? a with
      | some id => Except.ok id
      | none => Except.error (e a)) = .ok ids' ∧ ids.length = ids'.length := by
  have hfound := forall₂_find?_of_mapM hids
  clear hids
  induction hfound with
  | nil => exact ⟨[], rfl, rfl⟩
  | @cons a id nodes ids ha _ ih =>
    obtain ⟨ids', hids', hlen⟩ := ih
    obtain ⟨id', hid'⟩ := Option.isSome_iff_exists.mp (h a (by rw [ha]; rfl))
    refine ⟨id' :: ids', ?_, congrArg Nat.succ hlen⟩
    rw [mapM_cons, hid', hids']
    rfl

section

variable {g : Graph} {source source' : ParameterSource} {aux aux' : List Nat}
  {inliner : Inliner}

theorem lowerParameter_repeats (hsource : source.Alike source') (t : ValueType) (index : Nat) :
    RepeatsId pass (lowerParameter source t index) (lowerParameter source' t index) := by
  cases hsource with
  | same =>
    unfold lowerParameter
    split
    · split
      · exact emit_repeats _ _ _ _
      · exact .throw
    · split
      · exact .pure trivial
      · exact .throw
    · exact .throw
  | @bound args args' hlen =>
    unfold lowerParameter
    dsimp only
    cases ha : args[index]? with
    | none => exact .throw
    | some a =>
      obtain ⟨a', ha'⟩ := getElem?_of_length hlen ha
      rw [ha']
      exact .pure trivial

/-- Calls of a fragment ask for the same data, whatever the arguments are. -/
def InlinesAgain (pass : Pass) (inliner : Inliner) : Prop :=
  ∀ (name : String) (f : Fragment) (args args' : List Nat), args.length = args'.length →
    RepeatsId pass (inliner name f args) (inliner name f args')

theorem lowerNode_repeats (hinliner : InlinesAgain pass inliner)
    (hsource : source.Alike source') (haux : aux.length = aux'.length) {done done' : Lowered}
    (hdone : Remembers done done') (node : Node) :
    RepeatsId pass (lowerNode env inliner g source aux done node)
      (lowerNode env inliner g source' aux' done' node) := by
  obtain ⟨op, t⟩ := node
  cases op with
  | constant v => exact lowerConstant_repeats v t
  | parameter index => exact lowerParameter_repeats hsource t index
  | lambdaResult index =>
    unfold lowerNode
    dsimp only
    cases ha : aux[index]? with
    | none => exact .throw
    | some a =>
      obtain ⟨a', ha'⟩ := getElem?_of_length haux ha
      rw [ha']
      exact .pure trivial
  | call name args =>
    refine (Repeats.lift fun ids hids => exists_mapM_of_remembers hdone hids).bind
      fun ids ids' hlen => ?_
    unfold lowerCall
    cases env.resolver.resolve? name with
    | none => exact .throw
    | some resolution =>
      cases resolution with
      | intrinsic i => exact lowerIntrinsic_repeats hlen i
      | fragment f => exact hinliner name f ids ids' hlen

theorem lowerNodes_repeats (hinliner : InlinesAgain pass inliner)
    (hsource : source.Alike source') (haux : aux.length = aux'.length) (nodes : List Nat)
    {done done' : Lowered} (hdone : Remembers done done') :
    Repeats pass Remembers (lowerNodes env inliner g source aux nodes done)
      (lowerNodes env inliner g source' aux' nodes done') := by
  induction nodes generalizing done done' with
  | nil => exact .pure hdone
  | cons id nodes ih =>
    unfold lowerNodes
    cases g.node? id with
    | none => exact .throw
    | some node =>
      exact (lowerNode_repeats hinliner hsource haux hdone node).bind
        fun instr instr' _ => ih (hdone.insert id instr instr')

theorem lowerRoots_repeats (hinliner : InlinesAgain pass inliner)
    (hsource : source.Alike source') (haux : aux.length = aux'.length) (roots : List Nat) :
    RepeatsIds pass (lowerRoots env inliner g roots source aux)
      (lowerRoots env inliner g roots source' aux') := by
  have hempty : Remembers OrderedMap.empty OrderedMap.empty := fun _ h => h
  refine (lowerNodes_repeats hinliner hsource haux _ hempty).bind fun done done' hdone => ?_
  exact .lift fun ids hids => exists_mapM_of_remembers hdone hids

end

theorem onlyResult_repeats (root : Nat) {ids ids' : List Nat} (h : ids.length = ids'.length) :
    RepeatsId pass (liftM (onlyResult root ids)) (liftM (onlyResult root ids')) := by
  refine .lift fun id hid => ?_
  unfold onlyResult at hid
  split at hid
  · obtain ⟨id', rfl⟩ := length_eq_one_iff.mp h.symm
    exact ⟨id', rfl, trivial⟩
  · cases hid

/-- A call asks for the same data again, however deep calls nest. -/
theorem inlinerAt_repeats (budget : Nat) : InlinesAgain pass (inlinerAt env budget) := by
  induction budget with
  | zero => exact fun _ _ _ _ _ => .throw
  | succ budget ih =>
    intro name f args args' hlen
    unfold inlinerAt
    rw [hlen]
    refine (Repeats.lift_self _).bind ?_
    rintro body _ rfl
    exact (lowerRoots_repeats ih (.bound hlen) rfl [body]).bind
      fun _ _ hids => onlyResult_repeats body hids

section

variable {g : Graph} {source : ParameterSource} {aux aux' : List Nat}

theorem lowerRoot_repeats (haux : aux.length = aux'.length) (root : Nat) :
    RepeatsId pass (lowerRoot env g root source aux) (lowerRoot env g root source aux') :=
  (lowerRoots_repeats (inlinerAt_repeats _) (.same source) haux [root]).bind
    fun _ _ hids => onlyResult_repeats root hids

/-! ## Distributions -/

theorem combineBsdf_addsNoData (kind : FunctionKind) (node : BsdfNode) (layers values : List Nat) :
    AddsNoData (combineBsdf kind node layers values) := by
  unfold combineBsdf
  split
  · split
    · exact .emit _ _
    · exact .pure _
  · split <;> exact .emit _ _
  · exact .emit _ _

/-- A distribution asks for the same data again.  The induction follows the layers. -/
theorem lowerBsdf_repeats (haux : aux.length = aux'.length) (kind : FunctionKind) (id : Nat) :
    RepeatsId pass (lowerBsdf env g kind source aux id)
      (lowerBsdf env g kind source aux' id) := by
  induction id using Nat.strongRecOn with
  | ind id ih =>
    rw [lowerBsdf, lowerBsdf]
    refine (Repeats.lift_self _).bind ?_
    rintro ⟨node, name, args⟩ _ rfl
    refine (Repeats.mapM fun a _ => lowerRoot_repeats haux a).bind fun values values' _ => ?_
    refine (Repeats.lift_self _).bind fun _ _ _ => ?_
    refine (Repeats.mapM (S := fun _ _ => True) fun layer _ => ?_).bind fun layers layers' _ =>
      .of_addsNoData (combineBsdf_addsNoData kind node layers values)
        (combineBsdf_addsNoData kind node layers' values') fun _ _ => trivial
    split
    · rename_i hlt
      exact ih layer hlt
    · exact .throw

end

end

end Shading
