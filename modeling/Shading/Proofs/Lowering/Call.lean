import Shading.Proofs.Lowering.Reference
import Shading.Proofs.Lowering.Step

/-!
# Lowering of intrinsic calls is right

The instructions of an intrinsic call compute what the intrinsic gives for the values of
the arguments, refer only to what is there, and read only what was noted.

Main results:

- Theorem `foldTransform_computes`: a fixed matrix is applied row by row.
- Theorem `lowerIntrinsic_computes`: calls of intrinsics are lowered by steps, to their values.
-/

namespace Shading

variable {V : Type} {I : Interpretation V} {env : LowerEnv} {Loads : Nat → Nat → ValueType → Prop}
  {s : LowerState} {c : CallSite} {xs : List V}

/-! ## Operators -/

theorem lowerUnary_computes (hargs : HaveValues I s.body c.args xs) (op : UnaryOp) :
    env.Computes Loads I (lowerUnary c op) s (some (I c.type.storage (.unary op) xs)) := by
  unfold lowerUnary
  split
  · rename_i a ha
    rw [ha] at hargs
    exact emit_computes (o := .unary op a) hargs (.silent rfl trivial)
  · exact .throw

theorem lowerTernary_computes (hargs : HaveValues I s.body c.args xs) (op : TernaryOp) :
    env.Computes Loads I (lowerTernary c op) s (some (I c.type.storage (.ternary op) xs)) := by
  unfold lowerTernary
  split
  · rename_i x y z hxyz
    rw [hxyz] at hargs
    exact emit_computes (o := .ternary op x y z) hargs (.silent rfl trivial)
  · exact .throw

theorem lowerMember_computes (hargs : HaveValues I s.body c.args xs) (index : Nat) :
    env.Computes Loads I (lowerMember c index) s (some (I c.type.storage (.extract index) xs)) := by
  unfold lowerMember
  split
  · rename_i a ha
    rw [ha] at hargs
    exact emit_computes (o := .extract a index) hargs (.silent rfl trivial)
  · exact .throw

theorem lowerConstruct_computes (hargs : HaveValues I s.body c.args xs) :
    env.Computes Loads I (lowerConstruct c) s (some (I c.type.storage .construct xs)) := by
  unfold lowerConstruct
  dsimp only
  split
  · exact .throw
  · exact emit_computes (o := .construct c.args) hargs (.silent rfl trivial)

theorem emit_runtimeCall_computes {t : ValueType} {name : String} {args : List Nat}
    (hargs : HaveValues I s.body args xs) (hname : (Op.runtimeCall name args).flag? = none) :
    env.Computes Loads I (emit t (.runtimeCall name args)) s
      (some (I t.storage (.runtimeCall name) xs)) :=
  emit_computes (o := .runtimeCall name args) hargs (.silent hname trivial)

theorem lowerBinary_computes (hargs : HaveValues I s.body c.args xs) (op : BinaryOp) :
    env.Computes Loads I (lowerBinary env c op) s (some (binaryValue env I c.type xs op)) := by
  unfold lowerBinary binaryValue
  refine (Advances.lift _ s).bind ?_
  rintro u s₁ - ⟨_, rfl⟩
  split
  · exact emit_runtimeCall_computes hargs (flag?_runtimeCall rfl (by decide))
  · split
    · rename_i a b hab
      rw [hab] at hargs
      exact emit_computes (o := .binary op a b) hargs (.silent rfl trivial)
    · exact .throw

/-! ## Matrices -/

/-- The products of a row with values are summed up from left to right. -/
theorem foldRow_computes {acc : Nat} {x : V} (hacc : valueAt I s.body acc = some x)
    (row : List Float32) {parts : List Nat} {ys : List V} (hparts : HaveValues I s.body parts ys) :
    env.Computes Loads I (foldRow acc (row.zip parts)) s (some (rowValue I x (row.zip ys))) := by
  induction row generalizing s acc x parts ys with
  | nil => exact .pure ⟨lt_size_of_valueAt hacc, hacc⟩
  | cons k row ih =>
    cases parts with
    | nil =>
      cases ys with
      | nil => exact .pure ⟨lt_size_of_valueAt hacc, hacc⟩
      | cons y ys => cases hparts
    | cons part parts =>
      cases ys with
      | nil => cases hparts
      | cons y ys =>
        obtain ⟨hpart, hrest⟩ := List.cons.inj hparts
        simp only [List.zip_cons_cons, foldRow, rowValue]
        refine (emit_float_computes (I := I) k s).bind fun factor s₁ h₁ hfactor => ?_
        have hpart₁ := valueAt_of_extends_some h₁.grows.body hpart
        refine (emit_computes (I := I) (o := .binary .mul factor part)
          (.cons hfactor.2 (.cons hpart₁ .nil)) (.silent rfl trivial)).bind
          fun term s₂ h₂ hterm => ?_
        have hacc₂ := valueAt_of_extends_some (h₁.grows.trans h₂.grows).body hacc
        refine (emit_computes (I := I) (o := .binary .add acc term)
          (.cons hacc₂ (.cons hterm.2 .nil)) (.silent rfl trivial)).bind fun sum s₃ h₃ hsum => ?_
        exact ih hsum.2 (HaveValues.of_steps hrest ((h₁.trans h₂).trans h₃))

/-- A fixed matrix is applied row by row. -/
theorem foldTransform_computes {value : Nat} {x : V} (hvalue : valueAt I s.body value = some x)
    (t : ValueType) (m : Transform) (point : Bool) :
    env.Computes Loads I (foldTransform t value m point) s
      (some (transformValue I t x m point)) := by
  unfold foldTransform
  refine (mapM_computes (I := I) (g := fun k => I .float (.extract k) [x])
    fun k _ s₁ h₁ => ?_).bind fun parts s₁ h₁ hparts => ?_
  · have hvalue₁ := valueAt_of_extends_some h₁.grows.body hvalue
    exact emit_computes (o := .extract value k) (.cons hvalue₁ .nil) (.silent rfl trivial)
  refine (mapM_computes (I := I) (g := fun row : Vector Float32 4 =>
    rowValue I (I .float (.float (if point then row[3] else 0)) [])
      (row.toList.zip ([0, 1, 2].map fun k => I .float (.extract k) [x])))
    fun row _ s₂ h₂ => ?_).bind fun rows s₂ h₂ hrows => ?_
  · refine (emit_float_computes (I := I) _ s₂).bind fun acc s₃ h₃ hacc => ?_
    exact foldRow_computes hacc.2 row.toList (hparts.of_steps (h₂.trans h₃))
  · exact emit_computes (o := .construct rows) hrows (.silent rfl trivial)

/-! ## State -/

theorem lowerField_computes (t : ValueType) (field : StateField)
    (hoffers : env.context.Offers field.flag) :
    env.Computes Loads I (lowerField t field field.flag) s (some (fieldValue I t field)) :=
  emit_noted_computes (o := .state field) .nil rfl hoffers trivial

/-- What is done to a field to have it in object space. -/
theorem objectSpace_computes {v : Nat} {t : ValueType} {field : StateField}
    (hv : v < s.body.size ∧ valueAt I s.body v = some (fieldValue I t field))
    (matrix : UniformState → Transform) (point : Bool) {function : String}
    (hfunction : function ∈ objectTransforms) (hoffers : env.context.Offers .transforms) :
    env.Computes Loads I (if env.options.internalSpace = .object then pure v
      else match env.uniform with
        | some u => foldTransform t v (matrix u) point
        | none => do
          noteUsage .transforms
          emit t (.runtimeCall function [v])) s
      (some (objectSpaceValue env I t field matrix point function)) := by
  unfold objectSpaceValue
  split
  · exact .pure hv
  · cases env.uniform with
    | some u => exact foldTransform_computes hv.2 t _ point
    | none =>
      exact emit_noted_computes (o := .runtimeCall function [v]) (.cons hv.2 .nil)
        (if_pos hfunction) hoffers trivial

theorem lowerTextureCoordinate_computes (c : CallSite)
    (hoffers : env.context.Offers .textureCoordinate) :
    env.Computes Loads I (lowerTextureCoordinate env c) s
      (textureCoordinateValue env I c.type (c.argNode? 0)) := by
  unfold lowerTextureCoordinate textureCoordinateValue
  generalize c.argNode? 0 = node
  refine (Advances.lift _ s).bind ?_
  rintro u s₁ - ⟨_, rfl⟩
  split
  · rename_i n t
    by_cases hneg : n < 0
    · simp only [hneg, if_true]
      exact .throw
    · simp only [hneg, if_false]
      split
      · refine (emit_float_computes (I := I) 0 s₁).bind fun component s₂ _ hcomponent => ?_
        exact emit_computes (o := .construct [component]) (.cons hcomponent.2 .nil)
          (.silent rfl trivial)
      · rename_i hspaces
        exact emit_noted_computes .nil rfl hoffers (Nat.lt_of_not_le hspaces)
  · exact .throw

/-- A read of the state is noted, and was checked against the context. -/
theorem lowerState_computes (c : CallSite) (q : StateQuery) :
    env.Computes Loads I (lowerState env c q) s
      (intrinsicValue env I c.type (c.argNode? 0) xs (.state q)) := by
  unfold lowerState
  refine (Advances.lift _ s).bind ?_
  rintro u s₁ - ⟨hcheck, rfl⟩
  have hcheck : checkContext env.context q = .ok () := hcheck
  have hobject := not_environment_of_checkContext hcheck
  have hvalue : intrinsicValue env I c.type (c.argNode? 0) xs (.state q)
      = stateValue env I c.type (c.argNode? 0) q := by
    simp only [intrinsicValue, hcheck]
  rw [hvalue]
  cases q with
  | normal => exact lowerField_computes c.type .normal (hobject nofun nofun)
  | position => exact lowerField_computes c.type .position (hobject nofun nofun)
  | direction => exact lowerField_computes c.type .direction (environment_of_checkContext hcheck)
  | animationTime => exact lowerField_computes c.type .animationTime trivial
  | objectPosition =>
    refine (lowerField_computes (I := I) c.type .position (hobject nofun nofun)).bind
      fun v s₂ _ hv => ?_
    exact objectSpace_computes hv _ _ List.mem_cons_self (hobject nofun nofun)
  | objectNormal =>
    refine (lowerField_computes (I := I) c.type .normal (hobject nofun nofun)).bind
      fun v s₂ _ hv => ?_
    exact objectSpace_computes hv _ _ (List.mem_cons_of_mem _ List.mem_cons_self)
      (hobject nofun nofun)
  | objectId =>
    unfold lowerObjectId stateValue
    cases env.uniform with
    | some u => exact emit_computes .nil (.silent rfl trivial)
    | none => exact lowerField_computes c.type .objectId (hobject nofun nofun)
  | textureCoordinate => exact lowerTextureCoordinate_computes c (hobject nofun nofun)

/-! ## Resources -/

theorem lowerLookup_computes (hargs : HaveValues I s.body c.args xs) (what : TextureLookup) :
    env.Computes Loads I (lowerLookup env c what) s
      (lookupValue env I c.type (c.argNode? 0) xs what) := by
  unfold lowerLookup lookupValue
  generalize c.argNode? 0 = node
  refine (Advances.lift _ s).bind ?_
  rintro u s₁ - ⟨_, rfl⟩
  split
  · refine emit_runtimeCall_computes hargs ?_
    rw [String.append_assoc, String.append_assoc, String.append_assoc]
    exact flag?_rendererCall _ _ _
  · exact .throw

theorem ResourceQuery.answer_operands (q : ResourceQuery) (b : ResourceBinding) :
    (q.answer b).2.operands = [] := by
  unfold ResourceQuery.answer
  split <;> rfl

theorem lowerResourceQuery_computes (hargs : HaveValues I s.body c.args xs) (q : ResourceQuery) :
    env.Computes Loads I (lowerResourceQuery env c q) s
      (some (queryValue env I c.type (c.argNode? 0) xs q)) := by
  unfold lowerResourceQuery queryValue
  refine (Advances.lift _ s).bind ?_
  rintro u s₁ - ⟨_, rfl⟩
  have hbinding : constantBinding? env c = bindingOf? env (c.argNode? 0) := rfl
  rw [hbinding]
  cases bindingOf? env (c.argNode? 0) with
  | some b =>
    refine emit_computes (q.answer_operands b ▸ HaveValues.nil) (.silent (q.flag?_answer b) ?_)
    unfold ResourceQuery.answer
    split <;> exact trivial
  | none => exact emit_runtimeCall_computes hargs (flag?_rendererCall _ _ _)

/-- Every intrinsic call computes its value. -/
theorem lowerIntrinsic_computes (hargs : HaveValues I s.body c.args xs) (i : Intrinsic) :
    env.Computes Loads I (lowerIntrinsic env c i) s
      (intrinsicValue env I c.type (c.argNode? 0) xs i) := by
  cases i with
  | unary op => exact lowerUnary_computes hargs op
  | binary op => exact lowerBinary_computes hargs op
  | ternary op => exact lowerTernary_computes hargs op
  | construct => exact lowerConstruct_computes hargs
  | member index => exact lowerMember_computes hargs index
  | state q => exact lowerState_computes c q
  | lookup what => exact lowerLookup_computes hargs what
  | resource q => exact lowerResourceQuery_computes hargs q
  | bsdf node => exact .throw

end Shading
