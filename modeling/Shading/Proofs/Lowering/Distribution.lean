import Shading.Proofs.Lowering.Locality
import Shading.Proofs.Lowering.Repeat
import Shading.Proofs.Lowering.Routine

/-!
# Lowering of distributions is right

The entry points of a distribution compute the values of its auxiliary fragments and, from
these, the value of the distribution itself.  The first entry point stores auxiliary values
in texture results and the others read them back, so a value that is read stands for one
that is computed.

Main definitions:

- `EntryValue` is what an entry point returns.
- `AuxValue` is the value of an auxiliary fragment, and `cachedAux` lists those fragments
  whose values are kept in texture results.

Main results:

- Theorem `lowerAux_right`: the instructions of auxiliary fragments, and what is stored.
- Theorem `lowerAux_repeats`: auxiliary fragments ask for no data a second time.
- Theorem `lowerEntry_right`: the results and stores of an entry point.
-/

namespace Shading

open List

variable {V : Type}

/-! ## Values of distributions -/

/-- A distribution has at most one value. -/
theorem BsdfValue.unique {env : LowerEnv} {I : Interpretation V} {pool : DataPool} {g : Graph}
    {kind : FunctionKind} {scope : Scope V} {id : Nat} {x y : V}
    (hx : BsdfValue env I pool g kind scope id x) (hy : BsdfValue env I pool g kind scope id y) :
    x = y := by
  have hunique : Relator.RightUnique (NodeValue env I pool g scope) :=
    fun _ _ _ => NodeValue.unique
  induction hx generalizing y with
  | tint hat hlayers hvalues hnode _ ih =>
    cases hy with
    | tint hat' hlayers' hvalues' hnode' hinner' =>
      cases hat.symm.trans hat'
      cases hlayers.symm.trans hlayers'
      cases hvalues.symm.trans hvalues'
      rw [hnode.unique hnode', ih hinner']
    | weightedLayer hat' => cases hat.symm.trans hat'
    | leaf hat' htint =>
      cases hat.symm.trans hat'
      exact absurd rfl htint
  | weightedLayer hat hlayers hvalues hnode _ _ ihtop ihbase =>
    cases hy with
    | tint hat' => cases hat.symm.trans hat'
    | weightedLayer hat' hlayers' hvalues' hnode' htop' hbase' =>
      cases hat.symm.trans hat'
      cases hlayers.symm.trans hlayers'
      cases hvalues.symm.trans hvalues'
      rw [hnode.unique hnode', ihtop htop', ihbase hbase']
    | leaf hat' _ hlayer =>
      cases hat.symm.trans hat'
      exact absurd rfl hlayer
  | leaf hat htint hlayer hvalues =>
    cases hy with
    | tint hat' =>
      cases hat.symm.trans hat'
      exact absurd rfl htint
    | weightedLayer hat' =>
      cases hat.symm.trans hat'
      exact absurd rfl hlayer
    | leaf hat' _ _ hvalues' =>
      cases hat.symm.trans hat'
      rw [right_unique_forall₂' hunique hvalues hvalues']

/-! ## Auxiliary fragments -/

/-- The setting with another number of texture results. -/
def LowerEnv.withTextureResults (env : LowerEnv) (n : Nat) : LowerEnv :=
  { env with options := env.options.withTextureResults n }

theorem lowerRoot_withTextureResults (env : LowerEnv) (n : Nat) (g : Graph) (root : Nat)
    (source : ParameterSource) (aux : List Nat) :
    lowerRoot (env.withTextureResults n) g root source aux = lowerRoot env g root source aux :=
  @lowerRoot_congr env env.resolver env.resources env.options.compileConstants n g g source aux root
    (Graph.AgreesFrom.refl g [root]) (.refl env g [root])

theorem lowerBsdf_withTextureResults (env : LowerEnv) (n : Nat) (g : Graph)
    (kind : FunctionKind) (source : ParameterSource) (aux : List Nat) (id : Nat) :
    lowerBsdf (env.withTextureResults n) g kind source aux id
      = lowerBsdf env g kind source aux id :=
  @lowerBsdf_congr env env.resolver env.resources env.options.compileConstants n g g [id] source aux
    kind (Graph.AgreesFrom.refl g [id]) (.refl env g [id]) id (.root mem_cons_self)

/-- The value of an auxiliary fragment, which reads parameters in the block of the
distribution. -/
def AuxValue (env : LowerEnv) (I : Interpretation V) (pool : DataPool)
    (block : Option BlockBinding) (f : Fragment) (x : V) : Prop :=
  ∃ root more, f.rootNodes = root :: more ∧
    NodeValue env I pool f.graph (.ofBlock I block) root x

theorem AuxValue.unique {env : LowerEnv} {I : Interpretation V} {pool : DataPool}
    {block : Option BlockBinding} {f : Fragment} {x y : V} (hx : AuxValue env I pool block f x)
    (hy : AuxValue env I pool block f y) : x = y := by
  obtain ⟨root, more, hroots, hx⟩ := hx
  obtain ⟨root', more', hroots', hy⟩ := hy
  cases hroots.symm.trans hroots'
  exact hx.unique hy

namespace Assembly

/-- The auxiliary fragments whose values are kept in texture results, with their slots. -/
def cachedAux (n index : Nat) (fragments : List Fragment) : List (Fragment × Nat) :=
  (fragments.zipIdx index).filter fun f => (f.1.rootType? 0).any (isCached n f.2)

theorem cachedAux_cons (n index : Nat) (f : Fragment) (rest : List Fragment) :
    cachedAux n index (f :: rest)
      = (if (f.rootType? 0).any (isCached n index) then [(f, index)] else [])
        ++ cachedAux n (index + 1) rest := by
  unfold cachedAux
  rw [zipIdx_cons, filter_cons]
  split <;> rfl

section

variable {env : LowerEnv} {kind : FunctionKind} {source : ParameterSource} {index : Nat}
  {f : Fragment} {rest : List Fragment}

/-- The code of a root is right, and a texture result is read as it is. -/
theorem lowerAuxRoot_right {I : Interpretation V} {s : LowerState} (block : Option BlockBinding)
    (n : Nat) (g : Graph) (type : ValueType) (root : Nat) :
    Ensures (lowerAuxRoot (env.withTextureResults n) kind (BlockBinding.source block) index g
      type root) s fun id s' => s.Grows s' ∧ ∃ x, valueAt I s'.body id = some x ∧
        if isCached n index type ∧ kind ≠ .dfInit then
          x = I type.storage (.textureResult index) []
        else ∀ p, s'.pool.Grows p → NodeValue env I p g (.ofBlock I block) root x := by
  unfold lowerAuxRoot
  dsimp only
  change Ensures (if isCached n index type = true ∧ kind ≠ .dfInit then _ else _) s _
  split
  · refine (noteUsage_grows _ s).bind fun _ s₁ h₁ => ?_
    refine (emit_yields (I := I) HaveValues.nil).mono fun id s₂ h₂ => ?_
    exact ⟨h₁.trans h₂.1, _, h₂.2.2, rfl⟩
  · rw [lowerRoot_withTextureResults]
    refine (lowerRoot_right root (BlockBinding.source_provides I s.body block)
      (supplied_source g block s)).ensures.bind fun id s₁ h₁ => ?_
    obtain ⟨hsteps, x, hx, hnode⟩ := h₁
    have hgrows := hsteps.grows
    unfold noteCached
    split
    · refine (noteUsage_grows _ s₁).bind fun _ s₂ h₂ => .pure ?_
      exact ⟨hgrows.trans h₂, x, valueAt_of_extends_some h₂.body hx,
        fun p hp => hnode p (h₂.pool.trans hp)⟩
    · exact .pure ⟨hgrows, x, hx, hnode⟩

theorem noteCached_addsNoData (cached : Bool) (id : Nat) : AddsNoData (noteCached cached id) := by
  cases cached with
  | true => exact .bind (.noteUsage _) fun _ => .pure id
  | false => exact .pure id

/-- A second lowering asks for no data that the first one did not ask for. -/
theorem lowerAuxRoot_repeats {pass : Pass} (hkind : pass = .fresh → kind = .dfInit) (n : Nat)
    (g : Graph) (type : ValueType) (root : Nat) :
    RepeatsId pass (lowerAuxRoot env .dfInit source index g type root)
      (lowerAuxRoot (env.withTextureResults n) kind source index g type root) := by
  have hcode : ∀ b b' : Bool, RepeatsId pass (lowerRoot env g root source [] >>= noteCached b)
      (lowerRoot env g root source [] >>= noteCached b') := fun b b' =>
    (lowerRoot_repeats rfl root).bind fun id id' _ => .of_addsNoData
      (noteCached_addsNoData b id) (noteCached_addsNoData b' id') fun _ _ => trivial
  rw [lowerAuxRoot_init]
  unfold lowerAuxRoot
  dsimp only
  rw [lowerRoot_withTextureResults]
  split
  · rename_i hread
    cases pass with
    | fresh => exact absurd (hkind rfl) hread.2
    | again =>
      exact (hcode _ true).again_of_addsNoData (.bind (.noteUsage _) fun _ => .emit _ _)
        fun _ _ => trivial
  · exact hcode _ _

end

/-- An instruction that computes the value of an auxiliary fragment. -/
def AuxRight (env : LowerEnv) (I : Interpretation V) (block : Option BlockBinding)
    (s : LowerState) (f : Fragment) (id : Nat) : Prop :=
  ∃ x, valueAt I s.body id = some x ∧ ∀ p, s.pool.Grows p → AuxValue env I p block f x

/-- A store of the value of an auxiliary fragment into its slot. -/
def StoreRight (env : LowerEnv) (I : Interpretation V) (block : Option BlockBinding)
    (s : LowerState) (f : Fragment × Nat) (store : Nat × Nat) : Prop :=
  store.1 = f.2 ∧ AuxRight env I block s f.1 store.2

/-- The texture results hold the values of the auxiliary fragments that are cached. -/
def HoldsCached (env : LowerEnv) (I : Interpretation V) (pool : DataPool)
    (block : Option BlockBinding) (cached : List (Fragment × Nat)) : Prop :=
  ∀ f slot, (f, slot) ∈ cached → ∀ type, f.rootType? 0 = some type →
    AuxValue env I pool block f (I type.storage (.textureResult slot) [])

section

variable {env : LowerEnv} {I : Interpretation V} {kind : FunctionKind}

/-- The instructions of auxiliary fragments have their values, where those that are read
from texture results have to be there; the first entry point stores those that are
cached. -/
theorem lowerAux_right (block : Option BlockBinding) (n index : Nat) (fragments : List Fragment)
    {s : LowerState} :
    Ensures (lowerAux (env.withTextureResults n) kind (BlockBinding.source block) index
      fragments) s fun r s' => s.Grows s' ∧
        (∃ ys, HaveValues I s'.body r.results ys ∧ ∀ p, s'.pool.Grows p →
          (kind ≠ .dfInit → HoldsCached env I p block (cachedAux n index fragments)) →
          Forall₂ (AuxValue env I p block) fragments ys) ∧
        Forall₂ (StoreRight env I block s')
          (if kind = .dfInit then cachedAux n index fragments else []) r.stores := by
  induction fragments generalizing index s with
  | nil =>
    refine .pure ⟨LowerState.Grows.refl s, ⟨[], .nil, fun _ _ _ => .nil⟩, ?_⟩
    split <;> exact .nil
  | cons f rest ih =>
    cases htype : f.rootType? 0 with
    | none =>
      rw [lowerAux_of_untyped htype]
      exact .throw
    | some type =>
      obtain ⟨root, more, hroots⟩ := exists_root_of_type htype
      rw [lowerAux_cons htype hroots]
      refine (lowerAuxRoot_right (I := I) block n f.graph type root).bind
        fun id s₁ h₁ => ?_
      obtain ⟨hgrows₁, x, hx, hroot⟩ := h₁
      refine (ih (index + 1)).bind fun others s₂ h₂ => .pure ?_
      obtain ⟨hgrows₂, ⟨ys, hys, haux⟩, hstores⟩ := h₂
      have hx₂ := valueAt_of_extends_some hgrows₂.body hx
      have hcached : cachedAux n index (f :: rest)
          = (if isCached n index type then [(f, index)] else [])
            ++ cachedAux n (index + 1) rest := by
        rw [cachedAux_cons, htype]
        rfl
      rw [hcached]
      refine ⟨hgrows₁.trans hgrows₂, ⟨x :: ys, .cons hx₂ hys, fun p hp hholds => ?_⟩, ?_⟩
      · refine .cons ?_ (haux p hp fun hkind f' slot hmem =>
          hholds hkind f' slot (mem_append_right _ hmem))
        split at hroot
        · rename_i hread
          rw [hroot]
          refine hholds hread.2 f index ?_ type htype
          rw [if_pos hread.1]
          exact mem_append_left _ mem_cons_self
        · exact ⟨root, more, hroots, hroot p (hgrows₂.pool.trans hp)⟩
      · change Forall₂ _ _ ((if isCached n index type && decide (kind = .dfInit) then
          [(index, id)] else []) ++ others.stores)
        by_cases hkind : kind = .dfInit
        · rw [if_neg fun hread => hread.2 hkind] at hroot
          have hhead : AuxRight env I block s₂ f id :=
            ⟨x, hx₂, fun p hp => ⟨root, more, hroots, hroot p (hgrows₂.pool.trans hp)⟩⟩
          rw [if_pos hkind] at hstores ⊢
          cases isCached n index type with
          | true =>
            simp only [hkind, decide_true, Bool.and_true, if_true]
            exact .cons ⟨rfl, hhead⟩ hstores
          | false => exact hstores
        · rw [if_neg hkind] at hstores ⊢
          simpa only [hkind, decide_false, Bool.and_false, Bool.false_eq_true, if_false,
            nil_append] using hstores

/-- If the first entry point was lowered, auxiliary fragments can be lowered for any entry
point and any number of texture results, and ask for no other data. -/
theorem lowerAux_repeats {pass : Pass} (hkind : pass = .fresh → kind = .dfInit) (n : Nat)
    (source : ParameterSource) (index : Nat) (fragments : List Fragment) :
    Repeats pass (fun r r' => r.results.length = r'.results.length)
      (lowerAux env .dfInit source index fragments)
      (lowerAux (env.withTextureResults n) kind source index fragments) := by
  induction fragments generalizing index with
  | nil => exact .pure rfl
  | cons f rest ih =>
    cases htype : f.rootType? 0 with
    | none =>
      rw [lowerAux_of_untyped htype]
      exact .throw
    | some type =>
      obtain ⟨root, more, hroots⟩ := exists_root_of_type htype
      rw [lowerAux_cons htype hroots, lowerAux_cons htype hroots]
      refine (lowerAuxRoot_repeats hkind n f.graph type root).bind fun id id' _ => ?_
      exact (ih (index + 1)).bind fun _ _ hlen => .pure (congrArg Nat.succ hlen)

end

/-! ## Entry points -/

/-- What an entry point of a distribution returns. -/
def EntryValue (env : LowerEnv) (I : Interpretation V) (pool : DataPool)
    (block : Option BlockBinding) (d : Distribution) (kind : FunctionKind) (root : Nat) (x : V) :
    Prop :=
  ∃ ys, Forall₂ (AuxValue env I pool block) d.aux ys ∧
    BsdfValue env I pool d.main.graph kind { Scope.ofBlock I block with aux := ys } root x

section

variable {env : LowerEnv} {I : Interpretation V} {d : Distribution} {kind : FunctionKind}

theorem EntryValue.unique {pool : DataPool} {block : Option BlockBinding} {root : Nat} {x y : V}
    (hx : EntryValue env I pool block d kind root x)
    (hy : EntryValue env I pool block d kind root y) : x = y := by
  obtain ⟨ys, haux, hx⟩ := hx
  obtain ⟨ys', haux', hy⟩ := hy
  have hunique : Relator.RightUnique (AuxValue env I pool block) := fun _ _ _ => AuxValue.unique
  cases right_unique_forall₂' hunique haux haux'
  exact hx.unique hy

theorem source_provides_aux {body : Array Instr} (block : Option BlockBinding) {aux : List Nat}
    {ys : List V} (haux : HaveValues I body aux ys) :
    Provides I body (BlockBinding.source block) aux { Scope.ofBlock I block with aux := ys } := by
  cases block with
  | none => exact .none haux
  | some b => exact .argBlock haux

/-- The first entry point stores the values of the auxiliary fragments that are cached. -/
theorem lowerEntry_init_right (block : Option BlockBinding) (n root : Nat) {s : LowerState} :
    Ensures (lowerEntry (env.withTextureResults n) d root .dfInit (BlockBinding.source block)) s
      fun r s' => s.Grows s' ∧ r.results = [] ∧
        Forall₂ (StoreRight env I block s') (cachedAux n 0 d.aux) r.stores :=
  (lowerAux_right block n 0 d.aux).bind fun _ _ h => .pure ⟨h.1, rfl, h.2.2⟩

/-- The other entry points return the value of the distribution, if the texture results hold
what the first one stores. -/
theorem lowerEntry_right (hkind : kind ≠ .dfInit) (block : Option BlockBinding) (n root : Nat)
    {s : LowerState} :
    Ensures (lowerEntry (env.withTextureResults n) d root kind (BlockBinding.source block)) s
      fun r s' => s.Grows s' ∧ r.stores = [] ∧ ∃ id x, r.results = [id] ∧
        valueAt I s'.body id = some x ∧ ∀ p, s'.pool.Grows p →
          HoldsCached env I p block (cachedAux n 0 d.aux) →
          EntryValue env I p block d kind root x := by
  refine (lowerAux_right (I := I) block n 0 d.aux).bind fun aux s₁ h₁ => ?_
  obtain ⟨hgrows₁, ⟨ys, hys, haux⟩, _⟩ := h₁
  rw [if_neg hkind, lowerBsdf_withTextureResults]
  refine (lowerBsdf_right kind root (source_provides_aux block hys)
    (supplied_source d.main.graph block s₁)).ensures.bind fun id s₂ h₂ => .pure ?_
  obtain ⟨hsteps, x, hx, hvalue⟩ := h₂
  have hgrows₂ := hsteps.grows
  refine ⟨hgrows₁.trans hgrows₂, rfl, id, x, rfl, hx, fun p hp hholds => ?_⟩
  exact ⟨ys, haux p (hgrows₂.pool.trans hp) fun _ => hholds, hvalue p hp⟩

/-- The first entry point asks for the data of the auxiliary fragments. -/
theorem lowerEntry_init_repeats (n root : Nat) (source : ParameterSource) :
    Repeats .fresh (fun _ _ => True) (lowerEntry env d root .dfInit source)
      (lowerEntry (env.withTextureResults n) d root .dfInit source) :=
  (lowerAux_repeats (fun _ => rfl) n source 0 d.aux).bind fun _ _ _ => .pure trivial

end

end Assembly

end Shading
