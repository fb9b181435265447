import Shading.Proofs.Layout.Leaves

/-!
# Resources and strings in blocks

A resource stands in a block as its index, and a string as its id.  Whatever else a block holds,
both are read back from it.  They stand in structures and arrays only, and there is room for all
parts of these: what runs over its place are components of vectors, which are numbers.

A literal is packed unless its shape is not that of its place, or a string in it has no id.

Main definitions:

- `Value.isReference` tells which literals stand in a block as an integer of their own.
- `IndexResolver.handle?` is the integer that stands for a reference.

Main results:

- `Layout.hasRoomAlong_of_pack`: there is room for every reference that is packed.
- `Layout.holdsReference_of_pack`: packing writes the integers of all references in a literal.
- `Layout.readReference_of_fillPartial`: references are read back from the block of the
  parameters.
- `Layout.fillPartial_supported`: strings that have ids are no reason to leave out a parameter.
-/

namespace Shading

variable {v leaf : Value} {ref : ResourceRef} {used : Nat → Prop} {address offset i : Nat}
  {block block' : Bytes} {path : List Nat} {values : List Value}

/-! ## References -/

/-- Whether a literal is a string or a resource. -/
def Value.isReference : Value → Bool
  | .string _ => true
  | v => v.resource?.isSome

/-- What a block says of a reference for which an integer stands. -/
def Value.handleData (v : Value) (n : Nat) : LeafData :=
  match v.resource? with
  | some ref => .resource ref.kind (UInt32.ofNat n)
  | none => .string (UInt32.ofNat n)

/-- The integer that stands for a reference. -/
def IndexResolver.handle? (r : IndexResolver) : Value → Option Nat
  | .string s => r.stringIndex s
  | v => v.resource?.map r.resourceIndex

theorem IndexResolver.handle?_resource {r : IndexResolver} (h : v.resource? = some ref) :
    r.handle? v = some (r.resourceIndex ref) := by
  cases v <;> cases h <;> rfl

theorem Value.isReference_of_resource? (h : v.resource? = some ref) : v.isReference := by
  cases v <;> cases h <;> rfl

theorem Value.kind_isCompound_of_isReference (h : v.isReference) : v.kind.isCompound = false := by
  cases v <;> first | rfl | cases h

/-- References are no numbers. -/
theorem Value.kind_ne_of_isReference (h : v.isReference) (element : ScalarType) :
    v.kind ≠ (ValueType.ofScalar element).kind := by
  cases v with
  | string s | texture name shape | lightProfile name | bsdfMeasurement name =>
    cases element <;> nofun
  | _ => all_goals cases h

theorem LeafData.ofValue?_reference {r : IndexResolver} (h : v.isReference) {d : LeafData}
    (hd : ofValue? r v = some d) : ∃ n, r.handle? v = some n ∧ d = v.handleData n := by
  cases v with
  | string s =>
    obtain ⟨n, hn, rfl⟩ := Option.map_eq_some_iff.mp hd
    exact ⟨n, hn, rfl⟩
  | texture name shape | lightProfile name | bsdfMeasurement name =>
    cases hd
    exact ⟨_, rfl, rfl⟩
  | _ => all_goals cases h

namespace Layout

variable {l : Layout} {r : IndexResolver} {rules : LayoutRules}

variable {parameters : List Parameter}

/-! ## Reading back -/

/-- What is packed where a number belongs is no reference. -/
theorem isReference_eq_false_of_scalar {element : ScalarType}
    (hnodes : Represents l.nodes used ((ValueType.ofScalar element).shape rules) address offset)
    (hrun : (l.pack r v address).run block = (.ok (), block')) (hpart : v.part? path = some leaf) :
    leaf.isReference = false := by
  rw [ValueType.shape_ofScalar] at hnodes
  cases path with
  | nil =>
    cases hpart
    by_contra href
    rw [Bool.not_eq_false] at href
    rw [pack_leaf (Value.kind_isCompound_of_isReference href)] at hrun
    obtain ⟨n, bytes, hn, hkind, -, -⟩ := leafBytes_of_packLeaf hrun
    cases hnodes with
    | node here _ _ =>
      cases here.symm.trans hn
      exact Value.kind_ne_of_isReference href element hkind
  | cons k rest =>
    rw [Value.part?] at hpart
    split at hpart
    · rename_i part hchild
      obtain ⟨first, o, s, mid, mid', hpacked⟩ := exists_partPacked hnodes hrun hchild
      exact absurd hpacked.child (by simp)
    · cases hpart

/-- There is room for every reference in a literal that was packed. -/
theorem hasRoomAlong_of_pack {t : ValueType}
    (hnodes : Represents l.nodes used (t.shape rules) address offset)
    (hrun : (l.pack r v address).run block = (.ok (), block')) (hpart : v.part? path = some leaf)
    (href : leaf.isReference) : t.hasRoomAlong rules path := by
  induction path generalizing v t address offset block block' with
  | nil => rfl
  | cons k rest ih =>
    rw [Value.part?] at hpart
    split at hpart
    · rename_i part hchild
      rw [ValueType.shape_eq_node] at hnodes
      obtain ⟨first, o, s, mid, mid', hpacked⟩ := exists_partPacked hnodes hrun hchild
      obtain ⟨u, hu, rfl⟩ := ValueType.childType_of_shapeParts hpacked.child
      have hnode := hpacked.parts hpacked.child
      have hroom : t.hasRoomFor rules k := by
        cases t with
        | vector element count =>
          have hscalar : ValueType.ofScalar element = u :=
            (Option.ite_none_right_eq_some.mp hu).2 |> Option.some.inj
          rw [← hscalar] at hnode
          rw [isReference_eq_false_of_scalar hnode hpacked.here hpart] at href
          cases href
        | _ => all_goals rfl
      simp only [ValueType.hasRoomAlong, hu, hroom, Bool.true_and]
      exact ih hnode hpacked.here hpart
    · cases hpart

/-- A literal that was packed has the integers of all its references in the block. -/
theorem holdsReference_of_pack {t : ValueType}
    (hnodes : Represents l.nodes used (t.shape rules) address offset)
    (hrun : (l.pack r v address).run block = (.ok (), block')) (hpart : v.part? path = some leaf)
    (href : leaf.isReference) :
    ∃ n, r.handle? leaf = some n ∧
      l.Holds block' path address (leaf.handleData n) (offset + t.size rules) := by
  obtain ⟨d, hd, hholds⟩ := holds_of_pack (hasRoomAlong_of_pack hnodes hrun hpart href) hnodes
    hrun hpart (Value.kind_isCompound_of_isReference href)
  obtain ⟨n, hn, rfl⟩ := LeafData.ofValue?_reference href hd
  exact ⟨n, hn, hholds⟩

/-- The block of some parameters.  Every reference in a value that could be packed is read back
as the integer that it was resolved to. -/
theorem readReference_of_fillPartial
    (hbuild : build parameters rules = .ok l) (hv : values[i]? = some v)
    (hpacked : i ∉ (l.fillPartial r values block).1.map Prod.fst) (hpart : v.part? path = some leaf)
    (href : leaf.isReference) :
    ∃ n, r.handle? leaf = some n ∧
      l.readLeaf? (l.fillPartial r values block).2 (i :: path) root = some (leaf.handleData n) := by
  obtain ⟨p, address, offset, mid, mid', -, hp⟩ := exists_parameterPacked hbuild hv hpacked
  obtain ⟨n, hn, hholds⟩ := holdsReference_of_pack hp.nodes hp.packed hpart href
  exact ⟨n, hn, hp.readLeaf?_of_holds hholds⟩

/-- No parameter is left out for want of an id, if all strings among the values have ids. -/
theorem fillPartial_supported {rules : LayoutRules}
    (hbuild : build parameters rules = .ok l) (h : r.Resolves (Value.flattenAll values))
    (block : Bytes) {what : String} :
    (i, .unsupported what) ∉ (l.fillPartial r values block).1 := by
  obtain ⟨-, hnodes⟩ := represents_of_build hbuild
  have hfill : ∀ (values : List Value), r.Resolves (Value.flattenAll values) → ∀ index block,
      (i, .unsupported what) ∉ (l.fillPartialFrom r index values block).1 := by
    intro values
    induction values with
    | nil =>
      intro _ index block
      exact List.not_mem_nil
    | cons v rest ih =>
      intro h index block
      have hrest := ih (h.mono (List.subset_append_right _ _)) (index + 1)
      rw [fillPartialFrom]
      split
      · simpa using hrest block
      · rename_i address haddress
        obtain ⟨o, s, -, hnode⟩ := represents_of_child? hnodes haddress
        split
        · exact hrest _
        · rename_i e mid hset
          have he : e ≠ .unsupported what := by
            rintro rfl
            exact (pack_touches hnode v block).2 what (congrArg Prod.fst hset)
              (h.mono (List.subset_append_left _ _))
          have hrest := hrest (l.clear address mid)
          simpa [Ne.symm he] using hrest
  exact hfill values h 0 block

end Layout

end Shading
