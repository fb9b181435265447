import Shading.Proofs.Layout.Address

/-!
# Packing writes every literal in its place

Writing a literal at an address changes the range of its shape and nothing else.  The
parts of a literal have ranges that do not touch, so what was written for one part is
still there when the last part was written.

Main definitions:

- `Encodable` says that a literal has the parts of a shape and that its leaves have as
  many bytes as the shape has room for.
- `Stored` says that the leaves of a literal stand where the shape has them.

Main results:

- Theorem `encodable_of_conformsTo`: a literal of a type is encodable.
- Theorem `packAll_stored`: literals side by side are all stored.
- Theorem `Encodable.packsAs`: an encodable literal is packed without failure, and is
  stored then.
-/

namespace Shading

open List

variable {block block' bytes : Bytes} {offset address : Nat} {resolver : IndexResolver} {v : Value}
  {s : Shape} {values : List Value} {n : LayoutNode}

/-! ## Blocks of bytes -/

namespace Bytes

@[simp] theorem length_littleEndian (count n : Nat) : (littleEndian count n).length = count := by
  induction count generalizing n with
  | zero => rfl
  | succ count ih => rw [littleEndian, length_cons, ih]

/-- The bytes of a range. -/
def read (block : Bytes) (offset size : Nat) : Bytes :=
  (block.drop offset).take size

/-- Blocks that agree on a range have the same bytes there. -/
theorem read_congr {size : Nat}
    (h : ∀ {i : Nat}, offset ≤ i → i < offset + size → block'[i]? = block[i]?) :
    block'.read offset size = block.read offset size := by
  refine ext_getElem? fun i => ?_
  simp only [read, getElem?_take, getElem?_drop]
  split
  · exact h (Nat.le_add_right _ _) (by omega)
  · rfl

/-- Two blocks of one length that differ only where `range` holds. -/
structure ChangedOnly (range : Nat → Prop) (block block' : Bytes) : Prop where
  length_eq : block'.length = block.length
  outside : ∀ {i : Nat}, ¬ range i → block'[i]? = block[i]?

namespace ChangedOnly

theorem refl (range : Nat → Prop) (block : Bytes) : ChangedOnly range block block :=
  ⟨rfl, fun _ => rfl⟩

theorem trans {range : Nat → Prop} {a b c : Bytes} (hab : ChangedOnly range a b)
    (hbc : ChangedOnly range b c) : ChangedOnly range a c :=
  ⟨hbc.length_eq.trans hab.length_eq, fun hi => (hbc.outside hi).trans (hab.outside hi)⟩

theorem mono {range wider : Nat → Prop} {a b : Bytes} (h : ChangedOnly range a b)
    (hrange : ∀ {i : Nat}, range i → wider i) : ChangedOnly wider a b :=
  ⟨h.length_eq, fun hi => h.outside fun hr => hi (hrange hr)⟩

end ChangedOnly

/-- Bytes that fit can be written, and are read back. -/
theorem splice?_of_le (hfit : offset + bytes.length ≤ block.length) :
    ∃ block', block.splice? offset bytes = some block' ∧
      ChangedOnly (fun i => offset ≤ i ∧ i < offset + bytes.length) block block' ∧
      block'.read offset bytes.length = bytes := by
  have htake : (block.take offset).length = offset := by
    rw [length_take]
    omega
  refine ⟨_, if_pos hfit, ⟨?_, ?_⟩, ?_⟩
  · simp only [length_append, length_drop, htake]
    omega
  · intro i hi
    rcases Nat.lt_or_ge i offset with hlt | hge
    · rw [append_assoc, getElem?_append_left (by omega), getElem?_take, if_pos hlt]
    · have hpast : offset + bytes.length ≤ i := by omega
      rw [getElem?_append_right (by rw [length_append]; omega), getElem?_drop,
        length_append, htake]
      congr 1
      omega
  · rw [read, append_assoc, drop_append_of_le_length (by omega), drop_take_self,
      nil_append, take_left]

end Bytes

/-! ## Literals of a shape -/

/-- A literal with the parts of a shape, whose leaves have as many bytes as the shape has
room for. -/
inductive Encodable (resolver : IndexResolver) : Value → Shape → Prop
  | leaf {v : Value} {size : Nat} {bytes : Bytes} (hv : v.kind.isCompound = false)
      (hbytes : Layout.leafBytes resolver size v = .ok bytes) (hlength : bytes.length = size) :
      Encodable resolver v (.node v.kind size [])
  | parts {v : Value} {size : Nat} {children : List (Nat × Shape)}
      (hv : v.kind.isCompound = true) (hcount : v.children.length = children.length)
      (hparts : ∀ {k o : Nat} {part : Value} {s : Shape}, v.children[k]? = some part →
        children[k]? = some (o, s) → Encodable resolver part s) :
      Encodable resolver v (.node v.kind size children)

/-- A literal whose leaves stand where a shape at an offset has them. -/
inductive Stored (resolver : IndexResolver) (block : Bytes) : Value → Shape → (offset : Nat) → Prop
  | leaf {v : Value} {size offset : Nat} (hv : v.kind.isCompound = false)
      (hbytes : Layout.leafBytes resolver size v = .ok (block.read offset size)) :
      Stored resolver block v (.node v.kind size []) offset
  | parts {v : Value} {size offset : Nat} {children : List (Nat × Shape)}
      (hv : v.kind.isCompound = true) (hcount : v.children.length = children.length)
      (hparts : ∀ {k o : Nat} {part : Value} {s : Shape}, v.children[k]? = some part →
        children[k]? = some (o, s) → Stored resolver block part s (offset + o)) :
      Stored resolver block v (.node v.kind size children) offset

/-- A stored literal stays stored while its range stays as it is. -/
theorem Stored.of_eq (h : Stored resolver block v s offset) (hs : s.Fits)
    (hsame : ∀ {i : Nat}, offset ≤ i → i < offset + s.size → block'[i]? = block[i]?) :
    Stored resolver block' v s offset := by
  induction h with
  | leaf hv hbytes =>
    simp only [Shape.size_node] at hsame
    exact .leaf hv (by rw [hbytes, Bytes.read_congr hsame])
  | parts hv hcount _ ih =>
    simp only [Shape.size_node] at hsame
    cases hs with
    | node apart fits =>
      refine .parts hv hcount fun hpart hk => ih hpart hk (fits hk) fun hle hlt => ?_
      have hinside := apart.inside hk
      exact hsame (by omega) (by omega)

/-! ## Literals of a type -/

/-- The strings among the literals have ids. -/
def IndexResolver.Resolves (resolver : IndexResolver) (literals : List Value) : Prop :=
  ∀ text, .string text ∈ literals → ∃ id, resolver.stringIndex text = some id

theorem IndexResolver.Resolves.mono {literals fewer : List Value} (h : resolver.Resolves literals)
    (hfewer : fewer ⊆ literals) : resolver.Resolves fewer :=
  fun text htext => h text (hfewer htext)

theorem encodable_word {word : UInt32} (hv : v.kind.isCompound = false)
    (hbytes : Layout.leafBytes resolver 4 v = .ok (Bytes.ofWord32 word)) :
    Encodable resolver v (.node v.kind 4 []) :=
  .leaf hv hbytes (Bytes.length_littleEndian 4 _)

theorem encodable_bool (resolver : IndexResolver) (rules : LayoutRules) (b : Bool) :
    Encodable resolver (.bool b) (.node .bool (ValueType.bool.size rules) []) := by
  cases rules with
  | scalar => exact Encodable.leaf rfl rfl rfl
  | gpuStorage => exact encodable_word rfl rfl

theorem encodable_resource {ref : ResourceRef} (hv : v.resource? = some ref) :
    Encodable resolver v (.node v.kind 4 []) := by
  cases v with
  | texture | lightProfile | bsdfMeasurement => exact encodable_word rfl rfl
  | _ => cases hv

/-- Literals of one shape are encodable at any offsets. -/
theorem encodable_strided {size count : Nat} {offset : Nat → Nat} (hv : v.kind.isCompound = true)
    (hcount : v.children.length = count) (hparts : ∀ part ∈ v.children, Encodable resolver part s) :
    Encodable resolver v
      (.node v.kind size (((List.range count).map offset).map fun o => (o, s))) := by
  refine .parts hv (by simp [hcount]) fun hpart hk => ?_
  obtain ⟨o, _, heq⟩ := Option.map_eq_some_iff.mp (getElem?_map.symm.trans hk)
  have hs := congrArg Prod.snd heq
  dsimp only at hs
  exact hs ▸ hparts _ (mem_of_getElem? hpart)

theorem encodable_struct {rules : LayoutRules} {types : List ValueType}
    (hcount : values.length = types.length)
    (hvalues : ∀ {k : Nat} {v : Value} {t : ValueType}, values[k]? = some v →
      types[k]? = some t → Encodable resolver v (t.shape rules)) :
    Encodable resolver (.struct values) (ValueType.structShape rules types) := by
  refine .parts rfl ?_ fun hpart hk => ?_
  · rw [ValueType.length_structParts]
    exact hcount
  · have hshape := (getElem?_zip_eq_some.mp hk).2
    obtain ⟨t, ht, rfl⟩ := Option.map_eq_some_iff.mp (getElem?_map.symm.trans hshape)
    exact hvalues hpart ht

mutual

variable {resolver : IndexResolver} {rules : LayoutRules}

/-- A literal of a type is encodable in the shape of the type. -/
theorem encodable_of_conformsTo (v : Value) (t : ValueType) (hv : v.conformsTo t = true)
    (hstrings : resolver.Resolves v.flatten) : Encodable resolver v (t.shape rules) := by
  cases v with
  | bool b => cases t <;> first | exact encodable_bool resolver rules b | cases hv
  | int n | enum n | float x => cases t <;> first | exact encodable_word rfl rfl | cases hv
  | double x => cases t <;> first | exact .leaf rfl rfl (Bytes.length_littleEndian 8 _) | cases hv
  | string text =>
    obtain ⟨id, hid⟩ := hstrings text (mem_singleton_self _)
    have hbytes : Layout.leafBytes resolver 4 (.string text) = .ok (Layout.wordBytes id) := by
      simp only [Layout.leafBytes, hid]
    cases t <;> first | exact encodable_word rfl hbytes | cases hv
  | texture name shape | lightProfile name | bsdfMeasurement name =>
    cases t <;> first | exact encodable_resource rfl | cases hv
  | color r g b =>
    cases t with
    | color =>
      change Encodable resolver (.color r g b) (.node .color _
        (((List.range 3).map fun i => i * 4).map fun o => (o, .node .float 4 [])))
      refine encodable_strided rfl rfl fun part hpart => ?_
      simp only [Value.children, mem_cons, not_mem_nil, or_false] at hpart
      rcases hpart with rfl | rfl | rfl <;> exact encodable_word rfl rfl
    | _ => cases hv
  | vector parts =>
    cases t with
    | vector element count =>
      rw [Value.conformsTo, Bool.and_eq_true, beq_iff_eq] at hv
      have hscalar : (ValueType.ofScalar element).shape rules =
          .node (ValueType.ofScalar element).kind (rules.scalarExtent element).size [] := by
        cases element <;> rfl
      refine encodable_strided rfl hv.1 fun part hpart => ?_
      rw [← hscalar]
      exact encodable_of_allConformTo parts _ hv.2
        (hstrings.mono (subset_cons_self _ _)) part hpart
    | _ => cases hv
  | matrix parts =>
    cases t with
    | matrix columns rows =>
      rw [Value.conformsTo, Bool.and_eq_true, beq_iff_eq] at hv
      exact encodable_strided rfl hv.1
        (encodable_of_allConformTo parts (.vector .float rows) hv.2
          (hstrings.mono (subset_cons_self _ _)))
    | _ => cases hv
  | array parts =>
    cases t with
    | array element count =>
      rw [Value.conformsTo, Bool.and_eq_true, beq_iff_eq] at hv
      exact encodable_strided rfl hv.1
        (encodable_of_allConformTo parts element hv.2
          (hstrings.mono (subset_cons_self _ _)))
    | _ => cases hv
  | struct parts =>
    cases t with
    | struct name fields =>
      rw [Value.conformsTo] at hv
      obtain ⟨hcount, hparts⟩ := encodable_of_eachConformsTo parts fields hv
        (hstrings.mono (subset_cons_self _ _))
      rw [ValueType.shape_struct]
      exact encodable_struct (by rw [hcount, length_map]) hparts
    | _ => cases hv

theorem encodable_of_allConformTo
    (parts : List Value) (t : ValueType) (hparts : Value.allConformTo parts t = true)
    (hstrings : resolver.Resolves (Value.flattenAll parts)) :
    ∀ part ∈ parts, Encodable resolver part (t.shape rules) := by
  cases parts with
  | nil =>
    intro part hpart
    cases hpart
  | cons v rest =>
    rw [Value.allConformTo, Bool.and_eq_true] at hparts
    intro part hpart
    rcases mem_cons.mp hpart with heq | hpart
    · rw [heq]
      exact encodable_of_conformsTo v t hparts.1
        (hstrings.mono (subset_append_left _ _))
    · exact encodable_of_allConformTo rest t hparts.2
        (hstrings.mono (subset_append_right _ _)) part hpart

theorem encodable_of_eachConformsTo (parts : List Value) (fields : List (String × ValueType))
    (hparts : Value.eachConformsTo parts fields = true)
    (hstrings : resolver.Resolves (Value.flattenAll parts)) :
    parts.length = fields.length ∧ ∀ {k : Nat} {part : Value} {t : ValueType},
      parts[k]? = some part → (fields.map Prod.snd)[k]? = some t →
        Encodable resolver part (t.shape rules) := by
  cases parts with
  | nil =>
    cases fields with
    | nil => exact ⟨rfl, fun hpart => absurd hpart (by simp)⟩
    | cons f fields => cases hparts
  | cons v rest =>
    cases fields with
    | nil => cases hparts
    | cons f fields =>
      rw [Value.eachConformsTo, Bool.and_eq_true] at hparts
      obtain ⟨hcount, hrest⟩ := encodable_of_eachConformsTo rest fields hparts.2
        (hstrings.mono (subset_append_right _ _))
      refine ⟨congrArg Nat.succ hcount, fun {k part t} hpart ht => ?_⟩
      cases k with
      | zero =>
        cases hpart
        cases ht
        exact encodable_of_conformsTo v f.2 hparts.1
          (hstrings.mono (subset_append_left _ _))
      | succ k => exact hrest hpart ht

end

/-! ## Writing -/

namespace Layout

variable {l : Layout} {resolver : IndexResolver}

theorem run_bind_ok {α β : Type} {x : PackM α} {f : α → PackM β} {a : α}
    (hx : x.run block = (.ok a, block')) : (x >>= f).run block = (f a).run block' := by
  change ExceptT.bindCont f (x.run block).1 (x.run block).2 = _
  rw [hx]
  rfl

theorem nodeFor_eq_ok {kind : ValueKind} (hn : l.nodes[address]? = some n) (hkind : kind = n.kind) :
    l.nodeFor kind address = .ok n := by
  rw [nodeFor, hn]
  exact if_pos hkind

theorem writeBytes_run (h : block.splice? offset bytes = some block') :
    (writeBytes offset bytes).run block = (.ok (), block') := by
  rw [writeBytes]
  refine (run_bind_ok (a := block) rfl).trans ?_
  rw [h]
  rfl

theorem packLeaf_run (hn : l.nodeFor v.kind address = .ok n)
    (hbytes : leafBytes resolver n.size v = .ok bytes)
    (hsplice : block.splice? n.offset bytes = some block') :
    (l.packLeaf resolver v address).run block = (.ok (), block') := by
  rw [packLeaf, hn]
  refine (run_bind_ok (a := n) rfl).trans ?_
  rw [hbytes]
  exact (run_bind_ok (a := bytes) rfl).trans (writeBytes_run hsplice)

theorem pack_leaf (hv : v.kind.isCompound = false) (address : Nat) :
    l.pack resolver v address = l.packLeaf resolver v address := by
  cases v <;> first | rfl | cases hv

/-- Compound literals are all written in the same way. -/
theorem pack_compound (hv : v.kind.isCompound = true) (address : Nat) :
    l.pack resolver v address = (do
      let n ← l.nodeFor v.kind address
      checkCount n v.children.length
      l.packAll resolver v.children n.firstChild) := by
  cases v with
  | vector parts | matrix parts | array parts | struct parts =>
    rw [pack]
    rfl
  | color r g b =>
    rw [pack]
    simp only [Value.children, packAll, pack, bind_pure_unit]
    rfl
  | _ => cases hv

theorem pack_compound_run (hv : v.kind.isCompound = true) (hn : l.nodeFor v.kind address = .ok n)
    (hcount : v.children.length = n.childCount) :
    (l.pack resolver v address).run block =
      (l.packAll resolver v.children n.firstChild).run block := by
  rw [pack_compound hv, hn]
  refine (run_bind_ok rfl).trans ?_
  rw [checkCount, if_pos hcount]
  exact run_bind_ok rfl

/-- What packing a literal of a shape does wherever the layout has the shape. -/
def PacksAs (l : Layout) (resolver : IndexResolver) (v : Value) (s : Shape) : Prop :=
  ∀ {used : Nat → Prop} {address offset : Nat} {block : Bytes},
    Represents l.nodes used s address offset → offset + s.size ≤ block.length →
    ∃ block', (l.pack resolver v address).run block = (.ok (), block') ∧
      Bytes.ChangedOnly (fun i => offset ≤ i ∧ i < offset + s.size) block block' ∧
      Stored resolver block' v s offset

/-- Literals that are to be written into nodes side by side, each one in its shape. -/
structure Row (l : Layout) (resolver : IndexResolver) (used : Nat → Prop) (values : List Value)
    (children : List (Nat × Shape)) (first base : Nat) : Prop where
  count : values.length = children.length
  packs : ∀ {k o : Nat} {v : Value} {s : Shape}, values[k]? = some v →
    children[k]? = some (o, s) → PacksAs l resolver v s
  fits : ∀ {k o : Nat} {s : Shape}, children[k]? = some (o, s) → s.Fits
  nodes : ∀ {k o : Nat} {s : Shape}, children[k]? = some (o, s) →
    Represents l.nodes used s (first + k) (base + o)

theorem Row.tail {used : Nat → Prop} {c : Nat × Shape} {children : List (Nat × Shape)}
    {first base : Nat} (h : Row l resolver used (v :: values) (c :: children) first base) :
    Row l resolver used values children (first + 1) base where
  count := Nat.succ.inj h.count
  packs := fun hv hk =>
    h.packs (getElem?_cons_succ.trans hv) (getElem?_cons_succ.trans hk)
  fits := fun hk => h.fits (getElem?_cons_succ.trans hk)
  nodes := fun {k _ _} hk => by
    rw [Nat.add_assoc, Nat.add_comm 1 k]
    exact h.nodes (getElem?_cons_succ.trans hk)

/-- Literals that are written side by side are all stored: a later one has no byte in
common with an earlier one. -/
theorem packAll_stored {used : Nat → Prop} {children : List (Nat × Shape)} {first base room : Nat}
    (hrow : Row l resolver used values children first base) (hapart : Apart room children)
    (hroom : base + room ≤ block.length) :
    ∃ block', (l.packAll resolver values first).run block = (.ok (), block') ∧
      Bytes.ChangedOnly (fun i => ∃ (k o : Nat) (s : Shape), children[k]? = some (o, s) ∧
        base + o ≤ i ∧ i < base + o + s.size) block block' ∧
      ∀ {k o : Nat} {v : Value} {s : Shape}, values[k]? = some v → children[k]? = some (o, s) →
        Stored resolver block' v s (base + o) := by
  induction values generalizing children first block with
  | nil => exact ⟨block, rfl, .refl _ _, fun hv => absurd hv (by simp)⟩
  | cons v values ih =>
    obtain _ | ⟨⟨o, s⟩, children⟩ := children
    · cases hrow.count
    have hzero : ((o, s) :: children)[0]? = some (o, s) := rfl
    have hinside := hapart.inside hzero
    have hfit : base + o + s.size ≤ block.length := by omega
    obtain ⟨mid, hrun, hchanged, hstored⟩ := hrow.packs rfl hzero (hrow.nodes hzero) hfit
    have hlength := hchanged.length_eq
    obtain ⟨after, hrest, hchanged', hstored'⟩ := ih hrow.tail hapart.tail (hlength ▸ hroom)
    refine ⟨after, (run_bind_ok hrun).trans hrest, ?_, fun {k o' v' s'} hv hk => ?_⟩
    · refine (hchanged.mono fun hi => ⟨0, o, s, hzero, hi⟩).trans (hchanged'.mono ?_)
      rintro i ⟨k, o', s', hk, hi⟩
      exact ⟨k + 1, o', s', hk, hi⟩
    · cases k with
      | zero =>
        cases hv
        cases hk
        -- The ranges that are written later start behind this one.
        refine hstored.of_eq (hrow.fits hzero) fun {i} hle hlt => hchanged'.outside ?_
        rintro ⟨k, o', s', hk, hi⟩
        have hordered := hapart.ordered (Nat.succ_pos k) hzero
          (getElem?_cons_succ.trans hk)
        omega
      | succ k => exact hstored' hv hk

end Layout

/-- An encodable literal is packed without failure wherever the layout has its shape, and is
stored then. -/
theorem Encodable.packsAs {l : Layout} (h : Encodable resolver v s) (hs : s.Fits) :
    l.PacksAs resolver v s := by
  -- Not by induction on the literal: the parts of a color are no subterms of it.
  induction h with
  | @leaf v size bytes hv hbytes hlength =>
    intro used address offset block hnodes hfit
    cases hnodes with
    | node here _ _ =>
      have hfit' : offset + bytes.length ≤ block.length := hlength ▸ hfit
      obtain ⟨block', hsplice, hchanged, hread⟩ := Bytes.splice?_of_le hfit'
      rw [hlength] at hchanged hread
      refine ⟨block', ?_, hchanged, .leaf hv (by rw [hbytes, hread])⟩
      rw [Layout.pack_leaf hv]
      exact Layout.packLeaf_run (Layout.nodeFor_eq_ok here rfl) hbytes hsplice
  | @parts v size children hv hcount _ ih =>
    intro used address offset block hnodes hfit
    cases hs with
    | node apart fits =>
      cases hnodes with
      | node here _ parts =>
        obtain ⟨block', hrun, hchanged, hstored⟩ := Layout.packAll_stored
          ⟨hcount, fun hpart hk => ih hpart hk (fits hk), fits, parts⟩ apart hfit
        refine ⟨block', ?_, hchanged.mono ?_, .parts hv hcount hstored⟩
        · rw [Layout.pack_compound_run hv (Layout.nodeFor_eq_ok here rfl) hcount]
          exact hrun
        · rintro i ⟨k, o, s, hk, hi⟩
          have hinside := apart.inside hk
          change offset ≤ i ∧ i < offset + size
          omega

end Shading
