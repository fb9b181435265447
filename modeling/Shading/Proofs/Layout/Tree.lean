import Shading.Proofs.Layout.Regions

/-!
# The tree of a layout

The nodes of a layout stand in one flat list.  While a shape is placed, the nodes of its
parts are reserved first and filled later, and what lies below a part goes behind everything
that is there by then.  Therefore the parts of a node stand in a window of their own, behind
the node, and no two windows overlap.  So every node is part of one node only, and two paths
never lead to one address.

Main definitions:

- `Layout.TreeOf` says that the nodes of a layout form the tree of a type.

Main results:

- Theorems `Windowed.child?_inj` and `Windowed.address?_inj`: parts and paths are told apart
  by their addresses.
- Theorem `layout_addresses_follow_types`: layouts form the trees of their parameters.
-/

namespace Shading

open List

variable {k address next : Nat} {rules : LayoutRules} {t : ValueType}

/-! ## Parts and paths -/

section

variable {l : Layout} {low : Nat}

/-- A part stands behind its node, at an address of the layout. -/
theorem Windowed.lt_of_child? (h : Windowed l.nodes (fun _ => True) low l.nodes.size)
    (hnext : l.child? k address = some next) : address < next ∧ next < l.nodes.size := by
  obtain ⟨n, hn, hk, rfl⟩ := Layout.child?_eq_some_iff.mp hnext
  have hwithin := h.within trivial hn hk
  exact ⟨hwithin.1, hwithin.2.2⟩

/-- A node is one part of one node. -/
theorem Windowed.child?_inj (h : Windowed l.nodes (fun _ => True) low l.nodes.size)
    {j address' : Nat} (hnext : l.child? j address = some next)
    (hnext' : l.child? k address' = some next) : address = address' ∧ j = k := by
  obtain ⟨n, hn, hj, rfl⟩ := Layout.child?_eq_some_iff.mp hnext
  obtain ⟨n', hn', hk, heq⟩ := Layout.child?_eq_some_iff.mp hnext'
  have hsame := h.single trivial trivial hn hn' hj hk heq.symm
  rw [hsame] at hn
  cases hn.symm.trans hn'
  exact ⟨hsame, by omega⟩

/-- A path that leads somewhere and goes on does not lead to the root. -/
theorem Windowed.address?_concat_ne_root
    (h : Windowed l.nodes (fun _ => True) low l.nodes.size) (path : List Nat) (k : Nat) :
    l.address? (path ++ [k]) Layout.root ≠ some Layout.root := by
  intro hroot
  rw [Layout.address?_concat] at hroot
  obtain ⟨address, -, hchild⟩ := Option.bind_eq_some_iff.mp hroot
  exact absurd (h.lt_of_child? hchild).1 (Nat.not_lt_zero address)

/-- Different paths lead to different addresses. -/
theorem Windowed.address?_inj (h : Windowed l.nodes (fun _ => True) low l.nodes.size)
    {path path' : List Nat} (hpath : l.address? path Layout.root = some address)
    (hpath' : l.address? path' Layout.root = some address) : path = path' := by
  -- From the end: the last steps agree, because a node is one part of one node.
  induction path using List.reverseRecOn generalizing path' address with
  | nil =>
    cases hpath
    rcases eq_nil_or_concat path' with rfl | ⟨front, k, rfl⟩
    · rfl
    · rw [concat_eq_append] at hpath'
      exact absurd hpath' (h.address?_concat_ne_root front k)
  | append_singleton path j ih =>
    rcases eq_nil_or_concat path' with rfl | ⟨front, k, rfl⟩
    · cases hpath'
      exact absurd hpath (h.address?_concat_ne_root path j)
    · rw [concat_eq_append] at hpath' ⊢
      rw [Layout.address?_concat] at hpath hpath'
      obtain ⟨parent, hparent, hchild⟩ := Option.bind_eq_some_iff.mp hpath
      obtain ⟨parent', hparent', hchild'⟩ := Option.bind_eq_some_iff.mp hpath'
      obtain ⟨rfl, rfl⟩ := h.child?_inj hchild hchild'
      rw [ih hparent hparent']

end

/-! ## Types without distributions -/

namespace ValueType

theorem distributionField?_eq_none_iff {fields : List (String × ValueType)} :
    distributionField? fields = none ↔ ∀ f ∈ fields, f.2.distribution? = none := by
  induction fields with
  | nil => simp [distributionField?]
  | cons f rest ih =>
    rw [distributionField?, forall_mem_cons, ← ih]
    cases f.2.distribution? <;> simp

/-- A part of a type without distributions has none. -/
theorem distribution?_of_childType {u : ValueType} (ht : t.distribution? = none)
    (hu : t.childType k = some u) : u.distribution? = none := by
  cases t with
  | vector element count =>
    obtain ⟨-, rfl⟩ : k < count ∧ ofScalar element = u := by
      simpa [childType] using hu
    cases element <;> rfl
  | matrix columns rows =>
    obtain ⟨-, rfl⟩ : k < columns ∧ .vector .float rows = u := by
      simpa [childType] using hu
    rfl
  | color =>
    obtain ⟨-, rfl⟩ : k < 3 ∧ .float = u := by
      simpa [childType] using hu
    rfl
  | array element count =>
    obtain ⟨-, rfl⟩ : k < count ∧ element = u := by
      simpa [childType] using hu
    exact ht
  | struct name fields =>
    obtain ⟨f, hf, rfl⟩ := Option.map_eq_some_iff.mp hu
    exact distributionField?_eq_none_iff.mp ht f (mem_of_getElem? hf)
  | _ => cases hu

theorem distribution?_of_part? {u : ValueType} {path : List Nat} (ht : t.distribution? = none)
    (hu : t.part? path = some u) : u.distribution? = none := by
  induction path generalizing t with
  | nil =>
    cases hu
    exact ht
  | cons k path ih =>
    rw [part?] at hu
    split at hu
    · rename_i part hpart
      exact ih (distribution?_of_childType ht hpart) hu
    · cases hu

end ValueType

/-! ## Layouts of parameters -/

namespace Layout

/-- The nodes of a layout form the tree of a type, and its addresses are the paths through
the type. -/
structure TreeOf (l : Layout) (rules : LayoutRules) (block : ValueType) : Prop where
  /-- Every node but the root is one part of one node, and the root is part of none. -/
  parent : ∀ {address : Nat}, address < l.nodes.size → address ≠ root →
    ∃ above k, l.child? k above = some address ∧
      ∀ above' k', l.child? k' above' = some address → above' = above ∧ k' = k
  top : ∀ {above k : Nat}, l.child? k above ≠ some root
  /-- Every node is reached from the root, and was filled. -/
  reached : ∀ {address : Nat}, address < l.nodes.size → l.Reaches root address
  filled : ∀ {address : Nat}, l.nodes[address]? ≠ some .placeholder
  /-- A path leads to an address exactly if it leads through the type. -/
  valid : ∀ {path : List Nat},
    (∃ address, l.address? path root = some address) ↔ ∃ t, block.part? path = some t
  /-- At the address are the kind and the size of the type, the sum of the offsets on the
  way, and the number of its parts. -/
  described : ∀ {path : List Nat} {address : Nat} {t : ValueType},
    l.address? path root = some address → block.part? path = some t →
      ∃ e o, t.extent? rules = .ok e ∧ block.partOffset? rules path = some o ∧
        l.entry? address = some ⟨t.kind, e.size, o⟩ ∧ l.elementCount address = t.childCount
  /-- Different paths lead to different addresses. -/
  distinct : ∀ {path path' : List Nat} {address : Nat}, l.address? path root = some address →
    l.address? path' root = some address → path = path'

/-- No type has the size of a placeholder and its kind. -/
theorem ne_placeholder_of_described {l : Layout} {o : Nat}
    (h : l.entry? address = some ⟨t.kind, t.size rules, o⟩) :
    l.nodes[address]? ≠ some .placeholder := by
  intro hplaceholder
  rw [Layout.entry?, hplaceholder] at h
  simp only [Option.map_some, LayoutNode.placeholder, Option.some.injEq, LayoutEntry.mk.injEq] at h
  cases t with
  | int => simp [ValueType.size, ValueType.extent] at h
  | _ => all_goals exact absurd h.1 (by simp [ValueType.kind])

/-- Nodes that represent a type and stand in windows form its tree. -/
theorem treeOf_of_represents {l : Layout} {block : ValueType}
    (hreached : ∀ {address : Nat}, address < l.nodes.size → l.Reaches root address)
    (hwindowed : Windowed l.nodes (fun _ => True) 1 l.nodes.size)
    (hblock : Represents l.nodes (fun _ => True) (block.shape rules) root 0)
    (hstorable : block.distribution? = none) : l.TreeOf rules block := by
  have hentry : ∀ {path : List Nat} {address : Nat} {t : ValueType},
      l.address? path root = some address → block.part? path = some t →
        ∃ o, block.partOffset? rules path = some o ∧
          l.entry? address = some ⟨t.kind, t.size rules, o⟩ ∧
          l.elementCount address = t.childCount := by
    intro path address t haddress ht
    obtain ⟨o, last, ho, hlast, hnode⟩ := hblock.walk ht
    cases haddress.symm.trans hlast
    rw [ValueType.shape_eq_node, Nat.zero_add] at hnode
    exact ⟨o, ho, hnode.entry?,
      hnode.elementCount.trans (ValueType.length_shapeParts rules t)⟩
  constructor
  case parent =>
    intro address haddress hroot
    obtain ⟨path, hpath⟩ := hreached haddress
    rcases eq_nil_or_concat path with rfl | ⟨front, k, rfl⟩
    · cases hpath
      exact absurd rfl hroot
    · rw [concat_eq_append, address?_concat] at hpath
      obtain ⟨above, -, hchild⟩ := Option.bind_eq_some_iff.mp hpath
      exact ⟨above, k, hchild, fun above' k' hchild' => hwindowed.child?_inj hchild' hchild⟩
  case top =>
    intro above k hchild
    exact absurd (hwindowed.lt_of_child? hchild).1 (Nat.not_lt_zero above)
  case reached =>
    exact hreached
  case filled =>
    intro address hplaceholder
    obtain ⟨path, hpath⟩ := hreached (Array.getElem?_eq_some_iff.mp hplaceholder).1
    obtain ⟨t, ht⟩ := hblock.part?_of_address? hpath
    obtain ⟨o, -, he, -⟩ := hentry hpath ht
    exact ne_placeholder_of_described he hplaceholder
  case valid =>
    intro path
    constructor
    · rintro ⟨address, haddress⟩
      exact hblock.part?_of_address? haddress
    · rintro ⟨t, ht⟩
      obtain ⟨-, address, -, haddress, -⟩ := hblock.walk ht
      exact ⟨address, haddress⟩
  case described =>
    intro path address t haddress ht
    obtain ⟨o, ho, he, hcount⟩ := hentry haddress ht
    refine ⟨t.extent rules, o, ?_, ho, he, hcount⟩
    rw [ValueType.extent?, ValueType.distribution?_of_part? hstorable ht]
  case distinct =>
    intro path path' address hpath hpath'
    exact hwindowed.address?_inj hpath hpath'

end Layout

/-- Parameters without distributions have a layout, whose nodes form the tree of the block.
A path of part numbers leads to an address exactly if it leads through the types of the
parameters, and the address tells the kind, the size, the offset and the number of parts of
the type that the path leads to. -/
theorem layout_addresses_follow_types {parameters : List Parameter} (rules : LayoutRules)
    (hstorable : ∀ p ∈ parameters, p.type.distribution? = none) :
    ∃ layout, Layout.build parameters rules = .ok layout ∧
      layout.TreeOf rules (blockType parameters) := by
  obtain ⟨layout, hbuild, hnodes⟩ := Layout.represents_build rules hstorable
  have hblock : (blockType parameters).distribution? = none := by
    rw [blockType, ValueType.distribution?, ValueType.distributionField?_eq_none_iff]
    intro f hf
    obtain ⟨p, hp, rfl⟩ := mem_map.mp hf
    exact hstorable p hp
  rw [← shape_blockType] at hnodes
  exact ⟨layout, hbuild, Layout.treeOf_of_represents (Layout.exists_address?_of_build hbuild)
    (Layout.windowed_of_build hbuild) hnodes hblock⟩

/-- A layer with a weight and two offsets, and a switch after it. -/
def varnishLayer : List Parameter :=
  [⟨"layer",
    .struct "layer" [("weight", .float), ("offsets", .array (.vector .float 2) 2)], .struct []⟩,
   ⟨"visible", .bool, .bool true⟩]

/-- The second coordinate of the second offset is found, and there is no third offset. -/
theorem layout_addresses_follow_types_varnishLayer :
    (∀ p ∈ varnishLayer, p.type.distribution? = none) ∧
      ∃ layout, Layout.build varnishLayer .scalar = .ok layout ∧
        layout.TreeOf .scalar (blockType varnishLayer) ∧
        (∃ address, layout.address? [0, 1, 1, 1] Layout.root = some address ∧
          layout.entry? address = some ⟨.float, 4, 16⟩) ∧
        ¬ ∃ address, layout.address? [0, 1, 2] Layout.root = some address := by
  have hstorable : ∀ p ∈ varnishLayer, p.type.distribution? = none := by decide
  obtain ⟨layout, hbuild, htree⟩ := layout_addresses_follow_types .scalar hstorable
  have hpart : (blockType varnishLayer).part? [0, 1, 1, 1] = some .float := rfl
  obtain ⟨address, haddress⟩ := htree.valid.mpr ⟨_, hpart⟩
  obtain ⟨e, o, he, ho, hentry, -⟩ := htree.described haddress hpart
  cases he
  cases ho
  refine ⟨hstorable, layout, hbuild, htree, ⟨address, haddress, hentry⟩, ?_⟩
  rw [htree.valid]
  rintro ⟨t, ht⟩
  cases ht

end Shading
