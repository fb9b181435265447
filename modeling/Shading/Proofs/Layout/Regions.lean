import Shading.Layout.Words
import Shading.Proofs.Layout.Alignment

/-!
# Regions of a layout

The node at an address of a layout takes a range of bytes.  The ranges form a tree: a part
lies inside the whole, parts of one whole lie one after the other, and so any two ranges
are disjoint unless one is part of the other.

Main definitions:

- `LayoutEntry.Contains` and `LayoutEntry.Before` compare ranges.
- `Layout.Nested` says that the ranges of a layout form the tree of a type.

Main results:

- Theorems `Shape.Fits.contains` and `Shape.Fits.separate`: where parts fit, descendants lie
  inside and strangers lie apart.
- Theorem `layout_ranges_are_nested`: this holds of the layouts of parameters.
-/

namespace Shading

open List

namespace LayoutEntry

/-- One range lies inside another. -/
def Contains (outer inner : LayoutEntry) : Prop :=
  outer.offset ≤ inner.offset ∧ inner.offset + inner.size ≤ outer.offset + outer.size

/-- One range ends before another starts. -/
def Before (e e' : LayoutEntry) : Prop :=
  e.offset + e.size ≤ e'.offset

theorem Contains.trans {a b c : LayoutEntry} (hab : a.Contains b) (hbc : b.Contains c) :
    a.Contains c :=
  ⟨Nat.le_trans hab.1 hbc.1, Nat.le_trans hbc.2 hab.2⟩

theorem Before.of_contains {a b inner inner' : LayoutEntry} (h : a.Before b)
    (ha : a.Contains inner) (hb : b.Contains inner') : inner.Before inner' := by
  unfold Before Contains at *
  omega

end LayoutEntry

/-! ## Ranges of shapes that fit -/

/-- The range that a shape takes at an offset. -/
def Shape.entryAt (offset : Nat) : Shape → LayoutEntry
  | .node kind size _ => ⟨kind, size, offset⟩

@[simp] theorem Shape.entryAt_offset (offset : Nat) (s : Shape) :
    (s.entryAt offset).offset = offset := by
  cases s
  rfl

section

variable {l : Layout} {used : Nat → Prop} {s : Shape} {address offset last : Nat}
  {path : List Nat} {e e' : LayoutEntry}

theorem Represents.entry?_eq (h : Represents l.nodes used s address offset) :
    l.entry? address = some (s.entryAt offset) := by
  obtain ⟨kind, size, children⟩ := s
  exact h.entry?

theorem Apart.contains {kind : ValueKind} {size : Nat} {children : List (Nat × Shape)}
    (hapart : Apart size children) {k o : Nat} {part : Shape} (hk : children[k]? = some (o, part)) :
    ((Shape.node kind size children).entryAt offset).Contains (part.entryAt (offset + o)) := by
  have hinside := hapart.inside hk
  obtain ⟨_, partSize, _⟩ := part
  simp only [LayoutEntry.Contains, Shape.entryAt, Shape.size_node] at hinside ⊢
  omega

theorem Apart.before {size : Nat} {children : List (Nat × Shape)} (hapart : Apart size children)
    {j k o o' : Nat} {part part' : Shape} (hjk : j < k) (hj : children[j]? = some (o, part))
    (hk : children[k]? = some (o', part')) :
    (part.entryAt (offset + o)).Before (part'.entryAt (offset + o')) := by
  have hordered := hapart.ordered hjk hj hk
  obtain ⟨_, partSize, _⟩ := part
  obtain ⟨_, partSize', _⟩ := part'
  simp only [LayoutEntry.Before, Shape.entryAt, Shape.size_node] at hordered ⊢
  omega

/-- Everything in a shape that fits, fits. -/
theorem Shape.Fits.exists_part (hs : s.Fits) (h : Represents l.nodes used s address offset)
    (hlast : l.address? path address = some last) :
    ∃ part o, part.Fits ∧ Represents l.nodes used part last o := by
  induction path generalizing s address offset with
  | nil =>
    cases hlast
    exact ⟨s, offset, hs, h⟩
  | cons k path ih =>
    rw [Layout.address?] at hlast
    split at hlast
    · rename_i next hnext
      cases hs with
      | node _ hparts =>
        obtain ⟨o, part, hk, hpart⟩ := Layout.represents_of_child? h hnext
        exact ih (hparts hk) hpart hlast
    · cases hlast

/-- Where parts fit, two parts of one node lie one after the other. -/
theorem Shape.Fits.before {j k next next' : Nat} (hs : s.Fits)
    (h : Represents l.nodes used s address offset) (hjk : j < k)
    (hnext : l.child? j address = some next) (hnext' : l.child? k address = some next')
    (he : l.entry? next = some e) (he' : l.entry? next' = some e') : e.Before e' := by
  cases hs with
  | node hapart _ =>
    obtain ⟨o, part, hj, hpart⟩ := Layout.represents_of_child? h hnext
    obtain ⟨o', part', hk, hpart'⟩ := Layout.represents_of_child? h hnext'
    rw [hpart.entry?_eq] at he
    rw [hpart'.entry?_eq] at he'
    cases he
    cases he'
    exact hapart.before hjk hj hk

/-- Where parts fit, everything below a node lies inside its range. -/
theorem Shape.Fits.contains (hs : s.Fits) (h : Represents l.nodes used s address offset)
    (hlast : l.address? path address = some last) (he : l.entry? last = some e) :
    (s.entryAt offset).Contains e := by
  induction path generalizing s address offset with
  | nil =>
    cases hlast
    rw [h.entry?_eq] at he
    cases he
    exact ⟨Nat.le_refl _, Nat.le_refl _⟩
  | cons k path ih =>
    rw [Layout.address?] at hlast
    split at hlast
    · rename_i next hnext
      cases hs with
      | node hapart hparts =>
        obtain ⟨o, part, hk, hpart⟩ := Layout.represents_of_child? h hnext
        exact (hapart.contains hk).trans (ih (hparts hk) hpart hlast)
    · cases hlast

/-- Where parts fit, nodes at the ends of two paths lie apart, unless one path goes on where
the other one ends. -/
theorem Shape.Fits.separate {path' : List Nat} {last' : Nat} (hs : s.Fits)
    (h : Represents l.nodes used s address offset)
    (hpath : ¬ path <+: path') (hpath' : ¬ path' <+: path)
    (hlast : l.address? path address = some last) (he : l.entry? last = some e)
    (hlast' : l.address? path' address = some last') (he' : l.entry? last' = some e') :
    e.Before e' ∨ e'.Before e := by
  induction path generalizing s address offset path' with
  | nil => exact absurd nil_prefix hpath
  | cons j path ih =>
    cases path' with
    | nil => exact absurd nil_prefix hpath'
    | cons k path' =>
      rw [Layout.address?] at hlast hlast'
      split at hlast
      · rename_i next hnext
        split at hlast'
        · rename_i next' hnext'
          cases hs with
          | node hapart hparts =>
            obtain ⟨o, part, hj, hpart⟩ := Layout.represents_of_child? h hnext
            obtain ⟨o', part', hk, hpart'⟩ := Layout.represents_of_child? h hnext'
            have hinner := (hparts hj).contains hpart hlast he
            have hinner' := (hparts hk).contains hpart' hlast' he'
            rcases Nat.lt_trichotomy j k with hjk | rfl | hkj
            · exact Or.inl ((hapart.before hjk hj hk).of_contains hinner hinner')
            · cases hnext.symm.trans hnext'
              rw [prefix_cons_inj] at hpath hpath'
              exact ih (hparts hj) hpart hpath hpath' hlast hlast'
            · exact Or.inr ((hapart.before hkj hk hj).of_contains hinner' hinner)
        · cases hlast'
      · cases hlast

end

/-! ## Layouts of parameters -/

theorem shape_blockType (rules : LayoutRules) (parameters : List Parameter) :
    (blockType parameters).shape rules
      = ValueType.structShape rules (parameters.map (·.type)) := by
  rw [blockType, ValueType.shape_struct, map_map]
  rfl

theorem blockType_fits {rules : LayoutRules} {parameters : List Parameter}
    (hnarrow : rules = .gpuStorage → ∀ p ∈ parameters, p.type.narrow = true) :
    ((blockType parameters).shape rules).Fits := by
  rw [shape_blockType]
  apply ValueType.structShape_fits
  intro t ht
  obtain ⟨p, hp, rfl⟩ := mem_map.mp ht
  exact ValueType.shape_fits p.type fun hrules => hnarrow hrules p hp

theorem childType_blockType {parameters : List Parameter} {i : Nat} {p : Parameter}
    (hp : parameters[i]? = some p) : (blockType parameters).childType i = some p.type := by
  simp [blockType, ValueType.childType, hp]

namespace Layout

variable {l : Layout}

/-- Some node is reached from another one by a path of part numbers. -/
def Reaches (l : Layout) (address last : Nat) : Prop :=
  ∃ path, l.address? path address = some last

/-- The nodes of a layout are the parts of a type, each with the size and at the alignment
of its type, and their ranges are nested as the parts are. -/
structure Nested (l : Layout) (rules : LayoutRules) (block : ValueType) : Prop where
  /-- The nodes are exactly the parts of the type. -/
  reached : ∀ {address : Nat}, address < l.nodes.size → l.Reaches root address
  parted : ∀ {path : List Nat},
    (∃ address, l.address? path root = some address) ↔ ∃ t, block.part? path = some t
  /-- A node has the size and the alignment of the type of its part. -/
  measured : ∀ {path : List Nat} {address : Nat} {t : ValueType} {e : LayoutEntry},
    l.address? path root = some address → block.part? path = some t →
      l.entry? address = some e → e.size = t.size rules ∧ t.align rules ∣ e.offset
  /-- Parts lie inside the whole, in order. -/
  inside : ∀ {address k next : Nat} {e part : LayoutEntry}, l.child? k address = some next →
    l.entry? address = some e → l.entry? next = some part → e.Contains part
  ordered : ∀ {address j k next next' : Nat} {part part' : LayoutEntry}, j < k →
    l.child? j address = some next → l.child? k address = some next' →
      l.entry? next = some part → l.entry? next' = some part' → part.Before part'
  /-- Nodes of which none is below the other lie apart. -/
  separate : ∀ {address address' : Nat} {e e' : LayoutEntry}, ¬ l.Reaches address address' →
    ¬ l.Reaches address' address → l.entry? address = some e → l.entry? address' = some e' →
      e.Before e' ∨ e'.Before e
  below : ∀ {address : Nat} {e : LayoutEntry}, l.entry? address = some e →
    e.offset + e.size ≤ l.size

theorem lt_size_of_entry_eq {address : Nat} {e : LayoutEntry}
    (he : l.entry? address = some e) : address < l.nodes.size := by
  obtain ⟨n, hn, -⟩ := Option.map_eq_some_iff.mp he
  exact (Array.getElem?_eq_some_iff.mp hn).1

theorem lt_size_of_child? {k address next : Nat}
    (hnext : l.child? k address = some next) : address < l.nodes.size := by
  unfold child? at hnext
  split at hnext
  · rename_i n hn
    exact (Array.getElem?_eq_some_iff.mp hn).1
  · cases hnext

theorem size_of_entry_eq {e : LayoutEntry} (he : l.entry? root = some e) : l.size = e.size := by
  obtain ⟨n, hn, rfl⟩ := Option.map_eq_some_iff.mp he
  simp only [size, show l.nodes[0]? = some n from hn]

/-- Nodes that represent a type whose shape fits are nested. -/
theorem nested_of_represents {rules : LayoutRules} {block : ValueType} {used : Nat → Prop}
    (hreached : ∀ {address : Nat}, address < l.nodes.size → l.Reaches root address)
    (hblock : Represents l.nodes used (block.shape rules) root 0)
    (hfits : (block.shape rules).Fits) : l.Nested rules block where
  reached := hreached
  parted := by
    intro path
    constructor
    · rintro ⟨address, haddress⟩
      exact hblock.part?_of_address? haddress
    · rintro ⟨t, ht⟩
      obtain ⟨-, address, -, haddress, -⟩ := hblock.walk ht
      exact ⟨address, haddress⟩
  measured := by
    intro path address t e haddress ht he
    obtain ⟨o, last, ho, hlast, hpart⟩ := hblock.walk ht
    cases haddress.symm.trans hlast
    rw [ValueType.shape_eq_node] at hpart
    cases he.symm.trans hpart.entry?
    rw [Nat.zero_add]
    exact ⟨rfl, (ValueType.align_dvd_partOffset rules ht ho).2⟩
  inside := by
    intro address k next e part hnext he hpart
    obtain ⟨path, hpath⟩ := hreached (lt_size_of_entry_eq he)
    obtain ⟨s, o, hs, hnode⟩ := hfits.exists_part hblock hpath
    cases he.symm.trans hnode.entry?_eq
    have hdown : l.address? [k] address = some next := by
      rw [address?, hnext]
      rfl
    exact hs.contains hnode hdown hpart
  ordered := by
    intro address j k next next' part part' hjk hnext hnext' hpart hpart'
    obtain ⟨path, hpath⟩ := hreached (lt_size_of_child? hnext)
    obtain ⟨s, o, hs, hnode⟩ := hfits.exists_part hblock hpath
    exact hs.before hnode hjk hnext hnext' hpart hpart'
  separate := by
    intro address address' e e' hdown hup he he'
    obtain ⟨path, hpath⟩ := hreached (lt_size_of_entry_eq he)
    obtain ⟨path', hpath'⟩ := hreached (lt_size_of_entry_eq he')
    refine hfits.separate hblock ?_ ?_ hpath he hpath' he'
    · rintro ⟨rest, rfl⟩
      rw [address?_append, hpath] at hpath'
      exact hdown ⟨rest, hpath'⟩
    · rintro ⟨rest, rfl⟩
      rw [address?_append, hpath'] at hpath
      exact hup ⟨rest, hpath⟩
  below := by
    intro address e he
    obtain ⟨path, hpath⟩ := hreached (lt_size_of_entry_eq he)
    have hinside := (hfits.contains hblock hpath he).2
    rw [Shape.entryAt_offset, Nat.zero_add] at hinside
    rw [size_of_entry_eq hblock.entry?_eq]
    exact hinside

end Layout

/-- Parameters without distributions have a layout, under the storage rules if no vector is
longer than four.  Its nodes are the parts of the block, and their ranges are nested. -/
theorem layout_ranges_are_nested {parameters : List Parameter} {rules : LayoutRules}
    (hstorable : ∀ p ∈ parameters, p.type.distribution? = none)
    (hnarrow : rules = .gpuStorage → ∀ p ∈ parameters, p.type.narrow = true) :
    ∃ layout, Layout.build parameters rules = .ok layout ∧
      layout.Nested rules (blockType parameters) := by
  obtain ⟨layout, hbuild, hnodes⟩ := Layout.represents_build rules hstorable
  rw [← shape_blockType] at hnodes
  exact ⟨layout, hbuild, Layout.nested_of_represents (Layout.exists_address?_of_build hbuild) hnodes
    (blockType_fits hnarrow)⟩

/-- Parameters that need padding in many places. -/
def enamelParameters : List Parameter :=
  [⟨"clear", .bool, .bool true⟩,
    ⟨"flakes", .array (.struct "flake" [("size", .float), ("axis", .vector .float 3)]) 2,
      .array []⟩,
    ⟨"frame", .matrix 2 3, .matrix []⟩,
    ⟨"layers", .struct "layers" [("count", .int), ("depth", .double)], .struct []⟩]

theorem layout_ranges_are_nested_enamel :
    (∀ p ∈ enamelParameters, p.type.distribution? = none) ∧
      (∀ p ∈ enamelParameters, p.type.narrow = true) ∧
      ∃ layout, Layout.build enamelParameters .gpuStorage = .ok layout ∧
        layout.Nested .gpuStorage (blockType enamelParameters) := by
  have hstorable : ∀ p ∈ enamelParameters, p.type.distribution? = none := by decide
  have hnarrow : ∀ p ∈ enamelParameters, p.type.narrow = true := by decide
  exact ⟨hstorable, hnarrow, layout_ranges_are_nested hstorable fun _ => hnarrow⟩

end Shading
