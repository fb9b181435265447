import Shading.Proofs.Layout.Geometry

/-!
# Addresses of a layout

Placing a shape reserves the nodes of its parts side by side and fills them one after the
other, each time behind all nodes so far.  What was filled stays as it is, so in the end
the nodes form the tree of the shape.

Main definitions:

- `Represents` says that the nodes below an index form the tree of a shape.
- `Windowed` says that the parts of some nodes stand in windows that do not overlap.

Main results:

- Theorem `Shape.placed_place`: placing a shape represents it, gives its nodes windows and
  changes no other node.
- Theorem `Layout.represents_build`: the nodes of a layout represent the block.
- Theorem `Layout.exists_address?_of_build`: every node is reached from the block.
- Theorems `Represents.child?` and `Represents.entry?`: addresses follow the tree.
-/

namespace Shading

open List

/-- The nodes below an index form the tree of a shape that starts at an offset.  All nodes
of the tree satisfy `used`. -/
inductive Represents (nodes : Array LayoutNode) (used : Nat → Prop) :
    Shape → (index offset : Nat) → Prop
  | node {kind : ValueKind} {size : Nat} {children : List (Nat × Shape)}
      {first index offset : Nat}
      (here : nodes[index]? = some ⟨kind, offset, size, first, children.length⟩)
      (mine : used index)
      (parts : ∀ {k o : Nat} {s : Shape}, children[k]? = some (o, s) →
        Represents nodes used s (first + k) (offset + o)) :
      Represents nodes used (.node kind size children) index offset

/-- A tree stays a tree while its own nodes stay as they are. -/
theorem Represents.mono {nodes nodes' : Array LayoutNode} {used used' : Nat → Prop} {s : Shape}
    {index offset : Nat} (h : Represents nodes used s index offset)
    (hused : ∀ {j : Nat}, used j → used' j)
    (hnodes : ∀ {j : Nat} {n : LayoutNode}, used j → nodes[j]? = some n → nodes'[j]? = some n) :
    Represents nodes' used' s index offset := by
  induction h with
  | node here mine _ ih => exact .node (hnodes mine here) (hused mine) fun hk => ih hk

/-! ## Windows -/

/-- The parts of the nodes for which `mine` holds are the nodes between two indices.  They stand
behind their nodes, and no part belongs to two nodes. -/
structure Windowed (nodes : Array LayoutNode) (mine : Nat → Prop) (low high : Nat) : Prop where
  within : ∀ {p k : Nat} {n : LayoutNode}, mine p → nodes[p]? = some n → k < n.childCount →
    p < n.firstChild + k ∧ low ≤ n.firstChild + k ∧ n.firstChild + k < high
  single : ∀ {p q j k : Nat} {n n' : LayoutNode}, mine p → mine q → nodes[p]? = some n →
    nodes[q]? = some n' → j < n.childCount → k < n'.childCount →
      n.firstChild + j = n'.firstChild + k → p = q
  covered : ∀ {j : Nat}, low ≤ j → j < high →
    ∃ p k n, mine p ∧ nodes[p]? = some n ∧ k < n.childCount ∧ n.firstChild + k = j

namespace Windowed

variable {nodes nodes' : Array LayoutNode} {mine mine' : Nat → Prop} {low mid high : Nat}

/-- Windows stay apart while their nodes stay as they are. -/
theorem mono (h : Windowed nodes mine low high)
    (hmine : ∀ {j : Nat}, mine' j → mine j ∧ nodes'[j]? = nodes[j]?)
    (hall : ∀ {j : Nat}, mine j → j < nodes.size → mine' j) : Windowed nodes' mine' low high where
  within := by
    intro p k n hp hn hk
    rw [(hmine hp).2] at hn
    exact h.within (hmine hp).1 hn hk
  single := by
    intro p q j k n n' hp hq hn hn' hj hk heq
    rw [(hmine hp).2] at hn
    rw [(hmine hq).2] at hn'
    exact h.single (hmine hp).1 (hmine hq).1 hn hn' hj hk heq
  covered := by
    intro j hlow hhigh
    obtain ⟨p, k, n, hp, hn, hk⟩ := h.covered hlow hhigh
    have hp' := hall hp (Array.getElem?_eq_some_iff.mp hn).1
    exact ⟨p, k, n, hp', (hmine hp').2.trans hn, hk⟩

/-- Windows below an index and windows from it on are apart. -/
theorem union (h : Windowed nodes mine low mid) (h' : Windowed nodes mine' mid high)
    (hlow : low ≤ mid) (hhigh : mid ≤ high) :
    Windowed nodes (fun j => mine j ∨ mine' j) low high where
  within := by
    rintro p k n (hp | hp) hn hk
    · have hwithin := h.within hp hn hk
      omega
    · have hwithin := h'.within hp hn hk
      omega
  single := by
    rintro p q j k n n' (hp | hp) (hq | hq) hn hn' hj hk heq
    · exact h.single hp hq hn hn' hj hk heq
    · have hwithin := h.within hp hn hj
      have hwithin' := h'.within hq hn' hk
      omega
    · have hwithin := h'.within hp hn hj
      have hwithin' := h.within hq hn' hk
      omega
    · exact h'.single hp hq hn hn' hj hk heq
  covered := by
    intro j hj hj'
    rcases Nat.lt_or_ge j mid with hmid | hmid
    · obtain ⟨p, k, n, hp, hn⟩ := h.covered hj hmid
      exact ⟨p, k, n, .inl hp, hn⟩
    · obtain ⟨p, k, n, hp, hn⟩ := h'.covered hmid hj'
      exact ⟨p, k, n, .inr hp, hn⟩

end Windowed

/-! ## Placing -/

/-- The nodes of shapes that are placed from `index` on, `count` of them, where there are `size`
nodes before. -/
def Occupied (index count size j : Nat) : Prop :=
  index ≤ j ∧ j < index + count ∨ size ≤ j

/-- What placing shapes into the nodes from `index` on, `count` of them, does: it appends nodes,
which are the parts of these nodes and of each other, and changes no other one. -/
structure Extended (index count : Nat) (nodes nodes' : Array LayoutNode) : Prop where
  size_le : nodes.size ≤ nodes'.size
  others : ∀ {j : Nat}, j < index ∨ index + count ≤ j → j < nodes.size → nodes'[j]? = nodes[j]?
  windows : Windowed nodes' (Occupied index count nodes.size) nodes.size nodes'.size

/-- Placing a shape writes its node, reserves nodes for its parts behind all others, and
places the parts there. -/
theorem Shape.exists_reserved (kind : ValueKind) (size : Nat) (children : List (Nat × Shape))
    {index : Nat} (offset : Nat) {nodes : Array LayoutNode} (hindex : index < nodes.size) :
    ∃ reserved : Array LayoutNode,
      (Shape.node kind size children).place index offset nodes
        = placeAll children nodes.size offset reserved ∧
      reserved.size = nodes.size + children.length ∧
      reserved[index]? = some ⟨kind, offset, size, nodes.size, children.length⟩ ∧
      ∀ {j : Nat}, j ≠ index → j < nodes.size → reserved[j]? = nodes[j]? := by
  refine ⟨nodes.setIfInBounds index ⟨kind, offset, size, nodes.size, children.length⟩ ++
    Array.replicate children.length LayoutNode.placeholder, by rw [Shape.place], by simp, ?_, ?_⟩
  · rw [Array.getElem?_append_left (by simpa using hindex),
      Array.getElem?_setIfInBounds_self_of_lt hindex]
  · intro j hj hlt
    rw [Array.getElem?_append_left (by simpa using hlt),
      Array.getElem?_setIfInBounds_ne (Ne.symm hj)]

mutual

/-- Placing a shape represents it, gives its nodes windows and changes no other node. -/
theorem Shape.placed_place (s : Shape) (index offset : Nat) (nodes : Array LayoutNode)
    (hindex : index < nodes.size) :
    Represents (s.place index offset nodes) (Occupied index 1 nodes.size) s index offset ∧
      Extended index 1 nodes (s.place index offset nodes) := by
  obtain ⟨kind, size, children⟩ := s
  obtain ⟨reserved, hplace, hsize, hhere, hothers⟩ :=
    Shape.exists_reserved kind size children offset hindex
  rw [hplace]
  obtain ⟨hparts, hextended⟩ :=
    Shape.placed_placeAll children nodes.size offset reserved (Nat.le_of_eq hsize.symm)
  rw [← hextended.others (Or.inl hindex) (by omega)] at hhere
  have hself : Windowed (placeAll children nodes.size offset reserved) (fun j => j = index)
      nodes.size reserved.size := by
    constructor
    · rintro p k n rfl hn hk
      cases hhere.symm.trans hn
      dsimp only at hk ⊢
      omega
    · rintro p q j k n n' rfl rfl _ _ _ _ _
      rfl
    · intro j hlow hhigh
      exact ⟨index, j - nodes.size, _, rfl, hhere, by dsimp only; omega, Nat.add_sub_cancel' hlow⟩
  refine ⟨.node hhere (Or.inl (by omega)) fun hk => ?_, Nat.le_trans (by omega) hextended.size_le,
    fun hj hlt => ?_, ?_⟩
  · refine (hparts hk).mono (fun hj => ?_) fun _ hn => hn
    unfold Occupied at hj ⊢
    omega
  · rw [hextended.others (Or.inl hlt) (by omega), hothers (by omega) hlt]
  · -- The parts stand in the window of the shape, and what lies below them behind it.
    apply (hself.union hextended.windows (by omega) hextended.size_le).mono
    · intro j hj
      unfold Occupied at hj ⊢
      exact ⟨by omega, rfl⟩
    · intro j hj _
      unfold Occupied at hj ⊢
      omega

/-- Placing shapes side by side represents each of them, gives their nodes windows and changes no
other node. -/
theorem Shape.placed_placeAll (children : List (Nat × Shape)) (index base : Nat)
    (nodes : Array LayoutNode) (hindex : index + children.length ≤ nodes.size) :
    (∀ {k o : Nat} {s : Shape}, children[k]? = some (o, s) →
      Represents (placeAll children index base nodes)
        (Occupied index children.length nodes.size) s (index + k) (base + o)) ∧
      Extended index children.length nodes (placeAll children index base nodes) := by
  match children with
  | [] =>
    rw [Shape.placeAll]
    have hnone : ∀ {j : Nat} {n : LayoutNode}, Occupied index 0 nodes.size j →
        nodes[j]? ≠ some n := by
      intro j n hj hn
      have hlt := (Array.getElem?_eq_some_iff.mp hn).1
      unfold Occupied at hj
      omega
    exact ⟨fun hk => absurd hk (by simp), Nat.le_refl _, fun _ _ => rfl,
      fun hp hn => absurd hn (hnone hp), fun hp _ hn => absurd hn (hnone hp), by omega⟩
  | (offset, s) :: rest =>
    rw [Shape.placeAll]
    rw [length_cons] at hindex ⊢
    obtain ⟨hhead, hmid⟩ :=
      Shape.placed_place s index (base + offset) nodes (by omega)
    generalize s.place index (base + offset) nodes = mid at hhead hmid ⊢
    have hsize := hmid.size_le
    obtain ⟨hrest, hafter⟩ := Shape.placed_placeAll rest (index + 1) base mid (by omega)
    -- The other shapes go into the nodes after this one and behind the tree.
    have hkept : ∀ {j : Nat}, Occupied index 1 nodes.size j → j < mid.size →
        (placeAll rest (index + 1) base mid)[j]? = mid[j]? := by
      intro j hj hlt
      unfold Occupied at hj
      exact hafter.others (by omega) hlt
    refine ⟨?_, Nat.le_trans hsize hafter.size_le, fun hj hlt => ?_, ?_⟩
    · intro k o t hk
      cases k with
      | zero =>
        obtain ⟨rfl, rfl⟩ := Prod.mk.inj (Option.some.inj hk)
        refine hhead.mono (fun hj => ?_) fun hj hn => ?_
        · unfold Occupied at hj ⊢
          omega
        · rw [hkept hj (Array.getElem?_eq_some_iff.mp hn).1, hn]
      | succ k =>
        have hplaced := hrest (getElem?_cons_succ.symm.trans hk)
        rw [Nat.add_right_comm index 1 k] at hplaced
        refine hplaced.mono (fun hj => ?_) fun _ hn => hn
        unfold Occupied at hj ⊢
        omega
    · rw [hafter.others (by omega) (by omega), hmid.others (by omega) hlt]
    · have hfirst : Windowed (placeAll rest (index + 1) base mid)
          (fun j => Occupied index 1 nodes.size j ∧ j < mid.size) nodes.size mid.size :=
        hmid.windows.mono (fun hj => ⟨hj.1, hkept hj.1 hj.2⟩) fun hj hlt => ⟨hj, hlt⟩
      apply (hfirst.union hafter.windows hsize hafter.size_le).mono
      · intro j hj
        unfold Occupied at hj ⊢
        exact ⟨by omega, rfl⟩
      · intro j hj _
        unfold Occupied at hj ⊢
        omega

end

/-! ## Walking -/

theorem Represents.entry? {l : Layout} {used : Nat → Prop} {kind : ValueKind} {size : Nat}
    {children : List (Nat × Shape)} {index offset : Nat}
    (h : Represents l.nodes used (.node kind size children) index offset) :
    l.entry? index = some ⟨kind, size, offset⟩ := by
  cases h with
  | node here _ _ =>
    rw [Layout.entry?, here]
    rfl

/-- The address of a part is one where the part is represented. -/
theorem Represents.child? {l : Layout} {used : Nat → Prop} {kind : ValueKind} {size : Nat}
    {children : List (Nat × Shape)} {index offset k o : Nat} {s : Shape}
    (h : Represents l.nodes used (.node kind size children) index offset)
    (hk : children[k]? = some (o, s)) :
    ∃ next, l.child? k index = some next ∧ Represents l.nodes used s next (offset + o) := by
  cases h with
  | node here _ parts =>
    refine ⟨_, ?_, parts hk⟩
    simp only [Layout.child?, here]
    exact if_pos (List.getElem?_eq_some_iff.mp hk).1

namespace Layout

variable {l : Layout}

variable {parameters : List Parameter}

theorem child?_eq_some_iff {k address next : Nat} :
    l.child? k address = some next ↔
      ∃ n, l.nodes[address]? = some n ∧ k < n.childCount ∧ n.firstChild + k = next := by
  unfold child?
  cases l.nodes[address]? with
  | none => simp
  | some n => simp

/-- An address of a part is one where the part is represented. -/
theorem represents_of_child? {used : Nat → Prop} {kind : ValueKind} {size : Nat}
    {children : List (Nat × Shape)} {index offset k next : Nat}
    (h : Represents l.nodes used (.node kind size children) index offset)
    (hnext : l.child? k index = some next) :
    ∃ o s, children[k]? = some (o, s) ∧ Represents l.nodes used s next (offset + o) := by
  cases h with
  | @node _ _ _ first _ _ here _ parts =>
    obtain ⟨n, hn, hlt, rfl⟩ := child?_eq_some_iff.mp hnext
    cases here.symm.trans hn
    have hk : children[k]? = some (children[k].1, children[k].2) := getElem?_eq_getElem hlt
    exact ⟨_, _, hk, parts hk⟩

theorem address?_append (path rest : List Nat) (start : Nat) :
    l.address? (path ++ rest) start = (l.address? path start).bind (l.address? rest) := by
  induction path generalizing start with
  | nil => rfl
  | cons k path ih =>
    rw [cons_append, address?, address?]
    cases l.child? k start with
    | none => rfl
    | some next => exact ih next

theorem address?_concat (path : List Nat) (k start : Nat) :
    l.address? (path ++ [k]) start = (l.address? path start).bind (l.child? k) := by
  rw [address?_append]
  congr 1
  funext address
  rw [address?]
  cases l.child? k address <;> rfl

/-- Parameters without distributions have a layout, and its nodes represent the block. -/
theorem represents_build (rules : LayoutRules)
    (hstorable : ∀ p ∈ parameters, p.type.distribution? = none) :
    ∃ layout, build parameters rules = .ok layout ∧
      Represents layout.nodes (fun _ => True)
        (ValueType.structShape rules (parameters.map (·.type))) root 0 := by
  have hnone : (parameters.findSome? fun p => p.type.distribution?) = none :=
    findSome?_eq_none_iff.mpr hstorable
  refine ⟨_, by rw [build, hnone], ?_⟩
  rw [ValueType.structShape, map_map, map_map]
  exact (Shape.placed_place _ root 0 #[.placeholder] Nat.one_pos).1.mono
    (fun _ => trivial) fun _ hn => hn

/-- The parts of the nodes of a layout stand in windows behind the root. -/
theorem windowed_of_build {rules : LayoutRules} (hbuild : build parameters rules = .ok l) :
    Windowed l.nodes (fun _ => True) 1 l.nodes.size := by
  rw [build] at hbuild
  split at hbuild
  · cases hbuild
  · cases hbuild
    apply (Shape.placed_place _ root 0 #[.placeholder] Nat.one_pos).2.windows.mono
    · intro j _
      exact ⟨by simp only [Occupied, root, size_toArray, length_singleton]; omega, rfl⟩
    · exact fun _ _ => trivial

/-- Every node of a layout is reached from the block. -/
theorem exists_address?_of_build {rules : LayoutRules}
    (hbuild : build parameters rules = .ok l) {address : Nat} (haddress : address < l.nodes.size) :
    ∃ path, l.address? path root = some address := by
  have hwindowed := windowed_of_build hbuild
  -- A node is a part of one before it.
  induction address using Nat.strongRecOn with
  | ind address ih =>
    by_cases hroot : address = root
    · exact ⟨[], congrArg some hroot.symm⟩
    · obtain ⟨p, k, n, -, hn, hk, rfl⟩ :=
        hwindowed.covered (Nat.one_le_iff_ne_zero.mpr hroot) haddress
      obtain ⟨path, hpath⟩ := ih p (hwindowed.within trivial hn hk).1
        (Array.getElem?_eq_some_iff.mp hn).1
      refine ⟨path ++ [k], ?_⟩
      rw [address?_concat, hpath]
      exact child?_eq_some_iff.mpr ⟨n, hn, hk, rfl⟩

end Layout

end Shading
