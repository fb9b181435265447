import Shading.Proofs.Layout.Leaves

/-!
# Packing stays in its place

Whatever the literal is, packing it at an address of a block that is long enough writes
nothing but leaves below the address.  It never misses an address, and it never looks at the
block: whether it fails, and why, is the same for all blocks, and a byte of the result
depends on the same byte before only.  All this holds as well if packing fails halfway.

Main definitions:

- `Layout.OnLeaf` says that a byte belongs to a leaf below an address.
- `Layout.Confined` is what is said above of packing, for runs in general.

Main results:

- Theorem `Layout.Confined.bind`: runs one after the other are confined if both are.
- Theorem `Layout.pack_confined`: packing is confined to the leaves below its address.
-/

namespace Shading

open List

variable {block bytes : Bytes} {offset address : Nat}

namespace Bytes

/-- What writing bytes into a block has done. -/
theorem splice?_eq_some {block' : Bytes} (h : block.splice? offset bytes = some block') :
    ChangedOnly (fun i => offset ≤ i ∧ i < offset + bytes.length) block block' ∧
      block'.read offset bytes.length = bytes := by
  have hfit : offset + bytes.length ≤ block.length := by
    by_contra hout
    rw [splice?, if_neg hout] at h
    cases h
  obtain ⟨written, hwritten, hchanged, hread⟩ := splice?_of_le hfit
  cases hwritten.symm.trans h
  exact ⟨hchanged, hread⟩

/-- A byte of a block into which bytes were written. -/
theorem getElem?_of_splice? {block' : Bytes} (h : block.splice? offset bytes = some block')
    (i : Nat) :
    block'[i]? = if offset ≤ i ∧ i < offset + bytes.length then bytes[i - offset]?
      else block[i]? := by
  obtain ⟨hchanged, hread⟩ := splice?_eq_some h
  by_cases hi : offset ≤ i ∧ i < offset + bytes.length
  · have hplace : offset + (i - offset) = i := by omega
    rw [if_pos hi, ← hread, read, getElem?_take, getElem?_drop, hplace,
      if_pos (by omega)]
  · rw [if_neg hi]
    exact hchanged.outside hi

end Bytes

namespace Layout

variable {l : Layout} {r : IndexResolver} {rules : LayoutRules}

/-! ## Confined runs -/

/-- A run that writes only where `range` holds.  In a block that has room for it, it finds
every address, and neither its outcome nor a byte that it leaves depends on other bytes. -/
structure Confined {α : Type} (range : Nat → Prop) (room : Nat) (m : PackM α) : Prop where
  touches : Touches range True m
  found : ∀ {block : Bytes}, room ≤ block.length → (m.run block).1 ≠ .error .invalidAddress
  uniform : ∀ {block block' : Bytes}, room ≤ block.length → room ≤ block'.length →
    (m.run block).1 = (m.run block').1
  bytewise : ∀ {block block' : Bytes} {i : Nat}, room ≤ block.length → room ≤ block'.length →
    block[i]? = block'[i]? → (m.run block).2[i]? = (m.run block').2[i]?

namespace Confined

variable {α β : Type} {range : Nat → Prop} {room : Nat}

variable {m : PackM α}

theorem pure (a : α) : Confined range room (Pure.pure a) where
  touches := Touches.pure a
  found := by
    intro block _ h
    cases h
  uniform := fun _ _ => rfl
  bytewise := fun _ _ h => h

theorem mono {wider : Nat → Prop} {more : Nat} (h : Confined range room m)
    (hwider : ∀ {i : Nat}, range i → wider i) (hmore : room ≤ more) : Confined wider more m where
  touches := h.touches.mono hwider id
  found := fun hroom => h.found (Nat.le_trans hmore hroom)
  uniform := fun hroom hroom' => h.uniform (Nat.le_trans hmore hroom) (Nat.le_trans hmore hroom')
  bytewise := fun hroom hroom' =>
    h.bytewise (Nat.le_trans hmore hroom) (Nat.le_trans hmore hroom')

/-- A run leaves the room that there was. -/
theorem room_le (h : Confined range room m) (hroom : room ≤ block.length) :
    room ≤ (m.run block).2.length := by
  rw [(h.touches block).1.length_eq]
  exact hroom

/-- Runs one after the other. -/
theorem bind {f : α → PackM β} (hm : Confined range room m)
    (hf : ∀ a, Confined range room (f a)) : Confined range room (m >>= f) where
  touches := hm.touches.bind fun a => (hf a).touches
  found := by
    intro block hroom
    have hfound := hm.found hroom
    have hmid := hm.room_le hroom
    rw [run_bind]
    generalize m.run block = result at hfound hmid ⊢
    rcases result with ⟨e | a, mid⟩
    · intro h
      cases h
      exact hfound rfl
    · exact (hf a).found hmid
  uniform := by
    intro block block' hroom hroom'
    have hsame := hm.uniform hroom hroom'
    have hmid := hm.room_le hroom
    have hmid' := hm.room_le hroom'
    rw [run_bind, run_bind]
    generalize m.run block = result at hsame hmid ⊢
    generalize m.run block' = result' at hsame hmid' ⊢
    rcases result with ⟨e | a, mid⟩ <;> rcases result' with ⟨e' | a', mid'⟩ <;> cases hsame
    · rfl
    · exact (hf a).uniform hmid hmid'
  bytewise := by
    intro block block' i hroom hroom' hbyte
    have hsame := hm.uniform hroom hroom'
    have hmid := hm.room_le hroom
    have hmid' := hm.room_le hroom'
    have hbyte := hm.bytewise hroom hroom' hbyte
    rw [run_bind, run_bind]
    generalize m.run block = result at hsame hmid hbyte ⊢
    generalize m.run block' = result' at hsame hmid' hbyte ⊢
    rcases result with ⟨e | a, mid⟩ <;> rcases result' with ⟨e' | a', mid'⟩ <;> cases hsame
    · exact hbyte
    · exact (hf a).bytewise hmid hmid' hbyte

/-- What follows a check may rely on it. -/
theorem lift_bind {x : Except LayoutError α} {f : α → PackM β} (hx : x ≠ .error .invalidAddress)
    (hf : ∀ a, x = .ok a → Confined range room (f a)) : Confined range room (liftM x >>= f) := by
  cases x with
  | ok a => exact hf a rfl
  | error e =>
    constructor
    · exact fun block => ⟨.refl range block, fun _ _ => trivial⟩
    · intro block _ h
      cases h
      exact hx rfl
    · exact fun _ _ => rfl
    · exact fun _ _ h => h

end Confined

/-! ## Writing -/

/-- Writing bytes is confined to their places, if there is room. -/
theorem writeBytes_confined {room : Nat} (hroom : offset + bytes.length ≤ room) :
    Confined (fun i => offset ≤ i ∧ i < offset + bytes.length) room (writeBytes offset bytes) := by
  have hwrite : ∀ {block : Bytes}, room ≤ block.length →
      ∃ block', block.splice? offset bytes = some block' ∧
        (writeBytes offset bytes).run block = (.ok (), block') := by
    intro block hblock
    obtain ⟨block', hsplice, -⟩ := Bytes.splice?_of_le (Nat.le_trans hroom hblock)
    exact ⟨block', hsplice, writeBytes_run hsplice⟩
  constructor
  · exact (writeBytes_touches offset bytes).mono id fun _ => trivial
  · intro block hblock h
    obtain ⟨written, -, hrun⟩ := hwrite hblock
    rw [hrun] at h
    cases h
  · intro block block' hblock hblock'
    obtain ⟨written, -, hrun⟩ := hwrite hblock
    obtain ⟨written', -, hrun'⟩ := hwrite hblock'
    rw [hrun, hrun']
  · intro block block' i hblock hblock' hbyte
    obtain ⟨written, hsplice, hrun⟩ := hwrite hblock
    obtain ⟨written', hsplice', hrun'⟩ := hwrite hblock'
    rw [hrun, hrun', Bytes.getElem?_of_splice? hsplice, Bytes.getElem?_of_splice? hsplice', hbyte]

theorem nodeFor_ne_invalidAddress {kind : ValueKind} {n : LayoutNode}
    (hn : l.nodes[address]? = some n) : l.nodeFor kind address ≠ .error .invalidAddress := by
  unfold nodeFor
  rw [hn]
  dsimp only
  split <;> simp

theorem checkCount_ne_invalidAddress (n : LayoutNode) (count : Nat) :
    checkCount n count ≠ .error .invalidAddress := by
  unfold checkCount
  split <;> simp

theorem leafBytes_ne_invalidAddress (r : IndexResolver) (size : Nat) (v : Value) :
    leafBytes r size v ≠ .error .invalidAddress := by
  cases v with
  | string s =>
    rw [leafBytes]
    split <;> simp
  | _ => simp [leafBytes, Value.resource?]

/-! ## Packing -/

/-- A byte belongs to a leaf that is at an address or below it. -/
def OnLeaf (l : Layout) (address i : Nat) : Prop :=
  ∃ path last e, l.address? path address = some last ∧ l.entry? last = some e ∧
    e.kind.isCompound = false ∧ e.offset ≤ i ∧ i < e.offset + e.size

theorem OnLeaf.of_child? {k next i : Nat} (h : l.OnLeaf next i)
    (hnext : l.child? k address = some next) : l.OnLeaf address i := by
  obtain ⟨path, last, e, hlast, hleaf⟩ := h
  refine ⟨k :: path, last, e, ?_, hleaf⟩
  rw [address?, hnext]
  exact hlast

/-- A literal without parts is written over the leaf at the address. -/
theorem packLeaf_confined {used : Nat → Prop} {t : ValueType}
    (hnodes : Represents l.nodes used (t.shape rules) address offset) {v : Value}
    (hv : v.kind.isCompound = false) :
    Confined (l.OnLeaf address) (offset + t.size rules) (l.packLeaf r v address) := by
  rw [ValueType.shape_eq_node] at hnodes
  have hentry := hnodes.entry?
  cases hnodes with
  | node here _ _ =>
    unfold packLeaf
    apply Confined.lift_bind (nodeFor_ne_invalidAddress here)
    intro n hn
    obtain ⟨hsame, hkind⟩ := node_of_nodeFor hn
    cases here.symm.trans hsame
    apply Confined.lift_bind (leafBytes_ne_invalidAddress r _ v)
    intro bytes hbytes
    have hlength := length_leafBytes hkind hbytes
    have hleaf : t.kind.isCompound = false := by
      rw [← show v.kind = t.kind from hkind]
      exact hv
    apply (writeBytes_confined (Nat.le_refl _)).mono
    · intro i hi
      rw [hlength] at hi
      exact ⟨[], address, _, rfl, hentry, hleaf, hi⟩
    · exact Nat.le_of_eq (congrArg (offset + ·) hlength)

theorem packAll_confined {range : Nat → Prop} {room first : Nat} {values : List Value}
    (h : ∀ {k : Nat} {v : Value}, values[k]? = some v →
      Confined range room (l.pack r v (first + k))) :
    Confined range room (l.packAll r values first) := by
  induction values generalizing first with
  | nil =>
    rw [packAll]
    exact Confined.pure ()
  | cons v rest ih =>
    rw [packAll]
    apply Confined.bind
    · exact h (k := 0) rfl
    · intro _
      apply ih
      intro k part hpart
      rw [Nat.add_assoc, Nat.add_comm 1]
      exact h (getElem?_cons_succ.trans hpart)

/-- Packing is confined to the leaves below its address, if the shape there fits. -/
theorem pack_confined {used : Nat → Prop} {t : ValueType}
    (hnodes : Represents l.nodes used (t.shape rules) address offset) (hfits : (t.shape rules).Fits)
    (v : Value) : Confined (l.OnLeaf address) (offset + t.size rules) (l.pack r v address) := by
  -- By induction on the nodes: the parts of a color are no subterms of it.
  generalize hs : t.shape rules = s at hnodes hfits
  induction hnodes generalizing t v with
  | @node kind size children first address offset here mine parts ih =>
    have hrepresents : Represents l.nodes used (t.shape rules) address offset := by
      rw [hs]
      exact .node here mine parts
    rw [ValueType.shape_eq_node] at hs
    cases hs
    by_cases hv : v.kind.isCompound = true
    · rw [pack_compound hv]
      apply Confined.lift_bind (nodeFor_ne_invalidAddress here)
      intro n hn
      cases here.symm.trans (node_of_nodeFor hn).1
      apply Confined.lift_bind (checkCount_ne_invalidAddress _ _)
      intro u hu
      have hcount := count_of_checkCount hu
      dsimp only at hcount
      apply packAll_confined
      intro k part hpart
      have hlt : k < (t.shapeParts rules).length :=
        hcount ▸ (List.getElem?_eq_some_iff.mp hpart).1
      obtain ⟨⟨o, s⟩, hk⟩ : ∃ c, (t.shapeParts rules)[k]? = some c :=
        ⟨_, getElem?_eq_getElem hlt⟩
      obtain ⟨u, -, rfl⟩ := ValueType.childType_of_shapeParts hk
      obtain ⟨apart, fits⟩ := hfits
      have hinside := apart.inside hk
      rw [ValueType.shape_size] at hinside
      have hnext : l.child? k address = some (first + k) := by
        simp only [child?, here]
        exact if_pos hlt
      apply (ih hk part rfl (fits hk)).mono
      · intro i hi
        exact hi.of_child? hnext
      · omega
    · rw [Bool.not_eq_true] at hv
      rw [pack_leaf hv]
      exact packLeaf_confined hrepresents hv

end Layout

end Shading
