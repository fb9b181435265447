import Shading.Proofs.Layout.Packing

/-!
# What packing leaves alone

Packing a literal at an address changes no byte before the place of the address, whether
it succeeds or fails halfway and whatever the literal is.  So a block keeps its length,
and a literal that was packed stays as it is while others are packed behind it.

Main definitions:

- `Layout.Touches` bounds the bytes that a run of packing can change, and its reasons to fail.

Main results:

- Theorem `Layout.pack_touches`: packing changes nothing before its place, and a string that has
  an id is no reason to fail.
- Theorem `Layout.resolves_of_pack`: what was packed had ids for all its strings.
- Theorem `Layout.represents_of_build`: the nodes of a layout represent the block.
-/

namespace Shading

open List

variable {block block' : Bytes} {address : Nat} {n : LayoutNode}

theorem Value.mem_flattenAll {w : Value} {parts : List Value} :
    w ∈ Value.flattenAll parts ↔ ∃ v ∈ parts, w ∈ v.flatten := by
  induction parts with
  | nil => simp [Value.flattenAll]
  | cons first rest ih => simp [Value.flattenAll, ih]

namespace Layout

variable {l : Layout} {r : IndexResolver}

/-! ## Runs -/

theorem run_bind {α β : Type} (m : PackM α) (f : α → PackM β) (block : Bytes) :
    (m >>= f).run block =
      match m.run block with
      | (.ok a, mid) => (f a).run mid
      | (.error e, mid) => (.error e, mid) := by
  change ExceptT.bindCont f (m.run block).1 (m.run block).2 = _
  rcases m.run block with ⟨_ | _, _⟩ <;> rfl

/-- A run that changes bytes only where `range` holds, and gives up on a value that cannot be
stored only if `cause` holds. -/
def Touches {α : Type} (range : Nat → Prop) (cause : Prop) (m : PackM α) : Prop :=
  ∀ block, Bytes.ChangedOnly range block (m.run block).2 ∧
    ∀ what, (m.run block).1 = .error (.unsupported what) → cause

namespace Touches

variable {α β : Type} {range : Nat → Prop} {cause : Prop}

theorem pure (a : α) : Touches range cause (Pure.pure a) :=
  fun block => ⟨.refl range block, fun _ h => nomatch h⟩

theorem mono {wider : Nat → Prop} {weaker : Prop} {m : PackM α} (h : Touches range cause m)
    (hwider : ∀ {i : Nat}, range i → wider i) (hweaker : cause → weaker) : Touches wider weaker m :=
  fun block => ⟨(h block).1.mono hwider, fun what hfails => hweaker ((h block).2 what hfails)⟩

theorem bind {m : PackM α} {f : α → PackM β} (hm : Touches range cause m)
    (hf : ∀ a, Touches range cause (f a)) : Touches range cause (m >>= f) := by
  intro block
  have hfirst := hm block
  rw [run_bind]
  generalize m.run block = result at hfirst ⊢
  rcases result with ⟨e | a, mid⟩
  · exact ⟨hfirst.1, fun what h => hfirst.2 what (congrArg Except.error (Except.error.inj h))⟩
  · exact ⟨hfirst.1.trans (hf a mid).1, (hf a mid).2⟩

/-- What follows a check may rely on it. -/
theorem lift_bind {x : Except LayoutError α} {f : α → PackM β}
    (hx : ∀ what, x = .error (.unsupported what) → cause)
    (hf : ∀ a, x = .ok a → Touches range cause (f a)) : Touches range cause (liftM x >>= f) := by
  intro block
  cases x with
  | error e =>
    exact ⟨.refl range block, fun what h => hx what (congrArg Except.error (Except.error.inj h))⟩
  | ok a => exact hf a rfl block

end Touches

/-- Runs one after the other succeed if both do. -/
theorem run_bind_eq_ok {α β : Type} {x : PackM α} {f : α → PackM β} {b : β}
    (h : (x >>= f).run block = (.ok b, block')) :
    ∃ a mid, x.run block = (.ok a, mid) ∧ (f a).run mid = (.ok b, block') := by
  rw [run_bind] at h
  generalize x.run block = result at h ⊢
  rcases result with ⟨e | a, mid⟩
  · cases h
  · exact ⟨a, mid, rfl, h⟩

theorem lift_run_eq_ok {α : Type} {x : Except LayoutError α} {a : α}
    (h : (liftM x : PackM α).run block = (.ok a, block')) : x = .ok a ∧ block' = block := by
  cases x with
  | error e => cases h
  | ok b =>
    cases h
    exact ⟨rfl, rfl⟩

theorem writeBytes_touches (offset : Nat) (bytes : Bytes) :
    Touches (fun i => offset ≤ i ∧ i < offset + bytes.length) False
      (writeBytes offset bytes) := by
  intro block
  rw [writeBytes, run_bind_ok (x := get) (a := block) rfl]
  by_cases hfit : offset + bytes.length ≤ block.length
  · obtain ⟨block', hsplice, hchanged, _⟩ := Bytes.splice?_of_le hfit
    rw [hsplice]
    exact ⟨hchanged, fun what h => by cases h⟩
  · rw [Bytes.splice?, if_neg hfit]
    exact ⟨.refl _ block, fun what h => by cases h⟩

/-! ## Packing -/

theorem node_of_nodeFor {kind : ValueKind} (h : l.nodeFor kind address = .ok n) :
    l.nodes[address]? = some n ∧ kind = n.kind := by
  unfold nodeFor at h
  split at h
  · cases h
  · rename_i n' hn
    split at h
    · rename_i hkind
      cases h
      exact ⟨hn, hkind⟩
    · cases h

theorem count_of_checkCount {count : Nat} {u : Unit} (h : checkCount n count = .ok u) :
    count = n.childCount := by
  unfold checkCount at h
  split at h
  · assumption
  · cases h

theorem nodeFor_ne_unsupported (l : Layout) (kind : ValueKind) (address : Nat) (what : String) :
    l.nodeFor kind address ≠ .error (.unsupported what) := by
  unfold nodeFor
  split
  · simp
  · split <;> simp

theorem checkCount_ne_unsupported (n : LayoutNode) (count : Nat) (what : String) :
    checkCount n count ≠ .error (.unsupported what) := by
  unfold checkCount
  split <;> simp

/-- The strings of a part are strings of the literal. -/
theorem resolves_part {v part : Value} {k : Nat} (h : r.Resolves v.flatten)
    (hpart : v.children[k]? = some part) : r.Resolves part.flatten := by
  cases v with
  | vector parts | matrix parts | array parts | struct parts =>
    exact h.mono fun w hw => mem_cons_of_mem _
      (Value.mem_flattenAll.mpr ⟨part, mem_of_getElem? hpart, hw⟩)
  | color x y z =>
    have hfloat : part = .float x ∨ part = .float y ∨ part = .float z := by
      simpa [Value.children] using mem_of_getElem? hpart
    rcases hfloat with rfl | rfl | rfl <;> simp [IndexResolver.Resolves, Value.flatten]
  | _ => simp [Value.children] at hpart

theorem packLeaf_touches (hn : l.nodes[address]? = some n) {v : Value}
    (hv : v.kind.isCompound = false) :
    Touches (fun i => n.offset ≤ i) (¬ r.Resolves v.flatten) (l.packLeaf r v address) := by
  unfold packLeaf
  refine Touches.lift_bind (fun what h => absurd h (nodeFor_ne_unsupported _ _ _ what))
    fun found hfound => Touches.lift_bind (fun what h hresolves => ?_) fun bytes _ => ?_
  · cases v with
    | string s =>
      obtain ⟨id, hid⟩ := hresolves s mem_cons_self
      rw [leafBytes, hid] at h
      cases h
    | vector parts | matrix parts | array parts | struct parts | color x y z => cases hv
    | _ => cases h
  · cases hn.symm.trans (node_of_nodeFor hfound).1
    exact (writeBytes_touches _ _).mono (fun hi => hi.1) False.elim

theorem packAll_touches {range : Nat → Prop} {cause : Prop} {values : List Value} {first : Nat}
    (h : ∀ {k : Nat} {v : Value}, values[k]? = some v →
      Touches range cause (l.pack r v (first + k))) :
    Touches range cause (l.packAll r values first) := by
  induction values generalizing first with
  | nil =>
    rw [packAll]
    exact Touches.pure ()
  | cons v rest ih =>
    rw [packAll]
    refine (h (k := 0) rfl).bind fun _ => ih fun {k part} hpart => ?_
    rw [Nat.add_assoc, Nat.add_comm 1]
    exact h (getElem?_cons_succ.trans hpart)

/-- Packing changes nothing before its place, and strings that have ids are no reason to fail. -/
theorem pack_touches {used : Nat → Prop} {s : Shape} {address offset : Nat}
    (hnodes : Represents l.nodes used s address offset) (v : Value) :
    Touches (fun i => offset ≤ i) (¬ r.Resolves v.flatten) (l.pack r v address) := by
  -- By induction on the nodes: the parts of a color are no subterms of it.
  induction hnodes generalizing v with
  | @node kind size children first address offset here mine parts ih =>
    by_cases hv : v.kind.isCompound = true
    · rw [pack_compound hv]
      refine Touches.lift_bind (fun what h => absurd h (nodeFor_ne_unsupported _ _ _ what))
        fun n hn => ?_
      refine Touches.lift_bind (fun what h => absurd h (checkCount_ne_unsupported _ _ what))
        fun u hu => ?_
      cases here.symm.trans (node_of_nodeFor hn).1
      have hcount : v.children.length = children.length := count_of_checkCount hu
      refine packAll_touches fun {k part} hpart => ?_
      have hlt : k < children.length := hcount ▸ (List.getElem?_eq_some_iff.mp hpart).1
      exact (ih (getElem?_eq_getElem hlt) part).mono
        (fun hi => Nat.le_trans (Nat.le_add_right _ _) hi)
        fun hcause hresolves => hcause (resolves_part hresolves hpart)
    · rw [Bool.not_eq_true] at hv
      rw [pack_leaf hv]
      exact packLeaf_touches here hv

/-! ## Successful runs -/

/-- A packed literal without parts has bytes. -/
theorem leafBytes_of_packLeaf {v : Value}
    (h : (l.packLeaf r v address).run block = (.ok (), block')) :
    ∃ n bytes, l.nodes[address]? = some n ∧ v.kind = n.kind ∧
      leafBytes r n.size v = .ok bytes ∧ block.splice? n.offset bytes = some block' := by
  unfold packLeaf at h
  obtain ⟨n, mid, hfound, hwrite⟩ := run_bind_eq_ok h
  obtain ⟨hn, rfl⟩ := lift_run_eq_ok hfound
  obtain ⟨bytes, mid', hencoded, hrun⟩ := run_bind_eq_ok hwrite
  obtain ⟨hbytes, rfl⟩ := lift_run_eq_ok hencoded
  refine ⟨n, bytes, (node_of_nodeFor hn).1, (node_of_nodeFor hn).2, hbytes, ?_⟩
  rw [writeBytes] at hrun
  obtain ⟨current, mid, hget, hset⟩ := run_bind_eq_ok hrun
  cases hget
  split at hset
  · rename_i written hsplice
    cases hset
    exact hsplice
  · cases hset

/-- A packed compound literal has as many parts as its node, and they were packed. -/
theorem packAll_of_pack {v : Value} (hv : v.kind.isCompound = true)
    (h : (l.pack r v address).run block = (.ok (), block')) :
    ∃ n, l.nodes[address]? = some n ∧ v.kind = n.kind ∧ v.children.length = n.childCount ∧
      (l.packAll r v.children n.firstChild).run block = (.ok (), block') := by
  rw [pack_compound hv] at h
  obtain ⟨n, mid, hfound, hparts⟩ := run_bind_eq_ok h
  obtain ⟨hn, rfl⟩ := lift_run_eq_ok hfound
  obtain ⟨u, mid', hchecked, hrun⟩ := run_bind_eq_ok hparts
  obtain ⟨hu, rfl⟩ := lift_run_eq_ok hchecked
  exact ⟨n, (node_of_nodeFor hn).1, (node_of_nodeFor hn).2, count_of_checkCount hu, hrun⟩

mutual

/-- What was packed had ids for all its strings. -/
theorem resolves_of_pack (v : Value) {address : Nat} {block block' : Bytes}
    (h : (l.pack r v address).run block = (.ok (), block')) : r.Resolves v.flatten := by
  intro text htext
  cases v with
  | vector values | matrix values | array values | struct values =>
    obtain ⟨n, _, _, _, h⟩ := packAll_of_pack rfl h
    rcases mem_cons.mp htext with heq | htext
    · cases heq
    · exact resolves_of_packAll values h text htext
  | string s =>
    rw [pack_leaf rfl] at h
    obtain ⟨n, bytes, _, _, hbytes, _⟩ := leafBytes_of_packLeaf h
    cases mem_singleton.mp htext
    rw [leafBytes] at hbytes
    split at hbytes
    · rename_i id hid
      exact ⟨id, hid⟩
    · cases hbytes
  | _ => simp [Value.flatten] at htext

theorem resolves_of_packAll (values : List Value) {first : Nat} {block block' : Bytes}
    (h : (l.packAll r values first).run block = (.ok (), block')) :
    r.Resolves (Value.flattenAll values) := by
  intro text htext
  cases values with
  | nil => cases htext
  | cons v rest =>
    rw [packAll] at h
    obtain ⟨_, mid, hv, hrest⟩ := run_bind_eq_ok h
    rcases mem_append.mp htext with htext | htext
    · exact resolves_of_pack v hv text htext
    · exact resolves_of_packAll rest hrest text htext

end

/-! ## Layouts of parameters -/

/-- A layout that was built holds no distribution, and its nodes represent the block. -/
theorem represents_of_build {parameters : List Parameter} {rules : LayoutRules}
    (h : build parameters rules = .ok l) :
    (∀ p ∈ parameters, p.type.distribution? = none) ∧
      Represents l.nodes (fun _ => True)
        (ValueType.structShape rules (parameters.map (·.type))) root 0 := by
  have hstorable : ∀ p ∈ parameters, p.type.distribution? = none := by
    rw [← findSome?_eq_none_iff]
    unfold build at h
    split at h
    · cases h
    · assumption
  obtain ⟨layout, hlayout, hnodes⟩ := represents_build rules hstorable
  rw [h] at hlayout
  cases hlayout
  exact ⟨hstorable, hnodes⟩

end Layout

end Shading
