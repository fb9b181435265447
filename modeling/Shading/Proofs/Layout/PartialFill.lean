import Shading.Proofs.Layout.Conformance

/-!
# Partial filling isolates failures

A block is filled parameter by parameter.  A value that cannot be packed may have written
some of its bytes by then; its parameter is cleared, and filling goes on.  Parameters have no
byte in common and packing does not look at the block, so every parameter ends as if it alone
had been filled.

Main definitions:

- `Layout.failure?` tells why a value cannot be packed into a parameter.
- `Layout.settle` is the block after one parameter was filled or cleared.
- `Layout.Partitioned` says that parameters are packed apart from each other.
- `Layout.Isolated` says what a partial filling leaves behind.

Main results:

- Theorem `Layout.fillPartialFrom_cons`: filling settles one parameter after the other.
- Theorems `Layout.Partitioned.fillPartialFrom_changedOnly`,
  `Layout.Partitioned.fillPartialFrom_getElem?` and
  `Layout.Partitioned.fillPartialFrom_failures`: what a run of filling does.
- Theorem `partial_fill_isolates_failures` draws the conclusions.
-/

namespace Shading

open List

variable {address i j : Nat} {block : Bytes}

namespace Layout

variable {l : Layout} {r : IndexResolver}

/-! ## One parameter -/

/-- Why a value cannot be packed into a parameter: what packing it alone reports, or that
there is no such parameter. -/
def failure? (l : Layout) (r : IndexResolver) (block : Bytes) (v : Value) (i : Nat) :
    Option LayoutError :=
  match l.child? i root with
  | none => some .invalidAddress
  | some address =>
    match (l.setValue r v address block).1 with
    | .ok () => none
    | .error e => some e

/-- The block after a value was packed into a parameter, or the parameter was cleared. -/
def settle (l : Layout) (r : IndexResolver) (v : Value) (i : Nat) (block : Bytes) : Bytes :=
  match l.child? i root with
  | none => block
  | some address =>
    match l.setValue r v address block with
    | (.ok (), packed) => packed
    | (.error _, spoiled) => l.clear address spoiled

/-- Filling settles the first parameter and goes on with the others. -/
theorem fillPartialFrom_cons (v : Value) (rest : List Value) (index : Nat) (block : Bytes) :
    l.fillPartialFrom r index (v :: rest) block =
      (((l.failure? r block v index).map (index, ·)).toList ++
          (l.fillPartialFrom r (index + 1) rest (l.settle r v index block)).1,
        (l.fillPartialFrom r (index + 1) rest (l.settle r v index block)).2) := by
  rw [fillPartialFrom, failure?, settle]
  cases l.child? index root with
  | none => rfl
  | some address =>
    dsimp only
    rcases l.setValue r v address block with ⟨e | u, mid⟩ <;> rfl

/-- Where there is room, clearing an address writes zeros over its range. -/
theorem splice?_clear {e : LayoutEntry} (he : l.entry? address = some e)
    (hroom : e.offset + e.size ≤ block.length) :
    block.splice? e.offset (Bytes.zeros e.size) = some (l.clear address block) := by
  have hfit : e.offset + (Bytes.zeros e.size).length ≤ block.length := by
    simpa [Bytes.zeros] using hroom
  obtain ⟨block', hsplice, -⟩ := Bytes.splice?_of_le hfit
  simp only [clear, he, hsplice, Option.getD_some]

/-- Where there is room, clearing an address sets its bytes to zero and changes no other. -/
theorem getElem?_clear {e : LayoutEntry} (he : l.entry? address = some e)
    (hroom : e.offset + e.size ≤ block.length) (j : Nat) :
    (l.clear address block)[j]? =
      if e.offset ≤ j ∧ j < e.offset + e.size then some 0 else block[j]? := by
  have hlength : (Bytes.zeros e.size).length = e.size := length_replicate
  rw [Bytes.getElem?_of_splice? (splice?_clear he hroom), hlength]
  by_cases hj : e.offset ≤ j ∧ j < e.offset + e.size
  · rw [if_pos hj, if_pos hj, Bytes.zeros, getElem?_replicate, if_pos (by omega)]
  · rw [if_neg hj, if_neg hj]

/-! ## Parameters apart from each other -/

/-- Packing a parameter is confined to its leaves, which lie in its range; no byte belongs to
two parameters, and all of them lie inside the block. -/
structure Partitioned (l : Layout) : Prop where
  onLeaves : ∀ {i address : Nat} (r : IndexResolver) (v : Value),
    l.child? i root = some address → Confined (l.OnLeaf address) l.size (l.pack r v address)
  covers : ∀ {i address j : Nat}, l.child? i root = some address → l.OnLeaf address j →
    l.Covers i j
  apart : ∀ {i k j : Nat}, l.Covers i j → l.Covers k j → i = k
  inside : ∀ {i : Nat} {e : LayoutEntry}, l.parameter? i = some e → e.offset + e.size ≤ l.size

theorem parameter?_of_child? (h : l.child? i root = some address) :
    l.parameter? i = l.entry? address := by
  rw [parameter?, h]
  rfl

namespace Partitioned

variable {block block' : Bytes}

theorem confined (h : l.Partitioned) (r : IndexResolver) (v : Value)
    (hchild : l.child? i root = some address) : Confined (l.Covers i) l.size (l.pack r v address) :=
  (h.onLeaves r v hchild).mono (h.covers hchild) (Nat.le_refl _)

theorem clear_changedOnly (h : l.Partitioned) (hchild : l.child? i root = some address)
    (hroom : l.size ≤ block.length) :
    Bytes.ChangedOnly (l.Covers i) block (l.clear address block) := by
  cases he : l.entry? address with
  | none =>
    simp only [clear, he]
    exact .refl _ block
  | some e =>
    have hparameter := (parameter?_of_child? hchild).trans he
    have hinside := Nat.le_trans (h.inside hparameter) hroom
    apply (Bytes.splice?_eq_some (splice?_clear he hinside)).1.mono
    intro j hj
    rw [Bytes.zeros, length_replicate] at hj
    exact ⟨e, hparameter, hj⟩

theorem clear_bytewise (h : l.Partitioned) (hchild : l.child? i root = some address)
    (hroom : l.size ≤ block.length) (hroom' : l.size ≤ block'.length)
    (hbyte : block[j]? = block'[j]?) :
    (l.clear address block)[j]? = (l.clear address block')[j]? := by
  cases he : l.entry? address with
  | none =>
    simp only [clear, he]
    exact hbyte
  | some e =>
    have hinside := h.inside ((parameter?_of_child? hchild).trans he)
    rw [getElem?_clear he (Nat.le_trans hinside hroom),
      getElem?_clear he (Nat.le_trans hinside hroom'), hbyte]

/-- Settling a parameter changes nothing outside its range. -/
theorem settle_changedOnly (h : l.Partitioned) (r : IndexResolver) (v : Value) (i : Nat)
    (hroom : l.size ≤ block.length) :
    Bytes.ChangedOnly (l.Covers i) block (l.settle r v i block) := by
  unfold settle
  cases hchild : l.child? i root with
  | none => exact .refl _ block
  | some address =>
    have hpacked := ((h.confined r v hchild).touches block).1
    have hmid := (h.confined r v hchild).room_le hroom
    dsimp only [setValue]
    generalize (l.pack r v address).run block = result at hpacked hmid ⊢
    rcases result with ⟨e | u, mid⟩
    · exact hpacked.trans (h.clear_changedOnly hchild hmid)
    · exact hpacked

/-- A byte of a settled block depends on the same byte before only. -/
theorem settle_bytewise (h : l.Partitioned) (r : IndexResolver) (v : Value) (i : Nat)
    (hroom : l.size ≤ block.length) (hroom' : l.size ≤ block'.length)
    (hbyte : block[j]? = block'[j]?) :
    (l.settle r v i block)[j]? = (l.settle r v i block')[j]? := by
  unfold settle
  cases hchild : l.child? i root with
  | none => exact hbyte
  | some address =>
    have hconfined := h.confined r v hchild
    have hsame := hconfined.uniform hroom hroom'
    have hbyte := hconfined.bytewise hroom hroom' hbyte
    have hmid := hconfined.room_le hroom
    have hmid' := hconfined.room_le hroom'
    dsimp only [setValue]
    generalize (l.pack r v address).run block = result at hsame hbyte hmid ⊢
    generalize (l.pack r v address).run block' = result' at hsame hbyte hmid' ⊢
    rcases result with ⟨e | u, mid⟩ <;> rcases result' with ⟨e' | u', mid'⟩ <;> cases hsame
    · exact h.clear_bytewise hchild hmid hmid' hbyte
    · exact hbyte

/-- Why a value cannot be packed does not depend on the block. -/
theorem failure?_uniform (h : l.Partitioned) (r : IndexResolver) (hroom : l.size ≤ block.length)
    (hroom' : l.size ≤ block'.length) : l.failure? r block = l.failure? r block' := by
  funext v i
  unfold failure? setValue
  cases hchild : l.child? i root with
  | none => rfl
  | some address =>
    dsimp only
    rw [(h.confined r v hchild).uniform hroom hroom']

/-! ## Filling -/

theorem settle_room (h : l.Partitioned) (r : IndexResolver) (v : Value) (i : Nat)
    (hroom : l.size ≤ block.length) : l.size ≤ (l.settle r v i block).length := by
  rw [(h.settle_changedOnly r v i hroom).length_eq]
  exact hroom

/-- Filling changes nothing outside the ranges of the parameters that it fills. -/
theorem fillPartialFrom_changedOnly (h : l.Partitioned) (r : IndexResolver) (values : List Value)
    (index : Nat) (hroom : l.size ≤ block.length) :
    Bytes.ChangedOnly (fun j => ∃ i, index ≤ i ∧ i < index + values.length ∧ l.Covers i j) block
      (l.fillPartialFrom r index values block).2 := by
  induction values generalizing index block with
  | nil => exact .refl _ block
  | cons v rest ih =>
    rw [fillPartialFrom_cons]
    apply Bytes.ChangedOnly.trans ((h.settle_changedOnly r v index hroom).mono _)
      ((ih (index + 1) (h.settle_room r v index hroom)).mono _)
    · intro j hj
      exact ⟨index, by omega, by simp, hj⟩
    · rintro j ⟨i, hle, hlt, hj⟩
      rw [length_cons]
      exact ⟨i, by omega, by omega, hj⟩

/-- In the end a parameter is as if it had been settled alone. -/
theorem fillPartialFrom_getElem? (h : l.Partitioned) (r : IndexResolver) {values : List Value}
    (index : Nat) {k : Nat} {v : Value} (hroom : l.size ≤ block.length) (hv : values[k]? = some v)
    (hj : l.Covers (index + k) j) :
    (l.fillPartialFrom r index values block).2[j]? = (l.settle r v (index + k) block)[j]? := by
  induction values generalizing index k block with
  | nil => cases hv
  | cons first rest ih =>
    rw [fillPartialFrom_cons]
    have hmid := h.settle_room r first index hroom
    cases k with
    | zero =>
      cases hv
      -- The parameters after this one do not touch it.
      apply (h.fillPartialFrom_changedOnly r rest (index + 1) hmid).outside
      rintro ⟨i, hle, -, hi⟩
      have heq := h.apart hi hj
      omega
    | succ k =>
      rw [Nat.add_comm k 1, ← Nat.add_assoc] at hj ⊢
      have hfirst : (l.settle r first index block)[j]? = block[j]? := by
        apply (h.settle_changedOnly r first index hroom).outside
        intro hi
        have heq := h.apart hi hj
        omega
      calc (l.fillPartialFrom r (index + 1) rest (l.settle r first index block)).2[j]?
          = (l.settle r v (index + 1 + k) (l.settle r first index block))[j]? :=
            ih (index + 1) hmid hv hj
        _ = (l.settle r v (index + 1 + k) block)[j]? :=
            h.settle_bytewise r v (index + 1 + k) hmid hroom hfirst

/-- The failures are those of the values alone, in order. -/
theorem fillPartialFrom_failures (h : l.Partitioned) (r : IndexResolver) (values : List Value)
    (index : Nat) (hroom : l.size ≤ block.length) :
    (l.fillPartialFrom r index values block).1 =
      (values.zipIdx index).filterMap fun p => (l.failure? r block p.1 p.2).map (p.2, ·) := by
  induction values generalizing index block with
  | nil => rfl
  | cons v rest ih =>
    have hmid := h.settle_room r v index hroom
    rw [fillPartialFrom_cons, ih (index + 1) hmid, h.failure?_uniform r hmid hroom,
      zipIdx_cons, filterMap_cons]
    cases l.failure? r block v index <;> rfl

end Partitioned

/-- Filling without a failure is what filling up to the first failure does, and otherwise
that fails with the first of the failures. -/
theorem fillFrom_of_fillPartialFrom (r : IndexResolver) (values : List Value) (index : Nat)
    (block : Bytes) :
    ((l.fillPartialFrom r index values block).1 = [] →
      (l.fillFrom r index values).run block =
        (.ok (), (l.fillPartialFrom r index values block).2)) ∧
    ∀ i e rest, (l.fillPartialFrom r index values block).1 = (i, e) :: rest →
      ((l.fillFrom r index values).run block).1 = .error e := by
  induction values generalizing index block with
  | nil =>
    constructor
    · intro _
      rfl
    · intro i e rest h
      cases h
  | cons v values ih =>
    rw [fillPartialFrom, fillFrom]
    cases l.child? index root with
    | none =>
      constructor
      · intro h
        cases h
      · intro i e rest h
        cases h
        rfl
    | some address =>
      dsimp only [setValue]
      rw [run_bind]
      rcases (l.pack r v address).run block with ⟨e | u, mid⟩
      · constructor
        · intro h
          cases h
        · intro i e rest h
          cases h
          rfl
      · exact ih (index + 1) mid

/-! ## Layouts of parameters -/

section

variable {parameters : List Parameter} {rules : LayoutRules}

/-- A layout has an address for each of its parameters, and for no further one. -/
theorem lt_length_of_child? (hbuild : build parameters rules = .ok l)
    (hchild : l.child? i root = some address) : i < parameters.length := by
  obtain ⟨o, s, hk, -⟩ := represents_of_child? (represents_of_build hbuild).2 hchild
  have hlt := (List.getElem?_eq_some_iff.mp hk).1
  rw [ValueType.length_structParts, length_map] at hlt
  exact hlt

theorem exists_parameterAt_of_child? (hbuild : build parameters rules = .ok l)
    (hnarrow : rules = .gpuStorage → ∀ p ∈ parameters, p.type.narrow = true)
    (hchild : l.child? i root = some address) :
    ∃ (p : Parameter) (offset : Nat), l.ParameterAt rules p.type i address offset := by
  have hlt := lt_length_of_child? hbuild hchild
  obtain ⟨address', offset, h⟩ :=
    exists_parameterAt hbuild hnarrow (getElem?_eq_getElem hlt)
  cases hchild.symm.trans h.child
  exact ⟨_, offset, h⟩

/-- The parameters of a layout are packed apart from each other. -/
theorem partitioned_of_build (hbuild : build parameters rules = .ok l)
    (hnarrow : rules = .gpuStorage → ∀ p ∈ parameters, p.type.narrow = true) : l.Partitioned := by
  have hparameter : ∀ {i : Nat} {e : LayoutEntry}, l.parameter? i = some e →
      ∃ address, l.child? i root = some address ∧ l.entry? address = some e := by
    intro i e h
    exact Option.bind_eq_some_iff.mp h
  constructor
  · intro i address r v hchild
    obtain ⟨p, offset, h⟩ := exists_parameterAt_of_child? hbuild hnarrow hchild
    exact (pack_confined h.nodes h.fits v).mono (fun hj => hj) h.below
  · intro i address j hchild hj
    obtain ⟨p, offset, h⟩ := exists_parameterAt_of_child? hbuild hnarrow hchild
    exact h.covers_of_onLeaf hj
  · rintro i k j ⟨e, he, hi⟩ ⟨e', he', hk⟩
    obtain ⟨address, hchild, hentry⟩ := hparameter he
    obtain ⟨address', hchild', hentry'⟩ := hparameter he'
    have hblock := (represents_of_build hbuild).2
    rw [← shape_blockType] at hblock
    have hfits := blockType_fits hnarrow
    -- Parameters lie one after the other.
    rcases Nat.lt_trichotomy i k with hlt | heq | hlt
    · have hbefore := hfits.before hblock hlt hchild hchild' hentry hentry'
      unfold LayoutEntry.Before at hbefore
      omega
    · exact heq
    · have hbefore := hfits.before hblock hlt hchild' hchild hentry' hentry
      unfold LayoutEntry.Before at hbefore
      omega
  · intro i e he
    obtain ⟨address, hchild, hentry⟩ := hparameter he
    obtain ⟨p, offset, h⟩ := exists_parameterAt_of_child? hbuild hnarrow hchild
    cases h.entry?_eq.symm.trans hentry
    exact h.below

end

/-- What a partial filling of a block leaves behind. -/
structure Isolated (l : Layout) (r : IndexResolver) (values : List Value) (block : Bytes)
    (failed : List (Nat × LayoutError)) (after : Bytes) : Prop where
  length_eq : after.length = block.length
  /-- A parameter whose value can be packed holds the bytes that packing it alone leaves
  there.  Those of its bytes that belong to no leaf are as they were. -/
  packed : ∀ {i address : Nat} {v : Value} {e : LayoutEntry} {alone : Bytes},
    values[i]? = some v → l.child? i root = some address → l.entry? address = some e →
      l.setValue r v address block = (.ok (), alone) →
        after.read e.offset e.size = alone.read e.offset e.size ∧
          ∀ j, e.offset ≤ j → j < e.offset + e.size → ¬ l.OnLeaf address j → after[j]? = block[j]?
  /-- A parameter whose value cannot be packed is zero. -/
  cleared : ∀ {i address : Nat} {v : Value} {e : LayoutEntry} {error : LayoutError}
    {alone : Bytes}, values[i]? = some v → l.child? i root = some address →
      l.entry? address = some e → l.setValue r v address block = (.error error, alone) →
        after.read e.offset e.size = Bytes.zeros e.size
  /-- All bytes outside the parameters that have values are as they were. -/
  outside : ∀ {j : Nat}, (∀ i < values.length, ¬ l.Covers i j) → after[j]? = block[j]?
  /-- The failures are those of the values alone, in order. -/
  failures : failed = values.zipIdx.filterMap fun p => (l.failure? r block p.1 p.2).map (p.2, ·)

/-- Filling parameters that are packed apart from each other isolates failures. -/
theorem Partitioned.isolated (h : l.Partitioned) (r : IndexResolver) (values : List Value)
    (hroom : l.size ≤ block.length) :
    l.Isolated r values block (l.fillPartial r values block).1
      (l.fillPartial r values block).2 := by
  have hchanged := h.fillPartialFrom_changedOnly r values 0 hroom
  have hbyte : ∀ {i j : Nat} {v : Value}, values[i]? = some v → l.Covers i j →
      (l.fillPartial r values block).2[j]? = (l.settle r v i block)[j]? := by
    intro i j v hv hj
    have hsettled := h.fillPartialFrom_getElem? r 0 hroom hv (by rwa [Nat.zero_add])
    rwa [Nat.zero_add] at hsettled
  constructor
  case length_eq => exact hchanged.length_eq
  case packed =>
    intro i address v e alone hv hchild he hset
    have hparameter := (parameter?_of_child? hchild).trans he
    have hsettle : l.settle r v i block = alone := by
      simp only [settle, hchild, hset]
    constructor
    · apply Bytes.read_congr
      intro j hle hlt
      rw [← hsettle]
      exact hbyte hv ⟨e, hparameter, hle, hlt⟩
    · intro j hle hlt hleaf
      have hpacked := ((h.onLeaves r v hchild).touches block).1
      rw [show (l.pack r v address).run block = (.ok (), alone) from hset] at hpacked
      rw [hbyte hv ⟨e, hparameter, hle, hlt⟩, hsettle]
      exact hpacked.outside hleaf
  case cleared =>
    intro i address v e error alone hv hchild he hset
    have hparameter := (parameter?_of_child? hchild).trans he
    have hsettle : l.settle r v i block = l.clear address alone := by
      simp only [settle, hchild, hset]
    have halone := (h.onLeaves r v hchild).room_le hroom
    rw [show (l.pack r v address).run block = (.error error, alone) from hset] at halone
    have hzeros :=
      (Bytes.splice?_eq_some (splice?_clear he (Nat.le_trans (h.inside hparameter) halone))).2
    rw [Bytes.zeros, length_replicate] at hzeros
    calc (l.fillPartial r values block).2.read e.offset e.size
        = (l.clear address alone).read e.offset e.size := by
          apply Bytes.read_congr
          intro j hle hlt
          rw [← hsettle]
          exact hbyte hv ⟨e, hparameter, hle, hlt⟩
      _ = Bytes.zeros e.size := hzeros
  case outside =>
    intro j hj
    apply hchanged.outside
    rintro ⟨i, -, hlt, hi⟩
    exact hj i (by omega) hi
  case failures => exact h.fillPartialFrom_failures r values 0 hroom

end Layout

/-- Partial filling isolates failures.  Take the layout of some parameters, under the storage
rules with no vector longer than four, and a block that is long enough.  Every parameter that
has a value ends as if it alone had been packed, or cleared if that fails.  Everything else in
the block is unchanged, and the failures are listed in order, also those of values that have no
parameter.  Filling up to the first failure does the same if there is none, and else fails with
the first one. -/
theorem partial_fill_isolates_failures {parameters : List Parameter} {rules : LayoutRules}
    {l : Layout} (hbuild : Layout.build parameters rules = .ok l)
    (hnarrow : rules = .gpuStorage → ∀ p ∈ parameters, p.type.narrow = true)
    (r : IndexResolver) (values : List Value) {block : Bytes} (hroom : l.size ≤ block.length) :
    (∀ i < parameters.length, ∃ address e,
        l.child? i Layout.root = some address ∧ l.entry? address = some e) ∧
      (∀ i, parameters.length ≤ i → l.child? i Layout.root = none) ∧
      l.Isolated r values block (l.fillPartial r values block).1
        (l.fillPartial r values block).2 ∧
      ((l.fillPartial r values block).1 = [] →
        l.fill r values block = (.ok (), (l.fillPartial r values block).2)) ∧
      ∀ i e rest, (l.fillPartial r values block).1 = (i, e) :: rest →
        (l.fill r values block).1 = .error e := by
  refine ⟨fun i hi => ?_, fun i hi => ?_, ?_, Layout.fillFrom_of_fillPartialFrom r values 0 block⟩
  · obtain ⟨address, offset, h⟩ :=
      Layout.exists_parameterAt hbuild hnarrow (getElem?_eq_getElem hi)
    exact ⟨address, _, h.child, h.entry?_eq⟩
  · cases hchild : l.child? i Layout.root with
    | none => rfl
    | some address =>
      have hlt := Layout.lt_length_of_child? hbuild hchild
      omega
  · exact (Layout.partitioned_of_build hbuild hnarrow).isolated r values hroom

/-- A label and a gain. -/
def labelParameters : List Parameter :=
  [⟨"label", .string, .string "abc"⟩, ⟨"gain", .int, .int 3⟩]

/-- Strings without ids. -/
def wordlessResolver : IndexResolver where
  resourceIndex := fun _ => 0
  stringIndex := fun _ => none

/-- The label is cleared, the gain is packed, and the third value has no parameter. -/
theorem partial_fill_isolates_failures_label :
    ∃ l, Layout.build labelParameters .scalar = .ok l ∧ l.size ≤ (List.replicate 8 255).length ∧
      l.fillPartial wordlessResolver [.string "abc", .int 3, .int 7] (List.replicate 8 255)
        = ([(0, .unsupported "string"), (2, .invalidAddress)], [0, 0, 0, 0, 3, 0, 0, 0]) ∧
      l.Isolated wordlessResolver [.string "abc", .int 3, .int 7] (List.replicate 8 255)
        [(0, .unsupported "string"), (2, .invalidAddress)] [0, 0, 0, 0, 3, 0, 0, 0] ∧
      (l.fill wordlessResolver [.string "abc", .int 3, .int 7] (List.replicate 8 255)).1
        = .error (.unsupported "string") := by
  obtain ⟨l, hbuild⟩ : ∃ l, Layout.build labelParameters .scalar = .ok l := ⟨_, rfl⟩
  have hroom : l.size ≤ (List.replicate 8 (255 : UInt8)).length := by
    cases hbuild
    decide
  have hfill : l.fillPartial wordlessResolver [.string "abc", .int 3, .int 7]
      (List.replicate 8 255)
        = ([(0, .unsupported "string"), (2, .invalidAddress)], [0, 0, 0, 0, 3, 0, 0, 0]) := by
    cases hbuild
    decide
  obtain ⟨-, -, hisolated, -, herror⟩ := partial_fill_isolates_failures hbuild nofun
    wordlessResolver [.string "abc", .int 3, .int 7] hroom
  rw [hfill] at hisolated herror
  exact ⟨l, hbuild, hroom, hfill, hisolated, herror 0 _ _ rfl⟩

end Shading
