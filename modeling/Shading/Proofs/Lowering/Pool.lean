import Shading.Proofs.Layout.Packing
import Shading.Proofs.Lowering.Growth

/-!
# Read-only data stays where it is

A pool changes in two ways: a string gets an id, or a piece of data is placed behind
everything else.  So pieces stay where they are, and no two different pieces overlap.

Main definitions:

- `DataPool.Reaches` relates a pool to the later ones.
- `DataPool.Sound` says that every piece is where the pool says it is, and apart from the
  others.

Main results:

- Theorem `DataPool.Reaches.bytes`: bytes are only appended.
- Theorem `DataPool.Reaches.sound`: soundness is kept.
- Theorem `DataPool.Sound.places`: equal pieces are in one place, others do not overlap.
-/

namespace Shading

open List

theorem Bytes.read_of_prefix {block longer : Bytes} (h : block <+: longer) {offset size : Nat}
    (hfit : offset + size ≤ block.length) : longer.read offset size = block.read offset size := by
  obtain ⟨rest, rfl⟩ := h
  refine Bytes.read_congr fun _ hlt => ?_
  exact getElem?_append_left (by omega)

theorem mem_of_lookup {pieces : List (Bytes × Nat)} {piece : Bytes} {offset : Nat}
    (h : pieces.lookup piece = some offset) : (piece, offset) ∈ pieces := by
  obtain ⟨before, after, rfl, _⟩ := lookup_eq_some_iff.mp h
  exact mem_append_right _ mem_cons_self

namespace DataPool

/-! ## Placing a piece -/

theorem length_aligned (p : DataPool) :
    p.bytes.length ≤ (p.bytes ++ p.padding).length ∧
      pieceAlign ∣ (p.bytes ++ p.padding).length := by
  rw [length_append, padding, Bytes.zeros, length_replicate]
  unfold pieceAlign
  omega

/-- What placing a piece does: nothing if the piece is there, else it goes behind the data
at the next multiple of the alignment. -/
theorem addBytes_cases (p : DataPool) (piece : Bytes) :
    (∃ offset, p.pieces.lookup piece = some offset ∧ p.addBytes piece = (offset, p)) ∨
      p.pieces.lookup piece = none ∧
        p.addBytes piece = ((p.bytes ++ p.padding).length,
          { p with
            bytes := p.bytes ++ p.padding ++ piece
            pieces := p.pieces ++ [(piece, (p.bytes ++ p.padding).length)] }) := by
  unfold addBytes
  split
  · rename_i offset hoffset
    exact Or.inl ⟨offset, hoffset, rfl⟩
  · rename_i hnone
    exact Or.inr ⟨hnone, rfl⟩

/-! ## Sound pools -/

/-- Every piece is aligned and where the pool says it is, and the pieces follow each
other. -/
structure Sound (p : DataPool) : Prop where
  aligned : ∀ {piece : Bytes} {offset : Nat}, (piece, offset) ∈ p.pieces → pieceAlign ∣ offset
  inside : ∀ {piece : Bytes} {offset : Nat}, (piece, offset) ∈ p.pieces →
    offset + piece.length ≤ p.bytes.length
  stored : ∀ {piece : Bytes} {offset : Nat}, (piece, offset) ∈ p.pieces →
    p.bytes.read offset piece.length = piece
  apart : p.pieces.Pairwise fun a b => a.1 ≠ b.1 ∧ a.2 + a.1.length ≤ b.2

theorem empty_sound : DataPool.empty.Sound where
  aligned := fun h => absurd h not_mem_nil
  inside := fun h => absurd h not_mem_nil
  stored := fun h => absurd h not_mem_nil
  apart := .nil

namespace Sound

variable {p : DataPool}

theorem intern (h : p.Sound) (text : String) : (p.intern text).2.Sound :=
  ⟨h.aligned, h.inside, h.stored, h.apart⟩

theorem addBytes (h : p.Sound) (piece : Bytes) : (p.addBytes piece).2.Sound := by
  rcases p.addBytes_cases piece with ⟨offset, _, heq⟩ | ⟨hnone, heq⟩
  · rw [heq]
    exact h
  rw [heq]
  have hlength := p.length_aligned
  generalize hgap : p.bytes ++ p.padding = gap at hlength ⊢
  have hold : p.bytes <+: gap ++ piece := by
    rw [← hgap, append_assoc]
    exact prefix_append _ _
  -- A piece is one of the old ones, or the one that was placed.
  have hsplit : ∀ {q : Bytes} {o : Nat}, (q, o) ∈ p.pieces ++ [(piece, gap.length)] →
      (q, o) ∈ p.pieces ∨ q = piece ∧ o = gap.length := by
    intro q o hq
    rcases mem_append.mp hq with hq | hq
    · exact Or.inl hq
    · exact Or.inr (Prod.mk.inj (mem_singleton.mp hq))
  refine ⟨fun hq => ?_, fun hq => ?_, fun hq => ?_, ?_⟩
  · rcases hsplit hq with hq | ⟨_, rfl⟩
    · exact h.aligned hq
    · exact hlength.2
  · rw [length_append]
    rcases hsplit hq with hq | ⟨rfl, rfl⟩
    · have := h.inside hq
      omega
    · exact Nat.le_refl _
  · rcases hsplit hq with hq | ⟨rfl, rfl⟩
    · exact (Bytes.read_of_prefix hold (h.inside hq)).trans (h.stored hq)
    · rw [Bytes.read, drop_left, take_length]
  · refine pairwise_append.mpr ⟨h.apart, pairwise_singleton _ _, ?_⟩
    rintro ⟨q, o⟩ hq b hb
    rw [mem_singleton.mp hb]
    refine ⟨?_, Nat.le_trans (h.inside hq) hlength.1⟩
    rintro rfl
    exact (bne_iff_ne.mp (lookup_eq_none_iff.mp hnone _ hq)) rfl

/-- Equal pieces are in one place, and different ones do not overlap. -/
theorem places (h : p.Sound) {a b : Bytes} {o o' : Nat} (ha : (a, o) ∈ p.pieces)
    (hb : (b, o') ∈ p.pieces) :
    (a = b → o = o') ∧ (a ≠ b → o + a.length ≤ o' ∨ o' + b.length ≤ o) := by
  obtain ⟨i, hi, hia⟩ := getElem_of_mem ha
  obtain ⟨j, hj, hjb⟩ := getElem_of_mem hb
  have hapart := pairwise_iff_getElem.mp h.apart
  rcases Nat.lt_trichotomy i j with hij | rfl | hji
  · have hab := hapart i j hi hj hij
    rw [hia, hjb] at hab
    exact ⟨fun heq => absurd heq hab.1, fun _ => Or.inl hab.2⟩
  · cases hia.symm.trans hjb
    exact ⟨fun _ => rfl, fun hne => absurd rfl hne⟩
  · have hba := hapart j i hj hi hji
    rw [hia, hjb] at hba
    exact ⟨fun heq => absurd heq.symm hba.1, fun _ => Or.inr hba.2⟩

end Sound

/-! ## Later pools -/

/-- A later state of a pool: strings got ids and pieces of data were placed. -/
inductive Reaches (p : DataPool) : DataPool → Prop
  | refl : p.Reaches p
  | intern {q : DataPool} (text : String) : p.Reaches q → p.Reaches (q.intern text).2
  | addBytes {q : DataPool} (piece : Bytes) : p.Reaches q → p.Reaches (q.addBytes piece).2

namespace Reaches

variable {p q : DataPool}

theorem trans {r : DataPool} (hpq : p.Reaches q) (hqr : q.Reaches r) : p.Reaches r := by
  induction hqr with
  | refl => exact hpq
  | intern text _ ih => exact ih.intern text
  | addBytes piece _ ih => exact ih.addBytes piece

theorem internStrings (p : DataPool) (strings : List String) :
    p.Reaches { p with strings := internStrings p.strings strings } := by
  induction strings generalizing p with
  | nil => exact .refl
  | cons text strings ih => exact (Reaches.refl.intern text).trans (ih (p.intern text).2)

theorem grows (h : p.Reaches q) : p.Grows q := by
  induction h with
  | refl => exact Grows.refl p
  | intern text _ ih => exact ih.trans (intern_grows _ text)
  | addBytes piece _ ih => exact ih.trans (addBytes_grows _ piece)

/-- Bytes are only appended. -/
theorem bytes (h : p.Reaches q) : p.bytes <+: q.bytes := by
  induction h with
  | refl => exact prefix_refl _
  | intern text _ ih => exact ih
  | @addBytes q piece _ ih =>
    rcases q.addBytes_cases piece with ⟨offset, _, heq⟩ | ⟨_, heq⟩
    · rw [heq]
      exact ih
    · rw [heq]
      refine ih.trans ?_
      dsimp only
      rw [append_assoc]
      exact prefix_append _ _

theorem sound (h : p.Reaches q) (hp : p.Sound) : q.Sound := by
  induction h with
  | refl => exact hp
  | intern text _ ih => exact ih.intern text
  | addBytes piece _ ih => exact ih.addBytes piece

end Reaches

/-- A piece is read back where it was placed, in every later pool. -/
theorem Sound.read_of_lookup {p q : DataPool} (hp : p.Sound) (h : p.Reaches q) {piece : Bytes}
    {offset : Nat} (hpiece : p.pieces.lookup piece = some offset) :
    q.bytes.read offset piece.length = piece := by
  have hmem := mem_of_lookup hpiece
  rw [Bytes.read_of_prefix h.bytes (hp.inside hmem)]
  exact hp.stored hmem

end DataPool

end Shading
