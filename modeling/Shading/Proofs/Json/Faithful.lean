import Mathlib.Data.List.Perm.Basic
import Shading.Proofs.Json.RoundTrip
import Shading.Proofs.Number.Parts
import Shading.ValueType.Json

/-!
# JSON that tells things apart

Two things whose JSON is the same up to the order of keys are the same thing, for every
kind of thing that is written without loss.  Numbers have to be finite, since the others are
all written as null.

Main definitions:

- `LawfulNamed` says that the members of a finite type are found by their names.
- `Json.Tells` says that things are told apart by their JSON, `Json.Faithful` that things of a
  sort are, and `Json.Shows` that JSON shows a view of things.
- `Float32.masked` and `Float.masked` are the views of numbers: those that are not finite
  look all the same.

Main results:

- `Json.sortKeys_object_inj`: the values of records with the same keys agree.
- `Json.shows_ofWidened` and `Json.shows_ofFloat`: what JSON shows of numbers.
- `Json.Tells.ofList` and `Json.Tells.ofOption`: lists and options are written without loss
  if their items are.
- `ValueType.tells_toJson`: so are types.
-/

namespace Shading

open List

/-! ## Names -/

/-- A finite type whose members are found by their names. -/
class LawfulNamed (α : Type) [Named α] : Prop where
  ofName?_name : ∀ a : α, Named.ofName? (Named.name a) = some a

theorem Named.name_inj {α : Type} [Named α] [LawfulNamed α] {a b : α}
    (h : Named.name a = Named.name b) : a = b := by
  have hfound := LawfulNamed.ofName?_name a
  rw [h, LawfulNamed.ofName?_name b] at hfound
  exact (Option.some.inj hfound).symm

instance : LawfulNamed TextureShape := ⟨fun a => by cases a <;> rfl⟩
instance : LawfulNamed ScalarType := ⟨fun a => by cases a <;> rfl⟩
instance : LawfulNamed ValueKind := ⟨fun a => by cases a <;> rfl⟩

namespace Json

/-! ## The order of keys -/

theorem sortMembers_eq_map (members : List (String × Json)) :
    sortMembers members = members.map fun m => (m.1, m.2.sortKeys) := by
  induction members with
  | nil => rfl
  | cons m rest ih =>
    obtain ⟨key, value⟩ := m
    rw [sortMembers, ih, map_cons]

section Objects

variable {members members' : List (String × Json)}

theorem members_perm (h : sortKeys (.object members) = sortKeys (.object members')) :
    (members.map fun m => (m.1, m.2.sortKeys)).Perm
      (members'.map fun m => (m.1, m.2.sortKeys)) := by
  rw [sortKeys, sortKeys, sortMembers_eq_map, sortMembers_eq_map] at h
  have hperm' := mergeSort_perm (members'.map fun m => (m.1, m.2.sortKeys))
    fun a b => decide (a.1 ≤ b.1)
  rw [← Json.object.inj h] at hperm'
  exact (mergeSort_perm _ _).symm.trans hperm'

/-- A tag that no other member shares is the same. -/
theorem sortKeys_tag {key : String} {tag tag' : Json}
    (h : sortKeys (.object ((key, tag) :: members)) = sortKeys (.object ((key, tag') :: members')))
    (hkey : key ∉ members'.map (·.1)) : tag.sortKeys = tag'.sortKeys := by
  have hmem := (members_perm h).mem_iff.mp mem_cons_self
  obtain ⟨⟨key', value⟩, hm, heq⟩ := mem_map.mp hmem
  rcases mem_cons.mp hm with hm | hm
  · cases hm
    exact (Prod.mk.inj heq).2.symm
  · have hkey' : key' = key := (Prod.mk.inj heq).1
    exact absurd (mem_map.mpr ⟨(key', value), hm, hkey'⟩) hkey

/-- Permuted lists of pairs with the same keys in the same order are equal. -/
theorem eq_of_perm_of_keys {α β : Type} {l l' : List (α × β)} (hperm : l.Perm l')
    (hkeys : l.map (·.1) = l'.map (·.1)) (hnodup : (l.map (·.1)).Nodup) : l = l' := by
  induction l generalizing l' with
  | nil => exact hperm.nil_eq
  | cons a l ih =>
    cases l' with
    | nil => exact absurd hperm.symm.nil_eq (by simp)
    | cons b l' =>
      obtain ⟨hkey, hrest⟩ := List.cons.inj hkeys
      obtain ⟨hfresh, hnodup⟩ := nodup_cons.mp hnodup
      have hab : a = b := by
        rcases mem_cons.mp (hperm.mem_iff.mp mem_cons_self) with hab | hmem
        · exact hab
        · exact absurd (hrest ▸ mem_map_of_mem hmem) hfresh
      subst hab
      rw [ih hperm.cons_inv hrest hnodup]

/-- The values of two records agree, one by one, up to the order of keys. -/
def SameValues : List (String × Json) → List (String × Json) → Prop
  | m :: rest, m' :: rest' => m.2.sortKeys = m'.2.sortKeys ∧ SameValues rest rest'
  | _, _ => True

/-- Two records with the same keys have the same values. -/
theorem sortKeys_object_inj (h : sortKeys (.object members) = sortKeys (.object members'))
    (keys : List String) (hkeys : members.map (·.1) = keys := by rfl)
    (hkeys' : members'.map (·.1) = keys := by rfl) (hnodup : keys.Nodup := by decide) :
    SameValues members members' := by
  have hmap : ∀ ms : List (String × Json),
      (ms.map fun m => (m.1, m.2.sortKeys)).map (·.1) = ms.map (·.1) := by
    intro ms
    rw [map_map]
    rfl
  have heq := eq_of_perm_of_keys (members_perm h) (by rw [hmap, hmap, hkeys, hkeys'])
    (by rw [hmap, hkeys]; exact hnodup)
  clear h hkeys hkeys'
  induction members generalizing members' with
  | nil => trivial
  | cons m rest ih =>
    cases members' with
    | nil => trivial
    | cons m' rest' =>
      obtain ⟨hm, hrest⟩ := List.cons.inj heq
      exact ⟨(Prod.mk.inj hm).2, ih hrest⟩

end Objects

/-! ## Writing without loss -/

/-- Things of a sort are told apart by their JSON, whatever the order of its keys. -/
def Faithful {α : Type} (write : α → Json) (sort : α → Prop) : Prop :=
  ∀ ⦃a b : α⦄, sort a → sort b → (write a).sortKeys = (write b).sortKeys → a = b

variable {α : Type}

/-- Things are told apart by their JSON, whatever their sort. -/
def Tells {α : Type} (write : α → Json) : Prop :=
  ∀ ⦃a b : α⦄, (write a).sortKeys = (write b).sortKeys → a = b

theorem tells_string : Tells Json.string :=
  fun _ _ h => Json.string.inj h

theorem tells_bool : Tells Json.bool :=
  fun _ _ h => Json.bool.inj h

theorem tells_ofNamed [Named α] [LawfulNamed α] : Tells (ofNamed : α → Json) :=
  fun _ _ h => Named.name_inj (Json.string.inj h)

theorem ofInt_inj {n n' : Int} (h : Json.ofInt n = Json.ofInt n') : n = n' := by
  have hsign := congrArg Numeral.negative (Json.number.inj h)
  have hwhole : n.natAbs = n'.natAbs := congrArg Numeral.whole (Json.number.inj h)
  have hneg : n < 0 ↔ n' < 0 := decide_eq_decide.mp hsign
  omega

theorem tells_ofNat : Tells Json.ofNat :=
  fun _ _ h => Int.ofNat.inj (ofInt_inj h)

theorem tells_ofInt32 : Tells Json.ofInt32 :=
  fun _ _ h => Int32.toInt_inj.mp (ofInt_inj h)

/-- JSON shows a view of things: things that are written alike look alike. -/
def Shows {α β : Type} (write : α → Json) (view : α → β) : Prop :=
  ∀ ⦃a b : α⦄, (write a).sortKeys = (write b).sortKeys → view a = view b

/-! ## Numbers -/

/-- A number is written as a leaf. -/
theorem sortKeys_ofFloat (x : Float) : (ofFloat x).sortKeys = ofFloat x := by
  unfold ofFloat
  split <;> rfl

theorem sortKeys_ofFloat32 (x : Float32) : (ofFloat32 x).sortKeys = ofFloat32 x := by
  unfold ofFloat32
  split <;> rfl

theorem ofFloat_eq_null_iff (x : Float) : ofFloat x = .null ↔ ¬ Float.finite x := by
  unfold ofFloat Float.finite
  cases Float.parts? x <;> simp

theorem ofFloat32_eq_null_iff (x : Float32) : ofFloat32 x = .null ↔ ¬ Float32.finite x := by
  unfold ofFloat32 Float32.finite
  cases Float32.parts? x <;> simp

end Json

/-- A number, or one that stands for all that are not finite. -/
def Float.masked (x : Float) : Float :=
  if Float.finite x then x else Float.ofMagnitudeBits false BinaryFormat.double.infinity

/-- A number, or one that stands for all that are not finite. -/
def Float32.masked (x : Float32) : Float32 :=
  if Float32.finite x then x else Float32.ofMagnitudeBits false BinaryFormat.single.infinity

/-- Widening keeps what is finite and what is not. -/
theorem Float32.finite_widen (x : Float32) : Float.finite (widen x) = finite x := by
  unfold Float.finite finite
  cases hparts : parts? x with
  | some parts =>
    obtain ⟨m', hwide, -⟩ := parts?_widen hparts
    rw [hwide]
    rfl
  | none =>
    simp only [widen, hparts]
    split
    · decide
    · cases decide (Nat.pow 2 31 ≤ x.toBits.toNat) <;> decide

theorem Float.masked_eq_iff {x y : Float} :
    masked x = masked y ↔ x = y ∨ ¬ finite x ∧ ¬ finite y := by
  have hmask : ¬ finite (ofMagnitudeBits false BinaryFormat.double.infinity) := by decide
  unfold masked
  by_cases hx : finite x <;> by_cases hy : finite y <;> grind

theorem Float32.masked_eq_iff {x y : Float32} :
    masked x = masked y ↔ x = y ∨ ¬ finite x ∧ ¬ finite y := by
  have hmask : ¬ finite (ofMagnitudeBits false BinaryFormat.single.infinity) := by decide
  unfold masked
  by_cases hx : finite x <;> by_cases hy : finite y <;> grind

namespace Json

theorem shows_ofFloat : Shows ofFloat Float.masked := by
  intro x y h
  rw [sortKeys_ofFloat, sortKeys_ofFloat] at h
  rw [Float.masked_eq_iff]
  by_cases hx : Float.finite x
  · have hy : Float.finite y := by
      by_contra hy
      rw [(ofFloat_eq_null_iff y).mpr hy] at h
      exact (ofFloat_eq_null_iff x).mp h hx
    exact Or.inl (ofFloat_inj hx hy h)
  · rw [(ofFloat_eq_null_iff x).mpr hx] at h
    exact Or.inr ⟨hx, (ofFloat_eq_null_iff y).mp h.symm⟩

theorem shows_ofWidened : Shows ofWidened Float32.masked := by
  intro x y h
  have hwide := Float.masked_eq_iff.mp (shows_ofFloat h)
  rw [Float32.finite_widen, Float32.finite_widen] at hwide
  rw [Float32.masked_eq_iff]
  rcases hwide with hwide | hinfinite
  · by_cases hx : Float32.finite x
    · have hy : Float32.finite y := by
        rw [← Float32.finite_widen, ← hwide, Float32.finite_widen]
        exact hx
      exact Or.inl (ofWidened_inj hx hy (congrArg ofFloat hwide))
    · refine Or.inr ⟨hx, ?_⟩
      rw [← Float32.finite_widen, ← hwide, Float32.finite_widen]
      exact hx
  · exact Or.inr hinfinite

theorem ofFloat_masked (x : Float) : ofFloat (Float.masked x) = ofFloat x := by
  unfold Float.masked
  split
  · rfl
  · rename_i hx
    rw [(ofFloat_eq_null_iff x).mpr hx, ofFloat_eq_null_iff]
    decide

theorem ofWidened_masked (x : Float32) : ofWidened (Float32.masked x) = ofWidened x := by
  unfold Float32.masked
  split
  · rfl
  · rename_i hx
    rw [← Float32.finite_widen] at hx
    unfold ofWidened
    rw [(ofFloat_eq_null_iff (Float32.widen x)).mpr hx, ofFloat_eq_null_iff, Float32.finite_widen]
    decide

theorem faithful_ofFloat32 : Faithful Json.ofFloat32 fun x => Float32.finite x := by
  intro x y hx hy h
  rw [sortKeys_ofFloat32, sortKeys_ofFloat32] at h
  exact ofFloat32_inj hx hy h

section Containers

variable {α : Type} {write : α → Json} {sort : α → Prop}

/-- Lists with the same keys are related item by item. -/
theorem forall₂_of_map_eq {α β γ : Type} {R : α → β → Prop} {key : α → γ} {key' : β → γ}
    {l : List α} {l' : List β} (h : ∀ a ∈ l, ∀ b ∈ l', key a = key' b → R a b)
    (hkeys : l.map key = l'.map key') : Forall₂ R l l' := by
  induction l generalizing l' with
  | nil =>
    cases l' with
    | nil => exact .nil
    | cons b l' => cases hkeys
  | cons a l ih =>
    cases l' with
    | nil => cases hkeys
    | cons b l' =>
      obtain ⟨hkey, hrest⟩ := List.cons.inj hkeys
      refine .cons (h a mem_cons_self b mem_cons_self hkey) (ih ?_ hrest)
      exact fun c hc d hd => h c (mem_cons_of_mem a hc) d (mem_cons_of_mem b hd)

theorem ofList_inj {R : α → α → Prop} {l l' : List α}
    (h : ∀ a ∈ l, ∀ b ∈ l', (write a).sortKeys = (write b).sortKeys → R a b)
    (heq : (Json.ofList write l).sortKeys = (Json.ofList write l').sortKeys) : Forall₂ R l l' := by
  have hitems : ∀ l : List α, sortItems (l.map write) = l.map fun a => (write a).sortKeys := by
    intro l
    induction l with
    | nil => rfl
    | cons a l ih => rw [map_cons, map_cons, sortItems, ih]
  refine forall₂_of_map_eq h ?_
  rw [← hitems, ← hitems]
  exact Json.array.inj heq

theorem Faithful.ofList (h : Faithful write sort) :
    Faithful (Json.ofList write) fun l => ∀ a ∈ l, sort a := by
  intro l l' hl hl' heq
  rw [← forall₂_eq_eq_eq]
  exact ofList_inj (fun a ha b hb => h (hl a ha) (hl' b hb)) heq

theorem Shows.ofList {β : Type} {view : α → β} (h : Shows write view) :
    Shows (Json.ofList write) (List.map view) := by
  intro l l' heq
  rw [← forall₂_eq_eq_eq, forall₂_map_left_iff, forall₂_map_right_iff]
  exact ofList_inj (fun a _ b _ => @h a b) heq

theorem Tells.ofList (h : Tells write) : Tells (Json.ofList write) := by
  intro l l' heq
  rw [← forall₂_eq_eq_eq]
  exact ofList_inj (fun a _ b _ => @h a b) heq

theorem Shows.ofOption {β : Type} {view : α → β} (h : Shows write view)
    (hnull : ∀ a, (write a).sortKeys ≠ .null) : Shows (Json.ofOption write) (Option.map view) := by
  intro o o' heq
  cases o with
  | none =>
    cases o' with
    | none => rfl
    | some b => exact absurd heq.symm (hnull b)
  | some a =>
    cases o' with
    | none => exact absurd heq (hnull a)
    | some b => rw [Option.map_some, Option.map_some, h heq]

/-- What may be missing is written without loss, if nothing is written as null. -/
theorem Tells.ofOption (h : Tells write) (hnull : ∀ a, (write a).sortKeys ≠ .null) :
    Tells (Json.ofOption write) := by
  intro o o' heq
  have hshown : o.map id = o'.map id := Shows.ofOption (fun _ _ hab => h hab) hnull heq
  simpa using hshown

end Containers

end Json

/-! ## Types -/

namespace ValueType

open Json

/-- What is written of a type beside the name of its kind. -/
def payload : ValueType → List (String × Json)
  | .enum name => [("name", .string name)]
  | .vector element size => [("element", .ofNamed element), ("size", .ofNat size)]
  | .matrix columns rows => [("columns", .ofNat columns), ("rows", .ofNat rows)]
  | .array element size => [("element", element.toJson), ("size", .ofNat size)]
  | .struct name fields => [("name", .string name), ("fields", .array (fieldsToJson fields))]
  | .texture shape => [("shape", .ofNamed shape)]
  | _ => []

theorem toJson_eq (t : ValueType) :
    t.toJson = .object (("type", .ofNamed t.kind) :: t.payload) := by
  cases t <;> rw [toJson] <;> first | rfl | (intros; contradiction)

theorem not_mem_payload (t : ValueType) : "type" ∉ t.payload.map (·.1) := by
  cases t <;> simp [payload]

mutual

theorem eq_of_sortKeys (t t' : ValueType) (h : t.toJson.sortKeys = t'.toJson.sortKeys) :
    t = t' := by
  have hkind : t.kind = t'.kind := by
    rw [toJson_eq, toJson_eq] at h
    exact tells_ofNamed (sortKeys_tag h t'.not_mem_payload)
  cases t with
  | enum name =>
    cases t' <;> try cases hkind
    obtain ⟨-, hname, -⟩ := sortKeys_object_inj h ["type", "name"]
    rw [tells_string hname]
  | vector element size =>
    cases t' <;> try cases hkind
    obtain ⟨-, helement, hsize, -⟩ := sortKeys_object_inj h ["type", "element", "size"]
    rw [tells_ofNamed helement, tells_ofNat hsize]
  | matrix columns rows =>
    cases t' <;> try cases hkind
    obtain ⟨-, hcolumns, hrows, -⟩ := sortKeys_object_inj h ["type", "columns", "rows"]
    rw [tells_ofNat hcolumns, tells_ofNat hrows]
  | array element size =>
    cases t' <;> try cases hkind
    obtain ⟨-, helement, hsize, -⟩ := sortKeys_object_inj h ["type", "element", "size"]
    rw [eq_of_sortKeys element _ helement, tells_ofNat hsize]
  | struct name fields =>
    cases t' <;> try cases hkind
    obtain ⟨-, hname, hfields, -⟩ := sortKeys_object_inj h ["type", "name", "fields"]
    rw [tells_string hname,
      fields_eq_of_sortItems fields _ (Json.array.inj hfields)]
  | texture shape =>
    cases t' <;> try cases hkind
    obtain ⟨-, hshape, -⟩ := sortKeys_object_inj h ["type", "shape"]
    rw [tells_ofNamed hshape]
  | _ => cases t' <;> first | rfl | cases hkind

theorem fields_eq_of_sortItems (fields fields' : List (String × ValueType))
    (h : sortItems (fieldsToJson fields) = sortItems (fieldsToJson fields')) :
    fields = fields' := by
  cases fields with
  | nil =>
    cases fields' with
    | nil => rfl
    | cons f' rest' => cases h
  | cons f rest =>
    cases fields' with
    | nil => cases h
    | cons f' rest' =>
      obtain ⟨name, t⟩ := f
      obtain ⟨hfirst, hrest⟩ := List.cons.inj h
      obtain ⟨hname, htype, -⟩ := sortKeys_object_inj hfirst ["name", "type"]
      rw [fields_eq_of_sortItems rest rest' hrest, eq_of_sortKeys t f'.2 htype,
        tells_string hname]

end

/-- Types are written without loss. -/
theorem tells_toJson : Tells ValueType.toJson :=
  fun t t' h => eq_of_sortKeys t t' h

end ValueType

end Shading
