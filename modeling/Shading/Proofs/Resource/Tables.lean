import Mathlib.Data.List.Nodup
import Shading.Resource.Registry

/-!
# Resource tables

What holds of the tables however many fragments are bound against them: a row stands at
its index, no name has two rows, and every row but the first one is a resource that the
store reports as valid.  The indices that were given out stay right, because a table only
grows at its end.  A row and a binding carry what the store reports, but what is not valid shares
the first row, which knows nothing of it.

Main definitions:

- `ResourceTables.Sound` is the invariant of the tables.
- `ResourceTables.Assigns` says which index stands for a reference.
- `ResourceTables.Represents` says which binding stands for a reference.
- `ResourceTables.Binding` is what binding some references does, and
  `ResourceTables.FragmentsBinding` what binding some fragments does.
- `AssetStore.Withdraws` says that a resource is described, but not valid.

Main results:

- Theorems `ResourceTables.bindAll_binding`, `ResourceTables.bindFragment_binding` and
  `ResourceTables.bindDistribution_binding`: every reference gets the binding that stands
  for it.
- Theorem `ResourceTables.bindAll_again`: against tables that hold the resources already,
  binding gives the same indices and adds no row.
- Theorem `ResourceTables.Sound.row_attributes`: what the row of a reference carries.
-/

namespace Shading

open List

variable {m : ResourceMap} {ref : ResourceRef} {b : ResourceBinding}
  {entries : List (ResourceRef × ResourceBinding)} {index : Nat} {s : ResourceTables × ResourceMap}
  {lib : Library}

/-! ## Maps -/

theorem ResourceRef.eq_of_not_lt (a b : ResourceRef) (hab : ¬a < b) (hba : ¬b < a) : a = b := by
  obtain ⟨kindA, nameA⟩ := a
  obtain ⟨kindB, nameB⟩ := b
  change ¬ResourceRef.before _ _ = true at hab hba
  by_cases hkind : kindA = kindB
  · subst hkind
    cases nameA with
    | none => cases nameB <;> simp_all [ResourceRef.before]
    | some x =>
      cases nameB with
      | none => simp_all [ResourceRef.before]
      | some y =>
        simp only [ResourceRef.before, if_true, decide_eq_true_eq] at hab hba
        rw [String.le_antisymm (String.not_lt.mp hba) (String.not_lt.mp hab)]
  · simp only [ResourceRef.before, if_neg hkind, if_neg (Ne.symm hkind), decide_eq_true_eq]
      at hab hba
    cases kindA <;> cases kindB <;> simp_all [ResourceKind.slot]

namespace ResourceMap

theorem find?_insert (m : ResourceMap) (ref : ResourceRef) (b : ResourceBinding)
    (other : ResourceRef) :
    OrderedMap.find? (m.insert ref b) other = if ref = other then some b else m.find? other :=
  OrderedMap.find?_insert ResourceRef.eq_of_not_lt m ref b other

theorem contains_insert {other : ResourceRef} :
    OrderedMap.contains (m.insert ref b) other ↔ ref = other ∨ m.contains other := by
  unfold OrderedMap.contains
  rw [find?_insert]
  split <;> simp_all

theorem mem_of_find? (h : m.find? ref = some b) : (ref, b) ∈ m.entries := by
  unfold OrderedMap.find? at h
  obtain ⟨e, he, rfl⟩ := Option.map_eq_some_iff.mp h
  have hkey : e.1 = ref := by simpa using find?_some he
  rw [← hkey]
  exact mem_of_find?_eq_some he

theorem mem_insertEntry {e : ResourceRef × ResourceBinding}
    (h : e ∈ OrderedMap.insertEntry ref b entries) : e = (ref, b) ∨ e ∈ entries := by
  induction entries with
  | nil => exact .inl (by simpa [OrderedMap.insertEntry] using h)
  | cons first rest ih =>
    unfold OrderedMap.insertEntry at h
    split at h
    · exact (mem_cons.mp h).imp_right id
    · split at h
      · rcases mem_cons.mp h with rfl | h
        · exact .inr mem_cons_self
        · exact (ih h).imp_right (mem_cons_of_mem _)
      · exact (mem_cons.mp h).imp_right (mem_cons_of_mem _)

end ResourceMap

/-! ## Rows -/

/-- Whether a store reports the resource of a reference as valid. -/
def AssetStore.knows (s : AssetStore) (ref : ResourceRef) : Bool :=
  match ref.name with
  | none => false
  | some name => (s.attributes ref.kind name).valid

/-- What a store reports of the resource of a reference; one without a name is not valid. -/
def AssetStore.lookup (store : AssetStore) (ref : ResourceRef) : ResourceAttributes :=
  match ref.name with
  | none => .invalid ref.kind
  | some name => store.attributes ref.kind name

namespace ResourceTables

/-- The invariant of the tables over a store. -/
structure Sound (t : ResourceTables) (store : AssetStore) : Prop where
  reserved : ∀ kind, (t.table kind)[0]? = some (.reserved kind)
  index : ∀ kind i (e : ResourceEntry), (t.table kind)[i]? = some e → e.index = i
  names : ∀ kind, (((t.table kind).drop 1).map (·.name)).Nodup
  valid : ∀ kind, ∀ e ∈ (t.table kind).drop 1, store.knows ⟨kind, some e.name⟩ = true
  attributes : ∀ kind, ∀ e ∈ (t.table kind).drop 1, e.attributes = store.attributes kind e.name

/-- The index that stands for a reference: the position of its name in the table of its
kind, or 0 if it has no name or the store does not report it as valid. -/
def Assigns (t : ResourceTables) (store : AssetStore) (ref : ResourceRef) (index : Nat) : Prop :=
  if store.knows ref then 0 < index ∧ ((t.table ref.kind)[index]?).map (·.name) = ref.name
  else index = 0

/-- The binding that stands for a reference: it has the index and what the store reports. -/
structure Represents (t : ResourceTables) (store : AssetStore) (ref : ResourceRef)
    (b : ResourceBinding) : Prop where
  index : t.Assigns store ref b.index
  attributes : b.attributes = store.lookup ref

/-- Rows are only added at the ends of the tables. -/
def Extends (t t' : ResourceTables) : Prop :=
  ∀ kind, t.table kind <+: t'.table kind

namespace Extends

variable {t t' t'' : ResourceTables}

theorem refl (t : ResourceTables) : t.Extends t :=
  fun _ => prefix_refl _

theorem trans (h : t.Extends t') (h' : t'.Extends t'') : t.Extends t'' :=
  fun kind => (h kind).trans (h' kind)

end Extends

variable {t t' : ResourceTables} {store : AssetStore} {kind : ResourceKind} {name : String}

theorem initial_sound (store : AssetStore) : initial.Sound store where
  reserved kind := by cases kind <;> rfl
  index kind i e h := by
    have hsingle : initial.table kind = [.reserved kind] := by cases kind <;> rfl
    rw [hsingle] at h
    cases i with
    | zero =>
      cases h
      rfl
    | succ i => simp at h
  names kind := by cases kind <;> exact nodup_nil
  valid kind e h := by cases kind <;> cases h
  attributes kind e h := by cases kind <;> cases h

@[simp]
theorem table_push (t : ResourceTables) (kind other : ResourceKind) (e : ResourceEntry) :
    (t.push kind e).table other = t.table other ++ if kind = other then [e] else [] := by
  cases kind <;> cases other <;> simp [push, table]

theorem push_extends (t : ResourceTables) (kind : ResourceKind) (e : ResourceEntry) :
    t.Extends (t.push kind e) := by
  intro other
  rw [table_push]
  exact prefix_append _ _

theorem Assigns.mono (h : t.Assigns store ref index) (hext : t.Extends t') :
    t'.Assigns store ref index := by
  unfold Assigns at h ⊢
  split at h
  · rename_i hknows
    rw [if_pos hknows]
    refine ⟨h.1, ?_⟩
    cases hrow : (t.table ref.kind)[index]? with
    | none =>
      rw [hrow] at h
      unfold AssetStore.knows at hknows
      rw [← h.2] at hknows
      cases hknows
    | some e =>
      rw [hrow] at h
      obtain ⟨more, hmore⟩ := hext ref.kind
      rw [← hmore, List.getElem?_append_left (List.getElem?_eq_some_iff.mp hrow).1, hrow]
      exact h.2
  · rename_i hknows
    rw [if_neg hknows]
    exact h

theorem indexOf?_of_extends (h : t.indexOf? kind name = some index) (hext : t.Extends t') :
    t'.indexOf? kind name = some index := by
  unfold indexOf? at h ⊢
  obtain ⟨e, he, rfl⟩ := Option.map_eq_some_iff.mp h
  obtain ⟨more, hmore⟩ := hext kind
  rw [← hmore, drop_append, find?_append, he]
  rfl

/-- A name that is not found has no row. -/
theorem name_ne_of_indexOf?_none (t : ResourceTables) (h : t.indexOf? kind name = none) :
    ∀ e ∈ (t.table kind).drop 1, e.name ≠ name := by
  intro e he hname
  have hnone := find?_eq_none.mp (Option.map_eq_none_iff.mp h) e he
  simp [hname] at hnone

namespace Sound

/-- A row that is looked up stands where its index says. -/
theorem row_of_indexOf? (h : t.Sound store) (hindex : t.indexOf? kind name = some index) :
    0 < index ∧ ((t.table kind)[index]?).map (·.name) = some name := by
  unfold indexOf? at hindex
  obtain ⟨e, he, rfl⟩ := Option.map_eq_some_iff.mp hindex
  have hname : e.name = name := by simpa using find?_some he
  obtain ⟨i, hi⟩ := mem_iff_getElem?.mp (mem_of_find?_eq_some he)
  rw [getElem?_drop] at hi
  have hrow := h.index kind _ e hi
  rw [hrow, hi]
  exact ⟨by omega, congrArg some hname⟩

/-- The row of a name is found by the name. -/
theorem indexOf?_of_row (h : t.Sound store) (hpos : 0 < index)
    (hrow : ((t.table kind)[index]?).map (·.name) = some name) :
    t.indexOf? kind name = some index := by
  obtain ⟨e, he, hname⟩ := Option.map_eq_some_iff.mp hrow
  have hmem : e ∈ (t.table kind).drop 1 := by
    refine mem_iff_getElem?.mpr ⟨index - 1, ?_⟩
    rw [getElem?_drop, Nat.add_sub_cancel' hpos, he]
  unfold indexOf?
  cases hfind : ((t.table kind).drop 1).find? fun e => e.name == name with
  | none =>
    have hnone := find?_eq_none.mp hfind e hmem
    simp [hname] at hnone
  | some e' =>
    have hname' : e'.name = name := by simpa using find?_some hfind
    have heq : e' = e := inj_on_of_nodup_map (h.names kind)
      (mem_of_find?_eq_some hfind) hmem (hname'.trans hname.symm)
    rw [heq, ← h.index kind index e he]
    rfl

/-- A new row for a valid resource that has none keeps the tables sound. -/
theorem push (h : t.Sound store) (hknows : store.knows ⟨kind, some name⟩ = true)
    (hnew : t.indexOf? kind name = none) (shape : TextureShape) :
    (t.push kind ⟨(t.table kind).length, name, shape, store.attributes kind name⟩).Sound store := by
  have hlength : ∀ other, 1 ≤ (t.table other).length := by
    intro other
    have hreserved := h.reserved other
    cases htable : t.table other with
    | nil =>
      rw [htable] at hreserved
      cases hreserved
    | cons first rest => exact Nat.le_add_left 1 _
  have hdrop : ∀ (other : ResourceKind) (more : List ResourceEntry),
      (t.table other ++ more).drop 1 = (t.table other).drop 1 ++ more :=
    fun other more => drop_append_of_le_length (hlength other)
  -- A row is an old one, or it is the new one.
  have hrows : ∀ {other e}, e ∈ ((t.push kind ⟨(t.table kind).length, name, shape,
      store.attributes kind name⟩).table other).drop 1 → e ∈ (t.table other).drop 1 ∨
      kind = other ∧ e = ⟨(t.table kind).length, name, shape, store.attributes kind name⟩ := by
    intro other e he
    rw [table_push, hdrop] at he
    refine (mem_append.mp he).imp_right fun he => ?_
    split at he
    · exact ⟨‹_›, mem_singleton.mp he⟩
    · cases he
  constructor
  · intro other
    rw [table_push, getElem?_append_left (hlength other)]
    exact h.reserved other
  · intro other i e hrow
    rw [table_push] at hrow
    by_cases hi : i < (t.table other).length
    · rw [getElem?_append_left hi] at hrow
      exact h.index other i e hrow
    · rw [getElem?_append_right (Nat.le_of_not_lt hi)] at hrow
      split at hrow
      · rename_i hkind
        subst hkind
        rw [getElem?_singleton] at hrow
        split at hrow
        · cases hrow
          change (t.table kind).length = i
          omega
        · cases hrow
      · cases hrow
  · intro other
    rw [table_push, hdrop]
    split
    · rename_i hkind
      subst hkind
      rw [map_append, nodup_append']
      refine ⟨h.names kind, nodup_singleton _, ?_⟩
      intro n hn hn'
      obtain ⟨e, he, rfl⟩ := mem_map.mp hn
      exact t.name_ne_of_indexOf?_none hnew e he (by simpa using hn')
    · rw [append_nil]
      exact h.names other
  · intro other e he
    rcases hrows he with he | ⟨rfl, rfl⟩
    · exact h.valid other e he
    · exact hknows
  · intro other e he
    rcases hrows he with he | ⟨rfl, rfl⟩
    · exact h.attributes other e he
    · rfl

end Sound

/-- A registration changes nothing, or adds a row for a valid resource that had none. -/
theorem register_cases (t : ResourceTables) (kind : ResourceKind) (name : String)
    (a : ResourceAttributes) :
    (t.register kind name a).2 = t ∧ (a.valid = true → ∃ index,
      t.indexOf? kind name = some index ∧ (t.register kind name a).1 = index) ∨
    a.valid = true ∧ t.indexOf? kind name = none ∧
      t.register kind name a = ((t.table kind).length,
        t.push kind ⟨(t.table kind).length, name, a.shape, a⟩) := by
  unfold register
  split
  · rename_i hvalid
    cases hindex : t.indexOf? kind name with
    | some index => exact .inl ⟨rfl, fun _ => ⟨index, rfl, rfl⟩⟩
    | none => exact .inr ⟨hvalid, rfl, rfl⟩
  · rename_i hvalid
    exact .inl ⟨rfl, fun h => absurd h hvalid⟩

theorem register_extends (t : ResourceTables) (kind : ResourceKind) (name : String)
    (a : ResourceAttributes) : t.Extends (t.register kind name a).2 := by
  rcases t.register_cases kind name a with ⟨hsame, -⟩ | ⟨-, -, hpush⟩
  · rw [hsame]
    exact .refl t
  · rw [hpush]
    exact t.push_extends kind _

/-- Registering a resource gives out the index that stands for it. -/
theorem register_assigns (h : t.Sound store) (kind : ResourceKind) (name : String) :
    let registered := t.register kind name (store.attributes kind name)
    registered.2.Sound store ∧ registered.2.Assigns store ⟨kind, some name⟩ registered.1 := by
  intro registered
  have hknows : store.knows ⟨kind, some name⟩ = (store.attributes kind name).valid := rfl
  unfold Assigns
  rw [hknows]
  rcases t.register_cases kind name (store.attributes kind name) with
    ⟨hsame, hindex⟩ | ⟨hvalid, hnew, hpush⟩
  · rw [show registered.2 = t from hsame]
    refine ⟨h, ?_⟩
    split
    · rename_i hvalid
      obtain ⟨index, hfound, hgiven⟩ := hindex hvalid
      rw [show registered.1 = index from hgiven]
      exact h.row_of_indexOf? hfound
    · rename_i hvalid
      simp only [registered, register, if_neg hvalid]
  · rw [show registered = _ from hpush, if_pos hvalid]
    have hpos : 0 < (t.table kind).length := (List.getElem?_eq_some_iff.mp (h.reserved kind)).1
    exact ⟨h.push (hknows.trans hvalid) hnew _, hpos, by simp⟩

/-- A resource that has its index keeps it in every extension of the tables. -/
theorem register_again (h : t.Sound store)
    (hext : (t.register kind name (store.attributes kind name)).2.Extends t') :
    t'.register kind name (store.attributes kind name)
      = ((t.register kind name (store.attributes kind name)).1, t') := by
  obtain ⟨hsound, hassigns⟩ := register_assigns h kind name
  by_cases hvalid : (store.attributes kind name).valid
  · have hknows : store.knows ⟨kind, some name⟩ = true := hvalid
    unfold Assigns at hassigns
    rw [if_pos hknows] at hassigns
    have hindex := hsound.indexOf?_of_row hassigns.1 hassigns.2
    unfold register
    rw [if_pos hvalid, indexOf?_of_extends hindex hext]
    unfold register
    rw [if_pos hvalid]
  · unfold register
    rw [if_neg hvalid, if_neg hvalid]

/-! ## Binding -/

/-- Every binding of a map stands for its reference. -/
def RepresentsAll (t : ResourceTables) (store : AssetStore) (m : ResourceMap) : Prop :=
  ∀ e ∈ m.entries, t.Represents store e.1 e.2

/-- What binding some references does to tables and a map: no index changes, the references
get their bindings, and no binding is lost. -/
structure Binding (store : AssetStore) (s s' : ResourceTables × ResourceMap)
    (refs : List ResourceRef) : Prop where
  grows : s.1.Extends s'.1
  sound : s.1.Sound store → s'.1.Sound store
  represents : s.1.Sound store → s.1.RepresentsAll store s.2 → s'.1.RepresentsAll store s'.2
  binds : ∀ ref, ref ∈ refs ∨ s.2.contains ref → s'.2.contains ref

theorem RepresentsAll.mono {m : ResourceMap} (h : t.RepresentsAll store m) (hext : t.Extends t') :
    t'.RepresentsAll store m :=
  fun e he => ⟨(h e he).index.mono hext, (h e he).attributes⟩

theorem RepresentsAll.insert (h : t.RepresentsAll store m) (hb : t.Represents store ref b) :
    t.RepresentsAll store (m.insert ref b) := by
  intro e he
  rcases ResourceMap.mem_insertEntry he with rfl | he
  · exact hb
  · exact h e he

theorem bind_binding (store : AssetStore) (s : ResourceTables × ResourceMap) (ref : ResourceRef) :
    Binding store s (bind store s ref) [ref] := by
  obtain ⟨t, m⟩ := s
  obtain ⟨kind, name⟩ := ref
  unfold bind
  split
  · rename_i hfound
    refine ⟨.refl t, id, fun _ => id, ?_⟩
    rintro other (hother | hother)
    · rw [mem_singleton.mp hother]
      exact hfound
    · exact hother
  · -- A map that gets a binding for the reference holds it, and all that it held before.
    have hbinds : ∀ b other, other ∈ [⟨kind, name⟩] ∨ m.contains other →
        (OrderedMap.insert m ⟨kind, name⟩ b).contains other := by
      rintro b other (hother | hother)
      · exact ResourceMap.contains_insert.mpr (.inl (mem_singleton.mp hother).symm)
      · exact ResourceMap.contains_insert.mpr (.inr hother)
    cases name with
    | none => exact ⟨.refl t, id, fun _ hall => hall.insert ⟨rfl, rfl⟩, hbinds _⟩
    | some name =>
      have hext := t.register_extends kind name (store.attributes kind name)
      refine ⟨hext, fun h => (register_assigns h kind name).1, fun h hall => ?_, hbinds _⟩
      exact (hall.mono hext).insert ⟨(register_assigns h kind name).2, rfl⟩

theorem bindAll_binding (store : AssetStore) (s : ResourceTables × ResourceMap)
    (refs : List ResourceRef) : Binding store s (bindAll store s refs) refs := by
  induction refs generalizing s with
  | nil => exact ⟨.refl s.1, id, fun _ => id, fun ref href => href.resolve_left not_mem_nil⟩
  | cons first rest ih =>
    have hfirst := bind_binding store s first
    have hrest := ih (bind store s first)
    refine ⟨hfirst.grows.trans hrest.grows, fun h => hrest.sound (hfirst.sound h),
      fun h hall => hrest.represents (hfirst.sound h) (hfirst.represents h hall), ?_⟩
    rintro ref (href | href)
    · rcases mem_cons.mp href with rfl | href
      · exact hrest.binds ref (.inr (hfirst.binds ref (.inl mem_cons_self)))
      · exact hrest.binds ref (.inl href)
    · exact hrest.binds ref (.inr (hfirst.binds ref (.inr href)))

/-- Against tables that extend the outcome of a binding, the same references get the same
bindings, and no row is added. -/
theorem bindAll_again (h : s.1.Sound store) {refs : List ResourceRef}
    (hext : (bindAll store s refs).1.Extends t') :
    bindAll store (t', s.2) refs = (t', (bindAll store s refs).2) := by
  induction refs generalizing s with
  | nil => rfl
  | cons first rest ih =>
    have hfirst := bind_binding store s first
    have hstep : bind store (t', s.2) first = (t', (bind store s first).2) := by
      have hgrows := (bindAll_binding store (bind store s first) rest).grows.trans hext
      obtain ⟨t, m⟩ := s
      obtain ⟨kind, name⟩ := first
      unfold bind at hgrows ⊢
      split at hgrows
      · rename_i hfound
        rw [if_pos hfound, if_pos hfound]
      · rename_i hfound
        rw [if_neg hfound, if_neg hfound]
        cases name with
        | none => rfl
        | some name =>
          have hagain := register_again h hgrows
          simp only [hagain]
    change bindAll store (bind store (t', s.2) first) rest = _
    rw [hstep]
    exact ih (hfirst.sound h) hext

/-! ## Fragments and distributions -/

/-- What binding some fragments does, whose references are bound in one map. -/
structure FragmentsBinding (store : AssetStore) (lib : Library) (fragments : List Fragment)
    (t t' : ResourceTables) (m : ResourceMap) : Prop where
  grows : t.Extends t'
  sound : t.Sound store → t'.Sound store
  represents : t.Sound store → (∀ f ∈ fragments, f.resources = OrderedMap.empty) →
    t'.RepresentsAll store m
  binds : ∀ f ∈ fragments, ∀ ref ∈ lib.resourceRefs f, m.contains ref

theorem bindFragment_binding (t : ResourceTables) (store : AssetStore) (lib : Library)
    (f : Fragment) : FragmentsBinding store lib [f] t (t.bindFragment store lib f).1
      (t.bindFragment store lib f).2 := by
  have hall := bindAll_binding store (t, f.resources) (lib.resourceRefs f)
  refine ⟨hall.grows, hall.sound, fun h hempty => hall.represents h ?_, fun g hg ref href => ?_⟩
  · rw [hempty f mem_cons_self]
    exact forall_mem_nil _
  · rw [mem_singleton.mp hg] at href
    exact hall.binds ref (.inl href)

/-- Entries of other maps are added to a map, none is lost. -/
theorem contains_foldl_insert (h : (∃ e ∈ entries, e.1 = ref) ∨ m.contains ref) :
    (entries.foldl (fun m e => m.insert e.1 e.2) m).contains ref := by
  induction entries generalizing m with
  | nil => exact h.resolve_left fun ⟨e, he, _⟩ => by cases he
  | cons first rest ih =>
    apply ih
    rcases h with ⟨e, he, rfl⟩ | h
    · rcases mem_cons.mp he with rfl | he
      · exact .inr (ResourceMap.contains_insert.mpr (.inl rfl))
      · exact .inl ⟨e, he, rfl⟩
    · exact .inr (ResourceMap.contains_insert.mpr (.inr h))

theorem representsAll_foldl_insert (hm : t.RepresentsAll store m)
    (hentries : ∀ e ∈ entries, t.Represents store e.1 e.2) :
    t.RepresentsAll store (entries.foldl (fun m e => m.insert e.1 e.2) m) := by
  induction entries generalizing m with
  | nil => exact hm
  | cons first rest ih =>
    exact ih (hm.insert (hentries first mem_cons_self))
      fun e he => hentries e (mem_cons_of_mem _ he)

/-- Fragments that are bound one after the other, with the bindings of the later ones added to
those of the earlier ones. -/
theorem FragmentsBinding.append {t'' : ResourceTables} {m' : ResourceMap}
    {fragments more : List Fragment} (h : FragmentsBinding store lib fragments t t' m)
    (h' : FragmentsBinding store lib more t' t'' m') :
    FragmentsBinding store lib (fragments ++ more) t t''
      (m'.entries.foldl (fun m e => m.insert e.1 e.2) m) := by
  refine ⟨h.grows.trans h'.grows, fun ht => h'.sound (h.sound ht), fun ht hempty => ?_, ?_⟩
  · rw [forall_mem_append] at hempty
    exact representsAll_foldl_insert ((h.represents ht hempty.1).mono h'.grows)
      (h'.represents (h.sound ht) hempty.2)
  · intro f hf ref href
    apply contains_foldl_insert
    rcases mem_append.mp hf with hf | hf
    · exact .inr (h.binds f hf ref href)
    · obtain ⟨b, hb⟩ := Option.isSome_iff_exists.mp (h'.binds f hf ref href)
      exact .inl ⟨(ref, b), ResourceMap.mem_of_find? hb, rfl⟩

theorem FragmentsBinding.bindFragments {fragments : List Fragment}
    (h : FragmentsBinding store lib fragments t t' m) (more : List Fragment) :
    FragmentsBinding store lib (fragments ++ more) t (t'.bindFragments store lib more).1
      (((t'.bindFragments store lib more).2.flatMap (·.entries)).foldl
        (fun m e => m.insert e.1 e.2) m) := by
  induction more generalizing fragments t' m with
  | nil => rwa [append_nil]
  | cons f rest ih =>
    have hrest := ih (h.append (t'.bindFragment_binding store lib f))
    rw [append_assoc, ← foldl_append] at hrest
    exact hrest

theorem bindFragments_extends (t : ResourceTables) (store : AssetStore) (lib : Library)
    (fragments : List Fragment) : t.Extends (t.bindFragments store lib fragments).1 := by
  have hnone : FragmentsBinding store lib [] t t OrderedMap.empty :=
    ⟨.refl t, id, fun _ _ => forall_mem_nil _, forall_mem_nil _⟩
  exact (hnone.bindFragments fragments).grows

/-- The main map of a distribution has the bindings of all its fragments. -/
theorem bindDistribution_binding (t : ResourceTables) (store : AssetStore) (lib : Library)
    (d : Distribution) : FragmentsBinding store lib (d.main :: d.aux) t
      (t.bindDistribution store lib d).1 (t.bindDistribution store lib d).2.main :=
  (t.bindFragment_binding store lib d.main).bindFragments d.aux

/-! ## Binding again -/

theorem bindFragment_again (h : t.Sound store) {f : Fragment}
    (hext : (t.bindFragment store lib f).1.Extends t') :
    t'.bindFragment store lib f = (t', (t.bindFragment store lib f).2) :=
  bindAll_again (s := (t, f.resources)) h hext

theorem bindFragments_again (h : t.Sound store) {fragments : List Fragment}
    (hext : (t.bindFragments store lib fragments).1.Extends t') :
    t'.bindFragments store lib fragments = (t', (t.bindFragments store lib fragments).2) := by
  induction fragments generalizing t with
  | nil => rfl
  | cons first rest ih =>
    have hagain := bindFragment_again h ((bindFragments_extends _ store lib rest).trans hext)
    have hmore := ih ((t.bindFragment_binding store lib first).sound h) hext
    simp only [bindFragments, hagain, hmore]

/-- A distribution that is bound against its own tables gets its bindings again, and no row
is added. -/
theorem bindDistribution_again (h : t.Sound store) {d : Distribution}
    (hext : (t.bindDistribution store lib d).1.Extends t') :
    t'.bindDistribution store lib d = (t', (t.bindDistribution store lib d).2) := by
  have hagain := bindFragment_again h ((bindFragments_extends _ store lib d.aux).trans hext)
  have hmore := bindFragments_again ((t.bindFragment_binding store lib d.main).sound h) hext
  simp only [bindDistribution, hagain, hmore]

end ResourceTables

/-! ## Withdrawn resources -/

namespace AssetStore

/-- A resource that the store describes and does not report as valid. -/
def Withdraws (store : AssetStore) (ref : ResourceRef) : Prop :=
  ∃ name a, ref.name = some name ∧ store.find? ref.kind name = some a ∧ a.valid = false

variable {store : AssetStore}

theorem knows_eq_valid (store : AssetStore) (ref : ResourceRef) :
    store.knows ref = (store.lookup ref).valid := by
  obtain ⟨kind, name⟩ := ref
  cases name with
  | none => cases kind <;> rfl
  | some name => rfl

/-- What is neither valid nor withdrawn is reported as if it could not be found. -/
theorem lookup_of_unknown (hknows : ¬ store.knows ref = true) (h : ¬ store.Withdraws ref) :
    store.lookup ref = .invalid ref.kind := by
  obtain ⟨kind, name⟩ := ref
  cases name with
  | none => rfl
  | some name =>
    change (store.find? kind name).getD (.invalid kind) = .invalid kind
    cases hfind : store.find? kind name with
    | none => rfl
    | some a =>
      refine absurd ⟨name, a, rfl, hfind, ?_⟩ h
      rw [knows_eq_valid] at hknows
      change ¬ ((store.find? kind name).getD (.invalid kind)).valid = true at hknows
      rw [hfind] at hknows
      exact Bool.eq_false_iff.mpr hknows

theorem Withdraws.not_knows (h : store.Withdraws ref) : ¬ store.knows ref = true := by
  obtain ⟨kind, _⟩ := ref
  obtain ⟨name, a, rfl, hfind, hvalid⟩ := h
  change ¬ ((store.find? kind name).getD (.invalid kind)).valid = true
  rw [hfind]
  exact Bool.eq_false_iff.mp hvalid

end AssetStore

/-- The row at the index that stands for a reference carries what the store reports of it, unless
the resource is withdrawn: then it is the first row. -/
theorem ResourceTables.Sound.row_attributes {t : ResourceTables} {store : AssetStore}
    (h : t.Sound store) (hindex : t.Assigns store ref index) :
    ∃ e, (t.table ref.kind)[index]? = some e ∧
      (¬ store.Withdraws ref → e.attributes = store.lookup ref) ∧
      (store.Withdraws ref → e = .reserved ref.kind) := by
  unfold ResourceTables.Assigns at hindex
  split at hindex
  · rename_i hknows
    have hrow : ∃ e, (t.table ref.kind)[index]? = some e ∧ e.attributes = store.lookup ref := by
      obtain ⟨kind, name⟩ := ref
      cases name with
      | none => cases hknows
      | some name =>
        obtain ⟨hpos, hrow⟩ := hindex
        obtain ⟨e, he, hname⟩ := Option.map_eq_some_iff.mp hrow
        have hmem : e ∈ (t.table kind).drop 1 := by
          refine mem_iff_getElem?.mpr ⟨index - 1, ?_⟩
          rw [getElem?_drop, Nat.add_sub_cancel' hpos, he]
        refine ⟨e, he, ?_⟩
        rw [h.attributes kind e hmem, hname]
        rfl
    obtain ⟨e, he, hattributes⟩ := hrow
    exact ⟨e, he, fun _ => hattributes, fun hw => absurd hknows hw.not_knows⟩
  · rename_i hknows
    subst hindex
    exact ⟨.reserved ref.kind, h.reserved ref.kind,
      fun hw => (AssetStore.lookup_of_unknown hknows hw).symm, fun _ => rfl⟩

end Shading
