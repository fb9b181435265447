import Shading.Proofs.Resource.Tables
import Shading.Proofs.Resource.Walk

/-!
# Indices in the order of first mention

Whatever is called, tables change by registrations, one after the other.  A registration of a
valid resource that has no row adds a row at the end, and every other one changes nothing.  So the
rows of a fragment come in the order in which a walk through it mentions their resources first.

Main definitions:

- `RegistryCall` is a call that may add rows, and `RegistryCall.registrations` what it registers.
- `Registry` keeps a counter for each kind and an index by name beside the tables.
- `ResourceTables.newNames` lists the resources that references add to a table.

Main results:

- Theorem `RegistryCall.run_eq`: a call makes its registrations, and nothing else.
- Theorem `Registry.Agrees.registerAll`: counters and index stay in step with the tables.
- Theorem `ResourceTables.Sound.exists_new_rows`: references add their new names, in order.
- Theorem `indices_follow_first_mention` puts this together.
-/

namespace Shading

open List

/-- A resource and what is reported of it. -/
structure Registration where
  kind : ResourceKind
  name : String
  attributes : ResourceAttributes

/-- What a store reports of references that a map does not have and that are named, in the order
in which they are mentioned first. -/
def AssetStore.reports (store : AssetStore) (m : ResourceMap) (refs : List ResourceRef) :
    List Registration :=
  (refs.filter fun ref => !m.contains ref).eraseDups.filterMap fun ref => ref.name.map fun name =>
    ⟨ref.kind, name, store.attributes ref.kind name⟩

namespace ResourceTables

variable {t : ResourceTables} {store : AssetStore} {kind : ResourceKind} {name : String}
  {s : ResourceTables × ResourceMap} {refs : List ResourceRef} {log : List Registration}

/-! ## Registrations -/

/-- The tables after registrations. -/
def registerAll (t : ResourceTables) (log : List Registration) : ResourceTables :=
  log.foldl (fun t x => (t.register x.kind x.name x.attributes).2) t

theorem registerAll_append (t : ResourceTables) (log more : List Registration) :
    t.registerAll (log ++ more) = (t.registerAll log).registerAll more :=
  foldl_append

/-- Registrations add rows at the end, of resources that they report as valid. -/
theorem exists_rows (t : ResourceTables) (log : List Registration) (kind : ResourceKind) :
    ∃ rows, (t.registerAll log).table kind = t.table kind ++ rows ∧
      ∀ e ∈ rows, e.attributes.valid = true ∧ ⟨kind, e.name, e.attributes⟩ ∈ log := by
  induction log generalizing t with
  | nil => exact ⟨[], (append_nil _).symm, forall_mem_nil _⟩
  | cons x log ih =>
    obtain ⟨rows, hrows, hall⟩ := ih (t.register x.kind x.name x.attributes).2
    change (t.registerAll (x :: log)).table kind = _ at hrows
    have hall' : ∀ e ∈ rows, e.attributes.valid = true ∧ ⟨kind, e.name, e.attributes⟩ ∈ x :: log :=
      fun e he => ⟨(hall e he).1, mem_cons_of_mem _ (hall e he).2⟩
    rcases t.register_cases x.kind x.name x.attributes with ⟨hsame, -⟩ | ⟨hvalid, -, hpush⟩
    · rw [hsame] at hrows
      exact ⟨rows, hrows, hall'⟩
    · rw [hpush, table_push, append_assoc] at hrows
      refine ⟨_, hrows, fun e he => ?_⟩
      rcases mem_append.mp he with he | he
      · split at he
        · rename_i hkind
          rw [mem_singleton.mp he, ← hkind]
          exact ⟨hvalid, mem_cons_self⟩
        · cases he
      · exact hall' e he

theorem registerAll_extends (t : ResourceTables) (log : List Registration) :
    t.Extends (t.registerAll log) := by
  intro kind
  obtain ⟨rows, hrows, -⟩ := t.exists_rows log kind
  exact ⟨rows, hrows.symm⟩

/-- Tables are sound over some store after every registration, since a store may learn what was
registered. -/
theorem Sound.register (h : t.Sound store) (kind : ResourceKind) (name : String)
    (a : ResourceAttributes) : ∃ store, (t.register kind name a).2.Sound store := by
  rcases t.register_cases kind name a with ⟨hsame, -⟩ | ⟨hvalid, hnew, hpush⟩
  · rw [hsame]
    exact ⟨store, h⟩
  · have hfind (ref : ResourceRef) : (store.insert kind name a).assets.find? ref
        = if ⟨kind, some name⟩ = ref then some a else store.assets.find? ref :=
      OrderedMap.find?_insert ResourceRef.eq_of_not_lt _ _ _ ref
    have hattributes (other : ResourceKind) (name' : String) :
        (store.insert kind name a).attributes other name' =
          if (⟨kind, some name⟩ : ResourceRef) = ⟨other, some name'⟩ then a
          else store.attributes other name' := by
      unfold AssetStore.attributes AssetStore.find?
      rw [hfind]
      split <;> rfl
    have hold : ∀ other, ∀ e ∈ (t.table other).drop 1,
        (store.insert kind name a).attributes other e.name = store.attributes other e.name := by
      intro other e he
      rw [hattributes, if_neg]
      rintro ⟨⟩
      exact t.name_ne_of_indexOf?_none hnew e he rfl
    have hlearned : t.Sound (store.insert kind name a) :=
      { h with
        valid := fun other e he => (congrArg (·.valid) (hold other e he)).trans (h.valid other e he)
        attributes := fun other e he => (h.attributes other e he).trans (hold other e he).symm }
    have hself : (store.insert kind name a).attributes kind name = a := by
      rw [hattributes, if_pos rfl]
    have hpushed := hlearned.push ((congrArg (·.valid) hself).trans hvalid) hnew a.shape
    rw [hself] at hpushed
    rw [hpush]
    exact ⟨_, hpushed⟩

theorem Sound.registerAll (h : t.Sound store) (log : List Registration) :
    ∃ store, (t.registerAll log).Sound store := by
  induction log generalizing t store with
  | nil => exact ⟨store, h⟩
  | cons x log ih =>
    obtain ⟨store', h'⟩ := h.register x.kind x.name x.attributes
    exact ih h'

/-! ## References -/

theorem contains_bind {ref other : ResourceRef} :
    (bind store s ref).2.contains other ↔ ref = other ∨ s.2.contains other := by
  obtain ⟨kind, name⟩ := ref
  unfold bind
  split
  · rename_i hfound
    refine ⟨.inr, fun h => h.elim (fun heq => heq ▸ hfound) id⟩
  · cases name <;> exact ResourceMap.contains_insert

/-- References that a map has are not looked at again. -/
theorem bindAll_of_contains (h : ∀ ref ∈ refs, s.2.contains ref) : bindAll store s refs = s := by
  induction refs with
  | nil => rfl
  | cons first rest ih =>
    have hfirst : bind store s first = s := by
      unfold bind
      rw [if_pos (h first mem_cons_self)]
    change bindAll store (bind store s first) rest = s
    rw [hfirst]
    exact ih fun ref href => h ref (mem_cons_of_mem _ href)

/-- Binding references registers those that the map does not have, each of them once. -/
theorem bindAll_fst (store : AssetStore) (s : ResourceTables × ResourceMap)
    (refs : List ResourceRef) :
    (bindAll store s refs).1 = s.1.registerAll (store.reports s.2 refs) := by
  unfold AssetStore.reports
  induction refs generalizing s with
  | nil => rfl
  | cons first rest ih =>
    change (bindAll store (bind store s first) rest).1 = _
    rw [ih]
    by_cases hfound : s.2.contains first
    · rw [filter_cons_of_neg (by simpa using hfound)]
      unfold bind
      rw [if_pos hfound]
    · rw [filter_cons_of_pos (by simpa using hfound), eraseDups_cons, filter_filter]
      have hfilter : (fun ref => !(bind store s first).2.contains ref)
          = fun ref => (!ref == first) && !s.2.contains ref := by
        funext ref
        rw [Bool.eq_iff_iff, Bool.not_eq_true', ← Bool.not_eq_true, contains_bind]
        simp [eq_comm (a := first)]
      rw [hfilter]
      obtain ⟨kind, name⟩ := first
      unfold bind
      rw [if_neg hfound]
      cases name <;> rfl

theorem bindFragments_fst (t : ResourceTables) (store : AssetStore) (lib : Library)
    (fragments : List Fragment) :
    (t.bindFragments store lib fragments).1 = t.registerAll
      (fragments.flatMap fun f => store.reports f.resources (lib.resourceRefs f)) := by
  induction fragments generalizing t with
  | nil => rfl
  | cons f rest ih =>
    have hfirst : (t.bindFragment store lib f).1 = _ := bindAll_fst store (t, f.resources) _
    rw [flatMap_cons, registerAll_append, ← hfirst]
    exact ih _

/-! ## New names -/

theorem Sound.indexOf?_push (h : t.Sound store) (kind other : ResourceKind) (e : ResourceEntry)
    (name : String) :
    (t.push kind e).indexOf? other name
      = (t.indexOf? other name).or
        (if kind = other ∧ e.name = name then some e.index else none) := by
  have hpos : 1 ≤ (t.table other).length := (List.getElem?_eq_some_iff.mp (h.reserved other)).1
  unfold indexOf?
  rw [table_push, drop_append_of_le_length hpos, find?_append, Option.map_or]
  by_cases hkind : kind = other
  · by_cases hname : e.name = name <;> simp [hkind, hname]
  · simp [hkind]

/-- Registrations of different resources add the names of those that are valid and had no row. -/
theorem Sound.map_name_registerAll (h : t.Sound store) (kind : ResourceKind)
    (hlog : log.Pairwise fun x y => x.kind = y.kind → x.name ≠ y.name) :
    ((t.registerAll log).table kind).map (·.name) = (t.table kind).map (·.name) ++
      (log.filter fun x => decide (x.kind = kind) && x.attributes.valid &&
        (t.indexOf? kind x.name).isNone).map (·.name) := by
  induction log generalizing t store with
  | nil => exact (append_nil _).symm
  | cons x log ih =>
    obtain ⟨hx, hlog⟩ := pairwise_cons.mp hlog
    obtain ⟨store', hsound⟩ := h.register x.kind x.name x.attributes
    refine (ih hsound hlog).trans ?_
    rcases t.register_cases x.kind x.name x.attributes with ⟨hsame, hold⟩ | ⟨hvalid, hnew, hpush⟩
    · rw [hsame, filter_cons_of_neg]
      intro hx
      simp only [Bool.and_eq_true, decide_eq_true_eq] at hx
      obtain ⟨⟨rfl, hvalid⟩, hnone⟩ := hx
      obtain ⟨index, hindex, -⟩ := hold hvalid
      rw [hindex] at hnone
      cases hnone
    · rw [hpush, table_push, map_append, append_assoc]
      -- The other registrations find in the longer table what they find in the shorter one.
      have hfilter : (log.filter fun y => decide (y.kind = kind) && y.attributes.valid &&
          ((t.push x.kind ⟨(t.table x.kind).length, x.name, x.attributes.shape,
            x.attributes⟩).indexOf? kind y.name).isNone)
          = log.filter fun y => decide (y.kind = kind) && y.attributes.valid &&
            (t.indexOf? kind y.name).isNone := by
        refine filter_congr fun y hy => ?_
        rw [h.indexOf?_push]
        by_cases hkind : y.kind = kind
        · have hother : ¬(x.kind = kind ∧ x.name = y.name) :=
            fun heq => hx y hy (heq.1.trans hkind.symm) heq.2
          rw [if_neg hother, Option.or_none]
        · simp [hkind]
      rw [hfilter]
      by_cases hkind : x.kind = kind
      · subst hkind
        rw [filter_cons_of_pos (by simp [hvalid, hnew])]
        simp
      · rw [filter_cons_of_neg (by simp [hkind])]
        simp [hkind]

/-- The names that references add to the table of a kind: those of valid resources that have no
row, in the order in which they are mentioned first. -/
def newNames (t : ResourceTables) (store : AssetStore) (kind : ResourceKind)
    (refs : List ResourceRef) : List String :=
  refs.eraseDups.filterMap fun ref =>
    if ref.kind = kind ∧ store.knows ref then
      ref.name.filter fun name => (t.indexOf? kind name).isNone
    else none

theorem nodup_eraseDups (refs : List ResourceRef) : refs.eraseDups.Nodup := by
  induction hlength : refs.length using Nat.strongRecOn generalizing refs with
  | ind n ih =>
    cases refs with
    | nil => exact nodup_nil
    | cons first rest =>
      rw [length_cons] at hlength
      have hrest := length_filter_le (fun ref => !ref == first) rest
      rw [eraseDups_cons, nodup_cons, mem_eraseDups, mem_filter]
      exact ⟨fun h => by simp at h, ih _ (by omega) _ rfl⟩

theorem pairwise_reports (store : AssetStore) (m : ResourceMap) (refs : List ResourceRef) :
    (store.reports m refs).Pairwise fun x y => x.kind = y.kind → x.name ≠ y.name := by
  unfold AssetStore.reports
  refine List.Pairwise.filterMap _ ?_ (nodup_eraseDups _)
  rintro ⟨kind, name⟩ ⟨kind', name'⟩ hne x hx y hy hkind hname
  obtain ⟨n, rfl, rfl⟩ := Option.map_eq_some_iff.mp hx
  obtain ⟨n', rfl, rfl⟩ := Option.map_eq_some_iff.mp hy
  cases hkind
  cases hname
  exact hne rfl

/-- Binding references into an empty map adds their new names. -/
theorem Sound.exists_new_rows {before : AssetStore} (h : t.Sound before) (store : AssetStore)
    (refs : List ResourceRef) (kind : ResourceKind) :
    ∃ rows, (bindAll store (t, OrderedMap.empty) refs).1.table kind = t.table kind ++ rows ∧
      rows.map (·.name) = t.newNames store kind refs := by
  rw [bindAll_fst]
  obtain ⟨rows, hrows, -⟩ := t.exists_rows (store.reports OrderedMap.empty refs) kind
  refine ⟨rows, hrows, ?_⟩
  have hnames := h.map_name_registerAll kind (pairwise_reports store OrderedMap.empty refs)
  rw [hrows, map_append] at hnames
  rw [append_cancel_left hnames]
  have hall : (refs.filter fun ref => !OrderedMap.contains (OrderedMap.empty : ResourceMap) ref)
      = refs := filter_eq_self.mpr fun _ _ => rfl
  unfold AssetStore.reports newNames
  rw [hall, filter_filterMap, map_filterMap]
  congr 1
  funext ref
  obtain ⟨kind', name⟩ := ref
  cases name with
  | none => simp
  | some name =>
    by_cases hkind : kind' = kind
    · subst hkind
      by_cases hvalid : (store.attributes kind' name).valid <;>
        simp [AssetStore.knows, hvalid, Option.filter]
    · simp [hkind]

end ResourceTables

/-! ## Counters and lookup -/

/-- Tables with what makes registering quick: the number of indices that were given out for each
kind, and the index of every resource. -/
structure Registry where
  counters : ResourceKind → Nat
  indices : OrderedMap ResourceRef Nat
  tables : ResourceTables

namespace Registry

/-- The registry before any resource was seen. -/
def initial : Registry :=
  ⟨fun _ => 0, OrderedMap.empty, ResourceTables.initial⟩

/-- The index of a resource, which is the next one if the resource is new. -/
def register (r : Registry) (x : Registration) : Nat × Registry :=
  if x.attributes.valid then
    match r.indices.find? ⟨x.kind, some x.name⟩ with
    | some index => (index, r)
    | none =>
      let index := r.counters x.kind + 1
      (index,
        { counters := fun kind => if kind = x.kind then index else r.counters kind
          indices := r.indices.insert ⟨x.kind, some x.name⟩ index
          tables := r.tables.push x.kind ⟨index, x.name, x.attributes.shape, x.attributes⟩ })
  else (0, r)

/-- The registry after registrations. -/
def registerAll (r : Registry) (log : List Registration) : Registry :=
  log.foldl (fun r x => (r.register x).2) r

/-- A registry is in step with tables. -/
structure Agrees (r : Registry) (t : ResourceTables) : Prop where
  tables : r.tables = t
  counter : ∀ kind, r.counters kind + 1 = (t.table kind).length
  found : ∀ kind name, r.indices.find? ⟨kind, some name⟩ = t.indexOf? kind name

theorem initial_agrees : initial.Agrees .initial where
  tables := rfl
  counter kind := by cases kind <;> rfl
  found kind name := by cases kind <;> rfl

variable {r : Registry} {t : ResourceTables} {store : AssetStore}

theorem Agrees.register (h : r.Agrees t) (ht : t.Sound store) (x : Registration) :
    (r.register x).1 = (t.register x.kind x.name x.attributes).1 ∧
      (r.register x).2.Agrees (t.register x.kind x.name x.attributes).2 := by
  unfold Registry.register ResourceTables.register
  rw [h.found]
  split
  · cases hnew : t.indexOf? x.kind x.name with
    | some index => exact ⟨rfl, h⟩
    | none =>
      dsimp only
      rw [h.counter]
      refine ⟨rfl, by rw [h.tables], fun kind => ?_, fun kind name => ?_⟩
      · dsimp only
        rw [ResourceTables.table_push, length_append]
        split
        · rename_i hkind
          subst hkind
          rw [if_pos rfl]
          rfl
        · rename_i hkind
          rw [if_neg (Ne.symm hkind)]
          exact h.counter kind
      · dsimp only
        rw [OrderedMap.find?_insert ResourceRef.eq_of_not_lt, ht.indexOf?_push, h.found]
        by_cases hsame : x.kind = kind ∧ x.name = name
        · obtain ⟨rfl, rfl⟩ := hsame
          rw [if_pos rfl, hnew, if_pos ⟨rfl, rfl⟩]
          rfl
        · rw [if_neg hsame, Option.or_none, if_neg]
          rintro ⟨⟩
          exact hsame ⟨rfl, rfl⟩
  · exact ⟨rfl, h⟩

/-- Counters and index stay in step with the tables. -/
theorem Agrees.registerAll (h : r.Agrees t) (ht : t.Sound store) (log : List Registration) :
    (r.registerAll log).Agrees (t.registerAll log) := by
  induction log generalizing r t store with
  | nil => exact h
  | cons x log ih =>
    obtain ⟨store', ht'⟩ := ht.register x.kind x.name x.attributes
    exact ih (h.register ht x).2 ht'

end Registry

/-! ## Calls -/

/-- A call that may add rows to tables.  Each call has its own store, so that answers may differ
from call to call. -/
inductive RegistryCall
  | register (x : Registration)
  | values (store : AssetStore) (m : ResourceMap) (values : List Value)
  | fragment (store : AssetStore) (lib : Library) (f : Fragment)
  | distribution (store : AssetStore) (lib : Library) (d : Distribution)

namespace RegistryCall

/-- The tables after a call. -/
def run (t : ResourceTables) : RegistryCall → ResourceTables
  | register x => (t.register x.kind x.name x.attributes).2
  | values store m vs => (ResourceTables.bindAll store (t, m) (vs.flatMap Value.resources)).1
  | fragment store lib f => (t.bindFragment store lib f).1
  | distribution store lib d => (t.bindDistribution store lib d).1

/-- What a call registers. -/
def registrations : RegistryCall → List Registration
  | register x => [x]
  | values store m vs => store.reports m (vs.flatMap Value.resources)
  | fragment store lib f => store.reports f.resources (lib.resourceRefs f)
  | distribution store lib d =>
    (d.main :: d.aux).flatMap fun f => store.reports f.resources (lib.resourceRefs f)

/-- A call makes its registrations, and nothing else. -/
theorem run_eq (t : ResourceTables) (call : RegistryCall) :
    call.run t = t.registerAll call.registrations := by
  cases call with
  | register x => rfl
  | values store m vs => exact ResourceTables.bindAll_fst store (t, m) _
  | fragment store lib f => exact ResourceTables.bindAll_fst store (t, f.resources) _
  | distribution store lib d => exact t.bindFragments_fst store lib (d.main :: d.aux)

theorem foldl_run (t : ResourceTables) (calls : List RegistryCall) :
    calls.foldl run t = t.registerAll (calls.flatMap registrations) := by
  induction calls generalizing t with
  | nil => rfl
  | cons call calls ih =>
    rw [flatMap_cons, ResourceTables.registerAll_append, foldl_cons, ih, run_eq]

end RegistryCall

/-- What holds of tables after calls, and of a registry that is kept beside them. -/
structure ResourceTables.Numbered (t : ResourceTables) (r : Registry) (calls : List RegistryCall) :
    Prop where
  /-- Every row stands at its index. -/
  position : ∀ kind i (e : ResourceEntry), (t.table kind)[i]? = some e → e.index = i
  reserved : ∀ kind, (t.table kind)[0]? = some (.reserved kind)
  distinct : ∀ kind, (((t.table kind).drop 1).map (·.name)).Nodup
  /-- Every other row was registered by a call, and as valid. -/
  registered : ∀ kind, ∀ e ∈ (t.table kind).drop 1, e.attributes.valid = true ∧
    ∃ call ∈ calls, ⟨kind, e.name, e.attributes⟩ ∈ call.registrations
  found : ∀ kind name i, t.indexOf? kind name = some i ↔
    0 < i ∧ ((t.table kind)[i]?).map (·.name) = some name
  tables : r.tables = t
  counter : ∀ kind, r.counters kind = (t.table kind).length - 1
  indexed : ∀ kind name, r.indices.find? ⟨kind, some name⟩ = t.indexOf? kind name

/-- Tables and registry after any calls. -/
theorem ResourceTables.numbered_run (calls : List RegistryCall) :
    (calls.foldl RegistryCall.run initial).Numbered
      (Registry.initial.registerAll (calls.flatMap RegistryCall.registrations)) calls := by
  rw [RegistryCall.foldl_run]
  have hinitial := initial_sound .empty
  obtain ⟨store, hsound⟩ := hinitial.registerAll (calls.flatMap RegistryCall.registrations)
  have hagrees :=
    Registry.initial_agrees.registerAll hinitial (calls.flatMap RegistryCall.registrations)
  refine ⟨hsound.index, hsound.reserved, hsound.names, fun kind e he => ?_, fun kind name i => ?_,
    hagrees.tables, fun kind => ?_, hagrees.found⟩
  · obtain ⟨rows, hrows, hall⟩ :=
      initial.exists_rows (calls.flatMap RegistryCall.registrations) kind
    have hdrop : (initial.table kind ++ rows).drop 1 = rows := by cases kind <;> rfl
    rw [hrows, hdrop] at he
    exact ⟨(hall e he).1, mem_flatMap.mp (hall e he).2⟩
  · exact ⟨hsound.row_of_indexOf?, fun h => hsound.indexOf?_of_row h.1 h.2⟩
  · have hcounter := hagrees.counter kind
    omega

/-- Indices follow the order of first mention.  After any calls, every row stands at its index and
was registered as valid, no name has two rows, lookups find exactly what the tables hold, counters
stay in step, and more calls only append.  Binding a fragment that has no bindings adds the names
that are new and valid: first those of a walk through its nodes that goes into each called fragment
once, where it is called first, then those of its parameters.  Binding it again changes nothing. -/
theorem indices_follow_first_mention (calls more : List RegistryCall) (store : AssetStore)
    (lib : Library) (f : Fragment) (hempty : f.resources = OrderedMap.empty) :
    let t := calls.foldl RegistryCall.run ResourceTables.initial
    let bound := t.bindFragment store lib f
    t.Numbered (Registry.initial.registerAll (calls.flatMap RegistryCall.registrations)) calls ∧
    t.Extends ((calls ++ more).foldl RegistryCall.run ResourceTables.initial) ∧
    (∃ refs entered, lib.explore (f.reachable.map (·.2)) [] = some (refs, entered) ∧
      ∀ kind, ∃ rows, bound.1.table kind = t.table kind ++ rows ∧ rows.map (·.name)
        = t.newNames store kind (refs ++ f.argumentValues.flatMap Value.resources)) ∧
    bound.1.bindFragment store lib { f with resources := bound.2 } = bound := by
  intro t bound
  obtain ⟨entered, hwalk, -⟩ := lib.explore_eq (f.reachable.map (·.2))
  have hsound : ∃ before, t.Sound before := by
    unfold t
    rw [RegistryCall.foldl_run]
    exact (ResourceTables.initial_sound .empty).registerAll _
  obtain ⟨before, hsound⟩ := hsound
  refine ⟨ResourceTables.numbered_run calls, ?_, ⟨_, entered, hwalk, fun kind => ?_⟩, ?_⟩
  · rw [foldl_append, RegistryCall.foldl_run _ more]
    exact t.registerAll_extends _
  · have hrows := hsound.exists_new_rows store (lib.resourceRefs f) kind
    rw [← hempty] at hrows
    exact hrows
  · refine ResourceTables.bindAll_of_contains fun ref href => ?_
    exact (ResourceTables.bindAll_binding store (t, f.resources) _).binds ref (.inl href)

/-- A function whose literal refers to two textures, to the second one twice, and whose parameter
refers to the first one and to a texture that is not there. -/
def grain : Fragment where
  name := "grain"
  context := .core
  graph := ⟨#[⟨.constant (.array [.texture (some "oak") .flat, .texture (some "ash") .flat,
    .texture (some "ash") .flat]), .array (.texture .flat) 3⟩]⟩
  roots := some (.single 0)
  parameters := [⟨"map", .texture .flat, .array [.texture (some "elm") .flat,
    .texture (some "oak") .flat]⟩]
  copied := OrderedMap.empty
  uniform := none
  resources := OrderedMap.empty

/-- Two textures. -/
def twoWoods : AssetStore :=
  (AssetStore.empty.insert .texture "ash" ⟨true, .texture .flat 4 4 1⟩).insert .texture "oak"
    ⟨true, .texture .flat 4 4 1⟩

/-- The texture that is mentioned first has the first index. -/
theorem indices_follow_first_mention_grain :
    let bound := ResourceTables.initial.bindFragment twoWoods .empty grain
    grain.resources = OrderedMap.empty ∧
      (∃ rows, bound.1.textures = ResourceTables.initial.textures ++ rows ∧
        rows.map (·.name) = ["oak", "ash"]) ∧
      bound.1.bindFragment twoWoods .empty { grain with resources := bound.2 } = bound := by
  have hnames : ((ResourceTables.initial.bindFragment twoWoods .empty grain).1.textures.drop 1).map
      (·.name) = ["oak", "ash"] := by
    cbv
  obtain ⟨-, -, ⟨_, _, -, hall⟩, hagain⟩ :=
    indices_follow_first_mention [] [] twoWoods .empty grain rfl
  obtain ⟨rows, hrows, -⟩ := hall .texture
  refine ⟨rfl, ⟨rows, hrows, ?_⟩, hagain⟩
  rw [show (ResourceTables.initial.bindFragment twoWoods .empty grain).1.textures = _ from hrows]
    at hnames
  exact hnames

end Shading
