import Mathlib.Data.Finmap
import Mathlib.Data.List.DropRight
import Shading.Code.Cache

/-!
# A cache is a bounded queue of keys with values

The keys of a cache are the last ones that were enqueued, as many as there is room for,
and a key has the value that was written last.  A key that is there keeps its place when
it is written again; one that was given up is enqueued anew.

A cache can be stored as a map without an order and a queue of keys.  Only first
admissions enter the queue, and a full cache takes the oldest key from the queue and
removes it from the map.  The two never get out of step.

Main definitions:

- `CacheRequest` is what can be asked of a cache, `Cache.replay` the run of a list of requests.
- `enqueued` lists the keys that were enqueued, `lastInserted` gives the value written last.
- `QueuedMap` is a map with a queue, and `QueuedMap.Stores` says that it stores a cache.
- `Cache.FollowsRequests` is the state of a cache in terms of the requests.

Main results:

- Theorem `Cache.FollowsRequests.step`: a request keeps the state as it should be.
- Theorem `QueuedMap.Stores.step`: a map with a queue goes on storing the cache.
- Theorem `cache_is_bounded_fifo` puts both together over every run.
-/

namespace Shading

open List

variable {κ υ : Type}

variable (room : Option Nat)

/-- What can be asked of a cache. -/
inductive CacheRequest (κ υ : Type)
  | insert (key : κ) (value : υ)
  | lookup (key : κ)
  | clear

/-! ## What requests ask for -/

/-- The last keys of a list, as many as there is room for. -/
def newest (room : Option Nat) (keys : List κ) : List κ :=
  match room with
  | none => keys
  | some n => keys.rtake n

theorem newest_sublist (keys : List κ) : (newest room keys).Sublist keys := by
  cases room with
  | none => exact List.Sublist.refl keys
  | some n => exact drop_sublist _ keys

@[simp]
theorem newest_newest (keys : List κ) : newest room (newest room keys) = newest room keys := by
  cases room with
  | none => rfl
  | some n =>
    simp only [newest, List.rtake, length_drop, drop_drop]
    congr 1
    omega

/-- Keys that were given up do not matter for which ones are given up next. -/
theorem newest_concat (keys : List κ) (key : κ) :
    newest room (newest room keys ++ [key]) = newest room (keys ++ [key]) := by
  cases room with
  | none => rfl
  | some n =>
    cases n with
    | zero => simp [newest]
    | succ n =>
      simp only [newest, rtake_concat_succ]
      simp only [List.rtake, length_drop, drop_drop]
      congr 2
      omega

theorem newest_length_le (n : Nat) (keys : List κ) : (newest (some n) keys).length ≤ n := by
  simp only [newest, List.rtake, length_drop]
  omega

theorem keys_evict (entries : List (κ × υ)) :
    (Cache.evict room entries).map Prod.fst = newest room (entries.map Prod.fst) := by
  cases room with
  | none => rfl
  | some n => simp [Cache.evict, newest, List.rtake, map_drop]

variable [DecidableEq κ]

/-- Admits a key, unless it is among the keys for which there is room. -/
def enqueue (room : Option Nat) (keys : List κ) (key : κ) : List κ :=
  if key ∈ newest room keys then keys else keys ++ [key]

/-- The keys in the order in which they were enqueued since the cache was cleared.  A key that
was given up can be enqueued again. -/
def enqueued (room : Option Nat) (requests : List (CacheRequest κ υ)) : List κ :=
  requests.foldl (fun keys request =>
    match request with
    | .insert key _ => enqueue room keys key
    | .lookup _ => keys
    | .clear => []) []

/-- The value that was written last for a key. -/
def lastInserted (requests : List (CacheRequest κ υ)) (key : κ) : Option υ :=
  requests.foldl (fun last request =>
    match request with
    | .insert k value => if k = key then some value else last
    | .lookup _ | .clear => last) none

/-- Whether a request is a lookup. -/
def CacheRequest.isLookup : CacheRequest κ υ → Bool
  | .lookup _ => true
  | _ => false

section

variable (room : Option Nat) (requests : List (CacheRequest κ υ))

@[simp]
theorem enqueued_insert (key : κ) (value : υ) :
    enqueued room (requests ++ [.insert key value]) =
      enqueue room (enqueued room requests) key := by
  simp [enqueued]

@[simp]
theorem enqueued_lookup (key : κ) :
    enqueued room (requests ++ [.lookup key]) = enqueued room requests := by
  simp [enqueued]

@[simp]
theorem enqueued_clear : enqueued room (requests ++ [.clear]) = [] := by
  simp [enqueued]

@[simp]
theorem lastInserted_insert (k : κ) (value : υ) (key : κ) :
    lastInserted (requests ++ [.insert k value]) key =
      if k = key then some value else lastInserted requests key := by
  simp [lastInserted]

@[simp]
theorem lastInserted_lookup (k key : κ) :
    lastInserted (requests ++ [.lookup k]) key = lastInserted requests key := by
  simp [lastInserted]

@[simp]
theorem lastInserted_clear (key : κ) :
    lastInserted (requests ++ [.clear]) key = lastInserted requests key := by
  simp [lastInserted]

end

variable {entries : List (κ × υ)}

/-! ## Entries -/

/-- The value of a key in a list of entries. -/
def valueOf? (entries : List (κ × υ)) (key : κ) : Option υ :=
  (entries.find? fun e => decide (e.1 = key)).map (·.2)

@[simp]
theorem valueOf?_nil (key : κ) : valueOf? ([] : List (κ × υ)) key = none :=
  rfl

theorem valueOf?_cons (e : κ × υ) (entries : List (κ × υ)) (key : κ) :
    valueOf? (e :: entries) key = if e.1 = key then some e.2 else valueOf? entries key := by
  unfold valueOf?
  by_cases h : e.1 = key <;> simp [h]

theorem valueOf?_append (entries rest : List (κ × υ)) (key : κ) :
    valueOf? (entries ++ rest) key = (valueOf? entries key).or (valueOf? rest key) := by
  induction entries with
  | nil => simp
  | cons e entries ih =>
    rw [cons_append, valueOf?_cons, valueOf?_cons, ih]
    split <;> simp

/-- Exactly the keys of a list of entries have values. -/
theorem valueOf?_isSome (entries : List (κ × υ)) (key : κ) :
    (valueOf? entries key).isSome ↔ key ∈ entries.map Prod.fst := by
  induction entries with
  | nil => simp
  | cons e entries ih =>
    rw [valueOf?_cons, map_cons, mem_cons, ← ih]
    by_cases h : e.1 = key
    · simp [h]
    · simp [h, Ne.symm h]

theorem valueOf?_eq_none {key : κ}
    (h : key ∉ entries.map Prod.fst) : valueOf? entries key = none := by
  rwa [← valueOf?_isSome, Option.not_isSome_iff_eq_none] at h

/-- Entries in front of a list do not bear on its keys if none is there twice. -/
theorem valueOf?_drop (hnodup : (entries.map Prod.fst).Nodup) (n : Nat)
    {key : κ} (hkey : key ∈ (entries.drop n).map Prod.fst) :
    valueOf? (entries.drop n) key = valueOf? entries key := by
  have happend := valueOf?_append (entries.take n) (entries.drop n) key
  have hdisjoint : key ∉ (entries.take n).map Prod.fst := by
    intro hmem
    rw [← take_append_drop n entries, map_append] at hnodup
    exact disjoint_of_nodup_append hnodup hmem hkey
  rw [take_append_drop, valueOf?_eq_none hdisjoint, Option.none_or] at happend
  exact happend.symm

/-- The entries after a key was written, before any is given up. -/
def written (entries : List (κ × υ)) (key : κ) (value : υ) : List (κ × υ) :=
  if key ∈ entries.map Prod.fst then
    entries.map fun e => if e.1 = key then (key, value) else e
  else entries ++ [(key, value)]

theorem keys_written (entries : List (κ × υ)) (key : κ) (value : υ) :
    (written entries key value).map Prod.fst =
      if key ∈ entries.map Prod.fst then entries.map Prod.fst
      else entries.map Prod.fst ++ [key] := by
  unfold written
  split
  · rw [map_map]
    refine map_congr_left fun e _ => ?_
    by_cases h : e.1 = key <;> simp [h]
  · simp

theorem nodup_written (h : (entries.map Prod.fst).Nodup) (key : κ)
    (value : υ) : ((written entries key value).map Prod.fst).Nodup := by
  rw [keys_written]
  split
  · exact h
  · rename_i hmem
    refine nodup_append.mpr ⟨h, nodup_singleton key, ?_⟩
    rintro k hk k' hk' rfl
    exact hmem (mem_singleton.mp hk' ▸ hk)

theorem valueOf?_update (entries : List (κ × υ)) (key : κ) (value : υ) (key' : κ) :
    valueOf? (entries.map fun e => if e.1 = key then (key, value) else e) key' =
      if key' = key then (valueOf? entries key).map fun _ => value else valueOf? entries key' := by
  induction entries with
  | nil => simp
  | cons e entries ih =>
    rw [map_cons, valueOf?_cons, ih, valueOf?_cons, valueOf?_cons]
    by_cases he : e.1 = key
    · by_cases hk : key' = key
      · simp [he, hk]
      · simp [he, hk, Ne.symm hk]
    · by_cases hk : key' = key
      · simp [he, hk]
      · simp [he, hk]

/-- A key that was written has its value, and the others keep theirs. -/
theorem valueOf?_written (entries : List (κ × υ)) (key : κ) (value : υ) (key' : κ) :
    valueOf? (written entries key value) key' =
      if key' = key then some value else valueOf? entries key' := by
  unfold written
  split
  · rename_i hmem
    rw [valueOf?_update]
    rcases Option.isSome_iff_exists.mp ((valueOf?_isSome entries key).mpr hmem) with ⟨v, hv⟩
    simp [hv]
  · rename_i hmem
    rw [valueOf?_append, valueOf?_cons]
    by_cases hk : key' = key
    · subst hk
      simp [valueOf?_eq_none hmem]
    · simp [hk, Ne.symm hk]

/-! ## Runs of a cache -/

namespace Cache

/-- An empty cache, with a limit or without. -/
def withLimit : Option Nat → Cache κ υ
  | none => unbounded
  | some n => bounded n

/-- The keys from the oldest to the newest. -/
def keys (c : Cache κ υ) : List κ :=
  c.entries.map Prod.fst

/-- Handles a request, and notes what a lookup answers. -/
def step (s : List (Option υ) × Cache κ υ) : CacheRequest κ υ → List (Option υ) × Cache κ υ
  | .insert key value => (s.1, s.2.insert key value)
  | .lookup key => (s.1 ++ [(s.2.lookup key).1], (s.2.lookup key).2)
  | .clear => (s.1, s.2.clear)

/-- Handles requests in order, starting with an empty cache.  The answers to the lookups come
with the cache that is left. -/
def replay (limit : Option Nat) (requests : List (CacheRequest κ υ)) :
    List (Option υ) × Cache κ υ :=
  requests.foldl step ([], withLimit limit)

theorem replay_concat (limit : Option Nat) (requests : List (CacheRequest κ υ))
    (request : CacheRequest κ υ) :
    replay limit (requests ++ [request]) = step (replay limit requests) request := by
  simp [replay]

theorem find?_eq (c : Cache κ υ) (key : κ) : c.find? key = valueOf? c.entries key :=
  rfl

theorem insert_entries (c : Cache κ υ) (key : κ) (value : υ) :
    (c.insert key value).entries = evict c.capacity (written c.entries key value) := by
  simp only [insert, written, find?_eq, valueOf?_isSome]

theorem keys_insert (c : Cache κ υ) (key : κ) (value : υ) :
    (c.insert key value).keys =
      newest c.capacity (if key ∈ c.keys then c.keys else c.keys ++ [key]) := by
  rw [keys, insert_entries, keys_evict, keys_written]
  rfl

theorem valueOf?_evict {entries : List (κ × υ)} (hnodup : (entries.map Prod.fst).Nodup)
    {room : Option Nat} {key : κ} (hkey : key ∈ (evict room entries).map Prod.fst) :
    valueOf? (evict room entries) key = valueOf? entries key := by
  cases room with
  | none => rfl
  | some n => exact valueOf?_drop hnodup _ hkey

theorem lookup_answer (c : Cache κ υ) (key : κ) : (c.lookup key).1 = c.find? key := by
  unfold lookup
  cases c.find? key <;> rfl

/-- The state of a cache in terms of the requests that it has handled. -/
structure FollowsRequests (room : Option Nat) (requests : List (CacheRequest κ υ))
    (s : List (Option υ) × Cache κ υ) : Prop where
  capacity : s.2.capacity = room
  nodup : s.2.keys.Nodup
  held : s.2.keys = newest room (enqueued room requests)
  value : ∀ key ∈ s.2.keys, s.2.find? key = lastInserted requests key
  hits : s.2.hits = s.1.countP Option.isSome
  lookups : s.2.hits + s.2.misses = requests.countP CacheRequest.isLookup

namespace FollowsRequests

variable {room : Option Nat} {requests : List (CacheRequest κ υ)} {s : List (Option υ) × Cache κ υ}

theorem empty (limit : Option Nat) :
    FollowsRequests (limit.map (max · 1)) []
      (([], withLimit limit) : List (Option υ) × Cache κ υ) := by
  cases limit with
  | none => exact ⟨rfl, nodup_nil, rfl, by simp [keys, withLimit, unbounded], rfl, rfl⟩
  | some n =>
    exact ⟨rfl, nodup_nil, by simp [keys, withLimit, bounded, enqueued, newest],
      by simp [keys, withLimit, bounded], rfl, rfl⟩

/-- A key has the value that was written last if it is held, and no value otherwise. -/
theorem find? (h : FollowsRequests room requests s) (key : κ) :
    s.2.find? key = if key ∈ newest room (enqueued room requests) then lastInserted requests key
      else none := by
  rw [← h.held]
  split
  · exact h.value key ‹_›
  · exact valueOf?_eq_none ‹_›

theorem insert (h : FollowsRequests room requests s) (key : κ) (value : υ) :
    FollowsRequests room (requests ++ [.insert key value]) (Cache.step s (.insert key value)) := by
  have hwritten := nodup_written h.nodup key value
  have hkeys : (s.2.insert key value).keys =
      newest room (enqueue room (enqueued room requests) key) := by
    rw [keys_insert, h.capacity, h.held, enqueue]
    split
    · exact newest_newest _ _
    · exact newest_concat _ _ _
  refine ⟨h.capacity, ?_, by rw [enqueued_insert]; exact hkeys, ?_, h.hits, ?_⟩
  · change (s.2.insert key value).keys.Nodup
    rw [keys, insert_entries, keys_evict]
    exact hwritten.sublist (newest_sublist _ _)
  · intro key' hkey'
    change (s.2.insert key value).find? key' = _
    change key' ∈ (s.2.insert key value).entries.map Prod.fst at hkey'
    rw [insert_entries] at hkey'
    rw [find?_eq, insert_entries, valueOf?_evict hwritten hkey', valueOf?_written,
      lastInserted_insert]
    by_cases hk : key' = key
    · simp [hk]
    · -- what is held and was not written now was held before
      rw [keys_evict] at hkey'
      have hold := (newest_sublist _ _).subset hkey'
      rw [keys_written] at hold
      have hmem : key' ∈ s.2.keys := by
        split at hold
        · exact hold
        · exact (mem_append.mp hold).resolve_right (by simp [hk])
      simp only [hk, Ne.symm hk, if_false]
      exact h.value key' hmem
  · rw [countP_append]
    exact h.lookups

theorem lookup (h : FollowsRequests room requests s) (key : κ) :
    FollowsRequests room (requests ++ [.lookup key]) (Cache.step s (.lookup key)) := by
  have hkeys : (s.2.lookup key).2.entries = s.2.entries := by
    unfold Cache.lookup
    cases s.2.find? key <;> rfl
  have hhits : (s.2.lookup key).2.hits = s.2.hits + [(s.2.lookup key).1].countP Option.isSome := by
    unfold Cache.lookup
    cases s.2.find? key <;> rfl
  have htotal : (s.2.lookup key).2.hits + (s.2.lookup key).2.misses
      = s.2.hits + s.2.misses + 1 := by
    unfold Cache.lookup
    cases s.2.find? key <;> simp <;> omega
  have hcapacity : (s.2.lookup key).2.capacity = s.2.capacity := by
    unfold Cache.lookup
    cases s.2.find? key <;> rfl
  refine ⟨hcapacity.trans h.capacity, ?_, ?_, ?_, ?_, ?_⟩
  · simpa [Cache.step, keys, hkeys] using h.nodup
  · simpa [Cache.step, keys, hkeys] using h.held
  · simpa [Cache.step, keys, hkeys, Cache.find?] using h.value
  · simp only [Cache.step, countP_append, hhits, h.hits]
  · rw [countP_append, ← h.lookups]
    exact htotal

theorem clear (h : FollowsRequests room requests s) :
    FollowsRequests room (requests ++ [.clear]) (Cache.step s .clear) where
  capacity := h.capacity
  nodup := nodup_nil
  held := by
    rw [enqueued_clear]
    exact (sublist_nil.mp (newest_sublist room [])).symm
  value := by simp [Cache.step, Cache.clear, keys]
  hits := h.hits
  lookups := by
    rw [countP_append]
    exact h.lookups

/-- A request keeps the state as it should be. -/
theorem step (h : FollowsRequests room requests s) (request : CacheRequest κ υ) :
    FollowsRequests room (requests ++ [request]) (Cache.step s request) := by
  cases request with
  | insert key value => exact h.insert key value
  | lookup key => exact h.lookup key
  | clear => exact h.clear

/-- So does a run. -/
theorem replay (limit : Option Nat) (requests : List (CacheRequest κ υ)) :
    FollowsRequests (limit.map (max · 1)) requests (Cache.replay limit requests) := by
  induction requests using List.reverseRecOn with
  | nil => exact empty limit
  | append_singleton requests request ih =>
    rw [replay_concat]
    exact ih.step request

end FollowsRequests

end Cache

/-! ## A map with a queue -/

/-- A map, and a queue with the order of its keys. -/
structure QueuedMap (κ υ : Type) where
  map : Finmap fun _ : κ => υ
  order : List κ
  capacity : Option Nat
  hits : Nat
  misses : Nat

namespace QueuedMap

/-- Takes keys from the front of the queue and out of the map while the map is too large. -/
def trim (n : Nat) (map : Finmap fun _ : κ => υ) : List κ → (Finmap fun _ : κ => υ) × List κ
  | [] => (map, [])
  | oldest :: order =>
    if n < map.keys.card then trim n (map.erase oldest) order else (map, oldest :: order)

/-- An empty map, with a limit or without. -/
def withLimit (limit : Option Nat) : QueuedMap κ υ :=
  ⟨∅, [], limit.map (max · 1), 0, 0⟩

/-- Writes the value of a key.  A key that is not in the map enters the queue. -/
def insert (q : QueuedMap κ υ) (key : κ) (value : υ) : QueuedMap κ υ :=
  let order := if (q.map.lookup key).isNone then q.order ++ [key] else q.order
  let map := q.map.insert key value
  match q.capacity with
  | none => { q with map := map, order := order }
  | some n => { q with map := (trim n map order).1, order := (trim n map order).2 }

/-- Reads the value of a key and counts a hit or a miss. -/
def lookup (q : QueuedMap κ υ) (key : κ) : Option υ × QueuedMap κ υ :=
  match q.map.lookup key with
  | some value => (some value, { q with hits := q.hits + 1 })
  | none => (none, { q with misses := q.misses + 1 })

/-- Empties the map and the queue. -/
def clear (q : QueuedMap κ υ) : QueuedMap κ υ :=
  { q with map := ∅, order := [] }

/-- Handles a request, and notes what a lookup answers. -/
def step (s : List (Option υ) × QueuedMap κ υ) : CacheRequest κ υ → List (Option υ) × QueuedMap κ υ
  | .insert key value => (s.1, s.2.insert key value)
  | .lookup key => (s.1 ++ [(s.2.lookup key).1], (s.2.lookup key).2)
  | .clear => (s.1, s.2.clear)

/-- Handles requests in order, starting with an empty map. -/
def replay (limit : Option Nat) (requests : List (CacheRequest κ υ)) :
    List (Option υ) × QueuedMap κ υ :=
  requests.foldl step ([], withLimit limit)

/-- A map has the keys and values of a list of entries. -/
def Holds (map : Finmap fun _ : κ => υ) (entries : List (κ × υ)) : Prop :=
  ∀ key, map.lookup key = valueOf? entries key

section

variable {map : Finmap fun _ : κ => υ} {entries : List (κ × υ)}

theorem Holds.keys (h : Holds map entries) : map.keys = (entries.map Prod.fst).toFinset := by
  ext key
  rw [Finmap.mem_keys, ← Finmap.lookup_isSome, h key, valueOf?_isSome, mem_toFinset]

theorem Holds.card (h : Holds map entries) (hnodup : (entries.map Prod.fst).Nodup) :
    map.keys.card = entries.length := by
  rw [h.keys, toFinset_card_of_nodup hnodup, length_map]

theorem Holds.insert (h : Holds map entries) (key : κ) (value : υ) :
    Holds (map.insert key value) (written entries key value) := by
  intro key'
  rw [valueOf?_written]
  by_cases hk : key' = key
  · subst hk
    simp
  · simp [hk, Finmap.lookup_insert_of_ne map hk, h key']

/-- Taking the oldest key out of a map. -/
theorem Holds.erase {e : κ × υ} (h : Holds map (e :: entries))
    (hnodup : ((e :: entries).map Prod.fst).Nodup) : Holds (map.erase e.1) entries := by
  intro key
  by_cases hk : key = e.1
  · subst hk
    rw [Finmap.lookup_erase, valueOf?_eq_none (nodup_cons.mp hnodup).1]
  · rw [Finmap.lookup_erase_ne hk, h key, valueOf?_cons, if_neg (Ne.symm hk)]

/-- Trimming gives up the oldest entries beyond the limit. -/
theorem trim_holds (n : Nat) (h : Holds map entries) (hnodup : (entries.map Prod.fst).Nodup) :
    Holds (trim n map (entries.map Prod.fst)).1 (Cache.evict (some n) entries) ∧
      (trim n map (entries.map Prod.fst)).2 = (Cache.evict (some n) entries).map Prod.fst := by
  induction entries generalizing map with
  | nil => exact ⟨by simpa [trim, Cache.evict] using h, by simp [trim, Cache.evict]⟩
  | cons e entries ih =>
    rw [map_cons, trim, h.card hnodup, length_cons]
    split
    · rename_i hfull
      have hevict : Cache.evict (some n) (e :: entries) = Cache.evict (some n) entries := by
        have hlength : (e :: entries).length - n = entries.length - n + 1 := by
          rw [length_cons]
          omega
        simp only [Cache.evict, hlength, drop_succ_cons]
      rw [hevict]
      exact ih (h.erase hnodup) (nodup_cons.mp hnodup).2
    · rename_i hfull
      have hevict : Cache.evict (some n) (e :: entries) = e :: entries := by
        have hlength : (e :: entries).length - n = 0 := by
          rw [length_cons]
          omega
        simp only [Cache.evict, hlength, drop_zero]
      rw [hevict]
      exact ⟨h, by simp⟩

end

/-- A map with a queue stores a cache: the queue has the keys in their order, the map their
values. -/
structure Stores (q : QueuedMap κ υ) (c : Cache κ υ) : Prop where
  order : q.order = c.keys
  holds : Holds q.map c.entries
  capacity : q.capacity = c.capacity
  hits : q.hits = c.hits
  misses : q.misses = c.misses

namespace Stores

variable {q : QueuedMap κ υ} {c : Cache κ υ}

theorem empty (limit : Option Nat) : Stores (withLimit limit) (.withLimit limit : Cache κ υ) := by
  cases limit <;> exact ⟨rfl, fun key => by simp [withLimit, Cache.withLimit, Cache.unbounded,
    Cache.bounded], rfl, rfl, rfl⟩

theorem insert (h : Stores q c) (hnodup : c.keys.Nodup) (key : κ) (value : υ) :
    Stores (q.insert key value) (c.insert key value) := by
  have horder : (if (q.map.lookup key).isNone then q.order ++ [key] else q.order)
      = (written c.entries key value).map Prod.fst := by
    rw [keys_written, h.order, h.holds key]
    by_cases hmem : key ∈ c.entries.map Prod.fst
    · rcases Option.isSome_iff_exists.mp ((valueOf?_isSome c.entries key).mpr hmem) with ⟨v, hv⟩
      rw [if_pos hmem, hv]
      rfl
    · rw [if_neg hmem, valueOf?_eq_none hmem]
      rfl
  have hholds := h.holds.insert key value
  cases hcapacity : c.capacity with
  | none =>
    have hq : q.capacity = none := h.capacity.trans hcapacity
    have hentries : (c.insert key value).entries = written c.entries key value := by
      rw [Cache.insert_entries, hcapacity]
      rfl
    refine ⟨?_, ?_, ?_, ?_, ?_⟩ <;> simp only [QueuedMap.insert, hq]
    · rw [horder, Cache.keys, hentries]
    · rw [hentries]
      exact hholds
    · exact hcapacity.symm
    · exact h.hits
    · exact h.misses
  | some n =>
    have hq : q.capacity = some n := h.capacity.trans hcapacity
    have hentries : (c.insert key value).entries
        = Cache.evict (some n) (written c.entries key value) := by
      rw [Cache.insert_entries, hcapacity]
    have htrim := trim_holds n hholds (nodup_written hnodup key value)
    refine ⟨?_, ?_, ?_, ?_, ?_⟩ <;> simp only [QueuedMap.insert, hq]
    · rw [horder, htrim.2, Cache.keys, hentries]
    · rw [horder, hentries]
      exact htrim.1
    · exact hcapacity.symm
    · exact h.hits
    · exact h.misses

theorem lookup (h : Stores q c) (key : κ) :
    (q.lookup key).1 = (c.lookup key).1 ∧ Stores (q.lookup key).2 (c.lookup key).2 := by
  have hfind : q.map.lookup key = c.find? key := h.holds key
  unfold QueuedMap.lookup Cache.lookup
  rw [hfind]
  cases c.find? key with
  | none => exact ⟨rfl, h.order, h.holds, h.capacity, h.hits, congrArg (· + 1) h.misses⟩
  | some value => exact ⟨rfl, h.order, h.holds, h.capacity, congrArg (· + 1) h.hits, h.misses⟩

theorem clear (h : Stores q c) : Stores q.clear c.clear :=
  ⟨rfl, fun key => by simp [QueuedMap.clear, Cache.clear], h.capacity, h.hits, h.misses⟩

/-- A map with a queue answers as the cache does, and goes on storing it. -/
theorem step {s : List (Option υ) × QueuedMap κ υ} {s' : List (Option υ) × Cache κ υ}
    (hanswers : s.1 = s'.1) (h : Stores s.2 s'.2) (hnodup : s'.2.keys.Nodup)
    (request : CacheRequest κ υ) :
    (QueuedMap.step s request).1 = (Cache.step s' request).1 ∧
      Stores (QueuedMap.step s request).2 (Cache.step s' request).2 := by
  cases request with
  | insert key value => exact ⟨hanswers, h.insert hnodup key value⟩
  | lookup key =>
    have hlookup := h.lookup key
    exact ⟨by simp only [QueuedMap.step, Cache.step, hanswers, hlookup.1], hlookup.2⟩
  | clear => exact ⟨hanswers, h.clear⟩

theorem replay (limit : Option Nat) (requests : List (CacheRequest κ υ)) :
    (QueuedMap.replay limit requests).1 = (Cache.replay limit requests).1 ∧
      Stores (QueuedMap.replay limit requests).2 (Cache.replay limit requests).2 := by
  induction requests using List.reverseRecOn with
  | nil => exact ⟨rfl, empty limit⟩
  | append_singleton requests request ih =>
    have hnodup := (Cache.FollowsRequests.replay limit requests).nodup
    rw [Cache.replay_concat, QueuedMap.replay, foldl_append]
    exact step ih.1 ih.2 hnodup request

end Stores

end QueuedMap

/-! ## The theorem -/

/-- A cache is a bounded queue of keys with values.  Whatever was asked of it:

- stored as a map with a queue it gives the same answers, the queue lists the keys of the map
  without repetition, and they are the keys of the cache;
- there are not more entries than the limit allows, which is at least one;
- the keys are the last ones that were enqueued, as many as there is room for;
- a lookup gives the value that was written last if the key is held, and nothing otherwise;
- hits are the lookups that gave a value, and hits and misses are all lookups. -/
theorem cache_is_bounded_fifo (limit : Option Nat) (requests : List (CacheRequest κ υ)) :
    ∃ answers c q, Cache.replay limit requests = (answers, c) ∧
      QueuedMap.replay limit requests = (answers, q) ∧
      (q.order.Nodup ∧ (∀ key, key ∈ q.order ↔ key ∈ q.map) ∧ q.order = c.keys ∧
        q.map.keys.card = c.size ∧ ∀ key, q.map.lookup key = c.find? key) ∧
      (∀ n, limit = some n → c.size ≤ max n 1) ∧
      c.keys = newest (limit.map (max · 1)) (enqueued (limit.map (max · 1)) requests) ∧
      (∀ key, (c.lookup key).1 = if key ∈ c.keys then lastInserted requests key else none) ∧
      c.hits = answers.countP Option.isSome ∧
      c.hits + c.misses = requests.countP CacheRequest.isLookup := by
  have hfollows := Cache.FollowsRequests.replay limit requests
  have hstores := QueuedMap.Stores.replay limit requests
  refine ⟨(Cache.replay limit requests).1, (Cache.replay limit requests).2,
    (QueuedMap.replay limit requests).2, rfl, Prod.ext hstores.1 rfl,
    ⟨?_, ?_, hstores.2.order, ?_, hstores.2.holds⟩, ?_, hfollows.held, ?_, hfollows.hits,
    hfollows.lookups⟩
  · rw [hstores.2.order]
    exact hfollows.nodup
  · intro key
    rw [hstores.2.order, ← Finmap.lookup_isSome, hstores.2.holds key, valueOf?_isSome]
    rfl
  · exact hstores.2.holds.card hfollows.nodup
  · intro n hlimit
    subst hlimit
    have hlength := congrArg List.length hfollows.held
    rw [Cache.keys, length_map] at hlength
    rw [Cache.size, hlength]
    exact newest_length_le _ _
  · intro key
    rw [Cache.lookup_answer, hfollows.find?, hfollows.held]

/-- A key that is written again keeps its place and is the first to go; when it comes back it
is the newest. -/
example :
    ((Cache.replay (some 2) [.insert 1 "a", .insert 2 "b", .insert 1 "c", .insert 3 "d",
        .lookup 1, .insert 1 "e", .lookup 1]).2.entries = [(3, "d"), (1, "e")]) ∧
      (Cache.replay (some 2) [.insert 1 "a", .insert 2 "b", .insert 1 "c", .insert 3 "d",
        .lookup 1, .insert 1 "e", .lookup 1]).1 = [none, some "e"] := by
  decide

end Shading
