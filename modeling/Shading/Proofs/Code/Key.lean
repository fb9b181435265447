import Shading.Proofs.Code.Content
import Shading.Proofs.Fragment.Frame
import Shading.Proofs.Layout.RoundTrip
import Shading.Proofs.Lowering.Locality

/-!
# What keys tell

A key is a digest of everything that the code of an item depends on.  Where no two of the
byte strings that are hashed share their digest, items with the same key have the same
code: their fragments compute the same, their parameters are declared alike, their resources
are bound alike, and target and options agree.

Main definitions:

- `Digest.NoCollision` says that byte strings are told apart by their digests.
- `Options.SameCode` says that two sets of options differ at most in what the code does not
  depend on.
- `Compilable.hashed` lists the byte strings that are hashed for the key of an item.
- `Compilable.SameKey` is what items of the same key agree in.

Main results:

- `Fragment.sameKey_of_cacheKey` and `Distribution.sameKey_of_cacheKey`: fragments and
  distributions of the same key.
- `Compilable.sameKey_of_cacheKey`: items of the same key.
- `Compilable.declared_of_cacheKey`: what they agree in where numbers are not finite.
-/

namespace Shading

open List

open Json

instance : LawfulNamed TargetKind := ⟨fun a => by cases a <;> rfl⟩
instance : LawfulNamed OutputFormat := ⟨fun a => by cases a <;> rfl⟩
instance : LawfulNamed InternalSpace := ⟨fun a => by cases a <;> rfl⟩
instance : LawfulNamed CallMode := ⟨fun a => by cases a <;> rfl⟩

/-! ## Byte strings -/

namespace Bytes

theorem ofText_inj {s s' : String} (h : ofText s = ofText s') : s = s' :=
  String.toByteArray_inj.mp (ByteArray.ext (Array.toList_inj.mp h))

/-- The bytes of a JSON text, without a detour over the text. -/
theorem ofText_text (j : Json) : ofText j.text = j.chars.flatMap String.utf8EncodeChar := by
  simp [ofText, Json.text, String.ofList, List.utf8Encode]

theorem hexValue_hexDigit {n : Nat} (h : n < 16) : hexValue (hexDigit n) = n := by
  revert h
  revert n
  decide

theorem ofHex_hex (bytes : Bytes) : ofHex (hex bytes).toList = bytes := by
  unfold hex
  rw [String.toList_ofList]
  induction bytes with
  | nil => rfl
  | cons b rest ih =>
    have hlt := b.toNat_lt
    rw [flatMap_cons, hexByte, cons_append, cons_append, nil_append, ofHex,
      ih, hexValue_hexDigit (by omega), hexValue_hexDigit (by omega), Nat.div_add_mod,
      UInt8.ofNat_toNat]

theorem hex_inj {bytes bytes' : Bytes} (h : hex bytes = hex bytes') : bytes = bytes' := by
  rw [← ofHex_hex bytes, h, ofHex_hex]

theorem ofWord64_inj {w w' : UInt64} (h : ofWord64 w = ofWord64 w') : w = w' := by
  have hword := word64?_ofWord64 w
  rw [h, word64?_ofWord64] at hword
  exact (Option.some.inj hword).symm

end Bytes

namespace Digest

theorem length_bytes (d : Digest) : d.bytes.length = 32 := by
  simp [bytes, Bytes.ofWord64]

theorem bytes_inj {d d' : Digest} (h : d.bytes = d'.bytes) : d = d' := by
  have hlength : ∀ w w' : UInt64, (Bytes.ofWord64 w).length = (Bytes.ofWord64 w').length := by
    simp [Bytes.ofWord64]
  obtain ⟨h, h3⟩ := append_inj' h (hlength _ _)
  obtain ⟨h, h2⟩ := append_inj' h (hlength _ _)
  obtain ⟨h0, h1⟩ := append_inj' h (hlength _ _)
  obtain ⟨_, _, _, _⟩ := d
  obtain ⟨_, _, _, _⟩ := d'
  rw [Digest.mk.injEq]
  exact ⟨Bytes.ofWord64_inj h0, Bytes.ofWord64_inj h1, Bytes.ofWord64_inj h2,
    Bytes.ofWord64_inj h3⟩

theorem hex_inj {d d' : Digest} (h : d.hex = d'.hex) : d = d' :=
  bytes_inj (Bytes.hex_inj h)

/-- Digests are read off one after the other, since they have the same length. -/
theorem flatMap_bytes_inj {ds ds' : List Digest} (h : ds.flatMap bytes = ds'.flatMap bytes) :
    ds = ds' := by
  induction ds generalizing ds' with
  | nil =>
    cases ds' with
    | nil => rfl
    | cons d' ds' =>
      have hlength := congrArg List.length h
      rw [flatMap_cons, length_append, length_bytes] at hlength
      simp only [flatMap_nil, length_nil] at hlength
      omega
  | cons d ds ih =>
    cases ds' with
    | nil =>
      have hlength := congrArg List.length h
      rw [flatMap_cons, length_append, length_bytes] at hlength
      simp only [flatMap_nil, length_nil] at hlength
      omega
    | cons d' ds' =>
      rw [flatMap_cons, flatMap_cons] at h
      obtain ⟨hfirst, hrest⟩ := append_inj h (by rw [length_bytes, length_bytes])
      rw [bytes_inj hfirst, ih hrest]

/-- No two of the byte strings share their digest. -/
def NoCollision (texts : List Bytes) : Prop :=
  ∀ x ∈ texts, ∀ y ∈ texts, Digest.of x = Digest.of y → x = y

end Digest

/-! ## Fragments -/

/-- Two sets of options that differ at most in which fields may be compiled and in whether
the output is validated. -/
def Options.SameCode (o o' : Options) : Prop :=
  o' = { o with compileConstants := o'.compileConstants, validateOutput := o'.validateOutput }

namespace Fragment

/-- The byte strings that are hashed for the key of a fragment. -/
def hashed (f : Fragment) (m : ResourceMap) (target : TargetKind) (o : Options) : List Bytes :=
  [Bytes.ofText f.content.text, Bytes.ofText (f.keyContent m target o).text]

/-- What two fragments of the same key agree in. -/
structure SameKey (f f' : Fragment) (m m' : ResourceMap) (target target' : TargetKind)
    (o o' : Options) : Prop where
  name : f'.name = f.name
  content : f.SameContent f'
  resources : m' = m
  target : target' = target
  options : o.SameCode o'

variable {f f' : Fragment} {m m' : ResourceMap} {target target' : TargetKind} {o o' : Options}
  {texts : List Bytes}

/-- What is hashed for a key tells everything apart but resources, of which it tells the
JSON. -/
theorem keyContent_members (h : f.keyContent m target o = f'.keyContent m' target' o') :
    f'.name = f.name ∧ f'.contentHash = f.contentHash ∧
      (ResourceMap.toJson m).sortKeys = (ResourceMap.toJson m').sortKeys ∧ target' = target ∧
      o.SameCode o' := by
  obtain ⟨-, htarget, hname, hhash, hresources, harch, hformat, -, hspaces, hresults, hinternal,
      hlevel, hmath, hexceptions, hsegment, hmode, hstrings, -⟩ :=
    sortKeys_object_inj (congrArg sortKeys h)
      ["generator", "target", "function", "content_hash", "resources", "target_arch",
        "output_format", "context", "num_texture_spaces", "num_texture_results", "internal_space",
        "opt_level", "fast_math", "enable_exceptions", "enable_ro_segment", "call_mode",
        "map_strings_to_ids"]
  refine ⟨(tells_string hname).symm,
    (Digest.hex_inj (tells_string hhash)).symm, hresources,
    (tells_ofNamed htarget).symm, ?_⟩
  have harch := tells_ofNat harch
  have hformat := tells_ofNamed hformat
  have hspaces := tells_ofNat hspaces
  have hresults := tells_ofNat hresults
  have hinternal := tells_ofNamed hinternal
  have hlevel := tells_ofNat hlevel
  have hmath := tells_bool hmath
  have hexceptions := tells_bool hexceptions
  have hsegment := tells_bool hsegment
  have hmode := tells_ofNamed hmode
  have hstrings := tells_bool hstrings
  unfold Options.SameCode
  rw [harch, hformat, hspaces, hresults, hinternal, hlevel, hmath, hexceptions, hsegment, hmode,
    hstrings]

/-- Fragments of the same key are hashed as the same JSON. -/
theorem content_of_cacheKey (htexts : Digest.NoCollision texts)
    (hhashed : f.hashed m target o ⊆ texts) (hhashed' : f'.hashed m' target' o' ⊆ texts)
    (h : f.cacheKey m target o = f'.cacheKey m' target' o') :
    f.keyContent m target o = f'.keyContent m' target' o' ∧ f.content = f'.content := by
  have hkey := Json.text_inj (Bytes.ofText_inj (htexts _ (hhashed (by simp [hashed])) _
    (hhashed' (by simp [hashed])) h))
  obtain ⟨-, hhash, -⟩ := keyContent_members hkey
  exact ⟨hkey, Json.text_inj (Bytes.ofText_inj (htexts _ (hhashed (by simp [hashed])) _
    (hhashed' (by simp [hashed])) hhash.symm))⟩

/-- Fragments of the same key agree in all that the key depends on. -/
theorem sameKey_of_cacheKey (htexts : Digest.NoCollision texts)
    (hf : f.isFinite) (hf' : f'.isFinite) (hm : m.isFinite) (hm' : m'.isFinite)
    (hhashed : f.hashed m target o ⊆ texts) (hhashed' : f'.hashed m' target' o' ⊆ texts)
    (h : f.cacheKey m target o = f'.cacheKey m' target' o') :
    f.SameKey f' m m' target target' o o' := by
  obtain ⟨hkey, hcontent⟩ := content_of_cacheKey htexts hhashed hhashed' h
  obtain ⟨hname, -, hresources, htarget, hoptions⟩ := keyContent_members hkey
  exact ⟨hname, sameContent_of_content hf hf' hcontent,
    (ResourceMap.toJson_faithful hm hm' hresources).symm, htarget, hoptions⟩

/-- Fragments of the same key have parameters that are declared alike, and are compiled with
options that give the same code, also where numbers are not finite. -/
theorem declared_of_cacheKey (htexts : Digest.NoCollision texts)
    (hhashed : f.hashed m target o ⊆ texts) (hhashed' : f'.hashed m' target' o' ⊆ texts)
    (h : f.cacheKey m target o = f'.cacheKey m' target' o') :
    f'.parameters.map Parameter.declared = f.parameters.map Parameter.declared ∧
      target' = target ∧ o.SameCode o' := by
  obtain ⟨hkey, hcontent⟩ := content_of_cacheKey htexts hhashed hhashed' h
  obtain ⟨-, -, -, htarget, hoptions⟩ := keyContent_members hkey
  exact ⟨(sameMasked_of_content hcontent).parameters, htarget, hoptions⟩

theorem mem_reachable {id : Nat} {node : Node} :
    (id, node) ∈ f.reachable ↔
      f.graph.Reachable f.rootNodes id ∧ f.graph.node? id = some node := by
  unfold reachable
  rw [mem_filterMap]
  constructor
  · rintro ⟨id', hid', hnode⟩
    obtain ⟨node', hnode', heq⟩ := Option.map_eq_some_iff.mp hnode
    cases heq
    exact ⟨(Graph.mem_postOrder_iff.mp hid').1, hnode'⟩
  · rintro ⟨hid, hnode⟩
    have hlt : id < f.graph.size := Graph.node?_isSome_iff.mp (by rw [hnode]; rfl)
    exact ⟨id, Graph.mem_postOrder_iff.mpr ⟨hid, hlt⟩, by rw [hnode]; rfl⟩

/-- Fragments that list the same nodes hold the same nodes at all ids that are reached, and
none where there is none. -/
theorem SameContent.agreesFrom (h : f.SameContent f') :
    f.graph.AgreesFrom f'.graph f.rootNodes := by
  have hroots : f'.rootNodes = f.rootNodes := by
    unfold rootNodes
    rw [h.roots]
  have hnode : ∀ id, f.graph.Reachable f.rootNodes id → f'.graph.Reachable f.rootNodes id →
      f.graph.node? id = f'.graph.node? id := by
    intro id hid hid'
    rw [← hroots] at hid'
    ext node
    constructor
    · intro hnode
      exact (mem_reachable.mp (h.reachable ▸ mem_reachable.mpr ⟨hid, hnode⟩)).2
    · intro hnode
      exact (mem_reachable.mp (h.reachable ▸ mem_reachable.mpr ⟨hid', hnode⟩)).2
  have hreach : ∀ id, f.graph.Reachable f.rootNodes id → f'.graph.Reachable f.rootNodes id := by
    intro id hid
    induction hid with
    | root hmem => exact .root hmem
    | arg hid hfound ha ih => exact ih.arg ((hnode _ hid ih).symm.trans hfound) ha
  exact fun id hid => hnode id hid (hreach id hid)

theorem SameKey.alike (h : f.SameKey f' m m' target target' o o') : f.Alike f' :=
  ⟨h.name, h.content.context, h.content.roots, h.content.uniform, h.content.agreesFrom⟩

/-- The text that is hashed for a fragment starts with a brace. -/
theorem head_keyContent : (Bytes.ofText (f.keyContent m target o).text).head? = some 0x7b := by
  have htext : ∃ cs, (f.keyContent m target o).chars = '\x7b' :: cs := ⟨_, rfl⟩
  obtain ⟨cs, hcs⟩ := htext
  unfold Bytes.ofText Json.text
  rw [hcs, String.toUTF8_eq_toByteArray, String.toByteArray_ofList, utf8Encode_cons,
    ByteArray.data_append, Array.toList_append]
  rfl

end Fragment

/-! ## Distributions -/

namespace Distribution

/-- The byte string that is hashed for a distribution: the keys of its fragments. -/
def keyBytes (d : Distribution) (r : DistributionResources) (target : TargetKind) (o : Options) :
    Bytes :=
  Bytes.ofText "df" ++ (d.main.cacheKey r.main target o).bytes
    ++ (d.aux.zip r.aux).flatMap fun e => (e.1.cacheKey e.2 target o).bytes

/-- The byte strings that are hashed for the key of a distribution. -/
def hashed (d : Distribution) (r : DistributionResources) (target : TargetKind) (o : Options) :
    List Bytes :=
  d.keyBytes r target o :: (d.main.hashed r.main target o
    ++ (d.aux.zip r.aux).flatMap fun e => e.1.hashed e.2 target o)

/-- Whether the fragments of a distribution and the maps of their resources are finite. -/
def isFinite (d : Distribution) (r : DistributionResources) : Bool :=
  d.main.isFinite && r.main.isFinite
    && (d.aux.zip r.aux).all fun e => e.1.isFinite && e.2.isFinite

variable {d d' : Distribution} {r r' : DistributionResources} {target target' : TargetKind}
  {o o' : Options} {texts : List Bytes}

theorem keys_of_keyBytes (h : d.keyBytes r target o = d'.keyBytes r' target' o') :
    d.main.cacheKey r.main target o = d'.main.cacheKey r'.main target' o' ∧
      (d.aux.zip r.aux).map (fun e => e.1.cacheKey e.2 target o)
        = (d'.aux.zip r'.aux).map fun e => e.1.cacheKey e.2 target' o' := by
  unfold keyBytes at h
  rw [append_assoc, append_assoc] at h
  obtain ⟨hmain, haux⟩ := append_inj (append_cancel_left h)
    (by rw [Digest.length_bytes, Digest.length_bytes])
  refine ⟨Digest.bytes_inj hmain, Digest.flatMap_bytes_inj ?_⟩
  rw [flatMap_map, flatMap_map]
  exact haux

/-- Distributions of the same key agree in all that the key depends on. -/
theorem sameKey_of_cacheKey (htexts : Digest.NoCollision texts) (hfinite : d.isFinite r)
    (hfinite' : d'.isFinite r') (hlength : r.aux.length = d.aux.length)
    (hlength' : r'.aux.length = d'.aux.length) (hhashed : d.hashed r target o ⊆ texts)
    (hhashed' : d'.hashed r' target' o' ⊆ texts)
    (h : d.cacheKey r target o = d'.cacheKey r' target' o') :
    d.main.SameKey d'.main r.main r'.main target target' o o' ∧
      Forall₂ Fragment.Alike d.aux d'.aux := by
  obtain ⟨hbytes, hrest⟩ := cons_subset.mp hhashed
  obtain ⟨hbytes', hrest'⟩ := cons_subset.mp hhashed'
  obtain ⟨hmain, haux⟩ := append_subset.mp hrest
  obtain ⟨hmain', haux'⟩ := append_subset.mp hrest'
  obtain ⟨hkey, hkeys⟩ := keys_of_keyBytes (htexts _ hbytes _ hbytes' h)
  simp only [isFinite, Bool.and_eq_true, all_eq_true] at hfinite hfinite'
  refine ⟨Fragment.sameKey_of_cacheKey htexts hfinite.1.1 hfinite'.1.1 hfinite.1.2 hfinite'.1.2
    hmain hmain' hkey, ?_⟩
  have halike : Forall₂ (fun e e' => e.1.Alike e'.1) (d.aux.zip r.aux)
      (d'.aux.zip r'.aux) := by
    refine forall₂_of_map_eq (fun e he e' he' hkey => ?_) hkeys
    obtain ⟨hf, hm⟩ := hfinite.2 e he
    obtain ⟨hf', hm'⟩ := hfinite'.2 e' he'
    have hhashed : e.1.hashed e.2 target o ⊆ texts :=
      fun x hx => haux (mem_flatMap.mpr ⟨e, he, hx⟩)
    have hhashed' : e'.1.hashed e'.2 target' o' ⊆ texts :=
      fun x hx => haux' (mem_flatMap.mpr ⟨e', he', hx⟩)
    exact (Fragment.sameKey_of_cacheKey htexts hf hf' hm hm' hhashed hhashed' hkey).alike
  rw [← map_fst_zip (Nat.le_of_eq hlength.symm),
    ← map_fst_zip (Nat.le_of_eq hlength'.symm)]
  exact forall₂_map_left_iff.mpr (forall₂_map_right_iff.mpr halike)

/-- The byte string of a distribution is no text of a fragment. -/
theorem keyBytes_ne_keyContent {f : Fragment} {m : ResourceMap} :
    d.keyBytes r target o ≠ Bytes.ofText (f.keyContent m target' o').text := by
  intro h
  have hhead := @Fragment.head_keyContent f m target' o'
  have hdf : Bytes.ofText "df" = [0x64, 0x66] := by decide
  rw [← h, keyBytes, hdf] at hhead
  simp at hhead

/-- No distribution has the key of a fragment. -/
theorem cacheKey_ne {f : Fragment} {m : ResourceMap} (htexts : Digest.NoCollision texts)
    (hhashed : d.hashed r target o ⊆ texts) (hhashed' : f.hashed m target' o' ⊆ texts) :
    d.cacheKey r target o ≠ f.cacheKey m target' o' := by
  intro h
  exact keyBytes_ne_keyContent (htexts _ (hhashed mem_cons_self) _
    (hhashed' (by simp [Fragment.hashed])) h)

/-- The main fragments of distributions of the same key have the same key. -/
theorem mainKey_of_cacheKey (htexts : Digest.NoCollision texts)
    (hhashed : d.hashed r target o ⊆ texts) (hhashed' : d'.hashed r' target' o' ⊆ texts)
    (h : d.cacheKey r target o = d'.cacheKey r' target' o') :
    d.main.cacheKey r.main target o = d'.main.cacheKey r'.main target' o' :=
  (keys_of_keyBytes (htexts _ (hhashed mem_cons_self) _ (hhashed' mem_cons_self) h)).1

end Distribution

/-! ## Items -/

/-- The resources that go with an item: one map for each of its fragments. -/
def CompilableResources.Fits : CompilableResources → Compilable → Prop
  | .function _, .function .. => True
  | .distribution maps, .distribution d => maps.aux.length = d.aux.length
  | _, _ => False

theorem ResourceTables.length_bindFragments (t : ResourceTables) (store : AssetStore)
    (lib : Library) (fragments : List Fragment) :
    (t.bindFragments store lib fragments).2.length = fragments.length := by
  induction fragments generalizing t with
  | nil => rfl
  | cons f rest ih => rw [bindFragments, length_cons, length_cons, ih]

namespace Compilable

theorem bindResources_fits (item : Compilable) (t : ResourceTables) (store : AssetStore)
    (lib : Library) : (item.bindResources t store lib).2.Fits item := by
  cases item with
  | function f kind => trivial
  | distribution d => exact ResourceTables.length_bindFragments _ _ _ _

/-- The byte strings that are hashed for the key of an item. -/
def hashed (item : Compilable) (r : CompilableResources) (target : TargetKind) (o : Options) :
    List Bytes :=
  match item, r with
  | .distribution d, .distribution maps => d.hashed maps target o
  | item, r => item.main.hashed r.main target o

/-- Whether the fragments of an item and the maps of their resources are finite. -/
def isFinite (item : Compilable) (r : CompilableResources) : Bool :=
  match item, r with
  | .distribution d, .distribution maps => d.isFinite maps
  | item, r => item.main.isFinite && r.main.isFinite

/-- What two items of the same key agree in. -/
structure SameKey (item item' : Compilable) (r r' : CompilableResources)
    (target target' : TargetKind) (o o' : Options) : Prop where
  alike : item.Alike item'
  parameters : item'.parameters.map Parameter.declared = item.parameters.map Parameter.declared
  resources : r'.main = r.main
  target : target' = target
  options : o.SameCode o'

variable {item item' : Compilable} {r r' : CompilableResources} {target target' : TargetKind}
  {o o' : Options} {texts : List Bytes}

/-- Two items of one form, with their resources. -/
inductive Paired : Compilable → Compilable → CompilableResources → CompilableResources → Prop
  | function (f f' : Fragment) (kind kind' : FunctionKind) (m m' : ResourceMap) :
      Paired (.function f kind) (.function f' kind') (.function m) (.function m')
  | distribution (d d' : Distribution) (maps maps' : DistributionResources) :
      Paired (.distribution d) (.distribution d') (.distribution maps) (.distribution maps')

/-- Items of the same key are two functions or two distributions. -/
theorem paired_of_cacheKey (htexts : Digest.NoCollision texts) (hr : r.Fits item)
    (hr' : r'.Fits item') (hhashed : item.hashed r target o ⊆ texts)
    (hhashed' : item'.hashed r' target' o' ⊆ texts)
    (h : item.cacheKey r target o = item'.cacheKey r' target' o') : Paired item item' r r' := by
  cases item <;> cases r <;> try exact hr.elim
  all_goals cases item' <;> cases r' <;> try exact hr'.elim
  · exact .function ..
  · exact absurd h.symm (Distribution.cacheKey_ne htexts hhashed' hhashed)
  · exact absurd h (Distribution.cacheKey_ne htexts hhashed hhashed')
  · exact .distribution ..

/-- Items of the same key agree in all that the key depends on. -/
theorem sameKey_of_cacheKey (htexts : Digest.NoCollision texts) (hr : r.Fits item)
    (hr' : r'.Fits item') (hkind : item.KindFits) (hkind' : item'.KindFits)
    (hfinite : item.isFinite r) (hfinite' : item'.isFinite r')
    (hhashed : item.hashed r target o ⊆ texts) (hhashed' : item'.hashed r' target' o' ⊆ texts)
    (h : item.cacheKey r target o = item'.cacheKey r' target' o') :
    item.SameKey item' r r' target target' o o' := by
  cases paired_of_cacheKey htexts hr hr' hhashed hhashed' h with
  | function f f' kind kind' m m' =>
    have hfinite := (Bool.and_eq_true _ _).mp hfinite
    have hfinite' := (Bool.and_eq_true _ _).mp hfinite'
    have hsame : f.SameKey f' m m' target target' o o' :=
      Fragment.sameKey_of_cacheKey htexts hfinite.1 hfinite'.1 hfinite.2 hfinite'.2
        hhashed hhashed' h
    have hkinds : kindOf f' = kindOf f := by
      unfold kindOf
      rw [hsame.content.roots, hsame.content.context]
    cases hkind
    cases hkind'
    refine ⟨?_, hsame.content.parameters, hsame.resources, hsame.target, hsame.options⟩
    rw [hkinds]
    exact .function hsame.alike
  | distribution d d' maps maps' =>
    obtain ⟨hmain, haux⟩ := Distribution.sameKey_of_cacheKey htexts hfinite hfinite'
      hr hr' hhashed hhashed' h
    exact ⟨.distribution hmain.alike haux, hmain.content.parameters, hmain.resources,
      hmain.target, hmain.options⟩

/-- Items of the same key have parameters that are declared alike, and are compiled with options
that give the same code, also where numbers are not finite. -/
theorem declared_of_cacheKey (htexts : Digest.NoCollision texts) (hr : r.Fits item)
    (hr' : r'.Fits item') (hhashed : item.hashed r target o ⊆ texts)
    (hhashed' : item'.hashed r' target' o' ⊆ texts)
    (h : item.cacheKey r target o = item'.cacheKey r' target' o') :
    item'.parameters.map Parameter.declared = item.parameters.map Parameter.declared ∧
      target' = target ∧ o.SameCode o' := by
  cases paired_of_cacheKey htexts hr hr' hhashed hhashed' h with
  | function f f' kind kind' m m' => exact Fragment.declared_of_cacheKey htexts hhashed hhashed' h
  | distribution d d' maps maps' =>
    exact Fragment.declared_of_cacheKey htexts
      (append_subset.mp (cons_subset.mp hhashed).2).1
      (append_subset.mp (cons_subset.mp hhashed').2).1
      (Distribution.mainKey_of_cacheKey htexts hhashed hhashed' h)

end Compilable

end Shading
