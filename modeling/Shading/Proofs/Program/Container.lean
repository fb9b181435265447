import Shading.Program.Container
import Shading.Proofs.Json.Literals

/-!
# Containers are read back

A program is written as JSON behind a mark and a version.  What is read back off the payload is the
program, as long as its literals are finite: a number that is not finite has no digits, is written
as null, and null is no number.

A literal of 32 bits is read as one of 64 bits and then rounded, which `Float32.ReadsBack` asks to
give the number that was written.

Main definitions:

- `Program.fits` says that the numbers of a program fit their widths.
- `Program.isFinite` says that its literals are finite, and `Program.singles` are those of 32 bits.

Main results:

- `Op.ofJson?_toJson`, `Routine.ofJson?_toJson` and `Program.ofJson?_toJson`: operations, routines
  and programs are read back.
- `Program.isFinite_of_ofJson?`: only programs with finite literals are.
- `Program.decode_eq_ok_iff`: what a container holds.
- `container_codec_is_exact`: reading undoes writing, and reads containers only.
-/

namespace Shading

open List

open Json

instance : LawfulNamed UnaryOp := ⟨fun a => by cases a <;> rfl⟩
instance : LawfulNamed BinaryOp := ⟨fun a => by cases a <;> rfl⟩
instance : LawfulNamed TernaryOp := ⟨fun a => by cases a <;> rfl⟩
instance : LawfulNamed StateField := ⟨fun a => by cases a <;> rfl⟩
instance : LawfulNamed FunctionKind := ⟨fun a => by cases a <;> rfl⟩

/-! ## Instructions -/

namespace Op

/-- The numbers that stand in an operation: ids, offsets and indices. -/
def numbers : Op → List Nat
  | .roLoad offset => [offset]
  | .argLoad block offset => [block, offset]
  | .construct args | .runtimeCall _ args => args
  | .extract value index => [value, index]
  | .unary _ a => [a]
  | .binary _ a b => [a, b]
  | .ternary _ a b c => [a, b, c]
  | .textureCoordinate index | .textureResult index => [index]
  | .bool _ | .int _ | .float _ | .double _ | .state _ => []

/-- The literal of 32 bits of an operation. -/
def single? : Op → Option Float32
  | .float x => some x
  | _ => none

/-- Whether the literal of an operation is finite. -/
def isFinite : Op → Bool
  | .float x => Float32.finite x
  | .double x => Float.finite x
  | _ => true

theorem list?_idsToJson {ids : List Nat} (h : ∀ n ∈ ids, n < 2 ^ 32) :
    list? nat32? (idsToJson ids) = some ids :=
  list?_ofList fun n hn => nat32?_ofNat (h n hn)

/-- An operation is read back. -/
theorem ofJson?_toJson {op : Op} (hfits : ∀ n ∈ op.numbers, n < 2 ^ 32) (hfinite : op.isFinite)
    (hsingle : ∀ x ∈ op.single?, Float32.ReadsBack x) : ofJson? op.toJson = some op := by
  have hnumber : ∀ n ∈ op.numbers, nat32? (ofNat n) = some n :=
    fun n hn => nat32?_ofNat (hfits n hn)
  -- Each case names the arm of the reader that the tag selects.  A number that comes first is read
  -- off any JSON that gives it, so that nothing is tempted to compare it with its bound.
  cases op with
  | bool b => rfl
  | int n =>
    change (int32? (ofInt32 n)).bind (fun n => some (int n)) = _
    rw [int32?_ofInt32, Option.bind_some]
  | float x =>
    have hread : float32? (ofFloat32 x) = some x := hsingle x rfl
    change (float32? (ofFloat32 x)).bind (fun x => some (float x)) = _
    rw [hread, Option.bind_some]
  | double x =>
    change (float? (ofFloat x)).bind (fun x => some (double x)) = _
    rw [float?_ofFloat hfinite, Option.bind_some]
  | roLoad offset =>
    have hread : ∀ j, nat32? j = some offset →
        ofJson? (.object [("ro_load", .object [("offset", j)])]) = some (.roLoad offset) := by
      intro j hj
      change (record? ["offset"] (.object [("offset", j)])).bind (fun r =>
        (r.get? "offset" nat32?).bind fun offset => some (roLoad offset)) = _
      simp [record?_object, hj]
    exact hread _ (hnumber offset mem_cons_self)
  | argLoad block offset =>
    have hread : ∀ j j', nat32? j = some block → nat32? j' = some offset →
        ofJson? (.object [("arg_load", .object [("block", j), ("offset", j')])])
          = some (.argLoad block offset) := by
      intro j j' hj hj'
      change (record? ["block", "offset"] (.object [("block", j), ("offset", j')])).bind (fun r =>
        (r.get? "block" nat32?).bind fun block => (r.get? "offset" nat32?).bind fun offset =>
          some (argLoad block offset)) = _
      simp [record?_object, hj, hj']
    exact hread _ _ (hnumber block mem_cons_self)
      (hnumber offset (mem_cons_of_mem _ mem_cons_self))
  | construct args =>
    have hargs : list? nat32? (idsToJson args) = some args := list?_idsToJson hfits
    change (list? nat32? (idsToJson args)).bind (fun args => some (construct args)) = _
    rw [hargs, Option.bind_some]
  | extract value index =>
    have hread : ∀ j j', nat32? j = some value → nat32? j' = some index →
        ofJson? (.object [("extract", .object [("value", j), ("index", j')])])
          = some (.extract value index) := by
      intro j j' hj hj'
      change (record? ["value", "index"] (.object [("value", j), ("index", j')])).bind (fun r =>
        (r.get? "value" nat32?).bind fun value => (r.get? "index" nat32?).bind fun index =>
          some (extract value index)) = _
      simp [record?_object, hj, hj']
    exact hread _ _ (hnumber value mem_cons_self)
      (hnumber index (mem_cons_of_mem _ mem_cons_self))
  | unary op a =>
    have ha := hnumber a mem_cons_self
    change (enum? (ofNamed op)).bind (fun op => (nat32? (ofNat a)).bind fun a =>
      some (unary op a)) = _
    rw [enum?_ofNamed, Option.bind_some, ha, Option.bind_some]
  | binary op a b =>
    have ha := hnumber a mem_cons_self
    have hb := hnumber b (mem_cons_of_mem _ mem_cons_self)
    change (enum? (ofNamed op)).bind (fun op => (nat32? (ofNat a)).bind fun a =>
      (nat32? (ofNat b)).bind fun b => some (binary op a b)) = _
    rw [enum?_ofNamed, Option.bind_some, ha, Option.bind_some, hb, Option.bind_some]
  | ternary op a b c =>
    simp only [numbers, forall_mem_cons] at hnumber
    obtain ⟨ha, hb, hc, -⟩ := hnumber
    change (enum? (ofNamed op)).bind (fun op => (nat32? (ofNat a)).bind fun a =>
      (nat32? (ofNat b)).bind fun b => (nat32? (ofNat c)).bind fun c =>
        some (ternary op a b c)) = _
    rw [enum?_ofNamed, Option.bind_some, ha, Option.bind_some, hb, Option.bind_some, hc,
      Option.bind_some]
  | state field =>
    change (enum? (ofNamed field)).bind (fun field => some (state field)) = _
    rw [enum?_ofNamed, Option.bind_some]
  | textureCoordinate index =>
    have hread : ∀ j, nat32? j = some index →
        ofJson? (.object [("texture_coordinate", j)]) = some (.textureCoordinate index) := by
      intro j hj
      change (nat32? j).bind (fun index => some (textureCoordinate index)) = _
      rw [hj, Option.bind_some]
    exact hread _ (hnumber index mem_cons_self)
  | textureResult index =>
    have hread : ∀ j, nat32? j = some index →
        ofJson? (.object [("texture_result", j)]) = some (.textureResult index) := by
      intro j hj
      change (nat32? j).bind (fun index => some (textureResult index)) = _
      rw [hj, Option.bind_some]
    exact hread _ (hnumber index mem_cons_self)
  | runtimeCall name args =>
    have hargs : list? nat32? (idsToJson args) = some args := list?_idsToJson hfits
    change (record? ["name", "args"]
      (.object [("name", .string name), ("args", idsToJson args)])).bind (fun r =>
        (r.get? "name" string?).bind fun name => (r.get? "args" (list? nat32?)).bind fun args =>
          some (runtimeCall name args)) = _
    simp [record?_object, string?, hargs]

/-- An operation that is read back has a finite literal, if it has one. -/
theorem isFinite_of_ofJson? {op : Op} (h : (ofJson? op.toJson).isSome) : op.isFinite := by
  cases op with
  | float x =>
    by_contra hx
    have hnull : ofJson? (float x).toJson
        = (float32? (ofFloat32 x)).bind fun x => some (float x) :=
      rfl
    rw [hnull, (ofFloat32_eq_null_iff x).mpr hx] at h
    exact nomatch h
  | double x =>
    by_contra hx
    have hnull : ofJson? (double x).toJson = (float? (ofFloat x)).bind fun x => some (double x) :=
      rfl
    rw [hnull, (ofFloat_eq_null_iff x).mpr hx] at h
    exact nomatch h
  | _ => all_goals rfl

end Op

/-- Whether the numbers of an instruction fit their widths. -/
def Instr.fits (i : Instr) : Bool :=
  i.type.fits && i.op.numbers.all (· < 2 ^ 32)

theorem Instr.ofJson?_toJson {i : Instr} (hfits : i.fits) (hfinite : i.op.isFinite)
    (hsingle : ∀ x ∈ i.op.single?, Float32.ReadsBack x) : ofJson? i.toJson = some i := by
  simp only [fits, Bool.and_eq_true, all_eq_true, decide_eq_true_eq] at hfits
  have hop := Op.ofJson?_toJson hfits.2 hfinite hsingle
  simp [toJson, ofJson?, record?_object, ValueType.ofJson?_toJson hfits.1, hop]

theorem Instr.isFinite_of_ofJson? {i : Instr} (h : (ofJson? i.toJson).isSome) : i.op.isFinite := by
  apply Op.isFinite_of_ofJson?
  cases hop : Op.ofJson? i.op.toJson with
  | none => simp [toJson, ofJson?, record?_object, hop] at h
  | some op => rfl

/-! ## Routines and programs -/

namespace Routine

/-- The numbers that stand in a routine, those of its instructions apart. -/
def numbers (r : Routine) : List Nat :=
  r.argBlock.toList ++ r.results ++ r.stores.map (·.1) ++ r.stores.map (·.2)

/-- Whether the numbers of a routine fit their widths. -/
def fits (r : Routine) : Bool :=
  r.numbers.all (· < 2 ^ 32) && r.body.toList.all Instr.fits

/-- The operations of a routine. -/
def ops (r : Routine) : List Op :=
  r.body.toList.map (·.op)

theorem storeOfJson?_storeToJson {store : Nat × Nat} (hslot : store.1 < 2 ^ 32)
    (hid : store.2 < 2 ^ 32) : storeOfJson? (storeToJson store) = some store := by
  simp [storeToJson, storeOfJson?, nat32?_ofNat hslot, nat32?_ofNat hid]

theorem ofJson?_toJson {r : Routine} (hfits : r.fits) (hfinite : r.ops.all Op.isFinite)
    (hsingles : ∀ x ∈ r.ops.filterMap Op.single?, Float32.ReadsBack x) :
    ofJson? r.toJson = some r := by
  simp only [fits, numbers, Bool.and_eq_true, all_append, all_eq_true, mem_map,
    decide_eq_true_eq, Option.mem_toList, forall_exists_index, and_imp,
    forall_apply_eq_imp_iff₂] at hfits
  obtain ⟨⟨⟨⟨hblock, hresults⟩, hslots⟩, hids⟩, hbody⟩ := hfits
  simp only [ops, all_map, all_eq_true, Function.comp_apply] at hfinite
  have hblock' : option? nat32? (ofOption ofNat r.argBlock) = some r.argBlock :=
    option?_ofOption (fun n hn => nat32?_ofNat (hblock n hn)) fun _ => nofun
  have hbody' : list? Instr.ofJson? (ofList Instr.toJson r.body.toList) = some r.body.toList := by
    apply list?_ofList
    intro i hi
    refine Instr.ofJson?_toJson (hbody i hi) (hfinite i hi) fun x hx => hsingles x ?_
    exact mem_filterMap.mpr ⟨i.op, mem_map_of_mem hi, hx⟩
  have hresults' : list? nat32? (ofList ofNat r.results) = some r.results :=
    list?_ofList fun n hn => nat32?_ofNat (hresults n hn)
  have hstores' : list? storeOfJson? (ofList storeToJson r.stores) = some r.stores :=
    list?_ofList fun store hmem =>
      storeOfJson?_storeToJson (hslots store hmem) (hids store hmem)
  simp [toJson, ofJson?, record?_object, string?, enum?_ofNamed, Record.option?, hblock', hbody',
    hresults', hstores']

theorem isFinite_of_ofJson? {r : Routine} (h : (ofJson? r.toJson).isSome) :
    r.ops.all Op.isFinite := by
  have hbody : (list? Instr.ofJson? (ofList Instr.toJson r.body.toList)).isSome := by
    cases hbody : list? Instr.ofJson? (ofList Instr.toJson r.body.toList) with
    | none =>
      cases hblock : option? nat32? (ofOption ofNat r.argBlock) <;>
        simp [toJson, ofJson?, record?_object, string?, enum?_ofNamed, Record.option?, hblock,
          hbody] at h
    | some body => rfl
  simp only [ops, all_map, all_eq_true, Function.comp_apply]
  exact fun i hi => Instr.isFinite_of_ofJson? (isSome_of_list? hbody i hi)

end Routine

namespace ArgBlock

/-- Whether the sizes in the types of an argument block fit their widths. -/
def fits (b : ArgBlock) : Bool :=
  b.types.all ValueType.fits

theorem ofJson?_toJson {b : ArgBlock} (h : b.fits) : ofJson? b.toJson = some b := by
  have hnames : list? string? (ofList .string b.names) = some b.names :=
    list?_ofList fun _ _ => rfl
  have htypes : list? ValueType.ofJson? (ofList ValueType.toJson b.types) = some b.types :=
    list?_ofList fun t ht => ValueType.ofJson?_toJson (all_eq_true.mp h t ht)
  simp [toJson, ofJson?, record?_object, hnames, htypes]

end ArgBlock

namespace Program

variable {p : Program}

/-- Whether the numbers of a program fit their widths. -/
def fits (p : Program) : Bool :=
  p.routines.all Routine.fits && p.argBlocks.all ArgBlock.fits
    && [p.stateUsage.bits, p.numTextureSpaces, p.numTextureResults].all (· < 2 ^ 32)

/-- The operations of a program. -/
def ops (p : Program) : List Op :=
  p.routines.flatMap Routine.ops

/-- Whether all literals of a program are finite. -/
def isFinite (p : Program) : Bool :=
  p.ops.all Op.isFinite

/-- The literals of 32 bits of a program. -/
def singles (p : Program) : List Float32 :=
  p.ops.filterMap Op.single?

theorem list?_bytes (bytes : Bytes) :
    (list? nat8? (ofList (fun b : UInt8 => ofNat b.toNat) bytes)).map (List.map UInt8.ofNat)
      = some bytes := by
  have hread : list? nat8? (ofList ofNat (bytes.map UInt8.toNat))
      = some (bytes.map UInt8.toNat) := by
    apply list?_ofList
    intro n hn
    obtain ⟨b, -, rfl⟩ := mem_map.mp hn
    exact nat8?_ofNat b.toNat_lt
  have hwrite : ofList (fun b : UInt8 => ofNat b.toNat) bytes
      = ofList ofNat (bytes.map UInt8.toNat) := by
    rw [ofList, ofList, map_map]
    rfl
  rw [hwrite, hread, Option.map_some, map_map]
  simp [Function.comp_def]

/-- A program is read back. -/
theorem ofJson?_toJson (hfits : p.fits) (hfinite : p.isFinite)
    (hsingles : ∀ x ∈ p.singles, Float32.ReadsBack x) : ofJson? p.toJson = some p := by
  simp only [fits, Bool.and_eq_true, all_eq_true] at hfits
  obtain ⟨⟨hroutines, hblocks⟩, hnumbers⟩ := hfits
  simp only [forall_mem_cons, decide_eq_true_eq] at hnumbers
  have hroutines' : list? Routine.ofJson? (ofList Routine.toJson p.routines) = some p.routines := by
    apply list?_ofList
    intro r hr
    have hops : r.ops ⊆ p.ops := fun op hop => mem_flatMap.mpr ⟨r, hr, hop⟩
    refine Routine.ofJson?_toJson (hroutines r hr) ?_ fun x hx => hsingles x ?_
    · rw [all_eq_true]
      exact fun op hop => all_eq_true.mp hfinite op (hops hop)
    · obtain ⟨op, hop, hsingle⟩ := mem_filterMap.mp hx
      exact mem_filterMap.mpr ⟨op, hops hop, hsingle⟩
  have hstrings : list? string? (ofList .string p.strings) = some p.strings :=
    list?_ofList fun _ _ => rfl
  have hblocks' : list? ArgBlock.ofJson? (ofList ArgBlock.toJson p.argBlocks) = some p.argBlocks :=
    list?_ofList fun b hb => ArgBlock.ofJson?_toJson (hblocks b hb)
  obtain ⟨bytes, hbytes, hmap⟩ := Option.map_eq_some_iff.mp (list?_bytes p.roSegment)
  have husage := nat32?_ofNat hnumbers.1
  have hspaces := nat32?_ofNat hnumbers.2.1
  have hslots := nat32?_ofNat hnumbers.2.2.1
  simp [toJson, ofJson?, record?_object, hroutines', hbytes, hmap, hstrings, hblocks', husage,
    hspaces, hslots]

/-- A program that is read back has finite literals. -/
theorem isFinite_of_ofJson? (h : (ofJson? p.toJson).isSome) : p.isFinite := by
  have hroutines : (list? Routine.ofJson? (ofList Routine.toJson p.routines)).isSome := by
    cases hroutines : list? Routine.ofJson? (ofList Routine.toJson p.routines) with
    | none => simp [toJson, ofJson?, record?_object, hroutines] at h
    | some routines => rfl
  rw [isFinite, ops, all_flatMap, all_eq_true]
  exact fun r hr => Routine.isFinite_of_ofJson? (isSome_of_list? hroutines r hr)

/-! ## Containers -/

theorem containerHeader_eq : containerHeader = Bytes.ofText "NFIR" ++ [1, 0, 0, 0] :=
  rfl

/-- Four bytes that spell the version are the bytes of the version. -/
theorem eq_of_toNat_version {bytes : Bytes} (hlength : bytes.length = 4)
    (h : bytes.toNat = containerVersion) : bytes = [1, 0, 0, 0] := by
  obtain _ | ⟨a, _ | ⟨b, _ | ⟨c, _ | ⟨d, _ | ⟨e, rest⟩⟩⟩⟩⟩ := bytes <;> try cases hlength
  simp only [Bytes.toNat, containerVersion] at h
  have ha : a = 1 := UInt8.toNat_inj.mp (show a.toNat = 1 by omega)
  have hb : b = 0 := UInt8.toNat_inj.mp (show b.toNat = 0 by omega)
  have hc : c = 0 := UInt8.toNat_inj.mp (show c.toNat = 0 by omega)
  have hd : d = 0 := UInt8.toNat_inj.mp (show d.toNat = 0 by omega)
  rw [ha, hb, hc, hd]

/-- What follows the header decides whether a container is read. -/
theorem decode_header_append (text : Bytes) :
    decode (containerHeader ++ text) =
      match (parseBytes? text).bind ofJson? with
      | some p => .ok p
      | none => .error .corruptPayload := by
  have hheader : containerHeader.length = 8 := rfl
  have hmark : (containerHeader ++ text).take 4 = containerMark := by
    rw [take_append_of_le_length (by omega)]
    rfl
  have hversion : Bytes.toNat (((containerHeader ++ text).drop 4).take 4) = containerVersion := by
    rw [drop_append_of_le_length (by omega),
      take_append_of_le_length (by rw [length_drop]; omega)]
    rfl
  have hlength : ¬ (containerHeader ++ text).length < 8 := by
    rw [length_append]
    omega
  have hrest : (containerHeader ++ text).drop 8 = text := drop_left' hheader
  have hstart : ¬ ((containerHeader ++ text).length < 8 ∨
      (containerHeader ++ text).take 4 ≠ containerMark) := by
    rintro (hshort | hother)
    · exact hlength hshort
    · exact hother hmark
  unfold decode
  rw [if_neg hstart]
  dsimp only
  rewrite [if_neg (not_not_intro hversion), hrest]
  rfl

/-- A container is read exactly if it is a header in front of a program. -/
theorem decode_eq_ok_iff {bytes : Bytes} :
    decode bytes = .ok p ↔
      ∃ text, bytes = containerHeader ++ text ∧ (parseBytes? text).bind ofJson? = some p := by
  constructor
  · intro h
    unfold decode at h
    dsimp only at h
    split at h
    · cases h
    · rename_i hmark
      push Not at hmark
      split at h
      · cases h
      · rename_i hversion
        split at h
        · rename_i p' hread
          cases h
          refine ⟨bytes.drop 8, ?_, hread⟩
          have hword : (bytes.drop 4).take 4 = [1, 0, 0, 0] :=
            eq_of_toNat_version (by rw [length_take, length_drop]; omega)
              (not_not.mp hversion)
          calc bytes = bytes.take 4 ++ ((bytes.drop 4).take 4 ++ (bytes.drop 4).drop 4) := by
                rw [take_append_drop, take_append_drop]
            _ = containerHeader ++ bytes.drop 8 := by
                rw [hmark.2, hword, drop_drop, containerHeader_eq, append_assoc]
                rfl
        · cases h
  · rintro ⟨text, rfl, hread⟩
    rw [decode_header_append, hread]

/-- What is read off the container of a program is what is read off its JSON. -/
theorem decode_encode_eq (p : Program) (hdepth : p.toJson.depth ≤ maxDepth) :
    decode p.encode =
      match ofJson? p.toJson with
      | some p' => .ok p'
      | none => .error .corruptPayload := by
  rw [encode, decode_header_append, parseBytes?_ofText, payload, parse?_text hdepth,
    Option.bind_some]

end Program

/-- Every program with finite literals is read back from its container, and bytes are read as a
program only if they are the mark, version 1 in little-endian order and the program. -/
theorem container_codec_is_exact :
    (∀ p : Program, p.fits → p.isFinite → (∀ x ∈ p.singles, Float32.ReadsBack x) →
      p.toJson.depth ≤ Json.maxDepth → Program.decode p.encode = .ok p) ∧
    ∀ (bytes : Bytes) (p : Program), Program.decode bytes = .ok p ↔
      ∃ text, bytes = Bytes.ofText "NFIR" ++ [1, 0, 0, 0] ++ text ∧
        (Json.parseBytes? text).bind Program.ofJson? = some p := by
  refine ⟨fun p hfits hfinite hsingles hdepth => ?_, fun bytes p => Program.decode_eq_ok_iff⟩
  rw [Program.decode_encode_eq p hdepth, Program.ofJson?_toJson hfits hfinite hsingles]

/-- A program with a literal of either format, a string that needs escapes, and types inside a
type. -/
def sampleProgram : Program where
  routines := [{ Routine.empty "say \"hi\"" .lambda .core with
    argBlock := some 0
    body := #[⟨.float, .float (Float32.ofBits 0x3dcccccd)⟩,
      ⟨.double, .double (Float.ofBits 0x3fb999999999999a)⟩,
      ⟨.struct "pair" [("left", .array (.vector .float 3) 2), ("right", .string)], .argLoad 0 16⟩]
    results := [2]
    stores := [(0, 1)] }]
  roSegment := [0, 255]
  strings := ["", "tab\t and \u00e9"]
  argBlocks := [⟨["p"],
    [.struct "pair" [("left", .array (.vector .float 3) 2), ("right", .string)]]⟩]
  stateUsage := .none
  numTextureSpaces := 4
  numTextureResults := 16

theorem container_codec_is_exact_sample :
    Program.decode sampleProgram.encode = .ok sampleProgram := by
  apply container_codec_is_exact.1
  · decide
  · decide
  · decide +kernel
  · decide

end Shading
