import Mathlib.Data.List.Basic
import Shading.Json.Parser
import Shading.Proofs.Json.Faithful

/-!
# JSON that is read back

What is written as JSON is read back as it was: the text of a value by the reader of texts,
and scalars, lists, records and tagged choices by the readers of typed values.  Numbers have to
fit the width at which they are read, and values must not be nested too deep.

Main definitions:

- `Float32.ReadsBack` says that a number of 32 bits is read back, which goes by way of 64 bits.

Main results:

- `Bytes.symbols_ofText`: a text in UTF-8 has the characters of the text.
- `Json.parse?_text` and `Json.parseBytes?_text`: the text of a value is read as the value.
- `Json.float?_ofFloat`: a finite number of 64 bits is read back.
- `Json.list?_ofList`, `Json.record?_object` and `Json.tagged?_object`: so are lists, records
  and tagged choices.
-/

namespace Shading

open List

/-! ## Texts in UTF-8 -/

namespace Bytes

/-- From the end of some bytes on, the characters that follow are read one by one. -/
theorem symbolsFrom_utf8Encode (cs : List Char) (before : ByteArray) {count : Nat}
    (hcount : cs.length ≤ count) :
    symbolsFrom (before ++ cs.utf8Encode) count before.size = cs.map some := by
  induction cs generalizing before count with
  | nil =>
    cases count with
    | zero => rfl
    | succ count => simp [symbolsFrom]
  | cons c cs ih =>
    cases count with
    | zero => simp at hcount
    | succ count =>
      have hdecode : (before ++ (c :: cs).utf8Encode).utf8DecodeChar? before.size = some c := by
        rw [ByteArray.utf8DecodeChar?_eq_utf8DecodeChar?_extract,
          ByteArray.extract_append_eq_right rfl ByteArray.size_append]
        exact utf8DecodeChar?_utf8Encode_cons
      have hsize : [c].utf8Encode.size = c.utf8Size := by
        simp [utf8Encode_singleton]
      have hinside : before.size < (before ++ (c :: cs).utf8Encode).size := by
        have hpos := c.utf8Size_pos
        rw [utf8Encode_cons, ByteArray.size_append, ByteArray.size_append, hsize]
        omega
      have hrest := ih (before ++ [c].utf8Encode) (Nat.le_of_succ_le_succ hcount)
      rw [ByteArray.size_append, hsize, ByteArray.append_assoc, ← utf8Encode_cons]
        at hrest
      rw [symbolsFrom, if_pos hinside, hdecode]
      dsimp only
      rw [hrest, map_cons]

/-- Every character takes at least one byte. -/
theorem length_le_size_utf8Encode (cs : List Char) : cs.length ≤ cs.utf8Encode.size := by
  induction cs with
  | nil => simp
  | cons c cs ih =>
    have hpos := c.utf8Size_pos
    rw [utf8Encode_cons, ByteArray.size_append, utf8Encode_singleton,
      length_cons, size_toByteArray, String.length_utf8EncodeChar]
    omega

/-- A text in UTF-8 has the characters of the text, and no stray bytes. -/
theorem symbols_ofText (s : String) : (ofText s).symbols = s.toList.map some := by
  have hbytes : s.toUTF8 = s.toList.utf8Encode := by
    rw [String.utf8Encode_toList]
    rfl
  have hread := symbolsFrom_utf8Encode s.toList ByteArray.empty
    (length_le_size_utf8Encode s.toList)
  rw [ByteArray.empty_append] at hread
  unfold symbols ofText
  rw [hbytes, Array.toArray_toList]
  exact hread

end Bytes

namespace Json

/-! ## Depth -/

mutual

/-- A value that is not nested too deep is kept as it is. -/
theorem within_of_depth_le (j : Json) {levels : Nat} (h : j.depth ≤ levels) :
    j.within levels = j := by
  cases j with
  | array items =>
    rw [depth] at h
    obtain ⟨levels, rfl⟩ : ∃ k, levels = k + 1 := ⟨levels - 1, by omega⟩
    rw [within, itemsWithin_of_depth_le items (Nat.le_of_succ_le_succ h)]
  | object members =>
    rw [depth] at h
    obtain ⟨levels, rfl⟩ : ∃ k, levels = k + 1 := ⟨levels - 1, by omega⟩
    rw [within, membersWithin_of_depth_le members (Nat.le_of_succ_le_succ h)]
  | _ => all_goals cases levels <;> rfl

theorem itemsWithin_of_depth_le (items : List Json) {levels : Nat}
    (h : depthItems items ≤ levels) : itemsWithin levels items = items := by
  cases items with
  | nil => rfl
  | cons item rest =>
    rw [depthItems, Nat.max_le] at h
    rw [itemsWithin, within_of_depth_le item h.1, itemsWithin_of_depth_le rest h.2]

theorem membersWithin_of_depth_le (members : List (String × Json)) {levels : Nat}
    (h : depthMembers members ≤ levels) : membersWithin levels members = members := by
  cases members with
  | nil => rfl
  | cons m rest =>
    obtain ⟨key, value⟩ := m
    rw [depthMembers, Nat.max_le] at h
    rw [membersWithin, within_of_depth_le value h.1, membersWithin_of_depth_le rest h.2]

end

/-- The text of a value is read as the value, if it is not nested too deep. -/
theorem parse?_text {j : Json} (h : j.depth ≤ maxDepth) : parse? j.text = some j := by
  rw [parse?, scan?_text, Option.map_some, within_of_depth_le j h]

/-- Reading a text in UTF-8 is reading the text. -/
theorem parseBytes?_ofText (s : String) : parseBytes? (Bytes.ofText s) = parse? s := by
  rw [parseBytes?, Bytes.symbols_ofText]
  rfl

/-! ## Scalars -/

theorem int?_ofInt (n : Int) : (Numeral.ofInt n).int? = some n := by
  by_cases h : n < 0
  · have habs : n.natAbs ≠ 0 := by omega
    simp only [Numeral.ofInt, Numeral.int?, h, decide_true, isEmpty_nil, Option.isNone_none,
      Bool.true_and, beq_eq_false_iff_ne.mpr habs, Bool.not_false, if_true, Option.some.injEq]
    omega
  · simp only [Numeral.ofInt, Numeral.int?, h, decide_false, isEmpty_nil,
      Option.isNone_none, Bool.true_and, Bool.false_and, Bool.not_false, if_true,
      Bool.false_eq_true, if_false, Option.some.injEq]
    omega

theorem nat?_ofNat {bound n : Nat} (h : n < bound) : nat? bound (ofNat n) = some n := by
  rw [ofNat, nat?, int?_ofInt]
  have hbound : 0 ≤ (n : Int) ∧ (n : Int) < bound := by omega
  simp only [hbound, and_self, if_true, Int.toNat_natCast]

theorem nat8?_ofNat {n : Nat} (h : n < 2 ^ 8) : nat8? (ofNat n) = some n := by
  rw [nat8?, Nat.pow_eq]
  exact nat?_ofNat h

theorem nat32?_ofNat {n : Nat} (h : n < 2 ^ 32) : nat32? (ofNat n) = some n := by
  rw [nat32?, Nat.pow_eq]
  exact nat?_ofNat h

theorem nat64?_ofNat {n : Nat} (h : n < 2 ^ 64) : nat64? (ofNat n) = some n := by
  rw [nat64?, Nat.pow_eq]
  exact nat?_ofNat h

theorem int32?_ofInt32 (n : Int32) : int32? (ofInt32 n) = some n := by
  rw [ofInt32, ofInt, int32?, int?_ofInt]
  have hlow := n.le_toInt
  have hhigh := n.toInt_lt
  have hrange : -2147483648 ≤ n.toInt ∧ n.toInt ≤ 2147483647 := by omega
  simp only [hrange, and_self, if_true, Int32.ofInt_toInt]

theorem enumIn?_ofNamed {α : Type} [Named α] [LawfulNamed α] (reading : Reading) (a : α) :
    enumIn? reading (ofNamed a) = some a := by
  simp [enumIn?, named?, ofNamed, choice?, isAbsent, LawfulNamed.ofName?_name]

theorem enum?_ofNamed {α : Type} [Named α] [LawfulNamed α] (a : α) : enum? (ofNamed a) = some a :=
  enumIn?_ofNamed .direct a

/-- A finite number of 64 bits is read back. -/
theorem float?_ofFloat {x : Float} (h : Float.finite x) : float? (ofFloat x) = some x := by
  obtain ⟨⟨negative, m⟩, hparts⟩ := Option.isSome_iff_exists.mp h
  obtain ⟨hm, -⟩ := Float.toBits_of_parts? hparts
  have hbits := FloatStyle.magnitudeBits_numeral BinaryFormat.double_readable hm.canonical hm.lt
    floatStyle negative
  have hread := Float.parts?_ofMagnitudeBits negative hm.lt
  rw [BinaryFormat.decode_encode hm.canonical] at hread
  simp only [ofFloat, hparts, float?, Numeral.float?, hbits, hm.lt, if_true,
    FloatStyle.negative_numeral, Option.some.injEq]
  exact Float.eq_of_parts? hread hparts

end Json

/-- A number of 32 bits is read back.  It is written with the digits that single it out among
numbers of 32 bits, and read by way of 64 bits. -/
def Float32.ReadsBack (x : Float32) : Prop :=
  Json.float32? (Json.ofFloat32 x) = some x

instance : DecidablePred Float32.ReadsBack :=
  fun x => inferInstanceAs (Decidable (Json.float32? (Json.ofFloat32 x) = some x))

-- The shortest digits `7.038531e-26` round to 64 bits half-way between two numbers of 32 bits, and
-- the tie goes to the other one.
example : Json.float32? (Json.ofFloat32 (Float32.ofBits 0x15ae43fd))
    = some (Float32.ofBits 0x15ae43fe) := by
  decide +kernel

/-! ## Readable numbers -/

theorem roundDiv_le (num den : Nat) : BinaryFormat.roundDiv num den ≤ num / den + 1 := by
  unfold BinaryFormat.roundDiv
  dsimp only
  split <;> omega

/-- A number below `2 ^ limit` stays finite when it is rounded, if the format has room for it. -/
theorem BinaryFormat.nearest_lt_infinity {format : BinaryFormat} {n limit : Nat}
    (hprecision : 0 < format.precision) (hn : n < 2 ^ limit)
    (hroom : (limit + format.scale + 2) * format.hidden < format.infinity) :
    format.nearest n 1 < format.infinity := by
  unfold nearest
  simp only [Nat.div_one, Nat.one_mul, Nat.pow_eq]
  generalize hscaled : n * 2 ^ format.scale = scaled
  generalize hshift : scaled.log2 + 1 - format.precision = shift
  have hlimit : scaled < 2 ^ (limit + format.scale) := by
    rw [← hscaled, Nat.pow_add]
    exact Nat.mul_lt_mul_of_pos_right hn (Nat.two_pow_pos _)
  have hle : shift ≤ limit + format.scale := by
    by_cases hzero : scaled = 0
    · rw [hzero, Nat.log2_zero] at hshift
      omega
    · have hlog := (Nat.log2_lt hzero).mpr hlimit
      omega
  -- The rounded quotient has at most the bits of the format, up to a carry.
  have hquotient : scaled / 2 ^ shift < 2 * format.hidden := by
    rw [two_mul_hidden hprecision, Nat.div_lt_iff_lt_mul (Nat.two_pow_pos _), ← Nat.pow_add]
    refine Nat.lt_of_lt_of_le Nat.lt_log2_self (Nat.pow_le_pow_right (by decide) ?_)
    omega
  have hround := roundDiv_le scaled (2 ^ shift)
  have hencode : format.encode ⟨roundDiv scaled (2 ^ shift), shift⟩
      ≤ (limit + format.scale + 2) * format.hidden := by
    have hmul := Nat.mul_le_mul_right format.hidden hle
    unfold encode
    dsimp only
    rw [Nat.add_mul]
    omega
  omega

/-- A whole number of 64 bits is readable. -/
theorem Numeral.float?_isSome_of_int? {n : Numeral} {i : Int} (h : n.int? = some i)
    (hi : i.natAbs < 2 ^ 64) : n.float?.isSome := by
  obtain ⟨negative, whole, fraction, exponent⟩ := n
  unfold int? at h
  dsimp only at h
  split at h
  · rename_i hwhole
    simp only [Bool.and_eq_true, List.isEmpty_iff, Option.isNone_iff_eq_none] at hwhole
    obtain ⟨⟨rfl, rfl⟩, -⟩ := hwhole
    have hlt : whole < 2 ^ 64 := by
      cases h
      split at hi <;> omega
    have hbits : magnitudeBits .double ⟨negative, whole, [], none⟩
        < BinaryFormat.double.infinity := by
      have hnearest : BinaryFormat.double.nearest whole 1 < BinaryFormat.double.infinity :=
        BinaryFormat.nearest_lt_infinity (by decide) hlt (by decide)
      have hdigits : whole ≠ 0 → digitCount whole ≤ 20 := by
        intro hzero
        have hpow := pow_digitCount_le (Nat.pos_of_ne_zero hzero)
        have hlt' : 10 ^ (digitCount whole - 1) < 10 ^ 20 := by omega
        have hcount := (Nat.pow_lt_pow_iff_right (by decide)).mp hlt'
        omega
      simp only [magnitudeBits, significand, power, List.length_nil, Digits.toNat_nil,
        Nat.pow_eq, Nat.pow_zero, Nat.mul_one, Nat.add_zero, Option.getD_none, Nat.cast_zero,
        sub_zero, zero_add, Int.natAbs_zero, powerLimit]
      split
      · decide
      · rename_i hnonzero
        have hcount := hdigits fun hzero => hnonzero (.inl hzero)
        rw [if_neg (by omega), if_neg (by omega)]
        exact hnearest
    simp only [float?, hbits, if_true, Option.isSome_some]
  · cases h

namespace Json

/-- A number that is read in 32 bits is readable. -/
theorem isReadable_of_float32? {j : Json} (h : j.float32?.isSome) : j.isReadable := by
  cases j with
  | number n =>
    rw [isReadable]
    unfold float32? Numeral.float32? at h
    dsimp only at h
    cases hint : n.int? with
    | none =>
      rw [hint, Option.isSome_map] at h
      exact h
    | some i =>
      rw [hint] at h
      dsimp only at h
      split at h
      · exact Numeral.float?_isSome_of_int? hint (by omega)
      · rw [Option.isSome_map] at h
        exact h
  | _ => all_goals cases h

theorem isReadable_of_float? {j : Json} (h : j.float?.isSome) : j.isReadable := by
  cases j with
  | number n => rwa [isReadable]
  | _ => all_goals cases h

theorem isReadable_ofInt {n : Int} (h : n.natAbs < 2 ^ 64) : (ofInt n).isReadable := by
  rw [ofInt, isReadable]
  exact Numeral.float?_isSome_of_int? (int?_ofInt n) h

theorem isReadable_ofNat {n : Nat} (h : n < 2 ^ 64) : (ofNat n).isReadable :=
  isReadable_ofInt h

theorem isReadable_ofInt32 (n : Int32) : (ofInt32 n).isReadable := by
  have hlow := n.le_toInt
  have hhigh := n.toInt_lt
  exact isReadable_ofInt (by omega)

theorem areReadable_iff {items : List Json} :
    areReadable items ↔ ∀ item ∈ items, item.isReadable := by
  induction items with
  | nil => simp [areReadable]
  | cons item rest ih => simp [areReadable, ih]

theorem isReadable_ofList {α : Type} {write : α → Json} {l : List α}
    (h : ∀ a ∈ l, (write a).isReadable) : (ofList write l).isReadable := by
  rw [ofList, isReadable, areReadable_iff]
  intro item hitem
  obtain ⟨a, ha, rfl⟩ := mem_map.mp hitem
  exact h a ha

/-! ## Lists and options -/

section Containers

variable {α : Type} {write : α → Json} {read : Json → Option α}

theorem list?_ofList {l : List α} (h : ∀ a ∈ l, read (write a) = some a) :
    list? read (ofList write l) = some l := by
  change (l.map write).mapM read = some l
  induction l with
  | nil => rfl
  | cons a l ih =>
    rw [map_cons, mapM_cons, h a mem_cons_self,
      ih fun b hb => h b (mem_cons_of_mem a hb)]
    rfl

/-- Every item of a list that is read is read. -/
theorem isSome_of_list? {l : List α} (h : (list? read (ofList write l)).isSome) :
    ∀ a ∈ l, (read (write a)).isSome := by
  change ((l.map write).mapM read).isSome at h
  induction l with
  | nil => nofun
  | cons a l ih =>
    rw [map_cons, mapM_cons] at h
    cases hread : read (write a) with
    | none => simp [hread] at h
    | some b =>
      cases hrest : (l.map write).mapM read with
      | none => simp [hread, hrest] at h
      | some bs =>
        intro c hc
        rcases mem_cons.mp hc with rfl | hc
        · rw [hread]
          rfl
        · exact ih (by rw [hrest]; rfl) c hc

theorem option?_ofOption {o : Option α} (h : ∀ a ∈ o, read (write a) = some a)
    (hnull : ∀ a, write a ≠ .null) : option? read (ofOption write o) = some o := by
  cases o with
  | none => rfl
  | some a =>
    have hread := h a rfl
    unfold ofOption option?
    dsimp only
    split
    · rename_i heq
      exact absurd heq (hnull a)
    · rw [hread, Option.map_some]

end Containers

end Json

/-! ## Records and choices -/

namespace Record

variable {α : Type} {key other : String} {j : Json} {rest : List (String × Json)} {keyed : Bool}
  {read : Json → Option α}

@[simp] theorem find?_head : find? ⟨(key, j) :: rest, keyed⟩ key = some j := by
  simp [find?]

@[simp] theorem find?_tail (h : key ≠ other) :
    find? ⟨(other, j) :: rest, keyed⟩ key = find? ⟨rest, keyed⟩ key := by
  simp [find?, lookup_cons, beq_false_of_ne h]

/-- The member of a key is read where it stands. -/
theorem get?_of_find? {r : Record} (h : r.find? key = some j) : r.get? key read = read j := by
  rw [get?, h, Option.bind_some]

theorem option?_of_find? {r : Record} (h : r.find? key = some j) :
    r.option? key read = Json.option? read j := by
  rw [option?, h]

@[simp] theorem get?_head : get? ⟨(key, j) :: rest, keyed⟩ key read = read j :=
  get?_of_find? find?_head

@[simp] theorem get?_tail (h : key ≠ other) :
    get? ⟨(other, j) :: rest, keyed⟩ key read = get? ⟨rest, keyed⟩ key read := by
  rw [get?, get?, find?_tail h]

end Record

namespace Json

/-- An object with the keys of a record is read as the record. -/
theorem record?_object {keys : List String} {members : List (String × Json)}
    (hkeys : members.map (·.1) = keys) (hnodup : keys.Nodup) :
    record? keys (.object members) = some ⟨members, true⟩ := by
  have hknown : members.filter (fun m => keys.contains m.1) = members := by
    rw [filter_eq_self]
    intro m hm
    rw [contains_iff_mem, ← hkeys]
    exact mem_map_of_mem hm
  rw [record?]
  simp only [hknown, hkeys, hnodup, if_true]

/-- An object whose tag stands in front is read as the tag and the rest, which is kept. -/
theorem tagged?_object {tag : String} {name : Json} {payload : List (String × Json)}
    (hfresh : tag ∉ payload.map (·.1)) (hreadable : haveReadable payload) :
    tagged? tag (.object ((tag, name) :: payload)) = some (name, .object payload) := by
  have hother : ∀ m ∈ payload, m.1 ≠ tag := by
    intro m hm heq
    exact hfresh (heq ▸ mem_map_of_mem hm)
  have htag : payload.filter (fun m => m.1 == tag) = [] := by
    rw [filter_eq_nil_iff]
    intro m hm
    simpa using hother m hm
  have hrest : payload.filter (fun m => m.1 != tag) = payload := by
    rw [filter_eq_self]
    intro m hm
    simpa using hother m hm
  simp [tagged?, htag, hrest, keep?, isReadable, hreadable]

end Json

end Shading
