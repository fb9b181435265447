import Shading.Proofs.Code.Key

/-!
# How digests react to a change

Every step of a lane takes in a byte and multiplies by an odd number, both of which can be undone.
So no change of one byte gets lost, in no lane, however many bytes follow.  The keys of a fragment
at two levels of optimisation differ for this reason alone: their texts differ in one digit.

Main definitions:

- `Digest.lanes` are the lanes of a digest, one for each of `Digest.seeds`.
- `Bytes.DifferOnce` says that byte strings of the same length differ in exactly one position.

Main results:

- Theorem `Digest.lane_ne_of_differOnce`: a lane takes notice of a change of one byte.
- Theorem `Fragment.differOnce_keyContent`: the texts of keys at two levels.
- Theorem `digests_react_to_every_byte` puts this together.
-/

namespace Shading

open List

/-! ## Lanes -/

namespace Digest

/-- The number by which the factor of the loop is undone. -/
def primeInverse : UInt64 := 0xce965057aff6957b

theorem mul_prime_inj {a b : UInt64} (h : a * prime = b * prime) : a = b := by
  have hundo : ∀ c : UInt64, c * prime * primeInverse = c := by
    intro c
    have hone : prime * primeInverse = 1 := by decide
    rw [UInt64.mul_assoc, hone, UInt64.mul_one]
  rw [← hundo a, h, hundo]

/-- A step tells hashes apart. -/
theorem step_inj {hash hash' : UInt64} {byte : UInt8} (h : step hash byte = step hash' byte) :
    hash = hash' :=
  (UInt64.xor_left_inj _).mp (mul_prime_inj h)

/-- A step tells bytes apart. -/
theorem step_byte_inj {hash : UInt64} {byte byte' : UInt8} (h : step hash byte = step hash byte') :
    byte = byte' :=
  UInt8.toUInt64_inj.mp ((UInt64.xor_right_inj _).mp (mul_prime_inj h))

/-- What two hashes take in together does not make them equal. -/
theorem foldl_step_inj {hash hash' : UInt64} {bytes : Bytes}
    (h : bytes.foldl step hash = bytes.foldl step hash') : hash = hash' := by
  induction bytes generalizing hash hash' with
  | nil => exact h
  | cons byte rest ih => exact step_inj (ih h)

theorem lane_seed_inj {seed seed' : UInt64} {bytes : Bytes}
    (h : lane seed bytes = lane seed' bytes) : seed = seed' :=
  (UInt64.xor_right_inj _).mp (foldl_step_inj h)

/-- The seeds of the lanes. -/
def seeds : List UInt64 :=
  [0x0000000000000000, 0x9e3779b97f4a7c15, 0xc2b2ae3d27d4eb4f, 0x165667b19e3779f9]

/-- The lanes of a digest. -/
def lanes (d : Digest) : List UInt64 :=
  [d.lane0, d.lane1, d.lane2, d.lane3]

theorem lanes_of (bytes : Bytes) : (of bytes).lanes = seeds.map (lane · bytes) :=
  rfl

end Digest

/-! ## One byte -/

/-- Byte strings of the same length that differ in exactly one position. -/
def Bytes.DifferOnce (xs ys : Bytes) : Prop :=
  xs.length = ys.length ∧ ∃ i : Nat, xs[i]? ≠ ys[i]? ∧ ∀ j, j ≠ i → xs[j]? = ys[j]?

namespace Bytes

theorem differOnce_append (front back : Bytes) {b b' : UInt8} (h : b ≠ b') :
    DifferOnce (front ++ b :: back) (front ++ b' :: back) := by
  refine ⟨by simp, front.length, by simpa using h, fun j hj => ?_⟩
  rw [getElem?_append, getElem?_append]
  split
  · rfl
  · rw [getElem?_cons, getElem?_cons, if_neg (by omega), if_neg (by omega)]

/-- The bytes around the one that differs are shared. -/
theorem DifferOnce.exists_append {xs ys : Bytes} (h : DifferOnce xs ys) :
    ∃ front back b b', b ≠ b' ∧ xs = front ++ b :: back ∧ ys = front ++ b' :: back := by
  obtain ⟨hlength, i, hi, hsame⟩ := h
  have hx : i < xs.length := by
    by_contra hx
    rw [getElem?_eq_none (by omega), getElem?_eq_none (by omega)] at hi
    exact hi rfl
  have hy : i < ys.length := hlength ▸ hx
  have hfront : xs.take i = ys.take i := by
    refine ext_getElem? fun j => ?_
    rw [getElem?_take, getElem?_take]
    split
    · exact hsame j (by omega)
    · rfl
  have hback : xs.drop (i + 1) = ys.drop (i + 1) := by
    refine ext_getElem? fun j => ?_
    rw [getElem?_drop, getElem?_drop]
    exact hsame _ (by omega)
  refine ⟨xs.take i, xs.drop (i + 1), xs[i], ys[i], ?_, ?_, ?_⟩
  · simpa [hx, hy] using hi
  · rw [getElem_cons_drop, take_append_drop]
  · rw [hfront, hback, getElem_cons_drop, take_append_drop]

end Bytes

/-- A lane takes notice of a change of one byte. -/
theorem Digest.lane_ne_of_differOnce (seed : UInt64) {xs ys : Bytes} (h : Bytes.DifferOnce xs ys) :
    lane seed xs ≠ lane seed ys := by
  obtain ⟨front, back, b, b', hne, rfl, rfl⟩ := h.exists_append
  intro heq
  rw [lane, lane, foldl_append, foldl_append, foldl_cons, foldl_cons] at heq
  exact hne (step_byte_inj (foldl_step_inj heq))

/-! ## Levels in keys -/

/-- The members of an object. -/
def Json.members : Json → List (String × Json)
  | .object members => members
  | _ => []

theorem Json.charsMembers_append (members more : List (String × Json)) :
    charsMembers (members ++ more) = charsMembers members ++ charsMembers more := by
  induction members with
  | nil => rfl
  | cons m rest ih => simp [charsMembers, ih]

/-- The text of a member of an object stands between texts that do not depend on it. -/
theorem Json.chars_object_member (first : String × Json) (before : List (String × Json))
    (key : String) (value : Json) (after : List (String × Json)) :
    (Json.object (first :: (before ++ (key, value) :: after))).chars =
      ('\x7b' :: (stringChars first.1 ++ ':' :: first.2.chars ++ charsMembers before
        ++ ',' :: (stringChars key ++ [':']))) ++ value.chars
        ++ (charsMembers after ++ ['\x7d']) := by
  simp [chars, charsMembers_append, charsMembers]

theorem Json.utf8_ofNat {n : Nat} (h : n < 10) :
    (Json.ofNat n).chars.flatMap String.utf8EncodeChar = [UInt8.ofNat (48 + n)] := by
  have hdigit : ∀ d : Fin 10,
      String.utf8EncodeChar (Digits.char d) = [UInt8.ofNat (48 + d.val)] := by decide
  have hchars : (Json.ofNat n).chars = [Digits.char ⟨n, h⟩] := by
    simp [ofNat, chars, Numeral.chars, Numeral.ofInt, Digits.ofNat, Digits.chars, h, Fin.ofNat,
      Nat.mod_eq_of_lt]
  rw [hchars, flatMap_singleton, hdigit]

/-- The texts of the keys at two levels of one digit differ in this digit. -/
theorem Fragment.differOnce_keyContent (f : Fragment) (m : ResourceMap) (target : TargetKind)
    (o : Options) {level level' : Nat} (hlevel : level < 10) (hlevel' : level' < 10)
    (hne : level ≠ level') :
    Bytes.DifferOnce (Bytes.ofText (f.keyContent m target { o with optLevel := level }).text)
      (Bytes.ofText (f.keyContent m target { o with optLevel := level' }).text) := by
  -- ten members stand between the first one and the level, and five behind it
  have hmember : ∀ n, f.keyContent m target { o with optLevel := n } = .object
      (("generator", .string generatorTag) :: ((((f.keyContent m target o).members.drop 1).take 10)
        ++ ("opt_level", .ofNat n) :: (f.keyContent m target o).members.drop 12)) := fun _ => rfl
  rw [Bytes.ofText_text, Bytes.ofText_text, hmember level, hmember level', Json.chars_object_member,
    Json.chars_object_member]
  simp only [flatMap_append, Json.utf8_ofNat hlevel, Json.utf8_ofNat hlevel',
    append_assoc, singleton_append]
  refine Bytes.differOnce_append _ _ fun h => hne ?_
  have hnat := congrArg UInt8.toNat h
  simp only [UInt8.toNat_ofNat'] at hnat
  omega

/-- A change of one byte changes every lane of a digest, and the lanes of a digest are never equal
among themselves.  So two levels of optimisation always have two keys. -/
theorem digests_react_to_every_byte :
    (∀ xs ys : Bytes, Bytes.DifferOnce xs ys →
      Forall₂ (· ≠ ·) (Digest.of xs).lanes (Digest.of ys).lanes) ∧
    (∀ bytes : Bytes, (Digest.of bytes).lanes.Nodup) ∧
    ∀ (f : Fragment) (m : ResourceMap) (target : TargetKind) (o o' : Options),
      o' = { o with optLevel := o'.optLevel } → o.optLevel ≤ 2 → o'.optLevel ≤ 2 →
      o.optLevel ≠ o'.optLevel → f.cacheKey m target o ≠ f.cacheKey m target o' := by
  have hlane := @Digest.lane_ne_of_differOnce
  refine ⟨fun xs ys h => ?_, fun bytes => ?_, fun f m target o o' ho hlevel hlevel' hne => ?_⟩
  · exact .cons (hlane _ h) (.cons (hlane _ h) (.cons (hlane _ h) (.cons (hlane _ h) .nil)))
  · rw [Digest.lanes_of]
    exact List.Nodup.map (fun _ _ h => Digest.lane_seed_inj h) (by decide)
  · have htexts := f.differOnce_keyContent m target o (by omega) (by omega) hne
    rw [← ho] at htexts
    intro h
    unfold Fragment.cacheKey Digest.ofText Digest.of at h
    exact hlane _ htexts (Digest.mk.inj h).1

/-- The last letter of three, and a fragment at the lowest and the highest level. -/
theorem digests_react_to_every_byte_letters :
    Bytes.DifferOnce [97, 98, 99] [97, 98, 100] ∧
      Forall₂ (· ≠ ·) (Digest.of [97, 98, 99]).lanes (Digest.of [97, 98, 100]).lanes ∧
      (glow 1).cacheKey .empty .gpu { Options.default with optLevel := 0 } ≠
        (glow 1).cacheKey .empty .gpu .default := by
  have hletters : Bytes.DifferOnce [97, 98, 99] [97, 98, 100] :=
    Bytes.differOnce_append [97, 98] [] (by decide)
  refine ⟨hletters, digests_react_to_every_byte.1 _ _ hletters, ?_⟩
  exact digests_react_to_every_byte.2.2 _ _ _ { Options.default with optLevel := 0 } .default rfl
    (by decide) (by decide) (by decide)

end Shading
