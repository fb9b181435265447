import Shading.Json.Parser
import Shading.Proofs.Number.Digits

/-!
# JSON texts read back

The compact text of a value is read as the value again, whatever the value holds: numerals
keep their spelling, and a part that stands for nothing stays unreadable.

Main definitions:

- `Json.Closes` says that what follows a value is the end of the text, a comma or a
  closing bracket.

Main results:

- `Json.parseString_stringChars`: the text of a string is read as the string.
- `Json.parseNumeral_chars`: the text of a numeral is read as the numeral.
- `Json.scan?_text`: the text of a value is read as the value.
- `Json.text_inj`: a value is determined by its text.
-/

namespace Shading

open List

variable {c : Char} {rest : List Symbol}

namespace Json

/-- Induction over values, with a hypothesis for every item and every member. -/
theorem induction {P : Json → Prop} (null : P .null) (bool : ∀ b, P (.bool b))
    (number : ∀ n, P (.number n)) (string : ∀ s, P (.string s))
    (array : ∀ items, (∀ item ∈ items, P item) → P (.array items))
    (object : ∀ members, (∀ m ∈ members, P m.2) → P (.object members))
    (unreadable : P .unreadable) : ∀ j, P j
  | .null => null
  | .bool b => bool b
  | .number n => number n
  | .string s => string s
  | .array items =>
    array items fun item hitem =>
      have := sizeOf_lt_of_mem hitem
      induction null bool number string array object unreadable item
  | .object members =>
    object members fun m hm =>
      have := sizeOf_lt_of_mem hm
      have : sizeOf m = 1 + sizeOf m.1 + sizeOf m.2 := rfl
      induction null bool number string array object unreadable m.2
  | .unreadable => unreadable
termination_by j => sizeOf j

/-! ## Strings -/

theorem hexValue?_hexChar {n : Nat} (h : n < 16) : hexValue? (hexChar n) = some n := by
  revert h
  revert n
  decide

/-- The piece that a character is written as. -/
def pieceOf (c : Char) : Piece :=
  if c.toNat < 0x20 ∧ c.toNat ≠ 0x08 ∧ c.toNat ≠ 0x09 ∧ c.toNat ≠ 0x0a ∧ c.toNat ≠ 0x0c ∧
    c.toNat ≠ 0x0d then .unit c.toNat
  else .char c

theorem char_eq_of_toNat {n : Nat} (h : c.toNat = n) : c = Char.ofNat n := by
  rw [← h, Char.ofNat_toNat]

/-- An escape of one letter is read as its character. -/
theorem parsePieces_letter {e : Char} (h : unescape? e = some c) (rest : List Symbol) :
    parsePieces (some '\\' :: some e :: rest)
      = (parsePieces rest).map fun p => (.char c :: p.1, p.2) := by
  have hunit : e ≠ 'u' := by
    rintro rfl
    cases h
  rw [parsePieces, h]
  · intro _ _ _ _ _ _ he
    exact hunit he

theorem parsePieces_escapeChar (c : Char) (rest : List Symbol) :
    parsePieces ((escapeChar c).map some ++ rest)
      = (parsePieces rest).map fun p => (pieceOf c :: p.1, p.2) := by
  have hletter : ∀ {c e : Char}, unescape? e = some c → pieceOf c = .char c →
      parsePieces (['\\', e].map some ++ rest)
        = (parsePieces rest).map fun p => (pieceOf c :: p.1, p.2) := by
    intro c e h hpiece
    rw [hpiece]
    exact parsePieces_letter h rest
  unfold escapeChar
  split
  · rename_i h
    subst h
    exact hletter rfl rfl
  split
  · rename_i h
    subst h
    exact hletter rfl rfl
  split
  · rename_i h
    rw [char_eq_of_toNat h]
    exact hletter rfl rfl
  split
  · rename_i h
    rw [char_eq_of_toNat h]
    exact hletter rfl rfl
  split
  · rename_i h
    rw [char_eq_of_toNat h]
    exact hletter rfl rfl
  split
  · rename_i h
    rw [char_eq_of_toNat h]
    exact hletter rfl rfl
  split
  · rename_i h
    rw [char_eq_of_toNat h]
    exact hletter rfl rfl
  split
  · rename_i hcontrol
    have hhigh := hexValue?_hexChar (show c.toNat / 16 < 16 by omega)
    have hlow := hexValue?_hexChar (show c.toNat % 16 < 16 by omega)
    have hzero : hexValue? '0' = some 0 := by decide
    have hunit : hexUnit? '0' '0' (hexChar (c.toNat / 16)) (hexChar (c.toNat % 16))
        = some c.toNat := by
      unfold hexUnit?
      simp only [hhigh, hlow, hzero, Option.bind_eq_bind, Option.bind_some, Option.pure_def,
        Option.some.injEq]
      omega
    have hpiece : pieceOf c = .unit c.toNat := if_pos (by omega)
    simp only [map_cons, map_nil, cons_append, nil_append]
    rw [parsePieces, hunit, hpiece]
  · rename_i hquote hbackslash _ _ _ _ _ hcontrol
    have hpiece : pieceOf c = .char c := if_neg (by omega)
    simp only [map_cons, map_nil, cons_append, nil_append]
    rw [parsePieces.eq_def, hpiece]
    split <;> simp_all

theorem parsePieces_escaped (cs : List Char) (rest : List Symbol) :
    parsePieces ((cs.flatMap escapeChar).map some ++ some '"' :: rest)
      = some (cs.map pieceOf, rest) := by
  induction cs with
  | nil => rfl
  | cons c cs ih =>
    rw [List.flatMap_cons, List.map_append, List.append_assoc, parsePieces_escapeChar, ih]
    rfl

/-- Pieces of whole characters spell them. -/
theorem spell?_pieces (cs : List Char) : spell? none (cs.map pieceOf) = some cs := by
  induction cs with
  | nil => rfl
  | cons c cs ih =>
    rw [List.map_cons]
    by_cases hcontrol : c.toNat < 0x20 ∧ c.toNat ≠ 0x08 ∧ c.toNat ≠ 0x09 ∧ c.toNat ≠ 0x0a ∧
        c.toNat ≠ 0x0c ∧ c.toNat ≠ 0x0d
    · have hpiece : pieceOf c = .unit c.toNat := if_pos hcontrol
      have hfirst : isFirstHalf c.toNat = false := by
        unfold isFirstHalf
        simp only [Bool.and_eq_false_iff, decide_eq_false_iff_not]
        omega
      have hsecond : isSecondHalf c.toNat = false := by
        unfold isSecondHalf
        simp only [Bool.and_eq_false_iff, decide_eq_false_iff_not]
        omega
      rw [hpiece, spell?, hfirst, hsecond, ih, Char.ofNat_toNat]
      rfl
    · have hpiece : pieceOf c = .char c := if_neg hcontrol
      rw [hpiece, spell?, ih]
      rfl

/-- The text of a string behind its opening quote is read as the string. -/
theorem parseString_stringChars (s : String) (rest : List Symbol) :
    parseString ((s.toList.flatMap escapeChar).map some ++ some '"' :: rest)
      = some (some s, rest) := by
  unfold parseString
  rw [parsePieces_escaped, Option.map_some]
  dsimp only
  rw [spell?_pieces, Option.map_some, String.ofList_toList]

/-! ## Numbers -/

theorem ofChar?_char (d : Fin 10) : Digits.ofChar? (Digits.char d) = some d := by
  revert d
  decide

/-- What follows does not go on with digits. -/
def NoDigit (rest : List Symbol) : Prop :=
  ∀ c ∈ rest.head?, ∀ c', c = some c' → Digits.ofChar? c' = none

theorem spanDigits_chars (ds : Digits) (h : NoDigit rest) :
    spanDigits (ds.chars.map some ++ rest) = (ds, rest) := by
  induction ds with
  | nil =>
    cases rest with
    | nil => rfl
    | cons c rest =>
      cases c with
      | none => rfl
      | some c =>
        have hnone := h (some c) rfl c rfl
        simp only [Digits.chars, map_nil, nil_append, spanDigits, hnone]
  | cons d ds ih =>
    unfold Digits.chars at ih ⊢
    simp only [map_cons, cons_append, spanDigits, ofChar?_char, ih]

theorem noDigit_cons (h : Digits.ofChar? c = none) : NoDigit (some c :: rest) := by
  intro c' hc' d hd
  cases hc'
  cases hd
  exact h

/-- A whole part is written without leading zeros. -/
theorem parseWhole_chars (n : Nat) (h : NoDigit rest) :
    parseWhole ((Digits.ofNat n).chars.map some ++ rest) = some (n, rest) := by
  unfold parseWhole
  rw [spanDigits_chars _ h]
  cases hdigits : Digits.ofNat n with
  | nil => exact absurd hdigits (Digits.ofNat_ne_nil n)
  | cons d ds =>
    have hspell := Digits.toNat_ofNat n
    rw [hdigits] at hspell
    have hlead : ¬ (d.val = 0 ∧ ds ≠ []) := by
      rintro ⟨hzero, hmore⟩
      by_cases hn : n = 0
      · rw [hn, Digits.ofNat_of_lt (by decide)] at hdigits
        cases hdigits
        exact hmore rfl
      · have hhead := Digits.head?_ofNat_ne_zero (Nat.pos_of_ne_zero hn)
        rw [hdigits] at hhead
        exact hhead (congrArg some (Fin.ext hzero))
    dsimp only
    rw [if_neg hlead, hspell]

/-- What follows a value: the end of the text, a comma or a closing bracket. -/
def Closes (rest : List Symbol) : Prop :=
  ∀ c ∈ rest.head?, c = some ',' ∨ c = some ']' ∨ c = some '\x7d'

theorem Closes.noDigit (h : Closes rest) : NoDigit rest := by
  intro c hc d hd
  rcases h c hc with rfl | rfl | rfl <;> cases hd <;> decide

/-- The text of an exponent that may be missing. -/
def exponentText : Option Int → List Char
  | none => []
  | some e => 'e' :: Numeral.exponentChars true e

/-- The text of a numeral behind its sign. -/
def unsignedText (n : Numeral) : List Char :=
  (Digits.ofNat n.whole).chars ++ (if n.fraction.isEmpty then [] else '.' :: n.fraction.chars)
    ++ exponentText n.exponent

theorem chars_eq (n : Numeral) :
    n.chars true = (if n.negative then ['-'] else []) ++ unsignedText n := by
  unfold Numeral.chars unsignedText
  rw [append_assoc, append_assoc, append_assoc]
  cases n.exponent <;> rfl

theorem parseExponent_chars (e : Option Int) (h : Closes rest) :
    parseExponent ((exponentText e).map some ++ rest) = some (e, rest) := by
  cases e with
  | none =>
    cases rest with
    | nil => rfl
    | cons c rest => rcases h c rfl with rfl | rfl | rfl <;> rfl
  | some e =>
    have hdigits : ∀ negative, parseExponentDigits negative
        ((Digits.ofNat e.natAbs).chars.map some ++ rest)
          = some (some (if negative then -(e.natAbs : Int) else e.natAbs), rest) := by
      intro negative
      unfold parseExponentDigits
      rw [spanDigits_chars _ h.noDigit]
      cases hds : Digits.ofNat e.natAbs with
      | nil => exact absurd hds (Digits.ofNat_ne_nil _)
      | cons d ds =>
        dsimp only
        rw [← hds, Digits.toNat_ofNat]
    unfold exponentText Numeral.exponentChars
    by_cases hneg : e < 0
    · have hvalue : -(e.natAbs : Int) = e := by omega
      simp only [hneg, if_true, map_cons, cons_append, nil_append]
      rw [parseExponent, if_pos (by decide), hdigits, if_pos rfl, hvalue]
    · have hvalue : (e.natAbs : Int) = e := by omega
      simp only [hneg, if_true, if_false, map_cons, cons_append, nil_append]
      rw [parseExponent, if_pos (by decide), hdigits, if_neg (by decide), hvalue]

theorem parseFraction_chars (ds : Digits) (h : NoDigit rest)
    (hpoint : rest.head? ≠ some (some '.')) :
    parseFraction ((if ds.isEmpty then [] else '.' :: ds.chars).map some ++ rest)
      = some (ds, rest) := by
  cases ds with
  | nil =>
    cases rest with
    | nil => rfl
    | cons c rest =>
      rw [isEmpty_nil, if_pos rfl, map_nil, nil_append, parseFraction]
      rintro _ hrest
      cases hrest
      exact hpoint rfl
  | cons d ds =>
    rw [isEmpty_cons, if_neg (by decide), map_cons, cons_append, parseFraction,
      spanDigits_chars _ h]

/-- Behind the fraction stands the letter of the exponent or what follows the numeral. -/
theorem head_of_exponent (e : Option Int) (h : Closes rest) :
    ∀ c ∈ ((exponentText e).map some ++ rest).head?,
      c = some 'e' ∨ c = some ',' ∨ c = some ']' ∨ c = some '\x7d' := by
  intro c hc
  cases e with
  | none => exact Or.inr (h c hc)
  | some e =>
    cases hc
    exact Or.inl rfl

theorem parseUnsigned_chars (n : Numeral) (h : Closes rest) :
    parseUnsigned n.negative ((unsignedText n).map some ++ rest) = some (n, rest) := by
  have hexponent := parseExponent_chars n.exponent h
  have hdigit : NoDigit ((exponentText n.exponent).map some ++ rest) := by
    intro c hc d hd
    rcases head_of_exponent n.exponent h c hc with rfl | rfl | rfl | rfl <;> cases hd <;> decide
  have hpoint : ((exponentText n.exponent).map some ++ rest).head? ≠ some (some '.') := by
    intro hc
    rcases head_of_exponent n.exponent h _ hc with hc | hc | hc | hc <;> cases hc
  have hfraction := parseFraction_chars n.fraction hdigit hpoint
  have hdigit' : NoDigit ((if n.fraction.isEmpty then [] else '.' :: n.fraction.chars).map some
      ++ ((exponentText n.exponent).map some ++ rest)) := by
    split
    · exact hdigit
    · exact noDigit_cons (by decide)
  unfold parseUnsigned unsignedText
  simp only [map_append, append_assoc]
  rw [parseWhole_chars _ hdigit']
  simp only [Option.bind_eq_bind, Option.bind_some, hfraction, hexponent, Option.pure_def]

theorem char_ne_minus (d : Fin 10) : Digits.char d ≠ '-' := by
  revert d
  decide

/-- The text of a numeral is read as the numeral. -/
theorem parseNumeral_chars (n : Numeral) (h : Closes rest) :
    parseNumeral ((n.chars true).map some ++ rest) = some (n, rest) := by
  have hunsigned := parseUnsigned_chars n h
  rw [chars_eq, map_append, append_assoc]
  cases hnegative : n.negative with
  | true =>
    rw [hnegative] at hunsigned
    rw [if_pos rfl, map_cons, map_nil, cons_append, nil_append,
      parseNumeral, hunsigned]
  | false =>
    rw [hnegative] at hunsigned
    rw [if_neg (by decide), map_nil, nil_append, parseNumeral, hunsigned]
    -- A digit stands in front, so no sign is read off.
    intro tail htail
    cases hdigits : Digits.ofNat n.whole with
    | nil => exact Digits.ofNat_ne_nil _ hdigits
    | cons d ds =>
      unfold unsignedText at htail
      rw [hdigits] at htail
      exact char_ne_minus d (Option.some.inj (List.cons.inj htail).1)

/-! ## Values -/

theorem skipBlanks_cons (h : isBlank (some c) = false) :
    skipBlanks (some c :: rest) = some c :: rest :=
  dropWhile_cons_of_neg (by rw [h]; decide)

/-- No value that is not a number starts with such a character, nor does a closing bracket. -/
def StartsNumeral (c : Char) : Prop :=
  isBlank (some c) = false ∧ c ≠ ']' ∧ c ≠ 'n' ∧ c ≠ 't' ∧ c ≠ 'f' ∧ c ≠ '"' ∧ c ≠ '[' ∧
    c ≠ '\x7b'

instance (c : Char) : Decidable (StartsNumeral c) := by
  unfold StartsNumeral
  infer_instance

theorem startsNumeral_char (d : Fin 10) : StartsNumeral (Digits.char d) := by
  revert d
  decide

theorem head_numeral (n : Numeral) : ∃ c cs, n.chars true = c :: cs ∧ StartsNumeral c := by
  rw [chars_eq]
  cases n.negative with
  | true => exact ⟨'-', unsignedText n, rfl, by decide⟩
  | false =>
    unfold unsignedText
    cases hdigits : Digits.ofNat n.whole with
    | nil => exact absurd hdigits (Digits.ofNat_ne_nil _)
    | cons d ds => exact ⟨Digits.char d, _, rfl, startsNumeral_char d⟩

/-- The first character of a value. -/
theorem head_chars (j : Json) : ∃ c cs, j.chars = c :: cs ∧ isBlank (some c) = false ∧ c ≠ ']' := by
  cases j with
  | null => exact ⟨_, _, rfl, by decide, by decide⟩
  | bool b => cases b <;> exact ⟨_, _, rfl, by decide, by decide⟩
  | number n =>
    obtain ⟨c, cs, hchars, hblank, hclose, _⟩ := head_numeral n
    exact ⟨c, cs, hchars, hblank, hclose⟩
  | string s => exact ⟨_, _, rfl, by decide, by decide⟩
  | array items => cases items <;> exact ⟨_, _, rfl, by decide, by decide⟩
  | object members => cases members <;> exact ⟨_, _, rfl, by decide, by decide⟩
  | unreadable => exact ⟨_, _, rfl, by decide, by decide⟩

theorem parseValue_numeral (n : Numeral) (steps : Nat) {rest : List Symbol} (h : Closes rest) :
    parseValue (steps + 1) ((n.chars true).map some ++ rest) = some (.number n, rest) := by
  have hread := parseNumeral_chars n h
  obtain ⟨c, cs, hchars, hblank, _, hn, ht, hf, hq, ha, ho⟩ := head_numeral n
  rw [hchars, List.map_cons, List.cons_append] at hread ⊢
  rw [parseValue, skipBlanks_cons hblank]
  split <;> simp_all

theorem parseKey_chars (key : String) (rest : List Symbol) :
    parseKey ((stringChars key).map some ++ some ':' :: rest) = some (some key, rest) := by
  have hread := parseString_stringChars key (some ':' :: rest)
  unfold parseKey stringChars
  rw [List.map_cons, List.map_append, List.map_cons, List.map_nil, List.cons_append,
    List.append_assoc, List.cons_append, List.nil_append, skipBlanks_cons (by decide)]
  simp only [hread]
  rw [skipBlanks_cons (by decide)]
  rfl

theorem ofMembers_some (members : List (String × Json)) :
    ofMembers (members.map fun m => (some m.1, m.2)) = .object members := by
  unfold ofMembers
  have hall : (members.map fun m => (some m.1, m.2)).mapM
      (fun m : Option String × Json => m.1.map fun key => (key, m.2)) = some members := by
    induction members with
    | nil => rfl
    | cons m members ih =>
      rw [List.map_cons, List.mapM_cons, ih]
      rfl
  rw [hall]

theorem parseString_halfPair (rest : List Symbol) :
    parseString ((halfPairChars.drop 1).map some ++ rest) = some (none, rest) := by
  have hunit : hexUnit? 'd' '8' '0' '0' = some 0xd800 := by decide
  have hfirst : isFirstHalf 0xd800 = true := by decide
  simp only [halfPairChars, List.drop_succ_cons, List.drop_zero, List.map_cons, List.map_nil,
    List.cons_append, List.nil_append, parseString]
  rw [parsePieces, hunit, parsePieces]
  simp only [Option.map_some, spell?, hfirst, if_true, Option.map_none]

theorem closes_cons {c : Char} {rest : List Symbol} (h : c = ',' ∨ c = ']' ∨ c = '\x7d') :
    Closes (some c :: rest) := by
  intro c' hc'
  cases hc'
  rcases h with rfl | rfl | rfl <;> decide

/-- The text of the value is read as the value, given steps enough. -/
def Reads (j : Json) : Prop :=
  ∀ {steps : Nat} {rest : List Symbol}, 2 * j.chars.length ≤ steps → Closes rest →
    parseValue steps (j.chars.map some ++ rest) = some (j, rest)

/-- A value has a text, so there is a step to make. -/
theorem reads_of_succ {j : Json}
    (h : ∀ (steps : Nat) (rest : List Symbol), 2 * j.chars.length ≤ steps + 1 → Closes rest →
      parseValue (steps + 1) (j.chars.map some ++ rest) = some (j, rest)) : Reads j := by
  intro steps rest hsteps hrest
  cases steps with
  | zero =>
    obtain ⟨c, cs, hchars, -, -⟩ := head_chars j
    rw [hchars, List.length_cons] at hsteps
    omega
  | succ steps => exact h steps rest hsteps hrest

/-- The text of items up to the closing bracket is read as the items. -/
theorem parseItems_chars (item : Json) (items : List Json) (h : ∀ j ∈ item :: items, Reads j)
    {steps : Nat} (hsteps : 2 * (item.chars ++ charsItems items).length + 1 ≤ steps)
    (rest : List Symbol) :
    parseItems steps ((item.chars ++ charsItems items).map some ++ some ']' :: rest)
      = some (item :: items, rest) := by
  induction items generalizing item steps with
  | nil =>
    obtain ⟨steps, rfl⟩ : ∃ k, steps = k + 1 := ⟨steps - 1, by omega⟩
    rw [List.length_append] at hsteps
    have hread : parseValue steps (item.chars.map some ++ some ']' :: rest)
        = some (item, some ']' :: rest) :=
      h item List.mem_cons_self (by omega) (closes_cons (by decide))
    rw [charsItems, List.append_nil, parseItems, hread]
    rfl
  | cons next more ih =>
    obtain ⟨steps, rfl⟩ : ∃ k, steps = k + 1 := ⟨steps - 1, by omega⟩
    rw [List.length_append, charsItems, List.length_cons] at hsteps
    have hmore := ih next (fun j hj => h j (List.mem_cons_of_mem item hj))
      (show _ ≤ steps by omega)
    have hread : parseValue steps (item.chars.map some
        ++ some ',' :: ((next.chars ++ charsItems more).map some ++ some ']' :: rest))
        = some (item, some ',' :: ((next.chars ++ charsItems more).map some ++ some ']' :: rest)) :=
      h item List.mem_cons_self (by omega) (closes_cons (by decide))
    rw [charsItems, List.map_append, List.map_cons, List.append_assoc, List.cons_append,
      parseItems, hread]
    simp only [skipBlanks_cons (show isBlank (some ',') = false by decide)]
    rw [hmore]
    rfl

theorem reads_array {items : List Json} (h : ∀ item ∈ items, Reads item) :
    Reads (.array items) := by
  refine reads_of_succ fun steps rest hsteps _ => ?_
  cases items with
  | nil => rw [chars]; rfl
  | cons item items =>
    rw [chars, List.length_cons, List.length_append] at hsteps
    have hread := parseItems_chars item items h (show _ ≤ steps by omega) rest
    have htext : (array (item :: items)).chars.map some ++ rest
        = some '[' :: ((item.chars ++ charsItems items).map some ++ some ']' :: rest) := by
      rw [chars, List.map_cons, List.map_append, List.cons_append, List.append_assoc]
      rfl
    -- An item starts neither with a blank nor with the closing bracket.
    obtain ⟨c, cs, hchars, hblank, hclose⟩ := head_chars item
    rw [htext, parseValue, skipBlanks_cons (by decide)]
    rw [hchars, List.cons_append, List.map_cons, List.cons_append] at hread ⊢
    simp only [skipBlanks_cons hblank]
    split
    · simp_all
    · rw [hread]
      rfl

/-- The text of members up to the closing brace is read as the members. -/
theorem parseMembers_chars (m : String × Json) (members : List (String × Json))
    (h : ∀ m' ∈ m :: members, Reads m'.2) {steps : Nat}
    (hsteps : 2 * (m.2.chars ++ charsMembers members).length + 2 ≤ steps) (rest : List Symbol) :
    parseMembers steps
        ((stringChars m.1 ++ ':' :: m.2.chars ++ charsMembers members).map some
          ++ some '\x7d' :: rest)
      = some ((m :: members).map fun m' => (some m'.1, m'.2), rest) := by
  have htext : ∀ (m : String × Json) (tail : List Char) (rest : List Symbol),
      (stringChars m.1 ++ ':' :: m.2.chars ++ tail).map some ++ rest
        = (stringChars m.1).map some ++ some ':' ::
          (m.2.chars.map some ++ (tail.map some ++ rest)) := by
    intro m tail rest
    simp only [List.map_append, List.map_cons, List.append_assoc, List.cons_append]
  induction members generalizing m steps with
  | nil =>
    obtain ⟨steps, rfl⟩ : ∃ k, steps = k + 1 := ⟨steps - 1, by omega⟩
    rw [List.length_append] at hsteps
    have hread : parseValue steps (m.2.chars.map some ++ some '\x7d' :: rest)
        = some (m.2, some '\x7d' :: rest) :=
      h m List.mem_cons_self (by omega) (closes_cons (by decide))
    rw [htext, charsMembers, List.map_nil, List.nil_append, parseMembers, parseKey_chars]
    simp only [hread]
    rfl
  | cons next more ih =>
    obtain ⟨steps, rfl⟩ : ∃ k, steps = k + 1 := ⟨steps - 1, by omega⟩
    rw [List.length_append, charsMembers, List.length_cons, List.length_append,
      List.length_append, List.length_cons] at hsteps
    have hmore := ih next (fun m' hm' => h m' (List.mem_cons_of_mem m hm'))
      (show _ ≤ steps by rw [List.length_append]; omega)
    have hread : ∀ tail, parseValue steps (m.2.chars.map some ++ some ',' :: tail)
        = some (m.2, some ',' :: tail) := fun tail =>
      h m List.mem_cons_self (by omega) (closes_cons (by decide))
    rw [htext, charsMembers, List.map_cons, List.cons_append, parseMembers, parseKey_chars]
    simp only [hread, skipBlanks_cons (show isBlank (some ',') = false by decide)]
    rw [hmore]
    rfl

theorem reads_object {members : List (String × Json)} (h : ∀ m ∈ members, Reads m.2) :
    Reads (.object members) := by
  refine reads_of_succ fun steps rest hsteps _ => ?_
  cases members with
  | nil => rw [chars]; rfl
  | cons m members =>
    obtain ⟨key, value⟩ := m
    rw [chars] at hsteps
    simp only [List.length_cons, List.length_append] at hsteps
    have hread := parseMembers_chars (key, value) members h
      (show 2 * (value.chars ++ charsMembers members).length + 2 ≤ steps by
        rw [List.length_append]; omega) rest
    have htext : (object ((key, value) :: members)).chars.map some ++ rest
        = some '\x7b' :: ((stringChars key ++ ':' :: value.chars ++ charsMembers members).map some
          ++ some '\x7d' :: rest) := by
      rw [chars, List.map_cons, List.map_append, List.cons_append, List.append_assoc]
      rfl
    rw [htext, parseValue, skipBlanks_cons (by decide)]
    unfold stringChars at hread ⊢
    simp only [List.cons_append, List.map_cons] at hread ⊢
    simp only [skipBlanks_cons (show isBlank (some '"') = false by decide)]
    split
    · simp_all
    · rw [hread, Option.map_some]
      dsimp only
      rw [← ofMembers_some]
      rfl

theorem reads (j : Json) : Reads j := by
  induction j using Json.induction with
  | null => exact reads_of_succ fun steps rest _ _ => by rw [chars]; rfl
  | bool b => exact reads_of_succ fun steps rest _ _ => by cases b <;> rw [chars] <;> rfl
  | number n =>
    refine reads_of_succ fun steps rest _ hrest => ?_
    rw [chars, parseValue_numeral n steps hrest]
  | string s =>
    refine reads_of_succ fun steps rest _ _ => ?_
    have hread := parseString_stringChars s rest
    rw [chars, stringChars, map_cons, map_append, map_cons, map_nil,
      cons_append, append_assoc, cons_append, nil_append, parseValue,
      skipBlanks_cons (by decide)]
    simp only [hread]
    rfl
  | array items ih => exact reads_array ih
  | object members ih => exact reads_object ih
  | unreadable =>
    refine reads_of_succ fun steps rest _ _ => ?_
    have hread := parseString_halfPair rest
    simp only [halfPairChars, drop_succ_cons, drop_zero] at hread
    rw [chars, halfPairChars, map_cons, cons_append, parseValue,
      skipBlanks_cons (by decide)]
    simp only [hread]
    rfl

/-- The text of a value is read as the value. -/
theorem scan?_text (j : Json) : scan? j.text = some j := by
  have hread : parseValue (2 * j.chars.length + 1) (j.chars.map some ++ [])
      = some (j, []) := by
    apply reads j
    · omega
    · intro c hc
      cases hc
  unfold scan? text parseSymbols?
  rw [append_nil] at hread
  rw [String.toList_ofList, length_map, hread]
  rfl

/-- A value is determined by its text. -/
theorem text_inj {j j' : Json} (h : j.text = j'.text) : j = j' := by
  have hread := scan?_text j
  rw [h, scan?_text j'] at hread
  exact (Option.some.inj hread).symm

end Json

end Shading
