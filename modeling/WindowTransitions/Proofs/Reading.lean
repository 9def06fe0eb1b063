import Mathlib.Tactic.SplitIfs
import WindowTransitions.Json.Reader

/-! Reading what was written. The compact text of a value is read back as that value, whatever follows it that could
not continue a number: literals character by character, numerals part by part, and values by the brackets around
them. Main statement: every value is what its compact text says. -/

set_option autoImplicit false

namespace WindowTransitions.Json

open Decimal (Numeral digitChar digitOf)

/-! ## Literals -/

theorem hexValue?_hexDigit (n : Nat) : hexValue? (hexDigit n) = some (n % 16) := by
  have hall : ∀ d < 16, hexValue? (Nat.digitChar d) = some d := by decide
  exact hall (n % 16) (Nat.mod_lt n (by decide))

/-- A control character by its code. -/
theorem ofCode_toNat {c : Char} (h : c.toNat < 32) :
    Piece.ofCode (c.toNat / 16 % 16 * 16 + c.toNat % 16) = .char c := by
  have hcode : c.toNat / 16 % 16 * 16 + c.toNat % 16 = c.toNat := by omega
  have hlow : ¬ (0xD800 ≤ c.toNat ∧ c.toNat < 0xE000) := by omega
  rw [hcode, Piece.ofCode, if_neg hlow, Char.ofNat_toNat]

/-- A character that is written as itself. -/
theorem pieces_plain {c : Char} (hq : c ≠ '"') (hs : c ≠ '\\') (hc : ¬ c.toNat < 32) (rest : List Char) :
    pieces (c :: rest) = (pieces rest).map fun p => (.char c :: p.1, p.2) := by
  rw [pieces]
  · cases pieces rest <;> simp [hc]
  · exact hq
  · rintro _ _ _ _ _ rfl
    exact absurd rfl hs
  · rintro _ _ rfl
    exact absurd rfl hs

/-- A character behind a backslash. -/
theorem pieces_short {e c : Char} (hu : e ≠ 'u') (he : unescape? e = some c) (rest : List Char) :
    pieces ('\\' :: e :: rest) = (pieces rest).map fun p => (.char c :: p.1, p.2) := by
  rw [pieces]
  · rw [he]
    cases pieces rest <;> rfl
  · rintro _ _ _ _ _ rfl
    exact absurd rfl hu

/-- A control character by its code in hexadecimal digits. -/
theorem pieces_code {c : Char} (hc : c.toNat < 32) (rest : List Char) :
    pieces (['\\', 'u', '0', '0', hexDigit (c.toNat / 16), hexDigit c.toNat] ++ rest) =
      (pieces rest).map fun p => (.char c :: p.1, p.2) := by
  have hzero : hexValue? '0' = some 0 := by decide
  simp only [List.cons_append, List.nil_append, pieces, hzero, hexValue?_hexDigit, Option.bind_eq_bind,
    Option.bind_some, Nat.zero_mul, Nat.zero_add, ofCode_toNat hc]
  cases pieces rest <;> rfl

theorem pieces_escape (c : Char) (rest : List Char) :
    pieces (escape c ++ rest) = (pieces rest).map fun p => (.char c :: p.1, p.2) := by
  unfold escape
  split_ifs with hquote hslash hb ht hn hf hr hc
  · exact pieces_short (by decide) (by rw [hquote]; rfl) rest
  · exact pieces_short (by decide) (by rw [hslash]; rfl) rest
  · exact pieces_short (by decide) (by rw [hb]; rfl) rest
  · exact pieces_short (by decide) (by rw [ht]; rfl) rest
  · exact pieces_short (by decide) (by rw [hn]; rfl) rest
  · exact pieces_short (by decide) (by rw [hf]; rfl) rest
  · exact pieces_short (by decide) (by rw [hr]; rfl) rest
  · exact pieces_code hc rest
  · exact pieces_plain hquote hslash hc rest

theorem pieces_quoted (cs rest : List Char) : pieces (quoted cs ++ rest) = some (cs.map .char, rest) := by
  induction cs with
  | nil => rfl
  | cons c cs ih =>
    rw [quoted] at ih
    rw [quoted, List.flatMap_cons, List.append_assoc, List.append_assoc, pieces_escape, ← List.append_assoc, ih]
    rfl

theorem text?_chars (cs : List Char) : text? (cs.map .char) = some cs := by
  induction cs with
  | nil => rfl
  | cons c cs ih => rw [List.map_cons, text?, ih, Option.map_some]

/-- A literal without a text, too, is read as one. -/
theorem literal_chars (l : Literal) :
    ∃ body, l.chars = '"' :: body ∧ ∀ rest, literal (body ++ rest) = some (l, rest) := by
  cases l with
  | none =>
    refine ⟨_, rfl, fun rest => ?_⟩
    have hpieces : pieces (['\\', 'u', 'd', '8', '0', '0', '"'] ++ rest) = some ([.half 0xD800], rest) := by
      have hd : hexValue? 'd' = some 13 ∧ hexValue? '8' = some 8 ∧ hexValue? '0' = some 0 := by decide
      simp only [List.cons_append, List.nil_append, pieces, hd, Option.bind_eq_bind, Option.bind_some]
      rfl
    rw [literal, hpieces]
    rfl
  | some text =>
    refine ⟨quoted text.toList, rfl, fun rest => ?_⟩
    simp only [literal, pieces_quoted, Option.bind_eq_bind, Option.bind_some, text?_chars, Option.map_some,
      String.ofList_toList]
    rfl

/-! ## Numerals -/

/-- What follows a numeral and does not continue it. -/
def Ends (rest : List Char) : Prop := ∀ c ∈ rest.head?, c.isDigit = false ∧ c ≠ '.' ∧ c ≠ 'e' ∧ c ≠ 'E'

theorem digits_append {ds rest : List Char} (hd : ∀ c ∈ ds, c.isDigit = true)
    (hr : ∀ c ∈ rest.head?, c.isDigit = false) : digits (ds ++ rest) = (ds, rest) := by
  have htake : rest.takeWhile Char.isDigit = [] := by
    cases rest with
    | nil => rfl
    | cons c rest => rw [List.takeWhile_cons, hr c rfl, if_neg Bool.false_ne_true]
  have hdrop : rest.dropWhile Char.isDigit = rest := by
    cases rest with
    | nil => rfl
    | cons c rest => rw [List.dropWhile_cons, hr c rfl, if_neg Bool.false_ne_true]
  rw [digits, List.takeWhile_append_of_pos hd, List.dropWhile_append_of_pos hd, htake, hdrop, List.append_nil]

theorem Ends.noDigit {rest : List Char} (hr : Ends rest) : ∀ c ∈ rest.head?, c.isDigit = false :=
  fun c hc => (hr c hc).1

theorem readExponent_rest (n : Numeral) {rest : List Char} (hr : Ends rest) : readExponent n rest = some (n, rest) := by
  cases rest with
  | nil => rfl
  | cons c rest =>
    obtain ⟨_, _, he, hE⟩ := hr c rfl
    exact if_neg (by simp [he, hE])

/-- What is made of digits that are there. -/
theorem match_digits {β : Type} {ds rest : List Char} (hd : ∀ c ∈ ds, c.isDigit = true) (hn : ds ≠ [])
    (hr : ∀ c ∈ rest.head?, c.isDigit = false) (f : List Char → List Char → Option β) :
    (match digits (ds ++ rest) with
      | ([], _) => none
      | (ds, rest) => f ds rest) = f ds rest := by
  rw [digits_append hd hr]
  cases ds with
  | nil => exact absurd rfl hn
  | cons d ds => rfl

theorem match_number {β : Type} (m : Nat) {rest : List Char} (hr : ∀ c ∈ rest.head?, c.isDigit = false)
    (f : List Char → List Char → Option β) :
    (match digits (Nat.toDigits 10 m ++ rest) with
      | ([], _) => none
      | (ds, rest) => f ds rest) = f (Nat.toDigits 10 m) rest :=
  match_digits (fun _ hc => Nat.isDigit_of_mem_toDigits (by decide) (by decide) hc) Nat.toDigits_ne_nil hr f

theorem readExponent_chars {n : Numeral} (hn : n.exponent = none) (e : Option Int) {rest : List Char}
    (hr : Ends rest) :
    readExponent n (Numeral.exponentChars true e ++ rest) = some ({ n with exponent := e }, rest) := by
  cases e with
  | none => rw [Numeral.exponentChars, List.nil_append, readExponent_rest n hr, ← hn]
  | some e =>
    have hvalue : Nat.ofDigitChars 10 (Nat.toDigits 10 e.natAbs) 0 = e.natAbs := Nat.ofDigitChars_ten_toDigits
    by_cases he : e < 0
    · have hsign : Numeral.exponentChars true (some e) ++ rest = 'e' :: '-' :: (Nat.toDigits 10 e.natAbs ++ rest) := by
        simp [Numeral.exponentChars, he]
      rw [hsign]
      refine (match_number e.natAbs hr.noDigit _).trans ?_
      simp only [hvalue, Int.ofNat_natAbs_of_nonpos (Int.le_of_lt he), if_true, Int.neg_neg]
    · have hsign : Numeral.exponentChars true (some e) ++ rest = 'e' :: '+' :: (Nat.toDigits 10 e.natAbs ++ rest) := by
        simp [Numeral.exponentChars, he]
      rw [hsign]
      refine (match_number e.natAbs hr.noDigit _).trans ?_
      simp only [hvalue, Int.natAbs_of_nonneg (Int.not_lt.mp he), Bool.false_eq_true, if_false]

theorem exponentChars_head (e : Option Int) {rest : List Char} (hr : Ends rest) :
    ∀ c ∈ (Numeral.exponentChars true e ++ rest).head?, c.isDigit = false ∧ c ≠ '.' := by
  cases e with
  | none => exact fun c hc => ⟨(hr c hc).1, (hr c hc).2.1⟩
  | some e =>
    intro c hc
    obtain rfl : 'e' = c := Option.some.inj hc
    decide

theorem digitOf_digitChar (d : Fin 10) : digitOf (digitChar d) = d := by
  revert d
  decide

theorem readFraction_chars {n : Numeral} (hn : n.exponent = none) (hf : n.fraction = []) (ds : List (Fin 10))
    (e : Option Int) {rest : List Char} (hr : Ends rest) :
    readFraction n (Numeral.fractionChars ds ++ (Numeral.exponentChars true e ++ rest)) =
      some ({ n with fraction := ds, exponent := e }, rest) := by
  have hhead := exponentChars_head e hr
  cases ds with
  | nil =>
    rw [Numeral.fractionChars, List.nil_append, ← hf, ← readExponent_chars hn e hr]
    generalize Numeral.exponentChars true e ++ rest = cs at hhead
    cases cs with
    | nil => rfl
    | cons c cs =>
      rw [readFraction]
      rintro _ h
      exact (hhead c rfl).2 (List.cons.inj h).1
  | cons d ds =>
    have hdigit : ∀ c ∈ (d :: ds).map digitChar, c.isDigit = true := by
      intro c hc
      obtain ⟨d', _, rfl⟩ := List.mem_map.mp hc
      simp [digitChar]
    have hback : ((d :: ds).map digitChar).map digitOf = d :: ds := by
      have hid : digitOf ∘ digitChar = id := funext digitOf_digitChar
      rw [List.map_map, hid, List.map_id]
    refine (match_digits hdigit (by simp) (fun c hc => (hhead c hc).1) _).trans ?_
    rw [hback]
    exact readExponent_chars (n := { n with fraction := d :: ds }) hn e hr

theorem fractionChars_head (ds : List (Fin 10)) (e : Option Int) {rest : List Char} (hr : Ends rest) :
    ∀ c ∈ (Numeral.fractionChars ds ++ (Numeral.exponentChars true e ++ rest)).head?, c.isDigit = false := by
  cases ds with
  | nil => exact fun c hc => (exponentChars_head e hr c hc).1
  | cons d ds =>
    intro c hc
    obtain rfl : '.' = c := Option.some.inj hc
    decide

/-- The first digit of a number that is not zero. -/
theorem toDigits_head {m : Nat} (hm : m ≠ 0) :
    ∃ d ds, Nat.toDigits 10 m = d :: ds ∧ d ≠ '0' ∧ d.isDigit = true := by
  induction m using Nat.strongRecOn with
  | ind m ih =>
    by_cases hlt : m < 10
    · refine ⟨m.digitChar, [], Nat.toDigits_of_lt_base hlt, ?_, ?_⟩
      · simpa using hm
      · simpa using hlt
    · obtain ⟨d, ds, hd, hne, hdigit⟩ := ih (m / 10) (by omega) (by omega)
      refine ⟨d, ds ++ [(m % 10).digitChar], ?_, hne, hdigit⟩
      rw [Nat.toDigits_of_base_le (by decide) (Nat.not_lt.mp hlt), hd, List.cons_append]

theorem readUnsigned_chars (n : Numeral) {rest : List Char} (hr : Ends rest) :
    readUnsigned n.negative (Nat.toDigits 10 n.whole ++
      (Numeral.fractionChars n.fraction ++ (Numeral.exponentChars true n.exponent ++ rest))) = some (n, rest) := by
  have hrest := readFraction_chars (n := { negative := n.negative, whole := n.whole }) rfl rfl n.fraction n.exponent hr
  by_cases hw : n.whole = 0
  · rw [hw, Nat.toDigits_zero]
    rw [hw] at hrest
    refine hrest.trans ?_
    rw [← hw]
  · have hmatch := match_number n.whole (fractionChars_head n.fraction n.exponent hr) fun ds rest =>
      readFraction { negative := n.negative, whole := Nat.ofDigitChars 10 ds 0 } rest
    rw [Nat.ofDigitChars_ten_toDigits, hrest] at hmatch
    obtain ⟨d, ds, hd, hne, _⟩ := toDigits_head hw
    rw [← hmatch, hd, List.cons_append]
    unfold readUnsigned
    split
    case h_1 heq => exact absurd (List.cons.inj heq).1 hne
    case h_2 => rfl

theorem readNumeral_chars (n : Numeral) {rest : List Char} (hr : Ends rest) :
    readNumeral (n.chars true ++ rest) = some (n, rest) := by
  have hunsigned := readUnsigned_chars n hr
  simp only [Numeral.chars, List.append_assoc]
  cases hneg : n.negative with
  | true =>
    rw [hneg] at hunsigned
    exact hunsigned
  | false =>
    rw [hneg] at hunsigned
    rw [if_neg Bool.false_ne_true, List.nil_append, ← hunsigned]
    cases hd : Nat.toDigits 10 n.whole with
    | nil => exact absurd hd Nat.toDigits_ne_nil
    | cons d ds =>
      have hdigit : d.isDigit = true :=
        Nat.isDigit_of_mem_toDigits (by decide) (by decide) (hd ▸ List.mem_cons_self)
      rw [List.cons_append, readNumeral]
      rintro _ h
      rw [(List.cons.inj h).1] at hdigit
      cases hdigit

/-! ## Values -/

theorem skip_cons {c : Char} (hc : isBlank c = false) (cs : List Char) : skip (c :: cs) = c :: cs := by
  rw [skip, List.dropWhile_cons, hc, if_neg Bool.false_ne_true]

/-- A character that a numeral starts with. -/
def StartsNumeral (c : Char) : Prop := c = '-' ∨ c.isDigit = true

theorem StartsNumeral.ne {c d : Char} (hc : StartsNumeral c) (hd : d ≠ '-' ∧ d.isDigit = false) : c ≠ d := by
  rintro rfl
  rcases hc with hc | hc
  · exact hd.1 hc
  · exact Bool.false_ne_true (hd.2.symm.trans hc)

theorem StartsNumeral.notBlank {c : Char} (hc : StartsNumeral c) : isBlank c = false := by
  have hspace := hc.ne (d := ' ') (by decide)
  have htab := hc.ne (d := '\t') (by decide)
  have hline := hc.ne (d := '\n') (by decide)
  have hreturn := hc.ne (d := '\r') (by decide)
  simp [isBlank, hspace, htab, hline, hreturn]

theorem numeral_head (n : Numeral) : ∃ c cs, n.chars true = c :: cs ∧ StartsNumeral c := by
  cases hd : Nat.toDigits 10 n.whole with
  | nil => exact absurd hd Nat.toDigits_ne_nil
  | cons d ds =>
    have hdigit : d.isDigit = true :=
      Nat.isDigit_of_mem_toDigits (by decide) (by decide) (hd ▸ List.mem_cons_self)
    cases hneg : n.negative with
    | true => exact ⟨'-', _, by simp only [Numeral.chars, hneg]; rfl, .inl rfl⟩
    | false => exact ⟨d, _, by simp only [Numeral.chars, hneg, hd]; rfl, .inr hdigit⟩

theorem readValue_numeral {c : Char} (hc : StartsNumeral c) (cs : List Char) (fuel : Nat) :
    readValue (fuel + 1) (c :: cs) = (readNumeral (c :: cs)).map fun p => (.number p.1, p.2) := by
  rw [readValue, skip_cons hc.notBlank]
  split
  case h_7 => cases readNumeral (c :: cs) <;> rfl
  all_goals
    rename_i h
    exact absurd (List.cons.inj h).1 (hc.ne (by decide))

theorem chars_head (j : Json) : ∃ c cs, chars j = c :: cs ∧ isBlank c = false ∧ c ≠ ']' := by
  cases j with
  | null => exact ⟨_, _, rfl, by decide⟩
  | bool b => cases b <;> exact ⟨_, _, rfl, by decide⟩
  | number n =>
    obtain ⟨c, cs, hcs, hc⟩ := numeral_head n
    exact ⟨c, cs, hcs, hc.notBlank, hc.ne (by decide)⟩
  | string text =>
    obtain ⟨body, hbody, _⟩ := literal_chars text
    exact ⟨_, body, hbody, by decide⟩
  | array js => cases js <;> exact ⟨_, _, rfl, by decide⟩
  | object ms => cases ms <;> exact ⟨_, _, rfl, by decide⟩

theorem elementsChars_ends (js : List Json) (rest : List Char) : Ends (elementsChars js ++ rest) := by
  cases js <;> exact fun c hc => Option.some.inj hc ▸ by decide

theorem membersChars_ends (ms : List (Literal × Json)) (rest : List Char) : Ends (membersChars ms ++ rest) := by
  cases ms <;> exact fun c hc => Option.some.inj hc ▸ by decide

/-- An array with a first element. -/
theorem readValue_array {c : Char} (hb : isBlank c = false) (hc : c ≠ ']') (cs : List Char) (fuel : Nat) :
    readValue (fuel + 1) ('[' :: c :: cs) =
      (readValue fuel (c :: cs)).bind fun first =>
        (readElements fuel first.2).map fun more => (.array (first.1 :: more.1), more.2) := by
  rw [readValue, skip_cons (by decide)]
  simp only [skip_cons hb]
  split
  · rename_i h
    exact absurd (List.cons.inj h).1 hc
  · cases readValue fuel (c :: cs) with
    | none => rfl
    | some first => cases h : readElements fuel first.2 <;> simp [h]

theorem readKey_chars {key : Literal} {body : List Char}
    (hkey : ∀ rest, literal (body ++ rest) = some (key, rest)) (cs : List Char) :
    readKey (body ++ ':' :: cs) = some (key, cs) := by
  simp only [readKey, hkey, Option.bind_eq_bind, Option.bind_some, skip_cons (c := ':') (by decide)]
  rfl

/-- An object with a first member, whose key is written behind a quote. -/
theorem readValue_object {key : Literal} {body : List Char}
    (hkey : ∀ rest, literal (body ++ rest) = some (key, rest)) (cs : List Char) (fuel : Nat) :
    readValue (fuel + 1) ('{' :: '"' :: (body ++ ':' :: cs)) =
      (readValue fuel cs).bind fun first =>
        (readMembers fuel first.2).map fun more => (.object ((key, first.1) :: more.1), more.2) := by
  rw [readValue, skip_cons (by decide)]
  simp only [skip_cons (c := '"') (by decide), readKey_chars hkey, Option.bind_eq_bind, Option.bind_some]
  cases readValue fuel cs with
  | none => rfl
  | some first => cases h : readMembers fuel first.2 <;> simp [h]

mutual

theorem readValue_chars (j : Json) (fuel : Nat) (rest : List Char) (hf : (chars j).length ≤ fuel) (hr : Ends rest) :
    readValue fuel (chars j ++ rest) = some (j, rest) := by
  obtain ⟨c, cs, hcs, hblank, _⟩ := chars_head j
  obtain ⟨fuel, rfl⟩ : ∃ k, fuel = k + 1 := ⟨fuel - 1, by rw [hcs, List.length_cons] at hf; omega⟩
  match j with
  | .null => rfl
  | .bool true => rfl
  | .bool false => rfl
  | .number n =>
    obtain ⟨d, ds, hds, hd⟩ := numeral_head n
    have hread := readNumeral_chars n hr
    rw [hds, List.cons_append] at hread
    rw [chars, hds, List.cons_append, readValue_numeral hd, hread, Option.map_some]
  | .string text =>
    obtain ⟨body, hbody, hread⟩ := literal_chars text
    rw [chars, hbody, List.cons_append, readValue, skip_cons (by decide)]
    simp only [hread, Option.bind_eq_bind, Option.bind_some]
    rfl
  | .array [] => rfl
  | .array (first :: js) =>
    rw [chars] at hf
    simp only [List.length_cons, List.length_append] at hf
    obtain ⟨d, ds, hds, hblank, hclose⟩ := chars_head first
    have hfirst := readValue_chars first fuel (elementsChars js ++ rest) (by omega) (elementsChars_ends js rest)
    have hmore := readElements_chars js fuel rest (by omega)
    rw [hds, List.cons_append] at hfirst
    rw [chars, hds, List.cons_append, List.cons_append, List.cons_append, List.append_assoc,
      readValue_array hblank hclose, hfirst, Option.bind_some, hmore, Option.map_some]
  | .object [] => rfl
  | .object ((key, first) :: ms) =>
    rw [chars] at hf
    simp only [List.length_cons, List.length_append] at hf
    obtain ⟨body, hbody, hkey⟩ := literal_chars key
    have hfirst := readValue_chars first fuel (membersChars ms ++ rest) (by omega) (membersChars_ends ms rest)
    have hmore := readMembers_chars ms fuel rest (by omega)
    rw [chars, hbody, List.cons_append, List.cons_append, List.cons_append, List.append_assoc, List.cons_append,
      List.append_assoc, readValue_object hkey, hfirst, Option.bind_some, hmore, Option.map_some]

theorem readElements_chars (js : List Json) (fuel : Nat) (rest : List Char) (hf : (elementsChars js).length ≤ fuel) :
    readElements fuel (elementsChars js ++ rest) = some (js, rest) := by
  cases js with
  | nil =>
    obtain ⟨fuel, rfl⟩ : ∃ k, fuel = k + 1 := ⟨fuel - 1, by rw [elementsChars] at hf; simp at hf; omega⟩
    rfl
  | cons j js =>
    rw [elementsChars] at hf
    simp only [List.length_cons, List.length_append] at hf
    obtain ⟨fuel, rfl⟩ : ∃ k, fuel = k + 1 := ⟨fuel - 1, by omega⟩
    have hj := readValue_chars j fuel (elementsChars js ++ rest) (by omega) (elementsChars_ends js rest)
    have hmore := readElements_chars js fuel rest (by omega)
    rw [elementsChars, List.cons_append, List.append_assoc, readElements, skip_cons (by decide)]
    simp only [hj, hmore, Option.bind_eq_bind, Option.bind_some]
    rfl

theorem readMembers_chars (ms : List (Literal × Json)) (fuel : Nat) (rest : List Char)
    (hf : (membersChars ms).length ≤ fuel) : readMembers fuel (membersChars ms ++ rest) = some (ms, rest) := by
  cases ms with
  | nil =>
    obtain ⟨fuel, rfl⟩ : ∃ k, fuel = k + 1 := ⟨fuel - 1, by rw [membersChars] at hf; simp at hf; omega⟩
    rfl
  | cons m ms =>
    obtain ⟨key, j⟩ := m
    rw [membersChars] at hf
    simp only [List.length_cons, List.length_append] at hf
    obtain ⟨fuel, rfl⟩ : ∃ k, fuel = k + 1 := ⟨fuel - 1, by omega⟩
    obtain ⟨body, hbody, hkey⟩ := literal_chars key
    have hj := readValue_chars j fuel (membersChars ms ++ rest) (by omega) (membersChars_ends ms rest)
    have hmore := readMembers_chars ms fuel rest (by omega)
    have hread := readKey_chars hkey (chars j ++ (membersChars ms ++ rest))
    rw [membersChars, hbody, List.cons_append, List.cons_append, List.cons_append, List.append_assoc, List.cons_append,
      List.append_assoc, readMembers, skip_cons (by decide)]
    simp only [skip_cons (c := '"') (by decide), hread, hj, hmore, Option.bind_eq_bind, Option.bind_some]
    rfl

end

/-- Every value is what its compact text says. -/
theorem ofText?_text (j : Json) : ofText? j.text = some j := by
  have hread := readValue_chars j (j.chars.length + 1) [] (by omega) (fun _ hc => nomatch hc)
  rw [List.append_nil] at hread
  simp only [ofText?, text, String.toList_ofList, hread, Option.bind_eq_bind, Option.bind_some]
  rfl

end WindowTransitions.Json
