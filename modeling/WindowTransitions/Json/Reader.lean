import WindowTransitions.Json.Basic

/-! Reading JSON text. The grammar is strict: blanks are space, tab, line feed and carriage return, numerals
have no needless zero or sign, and nothing follows the value. Literals keep what they say, so a number too large
for any use or a literal without a text is an error only where the value is used. -/

set_option autoImplicit false

namespace WindowTransitions.Json

open Decimal (Numeral)

def isBlank (c : Char) : Bool := c = ' ' || c = '\t' || c = '\n' || c = '\r'

def skip (cs : List Char) : List Char := cs.dropWhile isBlank

/-! ## Numerals -/

/-- The digits at the front, and what follows them. -/
def digits (cs : List Char) : List Char × List Char := (cs.takeWhile Char.isDigit, cs.dropWhile Char.isDigit)

def readExponent (n : Numeral) : List Char → Option (Numeral × List Char)
  | c :: rest =>
    if c = 'e' ∨ c = 'E' then
      let (negative, rest) := match rest with
        | '-' :: rest => (true, rest)
        | '+' :: rest => (false, rest)
        | rest => (false, rest)
      match digits rest with
      | ([], _) => none
      | (ds, rest) =>
        let e : Int := Nat.ofDigitChars 10 ds 0
        some ({ n with exponent := some (if negative then -e else e) }, rest)
    else some (n, c :: rest)
  | [] => some (n, [])

def readFraction (n : Numeral) : List Char → Option (Numeral × List Char)
  | '.' :: rest =>
    match digits rest with
    | ([], _) => none
    | (ds, rest) => readExponent { n with fraction := ds.map Decimal.digitOf } rest
  | rest => readExponent n rest

def readUnsigned (negative : Bool) : List Char → Option (Numeral × List Char)
  | '0' :: rest => readFraction { negative, whole := 0 } rest
  | cs =>
    match digits cs with
    | ([], _) => none
    | (ds, rest) => readFraction { negative, whole := Nat.ofDigitChars 10 ds 0 } rest

def readNumeral : List Char → Option (Numeral × List Char)
  | '-' :: rest => readUnsigned true rest
  | cs => readUnsigned false cs

/-! ## Values -/

/-- A member's key behind its first quote, with the colon. -/
def readKey (cs : List Char) : Option (Literal × List Char) := do
  let (key, rest) ← literal cs
  match skip rest with
  | ':' :: rest => return (key, rest)
  | _ => none

mutual

/-- A value at the front, and what follows it. Each nested value or further element uses one of `fuel`. -/
def readValue : Nat → List Char → Option (Json × List Char)
  | 0, _ => none
  | fuel + 1, cs =>
    match skip cs with
    | 'n' :: 'u' :: 'l' :: 'l' :: rest => some (.null, rest)
    | 't' :: 'r' :: 'u' :: 'e' :: rest => some (.bool true, rest)
    | 'f' :: 'a' :: 'l' :: 's' :: 'e' :: rest => some (.bool false, rest)
    | '"' :: rest => do
      let (text, rest) ← literal rest
      return (.string text, rest)
    | '[' :: rest =>
      match skip rest with
      | ']' :: rest => some (.array [], rest)
      | rest => do
        let (first, rest) ← readValue fuel rest
        let (more, rest) ← readElements fuel rest
        return (.array (first :: more), rest)
    | '{' :: rest =>
      match skip rest with
      | '}' :: rest => some (.object [], rest)
      | '"' :: rest => do
        let (key, rest) ← readKey rest
        let (first, rest) ← readValue fuel rest
        let (more, rest) ← readMembers fuel rest
        return (.object ((key, first) :: more), rest)
      | _ => none
    | rest => do
      let (n, rest) ← readNumeral rest
      return (.number n, rest)

/-- The elements behind the first one, up to the closing bracket. -/
def readElements : Nat → List Char → Option (List Json × List Char)
  | 0, _ => none
  | fuel + 1, cs =>
    match skip cs with
    | ']' :: rest => some ([], rest)
    | ',' :: rest => do
      let (j, rest) ← readValue fuel rest
      let (more, rest) ← readElements fuel rest
      return (j :: more, rest)
    | _ => none

/-- The members behind the first one, up to the closing brace. -/
def readMembers : Nat → List Char → Option (List (Literal × Json) × List Char)
  | 0, _ => none
  | fuel + 1, cs =>
    match skip cs with
    | '}' :: rest => some ([], rest)
    | ',' :: rest =>
      match skip rest with
      | '"' :: rest => do
        let (key, rest) ← readKey rest
        let (j, rest) ← readValue fuel rest
        let (more, rest) ← readMembers fuel rest
        return ((key, j) :: more, rest)
      | _ => none
    | _ => none

end

/-- The value of a whole text. Its length is fuel enough, since every value takes a character. -/
def ofText? (s : String) : Option Json := do
  let cs := s.toList
  let (j, rest) ← readValue (cs.length + 1) cs
  if (skip rest).isEmpty then some j else none

end WindowTransitions.Json
