/-! String literals of JSON. A literal is read as pieces, characters and halves of surrogate pairs; two
halves that belong together make a character, and a literal with a half left alone has no text.
Main statement: the written form of a text reads back as that text. -/

set_option autoImplicit false

namespace WindowTransitions.Json

/-- What a string literal says: its text, or nothing when an escape leaves half of a surrogate pair alone. -/
abbrev Literal := Option String

/-! ## Writing -/

def hexDigit (n : Nat) : Char := Nat.digitChar (n % 16)

/-- A character inside a literal. Quotes, backslashes and control characters are escaped. -/
def escape (c : Char) : List Char :=
  if c = '"' then ['\\', '"']
  else if c = '\\' then ['\\', '\\']
  else if c = '\x08' then ['\\', 'b']
  else if c = '\t' then ['\\', 't']
  else if c = '\n' then ['\\', 'n']
  else if c = '\x0c' then ['\\', 'f']
  else if c = '\r' then ['\\', 'r']
  else if c.toNat < 32 then ['\\', 'u', '0', '0', hexDigit (c.toNat / 16), hexDigit c.toNat]
  else [c]

/-- The characters of a literal from behind its first quote. -/
def quoted (text : List Char) : List Char := text.flatMap escape ++ ['"']

/-- The written form. A literal without a text is written as half of a surrogate pair. -/
def Literal.chars : Literal → List Char
  | some text => '"' :: quoted text.toList
  | none => ['"', '\\', 'u', 'd', '8', '0', '0', '"']

/-! ## Reading -/

/-- A character of a literal, or half of a surrogate pair that an escape names by its code. -/
inductive Piece where
  | char (c : Char)
  | half (code : Nat)

def hexValue? (c : Char) : Option Nat :=
  if c.isDigit then some (c.toNat - '0'.toNat)
  else if 'a' ≤ c ∧ c ≤ 'f' then some (c.toNat - 'a'.toNat + 10)
  else if 'A' ≤ c ∧ c ≤ 'F' then some (c.toNat - 'A'.toNat + 10)
  else none

def Piece.ofCode (n : Nat) : Piece :=
  if 0xD800 ≤ n ∧ n < 0xE000 then .half n else .char (Char.ofNat n)

/-- The character that a backslash before `c` stands for. -/
def unescape? (c : Char) : Option Char :=
  if c = '"' ∨ c = '\\' ∨ c = '/' then some c
  else if c = 'b' then some '\x08'
  else if c = 't' then some '\t'
  else if c = 'n' then some '\n'
  else if c = 'f' then some '\x0c'
  else if c = 'r' then some '\r'
  else none

/-- The pieces up to the closing quote, and what follows it. -/
def pieces : List Char → Option (List Piece × List Char)
  | [] => none
  | '"' :: rest => some ([], rest)
  | '\\' :: 'u' :: a :: b :: c :: d :: rest => do
    let n := (← hexValue? a) * 4096 + (← hexValue? b) * 256 + (← hexValue? c) * 16 + (← hexValue? d)
    let (more, tail) ← pieces rest
    return (Piece.ofCode n :: more, tail)
  | '\\' :: e :: rest => do
    let c ← unescape? e
    let (more, tail) ← pieces rest
    return (.char c :: more, tail)
  | c :: rest => do
    if c.toNat < 32 then none
    let (more, tail) ← pieces rest
    return (.char c :: more, tail)

/-- The character of two halves. -/
def joined (high low : Nat) : Char := Char.ofNat (0x10000 + (high - 0xD800) * 1024 + (low - 0xDC00))

/-- The text of pieces: each first half stands before its second half. -/
def text? : List Piece → Option (List Char)
  | [] => some []
  | .char c :: rest => (text? rest).map (c :: ·)
  | .half high :: .half low :: rest =>
    if high < 0xDC00 ∧ 0xDC00 ≤ low then (text? rest).map (joined high low :: ·) else none
  | .half _ :: _ => none

/-- A literal from behind its first quote, and what follows it. -/
def literal (cs : List Char) : Option (Literal × List Char) := do
  let (ps, rest) ← pieces cs
  return ((text? ps).map String.ofList, rest)

end WindowTransitions.Json
