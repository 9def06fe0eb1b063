import WindowTransitions.Decimal.Numeral
import WindowTransitions.Json.Literal

/-! JSON values with their members in order and their numbers as numerals, and the compact written form. -/

set_option autoImplicit false

namespace WindowTransitions

open Decimal (Numeral)

inductive Json where
  | null
  | bool (b : Bool)
  | number (n : Numeral)
  | string (text : Json.Literal)
  | array (elements : List Json)
  | object (members : List (Json.Literal × Json))

namespace Json

/-! ## Building -/

def ofString (s : String) : Json := .string (some s)

def ofNat (n : Nat) : Json := .number (.ofNat n)

def ofInt (i : Int) : Json := .number (.ofInt i)

/-- An object with its fields in the order given. -/
def record (fields : List (String × Json)) : Json :=
  .object (fields.map fun f => (some f.1, f.2))

def nullable {α : Type} (toJson : α → Json) : Option α → Json
  | none => .null
  | some a => toJson a

/-! ## The compact written form -/

mutual

def chars : Json → List Char
  | .null => ['n', 'u', 'l', 'l']
  | .bool true => ['t', 'r', 'u', 'e']
  | .bool false => ['f', 'a', 'l', 's', 'e']
  | .number n => n.chars true
  | .string text => text.chars
  | .array [] => ['[', ']']
  | .array (j :: js) => '[' :: (chars j ++ elementsChars js)
  | .object [] => ['{', '}']
  | .object ((key, j) :: ms) => '{' :: (key.chars ++ ':' :: (chars j ++ membersChars ms))

/-- The elements of an array behind the first one, with the closing bracket. -/
def elementsChars : List Json → List Char
  | [] => [']']
  | j :: js => ',' :: (chars j ++ elementsChars js)

/-- The members of an object behind the first one, with the closing brace. -/
def membersChars : List (Literal × Json) → List Char
  | [] => ['}']
  | (key, j) :: ms => ',' :: (key.chars ++ ':' :: (chars j ++ membersChars ms))

end

def text (j : Json) : String := String.ofList j.chars

end Json

end WindowTransitions
