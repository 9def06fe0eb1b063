import WindowTransitions.Json.Number

/-! Shapes of values: records, named alternatives and tagged records. A record is an object with its fields by
name or an array with its fields in order; either way its decoder sees one slot for each field. Unknown members of
an object are skipped unless the record is closed, and no known one may stand twice. -/

set_option autoImplicit false

namespace WindowTransitions.Json

/-! ## Scalars -/

def bool? : Json → Option Bool
  | .bool b => some b
  | _ => none

def string? : Json → Option String
  | .string text => text
  | _ => none

/-- Null is nothing; anything else has to decode. -/
def optional? {α : Type} (decode : Json → Option α) : Json → Option (Option α)
  | .null => some none
  | j => (decode j).map some

def list? {α : Type} (decode : Json → Option α) : Json → Option (List α)
  | .array js => js.mapM decode
  | _ => none

/-! ## Records -/

/-- The values given for the fields of a record, in the order of the fields. -/
structure Fields where
  slots : List (Option Json)
  listed : Bool

/-- What an object gives for a field: nothing, or the value of its only member of that name. -/
def slot? (members : List (Literal × Json)) (name : String) : Option (Option Json) :=
  match members.filter (·.1 = some name) with
  | [] => some none
  | [m] => some (some m.2)
  | _ => none

/-- The fields `names` of a record. A `closed` record has no others. -/
def fields? (names : List String) (closed : Bool) : Json → Option Fields
  | .object members => do
    let keys ← members.mapM (·.1)
    if closed && keys.any (!names.contains ·) then none
    return { slots := ← names.mapM (slot? members), listed := false }
  | .array elements =>
    if elements.length ≤ names.length then
      some { slots := elements.map some ++ List.replicate (names.length - elements.length) none, listed := true }
    else none
  | _ => none

namespace Fields

variable {α : Type}

def slot (f : Fields) (i : Nat) : Option Json := f.slots[i]?.join

def required (f : Fields) (i : Nat) (decode : Json → Option α) : Option α := f.slot i >>= decode

/-- A field that has a value when it is left out. -/
def defaulted (f : Fields) (i : Nat) (decode : Json → Option α) (value : α) : Option α :=
  match f.slot i with
  | some j => decode j
  | none => some value

/-- A field that may be null, or left out of an object but not of an array. -/
def optional (f : Fields) (i : Nat) (decode : Json → Option α) : Option (Option α) :=
  match f.slot i with
  | some j => optional? decode j
  | none => if f.listed then none else some none

end Fields

/-! ## Named alternatives -/

/-- One of the values in `names`, by its name alone or as the name with null behind it. -/
def choice? {α : Type} (names : List (String × α)) : Json → Option α
  | .string (some name) => names.lookup name
  | .object [(some name, .null)] => names.lookup name
  | _ => none

/-- As `choice?`, for the fields of tagged records: there an empty object can stand for the null. -/
def looseChoice? {α : Type} (names : List (String × α)) : Json → Option α
  | .object [(some name, .object [])] => names.lookup name
  | j => choice? names j

/-! ## Tagged records -/

mutual

/-- Every literal in the value has a text, every number can be read, and it is nested at most `depth` deep. -/
def readable : Nat → Json → Bool
  | _, .null => true
  | _, .bool _ => true
  | _, .number n => n.single?.isSome
  | _, .string text => text.isSome
  | 0, .array _ => false
  | 0, .object _ => false
  | depth + 1, .array js => allReadable depth js
  | depth + 1, .object ms => membersReadable depth ms

def allReadable : Nat → List Json → Bool
  | _, [] => true
  | depth, j :: js => readable depth j && allReadable depth js

def membersReadable : Nat → List (Literal × Json) → Bool
  | _, [] => true
  | depth, (key, j) :: ms => key.isSome && readable depth j && membersReadable depth ms

end

/-- How deep a text with tagged records may be nested. -/
def depthLimit : Nat := 127

/-- A record that says by a tag which one it is: the tag, and the record without it. In an array the tag comes
first. -/
def tagged? (tag : String) : Json → Option (String × Json)
  | .object members =>
    match members.filter (·.1 = some tag) with
    | [(_, .string (some name))] => some (name, .object (members.filter (·.1 ≠ some tag)))
    | _ => none
  | .array (.string (some name) :: elements) => some (name, .array elements)
  | _ => none

end WindowTransitions.Json
