import WindowTransitions.Surface.Geometry

/-! Window containers and the changes of their hierarchy that are proposed along with the start of a transition. -/

set_option autoImplicit false

namespace WindowTransitions

/-- A container of windows, such as a task or a display area, known by its number. -/
structure Container where
  number : UInt32
  deriving DecidableEq

namespace Container

def label (c : Container) : String := "container:" ++ c.number.toNat.repr

def toJson (c : Container) : Json := .ofUInt32 c.number

def ofJson? (j : Json) : Option Container := j.uint32?.map Container.mk

inductive Change where
  | order (onTop : Bool)
  | bounds (rect : Rect)
  | hidden (hidden : Bool)
  deriving DecidableEq

structure Edit where
  container : Container
  change : Change
  deriving DecidableEq

abbrev Transaction := List Edit

/-! ## JSON -/

namespace Edit

def toJson (e : Edit) : Json :=
  let edit (op name : String) (value : Json) : Json :=
    .record [("op", .ofString op), ("container", e.container.toJson), (name, value)]
  match e.change with
  | .order onTop => edit "reorder" "on_top" (.bool onTop)
  | .bounds rect => edit "set_bounds" "bounds" rect.toJson
  | .hidden hidden => edit "set_hidden" "hidden" (.bool hidden)

/-- The edit of a tag whose record has the fields `container` and one more. -/
def ofFields? (op : String) (rest : Json) : Option Edit :=
  let edit {α : Type} (name : String) (decode : Json → Option α) (change : α → Change) : Option Edit := do
    let f ← rest.fields? ["container", name] false
    return { container := ← f.required 0 Container.ofJson?, change := change (← f.required 1 decode) }
  match op with
  | "reorder" => edit "on_top" Json.bool? .order
  | "set_bounds" => edit "bounds" Rect.ofJson? .bounds
  | "set_hidden" => edit "hidden" Json.bool? .hidden
  | _ => none

def ofJson? (j : Json) : Option Edit := do
  if !j.readable Json.depthLimit then none
  let (op, rest) ← j.tagged? "op"
  ofFields? op rest

end Edit

namespace Transaction

def toJson (t : Transaction) : Json := .array (t.map Edit.toJson)

def ofJson? (j : Json) : Option Transaction := do
  if !j.readable Json.depthLimit then none
  j.list? Edit.ofJson?

end Transaction

end Container

end WindowTransitions
