import WindowTransitions.Surface.Geometry

/-! Surface transactions: edits in the order they are submitted, to be applied as a unit. An edit writes one
property of one surface, and the last write of a property wins. -/

set_option autoImplicit false

namespace WindowTransitions

inductive Write where
  | visible (shown : Bool)
  /-- No parent detaches the surface. -/
  | parent (surface : Option Surface)
  | position (point : Point)
  /-- Relative height under the parent; a higher layer is in front. -/
  | layer (z : Int32)
  | alpha (a : Float32)
  | matrix (m : Matrix)
  deriving DecidableEq

structure Edit where
  surface : Surface
  write : Write
  deriving DecidableEq

abbrev Transaction := List Edit

/-! ## What is written -/

namespace Write

def visible? : Write → Option Bool
  | .visible shown => some shown
  | _ => none

def parent? : Write → Option (Option Surface)
  | .parent surface => some surface
  | _ => none

def position? : Write → Option Point
  | .position point => some point
  | _ => none

def layer? : Write → Option Int32
  | .layer z => some z
  | _ => none

def alpha? : Write → Option Float32
  | .alpha a => some a
  | _ => none

def matrix? : Write → Option Matrix
  | .matrix m => some m
  | _ => none

/-- An alpha is valid from zero to one. -/
def isValid : Write → Bool
  | .alpha a => 0.0 ≤ a && a ≤ 1.0
  | _ => true

end Write

/-! ## Texts -/

def Edit.label (e : Edit) : String :=
  let surface := e.surface.label
  match e.write with
  | .visible true => "show " ++ surface
  | .visible false => "hide " ++ surface
  | .parent (some parent) => "reparent " ++ surface ++ " -> " ++ parent.label
  | .parent none => "detach " ++ surface
  | .position point => "position " ++ surface ++ " " ++ point.label
  | .layer z => "layer " ++ surface ++ " " ++ z.toInt.repr
  | .alpha a => "alpha " ++ surface ++ " " ++ Decimal.plain.text a
  | .matrix m => "matrix " ++ surface ++ " " ++ m.label

/-! ## JSON -/

namespace Edit

def toJson (e : Edit) : Json :=
  let edit (op : String) (more : List (String × Json)) : Json :=
    .record (("op", .ofString op) :: ("surface", e.surface.toJson) :: more)
  match e.write with
  | .visible true => edit "show" []
  | .visible false => edit "hide" []
  | .parent parent => edit "reparent" [("parent", Json.nullable Surface.toJson parent)]
  | .position point => edit "set_position" [("position", point.toJson)]
  | .layer z => edit "set_layer" [("layer", .ofInt32 z)]
  | .alpha a => edit "set_alpha" [("alpha", .ofSingle a)]
  | .matrix m => edit "set_matrix" [("matrix", m.toJson)]

/-- The edit of a tag whose record has the fields `surface` and perhaps one more. -/
def ofFields? (op : String) (rest : Json) : Option Edit := do
  let fields (more : List String) := rest.fields? ("surface" :: more) false
  let edit (f : Json.Fields) (write : Write) : Option Edit :=
    return ⟨← f.required 0 Surface.ofJson?, write⟩
  match op with
  | "show" => edit (← fields []) (.visible true)
  | "hide" => edit (← fields []) (.visible false)
  | "reparent" =>
    let f ← fields ["parent"]
    edit f (.parent (← f.optional 1 Surface.ofJson?))
  | "set_position" =>
    let f ← fields ["position"]
    edit f (.position (← f.required 1 Point.ofJson?))
  | "set_layer" =>
    let f ← fields ["layer"]
    edit f (.layer (← f.required 1 Json.int32?))
  | "set_alpha" =>
    let f ← fields ["alpha"]
    edit f (.alpha (← f.required 1 Json.single?))
  | "set_matrix" =>
    let f ← fields ["matrix"]
    edit f (.matrix (← f.required 1 Matrix.ofJson?))
  | _ => none

def ofJson? (j : Json) : Option Edit := do
  if !j.readable Json.depthLimit then none
  let (op, rest) ← j.tagged? "op"
  ofFields? op rest

end Edit

/-! ## Transactions -/

inductive Transaction.Fault where
  | unreadable
  | invalidAlpha (surface : Surface) (alpha : Float32)
  deriving DecidableEq

def Transaction.Fault.message : Transaction.Fault → String
  | .unreadable => "transaction json parse error"
  | .invalidAlpha surface alpha =>
    "alpha " ++ Decimal.plain.text alpha ++ " for " ++ surface.label ++ " is outside [0, 1]"

namespace Transaction

def label (t : Transaction) : String := "[" ++ "; ".intercalate (t.map Edit.label) ++ "]"

def toJson (t : Transaction) : Json := .array (t.map Edit.toJson)

def ofJson? (j : Json) : Option Transaction := do
  if !j.readable Json.depthLimit then none
  j.list? Edit.ofJson?

/-- The first edit with an invalid alpha is the fault. -/
def validate : Transaction → Except Fault Unit
  | [] => .ok ()
  | e :: rest =>
    match e.write with
    | .alpha a => if e.write.isValid then validate rest else .error (.invalidAlpha e.surface a)
    | _ => validate rest

def ofText (text : String) : Except Fault Transaction :=
  match (Json.ofText? text).bind ofJson? with
  | none => .error .unreadable
  | some t => (validate t).map fun _ => t

/-! ## The last write wins -/

/-- The last write to `s` that `pick` recognises. -/
def last {α : Type} (t : Transaction) (s : Surface) (pick : Write → Option α) : Option α :=
  t.reverse.findSome? fun e => if e.surface = s then pick e.write else none

def ofSurface (t : Transaction) (s : Surface) : Transaction := t.filter (·.surface = s)

def alphaOf (t : Transaction) (s : Surface) : Option Float32 := t.last s Write.alpha?

def layerOf (t : Transaction) (s : Surface) : Option Int32 := t.last s Write.layer?

def positionOf (t : Transaction) (s : Surface) : Option Point := t.last s Write.position?

def matrixOf (t : Transaction) (s : Surface) : Option Matrix := t.last s Write.matrix?

/-- A parent, no parent after a detach, or nothing when untouched. -/
def parentOf (t : Transaction) (s : Surface) : Option (Option Surface) := t.last s Write.parent?

def visibilityOf (t : Transaction) (s : Surface) : Option Bool := t.last s Write.visible?

theorem last_append {α : Type} (a b : Transaction) (s : Surface) (pick : Write → Option α) :
    last (a ++ b) s pick = (last b s pick).or (last a s pick) := by
  simp [last, List.findSome?_append]

end Transaction

end WindowTransitions
