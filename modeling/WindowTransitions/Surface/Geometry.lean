import WindowTransitions.Json.Reader
import WindowTransitions.Json.Shape

/-! Surfaces and the little geometry that transitions need: points, bounds and two-by-two transforms, each with
its JSON form. Coordinates are 32-bit words. -/

set_option autoImplicit false

namespace WindowTransitions

/-- A surface of the compositor, known by its number. -/
structure Surface where
  number : UInt64
  deriving DecidableEq

structure Point where
  x : Int32
  y : Int32
  deriving DecidableEq

/-- Bounds in display coordinates; `right` and `bottom` are outside. -/
structure Rect where
  left : Int32
  top : Int32
  right : Int32
  bottom : Int32
  deriving DecidableEq

structure Matrix where
  dsdx : Float32
  dtdx : Float32
  dtdy : Float32
  dsdy : Float32
  deriving DecidableEq

/-! ## Surfaces -/

namespace Surface

def label (s : Surface) : String := "surface:" ++ s.number.toNat.repr

def toJson (s : Surface) : Json := .ofUInt64 s.number

def ofJson? (j : Json) : Option Surface := j.uint64?.map Surface.mk

end Surface

/-! ## Points -/

namespace Point

def origin : Point := ⟨0, 0⟩

instance : Sub Point := ⟨fun p q => ⟨p.x - q.x, p.y - q.y⟩⟩

def label (p : Point) : String := "(" ++ p.x.toInt.repr ++ ", " ++ p.y.toInt.repr ++ ")"

def toJson (p : Point) : Json := .record [("x", .ofInt32 p.x), ("y", .ofInt32 p.y)]

def ofJson? (j : Json) : Option Point := do
  let f ← j.fields? ["x", "y"] false
  return { x := ← f.required 0 Json.int32?, y := ← f.required 1 Json.int32? }

end Point

/-! ## Bounds -/

namespace Rect

def zero : Rect := ⟨0, 0, 0, 0⟩

def ofOriginSize (origin : Point) (width height : Int32) : Rect :=
  ⟨origin.x, origin.y, origin.x + width, origin.y + height⟩

def origin (r : Rect) : Point := ⟨r.left, r.top⟩

def width (r : Rect) : Int32 := r.right - r.left

def height (r : Rect) : Int32 := r.bottom - r.top

def isEmpty (r : Rect) : Bool := r.width ≤ 0 || r.height ≤ 0

def toJson (r : Rect) : Json :=
  .record [("left", .ofInt32 r.left), ("top", .ofInt32 r.top), ("right", .ofInt32 r.right),
    ("bottom", .ofInt32 r.bottom)]

def ofJson? (j : Json) : Option Rect := do
  let f ← j.fields? ["left", "top", "right", "bottom"] false
  return {
    left := ← f.required 0 Json.int32?
    top := ← f.required 1 Json.int32?
    right := ← f.required 2 Json.int32?
    bottom := ← f.required 3 Json.int32? }

end Rect

/-! ## Transforms -/

namespace Matrix

def identity : Matrix := ⟨1.0, 0.0, 0.0, 1.0⟩

def scale (sx sy : Float32) : Matrix := ⟨sx, 0.0, 0.0, sy⟩

def entries (m : Matrix) : List Float32 := [m.dsdx, m.dtdx, m.dtdy, m.dsdy]

/-- Equality of the entries as numbers, so a negative zero is a zero here. -/
def isIdentity (m : Matrix) : Bool := m.entries == identity.entries

def label (m : Matrix) : String :=
  "[" ++ ", ".intercalate (m.entries.map Decimal.pointed.text) ++ "]"

def toJson (m : Matrix) : Json := .array (m.entries.map Json.ofSingle)

def ofJson? : Json → Option Matrix
  | .array [a, b, c, d] => return ⟨← a.single?, ← b.single?, ← c.single?, ← d.single?⟩
  | _ => none

end Matrix

end WindowTransitions
