import WindowTransitions.Surface.Geometry

/-! Batches: the participants of a transition as the authority reports them when it is ready, in compositing order
with the rearmost first. -/

set_option autoImplicit false

namespace WindowTransitions

inductive Kind where
  | unspecified
  | opening
  | closing
  | toFront
  | toBack
  | changing
  | keyguardGoingAway
  deriving DecidableEq

/-- What happens to one participant. `changing` leaves its visibility alone. -/
inductive Mode where
  | opening
  | closing
  | toFront
  | toBack
  | changing
  deriving DecidableEq

namespace Kind

/-- The transition opens something rather than closing something. -/
def isOpening : Kind → Bool
  | .opening | .toFront | .keyguardGoingAway => true
  | _ => false

def name : Kind → String
  | .unspecified => "none"
  | .opening => "open"
  | .closing => "close"
  | .toFront => "to_front"
  | .toBack => "to_back"
  | .changing => "change"
  | .keyguardGoingAway => "keyguard_going_away"

def all : List Kind := [.unspecified, .opening, .closing, .toFront, .toBack, .changing, .keyguardGoingAway]

def names : List (String × Kind) := all.map fun k => (k.name, k)

def toJson (k : Kind) : Json := .ofString k.name

def ofJson? (j : Json) : Option Kind := j.choice? names

end Kind

namespace Mode

def isShowing : Mode → Bool
  | .opening | .toFront => true
  | _ => false

def isHiding : Mode → Bool
  | .closing | .toBack => true
  | _ => false

def name : Mode → String
  | .opening => "open"
  | .closing => "close"
  | .toFront => "to_front"
  | .toBack => "to_back"
  | .changing => "change"

def label : Mode → String
  | .opening => "Open"
  | .closing => "Close"
  | .toFront => "ToFront"
  | .toBack => "ToBack"
  | .changing => "Change"

def all : List Mode := [.opening, .closing, .toFront, .toBack, .changing]

def names : List (String × Mode) := all.map fun m => (m.name, m)

def toJson (m : Mode) : Json := .ofString m.name

def ofJson? (j : Json) : Option Mode := j.choice? names

end Mode

/-! ## Flags -/

structure Flags where
  bits : UInt32
  deriving DecidableEq

namespace Flags

def none : Flags := ⟨0⟩

/-- The participant took over a starting window, so it has visible content already. -/
def startingWindow : Flags := ⟨1⟩

def contains (f g : Flags) : Bool := f.bits &&& g.bits = g.bits

def union (f g : Flags) : Flags := ⟨f.bits ||| g.bits⟩

def isEmpty (f : Flags) : Bool := f.bits = 0

def toJson (f : Flags) : Json := .ofUInt32 f.bits

def ofJson? (j : Json) : Option Flags := j.uint32?.map Flags.mk

end Flags

/-! ## Participants -/

structure Participant where
  surface : Surface
  mode : Mode
  /-- The participant that animates this one, which is then left in place. -/
  parent : Option Surface := none
  startBounds : Rect := Rect.zero
  endBounds : Rect := Rect.zero
  startOffset : Point := Point.origin
  endOffset : Point := Point.origin
  flags : Flags := Flags.none
  deriving DecidableEq

namespace Participant

def isTopLevel (p : Participant) : Bool := p.parent.isNone

def hasStartingWindow (p : Participant) : Bool := p.flags.contains Flags.startingWindow

def toJson (p : Participant) : Json :=
  .record [
    ("surface", p.surface.toJson),
    ("mode", p.mode.toJson),
    ("parent", Json.nullable Surface.toJson p.parent),
    ("start_bounds", p.startBounds.toJson),
    ("end_bounds", p.endBounds.toJson),
    ("start_rel_offset", p.startOffset.toJson),
    ("end_rel_offset", p.endOffset.toJson),
    ("flags", p.flags.toJson)]

def fieldNames : List String :=
  ["surface", "mode", "parent", "start_bounds", "end_bounds", "start_rel_offset", "end_rel_offset", "flags"]

def ofJson? (j : Json) : Option Participant := do
  let f ← j.fields? fieldNames false
  return {
    surface := ← f.required 0 Surface.ofJson?
    mode := ← f.required 1 Mode.ofJson?
    parent := ← f.defaulted 2 (Json.optional? Surface.ofJson?) none
    startBounds := ← f.defaulted 3 Rect.ofJson? Rect.zero
    endBounds := ← f.defaulted 4 Rect.ofJson? Rect.zero
    startOffset := ← f.defaulted 5 Point.ofJson? Point.origin
    endOffset := ← f.defaulted 6 Point.ofJson? Point.origin
    flags := ← f.defaulted 7 Flags.ofJson? Flags.none }

end Participant

/-! ## Batches -/

structure Batch where
  kind : Kind
  /-- The common parent of the top-level participants. Without one there is nothing to animate. -/
  root : Option Surface := none
  rootOffset : Point := Point.origin
  /-- The rearmost first. -/
  participants : List Participant := []
  deriving DecidableEq

namespace Batch

def hasRoot (b : Batch) : Bool := b.root.isSome

def label (b : Batch) : String :=
  let root := match b.root with
    | some root => root.label
    | none => "invalid"
  let participants := b.participants.map fun p => p.surface.label ++ ":" ++ p.mode.label
  "\x7bkind=" ++ b.kind.name ++ " root=" ++ root ++ " changes=[" ++ ", ".intercalate participants ++ "]\x7d"

def toJson (b : Batch) : Json :=
  .record [
    ("kind", b.kind.toJson),
    ("root", Json.nullable Surface.toJson b.root),
    ("root_offset", b.rootOffset.toJson),
    ("changes", .array (b.participants.map Participant.toJson))]

def ofJson? (j : Json) : Option Batch := do
  let f ← j.fields? ["kind", "root", "root_offset", "changes"] false
  return {
    kind := ← f.required 0 Kind.ofJson?
    root := ← f.defaulted 1 (Json.optional? Surface.ofJson?) none
    rootOffset := ← f.defaulted 2 Point.ofJson? Point.origin
    participants := ← f.defaulted 3 (Json.list? Participant.ofJson?) [] }

end Batch

/-! ## Triggers -/

/-- The task whose action asked for a transition. -/
structure Trigger where
  task : UInt32
  display : UInt32 := 0
  visible : Bool := false
  topActivity : Option String := none
  deriving DecidableEq

namespace Trigger

def toJson (t : Trigger) : Json :=
  .record [
    ("task_id", .ofUInt32 t.task),
    ("display_id", .ofUInt32 t.display),
    ("visible", .bool t.visible),
    ("top_activity", Json.nullable Json.ofString t.topActivity)]

def ofJson? (j : Json) : Option Trigger := do
  let f ← j.fields? ["task_id", "display_id", "visible", "top_activity"] false
  return {
    task := ← f.required 0 Json.uint32?
    display := ← f.defaulted 1 Json.uint32? 0
    visible := ← f.defaulted 2 Json.bool? false
    topActivity := ← f.defaulted 3 (Json.optional? Json.string?) none }

end Trigger

end WindowTransitions
