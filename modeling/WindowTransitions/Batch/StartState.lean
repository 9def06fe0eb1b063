import WindowTransitions.Batch.Basic
import WindowTransitions.Surface.Transaction

/-! The start state of a batch: the edits that bring every participant into the position, layer, visibility and
alpha from which it is animated. Top-level participants move under the root of the batch. Those of the batch's own
direction are raised to the top and the others sent to the bottom; an opening batch hides what it opens by a zero
alpha unless a starting window shows there already. -/

set_option autoImplicit false

namespace WindowTransitions.Batch

/-- The layer of the participant at `index` when it is raised above all others. -/
def topLayer (count index : Nat) : Int32 := Int32.ofNat (count - index)

/-- The layer of the participant at `index` when it is sent below. -/
def bottomLayer (index : Nat) : Int32 := -Int32.ofNat index

/-- The start bounds' origin as seen from the root. -/
def positionInRoot (b : Batch) (p : Participant) : Point := p.startBounds.origin - b.rootOffset

def childWrites (p : Participant) : List Write :=
  if p.mode.isShowing || p.mode = .changing then
    [.visible true, .matrix Matrix.identity, .alpha 1.0, .position p.endOffset]
  else []

/-- Writes of layer, alpha and visibility to a top-level participant. -/
def modeWrites (b : Batch) (index : Nat) (p : Participant) : List Write :=
  let top := topLayer b.participants.length index
  let bottom := bottomLayer index
  match p.mode with
  | .opening | .toFront =>
    .visible true :: .matrix Matrix.identity ::
      if b.kind.isOpening then [.layer top, .alpha (if p.hasStartingWindow then 1.0 else 0.0)]
      else [.layer bottom, .alpha 1.0]
  | .closing | .toBack => [.layer (if b.kind.isOpening then bottom else top)]
  | .changing => [.layer top]

def participantWrites (b : Batch) (index : Nat) (p : Participant) : List Write :=
  if p.isTopLevel then
    .parent b.root :: .position (b.positionInRoot p) :: b.modeWrites index p
  else childWrites p

/-- The start state: the root is shown, then the participants are set up from the front to the rear. -/
def startState (b : Batch) : Transaction :=
  (b.root.toList.map fun root => ⟨root, .visible true⟩) ++
    b.participants.zipIdx.reverse.flatMap fun (p, index) =>
      (b.participantWrites index p).map (Edit.mk p.surface)

/-- What the default animation fades, from the front to the rear, and whether it fades in: the top-level
participants whose mode is the direction of the batch, less those that show a starting window. -/
def fadeTargets (b : Batch) : List (Surface × Bool) :=
  (b.participants.reverse.filter Participant.isTopLevel).filterMap fun p =>
    if b.kind.isOpening && p.mode.isShowing then
      if p.hasStartingWindow then none else some (p.surface, true)
    else if !b.kind.isOpening && p.mode.isHiding then some (p.surface, false)
    else none

end WindowTransitions.Batch
