import WindowTransitions.Shell.Basic

/-! Starting transitions. A request under a placeholder is negotiated with the handlers before the authority starts
it; a direct start names its handler itself. Either way the token that the authority returns becomes the active
one, unless it is active already. -/

set_option autoImplicit false

namespace WindowTransitions.Control

variable {η α ε : Type}

/-- Enter a transition that the authority has started into the table, in a generation of its own. -/
def track (token : Token) (kind : Kind) (assigned : Option HandlerId) : Control η α ε Unit := do
  modify fun w => { w with generation := w.generation + 1 }
  let w ← get
  match w.table.insert token { kind, assigned, generation := w.generation } with
  | .error fault => throw fault
  | .ok table =>
    set { w with table }
    modify (·.report (.started token kind assigned))

variable [Authority α]

/-- The authority asks for a transition under a placeholder. -/
def request [Handler η] (kind : Kind) (placeholder : Token) (trigger : Option Trigger) :
    Control η α ε Token := do
  let w ← get
  if w.table.contains placeholder then throw (.duplicateStart placeholder)
  let n := w.handlers.negotiate kind placeholder trigger
  set (w.withVisits n.handlers n.visits)
  let token ← callStart kind (some placeholder) (n.claim.map (·.2))
  track token kind (n.claim.map (·.1))
  return token

/-- Start a transition for `handler`, if one is named, without asking anybody. -/
def start (kind : Kind) (containers : Container.Transaction) (handler : Option HandlerId) :
    Control η α ε Token := do
  if let some id := handler then
    if !(← get).handlers.contains id then throw (.unknownHandler id)
  let token ← callStart kind none (some containers)
  track token kind handler
  return token

end WindowTransitions.Control
