import WindowTransitions.Shell.Basic

/-! Finishing transitions. A transition finishes when it is dispatched and none of its default animations runs:
it leaves the table and the authority is told. A ticket counts only if its handler owns the transition in the
ticket's generation. -/

set_option autoImplicit false

namespace WindowTransitions.Control

variable {η α ε : Type} [Authority α]

/-- Finish a transition, unless it is not dispatched yet or default animations still run. -/
def finish (token : Token) : Control η α ε Unit := do
  let r ← expect token
  if r.phase ≠ .dispatching ∧ r.phase ≠ .animating then return
  if r.isFading then return
  advance token .finished
  modify fun w => { w with table := w.table.remove token }
  modify (·.report (.finished token))
  callFinish token

def handlerDone (ticket : Ticket) : Control η α ε Unit := do
  match (← get).table.get? ticket.token with
  | some r =>
    if r.owner = some ticket.handler ∧ r.generation = ticket.generation then finish ticket.token
  | none => return

def fadeDone (token : Token) (animation : AnimationId) : Control η α ε Unit := do
  let r ← expect token
  match r.endFade? animation with
  | none => return
  | some r =>
    put token r
    finish token

end WindowTransitions.Control
