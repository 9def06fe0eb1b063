import WindowTransitions.Batch.Basic
import WindowTransitions.Container
import WindowTransitions.Lifecycle.Id
import WindowTransitions.Surface.Transaction

/-! Handlers and what reaches the shell from outside. A handler may claim a request before the transition exists
and may accept it when it is ready; with every offer it gets a ticket, and presenting the ticket reports its
animation as done. -/

set_option autoImplicit false

namespace WindowTransitions

/-- The right to report the animation of one transition as done. -/
structure Ticket where
  token : Token
  handler : HandlerId
  generation : UInt64
  deriving DecidableEq

inductive Message where
  /-- The authority has the batch of a transition ready. -/
  | ready (token : Token) (batch : Batch) (start : Transaction)
  /-- The authority asks for a transition under a placeholder. -/
  | request (kind : Kind) (token : Token) (trigger : Option Trigger)
  | handlerDone (ticket : Ticket)
  | fadeDone (token : Token) (animation : AnimationId)
  | shutdown
  deriving DecidableEq

def Message.token? : Message → Option Token
  | .ready token _ _ => some token
  | .request _ token _ => some token
  | .handlerDone ticket => some ticket.token
  | .fadeDone token _ => some token
  | .shutdown => none

/-- What a handler does when it is called: an answer, the handler afterwards, and messages it posts meanwhile. -/
structure Reply (η α : Type) where
  answer : α
  handler : η
  posted : List Message := []

/-- The conduct of handlers whose state is an `η`. -/
class Handler (η : Type) where
  name : η → String
  /-- Claim a request by the container changes that go with it, or leave it to the next handler. -/
  request : η → Kind → Token → Option Trigger → Reply η (Option Container.Transaction)
  /-- Accept or decline a transition, and edit its start transaction. -/
  offer : η → Ticket → Batch → Transaction → Reply η (Bool × Transaction)

end WindowTransitions
