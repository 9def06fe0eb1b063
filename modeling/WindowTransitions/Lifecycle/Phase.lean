import WindowTransitions.Batch.Basic
import WindowTransitions.Config
import WindowTransitions.Lifecycle.Id

/-! Phases of a transition, the events that report them, and the faults of a life out of order. A transition
waits for its batch, is being dispatched, is animated and finishes; it may finish straight from dispatching. -/

set_option autoImplicit false

namespace WindowTransitions

inductive Phase where
  | pending
  | dispatching
  | animating
  | finished
  deriving DecidableEq

namespace Phase

def name : Phase → String
  | .pending => "pending_request"
  | .dispatching => "ready_dispatching"
  | .animating => "animating"
  | .finished => "finished"

def label : Phase → String
  | .pending => "PendingRequest"
  | .dispatching => "ReadyDispatching"
  | .animating => "Animating"
  | .finished => "Finished"

def all : List Phase := [.pending, .dispatching, .animating, .finished]

def names : List (String × Phase) := all.map fun p => (p.name, p)

def toJson (p : Phase) : Json := .ofString p.name

def ofJson? (j : Json) : Option Phase := j.choice? names

/-- May `q` follow `p`? -/
def precedes (p q : Phase) : Bool :=
  match p, q with
  | .pending, .dispatching => true
  | .dispatching, .animating => true
  | .dispatching, .finished => true
  | .animating, .finished => true
  | _, _ => false

end Phase

/-! ## Events -/

/-- What is reported about the life of a transition. -/
inductive Event where
  | started (token : Token) (kind : Kind) (assigned : Option HandlerId)
  | phaseChanged (token : Token) (source target : Phase)
  /-- Dispatch is settled. Without an owner, `fades` default animations run. -/
  | dispatched (token : Token) (owner : Option HandlerId) (fades : Nat)
  | finished (token : Token)
  deriving DecidableEq

namespace Event

def token : Event → Token
  | .started token _ _ => token
  | .phaseChanged token _ _ => token
  | .dispatched token _ _ => token
  | .finished token => token

def toJson (e : Event) : Json :=
  let event (name : String) (more : List (String × Json)) : Json :=
    .record (("event", .ofString name) :: ("token", e.token.toJson) :: more)
  match e with
  | .started _ kind assigned =>
    event "started" [("kind", kind.toJson), ("assigned", Json.nullable HandlerId.toJson assigned)]
  | .phaseChanged _ source target => event "state_changed" [("from", source.toJson), ("to", target.toJson)]
  | .dispatched _ owner fades =>
    event "dispatched" [("owner", Json.nullable HandlerId.toJson owner), ("default_animations", .ofNat fades)]
  | .finished _ => event "finished" []

/-- The event of a tag whose record has the field `token` and perhaps more. -/
def ofFields? (name : String) (rest : Json) : Option Event := do
  let fields (more : List String) := rest.fields? ("token" :: more) false
  match name with
  | "started" =>
    let f ← fields ["kind", "assigned"]
    return .started (← f.required 0 Token.ofJson?) (← f.required 1 (Json.looseChoice? Kind.names))
      (← f.optional 2 HandlerId.ofJson?)
  | "state_changed" =>
    let f ← fields ["from", "to"]
    return .phaseChanged (← f.required 0 Token.ofJson?) (← f.required 1 (Json.looseChoice? Phase.names))
      (← f.required 2 (Json.looseChoice? Phase.names))
  | "dispatched" =>
    let f ← fields ["owner", "default_animations"]
    return .dispatched (← f.required 0 Token.ofJson?) (← f.optional 1 HandlerId.ofJson?)
      (← f.required 2 (Json.below? UInt64.size))
  | "finished" =>
    let f ← fields []
    return .finished (← f.required 0 Token.ofJson?)
  | _ => none

def ofJson? (j : Json) : Option Event := do
  if !j.readable Json.depthLimit then none
  let (name, rest) ← j.tagged? "event"
  ofFields? name rest

end Event

/-! ## Faults -/

/-- What can go wrong between the authority, the shell and its users. -/
inductive Fault where
  /-- News of a token that is not active; `active` are those that are. -/
  | unknownTransition (token : Token) (active : List Token)
  /-- A batch for a transition that has had one. -/
  | duplicateReady (token : Token)
  /-- A start under a token that is active. -/
  | duplicateStart (token : Token)
  | illegalPhaseChange (token : Token) (source target : Phase)
  | unknownHandler (handler : HandlerId)
  /-- Nobody takes messages any more. -/
  | controlClosed
  | config (reason : String)
  deriving DecidableEq

namespace Fault

def message : Fault → String
  | .unknownTransition token active =>
    "non-active transition " ++ token.label ++ ", expecting one of " ++ Token.listLabel active
  | .duplicateReady token => "got a duplicate transition ready call for " ++ token.label
  | .duplicateStart token => "transition already started " ++ token.label
  | .illegalPhaseChange token source target =>
    "illegal state change for " ++ token.label ++ ": " ++ source.label ++ " -> " ++ target.label
  | .unknownHandler handler => "handler not registered: " ++ handler.label
  | .controlClosed => "transition control sequence closed"
  | .config reason => "invalid transitions config: " ++ reason

/-- The authority and the shell disagree about which transitions there are. -/
def isProtocolViolation : Fault → Bool
  | .unknownTransition _ _ | .duplicateReady _ | .duplicateStart _ => true
  | _ => false

def category : Fault → String
  | .unknownTransition _ _ | .duplicateReady _ | .duplicateStart _ => "protocol"
  | .illegalPhaseChange _ _ _ => "state"
  | .unknownHandler _ => "registry"
  | .controlClosed => "channel"
  | .config _ => "config"

def ofConfig (f : Config.Fault) : Fault := .config f.reason

end Fault

end WindowTransitions
