import WindowTransitions.Rehearsal.Cast
import WindowTransitions.Shell.Queue

/-! Rehearsals: one shell with its cast, driven by commands. A command answers and leaves a snapshot of what it
did. Once the shell is gone, what needs it is refused, while messages are lost and jobs and tickets live on. -/

set_option autoImplicit false

namespace WindowTransitions.Rehearsal

abbrev Troupe := Shell Actor Issuer Pace

structure Session where
  shell : Troupe
  /-- How often the shell registered with the authority. -/
  players : Nat := 0

/-! ## Commands and answers -/

inductive JobAct where
  | look
  | frame (fraction : Float32)
  | conclude (how : Ending)

inductive Command where
  | addHandler (actor : Actor)
  | request (kind : Kind) (token : Token) (trigger : Option Trigger)
  | start (kind : Kind) (containers : Container.Transaction) (handler : Option HandlerId)
  | ready (token : Token) (batch : Batch) (start : Transaction)
  | post (message : Message)
  | closed
  | process (message : Message)
  | drain
  | run
  | frameAll (fraction : Float32)
  | finishOldest
  | concludeAll (how : Ending)
  | job (index : Nat) (act : JobAct)
  | present (handler : HandlerId) (index : Nat) (drop : Bool)
  | register
  | query (token : Token)
  | handlers (id : HandlerId)
  | describe
  | config
  | dropShell

inductive Answer where
  | nothing
  | ok
  | pending
  | fault (f : Fault)
  | noShell
  | handler (id : HandlerId)
  | token (token : Token)
  | flag (b : Bool)
  | count (n : Nat)
  /-- A drain stopped at its limit, and messages are left. -/
  | cutShort (handled : Nat)
  | processed (goesOn : Bool) (token : Option Token)
  | job (job : Job)
  | registered (done : Bool) (players : Nat)
  | record (record : Option Record)
  | handlers (count : Nat) (contains : Bool) (name : Option String)
  | text (text : String)
  | config (config : Config)

/-! ## Performing commands -/

namespace Session

/-- A session whose handlers are registered in their order. -/
def opening (config : Config) (authority : Issuer) (executor : Pace) (actors : List Actor) : Session where
  shell := { config, authority, executor, handlers := actors.reverse }

def onStage (s : Session) (f : Stage → Stage) : Session :=
  { s with shell := { s.shell with stage := f s.shell.stage } }

def perform {β : Type} (s : Session) (operation : Control Actor Issuer Pace β) (answer : β → Answer) :
    Answer × Session :=
  match operation.run s.shell with
  | .ok b shell => (answer b, { s with shell })
  | .error f shell => (.fault f, { s with shell })

/-- Let an actor present or throw away one of its tickets. -/
def present (s : Session) (id : HandlerId) (index : Nat) (drop : Bool) : Answer × Session :=
  match s.shell.handlers.get? id with
  | none => (.nothing, s)
  | some actor =>
    let place := actor.nextTicket index
    match actor.kept[place]? with
    | none => (.nothing, s)
    | some ticket =>
      let actor := { actor with kept := actor.kept.eraseIdx place }
      let s := { s with shell := { s.shell with handlers := s.shell.handlers.put id actor } }
      let s := if drop && actor.mayDrop then s else s.onStage (·.post (.handlerDone ticket))
      (.token ticket.token, s)

def jobAt (s : Session) (index : Nat) (act : JobAct) : Answer × Session :=
  match s.shell.stage.jobs[index]? with
  | none => (.nothing, s)
  | some j =>
    (.job j, match act with
      | .look => s
      | .frame fraction => s.onStage (·.frame j fraction)
      | .conclude how => s.onStage (·.concludeAt index how))

/-- The answer to a drain, and to waiting for messages until none is left. -/
def drained (s : Session) (emptied shutdown : Nat → Answer) : Answer × Session :=
  let d := s.shell.drain
  let answer := match d.ending with
    | .emptied => emptied d.handled
    | .cutShort => .cutShort d.handled
    | .shutdown => shutdown d.handled
    | .failed f => .fault f
  (answer, { s with shell := d.shell })

def direct (s : Session) : Command → Answer × Session
  | .addHandler actor =>
    let (id, handlers) := s.shell.handlers.add actor
    (.handler id, { s with shell := { s.shell with handlers } })
  | .request kind token trigger => s.perform (.request kind token trigger) .token
  | .start kind containers handler => s.perform (.start kind containers handler) .token
  | .ready token batch start => s.perform (.ready token batch start) fun _ => .ok
  | .process message => s.perform (.process message) fun goesOn => .processed goesOn message.token?
  | .drain => s.drained .count .count
  | .run => s.drained (fun _ => .pending) fun _ => .ok
  | .register =>
    if s.shell.config.enabled then (.registered true (s.players + 1), { s with players := s.players + 1 })
    else (.registered false s.players, s)
  | .query token => (.record (s.shell.table.get? token), s)
  | .handlers id =>
    let handlers := s.shell.handlers
    (.handlers handlers.length (handlers.contains id) (handlers.nameOf? id), s)
  | .describe => (.text s.shell.label, s)
  | .config => (.config s.shell.config, s)
  | _ => (.nothing, s)

def step (s : Session) : Command → Answer × Session
  | .post message =>
    match s.shell.stage.deliver message with
    | .ok stage => (.ok, s.onStage fun _ => stage)
    | .error f => (.fault f, s)
  | .closed => (.flag !s.shell.stage.isOpen, s)
  | .frameAll fraction => (.nothing, s.onStage (·.frameAll fraction))
  | .finishOldest =>
    let (found, stage) := s.shell.stage.finishOldest
    (.flag found, s.onStage fun _ => stage)
  | .concludeAll how =>
    let (count, stage) := s.shell.stage.concludeAll how
    (.count count, s.onStage fun _ => stage)
  | .job index act => s.jobAt index act
  | .present handler index drop => s.present handler index drop
  | .dropShell => (.nothing, s.onStage Stage.close)
  | command => if s.shell.stage.isOpen then s.direct command else (.noShell, s)

/-! ## Snapshots -/

/-- The journal behind its first `seen` entries. -/
def since (s : Session) (seen : Nat) : List Entry := s.shell.stage.journal.drop seen

/-- Is an entry a call that the actor it went to takes note of? -/
def isNotedCall (s : Session) : Entry → Bool
  | .asked id _ _ _ => (s.shell.handlers.get? id).any (!·.plain)
  | .offered _ _ _ => true
  | _ => false

/-- The edits of all transactions applied so far. -/
def merged (s : Session) : Transaction :=
  s.shell.stage.journal.flatMap fun
    | .applied t => t
    | _ => []

end Session

end WindowTransitions.Rehearsal
