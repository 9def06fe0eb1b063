import WindowTransitions.Fade
import WindowTransitions.Handler
import WindowTransitions.Lifecycle.Phase

/-! The stage: all that the shell shares with the outside. Messages wait in a queue in the order of posting, the
jobs of default animations run in a pool in the order of their start, and a journal keeps what happened. A job ends
by finishing, by being cancelled or by being dropped; in each case it writes its end value and reports once. -/

set_option autoImplicit false

namespace WindowTransitions

structure Job where
  id : AnimationId
  token : Token
  fade : Fade
  /-- The end value is written and reported. -/
  ended : Bool := false
  deriving DecidableEq

inductive Ending where
  | finish
  | cancel
  | drop
  deriving DecidableEq

/-- What can be done to the job at a place of the pool. -/
inductive Act where
  | frame (index : Nat) (fraction : Float32)
  | conclude (index : Nat) (how : Ending)
  deriving DecidableEq

inductive Entry where
  | asked (handler : HandlerId) (kind : Kind) (token : Token) (trigger : Option Trigger)
  /-- A transition was offered, with its start transaction as it was then. -/
  | offered (ticket : Ticket) (batch : Batch) (start : Transaction)
  | startCalled (kind : Kind) (placeholder : Option Token) (containers : Option Container.Transaction)
  | finishCalled (token : Token)
  | applied (transaction : Transaction)
  | event (event : Event)
  | posted (message : Message)
  | received (message : Message)
  deriving DecidableEq

structure Stage where
  /-- Somebody takes messages. -/
  isOpen : Bool := true
  queue : List Message := []
  jobs : List Job := []
  journal : List Entry := []

namespace Stage

def note (s : Stage) (e : Entry) : Stage := { s with journal := s.journal ++ [e] }

def apply (s : Stage) (t : Transaction) : Stage := s.note (.applied t)

/-- Post a message; a closed stage loses it. -/
def post (s : Stage) (m : Message) : Stage :=
  if s.isOpen then { s with queue := s.queue ++ [m] }.note (.posted m) else s

/-- Post a message that must not be lost. -/
def deliver (s : Stage) (m : Message) : Except Fault Stage :=
  if s.isOpen then .ok (s.post m) else .error .controlClosed

/-- Nobody takes messages any more, and those in the queue are lost. -/
def close (s : Stage) : Stage := { s with isOpen := false, queue := [] }

/-! ## One job -/

def frame (s : Stage) (j : Job) (fraction : Float32) : Stage := s.apply (j.fade.frame fraction)

/-- Write the end value and report, unless that is done. -/
def complete (s : Stage) (j : Job) : Stage × Job :=
  if j.ended then (s, j)
  else ((s.apply j.fade.lastFrame).post (.fadeDone j.token j.id), { j with ended := true })

/-- End a job. Finishing and cancelling complete it, and dropping it completes what is not complete. -/
def conclude (s : Stage) (j : Job) (how : Ending) : Stage :=
  let (s, j) := match how with
    | .finish | .cancel => s.complete j
    | .drop => (s, j)
  (s.complete j).1

/-! ## The pool -/

def frameAll (s : Stage) (fraction : Float32) : Stage := s.jobs.foldl (fun s j => s.frame j fraction) s

def concludeAt (s : Stage) (index : Nat) (how : Ending) : Stage :=
  match s.jobs[index]? with
  | some j => { s with jobs := s.jobs.eraseIdx index }.conclude j how
  | none => s

def finishOldest (s : Stage) : Bool × Stage := (!s.jobs.isEmpty, s.concludeAt 0 .finish)

/-- End all jobs, the oldest first, and count them. -/
def concludeAll (s : Stage) (how : Ending) : Nat × Stage :=
  (s.jobs.length, s.jobs.foldl (fun s j => s.conclude j how) { s with jobs := [] })

def perform (s : Stage) : Act → Stage
  | .frame index fraction =>
    match s.jobs[index]? with
    | some j => s.frame j fraction
    | none => s
  | .conclude index how => s.concludeAt index how

def enter (s : Stage) (j : Job) : Stage := { s with jobs := s.jobs ++ [j] }

end Stage

end WindowTransitions
