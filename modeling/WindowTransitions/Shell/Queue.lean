import WindowTransitions.Shell.Ready
import WindowTransitions.Shell.Start

/-! The queue of messages. Messages are processed in the order of posting; a drain stops behind the first shutdown
and behind the first message that fails, and leaves the later ones in the queue. -/

set_option autoImplicit false

namespace WindowTransitions

variable {η α ε : Type} [Handler η] [Authority α] [Executor ε]

/-- Process one message. The answer tells whether to go on. -/
def Control.process : Message → Control η α ε Bool
  | .ready token batch start => do
    ready token batch start
    return true
  | .request kind token trigger => do
    let _ ← request kind token trigger
    return true
  | .handlerDone ticket => do
    handlerDone ticket
    return true
  | .fadeDone token animation => do
    fadeDone token animation
    return true
  | .shutdown => return false

inductive DrainEnd where
  | emptied
  | shutdown
  | failed (fault : Fault)
  /-- The limit is reached and messages are left. -/
  | cutShort
  deriving DecidableEq

structure Drained (η α ε : Type) where
  handled : Nat
  ending : DrainEnd
  shell : Shell η α ε

namespace Shell

/-- The shell with the first message of the queue taken, `rest` being the others. -/
def take (w : Shell η α ε) (m : Message) (rest : List Message) : Shell η α ε :=
  { w with stage := { w.stage with queue := rest }.note (.received m) }

/-- Process queued messages, at most `limit` of them. -/
def drainWithin : Nat → Shell η α ε → Drained η α ε
  | limit, w =>
    match w.stage.queue with
    | [] => ⟨0, .emptied, w⟩
    | m :: rest =>
      match limit with
      | 0 => ⟨0, .cutShort, w⟩
      | limit + 1 =>
        match (Control.process m).run (w.take m rest) with
        | .ok true w =>
          let d := drainWithin limit w
          { d with handled := d.handled + 1 }
        | .ok false w => ⟨1, .shutdown, w⟩
        | .error fault w => ⟨1, .failed fault, w⟩

/-- The most messages that processing `m` takes, with those posted meanwhile by handlers that present at most the
ticket of an offer while they get it, and by its own jobs. -/
def messageWeight (handlers : Nat) : Message → Nat
  | .ready _ batch _ => 1 + handlers + batch.fadeTargets.length
  | _ => 1

/-- Room for the messages that wait, for those that they lead to, and for the end of each job in the pool, which an
executor may bring about whenever it gets a job. -/
def drainLimit (w : Shell η α ε) : Nat :=
  (w.stage.queue.map (messageWeight w.handlers.length)).foldr (· + ·) 0 + w.stage.jobs.length

/-- Process queued messages until none is left or one of them ends it. Should handlers post more than the limit has
room for, the drain is cut short, and says so. -/
def drain (w : Shell η α ε) : Drained η α ε := w.drainWithin w.drainLimit

end Shell

end WindowTransitions
