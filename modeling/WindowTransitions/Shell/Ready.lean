import WindowTransitions.Batch.StartState
import WindowTransitions.Shell.Finish

/-! Ready transitions. A batch without a root is only tidied up. Any other gets its start state and is offered to
the handlers; if one accepts, it owns the transition, and else the default fades run. -/

set_option autoImplicit false

namespace WindowTransitions.Control

variable {η α ε : Type}

/-- A handler has accepted: what is left of the start transaction is applied. -/
def settleOwner (token : Token) (owner : HandlerId) (start : Transaction) : Control η α ε Unit := do
  if !start.isEmpty then modify (·.apply start)
  let r ← expect token
  put token { r with owner := some owner }
  modify (·.report (.dispatched token (some owner) 0))
  advance token .animating

/-- The jobs that fade `targets` under successive ids. -/
def fadeJobs (config : Config) (token : Token) (ids : List AnimationId) (targets : List (Surface × Bool)) :
    List Job :=
  (targets.zip ids).map fun ((surface, shown), id) =>
    { id, token, fade := .standard surface shown (Config.nanoseconds config.fadeDuration) }

/-- Nobody has accepted: the start transaction is applied and the default fades start. -/
def settleFades [Executor ε] (token : Token) (batch : Batch) (start : Transaction) : Control η α ε Unit := do
  modify (·.apply start)
  let targets := batch.fadeTargets
  let w ← get
  let ids := w.nextAnimation.upFrom targets.length
  set { w with nextAnimation := w.nextAnimation.skip targets.length }
  let r ← expect token
  put token { r with fades := some ids }
  modify (·.report (.dispatched token none ids.length))
  advance token .animating
  modify fun w => (fadeJobs w.config token ids targets).foldl Shell.launch w

variable [Handler η] [Authority α] [Executor ε]

/-- The authority reports the batch of a transition, with the transaction that starts it. -/
def ready (token : Token) (batch : Batch) (start : Transaction) : Control η α ε Unit := do
  let r ← expect token
  if r.phase ≠ .pending then throw (.duplicateReady token)
  advance token .dispatching
  if !batch.hasRoot then
    modify (·.apply start)
    finish token
  else
    let w ← get
    let d := w.handlers.dispatch r.assigned token r.generation batch (start ++ batch.startState)
    set (w.withVisits d.handlers d.visits)
    match d.owner with
    | some owner => settleOwner token owner d.start
    | none =>
      settleFades token batch d.start
      finish token

end WindowTransitions.Control
