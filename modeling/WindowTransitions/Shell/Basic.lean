import WindowTransitions.Lifecycle.Table
import WindowTransitions.Registry
import WindowTransitions.Text.Quoted

/-! The shell: it tracks every active transition by its token, and calls an authority, handlers and an executor of
any kind. Its operations change the shell step by step, and an operation that fails keeps the steps before. -/

set_option autoImplicit false

namespace WindowTransitions

/-- The conduct of an authority, the service that owns the windows and issues the tokens. -/
class Authority (α : Type) where
  /-- Start a transition, perhaps under a placeholder; the token it is known by from now on. -/
  start : α → Kind → Option Token → Option Container.Transaction → Token × α
  finish : α → Token → α

/-- The conduct of an executor, which runs the jobs of default animations. -/
class Executor (ε : Type) where
  /-- What it does at once with the pool, in which the new job is last. -/
  execute : ε → List Job → List Act × ε

structure Shell (η α ε : Type) where
  config : Config := {}
  handlers : Registry η := []
  authority : α
  executor : ε
  table : Table := []
  nextAnimation : AnimationId := ⟨0⟩
  /-- The generation of the transition started last. -/
  generation : UInt64 := 0
  stage : Stage := {}

abbrev Control (η α ε β : Type) := EStateM Fault (Shell η α ε) β

variable {η α ε : Type}

namespace Shell

/-! ## Steps -/

def note (w : Shell η α ε) (e : Entry) : Shell η α ε := { w with stage := w.stage.note e }

def apply (w : Shell η α ε) (t : Transaction) : Shell η α ε := { w with stage := w.stage.apply t }

def report (w : Shell η α ε) (e : Event) : Shell η α ε := w.note (.event e)

def visited (w : Shell η α ε) (v : Visit) : Shell η α ε :=
  { w with stage := v.posted.foldl Stage.post (w.stage.note v.call) }

/-- The state after visits that leave `handlers` behind. -/
def withVisits (w : Shell η α ε) (handlers : Registry η) (visits : List Visit) : Shell η α ε :=
  visits.foldl visited { w with handlers }

def launch [Executor ε] (w : Shell η α ε) (j : Job) : Shell η α ε :=
  let stage := w.stage.enter j
  let (acts, executor) := Executor.execute w.executor stage.jobs
  { w with executor, stage := acts.foldl Stage.perform stage }

end Shell

namespace Control

/-! ## Operations on records -/

/-- The record of a token that has to be active. -/
def expect (token : Token) : Control η α ε Record := do
  match (← get).table.expect token with
  | .ok r => return r
  | .error fault => throw fault

def put (token : Token) (r : Record) : Control η α ε Unit :=
  modify fun w => { w with table := w.table.put token r }

/-- Move a transition to a later phase and report it. -/
def advance (token : Token) (target : Phase) : Control η α ε Unit := do
  let r ← expect token
  if !r.phase.precedes target then throw (.illegalPhaseChange token r.phase target)
  put token { r with phase := target }
  modify (·.report (.phaseChanged token r.phase target))

/-! ## Calls of the authority -/

variable [Authority α]

def callStart (kind : Kind) (placeholder : Option Token) (containers : Option Container.Transaction) :
    Control η α ε Token := do
  let w ← get
  let (token, authority) := Authority.start w.authority kind placeholder containers
  set ({ w with authority }.note (.startCalled kind placeholder containers))
  return token

def callFinish (token : Token) : Control η α ε Unit :=
  modify fun w => { w with authority := Authority.finish w.authority token }.note (.finishCalled token)

end Control

/-! ## Texts -/

namespace Shell

def flagLabel (b : Bool) : String := if b then "true" else "false"

def configLabel (c : Config) : String :=
  "TransitionsConfig \x7b enabled: " ++ flagLabel c.enabled ++ ", default_fade_duration_ms: " ++
    c.fadeDuration.toNat.repr ++ ", frame_interval_ms: " ++ c.frameInterval.toNat.repr ++ " \x7d"

/-- A description of the shell: its configuration, the names of its handlers and the active tokens. -/
def label [Handler η] (w : Shell η α ε) : String :=
  "Transitions \x7b config: " ++ configLabel w.config ++ ", handlers: " ++ Text.quotedList w.handlers.names ++
    ", active: " ++ Token.listLabel w.table.tokens ++ " \x7d"

end Shell

end WindowTransitions
