import WindowTransitions.Shell.Queue

/-! Timed runs. Cues play transitions, cancel all fades and stop the run, each at its time. A fade ticks when it
starts and then once in every frame interval; a tick applies the frame of its fraction, and the first tick whose
fraction is one ends the fade. However a fade ends, it writes its end value once more and reports. Times count
nanoseconds. -/

set_option autoImplicit false

namespace WindowTransitions

/-! ## The ticks of a fade -/

/-- The time between two ticks, at least a millisecond. -/
def Config.tickInterval (c : Config) : Nat := max (nanoseconds c.frameInterval) 1000000

/-- The frames of at most `count` ticks from tick `k` on, and whether the last of them ends the fade. -/
def Fade.ticks (f : Fade) (interval : Nat) : Nat → Nat → List Transaction × Bool
  | 0, _ => ([], false)
  | count + 1, k =>
    let fraction := f.fractionAt (k * interval)
    let frame := f.frame fraction
    if 1.0 ≤ fraction then ([frame], true)
    else
      let (more, ends) := f.ticks interval count (k + 1)
      (frame :: more, ends)

/-- A fade that runs, with the count of cancellations when it started. -/
structure Part where
  job : Job
  started : Nat
  generation : UInt64

namespace Part

def ticksBefore (p : Part) (interval time : Nat) : List Transaction × Bool :=
  p.job.fade.ticks interval ((time - p.started + interval - 1) / interval) 0

def tickTime (p : Part) (interval k : Nat) : Nat := p.started + k * interval

def lastTick (p : Part) (interval time : Nat) : Nat :=
  p.tickTime interval ((p.ticksBefore interval time).1.length - 1)

end Part

structure AlphaWrite where
  time : Nat
  surface : Surface
  alpha : Float32

namespace AlphaWrite

def ofTransaction (time : Nat) (t : Transaction) : List AlphaWrite :=
  t.filterMap fun e => e.write.alpha?.map fun alpha => ⟨time, e.surface, alpha⟩

def ofJournal (time : Nat) (entries : List Entry) : List AlphaWrite :=
  entries.flatMap fun
    | .applied t => ofTransaction time t
    | _ => []

def ofTicks (p : Part) (interval time : Nat) : List AlphaWrite :=
  (p.ticksBefore interval time).1.zipIdx.flatMap fun (frame, k) => ofTransaction (p.tickTime interval k) frame

end AlphaWrite

/-! ## Cues -/

inductive Cue where
  /-- The authority asks for a transition of the batch's kind and has it ready at once. -/
  | play (token : Token) (batch : Batch)
  | cancel
  | stop

structure Timeline (η α ε : Type) where
  shell : Shell η α ε
  now : Nat := 0
  parts : List Part := []
  writes : List AlphaWrite := []
  /-- How the run ended, if it has ended: by a stop, by a fault, or cut short with messages left. -/
  ending : Option DrainEnd := none
  /-- How often all fades were cancelled. -/
  generation : UInt64 := 0

namespace Timeline

variable {η α ε : Type}

def interval (t : Timeline η α ε) : Nat := t.shell.config.tickInterval

/-- A change of the stage at some time, with the alphas that it writes. -/
def onStage (t : Timeline η α ε) (time : Nat) (f : Stage → Stage) : Timeline η α ε :=
  let before := t.shell.stage
  let stage := f before
  { t with
    shell := { t.shell with stage }
    writes := t.writes ++ AlphaWrite.ofJournal time (stage.journal.drop before.journal.length) }

/-- End a part at `moment`: its ticks so far and its end value are written and it reports. -/
def endPart (t : Timeline η α ε) (p : Part) (moment : Nat) (how : Ending) : Timeline η α ε :=
  { t with writes := t.writes ++ AlphaWrite.ofTicks p t.interval t.now }.onStage moment (·.conclude p.job how)

variable [Handler η] [Authority α] [Executor ε]

/-- Process the queued messages at some time. The jobs that they start are the new parts. -/
def settle (t : Timeline η α ε) (time : Nat) : Timeline η α ε :=
  let before := t.shell.stage.journal.length
  let d := t.shell.drain
  let stage := d.shell.stage
  { t with
    shell := { d.shell with stage := { stage with jobs := [] } }
    parts := t.parts ++ stage.jobs.map fun j => { job := j, started := time, generation := t.generation }
    writes := t.writes ++ AlphaWrite.ofJournal time (stage.journal.drop before)
    ending := if d.ending = .emptied then t.ending else some d.ending }

/-- Let time pass: the parts that end before `time` end in the order of their last ticks. -/
def pass (t : Timeline η α ε) (time : Nat) : Timeline η α ε :=
  let (ended, running) := t.parts.partition fun p => (p.ticksBefore t.interval time).2
  let ended := ended.mergeSort fun p q => p.lastTick t.interval time ≤ q.lastTick t.interval time
  ended.foldl
    (fun t p =>
      let moment := p.lastTick t.interval time
      (t.endPart p moment .finish).settle moment)
    { t with now := time, parts := running }

def send (t : Timeline η α ε) (ms : List Message) : Timeline η α ε :=
  (t.onStage t.now fun stage => ms.foldl Stage.post stage).settle t.now

/-- Cancel the parts that an earlier generation started. -/
def cancelAll (t : Timeline η α ε) : Timeline η α ε :=
  let generation := t.generation + 1
  let (cancelled, running) := t.parts.partition fun p => p.generation ≠ generation
  let t := cancelled.foldl (fun t p => t.endPart p t.now .cancel) { t with generation, parts := running }
  t.settle t.now

/-- Carry out a cue, unless the run is over. -/
def perform (t : Timeline η α ε) (cue : Nat × Cue) : Timeline η α ε :=
  if t.ending.isSome then t
  else
    let t := t.pass cue.1
    match cue.2 with
    | .play token batch => t.send [.request batch.kind token none, .ready token batch []]
    | .cancel => t.cancelAll
    | .stop => t.send [.shutdown]

def run (t : Timeline η α ε) (cues : List (Nat × Cue)) : Timeline η α ε :=
  (cues.mergeSort fun a b => a.1 ≤ b.1).foldl perform t

/-! ## What a run leaves -/

/-- The alphas that are written until now, in the order of time. -/
def frames (t : Timeline η α ε) : List AlphaWrite :=
  (t.writes ++ t.parts.flatMap fun p => AlphaWrite.ofTicks p t.interval t.now).mergeSort fun a b => a.time ≤ b.time

/-- The alphas when the running fades are dropped: each has written its end value too. -/
def framesAfterDrop (t : Timeline η α ε) : List AlphaWrite :=
  t.frames ++ t.parts.flatMap fun p => AlphaWrite.ofTransaction t.now p.job.fade.lastFrame

def finished (t : Timeline η α ε) : List Token :=
  t.shell.stage.journal.filterMap fun
    | .finishCalled token => some token
    | _ => none

def bySurface (ws : List AlphaWrite) : List (Surface × List Float32) :=
  let surfaces := (ws.map (·.surface)).eraseDups.mergeSort fun a b => a.number ≤ b.number
  surfaces.map fun s => (s, (ws.filter (·.surface = s)).map (·.alpha))

end Timeline

end WindowTransitions
