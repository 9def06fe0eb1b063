import WindowTransitions.Proofs.Journal
import WindowTransitions.Proofs.Lookup
import WindowTransitions.Shell.Queue

/-! The states that the parts of an operation leave, each named and given field by field, and the calls and reports
that each adds to the journal. -/

set_option autoImplicit false

namespace WindowTransitions

namespace Shell

variable {η α ε : Type} (w : Shell η α ε)

/-- A transition has changed its phase. -/
def turned (token : Token) (r : Record) (target : Phase) : Shell η α ε :=
  { w with table := w.table.put token { r with phase := target } }.report (.phaseChanged token r.phase target)

/-- A transition has finished. -/
def left [Authority α] (token : Token) (phase : Phase) : Shell η α ε :=
  { w with
    table := w.table.remove token
    authority := Authority.finish w.authority token
    stage := ((w.stage.note (.event (.phaseChanged token phase .finished))).note (.event (.finished token))).note
      (.finishCalled token) }

/-- It is settled who animates a transition, whose record is `r` but for the phase. -/
def settled (token : Token) (r : Record) (fades : Nat) : Shell η α ε :=
  { w with
    table := w.table.put token { r with phase := .animating }
    stage := (w.stage.note (.event (.dispatched token r.owner fades))).note
      (.event (.phaseChanged token .dispatching .animating)) }

/-- What an accepting handler has left of the start transaction is applied. -/
def appliedRest (start : Transaction) : Shell η α ε := if start.isEmpty then w else w.apply start

/-- The start transaction is applied and the default fades of a batch have got their ids. -/
def allotted (batch : Batch) (start : Transaction) : Shell η α ε :=
  { w.apply start with nextAnimation := w.nextAnimation.skip batch.fadeTargets.length }

/-- The default fades of a transition run. -/
def faded [Executor ε] (token : Token) (r : Record) (batch : Batch) (start : Transaction) : Shell η α ε :=
  let ids := w.nextAnimation.upFrom batch.fadeTargets.length
  (Control.fadeJobs w.config token ids batch.fadeTargets).foldl launch
    ((w.allotted batch start).settled token { r with fades := some ids } batch.fadeTargets.length)

/-- How the offers of a ready transition come out. -/
def offers [Handler η] (token : Token) (r : Record) (batch : Batch) (start : Transaction) : Registry.Dispatch η :=
  w.handlers.dispatch r.assigned token r.generation batch (start ++ batch.startState)

/-- A ready transition has been offered to handlers. -/
def offered [Handler η] (token : Token) (r : Record) (batch : Batch) (start : Transaction) : Shell η α ε :=
  (w.turned token r .dispatching).withVisits (w.offers token r batch start).handlers
    (w.offers token r batch start).visits

/-- The authority has been called to start a transition, which gets a generation. -/
def called [Authority α] (kind : Kind) (placeholder : Option Token) (containers : Option Container.Transaction) :
    Shell η α ε :=
  { w with
    authority := (Authority.start w.authority kind placeholder containers).2
    generation := w.generation + 1
    stage := w.stage.note (.startCalled kind placeholder containers) }

/-- A transition has entered the table. -/
def entered (token : Token) (kind : Kind) (assigned : Option HandlerId) : Shell η α ε :=
  { w with
    table := w.table ++ [(token, { kind, assigned, generation := w.generation })]
    stage := w.stage.note (.event (.started token kind assigned)) }

/-- A request has been put to the handlers. -/
def asked [Handler η] (kind : Kind) (token : Token) (trigger : Option Trigger) : Shell η α ε :=
  w.withVisits (w.handlers.negotiate kind token trigger).handlers (w.handlers.negotiate kind token trigger).visits

/-! ## Visits and launches change the stage only -/

theorem foldl_visited (visits : List Visit) :
    visits.foldl visited w = { w with stage := (visits.foldl visited w).stage } := by
  induction visits generalizing w with
  | nil => rfl
  | cons v visits ih =>
    rw [List.foldl_cons, ih]
    rfl

theorem withVisits_eq (handlers : Registry η) (visits : List Visit) :
    w.withVisits handlers visits = { w with handlers, stage := (visits.foldl visited { w with handlers }).stage } :=
  foldl_visited _ _

@[simp] theorem withVisits_table (handlers : Registry η) (visits : List Visit) :
    (w.withVisits handlers visits).table = w.table := by rw [withVisits_eq]

theorem foldl_launch [Executor ε] (jobs : List Job) :
    jobs.foldl launch w =
      { w with stage := (jobs.foldl launch w).stage, executor := (jobs.foldl launch w).executor } := by
  induction jobs generalizing w with
  | nil => rfl
  | cons j jobs ih =>
    rw [List.foldl_cons, ih]
    rfl

theorem offered_config [Handler η] (token : Token) (r : Record) (batch : Batch) (start : Transaction) :
    (w.offered token r batch start).config = w.config := by
  rw [offered, withVisits_eq]
  rfl

theorem offered_animation [Handler η] (token : Token) (r : Record) (batch : Batch) (start : Transaction) :
    (w.offered token r batch start).nextAnimation = w.nextAnimation := by
  rw [offered, withVisits_eq]
  rfl

theorem appliedRest_eq (start : Transaction) :
    w.appliedRest start = { w with stage := if start.isEmpty then w.stage else w.stage.apply start } := by
  unfold appliedRest
  split <;> rfl

@[simp] theorem appliedRest_table (start : Transaction) : (w.appliedRest start).table = w.table := by
  rw [appliedRest_eq]

theorem faded_eq [Executor ε] (token : Token) (r : Record) (batch : Batch) (start : Transaction) :
    ∃ stage executor, w.faded token r batch start =
      { w with
        table := w.table.put token
          { r with phase := .animating, fades := some (w.nextAnimation.upFrom batch.fadeTargets.length) }
        nextAnimation := w.nextAnimation.skip batch.fadeTargets.length
        stage, executor } := by
  refine ⟨(w.faded token r batch start).stage, (w.faded token r batch start).executor, ?_⟩
  simp only [faded]
  rw [foldl_launch]
  rfl

@[simp] theorem faded_table [Executor ε] (token : Token) (r : Record) (batch : Batch) (start : Transaction) :
    (w.faded token r batch start).table =
      w.table.put token
        { r with phase := .animating, fades := some (w.nextAnimation.upFrom batch.fadeTargets.length) } := by
  obtain ⟨_, _, h⟩ := w.faded_eq token r batch start
  rw [h]

/-! ## What the states add to the journal -/

theorem take_events (m : Message) (rest : List Message) : (w.take m rest).stage.events = w.stage.events := by
  simp [take, Stage.events, Stage.note, Entry.event?]

theorem take_finishCalls (m : Message) (rest : List Message) :
    (w.take m rest).stage.finishCalls = w.stage.finishCalls := by
  simp [take, Stage.finishCalls, Stage.note, Entry.finishCall?]

theorem adds_turned (token : Token) (r : Record) (target : Phase) :
    w.stage.Adds (w.turned token r target).stage [.event (.phaseChanged token r.phase target)] :=
  Stage.adds_note w.stage rfl

theorem adds_left [Authority α] (token : Token) (phase : Phase) :
    w.stage.Adds (w.left token phase).stage
      [.event (.phaseChanged token phase .finished), .event (.finished token), .finishCalled token] :=
  ((Stage.adds_note w.stage rfl).trans (Stage.adds_note _ rfl)).trans (Stage.adds_note _ rfl)

theorem adds_settled (token : Token) (r : Record) (fades : Nat) :
    w.stage.Adds (w.settled token r fades).stage
      [.event (.dispatched token r.owner fades), .event (.phaseChanged token .dispatching .animating)] :=
  (Stage.adds_note w.stage rfl).trans (Stage.adds_note _ rfl)

theorem adds_appliedRest (start : Transaction) : w.stage.Adds (w.appliedRest start).stage [] := by
  unfold appliedRest
  split
  · exact .refl w.stage
  · exact Stage.adds_apply w.stage start

theorem adds_faded [Executor ε] (token : Token) (r : Record) (batch : Batch) (start : Transaction) :
    w.stage.Adds (w.faded token r batch start).stage
      [.event (.dispatched token r.owner batch.fadeTargets.length),
        .event (.phaseChanged token .dispatching .animating)] := by
  have settled := (w.allotted batch start).adds_settled token
    { r with fades := some (w.nextAnimation.upFrom batch.fadeTargets.length) } batch.fadeTargets.length
  exact ((Stage.adds_apply w.stage start).trans settled).quietly (adds_launches _ _)

theorem adds_called [Authority α] (kind : Kind) (placeholder : Option Token)
    (containers : Option Container.Transaction) :
    w.stage.Adds (w.called kind placeholder containers).stage [.startCalled kind placeholder containers] :=
  Stage.adds_note w.stage rfl

theorem adds_entered (token : Token) (kind : Kind) (assigned : Option HandlerId) :
    w.stage.Adds (w.entered token kind assigned).stage [.event (.started token kind assigned)] :=
  Stage.adds_note w.stage rfl

end Shell

end WindowTransitions
