import WindowTransitions.Proofs.Counters

/-! Who draws what. A stroke is a transaction that was applied, together with the job whose frame it is; the start
transactions of transitions are nobody's. Main statement: the strokes of a run are the transactions in its journal,
each once and in order, and a job draws only after it was put into the pool and before it is taken out. -/

set_option autoImplicit false

namespace WindowTransitions

structure Stroke where
  job : Option Job
  transaction : Transaction
  deriving DecidableEq

def Entry.transaction? : Entry → Option Transaction
  | .applied t => some t
  | _ => none

/-! ## Strokes of jobs -/

namespace Stage

/-- The transactions that were applied, in order. -/
def transactions (s : Stage) : List Transaction := s.journal.filterMap Entry.transaction?

/-- What a job draws when something is done to it. -/
def strokes (s : Stage) : Act → List Stroke
  | .frame index fraction =>
    match s.jobs[index]? with
    | some j => [⟨some j, j.fade.frame fraction⟩]
    | none => []
  | .conclude index _ =>
    match s.jobs[index]? with
    | some j => if j.ended then [] else [⟨some j, j.fade.lastFrame⟩]
    | none => []

def strokesOf (s : Stage) : List Act → List Stroke
  | [] => []
  | a :: acts => s.strokes a ++ (s.perform a).strokesOf acts

/-! ## From stage to stage -/

/-- From one stage to another the strokes are drawn, jobs by those that are in the pool when they draw; jobs that are
put into the pool meanwhile satisfy `new`. -/
inductive Draws (new : Job → Prop) : Stage → Stage → List Stroke → Prop where
  | still {s s' : Stage} (hj : s'.jobs = s.jobs) (ht : s'.transactions = s.transactions) : Draws new s s' []
  | start {s s' : Stage} {t : Transaction} (hj : s'.jobs = s.jobs) (ht : s'.transactions = s.transactions ++ [t]) :
    Draws new s s' [⟨none, t⟩]
  | frame {s s' : Stage} {j : Job} {fraction : Float32} (hm : j ∈ s.jobs) (hj : s'.jobs = s.jobs)
      (ht : s'.transactions = s.transactions ++ [j.fade.frame fraction]) :
    Draws new s s' [⟨some j, j.fade.frame fraction⟩]
  | last {s s' : Stage} {j : Job} {index : Nat} (hm : s.jobs[index]? = some j) (he : j.ended = false)
      (hj : s'.jobs = s.jobs.eraseIdx index) (ht : s'.transactions = s.transactions ++ [j.fade.lastFrame]) :
    Draws new s s' [⟨some j, j.fade.lastFrame⟩]
  | ended {s s' : Stage} {j : Job} {index : Nat} (hm : s.jobs[index]? = some j) (he : j.ended = true)
      (hj : s'.jobs = s.jobs.eraseIdx index) (ht : s'.transactions = s.transactions) : Draws new s s' []
  | enter {s : Stage} {j : Job} (hn : new j) : Draws new s (s.enter j) []
  | trans {s s' s'' : Stage} {strokes strokes' : List Stroke} (h : Draws new s s' strokes)
      (h' : Draws new s' s'' strokes') : Draws new s s'' (strokes ++ strokes')

namespace Draws

variable {new new' : Job → Prop} {s s' s'' : Stage} {strokes : List Stroke}

theorem refl (s : Stage) : Draws new s s [] := .still rfl rfl

/-- Strokes, and nothing that is drawn behind them. -/
theorem quietly (h : Draws new s s' strokes) (h' : Draws new s' s'' []) : Draws new s s'' strokes := by
  simpa using h.trans h'

theorem mono (h : Draws new s s' strokes) (hn : ∀ j, new j → new' j) : Draws new' s s' strokes := by
  induction h with
  | still hj ht => exact .still hj ht
  | start hj ht => exact .start hj ht
  | frame hm hj ht => exact .frame hm hj ht
  | last hm he hj ht => exact .last hm he hj ht
  | ended hm he hj ht => exact .ended hm he hj ht
  | enter h => exact .enter (hn _ h)
  | trans _ _ ih ih' => exact ih.trans ih'

/-- The strokes are all that is applied. -/
theorem transactions (h : Draws new s s' strokes) :
    s'.transactions = s.transactions ++ strokes.map Stroke.transaction := by
  induction h with
  | still _ ht | ended _ _ _ ht => rw [ht, List.map_nil, List.append_nil]
  | start _ ht | frame _ _ ht | last _ _ _ ht => exact ht
  | enter => exact (List.append_nil _).symm
  | trans _ _ ih ih' => rw [ih', ih, List.map_append, List.append_assoc]

theorem jobs (h : Draws new s s' strokes) : ∀ j ∈ s'.jobs, j ∈ s.jobs ∨ new j := by
  induction h with
  | still hj | start hj | frame _ hj =>
    rw [hj]
    exact fun j h => .inl h
  | last _ _ hj | ended _ _ hj =>
    rw [hj]
    exact fun j h => .inl (List.mem_of_mem_eraseIdx h)
  | enter hn =>
    intro j h
    rcases List.mem_append.mp h with h | h
    · exact .inl h
    · exact .inr (List.mem_singleton.mp h ▸ hn)
  | trans _ _ ih ih' => exact fun j h => (ih' j h).elim (ih j) .inr

/-- Whoever draws was in the pool before or has been put into it. -/
theorem author (h : Draws new s s' strokes) : ∀ σ ∈ strokes, ∀ j, σ.job = some j → j ∈ s.jobs ∨ new j := by
  induction h with
  | still | ended | enter => simp
  | start => simp
  | frame hm =>
    intro σ hσ j hj
    rw [List.mem_singleton.mp hσ] at hj
    exact .inl (Option.some.inj hj ▸ hm)
  | last hm =>
    intro σ hσ j hj
    rw [List.mem_singleton.mp hσ] at hj
    exact .inl (Option.some.inj hj ▸ List.mem_of_getElem? hm)
  | trans h _ ih ih' =>
    intro σ hσ j hj
    rcases List.mem_append.mp hσ with hσ | hσ
    · exact ih σ hσ j hj
    · exact (ih' σ hσ j hj).elim (h.jobs j) .inr

end Draws

/-! ## What is done to the stage -/

variable {new : Job → Prop} (s : Stage)

theorem transactions_note (e : Entry) : (s.note e).transactions = s.transactions ++ e.transaction?.toList := by
  rw [transactions, note, List.filterMap_append]
  cases e <;> rfl

theorem draws_note {e : Entry} (he : e.transaction? = none) : Draws new s (s.note e) [] :=
  .still rfl (by rw [transactions_note, he, Option.toList_none, List.append_nil])

theorem draws_apply (t : Transaction) : Draws new s (s.apply t) [⟨none, t⟩] := .start rfl (s.transactions_note _)

theorem draws_post (m : Message) : Draws new s (s.post m) [] := by
  unfold post
  split
  · have hqueue : Draws new s { s with queue := s.queue ++ [m] } [] := .still rfl rfl
    exact hqueue.trans (draws_note _ rfl)
  · exact .refl s

theorem draws_posts (messages : List Message) : Draws new s (messages.foldl post s) [] := by
  induction messages generalizing s with
  | nil => exact .refl s
  | cons m messages ih => exact (s.draws_post m).trans (ih (s.post m))

/-- However a job ends, it writes its end value once. -/
theorem conclude_eq {j : Job} (he : j.ended = false) (how : Ending) :
    s.conclude j how = (s.apply j.fade.lastFrame).post (.fadeDone j.token j.id) := by
  cases how <;> simp [conclude, complete, he]

theorem conclude_ended {j : Job} (he : j.ended = true) (how : Ending) : s.conclude j how = s := by
  cases how <;> simp [conclude, complete, he]

theorem draws_perform (a : Act) : Draws new s (s.perform a) (s.strokes a) := by
  cases a with
  | frame index fraction =>
    simp only [perform, strokes]
    cases hj : s.jobs[index]? with
    | none => exact .refl s
    | some j =>
      show Draws new s (s.frame j fraction) [⟨some j, j.fade.frame fraction⟩]
      exact .frame (List.mem_of_getElem? hj) rfl (s.transactions_note _)
  | conclude index how =>
    simp only [perform, strokes, concludeAt]
    cases hj : s.jobs[index]? with
    | none => exact .refl s
    | some j =>
      show Draws new s ({ s with jobs := s.jobs.eraseIdx index }.conclude j how)
        (if j.ended then [] else [⟨some j, j.fade.lastFrame⟩])
      cases he : j.ended with
      | true =>
        rw [conclude_ended _ he, if_pos rfl]
        exact .ended hj he rfl rfl
      | false =>
        rw [conclude_eq _ he, if_neg Bool.false_ne_true]
        refine .quietly ?_ (draws_post _ _)
        exact .last hj he rfl (transactions_note { s with jobs := s.jobs.eraseIdx index } _)

theorem draws_acts (acts : List Act) : Draws new s (acts.foldl perform s) (s.strokesOf acts) := by
  induction acts generalizing s with
  | nil => exact .refl s
  | cons a acts ih => exact (s.draws_perform a).trans (ih (s.perform a))

end Stage

namespace Shell

variable {η α ε : Type}

/-! ## Strokes of a shell -/

/-- What is drawn while jobs are launched one after the other. -/
def launchStrokes [Executor ε] (w : Shell η α ε) : List Job → List Stroke
  | [] => []
  | j :: jobs =>
    (w.stage.enter j).strokesOf (Executor.execute w.executor (w.stage.enter j).jobs).1 ++
      (w.launch j).launchStrokes jobs

/-- The start transaction of a transition that nobody accepts, and what is drawn while its fades are launched. -/
def fadeStrokes [Executor ε] (w : Shell η α ε) (token : Token) (r : Record) (batch : Batch) (start : Transaction) :
    List Stroke :=
  let ids := w.nextAnimation.upFrom batch.fadeTargets.length
  ⟨none, start⟩ ::
    ((w.allotted batch start).settled token { r with fades := some ids } batch.fadeTargets.length).launchStrokes
      (Control.fadeJobs w.config token ids batch.fadeTargets)

variable [Handler η] [Executor ε]

def readyStrokes (w : Shell η α ε) (token : Token) (batch : Batch) (start : Transaction) : List Stroke :=
  match w.table.get? token with
  | none => []
  | some r =>
    if r.phase ≠ .pending then []
    else if !batch.hasRoot then [⟨none, start⟩]
    else
      let d := w.offers token r batch start
      match d.owner with
      | some _ => if d.start.isEmpty then [] else [⟨none, d.start⟩]
      | none => (w.offered token r batch start).fadeStrokes token r batch d.start

/-- What is drawn while a message is processed. -/
def processStrokes (w : Shell η α ε) : Message → List Stroke
  | .ready token batch start => w.readyStrokes token batch start
  | .request _ _ _ | .handlerDone _ | .fadeDone _ _ | .shutdown => []

variable [Authority α]

def drainStrokes : Nat → Shell η α ε → List Stroke
  | 0, _ => []
  | limit + 1, w =>
    match w.stage.queue with
    | [] => []
    | m :: rest =>
      (w.take m rest).processStrokes m ++
        match (Control.process m).run (w.take m rest) with
        | .ok true w => drainStrokes limit w
        | .ok false _ | .error _ _ => []

def moveStrokes (w : Shell η α ε) : Move η → List Stroke
  | .ready token batch start => w.readyStrokes token batch start
  | .process m => w.processStrokes m
  | .drain limit => w.drainStrokes limit
  | .act a => w.stage.strokes a
  | .addHandler _ | .request _ _ _ | .start _ _ _ | .post _ => []

def runStrokes (w : Shell η α ε) : List (Move η) → List Stroke
  | [] => []
  | m :: moves => w.moveStrokes m ++ (w.move m).2.runStrokes moves

end Shell

/-! ## Messages, visits and launches -/

namespace Shell

variable {η α ε : Type} {new : Job → Prop} (w : Shell η α ε)

theorem draws_take (m : Message) (rest : List Message) : w.stage.Draws new (w.take m rest).stage [] :=
  .still rfl ((Stage.transactions_note _ _).trans (List.append_nil _))

theorem draws_visits {visits : List Visit} (hv : ∀ v ∈ visits, v.call.transaction? = none) :
    w.stage.Draws new (visits.foldl visited w).stage [] := by
  induction visits generalizing w with
  | nil => exact .refl _
  | cons v visits ih =>
    have hcall : w.stage.Draws new (w.stage.note v.call) [] := w.stage.draws_note (hv v List.mem_cons_self)
    have hvisit : w.stage.Draws new (w.visited v).stage [] := hcall.trans (Stage.draws_posts _ v.posted)
    exact hvisit.trans (ih (w.visited v) fun u hu => hv u (List.mem_cons_of_mem v hu))

theorem draws_offered [Handler η] (token : Token) (r : Record) (batch : Batch) (start : Transaction) :
    w.stage.Draws new (w.offered token r batch start).stage [] := by
  have hd := Registry.dispatch_sound token r.generation batch r.assigned w.handlers (start ++ batch.startState)
  have hturned : w.stage.Draws new (w.turned token r .dispatching).stage [] := w.stage.draws_note rfl
  refine hturned.trans (draws_visits { w.turned token r .dispatching with
    handlers := (w.offers token r batch start).handlers } fun v hv => ?_)
  obtain ⟨_, _, _, _, rfl⟩ := hd.visits v hv
  rfl

theorem draws_asked [Handler η] (kind : Kind) (token : Token) (trigger : Option Trigger) :
    w.stage.Draws new (w.asked kind token trigger).stage [] := by
  refine draws_visits { w with handlers := (w.handlers.negotiate kind token trigger).handlers } fun v hv => ?_
  obtain ⟨_, _, _, rfl⟩ := w.handlers.negotiate_visits kind token trigger v hv
  rfl

theorem draws_launches [Executor ε] (jobs : List Job) (hn : ∀ j ∈ jobs, new j) :
    w.stage.Draws new (jobs.foldl launch w).stage (w.launchStrokes jobs) := by
  induction jobs generalizing w with
  | nil => exact .refl _
  | cons j jobs ih =>
    have henter : w.stage.Draws new (w.stage.enter j) [] := .enter (hn j List.mem_cons_self)
    have hlaunch := henter.trans (Stage.draws_acts _ (Executor.execute w.executor (w.stage.enter j).jobs).1)
    exact hlaunch.trans (ih (w.launch j) fun i hi => hn i (List.mem_cons_of_mem j hi))

theorem draws_settled (token : Token) (r : Record) (fades : Nat) :
    w.stage.Draws new (w.settled token r fades).stage [] :=
  (Stage.draws_note w.stage rfl).trans (Stage.draws_note _ rfl)

theorem draws_appliedRest (start : Transaction) :
    w.stage.Draws new (w.appliedRest start).stage (if start.isEmpty then [] else [⟨none, start⟩]) := by
  unfold appliedRest
  split
  · exact .refl w.stage
  · exact w.stage.draws_apply start

theorem draws_left [Authority α] (token : Token) (phase : Phase) :
    w.stage.Draws new (w.left token phase).stage [] :=
  ((Stage.draws_note w.stage rfl).trans (Stage.draws_note _ rfl)).trans (Stage.draws_note _ rfl)

theorem draws_faded [Executor ε] (token : Token) (r : Record) (batch : Batch) (start : Transaction)
    (hn : ∀ j ∈ Control.fadeJobs w.config token (w.nextAnimation.upFrom batch.fadeTargets.length) batch.fadeTargets,
      new j) : w.stage.Draws new (w.faded token r batch start).stage (w.fadeStrokes token r batch start) := by
  have hstart : w.stage.Draws new ((w.allotted batch start).settled token
      { r with fades := some (w.nextAnimation.upFrom batch.fadeTargets.length) } batch.fadeTargets.length).stage
      [⟨none, start⟩] := (w.stage.draws_apply start).quietly ((w.allotted batch start).draws_settled token _ _)
  exact hstart.trans (draws_launches _ _ hn)

/-! ## Operations -/

/-- A job that may be put into the pool from `w` to `w'`: it has one of the ids that are given out meanwhile. -/
def Hires (w w' : Shell η α ε) (j : Job) : Prop :=
  ∃ count, w'.stage.allotments = w.stage.allotments + count ∧ j.id ∈ w.nextAnimation.upFrom count

theorem id_of_mem_fadeJobs {config : Config} {token : Token} {ids : List AnimationId}
    {targets : List (Surface × Bool)} {j : Job} (h : j ∈ Control.fadeJobs config token ids targets) : j.id ∈ ids := by
  obtain ⟨⟨_, id⟩, hmem, rfl⟩ := List.mem_map.mp h
  exact (List.of_mem_zip hmem).2

variable {w} [Authority α]

theorem draws_of_start {v : Shell η α ε} {kind : Kind} {placeholder : Option Token}
    {containers : Option Container.Transaction} {assigned : Option HandlerId} {c : Control η α ε Token}
    (hv : w.stage.Draws new v.stage []) (h : Control.StartOutcome v kind placeholder containers assigned (c.run w)) :
    w.stage.Draws new (c.perform w).2.stage [] := by
  have hcalled : w.stage.Draws new (v.called kind placeholder containers).stage [] :=
    hv.trans (Stage.draws_note _ rfl)
  generalize hr : c.run w = result at h
  cases h with
  | refused hs h =>
    rw [Control.perform_of_error hr]
    exact hcalled
  | entered hs h =>
    rw [Control.perform_of_ok hr]
    exact hcalled.trans (Stage.draws_note _ rfl)

theorem draws_handlerDone (ht : w.table.AtRest) (ticket : Ticket) :
    w.stage.Draws new ((Control.handlerDone ticket).perform w).2.stage [] := by
  by_cases h : w.table.Honours ticket
  · rw [Control.perform_of_ok (Control.run_handlerDone ht h)]
    exact w.draws_left ticket.token .animating
  · rw [Control.perform_of_ok (Control.run_handlerDone_ignored h)]
    exact .refl _

theorem draws_fadeDone (ht : w.table.AtRest) (token : Token) (a : AnimationId) :
    w.stage.Draws new ((Control.fadeDone token a).perform w).2.stage [] := by
  have hout := Control.fadeDone_outcome ht token a
  generalize hr : (Control.fadeDone token a).run w = result at hout
  cases hout with
  | unknown =>
    rw [Control.perform_of_error hr]
    exact .refl _
  | untracked | fewer =>
    rw [Control.perform_of_ok hr]
    exact .refl _
  | last =>
    rw [Control.perform_of_ok hr]
    exact w.draws_left token .animating

theorem draws_request [Handler η] (kind : Kind) (placeholder : Token) (trigger : Option Trigger) :
    w.stage.Draws new ((Control.request kind placeholder trigger).perform w).2.stage [] := by
  rcases Control.request_outcome w kind placeholder trigger with ⟨_, h⟩ | ⟨_, h⟩
  · rw [Control.perform_of_error h]
    exact .refl _
  · exact draws_of_start (w.draws_asked kind placeholder trigger) h

theorem draws_start [Handler η] (kind : Kind) (containers : Container.Transaction) (handler : Option HandlerId) :
    w.stage.Draws new ((Control.start kind containers handler).perform w).2.stage [] := by
  rcases Control.start_outcome w kind containers handler with ⟨_, _, _, h⟩ | ⟨_, h⟩
  · rw [Control.perform_of_error h]
    exact .refl _
  · exact draws_of_start (.refl w.stage) h

section Ready
variable [Handler η] [Executor ε]

omit [Executor ε] [Authority α] in
theorem readyStrokes_rooted [Executor ε] {token : Token} {batch : Batch} {start : Transaction} {r : Record}
    (h : w.table.get? token = some r) (hp : r.phase = .pending) (hb : batch.hasRoot = true) :
    w.readyStrokes token batch start =
      match (w.offers token r batch start).owner with
      | some _ =>
        if (w.offers token r batch start).start.isEmpty then [] else [⟨none, (w.offers token r batch start).start⟩]
      | none =>
        (w.offered token r batch start).fadeStrokes token r batch (w.offers token r batch start).start := by
  simp only [readyStrokes, h, hp, hb]
  rfl

/-- The ids that the fades of a transition get are those given out while it is made ready. -/
theorem hires_faded (token : Token) (kind : Kind) (assigned : Option HandlerId) (generation : UInt64) (batch : Batch)
    (start : Transaction) {j : Job}
    (hj : j ∈ Control.fadeJobs (w.offered token { kind, assigned, generation } batch start).config token
      ((w.offered token { kind, assigned, generation } batch start).nextAnimation.upFrom batch.fadeTargets.length)
      batch.fadeTargets) :
    w.Hires ((w.offered token { kind, assigned, generation } batch start).faded token { kind, assigned, generation }
      batch (w.offers token { kind, assigned, generation } batch start).start) j := by
  have hd : (w.offers token { kind, assigned, generation } batch start).Sound token generation batch w.handlers :=
    Registry.dispatch_sound token generation batch assigned w.handlers (start ++ batch.startState)
  refine ⟨batch.fadeTargets.length, ?_, ?_⟩
  · rw [(w.leadsTo_fading token kind assigned generation batch start).stage.allotments,
      fades_of_dispatch hd w.authority]
  · rw [← offered_animation w token { kind, assigned, generation } batch start]
    exact id_of_mem_fadeJobs hj

theorem draws_ready (ht : w.table.AtRest) (token : Token) (batch : Batch) (start : Transaction) :
    w.stage.Draws (w.Hires ((Control.ready token batch start).perform w).2)
      ((Control.ready token batch start).perform w).2.stage (w.readyStrokes token batch start) := by
  have hout := Control.ready_outcome ht token batch start
  generalize hr : (Control.ready token batch start).run w = result at hout
  cases hout with
  | unknown h =>
    rw [Control.perform_of_error hr, readyStrokes, h]
    exact .refl _
  | duplicate h hp =>
    simp only [Control.perform_of_error hr, readyStrokes, h, if_pos hp]
    exact .refl _
  | @rootless r h hp hb =>
    have hstrokes : w.readyStrokes token batch start = [⟨none, start⟩] := by simp [readyStrokes, h, hp, hb]
    rw [Control.perform_of_ok hr, hstrokes]
    refine .quietly ?_ (draws_left _ token .dispatching)
    exact .trans (Stage.draws_note w.stage rfl) (Stage.draws_apply _ start)
  | @owned r owner h hp hb ho =>
    rw [Control.perform_of_ok hr, readyStrokes_rooted h hp hb, ho]
    refine .quietly (.trans (w.draws_offered token r batch start) (draws_appliedRest _ _)) ?_
    exact draws_settled _ token _ _
  | faded h hp hb ho hn =>
    rw [Control.perform_of_ok hr, readyStrokes_rooted h hp hb, ho]
    obtain ⟨kind, assigned, generation, rfl⟩ := ht.pending h hp
    exact (w.draws_offered token _ batch start).trans
      (draws_faded _ token _ batch _ fun j hj => hires_faded token kind assigned generation batch start hj)
  | unfaded h hp hb ho hn =>
    rw [Control.perform_of_ok hr, readyStrokes_rooted h hp hb, ho]
    refine ((w.draws_offered token _ batch start).trans (draws_faded _ token _ batch _ fun j hj => ?_)).quietly
      (draws_left _ token .animating)
    rw [hn] at hj
    cases hj

theorem draws_process (ht : w.table.AtRest) (m : Message) :
    w.stage.Draws (w.Hires ((Control.process m).perform w).2) ((Control.process m).perform w).2.stage
      (w.processStrokes m) := by
  rw [Control.perform_process]
  cases m with
  | ready token batch start => exact draws_ready ht token batch start
  | request kind token trigger => exact draws_request kind token trigger
  | handlerDone ticket => exact draws_handlerDone ht ticket
  | fadeDone token a => exact draws_fadeDone ht token a
  | shutdown => exact .refl _

theorem draws_move (ht : w.table.AtRest) {m : Move η} (hd : ∀ limit, m ≠ .drain limit) :
    w.stage.Draws (w.Hires (w.move m).2) (w.move m).2.stage (w.moveStrokes m) := by
  cases m with
  | addHandler => exact .refl _
  | request kind token trigger => exact draws_request kind token trigger
  | start kind containers handler => exact draws_start kind containers handler
  | ready token batch start => exact draws_ready ht token batch start
  | process m => exact draws_process ht m
  | drain limit => exact absurd rfl (hd limit)
  | post m => exact Stage.draws_post _ m
  | act a => exact Stage.draws_perform _ a

theorem draws_receive (ht : w.table.AtRest) (m : Message) (rest : List Message) :
    w.stage.Draws (w.Hires (w.receive m rest).2) (w.receive m rest).2.stage ((w.take m rest).processStrokes m) := by
  have hprocess := draws_process (w := w.take m rest) ht m
  refine (w.draws_take m rest).trans (hprocess.mono fun j ⟨count, hcount, hid⟩ => ⟨count, ?_, hid⟩)
  rwa [take_allotments] at hcount

theorem draws_drain (limit : Nat) (ht : w.table.AtRest) :
    w.stage.Draws (fun _ => True) (w.drainWithin limit).shell.stage (w.drainStrokes limit) := by
  induction limit generalizing w with
  | zero =>
    rw [drainWithin]
    split <;> exact .refl _
  | succ limit ih =>
    cases hq : w.stage.queue with
    | nil =>
      rw [drainWithin, drainStrokes, hq]
      exact .refl _
    | cons m rest =>
      have hfirst := (draws_receive ht m rest).mono fun _ _ => trivial
      have hrest : (w.receive m rest).2.table.AtRest := kept_atRest.receive w m rest hq ht
      rw [drainWithin_succ w m rest limit hq]
      simp only [drainStrokes, hq]
      cases hr : (Control.process m).run (w.take m rest) with
      | ok goesOn v =>
        rw [receive, Control.perform_of_ok hr] at hfirst hrest
        cases goesOn with
        | true => exact hfirst.trans (ih hrest)
        | false => exact hfirst.trans (.refl v.stage)
      | error fault v =>
        rw [receive, Control.perform_of_error hr] at hfirst
        exact hfirst.trans (.refl v.stage)

theorem draws_run (moves : List (Move η)) (ht : w.table.AtRest) :
    w.stage.Draws (fun _ => True) (w.run moves).stage (w.runStrokes moves) := by
  induction moves generalizing w with
  | nil => exact .refl _
  | cons m moves ih =>
    have hrest : (w.move m).2.table.AtRest := kept_atRest.run [m] w ht
    have hfirst : w.stage.Draws (fun _ => True) (w.move m).2.stage (w.moveStrokes m) := by
      by_cases hd : ∃ limit, m = .drain limit
      · obtain ⟨limit, rfl⟩ := hd
        exact draws_drain limit ht
      · exact (draws_move ht fun limit hl => hd ⟨limit, hl⟩).mono fun _ _ => trivial
    exact hfirst.trans (ih hrest)

/-- The strokes of a run are all that is applied in it, in order. -/
theorem run_strokes (moves : List (Move η)) (ht : w.table.AtRest) :
    (w.run moves).stage.transactions = w.stage.transactions ++ (w.runStrokes moves).map Stroke.transaction :=
  (draws_run moves ht).transactions

end Ready

end Shell

end WindowTransitions
