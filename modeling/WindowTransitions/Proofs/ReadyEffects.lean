import WindowTransitions.Proofs.Executors
import WindowTransitions.Proofs.Rounds

/-! What becomes of a start transaction, of the jobs and of the token when a transition is made ready. Main statement:
after every run a waiting transition whose batch has no root is applied as it comes and finishes at once; one that a
handler accepts has what the handlers leave of it applied, if that is not empty, and is animated by the acceptor; one
that all decline has it applied in any case, before anything else is drawn, and fades under new ids, which are those
of the jobs that enter the pool and those that its record keeps. -/

set_option autoImplicit false

namespace WindowTransitions

/-! ## The pool under offers -/

namespace Stage

theorem post_jobs (s : Stage) (m : Message) : (s.post m).jobs = s.jobs := by
  unfold post
  split <;> rfl

theorem posts_jobs (s : Stage) (messages : List Message) : (messages.foldl post s).jobs = s.jobs := by
  induction messages generalizing s with
  | nil => rfl
  | cons m messages ih => rw [List.foldl_cons, ih, post_jobs]

end Stage

namespace Shell

variable {η α ε : Type}

theorem visits_jobs (w : Shell η α ε) (visits : List Visit) :
    (visits.foldl visited w).stage.jobs = w.stage.jobs := by
  induction visits generalizing w with
  | nil => rfl
  | cons v visits ih =>
    rw [List.foldl_cons, ih]
    exact Stage.posts_jobs (w.stage.note v.call) v.posted

theorem offered_jobs [Handler η] (w : Shell η α ε) (token : Token) (r : Record) (batch : Batch)
    (start : Transaction) : (w.offered token r batch start).stage.jobs = w.stage.jobs :=
  visits_jobs { w.turned token r .dispatching with handlers := (w.offers token r batch start).handlers } _

/-- Where jobs stay in the pool, nothing is drawn when fades start but the start transaction. -/
theorem faded_kept [Executor ε] (w : Shell η α ε) (token : Token) (r : Record) (batch : Batch) (start : Transaction)
    (he : Executor.Keeps w.executor) :
    (w.faded token r batch start).stage.transactions = w.stage.transactions ++ [start] ∧
      (w.faded token r batch start).stage.jobs = w.stage.jobs ++
        Control.fadeJobs w.config token (w.nextAnimation.upFrom batch.fadeTargets.length) batch.fadeTargets := by
  let ids := w.nextAnimation.upFrom batch.fadeTargets.length
  let begun := (w.allotted batch start).settled token { r with fades := some ids } batch.fadeTargets.length
  obtain ⟨e, _, hlaunches⟩ := launches_kept (w := begun) he (Control.fadeJobs w.config token ids batch.fadeTargets)
  have hbegun : w.stage.Draws (fun _ => True) begun.stage [⟨none, start⟩] :=
    (w.stage.draws_apply start).quietly ((w.allotted batch start).draws_settled token _ _)
  have hfaded : w.faded token r batch start = _ := hlaunches
  rw [hfaded]
  exact ⟨hbegun.transactions, rfl⟩

end Shell

/-! ## Jobs of fades -/

namespace Control

/-- A job for each target, in the order of the targets, under successive ids behind the first `n`. -/
def fadesBehind (n : Nat) (config : Config) (token : Token) (targets : List (Surface × Bool)) : List Job :=
  targets.mapIdx fun i (surface, shown) =>
    { id := .nth (n + i), token, fade := .standard surface shown (Config.nanoseconds config.fadeDuration) }

theorem fadeJobs_nth (n : Nat) (config : Config) (token : Token) (targets : List (Surface × Bool)) :
    fadeJobs config token ((AnimationId.nth n).upFrom targets.length) targets = fadesBehind n config token targets := by
  apply List.ext_getElem
  · simp [fadeJobs, fadesBehind, length_upFrom]
  · intro i _ _
    simp [fadeJobs, fadesBehind, AnimationId.upFrom_nth]

theorem ids_fadesBehind (n : Nat) (config : Config) (token : Token) (targets : List (Surface × Bool)) :
    (fadesBehind n config token targets).map Job.id = (AnimationId.nth n).upFrom targets.length := by
  rw [← fadeJobs_nth, ids_fadeJobs _ _ (length_upFrom _ _)]

end Control

namespace Shell

variable {η α ε : Type}

/-! ## Ids of the jobs in the pool -/

/-- The jobs in the pool run under ids that have been given out. -/
def Numbered (w : Shell η α ε) : Prop := ∀ j ∈ w.stage.jobs, ∃ k < w.stage.allotments, AnimationId.nth k = j.id

theorem Numbered.of_draws {w w' : Shell η α ε} {strokes : List Stroke} (hw : w.Numbered) (hc : w.Counted)
    (ha : w.stage.allotments ≤ w'.stage.allotments) (h : w.stage.Draws (w.Hires w') w'.stage strokes) :
    w'.Numbered := by
  intro j hj
  rcases h.jobs j hj with hold | ⟨count, hcount, hid⟩
  · obtain ⟨k, hk, hid⟩ := hw j hold
    exact ⟨k, Nat.lt_of_lt_of_le hk ha, hid⟩
  · rw [hc.animation, AnimationId.mem_upFrom_nth] at hid
    obtain ⟨k, _, hk, hid⟩ := hid
    exact ⟨k, hcount ▸ hk, hid⟩

variable [Handler η] [Authority α] [Executor ε]

theorem run_numbered (config : Config) (authority : α) (executor : ε) (moves : List (Move η)) :
    ((fresh config authority executor : Shell η α ε).run moves).Numbered := by
  let P : Shell η α ε → Prop := fun w => (w.table.AtRest ∧ w.Resting) ∧ w.Numbered
  have hmoves : P ((fresh config authority executor : Shell η α ε).run moves) := by
    refine run_induction (fun _ => True) ?_ ?_ moves (fun _ _ => trivial) _
      ⟨resting_fresh config authority executor, by simp [Numbered, fresh]⟩
    · intro w m _ hd hw
      refine ⟨kept_resting.move w m hd hw.1, hw.2.of_draws hw.1.2.counted ?_ (draws_move hw.1.1 hd)⟩
      exact ((kept_allotted w.stage.allotments).move w m hd ⟨hw.1.1, Nat.le_refl _⟩).2
    · intro w m rest hq hw
      refine ⟨kept_resting.receive w m rest hq hw.1, hw.2.of_draws hw.1.2.counted ?_ (draws_receive hw.1.1 m rest)⟩
      exact ((kept_allotted w.stage.allotments).receive w m rest hq ⟨hw.1.1, Nat.le_refl _⟩).2
  exact hmoves.2

/-! ## What is left behind -/

/-- From `w` to `w'` the transactions `drawn` are applied, `jobs` enter the pool behind those that run, and `calls` are
added to the log; `table` is left. -/
structure Leaves (w w' : Shell η α ε) (drawn : List Transaction) (jobs : List Job) (calls : List Entry)
    (table : Table) : Prop where
  transactions : w'.stage.transactions = w.stage.transactions ++ drawn
  jobs : w'.stage.jobs = w.stage.jobs ++ jobs
  log : w'.stage.log = w.stage.log ++ calls
  table : w'.table = table

/-- The report of who animates a transition, and of the step to animation. -/
def settling (token : Token) (owner : Option HandlerId) (fades : Nat) : List Entry :=
  [.event (.dispatched token owner fades), .event (.phaseChanged token .dispatching .animating)]

/-- The reports that a transition has finished, and the call of the authority. -/
def finishing (token : Token) (phase : Phase) : List Entry :=
  [.event (.phaseChanged token phase .finished), .event (.finished token), .finishCalled token]

variable {w : Shell η α ε} {token : Token} {kind : Kind} {assigned : Option HandlerId} {generation : UInt64}
  {batch : Batch}

theorem ready_rootless (start : Transaction) (ht : w.table.AtRest)
    (hr : w.table.get? token = some { kind, assigned, generation }) (hb : batch.hasRoot = false) :
    ∃ w', (Control.ready token batch start).run w = .ok () w' ∧ w'.handlers = w.handlers ∧
      w.Leaves w' [start] [] (.event (.phaseChanged token .pending .dispatching) :: finishing token .dispatching)
        (w.table.remove token) := by
  have hrun := (Control.ready_outcome ht token batch start).unique (.rootless hr rfl hb)
  have hdraws := draws_ready ht token batch start
  have hstrokes : w.readyStrokes token batch start = [⟨none, start⟩] := by simp [readyStrokes, hr, hb]
  have hleads := w.leadsTo_rootless token kind assigned generation start
  rw [Control.perform_of_ok hrun, hstrokes] at hdraws
  exact ⟨_, hrun, rfl, hdraws.transactions, (List.append_nil _).symm, hleads.stage.log, hleads.table⟩

theorem ready_owned (start : Transaction) {owner : HandlerId} (ht : w.table.AtRest)
    (hr : w.table.get? token = some { kind, assigned, generation }) (hb : batch.hasRoot = true)
    (ho : (w.offers token { kind, assigned, generation } batch start).owner = some owner) :
    let d := w.offers token { kind, assigned, generation } batch start
    ∃ w', (Control.ready token batch start).run w = .ok () w' ∧
      w.Leaves w' (if d.start.isEmpty then [] else [d.start]) []
        (dispatching token d.visits ++ settling token (some owner) 0)
        (w.table.put token { kind, phase := .animating, assigned, owner := some owner, generation }) := by
  intro d
  have hrun := (Control.ready_outcome ht token batch start).unique (.owned hr rfl hb ho)
  have hdraws := draws_ready ht token batch start
  have hleads := w.leadsTo_owned token kind assigned generation batch start owner
  have hjobs := w.offered_jobs token { kind, assigned, generation } batch start
  rw [Control.perform_of_ok hrun, readyStrokes_rooted hr rfl hb, ho] at hdraws
  refine ⟨_, hrun, ?_, ?_, hleads.stage.log, hleads.table⟩
  · rw [hdraws.transactions]
    simp only [d]
    split <;> rfl
  · rw [List.append_nil, ← hjobs, settled, appliedRest_eq]
    simp only [Stage.note]
    split <;> rfl

theorem ready_faded (start : Transaction) (ht : w.table.AtRest) (hc : w.Counted) (he : Executor.Keeps w.executor)
    (hr : w.table.get? token = some { kind, assigned, generation }) (hb : batch.hasRoot = true)
    (ho : (w.offers token { kind, assigned, generation } batch start).owner = none) :
    let d := w.offers token { kind, assigned, generation } batch start
    let jobs := Control.fadesBehind w.stage.allotments w.config token batch.fadeTargets
    ∃ w', (Control.ready token batch start).run w = .ok () w' ∧
      w.Leaves w' [d.start] jobs
        (dispatching token d.visits ++ settling token none batch.fadeTargets.length ++
          if batch.fadeTargets = [] then finishing token .animating else [])
        (if batch.fadeTargets = [] then w.table.remove token
          else w.table.put token
            { kind, phase := .animating, assigned, fades := some (jobs.map Job.id), generation }) := by
  intro d jobs
  let r : Record := { kind, assigned, generation }
  have hoffered : w.stage.Draws (fun _ => True) (w.offered token r batch start).stage [] :=
    w.draws_offered token r batch start
  have hstage := (w.offered token r batch start).faded_kept token r batch d.start
    ((w.offered_executor token r batch start).symm ▸ he)
  rw [offered_jobs, offered_animation, offered_config, hc.animation, Control.fadeJobs_nth,
    hoffered.transactions, List.map_nil, List.append_nil] at hstage
  have hids : (w.nextAnimation).upFrom batch.fadeTargets.length = jobs.map Job.id := by
    rw [hc.animation, Control.ids_fadesBehind]
  by_cases hn : batch.fadeTargets = []
  · have hrun := (Control.ready_outcome ht token batch start).unique (.unfaded hr rfl hb ho hn)
    have hleads := w.leadsTo_unfaded token kind assigned generation batch start hn
    simp only [if_pos hn]
    have hleft : Stage.Draws (fun _ => True) ((w.offered token r batch start).faded token r batch d.start).stage
        (((w.offered token r batch start).faded token r batch d.start).left token .animating).stage [] :=
      draws_left _ token .animating
    refine ⟨_, hrun, ?_, hstage.2, ?_, hleads.table⟩
    · rw [hleft.transactions, hstage.1]
      exact List.append_nil _
    · rw [hleads.stage.log, List.append_assoc, hn]
      rfl
  · have hrun := (Control.ready_outcome ht token batch start).unique (.faded hr rfl hb ho hn)
    have hleads := w.leadsTo_fading token kind assigned generation batch start
    simp only [if_neg hn, List.append_nil]
    refine ⟨_, hrun, ?_, hstage.2, hleads.stage.log, ?_⟩
    · exact hstage.1
    · rw [hleads.table, hids]

/-! ## Ids that are new -/

/-- A default animation runs under the id, or its job is in the pool. -/
def Uses (w : Shell η α ε) (a : AnimationId) : Prop :=
  (∃ token, a ∈ w.table.fadesOf token) ∨ ∃ j ∈ w.stage.jobs, j.id = a

/-- The ids that come next have not been used at any point of the run. -/
theorem next_ids_unused (config : Config) (authority : α) (executor : ε) (moves : List (Move η)) {count : Nat}
    (hcount : ((fresh config authority executor : Shell η α ε).run moves).stage.allotments + count ≤ 2 ^ 64)
    {before after : List (Move η)}
    (hsplit : (fresh config authority executor : Shell η α ε).singly moves = before ++ after) :
    ∀ a ∈ (AnimationId.nth ((fresh config authority executor : Shell η α ε).run moves).stage.allotments).upFrom count,
      ¬ ((fresh config authority executor : Shell η α ε).run before).Uses a := by
  intro a ha huses
  obtain ⟨k, hk, hk', hka⟩ := AnimationId.mem_upFrom_nth.mp ha
  obtain ⟨hat, hbefore⟩ := kept_resting.run before _ (resting_fresh (η := η) config authority executor)
  have hle := ((kept_allotted _).run after _ ⟨hat, Nat.le_refl _⟩).2
  rw [← run_append, ← hsplit, run_singly] at hle
  -- whatever is in use has one of the ids given out so far
  have hused : ∃ i < ((fresh config authority executor : Shell η α ε).run before).stage.allotments,
      AnimationId.nth i = a := by
    rcases huses with ⟨other, hrunning⟩ | ⟨j, hj, hid⟩
    · exact (hbefore.apart (by omega)).below hrunning
    · obtain ⟨i, hi, hij⟩ := run_numbered config authority executor before j hj
      exact ⟨i, hi, hij.trans hid⟩
  obtain ⟨i, hi, hia⟩ := hused
  have hik := AnimationId.nth_injOn (by omega) (by omega) (hia.trans hka.symm)
  omega

/-! ## Runs -/

/-- After every run, whatever has come to the shell, `ready` succeeds for a waiting transition, with any batch and start
transaction. Without a root the transaction is applied as it comes, nobody is offered anything, no job is created and
the transition finishes at once. Otherwise it is offered in turn, and the handlers edit the transaction, to which the
start state of the batch is appended, one after the other. If a handler accepts, what is left is applied unless it is
empty, no job is created, and the acceptor owns the transition, which is animated. If all decline, and the executor
keeps jobs for later, what is left is applied even if it is empty, and nothing else is drawn; one job for each fade
target enters the pool, in the order of the targets and under ids in a row, which are the ids recorded; their number is
reported, and the transition finishes at once exactly if there are none. As long as there are not more than `2 ^ 64`
animations in all, the ids are distinct and at no point of the run has any of them been in use. -/
theorem run_ready_effects (config : Config) (authority : α) (executor : ε) (moves : List (Move η)) :
    let first := (fresh config authority executor : Shell η α ε)
    let w := first.run moves
    ∀ token r batch start, w.table.get? token = some r → r.phase = .pending →
      let offers := Registry.offersAlong token r.generation batch (w.handlers.offerOrder r.assigned)
        (start ++ batch.startState)
      let left := Registry.leftBy offers (start ++ batch.startState)
      let offering := dispatching token (offers.map Offer.visit)
      let targets := batch.fadeTargets
      let jobs := Control.fadesBehind w.stage.allotments w.config token targets
      (batch.hasRoot = false →
        ∃ w', (Control.ready token batch start).run w = .ok () w' ∧ w'.handlers = w.handlers ∧
          w.Leaves w' [start] []
            (.event (.phaseChanged token .pending .dispatching) :: finishing token .dispatching)
            (w.table.remove token)) ∧
      (batch.hasRoot = true → ∀ o, offers.find? Offer.isAccepted = some o →
        ∃ w', (Control.ready token batch start).run w = .ok () w' ∧
          w.Leaves w' (if left.isEmpty then [] else [left]) []
            (offering ++ settling token (some o.ticket.handler) 0)
            (w.table.put token { r with phase := .animating, owner := some o.ticket.handler })) ∧
      (batch.hasRoot = true → (∀ o ∈ offers, o.isAccepted = false) → Executor.Keeps w.executor →
        (∃ w', (Control.ready token batch start).run w = .ok () w' ∧
          w.Leaves w' [left] jobs
            (offering ++ settling token none targets.length ++
              if targets = [] then finishing token .animating else [])
            (if targets = [] then w.table.remove token
              else w.table.put token { r with phase := .animating, fades := some (jobs.map Job.id) })) ∧
        (w.stage.allotments + targets.length ≤ 2 ^ 64 →
          (jobs.map Job.id).Nodup ∧
            ∀ before after, first.singly moves = before ++ after → ∀ j ∈ jobs, ¬ (first.run before).Uses j.id)) := by
  intro first w token r batch start hr hp offers left offering targets jobs
  obtain ⟨hrest, hresting⟩ : w.table.AtRest ∧ w.Resting :=
    kept_resting.run moves _ (resting_fresh (η := η) config authority executor)
  obtain ⟨kind, assigned, generation, rfl⟩ := hrest.pending hr hp
  have hd : (w.offers token { kind, assigned, generation } batch start).Follows offers w.handlers
      (start ++ batch.startState) :=
    Registry.dispatch_follows token generation batch assigned w.handlers (start ++ batch.startState)
  have hids : jobs.map Job.id = (AnimationId.nth w.stage.allotments).upFrom targets.length :=
    Control.ids_fadesBehind _ _ _ _
  refine ⟨fun hb => ready_rootless start hrest hr hb, fun hb o ho => ?_, fun hb hdeclined he => ⟨?_, fun hbound => ?_⟩⟩
  · have howner : (w.offers token { kind, assigned, generation } batch start).owner = some o.ticket.handler := by
      rw [hd.owner, ho, Option.map_some]
    have howned := ready_owned start hrest hr hb howner
    simp only [hd.start, hd.visits] at howned
    exact howned
  · have hnobody : (w.offers token { kind, assigned, generation } batch start).owner = none := by
      rw [hd.owner, List.find?_eq_none.mpr fun o ho => by simp [hdeclined o ho], Option.map_none]
    have hfaded := ready_faded start hrest hresting.counted he hr hb hnobody
    simp only [hd.start, hd.visits] at hfaded
    exact hfaded
  · refine ⟨?_, fun before after hsplit j hj => ?_⟩
    · rw [hids]
      exact AnimationId.nodup_upFrom_nth hbound
    · refine next_ids_unused config authority executor moves hbound hsplit j.id ?_
      rw [← hids]
      exact List.mem_map_of_mem hj

/-- A transition waits beside one handler, which accepts or declines everything. -/
def besideOne (accepts : Bool) : List (Move Rehearsal.Actor) :=
  [.addHandler { name := "one", manner := .steady accepts }, .start .opening [] none]

def twoWindows : Batch where
  kind := .opening
  root := some ⟨1⟩
  participants := [{ surface := ⟨2⟩, mode := .opening }, { surface := ⟨3⟩, mode := .opening }]

theorem run_ready_effects_three_ways :
    let w := fun accepts => (fresh {} (⟨0, false⟩ : Rehearsal.Issuer) Rehearsal.Pace.keeps).run (besideOne accepts)
    (∃ w', (Control.ready ⟨1⟩ twoWindows []).run (w false) = .ok () w' ∧ w'.stage.transactions.length = 1 ∧
        w'.stage.jobs.map Job.id = [⟨0⟩, ⟨1⟩] ∧ w'.table.tokens = [⟨1⟩] ∧
        ∀ j ∈ w'.stage.jobs, ¬ (w false).Uses j.id) ∧
      (∃ w', (Control.ready ⟨1⟩ twoWindows []).run (w true) = .ok () w' ∧ w'.stage.jobs = [] ∧
        (w'.table.get? ⟨1⟩).bind (·.owner) = some ⟨0⟩) ∧
      ∃ w', (Control.ready ⟨1⟩ { kind := .opening } [⟨⟨2⟩, .layer 3⟩]).run (w false) = .ok () w' ∧
        w'.stage.transactions = [[⟨⟨2⟩, .layer 3⟩]] ∧ w'.table = [] := by
  intro w
  have record : ∀ accepts, (w accepts).table.get? ⟨1⟩ =
      some { kind := .opening, assigned := none, generation := 1 } := by
    decide
  have nothing : ∀ accepts, (w accepts).stage.transactions = [] ∧ (w accepts).stage.jobs = [] := by
    intro accepts
    cases accepts <;> exact ⟨rfl, rfl⟩
  refine ⟨?_, ?_, ?_⟩
  · obtain ⟨_, _, hdeclined⟩ := run_ready_effects {} (⟨0, false⟩ : Rehearsal.Issuer) Rehearsal.Pace.keeps
      (besideOne false) ⟨1⟩ _ twoWindows [] (record false) rfl
    obtain ⟨⟨w', hrun, hleaves⟩, hnew⟩ := hdeclined rfl (by decide +kernel) Rehearsal.Pace.keeps_keeps
    have hjobs := hleaves.jobs
    rw [(nothing false).2, List.nil_append] at hjobs
    refine ⟨w', hrun, ?_, ?_, ?_, ?_⟩
    · rw [hleaves.transactions, (nothing false).1]
      rfl
    · rw [hjobs, Control.ids_fadesBehind]
      rfl
    · rw [hleaves.table]
      rfl
    · rw [hjobs]
      exact (hnew (by decide)).2 (besideOne false) [] rfl
  · obtain ⟨_, haccepted, _⟩ := run_ready_effects {} (⟨0, false⟩ : Rehearsal.Issuer) Rehearsal.Pace.keeps
      (besideOne true) ⟨1⟩ _ twoWindows [] (record true) rfl
    obtain ⟨w', hrun, hleaves⟩ := haccepted rfl _ rfl
    refine ⟨w', hrun, ?_, ?_⟩
    · rw [hleaves.jobs, (nothing true).2]
      rfl
    · rw [hleaves.table]
      rfl
  · obtain ⟨hrootless, _⟩ := run_ready_effects {} (⟨0, false⟩ : Rehearsal.Issuer) Rehearsal.Pace.keeps
      (besideOne false) ⟨1⟩ _ { kind := .opening } [⟨⟨2⟩, .layer 3⟩] (record false) rfl
    obtain ⟨w', hrun, _, hleaves⟩ := hrootless rfl
    refine ⟨w', hrun, ?_, ?_⟩
    · rw [hleaves.transactions, (nothing false).1]
      rfl
    · rw [hleaves.table]
      rfl

end Shell

end WindowTransitions
