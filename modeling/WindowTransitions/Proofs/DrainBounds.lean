import WindowTransitions.Proofs.Drains
import WindowTransitions.Proofs.ReadyEffects

/-! How many messages a drain handles. The measure is the load of the stage, the messages that wait and the jobs in the
pool together, plus what each waiting batch may still add to it: one ticket for each handler and one job for each fade.
Every message that is taken lowers it, whatever the executor does with jobs, for the end of a job takes it from the
pool. Main statement: a drain ends, and handles at most the messages in the queue, what their batches may add, and
the jobs that were in the pool; and what is posted meanwhile leads to nothing further. Without the jobs of before, or
with handlers that present tickets when they are asked about a request, the bound fails. -/

set_option autoImplicit false

namespace WindowTransitions

/-! ## Handlers and executors -/

/-- A handler to which a transition is offered presents the ticket that it gets or nothing. -/
def Handler.PresentsOwn (η : Type) [Handler η] : Prop :=
  ∀ (h : η) ticket batch start, (Handler.offer h ticket batch start).posted = [] ∨
    (Handler.offer h ticket batch start).posted = [.handlerDone ticket]

/-- A handler that is asked about a request posts nothing. -/
def Handler.SilentWhenAsked (η : Type) [Handler η] : Prop :=
  ∀ (h : η) kind token trigger, (Handler.request h kind token trigger).posted = []

theorem Handler.PresentsOwn.posts {η : Type} [Handler η] (own : Handler.PresentsOwn η)
    (silent : Handler.SilentWhenAsked η) : Handler.Posts η fun m => m.isCompletion = true := by
  intro h
  refine ⟨fun kind token trigger m hm => ?_, fun ticket batch start m hm => ?_⟩
  · rw [silent h] at hm
    cases hm
  · rcases own h ticket batch start with hnone | hone
    · rw [hnone] at hm
      cases hm
    · rw [hone, List.mem_singleton] at hm
      rw [hm]
      rfl

/-- The messages that `m` may lead to, with so many handlers: a ticket that each presents, and the end of each fade. -/
def Message.followers (handlers : Nat) : Message → Nat
  | .ready _ batch _ => handlers + batch.fadeTargets.length
  | .request _ _ _ | .handlerDone _ | .fadeDone _ _ | .shutdown => 0

theorem Message.followers_of_isCompletion {m : Message} (h : m.isCompletion = true) (handlers : Nat) :
    m.followers handlers = 0 := by
  cases m with
  | handlerDone | fadeDone => rfl
  | ready | request | shutdown => cases h

/-- Of the jobs in the pool the executor ends none but the one that it gets, which is the last. -/
def Executor.EndsOwn (ε : Type) [Executor ε] : Prop :=
  ∀ (e : ε) jobs index how, .conclude index how ∈ (Executor.execute e jobs).1 → jobs.length ≤ index + 1

/-! ## The load of a stage -/

namespace Stage

/-- The messages that wait and the jobs in the pool. -/
def load (s : Stage) : Nat := s.queue.length + s.jobs.length

theorem load_post_le (s : Stage) (m : Message) : (s.post m).load ≤ s.load + 1 := by
  unfold post
  split
  · simp only [load, note, List.length_append, List.length_singleton]
    omega
  · omega

theorem load_posts_le (s : Stage) (messages : List Message) :
    (messages.foldl post s).load ≤ s.load + messages.length := by
  induction messages generalizing s with
  | nil => exact Nat.le_refl _
  | cons m messages ih =>
    have hpost := s.load_post_le m
    have hrest := ih (s.post m)
    rw [List.foldl_cons, List.length_cons]
    omega

theorem load_conclude_le (s : Stage) (j : Job) (how : Ending) : (s.conclude j how).load ≤ s.load + 1 := by
  cases he : j.ended with
  | true =>
    rw [conclude_ended s he]
    omega
  | false =>
    rw [conclude_eq s he]
    exact load_post_le _ _

/-- A job that ends leaves the pool for the message it posts. -/
theorem load_perform_le (s : Stage) (a : Act) : (s.perform a).load ≤ s.load := by
  cases a with
  | frame index fraction =>
    simp only [perform]
    split <;> exact Nat.le_refl _
  | conclude index how =>
    simp only [perform, concludeAt]
    split
    · rename_i j hj
      have hend := load_conclude_le { s with jobs := s.jobs.eraseIdx index } j how
      have hindex := (List.getElem?_eq_some_iff.mp hj).1
      simp only [load, List.length_eraseIdx_of_lt hindex] at hend ⊢
      omega
    · exact Nat.le_refl _

theorem load_acts_le (s : Stage) (acts : List Act) : (acts.foldl perform s).load ≤ s.load := by
  induction acts generalizing s with
  | nil => exact Nat.le_refl _
  | cons a acts ih => exact (ih (s.perform a)).trans (s.load_perform_le a)

/-- Acts on jobs behind the first ones leave these in the pool. -/
theorem acts_jobs (s : Stage) (old : List Job) {acts : List Act} (h : old <+: s.jobs)
    (hacts : ∀ index how, .conclude index how ∈ acts → old.length ≤ index) : old <+: (acts.foldl perform s).jobs := by
  induction acts generalizing s with
  | nil => exact h
  | cons a acts ih =>
    refine ih (s.perform a) ?_ fun index how hmem => hacts index how (List.mem_cons_of_mem a hmem)
    cases a with
    | frame index fraction =>
      simp only [perform]
      split <;> exact h
    | conclude index how =>
      simp only [perform, concludeAt]
      split
      · have hindex := hacts index how List.mem_cons_self
        obtain ⟨others, hothers⟩ := h
        rw [conclude_jobs, ← hothers, List.eraseIdx_append_of_length_le hindex]
        exact List.prefix_append _ _
      · exact h

end Stage

namespace Shell

variable {η α ε : Type}

theorem load_visits_le (w : Shell η α ε) {visits : List Visit} {n : Nat} (hv : ∀ v ∈ visits, v.posted.length ≤ n) :
    (visits.foldl visited w).stage.load ≤ w.stage.load + visits.length * n := by
  induction visits generalizing w with
  | nil => simp
  | cons v visits ih =>
    have hvisit : (w.visited v).stage.load ≤ w.stage.load + v.posted.length :=
      (w.stage.note v.call).load_posts_le v.posted
    have hrest := ih (w.visited v) fun u hu => hv u (List.mem_cons_of_mem v hu)
    have hone := hv v List.mem_cons_self
    rw [List.foldl_cons, List.length_cons, Nat.succ_mul]
    omega

theorem load_withVisits_le (w : Shell η α ε) (handlers : Registry η) {visits : List Visit} {n : Nat}
    (hv : ∀ v ∈ visits, v.posted.length ≤ n) :
    (w.withVisits handlers visits).stage.load ≤ w.stage.load + visits.length * n :=
  load_visits_le { w with handlers } hv

theorem appliedRest_load (w : Shell η α ε) (start : Transaction) :
    (w.appliedRest start).stage.load = w.stage.load ∧ (w.appliedRest start).stage.jobs = w.stage.jobs := by
  unfold appliedRest
  split <;> exact ⟨rfl, rfl⟩

theorem load_launches_le [Executor ε] (w : Shell η α ε) (jobs : List Job) :
    (jobs.foldl launch w).stage.load ≤ w.stage.load + jobs.length := by
  induction jobs generalizing w with
  | nil => exact Nat.le_refl _
  | cons j jobs ih =>
    have hlaunch : (w.launch j).stage.load ≤ (w.stage.enter j).load :=
      Stage.load_acts_le _ (Executor.execute w.executor (w.stage.enter j).jobs).1
    have henter : (w.stage.enter j).load = w.stage.load + 1 := by
      simp [Stage.load, Stage.enter, Nat.add_assoc]
    have hrest := ih (w.launch j)
    rw [List.foldl_cons, List.length_cons]
    omega

theorem launches_jobs [Executor ε] (own : Executor.EndsOwn ε) (w : Shell η α ε) (jobs : List Job) :
    w.stage.jobs <+: (jobs.foldl launch w).stage.jobs := by
  induction jobs generalizing w with
  | nil => exact List.prefix_rfl
  | cons j jobs ih =>
    refine List.IsPrefix.trans ?_ (ih (w.launch j))
    refine Stage.acts_jobs (w.stage.enter j) w.stage.jobs (List.prefix_append _ _) fun index how hmem => ?_
    have hindex := own _ _ index how hmem
    simp only [Stage.enter, List.length_append, List.length_singleton] at hindex
    omega

end Shell

/-! ## The load under an operation -/

/-- No handler is offered a transition twice. -/
theorem Registry.length_offerOrder_le {η : Type} (r : Registry η) (assigned : Option HandlerId) :
    (r.offerOrder assigned).length ≤ r.length := by
  have hnodup : ((r.offerOrder assigned).map (·.1.index)).Nodup := by
    have hids := r.nodup_offerOrder assigned
    rw [← Function.comp_def, ← List.map_map]
    exact hids.map fun id id' hid => by cases id; cases id'; exact congrArg HandlerId.mk hid
  have hbelow : (r.offerOrder assigned).map (·.1.index) ⊆ List.range r.length := by
    intro index hindex
    obtain ⟨⟨id, a⟩, he, rfl⟩ := List.mem_map.mp hindex
    have hget := (List.getElem?_eq_some_iff.mp (Registry.mem_offerOrder.mp he)).1
    rw [List.length_reverse] at hget
    exact List.mem_range.mpr hget
  have hlength := (hnodup.subperm hbelow).length_le
  rwa [List.length_map, List.length_range] at hlength

namespace Shell

variable {η α ε : Type}

/-- The step from `w` to `w'` adds at most `n` to the load, and an executor that ends no job but the one that it gets
leaves the pool as it was, with jobs behind it perhaps. -/
structure AddsAtMost [Executor ε] (w w' : Shell η α ε) (n : Nat) : Prop where
  load : w'.stage.load ≤ w.stage.load + n
  jobs : Executor.EndsOwn ε → w.stage.jobs <+: w'.stage.jobs

theorem AddsAtMost.unchanged [Executor ε] {w w' : Shell η α ε} (n : Nat) (hl : w'.stage.load = w.stage.load)
    (hj : w'.stage.jobs = w.stage.jobs) : w.AddsAtMost w' n where
  load := by omega
  jobs _ := by rw [hj]

theorem faded_addsAtMost [Executor ε] (w : Shell η α ε) (token : Token) (r : Record) (batch : Batch)
    (start : Transaction) : w.AddsAtMost (w.faded token r batch start) batch.fadeTargets.length := by
  let ids := w.nextAnimation.upFrom batch.fadeTargets.length
  let begun := (w.allotted batch start).settled token { r with fades := some ids } batch.fadeTargets.length
  have hlength : (Control.fadeJobs w.config token ids batch.fadeTargets).length = batch.fadeTargets.length := by
    simp [Control.fadeJobs, ids, Control.length_upFrom]
  have hlaunches := begun.load_launches_le (Control.fadeJobs w.config token ids batch.fadeTargets)
  rw [hlength] at hlaunches
  exact ⟨hlaunches, fun own => launches_jobs own begun (Control.fadeJobs w.config token ids batch.fadeTargets)⟩

section Operations
variable [Executor ε] [Authority α] {w : Shell η α ε}

theorem addsAtMost_of_start {v u : Shell η α ε} {kind : Kind} {placeholder : Option Token}
    {containers : Option Container.Transaction} {assigned : Option HandlerId} {c : Control η α ε Token}
    (hv : w.AddsAtMost v 0) (h : Control.StartOutcome v kind placeholder containers assigned (c.run u)) :
    w.AddsAtMost (c.perform u).2 0 := by
  generalize hr : c.run u = result at h
  cases h with
  | refused =>
    rw [Control.perform_of_error hr]
    exact ⟨hv.load, hv.jobs⟩
  | entered =>
    rw [Control.perform_of_ok hr]
    exact ⟨hv.load, hv.jobs⟩

theorem handlerDone_addsAtMost (ht : w.table.AtRest) (ticket : Ticket) :
    w.AddsAtMost ((Control.handlerDone ticket).perform w).2 0 := by
  by_cases h : w.table.Honours ticket
  · rw [Control.perform_of_ok (Control.run_handlerDone ht h)]
    exact .unchanged 0 rfl rfl
  · rw [Control.perform_of_ok (Control.run_handlerDone_ignored h)]
    exact .unchanged 0 rfl rfl

theorem fadeDone_addsAtMost (ht : w.table.AtRest) (token : Token) (a : AnimationId) :
    w.AddsAtMost ((Control.fadeDone token a).perform w).2 0 := by
  have hout := Control.fadeDone_outcome ht token a
  generalize hr : (Control.fadeDone token a).run w = result at hout
  cases hout with
  | unknown =>
    rw [Control.perform_of_error hr]
    exact .unchanged 0 rfl rfl
  | untracked | fewer | last =>
    rw [Control.perform_of_ok hr]
    exact .unchanged 0 rfl rfl

end Operations

section Calls
variable [Handler η]

theorem length_offers_le (w : Shell η α ε) (token : Token) (r : Record) (batch : Batch) (start : Transaction) :
    (w.offers token r batch start).visits.length ≤ w.handlers.length := by
  have hfollows := Registry.dispatch_follows token r.generation batch r.assigned w.handlers (start ++ batch.startState)
  have hgoes : Registry.GoesAlong token r.generation batch (w.handlers.offerOrder r.assigned)
      (start ++ batch.startState) _ := Registry.offersAlong_goes _ _
  have hentries := hgoes.entries.length_le
  rw [offers, hfollows.visits, List.length_map]
  rw [List.length_map] at hentries
  exact hentries.trans (w.handlers.length_offerOrder_le r.assigned)

theorem load_offered_le (own : Handler.PresentsOwn η) (w : Shell η α ε) (token : Token) (r : Record) (batch : Batch)
    (start : Transaction) :
    (w.offered token r batch start).stage.load ≤ w.stage.load + w.handlers.length := by
  have hd := Registry.dispatch_sound token r.generation batch r.assigned w.handlers (start ++ batch.startState)
  have hposts : ∀ v ∈ (w.offers token r batch start).visits, v.posted.length ≤ 1 := by
    intro v hv
    obtain ⟨h, id, start', _, rfl⟩ := hd.visits v hv
    rcases own h ⟨token, id, r.generation⟩ batch start' with hnone | hone
    · simp [hnone]
    · simp [hone]
  have hvisits := load_withVisits_le (w.turned token r .dispatching) (w.offers token r batch start).handlers hposts
  have hlength := w.length_offers_le token r batch start
  have hturned : (w.turned token r .dispatching).stage.load = w.stage.load := rfl
  rw [offered]
  omega

theorem load_asked (silent : Handler.SilentWhenAsked η) (w : Shell η α ε) (kind : Kind) (token : Token)
    (trigger : Option Trigger) : (w.asked kind token trigger).stage.load ≤ w.stage.load := by
  have hposts : ∀ v ∈ (w.handlers.negotiate kind token trigger).visits, v.posted.length ≤ 0 := by
    intro v hv
    obtain ⟨h, _, _, rfl⟩ := w.handlers.negotiate_visits kind token trigger v hv
    simp [silent h]
  exact load_withVisits_le w (w.handlers.negotiate kind token trigger).handlers hposts

variable [Executor ε] [Authority α] {w : Shell η α ε}

theorem request_addsAtMost (silent : Handler.SilentWhenAsked η) (w : Shell η α ε) (kind : Kind) (placeholder : Token)
    (trigger : Option Trigger) : w.AddsAtMost ((Control.request kind placeholder trigger).perform w).2 0 := by
  rcases Control.request_outcome w kind placeholder trigger with ⟨_, h⟩ | ⟨_, h⟩
  · rw [Control.perform_of_error h]
    exact .unchanged 0 rfl rfl
  · refine addsAtMost_of_start ⟨load_asked silent w kind placeholder trigger, fun _ => ?_⟩ h
    rw [asked, withVisits, visits_jobs]

theorem ready_addsAtMost (own : Handler.PresentsOwn η) (ht : w.table.AtRest) (token : Token) (batch : Batch)
    (start : Transaction) :
    w.AddsAtMost ((Control.ready token batch start).perform w).2
      (w.handlers.length + batch.fadeTargets.length) := by
  have hout := Control.ready_outcome ht token batch start
  generalize hr : (Control.ready token batch start).run w = result at hout
  cases hout with
  | unknown | duplicate =>
    rw [Control.perform_of_error hr]
    exact .unchanged _ rfl rfl
  | rootless =>
    rw [Control.perform_of_ok hr]
    exact .unchanged _ rfl rfl
  | @owned r owner h hp hb ho =>
    rw [Control.perform_of_ok hr]
    obtain ⟨hrest, hjobs⟩ := (w.offered token r batch start).appliedRest_load (w.offers token r batch start).start
    have hoffered := load_offered_le own w token r batch start
    rw [offered_jobs] at hjobs
    refine ⟨?_, fun _ => ?_⟩
    · show ((w.offered token r batch start).appliedRest (w.offers token r batch start).start).stage.load ≤ _
      omega
    · show _ <+: ((w.offered token r batch start).appliedRest (w.offers token r batch start).start).stage.jobs
      rw [hjobs]
  | @faded r h hp hb ho hn | @unfaded r h hp hb ho hn =>
    rw [Control.perform_of_ok hr]
    have hoffered := load_offered_le own w token r batch start
    have hfaded := (w.offered token r batch start).faded_addsAtMost token r batch (w.offers token r batch start).start
    have hjobs := hfaded.jobs
    rw [offered_jobs] at hjobs
    refine ⟨?_, hjobs⟩
    refine hfaded.load.trans ?_
    omega

theorem process_addsAtMost (own : Handler.PresentsOwn η) (silent : Handler.SilentWhenAsked η)
    (ht : w.table.AtRest) (m : Message) :
    w.AddsAtMost ((Control.process m).perform w).2 (m.followers w.handlers.length) := by
  rw [Control.perform_process]
  cases m with
  | ready token batch start => exact ready_addsAtMost own ht token batch start
  | request kind token trigger => exact w.request_addsAtMost silent kind token trigger
  | handlerDone ticket => exact handlerDone_addsAtMost ht ticket
  | fadeDone token a => exact fadeDone_addsAtMost ht token a
  | shutdown => exact .unchanged 0 rfl rfl

/-! ## The measure of a drain -/

/-- The load of the stage, and what the messages that wait may lead to. -/
def potential (w : Shell η α ε) : Nat :=
  w.stage.load + (w.stage.queue.map (Message.followers w.handlers.length)).sum

section Measure
variable (own : Handler.PresentsOwn η) (silent : Handler.SilentWhenAsked η)
include own silent

theorem receive_posts (m : Message) (rest : List Message) (w : Shell η α ε) :
    ∃ posted, (w.receive m rest).2.stage.queue = rest ++ posted ∧ ∀ p ∈ posted, p.isCompletion = true :=
  (Control.posts_process (own.posts silent) (fun _ _ => rfl) m (w.take m rest)).queue

theorem receive_lowers (ht : w.table.AtRest) {m : Message} {rest : List Message}
    (hq : w.stage.queue = m :: rest) : (w.receive m rest).2.potential + 1 ≤ w.potential := by
  obtain ⟨posted, hqueue, hposted⟩ := receive_posts own silent m rest w
  obtain ⟨_, hleads⟩ := (process_step (w := w.take m rest) ht m).leadsTo
  have hhandlers : (w.receive m rest).2.handlers.length = w.handlers.length := hleads.handlers
  have hadds : (w.receive m rest).2.stage.load ≤ (w.take m rest).stage.load + m.followers w.handlers.length :=
    (process_addsAtMost (w := w.take m rest) own silent ht m).load
  have htake : (w.take m rest).stage.load + 1 = w.stage.load := by
    simp only [Stage.load, take, Stage.note, hq, List.length_cons]
    omega
  -- what is posted meanwhile leads to nothing
  have hnone : (posted.map (Message.followers w.handlers.length)).sum = 0 :=
    List.sum_eq_zero fun n hn => by
      obtain ⟨p, hp, rfl⟩ := List.mem_map.mp hn
      exact Message.followers_of_isCompletion (hposted p hp) _
  rw [potential, potential, hhandlers, hqueue, hq, List.map_append, List.sum_append, hnone, List.map_cons,
    List.sum_cons]
  omega

end Measure

/-! ## Message by message -/

/-- One after the other, the messages are taken from the front of the queue and processed, with whatever outcome. -/
inductive Receives : Shell η α ε → List Message → Shell η α ε → Prop where
  | refl (w : Shell η α ε) : Receives w [] w
  | cons {w u : Shell η α ε} {m : Message} {rest taken : List Message} (hq : w.stage.queue = m :: rest)
      (h : Receives (w.receive m rest).2 taken u) : Receives w (m :: taken) u

theorem Passes.receives {v u : Shell η α ε} {passed last : List Message} (h : Passes w passed v)
    (hlast : Receives v last u) : Receives w (passed ++ last) u := by
  induction h with
  | refl => exact hlast
  | cons hq hr _ ih =>
    refine .cons hq ?_
    rw [receive, Control.perform_of_ok hr]
    exact ih hlast

theorem drain_receives (limit : Nat) (w : Shell η α ε) :
    Receives w (w.takenWithin limit) (w.drainWithin limit).shell := by
  obtain ⟨passed, last, v, htaken, _, hpasses, hends⟩ := (w.drains limit).passes
  rw [htaken]
  refine hpasses.receives ?_
  generalize w.drainWithin limit = d at hends
  obtain ⟨handled, ending, shell⟩ := d
  cases hends with
  | emptied | cutShort => exact .refl _
  | shutdown hq => exact .cons hq (.refl _)
  | failed hq hr =>
    refine .cons hq ?_
    rw [receive, Control.perform_of_error hr]
    exact .refl _

variable {u : Shell η α ε} {taken : List Message}

section Bounds
variable (own : Handler.PresentsOwn η) (silent : Handler.SilentWhenAsked η)
include own silent

/-- What is handled is taken from the measure. -/
theorem Receives.lowers (h : Receives w taken u) (ht : w.table.AtRest) :
    taken.length + u.potential ≤ w.potential := by
  induction h with
  | refl w => exact Nat.le_of_eq (Nat.zero_add _)
  | @cons w _ m rest _ hq _ ih =>
    have hlower := receive_lowers own silent ht hq
    have hrest := ih (kept_atRest.receive w m rest hq ht)
    rw [List.length_cons]
    omega

/-- An executor that ends no job but the one that it gets leaves those that were in the pool before. -/
theorem Receives.jobs (ends : Executor.EndsOwn ε) (h : Receives w taken u) (ht : w.table.AtRest) :
    w.stage.jobs <+: u.stage.jobs := by
  induction h with
  | refl w => exact List.prefix_rfl
  | @cons w _ m rest _ hq _ ih =>
    have hone : w.stage.jobs <+: (w.receive m rest).2.stage.jobs :=
      (process_addsAtMost (w := w.take m rest) own silent ht m).jobs ends
    exact hone.trans (ih (kept_atRest.receive w m rest hq ht))

/-- What waits and what is posted meanwhile is taken in this order, and all that is posted reports an end. -/
theorem Receives.posts (h : Receives w taken u) :
    ∃ posted, w.stage.queue ++ posted = taken ++ u.stage.queue ∧ ∀ m ∈ posted, m.isCompletion = true := by
  induction h with
  | refl w => exact ⟨[], by simp, by simp⟩
  | @cons w _ m rest _ hq _ ih =>
    obtain ⟨posted, hqueue, hposted⟩ := receive_posts own silent m rest w
    obtain ⟨more, hmore, hall⟩ := ih
    refine ⟨posted ++ more, ?_, fun p hp => (List.mem_append.mp hp).elim (hposted p) (hall p)⟩
    rw [hq, List.cons_append, List.cons_append, ← hmore, hqueue, List.append_assoc]

/-! ## Drains -/

omit own silent [Handler η] [Executor ε] [Authority α] in
theorem drainLimit_eq (w : Shell η α ε) :
    w.drainLimit = w.stage.queue.length + (w.stage.queue.map (Message.followers w.handlers.length)).sum +
      w.stage.jobs.length := by
  have hweight : ∀ m, messageWeight w.handlers.length m = 1 + m.followers w.handlers.length := by
    intro m
    cases m with
    | ready => simp only [messageWeight, Message.followers, Nat.add_assoc]
    | request | handlerDone | fadeDone | shutdown => rfl
  rw [drainLimit]
  congr 1
  induction w.stage.queue with
  | nil => rfl
  | cons m rest ih =>
    rw [List.map_cons, List.foldr_cons, ih, hweight, List.map_cons, List.sum_cons, List.length_cons]
    omega

omit own silent [Handler η] [Executor ε] [Authority α] in
/-- The limit of a drain is what the measure is at its start. -/
theorem potential_eq (w : Shell η α ε) : w.potential = w.drainLimit := by
  rw [drainLimit_eq, potential, Stage.load]
  omega

/-- What a drain handles and what it leaves are within the limit. -/
theorem handled_add_potential_le (ht : w.table.AtRest) (limit : Nat) :
    (w.drainWithin limit).handled + (w.drainWithin limit).shell.potential ≤ w.drainLimit := by
  rw [(w.drains limit).handled, ← potential_eq]
  exact (drain_receives limit w).lowers own silent ht

theorem handled_add_jobs_le (ht : w.table.AtRest) (limit : Nat) :
    (w.drainWithin limit).handled + (w.drainWithin limit).shell.stage.jobs.length ≤ w.drainLimit := by
  have hwithin := handled_add_potential_le own silent ht limit
  simp only [potential, Stage.load] at hwithin
  omega

/-- A drain comes to an end of its own if the limit and the jobs that it leaves in the pool cover the bound. -/
theorem drain_ends_within (ht : w.table.AtRest) {limit : Nat}
    (hl : w.drainLimit ≤ limit + (w.drainWithin limit).shell.stage.jobs.length) :
    (w.drainWithin limit).ending ≠ .cutShort := by
  intro hcut
  have hwithin := handled_add_potential_le own silent ht limit
  obtain ⟨⟨_, last, u, _, _, _, hends⟩, _, hlimited, _⟩ := w.drains limit
  have hempty : (w.drainWithin limit).shell.stage.queue = [] := by
    simp only [potential, Stage.load, hlimited hcut] at hwithin
    exact List.eq_nil_of_length_eq_zero (by omega)
  generalize w.drainWithin limit = d at hcut hempty hends
  obtain ⟨handled, ending, shell⟩ := d
  cases hcut
  cases hends with
  | cutShort hq => exact hq hempty

/-- A drain is never cut short by its own limit, and a larger limit comes to the same. -/
theorem drainLimit_suffices (ht : w.table.AtRest) :
    w.drain.ending ≠ .cutShort ∧ ∀ limit, w.drainLimit ≤ limit → w.drainWithin limit = w.drain := by
  have hends : w.drain.ending ≠ .cutShort := drain_ends_within own silent ht (Nat.le_add_right _ _)
  refine ⟨hends, fun limit hl => ?_⟩
  rw [← Nat.add_sub_cancel' hl, drainWithin_add]
  exact if_neg hends

end Bounds

/-- After every run, if a handler to which a transition is offered presents the ticket of the offer or nothing, and
handlers that are asked about a request post nothing: a drain, with any executor, comes to an end of its own, and no
larger limit changes what it does. It handles at most the messages that wait, for each waiting batch as many more as
there are handlers and fades in it, and the jobs that were in the pool, each of which posts a message when it leaves.
It takes the messages that wait and behind them those that are posted, all of which report an end. An executor that
ends no job but the one that it gets, at once or never, leaves those of before in the pool, and the bound holds without
them. The report of an end, wherever it is taken from the queue, adds nothing to the queue. -/
theorem run_drain_bounded (own : Handler.PresentsOwn η) (silent : Handler.SilentWhenAsked η) (config : Config)
    (authority : α) (executor : ε) (moves : List (Move η)) :
    let w := (fresh config authority executor : Shell η α ε).run moves
    let bound := w.stage.queue.length + (w.stage.queue.map (Message.followers w.handlers.length)).sum
    w.drain.ending ≠ .cutShort ∧ w.drain.handled ≤ bound + w.stage.jobs.length ∧
      (∀ limit,
        let d := w.drainWithin limit
        d.handled + d.shell.stage.jobs.length ≤ bound + w.stage.jobs.length ∧
          (bound + w.stage.jobs.length ≤ limit → d = w.drain) ∧
          d.handled = (w.takenWithin limit).length ∧
          ∃ posted, w.stage.queue ++ posted = w.takenWithin limit ++ d.shell.stage.queue ∧
            ∀ m ∈ posted, m.isCompletion = true) ∧
      (Executor.EndsOwn ε → w.drain.handled ≤ bound ∧
        ∀ limit, w.stage.jobs <+: (w.drainWithin limit).shell.stage.jobs ∧
          (w.drainWithin limit).handled ≤ bound ∧ (bound ≤ limit → (w.drainWithin limit).ending ≠ .cutShort)) ∧
      ∀ (v : Shell η α ε) m rest, v.stage.queue = m :: rest → m.isCompletion = true →
        (v.receive m rest).2.stage.queue = rest := by
  intro w bound
  have ht : w.table.AtRest := kept_atRest.run moves _ (resting_fresh config authority executor).1
  have hlimit : w.drainLimit = bound + w.stage.jobs.length := w.drainLimit_eq
  obtain ⟨hends, hsame⟩ := drainLimit_suffices own silent ht
  have handled : ∀ limit, (w.drainWithin limit).handled + (w.drainWithin limit).shell.stage.jobs.length ≤
      bound + w.stage.jobs.length := fun limit => hlimit ▸ handled_add_jobs_le own silent ht limit
  refine ⟨hends, (Nat.le_add_right _ _).trans (handled w.drainLimit), fun limit => ?_, fun ends => ?_,
    fun v m rest hq hm => ?_⟩
  · exact ⟨handled limit, fun hl => hsame limit (hlimit ▸ hl), (w.drains limit).handled,
      (drain_receives limit w).posts own silent⟩
  · have each : ∀ limit, w.stage.jobs <+: (w.drainWithin limit).shell.stage.jobs ∧
        (w.drainWithin limit).handled ≤ bound ∧ (bound ≤ limit → (w.drainWithin limit).ending ≠ .cutShort) := by
      intro limit
      have hjobs := (drain_receives limit w).jobs own silent ends ht
      have hhandled := handled limit
      have hlength := hjobs.length_le
      exact ⟨hjobs, by omega, fun hl => drain_ends_within own silent ht (by omega)⟩
    exact ⟨(each w.drainLimit).2.1, each⟩
  · obtain ⟨posted, hqueue, hnone⟩ := (Control.posts_completion (p := fun _ => False) hm (v.take m rest)).queue
    obtain rfl : posted = [] := List.eq_nil_iff_forall_not_mem.mpr hnone
    exact hqueue.trans (List.append_nil rest)

end Calls

theorem actor_presentsOwn : Handler.PresentsOwn Rehearsal.Actor := by
  intro a ticket batch start
  simp only [Handler.offer, Rehearsal.Actor.answer]
  split
  · exact .inl rfl
  · exact .inl rfl
  · split
    · exact .inr rfl
    · exact .inl rfl

theorem actor_silentWhenAsked : Handler.SilentWhenAsked Rehearsal.Actor := fun _ _ _ _ => rfl

theorem pace_endsOwn : Executor.EndsOwn Rehearsal.Pace := by
  intro p jobs index how h
  cases p with
  | keeps => cases h
  | ends how' =>
    obtain ⟨rfl, -⟩ := Act.conclude.inj (List.mem_singleton.mp h)
    omega

/-- A batch that closes some windows, each with a fade. -/
def closingOf (surfaces : List Surface) : Batch where
  kind := .closing
  root := some ⟨1⟩
  participants := surfaces.map fun surface => { surface, mode := .closing }

/-- A batch with two fades waits beside a handler that declines and presents its ticket nevertheless. -/
def hasty : List (Move Rehearsal.Actor) :=
  [.addHandler { name := "hasty", manner := .scripted [] [] true none none }, .start .opening [] none,
    .post (.ready ⟨1⟩ (closingOf [⟨2⟩, ⟨3⟩]) [])]

/-- An executor with room for so many jobs: when it gets one more, it ends all that it has. -/
structure Cramped where
  room : Nat

instance : Executor Cramped where
  execute e jobs := (if jobs.length ≤ e.room then [] else jobs.map fun _ => .conclude 0 .finish, e)

/-- Two fades run, and a batch with one more waits. -/
def oneMore : List (Move Rehearsal.Actor) :=
  [.start .opening [] none, .start .opening [] none, .ready ⟨1⟩ (closingOf [⟨2⟩, ⟨3⟩]) [],
    .post (.ready ⟨2⟩ (closingOf [⟨4⟩]) [])]

/-- Both bounds are reached: with fades that end at once, and with an executor that ends those of before as well. -/
theorem run_drain_bounded_reached :
    let w := (fresh {} (⟨0, false⟩ : Rehearsal.Issuer) (Rehearsal.Pace.ends .finish)).run hasty
    let v := (fresh {} (⟨0, false⟩ : Rehearsal.Issuer) (⟨2⟩ : Cramped)).run oneMore
    (w.stage.queue.length = 1 ∧ w.drain.handled = 4 ∧ w.drain.handled ≤ 1 + (1 + 2) ∧ w.drain.ending ≠ .cutShort) ∧
      v.stage.queue.length = 1 ∧ v.stage.jobs.length = 2 ∧ v.drain.handled = 4 ∧
      v.drain.handled ≤ 1 + (0 + 1) + 2 ∧ v.drain.ending ≠ .cutShort := by
  intro w v
  obtain ⟨hending, _, _, hends, _⟩ := run_drain_bounded actor_presentsOwn actor_silentWhenAsked {}
    (⟨0, false⟩ : Rehearsal.Issuer) (Rehearsal.Pace.ends .finish) hasty
  have hbound : w.stage.queue.length + (w.stage.queue.map (Message.followers w.handlers.length)).sum = 4 := by
    decide
  obtain ⟨hending', hhandled, _⟩ := run_drain_bounded actor_presentsOwn actor_silentWhenAsked {}
    (⟨0, false⟩ : Rehearsal.Issuer) (⟨2⟩ : Cramped) oneMore
  have hbound' : v.stage.queue.length + (v.stage.queue.map (Message.followers v.handlers.length)).sum +
      v.stage.jobs.length = 4 := by
    decide +kernel
  refine ⟨⟨by decide, by decide +kernel, hbound ▸ (hends pace_endsOwn).1, hending⟩, ?_⟩
  exact ⟨by decide +kernel, by decide +kernel, by decide +kernel, hbound' ▸ hhandled, hending'⟩

/-! ## Where the plain bound fails -/

/-- A handler that accepts every transition, and presents the tickets that it has when it is next asked about a
request. -/
structure Reminded where
  kept : List Ticket := []

instance : Handler Reminded where
  name _ := "reminded"
  request h _ _ _ := { answer := none, handler := {}, posted := h.kept.map .handlerDone }
  offer h ticket _ start := { answer := (true, start), handler := { kept := h.kept ++ [ticket] } }

theorem reminded_presentsOwn : Handler.PresentsOwn Reminded := fun _ _ _ _ => .inl rfl

/-- The handler has a transition, and a request waits. -/
def askedAgain : List (Move Reminded) :=
  [.addHandler {}, .start .opening [] none, .ready ⟨1⟩ (closingOf [⟨2⟩]) [], .post (.request .opening ⟨7⟩ none)]

/-- That handlers present no ticket but that of the offer is not enough for the bound by the messages that wait alone:
the executor may end jobs of before, and handlers may present tickets when they are asked about a request. -/
theorem drain_exceeds_bound :
    let w := (fresh {} (⟨0, false⟩ : Rehearsal.Issuer) (⟨2⟩ : Cramped)).run oneMore
    let v := (fresh {} (⟨0, false⟩ : Rehearsal.Issuer) Rehearsal.Pace.keeps).run askedAgain
    (Handler.PresentsOwn Rehearsal.Actor ∧
      w.stage.queue.length + (w.stage.queue.map (Message.followers w.handlers.length)).sum = 2 ∧
      w.drain.ending = .emptied ∧ w.drain.handled = 4) ∧
    (Handler.PresentsOwn Reminded ∧
      v.stage.queue.length + (v.stage.queue.map (Message.followers v.handlers.length)).sum = 1 ∧
      (v.drainWithin 2).ending = .emptied ∧ (v.drainWithin 2).handled = 2) := by
  intro w v
  exact ⟨⟨actor_presentsOwn, by decide +kernel⟩, reminded_presentsOwn, by decide +kernel⟩

end Shell

end WindowTransitions
