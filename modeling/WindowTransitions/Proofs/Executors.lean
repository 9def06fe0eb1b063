import WindowTransitions.Proofs.Rest
import WindowTransitions.Proofs.Strokes
import WindowTransitions.Rehearsal.Cast

/-! Executors that end jobs at once, and executors that keep them. Main statement: when the pool is empty, every
operation comes to the same under either, in all but the state of the executor, once the jobs that are kept are all
ended, in whatever way. -/

set_option autoImplicit false

namespace WindowTransitions

/-! ## Executors -/

namespace Executor

variable {ε : Type} [Executor ε] {e : ε}

/-- The executor after it has got one job after the other, each with its pool. -/
def after (e : ε) (pools : List (List Job)) : ε := pools.foldl (fun e jobs => (execute e jobs).2) e

/-- Whatever it has got before, it ends the job that it gets, in one way or another. -/
def EndsAtOnce (e : ε) : Prop :=
  ∀ pools jobs, ∃ how, (execute (after e pools) jobs).1 = [.conclude (jobs.length - 1) how]

/-- Whatever it has got before, it leaves the job that it gets in the pool. -/
def Keeps (e : ε) : Prop := ∀ pools jobs, (execute (after e pools) jobs).1 = []

theorem EndsAtOnce.execute (h : EndsAtOnce e) (jobs : List Job) : EndsAtOnce (Executor.execute e jobs).2 :=
  fun pools => h (jobs :: pools)

theorem Keeps.execute (h : Keeps e) (jobs : List Job) : Keeps (Executor.execute e jobs).2 :=
  fun pools => h (jobs :: pools)

end Executor

namespace Rehearsal.Pace

theorem after_self (p : Pace) (pools : List (List Job)) : Executor.after p pools = p := by
  induction pools with
  | nil => rfl
  | cons jobs pools ih => exact ih

theorem endsAtOnce (how : Ending) : Executor.EndsAtOnce (Pace.ends how) := by
  intro pools jobs
  rw [after_self]
  exact ⟨how, rfl⟩

theorem keeps_keeps : Executor.Keeps Pace.keeps := by
  intro pools jobs
  rw [after_self]
  rfl

end Rehearsal.Pace

/-! ## Ending all jobs of a pool -/

namespace Stage

theorem conclude_way (s : Stage) (j : Job) (how how' : Ending) : s.conclude j how = s.conclude j how' := by
  cases hj : j.ended with
  | true => rw [conclude_ended _ hj, conclude_ended _ hj]
  | false => rw [conclude_eq _ hj, conclude_eq _ hj]

/-- The end of a job does not look at the pool. -/
theorem conclude_pool (s : Stage) (pool : List Job) (j : Job) (how : Ending) :
    ({ s with jobs := pool } : Stage).conclude j how = { s.conclude j how with jobs := pool } := by
  cases hj : j.ended with
  | true => rw [conclude_ended _ hj, conclude_ended _ hj]
  | false =>
    rw [conclude_eq _ hj, conclude_eq _ hj]
    cases hs : s.isOpen <;> simp [post, apply, note, hs]

theorem conclude_jobs (s : Stage) (j : Job) (how : Ending) : (s.conclude j how).jobs = s.jobs := by
  have hpool := congrArg jobs (conclude_pool s s.jobs j how)
  exact hpool

/-- The jobs end one after the other. -/
def endings (s : Stage) (jobs : List Job) : Stage := jobs.foldl (fun s j => s.conclude j .drop) s

theorem endings_jobs (s : Stage) (jobs : List Job) : (s.endings jobs).jobs = s.jobs := by
  induction jobs generalizing s with
  | nil => rfl
  | cons j jobs ih => exact (ih _).trans (conclude_jobs s j .drop)

theorem concludeAll_eq (s : Stage) (how : Ending) :
    (s.concludeAll how).2 = ({ s with jobs := [] } : Stage).endings s.jobs := by
  have hway : (fun (s : Stage) j => s.conclude j how) = fun s j => s.conclude j .drop := by
    funext s j
    exact conclude_way s j how .drop
  rw [concludeAll, hway]
  rfl

theorem finishOldest_cons (s : Stage) (j : Job) (jobs : List Job) :
    ({ s with jobs := j :: jobs } : Stage).finishOldest.2 =
      { ({ s with jobs := [] } : Stage).conclude j .drop with jobs } := by
  rw [← conclude_pool _ jobs, conclude_way _ j .drop .finish]
  rfl

/-- To end the oldest job until none is left is to end them all. -/
theorem finishOldest_iterate (s : Stage) (jobs : List Job) {n : Nat} (hn : jobs.length ≤ n) :
    (fun s : Stage => s.finishOldest.2)^[n] { s with jobs } = ({ s with jobs := [] } : Stage).endings jobs := by
  induction jobs generalizing s n with
  | nil =>
    have hstill : (fun s : Stage => s.finishOldest.2) { s with jobs := [] } = { s with jobs := [] } := rfl
    exact Function.iterate_fixed hstill n
  | cons j jobs ih =>
    rw [List.length_cons] at hn
    obtain ⟨n, rfl⟩ : ∃ m, n = m + 1 := ⟨n - 1, by omega⟩
    rw [Function.iterate_succ_apply, finishOldest_cons s j jobs, ih _ (by omega), ← conclude_pool _ []]
    rfl

end Stage

namespace Shell

variable {η α ε ε' : Type}

/-- The same shell under another executor. -/
def under (w : Shell η α ε) (e : ε') : Shell η α ε' := { w with executor := e }

/-! ## Jobs under either kind of executor -/

section Launches
variable [Executor ε] {w : Shell η α ε}

theorem launch_eq (w : Shell η α ε) (j : Job) :
    w.launch j =
      ({ w with
        stage := (Executor.execute w.executor (w.stage.enter j).jobs).1.foldl Stage.perform (w.stage.enter j) } :
          Shell η α ε).under (Executor.execute w.executor (w.stage.enter j).jobs).2 := rfl

theorem launch_atOnce (j : Job) (he : Executor.EndsAtOnce w.executor) (hw : w.stage.jobs = []) :
    ∃ e : ε, Executor.EndsAtOnce e ∧
      w.launch j = ({ w with stage := w.stage.conclude j .drop } : Shell η α ε).under e := by
  have hpool : (w.stage.enter j).jobs = [j] := by simp [Stage.enter, hw]
  have hempty : ({ w.stage with jobs := [] } : Stage) = w.stage := by rw [← hw]
  obtain ⟨how, hacts⟩ : ∃ how, (Executor.execute w.executor [j]).1 = [.conclude 0 how] := he [] [j]
  have hend : (w.stage.enter j).perform (.conclude 0 how) = w.stage.conclude j .drop := by
    rw [Stage.conclude_way _ j .drop how, ← hempty]
    simp [Stage.perform, Stage.concludeAt, Stage.enter]
  refine ⟨(Executor.execute w.executor [j]).2, he.execute [j], ?_⟩
  rw [launch_eq, hpool, hacts, List.foldl_cons, List.foldl_nil, hend]

theorem launches_atOnce (jobs : List Job) (he : Executor.EndsAtOnce w.executor) (hw : w.stage.jobs = []) :
    ∃ e : ε, Executor.EndsAtOnce e ∧
      jobs.foldl launch w = ({ w with stage := w.stage.endings jobs } : Shell η α ε).under e := by
  induction jobs generalizing w with
  | nil => exact ⟨w.executor, he, rfl⟩
  | cons j jobs ih =>
    obtain ⟨e, he', hlaunch⟩ := launch_atOnce j he hw
    have hidle : (w.launch j).stage.jobs = [] := by
      rw [hlaunch]
      exact (Stage.conclude_jobs w.stage j .drop).trans hw
    obtain ⟨e', he'', hrest⟩ := ih (w := w.launch j) (by rw [hlaunch]; exact he') hidle
    refine ⟨e', he'', ?_⟩
    rw [List.foldl_cons, hrest, hlaunch]
    rfl

theorem launches_kept (he : Executor.Keeps w.executor) (jobs : List Job) : ∃ e : ε, Executor.Keeps e ∧
    jobs.foldl launch w =
      ({ w with stage := { w.stage with jobs := w.stage.jobs ++ jobs } } : Shell η α ε).under e := by
  induction jobs generalizing w with
  | nil => exact ⟨w.executor, he, by simp [under]⟩
  | cons j jobs ih =>
    have hlaunch : w.launch j = ({ w with stage := w.stage.enter j } : Shell η α ε).under
        (Executor.execute w.executor (w.stage.enter j).jobs).2 := by
      have hacts : (Executor.execute w.executor (w.stage.enter j).jobs).1 = [] := he [] _
      rw [launch_eq, hacts, List.foldl_nil]
    obtain ⟨e, he', hrest⟩ := ih (w := w.launch j) (by rw [hlaunch]; exact he.execute _)
    refine ⟨e, he', ?_⟩
    rw [List.foldl_cons, hrest, hlaunch]
    simp [under, Stage.enter]

end Launches

end Shell

/-! ## Operations that start no jobs -/

namespace Control

variable {η α ε ε' β : Type}

/-- The result of an operation with its shell changed by `f`. -/
def onShell (f : Shell η α ε → Shell η α ε') :
    EStateM.Result Fault (Shell η α ε) β → EStateM.Result Fault (Shell η α ε') β
  | .ok b w => .ok b (f w)
  | .error fault w => .error fault (f w)

variable [Authority α] {w : Shell η α ε} (e : ε') {kind : Kind} {placeholder : Option Token}
  {containers : Option Container.Transaction} {assigned : Option HandlerId}

theorem StartOutcome.under {result : EStateM.Result Fault (Shell η α ε) Token}
    (h : StartOutcome w kind placeholder containers assigned result) :
    StartOutcome (w.under e) kind placeholder containers assigned (onShell (·.under e) result) := by
  cases h with
  | refused hs h => exact .refused hs h
  | entered hs h => exact .entered hs h

theorem StartOutcome.unique {result result' : EStateM.Result Fault (Shell η α ε) Token}
    (h : StartOutcome w kind placeholder containers assigned result)
    (h' : StartOutcome w kind placeholder containers assigned result') : result = result' := by
  cases h with
  | refused hs h =>
    cases h' with
    | refused hs' => rw [← hs, ← hs']
    | entered hs' h' => cases (hs.symm.trans hs' ▸ h).symm.trans h'
  | entered hs h =>
    cases h' with
    | refused hs' h' => cases (hs.symm.trans hs' ▸ h).symm.trans h'
    | entered hs' => rw [← hs, ← hs']

variable {token : Token} {a : AnimationId}

theorem FadeDoneOutcome.under {result : EStateM.Result Fault (Shell η α ε) Unit}
    (h : FadeDoneOutcome w token a result) : FadeDoneOutcome (w.under e) token a (onShell (·.under e) result) := by
  cases h with
  | unknown h => exact .unknown h
  | untracked h ha => exact .untracked h ha
  | fewer h hf ha hm => exact .fewer h hf ha hm
  | last h hf ha hm => exact .last h hf ha hm

theorem FadeDoneOutcome.unique {result result' : EStateM.Result Fault (Shell η α ε) Unit}
    (h : FadeDoneOutcome w token a result) (h' : FadeDoneOutcome w token a result') : result = result' := by
  cases h <;> cases h' <;> simp_all [Record.endFade?]

theorem ReadyOutcome.unique [Handler η] [Executor ε] {batch : Batch} {start : Transaction}
    {result result' : EStateM.Result Fault (Shell η α ε) Unit} (h : ReadyOutcome w token batch start result)
    (h' : ReadyOutcome w token batch start result') : result = result' := by
  cases h <;> cases h' <;> simp_all

end Control

namespace Shell

variable {η α ε ε' : Type}

theorem foldl_visited_under (w : Shell η α ε) (visits : List Visit) (e : ε') :
    visits.foldl visited (w.under e) = (visits.foldl visited w).under e := by
  induction visits generalizing w with
  | nil => rfl
  | cons v visits ih => exact ih (w.visited v)

theorem asked_under [Handler η] (w : Shell η α ε) (kind : Kind) (token : Token) (trigger : Option Trigger) (e : ε') :
    (w.under e).asked kind token trigger = (w.asked kind token trigger).under e :=
  foldl_visited_under { w with handlers := (w.handlers.negotiate kind token trigger).handlers } _ e

section Under
variable (w : Shell η α ε) (token : Token) (r : Record) (batch : Batch) (start : Transaction) (e : ε')

theorem offers_under [Handler η] : (w.under e).offers token r batch start = w.offers token r batch start := rfl

theorem offered_under [Handler η] :
    (w.under e).offered token r batch start = (w.offered token r batch start).under e :=
  foldl_visited_under
    { w.turned token r .dispatching with handlers := (w.offers token r batch start).handlers } _ e

theorem offered_executor [Handler η] : (w.offered token r batch start).executor = w.executor := by
  rw [offered, withVisits_eq]
  rfl

theorem settled_under (fades : Nat) :
    ((w.under e).appliedRest start).settled token r fades = ((w.appliedRest start).settled token r fades).under e := by
  unfold appliedRest
  split <;> rfl

variable {token r batch start e} [Executor ε]

theorem faded_nothing (hn : batch.fadeTargets = []) :
    w.faded token r batch start = (w.allotted batch start).settled token { r with fades := some [] } 0 := by
  rw [faded, hn]
  rfl

theorem faded_nothing_under [Executor ε'] (hn : batch.fadeTargets = []) :
    (w.under e).faded token r batch start = (w.faded token r batch start).under e := by
  rw [faded_nothing _ hn, faded_nothing _ hn]
  rfl

variable {w}

theorem faded_nothing_idle (hn : batch.fadeTargets = []) (h : w.stage.jobs = []) :
    (w.faded token r batch start).stage.jobs = [] := by
  rw [faded_nothing _ hn]
  exact h

end Under

theorem left_idle [Authority α] {w : Shell η α ε} {token : Token} {phase : Phase} (h : w.stage.jobs = []) :
    (w.left token phase).stage.jobs = [] := h

end Shell

namespace Control

variable {η α ε ε' : Type} [Authority α]

theorem request_under [Handler η] (w : Shell η α ε) (kind : Kind) (placeholder : Token) (trigger : Option Trigger)
    (e : ε') : (request kind placeholder trigger).run (w.under e) =
      onShell (·.under e) ((request kind placeholder trigger).run w) := by
  rcases request_outcome w kind placeholder trigger with ⟨hc, h⟩ | ⟨hn, h⟩
  · rcases request_outcome (w.under e) kind placeholder trigger with ⟨_, h'⟩ | ⟨hn', _⟩
    · rw [h, h']
      rfl
    · cases (show w.table.contains placeholder = false from hn').symm.trans hc
  · rcases request_outcome (w.under e) kind placeholder trigger with ⟨hc', _⟩ | ⟨_, h'⟩
    · cases (show w.table.contains placeholder = true from hc').symm.trans hn
    · rw [Shell.asked_under] at h'
      exact h'.unique (h.under e)

theorem start_under (w : Shell η α ε) (kind : Kind) (containers : Container.Transaction) (handler : Option HandlerId)
    (e : ε') : (start kind containers handler).run (w.under e) =
      onShell (·.under e) ((start kind containers handler).run w) := by
  rcases start_outcome w kind containers handler with ⟨id, hid, hc, h⟩ | ⟨hr, h⟩
  · rcases start_outcome (w.under e) kind containers handler with ⟨id', hid', _, h'⟩ | ⟨hr', _⟩
    · obtain rfl := Option.some.inj (hid.symm.trans hid')
      rw [h, h']
      rfl
    · cases (show w.handlers.contains id = true from hr' id hid).symm.trans hc
  · rcases start_outcome (w.under e) kind containers handler with ⟨id, hid, hc', _⟩ | ⟨_, h'⟩
    · cases (show w.handlers.contains id = false from hc').symm.trans (hr id hid)
    · exact h'.unique (h.under e)

theorem handlerDone_under {w : Shell η α ε} (ht : w.table.AtRest) (ticket : Ticket) (e : ε') :
    (handlerDone ticket).run (w.under e) = onShell (·.under e) ((handlerDone ticket).run w) := by
  by_cases h : w.table.Honours ticket
  · rw [run_handlerDone ht h, run_handlerDone (w := w.under e) ht h]
    rfl
  · rw [run_handlerDone_ignored h, run_handlerDone_ignored (w := w.under e) h]
    rfl

theorem fadeDone_under {w : Shell η α ε} (ht : w.table.AtRest) (token : Token) (a : AnimationId) (e : ε') :
    (fadeDone token a).run (w.under e) = onShell (·.under e) ((fadeDone token a).run w) := by
  exact (fadeDone_outcome (w := w.under e) ht token a).unique ((fadeDone_outcome ht token a).under e)

end Control

namespace Shell

variable {η α ε₁ ε₂ : Type} [Executor ε₁] [Executor ε₂]

/-! ## Shells that differ in their executors -/

/-- The shell after all jobs of the pool are ended. -/
def concludeAll {ε : Type} (w : Shell η α ε) (how : Ending) : Shell η α ε :=
  { w with stage := (w.stage.concludeAll how).2 }

/-- The two shells, in both of which the pool is empty, differ in their executors only; the first one ends jobs at
once, and the second one keeps them. -/
structure Mirrors (v : Shell η α ε₁) (u : Shell η α ε₂) : Prop where
  same : v.under () = u.under ()
  rest : v.table.AtRest
  idle : v.stage.jobs = []
  atOnce : Executor.EndsAtOnce v.executor
  keeps : Executor.Keeps u.executor

/-- Two operations come to the same, once the jobs that are kept on the second side are ended. -/
inductive Agree (how : Ending) {β : Type} : EStateM.Result Fault (Shell η α ε₁) β →
    EStateM.Result Fault (Shell η α ε₂) β → Prop where
  | ok {b : β} {v : Shell η α ε₁} {u : Shell η α ε₂} (h : v.Mirrors (u.concludeAll how)) : Agree how (.ok b v) (.ok b u)
  | error {f : Fault} {v : Shell η α ε₁} {u : Shell η α ε₂} (h : v.Mirrors (u.concludeAll how)) :
    Agree how (.error f v) (.error f u)

variable {v : Shell η α ε₁} {u : Shell η α ε₂} {how : Ending}

theorem concludeAll_idle {ε : Type} {w : Shell η α ε} (h : w.stage.jobs = []) (how : Ending) :
    w.concludeAll how = w := by
  have hempty : ({ w.stage with jobs := [] } : Stage) = w.stage := by rw [← h]
  rw [concludeAll, Stage.concludeAll_eq, h, hempty]
  rfl

theorem Mirrors.under_eq (h : v.Mirrors u) : u = v.under u.executor :=
  (congrArg (fun w : Shell η α Unit => w.under u.executor) h.same).symm

theorem Mirrors.stage_eq (h : v.Mirrors u) : v.stage = u.stage :=
  congrArg (fun w : Shell η α Unit => w.stage) h.same

theorem Mirrors.concluded (h : v.Mirrors u) (how : Ending) : v.Mirrors (u.concludeAll how) := by
  rw [concludeAll_idle (h.stage_eq ▸ h.idle)]
  exact h

theorem Mirrors.take (h : v.Mirrors u) (m : Message) (rest : List Message) :
    (v.take m rest).Mirrors (u.take m rest) where
  same := congrArg (fun w : Shell η α Unit => w.take m rest) h.same
  rest := h.rest
  idle := h.idle
  atOnce := h.atOnce
  keeps := h.keeps

theorem mirrors_concluded (hrest : v.table.AtRest) (hidle : v.stage.jobs = []) (hv : Executor.EndsAtOnce v.executor)
    {e : ε₂} (he : Executor.Keeps e) : v.Mirrors ((v.under e).concludeAll how) := by
  rw [concludeAll_idle (w := v.under e) hidle]
  exact ⟨rfl, hrest, hidle, hv, he⟩

theorem idle_of_draws {s s' : Stage} {strokes : List Stroke} (h : s.Draws (fun _ => False) s' strokes)
    (hs : s.jobs = []) : s'.jobs = [] := by
  rw [List.eq_nil_iff_forall_not_mem]
  intro j hj
  rcases h.jobs j hj with hold | hnew
  · rw [hs] at hold
    cases hold
  · exact hnew

/-- An operation that starts no jobs comes to the same under every executor. -/
theorem agree_of_under {β : Type} {c₁ : Control η α ε₁ β} {c₂ : Control η α ε₂ β} {e : ε₂}
    (hv : Executor.EndsAtOnce v.executor) (he : Executor.Keeps e) (hidle : v.stage.jobs = [])
    (h : c₂.run (v.under e) = Control.onShell (·.under e) (c₁.run v))
    (hown : c₁.run v = Control.onShell (·.under v.executor) (c₁.run v)) (hrest : (c₁.perform v).2.table.AtRest)
    (hdraws : v.stage.Draws (fun _ => False) (c₁.perform v).2.stage []) :
    Agree how (c₁.run v) (c₂.run (v.under e)) := by
  have hidle' := idle_of_draws hdraws hidle
  rw [h]
  cases hr : c₁.run v with
  | ok b v' =>
    rw [Control.perform_of_ok hr] at hrest hidle'
    rw [hr] at hown
    have hexecutor : v'.executor = (v'.under v.executor).executor :=
      congrArg executor (EStateM.Result.ok.inj hown).2
    exact .ok (mirrors_concluded hrest hidle' (by rw [hexecutor]; exact hv) he)
  | error f v' =>
    rw [Control.perform_of_error hr] at hrest hidle'
    rw [hr] at hown
    have hexecutor : v'.executor = (v'.under v.executor).executor :=
      congrArg executor (EStateM.Result.error.inj hown).2
    exact .error (mirrors_concluded hrest hidle' (by rw [hexecutor]; exact hv) he)

theorem Agree.next {β γ : Type} {c₁ : Control η α ε₁ β} {c₂ : Control η α ε₂ β}
    (h : Agree how (c₁.run v) (c₂.run u)) (b : γ) :
    Agree how (EStateM.run (do let _ ← c₁; return b) v) (EStateM.run (do let _ ← c₂; return b) u) := by
  simp only [EStateM.run_bind]
  generalize c₁.run v = result₁ at h
  generalize c₂.run u = result₂ at h
  cases h with
  | ok h => exact .ok h
  | error h => exact .error h

/-- The default animations start: on the one side their jobs have ended by then, on the other they are kept. -/
theorem faded_mirrors {token : Token} {r : Record} {batch : Batch} {start : Transaction} {e : ε₂}
    (hv : Executor.EndsAtOnce v.executor) (he : Executor.Keeps e) (hidle : v.stage.jobs = [])
    (hrest : (v.faded token r batch start).table.AtRest) :
    (v.faded token r batch start).Mirrors (((v.under e).faded token r batch start).concludeAll how) := by
  let ids := v.nextAnimation.upFrom batch.fadeTargets.length
  let jobs := Control.fadeJobs v.config token ids batch.fadeTargets
  let x := (v.allotted batch start).settled token { r with fades := some ids } batch.fadeTargets.length
  have hidle' : x.stage.jobs = [] := hidle
  have hempty : ({ x.stage with jobs := [] } : Stage) = x.stage := by rw [← hidle']
  have hended : ({ x.stage with jobs := jobs } : Stage).concludeAll how =
      (jobs.length, x.stage.endings jobs) := by
    refine Prod.ext rfl ?_
    rw [Stage.concludeAll_eq]
    exact congrArg (Stage.endings · jobs) hempty
  obtain ⟨e₁, he₁, hatOnce⟩ := launches_atOnce (w := x) jobs hv hidle'
  obtain ⟨e₂, he₂, hkept⟩ := launches_kept (w := x.under e) he jobs
  have hleft : v.faded token r batch start = ({ x with stage := x.stage.endings jobs } : Shell η α ε₁).under e₁ :=
    hatOnce
  have hright : ((v.under e).faded token r batch start).concludeAll how =
      ({ x with stage := x.stage.endings jobs } : Shell η α ε₁).under e₂ := by
    have hfaded : (v.under e).faded token r batch start = ({ x.under e with
        stage := { x.stage with jobs := x.stage.jobs ++ jobs } } : Shell η α ε₂).under e₂ := hkept
    rw [hidle', List.nil_append] at hfaded
    rw [hfaded, concludeAll]
    exact congrArg (fun stage => ({ x with stage } : Shell η α ε₁).under e₂) (congrArg Prod.snd hended)
  rw [hleft] at hrest ⊢
  rw [hright]
  refine ⟨rfl, hrest, ?_, he₁, he₂⟩
  exact (Stage.endings_jobs x.stage jobs).trans hidle'

section Operations
variable [Handler η] [Authority α]

theorem request_agrees (h : v.Mirrors u) (kind : Kind) (placeholder : Token) (trigger : Option Trigger) :
    Agree how ((Control.request kind placeholder trigger).run v)
      ((Control.request kind placeholder trigger).run u) := by
  rw [h.under_eq]
  exact agree_of_under h.atOnce h.keeps h.idle (Control.request_under v kind placeholder trigger _)
    (Control.request_under v kind placeholder trigger v.executor)
    (kept_atRest.request v kind placeholder trigger h.rest) (draws_request kind placeholder trigger)

theorem start_agrees (h : v.Mirrors u) (kind : Kind) (containers : Container.Transaction) (handler : Option HandlerId) :
    Agree how ((Control.start kind containers handler).run v) ((Control.start kind containers handler).run u) := by
  rw [h.under_eq]
  exact agree_of_under h.atOnce h.keeps h.idle (Control.start_under v kind containers handler _)
    (Control.start_under v kind containers handler v.executor) (kept_atRest.start v kind containers handler h.rest)
    (draws_start kind containers handler)

theorem handlerDone_agrees (h : v.Mirrors u) (ticket : Ticket) :
    Agree how ((Control.handlerDone ticket).run v) ((Control.handlerDone ticket).run u) := by
  rw [h.under_eq]
  exact agree_of_under h.atOnce h.keeps h.idle (Control.handlerDone_under h.rest ticket _)
    (Control.handlerDone_under h.rest ticket v.executor) (kept_atRest.handlerDone v ticket h.rest)
    (draws_handlerDone h.rest ticket)

theorem fadeDone_agrees (h : v.Mirrors u) (token : Token) (a : AnimationId) :
    Agree how ((Control.fadeDone token a).run v) ((Control.fadeDone token a).run u) := by
  rw [h.under_eq]
  exact agree_of_under h.atOnce h.keeps h.idle (Control.fadeDone_under h.rest token a _)
    (Control.fadeDone_under h.rest token a v.executor) (kept_atRest.fadeDone v token a h.rest)
    (draws_fadeDone h.rest token a)

theorem ready_agrees (h : v.Mirrors u) (token : Token) (batch : Batch) (start : Transaction) :
    Agree how ((Control.ready token batch start).run v) ((Control.ready token batch start).run u) := by
  have he := h.keeps
  rw [h.under_eq]
  generalize u.executor = e at he
  -- the other side ends in the same of the six ways
  have hother : ∀ result, Control.ReadyOutcome (v.under e) token batch start result →
      (Control.ready token batch start).run (v.under e) = result :=
    fun result hr => (Control.ready_outcome (w := v.under e) h.rest token batch start).unique hr
  have hrest := kept_atRest.ready v token batch start h.rest
  have hoffered : ∀ r, (v.offered token r batch start).stage.jobs = [] :=
    fun r => idle_of_draws (v.draws_offered token r batch start) h.idle
  have hatOnce : ∀ r, Executor.EndsAtOnce (v.offered token r batch start).executor := fun r => by
    rw [offered_executor]
    exact h.atOnce
  have hout := Control.ready_outcome h.rest token batch start
  generalize hr : (Control.ready token batch start).run v = result at hout
  cases hout with
  | unknown hn =>
    rw [hother _ (.unknown hn)]
    exact .error (mirrors_concluded h.rest h.idle h.atOnce he)
  | duplicate hg hp =>
    rw [hother _ (.duplicate hg hp)]
    exact .error (mirrors_concluded h.rest h.idle h.atOnce he)
  | rootless hg hp hb =>
    simp only [Control.perform_of_ok hr] at hrest
    rw [hother _ (.rootless hg hp hb)]
    exact .ok (mirrors_concluded hrest h.idle h.atOnce he)
  | @owned r owner hg hp hb ho =>
    simp only [Control.perform_of_ok hr] at hrest
    rw [hother _ (.owned hg hp hb ho), offered_under, offers_under, settled_under]
    refine .ok (mirrors_concluded hrest ?_ ?_ he)
    · have happlied : ((v.offered token r batch start).appliedRest
          (v.offers token r batch start).start).stage.jobs = [] := idle_of_draws (draws_appliedRest _ _) (hoffered r)
      exact happlied
    · rw [settled, appliedRest_eq]
      exact hatOnce r
  | @faded r hg hp hb ho hn =>
    simp only [Control.perform_of_ok hr] at hrest
    rw [hother _ (.faded hg hp hb ho hn), offered_under, offers_under]
    exact .ok (faded_mirrors (hatOnce r) he (hoffered r) hrest)
  | @unfaded r hg hp hb ho hn =>
    simp only [Control.perform_of_ok hr] at hrest
    rw [hother _ (.unfaded hg hp hb ho hn), offered_under, offers_under, faded_nothing_under _ hn]
    refine .ok (mirrors_concluded hrest ?_ ?_ he)
    · exact left_idle (faded_nothing_idle hn (hoffered r))
    · rw [faded_nothing _ hn]
      exact hatOnce r

theorem process_agrees (h : v.Mirrors u) (m : Message) :
    Agree how ((Control.process m).run v) ((Control.process m).run u) := by
  cases m with
  | ready token batch start => exact (ready_agrees h token batch start).next true
  | request kind token trigger => exact (request_agrees h kind token trigger).next true
  | handlerDone ticket => exact (handlerDone_agrees h ticket).next true
  | fadeDone token a => exact (fadeDone_agrees h token a).next true
  | shutdown => exact .ok (h.concluded how)

end Operations

end Shell

end WindowTransitions
