import WindowTransitions.Proofs.Executors
import WindowTransitions.Proofs.Reordering
import WindowTransitions.Proofs.Scenes
import WindowTransitions.Proofs.Tracking

/-! Shells without handlers. When all transitions but one fade, the reports of their jobs and the batch of that one
are processed to the end without a fault. Main statement: reports leave the transitions of the other jobs fading, and
a batch leaves its transition fading if and only if there is something to fade. -/

set_option autoImplicit false

namespace WindowTransitions

/-! ## Authorities that keep tokens -/

/-- Whatever it has been told before, it starts a transition under the placeholder that it gets. -/
def Authority.KeepsTokens {α : Type} [Authority α] (a : α) : Prop :=
  ∀ (calls : List Entry) kind token containers,
    (Authority.start (calls.foldl Entry.heard a) kind (some token) containers).1 = token

theorem Authority.KeepsTokens.heard {α : Type} [Authority α] {a : α} (h : KeepsTokens a) (e : Entry) :
    KeepsTokens (e.heard a) := fun calls => h (e :: calls)

namespace Shell

variable {η α ε : Type} [Authority α] [Executor ε]

/-- There are no handlers, the authority keeps tokens and the executor keeps jobs. -/
structure Unattended (w : Shell η α ε) : Prop where
  handlers : w.handlers = []
  isOpen : w.stage.isOpen = true
  authority : Authority.KeepsTokens w.authority
  executor : Executor.Keeps w.executor

/-! ## What a shell does without handlers -/

/-- From `w` to `v` the tokens `started` become active, the jobs `jobs` enter the pool and the transactions of
`applied` are applied. Tokens leave the table when the authority is told of their finish. -/
structure Serves (w v : Shell η α ε) (started : List Token) (jobs : List Job) (applied : List Transaction) :
    Prop where
  config : v.config = w.config
  unattended : w.Unattended → v.Unattended
  jobs : v.stage.jobs = w.stage.jobs ++ jobs
  journal : ∃ more, v.stage.journal = w.stage.journal ++ more ∧ more.filterMap Entry.transaction? = applied
  tokens : (v.stage.finishCalls ++ v.table.tokens).Perm (w.stage.finishCalls ++ w.table.tokens ++ started)

variable {w v u : Shell η α ε} {started started' : List Token} {jobs jobs' : List Job}
  {applied applied' : List Transaction} {token : Token} {r : Record}

theorem Serves.refl (w : Shell η α ε) : w.Serves w [] [] [] :=
  ⟨rfl, id, (List.append_nil _).symm, ⟨[], (List.append_nil _).symm, rfl⟩, .of_eq (List.append_nil _).symm⟩

theorem Serves.trans (h : w.Serves v started jobs applied) (h' : v.Serves u started' jobs' applied') :
    w.Serves u (started ++ started') (jobs ++ jobs') (applied ++ applied') where
  config := h'.config.trans h.config
  unattended hw := h'.unattended (h.unattended hw)
  jobs := by rw [h'.jobs, h.jobs, List.append_assoc]
  journal := by
    obtain ⟨more, hj, rfl⟩ := h.journal
    obtain ⟨more', hj', rfl⟩ := h'.journal
    exact ⟨more ++ more', by rw [hj', hj, List.append_assoc], List.filterMap_append⟩
  tokens := by
    refine h'.tokens.trans ?_
    rw [← List.append_assoc]
    exact h.tokens.append_right started'

/-- To leave the pool alone and note `more` is a service if the tokens come right. -/
theorem serves_of_noted (more : List Entry) (hc : v.config = w.config) (hw : w.Unattended → v.Unattended)
    (hjobs : v.stage.jobs = w.stage.jobs) (hj : v.stage.journal = w.stage.journal ++ more)
    (ht : (more.filterMap Entry.finishCall? ++ v.table.tokens).Perm (w.table.tokens ++ started)) :
    w.Serves v started [] (more.filterMap Entry.transaction?) where
  config := hc
  unattended := hw
  jobs := by rw [hjobs, List.append_nil]
  journal := ⟨more, hj, rfl⟩
  tokens := by
    rw [Stage.finishCalls, hj, List.filterMap_append, List.append_assoc, List.append_assoc]
    exact ht.append_left _

theorem serves_take (w : Shell η α ε) (m : Message) (rest : List Message) : w.Serves (w.take m rest) [] [] [] :=
  serves_of_noted [.received m] rfl (fun h => ⟨h.handlers, h.isOpen, h.authority, h.executor⟩) rfl rfl
    (.of_eq (List.append_nil _).symm)

theorem serves_apply (w : Shell η α ε) (t : Transaction) : w.Serves (w.apply t) [] [] [t] :=
  serves_of_noted [.applied t] rfl (fun h => ⟨h.handlers, h.isOpen, h.authority, h.executor⟩) rfl rfl
    (.of_eq (List.append_nil _).symm)

theorem serves_turned (w : Shell η α ε) (token : Token) (r : Record) (target : Phase) :
    w.Serves (w.turned token r target) [] [] [] :=
  serves_of_noted [.event (.phaseChanged token r.phase target)] rfl
    (fun h => ⟨h.handlers, h.isOpen, h.authority, h.executor⟩) rfl rfl
    (.of_eq ((Table.tokens_put ..).trans (List.append_nil _).symm))

theorem serves_called (w : Shell η α ε) (kind : Kind) (placeholder : Option Token)
    (containers : Option Container.Transaction) : w.Serves (w.called kind placeholder containers) [] [] [] :=
  serves_of_noted [.startCalled kind placeholder containers] rfl
    (fun h => ⟨h.handlers, h.isOpen, h.authority.heard (.startCalled kind placeholder containers), h.executor⟩)
    rfl rfl (.of_eq (List.append_nil _).symm)

theorem serves_entered (w : Shell η α ε) (token : Token) (kind : Kind) (assigned : Option HandlerId) :
    w.Serves (w.entered token kind assigned) [token] [] [] :=
  serves_of_noted [.event (.started token kind assigned)] rfl
    (fun h => ⟨h.handlers, h.isOpen, h.authority, h.executor⟩) rfl rfl (.of_eq Table.tokens_append_singleton)

theorem serves_left (ht : w.table.tokens.Nodup) (hm : token ∈ w.table.tokens) (phase : Phase) :
    w.Serves (w.left token phase) [] [] [] := by
  have hremove : (w.table.remove token).tokens = w.table.tokens.erase token := by
    rw [Table.tokens_remove, ht.erase_eq_filter]
    exact List.filter_congr fun other _ => by by_cases ho : other = token <;> simp [ho]
  have hleft : [token] ++ (w.table.remove token).tokens = token :: w.table.tokens.erase token := by rw [hremove]; rfl
  refine serves_of_noted
    [.event (.phaseChanged token phase .finished), .event (.finished token), .finishCalled token] rfl
    (fun h => ⟨h.handlers, h.isOpen, h.authority.heard (.finishCalled token), h.executor⟩) rfl ?_ ?_
  · simp [left, Stage.note]
  · rw [List.append_nil]
    exact (List.Perm.of_eq hleft).trans (List.perm_cons_erase hm).symm

theorem serves_settled (w : Shell η α ε) (token : Token) (r : Record) (fades : Nat) :
    w.Serves (w.settled token r fades) [] [] [] := by
  refine serves_of_noted
    [.event (.dispatched token r.owner fades), .event (.phaseChanged token .dispatching .animating)] rfl
    (fun h => ⟨h.handlers, h.isOpen, h.authority, h.executor⟩) rfl ?_
    (.of_eq ((Table.tokens_put ..).trans (List.append_nil _).symm))
  simp [settled, Stage.note]

theorem serves_launches (hw : w.Unattended) (jobs : List Job) : w.Serves (jobs.foldl launch w) [] jobs [] := by
  obtain ⟨e, he, hkept⟩ := launches_kept hw.executor jobs
  rw [hkept]
  exact ⟨rfl, fun h => ⟨h.handlers, h.isOpen, h.authority, he⟩, rfl, ⟨[], (List.append_nil _).symm, rfl⟩,
    .of_eq (List.append_nil _).symm⟩

theorem serves_faded (hw : w.Unattended) (token : Token) (r : Record) (batch : Batch) (start : Transaction) :
    w.Serves (w.faded token r batch start) []
      (Control.fadeJobs w.config token (w.nextAnimation.upFrom batch.fadeTargets.length) batch.fadeTargets)
      [start] := by
  have hallotted : w.Serves (w.allotted batch start) [] [] [start] :=
    serves_of_noted [.applied start] rfl (fun h => ⟨h.handlers, h.isOpen, h.authority, h.executor⟩) rfl rfl
      (.of_eq (List.append_nil _).symm)
  have hsettled := hallotted.trans (serves_settled (w.allotted batch start) token
    { r with fades := some (w.nextAnimation.upFrom batch.fadeTargets.length) } batch.fadeTargets.length)
  exact hsettled.trans (serves_launches (hsettled.unattended hw) _)

theorem faded_queue (hw : w.Unattended) (token : Token) (r : Record) (batch : Batch) (start : Transaction) :
    (w.faded token r batch start).stage.queue = w.stage.queue := by
  let ids := w.nextAnimation.upFrom batch.fadeTargets.length
  obtain ⟨e, _, hkept⟩ := launches_kept
    (w := (w.allotted batch start).settled token { r with fades := some ids } batch.fadeTargets.length)
    hw.executor (Control.fadeJobs w.config token ids batch.fadeTargets)
  rw [faded, hkept]
  rfl

/-! ## Drains to the end -/

variable [Handler η] {m : Message} {rest : List Message} {limit : Nat} {j : Job}

/-- A drain of at most `limit` messages takes all that there are and ends without a fault. -/
def Empties (w v : Shell η α ε) (limit : Nat) : Prop := ∃ n, w.drainWithin limit = ⟨n, .emptied, v⟩

theorem empties_nil (hq : w.stage.queue = []) (limit : Nat) : w.Empties w limit := by
  refine ⟨0, ?_⟩
  rw [drainWithin, hq]

theorem empties_cons (hq : w.stage.queue = m :: rest) (hr : (Control.process m).run (w.take m rest) = .ok true v)
    (h : v.Empties u limit) : w.Empties u (limit + 1) := by
  obtain ⟨n, h⟩ := h
  refine ⟨n + 1, ?_⟩
  rw [drainWithin_succ w m rest limit hq, hr]
  simp only [h]

omit [Authority α] [Executor ε] [Handler η] in
theorem length_le_drainLimit (w : Shell η α ε) : w.stage.queue.length ≤ w.drainLimit := by
  have hone : ∀ m, 1 ≤ messageWeight w.handlers.length m := by
    intro m
    cases m with
    | ready => exact Nat.le_trans (Nat.le_add_right 1 w.handlers.length) (Nat.le_add_right _ _)
    | request | handlerDone | fadeDone | shutdown => exact Nat.le_refl 1
  rw [drainLimit]
  induction w.stage.queue with
  | nil => exact Nat.zero_le _
  | cons m rest ih =>
    have := hone m
    rw [List.length_cons, List.map_cons, List.foldr_cons]
    omega

/-- A shutdown in front ends the drain that takes it. -/
theorem drain_shutdown (hq : w.stage.queue = .shutdown :: rest) :
    w.drain = ⟨1, .shutdown, w.take .shutdown rest⟩ := by
  have hroom := w.length_le_drainLimit
  rw [hq, List.length_cons] at hroom
  obtain ⟨limit, hlimit⟩ := Nat.exists_eq_add_of_le' (Nat.le_trans (Nat.le_add_left 1 rest.length) hroom)
  rw [drain, hlimit, drainWithin_succ w .shutdown rest limit hq]
  rfl

/-! ## Reports of jobs -/

theorem process_report (ht : w.table.Tracks (j :: jobs)) (rest : List Message) :
    ∃ v, (Control.process (.fadeDone j.token j.id)).run (w.take (.fadeDone j.token j.id) rest) = .ok true v ∧
      w.Serves v [] [] [] ∧ v.table.Tracks jobs ∧ v.stage.queue = rest := by
  obtain ⟨r, fades, hr, hf, ha⟩ := Table.mem_fadesOf.mp ht.mem_fadesOf
  have htake := w.serves_take (.fadeDone j.token j.id) rest
  have hout := Control.fadeDone_outcome (w := w.take (.fadeDone j.token j.id) rest) ht.atRest j.token j.id
  generalize hrun : (Control.fadeDone j.token j.id).run (w.take (.fadeDone j.token j.id) rest) = result at hout
  cases hout with
  | unknown h => cases hr.symm.trans h
  | untracked h hnone =>
    obtain rfl := Option.some.inj (hr.symm.trans h)
    simp [Record.endFade?, hf, ha] at hnone
  | fewer h hf' _ hm =>
    obtain rfl := Option.some.inj (hr.symm.trans h)
    obtain rfl := Option.some.inj (hf.symm.trans hf')
    have hput := Table.tokens_put w.table j.token { r with fades := some (fades.erase j.id) }
    refine ⟨_, run_process_fadeDone hrun, htake.trans ?_, ht.fewer hr hf hm, rfl⟩
    exact serves_of_noted [] rfl (fun h => ⟨h.handlers, h.isOpen, h.authority, h.executor⟩) rfl
      (List.append_nil _).symm (.of_eq (hput.trans (List.append_nil _).symm))
  | last h hf' _ hm =>
    obtain rfl := Option.some.inj (hr.symm.trans h)
    obtain rfl := Option.some.inj (hf.symm.trans hf')
    refine ⟨_, run_process_fadeDone hrun, htake.trans ?_, ht.last hr hf hm, rfl⟩
    have hmem : j.token ∈ w.table.tokens := ht.mem_tokens.mpr ⟨j, List.mem_cons_self, rfl⟩
    exact serves_left (w := w.take (.fadeDone j.token j.id) rest) ht.distinct hmem .animating

/-- The reports of jobs that end are processed, and the transitions of the others fade on. -/
theorem empties_reports (ended : List Job) (ht : w.table.Tracks (ended ++ jobs))
    (hq : w.stage.queue = ended.map fun j => .fadeDone j.token j.id) (hl : ended.length ≤ limit) :
    ∃ v, w.Empties v limit ∧ w.Serves v [] [] [] ∧ v.table.Tracks jobs ∧ v.stage.queue = [] := by
  induction ended generalizing w limit with
  | nil => exact ⟨w, empties_nil hq limit, .refl w, ht, hq⟩
  | cons j ended ih =>
    obtain ⟨limit, rfl⟩ : ∃ n, limit = n + 1 := ⟨limit - 1, by rw [List.length_cons] at hl; omega⟩
    obtain ⟨v, hrun, hserves, hv, hqueue⟩ := process_report ht (ended.map fun j => .fadeDone j.token j.id)
    obtain ⟨u, hempties, hserves', hu, hqueue'⟩ := ih hv hqueue (Nat.le_of_succ_le_succ hl)
    exact ⟨u, empties_cons hq hrun hempties, hserves.trans hserves', hu, hqueue'⟩

/-! ## A transition -/

end Shell

namespace Control

variable (config : Config) (token : Token) {ids : List AnimationId} {targets : List (Surface × Bool)}

theorem fades_fadeJobs (h : ids.length = targets.length) : (fadeJobs config token ids targets).map Job.fade =
    targets.map fun (surface, shown) => .standard surface shown (Config.nanoseconds config.fadeDuration) := by
  calc
    (fadeJobs config token ids targets).map Job.fade
    _ = (targets.zip ids).map ((fun (surface, shown) =>
        Fade.standard surface shown (Config.nanoseconds config.fadeDuration)) ∘ Prod.fst) := List.map_map
    _ = targets.map fun (surface, shown) => .standard surface shown (Config.nanoseconds config.fadeDuration) := by
      rw [← List.map_map, List.map_fst_zip (Nat.le_of_eq h.symm)]

end Control

namespace Shell

variable {η α ε : Type} [Authority α] [Executor ε] [Handler η] {w v u : Shell η α ε} {started : List Token}
  {jobs : List Job} {token : Token}

section Nobody
omit [Authority α] [Executor ε]
variable (hw : w.handlers = []) (kind : Kind) (token : Token) (trigger : Option Trigger) (generation : UInt64)
  (batch : Batch) (start : Transaction)
include hw

theorem asked_nobody : w.asked kind token trigger = w := by
  rw [asked, hw]
  obtain ⟨⟩ := w
  subst hw
  rfl

theorem offers_nobody : w.offers token { kind, assigned := none, generation } batch start =
    ⟨none, start ++ batch.startState, [], []⟩ := by
  rw [offers, hw]
  rfl

theorem offered_nobody : w.offered token { kind, assigned := none, generation } batch start =
    w.turned token { kind, assigned := none, generation } .dispatching := by
  rw [offered, offers_nobody hw]
  obtain ⟨⟩ := w
  subst hw
  rfl

end Nobody

/-- The jobs of a transition that nobody accepts. -/
def jobsOf (config : Config) (token : Token) (ids : List AnimationId) (batch : Batch) : List Job :=
  if batch.hasRoot then Control.fadeJobs config token ids batch.fadeTargets else []

/-- The start transaction of a transition whose start is nothing but its start state. -/
def startOf (batch : Batch) : Transaction := if batch.hasRoot then batch.startState else []

theorem tracks_faded {t : Table} {ids : List AnimationId} {batch : Batch} (ht : t.Tracks jobs)
    (hn : t.get? token = none) (hb : batch.hasRoot = true) (hne : batch.fadeTargets ≠ [])
    (hids : ids.length = batch.fadeTargets.length) (config : Config) (kind : Kind) (generation : UInt64) :
    Table.Tracks (t ++ [(token, { kind, phase := .animating, assigned := none, fades := some ids, generation })])
      (jobs ++ jobsOf config token ids batch) := by
  have hsome : ids ≠ [] := by
    intro hnil
    exact hne (List.length_eq_zero_iff.mp (hids.symm.trans (List.length_eq_zero_iff.mpr hnil)))
  rw [jobsOf, if_pos hb]
  exact ht.append hn hsome (fun j hj => (Control.running_of_mem_fadeJobs config token hj).1)
    (Control.ids_fadeJobs config token hids) kind none generation

theorem run_process_request {kind : Kind} {trigger : Option Trigger} {result : Token}
    (h : (Control.request kind token trigger).run w = .ok result v) :
    (Control.process (.request kind token trigger)).run w = .ok true v := by
  simp only [Control.process, EStateM.run_bind, h]
  rfl

theorem run_process_ready {batch : Batch} {start : Transaction}
    (h : (Control.ready token batch start).run w = .ok () v) :
    (Control.process (.ready token batch start)).run w = .ok true v := by
  simp only [Control.process, EStateM.run_bind, h]
  rfl

theorem process_request (hw : w.Unattended) (hn : w.table.get? token = none) (kind : Kind) (rest : List Message) :
    ∃ v generation, (Control.process (.request kind token none)).run (w.take (.request kind token none) rest) =
        .ok true v ∧ w.Serves v [token] [] [] ∧
      v.table = w.table ++ [(token, { kind, assigned := none, generation })] ∧ v.stage.queue = rest := by
  have hstart := Control.request_outcome (w.take (.request kind token none) rest) kind token none
  rw [asked_nobody (w := w.take (.request kind token none) rest) hw.handlers,
    show (w.take (.request kind token none) rest).handlers = [] from hw.handlers] at hstart
  rcases hstart with ⟨hc, _⟩ | ⟨_, h⟩
  · rw [Table.contains, show (w.take (.request kind token none) rest).table.get? token = none from hn] at hc
    cases hc
  · generalize hrun : (Control.request kind token none).run (w.take (.request kind token none) rest) = result at h
    cases h with
    | refused hs hr =>
      obtain rfl := hs.symm.trans (hw.authority [] kind token _)
      cases hn.symm.trans hr
    | entered hs _ =>
      obtain rfl := hs.symm.trans (hw.authority [] kind token _)
      refine ⟨_, w.generation + 1, run_process_request hrun, ?_, rfl, rfl⟩
      exact ((w.serves_take _ rest).trans (serves_called _ kind (some _) none)).trans (serves_entered _ _ kind none)

section Batches
variable {x : Shell η α ε} (hx : w.Serves x started [] []) (hd : x.table.tokens.Nodup) (hm : token ∈ x.table.tokens)
  (r : Record) (batch : Batch) (start : Transaction)
omit [Handler η]
include hx

theorem serves_dispatching : w.Serves (x.turned token r .dispatching) started [] [] := by
  simpa using hx.trans (x.serves_turned token r .dispatching)

include hd hm

theorem serves_rootless :
    w.Serves (((x.turned token r .dispatching).apply start).left token .dispatching) started [] [start] := by
  have htokens : (x.turned token r .dispatching).table.tokens = x.table.tokens := Table.tokens_put ..
  have hleft := serves_left (w := (x.turned token r .dispatching).apply start) (htokens ▸ hd) (htokens ▸ hm)
    .dispatching
  simpa using ((serves_dispatching hx r).trans (serves_apply _ start)).trans hleft

omit hd hm

theorem serves_fading (hw : w.Unattended) :
    w.Serves ((x.turned token r .dispatching).faded token r batch start) started
      (Control.fadeJobs w.config token (x.nextAnimation.upFrom batch.fadeTargets.length) batch.fadeTargets)
      [start] := by
  have hy : w.Serves (x.turned token r .dispatching) started [] [] := serves_dispatching hx r
  have hfaded := hy.trans (serves_faded (hy.unattended hw) token r batch start)
  rw [hy.config, List.append_nil, List.nil_append, List.nil_append] at hfaded
  exact hfaded

include hd hm

theorem serves_unfaded (hw : w.Unattended) (hn : batch.fadeTargets = []) :
    w.Serves (((x.turned token r .dispatching).faded token r batch start).left token .animating) started []
      [start] := by
  let y := (x.turned token r .dispatching).faded token r batch start
  have htokens : y.table.tokens = x.table.tokens := by
    rw [faded_table, Table.tokens_put]
    exact Table.tokens_put ..
  have hleft := serves_left (w := y) (htokens ▸ hd) (htokens ▸ hm) .animating
  have hnojobs : Control.fadeJobs w.config token (x.nextAnimation.upFrom batch.fadeTargets.length) batch.fadeTargets =
      [] := by rw [hn]; rfl
  simpa [hnojobs] using (serves_fading hx r batch start hw).trans hleft

end Batches

theorem process_ready (hw : w.Unattended) (ht : w.table.Tracks jobs) (hn : w.table.get? token = none) {kind : Kind}
    {generation : UInt64} (hv : v.table = w.table ++ [(token, { kind, assigned := none, generation })])
    (hserves : w.Serves v started [] []) (batch : Batch) (rest : List Message) :
    ∃ u ids, (Control.process (.ready token batch [])).run (v.take (.ready token batch []) rest) = .ok true u ∧
      ids.length = batch.fadeTargets.length ∧ w.Serves u started (jobsOf w.config token ids batch) [startOf batch] ∧
      u.table.Tracks (jobs ++ jobsOf w.config token ids batch) ∧ u.stage.queue = rest := by
  let r : Record := { kind, assigned := none, generation }
  let x := v.take (.ready token batch []) rest
  let ids := x.nextAnimation.upFrom batch.fadeTargets.length
  have hids : ids.length = batch.fadeTargets.length := Control.length_upFrom _ _
  have hx : w.Serves x started [] [] := by simpa using hserves.trans (v.serves_take (.ready token batch []) rest)
  have hnobody : x.handlers = [] := (hx.unattended hw).handlers
  have htable : x.table = w.table ++ [(token, r)] := hv
  have hget : x.table.get? token = some r := htable ▸ Table.get?_append_new hn
  have hremove : x.table.remove token = w.table := htable ▸ Table.remove_append_new hn
  have hrest : x.table.AtRest := htable ▸ ht.atRest.append hn (.pending kind none generation)
  have hmem : token ∈ x.table.tokens := by simp [htable, Table.tokens_append_singleton]
  have hy : w.Serves (x.turned token r .dispatching) started [] [] := serves_dispatching hx r
  have hqueue := faded_queue (hy.unattended hw) token r batch ([] ++ batch.startState)
  have hout := Control.ready_outcome hrest token batch []
  generalize hrun : (Control.ready token batch []).run x = result at hout
  cases hout with
  | unknown h => cases hget.symm.trans h
  | duplicate h hp =>
    obtain rfl := Option.some.inj (hget.symm.trans h)
    exact absurd rfl hp
  | rootless h hp hb =>
    obtain rfl := Option.some.inj (hget.symm.trans h)
    refine ⟨_, ids, run_process_ready hrun, hids, ?_, ?_, rfl⟩
    · simpa [jobsOf, startOf, hb] using serves_rootless hx hrest.distinct hmem r []
    · rw [(x.leadsTo_rootless token kind none generation []).table, hremove]
      simpa [jobsOf, hb] using ht
  | owned h hp hb ho =>
    obtain rfl := Option.some.inj (hget.symm.trans h)
    rw [offers_nobody hnobody] at ho
    cases ho
  | faded h hp hb ho hne =>
    obtain rfl := Option.some.inj (hget.symm.trans h)
    have hleads := x.leadsTo_fading token kind none generation batch []
    rw [offered_nobody hnobody, offers_nobody hnobody] at hrun hleads
    refine ⟨_, ids, run_process_ready hrun, hids, ?_, ?_, hqueue⟩
    · rw [jobsOf, startOf, if_pos hb, if_pos hb]
      exact serves_fading hx r batch ([] ++ batch.startState) hw
    · rw [hleads.table, htable, Table.put_append_new hn]
      exact tracks_faded ht hn hb hne hids w.config kind generation
  | unfaded h hp hb ho hne =>
    obtain rfl := Option.some.inj (hget.symm.trans h)
    have hleads := x.leadsTo_unfaded token kind none generation batch [] hne
    rw [offered_nobody hnobody, offers_nobody hnobody] at hrun hleads
    have hnojobs : jobsOf w.config token ids batch = [] := by rw [jobsOf, if_pos hb, hne]; rfl
    refine ⟨_, ids, run_process_ready hrun, hids, ?_, ?_, hqueue⟩
    · rw [hnojobs, startOf, if_pos hb]
      exact serves_unfaded hx hrest.distinct hmem r batch ([] ++ batch.startState) hw hne
    · rw [hleads.table, hremove, hnojobs, List.append_nil]
      exact ht

/-- A transition is asked for and its batch comes at once. It fades if the batch has something to fade. -/
theorem empties_played (hw : w.Unattended) (ht : w.table.Tracks jobs) (hn : w.table.get? token = none) {kind : Kind}
    {batch : Batch} (hq : w.stage.queue = [.request kind token none, .ready token batch []]) {limit : Nat}
    (hl : 2 ≤ limit) :
    ∃ v ids, w.Empties v limit ∧ ids.length = batch.fadeTargets.length ∧
      w.Serves v [token] (jobsOf w.config token ids batch) [startOf batch] ∧
      v.table.Tracks (jobs ++ jobsOf w.config token ids batch) ∧ v.stage.queue = [] := by
  obtain ⟨limit, rfl⟩ : ∃ n, limit = n + 1 + 1 := ⟨limit - 2, by omega⟩
  obtain ⟨v, generation, hrequest, hserves, hv, hqueue⟩ :=
    process_request hw hn kind [.ready token batch []]
  obtain ⟨u, ids, hready, hids, hserves', hu, hqueue'⟩ := process_ready hw ht hn hv hserves batch []
  exact ⟨u, ids, empties_cons hq hrequest (empties_cons hqueue hready (empties_nil hqueue' limit)), hids, hserves', hu,
    hqueue'⟩

end Shell

end WindowTransitions
