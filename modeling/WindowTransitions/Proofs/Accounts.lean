import WindowTransitions.Proofs.Strands

/-! The accounts of a timed run without handlers: the transitions that have finished or are active, the fades behind
the active ones, and the books of all fades. Main statement: the accounts stay in order when time passes, when all
fades are cancelled and when a transition is played, and a stop leaves them as they are. -/

set_option autoImplicit false

namespace WindowTransitions

/-! ## Changes of a timeline -/

namespace AlphaWrite

theorem ofJournal_eq (time : Nat) (entries : List Entry) :
    ofJournal time entries = (entries.filterMap Entry.transaction?).flatMap (ofTransaction time) := by
  induction entries with
  | nil => rfl
  | cons e entries ih =>
    rw [ofJournal, List.flatMap_cons, List.filterMap_cons]
    rw [ofJournal] at ih
    rw [ih]
    cases e <;> rfl

end AlphaWrite

namespace Timeline

variable {η α ε : Type} {t : Timeline η α ε}

/-- The end of a part writes its strand and leaves its report in the queue. -/
theorem endPart_eq {p : Part} (hopen : t.shell.stage.isOpen = true) (hj : p.job.ended = false) (moment : Nat)
    (how : Ending) :
    t.endPart p moment how = { t with
      shell := { t.shell with stage := { t.shell.stage with
        queue := t.shell.stage.queue ++ [.fadeDone p.job.token p.job.id]
        journal := t.shell.stage.journal ++
          [.applied p.job.fade.lastFrame, .posted (.fadeDone p.job.token p.job.id)] } }
      writes := t.writes ++ (p.strand t.interval t.now moment).writes t.interval } := by
  rw [p.strand_writes _ _ (show 0 < t.interval from t.shell.config.tickInterval_pos)]
  simp [endPart, onStage, Stage.conclude_eq _ hj, Stage.post, Stage.apply, Stage.note, hopen, AlphaWrite.ofJournal]

/-- Parts end one after the other. -/
theorem endParts_eq {ps : List Part} (hopen : t.shell.stage.isOpen = true) (hj : ∀ p ∈ ps, p.job.ended = false)
    (moment : Nat → Part → Nat) (how : Ending) :
    ∃ more, more.filterMap Entry.finishCall? = [] ∧
      ps.foldl (fun t p => t.endPart p (moment t.now p) how) t = { t with
        shell := { t.shell with stage := { t.shell.stage with
          queue := t.shell.stage.queue ++ (ps.map Part.job).map fun j => .fadeDone j.token j.id
          journal := t.shell.stage.journal ++ more } }
        writes := t.writes ++
          ps.flatMap fun p => (p.strand t.interval t.now (moment t.now p)).writes t.interval } := by
  induction ps generalizing t with
  | nil => exact ⟨[], rfl, by simp⟩
  | cons p ps ih =>
    have hend := endPart_eq hopen (hj p List.mem_cons_self) (moment t.now p) how
    obtain ⟨more, hmore, heq⟩ := ih (t := t.endPart p (moment t.now p) how) (by rw [hend]; exact hopen)
      fun q hq => hj q (List.mem_cons_of_mem p hq)
    refine ⟨.applied p.job.fade.lastFrame :: .posted (.fadeDone p.job.token p.job.id) :: more, hmore, ?_⟩
    rw [List.foldl_cons, heq, hend]
    simp [interval]

/-- Messages are posted to an open stage, and nothing is written by that. -/
theorem post_eq (hopen : t.shell.stage.isOpen = true) (time : Nat) (ms : List Message) :
    t.onStage time (fun stage => ms.foldl Stage.post stage) = { t with
      shell := { t.shell with stage := { t.shell.stage with
        queue := t.shell.stage.queue ++ ms
        journal := t.shell.stage.journal ++ ms.map .posted } } } := by
  have hposts : ms.foldl Stage.post t.shell.stage = { t.shell.stage with
      queue := t.shell.stage.queue ++ ms
      journal := t.shell.stage.journal ++ ms.map .posted } := by
    generalize t.shell.stage = stage at hopen
    induction ms generalizing stage with
    | nil => simp
    | cons m ms ih =>
      rw [List.foldl_cons, ih (stage.post m) (by simp [Stage.post, hopen, Stage.note])]
      simp [Stage.post, hopen, Stage.note]
  have hnothing : AlphaWrite.ofJournal time (ms.map .posted) = [] := by
    simp [AlphaWrite.ofJournal]
  simp only [onStage, hposts]
  rw [List.drop_left, hnothing, List.append_nil]

variable [Authority α] [Executor ε]

/-- A timeline without handlers goes on, and `tokens` are the transitions that have finished or are active. -/
structure Serving (t : Timeline η α ε) (config : Config) (tokens : List Token) : Prop where
  configured : t.shell.config = config
  unattended : t.shell.Unattended
  idle : t.shell.stage.jobs = []
  going : t.ending = none
  tokens : (t.shell.stage.finishCalls ++ t.shell.table.tokens).Perm tokens

theorem Serving.of_stage {config : Config} {tokens : List Token} (h : t.Serving config tokens) {t' : Timeline η α ε}
    (stage : Stage) (hshell : t'.shell = { t.shell with stage }) (hgoing : t'.ending = t.ending)
    (hopen : stage.isOpen = t.shell.stage.isOpen) (hidle : stage.jobs = t.shell.stage.jobs)
    (hcalls : stage.finishCalls = t.shell.stage.finishCalls) : t'.Serving config tokens where
  configured := hshell ▸ h.configured
  unattended := by
    rw [hshell]
    exact ⟨h.unattended.handlers, hopen.trans h.unattended.isOpen, h.unattended.authority, h.unattended.executor⟩
  idle := by
    rw [hshell]
    exact hidle.trans h.idle
  going := hgoing.trans h.going
  tokens := by
    rw [hshell, hcalls]
    exact h.tokens

variable [Handler η]

/-- The jobs that start while the queue is emptied are new parts, and what is applied meanwhile is written. -/
theorem Serving.settle {config : Config} {tokens started : List Token} {v : Shell η α ε} {jobs : List Job}
    {applied : List Transaction} (h : t.Serving config tokens) (he : t.shell.Empties v t.shell.drainLimit)
    (hs : t.shell.Serves v started jobs applied) (time : Nat) :
    (t.settle time).Serving config (tokens ++ started) ∧ t.settle time = { t with
      shell := { v with stage := { v.stage with jobs := [] } }
      parts := t.parts ++ jobs.map fun j => { job := j, started := time, generation := t.generation }
      writes := t.writes ++ applied.flatMap (AlphaWrite.ofTransaction time) } := by
  obtain ⟨n, hdrain⟩ := he
  obtain ⟨more, hmore, rfl⟩ := hs.journal
  have hjobs : v.stage.jobs = jobs := by rw [hs.jobs, h.idle, List.nil_append]
  have hsettle : t.settle time = { t with
      shell := { v with stage := { v.stage with jobs := [] } }
      parts := t.parts ++ jobs.map fun j => { job := j, started := time, generation := t.generation }
      writes := t.writes ++ (more.filterMap Entry.transaction?).flatMap (AlphaWrite.ofTransaction time) } := by
    rw [Timeline.settle, Shell.drain, hdrain]
    simp [hjobs, hmore, AlphaWrite.ofJournal_eq]
  have hv := hs.unattended h.unattended
  refine ⟨?_, hsettle⟩
  rw [hsettle]
  exact ⟨hs.config.trans h.configured, ⟨hv.handlers, hv.isOpen, hv.authority, hv.executor⟩, rfl, h.going,
    hs.tokens.trans (h.tokens.append_right started)⟩

omit [Authority α] [Executor ε] [Handler η] in
theorem generation_ne_next (t : Timeline η α ε) : t.generation ≠ t.generation + 1 := by
  intro hsame
  have hlt := t.generation.toNat_lt
  have hnat := congrArg UInt64.toNat hsame
  rw [UInt64.toNat_add, UInt64.toNat_one] at hnat
  omega

/-- Parts of the current generation are all cancelled by the next one. -/
theorem cancelAll_eq (h : ∀ p ∈ t.parts, p.generation = t.generation) :
    let t' := t.parts.foldl (fun t p => t.endPart p t.now .cancel)
      ({ t with generation := t.generation + 1, parts := [] } : Timeline η α ε)
    t.cancelAll = t'.settle t'.now := by
  have hall : t.parts.filter (fun p => p.generation ≠ t.generation + 1) = t.parts :=
    List.filter_eq_self.mpr fun p hp => decide_eq_true (h p hp ▸ t.generation_ne_next)
  have hnone : t.parts.filter (not ∘ fun p => decide (p.generation ≠ t.generation + 1)) = [] :=
    List.filter_eq_nil_iff.mpr fun p hp => by simpa using h p hp ▸ t.generation_ne_next
  simp only [cancelAll, List.partition_eq_filter_filter, hall, hnone]

end Timeline

/-! ## Accounts -/

/-- What a timeline without handlers is between two cues, by the plays and the cancellations so far: `strands` are the
fades that have ended and `live` are the parts that run. -/
structure Timeline.Accounts {η α ε : Type} [Authority α] [Executor ε] (t : Timeline η α ε) (config : Config)
    (plays : List Play) (cancels : List Nat) (strands : List Strand) (live : List Part) : Prop where
  serving : t.Serving config (plays.map Play.token)
  taken : t.shell.stage.queue = []
  tracks : t.shell.table.Tracks (live.map Part.job)
  books : Books config plays cancels strands live t.now t.writes

namespace Timeline.Accounts

variable {η α ε : Type} [Authority α] [Executor ε] {t : Timeline η α ε} {config : Config} {plays : List Play}
  {cancels cancels' : List Nat} {strands : List Strand} {live live' ps : List Part} {time : Nat}

theorem interval (h : t.Accounts config plays cancels strands live) : t.interval = config.tickInterval := by
  rw [Timeline.interval, h.serving.configured]

theorem congr (h : t.Accounts config plays cancels strands live) (hp : live.Perm live') :
    t.Accounts config plays cancels strands live' :=
  ⟨h.serving, h.taken, h.tracks.congr (hp.map _), h.books.congr hp⟩

/-- Time passes, and the timeline is left with some parts in some generation. -/
theorem wait (h : t.Accounts config plays cancels strands live) (ht : t.now ≤ time) (parts : List Part)
    (generation : UInt64) :
    ({ t with now := time, parts, generation } : Timeline η α ε).Accounts config plays cancels strands live :=
  ⟨h.serving.of_stage t.shell.stage rfl rfl rfl rfl rfl, h.taken, h.tracks, h.books.wait ht⟩

variable [Handler η]

/-- Some of the parts that run end, and their reports are processed. -/
theorem ends (h : t.Accounts config plays cancels strands (ps ++ live)) (moment : Nat → Part → Nat) (how : Ending)
    (time : Nat) (hold : ∀ s ∈ strands, ∃ time ≤ t.now, s.Ends config.tickInterval time cancels')
    (hnew : ∀ p ∈ ps, ∃ time ≤ t.now,
      (p.strand config.tickInterval t.now (moment t.now p)).Ends config.tickInterval time cancels')
    (hlive : ∀ p ∈ live, p.Runs t.now cancels') {t' : Timeline η α ε}
    (ht : (ps.foldl (fun t p => t.endPart p (moment t.now p) how) t).settle time = t') :
    t'.Accounts config plays cancels'
        (strands ++ ps.map fun p => p.strand config.tickInterval t.now (moment t.now p)) live ∧
      t'.now = t.now ∧ t'.parts = t.parts ∧ t'.generation = t.generation := by
  let strand (p : Part) : Strand := p.strand config.tickInterval t.now (moment t.now p)
  have hparts : (ps.map strand).map Strand.part = ps := by
    rw [List.map_map]
    exact List.map_id ps
  have hbooks := (hparts.symm ▸ h.books).ends hold (List.forall_mem_map.mpr hnew) hlive
  have hrunning : ∀ p ∈ ps, p.job.ended = false := fun p hp =>
    (h.books.runs p (List.mem_append_left live hp)).running
  obtain ⟨more, hmore, hends⟩ := endParts_eq h.serving.unattended.isOpen hrunning moment how
  rw [h.taken, List.nil_append, h.interval] at hends
  generalize ps.foldl (fun t p => t.endPart p (moment t.now p) how) t = u at hends ht
  have hserving : u.Serving config (plays.map Play.token) := by
    have hshell := congrArg Timeline.shell hends
    refine h.serving.of_stage _ hshell (by rw [hends]) rfl rfl ?_
    rw [Stage.finishCalls, List.filterMap_append, hmore, List.append_nil, Stage.finishCalls]
  have hqueue : u.shell.stage.queue = (ps.map Part.job).map fun j => .fadeDone j.token j.id := by rw [hends]
  have hlimit := u.shell.length_le_drainLimit
  rw [hqueue, List.length_map] at hlimit
  have htracks : u.shell.table.Tracks (ps.map Part.job ++ live.map Part.job) := by
    rw [hends, ← List.map_append]
    exact h.tracks
  obtain ⟨v, hempties, hserves, htracks, hleft⟩ := Shell.empties_reports (ps.map Part.job) htracks hqueue hlimit
  obtain ⟨hserving', hsettle⟩ := hserving.settle hempties hserves time
  rw [ht, List.append_nil] at hserving'
  rw [ht, List.map_nil, List.append_nil, List.flatMap_nil, List.append_nil, hends] at hsettle
  refine ⟨⟨hserving', ?_, ?_, ?_⟩, ?_, ?_, ?_⟩
  · rw [hsettle]
    exact hleft
  · rw [hsettle]
    exact htracks
  · rw [hsettle]
    rw [List.flatMap_map] at hbooks
    exact hbooks
  · rw [hsettle]
  · rw [hsettle]
  · rw [hsettle]

/-- The parts of `ended` are found over one after the other. -/
theorem finishes {ended : List Part} (h : t.Accounts config plays cancels strands (ended ++ live)) (ht : t.now = time)
    (hended : ∀ p ∈ ended, (p.ticksBefore config.tickInterval time).2 = true) :
    let t' := ended.foldl
      (fun t p => (t.endPart p (p.lastTick t.interval time) .finish).settle (p.lastTick t.interval time)) t
    ∃ strands', t'.Accounts config plays cancels strands' live ∧ t'.now = time ∧ t'.parts = t.parts ∧
      t'.generation = t.generation := by
  induction ended generalizing t strands with
  | nil => exact ⟨strands, h, ht, rfl, rfl⟩
  | cons p ended ih =>
    have hp := hended p List.mem_cons_self
    have hruns := h.books.runs p List.mem_cons_self
    have hends : (p.strand config.tickInterval t.now (p.lastTick config.tickInterval t.now)).Ends config.tickInterval
        t.now cancels := by
      rw [ht]
      have hfull := (p.strand_full config.tickInterval time (p.lastTick config.tickInterval time)).trans hp
      refine ⟨⟨p.strand_goes time _ config.tickInterval_pos, (if_pos hfull).symm⟩, fun c hc hs => ?_, fun hcut => ?_⟩
      · exact absurd (hruns.free c hc) (Nat.not_lt.mpr hs)
      · cases hfull.symm.trans hcut
    have hfirst : t.Accounts config plays cancels strands ([p] ++ (ended ++ live)) := h
    obtain ⟨h', hnow, hparts, hgeneration⟩ := hfirst.ends
      (fun now p => p.lastTick config.tickInterval now) .finish (p.lastTick t.interval time) h.books.ended
      (List.forall_mem_singleton.mpr ⟨t.now, Nat.le_refl _, hends⟩)
      (fun q hq => h.books.runs q (List.mem_cons_of_mem p hq)) rfl
    have hone : [p].foldl (fun t p => t.endPart p (p.lastTick config.tickInterval t.now) .finish) t =
        t.endPart p (p.lastTick t.interval time) .finish := by rw [List.foldl_cons, List.foldl_nil, ht, h.interval]
    rw [hone] at h' hnow hparts hgeneration
    obtain ⟨strands', h'', hnow', hparts', hgeneration'⟩ :=
      ih h' (hnow.trans ht) fun q hq => hended q (List.mem_cons_of_mem p hq)
    exact ⟨strands', h'', hnow', hparts'.trans hparts, hgeneration'.trans hgeneration⟩

/-- When time passes, the parts end that are found over, and no part that runs on is over. -/
theorem pass (h : t.Accounts config plays cancels strands t.parts) (ht : t.now ≤ time) :
    ∃ strands', (t.pass time).Accounts config plays cancels strands' (t.pass time).parts ∧ (t.pass time).now = time ∧
      (t.pass time).parts = t.parts.filter (fun p => !(p.ticksBefore config.tickInterval time).2) ∧
      (t.pass time).generation = t.generation := by
  let isOver (p : Part) : Bool := (p.ticksBefore config.tickInterval time).2
  let ended := (t.parts.filter isOver).mergeSort fun p q =>
    p.lastTick config.tickInterval time ≤ q.lastTick config.tickInterval time
  let running := t.parts.filter (!isOver ·)
  have hperm : t.parts.Perm (ended ++ running) := by
    refine (List.filter_append_perm isOver t.parts).symm.trans ?_
    exact (List.mergeSort_perm _ _).symm.append_right _
  have hpass : t.pass time = ended.foldl
      (fun t p => (t.endPart p (p.lastTick t.interval time) .finish).settle (p.lastTick t.interval time))
      { t with now := time, parts := running } := by
    rw [Timeline.pass, h.interval, List.partition_eq_filter_filter]
    rfl
  obtain ⟨strands', h', hnow, hparts, hgeneration⟩ :=
    ((h.congr hperm).wait ht running t.generation).finishes rfl fun p hp =>
      (List.mem_filter.mp ((List.mergeSort_perm _ _).mem_iff.mp hp)).2
  rw [← hpass] at h' hnow hparts hgeneration
  exact ⟨strands', hparts ▸ h', hnow, hparts, hgeneration⟩

/-- A cancellation ends all parts that run. -/
theorem cancelAll (h : t.Accounts config plays cancels strands t.parts)
    (hrunning : ∀ p ∈ t.parts, (p.ticksBefore config.tickInterval t.now).2 = false)
    (hcurrent : ∀ p ∈ t.parts, p.generation = t.generation) :
    ∃ strands', t.cancelAll.Accounts config plays (cancels ++ [t.now]) strands' [] ∧ t.cancelAll.now = t.now ∧
      t.cancelAll.parts = [] := by
  let t₀ : Timeline η α ε := { t with generation := t.generation + 1, parts := [] }
  have h₀ : t₀.Accounts config plays cancels strands (t.parts ++ []) := by
    rw [List.append_nil]
    exact h.wait (Nat.le_refl _) [] (t.generation + 1)
  have hold : ∀ s ∈ strands, ∃ time ≤ t.now, s.Ends config.tickInterval time (cancels ++ [t.now]) := by
    intro s hs
    obtain ⟨last, hlast, hends⟩ := h.books.ended s hs
    exact ⟨last, hlast, hends.cancelled hlast⟩
  have hnew : ∀ p ∈ t.parts, (p.strand config.tickInterval t.now t.now).Ends config.tickInterval t.now
      (cancels ++ [t.now]) := by
    intro p hp
    have hruns := h.books.runs p hp
    have hcut : ¬ (p.strand config.tickInterval t.now t.now).full = true := by
      rw [p.strand_full, hrunning p hp]
      exact Bool.false_ne_true
    refine ⟨⟨p.strand_goes t.now t.now config.tickInterval_pos, (if_neg hcut).symm⟩, fun c hc hs => ?_,
      fun _ => ⟨List.mem_append_right _ List.mem_cons_self, hruns.started⟩⟩
    rcases List.mem_append.mp hc with hc | hc
    · exact absurd (hruns.free c hc) (Nat.not_lt.mpr hs)
    · exact Nat.le_of_eq (List.mem_singleton.mp hc).symm
  obtain ⟨h', hnow, hparts, _⟩ := h₀.ends (fun now _ => now) .cancel _ hold
    (fun p hp => ⟨t.now, Nat.le_refl _, hnew p hp⟩) (by simp) (cancelAll_eq hcurrent).symm
  exact ⟨_, h', hnow, hparts⟩

/-- A transition is played: its fades, if there are any, are new parts. -/
theorem play (h : t.Accounts config plays cancels strands t.parts) {p : Play} (hp : p.time = t.now)
    (hc : ∀ c ∈ cancels, c < t.now) (hn : p.token ∉ plays.map Play.token) {t' : Timeline η α ε}
    (ht : t.send [.request p.batch.kind p.token none, .ready p.token p.batch []] = t') :
    t'.Accounts config (plays ++ [p]) cancels strands t'.parts ∧ t'.now = t.now ∧ t'.generation = t.generation ∧
      ∀ q ∈ t'.parts, q ∈ t.parts ∨ q.generation = t.generation := by
  have hpost := post_eq h.serving.unattended.isOpen t.now
    [.request p.batch.kind p.token none, .ready p.token p.batch []]
  rw [Timeline.send] at ht
  generalize t.onStage t.now _ = u at hpost ht
  have hshell := congrArg Timeline.shell hpost
  have hserving : u.Serving config (plays.map Play.token) := by
    refine h.serving.of_stage _ hshell (by rw [hpost]) rfl rfl ?_
    rw [Stage.finishCalls, List.filterMap_append, Stage.finishCalls]
    exact List.append_nil _
  have hqueue : u.shell.stage.queue = [.request p.batch.kind p.token none, .ready p.token p.batch []] := by
    rw [hpost, h.taken]
    rfl
  have hlimit := u.shell.length_le_drainLimit
  rw [hqueue] at hlimit
  have htracks : u.shell.table.Tracks (t.parts.map Part.job) := by
    rw [hpost]
    exact h.tracks
  have hnew : u.shell.table.get? p.token = none := by
    refine Table.get?_eq_none_iff.mpr fun hmem => hn ?_
    exact hserving.tokens.mem_iff.mp (List.mem_append_right _ hmem)
  obtain ⟨v, ids, hempties, hids, hserves, htracks', hleft⟩ :=
    Shell.empties_played hserving.unattended htracks hnew hqueue hlimit
  obtain ⟨hserving', hsettle⟩ := hserving.settle hempties hserves t.now
  rw [ht] at hserving'
  rw [ht, hserving.configured, show u.parts = t.parts by rw [hpost], show u.generation = t.generation by rw [hpost],
    show u.writes = t.writes by rw [hpost], show u.now = t.now by rw [hpost]] at hsettle
  rw [hserving.configured] at htracks'
  let jobs := Shell.jobsOf config p.token ids p.batch
  let new := jobs.map fun j => ({ job := j, started := t.now, generation := t.generation } : Part)
  have hnewjobs : new.map Part.job = jobs := by
    rw [List.map_map]
    exact List.map_id jobs
  have hcalls : new.map Part.call = p.calls config := by
    rw [List.map_map, ← hp]
    exact Shell.calls_jobsOf config p hids t.generation
  have hbooks := h.books.play hp hc hcalls fun q hq => by
    obtain ⟨j, hj, rfl⟩ := List.mem_map.mp hq
    exact ⟨(Shell.running_of_mem_jobsOf hj).2, rfl⟩
  have hparts : t'.parts = t.parts ++ new := by rw [hsettle]
  refine ⟨⟨?_, ?_, ?_, ?_⟩, ?_, ?_, ?_⟩
  · rw [List.map_append]
    exact hserving'
  · rw [hsettle]
    exact hleft
  · rw [hparts, List.map_append, hnewjobs, hsettle]
    exact htracks'
  · rw [hparts, hsettle]
    rw [← hp] at hbooks ⊢
    simpa [Play.startWrites] using hbooks
  · rw [hsettle]
  · rw [hsettle]
  · intro q hq
    rw [hparts] at hq
    refine (List.mem_append.mp hq).imp_right fun hq => ?_
    obtain ⟨j, _, rfl⟩ := List.mem_map.mp hq
    rfl

/-- The run stops: nothing changes but that it is over. -/
theorem stop (h : t.Accounts config plays cancels strands live) {t' : Timeline η α ε} (ht : t.send [.shutdown] = t') :
    t'.ending = some .shutdown ∧ t'.shell.config = config ∧ t'.shell.table = t.shell.table ∧
      t'.shell.stage.finishCalls = t.shell.stage.finishCalls ∧ t'.now = t.now ∧ t'.parts = t.parts ∧
      t'.writes = t.writes := by
  have hpost := post_eq h.serving.unattended.isOpen t.now [.shutdown]
  rw [Timeline.send, hpost, h.taken] at ht
  rw [Timeline.settle, Shell.drain_shutdown rfl] at ht
  subst ht
  have hcalls : (t.shell.stage.journal ++ [Entry.posted .shutdown] ++ [Entry.received .shutdown]).filterMap
      Entry.finishCall? = t.shell.stage.finishCalls := by
    rw [List.filterMap_append, List.filterMap_append, List.append_assoc, Stage.finishCalls]
    exact List.append_nil _
  refine ⟨rfl, h.serving.configured, rfl, hcalls, rfl, ?_, ?_⟩
  · show t.parts ++ t.shell.stage.jobs.map _ = t.parts
    rw [h.serving.idle, List.map_nil, List.append_nil]
  · show t.writes ++ AlphaWrite.ofJournal t.now
      ((t.shell.stage.journal ++ [Entry.posted .shutdown] ++ [Entry.received .shutdown]).drop
        (t.shell.stage.journal ++ [Entry.posted .shutdown]).length) = t.writes
    rw [List.drop_left]
    exact List.append_nil _

end Timeline.Accounts

end WindowTransitions
