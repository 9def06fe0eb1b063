import WindowTransitions.Proofs.Accounts

/-! Timed runs without handlers. Main statement: in a run that plays transitions, cancels all fades and stops, each
at any time, every fade of a transition that is played in time ticks until it is over, is cancelled or is dropped at
the end, and then writes its end value once. A transition has finished exactly if all its fades have ended before the
stop. -/

set_option autoImplicit false

namespace WindowTransitions

/-! ## Cues in order -/

namespace Cue

def rank : Cue → Nat
  | .play _ _ => 0
  | .cancel => 1
  | .stop => 2

/-- Cues of one time come in the order of their ranks. -/
def Before (a b : Nat × Cue) : Prop := a.1 ≤ b.1 ∧ (b.1 ≤ a.1 → a.2.rank ≤ b.2.rank)

def play? : Nat × Cue → Option Play
  | (time, .play token batch) => some ⟨time, token, batch⟩
  | _ => none

def cancel? : Nat × Cue → Option Nat
  | (time, .cancel) => some time
  | _ => none

end Cue

/-- Transitions are played, all fades are cancelled and the run is stopped, each at its time. -/
def schedule (plays : List Play) (cancels : List Nat) (stop : Nat) : List (Nat × Cue) :=
  plays.map Play.cue ++ cancels.map (fun time => (time, .cancel)) ++ [(stop, .stop)]

section Schedule
variable {plays : List Play} {cancels : List Nat} {stop : Nat} {before after others : List (Nat × Cue)}

/-- What is picked before the stop, where the others come after it. -/
theorem picked_before {β : Type} (f : Nat × Cue → Option β) (time : β → Nat) (hf : ∀ c b, f c = some b → time b = c.1)
    (hothers : (before ++ after).Perm others) (hearly : ∀ c ∈ before, c.1 ≤ stop) (hlate : ∀ c ∈ after, stop < c.1) :
    (before.filterMap f).Perm ((others.filterMap f).filter (time · ≤ stop)) := by
  have hall : (before.filterMap f).filter (time · ≤ stop) = before.filterMap f := by
    refine List.filter_eq_self.mpr fun b hb => decide_eq_true ?_
    obtain ⟨c, hc, hpick⟩ := List.mem_filterMap.mp hb
    exact hf c b hpick ▸ hearly c hc
  have hnone : (after.filterMap f).filter (time · ≤ stop) = [] := by
    refine List.filter_eq_nil_iff.mpr fun b hb => ?_
    obtain ⟨c, hc, hpick⟩ := List.mem_filterMap.mp hb
    rw [hf c b hpick]
    simpa using hlate c hc
  have hpick := (hothers.filterMap f).filter (time · ≤ stop)
  rwa [List.filterMap_append, List.filter_append, hall, hnone, List.append_nil] at hpick

theorem time_of_play? (c : Nat × Cue) (p : Play) (h : Cue.play? c = some p) : p.time = c.1 := by
  obtain ⟨time, cue⟩ := c
  cases cue <;> cases h
  rfl

theorem time_of_cancel? (c : Nat × Cue) (time : Nat) (h : Cue.cancel? c = some time) : time = c.1 := by
  obtain ⟨_, cue⟩ := c
  cases cue <;> cases h
  rfl

variable (plays cancels stop)

/-- The order in which a run takes its cues. -/
theorem sorted_schedule :
    ∃ before after, (schedule plays cancels stop).mergeSort (fun a b => a.1 ≤ b.1) =
        before ++ (stop, .stop) :: after ∧
      (before ++ after).Perm (plays.map Play.cue ++ cancels.map fun time => (time, Cue.cancel)) ∧
      (before ++ (stop, .stop) :: after).Pairwise Cue.Before := by
  have hranked : (schedule plays cancels stop).Pairwise fun a b => a.2.rank ≤ b.2.rank := by
    simp [schedule, List.pairwise_append, List.pairwise_map, Cue.rank, Play.cue, List.pairwise_of_forall]
  have hsorted := sorted_stably Prod.fst hranked
  have hperm := List.mergeSort_perm (schedule plays cancels stop) fun a b => decide (a.1 ≤ b.1)
  obtain ⟨before, after, hsplit⟩ := List.append_of_mem
    (hperm.mem_iff.mpr (List.mem_append_right _ (List.mem_singleton.mpr rfl)))
  rw [hsplit] at hsorted hperm
  refine ⟨before, after, hsplit, ?_, hsorted⟩
  refine (List.perm_cons (stop, Cue.stop)).mp (List.perm_middle.symm.trans (hperm.trans ?_))
  exact List.perm_append_singleton _ _

/-- Before the stop come just the plays and the cancellations that are not later than it. -/
theorem before_schedule :
    ∃ before after, (schedule plays cancels stop).mergeSort (fun a b => a.1 ≤ b.1) =
        before ++ (stop, .stop) :: after ∧
      before.Pairwise Cue.Before ∧ (∀ c ∈ before, c.2.rank < 2 ∧ c.1 ≤ stop) ∧
      (before.filterMap Cue.play?).Perm (plays.filter (·.time ≤ stop)) ∧
      (before.filterMap Cue.cancel?).Perm (cancels.filter (· ≤ stop)) := by
  obtain ⟨before, after, hsplit, hothers, hsorted⟩ := sorted_schedule plays cancels stop
  obtain ⟨hbefore, hafter, hbetween⟩ := List.pairwise_append.mp hsorted
  have hrank : ∀ c ∈ before ++ after, c.2.rank < 2 := by
    intro c hc
    rcases List.mem_append.mp (hothers.mem_iff.mp hc) with hc | hc
    · obtain ⟨p, _, rfl⟩ := List.mem_map.mp hc
      exact Nat.zero_lt_two
    · obtain ⟨time, _, rfl⟩ := List.mem_map.mp hc
      exact Nat.one_lt_two
  have hearly : ∀ c ∈ before, c.1 ≤ stop := fun c hc => (hbetween c hc _ List.mem_cons_self).1
  -- A cue at the time of the stop would have come before it.
  have hlate : ∀ c ∈ after, stop < c.1 := by
    intro c hc
    by_contra hle
    have hlast : 2 ≤ c.2.rank := ((List.pairwise_cons.mp hafter).1 c hc).2 (Nat.not_lt.mp hle)
    exact absurd (hrank c (List.mem_append_right before hc)) (Nat.not_lt.mpr hlast)
  refine ⟨before, after, hsplit, hbefore, fun c hc => ⟨hrank c (List.mem_append_left after hc), hearly c hc⟩, ?_, ?_⟩
  · have hplays := picked_before Cue.play? Play.time time_of_play? hothers hearly hlate
    simpa [List.filterMap_append, List.filterMap_map, Function.comp_def, Cue.play?, Play.cue] using hplays
  · have hcancels := picked_before Cue.cancel? id time_of_cancel? hothers hearly hlate
    simpa [List.filterMap_append, List.filterMap_map, Function.comp_def, Cue.cancel?, Play.cue] using hcancels

end Schedule

/-! ## Runs -/

theorem Rehearsal.Issuer.keepsTokens (last : UInt64) : Authority.KeepsTokens (⟨last, false⟩ : Rehearsal.Issuer) := by
  have hheard : ∀ (calls : List Entry) (a : Rehearsal.Issuer), a.remaps = false →
      (calls.foldl Entry.heard a).remaps = false := by
    intro calls
    induction calls with
    | nil => exact fun a ha => ha
    | cons e calls ih =>
      intro a ha
      refine ih _ ?_
      cases e with
      | startCalled kind placeholder containers =>
        cases placeholder <;> simp [Entry.heard, Authority.start, issue, ha]
      | asked | offered | finishCalled | applied | event | posted | received => exact ha
  intro calls kind token containers
  show (Rehearsal.Issuer.issue _ (some token)).1 = token
  rw [Rehearsal.Issuer.issue, hheard calls _ rfl]
  rfl

namespace Timeline

variable {η α ε : Type} [Authority α] [Executor ε] {t : Timeline η α ε} {config : Config}
  {cues : List (Nat × Cue)}

/-- After `cues`, none of which is a stop, the accounts are in order. -/
structure Tells (t : Timeline η α ε) (config : Config) (cues : List (Nat × Cue)) : Prop where
  accounts : ∃ strands,
    t.Accounts config (cues.filterMap Cue.play?) (cues.filterMap Cue.cancel?) strands t.parts
  current : ∀ p ∈ t.parts, p.generation = t.generation
  now : ∀ time, (∀ c ∈ cues, c.1 ≤ time) → t.now ≤ time

theorem tells_start {authority : α} {executor : ε} (ha : Authority.KeepsTokens authority)
    (he : Executor.Keeps executor) (config : Config) :
    ({ shell := { config, authority, executor } } : Timeline η α ε).Tells config [] where
  accounts := ⟨[], ⟨rfl, ⟨rfl, rfl, ha, he⟩, rfl, rfl, .nil⟩, rfl, ⟨.nil, by simp, fun _ => .nil⟩, .start config 0⟩
  current := by simp
  now time _ := Nat.zero_le time

theorem Tells.going (h : t.Tells config cues) : t.ending = none := by
  obtain ⟨_, haccounts⟩ := h.accounts
  exact haccounts.serving.going

variable [Handler η]

theorem Tells.pass (h : t.Tells config cues) {time : Nat} (ht : ∀ c ∈ cues, c.1 ≤ time) :
    (∃ strands, (t.pass time).Accounts config (cues.filterMap Cue.play?) (cues.filterMap Cue.cancel?) strands
        (t.pass time).parts) ∧
      (t.pass time).now = time ∧ (∀ p ∈ (t.pass time).parts, p.generation = (t.pass time).generation) ∧
      ∀ p ∈ (t.pass time).parts, (p.ticksBefore config.tickInterval time).2 = false := by
  obtain ⟨strands, haccounts⟩ := h.accounts
  obtain ⟨strands', hpass, hnow, hparts, hgeneration⟩ := haccounts.pass (h.now time ht)
  refine ⟨⟨strands', hpass⟩, hnow, fun p hp => ?_, fun p hp => ?_⟩ <;> rw [hparts] at hp
  · rw [hgeneration]
    exact h.current p (List.mem_filter.mp hp).1
  · simpa using (List.mem_filter.mp hp).2

theorem Tells.play (h : t.Tells config cues) {time : Nat} {token : Token} {batch : Batch}
    (hb : ∀ c ∈ cues, Cue.Before c (time, .play token batch))
    (hn : (((cues ++ [(time, Cue.play token batch)]).filterMap Cue.play?).map Play.token).Nodup) :
    (t.perform (time, .play token batch)).Tells config (cues ++ [(time, .play token batch)]) := by
  let p : Play := ⟨time, token, batch⟩
  obtain ⟨⟨strands, hpass⟩, hnow, hcurrent, _⟩ := h.pass fun c hc => (hb c hc).1
  have hperform : t.perform (time, .play token batch) =
      (t.pass time).send [.request batch.kind token none, .ready token batch []] := by
    rw [Timeline.perform, h.going]
    rfl
  have hplays : (cues ++ [(time, Cue.play token batch)]).filterMap Cue.play? = cues.filterMap Cue.play? ++ [p] :=
    List.filterMap_append
  have hcancels : (cues ++ [(time, Cue.play token batch)]).filterMap Cue.cancel? = cues.filterMap Cue.cancel? :=
    List.filterMap_append.trans (List.append_nil _)
  -- A cancellation at the same time would have come after the play.
  have hearlier : ∀ c ∈ cues.filterMap Cue.cancel?, c < (t.pass time).now := by
    intro c hc
    obtain ⟨⟨_, cue⟩, hmem, hcancel⟩ := List.mem_filterMap.mp hc
    cases cue <;> cases hcancel
    rw [hnow]
    exact Nat.not_le.mp fun hle => absurd ((hb _ hmem).2 hle) (Nat.not_succ_le_zero 0)
  have hfresh : p.token ∉ (cues.filterMap Cue.play?).map Play.token := by
    rw [hplays, List.map_append] at hn
    intro hmem
    exact (List.nodup_append.mp hn).2.2 _ hmem _ List.mem_cons_self rfl
  rw [hperform]
  obtain ⟨h', hnow', hgeneration', hparts'⟩ := hpass.play (p := p) hnow.symm hearlier hfresh rfl
  refine ⟨⟨strands, ?_⟩, fun q hq => ?_, fun last hlast => ?_⟩
  · rw [hplays, hcancels]
    exact h'
  · rw [hgeneration']
    exact (hparts' q hq).elim (hcurrent q) id
  · rw [hnow', hnow]
    exact hlast _ (List.mem_append_right cues List.mem_cons_self)

theorem Tells.cancel (h : t.Tells config cues) {time : Nat} (hb : ∀ c ∈ cues, c.1 ≤ time) :
    (t.perform (time, .cancel)).Tells config (cues ++ [(time, .cancel)]) := by
  obtain ⟨⟨strands, hpass⟩, hnow, hcurrent, hrunning⟩ := h.pass hb
  have hperform : t.perform (time, .cancel) = (t.pass time).cancelAll := by
    rw [Timeline.perform, h.going]
    rfl
  have hplays : (cues ++ [(time, Cue.cancel)]).filterMap Cue.play? = cues.filterMap Cue.play? :=
    List.filterMap_append.trans (List.append_nil _)
  have hcancels : (cues ++ [(time, Cue.cancel)]).filterMap Cue.cancel? = cues.filterMap Cue.cancel? ++ [time] :=
    List.filterMap_append
  rw [hperform]
  obtain ⟨strands', h', hnow', hparts'⟩ := hpass.cancelAll (by rwa [hnow]) hcurrent
  rw [hnow] at h' hnow'
  refine ⟨⟨strands', ?_⟩, ?_, fun last hlast => ?_⟩
  · rw [hplays, hcancels, hparts']
    exact h'
  · simp [hparts']
  · rw [hnow']
    exact hlast _ (List.mem_append_right cues List.mem_cons_self)

/-- Plays and cancellations in their order keep the accounts. -/
theorem Tells.performs (h : t.Tells config []) (cues : List (Nat × Cue)) (hb : cues.Pairwise Cue.Before)
    (hs : ∀ c ∈ cues, c.2.rank < 2) (hn : ((cues.filterMap Cue.play?).map Play.token).Nodup) :
    (cues.foldl Timeline.perform t).Tells config cues := by
  induction cues using List.reverseRecOn with
  | nil => exact h
  | append_singleton cues cue ih =>
    obtain ⟨hcues, _, hlast⟩ := List.pairwise_append.mp hb
    have hbefore : ∀ c ∈ cues, Cue.Before c cue := fun c hc => hlast c hc cue List.mem_cons_self
    have hdistinct : ((cues.filterMap Cue.play?).map Play.token).Nodup := by
      rw [List.filterMap_append, List.map_append] at hn
      exact hn.of_append_left
    have htells := ih hcues (fun c hc => hs c (List.mem_append_left _ hc)) hdistinct
    have hcue := hs cue (List.mem_append_right cues List.mem_cons_self)
    rw [List.foldl_append, List.foldl_cons, List.foldl_nil]
    obtain ⟨time, cue⟩ := cue
    cases cue with
    | play token batch => exact htells.play hbefore hn
    | cancel => exact htells.cancel fun c hc => (hbefore c hc).1
    | stop => exact absurd hcue (Nat.lt_irrefl 2)

/-- A run that is over stays as it is. -/
theorem foldl_perform_ended (h : t.ending.isSome = true) (cues : List (Nat × Cue)) :
    cues.foldl Timeline.perform t = t := by
  induction cues with
  | nil => rfl
  | cons cue cues ih =>
    have hsame : t.perform cue = t := if_pos h
    rw [List.foldl_cons, hsame, ih]

omit [Authority α] [Executor ε] [Handler η] in
theorem finished_eq (t : Timeline η α ε) : t.finished = t.shell.stage.finishCalls :=
  congrArg (t.shell.stage.journal.filterMap ·) (funext fun e => by cases e <;> rfl)

/-- What comes later than the stop is lost, and up to the stop the books are in order. -/
theorem run_schedule {authority : α} {executor : ε} (ha : Authority.KeepsTokens authority)
    (he : Executor.Keeps executor) (config : Config) {plays : List Play} (hp : (plays.map Play.token).Nodup)
    (cancels : List Nat) (stop : Nat) {t : Timeline η α ε}
    (ht : ({ shell := { config, authority, executor } } : Timeline η α ε).run (schedule plays cancels stop) = t) :
    ∃ posted cancels' strands, posted.Perm (plays.filter (·.time ≤ stop)) ∧
      cancels'.Perm (cancels.filter (· ≤ stop)) ∧
      t.ending = some .shutdown ∧ t.shell.config = config ∧ t.now = stop ∧
      t.shell.table.Tracks (t.parts.map Part.job) ∧
      (t.finished ++ t.shell.table.tokens).Perm (posted.map Play.token) ∧
      Books config posted cancels' strands t.parts stop t.writes ∧
      ∀ p ∈ t.parts, (p.ticksBefore config.tickInterval stop).2 = false := by
  obtain ⟨before, after, hsorted, hbefore, hearly, hplays, hcancels⟩ := before_schedule plays cancels stop
  have hn : ((before.filterMap Cue.play?).map Play.token).Nodup :=
    (hplays.map _).nodup_iff.mpr (hp.sublist (List.filter_sublist.map _))
  have htells := (tells_start (η := η) ha he config).performs before hbefore (fun c hc => (hearly c hc).1) hn
  rw [Timeline.run, hsorted, List.foldl_append, List.foldl_cons] at ht
  generalize before.foldl Timeline.perform ({ shell := { config, authority, executor } } : Timeline η α ε) = u
    at htells ht
  obtain ⟨⟨strands, hpass⟩, hnow, _, hrunning⟩ := htells.pass fun c hc => (hearly c hc).2
  obtain ⟨hending, hconfig, htable, hcalls, hnow', hparts, hwrites⟩ := hpass.stop rfl
  have hperform : u.perform (stop, .stop) = (u.pass stop).send [.shutdown] := by
    rw [Timeline.perform, htells.going]
    rfl
  rw [hperform, foldl_perform_ended (by rw [hending]; rfl)] at ht
  rw [ht] at hending hconfig htable hcalls hnow' hparts hwrites
  refine ⟨before.filterMap Cue.play?, before.filterMap Cue.cancel?, strands, hplays, hcancels, hending, hconfig,
    hnow'.trans hnow, ?_, ?_, ?_, ?_⟩
  · rw [htable, hparts]
    exact hpass.tracks
  · rw [finished_eq, hcalls, htable]
    exact hpass.serving.tokens
  · have hbooks := hpass.books
    rw [hnow] at hbooks
    rw [hparts, hwrites]
    exact hbooks
  · rwa [hparts]

/-- Take any run without handlers that plays transitions of distinct tokens, cancels all fades and stops, each at any
time. It ends by the stop, and nothing is cut short before; a transition that is played by the stop has finished or is
active, not both, and no other has or is. The fades that these transitions call for tick from their start on until a
tick finds them over or until the first cancellation from their start on, or the stop; and then each writes its end
value once. With the start states this is all that is ever written, in the order of time, when the fades that run at the
stop are dropped. A transition has finished exactly if it has no root or each of its fades was over or cancelled by the
stop. -/
theorem run_accounts {authority : α} {executor : ε} (ha : Authority.KeepsTokens authority)
    (he : Executor.Keeps executor) (config : Config) (plays : List Play) (hp : (plays.map Play.token).Nodup)
    (cancels : List Nat) (stop : Nat) :
    let t := ({ shell := { config, authority, executor } } : Timeline η α ε).run (schedule plays cancels stop)
    let posted := plays.filter (·.time ≤ stop)
    t.ending = some .shutdown ∧ (t.finished ++ t.shell.table.tokens).Perm (posted.map Play.token) ∧
      t.finished.Disjoint t.shell.table.tokens ∧
      ∃ strands : List Strand,
        (strands.map fun s => s.part.call).Perm (posted.flatMap (Play.calls config)) ∧
        (∀ s ∈ strands, s.Lasts config.tickInterval (horizon cancels stop s.part.started)) ∧
        (∀ p ∈ posted, p.token ∈ t.finished ↔ p.batch.hasRoot = false ∨
          ∀ s ∈ strands, s.part.job.token = p.token → s.HasEnded cancels stop) ∧
        t.framesAfterDrop.Perm
          (posted.flatMap Play.startWrites ++ strands.flatMap fun s => s.writes config.tickInterval) ∧
        t.framesAfterDrop.Pairwise (fun a b => a.time ≤ b.time) ∧
        ∀ s ∈ strands, (s.writes config.tickInterval).Sublist t.framesAfterDrop := by
  intro t posted
  obtain ⟨posted', cancels', strands, hposted, hcancels, hending, hconfig, hnow, htracks, htokens, hbooks, hrunning⟩ :=
    run_schedule (t := t) ha he config hp cancels stop rfl
  have hdropped : t.framesAfterDrop = Books.dropped t.parts config.tickInterval stop t.writes := by
    rw [← hconfig, ← hnow]
    rfl
  have hdistinct : (posted'.map Play.token).Nodup :=
    (hposted.map _).nodup_iff.mpr (hp.sublist (List.filter_sublist.map _))
  have hdisjoint := (List.nodup_append'.mp (htokens.nodup_iff.mpr hdistinct)).2.2
  refine ⟨hending, htokens.trans (hposted.map _), hdisjoint, Books.fades config strands t.parts stop, ?_,
    hbooks.lasts hrunning hcancels, fun p hp => ?_, ?_, ?_, ?_⟩
  · have hparts : (Books.fades config strands t.parts stop).map (fun s => s.part.call) =
        (strands.map Strand.part ++ t.parts).map Part.call := by
      simp [Books.fades, Part.strand, Function.comp_def]
    rw [hparts]
    exact hbooks.calls.trans (hposted.flatMap_right _)
  · have hmem : p.token ∈ t.finished ++ t.shell.table.tokens :=
      htokens.mem_iff.mpr (List.mem_map_of_mem (hposted.mem_iff.mpr hp))
    rw [← hbooks.none_runs_iff hrunning hcancels hdistinct (hposted.mem_iff.mpr hp)]
    constructor
    · intro hfinished q hq htoken
      exact hdisjoint hfinished (htracks.mem_tokens.mpr ⟨q.job, List.mem_map_of_mem hq, htoken⟩)
    · intro hnone
      refine (List.mem_append.mp hmem).resolve_right fun hactive => ?_
      obtain ⟨j, hj, htoken⟩ := htracks.mem_tokens.mp hactive
      obtain ⟨q, hq, rfl⟩ := List.mem_map.mp hj
      exact hnone q hq htoken
  · rw [hdropped]
    exact hbooks.dropped_perm.trans ((hposted.flatMap_right _).append_right _)
  · rw [hdropped]
    exact hbooks.dropped_sorted
  · rw [hdropped]
    exact hbooks.dropped_ordered

/-- An opening of one surface. -/
def opening (time : Nat) (token : Token) : Play :=
  { time, token
    batch := { kind := .opening, root := some ⟨1⟩, participants := [{ surface := ⟨2⟩, mode := .opening }] } }

/-- A closing without a root. -/
def rootless (time : Nat) (token : Token) : Play := { time, token, batch := { kind := .closing } }

/-- The first fade is cancelled while it runs, the second one runs at the stop, and the last one comes too late. -/
theorem run_accounts_cancelled :
    let plays := [opening 0 ⟨1⟩, rootless 50000000 ⟨2⟩, opening 150000000 ⟨3⟩, opening 300000000 ⟨4⟩]
    let t := ({ shell := {
        authority := (⟨1000, false⟩ : Rehearsal.Issuer)
        executor := Rehearsal.Pace.keeps } } : Timeline Rehearsal.Actor Rehearsal.Issuer Rehearsal.Pace).run
      (schedule plays [100000000] 200000000)
    t.ending = some .shutdown ∧ (t.finished ++ t.shell.table.tokens).Perm [⟨1⟩, ⟨2⟩, ⟨3⟩] ∧
      ⟨1⟩ ∈ t.finished ∧ ⟨2⟩ ∈ t.finished := by
  intro plays t
  obtain ⟨hending, htokens, _, strands, hcalls, _, hfinished, _⟩ :=
    run_accounts (η := Rehearsal.Actor) (Rehearsal.Issuer.keepsTokens 1000) Rehearsal.Pace.keeps_keeps {}
      plays (by decide) [100000000] 200000000
  have hposted : plays.filter (·.time ≤ 200000000) =
      [opening 0 ⟨1⟩, rootless 50000000 ⟨2⟩, opening 150000000 ⟨3⟩] := rfl
  rw [hposted] at htokens hcalls hfinished
  have hcancelled : ∀ s ∈ strands, s.part.job.token = ⟨1⟩ → s.HasEnded [100000000] 200000000 := by
    intro s hs htoken
    have hcall := hcalls.mem_iff.mp (List.mem_map_of_mem hs)
    have hplayed : s.part.job.fade ∈ (opening 0 ⟨1⟩).fades {} ∧ 0 = s.part.started := by
      simpa [opening, rootless, Play.calls, Part.call, htoken] using hcall
    exact .inr ⟨100000000, List.mem_singleton.mpr rfl, hplayed.2 ▸ Nat.zero_le _, by decide⟩
  exact ⟨hending, htokens, (hfinished (opening 0 ⟨1⟩) (by simp)).mpr (.inr hcancelled),
    (hfinished (rootless 50000000 ⟨2⟩) (by simp)).mpr (.inl rfl)⟩

end Timeline

end WindowTransitions
