import WindowTransitions.Proofs.Ticks
import WindowTransitions.Proofs.Unattended

/-! The books of a timed run without handlers: which fades the plays so far call for, which of them have ended, each
after how many ticks, and which still run. Main statement: the books stay in order when time passes, when a
transition is played and when parts end, be it by their last tick or by a cancellation. -/

set_option autoImplicit false

namespace WindowTransitions

theorem sublist_flatMap {β γ : Type} (f : β → List γ) {l : List β} {b : β} (h : b ∈ l) :
    (f b).Sublist (l.flatMap f) := List.sublist_flatten_of_mem (List.mem_map_of_mem h)

/-! ## Sorting by time -/

section Sorting
variable {β : Type} (time : β → Nat)

theorem earlier_trans (a b c : β) (hab : decide (time a ≤ time b) = true) (hbc : decide (time b ≤ time c) = true) :
    decide (time a ≤ time c) = true :=
  decide_eq_true (Nat.le_trans (of_decide_eq_true hab) (of_decide_eq_true hbc))

theorem earlier_total (a b : β) : (decide (time a ≤ time b) || decide (time b ≤ time a)) = true := by
  simpa using Nat.le_total (time a) (time b)

theorem sorted_by_time (l : List β) :
    (l.mergeSort fun a b => time a ≤ time b).Pairwise fun a b => time a ≤ time b :=
  (List.pairwise_mergeSort (earlier_trans time) (earlier_total time) l).imp of_decide_eq_true

/-- Sorting leaves what stands in the order of time in this order. -/
theorem sublist_sorted {l l' : List β} (hs : l'.Pairwise fun a b => time a ≤ time b) (h : l'.Sublist l) :
    l'.Sublist (l.mergeSort fun a b => time a ≤ time b) :=
  List.sublist_mergeSort (earlier_trans time) (earlier_total time) (hs.imp decide_eq_true) h

/-- Sorting leaves those of one time in the order in which they stood. -/
theorem sorted_stably {R : β → β → Prop} {l : List β} (h : l.Pairwise R) :
    (l.mergeSort fun a b => time a ≤ time b).Pairwise fun a b => time a ≤ time b ∧ (time b ≤ time a → R a b) := by
  induction l with
  | nil => simp
  | cons a l ih =>
    obtain ⟨hfirst, hrest⟩ := List.pairwise_cons.mp h
    obtain ⟨l₁, l₂, hsorted, hsplit, hless⟩ := List.mergeSort_cons (earlier_trans time) (earlier_total time) a l
    have hall := sorted_by_time time (a :: l)
    have hsort := ih hrest
    have hmem : ∀ c ∈ l₂, c ∈ l := fun c hc =>
      (List.mergeSort_perm l fun a b => decide (time a ≤ time b)).mem_iff.mp (hsplit ▸ List.mem_append_right l₁ hc)
    rw [hsplit, List.pairwise_append] at hsort
    rw [hsorted, List.pairwise_append, List.pairwise_cons] at hall ⊢
    refine ⟨hsort.1, ⟨fun c hc => ⟨hall.2.1.1 c hc, fun _ => hfirst c (hmem c hc)⟩, hsort.2.1⟩, fun b hb c hc => ?_⟩
    rcases List.mem_cons.mp hc with rfl | hc
    · have hlt : time b < time c := by simpa using hless b hb
      exact ⟨Nat.le_of_lt hlt, fun hle => absurd hle (Nat.not_le.mpr hlt)⟩
    · exact hsort.2.2 b hb c hc

end Sorting

/-! ## Plays -/

/-- A transition that is played at some time. -/
structure Play where
  time : Nat
  token : Token
  batch : Batch

namespace Play

def cue (p : Play) : Nat × Cue := (p.time, .play p.token p.batch)

/-- The default fades. Without a root there are none. -/
def fades (p : Play) (config : Config) : List Fade :=
  if p.batch.hasRoot then
    p.batch.fadeTargets.map fun (surface, shown) => .standard surface shown (Config.nanoseconds config.fadeDuration)
  else []

/-- The alphas that the start state writes. Without a root there are none. -/
def startWrites (p : Play) : List AlphaWrite := AlphaWrite.ofTransaction p.time (Shell.startOf p.batch)

/-- The default fades, each with the token and the start. -/
def calls (config : Config) (p : Play) : List (Token × Nat × Fade) :=
  (p.fades config).map fun f => (p.token, p.time, f)

end Play

theorem Shell.fades_jobsOf (config : Config) (p : Play) {ids : List AnimationId}
    (h : ids.length = p.batch.fadeTargets.length) :
    (jobsOf config p.token ids p.batch).map Job.fade = p.fades config := by
  rw [jobsOf, Play.fades]
  split
  · exact Control.fades_fadeJobs config p.token h
  · rfl

theorem Shell.running_of_mem_jobsOf {config : Config} {token : Token} {ids : List AnimationId} {batch : Batch} {j : Job}
    (hj : j ∈ jobsOf config token ids batch) : j.token = token ∧ j.ended = false := by
  rw [jobsOf] at hj
  split at hj
  · exact Control.running_of_mem_fadeJobs config token hj
  · cases hj

/-! ## Strands -/

/-- A fade from its start to its end. -/
structure Strand where
  part : Part
  ticks : Nat
  /-- The last tick found the fade over. -/
  full : Bool
  /-- When the end value is written. -/
  moment : Nat

namespace Fade.Goes

variable {f : Fade} {interval start horizon horizon' n k : Nat} {full : Bool}

theorem tick_lt (h : f.Goes interval start horizon n full) (hk : k < n) : start + k * interval < horizon := by
  cases h with
  | full hlast _ _ =>
    refine Nat.lt_of_le_of_lt (Nat.add_le_add_left (Nat.mul_le_mul_right interval ?_) start) hlast
    exact Nat.le_of_lt_succ hk
  | cut hn _ => exact (hn k).mp hk

/-- The tick that finds the fade over counts. -/
theorem last_lt (h : f.Goes interval start horizon n true) : start + (n - 1) * interval < horizon := by
  cases h with
  | full hlast _ _ => exact hlast

/-- A fade that is found over stays as it is if more ticks count. -/
theorem later (h : f.Goes interval start horizon n true) (hl : horizon ≤ horizon') :
    f.Goes interval start horizon' n true := by
  cases h with
  | full hlast first hfull => exact .full (Nat.lt_of_lt_of_le hlast hl) first hfull

end Fade.Goes

namespace Strand

variable {s : Strand} {interval time : Nat} {cancels : List Nat}

def writes (s : Strand) (interval : Nat) : List AlphaWrite :=
  (List.range s.ticks).map (s.part.tickWrite interval) ++
    [⟨s.moment, s.part.job.fade.surface, s.part.job.fade.target⟩]

/-- The ticks before `time` count. A fade that is found over ends with its last tick, and else at `time`. -/
structure Lasts (s : Strand) (interval time : Nat) : Prop where
  goes : s.part.job.fade.Goes interval s.part.started time s.ticks s.full
  moment : s.moment = if s.full then s.part.tickTime interval (s.ticks - 1) else time

theorem Lasts.moment_le (h : s.Lasts interval time) : s.moment ≤ time := by
  have hgoes := h.goes
  rw [h.moment]
  cases hfull : s.full with
  | false => exact Nat.le_refl time
  | true => exact Nat.le_of_lt (hfull ▸ hgoes).last_lt

theorem Lasts.writes_le (h : s.Lasts interval time) : ∀ w ∈ s.writes interval, w.time ≤ time := by
  intro w hw
  rcases List.mem_append.mp hw with hw | hw
  · obtain ⟨k, hk, rfl⟩ := List.mem_map.mp hw
    exact Nat.le_of_lt (h.goes.tick_lt (List.mem_range.mp hk))
  · rw [List.mem_singleton.mp hw]
    exact h.moment_le

theorem ticks_sorted (p : Part) (interval n : Nat) :
    ((List.range n).map (p.tickWrite interval)).Pairwise fun a b => a.time ≤ b.time := by
  rw [List.pairwise_map]
  refine List.pairwise_lt_range.imp fun {k l} hlt => ?_
  exact Nat.add_le_add_left (Nat.mul_le_mul_right interval (Nat.le_of_lt hlt)) p.started

theorem Lasts.sorted (h : s.Lasts interval time) :
    (s.writes interval).Pairwise fun a b => a.time ≤ b.time := by
  refine List.pairwise_append.mpr ⟨ticks_sorted s.part interval s.ticks, List.pairwise_singleton _ _, ?_⟩
  intro a ha b hb
  obtain ⟨k, hk, rfl⟩ := List.mem_map.mp ha
  rw [List.mem_range] at hk
  rw [List.mem_singleton.mp hb]
  show s.part.tickTime interval k ≤ s.moment
  rw [h.moment]
  cases hfull : s.full with
  | true => exact Nat.add_le_add_left (Nat.mul_le_mul_right interval (Nat.le_sub_one_of_lt hk)) s.part.started
  | false => exact Nat.le_of_lt (h.goes.tick_lt hk)

/-- A fade that is found over lasts as long if there is more time. -/
theorem Lasts.later {time' : Nat} (h : s.Lasts interval time) (hfull : s.full = true) (ht : time ≤ time') :
    s.Lasts interval time' where
  goes := by
    have hgoes := h.goes
    rw [hfull] at hgoes ⊢
    exact hgoes.later ht
  moment := by rw [h.moment, if_pos hfull, if_pos hfull]

/-- The fade is over or cancelled by the time of `stop`. -/
def HasEnded (s : Strand) (cancels : List Nat) (stop : Nat) : Prop :=
  s.full = true ∨ ∃ c ∈ cancels, s.part.started ≤ c ∧ c ≤ stop

/-- The fade ends at `time` at the latest: a tick before finds it over, or `time` is the first cancellation from its
start on. -/
structure Ends (s : Strand) (interval time : Nat) (cancels : List Nat) : Prop where
  lasts : s.Lasts interval time
  free : ∀ c ∈ cancels, s.part.started ≤ c → time ≤ c
  cut : s.full = false → time ∈ cancels ∧ s.part.started ≤ time

theorem Ends.cancelled (h : s.Ends interval time cancels) {c : Nat} (hc : time ≤ c) :
    s.Ends interval time (cancels ++ [c]) where
  lasts := h.lasts
  free d hd hs := by
    rcases List.mem_append.mp hd with hd | hd
    · exact h.free d hd hs
    · rwa [List.mem_singleton.mp hd]
  cut hfull := ⟨List.mem_append_left _ (h.cut hfull).1, (h.cut hfull).2⟩

end Strand

namespace Part

/-- The strand of a part if it ends at `time` and writes its end value at `moment`. -/
def strand (p : Part) (interval time moment : Nat) : Strand :=
  ⟨p, (p.ticksBefore interval time).1.length, (p.ticksBefore interval time).2, moment⟩

/-- The token, the start and the fade of a part. -/
def call (p : Part) : Token × Nat × Fade := (p.job.token, p.started, p.job.fade)

-- Not for simp: where the interval is that of a config, the kernel would unfold the ticks to see it.
theorem strand_full (p : Part) (interval time moment : Nat) :
    (p.strand interval time moment).full = (p.ticksBefore interval time).2 := rfl

variable (p : Part) {interval : Nat} (time moment : Nat)

theorem strand_goes (hi : 0 < interval) :
    p.job.fade.Goes interval p.started time (p.strand interval time moment).ticks
      (p.strand interval time moment).full := by
  obtain ⟨n, full, hticks, hgoes⟩ := p.ticksBefore_goes hi time
  simpa [strand, hticks] using hgoes

theorem ofTicks_eq_strand (hi : 0 < interval) : AlphaWrite.ofTicks p interval time =
    (List.range (p.strand interval time moment).ticks).map (p.tickWrite interval) := by
  obtain ⟨n, full, hticks, _⟩ := p.ticksBefore_goes hi time
  rw [ofTicks_eq hticks, strand, hticks, List.length_map, List.length_range]

/-- A strand is what the ticks of the part write, and behind it what the last frame writes. -/
theorem strand_writes (hi : 0 < interval) : (p.strand interval time moment).writes interval =
    AlphaWrite.ofTicks p interval time ++ AlphaWrite.ofTransaction moment p.job.fade.lastFrame := by
  rw [p.ofTicks_eq_strand time moment hi, AlphaWrite.ofTransaction_lastFrame]
  rfl

end Part

/-- The parts of a transition that is played are just those that it calls for. -/
theorem Shell.calls_jobsOf (config : Config) (p : Play) {ids : List AnimationId}
    (h : ids.length = p.batch.fadeTargets.length) (generation : UInt64) :
    (jobsOf config p.token ids p.batch).map (Part.call ∘ fun j => { job := j, started := p.time, generation }) =
      p.calls config := by
  rw [Play.calls, ← fades_jobsOf config p h, List.map_map]
  refine List.map_congr_left fun j hj => ?_
  have htoken := (running_of_mem_jobsOf hj).1
  simp [Part.call, htoken]

/-! ## Books -/

/-- A part runs: it started after all cancellations so far. -/
structure Part.Runs (p : Part) (now : Nat) (cancels : List Nat) : Prop where
  running : p.job.ended = false
  started : p.started ≤ now
  free : ∀ c ∈ cancels, c < p.started

/-- The plays so far call for the fades of `strands`, which have ended, and of `live`, which run. The start states of
the plays and the strands are all that is written. -/
structure Books (config : Config) (plays : List Play) (cancels : List Nat) (strands : List Strand) (live : List Part)
    (now : Nat) (writes : List AlphaWrite) : Prop where
  calls : ((strands.map Strand.part ++ live).map Part.call).Perm (plays.flatMap (Play.calls config))
  written : writes.Perm
    (plays.flatMap Play.startWrites ++ strands.flatMap fun s => s.writes config.tickInterval)
  ordered : ∀ s ∈ strands, (s.writes config.tickInterval).Sublist writes
  past : ∀ w ∈ writes, w.time ≤ now
  ended : ∀ s ∈ strands, ∃ time ≤ now, s.Ends config.tickInterval time cancels
  runs : ∀ p ∈ live, p.Runs now cancels

namespace Books

variable {config : Config} {plays : List Play} {cancels cancels' : List Nat} {strands new : List Strand}
  {live live' : List Part} {now time : Nat} {writes : List AlphaWrite}

theorem start (config : Config) (now : Nat) : Books config [] [] [] [] now [] :=
  ⟨.nil, .nil, by simp, by simp, by simp, by simp⟩

theorem congr (h : Books config plays cancels strands live now writes) (hp : live.Perm live') :
    Books config plays cancels strands live' now writes :=
  { h with
    calls := (((hp.symm.append_left _).map _).trans h.calls)
    runs := fun p hm => h.runs p (hp.mem_iff.mpr hm) }

/-- Time passes. -/
theorem wait (h : Books config plays cancels strands live now writes) (ht : now ≤ time) :
    Books config plays cancels strands live time writes :=
  { h with
    past := fun w hw => Nat.le_trans (h.past w hw) ht
    ended := fun s hs => by
      obtain ⟨last, hlast, hends⟩ := h.ended s hs
      exact ⟨last, Nat.le_trans hlast ht, hends⟩
    runs := fun p hp => { h.runs p hp with started := Nat.le_trans (h.runs p hp).started ht } }

/-- Some of the parts that run end, perhaps by a cancellation. -/
theorem ends (h : Books config plays cancels strands (new.map Strand.part ++ live) now writes)
    (hold : ∀ s ∈ strands, ∃ time ≤ now, s.Ends config.tickInterval time cancels')
    (hnew : ∀ s ∈ new, ∃ time ≤ now, s.Ends config.tickInterval time cancels')
    (hlive : ∀ p ∈ live, p.Runs now cancels') :
    Books config plays cancels' (strands ++ new) live now
      (writes ++ new.flatMap fun s => s.writes config.tickInterval) where
  calls := by
    have hparts : (strands ++ new).map Strand.part ++ live = strands.map Strand.part ++ (new.map Strand.part ++ live) :=
      by rw [List.map_append, List.append_assoc]
    rw [hparts]
    exact h.calls
  written := by
    rw [List.flatMap_append, ← List.append_assoc]
    exact h.written.append_right _
  ordered := by
    intro s hs
    rcases List.mem_append.mp hs with hs | hs
    · exact (h.ordered s hs).trans (List.sublist_append_left _ _)
    · exact (sublist_flatMap (Strand.writes · config.tickInterval) hs).trans (List.sublist_append_right _ _)
  past := by
    intro w hw
    rcases List.mem_append.mp hw with hw | hw
    · exact h.past w hw
    · obtain ⟨s, hs, hw⟩ := List.mem_flatMap.mp hw
      obtain ⟨last, hlast, hends⟩ := hnew s hs
      exact Nat.le_trans (hends.lasts.writes_le w hw) hlast
  ended := by
    intro s hs
    exact (List.mem_append.mp hs).elim (hold s) (hnew s)
  runs := hlive

/-- A transition is played: its start state is written and its fades run. -/
theorem play (h : Books config plays cancels strands live now writes) {p : Play} {ps : List Part}
    (ht : p.time = now) (hc : ∀ c ∈ cancels, c < now) (hcalls : ps.map Part.call = p.calls config)
    (hps : ∀ q ∈ ps, q.job.ended = false ∧ q.started = now) :
    Books config (plays ++ [p]) cancels strands (live ++ ps) now (writes ++ p.startWrites) where
  calls := by
    rw [← List.append_assoc, List.map_append, hcalls, List.flatMap_append, List.flatMap_singleton]
    exact h.calls.append_right _
  written := by
    rw [List.flatMap_append, List.flatMap_singleton, List.append_assoc]
    refine (h.written.append_right _).trans ?_
    rw [List.append_assoc]
    exact List.perm_append_comm.append_left _
  ordered s hs := (h.ordered s hs).trans (List.sublist_append_left _ _)
  past := by
    intro w hw
    rcases List.mem_append.mp hw with hw | hw
    · exact h.past w hw
    · obtain ⟨e, _, hw⟩ := List.mem_filterMap.mp hw
      obtain ⟨alpha, _, rfl⟩ := Option.map_eq_some_iff.mp hw
      exact Nat.le_of_eq ht
  ended := h.ended
  runs := by
    intro q hq
    rcases List.mem_append.mp hq with hq | hq
    · exact h.runs q hq
    · obtain ⟨hrunning, hstarted⟩ := hps q hq
      exact ⟨hrunning, Nat.le_of_eq hstarted, hstarted ▸ hc⟩

end Books

/-! ## The end of the run -/

/-- The first cancellation from `start` on, or `stop` if there is none until then. -/
def horizon (cancels : List Nat) (stop start : Nat) : Nat := (cancels.filter (start ≤ ·)).foldr min stop

section Horizon
variable {cancels : List Nat} {stop start time : Nat}

theorem le_horizon (hs : time ≤ stop) (hc : ∀ c ∈ cancels, start ≤ c → c ≤ stop → time ≤ c) :
    time ≤ horizon cancels stop start := by
  rw [horizon]
  have hall : ∀ c ∈ cancels.filter (start ≤ ·), time ≤ c := by
    intro c hc'
    obtain ⟨hmem, hstart⟩ := List.mem_filter.mp hc'
    rcases Nat.le_total c stop with hle | hle
    · exact hc c hmem (of_decide_eq_true hstart) hle
    · exact Nat.le_trans hs hle
  generalize cancels.filter (start ≤ ·) = cs at hall
  induction cs with
  | nil => exact hs
  | cons c cs ih =>
    exact Nat.le_min.mpr ⟨hall c List.mem_cons_self, ih fun d hd => hall d (List.mem_cons_of_mem c hd)⟩

theorem horizon_le_stop : horizon cancels stop start ≤ stop := by
  rw [horizon]
  induction cancels.filter (start ≤ ·) with
  | nil => exact Nat.le_refl stop
  | cons c cs ih => exact Nat.le_trans (Nat.min_le_right _ _) ih

theorem horizon_le (hmem : time ∈ cancels) (hs : start ≤ time) : horizon cancels stop start ≤ time := by
  have hmem' : time ∈ cancels.filter (start ≤ ·) := List.mem_filter.mpr ⟨hmem, decide_eq_true hs⟩
  rw [horizon]
  generalize cancels.filter (start ≤ ·) = cs at hmem'
  induction cs with
  | nil => cases hmem'
  | cons c cs ih =>
    rcases List.mem_cons.mp hmem' with rfl | h
    · exact Nat.min_le_left _ _
    · exact Nat.le_trans (Nat.min_le_right _ _) (ih h)

end Horizon

namespace Books

variable {config : Config} {plays : List Play} {cancels cancels' : List Nat} {strands : List Strand} {live : List Part}
  {now : Nat} {writes : List AlphaWrite}

/-- The fades when those that run are dropped. -/
def fades (config : Config) (strands : List Strand) (live : List Part) (now : Nat) : List Strand :=
  strands ++ live.map fun p => p.strand config.tickInterval now now

/-- All fades end at the first cancellation from their start on, or are dropped at the end, at the latest. -/
theorem lasts (h : Books config plays cancels strands live now writes)
    (hrunning : ∀ p ∈ live, (p.ticksBefore config.tickInterval now).2 = false)
    (hc : cancels.Perm (cancels'.filter (· ≤ now))) : ∀ s ∈ fades config strands live now,
      s.Lasts config.tickInterval (horizon cancels' now s.part.started) := by
  have hmem : ∀ c, c ∈ cancels ↔ c ∈ cancels' ∧ c ≤ now := fun c => by simp [hc.mem_iff]
  intro s hs
  rcases List.mem_append.mp hs with hs | hs
  · obtain ⟨time, htime, hends⟩ := h.ended s hs
    have hle : time ≤ horizon cancels' now s.part.started :=
      le_horizon htime fun c hc hstarted hnow => hends.free c ((hmem c).mpr ⟨hc, hnow⟩) hstarted
    cases hfull : s.full with
    | true => exact hends.lasts.later hfull hle
    | false =>
      obtain ⟨hcancel, hstarted⟩ := hends.cut hfull
      have hge : horizon cancels' now s.part.started ≤ time := horizon_le ((hmem time).mp hcancel).1 hstarted
      exact Nat.le_antisymm hle hge ▸ hends.lasts
  · obtain ⟨p, hp, rfl⟩ := List.mem_map.mp hs
    have hruns := h.runs p hp
    have hle : now ≤ horizon cancels' now p.started := le_horizon (Nat.le_refl now) fun c hc hstarted hnow =>
      absurd (hruns.free c ((hmem c).mpr ⟨hc, hnow⟩)) (Nat.not_lt.mpr hstarted)
    have hnow : horizon cancels' now p.started = now := Nat.le_antisymm horizon_le_stop hle
    show (p.strand config.tickInterval now now).Lasts config.tickInterval (horizon cancels' now p.started)
    have hcut : ¬ (p.strand config.tickInterval now now).full = true := by
      rw [p.strand_full, hrunning p hp]
      exact Bool.false_ne_true
    rw [hnow]
    exact ⟨p.strand_goes now now config.tickInterval_pos, (if_neg hcut).symm⟩

/-- No fade of a played transition runs exactly if it has no root or all its fades have ended. -/
theorem none_runs_iff (h : Books config plays cancels strands live now writes)
    (hrunning : ∀ p ∈ live, (p.ticksBefore config.tickInterval now).2 = false)
    (hc : cancels.Perm (cancels'.filter (· ≤ now))) (hn : (plays.map Play.token).Nodup) {p : Play} (hp : p ∈ plays) :
    (∀ q ∈ live, q.job.token ≠ p.token) ↔ p.batch.hasRoot = false ∨
      ∀ s ∈ fades config strands live now, s.part.job.token = p.token → s.HasEnded cancels' now := by
  have hmem : ∀ c, c ∈ cancels ↔ c ∈ cancels' ∧ c ≤ now := fun c => by simp [hc.mem_iff]
  constructor
  · intro hnone
    refine .inr fun s hs htoken => ?_
    rcases List.mem_append.mp hs with hs | hs
    · obtain ⟨time, htime, hends⟩ := h.ended s hs
      cases hfull : s.full with
      | true => exact .inl hfull
      | false =>
        obtain ⟨hcancel, hstarted⟩ := hends.cut hfull
        exact .inr ⟨time, ((hmem time).mp hcancel).1, hstarted, htime⟩
    · obtain ⟨q, hq, rfl⟩ := List.mem_map.mp hs
      exact absurd htoken (hnone q hq)
  · rintro (hroot | hended) q hq htoken
    · have hcall : q.call ∈ plays.flatMap (Play.calls config) :=
        h.calls.mem_iff.mp (List.mem_map_of_mem (List.mem_append_right _ hq))
      obtain ⟨p', hp', hcall⟩ := List.mem_flatMap.mp hcall
      obtain ⟨f, hf, hfade⟩ := List.mem_map.mp hcall
      have hsame : p'.token = p.token := (congrArg Prod.fst hfade).trans htoken
      obtain rfl := List.inj_on_of_nodup_map hn hp' hp hsame
      simp [Play.fades, hroot] at hf
    · have hlast : q.strand config.tickInterval now now ∈ fades config strands live now :=
        List.mem_append_right _ (List.mem_map_of_mem hq)
      rcases hended _ hlast htoken with hfull | ⟨c, hcancel, hstarted, hnow⟩
      · rw [Part.strand_full, hrunning q hq] at hfull
        cases hfull
      · exact absurd ((h.runs q hq).free c ((hmem c).mpr ⟨hcancel, hnow⟩)) (Nat.not_lt.mpr hstarted)

/-- The alphas when the parts that run are dropped: each has written its end value too. -/
def dropped (live : List Part) (interval now : Nat) (writes : List AlphaWrite) : List AlphaWrite :=
  (writes ++ live.flatMap fun p => AlphaWrite.ofTicks p interval now).mergeSort (fun a b => a.time ≤ b.time) ++
    live.flatMap fun p => AlphaWrite.ofTransaction now p.job.fade.lastFrame

theorem dropped_perm (h : Books config plays cancels strands live now writes) :
    (dropped live config.tickInterval now writes).Perm (plays.flatMap Play.startWrites ++
      (fades config strands live now).flatMap fun s => s.writes config.tickInterval) := by
  have hlast : (live.map fun p => p.strand config.tickInterval now now).flatMap
      (fun s => s.writes config.tickInterval) = live.flatMap fun p => AlphaWrite.ofTicks p config.tickInterval now ++
        AlphaWrite.ofTransaction now p.job.fade.lastFrame := by
    rw [List.flatMap_map]
    exact congrArg (live.flatMap ·) (funext fun p => p.strand_writes now now config.tickInterval_pos)
  rw [fades, List.flatMap_append, hlast, ← List.append_assoc, dropped]
  refine ((List.mergeSort_perm _ _).append_right _).trans ?_
  rw [List.append_assoc]
  exact h.written.append (List.flatMap_append_perm live _ _)

theorem dropped_sorted (h : Books config plays cancels strands live now writes) :
    (dropped live config.tickInterval now writes).Pairwise fun a b => a.time ≤ b.time := by
  have hends : ∀ w ∈ live.flatMap (fun p => AlphaWrite.ofTransaction now p.job.fade.lastFrame), w.time = now := by
    intro w hw
    obtain ⟨p, _, hw⟩ := List.mem_flatMap.mp hw
    rw [AlphaWrite.ofTransaction_lastFrame] at hw
    rw [List.mem_singleton.mp hw]
  refine List.pairwise_append.mpr ⟨sorted_by_time AlphaWrite.time _, ?_, fun a ha b hb => ?_⟩
  · exact List.pairwise_of_forall_mem_list fun a ha b hb => Nat.le_of_eq ((hends a ha).trans (hends b hb).symm)
  · rw [hends b hb]
    rcases List.mem_append.mp ((List.mergeSort_perm _ _).mem_iff.mp ha) with ha | ha
    · exact h.past a ha
    · obtain ⟨p, _, ha⟩ := List.mem_flatMap.mp ha
      rw [p.ofTicks_eq_strand now now config.tickInterval_pos] at ha
      obtain ⟨k, hk, rfl⟩ := List.mem_map.mp ha
      exact Nat.le_of_lt ((p.strand_goes now now config.tickInterval_pos).tick_lt (List.mem_range.mp hk))

theorem dropped_ordered (h : Books config plays cancels strands live now writes) :
    ∀ s ∈ fades config strands live now,
      (s.writes config.tickInterval).Sublist (dropped live config.tickInterval now writes) := by
  intro s hs
  rcases List.mem_append.mp hs with hs | hs
  · obtain ⟨_, _, hends⟩ := h.ended s hs
    have hkept := (h.ordered s hs).trans (List.sublist_append_left writes
      (live.flatMap fun p => AlphaWrite.ofTicks p config.tickInterval now))
    exact (sublist_sorted AlphaWrite.time hends.lasts.sorted hkept).trans (List.sublist_append_left _ _)
  · obtain ⟨p, hp, rfl⟩ := List.mem_map.mp hs
    have hticks := p.ofTicks_eq_strand now now config.tickInterval_pos
    have hkept : (AlphaWrite.ofTicks p config.tickInterval now).Sublist
        (writes ++ live.flatMap fun p => AlphaWrite.ofTicks p config.tickInterval now) :=
      (sublist_flatMap (AlphaWrite.ofTicks · config.tickInterval now) hp).trans (List.sublist_append_right _ _)
    have hsorted : (AlphaWrite.ofTicks p config.tickInterval now).Pairwise fun a b => a.time ≤ b.time :=
      hticks ▸ Strand.ticks_sorted p config.tickInterval _
    rw [p.strand_writes now now config.tickInterval_pos]
    exact (sublist_sorted AlphaWrite.time hsorted hkept).append
      (sublist_flatMap (fun p : Part => AlphaWrite.ofTransaction now p.job.fade.lastFrame) hp)

end Books

end WindowTransitions
