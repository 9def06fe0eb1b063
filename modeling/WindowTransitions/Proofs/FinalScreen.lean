import WindowTransitions.Proofs.Courses

/-! What is shown when a transition finishes that nobody accepted. Main statement: if only its own start transaction
and its own fades draw on the surfaces of its batch, then by the time the authority is told of the finish all that is
shown by the batch is visible and of full alpha, and what a batch that opens nothing hides at its top level is of
alpha zero; behind that nobody draws on these surfaces. Frames, the ways in which the fades end and their order do
not matter, nor does what the batch's own transaction said about the surfaces. -/

set_option autoImplicit false

namespace WindowTransitions

/-- The batch is shown as it is meant to be in the end. -/
structure Batch.Settles (b : Batch) (screen : Transaction) : Prop where
  shown : ∀ p ∈ b.participants, p.mode.isShowing = true →
    screen.visibilityOf p.surface = some true ∧ screen.alphaOf p.surface = some 1.0
  hidden : b.kind.isOpening = false → ∀ p ∈ b.participants, p.isTopLevel = true → p.mode.isHiding = true →
    screen.alphaOf p.surface = some 0.0

namespace Shell

variable {η α ε : Type} [Handler η]

/-- The transition waits for its batch, which all handlers decline without touching its start transaction. -/
structure Declined (w : Shell η α ε) (token : Token) (r : Record) (batch : Batch) (start : Transaction) : Prop where
  waits : w.table.get? token = some r
  pending : r.phase = .pending
  nobody : (w.offers token r batch start).owner = none
  untouched : (w.offers token r batch start).start = start ++ batch.startState

/-- The jobs of the default animation of a transition if its batch comes now. -/
def defaultFades (w : Shell η α ε) (token : Token) (batch : Batch) : List Job :=
  Control.fadeJobs w.config token (w.nextAnimation.upFrom batch.fadeTargets.length) batch.fadeTargets

/-- The surfaces of a batch and its fades if it comes now. -/
def sceneOf (w : Shell η α ε) (token : Token) {batch : Batch} (hd : batch.IsDistinct) : Scene :=
  batch.scene hd w.config token w.nextAnimation

/-! ## Launched transitions -/

variable {w : Shell η α ε} {token : Token} {batch : Batch} {start : Transaction} {before : List Entry}

theorem Declined.take {r : Record} (h : w.Declined token r batch start) (m : Message) (rest : List Message) :
    (w.take m rest).Declined token r batch start := ⟨h.waits, h.pending, h.nobody, h.untouched⟩

variable [Executor ε]

theorem Declined.readyStrokes {r : Record} (h : w.Declined token r batch start) (hroot : batch.hasRoot = true) :
    w.readyStrokes token batch start =
      (w.offered token r batch start).fadeStrokes token r batch (start ++ batch.startState) := by
  rw [readyStrokes_rooted h.waits h.pending hroot, h.nobody, h.untouched]

/-- A ready transition that nobody has accepted: it fades, if it has something to fade. -/
def launched (w : Shell η α ε) (token : Token) (r : Record) (batch : Batch) (start : Transaction) : Shell η α ε :=
  (w.offered token r batch start).faded token r batch (w.offers token r batch start).start

theorem launched_shown {r : Record} (hd : batch.IsDistinct) (hdeclined : w.Declined token r batch start)
    (hs : ∀ σ ∈ ((w.offered token r batch start).fadeStrokes token r batch (start ++ batch.startState)).tail,
      σ.Respects (w.sceneOf token hd).surfaces (w.sceneOf token hd).fades) :
    (w.sceneOf token hd).ShownOn (screen w.stage.journal ++ start ++ batch.startState) (w.sceneOf token hd).fades
      (w.launched token r batch start).stage := by
  have hfades : (w.offered token r batch start).defaultFades token batch = (w.sceneOf token hd).fades := by
    rw [defaultFades, offered_config, offered_animation]
    rfl
  have hscreen : screen (w.offered token r batch start).stage.journal = screen w.stage.journal := by
    have hdraws : w.stage.Draws (fun _ => True) (w.offered token r batch start).stage [] :=
      w.draws_offered token r batch start
    exact hdraws.screen_eq.trans (List.append_nil _)
  have hshown := Scene.shownOn_faded (w.offered token r batch start) token r batch (start ++ batch.startState) hfades hs
  rw [hscreen, ← List.append_assoc] at hshown
  rwa [launched, hdeclined.untouched]

section Journal
variable [Authority α] {kind : Kind} {assigned : Option HandlerId} {generation : UInt64}

theorem launched_fades (hr : w.table.get? token = some { kind, assigned, generation }) :
    (w.launched token { kind, assigned, generation } batch start).table.Fades token := by
  let fades := w.nextAnimation.upFrom batch.fadeTargets.length
  refine ⟨{ kind, phase := .animating, assigned, fades := some fades, generation }, fades, ?_, rfl⟩
  rw [launched, (w.leadsTo_fading token kind assigned generation batch start).table, Table.get?_put_self hr]

variable (w token batch start kind assigned generation)

theorem launched_journal : ∃ more, (w.launched token { kind, assigned, generation } batch start).stage.journal =
    w.stage.journal ++ more ∧ .finishCalled token ∉ more := by
  obtain ⟨_, more, hmore, _, hcalls⟩ := (w.leadsTo_fading token kind assigned generation batch start).stage
  have hoffers : .finishCalled token ∉
      (w.offers token { kind, assigned, generation } batch start).visits.map Visit.call :=
    offers_finish_nothing (Registry.dispatch_sound token generation batch assigned w.handlers _)
  refine ⟨more, hmore, fun hin => ?_⟩
  have hcall : .finishCalled token ∈ more.filter Entry.isCall := List.mem_filter.mpr ⟨hin, rfl⟩
  rw [hcalls] at hcall
  simp [hoffers] at hcall

theorem launched_issued (hd : batch.IsDistinct) (hc : w.Counted) :
    (w.launched token { kind, assigned, generation } batch start).Issued (w.sceneOf token hd) := by
  intro j hj
  have hhired : w.Hires (w.launched token { kind, assigned, generation } batch start) j := by
    refine hires_faded token kind assigned generation batch start ?_
    rw [offered_config, offered_animation]
    exact hj
  obtain ⟨count, hcount, hid⟩ := hhired
  rw [hc.animation, AnimationId.mem_upFrom_nth] at hid
  obtain ⟨k, _, hk, hnth⟩ := hid
  exact ⟨k, hcount ▸ hk, hnth⟩

end Journal

/-! ## From the batch on -/

variable [Authority α]

/-- The course of a transition begins when nobody accepts it. -/
theorem played_ready {r : Record} {gap : List Entry} (hrest : w.table.AtRest ∧ w.Resting)
    (hj : w.stage.journal = before ++ gap) (hgap : .finishCalled token ∉ gap)
    (hdeclined : w.Declined token r batch start) (hroot : batch.hasRoot = true) (hd : batch.IsDistinct)
    (hs : ∀ σ ∈ (w.readyStrokes token batch start).tail,
      σ.Respects (w.sceneOf token hd).surfaces (w.sceneOf token hd).fades) :
    ((Control.ready token batch start).perform w).2.Played (w.sceneOf token hd)
      (screen w.stage.journal ++ start ++ batch.startState) token before := by
  have hrest' := kept_resting.ready w token batch start hrest
  have hr := hdeclined.waits
  rw [hdeclined.readyStrokes hroot] at hs
  have hshown := launched_shown hd hdeclined hs
  obtain ⟨kind, assigned, generation, rfl⟩ := hrest.1.pending hr hdeclined.pending
  obtain ⟨more, hmore, hnot⟩ := w.launched_journal token batch start kind assigned generation
  have hmid : .finishCalled token ∉ gap ++ more := fun hin => (List.mem_append.mp hin).elim hgap hnot
  have hout := Control.ready_outcome hrest.1 token batch start
  generalize hrun : (Control.ready token batch start).run w = result at hout
  cases hout with
  | unknown h => cases hr.symm.trans h
  | duplicate h hne =>
    obtain rfl := Option.some.inj (hr.symm.trans h)
    exact absurd rfl hne
  | rootless h hp hb => cases hroot.symm.trans hb
  | owned h hp hb ho =>
    obtain rfl := Option.some.inj (hr.symm.trans h)
    cases hdeclined.nobody.symm.trans ho
  | faded h hp hb ho hn =>
    obtain rfl := Option.some.inj (hr.symm.trans h)
    rw [Control.perform_of_ok hrun] at hrest' ⊢
    have hissued := w.launched_issued token batch start kind assigned generation hd hrest.2.counted
    refine ⟨hrest', hissued, .running (gap ++ more) (launched_fades hr) ?_ hmid hshown⟩
    rw [← List.append_assoc, ← hj]
    exact hmore
  | unfaded h hp hb ho hn =>
    obtain rfl := Option.some.inj (hr.symm.trans h)
    rw [Control.perform_of_ok hrun] at hrest' ⊢
    have hnobody : (w.sceneOf token hd).fades = [] := by
      show Control.fadeJobs _ _ _ batch.fadeTargets = []
      rw [hn]
      rfl
    let reports : List Entry := [.event (.phaseChanged token .animating .finished), .event (.finished token)]
    have hjournal : w.stage.journal ++ more ++ reports = before ++ (gap ++ more ++ reports) := by
      rw [hj, List.append_assoc, List.append_assoc, List.append_assoc]
    refine ⟨hrest', by simp [Issued, hnobody], .done (gap ++ more ++ reports) [] ?_ ?_ ?_ fun _ => ?_⟩
    · rw [← hjournal, ← hmore]
      simp [left, Stage.note, launched, reports]
    · simpa [reports] using hmid
    · rw [← hjournal, ← hmore, screen_append]
      have hended := hshown.ended fun j hin => by simp [hnobody] at hin
      exact (List.append_nil (screen _)).symm ▸ hended
    · simp [screen, hnobody]

/-- The move makes the transition ready: by a call, or by a message that is handed in or taken from the queue. -/
inductive Readies (w : Shell η α ε) (token : Token) (batch : Batch) (start : Transaction) : Move η → Prop where
  | called : Readies w token batch start (.ready token batch start)
  | handed : Readies w token batch start (.process (.ready token batch start))
  | taken (hq : w.stage.queue.head? = some (.ready token batch start)) : Readies w token batch start (.drain 1)

/-- Its first stroke is the start transaction. -/
theorem Readies.strokes {m : Move η} {r : Record} (hdeclined : w.Declined token r batch start)
    (hroot : batch.hasRoot = true) (h : w.Readies token batch start m) :
    ∃ more, w.moveStrokes m = ⟨none, start ++ batch.startState⟩ :: more := by
  cases h with
  | called => exact ⟨_, hdeclined.readyStrokes hroot⟩
  | handed => exact ⟨_, hdeclined.readyStrokes hroot⟩
  | taken hq =>
    obtain ⟨rest, hq⟩ := List.head?_eq_some_iff.mp hq
    have hstrokes := (hdeclined.take (.ready token batch start) rest).readyStrokes hroot
    simp only [moveStrokes, drainStrokes, hq, processStrokes, hstrokes]
    exact ⟨_, List.cons_append⟩

theorem Readies.played (honest : Handler.LeavesFades η) {m : Move η} {r : Record} (hrest : w.table.AtRest ∧ w.Resting)
    (hbalanced : w.Balanced) (hdeclined : w.Declined token r batch start) (hroot : batch.hasRoot = true)
    (hd : batch.IsDistinct)
    (hs : ∀ σ ∈ (w.moveStrokes m).tail, σ.Respects (w.sceneOf token hd).surfaces (w.sceneOf token hd).fades)
    (h : w.Readies token batch start m) :
    (w.move m).2.Balanced ∧ (w.move m).2.Played (w.sceneOf token hd)
      (screen w.stage.journal ++ start ++ batch.startState) token w.stage.journal := by
  cases h with
  | called =>
    exact ⟨hbalanced.ready honest hrest.1 token batch start,
      played_ready hrest (List.append_nil _).symm (by simp) hdeclined hroot hd hs⟩
  | handed =>
    simp only [move, Control.perform_process]
    exact ⟨hbalanced.ready honest hrest.1 token batch start,
      played_ready hrest (List.append_nil _).symm (by simp) hdeclined hroot hd hs⟩
  | taken hq =>
    obtain ⟨rest, hq⟩ := List.head?_eq_some_iff.mp hq
    have htake : w.stage.Draws (fun _ => True) (w.take (.ready token batch start) rest).stage [] := w.draws_take _ rest
    have hscreen : screen (w.take (.ready token batch start) rest).stage.journal = screen w.stage.journal :=
      htake.screen_eq.trans (List.append_nil _)
    have hrest' := kept_resting.take w _ rest hq hrest
    rw [w.drain_one_cons _ rest hq, receive, Control.perform_process]
    refine ⟨(hbalanced.take hq rfl).ready honest hrest'.1 token batch start, ?_⟩
    rw [← hscreen]
    refine played_ready hrest' rfl (by simp) (hdeclined.take _ rest) hroot hd fun σ hσ => hs σ ?_
    simp only [moveStrokes, drainStrokes, hq, processStrokes]
    split <;> simpa using hσ

/-! ## Runs -/

theorem Readies.played_run (honest : Handler.LeavesFades η) {m : Move η} {after : List (Move η)} {r : Record}
    (hrest : w.table.AtRest ∧ w.Resting) (hbalanced : w.Balanced) (hdeclined : w.Declined token r batch start)
    (hroot : batch.hasRoot = true) (hd : batch.IsDistinct) (hlater : ∀ n ∈ after, n.IsSingle ∧ n.LeavesFades)
    (hs : ∀ σ ∈ (w.runStrokes (m :: after)).tail,
      σ.Respects (w.sceneOf token hd).surfaces (w.sceneOf token hd).fades)
    (h : w.Readies token batch start m) :
    (w.run (m :: after)).Played (w.sceneOf token hd) (screen w.stage.journal ++ start ++ batch.startState) token
      w.stage.journal := by
  obtain ⟨more, hstrokes⟩ := h.strokes hdeclined hroot
  rw [runStrokes, hstrokes, List.cons_append, List.tail_cons] at hs
  have hfirst : ∀ σ ∈ (w.moveStrokes m).tail, σ.Respects (w.sceneOf token hd).surfaces (w.sceneOf token hd).fades := by
    rw [hstrokes]
    exact fun σ hσ => hs σ (List.mem_append_left _ hσ)
  have htoken : ∀ j ∈ (w.sceneOf token hd).fades, j.token = token := fun j hj =>
    (Control.running_of_mem_fadeJobs _ _ hj).1
  obtain ⟨hnext, hbegins⟩ := h.played honest hrest hbalanced hdeclined hroot hd hfirst
  exact hbegins.run honest htoken after (fun n hn => (hlater n hn).1) (fun n hn => (hlater n hn).2)
    (fun σ hσ => hs σ (List.mem_append_right _ hσ)) hnext

/-- Take any run in which only jobs report ends of default animations, messages being taken from the queue one at a
time, and in it a move that brings a batch with a root, distinct surfaces and no taker for a transition that waits.
Suppose that from then on nothing is drawn on the surfaces of the batch but its start transaction, the first stroke
of the move, and the frames of its own fades; `run_strokes` says that strokes are all that is applied. When the
authority is told that the transition finishes, the batch is shown as it is meant to be; and while there are fewer
than `2 ^ 64` fades, nothing is drawn on its surfaces later. -/
theorem run_final_screen (honest : Handler.LeavesFades η) (config : Config) (authority : α) (executor : ε)
    (moves : List (Move η)) (hf : ∀ m ∈ moves, m.LeavesFades) :
    let w := (fresh config authority executor : Shell η α ε).run moves
    ∀ before m after token r batch start,
      (fresh config authority executor : Shell η α ε).singly moves = before ++ m :: after →
      let u := (fresh config authority executor : Shell η α ε).run before
      u.Readies token batch start m → u.Declined token r batch start → batch.hasRoot = true → batch.IsDistinct →
      (∀ σ ∈ (u.runStrokes (m :: after)).tail,
        σ.Respects (batch.participants.map (·.surface)) (u.defaultFades token batch)) →
      ∀ mid post, w.stage.journal = u.stage.journal ++ mid ++ .finishCalled token :: post →
        .finishCalled token ∉ mid →
        batch.Settles (screen (u.stage.journal ++ mid)) ∧
          (w.stage.allotments < 2 ^ 64 → ∀ e ∈ screen post, e.surface ∉ batch.participants.map (·.surface)) := by
  intro w before m after token r batch start hmoves u hready hdeclined hroot hd hs mid post hj hm
  have hallowed : ∀ n ∈ before ++ m :: after, n.IsSingle ∧ n.LeavesFades := by
    intro n hn
    obtain ⟨hone, hin⟩ := mem_singly (hmoves ▸ hn)
    refine ⟨hone, ?_⟩
    rcases hin with hin | rfl
    · exact hf n hin
    · trivial
  have hlater : ∀ n ∈ after, n.IsSingle ∧ n.LeavesFades := fun n hn =>
    hallowed n (List.mem_append_right before (List.mem_cons_of_mem m hn))
  have hw : w = u.run (m :: after) := by
    rw [← run_append, ← hmoves]
    exact (run_singly _ moves).symm
  have hfresh := resting_fresh (η := η) config authority executor
  have hrest : u.table.AtRest ∧ u.Resting := kept_resting.run before _ hfresh
  have hbalanced : u.Balanced :=
    Balanced.run honest before (fun n hn => (hallowed n (List.mem_append_left _ hn)).2) _ hfresh
      ⟨rfl, fun _ _ => rfl⟩
  have hplayed : w.Played (u.sceneOf token hd) (screen u.stage.journal ++ start ++ batch.startState) token
      u.stage.journal := by
    rw [hw]
    exact hready.played_run honest hrest hbalanced hdeclined hroot hd hlater hs
  obtain ⟨hshows, hquiet⟩ := hplayed.course.finished hj hm
  exact ⟨⟨fun p hp hp' => Batch.scene_showing hd hp hp' hshows,
    fun hk p hp ht hp' => Batch.scene_hiding hd hp hk ht hp' hshows⟩, hquiet⟩

/-- Two surfaces are hidden, and two shown, one of them inside the other; the batch's transaction says the contrary. -/
def swap : Batch where
  kind := .closing
  root := some ⟨1⟩
  participants :=
    [{ surface := ⟨2⟩, mode := .toFront }, { surface := ⟨3⟩, mode := .closing },
      { surface := ⟨4⟩, mode := .toBack }, { surface := ⟨5⟩, mode := .opening, parent := some ⟨2⟩ }]

/-- The batch comes through the queue and is declined. One of its fades is cancelled and the other dropped, while
another transition fades on. -/
def twoFades : List (Move Rehearsal.Actor) :=
  [.addHandler { name := "shy", manner := .steady false }, .start .closing [] none, .start .opening [] none,
    .post (.ready ⟨1⟩ swap [⟨⟨2⟩, .visible false⟩, ⟨⟨3⟩, .alpha 1.0⟩]), .drain 5,
    .ready ⟨2⟩ { kind := .opening, root := some ⟨1⟩, participants := [{ surface := ⟨9⟩, mode := .opening }] } [],
    .act (.frame 0 0.5), .act (.conclude 1 .cancel), .act (.frame 1 0.25), .act (.conclude 0 .drop), .drain 5,
    .act (.conclude 0 .finish), .drain 5]

theorem run_final_screen_swapped :
    let w := (fresh {} (⟨0, false⟩ : Rehearsal.Issuer) Rehearsal.Pace.keeps).run twoFades
    let told := w.stage.journal.takeWhile (· ≠ .finishCalled ⟨1⟩)
    .finishCalled ⟨1⟩ ∈ w.stage.journal ∧ (screen told).visibilityOf ⟨2⟩ = some true ∧
      (screen told).alphaOf ⟨5⟩ = some 1.0 ∧ (screen told).alphaOf ⟨3⟩ = some 0.0 ∧
      (screen told).alphaOf ⟨4⟩ = some 0.0 ∧
      ∀ e ∈ screen (w.stage.journal.drop (told.length + 1)), e.surface ∉ [⟨2⟩, ⟨3⟩, ⟨4⟩, ⟨5⟩] := by
  intro w told
  let u := (fresh {} (⟨0, false⟩ : Rehearsal.Issuer) Rehearsal.Pace.keeps).run (twoFades.take 4)
  have htold : u.stage.journal ++ told.drop u.stage.journal.length = told := by decide +kernel
  have hjournal : w.stage.journal = u.stage.journal ++ told.drop u.stage.journal.length ++
      .finishCalled ⟨1⟩ :: w.stage.journal.drop (told.length + 1) := by decide +kernel
  obtain ⟨hsettles, hlater⟩ := run_final_screen actor_leavesFades {} (⟨0, false⟩ : Rehearsal.Issuer)
    Rehearsal.Pace.keeps twoFades (by simp [twoFades, Move.LeavesFades, Message.fadeDone?]) (twoFades.take 4)
    (.drain 1) ((twoFades.drop 5).take 5 ++ [.drain 1, .drain 1, .act (.conclude 0 .finish), .drain 1]) ⟨1⟩
    { kind := .closing, assigned := none, generation := 1 } swap [⟨⟨2⟩, .visible false⟩, ⟨⟨3⟩, .alpha 1.0⟩] rfl
    (.taken (by decide +kernel)) ⟨by decide +kernel, rfl, by decide +kernel, by decide +kernel⟩ rfl
    (by unfold Batch.IsDistinct; decide) (by decide +kernel) _ _ hjournal (by decide +kernel)
  rw [htold] at hsettles
  obtain ⟨hvisible, _⟩ := hsettles.shown { surface := ⟨2⟩, mode := .toFront } (by decide) rfl
  obtain ⟨_, halpha⟩ := hsettles.shown { surface := ⟨5⟩, mode := .opening, parent := some ⟨2⟩ } (by decide) rfl
  have hclosed := hsettles.hidden rfl { surface := ⟨3⟩, mode := .closing } (by decide) rfl rfl
  have hback := hsettles.hidden rfl { surface := ⟨4⟩, mode := .toBack } (by decide) rfl rfl
  exact ⟨by decide +kernel, hvisible, halpha, hclosed, hback, hlater (by decide +kernel)⟩

end Shell

end WindowTransitions
