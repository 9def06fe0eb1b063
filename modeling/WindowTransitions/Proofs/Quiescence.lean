import WindowTransitions.Proofs.Completions
import WindowTransitions.Proofs.Deliveries
import WindowTransitions.Proofs.Lives
import WindowTransitions.Proofs.Tickets

/-! Shells to which nothing more can come by itself: no message waits, no job runs, and whoever accepted a transition
has reported it as done. Main statement: no transition is stranded in such a shell. Those that are active have not
had their batch yet, and the authority has been told of the finish of every other one. -/

set_option autoImplicit false

namespace WindowTransitions

/-! ## Tickets of accepted offers -/

/-- Once the queue is empty, the ticket of an accepted offer that was presented has been taken since the offer. -/
theorem Accepted.received {s : Stage} {k : Ticket} {after : List Entry} (ha : Accepted s.log k after)
    (hd : s.Delivers) (he : s.Earned) (hn : (tickets s.log).Nodup) (hq : s.queue = [])
    (hp : .posted (.handlerDone k) ∈ s.journal) : .received (.handlerDone k) ∈ after := by
  have hreceipts : s.posts = s.receipts := by rw [hd.queue, hq, List.append_nil]
  have hreceived : .received (.handlerDone k) ∈ s.log := by
    have hpost : .handlerDone k ∈ s.posts := List.mem_filterMap.mpr ⟨_, hp, rfl⟩
    obtain ⟨e, hej, hre⟩ := List.mem_filterMap.mp (hreceipts ▸ hpost)
    exact List.mem_filter.mpr ⟨Entry.received?_eq_some hre ▸ hej, rfl⟩
  obtain ⟨before, batch, start, fades, hlog⟩ := ha
  rw [hlog] at hreceived
  rcases List.mem_append.mp hreceived with hbefore | hrest
  · -- taken before the offer, it would have come with an offer before, but no two offers have the same ticket
    obtain ⟨early, late, rfl⟩ := List.append_of_mem hbefore
    have hearly := hd.offered_before he (by rw [hlog, List.append_assoc]; rfl)
    rw [hlog, List.append_assoc, tickets_append] at hn
    have hlate : k ∈ tickets ((.received (.handlerDone k) :: late) ++
        .offered k batch start :: .event (.dispatched k.token (some k.handler) fades) :: after) :=
      List.mem_filterMap.mpr ⟨.offered k batch start, by simp, rfl⟩
    exact absurd rfl ((List.nodup_append.mp hn).2.2 k hearly k hlate)
  · rcases List.mem_cons.mp hrest with heq | hrest
    · cases heq
    · rcases List.mem_cons.mp hrest with heq | hrest
      · cases heq
      · exact hrest

/-! ## Records of which nothing is due -/

namespace Shell

variable {η α ε : Type} {w : Shell η α ε}

theorem Balanced.fadesOf_eq_nil (hw : w.Balanced) (hq : w.stage.queue = []) (hj : ∀ j ∈ w.stage.jobs, j.ended = true)
    (token : Token) : w.table.fadesOf token = [] := by
  have hjobs : w.stage.jobs.flatMap Job.dues = [] := by
    rw [List.flatMap_eq_nil_iff]
    intro j hmem
    rw [Job.dues, if_pos (hj j hmem)]
  rw [List.eq_nil_iff_forall_not_mem]
  intro a ha
  have hpos := List.count_pos_iff.mpr ha
  rw [hw.count, Stage.dues, hjobs, hq] at hpos
  cases hpos

end Shell

theorem Record.AtRest.pending_of_idle {r : Record} (h : r.AtRest) (ho : r.owner = none) (hf : r.fades.getD [] = []) :
    r.phase = .pending := by
  cases h with
  | pending => rfl
  | owned => cases ho
  | fading _ _ fades _ hne => exact absurd hf hne

theorem Underway.of_pending {token : Token} {r? : Option Record} {rest : List Event} (h : Underway token r? rest)
    (hp : ∀ r, r? = some r → r.phase = .pending) :
    rest = [] ∨ ∃ kind assigned, rest = [.started token kind assigned] := by
  cases h with
  | absent => exact .inl rfl
  | @waiting r _ => exact .inr ⟨r.kind, r.assigned, rfl⟩
  | animating ha => cases (hp _ rfl).symm.trans ha

/-! ## Runs -/

namespace Shell

variable {η α ε : Type} [Handler η] [Authority α] [Executor ε]

/-- After every run of fewer than `2 ^ 64` starts in which only jobs report ends of default animations and tickets
are presented through the queue only, after the offer that they came with: if the queue is empty, no job runs and the
ticket of every accepted offer has been presented, then all active transitions wait for their batch. What is reported
under a token is then a sequence of whole lives, and behind them at most one start; so the authority has been told of
as many finishes as there were transitions that were made ready. -/
theorem run_quiescence (honest : Handler.LeavesFades η) (config : Config) (authority : α) (executor : ε)
    (moves : List (Move η)) (hf : ∀ m ∈ moves, m.LeavesFades) (ht : ∀ m ∈ moves, ∀ k, m ≠ .process (.handlerDone k)) :
    let w := (fresh config authority executor : Shell η α ε).run moves
    w.stage.starts < 2 ^ 64 → w.stage.Earned → w.stage.queue = [] → (∀ j ∈ w.stage.jobs, j.ended = true) →
      (∀ k after, Accepted w.stage.log k after → .posted (.handlerDone k) ∈ w.stage.journal) →
      (∀ e ∈ w.table, e.2.phase = .pending) ∧
        ∀ token, ∃ (lives : List (List Event)) (rest : List Event),
          w.stage.eventsOf token = lives.flatten ++ rest ∧ (∀ life ∈ lives, Life token life) ∧
            (rest = [] ∨ ∃ kind assigned, rest = [.started token kind assigned]) ∧
            w.stage.finishCalls.count token =
              (w.stage.eventsOf token).count (.phaseChanged token .pending .dispatching) := by
  intro w hs hearned hq hj hpresented
  have start := resting_fresh (η := η) config authority executor
  have hrest : w.table.AtRest ∧ w.Resting := kept_resting.run moves _ start
  have hdelivers : w.stage.Delivers :=
    (kept_delivers.run moves (fresh config authority executor) ⟨start.1, ⟨rfl, by simp [fresh]⟩⟩).2
  have hbalanced : w.Balanced := Balanced.run honest moves hf _ start ⟨rfl, fun _ _ => rfl⟩
  have hledger : Ledger w.stage.log w.table w.stage.starts :=
    Ticketed.run moves ht _ start (ticketed_fresh config authority executor) hs
  have hchronicled : w.Chronicled := ((kept_chronicled authority).run moves _
    ⟨start.1, chronicled_fresh config authority executor, rfl⟩).2.1
  have hpending : ∀ e ∈ w.table, e.2.phase = .pending := by
    intro e he
    have hget := Table.get?_of_mem_pair hrest.1.distinct he
    refine (hrest.1.records e he).pending_of_idle ?_ ?_
    · cases howner : e.2.owner with
      | none => rfl
      | some owner =>
        have hcounts : w.table.Honours ⟨e.1, owner, e.2.generation⟩ := ⟨e.2, hget, howner, rfl⟩
        obtain ⟨after, ha, hnot⟩ := hledger.honours_iff.mp hcounts
        exact absurd (ha.received hdelivers hearned hledger.distinct hq (hpresented _ after ha)) hnot
    · rw [← Table.fadesOf_of_get? hget]
      exact hbalanced.fadesOf_eq_nil hq hj e.1
  refine ⟨hpending, fun token => ?_⟩
  obtain ⟨lives, rest, hlog, hlives, hunder⟩ := hchronicled.explains token
  have htail := hunder.of_pending fun r hr => hpending _ (Table.mem_of_get? hr)
  refine ⟨lives, rest, hlog, hlives, htail, ?_⟩
  have hfinishes : w.stage.finishCalls.count token = (w.stage.eventsOf token).countP fun e => e.finished?.isSome := by
    rw [hchronicled.finishes, count_finished]
    rfl
  have hready : ∀ life, Life token life → life.countP (· == .phaseChanged token .pending .dispatching) = 1 := by
    intro life hlife
    cases hlife <;> simp
  rw [hfinishes, List.count, hlog, List.countP_append, List.countP_append, countP_lives hready hlives,
    countP_lives (fun _ hl => hl.counts.2) hlives]
  rcases htail with rfl | ⟨kind, assigned, rfl⟩
  · rfl
  · simp [Event.finished?]

/-- A handler accepts a transition and is done at once, another transition fades, and a third one waits. -/
def doneAtOnce : List (Move Rehearsal.Actor) :=
  [.addHandler { name := "taker", manner := .scripted [true] [] true none none },
    .start .opening [] none, .ready ⟨1⟩ { kind := .opening, root := some ⟨1⟩ } [],
    .start .opening [] none,
    .ready ⟨2⟩ { kind := .opening, root := some ⟨1⟩, participants := [{ surface := ⟨2⟩, mode := .opening }] } [],
    .act (.conclude 0 .drop), .start .closing [] none, .drain 5]

theorem run_quiescence_done_at_once :
    let w := (fresh {} (⟨0, false⟩ : Rehearsal.Issuer) Rehearsal.Pace.keeps).run doneAtOnce
    w.table.tokens = [⟨3⟩] ∧ (∀ e ∈ w.table, e.2.phase = .pending) ∧
      w.stage.finishCalls.count ⟨2⟩ = (w.stage.eventsOf ⟨2⟩).count (.phaseChanged ⟨2⟩ .pending .dispatching) := by
  intro w
  have hpresented : ∀ k ∈ tickets w.stage.log, .posted (.handlerDone k) ∈ w.stage.journal := by decide
  obtain ⟨hpending, hlives⟩ := run_quiescence actor_leavesFades {} (⟨0, false⟩ : Rehearsal.Issuer)
    Rehearsal.Pace.keeps doneAtOnce (by simp [doneAtOnce, Move.LeavesFades]) (by simp [doneAtOnce]) (by decide)
    (by decide) (by decide) (by decide) fun k after ha => hpresented k ha.mem_tickets
  obtain ⟨_, _, _, _, _, hcount⟩ := hlives ⟨2⟩
  exact ⟨by decide, hpending, hcount⟩

end Shell

end WindowTransitions
