import WindowTransitions.Proofs.States
import WindowTransitions.Shell.Queue

/-! How each operation of the shell ends. Between two operations every record waits for its batch, is owned or
fades; from such a table each operation either fails and changes nothing or leaves a state that is given here in
full. -/

set_option autoImplicit false

namespace WindowTransitions

/-! ## Tables between operations -/

/-- The shape of a record between two operations. -/
inductive Record.AtRest : Record → Prop where
  | pending (kind : Kind) (assigned : Option HandlerId) (generation : UInt64) : AtRest { kind, assigned, generation }
  | owned (kind : Kind) (assigned : Option HandlerId) (owner : HandlerId) (generation : UInt64) :
    AtRest { kind, phase := .animating, assigned, owner := some owner, generation }
  | fading (kind : Kind) (assigned : Option HandlerId) (fades : List AnimationId) (generation : UInt64)
      (h : fades ≠ []) :
    AtRest { kind, phase := .animating, assigned, fades := some fades, generation }

theorem Record.AtRest.phase_of_owner {r : Record} {owner : HandlerId} (h : r.AtRest) (ho : r.owner = some owner) :
    r.phase = .animating := by
  cases h with
  | owned => rfl
  | pending | fading => cases ho

theorem Record.AtRest.fades_of_owner {r : Record} {owner : HandlerId} (h : r.AtRest) (ho : r.owner = some owner) :
    r.fades = none := by
  cases h with
  | owned => rfl
  | pending | fading => cases ho

theorem Record.AtRest.owner_of_fades {r : Record} {fades : List AnimationId} (h : r.AtRest)
    (hf : r.fades = some fades) : r.owner = none := by
  cases h with
  | fading => rfl
  | pending | owned => cases hf

theorem Record.AtRest.phase_of_fades {r : Record} {fades : List AnimationId} (h : r.AtRest)
    (hf : r.fades = some fades) : r.phase = .animating := by
  cases h with
  | fading => rfl
  | pending | owned => cases hf

structure Table.AtRest (t : Table) : Prop where
  distinct : t.tokens.Nodup
  records : ∀ e ∈ t, e.2.AtRest

theorem Table.AtRest.get? {t : Table} (ht : t.AtRest) {token : Token} {r : Record} (h : t.get? token = some r) :
    r.AtRest := ht.records _ (mem_of_get? h)

theorem Table.AtRest.pending {t : Table} (ht : t.AtRest) {token : Token} {r : Record} (h : t.get? token = some r)
    (hp : r.phase = .pending) :
    ∃ kind assigned generation, r = { kind, assigned, generation } := by
  have hr := ht.get? h
  cases hr with
  | pending kind assigned generation => exact ⟨kind, assigned, generation, rfl⟩
  | owned | fading => cases hp

namespace Control

variable {η α ε : Type} {w : Shell η α ε} {token : Token} {r : Record}

/-! ## Parts of operations -/

theorem run_expect (h : w.table.get? token = some r) : (expect token).run w = .ok r w := by
  simp [expect, Table.expect, h]

theorem run_expect_none (h : w.table.get? token = none) :
    (expect (η := η) (α := α) (ε := ε) token).run w = .error (.unknownTransition token w.table.tokens) w := by
  simp only [expect, Table.expect, EStateM.run_bind, EStateM.run_get, h]
  rfl

theorem run_advance (target : Phase) (h : w.table.get? token = some r) (hp : r.phase.precedes target = true) :
    (advance token target).run w = .ok () (w.turned token r target) := by
  simp [advance, run_expect h, hp, put, Shell.turned]

@[simp] theorem run_put (w : Shell η α ε) (token : Token) (r : Record) :
    (put token r).run w = .ok () { w with table := w.table.put token r } := by simp [put]

/-- The step to animation that ends both ways to settle a transition. -/
theorem run_advance_settled {old : Record} (fades : Nat) (h : w.table.get? token = some old)
    (hp : r.phase = .dispatching) :
    (advance token .animating).run
        ({ w with table := w.table.put token r }.report (.dispatched token r.owner fades)) =
      .ok () (w.settled token r fades) := by
  have h' : (w.table.put token r).get? token = some r := by simp [Table.get?_put, h]
  rw [run_advance .animating h' (by rw [hp]; rfl)]
  simp [Shell.turned, Shell.settled, Shell.report, Shell.note, Table.put_put, hp]

theorem run_settleOwner {owner : HandlerId} {start : Transaction} (h : w.table.get? token = some r)
    (hp : r.phase = .dispatching) :
    (settleOwner token owner start).run w =
      .ok () ((w.appliedRest start).settled token { r with owner := some owner } 0) := by
  have tail := fun (v : Shell η α ε) (hv : v.table.get? token = some r) =>
    run_advance_settled (r := { r with owner := some owner }) 0 hv hp
  unfold Shell.appliedRest
  cases hs : start.isEmpty
  · have h' : (w.apply start).table.get? token = some r := h
    simpa [settleOwner, hs, run_expect h'] using tail _ h'
  · simpa [settleOwner, hs, run_expect h] using tail w h

theorem length_upFrom (a : AnimationId) (count : Nat) : (a.upFrom count).length = count := by
  induction count generalizing a with
  | zero => rfl
  | succ count ih => simp [AnimationId.upFrom, ih]

/-- The fades of a transition get one id each. -/
theorem ids_fadeJobs (config : Config) (token : Token) {ids : List AnimationId} {targets : List (Surface × Bool)}
    (h : ids.length = targets.length) : (fadeJobs config token ids targets).map Job.id = ids := by
  calc
    (fadeJobs config token ids targets).map Job.id
    _ = (targets.zip ids).map Prod.snd := List.map_map
    _ = ids := List.map_snd_zip (Nat.le_of_eq h)

theorem run_settleFades [Executor ε] (batch : Batch) (start : Transaction) (h : w.table.get? token = some r)
    (hp : r.phase = .dispatching) (ho : r.owner = none) :
    (settleFades token batch start).run w = .ok () (w.faded token r batch start) := by
  have hv : (w.allotted batch start).table.get? token = some r := h
  have tail := run_advance_settled (w := w.allotted batch start)
    (r := { r with fades := some (w.nextAnimation.upFrom batch.fadeTargets.length) }) batch.fadeTargets.length hv hp
  simp only [ho] at tail
  have head : (settleFades token batch start).run w =
      EStateM.run (do
        let r ← expect token
        put token { r with fades := some (w.nextAnimation.upFrom batch.fadeTargets.length) }
        modify (·.report (.dispatched token none (w.nextAnimation.upFrom batch.fadeTargets.length).length))
        advance token .animating
        modify fun v => (fadeJobs v.config token (w.nextAnimation.upFrom batch.fadeTargets.length)
          batch.fadeTargets).foldl Shell.launch v) (w.allotted batch start) := rfl
  simp only [Shell.faded, ho]
  simp [head, length_upFrom, run_expect hv, ho, tail]
  rfl

/-! ## Finishing -/

section Finish
variable [Authority α]

theorem run_finish (h : w.table.get? token = some r) (hp : r.phase = .dispatching ∨ r.phase = .animating)
    (hf : r.isFading = false) : (finish token).run w = .ok () (w.left token r.phase) := by
  have hadv := run_advance .finished h (by rcases hp with hp | hp <;> rw [hp] <;> rfl)
  have hstop : ¬ (r.phase ≠ .dispatching ∧ r.phase ≠ .animating) := by
    rcases hp with hp | hp <;> simp [hp]
  simp only [finish, EStateM.run_bind, run_expect h, if_neg hstop, hf]
  simp [hadv, Shell.turned, Shell.left, Shell.report, Shell.note, callFinish, Table.remove_put]

theorem run_finish_fading (h : w.table.get? token = some r) (hf : r.isFading = true) :
    (finish token).run w = .ok () w := by
  simp only [finish, EStateM.run_bind, run_expect h, hf]
  split <;> rfl

end Finish

end Control

/-! ## Tickets -/

/-- A ticket counts: its handler owns the transition in the ticket's generation. -/
def Table.Honours (t : Table) (ticket : Ticket) : Prop :=
  ∃ r, t.get? ticket.token = some r ∧ r.owner = some ticket.handler ∧ r.generation = ticket.generation

namespace Control

variable {η α ε : Type} [Authority α] {w : Shell η α ε} {token : Token} {r : Record}

theorem run_handlerDone {ticket : Ticket} (ht : w.table.AtRest) (h : w.table.Honours ticket) :
    (handlerDone ticket).run w = .ok () (w.left ticket.token .animating) := by
  obtain ⟨r, hr, ho, hg⟩ := h
  have hfinish : (finish ticket.token).run w = .ok () (w.left ticket.token .animating) := by
    have hrest := ht.get? hr
    cases hrest with
    | owned => exact run_finish hr (.inr rfl) rfl
    | pending | fading => cases ho
  simp [handlerDone, hr, ho, hg, hfinish]

theorem run_handlerDone_ignored {ticket : Ticket} (h : ¬ w.table.Honours ticket) :
    (handlerDone ticket).run w = .ok () w := by
  simp only [handlerDone, EStateM.run_bind, EStateM.run_get]
  cases hr : w.table.get? ticket.token with
  | none => rfl
  | some r =>
    have hne : ¬ (r.owner = some ticket.handler ∧ r.generation = ticket.generation) := fun hh => h ⟨r, hr, hh⟩
    simp [hne]

/-! ## Ends of fades -/

/-- How `fadeDone` ends at a table at rest. -/
inductive FadeDoneOutcome (w : Shell η α ε) (token : Token) (a : AnimationId) :
    EStateM.Result Fault (Shell η α ε) Unit → Prop where
  | unknown (h : w.table.get? token = none) :
    FadeDoneOutcome w token a (.error (.unknownTransition token w.table.tokens) w)
  | untracked {r : Record} (h : w.table.get? token = some r) (ha : r.endFade? a = none) :
    FadeDoneOutcome w token a (.ok () w)
  | fewer {r : Record} {fades : List AnimationId} (h : w.table.get? token = some r) (hf : r.fades = some fades)
      (ha : a ∈ fades) (hm : fades.erase a ≠ []) :
    FadeDoneOutcome w token a
      (.ok () { w with table := w.table.put token { r with fades := some (fades.erase a) } })
  | last {r : Record} {fades : List AnimationId} (h : w.table.get? token = some r) (hf : r.fades = some fades)
      (ha : a ∈ fades) (hm : fades.erase a = []) :
    FadeDoneOutcome w token a (.ok () (w.left token .animating))

theorem fadeDone_outcome (ht : w.table.AtRest) (token : Token) (a : AnimationId) :
    FadeDoneOutcome w token a ((fadeDone token a).run w) := by
  cases h : w.table.get? token with
  | none =>
    simp only [fadeDone, EStateM.run_bind, run_expect_none h]
    exact .unknown h
  | some r =>
    simp only [fadeDone, EStateM.run_bind, run_expect h]
    have hrest := ht.get? h
    cases hrest with
    | pending | owned => exact .untracked h rfl
    | fading kind assigned fades generation =>
      by_cases ha : a ∈ fades
      · let r' : Record :=
          { kind, phase := .animating, assigned, fades := some (fades.erase a), generation }
        have hput : (w.table.put token r').get? token = some r' := by simp [Table.get?_put, h]
        simp only [Record.endFade?, if_pos ha, EStateM.run_bind, run_put]
        by_cases hm : fades.erase a = []
        · rw [run_finish (w := { w with table := w.table.put token r' }) hput (.inr rfl)
            (by simp [r', Record.isFading, hm])]
          have hleft : ({ w with table := w.table.put token r' } : Shell η α ε).left token .animating =
              w.left token .animating := by simp [Shell.left, Table.remove_put]
          rw [hleft]
          exact .last h rfl ha hm
        · rw [run_finish_fading (w := { w with table := w.table.put token r' }) hput
            (by simp [r', Record.isFading, hm])]
          exact .fewer h rfl ha hm
      · have hnone : Record.endFade? { kind, phase := .animating, assigned, fades := some fades, generation } a =
            none := by simp [Record.endFade?, ha]
        simp only [hnone]
        exact .untracked h hnone

/-! ## Ready transitions -/

section Ready
variable [Handler η] [Executor ε]

/-- How `ready` ends at a table at rest. -/
inductive ReadyOutcome (w : Shell η α ε) (token : Token) (batch : Batch) (start : Transaction) :
    EStateM.Result Fault (Shell η α ε) Unit → Prop where
  | unknown (h : w.table.get? token = none) :
    ReadyOutcome w token batch start (.error (.unknownTransition token w.table.tokens) w)
  | duplicate {r : Record} (h : w.table.get? token = some r) (hp : r.phase ≠ .pending) :
    ReadyOutcome w token batch start (.error (.duplicateReady token) w)
  | rootless {r : Record} (h : w.table.get? token = some r) (hp : r.phase = .pending) (hb : batch.hasRoot = false) :
    ReadyOutcome w token batch start
      (.ok () (((w.turned token r .dispatching).apply start).left token .dispatching))
  | owned {r : Record} {owner : HandlerId} (h : w.table.get? token = some r) (hp : r.phase = .pending)
      (hb : batch.hasRoot = true) (ho : (w.offers token r batch start).owner = some owner) :
    ReadyOutcome w token batch start
      (.ok () (((w.offered token r batch start).appliedRest (w.offers token r batch start).start).settled token
        { r with owner := some owner } 0))
  | faded {r : Record} (h : w.table.get? token = some r) (hp : r.phase = .pending) (hb : batch.hasRoot = true)
      (ho : (w.offers token r batch start).owner = none) (hn : batch.fadeTargets ≠ []) :
    ReadyOutcome w token batch start
      (.ok () ((w.offered token r batch start).faded token r batch (w.offers token r batch start).start))
  | unfaded {r : Record} (h : w.table.get? token = some r) (hp : r.phase = .pending) (hb : batch.hasRoot = true)
      (ho : (w.offers token r batch start).owner = none) (hn : batch.fadeTargets = []) :
    ReadyOutcome w token batch start
      (.ok () (((w.offered token r batch start).faded token r batch (w.offers token r batch start).start).left token
        .animating))

theorem run_ready_rootless {batch : Batch} {start : Transaction} (h : w.table.get? token = some r)
    (hp : r.phase = .pending) (hb : batch.hasRoot = false) :
    (ready token batch start).run w = (finish token).run ((w.turned token r .dispatching).apply start) := by
  have hadv := run_advance .dispatching h (by rw [hp]; rfl)
  simp [ready, run_expect h, hp, hadv, hb]

theorem run_ready_rooted {batch : Batch} {start : Transaction} (h : w.table.get? token = some r)
    (hp : r.phase = .pending) (hb : batch.hasRoot = true) :
    (ready token batch start).run w =
      EStateM.run
        (match (w.offers token r batch start).owner with
          | some owner => settleOwner token owner (w.offers token r batch start).start
          | none => do
            settleFades token batch (w.offers token r batch start).start
            finish token)
        (w.offered token r batch start) := by
  have hadv := run_advance .dispatching h (by rw [hp]; rfl)
  simp [ready, run_expect h, hp, hadv, hb]
  rfl

theorem ready_outcome (ht : w.table.AtRest) (token : Token) (batch : Batch) (start : Transaction) :
    ReadyOutcome w token batch start ((ready token batch start).run w) := by
  cases h : w.table.get? token with
  | none =>
    simp only [ready, EStateM.run_bind, run_expect_none h]
    exact .unknown h
  | some r =>
    by_cases hp : r.phase = .pending
    · have hturned : (w.turned token r .dispatching).table.get? token = some { r with phase := .dispatching } := by
        simp [Shell.turned, Shell.report, Shell.note, Table.get?_put, h]
      obtain ⟨hown, hfades⟩ : r.owner = none ∧ r.fades = none := by
        obtain ⟨_, _, _, rfl⟩ := ht.pending h hp
        exact ⟨rfl, rfl⟩
      by_cases hb : batch.hasRoot = true
      · have hoffered : (w.offered token r batch start).table.get? token = some { r with phase := .dispatching } := by
          simpa [Shell.offered] using hturned
        rw [run_ready_rooted h hp hb]
        cases ho : (w.offers token r batch start).owner with
        | some owner =>
          simp only [run_settleOwner hoffered rfl]
          exact .owned h hp hb ho
        | none =>
          have hsettle : (settleFades token batch (w.offers token r batch start).start).run
              (w.offered token r batch start) =
                .ok () ((w.offered token r batch start).faded token r batch (w.offers token r batch start).start) := by
            have hs := run_settleFades batch (w.offers token r batch start).start hoffered rfl hown
            exact hs
          have hget : ((w.offered token r batch start).faded token r batch
              (w.offers token r batch start).start).table.get? token =
                some { r with
                  phase := .animating
                  fades := some ((w.offered token r batch start).nextAnimation.upFrom batch.fadeTargets.length) } := by
            simp [Table.get?_put, hoffered]
          simp only [EStateM.run_bind, hsettle]
          by_cases hn : batch.fadeTargets = []
          · rw [run_finish hget (.inr rfl) (by simp [Record.isFading, hn, AnimationId.upFrom])]
            exact .unfaded h hp hb ho hn
          · rw [run_finish_fading hget (by
              simpa [Record.isFading, ← List.length_eq_zero_iff, length_upFrom] using hn)]
            exact .faded h hp hb ho hn
      · rw [Bool.not_eq_true] at hb
        rw [run_ready_rootless h hp hb, run_finish (w := (w.turned token r .dispatching).apply start) hturned
          (.inl rfl) (by simp [Record.isFading, hfades])]
        exact .rootless h hp hb
    · simp only [ready, EStateM.run_bind, run_expect h, if_pos hp]
      exact .duplicate h hp

end Ready

/-! ## Starts -/

/-- How a start ends once the authority is called: the token it returns is active already, or becomes it. -/
inductive StartOutcome (w : Shell η α ε) (kind : Kind) (placeholder : Option Token)
    (containers : Option Container.Transaction) (assigned : Option HandlerId) :
    EStateM.Result Fault (Shell η α ε) Token → Prop where
  | refused {token : Token} {r : Record}
      (hs : (Authority.start w.authority kind placeholder containers).1 = token) (h : w.table.get? token = some r) :
    StartOutcome w kind placeholder containers assigned
      (.error (.duplicateStart token) (w.called kind placeholder containers))
  | entered {token : Token} (hs : (Authority.start w.authority kind placeholder containers).1 = token)
      (h : w.table.get? token = none) :
    StartOutcome w kind placeholder containers assigned
      (.ok token ((w.called kind placeholder containers).entered token kind assigned))

theorem callStart_outcome (w : Shell η α ε) (kind : Kind) (placeholder : Option Token)
    (containers : Option Container.Transaction) (assigned : Option HandlerId) :
    StartOutcome w kind placeholder containers assigned
      (EStateM.run (do
        let token ← callStart kind placeholder containers
        track token kind assigned
        return token) w) := by
  generalize hs : (Authority.start w.authority kind placeholder containers).1 = token
  simp only [callStart, track, EStateM.run_bind, EStateM.run_get, EStateM.run_set, EStateM.run_modify, hs,
    EStateM.run_pure, Shell.note]
  cases h : w.table.get? token with
  | none =>
    rw [Table.insert_of_none h]
    exact .entered hs h
  | some r =>
    rw [Table.insert_of_some h]
    exact .refused hs h

theorem request_outcome [Handler η] (w : Shell η α ε) (kind : Kind) (placeholder : Token) (trigger : Option Trigger) :
    w.table.contains placeholder = true ∧
        (request kind placeholder trigger).run w = .error (.duplicateStart placeholder) w ∨
      w.table.contains placeholder = false ∧
        StartOutcome (w.asked kind placeholder trigger) kind (some placeholder)
          ((w.handlers.negotiate kind placeholder trigger).claim.map (·.2))
          ((w.handlers.negotiate kind placeholder trigger).claim.map (·.1))
          ((request kind placeholder trigger).run w) := by
  cases h : w.table.contains placeholder with
  | true => exact .inl ⟨rfl, by simp [request, h]⟩
  | false =>
    refine .inr ⟨rfl, ?_⟩
    have hstart := callStart_outcome (w.asked kind placeholder trigger) kind (some placeholder)
      ((w.handlers.negotiate kind placeholder trigger).claim.map (·.2))
      ((w.handlers.negotiate kind placeholder trigger).claim.map (·.1))
    simpa [request, h, Shell.asked] using hstart

theorem start_outcome (w : Shell η α ε) (kind : Kind) (containers : Container.Transaction)
    (handler : Option HandlerId) :
    (∃ id, handler = some id ∧ w.handlers.contains id = false ∧
        (start kind containers handler).run w = .error (.unknownHandler id) w) ∨
      (∀ id, handler = some id → w.handlers.contains id = true) ∧
        StartOutcome w kind none (some containers) handler ((start kind containers handler).run w) := by
  have hstart := callStart_outcome w kind none (some containers) handler
  cases handler with
  | none => exact .inr ⟨by simp, by simpa [start] using hstart⟩
  | some id =>
    cases h : w.handlers.contains id with
    | true => exact .inr ⟨by simp [h], by simpa [start, h] using hstart⟩
    | false => exact .inl ⟨id, rfl, h, by simp [start, h]⟩

end Control

end WindowTransitions
