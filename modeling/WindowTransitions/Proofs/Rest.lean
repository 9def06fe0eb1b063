import WindowTransitions.Proofs.Running
import WindowTransitions.Rehearsal.Cast

/-! Records between two operations. Main statement: after every run each active transition waits for its batch, is
owned by a registered handler, or fades under ids of its own; no record is left on the way between two of these
states, and for this reason no operation ever finds a phase out of order. -/

set_option autoImplicit false

namespace WindowTransitions

/-! ## Registered handlers -/

theorem Registry.contains_of_length {η : Type} {r r' : Registry η} {id : HandlerId} (h : r.contains id = true)
    (hl : r'.length = r.length) : r'.contains id = true := by
  rw [contains, hl]
  exact h

namespace Shell

variable {η α ε : Type} {w w' : Shell η α ε}

/-- Whoever stands in a record is registered. -/
def Registered (w : Shell η α ε) : Prop :=
  ∀ e ∈ w.table, ∀ id, e.2.assigned = some id ∨ e.2.owner = some id → w.handlers.contains id = true

section Steps
variable [Handler η] [Authority α]

theorem Step.registered {ticket : Option Ticket} (h : w.Step ticket w') (hw : w.Registered) : w'.Registered := by
  obtain ⟨calls, hlength⟩ := h.leadsTo
  have still : ∀ id, w.handlers.contains id = true → w'.handlers.contains id = true :=
    fun id hid => Registry.contains_of_length hid hlength.handlers
  have old : ∀ e ∈ w.table, ∀ id, e.2.assigned = some id ∨ e.2.owner = some id → w'.handlers.contains id = true :=
    fun e he id hid => still id (hw e he id hid)
  intro e he
  cases h with
  | idle _ h =>
    rw [h.table] at he
    exact old e he
  | entered _ ha _ _ h =>
    rw [h.table] at he
    refine Table.forall_append old ?_ e he
    intro id hid
    rcases hid with hid | hid
    · exact still id (ha id hid)
    · cases hid
  | tidied _ h | unfaded _ _ _ h | presented _ _ h | last _ _ _ _ h =>
    rw [h.table] at he
    exact Table.forall_remove old e he
  | owned hr hd ho h =>
    rw [h.table] at he
    refine Table.forall_put old ?_ e he
    intro id hid
    rcases hid with hid | hid
    · exact old _ (Table.mem_of_get? hr) id (.inl hid)
    · rw [Option.some.injEq] at hid
      exact still id (hid ▸ hd.owner_registered ho)
  | faded hr _ _ _ h =>
    rw [h.table] at he
    refine Table.forall_put old ?_ e he
    intro id hid
    rcases hid with hid | hid
    · exact old _ (Table.mem_of_get? hr) id (.inl hid)
    · cases hid
  | fewer hr _ _ _ h =>
    rw [h.table] at he
    have hold := old _ (Table.mem_of_get? hr)
    refine Table.forall_put old ?_ e he
    exact hold

end Steps

/-! ## What a run keeps -/

/-- What holds of a shell between two operations, besides the shape of its records. -/
structure Resting (w : Shell η α ε) : Prop where
  counted : w.Counted
  registered : w.Registered
  dated : w.stage.starts < 2 ^ 64 → w.table.Dated w.stage.starts
  apart : w.stage.allotments < 2 ^ 64 → Apart w.table.fadesOf w.stage.allotments

theorem resting_fresh (config : Config) (authority : α) (executor : ε) :
    (fresh config authority executor : Shell η α ε).table.AtRest ∧
      (fresh config authority executor : Shell η α ε).Resting :=
  ⟨⟨List.nodup_nil, by simp [fresh]⟩, counted_fresh config authority executor, by simp [Registered, fresh],
    fun _ => ⟨List.nodup_nil, by simp [fresh]⟩, fun _ => .nothing _⟩

variable [Handler η] [Authority α] [Executor ε]

theorem kept_resting : Kept fun w : Shell η α ε => w.table.AtRest ∧ w.Resting := by
  refine kept_of_steps ?_ ?_ ?_
  · intro w a hw
    refine ⟨⟨hw.counted.generation, hw.counted.animation⟩, ?_, hw.dated, hw.apart⟩
    intro e he id hid
    have hcontains := of_decide_eq_true (hw.registered e he id hid)
    exact decide_eq_true (Nat.lt_succ_of_lt hcontains)
  · intro w m rest _ hw
    refine ⟨hw.counted.take m rest, hw.registered, ?_, ?_⟩
    · rw [take_starts]
      exact hw.dated
    · rw [take_allotments]
      exact hw.apart
  · intro w ticket w' ht hw h
    refine ⟨hw.counted.of_step h, h.registered hw.registered, fun hs => ?_, fun ha => ?_⟩
    · exact h.dated ht hw.counted hs (hw.dated (Nat.lt_of_le_of_lt h.starts_le hs))
    · exact h.apart ht hw.counted ha (hw.apart (Nat.lt_of_le_of_lt h.allotments_le ha))

end Shell

/-! ## Phases in order -/

/-- The fault, if there is one, is not a phase out of order. -/
def Legal (fault : Option Fault) : Prop :=
  ∀ token source target, fault ≠ some (.illegalPhaseChange token source target)

namespace Control

variable {η α ε : Type} [Authority α] {w : Shell η α ε}

theorem start_outcome_legal {v : Shell η α ε} {kind : Kind} {placeholder : Option Token}
    {containers : Option Container.Transaction} {assigned : Option HandlerId} {c : Control η α ε Token}
    (h : StartOutcome v kind placeholder containers assigned (c.run w)) : Legal (c.perform w).1 := by
  generalize hr : c.run w = result at h
  intro token source target
  cases h with
  | refused => simp [perform_of_error hr]
  | entered => simp [perform_of_ok hr]

theorem start_legal [Handler η] (w : Shell η α ε) (kind : Kind) (containers : Container.Transaction)
    (handler : Option HandlerId) : Legal ((start kind containers handler).perform w).1 := by
  rcases start_outcome w kind containers handler with ⟨id, _, _, h⟩ | ⟨_, h⟩
  · intro token source target
    simp [perform_of_error h]
  · exact start_outcome_legal h

theorem process_legal [Handler η] [Executor ε] (ht : w.table.AtRest) (m : Message) :
    Legal ((process m).perform w).1 := by
  rw [perform_process]
  cases m with
  | ready token batch start =>
    have h := ready_outcome ht token batch start
    generalize hr : (ready token batch start).run w = result at h
    intro token source target
    cases h with
    | unknown | duplicate => simp [perform_of_error hr]
    | rootless | owned | faded | unfaded => simp [perform_of_ok hr]
  | request kind token trigger =>
    rcases request_outcome w kind token trigger with ⟨_, h⟩ | ⟨_, h⟩
    · intro token source target
      simp [perform_of_error h]
    · exact start_outcome_legal h
  | handlerDone ticket =>
    intro token source target
    by_cases h : w.table.Honours ticket
    · simp [perform_of_ok (run_handlerDone ht h)]
    · simp [perform_of_ok (run_handlerDone_ignored h)]
  | fadeDone token a =>
    have h := fadeDone_outcome ht token a
    generalize hr : (fadeDone token a).run w = result at h
    intro token source target
    cases h with
    | unknown => simp [perform_of_error hr]
    | untracked | fewer | last => simp [perform_of_ok hr]
  | shutdown => exact fun _ _ _ => by simp

end Control

namespace Shell

variable {η α ε : Type} [Handler η] [Authority α] [Executor ε]

theorem move_legal (w : Shell η α ε) (hw : w.table.AtRest ∧ w.Resting) (m : Move η) : Legal (w.move m).1 := by
  cases m with
  | request kind token trigger =>
    have h := Control.process_legal hw.1 (.request kind token trigger)
    rwa [Control.perform_process] at h
  | ready token batch start =>
    have h := Control.process_legal hw.1 (.ready token batch start)
    rwa [Control.perform_process] at h
  | start kind containers handler => exact Control.start_legal w kind containers handler
  | process m => exact Control.process_legal hw.1 m
  | drain limit =>
    intro token source target hfault
    obtain ⟨v, m, rest, hv, _, hf⟩ := (drainWithin_induction kept_resting.receive limit w hw).2 _ hfault
    exact Control.process_legal (w := v.take m rest) hv.1 m token source target hf
  | addHandler | post | act => exact fun _ _ _ => by simp [move]

/-- After every run of fewer than `2 ^ 64` starts and animations, whatever comes to the shell: an active transition
waits for its batch, or is animated either by a registered handler that owns it or by default animations with
distinct ids, of which at least one still runs. Assigned handlers are registered. Generations are pairwise distinct,
start at one and end at the counter. And nothing that comes next, be it asked of the shell or taken from its queue,
finds a phase out of order. -/
theorem run_rest (config : Config) (authority : α) (executor : ε) (moves : List (Move η))
    (hs : ((fresh config authority executor : Shell η α ε).run moves).stage.starts < 2 ^ 64)
    (ha : ((fresh config authority executor : Shell η α ε).run moves).stage.allotments < 2 ^ 64) :
    let w := (fresh config authority executor : Shell η α ε).run moves
    (∀ e ∈ w.table,
        e.2.phase = .pending ∧ e.2.owner = none ∧ e.2.fades = none ∨
        e.2.phase = .animating ∧
          ((∃ owner, e.2.owner = some owner ∧ w.handlers.contains owner = true ∧ e.2.fades = none) ∨
            e.2.owner = none ∧ ∃ fades, e.2.fades = some fades ∧ fades ≠ [] ∧ fades.Nodup)) ∧
      (∀ e ∈ w.table, ∀ id, e.2.assigned = some id → w.handlers.contains id = true) ∧
      (w.table.map (·.2.generation)).Nodup ∧
      (∀ e ∈ w.table, 1 ≤ e.2.generation ∧ e.2.generation ≤ w.generation) ∧
      ∀ m token source target, (w.move m).1 ≠ some (.illegalPhaseChange token source target) := by
  intro w
  have hw : w.table.AtRest ∧ w.Resting := kept_resting.run moves _ (resting_fresh config authority executor)
  have hdated := hw.2.dated hs
  refine ⟨?_, fun e he id hid => hw.2.registered e he id (.inl hid), hdated.distinct, ?_,
    fun m => w.move_legal hw m⟩
  · intro e he
    have hrest := hw.1.records e he
    have hregistered := hw.2.registered e he
    have hdistinct : ∀ fades, e.2.fades = some fades → fades.Nodup := by
      intro fades hf
      have hnodup := (hw.2.apart ha).nodup e.1
      rwa [Table.fadesOf_of_get? (Table.get?_of_mem_pair hw.1.distinct he), hf] at hnodup
    generalize e.2 = r at hrest hregistered hdistinct
    cases hrest with
    | pending => exact .inl ⟨rfl, rfl, rfl⟩
    | owned kind assigned owner => exact .inr ⟨rfl, .inl ⟨owner, rfl, hregistered owner (.inr rfl), rfl⟩⟩
    | fading kind assigned fades generation hne => exact .inr ⟨rfl, .inr ⟨rfl, fades, rfl, hne, hdistinct fades rfl⟩⟩
  · intro e he
    have hbounds := hdated.bounds e he
    rw [← hw.2.counted.toNat_generation hs] at hbounds
    exact ⟨UInt64.le_iff_toNat_le.mpr hbounds.1, UInt64.le_iff_toNat_le.mpr hbounds.2⟩

/-- Two transitions under one handler: it declines the first, which fades, and the second waits. -/
def fadingAndWaiting : List (Move Rehearsal.Actor) :=
  [.addHandler { name := "shy", manner := .steady false },
    .start .opening [] (some ⟨0⟩),
    .ready ⟨1⟩ { kind := .opening, root := some ⟨1⟩, participants := [{ surface := ⟨2⟩, mode := .opening }] } [],
    .start .closing [] none]

theorem run_rest_fading_and_waiting :
    let w := (fresh {} (⟨0, false⟩ : Rehearsal.Issuer) Rehearsal.Pace.keeps).run fadingAndWaiting
    w.table.map (·.2.phase) = [.animating, .pending] ∧ (w.table.map (·.2.generation)).Nodup ∧
      ∀ m token source target, (w.move m).1 ≠ some (.illegalPhaseChange token source target) := by
  obtain ⟨_, _, hdistinct, _, hlegal⟩ :=
    run_rest {} (⟨0, false⟩ : Rehearsal.Issuer) Rehearsal.Pace.keeps fadingAndWaiting (by decide) (by decide)
  exact ⟨by decide, hdistinct, hlegal⟩

end Shell

end WindowTransitions
