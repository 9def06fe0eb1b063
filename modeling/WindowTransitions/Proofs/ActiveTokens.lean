import WindowTransitions.Proofs.Drains
import WindowTransitions.Proofs.Readiness

/-! The list of active tokens and the faults that show it. News of a token that is not active fail before anything has
changed, at the message that brings them. Main statement: at every point of every run the active tokens are those of
the unfinished starts in the order of these starts, each once, and a fault that names the active tokens names exactly
these. -/

set_option autoImplicit false

namespace WindowTransitions

namespace Control

variable {η α ε : Type} {w : Shell η α ε}

/-- If the fault is news of a token that is not active, it names the tokens of the table, and nothing has changed. -/
def Lists (w : Shell η α ε) (result : Option Fault × Shell η α ε) : Prop :=
  ∀ token active, result.1 = some (.unknownTransition token active) →
    result.2 = w ∧ active = w.table.tokens ∧ w.table.get? token = none

theorem lists_unknown {c : Control η α ε Unit} {token : Token} (hn : w.table.get? token = none)
    (h : c.run w = .error (.unknownTransition token w.table.tokens) w) : Lists w (c.perform w) := by
  rw [perform_of_error h]
  rintro _ _ hf
  cases hf
  exact ⟨rfl, rfl, hn⟩

variable [Authority α]

theorem start_outcome_lists {v : Shell η α ε} {kind : Kind} {placeholder : Option Token}
    {containers : Option Container.Transaction} {assigned : Option HandlerId} {c : Control η α ε Token}
    (h : StartOutcome v kind placeholder containers assigned (c.run w)) : Lists w (c.perform w) := by
  generalize hr : c.run w = result at h
  intro token active
  cases h with
  | refused => simp [perform_of_error hr]
  | entered => simp [perform_of_ok hr]

theorem start_lists (w : Shell η α ε) (kind : Kind) (containers : Container.Transaction)
    (handler : Option HandlerId) : Lists w ((start kind containers handler).perform w) := by
  rcases start_outcome w kind containers handler with ⟨id, _, _, h⟩ | ⟨_, h⟩
  · intro token active
    simp [perform_of_error h]
  · exact start_outcome_lists h

theorem process_lists [Handler η] [Executor ε] (ht : w.table.AtRest) (m : Message) :
    Lists w ((process m).perform w) := by
  rw [perform_process]
  cases m with
  | ready token batch start =>
    have h := ready_outcome ht token batch start
    generalize hr : (ready token batch start).run w = result at h
    cases h with
    | unknown hn => exact lists_unknown hn hr
    | duplicate => exact fun _ _ hf => by simp [perform_of_error hr] at hf
    | rootless | owned | faded | unfaded => exact fun _ _ hf => by simp [perform_of_ok hr] at hf
  | request kind token trigger =>
    rcases request_outcome w kind token trigger with ⟨_, h⟩ | ⟨_, h⟩
    · exact fun _ _ hf => by simp [perform_of_error h] at hf
    · exact start_outcome_lists h
  | handlerDone ticket =>
    by_cases h : w.table.Honours ticket
    · exact fun _ _ hf => by simp [perform_of_ok (run_handlerDone ht h)] at hf
    · exact fun _ _ hf => by simp [perform_of_ok (run_handlerDone_ignored h)] at hf
  | fadeDone token a =>
    have h := fadeDone_outcome ht token a
    generalize hr : (fadeDone token a).run w = result at h
    cases h with
    | unknown hn => exact lists_unknown hn hr
    | untracked | fewer | last => exact fun _ _ hf => by simp [perform_of_ok hr] at hf
  | shutdown => exact fun _ _ hf => by simp at hf

end Control

namespace Shell

variable {η α ε : Type} [Handler η] [Authority α] [Executor ε]

theorem Passes.kept {P : Shell η α ε → Prop} (hP : Kept P) {w v : Shell η α ε} {passed : List Message}
    (h : Passes w passed v) (hw : P w) : P v := by
  induction h with
  | refl w => exact hw
  | cons hq hr _ ih =>
    have hnext := hP.receive _ _ _ hq hw
    rw [receive, Control.perform_of_ok hr] at hnext
    exact ih hnext

/-- A drain that fails stops at the message that fails, in the state that this message leaves. -/
theorem drain_failed {w : Shell η α ε} {limit : Nat} {f : Fault} (h : (w.move (.drain limit)).1 = some f) :
    ∃ v m rest passed, Passes w passed v ∧ v.receive m rest = (some f, (w.move (.drain limit)).2) := by
  obtain ⟨passed, last, v, _, _, hpasses, hends⟩ := (w.drains limit).passes
  simp only [move] at h ⊢
  generalize w.drainWithin limit = d at h hends
  obtain ⟨handled, ending, shell⟩ := d
  cases hends with
  | failed hq hr =>
    rw [DrainEnd.fault?, Option.some.injEq] at h
    subst h
    exact ⟨v, _, _, passed, hpasses, Control.perform_of_error hr⟩
  | emptied | shutdown | cutShort => cases h

/-- A move that brings news of a token that is not active names the tokens of the table that it leaves. -/
theorem move_lists {w : Shell η α ε} (ht : w.table.AtRest) {m : Move η} {token : Token} {active : List Token}
    (h : (w.move m).1 = some (.unknownTransition token active)) :
    active = (w.move m).2.table.tokens ∧ (w.move m).2.table.get? token = none := by
  have read : ∀ {v : Shell η α ε}, Control.Lists v (w.move m) →
      active = (w.move m).2.table.tokens ∧ (w.move m).2.table.get? token = none := by
    intro v hv
    obtain ⟨hsame, hactive, hnone⟩ := hv token active h
    rw [hsame]
    exact ⟨hactive, hnone⟩
  cases m with
  | request kind placeholder trigger =>
    have hlists := Control.process_lists ht (.request kind placeholder trigger)
    rw [Control.perform_process] at hlists
    exact read hlists
  | start kind containers handler => exact read (Control.start_lists w kind containers handler)
  | ready other batch start =>
    have hlists := Control.process_lists ht (.ready other batch start)
    rw [Control.perform_process] at hlists
    exact read hlists
  | process m => exact read (Control.process_lists ht m)
  | drain limit =>
    obtain ⟨v, m, rest, passed, hpasses, hfailed⟩ := drain_failed h
    have hv : (v.take m rest).table.AtRest := hpasses.kept kept_atRest ht
    have hlists := Control.process_lists hv m
    rw [← receive, hfailed, ← h] at hlists
    exact read hlists
  | addHandler | post | act => cases h

/-- At every point of every run, whatever has come to the shell: the active tokens are those of the starts behind
which no finish of their token is reported, in the order in which these starts are reported, and none of them stands
there twice. A fault, whatever call or drain returns it, that is news of a token that is not active names exactly the
tokens that are active when it is returned. -/
theorem run_active (config : Config) (authority : α) (executor : ε) (moves : List (Move η)) :
    let w := (fresh config authority executor : Shell η α ε).run moves
    w.table.tokens = Event.unfinished w.stage.events ∧ w.table.tokens.Nodup ∧
      w.table.length = (Event.unfinished w.stage.events).length ∧
      ∀ m token active, (w.move m).1 = some (.unknownTransition token active) →
        active = Event.unfinished (w.move m).2.stage.events ∧ active = (w.move m).2.table.tokens ∧
          token ∉ active := by
  intro w
  have ordered : ∀ moves, ((fresh config authority executor : Shell η α ε).run moves).table.AtRest ∧
      ((fresh config authority executor : Shell η α ε).run moves).Ordered := fun moves =>
    kept_ordered.run moves _ ⟨(resting_fresh config authority executor).1, rfl⟩
  obtain ⟨hrest, htokens⟩ := ordered moves
  refine ⟨htokens, hrest.distinct, ?_, fun m token active h => ?_⟩
  · rw [← htokens, Table.tokens, List.length_map]
  · obtain ⟨hactive, hnone⟩ := move_lists hrest h
    have hafter : (w.move m).2.table.tokens = Event.unfinished (w.move m).2.stage.events := by
      have := (ordered (moves ++ [m])).2
      rwa [run_append] at this
    refine ⟨hactive.trans hafter, hactive, ?_⟩
    rw [hactive]
    exact Table.get?_eq_none_iff.mp hnone

/-- Two transitions, of which the first finishes and is started again, and news of a third. -/
def restarted : List (Move Rehearsal.Actor) :=
  [.request .opening ⟨7⟩ none, .request .closing ⟨8⟩ none, .ready ⟨7⟩ { kind := .opening } [],
    .request .opening ⟨7⟩ none, .post (.fadeDone ⟨9⟩ ⟨0⟩)]

theorem run_active_restarted :
    let w := (fresh {} (⟨0, false⟩ : Rehearsal.Issuer) Rehearsal.Pace.keeps).run restarted
    w.table.tokens = [⟨8⟩, ⟨7⟩] ∧ (w.move (.drain 5)).1 = some (.unknownTransition ⟨9⟩ [⟨8⟩, ⟨7⟩]) ∧
      [⟨8⟩, ⟨7⟩] = Event.unfinished (w.move (.drain 5)).2.stage.events := by
  obtain ⟨_, _, _, hfaults⟩ := run_active {} (⟨0, false⟩ : Rehearsal.Issuer) Rehearsal.Pace.keeps restarted
  have hfault : (((fresh {} (⟨0, false⟩ : Rehearsal.Issuer) Rehearsal.Pace.keeps).run restarted).move (.drain 5)).1 =
      some (.unknownTransition ⟨9⟩ [⟨8⟩, ⟨7⟩]) := by decide
  exact ⟨by decide, hfault, (hfaults (.drain 5) ⟨9⟩ [⟨8⟩, ⟨7⟩] hfault).1⟩

end Shell

end WindowTransitions
