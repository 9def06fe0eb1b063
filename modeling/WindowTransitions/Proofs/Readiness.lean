import WindowTransitions.Proofs.Rest
import WindowTransitions.Proofs.StartOrder

/-! Making a transition ready is atomic. Main statement: after every run `ready` fails exactly for a token that is
not active and for a transition that does not wait, before it has changed or called anything; once it has begun, no
later part of it can fail, whatever the handlers and the executor do meanwhile. -/

set_option autoImplicit false

namespace WindowTransitions

namespace Control

variable {η α ε : Type} [Handler η] [Authority α] [Executor ε] {w : Shell η α ε}

theorem ready_error_iff (ht : w.table.AtRest) (token : Token) (batch : Batch) (start : Transaction) (f : Fault)
    (w' : Shell η α ε) :
    (ready token batch start).run w = .error f w' ↔
      w' = w ∧ (w.table.get? token = none ∧ f = .unknownTransition token w.table.tokens ∨
        ∃ r, w.table.get? token = some r ∧ r.phase ≠ .pending ∧ f = .duplicateReady token) := by
  have hout := ready_outcome ht token batch start
  generalize (ready token batch start).run w = result at hout
  cases hout with
  | unknown h =>
    constructor
    · intro he
      cases he
      exact ⟨rfl, .inl ⟨h, rfl⟩⟩
    · rintro ⟨rfl, ⟨_, rfl⟩ | ⟨r, hr, _⟩⟩
      · rfl
      · cases h.symm.trans hr
  | duplicate h hp =>
    constructor
    · intro he
      cases he
      exact ⟨rfl, .inr ⟨_, h, hp, rfl⟩⟩
    · rintro ⟨rfl, ⟨hn, _⟩ | ⟨r, _, _, rfl⟩⟩
      · cases h.symm.trans hn
      · rfl
  | rootless h hp | owned h hp | faded h hp | unfaded h hp =>
    constructor
    · intro he
      cases he
    · rintro ⟨_, ⟨hn, _⟩ | ⟨r, hr, hne, _⟩⟩
      · cases h.symm.trans hn
      · obtain rfl := Option.some.inj (h.symm.trans hr)
        exact absurd hp hne

theorem ready_ok_iff (ht : w.table.AtRest) (token : Token) (batch : Batch) (start : Transaction) :
    (∃ w', (ready token batch start).run w = .ok () w') ↔ ∃ r, w.table.get? token = some r ∧ r.phase = .pending := by
  have hout := ready_outcome ht token batch start
  generalize (ready token batch start).run w = result at hout
  cases hout with
  | unknown h =>
    refine ⟨fun ⟨_, he⟩ => (by cases he), ?_⟩
    rintro ⟨r, hr, _⟩
    cases h.symm.trans hr
  | duplicate h hp =>
    refine ⟨fun ⟨_, he⟩ => (by cases he), ?_⟩
    rintro ⟨r, hr, hp'⟩
    obtain rfl := Option.some.inj (h.symm.trans hr)
    exact absurd hp' hp
  | rootless h hp | owned h hp | faded h hp | unfaded h hp => exact ⟨fun _ => ⟨_, h, hp⟩, fun _ => ⟨_, rfl⟩⟩

end Control

namespace Shell

variable {η α ε : Type} [Handler η] [Authority α] [Executor ε]

/-- After every run, whatever has come to the shell: `ready` fails exactly if its token is not active, and then names
all active tokens in the order of their starts, or if its transition has had a batch already; the shell, its stage
and journal included, is then as it was before. In all other cases, which are those of a waiting transition, it
succeeds. -/
theorem run_readiness (config : Config) (authority : α) (executor : ε) (moves : List (Move η)) (token : Token)
    (batch : Batch) (start : Transaction) :
    let w := (fresh config authority executor : Shell η α ε).run moves
    (∀ f w', (Control.ready token batch start).run w = .error f w' ↔
        w' = w ∧ (w.table.get? token = none ∧ f = .unknownTransition token (Event.unfinished w.stage.events) ∨
          ∃ r, w.table.get? token = some r ∧ r.phase ≠ .pending ∧ f = .duplicateReady token)) ∧
      ((∃ w', (Control.ready token batch start).run w = .ok () w') ↔
        ∃ r, w.table.get? token = some r ∧ r.phase = .pending) ∧
      w.table.tokens = Event.unfinished w.stage.events := by
  intro w
  have hw : w.table.AtRest ∧ w.Ordered :=
    kept_ordered.run moves _ ⟨(resting_fresh config authority executor).1, rfl⟩
  have hordered : w.table.tokens = Event.unfinished w.stage.events := hw.2
  refine ⟨fun f w' => ?_, Control.ready_ok_iff hw.1 token batch start, hordered⟩
  rw [← hordered]
  exact Control.ready_error_iff hw.1 token batch start f w'

end Shell

end WindowTransitions
