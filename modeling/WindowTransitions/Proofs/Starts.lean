import WindowTransitions.Proofs.Negotiation
import WindowTransitions.Proofs.Rest
import WindowTransitions.Proofs.Strokes

/-! Starting a transition is atomic. Main statement: after every run a start fails for a placeholder that is active or
a handler that is not registered, before anybody is called; else the authority is called once, and either the token it
returns is active already, and nothing else has changed, or a record of its own is added for that token. -/

set_option autoImplicit false

namespace WindowTransitions

namespace Shell

/-! ## Handlers that post nothing -/

section Quiet
variable {η α ε : Type}

/-- Visits that post nothing are noted, and that is all. -/
theorem foldl_visited_quiet (w : Shell η α ε) {visits : List Visit} (hq : ∀ v ∈ visits, v.posted = []) :
    visits.foldl visited w =
      { w with stage := { w.stage with journal := w.stage.journal ++ visits.map Visit.call } } := by
  induction visits generalizing w with
  | nil => simp
  | cons v visits ih =>
    have hv : v.posted = [] := hq v List.mem_cons_self
    rw [List.foldl_cons, ih (w.visited v) fun u hu => hq u (List.mem_cons_of_mem v hu)]
    simp [visited, hv, Stage.note]

theorem asked_quiet [Handler η] (w : Shell η α ε) {kind : Kind} {placeholder : Token} {trigger : Option Trigger}
    (hq : ∀ a ∈ w.handlers, (Handler.request a kind placeholder trigger).posted = []) :
    w.asked kind placeholder trigger =
      { w with
        handlers := (w.handlers.negotiate kind placeholder trigger).handlers
        stage := { w.stage with
          journal := w.stage.journal ++ (w.handlers.negotiate kind placeholder trigger).visits.map Visit.call } } :=
  foldl_visited_quiet _ (Registry.negotiate_quiet hq)

theorem asks_of_negotiation [Handler η] (r : Registry η) (kind : Kind) (placeholder : Token)
    (trigger : Option Trigger) :
    ∀ e ∈ (r.negotiate kind placeholder trigger).visits.map Visit.call,
      ∃ id kind token trigger, e = .asked id kind token trigger := by
  intro e he
  obtain ⟨v, hv, rfl⟩ := List.mem_map.mp he
  obtain ⟨_, id, _, rfl⟩ := r.negotiate_visits kind placeholder trigger v hv
  exact ⟨id, kind, placeholder, trigger, rfl⟩

end Quiet

variable {η α ε : Type} [Authority α] {w w' : Shell η α ε} {kind : Kind} {placeholder : Option Token}
  {containers : Option Container.Transaction} {assigned : Option HandlerId} {handlers : Registry η}
  {asks : List Entry} {token : Token}

/-! ## How a start comes out -/

/-- From `w` to `w'` handlers have been asked, which leaves `handlers`, and the authority has been called once, for a
start. `reports` apart nothing more is noted, and of all that is not named here nothing has changed. -/
structure Calls (w w' : Shell η α ε) (handlers : Registry η) (asks : List Entry) (kind : Kind)
    (placeholder : Option Token) (containers : Option Container.Transaction) (reports : List Event) : Prop where
  handlers : w'.handlers = handlers
  authority : w'.authority = (Authority.start w.authority kind placeholder containers).2
  journal : w'.stage.journal =
    w.stage.journal ++ asks ++ .startCalled kind placeholder containers :: reports.map Entry.event
  asks : ∀ e ∈ asks, ∃ id kind token trigger, e = .asked id kind token trigger
  events : w'.stage.events = w.stage.events ++ reports
  transactions : w'.stage.transactions = w.stage.transactions
  queue : w'.stage.queue = w.stage.queue
  jobs : w'.stage.jobs = w.stage.jobs
  isOpen : w'.stage.isOpen = w.stage.isOpen
  generation : w'.generation = w.generation + 1
  rest : w'.config = w.config ∧ w'.executor = w.executor ∧ w'.nextAnimation = w.nextAnimation

/-- How a start comes out once the authority is called. -/
inductive Begins (w : Shell η α ε) (handlers : Registry η) (asks : List Entry) (kind : Kind)
    (placeholder : Option Token) (containers : Option Container.Transaction) (assigned : Option HandlerId) :
    EStateM.Result Fault (Shell η α ε) Token → Prop where
  | refused {token : Token} {w' : Shell η α ε}
      (hs : (Authority.start w.authority kind placeholder containers).1 = token)
      (ha : w.table.contains token = true) (hc : w.Calls w' handlers asks kind placeholder containers [])
      (ht : w'.table = w.table) :
      Begins w handlers asks kind placeholder containers assigned (.error (.duplicateStart token) w')
  | entered {token : Token} {w' : Shell η α ε}
      (hs : (Authority.start w.authority kind placeholder containers).1 = token)
      (ha : w.table.contains token = false)
      (hc : w.Calls w' handlers asks kind placeholder containers [.started token kind assigned])
      (ht : w'.table = w.table ++ [(token,
        { kind, phase := .pending, assigned, owner := none, fades := none, generation := w.generation + 1 })]) :
      Begins w handlers asks kind placeholder containers assigned (.ok token w')

theorem filterMap_asks {β : Type} {f : Entry → Option β}
    (hf : ∀ id kind token trigger, f (.asked id kind token trigger) = none)
    (hasks : ∀ e ∈ asks, ∃ id kind token trigger, e = .asked id kind token trigger) : asks.filterMap f = [] := by
  rw [List.filterMap_eq_nil_iff]
  intro e he
  obtain ⟨id, kind, token, trigger, rfl⟩ := hasks e he
  exact hf id kind token trigger

theorem calls_of_journal (table : Table) {reports : List Event}
    (hasks : ∀ e ∈ asks, ∃ id kind token trigger, e = .asked id kind token trigger) :
    w.Calls
      { w with
        handlers
        table
        authority := (Authority.start w.authority kind placeholder containers).2
        generation := w.generation + 1
        stage := { w.stage with
          journal := w.stage.journal ++ asks ++ .startCalled kind placeholder containers ::
            reports.map Entry.event } }
      handlers asks kind placeholder containers reports where
  handlers := rfl
  authority := rfl
  journal := rfl
  asks := hasks
  events := by
    have hnone := filterMap_asks (f := Entry.event?) (fun _ _ _ _ => rfl) hasks
    have hreports : (reports.map Entry.event).filterMap Entry.event? = reports := by
      rw [List.filterMap_map]
      exact List.filterMap_some
    rw [Stage.events, List.filterMap_append, List.filterMap_append, hnone, List.append_nil,
      List.filterMap_cons_none rfl, hreports, Stage.events]
  transactions := by
    have hnone := filterMap_asks (f := Entry.transaction?) (fun _ _ _ _ => rfl) hasks
    simp [Stage.transactions, hnone, Entry.transaction?]
  queue := rfl
  jobs := rfl
  isOpen := rfl
  generation := rfl
  rest := ⟨rfl, rfl, rfl⟩

theorem begins_of_outcome {v : Shell η α ε} {result : EStateM.Result Fault (Shell η α ε) Token}
    (hv : v = { w with handlers, stage := { w.stage with journal := w.stage.journal ++ asks } })
    (hasks : ∀ e ∈ asks, ∃ id kind token trigger, e = .asked id kind token trigger)
    (h : Control.StartOutcome v kind placeholder containers assigned result) :
    w.Begins handlers asks kind placeholder containers assigned result := by
  subst hv
  cases h with
  | @refused token r hs h =>
    have hr : w.table.get? token = some r := h
    have hcalls : w.Calls _ handlers asks kind placeholder containers [] := calls_of_journal w.table hasks
    exact .refused hs (by simp [Table.contains, hr]) hcalls rfl
  | @entered token hs h =>
    have hn : w.table.get? token = none := h
    have hcalls : w.Calls _ handlers asks kind placeholder containers [.started token kind assigned] :=
      calls_of_journal (w.table ++ [(token, { kind, assigned, generation := w.generation + 1 })]) hasks
    refine .entered hs (by simp [Table.contains, hn]) ?_ rfl
    simpa [called, entered, Stage.note] using hcalls

theorem start_begins {kind : Kind} {containers : Container.Transaction} {handler : Option HandlerId}
    (hr : ∀ id, handler = some id → w.handlers.contains id = true) :
    w.Begins w.handlers [] kind none (some containers) handler ((Control.start kind containers handler).run w) := by
  rcases Control.start_outcome w kind containers handler with ⟨id, hid, hc, _⟩ | ⟨_, h⟩
  · rw [hr id hid] at hc
    cases hc
  · exact begins_of_outcome (by simp) (by simp) h

theorem request_begins [Handler η] {kind : Kind} {placeholder : Token} {trigger : Option Trigger}
    (hq : ∀ a ∈ w.handlers, (Handler.request a kind placeholder trigger).posted = [])
    (hp : w.table.contains placeholder = false) :
    w.Begins (w.handlers.negotiate kind placeholder trigger).handlers
      ((w.handlers.negotiate kind placeholder trigger).visits.map Visit.call) kind (some placeholder)
      ((w.handlers.negotiate kind placeholder trigger).claim.map (·.2))
      ((w.handlers.negotiate kind placeholder trigger).claim.map (·.1))
      ((Control.request kind placeholder trigger).run w) := by
  rcases Control.request_outcome w kind placeholder trigger with ⟨hc, _⟩ | ⟨_, h⟩
  · rw [hp] at hc
    cases hc
  · exact begins_of_outcome (w.asked_quiet hq) (asks_of_negotiation w.handlers kind placeholder trigger) h

theorem Begins.contains_iff {token : Token} {w' : Shell η α ε}
    (h : w.Begins handlers asks kind placeholder containers assigned (.ok token w')) (other : Token) :
    w'.table.contains other = true ↔ w.table.contains other = true ∨ other = token := by
  cases h with
  | entered hs ha hc ht =>
    rw [ht, Table.contains, Table.get?_append_singleton, Table.contains]
    by_cases h : token = other
    · simp [h]
    · simp [h, Ne.symm h]

/-! ## Generations -/

section Runs
variable [Handler η] [Executor ε]

theorem run_starts_le (moves : List (Move η)) (w : Shell η α ε) (ht : w.table.AtRest) :
    w.stage.starts ≤ (w.run moves).stage.starts := by
  have hkept : Kept fun v : Shell η α ε => v.table.AtRest ∧ w.stage.starts ≤ v.stage.starts := by
    refine kept_of_steps (fun v a hv => hv) ?_ ?_
    · intro v m rest _ hv
      rwa [take_starts]
    · intro v ticket v' _ hv h
      exact hv.trans h.starts_le
  exact (hkept.run moves w ⟨ht, Nat.le_refl _⟩).2

/-- The generation that comes next is above all that any record has had in the run. -/
theorem generation_lt_next (config : Config) (authority : α) (executor : ε) (moves : List (Move η))
    (hs : ((fresh config authority executor : Shell η α ε).run moves).stage.starts + 1 < 2 ^ 64)
    {before after : List (Move η)}
    (hsplit : (fresh config authority executor : Shell η α ε).singly moves = before ++ after) :
    ∀ e ∈ ((fresh config authority executor : Shell η α ε).run before).table,
      e.2.generation < ((fresh config authority executor : Shell η α ε).run moves).generation + 1 := by
  intro e he
  obtain ⟨_, hrun⟩ := kept_resting.run moves _ (resting_fresh (η := η) config authority executor)
  obtain ⟨hat, hbefore⟩ := kept_resting.run before _ (resting_fresh (η := η) config authority executor)
  have hle := run_starts_le after _ hat
  rw [← run_append, ← hsplit, run_singly] at hle
  have hbound := ((hbefore.dated (by omega)).bounds e he).2
  rw [UInt64.lt_iff_toNat_lt, UInt64.toNat_add, hrun.counted.toNat_generation (by omega)]
  change _ < (_ + 1) % _
  omega

/-- After every run a start is atomic, whatever tokens the authority returns. A request under an active placeholder
and a start for a handler that is not registered fail with everything as it was. Else the authority is called once.
A token that is active already is refused: its record, all others, the events, what is drawn, the jobs and the queue
stay as they are. Any other token gets a record behind all others and is reported as started once; it becomes active,
and the placeholder does not. The generation of its record is above every earlier one of the run. -/
theorem run_start_atomic (config : Config) (authority : α) (executor : ε) (moves : List (Move η)) :
    let w := (fresh config authority executor : Shell η α ε).run moves
    (∀ kind placeholder trigger,
        (w.table.contains placeholder = true →
          (Control.request kind placeholder trigger).run w = .error (.duplicateStart placeholder) w) ∧
        (w.table.contains placeholder = false →
          (∀ a ∈ w.handlers, (Handler.request a kind placeholder trigger).posted = []) →
          w.Begins (w.handlers.negotiate kind placeholder trigger).handlers
              ((w.handlers.negotiate kind placeholder trigger).visits.map Visit.call) kind (some placeholder)
              ((w.handlers.negotiate kind placeholder trigger).claim.map (·.2))
              ((w.handlers.negotiate kind placeholder trigger).claim.map (·.1))
              ((Control.request kind placeholder trigger).run w) ∧
            ∀ token w', (Control.request kind placeholder trigger).run w = .ok token w' →
              w'.table.contains token = true ∧ (placeholder ≠ token → w'.table.contains placeholder = false))) ∧
      (∀ kind containers handler,
        (∀ id, handler = some id → w.handlers.contains id = false →
          (Control.start kind containers handler).run w = .error (.unknownHandler id) w) ∧
        ((∀ id, handler = some id → w.handlers.contains id = true) →
          w.Begins w.handlers [] kind none (some containers) handler
            ((Control.start kind containers handler).run w))) ∧
      (w.stage.starts + 1 < 2 ^ 64 → ∀ before after,
        (fresh config authority executor : Shell η α ε).singly moves = before ++ after →
          ∀ e ∈ ((fresh config authority executor : Shell η α ε).run before).table,
            e.2.generation < w.generation + 1) := by
  intro w
  refine ⟨fun kind placeholder trigger => ⟨fun hp => ?_, fun hp hq => ?_⟩, fun kind containers handler => ⟨?_, ?_⟩, ?_⟩
  · rcases Control.request_outcome w kind placeholder trigger with ⟨_, h⟩ | ⟨hn, _⟩
    · exact h
    · rw [hp] at hn
      cases hn
  · have hbegins := request_begins hq hp
    refine ⟨hbegins, fun token w' hr => ?_⟩
    rw [hr] at hbegins
    refine ⟨(hbegins.contains_iff token).mpr (.inr rfl), fun hne => ?_⟩
    rw [← Bool.not_eq_true, hbegins.contains_iff]
    simp [hp, hne]
  · rintro id rfl hn
    rcases Control.start_outcome w kind containers (some id) with ⟨id', hid, _, h⟩ | ⟨hr, _⟩
    · cases hid
      exact h
    · rw [hr id rfl] at hn
      cases hn
  · exact start_begins
  · exact fun hs before after hsplit => generation_lt_next config authority executor moves hs hsplit

/-- One transition under a token that the authority is about to issue. -/
def nearCollision : List (Move Rehearsal.Actor) :=
  [.addHandler { name := "keen", manner := .steady true, claims := some [] }, .request .opening ⟨1⟩ none]

theorem run_start_atomic_collision :
    let w := (fresh {} (⟨0, false⟩ : Rehearsal.Issuer) Rehearsal.Pace.keeps).run nearCollision
    (Control.request .closing ⟨1⟩ none).run w = .error (.duplicateStart ⟨1⟩) w ∧
      (Control.start .closing [] (some ⟨1⟩)).run w = .error (.unknownHandler ⟨1⟩) w ∧
      (w.table.contains (Authority.start w.authority .closing none (some [])).1 = true ∧
        w.Begins w.handlers [] .closing none (some []) none ((Control.start .closing [] none).run w)) ∧
      (∃ token w', (Control.request .closing ⟨9⟩ none).run w = .ok token w' ∧ w'.table.contains token = true) ∧
      ∀ e ∈ w.table, e.2.generation < w.generation + 1 := by
  intro w
  obtain ⟨hrequest, hstart, hgeneration⟩ :=
    run_start_atomic {} (⟨0, false⟩ : Rehearsal.Issuer) Rehearsal.Pace.keeps nearCollision
  refine ⟨(hrequest .closing ⟨1⟩ none).1 (by decide), (hstart .closing [] (some ⟨1⟩)).1 ⟨1⟩ rfl (by decide),
    ⟨by decide, (hstart .closing [] none).2 (by simp)⟩, ⟨⟨9⟩, _, rfl, ?_⟩, ?_⟩
  · exact (((hrequest .closing ⟨9⟩ none).2 (by decide) fun _ _ => rfl).2 ⟨9⟩ _ rfl).1
  · exact hgeneration (by decide) nearCollision [] rfl

end Runs

end Shell

end WindowTransitions
