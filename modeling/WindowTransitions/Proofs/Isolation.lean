import WindowTransitions.Proofs.Lives
import WindowTransitions.Proofs.Rest

/-! Transitions apart from each other. Whatever is asked of the shell is about one transition: a message or a call
names its token, and a start is about the token that the authority gives it. Main statement: after every run all
other transitions are left alone, in their records and in their order; the reports that are added are about this
transition, and the authority can be told of its finish only. -/

set_option autoImplicit false

namespace WindowTransitions

/-- Tables that agree up to the record of `token` agree on all others. -/
theorem Table.get?_of_remove {t t' : Table} {token other : Token} (h : t'.remove token = t.remove token)
    (ho : other ≠ token) : t'.get? other = t.get? other := by
  rw [← get?_remove_other ho, h, get?_remove_other ho]

namespace Shell

variable {η α ε : Type}

/-! ## What a call is about -/

section About
variable [Handler η] [Authority α]

/-- The token that a request is about: the placeholder, if it is active already, and otherwise the token that the
authority gives the transition when the handlers have been asked. -/
def aboutRequest (w : Shell η α ε) (kind : Kind) (placeholder : Token) (trigger : Option Trigger) : Token :=
  if w.table.contains placeholder then placeholder
  else (Authority.start w.authority kind (some placeholder)
    ((w.handlers.negotiate kind placeholder trigger).claim.map (·.2))).1

def aboutMessage (w : Shell η α ε) : Message → Option Token
  | .ready token _ _ => some token
  | .request kind placeholder trigger => some (w.aboutRequest kind placeholder trigger)
  | .handlerDone ticket => some ticket.token
  | .fadeDone token _ => some token
  | .shutdown => none

/-- The token that a call of the shell is about, if it is about one transition. -/
def about (w : Shell η α ε) : Move η → Option Token
  | .request kind placeholder trigger => some (w.aboutRequest kind placeholder trigger)
  | .start kind containers _ => some (Authority.start w.authority kind none (some containers)).1
  | .ready token _ _ => some token
  | .process message => w.aboutMessage message
  | .addHandler _ | .drain _ | .post _ | .act _ => none

end About

/-! ## Steps confined to one transition -/

/-- All that the step from `w` to `w'` does to transitions it does to that of `token`. -/
structure Confined (w w' : Shell η α ε) (token : Token) : Prop where
  records : ∀ other, other ≠ token → w'.table.get? other = w.table.get? other
  order : w'.table.tokens.filter (· ≠ token) = w.table.tokens.filter (· ≠ token)
  reports : ∃ more, w'.stage.events = w.stage.events ++ more ∧ ∀ e ∈ more, e.token = token
  finishes : w'.stage.finishCalls = w.stage.finishCalls ∨ w'.stage.finishCalls = w.stage.finishCalls ++ [token]

variable {w w' : Shell η α ε} {token : Token}

theorem Confined.refl (w : Shell η α ε) (token : Token) : w.Confined w token :=
  ⟨fun _ _ => rfl, rfl, ⟨[], by simp⟩, .inl rfl⟩

theorem Confined.of_take {m : Message} {rest : List Message} (h : (w.take m rest).Confined w' token) :
    w.Confined w' token where
  records := h.records
  order := h.order
  reports := by
    rw [← take_events w m rest]
    exact h.reports
  finishes := by
    rw [← take_finishCalls w m rest]
    exact h.finishes

variable [Authority α]

/-- A step that changes one record at most and whose reports and finishes are about it. -/
theorem LeadsTo.confined {t : Table} {calls : List Entry} (h : w.LeadsTo w' t calls)
    (ht : t.remove token = w.table.remove token) (he : ∀ e ∈ calls.filterMap Entry.event?, e.token = token)
    (hf : calls.filterMap Entry.finishCall? = [] ∨ calls.filterMap Entry.finishCall? = [token]) :
    w.Confined w' token where
  records other ho := by
    rw [h.table]
    exact Table.get?_of_remove ht ho
  order := by rw [h.table, ← Table.tokens_remove, ht, Table.tokens_remove]
  reports := ⟨_, h.stage.events, he⟩
  finishes := by
    rw [h.stage.finishCalls]
    rcases hf with hf | hf <;> simp [hf]

theorem left_confined (w : Shell η α ε) (token : Token) (phase : Phase) : w.Confined (w.left token phase) token :=
  (w.leadsTo_left token phase).confined (by simp [Table.remove]) (by simp [Event.token]) (.inr rfl)

/-! ## The operations -/

theorem handlerDone_confined (ht : w.table.AtRest) (ticket : Ticket) :
    w.Confined ((Control.handlerDone ticket).perform w).2 ticket.token := by
  by_cases h : w.table.Honours ticket
  · rw [Control.perform_of_ok (Control.run_handlerDone ht h)]
    exact w.left_confined ticket.token .animating
  · rw [Control.perform_of_ok (Control.run_handlerDone_ignored h)]
    exact .refl w _

theorem fadeDone_confined (ht : w.table.AtRest) (token : Token) (a : AnimationId) :
    w.Confined ((Control.fadeDone token a).perform w).2 token := by
  have hout := Control.fadeDone_outcome ht token a
  generalize hr : (Control.fadeDone token a).run w = result at hout
  cases hout with
  | unknown h =>
    rw [Control.perform_of_error hr]
    exact .refl w token
  | untracked h ha =>
    rw [Control.perform_of_ok hr]
    exact .refl w token
  | @fewer r fades h hf ha hm =>
    rw [Control.perform_of_ok hr]
    have hput : w.LeadsTo { w with table := w.table.put token { r with fades := some (fades.erase a) } }
        (w.table.put token { r with fades := some (fades.erase a) }) [] :=
      ⟨rfl, .refl w.stage, rfl, by simp, by simp, rfl⟩
    exact hput.confined Table.remove_put (by simp) (.inl rfl)
  | last h hf ha hm =>
    rw [Control.perform_of_ok hr]
    exact w.left_confined token .animating

/-- A start after calls that concern no transition. -/
theorem confined_of_start {v : Shell η α ε} {kind : Kind} {placeholder : Option Token}
    {containers : Option Container.Transaction} {assigned : Option HandlerId} {calls : List Entry}
    {c : Control η α ε Token} (hv : w.LeadsTo v w.table calls) (hc : ∀ e ∈ calls, e.isPrelude = true)
    (hs : (Authority.start v.authority kind placeholder containers).1 = token) (u : Shell η α ε)
    (h : Control.StartOutcome v kind placeholder containers assigned (c.run u)) :
    w.Confined (c.perform u).2 token := by
  have hcalled := hv.trans (v.leadsTo_called kind placeholder containers)
  obtain ⟨hreports, hfinishes⟩ := preludes_report_nothing hc
  generalize hr : c.run u = result at h
  cases h with
  | refused hs' h' =>
    rw [Control.perform_of_error hr]
    refine hcalled.confined (by rw [hv.table]) ?_ (.inl ?_)
    · simp [hreports, Entry.event?]
    · simp [hfinishes, Entry.finishCall?]
  | @entered started hs' h' =>
    obtain rfl : started = token := hs'.symm.trans hs
    rw [Control.perform_of_ok hr]
    have hentered := hcalled.trans ((v.called kind placeholder containers).leadsTo_entered started kind assigned)
    refine hentered.confined ?_ ?_ (.inl ?_)
    · simp [called, hv.table, Table.remove]
    · simp [hreports, Entry.event?, Event.token]
    · simp [hfinishes, Entry.finishCall?]

theorem start_confined (w : Shell η α ε) (kind : Kind) (containers : Container.Transaction)
    (handler : Option HandlerId) :
    w.Confined ((Control.start kind containers handler).perform w).2
      (Authority.start w.authority kind none (some containers)).1 := by
  rcases Control.start_outcome w kind containers handler with ⟨_, _, _, h⟩ | ⟨_, h⟩
  · rw [Control.perform_of_error h]
    exact .refl w _
  · have hw : w.LeadsTo w w.table [] := ⟨rfl, .refl w.stage, rfl, by simp, by simp, rfl⟩
    exact confined_of_start hw (by simp) rfl w h

variable [Handler η]

theorem request_confined (w : Shell η α ε) (kind : Kind) (placeholder : Token) (trigger : Option Trigger) :
    w.Confined ((Control.request kind placeholder trigger).perform w).2 (w.aboutRequest kind placeholder trigger) := by
  rcases Control.request_outcome w kind placeholder trigger with ⟨_, h⟩ | ⟨hn, h⟩
  · rw [Control.perform_of_error h]
    exact .refl w _
  · have hasks := asks_are_preludes (w.handlers.negotiate_visits kind placeholder trigger)
    refine confined_of_start (w.leadsTo_asked kind placeholder trigger) hasks ?_ w h
    rw [aboutRequest, hn, asked, withVisits_eq]
    rfl

/-- A dispatch is confined to its transition if what comes after the offers is. -/
theorem confined_of_dispatch {d : Registry.Dispatch η} {generation : UInt64} {batch : Batch} {t : Table}
    {tail : List Entry} (hd : d.Sound token generation batch w.handlers)
    (h : w.LeadsTo w' t (.event (.phaseChanged token .pending .dispatching) :: d.visits.map Visit.call ++ tail))
    (ht : t.remove token = w.table.remove token) (he : ∀ e ∈ tail.filterMap Entry.event?, e.token = token)
    (hf : tail.filterMap Entry.finishCall? = [] ∨ tail.filterMap Entry.finishCall? = [token]) :
    w.Confined w' token := by
  obtain ⟨hreports, hfinishes⟩ := offers_report_nothing hd
  refine h.confined ht ?_ ?_
  · simpa [hreports, Event.token] using he
  · simpa [List.filterMap_cons, hfinishes] using hf

theorem ready_confined [Executor ε] (ht : w.table.AtRest) (token : Token) (batch : Batch) (start : Transaction) :
    w.Confined ((Control.ready token batch start).perform w).2 token := by
  have hout := Control.ready_outcome ht token batch start
  have hd := fun assigned generation =>
    Registry.dispatch_sound token generation batch assigned w.handlers (start ++ batch.startState)
  generalize hr : (Control.ready token batch start).run w = result at hout
  cases hout with
  | unknown | duplicate =>
    rw [Control.perform_of_error hr]
    exact .refl w token
  | rootless h hp hb =>
    rw [Control.perform_of_ok hr]
    obtain ⟨kind, assigned, generation, rfl⟩ := ht.pending h hp
    exact (w.leadsTo_rootless token kind assigned generation start).confined (by simp [Table.remove])
      (by simp [Event.token]) (.inr rfl)
  | @owned r owner h hp hb ho =>
    rw [Control.perform_of_ok hr]
    obtain ⟨kind, assigned, generation, rfl⟩ := ht.pending h hp
    exact confined_of_dispatch (hd assigned generation)
      (w.leadsTo_owned token kind assigned generation batch start owner) Table.remove_put (by simp [Event.token])
      (.inl rfl)
  | faded h hp hb ho hn =>
    rw [Control.perform_of_ok hr]
    obtain ⟨kind, assigned, generation, rfl⟩ := ht.pending h hp
    exact confined_of_dispatch (hd assigned generation)
      (w.leadsTo_fading token kind assigned generation batch start) Table.remove_put (by simp [Event.token]) (.inl rfl)
  | unfaded h hp hb ho hn =>
    rw [Control.perform_of_ok hr]
    obtain ⟨kind, assigned, generation, rfl⟩ := ht.pending h hp
    exact confined_of_dispatch (hd assigned generation)
      (w.leadsTo_unfaded token kind assigned generation batch start hn) (by simp [Table.remove])
      (by simp [Event.token]) (.inr rfl)

theorem process_confined [Executor ε] (ht : w.table.AtRest) (m : Message) (hm : w.aboutMessage m = some token) :
    w.Confined ((Control.process m).perform w).2 token := by
  rw [Control.perform_process]
  cases m with
  | ready =>
    cases hm
    exact ready_confined ht token _ _
  | request kind placeholder trigger =>
    cases hm
    exact w.request_confined kind placeholder trigger
  | handlerDone ticket =>
    cases hm
    exact handlerDone_confined ht ticket
  | fadeDone =>
    cases hm
    exact fadeDone_confined ht token _
  | shutdown => cases hm

theorem move_confined [Executor ε] (ht : w.table.AtRest) (m : Move η) (hm : w.about m = some token) :
    w.Confined (w.move m).2 token := by
  cases m with
  | request kind placeholder trigger =>
    cases hm
    exact w.request_confined kind placeholder trigger
  | start kind containers handler =>
    cases hm
    exact w.start_confined kind containers handler
  | ready =>
    cases hm
    exact ready_confined ht token _ _
  | process m => exact process_confined ht m hm
  | addHandler | drain | post | act => cases hm

/-! ## Runs -/

/-- After every run, whatever has come to the shell: a call that is about one transition leaves the records of all
others as they are, in every field, and their order too, whether it succeeds or fails and whatever handlers, executor
and jobs do meanwhile; the reports that it adds are about this transition, and the authority is told of one finish at
most, which is that of this transition. The same holds of each message taken from the queue. -/
theorem run_isolated [Executor ε] (config : Config) (authority : α) (executor : ε) (moves : List (Move η)) :
    let w := (fresh config authority executor : Shell η α ε).run moves
    (∀ m token, w.about m = some token → w.Confined (w.move m).2 token) ∧
      ∀ m rest token, w.stage.queue = m :: rest → w.aboutMessage m = some token →
        w.Confined (w.receive m rest).2 token := by
  intro w
  have hw : w.table.AtRest := kept_atRest.run moves _ (resting_fresh config authority executor).1
  refine ⟨fun m token hm => move_confined hw m hm, fun m rest token _ hm => ?_⟩
  exact Confined.of_take (process_confined (w := w.take m rest) hw m hm)

/-- Three transitions, of which the second has had its batch; its fade has ended at once, and the news is queued. -/
def middleReady : List (Move Rehearsal.Actor) :=
  [.start .opening [] none, .start .closing [] none, .start .opening [] none,
    .ready ⟨2⟩ { kind := .closing, root := some ⟨1⟩, participants := [{ surface := ⟨2⟩, mode := .closing }] } []]

theorem run_isolated_middle :
    let w := (fresh {} (⟨0, false⟩ : Rehearsal.Issuer) (Rehearsal.Pace.ends .finish)).run middleReady
    w.table.tokens = [⟨1⟩, ⟨2⟩, ⟨3⟩] ∧ w.stage.queue = [.fadeDone ⟨2⟩ ⟨0⟩] ∧
      (w.receive (.fadeDone ⟨2⟩ ⟨0⟩) []).2.table.tokens = [⟨1⟩, ⟨3⟩] ∧
      w.Confined (w.receive (.fadeDone ⟨2⟩ ⟨0⟩) []).2 ⟨2⟩ ∧
      w.Confined (w.move (.ready ⟨3⟩ { kind := .opening } [])).2 ⟨3⟩ := by
  obtain ⟨hcalls, hmessages⟩ :=
    run_isolated {} (⟨0, false⟩ : Rehearsal.Issuer) (Rehearsal.Pace.ends .finish) middleReady
  exact ⟨by decide, by decide, by decide, hmessages (.fadeDone ⟨2⟩ ⟨0⟩) [] ⟨2⟩ (by decide) rfl,
    hcalls (.ready ⟨3⟩ { kind := .opening } []) ⟨3⟩ rfl⟩

end Shell

end WindowTransitions
