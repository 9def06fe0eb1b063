import WindowTransitions.Proofs.Negotiation
import WindowTransitions.Proofs.Tickets

/-! From the claim of a request to the first offer of the transition. Main statement: the handler that claims a
request is the one that the transition is offered first, under the token that the authority has returned, whatever
comes to the shell in between; if nobody is assigned, the first offer goes to the handler registered last by then. -/

set_option autoImplicit false

namespace WindowTransitions

namespace Shell

variable {η α ε : Type} [Authority α] {w w' v : Shell η α ε}

/-! ## Starts -/

/-- From `w` to `w'` a transition has been started under `token`, after handlers were asked. -/
structure Tracks (w w' : Shell η α ε) (handlers : Registry η) (asks : List Entry) (kind : Kind)
    (placeholder : Option Token) (containers : Option Container.Transaction) (assigned : Option HandlerId)
    (token : Token) : Prop where
  handlers : w'.handlers = handlers
  issued : Authority.start w.authority kind placeholder containers = (token, w'.authority)
  log : w'.stage.log =
    w.stage.log ++ asks ++ [.startCalled kind placeholder containers, .event (.started token kind assigned)]
  record : w'.table.get? token = some { kind, assigned, generation := w'.generation }

theorem tracks_of_outcome {kind : Kind} {placeholder : Option Token} {containers : Option Container.Transaction}
    {assigned : Option HandlerId} {asks : List Entry} {token : Token} {t : Table} (hv : w.LeadsTo v t asks)
    (ha : v.authority = w.authority)
    (h : Control.StartOutcome v kind placeholder containers assigned (.ok token w')) :
    w.Tracks w' v.handlers asks kind placeholder containers assigned token := by
  cases h with
  | entered hs hn =>
    have hleads := (hv.trans (v.leadsTo_called kind placeholder containers)).trans
      ((v.called kind placeholder containers).leadsTo_entered token kind assigned)
    refine ⟨rfl, ?_, ?_, ?_⟩
    · rw [← ha, ← hs]
      rfl
    · rw [hleads.stage.log, List.append_assoc asks, List.append_assoc]
      rfl
    · rw [hleads.table]
      exact Table.get?_append_new hn

theorem request_tracks [Handler η] {kind : Kind} {placeholder token : Token} {trigger : Option Trigger}
    (h : (Control.request kind placeholder trigger).run w = .ok token w') :
    w.Tracks w' (w.handlers.negotiate kind placeholder trigger).handlers
      ((w.handlers.negotiate kind placeholder trigger).visits.map Visit.call) kind (some placeholder)
      ((w.handlers.negotiate kind placeholder trigger).claim.map (·.2))
      ((w.handlers.negotiate kind placeholder trigger).claim.map (·.1)) token := by
  rcases Control.request_outcome w kind placeholder trigger with ⟨_, hr⟩ | ⟨_, hr⟩
  · cases hr.symm.trans h
  · rw [h] at hr
    have hauthority : (w.asked kind placeholder trigger).authority = w.authority := by rw [asked, withVisits_eq]
    have hhandlers : (w.asked kind placeholder trigger).handlers =
        (w.handlers.negotiate kind placeholder trigger).handlers := by rw [asked, withVisits_eq]
    have htracks := tracks_of_outcome (w.leadsTo_asked kind placeholder trigger) hauthority hr
    rwa [hhandlers] at htracks

/-- A start calls the authority after the handlers, also if it fails then. -/
theorem calls_of_outcome {u : Shell η α ε} {kind : Kind} {placeholder : Option Token}
    {containers : Option Container.Transaction} {assigned : Option HandlerId} {asks : List Entry} {t : Table}
    {c : Control η α ε Token} (hv : w.LeadsTo v t asks)
    (h : Control.StartOutcome v kind placeholder containers assigned (c.run u)) :
    (c.perform u).2.handlers = v.handlers ∧ ∃ reports : List Event, (c.perform u).2.stage.log =
      w.stage.log ++ asks ++ .startCalled kind placeholder containers :: reports.map Entry.event := by
  have hcalled := hv.trans (v.leadsTo_called kind placeholder containers)
  generalize hr : c.run u = result at h
  cases h with
  | refused =>
    rw [Control.perform_of_error hr]
    exact ⟨rfl, [], by rw [hcalled.stage.log, ← List.append_assoc, List.map_nil]⟩
  | @entered token =>
    have hentered := hcalled.trans (leadsTo_entered _ token kind assigned)
    rw [Control.perform_of_ok hr]
    refine ⟨rfl, [.started token kind assigned], ?_⟩
    rw [hentered.stage.log, List.append_assoc asks, ← List.append_assoc]
    rfl

/-- A request under a free placeholder goes to the handlers and then to the authority. -/
theorem request_calls [Handler η] {kind : Kind} {placeholder : Token} (trigger : Option Trigger)
    (hp : w.table.contains placeholder = false) :
    ((Control.request kind placeholder trigger).perform w).2.handlers =
        (w.handlers.negotiate kind placeholder trigger).handlers ∧
      ∃ reports : List Event, ((Control.request kind placeholder trigger).perform w).2.stage.log =
        w.stage.log ++ (w.handlers.negotiate kind placeholder trigger).visits.map Visit.call ++
          .startCalled kind (some placeholder) ((w.handlers.negotiate kind placeholder trigger).claim.map (·.2)) ::
            reports.map Entry.event := by
  rcases Control.request_outcome w kind placeholder trigger with ⟨hc, _⟩ | ⟨_, h⟩
  · cases hp.symm.trans hc
  · have hcalls := calls_of_outcome (w.leadsTo_asked kind placeholder trigger) h
    rwa [show (w.asked kind placeholder trigger).handlers = _ by rw [asked, withVisits_eq]] at hcalls

theorem start_tracks {kind : Kind} {containers : Container.Transaction} {handler : Option HandlerId} {token : Token}
    (h : (Control.start kind containers handler).run w = .ok token w') :
    w.Tracks w' w.handlers [] kind none (some containers) handler token := by
  rcases Control.start_outcome w kind containers handler with ⟨_, _, _, hr⟩ | ⟨_, hr⟩
  · cases hr.symm.trans h
  · rw [h] at hr
    have hstill : w.LeadsTo w w.table [] := ⟨rfl, .refl w.stage, rfl, by simp, by simp, rfl⟩
    exact tracks_of_outcome hstill rfl hr

/-! ## While a transition waits -/

/-- From `v` on a transition has waited under `token` and nobody has been offered it, or it has been dispatched. -/
def Awaits (v : Shell η α ε) (token : Token) (w : Shell η α ε) : Prop :=
  ∃ more, w.stage.log = v.stage.log ++ more ∧
    (.event (.phaseChanged token .pending .dispatching) ∈ more ∨
      w.table.get? token = v.table.get? token ∧ ∀ k ∈ tickets more, k.token ≠ token)

variable {token : Token} {kind : Kind} {assigned : Option HandlerId} {generation : UInt64}

omit [Authority α] in
theorem Awaits.refl (v : Shell η α ε) (token : Token) : v.Awaits token v :=
  ⟨[], (List.append_nil _).symm, .inr ⟨rfl, by simp [tickets]⟩⟩

theorem Awaits.add {t : Table} {calls : List Entry} {r : Record} (hw : v.Awaits token w)
    (hv : v.table.get? token = some r) (h : w.LeadsTo w' t calls)
    (hnext : w.table.get? token = some r → .event (.phaseChanged token .pending .dispatching) ∈ calls ∨
      t.get? token = some r ∧ ∀ k ∈ tickets calls, k.token ≠ token) : v.Awaits token w' := by
  obtain ⟨more, hlog, hcase⟩ := hw
  refine ⟨more ++ calls, by rw [h.stage.log, hlog, List.append_assoc], ?_⟩
  rcases hcase with hdispatched | ⟨hsame, htickets⟩
  · exact .inl (List.mem_append_left calls hdispatched)
  · rcases hnext (hsame.trans hv) with hdispatched | ⟨hwaits, htickets'⟩
    · exact .inl (List.mem_append_right more hdispatched)
    · refine .inr ⟨by rw [h.table, hwaits, hv], fun k hk => ?_⟩
      rw [tickets_append, List.mem_append] at hk
      exact hk.elim (htickets k) (htickets' k)

/-- Tickets of a dispatch are for its own transition. -/
theorem tickets_of_dispatch [Handler η] {other : Token} {batch : Batch} {d : Registry.Dispatch η} {r : Registry η}
    {tail : List Entry} (hd : d.Sound other generation batch r) (ht : tickets tail = []) (hne : other ≠ token) :
    ∀ k ∈ tickets (dispatching other d.visits ++ tail), k.token ≠ token := by
  intro k hk
  rw [tickets_append, ht, List.append_nil, tickets_dispatching] at hk
  obtain ⟨u, hu, hticket⟩ := List.mem_filterMap.mp hk
  obtain ⟨id, _, hticket'⟩ := (hd.visits u hu).ticket?
  rw [hticket, Option.some.injEq] at hticket'
  rwa [hticket']

theorem Awaits.step [Handler η] {ticket : Option Ticket} (hw : v.Awaits token w) (h : w.Step ticket w')
    (hv : v.table.get? token = some { kind, assigned, generation }) : v.Awaits token w' := by
  cases h with
  | idle hc h => exact hw.add hv h fun hwaits => .inr ⟨hwaits, by simp [tickets_preludes hc]⟩
  | @entered other _ _ calls hn _ hc _ h =>
    refine hw.add hv h fun hwaits => .inr ⟨?_, ?_⟩
    · have hne : token ≠ other := by
        rintro rfl
        cases hn.symm.trans hwaits
      rw [Table.get?_append_other hne, hwaits]
    · rw [tickets_append_of_nil rfl, tickets_preludes hc]
      simp
  | @tidied other _ _ _ hr h =>
    refine hw.add hv h fun hwaits => ?_
    by_cases hk : other = token
    · exact .inl (by simp [hk])
    · exact .inr ⟨by rw [Table.get?_remove_other (Ne.symm hk), hwaits], by simp [tickets, Entry.ticket?]⟩
  | @owned other _ _ _ _ _ _ hr hd _ h | @faded other _ _ _ _ _ _ hr hd _ _ h =>
    refine hw.add hv h fun hwaits => ?_
    by_cases hk : other = token
    · exact .inl (by simp [hk])
    · exact .inr ⟨by rw [Table.get?_put_other (Ne.symm hk), hwaits], tickets_of_dispatch hd rfl hk⟩
  | @unfaded other _ _ _ _ _ hr hd _ h =>
    refine hw.add hv h fun hwaits => ?_
    by_cases hk : other = token
    · exact .inl (by simp [hk])
    · exact .inr ⟨by rw [Table.get?_remove_other (Ne.symm hk), hwaits], tickets_of_dispatch hd rfl hk⟩
  | @presented k _ hh h =>
    refine hw.add hv h fun hwaits => .inr ⟨?_, by simp [tickets, Entry.ticket?]⟩
    have hne : token ≠ k.token := by
      rintro rfl
      obtain ⟨r, hr, ho, _⟩ := hh
      obtain rfl := Option.some.inj (hr.symm.trans hwaits)
      cases ho
    rw [Table.get?_remove_other hne, hwaits]
  | @fewer other r fades a hr hf _ _ h =>
    refine hw.add hv h fun hwaits => .inr ⟨?_, by simp [tickets]⟩
    have hne : token ≠ other := by
      rintro rfl
      obtain rfl := Option.some.inj (hr.symm.trans hwaits)
      cases hf
    rw [Table.get?_put_other hne, hwaits]
  | @last other r fades a hr hf _ _ h =>
    refine hw.add hv h fun hwaits => .inr ⟨?_, by simp [tickets, Entry.ticket?]⟩
    have hne : token ≠ other := by
      rintro rfl
      obtain rfl := Option.some.inj (hr.symm.trans hwaits)
      cases hf
    rw [Table.get?_remove_other hne, hwaits]

theorem kept_awaits [Handler η] [Executor ε] (hv : v.table.get? token = some { kind, assigned, generation }) :
    Kept fun w : Shell η α ε => w.table.AtRest ∧ v.Awaits token w := by
  refine kept_of_steps (fun w a hw => hw) ?_ fun w ticket w' _ hw h => hw.step h hv
  intro w m rest _ hw
  obtain ⟨more, hlog, hcase⟩ := hw
  refine ⟨more ++ [.received m], by rw [take_log, hlog, List.append_assoc], ?_⟩
  rcases hcase with hdispatched | ⟨hsame, htickets⟩
  · exact .inl (List.mem_append_left _ hdispatched)
  · refine .inr ⟨hsame, ?_⟩
    rwa [tickets_append_of_nil rfl]

/-! ## Handlers under their ids -/

section Marks
variable [Handler η] {ι : Type} {mark : η → ι}

omit [Authority α] in
theorem offered_handlers (w : Shell η α ε) (token : Token) (r : Record) (batch : Batch) (start : Transaction) :
    (w.offered token r batch start).handlers = (w.offers token r batch start).handlers := by
  rw [offered, withVisits_eq]

omit [Authority α] in
theorem offered_marks (hm : Registry.Marks mark) (w : Shell η α ε) (token : Token) (r : Record) (batch : Batch)
    (start : Transaction) : (w.offered token r batch start).handlers.map mark = w.handlers.map mark := by
  rw [offered_handlers]
  exact hm.dispatch r.assigned w.handlers _

omit [Authority α] in
theorem faded_handlers [Executor ε] (w : Shell η α ε) (token : Token) (r : Record) (batch : Batch)
    (start : Transaction) : ((w.offered token r batch start).faded token r batch
      (w.offers token r batch start).start).handlers = (w.offers token r batch start).handlers := by
  obtain ⟨_, _, hfaded⟩ := (w.offered token r batch start).faded_eq token r batch (w.offers token r batch start).start
  rw [hfaded]
  exact w.offered_handlers token r batch start

theorem request_marks (hm : Registry.Marks mark) (w : Shell η α ε) (kind : Kind) (placeholder : Token)
    (trigger : Option Trigger) :
    ((Control.request kind placeholder trigger).perform w).2.handlers.map mark = w.handlers.map mark := by
  have hasked : (w.asked kind placeholder trigger).handlers.map mark = w.handlers.map mark := by
    rw [asked, withVisits_eq]
    exact hm.negotiate kind placeholder trigger w.handlers
  rcases Control.request_outcome w kind placeholder trigger with ⟨_, h⟩ | ⟨_, h⟩
  · rw [Control.perform_of_error h]
  · generalize hr : (Control.request kind placeholder trigger).run w = result at h
    cases h with
    | refused => rwa [Control.perform_of_error hr]
    | entered => rwa [Control.perform_of_ok hr]

omit [Handler η] in
theorem start_handlers (w : Shell η α ε) (kind : Kind) (containers : Container.Transaction)
    (handler : Option HandlerId) :
    ((Control.start kind containers handler).perform w).2.handlers = w.handlers := by
  rcases Control.start_outcome w kind containers handler with ⟨_, _, _, h⟩ | ⟨_, h⟩
  · rw [Control.perform_of_error h]
  · generalize hr : (Control.start kind containers handler).run w = result at h
    cases h with
    | refused => rw [Control.perform_of_error hr]; rfl
    | entered => rw [Control.perform_of_ok hr]; rfl

theorem ready_marks [Executor ε] (hm : Registry.Marks mark) (ht : w.table.AtRest) (token : Token) (batch : Batch)
    (start : Transaction) :
    ((Control.ready token batch start).perform w).2.handlers.map mark = w.handlers.map mark := by
  have h := Control.ready_outcome ht token batch start
  generalize hr : (Control.ready token batch start).run w = result at h
  cases h with
  | unknown | duplicate => rw [Control.perform_of_error hr]
  | rootless => rw [Control.perform_of_ok hr]; rfl
  | @owned r =>
    rw [Control.perform_of_ok hr, settled, appliedRest_eq]
    exact w.offered_marks hm token r batch start
  | @faded r =>
    rw [Control.perform_of_ok hr, faded_handlers]
    exact hm.dispatch r.assigned w.handlers _
  | @unfaded r =>
    rw [Control.perform_of_ok hr, left, faded_handlers]
    exact hm.dispatch r.assigned w.handlers _

/-- Calls do not change marks, and handlers are only added. -/
theorem kept_marks [Executor ε] (hm : Registry.Marks mark) (r : Registry η) :
    Kept fun w : Shell η α ε => w.table.AtRest ∧ r.map mark <:+ w.handlers.map mark where
  handler w a hw := ⟨hw.1, hw.2.trans (List.suffix_cons _ _)⟩
  post w m hw := hw
  act w a hw := hw
  take w m rest hq hw := hw
  request w kind placeholder trigger hw := by
    rw [request_marks hm]
    exact ⟨kept_atRest.request w kind placeholder trigger hw.1, hw.2⟩
  start w kind containers handler hw := by
    rw [start_handlers]
    exact ⟨kept_atRest.start w kind containers handler hw.1, hw.2⟩
  ready w token batch start hw := by
    rw [ready_marks hm hw.1]
    exact ⟨kept_atRest.ready w token batch start hw.1, hw.2⟩
  handlerDone w ticket hw := by
    refine ⟨kept_atRest.handlerDone w ticket hw.1, ?_⟩
    by_cases h : w.table.Honours ticket
    · rw [Control.perform_of_ok (Control.run_handlerDone hw.1 h)]
      exact hw.2
    · rw [Control.perform_of_ok (Control.run_handlerDone_ignored h)]
      exact hw.2
  fadeDone w token a hw := by
    refine ⟨kept_atRest.fadeDone w token a hw.1, ?_⟩
    have h := Control.fadeDone_outcome hw.1 token a
    generalize hr : (Control.fadeDone token a).run w = result at h
    cases h with
    | unknown =>
      rw [Control.perform_of_error hr]
      exact hw.2
    | untracked | fewer | last =>
      rw [Control.perform_of_ok hr]
      exact hw.2

end Marks

/-! ## First offers -/

/-- The calls and reports of a batch that comes for a waiting transition begin with its offers, and the handlers are
as these leave them. -/
theorem ready_dispatches [Handler η] [Executor ε] {batch : Batch} (start : Transaction) (ht : w.table.AtRest)
    (hr : w.table.get? token = some { kind, assigned, generation }) (hb : batch.hasRoot = true) :
    ∃ w' tail, (Control.ready token batch start).run w = .ok () w' ∧
      w'.handlers = (w.offers token { kind, assigned, generation } batch start).handlers ∧
      w'.stage.log = w.stage.log ++
        (dispatching token (w.offers token { kind, assigned, generation } batch start).visits ++ tail) := by
  have h := Control.ready_outcome ht token batch start
  generalize (Control.ready token batch start).run w = result at h
  cases h with
  | unknown hn => cases hn.symm.trans hr
  | duplicate hr' hp =>
    obtain rfl := Option.some.inj (hr'.symm.trans hr)
    exact absurd rfl hp
  | rootless _ _ hb' =>
    rw [hb] at hb'
    cases hb'
  | @owned r owner hr' _ _ ho =>
    obtain rfl := Option.some.inj (hr'.symm.trans hr)
    refine ⟨_, _, rfl, ?_, (w.leadsTo_owned token kind assigned generation batch start owner).stage.log⟩
    rw [settled, appliedRest_eq]
    exact w.offered_handlers token _ batch start
  | faded hr' _ _ ho hn =>
    obtain rfl := Option.some.inj (hr'.symm.trans hr)
    exact ⟨_, _, rfl, w.faded_handlers token _ batch start,
      (w.leadsTo_fading token kind assigned generation batch start).stage.log⟩
  | unfaded hr' _ _ ho hn =>
    obtain rfl := Option.some.inj (hr'.symm.trans hr)
    exact ⟨_, _, rfl, w.faded_handlers token _ batch start,
      (w.leadsTo_unfaded token kind assigned generation batch start hn).stage.log⟩

variable [Handler η] [Executor ε]

/-- The move brings `m` to the shell: by a call, or as a message that is handed in or taken from the queue. The shell
that processes it is `u`. -/
inductive Brings (w : Shell η α ε) : Message → Move η → Shell η α ε → Prop where
  | requested (kind : Kind) (placeholder : Token) (trigger : Option Trigger) :
    Brings w (.request kind placeholder trigger) (.request kind placeholder trigger) w
  | readied (token : Token) (batch : Batch) (start : Transaction) :
    Brings w (.ready token batch start) (.ready token batch start) w
  | handed (m : Message) : Brings w m (.process m) w
  | taken {m : Message} {rest : List Message} (hq : w.stage.queue = m :: rest) : Brings w m (.drain 1) (w.take m rest)

theorem Brings.move {m : Message} {move : Move η} {u : Shell η α ε} (h : w.Brings m move u) :
    w.move move = (Control.process m).perform u := by
  cases h with
  | requested => rw [Control.perform_process]; rfl
  | readied => rw [Control.perform_process]; rfl
  | handed => rfl
  | @taken m rest hq =>
    refine Prod.ext ?_ (w.drain_one_cons m rest hq)
    simp only [Shell.move, w.drainWithin_succ m rest 0 hq, Control.perform]
    cases (Control.process m).run (w.take m rest) with
    | ok goesOn v =>
      cases goesOn with
      | true =>
        have hzero : (v.drainWithin 0).ending.fault? = none := by
          rw [drainWithin]
          split <;> rfl
        exact hzero
      | false => rfl
    | error fault v => rfl

/-- However a run goes on from `v`, as long as the transition under `token` has not been dispatched since: the handlers
there were at `v` are still under their ids, nobody has been offered the transition, and if its batch comes, with a
root, it is offered to `assigned` first of all, or with nobody assigned to the handler registered last by then. -/
def Promises (v : Shell η α ε) (token : Token) (assigned : Option HandlerId) : Prop :=
  ∀ between : List (Move η),
    let u := v.run between
    .event (.phaseChanged token .pending .dispatching) ∉ u.stage.log.drop v.stage.log.length →
      (∀ (ι : Type) (mark : η → ι), Registry.Marks mark → ∀ id, v.handlers.contains id = true →
        (u.handlers.get? id).map mark = (v.handlers.get? id).map mark) ∧
      (∀ k ∈ tickets (u.stage.log.drop v.stage.log.length), k.token ≠ token) ∧
      ∀ batch start m u', u.Brings (.ready token batch start) m u' → batch.hasRoot = true →
        (u.move m).1 = none ∧ ∀ id, assigned.or u.handlers.front? = some id →
          ∃ a later, u.handlers.get? id = some a ∧ (u.move m).2.stage.log = u'.stage.log ++
            .event (.phaseChanged token .pending .dispatching) ::
              .offered ⟨token, id, v.generation⟩ batch (start ++ batch.startState) :: later

omit [Authority α] [Handler η] [Executor ε] in
theorem Brings.handlers {m : Message} {move : Move η} {u : Shell η α ε} (h : w.Brings m move u) :
    u.handlers = w.handlers ∧ u.table = w.table := by
  cases h with
  | requested | readied | handed | taken => exact ⟨rfl, rfl⟩

/-- The first offer of a waiting transition. -/
theorem ready_offers_first {batch : Batch} {start : Transaction} {id : HandlerId} (hw : w.table.AtRest)
    (hregistered : w.Registered) (hr : w.table.get? token = some { kind, assigned, generation })
    (hb : batch.hasRoot = true) (hid : assigned.or w.handlers.front? = some id) :
    ∃ a later, w.handlers.get? id = some a ∧ ((Control.ready token batch start).perform w).2.stage.log =
      w.stage.log ++ .event (.phaseChanged token .pending .dispatching) ::
        .offered ⟨token, id, generation⟩ batch (start ++ batch.startState) :: later := by
  have hcontains : w.handlers.contains id = true := by
    cases assigned with
    | some first =>
      obtain rfl : first = id := Option.some.inj hid
      exact hregistered _ (Table.mem_of_get? hr) first (.inl rfl)
    | none => exact Registry.contains_of_front hid
  obtain ⟨a, ha⟩ := Registry.get?_of_contains hcontains
  obtain ⟨w', tail, hrun, _, hlog⟩ := ready_dispatches start hw hr hb
  have hfirst := Registry.dispatch_first token generation batch (start ++ batch.startState) hid ha
  obtain ⟨visits, hvisits⟩ := List.head?_eq_some_iff.mp hfirst
  refine ⟨a, visits.map Visit.call ++ tail, ha, ?_⟩
  rw [Control.perform_of_ok hrun, hlog, dispatching, offers, hvisits]
  rfl

theorem promises (hv : v.table.AtRest ∧ v.Resting)
    (hr : v.table.get? token = some { kind, assigned, generation := v.generation }) : v.Promises token assigned := by
  intro between u hwaits
  obtain ⟨hrest, more, hlog, hcase⟩ := (kept_awaits hr).run between v ⟨hv.1, .refl v token⟩
  have hmore : u.stage.log.drop v.stage.log.length = more := by
    rw [show u.stage.log = v.stage.log ++ more from hlog, List.drop_left]
  rw [hmore] at hwaits ⊢
  obtain ⟨hsame, htickets⟩ := hcase.resolve_left hwaits
  have hget : u.table.get? token = some { kind, assigned, generation := v.generation } := hsame.trans hr
  refine ⟨fun ι mark hm id hid => ?_, htickets, fun batch start m u' hbrings hb => ?_⟩
  · exact Registry.get?_of_suffix ((kept_marks hm v.handlers).run between v ⟨hv.1, List.suffix_rfl⟩).2 hid
  · have hresting := kept_resting.run between v hv
    obtain ⟨hhandlers, htable⟩ := hbrings.handlers
    have hrest' : u'.table.AtRest := htable ▸ hrest
    have hget' : u'.table.get? token = some { kind, assigned, generation := v.generation } := htable ▸ hget
    have hregistered : u'.Registered := by
      intro e he id hid
      rw [hhandlers]
      exact hresting.2.registered e (htable ▸ he) id hid
    have hmove : u.move m = (Control.ready token batch start).perform u' := by
      rw [hbrings.move, Control.perform_process]
    obtain ⟨w', tail, hrun, _⟩ := ready_dispatches start hrest' hget' hb
    rw [hmove, ← hhandlers]
    exact ⟨by rw [Control.perform_of_ok hrun], fun id hid => ready_offers_first hrest' hregistered hget' hb hid⟩

/-- After every run and for every request that comes to the shell then, by a call or by a message: the handlers are
asked one after the other, from the one registered last on, up to the first that claims the request. Under a free
placeholder the authority gets what the claimer asks for, and nothing if nobody claims the request. If the start
succeeds, the record that is added assigns the transition to the claimer, and the first offer goes to it, whatever
comes in between; with no claimer it goes to the handler that is then the one registered last. A start for a named
handler promises the first offer to this one. By `run_singly` it is enough to look at messages taken one at a time. -/
theorem run_first_offer (config : Config) (authority : α) (executor : ε) (before : List (Move η)) :
    let w := (fresh config authority executor : Shell η α ε).run before
    (∀ kind placeholder trigger m u, w.Brings (.request kind placeholder trigger) m u →
        let n := u.handlers.negotiate kind placeholder trigger
        Registry.Walk kind placeholder trigger u.handlers n ∧
          (u.table.contains placeholder = false → (w.move m).2.handlers = n.handlers ∧
            ∃ reports : List Event, (w.move m).2.stage.log = u.stage.log ++ n.visits.map Visit.call ++
              .startCalled kind (some placeholder) (n.claim.map (·.2)) :: reports.map Entry.event) ∧
          ((w.move m).1 = none → ∃ token,
            u.Tracks (w.move m).2 n.handlers (n.visits.map Visit.call) kind (some placeholder) (n.claim.map (·.2))
                (n.claim.map (·.1)) token ∧
              (w.move m).2.Promises token (n.claim.map (·.1)))) ∧
      ∀ kind containers handler, (w.move (.start kind containers handler)).1 = none → ∃ token,
        w.Tracks (w.move (.start kind containers handler)).2 w.handlers [] kind none (some containers) handler token ∧
          (w.move (.start kind containers handler)).2.Promises token handler := by
  intro w
  have hrest : ∀ m, (w.move m).2.table.AtRest ∧ (w.move m).2.Resting := by
    intro m
    have hrun := kept_resting.run (before ++ [m]) _ (resting_fresh (η := η) config authority executor)
    rwa [run_append] at hrun
  refine ⟨fun kind placeholder trigger m u hbrings => ?_, fun kind containers handler hok => ?_⟩
  · have hmove : w.move m = (Control.request kind placeholder trigger).perform u := by
      rw [hbrings.move, Control.perform_process]
    refine ⟨Registry.negotiate_walk u.handlers, fun hp => hmove ▸ request_calls trigger hp, fun hok => ?_⟩
    have hnext := hrest m
    cases hr : (Control.request kind placeholder trigger).run u with
    | error f v =>
      rw [hmove, Control.perform_of_error hr] at hok
      cases hok
    | ok token v =>
      rw [hmove, Control.perform_of_ok hr] at hnext ⊢
      exact ⟨token, request_tracks hr, promises hnext (request_tracks hr).record⟩
  · have hnext := hrest (.start kind containers handler)
    cases hr : (Control.start kind containers handler).run w with
    | error f v =>
      rw [move, Control.perform_of_error hr] at hok
      cases hok
    | ok token v =>
      rw [move, Control.perform_of_ok hr] at hnext ⊢
      exact ⟨token, start_tracks hr, promises hnext (start_tracks hr).record⟩

/-- Two handlers, of which the one registered first claims requests. -/
def keenAndShy : List (Move Rehearsal.Actor) :=
  [.addHandler { name := "keen", manner := .steady true, claims := some [] },
    .addHandler { name := "shy", manner := .steady false }]

theorem run_first_offer_remapped :
    let w := (fresh {} (⟨0, true⟩ : Rehearsal.Issuer) Rehearsal.Pace.keeps).run keenAndShy
    let v := (w.move (.request .opening ⟨7⟩ none)).2
    let u := v.run [.addHandler { name := "late", manner := .steady true }, .start .closing [] none]
    let batch : Batch := { kind := .opening, root := some ⟨1⟩ }
    ∃ a later, u.handlers.get? ⟨0⟩ = some a ∧ (u.move (.ready ⟨1⟩ batch [])).2.stage.log = u.stage.log ++
      .event (.phaseChanged ⟨1⟩ .pending .dispatching) ::
        .offered ⟨⟨1⟩, ⟨0⟩, v.generation⟩ batch ([] ++ batch.startState) :: later := by
  intro w v u batch
  obtain ⟨hrequest, _⟩ :=
    run_first_offer {} (⟨0, true⟩ : Rehearsal.Issuer) Rehearsal.Pace.keeps keenAndShy
  obtain ⟨token, htracks, hpromises⟩ := (hrequest .opening ⟨7⟩ none _ w (.requested ..)).2.2 rfl
  obtain rfl : token = ⟨1⟩ := (congrArg Prod.fst htracks.issued).symm
  obtain ⟨_, _, hoffers⟩ :=
    hpromises [.addHandler { name := "late", manner := .steady true }, .start .closing [] none] (by decide)
  exact (hoffers batch [] (.ready ⟨1⟩ batch []) u (.readied ..) rfl).2 ⟨0⟩ rfl

end Shell

end WindowTransitions
