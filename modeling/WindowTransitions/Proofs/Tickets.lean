import WindowTransitions.Proofs.Ledger
import WindowTransitions.Proofs.Rest
import WindowTransitions.Rehearsal.Cast

/-! Tickets over whole runs. Handlers keep the tickets of all their offers and present them at any time, tokens are
used again, and one handler may own first one and then another transition under one token. Main statement: no two
offers have the same ticket, a transition that a handler accepted ends exactly when the ticket of this offer is taken
from the queue, and every other ticket that is taken from it changes nothing. -/

set_option autoImplicit false

namespace WindowTransitions

/-! ## What steps add to the log -/

section Dispatches
variable {η : Type} [Handler η] {token : Token} {generation : UInt64} {batch : Batch} {handlers : Registry η}
  {d : Registry.Dispatch η} {k : Ticket} {tail after : List Entry}

/-- The calls of a dispatch, before it is reported how it came out. -/
def dispatching (token : Token) (visits : List Visit) : List Entry :=
  .event (.phaseChanged token .pending .dispatching) :: visits.map Visit.call

theorem tickets_dispatching (token : Token) (visits : List Visit) :
    tickets (dispatching token visits) = visits.filterMap (·.call.ticket?) := by
  rw [tickets, dispatching, List.filterMap_cons_none rfl, List.filterMap_map]
  rfl

theorem mem_dispatching (hd : d.Sound token generation batch handlers) {e : Entry}
    (he : e ∈ dispatching token d.visits) :
    e = .event (.phaseChanged token .pending .dispatching) ∨
      ∃ id start, e = .offered ⟨token, id, generation⟩ batch start := by
  rcases List.mem_cons.mp he with he | he
  · exact .inl he
  · obtain ⟨v, hv, rfl⟩ := List.mem_map.mp he
    obtain ⟨_, id, start, _, rfl⟩ := hd.visits v hv
    exact .inr ⟨id, start, rfl⟩

/-- Only the last offer of a dispatch is accepted, and only if its handler is the owner. -/
theorem Accepted.of_dispatching {owner : Option HandlerId} {fades : Nat}
    (hd : d.Sound token generation batch handlers)
    (ht : tickets (.event (.dispatched token owner fades) :: tail) = [])
    (h : Accepted (dispatching token d.visits ++ .event (.dispatched token owner fades) :: tail) k after) :
    owner = some k.handler ∧ k.token = token ∧ k.generation = generation ∧ after = tail := by
  obtain ⟨before, batch', start, fades', h⟩ := h
  rcases append_eq_append_pair h with ⟨rest, _, hleft⟩ | ⟨hlast, hreport⟩ | ⟨rest, _, hright⟩
  · have hmem : .event (.dispatched k.token (some k.handler) fades') ∈ dispatching token d.visits := by
      rw [hleft]
      simp
    rcases mem_dispatching hd hmem with he | ⟨_, _, he⟩ <;> cases he
  · have hmem : .offered k batch' start ∈ dispatching token d.visits := by
      rw [hlast]
      simp
    simp only [List.cons.injEq, Entry.event.injEq, Event.dispatched.injEq] at hreport
    rcases mem_dispatching hd hmem with he | ⟨_, _, he⟩
    · cases he
    · simp only [Entry.offered.injEq] at he
      exact ⟨hreport.1.2.1, hreport.1.1.symm, by rw [he.1], hreport.2.symm⟩
  · have hmem : k ∈ tickets (.event (.dispatched token owner fades) :: tail) := by
      rw [hright]
      exact List.mem_filterMap.mpr ⟨.offered k batch' start, by simp, rfl⟩
    rw [ht] at hmem
    cases hmem

theorem accepted_dispatching {owner : HandlerId} {fades : Nat} (hd : d.Sound token generation batch handlers)
    (ho : d.owner = some owner) :
    Accepted (dispatching token d.visits ++ .event (.dispatched token (some owner) fades) :: tail)
      ⟨token, owner, generation⟩ tail := by
  obtain ⟨earlier, v, hv, ht⟩ := hd.owner owner ho
  obtain ⟨batch', start, hcall⟩ := Entry.ticket?_eq_some ht
  refine ⟨.event (.phaseChanged token .pending .dispatching) :: earlier.map Visit.call, batch', start, fades, ?_⟩
  rw [dispatching, hv, List.map_append, List.map_singleton, hcall]
  simp

/-- Reports, and no call of the authority but the one that the transition is finished. -/
def Reporting (token : Token) (tail : List Entry) : Prop :=
  ∀ e ∈ tail, (∃ event, e = .event event) ∨ e = .finishCalled token

theorem Reporting.tickets_eq_nil (ht : Reporting token tail) : tickets tail = [] := by
  rw [tickets, List.filterMap_eq_nil_iff]
  intro e he
  rcases ht e he with ⟨_, rfl⟩ | rfl <;> rfl

theorem Reporting.not_received (ht : Reporting token tail) (m : Message) : .received m ∉ tail := by
  intro h
  rcases ht _ h with ⟨_, he⟩ | he <;> cases he

theorem Quiet.of_dispatching (hd : d.Sound token generation batch handlers) (ht : Reporting token tail) :
    Quiet (dispatching token d.visits ++ tail) token where
  start _ _ _ _ h := by cases h
  received k h := by
    rcases List.mem_append.mp h with h | h
    · rcases mem_dispatching hd h with he | ⟨_, _, he⟩ <;> cases he
    · exact ht.not_received _ h
  finishes other h := by
    rcases List.mem_append.mp h with h | h
    · rcases mem_dispatching hd h with he | ⟨_, _, he⟩ <;> cases he
    · rcases ht _ h with ⟨_, he⟩ | he
      · cases he
      · exact Entry.finishCalled.inj he

/-- A waiting transition is offered to handlers, and it is reported who owns it. -/
theorem Ledger.dispatch {log : List Entry} {t t' : Table} {n n' fades : Nat} {kind : Kind}
    {assigned owner : Option HandlerId} (hl : Ledger log t n) (hdated : t.Dated n) (hn : n ≤ n')
    (hr : t.get? token = some { kind, assigned, generation }) (hd : d.Sound token generation batch handlers)
    (ho : d.owner = owner) (hother : ∀ k, k ≠ token → t'.get? k = t.get? k)
    (hthis : ∀ s, t'.get? token = some s → s.generation = generation ∧ s.phase ≠ .pending ∧ s.owner = owner)
    (htail : Reporting token tail)
    (howned : owner ≠ none → t'.contains token = true ∧ .finishCalled token ∉ tail) :
    Ledger (log ++ (dispatching token d.visits ++ .event (.dispatched token owner fades) :: tail)) t' n' := by
  have hreporting : Reporting token (.event (.dispatched token owner fades) :: tail) :=
    List.forall_mem_cons.mpr ⟨.inl ⟨_, rfl⟩, htail⟩
  have htickets := hreporting.tickets_eq_nil
  refine hl.act hdated hn hr rfl hother (fun s hs => ⟨(hthis s hs).1, (hthis s hs).2.1⟩) ?_ ?_
    (.of_dispatching hd hreporting) ?_ ?_
  · rw [tickets_append_of_nil htickets, tickets_dispatching]
    exact hd.distinct
  · intro k hk
    rw [tickets_append_of_nil htickets, tickets_dispatching] at hk
    obtain ⟨v, hv, hk⟩ := List.mem_filterMap.mp hk
    obtain ⟨id, _, hticket⟩ := (hd.visits v hv).ticket?
    rw [hk, Option.some.injEq] at hticket
    exact ⟨rfl, by rw [hticket]⟩
  · -- the offer before the report is the only one that may be accepted, and its handler owns the transition
    intro k after ha
    obtain ⟨howner, rfl, hg, rfl⟩ := ha.of_dispatching hd htickets
    obtain ⟨hactive, hfinish⟩ := howned (by simp [howner])
    obtain ⟨s, hs⟩ := Option.isSome_iff_exists.mp hactive
    obtain ⟨hgeneration, _, howner'⟩ := hthis s hs
    exact .inl ⟨⟨s, hs, howner'.trans howner, hgeneration.trans hg.symm⟩, htail.not_received _, hfinish⟩
  · rintro k rfl ⟨s, hs, hown, hg⟩
    obtain ⟨hgeneration, _, howner⟩ := hthis s hs
    obtain ⟨token, handler, g⟩ := k
    simp only at hs hown hg hgeneration
    rw [howner] at hown
    subst hown
    rw [← hg, hgeneration]
    exact ⟨tail, accepted_dispatching hd ho⟩

end Dispatches

section Preludes
variable {calls : List Entry}

theorem tickets_preludes (hc : ∀ e ∈ calls, e.isPrelude = true) : tickets calls = [] := by
  rw [tickets, List.filterMap_eq_nil_iff]
  intro e he
  have h := hc e he
  cases e <;> first | rfl | cases h

theorem Quiet.of_preludes (hc : ∀ e ∈ calls, e.isPrelude = true) (token : Token) : Quiet calls token where
  start _ _ _ _ h := by
    subst h
    have he := hc _ List.mem_cons_self
    cases he
  received k h := by
    have he := hc _ h
    cases he
  finishes other h := by
    have he := hc _ h
    cases he

end Preludes

namespace Shell

variable {η α ε : Type} {w w' : Shell η α ε}

/-! ## Steps without a ticket -/

/-- The log and the table agree on tickets, as long as generations are not used up. -/
def Ticketed (w : Shell η α ε) : Prop :=
  w.stage.starts < 2 ^ 64 → Ledger w.stage.log w.table w.stage.starts

theorem Step.ledger [Handler η] [Authority α] (hrest : w.table.AtRest ∧ w.Resting) (h : w.Step none w')
    (hs : w'.stage.starts < 2 ^ 64) (hl : Ledger w.stage.log w.table w.stage.starts) :
    Ledger w'.stage.log w'.table w'.stage.starts := by
  have hle := h.starts_le
  have hcount := (hrest.2.counted.of_step h).toNat_generation hs
  have hd := hrest.2.dated (Nat.lt_of_le_of_lt hle hs)
  cases h with
  | idle hc h =>
    have hq := Quiet.of_preludes hc
    rw [h.table, h.stage.log]
    refine hl.idle hle (tickets_preludes hc) (hq ⟨0⟩).start (fun k hk => absurd hk ((hq ⟨0⟩).received k)) ?_
    intro token hmem
    have he := hc _ hmem
    cases he
  | @entered token kind assigned calls hn _ hc hone h =>
    obtain ⟨hstarts, hgeneration⟩ := h.one_start hone
    have hq := Quiet.of_preludes hc token
    rw [h.table, h.stage.log, hstarts]
    refine hl.enter hn (by rw [← hgeneration, hcount, hstarts]) rfl ?_ ?_
    · rw [tickets_append_of_nil rfl, tickets_preludes hc]
    · refine ⟨?_, by simpa using hq.received, by simpa using hq.finishes⟩
      intro token owner fades rest hstart
      cases calls with
      | nil => cases hstart
      | cons e calls => exact hq.start token owner fades _ (by rw [(List.cons.inj hstart).1])
  | tidied hr h =>
    rw [h.table, h.stage.log]
    exact hl.drop hd hle hr rfl rfl ⟨by simp, by simp, by simp⟩
  | @owned token kind assigned generation batch d owner hr hd' ho h =>
    rw [h.table, h.stage.log]
    refine hl.dispatch hd hle hr hd' ho (fun _ => Table.get?_put_other) ?_ (by simp [Reporting]) fun _ => ⟨?_, by simp⟩
    · intro s hget
      rw [Table.get?_put_self hr, Option.some.injEq] at hget
      rw [← hget]
      exact ⟨rfl, by simp, rfl⟩
    · rw [Table.contains, Table.get?_put_self hr]
      rfl
  | @unfaded token kind assigned generation batch d hr hd' ho h =>
    rw [h.table, h.stage.log]
    exact hl.dispatch hd hle hr hd' ho (fun _ => Table.get?_remove_other) (by simp [Table.get?_remove_self])
      (by simp [Reporting]) fun hne => absurd rfl hne
  | @faded token kind assigned generation batch d count hr hd' ho hn h =>
    rw [h.table, h.stage.log]
    refine hl.dispatch hd hle hr hd' ho (fun _ => Table.get?_put_other) ?_ (by simp [Reporting])
      fun hne => absurd rfl hne
    intro s hget
    rw [Table.get?_put_self hr, Option.some.injEq] at hget
    rw [← hget]
    exact ⟨rfl, by simp, rfl⟩
  | presented hk _ _ => cases hk
  | @fewer token r fades a hr hf _ _ h =>
    have hrest := hrest.1.get? hr
    have hthis : ∀ s, (w.table.put token { r with fades := some (fades.erase a) }).get? token = some s →
        s.generation = r.generation ∧ s.phase ≠ .pending ∧ s.owner = none := by
      intro s hget
      rw [Table.get?_put_self hr, Option.some.injEq] at hget
      rw [← hget]
      exact ⟨rfl, by simp [hrest.phase_of_fades hf], hrest.owner_of_fades hf⟩
    rw [h.table, h.stage.log]
    refine hl.act hd hle hr (hrest.owner_of_fades hf) (fun _ => Table.get?_put_other)
      (fun s hs => ⟨(hthis s hs).1, (hthis s hs).2.1⟩) List.nodup_nil (fun k hk => by cases hk)
      ⟨by simp, by simp, by simp⟩ (fun k after ha => absurd ha (not_accepted_of_tickets rfl)) ?_
    rintro k rfl ⟨s, hget, hown, _⟩
    rw [(hthis s hget).2.2] at hown
    cases hown
  | last hr hf _ _ h =>
    rw [h.table, h.stage.log]
    exact hl.drop hd hle hr ((hrest.1.get? hr).owner_of_fades hf) rfl ⟨by simp, by simp, by simp⟩

theorem Ticketed.step [Handler η] [Authority α] (hrest : w.table.AtRest ∧ w.Resting) (hw : w.Ticketed)
    (h : w.Step none w') : w'.Ticketed :=
  fun hs => h.ledger hrest hs (hw (Nat.lt_of_le_of_lt h.starts_le hs))

/-! ## Messages from the queue -/

/-- A message is taken that presents no ticket that counts. -/
theorem Ticketed.take (hw : w.Ticketed) (m : Message) (rest : List Message)
    (hm : ∀ k, m.ticket? = some k → ¬ w.table.Honours k) : (w.take m rest).Ticketed := by
  intro hs
  rw [take_starts] at hs ⊢
  rw [take_log]
  refine (hw hs).idle (Nat.le_refl _) rfl (by simp) (fun k hk => ?_) (by simp)
  have hk := Entry.received.inj (List.mem_singleton.mp hk)
  exact hm k (hk ▸ rfl)

/-- A message is taken that presents a ticket that counts. -/
theorem Ticketed.present [Authority α] (hw : w.Ticketed) {k : Ticket} (rest : List Message) (hk : w.table.Honours k) :
    ((w.take (.handlerDone k) rest).left k.token .animating).Ticketed := by
  intro hs
  have hadds := (w.take (.handlerDone k) rest).leadsTo_left k.token .animating
  have hstarts : ((w.take (.handlerDone k) rest).left k.token .animating).stage.starts = w.stage.starts := by
    rw [hadds.stage.starts, take_starts]
    rfl
  have hlog : ((w.take (.handlerDone k) rest).left k.token .animating).stage.log = w.stage.log ++ leaving k := by
    rw [hadds.stage.log, take_log, List.append_assoc]
    rfl
  rw [hstarts] at hs ⊢
  rw [hlog]
  exact (hw hs).present (Nat.le_refl _) hk

theorem Ticketed.receive [Handler η] [Authority α] [Executor ε] (hrest : w.table.AtRest ∧ w.Resting)
    (hw : w.Ticketed) {m : Message} {rest : List Message} (hq : w.stage.queue = m :: rest) :
    (w.receive m rest).2.Ticketed := by
  cases hm : m.ticket? with
  | none =>
    have hstep := process_step (w := w.take m rest) hrest.1 m
    rw [hm] at hstep
    exact (hw.take m rest fun k hk => by rw [hm] at hk; cases hk).step (kept_resting.take w m rest hq hrest) hstep
  | some k =>
    obtain rfl := Message.ticket?_eq_some hm
    rw [Shell.receive, Control.perform_process]
    change ((Control.handlerDone k).perform (w.take (.handlerDone k) rest)).2.Ticketed
    by_cases hk : w.table.Honours k
    · rw [Control.perform_of_ok (Control.run_handlerDone (w := w.take (.handlerDone k) rest) hrest.1 hk)]
      exact hw.present rest hk
    · rw [Control.perform_of_ok (Control.run_handlerDone_ignored (w := w.take (.handlerDone k) rest) hk)]
      exact hw.take _ rest fun j hj => Option.some.inj hj ▸ hk

theorem Ticketed.run [Handler η] [Authority α] [Executor ε] (moves : List (Move η))
    (hm : ∀ m ∈ moves, ∀ k, m ≠ .process (.handlerDone k)) (w : Shell η α ε) (hrest : w.table.AtRest ∧ w.Resting)
    (hw : w.Ticketed) : (w.run moves).Ticketed := by
  refine (run_induction (P := fun w => (w.table.AtRest ∧ w.Resting) ∧ w.Ticketed)
    (fun m => ∀ k, m ≠ .process (.handlerDone k)) ?_ ?_ moves hm w ⟨hrest, hw⟩).2
  · intro w m hm hd hw
    refine ⟨kept_resting.move w m hd hw.1, ?_⟩
    cases m with
    | addHandler h => exact hw.2
    | request kind token trigger => exact hw.2.step hw.1 (request_step w kind token trigger none)
    | start kind containers handler => exact hw.2.step hw.1 (start_step w kind containers handler none)
    | ready token batch start => exact hw.2.step hw.1 (ready_step hw.1.1 token batch start none)
    | process m =>
      have hstep := process_step hw.1.1 m
      cases hk : m.ticket? with
      | none => exact hw.2.step hw.1 (hk ▸ hstep)
      | some k => exact absurd (congrArg Move.process (Message.ticket?_eq_some hk)) (hm k)
    | drain limit => exact absurd rfl (hd limit)
    | post m => exact hw.2.step hw.1 (step_of_stage w (Stage.adds_post w.stage m) none)
    | act a => exact hw.2.step hw.1 (step_of_stage w (Stage.adds_perform w.stage a) none)
  · intro w m rest hq hw
    exact ⟨kept_resting.receive w m rest hq hw.1, hw.2.receive hw.1 hq⟩

/-! ## Runs -/

theorem ticketed_fresh (config : Config) (authority : α) (executor : ε) :
    (fresh config authority executor : Shell η α ε).Ticketed := by
  refine fun _ => ⟨List.nodup_nil, by simp [fresh, Stage.log, tickets], by simp [fresh], ?_, ?_⟩
  · exact fun k after ha => absurd ha (not_accepted_of_tickets rfl)
  · rintro k ⟨r, hr, _⟩
    cases hr

/-- After every run in which tickets are presented through the queue only, while generations are not used up: no two
offers have the same ticket. The ticket of an accepted offer counts until it is taken from the queue; then, and at no
other time since the offer, its transition finishes and the authority is told. A ticket counts exactly if its offer
was accepted and it has not been taken from the queue since. If the next message in the queue is a ticket that counts,
its transition leaves the table; any other ticket is processed without fault and nothing changes. -/
theorem run_tickets [Handler η] [Authority α] [Executor ε] (config : Config) (authority : α) (executor : ε)
    (moves : List (Move η)) (hm : ∀ m ∈ moves, ∀ k, m ≠ .process (.handlerDone k))
    (hs : ((fresh config authority executor : Shell η α ε).run moves).stage.starts < 2 ^ 64) :
    let w := (fresh config authority executor : Shell η α ε).run moves
    (tickets w.stage.log).Nodup ∧
      (∀ k after, Accepted w.stage.log k after →
        (w.table.Serves k ↔ .received (.handlerDone k) ∉ after) ∧ Settles w.table k after) ∧
      (∀ k, w.table.Honours k ↔ ∃ after, Accepted w.stage.log k after ∧ .received (.handlerDone k) ∉ after) ∧
      ∀ k rest, w.stage.queue = .handlerDone k :: rest →
        ((∃ after, Accepted w.stage.log k after ∧ .received (.handlerDone k) ∉ after) →
          ∃ w', (Control.process (.handlerDone k)).run (w.take (.handlerDone k) rest) = .ok true w' ∧
            w'.table = w.table.remove k.token ∧ w'.stage.log = w.stage.log ++ leaving k) ∧
        ((∀ after, Accepted w.stage.log k after → .received (.handlerDone k) ∈ after) →
          (Control.process (.handlerDone k)).run (w.take (.handlerDone k) rest) =
            .ok true (w.take (.handlerDone k) rest)) := by
  intro w
  have start := resting_fresh (η := η) config authority executor
  have hrest : w.table.AtRest ∧ w.Resting := kept_resting.run moves _ start
  have hledger : Ledger w.stage.log w.table w.stage.starts :=
    Ticketed.run moves hm _ start (ticketed_fresh config authority executor) hs
  refine ⟨hledger.distinct, fun k after ha => ?_, fun k => hledger.honours_iff,
    fun k rest hq => ⟨fun hk => ?_, fun hk => ?_⟩⟩
  · have hsettles := hledger.settles k after ha
    exact ⟨hsettles.serves_iff, hsettles⟩
  · have hleft := Control.run_handlerDone (w := w.take (.handlerDone k) rest) hrest.1 (hledger.honours_iff.mpr hk)
    refine ⟨(w.take (.handlerDone k) rest).left k.token .animating, ?_, rfl, ?_⟩
    · simp only [Control.process, EStateM.run_bind, hleft]
      rfl
    · rw [((w.take (.handlerDone k) rest).leadsTo_left k.token .animating).stage.log, take_log, List.append_assoc]
      rfl
  · have hnot : ¬ w.table.Honours k := by
      intro hh
      obtain ⟨after, ha, hr⟩ := hledger.honours_iff.mp hh
      exact hr (hk after ha)
    have hignored := Control.run_handlerDone_ignored (w := w.take (.handlerDone k) rest) hnot
    simp only [Control.process, EStateM.run_bind, hignored]
    rfl

/-- Two handlers present their tickets while they get the offer, the one that declines and the one that accepts. -/
def presentedAtOnce : List (Move Rehearsal.Actor) :=
  [.addHandler { name := "taker", manner := .scripted [true] [] true none none },
    .addHandler { name := "decliner", manner := .scripted [false] [] true none none },
    .start .opening [] none, .ready ⟨1⟩ { kind := .opening, root := some ⟨1⟩ } []]

theorem run_tickets_presented_at_once :
    let w := (fresh {} (⟨0, false⟩ : Rehearsal.Issuer) Rehearsal.Pace.keeps).run presentedAtOnce
    let v := (fresh {} (⟨0, false⟩ : Rehearsal.Issuer) Rehearsal.Pace.keeps).run (presentedAtOnce ++ [.drain 1])
    w.stage.queue = [.handlerDone ⟨⟨1⟩, ⟨1⟩, 1⟩, .handlerDone ⟨⟨1⟩, ⟨0⟩, 1⟩] ∧
      (Control.process (.handlerDone ⟨⟨1⟩, ⟨1⟩, 1⟩)).run
          (w.take (.handlerDone ⟨⟨1⟩, ⟨1⟩, 1⟩) [.handlerDone ⟨⟨1⟩, ⟨0⟩, 1⟩]) =
        .ok true (w.take (.handlerDone ⟨⟨1⟩, ⟨1⟩, 1⟩) [.handlerDone ⟨⟨1⟩, ⟨0⟩, 1⟩]) ∧
      ∃ v', (Control.process (.handlerDone ⟨⟨1⟩, ⟨0⟩, 1⟩)).run (v.take (.handlerDone ⟨⟨1⟩, ⟨0⟩, 1⟩) []) = .ok true v' ∧
        v'.table = v.table.remove ⟨1⟩ := by
  intro w v
  obtain ⟨_, _, hhonours, hqueue⟩ := run_tickets {} (⟨0, false⟩ : Rehearsal.Issuer) Rehearsal.Pace.keeps
    presentedAtOnce (by simp [presentedAtOnce]) (by decide)
  obtain ⟨_, _, hhonours', hqueue'⟩ := run_tickets {} (⟨0, false⟩ : Rehearsal.Issuer) Rehearsal.Pace.keeps
    (presentedAtOnce ++ [.drain 1]) (by simp [presentedAtOnce]) (by decide)
  refine ⟨by decide, ?_, ?_⟩
  · refine (hqueue _ _ (by decide)).2 fun after ha => ?_
    by_contra hr
    obtain ⟨r, hget, howner, _⟩ := (hhonours _).mpr ⟨after, ha, hr⟩
    have hfirst : (w.table.get? ⟨1⟩).bind (·.owner) = some ⟨0⟩ := by decide
    rw [show w.table.get? ⟨1⟩ = some r from hget, Option.bind_some, howner] at hfirst
    cases hfirst
  · have hget : v.table.get? ⟨1⟩ =
        some { kind := .opening, phase := .animating, assigned := none, owner := some ⟨0⟩, generation := 1 } := by
      decide
    have hcounts : v.table.Honours ⟨⟨1⟩, ⟨0⟩, 1⟩ := ⟨_, hget, rfl, rfl⟩
    obtain ⟨v', hv', htable, _⟩ := (hqueue' ⟨⟨1⟩, ⟨0⟩, 1⟩ [] (by decide)).1 ((hhonours' _).mp hcounts)
    exact ⟨v', hv', htable⟩

end Shell

end WindowTransitions
