import WindowTransitions.Proofs.Outcomes
import WindowTransitions.Proofs.Run

/-! What one operation can do to a shell between two operations: the table it leaves, and the calls and reports it
adds to the journal. Posts, applied transactions and jobs are left open. Every operation is one such step, and what
all steps preserve holds after every run. -/

set_option autoImplicit false

namespace WindowTransitions

namespace Entry

/-- How an authority changes by a call. -/
def heard {α : Type} [Authority α] (a : α) : Entry → α
  | .startCalled kind placeholder containers => (Authority.start a kind placeholder containers).2
  | .finishCalled token => Authority.finish a token
  | _ => a

def starts : Entry → Nat
  | .startCalled _ _ _ => 1
  | _ => 0

def fades : Entry → Nat
  | .event (.dispatched _ _ fades) => fades
  | _ => 0

/-- A call that may come before a start. -/
def isPrelude : Entry → Bool
  | .asked _ _ _ _ | .startCalled _ _ _ => true
  | _ => false

/-- A call of a handler, or a message taken from the queue. -/
def isOutside : Entry → Bool
  | .asked _ _ _ _ | .offered _ _ _ | .received _ => true
  | _ => false

end Entry

namespace AnimationId

@[simp] theorem skip_zero (a : AnimationId) : a.skip 0 = a := by simp [skip]

theorem skip_skip (a : AnimationId) (m n : Nat) : (a.skip m).skip n = a.skip (m + n) := by
  simp [skip, UInt64.ofNat_add, UInt64.add_assoc]

end AnimationId

namespace Shell

variable {η α ε : Type} [Authority α]

/-! ## From state to state -/

/-- The step from `w` to `w'` leaves `table` and adds `calls` to the journal, posts and applied transactions apart.
Generations, ids of animations and the state of the authority are what the calls make of them. -/
structure LeadsTo (w w' : Shell η α ε) (table : Table) (calls : List Entry) : Prop where
  table : w'.table = table
  stage : w.stage.Adds w'.stage calls
  handlers : w'.handlers.length = w.handlers.length
  generation : w'.generation = w.generation + UInt64.ofNat (calls.map Entry.starts).sum
  animation : w'.nextAnimation = w.nextAnimation.skip (calls.map Entry.fades).sum
  authority : w'.authority = calls.foldl Entry.heard w.authority

variable {w w' w'' : Shell η α ε} {t t' : Table} {calls calls' : List Entry}

theorem LeadsTo.trans (h : w.LeadsTo w' t calls) (h' : w'.LeadsTo w'' t' calls') :
    w.LeadsTo w'' t' (calls ++ calls') where
  table := h'.table
  stage := h.stage.trans h'.stage
  handlers := h'.handlers.trans h.handlers
  generation := by
    rw [h'.generation, h.generation, List.map_append, List.sum_append, UInt64.ofNat_add, UInt64.add_assoc]
  animation := by rw [h'.animation, h.animation, AnimationId.skip_skip, List.map_append, List.sum_append]
  authority := by rw [h'.authority, h.authority, List.foldl_append]

theorem LeadsTo.of_table (h : w.LeadsTo w' t calls) (ht : t = t') : w.LeadsTo w' t' calls := ht ▸ h

/-- Calls of handlers and messages are no business of the authority. -/
theorem outside_calls (h : ∀ e ∈ calls, e.isOutside = true) (a : α) :
    (calls.map Entry.starts).sum = 0 ∧ (calls.map Entry.fades).sum = 0 ∧ calls.foldl Entry.heard a = a := by
  induction calls with
  | nil => exact ⟨rfl, rfl, rfl⟩
  | cons e calls ih =>
    obtain ⟨hs, hf, hh⟩ := ih fun e' he' => h e' (List.mem_cons_of_mem e he')
    have he := h e List.mem_cons_self
    rw [List.map_cons, List.sum_cons, List.map_cons, List.sum_cons, List.foldl_cons, hs, hf]
    cases e with
    | asked | offered | received => exact ⟨rfl, rfl, hh⟩
    | startCalled | finishCalled | applied | event | posted => cases he

theorem offers_are_outside [Handler η] {d : Registry.Dispatch η} {token : Token} {generation : UInt64}
    {batch : Batch} {r : Registry η} (hd : d.Sound token generation batch r) :
    ∀ e ∈ d.visits.map Visit.call, e.isOutside = true := by
  intro e he
  obtain ⟨v, hv, rfl⟩ := List.mem_map.mp he
  obtain ⟨_, _, _, _, rfl⟩ := hd.visits v hv
  rfl

/-- The default animations that a dispatch gives ids to, by the calls and reports from its beginning to its end. -/
theorem fades_of_dispatch [Handler η] {d : Registry.Dispatch η} {token : Token} {generation : UInt64}
    {batch : Batch} {r : Registry η} (hd : d.Sound token generation batch r) (a : α) (owner : Option HandlerId)
    (count : Nat) :
    (List.map Entry.fades (.event (.phaseChanged token .pending .dispatching) :: d.visits.map Visit.call ++
      [.event (.dispatched token owner count), .event (.phaseChanged token .dispatching .animating)])).sum =
        count := by
  obtain ⟨_, hoffers, _⟩ := outside_calls (offers_are_outside hd) a
  rw [List.map_append, List.map_cons, List.sum_append, List.sum_cons, hoffers]
  simp [Entry.fades]

theorem asks_are_outside [Handler η] {kind : Kind} {token : Token} {trigger : Option Trigger} {n : Nat}
    {visits : List Visit} (hv : ∀ v ∈ visits, v.IsAsk η kind token trigger n) :
    ∀ e ∈ visits.map Visit.call, e.isOutside = true := by
  intro e he
  obtain ⟨v, hvm, rfl⟩ := List.mem_map.mp he
  obtain ⟨_, _, _, rfl⟩ := hv v hvm
  rfl

theorem isCall_of_isOutside {e : Entry} (h : e.isOutside = true) : e.isCall = true := by
  cases e <;> first | rfl | cases h

theorem leadsTo_withVisits (w : Shell η α ε) {handlers : Registry η} {visits : List Visit}
    (hl : handlers.length = w.handlers.length) (hv : ∀ e ∈ visits.map Visit.call, e.isOutside = true) :
    w.LeadsTo (w.withVisits handlers visits) w.table (visits.map Visit.call) := by
  obtain ⟨hs, hf, hh⟩ := outside_calls hv w.authority
  have hadds : w.stage.Adds (w.withVisits handlers visits).stage (visits.map Visit.call) :=
    adds_visits { w with handlers } fun v hvm => isCall_of_isOutside (hv _ (List.mem_map_of_mem hvm))
  rw [withVisits_eq] at hadds ⊢
  exact ⟨rfl, hadds, hl, by rw [hs]; simp, by rw [hf]; simp, hh.symm⟩

theorem leadsTo_turned (w : Shell η α ε) (token : Token) (r : Record) (target : Phase) :
    w.LeadsTo (w.turned token r target) (w.table.put token { r with phase := target })
      [.event (.phaseChanged token r.phase target)] :=
  ⟨rfl, w.adds_turned token r target, rfl, by simp [turned, report, note, Entry.starts],
    by simp [turned, report, note, Entry.fades], rfl⟩

theorem leadsTo_left (w : Shell η α ε) (token : Token) (phase : Phase) :
    w.LeadsTo (w.left token phase) (w.table.remove token)
      [.event (.phaseChanged token phase .finished), .event (.finished token), .finishCalled token] :=
  ⟨rfl, w.adds_left token phase, rfl, by simp [left, Entry.starts], by simp [left, Entry.fades], rfl⟩

theorem leadsTo_apply (w : Shell η α ε) (start : Transaction) : w.LeadsTo (w.apply start) w.table [] :=
  ⟨rfl, Stage.adds_apply w.stage start, rfl, by simp [apply], by simp [apply], rfl⟩

theorem leadsTo_settled (w : Shell η α ε) (token : Token) (r : Record) :
    w.LeadsTo (w.settled token r 0) (w.table.put token { r with phase := .animating })
      [.event (.dispatched token r.owner 0), .event (.phaseChanged token .dispatching .animating)] :=
  ⟨rfl, w.adds_settled token r 0, rfl, by simp [settled, Entry.starts], by simp [settled, Entry.fades], rfl⟩

theorem leadsTo_appliedRest (w : Shell η α ε) (start : Transaction) :
    w.LeadsTo (w.appliedRest start) w.table [] := by
  have hadds := w.adds_appliedRest start
  rw [appliedRest_eq] at hadds ⊢
  exact ⟨rfl, hadds, rfl, by simp, by simp, rfl⟩

theorem leadsTo_faded [Executor ε] (w : Shell η α ε) (token : Token) (r : Record) (batch : Batch)
    (start : Transaction) :
    w.LeadsTo (w.faded token r batch start)
      (w.table.put token
        { r with phase := .animating, fades := some (w.nextAnimation.upFrom batch.fadeTargets.length) })
      [.event (.dispatched token r.owner batch.fadeTargets.length),
        .event (.phaseChanged token .dispatching .animating)] := by
  have hadds := w.adds_faded token r batch start
  obtain ⟨_, _, h⟩ := w.faded_eq token r batch start
  rw [h] at hadds ⊢
  exact ⟨rfl, hadds, rfl, by simp [Entry.starts], by simp [Entry.fades], rfl⟩

theorem leadsTo_offered [Handler η] (w : Shell η α ε) (token : Token) (r : Record) (batch : Batch)
    (start : Transaction) :
    w.LeadsTo (w.offered token r batch start) (w.table.put token { r with phase := .dispatching })
      (.event (.phaseChanged token r.phase .dispatching) ::
        (w.offers token r batch start).visits.map Visit.call) := by
  have hd := Registry.dispatch_sound token r.generation batch r.assigned w.handlers (start ++ batch.startState)
  exact (w.leadsTo_turned token r .dispatching).trans
    (leadsTo_withVisits (w.turned token r .dispatching) hd.length (offers_are_outside hd))

theorem leadsTo_asked [Handler η] (w : Shell η α ε) (kind : Kind) (token : Token) (trigger : Option Trigger) :
    w.LeadsTo (w.asked kind token trigger) w.table
      ((w.handlers.negotiate kind token trigger).visits.map Visit.call) :=
  leadsTo_withVisits w (w.handlers.length_negotiate kind token trigger)
    (asks_are_outside (w.handlers.negotiate_visits kind token trigger))

theorem leadsTo_called (w : Shell η α ε) (kind : Kind) (placeholder : Option Token)
    (containers : Option Container.Transaction) :
    w.LeadsTo (w.called kind placeholder containers) w.table [.startCalled kind placeholder containers] :=
  ⟨rfl, w.adds_called kind placeholder containers, rfl, by simp [called, Entry.starts], by simp [called, Entry.fades],
    rfl⟩

theorem leadsTo_entered (w : Shell η α ε) (token : Token) (kind : Kind) (assigned : Option HandlerId) :
    w.LeadsTo (w.entered token kind assigned) (w.table ++ [(token, { kind, assigned, generation := w.generation })])
      [.event (.started token kind assigned)] :=
  ⟨rfl, w.adds_entered token kind assigned, rfl, by simp [entered, Entry.starts], by simp [entered, Entry.fades], rfl⟩

/-! ## Ready transitions -/

section Ready
variable [Handler η] [Executor ε] (w : Shell η α ε) (token : Token) (kind : Kind) (assigned : Option HandlerId)
  (generation : UInt64) (batch : Batch) (start : Transaction)

omit [Handler η] [Executor ε] in
theorem leadsTo_rootless :
    w.LeadsTo (((w.turned token { kind, assigned, generation } .dispatching).apply start).left token .dispatching)
      (w.table.remove token)
      [.event (.phaseChanged token .pending .dispatching), .event (.phaseChanged token .dispatching .finished),
        .event (.finished token), .finishCalled token] := by
  have h := ((w.leadsTo_turned token { kind, assigned, generation } .dispatching).trans (leadsTo_apply _ start)).trans
    (leadsTo_left _ token .dispatching)
  exact h.of_table Table.remove_put

omit [Executor ε] in
theorem leadsTo_owned (owner : HandlerId) :
    w.LeadsTo
      (((w.offered token { kind, assigned, generation } batch start).appliedRest
        (w.offers token { kind, assigned, generation } batch start).start).settled token
          { kind, assigned, owner := some owner, generation } 0)
      (w.table.put token { kind, phase := .animating, assigned, owner := some owner, generation })
      (.event (.phaseChanged token .pending .dispatching) ::
          (w.offers token { kind, assigned, generation } batch start).visits.map Visit.call ++
        [.event (.dispatched token (some owner) 0), .event (.phaseChanged token .dispatching .animating)]) := by
  have hoffered := w.leadsTo_offered token { kind, assigned, generation } batch start
  have h := (hoffered.trans (leadsTo_appliedRest _ (w.offers token { kind, assigned, generation } batch
    start).start)).trans (leadsTo_settled _ token { kind, assigned, owner := some owner, generation })
  rwa [List.append_nil, appliedRest_table, hoffered.table, Table.put_put] at h

theorem leadsTo_fading :
    w.LeadsTo
      ((w.offered token { kind, assigned, generation } batch start).faded token { kind, assigned, generation } batch
        (w.offers token { kind, assigned, generation } batch start).start)
      (w.table.put token
        { kind, phase := .animating, assigned, fades := some (w.nextAnimation.upFrom batch.fadeTargets.length),
          generation })
      (.event (.phaseChanged token .pending .dispatching) ::
          (w.offers token { kind, assigned, generation } batch start).visits.map Visit.call ++
        [.event (.dispatched token none batch.fadeTargets.length),
          .event (.phaseChanged token .dispatching .animating)]) := by
  have hoffered := w.leadsTo_offered token { kind, assigned, generation } batch start
  have h := hoffered.trans (leadsTo_faded _ token { kind, assigned, generation } batch
    (w.offers token { kind, assigned, generation } batch start).start)
  rwa [hoffered.table, Table.put_put, offered_animation] at h

theorem leadsTo_unfaded (hn : batch.fadeTargets = []) :
    w.LeadsTo
      (((w.offered token { kind, assigned, generation } batch start).faded token { kind, assigned, generation } batch
        (w.offers token { kind, assigned, generation } batch start).start).left token .animating)
      (w.table.remove token)
      (.event (.phaseChanged token .pending .dispatching) ::
          (w.offers token { kind, assigned, generation } batch start).visits.map Visit.call ++
        [.event (.dispatched token none 0), .event (.phaseChanged token .dispatching .animating),
          .event (.phaseChanged token .animating .finished), .event (.finished token), .finishCalled token]) := by
  have hfading := w.leadsTo_fading token kind assigned generation batch start
  have h := hfading.trans (leadsTo_left _ token .animating)
  rwa [hfading.table, Table.remove_put, hn, List.append_assoc] at h

end Ready

/-! ## Steps -/

/-- What an operation does to a shell with a table at rest. If the operation is the presentation of a ticket, it is
named. -/
inductive Step [Handler η] (w : Shell η α ε) (ticket : Option Ticket) (w' : Shell η α ε) : Prop where
  | idle {calls : List Entry} (hc : ∀ e ∈ calls, e.isPrelude = true) (h : w.LeadsTo w' w.table calls)
  | entered {token : Token} {kind : Kind} {assigned : Option HandlerId} {calls : List Entry}
      (hn : w.table.get? token = none) (ha : ∀ id, assigned = some id → w.handlers.contains id = true)
      (hc : ∀ e ∈ calls, e.isPrelude = true) (hs : (calls.map Entry.starts).sum = 1)
      (h : w.LeadsTo w' (w.table ++ [(token, { kind, assigned, generation := w.generation + 1 })])
        (calls ++ [.event (.started token kind assigned)]))
  | tidied {token : Token} {kind : Kind} {assigned : Option HandlerId} {generation : UInt64}
      (hr : w.table.get? token = some { kind, assigned, generation })
      (h : w.LeadsTo w' (w.table.remove token)
        [.event (.phaseChanged token .pending .dispatching), .event (.phaseChanged token .dispatching .finished),
          .event (.finished token), .finishCalled token])
  | owned {token : Token} {kind : Kind} {assigned : Option HandlerId} {generation : UInt64} {batch : Batch}
      {d : Registry.Dispatch η} {owner : HandlerId}
      (hr : w.table.get? token = some { kind, assigned, generation })
      (hd : d.Sound token generation batch w.handlers) (ho : d.owner = some owner)
      (h : w.LeadsTo w'
        (w.table.put token { kind, phase := .animating, assigned, owner := some owner, generation })
        (.event (.phaseChanged token .pending .dispatching) :: d.visits.map Visit.call ++
          [.event (.dispatched token (some owner) 0), .event (.phaseChanged token .dispatching .animating)]))
  | faded {token : Token} {kind : Kind} {assigned : Option HandlerId} {generation : UInt64} {batch : Batch}
      {d : Registry.Dispatch η} {count : Nat}
      (hr : w.table.get? token = some { kind, assigned, generation })
      (hd : d.Sound token generation batch w.handlers) (ho : d.owner = none) (hn : count ≠ 0)
      (h : w.LeadsTo w'
        (w.table.put token
          { kind, phase := .animating, assigned, fades := some (w.nextAnimation.upFrom count), generation })
        (.event (.phaseChanged token .pending .dispatching) :: d.visits.map Visit.call ++
          [.event (.dispatched token none count), .event (.phaseChanged token .dispatching .animating)]))
  | unfaded {token : Token} {kind : Kind} {assigned : Option HandlerId} {generation : UInt64} {batch : Batch}
      {d : Registry.Dispatch η}
      (hr : w.table.get? token = some { kind, assigned, generation })
      (hd : d.Sound token generation batch w.handlers) (ho : d.owner = none)
      (h : w.LeadsTo w' (w.table.remove token)
        (.event (.phaseChanged token .pending .dispatching) :: d.visits.map Visit.call ++
          [.event (.dispatched token none 0), .event (.phaseChanged token .dispatching .animating),
            .event (.phaseChanged token .animating .finished), .event (.finished token), .finishCalled token]))
  | presented {k : Ticket} (hk : ticket = some k) (hh : w.table.Honours k)
      (h : w.LeadsTo w' (w.table.remove k.token)
        [.event (.phaseChanged k.token .animating .finished), .event (.finished k.token), .finishCalled k.token])
  | fewer {token : Token} {r : Record} {fades : List AnimationId} {a : AnimationId}
      (hr : w.table.get? token = some r) (hf : r.fades = some fades) (ha : a ∈ fades) (hm : fades.erase a ≠ [])
      (h : w.LeadsTo w' (w.table.put token { r with fades := some (fades.erase a) }) [])
  | last {token : Token} {r : Record} {fades : List AnimationId} {a : AnimationId}
      (hr : w.table.get? token = some r) (hf : r.fades = some fades) (ha : a ∈ fades) (hm : fades.erase a = [])
      (h : w.LeadsTo w' (w.table.remove token)
        [.event (.phaseChanged token .animating .finished), .event (.finished token), .finishCalled token])

theorem Step.leadsTo [Handler η] {ticket : Option Ticket} (h : w.Step ticket w') :
    ∃ calls, w.LeadsTo w' w'.table calls := by
  cases h with
  | idle _ h | entered _ _ _ _ h | tidied _ h | owned _ _ _ h | faded _ _ _ _ h | unfaded _ _ _ h | presented _ _ h
  | fewer _ _ _ _ h | last _ _ _ _ h => exact ⟨_, h.of_table h.table.symm⟩

section Operations
variable [Handler η]

theorem Step.unchanged (w : Shell η α ε) (ticket : Option Ticket) : w.Step ticket w :=
  .idle (by simp) ⟨rfl, .refl w.stage, rfl, by simp, by simp, rfl⟩

theorem step_of_stage (w : Shell η α ε) {stage : Stage} (h : w.stage.Adds stage []) (ticket : Option Ticket) :
    w.Step ticket { w with stage } :=
  .idle (by simp) ⟨rfl, h, rfl, by simp, by simp, rfl⟩

theorem asks_are_preludes {kind : Kind} {token : Token} {trigger : Option Trigger} {n : Nat} {visits : List Visit}
    (hv : ∀ v ∈ visits, v.IsAsk η kind token trigger n) : ∀ e ∈ visits.map Visit.call, e.isPrelude = true := by
  intro e he
  obtain ⟨v, hvm, rfl⟩ := List.mem_map.mp he
  obtain ⟨_, _, _, rfl⟩ := hv v hvm
  rfl

/-- A start after calls that leave the table alone, as a step from before these calls. -/
theorem step_of_start {w v : Shell η α ε} {kind : Kind} {placeholder : Option Token}
    {containers : Option Container.Transaction} {assigned : Option HandlerId} {calls : List Entry}
    {c : Control η α ε Token} (hv : w.LeadsTo v w.table calls) (hc : ∀ e ∈ calls, e.isPrelude = true)
    (hs : (calls.map Entry.starts).sum = 0) (hg : v.generation = w.generation)
    (ha : ∀ id, assigned = some id → w.handlers.contains id = true) (u : Shell η α ε)
    (h : Control.StartOutcome v kind placeholder containers assigned (c.run u)) (ticket : Option Ticket) :
    w.Step ticket (c.perform u).2 := by
  have hcalled := hv.trans (v.leadsTo_called kind placeholder containers)
  have hprelude : ∀ e ∈ calls ++ [.startCalled kind placeholder containers], e.isPrelude = true := by
    intro e he
    rcases List.mem_append.mp he with he | he
    · exact hc e he
    · rw [List.mem_singleton.mp he]
      rfl
  rw [hv.table] at hcalled
  generalize hr : c.run u = result at h
  cases h with
  | refused hs' h' =>
    rw [Control.perform_of_error hr]
    exact .idle hprelude hcalled
  | @entered token hs' h' =>
    rw [Control.perform_of_ok hr]
    have hentered := hcalled.trans ((v.called kind placeholder containers).leadsTo_entered token kind assigned)
    rw [hv.table] at h'
    refine .entered h' ha hprelude (by simp [hs, Entry.starts]) (hentered.of_table ?_)
    rw [show (v.called kind placeholder containers).table = v.table from rfl, hv.table]
    simp [called, hg]

theorem request_step (w : Shell η α ε) (kind : Kind) (placeholder : Token) (trigger : Option Trigger)
    (ticket : Option Ticket) : w.Step ticket ((Control.request kind placeholder trigger).perform w).2 := by
  rcases Control.request_outcome w kind placeholder trigger with ⟨_, h⟩ | ⟨_, h⟩
  · rw [Control.perform_of_error h]
    exact .unchanged w ticket
  · have hasks := asks_are_preludes (w.handlers.negotiate_visits kind placeholder trigger)
    have hstarts := asks_are_outside (w.handlers.negotiate_visits kind placeholder trigger)
    refine step_of_start (w.leadsTo_asked kind placeholder trigger) hasks (outside_calls hstarts w.authority).1 ?_ ?_
      w h ticket
    · rw [asked, withVisits_eq]
    · intro id hid
      obtain ⟨claim, hclaim, rfl⟩ := Option.map_eq_some_iff.mp hid
      exact w.handlers.negotiate_claim kind placeholder trigger hclaim

theorem start_step (w : Shell η α ε) (kind : Kind) (containers : Container.Transaction) (handler : Option HandlerId)
    (ticket : Option Ticket) : w.Step ticket ((Control.start kind containers handler).perform w).2 := by
  rcases Control.start_outcome w kind containers handler with ⟨_, _, _, h⟩ | ⟨ha, h⟩
  · rw [Control.perform_of_error h]
    exact .unchanged w ticket
  · have hw : w.LeadsTo w w.table [] := ⟨rfl, .refl w.stage, rfl, by simp, by simp, rfl⟩
    exact step_of_start hw (by simp) rfl rfl ha w h ticket

theorem handlerDone_step {w : Shell η α ε} (ht : w.table.AtRest) (ticket : Ticket) :
    w.Step (some ticket) ((Control.handlerDone ticket).perform w).2 := by
  by_cases h : w.table.Honours ticket
  · rw [Control.perform_of_ok (Control.run_handlerDone ht h)]
    exact .presented rfl h (w.leadsTo_left ticket.token .animating)
  · rw [Control.perform_of_ok (Control.run_handlerDone_ignored h)]
    exact .unchanged w _

theorem fadeDone_step {w : Shell η α ε} (ht : w.table.AtRest) (token : Token) (a : AnimationId)
    (ticket : Option Ticket) : w.Step ticket ((Control.fadeDone token a).perform w).2 := by
  have hout := Control.fadeDone_outcome ht token a
  generalize hr : (Control.fadeDone token a).run w = result at hout
  cases hout with
  | unknown h =>
    rw [Control.perform_of_error hr]
    exact .unchanged w ticket
  | untracked h ha =>
    rw [Control.perform_of_ok hr]
    exact .unchanged w ticket
  | fewer h hf ha hm =>
    rw [Control.perform_of_ok hr]
    exact .fewer h hf ha hm ⟨rfl, .refl w.stage, rfl, by simp, by simp, rfl⟩
  | last h hf ha hm =>
    rw [Control.perform_of_ok hr]
    exact .last h hf ha hm (w.leadsTo_left token .animating)

theorem ready_step [Executor ε] {w : Shell η α ε} (ht : w.table.AtRest) (token : Token) (batch : Batch)
    (start : Transaction) (ticket : Option Ticket) :
    w.Step ticket ((Control.ready token batch start).perform w).2 := by
  have hout := Control.ready_outcome ht token batch start
  generalize hr : (Control.ready token batch start).run w = result at hout
  cases hout with
  | unknown h =>
    rw [Control.perform_of_error hr]
    exact .unchanged w ticket
  | duplicate h hp =>
    rw [Control.perform_of_error hr]
    exact .unchanged w ticket
  | rootless h hp hb =>
    rw [Control.perform_of_ok hr]
    obtain ⟨kind, assigned, generation, rfl⟩ := ht.pending h hp
    exact .tidied h (w.leadsTo_rootless token kind assigned generation start)
  | @owned r owner h hp hb ho =>
    rw [Control.perform_of_ok hr]
    obtain ⟨kind, assigned, generation, rfl⟩ := ht.pending h hp
    have hd := Registry.dispatch_sound token generation batch assigned w.handlers (start ++ batch.startState)
    exact .owned h hd ho (w.leadsTo_owned token kind assigned generation batch start owner)
  | faded h hp hb ho hn =>
    rw [Control.perform_of_ok hr]
    obtain ⟨kind, assigned, generation, rfl⟩ := ht.pending h hp
    have hd := Registry.dispatch_sound token generation batch assigned w.handlers (start ++ batch.startState)
    exact .faded h hd ho (by simpa using hn) (w.leadsTo_fading token kind assigned generation batch start)
  | unfaded h hp hb ho hn =>
    rw [Control.perform_of_ok hr]
    obtain ⟨kind, assigned, generation, rfl⟩ := ht.pending h hp
    have hd := Registry.dispatch_sound token generation batch assigned w.handlers (start ++ batch.startState)
    exact .unfaded h hd ho (w.leadsTo_unfaded token kind assigned generation batch start hn)

theorem process_step [Executor ε] {w : Shell η α ε} (ht : w.table.AtRest) (m : Message) :
    w.Step m.ticket? ((Control.process m).perform w).2 := by
  rw [Control.perform_process]
  cases m with
  | ready token batch start => exact ready_step ht token batch start none
  | request kind token trigger => exact request_step w kind token trigger none
  | handlerDone ticket => exact handlerDone_step ht ticket
  | fadeDone token a => exact fadeDone_step ht token a none
  | shutdown => exact .unchanged w none

end Operations

end Shell

/-! ## What all steps preserve -/

namespace Table.AtRest

variable {t : Table} {token : Token} {r : Record}

theorem put (ht : t.AtRest) (hr : r.AtRest) : AtRest (t.put token r) where
  distinct := by
    rw [tokens_put]
    exact ht.distinct
  records := forall_put ht.records hr

theorem remove (ht : t.AtRest) : AtRest (t.remove token) where
  distinct := nodup_remove ht.distinct
  records := forall_remove ht.records

theorem append (ht : t.AtRest) (hn : t.get? token = none) (hr : r.AtRest) : AtRest (t ++ [(token, r)]) where
  distinct := nodup_append_singleton ht.distinct hn
  records := forall_append ht.records hr

end Table.AtRest

namespace Shell

variable {η α ε : Type} [Handler η] [Authority α]

theorem Step.atRest {w w' : Shell η α ε} {ticket : Option Ticket} (ht : w.table.AtRest) (h : w.Step ticket w') :
    w'.table.AtRest := by
  cases h with
  | idle hc h =>
    rw [h.table]
    exact ht
  | entered hn ha hc hs h =>
    rw [h.table]
    exact ht.append hn (.pending _ _ _)
  | tidied hr h | unfaded hr hd ho h | presented hk hh h | last hr hf ha hm h =>
    rw [h.table]
    exact ht.remove
  | owned hr hd ho h =>
    rw [h.table]
    exact ht.put (.owned _ _ _ _)
  | faded hr hd ho hn h =>
    rw [h.table]
    refine ht.put (.fading _ _ _ _ ?_)
    intro hnil
    rw [← List.length_eq_zero_iff, Control.length_upFrom] at hnil
    exact hn hnil
  | fewer hr hf ha hm h =>
    rw [h.table]
    have hrest := ht.get? hr
    cases hrest with
    | pending | owned => cases hf
    | fading => exact ht.put (.fading _ _ _ _ hm)

/-- A run keeps what every step from a table at rest keeps. -/
theorem kept_of_steps [Executor ε] {P : Shell η α ε → Prop}
    (handler : ∀ w h, P w → P { w with handlers := (w.handlers.add h).2 })
    (take : ∀ w m rest, w.stage.queue = m :: rest → P w → P (w.take m rest))
    (step : ∀ w ticket w', w.table.AtRest → P w → w.Step ticket w' → P w') :
    Kept fun w => w.table.AtRest ∧ P w := by
  have next : ∀ w ticket w', w.Step ticket w' → w.table.AtRest ∧ P w → w'.table.AtRest ∧ P w' :=
    fun w ticket w' h hw => ⟨h.atRest hw.1, step w ticket w' hw.1 hw.2 h⟩
  constructor
  case handler => exact fun w h hw => ⟨hw.1, handler w h hw.2⟩
  case take => exact fun w m rest hq hw => ⟨hw.1, take w m rest hq hw.2⟩
  case post => exact fun w m hw => next w none _ (step_of_stage w (Stage.adds_post w.stage m) none) hw
  case act => exact fun w a hw => next w none _ (step_of_stage w (Stage.adds_perform w.stage a) none) hw
  case request => exact fun w kind token trigger hw => next w none _ (request_step w kind token trigger none) hw
  case start => exact fun w kind containers id hw => next w none _ (start_step w kind containers id none) hw
  case ready => exact fun w token batch start hw => next w none _ (ready_step hw.1 token batch start none) hw
  case handlerDone => exact fun w ticket hw => next w _ _ (handlerDone_step hw.1 ticket) hw
  case fadeDone => exact fun w token a hw => next w none _ (fadeDone_step hw.1 token a none) hw

theorem kept_atRest [Executor ε] : Kept fun w : Shell η α ε => w.table.AtRest := by
  have hkept : Kept fun w : Shell η α ε => w.table.AtRest ∧ True :=
    kept_of_steps (fun _ _ h => h) (fun _ _ _ _ h => h) fun _ _ _ _ h _ => h
  simpa only [and_true] using hkept

end Shell

end WindowTransitions
