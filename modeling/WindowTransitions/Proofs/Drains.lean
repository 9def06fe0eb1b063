import WindowTransitions.Proofs.Posts
import WindowTransitions.Rehearsal.Cast

/-! Drains, one after the other, of a queue that grows while it is drained. Main statement: from any shell on, over any
series of drains and whatever is posted before, between and within them, the messages that are taken and behind them
those that still wait are the ones that waited first and behind them the ones that were posted. A drain takes messages
up to the first shutdown or the first one that fails, that one included, and else until none is left. -/

set_option autoImplicit false

namespace WindowTransitions

namespace Stage

/-! ## Posts and receipts between two stages -/

/-- From `s` to `s'` the messages `taken` are taken from the queue, in this order. What waited at first and what was
posted meanwhile is what was taken and what waits in the end. -/
def Flows (s s' : Stage) (taken : List Message) : Prop :=
  ∃ more, s'.journal = s.journal ++ more ∧ s.queue ++ more.filterMap Entry.posted? = taken ++ s'.queue ∧
    more.filterMap Entry.received? = taken

variable {s s' s'' : Stage} {taken taken' : List Message}

theorem Flows.refl (s : Stage) : s.Flows s [] := ⟨[], by simp, by simp, rfl⟩

theorem Flows.trans (h : s.Flows s' taken) (h' : s'.Flows s'' taken') : s.Flows s'' (taken ++ taken') := by
  obtain ⟨more, hj, hq, hr⟩ := h
  obtain ⟨more', hj', hq', hr'⟩ := h'
  refine ⟨more ++ more', ?_, ?_, ?_⟩
  · rw [hj', hj, List.append_assoc]
  · calc
      s.queue ++ (more ++ more').filterMap Entry.posted?
      _ = (s.queue ++ more.filterMap Entry.posted?) ++ more'.filterMap Entry.posted? := by
        rw [List.filterMap_append, List.append_assoc]
      _ = taken ++ (s'.queue ++ more'.filterMap Entry.posted?) := by rw [hq, List.append_assoc]
      _ = taken ++ taken' ++ s''.queue := by rw [hq', List.append_assoc]
  · rw [List.filterMap_append, hr, hr']

theorem Gains.flows {p : Message → Prop} (h : Gains p s s') : s.Flows s' [] := by
  obtain ⟨more, hj, hq, hr, _⟩ := h
  exact ⟨more, hj, hq.symm, filterMap_received hr⟩

end Stage

namespace Control

variable {η α ε : Type} [Handler η] [Authority α] [Executor ε]

/-- Only a shutdown asks to stop. -/
theorem process_stops {m : Message} {w v : Shell η α ε} (h : (process m).run w = .ok false v) :
    m = .shutdown ∧ v = w := by
  have hgoes : ∀ {β : Type} (c : Control η α ε β), EStateM.run (do let _ ← c; return true) w ≠ .ok false v := by
    intro β c hc
    rw [EStateM.run_bind] at hc
    cases hr : c.run w <;> rw [hr] at hc <;> cases hc
  cases m with
  | ready token batch start => exact absurd h (hgoes (ready token batch start))
  | request kind token trigger => exact absurd h (hgoes (request kind token trigger))
  | handlerDone ticket => exact absurd h (hgoes (handlerDone ticket))
  | fadeDone token a => exact absurd h (hgoes (fadeDone token a))
  | shutdown =>
    cases h
    exact ⟨rfl, rfl⟩

end Control

namespace Shell

variable {η α ε : Type} {w v u : Shell η α ε} {m : Message} {rest : List Message}

/-! ## One message -/

theorem take_flows (hq : w.stage.queue = m :: rest) : w.stage.Flows (w.take m rest).stage [m] :=
  ⟨[.received m], rfl, by simp [take, Stage.note, hq, Entry.posted?], rfl⟩

variable [Handler η] [Authority α] [Executor ε]

theorem receive_flows (hq : w.stage.queue = m :: rest) : w.stage.Flows (w.receive m rest).2.stage [m] :=
  (take_flows hq).trans
    (Control.posts_process (Handler.posts_true η) (fun _ _ => trivial) m (w.take m rest)).flows

/-! ## One drain -/

/-- The messages that a drain takes from the queue, in order. -/
def takenWithin : Nat → Shell η α ε → List Message
  | limit, w =>
    match w.stage.queue with
    | [] => []
    | m :: rest =>
      match limit with
      | 0 => []
      | limit + 1 =>
        match (Control.process m).run (w.take m rest) with
        | .ok true w => m :: takenWithin limit w
        | .ok false _ | .error _ _ => [m]

/-- One after the other, `passed` are taken from the front of the queue and processed, and none of them ends the
drain. -/
inductive Passes : Shell η α ε → List Message → Shell η α ε → Prop where
  | refl (w : Shell η α ε) : Passes w [] w
  | cons {w v u : Shell η α ε} {m : Message} {rest passed : List Message} (hq : w.stage.queue = m :: rest)
      (hr : (Control.process m).run (w.take m rest) = .ok true v) (h : Passes v passed u) : Passes w (m :: passed) u

/-- How a drain ends at a shell, with the messages `last` taken. -/
inductive Ends (w : Shell η α ε) : List Message → DrainEnd → Shell η α ε → Prop where
  | emptied (hq : w.stage.queue = []) : Ends w [] .emptied w
  | shutdown {rest : List Message} (hq : w.stage.queue = .shutdown :: rest) :
      Ends w [.shutdown] .shutdown (w.take .shutdown rest)
  | failed {m : Message} {rest : List Message} {f : Fault} {v : Shell η α ε} (hq : w.stage.queue = m :: rest)
      (hr : (Control.process m).run (w.take m rest) = .error f v) : Ends w [m] (.failed f) v
  | cutShort (hq : w.stage.queue ≠ []) : Ends w [] .cutShort w

/-- A drain that takes `taken` and comes to `d`: it passes messages up to the one at which it ends. -/
structure Drains (w : Shell η α ε) (limit : Nat) (taken : List Message) (d : Drained η α ε) : Prop where
  passes : ∃ passed last u, taken = passed ++ last ∧ .shutdown ∉ passed ∧ Passes w passed u ∧
    Ends u last d.ending d.shell
  handled : d.handled = taken.length
  limited : d.ending = .cutShort → d.handled = limit
  flows : w.stage.Flows d.shell.stage taken

/-- A drain that ends where it begins. -/
theorem Ends.drains {limit : Nat} {last : List Message} {ending : DrainEnd} (h : Ends w last ending v)
    (hl : ending = .cutShort → last.length = limit) : w.Drains limit last ⟨last.length, ending, v⟩ := by
  refine ⟨⟨[], last, w, rfl, by simp, .refl w, h⟩, rfl, hl, ?_⟩
  cases h with
  | emptied | cutShort => exact .refl w.stage
  | shutdown hq => exact take_flows hq
  | failed hq hr =>
    have hreceive := receive_flows hq
    rwa [receive, Control.perform_of_error hr] at hreceive

/-- A message that lets the drain go on comes before what the drain takes after it. -/
theorem Drains.cons {limit : Nat} {taken : List Message} {d : Drained η α ε} (h : v.Drains limit taken d)
    (hq : w.stage.queue = m :: rest) (hr : (Control.process m).run (w.take m rest) = .ok true v) :
    w.Drains (limit + 1) (m :: taken) { d with handled := d.handled + 1 } := by
  obtain ⟨passed, last, u, rfl, hs, hp, he⟩ := h.passes
  have hm : m ≠ .shutdown := by
    rintro rfl
    cases hr
  have hreceive := receive_flows hq
  rw [receive, Control.perform_of_ok hr] at hreceive
  refine ⟨⟨m :: passed, last, u, rfl, ?_, .cons hq hr hp, he⟩, ?_, ?_, hreceive.trans h.flows⟩
  · simp [hs, hm.symm]
  · simp only [h.handled, List.length_cons]
  · intro hcut
    simp only [h.limited hcut]

theorem takenWithin_succ (limit : Nat) (hq : w.stage.queue = m :: rest) :
    w.takenWithin (limit + 1) =
      match (Control.process m).run (w.take m rest) with
      | .ok true w => m :: w.takenWithin limit
      | .ok false _ | .error _ _ => [m] := by
  rw [takenWithin]
  split
  · rename_i hnil
    cases hnil.symm.trans hq
  · rename_i hcons
    obtain ⟨rfl, rfl⟩ := List.cons.inj (hcons.symm.trans hq)
    rfl

theorem drains (w : Shell η α ε) (limit : Nat) : w.Drains limit (w.takenWithin limit) (w.drainWithin limit) := by
  induction limit generalizing w with
  | zero =>
    rw [takenWithin, drainWithin]
    cases hq : w.stage.queue with
    | nil => exact (Ends.emptied hq).drains (by simp)
    | cons m rest => exact (Ends.cutShort (by simp [hq])).drains (by simp)
  | succ limit ih =>
    cases hq : w.stage.queue with
    | nil =>
      rw [takenWithin, drainWithin]
      simp only [hq]
      exact (Ends.emptied hq).drains (by simp)
    | cons m rest =>
      rw [takenWithin_succ limit hq, drainWithin_succ w m rest limit hq]
      cases hr : (Control.process m).run (w.take m rest) with
      | ok goesOn v =>
        cases goesOn with
        | true => exact (ih v).cons hq hr
        | false =>
          obtain ⟨rfl, rfl⟩ := Control.process_stops hr
          exact (Ends.shutdown hq).drains (by simp)
      | error fault v => exact (Ends.failed hq hr).drains (by simp)

/-- A limit only interrupts a drain: what it would have gone on to do, a drain from there does. -/
theorem drainWithin_add (w : Shell η α ε) (limit more : Nat) :
    w.drainWithin (limit + more) =
      if (w.drainWithin limit).ending = .cutShort then
        { (w.drainWithin limit).shell.drainWithin more with
          handled := limit + ((w.drainWithin limit).shell.drainWithin more).handled }
      else w.drainWithin limit := by
  induction limit generalizing w with
  | zero =>
    cases hq : w.stage.queue with
    | nil =>
      rw [drainWithin, drainWithin]
      simp [hq]
    | cons m rest =>
      have hzero : w.drainWithin 0 = ⟨0, .cutShort, w⟩ := by
        rw [drainWithin]
        simp only [hq]
      simp [hzero]
  | succ limit ih =>
    rw [Nat.add_right_comm]
    cases hq : w.stage.queue with
    | nil =>
      rw [drainWithin, drainWithin]
      simp [hq]
    | cons m rest =>
      rw [drainWithin_succ w m rest limit hq, drainWithin_succ w m rest (limit + more) hq]
      cases hr : (Control.process m).run (w.take m rest) with
      | ok goesOn v =>
        cases goesOn with
        | true =>
          simp only [ih v]
          split <;> simp [Nat.add_right_comm]
        | false => rfl
      | error fault v => rfl

/-! ## Drains come to an end -/

/-- The messages in the queue that may lead to others. -/
def loud (w : Shell η α ε) : Nat := w.stage.queue.countP fun m => !m.isCompletion

/-- If handlers post reports of ends only, each message that is taken leaves fewer that may lead to others, or else
fewer messages. -/
theorem receive_lightens (honest : Handler.Posts η fun m => m.isCompletion = true) (hq : w.stage.queue = m :: rest) :
    (w.receive m rest).2.loud < w.loud ∨
      (w.receive m rest).2.loud = w.loud ∧ (w.receive m rest).2.stage.queue.length < w.stage.queue.length := by
  cases hm : m.isCompletion with
  | true =>
    obtain ⟨posted, hqueue, hnone⟩ :=
      (Control.posts_completion (p := fun _ => False) hm (w.take m rest)).queue
    obtain rfl : posted = [] := List.eq_nil_iff_forall_not_mem.mpr hnone
    have hleft : (w.receive m rest).2.stage.queue = rest := hqueue.trans (List.append_nil rest)
    right
    rw [loud, loud, hleft, hq]
    simp [hm]
  | false =>
    obtain ⟨posted, hqueue, hposted⟩ :=
      (Control.posts_process honest (fun _ _ => rfl) m (w.take m rest)).queue
    have hquiet : posted.countP (fun m => !m.isCompletion) = 0 :=
      List.countP_eq_zero.mpr fun m hm => by simp [hposted m hm]
    have hleft : (w.receive m rest).2.stage.queue = rest ++ posted := hqueue
    left
    rw [loud, loud, hleft, hq, List.countP_append, hquiet]
    simp [hm]

theorem drain_ends (honest : Handler.Posts η fun m => m.isCompletion = true) (w : Shell η α ε) :
    ∃ limit, (w.drainWithin limit).ending ≠ .cutShort := by
  cases hq : w.stage.queue with
  | nil =>
    refine ⟨0, ?_⟩
    rw [drainWithin]
    simp [hq]
  | cons m rest =>
    have hlighter := receive_lightens honest hq
    cases hr : (Control.process m).run (w.take m rest) with
    | ok goesOn v =>
      have hv : (w.receive m rest).2 = v := by rw [receive, Control.perform_of_ok hr]
      cases goesOn with
      | true =>
        obtain ⟨limit, hlimit⟩ := drain_ends honest v
        refine ⟨limit + 1, ?_⟩
        rwa [drainWithin_succ w m rest limit hq, hr]
      | false =>
        refine ⟨1, ?_⟩
        rw [drainWithin_succ w m rest 0 hq, hr]
        simp
    | error fault v =>
      refine ⟨1, ?_⟩
      rw [drainWithin_succ w m rest 0 hq, hr]
      simp
termination_by (w.loud, w.stage.queue.length)
decreasing_by
  rw [hv] at hlighter
  rcases hlighter with hless | ⟨hsame, hless⟩
  · exact .left _ _ hless
  · rw [← hsame]
    exact .right _ hless

/-! ## Series of drains -/

/-- The messages that the drains of a run take from the queue, in order. -/
def taken (w : Shell η α ε) : List (Move η) → List Message
  | [] => []
  | m :: moves =>
    (match m with
      | .drain limit => w.takenWithin limit
      | _ => []) ++ (w.move m).2.taken moves

theorem move_flows (w : Shell η α ε) (m : Move η) :
    w.stage.Flows (w.move m).2.stage
      (match m with
        | .drain limit => w.takenWithin limit
        | _ => []) := by
  cases m with
  | drain limit => exact (w.drains limit).flows
  | addHandler handler => exact .refl w.stage
  | request kind placeholder trigger =>
    exact (Control.posts_request (Handler.posts_true η) kind placeholder trigger w).flows
  | start kind containers handler => exact (Control.posts_start (p := fun _ => True) kind containers handler w).flows
  | ready token batch start =>
    exact (Control.posts_ready (Handler.posts_true η) (fun _ _ => trivial) token batch start w).flows
  | process m => exact (Control.posts_process (Handler.posts_true η) (fun _ _ => trivial) m w).flows
  | post m => exact (w.stage.gains_post (p := fun _ => True) trivial).flows
  | act a => exact (w.stage.gains_perform (p := fun _ => True) (fun _ _ => trivial) a).flows

/-- From any shell on, over any series of drains and whatever else comes to the shell before, between and within
them: the messages taken, and behind them those that still wait, are those that waited at first, and behind them those
that were posted. Each drain, wherever the run has come to, takes messages up to the first shutdown or the first one
that fails, or all that there are, and counts them; a limit only interrupts it. It comes to its end without one if
all that handlers post while they are called are reports that an animation came to its end. -/
theorem run_fifo (w : Shell η α ε) (moves : List (Move η)) :
    w.stage.Flows (w.run moves).stage (w.taken moves) ∧
      (∀ limit, (w.run moves).Drains limit ((w.run moves).takenWithin limit) ((w.run moves).drainWithin limit)) ∧
      (∀ limit more, (w.run moves).drainWithin (limit + more) =
        if ((w.run moves).drainWithin limit).ending = .cutShort then
          { ((w.run moves).drainWithin limit).shell.drainWithin more with
            handled := limit + (((w.run moves).drainWithin limit).shell.drainWithin more).handled }
        else (w.run moves).drainWithin limit) ∧
      (Handler.Posts η (fun m => m.isCompletion = true) →
        ∃ limit, ((w.run moves).drainWithin limit).ending ≠ .cutShort) := by
  refine ⟨?_, (w.run moves).drains, (w.run moves).drainWithin_add, fun honest => drain_ends honest _⟩
  induction moves generalizing w with
  | nil => exact .refl w.stage
  | cons m moves ih => exact (w.move_flows m).trans (ih (w.move m).2)

theorem actor_posts : Handler.Posts Rehearsal.Actor fun m => m.isCompletion = true := by
  intro a
  refine ⟨by simp [Handler.request], fun ticket batch start m hm => ?_⟩
  rw [Rehearsal.Actor.posted_offer hm]
  rfl

/-- A handler accepts a transition and is done at once. A shutdown is posted before, and a request behind it. -/
def doneAfterShutdown : List (Move Rehearsal.Actor) :=
  [.addHandler { name := "taker", manner := .scripted [true] [] true none none }, .start .opening [] none,
    .post (.ready ⟨1⟩ { kind := .opening, root := some ⟨1⟩ } []), .post .shutdown,
    .post (.request .closing ⟨5⟩ none), .drain 9, .drain 1]

theorem run_fifo_done_after_shutdown :
    let w := fresh {} (⟨0, false⟩ : Rehearsal.Issuer) Rehearsal.Pace.keeps
    let u := w.run doneAfterShutdown
    w.stage.Flows u.stage
        [.ready ⟨1⟩ { kind := .opening, root := some ⟨1⟩ } [], .shutdown, .request .closing ⟨5⟩ none] ∧
      u.stage.queue = [.handlerDone ⟨⟨1⟩, ⟨0⟩, 1⟩] ∧ ∃ limit, (u.drainWithin limit).ending ≠ .cutShort := by
  intro w u
  obtain ⟨hflows, _, _, hends⟩ := run_fifo w doneAfterShutdown
  have htaken : w.taken doneAfterShutdown =
      [.ready ⟨1⟩ { kind := .opening, root := some ⟨1⟩ } [], .shutdown, .request .closing ⟨5⟩ none] := by decide
  rw [htaken] at hflows
  exact ⟨hflows, by decide, hends actor_posts⟩

end Shell

end WindowTransitions
