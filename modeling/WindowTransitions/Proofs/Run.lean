import WindowTransitions.Shell.Queue

/-! Runs of a shell: whatever is asked of it, posted to it and done to its jobs, one move after the other, with
handlers, an authority and an executor of any conduct. Main statement: what every single call, and every message
taken from the queue, preserves holds after every run. -/

set_option autoImplicit false

namespace WindowTransitions

/-- The ticket that a message presents. -/
def Message.ticket? : Message → Option Ticket
  | .handlerDone ticket => some ticket
  | _ => none

theorem Message.ticket?_eq_some {m : Message} {k : Ticket} (h : m.ticket? = some k) : m = .handlerDone k := by
  cases m with
  | handlerDone ticket => rw [Option.some.inj h]
  | ready | request | fadeDone | shutdown => cases h

/-- What can come to a shell from outside. -/
inductive Move (η : Type) where
  | addHandler (handler : η)
  | request (kind : Kind) (placeholder : Token) (trigger : Option Trigger)
  | start (kind : Kind) (containers : Container.Transaction) (handler : Option HandlerId)
  | ready (token : Token) (batch : Batch) (start : Transaction)
  /-- A message is handed in past the queue. -/
  | process (message : Message)
  /-- Messages are taken from the queue until none is left, one of them ends it, or `limit` are taken. -/
  | drain (limit : Nat)
  | post (message : Message)
  | act (act : Act)

/-- The move takes one message from the queue if it takes any. -/
def Move.IsSingle {η : Type} : Move η → Prop
  | .drain limit => limit = 1
  | _ => True

variable {η α ε : Type}

/-- Perform an operation for its effect: the fault, if it fails, and the shell afterwards. -/
def Control.perform {β : Type} (c : Control η α ε β) (w : Shell η α ε) : Option Fault × Shell η α ε :=
  match c.run w with
  | .ok _ w => (none, w)
  | .error f w => (some f, w)

/-- The fault that ended a drain. -/
def DrainEnd.fault? : DrainEnd → Option Fault
  | .failed f => some f
  | _ => none

namespace Shell

/-- A shell that nothing has come to yet. -/
def fresh (config : Config) (authority : α) (executor : ε) : Shell η α ε := { config, authority, executor }

variable [Handler η] [Authority α] [Executor ε]

/-- Make a move: the fault, if it fails, and the shell afterwards. -/
def move (w : Shell η α ε) : Move η → Option Fault × Shell η α ε
  | .addHandler handler => (none, { w with handlers := (w.handlers.add handler).2 })
  | .request kind placeholder trigger => (Control.request kind placeholder trigger).perform w
  | .start kind containers handler => (Control.start kind containers handler).perform w
  | .ready token batch start => (Control.ready token batch start).perform w
  | .process message => (Control.process message).perform w
  | .drain limit => ((w.drainWithin limit).ending.fault?, (w.drainWithin limit).shell)
  | .post message => (none, { w with stage := w.stage.post message })
  | .act act => (none, { w with stage := w.stage.perform act })

def run (w : Shell η α ε) (moves : List (Move η)) : Shell η α ε := moves.foldl (fun w m => (w.move m).2) w

/-- Process `m`, which is taken from the front of the queue. -/
def receive (w : Shell η α ε) (m : Message) (rest : List Message) : Option Fault × Shell η α ε :=
  (Control.process m).perform (w.take m rest)

end Shell

/-! ## Messages and calls -/

namespace Control

theorem perform_of_ok {β : Type} {c : Control η α ε β} {w w' : Shell η α ε} {b : β} (h : c.run w = .ok b w') :
    c.perform w = (none, w') := by simp [perform, h]

theorem perform_of_error {β : Type} {c : Control η α ε β} {w w' : Shell η α ε} {f : Fault}
    (h : c.run w = .error f w') : c.perform w = (some f, w') := by simp [perform, h]

theorem perform_bind_pure {β γ : Type} (c : Control η α ε β) (b : γ) (w : Shell η α ε) :
    perform (do let _ ← c; return b) w = c.perform w := by
  simp only [perform, EStateM.run_bind]
  cases c.run w <;> rfl

variable [Handler η] [Authority α] [Executor ε]

theorem perform_process (m : Message) (w : Shell η α ε) :
    (process m).perform w =
      match m with
      | .ready token batch start => (ready token batch start).perform w
      | .request kind token trigger => (request kind token trigger).perform w
      | .handlerDone ticket => (handlerDone ticket).perform w
      | .fadeDone token animation => (fadeDone token animation).perform w
      | .shutdown => (none, w) := by
  cases m with
  | shutdown => rfl
  | ready | request | handlerDone | fadeDone => exact perform_bind_pure _ true w

end Control

/-! ## Drains -/

namespace Shell

variable [Handler η] [Authority α] [Executor ε] {P : Shell η α ε → Prop}

theorem drainWithin_succ (w : Shell η α ε) (m : Message) (rest : List Message) (limit : Nat)
    (hq : w.stage.queue = m :: rest) :
    w.drainWithin (limit + 1) =
      match (Control.process m).run (w.take m rest) with
      | .ok true w => { w.drainWithin limit with handled := (w.drainWithin limit).handled + 1 }
      | .ok false w => ⟨1, .shutdown, w⟩
      | .error fault w => ⟨1, .failed fault, w⟩ := by
  rw [drainWithin]
  split
  · rename_i hnil
    cases hnil.symm.trans hq
  · rename_i hcons
    obtain ⟨rfl, rfl⟩ := List.cons.inj (hcons.symm.trans hq)
    rfl

/-- What the processing of each message taken from the queue preserves holds after a drain, and a drain fails with
a fault of one of its messages. -/
theorem drainWithin_induction
    (receive : ∀ w m rest, w.stage.queue = m :: rest → P w → P (w.receive m rest).2) (limit : Nat)
    (w : Shell η α ε) (h : P w) :
    P (w.drainWithin limit).shell ∧ ∀ f, (w.drainWithin limit).ending.fault? = some f →
      ∃ v m rest, P v ∧ v.stage.queue = m :: rest ∧ (v.receive m rest).1 = some f := by
  induction limit generalizing w with
  | zero =>
    rw [drainWithin]
    split
    · exact ⟨h, by simp [DrainEnd.fault?]⟩
    · exact ⟨h, by simp [DrainEnd.fault?]⟩
  | succ limit ih =>
    cases hq : w.stage.queue with
    | nil =>
      rw [drainWithin]
      simp only [hq]
      exact ⟨h, by simp [DrainEnd.fault?]⟩
    | cons m rest =>
      have next := receive w m rest hq h
      rw [drainWithin_succ w m rest limit hq]
      cases hr : (Control.process m).run (w.take m rest) with
      | ok goesOn v =>
        rw [Shell.receive, Control.perform_of_ok hr] at next
        cases goesOn with
        | true => exact ih v next
        | false => exact ⟨next, by simp [DrainEnd.fault?]⟩
      | error fault v =>
        have hf := Control.perform_of_error hr
        rw [Shell.receive, hf] at next
        refine ⟨next, fun f hfault => ⟨w, m, rest, h, hq, ?_⟩⟩
        rw [Shell.receive, hf]
        exact hfault

theorem drainWithin_zero (w : Shell η α ε) : (w.drainWithin 0).shell = w := by
  rw [drainWithin]
  split <;> rfl

theorem drain_one_nil (w : Shell η α ε) (hq : w.stage.queue = []) : (w.move (.drain 1)).2 = w := by
  simp only [move, drainWithin, hq]

theorem drain_one_cons (w : Shell η α ε) (m : Message) (rest : List Message) (hq : w.stage.queue = m :: rest) :
    (w.move (.drain 1)).2 = (w.receive m rest).2 := by
  simp only [move, drainWithin_succ w m rest 0 hq, receive, Control.perform]
  cases (Control.process m).run (w.take m rest) with
  | ok goesOn v =>
    cases goesOn with
    | true => exact v.drainWithin_zero
    | false => rfl
  | error fault v => rfl

/-- The moves of a run when messages are taken from the queue one at a time. -/
def singly (w : Shell η α ε) : List (Move η) → List (Move η)
  | [] => []
  | .drain limit :: moves =>
    List.replicate (w.drainWithin limit).handled (.drain 1) ++ (w.drainWithin limit).shell.singly moves
  | m :: moves => m :: (w.move m).2.singly moves

theorem run_append (w : Shell η α ε) (moves moves' : List (Move η)) :
    w.run (moves ++ moves') = (w.run moves).run moves' := List.foldl_append

theorem run_drains (w : Shell η α ε) (limit : Nat) :
    w.run (List.replicate (w.drainWithin limit).handled (.drain 1)) = (w.drainWithin limit).shell := by
  induction limit generalizing w with
  | zero =>
    rw [drainWithin]
    split <;> rfl
  | succ limit ih =>
    cases hq : w.stage.queue with
    | nil =>
      rw [drainWithin]
      simp only [hq]
      rfl
    | cons m rest =>
      have hone := w.drain_one_cons m rest hq
      rw [drainWithin_succ w m rest limit hq]
      cases hr : (Control.process m).run (w.take m rest) with
      | ok goesOn v =>
        rw [receive, Control.perform_of_ok hr] at hone
        cases goesOn with
        | true =>
          simp only [List.replicate_succ, run, List.foldl_cons, hone]
          exact ih v
        | false => exact hone
      | error fault v =>
        rw [receive, Control.perform_of_error hr] at hone
        exact hone

/-- A run comes to the same when messages are taken from the queue one at a time. -/
theorem run_singly (w : Shell η α ε) (moves : List (Move η)) : w.run (w.singly moves) = w.run moves := by
  induction moves generalizing w with
  | nil => rfl
  | cons m moves ih =>
    cases m with
    | drain limit =>
      rw [singly, run_append, run_drains, ih]
      rfl
    | addHandler | request | start | ready | process | post | act => exact ih _

theorem mem_singly {w : Shell η α ε} {moves : List (Move η)} {m : Move η} (h : m ∈ w.singly moves) :
    m.IsSingle ∧ (m ∈ moves ∨ m = .drain 1) := by
  induction moves generalizing w with
  | nil => cases h
  | cons first moves ih =>
    have hrest : ∀ {v : Shell η α ε}, m ∈ v.singly moves → m.IsSingle ∧ (m ∈ first :: moves ∨ m = .drain 1) :=
      fun h => ⟨(ih h).1, (ih h).2.imp_left (List.mem_cons_of_mem first)⟩
    cases first with
    | drain limit =>
      rcases List.mem_append.mp h with h | h
      · obtain rfl := List.eq_of_mem_replicate h
        exact ⟨rfl, .inr rfl⟩
      · exact hrest h
    | addHandler | request | start | ready | process | post | act =>
      rcases List.mem_cons.mp h with rfl | h
      · exact ⟨trivial, .inl List.mem_cons_self⟩
      · exact hrest h

/-! ## Runs -/

/-- The induction on runs. `allowed` restricts what comes from outside. -/
theorem run_induction (allowed : Move η → Prop)
    (move : ∀ w m, allowed m → (∀ limit, m ≠ .drain limit) → P w → P (w.move m).2)
    (receive : ∀ w m rest, w.stage.queue = m :: rest → P w → P (w.receive m rest).2) (moves : List (Move η))
    (hm : ∀ m ∈ moves, allowed m) (w : Shell η α ε) (h : P w) : P (w.run moves) := by
  induction moves generalizing w with
  | nil => exact h
  | cons m moves ih =>
    refine ih (fun m' hm' => hm m' (List.mem_cons_of_mem m hm')) (w.move m).2 ?_
    by_cases hd : ∃ limit, m = .drain limit
    · obtain ⟨limit, rfl⟩ := hd
      exact (drainWithin_induction receive limit w h).1
    · exact move w m (hm m List.mem_cons_self) (fun limit hl => hd ⟨limit, hl⟩) h

/-- A property that every operation preserves, and all that goes on around the operations. -/
structure Kept (P : Shell η α ε → Prop) : Prop where
  handler : ∀ w h, P w → P { w with handlers := (w.handlers.add h).2 }
  post : ∀ w m, P w → P { w with stage := w.stage.post m }
  act : ∀ w a, P w → P { w with stage := w.stage.perform a }
  take : ∀ w m rest, w.stage.queue = m :: rest → P w → P (w.take m rest)
  request : ∀ w kind token trigger, P w → P ((Control.request kind token trigger).perform w).2
  start : ∀ w kind containers handler, P w → P ((Control.start kind containers handler).perform w).2
  ready : ∀ w token batch start, P w → P ((Control.ready token batch start).perform w).2
  handlerDone : ∀ w ticket, P w → P ((Control.handlerDone ticket).perform w).2
  fadeDone : ∀ w token a, P w → P ((Control.fadeDone token a).perform w).2

namespace Kept

theorem process (hP : Kept P) (w : Shell η α ε) (m : Message) (h : P w) : P ((Control.process m).perform w).2 := by
  rw [Control.perform_process]
  cases m with
  | ready token batch start => exact hP.ready w token batch start h
  | request kind token trigger => exact hP.request w kind token trigger h
  | handlerDone ticket => exact hP.handlerDone w ticket h
  | fadeDone token a => exact hP.fadeDone w token a h
  | shutdown => exact h

theorem receive (hP : Kept P) (w : Shell η α ε) (m : Message) (rest : List Message)
    (hq : w.stage.queue = m :: rest) (h : P w) : P (w.receive m rest).2 :=
  hP.process _ m (hP.take w m rest hq h)

theorem move (hP : Kept P) (w : Shell η α ε) (m : Move η) (hd : ∀ limit, m ≠ .drain limit) (h : P w) :
    P (w.move m).2 := by
  cases m with
  | addHandler a => exact hP.handler w a h
  | request kind token trigger => exact hP.request w kind token trigger h
  | start kind containers a => exact hP.start w kind containers a h
  | ready token batch start => exact hP.ready w token batch start h
  | process m => exact hP.process w m h
  | drain limit => exact absurd rfl (hd limit)
  | post m => exact hP.post w m h
  | act a => exact hP.act w a h

theorem run (hP : Kept P) (moves : List (Move η)) (w : Shell η α ε) (h : P w) : P (w.run moves) :=
  run_induction (fun _ => True) (fun w m _ hd h => hP.move w m hd h) hP.receive moves (fun _ _ => trivial) w h

end Kept

end Shell

end WindowTransitions
