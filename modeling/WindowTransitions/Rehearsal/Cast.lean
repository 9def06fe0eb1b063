import WindowTransitions.Shell.Basic

/-! The cast of a rehearsal: handlers that answer by a script, an authority that counts its tokens, and executors
that keep jobs or end them at once. -/

set_option autoImplicit false

namespace WindowTransitions.Rehearsal

/-! ## Actors -/

inductive Manner where
  /-- Always alike. Accepted tickets are kept and presented in their order. -/
  | steady (accepts : Bool)
  /-- By successive answers, declining when they are used up. Every ticket is kept, or presented at once if
  `instant`. Claims are restricted to some kinds and to one task. -/
  | scripted (answers : List Bool) (append : Transaction) (instant : Bool) (kinds : Option (List Kind))
      (task : Option UInt32)

structure Actor where
  name : String
  manner : Manner
  claims : Option Container.Transaction := none
  takesStart : Bool := false
  /-- It leaves all requests alone. -/
  plain : Bool := false
  kept : List Ticket := []

namespace Actor

/-- Would the actor claim such a request at all? -/
def isInterested (a : Actor) (kind : Kind) (trigger : Option Trigger) : Bool :=
  match a.manner with
  | .steady _ => true
  | .scripted _ _ _ kinds task =>
    (match kinds with
      | some kinds => kinds.contains kind
      | none => true) &&
    (match task with
      | some task => (trigger.map (·.task)) == some task
      | none => true)

def claim (a : Actor) (kind : Kind) (trigger : Option Trigger) : Option Container.Transaction :=
  if !a.plain && a.isInterested kind trigger then a.claims else none

def answer (a : Actor) (ticket : Ticket) (start : Transaction) : Reply Actor (Bool × Transaction) :=
  match a.manner with
  | .steady false => { answer := (false, start), handler := a }
  | .steady true =>
    { answer := (true, if a.takesStart then [] else start), handler := { a with kept := a.kept ++ [ticket] } }
  | .scripted answers append instant kinds task =>
    let a := { a with manner := .scripted answers.tail append instant kinds task }
    let start := if a.takesStart then [] else start ++ append
    let answer := (answers.headD false, start)
    if instant then { answer, handler := a, posted := [.handlerDone ticket] }
    else { answer, handler := { a with kept := a.kept ++ [ticket] } }

instance : Handler Actor where
  name a := a.name
  request a kind _ trigger := { answer := a.claim kind trigger, handler := a }
  offer a ticket _ start := a.answer ticket start

/-- All that an actor ever posts is the ticket that it has just got. -/
theorem posted_offer {a : Actor} {ticket : Ticket} {batch : Batch} {start : Transaction} {m : Message}
    (h : m ∈ (Handler.offer a ticket batch start).posted) : m = .handlerDone ticket := by
  simp only [Handler.offer, answer] at h
  split at h
  · simp at h
  · simp at h
  · split at h
    · exact List.mem_singleton.mp h
    · simp at h

/-- The place of the ticket that is presented next, if `index` is asked for. A steady actor takes the oldest. -/
def nextTicket (a : Actor) (index : Nat) : Nat :=
  match a.manner with
  | .steady _ => 0
  | .scripted _ _ _ _ _ => index

/-- Can a ticket be thrown away? A steady actor presents every ticket. -/
def mayDrop (a : Actor) : Bool :=
  match a.manner with
  | .steady _ => false
  | .scripted _ _ _ _ _ => true

end Actor

/-! ## The authority -/

/-- An authority that returns the placeholder, or the number after the last one it gave out itself. -/
structure Issuer where
  last : UInt64
  /-- It never returns a placeholder. -/
  remaps : Bool

namespace Issuer

def issue (a : Issuer) (placeholder : Option Token) : Token × Issuer :=
  match placeholder with
  | some token => if a.remaps then (⟨a.last + 1⟩, { a with last := a.last + 1 }) else (token, a)
  | none => (⟨a.last + 1⟩, { a with last := a.last + 1 })

instance : Authority Issuer where
  start a _ placeholder _ := a.issue placeholder
  finish a _ := a

end Issuer

/-! ## Executors -/

/-- What becomes of a job that is handed over. -/
inductive Pace where
  | keeps
  | ends (how : Ending)
  deriving DecidableEq

namespace Pace

def acts (p : Pace) (jobs : List Job) : List Act :=
  match p with
  | .keeps => []
  | .ends how => [.conclude (jobs.length - 1) how]

instance : Executor Pace where
  execute p jobs := (p.acts jobs, p)

end Pace

end WindowTransitions.Rehearsal
