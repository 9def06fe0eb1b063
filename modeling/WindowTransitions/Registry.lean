import WindowTransitions.Stage

/-! The two walks over the registered handlers. Both go from the handler registered last to the one registered
first. A request goes to the first handler that claims it. A ready transition is offered to the assigned handler
before all others and goes to the first that accepts. -/

set_option autoImplicit false

namespace WindowTransitions

/-- The registered handlers, the one registered last in front. -/
abbrev Registry (η : Type) := List η

/-- A call of a handler and what it posted meanwhile. -/
structure Visit where
  call : Entry
  posted : List Message

namespace Registry

variable {η : Type} [Handler η]

/-! ## Handlers by id -/

def add (r : Registry η) (h : η) : HandlerId × Registry η := (⟨r.length⟩, h :: r)

def contains (r : Registry η) (id : HandlerId) : Bool := id.index < r.length

def get? (r : Registry η) (id : HandlerId) : Option η := r.reverse[id.index]?

/-- Put a handler in the place of the one with this id. -/
def put (r : Registry η) (id : HandlerId) (h : η) : Registry η := (r.reverse.set id.index h).reverse

def names (r : Registry η) : List String := r.reverse.map Handler.name

def nameOf? (r : Registry η) (id : HandlerId) : Option String := (r.get? id).map Handler.name

/-! ## Requests -/

structure Negotiation (η : Type) where
  claim : Option (HandlerId × Container.Transaction)
  handlers : Registry η
  visits : List Visit

/-- Ask one handler after the other until one claims the request. -/
def negotiate (kind : Kind) (token : Token) (trigger : Option Trigger) : Registry η → Negotiation η
  | [] => ⟨none, [], []⟩
  | h :: older =>
    let id : HandlerId := ⟨older.length⟩
    let reply := Handler.request h kind token trigger
    let visit : Visit := ⟨.asked id kind token trigger, reply.posted⟩
    match reply.answer with
    | some containers => ⟨some (id, containers), reply.handler :: older, [visit]⟩
    | none =>
      let rest := negotiate kind token trigger older
      ⟨rest.claim, reply.handler :: rest.handlers, visit :: rest.visits⟩

/-! ## Offers -/

structure Dispatch (η : Type) where
  owner : Option HandlerId
  start : Transaction
  handlers : Registry η
  visits : List Visit

/-- Offer a transition to the front handler, which accepts it or leaves it to what comes next. -/
def offerFront (ticket : Ticket) (batch : Batch) (start : Transaction) (h : η) (older : Registry η)
    (next : Transaction → Dispatch η) : Dispatch η :=
  let reply := Handler.offer h ticket batch start
  let visit : Visit := ⟨.offered ticket batch start, reply.posted⟩
  if reply.answer.1 then ⟨some ticket.handler, reply.answer.2, reply.handler :: older, [visit]⟩
  else
    let rest := next reply.answer.2
    ⟨rest.owner, rest.start, reply.handler :: rest.handlers, visit :: rest.visits⟩

/-- Offer a transition to every handler but `skipped` until one accepts. -/
def offerOthers (skipped : Option HandlerId) (token : Token) (generation : UInt64) (batch : Batch) :
    Registry η → Transaction → Dispatch η
  | [], start => ⟨none, start, [], []⟩
  | h :: older, start =>
    let id : HandlerId := ⟨older.length⟩
    let rest := offerOthers skipped token generation batch older
    if skipped = some id then
      let rest := rest start
      { rest with handlers := h :: rest.handlers }
    else offerFront ⟨token, id, generation⟩ batch start h older rest

/-- Offer a transition to one handler alone, if it is registered. -/
def offerTo (id : HandlerId) (token : Token) (generation : UInt64) (batch : Batch) :
    Registry η → Transaction → Dispatch η
  | [], start => ⟨none, start, [], []⟩
  | h :: older, start =>
    if id.index = older.length then
      offerFront ⟨token, id, generation⟩ batch start h older fun start => ⟨none, start, older, []⟩
    else
      let rest := offerTo id token generation batch older start
      { rest with handlers := h :: rest.handlers }

/-- Offer a ready transition: to the assigned handler first, then to the others. -/
def dispatch (assigned : Option HandlerId) (token : Token) (generation : UInt64) (batch : Batch)
    (r : Registry η) (start : Transaction) : Dispatch η :=
  match assigned with
  | none => offerOthers none token generation batch r start
  | some id =>
    let first := offerTo id token generation batch r start
    if first.owner.isSome then first
    else
      let rest := offerOthers assigned token generation batch first.handlers first.start
      { rest with visits := first.visits ++ rest.visits }

end Registry

end WindowTransitions
