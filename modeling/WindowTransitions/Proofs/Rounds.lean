import WindowTransitions.Proofs.FirstOffers

/-! Rounds of offers. A ready transition goes along an order of the handlers, first the assigned one if it is
registered, then all others from the one registered last on. Main statement: the offers of a dispatch are those made
along this order up to the first that is accepted, each handler being offered the start transaction as the one before
has left it; the dispatch reports the acceptor and the last state of the transaction, and changes no handler but those
that were offered. -/

set_option autoImplicit false

namespace WindowTransitions

namespace Registry

variable {η : Type}

/-! ## The order of offers -/

/-- The handlers with their ids, the one registered last in front. -/
def numbered (r : Registry η) : List (HandlerId × η) := r.reverse.zipIdx.reverse.map fun e => (⟨e.2⟩, e.1)

/-- The order in which a transition is offered: first to the assigned handler, then to all others. -/
def offerOrder (r : Registry η) (assigned : Option HandlerId) : List (HandlerId × η) :=
  (assigned.bind fun id => (r.get? id).map (Prod.mk id)).toList ++ r.numbered.filter fun e => assigned ≠ some e.1

theorem numbered_cons (a : η) (older : Registry η) :
    numbered (a :: older) = (⟨older.length⟩, a) :: numbered older := by
  simp [numbered, List.zipIdx_append]

theorem mem_numbered {r : Registry η} {id : HandlerId} {a : η} : (id, a) ∈ r.numbered ↔ r.get? id = some a := by
  obtain ⟨index⟩ := id
  simp [numbered, get?, List.mem_zipIdx_iff_getElem?]

theorem index_lt_of_mem_numbered {r : Registry η} {e : HandlerId × η} (h : e ∈ r.numbered) : e.1.index < r.length := by
  have hget : r.get? e.1 = some e.2 := mem_numbered.mp h
  have hlt := (List.getElem?_eq_some_iff.mp hget).1
  rwa [List.length_reverse] at hlt

theorem nodup_numbered (r : Registry η) : (r.numbered.map Prod.fst).Nodup := by
  induction r with
  | nil => exact List.nodup_nil
  | cons a older ih =>
    rw [numbered_cons, List.map_cons, List.nodup_cons]
    refine ⟨fun hmem => ?_, ih⟩
    obtain ⟨e, he, hid⟩ := List.mem_map.mp hmem
    have hlt := index_lt_of_mem_numbered he
    rw [hid] at hlt
    exact Nat.lt_irrefl _ hlt

/-- Every registered handler has its place in the order. -/
theorem mem_offerOrder {r : Registry η} {assigned : Option HandlerId} {id : HandlerId} {a : η} :
    (id, a) ∈ r.offerOrder assigned ↔ r.get? id = some a := by
  rw [offerOrder, List.mem_append, List.mem_filter, mem_numbered, Option.mem_toList]
  constructor
  · rintro (h | h)
    · obtain ⟨id', _, h⟩ := Option.bind_eq_some_iff.mp h
      obtain ⟨a', hget, h⟩ := Option.map_eq_some_iff.mp h
      cases h
      exact hget
    · exact h.1
  · intro h
    by_cases hid : assigned = some id
    · exact .inl (by simp [hid, h])
    · exact .inr ⟨h, by simpa using hid⟩

theorem nodup_offerOrder (r : Registry η) (assigned : Option HandlerId) :
    ((r.offerOrder assigned).map Prod.fst).Nodup := by
  rw [offerOrder, List.map_append, List.nodup_append]
  refine ⟨?_, ?_, ?_⟩
  · cases assigned.bind fun id => (r.get? id).map (Prod.mk id) <;> simp
  · exact r.nodup_numbered.sublist (List.filter_sublist.map Prod.fst)
  · intro id hid id' hid' hsame
    obtain ⟨first, hfirst, rfl⟩ := List.mem_map.mp hid
    obtain ⟨other, hother, rfl⟩ := List.mem_map.mp hid'
    obtain ⟨named, hassigned, hnamed⟩ := Option.bind_eq_some_iff.mp (Option.mem_toList.mp hfirst)
    obtain ⟨a, _, rfl⟩ := Option.map_eq_some_iff.mp hnamed
    simp only at hsame
    simp [hassigned, hsame] at hother

end Registry

/-! ## Offers along an order -/

/-- A transition that is offered to a handler, as both are then. -/
structure Offer (η : Type) where
  ticket : Ticket
  batch : Batch
  start : Transaction
  handler : η

namespace Offer

variable {η : Type} [Handler η]

def reply (o : Offer η) : Reply η (Bool × Transaction) := Handler.offer o.handler o.ticket o.batch o.start

def isAccepted (o : Offer η) : Bool := o.reply.answer.1

/-- The start transaction as the handler leaves it. -/
def left (o : Offer η) : Transaction := o.reply.answer.2

def visit (o : Offer η) : Visit := ⟨.offered o.ticket o.batch o.start, o.reply.posted⟩

/-- The place of the offer in an order. -/
def entry (o : Offer η) : HandlerId × η := (o.ticket.handler, o.handler)

end Offer

namespace Registry

variable {η : Type} [Handler η] {token : Token} {generation : UInt64} {batch : Batch}

/-- The offers that are made along an order, up to the first that is accepted. -/
def offersAlong (token : Token) (generation : UInt64) (batch : Batch) :
    List (HandlerId × η) → Transaction → List (Offer η)
  | [], _ => []
  | (id, a) :: rest, start =>
    let o : Offer η := ⟨⟨token, id, generation⟩, batch, start, a⟩
    o :: if o.isAccepted then [] else offersAlong token generation batch rest o.left

/-- The start transaction after the offers. -/
def leftBy (offers : List (Offer η)) (start : Transaction) : Transaction :=
  (offers.getLast?.map Offer.left).getD start

theorem leftBy_cons (o : Offer η) (offers : List (Offer η)) (start : Transaction) :
    leftBy (o :: offers) start = leftBy offers o.left := by simp [leftBy, List.getLast?_cons]

theorem leftBy_append (offers more : List (Offer η)) (start : Transaction) :
    leftBy (offers ++ more) start = leftBy more (leftBy offers start) := by
  induction offers generalizing start with
  | nil => rfl
  | cons o offers ih => rw [List.cons_append, leftBy_cons, leftBy_cons, ih]

/-- How offers go along an order: they are made in turn under tickets of their own, on the start transaction as it
was left before, all but the last are declined, and if all are declined the order is at its end. -/
structure GoesAlong (token : Token) (generation : UInt64) (batch : Batch) (order : List (HandlerId × η))
    (start : Transaction) (offers : List (Offer η)) : Prop where
  entries : offers.map Offer.entry <+: order
  tickets : ∀ o ∈ offers, o.ticket = ⟨token, o.ticket.handler, generation⟩ ∧ o.batch = batch
  starts : offers.map Offer.start = (start :: offers.map Offer.left).dropLast
  declined : ∀ o ∈ offers.dropLast, o.isAccepted = false
  ends : (∀ o ∈ offers, o.isAccepted = false) → offers.map Offer.entry = order

theorem offersAlong_goes (order : List (HandlerId × η)) (start : Transaction) :
    GoesAlong token generation batch order start (offersAlong token generation batch order start) := by
  induction order generalizing start with
  | nil => exact ⟨List.prefix_rfl, by simp [offersAlong], rfl, by simp [offersAlong], fun _ => rfl⟩
  | cons e rest ih =>
    obtain ⟨id, a⟩ := e
    rw [offersAlong]
    generalize ho : (⟨⟨token, id, generation⟩, batch, start, a⟩ : Offer η) = o
    have hentry : o.entry = (id, a) := by rw [← ho]; rfl
    have hticket : o.ticket = ⟨token, o.ticket.handler, generation⟩ ∧ o.batch = batch := by rw [← ho]; exact ⟨rfl, rfl⟩
    have hstart : o.start = start := by rw [← ho]
    cases hacc : o.isAccepted with
    | true =>
      exact {
        entries := by simp [hentry]
        tickets := by simpa using hticket
        starts := by simp [hstart]
        declined := by simp
        ends := by simp [hacc] }
    | false =>
      have hrest := ih o.left
      exact {
        entries := by simpa [hentry] using hrest.entries
        tickets := by simpa using ⟨hticket, hrest.tickets⟩
        starts := by simp [hstart, hrest.starts]
        declined := by
          intro o' ho'
          -- the declined offer in front is not the last one if there is another
          cases hlater : offersAlong token generation batch rest o.left with
          | nil => simp [hlater] at ho'
          | cons next later =>
            have hdeclined := hrest.declined
            rw [hlater] at hdeclined
            rcases List.mem_cons.mp (by simpa [hlater] using ho') with rfl | ho'
            · exact hacc
            · exact hdeclined o' ho'
        ends := by
          intro hall
          rw [if_neg (by simp), List.map_cons, hentry, hrest.ends fun o' ho' => hall o' (by simp [ho'])] }

theorem mem_of_offersAlong {order : List (HandlerId × η)} {start : Transaction} {o : Offer η}
    (ho : o ∈ offersAlong token generation batch order start) : o.entry ∈ order :=
  (offersAlong_goes order start).entries.subset (List.mem_map_of_mem ho)

/-- Along two orders, one after the other, the second is entered if all offers along the first are declined. -/
theorem offersAlong_append (order more : List (HandlerId × η)) (start : Transaction) :
    let offers := offersAlong token generation batch order start
    offersAlong token generation batch (order ++ more) start =
      offers ++ if offers.any Offer.isAccepted then []
        else offersAlong token generation batch more (leftBy offers start) := by
  intro offers
  induction order generalizing start with
  | nil => rfl
  | cons e rest ih =>
    obtain ⟨id, a⟩ := e
    simp only [offers, List.cons_append, offersAlong]
    generalize (⟨⟨token, id, generation⟩, batch, start, a⟩ : Offer η) = o
    cases hacc : o.isAccepted with
    | true => simp [hacc]
    | false => simp [hacc, ih o.left, leftBy_cons]

/-! ## What a dispatch reports -/

/-- The dispatch is what comes of the offers: it visits the handlers that are offered the transition, names the one
that accepts as owner, hands on the start transaction as it was left last, and keeps all other handlers. -/
structure Dispatch.Follows (d : Dispatch η) (offers : List (Offer η)) (r : Registry η) (start : Transaction) :
    Prop where
  visits : d.visits = offers.map Offer.visit
  owner : d.owner = (offers.find? Offer.isAccepted).map (·.ticket.handler)
  start : d.start = leftBy offers start
  length : d.handlers.length = r.length
  handlers : ∀ id, d.handlers.get? id =
    ((offers.find? (·.ticket.handler = id)).map (·.reply.handler)).or (r.get? id)

variable {d : Dispatch η} {offers : List (Offer η)} {r older : Registry η} {start : Transaction}

theorem Dispatch.Follows.nobody (r : Registry η) (start : Transaction) :
    Dispatch.Follows ⟨none, start, r, []⟩ [] r start := ⟨rfl, rfl, rfl, rfl, fun _ => rfl⟩

omit [Handler η] in
theorem find?_of_lt {count : Nat} (h : ∀ o ∈ offers, o.ticket.handler.index < count) :
    offers.find? (·.ticket.handler = ⟨count⟩) = none := by
  rw [List.find?_eq_none]
  intro o ho
  have hlt := h o ho
  simp only [decide_eq_true_eq]
  intro heq
  rw [heq] at hlt
  exact Nat.lt_irrefl _ hlt

/-- A handler in front that is passed over. -/
theorem Dispatch.Follows.skip (hd : d.Follows offers older start) (a : η)
    (hlt : ∀ o ∈ offers, o.ticket.handler.index < older.length) :
    Dispatch.Follows { d with handlers := a :: d.handlers } offers (a :: older) start where
  visits := hd.visits
  owner := hd.owner
  start := hd.start
  length := by rw [List.length_cons, List.length_cons, hd.length]
  handlers id := by
    rw [get?_cons, get?_cons, hd.length]
    split
    · rename_i hid
      obtain rfl : id = ⟨older.length⟩ := by rw [← hid]
      rw [find?_of_lt hlt]
      rfl
    · exact hd.handlers id

theorem offerFront_eq (o : Offer η) (older : Registry η) (next : Transaction → Dispatch η) :
    offerFront o.ticket o.batch o.start o.handler older next =
      if o.isAccepted then ⟨some o.ticket.handler, o.left, o.reply.handler :: older, [o.visit]⟩
      else ⟨(next o.left).owner, (next o.left).start, o.reply.handler :: (next o.left).handlers,
        o.visit :: (next o.left).visits⟩ := rfl

/-- A handler in front that is offered the transition. -/
theorem offerFront_follows (a : η) (start : Transaction) {rest : List (HandlerId × η)} {next : Transaction → Dispatch η}
    (hnext : ∀ start, (next start).Follows (offersAlong token generation batch rest start) older start) :
    (offerFront ⟨token, ⟨older.length⟩, generation⟩ batch start a older next).Follows
      (offersAlong token generation batch ((⟨older.length⟩, a) :: rest) start) (a :: older) start := by
  rw [offersAlong, offerFront_eq ⟨⟨token, ⟨older.length⟩, generation⟩, batch, start, a⟩]
  generalize ho : (⟨⟨token, ⟨older.length⟩, generation⟩, batch, start, a⟩ : Offer η) = o
  have hid : o.ticket.handler = ⟨older.length⟩ := by rw [← ho]
  have hne : ∀ id : HandlerId, id.index ≠ older.length → (⟨older.length⟩ : HandlerId) ≠ id :=
    fun id heq h => heq (by rw [← h])
  cases hacc : o.isAccepted with
  | true =>
    rw [if_pos rfl, if_pos rfl]
    refine ⟨rfl, by simp [hacc], rfl, rfl, fun id => ?_⟩
    rw [get?_cons, get?_cons, List.find?_singleton, hid]
    by_cases heq : id.index = older.length
    · obtain rfl : id = ⟨older.length⟩ := by rw [← heq]
      simp
    · simp [heq, hne id heq]
  | false =>
    have hrest : (next o.left).Follows (offersAlong token generation batch rest o.left) older o.left := hnext o.left
    rw [if_neg (by simp), if_neg (by simp)]
    exact {
      visits := by rw [List.map_cons, ← hrest.visits]
      owner := by
        rw [List.find?_cons, hacc]
        exact hrest.owner
      start := by
        rw [leftBy_cons]
        exact hrest.start
      length := by rw [List.length_cons, List.length_cons, hrest.length]
      handlers := by
        intro id
        rw [get?_cons, get?_cons, hrest.length, List.find?_cons, hid]
        by_cases heq : id.index = older.length
        · obtain rfl : id = ⟨older.length⟩ := by rw [← heq]
          simp
        · simp [heq, hne id heq, hrest.handlers id] }

section Walks
variable (token generation batch)

/-- The offers to all handlers but the one passed over. -/
theorem offerOthers_follows (skipped : Option HandlerId) (r : Registry η) (start : Transaction) :
    (offerOthers skipped token generation batch r start).Follows
      (offersAlong token generation batch (r.numbered.filter fun e => skipped ≠ some e.1) start) r start := by
  induction r generalizing start with
  | nil => exact .nobody [] start
  | cons a older ih =>
    rw [offerOthers, numbered_cons]
    by_cases hs : skipped = some ⟨older.length⟩
    · rw [if_pos hs, List.filter_cons_of_neg (by simpa using hs)]
      refine (ih start).skip a fun o ho => ?_
      exact index_lt_of_mem_numbered (List.mem_of_mem_filter (mem_of_offersAlong ho))
    · rw [if_neg hs, List.filter_cons_of_pos (by simpa using hs)]
      exact offerFront_follows a start ih

theorem offerTo_follows (id : HandlerId) (r : Registry η) (start : Transaction) :
    (offerTo id token generation batch r start).Follows
      (offersAlong token generation batch ((r.get? id).map (Prod.mk id)).toList start) r start := by
  induction r with
  | nil => exact .nobody [] start
  | cons a older ih =>
    rw [offerTo, get?_cons]
    by_cases hid : id.index = older.length
    · obtain rfl : id = ⟨older.length⟩ := by rw [← hid]
      rw [if_pos rfl, if_pos rfl]
      exact offerFront_follows a start fun start => .nobody older start
    · rw [if_neg hid, if_neg hid]
      refine ih.skip a fun o ho => ?_
      obtain ⟨named, hget, hentry⟩ := Option.map_eq_some_iff.mp (Option.mem_toList.mp (mem_of_offersAlong ho))
      have hlt : id.index < older.length := index_lt_of_mem_numbered (mem_numbered.mpr hget)
      rwa [show o.ticket.handler = id from (congrArg Prod.fst hentry).symm]

/-- An offer to one handler leaves the others as they are. -/
theorem offerTo_others (id : HandlerId) (r : Registry η) (start : Transaction) :
    ((offerTo id token generation batch r start).handlers.numbered.filter fun e => some id ≠ some e.1) =
      r.numbered.filter fun e => some id ≠ some e.1 := by
  induction r with
  | nil => rfl
  | cons a older ih =>
    rw [offerTo, numbered_cons]
    by_cases hid : id.index = older.length
    · obtain rfl : id = ⟨older.length⟩ := by rw [← hid]
      rw [if_pos rfl, offerFront, List.filter_cons_of_neg (by simp)]
      split <;> rw [numbered_cons, List.filter_cons_of_neg (by simp)]
    · have hne : id ≠ ⟨older.length⟩ := fun h => hid (by rw [h])
      have hlength : (offerTo id token generation batch older start).handlers.length = older.length :=
        (offerTo_follows token generation batch id older start).length
      rw [if_neg hid, numbered_cons, hlength, List.filter_cons_of_pos (by simpa using hne),
        List.filter_cons_of_pos (by simpa using hne), ih]

end Walks

/-- Offers that are all declined, followed by offers to other handlers. -/
theorem Dispatch.Follows.followedBy {first rest : Dispatch η} {more : List (Offer η)}
    (hf : first.Follows offers r start) (hr : rest.Follows more first.handlers (leftBy offers start))
    (hdeclined : offers.any Offer.isAccepted = false)
    (hother : ∀ o ∈ offers, ∀ o' ∈ more, o.ticket.handler ≠ o'.ticket.handler) :
    Dispatch.Follows { rest with visits := first.visits ++ rest.visits } (offers ++ more) r start where
  visits := by rw [List.map_append, ← hf.visits, ← hr.visits]
  owner := by
    have hnone : offers.find? Offer.isAccepted = none := by simpa using hdeclined
    rw [List.find?_append, hnone, Option.none_or]
    exact hr.owner
  start := by
    rw [leftBy_append]
    exact hr.start
  length := hr.length.trans hf.length
  handlers id := by
    rw [hr.handlers id, hf.handlers id, List.find?_append]
    cases hm : more.find? (·.ticket.handler = id) with
    | none => rw [Option.map_none, Option.none_or, Option.or_none]
    | some o' =>
      have hid : o'.ticket.handler = id := by simpa using List.find?_some hm
      have hnone : offers.find? (·.ticket.handler = id) = none := by
        rw [List.find?_eq_none]
        intro o ho
        have hne := hother o ho o' (List.mem_of_find?_eq_some hm)
        rw [hid] at hne
        simpa using hne
      rw [hnone, Option.none_or, Option.map_some, Option.some_or, Option.some_or]

variable (token generation batch) in
theorem dispatch_follows (assigned : Option HandlerId) (r : Registry η) (start : Transaction) :
    (r.dispatch assigned token generation batch start).Follows
      (offersAlong token generation batch (r.offerOrder assigned) start) r start := by
  cases assigned with
  | none => exact offerOthers_follows token generation batch none r start
  | some id =>
    let first := offerTo id token generation batch r start
    let offers := offersAlong token generation batch ((r.get? id).map (Prod.mk id)).toList start
    have hfirst : first.Follows offers r start := offerTo_follows token generation batch id r start
    have horder : offersAlong token generation batch (r.offerOrder (some id)) start = offers ++
        if offers.any Offer.isAccepted then [] else offersAlong token generation batch
          (r.numbered.filter fun e => some id ≠ some e.1) (leftBy offers start) := offersAlong_append _ _ start
    rw [dispatch, horder]
    -- the walk over all others runs on what the first offer leaves, in which their states are unchanged
    cases hany : offers.any Offer.isAccepted with
    | true =>
      have howner : first.owner.isSome = true := by
        rw [hfirst.owner, Option.isSome_map, List.find?_isSome]
        exact List.any_eq_true.mp hany
      rw [if_pos howner, if_pos rfl, List.append_nil]
      exact hfirst
    | false =>
      have hnone : offers.find? Offer.isAccepted = none := by simpa using hany
      have howner : ¬ first.owner.isSome = true := by rw [hfirst.owner, hnone]; simp
      have hrest := offerOthers_follows token generation batch (some id) first.handlers first.start
      rw [offerTo_others, hfirst.start] at hrest
      rw [if_neg howner, if_neg (by simp), hfirst.start]
      refine hfirst.followedBy hrest hany fun o ho o' ho' hsame => ?_
      obtain ⟨a, _, hentry⟩ := Option.map_eq_some_iff.mp (Option.mem_toList.mp (mem_of_offersAlong ho))
      have hid : o.ticket.handler = id := (congrArg Prod.fst hentry).symm
      have hother := List.of_mem_filter (mem_of_offersAlong ho')
      simp [Offer.entry, ← hsame, hid] at hother

end Registry

/-! ## Main statement -/

namespace Shell

variable {η α ε : Type} [Handler η] [Authority α] [Executor ε]

/-- The order in which a transition is offered holds every registered handler once. A dispatch makes its offers along
this order: in turn, under tickets with the id of the handler, the token and the generation, each on the start
transaction as the one before has left it, and up to the first that is accepted or to the end. What it reports and
leaves behind follows from these offers. After every run, this is what a batch with a root sets off that comes for a
waiting transition, with the handler and the generation of its record. -/
theorem run_rounds :
    (∀ (r : Registry η) (assigned : Option HandlerId) (token : Token) (generation : UInt64) (batch : Batch)
      (start : Transaction),
      let order := r.offerOrder assigned
      let offers := Registry.offersAlong token generation batch order start
      (∀ id a, (id, a) ∈ order ↔ r.get? id = some a) ∧ (order.map Prod.fst).Nodup ∧
        Registry.GoesAlong token generation batch order start offers ∧
        (r.dispatch assigned token generation batch start).Follows offers r start) ∧
    ∀ (config : Config) (authority : α) (executor : ε) (moves : List (Move η)),
      let w := (fresh config authority executor : Shell η α ε).run moves
      ∀ token record batch start, w.table.get? token = some record → record.phase = .pending →
        batch.hasRoot = true →
        let d := w.handlers.dispatch record.assigned token record.generation batch (start ++ batch.startState)
        ∃ w' tail, (Control.ready token batch start).run w = .ok () w' ∧ w'.handlers = d.handlers ∧
          w'.stage.log = w.stage.log ++ (dispatching token d.visits ++ tail) := by
  refine ⟨fun r assigned token generation batch start => ⟨fun id a => Registry.mem_offerOrder,
    r.nodup_offerOrder assigned, Registry.offersAlong_goes _ start,
    Registry.dispatch_follows token generation batch assigned r start⟩, ?_⟩
  intro config authority executor moves w token record batch start hr hp hb
  have hrest : w.table.AtRest := (kept_resting.run moves _ (resting_fresh (η := η) config authority executor)).1
  obtain ⟨kind, assigned, generation, rfl⟩ := hrest.pending hr hp
  exact ready_dispatches start hrest hr hb

/-- Of three handlers the one registered first accepts, the last writes to the start transaction before it declines,
and the one between is assigned. -/
def threeHandlers : List (Move Rehearsal.Actor) :=
  [.addHandler { name := "keen", manner := .steady true }, .addHandler { name := "shy", manner := .steady false },
    .addHandler { name := "fussy", manner := .scripted [false] [⟨⟨7⟩, .alpha 0.5⟩] false none none },
    .start .opening [] (some ⟨1⟩)]

theorem run_rounds_assigned_between :
    let w := (fresh {} (⟨0, false⟩ : Rehearsal.Issuer) Rehearsal.Pace.keeps).run threeHandlers
    let batch : Batch := { kind := .opening, root := some ⟨1⟩ }
    let start := batch.startState
    ∃ w' tail, (Control.ready ⟨1⟩ batch []).run w = .ok () w' ∧ w'.stage.log = w.stage.log ++
      (.event (.phaseChanged ⟨1⟩ .pending .dispatching) ::
        [.offered ⟨⟨1⟩, ⟨1⟩, 1⟩ batch start, .offered ⟨⟨1⟩, ⟨2⟩, 1⟩ batch start,
          .offered ⟨⟨1⟩, ⟨0⟩, 1⟩ batch (start ++ [⟨⟨7⟩, .alpha 0.5⟩])] ++ tail) := by
  intro w batch start
  obtain ⟨_, hready⟩ := run_rounds (η := Rehearsal.Actor) (α := Rehearsal.Issuer) (ε := Rehearsal.Pace)
  obtain ⟨w', tail, hrun, _, hlog⟩ := hready {} ⟨0, false⟩ Rehearsal.Pace.keeps threeHandlers ⟨1⟩
    { kind := .opening, assigned := some ⟨1⟩, generation := 1 } batch [] (by decide +kernel) rfl rfl
  have hcalls : (w.handlers.dispatch (some ⟨1⟩) ⟨1⟩ 1 batch ([] ++ batch.startState)).visits.map Visit.call =
      [.offered ⟨⟨1⟩, ⟨1⟩, 1⟩ batch start, .offered ⟨⟨1⟩, ⟨2⟩, 1⟩ batch start,
        .offered ⟨⟨1⟩, ⟨0⟩, 1⟩ batch (start ++ [⟨⟨7⟩, .alpha 0.5⟩])] := by decide +kernel
  exact ⟨w', tail, hrun, by rw [hlog, dispatching, hcalls]⟩

end Shell
end WindowTransitions
