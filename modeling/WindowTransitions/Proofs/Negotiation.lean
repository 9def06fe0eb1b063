import WindowTransitions.Proofs.Visits

/-! Who is asked first, and who is offered first. Main statements: a request goes over the handlers from the one
registered last on, each once, up to the first that claims it, and the older ones are neither asked nor changed; a
ready transition is offered to the assigned handler first, or else to the one registered last. Whatever the calls of
handlers never change about a handler stays with its id. -/

set_option autoImplicit false

namespace WindowTransitions.Registry

variable {η : Type}

/-! ## Requests -/

section Requests
variable [Handler η] (kind : Kind) (token : Token) (trigger : Option Trigger)

/-- What the request leaves of a handler that is asked. -/
def ask (h : η) : η := (Handler.request h kind token trigger).handler

/-- The visit in which the handler at `place` is asked, out of `count`, the one registered last being at place 0. -/
def askVisit (count place : Nat) (h : η) : Visit :=
  ⟨.asked ⟨count - 1 - place⟩ kind token trigger, (Handler.request h kind token trigger).posted⟩

/-- How a request comes out: nobody claims it, or the handler behind all that decline it does. -/
inductive Walk (r : Registry η) : Negotiation η → Prop where
  | nobody (hd : ∀ a ∈ r, (Handler.request a kind token trigger).answer = none) :
      Walk r ⟨none, r.map (ask kind token trigger), r.mapIdx (askVisit kind token trigger r.length)⟩
  | claimed {declined spared : Registry η} {h : η} {containers : Container.Transaction}
      (hr : r = declined ++ h :: spared) (hd : ∀ a ∈ declined, (Handler.request a kind token trigger).answer = none)
      (hc : (Handler.request h kind token trigger).answer = some containers) :
      Walk r ⟨some (⟨spared.length⟩, containers), (declined ++ [h]).map (ask kind token trigger) ++ spared,
        (declined ++ [h]).mapIdx (askVisit kind token trigger r.length)⟩

variable {kind token trigger}

theorem mapIdx_askVisit_cons (h : η) (asked : Registry η) (count : Nat) :
    (h :: asked).mapIdx (askVisit kind token trigger (count + 1)) =
      ⟨.asked ⟨count⟩ kind token trigger, (Handler.request h kind token trigger).posted⟩ ::
        asked.mapIdx (askVisit kind token trigger count) := by
  rw [List.mapIdx_cons]
  congr 1
  congr 1
  funext place a
  have hplace : count + 1 - 1 - (place + 1) = count - 1 - place := by omega
  rw [askVisit, askVisit, hplace]

theorem negotiate_walk (r : Registry η) : Walk kind token trigger r (r.negotiate kind token trigger) := by
  induction r with
  | nil => exact .nobody (by simp)
  | cons h older ih =>
    cases hc : (Handler.request h kind token trigger).answer with
    | some containers =>
      have hfront : negotiate kind token trigger (h :: older) =
          ⟨some (⟨older.length⟩, containers), ([] ++ [h]).map (ask kind token trigger) ++ older,
            ([] ++ [h]).mapIdx (askVisit kind token trigger (h :: older).length)⟩ := by
        rw [negotiate, hc]
        rfl
      rw [hfront]
      exact .claimed rfl (by simp) hc
    | none =>
      have hnext : negotiate kind token trigger (h :: older) =
          ⟨(negotiate kind token trigger older).claim,
            ask kind token trigger h :: (negotiate kind token trigger older).handlers,
            ⟨.asked ⟨older.length⟩ kind token trigger, (Handler.request h kind token trigger).posted⟩ ::
              (negotiate kind token trigger older).visits⟩ := by
        rw [negotiate, hc]
        rfl
      rw [hnext]
      generalize negotiate kind token trigger older = n at ih
      cases ih with
      | nobody hd =>
        rw [← mapIdx_askVisit_cons, ← List.map_cons]
        exact .nobody (by simpa [hc] using hd)
      | @claimed declined spared a containers hr hd ha =>
        rw [← mapIdx_askVisit_cons, ← List.cons_append, ← List.map_cons, ← List.cons_append]
        exact .claimed (by rw [hr, List.cons_append]) (by simpa [hc] using hd) ha

/-- Handlers that post nothing when they are asked make visits that post nothing. -/
theorem negotiate_quiet {r : Registry η} (h : ∀ a ∈ r, (Handler.request a kind token trigger).posted = []) :
    ∀ v ∈ (r.negotiate kind token trigger).visits, v.posted = [] := by
  have hasked : ∀ asked : Registry η, (∀ a ∈ asked, a ∈ r) →
      ∀ v ∈ asked.mapIdx (askVisit kind token trigger r.length), v.posted = [] := by
    intro asked hsub v hv
    obtain ⟨place, hlt, rfl⟩ := List.mem_mapIdx.mp hv
    exact h _ (hsub _ (List.getElem_mem hlt))
  have hwalk : Walk kind token trigger r (r.negotiate kind token trigger) := negotiate_walk r
  generalize r.negotiate kind token trigger = n at hwalk
  cases hwalk with
  | nobody => exact hasked r fun a ha => ha
  | claimed hr =>
    refine hasked _ fun a ha => ?_
    rw [hr]
    simp only [List.mem_append, List.mem_cons] at ha ⊢
    tauto

end Requests

/-! ## Handlers by id -/

/-- The handler registered last. -/
def front? : Registry η → Option HandlerId
  | [] => none
  | _ :: older => some ⟨older.length⟩

theorem get?_cons (h : η) (older : Registry η) (id : HandlerId) :
    get? (h :: older) id = if id.index = older.length then some h else get? older id := by
  rw [get?, get?, List.reverse_cons, List.getElem?_append]
  by_cases hlt : id.index < older.length
  · rw [if_pos (by simpa using hlt), if_neg (by omega)]
  · rw [if_neg (by simpa using hlt)]
    by_cases heq : id.index = older.length
    · simp [heq]
    · have hpast : older.reverse[id.index]? = none := List.getElem?_eq_none (by simp; omega)
      rw [if_neg heq, hpast, List.getElem?_eq_none]
      simp
      omega

theorem get?_of_contains {r : Registry η} {id : HandlerId} (h : r.contains id = true) : ∃ a, r.get? id = some a := by
  have hlt : id.index < r.reverse.length := by simpa [contains] using h
  exact ⟨r.reverse[id.index], List.getElem?_eq_getElem hlt⟩

theorem contains_of_front {r : Registry η} {id : HandlerId} (h : r.front? = some id) : r.contains id = true := by
  cases r with
  | nil => cases h
  | cons a older =>
    obtain rfl : (⟨older.length⟩ : HandlerId) = id := Option.some.inj h
    simp [contains]

/-- Handlers are found under their ids when others are registered after them. -/
theorem get?_of_suffix {ι : Type} {mark : η → ι} {r r' : Registry η} (h : r.map mark <:+ r'.map mark) {id : HandlerId}
    (hid : r.contains id = true) : (r'.get? id).map mark = (r.get? id).map mark := by
  have hlt : id.index < (r.map mark).reverse.length := by simpa [contains] using hid
  obtain ⟨newer, hnewer⟩ := h
  have hget : ∀ q : Registry η, (q.get? id).map mark = (q.map mark).reverse[id.index]? := by
    intro q
    rw [get?, ← List.map_reverse, List.getElem?_map]
  rw [hget, hget, ← hnewer, List.reverse_append, List.getElem?_append_left hlt]

/-! ## First offers -/

section Offers
variable [Handler η] (token : Token) (generation : UInt64) (batch : Batch)

/-- The offer of a transition to handler `a`, whose id is `id`. -/
def offerVisit (start : Transaction) (id : HandlerId) (a : η) : Visit :=
  ⟨.offered ⟨token, id, generation⟩ batch start, (Handler.offer a ⟨token, id, generation⟩ batch start).posted⟩

theorem offerFront_visits (id : HandlerId) (start : Transaction) (a : η) (older : Registry η)
    (next : Transaction → Dispatch η) :
    (offerFront ⟨token, id, generation⟩ batch start a older next).visits.head? =
      some (offerVisit token generation batch start id a) := by
  rw [offerFront]
  split <;> rfl

theorem offerTo_visits {r : Registry η} {id : HandlerId} {a : η} (start : Transaction) (h : r.get? id = some a) :
    (offerTo id token generation batch r start).visits.head? =
      some (offerVisit token generation batch start id a) := by
  induction r with
  | nil => simp [get?] at h
  | cons front older ih =>
    rw [get?_cons] at h
    rw [offerTo]
    by_cases hid : id.index = older.length
    · rw [if_pos hid, Option.some.injEq] at h
      obtain ⟨index⟩ := id
      obtain rfl : index = older.length := hid
      rw [if_pos rfl, offerFront_visits, h]
    · rw [if_neg hid] at h
      rw [if_neg hid]
      exact ih h

/-- The first offer goes to the assigned handler, or with nobody assigned to the one registered last. -/
theorem dispatch_first {r : Registry η} {assigned : Option HandlerId} {id : HandlerId} {a : η} (start : Transaction)
    (hid : assigned.or r.front? = some id) (h : r.get? id = some a) :
    (r.dispatch assigned token generation batch start).visits.head? =
      some (offerVisit token generation batch start id a) := by
  cases assigned with
  | none =>
    cases r with
    | nil => cases hid
    | cons front older =>
      obtain rfl : (⟨older.length⟩ : HandlerId) = id := Option.some.inj hid
      rw [get?_cons, if_pos rfl, Option.some.injEq] at h
      rw [dispatch, offerOthers, if_neg (by simp), offerFront_visits, h]
  | some first =>
    obtain rfl : first = id := Option.some.inj hid
    have hfirst := offerTo_visits token generation batch start h
    rw [dispatch]
    split
    · exact hfirst
    · rw [List.head?_append, hfirst]
      rfl

end Offers

/-! ## Marks of handlers -/

/-- The calls of a handler do not change its mark. -/
structure Marks [Handler η] {ι : Type} (mark : η → ι) : Prop where
  request : ∀ a kind token trigger, mark (Handler.request a kind token trigger).handler = mark a
  offer : ∀ a ticket batch start, mark (Handler.offer a ticket batch start).handler = mark a

section Marks
variable [Handler η] {ι : Type} {mark : η → ι}

theorem Marks.negotiate (hm : Marks mark) (kind : Kind) (token : Token) (trigger : Option Trigger) (r : Registry η) :
    (r.negotiate kind token trigger).handlers.map mark = r.map mark := by
  induction r with
  | nil => rfl
  | cons a older ih =>
    rw [Registry.negotiate]
    split
    · rw [List.map_cons, hm.request, List.map_cons]
    · rw [List.map_cons, hm.request, ih, List.map_cons]

variable {token : Token} {generation : UInt64} {batch : Batch}

theorem Marks.offerFront (hm : Marks mark) (ticket : Ticket) (start : Transaction) (a : η) (older : Registry η)
    {next : Transaction → Dispatch η} (hnext : ∀ start, (next start).handlers.map mark = older.map mark) :
    (offerFront ticket batch start a older next).handlers.map mark = (a :: older).map mark := by
  rw [Registry.offerFront]
  split
  · rw [List.map_cons, hm.offer, List.map_cons]
  · rw [List.map_cons, hm.offer, hnext, List.map_cons]

theorem Marks.offerOthers (hm : Marks mark) (skipped : Option HandlerId) (r : Registry η) (start : Transaction) :
    (offerOthers skipped token generation batch r start).handlers.map mark = r.map mark := by
  induction r generalizing start with
  | nil => rfl
  | cons a older ih =>
    rw [Registry.offerOthers]
    split
    · rw [List.map_cons, ih, List.map_cons]
    · exact hm.offerFront _ start a older ih

theorem Marks.offerTo (hm : Marks mark) (id : HandlerId) (r : Registry η) (start : Transaction) :
    (offerTo id token generation batch r start).handlers.map mark = r.map mark := by
  induction r with
  | nil => rfl
  | cons a older ih =>
    rw [Registry.offerTo]
    split
    · exact hm.offerFront _ start a older fun _ => rfl
    · rw [List.map_cons, ih, List.map_cons]

theorem Marks.dispatch (hm : Marks mark) (assigned : Option HandlerId) (r : Registry η) (start : Transaction) :
    (r.dispatch assigned token generation batch start).handlers.map mark = r.map mark := by
  cases assigned with
  | none => exact hm.offerOthers none r start
  | some id =>
    rw [Registry.dispatch]
    split
    · exact hm.offerTo id r start
    · exact (hm.offerOthers (some id) _ _).trans (hm.offerTo id r start)

end Marks

end WindowTransitions.Registry
