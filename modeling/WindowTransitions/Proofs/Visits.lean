import Mathlib.Data.List.Nodup
import WindowTransitions.Registry

/-! What the two walks over the registered handlers do, whatever the handlers answer: every handler stays in its
place, every visit is a call of a registered handler, no handler is offered a transition twice, and the handler that
is named as owner is the one visited last. -/

set_option autoImplicit false

namespace WindowTransitions

/-- The ticket that goes with an offer. -/
def Entry.ticket? : Entry → Option Ticket
  | .offered ticket _ _ => some ticket
  | _ => none

@[simp] theorem Entry.ticket?_offered (ticket : Ticket) (batch : Batch) (start : Transaction) :
    (Entry.offered ticket batch start).ticket? = some ticket := rfl

theorem Entry.ticket?_eq_some {e : Entry} {k : Ticket} (h : e.ticket? = some k) :
    ∃ batch start, e = .offered k batch start := by
  cases e with
  | offered ticket batch start => exact ⟨batch, start, by rw [Option.some.inj h]⟩
  | asked | startCalled | finishCalled | applied | event | posted | received => cases h

namespace Visit

variable (η : Type) [Handler η]

/-- A visit that asks one of the first `n` handlers for a claim. -/
def IsAsk (kind : Kind) (token : Token) (trigger : Option Trigger) (n : Nat) (v : Visit) : Prop :=
  ∃ (h : η) (id : HandlerId), id.index < n ∧
    v = ⟨.asked id kind token trigger, (Handler.request h kind token trigger).posted⟩

/-- A visit that offers a transition to one of the first `n` handlers. -/
def IsOffer (token : Token) (generation : UInt64) (batch : Batch) (n : Nat) (v : Visit) : Prop :=
  ∃ (h : η) (id : HandlerId) (start : Transaction), id.index < n ∧
    v = ⟨.offered ⟨token, id, generation⟩ batch start, (Handler.offer h ⟨token, id, generation⟩ batch start).posted⟩

variable {η} {kind : Kind} {token : Token} {trigger : Option Trigger} {generation : UInt64} {batch : Batch}
  {n k : Nat} {v : Visit}

theorem IsAsk.mono (h : v.IsAsk η kind token trigger n) (hn : n ≤ k) : v.IsAsk η kind token trigger k := by
  obtain ⟨a, id, hid, rfl⟩ := h
  exact ⟨a, id, by omega, rfl⟩

theorem IsOffer.mono (h : v.IsOffer η token generation batch n) (hn : n ≤ k) :
    v.IsOffer η token generation batch k := by
  obtain ⟨a, id, start, hid, rfl⟩ := h
  exact ⟨a, id, start, by omega, rfl⟩

theorem IsOffer.ticket? (h : v.IsOffer η token generation batch n) :
    ∃ id : HandlerId, id.index < n ∧ v.call.ticket? = some ⟨token, id, generation⟩ := by
  obtain ⟨_, id, _, hid, rfl⟩ := h
  exact ⟨id, hid, rfl⟩

end Visit

namespace Registry

variable {η : Type} [Handler η]

/-! ## Requests -/

section Negotiate
variable (r : Registry η) (kind : Kind) (token : Token) (trigger : Option Trigger)

theorem length_negotiate : (r.negotiate kind token trigger).handlers.length = r.length := by
  induction r with
  | nil => rfl
  | cons h older ih =>
    simp only [negotiate]
    split <;> simp [ih]

theorem negotiate_visits : ∀ v ∈ (r.negotiate kind token trigger).visits, v.IsAsk η kind token trigger r.length := by
  induction r with
  | nil => simp [negotiate]
  | cons h older ih =>
    have front : Visit.IsAsk η kind token trigger (h :: older).length
        ⟨.asked ⟨older.length⟩ kind token trigger, (Handler.request h kind token trigger).posted⟩ :=
      ⟨h, ⟨older.length⟩, by simp, rfl⟩
    intro v hv
    simp only [negotiate] at hv
    split at hv
    · rw [List.mem_singleton.mp hv]
      exact front
    · rcases List.mem_cons.mp hv with rfl | hv
      · exact front
      · exact (ih v hv).mono (by simp)

theorem negotiate_claim {id : HandlerId} {containers : Container.Transaction}
    (h : (r.negotiate kind token trigger).claim = some (id, containers)) : r.contains id = true := by
  induction r with
  | nil => simp [negotiate] at h
  | cons a older ih =>
    simp only [negotiate] at h
    simp only [contains, List.length_cons, decide_eq_true_eq] at ih ⊢
    split at h
    · simp only [Option.some.injEq, Prod.mk.injEq] at h
      rw [← h.1]
      exact Nat.lt_succ_self _
    · exact Nat.lt_succ_of_lt (ih h)

end Negotiate

/-! ## Offers -/

/-- What holds of every way to offer a transition to handlers of `r`. -/
structure Dispatch.Sound (token : Token) (generation : UInt64) (batch : Batch) (r : Registry η) (d : Dispatch η) :
    Prop where
  length : d.handlers.length = r.length
  visits : ∀ v ∈ d.visits, v.IsOffer η token generation batch r.length
  distinct : (d.visits.filterMap (·.call.ticket?)).Nodup
  owner : ∀ id, d.owner = some id →
    ∃ earlier v, d.visits = earlier ++ [v] ∧ v.call.ticket? = some ⟨token, id, generation⟩

section Offers
variable {token : Token} {generation : UInt64} {batch : Batch} {r older : Registry η} {start : Transaction}

theorem Dispatch.Sound.nobody (r : Registry η) (start : Transaction) :
    Sound token generation batch r ⟨none, start, r, []⟩ :=
  ⟨rfl, by simp, by simp, by simp⟩

/-- A handler that is passed over changes nothing. -/
theorem Dispatch.Sound.skip {d : Dispatch η} (hd : d.Sound token generation batch older) (h : η) :
    Sound token generation batch (h :: older) { d with handlers := h :: d.handlers } where
  length := by simp [hd.length]
  visits v hv := (hd.visits v hv).mono (by simp)
  distinct := hd.distinct
  owner := hd.owner

theorem Dispatch.Sound.owner_registered {d : Dispatch η} (hd : d.Sound token generation batch r) {id : HandlerId}
    (h : d.owner = some id) : r.contains id = true := by
  obtain ⟨earlier, v, hv, ht⟩ := hd.owner id h
  obtain ⟨id', hid, ht'⟩ := (hd.visits v (hv ▸ List.mem_append_right earlier List.mem_cons_self)).ticket?
  rw [ht, Option.some.injEq, Ticket.mk.injEq] at ht'
  simpa [contains, ht'.2.1] using hid

theorem offerFront_sound (h : η) {next : Transaction → Dispatch η}
    (hn : ∀ start, (next start).Sound token generation batch older) :
    (offerFront ⟨token, ⟨older.length⟩, generation⟩ batch start h older next).Sound token generation batch
      (h :: older) := by
  have front : ∀ start, Visit.IsOffer η token generation batch (h :: older).length
      ⟨.offered ⟨token, ⟨older.length⟩, generation⟩ batch start,
        (Handler.offer h ⟨token, ⟨older.length⟩, generation⟩ batch start).posted⟩ :=
    fun start => ⟨h, ⟨older.length⟩, start, by simp, rfl⟩
  simp only [offerFront]
  split
  · refine ⟨by simp, ?_, by simp, ?_⟩
    · intro v hv
      rw [List.mem_singleton.mp hv]
      exact front start
    · intro id hid
      rw [Option.some.injEq] at hid
      exact ⟨[], _, rfl, by rw [← hid]; rfl⟩
  · have hd := hn (Handler.offer h ⟨token, ⟨older.length⟩, generation⟩ batch start).answer.2
    refine ⟨by simp [hd.length], ?_, ?_, ?_⟩
    · intro v hv
      rcases List.mem_cons.mp hv with rfl | hv
      · exact front start
      · exact (hd.visits v hv).mono (by simp)
    · -- the front handler's index is above the indices of all that come after it
      simp only [List.filterMap_cons, Entry.ticket?_offered, List.nodup_cons]
      refine ⟨?_, hd.distinct⟩
      intro hmem
      obtain ⟨v, hv, ht⟩ := List.mem_filterMap.mp hmem
      obtain ⟨id, hid, ht'⟩ := (hd.visits v hv).ticket?
      rw [ht, Option.some.injEq, Ticket.mk.injEq] at ht'
      rw [← ht'.2.1] at hid
      exact Nat.lt_irrefl _ hid
    · intro id hid
      obtain ⟨earlier, v, hv, ht⟩ := hd.owner id hid
      exact ⟨_ :: earlier, v, by simp only [hv]; rfl, ht⟩

theorem offerOthers_sound (skipped : Option HandlerId) (r : Registry η) (start : Transaction) :
    (offerOthers skipped token generation batch r start).Sound token generation batch r := by
  induction r generalizing start with
  | nil => exact .nobody [] start
  | cons h older ih =>
    simp only [offerOthers]
    split
    · exact (ih start).skip h
    · exact offerFront_sound h ih

theorem offerTo_sound (id : HandlerId) (r : Registry η) (start : Transaction) :
    (offerTo id token generation batch r start).Sound token generation batch r := by
  induction r with
  | nil => exact .nobody [] start
  | cons h older ih =>
    simp only [offerTo]
    split
    · rename_i hid
      obtain ⟨index⟩ := id
      simp only at hid
      subst hid
      exact offerFront_sound h fun start => .nobody older start
    · exact ih.skip h

theorem offerTo_tickets (id : HandlerId) (r : Registry η) (start : Transaction) :
    ∀ v ∈ (offerTo id token generation batch r start).visits, v.call.ticket? = some ⟨token, id, generation⟩ := by
  induction r with
  | nil => simp [offerTo]
  | cons h older ih =>
    simp only [offerTo]
    split
    · intro v hv
      simp only [offerFront] at hv
      split at hv <;> rw [List.mem_singleton.mp hv] <;> rfl
    · exact ih

theorem offerOthers_skips (id : HandlerId) (r : Registry η) (start : Transaction) :
    ∀ v ∈ (offerOthers (some id) token generation batch r start).visits,
      v.call.ticket? ≠ some ⟨token, id, generation⟩ := by
  induction r generalizing start with
  | nil => simp [offerOthers]
  | cons h older ih =>
    simp only [offerOthers]
    split
    · exact ih start
    · rename_i hne
      have front : some (⟨token, ⟨older.length⟩, generation⟩ : Ticket) ≠ some ⟨token, id, generation⟩ := by
        simpa [eq_comm] using hne
      intro v hv
      simp only [offerFront] at hv
      split at hv
      · rw [List.mem_singleton.mp hv]
        exact front
      · rcases List.mem_cons.mp hv with rfl | hv
        · exact front
        · exact ih _ v hv

/-- An offer to one handler that it declines, followed by offers to others of the same registry. -/
theorem Dispatch.Sound.followedBy {first rest : Dispatch η} (hf : first.Sound token generation batch r)
    (hr : rest.Sound token generation batch first.handlers)
    (hd : ∀ v ∈ first.visits, ∀ u ∈ rest.visits, v.call.ticket? ≠ u.call.ticket?) :
    Sound token generation batch r { rest with visits := first.visits ++ rest.visits } where
  length := hr.length.trans hf.length
  visits v hv := by
    rcases List.mem_append.mp hv with hv | hv
    · exact hf.visits v hv
    · rw [← hf.length]
      exact hr.visits v hv
  distinct := by
    rw [List.filterMap_append]
    refine List.nodup_append.mpr ⟨hf.distinct, hr.distinct, ?_⟩
    intro a ha b hb hab
    obtain ⟨v, hv, hva⟩ := List.mem_filterMap.mp ha
    obtain ⟨u, hu, hub⟩ := List.mem_filterMap.mp hb
    exact hd v hv u hu (by rw [hva, hub, hab])
  owner id h := by
    obtain ⟨earlier, v, hv, ht⟩ := hr.owner id h
    exact ⟨first.visits ++ earlier, v, by simp only [hv, List.append_assoc], ht⟩

variable (token generation batch) in
theorem dispatch_sound (assigned : Option HandlerId) (r : Registry η) (start : Transaction) :
    (r.dispatch assigned token generation batch start).Sound token generation batch r := by
  cases assigned with
  | none => exact offerOthers_sound none r start
  | some id =>
    simp only [dispatch]
    split
    · exact offerTo_sound id r start
    · refine (offerTo_sound id r start).followedBy (offerOthers_sound _ _ _) ?_
      intro v hv u hu
      rw [offerTo_tickets id r start v hv]
      exact (offerOthers_skips id _ _ u hu).symm

end Offers
end Registry
end WindowTransitions
