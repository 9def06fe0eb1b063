import WindowTransitions.Proofs.Ledger
import WindowTransitions.Proofs.Steps

/-! The queue as the journal tells it. Main statement: after every run the messages that were posted are those that
were taken from the queue, in this order, and behind them those that still wait; none is taken before it is posted.
So if tickets are presented only once they are given out, each is taken after the offer it came with. -/

set_option autoImplicit false

namespace WindowTransitions

namespace Entry

def received? : Entry → Option Message
  | .received m => some m
  | _ => none

theorem posted?_eq_some {e : Entry} {m : Message} (h : e.posted? = some m) : e = .posted m := by
  cases e with
  | posted m' => rw [Option.some.inj h]
  | asked | offered | startCalled | finishCalled | applied | event | received => cases h

theorem received?_eq_some {e : Entry} {m : Message} (h : e.received? = some m) : e = .received m := by
  cases e with
  | received m' => rw [Option.some.inj h]
  | asked | offered | startCalled | finishCalled | applied | event | posted => cases h

end Entry

namespace Stage

/-! ## Posts and receipts -/

/-- The messages that were posted, in order. -/
def posts (s : Stage) : List Message := s.journal.filterMap Entry.posted?

/-- The messages that were taken from the queue, in order. -/
def receipts (s : Stage) : List Message := s.journal.filterMap Entry.received?

/-- Messages are taken in the order of posting, and the queue holds those that are left. -/
structure Delivers (s : Stage) : Prop where
  queue : s.posts = s.receipts ++ s.queue
  ordered : ∀ before m after, s.journal = before ++ .received m :: after → .posted m ∈ before

variable {s s' : Stage} {calls : List Entry}

/-- An entry of a journal that was added to is among the additions or stood there before. -/
theorem split_append {journal more before after : List Entry} {e : Entry}
    (h : journal ++ more = before ++ e :: after) :
    (∃ gap, before = journal ++ gap ∧ more = gap ++ e :: after) ∨ ∃ rest, journal = before ++ e :: rest := by
  rcases List.append_eq_append_iff.mp h with ⟨gap, hb, hm⟩ | ⟨gap, hj, ha⟩
  · exact .inl ⟨gap, hb, hm⟩
  · cases gap with
    | nil => exact .inl ⟨[], by simpa using hj.symm, by simpa using ha.symm⟩
    | cons x gap =>
      obtain ⟨rfl, _⟩ := List.cons.inj ha
      exact .inr ⟨gap, hj⟩

theorem filterMap_received {more : List Entry} (h : ∀ m, .received m ∉ more) :
    more.filterMap Entry.received? = [] := by
  rw [List.filterMap_eq_nil_iff]
  intro e he
  cases hr : e.received? with
  | none => rfl
  | some m => exact absurd (Entry.received?_eq_some hr ▸ he) (h m)

theorem Delivers.add (hs : s.Delivers) (h : Adds s s' calls) (hc : ∀ m, .received m ∉ calls) : s'.Delivers := by
  obtain ⟨_, more, hj, hq, rfl⟩ := h
  have hnone : ∀ m, .received m ∉ more := fun m hm => hc m (List.mem_filter.mpr ⟨hm, rfl⟩)
  constructor
  · rw [posts, receipts, hj, List.filterMap_append, List.filterMap_append, filterMap_received hnone, List.append_nil,
      hq, ← List.append_assoc]
    exact congrArg (· ++ _) hs.queue
  · intro before m after hsplit
    rw [hj] at hsplit
    rcases split_append hsplit with ⟨gap, _, hm⟩ | ⟨rest, hold⟩
    · exact absurd (hm ▸ List.mem_append_right gap List.mem_cons_self) (hnone m)
    · exact hs.ordered before m rest hold

/-! ## Tickets that are earned -/

/-- A ticket is presented only after it is given out with an offer. -/
def Earned (s : Stage) : Prop :=
  ∀ i < s.journal.length, ∀ k ∈ (s.journal[i]?.bind Entry.posted?).bind Message.ticket?,
    k ∈ tickets (s.journal.take i)

instance (s : Stage) : Decidable s.Earned := by
  unfold Earned
  infer_instance

theorem Earned.offered_before (h : s.Earned) {before after : List Entry} {k : Ticket}
    (hj : s.journal = before ++ .posted (.handlerDone k) :: after) : k ∈ tickets before := by
  have hlt : before.length < s.journal.length := by simp [hj]
  have hget : s.journal[before.length]? = some (.posted (.handlerDone k)) := by simp [hj]
  have hmem := h before.length hlt k (by rw [hget]; exact rfl)
  rwa [hj, List.take_left] at hmem

theorem tickets_log (journal : List Entry) : tickets (journal.filter Entry.isCall) = tickets journal := by
  rw [tickets, tickets, List.filterMap_filter]
  apply List.filterMap_congr
  intro e _
  cases e <;> rfl

/-- A presentation is taken from the queue after the offer that its ticket came with. -/
theorem Delivers.offered_before (hs : s.Delivers) (he : s.Earned) {before after : List Entry} {k : Ticket}
    (h : s.log = before ++ .received (.handlerDone k) :: after) : k ∈ tickets before := by
  obtain ⟨first, second, hj, rfl, hsecond⟩ := List.filter_eq_append_iff.mp h
  obtain ⟨gap, rest, rfl, _, _, _⟩ := List.filter_eq_cons_iff.mp hsecond
  have hposted := hs.ordered (first ++ gap) (.handlerDone k) rest (by rw [hj, List.append_assoc])
  obtain ⟨early, late, hsplit⟩ := List.append_of_mem hposted
  have hearly : s.journal = early ++ .posted (.handlerDone k) :: (late ++ .received (.handlerDone k) :: rest) := by
    rw [hj, ← List.append_assoc, hsplit, List.append_assoc]
    rfl
  have hoffered : k ∈ tickets early := he.offered_before hearly
  have hgap : tickets gap = [] := by
    rw [← tickets_log, List.filter_eq_nil_iff.mpr ‹_›]
    rfl
  rw [tickets_log, ← List.append_nil (tickets first), ← hgap, ← tickets_append, hsplit, tickets_append]
  exact List.mem_append_left _ hoffered

end Stage

namespace Shell

variable {η α ε : Type} [Handler η] [Authority α] {w w' : Shell η α ε}

/-! ## Runs -/

omit [Authority α] in
theorem offers_not_received {token : Token} {generation : UInt64} {batch : Batch} {r : Registry η}
    {d : Registry.Dispatch η} (hd : d.Sound token generation batch r) : ∀ m, .received m ∉ d.visits.map Visit.call := by
  intro m hm
  obtain ⟨v, hv, hcall⟩ := List.mem_map.mp hm
  obtain ⟨_, _, _, _, rfl⟩ := hd.visits v hv
  cases hcall

theorem Step.not_received {ticket : Option Ticket} (h : w.Step ticket w') :
    ∃ calls, w.LeadsTo w' w'.table calls ∧ ∀ m, .received m ∉ calls := by
  have hpreludes : ∀ calls : List Entry, (∀ e ∈ calls, e.isPrelude = true) → ∀ m, .received m ∉ calls :=
    fun calls hc m hm => by cases hc _ hm
  cases h with
  | idle hc h => exact ⟨_, h.of_table h.table.symm, hpreludes _ hc⟩
  | entered _ _ hc _ h => exact ⟨_, h.of_table h.table.symm, fun m => by simp [hpreludes _ hc m]⟩
  | owned _ hd _ h | faded _ hd _ _ h | unfaded _ hd _ h =>
    exact ⟨_, h.of_table h.table.symm, fun m => by simpa using offers_not_received hd m⟩
  | tidied _ h | presented _ _ h | fewer _ _ _ _ h | last _ _ _ _ h =>
    exact ⟨_, h.of_table h.table.symm, by simp⟩

theorem kept_delivers [Executor ε] : Kept fun w : Shell η α ε => w.table.AtRest ∧ w.stage.Delivers := by
  refine kept_of_steps (fun w h hw => hw) ?_ ?_
  · intro w m rest hq hw
    have hposts : (w.take m rest).stage.posts = w.stage.posts := by
      simp [take, Stage.posts, Stage.note, Entry.posted?]
    have hreceipts : (w.take m rest).stage.receipts = w.stage.receipts ++ [m] := by
      simp [take, Stage.receipts, Stage.note, Entry.received?]
    have hqueue := hw.queue
    rw [hq] at hqueue
    refine ⟨by rw [hposts, hreceipts, hqueue, List.append_assoc]; rfl, ?_⟩
    intro before m' after hsplit
    have hnew : w.stage.journal ++ [.received m] = before ++ .received m' :: after := hsplit
    rcases Stage.split_append hnew with ⟨gap, rfl, hm⟩ | ⟨rest', hold⟩
    · -- the entry is the new one, and its message stood in the queue
      obtain rfl : m = m' := by
        have hin : .received m' ∈ [Entry.received m] := hm ▸ List.mem_append_right gap List.mem_cons_self
        exact (Entry.received.inj (List.mem_singleton.mp hin)).symm
      have hposted : m ∈ w.stage.posts := by
        rw [hqueue]
        exact List.mem_append_right _ List.mem_cons_self
      obtain ⟨e, he, hm⟩ := List.mem_filterMap.mp hposted
      exact List.mem_append_left gap (Entry.posted?_eq_some hm ▸ he)
    · exact hw.ordered before m' rest' hold
  · intro w ticket w' _ hw h
    obtain ⟨calls, hleads, hc⟩ := h.not_received
    exact hw.add hleads.stage hc

end Shell

end WindowTransitions
