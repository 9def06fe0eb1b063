import WindowTransitions.Proofs.Counters

/-! The ledger of tickets: what the log of calls and reports says of the ticket of every offer. Main statement: when
a transition is acted on that nobody owns, the ledger stays right, and the only ticket that may come to count is that
of the offer directly before the report of an owner. -/

set_option autoImplicit false

namespace WindowTransitions

/-- The tickets of all offers, in order. -/
def tickets (log : List Entry) : List Ticket := log.filterMap Entry.ticket?

theorem tickets_append (log more : List Entry) : tickets (log ++ more) = tickets log ++ tickets more :=
  List.filterMap_append

/-! ## Accepted offers -/

/-- An offer in `log` that its handler accepted, with all that comes after it: directly behind the offer the handler
is reported as owner. -/
def Accepted (log : List Entry) (k : Ticket) (after : List Entry) : Prop :=
  ∃ before batch start fades,
    log = before ++ .offered k batch start :: .event (.dispatched k.token (some k.handler) fades) :: after

variable {log more before after : List Entry} {k : Ticket}

/-- Two neighbours in an append are both left of the seam, on either side of it, or both right of it. -/
theorem append_eq_append_pair {l m : List Entry} {a b : Entry} (h : l ++ m = before ++ a :: b :: after) :
    (∃ rest, after = rest ++ m ∧ l = before ++ a :: b :: rest) ∨ (l = before ++ [a] ∧ m = b :: after) ∨
      ∃ rest, before = l ++ rest ∧ m = rest ++ a :: b :: after := by
  rcases List.append_eq_append_iff.mp h with ⟨rest, hb, hm⟩ | ⟨rest, hl, hr⟩
  · exact .inr (.inr ⟨rest, hb, hm⟩)
  · match rest with
    | [] => exact .inr (.inr ⟨[], by simpa using hl.symm, by simpa using hr.symm⟩)
    | [x] =>
      simp only [List.singleton_append, List.cons.injEq] at hr
      exact .inr (.inl ⟨hr.1 ▸ hl, hr.2.symm⟩)
    | x :: y :: rest =>
      simp only [List.cons_append, List.cons.injEq] at hr
      exact .inl ⟨rest, hr.2.2, by rw [hl, hr.1, hr.2.1]⟩

theorem Accepted.mem_tickets (h : Accepted log k after) : k ∈ tickets log := by
  obtain ⟨before, batch, start, fades, rfl⟩ := h
  exact List.mem_filterMap.mpr ⟨.offered k batch start, by simp, rfl⟩

theorem Accepted.append (h : Accepted log k after) (more : List Entry) : Accepted (log ++ more) k (after ++ more) := by
  obtain ⟨before, batch, start, fades, rfl⟩ := h
  exact ⟨before, batch, start, fades, by simp⟩

theorem Accepted.of_append (h : Accepted (log ++ more) k after)
    (hm : ∀ token owner fades rest, more ≠ .event (.dispatched token owner fades) :: rest) :
    (∃ earlier, after = earlier ++ more ∧ Accepted log k earlier) ∨ Accepted more k after := by
  obtain ⟨before, batch, start, fades, h⟩ := h
  rcases append_eq_append_pair h with ⟨rest, ha, hl⟩ | ⟨_, hstart⟩ | ⟨rest, _, hr⟩
  · exact .inl ⟨rest, ha, before, batch, start, fades, hl⟩
  · exact absurd hstart (hm _ _ _ _)
  · exact .inr ⟨rest, batch, start, fades, hr⟩

/-! ## Tickets that count and tickets that are used up -/

/-- The transition that a ticket is for is active. -/
def Table.Serves (t : Table) (k : Ticket) : Prop := ∃ r, t.get? k.token = some r ∧ r.generation = k.generation

/-- What a ticket does when it is presented: its transition finishes and the authority is told. -/
def leaving (k : Ticket) : List Entry :=
  [.received (.handlerDone k), .event (.phaseChanged k.token .animating .finished), .event (.finished k.token),
    .finishCalled k.token]

/-- The ticket of an accepted offer either has not been presented since and counts, or it has been presented, its
transition finished then and not before, and is not active. -/
def Settles (t : Table) (k : Ticket) (after : List Entry) : Prop :=
  (t.Honours k ∧ .received (.handlerDone k) ∉ after ∧ .finishCalled k.token ∉ after) ∨
    ¬ t.Serves k ∧ ∃ mid rest, after = mid ++ leaving k ++ rest ∧ .received (.handlerDone k) ∉ mid ∧
      .finishCalled k.token ∉ mid

variable {t t' : Table}

theorem Table.Honours.serves (h : t.Honours k) : t.Serves k := by
  obtain ⟨r, hr, _, hg⟩ := h
  exact ⟨r, hr, hg⟩

theorem Table.serves_congr (h : t'.get? k.token = t.get? k.token) : t'.Serves k ↔ t.Serves k := by
  rw [Table.Serves, Table.Serves, h]

theorem Table.not_serves_remove {token : Token} (h : k.token = token) : ¬ (t.remove token).Serves k := by
  rintro ⟨r, hr, _⟩
  rw [h, Table.get?_remove_self] at hr
  cases hr

theorem Table.honours_congr (h : t'.get? k.token = t.get? k.token) : t'.Honours k ↔ t.Honours k := by
  rw [Table.Honours, Table.Honours, h]

/-- A ticket that counts is for a transition that somebody owns. -/
theorem Table.Honours.ne_of_unowned {token : Token} (h : t.Honours k)
    (ho : ∀ r, t.get? token = some r → r.owner = none) : k.token ≠ token := by
  rintro rfl
  obtain ⟨r, hr, hown, _⟩ := h
  rw [ho r hr] at hown
  cases hown

theorem Settles.serves_iff (h : Settles t k after) : t.Serves k ↔ .received (.handlerDone k) ∉ after := by
  rcases h with ⟨hh, hr, _⟩ | ⟨hs, mid, rest, rfl, _, _⟩
  · exact ⟨fun _ => hr, fun _ => hh.serves⟩
  · exact ⟨fun h => absurd h hs, fun h => absurd (by simp [leaving]) h⟩

theorem Settles.step (h : Settles t k after) (hover : ¬ t.Serves k → ¬ t'.Serves k)
    (hown : t.Honours k → t'.Honours k ∧ .received (.handlerDone k) ∉ more ∧ .finishCalled k.token ∉ more) :
    Settles t' k (after ++ more) := by
  rcases h with ⟨hh, hr, hf⟩ | ⟨hs, mid, rest, rfl, hmid⟩
  · obtain ⟨hh', hr', hf'⟩ := hown hh
    exact .inl ⟨hh', by simp [hr, hr'], by simp [hf, hf']⟩
  · exact .inr ⟨hover hs, mid, rest ++ more, by simp, hmid⟩

/-- The ticket that is presented now is used up by it. -/
theorem Settles.presented (h : Settles t k after) (hh : t.Honours k) (hs : ¬ t'.Serves k) :
    Settles t' k (after ++ leaving k) := by
  rcases h with ⟨_, hmid⟩ | ⟨hnot, _⟩
  · exact .inr ⟨hs, after, [], by simp, hmid⟩
  · exact absurd hh.serves hnot

/-- At most one ticket counts for a token. -/
theorem Table.Honours.unique {j : Ticket} (hj : t.Honours j) (hk : t.Honours k) (h : j.token = k.token) : j = k := by
  obtain ⟨r, hr, ho, hg⟩ := hj
  obtain ⟨s, hs, ho', hg'⟩ := hk
  rw [← h, hr, Option.some.injEq] at hs
  subst hs
  rw [ho, Option.some.injEq] at ho'
  obtain ⟨token, handler, generation⟩ := j
  obtain ⟨token', handler', generation'⟩ := k
  simp_all

/-! ## The ledger -/

/-- The log and the table agree on tickets, `n` generations having been given out. -/
structure Ledger (log : List Entry) (t : Table) (n : Nat) : Prop where
  distinct : (tickets log).Nodup
  dated : ∀ k ∈ tickets log, k.generation.toNat ≤ n
  /-- A transition that waits has not been offered to anybody. -/
  waiting : ∀ token r, t.get? token = some r → r.phase = .pending → ∀ k ∈ tickets log, k.generation ≠ r.generation
  settles : ∀ k after, Accepted log k after → Settles t k after
  owned : ∀ k, t.Honours k → ∃ after, Accepted log k after

theorem Ledger.honours_iff {n : Nat} (h : Ledger log t n) :
    t.Honours k ↔ ∃ after, Accepted log k after ∧ .received (.handlerDone k) ∉ after := by
  constructor
  · intro hh
    obtain ⟨after, ha⟩ := h.owned k hh
    exact ⟨after, ha, (h.settles k after ha).serves_iff.mp hh.serves⟩
  · rintro ⟨after, ha, hr⟩
    have hsettles := h.settles k after ha
    rcases hsettles with ⟨hh, _⟩ | ⟨hs, _⟩
    · exact hh
    · exact absurd ((h.settles k after ha).serves_iff.mpr hr) hs

/-! ## Steps of the ledger -/

/-- `more` is what a step adds to the log: it does not begin with the report of an owner, no ticket is presented in
it, and the authority is told of no finish but that of `token`. -/
structure Quiet (more : List Entry) (token : Token) : Prop where
  start : ∀ token owner fades rest, more ≠ .event (.dispatched token owner fades) :: rest
  received : ∀ k, .received (.handlerDone k) ∉ more
  finishes : ∀ other, .finishCalled other ∈ more → other = token

theorem tickets_append_of_nil (h : tickets more = []) (log : List Entry) : tickets (log ++ more) = tickets log := by
  rw [tickets_append, h, List.append_nil]

theorem not_accepted_of_tickets (h : tickets more = []) : ¬ Accepted more k after := by
  intro ha
  have hmem := ha.mem_tickets
  rw [h] at hmem
  cases hmem

/-- A step that leaves the table alone. -/
theorem Ledger.idle {n n' : Nat} (h : Ledger log t n) (hn : n ≤ n') (hm : tickets more = [])
    (hstart : ∀ token owner fades rest, more ≠ .event (.dispatched token owner fades) :: rest)
    (hreceived : ∀ k, .received (.handlerDone k) ∈ more → ¬ t.Honours k)
    (hfinishes : ∀ token, .finishCalled token ∉ more) : Ledger (log ++ more) t n' where
  distinct := by
    rw [tickets_append_of_nil hm]
    exact h.distinct
  dated k hk := by
    rw [tickets_append_of_nil hm] at hk
    exact Nat.le_trans (h.dated k hk) hn
  waiting token r hr hp k hk := by
    rw [tickets_append_of_nil hm] at hk
    exact h.waiting token r hr hp k hk
  settles k after ha := by
    rcases ha.of_append hstart with ⟨earlier, rfl, hold⟩ | ha
    · exact (h.settles k earlier hold).step id fun hh => ⟨hh, fun hr => hreceived k hr hh, hfinishes _⟩
    · exact absurd ha (not_accepted_of_tickets hm)
  owned k hh := by
    obtain ⟨after, ha⟩ := h.owned k hh
    exact ⟨_, ha.append more⟩

/-- A transition of a new generation enters the table. -/
theorem Ledger.enter {n : Nat} {token : Token} {r : Record} (h : Ledger log t n) (hn : t.get? token = none)
    (hg : r.generation.toNat = n + 1) (ho : r.owner = none) (hm : tickets more = []) (hq : Quiet more token) :
    Ledger (log ++ more) (t ++ [(token, r)]) (n + 1) where
  distinct := by
    rw [tickets_append_of_nil hm]
    exact h.distinct
  dated k hk := by
    rw [tickets_append_of_nil hm] at hk
    exact Nat.le_succ_of_le (h.dated k hk)
  waiting other s hs hp k hk := by
    rw [tickets_append_of_nil hm] at hk
    by_cases hother : other = token
    · subst hother
      rw [Table.get?_append_new hn, Option.some.injEq] at hs
      intro heq
      have hle := h.dated k hk
      rw [heq, ← hs, hg] at hle
      omega
    · rw [Table.get?_append_other hother] at hs
      exact h.waiting other s hs hp k hk
  settles k after ha := by
    rcases ha.of_append hq.start with ⟨earlier, rfl, hold⟩ | ha
    · refine (h.settles k earlier hold).step ?_ ?_
      · intro hs
        by_cases hk : k.token = token
        · rintro ⟨s, hget, hgen⟩
          rw [hk, Table.get?_append_new hn, Option.some.injEq] at hget
          have hle := h.dated k hold.mem_tickets
          rw [← hgen, ← hget, hg] at hle
          omega
        · rwa [Table.serves_congr (Table.get?_append_other hk)]
      · intro hh
        have hk : k.token ≠ token := hh.ne_of_unowned (by simp [hn])
        refine ⟨?_, hq.received k, fun hf => hk (hq.finishes _ hf)⟩
        rwa [Table.honours_congr (Table.get?_append_other hk)]
    · exact absurd ha (not_accepted_of_tickets hm)
  owned k hh := by
    have hk : k.token ≠ token := hh.ne_of_unowned (by simp [Table.get?_append_new hn, ho])
    rw [Table.honours_congr (Table.get?_append_other hk)] at hh
    obtain ⟨after, ha⟩ := h.owned k hh
    exact ⟨_, ha.append more⟩

/-- A transition is acted on that nobody owns. If it waits, it may be offered, and it may come to be owned. -/
theorem Ledger.act {n n' : Nat} {token : Token} {r : Record} (h : Ledger log t n) (hd : t.Dated n)
    (hn : n ≤ n') (hr : t.get? token = some r) (ho : r.owner = none)
    (hother : ∀ k, k ≠ token → t'.get? k = t.get? k)
    (hthis : ∀ s, t'.get? token = some s → s.generation = r.generation ∧ s.phase ≠ .pending)
    (hdistinct : (tickets more).Nodup)
    (htickets : ∀ k ∈ tickets more, r.phase = .pending ∧ k.generation = r.generation) (hq : Quiet more token)
    (haccepted : ∀ k after, Accepted more k after → Settles t' k after)
    (howned : ∀ k, k.token = token → t'.Honours k → ∃ after, Accepted more k after) : Ledger (log ++ more) t' n' where
  distinct := by
    rw [tickets_append]
    refine List.nodup_append.mpr ⟨h.distinct, hdistinct, ?_⟩
    intro k hk k' hk' heq
    obtain ⟨hp, hg⟩ := htickets k' hk'
    exact h.waiting token r hr hp k hk (heq ▸ hg)
  dated k hk := by
    rw [tickets_append, List.mem_append] at hk
    rcases hk with hk | hk
    · exact Nat.le_trans (h.dated k hk) hn
    · rw [(htickets k hk).2]
      exact Nat.le_trans (hd.bounds _ (Table.mem_of_get? hr)).2 hn
  waiting other s hs hp k hk := by
    have hne : other ≠ token := by
      intro heq
      subst heq
      exact (hthis s hs).2 hp
    rw [hother other hne] at hs
    rw [tickets_append, List.mem_append] at hk
    rcases hk with hk | hk
    · exact h.waiting other s hs hp k hk
    · rw [(htickets k hk).2]
      exact fun heq => hne (hd.get?_unique hs hr heq.symm)
  settles k after ha := by
    rcases ha.of_append hq.start with ⟨earlier, rfl, hold⟩ | ha
    · refine (h.settles k earlier hold).step ?_ ?_
      · intro hs
        by_cases hk : k.token = token
        · rintro ⟨s, hget, hg⟩
          refine hs ⟨r, hk ▸ hr, ?_⟩
          rw [← (hthis s (hk ▸ hget)).1, hg]
        · rwa [Table.serves_congr (hother _ hk)]
      · intro hh
        have hk : k.token ≠ token := hh.ne_of_unowned (by simp [hr, ho])
        refine ⟨?_, hq.received k, fun hf => hk (hq.finishes _ hf)⟩
        rwa [Table.honours_congr (hother _ hk)]
    · exact haccepted k after ha
  owned k hh := by
    by_cases hk : k.token = token
    · obtain ⟨after, before, batch, start, fades, ha⟩ := howned k hk hh
      exact ⟨after, log ++ before, batch, start, fades, by rw [ha, List.append_assoc]⟩
    · rw [Table.honours_congr (hother _ hk)] at hh
      obtain ⟨after, ha⟩ := h.owned k hh
      exact ⟨_, ha.append more⟩

/-- A transition that nobody owns leaves the table. -/
theorem Ledger.drop {n n' : Nat} {token : Token} {r : Record} (h : Ledger log t n) (hd : t.Dated n) (hn : n ≤ n')
    (hr : t.get? token = some r) (ho : r.owner = none) (hm : tickets more = []) (hq : Quiet more token) :
    Ledger (log ++ more) (t.remove token) n' := by
  refine h.act hd hn hr ho (fun _ => Table.get?_remove_other) (by simp [Table.get?_remove_self]) (hm ▸ List.nodup_nil)
    (fun k hk => ?_) hq (fun k after ha => absurd ha (not_accepted_of_tickets hm)) ?_
  · rw [hm] at hk
    cases hk
  · exact fun k hk hh => absurd hh.serves (Table.not_serves_remove hk)

/-- A ticket that counts is presented. -/
theorem Ledger.present {n n' : Nat} (h : Ledger log t n) (hn : n ≤ n') (hh : t.Honours k) :
    Ledger (log ++ leaving k) (t.remove k.token) n' where
  distinct := by
    rw [tickets_append_of_nil rfl]
    exact h.distinct
  dated j hj := by
    rw [tickets_append_of_nil rfl] at hj
    exact Nat.le_trans (h.dated j hj) hn
  waiting token r hr hp j hj := by
    rw [tickets_append_of_nil rfl] at hj
    have hne : token ≠ k.token := by
      rintro rfl
      rw [Table.get?_remove_self] at hr
      cases hr
    rw [Table.get?_remove_other hne] at hr
    exact h.waiting token r hr hp j hj
  settles j after ha := by
    rcases ha.of_append (by simp [leaving]) with ⟨earlier, rfl, hold⟩ | ha
    · have hsettles := h.settles j earlier hold
      by_cases hj : j = k
      · subst hj
        exact hsettles.presented hh (Table.not_serves_remove rfl)
      · refine hsettles.step ?_ ?_
        · intro hs
          by_cases htoken : j.token = k.token
          · exact Table.not_serves_remove htoken
          · rwa [Table.serves_congr (Table.get?_remove_other htoken)]
        · intro hjh
          have htoken : j.token ≠ k.token := fun heq => hj (hjh.unique hh heq)
          refine ⟨?_, by simp [leaving, hj], by simp [leaving, htoken]⟩
          rwa [Table.honours_congr (Table.get?_remove_other htoken)]
    · exact absurd ha (not_accepted_of_tickets rfl)
  owned j hjh := by
    have hne : j.token ≠ k.token := fun heq => Table.not_serves_remove heq hjh.serves
    rw [Table.honours_congr (Table.get?_remove_other hne)] at hjh
    obtain ⟨after, ha⟩ := h.owned j hjh
    exact ⟨_, ha.append _⟩

end WindowTransitions
