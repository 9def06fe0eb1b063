import WindowTransitions.Proofs.Steps

/-! Lives of transitions. What is reported under one token is a sequence of whole lives, from a start to a finish,
and behind them the beginning of one more life exactly while the token is active. Main statement: this holds after
every run, and the authority is told of each finish once, in the order in which the finishes are reported. -/

set_option autoImplicit false

namespace WindowTransitions

namespace Event

/-- The token of a reported finish. -/
def finished? : Event → Option Token
  | .finished token => some token
  | _ => none

def isStart : Event → Bool
  | .started _ _ _ => true
  | _ => false

end Event

def Stage.eventsOf (s : Stage) (token : Token) : List Event := s.events.filter (·.token = token)

/-! ## Lives -/

/-- The reports of one transition from its start to its finish. -/
inductive Life (token : Token) : List Event → Prop where
  | tidied (kind : Kind) (assigned : Option HandlerId) :
    Life token [.started token kind assigned, .phaseChanged token .pending .dispatching,
      .phaseChanged token .dispatching .finished, .finished token]
  | animated (kind : Kind) (assigned owner : Option HandlerId) (fades : Nat) :
    Life token [.started token kind assigned, .phaseChanged token .pending .dispatching,
      .dispatched token owner fades, .phaseChanged token .dispatching .animating,
      .phaseChanged token .animating .finished, .finished token]

/-- The reports break off within a life. -/
def Unfinished (token : Token) (reports : List Event) : Prop :=
  reports ≠ [] ∧ ∃ more, more ≠ [] ∧ Life token (reports ++ more)

/-- The reports of the transition that a token stands for now. -/
inductive Underway (token : Token) : Option Record → List Event → Prop where
  | absent : Underway token none []
  | waiting {r : Record} (hp : r.phase = .pending) : Underway token (some r) [.started token r.kind r.assigned]
  | animating {r : Record} (hp : r.phase = .animating) (fades : Nat) :
    Underway token (some r) [.started token r.kind r.assigned, .phaseChanged token .pending .dispatching,
      .dispatched token r.owner fades, .phaseChanged token .dispatching .animating]

variable {token : Token} {r : Record} {rest : List Event}

theorem Underway.unfinished (h : Underway token (some r) rest) : Unfinished token rest := by
  cases h with
  | waiting hp =>
    exact ⟨by simp, [.phaseChanged token .pending .dispatching, .phaseChanged token .dispatching .finished,
      .finished token], by simp, .tidied r.kind r.assigned⟩
  | animating hp fades =>
    exact ⟨by simp, [.phaseChanged token .animating .finished, .finished token], by simp,
      .animated r.kind r.assigned r.owner fades⟩

theorem Underway.eq_nil_iff {r? : Option Record} (h : Underway token r? rest) : rest = [] ↔ r? = none := by
  cases h <;> simp

/-! ## What the table says of the reports -/

namespace Table

variable {t t' : Table} {log more : List Event}

/-- The reports of a token are whole lives and those of its transition in the table. -/
def Explains (t : Table) (token : Token) (log : List Event) : Prop :=
  ∃ (lives : List (List Event)) (rest : List Event), log = lives.flatten ++ rest ∧
    (∀ life ∈ lives, Life token life) ∧ Underway token (t.get? token) rest

theorem Explains.of_get? (h : t.Explains token log) (ht : t'.get? token = t.get? token) : t'.Explains token log := by
  obtain ⟨lives, rest, hlog, hlives, hrest⟩ := h
  exact ⟨lives, rest, hlog, hlives, ht ▸ hrest⟩

theorem Explains.proceed (h : t.Explains token log)
    (hu : ∀ rest, Underway token (t.get? token) rest → Underway token (t'.get? token) (rest ++ more)) :
    t'.Explains token (log ++ more) := by
  obtain ⟨lives, rest, rfl, hlives, hrest⟩ := h
  exact ⟨lives, rest ++ more, List.append_assoc .., hlives, hu rest hrest⟩

theorem Explains.finish (h : t.Explains token log)
    (hl : ∀ rest, Underway token (t.get? token) rest → Life token (rest ++ more)) (hn : t'.get? token = none) :
    t'.Explains token (log ++ more) := by
  obtain ⟨lives, rest, rfl, hlives, hrest⟩ := h
  refine ⟨lives ++ [rest ++ more], [], by simp, ?_, hn ▸ .absent⟩
  intro life hlife
  rcases List.mem_append.mp hlife with hlife | hlife
  · exact hlives life hlife
  · rw [List.mem_singleton.mp hlife]
    exact hl rest hrest

/-! ## One step of a transition -/

theorem Explains.start (h : t.Explains token log) (hn : t.get? token = none) (hr : t'.get? token = some r)
    (hp : r.phase = .pending) : t'.Explains token (log ++ [.started token r.kind r.assigned]) := by
  refine h.proceed fun rest hrest => ?_
  rw [hn] at hrest
  rw [hr]
  cases hrest with
  | absent => exact .waiting hp

theorem Explains.animate (owner : Option HandlerId) (fades : Option (List AnimationId)) (count : Nat)
    (h : t.Explains token log) (hr : t.get? token = some r) (hp : r.phase = .pending)
    (hr' : t'.get? token = some { r with phase := .animating, owner, fades }) :
    t'.Explains token (log ++ [.phaseChanged token .pending .dispatching, .dispatched token owner count,
      .phaseChanged token .dispatching .animating]) := by
  refine h.proceed fun rest hrest => ?_
  rw [hr] at hrest
  rw [hr']
  cases hrest with
  | waiting => exact .animating rfl count
  | animating ha => rw [hp] at ha; cases ha

theorem Explains.tidy (h : t.Explains token log) (hr : t.get? token = some r) (hp : r.phase = .pending)
    (hn : t'.get? token = none) :
    t'.Explains token (log ++ [.phaseChanged token .pending .dispatching,
      .phaseChanged token .dispatching .finished, .finished token]) := by
  refine h.finish (fun rest hrest => ?_) hn
  rw [hr] at hrest
  cases hrest with
  | waiting => exact .tidied r.kind r.assigned
  | animating ha => rw [hp] at ha; cases ha

theorem Explains.pass (h : t.Explains token log) (hr : t.get? token = some r) (hp : r.phase = .pending)
    (hn : t'.get? token = none) (owner : Option HandlerId) (fades : Nat) :
    t'.Explains token (log ++ [.phaseChanged token .pending .dispatching, .dispatched token owner fades,
      .phaseChanged token .dispatching .animating, .phaseChanged token .animating .finished, .finished token]) := by
  refine h.finish (fun rest hrest => ?_) hn
  rw [hr] at hrest
  cases hrest with
  | waiting => exact .animated r.kind r.assigned owner fades
  | animating ha => rw [hp] at ha; cases ha

theorem Explains.leave (h : t.Explains token log) (hr : t.get? token = some r) (hp : r.phase = .animating)
    (hn : t'.get? token = none) :
    t'.Explains token (log ++ [.phaseChanged token .animating .finished, .finished token]) := by
  refine h.finish (fun rest hrest => ?_) hn
  rw [hr] at hrest
  cases hrest with
  | waiting ha => rw [hp] at ha; cases ha
  | animating _ fades => exact .animated r.kind r.assigned r.owner fades

end Table

/-! ## All tokens at once -/

theorem eventsOf_append {s s' : Stage} {reports : List Event} {k : Token} (hs : s'.events = s.events ++ reports)
    (hk : ∀ e ∈ reports, e.token = k) (token : Token) :
    s'.eventsOf token = s.eventsOf token ++ if k = token then reports else [] := by
  rw [Stage.eventsOf, hs, List.filter_append, Stage.eventsOf]
  congr 1
  split
  · rename_i h
    subst h
    exact List.filter_eq_self.mpr fun e he => decide_eq_true (hk e he)
  · rename_i h
    exact List.filter_eq_nil_iff.mpr fun e he => by simpa [hk e he] using h

namespace Shell

variable {η α ε : Type} [Authority α] {w w' : Shell η α ε}

/-- The table and the log of reports agree, and each reported finish is a call of the authority. -/
structure Chronicled (w : Shell η α ε) : Prop where
  explains : ∀ token, w.table.Explains token (w.stage.eventsOf token)
  finishes : w.stage.finishCalls = w.stage.events.filterMap Event.finished?

/-- A step whose reports are all about the token `k`. -/
theorem Chronicled.step {calls : List Entry} {t : Table} (hw : w.Chronicled) (h : w.LeadsTo w' t calls) (k : Token)
    (reports : List Event) (hr : calls.filterMap Entry.event? = reports) (hk : ∀ e ∈ reports, e.token = k)
    (hf : calls.filterMap Entry.finishCall? = reports.filterMap Event.finished?)
    (hother : ∀ token, token ≠ k → t.get? token = w.table.get? token)
    (hthis : w.table.Explains k (w.stage.eventsOf k) → t.Explains k (w.stage.eventsOf k ++ reports)) :
    w'.Chronicled where
  explains token := by
    rw [h.table, eventsOf_append (hr ▸ h.stage.events) hk]
    by_cases hkt : k = token
    · subst hkt
      rw [if_pos rfl]
      exact hthis (hw.explains k)
    · rw [if_neg hkt, List.append_nil]
      exact (hw.explains token).of_get? (hother token (Ne.symm hkt))
  finishes := by
    rw [h.stage.finishCalls, h.stage.events, hw.finishes, hf, hr, List.filterMap_append]

theorem preludes_report_nothing {calls : List Entry} (hc : ∀ e ∈ calls, e.isPrelude = true) :
    calls.filterMap Entry.event? = [] ∧ calls.filterMap Entry.finishCall? = [] := by
  simp only [List.filterMap_eq_nil_iff]
  constructor <;>
  · intro e he
    have h := hc e he
    cases e <;> first | rfl | cases h

theorem offers_report_nothing [Handler η] {d : Registry.Dispatch η} {token : Token} {generation : UInt64}
    {batch : Batch} {r : Registry η} (hd : d.Sound token generation batch r) :
    (d.visits.map Visit.call).filterMap Entry.event? = [] ∧
      (d.visits.map Visit.call).filterMap Entry.finishCall? = [] := by
  simp only [List.filterMap_eq_nil_iff, List.forall_mem_map]
  constructor <;>
  · intro v hv
    obtain ⟨_, _, _, _, rfl⟩ := hd.visits v hv
    rfl

theorem Chronicled.of_step [Handler η] {ticket : Option Ticket} (ht : w.table.AtRest) (hw : w.Chronicled)
    (h : w.Step ticket w') : w'.Chronicled := by
  cases h with
  | idle hc h =>
    obtain ⟨he, hf⟩ := preludes_report_nothing hc
    exact hw.step h ⟨0⟩ [] he (by simp) hf (fun _ _ => rfl) (by simp)
  | @entered token kind assigned calls hn ha hc hs h =>
    obtain ⟨he, hf⟩ := preludes_report_nothing hc
    exact hw.step h token [.started token kind assigned] (by simp [he]) (by simp [Event.token])
      (by simp [List.filterMap_cons, hf, Event.finished?]) (fun _ => Table.get?_append_other)
      fun hx => hx.start hn (Table.get?_append_new hn) rfl
  | @tidied token kind assigned generation hr h =>
    exact hw.step h token _ rfl (by simp [Event.token]) rfl (fun _ => Table.get?_remove_other)
      fun hx => hx.tidy hr rfl Table.get?_remove_self
  | @owned token kind assigned generation batch d owner hr hd ho h =>
    obtain ⟨he, hf⟩ := offers_report_nothing hd
    exact hw.step h token [.phaseChanged token .pending .dispatching, .dispatched token (some owner) 0,
      .phaseChanged token .dispatching .animating] (by simp [he]) (by simp [Event.token])
      (by simp [List.filterMap_cons, hf, Event.finished?]) (fun _ => Table.get?_put_other)
      fun hx => hx.animate (some owner) none 0 hr rfl (Table.get?_put_self hr)
  | @faded token kind assigned generation batch d count hr hd ho hn h =>
    obtain ⟨he, hf⟩ := offers_report_nothing hd
    exact hw.step h token [.phaseChanged token .pending .dispatching, .dispatched token none count,
      .phaseChanged token .dispatching .animating] (by simp [he]) (by simp [Event.token])
      (by simp [List.filterMap_cons, hf, Event.finished?]) (fun _ => Table.get?_put_other)
      fun hx => hx.animate none (some (w.nextAnimation.upFrom count)) count hr rfl (Table.get?_put_self hr)
  | @unfaded token kind assigned generation batch d hr hd ho h =>
    obtain ⟨he, hf⟩ := offers_report_nothing hd
    exact hw.step h token [.phaseChanged token .pending .dispatching, .dispatched token none 0,
      .phaseChanged token .dispatching .animating, .phaseChanged token .animating .finished, .finished token]
      (by simp [he]) (by simp [Event.token]) (by simp [List.filterMap_cons, hf, Event.finished?])
      (fun _ => Table.get?_remove_other) fun hx => hx.pass hr rfl Table.get?_remove_self none 0
  | @presented k hk hh h =>
    obtain ⟨r, hr, ho, _⟩ := hh
    have hp := (ht.get? hr).phase_of_owner ho
    exact hw.step h k.token _ rfl (by simp [Event.token]) rfl (fun _ => Table.get?_remove_other)
      fun hx => hx.leave hr hp Table.get?_remove_self
  | @fewer token r fades a hr hf ha hm h =>
    refine hw.step h token [] rfl (by simp) rfl (fun _ => Table.get?_put_other) ?_
    refine fun hx => hx.proceed fun rest hrest => ?_
    rw [hr] at hrest
    rw [Table.get?_put_self hr, List.append_nil]
    cases hrest with
    | waiting hp => exact .waiting hp
    | animating hp count => exact .animating (r := { r with fades := some (fades.erase a) }) hp count
  | @last token r fades a hr hf ha hm h =>
    have hp := (ht.get? hr).phase_of_fades hf
    exact hw.step h token _ rfl (by simp [Event.token]) rfl (fun _ => Table.get?_remove_other)
      fun hx => hx.leave hr hp Table.get?_remove_self

/-! ## Calls of the authority -/

/-- The state of the authority is what the calls in the journal have made of its first state. -/
theorem Step.authority [Handler η] {ticket : Option Ticket} {a : α} (h : w.Step ticket w')
    (ha : w.authority = w.stage.journal.foldl Entry.heard a) :
    w'.authority = w'.stage.journal.foldl Entry.heard a := by
  obtain ⟨calls, h⟩ := h.leadsTo
  rw [h.authority, ha, h.stage.journal_foldl]
  intro a e he
  rcases Entry.posted_or_applied he with ⟨m, rfl⟩ | ⟨t, rfl⟩ <;> rfl

theorem kept_chronicled [Handler η] [Executor ε] (a : α) :
    Kept fun w : Shell η α ε =>
      w.table.AtRest ∧ w.Chronicled ∧ w.authority = w.stage.journal.foldl Entry.heard a := by
  refine kept_of_steps ?_ ?_ ?_
  · exact fun w h hw => ⟨⟨hw.1.explains, hw.1.finishes⟩, hw.2⟩
  · intro w m rest hq hw
    refine ⟨⟨?_, by rw [take_events, take_finishCalls, hw.1.finishes]⟩, ?_⟩
    · intro token
      rw [Stage.eventsOf, take_events]
      exact hw.1.explains token
    · rw [take, Stage.note, List.foldl_append]
      exact hw.2
  · exact fun w ticket w' ht hw h => ⟨hw.1.of_step ht h, h.authority hw.2⟩

end Shell

/-! ## Counts -/

theorem Life.counts {life : List Event} (h : Life token life) :
    life.countP Event.isStart = 1 ∧ life.countP (fun e => e.finished?.isSome) = 1 := by
  cases h <;> exact ⟨rfl, rfl⟩

theorem Underway.counts {r? : Option Record} (h : Underway token r? rest) :
    rest.countP Event.isStart = (if r?.isSome then 1 else 0) ∧ rest.countP (fun e => e.finished?.isSome) = 0 := by
  cases h <;> exact ⟨rfl, rfl⟩

/-- What each life has once, a sequence of lives has as often as there are lives. -/
theorem countP_lives {p : Event → Bool} (hp : ∀ life, Life token life → life.countP p = 1)
    {lives : List (List Event)} (h : ∀ life ∈ lives, Life token life) : lives.flatten.countP p = lives.length := by
  induction lives with
  | nil => rfl
  | cons life lives ih =>
    have hrest := ih fun l hl => h l (List.mem_cons_of_mem life hl)
    rw [List.flatten_cons, List.countP_append, hrest, hp life (h life List.mem_cons_self), List.length_cons,
      Nat.add_comm]

theorem Table.Explains.counts {t : Table} {log : List Event} (h : t.Explains token log) :
    log.countP (fun e => e.finished?.isSome) + (if t.contains token then 1 else 0) = log.countP Event.isStart := by
  obtain ⟨lives, rest, rfl, hlives, hrest⟩ := h
  have hs := countP_lives (fun _ hl => hl.counts.1) hlives
  have hf := countP_lives (fun _ hl => hl.counts.2) hlives
  obtain ⟨hs', hf'⟩ := hrest.counts
  rw [List.countP_append, List.countP_append, hs, hf, hs', hf', Nat.add_zero]
  rfl

theorem count_finished (events : List Event) (token : Token) :
    (events.filterMap Event.finished?).count token =
      (events.filter (·.token = token)).countP fun e => e.finished?.isSome := by
  rw [List.count, List.countP_filterMap, List.countP_filter]
  apply List.countP_congr
  intro e _
  cases e with
  | finished other =>
    simp only [Event.finished?, Event.token, Option.map_some, Option.getD_some, beq_iff_eq, Option.isSome_some,
      Bool.true_and]
    exact decide_eq_true_iff.symm
  | started | phaseChanged | dispatched => simp [Event.finished?]

/-! ## Runs -/

namespace Shell

variable {η α ε : Type}

theorem chronicled_fresh (config : Config) (authority : α) (executor : ε) :
    (fresh config authority executor : Shell η α ε).Chronicled :=
  ⟨fun _ => ⟨[], [], rfl, by simp, .absent⟩, rfl⟩

variable [Handler η] [Authority α] [Executor ε]

/-- After every run, whatever comes to the shell: the reports under a token are whole lives, and behind them the
beginning of one more exactly if the token is active. The authority has been told of each reported finish, in the
order of the reports, hence once for each start but that of the active transition, and its state is what these calls
and those that start transitions have made of it. -/
theorem run_lives (config : Config) (authority : α) (executor : ε) (moves : List (Move η)) :
    let w := (fresh config authority executor : Shell η α ε).run moves
    (∀ token, ∃ (lives : List (List Event)) (rest : List Event), w.stage.eventsOf token = lives.flatten ++ rest ∧
        (∀ life ∈ lives, Life token life) ∧ (rest = [] ∨ Unfinished token rest) ∧
        (w.table.contains token = true ↔ rest ≠ [])) ∧
      w.stage.finishCalls = w.stage.events.filterMap Event.finished? ∧
      (∀ token, w.stage.finishCalls.count token + (if w.table.contains token then 1 else 0) =
        (w.stage.eventsOf token).countP Event.isStart) ∧
      w.authority = w.stage.journal.foldl Entry.heard authority := by
  intro w
  have start : (fresh config authority executor : Shell η α ε).table.AtRest := ⟨List.nodup_nil, by simp [fresh]⟩
  obtain ⟨_, hw, ha⟩ := (kept_chronicled authority).run moves (fresh config authority executor)
    ⟨start, chronicled_fresh config authority executor, rfl⟩
  refine ⟨?_, hw.finishes, ?_, ha⟩
  · intro token
    obtain ⟨lives, rest, hlog, hlives, hrest⟩ := hw.explains token
    refine ⟨lives, rest, hlog, hlives, ?_, ?_⟩
    · cases hr : w.table.get? token with
      | none => exact .inl (hrest.eq_nil_iff.mpr hr)
      | some r =>
        rw [hr] at hrest
        exact .inr hrest.unfinished
    · rw [ne_eq, hrest.eq_nil_iff, Table.contains, Option.isSome_iff_ne_none]
  · intro token
    rw [hw.finishes, count_finished]
    exact (hw.explains token).counts

end Shell

end WindowTransitions
