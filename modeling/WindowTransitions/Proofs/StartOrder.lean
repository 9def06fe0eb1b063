import WindowTransitions.Proofs.Lives

/-! Active transitions in the order of their starts. A start is unfinished as long as no finish of its token is
reported behind it. Main statement: after every run the tokens of the table are those of the unfinished starts, in
the order in which these starts are reported. -/

set_option autoImplicit false

namespace WindowTransitions

/-! ## Unfinished starts -/

namespace Event

/-- The tokens of the starts behind which no finish of their token is reported, in order. -/
def unfinished : List Event → List Token
  | [] => []
  | .started token _ _ :: later => if .finished token ∈ later then unfinished later else token :: unfinished later
  | _ :: later => unfinished later

/-- A report between a start and a finish. -/
def isBetween : Event → Bool
  | .started _ _ _ | .finished _ => false
  | _ => true

variable {log more : List Event} {token : Token}

theorem unfinished_append_started (log : List Event) (token : Token) (kind : Kind) (assigned : Option HandlerId) :
    unfinished (log ++ [.started token kind assigned]) = unfinished log ++ [token] := by
  induction log with
  | nil => rfl
  | cons e log ih =>
    cases e with
    | started other kind' assigned' =>
      simp only [List.cons_append, unfinished, ih, List.mem_append, List.mem_singleton, reduceCtorEq, or_false]
      split <;> rfl
    | phaseChanged | dispatched | finished => exact ih

theorem unfinished_append_finished (log : List Event) (token : Token) :
    unfinished (log ++ [.finished token]) = (unfinished log).filter (· ≠ token) := by
  induction log with
  | nil => rfl
  | cons e log ih =>
    cases e with
    | started other kind assigned =>
      simp only [List.cons_append, unfinished, ih, List.mem_append, List.mem_singleton, Event.finished.injEq]
      by_cases hin : .finished other ∈ log
      · simp [hin]
      · by_cases hother : other = token
        · subst hother
          simp [hin]
        · simp [hin, hother]
    | phaseChanged | dispatched | finished => exact ih

theorem unfinished_append_between (log : List Event) (h : ∀ e ∈ more, e.isBetween = true) :
    unfinished (log ++ more) = unfinished log := by
  have hmore : unfinished more = [] := by
    induction more with
    | nil => rfl
    | cons e more ih =>
      have he := h e List.mem_cons_self
      have htail := ih fun e' he' => h e' (List.mem_cons_of_mem e he')
      cases e with
      | phaseChanged | dispatched => exact htail
      | started | finished => cases he
  induction log with
  | nil => exact hmore
  | cons e log ih =>
    cases e with
    | started token kind assigned =>
      have hnot : .finished token ∉ more := by
        intro hin
        cases h _ hin
      simp only [List.cons_append, unfinished, ih, List.mem_append, hnot, or_false]
    | phaseChanged | dispatched | finished => exact ih

end Event

namespace Shell

variable {η α ε : Type} [Authority α] {w w' : Shell η α ε}

/-! ## The table -/

/-- The table holds the unfinished starts. -/
def Ordered (w : Shell η α ε) : Prop := w.table.tokens = Event.unfinished w.stage.events

theorem Ordered.of_between {t : Table} {calls : List Entry} (hw : w.Ordered) (h : w.LeadsTo w' t calls)
    (ht : t.tokens = w.table.tokens) (hc : ∀ e ∈ calls.filterMap Entry.event?, e.isBetween = true) : w'.Ordered := by
  unfold Ordered at hw ⊢
  rw [h.table, ht, h.stage.events, Event.unfinished_append_between _ hc, hw]

theorem Ordered.of_finished {token : Token} {calls : List Entry} (reports : List Event) (hw : w.Ordered)
    (h : w.LeadsTo w' (w.table.remove token) calls)
    (hc : calls.filterMap Entry.event? = reports ++ [.finished token]) (hr : ∀ e ∈ reports, e.isBetween = true) :
    w'.Ordered := by
  unfold Ordered at hw ⊢
  rw [h.table, Table.tokens_remove, h.stage.events, hc, ← List.append_assoc, Event.unfinished_append_finished,
    Event.unfinished_append_between _ hr, hw]

theorem Step.ordered [Handler η] {ticket : Option Ticket} (hw : w.Ordered) (h : w.Step ticket w') : w'.Ordered := by
  cases h with
  | idle hc h => exact hw.of_between h rfl (by simp [(preludes_report_nothing hc).1])
  | @entered token kind assigned calls _ _ hc _ h =>
    have hstart : (calls ++ [Entry.event (.started token kind assigned)]).filterMap Entry.event? =
        [.started token kind assigned] := by simp [(preludes_report_nothing hc).1]
    unfold Ordered at hw ⊢
    rw [h.table, h.stage.events, hstart, Table.tokens_append_singleton, Event.unfinished_append_started, hw]
  | @tidied token kind assigned generation _ h =>
    exact hw.of_finished [.phaseChanged token .pending .dispatching, .phaseChanged token .dispatching .finished] h rfl
      (by simp [Event.isBetween])
  | owned _ hd _ h | faded _ hd _ _ h =>
    exact hw.of_between h (Table.tokens_put ..) (by simp [(offers_report_nothing hd).1, Event.isBetween])
  | @unfaded token kind assigned generation batch d _ hd _ h =>
    refine hw.of_finished [.phaseChanged token .pending .dispatching, .dispatched token none 0,
      .phaseChanged token .dispatching .animating, .phaseChanged token .animating .finished] h ?_
      (by simp [Event.isBetween])
    simp [List.filterMap_cons, (offers_report_nothing hd).1]
  | @presented k _ _ h =>
    exact hw.of_finished [.phaseChanged k.token .animating .finished] h rfl (by simp [Event.isBetween])
  | fewer _ _ _ _ h => exact hw.of_between h (Table.tokens_put ..) (by simp)
  | @last token r fades a _ _ _ _ h =>
    exact hw.of_finished [.phaseChanged token .animating .finished] h rfl (by simp [Event.isBetween])

theorem kept_ordered [Handler η] [Executor ε] : Kept fun w : Shell η α ε => w.table.AtRest ∧ w.Ordered := by
  refine kept_of_steps (fun w h hw => hw) ?_ fun w ticket w' _ hw h => h.ordered hw
  intro w m rest _ hw
  unfold Ordered at hw ⊢
  rw [take_events]
  exact hw

end Shell

end WindowTransitions
