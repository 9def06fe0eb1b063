import WindowTransitions.Proofs.Completions
import WindowTransitions.Proofs.Endings
import WindowTransitions.Proofs.Lives

/-! Reports of ended animations that wait in the queue, processed in any order. The table that they leave is the same
in every order, and each transition that finishes leaves it by one report only. Main statement: no order fails, all
orders finish the same transitions, and each token sees the same events; what differs is only how the finishes of
different transitions follow each other. -/

set_option autoImplicit false

namespace WindowTransitions

variable {η α ε : Type}

/-- Take messages out of the queue, wherever they stand in it, and process them one after the other. -/
def Control.processAll [Handler η] [Authority α] [Executor ε] : List Message → Control η α ε Unit
  | [] => return
  | m :: order => do
    modify fun w => w.take m (w.stage.queue.erase m)
    let _ ← process m
    processAll order

/-! ## What reports are about -/

/-- All reports of default animations in `order` are about animations that run. -/
def Table.Covers (t : Table) (order : List Message) : Prop :=
  ∀ token a, (order.filterMap Message.fadeDone?).count (token, a) ≤ (t.fadesOf token).count a

namespace Table.Covers

variable {t t' : Table} {order : List Message} {m : Message} {token : Token} {a : AnimationId}

theorem mem (h : t.Covers (.fadeDone token a :: order)) : a ∈ t.fadesOf token := by
  have hle := h token a
  rw [List.filterMap_cons_some (show (Message.fadeDone token a).fadeDone? = some (token, a) from rfl),
    List.count_cons_self] at hle
  exact List.count_pos_iff.mp (by omega)

theorem tail (h : t.Covers (m :: order)) (hf : t'.fadesOf = t.fadesOf) : t'.Covers order := by
  intro token a
  rw [hf]
  refine Nat.le_trans ?_ (h token a)
  exact ((List.sublist_cons_self m order).filterMap _).count_le _

theorem tail_fadeDone (h : t.Covers (.fadeDone token a :: order))
    (hf : t'.fadesOf = Function.update t.fadesOf token ((t.fadesOf token).erase a)) : t'.Covers order := by
  intro k b
  have hle := h k b
  rw [List.filterMap_cons_some (show (Message.fadeDone token a).fadeDone? = some (token, a) from rfl),
    List.count_cons] at hle
  rw [hf]
  by_cases hk : k = token
  · subst hk
    rw [Function.update_self, List.count_erase]
    by_cases hb : a = b
    · simp only [hb, beq_self_eq_true, if_true] at hle ⊢
      omega
    · simpa [hb] using hle
  · rw [Function.update_of_ne hk]
    omega

end Table.Covers

/-- The last reports of a transition. -/
def Event.farewell (token : Token) : List Event := [.phaseChanged token .animating .finished, .finished token]

namespace Shell

/-! ## What processing reports does -/

/-- From `w` to `v` the reports in `order` are taken out of the queue and processed; the transitions of `gone` finish
by them, in this order, and nothing else changes. -/
structure Completes (w v : Shell η α ε) (order : List Message) (gone : List Token) : Prop where
  table : v.table = order.foldl Table.completed w.table
  tokens : (v.table.tokens ++ gone).Perm w.table.tokens
  queue : v.stage.queue = w.stage.queue.diff order
  finishCalls : v.stage.finishCalls = w.stage.finishCalls ++ gone
  events : v.stage.events = w.stage.events ++ gone.flatMap Event.farewell
  others : { w with
    table := v.table
    authority := v.authority
    stage := { w.stage with queue := v.stage.queue, journal := v.stage.journal } } = v

theorem Completes.refl (w : Shell η α ε) : w.Completes w [] [] where
  table := rfl
  tokens := by simp
  queue := rfl
  finishCalls := by simp
  events := by simp
  others := rfl

variable {w v u : Shell η α ε} {m : Message} {order order' : List Message} {gone gone' : List Token}

theorem Completes.cons (h : w.Completes v [m] gone) (h' : v.Completes u order gone') :
    w.Completes u (m :: order) (gone ++ gone') where
  table := by rw [h'.table, h.table, List.foldl_cons, List.foldl_cons, List.foldl_nil]
  tokens := by
    have hgone := h'.tokens.append_right gone
    refine .trans ?_ h.tokens
    refine .trans ?_ hgone
    rw [List.append_assoc]
    exact List.perm_append_comm.append_left _
  queue := by rw [h'.queue, h.queue, List.diff_cons, List.diff_cons, List.diff_nil]
  finishCalls := by rw [h'.finishCalls, h.finishCalls, List.append_assoc]
  events := by rw [h'.events, h.events, List.flatMap_append, List.append_assoc]
  others := by rw [← h'.others, ← h.others]

/-- A report finishes no transition. -/
theorem completes_stays {table : Table} (h : w.table.completed m = table) (hk : table.tokens = w.table.tokens) :
    w.Completes { w.take m (w.stage.queue.erase m) with table } [m] [] where
  table := h.symm
  tokens := by rw [List.append_nil, hk]
  queue := by simp [take, Stage.note]
  finishCalls := by rw [take_finishCalls, List.append_nil]
  events := by rw [take_events, List.flatMap_nil, List.append_nil]
  others := rfl

/-- A transition finishes by a report. -/
theorem completes_left [Authority α] {token : Token} {r : Record} (ht : w.table.AtRest)
    (hr : w.table.get? token = some r) (hm : m.token? = some token) (h : r.completed token m = none) :
    w.Completes ((w.take m (w.stage.queue.erase m)).left token .animating) [m] [token] where
  table := (Table.completed_eq_remove ht.distinct hr hm h).symm
  tokens := by
    have hmem : token ∈ w.table.tokens := Table.contains_eq_true_iff.mp (by rw [Table.contains, hr]; rfl)
    have hremove : (w.table.remove token).tokens = w.table.tokens.erase token := by
      rw [Table.tokens_remove, ht.distinct.erase_eq_filter]
      apply List.filter_congr
      intro other _
      by_cases ho : other = token <;> simp [ho]
    refine .trans ?_ (List.perm_cons_erase hmem).symm
    rw [← hremove]
    exact List.perm_append_singleton token _
  queue := by simp [left, take, Stage.note]
  finishCalls := by
    rw [((w.take m _).adds_left token .animating).finishCalls, take_finishCalls]
    rfl
  events := by
    rw [((w.take m _).adds_left token .animating).events, take_events]
    rfl
  others := rfl

/-! ## Two orders of the same reports -/

theorem filter_farewells (gone : List Token) (token : Token) :
    (gone.flatMap Event.farewell).filter (·.token = token) =
      (List.replicate (gone.count token) token).flatMap Event.farewell := by
  rw [← List.filter_eq]
  induction gone with
  | nil => rfl
  | cons k gone ih =>
    rw [List.flatMap_cons, List.filter_append, ih, List.filter_cons]
    by_cases hk : k = token <;> simp [Event.farewell, Event.token, hk]

theorem Completes.eventsOf (h : w.Completes v order gone) (token : Token) :
    v.stage.eventsOf token =
      w.stage.eventsOf token ++ (List.replicate (gone.count token) token).flatMap Event.farewell := by
  rw [Stage.eventsOf, Stage.eventsOf, h.events, List.filter_append, filter_farewells]

/-- Two orders of the same reports finish the same transitions. -/
theorem Completes.gone_perm (h : w.Completes v order gone) (h' : w.Completes u order' gone')
    (hp : order'.Perm order) : gone'.Perm gone := by
  have htokens := h'.tokens.trans h.tokens.symm
  rwa [h'.table, w.table.completed_perm hp, ← h.table, List.perm_append_left_iff] at htokens

variable [Handler η] [Authority α] [Executor ε]

theorem run_process_handlerDone {k : Ticket} (h : (Control.handlerDone k).run w = .ok () v) :
    (Control.process (.handlerDone k)).run w = .ok true v := by
  simp only [Control.process, EStateM.run_bind, h]
  rfl

theorem run_process_fadeDone {token : Token} {a : AnimationId} (h : (Control.fadeDone token a).run w = .ok () v) :
    (Control.process (.fadeDone token a)).run w = .ok true v := by
  simp only [Control.process, EStateM.run_bind, h]
  rfl

/-- One report, of which the transition that it is about may not be active any more. -/
theorem process_completion (ht : w.table.AtRest) (hc : w.table.Covers (m :: order)) (hm : m.isCompletion = true) :
    ∃ v gone, (Control.process m).run (w.take m (w.stage.queue.erase m)) = .ok true v ∧ w.Completes v [m] gone ∧
      v.table.AtRest ∧ v.table.Covers order := by
  cases m with
  | ready | request | shutdown => cases hm
  | handlerDone k =>
    by_cases h : w.table.Honours k
    · have hrun := Control.run_handlerDone (w := w.take (.handlerDone k) (w.stage.queue.erase (.handlerDone k))) ht h
      obtain ⟨r, hr, ho, hg⟩ := h
      refine ⟨_, [k.token], run_process_handlerDone hrun, completes_left ht hr rfl ?_, ht.remove, hc.tail ?_⟩
      · simp [Record.completed, Record.isFor, ho, hg]
      · exact Table.fadesOf_remove_of_none hr ((ht.get? hr).fades_of_owner ho)
    · have hrun := Control.run_handlerDone_ignored
        (w := w.take (.handlerDone k) (w.stage.queue.erase (.handlerDone k))) h
      refine ⟨_, [], run_process_handlerDone hrun, completes_stays ?_ rfl, ht, hc.tail rfl⟩
      refine Table.completed_eq_self fun e he => if_neg fun hfor => h ?_
      simp only [Record.isFor, Bool.and_eq_true, decide_eq_true_eq] at hfor
      obtain ⟨⟨hk, ho⟩, hg⟩ := hfor
      exact ⟨e.2, hk ▸ Table.get?_of_mem_pair ht.distinct he, ho, hg⟩
  | fadeDone token a =>
    obtain ⟨r, fades, hr, hf, ha⟩ := Table.mem_fadesOf.mp hc.mem
    have hleft : r.completed token (.fadeDone token a) = r.leaving (fades.erase a) := by
      simp [Record.completed, Record.without, hf]
    have hfades : w.table.fadesOf token = fades := by rw [Table.fadesOf_of_get? hr, hf, Option.getD_some]
    have hout := Control.fadeDone_outcome
      (w := w.take (.fadeDone token a) (w.stage.queue.erase (.fadeDone token a))) ht token a
    generalize hrun : (Control.fadeDone token a).run (w.take (.fadeDone token a) _) = result at hout
    cases hout with
    | unknown h => cases hr.symm.trans h
    | untracked h hnone =>
      obtain rfl := Option.some.inj (hr.symm.trans h)
      simp [Record.endFade?, hf, ha] at hnone
    | fewer h hf' _ hm =>
      obtain rfl := Option.some.inj (hr.symm.trans h)
      obtain rfl := Option.some.inj (hf.symm.trans hf')
      refine ⟨_, [], run_process_fadeDone hrun, completes_stays ?_ (Table.tokens_put ..), ?_, hc.tail_fadeDone ?_⟩
      · exact Table.completed_eq_put ht.distinct hr rfl (hleft.trans (if_neg hm))
      · have hrest := ht.get? hr
        cases hrest with
        | pending | owned => cases hf
        | fading => exact ht.put (.fading _ _ _ _ hm)
      · rw [hfades]
        exact Table.fadesOf_put hr
    | last h hf' _ hm =>
      obtain rfl := Option.some.inj (hr.symm.trans h)
      obtain rfl := Option.some.inj (hf.symm.trans hf')
      refine ⟨_, [token], run_process_fadeDone hrun, completes_left ht hr rfl (hleft.trans (if_pos hm)), ht.remove,
        hc.tail_fadeDone ?_⟩
      rw [hfades, hm]
      exact Table.fadesOf_remove

theorem processAll_completions (order : List Message) (hm : ∀ m ∈ order, m.isCompletion = true) (w : Shell η α ε)
    (ht : w.table.AtRest) (hc : w.table.Covers order) :
    ∃ v gone, (Control.processAll order).run w = .ok () v ∧ w.Completes v order gone := by
  induction order generalizing w with
  | nil => exact ⟨w, [], rfl, .refl w⟩
  | cons m order ih =>
    obtain ⟨v, gone, hrun, hv, hrest, hcovers⟩ := process_completion ht hc (hm m List.mem_cons_self)
    obtain ⟨u, gone', hrun', hu⟩ := ih (fun n hn => hm n (List.mem_cons_of_mem m hn)) v hrest hcovers
    refine ⟨u, gone ++ gone', ?_, hv.cons hu⟩
    simp only [Control.processAll, EStateM.run_bind, EStateM.run_modify, hrun]
    exact hrun'

/-! ## Runs -/

/-- After every run in which only jobs report ends of default animations: take any reports of ended animations from
the queue, of handlers and of jobs, about any transitions, some perhaps about none any more. Processed in either of
two orders, none of them fails. The shells afterwards have the same table, with all records in their order, and each
token has seen the same events; the authority has been told of the same finishes, perhaps in another order. Apart
from the authority and the journal the two shells are the same altogether. -/
theorem run_completions_reordered (honest : Handler.LeavesFades η) (config : Config) (authority : α) (executor : ε)
    (moves : List (Move η)) (hf : ∀ m ∈ moves, m.LeavesFades) :
    let w := (fresh config authority executor : Shell η α ε).run moves
    ∀ order order', order.Subperm w.stage.queue → (∀ m ∈ order, m.isCompletion = true) → order'.Perm order →
      ∃ v v', (Control.processAll order).run w = .ok () v ∧ (Control.processAll order').run w = .ok () v' ∧
        v'.table = v.table ∧ v'.stage.finishCalls.Perm v.stage.finishCalls ∧
        (∀ token, v'.stage.eventsOf token = v.stage.eventsOf token) ∧
        v' = { v with authority := v'.authority, stage := { v.stage with journal := v'.stage.journal } } := by
  intro w order order' hqueue hm hp
  have start := resting_fresh (η := η) config authority executor
  have hrest : w.table.AtRest := (kept_resting.run moves _ start).1
  have hw : w.Balanced := Balanced.run honest moves hf _ start ⟨rfl, fun _ _ => rfl⟩
  have hcovers : w.table.Covers order := by
    intro token a
    rw [hw.count, Stage.dues, List.count_append]
    refine Nat.le_trans ?_ (Nat.le_add_left _ _)
    obtain ⟨picked, hpicked, hsub⟩ := hqueue
    rw [← (hpicked.filterMap Message.fadeDone?).count_eq]
    exact (hsub.filterMap _).count_le _
  have hcovers' : w.table.Covers order' := fun token a => by
    rw [(hp.filterMap Message.fadeDone?).count_eq]
    exact hcovers token a
  obtain ⟨v, gone, hrun, hv⟩ := processAll_completions order hm w hrest hcovers
  obtain ⟨v', gone', hrun', hv'⟩ := processAll_completions order' (fun m h => hm m (hp.mem_iff.mp h)) w hrest hcovers'
  have htable : v'.table = v.table := by rw [hv'.table, hv.table, w.table.completed_perm hp]
  have hgone : gone'.Perm gone := hv.gone_perm hv' hp
  refine ⟨v, v', hrun, hrun', htable, ?_, fun token => ?_, ?_⟩
  · rw [hv'.finishCalls, hv.finishCalls]
    exact hgone.append_left _
  · rw [hv'.eventsOf, hv.eventsOf, hgone.count_eq]
  · have hleft : v'.stage.queue = v.stage.queue := by rw [hv'.queue, hv.queue, hp.diff_left]
    rw [← hv.others, ← hv'.others, htable, hleft]

/-- A handler declines a transition, which fades two surfaces, and accepts another; both times it reports that it is
done. Then the fades end. -/
def endsOfTwo : List (Move Rehearsal.Actor) :=
  [.addHandler { name := "hasty", manner := .scripted [false, true] [] true none none },
    .start .opening [] none,
    .ready ⟨1⟩
      { kind := .opening
        root := some ⟨1⟩
        participants := [{ surface := ⟨2⟩, mode := .opening }, { surface := ⟨3⟩, mode := .opening }] } [],
    .start .closing [] none, .ready ⟨2⟩ { kind := .closing, root := some ⟨1⟩ } [],
    .act (.conclude 1 .cancel), .act (.conclude 0 .drop)]

theorem run_completions_reordered_backwards :
    let w := (fresh {} (⟨0, false⟩ : Rehearsal.Issuer) Rehearsal.Pace.keeps).run endsOfTwo
    w.stage.queue = [.handlerDone ⟨⟨1⟩, ⟨0⟩, 1⟩, .handlerDone ⟨⟨2⟩, ⟨0⟩, 2⟩, .fadeDone ⟨1⟩ ⟨1⟩, .fadeDone ⟨1⟩ ⟨0⟩] ∧
      ∃ v v', (Control.processAll w.stage.queue).run w = .ok () v ∧
        (Control.processAll w.stage.queue.reverse).run w = .ok () v' ∧ v'.table = v.table ∧
        v'.stage.finishCalls.Perm v.stage.finishCalls ∧ v'.stage.eventsOf ⟨1⟩ = v.stage.eventsOf ⟨1⟩ := by
  intro w
  obtain ⟨v, v', hrun, hrun', htable, hcalls, hevents, _⟩ :=
    run_completions_reordered actor_leavesFades {} (⟨0, false⟩ : Rehearsal.Issuer) Rehearsal.Pace.keeps endsOfTwo
      (by simp [endsOfTwo, Move.LeavesFades]) w.stage.queue w.stage.queue.reverse (List.Subperm.refl _) (by decide)
      (List.reverse_perm _)
  exact ⟨by decide, v, v', hrun, hrun', htable, hcalls, hevents ⟨1⟩⟩

end Shell

end WindowTransitions
