import WindowTransitions.Proofs.Dues
import WindowTransitions.Proofs.Rest
import WindowTransitions.Rehearsal.Cast

/-! Completion of default fades. A report that a default animation came to its end carries no generation. It is safe
all the same: as long as nobody else makes such reports, the animations that run for the active transitions are at
any time those whose end is due. Main statement: each id runs for at most one transition, for which one job or one
report in the queue stands, so every report taken from the queue finds what it is about. -/

set_option autoImplicit false

namespace WindowTransitions

/-! ## Reports from jobs only -/

/-- Handlers that post no ends of default animations. -/
def Handler.LeavesFades (η : Type) [Handler η] : Prop :=
  ∀ h : η, (∀ kind token trigger, ∀ m ∈ (Handler.request h kind token trigger).posted, m.fadeDone? = none) ∧
    ∀ ticket batch start, ∀ m ∈ (Handler.offer h ticket batch start).posted, m.fadeDone? = none

/-- A move that hands in no end of a default animation. -/
def Move.LeavesFades {η : Type} : Move η → Prop
  | .process m => m.fadeDone? = none
  | .post m => m.fadeDone? = none
  | _ => True

namespace Control

theorem dues_fadeJobs (config : Config) (token : Token) (ids : List AnimationId) (targets : List (Surface × Bool))
    (h : ids.length = targets.length) :
    (fadeJobs config token ids targets).flatMap Job.dues = ids.map fun a => (token, a) := by
  induction targets generalizing ids with
  | nil =>
    rw [List.length_eq_zero_iff.mp h]
    rfl
  | cons target targets ih =>
    cases ids with
    | nil => cases h
    | cons a ids =>
      have hrest := ih ids (Nat.succ.inj h)
      simp only [fadeJobs, List.zip_cons_cons, List.map_cons, List.flatMap_cons] at hrest ⊢
      rw [hrest]
      rfl

end Control

namespace Shell

variable {η α ε : Type} (w : Shell η α ε)

/-! ## What the states owe -/

theorem owes_offered [Handler η] (honest : Handler.LeavesFades η) (token : Token) (r : Record) (batch : Batch)
    (start : Transaction) : w.stage.Owes (w.offered token r batch start).stage [] := by
  have hd := Registry.dispatch_sound token r.generation batch r.assigned w.handlers (start ++ batch.startState)
  refine (w.stage.owes_note _).quietly (owes_visits { w.turned token r .dispatching with
    handlers := (w.offers token r batch start).handlers } ?_)
  intro v hv
  obtain ⟨h, id, _, _, rfl⟩ := hd.visits v hv
  exact (honest h).2 _ _ _

theorem owes_asked [Handler η] (honest : Handler.LeavesFades η) (kind : Kind) (token : Token)
    (trigger : Option Trigger) : w.stage.Owes (w.asked kind token trigger).stage [] := by
  refine owes_visits { w with handlers := (w.handlers.negotiate kind token trigger).handlers } ?_
  intro v hv
  obtain ⟨h, _, _, rfl⟩ := w.handlers.negotiate_visits kind token trigger v hv
  exact (honest h).1 _ _ _

theorem owes_appliedRest (start : Transaction) : w.stage.Owes (w.appliedRest start).stage [] := by
  unfold appliedRest
  split
  · exact .refl w.stage
  · exact w.stage.owes_apply start

theorem owes_faded [Executor ε] (token : Token) (r : Record) (batch : Batch) (start : Transaction) :
    w.stage.Owes (w.faded token r batch start).stage
      ((w.nextAnimation.upFrom batch.fadeTargets.length).map fun a => (token, a)) := by
  have hsettled : w.stage.Owes ((w.allotted batch start).settled token
      { r with fades := some (w.nextAnimation.upFrom batch.fadeTargets.length) } batch.fadeTargets.length).stage [] :=
    .of_eq rfl rfl rfl
  have hlaunches := owes_launches ((w.allotted batch start).settled token
      { r with fades := some (w.nextAnimation.upFrom batch.fadeTargets.length) } batch.fadeTargets.length)
    (Control.fadeJobs w.config token (w.nextAnimation.upFrom batch.fadeTargets.length) batch.fadeTargets)
  rw [Control.dues_fadeJobs _ _ _ _ (Control.length_upFrom _ _)] at hlaunches
  exact hsettled.trans hlaunches

/-! ## Balance -/

variable {w} {w' : Shell η α ε}

/-- Messages are taken, and the default animations that run are those whose end is due. -/
structure Balanced (w : Shell η α ε) : Prop where
  isOpen : w.stage.isOpen = true
  count : ∀ token a, (w.table.fadesOf token).count a = w.stage.dues.count (token, a)

theorem Balanced.of_owes {more : List (Token × AnimationId)} (hw : w.Balanced) (ho : w.stage.Owes w'.stage more)
    (hf : ∀ token a, (w'.table.fadesOf token).count a = (w.table.fadesOf token).count a + more.count (token, a)) :
    w'.Balanced := by
  obtain ⟨hopen, hp⟩ := ho hw.isOpen
  refine ⟨hopen, fun token a => ?_⟩
  rw [hf, hw.count, hp.count_eq, List.count_append]

theorem Balanced.still (hw : w.Balanced) (ho : w.stage.Owes w'.stage []) (hf : w'.table.fadesOf = w.table.fadesOf) :
    w'.Balanced :=
  hw.of_owes ho fun token a => by rw [hf, List.count_nil, Nat.add_zero]

/-! ## Messages from the queue -/

theorem dues_take {m : Message} {rest : List Message} (hq : w.stage.queue = m :: rest) :
    w.stage.dues.Perm (m.fadeDone?.toList ++ (w.take m rest).stage.dues) := by
  have htake : (w.take m rest).stage.dues =
      w.stage.jobs.flatMap Job.dues ++ rest.filterMap Message.fadeDone? := rfl
  rw [htake, Stage.dues, hq]
  cases hm : m.fadeDone? with
  | none => rw [List.filterMap_cons_none hm, Option.toList_none, List.nil_append]
  | some p =>
    rw [List.filterMap_cons_some hm, Option.toList_some]
    exact List.perm_middle

theorem Balanced.take {m : Message} {rest : List Message} (hq : w.stage.queue = m :: rest)
    (hm : m.fadeDone? = none) (hw : w.Balanced) : (w.take m rest).Balanced := by
  refine ⟨hw.isOpen, fun token a => ?_⟩
  have hdues := (w.dues_take hq).count_eq (token, a)
  rw [hm, Option.toList_none, List.nil_append] at hdues
  rw [← hdues]
  exact hw.count token a

/-- A report in the queue finds what it is about. -/
theorem Balanced.tracked {token : Token} {a : AnimationId} (hw : w.Balanced)
    (hq : .fadeDone token a ∈ w.stage.queue) : a ∈ w.table.fadesOf token := by
  have hmem : (token, a) ∈ w.stage.dues := List.mem_append_right _ (List.mem_filterMap.mpr ⟨_, hq, rfl⟩)
  have hpos := List.count_pos_iff.mpr hmem
  rw [← hw.count] at hpos
  exact List.count_pos_iff.mp hpos

/-- A report is taken, and the animation that it is about ends. -/
theorem Balanced.ended {token : Token} {a : AnimationId} {rest : List Message} (hw : w.Balanced)
    (hq : w.stage.queue = .fadeDone token a :: rest)
    (hdues : w'.stage.dues = (w.take (.fadeDone token a) rest).stage.dues) (hopen : w'.stage.isOpen = w.stage.isOpen)
    (hfades : w'.table.fadesOf = Function.update w.table.fadesOf token ((w.table.fadesOf token).erase a)) :
    w'.Balanced := by
  refine ⟨hopen.trans hw.isOpen, fun k b => ?_⟩
  have hperm := (w.dues_take hq).count_eq (k, b)
  rw [← hw.count, List.count_append] at hperm
  rw [hdues, hfades]
  by_cases hk : k = token
  · subst hk
    rw [Function.update_self, List.count_erase, hperm]
    by_cases hb : a = b <;> simp [Message.fadeDone?, hb]
  · rw [Function.update_of_ne hk, hperm]
    simp [Message.fadeDone?, Ne.symm hk]

/-! ## Operations keep the balance -/

section Operations
variable [Authority α]

theorem Balanced.of_start {v : Shell η α ε} {kind : Kind} {placeholder : Option Token}
    {containers : Option Container.Transaction} {assigned : Option HandlerId} {c : Control η α ε Token}
    (hv : v.Balanced) (h : Control.StartOutcome v kind placeholder containers assigned (c.run w)) :
    (c.perform w).2.Balanced := by
  generalize hr : c.run w = result at h
  cases h with
  | refused hs h =>
    rw [Control.perform_of_error hr]
    exact hv.still (.of_eq rfl rfl rfl) rfl
  | entered hs h =>
    rw [Control.perform_of_ok hr]
    exact hv.still (.of_eq rfl rfl rfl) (Table.fadesOf_append h rfl)

theorem Balanced.start [Handler η] (hw : w.Balanced) (kind : Kind) (containers : Container.Transaction)
    (handler : Option HandlerId) : ((Control.start kind containers handler).perform w).2.Balanced := by
  rcases Control.start_outcome w kind containers handler with ⟨_, _, _, h⟩ | ⟨_, h⟩
  · rw [Control.perform_of_error h]
    exact hw
  · exact hw.of_start h

theorem Balanced.request [Handler η] (honest : Handler.LeavesFades η) (hw : w.Balanced) (kind : Kind)
    (placeholder : Token) (trigger : Option Trigger) :
    ((Control.request kind placeholder trigger).perform w).2.Balanced := by
  rcases Control.request_outcome w kind placeholder trigger with ⟨_, h⟩ | ⟨_, h⟩
  · rw [Control.perform_of_error h]
    exact hw
  · have hasked : (w.asked kind placeholder trigger).Balanced :=
      hw.still (w.owes_asked honest kind placeholder trigger) (by rw [asked, withVisits_table])
    exact hasked.of_start h

theorem Balanced.ready [Handler η] [Executor ε] (honest : Handler.LeavesFades η) (ht : w.table.AtRest)
    (hw : w.Balanced) (token : Token) (batch : Batch) (start : Transaction) :
    ((Control.ready token batch start).perform w).2.Balanced := by
  have hout := Control.ready_outcome ht token batch start
  generalize hr : (Control.ready token batch start).run w = result at hout
  cases hout with
  | unknown | duplicate =>
    rw [Control.perform_of_error hr]
    exact hw
  | rootless h hp hb =>
    rw [Control.perform_of_ok hr]
    obtain ⟨kind, assigned, generation, rfl⟩ := ht.pending h hp
    refine hw.still (.of_eq rfl rfl rfl) ?_
    rw [(w.leadsTo_rootless token kind assigned generation start).table]
    exact Table.fadesOf_remove_of_none h rfl
  | @owned r owner h hp hb ho =>
    rw [Control.perform_of_ok hr]
    obtain ⟨kind, assigned, generation, rfl⟩ := ht.pending h hp
    have howes := (w.owes_offered honest token { kind, assigned, generation } batch start).quietly
      (owes_appliedRest _ (w.offers token { kind, assigned, generation } batch start).start)
    refine hw.still (howes.quietly (.of_eq rfl rfl rfl)) ?_
    rw [(w.leadsTo_owned token kind assigned generation batch start owner).table]
    exact Table.fadesOf_put_of_none h rfl rfl
  | faded h hp hb ho hn =>
    rw [Control.perform_of_ok hr]
    obtain ⟨kind, assigned, generation, rfl⟩ := ht.pending h hp
    have howes := (w.owes_offered honest token { kind, assigned, generation } batch start).trans
      (owes_faded _ token { kind, assigned, generation } batch
        (w.offers token { kind, assigned, generation } batch start).start)
    rw [List.nil_append, offered_animation] at howes
    refine hw.of_owes howes fun k a => ?_
    rw [(w.leadsTo_fading token kind assigned generation batch start).table, Table.fadesOf_put h, Option.getD_some]
    by_cases hk : k = token
    · subst hk
      have hnone : w.table.fadesOf k = [] := by rw [Table.fadesOf_of_get? h, Option.getD_none]
      rw [Function.update_self, hnone, List.count_nil, Nat.zero_add]
      exact (List.count_map_of_injective _ _ (fun _ _ h => (Prod.mk.inj h).2) a).symm
    · have hother : (k, a) ∉ (w.nextAnimation.upFrom batch.fadeTargets.length).map fun a => (token, a) := by
        simp [Ne.symm hk]
      rw [Function.update_of_ne hk, List.count_eq_zero_of_not_mem hother, Nat.add_zero]
  | unfaded h hp hb ho hn =>
    rw [Control.perform_of_ok hr]
    obtain ⟨kind, assigned, generation, rfl⟩ := ht.pending h hp
    have howes := (w.owes_offered honest token { kind, assigned, generation } batch start).trans
      (owes_faded _ token { kind, assigned, generation } batch
        (w.offers token { kind, assigned, generation } batch start).start)
    rw [hn] at howes
    refine hw.still (howes.quietly (.of_eq rfl rfl rfl)) ?_
    rw [(w.leadsTo_unfaded token kind assigned generation batch start hn).table]
    exact Table.fadesOf_remove_of_none h rfl

theorem Balanced.handlerDone (ht : w.table.AtRest) (hw : w.Balanced) (ticket : Ticket) :
    ((Control.handlerDone ticket).perform w).2.Balanced := by
  by_cases h : w.table.Honours ticket
  · rw [Control.perform_of_ok (Control.run_handlerDone ht h)]
    obtain ⟨r, hr, ho, _⟩ := h
    exact hw.still (.of_eq rfl rfl rfl) (Table.fadesOf_remove_of_none hr ((ht.get? hr).fades_of_owner ho))
  · rw [Control.perform_of_ok (Control.run_handlerDone_ignored h)]
    exact hw

theorem Balanced.fadeDone (ht : w.table.AtRest) (hw : w.Balanced) {token : Token} {a : AnimationId}
    {rest : List Message} (hq : w.stage.queue = .fadeDone token a :: rest) :
    ((Control.fadeDone token a).perform (w.take (.fadeDone token a) rest)).2.Balanced ∧
      ∃ w', (Control.fadeDone token a).run (w.take (.fadeDone token a) rest) = .ok () w' := by
  obtain ⟨r, fades, hget, hf, ha⟩ := Table.mem_fadesOf.mp (hw.tracked (hq ▸ List.mem_cons_self))
  have hout := Control.fadeDone_outcome (w := w.take (.fadeDone token a) rest) ht token a
  generalize hr : (Control.fadeDone token a).run (w.take (.fadeDone token a) rest) = result at hout
  cases hout with
  | unknown h => cases hget.symm.trans h
  | untracked h hnone =>
    obtain rfl := Option.some.inj (hget.symm.trans h)
    simp [Record.endFade?, hf, ha] at hnone
  | fewer h hf' _ hm =>
    obtain rfl := Option.some.inj (hget.symm.trans h)
    obtain rfl := Option.some.inj (hf.symm.trans hf')
    rw [Control.perform_of_ok hr]
    refine ⟨hw.ended hq rfl rfl ?_, _, rfl⟩
    rw [Table.fadesOf_of_get? hget, hf]
    exact Table.fadesOf_put hget
  | last h hf' _ hm =>
    obtain rfl := Option.some.inj (hget.symm.trans h)
    obtain rfl := Option.some.inj (hf.symm.trans hf')
    rw [Control.perform_of_ok hr]
    refine ⟨hw.ended hq rfl rfl ?_, _, rfl⟩
    rw [Table.fadesOf_of_get? hget, hf, Option.getD_some, hm]
    exact Table.fadesOf_remove

theorem Balanced.process [Handler η] [Executor ε] (honest : Handler.LeavesFades η) (ht : w.table.AtRest)
    (hw : w.Balanced) (m : Message) (hm : m.fadeDone? = none) : ((Control.process m).perform w).2.Balanced := by
  rw [Control.perform_process]
  cases m with
  | ready token batch start => exact hw.ready honest ht token batch start
  | request kind token trigger => exact hw.request honest kind token trigger
  | handlerDone ticket => exact hw.handlerDone ht ticket
  | fadeDone token a => cases hm
  | shutdown => exact hw

theorem Balanced.move [Handler η] [Executor ε] (honest : Handler.LeavesFades η) (ht : w.table.AtRest)
    (hw : w.Balanced) (m : Move η) (hm : m.LeavesFades) (hd : ∀ limit, m ≠ .drain limit) : (w.move m).2.Balanced := by
  cases m with
  | addHandler h => exact ⟨hw.isOpen, hw.count⟩
  | request kind token trigger => exact hw.request honest kind token trigger
  | start kind containers handler => exact hw.start kind containers handler
  | ready token batch start => exact hw.ready honest ht token batch start
  | process m => exact hw.process honest ht m hm
  | drain limit => exact absurd rfl (hd limit)
  | post m =>
    have hpost := w.stage.owes_post m
    rw [show m.fadeDone? = none from hm] at hpost
    exact hw.still hpost rfl
  | act a => exact hw.still (w.stage.owes_perform a) rfl

theorem Balanced.receive [Handler η] [Executor ε] (honest : Handler.LeavesFades η) (ht : w.table.AtRest)
    (hw : w.Balanced) {m : Message} {rest : List Message} (hq : w.stage.queue = m :: rest) :
    (w.receive m rest).2.Balanced := by
  cases hm : m.fadeDone? with
  | none => exact (hw.take hq hm).process honest (w := w.take m rest) ht m hm
  | some p =>
    cases m with
    | fadeDone token a =>
      rw [Shell.receive, Control.perform_process]
      exact (hw.fadeDone ht hq).1
    | ready | request | handlerDone | shutdown => cases hm

theorem Balanced.run [Handler η] [Executor ε] (honest : Handler.LeavesFades η) (moves : List (Move η))
    (hm : ∀ m ∈ moves, m.LeavesFades) (w : Shell η α ε) (hrest : w.table.AtRest ∧ w.Resting) (hw : w.Balanced) :
    (w.run moves).Balanced := by
  refine (run_induction (P := fun w => (w.table.AtRest ∧ w.Resting) ∧ w.Balanced) Move.LeavesFades ?_ ?_ moves hm w
    ⟨hrest, hw⟩).2
  · exact fun w m hm hd hw => ⟨kept_resting.move w m hd hw.1, hw.2.move honest hw.1.1 m hm hd⟩
  · exact fun w m rest hq hw => ⟨kept_resting.receive w m rest hq hw.1, hw.2.receive honest hw.1.1 hq⟩

end Operations

/-! ## One job or report for each running animation -/

end Shell

theorem Stage.countP_dues (s : Stage) (a : AnimationId) :
    s.dues.countP (fun p => p.2 = a) =
      (s.jobs.countP fun j => !j.ended && j.id = a) + s.queue.countP fun m => m.fadeDone?.map (·.2) = some a := by
  have hjobs : ∀ jobs : List Job, (jobs.flatMap Job.dues).countP (fun p => p.2 = a) =
      jobs.countP fun j => !j.ended && j.id = a := by
    intro jobs
    induction jobs with
    | nil => rfl
    | cons j jobs ih =>
      rw [List.flatMap_cons, List.countP_append, ih, List.countP_cons, Nat.add_comm]
      congr 1
      cases he : j.ended <;> simp [Job.dues, he, List.countP_cons]
  rw [dues, List.countP_append, hjobs, List.countP_filterMap]
  congr 1
  apply List.countP_congr
  intro m _
  cases m.fadeDone? <;> simp

theorem Table.countP_tokens {t : Table} (ht : t.tokens.Nodup) (token : Token) :
    t.countP (fun e => e.1 = token) = if token ∈ t.tokens then 1 else 0 := by
  rw [← ht.count, tokens, List.count, List.countP_map]
  apply List.countP_congr
  intro e _
  simp

/-- The holders of an id that runs for the transition `token` at most. -/
theorem Table.countP_holders {t : Table} {token : Token} {a : AnimationId} (ht : t.tokens.Nodup)
    (hnodup : (t.fadesOf token).Nodup) (honly : ∀ k, a ∈ t.fadesOf k → k = token) :
    t.countP (fun e => (e.2.fades.getD []).contains a) = (t.fadesOf token).count a := by
  have hholds : ∀ e ∈ t, (e.2.fades.getD []).contains a = true ↔ e.1 = token ∧ a ∈ t.fadesOf token := by
    intro e he
    rw [List.contains_iff_mem, ← Table.fadesOf_of_get? (Table.get?_of_mem_pair ht he)]
    constructor
    · intro h
      have hk := honly e.1 h
      exact ⟨hk, hk ▸ h⟩
    · rintro ⟨hk, h⟩
      exact hk ▸ h
  rw [hnodup.count]
  split
  · rename_i hin
    obtain ⟨r, _, hget, _, _⟩ := Table.mem_fadesOf.mp hin
    have hone := Table.countP_tokens ht token
    rw [if_pos (Table.contains_eq_true_iff.mp (by rw [Table.contains, hget]; rfl))] at hone
    rw [← hone]
    apply List.countP_congr
    intro e he
    rw [hholds e he]
    simp [hin]
  · rename_i hnot
    rw [List.countP_eq_zero]
    intro e he h
    exact hnot ((hholds e he).mp h).2

namespace Shell

variable {η α ε : Type} {w : Shell η α ε}

/-- The dues of an id that runs for the transition `token` at most. -/
theorem Balanced.countP_dues {token : Token} {a : AnimationId} (hw : w.Balanced)
    (honly : ∀ k, a ∈ w.table.fadesOf k → k = token) :
    w.stage.dues.countP (fun p => p.2 = a) = (w.table.fadesOf token).count a := by
  rw [hw.count, List.count]
  apply List.countP_congr
  intro p hp
  have hk : p.2 = a → p.1 = token := by
    intro h
    have hpos := List.count_pos_iff.mpr hp
    rw [← hw.count, h] at hpos
    exact honly p.1 (List.count_pos_iff.mp hpos)
  simp only [decide_eq_true_eq, beq_iff_eq, Prod.ext_iff]
  exact ⟨fun h => ⟨hk h, h⟩, fun h => h.2⟩

/-- The holders of an id and the dues that bear it, both counted under the one token that counts. -/
theorem Balanced.under_token {n : Nat} (ht : w.table.AtRest) (hapart : Apart w.table.fadesOf n) (hw : w.Balanced)
    (a : AnimationId) :
    ∃ token, w.table.countP (fun e => (e.2.fades.getD []).contains a) = (w.table.fadesOf token).count a ∧
      w.stage.dues.countP (fun p => p.2 = a) = (w.table.fadesOf token).count a := by
  obtain ⟨token, htoken⟩ : ∃ token, ∀ k, a ∈ w.table.fadesOf k → k = token := by
    by_cases h : ∃ token, a ∈ w.table.fadesOf token
    · obtain ⟨token, h⟩ := h
      exact ⟨token, fun k hk => hapart.unique hk h⟩
    · exact ⟨⟨0⟩, fun k hk => absurd ⟨k, hk⟩ h⟩
  exact ⟨token, Table.countP_holders ht.distinct (hapart.nodup token) htoken, hw.countP_dues htoken⟩

/-- After every run in which only jobs report ends of default animations, while ids are not used up: an id runs for as
many active transitions as there are jobs that have it and have not ended and reports in the queue that bear it, and
for one at most, whose token is that of the job or the report. So a report taken from the queue, by whatever kind of
executor it was caused, is about an active transition for which its animation runs, and is processed without fault. -/
theorem run_completions [Handler η] [Authority α] [Executor ε] (honest : Handler.LeavesFades η) (config : Config)
    (authority : α) (executor : ε) (moves : List (Move η)) (hm : ∀ m ∈ moves, m.LeavesFades)
    (ha : ((fresh config authority executor : Shell η α ε).run moves).stage.allotments < 2 ^ 64) :
    let w := (fresh config authority executor : Shell η α ε).run moves
    (∀ a, w.table.countP (fun e => (e.2.fades.getD []).contains a) =
          (w.stage.jobs.countP fun j => !j.ended && j.id = a) +
            (w.stage.queue.countP fun m => m.fadeDone?.map (·.2) = some a) ∧
        w.table.countP (fun e => (e.2.fades.getD []).contains a) ≤ 1) ∧
      (∀ e ∈ w.table, ∀ a ∈ e.2.fades.getD [],
        (∀ j ∈ w.stage.jobs, j.ended = false → j.id = a → j.token = e.1) ∧
          ∀ token, .fadeDone token a ∈ w.stage.queue → token = e.1) ∧
      ∀ token a, .fadeDone token a ∈ w.stage.queue →
        (∃ r r', w.table.get? token = some r ∧ r.endFade? a = some r') ∧
          ∀ rest, w.stage.queue = .fadeDone token a :: rest →
            ∃ w', (Control.process (.fadeDone token a)).run (w.take (.fadeDone token a) rest) = .ok true w' := by
  intro w
  have start := resting_fresh (η := η) config authority executor
  have hrest : w.table.AtRest ∧ w.Resting := kept_resting.run moves _ start
  have hw : w.Balanced := Balanced.run honest moves hm _ start ⟨rfl, fun _ _ => rfl⟩
  have hapart := hrest.2.apart ha
  refine ⟨fun a => ?_, fun e he a hae => ?_, fun token a hq => ?_⟩
  · obtain ⟨token, hholders, hdues⟩ := hw.under_token hrest.1 hapart a
    refine ⟨by rw [hholders, ← hdues, Stage.countP_dues], ?_⟩
    rw [hholders]
    exact List.nodup_iff_count_le_one.mp (hapart.nodup token) a
  · rw [← Table.fadesOf_of_get? (Table.get?_of_mem_pair hrest.1.distinct he)] at hae
    refine ⟨fun j hj hended hid => ?_, fun token hq => hapart.unique (hw.tracked hq) hae⟩
    have hdue : (j.token, a) ∈ w.stage.dues := by
      refine List.mem_append_left _ (List.mem_flatMap.mpr ⟨j, hj, ?_⟩)
      simp [Job.dues, hended, hid]
    have hpos := List.count_pos_iff.mpr hdue
    rw [← hw.count] at hpos
    exact hapart.unique (List.count_pos_iff.mp hpos) hae
  · obtain ⟨r, fades, hget, hf, hmem⟩ := Table.mem_fadesOf.mp (hw.tracked hq)
    refine ⟨⟨r, _, hget, by rw [Record.endFade?, hf]; exact if_pos hmem⟩, fun rest hqueue => ?_⟩
    obtain ⟨w', hw'⟩ := (hw.fadeDone hrest.1 hqueue).2
    refine ⟨w', ?_⟩
    simp only [Control.process, EStateM.run_bind, hw']
    rfl

theorem actor_leavesFades : Handler.LeavesFades Rehearsal.Actor := by
  intro a
  refine ⟨by simp [Handler.request], fun ticket batch start m hm => ?_⟩
  rw [Rehearsal.Actor.posted_offer hm]
  rfl

/-- Two surfaces fade in, and one of the two jobs is cancelled. -/
def oneCancelled : List (Move Rehearsal.Actor) :=
  [.start .opening [] none,
    .ready ⟨1⟩
      { kind := .opening
        root := some ⟨1⟩
        participants := [{ surface := ⟨2⟩, mode := .opening }, { surface := ⟨3⟩, mode := .opening }] } [],
    .act (.conclude 0 .cancel)]

theorem run_completions_one_cancelled :
    let w := (fresh {} (⟨0, false⟩ : Rehearsal.Issuer) Rehearsal.Pace.keeps).run oneCancelled
    w.stage.jobs.map Job.id = [⟨1⟩] ∧ w.stage.queue = [.fadeDone ⟨1⟩ ⟨0⟩] ∧
      w.table.countP (fun e => (e.2.fades.getD []).contains ⟨0⟩) =
        (w.stage.jobs.countP fun j => !j.ended && j.id = ⟨0⟩) +
          (w.stage.queue.countP fun m => m.fadeDone?.map (·.2) = some ⟨0⟩) ∧
      ∃ w', (Control.process (.fadeDone ⟨1⟩ ⟨0⟩)).run (w.take (.fadeDone ⟨1⟩ ⟨0⟩) []) = .ok true w' := by
  obtain ⟨hcount, _, hqueue⟩ := run_completions actor_leavesFades {} (⟨0, false⟩ : Rehearsal.Issuer)
    Rehearsal.Pace.keeps oneCancelled (by simp [oneCancelled, Move.LeavesFades]) (by decide)
  exact ⟨by decide, by decide, (hcount ⟨0⟩).1, (hqueue ⟨1⟩ ⟨0⟩ (by decide)).2 [] (by decide)⟩

end Shell

end WindowTransitions
