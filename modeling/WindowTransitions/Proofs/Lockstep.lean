import WindowTransitions.Proofs.Executors

/-! Two shells side by side, one with an executor that ends jobs at once and one with an executor that keeps them.
Main statement: when the pool is empty, a ready transition comes to the same on both sides once the kept jobs are ended.
From then on everything comes to the same as long as no default animation starts, and in any case if the kept jobs are
ended after each message. A drain in which a default animation starts may differ: jobs that end at once post messages
that it still takes. -/

set_option autoImplicit false

namespace WindowTransitions

namespace Shell

variable {η α ε ε₁ ε₂ : Type}

/-! ## Drains that come to the same -/

section Sides
variable [Executor ε₁] [Executor ε₂] {v : Shell η α ε₁} {u : Shell η α ε₂} {how : Ending}

/-- Two drains come to the same but for the executors. -/
structure SameDrain (d : Drained η α ε₁) (d' : Drained η α ε₂) : Prop where
  handled : d.handled = d'.handled
  ending : d.ending = d'.ending
  shell : d.shell.Mirrors d'.shell

theorem SameDrain.next {d : Drained η α ε₁} {d' : Drained η α ε₂} (h : SameDrain d d') :
    SameDrain { d with handled := d.handled + 1 } { d' with handled := d'.handled + 1 } :=
  ⟨congrArg (· + 1) h.handled, h.ending, h.shell⟩

theorem perform_mirrors {β : Type} {c₁ : Control η α ε₁ β} {c₂ : Control η α ε₂ β}
    (h : Agree how (c₁.run v) (c₂.run u)) : (c₁.perform v).2.Mirrors ((c₂.perform u).2.concludeAll how) := by
  rw [Control.perform, Control.perform]
  generalize c₁.run v = result at h
  generalize c₂.run u = result' at h
  cases h with
  | ok h | error h => exact h

theorem perform_idle {s : Stage} (h : s.jobs = []) (a : Act) : s.perform a = s := by
  cases a with
  | frame index fraction => simp [Stage.perform, h]
  | conclude index how => simp [Stage.perform, Stage.concludeAt, h]

/-- Without new ids of animations an empty pool stays empty. -/
theorem idle_of_hires {w w' : Shell η α ε} {strokes : List Stroke}
    (h : w.stage.Draws (w.Hires w') w'.stage strokes) (ha : w'.stage.allotments = w.stage.allotments)
    (hw : w.stage.jobs = []) : w'.stage.jobs = [] := by
  refine idle_of_draws (h.mono ?_) hw
  rintro j ⟨count, hcount, hid⟩
  obtain rfl : count = 0 := by omega
  cases hid

end Sides

/-! ## Runs in which all jobs are ended after each message -/

section Runs
variable [Handler η] [Authority α] [Executor ε] {w : Shell η α ε}

/-- A drain, with all jobs of the pool ended after each message. -/
def drainEnding (how : Ending) : Nat → Shell η α ε → Drained η α ε
  | limit, w =>
    match w.stage.queue with
    | [] => ⟨0, .emptied, w⟩
    | m :: rest =>
      match limit with
      | 0 => ⟨0, .cutShort, w⟩
      | limit + 1 =>
        match (Control.process m).run (w.take m rest) with
        | .ok true w =>
          let d := drainEnding how limit (w.concludeAll how)
          { d with handled := d.handled + 1 }
        | .ok false w => ⟨1, .shutdown, w.concludeAll how⟩
        | .error fault w => ⟨1, .failed fault, w.concludeAll how⟩

/-- The shell after a move, with all jobs of the pool ended after it and after each message that it takes. -/
def moveEnding (how : Ending) (w : Shell η α ε) : Move η → Shell η α ε
  | .drain limit => (w.drainEnding how limit).shell
  | m => (w.move m).2.concludeAll how

def runEnding (how : Ending) (w : Shell η α ε) (moves : List (Move η)) : Shell η α ε := moves.foldl (moveEnding how) w

theorem drainEnding_succ (how : Ending) (w : Shell η α ε) (m : Message) (rest : List Message) (limit : Nat)
    (hq : w.stage.queue = m :: rest) :
    w.drainEnding how (limit + 1) =
      match (Control.process m).run (w.take m rest) with
      | .ok true w =>
        { (w.concludeAll how).drainEnding how limit with
          handled := ((w.concludeAll how).drainEnding how limit).handled + 1 }
      | .ok false w => ⟨1, .shutdown, w.concludeAll how⟩
      | .error fault w => ⟨1, .failed fault, w.concludeAll how⟩ := by
  rw [drainEnding]
  split
  · rename_i hnil
    cases hnil.symm.trans hq
  · rename_i hcons
    obtain ⟨rfl, rfl⟩ := List.cons.inj (hcons.symm.trans hq)
    rfl

/-! ## Runs in which no default animation starts -/

/-- If no default animation starts, there is nothing to end. -/
theorem drain_idle (how : Ending) (limit : Nat) (ht : w.table.AtRest) (hw : w.stage.jobs = [])
    (ha : (w.drainWithin limit).shell.stage.allotments = w.stage.allotments) :
    w.drainEnding how limit = w.drainWithin limit ∧ (w.drainWithin limit).shell.stage.jobs = [] := by
  induction limit generalizing w with
  | zero =>
    rw [drainWithin, drainEnding]
    cases w.stage.queue <;> exact ⟨rfl, hw⟩
  | succ limit ih =>
    cases hq : w.stage.queue with
    | nil =>
      rw [drainWithin, drainEnding, hq]
      exact ⟨rfl, hw⟩
    | cons m rest =>
      have hrest := kept_atRest.receive w m rest hq ht
      have hfirst := ((kept_allotted w.stage.allotments).receive w m rest hq ⟨ht, Nat.le_refl _⟩).2
      have hdraws := draws_receive ht m rest
      rw [w.drainWithin_succ m rest limit hq] at ha ⊢
      rw [w.drainEnding_succ how m rest limit hq]
      rw [receive] at hrest hfirst hdraws
      cases hr : (Control.process m).run (w.take m rest) with
      | ok goesOn v =>
        simp only [Control.perform_of_ok hr] at hrest hfirst hdraws
        rw [hr] at ha
        cases goesOn with
        | true =>
          have hlast := (drainWithin_induction (kept_allotted v.stage.allotments).receive limit v
            ⟨hrest, Nat.le_refl _⟩).1.2
          have hsame : v.stage.allotments = w.stage.allotments := Nat.le_antisymm (hlast.trans_eq ha) hfirst
          have hv := idle_of_hires hdraws hsame hw
          obtain ⟨hending, hidle⟩ := ih hrest hv (ha.trans hsame.symm)
          simp only [concludeAll_idle hv how, hending]
          exact ⟨trivial, hidle⟩
        | false =>
          have hv := idle_of_hires hdraws ha hw
          simp only [concludeAll_idle hv how]
          exact ⟨trivial, hv⟩
      | error fault v =>
        simp only [Control.perform_of_error hr] at hrest hfirst hdraws
        rw [hr] at ha
        have hv := idle_of_hires hdraws ha hw
        simp only [concludeAll_idle hv how]
        exact ⟨trivial, hv⟩

theorem move_idle (how : Ending) (m : Move η) (ht : w.table.AtRest) (hw : w.stage.jobs = [])
    (ha : (w.move m).2.stage.allotments = w.stage.allotments) :
    w.moveEnding how m = (w.move m).2 ∧ (w.move m).2.stage.jobs = [] := by
  by_cases hd : ∃ limit, m = .drain limit
  · obtain ⟨limit, rfl⟩ := hd
    obtain ⟨hending, hidle⟩ := drain_idle how limit ht hw ha
    exact ⟨congrArg Drained.shell hending, hidle⟩
  · have hidle := idle_of_hires (draws_move ht fun limit hl => hd ⟨limit, hl⟩) ha hw
    have hending : w.moveEnding how m = (w.move m).2.concludeAll how := by
      cases m with
      | drain limit => exact absurd ⟨limit, rfl⟩ hd
      | addHandler | request | start | ready | process | post | act => rfl
    rw [hending, concludeAll_idle hidle]
    exact ⟨rfl, hidle⟩

theorem run_idle (how : Ending) (moves : List (Move η)) (ht : w.table.AtRest) (hw : w.stage.jobs = [])
    (ha : (w.run moves).stage.allotments = w.stage.allotments) :
    w.runEnding how moves = w.run moves ∧ (w.run moves).stage.jobs = [] := by
  induction moves generalizing w with
  | nil => exact ⟨rfl, hw⟩
  | cons m moves ih =>
    have hrest : (w.move m).2.table.AtRest := kept_atRest.run [m] w ht
    have hfirst : w.stage.allotments ≤ (w.move m).2.stage.allotments :=
      ((kept_allotted w.stage.allotments).run [m] w ⟨ht, Nat.le_refl _⟩).2
    have hlast := ((kept_allotted (w.move m).2.stage.allotments).run moves _ ⟨hrest, Nat.le_refl _⟩).2
    have hsame : (w.move m).2.stage.allotments = w.stage.allotments := Nat.le_antisymm (hlast.trans_eq ha) hfirst
    obtain ⟨hending, hidle⟩ := move_idle how m ht hw hsame
    obtain ⟨hendings, hidles⟩ := ih hrest hidle (ha.trans hsame.symm)
    refine ⟨?_, hidles⟩
    rw [runEnding, List.foldl_cons, hending]
    exact hendings

end Runs

/-! ## Both sides -/

section Both
variable [Handler η] [Authority α] [Executor ε] [Executor ε₁] [Executor ε₂] {v : Shell η α ε₁} {u : Shell η α ε₂}

theorem drain_ending (h : v.Mirrors u) (how : Ending) (limit : Nat) :
    SameDrain (v.drainWithin limit) (u.drainEnding how limit) := by
  induction limit generalizing v u with
  | zero =>
    rw [drainWithin, drainEnding, ← h.stage_eq]
    cases v.stage.queue with
    | nil => exact ⟨rfl, rfl, h⟩
    | cons m rest => exact ⟨rfl, rfl, h⟩
  | succ limit ih =>
    cases hq : v.stage.queue with
    | nil =>
      rw [drainWithin, drainEnding, ← h.stage_eq, hq]
      exact ⟨rfl, rfl, h⟩
    | cons m rest =>
      have hagree : Agree how ((Control.process m).run (v.take m rest)) ((Control.process m).run (u.take m rest)) :=
        process_agrees (h.take m rest) m
      rw [v.drainWithin_succ m rest limit hq, u.drainEnding_succ how m rest limit (h.stage_eq ▸ hq)]
      generalize (Control.process m).run (v.take m rest) = result at hagree ⊢
      generalize (Control.process m).run (u.take m rest) = result' at hagree ⊢
      cases hagree with
      | @ok goesOn v' u' h' =>
        cases goesOn with
        | true => exact (ih h').next
        | false => exact ⟨rfl, rfl, h'⟩
      | error h' => exact ⟨rfl, rfl, h'⟩

theorem move_ending (h : v.Mirrors u) (how : Ending) (m : Move η) :
    (v.move m).2.Mirrors (u.moveEnding how m) := by
  have hu : u.stage.jobs = [] := h.stage_eq ▸ h.idle
  cases m with
  | drain limit => exact (drain_ending h how limit).shell
  | addHandler a =>
    have hadded : (v.move (.addHandler a)).2.Mirrors (u.move (.addHandler a)).2 :=
      ⟨congrArg (fun w : Shell η α Unit => { w with handlers := (w.handlers.add a).2 }) h.same, h.rest, h.idle,
        h.atOnce, h.keeps⟩
    exact hadded.concluded how
  | request kind placeholder trigger => exact perform_mirrors (request_agrees h kind placeholder trigger)
  | start kind containers handler => exact perform_mirrors (start_agrees h kind containers handler)
  | ready token batch start => exact perform_mirrors (ready_agrees h token batch start)
  | process m => exact perform_mirrors (process_agrees h m)
  | post m =>
    have hposted : (v.move (.post m)).2.Mirrors (u.move (.post m)).2 :=
      ⟨congrArg (fun w : Shell η α Unit => { w with stage := w.stage.post m }) h.same, h.rest,
        idle_of_draws (Stage.draws_post v.stage m) h.idle, h.atOnce, h.keeps⟩
    exact hposted.concluded how
  | act a =>
    have hv : (v.move (.act a)).2 = v := by
      rw [move, perform_idle h.idle]
    have hu' : (u.move (.act a)).2 = u := by
      rw [move, perform_idle hu]
    change (v.move (.act a)).2.Mirrors ((u.move (.act a)).2.concludeAll how)
    rw [hv, hu']
    exact h.concluded how

theorem run_ending (h : v.Mirrors u) (how : Ending) (moves : List (Move η)) :
    (v.run moves).Mirrors (u.runEnding how moves) := by
  induction moves generalizing v u with
  | nil => exact h
  | cons m moves ih => exact ih (move_ending h how m)

/-- Take a run after which no job is in the pool, and a transition that is made ready then. With an executor that ends
jobs at once it comes to the same as with one that keeps them, whose jobs are all ended behind it, be it at one go in
any of the ways to end them or the oldest first until none is left: table, journal, queue and all else but the executors
are the same. So is every later run with its drains if no default animation starts any more; and if the kept jobs are
ended after each message, it is the same in any case. -/
theorem run_executors (config : Config) (authority : α) (executor : ε) (before : List (Move η)) (atOnce : ε₁)
    (keeping : ε₂) (ho : Executor.EndsAtOnce atOnce) (hk : Executor.Keeps keeping) :
    let w := (fresh config authority executor : Shell η α ε).run before
    w.stage.jobs = [] → ∀ token batch start v, (Control.ready token batch start).run (w.under atOnce) = .ok () v →
      ∃ u, (Control.ready token batch start).run (w.under keeping) = .ok () u ∧
        (∀ n, u.stage.jobs.length ≤ n → (fun s : Stage => s.finishOldest.2)^[n] u.stage = v.stage) ∧
        ∀ how, let x := u.concludeAll how
          v.under () = x.under () ∧
          ∀ later limit,
            (((x.run later).drainWithin limit).shell.stage.allotments = x.stage.allotments →
              SameDrain ((v.run later).drainWithin limit) ((x.run later).drainWithin limit)) ∧
            SameDrain ((v.run later).drainWithin limit) ((x.runEnding how later).drainEnding how limit) := by
  intro w hw token batch start v hv
  have hrest : w.table.AtRest := (kept_resting.run before _ (resting_fresh (η := η) config authority executor)).1
  have hmirrors : (w.under atOnce).Mirrors (w.under keeping) := ⟨rfl, hrest, hw, ho, hk⟩
  have hagree : ∀ how, Agree how ((Control.ready token batch start).run (w.under atOnce))
      ((Control.ready token batch start).run (w.under keeping)) :=
    fun how => ready_agrees hmirrors token batch start
  obtain ⟨u, hu, hc⟩ : ∃ u, (Control.ready token batch start).run (w.under keeping) = .ok () u ∧
      ∀ how, v.Mirrors (u.concludeAll how) := by
    rw [hv] at hagree
    generalize (Control.ready token batch start).run (w.under keeping) = result at hagree
    cases result with
    | ok _ u =>
      refine ⟨u, rfl, fun how => ?_⟩
      cases hagree how with
      | ok h => exact h
    | error fault u => cases hagree .drop
  refine ⟨u, hu, fun n hn => ?_, fun how => ⟨(hc how).same, fun later limit => ?_⟩⟩
  · rw [(hc .drop).stage_eq]
    exact (Stage.finishOldest_iterate u.stage u.stage.jobs hn).trans (Stage.concludeAll_eq u.stage .drop).symm
  · have hended := drain_ending (run_ending (hc how) how later) how limit
    refine ⟨fun ha => ?_, hended⟩
    -- the last count of ids is the first one, so it is also the one between the run and the drain
    let x := u.concludeAll how
    have hx : x.table.AtRest := by
      have hsame : v.table = x.table := congrArg (fun w : Shell η α Unit => w.table) (hc how).same
      exact hsame ▸ (hc how).rest
    have hidle : x.stage.jobs = [] := (hc how).stage_eq ▸ (hc how).idle
    have hrun := (kept_allotted x.stage.allotments).run later x ⟨hx, Nat.le_refl _⟩
    have hdrain := (drainWithin_induction (kept_allotted (x.run later).stage.allotments).receive limit (x.run later)
      ⟨hrun.1, Nat.le_refl _⟩).1
    have hbetween : (x.run later).stage.allotments = x.stage.allotments :=
      Nat.le_antisymm (hdrain.2.trans_eq ha) hrun.2
    obtain ⟨hlater, hstill⟩ := run_idle how later hx hidle hbetween
    have hlast := (drain_idle how limit hrun.1 hstill (ha.trans hbetween.symm)).1
    rw [hlater, hlast] at hended
    exact hended

end Both

/-- Two transitions, of which the second one is ready but not yet taken as such. -/
def twoStarted (batch : Batch) : List (Move Rehearsal.Actor) :=
  [.start .opening [] none, .start .opening [] none, .post (.ready ⟨2⟩ batch [])]

/-- One window that fades in. -/
def oneWindow : Batch := { kind := .opening, root := some ⟨1⟩, participants := [{ surface := ⟨2⟩, mode := .opening }] }

theorem run_executors_fading :
    let w := (fresh {} (⟨0, false⟩ : Rehearsal.Issuer) Rehearsal.Pace.keeps).run (twoStarted oneWindow)
    ∃ v u, (Control.ready ⟨1⟩ oneWindow []).run (w.under (Rehearsal.Pace.ends .drop)) = .ok () v ∧
      (Control.ready ⟨1⟩ oneWindow []).run (w.under Rehearsal.Pace.keeps) = .ok () u ∧ u.stage.jobs.length = 1 ∧
      u.stage.finishOldest.2 = v.stage ∧ v.under () = (u.concludeAll .cancel).under () ∧
      SameDrain (v.drainWithin 5) ((u.concludeAll .cancel).drainEnding .cancel 5) := by
  intro w
  obtain ⟨u, hu, hoff, hall⟩ := run_executors {} (⟨0, false⟩ : Rehearsal.Issuer) Rehearsal.Pace.keeps
    (twoStarted oneWindow) (Rehearsal.Pace.ends .drop) Rehearsal.Pace.keeps (Rehearsal.Pace.endsAtOnce .drop)
    Rehearsal.Pace.keeps_keeps rfl ⟨1⟩ oneWindow [] _ rfl
  have hone : u.stage.jobs.length = 1 := by
    cases hu
    rfl
  exact ⟨_, u, rfl, hu, hone, hoff 1 hone.le, (hall .cancel).1, ((hall .cancel).2 [] 5).2⟩

/-- On the side that ends jobs at once the last drain takes one message more, from the job that starts in it. -/
theorem later_drain_differs :
    ¬ ∀ (before : List (Move Rehearsal.Actor)) token batch start v u,
      let w := (fresh {} (⟨0, false⟩ : Rehearsal.Issuer) Rehearsal.Pace.keeps).run before
      w.stage.jobs = [] →
      (Control.ready token batch start).run (w.under (Rehearsal.Pace.ends .finish)) = .ok () v →
      (Control.ready token batch start).run (w.under Rehearsal.Pace.keeps) = .ok () u →
      v.drain.handled = (u.concludeAll .finish).drain.handled := by
  intro h
  have hsame := h (twoStarted oneWindow) ⟨1⟩ oneWindow [] _ _ rfl rfl rfl
  exact absurd hsame (by decide)

end Shell

end WindowTransitions
