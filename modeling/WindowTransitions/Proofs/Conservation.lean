import WindowTransitions.Proofs.Executors

/-! Jobs from their start to their end. Main statement: an executor that keeps its jobs until they are ended from
outside loses none, doubles none and lets none overtake an older one, and its counts are those of the jobs it ends;
whatever an executor does to its pool, each job writes one alpha for every frame it gets and then its end value once,
and reports once. -/

set_option autoImplicit false

namespace WindowTransitions

/-- The message that reports the end of a job. -/
def Job.report (j : Job) : Message := .fadeDone j.token j.id

/-! ## Calls of an executor that keeps its jobs -/

/-- What is asked of an executor that keeps its jobs until they are ended from outside. -/
inductive PoolCall where
  | execute (id : AnimationId) (token : Token) (fade : Fade)
  | step (fraction : Float32)
  | finishOldest
  | concludeAll (how : Ending)

namespace PoolCall

def executed : PoolCall → List Job
  | .execute id token fade => [{ id, token, fade }]
  | .step _ | .finishOldest | .concludeAll _ => []

/-- How many jobs a call ends when `pending` are there. -/
def ends (pending : Nat) : PoolCall → Nat
  | .execute _ _ _ | .step _ => 0
  | .finishOldest => min 1 pending
  | .concludeAll _ => pending

end PoolCall

namespace Stage

/-- The count that a call returns, if it returns one, and the stage afterwards. -/
def answer (s : Stage) : PoolCall → Nat × Stage
  | .execute id token fade => (0, s.enter { id, token, fade })
  | .step fraction => (0, s.frameAll fraction)
  | .finishOldest => (s.finishOldest.1.toNat, s.finishOldest.2)
  | .concludeAll how => s.concludeAll how

def serve (s : Stage) (calls : List PoolCall) : Stage := calls.foldl (fun s c => (s.answer c).2) s

/-- Messages are taken, and no job in the pool has ended. -/
structure Ready (s : Stage) : Prop where
  isOpen : s.isOpen = true
  running : ∀ j ∈ s.jobs, j.ended = false

/-- From `s` to `s'` the `count` oldest jobs report their ends in order, and jobs `entered` come in behind all
others. -/
structure Passes (s s' : Stage) (count : Nat) (entered : List Job) : Prop where
  isOpen : s'.isOpen = true
  queue : s'.queue = s.queue ++ (s.jobs.take count).map Job.report
  jobs : s'.jobs = s.jobs.drop count ++ entered

theorem conclude_posts {s : Stage} {j : Job} (ho : s.isOpen = true) (he : j.ended = false) (how : Ending) :
    s.conclude j how =
      { s with
        queue := s.queue ++ [j.report]
        journal := s.journal ++ [.applied j.fade.lastFrame, .posted j.report] } := by
  rw [conclude_eq s he how]
  simp [post, apply, note, ho, Job.report]

theorem endings_queue {s : Stage} {jobs : List Job} (ho : s.isOpen = true) (he : ∀ j ∈ jobs, j.ended = false) :
    (s.endings jobs).isOpen = true ∧ (s.endings jobs).queue = s.queue ++ jobs.map Job.report := by
  induction jobs generalizing s with
  | nil => exact ⟨ho, (List.append_nil _).symm⟩
  | cons j jobs ih =>
    have hj := conclude_posts ho (he j List.mem_cons_self) .drop
    have hrest := ih (s := s.conclude j .drop) (by rw [hj]; exact ho) fun i hi => he i (List.mem_cons_of_mem j hi)
    refine ⟨hrest.1, hrest.2.trans ?_⟩
    rw [hj, List.map_cons, List.append_assoc, List.singleton_append]

theorem frameAll_eq (s : Stage) (fraction : Float32) :
    s.frameAll fraction =
      { s with journal := s.journal ++ s.jobs.map fun j => .applied (j.fade.frame fraction) } := by
  have hframes : ∀ (jobs : List Job) (s : Stage), jobs.foldl (fun s j => s.frame j fraction) s =
      { s with journal := s.journal ++ jobs.map fun j => .applied (j.fade.frame fraction) } := by
    intro jobs
    induction jobs with
    | nil => simp
    | cons j jobs ih =>
      intro s
      rw [List.foldl_cons, ih]
      simp [frame, apply, note]
  exact hframes s.jobs s

/-- One call: as many of the oldest jobs end as it counts. -/
theorem Ready.answer {s : Stage} (hs : s.Ready) (c : PoolCall) :
    (s.answer c).1 = c.ends s.jobs.length ∧ s.Passes (s.answer c).2 (s.answer c).1 c.executed := by
  obtain ⟨ho, he⟩ := hs
  cases c with
  | execute id token fade =>
    exact ⟨rfl, ho, by simp [Stage.answer, enter], by simp [Stage.answer, enter, PoolCall.executed]⟩
  | step fraction =>
    refine ⟨rfl, ?_⟩
    simp only [Stage.answer, frameAll_eq]
    exact ⟨ho, by simp, by simp [PoolCall.executed]⟩
  | finishOldest =>
    obtain ⟨isOpen, queue, jobs, journal⟩ := s
    cases jobs with
    | nil => exact ⟨rfl, ho, by simp [Stage.answer, finishOldest, concludeAt], rfl⟩
    | cons j jobs =>
      have hj := conclude_posts (s := { isOpen, queue, jobs := [], journal }) ho (he j List.mem_cons_self) .drop
      have hend := finishOldest_cons { isOpen, queue, jobs := j :: jobs, journal } j jobs
      rw [hj] at hend
      refine ⟨by simp [Stage.answer, finishOldest, PoolCall.ends], ?_⟩
      have hone : (Stage.answer { isOpen, queue, jobs := j :: jobs, journal } .finishOldest).1 = 1 := rfl
      rw [hone]
      simp only [Stage.answer, hend]
      exact ⟨ho, by simp, by simp [PoolCall.executed]⟩
  | concludeAll how =>
    have hends := endings_queue (s := { s with jobs := [] }) ho he
    refine ⟨rfl, ?_⟩
    simp only [Stage.answer]
    rw [concludeAll_eq]
    refine ⟨hends.1, ?_, ?_⟩
    · exact hends.2.trans (by simp [concludeAll])
    · rw [endings_jobs]
      simp [concludeAll, PoolCall.executed]

theorem Ready.next {s : Stage} (hs : s.Ready) (c : PoolCall) : (s.answer c).2.Ready := by
  obtain ⟨_, hpasses⟩ := hs.answer c
  refine ⟨hpasses.isOpen, fun j hj => ?_⟩
  rw [hpasses.jobs] at hj
  rcases List.mem_append.mp hj with hold | hnew
  · exact hs.running j (List.mem_of_mem_drop hold)
  · cases c with
    | execute => rw [List.mem_singleton.mp hnew]
    | step | finishOldest | concludeAll => cases hnew

/-- Over all calls: the jobs that have ended, in the order of their reports, and those that wait are the jobs that were
there and those that came in, in the order of their coming. -/
theorem Ready.serve {s : Stage} (hs : s.Ready) (calls : List PoolCall) :
    (s.serve calls).Ready ∧ ∃ ended : List Job, (s.serve calls).queue = s.queue ++ ended.map Job.report ∧
      ended ++ (s.serve calls).jobs = s.jobs ++ calls.flatMap PoolCall.executed := by
  induction calls generalizing s with
  | nil => exact ⟨hs, [], (List.append_nil _).symm, (List.append_nil _).symm⟩
  | cons c calls ih =>
    obtain ⟨_, hpasses⟩ := hs.answer c
    obtain ⟨hready, ended, hqueue, hjobs⟩ := ih (hs.next c)
    refine ⟨hready, s.jobs.take (s.answer c).1 ++ ended, ?_, ?_⟩
    · rw [List.map_append, ← List.append_assoc, ← hpasses.queue]
      exact hqueue
    · calc
        s.jobs.take (s.answer c).1 ++ ended ++ (s.serve (c :: calls)).jobs
        _ = s.jobs.take (s.answer c).1 ++ (ended ++ ((s.answer c).2.serve calls).jobs) := List.append_assoc ..
        _ = s.jobs.take (s.answer c).1 ++ (s.jobs.drop (s.answer c).1 ++ c.executed ++
              calls.flatMap PoolCall.executed) := by rw [hjobs, hpasses.jobs]
        _ = s.jobs ++ (c :: calls).flatMap PoolCall.executed := by
          rw [List.append_assoc, ← List.append_assoc, List.take_append_drop, List.flatMap_cons]

end Stage

/-! ## One job under any executor -/

/-- What can come over the stage of a pool: an executor does something to one of its jobs, or anything else happens,
by which jobs may come into the pool and entries into the journal. -/
inductive Turn where
  | act (a : Act)
  | meanwhile (isOpen : Bool) (queue : List Message) (entered : List Job) (noted : List Entry)

namespace Turn

/-- The turn is a call of the job at `place`. -/
def isFor (place : Nat) : Turn → Bool
  | .act (.frame index _) | .act (.conclude index _) => index = place
  | .meanwhile _ _ _ _ => false

/-- The frame that a turn gives to the job at `place`. -/
def fraction? (place : Nat) : Turn → Option Float32
  | .act (.frame index fraction) => if index = place then some fraction else none
  | .act (.conclude _ _) | .meanwhile _ _ _ _ => none

/-- Where the job at `place` is after a turn; nowhere if the turn ends it. -/
def next (place : Nat) : Turn → Option Nat
  | .act (.conclude index _) =>
    if index = place then none else some (if index < place then place - 1 else place)
  | .act (.frame _ _) | .meanwhile _ _ _ _ => some place

/-- Where the job at `place` is after turns, none of which ends it. -/
def placeAfter (place : Nat) : List Turn → Option Nat
  | [] => some place
  | t :: turns =>
    match t.next place with
    | some place => placeAfter place turns
    | none => none

/-- The frames that turns give to the job at `place`. -/
def fractions (place : Nat) : List Turn → List Float32
  | [] => []
  | t :: turns =>
    (t.fraction? place).toList ++
      match t.next place with
      | some place => fractions place turns
      | none => []

end Turn

namespace Stage

def turn (s : Stage) : Turn → Stage
  | .act a => s.perform a
  | .meanwhile isOpen queue entered noted =>
    { isOpen, queue, jobs := s.jobs ++ entered, journal := s.journal ++ noted }

/-- What a turn adds to the journal if it is a call of the job at `place`. -/
def own (s : Stage) (place : Nat) (t : Turn) : List Entry :=
  if t.isFor place then (s.turn t).journal.drop s.journal.length else []

/-- What the calls of the job at `place` add to the journal. -/
def story (s : Stage) (place : Nat) : List Turn → List Entry
  | [] => []
  | t :: turns =>
    s.own place t ++
      match t.next place with
      | some place => (s.turn t).story place turns
      | none => []

variable {s : Stage} {place place' : Nat} {j : Job}

theorem turn_keeps {t : Turn} (hj : s.jobs[place]? = some j) (ht : t.next place = some place') :
    (s.turn t).jobs[place']? = some j := by
  obtain ⟨hlt, _⟩ := List.getElem?_eq_some_iff.mp hj
  cases t with
  | meanwhile isOpen queue entered noted =>
    cases ht
    exact (List.getElem?_append_left hlt).trans hj
  | act a =>
    cases a with
    | frame index fraction =>
      cases ht
      simp only [turn, perform]
      cases s.jobs[index]? with
      | none => exact hj
      | some i => exact hj
    | conclude index how =>
      simp only [Turn.next] at ht
      split at ht
      · cases ht
      · rename_i hne
        simp only [turn, perform, concludeAt]
        cases hi : s.jobs[index]? with
        | none =>
          rw [List.getElem?_eq_none_iff] at hi
          rw [if_neg (by omega)] at ht
          exact Option.some.inj ht ▸ hj
        | some i =>
          show ((({ s with jobs := s.jobs.eraseIdx index } : Stage).conclude i how).jobs)[place']? = some j
          rw [conclude_jobs, List.getElem?_eraseIdx]
          -- a job in front that ends lets this one move up
          split at ht
          · obtain rfl := Option.some.inj ht
            rw [if_neg (by omega), Nat.sub_add_cancel (by omega)]
            exact hj
          · obtain rfl := Option.some.inj ht
            rw [if_pos (by omega)]
            exact hj

theorem own_frame {t : Turn} (hj : s.jobs[place]? = some j) (ht : t.next place = some place') :
    s.own place t = (t.fraction? place).toList.map fun fraction => .applied (j.fade.frame fraction) := by
  cases t with
  | meanwhile => rfl
  | act a =>
    cases a with
    | frame index fraction =>
      by_cases hi : index = place
      · subst hi
        simp [own, Turn.isFor, Turn.fraction?, turn, perform, hj, frame, apply, note]
      · simp [own, Turn.isFor, Turn.fraction?, hi]
    | conclude index how =>
      have hne : index ≠ place := by
        rintro rfl
        simp [Turn.next] at ht
      simp [own, Turn.isFor, Turn.fraction?, hne]

/-- As long as no turn ends a job, it stays in the pool and writes one alpha for each of its frames. -/
theorem story_frames {turns : List Turn} (hj : s.jobs[place]? = some j)
    (hp : Turn.placeAfter place turns = some place') :
    (turns.foldl turn s).jobs[place']? = some j ∧
      ∀ last, s.story place (turns ++ [last]) =
        ((Turn.fractions place turns).map fun fraction => .applied (j.fade.frame fraction)) ++
          (turns.foldl turn s).own place' last := by
  induction turns generalizing s place with
  | nil =>
    obtain rfl := Option.some.inj hp
    refine ⟨hj, fun last => ?_⟩
    simp only [List.nil_append, story, Turn.fractions, List.map_nil, List.foldl_nil]
    cases last.next place <;> exact List.append_nil _
  | cons t turns ih =>
    cases ht : t.next place with
    | none =>
      simp only [Turn.placeAfter, ht] at hp
      cases hp
    | some next =>
      simp only [Turn.placeAfter, ht] at hp
      obtain ⟨hstays, hstory⟩ := ih (turn_keeps hj ht) hp
      refine ⟨hstays, fun last => ?_⟩
      simp only [List.cons_append, story, Turn.fractions, ht, List.map_append, List.foldl_cons]
      rw [own_frame hj ht, hstory last, List.append_assoc]

/-- However a job ends, it writes its end value once and reports once; the report is lost if nobody takes messages. -/
theorem own_end (hj : s.jobs[place]? = some j) (he : j.ended = false) (how : Ending) :
    s.own place (.act (.conclude place how)) =
      .applied j.fade.lastFrame :: if s.isOpen then [.posted j.report] else [] := by
  have hend : s.turn (.act (.conclude place how)) =
      (({ s with jobs := s.jobs.eraseIdx place } : Stage).apply j.fade.lastFrame).post j.report := by
    simp only [turn, perform, concludeAt, hj]
    exact conclude_eq _ he how
  rw [own, hend]
  cases s.isOpen <;> simp [Turn.isFor, post, apply, note]

/-- The jobs of an executor that keeps them until they are ended from outside: after any calls, what is posted to the
queue are the reports of the jobs that have ended, and these jobs with those that wait behind them are the jobs that
were executed, in this order. A call that returns a count ends as many of the oldest jobs as it says, and these are
one if there is any, or all.

A job under an executor of any kind, with whatever else comes over the stage between its calls: each of its frames
applies one alpha to its surface alone. However it ends at last, it applies its end alpha once, behind all frames, and
posts one report; if nobody takes messages any more, only the report is lost. -/
theorem jobs_conserved :
    (∀ (queue : List Message) (journal : List Entry) (calls : List PoolCall),
      let s := ({ queue, journal } : Stage).serve calls
      (∃ ended : List Job, s.queue = queue ++ ended.map Job.report ∧
        ended ++ s.jobs = calls.flatMap PoolCall.executed) ∧
      ∀ c, (s.answer c).1 = c.ends s.jobs.length ∧ s.Passes (s.answer c).2 (s.answer c).1 c.executed) ∧
    ∀ (s : Stage) (place : Nat) (j : Job) (turns : List Turn) (place' : Nat) (how : Ending),
      s.jobs[place]? = some j → j.ended = false → Turn.placeAfter place turns = some place' →
        s.story place (turns ++ [.act (.conclude place' how)]) =
          ((Turn.fractions place turns).map fun fraction =>
            .applied [⟨j.fade.surface, .alpha (j.fade.alphaAt fraction)⟩]) ++
          .applied [⟨j.fade.surface, .alpha j.fade.target⟩] ::
            if (turns.foldl turn s).isOpen then [.posted (.fadeDone j.token j.id)] else [] := by
  constructor
  · intro queue journal calls s
    have hempty : ({ queue, journal } : Stage).Ready := ⟨rfl, by simp⟩
    obtain ⟨hready, hserved⟩ := hempty.serve calls
    exact ⟨hserved, hready.answer⟩
  · intro s place j turns place' how hj he hp
    obtain ⟨hstays, hstory⟩ := story_frames hj hp
    rw [hstory, own_end hstays he how]
    rfl

/-- Of two jobs the first one gets a frame and ends, so that the other one moves up; that one gets a frame too, the
shell goes, and its executor drops it. -/
theorem jobs_conserved_dropped_late :
    let fade := Fade.standard ⟨4⟩ false 500
    let s : Stage := ({} : Stage).serve [.execute ⟨0⟩ ⟨1⟩ fade, .execute ⟨1⟩ ⟨2⟩ fade]
    let turns : List Turn :=
      [.act (.frame 1 0.5), .act (.conclude 0 .cancel), .meanwhile false [] [] [], .act (.frame 0 1.5)]
    s.jobs[1]? = some ⟨⟨1⟩, ⟨2⟩, fade, false⟩ ∧ Turn.placeAfter 1 turns = some 0 ∧
      s.story 1 (turns ++ [.act (.conclude 0 .drop)]) =
        [.applied [⟨⟨4⟩, .alpha (fade.alphaAt 0.5)⟩], .applied [⟨⟨4⟩, .alpha (fade.alphaAt 1.5)⟩],
          .applied [⟨⟨4⟩, .alpha 0.0⟩]] ∧
      (s.serve [.finishOldest]).queue = [.fadeDone ⟨1⟩ ⟨0⟩] := by
  intro fade s turns
  have hstory := jobs_conserved.2 s 1 ⟨⟨1⟩, ⟨2⟩, fade, false⟩ turns 0 .drop rfl rfl rfl
  exact ⟨rfl, rfl, hstory, rfl⟩

end Stage

end WindowTransitions
