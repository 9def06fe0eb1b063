import WindowTransitions.Proofs.States

/-! Ends of default animations that are due: each job that has not ended will report its end, and each report in the
queue will be taken from it. Main statement: whatever is done to jobs while messages are taken, what is due stays the
same, a report taking the place of its job; only new jobs, and reports from elsewhere, add to it. -/

set_option autoImplicit false

namespace WindowTransitions

/-- The end that a job has still to report. -/
def Job.dues (j : Job) : List (Token × AnimationId) := if j.ended then [] else [(j.token, j.id)]

/-- The end of a default animation that a message reports. -/
def Message.fadeDone? : Message → Option (Token × AnimationId)
  | .fadeDone token a => some (token, a)
  | _ => none

namespace Stage

/-- The ends of default animations that jobs have to report and that reports wait for. -/
def dues (s : Stage) : List (Token × AnimationId) := s.jobs.flatMap Job.dues ++ s.queue.filterMap Message.fadeDone?

/-- While messages are taken, `more` is what `s'` owes beyond the dues of `s`. -/
def Owes (s s' : Stage) (more : List (Token × AnimationId)) : Prop :=
  s.isOpen = true → s'.isOpen = true ∧ s'.dues.Perm (s.dues ++ more)

variable {s s' s'' : Stage} {more more' : List (Token × AnimationId)}

theorem Owes.of_eq (hj : s'.jobs = s.jobs) (hq : s'.queue = s.queue) (ho : s'.isOpen = s.isOpen) : Owes s s' [] := by
  intro h
  refine ⟨ho.trans h, ?_⟩
  rw [dues, hj, hq, List.append_nil]
  exact .refl _

theorem Owes.refl (s : Stage) : Owes s s [] := .of_eq rfl rfl rfl

theorem Owes.trans (h : Owes s s' more) (h' : Owes s' s'' more') : Owes s s'' (more ++ more') := by
  intro ho
  obtain ⟨ho', hp⟩ := h ho
  obtain ⟨ho'', hp'⟩ := h' ho'
  refine ⟨ho'', ?_⟩
  rw [← List.append_assoc]
  exact hp'.trans (hp.append_right more')

/-- A change that leaves alone what is due. -/
theorem Owes.quietly (h : Owes s s' more) (h' : Owes s' s'' []) : Owes s s'' more := by simpa using h.trans h'

theorem Owes.foldl {β : Type} {f : Stage → β → Stage} {bs : List β} (h : ∀ s, ∀ b ∈ bs, Owes s (f s b) [])
    (s : Stage) : Owes s (bs.foldl f s) [] := by
  induction bs generalizing s with
  | nil => exact .refl s
  | cons b bs ih =>
    exact (h s b List.mem_cons_self).trans (ih (fun s b hb => h s b (List.mem_cons_of_mem _ hb)) (f s b))

/-! ## Posts -/

theorem owes_note (s : Stage) (e : Entry) : Owes s (s.note e) [] := .of_eq rfl rfl rfl

theorem owes_apply (s : Stage) (t : Transaction) : Owes s (s.apply t) [] := s.owes_note _

theorem owes_post (s : Stage) (m : Message) : Owes s (s.post m) m.fadeDone?.toList := by
  intro ho
  have hs : s.post m = { s with queue := s.queue ++ [m] }.note (.posted m) := if_pos ho
  refine ⟨by rw [hs]; exact ho, ?_⟩
  have hdues : (s.post m).dues = s.dues ++ m.fadeDone?.toList := by
    rw [hs, dues, dues, note, List.filterMap_append, List.append_assoc]
    cases hm : m.fadeDone? <;> simp [hm]
  rw [hdues]

/-! ## Jobs -/

theorem owes_enter (s : Stage) (j : Job) : Owes s (s.enter j) j.dues := by
  intro ho
  refine ⟨ho, ?_⟩
  simp only [dues, enter, List.flatMap_append, List.flatMap_singleton, List.append_assoc]
  exact .append_left _ List.perm_append_comm

theorem owes_complete (s : Stage) (j : Job) : Owes s (s.complete j).1 j.dues ∧ (s.complete j).2.dues = [] := by
  unfold complete Job.dues
  by_cases he : j.ended = true
  · simp only [he, if_true]
    exact ⟨.refl s, trivial⟩
  · rw [if_neg he, if_neg he]
    exact ⟨(s.owes_apply _).trans (owes_post _ (.fadeDone j.token j.id)), rfl⟩

theorem owes_conclude (s : Stage) (j : Job) (how : Ending) : Owes s (s.conclude j how) j.dues := by
  have hfirst := s.owes_complete j
  have hsecond := ((s.complete j).1.owes_complete (s.complete j).2).1
  rw [hfirst.2] at hsecond
  cases how with
  | finish | cancel => exact hfirst.1.quietly hsecond
  | drop => exact hfirst.1

/-- A job that ends has its report in the queue instead. -/
theorem owes_concludeAt (s : Stage) (index : Nat) (how : Ending) : Owes s (s.concludeAt index how) [] := by
  unfold concludeAt
  split
  · rename_i j hj
    obtain ⟨hlt, hget⟩ := List.getElem?_eq_some_iff.mp hj
    intro ho
    obtain ⟨ho', hp⟩ := owes_conclude { s with jobs := s.jobs.eraseIdx index } j how ho
    refine ⟨ho', hp.trans ?_⟩
    have hjobs := (List.getElem_cons_eraseIdx_perm hlt).flatMap_right Job.dues
    rw [hget, List.flatMap_cons] at hjobs
    calc
      (s.jobs.eraseIdx index).flatMap Job.dues ++ s.queue.filterMap Message.fadeDone? ++ j.dues
      _ |>.Perm (j.dues ++ ((s.jobs.eraseIdx index).flatMap Job.dues ++ s.queue.filterMap Message.fadeDone?)) :=
        List.perm_append_comm
      _ |>.Perm (s.dues ++ []) := by
        rw [← List.append_assoc, List.append_nil]
        exact hjobs.append_right _
  · exact .refl s

theorem owes_perform (s : Stage) (a : Act) : Owes s (s.perform a) [] := by
  cases a with
  | frame index fraction =>
    simp only [perform]
    split
    · exact s.owes_apply _
    · exact .refl s
  | conclude index how => exact s.owes_concludeAt index how

end Stage

namespace Shell

variable {η α ε : Type} (w : Shell η α ε)

/-! ## Visits and launches -/

theorem owes_visits {visits : List Visit} (hv : ∀ v ∈ visits, ∀ m ∈ v.posted, m.fadeDone? = none) :
    w.stage.Owes (visits.foldl visited w).stage [] := by
  induction visits generalizing w with
  | nil => exact .refl _
  | cons v visits ih =>
    have hposts : (w.stage.note v.call).Owes (w.visited v).stage [] := by
      refine Stage.Owes.foldl (fun s m hm => ?_) (w.stage.note v.call)
      have hpost := s.owes_post m
      rwa [hv v List.mem_cons_self m hm] at hpost
    exact ((w.stage.owes_note v.call).quietly hposts).quietly
      (ih (w.visited v) fun u hu => hv u (List.mem_cons_of_mem v hu))

theorem owes_launch [Executor ε] (j : Job) : w.stage.Owes (w.launch j).stage j.dues := by
  have hacts : (w.stage.enter j).Owes (w.launch j).stage [] :=
    Stage.Owes.foldl (fun s a _ => s.owes_perform a) (w.stage.enter j)
  exact (w.stage.owes_enter j).quietly hacts

theorem owes_launches [Executor ε] (jobs : List Job) :
    w.stage.Owes (jobs.foldl launch w).stage (jobs.flatMap Job.dues) := by
  induction jobs generalizing w with
  | nil => exact .refl _
  | cons j jobs ih => exact (w.owes_launch j).trans (ih (w.launch j))

end Shell

end WindowTransitions
