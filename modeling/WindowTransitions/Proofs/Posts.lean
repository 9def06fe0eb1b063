import WindowTransitions.Proofs.Deliveries
import WindowTransitions.Proofs.Endings

/-! What the operations post. Main statement: whatever the shell is like, an operation takes nothing from the queue and
posts behind it ends of default animations, which come from jobs, and what handlers post while they are called, and
nothing else; an operation that calls no handler and starts no job posts nothing at all. -/

set_option autoImplicit false

namespace WindowTransitions

/-- All that handlers post while they are called is `p`. -/
def Handler.Posts (η : Type) [Handler η] (p : Message → Prop) : Prop :=
  ∀ h : η, (∀ kind token trigger, ∀ m ∈ (Handler.request h kind token trigger).posted, p m) ∧
    ∀ ticket batch start, ∀ m ∈ (Handler.offer h ticket batch start).posted, p m

theorem Handler.posts_true (η : Type) [Handler η] : Handler.Posts η fun _ => True :=
  fun _ => ⟨fun _ _ _ _ _ => trivial, fun _ _ _ _ _ => trivial⟩

namespace Stage

/-! ## Posts from one stage to another -/

/-- From `s` to `s'` messages that are `p` are posted, and none is taken from the queue. -/
def Gains (p : Message → Prop) (s s' : Stage) : Prop :=
  ∃ more, s'.journal = s.journal ++ more ∧ s'.queue = s.queue ++ more.filterMap Entry.posted? ∧
    (∀ m, .received m ∉ more) ∧ ∀ m, .posted m ∈ more → p m

variable {p : Message → Prop} {s s' s'' : Stage}

theorem Gains.of_eq (hj : s'.journal = s.journal) (hq : s'.queue = s.queue) : Gains p s s' :=
  ⟨[], by simp [hj], by simp [hq], by simp, by simp⟩

theorem Gains.refl (s : Stage) : Gains p s s := .of_eq rfl rfl

theorem Gains.trans (h : Gains p s s') (h' : Gains p s' s'') : Gains p s s'' := by
  obtain ⟨more, hj, hq, hr, hp⟩ := h
  obtain ⟨more', hj', hq', hr', hp'⟩ := h'
  refine ⟨more ++ more', ?_, ?_, fun m hm => ?_, fun m hm => ?_⟩
  · rw [hj', hj, List.append_assoc]
  · rw [hq', hq, List.filterMap_append, List.append_assoc]
  · exact (List.mem_append.mp hm).elim (hr m) (hr' m)
  · exact (List.mem_append.mp hm).elim (hp m) (hp' m)

theorem Gains.foldl {β : Type} {f : Stage → β → Stage} {bs : List β} (h : ∀ s, ∀ b ∈ bs, Gains p s (f s b))
    (s : Stage) : Gains p s (bs.foldl f s) := by
  induction bs generalizing s with
  | nil => exact .refl s
  | cons b bs ih =>
    exact (h s b List.mem_cons_self).trans (ih (fun s b hb => h s b (List.mem_cons_of_mem _ hb)) (f s b))

/-- What is in the queue afterwards, and no more, was there or is `p`. -/
theorem Gains.queue (h : Gains p s s') : ∃ posted, s'.queue = s.queue ++ posted ∧ ∀ m ∈ posted, p m := by
  obtain ⟨more, _, hq, _, hp⟩ := h
  refine ⟨_, hq, fun m hm => ?_⟩
  obtain ⟨e, he, hm⟩ := List.mem_filterMap.mp hm
  exact hp m (Entry.posted?_eq_some hm ▸ he)

/-- An entry that neither posts nor takes a message. -/
theorem gains_note (s : Stage) {e : Entry} (hp : ∀ m, e ≠ .posted m) (hr : ∀ m, e ≠ .received m) :
    Gains p s (s.note e) := by
  refine ⟨[e], rfl, ?_, fun m hm => hr m (List.mem_singleton.mp hm).symm,
    fun m hm => absurd (List.mem_singleton.mp hm).symm (hp m)⟩
  cases h : e.posted? with
  | none => simp [h, note]
  | some m => exact absurd (Entry.posted?_eq_some h) (hp m)

theorem gains_apply (s : Stage) (t : Transaction) : Gains p s (s.apply t) := s.gains_note (by simp) (by simp)

theorem gains_post (s : Stage) {m : Message} (hm : p m) : Gains p s (s.post m) := by
  unfold post
  split
  · exact ⟨[.posted m], rfl, rfl, by simp, by simpa using hm⟩
  · exact .refl s

/-! ## Jobs -/

section Jobs
variable (hfade : ∀ token a, p (.fadeDone token a))
include hfade

theorem gains_complete (s : Stage) (j : Job) : Gains p s (s.complete j).1 := by
  unfold complete
  split
  · exact .refl s
  · exact (s.gains_apply _).trans (gains_post _ (hfade j.token j.id))

theorem gains_conclude (s : Stage) (j : Job) (how : Ending) : Gains p s (s.conclude j how) := by
  cases how with
  | finish | cancel => exact (gains_complete hfade s j).trans (gains_complete hfade _ _)
  | drop => exact gains_complete hfade s j

theorem gains_perform (s : Stage) (a : Act) : Gains p s (s.perform a) := by
  cases a with
  | frame index fraction =>
    simp only [perform]
    split
    · exact s.gains_apply _
    · exact .refl s
  | conclude index how =>
    simp only [perform, concludeAt]
    split
    · exact gains_conclude hfade { s with jobs := s.jobs.eraseIdx index } _ how
    · exact .refl s

end Jobs

end Stage

namespace Shell

variable {η α ε : Type} {p : Message → Prop} (w : Shell η α ε)

theorem gains_visits {visits : List Visit}
    (h : ∀ v ∈ visits, (∀ m, v.call ≠ .posted m) ∧ (∀ m, v.call ≠ .received m) ∧ ∀ m ∈ v.posted, p m) :
    w.stage.Gains p (visits.foldl visited w).stage := by
  induction visits generalizing w with
  | nil => exact .refl w.stage
  | cons v visits ih =>
    obtain ⟨hp, hr, hv⟩ := h v List.mem_cons_self
    have hposts : (w.stage.note v.call).Gains p (w.visited v).stage :=
      Stage.Gains.foldl (fun s m hm => s.gains_post (hv m hm)) _
    exact ((w.stage.gains_note hp hr).trans hposts).trans
      (ih (w.visited v) fun u hu => h u (List.mem_cons_of_mem v hu))

theorem gains_launches [Executor ε] (hfade : ∀ token a, p (.fadeDone token a)) (jobs : List Job) :
    w.stage.Gains p (jobs.foldl launch w).stage := by
  induction jobs generalizing w with
  | nil => exact .refl w.stage
  | cons j jobs ih =>
    have hacts : (w.stage.enter j).Gains p (w.launch j).stage :=
      Stage.Gains.foldl (fun s a _ => s.gains_perform hfade a) _
    have henter : w.stage.Gains p (w.stage.enter j) := .of_eq rfl rfl
    exact (henter.trans hacts).trans (ih (w.launch j))

section Calls
variable [Handler η] (honest : Handler.Posts η p)
include honest

theorem gains_asked (kind : Kind) (token : Token) (trigger : Option Trigger) :
    w.stage.Gains p (w.asked kind token trigger).stage := by
  refine gains_visits { w with handlers := (w.handlers.negotiate kind token trigger).handlers } fun v hv => ?_
  obtain ⟨h, _, _, rfl⟩ := w.handlers.negotiate_visits kind token trigger v hv
  exact ⟨by simp, by simp, (honest h).1 kind token trigger⟩

theorem gains_offers (token : Token) (r : Record) (batch : Batch) (start : Transaction) :
    w.stage.Gains p
      (w.withVisits (w.offers token r batch start).handlers (w.offers token r batch start).visits).stage := by
  have hd := Registry.dispatch_sound token r.generation batch r.assigned w.handlers (start ++ batch.startState)
  refine gains_visits { w with handlers := (w.offers token r batch start).handlers } fun v hv => ?_
  obtain ⟨h, _, _, _, rfl⟩ := hd.visits v hv
  exact ⟨by simp, by simp, (honest h).2 _ batch _⟩

end Calls

end Shell

/-! ## Operations -/

namespace Control

variable {η α ε β γ : Type} {p : Message → Prop}

/-- Whatever the shell is like, the operation takes no message from the queue, and what it posts is `p`. -/
def Posts (p : Message → Prop) (c : Control η α ε β) : Prop :=
  ∀ w : Shell η α ε, w.stage.Gains p (c.perform w).2.stage

theorem posts_pure (b : β) : Posts p (pure b : Control η α ε β) := fun w => .refl w.stage

theorem posts_throw (f : Fault) : Posts p (throw f : Control η α ε β) := fun w => .refl w.stage

theorem posts_modify {g : Shell η α ε → Shell η α ε} (h : ∀ w : Shell η α ε, w.stage.Gains p (g w).stage) :
    Posts p (modify g : Control η α ε PUnit) := h

theorem posts_bind {c : Control η α ε β} {f : β → Control η α ε γ} (hc : Posts p c) (hf : ∀ b, Posts p (f b)) :
    Posts p (c >>= f) := by
  intro w
  have hfirst := hc w
  simp only [perform, EStateM.run_bind] at hfirst ⊢
  cases hr : c.run w with
  | ok b v =>
    rw [hr] at hfirst
    exact hfirst.trans (hf b v)
  | error fault v =>
    rw [hr] at hfirst
    exact hfirst

theorem posts_ite {q : Prop} [Decidable q] {c d : Control η α ε β} (hc : Posts p c) (hd : Posts p d) :
    Posts p (if q then c else d) := by
  split
  · exact hc
  · exact hd

/-- The shell is read. -/
theorem posts_get {f : Shell η α ε → Control η α ε β} (hf : ∀ w, Posts p (f w)) :
    Posts p (do
      let w ← get
      f w) :=
  fun w => hf w w

/-- The shell is read, and what becomes of it takes its place. -/
theorem posts_get_set {g : Shell η α ε → Shell η α ε} {f : Shell η α ε → Control η α ε β}
    (hg : ∀ w : Shell η α ε, w.stage.Gains p (g w).stage) (hf : ∀ w, Posts p (f w)) :
    Posts p (do
      let w ← get
      set (g w)
      f w) :=
  fun w => (hg w).trans (hf w (g w))

theorem posts_expect (token : Token) : Posts p (expect token : Control η α ε Record) := by
  refine posts_get fun w => ?_
  split
  · exact posts_pure _
  · exact posts_throw _

theorem posts_put (token : Token) (r : Record) : Posts p (put token r : Control η α ε Unit) :=
  posts_modify fun w => .refl w.stage

theorem posts_report (e : Event) : Posts p (modify (·.report e) : Control η α ε PUnit) :=
  posts_modify fun w => w.stage.gains_note (by simp) (by simp)

theorem posts_apply (t : Transaction) : Posts p (modify (·.apply t) : Control η α ε PUnit) :=
  posts_modify fun w => w.stage.gains_apply t

theorem posts_advance (token : Token) (target : Phase) : Posts p (advance token target : Control η α ε Unit) := by
  refine posts_bind (posts_expect token) fun r => ?_
  have htail : Posts p (do
      put token { r with phase := target }
      modify (·.report (.phaseChanged token r.phase target)) : Control η α ε Unit) :=
    posts_bind (posts_put token _) fun _ => posts_report _
  exact posts_ite (posts_bind (posts_throw _) fun _ => htail) htail

section Finish
variable [Authority α]

theorem posts_finish (token : Token) : Posts p (finish token : Control η α ε Unit) := by
  refine posts_bind (posts_expect token) fun r => ?_
  refine posts_ite (posts_pure _) (posts_ite (posts_pure _) ?_)
  refine posts_bind (posts_advance token .finished) fun _ => ?_
  refine posts_bind (posts_modify fun w => .refl w.stage) fun _ => ?_
  refine posts_bind (posts_report _) fun _ => ?_
  exact posts_modify fun w => w.stage.gains_note (by simp) (by simp)

theorem posts_handlerDone (ticket : Ticket) : Posts p (handlerDone ticket : Control η α ε Unit) := by
  refine posts_get fun w => ?_
  split
  · exact posts_ite (posts_finish _) (posts_pure _)
  · exact posts_pure _

theorem posts_fadeDone (token : Token) (a : AnimationId) : Posts p (fadeDone token a : Control η α ε Unit) := by
  refine posts_bind (posts_expect token) fun r => ?_
  split
  · exact posts_pure _
  · exact posts_bind (posts_put token _) fun _ => posts_finish token

end Finish

section Starts
variable [Authority α]

/-- A start after calls of handlers. -/
theorem gains_of_start {w v u : Shell η α ε} {kind : Kind} {placeholder : Option Token}
    {containers : Option Container.Transaction} {assigned : Option HandlerId} {c : Control η α ε Token}
    (hv : w.stage.Gains p v.stage) (h : StartOutcome v kind placeholder containers assigned (c.run u)) :
    w.stage.Gains p (c.perform u).2.stage := by
  have hcalled : w.stage.Gains p (v.called kind placeholder containers).stage :=
    hv.trans (v.stage.gains_note (by simp) (by simp))
  generalize hr : c.run u = result at h
  cases h with
  | refused =>
    rw [perform_of_error hr]
    exact hcalled
  | entered =>
    rw [perform_of_ok hr]
    exact hcalled.trans (Stage.gains_note _ (by simp) (by simp))

theorem posts_request [Handler η] (honest : Handler.Posts η p) (kind : Kind) (placeholder : Token)
    (trigger : Option Trigger) : Posts p (request kind placeholder trigger : Control η α ε Token) := by
  intro w
  rcases request_outcome w kind placeholder trigger with ⟨_, h⟩ | ⟨_, h⟩
  · rw [perform_of_error h]
    exact .refl w.stage
  · refine gains_of_start (w.gains_asked honest kind placeholder trigger) h

theorem posts_start (kind : Kind) (containers : Container.Transaction) (handler : Option HandlerId) :
    Posts p (start kind containers handler : Control η α ε Token) := by
  intro w
  rcases start_outcome w kind containers handler with ⟨_, _, _, h⟩ | ⟨_, h⟩
  · rw [perform_of_error h]
    exact .refl w.stage
  · exact gains_of_start (.refl w.stage) h

end Starts

theorem posts_settleOwner (token : Token) (owner : HandlerId) (start : Transaction) :
    Posts p (settleOwner token owner start : Control η α ε Unit) := by
  have htail : Posts p (do
      let r ← expect token
      put token { r with owner := some owner }
      modify (·.report (.dispatched token (some owner) 0))
      advance token .animating : Control η α ε Unit) :=
    posts_bind (posts_expect token) fun r => posts_bind (posts_put token _) fun _ =>
      posts_bind (posts_report _) fun _ => posts_advance token .animating
  exact posts_ite (posts_bind (posts_apply start) fun _ => htail) htail

theorem posts_settleFades [Executor ε] (hfade : ∀ token a, p (.fadeDone token a)) (token : Token) (batch : Batch)
    (start : Transaction) : Posts p (settleFades token batch start : Control η α ε Unit) := by
  refine posts_bind (posts_apply start) fun _ => posts_get_set (fun w => .refl w.stage) fun w => ?_
  refine posts_bind (posts_expect token) fun r => posts_bind (posts_put token _) fun _ => ?_
  refine posts_bind (posts_report _) fun _ => posts_bind (posts_advance token .animating) fun _ => ?_
  exact posts_modify fun w => w.gains_launches hfade _

section Messages
variable [Handler η] [Authority α] [Executor ε]

/-- The report of an end makes nobody post anything. -/
theorem posts_completion {m : Message} (hm : m.isCompletion = true) : Posts p (process m : Control η α ε Bool) := by
  cases m with
  | handlerDone ticket => exact posts_bind (posts_handlerDone ticket) fun _ => posts_pure true
  | fadeDone token a => exact posts_bind (posts_fadeDone token a) fun _ => posts_pure true
  | ready | request | shutdown => cases hm

variable (honest : Handler.Posts η p) (hfade : ∀ token a, p (.fadeDone token a))
include honest hfade

theorem posts_offers (token : Token) (r : Record) (batch : Batch) (start : Transaction) :
    Posts p (do
      let w ← get
      let d := w.handlers.dispatch r.assigned token r.generation batch (start ++ batch.startState)
      set (w.withVisits d.handlers d.visits)
      match d.owner with
      | some owner => settleOwner token owner d.start
      | none =>
        settleFades token batch d.start
        finish token : Control η α ε Unit) := by
  refine posts_get_set (fun w => w.gains_offers honest token r batch start) fun w => ?_
  split
  · exact posts_settleOwner token _ _
  · exact posts_bind (posts_settleFades hfade token batch _) fun _ => posts_finish token

theorem posts_ready (token : Token) (batch : Batch) (start : Transaction) :
    Posts p (ready token batch start : Control η α ε Unit) := by
  refine posts_bind (posts_expect token) fun r => ?_
  have htail : Posts p (do
      advance token .dispatching
      if !batch.hasRoot then
        modify (·.apply start)
        finish token
      else
        let w ← get
        let d := w.handlers.dispatch r.assigned token r.generation batch (start ++ batch.startState)
        set (w.withVisits d.handlers d.visits)
        match d.owner with
        | some owner => settleOwner token owner d.start
        | none =>
          settleFades token batch d.start
          finish token : Control η α ε Unit) := by
    refine posts_bind (posts_advance token .dispatching) fun _ => ?_
    exact posts_ite (posts_bind (posts_apply start) fun _ => posts_finish token)
      (posts_offers honest hfade token r batch start)
  exact posts_ite (posts_bind (posts_throw _) fun _ => htail) htail

theorem posts_process (m : Message) : Posts p (process m : Control η α ε Bool) := by
  cases m with
  | ready token batch start => exact posts_bind (posts_ready honest hfade token batch start) fun _ => posts_pure true
  | request kind token trigger => exact posts_bind (posts_request honest kind token trigger) fun _ => posts_pure true
  | handlerDone ticket => exact posts_bind (posts_handlerDone ticket) fun _ => posts_pure true
  | fadeDone token a => exact posts_bind (posts_fadeDone token a) fun _ => posts_pure true
  | shutdown => exact posts_pure false

end Messages

end Control

end WindowTransitions
