import WindowTransitions.Proofs.StartScreen
import WindowTransitions.Proofs.Strokes
import WindowTransitions.Rehearsal.Session

/-! Surfaces that are left to the fades of one transition. Main statement: as long as nobody else draws on them, they
stay as visible as they were at the start, those that do not fade keep their alpha, and each fade is in the pool or
has left its surface at its end value. So it does not matter which frames are drawn and how the fades end. -/

set_option autoImplicit false

namespace WindowTransitions

/-- All that is applied according to a journal, edit by edit. -/
def screen (journal : List Entry) : Transaction := (journal.filterMap Entry.transaction?).flatten

theorem screen_append (journal more : List Entry) : screen (journal ++ more) = screen journal ++ screen more := by
  rw [screen, List.filterMap_append, List.flatten_append, screen, screen]

theorem Rehearsal.Session.merged_eq (s : Session) : s.merged = screen s.shell.stage.journal := by
  unfold merged
  induction s.shell.stage.journal with
  | nil => rfl
  | cons e journal ih =>
    rw [← List.singleton_append, screen_append, List.flatMap_append, ih]
    congr 1
    cases e <;> simp [screen, Entry.transaction?]

theorem Stage.Draws.screen_eq {new : Job → Prop} {s s' : Stage} {strokes : List Stroke}
    (h : s.Draws new s' strokes) :
    screen s'.journal = screen s.journal ++ (strokes.map Stroke.transaction).flatten := by
  have hflat := congrArg List.flatten h.transactions
  rwa [List.flatten_append] at hflat

/-- A stroke by one of the jobs, or one that leaves the surfaces alone. -/
def Stroke.Respects (σ : Stroke) (surfaces : List Surface) (fades : List Job) : Prop :=
  (∃ j ∈ fades, σ.job = some j) ∨ ∀ e ∈ σ.transaction, e.surface ∉ surfaces

instance (σ : Stroke) (surfaces : List Surface) (fades : List Job) : Decidable (σ.Respects surfaces fades) :=
  inferInstanceAs (Decidable ((∃ j ∈ fades, σ.job = some j) ∨ ∀ e ∈ σ.transaction, e.surface ∉ surfaces))

/-- Surfaces, and jobs that fade some of them, one job each. -/
structure Scene where
  surfaces : List Surface
  fades : List Job
  distinct : (fades.map (·.fade.surface)).Nodup
  within : ∀ j ∈ fades, j.fade.surface ∈ surfaces
  running : ∀ j ∈ fades, j.ended = false

namespace Scene

variable {c : Scene} {first shown t : Transaction} {out pool pool' : List Job} {j : Job}

/-- What is shown of a scene that was `first` shown so, when the fades of `out` have been started: their jobs are in
the pool, or their surfaces have the alpha in which they end. -/
structure Shows (c : Scene) (first : Transaction) (out pool : List Job) (shown : Transaction) : Prop where
  visible : ∀ x ∈ c.surfaces, shown.visibilityOf x = first.visibilityOf x
  still : ∀ x ∈ c.surfaces, (∀ j ∈ c.fades, j.fade.surface ≠ x) → shown.alphaOf x = first.alphaOf x
  started : ∀ j ∈ out, j ∈ c.fades
  fading : ∀ j ∈ out, j ∈ pool ∨ shown.alphaOf j.fade.surface = some j.fade.target

/-! ## Single strokes -/

/-- The surfaces are left alone. -/
theorem Shows.untouched (h : c.Shows first out pool shown) (ht : ∀ e ∈ t, e.surface ∉ c.surfaces)
    (hp : ∀ j ∈ out, j ∈ pool → j ∈ pool') : c.Shows first out pool' (shown ++ t) := by
  have hold : ∀ x ∈ c.surfaces, ∀ {β : Type} (pick : Write → Option β),
      Transaction.last (shown ++ t) x pick = shown.last x pick := by
    intro x hx β pick
    have hnone : Transaction.last t x pick = none :=
      Transaction.last_of_untouched (fun e he hs => ht e he (hs ▸ hx)) pick
    rw [Transaction.last_append, hnone, Option.none_or]
  constructor
  case visible => exact fun x hx => (hold x hx _).trans (h.visible x hx)
  case still => exact fun x hx hj => (hold x hx _).trans (h.still x hx hj)
  case started => exact h.started
  case fading =>
    intro j hj
    rcases h.fading j hj with hin | halpha
    · exact .inl (hp j hj hin)
    · exact .inr ((hold _ (c.within j (h.started j hj)) _).trans halpha)

/-- A fade draws, and draws again later if this is not its end value. -/
theorem Shows.drawn {a : Float32} (h : c.Shows first out pool shown) (hj : j ∈ c.fades)
    (hp : ∀ i ∈ out, i ≠ j → i ∈ pool → i ∈ pool') (ha : j ∈ pool' ∨ a = j.fade.target) :
    c.Shows first out pool' (shown ++ [⟨j.fade.surface, .alpha a⟩]) := by
  have hother : ∀ x, x ≠ j.fade.surface →
      Transaction.alphaOf (shown ++ [⟨j.fade.surface, .alpha a⟩]) x = shown.alphaOf x := by
    intro x hx
    have hnone : Transaction.last [⟨j.fade.surface, .alpha a⟩] x Write.alpha? = none :=
      Transaction.last_of_untouched (by simpa using hx.symm) _
    rw [Transaction.alphaOf, Transaction.last_append, hnone, Option.none_or, Transaction.alphaOf]
  have hthis : Transaction.alphaOf (shown ++ [⟨j.fade.surface, .alpha a⟩]) j.fade.surface = some a := by
    rw [Transaction.alphaOf, Transaction.last_append]
    simp [Transaction.last, Write.alpha?]
  constructor
  case visible =>
    intro x hx
    have hnone : Transaction.last [⟨j.fade.surface, .alpha a⟩] x Write.visible? = none := by
      simp [Transaction.last, Write.visible?]
    rw [Transaction.visibilityOf, Transaction.last_append, hnone, Option.none_or]
    exact h.visible x hx
  case still => exact fun x hx hne => (hother x (hne j hj).symm).trans (h.still x hx hne)
  case started => exact h.started
  case fading =>
    intro i hi
    by_cases hij : i = j
    · subst hij
      rw [hthis, Option.some.injEq]
      exact ha
    · have hx : i.fade.surface ≠ j.fade.surface := fun hs =>
        hij (List.inj_on_of_nodup_map c.distinct (h.started i hi) hj hs)
      rw [hother _ hx]
      exact (h.fading i hi).imp_left (hp i hi hij)

/-! ## From stage to stage -/

theorem mem_eraseIdx_of_ne {jobs : List Job} {index : Nat} {i : Job} (hj : jobs[index]? = some j) (hi : i ∈ jobs)
    (hne : i ≠ j) : i ∈ jobs.eraseIdx index := by
  obtain ⟨hlt, rfl⟩ := List.getElem?_eq_some_iff.mp hj
  have hcons := (List.getElem_cons_eraseIdx_perm hlt).mem_iff.mpr hi
  exact (List.mem_cons.mp hcons).resolve_left hne

/-- A stage on which a scene is shown. -/
def ShownOn (c : Scene) (first : Transaction) (out : List Job) (s : Stage) : Prop :=
  c.Shows first out s.jobs (screen s.journal)

variable {new : Job → Prop} {s s' : Stage} {strokes : List Stroke}

/-- Nothing is drawn, and no job of the scene leaves the pool. -/
theorem ShownOn.quiet (h : c.ShownOn first out s) (ht : s'.transactions = s.transactions)
    (hp : ∀ j ∈ out, j ∈ s.jobs → j ∈ s'.jobs) : c.ShownOn first out s' := by
  have hscreen : screen s'.journal = screen s.journal ++ [] :=
    (congrArg List.flatten ht).trans (List.append_nil _).symm
  unfold ShownOn
  rw [hscreen]
  exact h.untouched (by simp) hp

theorem screen_of_transactions (ht : s'.transactions = s.transactions ++ [t]) :
    screen s'.journal = screen s.journal ++ t := by
  have hflat := congrArg List.flatten ht
  rwa [List.flatten_append, List.flatten_singleton] at hflat

/-- As long as nobody else draws on the surfaces, the scene goes on. -/
theorem ShownOn.draws (hd : s.Draws new s' strokes) (hs : ∀ σ ∈ strokes, σ.Respects c.surfaces c.fades)
    (h : c.ShownOn first out s) : c.ShownOn first out s' := by
  induction hd with
  | still hj ht => exact h.quiet ht fun j _ hin => hj ▸ hin
  | ended hm he hj ht =>
    refine h.quiet ht fun i hi hin => hj ▸ mem_eraseIdx_of_ne hm hin ?_
    rintro rfl
    cases he.symm.trans (c.running i (h.started i hi))
  | enter => exact h.quiet rfl fun j _ hin => List.mem_append_left _ hin
  | start hj ht =>
    rcases hs _ List.mem_cons_self with ⟨_, _, hnone⟩ | hapart
    · cases hnone
    · unfold ShownOn
      rw [screen_of_transactions ht, hj]
      exact h.untouched hapart fun _ _ hin => hin
  | frame hm hj ht =>
    unfold ShownOn
    rw [screen_of_transactions ht, hj]
    rcases hs _ List.mem_cons_self with ⟨i, hi, hsome⟩ | hapart
    · obtain rfl := Option.some.inj hsome
      exact h.drawn hi (fun _ _ _ hin => hin) (.inl hm)
    · exact h.untouched hapart fun _ _ hin => hin
  | @last _ _ j _ hm he hj ht =>
    unfold ShownOn
    rw [screen_of_transactions ht, hj]
    rcases hs _ List.mem_cons_self with ⟨i, hi, hsome⟩ | hapart
    · obtain rfl := Option.some.inj hsome
      exact h.drawn hi (fun _ _ hne hin => mem_eraseIdx_of_ne hm hin hne) (.inr rfl)
    · refine h.untouched hapart fun i hi hin => mem_eraseIdx_of_ne hm hin ?_
      -- the surface of a fade of the scene is among those that are left alone
      rintro rfl
      exact hapart ⟨i.fade.surface, .alpha i.fade.target⟩ List.mem_cons_self (c.within i (h.started i hi))
  | trans _ _ ih ih' =>
    refine ih' (fun σ hσ => hs σ (List.mem_append_right _ hσ)) ?_
    exact ih (fun σ hσ => hs σ (List.mem_append_left _ hσ)) h

/-- When its jobs have left the pool, the scene is shown as it ends. -/
theorem ShownOn.ended (h : c.ShownOn first out s) (hp : ∀ j ∈ out, j ∉ s.jobs) :
    c.Shows first out [] (screen s.journal) :=
  ⟨h.visible, h.still, h.started, fun j hj => .inr ((h.fading j hj).resolve_left (hp j hj))⟩

/-! ## Launches -/

section Launches
variable {η α ε : Type} [Executor ε] {w : Shell η α ε}

theorem ShownOn.launch (hj : j ∈ c.fades) (h : c.ShownOn first out w.stage)
    (hs : ∀ σ ∈ w.launchStrokes [j], σ.Respects c.surfaces c.fades) :
    c.ShownOn first (out ++ [j]) (w.launch j).stage := by
  have henter : c.ShownOn first (out ++ [j]) (w.stage.enter j) := by
    constructor
    case visible => exact h.visible
    case still => exact h.still
    case started =>
      intro i hi
      rcases List.mem_append.mp hi with hi | hi
      · exact h.started i hi
      · exact List.mem_singleton.mp hi ▸ hj
    case fading =>
      intro i hi
      rcases List.mem_append.mp hi with hi | hi
      · exact (h.fading i hi).imp_left (List.mem_append_left _)
      · exact .inl (List.mem_append_right _ hi)
  have hacts : (w.stage.enter j).Draws (fun _ => True) (w.launch j).stage _ := Stage.draws_acts _ _
  exact henter.draws hacts fun σ hσ => hs σ (List.mem_append_left _ hσ)

theorem ShownOn.launches (jobs : List Job) (hj : ∀ j ∈ jobs, j ∈ c.fades) (h : c.ShownOn first out w.stage)
    (hs : ∀ σ ∈ w.launchStrokes jobs, σ.Respects c.surfaces c.fades) :
    c.ShownOn first (out ++ jobs) (jobs.foldl Shell.launch w).stage := by
  induction jobs generalizing w out with
  | nil =>
    rw [List.append_nil]
    exact h
  | cons j jobs ih =>
    have hone : c.ShownOn first (out ++ [j]) (w.launch j).stage := by
      refine h.launch (hj j List.mem_cons_self) fun σ hσ => hs σ ?_
      rw [Shell.launchStrokes, Shell.launchStrokes, List.append_nil] at hσ
      exact List.mem_append_left _ hσ
    have hrest := ih (fun i hi => hj i (List.mem_cons_of_mem j hi)) hone fun σ hσ => hs σ (List.mem_append_right _ hσ)
    rwa [List.append_assoc] at hrest

/-- Once the fades of a transition are launched, its scene is shown as it was left by the start transaction. -/
theorem shownOn_faded (w : Shell η α ε) (token : Token) (r : Record) (batch : Batch) (start : Transaction)
    (hfades : Control.fadeJobs w.config token (w.nextAnimation.upFrom batch.fadeTargets.length) batch.fadeTargets =
      c.fades)
    (hs : ∀ σ ∈ (w.fadeStrokes token r batch start).tail, σ.Respects c.surfaces c.fades) :
    c.ShownOn (screen w.stage.journal ++ start) c.fades (w.faded token r batch start).stage := by
  let v := (w.allotted batch start).settled token
    { r with fades := some (w.nextAnimation.upFrom batch.fadeTargets.length) } batch.fadeTargets.length
  have hstart : w.stage.Draws (fun _ => True) v.stage [⟨none, start⟩] :=
    (w.stage.draws_apply start).quietly ((w.allotted batch start).draws_settled token _ _)
  have hscreen : screen v.stage.journal = screen w.stage.journal ++ start := by simpa using hstart.screen_eq
  have hfirst : c.ShownOn (screen w.stage.journal ++ start) [] v.stage := by
    constructor
    case visible => exact fun x _ => by rw [hscreen]
    case still => exact fun x _ _ => by rw [hscreen]
    case started | fading => simp
  simp only [Shell.fadeStrokes, Shell.faded, hfades] at hs ⊢
  exact hfirst.launches c.fades (fun j hj => hj) hs

end Launches

end Scene

/-! ## The scene of a batch -/

namespace Control

variable (config : Config) (token : Token) {ids : List AnimationId} {targets : List (Surface × Bool)}

theorem map_fadeJobs_surface (h : ids.length = targets.length) :
    (fadeJobs config token ids targets).map (·.fade.surface) = targets.map Prod.fst := by
  calc
    (fadeJobs config token ids targets).map (·.fade.surface)
    _ = (targets.zip ids).map (Prod.fst ∘ Prod.fst) := List.map_map
    _ = ((targets.zip ids).map Prod.fst).map Prod.fst := List.map_map.symm
    _ = targets.map Prod.fst := by rw [List.map_fst_zip (Nat.le_of_eq h.symm)]

theorem target_of_mem_fadeJobs {j : Job} (hj : j ∈ fadeJobs config token ids targets) :
    ∃ shown, (j.fade.surface, shown) ∈ targets := by
  obtain ⟨⟨⟨_, shown⟩, _⟩, hmem, rfl⟩ := List.mem_map.mp hj
  exact ⟨shown, (List.of_mem_zip hmem).1⟩

theorem running_of_mem_fadeJobs {j : Job} (hj : j ∈ fadeJobs config token ids targets) :
    j.token = token ∧ j.ended = false := by
  obtain ⟨_, _, rfl⟩ := List.mem_map.mp hj
  exact ⟨rfl, rfl⟩

theorem exists_fadeJob {x : Surface} {shown : Bool} (h : ids.length = targets.length) (hx : (x, shown) ∈ targets) :
    ∃ j ∈ fadeJobs config token ids targets,
      j.fade.surface = x ∧ j.fade.target = if shown then (1.0 : Float32) else 0.0 := by
  have htargets : (targets.zip ids).map Prod.fst = targets := List.map_fst_zip (Nat.le_of_eq h.symm)
  rw [← htargets] at hx
  obtain ⟨⟨_, id⟩, hmem, rfl⟩ := List.mem_map.mp hx
  exact ⟨_, List.mem_map.mpr ⟨_, hmem, rfl⟩, rfl, rfl⟩

end Control

namespace Batch

/-- The surfaces of a batch and its default fades, with ids from `a` on. -/
def scene (b : Batch) (hd : b.IsDistinct) (config : Config) (token : Token) (a : AnimationId) : Scene where
  surfaces := b.participants.map (·.surface)
  fades := Control.fadeJobs config token (a.upFrom b.fadeTargets.length) b.fadeTargets
  distinct := by
    rw [Control.map_fadeJobs_surface config token (Control.length_upFrom _ _)]
    exact nodup_fadeTargets hd
  within j hj := by
    obtain ⟨_, htarget⟩ := Control.target_of_mem_fadeJobs config token hj
    obtain ⟨p, hp, hsurface, _⟩ := of_mem_fadeTargets htarget
    exact List.mem_map.mpr ⟨p, hp, hsurface⟩
  running j hj := (Control.running_of_mem_fadeJobs config token hj).2

variable {b : Batch} {config : Config} {token : Token} {a : AnimationId} {t shown : Transaction} {p : Participant}

theorem scene_alpha (hd : b.IsDistinct) {x : Surface} {fadesIn : Bool} (hx : (x, fadesIn) ∈ b.fadeTargets)
    (h : (b.scene hd config token a).Shows (t ++ b.startState) (b.scene hd config token a).fades [] shown) :
    shown.alphaOf x = some (if fadesIn then 1.0 else 0.0) := by
  obtain ⟨j, hj, rfl, htarget⟩ := Control.exists_fadeJob config token (Control.length_upFrom a _) hx
  rw [← htarget]
  exact (h.fading j hj).resolve_left (by simp)

/-- When the fades are over, everything that is shown is visible and of full alpha. -/
theorem scene_showing (hd : b.IsDistinct) (hp : p ∈ b.participants) (hs : p.mode.isShowing = true)
    (h : (b.scene hd config token a).Shows (t ++ b.startState) (b.scene hd config token a).fades [] shown) :
    shown.visibilityOf p.surface = some true ∧ shown.alphaOf p.surface = some 1.0 := by
  have hx : p.surface ∈ (b.scene hd config token a).surfaces := List.mem_map_of_mem hp
  refine ⟨(h.visible _ hx).trans (startState_visible hd hp hs t), ?_⟩
  cases hf : b.fadesIn p with
  | true => exact scene_alpha hd (mem_fadeTargets_in hp hf) h
  | false =>
    refine (h.still _ hx fun j hj hsame => ?_).trans (startState_alpha hd hp hs hf t)
    obtain ⟨fadesIn, htarget⟩ := Control.target_of_mem_fadeJobs config token hj
    exact notMem_fadeTargets hd hp hs hf fadesIn (hsame ▸ htarget)

/-- When the fades are over, what is hidden at the top level of a batch that opens nothing is of alpha zero. -/
theorem scene_hiding (hd : b.IsDistinct) (hp : p ∈ b.participants) (hk : b.kind.isOpening = false)
    (ht : p.isTopLevel = true) (hm : p.mode.isHiding = true)
    (h : (b.scene hd config token a).Shows (t ++ b.startState) (b.scene hd config token a).fades [] shown) :
    shown.alphaOf p.surface = some 0.0 := by
  have hf : b.fadesOut p = true := by simp [fadesOut, hk, ht, hm]
  exact scene_alpha hd (mem_fadeTargets_out hp hf) h

end Batch

end WindowTransitions
