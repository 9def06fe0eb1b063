import WindowTransitions.Proofs.Completions
import WindowTransitions.Proofs.Scenes

/-! How a transition fares while its fades run. Main statement: if nobody else draws on the surfaces of a scene, its
transition either still fades and the scene is shown, or the authority was told of its finish at a time when all the
fades had come to their end values; after that nobody draws on the surfaces any more. This goes on with every move,
whatever happens to other transitions meanwhile. -/

set_option autoImplicit false

namespace WindowTransitions

/-- Default animations run for the transition. -/
def Table.Fades (t : Table) (token : Token) : Prop := ∃ r fades, t.get? token = some r ∧ r.fades = some fades

namespace Shell

variable {η α ε : Type} {w w' : Shell η α ε} {token : Token}

/-! ## Steps while a transition fades -/

section Steps
variable [Handler η] [Authority α]

theorem offers_finish_nothing {d : Registry.Dispatch η} {k : Token} {generation : UInt64} {batch : Batch}
    {r : Registry η} (hd : d.Sound k generation batch r) : .finishCalled token ∉ d.visits.map Visit.call := by
  intro hm
  cases offers_are_outside hd _ hm

/-- A step leaves a transition fading, or the transition finishes by it and the last call is the one to say so. -/
theorem Step.of_fading {ticket : Option Ticket} (ht : w.table.AtRest) (hf : w.table.Fades token)
    (h : w.Step ticket w') :
    ∃ calls, w.stage.Adds w'.stage calls ∧
      (w'.table.Fades token ∧ .finishCalled token ∉ calls ∨
        w'.table.get? token = none ∧
          ∃ reports, calls = reports ++ [.finishCalled token] ∧ .finishCalled token ∉ reports) := by
  obtain ⟨r, fades, hr, hfades⟩ := hf
  have hpreludes : ∀ calls : List Entry, (∀ e ∈ calls, e.isPrelude = true) → .finishCalled token ∉ calls :=
    fun calls hc hm => by cases hc _ hm
  -- the token of a record that does not fade is another one
  have hother : ∀ {k : Token} {s : Record}, w.table.get? k = some s → s.fades = none → k ≠ token := by
    rintro k s hs hnone rfl
    obtain rfl := Option.some.inj (hs.symm.trans hr)
    cases hnone.symm.trans hfades
  have hput : ∀ {k : Token} {s : Record}, k ≠ token → (w.table.put k s).Fades token :=
    fun hk => ⟨r, fades, by rw [Table.get?_put_other hk.symm, hr], hfades⟩
  have hremove : ∀ {k : Token}, k ≠ token → (w.table.remove k).Fades token :=
    fun hk => ⟨r, fades, by rw [Table.get?_remove_other hk.symm, hr], hfades⟩
  cases h with
  | idle hc h => exact ⟨_, h.stage, .inl ⟨h.table ▸ ⟨r, fades, hr, hfades⟩, hpreludes _ hc⟩⟩
  | @entered k kind assigned calls hn ha hc hs h =>
    have hk : token ≠ k := by
      rintro rfl
      cases hn.symm.trans hr
    refine ⟨_, h.stage, .inl ⟨?_, by simp [hpreludes _ hc]⟩⟩
    rw [h.table]
    exact ⟨r, fades, by rw [Table.get?_append_other hk, hr], hfades⟩
  | tidied hs h =>
    have hk := hother hs rfl
    exact ⟨_, h.stage, .inl ⟨h.table ▸ hremove hk, by simp [hk.symm]⟩⟩
  | owned hs hd ho h =>
    exact ⟨_, h.stage, .inl ⟨h.table ▸ hput (hother hs rfl), by simpa using offers_finish_nothing hd⟩⟩
  | faded hs hd ho hn h =>
    exact ⟨_, h.stage, .inl ⟨h.table ▸ hput (hother hs rfl), by simpa using offers_finish_nothing hd⟩⟩
  | unfaded hs hd ho h =>
    have hk := hother hs rfl
    refine ⟨_, h.stage, .inl ⟨h.table ▸ hremove hk, ?_⟩⟩
    simpa [hk.symm] using offers_finish_nothing hd
  | presented hk hh h =>
    obtain ⟨s, hs, ho, _⟩ := hh
    have hk := hother hs ((ht.get? hs).fades_of_owner ho)
    exact ⟨_, h.stage, .inl ⟨h.table ▸ hremove hk, by simp [hk.symm]⟩⟩
  | @fewer k s left a hs hl ha hm h =>
    refine ⟨_, h.stage, .inl ⟨?_, by simp⟩⟩
    rw [h.table]
    by_cases hk : k = token
    · subst hk
      exact ⟨_, _, Table.get?_put_self hs, rfl⟩
    · exact hput hk
  | @last k s left a hs hl ha hm h =>
    by_cases hk : k = token
    · subst hk
      let reports : List Entry := [.event (.phaseChanged k .animating .finished), .event (.finished k)]
      refine ⟨_, h.stage, .inr ⟨?_, reports, rfl, by simp [reports]⟩⟩
      rw [h.table, Table.get?_remove_self]
    · exact ⟨_, h.stage, .inl ⟨h.table ▸ hremove hk, by simp [Ne.symm hk]⟩⟩

/-- The record of a token changes by its batch only if it waits. -/
theorem ready_table [Executor ε] (ht : w.table.AtRest) (k : Token) (batch : Batch) (start : Transaction) :
    ((Control.ready k batch start).perform w).2.table = w.table ∨
      (∃ r, w.table.get? k = some r ∧ r.phase = .pending) ∧
        ((∃ s, ((Control.ready k batch start).perform w).2.table = w.table.put k s) ∨
          ((Control.ready k batch start).perform w).2.table = w.table.remove k) := by
  have hout := Control.ready_outcome ht k batch start
  generalize hrun : (Control.ready k batch start).run w = result at hout
  cases hout with
  | unknown | duplicate =>
    rw [Control.perform_of_error hrun]
    exact .inl rfl
  | rootless h hp hb =>
    obtain ⟨kind, assigned, generation, rfl⟩ := ht.pending h hp
    rw [Control.perform_of_ok hrun]
    exact .inr ⟨⟨_, h, rfl⟩, .inr (w.leadsTo_rootless k kind assigned generation start).table⟩
  | @owned _ owner h hp hb ho =>
    obtain ⟨kind, assigned, generation, rfl⟩ := ht.pending h hp
    rw [Control.perform_of_ok hrun]
    exact .inr ⟨⟨_, h, rfl⟩, .inl ⟨_, (w.leadsTo_owned k kind assigned generation batch start owner).table⟩⟩
  | faded h hp hb ho hn =>
    obtain ⟨kind, assigned, generation, rfl⟩ := ht.pending h hp
    rw [Control.perform_of_ok hrun]
    exact .inr ⟨⟨_, h, rfl⟩, .inl ⟨_, (w.leadsTo_fading k kind assigned generation batch start).table⟩⟩
  | unfaded h hp hb ho hn =>
    obtain ⟨kind, assigned, generation, rfl⟩ := ht.pending h hp
    rw [Control.perform_of_ok hrun]
    exact .inr ⟨⟨_, h, rfl⟩, .inr (w.leadsTo_unfaded k kind assigned generation batch start hn).table⟩

/-- Making transitions ready finishes none that fades. -/
theorem ready_keeps_fading [Executor ε] (ht : w.table.AtRest) (hf : w.table.Fades token) (k : Token) (batch : Batch)
    (start : Transaction) : ((Control.ready k batch start).perform w).2.table.get? token ≠ none := by
  obtain ⟨r, fades, hr, hfades⟩ := hf
  have hsome : w.table.get? token ≠ none := by
    rw [hr]
    exact Option.some_ne_none r
  rcases ready_table ht k batch start with htable | ⟨⟨s, hs, hp⟩, hcases⟩
  · rwa [htable]
  · have hk : token ≠ k := by
      rintro rfl
      obtain rfl := Option.some.inj (hs.symm.trans hr)
      cases hp.symm.trans ((ht.get? hr).phase_of_fades hfades)
    rcases hcases with ⟨s, htable⟩ | htable
    · rwa [htable, Table.get?_put_other hk]
    · rwa [htable, Table.get?_remove_other hk]

end Steps

/-! ## The course of a transition that fades -/

/-- How far a transition has come whose fades are those of a scene, and which was made ready when the journal was
`before`. While it fades, the scene is shown. When it has finished, the scene was shown as it ends by the time the
authority was told, and as long as no id is given out twice, nothing is drawn on its surfaces any more. -/
inductive Course (c : Scene) (first : Transaction) (token : Token) (before : List Entry) (w : Shell η α ε) : Prop where
  | running (mid : List Entry) (hf : w.table.Fades token) (hj : w.stage.journal = before ++ mid)
      (hm : .finishCalled token ∉ mid) (hs : c.ShownOn first c.fades w.stage)
  | done (mid post : List Entry) (hj : w.stage.journal = before ++ mid ++ .finishCalled token :: post)
      (hm : .finishCalled token ∉ mid) (hs : c.Shows first c.fades [] (screen (before ++ mid)))
      (hp : w.stage.allotments < 2 ^ 64 →
        (∀ e ∈ screen post, e.surface ∉ c.surfaces) ∧ ∀ j ∈ c.fades, j ∉ w.stage.jobs)

variable {c : Scene} {first : Transaction} {before : List Entry}

/-- The ids of the fades have been given out. -/
def Issued (w : Shell η α ε) (c : Scene) : Prop := ∀ j ∈ c.fades, ∃ k < w.stage.allotments, AnimationId.nth k = j.id

theorem Issued.mono (h : w.Issued c) (ha : w.stage.allotments ≤ w'.stage.allotments) : w'.Issued c := by
  intro j hj
  obtain ⟨k, hk, hnth⟩ := h j hj
  exact ⟨k, Nat.lt_of_lt_of_le hk ha, hnth⟩

theorem Issued.not_hired (h : w.Issued c) (hc : w.Counted) (ha : w'.stage.allotments < 2 ^ 64) {j : Job}
    (hj : j ∈ c.fades) : ¬ w.Hires w' j := by
  rintro ⟨count, hcount, hid⟩
  obtain ⟨k, hk, hnth⟩ := h j hj
  rw [hc.animation, AnimationId.mem_upFrom_nth] at hid
  obtain ⟨i, hi, hi', hnth'⟩ := hid
  have hsame := AnimationId.nth_injOn (by omega) (by omega) (hnth.trans hnth'.symm)
  omega

theorem Course.of_eq (hw : w.Course c first token before) (ht : w'.table = w.table) (hs : w'.stage = w.stage) :
    w'.Course c first token before := by
  cases hw with
  | running mid hf hj hm hshown => exact .running mid (ht ▸ hf) (hs ▸ hj) hm (hs ▸ hshown)
  | done mid post hj hm hshown hp => exact .done mid post (hs ▸ hj) hm hshown (hs ▸ hp)

theorem Course.take (hw : w.Course c first token before) (m : Message) (rest : List Message) :
    (w.take m rest).Course c first token before := by
  have htake : w.stage.Draws (fun _ => True) (w.take m rest).stage [] := w.draws_take m rest
  cases hw with
  | running mid hf hj hm hs =>
    refine .running (mid ++ [.received m]) hf ?_ (by simpa using hm) (hs.draws htake (by simp))
    rw [Shell.take, Stage.note, hj, List.append_assoc]
  | done mid post hj hm hs hp =>
    refine .done mid (post ++ [.received m]) ?_ hm hs ?_
    · rw [Shell.take, Stage.note, hj, List.append_assoc]
      rfl
    · have hscreen : screen (post ++ [.received m]) = screen post := by simp [screen, Entry.transaction?]
      rw [take_allotments, hscreen]
      exact hp

/-- What is drawn from one stage to another is what the entries between them apply. -/
theorem screen_of_draws {new : Job → Prop} {s s' : Stage} {strokes : List Stroke} {more : List Entry}
    (hd : s.Draws new s' strokes) (hj : s'.journal = s.journal ++ more) :
    screen more = (strokes.map Stroke.transaction).flatten := by
  have hscreen := hd.screen_eq
  rw [hj, screen_append] at hscreen
  exact List.append_cancel_left hscreen

/-- Entries among which a call is the last one. -/
theorem split_last_call {more reports : List Entry} {e : Entry} (he : e.isCall = true)
    (h : more.filter Entry.isCall = reports ++ [e]) (hnot : e ∉ reports) :
    ∃ mid post, more = mid ++ e :: post ∧ e ∉ mid := by
  obtain ⟨early, late, rfl, hearly, hlate⟩ := List.filter_eq_append_iff.mp h
  obtain ⟨gap, post, rfl, hgap, _, _⟩ := List.filter_eq_cons_iff.mp hlate
  refine ⟨early ++ gap, post, (List.append_assoc ..).symm, fun hmem => ?_⟩
  rcases List.mem_append.mp hmem with hin | hin
  · exact hnot (hearly ▸ List.mem_filter.mpr ⟨hin, he⟩)
  · exact hgap e hin he

/-- A list is split in one way at the first place of an entry. -/
theorem split_first_unique {early late early' late' : List Entry} {e : Entry}
    (h : early ++ e :: late = early' ++ e :: late') (he : e ∉ early) (he' : e ∉ early') :
    early = early' ∧ late = late' := by
  have hlength : early.length = early'.length := by
    have hindex := congrArg (List.idxOf e) h
    rwa [List.idxOf_append_of_notMem he, List.idxOf_append_of_notMem he', List.idxOf_cons_self,
      List.idxOf_cons_self] at hindex
  obtain ⟨hearly, hlate⟩ := List.append_inj h hlength
  exact ⟨hearly, (List.cons.inj hlate).2⟩

/-- What the course says of the first time when the authority is told. -/
theorem Course.finished {mid post : List Entry} (h : w.Course c first token before)
    (hj : w.stage.journal = before ++ mid ++ .finishCalled token :: post) (hm : .finishCalled token ∉ mid) :
    c.Shows first c.fades [] (screen (before ++ mid)) ∧
      (w.stage.allotments < 2 ^ 64 → ∀ e ∈ screen post, e.surface ∉ c.surfaces) := by
  rw [List.append_assoc] at hj
  cases h with
  | running whole _ hj' hm' =>
    obtain rfl := List.append_cancel_left (hj'.symm.trans hj)
    exact absurd (List.mem_append_right mid List.mem_cons_self) hm'
  | done mid' post' hj' hm' hs hp =>
    rw [List.append_assoc] at hj'
    obtain ⟨rfl, rfl⟩ := split_first_unique (List.append_cancel_left (hj'.symm.trans hj)) hm' hm
    exact ⟨hs, fun ha => (hp ha).1⟩

/-- Nothing is due of a transition that is not active. -/
theorem Balanced.ended_of_gone (hw : w.Balanced) (hgone : w.table.get? token = none) {j : Job}
    (hj : j ∈ w.stage.jobs) (htoken : j.token = token) : j.ended = true := by
  cases he : j.ended with
  | true => rfl
  | false =>
    have hdue : (token, j.id) ∈ w.stage.dues := by
      refine List.mem_append_left _ (List.mem_flatMap.mpr ⟨j, hj, ?_⟩)
      simp [Job.dues, he, htoken]
    have hpos := List.count_pos_iff.mpr hdue
    rw [← hw.count, Table.fadesOf, hgone] at hpos
    cases hpos

section Operations
variable [Handler η] [Authority α]

/-- The course goes on with every step in which nobody else draws on the surfaces. If the transition finishes by the
step, nothing at all is drawn in it. -/
theorem Course.step {ticket : Option Ticket} {strokes : List Stroke} (htoken : ∀ j ∈ c.fades, j.token = token)
    (ht : w.table.AtRest) (hc : w.Counted) (hissued : w.Issued c)
    (hstep : w.Step ticket w') (hdraws : w.stage.Draws (w.Hires w') w'.stage strokes)
    (hs : ∀ σ ∈ strokes, σ.Respects c.surfaces c.fades) (hbalanced : w'.Balanced)
    (hquiet : w.table.Fades token → w'.table.get? token = none → strokes = []) (hw : w.Course c first token before) :
    w'.Course c first token before := by
  cases hw with
  | running mid hf hj hm hshown =>
    have hshown' : c.ShownOn first c.fades w'.stage := hshown.draws hdraws hs
    obtain ⟨calls, ⟨_, more, hmore, _, hcalls⟩, hcases⟩ := hstep.of_fading ht hf
    rcases hcases with ⟨hf', hnot⟩ | ⟨hgone, reports, hreports, hnot⟩
    · refine .running (mid ++ more) hf' (by rw [hmore, hj, List.append_assoc]) ?_ hshown'
      intro hmem
      rcases List.mem_append.mp hmem with hin | hin
      · exact hm hin
      · exact hnot (hcalls ▸ List.mem_filter.mpr ⟨hin, rfl⟩)
    · have hleft : ∀ j ∈ c.fades, j ∉ w'.stage.jobs := fun j hj hin => by
        cases (c.running j hj).symm.trans (hbalanced.ended_of_gone hgone hin (htoken j hj))
      obtain ⟨gap, post, rfl, hgap⟩ := split_last_call rfl (hcalls.trans hreports) hnot
      have hnothing : screen (gap ++ .finishCalled token :: post) = [] := by
        rw [screen_of_draws hdraws hmore, hquiet hf hgone]
        rfl
      obtain ⟨hgapnil, hpostnil⟩ := List.append_eq_nil_iff.mp ((screen_append ..).symm.trans hnothing)
      refine .done (mid ++ gap) post ?_ ?_ ?_ fun _ => ⟨?_, hleft⟩
      · rw [hmore, hj, ← List.append_assoc, ← List.append_assoc]
      · intro hmem
        rcases List.mem_append.mp hmem with hin | hin
        · exact hm hin
        · exact hgap hin
      · have hsame : screen (before ++ (mid ++ gap)) = screen w'.stage.journal := by
          rw [hmore, hj, ← List.append_assoc, screen_append _ gap, screen_append (before ++ mid), hgapnil, hnothing]
        rw [hsame]
        exact hshown'.ended hleft
      · have hpost : screen post = [] := hpostnil
        simp [hpost]
  | done mid post hj hm hshown hp =>
    obtain ⟨calls, hleads⟩ := hstep.leadsTo
    obtain ⟨_, more, hmore, _, _⟩ := hleads.stage
    refine .done mid (post ++ more) (by rw [hmore, hj, List.append_assoc, List.cons_append]) hm hshown fun ha => ?_
    obtain ⟨hp, hgone⟩ := hp (Nat.lt_of_le_of_lt hstep.allotments_le ha)
    have hfree : ∀ j ∈ c.fades, ¬ (j ∈ w.stage.jobs ∨ w.Hires w' j) := by
      rintro j hj (hin | hhired)
      · exact hgone j hj hin
      · exact hissued.not_hired hc ha hj hhired
    refine ⟨fun e he => ?_, fun j hj hin => hfree j hj (hdraws.jobs j hin)⟩
    rw [screen_append] at he
    rcases List.mem_append.mp he with he | he
    · exact hp e he
    · rw [screen_of_draws hdraws hmore] at he
      obtain ⟨t, ht, het⟩ := List.mem_flatten.mp he
      obtain ⟨σ, hσ, rfl⟩ := List.mem_map.mp ht
      rcases hs σ hσ with ⟨j, hj, hauthor⟩ | hapart
      · exact absurd (hdraws.author σ hσ j hauthor) (hfree j hj)
      · exact hapart e het

end Operations

/-! ## Along a run -/

variable [Handler η] [Authority α]

/-- What a run carries along: what every run does, and the course of the transition. -/
structure Played (c : Scene) (first : Transaction) (token : Token) (before : List Entry) (w : Shell η α ε) :
    Prop where
  rest : w.table.AtRest ∧ w.Resting
  issued : w.Issued c
  course : w.Course c first token before

theorem Played.step {ticket : Option Ticket} {strokes : List Stroke} (htoken : ∀ j ∈ c.fades, j.token = token)
    (hstep : w.Step ticket w') (hdraws : w.stage.Draws (w.Hires w') w'.stage strokes)
    (hs : ∀ σ ∈ strokes, σ.Respects c.surfaces c.fades) (hrest : w'.table.AtRest ∧ w'.Resting)
    (hbalanced : w'.Balanced) (hquiet : w.table.Fades token → w'.table.get? token = none → strokes = [])
    (hw : w.Played c first token before) : w'.Played c first token before where
  rest := hrest
  issued := hw.issued.mono hstep.allotments_le
  course := hw.course.step htoken hw.rest.1 hw.rest.2.counted hw.issued hstep hdraws hs hbalanced hquiet

variable [Executor ε]

theorem Played.take (hw : w.Played c first token before) {m : Message} {rest : List Message}
    (hq : w.stage.queue = m :: rest) : (w.take m rest).Played c first token before where
  rest := kept_resting.take w m rest hq hw.rest
  issued := hw.issued.mono (Nat.le_of_eq (take_allotments ..).symm)
  course := hw.course.take m rest

theorem Played.process (htoken : ∀ j ∈ c.fades, j.token = token) (m : Message)
    (hs : ∀ σ ∈ w.processStrokes m, σ.Respects c.surfaces c.fades)
    (hbalanced : ((Control.process m).perform w).2.Balanced) (hw : w.Played c first token before) :
    ((Control.process m).perform w).2.Played c first token before := by
  refine hw.step htoken (process_step hw.rest.1 m) (draws_process hw.rest.1 m) hs (kept_resting.process w m hw.rest)
    hbalanced fun hf hnone => ?_
  cases m with
  | ready k batch start =>
    rw [Control.perform_process] at hnone
    exact absurd hnone (ready_keeps_fading hw.rest.1 hf k batch start)
  | request | handlerDone | fadeDone | shutdown => rfl

theorem Played.move (honest : Handler.LeavesFades η) (htoken : ∀ j ∈ c.fades, j.token = token) (m : Move η)
    (hone : m.IsSingle) (hm : m.LeavesFades) (hs : ∀ σ ∈ w.moveStrokes m, σ.Respects c.surfaces c.fades)
    (hbalanced : w.Balanced) (hw : w.Played c first token before) :
    (w.move m).2.Played c first token before ∧ (w.move m).2.Balanced := by
  by_cases hd : ∃ limit, m = .drain limit
  · obtain ⟨limit, rfl⟩ := hd
    obtain rfl : limit = 1 := hone
    cases hq : w.stage.queue with
    | nil =>
      rw [w.drain_one_nil hq]
      exact ⟨hw, hbalanced⟩
    | cons m rest =>
      rw [w.drain_one_cons m rest hq]
      have hnext := hbalanced.receive honest hw.rest.1 hq
      refine ⟨(hw.take hq).process htoken m (fun σ hσ => hs σ ?_) hnext, hnext⟩
      simp only [moveStrokes, drainStrokes, hq]
      exact List.mem_append_left _ hσ
  · have hnext := hbalanced.move honest hw.rest.1 m hm fun limit hl => hd ⟨limit, hl⟩
    refine ⟨?_, hnext⟩
    have hrest := kept_resting.move w m (fun limit hl => hd ⟨limit, hl⟩) hw.rest
    cases m with
    | addHandler h => exact ⟨hrest, hw.issued, hw.course.of_eq rfl rfl⟩
    | request kind placeholder trigger =>
      exact hw.step htoken (request_step w kind placeholder trigger none) (draws_request kind placeholder trigger) hs
        hrest hnext fun _ _ => rfl
    | start kind containers handler =>
      exact hw.step htoken (start_step w kind containers handler none) (draws_start kind containers handler) hs hrest
        hnext fun _ _ => rfl
    | ready k batch start =>
      exact hw.step htoken (ready_step hw.rest.1 k batch start none) (draws_ready hw.rest.1 k batch start) hs hrest
        hnext fun hf hnone => absurd hnone (ready_keeps_fading hw.rest.1 hf k batch start)
    | process m => exact hw.process htoken m hs hnext
    | drain limit => exact absurd ⟨limit, rfl⟩ hd
    | post m =>
      exact hw.step htoken (step_of_stage w (Stage.adds_post w.stage m) none) (Stage.draws_post _ m) hs hrest hnext
        fun _ _ => rfl
    | act a =>
      refine hw.step htoken (step_of_stage w (Stage.adds_perform w.stage a) none) (Stage.draws_perform _ a) hs hrest
        hnext fun hf hnone => ?_
      obtain ⟨r, _, hr, _⟩ := hf
      cases hnone.symm.trans hr

theorem Played.run (honest : Handler.LeavesFades η) (htoken : ∀ j ∈ c.fades, j.token = token) (moves : List (Move η))
    (hone : ∀ m ∈ moves, m.IsSingle) (hm : ∀ m ∈ moves, m.LeavesFades)
    (hs : ∀ σ ∈ w.runStrokes moves, σ.Respects c.surfaces c.fades) (hbalanced : w.Balanced)
    (hw : w.Played c first token before) : (w.run moves).Played c first token before := by
  induction moves generalizing w with
  | nil => exact hw
  | cons m moves ih =>
    obtain ⟨hnext, hnext'⟩ := hw.move honest htoken m (hone m List.mem_cons_self) (hm m List.mem_cons_self)
      (fun σ hσ => hs σ (List.mem_append_left _ hσ)) hbalanced
    exact ih (fun m' h => hone m' (List.mem_cons_of_mem m h)) (fun m' h => hm m' (List.mem_cons_of_mem m h))
      (fun σ hσ => hs σ (List.mem_append_right _ hσ)) hnext' hnext

end Shell

end WindowTransitions
