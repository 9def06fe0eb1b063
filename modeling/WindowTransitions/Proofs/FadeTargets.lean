import WindowTransitions.Fade
import WindowTransitions.Proofs.StartTable

/-! The default animation against the start state. Main statement: an opening batch fades in exactly what its start
state makes transparent, from there; any other batch fades out what is hidden at its top level, which its start state
leaves as visible as it was and puts above all that is shown there. -/

set_option autoImplicit false

namespace WindowTransitions.Batch

variable {b : Batch} {p q : Participant} {x : Surface} {i j : Nat} {shown : Bool}

/-! ## Alpha and visibility at the start -/

/-- The table has an alpha of zero for what is faded in, and for nothing else. -/
theorem table_alpha_eq_zero (i : Nat) (p : Participant) : (b.table i p).alpha = some 0.0 ↔ b.fadesIn p = true := by
  have hone : (1.0 : Float32) ≠ 0.0 := by decide +kernel
  unfold table fadesIn
  cases p.isTopLevel
  · cases p.mode <;> simp [Mode.isHiding, hone]
  · cases p.mode <;> cases b.kind.isOpening <;> cases p.hasStartingWindow <;> simp [Mode.isShowing, hone]

/-- What is faded out keeps its visibility and alpha. -/
theorem table_of_fadesOut (i : Nat) (hf : b.fadesOut p = true) :
    (b.table i p).alpha = none ∧ (b.table i p).visible = none := by
  unfold fadesOut at hf
  simp only [Bool.and_eq_true] at hf
  have hs : p.mode.isShowing = false := by
    cases hm : p.mode <;> simp_all [Mode.isShowing, Mode.isHiding]
  rw [table, if_pos hf.1.1, hs]
  exact ⟨rfl, rfl⟩

theorem startState_alphaOf (ha : b.IsApart) (hi : b.participants[i]? = some p) :
    b.startState.alphaOf p.surface = (b.table i p).alpha := congrArg Look.alpha (startState_look ha hi)

/-- The start state makes transparent what the default animation fades in. -/
theorem startState_alpha_eq_zero (ha : b.IsApart) :
    b.startState.alphaOf x = some 0.0 ↔ ∃ p ∈ b.participants, p.surface = x ∧ b.fadesIn p = true := by
  constructor
  · intro h
    by_cases hx : ∃ p ∈ b.participants, p.surface = x
    · obtain ⟨p, hp, rfl⟩ := hx
      obtain ⟨index, hi⟩ := List.getElem?_of_mem hp
      rw [startState_alphaOf ha hi] at h
      exact ⟨p, hp, rfl, (table_alpha_eq_zero index p).mp h⟩
    · -- neither the root nor any other surface gets an alpha
      have hnone : b.startState.alphaOf x = none := by
        by_cases hroot : b.root = some x
        · exact congrArg Look.alpha (startState_look_root ha hroot)
        · exact congrArg Look.alpha (startState_look_other hroot fun p hp hs => hx ⟨p, hp, hs⟩)
      cases hnone.symm.trans h
  · rintro ⟨p, hp, rfl, hf⟩
    obtain ⟨index, hi⟩ := List.getElem?_of_mem hp
    rw [startState_alphaOf ha hi]
    exact (table_alpha_eq_zero index p).mpr hf

/-! ## Targets by the direction of the batch -/

theorem mem_fadeTargets_opening (ho : b.kind.isOpening = true) : (x, shown) ∈ b.fadeTargets ↔
    shown = true ∧ ∃ p ∈ b.participants, p.surface = x ∧ b.fadesIn p = true := by
  have hout : ∀ p, b.fadesOut p = false := fun p => by simp [fadesOut, ho]
  rw [mem_fadeTargets]
  cases shown <;> simp [hout]

theorem mem_fadeTargets_closing (ho : b.kind.isOpening = false) : (x, shown) ∈ b.fadeTargets ↔
    shown = false ∧ ∃ p ∈ b.participants, p.surface = x ∧ b.fadesOut p = true := by
  have hin : ∀ p, b.fadesIn p = false := fun p => by simp [fadesIn, ho]
  rw [mem_fadeTargets]
  cases shown <;> simp [hin]

theorem fadesOut_closing (ho : b.kind.isOpening = false) :
    b.fadesOut p = true ↔ p.isTopLevel = true ∧ p.mode.isHiding = true := by
  simp [fadesOut, ho]

theorem raises_closing (ho : b.kind.isOpening = false) (hp : p.mode.isHiding = true) (hq : q.mode.isShowing = true) :
    b.raises p = true ∧ b.raises q = false := by
  unfold raises
  rw [ho]
  constructor
  · cases hm : p.mode <;> simp_all [Mode.isHiding]
  · cases hm : q.mode <;> simp_all [Mode.isShowing]

/-! ## Main statement -/

/-- In an opening batch the targets are the surfaces of zero alpha, and each is faded in from there. In any other batch
no participant gets an alpha of zero; the targets are what is hidden at the top level, each is faded out, and the start
state writes neither its alpha nor its visibility and puts it above all that is shown at the top level. There the
layers are compared as numbers, and also as words, which hold them in a batch of fewer than `2 ^ 31` participants.
No surface is a target twice, and the targets run from the front to the rear. -/
theorem fadeTargets_agree (ha : b.IsApart) :
    (b.kind.isOpening = true → ∀ x,
      ((∃ shown, (x, shown) ∈ b.fadeTargets) ↔ b.startState.alphaOf x = some 0.0) ∧
      ∀ shown duration, (x, shown) ∈ b.fadeTargets → shown = true ∧
        b.startState.alphaOf x = some (Fade.standard x shown duration).source ∧
        (Fade.standard x shown duration).source = 0.0 ∧ (Fade.standard x shown duration).target = 1.0) ∧
    (b.kind.isOpening = false →
      (∀ p ∈ b.participants, b.startState.alphaOf p.surface ≠ some 0.0) ∧
      (∀ x, (∃ shown, (x, shown) ∈ b.fadeTargets) ↔
        ∃ p ∈ b.participants, p.surface = x ∧ p.isTopLevel = true ∧ p.mode.isHiding = true) ∧
      (∀ x shown duration, (x, shown) ∈ b.fadeTargets → shown = false ∧
        (Fade.standard x shown duration).source = 1.0 ∧ (Fade.standard x shown duration).target = 0.0 ∧
        b.startState.alphaOf x = none ∧ b.startState.visibilityOf x = none) ∧
      ∀ (i j : Nat) (p q : Participant), b.participants[i]? = some p → b.participants[j]? = some q →
        p.isTopLevel = true → q.isTopLevel = true → p.mode.isHiding = true → q.mode.isShowing = true →
        b.startState.layerOf p.surface = some (.ofInt (b.height i p)) ∧
          b.startState.layerOf q.surface = some (.ofInt (b.height j q)) ∧ b.height j q < b.height i p ∧
          (b.participants.length < 2 ^ 31 → Int32.ofInt (b.height j q) < Int32.ofInt (b.height i p))) ∧
    (b.fadeTargets.map Prod.fst).Nodup ∧
    (b.fadeTargets.map Prod.fst).Sublist (b.participants.reverse.map (·.surface)) := by
  refine ⟨fun ho x => ⟨?_, ?_⟩, fun ho => ⟨?_, ?_, ?_, ?_⟩, nodup_fadeTargets ha.1, b.fadeTargets_sublist⟩
  · simp [mem_fadeTargets_opening ho, startState_alpha_eq_zero ha]
  · intro shown duration h
    obtain ⟨rfl, hin⟩ := (mem_fadeTargets_opening ho).mp h
    rw [Fade.standard_shown]
    exact ⟨rfl, (startState_alpha_eq_zero ha).mpr hin, rfl, rfl⟩
  · intro p hp h
    obtain ⟨q, _, _, hin⟩ := (startState_alpha_eq_zero ha).mp h
    simp [fadesIn, ho] at hin
  · simp [mem_fadeTargets_closing ho, fadesOut_closing ho]
  · intro x shown duration h
    obtain ⟨rfl, p, hp, rfl, hout⟩ := (mem_fadeTargets_closing ho).mp h
    obtain ⟨index, hi⟩ := List.getElem?_of_mem hp
    obtain ⟨halpha, hvisible⟩ := table_of_fadesOut index hout
    rw [Fade.standard_hidden]
    exact ⟨rfl, rfl, rfl, (startState_alphaOf ha hi).trans halpha,
      (congrArg Look.visible (startState_look ha hi)).trans hvisible⟩
  · intro i j p q hi hj hp hq hhides hshows
    obtain ⟨hraised, hlowered⟩ := raises_closing ho hhides hshows
    have hlt : b.height j q < b.height i p := height_lt_of_raises hi hraised hlowered j
    exact ⟨startState_layer ha.1 hi hp, startState_layer ha.1 hj hq, hlt, fun hc => ofInt_height_lt hc hj hi hlt⟩

theorem fadeTargets_agree_both_ways :
    (∀ x, (∃ shown, (x, shown) ∈ risingAndSinking.fadeTargets) ↔ risingAndSinking.startState.alphaOf x = some 0.0) ∧
      (Fade.standard ⟨3⟩ false 0).source = 1.0 ∧ nested.startState.alphaOf ⟨3⟩ = none ∧
      nested.startState.visibilityOf ⟨3⟩ = none ∧ nested.startState.layerOf ⟨3⟩ = some 1 ∧
      nested.startState.layerOf ⟨1⟩ = some 0 ∧ (0 : Int32) < 1 := by
  have hrising : risingAndSinking.IsApart := ⟨by unfold IsDistinct; decide, by decide⟩
  obtain ⟨hopening, _⟩ := fadeTargets_agree hrising
  obtain ⟨_, hclosing, _⟩ := fadeTargets_agree isApart_nested
  obtain ⟨_, _, htargets, hlayers⟩ := hclosing rfl
  obtain ⟨_, hsource, _, halpha, hvisible⟩ := htargets ⟨3⟩ false 0 (by decide)
  obtain ⟨hfront, hrear, _, hlt⟩ := hlayers 2 0 _ _ rfl rfl rfl rfl rfl rfl
  exact ⟨fun x => (hopening rfl x).1, hsource, halpha, hvisible, hfront, hrear, hlt (by decide)⟩

end WindowTransitions.Batch
