import Mathlib.Data.List.Nodup
import WindowTransitions.Batch.StartState

/-! What a start state shows. In a batch whose participants have distinct surfaces the writes to one of them are those
for its participant, so what is last written there can be read off its mode. Main statement: a start state makes what
it shows visible, and of full alpha unless the default animation fades it in; what a batch hides at its top level is
faded out if the batch does not open anything. -/

set_option autoImplicit false

namespace WindowTransitions

/-! ## Last writes -/

namespace Transaction

variable {β : Type} {t : Transaction} {x : Surface}

theorem last_of_untouched (h : ∀ e ∈ t, e.surface ≠ x) (pick : Write → Option β) : t.last x pick = none := by
  rw [last, List.findSome?_eq_none_iff]
  intro e he
  exact if_neg (h e (List.mem_reverse.mp he))

theorem last_ofWrites (x : Surface) (writes : List Write) (pick : Write → Option β) :
    last (writes.map (Edit.mk x)) x pick = writes.reverse.findSome? pick := by
  rw [last, ← List.map_reverse, List.findSome?_map]
  congr 1
  funext write
  simp

/-- Of writes to distinct surfaces those to one of them count there. -/
theorem last_flatMap {γ : Type} {items : List γ} {surface : γ → Surface} (writes : γ → List Write)
    (hd : (items.map surface).Nodup) {item : γ} (hi : item ∈ items) (pick : Write → Option β) :
    last (items.flatMap fun i => (writes i).map (Edit.mk (surface i))) (surface item) pick =
      (writes item).reverse.findSome? pick := by
  induction items with
  | nil => cases hi
  | cons first items ih =>
    rw [List.map_cons, List.nodup_cons] at hd
    rw [List.flatMap_cons, last_append]
    rcases List.mem_cons.mp hi with rfl | hi
    · have hrest : last (items.flatMap fun i => (writes i).map (Edit.mk (surface i))) (surface item) pick = none := by
        refine last_of_untouched (fun e he hs => hd.1 ?_) pick
        obtain ⟨i, hmem, he⟩ := List.mem_flatMap.mp he
        obtain ⟨write, _, rfl⟩ := List.mem_map.mp he
        exact List.mem_map.mpr ⟨i, hmem, hs⟩
      rw [hrest, Option.none_or, last_ofWrites]
    · have hne : surface first ≠ surface item := fun hs => hd.1 (List.mem_map.mpr ⟨item, hi, hs.symm⟩)
      have hfirst : last ((writes first).map (Edit.mk (surface first))) (surface item) pick = none := by
        refine last_of_untouched (fun e he => ?_) pick
        obtain ⟨write, _, rfl⟩ := List.mem_map.mp he
        exact hne
      rw [hfirst, Option.or_none, ih hd.2 hi]

end Transaction

namespace Batch

variable {b : Batch} {p : Participant}

/-- The participants' surfaces are distinct. -/
def IsDistinct (b : Batch) : Prop := (b.participants.map (·.surface)).Nodup

/-! ## The start state -/

/-- What a start state writes last to a participant are the participant's own writes, behind the showing of the root. -/
theorem startState_last {β : Type} {index : Nat} (hd : b.IsDistinct) (hi : b.participants[index]? = some p)
    (pick : Write → Option β) : Transaction.last b.startState p.surface pick =
      ((b.participantWrites index p).reverse.findSome? pick).or
        (if b.root = some p.surface then pick (.visible true) else none) := by
  have hmem : (p, index) ∈ b.participants.zipIdx.reverse :=
    List.mem_reverse.mpr (List.mem_zipIdx_iff_getElem?.mpr hi)
  have hdistinct : (b.participants.zipIdx.reverse.map fun i => i.1.surface).Nodup := by
    rw [List.map_reverse, List.nodup_reverse, ← Function.comp_def (fun p : Participant => p.surface) Prod.fst,
      ← List.map_map, List.zipIdx_map_fst]
    exact hd
  have hlast := Transaction.last_flatMap (fun i => b.participantWrites i.2 i.1) hdistinct hmem pick
  have hroot : Transaction.last (b.root.toList.map fun root => (⟨root, .visible true⟩ : Edit)) p.surface pick =
      if b.root = some p.surface then pick (.visible true) else none := by
    cases hr : b.root with
    | none => rfl
    | some root => simp [Transaction.last]
  rw [startState, Transaction.last_append, hroot]
  exact congrArg (fun last : Option β => last.or _) hlast

/-- What a start state writes last to a participant does not depend on the other participants. -/
theorem last_startState {β : Type} (hd : b.IsDistinct) (hp : p ∈ b.participants) (pick : Write → Option β) :
    ∃ index, ∀ t a, (b.participantWrites index p).reverse.findSome? pick = some a →
      Transaction.last (t ++ b.startState) p.surface pick = some a := by
  obtain ⟨index, hi⟩ := List.getElem?_of_mem hp
  refine ⟨index, fun t a ha => ?_⟩
  rw [Transaction.last_append, startState_last hd hi, ha]
  rfl

/-- The default animation fades the participant in. -/
def fadesIn (b : Batch) (p : Participant) : Bool :=
  p.isTopLevel && b.kind.isOpening && p.mode.isShowing && !p.hasStartingWindow

/-- The default animation fades the participant out. -/
def fadesOut (b : Batch) (p : Participant) : Bool := p.isTopLevel && !b.kind.isOpening && p.mode.isHiding

theorem participantWrites_visible (b : Batch) (index : Nat) (hs : p.mode.isShowing = true) :
    (b.participantWrites index p).reverse.findSome? Write.visible? = some true := by
  unfold participantWrites modeWrites childWrites
  cases hm : p.mode with
  | opening | toFront =>
    cases p.isTopLevel <;> cases b.kind.isOpening <;> rfl
  | closing | toBack | changing =>
    rw [hm] at hs
    cases hs

theorem participantWrites_alpha (index : Nat) (hs : p.mode.isShowing = true) (hf : b.fadesIn p = false) :
    (b.participantWrites index p).reverse.findSome? Write.alpha? = some 1.0 := by
  unfold participantWrites modeWrites childWrites
  unfold fadesIn at hf
  cases hm : p.mode with
  | opening | toFront =>
    rw [hm] at hf
    cases ht : p.isTopLevel <;> cases ho : b.kind.isOpening <;> cases hw : p.hasStartingWindow <;>
      first | rfl | (rw [ht, ho, hw] at hf; cases hf)
  | closing | toBack | changing =>
    rw [hm] at hs
    cases hs

theorem startState_visible (hd : b.IsDistinct) (hp : p ∈ b.participants) (hs : p.mode.isShowing = true)
    (t : Transaction) : (t ++ b.startState).visibilityOf p.surface = some true := by
  obtain ⟨index, hlast⟩ := last_startState hd hp Write.visible?
  exact hlast t true (b.participantWrites_visible index hs)

theorem startState_alpha (hd : b.IsDistinct) (hp : p ∈ b.participants) (hs : p.mode.isShowing = true)
    (hf : b.fadesIn p = false) (t : Transaction) : (t ++ b.startState).alphaOf p.surface = some 1.0 := by
  obtain ⟨index, hlast⟩ := last_startState hd hp Write.alpha?
  exact hlast t 1.0 (participantWrites_alpha index hs hf)

/-! ## Fade targets -/

theorem fadeTargets_eq (b : Batch) :
    b.fadeTargets = b.participants.reverse.filterMap fun p =>
      if b.fadesIn p then some (p.surface, true) else if b.fadesOut p then some (p.surface, false) else none := by
  rw [fadeTargets, List.filterMap_filter]
  apply List.filterMap_congr
  intro p _
  unfold fadesIn fadesOut
  cases p.isTopLevel <;> cases b.kind.isOpening <;> cases p.mode.isShowing <;> cases p.mode.isHiding <;>
    cases p.hasStartingWindow <;> rfl

theorem fadesOut_of_fadesIn (hf : b.fadesIn p = true) : b.fadesOut p = false := by
  unfold fadesIn fadesOut at *
  cases hk : b.kind.isOpening
  · simp [hk] at hf
  · simp

theorem mem_fadeTargets {x : Surface} {shown : Bool} : (x, shown) ∈ b.fadeTargets ↔
    ∃ p ∈ b.participants, p.surface = x ∧ (if shown then b.fadesIn p else b.fadesOut p) = true := by
  rw [fadeTargets_eq, List.mem_filterMap]
  constructor
  · rintro ⟨p, hp, he⟩
    refine ⟨p, List.mem_reverse.mp hp, ?_⟩
    split at he
    · cases he
      exact ⟨rfl, ‹_›⟩
    · split at he <;> cases he
      exact ⟨rfl, ‹_›⟩
  · rintro ⟨p, hp, rfl, hf⟩
    refine ⟨p, List.mem_reverse.mpr hp, ?_⟩
    cases shown with
    | true => simpa using hf
    | false =>
      have hin : b.fadesIn p ≠ true := fun hin => by simp [fadesOut_of_fadesIn hin] at hf
      rw [if_neg hin, if_pos (by simpa using hf)]

theorem mem_fadeTargets_in (hp : p ∈ b.participants) (hf : b.fadesIn p = true) :
    (p.surface, true) ∈ b.fadeTargets := mem_fadeTargets.mpr ⟨p, hp, rfl, hf⟩

theorem mem_fadeTargets_out (hp : p ∈ b.participants) (hf : b.fadesOut p = true) :
    (p.surface, false) ∈ b.fadeTargets := mem_fadeTargets.mpr ⟨p, hp, rfl, hf⟩

theorem of_mem_fadeTargets {x : Surface} {shown : Bool} (h : (x, shown) ∈ b.fadeTargets) :
    ∃ p ∈ b.participants, p.surface = x ∧ (b.fadesIn p = true ∨ b.fadesOut p = true) := by
  obtain ⟨p, hp, hx, hf⟩ := mem_fadeTargets.mp h
  refine ⟨p, hp, hx, ?_⟩
  cases shown with
  | true => exact .inl hf
  | false => exact .inr hf

/-- The targets stand in the order of the participants, from the front to the rear. -/
theorem fadeTargets_sublist (b : Batch) :
    (b.fadeTargets.map Prod.fst).Sublist (b.participants.reverse.map (·.surface)) := by
  rw [fadeTargets_eq]
  generalize b.participants.reverse = participants
  induction participants with
  | nil => exact .slnil
  | cons p participants ih =>
    rw [List.filterMap_cons, List.map_cons]
    split
    · exact ih.cons _
    · rename_i target ht
      have hx : target.1 = p.surface := by
        split at ht
        · rw [← Option.some.inj ht]
        · split at ht <;> cases ht
          rfl
      rw [List.map_cons, hx]
      exact ih.cons_cons _

theorem nodup_fadeTargets (hd : b.IsDistinct) : (b.fadeTargets.map Prod.fst).Nodup := by
  refine List.Nodup.sublist b.fadeTargets_sublist ?_
  rw [List.map_reverse, List.nodup_reverse]
  exact hd

/-- A participant that is shown throughout is not among those that fade. -/
theorem notMem_fadeTargets (hd : b.IsDistinct) (hp : p ∈ b.participants) (hs : p.mode.isShowing = true)
    (hf : b.fadesIn p = false) (shown : Bool) : (p.surface, shown) ∉ b.fadeTargets := by
  intro h
  obtain ⟨q, hq, hx, hfades⟩ := of_mem_fadeTargets h
  obtain rfl := List.inj_on_of_nodup_map hd hq hp hx
  rcases hfades with hin | hout
  · rw [hf] at hin
    cases hin
  · unfold fadesOut at hout
    cases hm : q.mode <;> simp_all [Mode.isShowing, Mode.isHiding]

end Batch

end WindowTransitions
