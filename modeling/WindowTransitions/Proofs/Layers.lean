import Mathlib
import WindowTransitions.Proofs.StartScreen

/-! Layers of a start state. The top-level participants fall into two groups, those that are raised and those that are
sent below. Main statement: every layer of the first group is above every layer of the second, and within either group
the layers fall from the rearmost participant to the frontmost one, so a group is stacked against its compositing
order. -/

set_option autoImplicit false

namespace WindowTransitions.Batch

variable {b : Batch} {p q : Participant} {i j : Nat}

/-! ## Heights -/

/-- The participant is raised to the top. A top-level participant that is not is sent to the bottom. -/
def raises (b : Batch) (p : Participant) : Bool :=
  match p.mode with
  | .opening | .toFront => b.kind.isOpening
  | .closing | .toBack => !b.kind.isOpening
  | .changing => true

/-- The layer of the top-level participant at `index`, as a number of any size. -/
def height (b : Batch) (index : Nat) (p : Participant) : Int :=
  if b.raises p then b.participants.length - index else -index

/-- Within a group the heights fall. -/
theorem height_lt (hij : i < j) (hsame : b.raises p = b.raises q) : b.height j q < b.height i p := by
  rw [height, height, hsame]
  cases b.raises q
  · rw [if_neg (by simp), if_neg (by simp)]
    omega
  · rw [if_pos rfl, if_pos rfl]
    omega

/-- What is raised is above all that is sent below. -/
theorem height_lt_of_raises (hi : b.participants[i]? = some p) (hp : b.raises p = true) (hq : b.raises q = false)
    (j : Nat) : b.height j q < b.height i p := by
  have hlt : i < b.participants.length := (List.getElem?_eq_some_iff.mp hi).1
  rw [height, height, hp, hq, if_neg (by simp), if_pos rfl]
  omega

theorem height_ne (hi : b.participants[i]? = some p) (hj : b.participants[j]? = some q) (hij : i ≠ j) :
    b.height i p ≠ b.height j q := by
  have hi' : i < b.participants.length := (List.getElem?_eq_some_iff.mp hi).1
  have hj' : j < b.participants.length := (List.getElem?_eq_some_iff.mp hj).1
  unfold height
  split <;> split <;> omega

/-- A word holds the height in a batch of fewer than `2 ^ 31` participants. -/
theorem toInt_height (hc : b.participants.length < 2 ^ 31) (hi : b.participants[i]? = some p) :
    (Int32.ofInt (b.height i p)).toInt = b.height i p := by
  have hlt : i < b.participants.length := (List.getElem?_eq_some_iff.mp hi).1
  apply Int32.toInt_ofInt_of_le
  · unfold height
    split <;> omega
  · unfold height
    split <;> omega

theorem ofInt_height_lt (hc : b.participants.length < 2 ^ 31) (hi : b.participants[i]? = some p)
    (hj : b.participants[j]? = some q) (hlt : b.height i p < b.height j q) :
    Int32.ofInt (b.height i p) < Int32.ofInt (b.height j q) := by
  rw [Int32.lt_iff_toInt_lt, toInt_height hc hi, toInt_height hc hj]
  exact hlt

theorem ofInt_height_ne (hc : b.participants.length < 2 ^ 31) (hi : b.participants[i]? = some p)
    (hj : b.participants[j]? = some q) (hij : i ≠ j) : Int32.ofInt (b.height i p) ≠ Int32.ofInt (b.height j q) := by
  intro h
  have hheights := congrArg Int32.toInt h
  rw [toInt_height hc hi, toInt_height hc hj] at hheights
  exact height_ne hi hj hij hheights

/-! ## Layers -/

theorem topLayer_eq {count index : Nat} (h : index ≤ count) : topLayer count index = Int32.ofInt (count - index) := by
  rw [topLayer, ← Int32.ofInt_eq_ofNat, Int.ofNat_sub h]

theorem bottomLayer_eq (index : Nat) : bottomLayer index = Int32.ofInt (-index) := by
  rw [bottomLayer, Int32.ofInt_neg, Int32.ofInt_eq_ofNat]

theorem modeWrites_layer (hi : b.participants[i]? = some p) :
    (b.modeWrites i p).reverse.findSome? Write.layer? = some (Int32.ofInt (b.height i p)) := by
  have hle : i ≤ b.participants.length := Nat.le_of_lt (List.getElem?_eq_some_iff.mp hi).1
  unfold modeWrites height raises
  rw [topLayer_eq hle, bottomLayer_eq]
  cases p.mode <;> cases b.kind.isOpening <;> rfl

theorem startState_layer (hd : b.IsDistinct) (hi : b.participants[i]? = some p) (ht : p.isTopLevel = true) :
    b.startState.layerOf p.surface = some (Int32.ofInt (b.height i p)) := by
  have hwrites : (b.participantWrites i p).reverse.findSome? Write.layer? =
      (b.modeWrites i p).reverse.findSome? Write.layer? := by
    rw [participantWrites, if_pos ht, List.reverse_cons, List.reverse_cons, List.findSome?_append,
      List.findSome?_append]
    simp [Write.layer?]
  rw [Transaction.layerOf, startState_last hd hi, hwrites, modeWrites_layer hi]
  rfl

/-- Of two top-level participants that are both raised, or both sent below, the one further to the front gets the
lower layer, and so do those that are sent below against those that are raised. -/
theorem layers_fall (hd : b.IsDistinct) (hc : b.participants.length < 2 ^ 31) (hi : b.participants[i]? = some p)
    (hj : b.participants[j]? = some q) (hp : p.isTopLevel = true) (hq : q.isTopLevel = true)
    (hbelow : i < j ∧ b.raises p = b.raises q ∨ b.raises p = true ∧ b.raises q = false) :
    ∃ y z, b.startState.layerOf p.surface = some y ∧ b.startState.layerOf q.surface = some z ∧ z < y := by
  refine ⟨_, _, startState_layer hd hi hp, startState_layer hd hj hq, ofInt_height_lt hc hj hi ?_⟩
  rcases hbelow with ⟨hij, hsame⟩ | ⟨hraised, hlowered⟩
  · exact height_lt hij hsame
  · exact height_lt_of_raises hi hraised hlowered j

/-- In an opening batch some windows open and change above others that leave. -/
def risingAndSinking : Batch where
  kind := .opening
  root := some ⟨100⟩
  participants :=
    [{ surface := ⟨1⟩, mode := .opening }, { surface := ⟨2⟩, mode := .closing },
      { surface := ⟨3⟩, mode := .changing }, { surface := ⟨4⟩, mode := .toBack }]

theorem layers_fall_mixed :
    (∃ y z, risingAndSinking.startState.layerOf ⟨1⟩ = some y ∧
      risingAndSinking.startState.layerOf ⟨3⟩ = some z ∧ z < y) ∧
    (∃ y z, risingAndSinking.startState.layerOf ⟨2⟩ = some y ∧
      risingAndSinking.startState.layerOf ⟨4⟩ = some z ∧ z < y) ∧
    ∃ y z, risingAndSinking.startState.layerOf ⟨3⟩ = some y ∧
      risingAndSinking.startState.layerOf ⟨2⟩ = some z ∧ z < y := by
  have hd : risingAndSinking.IsDistinct := by
    unfold IsDistinct
    decide
  refine ⟨?_, ?_, ?_⟩
  · exact layers_fall (i := 0) (j := 2) (p := { surface := ⟨1⟩, mode := .opening })
      (q := { surface := ⟨3⟩, mode := .changing }) hd (by decide) rfl rfl rfl rfl (.inl ⟨by decide, rfl⟩)
  · exact layers_fall (i := 1) (j := 3) (p := { surface := ⟨2⟩, mode := .closing })
      (q := { surface := ⟨4⟩, mode := .toBack }) hd (by decide) rfl rfl rfl rfl (.inl ⟨by decide, rfl⟩)
  · exact layers_fall (i := 2) (j := 1) (p := { surface := ⟨3⟩, mode := .changing })
      (q := { surface := ⟨2⟩, mode := .closing }) hd (by decide) rfl rfl rfl rfl (.inr ⟨rfl, rfl⟩)

/-- Two windows open, the one with surface 2 in front. -/
def twoOpened : Batch where
  kind := .opening
  root := some ⟨100⟩
  participants := [{ surface := ⟨1⟩, mode := .opening }, { surface := ⟨2⟩, mode := .opening }]

/-- Layers do not rise with the compositing order: of two windows that open the front one gets the lower layer. -/
theorem layers_not_rising :
    ¬ ∀ (b : Batch) (i j : Nat) (p q : Participant), b.IsDistinct → b.participants.length < 2 ^ 31 →
      b.participants[i]? = some p → b.participants[j]? = some q → p.isTopLevel = true → q.isTopLevel = true →
      i < j → b.raises p = true → b.raises q = true →
      ∃ y z, b.startState.layerOf p.surface = some y ∧ b.startState.layerOf q.surface = some z ∧ y < z := by
  intro h
  have hd : twoOpened.IsDistinct := by
    unfold IsDistinct
    decide
  obtain ⟨y, z, hy, hz, hlt⟩ := h twoOpened 0 1 _ _ hd (by decide) rfl rfl rfl rfl (by decide) rfl rfl
  have hrear : twoOpened.startState.layerOf ⟨1⟩ = some 2 := by decide +kernel
  have hfront : twoOpened.startState.layerOf ⟨2⟩ = some 1 := by decide +kernel
  obtain rfl : 2 = y := Option.some.inj (hrear.symm.trans hy)
  obtain rfl : 1 = z := Option.some.inj (hfront.symm.trans hz)
  exact absurd hlt (by decide)

end WindowTransitions.Batch
