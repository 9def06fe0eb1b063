import WindowTransitions.Proofs.Layers

/-! The start state as a table. A look at a surface holds what a transaction writes to it last, property by property.
Main statement: set up on any transaction, a batch changes the look of its participants as the table of modes and
directions says, shows its root, and leaves all else as it was; top-level participants get different layers. -/

set_option autoImplicit false

namespace WindowTransitions

/-! ## Looks -/

/-- The last write to each property of a surface, if there is one. -/
structure Look where
  visible : Option Bool := none
  parent : Option (Option Surface) := none
  position : Option Point := none
  layer : Option Int32 := none
  alpha : Option Float32 := none
  matrix : Option Matrix := none
  deriving DecidableEq

namespace Look

/-- The later look decides where it has something to say. -/
def onto (later earlier : Look) : Look where
  visible := later.visible.or earlier.visible
  parent := later.parent.or earlier.parent
  position := later.position.or earlier.position
  layer := later.layer.or earlier.layer
  alpha := later.alpha.or earlier.alpha
  matrix := later.matrix.or earlier.matrix

@[simp] theorem nothing_onto (l : Look) : onto {} l = l := rfl

def ofWrites (writes : List Write) : Look where
  visible := writes.reverse.findSome? Write.visible?
  parent := writes.reverse.findSome? Write.parent?
  position := writes.reverse.findSome? Write.position?
  layer := writes.reverse.findSome? Write.layer?
  alpha := writes.reverse.findSome? Write.alpha?
  matrix := writes.reverse.findSome? Write.matrix?

end Look

namespace Transaction

variable {a b t : Transaction} {x : Surface}

def look (t : Transaction) (x : Surface) : Look where
  visible := t.visibilityOf x
  parent := t.parentOf x
  position := t.positionOf x
  layer := t.layerOf x
  alpha := t.alphaOf x
  matrix := t.matrixOf x

theorem look_append (a b : Transaction) (x : Surface) : look (a ++ b) x = (b.look x).onto (a.look x) := by
  simp only [look, Look.onto, visibilityOf, parentOf, positionOf, layerOf, alphaOf, matrixOf, last_append]

theorem look_congr (h : ∀ {β : Type} (pick : Write → Option β), a.last x pick = b.last x pick) :
    a.look x = b.look x := by
  simp only [look, visibilityOf, parentOf, positionOf, layerOf, alphaOf, matrixOf, h]

theorem look_ofWrites (x : Surface) (writes : List Write) :
    look (writes.map (Edit.mk x)) x = Look.ofWrites writes := by
  simp only [look, Look.ofWrites, visibilityOf, parentOf, positionOf, layerOf, alphaOf, matrixOf, last_ofWrites]

theorem look_untouched (h : ∀ e ∈ t, e.surface ≠ x) : t.look x = {} := by
  simp only [look, visibilityOf, parentOf, positionOf, layerOf, alphaOf, matrixOf, last_of_untouched h]

end Transaction

namespace Batch

variable {b : Batch} {p : Participant} {i : Nat}

/-! ## The table -/

/-- What the start state says of the participant at `index`, and nothing where it leaves the surface alone. The
numbers are integers that become words in the end. -/
def table (b : Batch) (index : Nat) (p : Participant) : Look :=
  if p.isTopLevel then
    { visible := if p.mode.isShowing then some true else none
      parent := some b.root
      position := some ⟨.ofInt (p.startBounds.left.toInt - b.rootOffset.x.toInt),
        .ofInt (p.startBounds.top.toInt - b.rootOffset.y.toInt)⟩
      layer := some (.ofInt (b.height index p))
      alpha :=
        if p.mode.isShowing then some (if b.kind.isOpening && !p.hasStartingWindow then 0.0 else 1.0) else none
      matrix := if p.mode.isShowing then some Matrix.identity else none }
  else if p.mode.isHiding then {}
  else
    { visible := some true
      position := some p.endOffset
      alpha := some 1.0
      matrix := some Matrix.identity }

theorem positionInRoot_eq (b : Batch) (p : Participant) : b.positionInRoot p =
    ⟨.ofInt (p.startBounds.left.toInt - b.rootOffset.x.toInt),
      .ofInt (p.startBounds.top.toInt - b.rootOffset.y.toInt)⟩ := by
  rw [Int32.ofInt_sub, Int32.ofInt_sub, Int32.ofInt_toInt, Int32.ofInt_toInt, Int32.ofInt_toInt, Int32.ofInt_toInt]
  rfl

theorem participantWrites_look (hi : b.participants[i]? = some p) :
    Look.ofWrites (b.participantWrites i p) = b.table i p := by
  have hle : i ≤ b.participants.length := Nat.le_of_lt (List.getElem?_eq_some_iff.mp hi).1
  unfold participantWrites childWrites modeWrites table height raises
  rw [positionInRoot_eq, topLayer_eq hle, bottomLayer_eq]
  cases p.isTopLevel
  · cases p.mode <;> rfl
  · cases p.mode <;> cases b.kind.isOpening <;> cases p.hasStartingWindow <;> rfl

/-! ## Looks at a start state -/

/-- The surfaces of the participants are distinct, and none of them is the root. -/
def IsApart (b : Batch) : Prop := b.IsDistinct ∧ ∀ p ∈ b.participants, b.root ≠ some p.surface

theorem startState_look (ha : b.IsApart) (hi : b.participants[i]? = some p) :
    b.startState.look p.surface = b.table i p := by
  have hroot : b.root ≠ some p.surface := ha.2 p (List.mem_of_getElem? hi)
  rw [← participantWrites_look hi, ← Transaction.look_ofWrites p.surface]
  refine Transaction.look_congr fun pick => ?_
  rw [startState_last ha.1 hi, if_neg hroot, Option.or_none, Transaction.last_ofWrites]

/-- The edits of a start state behind the showing of the root are to participants. -/
theorem surface_of_mem_edits {e : Edit} (he : e ∈ b.participants.zipIdx.reverse.flatMap fun (p, index) =>
    (b.participantWrites index p).map (Edit.mk p.surface)) : ∃ p ∈ b.participants, p.surface = e.surface := by
  obtain ⟨⟨p, index⟩, hmem, he⟩ := List.mem_flatMap.mp he
  obtain ⟨write, _, rfl⟩ := List.mem_map.mp he
  exact ⟨p, List.fst_mem_of_mem_zipIdx (List.mem_reverse.mp hmem), rfl⟩

theorem startState_look_root {root : Surface} (ha : b.IsApart) (hroot : b.root = some root) :
    b.startState.look root = { visible := some true } := by
  have hrest : Transaction.look (b.participants.zipIdx.reverse.flatMap fun (p, index) =>
      (b.participantWrites index p).map (Edit.mk p.surface)) root = {} := by
    refine Transaction.look_untouched fun e he hs => ?_
    obtain ⟨p, hp, hx⟩ := surface_of_mem_edits he
    exact ha.2 p hp (hroot.trans (congrArg some (hx.trans hs).symm))
  have hshown : Transaction.look [⟨root, .visible true⟩] root = { visible := some true } :=
    Transaction.look_ofWrites root [.visible true]
  rw [startState, Transaction.look_append, hrest, hroot, Look.nothing_onto]
  exact hshown

theorem startState_look_other {x : Surface} (hroot : b.root ≠ some x) (hx : ∀ p ∈ b.participants, p.surface ≠ x) :
    b.startState.look x = {} := by
  refine Transaction.look_untouched fun e he hs => ?_
  rcases List.mem_append.mp he with he | he
  · obtain ⟨root, hmem, rfl⟩ := List.mem_map.mp he
    exact hroot ((Option.mem_toList.mp hmem).trans (congrArg some hs))
  · obtain ⟨p, hp, hp'⟩ := surface_of_mem_edits he
    exact hx p hp (hp'.trans hs)

/-! ## Setting up on a transaction -/

/-- Set up the participant at `index` on a transaction, one write after the other. -/
def setUpOne (b : Batch) (index : Nat) (p : Participant) (t : Transaction) : Transaction :=
  (b.participantWrites index p).foldl (fun t write => t ++ [⟨p.surface, write⟩]) t

/-- Set up the batch on a transaction: the root first, then the participants from the front to the rear. -/
def setUp (b : Batch) (t : Transaction) : Transaction :=
  b.participants.zipIdx.foldr (fun i t => b.setUpOne i.2 i.1 t)
    (match b.root with
    | some root => t ++ [⟨root, .visible true⟩]
    | none => t)

theorem setUpOne_eq (index : Nat) (p : Participant) (t : Transaction) :
    b.setUpOne index p t = t ++ (b.participantWrites index p).map (Edit.mk p.surface) := by
  unfold setUpOne
  generalize b.participantWrites index p = writes
  induction writes generalizing t with
  | nil => simp
  | cons write writes ih => rw [List.foldl_cons, ih, List.map_cons, List.append_assoc, List.singleton_append]

theorem foldr_setUpOne (b : Batch) (items : List (Participant × Nat)) (t : Transaction) :
    items.foldr (fun i t => b.setUpOne i.2 i.1 t) t =
      t ++ items.reverse.flatMap fun (p, index) => (b.participantWrites index p).map (Edit.mk p.surface) := by
  induction items with
  | nil => simp
  | cons item items ih =>
    rw [List.foldr_cons, ih, setUpOne_eq, List.reverse_cons, List.flatMap_append, List.append_assoc]
    simp

/-- Setting up only adds to a transaction, and what it adds does not depend on the transaction. -/
theorem setUp_eq (b : Batch) (t : Transaction) : b.setUp t = t ++ b.startState := by
  rw [setUp, startState, foldr_setUpOne]
  cases b.root with
  | none => simp
  | some root => simp

theorem setUp_layer (hd : b.IsDistinct) (hi : b.participants[i]? = some p) (ht : p.isTopLevel = true)
    (t : Transaction) : (b.setUp t).layerOf p.surface = some (.ofInt (b.height i p)) := by
  have hlayer : b.startState.last p.surface Write.layer? = some (.ofInt (b.height i p)) := startState_layer hd hi ht
  rw [setUp_eq, Transaction.layerOf, Transaction.last_append, hlayer]
  rfl

/-- All numbers of the batch fit into words: its count, and the positions of its top-level participants. -/
structure Fits (b : Batch) : Prop where
  few : b.participants.length < 2 ^ 31
  across : ∀ p ∈ b.participants, p.isTopLevel = true →
    -2 ^ 31 ≤ p.startBounds.left.toInt - b.rootOffset.x.toInt ∧ p.startBounds.left.toInt - b.rootOffset.x.toInt < 2 ^ 31
  down : ∀ p ∈ b.participants, p.isTopLevel = true →
    -2 ^ 31 ≤ p.startBounds.top.toInt - b.rootOffset.y.toInt ∧ p.startBounds.top.toInt - b.rootOffset.y.toInt < 2 ^ 31

/-- In a batch that fits, the words of the table are the numbers. -/
theorem table_exact (hf : b.Fits) (hi : b.participants[i]? = some p) (ht : p.isTopLevel = true) :
    ∃ z point, (b.table i p).layer = some z ∧ (b.table i p).position = some point ∧ z.toInt = b.height i p ∧
      point.x.toInt = p.startBounds.left.toInt - b.rootOffset.x.toInt ∧
      point.y.toInt = p.startBounds.top.toInt - b.rootOffset.y.toInt := by
  have hp : p ∈ b.participants := List.mem_of_getElem? hi
  obtain ⟨hleft, hright⟩ := hf.across p hp ht
  obtain ⟨htop, hbottom⟩ := hf.down p hp ht
  refine ⟨_, _, by rw [table, if_pos ht], by rw [table, if_pos ht], toInt_height hf.few hi, ?_, ?_⟩
  · exact Int32.toInt_ofInt_of_le hleft hright
  · exact Int32.toInt_ofInt_of_le htop hbottom

/-- Setting up a batch whose participants have surfaces of their own only adds to a transaction. What it adds is the
same for all transactions and makes each participant look as the table says, and as before where the table is silent.
The root is shown if there is one, and no other surface is touched. In a batch that fits, layers and positions are
exact, and no two top-level participants are in one layer. -/
theorem setUp_table (ha : b.IsApart) (hf : b.Fits) :
    (∀ t, b.setUp t = t ++ b.startState) ∧
    (∀ t (i : Nat) (p : Participant), b.participants[i]? = some p →
      (b.setUp t).look p.surface = (b.table i p).onto (t.look p.surface)) ∧
    (∀ t root, b.root = some root → (b.setUp t).look root = { t.look root with visible := some true }) ∧
    (∀ t x, b.root ≠ some x → (∀ p ∈ b.participants, p.surface ≠ x) → (b.setUp t).look x = t.look x) ∧
    (∀ (i : Nat) (p : Participant), b.participants[i]? = some p → p.isTopLevel = true →
      ∃ z point, (b.table i p).layer = some z ∧ (b.table i p).position = some point ∧ z.toInt = b.height i p ∧
        point.x.toInt = p.startBounds.left.toInt - b.rootOffset.x.toInt ∧
        point.y.toInt = p.startBounds.top.toInt - b.rootOffset.y.toInt) ∧
    ∀ t (i j : Nat) (p q : Participant), b.participants[i]? = some p → b.participants[j]? = some q →
      p.isTopLevel = true → q.isTopLevel = true → i ≠ j →
      (b.setUp t).layerOf p.surface ≠ (b.setUp t).layerOf q.surface := by
  refine ⟨b.setUp_eq, ?_, ?_, ?_, fun i p => table_exact hf, ?_⟩
  · intro t i p hi
    rw [setUp_eq, Transaction.look_append, startState_look ha hi]
  · intro t root hroot
    rw [setUp_eq, Transaction.look_append, startState_look_root ha hroot]
    rfl
  · intro t x hroot hx
    rw [setUp_eq, Transaction.look_append, startState_look_other hroot hx, Look.nothing_onto]
  · intro t i j p q hi hj hp hq hij hsame
    rw [setUp_layer ha.1 hi hp, setUp_layer ha.1 hj hq] at hsame
    exact ofInt_height_ne hf.few hi hj hij (Option.some.inj hsame)

/-- A window closes over one that comes back with a smaller one inside. -/
def nested : Batch where
  kind := .closing
  root := some ⟨100⟩
  rootOffset := ⟨10, 20⟩
  participants :=
    [{ surface := ⟨1⟩, mode := .toFront, startBounds := ⟨60, 120, 500, 800⟩ },
      { surface := ⟨2⟩, mode := .opening, parent := some ⟨1⟩, endOffset := ⟨12, 34⟩ },
      { surface := ⟨3⟩, mode := .closing, startBounds := ⟨0, 20, 500, 800⟩ }]

theorem isApart_nested : nested.IsApart := ⟨by unfold IsDistinct; decide, by decide⟩

theorem setUp_table_nested :
    let t : Transaction := [⟨⟨3⟩, .alpha 0.5⟩, ⟨⟨2⟩, .layer 7⟩, ⟨⟨9⟩, .visible false⟩, ⟨⟨3⟩, .visible false⟩]
    let shown := nested.setUp t
    shown.look ⟨1⟩ = ⟨some true, some (some ⟨100⟩), some ⟨50, 100⟩, some 0, some 1.0, some Matrix.identity⟩ ∧
      shown.look ⟨2⟩ = ⟨some true, none, some ⟨12, 34⟩, some 7, some 1.0, some Matrix.identity⟩ ∧
      shown.look ⟨3⟩ = ⟨some false, some (some ⟨100⟩), some ⟨-10, 0⟩, some 1, some 0.5, none⟩ ∧
      shown.look ⟨100⟩ = { visible := some true } ∧ shown.look ⟨9⟩ = { visible := some false } := by
  intro t shown
  obtain ⟨_, hparticipant, hroot, hother, _⟩ := setUp_table isApart_nested ⟨by decide, by decide, by decide⟩
  exact ⟨(hparticipant t 0 _ rfl).trans (by decide +kernel), (hparticipant t 1 _ rfl).trans (by decide +kernel),
    (hparticipant t 2 _ rfl).trans (by decide +kernel), hroot t ⟨100⟩ rfl, hother t ⟨9⟩ (by decide) (by decide)⟩

end Batch
end WindowTransitions
