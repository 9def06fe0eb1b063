import WindowTransitions.Proofs.RoundTrips
import WindowTransitions.Surface.Transaction

/-! Surface transactions read again. A number that is not finite has no numeral and is written as null, which no
alpha and no entry of a matrix can be. Main statement: the text of a transaction that writes such a number is
unreadable; otherwise the first alpha outside zero to one is the fault, and without one the transaction comes back. -/

set_option autoImplicit false

namespace WindowTransitions

open Json (readable)

/-! ## Numbers -/

/-- The number is neither infinite nor not a number. -/
def Decimal.isFinite (x : Float32) : Bool :=
  match Single.ofFloat x with
  | .zero _ => true
  | .finite _ _ => true
  | .infinite _ => false
  | .notANumber => false

namespace Json

theorem ofSingle_infinite {x : Float32} (h : Decimal.isFinite x = false) : ofSingle x = .null := by
  rw [Decimal.isFinite] at h
  rw [ofSingle, Decimal.Layout.numeral?]
  split at h <;> simp_all

/-- A number whose numeral can be read. -/
theorem readable_ofSingle {x y : Float32} (h : (ofSingle x).single? = some y) (depth : Nat) :
    readable depth (ofSingle x) = true := by
  cases hj : ofSingle x with
  | number n =>
    rw [hj] at h
    have hn : n.single? = some y := h
    rw [readable, hn]
    rfl
  | _ => simp_all [single?]

end Json

/-! ## What an edit writes -/

/-- The singles that are written. -/
def Write.singles : Write → List Float32
  | .alpha a => [a]
  | .matrix m => m.entries
  | _ => []

namespace Matrix

theorem ofJson?_toJson {m : Matrix} (h : ∀ x ∈ m.entries, (Json.ofSingle x).single? = some x) :
    ofJson? m.toJson = some m := by
  have hall := h
  simp only [entries, List.forall_mem_cons] at hall
  obtain ⟨hdsdx, hdtdx, hdtdy, hdsdy, _⟩ := hall
  simp only [toJson, entries, List.map_cons, List.map_nil, ofJson?, hdsdx, hdtdx, hdtdy, hdsdy, Option.bind_eq_bind,
    Option.bind_some]
  rfl

theorem ofJson?_infinite {m : Matrix} {x : Float32} (hx : x ∈ m.entries) (h : Decimal.isFinite x = false) :
    ofJson? m.toJson = none := by
  have hnone : (Json.ofSingle x).single? = none := by
    rw [Json.ofSingle_infinite h]
    rfl
  simp only [entries, List.mem_cons, List.not_mem_nil, or_false] at hx
  rcases hx with rfl | rfl | rfl | rfl <;> simp [toJson, entries, ofJson?, hnone]

theorem readable_toJson {m : Matrix} (h : ∀ x ∈ m.entries, (Json.ofSingle x).single? = some x) (depth : Nat) :
    readable (depth + 1) m.toJson = true := by
  refine Json.allReadable_of_mem fun j hj => ?_
  obtain ⟨x, hx, rfl⟩ := List.mem_map.mp hj
  exact Json.readable_ofSingle (h x hx) depth

end Matrix

namespace Edit

/-- The record behind the tag of an edit with one field more is read field by field. -/
theorem edit?_record {α : Type} {name : String} (hname : "surface" ≠ name) (pick : Json.Fields → Option α)
    (value : Json) (write : α → Write) (s : Surface) :
    (do
      let f ← (Json.record [("surface", s.toJson), (name, value)]).fields? ["surface", name] false
      let a ← pick f
      return (⟨← f.required 0 Surface.ofJson?, write a⟩ : Edit)) =
      (pick ⟨[some s.toJson, some value], false⟩).map fun a => ⟨s, write a⟩ := by
  have hfields : (Json.record [("surface", s.toJson), (name, value)]).fields? ["surface", name] false =
      some ⟨[some s.toJson, some value], false⟩ := Json.fields?_record [(_, s.toJson), (_, value)] (by simpa) false
  rw [hfields, Option.bind_eq_bind, Option.bind_some, Json.Fields.required_of_slot rfl, s.ofJson?_toJson]
  cases pick ⟨[some s.toJson, some value], false⟩ <;> rfl

theorem ofJson?_tagged {j rest : Json} {op : String} (hread : readable Json.depthLimit j = true)
    (htag : j.tagged? "op" = some (op, rest)) : ofJson? j = ofFields? op rest := by
  simp [ofJson?, hread, htag]

theorem readable_toJson {e : Edit} (h : ∀ x ∈ e.write.singles, (Json.ofSingle x).single? = some x) (depth : Nat) :
    readable (depth + 2) e.toJson = true := by
  obtain ⟨surface, write⟩ := e
  have hsurface := surface.readable_toJson (depth + 1)
  have hop : ∀ op, readable (depth + 1) (Json.ofString op) = true := fun _ => rfl
  cases write with
  | visible shown => cases shown <;> exact Json.readable_record (by simp [hop, hsurface])
  | parent parent =>
    have hparent : readable (depth + 1) (Json.nullable Surface.toJson parent) = true := by
      cases parent with
      | none => rw [Json.nullable, readable]
      | some parent => exact parent.readable_toJson (depth + 1)
    exact Json.readable_record (by simp [hop, hsurface, hparent])
  | position point => exact Json.readable_record (by simp [hop, hsurface, point.readable_toJson depth])
  | layer z => exact Json.readable_record (by simp [hop, hsurface, Json.readable_ofInt32])
  | alpha a =>
    have ha := Json.readable_ofSingle (h a List.mem_cons_self) (depth + 1)
    exact Json.readable_record (by simp [hop, hsurface, ha])
  | matrix m =>
    have hm := m.readable_toJson h depth
    exact Json.readable_record (by simp [hop, hsurface, hm])

variable {s : Surface}

theorem ofJson?_visible {shown : Bool} (hread : readable Json.depthLimit (toJson ⟨s, .visible shown⟩) = true) :
    ofJson? (toJson ⟨s, .visible shown⟩) = some ⟨s, .visible shown⟩ := by
  cases shown with
  | true =>
    obtain ⟨htag, hfields⟩ := Json.tagged_record "op" "show" [("surface", s.toJson)] (by simp)
    simp only [List.map_cons, List.map_nil] at hfields
    rw [ofJson?_tagged hread htag]
    simp only [ofFields?]
    rw [hfields, Option.bind_eq_bind, Option.bind_some, Json.Fields.required_of_slot rfl, s.ofJson?_toJson]
    rfl
  | false =>
    obtain ⟨htag, hfields⟩ := Json.tagged_record "op" "hide" [("surface", s.toJson)] (by simp)
    simp only [List.map_cons, List.map_nil] at hfields
    rw [ofJson?_tagged hread htag]
    simp only [ofFields?]
    rw [hfields, Option.bind_eq_bind, Option.bind_some, Json.Fields.required_of_slot rfl, s.ofJson?_toJson]
    rfl

theorem ofJson?_parent {parent : Option Surface}
    (hread : readable Json.depthLimit (toJson ⟨s, .parent parent⟩) = true) :
    ofJson? (toJson ⟨s, .parent parent⟩) = some ⟨s, .parent parent⟩ := by
  have htag := Json.tagged?_record "op" "reparent"
    [("surface", s.toJson), ("parent", Json.nullable Surface.toJson parent)] (by simp)
  rw [ofJson?_tagged hread htag]
  simp only [ofFields?]
  rw [edit?_record (by simp), Json.Fields.optional_of_slot rfl, Surface.optional?_nullable, Option.map_some]

theorem ofJson?_position {point : Point} (hread : readable Json.depthLimit (toJson ⟨s, .position point⟩) = true) :
    ofJson? (toJson ⟨s, .position point⟩) = some ⟨s, .position point⟩ := by
  have htag := Json.tagged?_record "op" "set_position" [("surface", s.toJson), ("position", point.toJson)] (by simp)
  rw [ofJson?_tagged hread htag]
  simp only [ofFields?]
  rw [edit?_record (by simp), Json.Fields.required_of_slot rfl, Point.reads_form point _ point.form_toJson,
    Option.map_some]

theorem ofJson?_layer {z : Int32} (hread : readable Json.depthLimit (toJson ⟨s, .layer z⟩) = true) :
    ofJson? (toJson ⟨s, .layer z⟩) = some ⟨s, .layer z⟩ := by
  have htag := Json.tagged?_record "op" "set_layer" [("surface", s.toJson), ("layer", Json.ofInt32 z)] (by simp)
  rw [ofJson?_tagged hread htag]
  simp only [ofFields?]
  rw [edit?_record (by simp), Json.Fields.required_of_slot rfl, Json.int32?_ofInt32, Option.map_some]

theorem ofJson?_alpha {a : Float32} (hread : readable Json.depthLimit (toJson ⟨s, .alpha a⟩) = true) :
    ofJson? (toJson ⟨s, .alpha a⟩) = (Json.ofSingle a).single?.map fun x => ⟨s, .alpha x⟩ := by
  have htag := Json.tagged?_record "op" "set_alpha" [("surface", s.toJson), ("alpha", Json.ofSingle a)] (by simp)
  rw [ofJson?_tagged hread htag]
  simp only [ofFields?]
  rw [edit?_record (by simp), Json.Fields.required_of_slot rfl]

theorem ofJson?_matrix {m : Matrix} (hread : readable Json.depthLimit (toJson ⟨s, .matrix m⟩) = true) :
    ofJson? (toJson ⟨s, .matrix m⟩) = (Matrix.ofJson? m.toJson).map fun x => ⟨s, .matrix x⟩ := by
  have htag := Json.tagged?_record "op" "set_matrix" [("surface", s.toJson), ("matrix", m.toJson)] (by simp)
  rw [ofJson?_tagged hread htag]
  simp only [ofFields?]
  rw [edit?_record (by simp), Json.Fields.required_of_slot rfl]

theorem ofJson?_toJson {e : Edit} (h : ∀ x ∈ e.write.singles, (Json.ofSingle x).single? = some x) :
    ofJson? e.toJson = some e := by
  have hread : readable Json.depthLimit e.toJson = true := readable_toJson h 125
  obtain ⟨surface, write⟩ := e
  cases write with
  | visible shown => exact ofJson?_visible hread
  | parent parent => exact ofJson?_parent hread
  | position point => exact ofJson?_position hread
  | layer z => exact ofJson?_layer hread
  | alpha a => rw [ofJson?_alpha hread, h a List.mem_cons_self, Option.map_some]
  | matrix m => rw [ofJson?_matrix hread, Matrix.ofJson?_toJson h, Option.map_some]

/-- An edit that writes a number that is not finite is no edit when it is read. -/
theorem ofJson?_infinite {e : Edit} {x : Float32} (hx : x ∈ e.write.singles) (h : Decimal.isFinite x = false) :
    ofJson? e.toJson = none := by
  by_cases hread : readable Json.depthLimit e.toJson = true
  · obtain ⟨surface, write⟩ := e
    cases write with
    | alpha a =>
      obtain rfl : x = a := List.mem_singleton.mp hx
      rw [ofJson?_alpha hread, Json.ofSingle_infinite h]
      rfl
    | matrix m => rw [ofJson?_matrix hread, Matrix.ofJson?_infinite hx h, Option.map_none]
    | _ => cases hx
  · simp [ofJson?, hread]

end Edit

/-! ## Transactions -/

/-- The surface and the alpha of an edit whose alpha is not from zero to one. -/
def Edit.outside? (e : Edit) : Option (Surface × Float32) :=
  match e.write with
  | .alpha a => if 0.0 ≤ a ∧ a ≤ 1.0 then none else some (e.surface, a)
  | _ => none

namespace Transaction

theorem ofJson?_toJson {t : Transaction} (h : ∀ e ∈ t, ∀ x ∈ e.write.singles, (Json.ofSingle x).single? = some x) :
    ofJson? (toJson t) = some t := by
  have hread : readable Json.depthLimit (toJson t) = true := by
    refine Json.allReadable_of_mem fun j hj => ?_
    obtain ⟨e, he, rfl⟩ := List.mem_map.mp hj
    exact Edit.readable_toJson (h e he) 124
  rw [ofJson?, hread]
  refine Json.mapM_eq_some_of_forall₂ (List.forall₂_map_left_iff.mpr ?_)
  exact List.forall₂_same.mpr fun e he => Edit.ofJson?_toJson (h e he)

theorem ofJson?_infinite {t : Transaction} {e : Edit} (he : e ∈ t) {x : Float32} (hx : x ∈ e.write.singles)
    (h : Decimal.isFinite x = false) : ofJson? (toJson t) = none := by
  have hlist : (toJson t).list? Edit.ofJson? = none :=
    Json.mapM_eq_none (List.mem_map_of_mem he) (Edit.ofJson?_infinite hx h)
  rw [ofJson?, hlist]
  cases (toJson t).readable Json.depthLimit <;> rfl

/-- The first alpha outside zero to one is the fault of a transaction. -/
theorem validate_eq (t : Transaction) :
    validate t = match t.findSome? Edit.outside? with
      | some (s, a) => .error (.invalidAlpha s a)
      | none => .ok () := by
  induction t with
  | nil => rfl
  | cons e rest ih =>
    obtain ⟨surface, write⟩ := e
    cases write with
    | alpha a =>
      by_cases ha : 0.0 ≤ a ∧ a ≤ 1.0
      · have hvalid : (Write.alpha a).isValid = true := by simp [Write.isValid, ha]
        have hinside : Edit.outside? ⟨surface, .alpha a⟩ = none := if_pos ha
        rw [List.findSome?_cons, hinside, ← ih, validate]
        exact if_pos hvalid
      · have hinvalid : ¬ (Write.alpha a).isValid = true := by simpa [Write.isValid] using ha
        have houtside : Edit.outside? ⟨surface, .alpha a⟩ = some (surface, a) := if_neg ha
        rw [List.findSome?_cons, houtside, validate]
        exact if_neg hinvalid
    | _ => exact ih

/-- What the text of a transaction is read as, if the numeral of every finite number in it says that number. -/
theorem ofText_text (t : Transaction)
    (h : ∀ e ∈ t, ∀ x ∈ e.write.singles, Decimal.isFinite x = true → (Json.ofSingle x).single? = some x) :
    ofText (toJson t).text =
      if ∃ e ∈ t, ∃ x ∈ e.write.singles, Decimal.isFinite x = false then .error .unreadable
      else match t.findSome? Edit.outside? with
        | some (s, a) => .error (.invalidAlpha s a)
        | none => .ok t := by
  rw [ofText, Json.ofText?_text, Option.bind_some]
  by_cases hinfinite : ∃ e ∈ t, ∃ x ∈ e.write.singles, Decimal.isFinite x = false
  · rw [if_pos hinfinite]
    obtain ⟨e, he, x, hx, hnot⟩ := hinfinite
    rw [ofJson?_infinite he hx hnot]
  · have hread : ∀ e ∈ t, ∀ x ∈ e.write.singles, (Json.ofSingle x).single? = some x := by
      intro e he x hx
      refine h e he x hx ?_
      by_contra hnot
      exact hinfinite ⟨e, he, x, hx, Bool.eq_false_iff.mpr hnot⟩
    rw [if_neg hinfinite, ofJson?_toJson hread]
    simp only [validate_eq]
    cases t.findSome? Edit.outside? <;> rfl

/-- An alpha of two behind one of a half, before a position and a matrix. -/
theorem ofText_text_outside :
    let t : Transaction := [
      ⟨⟨1⟩, .alpha 0.5⟩, ⟨⟨2⟩, .alpha 2.0⟩, ⟨⟨1⟩, .position ⟨3, -4⟩⟩, ⟨⟨2⟩, .matrix ⟨1.0, 0.0, -0.25, 1e9⟩⟩]
    ofText (toJson t).text = .error (.invalidAlpha ⟨2⟩ 2.0) := by
  intro t
  rw [ofText_text t (by decide +kernel)]
  decide +kernel

end Transaction

end WindowTransitions
