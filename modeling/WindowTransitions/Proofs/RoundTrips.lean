import WindowTransitions.Container
import WindowTransitions.Proofs.Forms
import WindowTransitions.Proofs.Reading

/-! Texts that come back. Container transactions and events are tagged records, of which every number has to be
readable before any is decoded. Main statement: batches, triggers and configurations are read back from the text of
every form, container transactions and events from the text that is written. -/

set_option autoImplicit false

namespace WindowTransitions

namespace Json

/-! ## Readable scalars -/

theorem readable_ofNat {n : Nat} (h : n < UInt64.size) (depth : Nat) : readable depth (ofNat n) = true := by
  have hword : (Decimal.Numeral.ofNat n).isWord = true := by
    simpa [Decimal.Numeral.isWord, Decimal.Numeral.ofNat] using h
  rw [ofNat, readable, Decimal.Numeral.single?, if_pos hword]
  rfl

theorem readable_ofInt32 (i : Int32) (depth : Nat) : readable depth (ofInt32 i) = true := by
  have hlow := i.le_toInt
  have hhigh := i.toInt_lt
  have hword : (Decimal.Numeral.ofInt i.toInt).isWord = true := by
    have hsize : i.toInt.natAbs < if decide (i.toInt < 0) then UInt64.size / 2 + 1 else UInt64.size := by
      rw [UInt64.size]
      split <;> omega
    exact decide_eq_true hsize
  rw [ofInt32, ofInt, readable, Decimal.Numeral.single?, if_pos hword]
  rfl

theorem readable_ofUInt64 (n : UInt64) (depth : Nat) : readable depth (ofUInt64 n) = true :=
  readable_ofNat n.toNat_lt depth

theorem readable_ofUInt32 (n : UInt32) (depth : Nat) : readable depth (ofUInt32 n) = true :=
  readable_ofNat (Nat.lt_trans n.toNat_lt (by decide)) depth

end Json

open Json (readable)

theorem Surface.readable_toJson (s : Surface) (depth : Nat) : readable depth s.toJson = true :=
  Json.readable_ofUInt64 s.number depth

theorem Point.readable_toJson (p : Point) (depth : Nat) : readable (depth + 1) p.toJson = true := by
  refine Json.readable_record ?_
  simp [Json.readable_ofInt32]

theorem Rect.readable_toJson (r : Rect) (depth : Nat) : readable (depth + 1) r.toJson = true := by
  refine Json.readable_record ?_
  simp [Json.readable_ofInt32]

/-! ## Container transactions -/

namespace Container

theorem ofJson?_toJson (c : Container) : ofJson? c.toJson = some c := by
  rw [toJson, ofJson?, Json.uint32?_ofUInt32]
  rfl

namespace Edit

theorem readable_toJson (e : Edit) (depth : Nat) : readable (depth + 2) e.toJson = true := by
  obtain ⟨container, change⟩ := e
  have hcontainer := Json.readable_ofUInt32 container.number (depth + 1)
  cases change with
  | order onTop => exact Json.readable_record (by simpa [Container.toJson, readable, Json.ofString] using hcontainer)
  | bounds rect =>
    have hrect := rect.readable_toJson depth
    exact Json.readable_record (by simpa [Container.toJson, readable, Json.ofString, hrect] using hcontainer)
  | hidden hidden => exact Json.readable_record (by simpa [Container.toJson, readable, Json.ofString] using hcontainer)

/-- The record behind the tag of an edit is read field by field. -/
theorem edit?_record {α : Type} {name : String} (hname : "container" ≠ name) (decode : Json → Option α) (value : Json)
    (change : α → Change) (c : Container) :
    (do
      let f ← (Json.record [("container", c.toJson), (name, value)]).fields? ["container", name] false
      return { container := ← f.required 0 Container.ofJson?, change := change (← f.required 1 decode) }) =
      (decode value).map fun a => (⟨c, change a⟩ : Edit) := by
  have hfields : (Json.record [("container", c.toJson), (name, value)]).fields? ["container", name] false =
      some ⟨[some c.toJson, some value], false⟩ := Json.fields?_record [(_, c.toJson), (_, value)] (by simpa) false
  rw [hfields, Option.bind_eq_bind, Option.bind_some, Json.Fields.required_of_slot rfl,
    Json.Fields.required_of_slot rfl, c.ofJson?_toJson]
  cases decode value <;> rfl

theorem ofJson?_tagged {j rest : Json} {op : String} (hread : readable Json.depthLimit j = true)
    (htag : j.tagged? "op" = some (op, rest)) : ofJson? j = ofFields? op rest := by
  simp [ofJson?, hread, htag]

theorem ofJson?_toJson (e : Edit) : ofJson? e.toJson = some e := by
  obtain ⟨container, change⟩ := e
  have hread : readable Json.depthLimit (toJson ⟨container, change⟩) = true := readable_toJson ⟨container, change⟩ 125
  cases change with
  | order onTop =>
    have htag := Json.tagged?_record "op" "reorder"
      [("container", container.toJson), ("on_top", .bool onTop)] (by simp)
    rw [ofJson?_tagged hread htag]
    simp only [ofFields?]
    exact edit?_record (by simp) Json.bool? (.bool onTop) .order container
  | bounds rect =>
    have htag := Json.tagged?_record "op" "set_bounds"
      [("container", container.toJson), ("bounds", rect.toJson)] (by simp)
    rw [ofJson?_tagged hread htag]
    simp only [ofFields?]
    rw [edit?_record (by simp), Rect.reads_form rect _ rect.form_toJson, Option.map_some]
  | hidden hidden =>
    have htag := Json.tagged?_record "op" "set_hidden"
      [("container", container.toJson), ("hidden", .bool hidden)] (by simp)
    rw [ofJson?_tagged hread htag]
    simp only [ofFields?]
    exact edit?_record (by simp) Json.bool? (.bool hidden) .hidden container

end Edit

theorem Transaction.ofJson?_toJson (t : Transaction) : ofJson? (toJson t) = some t := by
  have hread : readable Json.depthLimit (toJson t) = true := by
    refine Json.allReadable_of_mem fun j hj => ?_
    obtain ⟨e, _, rfl⟩ := List.mem_map.mp hj
    exact e.readable_toJson 124
  rw [ofJson?, hread]
  refine Json.mapM_eq_some_of_forall₂ (List.forall₂_map_left_iff.mpr ?_)
  exact List.forall₂_same.mpr fun e _ => e.ofJson?_toJson

end Container

/-! ## Events -/

namespace Event

/-- The numbers of the event are words of 64 bits. -/
def Fits : Event → Prop
  | .started _ _ assigned => ∀ h ∈ assigned, h.index < UInt64.size
  | .dispatched _ owner fades => (∀ h ∈ owner, h.index < UInt64.size) ∧ fades < UInt64.size
  | _ => True

theorem readable_toJson {e : Event} (he : e.Fits) (depth : Nat) : readable (depth + 1) e.toJson = true := by
  have htoken := Json.readable_ofUInt64 e.token.number depth
  have hhandler : ∀ h : Option HandlerId, (∀ i ∈ h, i.index < UInt64.size) →
      readable depth (Json.nullable HandlerId.toJson h) = true := by
    rintro (_ | h) hh
    · rw [Json.nullable, readable]
    · exact Json.readable_ofNat (hh h rfl) depth
  cases e with
  | started token kind assigned =>
    have hassigned := hhandler assigned he
    exact Json.readable_record (by simpa [readable, Json.ofString, Token.toJson, Kind.toJson, hassigned] using htoken)
  | phaseChanged token source target =>
    exact Json.readable_record (by simpa [readable, Json.ofString, Token.toJson, Phase.toJson] using htoken)
  | dispatched token owner fades =>
    have howner := hhandler owner he.1
    have hfades := Json.readable_ofNat he.2 depth
    exact Json.readable_record (by simpa [readable, Json.ofString, Token.toJson, howner, hfades] using htoken)
  | finished token =>
    exact Json.readable_record (by simpa [readable, Json.ofString, Token.toJson] using htoken)

theorem ofJson?_tagged {j rest : Json} {name : String} (hread : readable Json.depthLimit j = true)
    (htag : j.tagged? "event" = some (name, rest)) : ofJson? j = ofFields? name rest := by
  simp [ofJson?, hread, htag]

theorem optional?_handler {h : Option HandlerId} (hh : ∀ i ∈ h, i.index < UInt64.size) :
    Json.optional? HandlerId.ofJson? (Json.nullable HandlerId.toJson h) = some h := by
  cases h with
  | none => rfl
  | some i =>
    have hread : HandlerId.ofJson? i.toJson = some i := by
      rw [HandlerId.toJson, HandlerId.ofJson?, Json.below?_ofNat (hh i rfl)]
      rfl
    rw [Json.nullable, Json.optional?, hread, Option.map_some]
    intro h
    cases h

theorem looseChoice?_kind (k : Kind) : Json.looseChoice? Kind.names k.toJson = some k := by
  cases k <;> rfl

theorem looseChoice?_phase (p : Phase) : Json.looseChoice? Phase.names p.toJson = some p := by
  cases p <;> rfl

theorem ofJson?_toJson {e : Event} (he : e.Fits) : ofJson? e.toJson = some e := by
  have hread : readable Json.depthLimit e.toJson = true := readable_toJson he 126
  cases e with
  | started token kind assigned =>
    obtain ⟨htag, hfields⟩ := Json.tagged_record "event" "started"
      [("token", token.toJson), ("kind", kind.toJson), ("assigned", Json.nullable HandlerId.toJson assigned)] (by simp)
    simp only [List.map_cons, List.map_nil] at hfields
    rw [ofJson?_tagged hread htag]
    simp only [ofFields?]
    rw [hfields, Option.bind_eq_bind, Option.bind_some, Json.Fields.required_of_slot rfl,
      Json.Fields.required_of_slot rfl, Json.Fields.optional_of_slot rfl, token.ofJson?_toJson, looseChoice?_kind,
      optional?_handler he]
    rfl
  | phaseChanged token source target =>
    obtain ⟨htag, hfields⟩ := Json.tagged_record "event" "state_changed"
      [("token", token.toJson), ("from", source.toJson), ("to", target.toJson)] (by simp)
    simp only [List.map_cons, List.map_nil] at hfields
    rw [ofJson?_tagged hread htag]
    simp only [ofFields?]
    rw [hfields, Option.bind_eq_bind, Option.bind_some, Json.Fields.required_of_slot rfl,
      Json.Fields.required_of_slot rfl, Json.Fields.required_of_slot rfl, token.ofJson?_toJson, looseChoice?_phase,
      looseChoice?_phase]
    rfl
  | dispatched token owner fades =>
    obtain ⟨htag, hfields⟩ := Json.tagged_record "event" "dispatched"
      [("token", token.toJson), ("owner", Json.nullable HandlerId.toJson owner), ("default_animations", .ofNat fades)]
      (by simp)
    simp only [List.map_cons, List.map_nil] at hfields
    rw [ofJson?_tagged hread htag]
    simp only [ofFields?]
    rw [hfields, Option.bind_eq_bind, Option.bind_some, Json.Fields.required_of_slot rfl,
      Json.Fields.optional_of_slot rfl, Json.Fields.required_of_slot rfl, token.ofJson?_toJson,
      optional?_handler he.1, Json.below?_ofNat he.2]
    rfl
  | finished token =>
    obtain ⟨htag, hfields⟩ := Json.tagged_record "event" "finished" [("token", token.toJson)] (by simp)
    simp only [List.map_cons, List.map_nil] at hfields
    rw [ofJson?_tagged hread htag]
    simp only [ofFields?]
    rw [hfields, Option.bind_eq_bind, Option.bind_some, Json.Fields.required_of_slot rfl, token.ofJson?_toJson]
    rfl

end Event

/-! ## Texts -/

/-- Whatever form of a value the text spells, it is read as that value. -/
theorem reads_text {α : Type} {form : α → Json → Prop} {decode : Json → Option α} (h : Json.Reads form decode) {a : α}
    {j : Json} (hj : form a j) : (Json.ofText? j.text).bind decode = some a := by
  rw [Json.ofText?_text, Option.bind_some, h a j hj]

theorem Config.ofText_form {c : Config} {j : Json} (hj : c.Form j) : Config.ofText j.text = c.validate := by
  rw [ofText, reads_text reads_form hj]

/-- Batches, triggers and configurations come back from the text of every form they have, among them the one that is
written; container transactions and events come back from the text that is written. A configuration is accepted
unless it has no frame interval. -/
theorem texts_read_back :
    (∀ b : Batch, b.Form b.toJson ∧ ∀ j, b.Form j → (Json.ofText? j.text).bind Batch.ofJson? = some b) ∧
    (∀ t : Trigger, t.Form t.toJson ∧ ∀ j, t.Form j → (Json.ofText? j.text).bind Trigger.ofJson? = some t) ∧
    (∀ c : Config, c.Form c.toJson ∧ ∀ j, c.Form j → (Json.ofText? j.text).bind Config.ofJson? = some c ∧
      (Config.ofText j.text = .ok c ↔ c.frameInterval ≠ 0)) ∧
    (∀ t : Container.Transaction,
      (Json.ofText? (Container.Transaction.toJson t).text).bind Container.Transaction.ofJson? = some t) ∧
    (∀ e : Event, e.Fits → (Json.ofText? e.toJson.text).bind Event.ofJson? = some e) := by
  refine ⟨fun b => ⟨b.form_toJson, fun j hj => reads_text Batch.reads_form hj⟩,
    fun t => ⟨t.form_toJson, fun j hj => reads_text Trigger.reads_form hj⟩,
    fun c => ⟨c.form_toJson, fun j hj => ⟨reads_text Config.reads_form hj, ?_⟩⟩, fun t => ?_, fun e he => ?_⟩
  · rw [Config.ofText_form hj, Config.validate]
    split <;> simp [*]
  · rw [Json.ofText?_text, Option.bind_some, Container.Transaction.ofJson?_toJson]
  · rw [Json.ofText?_text, Option.bind_some, Event.ofJson?_toJson he]

/-- A batch and a trigger with less than all their fields and out of order, an empty configuration, and an event. -/
theorem texts_read_back_shuffled :
    (Json.ofText? (Json.record [
      ("changes", .array [.record [("mode", .ofString "to_back"), ("surface", .ofNat 5)]]),
      ("kind", .ofString "close")]).text).bind Batch.ofJson? =
        some { kind := .closing, participants := [{ surface := ⟨5⟩, mode := .toBack }] } ∧
    (Json.ofText? (Json.record [("visible", .bool true), ("task_id", .ofNat 7)]).text).bind Trigger.ofJson? =
        some { task := 7, visible := true } ∧
    Config.ofText (Json.record []).text = .ok {} ∧
    (Json.ofText? (Event.dispatched ⟨2⟩ (some ⟨1⟩) 0).toJson.text).bind Event.ofJson? =
        some (.dispatched ⟨2⟩ (some ⟨1⟩) 0) := by
  obtain ⟨hbatch, htrigger, hconfig, _, hevent⟩ := texts_read_back
  refine ⟨(hbatch _).2 _ ?_, (htrigger _).2 _ ?_, ((hconfig {}).2 _ ?_).2.mpr (by decide), hevent _ ?_⟩
  · have hparticipant : Participant.Form { surface := ⟨5⟩, mode := .toBack }
        (.record [("mode", .ofString "to_back"), ("surface", .ofNat 5)]) := by
      refine ⟨[("surface", some (.ofNat 5)), ("mode", some (.ofString "to_back")), ("parent", none),
        ("start_bounds", none), ("end_bounds", none), ("start_rel_offset", none), ("end_rel_offset", none),
        ("flags", none)], ?_, _, .swap _ _ _, rfl⟩
      exact .cons ⟨rfl, .given rfl⟩ <| .cons ⟨rfl, .given rfl⟩ <| .cons ⟨rfl, .leftOut rfl⟩ <|
        .cons ⟨rfl, .leftOut rfl⟩ <| .cons ⟨rfl, .leftOut rfl⟩ <| .cons ⟨rfl, .leftOut rfl⟩ <|
        .cons ⟨rfl, .leftOut rfl⟩ <| .cons ⟨rfl, .leftOut rfl⟩ .nil
    refine ⟨[("kind", some (.ofString "close")), ("root", none), ("root_offset", none),
      ("changes", some (.array [.record [("mode", .ofString "to_back"), ("surface", .ofNat 5)]]))], ?_, _,
      .swap _ _ _, rfl⟩
    exact .cons ⟨rfl, .given rfl⟩ <| .cons ⟨rfl, .leftOut rfl⟩ <| .cons ⟨rfl, .leftOut rfl⟩ <|
      .cons ⟨rfl, .given ⟨_, .cons hparticipant .nil, rfl⟩⟩ .nil
  · refine ⟨[("task_id", some (.ofNat 7)), ("display_id", none), ("visible", some (.bool true)),
      ("top_activity", none)], ?_, _, .swap _ _ _, rfl⟩
    exact .cons ⟨rfl, .given rfl⟩ <| .cons ⟨rfl, .leftOut rfl⟩ <| .cons ⟨rfl, .given rfl⟩ <|
      .cons ⟨rfl, .leftOut rfl⟩ .nil
  · refine ⟨[("enabled", none), ("default_fade_duration_ms", none), ("frame_interval_ms", none)], ?_, _, .nil, rfl⟩
    exact .cons ⟨rfl, .leftOut rfl⟩ <| .cons ⟨rfl, .leftOut rfl⟩ <| .cons ⟨rfl, .leftOut rfl⟩ .nil
  · exact ⟨fun h hh => Option.some.inj hh ▸ by decide, by decide⟩

end WindowTransitions
