import WindowTransitions.Lifecycle.Phase
import WindowTransitions.Proofs.Records

/-! Written forms of batches, triggers and configurations. A form is what `toJson` writes, up to the order of the
fields of any record in it and to fields that are left out at their standard values. Main statements: each of them
is read back from every form, and what `toJson` writes is one. -/

set_option autoImplicit false

namespace WindowTransitions

/-! ## Scalars -/

namespace Json

theorem below?_ofNat {bound n : Nat} (h : n < bound) : (ofNat n).below? bound = some n := by
  have hrange : (0 : Int) ≤ n ∧ (n : Int) < bound := by omega
  simp only [below?, ofNat, integer?, Decimal.Numeral.integer?_ofNat, Option.bind_eq_bind, Option.bind_some]
  rw [if_pos hrange, Int.toNat_natCast]

theorem uint64?_ofUInt64 (n : UInt64) : (ofUInt64 n).uint64? = some n := by
  rw [uint64?, ofUInt64, below?_ofNat n.toNat_lt, Option.map_some, UInt64.ofNat_toNat]

theorem uint32?_ofUInt32 (n : UInt32) : (ofUInt32 n).uint32? = some n := by
  rw [uint32?, ofUInt32, below?_ofNat n.toNat_lt, Option.map_some, UInt32.ofNat_toNat]

theorem int32?_ofInt32 (i : Int32) : (ofInt32 i).int32? = some i := by
  have hrange : Int32.minValue.toInt ≤ i.toInt ∧ i.toInt ≤ Int32.maxValue.toInt :=
    ⟨i.minValue_le_toInt, i.toInt_le⟩
  simp only [int32?, ofInt32, ofInt, integer?, Decimal.Numeral.integer?_ofInt, Option.bind_eq_bind, Option.bind_some]
  rw [if_pos hrange, Int32.ofInt_toInt]

theorem optional?_nullable {α : Type} {toJson : α → Json} {decode : Json → Option α}
    (hd : ∀ a, decode (toJson a) = some a) (hn : ∀ a, toJson a ≠ .null) (o : Option α) :
    optional? decode (nullable toJson o) = some o := by
  cases o with
  | none => rfl
  | some a =>
    rw [nullable, optional?, hd a, Option.map_some]
    exact hn a

theorem optional?_string (s : Option String) : optional? string? (nullable ofString s) = some s := by
  have hread : ∀ s : String, string? (ofString s) = some s := fun _ => rfl
  exact optional?_nullable hread (fun _ h => nomatch h) s

theorem reads_bool : Reads (Exactly .bool) bool? := .exactly fun _ => rfl

end Json

theorem Kind.ofJson?_toJson (k : Kind) : Kind.ofJson? k.toJson = some k := by
  cases k <;> rfl

theorem Mode.ofJson?_toJson (m : Mode) : Mode.ofJson? m.toJson = some m := by
  cases m <;> rfl

theorem Surface.ofJson?_toJson (s : Surface) : Surface.ofJson? s.toJson = some s := by
  rw [toJson, ofJson?, Json.uint64?_ofUInt64]
  rfl

theorem Token.ofJson?_toJson (t : Token) : Token.ofJson? t.toJson = some t := by
  rw [toJson, ofJson?, Json.uint64?_ofUInt64]
  rfl

theorem Flags.ofJson?_toJson (f : Flags) : Flags.ofJson? f.toJson = some f := by
  rw [toJson, ofJson?, Json.uint32?_ofUInt32]
  rfl

theorem Surface.optional?_nullable (s : Option Surface) :
    Json.optional? ofJson? (Json.nullable toJson s) = some s :=
  Json.optional?_nullable ofJson?_toJson (fun _ h => nomatch h) s

open Json (Exactly ListForm Slot RecordForm Reads)

/-! ## Geometry -/

namespace Point

def Form (p : Point) : Json → Prop :=
  RecordForm [
    ("x", Slot (Exactly Json.ofInt32) none p.x),
    ("y", Slot (Exactly Json.ofInt32) none p.y)]

theorem form_toJson (p : Point) : p.Form p.toJson :=
  .record (.cons ⟨rfl, .given rfl⟩ (.cons ⟨rfl, .given rfl⟩ .nil))

theorem reads_form : Reads Form ofJson? := by
  intro p j h
  obtain ⟨f, hf, hslot⟩ := h.fields? ["x", "y"] rfl (by decide) false
  have hx := (hslot 0 _ rfl).required (.exactly Json.int32?_ofInt32)
  have hy := (hslot 1 _ rfl).required (.exactly Json.int32?_ofInt32)
  simp only [ofJson?, hf, hx, hy, Option.bind_eq_bind, Option.bind_some]
  rfl

end Point

namespace Rect

def Form (r : Rect) : Json → Prop :=
  RecordForm [
    ("left", Slot (Exactly Json.ofInt32) none r.left),
    ("top", Slot (Exactly Json.ofInt32) none r.top),
    ("right", Slot (Exactly Json.ofInt32) none r.right),
    ("bottom", Slot (Exactly Json.ofInt32) none r.bottom)]

theorem form_toJson (r : Rect) : r.Form r.toJson :=
  .record (.cons ⟨rfl, .given rfl⟩ (.cons ⟨rfl, .given rfl⟩ (.cons ⟨rfl, .given rfl⟩ (.cons ⟨rfl, .given rfl⟩ .nil))))

theorem reads_form : Reads Form ofJson? := by
  intro r j h
  obtain ⟨f, hf, hslot⟩ := h.fields? ["left", "top", "right", "bottom"] rfl (by decide) false
  have hleft := (hslot 0 _ rfl).required (.exactly Json.int32?_ofInt32)
  have htop := (hslot 1 _ rfl).required (.exactly Json.int32?_ofInt32)
  have hright := (hslot 2 _ rfl).required (.exactly Json.int32?_ofInt32)
  have hbottom := (hslot 3 _ rfl).required (.exactly Json.int32?_ofInt32)
  simp only [ofJson?, hf, hleft, htop, hright, hbottom, Option.bind_eq_bind, Option.bind_some]
  rfl

end Rect

/-! ## Batches -/

namespace Participant

def Form (p : Participant) : Json → Prop :=
  RecordForm [
    ("surface", Slot (Exactly Surface.toJson) none p.surface),
    ("mode", Slot (Exactly Mode.toJson) none p.mode),
    ("parent", Slot (Exactly (Json.nullable Surface.toJson)) (some none) p.parent),
    ("start_bounds", Slot Rect.Form (some Rect.zero) p.startBounds),
    ("end_bounds", Slot Rect.Form (some Rect.zero) p.endBounds),
    ("start_rel_offset", Slot Point.Form (some Point.origin) p.startOffset),
    ("end_rel_offset", Slot Point.Form (some Point.origin) p.endOffset),
    ("flags", Slot (Exactly Flags.toJson) (some Flags.none) p.flags)]

theorem form_toJson (p : Participant) : p.Form p.toJson :=
  .record <|
    .cons ⟨rfl, .given rfl⟩ <| .cons ⟨rfl, .given rfl⟩ <| .cons ⟨rfl, .given rfl⟩ <|
    .cons ⟨rfl, .given p.startBounds.form_toJson⟩ <| .cons ⟨rfl, .given p.endBounds.form_toJson⟩ <|
    .cons ⟨rfl, .given p.startOffset.form_toJson⟩ <| .cons ⟨rfl, .given p.endOffset.form_toJson⟩ <|
    .cons ⟨rfl, .given rfl⟩ .nil

theorem reads_form : Reads Form ofJson? := by
  intro p j h
  obtain ⟨f, hf, hslot⟩ := h.fields? fieldNames rfl (by decide) false
  have hsurface := (hslot 0 _ rfl).required (.exactly Surface.ofJson?_toJson)
  have hmode := (hslot 1 _ rfl).required (.exactly Mode.ofJson?_toJson)
  have hparent := (hslot 2 _ rfl).defaulted (.exactly Surface.optional?_nullable)
  have hstart := (hslot 3 _ rfl).defaulted Rect.reads_form
  have hend := (hslot 4 _ rfl).defaulted Rect.reads_form
  have hfrom := (hslot 5 _ rfl).defaulted Point.reads_form
  have hto := (hslot 6 _ rfl).defaulted Point.reads_form
  have hflags := (hslot 7 _ rfl).defaulted (.exactly Flags.ofJson?_toJson)
  simp only [ofJson?, hf, hsurface, hmode, hparent, hstart, hend, hfrom, hto, hflags, Option.bind_eq_bind,
    Option.bind_some]
  rfl

end Participant

namespace Batch

def Form (b : Batch) : Json → Prop :=
  RecordForm [
    ("kind", Slot (Exactly Kind.toJson) none b.kind),
    ("root", Slot (Exactly (Json.nullable Surface.toJson)) (some none) b.root),
    ("root_offset", Slot Point.Form (some Point.origin) b.rootOffset),
    ("changes", Slot (ListForm Participant.Form) (some []) b.participants)]

theorem form_toJson (b : Batch) : b.Form b.toJson := by
  have hparticipants : ListForm Participant.Form b.participants (.array (b.participants.map Participant.toJson)) :=
    ⟨_, List.forall₂_map_right_iff.mpr (List.forall₂_same.mpr fun p _ => p.form_toJson), rfl⟩
  exact .record <|
    .cons ⟨rfl, .given rfl⟩ <| .cons ⟨rfl, .given rfl⟩ <| .cons ⟨rfl, .given b.rootOffset.form_toJson⟩ <|
    .cons ⟨rfl, .given hparticipants⟩ .nil

theorem reads_form : Reads Form ofJson? := by
  intro b j h
  obtain ⟨f, hf, hslot⟩ := h.fields? ["kind", "root", "root_offset", "changes"] rfl (by decide) false
  have hkind := (hslot 0 _ rfl).required (.exactly Kind.ofJson?_toJson)
  have hroot := (hslot 1 _ rfl).defaulted (.exactly Surface.optional?_nullable)
  have hoffset := (hslot 2 _ rfl).defaulted Point.reads_form
  have hparticipants := (hslot 3 _ rfl).defaulted Participant.reads_form.list
  simp only [ofJson?, hf, hkind, hroot, hoffset, hparticipants, Option.bind_eq_bind, Option.bind_some]
  rfl

end Batch

/-! ## Triggers -/

namespace Trigger

def Form (t : Trigger) : Json → Prop :=
  RecordForm [
    ("task_id", Slot (Exactly Json.ofUInt32) none t.task),
    ("display_id", Slot (Exactly Json.ofUInt32) (some 0) t.display),
    ("visible", Slot (Exactly Json.bool) (some false) t.visible),
    ("top_activity", Slot (Exactly (Json.nullable Json.ofString)) (some none) t.topActivity)]

theorem form_toJson (t : Trigger) : t.Form t.toJson :=
  .record (.cons ⟨rfl, .given rfl⟩ (.cons ⟨rfl, .given rfl⟩ (.cons ⟨rfl, .given rfl⟩ (.cons ⟨rfl, .given rfl⟩ .nil))))

theorem reads_form : Reads Form ofJson? := by
  intro t j h
  obtain ⟨f, hf, hslot⟩ := h.fields? ["task_id", "display_id", "visible", "top_activity"] rfl (by decide) false
  have htask := (hslot 0 _ rfl).required (.exactly Json.uint32?_ofUInt32)
  have hdisplay := (hslot 1 _ rfl).defaulted (.exactly Json.uint32?_ofUInt32)
  have hvisible := (hslot 2 _ rfl).defaulted Json.reads_bool
  have hactivity := (hslot 3 _ rfl).defaulted (.exactly Json.optional?_string)
  simp only [ofJson?, hf, htask, hdisplay, hvisible, hactivity, Option.bind_eq_bind, Option.bind_some]
  rfl

end Trigger

/-! ## Configurations -/

namespace Config

def Form (c : Config) : Json → Prop :=
  let standard : Config := {}
  RecordForm [
    ("enabled", Slot (Exactly Json.bool) (some standard.enabled) c.enabled),
    ("default_fade_duration_ms", Slot (Exactly Json.ofUInt64) (some standard.fadeDuration) c.fadeDuration),
    ("frame_interval_ms", Slot (Exactly Json.ofUInt64) (some standard.frameInterval) c.frameInterval)]

theorem form_toJson (c : Config) : c.Form c.toJson :=
  .record (.cons ⟨rfl, .given rfl⟩ (.cons ⟨rfl, .given rfl⟩ (.cons ⟨rfl, .given rfl⟩ .nil)))

theorem reads_form : Reads Form ofJson? := by
  intro c j h
  obtain ⟨f, hf, hslot⟩ := h.fields? fieldNames rfl (by decide) true
  have henabled := (hslot 0 _ rfl).defaulted Json.reads_bool
  have hfade := (hslot 1 _ rfl).defaulted (.exactly Json.uint64?_ofUInt64)
  have hframe := (hslot 2 _ rfl).defaulted (.exactly Json.uint64?_ofUInt64)
  simp only [ofJson?, hf, henabled, hfade, hframe, Option.bind_eq_bind, Option.bind_some]
  rfl

end Config

end WindowTransitions
