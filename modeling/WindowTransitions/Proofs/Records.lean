import Mathlib.Data.List.Forall2
import Mathlib.Data.List.Nodup
import WindowTransitions.Json.Number
import WindowTransitions.Json.Shape

/-! Written forms of records. A record may be written with its fields in any order, and a field that has a value
when it is left out may be missing if it has that value. Main statement: whatever order its fields are written in,
a decoder sees in the slot of each field one of the forms that the field allows. -/

set_option autoImplicit false

namespace WindowTransitions.Json

/-! ## Forms -/

/-- The only form of a value. -/
def Exactly {α : Type} (toJson : α → Json) (a : α) (j : Json) : Prop := j = toJson a

/-- A list by the forms of its elements. -/
def ListForm {α : Type} (form : α → Json → Prop) (as : List α) (j : Json) : Prop :=
  ∃ js, List.Forall₂ form as js ∧ j = .array js

/-- What a field of value `a` may have in its slot: a form of `a`, or nothing if `a` is what it has when left out. -/
inductive Slot {α : Type} (form : α → Json → Prop) (standard : Option α) (a : α) : Option Json → Prop where
  | given {j : Json} (h : form a j) : Slot form standard a (some j)
  | leftOut (h : standard = some a) : Slot form standard a none

/-- The members of a record that leaves out the fields without a value. -/
def present (fields : List (String × Option Json)) : List (String × Json) :=
  fields.flatMap fun f => (f.2.map (f.1, ·)).toList

/-- A record of `fields`, each with one of the slots it allows, in any order. -/
def RecordForm (fields : List (String × (Option Json → Prop))) (j : Json) : Prop :=
  ∃ written : List (String × Option Json), List.Forall₂ (fun f w => f.1 = w.1 ∧ f.2 w.2) fields written ∧
    ∃ members, members.Perm (present written) ∧ j = .record members

/-! ## Reading -/

/-- Every form of a value is read as that value. -/
def Reads {α : Type} (form : α → Json → Prop) (decode : Json → Option α) : Prop :=
  ∀ a j, form a j → decode j = some a

theorem Reads.exactly {α : Type} {toJson : α → Json} {decode : Json → Option α}
    (h : ∀ a, decode (toJson a) = some a) : Reads (Exactly toJson) decode := by
  rintro a _ rfl
  exact h a

theorem getElem?_of_forall₂ {α β : Type} {r : α → β → Prop} {as : List α} {bs : List β} (h : List.Forall₂ r as bs)
    {i : Nat} {a : α} (hi : as[i]? = some a) : ∃ b, bs[i]? = some b ∧ r a b := by
  induction h generalizing i with
  | nil => cases hi
  | cons hab _ ih =>
    cases i with
    | zero => exact ⟨_, rfl, Option.some.inj hi ▸ hab⟩
    | succ i => exact ih hi

theorem mapM_eq_some_of_forall₂ {α β : Type} {f : α → Option β} {as : List α} {bs : List β}
    (h : List.Forall₂ (fun a b => f a = some b) as bs) : as.mapM f = some bs := by
  induction h with
  | nil => rfl
  | cons hab _ ih => simp [List.mapM_cons, hab, ih]

theorem mapM_eq_none {α β : Type} {f : α → Option β} {as : List α} {a : α} (ha : a ∈ as) (h : f a = none) :
    as.mapM f = none := by
  induction as with
  | nil => cases ha
  | cons first as ih =>
    rcases List.mem_cons.mp ha with rfl | ha
    · simp [List.mapM_cons, h]
    · cases hf : f first <;> simp [List.mapM_cons, hf, ih ha]

theorem Reads.list {α : Type} {form : α → Json → Prop} {decode : Json → Option α} (h : Reads form decode) :
    Reads (ListForm form) (list? decode) := by
  rintro as _ ⟨js, hjs, rfl⟩
  exact mapM_eq_some_of_forall₂ (hjs.flip.imp fun j a => h a j)

theorem Fields.required_of_slot {α : Type} {decode : Json → Option α} {f : Fields} {i : Nat} {j : Json}
    (hs : f.slot i = some j) : f.required i decode = decode j := by
  rw [required, hs]
  rfl

theorem Fields.optional_of_slot {α : Type} {decode : Json → Option α} {f : Fields} {i : Nat} {j : Json}
    (hs : f.slot i = some j) : f.optional i decode = optional? decode j := by
  rw [optional, hs]

theorem Slot.required {α : Type} {form : α → Json → Prop} {decode : Json → Option α} (hd : Reads form decode)
    {a : α} {f : Fields} {i : Nat} (h : Slot form none a (f.slot i)) : f.required i decode = some a := by
  generalize hs : f.slot i = s at h
  cases h with
  | given hj => rw [Fields.required_of_slot hs, hd a _ hj]
  | leftOut h => cases h

theorem Slot.defaulted {α : Type} {form : α → Json → Prop} {decode : Json → Option α} (hd : Reads form decode)
    {a standard : α} {f : Fields} {i : Nat} (h : Slot form (some standard) a (f.slot i)) :
    f.defaulted i decode standard = some a := by
  rw [Fields.defaulted]
  generalize f.slot i = s at h
  cases h with
  | given hj => exact hd a _ hj
  | leftOut h => exact h

/-! ## The fields of a record -/

theorem mem_present {fields : List (String × Option Json)} {m : String × Json} (h : m ∈ present fields) :
    m.1 ∈ fields.map (·.1) := by
  obtain ⟨f, hf, hm⟩ := List.mem_flatMap.mp h
  obtain ⟨j, _, rfl⟩ : ∃ j, f.2 = some j ∧ (f.1, j) = m := by simpa using hm
  exact List.mem_map_of_mem hf

/-- Only the field of a name is written under it. -/
theorem present_filter {fields : List (String × Option Json)} (hn : (fields.map (·.1)).Nodup)
    {f : String × Option Json} (hf : f ∈ fields) :
    (present fields).filter (·.1 = f.1) = (f.2.map (f.1, ·)).toList := by
  induction fields with
  | nil => cases hf
  | cons first fields ih =>
    obtain ⟨hfirst, hn⟩ := List.nodup_cons.mp hn
    rw [present, List.flatMap_cons, List.filter_append]
    rcases List.mem_cons.mp hf with rfl | hf
    · have hrest : (present fields).filter (·.1 = f.1) = [] := by
        rw [List.filter_eq_nil_iff]
        intro m hm heq
        have hname := mem_present hm
        rw [of_decide_eq_true heq] at hname
        exact hfirst hname
      rw [present] at hrest
      rw [hrest, List.append_nil, List.filter_eq_self]
      intro m hm
      obtain ⟨j, _, rfl⟩ : ∃ j, f.2 = some j ∧ (f.1, j) = m := by simpa using hm
      exact decide_eq_true rfl
    · have hne : first.1 ≠ f.1 := fun heq => hfirst (List.mem_map.mpr ⟨f, hf, heq.symm⟩)
      have hnone : (first.2.map (first.1, ·)).toList.filter (·.1 = f.1) = [] := by
        rw [List.filter_eq_nil_iff]
        intro m hm heq
        obtain ⟨j, _, rfl⟩ : ∃ j, first.2 = some j ∧ (first.1, j) = m := by simpa using hm
        exact hne (of_decide_eq_true heq)
      rw [hnone, List.nil_append]
      exact ih hn hf

theorem slot?_of_perm {fields : List (String × Option Json)} (hn : (fields.map (·.1)).Nodup)
    {members : List (String × Json)} (hm : members.Perm (present fields)) {f : String × Option Json}
    (hf : f ∈ fields) : slot? (members.map fun m => (some m.1, m.2)) f.1 = some f.2 := by
  have hperm := hm.filter (·.1 = f.1)
  rw [present_filter hn hf] at hperm
  have hfilter : (members.map fun m => ((some m.1, m.2) : Literal × Json)).filter (·.1 = some f.1) =
      (members.filter (·.1 = f.1)).map fun m => (some m.1, m.2) := by
    rw [List.filter_map]
    congr 1
    exact List.filter_congr fun m _ => by simp
  rw [slot?, hfilter]
  cases hs : f.2 with
  | none =>
    rw [hs] at hperm
    rw [hperm.eq_nil]
    rfl
  | some j =>
    rw [hs] at hperm
    rw [List.perm_singleton.mp hperm]
    rfl

/-- Whatever order the fields are written in, each stands in its slot. -/
theorem fields?_of_perm {fields : List (String × Option Json)} (hn : (fields.map (·.1)).Nodup)
    {members : List (String × Json)} (hm : members.Perm (present fields)) (closed : Bool) :
    fields? (fields.map (·.1)) closed (.record members) = some ⟨fields.map (·.2), false⟩ := by
  have hkeys : (members.map fun m => ((some m.1, m.2) : Literal × Json)).mapM (·.1) = some (members.map (·.1)) := by
    refine mapM_eq_some_of_forall₂ ?_
    rw [List.forall₂_map_left_iff, List.forall₂_map_right_iff]
    exact List.forall₂_same.mpr fun _ _ => rfl
  have hslots : (fields.map (·.1)).mapM (slot? (members.map fun m => (some m.1, m.2))) = some (fields.map (·.2)) := by
    refine mapM_eq_some_of_forall₂ ?_
    rw [List.forall₂_map_left_iff, List.forall₂_map_right_iff]
    exact List.forall₂_same.mpr fun f hf => slot?_of_perm hn hm hf
  have hknown : (members.map (·.1)).any (!(fields.map (·.1)).contains ·) = false := by
    rw [List.any_eq_false]
    intro name hname
    obtain ⟨m, hmem, rfl⟩ := List.mem_map.mp hname
    simpa using mem_present (hm.mem_iff.mp hmem)
  simp only [record, fields?, hkeys, hslots, hknown, Bool.and_false, Option.bind_eq_bind, Option.bind_some]
  rfl

/-- A decoder sees in the slot of each field one of the forms that the field allows. -/
theorem RecordForm.fields? {fields : List (String × (Option Json → Prop))} {j : Json} (h : RecordForm fields j)
    (names : List String) (hnames : fields.map (·.1) = names) (hn : names.Nodup) (closed : Bool) :
    ∃ f : Fields, Json.fields? names closed j = some f ∧
      ∀ (i : Nat) (field : String × (Option Json → Prop)), fields[i]? = some field → field.2 (f.slot i) := by
  obtain ⟨written, hwritten, members, hperm, rfl⟩ := h
  have hwrote : written.map (·.1) = names := by
    rw [← hnames, ← List.forall₂_eq_eq_eq, List.forall₂_map_left_iff, List.forall₂_map_right_iff]
    exact (hwritten.imp fun _ _ h => h.1.symm).flip
  subst hwrote
  refine ⟨_, fields?_of_perm hn hperm closed, fun i field hi => ?_⟩
  obtain ⟨w, hw, _, hallowed⟩ := getElem?_of_forall₂ hwritten hi
  rwa [Fields.slot, List.getElem?_map, hw]

/-! ## What is written for a record -/

theorem present_all (members : List (String × Json)) : present (members.map fun m => (m.1, some m.2)) = members := by
  induction members with
  | nil => rfl
  | cons m members ih =>
    rw [present] at ih
    rw [present, List.map_cons, List.flatMap_cons, ih]
    rfl

theorem RecordForm.record {fields : List (String × (Option Json → Prop))} {members : List (String × Json)}
    (h : List.Forall₂ (fun f m => f.1 = m.1 ∧ f.2 (some m.2)) fields members) :
    RecordForm fields (.record members) := by
  refine ⟨members.map fun m => (m.1, some m.2), ?_, members, ?_, rfl⟩
  · exact List.forall₂_map_right_iff.mpr h
  · rw [present_all]

theorem fields?_record (members : List (String × Json)) (hn : (members.map (·.1)).Nodup) (closed : Bool) :
    fields? (members.map (·.1)) closed (.record members) = some ⟨members.map fun m => some m.2, false⟩ := by
  have hnames : (members.map fun m => (m.1, some m.2)).map (·.1) = members.map (·.1) := by
    rw [List.map_map]
    rfl
  have hall := fields?_of_perm (hnames ▸ hn) (List.Perm.of_eq (present_all members).symm) closed
  rw [hnames, List.map_map] at hall
  exact hall

/-- A tagged record is read by its tag and the record behind it. -/
theorem tagged?_record (tag name : String) (members : List (String × Json)) (hn : tag ∉ members.map (·.1)) :
    tagged? tag (.record ((tag, .ofString name) :: members)) = some (name, .record members) := by
  have hrest : ∀ m ∈ members.map (fun m => ((some m.1, m.2) : Literal × Json)), m.1 ≠ some tag := by
    intro m hm heq
    obtain ⟨m, hmem, rfl⟩ := List.mem_map.mp hm
    exact hn (Option.some.inj heq ▸ List.mem_map_of_mem hmem)
  have hnone : (members.map fun m => ((some m.1, m.2) : Literal × Json)).filter (·.1 = some tag) = [] := by
    rw [List.filter_eq_nil_iff]
    exact fun m hm heq => hrest m hm (of_decide_eq_true heq)
  have hall : (members.map fun m => ((some m.1, m.2) : Literal × Json)).filter (·.1 ≠ some tag) =
      members.map fun m => (some m.1, m.2) := by
    rw [List.filter_eq_self]
    exact fun m hm => decide_eq_true (hrest m hm)
  rw [record, List.map_cons, tagged?, List.filter_cons, if_pos (decide_eq_true rfl), hnone, List.filter_cons,
    if_neg (by simp), hall]
  rfl

/-- Both together: the record behind a tag has a slot for each of its fields. -/
theorem tagged_record (tag name : String) (members : List (String × Json)) (hn : (tag :: members.map (·.1)).Nodup) :
    tagged? tag (.record ((tag, .ofString name) :: members)) = some (name, .record members) ∧
      fields? (members.map (·.1)) false (.record members) = some ⟨members.map fun m => some m.2, false⟩ := by
  obtain ⟨htag, hn⟩ := List.nodup_cons.mp hn
  exact ⟨tagged?_record tag name members htag, fields?_record members hn false⟩

/-! ## Readable records -/

theorem membersReadable_record {depth : Nat} {members : List (String × Json)}
    (h : ∀ m ∈ members, readable depth m.2 = true) :
    membersReadable depth (members.map fun m => (some m.1, m.2)) = true := by
  induction members with
  | nil => rfl
  | cons m members ih =>
    rw [List.map_cons, membersReadable, h m List.mem_cons_self, ih fun m' hm' => h m' (List.mem_cons_of_mem m hm')]
    rfl

theorem readable_record {depth : Nat} {members : List (String × Json)}
    (h : ∀ m ∈ members, readable depth m.2 = true) : readable (depth + 1) (.record members) = true :=
  membersReadable_record h

theorem allReadable_of_mem {depth : Nat} {js : List Json} (h : ∀ j ∈ js, readable depth j = true) :
    allReadable depth js = true := by
  induction js with
  | nil => rfl
  | cons j js ih =>
    rw [allReadable, h j List.mem_cons_self, ih fun j' hj' => h j' (List.mem_cons_of_mem j hj')]
    rfl

end WindowTransitions.Json
