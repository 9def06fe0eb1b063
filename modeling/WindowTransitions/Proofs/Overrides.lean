import Mathlib
import WindowTransitions.Config
import WindowTransitions.Decimal.Numeral

/-! Overrides of settings by texts. What a text says is fixed by a grammar: a word in any case or a numeral that
perhaps has a plus sign, each between blanks. Main statement: overrides are accepted exactly when each text that is
there says something that its setting can hold, else the first one that does not is the fault; and overriding twice is
overriding once, the later texts before the earlier ones. -/

set_option autoImplicit false

namespace WindowTransitions

/-! ## Blanks around a text -/

namespace Text

/-- `cs` is `core` with blanks at both ends. -/
def IsPadded (cs core : List Char) : Prop :=
  ∃ before after, before.all isBlank = true ∧ after.all isBlank = true ∧ cs = before ++ core ++ after

theorem isPadded_trim (cs : List Char) : IsPadded cs (trim cs) := by
  refine ⟨cs.takeWhile isBlank, (((cs.dropWhile isBlank).reverse).takeWhile isBlank).reverse, ?_, ?_, ?_⟩
  · exact List.all_takeWhile
  · rw [List.all_reverse]
    exact List.all_takeWhile
  · rw [trim, List.append_assoc, ← List.reverse_append, List.takeWhile_append_dropWhile, List.reverse_reverse,
      List.takeWhile_append_dropWhile]

theorem dropWhile_blanks {blanks cs : List Char} (hb : blanks.all isBlank = true)
    (hc : ∀ c ∈ cs.head?, isBlank c = false) : (blanks ++ cs).dropWhile isBlank = cs := by
  rw [List.dropWhile_append_of_pos (List.all_eq_true.mp hb)]
  cases cs with
  | nil => rfl
  | cons c cs =>
    have hfirst : isBlank c = false := hc c rfl
    exact List.dropWhile_cons_of_neg (by simp [hfirst])

theorem IsPadded.trim_eq {cs core : List Char} (h : IsPadded cs core) (hc : ∀ c ∈ core, isBlank c = false) :
    trim cs = core := by
  obtain ⟨before, after, hbefore, hafter, rfl⟩ := h
  have hrear : (core ++ after).reverse.dropWhile isBlank = core.reverse := by
    rw [List.reverse_append]
    refine dropWhile_blanks (by rwa [List.all_reverse]) fun c hlast => ?_
    exact hc c (List.mem_reverse.mp (List.mem_of_mem_head? hlast))
  -- Without a core the first pass takes the blanks behind it, too.
  cases core with
  | nil =>
    have hall : (before ++ [] ++ after ++ []).dropWhile isBlank = [] :=
      dropWhile_blanks (by simp [List.all_append, hbefore, hafter]) (by simp)
    rw [List.append_nil] at hall
    rw [trim, hall]
    rfl
  | cons c rest =>
    have hfront : (before ++ (c :: rest ++ after)).dropWhile isBlank = c :: rest ++ after := by
      refine dropWhile_blanks hbefore fun d hd => ?_
      obtain rfl : c = d := Option.some.inj hd
      exact hc c List.mem_cons_self
    rw [trim, List.append_assoc, hfront, hrear, List.reverse_reverse]

/-- No character from the exclamation mark to the tilde is a blank. -/
theorem isBlank_eq_false {c : Char} (hlow : '!'.toNat ≤ c.toNat) (hhigh : c.toNat ≤ '~'.toNat) : isBlank c = false := by
  have hrange : 33 ≤ c.toNat ∧ c.toNat ≤ 126 := ⟨hlow, hhigh⟩
  rw [Bool.eq_false_iff]
  intro hblank
  simp only [isBlank, Bool.or_eq_true, Bool.and_eq_true, decide_eq_true_eq] at hblank
  omega

theorem toNat_of_isDigit {c : Char} (h : c.isDigit = true) : '0'.toNat ≤ c.toNat ∧ c.toNat ≤ '9'.toNat := by
  simpa [Char.isDigit, UInt32.le_iff_toNat_le] using h

theorem isBlank_of_isDigit {c : Char} (h : c.isDigit = true) : isBlank c = false := by
  obtain ⟨hlow, hhigh⟩ := toNat_of_isDigit h
  exact isBlank_eq_false (Nat.le_trans (by decide) hlow) (Nat.le_trans hhigh (by decide))

/-- A blank has no other case. -/
theorem toLower_of_isBlank {c : Char} (h : isBlank c = true) : c.toLower = c := by
  have hnot : ¬ (c.val ≥ 'A'.val ∧ c.val ≤ 'Z'.val) := by
    rintro ⟨hlow, hhigh⟩
    have hsolid : isBlank c = false :=
      isBlank_eq_false (Nat.le_trans (by decide) (UInt32.le_iff_toNat_le.mp hlow))
        (Nat.le_trans (UInt32.le_iff_toNat_le.mp hhigh) (by decide))
    rw [hsolid] at h
    cases h
  rw [Char.toLower, dif_neg hnot]

end Text

/-! ## Numerals -/

namespace Decimal

/-- The digits `cs` denote `n`. Zeros may lead. -/
inductive Denotes : List Char → Nat → Prop where
  | digit (d : Fin 10) : Denotes [digitChar d] d
  | append {cs : List Char} {n : Nat} (h : Denotes cs n) (d : Fin 10) : Denotes (cs ++ [digitChar d]) (10 * n + d)

theorem isDigit_digitChar (d : Fin 10) : (digitChar d).isDigit = true := by
  revert d
  decide

theorem ofDigitChars_digitChar (d : Fin 10) (n : Nat) : Nat.ofDigitChars 10 [digitChar d] n = 10 * n + d := by
  have hvalue : ∀ d : Fin 10, (digitChar d).toNat - '0'.toNat = d := by decide
  rw [Nat.ofDigitChars_cons, hvalue]
  rfl

theorem exists_digitChar {c : Char} (h : c.isDigit = true) : ∃ d : Fin 10, digitChar d = c := by
  have hrange : 48 ≤ c.toNat ∧ c.toNat ≤ 57 := Text.toNat_of_isDigit h
  have hcode : ∀ d : Fin 10, (digitChar d).toNat = 48 + d := by decide
  refine ⟨⟨c.toNat - 48, by omega⟩, Char.toNat_inj.mp ?_⟩
  rw [hcode]
  exact Nat.add_sub_cancel' hrange.1

theorem denotes_iff {cs : List Char} {n : Nat} :
    Denotes cs n ↔ cs ≠ [] ∧ cs.all Char.isDigit = true ∧ Nat.ofDigitChars 10 cs 0 = n := by
  constructor
  · intro h
    induction h with
    | digit d => simp [isDigit_digitChar, ofDigitChars_digitChar]
    | append _ d ih =>
      obtain ⟨_, hall, hvalue⟩ := ih
      simp only [Nat.ofDigitChars_append, hvalue, ofDigitChars_digitChar]
      simp [isDigit_digitChar, hall]
  · rintro ⟨hne, hall, rfl⟩
    induction cs using List.reverseRecOn with
    | nil => exact absurd rfl hne
    | append_singleton cs c ih =>
      rw [List.all_append, Bool.and_eq_true] at hall
      obtain ⟨d, rfl⟩ := exists_digitChar (by simpa using hall.2 : c.isDigit = true)
      rw [Nat.ofDigitChars_append, ofDigitChars_digitChar]
      by_cases hfirst : cs = []
      · subst hfirst
        simpa using Denotes.digit d
      · exact .append (ih hfirst hall.1) d

theorem denotes_toDigits (n : Nat) : Denotes (Nat.toDigits 10 n) n := by
  refine denotes_iff.mpr ⟨Nat.toDigits_ne_nil, List.all_eq_true.mpr fun c hc => ?_, Nat.ofDigitChars_ten_toDigits⟩
  exact Nat.isDigit_of_mem_toDigits (by decide) (by decide) hc

end Decimal

namespace Config

/-! ## What texts say -/

/-- The words for a switch. -/
def words : Bool → List (List Char)
  | true => [['1'], ['t', 'r', 'u', 'e']]
  | false => [['0'], ['f', 'a', 'l', 's', 'e']]

/-- The text is a word for the switch, in any case, between blanks. -/
def SaysSwitch (raw : String) (on : Bool) : Prop :=
  ∃ word, Text.IsPadded raw.toList word ∧ word.map Char.toLower ∈ words on

/-- The text is a numeral of the number, perhaps with a plus sign, between blanks. -/
def SaysNumber (raw : String) (n : Nat) : Prop :=
  ∃ digits, Decimal.Denotes digits n ∧
    (Text.IsPadded raw.toList digits ∨ Text.IsPadded raw.toList ('+' :: digits))

/-- No blank stands in a word for the switch. -/
theorem isBlank_of_mem_word {word : List Char} {on : Bool} (h : word.map Char.toLower ∈ words on) :
    ∀ c ∈ word, Text.isBlank c = false := by
  have hletters : ((words on).flatten.all fun c => !Text.isBlank c) = true := by
    cases on <;> decide
  intro c hc
  by_contra hblank
  -- It would stand in the lower case of the word as well.
  have hsame : c.toLower = c := Text.toLower_of_isBlank (by simpa using hblank)
  have hmem : c ∈ (words on).flatten := List.mem_flatten.mpr ⟨_, h, hsame ▸ List.mem_map_of_mem hc⟩
  exact hblank (by simpa using List.all_eq_true.mp hletters c hmem)

theorem switch?_eq_some_iff {raw : String} {on : Bool} : switch? raw = some on ↔ SaysSwitch raw on := by
  constructor
  · intro h
    refine ⟨Text.trim raw.toList, Text.isPadded_trim _, ?_⟩
    simp only [switch?] at h
    split at h
    · next hword =>
      obtain rfl : true = on := Option.some.inj h
      simpa [words] using hword
    · split at h
      · next hword =>
        obtain rfl : false = on := Option.some.inj h
        simpa [words] using hword
      · cases h
  · rintro ⟨word, hpad, hword⟩
    rw [switch?, hpad.trim_eq (isBlank_of_mem_word hword)]
    cases on with
    | true =>
      have hyes : word.map Char.toLower = ['1'] ∨ word.map Char.toLower = ['t', 'r', 'u', 'e'] := by
        simpa [words] using hword
      exact if_pos hyes
    | false =>
      have hno : word.map Char.toLower = ['0'] ∨ word.map Char.toLower = ['f', 'a', 'l', 's', 'e'] := by
        simpa [words] using hword
      rcases hno with h | h <;> simp [h]

theorem unsigned_eq (cs : List Char) : unsigned cs = cs ∨ '+' :: unsigned cs = cs := by
  unfold unsigned
  split
  · exact .inr rfl
  · exact .inl rfl

theorem unsigned_digits {digits : List Char} (h : ∀ c ∈ digits, c.isDigit = true) : unsigned digits = digits := by
  unfold unsigned
  split
  · next rest => exact absurd (h '+' List.mem_cons_self) (by decide)
  · rfl

theorem milliseconds?_eq_some_iff {raw : String} {n : UInt64} :
    milliseconds? raw = some n ↔ SaysNumber raw n.toNat := by
  constructor
  · intro h
    simp only [milliseconds?] at h
    split at h
    · next hdigits =>
      obtain ⟨hne, hall, hlt⟩ := hdigits
      obtain rfl := Option.some.inj h
      rw [SaysNumber, UInt64.toNat_ofNat_of_lt' hlt]
      refine ⟨_, Decimal.denotes_iff.mpr ⟨hne, hall, rfl⟩, ?_⟩
      have hpad := Text.isPadded_trim raw.toList
      rcases unsigned_eq (Text.trim raw.toList) with hsign | hsign
      · exact .inl (by rwa [hsign])
      · exact .inr (by rwa [hsign])
    · cases h
  · rintro ⟨digits, hdenotes, hpad⟩
    obtain ⟨hne, hall, hvalue⟩ := Decimal.denotes_iff.mp hdenotes
    have hdigit : ∀ c ∈ digits, c.isDigit = true := List.all_eq_true.mp hall
    have hsolid : ∀ c ∈ digits, Text.isBlank c = false := fun c hc => Text.isBlank_of_isDigit (hdigit c hc)
    have htrim : unsigned (Text.trim raw.toList) = digits := by
      rcases hpad with hpad | hpad
      · rw [hpad.trim_eq hsolid, unsigned_digits hdigit]
      · rw [hpad.trim_eq (List.forall_mem_cons.mpr ⟨by decide, hsolid⟩)]
        rfl
    have hlt : Nat.ofDigitChars 10 digits 0 < UInt64.size := hvalue ▸ n.toNat_lt
    rw [milliseconds?, htrim, if_pos ⟨hne, hall, hlt⟩, hvalue, UInt64.ofNat_toNat]

/-! ## One setting -/

/-- A setting before and after an override, where the text that is there says the new value. -/
inductive Sets {α : Type} (Says : String → α → Prop) (before : α) : Option String → α → Prop where
  | kept : Sets Says before none before
  | said {raw : String} {a : α} (h : Says raw a) : Sets Says before (some raw) a

section Setting
variable {α : Type} {raw : Option String} {read : String → Option α} {Says : String → α → Prop}
  {fault : String → Fault} {before after : α}

theorem overridden_ok_iff (hread : ∀ text a, read text = some a ↔ Says text a) :
    overridden raw read fault before = .ok after ↔ Sets Says before raw after := by
  cases raw with
  | none =>
    constructor
    · intro h
      cases h
      exact .kept
    · rintro ⟨⟩
      rfl
  | some text =>
    rw [overridden]
    constructor
    · intro h
      cases hr : read text with
      | none => simp [hr] at h
      | some a =>
        obtain rfl : a = after := by simpa [hr] using h
        exact .said ((hread text a).mp hr)
    · rintro (_ | h)
      rw [(hread text after).mpr h]

theorem exists_overridden_iff (hread : ∀ text a, read text = some a ↔ Says text a) :
    (∃ a, overridden raw read fault before = .ok a) ↔ ∀ text, raw = some text → ∃ a, Says text a := by
  simp only [overridden_ok_iff hread]
  constructor
  · rintro ⟨a, _ | h⟩ text ⟨⟩
    exact ⟨a, h⟩
  · intro h
    cases raw with
    | none => exact ⟨before, .kept⟩
    | some text => exact (h text rfl).imp fun _ => .said

theorem overridden_error_iff (hread : ∀ text a, read text = some a ↔ Says text a) {f : Fault} :
    overridden raw read fault before = .error f ↔
      ∃ text, raw = some text ∧ (¬ ∃ a, Says text a) ∧ f = fault text := by
  cases raw with
  | none => simp [overridden]
  | some text =>
    rw [overridden]
    cases hr : read text with
    | none =>
      have hnothing : ¬ ∃ a, Says text a := by
        rintro ⟨a, h⟩
        rw [(hread text a).mpr h] at hr
        cases hr
      constructor
      · intro h
        exact ⟨text, rfl, hnothing, (Except.error.inj h).symm⟩
      · rintro ⟨_, ⟨⟩, _, rfl⟩
        rfl
    | some a =>
      constructor
      · intro h
        cases h
      · rintro ⟨_, ⟨⟩, hnot, _⟩
        exact absurd ⟨a, (hread text a).mp hr⟩ hnot

/-- Of two overrides the later one decides if it is there. -/
theorem overridden_or {later earlier : Option String} {middle : α}
    (h : overridden earlier read fault before = .ok middle) :
    overridden (later.or earlier) read fault before = overridden later read fault middle := by
  cases later with
  | none => exact h
  | some text => rfl

end Setting

/-! ## All settings -/

variable {c c' : Config} {l : String → Option String}

theorem withOverrides_ok_iff : c.withOverrides l = .ok c' ↔
    overridden (l enabledKey) switch? .notBoolean c.enabled = .ok c'.enabled ∧
      overridden (l fadeKey) milliseconds? .notMilliseconds c.fadeDuration = .ok c'.fadeDuration ∧
      c'.frameInterval = c.frameInterval ∧ c.frameInterval ≠ 0 := by
  rw [withOverrides]
  cases overridden (l enabledKey) switch? .notBoolean c.enabled with
  | error f => simp [bind, Except.bind]
  | ok enabled =>
    cases overridden (l fadeKey) milliseconds? .notMilliseconds c.fadeDuration with
    | error f => simp [bind, Except.bind]
    | ok fadeDuration =>
      change validate { c with enabled, fadeDuration } = .ok c' ↔ _
      by_cases hframe : c.frameInterval = 0
      · simp [validate, hframe]
      · obtain ⟨enabled', fadeDuration', frameInterval'⟩ := c'
        simp [validate, hframe, eq_comm]

theorem withOverrides_error_iff {f : Fault} : c.withOverrides l = .error f ↔
    overridden (l enabledKey) switch? .notBoolean c.enabled = .error f ∨
      (∃ on, overridden (l enabledKey) switch? .notBoolean c.enabled = .ok on) ∧
        (overridden (l fadeKey) milliseconds? .notMilliseconds c.fadeDuration = .error f ∨
          (∃ n, overridden (l fadeKey) milliseconds? .notMilliseconds c.fadeDuration = .ok n) ∧
            c.frameInterval = 0 ∧ f = .noFrameInterval) := by
  rw [withOverrides]
  cases overridden (l enabledKey) switch? .notBoolean c.enabled with
  | error f => simp [bind, Except.bind]
  | ok enabled =>
    cases overridden (l fadeKey) milliseconds? .notMilliseconds c.fadeDuration with
    | error f => simp [bind, Except.bind]
    | ok fadeDuration =>
      change validate { c with enabled, fadeDuration } = .error f ↔ _
      by_cases hframe : c.frameInterval = 0 <;> simp [validate, hframe, eq_comm]

/-- The text for the switch, if there is one, says a switch. -/
def SwitchFits (l : String → Option String) : Prop := ∀ raw, l enabledKey = some raw → ∃ on, SaysSwitch raw on

/-- The text for the duration, if there is one, says a number of 64 bits. -/
def DurationFits (l : String → Option String) : Prop :=
  ∀ raw, l fadeKey = some raw → ∃ n, SaysNumber raw n ∧ n < 2 ^ 64

/-- The numbers of 64 bits among those that a text says. -/
theorem exists_saysNumber_iff {raw : String} :
    (∃ n : UInt64, SaysNumber raw n.toNat) ↔ ∃ n, SaysNumber raw n ∧ n < 2 ^ 64 := by
  constructor
  · rintro ⟨n, h⟩
    exact ⟨n.toNat, h, n.toNat_lt⟩
  · rintro ⟨n, h, hlt⟩
    exact ⟨.ofNat n, by rwa [UInt64.toNat_ofNat_of_lt' hlt]⟩

theorem switchFits_iff : (∃ on, overridden (l enabledKey) switch? .notBoolean c.enabled = .ok on) ↔ SwitchFits l :=
  exists_overridden_iff fun _ _ => switch?_eq_some_iff

theorem durationFits_iff :
    (∃ n, overridden (l fadeKey) milliseconds? .notMilliseconds c.fadeDuration = .ok n) ↔ DurationFits l := by
  rw [exists_overridden_iff fun _ _ => milliseconds?_eq_some_iff]
  simp only [exists_saysNumber_iff, DurationFits]

theorem withOverrides_accepts :
    (∃ c', c.withOverrides l = .ok c') ↔ SwitchFits l ∧ DurationFits l ∧ c.frameInterval ≠ 0 := by
  rw [← switchFits_iff (c := c), ← durationFits_iff (c := c)]
  constructor
  · rintro ⟨c', h⟩
    obtain ⟨hswitch, hduration, _, hframe⟩ := withOverrides_ok_iff.mp h
    exact ⟨⟨_, hswitch⟩, ⟨_, hduration⟩, hframe⟩
  · rintro ⟨⟨enabled, hswitch⟩, ⟨fadeDuration, hduration⟩, hframe⟩
    exact ⟨{ c with enabled, fadeDuration }, withOverrides_ok_iff.mpr ⟨hswitch, hduration, rfl, hframe⟩⟩

theorem withOverrides_or {l₁ l₂ : String → Option String} {c₁ : Config} (h : c.withOverrides l₁ = .ok c₁) :
    c₁.withOverrides l₂ = c.withOverrides fun key => (l₂ key).or (l₁ key) := by
  obtain ⟨hswitch, hduration, hframe, _⟩ := withOverrides_ok_iff.mp h
  rw [withOverrides, withOverrides, overridden_or hswitch, overridden_or hduration, hframe]

theorem saysNumber_repr (n : Nat) {before after : String} (hb : before.toList.all Text.isBlank = true)
    (ha : after.toList.all Text.isBlank = true) : SaysNumber (before ++ n.repr ++ after) n := by
  refine ⟨Nat.toDigits 10 n, Decimal.denotes_toDigits n, .inl ⟨before.toList, after.toList, hb, ha, ?_⟩⟩
  rw [String.toList_append, String.toList_append, Nat.toList_repr]

/-- A duration written in digits is set as if it were no override but stood in the configuration. -/
theorem withOverrides_repr {n : UInt64} {before after : String} (hb : before.toList.all Text.isBlank = true)
    (ha : after.toList.all Text.isBlank = true) (h : l fadeKey = some (before ++ n.toNat.repr ++ after)) :
    c.withOverrides l = { c with fadeDuration := n }.withOverrides (Function.update l fadeKey none) := by
  have hread : milliseconds? (before ++ n.toNat.repr ++ after) = some n :=
    milliseconds?_eq_some_iff.mpr (saysNumber_repr n.toNat hb ha)
  have hset : overridden (l fadeKey) milliseconds? .notMilliseconds c.fadeDuration = .ok n := by
    rw [h, overridden, hread]
  have hkeys : enabledKey ≠ fadeKey := by decide
  rw [withOverrides, withOverrides, hset, Function.update_self, Function.update_of_ne hkeys]
  rfl

/-- Overrides are accepted exactly when the text for the switch is a word for it, the text for the duration is a
numeral of 64 bits, where there are such texts, and the frame interval is not zero; the first of these that fails is
the fault. Accepted overrides set what they name and leave the rest alone. Overrides on top of others are those of both
where the later ones go first, so the same overrides count once. The decimal digits of a number of 64 bits, with any
blanks around them, set the duration to this number, as if it stood in the configuration and there were no text. -/
theorem withOverrides_grammar (c : Config) (l : String → Option String) :
    ((∃ c', c.withOverrides l = .ok c') ↔ SwitchFits l ∧ DurationFits l ∧ c.frameInterval ≠ 0) ∧
    (∀ f, c.withOverrides l = .error f ↔
      (∃ raw, l enabledKey = some raw ∧ (¬ ∃ on, SaysSwitch raw on) ∧ f = .notBoolean raw) ∨
      (SwitchFits l ∧ ∃ raw, l fadeKey = some raw ∧ (¬ ∃ n, SaysNumber raw n ∧ n < 2 ^ 64) ∧
        f = .notMilliseconds raw) ∨
      (SwitchFits l ∧ DurationFits l ∧ c.frameInterval = 0 ∧ f = .noFrameInterval)) ∧
    (∀ c', c.withOverrides l = .ok c' → Sets SaysSwitch c.enabled (l enabledKey) c'.enabled ∧
      Sets (fun raw n => SaysNumber raw n.toNat) c.fadeDuration (l fadeKey) c'.fadeDuration ∧
      c'.frameInterval = c.frameInterval) ∧
    (∀ c₁ l₂, c.withOverrides l = .ok c₁ →
      c₁.withOverrides l₂ = c.withOverrides fun key => (l₂ key).or (l key)) ∧
    ((c.withOverrides l).bind fun c' => c'.withOverrides l) = c.withOverrides l ∧
    ∀ (n : UInt64) (before after : String), before.toList.all Text.isBlank = true →
      after.toList.all Text.isBlank = true → l fadeKey = some (before ++ n.toNat.repr ++ after) →
      c.withOverrides l = { c with fadeDuration := n }.withOverrides (Function.update l fadeKey none) := by
  refine ⟨withOverrides_accepts, fun f => ?_, fun c' h => ?_, fun c₁ l₂ h => withOverrides_or h, ?_,
    fun n before after => withOverrides_repr⟩
  · rw [withOverrides_error_iff, switchFits_iff, durationFits_iff,
      overridden_error_iff fun _ _ => switch?_eq_some_iff, overridden_error_iff fun _ _ => milliseconds?_eq_some_iff]
    simp only [exists_saysNumber_iff, and_or_left]
  · obtain ⟨hswitch, hduration, hframe, _⟩ := withOverrides_ok_iff.mp h
    exact ⟨(overridden_ok_iff fun _ _ => switch?_eq_some_iff).mp hswitch,
      (overridden_ok_iff fun _ _ => milliseconds?_eq_some_iff).mp hduration, hframe⟩
  · cases h : c.withOverrides l with
    | error f => rfl
    | ok c₁ =>
      refine (withOverrides_or h).trans ?_
      simp only [Option.or_self]
      exact h

def texts (forSwitch forDuration : Option String) (key : String) : Option String :=
  if key = enabledKey then forSwitch else if key = fadeKey then forDuration else none

/-- A switch and a duration, and then another duration on top. -/
theorem withOverrides_grammar_twice :
    let standard : Config := {}
    let earlier := texts (some "\u3000TrUe") (some "\t250 ")
    let later := texts none (some "+0007")
    Sets SaysSwitch false (some "\u3000TrUe") true ∧
      (⟨true, 250, 16⟩ : Config).withOverrides later =
        standard.withOverrides (fun key => (later key).or (earlier key)) ∧
      standard.withOverrides earlier =
        { standard with fadeDuration := 250 }.withOverrides (Function.update earlier fadeKey none) := by
  intro standard earlier later
  have hok : standard.withOverrides earlier = .ok ⟨true, 250, 16⟩ := by decide +kernel
  obtain ⟨_, _, hsets, htop, _, hpadded⟩ := withOverrides_grammar standard earlier
  exact ⟨(hsets _ hok).1, htop _ later hok, hpadded 250 "\t" " " (by decide) (by decide) (by decide +kernel)⟩

end Config

end WindowTransitions
