import Mathlib.Data.List.Sort
import WindowTransitions.Surface.Transaction

/-! The last write wins, property by property. The target of an edit is the property of the surface that it writes,
and a query is answered by the last edit of its target. Main statement: a query folds over the edits of its surface; a
merged transaction answers as its later part does, where that part writes the target, and as the earlier part elsewhere;
no answer changes when edits of different targets trade places, or when the edits that a later one overwrites are
dropped. -/

set_option autoImplicit false

namespace WindowTransitions

/-! ## Targets -/

/-- What an edit can write of a surface. Showing and hiding write the same property. -/
inductive Property where
  | visibility
  | parent
  | position
  | layer
  | alpha
  | matrix
  deriving DecidableEq

namespace Property

/-- What a query for the property answers with. -/
@[reducible] def Value : Property → Type
  | visibility => Bool
  | parent => Option Surface
  | position => Point
  | layer => Int32
  | alpha => Float32
  | matrix => Matrix

def value? : (p : Property) → Write → Option p.Value
  | visibility => Write.visible?
  | parent => Write.parent?
  | position => Write.position?
  | layer => Write.layer?
  | alpha => Write.alpha?
  | matrix => Write.matrix?

end Property

def Write.property : Write → Property
  | .visible _ => .visibility
  | .parent _ => .parent
  | .position _ => .position
  | .layer _ => .layer
  | .alpha _ => .alpha
  | .matrix _ => .matrix

theorem Property.isSome_value? (p : Property) (w : Write) : (p.value? w).isSome = decide (w.property = p) := by
  cases p <;> cases w <;> rfl

def Edit.target (e : Edit) : Surface × Property := (e.surface, e.write.property)

namespace Transaction

variable {t u : Transaction} {s : Surface} {p : Property}

/-- The query for a property of a surface. -/
def query (t : Transaction) (s : Surface) : (p : Property) → Option p.Value
  | .visibility => t.visibilityOf s
  | .parent => t.parentOf s
  | .position => t.positionOf s
  | .layer => t.layerOf s
  | .alpha => t.alphaOf s
  | .matrix => t.matrixOf s

def Writes (t : Transaction) (s : Surface) (p : Property) : Prop := ∃ e ∈ t, e.target = (s, p)

instance (t : Transaction) (s : Surface) (p : Property) : Decidable (t.Writes s p) :=
  inferInstanceAs (Decidable (∃ e ∈ t, e.target = (s, p)))

/-! ## The edits of one target -/

/-- The edits of one property of one surface, in their order. -/
def history (t : Transaction) (s : Surface) (p : Property) : Transaction := t.filter (·.target = (s, p))

theorem history_append (a b : Transaction) (s : Surface) (p : Property) :
    history (a ++ b) s p = a.history s p ++ b.history s p := List.filter_append a b

theorem history_cons_self {e : Edit} (h : e.target = (s, p)) (t : Transaction) :
    history (e :: t) s p = e :: t.history s p := List.filter_cons_of_pos (decide_eq_true h)

theorem history_cons_other {e : Edit} (h : e.target ≠ (s, p)) (t : Transaction) :
    history (e :: t) s p = t.history s p := List.filter_cons_of_neg (by simpa using h)

theorem history_eq_nil_iff : t.history s p = [] ↔ ¬ t.Writes s p := by
  simp [history, Writes, List.filter_eq_nil_iff]

/-- Folded over the edits of the surface, each write that the query recognises replaces the answer so far. -/
theorem foldl_ofSurface {α : Type} (t : Transaction) (s : Surface) (pick : Write → Option α) (before : Option α) :
    (t.ofSurface s).foldl (fun answer e => (pick e.write).or answer) before = (t.last s pick).or before := by
  induction t generalizing before with
  | nil => rfl
  | cons e t ih =>
    have hfirst : last (e :: t) s pick = (last t s pick).or (last [e] s pick) := last_append [e] t s pick
    rw [hfirst, Option.or_assoc]
    by_cases h : e.surface = s
    · have hself : last [e] s pick = pick e.write := by simp [last, h]
      rw [ofSurface, List.filter_cons, if_pos (decide_eq_true h), List.foldl_cons, hself]
      exact ih _
    · have hother : last [e] s pick = none := by simp [last, h]
      rw [ofSurface, List.filter_cons, if_neg (by simpa using h), hother, Option.none_or]
      exact ih before

theorem query_eq_last (t : Transaction) (s : Surface) (p : Property) : t.query s p = t.last s p.value? := by
  cases p <;> rfl

theorem query_eq_foldl (t : Transaction) (s : Surface) (p : Property) :
    t.query s p = (t.ofSurface s).foldl (fun answer e => (p.value? e.write).or answer) none := by
  rw [foldl_ofSurface, Option.or_none, query_eq_last]

theorem findSome?_eq_find?_bind {β γ : Type} {f : β → Option γ} {q : β → Bool} (h : ∀ b, (f b).isSome = q b)
    (l : List β) : l.findSome? f = (l.find? q).bind f := by
  induction l with
  | nil => rfl
  | cons b l ih =>
    cases hf : f b with
    | none => simp [← h, hf, ih]
    | some c => simp [← h, hf]

/-- A query is answered by the last edit of its target alone. -/
theorem query_eq (t : Transaction) (s : Surface) (p : Property) :
    t.query s p = (t.history s p).getLast?.bind fun e => p.value? e.write := by
  have hsome : ∀ e : Edit, (if e.surface = s then p.value? e.write else none).isSome =
      decide (e.target = (s, p)) := by
    intro e
    by_cases h : e.surface = s <;> simp [Edit.target, h, p.isSome_value?]
  rw [query_eq_last, last, history, List.getLast?_filter, findSome?_eq_find?_bind hsome]
  refine Option.bind_congr fun e he => ?_
  have htarget : e.target = (s, p) := by simpa using List.find?_some he
  exact if_pos (congrArg Prod.fst htarget)

/-! ## Merging -/

theorem query_append (a b : Transaction) (s : Surface) (p : Property) :
    query (a ++ b) s p = if b.Writes s p then b.query s p else a.query s p := by
  rw [query_eq, query_eq, query_eq, history_append, List.getLast?_append]
  by_cases h : b.Writes s p
  · have hne : b.history s p ≠ [] := fun hnil => history_eq_nil_iff.mp hnil h
    rw [if_pos h, List.getLast?_eq_getLast_of_ne_nil hne, Option.some_or]
  · rw [if_neg h, history_eq_nil_iff.mpr h, List.getLast?_nil, Option.none_or]

/-! ## Reordering -/

/-- The edits of `t` in the order of `u`, where those of one target stay in the order that they have in `t`. -/
structure Reordering (t u : Transaction) where
  /-- Where an edit of `u` stands in `t`. -/
  place : Fin u.length ≃ Fin t.length
  same : ∀ i, u[i] = t[place i]
  keeps : ∀ i j, i < j → u[i].target = u[j].target → place i < place j

/-- What a filter picks is the same for two orders that agree on the order of what it picks. -/
theorem filter_eq_of_places {β : Type} {l l' : List β} {q : β → Bool} (place : Fin l'.length ≃ Fin l.length)
    (same : ∀ i, l'[i] = l[place i])
    (keeps : ∀ i j, i < j → q l'[i] = true → q l'[j] = true → place i < place j) : l'.filter q = l.filter q := by
  -- A filtered list is its list of picked positions read off; the two lists of positions are compared as sorted lists.
  have picked : ∀ k : List β, k.filter q = ((List.finRange k.length).filter fun i => q k[i]).map fun i => k[i] := by
    intro k
    conv_lhs => rw [← List.map_getElem_finRange k, List.filter_map]
    rfl
  have hplaces : ((List.finRange l'.length).filter fun i => q l'[i]).map place =
      (List.finRange l.length).filter fun i => q l[i] := by
    refine List.Pairwise.eq_of_mem_iff (r := (· < ·)) ?_ ((List.pairwise_lt_finRange _).filter _) fun k => ?_
    · refine List.pairwise_map.mpr (((List.pairwise_lt_finRange _).filter _).imp_of_mem fun hi hj hlt => ?_)
      exact keeps _ _ hlt (List.mem_filter.mp hi).2 (List.mem_filter.mp hj).2
    · simp only [List.mem_map, List.mem_filter, List.mem_finRange, true_and, same]
      exact ⟨fun ⟨i, hi, hk⟩ => hk ▸ hi, fun hk => ⟨place.symm k, by simpa using hk, by simp⟩⟩
  rw [picked l', picked l, ← hplaces, List.map_map]
  exact List.map_congr_left fun i _ => same i

theorem Reordering.history_eq (r : Reordering t u) (s : Surface) (p : Property) : u.history s p = t.history s p := by
  refine filter_eq_of_places r.place r.same fun i j hlt hi hj => r.keeps i j hlt ?_
  exact (of_decide_eq_true hi).trans (of_decide_eq_true hj).symm

/-! ## Compaction -/

/-- The transaction less the edits that a later one overwrites. -/
def compact : Transaction → Transaction
  | [] => []
  | e :: rest => if ∃ later ∈ rest, later.target = e.target then compact rest else e :: compact rest

/-- Of the edits of one target the last is left. -/
theorem history_compact (t : Transaction) (s : Surface) (p : Property) :
    t.compact.history s p = (t.history s p).getLast?.toList := by
  -- An edit of another target is in neither history; one of this target is the last one unless it is dropped.
  fun_induction compact t with
  | case1 => rfl
  | case2 e rest hlater ih =>
    by_cases h : e.target = (s, p)
    · have hwrites : Writes rest s p := by
        rw [Writes, ← h]
        exact hlater
      have hne : history rest s p ≠ [] := fun hnil => history_eq_nil_iff.mp hnil hwrites
      rw [ih, history_cons_self h, List.getLast?_cons_of_ne_nil hne]
    · rw [ih, history_cons_other h]
  | case3 e rest hlast ih =>
    by_cases h : e.target = (s, p)
    · have hnil : history rest s p = [] := by
        rw [history_eq_nil_iff, Writes, ← h]
        exact hlast
      rw [history_cons_self h, history_cons_self h, ih, hnil]
      rfl
    · rw [history_cons_other h, history_cons_other h, ih]

/-! ## Queries -/

/-- A query goes over the edits of its surface in their order, and each one that writes the property replaces the answer
so far. A merged transaction answers a query as its later part does if that part writes the target, and as its earlier
part does if not. Reordering that keeps the order of the edits of each target changes no answer, and neither does
dropping what is overwritten later. -/
theorem last_writes_decide :
    (∀ (t : Transaction) (s : Surface) (p : Property),
      t.query s p = (t.ofSurface s).foldl (fun answer e => (p.value? e.write).or answer) none) ∧
    (∀ (a b : Transaction) (s : Surface) (p : Property),
      query (a ++ b) s p = if b.Writes s p then b.query s p else a.query s p) ∧
    (∀ t u : Transaction, Reordering t u → ∀ (s : Surface) (p : Property), u.query s p = t.query s p) ∧
    ∀ (t : Transaction) (s : Surface) (p : Property), t.compact.query s p = t.query s p := by
  refine ⟨query_eq_foldl, query_append, fun t u r s p => ?_, fun t s p => ?_⟩
  · rw [query_eq, query_eq, r.history_eq]
  · rw [query_eq, query_eq, history_compact]
    cases (t.history s p).getLast? <;> rfl

/-- One surface blinks while another one gets an alpha. -/
def blink : Transaction :=
  [⟨⟨1⟩, .alpha 0.5⟩, ⟨⟨1⟩, .visible true⟩, ⟨⟨2⟩, .alpha 0.25⟩, ⟨⟨1⟩, .alpha 1.0⟩, ⟨⟨1⟩, .visible false⟩]

def blinkShuffled : Transaction :=
  [⟨⟨1⟩, .visible true⟩, ⟨⟨2⟩, .alpha 0.25⟩, ⟨⟨1⟩, .alpha 0.5⟩, ⟨⟨1⟩, .visible false⟩, ⟨⟨1⟩, .alpha 1.0⟩]

def blinkPlace : Fin 5 ≃ Fin 5 where
  toFun := [1, 2, 0, 4, 3].get
  invFun := [2, 0, 1, 4, 3].get
  left_inv := by
    unfold Function.LeftInverse
    decide
  right_inv := by
    unfold Function.RightInverse Function.LeftInverse
    decide

def blinkReordering : Reordering blink blinkShuffled where
  place := blinkPlace
  same := by decide
  keeps := by decide

theorem last_writes_decide_shuffled :
    blinkShuffled.query ⟨1⟩ .alpha = blink.query ⟨1⟩ .alpha ∧
      blinkShuffled.query ⟨1⟩ .visibility = blink.query ⟨1⟩ .visibility ∧
      blinkShuffled.compact.query ⟨2⟩ .alpha = blink.query ⟨2⟩ .alpha := by
  obtain ⟨_, _, hreordered, hcompact⟩ := last_writes_decide
  have hkept := hreordered blink blinkShuffled blinkReordering
  exact ⟨hkept ⟨1⟩ .alpha, hkept ⟨1⟩ .visibility, (hcompact _ _ _).trans (hkept ⟨2⟩ .alpha)⟩

end Transaction

end WindowTransitions
