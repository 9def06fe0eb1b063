import WindowTransitions.Lifecycle.Phase

/-! The table of active transitions. Records stand in the order in which their transitions started; removing one
keeps the order of the others. -/

set_option autoImplicit false

namespace WindowTransitions

/-- What the shell knows of one transition. -/
structure Record where
  kind : Kind
  phase : Phase := .pending
  /-- The handler that claimed the request or was named at the start. It gets the first offer. -/
  assigned : Option HandlerId
  /-- The handler that accepted. -/
  owner : Option HandlerId := none
  /-- The default animations that still run; none before they are started. -/
  fades : Option (List AnimationId) := none
  /-- Tells this transition from earlier ones under the same token. -/
  generation : UInt64 := 0
  deriving DecidableEq

namespace Record

/-- Default animations still run. -/
def isFading (r : Record) : Bool :=
  match r.fades with
  | some fades => !fades.isEmpty
  | none => false

/-- The record less a finished default animation; nothing if it was not running. -/
def endFade? (r : Record) (a : AnimationId) : Option Record :=
  match r.fades with
  | some fades => if a ∈ fades then some { r with fades := some (fades.erase a) } else none
  | none => none

end Record

abbrev Table := List (Token × Record)

namespace Table

def get? (t : Table) (token : Token) : Option Record := (t.find? (·.1 = token)).map (·.2)

def contains (t : Table) (token : Token) : Bool := (t.get? token).isSome

def tokens (t : Table) : List Token := t.map (·.1)

/-- Add a transition behind all others. A token is active only once. -/
def insert (t : Table) (token : Token) (r : Record) : Except Fault Table :=
  if t.contains token then .error (.duplicateStart token) else .ok (t ++ [(token, r)])

/-- Put `r` in the place of the record of `token`. -/
def put (t : Table) (token : Token) (r : Record) : Table :=
  t.map fun e => if e.1 = token then (token, r) else e

def remove (t : Table) (token : Token) : Table := t.filter (·.1 ≠ token)

/-- The record of a token that has to be active. -/
def expect (t : Table) (token : Token) : Except Fault Record :=
  match t.get? token with
  | some r => .ok r
  | none => .error (.unknownTransition token t.tokens)

/-! ## Laws of look-up -/

variable (t : Table) (token other : Token) (r : Record)

@[simp] theorem get?_nil : get? [] token = none := rfl

theorem get?_cons (e : Token × Record) :
    get? (e :: t) token = if e.1 = token then some e.2 else get? t token := by
  by_cases h : e.1 = token <;> simp [get?, h]

theorem get?_append_singleton :
    get? (t ++ [(other, r)]) token = (t.get? token).or (if other = token then some r else none) := by
  induction t with
  | nil => simp [get?_cons]
  | cons e t ih =>
    rw [List.cons_append, get?_cons, get?_cons, ih]
    by_cases h : e.1 = token <;> simp [h]

theorem get?_put :
    get? (t.put other r) token =
      if other = token then (t.get? token).map fun _ => r else t.get? token := by
  induction t with
  | nil => simp [put]
  | cons e t ih =>
    simp only [put, List.map_cons] at ih ⊢
    rw [get?_cons, ih, get?_cons]
    by_cases h : other = token <;> by_cases h' : e.1 = other <;> grind

theorem get?_remove :
    get? (t.remove other) token = if other = token then none else t.get? token := by
  induction t with
  | nil => simp [remove]
  | cons e t ih =>
    simp only [remove, List.filter_cons] at ih ⊢
    by_cases h : e.1 = other
    · simp only [h, ne_eq, not_true_eq_false, decide_false]
      rw [get?_cons]
      grind
    · simp only [ne_eq, h, not_false_eq_true, decide_true, if_true]
      rw [get?_cons, get?_cons]
      grind

@[simp] theorem tokens_put : (t.put token r).tokens = t.tokens := by
  simp only [tokens, put, List.map_map]
  apply List.map_congr_left
  intro e _
  by_cases h : e.1 = token <;> simp [h]

end Table

end WindowTransitions
