import WindowTransitions.Proofs.Running

/-! What reports of ended animations leave of a table. Each record shows on its own what it becomes by a report, and
the record of a transition that finishes is gone. Main statement: two reports leave the same table in either order, so
all orders of the same reports do. -/

set_option autoImplicit false

namespace WindowTransitions

/-- A report, from a handler or from a job, that an animation came to its end. -/
def Message.isCompletion : Message → Bool
  | .handlerDone _ | .fadeDone _ _ => true
  | .ready _ _ _ | .request _ _ _ | .shutdown => false

/-! ## One record -/

namespace Record

/-- The record with `fades` still to run; nothing if there are none. -/
def leaving (r : Record) (fades : List AnimationId) : Option Record :=
  if fades = [] then none else some { r with fades := some fades }

/-- What is left of a record by the end of a default animation. -/
def without (r : Record) (a : AnimationId) : Option Record :=
  match r.fades with
  | some fades => r.leaving (fades.erase a)
  | none => some r

/-- The record is that of the transition that a ticket is for. -/
def isFor (r : Record) (token : Token) (k : Ticket) : Bool :=
  k.token = token && r.owner = some k.handler && r.generation = k.generation

/-- What a message leaves of the record of `token`. -/
def completed (r : Record) (token : Token) : Message → Option Record
  | .handlerDone k => if r.isFor token k then none else some r
  | .fadeDone other a => if other = token then r.without a else some r
  | .ready _ _ _ | .request _ _ _ | .shutdown => some r

variable {r s : Record} {token : Token}

theorem without_leaving (r : Record) (fades : List AnimationId) (a : AnimationId) :
    (r.leaving fades).bind (·.without a) = r.leaving (fades.erase a) := by
  by_cases h : fades = [] <;> simp [leaving, without, h]

theorem without_comm (r : Record) (a b : AnimationId) :
    (r.without a).bind (·.without b) = (r.without b).bind (·.without a) := by
  cases hf : r.fades with
  | none => simp [without, hf]
  | some fades =>
    have hafter : ∀ c, r.without c = r.leaving (fades.erase c) := fun c => by simp [without, hf]
    rw [hafter, hafter, without_leaving, without_leaving, List.erase_comm]

/-- The end of a default animation changes neither the owner nor the generation. -/
theorem isFor_without {a : AnimationId} {k : Ticket} (h : r.without a = some s) :
    s.isFor token k = r.isFor token k := by
  unfold without at h
  split at h
  · unfold leaving at h
    split at h <;> cases h
    rfl
  · cases h
    rfl

theorem without_handlerDone (r : Record) (token : Token) (a : AnimationId) (k : Ticket) :
    (r.without a).bind (·.completed token (.handlerDone k)) =
      (r.completed token (.handlerDone k)).bind (·.without a) := by
  cases h : r.without a with
  | none => cases hk : r.isFor token k <;> simp [completed, hk, h]
  | some s => cases hk : r.isFor token k <;> simp [completed, isFor_without h, hk, h]

theorem completed_comm (r : Record) (token : Token) (m n : Message) :
    (r.completed token m).bind (·.completed token n) = (r.completed token n).bind (·.completed token m) := by
  cases m with
  | ready | request | shutdown => simp [completed]
  | handlerDone k =>
    cases n with
    | ready | request | shutdown => simp [completed]
    | handlerDone k' => cases hk : r.isFor token k <;> cases hk' : r.isFor token k' <;> simp [completed, hk, hk']
    | fadeDone other a =>
      by_cases ht : other = token
      · simpa only [completed, ht, if_true] using (r.without_handlerDone token a k).symm
      · simp [completed, ht]
  | fadeDone other a =>
    by_cases ht : other = token
    · cases n with
      | ready | request | shutdown => simp [completed]
      | handlerDone k => simpa only [completed, ht, if_true] using r.without_handlerDone token a k
      | fadeDone other' b =>
        by_cases ht' : other' = token
        · simpa only [completed, ht, ht', if_true] using r.without_comm a b
        · simp [completed, ht']
    · simp [completed, ht]

theorem completed_of_ne {m : Message} (h : m.token? ≠ some token) : r.completed token m = some r := by
  cases m with
  | ready | request | shutdown => rfl
  | handlerDone k =>
    have hk : k.token ≠ token := fun he => h (congrArg some he)
    simp [completed, isFor, hk]
  | fadeDone other a =>
    have hk : other ≠ token := fun he => h (congrArg some he)
    simp [completed, hk]

end Record

/-! ## The table -/

namespace Table

/-- What a message leaves of the table. -/
def completed (t : Table) (m : Message) : Table :=
  t.filterMap fun e => (e.2.completed e.1 m).map fun r => (e.1, r)

theorem completed_comm (t : Table) (m n : Message) : (t.completed m).completed n = (t.completed n).completed m := by
  simp only [completed, List.filterMap_filterMap]
  apply List.filterMap_congr
  intro e _
  have hcomm := congrArg (Option.map fun r => (e.1, r)) (e.2.completed_comm e.1 m n)
  simpa only [Option.bind_map, Option.map_bind, Function.comp_def] using hcomm

/-- Reports leave the same table in every order. -/
theorem completed_perm (t : Table) {order order' : List Message} (h : order'.Perm order) :
    order'.foldl completed t = order.foldl completed t :=
  h.foldl_eq' (fun m _ n _ t => t.completed_comm m n) t

variable {t : Table} {token : Token} {r s : Record} {m : Message}

/-- A message is about one transition only. -/
theorem completed_entry (ht : t.tokens.Nodup) (hr : t.get? token = some r) (hm : m.token? = some token)
    {e : Token × Record} (he : e ∈ t) :
    e.2.completed e.1 m = if e.1 = token then r.completed token m else some e.2 := by
  by_cases hk : e.1 = token
  · subst hk
    obtain rfl := Option.some.inj (hr.symm.trans (get?_of_mem_pair ht he))
    rw [if_pos rfl]
  · rw [if_neg hk]
    refine Record.completed_of_ne fun h => hk ?_
    exact Option.some.inj (h.symm.trans hm)

theorem completed_eq_remove (ht : t.tokens.Nodup) (hr : t.get? token = some r) (hm : m.token? = some token)
    (h : r.completed token m = none) : t.completed m = t.remove token := by
  rw [completed, remove, ← List.filterMap_eq_filter]
  apply List.filterMap_congr
  intro e he
  rw [completed_entry ht hr hm he, h]
  by_cases hk : e.1 = token <;> simp [hk, Option.guard]

theorem completed_eq_put (ht : t.tokens.Nodup) (hr : t.get? token = some r) (hm : m.token? = some token)
    (h : r.completed token m = some s) : t.completed m = t.put token s := by
  rw [completed, put, ← List.filterMap_eq_map]
  apply List.filterMap_congr
  intro e he
  rw [completed_entry ht hr hm he, h]
  by_cases hk : e.1 = token <;> simp [hk]

theorem completed_eq_self (h : ∀ e ∈ t, e.2.completed e.1 m = some e.2) : t.completed m = t := by
  have hself : t.filterMap some = t := List.filterMap_some
  rw [completed]
  conv_rhs => rw [← hself]
  apply List.filterMap_congr
  intro e he
  rw [h e he]
  rfl

end Table

end WindowTransitions
