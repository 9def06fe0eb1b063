import WindowTransitions.Proofs.Counters

/-! The default animations that run for each token. A step leaves them alone, lets new ones run for one token, or
ends one of them. Main statement: while ids are not used up, an id runs once, for one token. -/

set_option autoImplicit false

namespace WindowTransitions

/-! ## What runs for a token -/

namespace Table

/-- The default animations that still run for a token. -/
def fadesOf (t : Table) (token : Token) : List AnimationId := ((t.get? token).bind (·.fades)).getD []

variable {t : Table} {token : Token} {r s : Record}

theorem fadesOf_of_get? (h : t.get? token = some r) : t.fadesOf token = r.fades.getD [] := by
  rw [fadesOf, h]
  rfl

theorem mem_fadesOf {a : AnimationId} :
    a ∈ t.fadesOf token ↔ ∃ r fades, t.get? token = some r ∧ r.fades = some fades ∧ a ∈ fades := by
  unfold fadesOf
  cases hr : t.get? token with
  | none => simp
  | some r => cases hf : r.fades <;> simp [hf]

theorem fadesOf_put (h : t.get? token = some s) :
    (t.put token r).fadesOf = Function.update t.fadesOf token (r.fades.getD []) := by
  funext k
  by_cases hk : k = token
  · subst hk
    rw [Function.update_self, fadesOf_of_get? (get?_put_self h)]
  · rw [Function.update_of_ne hk, fadesOf, get?_put_other hk, fadesOf]

theorem fadesOf_remove : (t.remove token).fadesOf = Function.update t.fadesOf token [] := by
  funext k
  by_cases hk : k = token
  · subst hk
    rw [Function.update_self, fadesOf, get?_remove_self]
    rfl
  · rw [Function.update_of_ne hk, fadesOf, get?_remove_other hk, fadesOf]

theorem fadesOf_append (h : t.get? token = none) (hr : r.fades = none) : fadesOf (t ++ [(token, r)]) = t.fadesOf := by
  funext k
  by_cases hk : k = token
  · subst hk
    rw [fadesOf_of_get? (get?_append_new h), hr, fadesOf, h]
    rfl
  · rw [fadesOf, get?_append_other hk, fadesOf]

theorem fadesOf_put_of_none (h : t.get? token = some s) (hs : s.fades = none) (hr : r.fades = none) :
    (t.put token r).fadesOf = t.fadesOf := by
  have hold : t.fadesOf token = [] := by rw [fadesOf_of_get? h, hs, Option.getD_none]
  rw [fadesOf_put h, hr, Option.getD_none, ← hold, Function.update_eq_self]

theorem fadesOf_remove_of_none (h : t.get? token = some s) (hs : s.fades = none) :
    (t.remove token).fadesOf = t.fadesOf := by
  have hold : t.fadesOf token = [] := by rw [fadesOf_of_get? h, hs, Option.getD_none]
  rw [fadesOf_remove, ← hold, Function.update_eq_self]

end Table

/-! ## Ids of one transition each -/

/-- Every id runs once, for one token, and is among the first `n`. -/
structure Apart (running : Token → List AnimationId) (n : Nat) : Prop where
  nodup : ∀ token, (running token).Nodup
  unique : ∀ {token token' a}, a ∈ running token → a ∈ running token' → token = token'
  below : ∀ {token a}, a ∈ running token → ∃ k < n, AnimationId.nth k = a

namespace Apart

variable {running : Token → List AnimationId} {n : Nat}

theorem nothing (n : Nat) : Apart (fun _ => []) n := ⟨fun _ => List.nodup_nil, by simp, by simp⟩

theorem mono {m : Nat} (h : Apart running n) (hle : n ≤ m) : Apart running m where
  nodup := h.nodup
  unique := h.unique
  below ha := by
    obtain ⟨k, hk, hka⟩ := h.below ha
    exact ⟨k, Nat.lt_of_lt_of_le hk hle, hka⟩

theorem restrict {fewer : List AnimationId} {token : Token} (h : Apart running n)
    (hs : fewer.Sublist (running token)) : Apart (Function.update running token fewer) n := by
  have old : ∀ {k a}, a ∈ Function.update running token fewer k → a ∈ running k := by
    intro k a ha
    by_cases hk : k = token
    · subst hk
      rw [Function.update_self] at ha
      exact hs.subset ha
    · rwa [Function.update_of_ne hk] at ha
  refine ⟨fun k => ?_, fun ha ha' => h.unique (old ha) (old ha'), fun ha => h.below (old ha)⟩
  by_cases hk : k = token
  · subst hk
    rw [Function.update_self]
    exact (h.nodup k).sublist hs
  · rw [Function.update_of_ne hk]
    exact h.nodup k

/-- New ids are apart from all that have been given out before. -/
theorem begin {count : Nat} (token : Token) (h : Apart running n) (hn : n + count ≤ 2 ^ 64) :
    Apart (Function.update running token ((AnimationId.nth n).upFrom count)) (n + count) := by
  have new : ∀ {k a}, k ≠ token → a ∈ running k → a ∉ (AnimationId.nth n).upFrom count := by
    intro k a hk ha hmem
    obtain ⟨i, hi, hia⟩ := h.below ha
    obtain ⟨j, hj, hj', hja⟩ := AnimationId.mem_upFrom_nth.mp hmem
    have hij := AnimationId.nth_injOn (by omega) (by omega) (hia.trans hja.symm)
    omega
  refine ⟨fun k => ?_, fun {k k' a} ha ha' => ?_, fun {k a} ha => ?_⟩
  · by_cases hk : k = token
    · subst hk
      rw [Function.update_self]
      exact AnimationId.nodup_upFrom_nth hn
    · rw [Function.update_of_ne hk]
      exact h.nodup k
  · by_cases hk : k = token <;> by_cases hk' : k' = token
    · rw [hk, hk']
    · subst hk
      rw [Function.update_self] at ha
      rw [Function.update_of_ne hk'] at ha'
      exact absurd ha (new hk' ha')
    · subst hk'
      rw [Function.update_self] at ha'
      rw [Function.update_of_ne hk] at ha
      exact absurd ha' (new hk ha)
    · rw [Function.update_of_ne hk] at ha
      rw [Function.update_of_ne hk'] at ha'
      exact h.unique ha ha'
  · by_cases hk : k = token
    · subst hk
      rw [Function.update_self] at ha
      obtain ⟨i, _, hi, hia⟩ := AnimationId.mem_upFrom_nth.mp ha
      exact ⟨i, hi, hia⟩
    · rw [Function.update_of_ne hk] at ha
      obtain ⟨i, hi, hia⟩ := h.below ha
      exact ⟨i, by omega, hia⟩

end Apart

namespace Shell

variable {η α ε : Type} [Handler η] [Authority α] {w w' : Shell η α ε}

/-- What a step does to the default animations that run. -/
theorem Step.fadesOf {ticket : Option Ticket} (ht : w.table.AtRest) (h : w.Step ticket w') :
    w'.table.fadesOf = w.table.fadesOf ∨
      (∃ token count, w'.table.fadesOf = Function.update w.table.fadesOf token (w.nextAnimation.upFrom count) ∧
        w'.stage.allotments = w.stage.allotments + count) ∨
      ∃ token a, w'.table.fadesOf = Function.update w.table.fadesOf token ((w.table.fadesOf token).erase a) := by
  cases h with
  | idle _ h =>
    rw [h.table]
    exact .inl rfl
  | entered hn _ _ _ h =>
    rw [h.table]
    exact .inl (Table.fadesOf_append hn rfl)
  | tidied hr h | unfaded hr _ _ h =>
    rw [h.table]
    exact .inl (Table.fadesOf_remove_of_none hr rfl)
  | owned hr _ _ h =>
    rw [h.table]
    exact .inl (Table.fadesOf_put_of_none hr rfl rfl)
  | presented _ hh h =>
    obtain ⟨r, hr, ho, _⟩ := hh
    rw [h.table]
    exact .inl (Table.fadesOf_remove_of_none hr ((ht.get? hr).fades_of_owner ho))
  | @faded token _ _ _ _ d count hr hd _ _ h =>
    refine .inr (.inl ⟨token, count, ?_, ?_⟩)
    · rw [h.table, Table.fadesOf_put hr, Option.getD_some]
    · rw [h.stage.allotments, fades_of_dispatch hd w.authority]
  | @fewer token _ fades a hr hf _ _ h =>
    refine .inr (.inr ⟨token, a, ?_⟩)
    rw [h.table, Table.fadesOf_put hr, Table.fadesOf_of_get? hr, hf]
    rfl
  | @last token _ fades a hr hf _ hm h =>
    refine .inr (.inr ⟨token, a, ?_⟩)
    rw [h.table, Table.fadesOf_remove, Table.fadesOf_of_get? hr, hf, Option.getD_some, hm]

theorem Step.apart {ticket : Option Ticket} (ht : w.table.AtRest) (hc : w.Counted) (h : w.Step ticket w')
    (ha : w'.stage.allotments < 2 ^ 64) (hapart : Apart w.table.fadesOf w.stage.allotments) :
    Apart w'.table.fadesOf w'.stage.allotments := by
  have hle := h.allotments_le
  rcases h.fadesOf ht with hf | ⟨token, count, hf, hcount⟩ | ⟨token, a, hf⟩
  · rw [hf]
    exact hapart.mono hle
  · rw [hf, hcount, hc.animation]
    exact hapart.begin token (by omega)
  · rw [hf]
    exact (hapart.restrict List.erase_sublist).mono hle

end Shell

end WindowTransitions
