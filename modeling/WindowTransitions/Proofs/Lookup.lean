import Mathlib.Data.List.Nodup
import WindowTransitions.Lifecycle.Table

/-! Laws of the table of active transitions. While its tokens are pairwise distinct, a record is found under a
token exactly if it stands there, so a table may be read by look-up or entry by entry. -/

set_option autoImplicit false

namespace WindowTransitions.Table

variable {t : Table} {token : Token} {r s : Record} {e : Token × Record}

/-! ## Look-up and membership -/

theorem mem_of_get? (h : t.get? token = some r) : (token, r) ∈ t := by
  obtain ⟨e, he, rfl⟩ := Option.map_eq_some_iff.mp h
  have hk : e.1 = token := by simpa using List.find?_some he
  rw [← hk]
  exact List.mem_of_find?_eq_some he

theorem get?_eq_none_iff : t.get? token = none ↔ token ∉ t.tokens := by
  simp only [get?, tokens, Option.map_eq_none_iff, List.find?_eq_none, decide_eq_true_eq, List.mem_map,
    not_exists, not_and]

theorem get?_of_mem (ht : t.tokens.Nodup) (h : (token, r) ∈ t) : t.get? token = some r := by
  induction t with
  | nil => cases h
  | cons e t ih =>
    rw [tokens, List.map_cons, List.nodup_cons] at ht
    rw [get?_cons]
    rcases List.mem_cons.mp h with rfl | h
    · simp
    · have hne : e.1 ≠ token := fun hk => ht.1 (List.mem_map.mpr ⟨_, h, hk.symm⟩)
      rw [if_neg hne]
      exact ih ht.2 h

theorem get?_of_mem_pair (ht : t.tokens.Nodup) (h : e ∈ t) : t.get? e.1 = some e.2 := get?_of_mem ht h

theorem contains_eq_true_iff : t.contains token = true ↔ token ∈ t.tokens := by
  rw [contains, Option.isSome_iff_ne_none, ne_eq, get?_eq_none_iff, not_not]

/-! ## Putting, removing and adding -/

theorem put_put : (t.put token r).put token s = t.put token s := by
  simp only [put, List.map_map]
  apply List.map_congr_left
  intro e _
  by_cases h : e.1 = token <;> simp [h]

theorem remove_put : (t.put token r).remove token = t.remove token := by
  induction t with
  | nil => rfl
  | cons e t ih =>
    simp only [put, remove, List.map_cons, List.filter_cons] at ih ⊢
    rw [ih]
    by_cases h : e.1 = token <;> simp [h]

theorem mem_put (h : e ∈ t.put token r) : e = (token, r) ∨ e ∈ t ∧ e.1 ≠ token := by
  obtain ⟨d, hd, he⟩ := List.mem_map.mp h
  by_cases hk : d.1 = token
  · rw [if_pos hk] at he
    exact .inl he.symm
  · rw [if_neg hk] at he
    subst he
    exact .inr ⟨hd, hk⟩

theorem mem_remove : e ∈ t.remove token ↔ e ∈ t ∧ e.1 ≠ token := by simp [remove]

theorem tokens_remove : (t.remove token).tokens = t.tokens.filter (· ≠ token) := by
  simp [tokens, remove, List.filter_map, Function.comp_def]

theorem nodup_remove (ht : t.tokens.Nodup) : (t.remove token).tokens.Nodup := by
  rw [tokens_remove]
  exact ht.filter _

theorem tokens_append_singleton : tokens (t ++ [(token, r)]) = t.tokens ++ [token] := by simp [tokens]

theorem nodup_append_singleton (ht : t.tokens.Nodup) (h : t.get? token = none) :
    (tokens (t ++ [(token, r)])).Nodup := by
  rw [tokens_append_singleton]
  exact List.nodup_append.mpr ⟨ht, List.nodup_singleton _, by
    intro a ha b hb hab
    rw [List.mem_singleton.mp hb] at hab
    exact get?_eq_none_iff.mp h (hab ▸ ha)⟩

/-! ## Records under a put, a removal and an addition -/

section Forall
variable {Q : Token × Record → Prop}

theorem forall_put (ht : ∀ e ∈ t, Q e) (hr : Q (token, r)) : ∀ e ∈ t.put token r, Q e := by
  intro e he
  rcases mem_put he with rfl | ⟨he, _⟩
  · exact hr
  · exact ht e he

theorem forall_remove (ht : ∀ e ∈ t, Q e) : ∀ e ∈ t.remove token, Q e := fun e he => ht e (mem_remove.mp he).1

theorem forall_append (ht : ∀ e ∈ t, Q e) (hr : Q (token, r)) : ∀ e ∈ t ++ [(token, r)], Q e := by
  intro e he
  rcases List.mem_append.mp he with he | he
  · exact ht e he
  · rw [List.mem_singleton.mp he]
    exact hr

end Forall

/-! ## Look-up after a change -/

theorem get?_append_new (h : t.get? token = none) : get? (t ++ [(token, r)]) token = some r := by
  rw [get?_append_singleton, h, if_pos rfl]
  rfl

theorem get?_append_other {other : Token} (h : other ≠ token) : get? (t ++ [(token, r)]) other = t.get? other := by
  rw [get?_append_singleton, if_neg h.symm, Option.or_none]

theorem get?_put_self (h : t.get? token = some s) : (t.put token r).get? token = some r := by
  rw [get?_put, if_pos rfl, h]
  rfl

theorem get?_put_other {other : Token} (h : other ≠ token) : (t.put token r).get? other = t.get? other := by
  rw [get?_put, if_neg h.symm]

theorem get?_remove_self : (t.remove token).get? token = none := by rw [get?_remove, if_pos rfl]

theorem get?_remove_other {other : Token} (h : other ≠ token) : (t.remove token).get? other = t.get? other := by
  rw [get?_remove, if_neg h.symm]

/-! ## Insertion -/

theorem insert_of_none (h : t.get? token = none) : t.insert token r = .ok (t ++ [(token, r)]) := by
  simp [Table.insert, contains, h]

theorem insert_of_some (h : t.get? token = some s) : t.insert token r = .error (.duplicateStart token) := by
  simp [Table.insert, contains, h]

end WindowTransitions.Table
