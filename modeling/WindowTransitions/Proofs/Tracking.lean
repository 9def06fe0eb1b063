import WindowTransitions.Proofs.Completions

/-! Tables whose transitions all fade. Main statement: a token leaves the table with the last of its fades, and enters
it with jobs of its own. -/

set_option autoImplicit false

namespace WindowTransitions

namespace Table

variable {t : Table} {token : Token} {r s : Record}

theorem remove_append_new (h : t.get? token = none) : Table.remove (t ++ [(token, r)]) token = t := by
  have hnot := get?_eq_none_iff.mp h
  have hall : t.filter (·.1 ≠ token) = t := by
    refine List.filter_eq_self.mpr fun e he => decide_eq_true fun hk => hnot ?_
    rw [← hk]
    exact List.mem_map_of_mem he
  rw [remove, List.filter_append, hall]
  simp

theorem put_append_new (h : t.get? token = none) :
    Table.put (t ++ [(token, r)]) token s = t ++ [(token, s)] := by
  have hnot := get?_eq_none_iff.mp h
  rw [put, List.map_append]
  congr 1
  · refine (List.map_congr_left fun e he => if_neg fun hk => hnot ?_).trans (List.map_id t)
    rw [← hk]
    exact List.mem_map_of_mem he
  · simp

end Table

/-- The record of a transition whose fades run. -/
inductive Record.Fades : Record → Prop where
  | intro (kind : Kind) (assigned : Option HandlerId) (fades : List AnimationId) (generation : UInt64)
      (h : fades ≠ []) : Fades { kind, phase := .animating, assigned, fades := some fades, generation }

/-- Every active transition fades, by the jobs among `jobs` that have its token. -/
structure Table.Tracks (t : Table) (jobs : List Job) : Prop where
  distinct : t.tokens.Nodup
  records : ∀ e ∈ t, e.2.Fades
  fades : ∀ token, (t.fadesOf token).Perm ((jobs.filter (·.token = token)).map Job.id)

namespace Table.Tracks

variable {t : Table} {jobs : List Job} {token : Token} {r : Record} {j : Job}

theorem atRest (h : t.Tracks jobs) : t.AtRest := by
  refine ⟨h.distinct, fun e he => ?_⟩
  obtain ⟨token, r⟩ := e
  have hr := h.records _ he
  cases hr with
  | intro kind assigned fades generation hf => exact .fading kind assigned fades generation hf

/-- The active tokens are those of the jobs. -/
theorem mem_tokens (h : t.Tracks jobs) : token ∈ t.tokens ↔ ∃ j ∈ jobs, j.token = token := by
  have hperm := h.fades token
  constructor
  · intro hmem
    obtain ⟨e, he, rfl⟩ := List.mem_map.mp hmem
    have hget := get?_of_mem_pair h.distinct he
    have hr := h.records e he
    obtain ⟨token, r⟩ := e
    cases hr with
    | intro kind assigned fades generation hf =>
      rw [fadesOf_of_get? hget, Option.getD_some] at hperm
      have hne : (jobs.filter (·.token = token)) ≠ [] := by
        intro hnil
        rw [hnil] at hperm
        exact hf hperm.eq_nil
      obtain ⟨j, hj⟩ := List.exists_mem_of_ne_nil _ hne
      exact ⟨j, (List.mem_filter.mp hj).1, of_decide_eq_true (List.mem_filter.mp hj).2⟩
  · rintro ⟨j, hj, rfl⟩
    by_contra hnot
    have hnone : t.fadesOf j.token = [] := by rw [fadesOf, get?_eq_none_iff.mpr hnot]; rfl
    rw [hnone] at hperm
    have hmem : j.id ∈ (jobs.filter (·.token = j.token)).map Job.id :=
      List.mem_map_of_mem (List.mem_filter.mpr ⟨hj, decide_eq_true rfl⟩)
    rw [hperm.symm.eq_nil] at hmem
    cases hmem

theorem congr {jobs' : List Job} (h : t.Tracks jobs) (hp : jobs.Perm jobs') : t.Tracks jobs' :=
  ⟨h.distinct, h.records, fun token => (h.fades token).trans ((hp.filter _).map _)⟩

/-- The job that ends is tracked. -/
theorem mem_fadesOf (h : t.Tracks (j :: jobs)) : j.id ∈ t.fadesOf j.token := by
  refine (h.fades j.token).mem_iff.mpr (List.mem_map_of_mem ?_)
  exact List.mem_filter.mpr ⟨List.mem_cons_self, decide_eq_true rfl⟩

/-- What is left of the fades of each transition by the end of a job. -/
theorem fadesOf_erase (h : t.Tracks (j :: jobs)) (token : Token) :
    (Function.update t.fadesOf j.token ((t.fadesOf j.token).erase j.id) token).Perm
      ((jobs.filter (·.token = token)).map Job.id) := by
  have hperm := h.fades token
  by_cases ht : token = j.token
  · subst ht
    rw [List.filter_cons, if_pos (decide_eq_true rfl), List.map_cons] at hperm
    rw [Function.update_self]
    exact List.cons_perm_iff_perm_erase.mp hperm.symm |>.2.symm
  · rw [List.filter_cons, if_neg (by simpa using Ne.symm ht)] at hperm
    rw [Function.update_of_ne ht]
    exact hperm

section End
variable {fades : List AnimationId} (hr : t.get? j.token = some r) (hf : r.fades = some fades)
include hr hf

theorem fewer (h : t.Tracks (j :: jobs)) (hm : fades.erase j.id ≠ []) :
    (t.put j.token { r with fades := some (fades.erase j.id) }).Tracks jobs where
  distinct := (tokens_put ..).symm ▸ h.distinct
  records := by
    have hrecord := h.records _ (mem_of_get? hr)
    refine forall_put h.records ?_
    cases hrecord with
    | intro => exact .intro _ _ _ _ hm
  fades := by
    have hold : t.fadesOf j.token = fades := by rw [fadesOf_of_get? hr, hf, Option.getD_some]
    rw [fadesOf_put hr, Option.getD_some, ← hold]
    exact h.fadesOf_erase

theorem last (h : t.Tracks (j :: jobs)) (hm : fades.erase j.id = []) : (t.remove j.token).Tracks jobs where
  distinct := nodup_remove h.distinct
  records := forall_remove h.records
  fades := by
    have hold : t.fadesOf j.token = fades := by rw [fadesOf_of_get? hr, hf, Option.getD_some]
    rw [fadesOf_remove, ← hm, ← hold]
    exact h.fadesOf_erase

end End

/-- A transition starts to fade by jobs of its own. -/
theorem append {new : List Job} {fades : List AnimationId} (h : t.Tracks jobs) (hn : t.get? token = none)
    (hf : fades ≠ []) (hnew : ∀ j ∈ new, j.token = token) (hids : new.map Job.id = fades) (kind : Kind)
    (assigned : Option HandlerId) (generation : UInt64) :
    Tracks (t ++ [(token, { kind, phase := .animating, assigned, fades := some fades, generation })])
      (jobs ++ new) where
  distinct := nodup_append_singleton h.distinct hn
  records := forall_append h.records (.intro _ _ _ _ hf)
  fades := by
    intro k
    rw [List.filter_append, List.map_append]
    by_cases hk : k = token
    · subst hk
      have hold : (jobs.filter (·.token = k)).map Job.id = [] := by
        have hnone : t.fadesOf k = [] := by rw [fadesOf, hn]; rfl
        exact (hnone ▸ (h.fades k).symm).eq_nil
      have hall : new.filter (·.token = k) = new :=
        List.filter_eq_self.mpr fun j hj => decide_eq_true (hnew j hj)
      rw [fadesOf_of_get? (get?_append_new hn), hold, hall, hids]
      rfl
    · have hnone : new.filter (·.token = k) = [] :=
        List.filter_eq_nil_iff.mpr fun j hj => by simpa [hnew j hj] using Ne.symm hk
      rw [hnone, List.map_nil, List.append_nil, fadesOf, get?_append_other hk]
      exact h.fades k

end Table.Tracks

end WindowTransitions
