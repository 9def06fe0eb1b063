import WindowTransitions.Proofs.Steps

/-! The two counters. The generation counter counts the starts that the authority was called for, and the next id of
an animation counts the default animations of all settled dispatches, both within the numbers of 64 bits. While there
are fewer starts than that, the generations of active transitions are pairwise distinct, start at one and do not
exceed the counter; while there are fewer animations, ids given out one after the other are pairwise distinct. -/

set_option autoImplicit false

namespace WindowTransitions

namespace Stage

/-- How many starts the authority has been called for. -/
def starts (s : Stage) : Nat := (s.journal.map Entry.starts).sum

/-- How many default animations have got an id. -/
def allotments (s : Stage) : Nat := (s.journal.map Entry.fades).sum

variable {s s' : Stage} {calls : List Entry}

theorem Adds.starts (h : Adds s s' calls) : s'.starts = s.starts + (calls.map Entry.starts).sum := by
  refine h.journal_sum ?_
  intro e he
  rcases Entry.posted_or_applied he with ⟨m, rfl⟩ | ⟨t, rfl⟩ <;> rfl

theorem Adds.allotments (h : Adds s s' calls) : s'.allotments = s.allotments + (calls.map Entry.fades).sum := by
  refine h.journal_sum ?_
  intro e he
  rcases Entry.posted_or_applied he with ⟨m, rfl⟩ | ⟨t, rfl⟩ <;> rfl

end Stage

/-! ## Ids in a row -/

namespace AnimationId

/-- The id after `n` others. -/
def nth (n : Nat) : AnimationId := ⟨UInt64.ofNat n⟩

theorem nth_injOn {m n : Nat} (hm : m < 2 ^ 64) (hn : n < 2 ^ 64) (h : nth m = nth n) : m = n := by
  have hmod := congrArg (fun a => a.number.toNat) h
  simp only [nth, UInt64.toNat_ofNat'] at hmod
  omega

theorem next_nth (n : Nat) : (nth n).next = nth (n + 1) := by simp [nth, next, UInt64.ofNat_add]

theorem skip_nth (n count : Nat) : (nth n).skip count = nth (n + count) := by simp [nth, skip, UInt64.ofNat_add]

theorem upFrom_nth (n count : Nat) : (nth n).upFrom count = (List.range' n count).map nth := by
  induction count generalizing n with
  | zero => rfl
  | succ count ih => rw [upFrom, next_nth, ih, List.range'_succ, List.map_cons]

theorem mem_upFrom_nth {n count : Nat} {a : AnimationId} :
    a ∈ (nth n).upFrom count ↔ ∃ k, n ≤ k ∧ k < n + count ∧ nth k = a := by
  simp [upFrom_nth, List.mem_range'_1, and_assoc]

theorem nodup_upFrom_nth {n count : Nat} (h : n + count ≤ 2 ^ 64) : ((nth n).upFrom count).Nodup := by
  rw [upFrom_nth]
  refine List.Nodup.map_on ?_ List.nodup_range'
  intro k hk m hm hkm
  rw [List.mem_range'_1] at hk hm
  exact nth_injOn (by omega) (by omega) hkm

end AnimationId

namespace Shell

variable {η α ε : Type} {w w' : Shell η α ε}

/-! ## What the counters count -/

structure Counted (w : Shell η α ε) : Prop where
  generation : w.generation = UInt64.ofNat w.stage.starts
  animation : w.nextAnimation = .nth w.stage.allotments

theorem counted_fresh (config : Config) (authority : α) (executor : ε) :
    (fresh config authority executor : Shell η α ε).Counted := ⟨rfl, rfl⟩

theorem take_starts (w : Shell η α ε) (m : Message) (rest : List Message) :
    (w.take m rest).stage.starts = w.stage.starts := by simp [take, Stage.starts, Stage.note, Entry.starts]

theorem take_allotments (w : Shell η α ε) (m : Message) (rest : List Message) :
    (w.take m rest).stage.allotments = w.stage.allotments := by
  simp [take, Stage.allotments, Stage.note, Entry.fades]

theorem take_log (w : Shell η α ε) (m : Message) (rest : List Message) :
    (w.take m rest).stage.log = w.stage.log ++ [.received m] := by
  rw [take, Stage.log, Stage.note, List.filter_append]
  rfl

theorem Counted.take (hw : w.Counted) (m : Message) (rest : List Message) : (w.take m rest).Counted where
  generation := by rw [take_starts, ← hw.generation]; rfl
  animation := by rw [take_allotments, ← hw.animation]; rfl

theorem Counted.toNat_generation (hw : w.Counted) (hs : w.stage.starts < 2 ^ 64) :
    w.generation.toNat = w.stage.starts := by
  rw [hw.generation, UInt64.toNat_ofNat', Nat.mod_eq_of_lt hs]

section Steps
variable [Authority α]

theorem Counted.of_leadsTo {t : Table} {calls : List Entry} (hw : w.Counted) (h : w.LeadsTo w' t calls) :
    w'.Counted where
  generation := by rw [h.generation, hw.generation, h.stage.starts, UInt64.ofNat_add]
  animation := by rw [h.animation, hw.animation, AnimationId.skip_nth, h.stage.allotments]

theorem Counted.of_step [Handler η] {ticket : Option Ticket} (hw : w.Counted) (h : w.Step ticket w') :
    w'.Counted := by
  obtain ⟨calls, h⟩ := h.leadsTo
  exact hw.of_leadsTo h

/-- A step with one call for a start counts one start. -/
theorem LeadsTo.one_start {t : Table} {calls : List Entry} {e : Event} (h : w.LeadsTo w' t (calls ++ [.event e]))
    (hone : (calls.map Entry.starts).sum = 1) :
    w'.stage.starts = w.stage.starts + 1 ∧ w'.generation = w.generation + 1 := by
  have hsum : ((calls ++ [Entry.event e]).map Entry.starts).sum = 1 := by
    rw [List.map_append, List.sum_append, hone]
    rfl
  exact ⟨by rw [h.stage.starts, hsum], by rw [h.generation, hsum]; rfl⟩

theorem Step.starts_le [Handler η] {ticket : Option Ticket} (h : w.Step ticket w') :
    w.stage.starts ≤ w'.stage.starts := by
  obtain ⟨calls, h⟩ := h.leadsTo
  rw [h.stage.starts]
  exact Nat.le_add_right _ _

theorem Step.allotments_le [Handler η] {ticket : Option Ticket} (h : w.Step ticket w') :
    w.stage.allotments ≤ w'.stage.allotments := by
  obtain ⟨calls, h⟩ := h.leadsTo
  rw [h.stage.allotments]
  exact Nat.le_add_right _ _

theorem kept_allotted [Handler η] [Executor ε] (n : Nat) :
    Kept fun w : Shell η α ε => w.table.AtRest ∧ n ≤ w.stage.allotments := by
  refine kept_of_steps (fun w a hw => hw) ?_ ?_
  · intro w m rest _ hw
    rwa [take_allotments]
  · intro w ticket w' _ hw h
    exact hw.trans h.allotments_le

end Steps

end Shell

/-! ## Generations in the table -/

namespace Table

def generations (t : Table) : List UInt64 := t.map (·.2.generation)

/-- The generations of a table are pairwise distinct and reach from one to at most `n`. -/
structure Dated (t : Table) (n : Nat) : Prop where
  distinct : t.generations.Nodup
  bounds : ∀ e ∈ t, 1 ≤ e.2.generation.toNat ∧ e.2.generation.toNat ≤ n

variable {t : Table} {n : Nat} {token : Token} {r s : Record}

theorem generations_put (ht : t.tokens.Nodup) (h : t.get? token = some s) (hg : r.generation = s.generation) :
    (t.put token r).generations = t.generations := by
  rw [generations, put, List.map_map, generations]
  apply List.map_congr_left
  intro e he
  by_cases hk : e.1 = token
  · have hs := get?_of_mem_pair ht he
    rw [hk, h, Option.some.injEq] at hs
    simp [hk, hg, hs]
  · simp [hk]

theorem Dated.put (hd : t.Dated n) (ht : t.tokens.Nodup) (h : t.get? token = some s)
    (hg : r.generation = s.generation) : (t.put token r).Dated n where
  distinct := by
    rw [generations_put ht h hg]
    exact hd.distinct
  bounds := forall_put hd.bounds (by simpa [hg] using hd.bounds _ (mem_of_get? h))

theorem Dated.remove (hd : t.Dated n) : (t.remove token).Dated n where
  distinct := hd.distinct.sublist (List.filter_sublist.map _)
  bounds := forall_remove hd.bounds

theorem Dated.append (hd : t.Dated n) (hr : r.generation.toNat = n + 1) : Dated (t ++ [(token, r)]) (n + 1) where
  distinct := by
    rw [generations, List.map_append]
    refine List.nodup_append.mpr ⟨hd.distinct, List.nodup_singleton _, ?_⟩
    intro g hg g' hg' heq
    obtain ⟨e, he, rfl⟩ := List.mem_map.mp hg
    have hbound := (hd.bounds e he).2
    rw [List.mem_singleton.mp hg'] at heq
    rw [heq] at hbound
    have : r.generation.toNat ≤ n := hbound
    omega
  bounds := by
    have hnew : 1 ≤ r.generation.toNat ∧ r.generation.toNat ≤ n + 1 := by omega
    exact forall_append (fun e he => ⟨(hd.bounds e he).1, Nat.le_succ_of_le (hd.bounds e he).2⟩) hnew

theorem Dated.get?_unique {other : Token} (hd : t.Dated n) (h : t.get? token = some r) (h' : t.get? other = some s)
    (hg : r.generation = s.generation) : token = other := by
  have hmem := mem_of_get? h
  have hmem' := mem_of_get? h'
  have heq := List.inj_on_of_nodup_map hd.distinct hmem hmem' hg
  exact congrArg Prod.fst heq

theorem Dated.mono {m : Nat} (hd : t.Dated n) (h : n ≤ m) : t.Dated m :=
  ⟨hd.distinct, fun e he => ⟨(hd.bounds e he).1, Nat.le_trans (hd.bounds e he).2 h⟩⟩

end Table

namespace Shell

variable {η α ε : Type} [Handler η] [Authority α] {w w' : Shell η α ε}

theorem Step.dated {ticket : Option Ticket} (ht : w.table.AtRest) (hc : w.Counted) (h : w.Step ticket w')
    (hs : w'.stage.starts < 2 ^ 64) (hd : w.table.Dated w.stage.starts) : w'.table.Dated w'.stage.starts := by
  have hle := h.starts_le
  have hcount := (hc.of_step h).toNat_generation hs
  cases h with
  | idle _ h =>
    rw [h.table]
    exact hd.mono hle
  | entered _ _ _ hone h =>
    obtain ⟨hstarts, hgeneration⟩ := h.one_start hone
    rw [h.table, hstarts]
    exact hd.append (by rw [← hgeneration, hcount, hstarts])
  | tidied _ h | unfaded _ _ _ h | presented _ _ h | last _ _ _ _ h =>
    rw [h.table]
    exact hd.remove.mono hle
  | owned hr _ _ h | faded hr _ _ _ h | fewer hr _ _ _ h =>
    rw [h.table]
    refine Table.Dated.mono (hd.put ht.distinct hr ?_) hle
    rfl

end Shell

end WindowTransitions
