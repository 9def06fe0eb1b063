import Mathlib
import WindowTransitions.Proofs.Visits
import WindowTransitions.Shell.Basic

/-! What the stage records. A change of the stage adds to its journal, and a post lengthens the queue too; posts
and applied transactions apart, the entries that an operation adds are calls and reports of the shell itself. Main
statement: jobs, whatever is done to them, add posts and applied transactions only, and visits add their calls. -/

set_option autoImplicit false

namespace WindowTransitions

/-! ## Kinds of entries -/

namespace Entry

/-- An entry that no post and no applied transaction leaves. -/
def isCall : Entry → Bool
  | .posted _ | .applied _ => false
  | _ => true

theorem posted_or_applied {e : Entry} (h : e.isCall = false) : (∃ m, e = .posted m) ∨ ∃ t, e = .applied t := by
  cases e with
  | posted m => exact .inl ⟨m, rfl⟩
  | applied t => exact .inr ⟨t, rfl⟩
  | asked | offered | startCalled | finishCalled | event | received => cases h

def event? : Entry → Option Event
  | .event e => some e
  | _ => none

def finishCall? : Entry → Option Token
  | .finishCalled token => some token
  | _ => none

@[simp] theorem event?_event (e : Event) : (Entry.event e).event? = some e := rfl

@[simp] theorem event?_finishCalled (token : Token) : (finishCalled token).event? = none := rfl

@[simp] theorem finishCall?_event (e : Event) : (Entry.event e).finishCall? = none := rfl

@[simp] theorem finishCall?_finishCalled (token : Token) : (finishCalled token).finishCall? = some token := rfl

def posted? : Entry → Option Message
  | .posted m => some m
  | _ => none

end Entry

namespace Stage

/-! ## Additions -/

/-- `s'` is what becomes of `s` when `calls` are noted, with any posts and applied transactions among them. -/
def Adds (s s' : Stage) (calls : List Entry) : Prop :=
  s'.isOpen = s.isOpen ∧ ∃ more, s'.journal = s.journal ++ more ∧ s'.queue = s.queue ++ more.filterMap Entry.posted? ∧
    more.filter Entry.isCall = calls

variable {s s' s'' : Stage} {calls calls' : List Entry}

theorem Adds.refl (s : Stage) : Adds s s [] := ⟨rfl, [], by simp, by simp, rfl⟩

theorem Adds.trans (h : Adds s s' calls) (h' : Adds s' s'' calls') : Adds s s'' (calls ++ calls') := by
  obtain ⟨ho, more, hj, hq, rfl⟩ := h
  obtain ⟨ho', more', hj', hq', rfl⟩ := h'
  refine ⟨ho'.trans ho, more ++ more', ?_, ?_, List.filter_append ..⟩
  · rw [hj', hj, List.append_assoc]
  · rw [hq', hq, List.filterMap_append, List.append_assoc]

/-- A change after which nothing but posts and applied transactions is new. -/
theorem Adds.quietly (h : Adds s s' calls) (h' : Adds s' s'' []) : Adds s s'' calls := by
  simpa using h.trans h'

theorem Adds.foldl {β : Type} {f : Stage → β → Stage} {g : β → List Entry} (h : ∀ s b, Adds s (f s b) (g b)) :
    ∀ (bs : List β) (s : Stage), Adds s (bs.foldl f s) (bs.flatMap g)
  | [], s => .refl s
  | b :: bs, s => by
    rw [List.foldl_cons, List.flatMap_cons]
    exact (h s b).trans (Adds.foldl h bs _)

theorem adds_note (s : Stage) {e : Entry} (he : e.isCall = true) : Adds s (s.note e) [e] := by
  refine ⟨rfl, [e], rfl, ?_, by simp [he]⟩
  cases e <;> simp_all [Entry.isCall, Entry.posted?, note]

theorem adds_apply (s : Stage) (t : Transaction) : Adds s (s.apply t) [] :=
  ⟨rfl, [.applied t], rfl, by simp [apply, note, Entry.posted?], rfl⟩

theorem adds_post (s : Stage) (m : Message) : Adds s (s.post m) [] := by
  unfold post
  split
  · exact ⟨rfl, [.posted m], rfl, by simp [note, Entry.posted?], rfl⟩
  · exact .refl s

theorem adds_enter (s : Stage) (j : Job) : Adds s (s.enter j) [] := ⟨rfl, [], by simp [enter], by simp [enter], rfl⟩

/-! ## Jobs -/

theorem adds_complete (s : Stage) (j : Job) : Adds s (s.complete j).1 [] := by
  unfold complete
  split
  · exact .refl s
  · exact (adds_apply s _).trans (adds_post _ _)

theorem adds_conclude (s : Stage) (j : Job) (how : Ending) : Adds s (s.conclude j how) [] := by
  cases how with
  | finish | cancel => exact (adds_complete s j).trans (adds_complete _ _)
  | drop => exact adds_complete s j

theorem adds_concludeAt (s : Stage) (index : Nat) (how : Ending) : Adds s (s.concludeAt index how) [] := by
  unfold concludeAt
  split
  · exact adds_conclude { s with jobs := s.jobs.eraseIdx index } _ how
  · exact .refl s

theorem adds_perform (s : Stage) (a : Act) : Adds s (s.perform a) [] := by
  cases a with
  | frame index fraction =>
    simp only [perform]
    split
    · exact adds_apply s _
    · exact .refl s
  | conclude index how => exact adds_concludeAt s index how

/-! ## Reading the journal -/

theorem Adds.filterMap {β : Type} {f : Entry → Option β} (hf : ∀ e, e.isCall = false → f e = none)
    (h : Adds s s' calls) : s'.journal.filterMap f = s.journal.filterMap f ++ calls.filterMap f := by
  obtain ⟨_, more, hj, _, rfl⟩ := h
  rw [hj, List.filterMap_append, List.filterMap_filter]
  congr 1
  apply List.filterMap_congr
  intro e _
  cases he : e.isCall with
  | true => simp
  | false => simp [hf e he]

theorem Adds.journal_foldl {β : Type} {f : β → Entry → β} (hf : ∀ b e, e.isCall = false → f b e = b)
    (h : Adds s s' calls) (b : β) : s'.journal.foldl f b = calls.foldl f (s.journal.foldl f b) := by
  obtain ⟨_, more, hj, _, rfl⟩ := h
  rw [hj, List.foldl_append, List.foldl_filter]
  congr 1
  funext b e
  cases he : e.isCall with
  | true => simp
  | false => simp [hf b e he]

theorem sum_filter_isCall {f : Entry → Nat} (hf : ∀ e, e.isCall = false → f e = 0) (more : List Entry) :
    ((more.filter Entry.isCall).map f).sum = (more.map f).sum := by
  induction more with
  | nil => rfl
  | cons e more ih =>
    rw [List.map_cons, List.sum_cons, ← ih]
    cases he : e.isCall with
    | true => rw [List.filter_cons_of_pos he, List.map_cons, List.sum_cons]
    | false => rw [List.filter_cons_of_neg (by simp [he]), hf e he, Nat.zero_add]

theorem Adds.journal_sum {f : Entry → Nat} (hf : ∀ e, e.isCall = false → f e = 0) (h : Adds s s' calls) :
    (s'.journal.map f).sum = (s.journal.map f).sum + (calls.map f).sum := by
  obtain ⟨_, more, hj, _, rfl⟩ := h
  rw [hj, List.map_append, List.sum_append, sum_filter_isCall hf]

/-- What has been reported, in order. -/
def events (s : Stage) : List Event := s.journal.filterMap Entry.event?

/-- The tokens that the authority was told are finished, in order. -/
def finishCalls (s : Stage) : List Token := s.journal.filterMap Entry.finishCall?

/-- What the shell did, posts and applied transactions apart. -/
def log (s : Stage) : List Entry := s.journal.filter Entry.isCall

theorem Adds.log (h : Adds s s' calls) : s'.log = s.log ++ calls := by
  obtain ⟨_, more, hj, _, rfl⟩ := h
  rw [Stage.log, hj, List.filter_append, Stage.log]

theorem Adds.events (h : Adds s s' calls) : s'.events = s.events ++ calls.filterMap Entry.event? := by
  refine h.filterMap ?_
  intro e he
  rcases Entry.posted_or_applied he with ⟨m, rfl⟩ | ⟨t, rfl⟩ <;> rfl

theorem Adds.finishCalls (h : Adds s s' calls) :
    s'.finishCalls = s.finishCalls ++ calls.filterMap Entry.finishCall? := by
  refine h.filterMap ?_
  intro e he
  rcases Entry.posted_or_applied he with ⟨m, rfl⟩ | ⟨t, rfl⟩ <;> rfl

end Stage

namespace Shell

variable {η α ε : Type} (w : Shell η α ε)

/-! ## Visits and launches -/

theorem adds_visited {v : Visit} (hv : v.call.isCall = true) : w.stage.Adds (w.visited v).stage [v.call] := by
  have posts := Stage.Adds.foldl Stage.adds_post v.posted (w.stage.note v.call)
  rw [List.flatMap_eq_nil_iff.mpr fun _ _ => rfl] at posts
  exact (Stage.adds_note w.stage hv).quietly posts

theorem adds_visits {visits : List Visit} (hv : ∀ v ∈ visits, v.call.isCall = true) :
    w.stage.Adds (visits.foldl visited w).stage (visits.map Visit.call) := by
  induction visits generalizing w with
  | nil => exact .refl _
  | cons v visits ih =>
    exact (w.adds_visited (hv v (by simp))).trans (ih (w.visited v) fun u hu => hv u (by simp [hu]))

theorem adds_launch [Executor ε] (j : Job) : w.stage.Adds (w.launch j).stage [] := by
  have acts := Stage.Adds.foldl Stage.adds_perform (Executor.execute w.executor (w.stage.enter j).jobs).1
    (w.stage.enter j)
  rw [List.flatMap_eq_nil_iff.mpr fun _ _ => rfl] at acts
  exact (Stage.adds_enter w.stage j).trans acts

theorem adds_launches [Executor ε] (jobs : List Job) : w.stage.Adds (jobs.foldl launch w).stage [] := by
  induction jobs generalizing w with
  | nil => exact .refl _
  | cons j jobs ih => exact (w.adds_launch j).trans (ih (w.launch j))

end Shell

end WindowTransitions
