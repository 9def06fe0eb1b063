import WindowTransitions.Proofs.DrainBounds
import WindowTransitions.Rehearsal.Session

/-! Rehearsals. Their cast keeps to the conditions of the bound on drains, and every command leaves the table at rest.
Main statement: no drain of a rehearsal is cut short, whatever was commanded before. -/

set_option autoImplicit false

namespace WindowTransitions.Rehearsal.Session

open Shell

/-- A session after some commands. -/
def after (s : Session) (commands : List Command) : Session := commands.foldl (fun s c => (s.step c).2) s

/-- The table is left at rest, and the answer is not that messages are left. -/
structure Completes (result : Answer × Session) : Prop where
  atRest : result.2.shell.table.AtRest
  answer : ∀ handled, result.1 ≠ .cutShort handled

variable {s : Session}

theorem completes_perform {β : Type} {operation : Control Actor Issuer Pace β} {answer : β → Answer}
    (ht : (operation.perform s.shell).2.table.AtRest) (ha : ∀ b handled, answer b ≠ .cutShort handled) :
    Completes (s.perform operation answer) := by
  rw [Control.perform] at ht
  rw [perform]
  generalize operation.run s.shell = result at ht
  cases result with
  | ok b w => exact ⟨ht, ha b⟩
  | error f w => exact ⟨ht, fun _ => Answer.noConfusion⟩

theorem completes_drained (ht : s.shell.table.AtRest) {emptied shutdown : Nat → Answer}
    (he : ∀ n handled, emptied n ≠ .cutShort handled) (hs : ∀ n handled, shutdown n ≠ .cutShort handled) :
    Completes (s.drained emptied shutdown) where
  atRest := kept_atRest.run [.drain s.shell.drainLimit] s.shell ht
  answer := by
    have hends := (drainLimit_suffices actor_presentsOwn actor_silentWhenAsked ht).1
    simp only [drained]
    cases hd : s.shell.drain.ending with
    | emptied => exact he _
    | shutdown => exact hs _
    | failed f => exact nofun
    | cutShort => exact absurd hd hends

theorem completes_direct (ht : s.shell.table.AtRest) (c : Command) : Completes (s.direct c) := by
  cases c with
  | request kind token trigger =>
    exact completes_perform (kept_atRest.request s.shell kind token trigger ht) nofun
  | start kind containers handler =>
    exact completes_perform (kept_atRest.start s.shell kind containers handler ht) nofun
  | ready token batch start =>
    exact completes_perform (kept_atRest.ready s.shell token batch start ht) nofun
  | process m => exact completes_perform (kept_atRest.process s.shell m ht) nofun
  | drain | run =>
    rw [direct]
    exact completes_drained ht nofun nofun
  | register =>
    rw [direct]
    split <;> exact ⟨ht, nofun⟩
  | addHandler | query | handlers | describe | config | post | closed | frameAll | finishOldest | concludeAll | job
  | present | dropShell => exact ⟨ht, nofun⟩

/-- What is done to jobs, tickets and the queue leaves the table alone. -/
theorem completes_step (ht : s.shell.table.AtRest) (c : Command) : Completes (s.step c) := by
  cases c with
  | post m =>
    rw [step]
    split <;> exact ⟨ht, nofun⟩
  | job index act =>
    rw [step, jobAt]
    split
    · exact ⟨ht, nofun⟩
    · cases act <;> exact ⟨ht, nofun⟩
  | present handler index drop =>
    simp only [step, present]
    split
    · exact ⟨ht, nofun⟩
    · split
      · exact ⟨ht, nofun⟩
      · refine ⟨?_, nofun⟩
        dsimp only
        split <;> exact ht
  | closed | frameAll | finishOldest | concludeAll | dropShell => exact ⟨ht, nofun⟩
  | addHandler | request | start | ready | process | drain | run | register | query | handlers | describe | config =>
    simp only [step]
    split
    · exact completes_direct ht _
    · exact ⟨ht, nofun⟩

theorem after_atRest (ht : s.shell.table.AtRest) (commands : List Command) :
    (s.after commands).shell.table.AtRest := by
  induction commands generalizing s with
  | nil => exact ht
  | cons c commands ih => exact ih (completes_step ht c).atRest

/-- In a rehearsal, with any actors and after any commands, a drain goes on until nothing is left or a message ends
it. -/
theorem never_cutShort (config : Config) (authority : Issuer) (executor : Pace) (actors : List Actor)
    (commands : List Command) (c : Command) (handled : Nat) :
    (((opening config authority executor actors).after commands).step c).1 ≠ .cutShort handled := by
  have ht : (opening config authority executor actors).shell.table.AtRest :=
    (resting_fresh (η := Actor) config authority executor).1
  exact (completes_step (after_atRest ht commands) c).answer handled

end WindowTransitions.Rehearsal.Session
