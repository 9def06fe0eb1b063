import Mathlib.Data.List.Range
import WindowTransitions.Timeline

/-! The ticks of a fade. A fade ticks until a tick finds it over or its time is up, and a tick writes what the frame of
its fraction writes. Main statement: the ticks before some time are the first ones, each with the alpha of its fraction,
and only the last of them can find the fade over. -/

set_option autoImplicit false

namespace WindowTransitions

namespace Fade

/-- Tick `k` finds the fade over. -/
def IsOver (f : Fade) (interval k : Nat) : Prop := 1.0 ≤ f.fractionAt (k * interval)

/-- What tick `k` applies. -/
def tickFrame (f : Fade) (interval k : Nat) : Transaction := f.frame (f.fractionAt (k * interval))

/-- The alpha of tick `k`. -/
def tickAlpha (f : Fade) (interval k : Nat) : Float32 := f.alphaAt (f.fractionAt (k * interval))

/-- How many ticks a fade makes that starts at `start` if only those before `horizon` count, and whether the last of
them finds it over. -/
inductive Goes (f : Fade) (interval start horizon : Nat) : Nat → Bool → Prop where
  /-- Tick `k` is before the horizon and is the first that finds the fade over. -/
  | full {k : Nat} (hk : start + k * interval < horizon) (first : ∀ i < k, ¬ f.IsOver interval i)
      (h : f.IsOver interval k) : Goes f interval start horizon (k + 1) true
  /-- Just `n` ticks are before the horizon, and none of them finds the fade over. -/
  | cut {n : Nat} (hn : ∀ k, k < n ↔ start + k * interval < horizon) (h : ∀ k < n, ¬ f.IsOver interval k) :
    Goes f interval start horizon n false

theorem ticks_eq (f : Fade) (interval room k : Nat) :
    ∃ n full, f.ticks interval room k = ((List.range' k n).map (f.tickFrame interval), full) ∧
      (full = true → ∃ i, n = i + 1 ∧ i < room ∧ f.IsOver interval (k + i) ∧ ∀ j < i, ¬ f.IsOver interval (k + j)) ∧
      (full = false → n = room ∧ ∀ j < room, ¬ f.IsOver interval (k + j)) := by
  induction room generalizing k with
  | zero => exact ⟨0, false, rfl, (fun h => nomatch h), fun _ => ⟨rfl, fun _ hj => nomatch hj⟩⟩
  | succ room ih =>
    by_cases hk : f.IsOver interval k
    · exact ⟨1, true, if_pos hk, fun _ => ⟨0, rfl, room.succ_pos, hk, fun _ hj => nomatch hj⟩, fun h => nomatch h⟩
    · obtain ⟨n, full, hticks, hfull, hcut⟩ := ih (k + 1)
      have hshift : ∀ j, k + 1 + j = k + (j + 1) := fun j => by omega
      refine ⟨n + 1, full, ?_, fun h => ?_, fun h => ?_⟩
      · have hstep : f.ticks interval (room + 1) k =
            (f.tickFrame interval k :: (f.ticks interval room (k + 1)).1, (f.ticks interval room (k + 1)).2) :=
          if_neg hk
        rw [hstep, hticks, List.range'_succ, List.map_cons]
      · obtain ⟨i, hn, hi, hat, hbefore⟩ := hfull h
        rw [hshift] at hat
        refine ⟨i + 1, by rw [hn], by omega, hat, fun j hj => ?_⟩
        cases j with
        | zero => exact hk
        | succ j => exact hshift j ▸ hbefore j (by omega)
      · obtain ⟨hn, hnone⟩ := hcut h
        refine ⟨by rw [hn], fun j hj => ?_⟩
        cases j with
        | zero => exact hk
        | succ j => exact hshift j ▸ hnone j (by omega)

end Fade

/-! ## Parts -/

/-- A tick comes before `time` exactly if it is among the ticks that there is room for. -/
theorem lt_room_iff {start interval time k : Nat} (hi : 0 < interval) :
    k < (time - start + interval - 1) / interval ↔ start + k * interval < time := by
  rw [Nat.lt_iff_add_one_le, Nat.le_div_iff_mul_le hi, Nat.add_mul]
  omega

theorem Config.tickInterval_pos (c : Config) : 0 < c.tickInterval :=
  Nat.lt_of_lt_of_le (by decide) (Nat.le_max_right (nanoseconds c.frameInterval) 1000000)

/-- A frame writes the alpha of its fraction, and nothing else. -/
theorem AlphaWrite.ofTransaction_frame (time : Nat) (f : Fade) (fraction : Float32) :
    ofTransaction time (f.frame fraction) = [⟨time, f.surface, f.alphaAt fraction⟩] := rfl

/-- The last frame writes the end value, and nothing else. -/
theorem AlphaWrite.ofTransaction_lastFrame (time : Nat) (f : Fade) :
    ofTransaction time f.lastFrame = [⟨time, f.surface, f.target⟩] := rfl

namespace Part

/-- What tick `k` of a part writes. -/
def tickWrite (p : Part) (interval k : Nat) : AlphaWrite :=
  ⟨p.tickTime interval k, p.job.fade.surface, p.job.fade.tickAlpha interval k⟩

/-- What a tick writes is what the frame of its fraction writes at its time. -/
theorem ofTransaction_tickFrame (p : Part) (interval k : Nat) :
    AlphaWrite.ofTransaction (p.tickTime interval k) (p.job.fade.tickFrame interval k) = [p.tickWrite interval k] :=
  AlphaWrite.ofTransaction_frame _ _ _

theorem ticksBefore_goes (p : Part) {interval : Nat} (hi : 0 < interval) (time : Nat) :
    ∃ n full, p.ticksBefore interval time = ((List.range n).map (p.job.fade.tickFrame interval), full) ∧
      p.job.fade.Goes interval p.started time n full := by
  obtain ⟨n, full, hticks, hfull, hcut⟩ :=
    p.job.fade.ticks_eq interval ((time - p.started + interval - 1) / interval) 0
  rw [← List.range_eq_range'] at hticks
  refine ⟨n, full, hticks, ?_⟩
  cases full with
  | true =>
    obtain ⟨i, rfl, hroom, hat, hbefore⟩ := hfull rfl
    rw [Nat.zero_add] at hat
    exact .full ((lt_room_iff hi).mp hroom) (fun j hj => by simpa using hbefore j hj) hat
  | false =>
    obtain ⟨rfl, hnone⟩ := hcut rfl
    exact .cut (fun k => lt_room_iff hi) fun k hk => by simpa using hnone k hk

variable {p : Part} {interval time n : Nat} {full : Bool}

theorem ofTicks_eq (h : p.ticksBefore interval time = ((List.range n).map (p.job.fade.tickFrame interval), full)) :
    AlphaWrite.ofTicks p interval time = (List.range n).map (p.tickWrite interval) := by
  have hplaces : ((List.range n).map (p.job.fade.tickFrame interval)).zipIdx =
      (List.range n).map fun k => (p.job.fade.tickFrame interval k, k) :=
    List.ext_getElem (by simp) fun i _ _ => by simp
  rw [AlphaWrite.ofTicks, h, hplaces, List.flatMap_map]
  simp only [ofTransaction_tickFrame]
  exact List.map_eq_flatMap.symm

end Part

end WindowTransitions
