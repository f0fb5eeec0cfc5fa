import Mathlib.Tactic.Common

/-!
# Loops with an exit

`runUntil step next stop fuel s` makes steps from `s` until `stop` holds of what a step returns, and
goes on in the state `next` of it otherwise; there is no result if that takes more than `fuel`
steps. Two exits stop a loop in the same places exactly when they agree on what its steps return on
the way there.
-/

namespace Loop

universe u v w x

variable {ε : Type u} {σ : Type v} {τ : Type w} {ρ : Type x} {step : σ → Except ε τ} {next : τ → σ}
  {stop stop' : τ → Bool} {s : σ} {t : τ} {fuel : ℕ}

def runUntil (step : σ → Except ε τ) (next : τ → σ) (stop : τ → Bool) :
    ℕ → σ → Except ε (Option τ)
  | 0, _ => .ok none
  | fuel + 1, s =>
    match step s with
    | .error e => .error e
    | .ok t => if stop t then .ok (some t) else runUntil step next stop fuel (next t)

/-- What the steps return up to the exit. -/
inductive Visited (step : σ → Except ε τ) (next : τ → σ) (stop : τ → Bool) : σ → τ → Prop
  | here {s : σ} {t : τ} (hs : step s = .ok t) : Visited step next stop s t
  | later {s : σ} {t u : τ} (hs : step s = .ok t) (ht : stop t = false)
      (hv : Visited step next stop (next t) u) : Visited step next stop s u

/-- A loop that stops at once visits nothing else. -/
theorem Visited.eq_of_stop {u : τ} (hv : Visited step next stop s u) (hs : step s = .ok t)
    (ht : stop t = true) : u = t := by
  cases hv with
  | here hs' => exact Except.ok.inj (hs'.symm.trans hs)
  | later hs' hstop =>
    cases hs.symm.trans hs'
    exact absurd ht (by rw [hstop]; decide)

theorem runUntil_error {e : ε} (hs : step s = .error e) :
    runUntil step next stop (fuel + 1) s = .error e := by
  rw [runUntil, hs]

theorem runUntil_stop (hs : step s = .ok t) (ht : stop t = true) :
    runUntil step next stop (fuel + 1) s = .ok (some t) := by
  rw [runUntil, hs]
  exact if_pos ht

theorem runUntil_goOn (hs : step s = .ok t) (ht : stop t = false) :
    runUntil step next stop (fuel + 1) s = runUntil step next stop fuel (next t) := by
  rw [runUntil, hs]
  exact if_neg (by rw [ht]; decide)

theorem runUntil_congr (h : ∀ t, Visited step next stop s t → stop' t = stop t) (fuel : ℕ) :
    runUntil step next stop' fuel s = runUntil step next stop fuel s := by
  induction fuel generalizing s with
  | zero => rfl
  | succ fuel ih =>
    cases hs : step s with
    | error e => rw [runUntil_error hs, runUntil_error hs]
    | ok t =>
      have ht := h t (.here hs)
      cases hstop : stop t with
      | true => rw [runUntil_stop hs hstop, runUntil_stop hs (ht.trans hstop)]
      | false =>
        rw [runUntil_goOn hs hstop, runUntil_goOn hs (ht.trans hstop)]
        exact ih fun u hu => h u (.later hs hstop hu)

/-- Two exits stop a loop in the same places, whatever is looked at there, exactly when they agree
on the way. -/
theorem runUntil_map_eq_iff (f : τ → ρ) :
    (∀ fuel, (runUntil step next stop' fuel s).map (Option.map f) =
        (runUntil step next stop fuel s).map (Option.map f)) ↔
      ∀ t, Visited step next stop s t → stop' t = stop t := by
  refine ⟨fun h t hv => ?_, fun h fuel => congrArg _ (runUntil_congr h fuel)⟩
  induction hv with
  | @here s t hs =>
    have h1 := h 1
    cases hstop : stop t <;> cases hstop' : stop' t
    · rfl
    · rw [runUntil_stop hs hstop', runUntil_goOn hs hstop] at h1
      cases h1
    · rw [runUntil_goOn hs hstop', runUntil_stop hs hstop] at h1
      cases h1
    · rfl
  | @later s t u hs ht _ ih =>
    have ht' : stop' t = false := by
      cases hstop' : stop' t
      · rfl
      · have h1 := h 1
        rw [runUntil_stop hs hstop', runUntil_goOn hs ht] at h1
        cases h1
    refine ih fun fuel => ?_
    have hstep := h (fuel + 1)
    rwa [runUntil_goOn hs ht', runUntil_goOn hs ht] at hstep

end Loop
