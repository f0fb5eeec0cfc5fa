import Mathlib.Tactic.Common

/-!
# Programs over a state

Rules for programs that return a value or fail and in both cases leave a state (`EStateM`).
`endState` is the state an outcome leaves. `Keeps f x` says that no run of `x` changes the
observation `f` of the state; it is closed under the program constructs, so that a frame condition
follows from the frame conditions of the parts. `Respects R x` says that runs of `x` from states
that `R` relates have the same outcome and end in such states; with a relation between equal states
it is an invariant of `x`. `Leads R x` is about the runs that return, `failure x` about those that
do not.
-/

namespace Prog

universe u

variable {ε σ α β : Type u} {γ : Type*}

/-- The state an outcome leaves, whether it is a value or a failure. -/
def endState : EStateM.Result ε σ α → σ
  | .ok _ s => s
  | .error _ s => s

@[simp] theorem endState_ok (a : α) (s : σ) : endState (.ok a s : EStateM.Result ε σ α) = s := rfl

@[simp] theorem endState_error (e : ε) (s : σ) :
    endState (.error e s : EStateM.Result ε σ α) = s := rfl

/-! ## Runs of a sequence -/

section Bind

variable {x : EStateM ε σ α} {k : α → EStateM ε σ β} {s s' : σ}

theorem run_get_bind (k : σ → EStateM ε σ β) (s : σ) : (get >>= k).run s = (k s).run s := rfl

theorem run_bind_ok {a : α} (h : x.run s = .ok a s') : (x >>= k).run s = (k a).run s' := by
  rw [EStateM.run_bind, h]

theorem run_bind_error {e : ε} (h : x.run s = .error e s') : (x >>= k).run s = .error e s' := by
  rw [EStateM.run_bind, h]

/-- A sequence returns through an intermediate state. -/
theorem bind_eq_ok {b : β} {t : σ} (h : (x >>= k).run s = .ok b t) :
    ∃ a s', x.run s = .ok a s' ∧ (k a).run s' = .ok b t := by
  rw [EStateM.run_bind] at h
  cases hx : x.run s with
  | ok a s' => exact ⟨a, s', rfl, by simpa [hx] using h⟩
  | error e s' => simp [hx] at h

end Bind

/-! ## Frame conditions -/

/-- No run of `x` changes the observation `f`. -/
def Keeps (f : σ → γ) (x : EStateM ε σ α) : Prop := ∀ s, f (endState (x.run s)) = f s

namespace Keeps

variable {f : σ → γ} {x : EStateM ε σ α} {k : α → EStateM ε σ β}

protected theorem pure (a : α) : Keeps f (pure a : EStateM ε σ α) := fun _ => rfl

protected theorem throw (e : ε) : Keeps f (throw e : EStateM ε σ α) := fun _ => rfl

protected theorem get : Keeps f (get : EStateM ε σ σ) := fun _ => rfl

protected theorem modify {g : σ → σ} (h : ∀ s, f (g s) = f s) :
    Keeps f (modify g : EStateM ε σ PUnit) := h

protected theorem bind (hx : Keeps f x) (hk : ∀ a, Keeps f (k a)) : Keeps f (x >>= k) := by
  intro s
  have hs := hx s
  rw [EStateM.run_bind]
  cases h : x.run s with
  | ok a s' =>
    rw [h] at hs
    exact (hk a s').trans hs
  | error e s' =>
    rw [h] at hs
    exact hs

/-- The state that a run returns in. -/
protected theorem eq_ok {s t : σ} {a : α} (h : Keeps f x) (hx : x.run s = .ok a t) : f t = f s := by
  have hs := h s
  rwa [hx] at hs

/-- After a program that keeps `f`, a state found by `get` may be put back changed, as long as the
change keeps `f`. -/
protected theorem get_bind {k : σ → EStateM ε σ β}
    (h : ∀ s, f (endState ((k s).run s)) = f s) : Keeps f (get >>= k) := h

protected theorem ite {c : Prop} [Decidable c] {y : EStateM ε σ α} (hx : Keeps f x)
    (hy : Keeps f y) : Keeps f (if c then x else y) := by
  split
  · exact hx
  · exact hy

end Keeps

/-! ## Runs that return -/

/-- A run of `x` that returns leads from a state to one that `R` relates to it. -/
def Leads (R : σ → σ → Prop) (x : EStateM ε σ α) : Prop := ∀ s a t, x.run s = .ok a t → R s t

namespace Leads

variable {R S Q : σ → σ → Prop} {x y : EStateM ε σ α} {k : α → EStateM ε σ β}

protected theorem pure (h : ∀ s, R s s) (a : α) : Leads R (pure a : EStateM ε σ α) := by
  intro s _ t ht
  cases ht
  exact h s

protected theorem throw (e : ε) : Leads R (throw e : EStateM ε σ α) := by
  intro s a t h
  cases h

protected theorem get (h : ∀ s, R s s) : Leads R (get : EStateM ε σ σ) := by
  intro s _ t ht
  cases ht
  exact h s

protected theorem modify {f : σ → σ} (h : ∀ s, R s (f s)) :
    Leads R (modify f : EStateM ε σ PUnit) := by
  intro s _ t ht
  cases ht
  exact h s

protected theorem bind (h : ∀ s t u, R s t → S t u → Q s u) (hx : Leads R x)
    (hk : ∀ a, Leads S (k a)) : Leads Q (x >>= k) := by
  intro s b u hu
  obtain ⟨a, t, ha, hb⟩ := bind_eq_ok hu
  exact h s t u (hx s a t ha) (hk a t b u hb)

protected theorem ite {c : Prop} [Decidable c] (hx : Leads R x) (hy : Leads R y) :
    Leads R (if c then x else y) := by
  split
  · exact hx
  · exact hy

/-- An observation that is kept is kept when the run returns. -/
theorem of_keeps {f : σ → γ} (h : Keeps f x) : Leads (fun s t => f t = f s) x :=
  fun _ _ _ hx => h.eq_ok hx

end Leads

/-! ## Runs that fail -/

/-- How the run of `x` fails, if it does. -/
def failure (x : EStateM ε σ α) (s : σ) : Option ε :=
  match x.run s with
  | .ok .. => none
  | .error e _ => some e

/-- No run of `x` fails. -/
def Returns (x : EStateM ε σ α) : Prop := ∀ s, failure x s = none

section Failure

variable {x : EStateM ε σ α} {k : α → EStateM ε σ β} {s t : σ} {a : α} {e : ε} {o : Option ε}

theorem failure_of_ok (h : x.run s = .ok a t) : failure x s = none := by
  rw [failure, h]

theorem failure_of_error (h : x.run s = .error e t) : failure x s = some e := by
  rw [failure, h]

theorem failure_eq_some : failure x s = some e ↔ ∃ t, x.run s = .error e t := by
  constructor
  · intro h
    cases hx : x.run s with
    | ok a t => cases (failure_of_ok hx).symm.trans h
    | error e' t =>
      cases (failure_of_error hx).symm.trans h
      exact ⟨t, rfl⟩
  · rintro ⟨t, h⟩
    exact failure_of_error h

theorem failure_eq_none : failure x s = none ↔ ∃ a t, x.run s = .ok a t := by
  constructor
  · intro h
    cases hx : x.run s with
    | ok a t => exact ⟨a, t, rfl⟩
    | error e t => cases (failure_of_error hx).symm.trans h
  · rintro ⟨a, t, h⟩
    exact failure_of_ok h

theorem failure_bind_ok (h : x.run s = .ok a t) : failure (x >>= k) s = failure (k a) t := by
  rw [failure, run_bind_ok h, failure]

theorem failure_get_bind (k : σ → EStateM ε σ β) (s : σ) :
    failure (get >>= k) s = failure (k s) s := rfl

/-- A sequence fails as its first part does, or else as the second one from where that returns. -/
theorem failure_bind (h : ∀ a t, x.run s = .ok a t → failure (k a) t = o) :
    failure (x >>= k) s = (failure x s).or o := by
  cases hx : x.run s with
  | ok a t => rw [failure_bind_ok hx, h a t hx, failure_of_ok hx, Option.none_or]
  | error e t => rw [failure_of_error hx, failure_of_error (run_bind_error hx), Option.some_or]

/-- What always returns does not matter behind a part that may fail. -/
theorem failure_bind_returns (h : ∀ a, Returns (k a)) : failure (x >>= k) s = failure x s := by
  rw [failure_bind fun a t _ => h a t, Option.or_none]

end Failure

namespace Returns

variable {x y : EStateM ε σ α} {k : α → EStateM ε σ β}

protected theorem pure (a : α) : Returns (pure a : EStateM ε σ α) := fun _ => rfl

protected theorem modify (f : σ → σ) : Returns (modify f : EStateM ε σ PUnit) := fun _ => rfl

protected theorem bind (hx : Returns x) (hk : ∀ a, Returns (k a)) : Returns (x >>= k) :=
  fun s => (failure_bind_returns hk).trans (hx s)

protected theorem get_bind {k : σ → EStateM ε σ β} (h : ∀ s, failure (k s) s = none) :
    Returns (get >>= k) := h

protected theorem ite {c : Prop} [Decidable c] (hx : c → Returns x) (hy : ¬c → Returns y) :
    Returns (if c then x else y) := by
  split
  next hc => exact hx hc
  next hc => exact hy hc

end Returns

/-! ## Related runs -/

/-- The same outcome with related states. -/
inductive Related (R : σ → σ → Prop) :
    EStateM.Result ε σ α → EStateM.Result ε σ α → Prop
  | ok {s t : σ} (a : α) (h : R s t) : Related R (.ok a s) (.ok a t)
  | error {s t : σ} (e : ε) (h : R s t) : Related R (.error e s) (.error e t)

/-- Runs of `x` from related states are related. -/
def Respects (R : σ → σ → Prop) (x : EStateM ε σ α) : Prop :=
  ∀ s t, R s t → Related R (x.run s) (x.run t)

section Respects

variable {R : σ → σ → Prop} {x y : EStateM ε σ α} {k : α → EStateM ε σ β} {s t : σ}

theorem Related.endState {r r' : EStateM.Result ε σ α} (h : Related R r r') :
    R (endState r) (endState r') := by
  cases h with
  | ok a h => exact h
  | error e h => exact h

theorem Related.eq_ok {r : EStateM.Result ε σ α} {a : α} (h : Related R r (.ok a t)) :
    ∃ s, r = .ok a s ∧ R s t := by
  cases h with
  | ok a h => exact ⟨_, rfl, h⟩

namespace Respects

protected theorem pure (a : α) : Respects R (pure a : EStateM ε σ α) := fun _ _ h => .ok a h

protected theorem throw (e : ε) : Respects R (throw e : EStateM ε σ α) := fun _ _ h => .error e h

protected theorem modify {f : σ → σ} (h : ∀ s t, R s t → R (f s) (f t)) :
    Respects R (modify f : EStateM ε σ PUnit) := fun s t hs => .ok _ (h s t hs)

protected theorem bind (hx : Respects R x) (hk : ∀ a, Respects R (k a)) :
    Respects R (x >>= k) := by
  intro s t hs
  rw [EStateM.run_bind, EStateM.run_bind]
  have h := hx s t hs
  generalize x.run s = r at h
  generalize x.run t = r' at h
  cases h with
  | ok a h => exact hk a _ _ h
  | error e h => exact .error e h

protected theorem get_bind {k : σ → EStateM ε σ β}
    (h : ∀ s t, R s t → Related R ((k s).run s) ((k t).run t)) : Respects R (get >>= k) := h

protected theorem ite {c : Prop} [Decidable c] (hx : c → Respects R x) (hy : ¬c → Respects R y) :
    Respects R (if c then x else y) := by
  split
  next hc => exact hx hc
  next hc => exact hy hc

/-- Between equal states, what is respected is an invariant. -/
theorem invariant {I : σ → Prop} {a : α} (h : Respects (fun s t => s = t ∧ I s) x) (hs : I s)
    (hx : x.run s = .ok a t) : I t := by
  have hr := h s s ⟨rfl, hs⟩
  rw [hx] at hr
  cases hr with
  | ok _ ht => exact ht.1 ▸ ht.2

end Respects

end Respects

end Prog
