import Mathlib.Data.List.Basic

/-!
# Runs of a transition system

A transition system is a function `next` from a state and an event to the state after it, if the
event is possible. `Run next P s tr t` says that the events `tr` lead from `s` to `t`, each in a
state where `P` allows it. A step lemma about an invariant carries over to runs by `Run.invariant`,
one about the events by `Run.forall_mem`, and one about a relation to an abstract system by
`Simulates.run`.
-/

namespace Transitions

universe u v

variable {σ : Type u} {α : Type v} {next : σ → α → Option σ} {P Q : σ → α → Prop} {I : σ → Prop}
  {s t u : σ} {a : α} {tr tr' : List α}

/-- A run whose steps all meet `P`. -/
inductive Run (next : σ → α → Option σ) (P : σ → α → Prop) : σ → List α → σ → Prop
  | nil (s : σ) : Run next P s [] s
  | cons {s t u : σ} {a : α} {tr : List α} (hP : P s a) (hs : next s a = some t)
      (hr : Run next P t tr u) : Run next P s (a :: tr) u

namespace Run

theorem mono (h : ∀ s a, P s a → Q s a) (hr : Run next P s tr t) : Run next Q s tr t := by
  induction hr with
  | nil s => exact .nil s
  | cons hP hs _ ih => exact .cons (h _ _ hP) hs ih

/-- What is known of all events of a run may be used at each step. -/
theorem and_mem {E : α → Prop} (hr : Run next P s tr t) (h : ∀ a ∈ tr, E a) :
    Run next (fun s a => P s a ∧ E a) s tr t := by
  induction hr with
  | nil s => exact .nil s
  | cons hP hs _ ih =>
    obtain ⟨ha, htr⟩ := List.forall_mem_cons.mp h
    exact .cons ⟨hP, ha⟩ hs (ih htr)

/-- A run passes through a state after each of its prefixes. -/
theorem exists_of_append (h : Run next P s (tr ++ tr') u) :
    ∃ t, Run next P s tr t ∧ Run next P t tr' u := by
  induction tr generalizing s with
  | nil => exact ⟨s, .nil s, h⟩
  | cons a tr ih =>
    cases h with
    | cons hP hs hr =>
      obtain ⟨t, ht, hu⟩ := ih hr
      exact ⟨t, .cons hP hs ht, hu⟩

theorem append (h : Run next P s tr t) (h' : Run next P t tr' u) : Run next P s (tr ++ tr') u := by
  induction h with
  | nil s => exact h'
  | cons hP hs _ ih => exact .cons hP hs (ih h')

/-- The events determine the state they lead to. -/
theorem unique (h : Run next P s tr t) (h' : Run next Q s tr u) : t = u := by
  induction h with
  | nil s =>
    cases h'
    rfl
  | cons _ hs _ ih =>
    cases h' with
    | cons _ hs' hr' =>
      obtain rfl := Option.some_inj.mp (hs.symm.trans hs')
      exact ih hr'

/-- What every allowed step preserves holds at the end of a run. -/
theorem invariant (hI : ∀ s a t, I s → P s a → next s a = some t → I t) (hr : Run next P s tr t)
    (h : I s) : I t := by
  induction hr with
  | nil s => exact h
  | cons hP hs _ ih => exact ih (hI _ _ _ h hP hs)

/-- If a step keeps `I` exactly when `P` allows it, then `I` holds in all states of a run exactly
when `P` allows all its steps. -/
theorem forall_reached_iff (hI : ∀ s a t, I s → next s a = some t → (I t ↔ P s a))
    (hr : Run next (fun _ _ => True) s tr t) (h : I s) :
    (∀ tr₁ tr₂ u, tr = tr₁ ++ tr₂ → Run next (fun _ _ => True) s tr₁ u → I u) ↔
      Run next P s tr t := by
  induction hr with
  | nil s =>
    refine ⟨fun _ => .nil s, fun _ tr₁ tr₂ u he hu => ?_⟩
    obtain ⟨rfl, -⟩ := List.append_eq_nil_iff.mp he.symm
    cases hu
    exact h
  | @cons s t v a tr _ hs hr ih =>
    constructor
    · intro hall
      have ht : I t := hall [a] tr t rfl (.cons trivial hs (.nil t))
      refine .cons ((hI s a t h hs).mp ht) hs ((ih ht).mp fun tr₁ tr₂ u he hu => ?_)
      exact hall (a :: tr₁) tr₂ u (by rw [he]; rfl) (.cons trivial hs hu)
    · intro hP tr₁ tr₂ u he hu
      cases hP with
      | cons hp hs' hr' =>
        obtain rfl := Option.some_inj.mp (hs.symm.trans hs')
        cases hu with
        | nil => exact h
        | cons _ hs'' hu =>
          obtain ⟨rfl, htr⟩ := List.cons.inj he
          obtain rfl := Option.some_inj.mp (hs.symm.trans hs'')
          exact (ih ((hI _ _ _ h hs).mpr hp)).mpr hr' _ tr₂ u htr hu

/-- If a step keeps `I` exactly when `P` allows it, and `I` never comes back, then `I` holds at the
end of a run exactly when `P` allows all its steps. -/
theorem last_iff (hI : ∀ s a t, I s → next s a = some t → (I t ↔ P s a))
    (hn : ∀ s a t, ¬I s → next s a = some t → ¬I t) (hr : Run next (fun _ _ => True) s tr t)
    (h : I s) : I t ↔ Run next P s tr t := by
  refine ⟨fun ht => ?_, fun hP => hP.invariant (fun _ _ _ hs hp hn => (hI _ _ _ hs hn).mpr hp) h⟩
  refine (forall_reached_iff hI hr h).mp fun tr₁ tr₂ u he hu => ?_
  rw [he] at hr
  by_contra hIu
  -- the rest of the run from `u` cannot bring `I` back
  have hlost (v : σ) (hv : Run next (fun _ _ => True) u tr₂ v) : ¬I v :=
    hv.invariant (I := fun s => ¬I s) (fun _ _ _ hs _ hst => hn _ _ _ hs hst) hIu
  obtain ⟨v, hv, hrest⟩ := hr.exists_of_append
  obtain rfl := hu.unique hv
  exact hlost _ hrest ht

/-- What every allowed step guarantees of its event, under an invariant, holds of all events. -/
theorem forall_mem {E : α → Prop} (hI : ∀ s a t, I s → P s a → next s a = some t → I t)
    (hE : ∀ s a t, I s → P s a → next s a = some t → E a) (hr : Run next P s tr t) (h : I s) :
    ∀ a ∈ tr, E a := by
  induction hr with
  | nil s => exact List.forall_mem_nil E
  | cons hP hs _ ih => exact List.forall_mem_cons.mpr ⟨hE _ _ _ h hP hs, ih (hI _ _ _ h hP hs)⟩

/-- If each event `p` is paid for by an event `q` or by what is stored in the state, there are not
more of them. -/
theorem countP_le {p q : α → Bool} (stored : σ → ℕ)
    (h : ∀ s a t, next s a = some t → (p a).toNat + stored t ≤ (q a).toNat + stored s)
    (hr : Run next P s tr t) : tr.countP p + stored t ≤ tr.countP q + stored s := by
  induction hr with
  | nil s => exact Nat.le_refl _
  | @cons s t u a tr _ hs _ ih =>
    have ha := h _ _ _ hs
    have hcons (p : α → Bool) : (a :: tr).countP p = tr.countP p + (p a).toNat := by
      rw [List.countP_cons]
      cases p a <;> rfl
    rw [hcons, hcons]
    omega

/-- If an event that `p` does not count lowers a rank, and one that it counts raises it by less than
`c`, a run goes on to any number of those unless nothing is possible any more. The invariant `I`
knows how many are still to come. -/
theorem exists_countP_eq {p : α → Bool} {I : ℕ → σ → Prop} (rank : σ → ℕ) (c : ℕ)
    (hI : ∀ n s a t, 0 < n → I n s → next s a = some t → I (n - (p a).toNat) t)
    (hrank : ∀ n s a t, 0 < n → I n s → next s a = some t →
      rank t + 1 ≤ rank s + c * (p a).toNat)
    (n : ℕ) (h : I n s) : ∃ tr t, Run next (fun _ _ => True) s tr t ∧
      (tr.countP p = n ∨ ∀ a, next t a = none) := by
  generalize hm : c * n + rank s = m
  induction m using Nat.strongRecOn generalizing n s with
  | _ m ih =>
    subst hm
    rcases Nat.eq_zero_or_pos n with rfl | hn
    · exact ⟨[], s, .nil s, .inl rfl⟩
    by_cases hstuck : ∀ a, next s a = none
    · exact ⟨[], s, .nil s, .inr hstuck⟩
    obtain ⟨a, ha⟩ := not_forall.mp hstuck
    obtain ⟨t, ht⟩ := Option.ne_none_iff_exists'.mp ha
    have hr := hrank n s a t hn h ht
    have hlower : c * (n - (p a).toNat) + rank t < c * n + rank s := by
      cases hp : p a with
      | false =>
        rw [hp] at hr
        simp only [Bool.toNat_false, Nat.mul_zero, Nat.sub_zero] at hr ⊢
        omega
      | true =>
        rw [hp] at hr
        have hsplit : c * n = c * (n - 1) + c := by
          rw [← Nat.mul_succ, Nat.succ_eq_add_one, Nat.sub_add_cancel hn]
        simp only [Bool.toNat_true, Nat.mul_one] at hr ⊢
        omega
    obtain ⟨tr, u, hrun, hu⟩ := ih _ hlower (n - (p a).toNat) (hI n s a t hn h ht) rfl
    refine ⟨a :: tr, u, .cons trivial ht hrun, hu.imp_left fun hcount => ?_⟩
    rw [List.countP_cons, hcount]
    cases hp : p a with
    | false => rfl
    | true => exact Nat.sub_add_cancel hn

/-! ### Output

A run whose steps append `sent s a` to an output, where `want a` is to be appended and a step that
appends something else appends more. -/

section Output

variable {β : Type*} {out : σ → List β} {sent : σ → α → List β} {want : α → List β}

theorem length_out_le (hout : ∀ s a t, next s a = some t → out t = out s ++ sent s a)
    (hmore : ∀ s a, sent s a = want a ∨ (want a).length < (sent s a).length)
    (hr : Run next P s tr t) : (out s ++ tr.flatMap want).length ≤ (out t).length := by
  induction hr with
  | nil s => simp
  | @cons s t u a tr _ hs _ ih =>
    have ha : (want a).length ≤ (sent s a).length := by
      rcases hmore s a with h | h
      · exact h ▸ Nat.le_refl _
      · exact Nat.le_of_lt h
    rw [hout s a t hs] at ih
    simp only [List.flatMap_cons, List.length_append] at ih ⊢
    omega

/-- The output of a run is what its events want exactly when each step appends just that. -/
theorem out_eq_iff (hout : ∀ s a t, next s a = some t → out t = out s ++ sent s a)
    (hmore : ∀ s a, sent s a = want a ∨ (want a).length < (sent s a).length)
    (hr : Run next P s tr t) :
    out t = out s ++ tr.flatMap want ↔ Run next (fun s a => sent s a = want a) s tr t := by
  induction hr with
  | nil s =>
    rw [List.flatMap_nil, List.append_nil]
    exact iff_of_true rfl (.nil s)
  | @cons s t u a tr _ hs hr ih =>
    constructor
    · intro h
      have ha : sent s a = want a := by
        rcases hmore s a with ha | ha
        · exact ha
        · have hle := length_out_le hout hmore hr
          rw [h, hout s a t hs] at hle
          simp only [List.flatMap_cons, List.length_append] at hle
          omega
      refine .cons ha hs (ih.mp ?_)
      rw [h, hout s a t hs, ha, List.flatMap_cons, List.append_assoc]
    · intro h
      cases h with
      | cons ha hs' hr' =>
        obtain rfl := Option.some_inj.mp (hs.symm.trans hs')
        rw [ih.mpr hr', hout s a _ hs, ha, List.flatMap_cons, List.append_assoc]

end Output

end Run

/-! ## Simulation -/

section Simulation

universe x y

variable {τ : Type x} {β : Type y} {nextA : τ → β → Option τ} {PA : τ → β → Prop}
  {R : τ → σ → Prop} {visible : α → Bool} {c d : τ} {br : List β}

/-- The visible steps of a system do what the allowed steps of an abstract one do, and its other
steps do nothing there. -/
structure Simulates (next : σ → α → Option σ) (visible : α → Bool) (nextA : τ → β → Option τ)
    (PA : τ → β → Prop) (R : τ → σ → Prop) : Prop where
  step : ∀ {c d s t a b}, R c s → PA c b → nextA c b = some d → visible a = true →
    next s a = some t → R d t
  silent : ∀ {c s t a}, R c s → visible a = false → next s a = some t → R c t

/-- Whatever the order of its steps, a system goes along an abstract run as far as its visible steps
reach. -/
theorem Simulates.run (h : Simulates next visible nextA PA R)
    (hr : Run next (fun _ _ => True) s tr t) (ha : Run nextA PA c br d) (hR : R c s)
    (hlen : tr.countP visible ≤ br.length) :
    ∃ e, Run nextA PA c (br.take (tr.countP visible)) e ∧ R e t := by
  induction hr generalizing c br with
  | nil s => exact ⟨c, .nil c, hR⟩
  | @cons s t u a tr _ hs _ ih =>
    cases hv : visible a with
    | false =>
      rw [List.countP_cons_of_neg (by rw [hv]; exact Bool.false_ne_true)] at hlen ⊢
      exact ih ha (h.silent hR hv hs) hlen
    | true =>
      rw [List.countP_cons_of_pos hv] at hlen ⊢
      cases ha with
      | nil => exact absurd hlen (Nat.not_succ_le_zero _)
      | cons hP hb ha =>
        obtain ⟨e, he, hRe⟩ := ih ha (h.step hR hP hb hv hs) (Nat.le_of_succ_le_succ hlen)
        exact ⟨e, .cons hP hb he, hRe⟩

/-- A system whose visible steps end after those of an abstract run and one more, which leads to
`E`: whatever the order of its steps, it is still going along the run or has come to `E`. -/
theorem Simulates.run_end {E : σ → Prop} (h : Simulates next visible nextA PA R)
    (hlast : ∀ {s t a}, R d s → visible a = true → next s a = some t → E t)
    (hE : ∀ {s t a}, E s → next s a = some t → visible a = false ∧ E t)
    (hr : Run next (fun _ _ => True) s tr t) (ha : Run nextA PA c br d) (hR : R c s) :
    (∃ e, tr.countP visible ≤ br.length ∧ Run nextA PA c (br.take (tr.countP visible)) e ∧ R e t) ∨
      tr.countP visible = br.length + 1 ∧ E t := by
  -- behind `E` nothing is visible
  have hrest {s t : σ} {tr : List α} (hr : Run next (fun _ _ => True) s tr t) (hs : E s) :
      tr.countP visible = 0 ∧ E t := by
    refine ⟨List.countP_eq_zero.mpr fun a hmem hv => ?_,
      hr.invariant (fun _ _ _ hs _ hn => (hE hs hn).2) hs⟩
    have hn := hr.forall_mem (E := fun a => visible a = false)
      (fun _ _ _ hs _ hn => (hE hs hn).2) (fun _ _ _ hs _ hn => (hE hs hn).1) hs a hmem
    exact absurd (hn.symm.trans hv) (by decide)
  induction hr generalizing c br with
  | nil s => exact .inl ⟨c, Nat.zero_le _, .nil c, hR⟩
  | @cons s t u a tr _ hs hr ih =>
    cases hv : visible a with
    | false =>
      rw [List.countP_cons_of_neg (by rw [hv]; exact Bool.false_ne_true)]
      exact ih ha (h.silent hR hv hs)
    | true =>
      rw [List.countP_cons_of_pos hv]
      cases ha with
      | nil =>
        obtain ⟨hz, hu⟩ := hrest hr (hlast hR hv hs)
        exact .inr ⟨by rw [hz, List.length_nil], hu⟩
      | cons hP hb ha =>
        rcases ih ha (h.step hR hP hb hv hs) with ⟨e, hlen, he, hRe⟩ | ⟨hn, hu⟩
        · exact .inl ⟨e, Nat.succ_le_succ hlen, .cons hP hb he, hRe⟩
        · exact .inr ⟨congrArg Nat.succ hn, hu⟩

/-- If each allowed step can be made by the events `events`, a whole run can. -/
theorem Run.follow {events : List α}
    (h : ∀ {c d s b}, R c s → PA c b → nextA c b = some d → ∃ t, Run next P s events t ∧ R d t)
    (ha : Run nextA PA c br d) (hR : R c s) :
    ∃ t, Run next P s (br.flatMap fun _ => events) t ∧ R d t := by
  induction ha generalizing s with
  | nil c => exact ⟨s, .nil s, hR⟩
  | cons hP hb _ ih =>
    obtain ⟨u, hu, hRu⟩ := h hR hP hb
    obtain ⟨t, ht, hRt⟩ := ih hRu
    exact ⟨t, hu.append ht, hRt⟩

end Simulation

/-! ## Executing a run -/

/-- Follows the events as long as `P` allows them. -/
def execute (next : σ → α → Option σ) (P : σ → α → Prop) [∀ s a, Decidable (P s a)] :
    σ → List α → Option σ
  | s, [] => some s
  | s, a :: tr => if P s a then (next s a).bind fun t => execute next P t tr else none

theorem run_of_execute [∀ s a, Decidable (P s a)] (h : execute next P s tr = some t) :
    Run next P s tr t := by
  induction tr generalizing s with
  | nil =>
    cases h
    exact .nil _
  | cons a tr ih =>
    obtain ⟨hP, h⟩ := Option.ite_none_right_eq_some.mp h
    obtain ⟨u, hs, hu⟩ := Option.bind_eq_some_iff.mp h
    exact .cons hP hs (ih hu)

theorem execute_of_run [∀ s a, Decidable (P s a)] (h : Run next P s tr t) :
    execute next P s tr = some t := by
  induction h with
  | nil s => rfl
  | cons hP hs _ ih =>
    rw [execute, if_pos hP, hs]
    exact ih

/-- A run to a state that meets a test, by executing it. -/
theorem exists_run_of_execute [∀ s a, Decidable (P s a)] {C : σ → Bool}
    (h : (execute next P s tr).any C = true) : ∃ t, Run next P s tr t ∧ C t = true := by
  obtain ⟨t, ht, hC⟩ := (Option.any_eq_true C _).mp h
  exact ⟨t, run_of_execute ht, hC⟩

end Transitions
