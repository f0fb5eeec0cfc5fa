import Mathlib.Data.List.Induction

/-!
# Logs of writes

The contents after a list of writes, the last of which is at its end. A write of a `Move` is meant
for one address, or for none, and stored at another. The contents meant and the contents stored are
the same exactly when no misplaced write shows (`intendedAll_eq_storedAll_iff`).
-/

namespace WriteLog

variable {α β : Type*} [DecidableEq α] {m : α → β} {l : List (α × β)} {a : α}

/-- The contents after the writes. -/
def storeAll (m : α → β) (l : List (α × β)) : α → β :=
  l.foldl (fun m x => Function.update m x.1 x.2) m

theorem storeAll_append (m : α → β) (l l' : List (α × β)) :
    storeAll m (l ++ l') = storeAll (storeAll m l) l' := List.foldl_append

theorem storeAll_concat (m : α → β) (l : List (α × β)) (x : α × β) :
    storeAll m (l ++ [x]) = Function.update (storeAll m l) x.1 x.2 := storeAll_append m l [x]

theorem storeAll_of_not_mem (h : ∀ x ∈ l, x.1 ≠ a) : storeAll m l a = m a := by
  induction l using List.reverseRecOn with
  | nil => rfl
  | append_singleton l x ih =>
    have hx : x.1 ≠ a := h x (by simp)
    rw [storeAll_concat, Function.update_of_ne hx.symm]
    exact ih fun y hy => h y (by simp [hy])

/-! ## Writes that go elsewhere -/

/-- A write of a value that is meant for an address, or for none, with the address it goes to. -/
structure Move (α β : Type*) where
  intended : Option α
  stored : α
  value : β

namespace Move

def Misplaced (x : Move α β) : Prop := x.intended ≠ some x.stored

instance (x : Move α β) : Decidable x.Misplaced := inferInstanceAs (Decidable (_ ≠ _))

/-- The write is meant for the address or goes to it. -/
def Touches (x : Move α β) (a : α) : Prop := x.intended = some a ∨ x.stored = a

end Move

variable {ms : List (Move α β)} {x : Move α β}

/-- The contents meant. -/
def intendedAll (m : α → β) (ms : List (Move α β)) : α → β :=
  storeAll m (ms.filterMap fun x => x.intended.map fun a => (a, x.value))

/-- The contents there are. -/
def storedAll (m : α → β) (ms : List (Move α β)) : α → β :=
  storeAll m (ms.map fun x => (x.stored, x.value))

theorem storedAll_append (m : α → β) (ms ms' : List (Move α β)) :
    storedAll m (ms ++ ms') = storedAll (storedAll m ms) ms' := by
  unfold storedAll
  rw [List.map_append, storeAll_append]

theorem intendedAll_concat_of_eq (h : x.intended = some a) :
    intendedAll m (ms ++ [x]) a = x.value := by
  unfold intendedAll
  rw [List.filterMap_append, storeAll_append, List.filterMap_cons, h]
  exact Function.update_self _ _ _

theorem intendedAll_concat_of_ne (h : x.intended ≠ some a) :
    intendedAll m (ms ++ [x]) a = intendedAll m ms a := by
  unfold intendedAll
  rw [List.filterMap_append, storeAll_append]
  refine storeAll_of_not_mem fun y hy => ?_
  obtain ⟨x', hx', hy'⟩ := List.mem_filterMap.mp hy
  obtain ⟨b, hb, rfl⟩ := Option.map_eq_some_iff.mp hy'
  cases List.mem_singleton.mp hx'
  rintro rfl
  exact h hb

theorem storedAll_concat (x : Move α β) :
    storedAll m (ms ++ [x]) = Function.update (storedAll m ms) x.stored x.value :=
  storedAll_append m ms [x]

/-- A property of all the ways to split a list with one element more. -/
theorem forall_split_concat {γ : Type*} {l : List γ} {x : γ}
    {P : List γ → γ → List γ → Prop} :
    (∀ pre e post, l ++ [x] = pre ++ e :: post → P pre e post) ↔
      P l x [] ∧ ∀ pre e post, l = pre ++ e :: post → P pre e (post ++ [x]) := by
  constructor
  · intro h
    refine ⟨h l x [] rfl, fun pre e post hl => h pre e (post ++ [x]) ?_⟩
    rw [hl, List.append_assoc, List.cons_append]
  · rintro ⟨hx, hl⟩ pre e post h
    rcases List.eq_nil_or_concat post with rfl | ⟨post', y, rfl⟩
    · obtain ⟨rfl, he⟩ := List.append_inj' h rfl
      cases he
      exact hx
    · rw [List.concat_eq_append, ← List.cons_append, ← List.append_assoc] at h
      obtain ⟨rfl, hy⟩ := List.append_inj' h rfl
      cases hy
      rw [List.concat_eq_append]
      exact hl pre e post' rfl

/-- The last write that touches the address is not misplaced, or it repeats what was there. -/
def AgreesAt (m : α → β) (ms : List (Move α β)) (a : α) : Prop :=
  ∀ pre x post, ms = pre ++ x :: post → x.Misplaced → (∀ y ∈ post, ¬y.Touches a) →
    (x.stored = a → x.value = intendedAll m pre a) ∧
    (x.intended = some a → x.value = storedAll m pre a)

theorem agreesAt_concat_of_touches (h : x.Touches a) :
    AgreesAt m (ms ++ [x]) a ↔ (x.Misplaced →
      (x.stored = a → x.value = intendedAll m ms a) ∧
      (x.intended = some a → x.value = storedAll m ms a)) := by
  unfold AgreesAt
  rw [forall_split_concat]
  constructor
  · intro hx hm
    exact hx.1 hm nofun
  · intro hx
    refine ⟨fun hm _ => hx hm, fun pre e post _ _ hpost => ?_⟩
    exact absurd h (hpost x (by simp))

theorem agreesAt_concat_of_not_touches (h : ¬x.Touches a) :
    AgreesAt m (ms ++ [x]) a ↔ AgreesAt m ms a := by
  unfold AgreesAt
  rw [forall_split_concat]
  have hpost (post : List (Move α β)) :
      (∀ y ∈ post ++ [x], ¬y.Touches a) ↔ ∀ y ∈ post, ¬y.Touches a := by
    simp [or_imp, forall_and, h]
  simp only [hpost]
  refine and_iff_right fun _ _ => ⟨fun hs => absurd (.inr hs) h, fun hi => absurd (.inl hi) h⟩

theorem agreesAt_iff (a : α) : AgreesAt m ms a ↔ intendedAll m ms a = storedAll m ms a := by
  induction ms using List.reverseRecOn with
  | nil => exact iff_of_true (fun pre x post h => absurd h (by simp)) rfl
  | append_singleton ms x ih =>
    rw [storedAll_concat]
    by_cases hs : x.stored = a
    · rw [agreesAt_concat_of_touches (.inr hs), hs, Function.update_self]
      by_cases hi : x.intended = some a
      · have hm : ¬x.Misplaced := not_not.mpr (hi.trans (congrArg some hs.symm))
        exact iff_of_true (fun h => absurd h hm) (intendedAll_concat_of_eq hi)
      · have hm : x.Misplaced := fun h => hi (h.trans (congrArg some hs))
        rw [intendedAll_concat_of_ne hi]
        constructor
        · intro h
          exact ((h hm).1 rfl).symm
        · intro h _
          exact ⟨fun _ => h.symm, fun h' => absurd h' hi⟩
    · rw [Function.update_of_ne (Ne.symm hs)]
      by_cases hi : x.intended = some a
      · have hm : x.Misplaced := fun h => hs (Option.some.inj (h.symm.trans hi))
        rw [agreesAt_concat_of_touches (.inl hi), intendedAll_concat_of_eq hi]
        constructor
        · intro h
          exact (h hm).2 hi
        · intro h _
          exact ⟨fun h' => absurd h' hs, fun _ => h⟩
      · have ht : ¬x.Touches a := not_or.mpr ⟨hi, hs⟩
        rw [agreesAt_concat_of_not_touches ht, intendedAll_concat_of_ne hi]
        exact ih

/-- Each misplaced write, at the address it goes to and at the one it is meant for, comes before
another write that touches the address or repeats what is there without it. -/
def NoneShows (m : α → β) (ms : List (Move α β)) : Prop :=
  ∀ pre x post, ms = pre ++ x :: post → x.Misplaced →
    ((∀ y ∈ post, ¬y.Touches x.stored) → x.value = intendedAll m pre x.stored) ∧
    ∀ a, x.intended = some a → (∀ y ∈ post, ¬y.Touches a) → x.value = storedAll m pre a

theorem noneShows_of_not_misplaced (h : ∀ x ∈ ms, ¬x.Misplaced) : NoneShows m ms := by
  rintro pre x post rfl hm
  exact absurd hm (h x (by simp))

theorem intendedAll_eq_storedAll_iff : intendedAll m ms = storedAll m ms ↔ NoneShows m ms := by
  rw [funext_iff]
  simp only [← agreesAt_iff]
  constructor
  · intro h pre x post hl hm
    exact ⟨fun hp => (h x.stored pre x post hl hm hp).1 rfl,
      fun a ha hp => (h a pre x post hl hm hp).2 ha⟩
  · intro h a pre x post hl hm hp
    refine ⟨?_, fun ha => (h pre x post hl hm).2 a ha hp⟩
    rintro rfl
    exact (h pre x post hl hm).1 hp

end WriteLog
