import Mathlib.Data.Finset.Basic

/-!
# A set edited by a history

A history is a list of edits, the oldest first, each of which inserts or removes its key. A key is
in the set after it exactly when the last edit that names the key is an insertion.
-/

namespace History

universe u v

variable {α : Type u} {κ : Type v} [DecidableEq κ] {inserts : α → Bool} {key : α → κ} {k : κ}
  {s : Finset κ}

/-- One edit. -/
def edit (inserts : α → Bool) (key : α → κ) (s : Finset κ) (a : α) : Finset κ :=
  if inserts a then insert (key a) s else s.erase (key a)

/-- Whether the last of the edits that meet `p` is an insertion; `held` if there is none. -/
def lastInserts (inserts : α → Bool) (p : α → Bool) (held : Bool) (history : List α) : Bool :=
  history.foldl (fun held a => if p a then inserts a else held) held

theorem lastInserts_congr {p q : α → Bool} {held : Bool} {history : List α}
    (h : ∀ a ∈ history, p a = q a) :
    lastInserts inserts p held history = lastInserts inserts q held history := by
  induction history generalizing held with
  | nil => rfl
  | cons a history ih =>
    obtain ⟨ha, hrest⟩ := List.forall_mem_cons.mp h
    unfold lastInserts
    rw [List.foldl_cons, List.foldl_cons, ha]
    exact ih hrest

/-- Edits that do not meet `p` are not looked at. -/
theorem lastInserts_of_forall_not {p : α → Bool} {held : Bool} {history : List α}
    (h : ∀ a ∈ history, p a = false) : lastInserts inserts p held history = held := by
  rw [lastInserts_congr (q := fun _ => false) h]
  induction history with
  | nil => rfl
  | cons a history ih => exact ih (List.forall_mem_cons.mp h).2

theorem mem_edit (a : α) : k ∈ edit inserts key s a ↔
    (if key a = k then inserts a else decide (k ∈ s)) = true := by
  unfold edit
  by_cases hk : key a = k
  · cases hi : inserts a <;> simp [hk]
  · have hk' : k ≠ key a := Ne.symm hk
    cases hi : inserts a <;> simp [hk, hk']

theorem mem_foldl_edit (history : List α) : k ∈ history.foldl (edit inserts key) s ↔
    lastInserts inserts (fun a => key a = k) (k ∈ s) history = true := by
  induction history generalizing s with
  | nil => exact (decide_eq_true_iff (p := k ∈ s)).symm
  | cons a history ih =>
    have hheld : decide (k ∈ edit inserts key s a) =
        if decide (key a = k) then inserts a else decide (k ∈ s) := by
      rw [Bool.eq_iff_iff, decide_eq_true_iff, mem_edit]
      simp only [decide_eq_true_eq]
    rw [List.foldl_cons, ih, hheld]
    rfl

end History
