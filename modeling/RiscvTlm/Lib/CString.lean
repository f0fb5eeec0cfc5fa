import Mathlib.Data.Int.Notation
import Mathlib.Tactic.Common

/-!
# C strings

`strtol` with base 16 on a list of characters: white space, a sign, an optional `0x` and as many
digits as follow. The value is given without a bound, with the characters after it; there is none
when there is no digit. `strchr` looks for a character in front of the first null character.
-/

namespace CString

/-- `isspace` of the C locale. -/
def isSpace (c : Char) : Bool := c = ' ' || c.toNat ∈ [9, 10, 11, 12, 13]

/-- The value of a hexadecimal digit. -/
def digit (c : Char) : Option ℕ :=
  if '0' ≤ c ∧ c ≤ '9' then some (c.toNat - '0'.toNat)
  else if 'a' ≤ c ∧ c ≤ 'f' then some (c.toNat - 'a'.toNat + 10)
  else if 'A' ≤ c ∧ c ≤ 'F' then some (c.toNat - 'A'.toNat + 10)
  else none

/-- The number that the leading digits make, with the number of digits and the rest. -/
def digits (acc count : ℕ) : List Char → ℕ × ℕ × List Char
  | [] => (acc, count, [])
  | c :: cs =>
    match digit c with
    | some d => digits (16 * acc + d) (count + 1) cs
    | none => (acc, count, c :: cs)

/-- The sign, whether it is negative, and the rest. -/
def sign : List Char → Bool × List Char
  | '-' :: cs => (true, cs)
  | '+' :: cs => (false, cs)
  | cs => (false, cs)

/-- `0x` counts as a prefix only before a digit. -/
def dropPrefix : List Char → List Char
  | '0' :: x :: c :: cs =>
    if (x = 'x' ∨ x = 'X') ∧ (digit c).isSome then c :: cs else '0' :: x :: c :: cs
  | cs => cs

/-- `strtol` with base 16. -/
def strtol (s : List Char) : Option (ℤ × List Char) :=
  let r := sign (s.dropWhile isSpace)
  let n := digits 0 0 (dropPrefix r.2)
  if n.2.1 = 0 then none else some (if r.1 then -(n.1 : ℤ) else n.1, n.2.2)

/-- `strchr` of a character that is not null: its index, if it comes before every null character. -/
def strchr (s : List Char) (c : Char) : Option ℕ :=
  match s with
  | [] => none
  | x :: xs => if x = c then some 0 else if x = '\x00' then none else (strchr xs c).map (· + 1)

theorem strchr_append {pre post : List Char} {c : Char} (hc : c ∉ pre) (h0 : '\x00' ∉ pre) :
    strchr (pre ++ c :: post) c = some pre.length := by
  induction pre with
  | nil => exact if_pos rfl
  | cons x pre ih =>
    rw [List.cons_append, strchr, if_neg (List.ne_of_not_mem_cons hc).symm,
      if_neg (List.ne_of_not_mem_cons h0).symm,
      ih (List.not_mem_of_not_mem_cons hc) (List.not_mem_of_not_mem_cons h0)]
    rfl

/-- A null character ends the search. -/
theorem strchr_of_null {pre post : List Char} {c : Char} (hc : c ∉ pre) (h0 : c ≠ '\x00') :
    strchr (pre ++ '\x00' :: post) c = none := by
  induction pre with
  | nil =>
    rw [List.nil_append, strchr, if_neg h0.symm]
    exact if_pos rfl
  | cons x pre ih =>
    rw [List.cons_append, strchr, if_neg (List.ne_of_not_mem_cons hc).symm,
      ih (List.not_mem_of_not_mem_cons hc)]
    split <;> rfl

theorem strchr_eq_some {s : List Char} {c : Char} {i : ℕ} (h : strchr s c = some i) :
    ∃ pre post, s = pre ++ c :: post ∧ pre.length = i ∧ c ∉ pre ∧ '\x00' ∉ pre := by
  induction s generalizing i with
  | nil => cases h
  | cons x s ih =>
    unfold strchr at h
    split at h
    next hx =>
      cases h
      exact ⟨[], s, by rw [hx]; rfl, rfl, List.not_mem_nil, List.not_mem_nil⟩
    next hx =>
      split at h
      · cases h
      next h0 =>
        obtain ⟨j, hj, rfl⟩ := Option.map_eq_some_iff.mp h
        obtain ⟨pre, post, rfl, hlen, hc, hz⟩ := ih hj
        refine ⟨x :: pre, post, rfl, by rw [List.length_cons, hlen], ?_, ?_⟩
        · exact List.not_mem_cons_of_ne_of_not_mem (Ne.symm hx) hc
        · exact List.not_mem_cons_of_ne_of_not_mem (Ne.symm h0) hz

/-- `substr`: none when it starts past the end. -/
def substr (s : List Char) (pos count : ℕ) : Option (List Char) :=
  if pos ≤ s.length then some ((s.drop pos).take count) else none

/-- The lines that `getline` returns. -/
def lines (text : List Char) : List (List Char) :=
  let parts := text.splitOn '\n'
  if parts.getLast? = some [] then parts.dropLast else parts

example : strtol " -0x1Fg".toList = some (-31, ['g']) := by decide

end CString
