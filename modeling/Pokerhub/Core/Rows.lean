import Mathlib.Data.List.Perm.Subperm
import Mathlib.Algebra.BigOperators.Group.List.Basic
import Mathlib.Tactic.Ring

/-!
# Rows of a list of lists

Elements are moved from row to row, one at a time: the last element of a row that satisfies a test
is taken out (`List.takeLast?`), and it is put at the end of another row. A move keeps the elements
of all rows together, and a move from a longer row to a shorter one lowers `List.weight`.
-/

namespace List

variable {α : Type*} {q : α → Bool} {a : α} {l l' : List α} {rows : List (List α)} {i : ℕ}

/-- The last element that satisfies `q`, and the list without it. -/
def takeLast? (q : α → Bool) : List α → Option (α × List α)
  | [] => none
  | a :: l =>
    match takeLast? q l with
    | some (b, l') => some (b, a :: l')
    | none => if q a then some (a, l) else none

lemma takeLast?_eq_some (h : l.takeLast? q = some (a, l')) : q a = true ∧ l.Perm (a :: l') := by
  induction l generalizing l' with
  | nil => cases h
  | cons b l ih =>
    rw [takeLast?] at h
    split at h
    · rename_i c l₁ htake
      cases h
      obtain ⟨hq, hperm⟩ := ih htake
      exact ⟨hq, (hperm.cons b).trans (.swap a b l₁)⟩
    · split_ifs at h with hq
      cases h
      exact ⟨hq, .refl _⟩

lemma takeLast?_eq_none : l.takeLast? q = none ↔ ∀ a ∈ l, q a = false := by
  induction l with
  | nil => simp [takeLast?]
  | cons b l ih =>
    rw [takeLast?, forall_mem_cons]
    split
    · rename_i c l₁ htake
      have hsome : l.takeLast? q ≠ none := by simp [htake]
      simp [← ih, hsome]
    · rename_i htake
      have hnone := ih.mp htake
      cases hq : q b with
      | true => simp
      | false => simpa using hnone

/-- The row an element was taken from. -/
lemma flatten_set_perm (hrow : rows[i]? = some l) (h : l.Perm (a :: l')) :
    rows.flatten.Perm (a :: (rows.set i l').flatten) := by
  induction rows generalizing i with
  | nil => cases hrow
  | cons row rows ih =>
    cases i with
    | zero =>
      cases hrow
      exact h.append_right rows.flatten
    | succ i =>
      have hperm : rows.flatten.Perm (a :: (rows.set i l').flatten) := ih hrow
      exact (hperm.append_left row).trans perm_middle

/-- The row an element is put into, if there is one. -/
lemma flatten_modify_subperm (a : α) (rows : List (List α)) (i : ℕ) :
    (rows.modify i (· ++ [a])).flatten.Subperm (a :: rows.flatten) := by
  induction rows generalizing i with
  | nil => cases i <;> simp
  | cons row rows ih =>
    cases i with
    | zero =>
      refine Perm.subperm ?_
      simp
    | succ i =>
      have hsub := (subperm_append_left row).mpr (ih i)
      exact hsub.trans perm_middle.subperm

lemma flatten_modify_perm (a : α) (hi : i < rows.length) :
    (rows.modify i (· ++ [a])).flatten.Perm (a :: rows.flatten) := by
  induction rows generalizing i with
  | nil => exact absurd hi (Nat.not_lt_zero i)
  | cons row rows ih =>
    cases i with
    | zero =>
      rw [modify_zero_cons, flatten_cons, append_assoc]
      exact perm_middle
    | succ i =>
      have hperm := ih (Nat.lt_of_succ_lt_succ hi)
      exact (hperm.append_left row).trans perm_middle

lemma length_modify_append (rows : List (List α)) (i : ℕ) (a : α) :
    (rows.modify i (· ++ [a])).length = rows.length := by
  simp

/-- The sum of the squares of the lengths. -/
def weight (rows : List (List α)) : ℕ :=
  (rows.map fun row => row.length ^ 2).sum

@[simp] lemma weight_nil : weight ([] : List (List α)) = 0 := rfl

@[simp] lemma weight_cons (row : List α) (rows : List (List α)) :
    weight (row :: rows) = row.length ^ 2 + weight rows := by
  simp [weight]

lemma weight_set (hrow : rows[i]? = some l) (h : l.length = l'.length + 1) :
    weight rows = weight (rows.set i l') + (2 * l'.length + 1) := by
  induction rows generalizing i with
  | nil => cases hrow
  | cons row rows ih =>
    cases i with
    | zero =>
      cases hrow
      simp only [set_cons_zero, weight_cons, h]
      ring
    | succ i =>
      have hweight : weight rows = weight (rows.set i l') + (2 * l'.length + 1) := ih hrow
      simp only [set_cons_succ, weight_cons, hweight]
      ring

lemma weight_modify (hrow : rows[i]? = some l) (a : α) :
    weight (rows.modify i (· ++ [a])) = weight rows + (2 * l.length + 1) := by
  induction rows generalizing i with
  | nil => cases hrow
  | cons row rows ih =>
    cases i with
    | zero =>
      cases hrow
      simp only [modify_zero_cons, weight_cons, length_append, length_singleton]
      ring
    | succ i =>
      have hweight : weight (rows.modify i (· ++ [a])) = weight rows + (2 * l.length + 1) := ih hrow
      simp only [modify_succ_cons, weight_cons, hweight]
      ring

/-- Rows of the same elements have the same weight. -/
lemma weight_eq_of_perm {rows' : List (List α)} (h : Forall₂ Perm rows rows') :
    weight rows = weight rows' := by
  induction h with
  | nil => rfl
  | cons hperm _ ih => simp only [weight_cons, hperm.length_eq, ih]

end List
