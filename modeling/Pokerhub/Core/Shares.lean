import Mathlib.Algebra.BigOperators.Group.List.Basic
import Mathlib.Algebra.Order.Ring.Int
import Mathlib.Data.List.Nodup
import Mathlib.Tactic.Linarith
import Mathlib.Tactic.Ring
import Pokerhub.Core.UpdateFirst

/-!
# Equal shares

An amount is shared among the elements of a list that satisfy `w`: each gets the floor of an equal
share, and the first one also gets what the division leaves. Nothing is lost (`sum_shareOf`).
-/

namespace List

variable {α : Type*} [DecidableEq α] {l : List α} {w : α → Bool}

/-- What `a` gets of `amount`. -/
def shareOf (l : List α) (w : α → Bool) (amount : ℤ) (a : α) : ℤ :=
  (if w a then amount / l.countP w else 0) +
    if l.find? w = some a then amount % l.countP w else 0

lemma shareOf_of_not (amount : ℤ) {a : α} (h : w a = false) : shareOf l w amount a = 0 := by
  have hfind : l.find? w ≠ some a := by
    intro hfind
    simp [find?_some hfind] at h
  simp [shareOf, h, hfind]

omit [DecidableEq α] in
lemma sum_map_ite_const (c : ℤ) :
    (l.map fun a => if w a then c else 0).sum = c * l.countP w := by
  induction l with
  | nil => simp
  | cons a l ih =>
    rw [map_cons, sum_cons, ih, countP_cons]
    by_cases ha : w a = true
    · simp only [ha, if_true, Nat.cast_add, Nat.cast_one]
      ring
    · simp [ha]

lemma sum_map_single (hnodup : l.Nodup) (c : ℤ) {b : α} (hb : b ∈ l) :
    (l.map fun a => if a = b then c else 0).sum = c := by
  simp [sum_map_ite_eq, count_eq_one_of_mem hnodup hb]

/-- The whole amount is shared out as soon as somebody gets a share. -/
theorem sum_shareOf (hnodup : l.Nodup) (amount : ℤ) (h : ∃ a ∈ l, w a = true) :
    (l.map (shareOf l w amount)).sum = amount := by
  obtain ⟨first, hfirst⟩ := Option.isSome_iff_exists.mp (find?_isSome.mpr h)
  have hsplit : (l.map (shareOf l w amount)).sum =
      (l.map fun a => if w a then amount / (l.countP w : ℤ) else 0).sum +
        (l.map fun a => if a = first then amount % (l.countP w : ℤ) else 0).sum := by
    rw [← sum_map_add]
    refine congrArg sum (map_congr_left fun a _ => ?_)
    simp only [shareOf, hfirst, Option.some.injEq, @eq_comm _ first a]
  rw [hsplit, sum_map_ite_const, sum_map_single hnodup _ (mem_of_find?_eq_some hfirst), mul_comm]
  exact Int.mul_ediv_add_emod amount _

omit [DecidableEq α] in
/-- What the division leaves is less than one chip for each. -/
lemma emod_countP_lt (amount : ℤ) (h : ∃ a ∈ l, w a = true) :
    0 ≤ amount % (l.countP w : ℤ) ∧ amount % (l.countP w : ℤ) < l.countP w := by
  have hpos : 0 < l.countP w := countP_pos_iff.mpr h
  exact ⟨Int.emod_nonneg _ (by omega), Int.emod_lt_of_pos _ (by omega)⟩

/-- In a list without repetition the first match is rewritten and everything else stays. -/
lemma updateFirst_map {β : Type*} (hnodup : l.Nodup) {q : β → Bool} {g : α → β} {f : β → β}
    (hq : ∀ a ∈ l, q (g a) = w a) :
    updateFirst q f (l.map g) = l.map fun a => if l.find? w = some a then f (g a) else g a := by
  induction l with
  | nil => rfl
  | cons a l ih =>
    obtain ⟨ha, hnodup⟩ := nodup_cons.mp hnodup
    simp only [mem_cons, forall_eq_or_imp] at hq
    rw [map_cons, updateFirst_cons, hq.1, map_cons]
    cases hw : w a with
    | true =>
      have hrest : l.map (fun b => if (a :: l).find? w = some b then f (g b) else g b) =
          l.map g := by
        refine map_congr_left fun b hb => if_neg fun heq => ha ?_
        rw [find?_cons_of_pos hw] at heq
        rwa [Option.some.inj heq]
      rw [hrest]
      simp [hw]
    | false =>
      have hne : (a :: l).find? w ≠ some a := by
        intro heq
        simp [find?_some heq] at hw
      rw [if_neg hne, find?_cons_of_neg (by simp [hw]), ← ih hnodup hq.2]
      simp

end List
