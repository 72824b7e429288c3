import Mathlib.Algebra.BigOperators.Group.List.Basic
import Mathlib.Algebra.Order.Ring.Int
import Mathlib.Tactic.Ring
import Mathlib.Tactic.Linarith

/-!
# Layers

Amounts `bs` cut into horizontal layers at increasing `levels`: the layer between two levels holds
the difference of the levels once for every amount that reaches the upper one. Together the layers
hold what the amounts have above the lowest level (`sum_layers`).
-/

/-- The sizes of the layers below each level, starting at `previous`. -/
def layers (bs : List ℤ) : ℤ → List ℤ → List ℤ
  | _, [] => []
  | previous, level :: levels =>
    (level - previous) * bs.countP (level ≤ ·) :: layers bs level levels

variable {bs levels : List ℤ} {previous : ℤ}

@[simp] lemma layers_nil : layers bs previous [] = [] := rfl

@[simp] lemma layers_cons (level : ℤ) :
    layers bs previous (level :: levels) =
      (level - previous) * bs.countP (level ≤ ·) :: layers bs level levels := rfl

/-- One layer, amount by amount. -/
lemma sum_layer {level : ℤ} (hlevel : previous < level)
    (hbs : ∀ b ∈ bs, b ≤ previous ∨ level ≤ b) :
    (level - previous) * (bs.countP (level ≤ ·) : ℤ) +
        (bs.map fun b => max (b - level) 0).sum =
      (bs.map fun b => max (b - previous) 0).sum := by
  induction bs with
  | nil => simp
  | cons b bs ih =>
    simp only [List.mem_cons, forall_eq_or_imp] at hbs
    have hrest := ih hbs.2
    have hb : (if level ≤ b then level - previous else 0) + max (b - level) 0 =
        max (b - previous) 0 := by
      split <;> omega
    simp only [List.countP_cons, List.map_cons, List.sum_cons, decide_eq_true_eq]
    by_cases hlb : level ≤ b <;>
      simp only [hlb, if_true, if_false, Nat.cast_add, Nat.cast_one, add_zero] at hb ⊢ <;>
      linarith

/-- The layers hold what the amounts have above the lowest level. -/
theorem sum_layers (hlevels : (previous :: levels).Pairwise (· < ·))
    (hbs : ∀ b ∈ bs, b ≤ previous ∨ b ∈ levels) :
    (layers bs previous levels).sum = (bs.map fun b => max (b - previous) 0).sum := by
  induction levels generalizing previous with
  | nil =>
    have hzero : bs.map (fun b => max (b - previous) 0) = bs.map fun _ => 0 := by
      refine List.map_congr_left fun b hb => ?_
      have := hbs b hb
      simp only [List.not_mem_nil, or_false] at this
      omega
    simp [hzero]
  | cons level levels ih =>
    rw [List.pairwise_cons] at hlevels
    have hlevel : previous < level := hlevels.1 level List.mem_cons_self
    have habove : ∀ l ∈ levels, level < l := (List.pairwise_cons.mp hlevels.2).1
    have hrest : ∀ b ∈ bs, b ≤ level ∨ b ∈ levels := by
      intro b hb
      rcases hbs b hb with h | h
      · exact Or.inl (by omega)
      · exact (List.mem_cons.mp h).imp_left Eq.le
    have hcut : ∀ b ∈ bs, b ≤ previous ∨ level ≤ b := by
      intro b hb
      rcases hbs b hb with h | h
      · exact Or.inl h
      · rcases List.mem_cons.mp h with h | h
        · exact Or.inr h.ge
        · exact Or.inr (habove _ h).le
    rw [layers_cons, List.sum_cons, ih hlevels.2 hrest, sum_layer hlevel hcut]

/-- Matching two sequences of payments term by term matches no more than their sums. -/
lemma sum_min_add_le {ι : Type*} (l : List ι) (f g : ι → ℤ) (x y : ℤ) :
    (l.map fun i => min x (f i)).sum + (l.map fun i => min y (g i)).sum ≤
      (l.map fun i => min (x + y) (f i + g i)).sum := by
  induction l with
  | nil => simp
  | cons i l ih =>
    simp only [List.map_cons, List.sum_cons]
    omega
