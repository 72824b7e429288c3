import Mathlib.Algebra.BigOperators.Group.List.Lemmas
import Mathlib.Algebra.Order.Floor.Ring
import Mathlib.Algebra.Order.Ring.Int
import Mathlib.Data.Rat.Floor
import Mathlib.Tactic.Linarith

/-!
# The bubble

`resolveBubbleElimination` of `tournament.service.ts`, in exact rational arithmetic. Players who go
out on the bubble together share the prizes of their places evenly; what the even share leaves is
handed out chip by chip, from the largest stack on. Nothing of the prizes is lost, and if they do
not make a whole number of chips, the next whole number is paid (`resolveBubbleElimination_fair`).
-/

namespace Pokerhub

open List

structure Bust where
  id : String
  stack : ℚ
  deriving DecidableEq

structure BubblePrize where
  id : String
  prize : ℤ
  deriving DecidableEq

def resolveBubbleElimination (busts : List Bust) (prizes : List ℚ) : List BubblePrize :=
  let sorted := busts.mergeSort fun a b => b.stack ≤ a.stack
  let pot := (prizes.take sorted.length).sum
  let base := ⌊pot / sorted.length⌋
  let remainder := pot - base * sorted.length
  sorted.zipIdx.map fun p => ⟨p.1.id, base + if (p.2 : ℚ) < remainder then 1 else 0⟩

/-! ### What is handed out chip by chip -/

/-- The places from `i` on that lie below `x` get one chip each. -/
lemma sum_ones {α : Type*} (l : List α) (base : ℤ) (x : ℚ) (i : ℕ) (hx : x ≤ i + l.length) :
    ((l.zipIdx i).map fun p => base + if (p.2 : ℚ) < x then 1 else 0).sum =
      base * l.length + max (⌈x⌉ - i) 0 := by
  induction l generalizing i with
  | nil =>
    have hle : ⌈x⌉ ≤ i := Int.ceil_le.mpr (by simpa using hx)
    simp only [zipIdx_nil, map_nil, sum_nil, length_nil, Nat.cast_zero, mul_zero, zero_add]
    omega
  | cons a l ih =>
    rw [length_cons] at hx
    have hrest := ih (i + 1) (by push_cast at hx ⊢; linarith)
    rw [zipIdx_cons, map_cons, sum_cons, hrest, length_cons]
    push_cast
    rw [mul_add, mul_one]
    by_cases hi : (i : ℚ) < x
    · have hlt : (i : ℤ) < ⌈x⌉ := Int.lt_ceil.mpr (by simpa using hi)
      rw [if_pos hi]
      omega
    · have hle : ⌈x⌉ ≤ i := Int.ceil_le.mpr (by simpa using hi)
      rw [if_neg hi]
      omega

/-- What an even share leaves is less than a chip for each. -/
lemma remainder_bounds (pot : ℚ) {n : ℕ} (hn : 0 < n) :
    0 ≤ pot - ⌊pot / n⌋ * n ∧ pot - ⌊pot / n⌋ * n ≤ n := by
  have hpos : (0 : ℚ) < n := Nat.cast_pos.mpr hn
  have hlow : (⌊pot / n⌋ : ℚ) * n ≤ pot := (le_div_iff₀ hpos).mp (Int.floor_le _)
  have hhigh : pot < (⌊pot / n⌋ + 1 : ℚ) * n := (div_lt_iff₀ hpos).mp (Int.lt_floor_add_one _)
  constructor <;> linarith

/-- In a list that goes down, what is larger stands before. -/
lemma lt_of_stack_lt {sorted : List Bust} (h : sorted.Pairwise fun a b => b.stack ≤ a.stack)
    {a b : Bust} {i j : ℕ} (ha : sorted[i]? = some a) (hb : sorted[j]? = some b)
    (hlt : b.stack < a.stack) : i < j := by
  obtain ⟨hi, rfl⟩ := List.getElem?_eq_some_iff.mp ha
  obtain ⟨hj, rfl⟩ := List.getElem?_eq_some_iff.mp hb
  rcases Nat.lt_trichotomy i j with hij | rfl | hij
  · exact hij
  · exact absurd hlt (lt_irrefl _)
  · exact absurd (pairwise_iff_getElem.mp h j i hj hi hij) (not_le_of_gt hlt)

/-- The prizes of the places that are shared are paid in full, each player gets the even share
rounded down or a chip more, and a larger stack does not get less. -/
theorem resolveBubbleElimination_fair (busts : List Bust) (prizes : List ℚ) :
    let pot := (prizes.take busts.length).sum
    ∃ paid : List (Bust × ℤ),
      resolveBubbleElimination busts prizes = paid.map (fun p => ⟨p.1.id, p.2⟩) ∧
      paid.map Prod.fst ~ busts ∧
      (paid.map Prod.snd).sum = ⌈pot⌉ ∧
      (∀ p ∈ paid, p.2 = ⌊pot / busts.length⌋ ∨ p.2 = ⌊pot / busts.length⌋ + 1) ∧
      ∀ p ∈ paid, ∀ q ∈ paid, q.1.stack < p.1.stack → q.2 ≤ p.2 := by
  intro pot
  obtain ⟨sorted, hsorted⟩ : ∃ sorted, busts.mergeSort (fun a b => b.stack ≤ a.stack) = sorted :=
    ⟨_, rfl⟩
  have hperm : sorted ~ busts := hsorted ▸ mergeSort_perm busts _
  have hlength : sorted.length = busts.length := hperm.length_eq
  have hdown : sorted.Pairwise fun a b => b.stack ≤ a.stack := by
    have hpairwise : (busts.mergeSort fun a b => b.stack ≤ a.stack).Pairwise
        fun a b => decide (b.stack ≤ a.stack) = true :=
      pairwise_mergeSort
        (fun a b c hab hbc => by
          rw [decide_eq_true_eq] at hab hbc ⊢
          exact hbc.trans hab)
        (fun a b => by simpa using le_total b.stack a.stack) busts
    simpa [hsorted] using hpairwise
  obtain ⟨base, hbase⟩ : ∃ base, ⌊pot / busts.length⌋ = base := ⟨_, rfl⟩
  obtain ⟨remainder, hremainder⟩ : ∃ r : ℚ, pot - base * busts.length = r := ⟨_, rfl⟩
  refine ⟨sorted.zipIdx.map fun p => (p.1, base + if (p.2 : ℚ) < remainder then 1 else 0),
    ?_, ?_, ?_, ?_, ?_⟩
  · simp only [resolveBubbleElimination, hsorted, hlength]
    rw [map_map, hbase, hremainder]
    rfl
  · rw [map_map]
    refine (Perm.of_eq ?_).trans hperm
    exact zipIdx_map_fst 0 sorted
  · have hsum := sum_ones sorted base remainder 0
    rw [map_map]
    rcases Nat.eq_zero_or_pos busts.length with hzero | hpos
    · obtain rfl : sorted = [] := length_eq_zero_iff.mp (hlength.trans hzero)
      have hpot : pot = 0 := by simp [pot, hzero]
      simp [hpot]
    · obtain ⟨hlow, hhigh⟩ := remainder_bounds pot hpos
      rw [hbase, hremainder] at hlow hhigh
      have hceil : ⌈remainder⌉ = ⌈pot⌉ - base * busts.length := by
        rw [← hremainder]
        exact_mod_cast Int.ceil_sub_intCast pot (base * busts.length)
      have hnonneg : 0 ≤ ⌈remainder⌉ := Int.ceil_nonneg hlow
      refine (hsum ?_).trans ?_
      · rw [hlength, Nat.cast_zero, zero_add]
        exact hhigh
      · rw [hlength, Nat.cast_zero, sub_zero, max_eq_left hnonneg, hceil]
        exact add_sub_cancel _ _
  · intro p hp
    obtain ⟨⟨a, i⟩, -, rfl⟩ := mem_map.mp hp
    rw [hbase]
    dsimp only
    split_ifs
    · exact Or.inr rfl
    · exact Or.inl (add_zero base)
  · intro p hp q hq hlt
    obtain ⟨⟨a, i⟩, ha, rfl⟩ := mem_map.mp hp
    obtain ⟨⟨b, j⟩, hb, rfl⟩ := mem_map.mp hq
    have hij : i < j :=
      lt_of_stack_lt hdown (mem_zipIdx_iff_getElem?.mp ha) (mem_zipIdx_iff_getElem?.mp hb) hlt
    have hcast : (i : ℚ) < j := Nat.cast_lt.mpr hij
    dsimp only
    refine Int.add_le_add_left ?_ base
    by_cases hj : (j : ℚ) < remainder
    · rw [if_pos hj, if_pos (hcast.trans hj)]
    · rw [if_neg hj]
      split_ifs <;> decide

end Pokerhub
