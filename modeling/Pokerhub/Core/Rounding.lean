import Mathlib.Algebra.BigOperators.Group.Finset.Basic
import Mathlib.Algebra.BigOperators.Ring.Finset
import Mathlib.Algebra.Order.Floor.Ring
import Mathlib.Data.Fintype.Card
import Mathlib.Data.Fintype.BigOperators
import Mathlib.Tactic.Linarith

/-!
# Rounding to whole units

Shares are rounded down, and some of them get one more unit (`roundTo`). Each of these stays within
one unit of its share exactly when it is not whole (`abs_roundTo_sub_lt_one_iff`). Given in the
order of the fractions, the units fit when they are no more than rounding up every share would
take (`forall_abs_roundTo_iff`).
-/

open Finset

variable {ι K : Type*} [DecidableEq ι] [Field K] [LinearOrder K] [IsStrictOrderedRing K]
  [FloorRing K]

/-- The shares rounded down, with one more unit for those in `up`. -/
def roundTo (v : ι → K) (up : List ι) (i : ι) : ℤ :=
  ⌊v i⌋ + if i ∈ up then 1 else 0

omit [IsStrictOrderedRing K] in
lemma roundTo_of_mem {v : ι → K} {up : List ι} {i : ι} (h : i ∈ up) :
    roundTo v up i = ⌊v i⌋ + 1 := by
  rw [roundTo, if_pos h]

omit [IsStrictOrderedRing K] in
lemma roundTo_of_notMem {v : ι → K} {up : List ι} {i : ι} (h : i ∉ up) :
    roundTo v up i = ⌊v i⌋ := by
  rw [roundTo, if_neg h, add_zero]

/-- A unit more is one too many for a share that is whole. -/
lemma abs_roundTo_sub_lt_one_iff (v : ι → K) (up : List ι) (i : ι) :
    |(roundTo v up i : K) - v i| < 1 ↔ (i ∈ up → 0 < Int.fract (v i)) := by
  have hfract := Int.self_sub_floor (v i)
  have hnonneg := Int.fract_nonneg (v i)
  have hlt := Int.fract_lt_one (v i)
  by_cases h : i ∈ up
  · rw [roundTo_of_mem h, Int.cast_add, Int.cast_one, abs_lt]
    constructor
    · rintro ⟨-, hupper⟩ -
      linarith
    · intro hpos
      have := hpos h
      constructor <;> linarith
  · rw [roundTo_of_notMem h, abs_lt]
    refine iff_of_true ⟨by linarith, by linarith⟩ fun hmem => absurd hmem h

lemma ceil_eq_floor_add (v : K) : ⌈v⌉ = ⌊v⌋ + if 0 < Int.fract v then 1 else 0 := by
  split_ifs with h
  · refine (Int.ceil_eq_floor_add_one_iff_notMem v).mpr ?_
    rw [← Int.fract_eq_zero_iff]
    exact h.ne'
  · have hzero : Int.fract v = 0 := le_antisymm (not_lt.mp h) (Int.fract_nonneg v)
    have hwhole : v = ⌊v⌋ := by
      rw [← sub_eq_zero, Int.self_sub_floor, hzero]
    rw [add_zero, hwhole, Int.ceil_intCast, Int.floor_intCast]

section Fintype

variable [Fintype ι] {v : ι → K} {up order : List ι} {r : ℕ}

omit [IsStrictOrderedRing K] in
lemma sum_roundTo (hup : up.Nodup) : ∑ i, roundTo v up i = ∑ i, ⌊v i⌋ + up.length := by
  have hcard : (univ.filter fun i => i ∈ up) = up.toFinset := by
    ext i
    simp
  simp only [roundTo, sum_add_distrib, sum_boole, hcard, List.toFinset_card_of_nodup hup]

omit [DecidableEq ι] in
lemma sum_ceil (v : ι → K) :
    ∑ i, ⌈v i⌉ = ∑ i, ⌊v i⌋ + #(univ.filter fun i => 0 < Int.fract (v i)) := by
  simp only [ceil_eq_floor_add, sum_add_distrib, sum_boole]

omit [DecidableEq ι] [Fintype ι] [IsStrictOrderedRing K] [FloorRing K] in
/-- In decreasing order the positive keys come first. -/
lemma forall_take_pos_iff {key : ι → K} {l : List ι} (hl : l.Pairwise fun i j => key j ≤ key i)
    (hr : r ≤ l.length) : (∀ i ∈ l.take r, 0 < key i) ↔ r ≤ l.countP (0 < key ·) := by
  induction l generalizing r with
  | nil => simpa using hr
  | cons x l ih =>
    rw [List.pairwise_cons] at hl
    cases r with
    | zero => simp
    | succ r =>
      rw [List.length_cons] at hr
      rw [List.take_succ_cons, List.forall_mem_cons, ih hl.2 (by omega), List.countP_cons]
      by_cases hx : 0 < key x
      · simp [hx]
      · have hnone : l.countP (0 < key ·) = 0 := by
          refine List.countP_eq_zero.mpr fun y hy => ?_
          simpa using (hl.1 y hy).trans (not_lt.mp hx)
        simp [hx, hnone]

/-- With the largest fractions first, `r` more units are right when every share rounded up would
take them. -/
theorem forall_abs_roundTo_iff (hnodup : order.Nodup) (hall : ∀ i, i ∈ order)
    (hsorted : order.Pairwise fun i j => Int.fract (v j) ≤ Int.fract (v i))
    (hr : r ≤ order.length) :
    (∀ i, |(roundTo v (order.take r) i : K) - v i| < 1) ↔ ∑ i, ⌊v i⌋ + r ≤ ∑ i, ⌈v i⌉ := by
  have hcount : order.countP (fun i => 0 < Int.fract (v i)) =
      #(univ.filter fun i => 0 < Int.fract (v i)) := by
    rw [List.countP_eq_length_filter, ← List.toFinset_card_of_nodup (hnodup.filter _)]
    congr 1
    ext i
    simp [hall]
  simp only [abs_roundTo_sub_lt_one_iff]
  have htake : (∀ i, i ∈ order.take r → 0 < Int.fract (v i)) ↔
      r ≤ order.countP fun i => 0 < Int.fract (v i) :=
    @forall_take_pos_iff ι K _ _ r (fun i => Int.fract (v i)) order hsorted hr
  rw [htake, hcount, sum_ceil]
  omega

end Fintype
