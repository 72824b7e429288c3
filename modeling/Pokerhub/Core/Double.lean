import Mathlib.Algebra.Order.Floor.Ring
import Mathlib.Data.Int.Log
import Mathlib.Data.Rat.Floor
import Mathlib.Tactic.Linarith
import Mathlib.Tactic.Positivity
import Mathlib.Tactic.Ring

/-!
# Rounding to double precision

What an operation on doubles returns, away from overflow and subnormal numbers: its exact result
`x` rounded to 53 binary digits (`toDouble x`). Rounding keeps the sign, and it does not step over
a double.
-/

/-- The nearest integer, ties to even. -/
def roundEven (q : ℚ) : ℤ :=
  if q - ⌊q⌋ < 1 / 2 then ⌊q⌋
  else if 1 / 2 < q - ⌊q⌋ then ⌊q⌋ + 1
  else if Even ⌊q⌋ then ⌊q⌋ else ⌊q⌋ + 1

/-- The distance between doubles of the size of `x`. -/
def ulp (x : ℚ) : ℚ :=
  2 ^ (Int.log 2 |x| - 52)

/-- The double nearest to `x`. -/
def toDouble (x : ℚ) : ℚ :=
  roundEven (x / ulp x) * ulp x

lemma roundEven_eq_or (q : ℚ) : roundEven q = ⌊q⌋ ∨ roundEven q = ⌊q⌋ + 1 ∧ (⌊q⌋ : ℚ) < q := by
  unfold roundEven
  split_ifs with hlow hhigh heven
  · exact Or.inl rfl
  · exact Or.inr ⟨rfl, by linarith⟩
  · exact Or.inl rfl
  · exact Or.inr ⟨rfl, by linarith⟩

lemma roundEven_le {q : ℚ} {n : ℤ} (h : q ≤ n) : roundEven q ≤ n := by
  rcases roundEven_eq_or q with hq | ⟨hq, hlt⟩
  · rw [hq]
    exact_mod_cast (Int.floor_le q).trans h
  · have hfloor : ⌊q⌋ < n := by exact_mod_cast hlt.trans_le h
    omega

lemma le_roundEven {q : ℚ} {n : ℤ} (h : (n : ℚ) ≤ q) : n ≤ roundEven q := by
  have hfloor : n ≤ ⌊q⌋ := Int.le_floor.mpr h
  rcases roundEven_eq_or q with hq | ⟨hq, _⟩
  · rwa [hq]
  · omega

lemma ulp_pos (x : ℚ) : 0 < ulp x :=
  zpow_pos (by norm_num) _

lemma toDouble_neg {x : ℚ} (h : x < 0) : toDouble x < 0 := by
  have hulp : ulp x ≤ -x := by
    have hlog : (2 : ℚ) ^ Int.log 2 |x| ≤ |x| := Int.zpow_log_le_self (by norm_num) (by simp [h.ne])
    rw [abs_of_neg h] at hlog
    refine le_trans ?_ hlog
    unfold ulp
    rw [abs_of_neg h]
    exact zpow_le_zpow_right₀ (by norm_num) (by omega)
  have hquotient : x / ulp x ≤ ((-1 : ℤ) : ℚ) := by
    rw [div_le_iff₀ (ulp_pos x)]
    push_cast
    linarith
  have hround : (roundEven (x / ulp x) : ℚ) ≤ -1 := by exact_mod_cast roundEven_le hquotient
  exact mul_neg_of_neg_of_pos (by linarith) (ulp_pos x)

lemma toDouble_nonneg {x : ℚ} (h : 0 ≤ x) : 0 ≤ toDouble x := by
  have hquotient : ((0 : ℤ) : ℚ) ≤ x / ulp x := by
    rw [Int.cast_zero]
    exact div_nonneg h (ulp_pos x).le
  exact mul_nonneg (by exact_mod_cast le_roundEven hquotient) (ulp_pos x).le

/-- The halves of small integers are doubles. -/
lemma toDouble_le_half {x : ℚ} {m : ℕ} (hx : 0 ≤ x) (hm : m < 2 ^ 50) (h : x ≤ m / 2) :
    toDouble x ≤ m / 2 := by
  rcases hx.eq_or_lt with rfl | hpos
  · simp only [toDouble, zero_div]
    have hzero : roundEven 0 = 0 := le_antisymm (roundEven_le (by simp)) (le_roundEven (by simp))
    rw [hzero, Int.cast_zero, zero_mul]
    positivity
  · -- the half is a multiple of the distance between the doubles of the size of `x`
    have hlog : Int.log 2 x < 50 := by
      rw [← Int.lt_zpow_iff_log_lt (by norm_num) hpos]
      have hcast : (m : ℚ) < 2 ^ 50 := by exact_mod_cast hm
      push_cast
      have : x < 2 ^ 50 := by linarith
      exact_mod_cast this
    obtain ⟨k, hk⟩ : ∃ k : ℕ, (51 - Int.log 2 x) = k := ⟨(51 - Int.log 2 x).toNat, by omega⟩
    have hmultiple : (m : ℚ) / 2 = ((m * 2 ^ k : ℤ) : ℚ) * ulp x := by
      have hpow : (2 : ℚ) ^ k * ulp x = 2⁻¹ := by
        unfold ulp
        rw [abs_of_pos hpos, ← zpow_natCast, ← hk, ← zpow_add₀ (by norm_num)]
        ring_nf
        norm_num
      push_cast
      rw [mul_assoc, hpow, div_eq_mul_inv]
    have hquotient : x / ulp x ≤ ((m * 2 ^ k : ℤ) : ℚ) := by
      rw [div_le_iff₀ (ulp_pos x), ← hmultiple]
      exact h
    rw [hmultiple]
    exact mul_le_mul_of_nonneg_right (by exact_mod_cast roundEven_le hquotient) (ulp_pos x).le
