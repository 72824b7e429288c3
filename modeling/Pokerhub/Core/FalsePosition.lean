import Mathlib.Analysis.Convex.Slope
import Mathlib.Tactic.FieldSimp
import Mathlib.Tactic.LinearCombination
import Mathlib.Topology.Order.Compact
import Mathlib.Topology.Instances.Real.Lemmas

/-!
# The rule of false position

The plain rule: of two ends at which a function has opposite signs, the one of the sign of the new
point is replaced by the point where the chord is zero. The rule never divides by zero
(`Opposite.ne`). Where the chords to the right end have their zeros left of all zeros of the
function, the right end stays, and the ends come within a tolerance exactly when the function is
positive up to this tolerance before the right end (`RightStall.loop_isSome_iff`); at the left end
it is the same in the mirror (`LeftStall.loop_isSome_iff`).
-/

namespace FalsePosition

open Set

/-- Two points with the values at them. -/
@[ext] structure Ends where
  A : ℝ
  B : ℝ
  fA : ℝ
  fB : ℝ

/-- The ends with the values of the function. -/
def Ends.of (f : ℝ → ℝ) (A B : ℝ) : Ends := ⟨A, B, f A, f B⟩

/-- The zero of the chord. -/
noncomputable def Ends.next (s : Ends) : ℝ :=
  s.A + (s.A - s.B) * s.fA / (s.fB - s.fA)

open Classical in
/-- The new point becomes `B`. -/
noncomputable def step (f : ℝ → ℝ) (s : Ends) : Ends :=
  if f s.next * s.fB < 0 then ⟨s.B, s.next, s.fB, f s.next⟩ else ⟨s.A, s.next, s.fA, f s.next⟩

open Classical in
/-- The rule until the ends are within the tolerance, with at most `n` steps. -/
noncomputable def loop (f : ℝ → ℝ) (tol : ℝ) : ℕ → Ends → Option Ends
  | 0, s => if |s.B - s.A| > tol then none else some s
  | n + 1, s => if |s.B - s.A| > tol then loop f tol n (step f s) else some s

variable {f : ℝ → ℝ} {tol lo hi l : ℝ} {s : Ends} {n : ℕ}

lemma loop_of_le (h : |s.B - s.A| ≤ tol) (n : ℕ) : loop f tol n s = some s := by
  cases n with
  | zero => exact if_neg (not_lt.mpr h)
  | succ n => exact if_neg (not_lt.mpr h)

lemma loop_of_lt (h : tol < |s.B - s.A|) : loop f tol (n + 1) s = loop f tol n (step f s) :=
  if_pos h

/-! ### The denominator -/

/-- The signs are opposite, or only the value at `B` is zero. -/
def Opposite (f : ℝ → ℝ) (s : Ends) : Prop :=
  s.fA = f s.A ∧ s.fB = f s.B ∧ (s.fA * s.fB < 0 ∨ (s.fB = 0 ∧ s.fA ≠ 0))

lemma Opposite.ne (h : Opposite f s) : s.fB - s.fA ≠ 0 := by
  rcases h.2.2 with hneg | ⟨hB, hA⟩
  · intro heq
    have hsame : s.fB = s.fA := by linarith
    rw [hsame] at hneg
    exact absurd hneg (mul_self_nonneg s.fA).not_gt
  · rw [hB, zero_sub]
    exact neg_ne_zero.mpr hA

/-- Every step keeps the signs opposite. -/
lemma Opposite.step (h : Opposite f s) : Opposite f (step f s) := by
  obtain ⟨hA, hB, hsigns⟩ := h
  unfold FalsePosition.step
  split_ifs with hneg
  · exact ⟨hB, rfl, Or.inl (by rwa [mul_comm])⟩
  · refine ⟨hA, rfl, ?_⟩
    change s.fA * f s.next < 0 ∨ (f s.next = 0 ∧ s.fA ≠ 0)
    rcases hsigns with hsigns | ⟨hzero, hne⟩
    · have hfA : s.fA ≠ 0 := by
        rintro hzero
        simp [hzero] at hsigns
      rcases eq_or_ne (f s.next) 0 with hnext | hnext
      · exact Or.inr ⟨hnext, hfA⟩
      · left
        have hfB : s.fB ≠ 0 := by
          rintro hzero
          simp [hzero] at hsigns
        have hpos : 0 < f s.next * s.fB := (not_lt.mp hneg).lt_of_ne' (mul_ne_zero hnext hfB)
        rcases mul_neg_iff.mp hsigns with ⟨hfA, hfB⟩ | ⟨hfA, hfB⟩
        · exact mul_neg_of_pos_of_neg hfA (neg_of_mul_pos_left hpos hfB.le)
        · exact mul_neg_of_neg_of_pos hfA (pos_of_mul_pos_left hpos hfB.le)
    · -- the chord has its zero at `B`
      have hnext : s.next = s.B := by
        rw [Ends.next, hzero]
        field_simp
        ring
      exact Or.inr ⟨by rw [hnext, ← hB, hzero], hne⟩

lemma Opposite.iterate (h : Opposite f s) (n : ℕ) : Opposite f ((FalsePosition.step f)^[n] s) := by
  induction n with
  | zero => exact h
  | succ n ih =>
    rw [Function.iterate_succ_apply']
    exact ih.step

/-! ### Chords to the right end -/

/-- The zero of the chord from `l` to `hi`. -/
noncomputable def chordZero (f : ℝ → ℝ) (hi l : ℝ) : ℝ :=
  l + (hi - l) * f l / (f l - f hi)

/-- As long as the function is positive up to the left end, it is up to the zero of the chord. -/
def RightStall (f : ℝ → ℝ) (lo hi : ℝ) : Prop :=
  ∀ l, lo ≤ l → l < hi → (∀ x ∈ Icc lo l, 0 < f x) → ∀ x ∈ Icc l (chordZero f hi l), 0 < f x

lemma chordZero_mem (hl : l < hi) (hpos : 0 < f l) (hneg : f hi < 0) :
    l < chordZero f hi l ∧ chordZero f hi l < hi := by
  have hden : 0 < f l - f hi := by linarith
  have hwidth : 0 < hi - l := by linarith
  constructor
  · have : 0 < (hi - l) * f l / (f l - f hi) := div_pos (mul_pos hwidth hpos) hden
    rw [chordZero]
    linarith
  · have : (hi - l) * f l / (f l - f hi) < hi - l := by
      rw [div_lt_iff₀ hden]
      exact mul_lt_mul_of_pos_left (by linarith) hwidth
    rw [chordZero]
    linarith

/-- If the slopes down to the right end become steeper, the function is above the chords. -/
lemma rightStall_of_slopes (hneg : f hi < 0)
    (h : ∀ l x, lo ≤ l → l < x → x < hi →
      (f l - f hi) / (hi - l) < (f x - f hi) / (hi - x)) : RightStall f lo hi := by
  intro l hlo hl hpos x ⟨hlx, hx⟩
  have hfl : 0 < f l := hpos l ⟨hlo, le_rfl⟩
  rcases hlx.eq_or_lt with rfl | hlx
  · exact hfl
  · have hxhi : x < hi := hx.trans_lt (chordZero_mem hl hfl hneg).2
    have hslope := h l x hlo hlx hxhi
    rw [div_lt_div_iff₀ (by linarith) (by linarith)] at hslope
    -- before its zero the chord is not below the axis
    have hchord : 0 ≤ f hi * (hi - l) + (f l - f hi) * (hi - x) := by
      have hden : 0 < f l - f hi := by linarith
      rw [chordZero, ← sub_le_iff_le_add', le_div_iff₀ hden] at hx
      nlinarith
    have hwidth : 0 < hi - l := by linarith
    have hprod : 0 < f x * (hi - l) := by nlinarith
    exact pos_of_mul_pos_left hprod hwidth.le

lemma rightStall_of_strictConcaveOn (hneg : f hi < 0) (h : StrictConcaveOn ℝ (Icc lo hi) f) :
    RightStall f lo hi := by
  refine rightStall_of_slopes hneg fun l x hlo hlx hx => ?_
  have hslope := h.secant_strict_mono (a := hi) ⟨by linarith, le_rfl⟩ ⟨hlo, by linarith⟩
    ⟨by linarith, hx.le⟩ (by linarith) hx.ne hlx
  rw [← neg_sub hi x, ← neg_sub hi l, div_neg, div_neg] at hslope
  linarith

/-- Up to the zero of the chord a line that falls no deeper than the right end is above the axis. -/
lemma pos_of_above_line {c y : ℝ} (hc : 0 ≤ c) (hdeep : c * (hi - l) ≤ -f hi) (hpos : 0 < f l)
    (hden : 0 < f l - f hi) (hy : y ≤ chordZero f hi l) (hline : f l - c * (y - l) ≤ f y) :
    0 < f y := by
  have hstep : c * (y - l) ≤ c * (hi - l) * f l / (f l - f hi) := by
    have hy' : y - l ≤ (hi - l) * f l / (f l - f hi) := by
      rw [chordZero] at hy
      linarith
    calc c * (y - l) ≤ c * ((hi - l) * f l / (f l - f hi)) := mul_le_mul_of_nonneg_left hy' hc
      _ = c * (hi - l) * f l / (f l - f hi) := by rw [← mul_div_assoc, mul_assoc]
  have hless : c * (hi - l) * f l / (f l - f hi) < f l := by
    rw [div_lt_iff₀ hden, mul_comm]
    exact mul_lt_mul_of_pos_left (by linarith) hpos
  linarith

/-- If up to a zero the function falls with a slope of at most `c`, and the right end is at least as
deep as `c` times the width, the chords have their zeros first. -/
lemma rightStall_of_falls {c z : ℝ} (hc : 0 ≤ c) (hslope : c * (hi - lo) ≤ -f hi) (hloz : lo ≤ z)
    (hz : f z ≤ 0)
    (hfalls : ∀ l x, lo ≤ l → l ≤ x → x ≤ z → f l - c * (x - l) ≤ f x) :
    RightStall f lo hi := by
  intro l hlo hl hpos
  have hfl : 0 < f l := hpos l ⟨hlo, le_rfl⟩
  have hlz : l < z := by
    by_contra hzl
    exact absurd (hpos z ⟨hloz, not_lt.mp hzl⟩) hz.not_gt
  have hfall : c * (hi - l) ≤ -f hi :=
    (mul_le_mul_of_nonneg_left (by linarith) hc).trans hslope
  have hden : 0 < f l - f hi := by
    have : 0 ≤ c * (hi - l) := mul_nonneg hc (by linarith)
    linarith
  intro x ⟨hlx, hx⟩
  have hxz : x ≤ z := by
    by_contra hzx
    have hzc : z ≤ chordZero f hi l := (not_le.mp hzx).le.trans hx
    have hfz := pos_of_above_line hc hfall hfl hden hzc (hfalls l z hlo hlz.le le_rfl)
    exact absurd hfz hz.not_gt
  exact pos_of_above_line hc hfall hfl hden hx (hfalls l x hlo hlx hxz)

/-- The right end and a left end up to which the function is positive, in either order. -/
def AtLeft (f : ℝ → ℝ) (lo hi l : ℝ) (s : Ends) : Prop :=
  lo ≤ l ∧ l < hi ∧ (∀ x ∈ Icc lo l, 0 < f x) ∧ (s = .of f hi l ∨ s = .of f l hi)

lemma AtLeft.width (h : AtLeft f lo hi l s) : |s.B - s.A| = hi - l := by
  obtain ⟨-, hl, -, rfl | rfl⟩ := h
  · change |l - hi| = hi - l
    rw [abs_of_neg (by linarith)]
    ring
  · change |hi - l| = hi - l
    rw [abs_of_pos (by linarith)]

lemma AtLeft.next_eq (h : AtLeft f lo hi l s) (hneg : f hi < 0) : s.next = chordZero f hi l := by
  obtain ⟨hlo, hl, hpos, hs⟩ := h
  have hfl := hpos l ⟨hlo, le_rfl⟩
  have hden : f l - f hi ≠ 0 := by linarith
  have hden' : f hi - f l ≠ 0 := by linarith
  rcases hs with rfl | rfl
  · change hi + (hi - l) * f hi / (f l - f hi) = l + (hi - l) * f l / (f l - f hi)
    field_simp
    ring
  · change l + (l - hi) * f l / (f hi - f l) = l + (hi - l) * f l / (f l - f hi)
    field_simp
    ring

/-- Only the left end moves. -/
lemma AtLeft.step (h : AtLeft f lo hi l s) (hstall : RightStall f lo hi) (hneg : f hi < 0) :
    AtLeft f lo hi (chordZero f hi l) (step f s) := by
  have hnext := h.next_eq hneg
  obtain ⟨hlo, hl, hpos, hs⟩ := h
  have hfl := hpos l ⟨hlo, le_rfl⟩
  obtain ⟨hlow, hhigh⟩ := chordZero_mem hl hfl hneg
  have hzero := hstall l hlo hl hpos
  have hfc := hzero _ ⟨hlow.le, le_rfl⟩
  refine ⟨hlo.trans hlow.le, hhigh, fun x ⟨hlox, hxc⟩ => ?_, Or.inl ?_⟩
  · rcases le_total x l with hxl | hlx
    · exact hpos x ⟨hlox, hxl⟩
    · exact hzero x ⟨hlx, hxc⟩
  · unfold FalsePosition.step
    rw [hnext]
    rcases hs with rfl | rfl
    · have hsame : ¬f (chordZero f hi l) * f l < 0 := (mul_pos hfc hfl).not_gt
      exact if_neg hsame
    · have hother : f (chordZero f hi l) * f hi < 0 := mul_neg_of_pos_of_neg hfc hneg
      exact if_pos hother

/-- Where the loop ends, the left end is within the tolerance. -/
lemma AtLeft.of_loop (hstall : RightStall f lo hi) (hneg : f hi < 0) (h : AtLeft f lo hi l s)
    (hloop : (loop f tol n s).isSome) :
    ∃ l', lo ≤ l' ∧ hi - l' ≤ tol ∧ ∀ x ∈ Icc lo l', 0 < f x := by
  induction n generalizing l s with
  | zero =>
    by_cases hdone : |s.B - s.A| ≤ tol
    · exact ⟨l, h.1, h.width ▸ hdone, h.2.2.1⟩
    · rw [loop, if_pos (not_le.mp hdone)] at hloop
      cases hloop
  | succ n ih =>
    by_cases hdone : |s.B - s.A| ≤ tol
    · exact ⟨l, h.1, h.width ▸ hdone, h.2.2.1⟩
    · rw [loop_of_lt (not_le.mp hdone)] at hloop
      exact ih (h.step hstall hneg) hloop

/-- Every step before the tolerance is at least as long as `ε`. -/
lemma AtLeft.isSome_loop (hstall : RightStall f lo hi) (hneg : f hi < 0) {m : ℝ} (hm : 0 < m)
    (hbound : ∀ x ∈ Icc lo (hi - tol), m ≤ f x) (htol : 0 < tol) (h : AtLeft f lo hi l s)
    (hn : hi - tol - l ≤ n * (tol * m / (m - f hi))) : (loop f tol n s).isSome := by
  induction n generalizing l s with
  | zero =>
    rw [Nat.cast_zero, zero_mul] at hn
    rw [loop_of_le (by rw [h.width]; linarith)]
    rfl
  | succ n ih =>
    by_cases hdone : |s.B - s.A| ≤ tol
    · rw [loop_of_le hdone]
      rfl
    · rw [loop_of_lt (not_le.mp hdone)]
      refine ih (h.step hstall hneg) ?_
      have hwidth : tol < hi - l := h.width ▸ not_le.mp hdone
      have hfl : m ≤ f l := hbound l ⟨h.1, by linarith⟩
      have hstep : tol * m / (m - f hi) ≤ (hi - l) * f l / (f l - f hi) := by
        have hshare : m / (m - f hi) ≤ f l / (f l - f hi) := by
          rw [div_le_div_iff₀ (by linarith) (by linarith)]
          nlinarith
        have hnonneg : 0 ≤ m / (m - f hi) := div_nonneg hm.le (by linarith)
        calc tol * m / (m - f hi) = tol * (m / (m - f hi)) := mul_div_assoc _ _ _
          _ ≤ (hi - l) * (f l / (f l - f hi)) :=
            mul_le_mul hwidth.le hshare hnonneg (by linarith)
          _ = (hi - l) * f l / (f l - f hi) := (mul_div_assoc _ _ _).symm
      rw [Nat.cast_succ, add_mul, one_mul] at hn
      rw [chordZero]
      linarith

/-- With the right end staying, the loop ends exactly when the tolerance reaches beyond the first
zero of the function. -/
theorem RightStall.loop_isSome_iff (hstall : RightStall f lo hi) (hlohi : lo < hi)
    (hpos : 0 < f lo) (hneg : f hi < 0) (htol : 0 < tol) (hcont : ContinuousOn f (Icc lo hi))
    (hs : s = .of f hi lo ∨ s = .of f lo hi) :
    (∃ n, (loop f tol n s).isSome) ↔ hi - lo ≤ tol ∨ ∀ x ∈ Icc lo (hi - tol), 0 < f x := by
  have hstart : AtLeft f lo hi lo s := by
    refine ⟨le_rfl, hlohi, fun x hx => ?_, hs⟩
    rwa [le_antisymm hx.2 hx.1]
  constructor
  · rintro ⟨n, hloop⟩
    obtain ⟨l, -, hl, hall⟩ := AtLeft.of_loop hstall hneg hstart hloop
    exact Or.inr fun x ⟨hlox, hx⟩ => hall x ⟨hlox, by linarith⟩
  · rintro hcond
    rcases le_or_gt (hi - lo) tol with hnarrow | hwide
    · exact ⟨0, by rw [loop_of_le (by rwa [hstart.width])]; rfl⟩
    · have hall := hcond.resolve_left (not_le.mpr hwide)
      -- on the compact part the function stays away from zero
      obtain ⟨x, hx, hmin⟩ := isCompact_Icc.exists_isMinOn
        (nonempty_Icc.mpr (by linarith : lo ≤ hi - tol))
        (hcont.mono (Icc_subset_Icc le_rfl (by linarith)))
      have hm := hall x hx
      have hε : 0 < tol * f x / (f x - f hi) :=
        div_pos (mul_pos htol hm) (by linarith)
      obtain ⟨n, hn⟩ := exists_nat_ge ((hi - tol - lo) / (tol * f x / (f x - f hi)))
      exact ⟨n, AtLeft.isSome_loop hstall hneg hm (fun y hy => hmin hy) htol hstart
        ((div_le_iff₀ hε).mp hn)⟩

/-! ### In the mirror -/

/-- The function turned around the origin. -/
def mirror (f : ℝ → ℝ) (x : ℝ) : ℝ :=
  -f (-x)

def Ends.mirror (s : Ends) : Ends :=
  ⟨-s.A, -s.B, -s.fA, -s.fB⟩

/-- The left end stays. -/
def LeftStall (f : ℝ → ℝ) (lo hi : ℝ) : Prop :=
  RightStall (mirror f) (-hi) (-lo)

lemma next_mirror (s : Ends) : s.mirror.next = -s.next := by
  have hden : -s.fB - -s.fA = -(s.fB - s.fA) := by ring
  rw [Ends.next, Ends.next]
  change -s.A + (-s.A - -s.B) * -s.fA / (-s.fB - -s.fA) = _
  rw [hden, div_neg]
  ring

lemma step_mirror (f : ℝ → ℝ) (s : Ends) : step (mirror f) s.mirror = (step f s).mirror := by
  have hvalue : mirror f s.mirror.next = -f s.next := by
    rw [next_mirror, mirror, neg_neg]
  unfold step
  rw [hvalue, next_mirror]
  change (if -f s.next * -s.fB < 0 then _ else _) = _
  rw [neg_mul_neg]
  split_ifs <;> rfl

lemma width_mirror (s : Ends) : |s.mirror.B - s.mirror.A| = |s.B - s.A| := by
  change |-s.B - -s.A| = |s.B - s.A|
  rw [neg_sub_neg, abs_sub_comm]

lemma loop_mirror (f : ℝ → ℝ) (tol : ℝ) (n : ℕ) (s : Ends) :
    loop (mirror f) tol n s.mirror = (loop f tol n s).map Ends.mirror := by
  induction n generalizing s with
  | zero =>
    rw [loop, loop, width_mirror]
    split_ifs <;> rfl
  | succ n ih =>
    rw [loop, loop, width_mirror, step_mirror, ih]
    split_ifs <;> rfl

lemma leftStall_of_strictConvexOn (hpos : 0 < f lo) (h : StrictConvexOn ℝ (Icc lo hi) f) :
    LeftStall f lo hi := by
  refine rightStall_of_strictConcaveOn ?_ ⟨convex_Icc _ _, fun x hx y hy hxy a b ha hb hab => ?_⟩
  · rw [mirror, neg_neg]
    exact neg_neg_of_pos hpos
  · have hx' : -x ∈ Icc lo hi := ⟨by linarith [hx.2], by linarith [hx.1]⟩
    have hy' : -y ∈ Icc lo hi := ⟨by linarith [hy.2], by linarith [hy.1]⟩
    have hlt := h.2 hx' hy' (neg_injective.ne hxy) ha hb hab
    have hpoint : a • -x + b • -y = -(a • x + b • y) := by
      simp only [smul_eq_mul]
      ring
    rw [hpoint] at hlt
    simp only [mirror, smul_eq_mul] at hlt ⊢
    linarith

/-- With the left end staying, the loop ends exactly when the tolerance reaches beyond the last zero
of the function. -/
theorem LeftStall.loop_isSome_iff (hstall : LeftStall f lo hi) (hlohi : lo < hi)
    (hpos : 0 < f lo) (hneg : f hi < 0) (htol : 0 < tol) (hcont : ContinuousOn f (Icc lo hi))
    (hs : s = .of f hi lo ∨ s = .of f lo hi) :
    (∃ n, (loop f tol n s).isSome) ↔ hi - lo ≤ tol ∨ ∀ x ∈ Icc (lo + tol) hi, f x < 0 := by
  have hmirror (A B : ℝ) : (Ends.of f A B).mirror = .of (mirror f) (-A) (-B) := by
    simp [Ends.of, Ends.mirror, mirror]
  have hstart : s.mirror = .of (mirror f) (-lo) (-hi) ∨ s.mirror = .of (mirror f) (-hi) (-lo) := by
    rcases hs with rfl | rfl
    · exact Or.inr (hmirror hi lo)
    · exact Or.inl (hmirror lo hi)
  have hcont' : ContinuousOn (mirror f) (Icc (-hi) (-lo)) := by
    refine (hcont.comp continuous_neg.continuousOn fun x hx => ?_).neg
    exact ⟨by linarith [hx.2], by linarith [hx.1]⟩
  have hiff := RightStall.loop_isSome_iff (s := s.mirror) hstall (neg_lt_neg hlohi)
    (by rw [mirror, neg_neg]; linarith) (by rw [mirror, neg_neg]; linarith) htol hcont' hstart
  simp only [loop_mirror, Option.isSome_map] at hiff
  rw [hiff]
  refine or_congr (by rw [neg_sub_neg]) ⟨fun h x hx => ?_, fun h x hx => ?_⟩
  · have hx' := h (-x) ⟨by linarith [hx.2], by linarith [hx.1]⟩
    rw [mirror, neg_neg] at hx'
    linarith
  · have hx' := h (-x) ⟨by linarith [hx.2], by linarith [hx.1]⟩
    rw [mirror]
    linarith

end FalsePosition
