import Mathlib.Data.Int.Basic
import Mathlib.Data.Set.Function
import Mathlib.Logic.Equiv.Basic
import Mathlib.Tactic.Common

/-!
# Descending swaps of a sparse array

An array that may be read and written at any integer position, also at negative ones, and returns
nothing where nothing was written. `swapDown` exchanges the positions `n`, …, `1` with picked
positions. Nothing is lost or repeated (`exists_perm_swapDown`), and the positions up to `n` keep
holding something exactly when no picked position is negative (`swapDown_isSome_iff`).
-/

variable {α : Type*}

/-- Exchange two positions: write the one, then the other. -/
def exchange (arr : ℤ → Option α) (i j : ℤ) : ℤ → Option α :=
  Function.update (Function.update arr i (arr j)) j (arr i)

/-- Exchange each position from `n` down to 1 with its picked position. -/
def swapDown (pick : ℕ → ℤ) : ℕ → (ℤ → Option α) → ℤ → Option α
  | 0, arr => arr
  | i + 1, arr => swapDown pick i (exchange arr (i + 1) (pick (i + 1)))

lemma exchange_eq (arr : ℤ → Option α) (i j : ℤ) : exchange arr i j = arr ∘ Equiv.swap i j := by
  funext z
  unfold exchange
  simp only [Function.update_apply, Function.comp, Equiv.swap_apply_def]
  split_ifs <;> simp_all

/-- The swaps only rearrange. -/
theorem exists_perm_swapDown (pick : ℕ → ℤ) (n : ℕ) (arr : ℤ → Option α) :
    ∃ σ : Equiv.Perm ℤ, swapDown pick n arr = arr ∘ σ := by
  induction n generalizing arr with
  | zero => exact ⟨Equiv.refl ℤ, rfl⟩
  | succ n ih =>
    obtain ⟨σ, hσ⟩ := ih (exchange arr (n + 1) (pick (n + 1)))
    refine ⟨σ.trans (Equiv.swap ((n : ℤ) + 1) (pick (n + 1))), ?_⟩
    rw [swapDown, hσ, exchange_eq]
    rfl

/-- Positions above are left alone. -/
lemma swapDown_of_lt {pick : ℕ → ℤ} {n : ℕ} (hpick : ∀ i ≤ n, pick i ≤ i) {arr : ℤ → Option α}
    {z : ℤ} (hz : (n : ℤ) < z) : swapDown pick n arr z = arr z := by
  induction n generalizing arr with
  | zero => rfl
  | succ n ih =>
    have hbelow := hpick (n + 1) le_rfl
    push_cast at hz hbelow
    rw [swapDown, ih (fun i hi => hpick i (by omega)) (by omega), exchange_eq, Function.comp,
      Equiv.swap_apply_of_ne_of_ne (by omega) (by omega)]

/-- Swaps among full positions keep them full. -/
lemma swapDown_isSome {pick : ℕ → ℤ} {n top : ℕ} (hn : n ≤ top)
    (hpick : ∀ i ≤ n, 0 < i → 0 ≤ pick i ∧ pick i ≤ i) {arr : ℤ → Option α}
    (harr : ∀ z : ℤ, 0 ≤ z → z ≤ top → (arr z).isSome) :
    ∀ z : ℤ, 0 ≤ z → z ≤ top → (swapDown pick n arr z).isSome := by
  induction n generalizing arr with
  | zero => exact harr
  | succ n ih =>
    obtain ⟨hnonneg, hbelow⟩ := hpick (n + 1) le_rfl (by omega)
    push_cast at hbelow
    refine ih (by omega) (fun i hi => hpick i (by omega)) fun z hz hztop => ?_
    rw [exchange_eq, Function.comp, Equiv.swap_apply_def]
    split_ifs
    · exact harr _ hnonneg (by omega)
    · exact harr _ (by omega) (by omega)
    · exact harr z hz hztop

/-- A negative pick empties its position for good. -/
lemma pick_nonneg_of_isSome {pick : ℕ → ℤ} {n : ℕ} (hpick : ∀ i ≤ n, pick i ≤ i)
    {arr : ℤ → Option α} (harr : ∀ z < 0, arr z = none)
    (h : ∀ z : ℤ, 0 ≤ z → z ≤ n → (swapDown pick n arr z).isSome) :
    ∀ i ≤ n, 0 < i → 0 ≤ pick i := by
  induction n generalizing arr with
  | zero => intro i hi hpos; omega
  | succ n ih =>
    have hbelow : ∀ i ≤ n, pick i ≤ i := fun i hi => hpick i (by omega)
    have htop : 0 ≤ pick (n + 1) := by
      have hfull := h (n + 1) (by omega) (by push_cast; omega)
      rw [swapDown, swapDown_of_lt hbelow (by omega), exchange_eq, Function.comp,
        Equiv.swap_apply_left] at hfull
      by_contra hneg
      rw [harr _ (by omega)] at hfull
      cases hfull
    have hstill : ∀ z < 0, exchange arr (n + 1) (pick (n + 1)) z = none := by
      intro z hz
      rw [exchange_eq, Function.comp, Equiv.swap_apply_of_ne_of_ne (by omega) (by omega), harr z hz]
    have hrest := ih hbelow hstill fun z hz hzn => h z hz (by push_cast; omega)
    intro i hi hpos
    rcases Nat.lt_or_ge n i with hlt | hle
    · obtain rfl : i = n + 1 := by omega
      exact htop
    · exact hrest i hle hpos

/-- The positions stay full exactly when no pick is negative. -/
theorem swapDown_isSome_iff {pick : ℕ → ℤ} {n : ℕ} (hpick : ∀ i ≤ n, pick i ≤ i)
    {arr : ℤ → Option α} (harr : ∀ z, (arr z).isSome ↔ 0 ≤ z ∧ z ≤ n) :
    (∀ z : ℤ, 0 ≤ z → z ≤ n → (swapDown pick n arr z).isSome) ↔
      ∀ i ≤ n, 0 < i → 0 ≤ pick i := by
  constructor
  · refine pick_nonneg_of_isSome hpick fun z hz => ?_
    rw [← Option.not_isSome_iff_eq_none, harr]
    omega
  · intro h
    exact swapDown_isSome le_rfl (fun i hi hpos => ⟨h i hi hpos, hpick i hi⟩)
      fun z hz hzn => (harr z).mpr ⟨hz, hzn⟩
