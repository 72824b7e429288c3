import Pokerhub.Shared.Verify

/-!
# Which shuffles rearrange their items

The array that `shuffle` returns is a rearrangement of the items exactly when none of the drawn
hashes has the top bit of its first byte set (`shuffle_rearranges_iff`), both with the divisions and
products of the language and with exact ones.
-/

namespace Pokerhub

open List

variable {α : Type*}

/-! ### Exact draws -/

section Exact

variable (sha256 : List UInt8 → List UInt8) (seed : List UInt8)

/-- The position that is drawn for `i` at a counter, without rounding. -/
def exactPick (counter i : ℕ) : ℤ :=
  ⌊((word (sha256 (seed ++ encode counter))).toInt / 0xffffffff : ℚ) * (i + 1)⌋

/-- The loop of `shuffle` for any draws. -/
def swapLoop (drawn : ℕ → ℕ → ℤ) : ℕ → ℕ → Properties α → Properties α
  | 0, _, arr => arr
  | i + 1, counter, arr =>
    swapLoop drawn i (counter + 1) (arr.swap (i + 1) (drawn counter (i + 1)))

/-- `shuffle` with exact divisions and products. -/
def exactShuffle (items : List α) : List (Option α) :=
  let arr := swapLoop (exactPick sha256 seed) (items.length - 1) 0 (Properties.slice items)
  (range items.length).map fun i : ℕ => arr.get i

end Exact

lemma get_swapLoop (drawn : ℕ → ℕ → ℤ) (i counter : ℕ) (arr : Properties α) :
    (swapLoop drawn i counter arr).get =
      swapDown (fun k => drawn (counter + i - k) k) i arr.get := by
  induction i generalizing counter arr with
  | zero => rfl
  | succ i ih =>
    rw [swapLoop, ih, swapDown, get_swap, Nat.add_sub_cancel]
    have hsum : counter + 1 + i = counter + (i + 1) := by omega
    rw [hsum]

section Draws

variable {sha256 : List UInt8 → List UInt8} {seed : List UInt8} {counter i : ℕ}

lemma exactPick_nonneg_iff :
    0 ≤ exactPick sha256 seed counter i ↔ (sha256 (seed ++ encode counter)).headD 0 < 128 := by
  have hpos : (0 : ℚ) < i + 1 := by positivity
  have hsign : 0 ≤ (word (sha256 (seed ++ encode counter))).toInt ↔
      (sha256 (seed ++ encode counter)).headD 0 < 128 := by
    rw [← not_iff_not, not_le, UInt8.not_lt, word_toInt_neg_iff]
  rw [← hsign, exactPick, Int.floor_nonneg, mul_nonneg_iff_of_pos_right hpos, div_eq_mul_inv,
    mul_nonneg_iff_of_pos_right (by norm_num), Int.cast_nonneg_iff]

/-- An exact draw is at most a half, too. -/
lemma exactPick_le : exactPick sha256 seed counter i ≤ i := by
  have hlt : (word (sha256 (seed ++ encode counter))).toInt < 2 ^ 31 := BitVec.toInt_lt
  have hcast : ((word (sha256 (seed ++ encode counter))).toInt : ℚ) ≤ 2 ^ 31 - 1 := by
    exact_mod_cast Int.le_sub_one_of_lt hlt
  have hpos : (0 : ℚ) < i + 1 := by positivity
  have hone : ((word (sha256 (seed ++ encode counter))).toInt / 0xffffffff : ℚ) < 1 := by
    rw [div_lt_one (by norm_num)]
    linarith
  have hfloor : exactPick sha256 seed counter i < i + 1 := by
    rw [exactPick, Int.floor_lt]
    push_cast
    calc ((word (sha256 (seed ++ encode counter))).toInt / 0xffffffff : ℚ) * (i + 1)
        < 1 * (i + 1) := mul_lt_mul_of_pos_right hone hpos
      _ = i + 1 := one_mul _
  exact Int.le_of_lt_add_one hfloor

end Draws

/-! ### Rearrangements -/

/-- The result has the items and nothing else, and every position was swapped with one that is not
above it. -/
structure Rearranges (items : List α) (result : List (Option α)) (drawn : ℕ → ℤ) : Prop where
  perm : result ~ items.map some
  within : ∀ i, 0 < i → i < items.length → 0 ≤ drawn i ∧ drawn i ≤ i

section Swaps

variable {items : List α} {drawn : ℕ → ℤ}

/-- What is at the positions of the array after the swaps. -/
def swapped (items : List α) (drawn : ℕ → ℤ) : List (Option α) :=
  (range items.length).map fun i : ℕ =>
    swapDown drawn (items.length - 1) (Properties.slice items).get i

lemma isSome_get_slice (hitems : 0 < items.length) (z : ℤ) :
    ((Properties.slice items).get z).isSome ↔ 0 ≤ z ∧ z ≤ (items.length - 1 : ℕ) := by
  rw [get_slice]
  split_ifs with hz
  · simp only [isSome_getElem?, hz, true_and]
    omega
  · simp [hz]

/-- Positions that stay within the array rearrange it. -/
lemma swapped_perm (h : ∀ i, 0 < i → i < items.length → 0 ≤ drawn i ∧ drawn i ≤ i) :
    swapped items drawn ~ items.map some := by
  rcases Nat.eq_zero_or_pos items.length with hzero | hpos
  · obtain rfl := length_eq_zero_iff.mp hzero
    exact .refl _
  obtain ⟨σ, hσ⟩ := exists_perm_swapDown drawn (items.length - 1) (Properties.slice items).get
  have hfull : ∀ z : ℤ, 0 ≤ z → z ≤ (items.length - 1 : ℕ) →
      (swapDown drawn (items.length - 1) (Properties.slice items).get z).isSome :=
    swapDown_isSome le_rfl (fun i hi hipos => h i hipos (by omega))
      fun z hz hle => (isSome_get_slice hpos z).mpr ⟨hz, hle⟩
  -- the positions that the items come from
  have hwithin : ∀ i < items.length, 0 ≤ σ i ∧ (σ i).toNat < items.length := by
    intro i hi
    have hsome := hfull i (by omega) (by omega)
    rw [hσ, Function.comp] at hsome
    obtain ⟨hnonneg, hle⟩ := (isSome_get_slice hpos _).mp hsome
    exact ⟨hnonneg, by omega⟩
  have hpositions : (range items.length).map (fun i : ℕ => (σ i).toNat) ~ range items.length := by
    have hnodup : ((range items.length).map fun i : ℕ => (σ i).toNat).Nodup := by
      refine Nodup.map_on (fun i hi j hj heq => ?_) nodup_range
      obtain ⟨hi₀, -⟩ := hwithin i (mem_range.mp hi)
      obtain ⟨hj₀, -⟩ := hwithin j (mem_range.mp hj)
      have hσeq : σ i = σ j := by omega
      exact_mod_cast σ.injective hσeq
    refine (subperm_of_subset hnodup fun x hx => ?_).perm_of_length_le (by simp)
    obtain ⟨i, hi, rfl⟩ := mem_map.mp hx
    exact mem_range.mpr (hwithin i (mem_range.mp hi)).2
  have hitems : (range items.length).map (fun i => items[i]?) = items.map some := by
    refine ext_getElem (by simp) fun i hi _ => ?_
    have hlt : i < items.length := by simpa using hi
    simp [hlt]
  calc swapped items drawn
      = ((range items.length).map fun i : ℕ => (σ i).toNat).map fun i => items[i]? := by
        rw [swapped, map_map]
        refine map_congr_left fun i hi => ?_
        rw [hσ, Function.comp, get_slice, if_pos (hwithin i (mem_range.mp hi)).1]
        rfl
    _ ~ (range items.length).map fun i => items[i]? := hpositions.map _
    _ = items.map some := hitems

/-- A position below the array leaves an `undefined` in it. -/
lemma rearranges_swapped_iff (hle : ∀ i < items.length, drawn i ≤ i) :
    Rearranges items (swapped items drawn) drawn ↔
      ∀ i, 0 < i → i < items.length → 0 ≤ drawn i := by
  constructor
  · exact fun h i hpos hi => (h.within i hpos hi).1
  · intro h
    have hwithin : ∀ i, 0 < i → i < items.length → 0 ≤ drawn i ∧ drawn i ≤ i :=
      fun i hpos hi => ⟨h i hpos hi, hle i hi⟩
    exact ⟨swapped_perm hwithin, hwithin⟩

end Swaps

section Shuffle

variable {sha256 : List UInt8 → List UInt8} {seed : List UInt8} {items : List α}

/-- The positions are drawn downwards while the counter goes up. -/
lemma forall_drawn_iff {n : ℕ} {drawn : ℕ → ℕ → ℤ} {small : ℕ → Prop}
    (h : ∀ counter i, 0 ≤ drawn counter i ↔ small counter) :
    (∀ i, 0 < i → i < n → 0 ≤ drawn (n - 1 - i) i) ↔ ∀ counter < n - 1, small counter := by
  constructor
  · intro hdrawn counter hcounter
    have hback : n - 1 - (n - 1 - counter) = counter := by omega
    have hat := hdrawn (n - 1 - counter) (by omega) (by omega)
    rwa [hback, h] at hat
  · intro hsmall i hpos hi
    exact (h _ i).mpr (hsmall _ (by omega))

lemma exactShuffle_eq : exactShuffle sha256 seed items =
    swapped items fun i => exactPick sha256 seed (items.length - 1 - i) i := by
  rw [exactShuffle, swapped]
  refine map_congr_left fun i _ => ?_
  rw [get_swapLoop, Nat.zero_add]

lemma shuffle_eq : shuffle sha256 items seed =
    swapped items fun i => pick (prng sha256 seed (items.length - 1 - i)) i := by
  rw [shuffle, swapped]
  refine map_congr_left fun i _ => ?_
  rw [get_shuffleLoop, Nat.zero_add]

lemma exactShuffle_rearranges_iff :
    Rearranges items (exactShuffle sha256 seed items)
        (fun i => exactPick sha256 seed (items.length - 1 - i) i) ↔
      ∀ counter < items.length - 1, (sha256 (seed ++ encode counter)).headD 0 < 128 := by
  rw [exactShuffle_eq, rearranges_swapped_iff fun i _ => exactPick_le]
  exact @forall_drawn_iff _ (exactPick sha256 seed) _ fun counter i => exactPick_nonneg_iff

lemma roundedShuffle_rearranges_iff (hlen : items.length < 2 ^ 32) :
    Rearranges items (shuffle sha256 items seed)
        (fun i => pick (prng sha256 seed (items.length - 1 - i)) i) ↔
      ∀ counter < items.length - 1, (sha256 (seed ++ encode counter)).headD 0 < 128 := by
  rw [shuffle_eq, rearranges_swapped_iff fun i hi => pick_le prng_le_half (by omega)]
  exact @forall_drawn_iff _ (fun counter => pick (prng sha256 seed counter)) _
    fun counter i => pick_nonneg_iff.trans prng_nonneg_iff

/-- The shuffle is a rearrangement of the items, and no drawn position is outside the array, exactly
when the first byte of every drawn hash is below 128. This is so without rounding, and with the
rounding of the language for an array of its lengths. -/
theorem shuffle_rearranges_iff (sha256 : List UInt8 → List UInt8) (seed : List UInt8)
    (items : List α) :
    (Rearranges items (exactShuffle sha256 seed items)
        (fun i => exactPick sha256 seed (items.length - 1 - i) i) ↔
      ∀ counter < items.length - 1, (sha256 (seed ++ encode counter)).headD 0 < 128) ∧
    (items.length < 2 ^ 32 →
      (Rearranges items (shuffle sha256 items seed)
          (fun i => pick (prng sha256 seed (items.length - 1 - i)) i) ↔
        ∀ counter < items.length - 1, (sha256 (seed ++ encode counter)).headD 0 < 128)) :=
  ⟨exactShuffle_rearranges_iff, roundedShuffle_rearranges_iff⟩

end Shuffle

/-- A generator that draws the top bit the first time. -/
def topBitFirst (text : List UInt8) : List UInt8 :=
  if text = encode 0 then [128, 0, 0, 0] else [0, 0, 0, 0]

theorem shuffle_rearranges_threeItems :
    Rearranges [10, 20, 30] (shuffle (fun _ => [0, 0, 0, 0]) [10, 20, 30] [])
      fun i => pick (prng (fun _ => [0, 0, 0, 0]) [] (2 - i)) i :=
  ((shuffle_rearranges_iff (fun _ => [0, 0, 0, 0]) [] [10, 20, 30]).2 (by decide)).mpr (by decide)

/-- The last of two items is lost. -/
theorem shuffle_loses_item :
    (¬ ∀ (sha256 : List UInt8 → List UInt8) (seed : List UInt8) (items : List ℕ),
      Rearranges items (exactShuffle sha256 seed items)
        fun i => exactPick sha256 seed (items.length - 1 - i) i) ∧
    exactShuffle topBitFirst [] [10, 20] = [some 10, none] ∧
    shuffle topBitFirst [10, 20] [] = [some 10, none] := by
  have hexact : exactShuffle topBitFirst [] [10, 20] = [some 10, none] := by decide +kernel
  refine ⟨fun h => ?_, hexact, by decide +kernel⟩
  have hperm := (h topBitFirst [] [10, 20]).perm
  rw [hexact] at hperm
  exact absurd hperm (by decide)

end Pokerhub
