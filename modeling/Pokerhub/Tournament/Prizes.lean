import Mathlib.Data.Int.ConditionallyCompleteOrder
import Pokerhub.Shared.IcmPayouts

/-!
# Prizes

`calculatePrizes` of `pko.service.ts`, in exact rational arithmetic. A bounty pool and satellite
seats come off the prize pool; the rest is split by shares that are rounded down, or by ICM, and
what is left over is handed out chip by chip from the first place on (`passes_eq`).
-/

namespace Pokerhub

open List

/-! ### The program -/

inductive PrizeMethod where
  | topN | icm
  deriving DecidableEq

structure CalculatePrizeOptions where
  bountyPct : Option ℚ := none
  satelliteSeatCost : Option ℚ := none
  method : Option PrizeMethod := none
  /-- `stacks`, which is a word of Lean. -/
  chipStacks : Option (List ℚ) := none

structure PrizeResult where
  prizes : List Number
  bountyPool : Option ℚ
  seats : Option ℚ
  remainder : Number

/-- `if (opts.x)`: zero counts as missing. -/
def ifTruthy (x : Option ℚ) : Option ℚ :=
  x.filter fun q => q ≠ 0

/-- The `while` loop. A remainder that is not finite fails its test. -/
def passes (prizes : List Number) (remainder : ℚ) (i : ℕ) : List Number × ℚ :=
  if 0 < remainder then
    passes (addTo prizes (i % prizes.length) (some 1)) (remainder - 1) (i + 1)
  else (prizes, remainder)
termination_by ⌈remainder⌉₊
decreasing_by
  rw [Nat.ceil_sub_one]
  have := Nat.ceil_pos.mpr ‹0 < remainder›
  omega

namespace CalculatePrizeOptions

variable (prizePool : ℚ) (opts : CalculatePrizeOptions)

def bountyPool : Option ℚ :=
  (ifTruthy opts.bountyPct).map fun pct => (⌊prizePool * pct⌋ : ℚ)

/-- The pool that the seats are paid from. -/
def afterBounty : ℚ :=
  prizePool - (opts.bountyPool prizePool).getD 0

def seats : Option ℚ :=
  (ifTruthy opts.satelliteSeatCost).map fun cost => (⌊opts.afterBounty prizePool / cost⌋ : ℚ)

/-- The pool that the prizes are paid from. -/
def poolLeft : ℚ :=
  opts.afterBounty prizePool - (opts.seats prizePool).getD 0 * opts.satelliteSeatCost.getD 0

end CalculatePrizeOptions

/-- The prizes before the remainder is handed out. -/
def splitPool (pool : ℚ) (payouts : List ℚ) (opts : CalculatePrizeOptions) :
    Except IcmError (List Number) :=
  match opts.method, opts.chipStacks with
  | some .icm, some chipStacks => calculateIcmPayouts chipStacks payouts
  | _, _ => .ok (payouts.map fun p => some (⌊pool * p⌋ : ℚ))

/-- The `while` loop on what the prizes leave of the pool. -/
def handOutRest (pool : ℚ) (prizes : List Number) : List Number × Number :=
  match Number.sub (some pool) (Number.sum prizes) with
  | some remainder => ((passes prizes remainder 0).1, some (passes prizes remainder 0).2)
  | none => (prizes, none)

def calculatePrizes (prizePool : ℚ) (payouts : List ℚ) (opts : CalculatePrizeOptions) :
    Except IcmError PrizeResult := do
  let pool := opts.poolLeft prizePool
  let prizes ← splitPool pool payouts opts
  let rest := handOutRest pool prizes
  return {
    prizes := rest.1
    bountyPool := opts.bountyPool prizePool
    seats := opts.seats prizePool
    remainder := rest.2 }

/-! ### The loop -/

/-- The loop hands out the remainder, rounded up. -/
lemma passes_eq (prizes : List Number) (remainder : ℚ) (i : ℕ) :
    passes prizes remainder i =
      ((range' i ⌈remainder⌉₊).foldl (fun l j => addTo l (j % prizes.length) (some 1)) prizes,
        remainder - ⌈remainder⌉₊) := by
  generalize hk : ⌈remainder⌉₊ = k
  induction k generalizing prizes remainder i with
  | zero =>
    rw [passes, if_neg (not_lt.mpr (Nat.ceil_eq_zero.mp hk))]
    simp
  | succ k ih =>
    have hpos : 0 < remainder := Nat.ceil_pos.mp (by omega)
    have hrest := ih (addTo prizes (i % prizes.length) (some 1)) (remainder - 1) (i + 1)
      (by rw [Nat.ceil_sub_one, hk, Nat.add_sub_cancel])
    rw [length_addTo] at hrest
    rw [passes, if_pos hpos, hrest, range'_succ, foldl_cons, Nat.cast_succ, sub_sub,
      add_comm (1 : ℚ)]

/-- Whole numbers, as a list of the program. -/
def whole (prizes : List ℤ) : List Number :=
  prizes.map fun p : ℤ => some (p : ℚ)

@[simp] lemma length_whole (prizes : List ℤ) : (whole prizes).length = prizes.length :=
  length_map _

@[simp] lemma sum_whole (prizes : List ℤ) : Number.sum (whole prizes) = some (prizes.sum : ℚ) := by
  have hmap : whole prizes = (prizes.map (Int.cast : ℤ → ℚ)).map some := by
    rw [map_map]
    rfl
  rw [hmap, Number.sum_map_some, Int.cast_list_sum]

/-- A chip more for one of the places. -/
lemma addTo_whole {prizes : List ℤ} {i : ℕ} (hi : i < prizes.length) :
    ∃ prizes', addTo (whole prizes) i (some 1) = whole prizes' ∧
      prizes'.length = prizes.length ∧ prizes'.sum = prizes.sum + 1 ∧
      ((∀ p ∈ prizes, 0 ≤ p) → ∀ p ∈ prizes', 0 ≤ p) := by
  have hsplit := take_append_drop i prizes
  rw [drop_eq_getElem_cons hi] at hsplit
  refine ⟨prizes.take i ++ (prizes[i] + 1) :: prizes.drop (i + 1), ?_, ?_, ?_, fun h p hp => ?_⟩
  · rw [addTo, modify_eq_take_cons_drop (by rwa [length_whole])]
    simp [whole]
  · rw [length_append, length_cons, length_take, length_drop]
    omega
  · conv_rhs => rw [← hsplit]
    simp only [sum_append, sum_cons]
    ring
  · rcases mem_append.mp hp with hp | hp
    · exact h p (mem_of_mem_take hp)
    · rcases mem_cons.mp hp with rfl | hp
      · have := h _ (getElem_mem hi)
        omega
      · exact h p (mem_of_mem_drop hp)

lemma foldl_addTo_whole {prizes : List ℤ} {n : ℕ} (hn : prizes.length = n) (hpos : 0 < n)
    (js : List ℕ) :
    ∃ prizes', js.foldl (fun l j => addTo l (j % n) (some 1)) (whole prizes) = whole prizes' ∧
      prizes'.sum = prizes.sum + js.length ∧
      ((∀ p ∈ prizes, 0 ≤ p) → ∀ p ∈ prizes', 0 ≤ p) := by
  induction js generalizing prizes with
  | nil => exact ⟨prizes, rfl, by simp, id⟩
  | cons j js ih =>
    obtain ⟨prizes₁, haddTo, hlength, hsum, hnonneg⟩ :=
      @addTo_whole prizes (j % n) (by rw [hn]; exact Nat.mod_lt j hpos)
    obtain ⟨prizes₂, hfold, hsum', hnonneg'⟩ := ih (hlength.trans hn)
    refine ⟨prizes₂, by rw [foldl_cons, haddTo, hfold], ?_, fun h => hnonneg' (hnonneg h)⟩
    rw [hsum', hsum, length_cons]
    omega

/-- A whole remainder is handed out to the last chip; what is too much stays on record. -/
lemma handOutRest_whole {prizes : List ℤ} (hne : prizes ≠ []) (pool : ℤ) :
    ∃ (prizes' : List ℤ) (remainder : ℤ),
      handOutRest pool (whole prizes) = (whole prizes', some (remainder : ℚ)) ∧
      prizes'.sum + remainder = pool ∧ (prizes.sum ≤ pool → remainder = 0) ∧
      ((∀ p ∈ prizes, 0 ≤ p) → ∀ p ∈ prizes', 0 ≤ p) := by
  obtain ⟨prizes', hfold, hsum, hnonneg⟩ := @foldl_addTo_whole prizes _ rfl
    (length_pos_iff.mpr hne) (range' 0 (pool - prizes.sum).toNat)
  refine ⟨prizes', pool - prizes.sum - (pool - prizes.sum).toNat, ?_, ?_, ?_, hnonneg⟩
  · have hceil : ⌈((pool - prizes.sum : ℤ) : ℚ)⌉₊ = (pool - prizes.sum).toNat :=
      Nat.ceil_intCast _
    rw [handOutRest, sum_whole, Number.sub_some, ← Int.cast_sub]
    simp only [passes_eq, hceil, length_whole, hfold]
    push_cast
    rfl
  · rw [hsum, length_range']
    omega
  · intro hle
    omega

/-! ### Conservation -/

namespace CalculatePrizeOptions

/-- A bounty share of the pool, and seats that cost whole chips. -/
structure Valid (opts : CalculatePrizeOptions) : Prop where
  bountyPct : ∀ pct ∈ opts.bountyPct, 0 ≤ pct ∧ pct ≤ 1
  satelliteSeatCost : ∀ cost ∈ opts.satelliteSeatCost, ∃ n : ℕ, 0 < n ∧ cost = n

variable {opts : CalculatePrizeOptions}

lemma bountyPool_add_seats (prizePool : ℚ) :
    (opts.bountyPool prizePool).getD 0 +
      (opts.seats prizePool).getD 0 * opts.satelliteSeatCost.getD 0 + opts.poolLeft prizePool =
        prizePool := by
  rw [poolLeft, afterBounty]
  ring

lemma exists_nat_of_nonneg {q : ℚ} {z : ℤ} (hz : q = z) (hq : 0 ≤ q) : ∃ n : ℕ, q = n := by
  obtain ⟨n, rfl⟩ := Int.eq_ofNat_of_zero_le (Int.cast_nonneg_iff.mp (hz ▸ hq) : 0 ≤ z)
  exact ⟨n, by rw [hz, Int.cast_natCast]⟩

lemma exists_afterBounty (h : opts.Valid) (prizePool : ℕ) :
    ∃ pool : ℕ, opts.afterBounty prizePool = pool := by
  cases hpct : ifTruthy opts.bountyPct with
  | none => exact ⟨prizePool, by simp [afterBounty, bountyPool, hpct]⟩
  | some pct =>
    obtain ⟨hmem, -⟩ := Option.filter_eq_some_iff.mp hpct
    obtain ⟨-, hle⟩ := h.bountyPct pct hmem
    have hpool : opts.afterBounty prizePool = prizePool - ⌊(prizePool : ℚ) * pct⌋ := by
      simp [afterBounty, bountyPool, hpct]
    have hfloor : (⌊(prizePool : ℚ) * pct⌋ : ℚ) ≤ prizePool :=
      (Int.floor_le _).trans (mul_le_of_le_one_right (Nat.cast_nonneg _) hle)
    refine exists_nat_of_nonneg (z := prizePool - ⌊(prizePool : ℚ) * pct⌋) ?_ ?_
    · rw [hpool]
      push_cast
      rfl
    · rw [hpool]
      linarith

/-- The prizes are paid from a whole number of chips. -/
lemma exists_poolLeft (h : opts.Valid) (prizePool : ℕ) :
    ∃ pool : ℕ, opts.poolLeft prizePool = pool := by
  obtain ⟨a, ha⟩ := exists_afterBounty h prizePool
  cases hcost : ifTruthy opts.satelliteSeatCost with
  | none => exact ⟨a, by simp [poolLeft, seats, hcost, ha]⟩
  | some cost =>
    obtain ⟨hmem, -⟩ := Option.filter_eq_some_iff.mp hcost
    obtain ⟨n, hn, rfl⟩ := h.satelliteSeatCost cost hmem
    have hpool : opts.poolLeft prizePool = a - ⌊(a : ℚ) / n⌋ * n := by
      rw [poolLeft, seats, hcost, Option.mem_def.mp hmem, ha]
      rfl
    have hfloor : (⌊(a : ℚ) / n⌋ : ℚ) * n ≤ a :=
      (le_div_iff₀ (Nat.cast_pos.mpr hn)).mp (Int.floor_le _)
    refine exists_nat_of_nonneg (z := a - ⌊(a : ℚ) / n⌋ * n) ?_ ?_
    · rw [hpool]
      push_cast
      rfl
    · rw [hpool]
      linarith

end CalculatePrizeOptions

/-- Whole prizes, none negative, that make up the pool with the bounties, the seats and the
remainder, which is zero if the shares stay within the pool. -/
def Conserves (prizePool : ℕ) (opts : CalculatePrizeOptions) (within : Prop)
    (result : PrizeResult) : Prop :=
  ∃ (prizes : List ℤ) (remainder : ℤ),
    result.prizes = whole prizes ∧ result.remainder = some (remainder : ℚ) ∧
    (∀ p ∈ prizes, 0 ≤ p) ∧
    result.bountyPool.getD 0 + result.seats.getD 0 * opts.satelliteSeatCost.getD 0 + prizes.sum +
      remainder = prizePool ∧
    (within → remainder = 0)

section Conserve

variable {prizePool : ℕ} {payouts : List ℚ} {opts : CalculatePrizeOptions} {within : Prop}

lemma conserves_of_splitPool {prizes : List ℤ} {pool : ℕ}
    (hpool : opts.poolLeft prizePool = pool)
    (hsplit : splitPool pool payouts opts = .ok (whole prizes)) (hne : prizes ≠ [])
    (hnonneg : ∀ p ∈ prizes, 0 ≤ p) (hwithin : within → prizes.sum ≤ pool) :
    ∃ result, calculatePrizes prizePool payouts opts = .ok result ∧
      Conserves prizePool opts within result := by
  obtain ⟨prizes', remainder, hrest, hsum, hzero, hnonneg'⟩ := handOutRest_whole hne pool
  refine ⟨_, by rw [calculatePrizes, hpool, hsplit]; rfl, prizes', remainder, ?_, ?_,
    hnonneg' hnonneg, ?_, fun h => hzero (hwithin h)⟩
  · exact congrArg Prod.fst hrest
  · exact congrArg Prod.snd hrest
  · have haccount := @CalculatePrizeOptions.bountyPool_add_seats opts prizePool
    rw [hpool] at haccount
    have hcast : (prizes'.sum : ℚ) + remainder = pool := by
      rw [← Int.cast_add, hsum, Int.cast_natCast]
    dsimp only
    linarith

/-- The rounded-down shares. -/
lemma splitPool_of_ne (h : opts.method ≠ some .icm) (pool : ℚ) :
    splitPool pool payouts opts = .ok (whole (payouts.map fun p => ⌊pool * p⌋)) := by
  have hmap : whole (payouts.map fun p => ⌊pool * p⌋) =
      payouts.map fun p => some (⌊pool * p⌋ : ℚ) := by
    rw [whole, map_map]
    rfl
  rw [hmap, splitPool]
  split
  · exact absurd ‹_› h
  · rfl

lemma sum_floor_le (pool : ℕ) (hsum : payouts.sum ≤ 1) :
    (payouts.map fun p => ⌊(pool : ℚ) * p⌋).sum ≤ pool := by
  have hfloors : ((payouts.map fun p => ⌊(pool : ℚ) * p⌋).sum : ℚ) ≤
      (payouts.map fun p => (pool : ℚ) * p).sum := by
    rw [Int.cast_list_sum, map_map]
    exact sum_le_sum fun p _ => Int.floor_le _
  rw [sum_map_mul_left, map_id'] at hfloors
  have hpool : (pool : ℚ) * payouts.sum ≤ pool :=
    mul_le_of_le_one_right (Nat.cast_nonneg _) hsum
  have hcast : ((payouts.map fun p => ⌊(pool : ℚ) * p⌋).sum : ℚ) ≤ (pool : ℤ) := by
    rw [Int.cast_natCast]
    exact hfloors.trans hpool
  exact Int.cast_le.mp hcast

lemma exists_splitPool_icm {chipStacks : List ℚ} {prizes : List ℕ}
    (hmethod : opts.method = some .icm) (hstacks : opts.chipStacks = some chipStacks)
    (hs : ∀ x ∈ chipStacks, 0 ≤ x) (hle : prizes.length ≤ chipStacks.countP (0 < ·))
    (hne : prizes ≠ []) (pool : ℚ) :
    ∃ ints : List ℤ, splitPool pool (prizes.map Nat.cast) opts = .ok (whole ints) ∧ ints ≠ [] ∧
      (∀ p ∈ ints, 0 ≤ p) ∧ ints.sum = prizes.sum := by
  obtain ⟨-, payouts, -, hpayouts, hnonneg, hsum, -⟩ := roundsIcm_of_le hs hle
  have hlen : 0 < chipStacks.length :=
    (length_pos_iff.mpr hne).trans_le (hle.trans countP_le_length)
  refine ⟨ofFn payouts, ?_, ?_, ?_, ?_⟩
  · rw [splitPool, hmethod, hstacks]
    simp only
    rw [hpayouts, whole, map_ofFn]
    rfl
  · rw [← length_pos_iff, length_ofFn]
    exact hlen
  · simpa [mem_ofFn] using hnonneg
  · rw [sum_ofFn, hsum]

end Conserve

/-- `calculatePrizes` hands out the prize pool to the last chip. -/
theorem calculatePrizes_conserves {prizePool : ℕ} {payouts : List ℚ}
    {opts : CalculatePrizeOptions} (hne : payouts ≠ []) (hnonneg : ∀ p ∈ payouts, 0 ≤ p)
    (hopts : opts.Valid) :
    (opts.method ≠ some .icm →
      ∃ result, calculatePrizes prizePool payouts opts = .ok result ∧
        Conserves prizePool opts (payouts.sum ≤ 1) result) ∧
    (opts.method = some .icm → ∀ chipStacks, opts.chipStacks = some chipStacks →
      (∀ x ∈ chipStacks, 0 ≤ x) → payouts.length ≤ chipStacks.countP (0 < ·) →
      (∀ p ∈ payouts, ∃ n : ℕ, p = n) →
      ∃ result, calculatePrizes prizePool payouts opts = .ok result ∧
        Conserves prizePool opts (payouts.sum ≤ opts.poolLeft prizePool) result) := by
  obtain ⟨pool, hpool⟩ := CalculatePrizeOptions.exists_poolLeft hopts prizePool
  constructor
  · intro hmethod
    refine conserves_of_splitPool hpool (splitPool_of_ne hmethod pool) (by simpa using hne) ?_
      (sum_floor_le pool)
    intro z hz
    obtain ⟨p, hp, rfl⟩ := mem_map.mp hz
    exact Int.floor_nonneg.mpr (mul_nonneg (Nat.cast_nonneg _) (hnonneg p hp))
  · intro hmethod chipStacks hstacks hs hle hwhole
    obtain ⟨prizes, rfl⟩ : ∃ prizes : List ℕ, prizes.map Nat.cast = payouts := by
      have hmem : payouts ∈ Set.range (map (Nat.cast : ℕ → ℚ)) := by
        rw [Set.range_list_map]
        intro p hp
        obtain ⟨n, rfl⟩ := hwhole p hp
        exact ⟨n, rfl⟩
      exact hmem
    rw [length_map] at hle
    obtain ⟨ints, hsplit, hints, hnonneg', hsum⟩ :=
      exists_splitPool_icm hmethod hstacks hs hle (by simpa using hne) (pool : ℚ)
    refine conserves_of_splitPool hpool hsplit hints hnonneg' fun hwithin => ?_
    rw [hpool, ← Nat.cast_list_sum, Nat.cast_le] at hwithin
    omega

/-- Eleven chips with a fifth for bounties and seats of five; ten by ICM. -/
theorem calculatePrizes_conserves_eleven :
    (∃ result, calculatePrizes 11 [1 / 2, 1 / 4, 1 / 4]
        { bountyPct := some (1 / 5), satelliteSeatCost := some 5 } = .ok result ∧
      Conserves 11 { bountyPct := some (1 / 5), satelliteSeatCost := some 5 }
        ([1 / 2, 1 / 4, 1 / 4].sum ≤ (1 : ℚ)) result) ∧
    ∃ result, calculatePrizes 10 [7, 2] { method := some .icm, chipStacks := some [3, 1] } =
        .ok result ∧
      Conserves 10 { method := some .icm, chipStacks := some [3, 1] }
        ([7, 2].sum ≤
          CalculatePrizeOptions.poolLeft 10 { method := some .icm, chipStacks := some [3, 1] })
        result := by
  constructor
  · exact (calculatePrizes_conserves (by simp) (by norm_num) ⟨by simp; norm_num, by
      intro cost hcost
      exact ⟨5, by decide, (Option.some.inj hcost).symm⟩⟩).1 (by decide)
  · refine (calculatePrizes_conserves (by simp) (by norm_num) ⟨by simp, by simp⟩).2 rfl [3, 1] rfl
      (by norm_num) (by simp) ?_
    intro p hp
    rcases mem_pair.mp hp with rfl | rfl
    · exact ⟨7, rfl⟩
    · exact ⟨2, rfl⟩

/-! ### Rounding -/

section Round

variable {n : ℕ}

/-- How many places get a chip of the remainder. -/
def extra (share : Fin n → ℚ) : ℕ :=
  ⌈∑ i, Int.fract (share i)⌉₊

lemma extra_le (share : Fin n → ℚ) : extra share ≤ n := by
  refine Nat.ceil_le.mpr ((Finset.sum_le_sum fun i _ => (Int.fract_lt_one (share i)).le).trans ?_)
  simp

/-- The first places. -/
def firstPlaces (n k : ℕ) : List (Fin n) :=
  (finRange n).take k

lemma nodup_firstPlaces (n k : ℕ) : (firstPlaces n k).Nodup :=
  (take_sublist k _).nodup (nodup_finRange n)

lemma map_val_firstPlaces {k : ℕ} (hk : k ≤ n) : (firstPlaces n k).map Fin.val = range' 0 k := by
  refine ext_getElem (by simp [firstPlaces, hk]) fun m hm _ => ?_
  simp [firstPlaces]

lemma mem_firstPlaces {k : ℕ} (hk : k ≤ n) {i : Fin n} : i ∈ firstPlaces n k ↔ (i : ℕ) < k := by
  have hmem : (i : ℕ) ∈ (firstPlaces n k).map Fin.val ↔ (i : ℕ) < k := by
    rw [map_val_firstPlaces hk]
    simp [mem_range'_1]
  rw [← hmem, mem_map_of_injective Fin.val_injective]

/-- The loop goes through the first places once. -/
lemma foldl_firstPlaces {k : ℕ} (hk : k ≤ n) (l : List Number) :
    (range' 0 k).foldl (fun l j => addTo l (j % n) (some 1)) l =
      (firstPlaces n k).foldl (fun l (i : Fin n) => addTo l i (some 1)) l := by
  rw [← map_val_firstPlaces hk, foldl_map]
  refine foldl_ext _ _ l fun l' i _ => ?_
  rw [Nat.mod_eq_of_lt i.isLt]

/-- The shares rounded down, with a chip more for the first places. -/
lemma handOutRest_shares {share : Fin n → ℚ} {pool : ℚ} (hsum : ∑ i, share i = pool) :
    (handOutRest pool ((ofFn fun i => some (share i)).map Number.floor)).1 =
      ofFn fun i => some (roundTo share (firstPlaces n (extra share)) i : ℚ) := by
  have hrest : pool - ∑ i, (⌊share i⌋ : ℚ) = ∑ i, Int.fract (share i) := by
    rw [← hsum, ← Finset.sum_sub_distrib]
    rfl
  have hextra : ⌈∑ i, Int.fract (share i)⌉₊ = extra share := rfl
  rw [handOutRest, sum_floors, Number.sub_some]
  simp only [hrest, passes_eq, length_map, length_ofFn, hextra]
  rw [foldl_firstPlaces (extra_le share), foldl_addTo_floors share (nodup_firstPlaces n _)]

end Round

/-- What a place would get of the pool without rounding. -/
def share (prizePool : ℕ) (payouts : List ℚ) (opts : CalculatePrizeOptions)
    (i : Fin payouts.length) : ℚ :=
  opts.poolLeft prizePool * payouts.get i

/-- Every prize is less than a chip off its share, and prizes do not grow where payouts do not. -/
def RoundsPrizes (prizePool : ℕ) (payouts : List ℚ) (opts : CalculatePrizeOptions) : Prop :=
  ∃ (result : PrizeResult) (prizes : Fin payouts.length → ℤ),
    calculatePrizes prizePool payouts opts = .ok result ∧
    result.prizes = ofFn (fun i => some (prizes i : ℚ)) ∧
    (∀ i, |(prizes i : ℚ) - share prizePool payouts opts i| < 1) ∧
    (payouts.Pairwise (· ≥ ·) → ∀ i j, i ≤ j → prizes j ≤ prizes i)

/-- The shares of the first places round up to one number, those of the others round down to one,
which is not above it. -/
structure Level {n : ℕ} (share : Fin n → ℚ) (k : ℕ) : Prop where
  first : ∀ i j : Fin n, (i : ℕ) < k → (j : ℕ) < k → ⌈share i⌉ = ⌈share j⌉
  others : ∀ i j : Fin n, k ≤ i → k ≤ j → ⌊share i⌋ = ⌊share j⌋
  between : ∀ i j : Fin n, (i : ℕ) < k → k ≤ j → ⌊share j⌋ ≤ ⌈share i⌉

section Prizes

variable {n prizePool : ℕ} {payouts : List ℚ} {opts : CalculatePrizeOptions}

lemma calculatePrizes_shares (hsum : payouts.sum = 1) (hmethod : opts.method ≠ some .icm) :
    ∃ result, calculatePrizes prizePool payouts opts = .ok result ∧
      result.prizes = ofFn fun i => some (roundTo (share prizePool payouts opts)
        (firstPlaces payouts.length (extra (share prizePool payouts opts))) i : ℚ) := by
  have hshares : ∑ i, share prizePool payouts opts i = opts.poolLeft prizePool := by
    simp only [share]
    rw [← Finset.mul_sum, ← sum_ofFn, ofFn_get, hsum, mul_one]
  have hsplit : splitPool (opts.poolLeft prizePool) payouts opts =
      .ok ((ofFn fun i => some (share prizePool payouts opts i)).map Number.floor) := by
    have hpayouts : payouts.map (fun p => ⌊opts.poolLeft prizePool * p⌋) =
        ofFn fun i => ⌊share prizePool payouts opts i⌋ := by
      conv_lhs => rw [← ofFn_get payouts, map_ofFn]
      rfl
    rw [splitPool_of_ne hmethod, hpayouts, whole, map_ofFn, map_ofFn]
    rfl
  refine ⟨_, by rw [calculatePrizes, hsplit]; rfl, ?_⟩
  exact handOutRest_shares hshares

/-- A whole share among the first places gets a chip too many. -/
lemma forall_abs_sub_iff (v : Fin n → ℚ) {k : ℕ} (hk : k ≤ n) :
    (∀ i, |(roundTo v (firstPlaces n k) i : ℚ) - v i| < 1) ↔
      ∀ i : Fin n, (i : ℕ) < k → Int.fract (v i) ≠ 0 := by
  refine forall_congr' fun i => ?_
  rw [abs_roundTo_sub_lt_one_iff, mem_firstPlaces hk]
  exact imp_congr_right fun _ => ⟨fun h => h.ne', fun h => (Int.fract_nonneg _).lt_of_ne' h⟩

lemma roundTo_firstPlaces {v : Fin n → ℚ} {k : ℕ} (hk : k ≤ n)
    (hwhole : ∀ i : Fin n, (i : ℕ) < k → Int.fract (v i) ≠ 0) (i : Fin n) :
    roundTo v (firstPlaces n k) i = if (i : ℕ) < k then ⌈v i⌉ else ⌊v i⌋ := by
  split_ifs with hi
  · have hpos : 0 < Int.fract (v i) := (Int.fract_nonneg _).lt_of_ne' (hwhole i hi)
    rw [roundTo_of_mem ((mem_firstPlaces hk).mpr hi), ceil_eq_floor_add, if_pos hpos]
  · rw [roundTo_of_notMem fun hmem => hi ((mem_firstPlaces hk).mp hmem)]

/-- Shares that do not grow are rounded to prizes that do not grow. -/
lemma roundTo_antitone {v : Fin n → ℚ} (hv : Antitone v) {k : ℕ} (hk : k ≤ n) :
    Antitone (roundTo v (firstPlaces n k)) := by
  intro i j hij
  have hfloor := Int.floor_mono (hv hij)
  have hval : (i : ℕ) ≤ j := hij
  simp only [roundTo, mem_firstPlaces hk]
  split_ifs <;> omega

/-- Shares that do not fall are rounded to prizes that do not grow when they are level. -/
lemma roundTo_antitone_iff {v : Fin n → ℚ} (hv : Monotone v) {k : ℕ} (hk : k ≤ n)
    (hwhole : ∀ i : Fin n, (i : ℕ) < k → Int.fract (v i) ≠ 0) :
    Antitone (roundTo v (firstPlaces n k)) ↔ Level v k := by
  constructor
  · intro h
    have hround : ∀ {i j : Fin n}, i ≤ j →
        (if (j : ℕ) < k then ⌈v j⌉ else ⌊v j⌋) ≤ if (i : ℕ) < k then ⌈v i⌉ else ⌊v i⌋ := by
      intro i j hij
      rw [← roundTo_firstPlaces hk hwhole, ← roundTo_firstPlaces hk hwhole]
      exact h hij
    have hfirst : ∀ {i j : Fin n}, i ≤ j → (i : ℕ) < k → (j : ℕ) < k → ⌈v i⌉ = ⌈v j⌉ := by
      intro i j hij hi hj
      have := hround hij
      rw [if_pos hi, if_pos hj] at this
      exact le_antisymm (Int.ceil_mono (hv hij)) this
    have hothers : ∀ {i j : Fin n}, i ≤ j → k ≤ i → k ≤ j → ⌊v i⌋ = ⌊v j⌋ := by
      intro i j hij hi hj
      have := hround hij
      rw [if_neg (not_lt.mpr hi), if_neg (not_lt.mpr hj)] at this
      exact le_antisymm (Int.floor_mono (hv hij)) this
    constructor
    · intro i j hi hj
      rcases le_total i j with hij | hji
      · exact hfirst hij hi hj
      · exact (hfirst hji hj hi).symm
    · intro i j hi hj
      rcases le_total i j with hij | hji
      · exact hothers hij hi hj
      · exact (hothers hji hj hi).symm
    · intro i j hi hj
      have := hround (i := i) (j := j) (Fin.le_def.mpr (by omega))
      rwa [if_pos hi, if_neg (not_lt.mpr hj)] at this
  · intro h i j hij
    have hval : (i : ℕ) ≤ j := hij
    rw [roundTo_firstPlaces hk hwhole, roundTo_firstPlaces hk hwhole]
    split_ifs with hj hi hi
    · exact (h.first i j hi hj).ge
    · omega
    · exact h.between i j hi (not_lt.mp hj)
    · exact (h.others i j (not_lt.mp hi) (not_lt.mp hj)).ge

lemma get_antitone (h : payouts.Pairwise (· ≥ ·)) : Antitone payouts.get := by
  intro i j hij
  rcases hij.eq_or_lt with rfl | hlt
  · exact le_rfl
  · exact pairwise_iff_get.mp h i j hlt

lemma share_antitone (hpool : 0 ≤ opts.poolLeft prizePool) (h : payouts.Pairwise (· ≥ ·)) :
    Antitone (share prizePool payouts opts) :=
  fun _ _ hij => mul_le_mul_of_nonneg_left (get_antitone h hij) hpool

lemma share_monotone (hpool : opts.poolLeft prizePool < 0) (h : payouts.Pairwise (· ≥ ·)) :
    Monotone (share prizePool payouts opts) :=
  fun _ _ hij => mul_le_mul_of_nonpos_left (get_antitone h hij) hpool.le

/-- The prizes are the rounded shares. -/
lemma roundsPrizes_iff (hsum : payouts.sum = 1) (hmethod : opts.method ≠ some .icm) :
    RoundsPrizes prizePool payouts opts ↔
      (∀ i, |(roundTo (share prizePool payouts opts)
          (firstPlaces payouts.length (extra (share prizePool payouts opts))) i : ℚ) -
        share prizePool payouts opts i| < 1) ∧
      (payouts.Pairwise (· ≥ ·) → Antitone (roundTo (share prizePool payouts opts)
        (firstPlaces payouts.length (extra (share prizePool payouts opts))))) := by
  obtain ⟨result, hok, hprizes⟩ := @calculatePrizes_shares prizePool payouts opts hsum hmethod
  constructor
  · rintro ⟨result', prizes, hok', hprizes', hround, hmono⟩
    obtain rfl : result = result' := Except.ok.inj (hok.symm.trans hok')
    obtain rfl : prizes = roundTo (share prizePool payouts opts)
        (firstPlaces payouts.length (extra (share prizePool payouts opts))) := by
      funext i
      have hi := congrFun (ofFn_injective (hprizes'.symm.trans hprizes)) i
      exact Int.cast_injective (Option.some.inj hi)
    exact ⟨hround, fun hpayouts i j hij => hmono hpayouts i j hij⟩
  · rintro ⟨hround, hmono⟩
    exact ⟨result, _, hok, hprizes, hround, fun hpayouts i j hij => hmono hpayouts hij⟩

end Prizes

/-- Prizes are less than a chip off and do not grow where payouts do not, exactly when no share of
the places that get a chip more is whole, and, should the pool be overdrawn, shares of payouts
that do not grow are level. -/
theorem calculatePrizes_rounds_iff {prizePool : ℕ} {payouts : List ℚ}
    {opts : CalculatePrizeOptions} (hsum : payouts.sum = 1) (hmethod : opts.method ≠ some .icm) :
    RoundsPrizes prizePool payouts opts ↔
      (∀ i : Fin payouts.length, (i : ℕ) < extra (share prizePool payouts opts) →
        Int.fract (share prizePool payouts opts i) ≠ 0) ∧
      (opts.poolLeft prizePool < 0 → payouts.Pairwise (· ≥ ·) →
        Level (share prizePool payouts opts) (extra (share prizePool payouts opts))) := by
  have hle := extra_le (share prizePool payouts opts)
  rw [roundsPrizes_iff hsum hmethod, forall_abs_sub_iff _ hle]
  refine and_congr_right fun hwhole => ?_
  constructor
  · intro hmono hpool hpayouts
    exact (roundTo_antitone_iff (share_monotone hpool hpayouts) hle hwhole).mp (hmono hpayouts)
  · intro hlevel hpayouts
    rcases le_or_gt 0 (opts.poolLeft prizePool) with hpool | hpool
    · exact roundTo_antitone (share_antitone hpool hpayouts) hle
    · exact (roundTo_antitone_iff (share_monotone hpool hpayouts) hle hwhole).mpr
        (hlevel hpool hpayouts)

/-- Five chips on three places. -/
theorem calculatePrizes_rounds_five : RoundsPrizes 5 [1 / 2, 1 / 4, 1 / 4] {} :=
  (calculatePrizes_rounds_iff (by norm_num) (by decide)).mpr
    ⟨by decide +kernel, fun hpool => absurd hpool (by decide +kernel)⟩

/-- Of two chips the first place should get one, and gets both. -/
theorem calculatePrizes_off_by_one :
    ¬ ∀ (prizePool : ℕ) (payouts : List ℚ) (opts : CalculatePrizeOptions), payouts ≠ [] →
      (∀ p ∈ payouts, 0 < p) → payouts.sum = 1 → opts.method ≠ some .icm →
        RoundsPrizes prizePool payouts opts := by
  intro h
  have hround := h 2 [1 / 2, 1 / 4, 1 / 4] {} (by simp) (by norm_num) (by norm_num) (by decide)
  have hwhole := (forall_abs_sub_iff _ (extra_le _)).mp
    ((roundsPrizes_iff (by norm_num) (by decide)).mp hround).1
  exact hwhole ⟨0, by decide⟩ (by decide +kernel) (by decide +kernel)

end Pokerhub
