import Mathlib.Algebra.BigOperators.Fin
import Pokerhub.Core.Rounding
import Pokerhub.Shared.Icm

/-!
# Whole ICM payouts

`calculateIcmPayouts` rounds the expectations down and hands the rest of the prizes out by the
size of the fractions. This rounds correctly exactly when the chips do not run out before the
prizes and the players, and the prizes are no more than the expectations rounded up
(`calculateIcmPayouts_rounds_iff`).
-/

namespace Pokerhub

open List

/-! ### Running out of chips -/

lemma none_mem_addTo {res : List Number} (h : none ∈ res) (i : ℕ) (v : Number) :
    none ∈ addTo res i v := by
  obtain ⟨m, hm⟩ := mem_iff_getElem?.mp h
  refine mem_iff_getElem?.mpr ⟨m, ?_⟩
  rw [getElem?_addTo, hm]
  simp

lemma none_mem_winFirst {res : List Number} (h : none ∈ res) (p : ℚ) (prob : Number)
    (sub : Option (List Number)) (i : ℕ) : none ∈ winFirst p prob sub i res := by
  have hfirst := none_mem_addTo h i (Number.mul (some p) prob)
  unfold winFirst
  cases sub with
  | none => exact hfirst
  | some sub =>
    refine foldlRecOn (range sub.length) _ hfirst fun res hres j _ => ?_
    exact none_mem_addTo hres _ _

@[simp] lemma length_winFirst (p : ℚ) (prob : Number) (sub : Option (List Number)) (i : ℕ)
    (res : List Number) : (winFirst p prob sub i res).length = res.length := by
  unfold winFirst
  cases sub with
  | none => exact length_addTo _ _ _
  | some sub =>
    refine foldlRecOn (motive := fun r : List Number => r.length = res.length) (range sub.length) _
      (length_addTo _ _ _) fun r hr j _ => ?_
    rw [length_addTo, hr]

lemma length_foldl_winFirst (l : List ℕ) (p : ℚ) (prob : ℕ → Number)
    (sub : ℕ → Option (List Number)) (res : List Number) :
    (l.foldl (fun res i => winFirst p (prob i) (sub i) i res) res).length = res.length := by
  induction l generalizing res with
  | nil => rfl
  | cons i l ih => rw [foldl_cons, ih, length_winFirst]

lemma length_icmRecursive (chipStacks prizes : List ℚ) :
    (icmRecursive chipStacks prizes).length = chipStacks.length := by
  cases prizes with
  | nil => exact length_replicate
  | cons p ps => rw [icmRecursive, length_foldl_winFirst, length_replicate]

/-- A pass that leaves a value that is not finite spoils the result of the loop. -/
lemma none_mem_foldl {res : List Number} {n i : ℕ} (hi : i < n) (p : ℚ) (prob : ℕ → Number)
    (sub : ℕ → Option (List Number))
    (hpass : ∀ r : List Number, r.length = res.length → none ∈ winFirst p (prob i) (sub i) i r) :
    none ∈ (range n).foldl (fun res i => winFirst p (prob i) (sub i) i res) res := by
  obtain ⟨l₁, l₂, hl⟩ := append_of_mem (mem_range.mpr hi)
  rw [hl, foldl_append, foldl_cons]
  refine foldlRecOn l₂ _ (hpass _ (length_foldl_winFirst l₁ p prob sub res)) fun r hr k _ => ?_
  exact none_mem_winFirst hr _ _ _ _

/-- The winner's own entry is lost when the stacks are all empty. -/
lemma none_mem_winFirst_none {res : List Number} {i : ℕ} (hi : i < res.length) (p : ℚ)
    (sub : Option (List Number)) : none ∈ winFirst p none sub i res := by
  refine mem_iff_getElem?.mpr ⟨i, ?_⟩
  rw [getElem?_winFirst_self, getElem?_eq_getElem hi]
  simp

/-- An entry of the others that is lost stays lost. -/
lemma none_mem_winFirst_sub {res sub : List Number} {i : ℕ} (hsub : none ∈ sub)
    (hlen : sub.length < res.length) (p : ℚ) (prob : Number) :
    none ∈ winFirst p prob (some sub) i res := by
  obtain ⟨j, hj⟩ := mem_iff_getElem?.mp hsub
  have hjlt := (List.getElem?_eq_some_iff.mp hj).1
  have hskip : skipIdx i j < res.length := by
    unfold skipIdx
    split_ifs <;> omega
  refine mem_iff_getElem?.mpr ⟨skipIdx i j, ?_⟩
  rw [getElem?_winFirst_skipIdx, getElem?_eq_getElem hskip, Option.map_some, if_pos hjlt,
    getD_eq_getElem?_getD, hj]
  simp

/-- Where the chips run out before the prizes and the players do, zero is divided by zero. -/
theorem none_mem_icmRecursive {α : Type*} [DecidableEq α] {s : α → ℚ} {ids : List α}
    (hids : ids.Nodup) (hs : ∀ x ∈ ids, 0 ≤ s x) {prizes : List ℚ}
    (hchips : (alive s ids.toFinset).card < min prizes.length ids.length) :
    none ∈ icmRecursive (ids.map s) prizes := by
  induction prizes generalizing ids with
  | nil => simp at hchips
  | cons p ps ih =>
    rw [length_cons] at hchips
    rw [icmRecursive]
    rcases (alive s ids.toFinset).eq_empty_or_nonempty with hnone | ⟨y, hy⟩
    · have hzero : (ids.map s).sum = 0 := by
        refine sum_eq_zero fun v hv => ?_
        obtain ⟨x, hx, rfl⟩ := mem_map.mp hv
        refine le_antisymm (not_lt.mp fun hpos => ?_) (hs x hx)
        have hmem : x ∈ alive s ids.toFinset := Finset.mem_filter.mpr ⟨mem_toFinset.mpr hx, hpos⟩
        simp [hnone] at hmem
      refine @none_mem_foldl _ _ 0 ?_ p _ _ fun r hr => ?_
      · rw [length_map]
        omega
      · rw [hzero, Number.div_zero]
        refine none_mem_winFirst_none ?_ p _
        rw [hr, length_replicate, length_map]
        omega
    · obtain ⟨i, hi⟩ := mem_iff_getElem?.mp (mem_toFinset.mp (Finset.mem_filter.mp hy).1)
      have hlt := (List.getElem?_eq_some_iff.mp hi).1
      have hcard : 0 < (alive s ids.toFinset).card := Finset.card_pos.mpr ⟨y, hy⟩
      have hsub : none ∈ icmRecursive ((ids.map s).eraseIdx i) ps := by
        rw [eraseIdx_map]
        refine ih (hids.eraseIdx i) (fun x hx => hs x (mem_of_mem_eraseIdx hx)) ?_
        rw [toFinset_eraseIdx hids hi, alive_erase, Finset.card_erase_of_mem hy,
          length_eraseIdx_of_lt hlt]
        omega
      refine @none_mem_foldl _ _ i (by rwa [length_map]) p _ _ fun r hr => ?_
      rw [if_pos (by omega)]
      refine none_mem_winFirst_sub hsub ?_ p _
      rw [length_icmRecursive, length_eraseIdx_of_lt (by rwa [length_map]), hr, length_replicate]
      simp only [length_map]
      omega

/-! ### Handing out the remainder -/

/-- The loop reads as many fractions as the remainder counts. -/
lemma handOut_eq {r i : ℕ} (hi : i ≤ r) (fs : List Fraction) (floored : List Number) :
    handOut (some r) i fs floored =
      if r - i ≤ fs.length then
        .ok ((fs.take (r - i)).foldl (fun l f => addTo l f.i (some 1)) floored)
      else .error .typeError := by
  induction fs generalizing i floored with
  | nil =>
    rw [handOut]
    by_cases h : i < r
    · rw [if_pos (by simpa using h), if_neg (by simp; omega)]
    · rw [if_neg (by simpa using h), if_pos (by simp; omega), take_nil, foldl_nil]
  | cons f fs ih =>
    rw [handOut]
    by_cases h : i < r
    · obtain ⟨k, hk⟩ : ∃ k, r - i = k + 1 := ⟨r - i - 1, by omega⟩
      have hk' : r - (i + 1) = k := by omega
      have hrest := ih h (addTo floored f.i (some 1))
      rw [hk'] at hrest
      rw [if_pos (by simpa using h), hk, take_succ_cons, foldl_cons, length_cons]
      simpa using hrest
    · have hzero : r - i = 0 := by omega
      rw [if_neg (by simpa using h), hzero, if_pos (Nat.zero_le _), take_zero, foldl_nil]

section Rounds

variable {n : ℕ}

/-- The players in the order in which they get a chip of the remainder. -/
def fractionOrder (e : Fin n → ℚ) : List (Fin n) :=
  (finRange n).insertionSort fun i j => Int.fract (e j) ≤ Int.fract (e i)

lemma fractionOrder_perm (e : Fin n → ℚ) : fractionOrder e ~ finRange n :=
  perm_insertionSort _ _

lemma nodup_fractionOrder (e : Fin n → ℚ) : (fractionOrder e).Nodup :=
  (fractionOrder_perm e).nodup_iff.mpr (nodup_finRange n)

lemma mem_fractionOrder (e : Fin n → ℚ) (i : Fin n) : i ∈ fractionOrder e :=
  (fractionOrder_perm e).mem_iff.mpr (mem_finRange i)

lemma length_fractionOrder (e : Fin n → ℚ) : (fractionOrder e).length = n := by
  rw [(fractionOrder_perm e).length_eq, length_finRange]

lemma pairwise_fractionOrder (e : Fin n → ℚ) :
    (fractionOrder e).Pairwise fun i j => Int.fract (e j) ≤ Int.fract (e i) := by
  have : Std.Total fun i j : Fin n => Int.fract (e j) ≤ Int.fract (e i) :=
    ⟨fun i j => le_total _ _⟩
  have : IsTrans (Fin n) fun i j => Int.fract (e j) ≤ Int.fract (e i) :=
    ⟨fun i j k h h' => h'.trans h⟩
  exact pairwise_insertionSort _ _

/-- The sorted fractions of the program. -/
lemma insertionSort_fractions (e : Fin n → ℚ) :
    ((ofFn fun i => some (e i)).mapIdx fun i v =>
        (⟨i, Number.sub v (((ofFn fun i => some (e i)).map Number.floor).getD i (some 0))⟩ :
          Fraction)).insertionSort fracBefore =
      (fractionOrder e).map fun i => ⟨i, some (Int.fract (e i))⟩ := by
  have hfractions : ((ofFn fun i => some (e i)).mapIdx fun i v =>
        (⟨i, Number.sub v (((ofFn fun i => some (e i)).map Number.floor).getD i (some 0))⟩ :
          Fraction)) =
      (finRange n).map fun i => ⟨i, some (Int.fract (e i))⟩ := by
    rw [← ofFn_eq_map]
    refine ext_getElem (by simp) fun m hm _ => ?_
    simp at hm
    simp [hm, Int.self_sub_floor]
  rw [hfractions, fractionOrder]
  refine (map_insertionSort _ _ _ _ fun i _ j _ => ?_).symm
  rfl

/-- The floors with a chip more at the given places. -/
lemma foldl_addTo_floors (e : Fin n → ℚ) {up : List (Fin n)} (hup : up.Nodup) :
    up.foldl (fun l (i : Fin n) => addTo l i (some 1))
        ((ofFn fun i => some (e i)).map Number.floor) =
      ofFn fun i => some (roundTo e up i : ℚ) := by
  have hlen : ∀ l : List Number,
      (up.foldl (fun l (i : Fin n) => addTo l i (some 1)) l).length = l.length := by
    intro l
    refine foldlRecOn (motive := fun r : List Number => r.length = l.length) up _ rfl ?_
    intro r hr i _
    rw [length_addTo, hr]
  refine ext_getElem? fun m => ?_
  by_cases hm : m < n
  · have hentry := getElem?_foldl_addTo up Fin.val (fun _ => some 1) Fin.val_injective hup
      ((ofFn fun i => some (e i)).map Number.floor) ⟨m, hm⟩
    rw [hentry, getElem?_map, List.getElem?_ofFn, List.getElem?_ofFn, dif_pos hm, dif_pos hm,
      Option.map_some, Option.map_some, Number.floor_some]
    split_ifs with hup
    · rw [roundTo_of_mem hup, Number.add_some, Int.cast_add, Int.cast_one]
    · rw [roundTo_of_notMem hup]
  · rw [getElem?_eq_none (by rw [hlen, length_map, length_ofFn]; omega),
      getElem?_eq_none (by rw [length_ofFn]; omega)]

lemma sum_floors (e : Fin n → ℚ) :
    Number.sum ((ofFn fun i => some (e i)).map Number.floor) = some (∑ i, (⌊e i⌋ : ℚ)) := by
  have hfloors : (ofFn fun i => some (e i)).map Number.floor =
      (ofFn fun i => (⌊e i⌋ : ℚ)).map some := by
    rw [map_ofFn, map_ofFn]
    rfl
  rw [hfloors, Number.sum_map_some, sum_ofFn]

variable {s : Fin n → ℚ} {prizes : List ℚ}

/-- Where the values are finite, the program rounds up the largest fractions. -/
theorem calculateIcmPayouts_ofFn (hs : ∀ i, 0 ≤ s i)
    (hchips : min prizes.length n ≤ (alive s Finset.univ).card) {r : ℕ}
    (hr : (r : ℚ) = prizes.sum - ∑ i, (⌊icm s prizes Finset.univ i⌋ : ℚ)) :
    calculateIcmPayouts (ofFn s) prizes =
      if r ≤ n then
        .ok (ofFn fun i => some (roundTo (icm s prizes Finset.univ)
          ((fractionOrder (icm s prizes Finset.univ)).take r) i : ℚ))
      else .error .typeError := by
  have hraw : icmRecursive (ofFn s) prizes = ofFn fun i => some (icm s prizes Finset.univ i) :=
    icmRaw_ofFn hs hchips
  have hloop := handOut_eq (Nat.zero_le r)
    ((fractionOrder (icm s prizes Finset.univ)).map fun i : Fin n =>
      (⟨i, some (Int.fract (icm s prizes Finset.univ i))⟩ : Fraction))
    ((ofFn fun i => some (icm s prizes Finset.univ i)).map Number.floor)
  rw [Nat.sub_zero, length_map, length_fractionOrder, ← map_take, foldl_map,
    foldl_addTo_floors _ ((take_sublist _ _).nodup (nodup_fractionOrder _)), hr] at hloop
  rw [calculateIcmPayouts]
  simp only [hraw, sum_floors, insertionSort_fractions, Number.sub_some]
  exact hloop

end Rounds

/-! ### When the payouts are right -/

/-- The exact expectations. -/
def expectation (chipStacks : List ℚ) (prizes : List ℕ) : Fin chipStacks.length → ℚ :=
  icm chipStacks.get (prizes.map Nat.cast) Finset.univ

/-- The program divides by no zero, reads no fraction that is not there, and returns whole payouts,
none of them negative and each less than one chip off, that add up to the prizes. -/
def RoundsIcm (chipStacks : List ℚ) (prizes : List ℕ) : Prop :=
  ∃ (raw : Fin chipStacks.length → ℚ) (payouts : Fin chipStacks.length → ℤ),
    icmRaw chipStacks (prizes.map Nat.cast) = ofFn (fun i => some (raw i)) ∧
    calculateIcmPayouts chipStacks (prizes.map Nat.cast) =
      .ok (ofFn fun i => some (payouts i : ℚ)) ∧
    (∀ i, 0 ≤ payouts i) ∧ ∑ i, payouts i = prizes.sum ∧ ∀ i, |(payouts i : ℚ) - raw i| < 1

section Condition

variable {chipStacks : List ℚ} {prizes : List ℕ}

lemma card_alive_get (chipStacks : List ℚ) :
    (alive chipStacks.get Finset.univ).card = chipStacks.countP (0 < ·) := by
  have halive : alive chipStacks.get Finset.univ =
      ((finRange chipStacks.length).filter fun i => 0 < chipStacks.get i).toFinset := by
    ext i
    simp [alive]
  rw [halive, toFinset_card_of_nodup ((nodup_finRange _).filter _), ← countP_eq_length_filter]
  conv_rhs => rw [← ofFn_get chipStacks, ofFn_eq_map, countP_map]
  rfl

/-- Without enough chips some value is `NaN`. -/
lemma min_le_countP_of_raw (hs : ∀ x ∈ chipStacks, 0 ≤ x) {raw : Fin chipStacks.length → ℚ}
    (hraw : icmRaw chipStacks (prizes.map Nat.cast) =
      ofFn fun i => some (raw i)) :
    min prizes.length chipStacks.length ≤ chipStacks.countP (0 < ·) := by
  by_contra hlt
  have hnone := @none_mem_icmRecursive (Fin chipStacks.length) _ chipStacks.get
    (finRange chipStacks.length) (nodup_finRange _) (fun i _ => hs _ (get_mem chipStacks i))
    (prizes.map Nat.cast) (by
      rw [toFinset_finRange, card_alive_get, length_map, length_finRange]
      omega)
  rw [← ofFn_eq_map, ofFn_get, ← icmRaw, hraw] at hnone
  simp [mem_ofFn] at hnone

lemma min_le_alive (hchips : min prizes.length chipStacks.length ≤ chipStacks.countP (0 < ·)) :
    min (prizes.map (Nat.cast : ℕ → ℚ)).length chipStacks.length ≤
    (alive chipStacks.get Finset.univ).card := by
  rwa [card_alive_get, length_map]

lemma icmRaw_eq_expectation (hs : ∀ x ∈ chipStacks, 0 ≤ x)
    (hchips : min prizes.length chipStacks.length ≤ chipStacks.countP (0 < ·)) :
    icmRaw chipStacks (prizes.map Nat.cast) =
    ofFn fun i => some (expectation chipStacks prizes i) := by
  have h := icmRaw_ofFn (fun i => hs _ (get_mem chipStacks i)) (min_le_alive hchips)
  rwa [ofFn_get] at h

/-- The expectations add up to the prizes that there are players for. -/
lemma sum_expectation (hs : ∀ x ∈ chipStacks, 0 ≤ x)
    (hchips : min prizes.length chipStacks.length ≤ chipStacks.countP (0 < ·)) :
    ∑ i, expectation chipStacks prizes i = ((prizes.take chipStacks.length).sum : ℕ) := by
  have hsum := sum_icm (A := Finset.univ) (fun i _ => hs _ (get_mem chipStacks i)) (by
    rw [Finset.card_univ, Fintype.card_fin]
    exact min_le_alive hchips)
  rwa [Finset.card_univ, Fintype.card_fin, ← map_take, ← Nat.cast_list_sum] at hsum

lemma sum_expectation_le (hs : ∀ x ∈ chipStacks, 0 ≤ x)
    (hchips : min prizes.length chipStacks.length ≤ chipStacks.countP (0 < ·)) :
    ∑ i, expectation chipStacks prizes i ≤ prizes.sum := by
  have htake := (take_sublist chipStacks.length prizes).sum_le_sum fun p _ => Nat.zero_le p
  exact (sum_expectation hs hchips).trans_le (Nat.cast_le.mpr htake)

/-- The floors leave a whole number of chips, none or more. -/
lemma exists_remainder (hs : ∀ x ∈ chipStacks, 0 ≤ x)
    (hchips : min prizes.length chipStacks.length ≤ chipStacks.countP (0 < ·)) :
    ∃ r : ℕ, ∑ i, ⌊expectation chipStacks prizes i⌋ + r = (prizes.sum : ℤ) := by
  have hfloors : ((∑ i, ⌊expectation chipStacks prizes i⌋ : ℤ) : ℚ) ≤ (prizes.sum : ℤ) := by
    rw [Int.cast_sum, Int.cast_natCast]
    exact (Finset.sum_le_sum fun i _ => Int.floor_le _).trans (sum_expectation_le hs hchips)
  obtain ⟨r, hr⟩ := Int.le.dest (Int.cast_le.mp hfloors)
  exact ⟨r, hr⟩

/-- The payouts round the expectations, if the remainder has a place for every chip. -/
lemma calculateIcmPayouts_eq (hs : ∀ x ∈ chipStacks, 0 ≤ x)
    (hchips : min prizes.length chipStacks.length ≤ chipStacks.countP (0 < ·)) {r : ℕ}
    (hr : ∑ i, ⌊expectation chipStacks prizes i⌋ + r = (prizes.sum : ℤ)) :
    calculateIcmPayouts chipStacks (prizes.map Nat.cast) =
      if r ≤ chipStacks.length then
        .ok (ofFn fun i => some (roundTo (expectation chipStacks prizes)
          ((fractionOrder (expectation chipStacks prizes)).take r) i : ℚ))
      else .error .typeError := by
  have h := @calculateIcmPayouts_ofFn _ chipStacks.get (prizes.map Nat.cast)
    (fun i => hs _ (get_mem chipStacks i)) (min_le_alive hchips) r (by
      have hcast : ((∑ i, ⌊expectation chipStacks prizes i⌋ + r : ℤ) : ℚ) = (prizes.sum : ℤ) :=
        congrArg _ hr
      rw [Int.cast_add, Int.cast_sum, Int.cast_natCast, Int.cast_natCast] at hcast
      rw [← Nat.cast_list_sum, ← hcast]
      exact (add_sub_cancel_left _ _).symm)
  rwa [ofFn_get] at h

lemma expectation_nonneg (hs : ∀ x ∈ chipStacks, 0 ≤ x) (i : Fin chipStacks.length) :
    0 ≤ expectation chipStacks prizes i := by
  refine icm_nonneg (fun j _ => hs _ (get_mem chipStacks j)) (fun p hp => ?_) (Finset.mem_univ i)
  obtain ⟨q, -, rfl⟩ := mem_map.mp hp
  exact Nat.cast_nonneg q

/-- Rounding up takes at most one chip for each player. -/
lemma sum_ceil_le (e : Fin chipStacks.length → ℚ) :
    ∑ i, ⌈e i⌉ ≤ ∑ i, ⌊e i⌋ + chipStacks.length := by
  rw [sum_ceil]
  have hcard := Finset.card_filter_le (Finset.univ : Finset (Fin chipStacks.length))
    fun i => 0 < Int.fract (e i)
  rw [Finset.card_univ, Fintype.card_fin] at hcard
  omega

lemma roundsIcm_of_le_ceil (hs : ∀ x ∈ chipStacks, 0 ≤ x)
    (hchips : min prizes.length chipStacks.length ≤ chipStacks.countP (0 < ·))
    (hceil : (prizes.sum : ℤ) ≤ ∑ i, ⌈expectation chipStacks prizes i⌉) :
    RoundsIcm chipStacks prizes := by
  obtain ⟨r, hr⟩ := exists_remainder hs hchips
  have hle : r ≤ chipStacks.length := by
    have := sum_ceil_le (expectation chipStacks prizes)
    omega
  have hlen : r ≤ (fractionOrder (expectation chipStacks prizes)).length := by
    rwa [length_fractionOrder]
  refine ⟨expectation chipStacks prizes, roundTo (expectation chipStacks prizes)
    ((fractionOrder (expectation chipStacks prizes)).take r), icmRaw_eq_expectation hs hchips, ?_,
    fun i => ?_, ?_, ?_⟩
  · rw [calculateIcmPayouts_eq hs hchips hr, if_pos hle]
  · refine add_nonneg (Int.floor_nonneg.mpr (expectation_nonneg hs i)) ?_
    split_ifs <;> decide
  · rw [sum_roundTo ((take_sublist _ _).nodup (nodup_fractionOrder _)), length_take,
      min_eq_left hlen, hr]
  · refine (forall_abs_roundTo_iff (nodup_fractionOrder _) (mem_fractionOrder _)
      (pairwise_fractionOrder _) hlen).mpr ?_
    rwa [hr]

lemma le_ceil_of_roundsIcm (hs : ∀ x ∈ chipStacks, 0 ≤ x) (h : RoundsIcm chipStacks prizes) :
    min prizes.length chipStacks.length ≤ chipStacks.countP (0 < ·) ∧
      (prizes.sum : ℤ) ≤ ∑ i, ⌈expectation chipStacks prizes i⌉ := by
  obtain ⟨raw, payouts, hraw, hpayouts, -, -, hround⟩ := h
  have hchips := min_le_countP_of_raw hs hraw
  refine ⟨hchips, ?_⟩
  obtain ⟨r, hr⟩ := exists_remainder hs hchips
  rw [calculateIcmPayouts_eq hs hchips hr] at hpayouts
  split_ifs at hpayouts with hle
  rw [icmRaw_eq_expectation hs hchips] at hraw
  have hraw' := ofFn_injective hraw
  have hpayouts' := ofFn_injective (Except.ok.inj hpayouts)
  rw [← hr]
  refine (forall_abs_roundTo_iff (nodup_fractionOrder _) (mem_fractionOrder _)
    (pairwise_fractionOrder _) (by rwa [length_fractionOrder])).mp fun i => ?_
  have hp := Option.some.inj (congrFun hpayouts' i)
  have he := Option.some.inj (congrFun hraw' i)
  rw [hp, he]
  exact hround i

/-- With a stack for every prize the payouts are right. -/
lemma roundsIcm_of_le (hs : ∀ x ∈ chipStacks, 0 ≤ x) (h : prizes.length ≤ chipStacks.countP (0 < ·)) :
    RoundsIcm chipStacks prizes := by
  have hchips : min prizes.length chipStacks.length ≤ chipStacks.countP (0 < ·) :=
    (min_le_left _ _).trans h
  refine roundsIcm_of_le_ceil hs hchips ((@Int.cast_le ℚ _ _ _ _ _ _).mp ?_)
  have htake : prizes.take chipStacks.length = prizes :=
    take_of_length_le (h.trans countP_le_length)
  have hsum := sum_expectation hs hchips
  rw [htake] at hsum
  rw [Int.cast_natCast, ← hsum, Int.cast_sum]
  exact Finset.sum_le_sum fun i _ => Int.le_ceil _

end Condition

/-- ICM payouts are right exactly when the chips do not run out before the prizes and the players,
and the prizes are no more than the expectations rounded up. -/
theorem calculateIcmPayouts_rounds_iff {chipStacks : List ℚ} {prizes : List ℕ}
    (hs : ∀ x ∈ chipStacks, 0 ≤ x) :
    RoundsIcm chipStacks prizes ↔
      min prizes.length chipStacks.length ≤ chipStacks.countP (0 < ·) ∧
        (prizes.sum : ℤ) ≤ ∑ i, ⌈expectation chipStacks prizes i⌉ := by
  constructor
  · exact le_ceil_of_roundsIcm hs
  · rintro ⟨hchips, hceil⟩
    exact roundsIcm_of_le_ceil hs hchips hceil

/-- With three stacks and two prizes the payouts are right. -/
theorem calculateIcmPayouts_rounds_threeStacks : RoundsIcm [50, 30, 0] [7, 4] :=
  (calculateIcmPayouts_rounds_iff (by norm_num)).mpr
    ⟨by decide +kernel, by decide +kernel⟩

/-- With a busted player and two prizes for one stack, the payouts are `NaN`. -/
theorem calculateIcmPayouts_busted :
    ¬ ∀ chipStacks prizes : List ℕ, 0 < chipStacks.sum →
      RoundsIcm (chipStacks.map Nat.cast) prizes := by
  intro h
  obtain ⟨raw, -, hraw, -⟩ := h [10, 0] [5, 3] (by decide)
  exact absurd (min_le_countP_of_raw (by norm_num) hraw) (by norm_num)

end Pokerhub
