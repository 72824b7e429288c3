import Mathlib.Data.List.Sort
import Mathlib.Data.Rat.Floor
import Pokerhub.Core.Icm

/-!
# ICM payouts

`icmRecursive`, `icmRaw` and `calculateIcmPayouts` of `icm.ts`, in exact rational arithmetic. While
the chips do not run out before the prizes and the players, the raw values are the expectations of
the independent chip model (`icmRecursive_eq`); afterwards a total of zero divides zero.
-/

namespace Pokerhub

open List

/-! ### Numbers -/

/-- A number of the program; `none` is one that is not finite, `NaN` or an infinity. -/
abbrev Number := Option ℚ

namespace Number

def add (a b : Number) : Number := Option.map₂ (· + ·) a b

def sub (a b : Number) : Number := Option.map₂ (· - ·) a b

def mul (a b : Number) : Number := Option.map₂ (· * ·) a b

def div (a b : ℚ) : Number := if b = 0 then none else some (a / b)

def floor (a : Number) : Number := a.map fun q => (⌊q⌋ : ℚ)

/-- `reduce((a, b) => a + b, 0)`. -/
def sum (l : List Number) : Number := l.foldl add (some 0)

/-- `a < b`, which `NaN` never is. -/
def lt (a b : Number) : Bool :=
  match a, b with
  | some a, some b => a < b
  | _, _ => false

@[simp] lemma add_some (a b : ℚ) : add (some a) (some b) = some (a + b) := rfl
@[simp] lemma sub_some (a b : ℚ) : sub (some a) (some b) = some (a - b) := rfl
@[simp] lemma mul_some (a b : ℚ) : mul (some a) (some b) = some (a * b) := rfl
@[simp] lemma floor_some (a : ℚ) : floor (some a) = some (⌊a⌋ : ℚ) := rfl
@[simp] lemma lt_some (a b : ℚ) : lt (some a) (some b) = decide (a < b) := rfl

@[simp] lemma add_none_left (b : Number) : add none b = none := rfl
@[simp] lemma add_none_right (a : Number) : add a none = none := by cases a <;> rfl
@[simp] lemma mul_none_left (b : Number) : mul none b = none := rfl
@[simp] lemma mul_none_right (a : Number) : mul a none = none := by cases a <;> rfl
@[simp] lemma sub_none_right (a : Number) : sub a none = none := by cases a <;> rfl
@[simp] lemma floor_none : floor none = none := rfl
@[simp] lemma lt_none_right (a : Number) : lt a none = false := by cases a <;> rfl

lemma div_of_ne {a b : ℚ} (h : b ≠ 0) : div a b = some (a / b) := if_neg h

@[simp] lemma div_zero (a : ℚ) : div a 0 = none := if_pos rfl

lemma foldl_add_some (l : List ℚ) (a : ℚ) :
    (l.map some).foldl add (some a) = some (a + l.sum) := by
  induction l generalizing a with
  | nil => simp
  | cons x l ih => rw [map_cons, foldl_cons, add_some, ih, sum_cons, add_assoc]

@[simp] lemma sum_map_some (l : List ℚ) : sum (l.map some) = some l.sum := by
  rw [sum, foldl_add_some, zero_add]

end Number

/-! ### The recursion -/

/-- `res[i] += v`. -/
def addTo (res : List Number) (i : ℕ) (v : Number) : List Number :=
  res.modify i fun x => Number.add x v

/-- The player `i` takes the first prize; `sub` is what the others expect of the rest, if there is
a rest. -/
def winFirst (prize : ℚ) (prob : Number) (sub : Option (List Number)) (i : ℕ)
    (res : List Number) : List Number :=
  let res := addTo res i (Number.mul (some prize) prob)
  match sub with
  | some sub =>
    (range sub.length).foldl (fun res j =>
      let idx := if i ≤ j then j + 1 else j
      addTo res idx (Number.mul (sub.getD j (some 0)) prob)) res
  | none => res

def icmRecursive : List ℚ → List ℚ → List Number
  | chipStacks, [] => replicate chipStacks.length (some 0)
  | chipStacks, prize :: prizes =>
    let total := chipStacks.sum
    (range chipStacks.length).foldl (fun res i =>
      let prob := Number.div (chipStacks.getD i 0) total
      let sub :=
        if 0 < prizes.length then some (icmRecursive (chipStacks.eraseIdx i) prizes) else none
      winFirst prize prob sub i res) (replicate chipStacks.length (some 0))

def icmRaw (chipStacks prizes : List ℚ) : List Number :=
  icmRecursive chipStacks prizes

/-! ### Rounding -/

structure Fraction where
  i : ℕ
  frac : Number
  deriving DecidableEq

/-- `fractions[i]` is `undefined`. -/
inductive IcmError where
  | typeError
  deriving DecidableEq

/-- The loop that hands out the remainder, from the pass `i` on; `fractions` are those not read
yet. -/
def handOut (remainder : Number) : ℕ → List Fraction → List Number →
    Except IcmError (List Number)
  | i, fractions, floored =>
    if Number.lt (some i) remainder then
      match fractions with
      | [] => .error .typeError
      | f :: fractions => handOut remainder (i + 1) fractions (addTo floored f.i (some 1))
    else .ok floored

/-- The comparator `b.frac - a.frac`. It is not read where a fraction is `NaN`: then so is the
remainder. -/
def fracBefore (a b : Fraction) : Prop :=
  b.frac.getD 0 ≤ a.frac.getD 0

instance : DecidableRel fracBefore := fun a b =>
  inferInstanceAs (Decidable (b.frac.getD 0 ≤ a.frac.getD 0))

def calculateIcmPayouts (chipStacks prizes : List ℚ) : Except IcmError (List Number) :=
  let raw := icmRecursive chipStacks prizes
  let floored := raw.map Number.floor
  let remainder := Number.sub (some prizes.sum) (Number.sum floored)
  let fractions := raw.mapIdx fun i v => ⟨i, Number.sub v (floored.getD i (some 0))⟩
  handOut remainder 0 (fractions.insertionSort fracBefore) floored

/-! ### The entries of `res` -/

@[simp] lemma length_addTo (res : List Number) (i : ℕ) (v : Number) :
    (addTo res i v).length = res.length :=
  length_modify _ _ _

lemma getElem?_addTo (res : List Number) (i m : ℕ) (v : Number) :
    (addTo res i v)[m]? = res[m]?.map fun x => if i = m then Number.add x v else x := by
  rw [addTo, getElem?_modify]
  split_ifs <;> simp

/-- The index of `sub[j]` in the list with `i`. -/
def skipIdx (i j : ℕ) : ℕ := if i ≤ j then j + 1 else j

lemma skipIdx_ne (i j : ℕ) : skipIdx i j ≠ i := by
  unfold skipIdx
  split_ifs <;> omega

lemma skipIdx_injective (i : ℕ) : Function.Injective (skipIdx i) := by
  intro j k h
  unfold skipIdx at h
  split_ifs at h <;> omega

lemma exists_skipIdx {i m : ℕ} (h : m ≠ i) : ∃ j, skipIdx i j = m := by
  rcases lt_or_gt_of_ne h with hlt | hgt
  · exact ⟨m, if_neg (by omega)⟩
  · refine ⟨m - 1, ?_⟩
    rw [skipIdx, if_pos (by omega)]
    omega

lemma getElem?_eraseIdx_skipIdx {α : Type*} (l : List α) (i j : ℕ) :
    (l.eraseIdx i)[j]? = l[skipIdx i j]? := by
  rw [getElem?_eraseIdx, skipIdx]
  split_ifs <;> first | rfl | omega

/-- A loop that adds a value at each of its places. -/
lemma getElem?_foldl_addTo {ι : Type*} [DecidableEq ι] (js : List ι) (f : ι → ℕ)
    (v : ι → Number) (hf : Function.Injective f) (hjs : js.Nodup) (res : List Number) (j : ι) :
    (js.foldl (fun res j => addTo res (f j) (v j)) res)[f j]? =
      res[f j]?.map fun x => if j ∈ js then Number.add x (v j) else x := by
  induction js generalizing res with
  | nil => simp
  | cons k js ih =>
    obtain ⟨hk, hjs⟩ := nodup_cons.mp hjs
    rw [foldl_cons, ih hjs, getElem?_addTo, Option.map_map]
    congr 1
    funext x
    simp only [Function.comp_apply, hf.eq_iff, mem_cons]
    by_cases hkj : k = j
    · subst hkj
      simp [hk]
    · simp [hkj, Ne.symm hkj]

/-- The other entries stay. -/
lemma getElem?_foldl_addTo_of_ne (js : List ℕ) (f : ℕ → ℕ) (v : ℕ → Number) {m : ℕ}
    (hm : ∀ j, f j ≠ m) (res : List Number) :
    (js.foldl (fun res j => addTo res (f j) (v j)) res)[m]? = res[m]? := by
  induction js generalizing res with
  | nil => rfl
  | cons k js ih =>
    rw [foldl_cons, ih, getElem?_addTo]
    simp [hm k]

lemma getElem?_winFirst_self (prize : ℚ) (prob : Number) (sub : Option (List Number)) (i : ℕ)
    (res : List Number) :
    (winFirst prize prob sub i res)[i]? =
      res[i]?.map fun x => Number.add x (Number.mul (some prize) prob) := by
  unfold winFirst
  cases sub with
  | none => simp [getElem?_addTo]
  | some sub =>
    dsimp only
    have hrest := @getElem?_foldl_addTo_of_ne (range sub.length) (skipIdx i)
      (fun j => Number.mul (sub.getD j (some 0)) prob) i (skipIdx_ne i)
    unfold skipIdx at hrest
    rw [hrest, getElem?_addTo]
    simp

lemma getElem?_winFirst_skipIdx (prize : ℚ) (prob : Number) (sub : List Number) (i j : ℕ)
    (res : List Number) :
    (winFirst prize prob (some sub) i res)[skipIdx i j]? =
      res[skipIdx i j]?.map fun x =>
        if j < sub.length then Number.add x (Number.mul (sub.getD j (some 0)) prob) else x := by
  have hloop := @getElem?_foldl_addTo ℕ _ (range sub.length) (skipIdx i)
    (fun j => Number.mul (sub.getD j (some 0)) prob) (skipIdx_injective i) nodup_range
    (addTo res i (Number.mul (some prize) prob)) j
  have hself : (addTo res i (Number.mul (some prize) prob))[skipIdx i j]? = res[skipIdx i j]? := by
    rw [getElem?_addTo]
    simp [(skipIdx_ne i j).symm]
  rw [hself] at hloop
  unfold winFirst
  simpa [skipIdx] using hloop

lemma getElem?_winFirst_none {prize : ℚ} {prob : Number} {i m : ℕ} (h : m ≠ i)
    (res : List Number) : (winFirst prize prob none i res)[m]? = res[m]? := by
  unfold winFirst
  rw [getElem?_addTo]
  simp [h.symm]

/-! ### The recursion computes the expectations -/

section Model

variable {α : Type*} [DecidableEq α] {s : α → ℚ} {ids : List α}

/-- What `x` expects when `y` takes the first prize, by the probability of that. -/
def winnings (s : α → ℚ) (A : Finset α) (p : ℚ) (ps : List ℚ) (x y : α) : ℚ :=
  if x = y then p * (s y / ∑ a ∈ A, s a) else icm s ps (A.erase y) x * (s y / ∑ a ∈ A, s a)

lemma sum_winnings {A : Finset α} (p : ℚ) (ps : List ℚ) {x : α} (hx : x ∈ A) :
    ∑ y ∈ A, winnings s A p ps x y = icm s (p :: ps) A x := by
  rw [icm_cons, ← Finset.add_sum_erase A _ hx, winnings, if_pos rfl]
  congr 1
  refine Finset.sum_congr rfl fun y hy => ?_
  rw [winnings, if_neg (Finset.ne_of_mem_erase hy).symm, mul_comm]

/-- The numbers `g` of the players, as a list of the program. -/
def numbers (ids : List α) (g : α → ℚ) : List Number :=
  ids.map fun x => some (g x)

/-- One pass of the loop adds what everybody expects if the player of the pass wins. -/
lemma winFirst_eq (hids : ids.Nodup) (g : α → ℚ) (p : ℚ) (ps : List ℚ) {i : ℕ} {y : α}
    (hy : ids[i]? = some y) :
    winFirst p (some (s y / ∑ a ∈ ids.toFinset, s a))
        (if 0 < ps.length then some (numbers (ids.eraseIdx i) (icm s ps (ids.toFinset.erase y)))
          else none) i (numbers ids g) =
      numbers ids fun x => g x + winnings s ids.toFinset p ps x y := by
  refine ext_getElem? fun m => ?_
  by_cases hm : m = i
  · subst hm
    rw [getElem?_winFirst_self]
    simp [numbers, hy, winnings]
  · have hne : ∀ x, ids[m]? = some x → x ≠ y := by
      rintro x hx rfl
      exact hm ((getElem?_inj (List.getElem?_eq_some_iff.mp hx).1 hids).mp (hx.trans hy.symm))
    cases ps with
    | nil =>
      rw [if_neg (by simp), getElem?_winFirst_none hm]
      cases hx : ids[m]? with
      | none => simp [numbers, hx]
      | some x => simp [numbers, hx, winnings, hne x hx]
    | cons q qs =>
      obtain ⟨j, rfl⟩ := exists_skipIdx hm
      rw [if_pos (by simp), getElem?_winFirst_skipIdx]
      have herase := getElem?_eraseIdx_skipIdx ids i j
      cases hx : ids[skipIdx i j]? with
      | none => simp [numbers, hx]
      | some x =>
        rw [hx] at herase
        obtain ⟨hj, hget⟩ := List.getElem?_eq_some_iff.mp herase
        simp [numbers, hx, winnings, hne x hx, hj, hget]

lemma toFinset_eraseIdx (hids : ids.Nodup) {i : ℕ} {y : α} (hy : ids[i]? = some y) :
    (ids.eraseIdx i).toFinset = ids.toFinset.erase y := by
  obtain ⟨hi, rfl⟩ := List.getElem?_eq_some_iff.mp hy
  ext x
  rw [← hids.erase_getElem i hi, mem_toFinset, hids.mem_erase_iff, Finset.mem_erase, mem_toFinset]

/-- Who goes on to play for the next prize leaves enough chips. -/
lemma min_le_alive_erase {k n : ℕ} {A : Finset α} (hn : 0 < n)
    (hchips : min (k + 1) n ≤ (alive s A).card) (y : α) :
    min k (n - 1) ≤ (alive s (A.erase y)).card := by
  have hcard := Finset.pred_card_le_card_erase (s := alive s A) (a := y)
  rw [alive_erase]
  omega

/-- The loop over the first `k` players. -/
lemma foldl_winFirst_eq (hids : ids.Nodup) (p : ℚ) (ps : List ℚ) {prob : ℕ → Number}
    {sub : ℕ → List Number}
    (hprob : ∀ i y, ids[i]? = some y → prob i = some (s y / ∑ a ∈ ids.toFinset, s a))
    (hsub : ∀ i y, ids[i]? = some y →
      sub i = numbers (ids.eraseIdx i) (icm s ps (ids.toFinset.erase y)))
    {k : ℕ} (hk : k ≤ ids.length) :
    (range k).foldl (fun res i =>
        winFirst p (prob i) (if 0 < ps.length then some (sub i) else none) i res)
        (replicate ids.length (some 0)) =
      numbers ids fun x => ((ids.take k).map (winnings s ids.toFinset p ps x)).sum := by
  induction k with
  | zero => simp [numbers]
  | succ k ih =>
    have hget : ids[k]? = some ids[k] := getElem?_eq_getElem hk
    rw [range_succ, foldl_append, ih (Nat.le_of_succ_le hk), foldl_cons, foldl_nil, hprob k _ hget,
      hsub k _ hget, winFirst_eq hids _ p ps hget]
    congr 1
    funext x
    rw [take_add_one, hget, map_append, sum_append]
    simp

/-- The raw values are the expectations of the model, unless the chips run out before the prizes
and the players do. -/
theorem icmRecursive_eq (hids : ids.Nodup) (hs : ∀ x ∈ ids, 0 ≤ s x) {prizes : List ℚ}
    (hchips : min prizes.length ids.length ≤ (alive s ids.toFinset).card) :
    icmRecursive (ids.map s) prizes = numbers ids (icm s prizes ids.toFinset) := by
  induction prizes generalizing ids with
  | nil => simp [icmRecursive, numbers]
  | cons p ps ih =>
    rcases ids.eq_nil_or_concat with rfl | ⟨l, z, hl⟩
    · rfl
    have hn : 0 < ids.length := by simp [hl]
    rw [length_cons] at hchips
    have hsum : (ids.map s).sum = ∑ a ∈ ids.toFinset, s a := (sum_toFinset s hids).symm
    have htotal : 0 < ∑ a ∈ ids.toFinset, s a := by
      refine sum_pos_of_alive (fun x hx => hs x (mem_toFinset.mp hx)) (Finset.card_pos.mp ?_)
      omega
    have hprob : ∀ i y, ids[i]? = some y →
        Number.div ((ids.map s).getD i 0) (ids.map s).sum =
          some (s y / ∑ a ∈ ids.toFinset, s a) := by
      intro i y hy
      rw [hsum, Number.div_of_ne htotal.ne']
      simp [getD_eq_getElem?_getD, hy]
    have hsub : ∀ i y, ids[i]? = some y → icmRecursive ((ids.map s).eraseIdx i) ps =
        numbers (ids.eraseIdx i) (icm s ps (ids.toFinset.erase y)) := by
      intro i y hy
      rw [eraseIdx_map, ← toFinset_eraseIdx hids hy]
      refine ih (hids.eraseIdx i) (fun x hx => hs x (mem_of_mem_eraseIdx hx)) ?_
      rw [toFinset_eraseIdx hids hy, length_eraseIdx_of_lt (List.getElem?_eq_some_iff.mp hy).1]
      exact min_le_alive_erase hn hchips y
    have hall := foldl_winFirst_eq hids p ps hprob hsub le_rfl
    rw [take_length] at hall
    rw [icmRecursive]
    simp only [length_map]
    rw [hall]
    refine map_congr_left fun x hx => ?_
    dsimp only
    rw [← sum_toFinset _ hids, sum_winnings p ps (mem_toFinset.mpr hx)]

end Model

/-! ### The laws of the expectations -/

lemma icmRaw_ofFn {n : ℕ} {s : Fin n → ℚ} (hs : ∀ i, 0 ≤ s i) {prizes : List ℚ}
    (hchips : min prizes.length n ≤ (alive s Finset.univ).card) :
    icmRaw (ofFn s) prizes = ofFn fun i => some (icm s prizes Finset.univ i) := by
  have h := @icmRecursive_eq (Fin n) _ s (finRange n) (nodup_finRange n) (fun i _ => hs i) prizes
    (by rwa [length_finRange, toFinset_finRange])
  rw [toFinset_finRange] at h
  rw [icmRaw, ofFn_eq_map, h, ofFn_eq_map, numbers]

lemma alive_eq_univ {n : ℕ} {s : Fin n → ℚ} (hs : ∀ i, 0 < s i) :
    alive s Finset.univ = Finset.univ :=
  Finset.filter_true_of_mem fun i _ => hs i

/-- With chips in front of everybody and no more prizes than players, the expectations add up to
the prizes, they move with the stacks, and with prizes that never grow a larger stack never
expects less. -/
theorem icmRaw_laws {chipStacks prizes : List ℚ} (hpos : ∀ x ∈ chipStacks, 0 < x)
    (hnonneg : ∀ p ∈ prizes, 0 ≤ p) (hle : prizes.length ≤ chipStacks.length) :
    ∃ raw : Fin chipStacks.length → ℚ,
      icmRaw chipStacks prizes = ofFn (fun i => some (raw i)) ∧
      ∑ i, raw i = prizes.sum ∧
      (∀ σ : Equiv.Perm (Fin chipStacks.length),
        icmRaw (ofFn fun i => chipStacks.get (σ i)) prizes = ofFn fun i => some (raw (σ i))) ∧
      (prizes.Pairwise (· ≥ ·) →
        ∀ i j, chipStacks.get i ≤ chipStacks.get j → raw i ≤ raw j) := by
  have hs : ∀ i, 0 < chipStacks.get i := fun i => hpos _ (get_mem chipStacks i)
  have hchips : ∀ t : Fin chipStacks.length → ℚ, (∀ i, 0 < t i) →
      min prizes.length chipStacks.length ≤ (alive t Finset.univ).card := by
    intro t ht
    rw [alive_eq_univ ht, Finset.card_univ, Fintype.card_fin]
    exact min_le_right _ _
  have hraw := icmRaw_ofFn (fun i => (hs i).le) (hchips _ hs)
  refine ⟨icm chipStacks.get prizes Finset.univ, ?_, ?_, ?_, ?_⟩
  · rwa [ofFn_get] at hraw
  · rw [sum_icm (fun i _ => (hs i).le), Finset.card_univ, Fintype.card_fin, take_of_length_le hle]
    rw [Finset.card_univ, Fintype.card_fin]
    exact hchips _ hs
  · intro σ
    rw [icmRaw_ofFn (fun i => (hs (σ i)).le) (hchips _ fun i => hs (σ i))]
    congr 1
    funext i
    have hmap := icm_map σ.toEmbedding chipStacks.get prizes Finset.univ i
    rw [Finset.map_univ_equiv] at hmap
    exact congrArg some hmap.symm
  · intro hsorted i j hij
    exact icm_mono hs ⟨hnonneg, hsorted⟩ (Finset.mem_univ i) (Finset.mem_univ j) hij

theorem icmRaw_laws_twoStacks :
    ∃ raw : Fin 2 → ℚ, icmRaw [3, 1] [2, 1] = ofFn (fun i => some (raw i)) ∧ ∑ i, raw i = 3 ∧
      raw 1 ≤ raw 0 := by
  obtain ⟨raw, hraw, hsum, -, hmono⟩ := @icmRaw_laws [3, 1] [2, 1] (by simp) (by simp) le_rfl
  exact ⟨raw, hraw, hsum.trans (by norm_num), hmono (by norm_num) 1 0 (by norm_num)⟩

end Pokerhub
