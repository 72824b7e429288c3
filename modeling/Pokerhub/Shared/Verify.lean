import Mathlib.Data.List.Nodup
import Mathlib.Data.List.Range
import Pokerhub.Core.Double
import Pokerhub.Core.Swaps

/-!
# Verification of hands

`shared/verify/index.ts`, with SHA-256 as a parameter. The 32 bits that `prng` draws are read as a
signed number, so a drawn position may be negative; such a position is a property of the array
that its length does not count, and reading it gives `undefined` (`none`) unless it has been
written. The shuffle has no `undefined` in it exactly when the first byte of every drawn hash is
below 128 (`forall_mem_shuffle_isSome_iff`).
-/

namespace Pokerhub

open List

variable {α : Type*}

def bytesToHex (bytes : List UInt8) : String :=
  String.join <| bytes.map fun b =>
    let digits := Nat.toDigits 16 b.toNat
    String.ofList (replicate (2 - digits.length) '0' ++ digits)

/-- `encoder.encode(counter.toString())`. -/
def encode (counter : ℕ) : List UInt8 :=
  (Nat.toDigits 10 counter).map fun c => UInt8.ofNat c.toNat

def standardDeck : List ℕ :=
  range 52

section Hash

variable (sha256 : List UInt8 → List UInt8)

def hashCommitment (seed nonce : List UInt8) : String :=
  bytesToHex (sha256 (seed ++ nonce))

/-- `(bytes[0] << 24) | (bytes[1] << 16) | (bytes[2] << 8) | bytes[3]`. -/
def word (bytes : List UInt8) : BitVec 32 :=
  let byte := fun i => (bytes.getD i 0).toBitVec.setWidth 32
  byte 0 <<< 24 ||| byte 1 <<< 16 ||| byte 2 <<< 8 ||| byte 3

/-- What the generator yields at a counter. -/
def prng (seed : List UInt8) (counter : ℕ) : ℚ :=
  toDouble ((word (sha256 (seed ++ encode counter))).toInt / 0xffffffff)

/-- `Math.floor(r * (i + 1))`. -/
def pick (r : ℚ) (i : ℕ) : ℤ :=
  ⌊toDouble (r * (i + 1))⌋

end Hash

/-- The numbered properties of an array, the latest write first. -/
abbrev Properties (α : Type*) := List (ℤ × Option α)

namespace Properties

def get (arr : Properties α) (z : ℤ) : Option α :=
  (arr.lookup z).join

def set (arr : Properties α) (z : ℤ) (value : Option α) : Properties α :=
  (z, value) :: arr

/-- `[arr[i], arr[j]] = [arr[j], arr[i]]`. -/
def swap (arr : Properties α) (i j : ℤ) : Properties α :=
  (arr.set i (arr.get j)).set j (arr.get i)

/-- `items.slice()`. -/
def slice (items : List α) : Properties α :=
  items.zipIdx.map fun e => (e.2, some e.1)

end Properties

/-- The loop of `shuffle` from position `i` down to 1. -/
def shuffleLoop (rnd : ℕ → ℚ) : ℕ → ℕ → Properties α → Properties α
  | 0, _, arr => arr
  | i + 1, counter, arr =>
    shuffleLoop rnd i (counter + 1) (arr.swap (i + 1) (pick (rnd counter) (i + 1)))

def shuffle (sha256 : List UInt8 → List UInt8) (items : List α) (seed : List UInt8) :
    List (Option α) :=
  let arr := shuffleLoop (prng sha256 seed) (items.length - 1) 0 (Properties.slice items)
  (range items.length).map fun i : ℕ => arr.get i

/-! ### The draws -/

/-- The sign of a drawn word is the first bit of its first byte. -/
lemma word_toInt_neg_iff (bytes : List UInt8) : (word bytes).toInt < 0 ↔ 128 ≤ bytes.headD 0 := by
  have hhead : bytes.getD 0 0 = bytes.headD 0 := by cases bytes <;> rfl
  have hmsb : (word bytes).msb = (bytes.headD 0).toBitVec.msb := by
    rw [← hhead]
    simp [word, BitVec.msb_eq_getLsbD_last]
  rw [BitVec.msb_eq_toInt, BitVec.msb_eq_decide, decide_eq_decide] at hmsb
  rw [hmsb, UInt8.le_iff_toNat_le]
  rfl

section Draws

variable {sha256 : List UInt8 → List UInt8} {seed : List UInt8} {counter : ℕ}

lemma prng_nonneg_iff :
    0 ≤ prng sha256 seed counter ↔ (sha256 (seed ++ encode counter)).headD 0 < 128 := by
  rw [← not_iff_not, not_le, UInt8.not_lt, ← word_toInt_neg_iff, prng]
  constructor
  · intro h
    by_contra hnonneg
    refine absurd (toDouble_nonneg ?_) (not_le.mpr h)
    have : (0 : ℚ) ≤ (word (sha256 (seed ++ encode counter))).toInt := by
      exact_mod_cast not_lt.mp hnonneg
    positivity
  · intro h
    refine toDouble_neg (div_neg_of_neg_of_pos ?_ (by norm_num))
    exact_mod_cast h

/-- A draw is at most a half. -/
lemma prng_le_half : prng sha256 seed counter ≤ 1 / 2 := by
  have hlt : (word (sha256 (seed ++ encode counter))).toInt < 2 ^ 31 := BitVec.toInt_lt
  by_cases hneg : 0 ≤ (word (sha256 (seed ++ encode counter))).toInt
  · have hcast : ((word (sha256 (seed ++ encode counter))).toInt : ℚ) ≤ 2 ^ 31 - 1 := by
      exact_mod_cast Int.le_sub_one_of_lt hlt
    have hnonneg : (0 : ℚ) ≤ (word (sha256 (seed ++ encode counter))).toInt := by
      exact_mod_cast hneg
    have hhalf := @toDouble_le_half
      (((word (sha256 (seed ++ encode counter))).toInt : ℚ) / 0xffffffff) 1 (by positivity)
      (by norm_num) (by rw [div_le_div_iff₀ (by norm_num) (by norm_num)]; push_cast; linarith)
    simpa [prng] using hhalf
  · have h : prng sha256 seed counter < 0 := by
      refine toDouble_neg (div_neg_of_neg_of_pos ?_ (by norm_num))
      exact_mod_cast not_le.mp hneg
    linarith

end Draws

lemma pick_nonneg_iff {r : ℚ} {i : ℕ} : 0 ≤ pick r i ↔ 0 ≤ r := by
  have hpos : (0 : ℚ) < i + 1 := by positivity
  rw [pick, Int.floor_nonneg]
  constructor
  · intro h
    by_contra hneg
    exact absurd (toDouble_neg (mul_neg_of_neg_of_pos (not_le.mp hneg) hpos)) (not_lt.mpr h)
  · exact fun h => toDouble_nonneg (mul_nonneg h hpos.le)

/-- The drawn position is not above the one it is drawn for. -/
lemma pick_le {r : ℚ} (hr : r ≤ 1 / 2) {i : ℕ} (hi : i + 1 < 2 ^ 50) : pick r i ≤ i := by
  rcases lt_or_ge r 0 with hneg | hnonneg
  · have h : ¬ 0 ≤ pick r i := fun h => absurd (pick_nonneg_iff.mp h) (not_le.mpr hneg)
    omega
  · have hpos : (0 : ℚ) < i + 1 := by positivity
    have hhalf : toDouble (r * (i + 1)) ≤ ((i + 1 : ℕ) : ℚ) / 2 := by
      refine toDouble_le_half (mul_nonneg hnonneg hpos.le) hi ?_
      push_cast
      nlinarith
    push_cast at hhalf
    have hfloor : pick r i < i + 1 := by
      rw [pick, Int.floor_lt]
      push_cast
      linarith
    omega

/-! ### The shuffle -/

lemma get_set (arr : Properties α) (z : ℤ) (value : Option α) :
    (arr.set z value).get = Function.update arr.get z value := by
  funext y
  rw [Function.update_apply, Properties.get, Properties.set, lookup_cons]
  by_cases hy : y = z
  · simp [hy]
  · have hbeq : (y == z) = false := by simpa using hy
    rw [hbeq, if_neg hy]
    rfl

lemma get_swap (arr : Properties α) (i j : ℤ) : (arr.swap i j).get = exchange arr.get i j := by
  rw [Properties.swap, get_set, get_set, exchange]

lemma get_slice (items : List α) (z : ℤ) :
    (Properties.slice items).get z = if 0 ≤ z then items[z.toNat]? else none := by
  have hfrom : ∀ (k : ℕ), Properties.get ((items.zipIdx k).map fun e => ((e.2 : ℤ), some e.1)) z =
      if (k : ℤ) ≤ z then items[(z - k).toNat]? else none := by
    induction items with
    | nil => intro k; simp [Properties.get]
    | cons item items ih =>
      intro k
      have hrest := ih (k + 1)
      rw [Properties.get] at hrest ⊢
      rw [zipIdx_cons, map_cons, lookup_cons]
      by_cases hz : z = k
      · simp [hz]
      · have hbeq : (z == (k : ℤ)) = false := by simpa using hz
        rw [hbeq]
        refine hrest.trans ?_
        push_cast
        by_cases hle : (k : ℤ) + 1 ≤ z
        · have hsucc : (z - k).toNat = (z - (k + 1)).toNat + 1 := by omega
          rw [if_pos hle, if_pos (by omega), hsucc, getElem?_cons_succ]
        · rw [if_neg hle, if_neg (by omega)]
  have hzero := hfrom 0
  simpa [Properties.slice] using hzero

/-- The loop makes the descending swaps; position `k` gets the draw that its turn comes with. -/
lemma get_shuffleLoop (rnd : ℕ → ℚ) (i counter : ℕ) (arr : Properties α) :
    (shuffleLoop rnd i counter arr).get =
      swapDown (fun k => pick (rnd (counter + i - k)) k) i arr.get := by
  induction i generalizing counter arr with
  | zero => rfl
  | succ i ih =>
    rw [shuffleLoop, ih, swapDown, get_swap, Nat.add_sub_cancel]
    have hsum : counter + 1 + i = counter + (i + 1) := by omega
    rw [hsum]

section Shuffle

variable {sha256 : List UInt8 → List UInt8} {seed : List UInt8} {items : List α}

@[simp] lemma length_shuffle : (shuffle sha256 items seed).length = items.length := by
  simp [shuffle]

/-- The array at the end holds the items at rearranged positions. -/
lemma exists_perm_shuffle (sha256 : List UInt8 → List UInt8) (items : List α)
    (seed : List UInt8) :
    ∃ σ : Equiv.Perm ℤ, shuffle sha256 items seed = (range items.length).map fun i : ℕ =>
      if 0 ≤ σ i then items[(σ i).toNat]? else none := by
  obtain ⟨σ, hσ⟩ := exists_perm_swapDown
    (fun i => pick (prng sha256 seed (items.length - 1 - i)) i) (items.length - 1)
    (Properties.slice items).get
  refine ⟨σ, ?_⟩
  rw [shuffle]
  refine map_congr_left fun i _ => ?_
  rw [get_shuffleLoop, Nat.zero_add, hσ, Function.comp, get_slice]

lemma mem_of_some_mem_shuffle {x : α} (h : some x ∈ shuffle sha256 items seed) : x ∈ items := by
  obtain ⟨σ, hσ⟩ := exists_perm_shuffle sha256 items seed
  rw [hσ] at h
  obtain ⟨i, _, hi⟩ := mem_map.mp h
  split_ifs at hi
  exact mem_of_getElem? hi

/-- No item comes twice. -/
lemma nodup_filterMap_shuffle (h : items.Nodup) :
    ((shuffle sha256 items seed).filterMap id).Nodup := by
  obtain ⟨σ, hσ⟩ := exists_perm_shuffle sha256 items seed
  rw [hσ, filterMap_map]
  refine Nodup.filterMap (fun i j x hi hj => ?_) nodup_range
  simp only [Function.comp, id_eq, Option.mem_def] at hi hj
  split_ifs at hi hj with hi₀ hj₀
  have hsame : (σ i).toNat = (σ j).toNat := by
    obtain ⟨hilt, rfl⟩ := List.getElem?_eq_some_iff.mp hi
    obtain ⟨hjlt, hx⟩ := List.getElem?_eq_some_iff.mp hj
    exact ((h.getElem_inj_iff).mp hx).symm
  have hσeq : σ i = σ j := by omega
  exact_mod_cast σ.injective hσeq

/-- There is no `undefined` in the shuffle exactly when the first byte of every drawn hash is below
128. -/
theorem forall_mem_shuffle_isSome_iff (hlen : items.length < 2 ^ 32) :
    (∀ x ∈ shuffle sha256 items seed, x.isSome) ↔
      ∀ counter < items.length - 1, (sha256 (seed ++ encode counter)).headD 0 < 128 := by
  rcases Nat.eq_zero_or_pos items.length with hzero | hpos
  · simp [shuffle, hzero]
  · have hswaps := @swapDown_isSome_iff α
      (fun i => pick (prng sha256 seed (items.length - 1 - i)) i) (items.length - 1)
      (fun i hi => pick_le prng_le_half (by omega))
      (Properties.slice items).get (fun z => by
        rw [get_slice]
        split_ifs with hz
        · simp only [isSome_getElem?, hz, true_and]
          omega
        · simp [hz])
    have hitems : (∀ x ∈ shuffle sha256 items seed, x.isSome) ↔
        ∀ z : ℤ, 0 ≤ z → z ≤ (items.length - 1 : ℕ) →
          (swapDown (fun i => pick (prng sha256 seed (items.length - 1 - i)) i)
            (items.length - 1) (Properties.slice items).get z).isSome := by
      simp only [shuffle, get_shuffleLoop, Nat.zero_add, mem_map, mem_range,
        forall_exists_index, and_imp, forall_apply_eq_imp_iff₂]
      constructor
      · intro h z hz hle
        have hat := h z.toNat (by omega)
        rwa [Int.toNat_of_nonneg hz] at hat
      · intro h i hi
        exact h i (by omega) (by omega)
    rw [hitems, hswaps]
    constructor
    · intro h counter hcounter
      have hdraw := h (items.length - 1 - counter) (by omega) (by omega)
      rw [pick_nonneg_iff, prng_nonneg_iff] at hdraw
      have hback : items.length - 1 - (items.length - 1 - counter) = counter := by omega
      rwa [hback] at hdraw
    · intro h i hi hipos
      rw [pick_nonneg_iff, prng_nonneg_iff]
      exact h _ (by omega)

end Shuffle

end Pokerhub
