import Mathlib.Algebra.BigOperators.Field
import Mathlib.Algebra.Order.BigOperators.Group.Finset
import Mathlib.Algebra.Order.Field.Basic
import Mathlib.Algebra.BigOperators.Group.Finset.Basic
import Mathlib.Tactic.LinearCombination
import Mathlib.Tactic.GCongr
import Mathlib.Tactic.Linarith
import Mathlib.Tactic.Ring

/-!
# The independent chip model

Places are drawn one after the other, each among those who are left and with probability
proportional to the stack. `icm s ps A x` is what `x` may expect when the prizes `ps` are handed
out among `A` in this way. The expectations add up to the prizes that can be handed out
(`sum_icm`), do not depend on names (`icm_map`), and follow the stacks (`icm_mono`).
-/

open Finset

variable {α β K : Type*} [DecidableEq α] [DecidableEq β] [Field K]

/-- The expectation of `x`: it takes the first prize, or somebody else does. -/
def icm (s : α → K) : List K → Finset α → α → K
  | [], _, _ => 0
  | p :: ps, A, x =>
    p * (s x / ∑ a ∈ A, s a) + ∑ y ∈ A.erase x, s y / (∑ a ∈ A, s a) * icm s ps (A.erase y) x

@[simp] lemma icm_nil (s : α → K) (A : Finset α) (x : α) : icm s [] A x = 0 := rfl

lemma icm_cons (s : α → K) (p : K) (ps : List K) (A : Finset α) (x : α) :
    icm s (p :: ps) A x =
      p * (s x / ∑ a ∈ A, s a) +
        ∑ y ∈ A.erase x, s y / (∑ a ∈ A, s a) * icm s ps (A.erase y) x := rfl

/-- The expectation of `x`, with the case singled out that `y` takes the first prize. -/
lemma icm_cons_pair (s : α → K) (p : K) (ps : List K) {A : Finset α} {x y : α} (hy : y ∈ A)
    (hxy : x ≠ y) :
    icm s (p :: ps) A x =
      p * (s x / ∑ a ∈ A, s a) + s y / (∑ a ∈ A, s a) * icm s ps (A.erase y) x +
        ∑ z ∈ (A.erase x).erase y, s z / (∑ a ∈ A, s a) * icm s ps (A.erase z) x := by
  rw [icm_cons, ← add_sum_erase (A.erase x) _ (mem_erase.mpr ⟨hxy.symm, hy⟩), add_assoc]

/-- Whoever has the first place has no part in the other prizes. -/
lemma sum_icm_cons (s : α → K) (p : K) (ps : List K) (A : Finset α) :
    ∑ x ∈ A, icm s (p :: ps) A x =
      ∑ y ∈ A, s y / (∑ a ∈ A, s a) * (p + ∑ x ∈ A.erase y, icm s ps (A.erase y) x) := by
  simp only [icm_cons, sum_add_distrib, mul_add, mul_sum]
  congr 1
  · exact sum_congr rfl fun x _ => mul_comm _ _
  · refine sum_comm' fun x y => ?_
    simp only [mem_erase]
    constructor
    · rintro ⟨hx, hyx, hy⟩
      exact ⟨⟨hyx.symm, hx⟩, hy⟩
    · rintro ⟨⟨hxy, hx⟩, hy⟩
      exact ⟨hx, hxy.symm, hy⟩

/-- The model does not read names. -/
lemma icm_map (e : α ↪ β) (s : β → K) (ps : List K) (A : Finset α) (x : α) :
    icm s ps (A.map e) (e x) = icm (fun a => s (e a)) ps A x := by
  induction ps generalizing A with
  | nil => rfl
  | cons p ps ih =>
    simp only [icm_cons, sum_map, ← map_erase, ih]

section Order

variable [LinearOrder K] [IsStrictOrderedRing K] {s : α → K} {A : Finset α} {ps : List K}

/-- Those who still have chips. -/
def alive (s : α → K) (A : Finset α) : Finset α :=
  A.filter fun x => 0 < s x

omit [IsStrictOrderedRing K] in
lemma alive_erase (s : α → K) (A : Finset α) (y : α) :
    alive s (A.erase y) = (alive s A).erase y :=
  filter_erase _ _ _

omit [DecidableEq α] in
lemma sum_pos_of_alive (hs : ∀ x ∈ A, 0 ≤ s x) (h : (alive s A).Nonempty) : 0 < ∑ a ∈ A, s a := by
  obtain ⟨x, hx⟩ := h
  obtain ⟨hxA, hpos⟩ := mem_filter.mp hx
  exact sum_pos' hs ⟨x, hxA, hpos⟩

/-- Every prize that has a taker is handed out, as long as the chips do not run out before the
prizes and the players do. -/
theorem sum_icm (hs : ∀ x ∈ A, 0 ≤ s x) (hchips : min ps.length #A ≤ #(alive s A)) :
    ∑ x ∈ A, icm s ps A x = (ps.take #A).sum := by
  induction ps generalizing A with
  | nil => simp
  | cons p ps ih =>
    rcases A.eq_empty_or_nonempty with rfl | hA
    · simp
    have hcard := hA.card_pos
    have halive : (alive s A).Nonempty := by
      rw [← card_pos]
      rw [List.length_cons] at hchips
      omega
    have htotal := sum_pos_of_alive hs halive
    have hterm : ∀ y ∈ A, s y / (∑ a ∈ A, s a) *
        (p + ∑ x ∈ A.erase y, icm s ps (A.erase y) x) =
          s y / (∑ a ∈ A, s a) * ((p :: ps).take #A).sum := by
      intro y hy
      rcases (hs y hy).eq_or_lt with hzero | hpos
      · rw [← hzero, zero_div, zero_mul, zero_mul]
      · have hymem : y ∈ alive s A := mem_filter.mpr ⟨hy, hpos⟩
        rw [ih fun x hx => hs x (mem_of_mem_erase hx)]
        · rw [card_erase_of_mem hy]
          obtain ⟨n, hn⟩ := Nat.exists_eq_succ_of_ne_zero hcard.ne'
          rw [hn, Nat.succ_sub_one, List.take_succ_cons, List.sum_cons]
        · rw [alive_erase, card_erase_of_mem hy, card_erase_of_mem hymem]
          rw [List.length_cons] at hchips
          omega
    rw [sum_icm_cons, sum_congr rfl hterm, ← sum_mul, ← sum_div, div_self htotal.ne', one_mul]

lemma icm_nonneg (hs : ∀ x ∈ A, 0 ≤ s x) (hps : ∀ p ∈ ps, 0 ≤ p) {x : α} (hx : x ∈ A) :
    0 ≤ icm s ps A x := by
  induction ps generalizing A with
  | nil => exact le_rfl
  | cons p ps ih =>
    simp only [List.mem_cons, forall_eq_or_imp] at hps
    have htotal : 0 ≤ ∑ a ∈ A, s a := sum_nonneg hs
    refine add_nonneg (mul_nonneg hps.1 (div_nonneg (hs x hx) htotal)) (sum_nonneg fun y hy => ?_)
    obtain ⟨hyx, hyA⟩ := mem_erase.mp hy
    refine mul_nonneg (div_nonneg (hs y hyA) htotal) ?_
    exact ih (fun z hz => hs z (mem_of_mem_erase hz)) hps.2 (mem_erase.mpr ⟨hyx.symm, hx⟩)

/-! ### Stacks and expectations -/

variable {p : K} {B : Finset α} {x y : α}

/-- What `x` misses of the first prize, by who takes it instead. -/
lemma sub_icm_insert (hs : ∀ z, 0 < s z) (hx : x ∉ B) :
    p - icm s (p :: ps) (insert x B) x =
      ∑ z ∈ B, s z / (∑ a ∈ insert x B, s a) * (p - icm s ps (insert x (B.erase z)) x) := by
  have htotal : 0 < ∑ a ∈ insert x B, s a := sum_pos (fun z _ => hs z) (insert_nonempty x B)
  have hp : p = p * (s x / ∑ a ∈ insert x B, s a) +
      ∑ z ∈ B, s z / (∑ a ∈ insert x B, s a) * p := by
    rw [← sum_mul, ← sum_div, mul_comm p, ← add_mul, ← add_div, ← sum_insert hx,
      div_self htotal.ne', one_mul]
  have hicm : icm s (p :: ps) (insert x B) x = p * (s x / ∑ a ∈ insert x B, s a) +
      ∑ z ∈ B, s z / (∑ a ∈ insert x B, s a) * icm s ps (insert x (B.erase z)) x := by
    rw [icm_cons, erase_insert hx]
    congr 1
    refine sum_congr rfl fun z hz => ?_
    have hxz : x ≠ z := by
      rintro rfl
      exact hx hz
    rw [erase_insert_of_ne hxz]
  rw [hicm]
  simp only [mul_sub, sum_sub_distrib]
  linear_combination hp

/-- Prizes that are not negative and never grow. -/
structure Payable (ps : List K) : Prop where
  nonneg : ∀ p ∈ ps, 0 ≤ p
  pairwise : ps.Pairwise (· ≥ ·)

omit [IsStrictOrderedRing K] in
lemma Payable.tail (h : Payable (p :: ps)) : Payable ps :=
  ⟨fun q hq => h.nonneg q (List.mem_cons_of_mem _ hq), (List.pairwise_cons.mp h.pairwise).2⟩

omit [IsStrictOrderedRing K] in
lemma Payable.headD_le (h : Payable (p :: ps)) : ps.headD 0 ≤ p := by
  cases ps with
  | nil => exact h.nonneg p List.mem_cons_self
  | cons q qs => exact (List.pairwise_cons.mp h.pairwise).1 q List.mem_cons_self

/-- Nobody expects more than the first prize. -/
lemma icm_le_headD (hs : ∀ z, 0 < s z) (hps : Payable ps) (hx : x ∉ B) :
    icm s ps (insert x B) x ≤ ps.headD 0 := by
  induction ps generalizing B with
  | nil => exact le_rfl
  | cons p ps ih =>
    have htotal : 0 < ∑ a ∈ insert x B, s a := sum_pos (fun z _ => hs z) (insert_nonempty x B)
    refine sub_nonneg.mp ?_
    rw [List.headD_cons, sub_icm_insert hs hx]
    refine sum_nonneg fun z _ => mul_nonneg (div_nonneg (hs z).le htotal.le) (sub_nonneg.mpr ?_)
    exact (ih hps.tail fun hxz => hx (mem_of_mem_erase hxz)).trans hps.headD_le

/-- Against the same opponents a larger stack expects at least as much. -/
lemma icm_insert_le_icm_insert (hs : ∀ z, 0 < s z) (hps : Payable ps) (hxy : s x ≤ s y)
    (hx : x ∉ B) (hy : y ∉ B) : icm s ps (insert x B) x ≤ icm s ps (insert y B) y := by
  induction ps generalizing B with
  | nil => exact le_rfl
  | cons p ps ih =>
    have htotal : 0 < ∑ a ∈ insert x B, s a := sum_pos (fun z _ => hs z) (insert_nonempty x B)
    have hle : ∑ a ∈ insert x B, s a ≤ ∑ a ∈ insert y B, s a := by
      rw [sum_insert hx, sum_insert hy]
      linarith
    refine (sub_le_sub_iff_left p).mp ?_
    rw [sub_icm_insert hs hx, sub_icm_insert hs hy]
    refine sum_le_sum fun z _ => ?_
    have hxz : x ∉ B.erase z := fun h => hx (mem_of_mem_erase h)
    have hyz : y ∉ B.erase z := fun h => hy (mem_of_mem_erase h)
    have hmiss : 0 ≤ p - icm s ps (insert y (B.erase z)) y :=
      sub_nonneg.mpr ((icm_le_headD hs hps.tail hyz).trans hps.headD_le)
    have hmore := ih hps.tail hxz hyz
    have hz := (hs z).le
    gcongr

/-- A larger stack never expects less. -/
theorem icm_mono (hs : ∀ z, 0 < s z) (hps : Payable ps) (hx : x ∈ A) (hy : y ∈ A)
    (hxy : s x ≤ s y) : icm s ps A x ≤ icm s ps A y := by
  induction ps generalizing A with
  | nil => exact le_rfl
  | cons p ps ih =>
    by_cases heq : x = y
    · rw [heq]
    have htotal : 0 < ∑ a ∈ A, s a := sum_pos (fun z _ => hs z) ⟨x, hx⟩
    have hrest : ∑ z ∈ (A.erase x).erase y, s z / (∑ a ∈ A, s a) * icm s ps (A.erase z) x ≤
        ∑ z ∈ (A.erase x).erase y, s z / (∑ a ∈ A, s a) * icm s ps (A.erase z) y := by
      refine sum_le_sum fun z hz => ?_
      obtain ⟨hzy, hz⟩ := mem_erase.mp hz
      have hzx := (mem_erase.mp hz).1
      refine mul_le_mul_of_nonneg_left ?_ (div_nonneg (hs z).le htotal.le)
      exact ih hps.tail (mem_erase.mpr ⟨hzx.symm, hx⟩) (mem_erase.mpr ⟨hzy.symm, hy⟩)
    -- the rest of the field, without the two
    set B := (A.erase x).erase y with hB
    have hBx : x ∉ B := fun h => (mem_erase.mp (mem_erase.mp h).2).1 rfl
    have hBy : y ∉ B := fun h => (mem_erase.mp h).1 rfl
    have hAx : A.erase x = insert y B := (insert_erase (mem_erase.mpr ⟨Ne.symm heq, hy⟩)).symm
    have hAy : A.erase y = insert x B := by
      rw [hB, erase_right_comm, insert_erase (mem_erase.mpr ⟨heq, hx⟩)]
    have hown := icm_insert_le_icm_insert hs hps.tail hxy hBx hBy
    have hhead := (icm_le_headD hs hps.tail hBx).trans hps.headD_le
    have hpair : p * s x + s y * icm s ps (insert x B) x ≤
        p * s y + s x * icm s ps (insert y B) y := by
      have hlead : 0 ≤ (p - icm s ps (insert x B) x) * (s y - s x) :=
        mul_nonneg (sub_nonneg.mpr hhead) (sub_nonneg.mpr hxy)
      have hgain := mul_le_mul_of_nonneg_left hown (hs x).le
      linarith
    have hBx' : (A.erase y).erase x = B := erase_right_comm
    rw [icm_cons_pair s p ps hy heq, icm_cons_pair s p ps hx (Ne.symm heq), ← hB, hBx', hAx, hAy]
    refine add_le_add ?_ hrest
    have hdiv := div_le_div_of_nonneg_right hpair htotal.le
    calc p * (s x / ∑ a ∈ A, s a) + s y / (∑ a ∈ A, s a) * icm s ps (insert x B) x
        = (p * s x + s y * icm s ps (insert x B) x) / ∑ a ∈ A, s a := by ring
      _ ≤ (p * s y + s x * icm s ps (insert y B) y) / ∑ a ∈ A, s a := hdiv
      _ = p * (s y / ∑ a ∈ A, s a) + s x / (∑ a ∈ A, s a) * icm s ps (insert y B) y := by ring

end Order
