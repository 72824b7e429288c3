import Mathlib.Algebra.BigOperators.Group.Finset.Piecewise
import Mathlib.Algebra.Order.BigOperators.Group.Finset
import Mathlib.Data.Fintype.Basic

/-!
# Levelling piles

Tokens are moved one at a time, each from the first of the largest piles to a smallest one, where
it is fixed. The moves stop when the piles are level, or when the first of the largest piles has
fixed tokens only. Another largest pile may have loose tokens then; whether it comes to this can
be told from the piles before the moves (`Levelled.settled_iff`).
-/

/-- Piles of tokens, some of which are fixed. -/
structure Piles (ι : Type*) where
  size : ι → ℕ
  fixed : ι → ℕ
  fixed_le : ∀ i, fixed i ≤ size i

namespace Piles

variable {ι : Type*} {p q r : Piles ι}

/-- The sizes differ by at most one. -/
def Level (p : Piles ι) : Prop :=
  ∀ i k, p.size i ≤ p.size k + 1

def Largest (p : Piles ι) (i : ι) : Prop :=
  ∀ k, p.size k ≤ p.size i

/-- No largest pile has a loose token. -/
def Settled (p : Piles ι) : Prop :=
  ∀ i, p.Largest i → p.fixed i = p.size i

lemma Largest.size_eq {a j : ι} (ha : p.Largest a) (hj : p.Largest j) : p.size j = p.size a :=
  le_antisymm (ha j) (hj a)

lemma exists_gap (h : ¬ p.Level) {a : ι} (ha : p.Largest a) : ∃ k, p.size k + 2 ≤ p.size a := by
  simp only [Level, not_forall, not_le] at h
  obtain ⟨i, k, hik⟩ := h
  exact ⟨k, hik.trans_le (ha i)⟩

section Order

variable [LinearOrder ι]

structure FirstLargest (p : Piles ι) (a : ι) : Prop where
  largest : p.Largest a
  first : ∀ k < a, p.size k < p.size a

/-- The first of the piles with the most fixed tokens. -/
structure FirstFixed (p : Piles ι) (b : ι) : Prop where
  most : ∀ k, p.fixed k ≤ p.fixed b
  first : ∀ k < b, p.fixed k < p.fixed b

lemma FirstFixed.eq {a b : ι} (ha : p.FirstFixed a) (hb : p.FirstFixed b) : a = b := by
  rcases lt_trichotomy a b with h | h | h
  · exact absurd (ha.most b) (not_le.mpr (hb.first a h))
  · exact h
  · exact absurd (hb.most a) (not_le.mpr (ha.first b h))

/-- A loose token goes from the pile `a` to the pile `m`. -/
structure Move (p : Piles ι) (a m : ι) (q : Piles ι) : Prop where
  firstLargest : p.FirstLargest a
  smallest : ∀ k, p.size m ≤ p.size k
  gap : p.size m + 2 ≤ p.size a
  loose : p.fixed a < p.size a
  size_from : q.size a + 1 = p.size a
  size_to : q.size m = p.size m + 1
  size_other : ∀ k, k ≠ a → k ≠ m → q.size k = p.size k
  fixed_to : q.fixed m = p.fixed m + 1
  fixed_other : ∀ k, k ≠ m → q.fixed k = p.fixed k

lemma Move.ne {a m : ι} (h : p.Move a m q) : a ≠ m := by
  rintro rfl
  have := h.gap
  omega

/-- The moves stop at the first of the largest piles. -/
def Stuck (p : Piles ι) : Prop :=
  ∃ a, p.FirstLargest a ∧ p.fixed a = p.size a

lemma Move.size_cases {a m : ι} (h : p.Move a m q) (k : ι) :
    k = a ∧ q.size k + 1 = p.size k ∨ k = m ∧ q.size k = p.size k + 1 ∨
      k ≠ a ∧ k ≠ m ∧ q.size k = p.size k := by
  by_cases hka : k = a
  · subst hka
    exact Or.inl ⟨rfl, h.size_from⟩
  · by_cases hkm : k = m
    · subst hkm
      exact Or.inr (Or.inl ⟨rfl, h.size_to⟩)
    · exact Or.inr (Or.inr ⟨hka, hkm, h.size_other k hka hkm⟩)

/-- The smallest pile before the move is as small as any pile after it. -/
lemma Move.smallest_le {a m : ι} (h : p.Move a m q) (k : ι) : p.size m ≤ q.size k := by
  have hgap := h.gap
  have hmin := h.smallest k
  rcases h.size_cases k with ⟨rfl, hk⟩ | ⟨rfl, hk⟩ | ⟨-, -, hk⟩
  · omega
  · omega
  · omega

/-- The largest pile before the move is as large as any pile after it. -/
lemma Move.le_largest {a m : ι} (h : p.Move a m q) (k : ι) : q.size k ≤ p.size a := by
  have hgap := h.gap
  have hmax := h.firstLargest.largest k
  rcases h.size_cases k with ⟨rfl, hk⟩ | ⟨rfl, hk⟩ | ⟨-, -, hk⟩
  · omega
  · omega
  · omega

lemma Move.sum_size [Fintype ι] {a m : ι} (h : p.Move a m q) :
    ∑ i, q.size i = ∑ i, p.size i := by
  have hpoint : ∀ k, q.size k + (if k = a then 1 else 0) = p.size k + if k = m then 1 else 0 := by
    intro k
    rcases h.size_cases k with ⟨rfl, hk⟩ | ⟨rfl, hk⟩ | ⟨hka, hkm, hk⟩
    · rw [if_pos rfl, if_neg h.ne, hk]
      rfl
    · rw [if_neg h.ne.symm, if_pos rfl, hk]
    · rw [if_neg hka, if_neg hkm, hk]
  have hsum := Finset.sum_congr rfl fun k (_ : k ∈ Finset.univ) => hpoint k
  rw [Finset.sum_add_distrib, Finset.sum_add_distrib, Finset.sum_ite_eq', Finset.sum_ite_eq',
    if_pos (Finset.mem_univ a), if_pos (Finset.mem_univ m)] at hsum
  exact Nat.add_right_cancel hsum

end Order

/-! ### The piles after some moves -/

section Levelled

variable [Fintype ι] [LinearOrder ι]

/-- What some moves have done to the piles `p`. A pile that has grown is one of the smallest or
next to them, a pile that has shrunk is next to the largest. -/
structure Levelled (p q : Piles ι) : Prop where
  fixed_le_fixed : ∀ i, p.fixed i ≤ q.fixed i
  fixed_eq : ∀ i, q.size i ≤ p.size i → q.fixed i = p.fixed i
  grown : ∀ i, p.size i < q.size i → ∀ k, q.size i ≤ q.size k + 1
  shrunk : ∀ i, q.size i < p.size i → ∀ k, q.size k ≤ q.size i + 1
  /-- Only the piles before `b` get smaller than what is fixed in `b`. -/
  before : ∀ b, p.FirstFixed b → ∀ i, q.size i < p.size i → q.size i < p.fixed b → i < b
  sum_size : ∑ i, q.size i = ∑ i, p.size i

lemma Levelled.refl (p : Piles ι) : p.Levelled p where
  fixed_le_fixed _ := le_rfl
  fixed_eq _ _ := rfl
  grown _ h := absurd h (lt_irrefl _)
  shrunk _ h := absurd h (lt_irrefl _)
  before _ _ _ h := absurd h (lt_irrefl _)
  sum_size := rfl

lemma Levelled.fixed_le_size (h : p.Levelled q) (i : ι) : p.fixed i ≤ q.size i :=
  (h.fixed_le_fixed i).trans (q.fixed_le i)

/-- A largest pile has not grown, unless the piles are level. -/
lemma Levelled.largest_le (h : p.Levelled q) {a k : ι} (hgap : q.size k + 2 ≤ q.size a) :
    q.size a ≤ p.size a := by
  by_contra hlt
  have := h.grown a (not_le.mp hlt) k
  omega

/-- A smallest pile has not shrunk. -/
lemma Levelled.le_smallest (h : p.Levelled q) {a m : ι} (hgap : q.size m + 2 ≤ q.size a) :
    p.size m ≤ q.size m := by
  by_contra hlt
  have := h.shrunk m (not_le.mp hlt) a
  omega

lemma Levelled.move {a m : ι} (h : p.Levelled q) (hm : q.Move a m r) : p.Levelled r where
  fixed_le_fixed i := by
    by_cases him : i = m
    · subst him
      rw [hm.fixed_to]
      exact (h.fixed_le_fixed i).trans (Nat.le_succ _)
    · rw [hm.fixed_other i him]
      exact h.fixed_le_fixed i
  fixed_eq i hi := by
    rcases hm.size_cases i with ⟨rfl, hsize⟩ | ⟨rfl, hsize⟩ | ⟨-, him, hsize⟩
    · rw [hm.fixed_other i hm.ne]
      exact h.fixed_eq i (h.largest_le hm.gap)
    · have := h.le_smallest hm.gap
      omega
    · rw [hm.fixed_other i him]
      exact h.fixed_eq i (hsize ▸ hi)
  grown i hi k := by
    have hk := hm.smallest_le k
    rcases hm.size_cases i with ⟨rfl, hsize⟩ | ⟨rfl, hsize⟩ | ⟨-, -, hsize⟩
    · have := h.largest_le hm.gap
      omega
    · omega
    · have := h.grown i (hsize ▸ hi) m
      omega
  shrunk i hi k := by
    have hk := hm.le_largest k
    rcases hm.size_cases i with ⟨rfl, hsize⟩ | ⟨rfl, hsize⟩ | ⟨-, -, hsize⟩
    · omega
    · have := h.le_smallest hm.gap
      omega
    · have := h.shrunk i (hsize ▸ hi) a
      omega
  before b hb i hi hlt := by
    rcases hm.size_cases i with ⟨rfl, hsize⟩ | ⟨rfl, hsize⟩ | ⟨-, -, hsize⟩
    · -- the pile `b` cannot get that small, so it is a largest one too, and a later one
      have hfixed := h.fixed_le_size b
      have hmax := hm.firstLargest.largest b
      rcases lt_trichotomy i b with hib | rfl | hib
      · exact hib
      · have := h.fixed_le_fixed i
        have := hm.loose
        omega
      · have := hm.firstLargest.first b hib
        omega
    · have := h.le_smallest hm.gap
      omega
    · exact h.before b hb i (hsize ▸ hi) (hsize ▸ hlt)
  sum_size := hm.sum_size.trans h.sum_size

/-! ### Where the moves stop -/

/-- The tokens that the pile `i` gives before the moves get to `b`. -/
def surplus (p : Piles ι) (b i : ι) : ℕ :=
  (p.size i - p.fixed b) + if i < b ∧ p.fixed b ≤ p.size i then 1 else 0

/-- The tokens that the pile `i` lacks to be next to `b`. -/
def deficit (p : Piles ι) (b i : ι) : ℕ :=
  p.fixed b - 1 - p.size i

/-- A pile after `b`, the first one with the most fixed tokens, is as large and has a loose one,
and what the piles give before the moves get to `b` is not enough for the small ones. -/
def Stalls (p : Piles ι) : Prop :=
  ∃ b, p.FirstFixed b ∧ (∃ j, b < j ∧ p.fixed b ≤ p.size j ∧ p.fixed j < p.fixed b) ∧
    ∑ i, p.surplus b i < ∑ i, p.deficit b i

instance (p : Piles ι) (b : ι) : Decidable (p.FirstFixed b) :=
  decidable_of_iff ((∀ k, p.fixed k ≤ p.fixed b) ∧ ∀ k < b, p.fixed k < p.fixed b)
    ⟨fun h => ⟨h.1, h.2⟩, fun h => ⟨h.most, h.first⟩⟩

instance (p : Piles ι) : Decidable p.Stalls :=
  inferInstanceAs (Decidable (∃ _, _))

/-- The first of the largest piles is the one that had the most fixed tokens from the start. -/
lemma Levelled.firstFixed (h : p.Levelled q) {a k : ι} (ha : q.FirstLargest a)
    (hstuck : q.fixed a = q.size a) (hgap : q.size k + 2 ≤ q.size a) :
    p.FirstFixed a ∧ p.fixed a = q.size a := by
  have hfixed : p.fixed a = q.size a := (h.fixed_eq a (h.largest_le hgap)).symm.trans hstuck
  refine ⟨⟨fun i => ?_, fun i hi => ?_⟩, hfixed⟩
  · rw [hfixed]
    exact (h.fixed_le_size i).trans (ha.largest i)
  · rw [hfixed]
    exact (h.fixed_le_size i).trans_lt (ha.first i hi)

variable {b : ι}

/-- When the piles are level, the tokens have been enough. -/
lemma Levelled.enough_of_level (h : p.Levelled q) (hb : p.FirstFixed b) (hlevel : q.Level) :
    ∑ i, p.deficit b i ≤ ∑ i, p.surplus b i := by
  have hpoint : ∀ i ∈ Finset.univ, p.deficit b i + p.size i ≤ p.surplus b i + q.size i := by
    intro i _
    rw [deficit, surplus]
    have hlow := (h.fixed_le_size b).trans (hlevel b i)
    by_cases hi : q.size i < p.fixed b ∧ p.fixed b ≤ p.size i
    · rw [if_pos ⟨h.before b hb i (hi.1.trans_le hi.2) hi.1, hi.2⟩]
      omega
    · omega
  have hsum := Finset.sum_le_sum hpoint
  rw [Finset.sum_add_distrib, Finset.sum_add_distrib, h.sum_size] at hsum
  exact Nat.le_of_add_le_add_right hsum

/-- When the moves stop at `b` before the piles are level, the tokens have not been enough. -/
lemma Levelled.not_enough (h : p.Levelled q) {k : ι} (hb : q.FirstLargest b)
    (hsize : p.fixed b = q.size b) (hgap : q.size k + 2 ≤ q.size b) :
    ∑ i, p.surplus b i < ∑ i, p.deficit b i := by
  have hpoint : ∀ i, p.surplus b i + q.size i ≤ p.deficit b i + p.size i := by
    intro i
    rw [deficit, surplus]
    have hmax := hb.largest i
    by_cases hgrown : p.size i < q.size i
    · have := h.grown i hgrown k
      rw [if_neg fun hi => absurd hi.2 (by omega)]
      omega
    · by_cases hi : i < b ∧ p.fixed b ≤ p.size i
      · have := hb.first i hi.1
        rw [if_pos hi]
        omega
      · rw [if_neg hi]
        omega
  have hstrict : p.surplus b k + q.size k < p.deficit b k + p.size k := by
    rw [deficit, surplus]
    have := h.le_smallest hgap
    rw [if_neg fun hk => absurd hk.2 (by omega)]
    omega
  have hsum := Finset.sum_lt_sum (fun i (_ : i ∈ Finset.univ) => hpoint i)
    ⟨k, Finset.mem_univ k, hstrict⟩
  rw [Finset.sum_add_distrib, Finset.sum_add_distrib, h.sum_size] at hsum
  exact Nat.lt_of_add_lt_add_right hsum

/-- The moves end with level piles or with nothing loose in the largest ones, unless the piles
stall them. -/
theorem Levelled.settled_iff (h : p.Levelled q) (hstop : q.Level ∨ q.Stuck) :
    q.Level ∨ q.Settled ↔ ¬ p.Stalls := by
  constructor
  · rintro hgood ⟨b, hb, ⟨j, hbj, hsize, hloose⟩, hsum⟩
    have hnot : ¬ q.Level := fun hlevel => absurd hsum (not_lt.mpr (h.enough_of_level hb hlevel))
    obtain ⟨a, ha, hstuck⟩ := hstop.resolve_left hnot
    obtain ⟨k, hgap⟩ := exists_gap hnot ha.largest
    obtain ⟨hfirst, hfixed⟩ := h.firstFixed ha hstuck hgap
    obtain rfl : a = b := hfirst.eq hb
    have hle : q.size j ≤ p.size j := (ha.largest j).trans (hfixed ▸ hsize)
    have hmax : q.size j = q.size a := by
      refine le_antisymm (ha.largest j) (not_lt.mp fun hlt => ?_)
      have hja := h.before a hb j (hlt.trans_le (hfixed ▸ hsize)) (hfixed ▸ hlt)
      exact absurd hbj (not_lt.mpr hja.le)
    have hall := hgood.resolve_left hnot j fun k => hmax ▸ ha.largest k
    rw [h.fixed_eq j hle, hmax, ← hfixed] at hall
    exact absurd hall hloose.ne
  · intro hstalls
    by_contra hbad
    rw [not_or] at hbad
    obtain ⟨a, ha, hstuck⟩ := hstop.resolve_left hbad.1
    obtain ⟨k, hgap⟩ := exists_gap hbad.1 ha.largest
    obtain ⟨hfirst, hfixed⟩ := h.firstFixed ha hstuck hgap
    have hunsettled := hbad.2
    simp only [Settled, not_forall] at hunsettled
    obtain ⟨j, hj, hne⟩ := hunsettled
    have hmax : q.size j = q.size a := ha.largest.size_eq hj
    have hle : q.size j ≤ p.size j := h.largest_le (k := k) (hmax ▸ hgap)
    refine hstalls ⟨a, hfirst, ⟨j, ?_, ?_, ?_⟩, h.not_enough ha hfixed hgap⟩
    · rcases lt_trichotomy a j with haj | rfl | haj
      · exact haj
      · exact absurd hstuck hne
      · exact absurd hmax (ha.first j haj).ne
    · rw [hfixed, ← hmax]
      exact hle
    · rw [hfixed, ← h.fixed_eq j hle, ← hmax]
      exact lt_of_le_of_ne (q.fixed_le j) hne

end Levelled

end Piles
