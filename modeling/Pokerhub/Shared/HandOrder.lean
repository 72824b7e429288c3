import Mathlib.Algebra.BigOperators.Group.List.Lemmas
import Mathlib.Order.Lattice.Nat
import Pokerhub.Shared.ScoreOrder

/-!
# The values of hands

`evaluate5` and `evaluateHand` as a whole. Five cards get their strongest category and kickers that
order hands as the standard order does; two hands have one value when their ranks agree and both
or neither are flushes (`evaluate5_standard`). More cards get the greatest score of five of them,
in whatever order they are held (`evaluateHand_isGreatest`).
-/

namespace Pokerhub

namespace Standard

/-- The category of a hand: it is met, and no stronger one is. -/
structure IsStrongest (hand : List ℕ) (k : Category) : Prop where
  meets : Meets (ranks hand) (IsFlush hand) k
  strongest : ∀ l, Meets (ranks hand) (IsFlush hand) l → l.strength ≤ k.strength

/-- Hands that no rule of the game tells apart. -/
def RankEquivalent (A B : List ℕ) : Prop :=
  ranks A = ranks B ∧ (IsFlush A ↔ IsFlush B)

end Standard

/-- `v` comes before `w`: by category first, then by kickers, lexicographically. -/
def HandValue.Below (v w : HandValue) : Prop :=
  v.rank.toNat < w.rank.toNat ∨ (v.rank.toNat = w.rank.toNat ∧ v.kickers < w.kickers)

open Standard List

/-! ### The order of the cards -/

lemma ranks_perm {A B : List ℕ} (h : A ~ B) : ranks A = ranks B := by
  have hperm : ranks A ~ ranks B :=
    ((perm_insertionSort _ _).trans (h.map _)).trans (perm_insertionSort _ _).symm
  exact hperm.eq_of_pairwise (fun _ _ _ _ h h' => le_antisymm h' h)
    (pairwise_insertionSort _ _) (pairwise_insertionSort _ _)

lemma isFlush_perm {A B : List ℕ} (h : A ~ B) : IsFlush A ↔ IsFlush B := by
  simp only [IsFlush, h.mem_iff]

/-- The value reads the sorted ranks and whether the suits agree. -/
lemma evaluate5_classify (hand : List ℕ) :
    evaluate5 hand = classify (ranks hand) (decide (IsFlush hand)) := by
  simp only [evaluate5, isFlush_iff]
  rfl

lemma evaluate5_of_rankEquivalent {A B : List ℕ} (h : RankEquivalent A B) :
    evaluate5 A = evaluate5 B := by
  simp only [evaluate5_classify, h.1, h.2]

lemma evaluate5_perm {A B : List ℕ} (h : A ~ B) : evaluate5 A = evaluate5 B :=
  evaluate5_of_rankEquivalent ⟨ranks_perm h, isFlush_perm h⟩

/-! ### The category -/

@[simp] lemma toNat_toHandRank (k : Category) : (toHandRank k).toNat = k.strength := by
  cases k <;> rfl

lemma toHandRank_injective : Function.Injective toHandRank := by
  intro k l h
  revert h
  cases k <;> cases l <;> decide

/-- In a list by decreasing strength the first category met is the strongest one met. -/
lemma find?_strongest {p : Category → Prop} [DecidablePred p] {ks : List Category} {k l : Category}
    (hks : ks.Pairwise fun k l => l.strength ≤ k.strength)
    (hk : ks.find? (fun k => p k) = some k) (hl : l ∈ ks) (hpl : p l) :
    l.strength ≤ k.strength := by
  induction ks with
  | nil => simp at hl
  | cons x ks ih =>
    rw [pairwise_cons] at hks
    rw [find?_cons_decide] at hk
    split_ifs at hk with hx
    · obtain rfl : x = k := by simpa using hk
      rcases mem_cons.mp hl with rfl | hl
      · exact le_rfl
      · exact hks.1 l hl
    · rcases mem_cons.mp hl with rfl | hl
      · exact absurd hpl hx
      · exact ih hks.2 hk hl

lemma isStrongest_category (hand : List ℕ) : IsStrongest hand (category hand) := by
  have hmem : ∀ l, l ∈ Category.highToLow := by
    intro l
    cases l <;> decide
  have hsorted : Category.highToLow.Pairwise fun k l => l.strength ≤ k.strength := by decide
  cases hfind : Category.highToLow.find? fun k => Meets (ranks hand) (IsFlush hand) k with
  | none => exact absurd (decide_eq_true trivial) (find?_eq_none.mp hfind .highCard (hmem _))
  | some k =>
    have hk : category hand = k := by rw [category, categoryOf, hfind, Option.getD_some]
    rw [hk]
    refine ⟨by simpa using find?_some hfind, fun l hl => ?_⟩
    exact find?_strongest hsorted hfind (hmem l) hl

lemma Standard.IsStrongest.eq {hand : List ℕ} {k l : Category} (hk : IsStrongest hand k)
    (hl : IsStrongest hand l) : k = l :=
  strength_injective (le_antisymm (hl.strongest k hk.meets) (hk.strongest l hl.meets))

/-! ### What the category says about the hand -/

lemma sum_kinds (rs : List ℕ) : (kinds rs).sum = rs.length := by
  have hperm : kinds rs ~ rs.dedup.map fun r => rs.count r :=
    (perm_insertionSort _ _).map _
  rw [hperm.sum_nat, sum_map_count_dedup_eq_length]

lemma pos_of_mem_kinds {rs : List ℕ} {k : ℕ} (h : k ∈ kinds rs) : 0 < k := by
  obtain ⟨r, hr, rfl⟩ := mem_map.mp h
  exact count_pos_iff.mpr (mem_groups.mp hr)

lemma kinds_pairwise (rs : List ℕ) : (kinds rs).Pairwise (· ≥ ·) := by
  rw [kinds, pairwise_map]
  refine (groups_pairwise rs).imp fun h => ?_
  unfold Before at h
  omega

lemma kinds_of_nodup {rs : List ℕ} (h : rs.Nodup) : ∀ k ∈ kinds rs, k = 1 := by
  intro k hk
  obtain ⟨r, hr, rfl⟩ := mem_map.mp hk
  exact count_eq_one_of_mem h (mem_groups.mp hr)

/-- How often the ranks occur in a hand of a category. -/
def Standard.Category.kinds : Category → List ℕ
  | .straightFlush | .flush | .straight | .highCard => [1, 1, 1, 1, 1]
  | .fourOfAKind => [4, 1]
  | .fullHouse => [3, 2]
  | .threeOfAKind => [3, 1, 1]
  | .twoPair => [2, 2, 1]
  | .pair => [2, 1, 1, 1]

/-- The ways to split five cards by rank; four suits leave out five of a kind. -/
lemma kinds_cases {hand : List ℕ} (h : IsFive hand) :
    kinds (ranks hand) ∈ [[1, 1, 1, 1, 1], [2, 1, 1, 1], [2, 2, 1], [3, 1, 1], [3, 2], [4, 1]] := by
  have hsum : (kinds (ranks hand)).sum = 5 := by
    rw [sum_kinds, ranks, length_insertionSort, length_map, h.length]
  have hpos : ∀ k ∈ kinds (ranks hand), 0 < k := fun k => pos_of_mem_kinds
  have hsorted := kinds_pairwise (ranks hand)
  have hne : kinds (ranks hand) ≠ [5] := by
    intro h₅
    obtain ⟨r, hr, -⟩ := map_eq_singleton_iff.mp h₅
    refine not_all_one_rank h.length h.nodup r fun c hc => ?_
    have hmem : c / 4 ∈ groups (ranks hand) := by
      rw [mem_groups, ranks, mem_insertionSort]
      exact mem_map_of_mem hc
    simpa [hr] using hmem
  generalize kinds (ranks hand) = ks at *
  rcases ks with _ | ⟨a, _ | ⟨b, _ | ⟨c, _ | ⟨d, _ | ⟨e, _ | ⟨f, ks⟩⟩⟩⟩⟩⟩
  · simp at hsum
  · simp_all
  · simp at hsum hpos hsorted ⊢
    omega
  · simp at hsum hpos hsorted ⊢
    omega
  · simp at hsum hpos hsorted ⊢
    omega
  · simp at hsum hpos hsorted ⊢
    omega
  · simp at hsum hpos hsorted
    omega

lemma not_nodup_of_kinds {rs : List ℕ} {k : ℕ} (hk : k ∈ kinds rs) (hne : k ≠ 1) : ¬ rs.Nodup :=
  fun h => hne (kinds_of_nodup h k hk)

lemma kinds_eq {hand : List ℕ} (h : IsFive hand) :
    kinds (ranks hand) = (category hand).kinds := by
  have hlen : (ranks hand).length = 5 := by rw [ranks, length_insertionSort, length_map, h.length]
  have hplain : ∀ k ∈ kinds (ranks hand), k ≠ 1 →
      ¬ IsFlush hand ∧ straightTop (ranks hand) = none := by
    intro k hk hne
    have hrepeat := not_nodup_of_kinds hk hne
    exact ⟨fun hf => hrepeat (IsFlush.nodup_ranks hf h.nodup), straightTop_eq_none hlen hrepeat⟩
  have hcases := kinds_cases h
  simp only [mem_cons, not_mem_nil, or_false] at hcases
  rcases hcases with hk | hk | hk | hk | hk | hk
  · rw [category, categoryOf_eq, hk]
    split_ifs <;> first | rfl | simp_all
  all_goals
    obtain ⟨hflush, htop⟩ := hplain _ (hk ▸ mem_cons_self) (by decide)
    rw [category, categoryOf_eq, hk]
    simp [hflush, htop, kindCategory, Category.kinds]

/-- The category tells the flushes from the other hands. -/
lemma isFlush_iff_category {hand : List ℕ} (h : IsFive hand) :
    IsFlush hand ↔ category hand = .flush ∨ category hand = .straightFlush := by
  rw [category, categoryOf_eq]
  by_cases hflush : IsFlush hand
  · have hones := kinds_of_nodup (IsFlush.nodup_ranks hflush h.nodup)
    have h₄ : 4 ∉ kinds (ranks hand) := fun hk => by simpa using hones 4 hk
    have h₃ : 3 ∉ kinds (ranks hand) := fun hk => by simpa using hones 3 hk
    by_cases htop : (straightTop (ranks hand)).isSome <;> simp [hflush, h₄, h₃, htop]
  · simp only [hflush, false_and, if_false, kindCategory]
    split_ifs <;> simp

/-- It tells the straights, too. -/
lemma isSome_straightTop_of_category {hand : List ℕ}
    (h : category hand = .straight ∨ category hand = .straightFlush) :
    (straightTop (ranks hand)).isSome := by
  rw [category, categoryOf_eq] at h
  by_contra htop
  simp only [htop, and_false, if_false, kindCategory] at h
  split_ifs at h <;> simp at h

/-! ### Ties -/

/-- Ranks are determined by their groups and the sizes of these. -/
lemma perm_of_groups {rs rs' : List ℕ} (hgroups : groups rs = groups rs')
    (hkinds : kinds rs = kinds rs') : rs ~ rs' := by
  refine perm_iff_count.mpr fun r => ?_
  by_cases hr : r ∈ groups rs
  · unfold kinds at hkinds
    rw [← hgroups] at hkinds
    exact map_inj_left.mp hkinds r hr
  · have hr' : r ∉ groups rs' := hgroups ▸ hr
    rw [mem_groups] at hr hr'
    rw [count_eq_zero_of_not_mem hr, count_eq_zero_of_not_mem hr']

/-- The ranks of a straight. -/
def straightRanks (top : ℕ) : List ℕ :=
  if 4 ≤ top then [0, 1, 2, 3, 4].map fun k => top - k else [12, 0, 1, 2, 3]

/-- Five ranks that make a straight are determined by its top. -/
lemma perm_straightRanks {rs : List ℕ} (hlen : rs.length = 5) {top : ℕ}
    (h : straightTop rs = some top) : rs ~ straightRanks top := by
  have hstraight : IsStraightTo rs top := by
    unfold straightTop at h
    simpa using find?_some h
  have hnodup : (straightRanks top).Nodup := by
    unfold straightRanks
    split_ifs
    · simp
      omega
    · decide
  have hsubset : straightRanks top ⊆ rs := by
    intro r hr
    unfold straightRanks at hr
    rcases hstraight with ⟨hle, hranks⟩ | ⟨rfl, hranks⟩
    · rw [if_pos hle] at hr
      obtain ⟨k, hk, rfl⟩ := mem_map.mp hr
      exact hranks k (by simp at hk; omega)
    · exact hranks r (by simpa using hr)
  have hlength : (straightRanks top).length = 5 := by
    unfold straightRanks
    split_ifs <;> rfl
  exact ((subperm_of_subset hnodup hsubset).perm_of_length_le (by omega)).symm

lemma ranks_eq_of_perm {A B : List ℕ} (h : ranks A ~ ranks B) : ranks A = ranks B :=
  h.eq_of_pairwise (fun _ _ _ _ h h' => le_antisymm h' h) (pairwise_insertionSort _ _)
    (pairwise_insertionSort _ _)

lemma ranks_eq_of_tieBreak {A B : List ℕ} (hA : IsFive A) (hB : IsFive B)
    (hk : category A = category B)
    (h : tieBreak (ranks A) (category A) = tieBreak (ranks B) (category A)) :
    ranks A = ranks B := by
  have hlen : ∀ {C}, IsFive C → (ranks C).length = 5 := fun hC => by
    rw [ranks, length_insertionSort, length_map, hC.length]
  refine ranks_eq_of_perm ?_
  by_cases hstraight : category A = .straight ∨ category A = .straightFlush
  · obtain ⟨t, ht⟩ := Option.isSome_iff_exists.mp (isSome_straightTop_of_category hstraight)
    obtain ⟨u, hu⟩ := Option.isSome_iff_exists.mp
      (isSome_straightTop_of_category (hk ▸ hstraight))
    obtain rfl : t = u := by
      rcases hstraight with hcat | hcat <;> simpa [tieBreak, hcat, ht, hu] using h
    exact (perm_straightRanks (hlen hA) ht).trans (perm_straightRanks (hlen hB) hu).symm
  · have hgroups : ∀ rs, tieBreak rs (category A) = groups rs := by
      intro rs
      cases hcat : category A <;> simp_all [tieBreak]
    rw [hgroups, hgroups] at h
    exact perm_of_groups h (by rw [kinds_eq hA, kinds_eq hB, hk])

/-- Two hands have one value exactly when no rule tells them apart. -/
lemma evaluate5_eq_iff {A B : List ℕ} (hA : IsFive A) (hB : IsFive B) :
    evaluate5 A = evaluate5 B ↔ RankEquivalent A B := by
  refine ⟨fun h => ?_, evaluate5_of_rankEquivalent⟩
  rw [evaluate5_eq hA.length hA.nodup hA.cards, evaluate5_eq hB.length hB.nodup hB.cards,
    HandValue.mk.injEq] at h
  have hk : category A = category B := toHandRank_injective h.1
  refine ⟨ranks_eq_of_tieBreak hA hB hk (hk ▸ h.2), ?_⟩
  rw [isFlush_iff_category hA, isFlush_iff_category hB, hk]

lemma below_iff {A B : List ℕ} (hA : IsFive A) (hB : IsFive B) :
    (evaluate5 A).Below (evaluate5 B) ↔ value Category.strength A < value Category.strength B := by
  rw [evaluate5_eq hA.length hA.nodup hA.cards, evaluate5_eq hB.length hB.nodup hB.cards]
  simp only [HandValue.Below, toNat_toHandRank, value, cons_lt_cons_iff]

/-- Five distinct cards get the one strongest category that they meet; category and kickers order
hands as the standard order does, with ties exactly between hands that no rule tells apart; and
the order of the cards does not matter. -/
theorem evaluate5_standard {A B : List ℕ} (hA : IsFive A) (hB : IsFive B) :
    (∃! k, IsStrongest A k) ∧
      (∀ k, IsStrongest A k → (evaluate5 A).rank = toHandRank k) ∧
      ((evaluate5 A).Below (evaluate5 B) ↔
        value Category.strength A < value Category.strength B) ∧
      (evaluate5 A = evaluate5 B ↔ RankEquivalent A B) ∧
      ∀ A', A' ~ A → evaluate5 A' = evaluate5 A := by
  refine ⟨⟨category A, isStrongest_category A, fun k hk => hk.eq (isStrongest_category A)⟩, ?_,
    below_iff hA hB, evaluate5_eq_iff hA hB, fun A' h => evaluate5_perm h⟩
  intro k hk
  rw [evaluate5_eq hA.length hA.nodup hA.cards, hk.eq (isStrongest_category A)]

/-- The steel wheel is the lowest straight flush. -/
theorem steelWheel_below :
    (evaluate5 [48, 0, 4, 8, 12]).Below (evaluate5 [4, 8, 12, 16, 0]) :=
  (evaluate5_standard ⟨rfl, by decide, by decide⟩ ⟨rfl, by decide, by decide⟩).2.2.1.mpr
    (by decide +kernel)

/-! ### More than five cards -/

/-- The scores of five of the cards. -/
def fiveScores (cards : List ℕ) : Set ℕ :=
  {s | ∃ five, five <+ cards ∧ five.length = 5 ∧ score (evaluate5 five) = s}

lemma fiveScores_nonempty {cards : List ℕ} (hlen : 5 ≤ cards.length) :
    (fiveScores cards).Nonempty :=
  ⟨_, cards.take 5, take_sublist 5 cards, by rw [length_take]; omega, rfl⟩

/-- Cards held in another order, among others, give the same scores again. -/
lemma fiveScores_subset {cards cards' : List ℕ} (h : cards <+~ cards') :
    fiveScores cards ⊆ fiveScores cards' := by
  rintro s ⟨five, hsub, hfive, rfl⟩
  obtain ⟨five', hperm, hsub'⟩ := hsub.subperm.trans h
  exact ⟨five', hsub', hperm.length_eq.trans hfive, by rw [evaluate5_perm hperm]⟩

lemma isGreatest_evaluateHand {cards : List ℕ} (hlen : 5 ≤ cards.length) :
    ∃ r, evaluateHand cards = some r ∧ IsGreatest (fiveScores cards) r := by
  obtain ⟨r, hr, hle⟩ := evaluateHand_le_iff hlen
  have hbound : ∀ x, r ≤ x ↔ x ∈ upperBounds (fiveScores cards) := by
    intro x
    rw [hle]
    constructor
    · rintro h s ⟨five, hsub, hfive, rfl⟩
      exact h five (mem_sublistsLen.mpr ⟨hsub, hfive⟩)
    · intro h five hfive
      obtain ⟨hsub, hlength⟩ := mem_sublistsLen.mp hfive
      exact h ⟨five, hsub, hlength, rfl⟩
  have hlub : IsLUB (fiveScores cards) r := ⟨(hbound r).mp le_rfl, fun x hx => (hbound x).mpr hx⟩
  have hmem := Nat.sSup_mem (fiveScores_nonempty hlen) ⟨r, hlub.1⟩
  rw [hlub.csSup_eq (fiveScores_nonempty hlen)] at hmem
  exact ⟨r, hr, hmem, hlub.1⟩

lemma evaluateHand_mono {cards cards' : List ℕ} (hlen : 5 ≤ cards.length) (h : cards <+~ cards') :
    ∃ r r', evaluateHand cards = some r ∧ evaluateHand cards' = some r' ∧ r ≤ r' := by
  obtain ⟨r, hr, hgreatest⟩ := isGreatest_evaluateHand hlen
  obtain ⟨r', hr', hgreatest'⟩ := isGreatest_evaluateHand (hlen.trans h.length_le)
  exact ⟨r, r', hr, hr', hgreatest'.2 (fiveScores_subset h hgreatest.1)⟩

lemma evaluateHand_perm {cards cards' : List ℕ} (hlen : 5 ≤ cards.length) (h : cards' ~ cards) :
    evaluateHand cards' = evaluateHand cards := by
  obtain ⟨r, hr, hgreatest⟩ := isGreatest_evaluateHand hlen
  obtain ⟨r', hr', hgreatest'⟩ := isGreatest_evaluateHand (hlen.trans h.symm.length_eq.le)
  have hscores : fiveScores cards' = fiveScores cards :=
    (fiveScores_subset h.subperm).antisymm (fiveScores_subset h.symm.subperm)
  rw [hscores] at hgreatest'
  rw [hr, hr', hgreatest.unique hgreatest']

/-- A hand of five or more cards is worth the greatest score of five of them, in whatever order
the cards are held; a further card never makes it worth less. -/
theorem evaluateHand_isGreatest {cards : List ℕ} (hlen : 5 ≤ cards.length) :
    (∃ r, evaluateHand cards = some r ∧ IsGreatest (fiveScores cards) r) ∧
      (∀ cards', cards' ~ cards → evaluateHand cards' = evaluateHand cards) ∧
      ∀ c cards', cards' ~ c :: cards →
        ∃ r r', evaluateHand cards = some r ∧ evaluateHand cards' = some r' ∧ r ≤ r' := by
  refine ⟨isGreatest_evaluateHand hlen, fun cards' h => evaluateHand_perm hlen h, ?_⟩
  intro c cards' h
  exact evaluateHand_mono hlen ((sublist_cons_self c cards).subperm.trans h.symm.subperm)

theorem evaluateHand_isGreatest_flop :
    ∃ r, evaluateHand [48, 44, 40, 36, 32, 1, 2] = some r ∧
      IsGreatest (fiveScores [48, 44, 40, 36, 32, 1, 2]) r :=
  (evaluateHand_isGreatest (by decide)).1

end Pokerhub
