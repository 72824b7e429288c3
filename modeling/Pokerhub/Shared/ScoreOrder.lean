import Mathlib.Data.List.GetD
import Pokerhub.Core.Maximum
import Pokerhub.Core.Positional
import Pokerhub.Shared.Classification

/-!
# The order of the scores

`score` encodes the tie-break ranks after the number of the category, one base-15 digit each. As
the categories carry different numbers of ranks, the scores order them as in `scorePlace`, not
as in the standard order (`score_lt_score_iff`). `evaluateHand` returns the greatest score of
five of the cards (`evaluateHand_le_iff`), hence compares hands as the standard order would with
its categories rearranged (`evaluateHand_compare`), and compares them correctly exactly when the
rearrangement does not matter to them (`evaluateHand_correct_iff`).
-/

namespace Pokerhub

open Standard List

/-- The order in which the scores place the categories. -/
def scorePlace : Category → ℕ
  | .straight => 0
  | .straightFlush => 1
  | .fullHouse => 2
  | .fourOfAKind => 3
  | .twoPair => 4
  | .threeOfAKind => 5
  | .pair => 6
  | .highCard => 7
  | .flush => 8

/-- Five distinct cards. -/
structure IsFive (five : List ℕ) : Prop where
  length : five.length = 5
  nodup : five.Nodup
  cards : ∀ c ∈ five, c < 52

/-! ### Five cards -/

lemma score_eq_positional {five : List ℕ} (h : IsFive five) :
    score (evaluate5 five) =
      positional BASE (toHandRank (category five)).toNat
        (tieBreak (ranks five) (category five)) := by
  rw [evaluate5_eq h.length h.nodup h.cards]
  rfl

lemma tieBreak_lt {five : List ℕ} (h : IsFive five) :
    ∀ k ∈ tieBreak (ranks five) (category five), k < BASE := by
  intro k hk
  have := tieBreak_le h.cards _ k hk
  unfold BASE
  omega

/-- Where the scores of a category begin. -/
def bandStart : Category → ℕ
  | .straight => 4 * 15
  | .straightFlush => 8 * 15
  | .fullHouse => 6 * 15 ^ 2
  | .fourOfAKind => 7 * 15 ^ 2
  | .twoPair => 2 * 15 ^ 3
  | .threeOfAKind => 3 * 15 ^ 3
  | .pair => 15 ^ 4
  | .highCard => 4 * 15 ^ 4
  | .flush => 5 * 15 ^ 5

/-- Where the scores of a category end. -/
def bandEnd : Category → ℕ
  | .straight => 5 * 15
  | .straightFlush => 9 * 15
  | .fullHouse => 7 * 15 ^ 2
  | .fourOfAKind => 8 * 15 ^ 2
  | .twoPair => 3 * 15 ^ 3
  | .threeOfAKind => 4 * 15 ^ 3
  | .pair => 2 * 15 ^ 4
  | .highCard => 15 ^ 5
  | .flush => 6 * 15 ^ 5

lemma positional_mem_band {k : Category} {ts : List ℕ} (hshape : TieShape k ts)
    (hdigits : ∀ t ∈ ts, t < BASE) :
    bandStart k ≤ positional BASE (toHandRank k).toNat ts ∧
      positional BASE (toHandRank k).toNat ts < bandEnd k := by
  have hlow := mul_pow_le_positional BASE (toHandRank k).toNat ts
  have hhigh := positional_lt_mul_pow (s := (toHandRank k).toNat) hdigits
  rw [hshape.length] at hlow hhigh
  cases k with
  | highCard =>
    -- the category itself contributes nothing, its first rank does
    match ts, hshape.length with
    | t :: ts, hlength =>
      have hlead : 4 ≤ t := hshape.lead rfl
      have hts : ts.length = 4 := by simpa [kickerCount] using hlength
      have hrest := mul_pow_le_positional BASE (0 * BASE + t) ts
      simp only [hts, BASE, toHandRank, HandRank.toNat, kickerCount, positional_cons, bandStart,
        bandEnd] at *
      omega
  | _ =>
    simp only [toHandRank, HandRank.toNat, kickerCount, BASE, bandStart, bandEnd] at *
    omega

/-- Every score lies in the band of its category. -/
lemma score_mem_band {five : List ℕ} (h : IsFive five) :
    bandStart (category five) ≤ score (evaluate5 five) ∧
      score (evaluate5 five) < bandEnd (category five) := by
  rw [score_eq_positional h]
  exact positional_mem_band (classify_hand h.length h.nodup h.cards).2 (tieBreak_lt h)

/-- The bands are disjoint, in the order of `scorePlace`. -/
lemma bandEnd_le_bandStart {k l : Category} (h : scorePlace k < scorePlace l) :
    bandEnd k ≤ bandStart l := by
  revert h
  cases k <;> cases l <;> decide

lemma scorePlace_injective : Function.Injective scorePlace := by
  intro k l h
  revert h
  cases k <;> cases l <;> decide

/-- Scores compare as the hands do when categories are ordered by `scorePlace`. -/
theorem score_lt_score_iff {five five' : List ℕ} (h : IsFive five) (h' : IsFive five') :
    score (evaluate5 five) < score (evaluate5 five') ↔
      value scorePlace five < value scorePlace five' := by
  have hband := score_mem_band h
  have hband' := score_mem_band h'
  simp only [value, cons_lt_cons_iff]
  rcases lt_trichotomy (scorePlace (category five)) (scorePlace (category five')) with
    hlt | heq | hgt
  · have := bandEnd_le_bandStart hlt
    exact iff_of_true (by omega) (Or.inl hlt)
  · have hk := scorePlace_injective heq
    have hlen : (tieBreak (ranks five) (category five)).length =
        (tieBreak (ranks five') (category five')).length := by
      rw [(classify_hand h.length h.nodup h.cards).2.length,
        (classify_hand h'.length h'.nodup h'.cards).2.length, hk]
    rw [score_eq_positional h, score_eq_positional h',
      positional_lt_positional_iff hlen (tieBreak_lt h) (tieBreak_lt h'), cons_lt_cons_iff, hk]
    simp
  · have := bandEnd_le_bandStart hgt
    refine iff_of_false (by omega) ?_
    rintro (hlt | ⟨heq, _⟩) <;> omega

/-! ### The best five of up to seven cards -/

lemma forRange_le_iff {lo hi : ℕ} {body : ℕ → ℕ → ℕ} {P : ℕ → Prop} {x b : ℕ}
    (hbody : ∀ i b, body i b ≤ x ↔ b ≤ x ∧ P i) :
    forRange lo hi body b ≤ x ↔ b ≤ x ∧ ∀ i, lo ≤ i → i < hi → P i := by
  have hfold : ∀ (l : List ℕ) b, l.foldl (fun best x => body x best) b ≤ x ↔
      b ≤ x ∧ ∀ i ∈ l, P i := by
    intro l
    induction l with
    | nil => simp
    | cons i l ih =>
      intro b
      simp only [foldl_cons, ih, hbody, mem_cons, forall_eq_or_imp, and_assoc]
  rw [forRange, hfold]
  refine and_congr_right fun _ => forall_congr' fun i => ?_
  rw [mem_range'_1]
  constructor
  · exact fun h hlo hhi => h ⟨hlo, by omega⟩
  · exact fun h hi => h hi.1 (by omega)

lemma forRange_max_le_iff {lo hi x b : ℕ} (val : ℕ → ℕ) :
    forRange lo hi (fun m best => if val m > best then val m else best) b ≤ x ↔
      b ≤ x ∧ ∀ m, lo ≤ m → m < hi → val m ≤ x := by
  refine forRange_le_iff fun m b => ?_
  split <;> omega

/-- Five nested loops over increasing indices visit every choice of five. -/
lemma forRange_five_le_iff {n x : ℕ} (val : ℕ → ℕ → ℕ → ℕ → ℕ → ℕ) :
    forRange 0 (n - 4) (fun i =>
      forRange (i + 1) (n - 3) (fun j =>
        forRange (j + 1) (n - 2) (fun k =>
          forRange (k + 1) (n - 1) (fun l =>
            forRange (l + 1) n (fun m best =>
              if val i j k l m > best then val i j k l m else best))))) 0 ≤ x ↔
      ∀ i j k l m, i < j → j < k → k < l → l < m → m < n → val i j k l m ≤ x := by
  have hnested : forRange 0 (n - 4) (fun i =>
      forRange (i + 1) (n - 3) (fun j =>
        forRange (j + 1) (n - 2) (fun k =>
          forRange (k + 1) (n - 1) (fun l =>
            forRange (l + 1) n (fun m best =>
              if val i j k l m > best then val i j k l m else best))))) 0 ≤ x ↔
      0 ≤ x ∧ ∀ i, 0 ≤ i → i < n - 4 → ∀ j, i + 1 ≤ j → j < n - 3 →
        ∀ k, j + 1 ≤ k → k < n - 2 → ∀ l, k + 1 ≤ l → l < n - 1 →
          ∀ m, l + 1 ≤ m → m < n → val i j k l m ≤ x :=
    forRange_le_iff fun i _ => forRange_le_iff fun j _ => forRange_le_iff fun k _ =>
      forRange_le_iff fun l _ => forRange_max_le_iff (val i j k l)
  rw [hnested]
  constructor
  · rintro ⟨_, h⟩ i j k l m hij hjk hkl hlm hm
    exact h i (by omega) (by omega) j hij (by omega) k hjk (by omega) l hkl (by omega) m hlm hm
  · exact fun h => ⟨by omega, fun i _ _ j hij _ k hjk _ l hkl _ m hlm hm =>
      h i j k l m hij hjk hkl hlm hm⟩

/-- A sublist that starts with `a` takes `a` at some index and the rest after it. -/
lemma cons_sublist_drop_iff {cards : List ℕ} {lo a : ℕ} {l : List ℕ} :
    a :: l <+ cards.drop lo ↔
      ∃ i, lo ≤ i ∧ i < cards.length ∧ a = cards.getD i 0 ∧ l <+ cards.drop (i + 1) := by
  constructor
  · intro h
    obtain ⟨r₁, r₂, hr, ha, hl⟩ := cons_sublist_iff.mp h
    obtain ⟨k, hk, rfl⟩ := getElem_of_mem ha
    have hlen := congrArg length hr
    simp only [length_drop, length_append] at hlen
    refine ⟨lo + k, by omega, by omega, ?_, ?_⟩
    · have hget : (cards.drop lo).getD k 0 = r₁.getD k 0 := by
        rw [hr, getD_append _ _ _ _ hk]
      rw [getD_eq_getElem _ _ hk] at hget
      simp [← hget, getD_eq_getElem?_getD]
    · have hdrop : cards.drop (lo + k + 1) = r₁.drop (k + 1) ++ r₂ := by
        rw [Nat.add_assoc, ← drop_drop, hr, drop_append_of_le_length (by omega)]
      rw [hdrop]
      exact hl.trans (sublist_append_right _ _)
  · rintro ⟨i, hlo, hi, rfl, hl⟩
    have hcons : cards.getD i 0 :: cards.drop (i + 1) = cards.drop i := by
      rw [drop_eq_getElem_cons hi, getD_eq_getElem _ _ hi]
    have hsub : cards.drop i <+ cards.drop lo := drop_sublist_drop_left _ hlo
    exact (hl.cons_cons _).trans (hcons ▸ hsub)

/-- The five loops visit every choice of five cards. -/
lemma evaluateHand_le_iff {cards : List ℕ} (hlen : 5 ≤ cards.length) :
    ∃ r, evaluateHand cards = some r ∧
      ∀ x, r ≤ x ↔ ∀ five ∈ cards.sublistsLen 5, score (evaluate5 five) ≤ x := by
  refine ⟨_, by rw [evaluateHand, if_neg (by omega)], fun x => ?_⟩
  refine (forRange_five_le_iff fun i j k l m => score (evaluate5 [cards.getD i 0,
    cards.getD j 0, cards.getD k 0, cards.getD l 0, cards.getD m 0])).trans ?_
  simp only [mem_sublistsLen, and_imp]
  constructor
  · intro h five hsub hfive
    match five, hfive with
    | [a, b, c, d, e], _ =>
      have hsub₀ : [a, b, c, d, e] <+ cards.drop 0 := by simpa using hsub
      obtain ⟨i, _, hi, rfl, h₁⟩ := cons_sublist_drop_iff.mp hsub₀
      obtain ⟨j, hij, hj, rfl, h₂⟩ := cons_sublist_drop_iff.mp h₁
      obtain ⟨k, hjk, hk, rfl, h₃⟩ := cons_sublist_drop_iff.mp h₂
      obtain ⟨l, hkl, hl, rfl, h₄⟩ := cons_sublist_drop_iff.mp h₃
      obtain ⟨m, hlm, hm, rfl, _⟩ := cons_sublist_drop_iff.mp h₄
      exact h i j k l m hij hjk hkl hlm hm
  · intro h i j k l m hij hjk hkl hlm hm
    refine h _ ?_ rfl
    have h₅ : ([] : List ℕ) <+ cards.drop (m + 1) := nil_sublist _
    have h₄ := cons_sublist_drop_iff.mpr ⟨m, hlm, hm, rfl, h₅⟩
    have h₃ := cons_sublist_drop_iff.mpr ⟨l, hkl, by omega, rfl, h₄⟩
    have h₂ := cons_sublist_drop_iff.mpr ⟨k, hjk, by omega, rfl, h₃⟩
    have h₁ := cons_sublist_drop_iff.mpr ⟨j, hij, by omega, rfl, h₂⟩
    have h₀ := cons_sublist_drop_iff.mpr ⟨i, Nat.zero_le i, by omega, rfl, h₁⟩
    simpa using h₀

/-- `evaluateHand` is the greatest score of five of the cards. -/
lemma evaluateHand_eq {cards : List ℕ} (hlen : 5 ≤ cards.length) :
    evaluateHand cards =
      some (((cards.sublistsLen 5).map fun five => score (evaluate5 five)).foldr max 0) := by
  obtain ⟨r, hr, hle⟩ := evaluateHand_le_iff hlen
  have hmax : ∀ x, ((cards.sublistsLen 5).map fun five => score (evaluate5 five)).foldr max 0 ≤ x ↔
      ∀ five ∈ cards.sublistsLen 5, score (evaluate5 five) ≤ x := by
    intro x
    simp only [foldr_max_le_iff, Nat.zero_le, true_and, forall_mem_map]
  rw [hr, Option.some.injEq]
  exact le_antisymm ((hle _).mpr ((hmax _).mp le_rfl)) ((hmax _).mpr ((hle _).mp le_rfl))

/-- A hand as it is shown down: five to seven distinct cards. -/
structure IsHand (cards : List ℕ) : Prop where
  five_le : 5 ≤ cards.length
  le_seven : cards.length ≤ 7
  nodup : cards.Nodup
  cards : ∀ c ∈ cards, c < 52

instance (cards : List ℕ) : Decidable (IsHand cards) :=
  decidable_of_iff (5 ≤ cards.length ∧ cards.length ≤ 7 ∧ cards.Nodup ∧ ∀ c ∈ cards, c < 52)
    ⟨fun h => ⟨h.1, h.2.1, h.2.2.1, h.2.2.2⟩, fun h => ⟨h.1, h.2, h.3, h.4⟩⟩

lemma IsHand.isFive {cards five : List ℕ} (h : IsHand cards) (hfive : five ∈ cards.sublistsLen 5) :
    IsFive five := by
  obtain ⟨hsub, hlen⟩ := mem_sublistsLen.mp hfive
  exact ⟨hlen, h.nodup.sublist hsub, fun c hc => h.cards c (hsub.subset hc)⟩

lemma IsHand.sublistsLen_ne_nil {cards : List ℕ} (h : IsHand cards) :
    cards.sublistsLen 5 ≠ [] := by
  have hpos : 0 < (cards.sublistsLen 5).length := by
    rw [length_sublistsLen]
    exact Nat.choose_pos h.five_le
  exact length_pos_iff.mp hpos

/-- Two pairs of values stand in the same order. -/
def ComparesAlike {α β : Type*} [LT α] [LT β] (x y : α) (x' y' : β) : Prop :=
  (y < x ↔ y' < x') ∧ (x = y ↔ x' = y')

instance {α β : Type*} [LT α] [LT β] [DecidableLT α] [DecidableLT β] [DecidableEq α]
    [DecidableEq β] (x y : α) (x' y' : β) : Decidable (ComparesAlike x y x' y') :=
  inferInstanceAs (Decidable ((y < x ↔ y' < x') ∧ (x = y ↔ x' = y')))

lemma ComparesAlike.iff_right {α β γ : Type*} [LT α] [LT β] [LT γ] {x y : α} {x' y' : β}
    (h : ComparesAlike x y x' y') {x'' y'' : γ} :
    ComparesAlike x y x'' y'' ↔ ComparesAlike x' y' x'' y'' := by
  unfold ComparesAlike at *
  rw [h.1, h.2]

lemma evaluateHand_lt_iff {A B : List ℕ} (hA : IsHand A) (hB : IsHand B) {a b : ℕ}
    (ha : evaluateHand A = some a) (hb : evaluateHand B = some b) :
    a < b ↔ best scorePlace A < best scorePlace B := by
  rw [evaluateHand_eq hA.five_le, Option.some.injEq] at ha
  rw [evaluateHand_eq hB.five_le, Option.some.injEq] at hb
  subst ha hb
  have hfive : ∀ z ∈ A.sublistsLen 5 ++ B.sublistsLen 5, IsFive z := by
    intro z hz
    rcases mem_append.mp hz with hz | hz
    · exact hA.isFive hz
    · exact hB.isFive hz
  exact foldr_max_map_lt_iff hA.sublistsLen_ne_nil hB.sublistsLen_ne_nil
    (fun _ _ => Nat.zero_le _) (fun _ _ => not_lt.mp (List.not_lt_nil _))
    fun x hx y hy => score_lt_score_iff (hfive x hx) (hfive y hy)

/-- `evaluateHand` orders hands as the standard order does once its categories are rearranged. -/
theorem evaluateHand_comparesAlike {A B : List ℕ} (hA : IsHand A) (hB : IsHand B) {a b : ℕ}
    (ha : evaluateHand A = some a) (hb : evaluateHand B = some b) :
    ComparesAlike a b (best scorePlace A) (best scorePlace B) := by
  have hab := evaluateHand_lt_iff hA hB ha hb
  have hba := evaluateHand_lt_iff hB hA hb ha
  refine ⟨hba, ?_⟩
  rw [eq_iff_le_not_lt, eq_iff_le_not_lt, ← not_lt, ← not_lt, hab, hba]

/-- The scores of two hands compare as their best five-card hands do in the standard order. -/
def RankedCorrectly (A B : List ℕ) : Prop :=
  ∃ a b, evaluateHand A = some a ∧ evaluateHand B = some b ∧
    ComparesAlike a b (best Category.strength A) (best Category.strength B)

lemma rankedCorrectly_iff {A B : List ℕ} (hA : IsHand A) (hB : IsHand B) :
    RankedCorrectly A B ↔
      ComparesAlike (best scorePlace A) (best scorePlace B) (best Category.strength A)
        (best Category.strength B) := by
  have ha := evaluateHand_eq hA.five_le
  have hb := evaluateHand_eq hB.five_le
  have halike := evaluateHand_comparesAlike hA hB ha hb
  constructor
  · rintro ⟨a', b', ha', hb', h⟩
    exact (evaluateHand_comparesAlike hA hB ha' hb').iff_right.mp h
  · exact fun h => ⟨_, _, ha, hb, halike.iff_right.mpr h⟩

lemma strength_injective : Function.Injective Category.strength := by
  intro k l h
  revert h
  cases k <;> cases l <;> decide

lemma best_five {place : Category → ℕ} {hand : List ℕ} (h : hand.length = 5) :
    best place hand = value place hand := by
  have hself : hand.sublistsLen 5 = [hand] := by rw [← h, sublistsLen_length]
  rw [best, hself]
  exact max_eq_left (not_lt.mp (List.not_lt_nil _))

lemma comparesAlike_value {place : Category → ℕ} (hplace : Function.Injective place)
    {A B : List ℕ} (h : category A ≠ category B) :
    ComparesAlike (value place A) (value place B) (place (category A)) (place (category B)) := by
  have hne : place (category A) ≠ place (category B) := fun h' => h (hplace h')
  simp [ComparesAlike, value, cons_lt_cons_iff, hne, hne.symm]

/-- Five-card hands are ranked correctly exactly when their categories stand the same way round
in both orders. -/
theorem rankedCorrectly_iff_of_five {A B : List ℕ} (hA : IsHand A) (hB : IsHand B)
    (hA₅ : A.length = 5) (hB₅ : B.length = 5) :
    RankedCorrectly A B ↔
      ComparesAlike (scorePlace (category A)) (scorePlace (category B)) (category A).strength
        (category B).strength := by
  rw [rankedCorrectly_iff hA hB, best_five hA₅, best_five hB₅, best_five hA₅, best_five hB₅]
  by_cases h : category A = category B
  · simp [ComparesAlike, value, h]
  · rw [(comparesAlike_value scorePlace_injective h).iff_right]
    have hright := comparesAlike_value strength_injective h
    unfold ComparesAlike at *
    rw [hright.1, hright.2]

/-- Two hands are ranked correctly exactly when they compare alike under the order of the
categories that the scores induce and under the standard one. -/
theorem evaluateHand_correct_iff {A B : List ℕ} (hA : IsHand A) (hB : IsHand B) :
    RankedCorrectly A B ↔
      ComparesAlike (best scorePlace A) (best scorePlace B) (best Category.strength A)
        (best Category.strength B) :=
  rankedCorrectly_iff hA hB

/-- The condition is met, for example, by two flushes. -/
theorem evaluateHand_correct_flushes :
    RankedCorrectly [48, 40, 32, 24, 16] [49, 41, 33, 25, 13] :=
  (evaluateHand_correct_iff (by decide) (by decide)).mpr (by decide +kernel)

/-- A six-high straight scores below an ace-high hand without a pair. -/
theorem straight_below_highCard :
    ¬ ∀ A B, IsHand A → IsHand B → RankedCorrectly A B := by
  intro h
  obtain ⟨a, b, ha, hb, hlt, _⟩ :=
    h [16, 15, 10, 5, 0] [48, 41, 34, 27, 16] (by decide) (by decide)
  have hscore : evaluateHand [16, 15, 10, 5, 0] = some 64 ∧
      evaluateHand [48, 41, 34, 27, 16] = some 643144 := by decide +kernel
  have hstandard : best Category.strength [48, 41, 34, 27, 16] <
      best Category.strength [16, 15, 10, 5, 0] := by decide +kernel
  obtain rfl : 64 = a := by simpa [hscore.1] using ha
  obtain rfl : 643144 = b := by simpa [hscore.2] using hb
  exact absurd (hlt.mpr hstandard) (by decide)

end Pokerhub
