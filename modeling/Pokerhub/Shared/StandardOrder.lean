import Mathlib.Data.List.Sort
import Mathlib.Data.List.Dedup
import Mathlib.Data.List.Sublists
import Mathlib.Order.Lex

/-!
# The standard poker order

What a hand ranking is for, stated without the program's score: a five-card hand belongs to the
strongest category it meets, hands of one category compare by their tie-break ranks, and a
longer hand is worth the best five cards in it. A card `c` has rank `c / 4` (12 is the ace) and
suit `c % 4`.
-/

namespace Pokerhub.Standard

inductive Category where
  | highCard | pair | twoPair | threeOfAKind | straight | flush | fullHouse | fourOfAKind
  | straightFlush
  deriving DecidableEq, Repr

/-- The standard order of the categories. -/
def Category.strength : Category → ℕ
  | .highCard => 0
  | .pair => 1
  | .twoPair => 2
  | .threeOfAKind => 3
  | .straight => 4
  | .flush => 5
  | .fullHouse => 6
  | .fourOfAKind => 7
  | .straightFlush => 8

def Category.highToLow : List Category :=
  [.straightFlush, .fourOfAKind, .fullHouse, .flush, .straight, .threeOfAKind, .twoPair, .pair,
    .highCard]

/-- The ranks of a hand, high to low. -/
def ranks (hand : List ℕ) : List ℕ :=
  (hand.map (· / 4)).insertionSort (· ≥ ·)

/-- All cards are of one suit. -/
def IsFlush (hand : List ℕ) : Prop :=
  ∀ c ∈ hand, ∀ d ∈ hand, c % 4 = d % 4

instance (hand : List ℕ) : Decidable (IsFlush hand) :=
  inferInstanceAs (Decidable (∀ c ∈ hand, ∀ d ∈ hand, c % 4 = d % 4))

/-- Five consecutive ranks ending in `top`, or the wheel, whose top is the five. -/
def IsStraightTo (rs : List ℕ) (top : ℕ) : Prop :=
  (4 ≤ top ∧ ∀ k < 5, top - k ∈ rs) ∨ (top = 3 ∧ ∀ r ∈ [12, 0, 1, 2, 3], r ∈ rs)

instance (rs : List ℕ) (top : ℕ) : Decidable (IsStraightTo rs top) :=
  inferInstanceAs (Decidable
    ((4 ≤ top ∧ ∀ k < 5, top - k ∈ rs) ∨ (top = 3 ∧ ∀ r ∈ [12, 0, 1, 2, 3], r ∈ rs)))

def straightTop (rs : List ℕ) : Option ℕ :=
  (List.range 13).find? fun top => IsStraightTo rs top

/-- Some rank occurs exactly `k` times. -/
def HasKind (rs : List ℕ) (k : ℕ) : Prop :=
  ∃ r ∈ rs, rs.count r = k

instance (rs : List ℕ) (k : ℕ) : Decidable (HasKind rs k) :=
  inferInstanceAs (Decidable (∃ r ∈ rs, rs.count r = k))

/-- The defining property of each category, given the ranks and whether the suits agree. -/
def Meets (rs : List ℕ) (flush : Prop) : Category → Prop
  | .straightFlush => flush ∧ (straightTop rs).isSome
  | .fourOfAKind => HasKind rs 4
  | .fullHouse => HasKind rs 3 ∧ HasKind rs 2
  | .flush => flush
  | .straight => (straightTop rs).isSome
  | .threeOfAKind => HasKind rs 3
  | .twoPair => ∃ r ∈ rs, ∃ s ∈ rs, r ≠ s ∧ rs.count r = 2 ∧ rs.count s = 2
  | .pair => HasKind rs 2
  | .highCard => True

instance (rs : List ℕ) (flush : Prop) [Decidable flush] (k : Category) :
    Decidable (Meets rs flush k) :=
  match k with
  | .straightFlush => inferInstanceAs (Decidable (flush ∧ (straightTop rs).isSome))
  | .fourOfAKind => inferInstanceAs (Decidable (HasKind rs 4))
  | .fullHouse => inferInstanceAs (Decidable (HasKind rs 3 ∧ HasKind rs 2))
  | .flush => inferInstanceAs (Decidable flush)
  | .straight => inferInstanceAs (Decidable ((straightTop rs).isSome = true))
  | .threeOfAKind => inferInstanceAs (Decidable (HasKind rs 3))
  | .twoPair => inferInstanceAs (Decidable
      (∃ r ∈ rs, ∃ s ∈ rs, r ≠ s ∧ rs.count r = 2 ∧ rs.count s = 2))
  | .pair => inferInstanceAs (Decidable (HasKind rs 2))
  | .highCard => inferInstanceAs (Decidable True)

/-- The strongest category met. -/
def categoryOf (rs : List ℕ) (flush : Prop) [Decidable flush] : Category :=
  (Category.highToLow.find? fun k => Meets rs flush k).getD .highCard

/-- The more frequent rank comes first; of two equally frequent ones, the higher. -/
def Before (rs : List ℕ) (a b : ℕ) : Prop :=
  rs.count b < rs.count a ∨ (rs.count a = rs.count b ∧ b ≤ a)

instance (rs : List ℕ) : DecidableRel (Before rs) := fun a b =>
  inferInstanceAs (Decidable (rs.count b < rs.count a ∨ (rs.count a = rs.count b ∧ b ≤ a)))

/-- The distinct ranks, the more frequent first. -/
def groups (rs : List ℕ) : List ℕ :=
  rs.dedup.insertionSort (Before rs)

/-- What decides between hands of one category. -/
def tieBreak (rs : List ℕ) : Category → List ℕ
  | .straightFlush | .straight => [(straightTop rs).getD 0]
  | _ => groups rs

def category (hand : List ℕ) : Category :=
  categoryOf (ranks hand) (IsFlush hand)

/-- The value of a five-card hand under an order of the categories: the place of its category,
then its tie-break ranks. Values compare lexicographically. -/
def value (place : Category → ℕ) (hand : List ℕ) : List ℕ :=
  place (category hand) :: tieBreak (ranks hand) (category hand)

/-- The best five-card value in a hand of any size. -/
def best (place : Category → ℕ) (hand : List ℕ) : List ℕ :=
  ((hand.sublistsLen 5).map (value place)).foldr max []

end Pokerhub.Standard
