import Mathlib.Data.List.Sort
import Mathlib.Data.List.Dedup

/-!
# Hand evaluation

`score`, `evaluate5` and `evaluateHand` of `sidePots.ts`. A card `c` has rank `c / 4` (12 is the
ace) and suit `c % 4`.
-/

namespace Pokerhub

inductive HandRank where
  | highCard | pair | twoPair | threeOfAKind | straight | flush | fullHouse | fourOfAKind
  | straightFlush
  deriving DecidableEq, Repr

/-- The numbers of the `HandRank` enumeration. -/
def HandRank.toNat : HandRank → ℕ
  | .highCard => 0
  | .pair => 1
  | .twoPair => 2
  | .threeOfAKind => 3
  | .straight => 4
  | .flush => 5
  | .fullHouse => 6
  | .fourOfAKind => 7
  | .straightFlush => 8

structure HandValue where
  rank : HandRank
  /-- Ranks, high to low. -/
  kickers : List ℕ
  deriving DecidableEq, Repr

def BASE : ℕ := 15

def score (value : HandValue) : ℕ :=
  value.kickers.foldl (fun s k => s * BASE + k) value.rank.toNat

/-- The window loop over the sorted distinct ranks, then the wheel; `none` is the source's
`-1`. -/
def straightHigh (unique : List ℕ) : Option ℕ :=
  let windows := (List.range (unique.length - 4)).foldl (fun high i =>
    let seq := (unique.drop i).take 5
    if seq.getD 4 0 - seq.getD 0 0 = 4 then some (seq.getD 4 0) else high) none
  if windows = none ∧ 12 ∈ unique ∧ 0 ∈ unique ∧ 1 ∈ unique ∧ 2 ∈ unique ∧ 3 ∈ unique then
    some 3
  else windows

/-- `countMap.set(r, (countMap.get(r) ?? 0) + 1)`, on the entries in insertion order. -/
def bump (r : ℕ) : List (ℕ × ℕ) → List (ℕ × ℕ)
  | [] => [(r, 1)]
  | e :: es => if e.1 = r then (r, e.2 + 1) :: es else e :: bump r es

/-- The comparator of `counts`: higher count first, then higher rank. -/
def countsBefore (a b : ℕ × ℕ) : Prop :=
  if b.2 ≠ a.2 then b.2 ≤ a.2 else b.1 ≤ a.1

instance : DecidableRel countsBefore := fun a b =>
  inferInstanceAs (Decidable (if b.2 ≠ a.2 then b.2 ≤ a.2 else b.1 ≤ a.1))

/-- The part of `evaluate5` after the ranks are sorted and the suits compared. -/
def classify (ranks : List ℕ) (isFlush : Bool) : HandValue :=
  let unique := ranks.dedup.insertionSort (· ≤ ·)
  let high := straightHigh unique
  let counts := (ranks.foldl (fun m r => bump r m) []).insertionSort countsBefore
  let c₀ := counts.getD 0 (0, 0)
  -- `counts[1]?.[1]` is `undefined` when there is no second entry; no test accepts 0 either
  let c₁ := counts.getD 1 (0, 0)
  if high.isSome ∧ isFlush then ⟨.straightFlush, [high.getD 0]⟩
  else if c₀.2 = 4 then
    ⟨.fourOfAKind, [c₀.1, (ranks.find? (fun r => r ≠ c₀.1)).getD 0]⟩
  else if c₀.2 = 3 ∧ c₁.2 = 2 then ⟨.fullHouse, [c₀.1, c₁.1]⟩
  else if isFlush then ⟨.flush, ranks⟩
  else if high.isSome then ⟨.straight, [high.getD 0]⟩
  else if c₀.2 = 3 then
    ⟨.threeOfAKind, c₀.1 :: (ranks.filter (fun r => r ≠ c₀.1)).take 2⟩
  else if c₀.2 = 2 ∧ c₁.2 = 2 then
    let highPair := max c₀.1 c₁.1
    let lowPair := min c₀.1 c₁.1
    let kicker := (ranks.find? (fun r => r ≠ highPair ∧ r ≠ lowPair)).getD 0
    ⟨.twoPair, [highPair, lowPair, kicker]⟩
  else if c₀.2 = 2 then
    ⟨.pair, c₀.1 :: (ranks.filter (fun r => r ≠ c₀.1)).take 3⟩
  else ⟨.highCard, ranks.take 5⟩

def evaluate5 (cards : List ℕ) : HandValue :=
  let ranks := (cards.map (· / 4)).insertionSort (· ≥ ·)
  let suits := cards.map (· % 4)
  let isFlush := suits.all fun s => s == suits.getD 0 0
  classify ranks isFlush

/-- `for (let x = lo; x < hi; x++) body`, threading the best score so far. -/
def forRange (lo hi : ℕ) (body : ℕ → ℕ → ℕ) (best : ℕ) : ℕ :=
  (List.range' lo (hi - lo)).foldl (fun best x => body x best) best

/-- The best score over the five-card hands of `cards`; `none` when it throws. -/
def evaluateHand (cards : List ℕ) : Option ℕ :=
  let n := cards.length
  let card := fun x => cards.getD x 0
  if n < 5 then none
  else some <|
    forRange 0 (n - 4) (fun i =>
      forRange (i + 1) (n - 3) (fun j =>
        forRange (j + 1) (n - 2) (fun k =>
          forRange (k + 1) (n - 1) (fun l =>
            forRange (l + 1) n (fun m best =>
              let val := score (evaluate5 [card i, card j, card k, card l, card m])
              if val > best then val else best))))) 0

end Pokerhub
