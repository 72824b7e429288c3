import Mathlib.Algebra.Order.Floor.Ring
import Mathlib.Data.Rat.Floor
import Mathlib.Tactic.FieldSimp
import Mathlib.Tactic.NormNum
import Pokerhub.Core.Numerals

/-!
# Bet sizing

The totals of `useBetting`, the ways to choose one in `BetInput`, and the test of `ActionControls`
on the chosen one, in exact arithmetic. A choice is snapped to a multiple of the big blind first and
clamped between the bounds then. It is always between the bounds and never more than the hero has,
but at a bound it is a multiple of the big blind only if the bound is (`betSizing_sound_iff`).
-/

namespace Pokerhub.Frontend

open List

structure Player where
  id : ℤ
  username : Text
  chips : ℕ
  committed : Option ℕ := none
  deriving DecidableEq

/-- What `useBetting` is given. -/
structure Table where
  players : List Player
  basePot : ℕ
  bigBlind : ℕ
  heroId : Option ℤ := none
  heroUsername : Option Text := none
  deriving DecidableEq

/-! ### The totals of a table -/

namespace Table

variable (t : Table)

def hero : Option Player :=
  match t.heroId, t.heroUsername with
  | some id, _ => t.players.find? (·.id = id)
  | none, some username => t.players.find? (·.username = username)
  | none, none => none

def commitments : List ℕ :=
  t.players.map fun p => p.committed.getD 0

def currentBet : ℕ :=
  t.commitments.foldr max 0

/-- The second of the commitments, the highest first. -/
def previousBetTo : ℕ :=
  (t.commitments.mergeSort (· ≥ ·)).getD 1 0

def heroCommitted : ℕ :=
  (t.hero.bind (·.committed)).getD 0

def callAmount : ℕ :=
  t.currentBet - t.heroCommitted

def lastRaiseSize : ℕ :=
  max t.bigBlind (t.currentBet - t.previousBetTo)

def minTotal : ℕ :=
  if 0 < t.callAmount then t.currentBet + t.lastRaiseSize else t.bigBlind

def pot : ℕ :=
  t.basePot + t.commitments.sum

def heroBehind : ℕ :=
  (t.hero.map (·.chips)).getD 0

def maxOppBehind : ℕ :=
  ((t.players.filter fun p => some p.id ≠ t.hero.map (·.id)).map (·.chips)).foldr max 0

def effective : ℕ :=
  min t.heroBehind t.maxOppBehind

def maxTotal : ℕ :=
  max t.minTotal (t.heroCommitted + t.effective)

/-- What `raiseTotal` is before it is set. -/
def initialTotal : ℕ :=
  max t.minTotal (if t.currentBet ≠ 0 then t.currentBet else t.bigBlind)

/-! ### Choosing a total -/

def snapBB (n : ℚ) : ℤ :=
  ⌊n / t.bigBlind + 1 / 2⌋ * t.bigBlind

def clampSnap (n : ℚ) : ℤ :=
  max t.minTotal (min t.maxTotal (t.snapBB n))

/-- `!isIllegal`. -/
def Legal (total : ℤ) : Prop :=
  t.minTotal ≤ total ∧ total ≤ t.maxTotal ∧ total % t.bigBlind = 0

instance (total : ℤ) : Decidable (t.Legal total) :=
  inferInstanceAs (Decidable (_ ∧ _))

end Table

/-- The text in the field, and the total. -/
structure BetInput where
  typed : Text
  sliderTotal : ℤ
  deriving DecidableEq

inductive BetEvent where
  | presetFrac (f : ℚ)
  | presetPot
  | presetAllIn
  | step (bbs : ℤ)
  | slide (n : ℚ)
  /-- Typing, up to the given text. -/
  | change (text : Text)
  | blur

namespace BetInput

variable (t : Table)

def init : BetInput where
  typed := Json.writeNumber t.initialTotal
  sliderTotal := t.initialTotal

def setTotal (n : ℚ) : BetInput where
  typed := Json.writeNumber (t.clampSnap n)
  sliderTotal := t.clampSnap n

def step (s : BetInput) : BetEvent → BetInput
  | .presetFrac f => setTotal t ((t.pot + t.callAmount) * f + t.currentBet)
  | .presetPot =>
    setTotal t (if 0 < t.callAmount then t.currentBet + 2 * t.callAmount + t.pot
      else max t.pot t.minTotal : ℕ)
  | .presetAllIn => setTotal t t.maxTotal
  | .step bbs => setTotal t (s.sliderTotal + bbs * t.bigBlind)
  | .slide n => setTotal t n
  | .change text => { s with typed := text }
  | .blur =>
    match toNumber s.typed with
    | some n => setTotal t n
    | none => { s with typed := Json.writeNumber s.sliderTotal }

def run (events : List BetEvent) : BetInput :=
  events.foldl (step t) (init t)

end BetInput

/-! ### Between the bounds -/

variable {t : Table}

lemma Table.minTotal_le_maxTotal (t : Table) : t.minTotal ≤ t.maxTotal :=
  le_max_left _ _

lemma Table.clampSnap_mem (t : Table) (n : ℚ) :
    t.minTotal ≤ t.clampSnap n ∧ t.clampSnap n ≤ t.maxTotal := by
  constructor
  · exact le_max_left _ _
  · exact max_le (by exact_mod_cast t.minTotal_le_maxTotal) (min_le_left _ _)

/-- The hero faces a bet, or has put in as much as anyone. -/
lemma Table.initialTotal_eq (t : Table) :
    t.initialTotal = if t.heroCommitted < t.currentBet then t.minTotal
      else max t.bigBlind t.currentBet := by
  rw [Table.initialTotal]
  split_ifs with hzero hfacing hfacing
  · have hmin : t.minTotal = t.currentBet + t.lastRaiseSize :=
      if_pos (Nat.sub_pos_of_lt hfacing)
    rw [hmin]
    omega
  · have hmin : t.minTotal = t.bigBlind :=
      if_neg (by rw [Table.callAmount]; omega)
    rw [hmin]
  · omega
  · have hmin : t.minTotal = t.bigBlind :=
      if_neg (by rw [Table.callAmount]; omega)
    rw [hmin]
    omega

lemma Table.initialTotal_le_maxTotal (t : Table) : t.initialTotal ≤ t.maxTotal := by
  rw [Table.initialTotal_eq]
  split_ifs with hfacing
  · exact t.minTotal_le_maxTotal
  · have hmin : t.minTotal = t.bigBlind :=
      if_neg (by rw [Table.callAmount]; omega)
    rw [Table.maxTotal, hmin]
    omega

/-- Every total is the first one or has been clamped. -/
lemma BetInput.run_total (events : List BetEvent) :
    (run t events).sliderTotal = t.initialTotal ∨
      ∃ n, (run t events).sliderTotal = t.clampSnap n := by
  refine List.foldlRecOn (motive := fun s : BetInput =>
    s.sliderTotal = t.initialTotal ∨ ∃ n, s.sliderTotal = t.clampSnap n)
    events (BetInput.step t) (Or.inl rfl) fun s hs event _ => ?_
  cases event with
  | change text => exact hs
  | blur =>
    rw [BetInput.step]
    cases toNumber s.typed with
    | some n => exact Or.inr ⟨n, rfl⟩
    | none => exact hs
  | presetFrac f => exact Or.inr ⟨_, rfl⟩
  | presetPot => exact Or.inr ⟨_, rfl⟩
  | presetAllIn => exact Or.inr ⟨_, rfl⟩
  | step bbs => exact Or.inr ⟨_, rfl⟩
  | slide n => exact Or.inr ⟨n, rfl⟩

lemma BetInput.run_mem (events : List BetEvent) :
    t.minTotal ≤ (run t events).sliderTotal ∧ (run t events).sliderTotal ≤ t.maxTotal := by
  rcases BetInput.run_total (t := t) events with h | ⟨n, h⟩
  · rw [h]
    constructor
    · exact_mod_cast le_max_left t.minTotal _
    · exact_mod_cast t.initialTotal_le_maxTotal
  · rw [h]
    exact t.clampSnap_mem n

/-! ### Multiples of the big blind -/

lemma Table.dvd_clampSnap (hmin : t.bigBlind ∣ t.minTotal) (hmax : t.bigBlind ∣ t.maxTotal)
    (n : ℚ) : (t.bigBlind : ℤ) ∣ t.clampSnap n := by
  rw [Table.clampSnap]
  rcases max_choice (t.minTotal : ℤ) (min t.maxTotal (t.snapBB n)) with h | h
  · rw [h]
    exact_mod_cast hmin
  · rw [h]
    rcases min_choice (t.maxTotal : ℤ) (t.snapBB n) with h' | h'
    · rw [h']
      exact_mod_cast hmax
    · rw [h']
      exact Dvd.intro_left _ rfl

lemma Table.snapBB_of_dvd (hbb : 0 < t.bigBlind) {n : ℕ} (h : t.bigBlind ∣ n) :
    t.snapBB n = n := by
  obtain ⟨k, rfl⟩ := h
  have hne : (t.bigBlind : ℚ) ≠ 0 := by exact_mod_cast hbb.ne'
  have hfloor : ⌊(((t.bigBlind * k : ℕ) : ℚ) / t.bigBlind + 1 / 2)⌋ = k := by
    rw [Nat.cast_mul, mul_div_cancel_left₀ _ hne, Int.floor_eq_iff]
    constructor
    · push_cast
      linarith
    · push_cast
      linarith
  rw [Table.snapBB, hfloor]
  push_cast
  ring

/-- The cap is chosen exactly when it is a multiple of the big blind. -/
lemma Table.clampSnap_maxTotal (hbb : 0 < t.bigBlind) (h : t.bigBlind ∣ t.maxTotal) :
    t.clampSnap t.maxTotal = t.maxTotal := by
  rw [Table.clampSnap, Table.snapBB_of_dvd hbb h, min_self, max_eq_right]
  exact_mod_cast t.minTotal_le_maxTotal

/-- What the hero has put in and has left. -/
def Player.total (hero : Player) : ℕ :=
  hero.committed.getD 0 + hero.chips

/-- Whatever is chosen is legal and not more than the hero has, and the all-in preset chooses the
cap. -/
def Sound (t : Table) (hero : Player) : Prop :=
  ∀ events, t.Legal (BetInput.run t events).sliderTotal ∧
    (BetInput.run t events).sliderTotal ≤ hero.total ∧
    (BetInput.run t (events ++ [.presetAllIn])).sliderTotal = t.maxTotal

/-- The lowest total that is offered first, and what the hero can put in against the others if that
is more, are multiples of the big blind. -/
def OnGrid (t : Table) (hero : Player) : Prop :=
  let highest := t.commitments.foldr max 0
  let second := (t.commitments.mergeSort (· ≥ ·)).getD 1 0
  let others := ((t.players.filter fun p => p.id ≠ hero.id).map (·.chips)).foldr max 0
  let committed := hero.committed.getD 0
  let lowest :=
    if committed < highest then highest + max t.bigBlind (highest - second)
    else max t.bigBlind highest
  let most := committed + min hero.chips others
  t.bigBlind ∣ lowest ∧ (most ≤ lowest ∨ t.bigBlind ∣ most)

section Hero

variable {hero : Player} (hhero : t.hero = some hero)
include hhero

lemma heroCommitted_eq : t.heroCommitted = hero.committed.getD 0 := by
  rw [Table.heroCommitted, hhero]
  rfl

lemma effective_eq : t.effective =
    min hero.chips (((t.players.filter fun p => p.id ≠ hero.id).map (·.chips)).foldr max 0) := by
  simp only [Table.effective, Table.heroBehind, Table.maxOppBehind, hhero, Option.map_some,
    Option.getD_some, ne_eq, Option.some.injEq]

lemma onGrid_iff : OnGrid t hero ↔ t.bigBlind ∣ t.initialTotal ∧
    (t.heroCommitted + t.effective ≤ t.initialTotal ∨
      t.bigBlind ∣ t.heroCommitted + t.effective) := by
  have hinit : t.initialTotal = if hero.committed.getD 0 < t.currentBet then
      t.currentBet + t.lastRaiseSize else max t.bigBlind t.currentBet := by
    rw [Table.initialTotal_eq, heroCommitted_eq hhero]
    split_ifs with hfacing
    · exact if_pos (by rw [Table.callAmount, heroCommitted_eq hhero]; omega)
    · rfl
  rw [hinit, heroCommitted_eq hhero, effective_eq hhero]
  rfl

/-- On the grid both bounds are multiples of the big blind. -/
lemma OnGrid.dvd (h : OnGrid t hero) : t.bigBlind ∣ t.minTotal ∧ t.bigBlind ∣ t.maxTotal := by
  obtain ⟨hinit, hmost⟩ := (onGrid_iff hhero).mp h
  have hfirst := t.initialTotal_eq
  have hle : t.minTotal ≤ t.initialTotal := le_max_left _ _
  have hmin : t.bigBlind ∣ t.minTotal := by
    by_cases hfacing : t.heroCommitted < t.currentBet
    · rw [if_pos hfacing] at hfirst
      rwa [← hfirst]
    · rw [Table.minTotal, if_neg (by rw [Table.callAmount]; omega)]
  refine ⟨hmin, ?_⟩
  rw [Table.maxTotal]
  rcases le_total (t.heroCommitted + t.effective) t.minTotal with hcap | hcap
  · rwa [max_eq_left hcap]
  · rw [max_eq_right hcap]
    rcases hmost with hmost | hmost
    · -- nothing is left between the first total and the cap
      have hequal : t.heroCommitted + t.effective = t.initialTotal := by
        have hmax := t.initialTotal_le_maxTotal
        rw [Table.maxTotal, max_eq_right hcap] at hmax
        exact le_antisymm hmost hmax
      rwa [hequal]
    · exact hmost

lemma maxTotal_le_total (henough : t.minTotal ≤ hero.total) : t.maxTotal ≤ hero.total := by
  rw [Table.maxTotal, heroCommitted_eq hhero, effective_eq hhero]
  rw [Player.total] at henough ⊢
  omega

lemma sound_of_onGrid (hbb : 0 < t.bigBlind) (henough : t.minTotal ≤ hero.total)
    (h : OnGrid t hero) : Sound t hero := by
  obtain ⟨hmin, hmax⟩ := h.dvd hhero
  intro events
  have hrange := BetInput.run_mem (t := t) events
  refine ⟨⟨hrange.1, hrange.2, Int.emod_eq_zero_of_dvd ?_⟩, hrange.2.trans ?_, ?_⟩
  · rcases BetInput.run_total (t := t) events with htotal | ⟨n, htotal⟩
    · rw [htotal]
      exact_mod_cast ((onGrid_iff hhero).mp h).1
    · rw [htotal]
      exact Table.dvd_clampSnap hmin hmax n
  · exact_mod_cast maxTotal_le_total hhero henough
  · rw [BetInput.run, foldl_append]
    exact Table.clampSnap_maxTotal hbb hmax

/-- The first total and the cap are chosen without any snapping. -/
lemma Sound.onGrid (h : Sound t hero) : OnGrid t hero := by
  have hinit : t.bigBlind ∣ t.initialTotal := by
    have hfirst : (t.bigBlind : ℤ) ∣ (t.initialTotal : ℤ) :=
      Int.dvd_of_emod_eq_zero (h []).1.2.2
    exact_mod_cast hfirst
  have hmax : t.bigBlind ∣ t.maxTotal := by
    have hlegal := (h [.presetAllIn]).1.2.2
    have hallIn := (h []).2.2
    rw [nil_append] at hallIn
    rw [hallIn] at hlegal
    exact_mod_cast Int.dvd_of_emod_eq_zero hlegal
  refine (onGrid_iff hhero).mpr ⟨hinit, ?_⟩
  rcases le_total (t.heroCommitted + t.effective) t.minTotal with hcap | hcap
  · exact Or.inl (hcap.trans (le_max_left _ _))
  · rw [Table.maxTotal, max_eq_right hcap] at hmax
    exact Or.inr hmax

end Hero

/-- With a hero who can pay the least total, every choice is legal exactly when the totals at the
ends are multiples of the big blind. -/
theorem betSizing_sound_iff {hero : Player} (hhero : t.hero = some hero) (hbb : 0 < t.bigBlind)
    (henough : t.minTotal ≤ hero.total) : Sound t hero ↔ OnGrid t hero :=
  ⟨fun h => h.onGrid hhero, sound_of_onGrid hhero hbb henough⟩

/-- Two players, of whom the first is the hero. -/
def headsUp (chips : ℕ) : Table where
  players := [⟨1, "hero".toList, chips, none⟩, ⟨2, "villain".toList, 1000, none⟩]
  basePot := 40
  bigBlind := 20
  heroId := some 1

/-- With ten big blinds. -/
theorem betSizing_sound_headsUp : Sound (headsUp 200) ⟨1, "hero".toList, 200, none⟩ := by
  refine (betSizing_sound_iff (by decide) (by decide) (by decide)).mpr ?_
  unfold OnGrid
  decide

/-- With five and a quarter the all-in preset chooses five. -/
theorem headsUp_not_sound :
    (BetInput.run (headsUp 105) [.presetAllIn]).sliderTotal = 100 ∧
      (headsUp 105).maxTotal = 105 ∧
      ¬Sound (headsUp 105) ⟨1, "hero".toList, 105, none⟩ := by
  have hallIn : (BetInput.run (headsUp 105) [.presetAllIn]).sliderTotal = 100 := by
    decide +kernel
  have hcap : (headsUp 105).maxTotal = 105 := by decide
  refine ⟨hallIn, hcap, fun h => ?_⟩
  have hsound := (h []).2.2
  rw [nil_append, hallIn, hcap] at hsound
  exact absurd hsound (by decide)

end Pokerhub.Frontend
