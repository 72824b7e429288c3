import Pokerhub.Core.Shares
import Pokerhub.Game.Accounts

/-!
# Who wins the pots

`settlePots` of `sidePots.ts` over its own `SettlementState`. It looks the scores up by id, so a
hand counts for its player only as long as nobody else has his id. With distinct ids every pot
goes to the best eligible hands (`settlePots_distributes`), in any order of the pots.
-/

namespace Pokerhub

open List

structure SettlementPlayer where
  id : PlayerId
  stack : ℤ
  folded : Bool
  holeCards : Option (List ℕ)
  deriving DecidableEq, Repr

structure SettlementState where
  players : List SettlementPlayer
  pot : ℤ
  sidePots : List SidePot
  communityCards : Option (List ℕ)
  deriving DecidableEq, Repr

namespace SettlementState

def board (s : SettlementState) : List ℕ :=
  s.communityCards.getD []

def active (s : SettlementState) : List SettlementPlayer :=
  s.players.filter fun p => !p.folded

/-- The score of a hand; where `evaluateHand` throws, 0. -/
def handScore (board : List ℕ) (p : SettlementPlayer) : ℕ :=
  (evaluateHand (p.holeCards.getD [] ++ board)).getD 0

/-- `scores.set(p.id, score)` for every active player in turn. -/
def scores (board : List ℕ) (active : List SettlementPlayer) : PlayerId → ℕ :=
  active.foldl (fun scores p => Function.update scores p.id (handScore board p)) fun _ => 0

/-- The side pots, or one pot of everything for the active players. -/
def pots (s : SettlementState) : List SidePot :=
  if 0 < s.sidePots.length then s.sidePots
  else [⟨s.pot, s.active.map (·.id), s.active.map fun p => (p.id, 0)⟩]

/-- Who may win the pot. -/
def contends (pot : SidePot) (p : SettlementPlayer) : Bool :=
  !p.folded && pot.players.contains p.id

/-- One pass of the loop over the pots. -/
def payout (scores : PlayerId → ℕ) (players : List SettlementPlayer) (pot : SidePot) :
    List SettlementPlayer :=
  let contenders := players.filter (contends pot)
  if contenders.isEmpty then players
  else
    let best := (contenders.map fun p => scores p.id).foldr max 0
    let winners := contenders.filter fun p => scores p.id == best
    let wins := fun p => contends pot p && scores p.id == best
    let share := pot.amount / winners.length
    let paid := players.map fun p => if wins p then { p with stack := p.stack + share } else p
    let remainder := pot.amount - share * winners.length
    if 0 < remainder then
      updateFirst wins (fun p => { p with stack := p.stack + remainder }) paid
    else paid

def settlePots (s : SettlementState) : SettlementState :=
  if s.active.length = 0 then s
  else
    { s with
      players := s.pots.foldl (payout (scores s.board s.active)) s.players
      pot := 0
      sidePots := [] }

/-! ### What the pots are worth to a player -/

/-- Nobody eligible for the pot has a better hand. -/
def Wins (s : SettlementState) (pot : SidePot) (p : SettlementPlayer) : Prop :=
  contends pot p = true ∧
    ∀ q ∈ s.players, contends pot q = true → handScore s.board q ≤ handScore s.board p

instance (s : SettlementState) (pot : SidePot) : DecidablePred (s.Wins pot) :=
  fun _ => inferInstanceAs (Decidable (_ ∧ _))

/-- What a player gets of a pot: the winners share it, and the first of them in seat order also
gets what the division leaves. -/
def gain (s : SettlementState) (pot : SidePot) (p : SettlementPlayer) : ℤ :=
  shareOf s.players (fun p => decide (s.Wins pot p)) pot.amount p

/-- How the pots are to be distributed. -/
structure Distributes (s : SettlementState) : Prop where
  /-- Every stack grows by what its player gets of the pots, and nothing else changes. -/
  players : s.settlePots.players = s.players.map fun p =>
    { p with stack := p.stack + (s.pots.map fun pot => s.gain pot p).sum }
  /-- A pot that somebody may win is paid out to the last chip. -/
  complete : ∀ pot ∈ s.pots, (∃ p ∈ s.players, contends pot p = true) →
    (∃ p ∈ s.players, s.Wins pot p) ∧ (s.players.map (s.gain pot)).sum = pot.amount ∧
      0 ≤ pot.amount % (s.players.countP fun p => s.Wins pot p) ∧
      pot.amount % (s.players.countP fun p => s.Wins pot p) <
        s.players.countP fun p => s.Wins pot p
  /-- The order of the pots does not matter. -/
  order : ∀ sidePots, sidePots.Perm s.sidePots →
    ({ s with sidePots := sidePots } : SettlementState).settlePots.players = s.settlePots.players

/-! ### One pot -/

/-- With distinct ids everybody is looked up with his own score. -/
lemma scores_eq (board : List ℕ) {active : List SettlementPlayer}
    (hids : (active.map (·.id)).Nodup) {p : SettlementPlayer} (hp : p ∈ active) :
    scores board active p.id = handScore board p := by
  unfold scores
  generalize (fun _ => 0 : PlayerId → ℕ) = before
  induction active using reverseRecOn with
  | nil => exact absurd hp not_mem_nil
  | append_singleton active q ih =>
    rw [foldl_append, foldl_cons, foldl_nil]
    rw [map_append, nodup_append] at hids
    rcases mem_append.mp hp with hp | hp
    · have hne : p.id ≠ q.id := hids.2.2 _ (mem_map_of_mem hp) _ (by simp)
      rw [Function.update_of_ne hne]
      exact ih hids.1 hp
    · obtain rfl := mem_singleton.mp hp
      rw [Function.update_self]

/-- Give every player what `f` says. -/
def credit (f : SettlementPlayer → ℤ) (p : SettlementPlayer) : SettlementPlayer :=
  { p with stack := p.stack + f p }

section Pot

variable {s : SettlementState} {pot : SidePot} {f : SettlementPlayer → ℤ}

@[simp] lemma contends_credit (p : SettlementPlayer) :
    contends pot (credit f p) = contends pot p := rfl

@[simp] lemma id_credit (p : SettlementPlayer) : (credit f p).id = p.id := rfl

lemma mem_active_of_contends {p : SettlementPlayer} (hp : p ∈ s.players)
    (hcontends : contends pot p = true) : p ∈ s.active := by
  refine mem_filter.mpr ⟨hp, ?_⟩
  simp only [contends, Bool.and_eq_true] at hcontends
  exact hcontends.1

lemma nodup_active (hids : (s.players.map (·.id)).Nodup) : (s.active.map (·.id)).Nodup :=
  hids.sublist (filter_sublist.map _)

/-- The best score that is looked up is the best hand's. -/
lemma wins_iff (hids : (s.players.map (·.id)).Nodup) {p : SettlementPlayer}
    (hp : p ∈ s.players) :
    (contends pot p && scores s.board s.active p.id ==
        ((s.players.filter (contends pot)).map fun q =>
          scores s.board s.active q.id).foldr max 0) = decide (s.Wins pot p) := by
  have hscore : ∀ q ∈ s.players, contends pot q = true →
      scores s.board s.active q.id = handScore s.board q := fun q hq hcontends =>
    scores_eq s.board (nodup_active hids) (mem_active_of_contends hq hcontends)
  rw [Bool.eq_iff_iff, Bool.and_eq_true, beq_iff_eq, decide_eq_true_iff]
  refine and_congr_right fun hcontends => ?_
  have hmem : scores s.board s.active p.id ∈
      (s.players.filter (contends pot)).map fun q => scores s.board s.active q.id :=
    mem_map_of_mem (mem_filter.mpr ⟨hp, hcontends⟩)
  have hle := (foldr_max_le_iff.mp (le_refl
    (((s.players.filter (contends pot)).map fun q =>
      scores s.board s.active q.id).foldr max 0))).2
  constructor
  · intro heq q hq hq'
    rw [← hscore p hp hcontends, ← hscore q hq hq', heq]
    exact hle _ (mem_map_of_mem (mem_filter.mpr ⟨hq, hq'⟩))
  · intro hbest
    refine le_antisymm (hle _ hmem) (foldr_max_le_iff.mpr ⟨Nat.zero_le _, ?_⟩)
    intro x hx
    obtain ⟨q, hq, rfl⟩ := mem_map.mp hx
    obtain ⟨hq, hq'⟩ := mem_filter.mp hq
    simpa only [hscore p hp hcontends, hscore q hq hq'] using hbest q hq hq'

/-- Somebody wins as soon as somebody may. -/
lemma exists_wins (h : ∃ p ∈ s.players, contends pot p = true) :
    ∃ p ∈ s.players, s.Wins pot p := by
  obtain ⟨p, hp, hcontends⟩ := h
  have hmem : ((s.players.filter (contends pot)).map (handScore s.board)).foldr max 0 ∈
      (s.players.filter (contends pot)).map (handScore s.board) :=
    foldr_max_mem (ne_nil_of_mem (mem_map_of_mem (mem_filter.mpr ⟨hp, hcontends⟩)))
      fun _ _ => Nat.zero_le _
  obtain ⟨w, hw, hbest⟩ := mem_map.mp hmem
  obtain ⟨hw, hw'⟩ := mem_filter.mp hw
  refine ⟨w, hw, hw', fun q hq hq' => ?_⟩
  rw [hbest]
  exact (foldr_max_le_iff.mp le_rfl).2 _ (mem_map_of_mem (mem_filter.mpr ⟨hq, hq'⟩))

/-- A pot is worth nothing when nobody may win it. -/
lemma gain_eq_zero (h : ¬ ∃ p ∈ s.players, contends pot p = true) {p : SettlementPlayer}
    (hp : p ∈ s.players) : s.gain pot p = 0 := by
  refine shareOf_of_not _ (decide_eq_false fun hwins => h ⟨p, hp, hwins.1⟩)

/-- The winners of a pot are counted as the code counts them. -/
lemma length_winners_credit (hids : (s.players.map (·.id)).Nodup) {best : ℕ}
    (hbest : best = ((s.players.filter (contends pot)).map fun q =>
      scores s.board s.active q.id).foldr max 0) :
    (((s.players.filter (contends pot)).map (credit f)).filter fun p =>
        scores s.board s.active p.id == best).length =
      s.players.countP fun p => s.Wins pot p := by
  rw [filter_map, length_map, filter_filter, countP_eq_length_filter]
  congr 1
  refine filter_congr fun p hp => ?_
  rw [← wins_iff hids hp, hbest, Bool.and_comm]
  rfl

/-- Paying one pot adds to every stack what the pot is worth to the player. -/
lemma payout_credit (hids : (s.players.map (·.id)).Nodup) (pot : SidePot)
    (f : SettlementPlayer → ℤ) :
    payout (scores s.board s.active) (s.players.map (credit f)) pot =
      s.players.map (credit fun p => f p + s.gain pot p) := by
  have hcontenders : (s.players.map (credit f)).filter (contends pot) =
      (s.players.filter (contends pot)).map (credit f) := filter_map
  by_cases hsome : ∃ p ∈ s.players, contends pot p = true
  · have hnonempty : ((s.players.filter (contends pot)).map (credit f)).isEmpty = false := by
      obtain ⟨p, hp, hcontends⟩ := hsome
      exact isEmpty_eq_false_iff.mpr
        (ne_nil_of_mem (mem_map_of_mem (mem_filter.mpr ⟨hp, hcontends⟩)))
    simp only [payout, hcontenders, hnonempty, Bool.false_eq_true, if_false]
    generalize hbest : (((s.players.filter (contends pot)).map (credit f)).map fun p =>
      scores s.board s.active p.id).foldr max 0 = best
    have hbest' : best = ((s.players.filter (contends pot)).map fun q =>
        scores s.board s.active q.id).foldr max 0 := by
      rw [← hbest, map_map]
      rfl
    have hwins : ∀ p ∈ s.players,
        (contends pot p && scores s.board s.active p.id == best) = decide (s.Wins pot p) :=
      fun p hp => hbest' ▸ wins_iff hids hp
    rw [length_winners_credit hids hbest']
    have hremainder : pot.amount - pot.amount / (s.players.countP fun p => s.Wins pot p) *
        (s.players.countP fun p => s.Wins pot p) =
        pot.amount % (s.players.countP fun p => s.Wins pot p) := by
      rw [Int.emod_def, mul_comm]
    rw [hremainder]
    generalize hshare : pot.amount / (s.players.countP fun p => s.Wins pot p : ℤ) = share
    have hpaid : (s.players.map (credit f)).map (fun p =>
        if contends pot p && scores s.board s.active p.id == best then
          { p with stack := p.stack + share }
        else p) =
        s.players.map (credit fun p => f p + if s.Wins pot p then share else 0) := by
      rw [map_map]
      refine map_congr_left fun p hp => ?_
      have hp' := hwins p hp
      simp only [Function.comp_apply, contends_credit, id_credit, hp', decide_eq_true_eq]
      split_ifs with hw
      · simp [hw, credit, add_assoc]
      · simp [hw, credit]
    rw [hpaid]
    have hnonneg := (emod_countP_lt (w := fun p => decide (s.Wins pot p)) pot.amount
      (by simpa using exists_wins hsome)).1
    split_ifs with hpos
    · -- the first winner also gets what the division leaves
      rw [updateFirst_map (w := fun p => decide (s.Wins pot p)) (Nodup.of_map _ hids)
        fun p hp => hwins p hp]
      refine map_congr_left fun p _ => ?_
      simp only [gain, shareOf, decide_eq_true_eq, hshare]
      split_ifs with hfirst <;> simp [credit, add_assoc, *]
    · have hzero : pot.amount % (s.players.countP fun p => s.Wins pot p : ℤ) = 0 := by omega
      refine map_congr_left fun p _ => ?_
      simp only [gain, shareOf, decide_eq_true_eq, hshare, hzero, ite_self, add_zero]
  · have hnone : s.players.filter (contends pot) = [] :=
      filter_eq_nil_iff.mpr fun p hp hcontends => hsome ⟨p, hp, hcontends⟩
    rw [payout, hcontenders, hnone]
    refine map_congr_left fun p hp => ?_
    rw [credit, credit, gain_eq_zero hsome hp, add_zero]

/-- Paying pots one after the other adds up what they are worth. -/
lemma foldl_payout (hids : (s.players.map (·.id)).Nodup) (pots : List SidePot)
    (f : SettlementPlayer → ℤ) :
    pots.foldl (payout (scores s.board s.active)) (s.players.map (credit f)) =
      s.players.map (credit fun p => f p + (pots.map fun pot => s.gain pot p).sum) := by
  induction pots generalizing f with
  | nil => simp
  | cons pot pots ih =>
    rw [foldl_cons, payout_credit hids, ih]
    simp only [map_cons, sum_cons, add_assoc]

/-- Without anybody left in the hand no pot is worth anything. -/
lemma gain_of_active_eq_nil (h : s.active = []) {p : SettlementPlayer} (hp : p ∈ s.players) :
    s.gain pot p = 0 := by
  refine gain_eq_zero ?_ hp
  rintro ⟨q, hq, hcontends⟩
  have hmem := mem_active_of_contends hq hcontends
  rw [h] at hmem
  exact not_mem_nil hmem

lemma players_settlePots (hids : (s.players.map (·.id)).Nodup) :
    s.settlePots.players =
      s.players.map (credit fun p => (s.pots.map fun pot => s.gain pot p).sum) := by
  have hzero : s.players.map (credit fun _ => 0) = s.players := by
    refine (map_congr_left fun p _ => ?_).trans (map_id _)
    simp [credit]
  unfold settlePots
  split_ifs with hactive
  · have hnobody := length_eq_zero_iff.mp hactive
    conv_lhs => rw [← hzero]
    refine map_congr_left fun p hp => ?_
    simp [credit, gain_of_active_eq_nil hnobody hp]
  · have hpaid := foldl_payout hids s.pots fun _ => 0
    rw [hzero] at hpaid
    simpa using hpaid

/-- What the pots are worth together does not depend on their order. -/
lemma sum_gain_perm {sidePots : List SidePot} (h : sidePots.Perm s.sidePots)
    (p : SettlementPlayer) :
    (({ s with sidePots := sidePots } : SettlementState).pots.map fun pot => s.gain pot p).sum =
      (s.pots.map fun pot => s.gain pot p).sum := by
  unfold pots
  simp only [h.length_eq]
  split_ifs
  · exact (h.map _).sum_eq
  · rfl

end Pot

/-- At a table where everybody has his own id, the pots are distributed as they should be. -/
theorem settlePots_distributes (s : SettlementState) (hids : (s.players.map (·.id)).Nodup) :
    s.Distributes where
  players := players_settlePots hids
  complete := by
    intro pot _ hsome
    have hwins : ∃ p ∈ s.players, decide (s.Wins pot p) = true := by
      simpa using exists_wins hsome
    exact ⟨exists_wins hsome, sum_shareOf (Nodup.of_map _ hids) pot.amount hwins,
      emod_countP_lt pot.amount hwins⟩
  order := by
    intro sidePots hperm
    rw [players_settlePots hids, players_settlePots (by exact hids)]
    refine map_congr_left fun p _ => ?_
    exact congrArg (fun sum => credit (fun _ => sum) p) (sum_gain_perm hperm p)

/-- A board on which an ace makes a pair, and one with two pots. -/
def splitPots : SettlementState where
  players := [⟨"a", 0, false, some [51, 4]⟩, ⟨"b", 0, false, some [50, 5]⟩, ⟨"c", 0, true, none⟩]
  pot := 12
  sidePots := [⟨5, ["a", "b"], []⟩, ⟨7, ["b", "c"], []⟩]
  communityCards := some [48, 0, 9]

/-- Equal hands: the first seat has the odd chip of the first pot, the second pot has one
winner. -/
theorem settlePots_distributes_splitPots :
    splitPots.Distributes ∧ splitPots.settlePots.players.map (·.stack) = [3, 9, 0] :=
  ⟨settlePots_distributes splitPots (by decide), by decide +kernel⟩

/-- Two players of one id, of whom only the second has a pair. -/
def sameIds : SettlementState where
  players := [⟨"a", 0, false, some [20, 4]⟩, ⟨"a", 0, false, some [50, 5]⟩]
  pot := 10
  sidePots := []
  communityCards := some [48, 0, 9]

/-- Both are taken for the pair and share the pot. -/
theorem sameIds_share : ¬ ∀ s : SettlementState, s.Distributes := by
  intro h
  have hplayers := congrArg (map (·.stack)) (h sameIds).players
  revert hplayers
  decide +kernel

end SettlementState

/-! ### The settlement of the table -/

/-- A seat as the shared `settlePots` sees it. -/
def PlayerStateInternal.toSettlement (p : PlayerStateInternal) : SettlementPlayer :=
  ⟨p.id, p.stack, p.folded, p.holeCards.map (·.filterMap fun card => card)⟩

/-- The table as the shared `settlePots` sees it. -/
def GameStateInternal.toSettlement (s : GameStateInternal) : SettlementState :=
  ⟨s.players.map (·.toSettlement), s.pot, s.sidePots, some s.communityCards⟩

section Table

open SettlementState

@[simp] lemma handScore_toSettlement (board : List ℕ) (p : PlayerStateInternal) :
    handScore board p.toSettlement = showdownScore board p := by
  cases hcards : p.holeCards with
  | none => simp [handScore, showdownScore, PlayerStateInternal.toSettlement, hcards]
  | some cards =>
    simp [handScore, showdownScore, PlayerStateInternal.toSettlement, hcards]

@[simp] lemma contends_toSettlement (pot : SidePot) (p : PlayerStateInternal) :
    contends pot p.toSettlement = isContender pot p := rfl

@[simp] lemma id_toSettlement (p : PlayerStateInternal) : p.toSettlement.id = p.id := rfl

/-- When the scores are looked up right, the table pays a pot as the shared code does. -/
lemma map_toSettlement_payPot {board : List ℕ} {scores : PlayerId → ℕ}
    {ps : List PlayerStateInternal} {pot : SidePot}
    (hscores : ∀ p ∈ ps, isContender pot p = true → scores p.id = showdownScore board p) :
    (payPot board ps pot).map (·.toSettlement) =
      payout scores (ps.map (·.toSettlement)) pot := by
  have hcontenders : (ps.map (·.toSettlement)).filter (contends pot) =
      (ps.filter (isContender pot)).map (·.toSettlement) := by
    rw [filter_map]
    rfl
  have hmap : ((ps.filter (isContender pot)).map (·.toSettlement)).map (fun p => scores p.id) =
      (ps.filter (isContender pot)).map (showdownScore board) := by
    rw [map_map]
    refine map_congr_left fun p hp => ?_
    obtain ⟨hp, hcontender⟩ := mem_filter.mp hp
    exact hscores p hp hcontender
  simp only [payPot, payout, hcontenders, isEmpty_map, hmap]
  generalize ((ps.filter (isContender pot)).map (showdownScore board)).foldr max 0 = best
  have hwins : ∀ p ∈ ps, (contends pot p.toSettlement && scores p.toSettlement.id == best) =
      (isContender pot p && showdownScore board p == best) := by
    intro p hp
    rw [contends_toSettlement, id_toSettlement]
    cases hcontender : isContender pot p with
    | false => rfl
    | true => rw [hscores p hp hcontender]
  have hlength : (((ps.filter (isContender pot)).map (·.toSettlement)).filter fun p =>
      scores p.id == best).length =
      ((ps.filter (isContender pot)).filter fun p => showdownScore board p == best).length := by
    rw [filter_map, length_map]
    refine congrArg length (filter_congr fun p hp => ?_)
    obtain ⟨hp, hcontender⟩ := mem_filter.mp hp
    rw [Function.comp_apply, id_toSettlement, hscores p hp hcontender]
  rw [hlength]
  generalize pot.amount / (length _ : ℤ) = share
  have hpaid : (ps.map fun p => if isContender pot p && showdownScore board p == best then
        { p with stack := p.stack + share } else p).map (·.toSettlement) =
      (ps.map (·.toSettlement)).map fun p => if contends pot p && scores p.id == best then
        { p with stack := p.stack + share } else p := by
    rw [map_map, map_map]
    refine map_congr_left fun p hp => ?_
    have hwin := hwins p hp
    simp only [Function.comp_apply, hwin]
    split_ifs <;> rfl
  split_ifs with hnone hpos
  · rfl
  · rw [← hpaid]
    refine map_updateFirst (fun p hp => ?_) fun _ _ => rfl
    obtain ⟨q, hq, rfl⟩ := mem_map.mp hp
    have hwin := hwins q hq
    split_ifs <;> exact hwin
  · exact hpaid

/-- So it does for all pots, as paying changes only chips. -/
lemma map_toSettlement_foldl_payPot {board : List ℕ} {scores : PlayerId → ℕ}
    {ps : List PlayerStateInternal} (pots : List SidePot)
    (hscores : ∀ p ∈ ps, p.folded = false → scores p.id = showdownScore board p) :
    (pots.foldl (payPot board) ps).map (·.toSettlement) =
      pots.foldl (payout scores) (ps.map (·.toSettlement)) := by
  induction pots generalizing ps with
  | nil => rfl
  | cons pot pots ih =>
    have hkept : ∀ p ∈ payPot board ps pot, p.folded = false →
        scores p.id = showdownScore board p := by
      intro p hp hfolded
      have hmem : (p.id, p.folded, p.holeCards) ∈
          ps.map fun q => (q.id, q.folded, q.holeCards) := by
        rw [← GameStateInternal.map_payPot (fun q => (q.id, q.folded, q.holeCards)) (fun _ _ => rfl)
          board ps pot]
        exact mem_map_of_mem hp
      obtain ⟨q, hq, heq⟩ := mem_map.mp hmem
      simp only [Prod.mk.injEq] at heq
      obtain ⟨hid, hqfolded, hcards⟩ := heq
      have hscore := hscores q hq (hqfolded.trans hfolded)
      rwa [hid, showdownScore, hcards] at hscore
    rw [foldl_cons, foldl_cons, ih hkept, map_toSettlement_payPot]
    intro p hp hcontender
    simp only [isContender, Bool.and_eq_true, Bool.not_eq_true'] at hcontender
    exact hscores p hp hcontender.1

/-- The settlement of a table is the one that the shared code computes. -/
theorem toSettlement_settlePots {s : GameStateInternal} (hids : (s.players.map (·.id)).Nodup) :
    s.settlePots.toSettlement = s.toSettlement.settlePots := by
  have hactive : s.toSettlement.active = s.activePlayers.map (·.toSettlement) := by
    rw [active, GameStateInternal.toSettlement, filter_map]
    rfl
  have hpots : s.toSettlement.pots = s.potsToPay := by
    rw [pots, GameStateInternal.potsToPay, hactive, map_map, map_map]
    rfl
  have hids' : (s.toSettlement.players.map (·.id)).Nodup := by
    rw [GameStateInternal.toSettlement, map_map]
    exact hids
  unfold GameStateInternal.settlePots SettlementState.settlePots
  rw [hactive, length_map, hpots]
  split_ifs with hnone
  · rfl
  · rw [← hactive]
    refine congrArg (fun players => (⟨players, 0, [], some s.communityCards⟩ : SettlementState))
      (map_toSettlement_foldl_payPot _ fun p hp hfolded => ?_)
    have hmem : p.toSettlement ∈ s.toSettlement.active := by
      refine mem_filter.mpr ⟨mem_map_of_mem hp, ?_⟩
      simpa [PlayerStateInternal.toSettlement] using hfolded
    rw [← handScore_toSettlement]
    exact scores_eq _ (nodup_active hids') hmem

end Table

end Pokerhub
