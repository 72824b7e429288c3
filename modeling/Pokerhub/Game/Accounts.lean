import Mathlib.Tactic.LinearCombination
import Pokerhub.Core.Layers
import Pokerhub.Core.Maximum
import Pokerhub.Game.Table

/-!
# The accounts of a hand

Before settlement the pot counter is the side pots plus the bets in front of the players, and
nothing is negative (`Accounts`); this holds in every run. The pots of a street hold its bets, and
settling pays a pot to the last chip, provided that somebody who has not folded may win it.
-/

namespace Pokerhub

open GameStateInternal HandStateMachine TransitionSystem List

/-! ### Sweeping the bets -/

namespace GameStateInternal

lemma pairwise_levels (s : GameStateInternal) : (0 :: s.levels).Pairwise (· < ·) := by
  rw [pairwise_cons]
  constructor
  · intro level hlevel
    simp only [levels, mem_insertionSort, mem_dedup, mem_map, bettors, mem_filter,
      decide_eq_true_eq] at hlevel
    obtain ⟨p, ⟨_, hp⟩, rfl⟩ := hlevel
    exact hp
  · have hsorted : s.levels.Pairwise (· ≤ ·) := pairwise_insertionSort _ _
    have hnodup : s.levels.Nodup :=
      (perm_insertionSort _ _).nodup_iff.mpr (nodup_dedup _)
    exact (hsorted.and hnodup).imp fun h => lt_of_le_of_ne h.1 h.2

/-- A layer is one pot of its size, or nothing. -/
lemma map_amount_layerPot {s : GameStateInternal} {bettors : List PlayerStateInternal}
    {previous level : ℤ} (h : previous < level) :
    ((s.layerPot bettors previous level).map (·.amount)).sum =
      (level - previous) * (bettors.map (·.bet)).countP (level ≤ ·) := by
  have hcount : (bettors.filter fun p => level ≤ p.bet).length =
      (bettors.map (·.bet)).countP (level ≤ ·) := by
    rw [countP_map, countP_eq_length_filter]
    rfl
  unfold layerPot
  dsimp only
  rw [hcount]
  split
  · split <;> simp
  · rename_i hpos
    have : 0 ≤ (level - previous) * ((bettors.map (·.bet)).countP (level ≤ ·) : ℤ) :=
      mul_nonneg (by omega) (by omega)
    simp only [map_nil, sum_nil]
    omega

lemma sum_layerPots {s : GameStateInternal} {bettors : List PlayerStateInternal}
    {previous : ℤ} {levels : List ℤ} (h : (previous :: levels).Pairwise (· < ·)) :
    ((s.layerPots bettors previous levels).map (·.amount)).sum =
      (layers (bettors.map (·.bet)) previous levels).sum := by
  induction levels generalizing previous with
  | nil => rfl
  | cons level levels ih =>
    rw [pairwise_cons] at h
    rw [layerPots, map_append, sum_append, map_amount_layerPot (h.1 level mem_cons_self),
      ih h.2, layers_cons, sum_cons]

/-- Every pot of a street comes from one of its levels. -/
lemma mem_layerPots {s : GameStateInternal} {bettors : List PlayerStateInternal}
    {previous : ℤ} {levels : List ℤ} {pot : SidePot}
    (hlevels : (previous :: levels).Pairwise (· < ·))
    (h : pot ∈ s.layerPots bettors previous levels) :
    ∃ previous level, previous < level ∧ pot ∈ s.layerPot bettors previous level := by
  induction levels generalizing previous with
  | nil => simp [layerPots] at h
  | cons level levels ih =>
    rw [pairwise_cons] at hlevels
    rcases mem_append.mp h with h | h
    · exact ⟨previous, level, hlevels.1 level mem_cons_self, h⟩
    · exact ih hlevels.2 h

lemma layerPot_amount_pos {s : GameStateInternal} {bettors : List PlayerStateInternal}
    {previous level : ℤ} {pot : SidePot} (h : pot ∈ s.layerPot bettors previous level) :
    0 < pot.amount := by
  unfold layerPot at h
  dsimp only at h
  split_ifs at h with hpos <;> simp_all

/-- A new pot can be won as long as one player is in the hand. -/
lemma layerPot_contested {s : GameStateInternal} {previous level : ℤ} {pot : SidePot}
    (hactive : 1 ≤ s.activePlayers.length) (h : pot ∈ s.layerPot s.bettors previous level) :
    s.Contested pot := by
  have hmem : ∀ p ∈ s.players, p.folded = false → p.id ∈ pot.players → s.Contested pot :=
    fun p hp hfolded hin => ⟨(p.id, p.folded), mem_map_of_mem hp, hfolded, hin⟩
  unfold layerPot at h
  dsimp only at h
  split_ifs at h with hpos hcontenders hnone
  · omega
  · obtain rfl := mem_singleton.mp h
    obtain ⟨p, hp⟩ := exists_mem_of_length_pos hactive
    obtain ⟨hplayer, hfolded⟩ := mem_filter.mp hp
    exact hmem p hplayer (by simpa using hfolded) (mem_map_of_mem hp)
  · obtain rfl := mem_singleton.mp h
    obtain ⟨p, hp⟩ := exists_mem_of_length_pos (Nat.pos_of_ne_zero hcontenders)
    obtain ⟨hcontributor, hfolded⟩ := mem_filter.mp hp
    refine hmem p ?_ (by simpa using hfolded) (mem_map_of_mem hp)
    exact mem_of_mem_filter (mem_of_mem_filter hcontributor)
  · simp at h

/-- The pots of a street hold the bets of the street. -/
lemma sum_street {s : GameStateInternal} (hbets : ∀ p ∈ s.players, 0 ≤ p.bet) :
    ((s.layerPots s.bettors 0 s.levels).map (·.amount)).sum = s.liveBets := by
  rw [sum_layerPots s.pairwise_levels, sum_layers s.pairwise_levels fun b hb => by
    simpa [levels] using Or.inr hb]
  unfold bettors liveBets
  generalize s.players = ps at hbets
  induction ps with
  | nil => rfl
  | cons p ps ih =>
    simp only [mem_cons, forall_eq_or_imp] at hbets
    rw [filter_cons, map_cons, sum_cons, ← ih hbets.2]
    split_ifs with hpos
    · simp only [map_cons, sum_cons]
      omega
    · simp only [decide_eq_true_eq] at hpos
      omega

/-- The side pots that the end of the street adds. -/
def streetPots (s : GameStateInternal) : List SidePot :=
  s.layerPots s.bettors 0 s.levels

/-- Without bets, sweeping changes nothing else either. -/
lemma finishBettingRound_eq {s : GameStateInternal} (hbets : ∀ p ∈ s.players, 0 ≤ p.bet) :
    s.finishBettingRound =
      { s with
        sidePots := s.sidePots ++ s.streetPots
        players := s.players.map fun p => { p with bet := 0 }
        currentBet := 0 } := by
  unfold finishBettingRound
  split
  · rename_i hnone
    rw [length_eq_zero_iff] at hnone
    have hzero : s.players.map (fun p => { p with bet := 0 }) = s.players := by
      conv_rhs => rw [← map_id s.players]
      refine map_congr_left fun p hp => ?_
      have hle : ¬ 0 < p.bet := by simpa using filter_eq_nil_iff.mp hnone p hp
      have := hbets p hp
      obtain hbet : p.bet = 0 := by omega
      simp only [id_eq, ← hbet]
    have hpots : s.streetPots = [] := by
      simp [streetPots, levels, hnone, layerPots]
    rw [hzero, hpots, append_nil]
  · rfl

lemma closeIfAlone_eq (s : GameStateInternal) :
    s.closeIfAlone =
      if s.activePlayers.length ≤ 1 then { s.finishBettingRound with phase := .showdown }
      else s := by
  have hcollected : (if s.players.any fun p => 0 < p.bet then s.finishBettingRound
      else { s with currentBet := 0 }) = s.finishBettingRound := by
    split_ifs with hany
    · rfl
    · have hnone : s.bettors.length = 0 := by
        rw [length_eq_zero_iff]
        refine filter_eq_nil_iff.mpr fun p hp hpos => hany ?_
        exact any_eq_true.mpr ⟨p, hp, hpos⟩
      rw [finishBettingRound, if_pos hnone]
  rw [closeIfAlone, hcollected]

end GameStateInternal

/-! ### Paying the pots -/

/-- Who shares a pot. -/
def isWinner (board : List ℕ) (players : List PlayerStateInternal) (pot : SidePot)
    (p : PlayerStateInternal) : Bool :=
  isContender pot p && showdownScore board p ==
    ((players.filter (isContender pot)).map (showdownScore board)).foldr max 0

/-- A share for every winner. -/
def payShares (board : List ℕ) (players : List PlayerStateInternal) (pot : SidePot) (share : ℤ) :
    List PlayerStateInternal :=
  players.map fun p =>
    if isWinner board players pot p then { p with stack := p.stack + share } else p

lemma exists_winner (board : List ℕ) {players : List PlayerStateInternal} {pot : SidePot}
    (h : ∃ p ∈ players, isContender pot p = true) :
    ∃ p ∈ players, isWinner board players pot p = true := by
  obtain ⟨p, hp, hcontender⟩ := h
  have hmem : ((players.filter (isContender pot)).map (showdownScore board)).foldr max 0 ∈
      (players.filter (isContender pot)).map (showdownScore board) :=
    foldr_max_mem (ne_nil_of_mem (mem_map_of_mem (mem_filter.mpr ⟨hp, hcontender⟩)))
      fun _ _ => Nat.zero_le _
  obtain ⟨w, hw, hbest⟩ := mem_map.mp hmem
  obtain ⟨hwmem, hwc⟩ := mem_filter.mp hw
  exact ⟨w, hwmem, by rw [isWinner, hwc, hbest]; simp⟩

lemma length_winners (board : List ℕ) (players : List PlayerStateInternal) (pot : SidePot) :
    ((players.filter (isContender pot)).filter fun p => showdownScore board p ==
      ((players.filter (isContender pot)).map (showdownScore board)).foldr max 0).length =
      players.countP (isWinner board players pot) := by
  rw [filter_filter, countP_eq_length_filter]
  congr 1
  refine filter_congr fun p _ => ?_
  rw [isWinner, Bool.and_comm]

lemma sum_payShares (board : List ℕ) (players : List PlayerStateInternal) (pot : SidePot)
    (share : ℤ) :
    ((payShares board players pot share).map (·.stack)).sum =
      (players.map (·.stack)).sum + share * players.countP (isWinner board players pot) := by
  have hgen : ∀ (w : PlayerStateInternal → Bool) (ps : List PlayerStateInternal),
      ((ps.map fun p => if w p then { p with stack := p.stack + share } else p).map
        (·.stack)).sum = (ps.map (·.stack)).sum + share * ps.countP w := by
    intro w ps
    induction ps with
    | nil => simp
    | cons p ps ih =>
      rw [map_cons, map_cons, sum_cons, ih, map_cons, sum_cons, countP_cons]
      by_cases hw : w p = true
      · simp only [hw, if_true, Nat.cast_add, Nat.cast_one]
        linear_combination
      · simp only [hw, Bool.false_eq_true, if_false, add_zero]
        linear_combination
  exact hgen _ _

lemma exists_winner_payShares (board : List ℕ) (players : List PlayerStateInternal)
    (pot : SidePot) (share : ℤ) (h : ∃ p ∈ players, isWinner board players pot p = true) :
    ∃ p ∈ payShares board players pot share, isWinner board players pot p = true := by
  obtain ⟨w, hw, hwinner⟩ := h
  refine ⟨_, mem_map_of_mem hw, ?_⟩
  rw [if_pos hwinner]
  exact hwinner

/-- A pot that can be won is paid to the last chip. -/
lemma sum_payPot {board : List ℕ} {players : List PlayerStateInternal} {pot : SidePot}
    (h : ∃ p ∈ players, isContender pot p = true) :
    ((payPot board players pot).map (·.stack)).sum =
      (players.map (·.stack)).sum + pot.amount := by
  obtain ⟨w, hw, hwinner⟩ := exists_winner board h
  have hcount : 0 < players.countP (isWinner board players pot) :=
    countP_pos_iff.mpr ⟨w, hw, hwinner⟩
  have hne : (players.filter (isContender pot)).isEmpty = false := by
    obtain ⟨p, hp, hcontender⟩ := h
    exact isEmpty_eq_false_iff.mpr (ne_nil_of_mem (mem_filter.mpr ⟨hp, hcontender⟩))
  unfold payPot
  simp only [hne, Bool.false_eq_true, if_false, length_winners]
  generalize hshare : pot.amount / (players.countP (isWinner board players pot) : ℤ) = share
  have hpaid := sum_payShares board players pot share
  have hremainder : 0 ≤ pot.amount - share * players.countP (isWinner board players pot) := by
    rw [← hshare, mul_comm]
    exact sub_nonneg.mpr (Int.mul_ediv_self_le (by omega))
  split_ifs with hpos
  · -- the first winner takes the odd chips
    change ((updateFirst (isWinner board players pot) _
      (payShares board players pot share)).map (·.stack)).sum = _
    obtain ⟨first, hfirst⟩ := Option.isSome_iff_exists.mp <| find?_isSome.mpr
      (exists_winner_payShares board players pot share ⟨w, hw, hwinner⟩)
    rw [sum_map_updateFirst (·.stack) hfirst, hpaid]
    dsimp only
    omega
  · change ((payShares board players pot share).map (·.stack)).sum = _
    rw [hpaid]
    omega

lemma payPot_stack_nonneg {board : List ℕ} {players : List PlayerStateInternal} {pot : SidePot}
    (hamount : 0 ≤ pot.amount) (hstacks : ∀ p ∈ players, 0 ≤ p.stack) :
    ∀ p ∈ payPot board players pot, 0 ≤ p.stack := by
  unfold payPot
  dsimp only
  generalize hshare : pot.amount / (length _ : ℤ) = share
  have hnonneg : 0 ≤ share := by
    rw [← hshare]
    exact Int.ediv_nonneg hamount (by omega)
  have hpaid : ∀ (w : PlayerStateInternal → Bool), ∀ p ∈ players.map fun p =>
      if w p then { p with stack := p.stack + share } else p, 0 ≤ p.stack := by
    intro w p hp
    obtain ⟨q, hq, rfl⟩ := mem_map.mp hp
    have := hstacks q hq
    split
    · dsimp only
      omega
    · exact this
  split_ifs with hnone hpos
  · exact hstacks
  · intro p hp
    rcases mem_updateFirst hp with hp | ⟨q, hq, _, rfl⟩
    · exact hpaid _ p hp
    · have := hpaid _ q hq
      dsimp only
      omega
  · exact hpaid _

lemma exists_contender_iff {ps : List PlayerStateInternal} {pot : SidePot} :
    (∃ p ∈ ps, isContender pot p = true) ↔
      ∃ e ∈ ps.map fun p => (p.id, p.folded), e.2 = false ∧ e.1 ∈ pot.players := by
  simp [isContender]

/-- Pots that can all be won are all paid to the last chip. -/
lemma sum_foldl_payPot {board : List ℕ} {pots : List SidePot} {ps : List PlayerStateInternal}
    (h : ∀ pot ∈ pots, ∃ p ∈ ps, isContender pot p = true) :
    ((pots.foldl (payPot board) ps).map (·.stack)).sum =
      (ps.map (·.stack)).sum + (pots.map (·.amount)).sum := by
  induction pots generalizing ps with
  | nil => simp
  | cons pot pots ih =>
    simp only [mem_cons, forall_eq_or_imp] at h
    rw [foldl_cons, ih fun q hq => ?_, sum_payPot h.1, map_cons, sum_cons, add_assoc]
    rw [exists_contender_iff, map_payPot _ fun _ _ => rfl, ← exists_contender_iff]
    exact h.2 q hq

lemma foldl_payPot_stack_nonneg {board : List ℕ} {pots : List SidePot}
    {ps : List PlayerStateInternal} (hpots : ∀ pot ∈ pots, 0 ≤ pot.amount)
    (hstacks : ∀ p ∈ ps, 0 ≤ p.stack) : ∀ p ∈ pots.foldl (payPot board) ps, 0 ≤ p.stack := by
  induction pots generalizing ps with
  | nil => exact hstacks
  | cons pot pots ih =>
    simp only [mem_cons, forall_eq_or_imp] at hpots
    exact ih hpots.2 (payPot_stack_nonneg hpots.1 hstacks)

/-! ### The invariant -/

/-- The accounts of a hand. -/
structure Accounts (s : GameStateInternal) : Prop where
  stack_nonneg : ∀ p ∈ s.players, 0 ≤ p.stack
  bet_nonneg : ∀ p ∈ s.players, 0 ≤ p.bet
  pot_nonneg : ∀ pot ∈ s.sidePots, 0 ≤ pot.amount
  split : s.pot = s.sidePotTotal + s.liveBets
  swept : s.phase = .showdown ∨ s.phase = .settle → ∀ p ∈ s.players, p.bet = 0
  settled : s.phase = .settle → s.sidePots = []

lemma Accounts.initial (ids : List PlayerId) (startingStack : ℕ) :
    Accounts (HandStateMachine.initial ids startingStack).state where
  stack_nonneg := by simp [HandStateMachine.initial]
  bet_nonneg := by simp [HandStateMachine.initial]
  pot_nonneg := by simp [HandStateMachine.initial]
  split := by simp [HandStateMachine.initial, sidePotTotal, liveBets, Function.comp_def]
  swept := by simp [HandStateMachine.initial]
  settled := by simp [HandStateMachine.initial]

/-- What the accounts read of a player. -/
def account (p : PlayerStateInternal) : ℤ × ℤ :=
  (p.stack, p.bet)

/-- A bound on the accounts of players is one on those of players with equal accounts. -/
lemma forall_of_map_account {ps ps' : List PlayerStateInternal}
    (h : ps'.map account = ps.map account) {Q : ℤ × ℤ → Prop} (hQ : ∀ p ∈ ps, Q (account p)) :
    ∀ p ∈ ps', Q (account p) := by
  intro p hp
  have hmem : account p ∈ ps.map account := h ▸ mem_map_of_mem hp
  obtain ⟨q, hq, heq⟩ := mem_map.mp hmem
  exact heq ▸ hQ q hq

lemma map_bet_of_account {ps ps' : List PlayerStateInternal}
    (h : ps'.map account = ps.map account) : ps'.map (·.bet) = ps.map (·.bet) := by
  simpa [account, Function.comp_def] using congrArg (map Prod.snd) h

/-- The accounts do not depend on the cards and the folds, nor, while a hand is played, on street
and phase. -/
lemma Accounts.of_account {s s' : GameStateInternal} (h : Accounts s)
    (hplayers : s'.players.map account = s.players.map account) (hpot : s'.pot = s.pot)
    (hpots : s'.sidePots = s.sidePots) (hphase : s'.phase ≠ .showdown ∧ s'.phase ≠ .settle) :
    Accounts s' where
  stack_nonneg := forall_of_map_account (Q := (0 ≤ ·.1)) hplayers h.stack_nonneg
  bet_nonneg := forall_of_map_account (Q := (0 ≤ ·.2)) hplayers h.bet_nonneg
  pot_nonneg := hpots ▸ h.pot_nonneg
  split := by
    rw [hpot, sidePotTotal, hpots, liveBets, map_bet_of_account hplayers]
    exact h.split
  swept hs := absurd hs (not_or.mpr hphase)
  settled hs := absurd hs hphase.2

lemma sum_stack_addBet {s : GameStateInternal} {p : PlayerStateInternal}
    (hp : s.players.find? (fun q => q.id == p.id) = some p) (amount : ℤ) :
    ((s.addBet p amount).players.map (·.stack)).sum =
      (s.players.map (·.stack)).sum + ((p.stack - amount) - p.stack) :=
  sum_map_updateFirst (·.stack) hp

lemma sum_bet_addBet {s : GameStateInternal} {p : PlayerStateInternal}
    (hp : s.players.find? (fun q => q.id == p.id) = some p) (amount : ℤ) :
    ((s.addBet p amount).players.map (·.bet)).sum =
      (s.players.map (·.bet)).sum + ((p.bet + amount) - p.bet) :=
  sum_map_updateFirst (·.bet) hp

/-- Chips move from a stack to the pot and the bet. -/
lemma Accounts.addBet {s : GameStateInternal} (h : Accounts s) {p : PlayerStateInternal}
    (hp : s.players.find? (fun q => q.id == p.id) = some p) {amount : ℤ} (hpos : 0 < amount)
    (hle : amount ≤ p.stack) (hphase : s.phase ≠ .showdown ∧ s.phase ≠ .settle) :
    Accounts (s.addBet p amount) := by
  have hpmem := mem_of_find?_eq_some hp
  have hpot : (s.addBet p amount).pot = s.pot + amount := rfl
  have hmem : ∀ q ∈ (s.addBet p amount).players, q ∈ s.players ∨ q = p.commit amount := by
    intro q hq
    rcases mem_updateFirst_find hp hq with hq | rfl
    · exact Or.inl hq
    · exact Or.inr rfl
  refine ⟨?_, ?_, h.pot_nonneg, ?_, ?_, ?_⟩
  · intro q hq
    rcases hmem q hq with hq | rfl
    · exact h.stack_nonneg q hq
    · simp only [PlayerStateInternal.commit]
      omega
  · intro q hq
    rcases hmem q hq with hq | rfl
    · exact h.bet_nonneg q hq
    · have := h.bet_nonneg p hpmem
      simp only [PlayerStateInternal.commit]
      omega
  · have hsplit := h.split
    have hbet := sum_bet_addBet hp amount
    have hsame : (s.addBet p amount).sidePotTotal = s.sidePotTotal := rfl
    rw [liveBets] at hsplit ⊢
    omega
  · exact fun hs => absurd hs (not_or.mpr hphase)
  · exact fun hs => absurd hs hphase.2

/-- The bets of a street move into side pots. -/
lemma Accounts.sweep {s : GameStateInternal} (h : Accounts s) {phase : HandPhase}
    (street : Street) (hphase : phase ≠ .settle) :
    Accounts { s.finishBettingRound with phase := phase, street := street } := by
  rw [finishBettingRound_eq h.bet_nonneg]
  refine ⟨?_, ?_, ?_, ?_, ?_, fun hs => absurd hs hphase⟩
  · simpa using h.stack_nonneg
  · simp
  · intro pot hpot
    rcases mem_append.mp hpot with hpot | hpot
    · exact h.pot_nonneg pot hpot
    · obtain ⟨previous, level, _, hpot⟩ := mem_layerPots s.pairwise_levels hpot
      exact (layerPot_amount_pos hpot).le
  · have hstreet := sum_street h.bet_nonneg
    have hsplit := h.split
    simp only [sidePotTotal, map_append, sum_append, streetPots, hstreet, liveBets, map_map,
      Function.comp_def, map_const', sum_replicate, smul_zero, add_zero] at hsplit ⊢
    exact hsplit
  · simp

lemma Accounts.closeIfAlone {s : GameStateInternal} (h : Accounts s) :
    Accounts s.closeIfAlone := by
  rw [closeIfAlone_eq]
  split
  · exact h.sweep s.finishBettingRound.street (by simp)
  · exact h

lemma Accounts.closeStreet {s : GameStateInternal} (h : Accounts s) :
    Accounts s.closeStreet := by
  unfold GameStateInternal.closeStreet
  dsimp only
  split
  · exact h.sweep _ (by simp)
  · exact h.sweep _ (by simp)

lemma map_account_settlePots_bet (s : GameStateInternal) :
    s.settlePots.players.map (·.bet) = s.players.map (·.bet) :=
  map_settlePots _ (fun _ _ => rfl) s

lemma liveBets_eq_zero {s : GameStateInternal} (h : ∀ p ∈ s.players, p.bet = 0) :
    s.liveBets = 0 := by
  rw [liveBets, map_congr_left h]
  simp

lemma settlePots_eq {s : GameStateInternal} (hactive : 1 ≤ s.activePlayers.length) :
    s.settlePots =
      { s with
        players := s.potsToPay.foldl (payPot s.communityCards) s.players
        pot := 0
        sidePots := [] } := by
  rw [settlePots, if_neg (by omega)]

/-- Once the bets are swept, the pots to pay hold the pot counter. -/
lemma Accounts.sum_potsToPay {s : GameStateInternal} (h : Accounts s)
    (hswept : ∀ p ∈ s.players, p.bet = 0) : (s.potsToPay.map (·.amount)).sum = s.pot := by
  have hbets := liveBets_eq_zero hswept
  unfold potsToPay
  split
  · have hsplit := h.split
    rw [sidePotTotal] at hsplit
    omega
  · simp

lemma Accounts.potsToPay_nonneg {s : GameStateInternal} (h : Accounts s)
    (hswept : ∀ p ∈ s.players, p.bet = 0) : ∀ pot ∈ s.potsToPay, 0 ≤ pot.amount := by
  unfold potsToPay
  split
  · exact h.pot_nonneg
  · rename_i hnone
    intro pot hpot
    obtain rfl := mem_singleton.mp hpot
    have hempty : s.sidePots = [] := length_eq_zero_iff.mp (by omega)
    have hsplit := h.split
    rw [sidePotTotal, hempty, liveBets_eq_zero hswept] at hsplit
    simp at hsplit
    simp [hsplit]

lemma Accounts.fold {s : GameStateInternal} (h : Accounts s) (id : PlayerId)
    (hphase : s.phase ≠ .showdown ∧ s.phase ≠ .settle) :
    Accounts (s.updatePlayer id (·.fold)) :=
  h.of_account (map_updateFirst_of_eq _ (by intro; rfl) _) rfl rfl hphase

/-- Settling clears the counters. -/
lemma Accounts.settlePots {s : GameStateInternal} (h : Accounts s)
    (hactive : 1 ≤ s.activePlayers.length) (hphase : s.phase = .showdown) :
    Accounts { s.settlePots with phase := .settle } := by
  have hswept := h.swept (Or.inl hphase)
  have hzero : ∀ p ∈ s.settlePots.players, p.bet = 0 := by
    intro p hp
    have hmem : p.bet ∈ s.players.map (·.bet) :=
      map_account_settlePots_bet s ▸ mem_map_of_mem hp
    obtain ⟨q, hq, heq⟩ := mem_map.mp hmem
    exact heq ▸ hswept q hq
  refine ⟨?_, ?_, ?_, ?_, fun _ => hzero, ?_⟩
  · rw [settlePots_eq hactive]
    exact foldl_payPot_stack_nonneg (h.potsToPay_nonneg hswept) h.stack_nonneg
  · exact fun p hp => (hzero p hp).ge
  · simp [settlePots_eq hactive]
  · have hlive := liveBets_eq_zero hzero
    have hpot : s.settlePots.pot = 0 ∧ s.settlePots.sidePotTotal = 0 := by
      simp [settlePots_eq hactive, sidePotTotal]
    change s.settlePots.pot = s.settlePots.sidePotTotal + s.settlePots.liveBets
    omega
  · simp [settlePots_eq hactive]

lemma Accounts.resetHand {s : GameStateInternal} (h : Accounts s) : Accounts s.resetHand where
  stack_nonneg := by
    simpa [GameStateInternal.resetHand, PlayerStateInternal.reset] using h.stack_nonneg
  bet_nonneg := by simp [GameStateInternal.resetHand, PlayerStateInternal.reset]
  pot_nonneg := by simp [GameStateInternal.resetHand]
  split := by
    simp [GameStateInternal.resetHand, sidePotTotal, liveBets, PlayerStateInternal.reset,
      Function.comp_def]
  swept := by simp [GameStateInternal.resetHand]
  settled := by simp [GameStateInternal.resetHand]

/-- Every rule keeps the accounts. -/
theorem Accounts.step {ids : List PlayerId} {shuffle : Shuffle} {a : GameAction}
    {m m' : HandStateMachine} (hseated : Seated ids m.state) (h : Accounts m.state)
    (hstep : Step shuffle m a m') : Accounts m'.state := by
  cases hstep with
  | postBlind id amount p hphase hp hpos hle =>
    rw [← find_id hp] at hp
    exact h.addBet hp hpos hle (by rcases hphase with hphase | hphase <;> simp [hphase])
  | lastBlind id amount p hphase hp hpos hle =>
    rw [← find_id hp] at hp
    have hbet := h.addBet hp hpos hle (by rcases hphase with hphase | hphase <;> simp [hphase])
    exact hbet.of_account (map_dealHoleCards _ (fun _ _ => rfl) _ _) rfl rfl
      (by simp [startHand])
  | deal hphase =>
    split
    · exact h.of_account rfl rfl rfl (by simp)
    · exact h.of_account rfl rfl rfl (by simp)
  | chips id amount p hphase ha hp hpos hle =>
    rw [← find_id hp] at hp
    exact (h.addBet hp hpos hle (by simp [hphase])).closeIfAlone
  | check id hphase => exact h.closeIfAlone
  | fold id p hphase hp =>
    exact (h.fold p.id (by simp [hphase])).closeIfAlone
  | next hphase => exact h.closeStreet
  | showdown hphase =>
    have hactive := hseated.active
    rw [hphase] at hactive
    exact h.settlePots hactive hphase
  | settle hphase => exact h.resetHand

lemma accounts_of_reachable {ids : List PlayerId} {startingStack : ℕ} {m : HandStateMachine}
    (hlen : 2 ≤ ids.length) (h : (machineSteps ids startingStack).Reachable m) :
    Accounts m.state := by
  have hboth : Seated ids m.state ∧ Accounts m.state := by
    refine h.invariant (I := fun m => Seated ids m.state ∧ Accounts m.state) ?_ ?_
    · rintro _ rfl
      exact ⟨.initial hlen _, .initial ids _⟩
    · exact fun _ _ _ hi hs => ⟨hi.1.step hlen hs, hi.2.step hi.1 hs⟩
  exact hboth.2

end Pokerhub
