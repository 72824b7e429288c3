import Pokerhub.Game.Accounts

/-!
# Conservation of chips

A fold can leave a pot of an earlier street without a player who may win it (`Orphans`): nobody is
paid, and its chips are lost with the reset of the counters. In the runs without such folds every
side pot can be won and no chip is created or destroyed (`chips_conserved`).
-/

namespace Pokerhub

open GameStateInternal HandStateMachine TransitionSystem List

/-- The table holds `total` chips, and somebody may win each side pot. -/
structure Chips (total : ℤ) (s : GameStateInternal) : Prop where
  total : s.totalChips = total
  contested : ∀ pot ∈ s.sidePots, s.Contested pot

/-- A fold after which nobody in the hand may win some side pot. -/
def Orphans (m : HandStateMachine) (a : GameAction) : Prop :=
  ∃ id, a = .fold id ∧ m.state.phase = .bettingRound ∧
    ∃ pot ∈ m.state.sidePots,
      ∀ p ∈ m.state.players, p.id ∈ pot.players → p.folded = true ∨ p.id = id

lemma Chips.initial (ids : List PlayerId) (startingStack : ℕ) :
    Chips (ids.length * startingStack) (HandStateMachine.initial ids startingStack).state where
  total := by simp [HandStateMachine.initial, totalChips, Function.comp_def]
  contested := by simp [HandStateMachine.initial]

/-- The chips depend on the stacks, the pot and who may win it. -/
lemma Chips.of_eq {total : ℤ} {s s' : GameStateInternal} (h : Chips total s)
    (hstacks : s'.players.map (·.stack) = s.players.map (·.stack))
    (hroster : s'.roster = s.roster) (hpot : s'.pot = s.pot) (hpots : s'.sidePots = s.sidePots) :
    Chips total s' where
  total := by
    rw [totalChips, hstacks, hpot]
    exact h.total
  contested pot hmem := by
    rw [Contested, hroster]
    exact h.contested pot (hpots ▸ hmem)

lemma Chips.addBet {total : ℤ} {s : GameStateInternal} (h : Chips total s)
    {p : PlayerStateInternal} (hp : s.players.find? (fun q => q.id == p.id) = some p)
    (amount : ℤ) : Chips total (s.addBet p amount) where
  total := by
    have htotal := h.total
    have hstack := sum_stack_addBet hp amount
    have hpot : (s.addBet p amount).pot = s.pot + amount := rfl
    rw [totalChips] at htotal ⊢
    omega
  contested pot hpot := by
    rw [Contested, roster_addBet]
    exact h.contested pot hpot

lemma Chips.sweep {total : ℤ} {s : GameStateInternal} (h : Chips total s) (hs : Accounts s)
    (hactive : 1 ≤ s.activePlayers.length) (phase : HandPhase) (street : Street) :
    Chips total { s.finishBettingRound with phase := phase, street := street } := by
  rw [finishBettingRound_eq hs.bet_nonneg]
  constructor
  · simpa [totalChips, Function.comp_def] using h.total
  · have hroster : (s.players.map fun p => { p with bet := 0 }).map
        (fun p => (p.id, p.folded)) = s.roster := by
      simp [roster]
    intro pot hpot
    rw [Contested, roster, hroster]
    rcases mem_append.mp hpot with hpot | hpot
    · exact h.contested pot hpot
    · obtain ⟨previous, level, _, hpot⟩ := mem_layerPots s.pairwise_levels hpot
      exact layerPot_contested hactive hpot

lemma Chips.closeIfAlone {total : ℤ} {s : GameStateInternal} (h : Chips total s)
    (hs : Accounts s) (hactive : 1 ≤ s.activePlayers.length) : Chips total s.closeIfAlone := by
  rw [closeIfAlone_eq]
  split
  · exact h.sweep hs hactive .showdown s.finishBettingRound.street
  · exact h

lemma Chips.closeStreet {total : ℤ} {s : GameStateInternal} (h : Chips total s)
    (hs : Accounts s) (hactive : 1 ≤ s.activePlayers.length) : Chips total s.closeStreet := by
  unfold GameStateInternal.closeStreet
  dsimp only
  split
  · exact h.sweep hs hactive _ _
  · exact h.sweep hs hactive _ _

/-- A fold that orphans no pot. -/
lemma Chips.fold {total : ℤ} {s : GameStateInternal} (h : Chips total s) {id : PlayerId}
    (hheirs : ∀ pot ∈ s.sidePots,
      ∃ p ∈ s.players, p.id ∈ pot.players ∧ p.folded = false ∧ p.id ≠ id) :
    Chips total (s.updatePlayer id (·.fold)) where
  total := by
    have hstacks : (s.updatePlayer id (·.fold)).players.map (·.stack) =
        s.players.map (·.stack) := map_updateFirst_of_eq _ (by intro; rfl) _
    rw [totalChips, hstacks]
    exact h.total
  contested pot hpot := by
    obtain ⟨p, hp, hin, hfolded, hne⟩ := hheirs pot hpot
    refine ⟨(p.id, p.folded), mem_map_of_mem ?_, hfolded, hin⟩
    exact mem_updateFirst_of_mem hp (by simpa using hne)

/-- Every pot to pay has a contender. -/
lemma Chips.potsToPay_contested {total : ℤ} {s : GameStateInternal} (h : Chips total s)
    (hactive : 1 ≤ s.activePlayers.length) :
    ∀ pot ∈ s.potsToPay, ∃ p ∈ s.players, isContender pot p = true := by
  unfold potsToPay
  split
  · exact fun pot hpot => exists_contender_iff.mpr (h.contested pot hpot)
  · intro pot hpot
    obtain rfl := mem_singleton.mp hpot
    obtain ⟨p, hp⟩ := exists_mem_of_length_pos hactive
    obtain ⟨hplayer, hfolded⟩ := mem_filter.mp hp
    refine ⟨p, hplayer, ?_⟩
    rw [isContender, hfolded, Bool.true_and]
    simpa using ⟨p, hp, rfl⟩

/-- Settling pays the pot counter out to the stacks. -/
lemma Chips.settlePots {total : ℤ} {s : GameStateInternal} (h : Chips total s)
    (hs : Accounts s) (hactive : 1 ≤ s.activePlayers.length)
    (hswept : ∀ p ∈ s.players, p.bet = 0) :
    Chips total { s.settlePots with phase := .settle } where
  total := by
    have htotal := h.total
    simp only [settlePots_eq hactive, totalChips,
      sum_foldl_payPot (h.potsToPay_contested hactive), hs.sum_potsToPay hswept] at htotal ⊢
    omega
  contested := by simp [settlePots_eq hactive]

/-- The pot of a settled hand has been paid out. -/
lemma Accounts.pot_eq_zero {s : GameStateInternal} (hs : Accounts s) (hphase : s.phase = .settle) :
    s.pot = 0 := by
  rw [hs.split, sidePotTotal, hs.settled hphase, liveBets_eq_zero (hs.swept (Or.inr hphase))]
  rfl

/-- The reset forgets counters that are zero. -/
lemma Chips.resetHand {total : ℤ} {s : GameStateInternal} (h : Chips total s) (hs : Accounts s)
    (hphase : s.phase = .settle) : Chips total s.resetHand where
  total := by
    have htotal := h.total
    rw [totalChips, hs.pot_eq_zero hphase] at htotal
    simpa [GameStateInternal.resetHand, totalChips, PlayerStateInternal.reset,
      Function.comp_def] using htotal
  contested := by simp [GameStateInternal.resetHand]

/-- Every rule but an orphaning fold keeps the chips. -/
theorem Chips.step {ids : List PlayerId} {total : ℤ} {shuffle : Shuffle} {a : GameAction}
    {m m' : HandStateMachine} (hseated : Seated ids m.state) (hs : Accounts m.state)
    (h : Chips total m.state) (hok : ¬ Orphans m a) (hstep : Step shuffle m a m') :
    Chips total m'.state := by
  have hactive := hseated.active
  cases hstep with
  | postBlind id amount p hphase hp =>
    rw [← find_id hp] at hp
    exact h.addBet hp amount
  | lastBlind id amount p hphase hp =>
    rw [← find_id hp] at hp
    exact (h.addBet hp amount).of_eq (map_dealHoleCards _ (fun _ _ => rfl) _ _)
      (roster_startHand _ _) rfl rfl
  | deal hphase => split <;> exact h.of_eq rfl rfl rfl rfl
  | chips id amount p hphase ha hp hpos hle =>
    rw [← find_id hp] at hp
    refine (h.addBet hp amount).closeIfAlone (hs.addBet hp hpos hle (by simp [hphase])) ?_
    rw [length_activePlayers_eq, roster_addBet, ← length_activePlayers_eq]
    rw [hphase] at hactive
    simp only [HandPhase.minActive] at hactive
    omega
  | check id hphase =>
    rw [hphase] at hactive
    simp only [HandPhase.minActive] at hactive
    exact h.closeIfAlone hs (by omega)
  | fold id p hphase hp =>
    rw [find_id hp]
    have hfold : Chips total (m.state.updatePlayer id (·.fold)) := by
      refine h.fold fun pot hpot => ?_
      by_contra hnone
      refine hok ⟨id, rfl, hphase, pot, hpot, fun q hq hin => ?_⟩
      by_contra hq'
      simp only [not_or, Bool.not_eq_true] at hq'
      exact hnone ⟨q, hq, hin, hq'.1, hq'.2⟩
    refine hfold.closeIfAlone (hs.fold id (by simp [hphase])) ?_
    have hone := countP_updateFirst_fold m.state.roster id
    rw [hphase, length_activePlayers_eq] at hactive
    simp only [HandPhase.minActive] at hactive
    rw [length_activePlayers_eq, roster_fold]
    omega
  | next hphase =>
    rw [hphase] at hactive
    simp only [HandPhase.minActive] at hactive
    exact h.closeStreet hs (by omega)
  | showdown hphase =>
    rw [hphase] at hactive
    exact h.settlePots hs hactive (hs.swept (Or.inl hphase))
  | settle hphase => exact h.resetHand hs hphase

lemma chips_of_reachable {ids : List PlayerId} {startingStack : ℕ} {m : HandStateMachine}
    (hlen : 2 ≤ ids.length)
    (h : ((machineSteps ids startingStack).restrict fun m l => ¬ Orphans m l.2).Reachable m) :
    Chips (ids.length * startingStack) m.state := by
  refine h.restrict_invariant (I := fun m => Chips (ids.length * startingStack) m.state) ?_ ?_
  · rintro _ rfl
    exact .initial ids startingStack
  · exact fun _ _ _ hreach hi hok hstep =>
      hi.step (seated_of_reachable hlen hreach) (accounts_of_reachable hlen hreach) hok hstep

/-- In the runs without an orphaning fold the chips on the table are always those that were
brought to it, and no stack, bet or side pot is negative. -/
theorem chips_conserved (ids : List PlayerId) (startingStack : ℕ) {m : HandStateMachine}
    (hlen : 2 ≤ ids.length)
    (h : ((machineCalls ids startingStack).restrict fun m l => ¬ Orphans m l.2.action).Reachable
      m) :
    m.state.totalChips = ids.length * startingStack ∧
      (∀ p ∈ m.state.players, 0 ≤ p.stack ∧ 0 ≤ p.bet) ∧
      ∀ pot ∈ m.state.sidePots, 0 ≤ pot.amount := by
  have hsteps := reachable_of_calls (fun m a => ¬ Orphans m a) hlen
    (fun m _ => by rintro ⟨id, ha, _⟩; cases ha) h
  have haccounts := accounts_of_reachable hlen hsteps.of_restrict
  exact ⟨(chips_of_reachable hlen hsteps).total,
    fun p hp => ⟨haccounts.stack_nonneg p hp, haccounts.bet_nonneg p hp⟩, haccounts.pot_nonneg⟩

/-- The first blind of a hand for two. -/
theorem chips_conserved_blind :
    (callAll (·.map some) [.applyAction (.postBlind "p1" 1)]
      (HandStateMachine.initial ["p1", "p2"] 100)).state.totalChips = 200 :=
  (chips_conserved ["p1", "p2"] 100 (by decide)
    (Reachable.tail (a := ((·.map some), .applyAction (.postBlind "p1" 1))) (.of_init rfl)
      ⟨(by rintro ⟨id, ha, _⟩; cases ha), rfl⟩)).1

/-- With blinds 1 and 2 swept into two pots, a fold of the big blind on the flop loses the second
pot. -/
theorem fold_loses_chips :
    ¬ ∀ (ids : List PlayerId) (startingStack : ℕ) (m : HandStateMachine), ids.Nodup →
      2 ≤ ids.length → (machineCalls ids startingStack).Reachable m →
      m.state.totalChips = ids.length * startingStack := by
  intro h
  have hchips := h ["p1", "p2"] 100 _ (by decide) (by decide)
    (reachable_callAll _ _ (·.map some)
      [.applyAction (.postBlind "p1" 1), .applyAction (.postBlind "p2" 2), .applyAction .next,
        .applyAction .next, .applyAction .next, .applyAction (.fold "p2")])
  revert hchips
  decide +kernel

end Pokerhub
