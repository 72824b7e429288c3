import Pokerhub.Game.Accounts

/-!
# The betting round

Nothing in a betting round asks whether the acting player has folded, nor whether the bets of the
street are equal before the next street. The round is played with integrity exactly when neither
of this happens: no folded player puts chips in (`FoldedBet`) and no street ends early
(`EarlyNext`).
-/

namespace Pokerhub

open GameStateInternal HandStateMachine TransitionSystem List

/-! ### What may go wrong in a betting round -/

/-- A folded player puts chips in. -/
def FoldedBet (m : HandStateMachine) (a : GameAction) : Prop :=
  ∃ id amount p, m.state.requestedBet a = some (id, amount) ∧
    m.state.players.find? (fun p => p.id == id) = some p ∧ p.folded = true ∧
    0 < amount ∧ amount ≤ p.stack

/-- The street ends before the bets of everybody who can still bet are equal. -/
def EarlyNext (m : HandStateMachine) (a : GameAction) : Prop :=
  a = .next ∧ ∃ p ∈ m.state.players, p.folded = false ∧ p.allIn = false ∧
    p.bet ≠ m.state.currentBet

/-- The action ends the round, by `next` or by a fold that leaves one player. -/
def EndsRound (m : HandStateMachine) (a : GameAction) : Prop :=
  a = .next ∨ ∃ id p, a = .fold id ∧ m.state.players.find? (fun p => p.id == id) = some p ∧
    (m.state.updatePlayer p.id (·.fold)).activePlayers.length ≤ 1

/-- The round ends while a folded player has a bet in front of him. -/
def SweepsFolded (m : HandStateMachine) (a : GameAction) : Prop :=
  EndsRound m a ∧ ∃ p ∈ m.state.players, p.folded = true ∧ p.bet ≠ 0

/-- The chips of folded players stay: their stacks, and their bets for as long as the bets of the
round are not collected. -/
def FoldedKept (m m' : HandStateMachine) : Prop :=
  ∀ p ∈ m.state.players, p.folded = true → ∀ p' ∈ m'.state.players, p'.id = p.id →
    p'.stack = p.stack ∧
      (p'.bet = p.bet ∨ (m'.state.phase ≠ .bettingRound ∧ p'.bet = 0))

/-- The chips of folded players stay, and not even the end of the round collects their bets. -/
def FoldedFrozen (m m' : HandStateMachine) : Prop :=
  ∀ p ∈ m.state.players, p.folded = true → ∀ p' ∈ m'.state.players, p'.id = p.id →
    p'.stack = p.stack ∧ p'.bet = p.bet

/-- `next` leaves the betting round with the bets of the street settled. -/
def BetsSettled (m : HandStateMachine) (a : GameAction) (m' : HandStateMachine) : Prop :=
  a = .next → m'.state.phase ≠ .bettingRound →
    ∀ p ∈ m.state.players, p.folded = false → p.allIn = false → p.bet = m.state.currentBet

/-- An accepted action satisfies `accepted`, a rejected one changes nothing. -/
def Outcome (shuffle : Shuffle) (m : HandStateMachine) (a : GameAction)
    (accepted : HandStateMachine → Prop) : Prop :=
  match (apply shuffle a).run m with
  | .ok _ m' => accepted m'
  | .error _ m' => m' = m

lemma outcome_iff {shuffle : Shuffle} {m : HandStateMachine} {a : GameAction}
    {accepted : HandStateMachine → Prop} :
    Outcome shuffle m a accepted ↔
      ∀ m', (apply shuffle a).run m = .ok () m' → accepted m' := by
  unfold Outcome
  rcases apply_cases shuffle a m with ⟨m₁, hrun, _⟩ | ⟨e, hrun⟩
  · simp [hrun]
  · simp [hrun]

section Round

variable {ids : List PlayerId} {shuffle : Shuffle} {a : GameAction} {m m' : HandStateMachine}

/-- Different players have different ids. -/
lemma eq_of_id_eq (hids : ids.Nodup) (h : Seated ids m.state) {p q : PlayerStateInternal}
    (hp : p ∈ m.state.players) (hq : q ∈ m.state.players) (hpq : p.id = q.id) : p = q := by
  have hnodup : (m.state.players.map (·.id)).Nodup := by
    rw [map_id_eq, h.ids]
    exact hids
  exact inj_on_of_nodup_map hnodup hp hq hpq

lemma addBet_closeIfAlone (h : Seated ids m.state) (hphase : m.state.phase = .bettingRound)
    (p : PlayerStateInternal) (amount : ℤ) :
    (m.state.addBet p amount).closeIfAlone = m.state.addBet p amount := by
  have hactive := h.active
  rw [hphase] at hactive
  refine closeIfAlone_of_two_le ?_
  rwa [length_activePlayers_eq, roster_addBet, ← length_activePlayers_eq]

/-- Sweeping only touches bets. -/
lemma mem_finishBettingRound {s : GameStateInternal} (hbets : ∀ p ∈ s.players, 0 ≤ p.bet)
    {p' : PlayerStateInternal} (hp' : p' ∈ s.finishBettingRound.players) :
    ∃ p ∈ s.players, p' = { p with bet := 0 } := by
  rw [finishBettingRound_eq hbets] at hp'
  obtain ⟨p, hp, rfl⟩ := mem_map.mp hp'
  exact ⟨p, hp, rfl⟩

lemma mem_closeStreet {s : GameStateInternal} (hbets : ∀ p ∈ s.players, 0 ≤ p.bet)
    {p' : PlayerStateInternal} (hp' : p' ∈ s.closeStreet.players) :
    ∃ p ∈ s.players, p' = { p with bet := 0 } := by
  unfold closeStreet at hp'
  dsimp only at hp'
  split at hp'
  · exact mem_finishBettingRound hbets hp'
  · exact mem_finishBettingRound hbets hp'

lemma fold_bet_nonneg (hbets : ∀ p ∈ m.state.players, 0 ≤ p.bet) (id : PlayerId) :
    ∀ p ∈ (m.state.updatePlayer id (·.fold)).players, 0 ≤ p.bet := by
  intro p hp
  rcases mem_updateFirst hp with hp | ⟨q, hq, _, rfl⟩
  · exact hbets p hp
  · exact hbets q hq

/-- The players after a fold: only `folded` and, if the round ends, the bets may differ. -/
lemma mem_fold {id : PlayerId} (hbets : ∀ p ∈ m.state.players, 0 ≤ p.bet)
    {p' : PlayerStateInternal}
    (hp' : p' ∈ (m.state.updatePlayer id (·.fold)).closeIfAlone.players) :
    ∃ p ∈ m.state.players, p'.id = p.id ∧ p'.stack = p.stack ∧
      (p'.bet = p.bet ∨
        ((m.state.updatePlayer id (·.fold)).activePlayers.length ≤ 1 ∧ p'.bet = 0)) := by
  have hmem : ∀ q ∈ (m.state.updatePlayer id (·.fold)).players,
      ∃ p ∈ m.state.players, q.id = p.id ∧ q.stack = p.stack ∧ q.bet = p.bet := by
    intro q hq
    rcases mem_updateFirst hq with hq | ⟨p, hp, _, rfl⟩
    · exact ⟨q, hq, rfl, rfl, rfl⟩
    · exact ⟨p, hp, rfl, rfl, rfl⟩
  rw [closeIfAlone_eq] at hp'
  split at hp'
  · rename_i halone
    obtain ⟨q, hq, rfl⟩ := mem_finishBettingRound (fold_bet_nonneg hbets id) hp'
    obtain ⟨p, hp, hid, hstack, _⟩ := hmem q hq
    exact ⟨p, hp, hid, hstack, Or.inr ⟨halone, rfl⟩⟩
  · obtain ⟨p, hp, hid, hstack, hbet⟩ := hmem p' hp'
    exact ⟨p, hp, hid, hstack, Or.inl hbet⟩

/-- What an accepted action does to the chips of a folded player who does not act himself. -/
lemma folded_chips (hids : ids.Nodup) (h : Seated ids m.state)
    (hbets : ∀ p ∈ m.state.players, 0 ≤ p.bet) (hphase : m.state.phase = .bettingRound)
    (hstep : Step shuffle m a m') (hok : ¬ FoldedBet m a) {p p' : PlayerStateInternal}
    (hp : p ∈ m.state.players) (hfolded : p.folded = true) (hp' : p' ∈ m'.state.players)
    (hid : p'.id = p.id) :
    p'.stack = p.stack ∧
      (p'.bet = p.bet ∨ (EndsRound m a ∧ m'.state.phase ≠ .bettingRound ∧ p'.bet = 0)) := by
  cases hstep with
  | postBlind _ _ _ hphase' | lastBlind _ _ _ hphase' => simp [hphase] at hphase'
  | deal hphase' | showdown hphase' | settle hphase' => simp [hphase] at hphase'
  | chips id amount q _ ha hq hpos hle =>
    have hqmem := mem_of_find?_eq_some hq
    rw [addBet_closeIfAlone h hphase] at hp'
    have hself : m.state.players.find? (fun r => r.id == q.id) = some q := by rwa [find_id hq]
    rcases mem_updateFirst_find hself hp' with hp' | rfl
    · obtain rfl := eq_of_id_eq hids h hp' hp hid
      exact ⟨rfl, Or.inl rfl⟩
    · obtain rfl := eq_of_id_eq hids h hqmem hp hid
      exact absurd ⟨id, amount, q, ha, hq, hfolded, hpos, hle⟩ hok
  | check id =>
    have hactive := h.active
    rw [hphase] at hactive
    rw [closeIfAlone_of_two_le hactive] at hp'
    obtain rfl := eq_of_id_eq hids h hp' hp hid
    exact ⟨rfl, Or.inl rfl⟩
  | fold id q _ hq =>
    obtain ⟨r, hr, hrid, hstack, hbet⟩ := mem_fold hbets hp'
    obtain rfl := eq_of_id_eq hids h hr hp (hrid.symm.trans hid)
    refine ⟨hstack, hbet.imp_right fun ⟨halone, hzero⟩ => ⟨?_, ?_, hzero⟩⟩
    · exact Or.inr ⟨id, q, rfl, hq, halone⟩
    · rw [closeIfAlone_phase, if_pos halone]
      simp
  | next =>
    obtain ⟨q, hq, rfl⟩ := mem_closeStreet hbets hp'
    obtain rfl := eq_of_id_eq hids h hq hp hid
    exact ⟨rfl, Or.inr ⟨Or.inl rfl, closeStreet_phase _, rfl⟩⟩

/-- A folded player's bet is taken from his stack. -/
lemma foldedBet_breaks (shuffle : Shuffle) (h : Seated ids m.state)
    (hphase : m.state.phase = .bettingRound)
    (hbad : FoldedBet m a) :
    ∃ m', Step shuffle m a m' ∧ ∃ p ∈ m.state.players, p.folded = true ∧
      ∃ p' ∈ m'.state.players, p'.id = p.id ∧ p'.stack ≠ p.stack := by
  obtain ⟨id, amount, p, ha, hp, hfolded, hpos, hle⟩ := hbad
  refine ⟨_, .chips id amount p hphase ha hp hpos hle, p, mem_of_find?_eq_some hp, hfolded,
    p.commit amount, ?_, rfl, ?_⟩
  · rw [addBet_closeIfAlone h hphase]
    rw [← find_id hp] at hp
    exact mem_updateFirst_self hp
  · simp only [PlayerStateInternal.commit]
    omega

lemma earlyNext_breaks (shuffle : Shuffle) (hphase : m.state.phase = .bettingRound)
    (hbad : EarlyNext m a) :
    ∃ m', Step shuffle m a m' ∧ ¬ BetsSettled m a m' := by
  obtain ⟨rfl, p, hp, hfolded, hallIn, hbet⟩ := hbad
  exact ⟨_, .next hphase, fun hsettled =>
    hbet (hsettled rfl (closeStreet_phase _) p hp hfolded hallIn)⟩

/-- The end of the round takes the bets of the folded players away. -/
lemma sweepsFolded_breaks (shuffle : Shuffle) (hbets : ∀ p ∈ m.state.players, 0 ≤ p.bet)
    (hphase : m.state.phase = .bettingRound) (hbad : SweepsFolded m a) :
    ∃ m', Step shuffle m a m' ∧ ¬ FoldedFrozen m m' := by
  have hswept : ∀ {s s' : GameStateInternal}, (∀ p ∈ s.players, 0 ≤ p.bet) →
      s'.players = s.finishBettingRound.players → ∀ p ∈ s.players,
      ∃ p' ∈ s'.players, p'.id = p.id ∧ p'.bet = 0 := by
    intro s s' hs heq p hp
    rw [heq, finishBettingRound_eq hs]
    exact ⟨_, mem_map_of_mem hp, rfl, rfl⟩
  obtain ⟨hends, p, hp, hfolded, hbet⟩ := hbad
  rcases hends with rfl | ⟨id, q, rfl, hq, halone⟩
  · refine ⟨_, .next hphase, fun hfrozen => ?_⟩
    have hplayers : m.state.closeStreet.players = m.state.finishBettingRound.players := by
      unfold closeStreet
      dsimp only
      split <;> rfl
    obtain ⟨p', hp', hid, hzero⟩ := hswept hbets hplayers p hp
    exact hbet ((hfrozen p hp hfolded p' hp' hid).2.symm.trans hzero)
  · refine ⟨_, .fold id q hphase hq, fun hfrozen => ?_⟩
    have hplayers : (m.state.updatePlayer q.id (·.fold)).closeIfAlone.players =
        (m.state.updatePlayer q.id (·.fold)).finishBettingRound.players := by
      rw [closeIfAlone_eq, if_pos halone]
    have hfoldbets : ∀ p ∈ (m.state.updatePlayer q.id (·.fold)).players, 0 ≤ p.bet :=
      fold_bet_nonneg hbets q.id
    have hmem : p.id ∈ (m.state.updatePlayer q.id (·.fold)).players.map (·.id) := by
      have hsame : (m.state.updatePlayer q.id (·.fold)).players.map (·.id) =
          m.state.players.map (·.id) := map_updateFirst_of_eq _ (by intro; rfl) _
      rw [hsame]
      exact mem_map_of_mem hp
    obtain ⟨r, hr, hrid⟩ := mem_map.mp hmem
    obtain ⟨p', hp', hid, hzero⟩ := hswept hfoldbets hplayers r hr
    exact hbet ((hfrozen p hp hfolded p' hp' (hid.trans hrid)).2.symm.trans hzero)

end Round

/-- A betting round is played with integrity exactly when no folded player puts chips in and no
street ends early. The bets of folded players are moreover never touched exactly when the round
does not end over one of them. -/
theorem betting_integrity_iff {ids : List PlayerId} {startingStack : ℕ} {m : HandStateMachine}
    (hids : ids.Nodup) (hlen : 2 ≤ ids.length)
    (hreach : (machineCalls ids startingStack).Reachable m)
    (hphase : m.state.phase = .bettingRound) (shuffle : Shuffle) (a : GameAction) :
    (Outcome shuffle m a (fun m' => FoldedKept m m' ∧ BetsSettled m a m') ↔
        ¬ FoldedBet m a ∧ ¬ EarlyNext m a) ∧
      (Outcome shuffle m a (fun m' => FoldedFrozen m m' ∧ BetsSettled m a m') ↔
        ¬ FoldedBet m a ∧ ¬ EarlyNext m a ∧ ¬ SweepsFolded m a) := by
  have hsteps := reachable_steps hlen hreach
  have hseated := seated_of_reachable hlen hsteps
  have hbets := (accounts_of_reachable hlen hsteps).bet_nonneg
  simp only [outcome_iff, run_apply_iff]
  have hsettled : ¬ EarlyNext m a → ∀ m', BetsSettled m a m' := by
    intro hok m' ha _ p hp hfolded hallIn
    by_contra hne
    exact hok ⟨ha, p, hp, hfolded, hallIn, hne⟩
  refine ⟨⟨fun h => ⟨fun hbad => ?_, fun hbad => ?_⟩, ?_⟩,
    ⟨fun h => ⟨fun hbad => ?_, fun hbad => ?_, fun hbad => ?_⟩, ?_⟩⟩
  · obtain ⟨m', hstep, p, hp, hfolded, p', hp', hid, hne⟩ :=
      foldedBet_breaks shuffle hseated hphase hbad
    exact hne ((h m' hstep).1 p hp hfolded p' hp' hid).1
  · obtain ⟨m', hstep, hbreak⟩ := earlyNext_breaks shuffle hphase hbad
    exact hbreak (h m' hstep).2
  · rintro ⟨hfold, hearly⟩ m' hstep
    refine ⟨fun p hp hfolded p' hp' hid => ?_, hsettled hearly m'⟩
    obtain ⟨hstack, hbet⟩ := folded_chips hids hseated hbets hphase hstep hfold hp hfolded hp' hid
    exact ⟨hstack, hbet.imp_right (·.2)⟩
  · obtain ⟨m', hstep, p, hp, hfolded, p', hp', hid, hne⟩ :=
      foldedBet_breaks shuffle hseated hphase hbad
    exact hne ((h m' hstep).1 p hp hfolded p' hp' hid).1
  · obtain ⟨m', hstep, hbreak⟩ := earlyNext_breaks shuffle hphase hbad
    exact hbreak (h m' hstep).2
  · obtain ⟨m', hstep, hbreak⟩ := sweepsFolded_breaks shuffle hbets hphase hbad
    exact hbreak (h m' hstep).1
  · rintro ⟨hfold, hearly, hsweep⟩ m' hstep
    refine ⟨fun p hp hfolded p' hp' hid => ?_, hsettled hearly m'⟩
    obtain ⟨hstack, hbet⟩ := folded_chips hids hseated hbets hphase hstep hfold hp hfolded hp' hid
    refine ⟨hstack, ?_⟩
    rcases hbet with hbet | ⟨hends, _, hzero⟩
    · exact hbet
    · have hpbet : p.bet = 0 := by
        by_contra hne
        exact hsweep ⟨hends, p, hp, hfolded, hne⟩
      rw [hzero, hpbet]

/-- Two players after their blinds, before the first check. -/
theorem betting_integrity_check :
    ∃ m, m.state.phase = .bettingRound ∧
      Outcome (·.map some) m (.check "p1") fun m' =>
        FoldedKept m m' ∧ BetsSettled m (.check "p1") m' :=
  ⟨callAll (·.map some)
      [.apply (.postBlind "p1" 1), .apply (.postBlind "p2" 2), .apply .next]
      (HandStateMachine.initial ["p1", "p2"] 100),
    by decide +kernel,
    (betting_integrity_iff (by decide) (by decide) (reachable_callAll _ _ _ _)
      (by decide +kernel) (·.map some) (.check "p1")).1.mpr
      ⟨fun ⟨_, _, _, ha, _⟩ => by simp [requestedBet] at ha, fun ⟨ha, _⟩ => by cases ha⟩⟩

/-- A player who folded before the flop bets again. -/
theorem folded_player_bets :
    ¬ ∀ (ids : List PlayerId) (startingStack : ℕ) (m : HandStateMachine) (shuffle : Shuffle)
      (a : GameAction), ids.Nodup → 2 ≤ ids.length →
      (machineCalls ids startingStack).Reachable m → m.state.phase = .bettingRound →
      Outcome shuffle m a fun m' => FoldedKept m m' ∧ BetsSettled m a m' := by
  intro h
  have hreach := reachable_callAll ["p1", "p2", "p3"] 100 (·.map some)
    [.apply (.postBlind "p1" 1), .apply (.postBlind "p2" 2),
      .apply (.postBlind "p3" 2), .apply .next, .apply (.fold "p1")]
  have hseated := seated_of_reachable (by decide) (reachable_steps (by decide) hreach)
  have hphase := show (callAll (·.map some) [.apply (.postBlind "p1" 1),
    .apply (.postBlind "p2" 2), .apply (.postBlind "p3" 2), .apply .next, .apply (.fold "p1")]
    (HandStateMachine.initial ["p1", "p2", "p3"] 100)).state.phase = .bettingRound by
      decide +kernel
  obtain ⟨m', hstep, p, hp, hfolded, p', hp', hid, hne⟩ := foldedBet_breaks
    (a := .bet "p1" 5) (·.map some) hseated hphase
    ⟨"p1", 5, ⟨"p1", 99, true, 1, false, some [some 51, some 50]⟩, rfl, by decide +kernel,
      rfl, by decide, by decide⟩
  have hout := outcome_iff.mp (h _ _ _ (·.map some) (.bet "p1" 5) (by decide) (by decide) hreach
    hphase) m' hstep.run_apply
  exact hne (hout.1 p hp hfolded p' hp' hid).1

end Pokerhub
