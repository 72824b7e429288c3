import Pokerhub.Game.Replay

/-!
# Two hands that differ in the cards

Without its cards a state is changed by the machine as it is with them: every operation up to the
showdown commutes with taking the cards away (`cardless`). So the same calls on two hands that
differ in nothing but the cards are accepted or refused alike, and lead to such hands again
(`Step.twin`).
-/

namespace Pokerhub

open GameStateInternal GameEngine HandStateMachine List EStateM

/-! ### Without the cards -/

def PlayerStateInternal.cardless (p : PlayerStateInternal) : PlayerStateInternal :=
  { p with holeCards := none }

namespace GameStateInternal

/-- What is left of a state without the cards. -/
def cardless (s : GameStateInternal) : GameStateInternal :=
  { s with players := s.players.map PlayerStateInternal.cardless, deck := [], communityCards := [] }

variable (s : GameStateInternal)

lemma find?_cardless (id : PlayerId) :
    s.cardless.players.find? (fun p => p.id == id) =
      (s.players.find? fun p => p.id == id).map PlayerStateInternal.cardless := by
  rw [cardless, find?_map]
  rfl

lemma activePlayers_cardless :
    s.cardless.activePlayers = s.activePlayers.map PlayerStateInternal.cardless := by
  rw [activePlayers, cardless, filter_map]
  rfl

lemma bettors_cardless : s.cardless.bettors = s.bettors.map PlayerStateInternal.cardless := by
  rw [bettors, cardless, filter_map]
  rfl

lemma levels_cardless : s.cardless.levels = s.levels := by
  rw [levels, bettors_cardless, map_map]
  rfl

/-- A write to a player that does not touch the cards. -/
lemma updatePlayer_cardless (id : PlayerId) {f : PlayerStateInternal → PlayerStateInternal}
    (hf : ∀ p, (f p).cardless = f p.cardless) :
    (s.updatePlayer id f).cardless = s.cardless.updatePlayer id f := by
  have hplayers := @map_updateFirst _ _ (fun p : PlayerStateInternal => p.id == id) f
    (fun p => p.id == id) f PlayerStateInternal.cardless s.players (fun _ _ => rfl) fun p _ => hf p
  simp only [updatePlayer, cardless, hplayers]

lemma addBet_cardless (p : PlayerStateInternal) (amount : ℤ) :
    (s.addBet p amount).cardless = s.cardless.addBet p.cardless amount := by
  have hwrite := s.updatePlayer_cardless p.id (f := (·.commit amount)) fun _ => rfl
  exact congrArg (fun t : GameStateInternal =>
    { t with
      pot := s.pot + amount
      currentBet := if p.bet + amount > s.currentBet then p.bet + amount else s.currentBet }) hwrite

lemma layerPot_cardless (bettors : List PlayerStateInternal) (previous level : ℤ) :
    s.cardless.layerPot (bettors.map PlayerStateInternal.cardless) previous level =
      s.layerPot bettors previous level := by
  have hcontributors : (bettors.map PlayerStateInternal.cardless).filter (fun p => level ≤ p.bet) =
      (bettors.filter fun p => level ≤ p.bet).map PlayerStateInternal.cardless := filter_map
  have hcontenders : ∀ ps : List PlayerStateInternal,
      (ps.map PlayerStateInternal.cardless).filter (fun p => !p.folded) =
        (ps.filter fun p => !p.folded).map PlayerStateInternal.cardless := fun _ => filter_map
  have hothers : ∀ (ids : List PlayerId) (ps : List PlayerStateInternal),
      (ps.map PlayerStateInternal.cardless).filter (fun p => !ids.contains p.id) =
        (ps.filter fun p => !ids.contains p.id).map PlayerStateInternal.cardless :=
    fun _ _ => filter_map
  have hids : ∀ ps : List PlayerStateInternal,
      (ps.map PlayerStateInternal.cardless).map (·.id) = ps.map (·.id) := fun ps => by
    rw [map_map]
    rfl
  have hpairs : ∀ (amount : ℤ) (ps : List PlayerStateInternal),
      (ps.map PlayerStateInternal.cardless).map (fun p => (p.id, amount)) =
        ps.map fun p => (p.id, amount) := fun _ ps => by
    rw [map_map]
    rfl
  simp only [layerPot, hcontributors, hcontenders, activePlayers_cardless, hpairs, hothers,
    length_map, hids]
  split_ifs <;> simp only [hids]

lemma layerPots_cardless (bettors : List PlayerStateInternal) (levels : List ℤ) (previous : ℤ) :
    s.cardless.layerPots (bettors.map PlayerStateInternal.cardless) previous levels =
      s.layerPots bettors previous levels := by
  induction levels generalizing previous with
  | nil => rfl
  | cons level levels ih => rw [layerPots, layerPots, layerPot_cardless, ih]

lemma finishBettingRound_cardless :
    s.finishBettingRound.cardless = s.cardless.finishBettingRound := by
  rw [finishBettingRound, finishBettingRound, bettors_cardless, layerPots_cardless, levels_cardless,
    length_map]
  split_ifs
  · rfl
  · simp only [cardless, map_map]
    rfl

lemma closeIfAlone_cardless : s.closeIfAlone.cardless = s.cardless.closeIfAlone := by
  rw [closeIfAlone_eq, closeIfAlone_eq, activePlayers_cardless, length_map,
    ← finishBettingRound_cardless]
  split_ifs <;> rfl

lemma closeStreet_cardless : s.closeStreet.cardless = s.cardless.closeStreet := by
  unfold closeStreet
  dsimp only
  rw [← finishBettingRound_cardless]
  have hstreet : s.finishBettingRound.cardless.street = s.finishBettingRound.street := rfl
  rw [hstreet]
  split_ifs <;> rfl

lemma startHand_cardless (shuffle : Shuffle) :
    (s.startHand shuffle).cardless = { s.cardless with phase := .deal } := by
  simp only [startHand, cardless]
  rw [map_dealHoleCards PlayerStateInternal.cardless fun _ _ => rfl]

end GameStateInternal

/-! ### Hands that differ in the cards -/

/-- The states are the same but for the cards, of which as many lie on the board and in the
deck. -/
structure Twin (s s' : GameStateInternal) : Prop where
  cardless : s.cardless = s'.cardless
  board : s.communityCards.length = s'.communityCards.length
  deck : s.deck.length = s'.deck.length

namespace Twin

variable {s s' : GameStateInternal}

lemma phase (h : Twin s s') : s.phase = s'.phase :=
  congrArg (·.phase) h.cardless

lemma street (h : Twin s s') : s.street = s'.street :=
  congrArg (·.street) h.cardless

lemma currentBet (h : Twin s s') : s.currentBet = s'.currentBet :=
  congrArg (·.currentBet) h.cardless

lemma players (h : Twin s s') : s.players.map PlayerStateInternal.cardless =
    s'.players.map PlayerStateInternal.cardless :=
  congrArg (·.players) h.cardless

lemma length_players (h : Twin s s') : s.players.length = s'.players.length := by
  simpa using congrArg length h.players

/-- What commutes with taking the cards away and leaves them where they are. -/
lemma map (f f' : GameStateInternal → GameStateInternal) (h : Twin s s')
    (hcardless : (f s).cardless = (f' s').cardless) (hview : (f s).cardView = s.cardView)
    (hview' : (f' s').cardView = s'.cardView) : Twin (f s) (f' s') where
  cardless := hcardless
  board := by
    rw [show (f s).communityCards = s.communityCards from congrArg (·.2.1) hview,
      show (f' s').communityCards = s'.communityCards from congrArg (·.2.1) hview', h.board]
  deck := by
    rw [show (f s).deck = s.deck from congrArg (·.2.2) hview,
      show (f' s').deck = s'.deck from congrArg (·.2.2) hview', h.deck]

lemma addBet (h : Twin s s') {p p' : PlayerStateInternal} (hp : p.cardless = p'.cardless)
    (amount : ℤ) : Twin (s.addBet p amount) (s'.addBet p' amount) :=
  h.map (·.addBet p amount) (·.addBet p' amount)
    (by rw [addBet_cardless, addBet_cardless, h.cardless, hp])
    (cardView_addBet s p amount) (cardView_addBet s' p' amount)

lemma fold (h : Twin s s') (id : PlayerId) :
    Twin (s.updatePlayer id (·.fold)) (s'.updatePlayer id (·.fold)) :=
  h.map (·.updatePlayer id (·.fold)) (·.updatePlayer id (·.fold))
    (by rw [updatePlayer_cardless s id (f := (·.fold)) fun _ => rfl,
      updatePlayer_cardless s' id (f := (·.fold)) fun _ => rfl, h.cardless])
    (cardView_fold s id) (cardView_fold s' id)

lemma closeIfAlone (h : Twin s s') : Twin s.closeIfAlone s'.closeIfAlone :=
  h.map (·.closeIfAlone) (·.closeIfAlone)
    (by rw [closeIfAlone_cardless, closeIfAlone_cardless, h.cardless])
    (cardView_closeIfAlone s) (cardView_closeIfAlone s')

lemma closeStreet (h : Twin s s') : Twin s.closeStreet s'.closeStreet :=
  h.map (·.closeStreet) (·.closeStreet)
    (by rw [closeStreet_cardless, closeStreet_cardless, h.cardless])
    (cardView_closeStreet s) (cardView_closeStreet s')

lemma betting (h : Twin s s') :
    Twin { s with phase := .bettingRound } { s' with phase := .bettingRound } :=
  h.map (fun t => { t with phase := .bettingRound }) (fun t => { t with phase := .bettingRound })
    (congrArg (fun t : GameStateInternal => { t with phase := .bettingRound }) h.cardless) rfl rfl

lemma pop (h : Twin s s') (n : ℕ) : Twin (s.pop n) (s'.pop n) where
  cardless := h.cardless
  board := by simp [GameStateInternal.pop, h.board, h.deck]
  deck := by simp [GameStateInternal.pop, h.deck]

/-- As many cards are dealt to as many players. -/
lemma startHand {shuffle shuffle' : Shuffle} (hgenuine : shuffle.Genuine)
    (hgenuine' : shuffle'.Genuine) (h : Twin s s') :
    Twin (s.startHand shuffle) (s'.startHand shuffle') where
  cardless := by rw [startHand_cardless, startHand_cardless, h.cardless]
  board := h.board
  deck := by
    have hlen : ∀ {f : Shuffle}, f.Genuine → (buildDeck f ∅).length = 52 := fun hf => by
      rw [← length_reverse, (buildDeck_reverse_perm hf).length_eq, length_standardDeck]
    have hdeck := (dealHoleCards_deck s.players (buildDeck shuffle ∅)).2
    have hdeck' := (dealHoleCards_deck s'.players (buildDeck shuffle' ∅)).2
    rw [hlen hgenuine] at hdeck
    rw [hlen hgenuine', ← h.length_players, ← hdeck] at hdeck'
    exact hdeck'.symm

lemma refl (s : GameStateInternal) : Twin s s :=
  ⟨rfl, rfl, rfl⟩

lemma symm (h : Twin s s') : Twin s' s :=
  ⟨h.cardless.symm, h.board.symm, h.deck.symm⟩

/-- A player of one hand is a player of the other. -/
lemma find? (h : Twin s s') {id : PlayerId} {p : PlayerStateInternal}
    (hp : s.players.find? (fun p => p.id == id) = some p) :
    ∃ p', s'.players.find? (fun p => p.id == id) = some p' ∧ p.cardless = p'.cardless := by
  have hfind := congrArg (fun t : GameStateInternal => t.players.find? fun p => p.id == id)
    h.cardless
  rw [find?_cardless, find?_cardless, hp] at hfind
  obtain ⟨p', hp', heq⟩ := Option.map_eq_some_iff.mp hfind.symm
  exact ⟨p', hp', heq.symm⟩

lemma boardDeal (h : Twin s s') : s.boardDeal = s'.boardDeal := by
  rw [GameStateInternal.boardDeal, GameStateInternal.boardDeal, h.street]

lemma requestedBet (h : Twin s s') (a : GameAction) : s.requestedBet a = s'.requestedBet a := by
  cases a with
  | call id amount =>
    have hcall : ∀ t : GameStateInternal, t.requestedBet (.call id amount) =
        (t.cardless.players.find? fun p => p.id == id).map fun p => (id, t.currentBet - p.bet) := by
      intro t
      rw [find?_cardless, Option.map_map]
      rfl
    rw [hcall, hcall, h.cardless, h.currentBet]
  | _ => rfl

/-- The guards of a community deal depend on the numbers of the cards. -/
lemma canDeal (h : Twin s s') {n : ℕ} (hcards : s.cards ~ standardDeck)
    (hcards' : s'.cards ~ standardDeck) (hdeal : s.CanDeal n) : s'.CanDeal n where
  count := by
    have hcount := hdeal.count
    rw [h.board, expectedCommunityCountBeforeDeal, h.street, h.board] at hcount
    rw [hcount, expectedCommunityCountBeforeDeal]
  shoe _ := by
    obtain ⟨hused, hlt⟩ := card_used_of_perm hcards'
    have hdeck := hdeal.deck fun cards => cards.map some
    rw [ensuredDeck_of_perm hcards hdeal, h.deck] at hdeck
    rw [length_available hlt]
    omega

end Twin

/-! ### The same rule for both -/

section Step

variable {shuffle shuffle' : Shuffle} {m m₁ m' : HandStateMachine} {a : GameAction}

lemma DealtFrom.perm (hgenuine : shuffle.Genuine) {s : GameStateInternal}
    (h : DealtFrom (buildDeck shuffle ∅) s) (hin : s.phase.InHand) : s.cards ~ standardDeck :=
  h.cards hin ▸ buildDeck_reverse_perm hgenuine

/-- A rule before the showdown is played in the other hand as well. -/
theorem Step.twin (hgenuine : shuffle.Genuine) (hgenuine' : shuffle'.Genuine)
    (h : DealtFrom (buildDeck shuffle ∅) m.state) (h' : DealtFrom (buildDeck shuffle' ∅) m'.state)
    (htwin : Twin m.state m'.state) (hblinds : m.blindsPosted = m'.blindsPosted)
    (hshow : m.state.phase ≠ .showdown) (hsettle : m.state.phase ≠ .settle)
    (hstep : Step shuffle m a m₁) :
    ∃ m₁', Step shuffle' m' a m₁' ∧ Twin m₁.state m₁'.state ∧
      m₁.blindsPosted = m₁'.blindsPosted := by
  obtain ⟨s', posted⟩ := m'
  subst hblinds
  have hphase' := htwin.phase
  cases hstep with
  | postBlind id amount p hphase hp hpos hle hmore =>
    obtain ⟨p', hp', heq⟩ := htwin.find? hp
    have hid : p.id = p'.id := congrArg (·.id) heq
    have hstack : p.stack = p'.stack := congrArg (·.stack) heq
    refine ⟨_, .postBlind id amount p' (hphase' ▸ hphase) hp' hpos (hstack ▸ hle) ?_,
      htwin.addBet heq amount, by rw [hid]⟩
    rw [← hid, ← htwin.length_players]
    exact hmore
  | lastBlind id amount p hphase hp hpos hle hall =>
    obtain ⟨p', hp', heq⟩ := htwin.find? hp
    have hid : p.id = p'.id := congrArg (·.id) heq
    have hstack : p.stack = p'.stack := congrArg (·.stack) heq
    refine ⟨_, .lastBlind id amount p' (hphase' ▸ hphase) hp' hpos (hstack ▸ hle) ?_,
      (htwin.addBet heq amount).startHand hgenuine hgenuine', rfl⟩
    rw [← hid, ← htwin.length_players]
    exact hall
  | deal hphase hdeal =>
    have hcards := h.perm hgenuine (Or.inl hphase)
    have hcards' := h'.perm hgenuine' (Or.inl (hphase' ▸ hphase))
    have hdeal' := hdeal.imp htwin.boardDeal.symm.trans (htwin.canDeal hcards hcards')
    rw [htwin.boardDeal] at hdeal'
    refine ⟨_, .deal (hphase' ▸ hphase) hdeal', ?_, rfl⟩
    dsimp only
    rw [htwin.boardDeal]
    split_ifs with hzero
    · exact htwin.betting
    · have hcan := (htwin.boardDeal ▸ hdeal).resolve_left hzero
      rw [dealBoard_of_perm hcards hcan, dealBoard_of_perm hcards' (hdeal'.resolve_left hzero)]
      exact (htwin.pop _).betting
  | chips id amount p hphase ha hp hpos hle =>
    obtain ⟨p', hp', heq⟩ := htwin.find? hp
    have hstack : p.stack = p'.stack := congrArg (·.stack) heq
    exact ⟨_, .chips id amount p' (hphase' ▸ hphase) (htwin.requestedBet a ▸ ha) hp' hpos
      (hstack ▸ hle), (htwin.addBet heq amount).closeIfAlone, rfl⟩
  | check id hphase =>
    exact ⟨_, .check id (hphase' ▸ hphase), htwin.closeIfAlone, rfl⟩
  | fold id p hphase hp =>
    obtain ⟨p', hp', heq⟩ := htwin.find? hp
    have hid : p.id = p'.id := congrArg (·.id) heq
    refine ⟨_, .fold id p' (hphase' ▸ hphase) hp', ?_, rfl⟩
    rw [← hid]
    exact (htwin.fold p.id).closeIfAlone
  | next hphase =>
    exact ⟨_, .next (hphase' ▸ hphase), htwin.closeStreet, rfl⟩
  | showdown hphase => exact absurd hphase hshow
  | settle hphase => exact absurd hphase hsettle

/-- With the same deck, or before it is dealt from, a rule is the same with the other shuffle. -/
lemma Step.reshuffle (hgenuine : shuffle.Genuine)
    (h : DealtFrom (buildDeck shuffle ∅) m.state) (hstep : Step shuffle m a m₁)
    (hsame : ¬ m₁.state.phase.InHand ∨ buildDeck shuffle ∅ = buildDeck shuffle' ∅) :
    Step shuffle' m a m₁ := by
  cases hstep with
  | postBlind id amount p hphase hp hpos hle hmore =>
    exact .postBlind id amount p hphase hp hpos hle hmore
  | lastBlind id amount p hphase hp hpos hle hall =>
    have hdeck := hsame.resolve_left fun hnot => hnot (Or.inl rfl)
    have hstart : (m.state.addBet p amount).startHand shuffle =
        (m.state.addBet p amount).startHand shuffle' := by
      rw [startHand, startHand, hdeck]
    rw [hstart]
    exact .lastBlind id amount p hphase hp hpos hle hall
  | deal hphase hdeal =>
    have hcards := h.perm hgenuine (Or.inl hphase)
    have hboard : (if m.state.boardDeal = 0 then m.state
        else m.state.dealBoard shuffle m.state.boardDeal) =
        if m.state.boardDeal = 0 then m.state
        else m.state.dealBoard shuffle' m.state.boardDeal := by
      split_ifs with hzero
      · rfl
      · have hcan := hdeal.resolve_left hzero
        rw [dealBoard_of_perm hcards hcan, dealBoard_of_perm hcards hcan]
    rw [hboard]
    exact .deal hphase hdeal
  | chips id amount p hphase ha hp hpos hle => exact .chips id amount p hphase ha hp hpos hle
  | check id hphase => exact .check id hphase
  | fold id p hphase hp => exact .fold id p hphase hp
  | next hphase => exact .next hphase
  | showdown hphase => exact .showdown hphase
  | settle hphase => exact .settle hphase

end Step

end Pokerhub
