import Pokerhub.Game.CommitReveal

/-!
# Replaying a hand

`replayHand` of `engine/index.ts` plays the actions of the log again on a new engine. The new engine
has an RNG of its own. A run shows some cards of the deck from which the engine deals its hands, and
the replays in a run are right exactly when the new deck begins with the same cards
(`replay_iff`).
-/

namespace Pokerhub

open GameStateInternal GameEngine HandStateMachine TransitionSystem List

/-! ### The replay -/

/-- The actions of a log, one after another. -/
def replayActions (sha256 : List UInt8 → List UInt8) : List GameAction → Engine Unit
  | [] => pure ()
  | a :: actions => do
    let _ ← applyAction sha256 a
    replayActions sha256 actions

/-- `replayHand`, with the starting stack of the configuration and the bytes for the new RNG. -/
def GameEngine.replayHand (sha256 : List UInt8 → List UInt8) (startingStack : ℕ)
    (seed nonce : List UInt8) (e : GameEngine) : Except GameError GameStateInternal :=
  let replay := GameEngine.create (e.machine.state.players.map (·.id)) startingStack
    (.create sha256 seed nonce) false false
  match (replayActions sha256 (e.log.entries.map (·.action))).run replay with
  | .ok _ e' => .ok e'.machine.state
  | .error err _ => .error err

/-- What a replay has to get right of a player. -/
structure PlayerView where
  id : PlayerId
  stack : ℤ
  bet : ℤ
  folded : Bool
  holeCards : Option (List (Option ℕ))
  deriving DecidableEq

/-- What a replay has to get right. -/
structure HandView where
  phase : HandPhase
  street : Street
  pot : ℤ
  players : List PlayerView
  communityCards : List ℕ
  deriving DecidableEq

def PlayerStateInternal.handView (p : PlayerStateInternal) : PlayerView :=
  ⟨p.id, p.stack, p.bet, p.folded, p.holeCards⟩

def GameStateInternal.handView (s : GameStateInternal) : HandView :=
  ⟨s.phase, s.street, s.pot, s.players.map (·.handView), s.communityCards⟩

/-- The replay returns the state of the engine. -/
def ReplaysRight (sha256 : List UInt8 → List UInt8) (startingStack : ℕ)
    (seed nonce : List UInt8) (e : GameEngine) : Prop :=
  (e.replayHand sha256 startingStack seed nonce).toOption.map (·.handView) =
    some e.machine.state.handView

instance (sha256 : List UInt8 → List UInt8) (startingStack : ℕ) (seed nonce : List UInt8)
    (e : GameEngine) : Decidable (ReplaysRight sha256 startingStack seed nonce e) :=
  inferInstanceAs (Decidable (_ = some e.machine.state.handView))

/-! ### The cards that a run shows -/

/-- The cards on the table. -/
def GameStateInternal.seen (s : GameStateInternal) : List ℕ :=
  s.holeNumbers ++ s.communityCards

/-- How many cards of the deck the run has shown, in the hand that showed most. -/
def GameEngine.cardsSeen (e : GameEngine) : ℕ :=
  (e.log.entries.map fun entry => entry.postState.seen.length).foldr max 0

/-- The hands of an engine, dealt from a deck with the next card at the end. -/
structure DealtFrom (deck : List ℕ) (s : GameStateInternal) : Prop where
  board : Board s
  cards : s.phase.InHand → s.cards = deck.reverse
  waiting : ¬ s.phase.InHand → s.seen = []

/-- The cards on the table are the first ones of the deck. -/
lemma DealtFrom.seen_eq {deck : List ℕ} {s : GameStateInternal} (h : DealtFrom deck s) :
    s.seen = deck.reverse.take s.seen.length := by
  by_cases hin : s.phase.InHand
  · rw [← h.cards hin, GameStateInternal.cards, ← seen, take_left]
  · rw [h.waiting hin]
    rfl

lemma inHand_of_waiting {phase : HandPhase} (h : phase = .waitBlinds ∨ phase = .nextHand) :
    ¬ phase.InHand := by
  rcases h with rfl | rfl <;> simp [HandPhase.InHand]

lemma seen_of_view {s s' : GameStateInternal} (h : s'.cardView = s.cardView) :
    s'.seen = s.seen := by
  rw [seen, seen, holeNumbers_eq, holeNumbers_eq, h]
  exact congrArg (_ ++ ·) (congrArg (·.2.1) h)

/-- Outside of the deals a rule keeps the cards. -/
lemma DealtFrom.of_view {deck : List ℕ} {s s' : GameStateInternal} (h : DealtFrom deck s)
    (hboard : Board s') (hview : s'.cardView = s.cardView) (hin : s.phase.InHand)
    (hin' : s'.phase.InHand) : DealtFrom deck s' where
  board := hboard
  cards _ := (cards_eq_of_view hview).1.trans (h.cards hin)
  waiting hnot := absurd hin' hnot

section Step

variable {shuffle shuffle' : Shuffle} {m m₁ : HandStateMachine} {a : GameAction}

lemma inHand_closeIfAlone {s : GameStateInternal} (h : s.phase = .bettingRound) :
    s.closeIfAlone.phase.InHand := by
  rw [closeIfAlone_phase, h]
  split <;> simp [HandPhase.InHand]

theorem DealtFrom.step (hgenuine : shuffle.Genuine) (h : DealtFrom (buildDeck shuffle ∅) m.state)
    (hstep : Step shuffle m a m₁) : DealtFrom (buildDeck shuffle ∅) m₁.state := by
  have hboard := h.board.step hstep
  cases hstep with
  | postBlind id amount p hphase =>
    have hview := cardView_addBet m.state p amount
    refine ⟨hboard, fun hin => absurd hin (inHand_of_waiting hphase), fun _ => ?_⟩
    rw [seen_of_view hview]
    exact h.waiting (inHand_of_waiting hphase)
  | lastBlind id amount p hphase =>
    have hempty : (m.state.addBet p amount).communityCards = [] := (h.board.waiting hphase).1
    refine ⟨hboard, fun _ => (startHand_deck hgenuine hempty).1, fun hnot => ?_⟩
    exact absurd (Or.inl rfl) hnot
  | deal hphase hdeal =>
    have hcards := h.cards (Or.inl hphase)
    refine ⟨hboard, fun _ => ?_, fun hnot => absurd (Or.inr (Or.inl rfl)) hnot⟩
    split_ifs with hzero
    · exact hcards
    · have hperm : m.state.cards ~ standardDeck := hcards ▸ buildDeck_reverse_perm hgenuine
      show (m.state.dealBoard shuffle m.state.boardDeal).cards = _
      rw [dealBoard, pop_cards, ensuredDeck_of_perm hperm (hdeal.resolve_left hzero)]
      exact hcards
  | chips id amount p hphase =>
    exact h.of_view hboard ((cardView_closeIfAlone _).trans (cardView_addBet _ _ _))
      (Or.inr (Or.inl hphase)) (inHand_closeIfAlone hphase)
  | check id hphase =>
    exact h.of_view hboard (cardView_closeIfAlone _) (Or.inr (Or.inl hphase))
      (inHand_closeIfAlone hphase)
  | fold id p hphase =>
    exact h.of_view hboard ((cardView_closeIfAlone _).trans (cardView_fold _ _))
      (Or.inr (Or.inl hphase)) (inHand_closeIfAlone hphase)
  | next hphase =>
    refine h.of_view hboard (cardView_closeStreet _) (Or.inr (Or.inl hphase)) ?_
    rcases closeStreet_phase_eq m.state with hc | hc <;> simp [hc, HandPhase.InHand]
  | showdown hphase =>
    exact h.of_view hboard (cardView_settlePots m.state) (Or.inr (Or.inr (Or.inl hphase)))
      (Or.inr (Or.inr (Or.inr rfl)))
  | settle hphase =>
    refine ⟨hboard, fun hin => absurd hin (inHand_of_waiting (Or.inr rfl)), fun _ => ?_⟩
    simp [seen, holeNumbers, resetHand, PlayerStateInternal.reset]

end Step

/-! ### Two decks -/

def GameStateInternal.withDeck (deck : List ℕ) (s : GameStateInternal) : GameStateInternal :=
  { s with deck := deck }

/-- The machine with another remaining deck. -/
def HandStateMachine.withDeck (deck : List ℕ) (m : HandStateMachine) : HandStateMachine :=
  { m with state := m.state.withDeck deck }

section WithDeck

variable (deck : List ℕ) (s : GameStateInternal)

lemma finishBettingRound_withDeck :
    (s.withDeck deck).finishBettingRound = s.finishBettingRound.withDeck deck := by
  have hlayers : ∀ levels previous,
      (s.withDeck deck).layerPots (s.withDeck deck).bettors previous levels =
        s.layerPots s.bettors previous levels := by
    intro levels
    induction levels with
    | nil => exact fun _ => rfl
    | cons level levels ih =>
      intro previous
      rw [layerPots, layerPots, ih]
      rfl
  have hbettors : (s.withDeck deck).bettors = s.bettors := rfl
  rw [finishBettingRound, finishBettingRound, hbettors]
  split_ifs
  · rfl
  · rw [← hbettors, hlayers]
    rfl

lemma closeIfAlone_withDeck : (s.withDeck deck).closeIfAlone = s.closeIfAlone.withDeck deck := by
  have hactive : (s.withDeck deck).activePlayers = s.activePlayers := rfl
  rw [closeIfAlone_eq, closeIfAlone_eq, hactive, finishBettingRound_withDeck]
  split_ifs <;> rfl

lemma closeStreet_withDeck : (s.withDeck deck).closeStreet = s.closeStreet.withDeck deck := by
  unfold closeStreet
  dsimp only
  rw [finishBettingRound_withDeck]
  have hstreet : (s.finishBettingRound.withDeck deck).street = s.finishBettingRound.street := rfl
  rw [hstreet]
  split_ifs <;> rfl

lemma settlePots_withDeck : (s.withDeck deck).settlePots = s.settlePots.withDeck deck := by
  have hactive : (s.withDeck deck).activePlayers = s.activePlayers := rfl
  rw [settlePots, settlePots, hactive]
  split_ifs <;> rfl

lemma conclude_withDeck (m : HandStateMachine) :
    conclude (m.withDeck deck) = (conclude m).withDeck deck := by
  have hforce : force (m.withDeck deck).state = (force m.state).withDeck deck := by
    rw [force, force]
    have hactive : (m.withDeck deck).state.activePlayers = m.state.activePlayers := rfl
    have hphase : (m.withDeck deck).state.phase = m.state.phase := rfl
    rw [hactive, hphase]
    split_ifs <;> rfl
  have hphase : ((force m.state).withDeck deck).phase = (force m.state).phase := rfl
  rw [conclude, conclude, hforce, hphase, settlePots_withDeck]
  split_ifs <;> rfl

end WithDeck

/-- Two pops from the end of a deck. -/
lemma dealHoleCards_reverse (p : PlayerStateInternal) (ps : List PlayerStateInternal)
    (cards : List ℕ) : (dealHoleCards (p :: ps) cards.reverse).1 =
      { p with holeCards := some [cards.head?, cards.tail.head?] } ::
        (dealHoleCards ps (cards.drop 2).reverse).1 := by
  rcases cards with _ | ⟨a, _ | ⟨b, cards⟩⟩ <;> simp [dealHoleCards]

/-- Decks that begin alike give the same hole cards. -/
lemma dealHoleCards_congr (ps : List PlayerStateInternal) {cards cards' : List ℕ}
    (h : cards.take (2 * ps.length) = cards'.take (2 * ps.length)) :
    (dealHoleCards ps cards.reverse).1 = (dealHoleCards ps cards'.reverse).1 := by
  induction ps generalizing cards cards' with
  | nil => rfl
  | cons p ps ih =>
    have hfirst : cards.take 2 = cards'.take 2 := by
      have htwo := congrArg (take 2) h
      rwa [take_take, take_take, length_cons, min_eq_left (by omega)] at htwo
    have hhead : ∀ cs : List ℕ, cs.head? = (cs.take 2).head? ∧
        cs.tail.head? = (cs.take 2).tail.head? := by
      rintro (_ | ⟨a, _ | ⟨b, cs⟩⟩) <;> exact ⟨rfl, rfl⟩
    have hrest : (cards.drop 2).take (2 * ps.length) = (cards'.drop 2).take (2 * ps.length) := by
      have hdrop := congrArg (drop 2) h
      rwa [drop_take, drop_take, length_cons, Nat.mul_succ, Nat.add_sub_cancel] at hdrop
    rw [dealHoleCards_reverse, dealHoleCards_reverse, ih hrest, (hhead cards).1, (hhead cards).2,
      (hhead cards').1, (hhead cards').2, hfirst]

section Simulation

variable {shuffle shuffle' : Shuffle} {m m₁ : HandStateMachine} {a : GameAction}

/-- As many cards as the deal of the hole cards shows. -/
lemma take_seen_startHand (hgenuine : shuffle.Genuine) {s : GameStateInternal}
    (hboard : s.communityCards = []) {cards : List ℕ} (hlen : cards.length = 52) :
    cards.take (s.startHand shuffle).seen.length = cards.take (2 * s.players.length) := by
  obtain ⟨hcards, hdeck⟩ := startHand_deck hgenuine hboard
  have hlength := congrArg length hcards
  rw [(buildDeck_reverse_perm hgenuine).length_eq, length_standardDeck, GameStateInternal.cards,
    length_append, length_reverse, hdeck, ← seen] at hlength
  by_cases hfew : 2 * s.players.length ≤ 52
  · congr 1
    omega
  · rw [take_of_length_le (by omega), take_of_length_le (by omega)]

lemma withDeck_lastBlind (hgenuine : shuffle.Genuine) (hgenuine' : shuffle'.Genuine)
    {s : GameStateInternal} (hboard : s.communityCards = []) (deck : List ℕ)
    (hsame : (buildDeck shuffle ∅).reverse.take (s.startHand shuffle).seen.length =
      (buildDeck shuffle' ∅).reverse.take (s.startHand shuffle).seen.length) :
    ∃ deck₁, (s.withDeck deck).startHand shuffle' = (s.startHand shuffle).withDeck deck₁ := by
  have hlen : ∀ {f : Shuffle}, f.Genuine → (buildDeck f ∅).reverse.length = 52 := fun hf => by
    rw [(buildDeck_reverse_perm hf).length_eq, length_standardDeck]
  rw [take_seen_startHand hgenuine hboard (hlen hgenuine),
    take_seen_startHand hgenuine hboard (hlen hgenuine')] at hsame
  have hplayers := dealHoleCards_congr s.players hsame
  rw [reverse_reverse, reverse_reverse] at hplayers
  refine ⟨(dealHoleCards s.players (buildDeck shuffle' ∅)).2, ?_⟩
  simp only [startHand, GameStateInternal.withDeck, hplayers]

/-- With all cards there, a community deal takes them from the deck as it is. -/
lemma dealBoard_of_perm {s : GameStateInternal} {n : ℕ} (hperm : s.cards ~ standardDeck)
    (hdeal : s.CanDeal n) : s.dealBoard shuffle n = s.pop n := by
  rw [dealBoard, ensuredDeck_of_perm hperm hdeal]

lemma withDeck_canDeal {s : GameStateInternal} {deck : List ℕ} {n : ℕ}
    (hperm : s.cards ~ standardDeck) (hdeal : s.CanDeal n) : (s.withDeck deck).CanDeal n := by
  refine ⟨hdeal.count, fun _ => ?_⟩
  obtain ⟨hcard, hlt⟩ := card_used_of_perm hperm
  have hused : (s.withDeck deck).used = s.used := rfl
  have hdeck := hdeal.deck fun cards => cards.map some
  rw [ensuredDeck_of_perm hperm hdeal] at hdeck
  rw [hused, length_available hlt]
  omega

/-- The next cards are the same. -/
lemma take_reverse_deck {s : GameStateInternal} {deck cards cards' : List ℕ} {n : ℕ}
    (hcards : s.cards = cards) (hcards' : (s.withDeck deck).cards = cards')
    (hsame : cards.take (s.seen.length + n) = cards'.take (s.seen.length + n)) :
    deck.reverse.take n = s.deck.reverse.take n := by
  have hsplit : s.cards = s.seen ++ s.deck.reverse := rfl
  have hsplit' : (s.withDeck deck).cards = s.seen ++ deck.reverse := rfl
  rw [← hcards, ← hcards', hsplit, hsplit', take_length_add_append, take_length_add_append] at hsame
  exact (append_cancel_left hsame).symm

lemma seen_pop {s : GameStateInternal} {n : ℕ} (hn : n ≤ s.deck.length) :
    (s.pop n).seen.length = s.seen.length + n := by
  simp [seen, pop, holeNumbers, hn, Nat.add_assoc]

/-- A rule is played on the other deck as well, as long as it shows the same cards there. -/
theorem Step.withDeck (hgenuine : shuffle.Genuine) (hgenuine' : shuffle'.Genuine)
    (h : DealtFrom (buildDeck shuffle ∅) m.state) {deck : List ℕ}
    (h' : DealtFrom (buildDeck shuffle' ∅) (m.withDeck deck).state) (hstep : Step shuffle m a m₁)
    (hsame : (buildDeck shuffle ∅).reverse.take m₁.state.seen.length =
      (buildDeck shuffle' ∅).reverse.take m₁.state.seen.length) :
    ∃ deck₁, Step shuffle' (m.withDeck deck) a (m₁.withDeck deck₁) := by
  cases hstep with
  | postBlind id amount p hphase hp hpos hle hmore =>
    exact ⟨deck, .postBlind (m := m.withDeck deck) id amount p hphase hp hpos hle hmore⟩
  | lastBlind id amount p hphase hp hpos hle hall =>
    have hempty : (m.state.addBet p amount).communityCards = [] := (h.board.waiting hphase).1
    obtain ⟨deck₁, hdeal⟩ := withDeck_lastBlind hgenuine hgenuine' hempty deck hsame
    refine ⟨deck₁, ?_⟩
    show Step shuffle' (m.withDeck deck) _
      { state := ((m.state.addBet p amount).startHand shuffle).withDeck deck₁, blindsPosted := ∅ }
    rw [← hdeal]
    exact .lastBlind (m := m.withDeck deck) id amount p hphase hp hpos hle hall
  | deal hphase hdeal =>
    have hrule := @Step.deal shuffle' (m.withDeck deck) hphase
    have hzero : (m.withDeck deck).state.boardDeal = m.state.boardDeal := rfl
    rw [hzero] at hrule
    by_cases hnone : m.state.boardDeal = 0
    · rw [if_pos hnone] at hrule ⊢
      exact ⟨deck, hrule (Or.inl hnone)⟩
    · have hguard := hdeal.resolve_left hnone
      have hperm : m.state.cards ~ standardDeck :=
        h.cards (Or.inl hphase) ▸ buildDeck_reverse_perm hgenuine
      have hperm' : (m.withDeck deck).state.cards ~ standardDeck :=
        h'.cards (Or.inl hphase) ▸ buildDeck_reverse_perm hgenuine'
      have hguard' : (m.withDeck deck).state.CanDeal m.state.boardDeal :=
        withDeck_canDeal hperm hguard
      rw [if_neg hnone, dealBoard_of_perm hperm' hguard'] at hrule
      rw [if_neg hnone, dealBoard_of_perm hperm hguard] at hsame ⊢
      have hshown := hguard.deck shuffle
      rw [ensuredDeck_of_perm hperm hguard] at hshown
      have hseen : ({ m.state.pop m.state.boardDeal with phase := .bettingRound } :
          GameStateInternal).seen.length = m.state.seen.length + m.state.boardDeal :=
        seen_pop hshown
      dsimp only at hsame
      rw [hseen] at hsame
      have hnext := take_reverse_deck (h.cards (Or.inl hphase)) (h'.cards (Or.inl hphase)) hsame
      refine ⟨deck.take (deck.length - m.state.boardDeal), ?_⟩
      have hpop : (m.withDeck deck).state.pop m.state.boardDeal =
          (m.state.pop m.state.boardDeal).withDeck (deck.take (deck.length - m.state.boardDeal)) := by
        simp only [pop, HandStateMachine.withDeck, GameStateInternal.withDeck, hnext]
      rw [hpop] at hrule
      exact hrule (Or.inr hguard')
  | chips id amount p hphase ha hp hpos hle =>
    refine ⟨deck, ?_⟩
    show Step shuffle' (m.withDeck deck) a
      { m with state := (m.state.addBet p amount).closeIfAlone.withDeck deck }
    rw [← closeIfAlone_withDeck]
    exact .chips (m := m.withDeck deck) id amount p hphase ha hp hpos hle
  | check id hphase =>
    refine ⟨deck, ?_⟩
    show Step shuffle' (m.withDeck deck) _ { m with state := m.state.closeIfAlone.withDeck deck }
    rw [← closeIfAlone_withDeck]
    exact .check (m := m.withDeck deck) id hphase
  | fold id p hphase hp =>
    refine ⟨deck, ?_⟩
    show Step shuffle' (m.withDeck deck) _
      { m with state := (m.state.updatePlayer p.id (·.fold)).closeIfAlone.withDeck deck }
    rw [← closeIfAlone_withDeck]
    exact .fold (m := m.withDeck deck) id p hphase hp
  | next hphase =>
    refine ⟨deck, ?_⟩
    show Step shuffle' (m.withDeck deck) _ { m with state := m.state.closeStreet.withDeck deck }
    rw [← closeStreet_withDeck]
    exact .next (m := m.withDeck deck) hphase
  | showdown hphase =>
    have hrule := @Step.showdown shuffle' (m.withDeck deck) hphase
    have hpaid : (m.withDeck deck).state.settlePots = m.state.settlePots.withDeck deck :=
      settlePots_withDeck deck m.state
    rw [hpaid] at hrule
    exact ⟨deck, hrule⟩
  | settle hphase => exact ⟨[], .settle (m := m.withDeck deck) hphase⟩

end Simulation

/-! ### Calls -/

lemma DealtFrom.conclude {deck : List ℕ} {m : HandStateMachine} (h : DealtFrom deck m.state) :
    DealtFrom deck (conclude m).state := by
  rcases conclude_cases m with hsame | ⟨hphase, hsettle⟩
  · rwa [hsame]
  · have hin : m.state.phase.InHand := hphase.elim (Or.inr ∘ Or.inl) (Or.inr ∘ Or.inr ∘ Or.inl)
    refine h.of_view ⟨?_, ?_, ?_⟩ (cardView_conclude m) hin (Or.inr (Or.inr (Or.inr hsettle)))
    all_goals simp [hsettle]

lemma DealtFrom.initial (deck : List ℕ) (ids : List PlayerId) (startingStack : ℕ) :
    DealtFrom deck (HandStateMachine.initial ids startingStack).state := by
  refine ⟨⟨fun _ => ⟨rfl, rfl⟩, nofun, nofun⟩, fun hin => ?_, fun _ => ?_⟩
  · exact absurd hin (inHand_of_waiting (Or.inl rfl))
  · simp [seen, holeNumbers, HandStateMachine.initial]

section Calls

variable {sha256 : List UInt8 → List UInt8} {e : GameEngine}

/-- The deck from which an engine deals. -/
def GameEngine.deck (sha256 : List UInt8 → List UInt8) (e : GameEngine) : List ℕ :=
  buildDeck (e.rng.shuffle sha256) ∅

lemma DealtFrom.afterAction (h : DealtFrom (e.deck sha256) e.machine.state) (a : GameAction) :
    DealtFrom (e.deck sha256) (e.afterAction sha256 a).machine.state := by
  rcases @afterAction_machine sha256 e a with hstay | ⟨m, hstep, hmachine⟩
  · rwa [hstay]
  · rw [hmachine]
    exact (h.step (e.rng.genuine_shuffle sha256) hstep).conclude

lemma deck_afterAction (a : GameAction) : (e.afterAction sha256 a).deck sha256 = e.deck sha256 := by
  rw [GameEngine.deck, afterAction_rng_eq]
  rfl

lemma run_replayActions_cons (a : GameAction) (actions : List GameAction) :
    (replayActions sha256 (a :: actions)).run e =
      match (applyAction sha256 a).run e with
      | .ok _ e₁ => (replayActions sha256 actions).run e₁
      | .error err e₁ => .error err e₁ := by
  rw [replayActions, EStateM.run_bind]
  cases (applyAction sha256 a).run e <;> rfl

lemma run_replayActions_append (actions : List GameAction) (a : GameAction) {e₁ : GameEngine}
    (hrun : (replayActions sha256 actions).run e = .ok () e₁) :
    (replayActions sha256 (actions ++ [a])).run e =
      match (applyAction sha256 a).run e₁ with
      | .ok _ e₂ => .ok () e₂
      | .error err e₂ => .error err e₂ := by
  induction actions generalizing e with
  | nil =>
    cases hrun
    rw [nil_append, run_replayActions_cons]
    rfl
  | cons b actions ih =>
    rw [run_replayActions_cons] at hrun
    rw [cons_append, run_replayActions_cons]
    cases hb : (applyAction sha256 b).run e with
    | ok s e' =>
      rw [hb] at hrun
      exact ih hrun
    | error err e' =>
      rw [hb] at hrun
      cases hrun

/-- A replay deals from the deck of its own RNG. -/
lemma DealtFrom.replay {e' : GameEngine} (h : DealtFrom (e.deck sha256) e.machine.state)
    {actions : List GameAction} (hrun : (replayActions sha256 actions).run e = .ok () e') :
    DealtFrom (e.deck sha256) e'.machine.state := by
  induction actions generalizing e with
  | nil =>
    cases hrun
    exact h
  | cons a actions ih =>
    rw [run_replayActions_cons] at hrun
    rcases @afterAction_spec sha256 e a with ⟨-, ⟨err, herr⟩, -⟩ | ⟨m, -, hok, -⟩
    · rw [herr] at hrun
      cases hrun
    · rw [hok] at hrun
      rw [← deck_afterAction a]
      refine ih ?_ hrun
      rw [deck_afterAction]
      exact h.afterAction a

end Calls

/-! ### Over whole runs -/

/-- The log of an engine: each entry is a rule and what the engine adds to it. -/
inductive Played (shuffle : Shuffle) (m₀ : HandStateMachine) :
    List HandLogEntry → HandStateMachine → Prop
  | nil : Played shuffle m₀ [] m₀
  | snoc {entries : List HandLogEntry} {m₁ m₂ : HandStateMachine} {entry : HandLogEntry}
      (hplayed : Played shuffle m₀ entries m₁) (hstep : Step shuffle m₁ entry.action m₂)
      (hpost : entry.postState = (conclude m₂).state) :
      Played shuffle m₀ (entries ++ [entry]) (conclude m₂)

section Run

variable {sha256 : List UInt8 → List UInt8} {ids : List PlayerId} {startingStack : ℕ}

lemma foldr_max_append (xs : List ℕ) (x : ℕ) : (xs ++ [x]).foldr max 0 = max (xs.foldr max 0) x := by
  induction xs with
  | nil => simp
  | cons y xs ih => rw [cons_append, foldr_cons, foldr_cons, ih, max_assoc]

/-- What the run shows includes what each state of the log shows. -/
lemma seen_le_of_mem {entries : List HandLogEntry} {entry : HandLogEntry} (h : entry ∈ entries) :
    entry.postState.seen.length ≤
      (entries.map fun entry => entry.postState.seen.length).foldr max 0 := by
  induction entries with
  | nil => cases h
  | cons x entries ih =>
    rw [map_cons, foldr_cons]
    rcases mem_cons.mp h with rfl | h
    · exact le_max_left _ _
    · exact (ih h).trans (le_max_right _ _)

lemma take_of_take_le {xs ys : List ℕ} {k n : ℕ} (h : xs.take k = ys.take k) (hn : n ≤ k) :
    xs.take n = ys.take n := by
  have hcut := congrArg (take n) h
  rwa [take_take, take_take, min_eq_left hn] at hcut

lemma Played.dealtFrom {shuffle : Shuffle} (hgenuine : shuffle.Genuine) {m₀ m : HandStateMachine}
    {entries : List HandLogEntry} (hplayed : Played shuffle m₀ entries m)
    (hfrom : DealtFrom (buildDeck shuffle ∅) m₀.state) :
    DealtFrom (buildDeck shuffle ∅) m.state := by
  induction hplayed with
  | nil => exact hfrom
  | snoc hplayed hstep hpost ih => exact (ih.step hgenuine hstep).conclude

/-- With a deck that begins with the same cards the log can be played again. -/
theorem Played.replay {shuffle : Shuffle} (hgenuine : shuffle.Genuine) {e₀ : GameEngine}
    {entries : List HandLogEntry} {m₀ m : HandStateMachine} {deck₀ : List ℕ}
    (hfrom : DealtFrom (buildDeck shuffle ∅) m₀.state)
    (hfrom' : DealtFrom (e₀.deck sha256) e₀.machine.state)
    (hstart : e₀.machine = m₀.withDeck deck₀) (hplayed : Played shuffle m₀ entries m)
    (hsame : ∀ entry ∈ entries,
      (buildDeck shuffle ∅).reverse.take entry.postState.seen.length =
        (e₀.deck sha256).reverse.take entry.postState.seen.length) :
    ∃ e', (replayActions sha256 (entries.map (·.action))).run e₀ = .ok () e' ∧
      e'.rng = e₀.rng ∧ ∃ deck, e'.machine = m.withDeck deck := by
  induction hplayed with
  | nil => exact ⟨e₀, rfl, rfl, deck₀, hstart⟩
  | @snoc entries m₁ m₂ entry hplayed hstep hpost ih =>
    obtain ⟨e₁, hrun, hrng, deck, hmachine⟩ :=
      ih fun entry hentry => hsame entry (mem_append_left _ hentry)
    have hdealt := hfrom'.replay hrun
    have hdeck : e₁.deck sha256 = e₀.deck sha256 := by
      rw [GameEngine.deck, hrng]
      rfl
    have hshown := hsame entry (mem_append_right _ mem_cons_self)
    rw [hmachine, ← hdeck, GameEngine.deck] at hdealt
    rw [hpost, seen_of_view (cardView_conclude m₂), ← hdeck, GameEngine.deck] at hshown
    obtain ⟨deck₁, hstep'⟩ := hstep.withDeck hgenuine (e₁.rng.genuine_shuffle sha256)
      (hplayed.dealtFrom hgenuine hfrom) hdealt hshown
    rw [← hmachine] at hstep'
    obtain ⟨hok, hafter⟩ := run_applyAction_of_step hstep'
    refine ⟨e₁.afterAction sha256 entry.action, ?_, ?_, deck₁, ?_⟩
    · rw [map_append, map_cons, map_nil, run_replayActions_append _ _ hrun, hok]
    · rw [afterAction_rng_eq, hrng]
    · rw [hafter, conclude_withDeck]

/-- An engine with the log of its run. -/
structure Logged (sha256 : List UInt8 → List UInt8) (ids : List PlayerId) (startingStack : ℕ)
    (e : GameEngine) : Prop where
  played : Played (e.rng.shuffle sha256) (HandStateMachine.initial ids startingStack) e.log.entries
    e.machine
  table : e.machine.state.players.map (·.id) = ids

/-- What an event does to log and machine. -/
lemma step_log (r : EngineRun) (event : EngineEvent) :
    (r.step sha256 event).engine.rng = r.engine.rng ∧
      (((r.step sha256 event).engine.log.entries = r.engine.log.entries ∧
          (r.step sha256 event).engine.machine = r.engine.machine) ∨
        ∃ entry m, (r.step sha256 event).engine.log.entries = r.engine.log.entries ++ [entry] ∧
          Step (r.engine.rng.shuffle sha256) r.engine.machine entry.action m ∧
          (r.step sha256 event).engine.machine = conclude m ∧
          entry.postState = (conclude m).state) := by
  cases event with
  | action a =>
    refine ⟨afterAction_rng_eq r.engine a, ?_⟩
    rcases @afterAction_spec sha256 r.engine a with ⟨hstay, -⟩ | ⟨m, hstep, -, hplay⟩
    · left
      simp only [EngineRun.step, hstay, and_self]
    · right
      obtain ⟨log, hlog, hrecord⟩ := @afterPlay_log sha256 a r.engine.machine.state
        { r.engine with machine := { m with state := force m.state } }
      have hentries : log.entries = r.engine.log.entries := by
        rcases hlog with rfl | ⟨p, rfl⟩ <;> rfl
      have hmachine := @afterPlay_machine sha256 a r.engine.machine.state r.engine m
      refine ⟨⟨log.entries.length, a, r.engine.machine.state, (conclude m).state⟩, m, ?_, hstep, ?_,
        rfl⟩
      · simp only [EngineRun.step, hplay, hrecord, HandLog.record, hmachine, hentries]
      · simp only [EngineRun.step, hplay, hmachine]
  | resume i ok =>
    refine ⟨resume_rng r.engine i ok, Or.inl ⟨?_, resume_machine r.engine i ok⟩⟩
    rcases @resume_log sha256 r.engine i ok with hlog | ⟨p, hlog⟩
    · simp only [EngineRun.step, hlog]
    · simp only [EngineRun.step, hlog, HandLog.recordProof]

theorem Logged.step {r : EngineRun} (h : Logged sha256 ids startingStack r.engine)
    (event : EngineEvent) : Logged sha256 ids startingStack (r.step sha256 event).engine := by
  obtain ⟨hrng, ⟨hentries, hmachine⟩ | ⟨entry, m, hentries, hstep, hmachine, hpost⟩⟩ :=
    @step_log sha256 r event
  · refine ⟨?_, ?_⟩
    · rw [hrng, hentries, hmachine]
      exact h.played
    · rw [hmachine, h.table]
  · refine ⟨?_, ?_⟩
    · rw [hrng, hentries, hmachine]
      exact .snoc h.played hstep hpost
    · rw [hmachine, map_conclude (fun p => p.id) (fun _ _ => rfl), hstep.map_id, h.table]

lemma logged_of_reachable {r : EngineRun} (h : (engineRuns sha256 ids startingStack).Reachable r) :
    Logged sha256 ids startingStack r.engine := by
  refine h.invariant (I := fun r : EngineRun => Logged sha256 ids startingStack r.engine) ?_ ?_
  · rintro _ ⟨seed, nonce, hasWallet, hasRepo, rfl⟩
    refine ⟨.nil, ?_⟩
    simp [GameEngine.create, HandStateMachine.initial, Function.comp_def]
  · rintro r event _ hi rfl
    exact hi.step event

lemma seen_of_handView {s s' : GameStateInternal} (h : s'.handView = s.handView) :
    s'.seen = s.seen := by
  have hplayers := congrArg (fun v : HandView => v.players.flatMap fun p =>
    (p.holeCards.getD []).filterMap id) h
  have hboard := congrArg (·.communityCards) h
  simp only [GameStateInternal.handView, flatMap_map, PlayerStateInternal.handView] at hplayers hboard
  rw [seen, seen, holeNumbers, holeNumbers, hplayers, hboard]

/-- The new engine of a replay. -/
def replayEngine (sha256 : List UInt8 → List UInt8) (ids : List PlayerId) (startingStack : ℕ)
    (seed nonce : List UInt8) : GameEngine :=
  .create ids startingStack (.create sha256 seed nonce) false false

/-- The deck that the new engine deals from. -/
def freshDeck (sha256 : List UInt8 → List UInt8) (seed nonce : List UInt8) : List ℕ :=
  buildDeck ((HandRNG.create sha256 seed nonce).shuffle sha256) ∅

variable {seed nonce : List UInt8}

lemma dealtFrom_replayEngine : DealtFrom ((replayEngine sha256 ids startingStack seed nonce).deck sha256)
    (replayEngine sha256 ids startingStack seed nonce).machine.state :=
  .initial _ ids startingStack

lemma deck_replayEngine (ids : List PlayerId) (startingStack : ℕ) :
    (replayEngine sha256 ids startingStack seed nonce).deck sha256 =
      freshDeck sha256 seed nonce := rfl

lemma Logged.replaysRight {e : GameEngine} (h : Logged sha256 ids startingStack e)
    (hsame : (e.deck sha256).reverse.take e.cardsSeen =
      (freshDeck sha256 seed nonce).reverse.take e.cardsSeen) :
    ReplaysRight sha256 startingStack seed nonce e := by
  have hstart : (replayEngine sha256 ids startingStack seed nonce).machine =
      (HandStateMachine.initial ids startingStack).withDeck [] := rfl
  obtain ⟨e', hrun, -, deck, hmachine⟩ := Played.replay (e.rng.genuine_shuffle sha256)
    (DealtFrom.initial (e.deck sha256) ids startingStack) dealtFrom_replayEngine hstart h.played
    (by
      intro entry hentry
      rw [deck_replayEngine]
      exact take_of_take_le hsame (seen_le_of_mem hentry))
  rw [ReplaysRight, replayHand, h.table]
  rw [replayEngine] at hrun
  rw [hrun]
  dsimp only [Except.toOption, Option.map_some]
  rw [hmachine]
  rfl

/-- A right replay shows the cards of the engine. -/
lemma Logged.seen_of_replaysRight {e : GameEngine} (h : Logged sha256 ids startingStack e)
    (hright : ReplaysRight sha256 startingStack seed nonce e) :
    (e.deck sha256).reverse.take e.machine.state.seen.length =
      (freshDeck sha256 seed nonce).reverse.take e.machine.state.seen.length := by
  rw [ReplaysRight, replayHand, h.table, ← replayEngine] at hright
  cases hrun : (replayActions sha256 (e.log.entries.map (·.action))).run
      (replayEngine sha256 ids startingStack seed nonce) with
  | error err e' =>
    rw [hrun] at hright
    cases hright
  | ok u e' =>
    rw [hrun] at hright
    have hview : e'.machine.state.handView = e.machine.state.handView := Option.some.inj hright
    have hfrom := h.played.dealtFrom (e.rng.genuine_shuffle sha256)
      (DealtFrom.initial _ ids startingStack)
    have hseen := (dealtFrom_replayEngine.replay hrun).seen_eq
    rw [seen_of_handView hview, deck_replayEngine] at hseen
    rw [← hseen]
    exact hfrom.seen_eq.symm

/-- An entry shows its cards, the other events show none. -/
lemma cardsSeen_step (r : EngineRun) (event : EngineEvent) :
    (r.step sha256 event).engine.cardsSeen = r.engine.cardsSeen ∨
      (r.step sha256 event).engine.cardsSeen =
        max r.engine.cardsSeen (r.step sha256 event).engine.machine.state.seen.length := by
  obtain ⟨-, ⟨hentries, -⟩ | ⟨entry, m, hentries, -, hmachine, hpost⟩⟩ := @step_log sha256 r event
  · left
    rw [cardsSeen, cardsSeen, hentries]
  · right
    rw [cardsSeen, cardsSeen, hentries, map_append, map_cons, map_nil, foldr_max_append, hpost,
      hmachine]

lemma cardsSeen_init {r : EngineRun} (h : (engineRuns sha256 ids startingStack).init r) :
    r.engine.cardsSeen = 0 := by
  obtain ⟨seed, nonce, hasWallet, hasRepo, rfl⟩ := h
  rfl

lemma deck_step (r : EngineRun) (event : EngineEvent) :
    (r.step sha256 event).engine.deck sha256 = r.engine.deck sha256 := by
  rw [GameEngine.deck, (step_log r event).1]
  rfl

/-- Along a run the deck stays and more cards of it are shown. -/
lemma cardsSeen_mono {r r' : EngineRun}
    (h : Relation.ReflTransGen (engineRuns sha256 ids startingStack).Moves r r') :
    r'.engine.deck sha256 = r.engine.deck sha256 ∧ r.engine.cardsSeen ≤ r'.engine.cardsSeen := by
  induction h with
  | refl => exact ⟨rfl, le_rfl⟩
  | tail _ hmove ih =>
    obtain ⟨event, rfl⟩ := hmove
    refine ⟨(deck_step _ event).trans ih.1, ih.2.trans ?_⟩
    rcases @cardsSeen_step sha256 _ event with hsame | hmore
    · exact hsame.ge
    · exact hmore ▸ le_max_left _ _

end Run

/-- In every state that a run has come through the replay is right, exactly when the deck of the new
RNG begins with the cards of the deck that the run has shown. -/
theorem replay_iff {sha256 : List UInt8 → List UInt8} {ids : List PlayerId} {startingStack : ℕ}
    {r : EngineRun} (h : (engineRuns sha256 ids startingStack).Reachable r)
    (seed nonce : List UInt8) :
    (∀ r₀, (engineRuns sha256 ids startingStack).Reachable r₀ →
        Relation.ReflTransGen (engineRuns sha256 ids startingStack).Moves r₀ r →
        ReplaysRight sha256 startingStack seed nonce r₀.engine) ↔
      (r.engine.deck sha256).reverse.take r.engine.cardsSeen =
        (freshDeck sha256 seed nonce).reverse.take r.engine.cardsSeen := by
  constructor
  · intro hright
    obtain ⟨r₁, hinit, hrun⟩ := h
    induction hrun with
    | refl => rw [cardsSeen_init hinit, take_zero, take_zero]
    | @tail r₁' r₂ hrun hmove ih =>
      obtain ⟨event, rfl⟩ := hmove
      have hreach : (engineRuns sha256 ids startingStack).Reachable r₁' := ⟨r₁, hinit, hrun⟩
      have hnext := hreach.tail (a := event) rfl
      have hbefore := ih fun r₀ hreach₀ hpath => hright r₀ hreach₀ (hpath.tail ⟨event, rfl⟩)
      have hnow := (logged_of_reachable hnext).seen_of_replaysRight (hright _ hnext .refl)
      rw [deck_step] at hnow ⊢
      rcases @cardsSeen_step sha256 r₁' event with hsame | hmore
      · rw [hsame]
        exact hbefore
      · rw [hmore]
        rcases max_choice r₁'.engine.cardsSeen
          (r₁'.step sha256 event).engine.machine.state.seen.length with hmax | hmax <;> rw [hmax]
        · exact hbefore
        · exact hnow
  · intro hsame r₀ hreach hpath
    obtain ⟨hdeck, hle⟩ := cardsSeen_mono hpath
    rw [hdeck] at hsame
    exact (logged_of_reachable hreach).replaysRight (take_of_take_le hsame hle)

/-- A replay that happens to draw the same seed. -/
theorem replay_sameSeed :
    ReplaysRight zeroSeedHash 100 zeroSeed zeroNonce foldedHand.engine :=
  (replay_iff reachable_foldedHand zeroSeed zeroNonce).mpr (by
    rw [foldedHand, zeroSeedRun, zeroRng, zeroSeedHash_eq]
    decide +kernel) _ reachable_foldedHand .refl

/-- With another seed the players hold other cards. -/
theorem replay_otherSeed :
    ¬ ∀ (sha256 : List UInt8 → List UInt8) (ids : List PlayerId) (startingStack : ℕ)
      (r : EngineRun) (seed nonce : List UInt8), 2 ≤ ids.length →
      (engineRuns sha256 ids startingStack).Reachable r →
      ReplaysRight sha256 startingStack seed nonce r.engine := by
  intro h
  have hright := h zeroSeedHash ["p1", "p2"] 100 foldedHand (replicate 32 1) zeroNonce (by decide)
    reachable_foldedHand
  revert hright
  rw [foldedHand, zeroSeedRun, zeroRng, zeroSeedHash_eq]
  decide +kernel

end Pokerhub
