import Pokerhub.Core.Transition
import Pokerhub.Game.Deck

/-!
# What a call can do

`Step` lists the accepted actions, one rule per branch of `apply`, with the guards that the branch
checks. Every call either follows a rule or throws and leaves the machine unchanged
(`apply_cases`); the properties of the machine are proved from the rules.
-/

namespace Pokerhub

namespace GameStateInternal

/-- The cards that the deal of the current street adds to the board. -/
def boardDeal (s : GameStateInternal) : ℕ :=
  match s.street with
  | .flop => 3
  | .turn | .river => 1
  | _ => 0

/-- The remaining deck is not the 52 cards less the used ones, or is too short. -/
def NeedsRebuild (s : GameStateInternal) (n : ℕ) : Prop :=
  (s.deck.length : ℤ) ≠ (standardDeck.length : ℤ) - s.used.card ∨ s.deck.length < n

instance (s : GameStateInternal) (n : ℕ) : Decidable (s.NeedsRebuild n) :=
  inferInstanceAs (Decidable (_ ∨ _))

/-- The deck after `ensureDeckCapacity`. -/
def ensuredDeck (shuffle : Shuffle) (n : ℕ) (s : GameStateInternal) : List ℕ :=
  if s.NeedsRebuild n then buildDeck shuffle s.used else s.deck

/-- `n` cards popped from the deck onto the board. -/
def pop (n : ℕ) (s : GameStateInternal) : GameStateInternal :=
  { s with
    deck := s.deck.take (s.deck.length - n)
    communityCards := s.communityCards ++ s.deck.reverse.take n }

def dealBoard (shuffle : Shuffle) (n : ℕ) (s : GameStateInternal) : GameStateInternal :=
  { s with deck := s.ensuredDeck shuffle n }.pop n

/-- The guards of `dealCommunity`; without cards to deal it is not called. -/
structure CanDeal (n : ℕ) (s : GameStateInternal) : Prop where
  count : s.communityCards.length = s.expectedCommunityCountBeforeDeal
  shoe : s.NeedsRebuild n → n ≤ (standardDeck.filter (· ∉ s.used)).length

/-- What a chip action of a betting round asks `placeBet` for. -/
def requestedBet (s : GameStateInternal) : GameAction → Option (PlayerId × ℤ)
  | .bet id amount | .raise id amount | .postBlind id amount => some (id, amount)
  | .call id _ =>
    (s.players.find? fun p => p.id == id).map fun p => (id, s.currentBet - p.bet)
  | _ => none

end GameStateInternal

open GameStateInternal HandStateMachine

/-- The rules of the machine. -/
inductive Step (shuffle : Shuffle) : HandStateMachine → GameAction → HandStateMachine → Prop
  | postBlind {m : HandStateMachine} (id : PlayerId) (amount : ℤ) (p : PlayerStateInternal)
      (hphase : m.state.phase = .waitBlinds ∨ m.state.phase = .nextHand)
      (hp : m.state.players.find? (fun p => p.id == id) = some p) (hpos : 0 < amount)
      (hle : amount ≤ p.stack)
      (hmore : (insert p.id m.blindsPosted).card ≠ m.state.players.length) :
      Step shuffle m (.postBlind id amount)
        { state := m.state.addBet p amount, blindsPosted := insert p.id m.blindsPosted }
  | lastBlind {m : HandStateMachine} (id : PlayerId) (amount : ℤ) (p : PlayerStateInternal)
      (hphase : m.state.phase = .waitBlinds ∨ m.state.phase = .nextHand)
      (hp : m.state.players.find? (fun p => p.id == id) = some p) (hpos : 0 < amount)
      (hle : amount ≤ p.stack)
      (hall : (insert p.id m.blindsPosted).card = m.state.players.length) :
      Step shuffle m (.postBlind id amount)
        { state := (m.state.addBet p amount).startHand shuffle, blindsPosted := ∅ }
  | deal {m : HandStateMachine} (hphase : m.state.phase = .deal)
      (hdeal : m.state.boardDeal = 0 ∨ m.state.CanDeal m.state.boardDeal) :
      Step shuffle m .next
        { m with
          state :=
            { (if m.state.boardDeal = 0 then m.state
                else m.state.dealBoard shuffle m.state.boardDeal) with
              phase := .bettingRound } }
  | chips {m : HandStateMachine} {a : GameAction} (id : PlayerId) (amount : ℤ)
      (p : PlayerStateInternal) (hphase : m.state.phase = .bettingRound)
      (ha : m.state.requestedBet a = some (id, amount))
      (hp : m.state.players.find? (fun p => p.id == id) = some p) (hpos : 0 < amount)
      (hle : amount ≤ p.stack) :
      Step shuffle m a { m with state := (m.state.addBet p amount).closeIfAlone }
  | check {m : HandStateMachine} (id : PlayerId) (hphase : m.state.phase = .bettingRound) :
      Step shuffle m (.check id) { m with state := m.state.closeIfAlone }
  | fold {m : HandStateMachine} (id : PlayerId) (p : PlayerStateInternal)
      (hphase : m.state.phase = .bettingRound)
      (hp : m.state.players.find? (fun p => p.id == id) = some p) :
      Step shuffle m (.fold id)
        { m with state := (m.state.updatePlayer p.id (·.fold)).closeIfAlone }
  | next {m : HandStateMachine} (hphase : m.state.phase = .bettingRound) :
      Step shuffle m .next { m with state := m.state.closeStreet }
  | showdown {m : HandStateMachine} (hphase : m.state.phase = .showdown) :
      Step shuffle m .next { m with state := { m.state.settlePots with phase := .settle } }
  | settle {m : HandStateMachine} (hphase : m.state.phase = .settle) :
      Step shuffle m .next { state := m.state.resetHand, blindsPosted := ∅ }

/-! ### The calls in closed form -/

lemma find_id {ps : List PlayerStateInternal} {id : PlayerId} {p : PlayerStateInternal}
    (h : ps.find? (fun p => p.id == id) = some p) : p.id = id := by
  simpa using List.find?_some h

lemma run_findPlayer (id : PlayerId) (m : HandStateMachine) :
    (findPlayer id).run m =
      match m.state.players.find? (fun p => p.id == id) with
      | some player => .ok player m
      | none => .error (.unknownPlayer id) m := by
  unfold findPlayer
  rw [EStateM.run_bind]
  simp only [EStateM.run_get]
  cases m.state.players.find? (fun p => p.id == id) <;> rfl

lemma run_placeBet (p : PlayerStateInternal) (amount : ℤ) (m : HandStateMachine) :
    (placeBet p amount).run m =
      if amount ≤ 0 then .error .amountNotPositive m
      else if amount > p.stack then .error .betExceedsStack m
      else .ok () { m with state := m.state.addBet p amount } := by
  unfold placeBet modifyState
  split_ifs <;> simp_all

/-- A deal that passes the guards finds its cards. -/
lemma GameStateInternal.CanDeal.deck {n : ℕ} {s : GameStateInternal} (h : s.CanDeal n)
    (shuffle : Shuffle) : n ≤ (s.ensuredDeck shuffle n).length := by
  unfold ensuredDeck
  split_ifs with hrebuild
  · exact (h.shoe hrebuild).trans (available_length_le shuffle s.used)
  · unfold NeedsRebuild at hrebuild
    omega

lemma pop_zero (s : GameStateInternal) : s.pop 0 = s := by
  simp [pop]

/-- One more card popped. -/
lemma pop_succ {s : GameStateInternal} {n card : ℕ} (h : s.deck.getLast? = some card) :
    GameStateInternal.pop n
        { s with deck := s.deck.dropLast, communityCards := s.communityCards ++ [card] } =
      s.pop (n + 1) := by
  obtain ⟨deck, hdeck⟩ := List.getLast?_eq_some_iff.mp h
  simp [pop, hdeck]

lemma run_popCommunity {n : ℕ} {m : HandStateMachine} (h : n ≤ m.state.deck.length) :
    (popCommunity n).run m = .ok () { m with state := m.state.pop n } := by
  induction n generalizing m with
  | zero =>
    rw [pop_zero]
    rfl
  | succ n ih =>
    have hne : m.state.deck ≠ [] := by
      rintro h'
      simp [h'] at h
    obtain ⟨card, hcard⟩ := Option.ne_none_iff_exists'.mp
      (fun h' => hne (List.getLast?_eq_none_iff.mp h'))
    simp only [popCommunity, EStateM.run_bind, EStateM.run_get, hcard, modifyState,
      EStateM.run_modify]
    rw [ih (by simp; omega)]
    simp only [pop_succ hcard]

lemma run_ensureDeckCapacity {shuffle : Shuffle} {n : ℕ} {m : HandStateMachine}
    (h : m.state.NeedsRebuild n → n ≤ (standardDeck.filter (· ∉ m.state.used)).length) :
    (ensureDeckCapacity shuffle n).run m =
      .ok () { m with state := { m.state with deck := m.state.ensuredDeck shuffle n } } := by
  unfold ensureDeckCapacity ensuredDeck modifyState
  unfold NeedsRebuild at h ⊢
  simp only [EStateM.run_bind, EStateM.run_get]
  by_cases hrebuild : (m.state.deck.length : ℤ) ≠
      (standardDeck.length : ℤ) - m.state.used.card ∨ m.state.deck.length < n
  · have hshoe : ¬ (standardDeck.filter (· ∉ m.state.used)).length < n := not_lt.mpr (h hrebuild)
    simp only [hrebuild, hshoe, if_true, if_false, EStateM.run_modify]
  · simp only [hrebuild, if_false, EStateM.run_pure]

lemma run_ensureDeckCapacity_error {shuffle : Shuffle} {n : ℕ} {m : HandStateMachine}
    (h : ¬ (m.state.NeedsRebuild n → n ≤ (standardDeck.filter (· ∉ m.state.used)).length)) :
    (ensureDeckCapacity shuffle n).run m = .error .insufficientCards m := by
  unfold ensureDeckCapacity
  unfold NeedsRebuild at h
  rw [Classical.not_imp, not_le] at h
  simp only [EStateM.run_bind, EStateM.run_get, h.1, h.2, if_true, EStateM.run_throw]

/-- A community deal that passes its guards deals all its cards. -/
lemma run_dealCommunity {shuffle : Shuffle} {n : ℕ} {m : HandStateMachine}
    (h : m.state.CanDeal n) :
    (dealCommunity shuffle n).run m = .ok () { m with state := m.state.dealBoard shuffle n } := by
  unfold dealCommunity
  simp only [EStateM.run_bind, EStateM.run_get, h.count, ne_eq, not_true_eq_false, if_false,
    run_ensureDeckCapacity h.shoe]
  exact run_popCommunity (h.deck shuffle)

/-- A community deal that does not, throws before any write. -/
lemma run_dealCommunity_error (shuffle : Shuffle) {n : ℕ} {m : HandStateMachine}
    (h : ¬ m.state.CanDeal n) : ∃ e, (dealCommunity shuffle n).run m = .error e m := by
  unfold dealCommunity
  simp only [EStateM.run_bind, EStateM.run_get]
  by_cases hcount : m.state.communityCards.length = m.state.expectedCommunityCountBeforeDeal
  · refine ⟨.insufficientCards, ?_⟩
    simp only [hcount, ne_eq, not_true_eq_false, if_false, EStateM.run_bind,
      run_ensureDeckCapacity_error fun hshoe => h ⟨hcount, hshoe⟩]
  · exact ⟨.alreadyDealt, by simp only [hcount, ne_eq, not_false_eq_true, if_true,
      EStateM.run_bind, EStateM.run_throw]⟩

/-- Finding a player and letting him bet. -/
lemma run_bet (id : PlayerId) (amount : PlayerStateInternal → ℤ) (m : HandStateMachine) :
    (∃ p, m.state.players.find? (fun p => p.id == id) = some p ∧ 0 < amount p ∧
        amount p ≤ p.stack ∧
        (findPlayer id >>= fun p => placeBet p (amount p)).run m =
          .ok () { m with state := m.state.addBet p (amount p) }) ∨
      ∃ e, (findPlayer id >>= fun p => placeBet p (amount p)).run m = .error e m := by
  rw [EStateM.run_bind, run_findPlayer]
  cases hp : m.state.players.find? (fun p => p.id == id) with
  | none => exact Or.inr ⟨_, rfl⟩
  | some p =>
    dsimp only
    rw [run_placeBet]
    by_cases hpos : amount p ≤ 0
    · exact Or.inr ⟨_, by rw [if_pos hpos]⟩
    · by_cases hle : amount p > p.stack
      · exact Or.inr ⟨_, by rw [if_neg hpos, if_pos hle]⟩
      · exact Or.inl ⟨p, rfl, by omega, by omega, by rw [if_neg hpos, if_neg hle]⟩

/-! ### Calls follow the rules -/

lemma applyBlinds_cases (shuffle : Shuffle) (a : GameAction) (m : HandStateMachine)
    (hphase : m.state.phase = .waitBlinds ∨ m.state.phase = .nextHand) :
    (∃ m', (applyBlinds shuffle a).run m = .ok () m' ∧ Step shuffle m a m') ∨
      ∃ e, (applyBlinds shuffle a).run m = .error e m := by
  cases a with
  | postBlind id amount =>
    simp only [applyBlinds, EStateM.run_bind, run_findPlayer]
    cases hp : m.state.players.find? (fun p => p.id == id) with
    | none => exact Or.inr ⟨_, rfl⟩
    | some p =>
      simp only [run_placeBet]
      by_cases hpos : amount ≤ 0
      · exact Or.inr ⟨.amountNotPositive, by simp only [if_pos hpos]⟩
      · by_cases hle : amount > p.stack
        · exact Or.inr ⟨.betExceedsStack, by simp only [if_neg hpos, if_pos hle]⟩
        · left
          have hlen : (m.state.addBet p amount).players.length = m.state.players.length := by
            simp [addBet, updatePlayer]
          simp only [if_neg hpos, if_neg hle, EStateM.run_modify, EStateM.run_get, hlen]
          by_cases hall : (insert p.id m.blindsPosted).card = m.state.players.length
          · exact ⟨_, by simp only [if_pos hall]; rfl,
              .lastBlind id amount p hphase hp (by omega) (by omega) hall⟩
          · exact ⟨_, by simp only [if_neg hall]; rfl,
              .postBlind id amount p hphase hp (by omega) (by omega) hall⟩
  | _ => exact Or.inr ⟨.invalidAction, rfl⟩

lemma applyDeal_cases (shuffle : Shuffle) (a : GameAction) (m : HandStateMachine)
    (hphase : m.state.phase = .deal) :
    (∃ m', (applyDeal shuffle a).run m = .ok () m' ∧ Step shuffle m a m') ∨
      ∃ e, (applyDeal shuffle a).run m = .error e m := by
  cases a with
  | next =>
    have hstep := @Step.deal shuffle m hphase
    have hrun : ∀ n, m.state.boardDeal = n → n ≠ 0 →
        (∃ m', (dealCommunity shuffle n >>= fun _ =>
            modifyState fun s => { s with phase := .bettingRound }).run m = .ok () m' ∧
          Step shuffle m .next m') ∨
        ∃ e, (dealCommunity shuffle n >>= fun _ =>
            modifyState fun s => { s with phase := .bettingRound }).run m = .error e m := by
      rintro n rfl hn
      rw [EStateM.run_bind]
      by_cases hdeal : m.state.CanDeal m.state.boardDeal
      · rw [if_neg hn] at hstep
        exact Or.inl ⟨_, by rw [run_dealCommunity hdeal]; rfl, hstep (Or.inr hdeal)⟩
      · obtain ⟨e, hrun⟩ := run_dealCommunity_error shuffle hdeal
        exact Or.inr ⟨e, by rw [hrun]⟩
    simp only [applyDeal, EStateM.run_bind (x := get), EStateM.run_get]
    cases hstreet : m.state.street with
    | flop => exact hrun 3 (by simp [boardDeal, hstreet]) (by decide)
    | turn => exact hrun 1 (by simp [boardDeal, hstreet]) (by decide)
    | river => exact hrun 1 (by simp [boardDeal, hstreet]) (by decide)
    | preflop | showdown =>
      have hzero : m.state.boardDeal = 0 := by simp [boardDeal, hstreet]
      rw [if_pos hzero] at hstep
      exact Or.inl ⟨_, rfl, hstep (Or.inl hzero)⟩
  | _ => exact Or.inr ⟨.invalidAction, rfl⟩

lemma closeStreet_phase (s : GameStateInternal) : s.closeStreet.phase ≠ .bettingRound := by
  unfold closeStreet
  dsimp only
  split_ifs <;> simp

lemma bettingAction_cases (shuffle : Shuffle) (a : GameAction) (m : HandStateMachine)
    (hphase : m.state.phase = .bettingRound) :
    (∃ s, (bettingAction a).run m = .ok () { m with state := s } ∧
        Step shuffle m a
          { m with state := if s.phase = .bettingRound then s.closeIfAlone else s }) ∨
      ∃ e, (bettingAction a).run m = .error e m := by
  have hbet : ∀ (id : PlayerId) (amount : PlayerStateInternal → ℤ),
      (∀ p, m.state.players.find? (fun p => p.id == id) = some p →
        m.state.requestedBet a = some (id, amount p)) →
      (bettingAction a).run m = (findPlayer id >>= fun p => placeBet p (amount p)).run m →
      (∃ s, (bettingAction a).run m = .ok () { m with state := s } ∧
        Step shuffle m a
          { m with state := if s.phase = .bettingRound then s.closeIfAlone else s }) ∨
      ∃ e, (bettingAction a).run m = .error e m := by
    intro id amount hreq hrun
    rw [hrun]
    rcases run_bet id amount m with ⟨p, hp, hpos, hle, hok⟩ | herror
    · refine Or.inl ⟨_, hok, ?_⟩
      have haddBet : (m.state.addBet p (amount p)).phase = .bettingRound := hphase
      rw [if_pos haddBet]
      exact .chips id (amount p) p hphase (hreq p hp) hp hpos hle
    · exact Or.inr herror
  cases a with
  | bet id amount | raise id amount | postBlind id amount =>
    exact hbet id (fun _ => amount) (fun _ _ => rfl) rfl
  | call id amount =>
    refine hbet id (fun p => m.state.currentBet - p.bet) (fun p hp => ?_) ?_
    · simp [requestedBet, hp]
    · simp only [bettingAction, EStateM.run_bind, EStateM.run_get, run_findPlayer]
      cases m.state.players.find? (fun p => p.id == id) <;> rfl
  | check id =>
    refine Or.inl ⟨m.state, rfl, ?_⟩
    rw [if_pos hphase]
    exact .check id hphase
  | fold id =>
    simp only [bettingAction, EStateM.run_bind, run_findPlayer]
    cases hp : m.state.players.find? (fun p => p.id == id) with
    | none => exact Or.inr ⟨_, rfl⟩
    | some p =>
      refine Or.inl ⟨_, rfl, ?_⟩
      have hfold : (m.state.updatePlayer p.id (·.fold)).phase = .bettingRound := hphase
      rw [if_pos hfold]
      exact .fold id p hphase hp
  | next =>
    refine Or.inl ⟨_, rfl, ?_⟩
    rw [if_neg (closeStreet_phase _)]
    exact .next hphase

lemma applyBetting_cases (shuffle : Shuffle) (a : GameAction) (m : HandStateMachine)
    (hphase : m.state.phase = .bettingRound) :
    (∃ m', (applyBetting a).run m = .ok () m' ∧ Step shuffle m a m') ∨
      ∃ e, (applyBetting a).run m = .error e m := by
  rw [applyBetting, EStateM.run_bind]
  rcases bettingAction_cases shuffle a m hphase with ⟨s, hrun, hstep⟩ | ⟨e, hrun⟩
  · exact Or.inl ⟨_, by rw [hrun]; rfl, hstep⟩
  · exact Or.inr ⟨e, by rw [hrun]⟩

/-- Every call follows a rule, or throws and leaves the machine unchanged. -/
theorem apply_cases (shuffle : Shuffle) (a : GameAction) (m : HandStateMachine) :
    (∃ m', (apply shuffle a).run m = .ok () m' ∧ Step shuffle m a m') ∨
      ∃ e, (apply shuffle a).run m = .error e m := by
  unfold apply
  rw [EStateM.run_bind, EStateM.run_get]
  dsimp only
  cases hphase : m.state.phase with
  | waitBlinds => exact applyBlinds_cases shuffle a m (Or.inl hphase)
  | nextHand => exact applyBlinds_cases shuffle a m (Or.inr hphase)
  | deal => exact applyDeal_cases shuffle a m hphase
  | bettingRound => exact applyBetting_cases shuffle a m hphase
  | showdown =>
    cases a with
    | next => exact Or.inl ⟨_, rfl, .showdown hphase⟩
    | _ => exact Or.inr ⟨.invalidAction, rfl⟩
  | settle =>
    cases a with
    | next => exact Or.inl ⟨_, rfl, .settle hphase⟩
    | _ => exact Or.inr ⟨.invalidAction, rfl⟩

/-- An accepted action follows a rule. -/
theorem Step.of_apply {shuffle : Shuffle} {a : GameAction} {m m' : HandStateMachine}
    (h : (apply shuffle a).run m = .ok () m') : Step shuffle m a m' := by
  rcases apply_cases shuffle a m with ⟨m₁, hok, hstep⟩ | ⟨e, herror⟩
  · rw [h] at hok
    cases hok
    exact hstep
  · rw [h] at herror
    cases herror

/-- A rejected action leaves the machine unchanged. -/
theorem apply_error_unchanged {shuffle : Shuffle} {a : GameAction} {m m' : HandStateMachine}
    {e : GameError} (h : (apply shuffle a).run m = .error e m') : m' = m := by
  rcases apply_cases shuffle a m with ⟨m₁, hok, _⟩ | ⟨e', herror⟩
  · rw [h] at hok
    cases hok
  · rw [h] at herror
    cases herror
    rfl

lemma run_applyBlinds {shuffle : Shuffle} {m : HandStateMachine} {id : PlayerId} {amount : ℤ}
    {p : PlayerStateInternal} (hp : m.state.players.find? (fun p => p.id == id) = some p)
    (hpos : 0 < amount) (hle : amount ≤ p.stack) :
    (applyBlinds shuffle (.postBlind id amount)).run m =
      if (insert p.id m.blindsPosted).card = m.state.players.length then
        .ok () { state := (m.state.addBet p amount).startHand shuffle, blindsPosted := ∅ }
      else
        .ok () { state := m.state.addBet p amount, blindsPosted := insert p.id m.blindsPosted } := by
  have hlen : (m.state.addBet p amount).players.length = m.state.players.length := by
    simp [addBet, updatePlayer]
  simp only [applyBlinds, EStateM.run_bind, run_findPlayer, hp, run_placeBet,
    if_neg (not_le.mpr hpos), if_neg (not_lt.mpr hle), EStateM.run_modify, EStateM.run_get, hlen]
  split_ifs <;> rfl

lemma run_applyDeal {shuffle : Shuffle} {m : HandStateMachine}
    (h : m.state.boardDeal = 0 ∨ m.state.CanDeal m.state.boardDeal) :
    (applyDeal shuffle .next).run m =
      .ok ()
        { m with
          state :=
            { (if m.state.boardDeal = 0 then m.state
                else m.state.dealBoard shuffle m.state.boardDeal) with
              phase := .bettingRound } } := by
  have hdeal : ∀ n, m.state.boardDeal = n → n ≠ 0 → m.state.CanDeal n := by
    rintro n rfl hn
    exact h.resolve_left hn
  simp only [applyDeal, EStateM.run_bind, EStateM.run_get]
  cases hstreet : m.state.street with
  | flop =>
    have hn : m.state.boardDeal = 3 := by simp [boardDeal, hstreet]
    simp only [EStateM.run_bind, run_dealCommunity (hdeal 3 hn (by decide)), hn]
    rfl
  | turn | river =>
    have hn : m.state.boardDeal = 1 := by simp [boardDeal, hstreet]
    simp only [EStateM.run_bind, run_dealCommunity (hdeal 1 hn (by decide)), hn]
    rfl
  | preflop | showdown =>
    have hn : m.state.boardDeal = 0 := by simp [boardDeal, hstreet]
    simp only [hn]
    rfl

lemma run_bettingAction {m : HandStateMachine} {a : GameAction} {id : PlayerId} {amount : ℤ}
    {p : PlayerStateInternal} (ha : m.state.requestedBet a = some (id, amount))
    (hp : m.state.players.find? (fun p => p.id == id) = some p) (hpos : 0 < amount)
    (hle : amount ≤ p.stack) :
    (bettingAction a).run m = .ok () { m with state := m.state.addBet p amount } := by
  cases a with
  | bet | raise | postBlind =>
    cases ha
    simp only [bettingAction, EStateM.run_bind, run_findPlayer, hp, run_placeBet,
      if_neg (not_le.mpr hpos), if_neg (not_lt.mpr hle)]
  | call id' =>
    simp only [requestedBet, Option.map_eq_some_iff, Prod.mk.injEq] at ha
    obtain ⟨q, hq, rfl, rfl⟩ := ha
    obtain rfl : q = p := by simpa [hq] using hp
    simp only [bettingAction, EStateM.run_bind, EStateM.run_get, run_findPlayer, hp,
      run_placeBet, if_neg (not_le.mpr hpos), if_neg (not_lt.mpr hle)]
  | check | fold | next => cases ha

/-- Every rule is an accepted action. -/
theorem Step.run_apply {shuffle : Shuffle} {a : GameAction} {m m' : HandStateMachine}
    (h : Step shuffle m a m') : (apply shuffle a).run m = .ok () m' := by
  have hopen : ∀ f : GameStateInternal → GameStateInternal, m.state.phase = .bettingRound →
      (∀ s, (f s).phase = s.phase) → (bettingAction a).run m = .ok () { m with state := f m.state } →
      (apply shuffle a).run m = .ok () { m with state := (f m.state).closeIfAlone } := by
    intro f hphase hf hrun
    simp only [apply, EStateM.run_bind, EStateM.run_get, hphase, applyBetting, hrun, modifyState,
      EStateM.run_modify, hf, if_true]
  cases h with
  | postBlind id amount p hphase hp hpos hle hmore =>
    rcases hphase with hphase | hphase <;>
      simp only [apply, EStateM.run_bind, EStateM.run_get, hphase,
        run_applyBlinds hp hpos hle, if_neg hmore]
  | lastBlind id amount p hphase hp hpos hle hall =>
    rcases hphase with hphase | hphase <;>
      simp only [apply, EStateM.run_bind, EStateM.run_get, hphase,
        run_applyBlinds hp hpos hle, if_pos hall]
  | deal hphase hdeal =>
    simp only [apply, EStateM.run_bind, EStateM.run_get, hphase, run_applyDeal hdeal]
  | chips id amount p hphase ha hp hpos hle =>
    exact hopen (·.addBet p amount) hphase (fun _ => rfl) (run_bettingAction ha hp hpos hle)
  | check id hphase => exact hopen (fun s => s) hphase (fun _ => rfl) rfl
  | fold id p hphase hp =>
    refine hopen (·.updatePlayer p.id (·.fold)) hphase (fun _ => rfl) ?_
    simp only [bettingAction, EStateM.run_bind, run_findPlayer, hp]
    rfl
  | next hphase =>
    simp only [apply, EStateM.run_bind, EStateM.run_get, hphase, applyBetting, bettingAction,
      modifyState, EStateM.run_modify, closeStreet_phase, if_false]
  | showdown hphase =>
    simp only [apply, EStateM.run_bind, EStateM.run_get, hphase]
    rfl
  | settle hphase =>
    simp only [apply, EStateM.run_bind, EStateM.run_get, hphase]
    rfl

/-- The accepted actions are those of the rules. -/
theorem run_apply_iff {shuffle : Shuffle} {a : GameAction} {m m' : HandStateMachine} :
    (apply shuffle a).run m = .ok () m' ↔ Step shuffle m a m' :=
  ⟨Step.of_apply, Step.run_apply⟩

end Pokerhub
