import Pokerhub.Game.Betting

/-!
# The deal

From the deal to the settlement of a hand, the hole cards, the board and the remaining deck are
the 52 cards, each once (`Partition`), for every shuffle that returns only cards it was given. If
the deck is cut short from outside, the cards that are left are still different (`Dealt`), and
the next community deal completes the deck again (`Dealt.dealBoard`).
-/

namespace Pokerhub

open GameStateInternal HandStateMachine TransitionSystem List

namespace GameStateInternal

def holeNumbers (s : GameStateInternal) : List ℕ :=
  s.players.flatMap fun p => (p.holeCards.getD []).filterMap id

/-- All cards of a hand, in the order in which they leave the deck. -/
def cards (s : GameStateInternal) : List ℕ :=
  s.holeNumbers ++ s.communityCards ++ s.deck.reverse

/-- Everybody holds two cards. -/
def HoleDealt (s : GameStateInternal) : Prop :=
  ∀ p ∈ s.players, ∃ a b, p.holeCards = some [some a, some b]

/-- The cards of a hand are different cards of the standard deck. -/
structure Dealt (s : GameStateInternal) : Prop where
  hole : s.HoleDealt
  nodup : s.cards.Nodup
  lt : ∀ c ∈ s.cards, c < 52

/-- The cards of a hand are the standard deck. -/
structure Partition (s : GameStateInternal) : Prop where
  hole : s.HoleDealt
  perm : s.cards ~ standardDeck

lemma mem_standardDeck {c : ℕ} : c ∈ standardDeck ↔ c < 52 := mem_range

lemma length_standardDeck : standardDeck.length = 52 := length_range

lemma Partition.dealt {s : GameStateInternal} (h : s.Partition) : s.Dealt where
  hole := h.hole
  nodup := h.perm.nodup_iff.mpr nodup_standardDeck
  lt _ hc := mem_standardDeck.mp (h.perm.mem_iff.mp hc)

/-- Enough different cards are the whole deck. -/
lemma perm_standardDeck {l : List ℕ} (hnodup : l.Nodup) (hlt : ∀ c ∈ l, c < 52)
    (hlen : 52 ≤ l.length) : l ~ standardDeck :=
  (subperm_of_subset hnodup fun _ hc => mem_standardDeck.mpr (hlt _ hc)).perm_of_length_le
    (by rwa [length_standardDeck])

/-! ### Hole cards -/

/-- With two cards for everybody in the deck, everybody is dealt the next two of them. -/
lemma dealHoleCards_spec {ps : List PlayerStateInternal} {deck : List ℕ}
    (h : 2 * ps.length ≤ deck.length) :
    (∀ p ∈ (dealHoleCards ps deck).1, ∃ a b, p.holeCards = some [some a, some b]) ∧
      ((dealHoleCards ps deck).1.flatMap fun p => (p.holeCards.getD []).filterMap id) ++
        (dealHoleCards ps deck).2.reverse = deck.reverse := by
  induction ps generalizing deck with
  | nil => exact ⟨by simp [dealHoleCards], by simp [dealHoleCards]⟩
  | cons p ps ih =>
    rw [length_cons] at h
    obtain ⟨a, ha⟩ : ∃ a, deck.getLast? = some a :=
      Option.isSome_iff_exists.mp (by rw [getLast?_isSome]; rintro rfl; simp at h)
    obtain ⟨deck₁, rfl⟩ := getLast?_eq_some_iff.mp ha
    obtain ⟨b, hb⟩ : ∃ b, deck₁.getLast? = some b :=
      Option.isSome_iff_exists.mp
        (by rw [getLast?_isSome]; rintro rfl; simp only [nil_append, length_singleton] at h; omega)
    obtain ⟨deck₂, rfl⟩ := getLast?_eq_some_iff.mp hb
    simp only [length_append, length_singleton] at h
    obtain ⟨hhole, hrest⟩ := @ih deck₂ (by omega)
    have hdeal : dealHoleCards (p :: ps) (deck₂ ++ [b] ++ [a]) =
        ({ p with holeCards := some [some a, some b] } :: (dealHoleCards ps deck₂).1,
          (dealHoleCards ps deck₂).2) := by
      simp [dealHoleCards]
    rw [hdeal]
    constructor
    · intro q hq
      rcases mem_cons.mp hq with rfl | hq
      · exact ⟨a, b, rfl⟩
      · exact hhole q hq
    · simpa using hrest

/-- The deal of a new hand deals from the built deck, to at most 26 players. -/
lemma startHand_cards {s : GameStateInternal} {shuffle : Shuffle} (hgenuine : shuffle.Genuine)
    (hboard : s.communityCards = []) (hlen : s.players.length ≤ 26) :
    (s.startHand shuffle).HoleDealt ∧
      (s.startHand shuffle).cards = (buildDeck shuffle ∅).reverse := by
  have hdeck : (buildDeck shuffle ∅).length = 52 := by
    rw [(buildDeck_perm hgenuine ∅).length_eq]
    rfl
  obtain ⟨hhole, hcards⟩ := @dealHoleCards_spec s.players (buildDeck shuffle ∅) (by omega)
  refine ⟨hhole, ?_⟩
  rw [cards, startHand, hboard, append_nil]
  exact hcards

lemma partition_startHand {s : GameStateInternal} {shuffle : Shuffle} (hgenuine : shuffle.Genuine)
    (hboard : s.communityCards = []) (hlen : s.players.length ≤ 26) :
    (s.startHand shuffle).Partition := by
  obtain ⟨hhole, hcards⟩ := startHand_cards hgenuine hboard hlen
  refine ⟨hhole, ?_⟩
  rw [hcards]
  refine (reverse_perm _).trans ?_
  simpa using buildDeck_perm hgenuine ∅

/-! ### The board -/

/-- The board takes the next cards of the deck. -/
lemma pop_cards (s : GameStateInternal) (n : ℕ) : (s.pop n).cards = s.cards := by
  have hdeck : s.deck.reverse.take n ++ (s.deck.take (s.deck.length - n)).reverse =
      s.deck.reverse := by
    rw [take_reverse, ← reverse_append, take_append_drop]
  have hcards : (s.pop n).cards = (s.holeNumbers ++ s.communityCards) ++
      (s.deck.reverse.take n ++ (s.deck.take (s.deck.length - n)).reverse) := by
    simp [cards, holeNumbers, pop]
  rw [hcards, hdeck, cards]

lemma mem_used {s : GameStateInternal} {c : ℕ} :
    c ∈ s.used ↔ c ∈ s.holeNumbers ++ s.communityCards := by
  simp only [used, mem_toFinset, mem_append, holeNumbers]
  exact or_comm

/-- The cards that were dealt and those that are left are the deck, for any number of players. -/
lemma dealHoleCards_deck (ps : List PlayerStateInternal) (deck : List ℕ) :
    ((dealHoleCards ps deck).1.flatMap fun p => (p.holeCards.getD []).filterMap id) ++
        (dealHoleCards ps deck).2.reverse = deck.reverse ∧
      (dealHoleCards ps deck).2.length = deck.length - 2 * ps.length := by
  induction ps generalizing deck with
  | nil => exact ⟨rfl, rfl⟩
  | cons p ps ih =>
    obtain ⟨hcards, hlen⟩ := ih deck.dropLast.dropLast
    constructor
    · have hhole : [deck.getLast?, deck.dropLast.getLast?].filterMap id ++
          deck.dropLast.dropLast.reverse = deck.reverse := by
        rcases eq_nil_or_concat deck with rfl | ⟨deck₁, a, rfl⟩
        · rfl
        · rcases eq_nil_or_concat deck₁ with rfl | ⟨deck₂, b, rfl⟩ <;> simp
      rw [← hhole, ← hcards]
      simp [dealHoleCards]
    · simp only [dealHoleCards, hlen, length_dropLast, length_cons]
      omega

lemma length_available {used : Finset ℕ} (h : ∀ c ∈ used, c < 52) :
    (standardDeck.filter (· ∉ used)).length = 52 - used.card := by
  have hsub : used ⊆ Finset.range 52 := fun c hc => Finset.mem_range.mpr (h c hc)
  have hset : (standardDeck.filter (· ∉ used)).toFinset = Finset.range 52 \ used := by
    ext c
    simp [mem_standardDeck]
  rw [← toFinset_card_of_nodup (nodup_standardDeck.filter _), hset,
    Finset.card_sdiff_of_subset hsub, Finset.card_range]

lemma buildDeck_reverse_perm {shuffle : Shuffle} (hgenuine : shuffle.Genuine) :
    (buildDeck shuffle ∅).reverse ~ standardDeck := by
  refine (reverse_perm _).trans ?_
  simpa using buildDeck_perm hgenuine ∅

/-- A new hand is dealt from the built deck, as far as its cards go. -/
lemma startHand_deck {s : GameStateInternal} {shuffle : Shuffle} (hgenuine : shuffle.Genuine)
    (hboard : s.communityCards = []) :
    (s.startHand shuffle).cards = (buildDeck shuffle ∅).reverse ∧
      (s.startHand shuffle).deck.length = 52 - 2 * s.players.length := by
  obtain ⟨hcards, hlen⟩ := dealHoleCards_deck s.players (buildDeck shuffle ∅)
  constructor
  · rw [cards, startHand, hboard, append_nil]
    exact hcards
  · rw [← length_standardDeck, ← (buildDeck_reverse_perm hgenuine).length_eq, length_reverse]
    exact hlen

/-- What is not in use is in the deck, when the cards are all there. -/
lemma card_used_of_perm {s : GameStateInternal} (h : s.cards ~ standardDeck) :
    s.used.card + s.deck.length = 52 ∧ ∀ c ∈ s.used, c < 52 := by
  have hset : s.used = (s.holeNumbers ++ s.communityCards).toFinset := by
    ext c
    rw [mem_used, mem_toFinset]
  have hnodup : (s.holeNumbers ++ s.communityCards).Nodup :=
    (h.nodup_iff.mpr nodup_standardDeck).sublist (sublist_append_left _ _)
  constructor
  · have hlength := h.length_eq
    rw [cards, length_append, length_reverse, length_standardDeck] at hlength
    rw [hset, toFinset_card_of_nodup hnodup, hlength]
  · intro c hc
    exact mem_standardDeck.mp (h.mem_iff.mp (mem_append_left _ (mem_used.mp hc)))

/-- With all cards there, a community deal that passes its guards keeps the deck. -/
lemma ensuredDeck_of_perm {s : GameStateInternal} {shuffle : Shuffle} {n : ℕ}
    (h : s.cards ~ standardDeck) (hdeal : s.CanDeal n) : s.ensuredDeck shuffle n = s.deck := by
  obtain ⟨hcard, hlt⟩ := card_used_of_perm h
  have hkeep : ¬ s.NeedsRebuild n := by
    intro hrebuild
    have hshoe := hdeal.shoe hrebuild
    rw [length_available hlt] at hshoe
    rw [NeedsRebuild, length_standardDeck] at hrebuild
    omega
  rw [ensuredDeck, if_neg hkeep]

section Dealt

variable {s : GameStateInternal}

lemma Dealt.nodup_known (h : s.Dealt) : (s.holeNumbers ++ s.communityCards).Nodup :=
  h.nodup.sublist (sublist_append_left _ _)

lemma Dealt.card_used (h : s.Dealt) :
    s.used.card = (s.holeNumbers ++ s.communityCards).length := by
  rw [← toFinset_card_of_nodup h.nodup_known]
  congr 1
  ext c
  rw [mem_used, mem_toFinset]

/-- The cards on the table and those that are left are the whole deck. -/
lemma Dealt.known_append_available (h : s.Dealt) :
    s.holeNumbers ++ s.communityCards ++ standardDeck.filter (· ∉ s.used) ~ standardDeck := by
  have hin : s.holeNumbers ++ s.communityCards ~ standardDeck.filter (· ∈ s.used) := by
    refine (perm_ext_iff_of_nodup h.nodup_known (nodup_standardDeck.filter _)).mpr fun c => ?_
    rw [mem_filter, decide_eq_true_iff, mem_used, mem_standardDeck]
    exact ⟨fun hc => ⟨h.lt c (mem_append_left _ hc), hc⟩, And.right⟩
  have hnot : standardDeck.filter (· ∉ s.used) =
      standardDeck.filter fun c => !decide (c ∈ s.used) := by
    refine filter_congr fun c _ => ?_
    simp
  rw [hnot]
  exact (hin.append_right _).trans (filter_append_perm _ _)

/-- A community deal leaves the whole deck, also when some of the deck was missing before. -/
theorem Dealt.dealBoard (h : s.Dealt) {shuffle : Shuffle} (hgenuine : shuffle.Genuine) (n : ℕ) :
    (s.dealBoard shuffle n).Partition := by
  have hcomplete : s.holeNumbers ++ s.communityCards ++ (s.ensuredDeck shuffle n).reverse ~
      standardDeck := by
    unfold ensuredDeck
    split_ifs with hrebuild
    · -- the rebuilt deck is what is not in use
      refine Perm.trans ?_ h.known_append_available
      exact ((reverse_perm _).trans (buildDeck_perm hgenuine s.used)).append_left _
    · unfold NeedsRebuild at hrebuild
      rw [not_or, ne_eq, not_not, h.card_used, length_standardDeck] at hrebuild
      refine perm_standardDeck h.nodup h.lt ?_
      rw [length_append, length_reverse]
      omega
  refine ⟨h.hole, ?_⟩
  rw [GameStateInternal.dealBoard, pop_cards]
  exact hcomplete

/-- A community deal that passes its guards finds the deck as the last deal left it. -/
lemma Partition.ensuredDeck_eq (h : s.Partition) {shuffle : Shuffle} {n : ℕ} (hdeal : s.CanDeal n) :
    s.ensuredDeck shuffle n = s.deck :=
  ensuredDeck_of_perm h.perm hdeal

end Dealt

/-! ### Everything else leaves the cards alone -/

/-- What of a state is cards. -/
def cardView (s : GameStateInternal) :
    List (Option (List (Option ℕ))) × List ℕ × List ℕ :=
  (s.players.map (·.holeCards), s.communityCards, s.deck)

lemma holeNumbers_eq (s : GameStateInternal) :
    s.holeNumbers = s.cardView.1.flatMap fun h => (h.getD []).filterMap id := by
  simp [holeNumbers, cardView, flatMap_map]

lemma holeDealt_iff (s : GameStateInternal) :
    s.HoleDealt ↔ ∀ h ∈ s.cardView.1, ∃ a b, h = some [some a, some b] := by
  simp [HoleDealt, cardView]

lemma cards_eq_of_view {s s' : GameStateInternal} (h : s'.cardView = s.cardView) :
    s'.cards = s.cards ∧ (s'.HoleDealt ↔ s.HoleDealt) := by
  refine ⟨?_, by rw [holeDealt_iff, holeDealt_iff, h]⟩
  have hboard : s'.communityCards = s.communityCards := congrArg (·.2.1) h
  have hdeck : s'.deck = s.deck := congrArg (·.2.2) h
  rw [cards, cards, holeNumbers_eq, holeNumbers_eq, h, hboard, hdeck]

lemma Dealt.of_view {s s' : GameStateInternal} (h : s'.cardView = s.cardView) (hs : s.Dealt) :
    s'.Dealt := by
  obtain ⟨hcards, hhole⟩ := cards_eq_of_view h
  exact ⟨hhole.mpr hs.hole, hcards ▸ hs.nodup, hcards ▸ hs.lt⟩

lemma Partition.of_view {s s' : GameStateInternal} (h : s'.cardView = s.cardView)
    (hs : s.Partition) : s'.Partition := by
  obtain ⟨hcards, hhole⟩ := cards_eq_of_view h
  exact ⟨hhole.mpr hs.hole, hcards ▸ hs.perm⟩

lemma cardView_addBet (s : GameStateInternal) (p : PlayerStateInternal) (amount : ℤ) :
    (s.addBet p amount).cardView = s.cardView :=
  congrArg (·, s.communityCards, s.deck) (map_updateFirst_of_eq _ (by intro; rfl) _)

lemma cardView_fold (s : GameStateInternal) (id : PlayerId) :
    (s.updatePlayer id (·.fold)).cardView = s.cardView :=
  congrArg (·, s.communityCards, s.deck) (map_updateFirst_of_eq _ (by intro; rfl) _)

lemma cardView_finishBettingRound (s : GameStateInternal) :
    s.finishBettingRound.cardView = s.cardView := by
  unfold finishBettingRound
  split
  · rfl
  · simp [cardView]

lemma cardView_closeIfAlone (s : GameStateInternal) :
    s.closeIfAlone.cardView = s.cardView := by
  rw [closeIfAlone_eq]
  split
  · exact cardView_finishBettingRound s
  · rfl

lemma cardView_closeStreet (s : GameStateInternal) : s.closeStreet.cardView = s.cardView := by
  rw [← cardView_finishBettingRound s]
  unfold closeStreet
  dsimp only
  split <;> rfl

lemma cardView_settlePots (s : GameStateInternal) : s.settlePots.cardView = s.cardView := by
  have hhole := map_settlePots (·.holeCards) (fun _ _ => rfl) s
  unfold cardView
  rw [hhole]
  unfold settlePots
  split <;> rfl

end GameStateInternal

/-! ### The street and its board -/

/-- How many cards the board has on a street before its deal. -/
def Street.boardBefore : Street → ℕ
  | .preflop | .flop => 0
  | .turn => 3
  | .river => 4
  | .showdown => 5

/-- How many cards the board has while a street is bet on. -/
def Street.board : Street → ℕ
  | .preflop => 0
  | .flop => 3
  | .turn => 4
  | .river | .showdown => 5

/-- The hand has been dealt and its cards are not yet put away. -/
def HandPhase.InHand (phase : HandPhase) : Prop :=
  phase = .deal ∨ phase = .bettingRound ∨ phase = .showdown ∨ phase = .settle

/-- The board fits the street. -/
structure Board (s : GameStateInternal) : Prop where
  waiting : s.phase = .waitBlinds ∨ s.phase = .nextHand →
    s.communityCards = [] ∧ s.street = .preflop
  deal : s.phase = .deal → s.street ≠ .showdown ∧
    s.communityCards.length = s.street.boardBefore
  betting : s.phase = .bettingRound → s.street ≠ .showdown ∧
    s.communityCards.length = s.street.board

lemma street_closeIfAlone (s : GameStateInternal) :
    s.closeIfAlone.street = s.street := by
  rw [closeIfAlone_eq]
  split
  · unfold finishBettingRound
    split <;> rfl
  · rfl

lemma board_closeIfAlone (s : GameStateInternal) :
    s.closeIfAlone.communityCards = s.communityCards :=
  congrArg (·.2.1) (cardView_closeIfAlone s)

/-- An action within the round keeps the board. -/
lemma Board.closeIfAlone {s : GameStateInternal} (hphase : s.phase = .bettingRound)
    (h : s.street ≠ .showdown ∧ s.communityCards.length = s.street.board) :
    Board s.closeIfAlone := by
  refine ⟨fun hw => ?_, fun hd => ?_, fun _ => ?_⟩
  · rw [closeIfAlone_phase, hphase] at hw
    split at hw <;> simp at hw
  · rw [closeIfAlone_phase, hphase] at hd
    split at hd <;> simp at hd
  · rwa [street_closeIfAlone, board_closeIfAlone]

lemma Board.closeStreet {s : GameStateInternal}
    (h : s.street ≠ .showdown ∧ s.communityCards.length = s.street.board) :
    Board s.closeStreet := by
  have hboard : s.closeStreet.communityCards = s.communityCards :=
    congrArg (·.2.1) (cardView_closeStreet s)
  have hstreet : s.finishBettingRound.street = s.street := by
    unfold finishBettingRound
    split <;> rfl
  refine ⟨fun hw => ?_, fun hd => ?_, fun hb => absurd hb (closeStreet_phase s)⟩
  · rcases closeStreet_phase_eq s with hc | hc <;> simp [hc] at hw
  · rw [hboard, h.2]
    unfold GameStateInternal.closeStreet at hd ⊢
    dsimp only at hd ⊢
    rw [hstreet] at hd ⊢
    split_ifs at hd ⊢ with hriver
    · simp [advanceStreet, hstreet]
      cases hs : s.street <;> simp_all [ORDER, Street.boardBefore, Street.board]

theorem Board.step {shuffle : Shuffle} {a : GameAction} {m m' : HandStateMachine}
    (h : Board m.state) (hstep : Step shuffle m a m') : Board m'.state := by
  cases hstep with
  | postBlind id amount p hphase =>
    have hw := h.waiting hphase
    refine ⟨fun _ => hw, fun hd => ?_, fun hb => ?_⟩
    · rcases hphase with hphase | hphase <;> simp [addBet, updatePlayer, hphase] at hd
    · rcases hphase with hphase | hphase <;> simp [addBet, updatePlayer, hphase] at hb
  | lastBlind id amount p hphase =>
    obtain ⟨hboard, hstreet⟩ := h.waiting hphase
    have hsame : ((m.state.addBet p amount).startHand shuffle).street = .preflop := hstreet
    refine ⟨by simp [startHand], fun _ => ?_, by simp [startHand]⟩
    rw [hsame]
    exact ⟨by simp, by simpa [startHand, addBet, updatePlayer, Street.boardBefore] using hboard⟩
  | deal hphase hdeal =>
    obtain ⟨hstreet, hboard⟩ := h.deal hphase
    refine ⟨by simp, by simp, fun _ => ?_⟩
    split_ifs with hzero
    · refine ⟨hstreet, ?_⟩
      dsimp only
      rw [hboard]
      cases hs : m.state.street <;> simp_all [boardDeal, Street.boardBefore, Street.board]
    · have hdeck := (hdeal.resolve_left hzero).deck shuffle
      refine ⟨hstreet, ?_⟩
      simp only [dealBoard, pop, length_append, length_take, length_reverse, hboard,
        min_eq_left hdeck]
      cases hs : m.state.street <;> simp_all [boardDeal, Street.boardBefore, Street.board]
  | chips id amount p hphase => exact Board.closeIfAlone hphase (h.betting hphase)
  | check id hphase => exact Board.closeIfAlone hphase (h.betting hphase)
  | fold id p hphase => exact Board.closeIfAlone hphase (h.betting hphase)
  | next hphase => exact Board.closeStreet (h.betting hphase)
  | showdown hphase => exact ⟨by simp, by simp, by simp⟩
  | settle hphase => exact ⟨by simp [resetHand], by simp [resetHand], by simp [resetHand]⟩

/-! ### The cards over whole runs -/

/-- The board fits the street, and the cards of a hand in play satisfy `P`. -/
structure CardInv (ids : List PlayerId) (P : GameStateInternal → Prop) (m : HandStateMachine) :
    Prop where
  seated : Seated ids m.state
  board : Board m.state
  cards : m.state.phase.InHand → P m.state

lemma CardInv.initial {ids : List PlayerId} (hlen : 2 ≤ ids.length) (startingStack : ℕ)
    (P : GameStateInternal → Prop) :
    CardInv ids P (HandStateMachine.initial ids startingStack) where
  seated := .initial hlen startingStack
  board := ⟨by simp [HandStateMachine.initial], by simp [HandStateMachine.initial],
    by simp [HandStateMachine.initial]⟩
  cards h := by simp [HandStateMachine.initial, HandPhase.InHand] at h

section Step

variable {ids : List PlayerId} {P : GameStateInternal → Prop} {shuffle : Shuffle}
  {m m' : HandStateMachine}

/-- Every rule keeps a property of the cards that the deals keep. -/
theorem CardInv.step {a : GameAction} (hlen : 2 ≤ ids.length) (hfew : ids.length ≤ 26)
    (hview : ∀ s s', s'.cardView = s.cardView → P s → P s')
    (hhand : ∀ s : GameStateInternal, s.communityCards = [] → s.players.length ≤ 26 →
      P (s.startHand shuffle))
    (hboard : ∀ (s : GameStateInternal) n, s.CanDeal n → P s → P (s.dealBoard shuffle n))
    (h : CardInv ids P m)
    (hstep : Step shuffle m a m') : CardInv ids P m' := by
  refine ⟨h.seated.step hlen hstep, h.board.step hstep, fun hin => ?_⟩
  cases hstep with
  | postBlind id amount p hphase =>
    have hsame : (m.state.addBet p amount).phase = m.state.phase := rfl
    rw [hsame] at hin
    rcases hphase with hphase | hphase <;> simp [hphase, HandPhase.InHand] at hin
  | lastBlind id amount p hphase =>
    refine hhand _ (h.board.waiting hphase).1 ?_
    rw [length_players_eq, roster_addBet, ← length_map (f := (·.1)), h.seated.ids]
    exact hfew
  | deal hphase hdeal =>
    have hcards := h.cards (Or.inl hphase)
    split_ifs with hzero
    · exact hview m.state _ rfl hcards
    · exact hview (m.state.dealBoard shuffle m.state.boardDeal) _ rfl
        (hboard _ _ (hdeal.resolve_left hzero) hcards)
  | chips id amount p hphase =>
    exact hview _ _ ((cardView_closeIfAlone _).trans (cardView_addBet _ _ _))
      (h.cards (Or.inr (Or.inl hphase)))
  | check id hphase =>
    exact hview _ _ (cardView_closeIfAlone _) (h.cards (Or.inr (Or.inl hphase)))
  | fold id p hphase =>
    exact hview _ _ ((cardView_closeIfAlone _).trans (cardView_fold _ _))
      (h.cards (Or.inr (Or.inl hphase)))
  | next hphase =>
    exact hview _ _ (cardView_closeStreet _) (h.cards (Or.inr (Or.inl hphase)))
  | showdown hphase =>
    exact hview _ _ (cardView_settlePots _) (h.cards (Or.inr (Or.inr (Or.inl hphase))))
  | settle => simp [resetHand, HandPhase.InHand] at hin

/-- So does every call. -/
lemma CardInv.call {c : Call} (hlen : 2 ≤ ids.length) (hfew : ids.length ≤ 26)
    (hview : ∀ s s', s'.cardView = s.cardView → P s → P s')
    (hhand : ∀ s : GameStateInternal, s.communityCards = [] → s.players.length ≤ 26 →
      P (s.startHand shuffle))
    (hboard : ∀ (s : GameStateInternal) n, s.CanDeal n → P s → P (s.dealBoard shuffle n))
    (h : CardInv ids P m) :
    CardInv ids P (machineAfter ((c.run shuffle).run m)) := by
  have hstep := fun {a m m'} (h : CardInv ids P m) (hs : Step shuffle m a m') =>
    h.step hlen hfew hview hhand hboard hs
  rcases call_cases hlen h.seated shuffle c with hstay | hone | ⟨m₁, hone, _, hnext⟩
  · rwa [hstay]
  · exact hstep h hone
  · exact hstep (hstep h hone) hnext

end Step

/-- The runs in which the deck may also be cut short from outside. -/
def truncatedCalls (ids : List PlayerId) (startingStack : ℕ) :
    TransitionSystem HandStateMachine ((Shuffle × Call) ⊕ ℕ) where
  init m := m = HandStateMachine.initial ids startingStack
  step m l m' :=
    match l with
    | .inl (shuffle, c) => m' = machineAfter ((c.run shuffle).run m)
    | .inr k => m' = { m with state := { m.state with deck := m.state.deck.take k } }

/-- A deck cut short still has different cards. -/
lemma GameStateInternal.Dealt.take {s : GameStateInternal} (h : s.Dealt) (k : ℕ) :
    Dealt { s with deck := s.deck.take k } := by
  have hsub : GameStateInternal.cards { s with deck := s.deck.take k } <+ s.cards :=
    ((take_sublist k s.deck).reverse).append_left _
  exact ⟨h.hole, h.nodup.sublist hsub, fun c hc => h.lt c (hsub.subset hc)⟩

end Pokerhub
