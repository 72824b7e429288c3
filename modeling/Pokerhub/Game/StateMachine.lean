import Mathlib.Data.Finset.Dedup
import Pokerhub.Game.Settlement
import Pokerhub.Shared.Verify

/-!
# The hand state machine

`HandStateMachine` of `state-machine.ts`, with the part of `GameEngine.applyAction` that acts on
the machine. A call either returns or throws; a throw keeps the state as it was at that point.
The shuffle of the hand's RNG is a parameter, its result may contain `undefined`.
-/

namespace Pokerhub

/-- `HandRNG.shuffle`; `none` is `undefined`. -/
abbrev Shuffle := List ℕ → List (Option ℕ)

def ORDER : List Street :=
  [.preflop, .flop, .turn, .river, .showdown]

/-! ### Betting -/

namespace PlayerStateInternal

/-- The writes of `placeBet` to the player. -/
def commit (amount : ℤ) (p : PlayerStateInternal) : PlayerStateInternal :=
  { p with
    stack := p.stack - amount
    bet := p.bet + amount
    allIn := if p.stack - amount = 0 then true else p.allIn }

def fold (p : PlayerStateInternal) : PlayerStateInternal :=
  { p with folded := true }

/-- What the reset after `SETTLE` leaves of a player. -/
def reset (p : PlayerStateInternal) : PlayerStateInternal :=
  { p with folded := false, bet := 0, allIn := false, holeCards := none }

end PlayerStateInternal

namespace GameStateInternal

/-- Write through the reference that `findPlayer` returned. -/
def updatePlayer (s : GameStateInternal) (id : PlayerId)
    (f : PlayerStateInternal → PlayerStateInternal) : GameStateInternal :=
  { s with players := s.players.updateFirst (fun p => p.id == id) f }

/-- The writes of `placeBet`, once its two checks have passed. -/
def addBet (s : GameStateInternal) (player : PlayerStateInternal) (amount : ℤ) :
    GameStateInternal :=
  { s.updatePlayer player.id (·.commit amount) with
    pot := s.pot + amount
    currentBet := if player.bet + amount > s.currentBet then player.bet + amount
      else s.currentBet }

/-- One pass of the loop over the bet levels. -/
def layerPot (s : GameStateInternal) (bettors : List PlayerStateInternal) (previous level : ℤ) :
    List SidePot :=
  let contributors := bettors.filter fun p => level ≤ p.bet
  let contenders := contributors.filter fun p => !p.folded
  let potAmount := (level - previous) * contributors.length
  if 0 < potAmount then
    let contributions := contributors.map fun p => (p.id, level - previous)
    if contenders.length = 0 then
      -- every contributor has folded: the remaining players play for the layer
      let active := s.activePlayers
      let others := active.filter fun p => !(contributions.map (·.1)).contains p.id
      let heirs := if active.length = 0 then contributors else active
      [⟨potAmount, heirs.map (·.id), contributions ++ others.map fun p => (p.id, 0)⟩]
    else [⟨potAmount, contenders.map (·.id), contributions⟩]
  else []

/-- The loop over the bet levels. -/
def layerPots (s : GameStateInternal) (bettors : List PlayerStateInternal) :
    ℤ → List ℤ → List SidePot
  | _, [] => []
  | previous, level :: levels =>
    s.layerPot bettors previous level ++ s.layerPots bettors level levels

def bettors (s : GameStateInternal) : List PlayerStateInternal :=
  s.players.filter fun p => 0 < p.bet

/-- The distinct bets, in increasing order. -/
def levels (s : GameStateInternal) : List ℤ :=
  (s.bettors.map (·.bet)).dedup.insertionSort (· ≤ ·)

def finishBettingRound (s : GameStateInternal) : GameStateInternal :=
  if s.bettors.length = 0 then { s with currentBet := 0 }
  else
    { s with
      sidePots := s.sidePots ++ s.layerPots s.bettors 0 s.levels
      players := s.players.map fun p => { p with bet := 0 }
      currentBet := 0 }

def advanceStreet (s : GameStateInternal) : GameStateInternal :=
  { s with street := ORDER.getD (min (ORDER.idxOf s.street + 1) (ORDER.length - 1)) .showdown }

/-- The check after each action of a betting round: with one player left the bets are collected
and the hand is shown down. -/
def closeIfAlone (s : GameStateInternal) : GameStateInternal :=
  if s.activePlayers.length ≤ 1 then
    let collected := if s.players.any fun p => 0 < p.bet then s.finishBettingRound
      else { s with currentBet := 0 }
    { collected with phase := .showdown }
  else s

/-- `next` in a betting round. -/
def closeStreet (s : GameStateInternal) : GameStateInternal :=
  let swept := s.finishBettingRound
  if swept.street = .river then { swept.advanceStreet with phase := .showdown }
  else { swept.advanceStreet with phase := .deal }

/-- `next` in `SETTLE`. -/
def resetHand (s : GameStateInternal) : GameStateInternal :=
  { s with
    players := s.players.map (·.reset)
    pot := 0
    sidePots := []
    currentBet := 0
    communityCards := []
    deck := []
    street := .preflop
    phase := .nextHand }

/-! ### Cards -/

def expectedCommunityCountBeforeDeal (s : GameStateInternal) : ℕ :=
  match s.street with
  | .flop => 0
  | .turn => 3
  | .river => 4
  | _ => s.communityCards.length

/-- The cards on the board and in the players' hands. -/
def used (s : GameStateInternal) : Finset ℕ :=
  (s.communityCards ++ s.players.flatMap fun p => (p.holeCards.getD []).filterMap id).toFinset

end GameStateInternal

/-- `seen.add(card); deck.push(card)`; `seen` holds what `deck` holds. -/
def pushNew (deck : List ℕ) (card : ℕ) : List ℕ :=
  if card ∈ deck then deck else deck ++ [card]

def buildDeck (shuffle : Shuffle) (excluded : Finset ℕ) : List ℕ :=
  let available := standardDeck.filter (· ∉ excluded)
  let shuffled := shuffle available
  let deck := shuffled.foldl (fun deck card =>
    match card with
    | some card => if card ∈ excluded then deck else pushNew deck card
    | none => deck) []
  if deck.length < available.length then available.foldl pushNew deck else deck

/-- `p.holeCards = [deck.pop()!, deck.pop()!]` for each player in turn; with it the deck that is
left. -/
def dealHoleCards : List PlayerStateInternal → List ℕ → List PlayerStateInternal × List ℕ
  | [], deck => ([], deck)
  | p :: ps, deck =>
    let hole := [deck.getLast?, deck.dropLast.getLast?]
    let rest := dealHoleCards ps deck.dropLast.dropLast
    ({ p with holeCards := some hole } :: rest.1, rest.2)

/-- The deal once every blind is posted. -/
def GameStateInternal.startHand (shuffle : Shuffle) (s : GameStateInternal) :
    GameStateInternal :=
  let dealt := dealHoleCards s.players (buildDeck shuffle ∅)
  { s with players := dealt.1, deck := dealt.2, phase := .deal }

/-! ### The machine -/

structure HandStateMachine where
  state : GameStateInternal
  blindsPosted : Finset PlayerId := ∅
  deriving DecidableEq

/-- A call on the machine. -/
abbrev Machine := EStateM GameError HandStateMachine

namespace HandStateMachine

def modifyState (f : GameStateInternal → GameStateInternal) : Machine Unit :=
  modify fun m => { m with state := f m.state }

def findPlayer (id : PlayerId) : Machine PlayerStateInternal := do
  let m ← get
  match m.state.players.find? fun p => p.id == id with
  | some player => pure player
  | none => throw (.unknownPlayer id)

def placeBet (player : PlayerStateInternal) (amount : ℤ) : Machine Unit := do
  if amount ≤ 0 then throw .amountNotPositive
  if amount > player.stack then throw .betExceedsStack
  modifyState (·.addBet player amount)

def ensureDeckCapacity (shuffle : Shuffle) (n : ℕ) : Machine Unit := do
  let m ← get
  let expectedRemaining := (standardDeck.length : ℤ) - m.state.used.card
  if (m.state.deck.length : ℤ) ≠ expectedRemaining ∨ m.state.deck.length < n then
    if (standardDeck.filter (· ∉ m.state.used)).length < n then throw .insufficientCards
    modifyState fun s => { s with deck := buildDeck shuffle s.used }

/-- The loop of `dealCommunity`. -/
def popCommunity : ℕ → Machine Unit
  | 0 => pure ()
  | n + 1 => do
    let m ← get
    match m.state.deck.getLast? with
    | none => throw .deckExhausted
    | some card =>
      modifyState fun s =>
        { s with deck := s.deck.dropLast, communityCards := s.communityCards ++ [card] }
      popCommunity n

def dealCommunity (shuffle : Shuffle) (n : ℕ) : Machine Unit := do
  let m ← get
  if m.state.communityCards.length ≠ m.state.expectedCommunityCountBeforeDeal then
    throw .alreadyDealt
  ensureDeckCapacity shuffle n
  popCommunity n

/-- `WAIT_BLINDS` and `NEXT_HAND`. -/
def applyBlinds (shuffle : Shuffle) : GameAction → Machine Unit
  | .postBlind playerId amount => do
    let player ← findPlayer playerId
    placeBet player amount
    modify fun m => { m with blindsPosted := insert player.id m.blindsPosted }
    let m ← get
    if m.blindsPosted.card = m.state.players.length then
      set { m with state := m.state.startHand shuffle, blindsPosted := ∅ }
  | _ => throw .invalidAction

/-- `DEAL`. -/
def applyDeal (shuffle : Shuffle) : GameAction → Machine Unit
  | .next => do
    let m ← get
    match m.state.street with
    | .flop => dealCommunity shuffle 3
    | .turn | .river => dealCommunity shuffle 1
    | _ => pure ()
    modifyState fun s => { s with phase := .bettingRound }
  | _ => throw .invalidAction

/-- The inner switch of `BETTING_ROUND`. -/
def bettingAction : GameAction → Machine Unit
  | .bet playerId amount | .raise playerId amount | .postBlind playerId amount => do
    let player ← findPlayer playerId
    placeBet player amount
  | .call playerId _ => do
    -- the amount of the action is not read
    let player ← findPlayer playerId
    let m ← get
    placeBet player (m.state.currentBet - player.bet)
  | .check _ => pure ()
  | .fold playerId => do
    let player ← findPlayer playerId
    modifyState (·.updatePlayer player.id (·.fold))
  | .next => modifyState (·.closeStreet)

/-- `BETTING_ROUND`. -/
def applyBetting (action : GameAction) : Machine Unit := do
  bettingAction action
  modifyState fun s => if s.phase = .bettingRound then s.closeIfAlone else s

/-- `HandStateMachine.apply`. -/
def apply (shuffle : Shuffle) (action : GameAction) : Machine Unit := do
  let m ← get
  match m.state.phase with
  | .waitBlinds | .nextHand => applyBlinds shuffle action
  | .deal => applyDeal shuffle action
  | .bettingRound => applyBetting action
  | .showdown =>
    match action with
    | .next => modifyState fun s => { s.settlePots with phase := .settle }
    | _ => throw .invalidAction
  | .settle =>
    match action with
    | .next => set { m with state := m.state.resetHand, blindsPosted := ∅ }
    | _ => throw .invalidAction

/-- `GameEngine.applyAction` on the machine, with the `settlePots` that `settle` runs before its
first `await`. -/
def applyAction (shuffle : Shuffle) (action : GameAction) : Machine Unit := do
  apply shuffle action
  modifyState fun s =>
    if s.activePlayers.length ≤ 1 ∧ s.phase = .bettingRound then { s with phase := .showdown }
    else s
  let m ← get
  if m.state.phase = .showdown then
    apply shuffle .next
    modifyState (·.settlePots)

/-- The machine that a `GameEngine` starts with. -/
def initial (playerIds : List PlayerId) (startingStack : ℕ) : HandStateMachine where
  state :=
    { phase := .waitBlinds
      street := .preflop
      pot := 0
      sidePots := []
      currentBet := 0
      players := playerIds.map fun id =>
        { id := id, stack := startingStack, folded := false, bet := 0, allIn := false }
      deck := []
      communityCards := [] }

end HandStateMachine

end Pokerhub
