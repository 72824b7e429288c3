import Pokerhub.Game.Accounts
import Pokerhub.Game.CommitReveal
import Pokerhub.Game.Sanitize

/-!
# The pot that a client shows

`getTable` and `getTableState` of `tables.service.ts`, and `useBetting.ts`. The pot counter of the
engine already holds the live bets and the side pots; the client adds the bets to it once more,
and `getTableState` sends the side pots beside it. Both show the pot of the engine exactly when
there is nothing to add (`client_pot_iff`).
-/

namespace Pokerhub

open GameStateInternal HandStateMachine TransitionSystem List

/-! ### The server -/

/-- A row of the users. -/
structure TableUser where
  id : PlayerId
  username : String
  avatarKey : Option String

/-- A player of `TableData`. -/
structure TablePlayer where
  id : ℕ
  username : String
  avatar : String
  chips : ℤ
  committed : Option ℤ
  isFolded : Bool
  isAllIn : Bool
  deriving DecidableEq

structure ChatMessage where
  id : ℕ
  username : String
  avatar : String
  text : String
  time : String
  deriving DecidableEq

structure TableData where
  smallBlind : ℤ
  bigBlind : ℤ
  pot : ℤ
  communityCards : List String
  players : List TablePlayer
  chatMessages : List ChatMessage
  stateAvailable : Bool
  deriving DecidableEq

structure TableSeat where
  id : ℕ
  name : String
  avatar : String
  balance : ℤ
  inHand : Bool
  deriving DecidableEq

inductive TableStreet where
  | pre | flop | turn | river
  deriving DecidableEq

structure TableState where
  handId : String
  seats : List TableSeat
  main : ℤ
  sidePots : List ℤ
  street : TableStreet
  serverTime : ℕ
  deriving DecidableEq

def RANKS : List String :=
  ["2", "3", "4", "5", "6", "7", "8", "9", "T", "J", "Q", "K", "A"]

def SUITS : List String :=
  ["♣", "♦", "♥", "♠"]

def cardToString (card : ℕ) : String :=
  RANKS.getD (card / 4) "?" ++ SUITS.getD (card % 4) "?"

def mapStreet : Street → TableStreet
  | .flop => .flop
  | .turn => .turn
  | .river | .showdown => .river
  | .preflop => .pre

/-- `userMap.get(id)`. -/
def userOf (users : List TableUser) (id : PlayerId) : Option TableUser :=
  users.find? fun user => user.id == id

def tablePlayer (users : List TableUser) (idx : ℕ) (p : PlayerStateInternal) : TablePlayer :=
  let user := userOf users p.id
  { id := idx + 1
    username := (user.map (·.username)).getD p.id
    avatar := (user.bind (·.avatarKey)).getD ""
    chips := p.stack
    committed := some p.bet
    isFolded := p.folded
    isAllIn := p.allIn }

def tableSeat (users : List TableUser) (idx : ℕ) (p : PlayerStateInternal) : TableSeat :=
  let user := userOf users p.id
  { id := idx + 1
    name := (user.map (·.username)).getD p.id
    avatar := (user.bind (·.avatarKey)).getD ""
    balance := p.stack
    inHand := !p.folded }

/-- `getTable` for a table with these blinds. What is awaited is `none` when it fails; the fields
that were set before stay. -/
def getTable (smallBlind bigBlind : ℤ) (room : Option GameStateInternal)
    (users : Option (List TableUser)) (chat : Option (List ChatMessage)) : TableData :=
  let table : TableData := ⟨smallBlind, bigBlind, 0, [], [], [], false⟩
  match room with
  | none => table
  | some state =>
    let table := { table with
      pot := state.pot
      communityCards := state.communityCards.map cardToString }
    match users with
    | none => table
    | some users =>
      let table := { table with players := state.players.mapIdx (tablePlayer users) }
      match chat with
      | none => table
      | some chatMessages =>
        { table with chatMessages := chatMessages, stateAvailable := true }

/-- `getTableState`; a hand id that cannot be read is empty. -/
def getTableState (room : Option (GameStateInternal × Option String))
    (users : Option (List TableUser)) (now : ℕ) : TableState :=
  let table : TableState := ⟨"", [], 0, [], .pre, now⟩
  match room with
  | none => table
  | some (state, handId) =>
    let table := { table with
      main := state.pot
      sidePots := state.sidePots.map (·.amount)
      street := mapStreet state.street }
    match users with
    | none => table
    | some users =>
      { table with handId := handId.getD "", seats := state.players.mapIdx (tableSeat users) }

/-! ### The client -/

/-- What `useBetting` returns, without the state of the slider. -/
structure BettingView where
  hero : Option TablePlayer
  youChips : ℤ
  currentBet : ℤ
  callAmount : ℤ
  street : TableStreet
  pot : ℤ
  minTotal : ℤ
  maxTotal : ℤ
  effective : ℤ
  deriving DecidableEq

def useBetting (players : List TablePlayer) (communityCards : List String) (basePot bigBlind : ℤ)
    (heroId : Option ℕ) (heroUsername : Option String) : BettingView :=
  let hero := match heroId, heroUsername with
    | some id, _ => players.find? fun p => p.id == id
    | none, some username => players.find? fun p => p.username == username
    | none, none => none
  let commitments := players.map fun p => p.committed.getD 0
  let currentBet := commitments.foldr max 0
  let previousBetTo := (commitments.insertionSort (· ≥ ·)).getD 1 0
  let heroCommitted := (hero.bind (·.committed)).getD 0
  let callAmount := max 0 (currentBet - heroCommitted)
  let lastRaiseSize := max bigBlind (currentBet - previousBetTo)
  let minOpenTo := bigBlind
  let minTotal := if callAmount > 0 then currentBet + lastRaiseSize else minOpenTo
  let heroBehind := (hero.map (·.chips)).getD 0
  let opponents := players.filter fun p => some p.id ≠ hero.map (·.id)
  let maxOppBehind := (opponents.map (·.chips)).foldr max 0
  let effective := min heroBehind maxOppBehind
  { hero := hero
    youChips := ((hero <|> players.head?).map (·.chips)).getD 0
    currentBet := currentBet
    callAmount := callAmount
    street := match communityCards.length with
      | 0 => .pre
      | 3 => .flop
      | 4 => .turn
      | _ => .river
    pot := basePot + commitments.sum
    minTotal := minTotal
    maxTotal := max minTotal (heroCommitted + effective)
    effective := effective }

/-- The pot on the table of a client, from the `TableData` it has. -/
def shownPot (table : TableData) (heroId : Option ℕ) (heroUsername : Option String) : ℤ :=
  (useBetting table.players table.communityCards table.pot table.bigBlind heroId heroUsername).pot

/-- Main pot and side pots together. -/
def TableState.potTotal (table : TableState) : ℤ :=
  table.main + table.sidePots.sum

/-! ### What they add up -/

/-- Both sums are the pot of the engine, for a room that answers. -/
def ShowsPot (e : GameEngine) : Prop :=
  (∀ smallBlind bigBlind users chat heroId heroUsername,
      shownPot (getTable smallBlind bigBlind (some e.getPublicState) (some users) (some chat)) heroId
        heroUsername = e.machine.state.pot) ∧
    ∀ handId users now,
      (getTableState (some (e.getPublicState, handId)) (some users) now).potTotal =
        e.machine.state.pot

section Sums

variable (e : GameEngine)

lemma sum_committed (users : List TableUser) (ps : List PlayerStateInternal) :
    ((ps.mapIdx (tablePlayer users)).map fun p => p.committed.getD 0).sum =
      (ps.map (·.bet)).sum := by
  have hfst : ps.map (·.bet) = (ps.zipIdx.map Prod.fst).map (·.bet) := by
    rw [zipIdx_map_fst]
  rw [mapIdx_eq_zipIdx_map, hfst, map_map, map_map]
  rfl

/-- The client counts the live bets twice. -/
lemma shownPot_getTable (smallBlind bigBlind : ℤ) (users : List TableUser)
    (chat : List ChatMessage) (heroId : Option ℕ) (heroUsername : Option String) :
    shownPot (getTable smallBlind bigBlind (some e.getPublicState) (some users) (some chat)) heroId
        heroUsername = e.machine.state.pot + e.machine.state.liveBets := by
  have hbets : e.getPublicState.players.map (·.bet) = e.machine.state.players.map (·.bet) := by
    simp [GameEngine.getPublicState, publicView, Function.comp_def]
  change e.machine.state.pot + _ = _
  rw [liveBets, ← hbets, ← sum_committed users]
  rfl

/-- `getTableState` counts the side pots twice. -/
lemma potTotal_getTableState (handId : Option String) (users : List TableUser) (now : ℕ) :
    (getTableState (some (e.getPublicState, handId)) (some users) now).potTotal =
      e.machine.state.pot + e.machine.state.sidePotTotal := rfl

/-- Both show the pot when there is nothing to count twice. -/
lemma showsPot_iff :
    ShowsPot e ↔ e.machine.state.liveBets = 0 ∧ e.machine.state.sidePotTotal = 0 := by
  unfold ShowsPot
  simp only [shownPot_getTable, potTotal_getTableState, add_eq_left]
  constructor
  · rintro ⟨hbets, hpots⟩
    exact ⟨hbets 0 0 [] [] none none, hpots none [] 0⟩
  · rintro ⟨hbets, hpots⟩
    exact ⟨fun _ _ _ _ _ _ => hbets, fun _ _ _ => hpots⟩

end Sums

/-- The client shows the pot of the engine exactly when neither a bet is in front of a player nor
a chip in a side pot: with two or more players, only while the pot is empty. -/
theorem client_pot_iff {sha256 : List UInt8 → List UInt8} {ids : List PlayerId}
    {startingStack : ℕ} {r : EngineRun}
    (hreach : (engineRuns sha256 ids startingStack).Reachable r) :
    (ShowsPot r.engine ↔
        r.engine.machine.state.liveBets = 0 ∧ r.engine.machine.state.sidePotTotal = 0) ∧
      (2 ≤ ids.length → (ShowsPot r.engine ↔ r.engine.machine.state.pot = 0)) := by
  refine ⟨showsPot_iff r.engine, fun hlen => ?_⟩
  have haccounts := accounts_of_reachable hlen (oneSeed_of_reachable hlen hreach).machine
  have hbets : 0 ≤ r.engine.machine.state.liveBets :=
    sum_nonneg (by simpa using haccounts.bet_nonneg)
  have hpots : 0 ≤ r.engine.machine.state.sidePotTotal :=
    sum_nonneg (by simpa using haccounts.pot_nonneg)
  have hsplit := haccounts.split
  rw [showsPot_iff]
  constructor
  · rintro ⟨hzero, hnone⟩
    simpa [hzero, hnone] using hsplit
  · intro hpot
    exact ⟨by omega, by omega⟩

/-- Before the first blind. -/
theorem client_pot_start : ShowsPot zeroSeedRun.engine :=
  ((client_pot_iff reachable_zeroSeedRun).2 (by decide)).mpr rfl

/-- The first blind is counted twice. -/
theorem client_pot_differs :
    ¬ ∀ (sha256 : List UInt8 → List UInt8) (ids : List PlayerId) (startingStack : ℕ)
      (r : EngineRun), (engineRuns sha256 ids startingStack).Reachable r → ShowsPot r.engine := by
  intro h
  have hshows := h zeroSeedHash ["p1", "p2"] 100 _
    (reachable_playEvents reachable_zeroSeedRun [.action (.postBlind "p1" 1)])
  have hbets := ((showsPot_iff _).mp hshows).1
  revert hbets
  rw [zeroSeedRun, zeroRng, zeroSeedHash_eq]
  decide +kernel

end Pokerhub
