import Pokerhub.Game.Engine

/-!
# What leaves the server

`getPublicState` of the engine, `sanitize` of `state-sanitize.ts`, and the payload of a state frame.
`sanitize` keeps the hole cards of one player only, and never the deck.
-/

namespace Pokerhub

open List

/-- A player of a state frame. -/
structure GameStatePlayer where
  id : PlayerId
  stack : ℤ
  folded : Bool
  bet : ℤ
  allIn : Bool
  holeCards : Option (List ℕ)
  deriving DecidableEq

/-- `GameState`, without its tick. -/
structure GameState where
  version : String
  serverTime : ℕ
  phase : HandPhase
  street : Street
  pot : ℤ
  sidePots : List SidePot
  currentBet : ℤ
  players : List GameStatePlayer
  communityCards : List ℕ
  deriving DecidableEq

def EVENT_SCHEMA_VERSION : String := "1"

/-- The hole cards, if they are two numbers. -/
def PlayerStateInternal.shownCards (p : PlayerStateInternal) : Option (List ℕ) :=
  p.holeCards.bind fun cards =>
    if cards.length = 2 ∧ ∀ c ∈ cards, c.isSome then some (cards.filterMap fun c => c) else none

def sanitizePlayer (playerId : Option PlayerId) (p : PlayerStateInternal) : GameStatePlayer where
  id := p.id
  stack := p.stack
  folded := p.folded
  bet := p.bet
  allIn := p.allIn
  holeCards := if playerId = some p.id then p.shownCards else none

def sanitize (state : GameStateInternal) (playerId : Option PlayerId) (now : ℕ) : GameState where
  version := EVENT_SCHEMA_VERSION
  serverTime := now
  phase := state.phase
  street := state.street
  pot := state.pot
  sidePots := state.sidePots
  currentBet := state.currentBet
  players := state.players.map (sanitizePlayer playerId)
  communityCards := state.communityCards

/-- What `getPublicState` leaves of a state; there is no deck in it. -/
def GameStateInternal.publicView (s : GameStateInternal) : GameStateInternal :=
  { s with
    deck := []
    players := s.players.map fun p => { p with holeCards := none } }

def GameEngine.getPublicState (e : GameEngine) : GameStateInternal :=
  e.machine.state.publicView

/-- The public state shows no more than a frame for nobody. -/
lemma sanitize_publicView (s : GameStateInternal) (now : ℕ) :
    sanitize s.publicView none now = sanitize s none now := by
  have hplayers : s.publicView.players.map (sanitizePlayer none) =
      s.players.map (sanitizePlayer none) := by
    rw [GameStateInternal.publicView, map_map]
    rfl
  unfold sanitize
  rw [hplayers]
  rfl

end Pokerhub
