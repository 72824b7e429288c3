import Mathlib.Data.Finset.Card
import Mathlib.Data.Finset.Insert
import Pokerhub.Core.UpdateFirst

/-!
# The state of a hand

The data types of `state-machine.ts`. Chips are integers, so that a negative stack would be
visible; an absent `holeCards` field is `none`, and a card popped from an empty deck is `none`
inside it (`undefined` in the source).
-/

namespace Pokerhub

abbrev PlayerId := String

inductive Street where
  | preflop | flop | turn | river | showdown
  deriving DecidableEq, Repr

inductive HandPhase where
  | waitBlinds | deal | bettingRound | showdown | settle | nextHand
  deriving DecidableEq, Repr

inductive GameAction where
  | postBlind (playerId : PlayerId) (amount : ℤ)
  | bet (playerId : PlayerId) (amount : ℤ)
  | raise (playerId : PlayerId) (amount : ℤ)
  | call (playerId : PlayerId) (amount : Option ℤ)
  | check (playerId : PlayerId)
  | fold (playerId : PlayerId)
  | next
  deriving DecidableEq, Repr

structure PlayerStateInternal where
  id : PlayerId
  stack : ℤ
  folded : Bool
  /-- Amount committed this betting round. -/
  bet : ℤ
  allIn : Bool
  holeCards : Option (List (Option ℕ)) := none
  deriving DecidableEq, Repr

structure SidePot where
  amount : ℤ
  players : List PlayerId
  contributions : List (PlayerId × ℤ)
  deriving DecidableEq, Repr

structure GameStateInternal where
  phase : HandPhase
  street : Street
  pot : ℤ
  sidePots : List SidePot
  currentBet : ℤ
  players : List PlayerStateInternal
  deck : List ℕ
  communityCards : List ℕ
  deriving DecidableEq, Repr

/-- The errors that the machine throws. -/
inductive GameError where
  | invalidAction
  | unknownPlayer (id : PlayerId)
  | amountNotPositive
  | betExceedsStack
  | insufficientCards
  | alreadyDealt
  | deckExhausted
  deriving DecidableEq, Repr

def GameError.message : GameError → String
  | .invalidAction => "invalid action for phase"
  | .unknownPlayer id => "Unknown player " ++ id
  | .amountNotPositive => "amount must be positive"
  | .betExceedsStack => "bet exceeds stack"
  | .insufficientCards => "insufficient cards to continue hand"
  | .alreadyDealt => "community cards already dealt for street"
  | .deckExhausted => "deck exhausted"

namespace GameStateInternal

/-- `activePlayers`: those who have not folded. -/
def activePlayers (s : GameStateInternal) : List PlayerStateInternal :=
  s.players.filter fun p => !p.folded

/-- The chips on the table: the pot counter and every stack. -/
def totalChips (s : GameStateInternal) : ℤ :=
  s.pot + (s.players.map (·.stack)).sum

/-- The chips in front of the players, not yet swept into a side pot. -/
def liveBets (s : GameStateInternal) : ℤ :=
  (s.players.map (·.bet)).sum

/-- The chips already swept into side pots. -/
def sidePotTotal (s : GameStateInternal) : ℤ :=
  (s.sidePots.map (·.amount)).sum

end GameStateInternal

end Pokerhub
