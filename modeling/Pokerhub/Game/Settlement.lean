import Pokerhub.Game.State
import Pokerhub.Shared.HandRank

/-!
# Settlement

`settlePots` of `sidePots.ts` and `recordDeltas` of `settlement.ts`.
-/

namespace Pokerhub

/-- The score a player shows down with; `evaluateHand` throws below five cards and the caller
turns that into 0. A missing hole card only occurs with a full deck dealt and no board, where
`evaluateHand` throws as well. -/
def showdownScore (board : List ℕ) (p : PlayerStateInternal) : ℕ :=
  let cards := (p.holeCards.getD []).filterMap id ++ board
  (evaluateHand cards).getD 0

/-- The players a pot is paid to: eligible, not folded, and with the best score among those. -/
def isContender (pot : SidePot) (p : PlayerStateInternal) : Bool :=
  !p.folded && pot.players.contains p.id

/-- One pass of the loop over the pots. -/
def payPot (board : List ℕ) (players : List PlayerStateInternal) (pot : SidePot) :
    List PlayerStateInternal :=
  let contenders := players.filter (isContender pot)
  if contenders.isEmpty then players
  else
    let best := (contenders.map (showdownScore board)).foldr max 0
    let isWinner := fun p => isContender pot p && showdownScore board p == best
    let winners := contenders.filter (fun p => showdownScore board p == best)
    let share := pot.amount / winners.length
    let remainder := pot.amount - share * winners.length
    let paid := players.map (fun p => if isWinner p then { p with stack := p.stack + share } else p)
    if 0 < remainder then
      List.updateFirst isWinner (fun p => { p with stack := p.stack + remainder }) paid
    else paid

namespace GameStateInternal

/-- The pots to pay: the side pots, or one pot of everything for the active players. -/
def potsToPay (s : GameStateInternal) : List SidePot :=
  if 0 < s.sidePots.length then s.sidePots
  else [⟨s.pot, s.activePlayers.map (·.id), s.activePlayers.map (fun p => (p.id, 0))⟩]

def settlePots (s : GameStateInternal) : GameStateInternal :=
  if s.activePlayers.length = 0 then s
  else
    { s with
      players := s.potsToPay.foldl (payPot s.communityCards) s.players
      pot := 0
      sidePots := [] }

end GameStateInternal

structure SettlementEntry where
  playerId : PlayerId
  delta : ℤ
  deriving DecidableEq, Repr

/-- The stack deltas against their initial values; the caller appends them to the journal. -/
def recordDeltas (s : GameStateInternal) (initial : List (PlayerId × ℤ)) : List SettlementEntry :=
  s.players.map fun p => ⟨p.id, p.stack - (initial.lookup p.id).getD 0⟩

end Pokerhub
