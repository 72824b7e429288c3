import Pokerhub.Game.Betting
import Pokerhub.Game.DuplicateAcks
import Pokerhub.Game.Stream

/-!
# Who may act at a table

An action that names a player is taken from the socket of that player only, and changes no other
player unless it ends the round (`others_conclude`). `next` names nobody, so it is taken from every
socket, and before the bets are settled; and a check need not come from a player of the table. What
the other messages change, the player of their socket may change (`action_authority`).
-/

namespace Pokerhub

open GameEngine GatewayConfig GameStateInternal HandStateMachine List Program

/-! ### What an action may change -/

/-- What an action of another player leaves of a player. -/
def PlayerStateInternal.seat (p : PlayerStateInternal) : PlayerId × ℤ × ℤ × Bool × Bool :=
  (p.id, p.stack, p.bet, p.folded, p.allIn)

/-- The seats of the players with other ids. -/
def GameStateInternal.others (s : GameStateInternal) (playerId : PlayerId) :
    List (PlayerId × ℤ × ℤ × Bool × Bool) :=
  (s.players.map (·.seat)).filter (·.1 ≠ playerId)

/-- The players that are left in the hand once a fold is done. -/
def leftAfter (m : HandStateMachine) : GameAction → ℕ
  | .fold id => (m.state.updatePlayer id (·.fold)).activePlayers.length
  | _ => m.state.activePlayers.length

instance (m : HandStateMachine) (a : GameAction) : Decidable (EarlyNext m a) :=
  inferInstanceAs (Decidable (_ ∧ ∃ p ∈ m.state.players, _ ∧ _ ∧ _))

/-- A legal end of the round: at most one player is left, or `next` comes with the bets settled; and
what follows the hand. -/
def LegalEnd (m : HandStateMachine) (a : GameAction) : Prop :=
  match m.state.phase with
  | .waitBlinds | .nextHand => False
  | .deal => leftAfter m a ≤ 1
  | .bettingRound => leftAfter m a ≤ 1 ∨ a = .next ∧ ¬ EarlyNext m a
  | .showdown | .settle => a = .next

instance (m : HandStateMachine) (a : GameAction) : Decidable (LegalEnd m a) :=
  match h : m.state.phase with
  | .waitBlinds | .nextHand => isFalse (by simp [LegalEnd, h])
  | .deal => decidable_of_iff (leftAfter m a ≤ 1) (by simp [LegalEnd, h])
  | .bettingRound =>
    decidable_of_iff (leftAfter m a ≤ 1 ∨ a = .next ∧ ¬ EarlyNext m a) (by simp [LegalEnd, h])
  | .showdown | .settle => decidable_of_iff (a = .next) (by simp [LegalEnd, h])

/-- The player whose seat an action writes to. -/
def GameAction.player? : GameAction → Option PlayerId
  | .postBlind id _ | .bet id _ | .raise id _ | .call id _ | .fold id => some id
  | .check _ | .next => none

section Machine

variable {shuffle : Shuffle} {m m' : HandStateMachine} {s s' : GameStateInternal} {a : GameAction}
  {playerId : PlayerId}

lemma others_of_map (h : s'.players.map (·.seat) = s.players.map (·.seat)) :
    s'.others playerId = s.others playerId := by
  rw [others, h, others]

/-- A write to one player leaves the others. -/
lemma others_updatePlayer {id : PlayerId} {f : PlayerStateInternal → PlayerStateInternal}
    (hf : ∀ p, (f p).id = p.id) (hid : id = playerId ∨ ∀ p ∈ s.players, p.id ≠ id) :
    (s.updatePlayer id f).others playerId = s.others playerId := by
  have hplayers : ∀ ps : List PlayerStateInternal, (id = playerId ∨ ∀ p ∈ ps, p.id ≠ id) →
      ((ps.updateFirst (fun p => p.id == id) f).map (·.seat)).filter (·.1 ≠ playerId) =
        (ps.map (·.seat)).filter (·.1 ≠ playerId) := by
    intro ps hps
    induction ps with
    | nil => rfl
    | cons p ps ih =>
      rw [updateFirst_cons]
      by_cases hp : p.id = id
      · obtain rfl : id = playerId := hps.resolve_right fun hnone => hnone p mem_cons_self hp
        simp [hp, hf, PlayerStateInternal.seat]
      · have hrest := ih (hps.imp_right fun hnone q hq => hnone q (mem_cons_of_mem p hq))
        simp only [beq_iff_eq, hp, if_false, map_cons, filter_cons, hrest]
  exact hplayers s.players hid

lemma activePlayers_addBet (p : PlayerStateInternal) (amount : ℤ) :
    (s.addBet p amount).activePlayers.length = s.activePlayers.length := by
  rw [length_activePlayers_eq, roster_addBet, ← length_activePlayers_eq]

/-- An action that leaves a player to play with does not end the round. -/
lemma conclude_closeIfAlone (hphase : s.phase = .bettingRound) (hleft : 2 ≤ s.activePlayers.length)
    (blindsPosted : Finset PlayerId) :
    conclude ⟨s.closeIfAlone, blindsPosted⟩ = ⟨s, blindsPosted⟩ := by
  have hforce : force s = s := if_neg fun hone => absurd hone.1 (not_le.mpr hleft)
  rw [closeIfAlone_of_two_le hleft, conclude, hforce, if_neg (by simp [hphase])]

/-- An action that a player is asked for, and that leaves a player to play with. -/
lemma others_of_left {blindsPosted : Finset PlayerId} (hphase : s'.phase = .bettingRound)
    (hothers : s'.others playerId = s.others playerId) (hactive : 2 ≤ s'.activePlayers.length) :
    (conclude ⟨s'.closeIfAlone, blindsPosted⟩).state.others playerId = s.others playerId := by
  rw [conclude_closeIfAlone hphase hactive]
  exact hothers

/-- The player of an action is `playerId`, or somebody who does not sit at the table. -/
lemma own_of_find {id : PlayerId} {p : PlayerStateInternal}
    (hown : id = playerId ∨ ∀ p ∈ m.state.players, p.id ≠ id)
    (hp : m.state.players.find? (fun p => p.id == id) = some p) : p.id = playerId := by
  rw [find_id hp]
  exact hown.resolve_right fun hnone => hnone p (mem_of_find?_eq_some hp) (find_id hp)

lemma player?_of_requestedBet {id : PlayerId} {amount : ℤ}
    (h : s.requestedBet a = some (id, amount)) : a.player? = some id := by
  cases a with
  | bet id' amount' | raise id' amount' | postBlind id' amount' =>
    rw [requestedBet, Option.some.injEq, Prod.mk.injEq] at h
    exact congrArg some h.1
  | call id' amount' =>
    obtain ⟨p, -, heq⟩ := Option.map_eq_some_iff.mp h
    exact congrArg some (Prod.mk.injEq _ _ _ _ ▸ heq).1
  | _ => cases h

/-- An action for a player changes no other player, unless it ends the round, and then legally. -/
theorem others_conclude (hstep : Step shuffle m a m')
    (hown : ∀ id ∈ a.player?, id = playerId ∨ ∀ p ∈ m.state.players, p.id ≠ id)
    (hsettled : m.state.phase = .bettingRound → leftAfter m a ≤ 1 ∨ ¬ EarlyNext m a) :
    (conclude m').state.others playerId = m.state.others playerId ∨ LegalEnd m a := by
  cases hstep with
  | postBlind id amount p hphase hp hpos hle hmore =>
    have hid : p.id = playerId := own_of_find (hown id rfl) hp
    left
    rw [conclude_of_ne]
    · exact others_updatePlayer (fun _ => rfl) (Or.inl hid)
    · rcases hphase with hphase | hphase <;> simp [addBet, updatePlayer, hphase]
    · rcases hphase with hphase | hphase <;> simp [addBet, updatePlayer, hphase]
  | lastBlind id amount p hphase hp hpos hle hall =>
    have hid : p.id = playerId := own_of_find (hown id rfl) hp
    left
    rw [conclude_of_ne (by simp [startHand]) (by simp [startHand])]
    have hdealt : ((m.state.addBet p amount).startHand shuffle).players.map (·.seat) =
        (m.state.addBet p amount).players.map (·.seat) := map_dealHoleCards _ (fun _ _ => rfl) _ _
    exact (others_of_map hdealt).trans (others_updatePlayer (fun _ => rfl) (Or.inl hid))
  | deal hphase hdeal =>
    by_cases hleft : m.state.activePlayers.length ≤ 1
    · right
      simpa [LegalEnd, hphase, leftAfter] using hleft
    · left
      generalize hs : { (if m.state.boardDeal = 0 then m.state
        else m.state.dealBoard shuffle m.state.boardDeal) with phase := .bettingRound } = s
      have hplayers : s.players = m.state.players := by
        rw [← hs]
        dsimp only
        split_ifs <;> rfl
      have hactive : 2 ≤ s.activePlayers.length := by
        rw [activePlayers, hplayers]
        exact not_le.mp hleft
      have hround : s.phase = .bettingRound := by rw [← hs]
      have hsame := conclude_closeIfAlone hround hactive m.blindsPosted
      rw [closeIfAlone_of_two_le hactive] at hsame
      rw [hsame]
      exact others_of_map (congrArg _ hplayers)
  | chips id amount p hphase ha hp hpos hle =>
    have hpid : p.id = playerId := own_of_find (hown id (player?_of_requestedBet ha)) hp
    by_cases hleft : m.state.activePlayers.length ≤ 1
    · right
      have hafter : leftAfter m a = m.state.activePlayers.length := by
        cases a <;> first | rfl | cases ha
      simp [LegalEnd, hphase, hafter, hleft]
    · left
      refine others_of_left hphase (others_updatePlayer (fun _ => rfl) (Or.inl hpid)) ?_
      rw [activePlayers_addBet]
      exact not_le.mp hleft
  | check id hphase =>
    by_cases hleft : m.state.activePlayers.length ≤ 1
    · right
      simp [LegalEnd, hphase, leftAfter, hleft]
    · exact Or.inl (others_of_left hphase rfl (not_le.mp hleft))
  | fold id p hphase hp =>
    have hid : p.id = playerId := own_of_find (hown id rfl) hp
    by_cases hleft : leftAfter m (.fold id) ≤ 1
    · right
      simp [LegalEnd, hphase, hleft]
    · left
      refine others_of_left hphase (others_updatePlayer (fun _ => rfl) (Or.inl hid)) ?_
      rw [find_id hp]
      exact not_le.mp hleft
  | next hphase =>
    right
    rcases hsettled hphase with hleft | hlate
    · simp [LegalEnd, hphase, hleft]
    · simp [LegalEnd, hphase, hlate]
  | showdown hphase =>
    right
    simp [LegalEnd, hphase]
  | settle hphase =>
    right
    simp [LegalEnd, hphase]

end Machine

/-! ### What a message may change -/

namespace Gateway

/-- The state of a table's engine. -/
def machineAt (s : Gateway) (tableId : TableId) : Option HandStateMachine :=
  (s.engines tableId).map (·.machine)

/-- A message changes the engine of a table only if its socket is bound to a player of the table,
and no other player of it unless the round has come to a legal end. -/
structure Authority (config : GatewayConfig) (s : Gateway) (client : GameSocket)
    (message : Message) : Prop where
  seated : ∀ tableId,
    (s.afterMessage config client message).machineAt tableId ≠ s.machineAt tableId →
      s.SeatedAt client.id tableId
  own : ∀ tableId m m' playerId, s.machineAt tableId = some m →
    (s.afterMessage config client message).machineAt tableId = some m' →
    s.socketPlayers client.id = some playerId →
      m'.state.others playerId = m.state.others playerId ∨
        ∃ actionId wire, message = .action actionId (some wire) ∧ wire.tableId = tableId ∧
          LegalEnd m wire.action

/-- `next` comes from a socket of the table, when the round is over; a check from a socket of the
table, or while there are players to play with; and the other actions have a player. -/
def MayPlay (s : Gateway) (client : GameSocket) (tableId : TableId) (m : HandStateMachine) :
    GameAction → Prop
  | .next => s.SeatedAt client.id tableId ∧
      (m.state.phase = .bettingRound → leftAfter m .next ≤ 1 ∨ ¬ EarlyNext m .next)
  | .check _ => s.SeatedAt client.id tableId ∨ 2 ≤ m.state.activePlayers.length
  | action => action.actingPlayerId.isSome ∨ ∀ p ∈ m.state.players, p.id ≠ ""

instance (s : Gateway) (client : GameSocket) (tableId : TableId) (m : HandStateMachine) :
    (action : GameAction) → Decidable (s.MayPlay client tableId m action)
  | .next => inferInstanceAs (Decidable (_ ∧ (_ → _ ∨ ¬ _)))
  | .check _ => inferInstanceAs (Decidable (_ ∨ _))
  | .postBlind _ _ | .bet _ _ | .raise _ _ | .call _ _ | .fold _ =>
    inferInstanceAs (Decidable (_ ∨ ∀ p ∈ m.state.players, p.id ≠ ""))

/-- Whatever the engine of its table is, the socket may play the action. -/
def Entitled (s : Gateway) (client : GameSocket) (wire : WireGameAction) : Prop :=
  ∀ m ∈ s.machineAt wire.tableId, s.MayPlay client wire.tableId m wire.action

instance (s : Gateway) (client : GameSocket) (wire : WireGameAction) :
    Decidable (s.Entitled client wire) :=
  inferInstanceAs (Decidable (∀ m ∈ s.machineAt wire.tableId, _))

/-- No action has been applied since. -/
structure Untouched (s s' : Gateway) : Prop where
  machines : ∀ tableId, s'.machineAt tableId = s.machineAt tableId
  quiet : ∀ event ∈ s'.trace.drop s.trace.length, ∀ actionId, ¬ event.applies actionId

/-- The action has been applied to the engine of its table. -/
def Played (config : GatewayConfig) (s : Gateway) (wire : WireGameAction) (s' : Gateway) : Prop :=
  ∃ engine ∈ s.engines wire.tableId, ∃ m,
    Step (engine.rng.shuffle config.sha256) engine.machine wire.action m ∧
      ∀ tableId, s'.machineAt tableId =
        if tableId = wire.tableId then some (conclude m) else s.machineAt tableId

/-- The engines are as they were, and so are the sockets and what has happened. -/
structure Before (s s' : Gateway) : Prop where
  engines : s'.engines = s.engines
  players : s'.socketPlayers = s.socketPlayers
  trace : s'.trace = s.trace

end Gateway

/-- The commands that leave the engines, the sockets and what has happened alone. -/
def GatewayCmd.Preparing (c : GatewayCmd) : Bool :=
  c.Common || match c with
  | .hget _ | .hset _ _ | .enqueue _ (.actionAck _ _) => true
  | _ => false

section Serve

variable {config : GatewayConfig} {s s' : Gateway} {client : GameSocket} {actionId : ActionId}
  {wire : WireGameAction} {tableId : TableId} {c : GatewayCmd} {n : ℕ} {clientId : String}
  {event : ServerEvent} {α : Type}

lemma Gateway.Before.untouched (h : s.Before s') : s.Untouched s' where
  machines tableId := by rw [machineAt, h.engines, machineAt]
  quiet event hevent := by simp [h.trace] at hevent

lemma before_enqueue : s.Before (s.enqueue n clientId event) := by
  rw [Gateway.enqueue]
  split_ifs <;> exact ⟨rfl, rfl, rfl⟩

lemma before_exec (hc : c.Preparing) : s.Before (c.exec config s).2 := by
  cases c with
  | enqueue clientId event => exact before_enqueue
  | _ => first | exact ⟨rfl, rfl, rfl⟩ | cases hc

lemma Gateway.Before.trans {s'' : Gateway} (h : s.Before s') (h' : s'.Before s'') :
    s.Before s'' :=
  ⟨h'.engines.trans h.engines, h'.players.trans h.players, h'.trace.trans h.trace⟩

lemma keeps_before {p : GatewayM α} (h : p.Uses (·.Common)) :
    p.Keeps (GatewayCmd.exec config) s.Before :=
  h.keeps fun _ _ hc hs => hs.trans (before_exec (by simp [GatewayCmd.Preparing, hc]))

/-- What follows an accepted action leaves the machines alone. -/
lemma machineAt_exec (hc : c.Finishes) (tableId : TableId) :
    (c.exec config s).2.machineAt tableId = s.machineAt tableId := by
  cases c with
  | enqueue clientId event => exact (before_enqueue.untouched).machines tableId
  | spectate table tick =>
    simp only [GatewayCmd.exec]
    split <;> rfl
  | saveHand table =>
    simp only [GatewayCmd.exec]
    split
    · rfl
    · rename_i engine hengine
      by_cases htable : tableId = table
      · subst htable
        simp [Gateway.machineAt, Gateway.setEngine, hengine]
      · simp [Gateway.machineAt, Gateway.setEngine, htable]
  | _ => first | rfl | cases hc

lemma Gateway.Untouched.common {p : GatewayM α} (h : p.Uses (·.Common)) :
    p.Keeps (GatewayCmd.exec config) s.Untouched := by
  refine h.keeps fun c s' hc hs => ?_
  have hbefore : s'.Before (c.exec config s').2 :=
    before_exec (by simp [GatewayCmd.Preparing, hc])
  exact ⟨fun tableId => (hbefore.untouched.machines tableId).trans (hs.machines tableId),
    by rw [hbefore.trace]; exact hs.quiet⟩

lemma Gateway.Played.finishes {p : GatewayM α} (h : p.Uses (·.Finishes)) :
    p.Keeps (GatewayCmd.exec config) (s.Played config wire) := by
  refine h.keeps fun c s' hc hs => ?_
  obtain ⟨engine, hengine, m, hstep, hmachines⟩ := hs
  exact ⟨engine, hengine, m, hstep, fun tableId => (machineAt_exec hc tableId).trans
    (hmachines tableId)⟩

end Serve

section Outcome

variable {config : GatewayConfig} {s s' : Gateway} {client : GameSocket} {actionId : ActionId}
  {wire : WireGameAction} {tableId : TableId} {α : Type}

/-- An action is applied or not; if it is, its socket speaks for its player. -/
def Gateway.Outcome (config : GatewayConfig) (s : Gateway) (client : GameSocket)
    (wire : WireGameAction) (s' : Gateway) : Prop :=
  s.Untouched s' ∨
    (∀ playerId ∈ wire.action.actingPlayerId, s.socketPlayers client.id = some playerId) ∧
      s.Played config wire s'

lemma outcome_of_before (h : s.Before s') : s.Outcome config client wire s' :=
  Or.inl h.untouched

/-- A refusal. -/
lemma outcome_refuse (message : String) (h : s.Untouched s') :
    s.Outcome config client wire
      ((refuse client actionId message).run (GatewayCmd.exec config) s').2 :=
  Or.inl (Gateway.Untouched.common (uses_refuse message) s' h)

/-- The call of the engine, and what follows it. -/
lemma outcome_applyAction (time : ℕ) (h : s.Before s')
    (hplayer : ∀ playerId ∈ wire.action.actingPlayerId,
      s.socketPlayers client.id = some playerId)
    {f : ActionResult → GatewayM Unit}
    (hnone : ∃ message, f .notStarted = refuse client actionId message)
    (hrejected : ∀ message, f (.rejected message) = refuse client actionId message)
    (happlied : ∀ state tick,
      f (.applied state tick) = finishAction client actionId wire state tick) :
    s.Outcome config client wire
      ((gatewayRun (.applyAction client.id actionId time wire) >>= f).run
        (GatewayCmd.exec config) s').2 := by
  rw [run_gatewayRun_bind]
  have hexec : (GatewayCmd.applyAction client.id actionId time wire).exec config s' =
      GatewayCmd.execApplyAction config s' client.id actionId time wire := rfl
  rw [hexec, GatewayCmd.execApplyAction]
  cases hengine : s'.engines wire.tableId with
  | none =>
    obtain ⟨message, hrefuse⟩ := hnone
    dsimp only
    rw [hrefuse]
    exact outcome_refuse _ h.untouched
  | some engine =>
    have hengine' : s.engines wire.tableId = some engine := h.engines ▸ hengine
    dsimp only
    cases hrun : (GameEngine.applyAction config.sha256 wire.action).run engine with
    | error err engine' =>
      obtain rfl := eq_of_run_error hrun
      dsimp only
      rw [hrejected]
      refine outcome_refuse _ ⟨fun tableId => ?_, ?_⟩
      · by_cases htable : tableId = wire.tableId
        · subst htable
          simp [Gateway.machineAt, Gateway.setEngine, Gateway.log, hengine']
        · simp [Gateway.machineAt, Gateway.setEngine, Gateway.log, htable, h.engines]
      · simp [Gateway.log, Gateway.setEngine, h.trace, GatewayEvent.applies]
    | ok state engine' =>
      obtain ⟨rfl, rfl⟩ := eq_of_run_ok hrun
      dsimp only
      rw [happlied]
      refine Or.inr ⟨hplayer, Gateway.Played.finishes (uses_finishAction _ _ _) _ ?_⟩
      rcases @afterAction_spec config.sha256 engine wire.action with
        ⟨-, ⟨err, herr⟩, -⟩ | ⟨m, hstep, -, -⟩
      · rw [hrun] at herr
        cases herr
      · refine ⟨engine, hengine', m, hstep, fun tableId => ?_⟩
        have hengines := (@enqueue_eq (({ s' with tick := s'.tick + 1 }.setEngine wire.tableId
          (engine.afterAction config.sha256 wire.action)).log
            (.called actionId time wire.tableId wire.action true)) config.queueLimit client.id
              (.state (sanitize (engine.afterAction config.sha256 wire.action).machine.state
                wire.action.actingPlayerId s'.now) (s'.tick + 1))).2.1
        simp only [Gateway.machineAt, Gateway.setState, Gateway.publish, Gateway.log] at hengines ⊢
        rw [hengines]
        split_ifs with htable
        · subst htable
          simp [Gateway.setEngine, (run_applyAction_of_step hstep).2]
        · simp [Gateway.setEngine, htable, h.engines]

lemma outcome_playAction (time : ℕ) (h : s.Before s')
    (hplayer : ∀ playerId ∈ wire.action.actingPlayerId,
      s.socketPlayers client.id = some playerId) :
    s.Outcome config client wire
      ((playAction client actionId time wire).run (GatewayCmd.exec config) s').2 := by
  refine (keeps_before (uses_stopTimer _)).bind_into (fun _ => outcome_of_before)
    (fun _ s₁ h₁ => ?_) h
  refine (keeps_before (uses_flagOff _)).bind_into (fun _ => outcome_of_before)
    (fun dealing s₂ h₂ => ?_) h₁
  split_ifs
  · exact outcome_refuse _ h₂.untouched
  · refine (keeps_before (uses_flagOff _)).bind_into (fun _ => outcome_of_before)
      (fun settlement s₃ h₃ => ?_) h₂
    split_ifs
    · exact outcome_refuse _ h₃.untouched
    · exact outcome_applyAction time h₃ hplayer ⟨_, rfl⟩ (fun _ => rfl) fun _ _ => rfl

lemma outcome_deduplicate (h : s.Before s')
    (hplayer : ∀ playerId ∈ wire.action.actingPlayerId,
      s.socketPlayers client.id = some playerId) :
    s.Outcome config client wire
      ((deduplicate client actionId wire).run (GatewayCmd.exec config) s').2 := by
  rw [deduplicate, run_gatewayRun_bind]
  dsimp only
  split_ifs
  · exact outcome_of_before (h.trans before_enqueue)
  · rw [run_gatewayRun_bind]
    exact outcome_playAction _ (h.trans (before_exec rfl)) hplayer

/-- What becomes of an action. -/
lemma outcome_action (actionId : ActionId) (wire : WireGameAction) :
    s.Outcome config client wire
      (s.afterMessage config client (.action actionId (some wire))) := by
  refine (keeps_before uses_isRateLimited).bind_into (fun _ => outcome_of_before)
    (fun limited s₁ h₁ => ?_) ⟨rfl, rfl, rfl⟩
  split_ifs
  · exact outcome_of_before h₁
  · cases hparse : parseAction (some wire) with
    | none =>
      rw [run_gatewayRun_bind]
      exact outcome_of_before (h₁.trans before_enqueue)
    | some wire' =>
      obtain rfl : wire = wire' := Option.some.inj (Option.filter_eq_some_iff.mp hparse).1
      have hbound : (GatewayCmd.boundPlayer client.id).exec config s₁ =
          (s₁.socketPlayers client.id, s₁) := rfl
      dsimp only
      rw [run_gatewayRun_bind, hbound]
      dsimp only
      split_ifs with hmismatch
      · exact outcome_refuse _ h₁.untouched
      · refine outcome_deduplicate h₁ fun playerId hacting => ?_
        rw [h₁.players, Option.mem_def.mp hacting] at hmismatch
        by_contra hne
        exact hmismatch ⟨rfl, fun heq => hne heq.symm⟩

/-- Only an action is played. -/
lemma engines_exec {c : GatewayCmd} {message : Message}
    (hmessage : ∀ actionId rest, message ≠ .action actionId rest)
    (hc : (GatewayCall.message client message).Issues c) :
    (c.exec config s).2.engines = s.engines := by
  cases c with
  | enqueue clientId event => exact before_enqueue.engines
  | sendReplay clientId state => exact before_enqueue.engines
  | applyAction clientId actionId time wire =>
    cases message with
    | action actionId rest => exact (hmessage actionId rest rfl).elim
    | _ => cases hc
  | saveHand table =>
    cases message with
    | action actionId rest => exact (hmessage actionId rest rfl).elim
    | _ => cases hc
  | spectate table tick =>
    cases message with
    | action actionId rest => exact (hmessage actionId rest rfl).elim
    | _ => cases hc
  | roomApply playerId table => cases message <;> cases hc
  | _ => rfl

/-- The other messages leave the engines alone. -/
lemma machineAt_afterMessage {message : Message}
    (hmessage : ∀ actionId wire, message ≠ .action actionId (some wire)) (tableId : TableId) :
    (s.afterMessage config client message).machineAt tableId = s.machineAt tableId := by
  by_cases haction : ∃ actionId rest, message = .action actionId rest
  · obtain ⟨actionId, rest, rfl⟩ := haction
    cases rest with
    | some wire => exact (hmessage actionId wire rfl).elim
    | none =>
      have hbefore : s.Before (s.afterMessage config client (.action actionId none)) := by
        refine (keeps_before uses_isRateLimited).bind_into (fun _ => id)
          (fun limited s₁ h₁ => ?_) ⟨rfl, rfl, rfl⟩
        split_ifs
        · exact h₁
        · exact h₁.trans before_enqueue
      exact hbefore.untouched.machines tableId
  · have hother : ∀ actionId rest, message ≠ .action actionId rest :=
      fun actionId rest heq => haction ⟨actionId, rest, heq⟩
    have hkeeps : (GatewayCall.body config (.message client message)).Keeps
        (GatewayCmd.exec config) fun s' => s'.engines = s.engines :=
      (uses_body _).keeps fun c s' hc hs => (engines_exec hother hc).trans hs
    exact congrArg (·.map (·.machine)) (congrFun (hkeeps s rfl) tableId)

end Outcome

/-! ### Authority -/

section Authority

variable {config : GatewayConfig} {s s' : Gateway} {client : GameSocket} {actionId : ActionId}
  {wire : WireGameAction} {message : Message}

/-- The acting player is the one whose seat is written to, unless he has no name. -/
lemma acting_of_player? {a : GameAction} {id : PlayerId} (h : a.player? = some id) (hid : id ≠ "") :
    a.actingPlayerId = some id := by
  cases a <;> simp_all [GameAction.player?, GameAction.actingPlayerId]

lemma acting_of_empty {a : GameAction} (h : a.player? = some "") : a.actingPlayerId = none := by
  cases a <;> simp_all [GameAction.player?, GameAction.actingPlayerId]

/-- A rule writes to the seat of a player of the table. -/
lemma mem_of_step {shuffle : Shuffle} {m m' : HandStateMachine} {a : GameAction} {id : PlayerId}
    (hstep : Step shuffle m a m') (hid : a.player? = some id) :
    ∃ p ∈ m.state.players, p.id = id := by
  cases hstep with
  | postBlind id' amount p hphase hp | lastBlind id' amount p hphase hp | fold id' p hphase hp =>
    obtain rfl : id' = id := Option.some.inj hid
    exact ⟨p, mem_of_find?_eq_some hp, find_id hp⟩
  | chips id' amount p hphase ha hp =>
    obtain rfl : id' = id := Option.some.inj ((player?_of_requestedBet ha).symm.trans hid)
    exact ⟨p, mem_of_find?_eq_some hp, find_id hp⟩
  | _ => cases hid

/-- The named player of an action that is played sits at the table, and has the socket. -/
lemma seatedAt_of_player? {engine : GameEngine} {m : HandStateMachine} {shuffle : Shuffle}
    {id : PlayerId} (hengine : s.engines wire.tableId = some engine)
    (hplayer : ∀ playerId ∈ wire.action.actingPlayerId, s.socketPlayers client.id = some playerId)
    (hstep : Step shuffle engine.machine wire.action m) (hid : wire.action.player? = some id)
    (hnamed : wire.action.actingPlayerId.isSome ∨ ∀ p ∈ engine.machine.state.players, p.id ≠ "") :
    s.socketPlayers client.id = some id ∧ s.SeatedAt client.id wire.tableId := by
  obtain ⟨p, hp, hpid⟩ := mem_of_step hstep hid
  have hne : id ≠ "" := by
    rintro rfl
    rcases hnamed with hsome | hnone
    · rw [acting_of_empty hid] at hsome
      cases hsome
    · exact hnone p hp hpid
  have hbound := hplayer id (acting_of_player? hid hne)
  exact ⟨hbound, engine, hengine, p, hp, hbound.trans (congrArg some hpid.symm)⟩

/-- An action of a socket that may play it changes the table of the socket's player only. -/
lemma seatedAt_of_played {engine : GameEngine} {m : HandStateMachine} {shuffle : Shuffle}
    (hengine : s.engines wire.tableId = some engine)
    (hplayer : ∀ playerId ∈ wire.action.actingPlayerId, s.socketPlayers client.id = some playerId)
    (hstep : Step shuffle engine.machine wire.action m) (hentitled : s.Entitled client wire)
    (hchanged : conclude m ≠ engine.machine) : s.SeatedAt client.id wire.tableId := by
  have hmachine : s.machineAt wire.tableId = some engine.machine := by
    rw [Gateway.machineAt, hengine, Option.map_some]
  have hmay := hentitled engine.machine hmachine
  obtain ⟨tableId, action⟩ := wire
  cases action with
  | next => exact hmay.1
  | check id =>
    refine hmay.resolve_right fun hleft => hchanged ?_
    cases hstep with
    | chips id' amount p hphase ha => cases ha
    | check id hphase => exact conclude_closeIfAlone hphase hleft _
  | _ => exact (seatedAt_of_player? hengine hplayer hstep rfl hmay).2

/-- Nor does it change another player, unless the round has come to a legal end. -/
lemma others_of_played {engine : GameEngine} {m : HandStateMachine} {shuffle : Shuffle}
    {playerId : PlayerId} (hengine : s.engines wire.tableId = some engine)
    (hplayer : ∀ playerId ∈ wire.action.actingPlayerId, s.socketPlayers client.id = some playerId)
    (hstep : Step shuffle engine.machine wire.action m) (hentitled : s.Entitled client wire)
    (hbound : s.socketPlayers client.id = some playerId) :
    (conclude m).state.others playerId = engine.machine.state.others playerId ∨
      LegalEnd engine.machine wire.action := by
  have hmachine : s.machineAt wire.tableId = some engine.machine := by
    rw [Gateway.machineAt, hengine, Option.map_some]
  have hmay := hentitled engine.machine hmachine
  have hown : ∀ id, wire.action.player? = some id →
      (wire.action.actingPlayerId.isSome ∨ ∀ p ∈ engine.machine.state.players, p.id ≠ "") →
      id = playerId := by
    intro id hid hnamed
    exact Option.some.inj
      ((seatedAt_of_player? hengine hplayer hstep hid hnamed).1.symm.trans hbound)
  obtain ⟨tableId, action⟩ := wire
  refine others_conclude hstep (fun id hid => Or.inl (hown id hid ?_)) fun hphase => ?_
  · cases action <;> first | exact hmay | cases hid
  · cases action with
    | next => exact hmay.2 hphase
    | _ => exact Or.inr fun hearly => by cases hearly.1

/-- The message may change what it changes. -/
lemma authority_of_entitled
    (hentitled : ∀ actionId wire, message = .action actionId (some wire) →
      s.Entitled client wire) : s.Authority config client message := by
  by_cases haction : ∃ actionId wire, message = .action actionId (some wire)
  · obtain ⟨actionId, wire, rfl⟩ := haction
    have hmay := hentitled actionId wire rfl
    rcases @outcome_action config s client actionId wire with
      hsame | ⟨hplayer, engine, hengine, m, hstep, hmachines⟩
    · refine ⟨fun tableId hchanged => absurd (hsame.machines tableId) hchanged, ?_⟩
      intro tableId m m' playerId hm hm' hbound
      rw [hsame.machines, hm, Option.some.injEq] at hm'
      exact Or.inl (by rw [hm'])
    · have hmachine : s.machineAt wire.tableId = some engine.machine := by
        rw [Gateway.machineAt, Option.mem_def.mp hengine, Option.map_some]
      constructor
      · intro tableId hchanged
        rw [hmachines] at hchanged
        split_ifs at hchanged with htable
        · subst htable
          refine seatedAt_of_played hengine hplayer hstep hmay fun heq => hchanged ?_
          rw [heq, hmachine]
        · exact absurd rfl hchanged
      · intro tableId m₁ m' playerId hm₁ hm' hbound
        rw [hmachines] at hm'
        split_ifs at hm' with htable
        · subst htable
          rw [hmachine, Option.some.injEq] at hm₁
          rw [Option.some.injEq] at hm'
          subst hm₁ hm'
          exact (others_of_played hengine hplayer hstep hmay hbound).imp_right fun hend =>
            ⟨actionId, wire, rfl, rfl, hend⟩
        · rw [hm₁, Option.some.injEq] at hm'
          exact Or.inl (by rw [hm'])
  · have hsame : ∀ tableId,
        (s.afterMessage config client message).machineAt tableId = s.machineAt tableId :=
      machineAt_afterMessage fun actionId wire heq => haction ⟨actionId, wire, heq⟩
    refine ⟨fun tableId hchanged => absurd (hsame tableId) hchanged, ?_⟩
    intro tableId m m' playerId hm hm' hbound
    rw [hsame, hm, Option.some.injEq] at hm'
    exact Or.inl (by rw [hm'])

end Authority

/-! ### Sequences of messages -/

/-- A message is served to its end. -/
def serve (config : GatewayConfig) (s : Gateway) (x : GameSocket × Message) : Gateway :=
  s.afterMessage config x.1 x.2

/-- An action comes from a socket that may play it. -/
def MayAct (s : Gateway) : GameSocket × Message → Prop
  | (client, .action _ (some wire)) => s.Entitled client wire
  | _ => True

instance (s : Gateway) : (x : GameSocket × Message) → Decidable (MayAct s x)
  | (client, .action _ (some wire)) => inferInstanceAs (Decidable (s.Entitled client wire))
  | (_, .action _ none) | (_, .seat _ _) | (_, .proof _) | (_, .replay) | (_, .resume _) =>
    isTrue trivial

/-- A `next` that nothing refuses, and that is no duplicate, comes from a socket of the table. -/
def NextSeated (config : GatewayConfig) (s : Gateway) : GameSocket × Message → Prop
  | (client, .action actionId (some wire)) => wire.action = .next →
      s.Playable config client wire →
      fresh (s.actionHash (config.hashAction actionId)) s.now = false →
      s.SeatedAt client.id wire.tableId
  | _ => True

section Sequences

variable {config : GatewayConfig} {s s' : Gateway} {client : GameSocket} {actionId : ActionId}
  {wire : WireGameAction}

/-- `next` always moves the machine on. -/
lemma conclude_next_ne {shuffle : Shuffle} {m m' : HandStateMachine}
    (hstep : Step shuffle m .next m') : conclude m' ≠ m := by
  have hphase : (conclude m').state.phase ≠ m.state.phase := by
    rcases conclude_cases m' with hsame | ⟨hplayed, hsettle⟩
    · rw [hsame]
      cases hstep with
      | chips id amount p hphase ha => cases ha
      | deal hphase hdeal => simp [hphase]
      | next hphase =>
        rw [hphase]
        exact closeStreet_phase _
      | showdown hphase => simp [hphase]
      | settle hphase => simp [hphase, resetHand]
    · rw [hsettle]
      cases hstep with
      | chips id amount p hphase ha => cases ha
      | settle hphase => simp [resetHand] at hplayed
      | deal hphase hdeal => simp [hphase]
      | next hphase => simp [hphase]
      | showdown hphase => simp [hphase]
  exact fun heq => hphase (by rw [heq])

/-- An action that takes effect has been played. -/
lemma played_of_takesEffect (h : s.TakesEffect config client actionId wire) :
    s.Played config wire (s.afterMessage config client (.action actionId (some wire))) := by
  rcases @outcome_action config s client actionId wire with
    hsame | ⟨-, hplayed⟩
  · exact (hsame.quiet _ h actionId (by simp [GatewayEvent.applies])).elim
  · exact hplayed

lemma nextSeated_of_authority (x : GameSocket × Message)
    (h : s.Authority config x.1 x.2) : NextSeated config s x := by
  obtain ⟨client, message⟩ := x
  cases message with
  | action actionId rest =>
    cases rest with
    | none => trivial
    | some wire =>
      intro hnext hplayable hnew
      obtain ⟨engine, hengine, m, hstep, hmachines⟩ :=
        played_of_takesEffect ((takesEffect_iff hplayable).mpr hnew)
      refine h.seated wire.tableId fun hsame => ?_
      rw [hmachines, if_pos rfl, Gateway.machineAt, Option.mem_def.mp hengine, Option.map_some,
        Option.some.injEq] at hsame
      rw [hnext] at hstep
      exact conclude_next_ne hstep hsame
  | _ => trivial

/-- In a sequence of messages, served one after another, all of which come from sockets that may
play them, each changes only what the player of its socket may change; and in a sequence in which
each does, every `next` that is played comes from a socket of the table. -/
theorem action_authority {messages : List (GameSocket × Message)} :
    (TransitionSystem.Along (serve config) MayAct s messages →
        TransitionSystem.Along (serve config) (fun s x => s.Authority config x.1 x.2) s messages) ∧
      (TransitionSystem.Along (serve config) (fun s x => s.Authority config x.1 x.2) s messages →
        TransitionSystem.Along (serve config) (NextSeated config) s messages) := by
  constructor
  · refine TransitionSystem.Along.mono fun s x hmay => ?_
    obtain ⟨client, message⟩ := x
    refine authority_of_entitled fun actionId wire hmessage => ?_
    subst hmessage
    exact hmay
  · exact TransitionSystem.Along.mono fun s x => nextSeated_of_authority x

end Sequences

/-- Both players post their blinds and check, A says `next` each time, and the flop is dealt. -/
def handToFlop : List (GameSocket × Message) :=
  [(socketOf "A", .action "a1" (some ⟨"t1", .postBlind "A" 1⟩)),
    (socketOf "B", .action "b1" (some ⟨"t1", .postBlind "B" 1⟩)),
    (socketOf "A", .action "a2" (some ⟨"t1", .next⟩)),
    (socketOf "A", .action "a3" (some ⟨"t1", .check "A"⟩)),
    (socketOf "B", .action "b2" (some ⟨"t1", .check "B"⟩)),
    (socketOf "A", .action "a4" (some ⟨"t1", .next⟩)),
    (socketOf "B", .action "b3" (some ⟨"t1", .next⟩))]

theorem action_authority_handToFlop :
    TransitionSystem.Along (serve zeroSeedConfig) MayAct twoConnected handToFlop ∧
      TransitionSystem.Along (serve zeroSeedConfig) (NextSeated zeroSeedConfig) twoConnected
        handToFlop := by
  have hmay : TransitionSystem.Along (serve zeroSeedConfig) MayAct twoConnected handToFlop := by
    decide +kernel
  exact ⟨hmay, action_authority.2 (action_authority.1 hmay)⟩

/-- A socket that nobody has bound to a player. -/
def spectatorSocket : GameSocket where
  id := "socket-X"
  ip := "X"

/-- Two blinds and a deal; A raises. -/
def raising : List (GameSocket × Message) :=
  [(socketOf "A", .action "a1" (some ⟨"t1", .postBlind "A" 1⟩)),
    (socketOf "B", .action "b1" (some ⟨"t1", .postBlind "B" 1⟩)),
    (socketOf "A", .action "a2" (some ⟨"t1", .next⟩)),
    (socketOf "A", .action "a3" (some ⟨"t1", .raise "A" 10⟩))]

def raised : Gateway :=
  raising.foldl (serve zeroSeedConfig) twoConnected

/-- `next` ends the round before B can answer, and sweeps his bet: from a socket without a player,
and from that of A. -/
theorem round_ended_early :
    ¬ TransitionSystem.Along (serve zeroSeedConfig) (fun s x => s.Authority zeroSeedConfig x.1 x.2)
        twoConnected (raising ++ [(spectatorSocket, .action "x1" (some ⟨"t1", .next⟩))]) ∧
      ¬ TransitionSystem.Along (serve zeroSeedConfig)
        (fun s x => s.Authority zeroSeedConfig x.1 x.2) twoConnected
        (raising ++ [(socketOf "A", .action "a4" (some ⟨"t1", .next⟩))]) := by
  refine ⟨fun h => ?_, fun h => ?_⟩
  · have hlast : raised.Authority zeroSeedConfig spectatorSocket
        (.action "x1" (some ⟨"t1", .next⟩)) := (TransitionSystem.along_append.mp h).2.1
    have hseated := hlast.seated "t1" (by decide +kernel)
    revert hseated
    decide +kernel
  · have hlast : raised.Authority zeroSeedConfig (socketOf "A")
        (.action "a4" (some ⟨"t1", .next⟩)) := (TransitionSystem.along_append.mp h).2.1
    have hswept : ∀ m ∈ raised.machineAt "t1", ∀ m' ∈ (raised.afterMessage zeroSeedConfig
        (socketOf "A") (.action "a4" (some ⟨"t1", .next⟩))).machineAt "t1",
        m'.state.others "A" ≠ m.state.others "A" ∧ ¬ LegalEnd m .next := by
      decide +kernel
    have hsome : (raised.machineAt "t1").isSome ∧ ((raised.afterMessage zeroSeedConfig
        (socketOf "A") (.action "a4" (some ⟨"t1", .next⟩))).machineAt "t1").isSome := by
      decide +kernel
    obtain ⟨m, hm⟩ := Option.isSome_iff_exists.mp hsome.1
    obtain ⟨m', hm'⟩ := Option.isSome_iff_exists.mp hsome.2
    obtain ⟨hothers, hillegal⟩ := hswept m hm m' hm'
    rcases hlast.own "t1" m m' "A" hm hm' (by decide +kernel) with
      hkept | ⟨actionId, wire, heq, -, hend⟩
    · exact hothers hkept
    · cases heq
      exact hillegal hend

end Pokerhub
