import Pokerhub.Core.Stages
import Pokerhub.Game.Gateway

/-!
# One engine for a table

An action goes to the engine of the table's session, the fold at the end of a timer to the engine
of the room's worker. No action ever reaches that engine: it waits for its blinds, rejects the fold,
and its worker is gone (`fold_rejected`), so the end of a timer takes no effect. What is published,
kept and stored for a table is what the engine of its session makes of the accepted actions. It is
what one engine would make of the actions and the folds as long as the folds would change nothing
(`one_state_per_table`).
-/

namespace Pokerhub

open GameEngine GatewayConfig List Program

/-! ### The engine of a table -/

namespace Gateway

/-- The one engine of a table takes the accepted actions and the folds at the end of the timers. -/
def takeEvent (config : GatewayConfig) (tableId : TableId) (engine : Option GameEngine) :
    GatewayEvent → Option GameEngine
  | .started table started => if table = tableId then some started else engine
  | .called _ _ table action accepted =>
    if table = tableId ∧ accepted then engine.map (·.afterAction config.sha256 action) else engine
  | .timedOut playerId table =>
    if table = tableId then engine.map (·.afterAction config.sha256 (.fold playerId)) else engine
  | _ => engine

/-- The engine after all that has happened. -/
def tableEngine (config : GatewayConfig) (trace : List GatewayEvent) (tableId : TableId) :
    Option GameEngine :=
  trace.foldl (takeEvent config tableId) none

def tableState (config : GatewayConfig) (trace : List GatewayEvent) (tableId : TableId) :
    Option GameStateInternal :=
  (tableEngine config trace tableId).map (·.machine.state)

/-- All that is known of a table is the state of its one engine: what is published is the state at
that time, what is in the map the state now, and what is in Redis the state now or before. -/
structure OneState (config : GatewayConfig) (s : Gateway) : Prop where
  published : ∀ before tableId payload tick after,
    s.trace = before ++ .published tableId payload tick :: after →
    ∃ state playerId now, tableState config before tableId = some state ∧
      payload = sanitize state playerId now
  kept : ∀ tableId held, s.states tableId = some held →
    tableState config s.trace tableId = some held.state
  stored : ∀ tableId held, s.storedStates tableId = some held →
    ∃ before, before <+: s.trace ∧ tableState config before tableId = some held.state

end Gateway

/-- The fold at the end of a timer, on its way to the worker of the room. -/
def GatewayCmd.timerFold : GatewayCmd → Option (PlayerId × TableId)
  | .roomApply playerId tableId => some (playerId, tableId)
  | _ => none

/-- A fold at the end of a timer would not change the engine of the table. -/
def FoldsIdle (config : GatewayConfig) (s : Gateway) : Service.Action GatewayCall GatewayCmd → Prop
  | .call _ c => ∀ fold ∈ c.timerFold, ∀ engine ∈ s.engines fold.2,
    (engine.afterAction config.sha256 (.fold fold.1)).machine = engine.machine
  | _ => True

instance (config : GatewayConfig) (s : Gateway) :
    (a : Service.Action GatewayCall GatewayCmd) → Decidable (FoldsIdle config s a)
  | .call _ c => inferInstanceAs (Decidable (∀ fold ∈ c.timerFold, ∀ engine ∈ s.engines fold.2,
      (engine.afterAction config.sha256 (.fold fold.1)).machine = engine.machine))
  | .start _ | .fault _ _ | .env => isTrue trivial

/-! ### The game of an engine -/

/-- What the calls of an engine depend on. -/
def GameEngine.game (e : GameEngine) : HandStateMachine × HandRNG :=
  (e.machine, e.rng)

section Game

variable {sha256 : List UInt8 → List UInt8} {e e' : GameEngine}

lemma game_resume (i : ℕ) (ok : Bool) : (e.resume sha256 i ok).game = e.game := by
  rw [game, resume_machine, resume_rng, game]

/-- Two engines with one game go on with one game. -/
lemma game_afterAction (h : e'.game = e.game) (a : GameAction) :
    (e'.afterAction sha256 a).game = (e.afterAction sha256 a).game := by
  obtain ⟨hmachine, hrng⟩ := Prod.mk.injEq _ _ _ _ ▸ h
  rcases @afterAction_spec sha256 e a with ⟨hstay, -, hnone⟩ | ⟨m, hstep, -, -⟩
  · rcases @afterAction_spec sha256 e' a with ⟨hstay', -, -⟩ | ⟨m, hstep, -, -⟩
    · rw [hstay, hstay', h]
    · rw [hmachine, hrng] at hstep
      exact absurd hstep (hnone m)
  · have hstep' : Step (e'.rng.shuffle sha256) e'.machine a m := by
      rwa [hmachine, hrng]
    rw [game, game, afterAction_rng_eq, afterAction_rng_eq, hrng,
      (run_applyAction_of_step hstep).2, (run_applyAction_of_step hstep').2]

/-- A rejected call leaves the engine alone. -/
lemma eq_of_run_error {a : GameAction} {err : GameError}
    (h : (applyAction sha256 a).run e = .error err e') : e' = e := by
  rcases @afterAction_spec sha256 e a with ⟨hstay, -, -⟩ | ⟨m, -, hok, -⟩
  · rw [← afterAction_of_run h, hstay]
  · rw [h] at hok
    cases hok

/-- An accepted call answers with the state of the engine. -/
lemma eq_of_run_ok {a : GameAction} {state : GameStateInternal}
    (h : (applyAction sha256 a).run e = .ok state e') :
    e' = e.afterAction sha256 a ∧ state = e'.machine.state := by
  rcases @afterAction_spec sha256 e a with ⟨-, ⟨err, herr⟩, -⟩ | ⟨m, -, hok, -⟩
  · rw [h] at herr
    cases herr
  · rw [h] at hok
    cases hok
    exact ⟨rfl, rfl⟩

/-- An engine that waits for its blinds takes no fold. -/
lemma fold_rejected_of_waiting (h : e.machine.state.phase = .waitBlinds) (playerId : PlayerId) :
    ∃ err, (applyAction sha256 (.fold playerId)).run e = .error err e := by
  rcases @afterAction_spec sha256 e (.fold playerId) with ⟨-, hrun, -⟩ | ⟨m, hstep, -, -⟩
  · exact hrun
  · cases hstep with
    | chips id amount p hphase => rw [h] at hphase; cases hphase
    | fold id p hphase => rw [h] at hphase; cases hphase

end Game

/-! ### The workers -/

/-- The worker of a room has played nothing, and waits for nothing but the blinds. -/
structure Room.Waiting (room : Room) : Prop where
  phase : room.worker.engine.machine.state.phase = .waitBlinds
  waiting : room.worker.waiting = []
  unplayed : room.worker.engine.log.entries = []

def Gateway.RoomsWaiting (s : Gateway) : Prop :=
  ∀ tableId room, s.rooms tableId = some room → room.Waiting

section Rooms

variable {config : GatewayConfig} {s : Gateway}

lemma waiting_room (h : s.RoomsWaiting)
    (tableId : TableId) : (s.room tableId).Waiting := by
  rw [Gateway.room]
  cases hroom : s.rooms tableId with
  | some room => exact h tableId room hroom
  | none => exact ⟨rfl, rfl, rfl⟩

@[simp] lemma room_log (event : GatewayEvent) (tableId : TableId) :
    (s.log event).room tableId = s.room tableId := rfl

lemma waiting_setRoom (h : s.RoomsWaiting)
    {tableId : TableId} {room : Room} (hroom : room.Waiting) :
    (s.setRoom tableId room).RoomsWaiting := by
  intro table room' hroom'
  by_cases htable : table = tableId
  · subst htable
    simp only [Gateway.setRoom, Function.update_self, Option.some.injEq] at hroom'
    exact hroom' ▸ hroom
  · simp only [Gateway.setRoom, Function.update_of_ne htable] at hroom'
    exact h table room' hroom'

/-- A worker that waits for nothing does not go on. -/
lemma Room.Waiting.proceed {room : Room} (h : room.Waiting) (sha256 : List UInt8 → List UInt8)
    (i : ℕ) (enabled : Bool) :
    ({ room with worker := room.worker.proceed sha256 i enabled } : Room).Waiting := by
  have hsame : room.worker.proceed sha256 i enabled = room.worker := by
    rw [RoomWorker.proceed]
    simp [h.waiting]
  rw [hsame]
  exact h

lemma waiting_enqueue (h : s.RoomsWaiting) (n : ℕ) (clientId : String) (event : ServerEvent) :
    (s.enqueue n clientId event).RoomsWaiting := by
  rw [Gateway.enqueue]
  split_ifs <;> exact h

/-- Nothing that happens makes a worker begin a hand. -/
lemma waiting_exec (h : s.RoomsWaiting)
    (c : GatewayCmd) : (c.exec config s).2.RoomsWaiting := by
  cases c with
  | roomApply playerId tableId =>
    have hroom := waiting_room h tableId
    obtain ⟨err, hrun⟩ := @fold_rejected_of_waiting config.sha256 _ hroom.phase playerId
    simp only [GatewayCmd.exec]
    rw [GatewayCmd.execRoomApply, room_log, hrun]
    split_ifs
    · exact waiting_setRoom h ⟨hroom.phase, hroom.waiting, hroom.unplayed⟩
    · exact h
  | roomReplay tableId => exact waiting_setRoom h (waiting_room h tableId)
  | roomResume tableId clientId since => exact waiting_setRoom h (waiting_room h tableId)
  | enqueue clientId event => exact waiting_enqueue h _ _ _
  | sendReplay clientId state => exact waiting_enqueue h _ _ _
  | saveHand tableId =>
    simp only [GatewayCmd.exec]
    split <;> exact h
  | spectate tableId tick =>
    simp only [GatewayCmd.exec]
    split <;> exact h
  | applyAction clientId actionId time wire =>
    simp only [GatewayCmd.exec, GatewayCmd.execApplyAction]
    split
    · exact h
    · split
      · exact h
      · rename_i engine _ _ state engine' _
        exact waiting_enqueue (s := ({ s with tick := s.tick + 1 }.setEngine wire.tableId engine').log
          (.called actionId time wire.tableId wire.action true)) h _ _ _
  | _ => exact h

lemma waiting_env {s' : Gateway} (h : s.RoomsWaiting) (henv : Gateway.Env config s s') :
    s'.RoomsWaiting := by
  cases henv with
  | roomProceed tableId room i enabled hroom =>
    exact waiting_setRoom h ((h tableId room hroom).proceed config.sha256 i enabled)
  | _ => exact h

lemma waiting_of_initial (h : Gateway.Initial config s) : s.RoomsWaiting := by
  obtain ⟨now, flags, hands, draws, rfl⟩ := h
  exact fun _ _ hroom => by cases hroom

/-- No worker ever begins a hand. -/
theorem waiting_of_reachable {P : Pool GatewayCmd.Answer String Unit Gateway GatewayCall}
    (h : (gatewayService config).system.Reachable P) : P.state.RoomsWaiting := by
  have hinit : ∀ s, Gateway.Initial config s → s.RoomsWaiting := fun _ => waiting_of_initial
  have henv : ∀ s s', s.RoomsWaiting → Gateway.Env config s s' → True → s'.RoomsWaiting :=
    fun _ _ hs henv _ => waiting_env hs henv
  exact Service.invariant_of_calls (I := Gateway.RoomsWaiting) hinit
    (fun _ _ c hs _ => waiting_exec hs c) henv (Service.reachable_within h)

/-- No worker accepts the fold at the end of a timer, in any state of any run. -/
theorem fold_rejected {P : Pool GatewayCmd.Answer String Unit Gateway GatewayCall}
    (h : (gatewayService config).system.Reachable P) (playerId : PlayerId) (tableId : TableId) :
    (GatewayCmd.execRoomApply config P.state playerId tableId).1 = false := by
  obtain ⟨err, hrun⟩ := @fold_rejected_of_waiting config.sha256 _
    (waiting_room (waiting_of_reachable h) tableId).phase playerId
  rw [GatewayCmd.execRoomApply, room_log, hrun]
  split_ifs <;> rfl

end Rooms

/-! ### The stages of a handler -/

/-- The state that a handler has in its hands. -/
inductive HoldStage where
  | idle
  /-- From the engine of the table. -/
  | holding (tableId : TableId) (state : GameStateInternal)
  /-- From the worker of the room, after a fold that it accepted. -/
  | adopting

def holdAllowed : HoldStage → GatewayCmd → Prop
  | l, .storeState tableId held => l = .holding tableId held.state ∨ l = .adopting
  | l, .adopt _ _ => l = .adopting
  | l, .broadcast _ _ _ => l = .adopting
  | _, _ => True

def holdNext : HoldStage → (c : GatewayCmd) → Option c.Answer → HoldStage
  | _, .applyAction _ _ _ wire, some (.applied state _) => .holding wire.tableId state
  | _, .roomApply _ _, some true => .adopting
  | l, _, _ => l

lemma holdNext_none {l : HoldStage} {c : GatewayCmd} : holdNext l c none = l := by
  cases c <;> rfl

def hold : Discipline GatewayCmd.Answer HoldStage where
  allowed := holdAllowed
  next := holdNext

/-- The commands that neither take a state nor hand one on. -/
def GatewayCmd.Loose : GatewayCmd → Bool
  | .storeState _ _ | .adopt _ _ | .broadcast _ _ _ | .applyAction _ _ _ _ | .roomApply _ _ => false
  | _ => true

section Handlers

variable {config : GatewayConfig} {client : GameSocket} {actionId : ActionId} {tableId : TableId}
  {l : HoldStage}

/-- A handler may end at every stage. -/
abbrev EndsAnywhere (_ : Except String Unit) (_ : HoldStage) : Prop := True

lemma follows_loose {α : Type} {Q : Except String α → HoldStage → Prop} {p : GatewayM α}
    (h : p.Uses (·.Loose)) (hQ : ∀ r, Q r l) : p.Follows hold Q l := by
  apply follows_of_uses h
  · intro c hc
    cases c <;> trivial
  · intro c a hc
    cases c <;> first | rfl | cases hc
  · exact hQ

lemma uses_loose_of_common {α : Type} {p : GatewayM α} (h : p.Uses (·.Common)) :
    p.Uses (·.Loose) :=
  h.mono fun c hc => by cases c <;> first | rfl | cases hc

lemma follows_loose_bind {α : Type} {p : GatewayM α} {f : α → GatewayM Unit}
    (h : p.Uses (·.Loose)) (hf : ∀ a, (f a).Follows hold EndsAnywhere l) :
    (p >>= f).Follows hold EndsAnywhere l := by
  apply follows_bind
  apply follows_loose h
  rintro (e | a)
  · trivial
  · exact hf a

lemma follows_common_bind {α : Type} {p : GatewayM α} {f : α → GatewayM Unit}
    (h : p.Uses (·.Common)) (hf : ∀ a, (f a).Follows hold EndsAnywhere l) :
    (p >>= f).Follows hold EndsAnywhere l :=
  follows_loose_bind (uses_loose_of_common h) hf

lemma follows_common {p : GatewayM Unit} (h : p.Uses (·.Common)) : p.Follows hold EndsAnywhere l :=
  follows_loose (uses_loose_of_common h) fun _ => trivial

lemma uses_loose {c : GatewayCmd} (hc : c.Loose) : (gatewayRun c).Uses (·.Loose) :=
  uses_gatewayRun hc

lemma uses_loose_bind {α : Type} {c : GatewayCmd} {f : c.Answer → GatewayM α} (hc : c.Loose)
    (hf : ∀ a, (f a).Uses (·.Loose)) : (gatewayRun c >>= f).Uses (·.Loose) :=
  uses_gatewayRun_bind hc hf

lemma uses_loose_dropHand : (dropHand tableId).Uses (·.Loose) :=
  uses_loose_bind rfl fun _ => uses_loose rfl

/-- Only an action and the end of a timer take a state. -/
lemma uses_loose_of_not_applies {r : GatewayCall} (hr : r.Applies = false) :
    (r.body config).Uses (·.Loose) := by
  apply (uses_body r).mono
  intro c hc
  cases r with
  | timeout playerId tableId => cases hr
  | trim => cases c <;> first | rfl | cases hc
  | message client message =>
    cases message with
    | action actionId rest => cases hr
    | _ => cases c <;> first | rfl | cases hc

/-- The state goes to Redis. -/
lemma follows_storeState {held : HeldState} {f : Unit → GatewayM Unit}
    (hl : l = .holding tableId held.state ∨ l = .adopting)
    (hf : (f ()).Follows hold EndsAnywhere l) :
    (gatewayRun (.storeState tableId held) >>= f).Follows hold EndsAnywhere l := by
  apply follows_command_bind
  · exact hl
  · exact fun _ => hf
  · trivial

lemma follows_finishAction {wire : WireGameAction} {state : GameStateInternal} {tick : ℕ} :
    (finishAction client actionId wire state tick).Follows hold EndsAnywhere
      (.holding wire.tableId state) := by
  refine follows_storeState (Or.inl rfl) ?_
  refine follows_loose_bind (uses_loose rfl) fun _ => ?_
  refine follows_common_bind (uses_maybeSnapshot _) fun _ => ?_
  refine follows_loose_bind (uses_gatewayIf (uses_loose rfl)) fun _ => ?_
  refine follows_loose_bind (uses_loose rfl) fun _ => ?_
  refine follows_loose_bind (uses_loose rfl) fun _ => ?_
  split_ifs
  · exact follows_loose uses_loose_dropHand fun _ => trivial
  · exact follows_common (uses_restartTimer _)

lemma follows_playAction_hold (wire : WireGameAction) (time : ℕ) :
    (playAction client actionId time wire).Follows hold EndsAnywhere l := by
  refine follows_common_bind (uses_stopTimer _) fun _ => ?_
  refine follows_common_bind (uses_flagOff _) fun dealing => ?_
  split_ifs
  · exact follows_common (uses_refuse _)
  · refine follows_common_bind (uses_flagOff _) fun settlement => ?_
    split_ifs
    · exact follows_common (uses_refuse _)
    · apply follows_command_bind
      · trivial
      · rintro (_ | message | ⟨state, tick⟩)
        · exact follows_common (uses_refuse _)
        · exact follows_common (uses_refuse _)
        · exact follows_finishAction
      · trivial

lemma follows_handleTimeout (playerId : PlayerId) :
    (handleTimeout playerId tableId).Follows hold EndsAnywhere .idle := by
  refine follows_common_bind (uses_common rfl) fun _ => ?_
  apply follows_command_bind
  · trivial
  · rintro (_ | _)
    · trivial
    · refine follows_loose_bind (uses_loose rfl) ?_
      rintro (_ | state)
      · trivial
      · apply follows_command_bind
        · rfl
        · rintro ⟨payload, tick⟩
          refine follows_storeState (Or.inr rfl) ?_
          refine follows_loose_bind (uses_loose rfl) fun _ => ?_
          refine follows_common_bind (uses_maybeSnapshot _) fun _ => ?_
          apply follows_command_bind
          · rfl
          · exact fun _ =>
              follows_loose (uses_gatewayIf uses_loose_dropHand) fun _ => trivial
          · trivial
        · trivial
  · trivial

/-- Every call keeps to the discipline. -/
lemma follows_body_hold (r : GatewayCall) : (r.body config).Follows hold EndsAnywhere .idle := by
  cases r with
  | timeout playerId tableId => exact follows_handleTimeout playerId
  | trim => exact follows_loose (uses_loose_of_not_applies rfl) fun _ => trivial
  | message client message =>
    cases message with
    | action actionId rest =>
      refine follows_common_bind uses_isRateLimited fun limited => ?_
      split_ifs
      · trivial
      · cases parseAction rest with
        | none => exact follows_loose_bind (uses_loose rfl) fun _ => trivial
        | some wire =>
          refine follows_common_bind (uses_common rfl) fun expected => ?_
          split_ifs
          · exact follows_common (uses_refuse _)
          · refine follows_loose_bind (uses_loose rfl) ?_
            rintro ⟨existing, now⟩
            dsimp only
            split_ifs
            · exact follows_loose (uses_loose rfl) fun _ => trivial
            · exact follows_loose_bind (uses_loose rfl) fun _ => follows_playAction_hold wire now
    | seat event actionId => exact follows_loose (uses_loose_of_not_applies rfl) fun _ => trivial
    | proof handId => exact follows_loose (uses_loose_of_not_applies rfl) fun _ => trivial
    | replay => exact follows_loose (uses_loose_of_not_applies rfl) fun _ => trivial
    | resume tick => exact follows_loose (uses_loose_of_not_applies rfl) fun _ => trivial

end Handlers

/-! ### The invariant -/

/-- A state of the one engine, now or before. -/
def Gateway.Past (config : GatewayConfig) (s : Gateway) (tableId : TableId)
    (state : GameStateInternal) : Prop :=
  ∃ before, before <+: s.trace ∧ Gateway.tableState config before tableId = some state

/-- What a handler has in its hands comes from the one engine; no worker has accepted a fold. -/
def HoldStage.Known (config : GatewayConfig) (s : Gateway) : HoldStage → Prop
  | .idle => True
  | .holding tableId state => s.Past config tableId state
  | .adopting => False

/-- The engine of a table's session plays the game of its one engine. -/
structure OneEngineInv (config : GatewayConfig) (s : Gateway)
    (ls : List (GatewayCall × HoldStage)) : Prop where
  engines : ∀ tableId, (Gateway.tableEngine config s.trace tableId).map game =
    (s.engines tableId).map game
  one : s.OneState config
  stages : ∀ rl ∈ ls, rl.2.Known config s

section Invariant

open Gateway

variable {config : GatewayConfig} {s s' : Gateway} {ls : List (GatewayCall × HoldStage)}
  {r : GatewayCall} {l : HoldStage} {c : GatewayCmd} {event : GatewayEvent} {tableId : TableId}
  {state : GameStateInternal}

lemma tableEngine_concat (trace : List GatewayEvent) (tableId : TableId) :
    tableEngine config (trace ++ [event]) tableId =
      takeEvent config tableId (tableEngine config trace tableId) event := by
  rw [tableEngine, foldl_append, foldl_cons, foldl_nil, tableEngine]

lemma tableState_eq (trace : List GatewayEvent) (tableId : TableId) :
    tableState config trace tableId =
      ((tableEngine config trace tableId).map game).map (·.1.state) := by
  rw [tableState, Option.map_map]
  rfl

/-- The one engine has the state of the session's engine. -/
lemma OneEngineInv.tableState_eq (h : OneEngineInv config s ls) (tableId : TableId) :
    tableState config s.trace tableId = (s.engines tableId).map (·.machine.state) := by
  rw [Pokerhub.tableState_eq, h.engines, Option.map_map]
  rfl

lemma HoldStage.Known.mono (h : l.Known config s) (htrace : s.trace <+: s'.trace) :
    l.Known config s' := by
  cases l with
  | idle => trivial
  | holding tableId state =>
    obtain ⟨before, hbefore, hstate⟩ := h
    exact ⟨before, hbefore.trans htrace, hstate⟩
  | adopting => exact h.elim

/-- The frames before an event, and the event itself. -/
lemma published_concat {trace : List GatewayEvent}
    {P : List GatewayEvent → TableId → GameState → Prop}
    (h : ∀ before tableId payload tick after,
      trace = before ++ .published tableId payload tick :: after → P before tableId payload)
    (hevent : ∀ tableId payload tick, event = .published tableId payload tick →
      P trace tableId payload) :
    ∀ before tableId payload tick after,
      trace ++ [event] = before ++ .published tableId payload tick :: after →
        P before tableId payload := by
  intro before tableId payload tick after heq
  rcases eq_nil_or_concat after with rfl | ⟨after', x, rfl⟩
  · obtain ⟨rfl, hlast⟩ := append_inj' heq rfl
    exact hevent tableId payload tick (singleton_inj.mp hlast)
  · rw [concat_eq_append, ← cons_append, ← append_assoc] at heq
    exact h before tableId payload tick after' (append_inj' heq rfl).1

/-- Nothing has happened, but states may have been dropped. -/
lemma OneEngineInv.congr (h : OneEngineInv config s ls) (htrace : s'.trace = s.trace)
    (hengines : ∀ tableId, (s'.engines tableId).map game = (s.engines tableId).map game)
    (hstates : ∀ tableId held, s'.states tableId = some held → s.states tableId = some held)
    (hstored : ∀ tableId held, s'.storedStates tableId = some held →
      s.storedStates tableId = some held) : OneEngineInv config s' ls where
  engines tableId := by rw [htrace, h.engines, hengines]
  one :=
    { published := by rw [htrace]; exact h.one.published
      kept := fun tableId held hheld => by
        rw [htrace]
        exact h.one.kept tableId held (hstates tableId held hheld)
      stored := fun tableId held hheld => by
        rw [htrace]
        exact h.one.stored tableId held (hstored tableId held hheld) }
  stages rl hrl := (h.stages rl hrl).mono (htrace ▸ prefix_rfl)

/-- Something has happened. -/
lemma OneEngineInv.happen (h : OneEngineInv config s ls) (event : GatewayEvent)
    (htrace : s'.trace = s.trace ++ [event])
    (hengines : ∀ tableId, (tableEngine config s'.trace tableId).map game =
      (s'.engines tableId).map game)
    (hstates : ∀ tableId held, s'.states tableId = some held →
      tableState config s'.trace tableId = some held.state)
    (hstored : s'.storedStates = s.storedStates)
    (hevent : ∀ tableId payload tick, event = .published tableId payload tick →
      ∃ state playerId now, tableState config s.trace tableId = some state ∧
        payload = sanitize state playerId now) : OneEngineInv config s' ls where
  engines := hengines
  one :=
    { published := by
        rw [htrace]
        exact published_concat
          (P := fun before tableId payload => ∃ state playerId now,
            tableState config before tableId = some state ∧ payload = sanitize state playerId now)
          h.one.published hevent
      kept := hstates
      stored := fun tableId held hheld => by
        rw [hstored] at hheld
        obtain ⟨before, hbefore, hstate⟩ := h.one.stored tableId held hheld
        exact ⟨before, hbefore.trans (htrace ▸ prefix_append _ _), hstate⟩ }
  stages rl hrl := (h.stages rl hrl).mono (htrace ▸ prefix_append _ _)

/-- Something has happened that leaves the game of the one engine as it was. -/
lemma OneEngineInv.pass (h : OneEngineInv config s ls) (event : GatewayEvent)
    (htrace : s'.trace = s.trace ++ [event])
    (hsame : ∀ tableId, (takeEvent config tableId (tableEngine config s.trace tableId) event).map
      game = (tableEngine config s.trace tableId).map game)
    (hengines : s'.engines = s.engines) (hstates : s'.states = s.states)
    (hstored : s'.storedStates = s.storedStates)
    (hevent : ∀ tableId payload tick, event = .published tableId payload tick →
      ∃ state playerId now, tableState config s.trace tableId = some state ∧
        payload = sanitize state playerId now) : OneEngineInv config s' ls := by
  have hgame : ∀ tableId, (tableEngine config s'.trace tableId).map game =
      (tableEngine config s.trace tableId).map game := by
    intro tableId
    rw [htrace, tableEngine_concat, hsame]
  refine h.happen event htrace (fun tableId => ?_) (fun tableId held hheld => ?_) hstored hevent
  · rw [hgame, hengines, h.engines]
  · rw [hstates] at hheld
    rw [Pokerhub.tableState_eq, hgame, ← Pokerhub.tableState_eq]
    exact h.one.kept tableId held hheld

/-- A stage is kept, or another one is reached with a state that is known. -/
lemma OneEngineInv.reach (h : OneEngineInv config s ((r, l) :: ls)) {l' : HoldStage}
    (hl : l'.Known config s) : OneEngineInv config s ((r, l') :: ls) where
  engines := h.engines
  one := h.one
  stages := forall_mem_cons.mpr ⟨hl, (forall_mem_cons.mp h.stages).2⟩

lemma enqueue_eq (n : ℕ) (clientId : String) (event : ServerEvent) :
    (s.enqueue n clientId event).trace = s.trace ∧
      (s.enqueue n clientId event).engines = s.engines ∧
      (s.enqueue n clientId event).states = s.states ∧
      (s.enqueue n clientId event).storedStates = s.storedStates := by
  rw [Gateway.enqueue]
  split_ifs <;> exact ⟨rfl, rfl, rfl, rfl⟩

lemma OneEngineInv.enqueue (h : OneEngineInv config s ls) (n : ℕ) (clientId : String)
    (event : ServerEvent) : OneEngineInv config (s.enqueue n clientId event) ls := by
  obtain ⟨htrace, hengines, hstates, hstored⟩ := @enqueue_eq s n clientId event
  refine h.congr htrace (fun tableId => ?_) (fun tableId held hheld => ?_)
    (fun tableId held hheld => ?_)
  · rw [hengines]
  · rwa [hstates] at hheld
  · rwa [hstored] at hheld

/-- The fold at the end of a timer is rejected, and would have changed nothing. -/
lemma OneEngineInv.roomApply (h : OneEngineInv config s ls) (hrooms : s.RoomsWaiting)
    {playerId : PlayerId}
    (hidle : ∀ engine, s.engines tableId = some engine →
      (engine.afterAction config.sha256 (.fold playerId)).machine = engine.machine) :
    (GatewayCmd.execRoomApply config s playerId tableId).1 = false ∧
      OneEngineInv config (GatewayCmd.execRoomApply config s playerId tableId).2 ls := by
  have hroom := waiting_room hrooms tableId
  have hsame : ∀ table, (takeEvent config table (tableEngine config s.trace table)
      (.timedOut playerId tableId)).map game = (tableEngine config s.trace table).map game := by
    intro table
    rw [takeEvent]
    split_ifs with htable
    · subst htable
      have hgame := h.engines tableId
      cases hone : tableEngine config s.trace tableId with
      | none => rfl
      | some engine =>
        cases hsession : s.engines tableId with
        | none => rw [hone, hsession] at hgame; cases hgame
        | some session =>
          rw [hone, hsession, Option.map_some, Option.map_some, Option.some.injEq] at hgame
          rw [Option.map_some, Option.map_some, Option.map_some, game_afterAction hgame, hgame,
            game, hidle _ hsession, afterAction_rng_eq, game]
    · rfl
  have hlog : ∀ {s'}, s'.trace = s.trace ++ [.timedOut playerId tableId] →
      s'.engines = s.engines → s'.states = s.states → s'.storedStates = s.storedStates →
      OneEngineInv config s' ls :=
    fun htrace hengines hstates hstored =>
      h.pass _ htrace hsame hengines hstates hstored fun _ _ _ heq => by cases heq
  obtain ⟨err, hrun⟩ := @fold_rejected_of_waiting config.sha256 _ hroom.phase playerId
  rw [GatewayCmd.execRoomApply, room_log, hrun]
  split_ifs
  · exact ⟨rfl, hlog rfl rfl rfl rfl⟩
  · exact ⟨rfl, hlog rfl rfl rfl rfl⟩

/-- An accepted call, with the state that it leaves in the map. -/
lemma OneEngineInv.called (h : OneEngineInv config s ls) {engine engine' : GameEngine}
    (hengine : s.engines tableId = some engine) (action : GameAction)
    (hafter : engine.afterAction config.sha256 action = engine') (actionId : ActionId) (time : ℕ) :
    OneEngineInv config
      (((s.setEngine tableId engine').log (.called actionId time tableId action true)).setState
        tableId (some ⟨engine'.machine.state, true⟩)) ls := by
  have hgame : ∀ table, (takeEvent config table (tableEngine config s.trace table)
      (.called actionId time tableId action true)).map game =
        (Function.update s.engines tableId (some engine') table).map game := by
    intro table
    rw [takeEvent]
    by_cases htable : tableId = table
    · subst htable
      rw [if_pos ⟨rfl, rfl⟩, Function.update_self]
      have hone := h.engines tableId
      rw [hengine] at hone
      obtain ⟨one, hone', hsame⟩ := Option.map_eq_some_iff.mp hone
      rw [hone', Option.map_some, Option.map_some, Option.map_some, game_afterAction hsame, hafter]
    · rw [if_neg fun hboth => htable hboth.1, Function.update_of_ne (Ne.symm htable), h.engines]
  refine h.happen _ rfl (fun table => ?_) (fun table held hheld => ?_) rfl
    fun _ _ _ heq => by cases heq
  · exact (congrArg (Option.map game) (tableEngine_concat _ _)).trans (hgame table)
  · have hstate : tableState config (s.trace ++ [.called actionId time tableId action true]) table =
        (Function.update s.engines tableId (some engine') table).map (·.machine.state) := by
      rw [Pokerhub.tableState_eq, tableEngine_concat, hgame, Option.map_map]
      rfl
    refine hstate.trans ?_
    by_cases htable : table = tableId
    · subst htable
      simp only [Gateway.setState, Function.update_self, Option.some.injEq] at hheld ⊢
      rw [Option.map_some, ← hheld]
    · simp only [Gateway.setState, Function.update_of_ne htable] at hheld
      rw [Function.update_of_ne htable, ← h.tableState_eq]
      exact h.one.kept table held hheld

/-- A frame with the state of the session's engine. -/
lemma OneEngineInv.publish (h : OneEngineInv config s ls) {engine : GameEngine}
    (hengine : s.engines tableId = some engine) (playerId : Option PlayerId) (now tick : ℕ) :
    OneEngineInv config
      (s.publish tableId (sanitize engine.machine.state playerId now) tick) ls := by
  refine h.pass (.published tableId _ tick) rfl (fun _ => rfl) rfl rfl
    rfl fun table payload tick' heq => ?_
  cases heq
  refine ⟨engine.machine.state, playerId, now, ?_, rfl⟩
  rw [h.tableState_eq, hengine, Option.map_some]

/-- The call of the engine of the session. -/
lemma OneEngineInv.applyAction (h : OneEngineInv config s ((r, l) :: ls)) (clientId : String)
    (actionId : ActionId) (time : ℕ) (wire : WireGameAction) :
    OneEngineInv config (GatewayCmd.execApplyAction config s clientId actionId time wire).2
      ((r, holdNext l (.applyAction clientId actionId time wire)
        (some (GatewayCmd.execApplyAction config s clientId actionId time wire).1)) :: ls) := by
  rw [GatewayCmd.execApplyAction]
  split
  · exact h
  · rename_i engine hengine
    split
    · rename_i err engine' hrun
      obtain rfl := eq_of_run_error hrun
      refine h.pass (.called actionId time wire.tableId wire.action false) rfl
        (fun table => ?_) ?_ rfl rfl fun _ _ _ heq => by cases heq
      · rw [takeEvent, if_neg (by simp)]
      · show Function.update s.engines wire.tableId (some engine') = s.engines
        rw [← hengine, Function.update_eq_self]
    · rename_i state engine' hrun
      obtain ⟨rfl, rfl⟩ := eq_of_run_ok hrun
      have hcalled := h.called hengine wire.action rfl actionId time
      have hpublished := hcalled.publish (Function.update_self _ _ _) wire.action.actingPlayerId
        s.now (s.tick + 1)
      dsimp only
      generalize hlog : ({ s with tick := s.tick + 1 }.setEngine wire.tableId
        (engine.afterAction config.sha256 wire.action)).log
          (.called actionId time wire.tableId wire.action true) = s₁
      obtain ⟨htrace, hengines, hstates, hstored⟩ := @enqueue_eq s₁ config.queueLimit clientId
        (.state (sanitize (engine.afterAction config.sha256 wire.action).machine.state
          wire.action.actingPlayerId s.now) (s.tick + 1))
      refine (hpublished.congr ?_ ?_ ?_ ?_).reach
        ⟨_, ?_, hcalled.one.kept wire.tableId _ (Function.update_self _ _ _)⟩
      · simp only [Gateway.setState, Gateway.publish, Gateway.log, htrace]
        rw [← hlog]
        rfl
      · intro table
        simp only [Gateway.setState, Gateway.publish, Gateway.log, hengines]
        rw [← hlog]
        rfl
      · intro table held hheld
        simp only [Gateway.setState, Gateway.publish, Gateway.log, hstates] at hheld
        rw [← hlog] at hheld
        exact hheld
      · intro table held hheld
        simp only [Gateway.setState, Gateway.publish, Gateway.log, hstored] at hheld
        rw [← hlog] at hheld
        exact hheld
      · simp only [Gateway.setState, Gateway.publish, Gateway.log, htrace]
        rw [← hlog]
        exact prefix_append _ _

/-- A state goes to Redis. -/
lemma OneEngineInv.storeState (h : OneEngineInv config s ((r, l) :: ls)) {held : HeldState}
    (hl : l = .holding tableId held.state ∨ l = .adopting) :
    OneEngineInv config
      { s with storedStates := Function.update s.storedStates tableId (some held) }
      ((r, l) :: ls) where
  engines := h.engines
  one :=
    { published := h.one.published
      kept := h.one.kept
      stored := fun table held' hheld => by
        by_cases htable : table = tableId
        · subst htable
          simp only [Function.update_self, Option.some.injEq] at hheld
          subst hheld
          have hknown := h.stages _ mem_cons_self
          rcases hl with rfl | rfl
          · exact hknown
          · exact hknown.elim
        · simp only [Function.update_of_ne htable] at hheld
          exact h.one.stored table held' hheld }
  stages := h.stages

/-- The session's engine is written, but not its game. -/
lemma OneEngineInv.setEngine (h : OneEngineInv config s ls) {engine engine' : GameEngine}
    (hengine : s.engines tableId = some engine) (hgame : engine'.game = engine.game) :
    OneEngineInv config (s.setEngine tableId engine') ls := by
  refine h.congr rfl (fun table => ?_) (fun _ _ hheld => hheld) fun _ _ hheld => hheld
  by_cases htable : table = tableId
  · subst htable
    simp only [Gateway.setEngine, Function.update_self, hengine, Option.map_some, hgame]
  · simp only [Gateway.setEngine, Function.update_of_ne htable]

/-- A session is started at a table that had none. -/
lemma OneEngineInv.startSession (h : OneEngineInv config s ls) (hnone : s.engines tableId = none)
    (engine : GameEngine) : OneEngineInv config (s.startSession tableId engine) ls := by
  have hgame : ∀ table, (takeEvent config table (tableEngine config s.trace table)
      (.started tableId engine)).map game =
        (Function.update s.engines tableId (some engine) table).map game := by
    intro table
    rw [takeEvent]
    by_cases htable : tableId = table
    · subst htable
      rw [if_pos rfl, Function.update_self]
    · rw [if_neg htable, Function.update_of_ne (Ne.symm htable), h.engines]
  refine h.happen (.started tableId engine) rfl (fun table => ?_)
    (fun table held hheld => ?_) rfl fun _ _ _ heq => by cases heq
  · exact (congrArg (Option.map game) (tableEngine_concat _ _)).trans (hgame table)
  · have hkept := h.one.kept table held hheld
    have htable : table ≠ tableId := by
      rintro rfl
      rw [h.tableState_eq, hnone] at hkept
      cases hkept
    show tableState config (s.trace ++ [.started tableId engine]) table = _
    rw [Pokerhub.tableState_eq, tableEngine_concat, hgame, Function.update_of_ne htable,
      ← h.engines, ← Pokerhub.tableState_eq]
    exact hkept

/-- A command of a handler keeps the invariant. -/
lemma OneEngineInv.call (h : OneEngineInv config s ((r, l) :: ls)) (hrooms : s.RoomsWaiting)
    (hallowed : holdAllowed l c)
    (hidle : FoldsIdle config s (.call r c)) :
    OneEngineInv config (c.exec config s).2
      ((r, holdNext l c (some (c.exec config s).1)) :: ls) := by
  have hadopting : l ≠ .adopting := by
    rintro rfl
    exact h.stages _ mem_cons_self
  cases c with
  | applyAction clientId actionId time wire => exact h.applyAction clientId actionId time wire
  | roomApply playerId tableId =>
    obtain ⟨hrejected, hinv⟩ := h.roomApply hrooms (hidle _ rfl)
    have hanswer : (GatewayCmd.exec config (.roomApply playerId tableId) s).1 = false := hrejected
    rw [hanswer]
    exact hinv
  | adopt tableId state => exact absurd hallowed hadopting
  | broadcast tableId payload tick => exact absurd hallowed hadopting
  | storeState tableId held => exact h.storeState hallowed
  | enqueue clientId event => exact h.enqueue _ _ _
  | sendReplay clientId state => exact h.enqueue _ _ _
  | delState tableId =>
    refine h.congr rfl (fun _ => rfl) (fun _ _ hheld => hheld) fun table held hheld => ?_
    by_cases htable : table = tableId
    · simp [GatewayCmd.exec, htable] at hheld
    · simpa [GatewayCmd.exec, Function.update_of_ne htable] using hheld
  | dropState tableId =>
    refine h.congr rfl (fun _ => rfl) (fun table held hheld => ?_) fun _ _ hheld => hheld
    by_cases htable : table = tableId
    · simp [GatewayCmd.exec, Gateway.setState, htable] at hheld
    · simpa [GatewayCmd.exec, Gateway.setState, Function.update_of_ne htable] using hheld
  | saveHand tableId =>
    simp only [GatewayCmd.exec]
    split
    · exact h
    · rename_i engine hengine
      exact h.setEngine hengine rfl
  | spectate tableId tick =>
    simp only [GatewayCmd.exec]
    split
    · exact h
    · rename_i engine hengine
      rw [getPublicState, sanitize_publicView]
      exact h.publish hengine none s.now tick
  | roomResume tableId clientId since =>
    exact h.pass (.resumed clientId since _) rfl (fun _ => rfl) rfl rfl rfl
      fun _ _ _ heq => by cases heq
  | _ => exact h.congr rfl (fun _ => rfl) (fun _ _ hheld => hheld) fun _ _ hheld => hheld

/-- What happens apart from the handlers keeps it. -/
lemma OneEngineInv.env (h : OneEngineInv config s ls) (henv : Gateway.Env config s s') :
    OneEngineInv config s' ls := by
  cases henv with
  | startSession tableId playerIds seed nonce hasRepo engine hnone =>
    exact h.startSession hnone engine
  | settle tableId engine i ok hengine => exact h.setEngine hengine (game_resume i ok)
  | _ => exact h.congr rfl (fun _ => rfl) (fun _ _ hheld => hheld) fun _ _ hheld => hheld

lemma OneEngineInv.perm {ls' : List (GatewayCall × HoldStage)} (h : OneEngineInv config s ls)
    (hperm : ls ~ ls') : OneEngineInv config s ls' :=
  ⟨h.engines, h.one, fun rl hrl => h.stages rl (hperm.mem_iff.mpr hrl)⟩

lemma OneEngineInv.initial (h : Gateway.Initial config s) : OneEngineInv config s [] := by
  obtain ⟨now, flags, hands, draws, rfl⟩ := h
  refine ⟨fun _ => rfl, ⟨?_, ?_, ?_⟩, forall_mem_nil _⟩
  · intro before tableId payload tick after heq
    simp at heq
  · exact fun _ _ hheld => by cases hheld
  · exact fun _ _ hheld => by cases hheld

end Invariant

/-! ### Runs -/

section Runs

variable {config : GatewayConfig} {P : Pool GatewayCmd.Answer String Unit Gateway GatewayCall}

end Runs

/-- A request that is served to its end, the `i`-th of a run. -/
def served (i : ℕ) (r : GatewayCall) : List (Service.Move Gateway GatewayCall) :=
  .start r :: replicate 30 (.call i)

/-- 30 s later, the time of a timer. -/
def later (P : Pool GatewayCmd.Answer String Unit Gateway GatewayCall) :
    Pool GatewayCmd.Answer String Unit Gateway GatewayCall :=
  ⟨{ P.state with now := P.state.now + 30000 }, P.threads⟩

lemma reachable_later {ok : Gateway → Service.Action GatewayCall GatewayCmd → Prop}
    (hok : ∀ s, ok s .env) {P : Pool GatewayCmd.Answer String Unit Gateway GatewayCall}
    (h : ((gatewayService zeroSeedConfig).within ok).Reachable P) :
    ((gatewayService zeroSeedConfig).within ok).Reachable (later P) :=
  h.tail (a := .env) ⟨hok _, .env (.wait 30000)⟩

/-- A posts the blind. -/
def postedBlind : Pool GatewayCmd.Answer String Unit Gateway GatewayCall :=
  (gatewayService zeroSeedConfig).playAll ⟨twoConnected, []⟩
    (served 0 (playerAction "A" "a1" (.postBlind "A" 1)))

/-- The timer of A comes to its end before the hand has begun. -/
def blindExpired : Pool GatewayCmd.Answer String Unit Gateway GatewayCall :=
  (gatewayService zeroSeedConfig).playAll (later postedBlind) (served 1 (.timeout "A" "t1"))

/-- Two blinds, the deal, and a check of A. -/
def checkedOnce : Pool GatewayCmd.Answer String Unit Gateway GatewayCall :=
  (gatewayService zeroSeedConfig).playAll ⟨twoConnected, []⟩
    (served 0 (playerAction "A" "a1" (.postBlind "A" 1)) ++
      served 1 (playerAction "B" "b1" (.postBlind "B" 1)) ++
      served 2 (playerAction "A" "a2" .next) ++ served 3 (playerAction "A" "a3" (.check "A")))

/-- The timer of A comes to its end before B checks. -/
def checkExpired : Pool GatewayCmd.Answer String Unit Gateway GatewayCall :=
  (gatewayService zeroSeedConfig).playAll (later checkedOnce)
    (served 4 (.timeout "A" "t1") ++ served 5 (playerAction "B" "b2" (.check "B")))

end Pokerhub
