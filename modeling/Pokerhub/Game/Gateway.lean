import Mathlib.Logic.Function.Basic
import Pokerhub.Core.Service
import Pokerhub.Game.RoomWorker
import Pokerhub.Game.Sanitize

/-!
# The gateway

`GameGateway` of `game.gateway.ts`: the handlers of the messages of the sockets, the expiry of the
action timers and the hourly trimming of the action hash, each a program. What a handler does
between two of its awaits is one command or several; all that runs at the same time shares one
`Gateway`, with what the process, Redis and the database hold. A socket sees its own outbound queue.

The retransmission of frames is left out, and with it the acknowledgements of frames. A worker whose
engine throws is gone; its follower has no engine, and it answers neither `apply` nor `replay`.
-/

namespace Pokerhub

open GameEngine List Program

abbrev TableId := String

abbrev ActionId := String

/-! ### Messages -/

/-- A socket with what it brings along. -/
structure GameSocket where
  id : String
  dataPlayerId : Option PlayerId := none
  authPlayerId : Option PlayerId := none
  queryPlayerId : Option PlayerId := none
  dataUserId : Option String := none
  authUserId : Option String := none
  /-- From the proxy header, the handshake or the connection. -/
  ip : String
  deriving DecidableEq

structure WireGameAction where
  tableId : TableId
  action : GameAction
  deriving DecidableEq

inductive SeatEvent where
  | join | buyIn | sitout | rebuy
  deriving DecidableEq

/-- The messages of a socket. A body of another shape than that of an action is `none`. -/
inductive Message where
  | action (actionId : ActionId) (rest : Option WireGameAction)
  | seat (event : SeatEvent) (actionId : ActionId)
  | proof (handId : String)
  | replay
  | resume (tick : Option ℕ)
  deriving DecidableEq

/-- What a socket is sent. -/
inductive ServerEvent where
  | state (payload : GameState) (tick : ℕ)
  | actionAck (actionId : ActionId) (duplicate : Bool)
  | seatAck (event : SeatEvent) (actionId : ActionId) (duplicate : Bool)
  | proof (commitment seed nonce : String)
  | error (message : String)
  deriving DecidableEq

/-- The checks of `GameActionSchema` on the amounts. -/
def GameAction.wellFormed : GameAction → Bool
  | .postBlind _ amount | .bet _ amount | .raise _ amount => 0 < amount
  | .call _ (some amount) => 0 < amount
  | _ => true

/-- `GameActionSchema.parse`. -/
def parseAction (rest : Option WireGameAction) : Option WireGameAction :=
  rest.filter (·.action.wellFormed)

/-- `actingPlayerId`; `next` has no player. -/
def GameAction.actingPlayerId : GameAction → Option PlayerId
  | .postBlind id _ | .bet id _ | .raise id _ | .call id _ | .check id | .fold id =>
    if id = "" then none else some id
  | .next => none

/-- The player for whom a socket speaks. -/
def GameSocket.playerId (client : GameSocket) : Option PlayerId :=
  ((client.dataPlayerId.or client.authPlayerId).or client.queryPlayerId).filter (· ≠ "")

def globalActionCounterKey : String := "game:action_counter:global"

def getRateLimitKey (client : GameSocket) : String :=
  "game:action_counter:" ++
    (((client.dataUserId.or client.authUserId).filter (· ≠ "")).getD client.ip)

def roomFlag (tableId : TableId) (flag : String) : String :=
  "room:" ++ tableId ++ ":" ++ flag

/-! ### The state -/

structure GatewayConfig where
  sha256 : List UInt8 → List UInt8
  /-- The SHA-256 of an action id, in hex. -/
  hashAction : ActionId → String
  queueLimit : ℕ
  globalLimit : ℕ
  actionTimeoutMs : ℕ

/-- 24 h. -/
@[irreducible] def actionRetentionMs : ℕ := 24 * 60 * 60 * 1000

def snapshotInterval : ℕ := 50

structure ActionTimer where
  playerId : PlayerId
  tableId : TableId
  deadline : ℕ
  deriving DecidableEq

/-- A state as the gateway holds it. -/
structure HeldState where
  state : GameStateInternal
  /-- There is a deck in it; what a worker answers has none. -/
  hasDeck : Bool
  deriving DecidableEq

/-- The worker of a room, as long as its engine has not thrown. -/
structure Room where
  worker : RoomWorker
  running : Bool := true

/-- What has happened at the gateway, for the statements about its runs. -/
inductive GatewayEvent where
  /-- A session was started. -/
  | started (tableId : TableId) (engine : GameEngine)
  /-- `engine.applyAction` was called for an action id that was recorded at `time`. -/
  | called (actionId : ActionId) (time : ℕ) (tableId : TableId) (action : GameAction)
      (accepted : Bool)
  /-- The timer of a player came to its end. -/
  | timedOut (playerId : PlayerId) (tableId : TableId)
  /-- A state of a table was put in a frame. -/
  | published (tableId : TableId) (payload : GameState) (tick : ℕ)
  /-- A resume was answered. -/
  | resumed (clientId : String) (tick : ℕ) (states : List (ℕ × GameStateInternal))
  deriving DecidableEq

structure Gateway where
  now : ℕ
  /-- `game:action` in Redis. -/
  actionHash : String → Option ℕ := fun _ => none
  counters : String → ℕ := fun _ => 0
  expiry : String → Option ℕ := fun _ => none
  /-- `game:state` in Redis. -/
  storedStates : TableId → Option HeldState := fun _ => none
  storedTick : Option ℕ := none
  flags : Option (String → Option Bool)
  /-- The table of hands. -/
  hands : Option (String → Option HandRow)
  snapshots : List (TableId × ℕ × HeldState) := []
  engines : TableId → Option GameEngine := fun _ => none
  states : TableId → Option HeldState := fun _ => none
  lastSnapshot : TableId → ℕ := fun _ => 0
  socketPlayers : String → Option PlayerId := fun _ => none
  timers : List ActionTimer := []
  tick : ℕ := 0
  queues : String → List ServerEvent := fun _ => []
  rooms : TableId → Option Room := fun _ => none
  /-- The RNG that the worker of a room draws. -/
  drawn : TableId → HandRNG
  /-- What the sockets were sent. -/
  sent : String → List ServerEvent := fun _ => []
  trace : List GatewayEvent := []

namespace Gateway

open Function

def log (event : GatewayEvent) (s : Gateway) : Gateway :=
  { s with trace := s.trace ++ [event] }

/-- `client.emit`. -/
def emit (clientId : String) (event : ServerEvent) (s : Gateway) : Gateway :=
  { s with sent := update s.sent clientId (s.sent clientId ++ [event]) }

/-- `enqueue`: with the queue full the client is told so at once. -/
def enqueue (queueLimit : ℕ) (clientId : String) (event : ServerEvent) (s : Gateway) : Gateway :=
  if queueLimit ≤ (s.queues clientId).length then s.emit clientId (.error "throttled")
  else { s with queues := update s.queues clientId (s.queues clientId ++ [event]) }

/-- A frame of a table's state. -/
def publish (tableId : TableId) (payload : GameState) (tick : ℕ) (s : Gateway) : Gateway :=
  s.log (.published tableId payload tick)

def setState (tableId : TableId) (state : Option HeldState) (s : Gateway) : Gateway :=
  { s with states := update s.states tableId state }

def setEngine (tableId : TableId) (engine : GameEngine) (s : Gateway) : Gateway :=
  { s with engines := update s.engines tableId (some engine) }

/-- `RoomManager.get`; a worker starts with the two default players. -/
def room (tableId : TableId) (s : Gateway) : Room :=
  (s.rooms tableId).getD
    { worker := { engine := .create ["p1", "p2"] 100 (s.drawn tableId) false false } }

def setRoom (tableId : TableId) (room : Room) (s : Gateway) : Gateway :=
  { s with rooms := update s.rooms tableId (some room) }

end Gateway

/-! ### Commands -/

/-- How the call of `engine.applyAction` ended. -/
inductive ActionResult where
  | notStarted
  | rejected (message : String)
  | applied (state : GameStateInternal) (tick : ℕ)
  deriving DecidableEq

inductive GatewayCmd where
  | incr (key : String)
  | expire (key : String)
  | hget (actionId : ActionId)
  | hset (actionId : ActionId) (time : ℕ)
  | clock
  | hgetall
  | hdel (fields : String → Bool)
  | getFlag (key : String)
  | storeState (tableId : TableId) (state : HeldState)
  | storeTick
  | delState (tableId : TableId)
  | saveSnapshot (tableId : TableId) (tick : ℕ) (state : HeldState)
  | saveHand (tableId : TableId)
  | findHand (handId : String)
  | boundPlayer (clientId : String)
  | enqueue (clientId : String) (event : ServerEvent)
  | emit (clientId : String) (event : ServerEvent)
  | clearTimer (playerId : PlayerId) (tableId : TableId)
  | setTimer (playerId : PlayerId) (tableId : TableId)
  /-- From `engines.get` up to the first write to Redis. -/
  | applyAction (clientId : String) (actionId : ActionId) (time : ℕ) (wire : WireGameAction)
  | snapshotDue (tableId : TableId)
  | noteSnapshot (tableId : TableId)
  /-- The frame for the spectators. -/
  | spectate (tableId : TableId) (tick : ℕ)
  | dropState (tableId : TableId)
  | roomReplay (tableId : TableId)
  | sendReplay (clientId : String) (state : GameStateInternal)
  | roomResume (tableId : TableId) (clientId : String) (since : ℕ)
  | roomApply (playerId : PlayerId) (tableId : TableId)
  | roomState (tableId : TableId)
  /-- The payload with `++this.tick`, and the state goes to the map. -/
  | adopt (tableId : TableId) (state : GameStateInternal)
  /-- The frame for the room of the table. -/
  | broadcast (tableId : TableId) (payload : GameState) (tick : ℕ)

namespace GatewayCmd

abbrev Answer : GatewayCmd → Type
  | incr _ => ℕ × ℕ
  | hget _ => Option ℕ × ℕ
  | clock => ℕ
  | hgetall => String → Option ℕ
  | getFlag _ => Option Bool
  | findHand _ => Option HandRow
  | boundPlayer _ => Option PlayerId
  | applyAction .. => ActionResult
  | snapshotDue _ => Option ℕ
  | roomReplay _ | roomState _ => Option GameStateInternal
  | roomResume .. => List (ℕ × GameStateInternal)
  | roomApply .. => Bool
  | adopt .. => GameState × ℕ
  | _ => Unit

/-- The commands on Redis, the database and the workers; they may fail. -/
def External : GatewayCmd → Bool
  | incr _ | expire _ | hget _ | hset _ _ | hgetall | hdel _ | getFlag _ | storeState _ _
  | storeTick | delState _ | saveSnapshot .. | saveHand _ | findHand _ | roomReplay _
  | roomResume .. | roomApply .. | roomState _ => true
  | _ => false

open Function Gateway

section Exec

variable (config : GatewayConfig) (s : Gateway)

/-- The call of `engine.applyAction`, and what follows it up to the first await. -/
def execApplyAction (clientId : String) (actionId : ActionId) (time : ℕ) (wire : WireGameAction) :
    ActionResult × Gateway :=
  match s.engines wire.tableId with
  | none => (.notStarted, s)
  | some engine =>
    match (GameEngine.applyAction config.sha256 wire.action).run engine with
    | .error err engine' =>
      (.rejected err.message,
        (s.setEngine wire.tableId engine').log (.called actionId time wire.tableId wire.action false))
    | .ok state engine' =>
      let tick := s.tick + 1
      let safe := sanitize state wire.action.actingPlayerId s.now
      (.applied state tick,
        (((({ s with tick := tick }.setEngine wire.tableId engine').log
          (.called actionId time wire.tableId wire.action true)).enqueue config.queueLimit clientId
            (.state safe tick)).publish wire.tableId safe tick).setState wire.tableId
              (some ⟨state, true⟩))

/-- The worker of a room handles an `apply` message up to its first await. -/
def execRoomApply (playerId : PlayerId) (tableId : TableId) : Bool × Gateway :=
  let s := s.log (.timedOut playerId tableId)
  let room := s.room tableId
  if room.running then
    match (GameEngine.applyAction config.sha256 (.fold playerId)).run room.worker.engine with
    | .error _ _ => (false, s.setRoom tableId { room with running := false })
    | .ok _ _ =>
      (true,
        s.setRoom tableId { room with worker := room.worker.apply config.sha256 (.fold playerId) })
  else (false, s)

def exec : (c : GatewayCmd) → Gateway → c.Answer × Gateway
  | incr key, s =>
    let counters := update s.counters key (s.counters key + 1)
    let global := counters globalActionCounterKey + 1
    ((counters key, global), { s with counters := update counters globalActionCounterKey global })
  | expire key, s => ((), { s with expiry := update s.expiry key (some (s.now + 10 * 1000)) })
  | hget actionId, s => ((s.actionHash (config.hashAction actionId), s.now), s)
  | hset actionId time, s =>
    ((), { s with actionHash := update s.actionHash (config.hashAction actionId) (some time) })
  | clock, s => (s.now, s)
  | hgetall, s => (s.actionHash, s)
  | hdel fields, s =>
    ((), { s with actionHash := fun field => if fields field then none else s.actionHash field })
  | getFlag key, s => (s.flags.bind (· key), s)
  | storeState tableId state, s =>
    ((), { s with storedStates := update s.storedStates tableId (some state) })
  | storeTick, s => ((), { s with storedTick := some s.tick })
  | delState tableId, s => ((), { s with storedStates := update s.storedStates tableId none })
  | saveSnapshot tableId tick state, s =>
    ((), { s with snapshots := s.snapshots ++ [(tableId, tick, state)] })
  | saveHand tableId, s =>
    match s.engines tableId with
    | none => ((), s)
    | some engine =>
      ((), s.setEngine tableId
        { engine with
          handRow := engine.handRow.map fun row => { row with log := engine.log.entries } })
  | findHand handId, s => (s.hands.bind (· handId), s)
  | boundPlayer clientId, s => (s.socketPlayers clientId, s)
  | .enqueue clientId event, s => ((), s.enqueue config.queueLimit clientId event)
  | .emit clientId event, s => ((), s.emit clientId event)
  | clearTimer playerId tableId, s =>
    ((), { s with
      timers := s.timers.filter fun t => ¬ (t.playerId = playerId ∧ t.tableId = tableId) })
  | setTimer playerId tableId, s =>
    ((), { s with
      timers := (s.timers.filter fun t => ¬ (t.playerId = playerId ∧ t.tableId = tableId)) ++
        [⟨playerId, tableId, s.now + config.actionTimeoutMs⟩] })
  | applyAction clientId actionId time wire, s =>
    execApplyAction config s clientId actionId time wire
  | snapshotDue tableId, s =>
    (if snapshotInterval ≤ s.tick - s.lastSnapshot tableId then some s.tick else none, s)
  | noteSnapshot tableId, s => ((), { s with lastSnapshot := update s.lastSnapshot tableId s.tick })
  | spectate tableId tick, s =>
    match s.engines tableId with
    | none => ((), s)
    | some engine => ((), s.publish tableId (sanitize engine.getPublicState none s.now) tick)
  | dropState tableId, s => ((), s.setState tableId none)
  | roomReplay tableId, s =>
    let room := s.room tableId
    (if room.running then some room.worker.engine.getPublicState else none, s.setRoom tableId room)
  | sendReplay clientId state, s =>
    ((), s.enqueue config.queueLimit clientId (.state (sanitize state none s.now) s.tick))
  | roomResume tableId clientId since, s =>
    let room := s.room tableId
    let states :=
      if room.running then
        (room.worker.engine.log.entries.filter fun entry => since ≤ entry.index).map fun entry =>
          (entry.index, entry.postState)
      else []
    (states, (s.setRoom tableId room).log (.resumed clientId since states))
  | roomApply playerId tableId, s => execRoomApply config s playerId tableId
  | roomState tableId, s =>
    let room := s.room tableId
    (if room.running then some room.worker.engine.getPublicState else none, s)
  | adopt tableId state, s =>
    ((sanitize state none s.now, s.tick + 1),
      { s with tick := s.tick + 1 }.setState tableId (some ⟨state, false⟩))
  | broadcast tableId payload tick, s => ((), s.publish tableId payload tick)

end Exec

end GatewayCmd

/-! ### The handlers -/

/-- A handler returns, or it throws. -/
abbrev GatewayM := Program GatewayCmd.Answer String

/-- One command. -/
def gatewayRun (c : GatewayCmd) : GatewayM c.Answer :=
  Program.command "command failed" c

/-- `if (cond) { await p }` -/
def gatewayIf (cond : Bool) (p : GatewayM Unit) : GatewayM Unit :=
  if cond then p else pure ()

namespace GatewayConfig

variable (config : GatewayConfig)

/-- An entry of the action hash that still counts. -/
def fresh (existing : Option ℕ) (now : ℕ) : Bool :=
  existing.any fun time => now - time < actionRetentionMs

def isRateLimited (client : GameSocket) : GatewayM Bool := do
  let (count, global) ← gatewayRun (.incr (getRateLimitKey client))
  gatewayIf (count = 1) (gatewayRun (.expire (getRateLimitKey client)))
  gatewayIf (global = 1) (gatewayRun (.expire globalActionCounterKey))
  if config.globalLimit < global then
    gatewayRun (.enqueue client.id (.error "rate limit exceeded"))
    return true
  else if 30 < count then
    gatewayRun (.emit client.id (.error "rate limit exceeded"))
    return true
  else return false

/-- A refusal of an action: the error and the acknowledgement. -/
def refuse (client : GameSocket) (actionId : ActionId) (message : String) : GatewayM Unit := do
  gatewayRun (.enqueue client.id (.error message))
  gatewayRun (.enqueue client.id (.actionAck actionId false))

/-- The flag is off, for all or for the table. -/
def flagOff (tableId : TableId) (flag : String) : GatewayM Bool := do
  let all : Option Bool ← gatewayRun (.getFlag flag)
  if all = some false then return true
  else
    let room : Option Bool ← gatewayRun (.getFlag (roomFlag tableId flag))
    return room == some false

def maybeSnapshot (tableId : TableId) (state : HeldState) : GatewayM Unit := do
  match ← gatewayRun (.snapshotDue tableId) with
  | none => return
  | some tick =>
    gatewayRun (.saveSnapshot tableId tick state)
    gatewayRun (.noteSnapshot tableId)

/-- `setTimer` for the player who has acted, if there is one. -/
def restartTimer (acting : Option PlayerId) (tableId : TableId) : GatewayM Unit :=
  match acting with
  | none => pure ()
  | some playerId => gatewayRun (.setTimer playerId tableId)

def stopTimer (acting : Option PlayerId) (tableId : TableId) : GatewayM Unit :=
  match acting with
  | none => pure ()
  | some playerId => gatewayRun (.clearTimer playerId tableId)

/-- The end of a hand takes its state away. -/
def dropHand (tableId : TableId) : GatewayM Unit := do
  gatewayRun (.dropState tableId)
  gatewayRun (.delState tableId)

/-- `handleAction` after `engine.applyAction`. -/
def finishAction (client : GameSocket) (actionId : ActionId) (wire : WireGameAction)
    (state : GameStateInternal) (tick : ℕ) : GatewayM Unit := do
  gatewayRun (.storeState wire.tableId ⟨state, true⟩)
  gatewayRun .storeTick
  maybeSnapshot wire.tableId ⟨state, true⟩
  gatewayIf (state.phase = .nextHand) (gatewayRun (.saveHand wire.tableId))
  gatewayRun (.spectate wire.tableId tick)
  gatewayRun (.enqueue client.id (.actionAck actionId false))
  if state.phase = .nextHand then dropHand wire.tableId
  else restartTimer wire.action.actingPlayerId wire.tableId

/-- `handleAction` once the action id is recorded. -/
def playAction (client : GameSocket) (actionId : ActionId) (time : ℕ) (wire : WireGameAction) :
    GatewayM Unit := do
  stopTimer wire.action.actingPlayerId wire.tableId
  if ← flagOff wire.tableId "dealing" then refuse client actionId "dealing disabled"
  else if ← flagOff wire.tableId "settlement" then refuse client actionId "settlement disabled"
  else
    match ← gatewayRun (.applyAction client.id actionId time wire) with
    | .notStarted => refuse client actionId "engine not started"
    | .rejected message => refuse client actionId message
    | .applied state tick => finishAction client actionId wire state tick

/-- `handleAction` from the check for duplicates on. -/
def deduplicate (client : GameSocket) (actionId : ActionId) (wire : WireGameAction) :
    GatewayM Unit := do
  let (existing, now) ← gatewayRun (.hget actionId)
  if fresh existing now then gatewayRun (.enqueue client.id (.actionAck actionId true))
  else
    gatewayRun (.hset actionId now)
    playAction client actionId now wire

def handleAction (client : GameSocket) (actionId : ActionId) (rest : Option WireGameAction) :
    GatewayM Unit := do
  if ← config.isRateLimited client then return
  else
    match parseAction rest with
    | none =>
      gatewayRun (.enqueue client.id (.actionAck actionId false))
      throw "invalid action"
    | some wire =>
      let expected : Option PlayerId ← gatewayRun (.boundPlayer client.id)
      if wire.action.actingPlayerId.isSome ∧ wire.action.actingPlayerId ≠ expected then
        refuse client actionId "player mismatch"
      else deduplicate client actionId wire

def acknowledge (client : GameSocket) (event : SeatEvent) (actionId : ActionId) :
    GatewayM Unit := do
  let (existing, now) ← gatewayRun (.hget actionId)
  if fresh existing now then gatewayRun (.enqueue client.id (.seatAck event actionId true))
  else
    gatewayRun (.enqueue client.id (.seatAck event actionId false))
    gatewayRun (.hset actionId now)

/-- `handleJoin`, `handleBuyIn`, `handleSitout` and `handleRebuy`. -/
def handleSeat (client : GameSocket) (event : SeatEvent) (actionId : ActionId) :
    GatewayM Unit := do
  if ← config.isRateLimited client then return
  else acknowledge client event actionId

def handleProof (client : GameSocket) (handId : String) : GatewayM Unit := do
  if ← config.isRateLimited client then return
  else
    match ← gatewayRun (.findHand handId) with
    | some ⟨_, commitment, some seed, some nonce, _⟩ =>
      if seed = "" ∨ nonce = "" then
        gatewayRun (.enqueue client.id (.error "proof unavailable"))
      else gatewayRun (.enqueue client.id (.proof commitment seed nonce))
    | _ => gatewayRun (.enqueue client.id (.error "proof unavailable"))

def handleReplay (client : GameSocket) : GatewayM Unit := do
  if ← flagOff "default" "dealing" then
    gatewayRun (.enqueue client.id (.error "dealing disabled"))
  else
    match ← gatewayRun (.roomReplay "default") with
    | none => throw "no state"
    | some state => gatewayRun (.sendReplay client.id state)

def handleResume (client : GameSocket) (tick : Option ℕ) : GatewayM Unit := do
  if ← flagOff "default" "dealing" then
    gatewayRun (.enqueue client.id (.error "dealing disabled"))
  else
    let states ← gatewayRun (.roomResume "default" client.id (tick.getD 0))
    -- the time of the frames is that of the answer
    let now ← gatewayRun .clock
    Program.forEach
      (fun x : ℕ × GameStateInternal =>
        gatewayRun (.enqueue client.id (.state (sanitize x.2 none now) (x.1 + 1)))) states

def handleTimeout (playerId : PlayerId) (tableId : TableId) : GatewayM Unit := do
  gatewayRun (.clearTimer playerId tableId)
  let applied : Bool ← gatewayRun (.roomApply playerId tableId)
  if applied then
    match ← gatewayRun (.roomState tableId) with
    | none => throw "worker exited"
    | some state =>
      let (payload, tick) ← gatewayRun (.adopt tableId state)
      gatewayRun (.storeState tableId ⟨state, false⟩)
      gatewayRun .storeTick
      maybeSnapshot tableId ⟨state, false⟩
      gatewayRun (.broadcast tableId payload tick)
      gatewayIf (state.phase = .nextHand) (dropHand tableId)
  else throw "worker error"

def trimActionHashes : GatewayM Unit := do
  let now : ℕ ← gatewayRun .clock
  let entries : String → Option ℕ ← gatewayRun .hgetall
  gatewayRun (.hdel fun field => (entries field).any fun time => decide (time + actionRetentionMs < now))

end GatewayConfig

/-! ### What the handlers have in common -/

/-- The commands apart from those on the action hash and those on the states of the tables. -/
def GatewayCmd.Common : GatewayCmd → Bool
  | .incr _ | .expire _ | .getFlag _ | .findHand _ | .boundPlayer _ | .clearTimer _ _
  | .setTimer _ _ | .snapshotDue _ | .saveSnapshot _ _ _ | .noteSnapshot _
  | .enqueue _ (.error _) | .enqueue _ (.actionAck _ false) | .enqueue _ (.proof _ _ _)
  | .emit _ (.error _) => true
  | _ => false

section Common

open GatewayConfig

variable {config : GatewayConfig} {client : GameSocket} {actionId : ActionId} {tableId : TableId}

lemma uses_gatewayIf {K : GatewayCmd → Prop} {cond : Bool} {p : GatewayM Unit} (hp : p.Uses K) :
    (gatewayIf cond p).Uses K := by
  cases cond with
  | false => trivial
  | true => exact hp

lemma uses_gatewayRun {K : GatewayCmd → Prop} {c : GatewayCmd} (hc : K c) :
    (gatewayRun c).Uses K :=
  (uses_command "command failed" c).mpr hc

lemma uses_gatewayRun_bind {K : GatewayCmd → Prop} {α : Type} {c : GatewayCmd}
    {f : c.Answer → GatewayM α} (hc : K c) (hf : ∀ a, (f a).Uses K) :
    (gatewayRun c >>= f).Uses K :=
  (uses_gatewayRun hc).bind hf

lemma uses_common {c : GatewayCmd} (hc : c.Common) : (gatewayRun c).Uses (·.Common) :=
  uses_gatewayRun hc

lemma uses_common_bind {α : Type} {c : GatewayCmd} {f : c.Answer → GatewayM α} (hc : c.Common)
    (hf : ∀ a, (f a).Uses (·.Common)) : (gatewayRun c >>= f).Uses (·.Common) :=
  uses_gatewayRun_bind hc hf

lemma uses_isRateLimited : (config.isRateLimited client).Uses (·.Common) := by
  refine uses_common_bind rfl ?_
  rintro ⟨count, global⟩
  apply (uses_gatewayIf (uses_common rfl)).bind
  intro _
  apply (uses_gatewayIf (uses_common rfl)).bind
  intro _
  split_ifs
  · exact uses_common_bind rfl fun _ => trivial
  · exact uses_common_bind rfl fun _ => trivial
  · trivial

lemma uses_refuse (message : String) : (refuse client actionId message).Uses (·.Common) :=
  uses_common_bind rfl fun _ => uses_common rfl

lemma uses_flagOff (flag : String) : (flagOff tableId flag).Uses (·.Common) := by
  refine uses_common_bind rfl ?_
  intro all
  split_ifs
  · trivial
  · exact uses_common_bind rfl fun _ => trivial

lemma uses_maybeSnapshot (state : HeldState) : (maybeSnapshot tableId state).Uses (·.Common) := by
  refine uses_common_bind rfl ?_
  rintro (_ | tick)
  · trivial
  · exact uses_common_bind rfl fun _ => uses_common rfl

lemma uses_restartTimer (acting : Option PlayerId) :
    (restartTimer acting tableId).Uses (·.Common) := by
  cases acting with
  | none => trivial
  | some playerId => exact uses_common rfl

lemma uses_stopTimer (acting : Option PlayerId) : (stopTimer acting tableId).Uses (·.Common) := by
  cases acting with
  | none => trivial
  | some playerId => exact uses_common rfl

lemma uses_handleProof (handId : String) : (config.handleProof client handId).Uses (·.Common) := by
  apply uses_isRateLimited.bind
  intro limited
  split_ifs
  · trivial
  · refine uses_common_bind rfl ?_
    intro hand
    split
    · split_ifs
      · exact uses_common rfl
      · exact uses_common rfl
    · exact uses_common rfl

end Common

/-- What is served: a message, the end of a timer, the hourly trimming. -/
inductive GatewayCall where
  | message (client : GameSocket) (message : Message)
  | timeout (playerId : PlayerId) (tableId : TableId)
  | trim
  deriving DecidableEq

def GatewayCall.body (config : GatewayConfig) : GatewayCall → GatewayM Unit
  | message client (.action actionId rest) => config.handleAction client actionId rest
  | message client (.seat event actionId) => config.handleSeat client event actionId
  | message client (.proof handId) => config.handleProof client handId
  | message client .replay => GatewayConfig.handleReplay client
  | message client (.resume tick) => GatewayConfig.handleResume client tick
  | timeout playerId tableId => GatewayConfig.handleTimeout playerId tableId
  | trim => GatewayConfig.trimActionHashes

/-! ### What a call may command -/

/-- The commands that follow an accepted action. -/
def GatewayCmd.Finishes (c : GatewayCmd) : Bool :=
  c.Common || match c with
  | .storeState _ _ | .storeTick | .saveHand _ | .spectate _ _ | .dropState _ | .delState _ => true
  | _ => false

/-- The calls that may apply an action. -/
def GatewayCall.Applies : GatewayCall → Bool
  | .message _ (.action _ _) | .timeout _ _ => true
  | _ => false

/-- The commands a call may issue. -/
def GatewayCall.Issues (r : GatewayCall) (c : GatewayCmd) : Bool :=
  c.Common || r.Applies && c.Finishes || match r, c with
  | .message _ (.action _ _), .hget _ | .message _ (.action _ _), .hset _ _
  | .message _ (.action _ _), .applyAction _ _ _ _
  | .message _ (.action _ _), .enqueue _ (.actionAck _ _)
  | .message _ (.seat _ _), .hget _ | .message _ (.seat _ _), .hset _ _
  | .message _ (.seat _ _), .enqueue _ (.seatAck _ _ _)
  | .message _ .replay, .roomReplay _ | .message _ .replay, .sendReplay _ _
  | .message _ (.resume _), .roomResume _ _ _ | .message _ (.resume _), .clock
  | .message _ (.resume _), .enqueue _ (.state _ _)
  | .timeout _ _, .roomApply _ _ | .timeout _ _, .roomState _ | .timeout _ _, .adopt _ _
  | .timeout _ _, .broadcast _ _ _ | .trim, .clock | .trim, .hgetall | .trim, .hdel _ => true
  | _, _ => false

section Issues

open GatewayConfig

variable {config : GatewayConfig} {client : GameSocket} {actionId : ActionId} {tableId : TableId}
  {α : Type} {r : GatewayCall}

lemma uses_finishes {c : GatewayCmd} (hc : c.Finishes) : (gatewayRun c).Uses (·.Finishes) :=
  uses_gatewayRun hc

lemma uses_finishes_bind {c : GatewayCmd} {f : c.Answer → GatewayM α} (hc : c.Finishes)
    (hf : ∀ a, (f a).Uses (·.Finishes)) : (gatewayRun c >>= f).Uses (·.Finishes) :=
  uses_gatewayRun_bind hc hf

lemma uses_finishes_of_common {p : GatewayM α} (h : p.Uses (·.Common)) :
    p.Uses (·.Finishes) :=
  h.mono fun _ hc => Bool.or_eq_true_iff.mpr (Or.inl hc)

lemma uses_dropHand : (dropHand tableId).Uses (·.Finishes) :=
  uses_finishes_bind rfl fun _ => uses_finishes rfl

lemma uses_finishAction (wire : WireGameAction) (state : GameStateInternal) (tick : ℕ) :
    (finishAction client actionId wire state tick).Uses (·.Finishes) := by
  refine uses_finishes_bind rfl fun _ => uses_finishes_bind rfl fun _ => ?_
  refine (uses_finishes_of_common (uses_maybeSnapshot _)).bind fun _ => ?_
  refine (uses_gatewayIf (uses_finishes rfl)).bind fun _ => ?_
  refine uses_finishes_bind rfl fun _ => uses_finishes_bind rfl fun _ => ?_
  split_ifs
  · exact uses_dropHand
  · exact uses_finishes_of_common (uses_restartTimer _)

lemma uses_issues {c : GatewayCmd} (hc : r.Issues c) : (gatewayRun c).Uses (r.Issues ·) :=
  uses_gatewayRun hc

lemma uses_issues_bind {c : GatewayCmd} {f : c.Answer → GatewayM α} (hc : r.Issues c)
    (hf : ∀ a, (f a).Uses (r.Issues ·)) : (gatewayRun c >>= f).Uses (r.Issues ·) :=
  uses_gatewayRun_bind hc hf

lemma uses_issues_of_common {p : GatewayM α} (h : p.Uses (·.Common)) : p.Uses (r.Issues ·) :=
  h.mono fun _ hc => by simp [GatewayCall.Issues, hc]

lemma uses_issues_of_finishes {p : GatewayM α} (hr : r.Applies) (h : p.Uses (·.Finishes)) :
    p.Uses (r.Issues ·) :=
  h.mono fun _ hc => by simp [GatewayCall.Issues, hr, hc]

lemma uses_playAction (wire : WireGameAction) (time : ℕ) {rest : Option WireGameAction} :
    (playAction client actionId time wire).Uses
      (GatewayCall.Issues (.message client (.action actionId rest)) ·) := by
  refine (uses_issues_of_common (uses_stopTimer _)).bind fun _ => ?_
  refine (uses_issues_of_common (uses_flagOff _)).bind fun dealing => ?_
  split_ifs
  · exact uses_issues_of_common (uses_refuse _)
  · refine (uses_issues_of_common (uses_flagOff _)).bind fun settlement => ?_
    split_ifs
    · exact uses_issues_of_common (uses_refuse _)
    · refine uses_issues_bind rfl ?_
      rintro (_ | message | ⟨state, tick⟩)
      · exact uses_issues_of_common (uses_refuse _)
      · exact uses_issues_of_common (uses_refuse _)
      · exact uses_issues_of_finishes rfl (uses_finishAction wire state tick)

/-- The commands of a call. -/
lemma uses_body (r : GatewayCall) : (r.body config).Uses (r.Issues ·) := by
  cases r with
  | timeout playerId tableId =>
    refine uses_issues_bind rfl fun _ => uses_issues_bind rfl fun applied => ?_
    split_ifs
    · refine uses_issues_bind rfl ?_
      rintro (_ | state)
      · trivial
      · refine uses_issues_bind rfl ?_
        rintro ⟨payload, tick⟩
        refine uses_issues_bind rfl fun _ => uses_issues_bind rfl fun _ => ?_
        refine (uses_issues_of_common (uses_maybeSnapshot _)).bind fun _ => ?_
        refine uses_issues_bind rfl fun _ => ?_
        exact uses_gatewayIf (uses_issues_of_finishes rfl uses_dropHand)
    · trivial
  | trim =>
    exact uses_issues_bind rfl fun _ => uses_issues_bind rfl fun _ => uses_issues rfl
  | message client message =>
    cases message with
    | action actionId rest =>
      refine (uses_issues_of_common uses_isRateLimited).bind fun limited => ?_
      split_ifs
      · trivial
      · cases parseAction rest with
        | none => exact uses_issues_bind rfl fun _ => trivial
        | some wire =>
          refine uses_issues_bind rfl fun expected => ?_
          split_ifs
          · exact uses_issues_of_common (uses_refuse _)
          · refine uses_issues_bind rfl ?_
            rintro ⟨existing, now⟩
            dsimp only
            split_ifs
            · exact uses_issues rfl
            · exact uses_issues_bind rfl fun _ => uses_playAction wire now
    | seat event actionId =>
      refine (uses_issues_of_common uses_isRateLimited).bind fun limited => ?_
      split_ifs
      · trivial
      · refine uses_issues_bind rfl ?_
        rintro ⟨existing, now⟩
        dsimp only
        split_ifs
        · exact uses_issues rfl
        · exact uses_issues_bind rfl fun _ => uses_issues rfl
    | proof handId => exact uses_issues_of_common (uses_handleProof handId)
    | replay =>
      refine (uses_issues_of_common (uses_flagOff _)).bind fun off => ?_
      split_ifs
      · exact uses_issues rfl
      · refine uses_issues_bind rfl ?_
        rintro (_ | state)
        · trivial
        · exact uses_issues rfl
    | resume tick =>
      refine (uses_issues_of_common (uses_flagOff _)).bind fun off => ?_
      split_ifs
      · exact uses_issues rfl
      · refine uses_issues_bind rfl fun states => uses_issues_bind rfl fun now => ?_
        exact uses_forEach fun _ _ => uses_issues rfl

end Issues

/-! ### The service -/

namespace Gateway

open Function

def startSession (tableId : TableId) (engine : GameEngine) (s : Gateway) : Gateway :=
  (s.setEngine tableId engine).log (.started tableId engine)

/-- `handleConnection`. -/
def connect (config : GatewayConfig) (client : GameSocket) (s : Gateway) : Gateway :=
  { s with
    socketPlayers :=
      match client.playerId with
      | none => s.socketPlayers
      | some playerId => update s.socketPlayers client.id (some playerId)
    timers :=
      (s.timers.filter fun t => ¬ (t.playerId = client.id ∧ t.tableId = "default")) ++
        [⟨client.id, "default", s.now + config.actionTimeoutMs⟩] }

/-- `handleDisconnect`. -/
def disconnect (client : GameSocket) (s : Gateway) : Gateway :=
  { s with
    socketPlayers := update s.socketPlayers client.id none
    timers := s.timers.filter fun t => ¬ (t.playerId = client.id ∧ t.tableId = "default")
    queues := update s.queues client.id [] }

/-- What happens apart from the handlers. -/
inductive Env (config : GatewayConfig) (s : Gateway) : Gateway → Prop
  | wait (ms : ℕ) : Env config s { s with now := s.now + ms }
  /-- A counter comes to the end of its 10 s. -/
  | forget (key : String) (h : ∃ t ∈ s.expiry key, t ≤ s.now) :
    Env config s
      { s with counters := update s.counters key 0, expiry := update s.expiry key none }
  | setFlags (flags : Option (String → Option Bool)) : Env config s { s with flags := flags }
  | setHands (hands : Option (String → Option HandRow)) : Env config s { s with hands := hands }
  /-- `startSession`, once for a table. -/
  | startSession (tableId : TableId) (playerIds : List PlayerId) (seed nonce : List UInt8)
      (hasRepo : Bool) (engine : GameEngine) (h : s.engines tableId = none)
      (hengine : engine =
        .create playerIds 100 (.create config.sha256 seed nonce) false hasRepo) :
    Env config s (s.startSession tableId engine)
  /-- A settlement of an engine goes on. -/
  | settle (tableId : TableId) (engine : GameEngine) (i : ℕ) (ok : Bool)
      (h : s.engines tableId = some engine) :
    Env config s (s.setEngine tableId (engine.resume config.sha256 i ok))
  | connect (client : GameSocket) : Env config s (s.connect config client)
  | disconnect (client : GameSocket) : Env config s (s.disconnect client)
  /-- The queue of a socket sends its next event. -/
  | deliver (clientId : String) (event : ServerEvent) (rest : List ServerEvent)
      (h : s.queues clientId = event :: rest) :
    Env config s ({ s with queues := update s.queues clientId rest }.emit clientId event)
  /-- A worker goes on with what it waits for. -/
  | roomProceed (tableId : TableId) (room : Room) (i : ℕ) (enabled : Bool)
      (h : s.rooms tableId = some room) :
    Env config s
      (s.setRoom tableId { room with worker := room.worker.proceed config.sha256 i enabled })

/-- A gateway that has just started, with empty stores. -/
def Initial (config : GatewayConfig) (s : Gateway) : Prop :=
  ∃ now flags hands, ∃ draws : TableId → List UInt8 × List UInt8,
    s = { now := now, flags := flags, hands := hands
          drawn := fun tableId => .create config.sha256 (draws tableId).1 (draws tableId).2 }

end Gateway

/-- The gateway. A timer ends at its deadline, everything else may come at any time. -/
def gatewayService (config : GatewayConfig) :
    Service GatewayCmd.Answer String Unit Gateway GatewayCall where
  init := Gateway.Initial config
  ready s
    | .timeout playerId tableId =>
      ∃ t ∈ s.timers, t.playerId = playerId ∧ t.tableId = tableId ∧ t.deadline ≤ s.now
    | _ => True
  body := GatewayCall.body config
  exec _ c s := c.exec config s
  fails _ c := c.External
  env := Gateway.Env config

instance (config : GatewayConfig) (s : Gateway) (r : GatewayCall) :
    Decidable ((gatewayService config).ready s r) :=
  match r with
  | .timeout playerId tableId =>
    inferInstanceAs (Decidable
      (∃ t ∈ s.timers, t.playerId = playerId ∧ t.tableId = tableId ∧ t.deadline ≤ s.now))
  | .message _ _ => isTrue trivial
  | .trim => isTrue trivial

instance (config : GatewayConfig) (s : Gateway) (c : GatewayCmd) :
    Decidable ((gatewayService config).fails s c) :=
  inferInstanceAs (Decidable (c.External = true))

/-! ### A table for two -/

def zeroSeedConfig : GatewayConfig where
  sha256 := zeroSeedHash
  hashAction actionId := actionId
  queueLimit := 100
  globalLimit := 30
  actionTimeoutMs := 30000

def socketOf (playerId : PlayerId) : GameSocket where
  id := "socket-" ++ playerId
  dataPlayerId := some playerId
  ip := playerId

/-- A session of two players, both of them connected. -/
def twoConnected : Gateway :=
  ((({ now := 0, flags := none, hands := none
       drawn := fun _ => .create zeroSeedHash zeroSeed zeroNonce } : Gateway).startSession "t1"
    (.create ["A", "B"] 100 (.create zeroSeedHash zeroSeed zeroNonce) false false)).connect
      zeroSeedConfig (socketOf "A")).connect zeroSeedConfig (socketOf "B")

lemma reachable_twoConnected {ok : Pool GatewayCmd.Answer String Unit Gateway GatewayCall →
      Service.Action GatewayCall GatewayCmd → Prop} (hok : ∀ P, ok P .env) :
    ((gatewayService zeroSeedConfig).system.restrict ok).Reachable ⟨twoConnected, []⟩ := by
  have henv : ∀ {s s' : Gateway},
      ((gatewayService zeroSeedConfig).system.restrict ok).Reachable ⟨s, []⟩ →
      Gateway.Env zeroSeedConfig s s' →
      ((gatewayService zeroSeedConfig).system.restrict ok).Reachable ⟨s', []⟩ :=
    fun h hs => h.tail (a := .env) ⟨hok _, .env hs⟩
  apply henv _ (.connect (socketOf "B"))
  apply henv _ (.connect (socketOf "A"))
  apply henv _ (.startSession "t1" ["A", "B"] zeroSeed zeroNonce false _ rfl rfl)
  exact .of_init ⟨⟨0, none, none, fun _ => (zeroSeed, zeroNonce), rfl⟩, rfl⟩

/-- The message of a player at the table. -/
def playerAction (playerId : PlayerId) (actionId : ActionId) (action : GameAction) : GatewayCall :=
  .message (socketOf playerId) (.action actionId (some ⟨"t1", action⟩))

end Pokerhub
