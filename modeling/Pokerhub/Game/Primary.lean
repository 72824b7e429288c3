import Pokerhub.Game.LogText
import Pokerhub.Game.Replay
import Pokerhub.Game.RoomWorker
import Pokerhub.Game.Sanitize

/-!
# The primary of a room

`room.worker.ts` with what it sends: the handler of an `apply` message reserves a row of the
settlement journal, publishes its state to the follower, plays `next` on a settled hand, commits a
row and answers. It waits between these, and other messages are handled meanwhile.

The row that it commits is the one it has reserved unless the hand is settled in between, so a run
in which no hand is settled leaves no row reserved (`reservations_committed`).
-/

namespace Pokerhub

open GameStateInternal GameEngine HandStateMachine TransitionSystem List

/-! ### The journal of settlements -/

/-- `${handId}#${street}#${idx}` -/
structure SettlementKey where
  handId : String
  street : Street
  idx : ℕ
  deriving DecidableEq

inductive SettlementStatus where
  | reserved | committed
  deriving DecidableEq

structure SettlementRow where
  idempotencyKey : SettlementKey
  status : SettlementStatus
  deriving DecidableEq

namespace SettlementService

/-- `insert .. orIgnore` -/
def reserve (key : SettlementKey) (rows : List SettlementRow) : List SettlementRow :=
  if rows.any (·.idempotencyKey = key) then rows else rows ++ [⟨key, .reserved⟩]

/-- `update({ idempotencyKey, status: 'reserved' }, { status: 'committed' })` -/
def commit (key : SettlementKey) (rows : List SettlementRow) : List SettlementRow :=
  rows.map fun row =>
    if row.idempotencyKey = key ∧ row.status = .reserved then { row with status := .committed }
    else row

end SettlementService

/-! ### The worker thread -/

inductive RoomMessage where
  | apply (action : GameAction)
  | getState
  | replay
  | resume (start : ℕ)
  | snapshot (states : List Json)
  | ping
  | getHandId

/-- The index of the last entry and the public state, as a handler has read them. -/
structure Turn where
  idx : ℕ
  state : GameStateInternal
  deriving DecidableEq

/-- What the handler of an `apply` message does next. `enabled` is what it has read from the flag
of the settlements. -/
inductive Handling where
  /-- It reads the flag of the dealing, after the last blind. -/
  | dealt
  /-- It reads the flag of the dealing, in the loop that deals on. -/
  | advance
  | reserve (turn : Turn)
  | publish (enabled : Bool) (turn : Turn)
  | settle (enabled : Bool) (turn : Turn)
  | commit (enabled : Bool) (turn : Turn)
  | answer (turn : Turn)
  deriving DecidableEq

/-- The turn of a handler, once it has dealt on. -/
def Handling.turn? : Handling → Option Turn
  | .dealt | .advance => none
  | .reserve turn | .publish _ turn | .settle _ turn | .commit _ turn | .answer turn => some turn

structure Primary where
  handId : String
  engine : GameEngine
  /-- The `apply` messages under way, with their sequence numbers. -/
  handlers : List (ℕ × Handling) := []
  journal : List SettlementRow := []
  /-- The diffs that are published and on their way. -/
  diffs : List Turn := []
  /-- The answers. -/
  posted : List (ℕ × Json) := []

/-- What `getPublicState` returns: neither a deck nor hole cards. -/
def GameStateInternal.publicJson (s : GameStateInternal) : Json :=
  .object
    [("phase", s.phase.toJson), ("street", s.street.toJson), ("pot", .number s.pot),
      ("sidePots", .array (s.sidePots.map (·.toJson))), ("currentBet", .number s.currentBet),
      ("players", .array (s.publicView.players.map (·.toJson))),
      ("communityCards", .array (s.communityCards.map fun card : ℕ => .number card))]

/-- `[index, post]` -/
def HandLogEntry.stateJson (entry : HandLogEntry) : Json :=
  .array [.number entry.index, entry.postState.toJson]

namespace GameEngine

/-- `engine.getHandLog().slice(-1)[0]?.[0] ?? idx` -/
def lastIndex (e : GameEngine) (idx : ℕ) : ℕ :=
  match e.log.entries.getLast? with
  | some entry => entry.index
  | none => idx

def turn (e : GameEngine) (idx : ℕ) : Turn :=
  ⟨e.lastIndex idx, e.getPublicState⟩

/-- The writes of `resetToWaitBlinds`. -/
def resetToWaitBlinds (e : GameEngine) : GameEngine :=
  { e with machine := { e.machine with state := e.machine.state.resetToWaitBlinds } }

/-- What a handler does next, at the head of the loop that deals on. -/
def handling (e : GameEngine) : Handling :=
  if e.machine.state.phase = .deal then .advance else .reserve (e.turn 0)

end GameEngine

namespace Primary

def post (seq : ℕ) (answer : Json) (p : Primary) : Primary :=
  { p with posted := p.posted ++ [(seq, answer)] }

/-- The key of a row of this hand. -/
def key (p : Primary) (turn : Turn) : SettlementKey :=
  ⟨p.handId, turn.state.street, turn.idx⟩

section Hash

variable (sha256 : List UInt8 → List UInt8)

/-- A message arrives. The bytes are for the RNG of a replay. A message of another type is
ignored. -/
def receive (seq : ℕ) (seed nonce : List UInt8) (msg : RoomMessage) (p : Primary) : Primary :=
  match msg with
  | .apply action =>
    match (applyAction sha256 action).run p.engine with
    | .error _ e => { p with engine := e }
    | .ok _ e =>
      let next :=
        if p.engine.machine.state.phase = .waitBlinds ∧ e.machine.state.phase = .deal then .dealt
        else e.handling
      { p with engine := e, handlers := p.handlers ++ [(seq, next)] }
  | .getState => p.post seq p.engine.machine.state.publicJson
  | .replay =>
    match p.engine.replayHand sha256 100 seed nonce with
    | .error _ => p
    | .ok _ => p.post seq p.engine.machine.state.publicJson
  | .resume start =>
    p.post seq <| .array <|
      (p.engine.log.entries.filter fun entry => start ≤ entry.index).map (·.stateJson)
  | .snapshot _ => p.post seq <| .array <| p.engine.log.entries.map (·.stateJson)
  | .ping => p.post seq (.bool true)
  | .getHandId => p.post seq (.string p.handId)

/-- What a handler does up to its next wait, if there is one. -/
def handle (seq : ℕ) (flag : Bool) : Handling → Primary → Primary × Option Handling
  | .dealt, p =>
    if flag then (p, some p.engine.handling)
    else
      let e := p.engine.resetToWaitBlinds
      ({ p with engine := e }, some (.reserve (e.turn 0)))
  | .advance, p =>
    if flag then
      match (applyAction sha256 .next).run p.engine with
      | .error _ e => ({ p with engine := e }, none)
      | .ok _ e => ({ p with engine := e }, some e.handling)
    else
      let e := p.engine.resetToWaitBlinds
      ({ p with engine := e }, some (.reserve (e.turn 0)))
  | .reserve turn, p =>
    if flag then
      ({ p with journal := SettlementService.reserve (p.key turn) p.journal },
        some (.publish true turn))
    else (p, some (.publish false turn))
  | .publish enabled turn, p => ({ p with diffs := p.diffs ++ [turn] }, some (.settle enabled turn))
  | .settle enabled turn, p =>
    if turn.state.phase = .settle then
      match (applyAction sha256 .next).run p.engine with
      | .error _ e => ({ p with engine := e }, none)
      | .ok _ e =>
        let turn := e.turn turn.idx
        ({ p with engine := e, diffs := p.diffs ++ [turn] }, some (.commit enabled turn))
    else (p, some (.commit enabled turn))
  | .commit enabled turn, p =>
    if enabled then
      ({ p with journal := SettlementService.commit (p.key turn) p.journal }, some (.answer turn))
    else (p, some (.answer turn))
  | .answer turn, p => (p.post seq turn.state.publicJson, none)

/-- A waiting handler goes on, with what it reads from the flag. -/
def proceed (i : ℕ) (flag : Bool) (p : Primary) : Primary :=
  match p.handlers[i]? with
  | none => p
  | some (seq, stage) =>
    let (p', next) := p.handle sha256 seq flag stage
    { p' with
      handlers := p.handlers.take i ++ (next.map fun stage => (seq, stage)).toList ++
        p.handlers.drop (i + 1) }

end Hash

end Primary

inductive PrimaryEvent where
  | receive (seq : ℕ) (seed nonce : List UInt8) (msg : RoomMessage)
  | proceed (i : ℕ) (flag : Bool)

def Primary.step (sha256 : List UInt8 → List UInt8) (p : Primary) : PrimaryEvent → Primary
  | .receive seq seed nonce msg => p.receive sha256 seq seed nonce msg
  | .proceed i flag => p.proceed sha256 i flag

/-- The runs of a primary. -/
def primaryRuns (sha256 : List UInt8 → List UInt8) (ids : List PlayerId) :
    TransitionSystem Primary PrimaryEvent where
  init p := ∃ handId seed nonce,
    p = { handId := handId, engine := .create ids 100 (.create sha256 seed nonce) false false }
  step p event p' := p' = p.step sha256 event

/-! ### What a step does -/

section Step

variable {sha256 : List UInt8 → List UInt8} {p : Primary}

/-- An `apply` message that the engine rejects leaves the primary as it is; another one gets a
handler. -/
lemma Primary.receive_apply (seq : ℕ) (seed nonce : List UInt8) (a : GameAction) :
    p.receive sha256 seq seed nonce (.apply a) = p ∨
      ∃ stage, (p.receive sha256 seq seed nonce (.apply a)) =
          { p with
            engine := p.engine.afterAction sha256 a
            handlers := p.handlers ++ [(seq, stage)] } ∧
        (stage = .dealt ∨ stage = (p.engine.afterAction sha256 a).handling) := by
  rcases @afterAction_spec sha256 p.engine a with ⟨hstay, ⟨err, hrun⟩, -⟩ | ⟨m, -, hrun, -⟩
  · left
    simp only [Primary.receive, hrun]
  · right
    simp only [Primary.receive, hrun]
    refine ⟨_, rfl, ?_⟩
    split_ifs
    · exact Or.inl rfl
    · exact Or.inr rfl

/-- The other messages are answered or not. -/
lemma Primary.receive_other (seq : ℕ) (seed nonce : List UInt8) {msg : RoomMessage}
    (hmsg : ∀ a, msg ≠ .apply a) :
    ∃ posted, p.receive sha256 seq seed nonce msg = { p with posted := posted } := by
  cases msg with
  | apply a => exact absurd rfl (hmsg a)
  | replay =>
    simp only [Primary.receive]
    split
    · exact ⟨_, rfl⟩
    · exact ⟨_, rfl⟩
  | _ => exact ⟨_, rfl⟩

/-- A handler goes on among the others. -/
lemma Primary.proceed_cases (i : ℕ) (flag : Bool) :
    p.proceed sha256 i flag = p ∨
      ∃ hs₁ seq stage hs₂, p.handlers[i]? = some (seq, stage) ∧
        p.handlers = hs₁ ++ (seq, stage) :: hs₂ ∧
        p.proceed sha256 i flag =
          { (p.handle sha256 seq flag stage).1 with
            handlers := hs₁ ++
              ((p.handle sha256 seq flag stage).2.map fun stage => (seq, stage)).toList ++ hs₂ } := by
  unfold Primary.proceed
  cases hi : p.handlers[i]? with
  | none => exact Or.inl rfl
  | some handler =>
    right
    obtain ⟨hlt, hget⟩ := List.getElem?_eq_some_iff.mp hi
    refine ⟨p.handlers.take i, handler.1, handler.2, p.handlers.drop (i + 1), rfl, ?_, rfl⟩
    have hdrop : p.handlers.drop i = handler :: p.handlers.drop (i + 1) := by
      rw [drop_eq_getElem_cons hlt, hget]
    rw [← hdrop, take_append_drop]

variable {hs₁ hs₂ : List (ℕ × Handling)} {seq : ℕ} {handler : ℕ × Handling}

lemma mem_handlers {stage : Handling} : handler ∈ hs₁ ++ (seq, stage) :: hs₂ ↔
    (handler ∈ hs₁ ∨ handler ∈ hs₂) ∨ handler = (seq, stage) := by
  rw [mem_append, mem_cons]
  tauto

lemma mem_handlers_next {next : Option Handling} :
    handler ∈ hs₁ ++ (next.map fun stage => (seq, stage)).toList ++ hs₂ ↔
      (handler ∈ hs₁ ∨ handler ∈ hs₂) ∨ ∃ stage, next = some stage ∧ handler = (seq, stage) := by
  rw [mem_append, mem_append]
  cases next with
  | none => simp
  | some stage =>
    simp
    tauto

end Step

end Pokerhub
