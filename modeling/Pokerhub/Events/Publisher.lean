import Pokerhub.Core.Json
import Pokerhub.Core.Stages

/-!
# The event publisher

`EventPublisher`: an event that the broker does not acknowledge in three attempts is kept in a list
in Redis, or in memory when there is no Redis or the write fails; `replayFailed` sends what is kept
again. After five failures the circuit breaker refuses every event for 30 seconds. Any number of
calls are under way at the same time, and the broker, Redis and the clock may do anything.

An event is an object of its schema. The counter of the failures and the log are left out, and so is
the pause between two attempts.
-/

namespace Pokerhub.Events

open List

/-- A name of an event and its payload. -/
structure FailedEvent where
  name : String
  payload : Json

/-- `JSON.stringify(event)` -/
def serializeFailedEvent (event : FailedEvent) : Text :=
  Json.stringify (.object [("name", .string event.name), ("payload", event.payload)])

/-- The event of a text; a name is a text. -/
def deserializeFailedEvent (raw : Text) : Option FailedEvent :=
  match Json.parse raw with
  | none => none
  | some parsed =>
    match parsed.get "name", parsed.get "payload" with
    | .string _, .undefined => none
    | .string name, payload => if name = "" then none else some ⟨name, payload⟩
    | _, _ => none

structure EventConfig where
  /-- `EventSchemas[name].parse` -/
  schema : String → Json → Option Json
  /-- There is a Redis client. -/
  redis : Bool
  name_ne : ∀ {name payload data}, schema name payload = some data → name ≠ ""
  /-- The schemas are those of objects. -/
  object : ∀ {name payload data}, schema name payload = some data → ∃ members, data = .object members
  /-- What a schema has returned it leaves as it is, also after it was written as JSON. -/
  stable : ∀ {name payload data}, schema name payload = some data →
    ∀ v, v = data ∨ v = data.written → ∀ data', schema name v = some data' →
      data'.stringify = data.stringify

/-! ### The state -/

structure Publisher where
  now : ℕ
  failures : ℕ := 0
  circuitOpenUntil : ℕ := 0
  /-- The list `events:failed` in Redis. -/
  failedEvents : List Text := []
  /-- `fallbackFailedEvents`, with the identity of each object. -/
  fallback : List (ℕ × FailedEvent) := []
  /-- How many objects there were. -/
  pushed : ℕ := 0
  /-- What the broker has acknowledged, for the statements about the runs. -/
  delivered : List Text := []
  /-- What of it was sent again by a replay, and what replays have removed. -/
  replayed : List Text := []
  removed : List Text := []

/-- How often an event is held. -/
def Publisher.held (s : Publisher) (raw : Text) : ℕ :=
  s.failedEvents.count raw + (s.fallback.map fun e => serializeFailedEvent e.2).count raw

inductive EventCall where
  | emit (name : String) (payload : Json)
  | replayFailed

def EventCall.IsReplay : EventCall → Bool
  | replayFailed => true
  | emit .. => false

inductive EventError where
  /-- `Event publisher circuit breaker open` -/
  | circuitOpen
  /-- What `schema.parse` throws. -/
  | invalid
  /-- `Failed to publish event ${name} after 3 attempts` -/
  | unpublished (name : String)
  | command
  deriving DecidableEq

/-! ### The commands -/

inductive EventCmd where
  /-- `Date.now() < this.circuitOpenUntil` -/
  | circuitOpen
  | send (attempt : ℕ) (event : FailedEvent)
  /-- The failures are counted, and the circuit may open. -/
  | countFailure
  | rpush (raw : Text)
  /-- The answer to the last write, which may be lost. -/
  | answer
  | push (event : FailedEvent)
  | lrange
  | lrem (raw : Text)
  /-- `[...this.fallbackFailedEvents]` -/
  | fallbackEvents
  | splice (identity : ℕ)

namespace EventCmd

abbrev Answer : EventCmd → Type
  | circuitOpen => Bool
  | lrange => List Text
  | fallbackEvents => List (ℕ × FailedEvent)
  | _ => Unit

/-- The commands on the broker and on Redis; they may fail. -/
def External : EventCmd → Bool
  | send .. | rpush _ | answer | lrange | lrem _ => true
  | _ => false

def exec (r : EventCall) : (c : EventCmd) → Publisher → c.Answer × Publisher
  | circuitOpen, s => (s.now < s.circuitOpenUntil, s)
  | send _ event, s =>
    ((), { s with
      failures := 0
      delivered := s.delivered ++ [serializeFailedEvent event]
      replayed := if r.IsReplay then s.replayed ++ [serializeFailedEvent event] else s.replayed })
  | countFailure, s =>
    if 5 ≤ s.failures + 1 then
      ((), { s with circuitOpenUntil := s.now + 30000, failures := 0 })
    else ((), { s with failures := s.failures + 1 })
  | rpush raw, s => ((), { s with failedEvents := s.failedEvents ++ [raw] })
  | answer, s => ((), s)
  | push event, s =>
    ((), { s with fallback := s.fallback ++ [(s.pushed, event)], pushed := s.pushed + 1 })
  | lrange, s => (s.failedEvents, s)
  | lrem raw, s =>
    ((), { s with
      failedEvents := s.failedEvents.erase raw
      removed := if raw ∈ s.failedEvents then s.removed ++ [raw] else s.removed })
  | fallbackEvents, s => (s.fallback, s)
  | splice identity, s =>
    ((), { s with
      fallback := s.fallback.eraseP (·.1 = identity)
      removed := s.removed ++
        ((s.fallback.find? (·.1 = identity)).map fun e => serializeFailedEvent e.2).toList })

end EventCmd

/-! ### The calls -/

/-- A call returns, or it throws. -/
abbrev EventM := Program EventCmd.Answer EventError

/-- One command. -/
def eventRun (c : EventCmd) : EventM c.Answer :=
  Program.command .command c

/-- The attempts, until the broker acknowledges the event. -/
def attempts (event : FailedEvent) : List ℕ → EventM Bool
  | [] => return false
  | n :: ns => do
    match ← (eventRun (.send n event)).attempt with
    | .ok _ => return true
    | .error _ => attempts event ns

/-- `removePersistedEvent`; a failure is logged. -/
def removePersistedEvent (raw : Text) : EventM Unit := do
  let _ ← (eventRun (.lrem raw)).attempt
  return

namespace EventConfig

variable (config : EventConfig)

def persistFailedEvent (event : FailedEvent) : EventM Unit :=
  if config.redis then do
    let written ← (do
      eventRun (.rpush (serializeFailedEvent event))
      eventRun .answer : EventM Unit).attempt
    match written with
    | .ok _ => return
    | .error _ => eventRun (.push event)
  else eventRun (.push event)

def emit (name : String) (payload : Json) : EventM Unit := do
  if ← eventRun .circuitOpen then throw .circuitOpen
  else
    match config.schema name payload with
    | none => throw .invalid
    | some data =>
      if ← attempts ⟨name, data⟩ [1, 2, 3] then return
      else
        eventRun .countFailure
        config.persistFailedEvent ⟨name, data⟩
        throw (.unpublished name)

/-- The loop over the texts in Redis; it stops at the first failure. -/
def replayEntries : List Text → EventM Unit
  | [] => return
  | raw :: entries =>
    match deserializeFailedEvent raw with
    | none => do
      removePersistedEvent raw
      replayEntries entries
    | some event => do
      let sent ← (do
        config.emit event.name event.payload
        removePersistedEvent raw : EventM Unit).attempt
      match sent with
      | .ok _ => replayEntries entries
      | .error _ => return

/-- The loop over the events in memory. -/
def replayEvents : List (ℕ × FailedEvent) → EventM Unit
  | [] => return
  | (identity, event) :: events => do
    let sent ← (do
      config.emit event.name event.payload
      eventRun (.splice identity) : EventM Unit).attempt
    match sent with
    | .ok _ => replayEvents events
    | .error _ => return

def replayFailed : EventM Unit :=
  if config.redis then do
    match ← (eventRun .lrange).attempt with
    | .ok entries => config.replayEntries entries
    | .error _ => return
  else do
    let events : List (ℕ × FailedEvent) ← eventRun .fallbackEvents
    config.replayEvents events

end EventConfig

def EventCall.body (config : EventConfig) : EventCall → EventM Unit
  | emit name payload => config.emit name payload
  | replayFailed => config.replayFailed

/-- The publisher of a process that has just started. The clock may be set to any time. -/
def publisherService (config : EventConfig) :
    Service EventCmd.Answer EventError Unit Publisher EventCall where
  init s := ∃ now, s = { now := now }
  ready _ _ := True
  body := EventCall.body config
  exec := EventCmd.exec
  fails _ c := c.External
  env s s' := ∃ now, s' = { s with now := now }

/-! ### The texts -/

section Texts

variable {config : EventConfig} {name : String} {payload data : Json}

/-- A kept event is read back. -/
lemma deserialize_serialize (h : config.schema name payload = some data) :
    deserializeFailedEvent (serializeFailedEvent ⟨name, data⟩) = some ⟨name, data.written⟩ := by
  obtain ⟨members, rfl⟩ := config.object h
  have hname := config.name_ne h
  rw [deserializeFailedEvent, serializeFailedEvent, Json.parse_stringify]
  simp [Json.written, Json.writtenMembers, Json.get, lookup_cons, hname]

/-- An event that is sent again is the one that was kept. -/
lemma serialize_stable (h : config.schema name payload = some data) {v data' : Json}
    (hv : v = data ∨ v = data.written) (h' : config.schema name v = some data') :
    serializeFailedEvent ⟨name, data'⟩ = serializeFailedEvent ⟨name, data⟩ := by
  have htext := config.stable h v hv data' h'
  obtain ⟨members, rfl⟩ := config.object h
  obtain ⟨members', rfl⟩ := config.object h'
  simp only [serializeFailedEvent, Json.stringify, Json.memberTexts] at htext ⊢
  rw [htext]

end Texts

end Pokerhub.Events
