import Mathlib.Data.List.Sort
import Pokerhub.Game.Gateway

/-!
# Restarting the gateway

`restoreState` of `game.gateway.ts`, on what the handlers leave in Redis and in the database.
Between two requests the states in Redis are those of the map, and the stored tick is the last one
sent (`Gateway.Stored`), so the tick is always recovered. The state that a timeout leaves has no
deck, and is discarded; a snapshot in the database is never deleted, and brings back a table whose
hand has ended (`restored_states_iff`); and the engines, to which the handlers apply the actions,
are not rebuilt at all. So the recovery does what it is for only when there is nothing to recover
(`recovers_iff`).
-/

namespace Pokerhub

open GatewayConfig List Program TransitionSystem

/-! ### The restart -/

namespace Gateway

open Function

/-- A new process on the same Redis and the same database. Its workers draw new RNGs. -/
def restart (drawn : TableId → HandRNG) (s : Gateway) : Gateway where
  now := s.now
  actionHash := s.actionHash
  counters := s.counters
  expiry := s.expiry
  storedStates := s.storedStates
  storedTick := s.storedTick
  flags := s.flags
  hands := s.hands
  snapshots := s.snapshots
  drawn := drawn
  sent := s.sent
  trace := s.trace

/-- What is left of a check of a state that was stored and read back: the deck has to be there, as
the other fields always are. -/
def isInternalGameState (held : HeldState) : Bool :=
  held.hasDeck

/-- `find({ order: { tick: 'DESC' } })`. -/
def newestFirst (snapshots : List (TableId × ℕ × HeldState)) : List (TableId × ℕ × HeldState) :=
  snapshots.mergeSort fun a b => decide (b.2.1 ≤ a.2.1)

/-- A snapshot is taken for a table that has no state yet. -/
def takeSnapshot (s : Gateway) (snap : TableId × ℕ × HeldState) : Gateway :=
  if (s.states snap.1).isSome then s
  else if isInternalGameState snap.2.2 then
    { s with states := update s.states snap.1 (some snap.2.2), tick := max s.tick snap.2.1 }
  else s

/-- `restoreState`: the snapshots first, and over them what is in Redis. -/
def restoreState (s : Gateway) : Gateway :=
  let s := (newestFirst s.snapshots).foldl takeSnapshot s
  { s with
    tick := s.storedTick.getD s.tick
    states := fun tableId =>
      ((s.storedStates tableId).filter isInternalGameState).or (s.states tableId) }

/-- A frame with the tick was put on its way. -/
def SentTick (s : Gateway) (tick : ℕ) : Prop :=
  (∃ tableId payload, GatewayEvent.published tableId payload tick ∈ s.trace) ∨
    ∃ clientId payload, ServerEvent.state payload tick ∈ s.queues clientId ++ s.sent clientId

/-- An action on the table is applied to the state: it is that of the table's engine. -/
def AppliesTo (s : Gateway) (tableId : TableId) (held : HeldState) : Prop :=
  ∃ engine, s.engines tableId = some engine ∧ engine.machine.state = held.state

/-- A restart rebuilds the map of the states, goes on after the ticks that were sent, and the tables
go on from their states. -/
structure Recovers (s : Gateway) (drawn : TableId → HandRNG) : Prop where
  states : (s.restart drawn).restoreState.states = s.states
  tick : ∀ tick, s.SentTick tick → tick ≤ (s.restart drawn).restoreState.tick
  applies : ∀ tableId held, (s.restart drawn).restoreState.states tableId = some held →
    (s.restart drawn).restoreState.AppliesTo tableId held

end Gateway

/-! ### Runs -/

/-- An action or the end of a timer. -/
def GatewayCall.plays : GatewayCall → Bool
  | .message _ (.action _ _) | .timeout _ _ => true
  | _ => false

/-- A request is served to its end, or something happens between two requests. -/
inductive ServedStep (config : GatewayConfig) : Gateway → Option GatewayCall → Gateway → Prop
  | serve {s : Gateway} (r : GatewayCall) (hplays : r.plays = true)
      (hready : (gatewayService config).ready s r) :
    ServedStep config s (some r)
      ((r.body config).run (GatewayCmd.exec config) s).2
  | env {s s' : Gateway} (h : s.Env config s') : ServedStep config s none s'

/-- Actions and timeouts, one after another. -/
def servedRuns (config : GatewayConfig) : TransitionSystem Gateway (Option GatewayCall) where
  init := Gateway.Initial config
  step := ServedStep config

/-! ### What is stored between two requests -/

/-- Between two requests Redis holds the states of the map, and a tick that is not behind. The tick
`t` is not ahead. -/
structure Gateway.Stored (t : ℕ) (s : Gateway) : Prop where
  states : s.storedStates = s.states
  stored : s.tick ≤ s.storedTick.getD 0
  sent : ∀ tick, s.SentTick tick → tick ≤ s.tick
  reached : t ≤ s.tick

/-- The two agree on all of that. -/
structure Gateway.SameStored (s s' : Gateway) : Prop where
  states : s'.states = s.states
  storedStates : s'.storedStates = s.storedStates
  tick : s'.tick = s.tick
  storedTick : s'.storedTick = s.storedTick
  sent : ∀ tick, s'.SentTick tick → s.SentTick tick

lemma Gateway.Stored.congr {t : ℕ} {s s' : Gateway} (h : s.Stored t) (hsame : s.SameStored s') :
    s'.Stored t where
  states := by rw [hsame.storedStates, hsame.states, h.states]
  stored := by rw [hsame.tick, hsame.storedTick]; exact h.stored
  sent tick ht := by rw [hsame.tick]; exact h.sent tick (hsame.sent tick ht)
  reached := by rw [hsame.tick]; exact h.reached

/-- The commands that neither store anything about a table nor send a state. -/
def GatewayCmd.Idle : GatewayCmd → Bool
  | .storeState _ _ | .storeTick | .delState _ | .dropState _ | .applyAction _ _ _ _ | .adopt _ _
  | .spectate _ _ | .broadcast _ _ _ | .sendReplay _ _ | .enqueue _ (.state _ _)
  | .emit _ (.state _ _) => false
  | _ => true

section Commands

variable {config : GatewayConfig} {s : Gateway} {t : ℕ}

lemma Gateway.SameStored.refl (s : Gateway) : s.SameStored s :=
  ⟨rfl, rfl, rfl, rfl, fun _ h => h⟩

/-- An event that is not a frame. -/
lemma sameStored_log {event : GatewayEvent}
    (h : ∀ tableId payload tick, event ≠ .published tableId payload tick) :
    s.SameStored (s.log event) := by
  refine ⟨rfl, rfl, rfl, rfl, fun tick ht => ?_⟩
  rcases ht with ⟨tableId, payload, ht⟩ | ht
  · rcases mem_append.mp ht with ht | ht
    · exact Or.inl ⟨tableId, payload, ht⟩
    · exact absurd (mem_singleton.mp ht).symm (h tableId payload tick)
  · exact Or.inr ht

lemma sentTick_emit {clientId : String} {event : ServerEvent} {tick : ℕ}
    (h : (s.emit clientId event).SentTick tick) :
    s.SentTick tick ∨ ∃ payload, event = .state payload tick := by
  rcases h with h | ⟨client, payload, h⟩
  · exact Or.inl (Or.inl h)
  · by_cases hclient : client = clientId
    · subst hclient
      simp only [Gateway.emit, Function.update_self, mem_append, mem_singleton] at h
      rcases h with h | h | h
      · exact Or.inl (Or.inr ⟨client, payload, mem_append_left _ h⟩)
      · exact Or.inl (Or.inr ⟨client, payload, mem_append_right _ h⟩)
      · exact Or.inr ⟨payload, h.symm⟩
    · simp only [Gateway.emit, Function.update_of_ne hclient] at h
      exact Or.inl (Or.inr ⟨client, payload, h⟩)

lemma sentTick_enqueue {queueLimit : ℕ} {clientId : String} {event : ServerEvent} {tick : ℕ}
    (h : (s.enqueue queueLimit clientId event).SentTick tick) :
    s.SentTick tick ∨ ∃ payload, event = .state payload tick := by
  rw [Gateway.enqueue] at h
  split at h
  · rcases sentTick_emit h with h | ⟨payload, h⟩
    · exact Or.inl h
    · cases h
  · rcases h with h | ⟨client, payload, h⟩
    · exact Or.inl (Or.inl h)
    · by_cases hclient : client = clientId
      · subst hclient
        simp only [Function.update_self, mem_append, mem_singleton] at h
        rcases h with (h | h) | h
        · exact Or.inl (Or.inr ⟨client, payload, mem_append_left _ h⟩)
        · exact Or.inr ⟨payload, h.symm⟩
        · exact Or.inl (Or.inr ⟨client, payload, mem_append_right _ h⟩)
      · simp only [Function.update_of_ne hclient] at h
        exact Or.inl (Or.inr ⟨client, payload, h⟩)

@[simp] lemma enqueue_states (queueLimit : ℕ) (clientId : String) (event : ServerEvent) :
    (s.enqueue queueLimit clientId event).states = s.states := by
  rw [Gateway.enqueue]
  split <;> rfl

@[simp] lemma enqueue_storedStates (queueLimit : ℕ) (clientId : String) (event : ServerEvent) :
    (s.enqueue queueLimit clientId event).storedStates = s.storedStates := by
  rw [Gateway.enqueue]
  split <;> rfl

@[simp] lemma enqueue_tick (queueLimit : ℕ) (clientId : String) (event : ServerEvent) :
    (s.enqueue queueLimit clientId event).tick = s.tick := by
  rw [Gateway.enqueue]
  split <;> rfl

@[simp] lemma enqueue_storedTick (queueLimit : ℕ) (clientId : String) (event : ServerEvent) :
    (s.enqueue queueLimit clientId event).storedTick = s.storedTick := by
  rw [Gateway.enqueue]
  split <;> rfl

lemma sameStored_enqueue {queueLimit : ℕ} {clientId : String} {event : ServerEvent}
    (h : ∀ payload tick, event ≠ .state payload tick) :
    s.SameStored (s.enqueue queueLimit clientId event) where
  states := by simp
  storedStates := by simp
  tick := by simp
  storedTick := by simp
  sent tick ht := by
    rcases sentTick_enqueue ht with ht | ⟨payload, ht⟩
    · exact ht
    · exact absurd ht (h payload tick)

lemma sameStored_emit {clientId : String} {event : ServerEvent}
    (h : ∀ payload tick, event ≠ .state payload tick) : s.SameStored (s.emit clientId event) := by
  refine ⟨rfl, rfl, rfl, rfl, fun tick ht => ?_⟩
  rcases sentTick_emit ht with ht | ⟨payload, ht⟩
  · exact ht
  · exact absurd ht (h payload tick)

lemma sameStored_roomApply (playerId : PlayerId) (tableId : TableId) :
    s.SameStored (GatewayCmd.execRoomApply config s playerId tableId).2 := by
  have hlog : s.SameStored (s.log (.timedOut playerId tableId)) :=
    sameStored_log fun _ _ _ h => by cases h
  rw [GatewayCmd.execRoomApply]
  split
  · split
    · exact ⟨rfl, rfl, rfl, rfl, hlog.sent⟩
    · exact ⟨rfl, rfl, rfl, rfl, hlog.sent⟩
  · exact hlog

/-- An idle command leaves what is stored alone. -/
lemma sameStored_exec {c : GatewayCmd} (hc : c.Idle = true) : s.SameStored (c.exec config s).2 := by
  cases c with
  | enqueue clientId event =>
    refine sameStored_enqueue fun payload tick h => ?_
    subst h
    cases hc
  | emit clientId event =>
    refine sameStored_emit fun payload tick h => ?_
    subst h
    cases hc
  | roomApply playerId tableId => exact sameStored_roomApply playerId tableId
  | roomResume tableId clientId since =>
    exact ⟨rfl, rfl, rfl, rfl, (sameStored_log fun _ _ _ h => by cases h).sent⟩
  | saveHand tableId =>
    rw [GatewayCmd.exec]
    split <;> exact ⟨rfl, rfl, rfl, rfl, fun _ h => h⟩
  | storeState _ _ | storeTick | delState _ | dropState _ | applyAction _ _ _ _ | adopt _ _
  | spectate _ _ | broadcast _ _ _ | sendReplay _ _ => cases hc
  | _ => exact ⟨rfl, rfl, rfl, rfl, fun _ h => h⟩

lemma sentTick_publish {tableId : TableId} {payload : GameState} {tick tick' : ℕ}
    (h : (s.publish tableId payload tick').SentTick tick) : s.SentTick tick ∨ tick = tick' := by
  rcases h with ⟨table, payload', h⟩ | h
  · rcases mem_append.mp h with h | h
    · exact Or.inl (Or.inl ⟨table, payload', h⟩)
    · cases mem_singleton.mp h
      exact Or.inr rfl
  · exact Or.inl (Or.inr h)

/-- What the call of `engine.applyAction` does to what is stored. -/
lemma execApplyAction_stored (clientId : String) (actionId : ActionId) (time : ℕ)
    (wire : WireGameAction) :
    (∃ r s', GatewayCmd.execApplyAction config s clientId actionId time wire = (r, s') ∧
      (∀ state tick, r ≠ .applied state tick) ∧ s.SameStored s') ∨
    ∃ state s', GatewayCmd.execApplyAction config s clientId actionId time wire =
        (.applied state (s.tick + 1), s') ∧
      s'.states = Function.update s.states wire.tableId (some ⟨state, true⟩) ∧
      s'.storedStates = s.storedStates ∧ s'.tick = s.tick + 1 ∧
      ∀ tick, s'.SentTick tick → s.SentTick tick ∨ tick = s.tick + 1 := by
  rw [GatewayCmd.execApplyAction]
  split
  · exact Or.inl ⟨_, _, rfl, fun _ _ h => (by cases h), .refl s⟩
  · rename_i engine hengine
    split
    · refine Or.inl ⟨_, _, rfl, fun _ _ h => (by cases h), ?_⟩
      have hlog : (s.setEngine wire.tableId engine).SameStored
          ((s.setEngine wire.tableId engine).log
            (.called actionId time wire.tableId wire.action false)) :=
        sameStored_log fun _ _ _ h => by cases h
      exact ⟨rfl, rfl, rfl, rfl, hlog.sent⟩
    · rename_i state engine' hrun
      refine Or.inr ⟨state, _, rfl, ?_, ?_, ?_, fun tick htick => ?_⟩
      · simp [Gateway.setState, Gateway.publish, Gateway.log, Gateway.setEngine]
      · simp [Gateway.setState, Gateway.publish, Gateway.log, Gateway.setEngine]
      · simp [Gateway.setState, Gateway.publish, Gateway.log, Gateway.setEngine]
      · -- the frame goes to the client and to the spectators under the new tick
        rcases sentTick_publish htick with htick | htick
        · rcases sentTick_enqueue htick with htick | ⟨payload, htick⟩
          · exact Or.inl ((sameStored_log fun _ _ _ h => by cases h).sent tick htick)
          · cases htick
            exact Or.inr rfl
        · exact Or.inr htick

end Commands

/-! ### The handlers -/

section Handlers

variable {config : GatewayConfig} {client : GameSocket} {actionId : ActionId} {tableId : TableId}
  {state : GameStateInternal} {held : HeldState} {s : Gateway} {t : ℕ}

lemma keeps_idle {c : GatewayCmd} (hc : c.Idle = true) :
    (gatewayRun c).Keeps (GatewayCmd.exec config) (Gateway.Stored t) :=
  keeps_command fun _ h => h.congr (sameStored_exec hc)

lemma keeps_idle_bind {α : Type} {c : GatewayCmd} {f : c.Answer → GatewayM α}
    (hc : c.Idle = true) (hf : ∀ a, (f a).Keeps (GatewayCmd.exec config) (Gateway.Stored t)) :
    (gatewayRun c >>= f).Keeps (GatewayCmd.exec config) (Gateway.Stored t) :=
  (keeps_idle hc).bind hf

lemma keeps_gatewayIf {cond : Bool} {p : GatewayM Unit}
    (hp : p.Keeps (GatewayCmd.exec config) (Gateway.Stored t)) :
    (gatewayIf cond p).Keeps (GatewayCmd.exec config) (Gateway.Stored t) := by
  cases cond with
  | false => exact keeps_ret ()
  | true => exact hp

/-- What the handlers have in common is idle. -/
lemma keeps_common {α : Type} {p : GatewayM α} (h : p.Uses (·.Common)) :
    p.Keeps (GatewayCmd.exec config) (Gateway.Stored t) := by
  refine h.keeps fun c s hc hs => hs.congr (sameStored_exec ?_)
  cases c with
  | enqueue clientId event => cases event <;> first | rfl | cases hc
  | emit clientId event => cases event <;> first | rfl | cases hc
  | _ => first | rfl | cases hc

/-- The end of a hand takes the state out of the map and out of Redis. -/
lemma keeps_dropHand :
    (dropHand tableId).Keeps (GatewayCmd.exec config) (Gateway.Stored t) := by
  intro s h
  refine ⟨?_, h.stored, h.sent, h.reached⟩
  simp [dropHand, gatewayRun, GatewayCmd.exec, Gateway.setState, h.states]

lemma Gateway.Stored.publish {payload : GameState} (h : s.Stored t) :
    (s.publish tableId payload t).Stored t := by
  refine ⟨h.states, h.stored, fun tick ht => ?_, h.reached⟩
  rcases ht with ⟨table, payload', ht⟩ | ht
  · rcases mem_append.mp ht with ht | ht
    · exact h.sent tick (Or.inl ⟨table, payload', ht⟩)
    · cases mem_singleton.mp ht
      exact h.reached
  · exact h.sent tick (Or.inr ht)

lemma keeps_spectate :
    (gatewayRun (.spectate tableId t)).Keeps (GatewayCmd.exec config) (Gateway.Stored t) := by
  refine keeps_command fun s h => ?_
  rw [GatewayCmd.exec]
  split
  · exact h
  · exact h.publish

lemma keeps_broadcast {payload : GameState} :
    (gatewayRun (.broadcast tableId payload t)).Keeps (GatewayCmd.exec config)
      (Gateway.Stored t) :=
  keeps_command fun _ h => h.publish

/-- The state that went to the map goes to Redis, with the tick. -/
lemma stored_storing {p : GatewayM Unit}
    (hp : p.Keeps (GatewayCmd.exec config) (Gateway.Stored t))
    (hstates : s.states = Function.update s.storedStates tableId (some held))
    (hsent : ∀ tick, s.SentTick tick → tick ≤ s.tick) (hreached : t ≤ s.tick) :
    ((do
      gatewayRun (.storeState tableId held)
      gatewayRun .storeTick
      p : GatewayM Unit).run (GatewayCmd.exec config) s).2.Stored t := by
  simp only [gatewayRun, run_bind, run_command]
  exact hp _ ⟨hstates.symm, le_refl _, hsent, hreached⟩

/-- An action that was applied. -/
lemma stored_finishAction {wire : WireGameAction}
    (hstates : s.states = Function.update s.storedStates wire.tableId (some ⟨state, true⟩))
    (hsent : ∀ tick, s.SentTick tick → tick ≤ s.tick) (hreached : t ≤ s.tick) :
    ((finishAction client actionId wire state t).run (GatewayCmd.exec config) s).2.Stored t := by
  refine stored_storing ?_ hstates hsent hreached
  refine (keeps_common (uses_maybeSnapshot _)).bind fun _ => ?_
  refine (keeps_gatewayIf (keeps_idle rfl)).bind fun _ => ?_
  refine keeps_spectate.bind fun _ => ?_
  refine keeps_idle_bind rfl fun _ => ?_
  split
  · exact keeps_dropHand
  · exact keeps_common (uses_restartTimer _)

lemma Gateway.Stored.mono {t' : ℕ} (h : s.Stored t') (ht : t ≤ t') : s.Stored t :=
  ⟨h.states, h.stored, h.sent, ht.trans h.reached⟩

/-- What follows the checks of an action. -/
lemma keeps_applyAction (time : ℕ) (wire : WireGameAction) :
    (do
      match ← gatewayRun (.applyAction client.id actionId time wire) with
      | .notStarted => refuse client actionId "engine not started"
      | .rejected message => refuse client actionId message
      | .applied state tick => finishAction client actionId wire state tick : GatewayM Unit).Keeps
      (GatewayCmd.exec config) (Gateway.Stored t) := by
  intro s h
  rw [run_bind, gatewayRun, run_command, GatewayCmd.exec]
  rcases execApplyAction_stored client.id actionId time wire with
    ⟨r, s', hexec, hr, hsame⟩ | ⟨state, s', hexec, hstates, hstored, htick, hsent⟩
  · rw [hexec]
    cases r with
    | notStarted => exact keeps_common (uses_refuse _) _ (h.congr hsame)
    | rejected message => exact keeps_common (uses_refuse _) _ (h.congr hsame)
    | applied state tick => exact absurd rfl (hr state tick)
  · rw [hexec]
    refine Gateway.Stored.mono (stored_finishAction ?_ ?_ ?_) (h.reached.trans (Nat.le_succ _))
    · rw [hstates, hstored, h.states]
    · intro tick ht
      rw [htick]
      rcases hsent tick ht with ht | rfl
      · exact (h.sent tick ht).trans (Nat.le_succ _)
      · exact le_refl _
    · rw [htick]

lemma keeps_playAction (time : ℕ) (wire : WireGameAction) :
    (playAction client actionId time wire).Keeps (GatewayCmd.exec config) (Gateway.Stored t) := by
  refine (keeps_common (uses_stopTimer _)).bind fun _ => ?_
  refine (keeps_common (uses_flagOff _)).bind fun dealing => ?_
  split
  · exact keeps_common (uses_refuse _)
  · refine (keeps_common (uses_flagOff _)).bind fun settlement => ?_
    split
    · exact keeps_common (uses_refuse _)
    · exact keeps_applyAction time wire

lemma keeps_handleAction (rest : Option WireGameAction) :
    (config.handleAction client actionId rest).Keeps (GatewayCmd.exec config)
      (Gateway.Stored t) := by
  refine (keeps_common uses_isRateLimited).bind fun limited => ?_
  split
  · exact keeps_ret ()
  · cases parseAction rest with
    | none => exact keeps_idle_bind rfl fun _ => keeps_raise _
    | some wire =>
      refine keeps_idle_bind rfl fun expected => ?_
      split
      · exact keeps_common (uses_refuse _)
      · refine keeps_idle_bind rfl ?_
        rintro ⟨existing, now⟩
        dsimp only
        split
        · exact keeps_idle rfl
        · exact keeps_idle_bind rfl fun _ => keeps_playAction now wire

/-- A state that the timeout has made goes to the map, and then to Redis. -/
lemma keeps_adopt :
    (do
      let (payload, tick) ← gatewayRun (.adopt tableId state)
      gatewayRun (.storeState tableId ⟨state, false⟩)
      gatewayRun .storeTick
      maybeSnapshot tableId ⟨state, false⟩
      gatewayRun (.broadcast tableId payload tick)
      gatewayIf (state.phase = .nextHand) (dropHand tableId) : GatewayM Unit).Keeps
      (GatewayCmd.exec config) (Gateway.Stored t) := by
  intro s h
  rw [run_bind, gatewayRun, run_command, GatewayCmd.exec]
  have hrest : ∀ payload, (do
      maybeSnapshot tableId ⟨state, false⟩
      gatewayRun (.broadcast tableId payload (s.tick + 1))
      gatewayIf (state.phase = .nextHand) (dropHand tableId) : GatewayM Unit).Keeps
      (GatewayCmd.exec config) (Gateway.Stored (s.tick + 1)) := fun payload =>
    (keeps_common (uses_maybeSnapshot _)).bind fun _ => keeps_broadcast.bind fun _ =>
      keeps_gatewayIf keeps_dropHand
  refine Gateway.Stored.mono (stored_storing (hrest _) ?_ (fun tick ht => ?_) (le_refl _))
    (h.reached.trans (Nat.le_succ _))
  · simp [Gateway.setState, h.states]
  · exact (h.sent tick ht).trans (Nat.le_succ _)

lemma keeps_handleTimeout (playerId : PlayerId) :
    (handleTimeout playerId tableId).Keeps (GatewayCmd.exec config) (Gateway.Stored t) := by
  refine keeps_idle_bind rfl fun _ => keeps_idle_bind rfl fun applied => ?_
  split
  · refine keeps_idle_bind rfl fun found => ?_
    cases found with
    | none => exact keeps_raise _
    | some state => exact keeps_adopt
  · exact keeps_raise _

lemma keeps_body {r : GatewayCall} (hr : r.plays = true) :
    (r.body config).Keeps (GatewayCmd.exec config) (Gateway.Stored t) := by
  cases r with
  | message client message =>
    cases message with
    | action actionId rest => exact keeps_handleAction rest
    | _ => cases hr
  | timeout playerId tableId => exact keeps_handleTimeout playerId
  | trim => cases hr

/-- What happens between two requests. -/
lemma sameStored_env {s s' : Gateway} (h : s.Env config s') : s.SameStored s' := by
  cases h with
  | startSession tableId playerIds seed nonce hasRepo engine =>
    have hlog : s.SameStored (s.log (.started tableId engine)) :=
      sameStored_log fun _ _ _ h => by cases h
    exact ⟨rfl, rfl, rfl, rfl, hlog.sent⟩
  | disconnect client =>
    refine ⟨rfl, rfl, rfl, rfl, fun tick ht => ?_⟩
    rcases ht with ht | ⟨clientId, payload, ht⟩
    · exact Or.inl ht
    · refine Or.inr ⟨clientId, payload, ?_⟩
      by_cases hclient : clientId = client.id
      · subst hclient
        simp only [Gateway.disconnect, Function.update_self, nil_append] at ht
        exact mem_append_right _ ht
      · simpa only [Gateway.disconnect, Function.update_of_ne hclient] using ht
  | deliver clientId event rest hqueue =>
    refine ⟨rfl, rfl, rfl, rfl, fun tick ht => ?_⟩
    rcases sentTick_emit ht with (⟨tableId, payload, ht⟩ | ⟨client, payload, ht⟩) | ⟨payload, rfl⟩
    · exact Or.inl ⟨tableId, payload, ht⟩
    · refine Or.inr ⟨client, payload, ?_⟩
      by_cases hclient : client = clientId
      · subst hclient
        simp only [Function.update_self] at ht
        rw [hqueue]
        exact mem_cons_of_mem _ ht
      · simpa only [Function.update_of_ne hclient] using ht
    · exact Or.inr ⟨clientId, payload, by simp [hqueue]⟩
  | _ => exact ⟨rfl, rfl, rfl, rfl, fun _ h => h⟩

end Handlers

/-- Between two requests of every run. -/
lemma stored_of_served {config : GatewayConfig} {s : Gateway}
    (h : (servedRuns config).Reachable s) : s.Stored 0 := by
  refine h.invariant (I := Gateway.Stored 0) ?_ ?_
  · rintro _ ⟨now, flags, hands, draws, rfl⟩
    refine ⟨rfl, Nat.zero_le _, fun tick ht => ?_, le_refl _⟩
    rcases ht with ⟨tableId, payload, ht⟩ | ⟨clientId, payload, ht⟩
    · cases ht
    · cases ht
  · rintro s r s' hs hstep
    cases hstep with
    | serve r hplays _ => exact keeps_body hplays s hs
    | env henv => exact hs.congr (sameStored_env henv)

/-! ### What is restored -/

section Restored

variable {s : Gateway} {drawn : TableId → HandRNG} {tableId : TableId}

/-- A snapshot that may be taken for the table. -/
def Gateway.covers (tableId : TableId) (snap : TableId × ℕ × HeldState) : Bool :=
  decide (snap.1 = tableId) && isInternalGameState snap.2.2

/-- The snapshots fill the gaps of the map, and leave the rest. -/
lemma foldl_takeSnapshot (snapshots : List (TableId × ℕ × HeldState)) :
    (snapshots.foldl Gateway.takeSnapshot s).engines = s.engines ∧
      (snapshots.foldl Gateway.takeSnapshot s).storedStates = s.storedStates ∧
      (snapshots.foldl Gateway.takeSnapshot s).storedTick = s.storedTick ∧
      ∀ tableId, (snapshots.foldl Gateway.takeSnapshot s).states tableId =
        (s.states tableId).or ((snapshots.find? (Gateway.covers tableId)).map (·.2.2)) := by
  induction snapshots generalizing s with
  | nil => simp
  | cons snap snapshots ih =>
    rw [foldl_cons]
    obtain ⟨hengines, hstored, htick, hstates⟩ := ih (s := s.takeSnapshot snap)
    have htake : (s.takeSnapshot snap).engines = s.engines ∧
        (s.takeSnapshot snap).storedStates = s.storedStates ∧
        (s.takeSnapshot snap).storedTick = s.storedTick := by
      rw [Gateway.takeSnapshot]
      split_ifs <;> exact ⟨rfl, rfl, rfl⟩
    refine ⟨hengines.trans htake.1, hstored.trans htake.2.1, htick.trans htake.2.2,
      fun tableId => ?_⟩
    rw [hstates, Gateway.takeSnapshot, find?_cons]
    by_cases htable : snap.1 = tableId
    · subst htable
      cases hstate : s.states snap.1 with
      | none => cases hvalid : Gateway.isInternalGameState snap.2.2 <;>
          simp [Gateway.covers, hstate, hvalid]
      | some held => simp [hstate]
    · have hcovers : Gateway.covers tableId snap = false := by simp [Gateway.covers, htable]
      rw [hcovers]
      split_ifs <;> simp [Function.update_of_ne (Ne.symm htable)]

/-- A restored table has the state in Redis, or else its newest snapshot, as far as they have a
deck. -/
lemma restored_state :
    (s.restart drawn).restoreState.states tableId =
      ((s.storedStates tableId).filter Gateway.isInternalGameState).or
        (((Gateway.newestFirst s.snapshots).find? (Gateway.covers tableId)).map (·.2.2)) := by
  obtain ⟨-, hstored, -, hstates⟩ := foldl_takeSnapshot (s := s.restart drawn)
    (Gateway.newestFirst s.snapshots)
  simp only [Gateway.restoreState]
  rw [show (s.restart drawn).snapshots = s.snapshots from rfl, hstored, hstates]
  rfl

/-- No engine is restored. -/
lemma restored_engines : (s.restart drawn).restoreState.engines = fun _ => none :=
  (foldl_takeSnapshot (s := s.restart drawn) (Gateway.newestFirst s.snapshots)).1

lemma restored_tick_of_stored {tick : ℕ} (h : s.storedTick = some tick) :
    (s.restart drawn).restoreState.tick = tick := by
  have hstored := (foldl_takeSnapshot (s := s.restart drawn)
    (Gateway.newestFirst s.snapshots)).2.2.1
  simp only [Gateway.restoreState]
  rw [show (s.restart drawn).snapshots = s.snapshots from rfl, hstored,
    show (s.restart drawn).storedTick = s.storedTick from rfl, h]
  rfl

lemma find?_newestFirst_eq_none {snapshots : List (TableId × ℕ × HeldState)} :
    (Gateway.newestFirst snapshots).find? (Gateway.covers tableId) = none ↔
      ∀ snap ∈ snapshots, snap.2.2.hasDeck = true → snap.1 ≠ tableId := by
  rw [Gateway.newestFirst, find?_eq_none]
  refine forall_congr' fun snap => ?_
  rw [mem_mergeSort]
  refine imp_congr_right fun _ => ?_
  simp only [Gateway.covers, Gateway.isInternalGameState, Bool.and_eq_true, decide_eq_true_eq,
    not_and]
  exact imp_not_comm

/-- What is restored has a deck. -/
lemma hasDeck_of_restored {held : HeldState}
    (h : (s.restart drawn).restoreState.states tableId = some held) : held.hasDeck = true := by
  rw [restored_state, Option.or_eq_some_iff] at h
  rcases h with h | ⟨-, h⟩
  · exact (Option.filter_eq_some_iff.mp h).2
  · obtain ⟨snap, hfind, rfl⟩ := Option.map_eq_some_iff.mp h
    have hcovers := find?_some hfind
    simp only [Gateway.covers, Bool.and_eq_true] at hcovers
    exact hcovers.2

end Restored

/-- The tick is recovered. -/
theorem sentTick_le_restored {config : GatewayConfig} {s : Gateway} {drawn : TableId → HandRNG}
    {tick : ℕ} (h : (servedRuns config).Reachable s) (htick : s.SentTick tick) :
    tick ≤ (s.restart drawn).restoreState.tick := by
  have hstored := stored_of_served h
  have hle := (hstored.sent tick htick).trans hstored.stored
  cases hs : s.storedTick with
  | none =>
    rw [hs] at hle
    exact hle.trans (Nat.zero_le _)
  | some stored =>
    rw [restored_tick_of_stored hs]
    simpa [hs] using hle

/-- The map is rebuilt exactly when no table was left by a timeout, and every table that has a
snapshot with a deck has a hand in progress. -/
theorem restored_states_iff {config : GatewayConfig} {s : Gateway} {drawn : TableId → HandRNG}
    (h : (servedRuns config).Reachable s) :
    (s.restart drawn).restoreState.states = s.states ↔
      (∀ tableId held, s.states tableId = some held → held.hasDeck = true) ∧
        ∀ snap ∈ s.snapshots, snap.2.2.hasDeck = true → s.states snap.1 ≠ none := by
  have hstored := (stored_of_served h).states
  constructor
  · intro heq
    refine ⟨fun tableId held hheld => ?_, fun snap hsnap hdeck hnone => ?_⟩
    · rw [← heq] at hheld
      exact hasDeck_of_restored hheld
    · have hstate := congrFun heq snap.1
      rw [restored_state, hstored, hnone, Option.filter_none, Option.none_or,
        Option.map_eq_none_iff, find?_newestFirst_eq_none] at hstate
      exact hstate snap hsnap hdeck rfl
  · rintro ⟨hdecks, hsnaps⟩
    funext tableId
    rw [restored_state, hstored]
    cases hstate : s.states tableId with
    | some held => simp [Gateway.isInternalGameState, hdecks tableId held hstate]
    | none =>
      rw [Option.filter_none, Option.none_or, Option.map_eq_none_iff, find?_newestFirst_eq_none]
      rintro snap hsnap hdeck rfl
      exact hsnaps snap hsnap hdeck hstate

/-- The recovery does what it is for exactly when there is nothing to recover: no hand is in
progress, and no snapshot with a deck was stored. -/
theorem recovers_iff {config : GatewayConfig} {s : Gateway} {drawn : TableId → HandRNG}
    (h : (servedRuns config).Reachable s) :
    s.Recovers drawn ↔
      (∀ tableId, s.states tableId = none) ∧ ∀ snap ∈ s.snapshots, snap.2.2.hasDeck = false := by
  constructor
  · intro hrec
    -- a restored table would have to have an engine
    have hnone : ∀ tableId, s.states tableId = none := by
      intro tableId
      rw [← hrec.states]
      by_contra hstate
      obtain ⟨held, hheld⟩ := Option.ne_none_iff_exists'.mp hstate
      obtain ⟨engine, hengine, -⟩ := hrec.applies tableId held hheld
      rw [restored_engines] at hengine
      cases hengine
    refine ⟨hnone, fun snap hsnap => Bool.eq_false_iff.mpr fun hdeck => ?_⟩
    exact ((restored_states_iff h).mp hrec.states).2 snap hsnap hdeck (hnone snap.1)
  · rintro ⟨hnone, hsnaps⟩
    have hstates : (s.restart drawn).restoreState.states = s.states := by
      refine (restored_states_iff h).mpr ⟨fun tableId held hheld => ?_, fun snap hsnap hdeck => ?_⟩
      · rw [hnone] at hheld
        cases hheld
      · rw [hsnaps snap hsnap] at hdeck
        cases hdeck
    refine ⟨hstates, fun tick htick => sentTick_le_restored h htick,
      fun tableId held hheld => ?_⟩
    rw [hstates, hnone] at hheld
    cases hheld

lemma served_twoConnected : (servedRuns zeroSeedConfig).Reachable twoConnected := by
  have henv : ∀ {s s' : Gateway}, (servedRuns zeroSeedConfig).Reachable s →
      Gateway.Env zeroSeedConfig s s' → (servedRuns zeroSeedConfig).Reachable s' :=
    fun h hs => h.tail (a := none) (.env hs)
  apply henv _ (.connect (socketOf "B"))
  apply henv _ (.connect (socketOf "A"))
  apply henv _ (.startSession "t1" ["A", "B"] zeroSeed zeroNonce false _ rfl rfl)
  exact .of_init ⟨0, none, none, fun _ => (zeroSeed, zeroNonce), rfl⟩

/-- A session whose first hand has not begun. -/
theorem recovers_iff_twoConnected : twoConnected.Recovers twoConnected.drawn :=
  (recovers_iff served_twoConnected).mpr ⟨fun _ => rfl, fun snap hsnap => by cases hsnap⟩

/-- The session after the small blind. -/
def smallBlindPosted : Gateway :=
  (((playerAction "A" "a1" (.postBlind "A" 1)).body zeroSeedConfig).run
    (GatewayCmd.exec zeroSeedConfig) twoConnected).2

/-- The hand is in the restored map, and no engine to go on with it. -/
theorem hand_not_recovered : ¬ ∀ (config : GatewayConfig) (s : Gateway) (drawn : TableId → HandRNG),
    (servedRuns config).Reachable s → s.Recovers drawn := by
  intro h
  have hreach : (servedRuns zeroSeedConfig).Reachable smallBlindPosted :=
    served_twoConnected.tail (.serve (playerAction "A" "a1" (.postBlind "A" 1)) rfl trivial)
  have hrec := h zeroSeedConfig smallBlindPosted smallBlindPosted.drawn hreach
  have hstate : (smallBlindPosted.states "t1").isSome = true := by decide +kernel
  obtain ⟨state, hstate⟩ := Option.isSome_iff_exists.mp hstate
  rw [← hrec.states] at hstate
  obtain ⟨engine, hengine, -⟩ := hrec.applies "t1" state hstate
  rw [restored_engines] at hengine
  cases hengine

end Pokerhub
