import Pokerhub.Core.TaskQueue
import Pokerhub.Game.Gateway
import Pokerhub.Game.Sanitize

/-!
# Spectators

`SpectatorGateway` of `spectator.gateway.ts`. A client is sent the public state of its room, and
after that every state the room emits, each through a queue of its own that runs one task at a
time and holds no more than `queueLimit` frames. The queue is made when the first frame is to be
sent, and the listener on the room is registered after that.

A client sees no frame out of order and no hole cards (`frames_in_order`). A client that leaves
before its listener is registered leaves the listener behind (`listening_of_closed`).
-/

namespace Pokerhub.Spectate

open TaskQueue TransitionSystem List

/-- How far `handleConnection` has come. -/
inductive Stage where
  /-- `await room.getPublicState()` -/
  | asking
  /-- `await creation` in the first `enqueue`, with the payload of that call -/
  | enqueuing (promise : ℕ) (payload : GameState)
  /-- back from the first `enqueue` -/
  | enqueued
  | watching
  | failed
  deriving DecidableEq

/-- The promise of a new queue. -/
inductive Creation where
  | pending
  | created (queue : ℕ)
  | rejected
  deriving DecidableEq

/-- What the gateway and the socket server hold for one client: its entries in the maps `queues`
and `queuePromises`, the promises and the queues that were made for it, the calls of `enqueue`
other than the first that wait for a promise, and whether its listener is registered. -/
structure Spectator where
  table : TableId
  connected : Bool := true
  stage : Stage := .asking
  listening : Bool := false
  queue : Option ℕ := none
  queuePromise : Option ℕ := none
  creations : List Creation := []
  made : List (Account GameState) := []
  waiting : List (ℕ × GameState) := []
  /-- The payloads `enqueue` was called with. -/
  offered : List GameState := []
  /-- The payloads that `client.emit` was called with. -/
  emitted : List GameState := []
  /-- The number of states that all rooms had emitted when the listener was registered, and when
  the client left. -/
  since : ℕ := 0
  closedAt : ℕ := 0
  /-- The client left before its listener was registered. -/
  early : Bool := false

namespace Spectator

/-! ### The calls of one client -/

/-- The end of `enqueue`, once there is a queue. -/
def offer (queueLimit : ℕ) (s : Spectator) (h : ℕ) (payload : GameState) : Spectator :=
  match s.made[h]? with
  | none => s
  | some queue =>
    if queue.depth ≥ queueLimit then s
    else { s with made := s.made.set h (queue.add payload) }

/-- `enqueue`, up to where it awaits the promise of a queue, which it names then. -/
def enqueue (queueLimit : ℕ) (s : Spectator) (payload : GameState) : Spectator × Option ℕ :=
  let s := { s with offered := s.offered ++ [payload] }
  match s.queue with
  | some h => (s.offer queueLimit h payload, none)
  | none =>
    match s.queuePromise with
    | some p => (s, some p)
    | none =>
      ({ s with
          creations := s.creations ++ [.pending]
          queuePromise := some s.creations.length },
        some s.creations.length)

/-- The room answers the call of `getPublicState`. -/
def answer (queueLimit : ℕ) (state : GameStateInternal) (now : ℕ) (s : Spectator) : Spectator :=
  let payload := sanitize state none now
  match s.enqueue queueLimit payload with
  | (s, none) => { s with stage := .enqueued }
  | (s, some p) => { s with stage := .enqueuing p payload }

/-- `loadPQueue` has ended, and if it succeeded there is a new queue. -/
def create (p : ℕ) (ok : Bool) (s : Spectator) : Spectator :=
  if ok then
    { s with
      creations := s.creations.set p (.created s.made.length)
      made := s.made ++ [{}]
      queue := some s.made.length }
  else { s with creations := s.creations.set p .rejected }

/-- The first `enqueue` goes on after the promise of its queue was settled. -/
def resume (queueLimit : ℕ) (creation : Creation) (payload : GameState) (s : Spectator) :
    Spectator :=
  match creation with
  | .pending => s
  | .rejected => { s with queuePromise := none, stage := .failed }
  | .created h =>
    { ({ s with queuePromise := none } : Spectator).offer queueLimit h payload with
      stage := .enqueued }

/-- The same for another call of `enqueue`. -/
def resumeWaiting (queueLimit : ℕ) (creation : Creation) (i : ℕ) (payload : GameState)
    (s : Spectator) : Spectator :=
  match creation with
  | .pending => s
  | .rejected => { s with queuePromise := none, waiting := s.waiting.eraseIdx i }
  | .created h =>
    ({ s with queuePromise := none, waiting := s.waiting.eraseIdx i } : Spectator).offer
      queueLimit h payload

/-- The rest of `handleConnection`. -/
def subscribe (published : ℕ) (s : Spectator) : Spectator :=
  { s with stage := .watching, listening := true, since := published }

/-- The client leaves: the handler that `handleConnection` has set up, if it came so far, and
`handleDisconnect`. -/
def disconnect (published : ℕ) (s : Spectator) : Spectator :=
  { s with
    connected := false
    listening := if s.stage = .watching then false else s.listening
    made :=
      match s.queue with
      | none => s.made
      | some h => s.made.modify h Account.clear
    queue := none
    queuePromise := none
    closedAt := published
    early := s.stage ≠ .watching }

/-- The listener of a client hears of a state of its room. -/
def hear (queueLimit : ℕ) (state : GameStateInternal) (now : ℕ) (s : Spectator) : Spectator :=
  if s.connected then
    let payload := sanitize state none now
    match s.enqueue queueLimit payload with
    | (s, none) => s
    | (s, some p) => { s with waiting := s.waiting ++ [(p, payload)] }
  else s

/-- The turns that the calls for a client take, when the rooms have emitted `published` states. -/
inductive Turn (queueLimit published : ℕ) : Spectator → Spectator → Prop
  | answer {s} (state : GameStateInternal) (now : ℕ) (h : s.stage = .asking) :
    Turn queueLimit published s (s.answer queueLimit state now)
  | refuse {s} (h : s.stage = .asking) :
    Turn queueLimit published s { s with stage := .failed }
  | create {s p} (ok : Bool) (h : s.creations[p]? = some .pending) :
    Turn queueLimit published s (s.create p ok)
  | resume {s p creation payload} (hstage : s.stage = .enqueuing p payload)
      (h : s.creations[p]? = some creation) (hsettled : creation ≠ .pending) :
    Turn queueLimit published s (s.resume queueLimit creation payload)
  | resumeWaiting {s i p creation payload} (hwaiting : s.waiting[i]? = some (p, payload))
      (h : s.creations[p]? = some creation) (hsettled : creation ≠ .pending) :
    Turn queueLimit published s (s.resumeWaiting queueLimit creation i payload)
  | subscribe {s} (h : s.stage = .enqueued) : Turn queueLimit published s (s.subscribe published)
  | disconnect {s} (h : s.connected = true) : Turn queueLimit published s (s.disconnect published)
  | work {s h queue queue'} (hqueue : s.made[h]? = some queue) (hmoves : queue.Moves queue') :
    Turn queueLimit published s
      { s with
        made := s.made.set h queue'
        emitted := s.emitted ++ queue'.log.drop queue.log.length }

lemma enqueue_of_queue {queueLimit : ℕ} {s : Spectator} {payload : GameState} {h : ℕ}
    (hqueue : s.queue = some h) :
    s.enqueue queueLimit payload =
      (({ s with offered := s.offered ++ [payload] } : Spectator).offer queueLimit h payload,
        none) := by
  simp [enqueue, hqueue]

end Spectator

/-! ### The gateway -/

structure SpectatorGateway where
  spectators : List Spectator := []
  /-- The states the rooms have emitted, with the time. -/
  published : List (TableId × GameStateInternal × ℕ) := []

namespace SpectatorGateway

inductive Event where
  | connect (table : TableId)
  | turn (i : ℕ)
  | publish (table : TableId) (state : GameStateInternal) (now : ℕ)

/-- The listeners of a room hear of a state. -/
def publish (queueLimit : ℕ) (g : SpectatorGateway) (table : TableId) (state : GameStateInternal)
    (now : ℕ) : SpectatorGateway where
  spectators := g.spectators.map fun s =>
    if s.listening && s.table == table then s.hear queueLimit state now else s
  published := g.published ++ [(table, state, now)]

inductive Step (queueLimit : ℕ) : SpectatorGateway → Event → SpectatorGateway → Prop
  | connect {g} (table : TableId) :
    Step queueLimit g (.connect table) { g with spectators := g.spectators ++ [{ table }] }
  | turn {g : SpectatorGateway} {i : ℕ} {s s' : Spectator} (hi : g.spectators[i]? = some s)
      (h : Spectator.Turn queueLimit g.published.length s s') :
    Step queueLimit g (.turn i) { g with spectators := g.spectators.set i s' }
  | publish {g} (table : TableId) (state : GameStateInternal) (now : ℕ) :
    Step queueLimit g (.publish table state now) (g.publish queueLimit table state now)

def system (queueLimit : ℕ) : TransitionSystem SpectatorGateway Event where
  init g := g = {}
  step := Step queueLimit

end SpectatorGateway

/-! ### What holds of a client -/

/-- The frames that a room's states make. -/
def shown (table : TableId) (published : List (TableId × GameStateInternal × ℕ)) : List GameState :=
  (published.filter fun e => e.1 == table).map fun e => sanitize e.2.1 none e.2.2

namespace Spectator

/-- A frame of a room's public state. -/
def FromRoom (frame : GameState) : Prop :=
  ∃ state now, frame = sanitize state none now

/-- The states that were emitted while the client was watching. -/
def window (published : List (TableId × GameStateInternal × ℕ)) (s : Spectator) :
    List (TableId × GameStateInternal × ℕ) :=
  if s.connected then published.drop s.since else (published.take s.closedAt).drop s.since

/-- The client has its queue. -/
def Queued (s : Spectator) : Prop :=
  s.creations = [.created 0] ∧ (∃ queue, s.made = [queue]) ∧ (s.connected = true → s.queue = some 0)

/-- What was made for the client and offered to it, stage by stage. -/
def Fits (published : List (TableId × GameStateInternal × ℕ)) (s : Spectator) : Stage → Prop
  | .asking => s.creations = [] ∧ s.made = [] ∧ s.queue = none ∧ s.queuePromise = none ∧
      s.offered = []
  | .enqueuing p payload => p = 0 ∧ FromRoom payload ∧ s.offered = [payload] ∧
      ((s.creations = [.pending] ∨ s.creations = [.rejected]) ∧ s.made = [] ∨
        s.Queued ∧ ∀ queue ∈ s.made, queue.added = [])
  | .enqueued => s.Queued ∧ ∃ first, FromRoom first ∧ s.offered = [first]
  | .watching => s.Queued ∧
      ∃ first, FromRoom first ∧ s.offered = first :: shown s.table (s.window published)
  | .failed => s.made = [] ∧ (s.creations = [] ∨ s.creations = [.rejected]) ∧
      (s.offered = [] ∨ ∃ first, FromRoom first ∧ s.offered = [first])

/-- What holds of a client in every state of every run. -/
structure Sound (queueLimit : ℕ) (published : List (TableId × GameStateInternal × ℕ))
    (s : Spectator) : Prop where
  fits : s.Fits published s.stage
  waiting : s.waiting = []
  since_le : s.since ≤ published.length
  closedAt_le : s.closedAt ≤ published.length
  early : s.connected = false → s.stage ≠ .watching → s.early = true
  listening : s.listening = true ↔ s.stage = .watching ∧ (s.connected = true ∨ s.early = true)
  queue : ∀ h ∈ s.queue, h = 0 ∧ s.made ≠ [] ∧ (s.connected = false → s.early = true)
  valid : ∀ queue ∈ s.made,
    queue.Valid ∧ queue.added.Sublist s.offered ∧ queue.depth ≤ queueLimit
  emitted : s.emitted = s.made.flatMap Account.log

lemma sound_connect (queueLimit : ℕ) (published : List (TableId × GameStateInternal × ℕ))
    (table : TableId) : Sound queueLimit published { table } where
  fits := ⟨rfl, rfl, rfl, rfl, rfl⟩
  waiting := rfl
  since_le := Nat.zero_le _
  closedAt_le := Nat.zero_le _
  early h := by cases h
  listening := by simp
  queue h hh := absurd hh (Option.not_mem_none _)
  valid queue h := absurd h not_mem_nil
  emitted := rfl

/-- A frame that is offered is added to the queue, or the queue stays as it is. -/
lemma offer_spec {queueLimit : ℕ} (s : Spectator) {queue : Account GameState} (payload : GameState)
    (hmade : s.made = [queue]) (hvalid : queue.Valid) (hdepth : queue.depth ≤ queueLimit)
    (hadded : (queue.added ++ [payload]).Sublist s.offered) :
    ∃ queue', s.offer queueLimit 0 payload = { s with made := [queue'] } ∧ queue'.Valid ∧
      queue'.added.Sublist s.offered ∧ queue'.depth ≤ queueLimit ∧ queue'.log = queue.log := by
  have hget : s.made[0]? = some queue := by rw [hmade]; rfl
  simp only [offer, hget]
  split_ifs with hfull
  · refine ⟨queue, by rw [← hmade], hvalid, ?_, hdepth, rfl⟩
    exact (sublist_append_left _ _).trans hadded
  · refine ⟨queue.add payload, by rw [hmade]; rfl, hvalid.add payload, ?_, ?_, rfl⟩
    · rwa [Account.added_add]
    · rw [Account.depth_add]
      exact Nat.lt_of_not_le hfull

section Turns

variable {queueLimit : ℕ} {published : List (TableId × GameStateInternal × ℕ)} {s : Spectator}

lemma Sound.answer (h : Sound queueLimit published s) (hstage : s.stage = .asking)
    (state : GameStateInternal) (now : ℕ) :
    Sound queueLimit published (s.answer queueLimit state now) := by
  have hfits := h.fits
  rw [hstage] at hfits
  obtain ⟨hcreations, hmade, hqueue, hpromise, hoffered⟩ := hfits
  have heq : s.answer queueLimit state now =
      { s with
        offered := [sanitize state none now]
        creations := [.pending]
        queuePromise := some 0
        stage := .enqueuing 0 (sanitize state none now) } := by
    simp [Spectator.answer, enqueue, hqueue, hpromise, hcreations, hoffered]
  rw [heq]
  refine ⟨⟨rfl, ⟨state, now, rfl⟩, rfl, Or.inl ⟨Or.inl rfl, hmade⟩⟩, h.waiting, h.since_le,
    h.closedAt_le, fun hclosed _ => h.early hclosed (by rw [hstage]; simp), ?_, ?_, ?_, h.emitted⟩
  · have hoff : s.listening = false := by
      rw [← Bool.not_eq_true, h.listening, hstage]
      simp
    simp [hoff]
  · intro k hk
    rw [hqueue] at hk
    exact absurd hk (Option.not_mem_none _)
  · intro queue hq
    rw [hmade] at hq
    exact absurd hq not_mem_nil

lemma Sound.refuse (h : Sound queueLimit published s) (hstage : s.stage = .asking) :
    Sound queueLimit published { s with stage := .failed } := by
  have hfits := h.fits
  rw [hstage] at hfits
  obtain ⟨hcreations, hmade, hqueue, hpromise, hoffered⟩ := hfits
  refine ⟨⟨hmade, Or.inl hcreations, Or.inl hoffered⟩, h.waiting, h.since_le, h.closedAt_le,
    fun hclosed _ => h.early hclosed (by rw [hstage]; simp), ?_, h.queue, h.valid, h.emitted⟩
  have hoff := h.listening
  rw [hstage] at hoff
  simpa using hoff

/-- Only while the first frame waits for its queue is a creation open. -/
lemma Sound.creation_pending (h : Sound queueLimit published s) {p : ℕ}
    (hp : s.creations[p]? = some .pending) :
    p = 0 ∧ s.creations = [.pending] ∧ s.made = [] ∧
      ∃ payload, FromRoom payload ∧ s.stage = .enqueuing 0 payload ∧ s.offered = [payload] := by
  have hfits := h.fits
  have hone : ∀ c : Creation, c ≠ .pending → s.creations ≠ [c] := by
    intro c hc heq
    rw [heq] at hp
    cases p with
    | zero => exact hc (Option.some.inj hp)
    | succ p => exact absurd hp.symm (Option.some_ne_none _)
  have hnil : s.creations ≠ [] := by
    intro heq
    rw [heq] at hp
    exact absurd hp.symm (Option.some_ne_none _)
  have hnot : ¬ s.Queued := fun hq => hone _ (by simp) hq.1
  cases hstage : s.stage with
  | asking =>
    rw [hstage] at hfits
    exact absurd hfits.1 hnil
  | enqueuing q payload =>
    rw [hstage] at hfits
    obtain ⟨rfl, hroom, hoffered, ⟨hpending | hrejected, hmade⟩ | ⟨hq, -⟩⟩ := hfits
    · refine ⟨?_, hpending, hmade, payload, hroom, rfl, hoffered⟩
      cases p with
      | zero => rfl
      | succ p =>
        rw [hpending] at hp
        exact absurd hp.symm (Option.some_ne_none _)
    · exact absurd hrejected (hone _ (by simp))
    · exact absurd hq hnot
  | enqueued =>
    rw [hstage] at hfits
    exact absurd hfits.1 hnot
  | watching =>
    rw [hstage] at hfits
    exact absurd hfits.1 hnot
  | failed =>
    rw [hstage] at hfits
    rcases hfits.2.1 with hnone | hrejected
    · exact absurd hnone hnil
    · exact absurd hrejected (hone _ (by simp))

lemma Sound.create (h : Sound queueLimit published s) {p : ℕ} (ok : Bool)
    (hp : s.creations[p]? = some .pending) : Sound queueLimit published (s.create p ok) := by
  obtain ⟨rfl, hcreations, hmade, payload, hroom, hstage, hoffered⟩ := h.creation_pending hp
  have hlistening := h.listening
  have hearly : s.connected = false → s.early = true := fun hclosed =>
    h.early hclosed (by rw [hstage]; simp)
  cases ok with
  | false =>
    have heq : s.create 0 false = { s with creations := [.rejected] } := by
      rw [Spectator.create, if_neg (by simp), hcreations]
      rfl
    rw [heq]
    refine ⟨?_, h.waiting, h.since_le, h.closedAt_le, h.early, h.listening, h.queue, h.valid,
      h.emitted⟩
    have hfits : Fits published { s with creations := [.rejected] } (.enqueuing 0 payload) :=
      ⟨rfl, hroom, hoffered, Or.inl ⟨Or.inr rfl, hmade⟩⟩
    rwa [← hstage] at hfits
  | true =>
    have heq : s.create 0 true =
        { s with creations := [.created 0], made := [{}], queue := some 0 } := by
      rw [Spectator.create, if_pos rfl, hcreations, hmade]
      rfl
    rw [heq]
    refine ⟨?_, h.waiting, h.since_le, h.closedAt_le, h.early, h.listening, ?_, ?_, ?_⟩
    · have hfits : Fits published
          { s with creations := [.created 0], made := [{}], queue := some 0 }
          (.enqueuing 0 payload) := by
        refine ⟨rfl, hroom, hoffered, Or.inr ⟨⟨rfl, ⟨_, rfl⟩, fun _ => rfl⟩, fun queue hq => ?_⟩⟩
        rw [mem_singleton.mp hq]
        rfl
      rwa [← hstage] at hfits
    · intro k hk
      obtain rfl := Option.some.inj hk
      exact ⟨rfl, cons_ne_nil _ _, hearly⟩
    · intro queue hq
      rw [mem_singleton.mp hq]
      exact ⟨.init, nil_sublist _, Nat.zero_le _⟩
    · rw [h.emitted, hmade]
      rfl

/-- A client whose listener is not registered yet. -/
lemma Sound.not_listening (h : Sound queueLimit published s) (hstage : s.stage ≠ .watching) :
    s.listening = false := by
  rw [← Bool.not_eq_true, h.listening]
  exact fun hwatching => hstage hwatching.1

lemma Sound.resume (h : Sound queueLimit published s) {p : ℕ} {payload : GameState}
    {creation : Creation} (hstage : s.stage = .enqueuing p payload)
    (hp : s.creations[p]? = some creation) (hsettled : creation ≠ .pending) :
    Sound queueLimit published (s.resume queueLimit creation payload) := by
  have hfits := h.fits
  rw [hstage] at hfits
  have hoff := h.not_listening (by rw [hstage]; simp)
  have hearly : s.connected = false → s.early = true := fun hclosed =>
    h.early hclosed (by rw [hstage]; simp)
  obtain ⟨rfl, hroom, hoffered,
    ⟨hcreations, hmade⟩ | ⟨⟨hcreations, ⟨queue, hmade⟩, hqueue⟩, hnew⟩⟩ := hfits
  · -- there is no queue: the creation was rejected
    rcases hcreations with hpending | hrejected
    · rw [hpending] at hp
      exact absurd (Option.some.inj hp).symm hsettled
    · rw [hrejected] at hp
      obtain rfl := Option.some.inj hp
      refine ⟨⟨hmade, Or.inr hrejected, Or.inr ⟨payload, hroom, hoffered⟩⟩, h.waiting, h.since_le,
        h.closedAt_le, fun hclosed _ => hearly hclosed, ?_, h.queue, h.valid, h.emitted⟩
      simp [Spectator.resume, hoff]
  · -- the frame is offered to the new queue
    rw [hcreations] at hp
    obtain rfl := Option.some.inj hp
    have hmem : queue ∈ s.made := by rw [hmade]; exact mem_singleton_self _
    have hvalid := h.valid queue hmem
    have hadded : (queue.added ++ [payload]).Sublist s.offered := by
      rw [hnew queue hmem, hoffered]
      exact Sublist.refl _
    obtain ⟨queue', hoffer, hvalid', hadded', hdepth', hlog⟩ :=
      offer_spec { s with queuePromise := none } payload hmade hvalid.1 hvalid.2.2 hadded
    simp only [Spectator.resume, hoffer]
    refine ⟨⟨⟨hcreations, ⟨queue', rfl⟩, hqueue⟩, payload, hroom, hoffered⟩, h.waiting, h.since_le,
      h.closedAt_le, fun hclosed _ => hearly hclosed, ?_, ?_, ?_, ?_⟩
    · simp [hoff]
    · exact fun k hk => ⟨(h.queue k hk).1, cons_ne_nil _ _, (h.queue k hk).2.2⟩
    · intro q hq
      rw [mem_singleton.mp hq]
      exact ⟨hvalid', hadded', hdepth'⟩
    · rw [h.emitted, hmade, flatMap_singleton, flatMap_singleton, hlog]

lemma Sound.subscribe (h : Sound queueLimit published s) (hstage : s.stage = .enqueued) :
    Sound queueLimit published (s.subscribe published.length) := by
  have hfits := h.fits
  rw [hstage] at hfits
  obtain ⟨hqueued, first, hroom, hoffered⟩ := hfits
  have hearly : s.connected = false → s.early = true := fun hclosed =>
    h.early hclosed (by rw [hstage]; simp)
  have hwindow : (s.subscribe published.length).window published = [] := by
    unfold window Spectator.subscribe
    dsimp only
    split_ifs
    · exact drop_length
    · exact drop_eq_nil_of_le (length_take_le' _ _)
  refine ⟨⟨hqueued, first, hroom, ?_⟩, h.waiting, le_refl _, h.closedAt_le,
    fun hclosed _ => hearly hclosed, ?_, h.queue, h.valid, h.emitted⟩
  · rw [hwindow]
    exact hoffered
  · have hor : s.connected = true ∨ s.early = true := by
      cases hconnected : s.connected with
      | true => exact Or.inl rfl
      | false => exact Or.inr (hearly hconnected)
    simp [Spectator.subscribe, hor]

lemma Sound.made_le (h : Sound queueLimit published s) :
    s.made = [] ∨ ∃ queue, s.made = [queue] := by
  have hfits := h.fits
  cases hstage : s.stage with
  | asking =>
    rw [hstage] at hfits
    exact Or.inl hfits.2.1
  | enqueuing p payload =>
    rw [hstage] at hfits
    obtain ⟨-, -, -, ⟨-, hmade⟩ | ⟨hqueued, -⟩⟩ := hfits
    · exact Or.inl hmade
    · exact Or.inr hqueued.2.1
  | enqueued =>
    rw [hstage] at hfits
    exact Or.inr hfits.1.2.1
  | watching =>
    rw [hstage] at hfits
    exact Or.inr hfits.1.2.1
  | failed =>
    rw [hstage] at hfits
    exact Or.inl hfits.1

/-- The queues of a client after some steps of theirs. -/
def Remade (made made' : List (Account GameState)) : Prop :=
  made = [] ∧ made' = [] ∨
    ∃ queue queue', made = [queue] ∧ made' = [queue'] ∧ queue'.added = queue.added

/-- What was made for a client and offered to it stays as it is when its queue goes on. -/
lemma Fits.remake {made' : List (Account GameState)} {stage : Stage}
    (h : s.Fits published stage) (hmade : Remade s.made made') :
    ({ s with made := made' } : Spectator).Fits published stage := by
  rcases hmade with ⟨hmade, rfl⟩ | ⟨queue, queue', hmade, rfl, hadded⟩
  · rw [← hmade]
    exact h
  · have hnil : s.made ≠ [] := by rw [hmade]; exact cons_ne_nil _ _
    cases stage with
    | asking => exact absurd h.2.1 hnil
    | failed => exact absurd h.1 hnil
    | enqueuing p payload =>
      obtain ⟨hp, hroom, hoffered, ⟨-, hnone⟩ | ⟨hqueued, hnew⟩⟩ := h
      · exact absurd hnone hnil
      · refine ⟨hp, hroom, hoffered, Or.inr ⟨⟨hqueued.1, ⟨queue', rfl⟩, hqueued.2.2⟩, ?_⟩⟩
        intro q hq
        rw [mem_singleton.mp hq, hadded]
        exact hnew queue (by rw [hmade]; exact mem_singleton_self _)
    | enqueued => exact ⟨⟨h.1.1, ⟨queue', rfl⟩, h.1.2.2⟩, h.2⟩
    | watching => exact ⟨⟨h.1.1, ⟨queue', rfl⟩, h.1.2.2⟩, h.2⟩

/-- The same when the client leaves. -/
lemma Fits.leave {stage : Stage} (listening early : Bool) (h : s.Fits published stage)
    (hconnected : s.connected = true) :
    ({ s with
        connected := false
        listening := listening
        queue := none
        queuePromise := none
        closedAt := published.length
        early := early } : Spectator).Fits published stage := by
  have hqueued : s.Queued → ({ s with
        connected := false
        listening := listening
        queue := none
        queuePromise := none
        closedAt := published.length
        early := early } : Spectator).Queued :=
    fun hq => ⟨hq.1, hq.2.1, fun hfalse => absurd hfalse (by simp)⟩
  cases stage with
  | asking => exact ⟨h.1, h.2.1, rfl, rfl, h.2.2.2.2⟩
  | enqueuing p payload => exact ⟨h.1, h.2.1, h.2.2.1, h.2.2.2.imp_right (And.imp_left hqueued)⟩
  | enqueued => exact ⟨hqueued h.1, h.2⟩
  | watching =>
    obtain ⟨hq, first, hroom, hoffered⟩ := h
    refine ⟨hqueued hq, first, hroom, ?_⟩
    rw [window, if_pos hconnected] at hoffered
    rw [window, if_neg (by simp)]
    dsimp only
    rw [take_length]
    exact hoffered
  | failed => exact h

lemma Sound.disconnect (h : Sound queueLimit published s) (hconnected : s.connected = true) :
    Sound queueLimit published (s.disconnect published.length) := by
  -- the queue that is cleared is the one of the client
  have hmade : ∃ made', (s.disconnect published.length).made = made' ∧ Remade s.made made' ∧
      made'.flatMap Account.log = s.made.flatMap Account.log ∧ ∀ queue' ∈ made',
        queue'.Valid ∧ queue'.added.Sublist s.offered ∧ queue'.depth ≤ queueLimit := by
    refine ⟨_, rfl, ?_⟩
    have hsame : Remade s.made s.made := by
      rcases h.made_le with hnil | ⟨queue, hone⟩
      · exact Or.inl ⟨hnil, hnil⟩
      · exact Or.inr ⟨queue, queue, hone, hone, rfl⟩
    cases hqueue : s.queue with
    | none =>
      simp only [Spectator.disconnect, hqueue]
      exact ⟨hsame, trivial, h.valid⟩
    | some k =>
      obtain ⟨rfl, hne, -⟩ := h.queue k hqueue
      obtain ⟨queue, hone⟩ := h.made_le.resolve_left hne
      obtain ⟨hvalid, hadded, hdepth⟩ := h.valid queue (by rw [hone]; exact mem_singleton_self _)
      simp only [Spectator.disconnect, hqueue, hone, modify_zero_cons]
      refine ⟨Or.inr ⟨queue, queue.clear, rfl, rfl, Account.added_clear queue⟩, ?_, ?_⟩
      · simp [Account.clear]
      · intro queue' hq
        rw [mem_singleton.mp hq]
        refine ⟨hvalid.clear, ?_, ?_⟩
        · rwa [Account.added_clear]
        · rw [Account.depth_clear]
          exact (Nat.le_add_left _ _).trans hdepth
  obtain ⟨made', hmade', hremade, hlog, hvalid⟩ := hmade
  refine ⟨?_, h.waiting, h.since_le, le_refl _, ?_, ?_, ?_, ?_, ?_⟩
  · have hfits := (h.fits.remake hremade).leave (s.disconnect published.length).listening
      (s.disconnect published.length).early hconnected
    rw [← hmade'] at hfits
    exact hfits
  · intro _ hstage
    simpa [Spectator.disconnect] using hstage
  · by_cases hstage : s.stage = .watching
    · simp [Spectator.disconnect, hstage]
    · simp [Spectator.disconnect, hstage, h.not_listening hstage]
  · intro k hk
    exact absurd hk (Option.not_mem_none _)
  · rw [hmade']
    exact hvalid
  · rw [hmade', hlog]
    exact h.emitted

lemma Sound.work (h : Sound queueLimit published s) {k : ℕ} {queue queue' : Account GameState}
    (hqueue : s.made[k]? = some queue) (hmoves : queue.Moves queue') :
    Sound queueLimit published
      { s with
        made := s.made.set k queue'
        emitted := s.emitted ++ queue'.log.drop queue.log.length } := by
  have hne : s.made ≠ [] := by
    intro hnil
    rw [hnil] at hqueue
    exact absurd hqueue.symm (Option.some_ne_none _)
  obtain ⟨q, hone⟩ := h.made_le.resolve_left hne
  rw [hone] at hqueue
  cases k with
  | succ k => exact absurd hqueue.symm (Option.some_ne_none _)
  | zero =>
    obtain rfl := Option.some.inj hqueue
    obtain ⟨hvalid, hadded, hdepth⟩ := h.valid q (by rw [hone]; exact mem_singleton_self _)
    have hset : s.made.set 0 queue' = [queue'] := by rw [hone]; rfl
    rw [hset]
    refine ⟨?_, h.waiting, h.since_le, h.closedAt_le, h.early, h.listening, ?_, ?_, ?_⟩
    · have hremade : Remade s.made [queue'] := Or.inr ⟨q, queue', hone, rfl, hmoves.added_eq⟩
      exact h.fits.remake hremade
    · exact fun k hk => ⟨(h.queue k hk).1, cons_ne_nil _ _, (h.queue k hk).2.2⟩
    · intro q' hq'
      rw [mem_singleton.mp hq']
      exact ⟨hvalid.move hmoves, hmoves.added_eq ▸ hadded, hmoves.depth_le.trans hdepth⟩
    · dsimp only
      rw [h.emitted, hone, flatMap_singleton, flatMap_singleton]
      exact prefix_iff_eq_append.mp hmoves.log_prefix

/-- Every turn of the calls for a client keeps what holds of it. -/
lemma Sound.turn (h : Sound queueLimit published s) {s' : Spectator}
    (hturn : Turn queueLimit published.length s s') : Sound queueLimit published s' := by
  cases hturn with
  | answer state now hstage => exact h.answer hstage state now
  | refuse hstage => exact h.refuse hstage
  | create ok hp => exact h.create ok hp
  | resume hstage hp hsettled => exact h.resume hstage hp hsettled
  | resumeWaiting hwaiting =>
    rw [h.waiting] at hwaiting
    exact absurd hwaiting.symm (Option.some_ne_none _)
  | subscribe hstage => exact h.subscribe hstage
  | disconnect hconnected => exact h.disconnect hconnected
  | work hqueue hmoves => exact h.work hqueue hmoves

/-! ### A room emits a state -/

variable {table : TableId} {state : GameStateInternal} {now : ℕ}

lemma shown_append (table : TableId)
    (published published' : List (TableId × GameStateInternal × ℕ)) :
    shown table (published ++ published') = shown table published ++ shown table published' := by
  rw [shown, filter_append, map_append]
  rfl

lemma window_connected (hconnected : s.connected = true) (hsince : s.since ≤ published.length) :
    s.window (published ++ [(table, state, now)]) =
      s.window published ++ [(table, state, now)] := by
  rw [window, window, if_pos hconnected, if_pos hconnected]
  exact drop_append_of_le_length hsince

lemma window_closed (hconnected : s.connected = false) (hclosed : s.closedAt ≤ published.length) :
    s.window (published ++ [(table, state, now)]) = s.window published := by
  rw [window, window, if_neg (by simp [hconnected]), if_neg (by simp [hconnected]),
    take_append_of_le_length hclosed]

/-- What holds of a client that does not hear of the state. -/
lemma Sound.unheard (h : Sound queueLimit published s)
    (hnot : s.connected = true → s.listening = true → s.table ≠ table) :
    Sound queueLimit (published ++ [(table, state, now)]) s := by
  have hle : published.length ≤ (published ++ [(table, state, now)]).length := by simp
  refine ⟨?_, h.waiting, h.since_le.trans hle, h.closedAt_le.trans hle, h.early, h.listening,
    h.queue, h.valid, h.emitted⟩
  have hfits := h.fits
  cases hstage : s.stage with
  | watching =>
    rw [hstage] at hfits
    obtain ⟨hqueued, first, hroom, hoffered⟩ := hfits
    refine ⟨hqueued, first, hroom, ?_⟩
    cases hconnected : s.connected with
    | false =>
      rw [window_closed hconnected h.closedAt_le]
      exact hoffered
    | true =>
      have hother := hnot hconnected (h.listening.mpr ⟨hstage, Or.inl hconnected⟩)
      have hnone : shown s.table [(table, state, now)] = [] := by
        rw [shown, filter_cons_of_neg (by simpa using hother.symm)]
        rfl
      rw [window_connected hconnected h.since_le, shown_append, hnone, append_nil]
      exact hoffered
  | _ =>
    rw [hstage] at hfits
    exact hfits

/-- What holds of a client that hears of the state. -/
lemma Sound.hear (h : Sound queueLimit published s) (hlistening : s.listening = true)
    (htable : s.table = table) :
    Sound queueLimit (published ++ [(table, state, now)]) (s.hear queueLimit state now) := by
  cases hconnected : s.connected with
  | false =>
    have heq : s.hear queueLimit state now = s := by simp [Spectator.hear, hconnected]
    rw [heq]
    exact h.unheard fun htrue => by simp [hconnected] at htrue
  | true =>
    have hle : published.length ≤ (published ++ [(table, state, now)]).length := by simp
    have hstage := (h.listening.mp hlistening).1
    have hfits := h.fits
    rw [hstage] at hfits
    obtain ⟨⟨hcreations, ⟨queue, hmade⟩, hqueue⟩, first, hroom, hoffered⟩ := hfits
    have hsome := hqueue hconnected
    obtain ⟨hvalid, hadded, hdepth⟩ := h.valid queue (by rw [hmade]; exact mem_singleton_self _)
    obtain ⟨queue', hoffer, hvalid', hadded', hdepth', hlog⟩ :=
      offer_spec { s with offered := s.offered ++ [sanitize state none now] }
        (sanitize state none now) hmade hvalid hdepth (hadded.append (.refl _))
    have heq : s.hear queueLimit state now =
        { s with offered := s.offered ++ [sanitize state none now], made := [queue'] } := by
      rw [Spectator.hear, if_pos hconnected]
      dsimp only
      rw [enqueue_of_queue hsome]
      dsimp only
      rw [hoffer]
    rw [heq]
    refine ⟨?_, h.waiting, h.since_le.trans hle, h.closedAt_le.trans hle, h.early, h.listening, ?_,
      ?_, ?_⟩
    · have hshown : shown s.table [(table, state, now)] = [sanitize state none now] := by
        rw [shown, filter_cons_of_pos (by simp [htable])]
        rfl
      have hwindow : shown s.table (s.window (published ++ [(table, state, now)])) =
          shown s.table (s.window published) ++ [sanitize state none now] := by
        rw [window_connected hconnected h.since_le, shown_append, hshown]
      have hwatching : Fits (published ++ [(table, state, now)])
          { s with offered := s.offered ++ [sanitize state none now], made := [queue'] }
          .watching := by
        refine ⟨⟨hcreations, ⟨queue', rfl⟩, hqueue⟩, first, hroom, ?_⟩
        change s.offered ++ [sanitize state none now] =
          first :: shown s.table (s.window (published ++ [(table, state, now)]))
        rw [hwindow, hoffered]
        rfl
      rwa [← hstage] at hwatching
    · exact fun k hk => ⟨(h.queue k hk).1, cons_ne_nil _ _, (h.queue k hk).2.2⟩
    · intro q hq
      rw [mem_singleton.mp hq]
      exact ⟨hvalid', hadded', hdepth'⟩
    · dsimp only
      rw [h.emitted, hmade, flatMap_singleton, flatMap_singleton, hlog]

end Turns

end Spectator

/-! ### What holds in every run -/

namespace SpectatorGateway

variable {queueLimit : ℕ} {g : SpectatorGateway}

lemma sound_of_reachable (h : (system queueLimit).Reachable g) :
    ∀ s ∈ g.spectators, s.Sound queueLimit g.published := by
  refine h.invariant (T := system queueLimit)
    (I := fun g => ∀ s ∈ g.spectators, s.Sound queueLimit g.published) ?_ ?_
  · rintro g rfl s hs
    exact absurd hs not_mem_nil
  · rintro g e g' hsound hstep
    cases hstep with
    | connect table =>
      intro s hs
      rcases mem_append.mp hs with hs | hs
      · exact hsound s hs
      · rw [mem_singleton.mp hs]
        exact Spectator.sound_connect queueLimit g.published table
    | turn hi hturn =>
      intro s hs
      rcases mem_or_eq_of_mem_set hs with hs | rfl
      · exact hsound s hs
      · exact (hsound _ (mem_of_getElem? hi)).turn hturn
    | publish table state now =>
      intro s' hs'
      obtain ⟨s, hs, rfl⟩ := mem_map.mp hs'
      split_ifs with hhears
      · obtain ⟨hlistening, htable⟩ := Bool.and_eq_true_iff.mp hhears
        exact (hsound s hs).hear hlistening (by simpa using htable)
      · refine (hsound s hs).unheard fun _ hlistening htable => hhears ?_
        simp [hlistening, htable]

/-- In every run, what a client is sent is, in order, a part of what was offered to it: a public
state of its room, and then every state that the room emitted from the registration of the listener
until the client left. No frame shows a hole card, and the queues of the client hold no more than
`queueLimit` frames. -/
theorem frames_in_order (h : (system queueLimit).Reachable g) {i : ℕ} {s : Spectator}
    (hi : g.spectators[i]? = some s) :
    s.emitted.Sublist s.offered ∧
      (s.offered = [] ∨ ∃ state now, s.offered = sanitize state none now ::
        if s.stage = .watching then shown s.table (s.window g.published) else []) ∧
      (∀ frame ∈ s.emitted, ∀ p ∈ frame.players, p.holeCards = none) ∧
      ∀ queue ∈ s.made, queue.depth ≤ queueLimit := by
  have hsound := sound_of_reachable h s (mem_of_getElem? hi)
  have hsub : s.emitted.Sublist s.offered := by
    rcases hsound.made_le with hnil | ⟨queue, hone⟩
    · rw [hsound.emitted, hnil]
      exact nil_sublist _
    · obtain ⟨hvalid, hadded, -⟩ := hsound.valid queue (by rw [hone]; exact mem_singleton_self _)
      rw [hsound.emitted, hone, flatMap_singleton]
      exact hvalid.log_sublist.trans hadded
  have hoffered : s.offered = [] ∨ ∃ state now, s.offered = sanitize state none now ::
      if s.stage = .watching then shown s.table (s.window g.published) else [] := by
    have hfits := hsound.fits
    cases hstage : s.stage with
    | asking =>
      rw [hstage] at hfits
      exact Or.inl hfits.2.2.2.2
    | enqueuing p payload =>
      rw [hstage] at hfits
      obtain ⟨-, ⟨state, now, rfl⟩, hoffered, -⟩ := hfits
      exact Or.inr ⟨state, now, hoffered⟩
    | enqueued =>
      rw [hstage] at hfits
      obtain ⟨-, _, ⟨state, now, rfl⟩, hoffered⟩ := hfits
      exact Or.inr ⟨state, now, hoffered⟩
    | watching =>
      rw [hstage] at hfits
      obtain ⟨-, _, ⟨state, now, rfl⟩, hoffered⟩ := hfits
      exact Or.inr ⟨state, now, hoffered⟩
    | failed =>
      rw [hstage] at hfits
      rcases hfits.2.2 with hnil | ⟨_, ⟨state, now, rfl⟩, hoffered⟩
      · exact Or.inl hnil
      · exact Or.inr ⟨state, now, hoffered⟩
  refine ⟨hsub, hoffered, fun frame hframe p hp => ?_, fun queue hq => (hsound.valid queue hq).2.2⟩
  have hframe := hsub.subset hframe
  obtain ⟨state, now, rfl⟩ : Spectator.FromRoom frame := by
    rcases hoffered with hnil | ⟨state, now, hoffered⟩
    · rw [hnil] at hframe
      exact absurd hframe not_mem_nil
    · rw [hoffered] at hframe
      rcases mem_cons.mp hframe with rfl | hframe
      · exact ⟨state, now, rfl⟩
      · split_ifs at hframe
        · obtain ⟨e, -, rfl⟩ := mem_map.mp hframe
          exact ⟨_, _, rfl⟩
        · exact absurd hframe not_mem_nil
  obtain ⟨q, -, rfl⟩ := mem_map.mp hp
  simp [sanitizePlayer]

/-- In every run, a client that has left still has its listener on the room if and only if it left
before the listener was registered and `handleConnection` has ended since; and only such a client
can still have a queue. -/
theorem listening_of_closed (h : (system queueLimit).Reachable g) {i : ℕ} {s : Spectator}
    (hi : g.spectators[i]? = some s) (hclosed : s.connected = false) :
    (s.listening = true ↔ s.early = true ∧ s.stage = .watching) ∧
      (s.queue ≠ none → s.early = true) := by
  have hsound := sound_of_reachable h s (mem_of_getElem? hi)
  refine ⟨?_, fun hqueue => ?_⟩
  · rw [hsound.listening, hclosed]
    simp [and_comm]
  · obtain ⟨k, hk⟩ := Option.ne_none_iff_exists'.mp hqueue
    exact (hsound.queue k hk).2.2 hclosed

/-! ### Two clients -/

section Clients

/-- A state before a hand. -/
def idleState : GameStateInternal where
  phase := .waitBlinds
  street := .preflop
  pot := 0
  sidePots := []
  currentBet := 0
  players := []
  deck := []
  communityCards := []

/-- What becomes of a client until its listener is registered. -/
def connected (s : Spectator) : Spectator :=
  (((s.answer 100 idleState 0).create 0 true).resume 100 (.created 0)
    (sanitize idleState none 0)).subscribe 0

def watcher : Spectator :=
  connected { table := "a" }

/-- A client that leaves before its room answers. -/
def leaver : Spectator :=
  connected (({ table := "a" } : Spectator).disconnect 0)

lemma reachable_turn {s s' : Spectator} (h : (system 100).Reachable { spectators := [s] })
    (hturn : Spectator.Turn 100 0 s s') : (system 100).Reachable { spectators := [s'] } :=
  h.tail (.turn (i := 0) rfl hturn)

lemma reachable_connected {s : Spectator} (h : (system 100).Reachable { spectators := [s] })
    (hstage : s.stage = .asking) (hcreations : s.creations = []) (hqueue : s.queue = none)
    (hpromise : s.queuePromise = none) (hmade : s.made = []) :
    (system 100).Reachable { spectators := [connected s] } := by
  obtain ⟨table, c, stage, listening, queue, promise, creations, made, waiting, offered, emitted,
    since, closedAt, early⟩ := s
  subst hstage hcreations hqueue hpromise hmade
  have hanswer := reachable_turn h (.answer idleState 0 rfl)
  have hcreate := reachable_turn hanswer (.create (p := 0) true rfl)
  have hresume := reachable_turn hcreate (.resume rfl rfl (by simp))
  exact reachable_turn hresume (.subscribe rfl)

lemma reachable_arrived : (system 100).Reachable { spectators := [{ table := "a" }] } :=
  (Reachable.of_init rfl).tail (.connect (g := {}) "a")

lemma reachable_watcher : (system 100).Reachable { spectators := [watcher] } :=
  reachable_connected reachable_arrived rfl rfl rfl rfl rfl

lemma reachable_leaver : (system 100).Reachable { spectators := [leaver] } :=
  reachable_connected (reachable_turn reachable_arrived (.disconnect rfl)) rfl rfl rfl rfl rfl

/-- A state is emitted to a client that is watching. -/
theorem frames_in_order_watcher :
    (watcher.hear 100 idleState 5).emitted.Sublist (watcher.hear 100 idleState 5).offered ∧
      ∀ queue ∈ (watcher.hear 100 idleState 5).made, queue.depth ≤ 100 := by
  have hframes := frames_in_order (i := 0) (s := watcher.hear 100 idleState 5)
    (reachable_watcher.tail (.publish "a" idleState 5)) rfl
  exact ⟨hframes.1, hframes.2.2.2⟩

/-- A client that left too early is still listened for. -/
theorem listening_of_closed_leaver : leaver.listening = true :=
  (listening_of_closed (i := 0) (s := leaver) reachable_leaver rfl rfl).1.mpr ⟨rfl, rfl⟩

end Clients

end SpectatorGateway

end Pokerhub.Spectate
