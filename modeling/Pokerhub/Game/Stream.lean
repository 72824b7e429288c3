import Pokerhub.Game.OneEngine

/-!
# Ticks and resumes

The state frames of a socket carry the count of the gateway, one tick for each accepted action. A
replay carries the count as it is, so the ticks of a socket increase as long as no replay comes
before the next action (`stream_of_replaysLater`). A resume asks the worker of the default room for
the log of its engine, and no action ever reaches that engine: a resume sends nothing at all, and
is exact only for a socket that is up to date.
-/

namespace Pokerhub

open GameEngine GatewayConfig List Program

/-! ### The stream of a socket -/

/-- The tick of a state frame. -/
def ServerEvent.stateTick : ServerEvent → Option ℕ
  | .state _ tick => some tick
  | _ => none

namespace Gateway

/-- The ticks of the state frames of a socket, of those sent and then of those in its queue. -/
def ticks (s : Gateway) (clientId : String) : List ℕ :=
  (s.sent clientId ++ s.queues clientId).filterMap (·.stateTick)

/-- The player of a socket sits at the table. -/
def SeatedAt (s : Gateway) (clientId : String) (tableId : TableId) : Prop :=
  ∃ engine ∈ s.engines tableId, ∃ p ∈ engine.machine.state.players,
    s.socketPlayers clientId = some p.id

instance (s : Gateway) (clientId : String) (tableId : TableId) :
    Decidable (s.SeatedAt clientId tableId) :=
  inferInstanceAs (Decidable (∃ engine ∈ s.engines tableId, ∃ p ∈ engine.machine.state.players,
    s.socketPlayers clientId = some p.id))

/-- A frame with the state of a table of the socket was sent live. -/
def Published (s : Gateway) (clientId : String) (payload : GameState) (tick : ℕ) : Prop :=
  ∃ tableId, s.SeatedAt clientId tableId ∧ .published tableId payload tick ∈ s.trace

/-- The states that a resume sends, with their ticks. -/
def resumed (config : GatewayConfig) (s : Gateway) (clientId : String) (since : ℕ) :
    List (ℕ × GameStateInternal) :=
  ((GatewayCmd.roomResume "default" clientId since).exec config s).1.map fun x => (x.1 + 1, x.2)

/-- A resume sends the states of the socket's table after the tick it asks for, each with the tick
of its frame. -/
structure ResumeExact (config : GatewayConfig) (s : Gateway) (clientId : String) (since : ℕ) :
    Prop where
  ticks : ∀ tick, (∃ state, (tick, state) ∈ s.resumed config clientId since) ↔
    since < tick ∧ ∃ payload, s.Published clientId payload tick
  states : ∀ tick state, (tick, state) ∈ s.resumed config clientId since →
    ∃ playerId now, s.Published clientId (sanitize state playerId now) tick

/-- No frame of the socket's table came after the tick. -/
def UpToDate (s : Gateway) (clientId : String) (since : ℕ) : Prop :=
  ∀ payload tick, s.Published clientId payload tick → tick ≤ since

end Gateway

/-- The socket that a replay is sent to. -/
def GatewayCmd.replayTo : GatewayCmd → Option String
  | .sendReplay clientId _ => some clientId
  | _ => none

/-- A replay that finds room in the queue comes after an action whose tick the socket has not
had. -/
def ReplaysLater (config : GatewayConfig) (s : Gateway) :
    Service.Action GatewayCall GatewayCmd → Prop
  | .call _ c => ∀ clientId ∈ c.replayTo, (s.queues clientId).length < config.queueLimit →
      ∀ tick ∈ s.ticks clientId, tick < s.tick
  | _ => True

instance (config : GatewayConfig) (s : Gateway) :
    (a : Service.Action GatewayCall GatewayCmd) → Decidable (ReplaysLater config s a)
  | .call _ c => inferInstanceAs (Decidable (∀ clientId ∈ c.replayTo,
      (s.queues clientId).length < config.queueLimit → ∀ tick ∈ s.ticks clientId, tick < s.tick))
  | .start _ | .fault _ _ | .env => isTrue trivial

/-! ### The order of the ticks -/

/-- The ticks of a socket increase up to the count of the gateway. -/
structure Gateway.Ordered (s : Gateway) : Prop where
  increasing : ∀ clientId, (s.ticks clientId).Pairwise (· < ·)
  bounded : ∀ clientId, ∀ tick ∈ s.ticks clientId, tick ≤ s.tick

section Ordered

variable {config : GatewayConfig} {s s' : Gateway} {n : ℕ} {clientId other : String}
  {event : ServerEvent}

lemma Gateway.Ordered.congr (h : s.Ordered)
    (hticks : ∀ clientId, s'.ticks clientId <+ s.ticks clientId) (htick : s.tick ≤ s'.tick) :
    s'.Ordered where
  increasing clientId := (h.increasing clientId).sublist (hticks clientId)
  bounded clientId tick hmem :=
    (h.bounded clientId tick ((hticks clientId).subset hmem)).trans htick

lemma ticks_emit (hevent : event.stateTick = none) :
    (s.emit clientId event).ticks other = s.ticks other := by
  by_cases hother : other = clientId
  · subst hother
    simp [Gateway.ticks, Gateway.emit, hevent]
  · simp [Gateway.ticks, Gateway.emit, hother]

/-- What comes into the queue of a socket. -/
lemma ticks_enqueue : (s.enqueue n clientId event).ticks other =
    if other = clientId ∧ (s.queues clientId).length < n then
      s.ticks other ++ event.stateTick.toList
    else s.ticks other := by
  rw [Gateway.enqueue]
  by_cases hfull : n ≤ (s.queues clientId).length
  · rw [if_pos hfull, if_neg (by simp [hfull]), ticks_emit rfl]
  · rw [if_neg hfull]
    by_cases hother : other = clientId
    · subst hother
      cases hevent : event.stateTick <;> simp [Gateway.ticks, hevent, not_le.mp hfull]
    · simp [Gateway.ticks, hother]

@[simp] lemma tick_enqueue : (s.enqueue n clientId event).tick = s.tick := by
  rw [Gateway.enqueue]
  split_ifs <;> rfl

/-- A frame whose tick comes after those of the socket. -/
lemma Gateway.Ordered.enqueue (h : s.Ordered)
    (hevent : (s.queues clientId).length < n → ∀ tick ∈ event.stateTick,
      tick ≤ s.tick ∧ ∀ earlier ∈ s.ticks clientId, earlier < tick) :
    (s.enqueue n clientId event).Ordered := by
  refine ⟨fun other => ?_, fun other tick hmem => ?_⟩
  · rw [ticks_enqueue]
    split_ifs with hnew
    · obtain ⟨rfl, hroom⟩ := hnew
      refine pairwise_append.mpr ⟨h.increasing other, ?_, fun earlier hearlier tick htick => ?_⟩
      · cases event.stateTick <;> simp
      · exact (hevent hroom tick (Option.mem_toList.mp htick)).2 earlier hearlier
    · exact h.increasing other
  · rw [tick_enqueue]
    rw [ticks_enqueue] at hmem
    split_ifs at hmem with hnew
    · rcases mem_append.mp hmem with hmem | hmem
      · exact h.bounded other tick hmem
      · exact (hevent hnew.2 tick (Option.mem_toList.mp hmem)).1
    · exact h.bounded other tick hmem

lemma Gateway.Ordered.enqueue_of_none (h : s.Ordered) (hevent : event.stateTick = none) :
    (s.enqueue n clientId event).Ordered :=
  h.enqueue fun _ tick htick => by simp [hevent] at htick

lemma Gateway.Ordered.emit (h : s.Ordered) (hevent : event.stateTick = none) :
    (s.emit clientId event).Ordered :=
  h.congr (fun _ => by rw [ticks_emit hevent]) le_rfl

/-- Every accepted action has a tick of its own. -/
lemma Gateway.Ordered.applyAction (h : s.Ordered) (clientId : String) (actionId : ActionId)
    (time : ℕ) (wire : WireGameAction) :
    (GatewayCmd.execApplyAction config s clientId actionId time wire).2.Ordered := by
  rw [GatewayCmd.execApplyAction]
  split
  · exact h
  · split
    · exact h.congr (fun _ => Sublist.refl _) le_rfl
    · rename_i engine _ _ state engine' _
      have hcounted : (({ s with tick := s.tick + 1 }.setEngine wire.tableId engine').log
          (.called actionId time wire.tableId wire.action true)).Ordered :=
        h.congr (fun _ => Sublist.refl _) (Nat.le_succ _)
      refine (hcounted.enqueue fun _ tick htick => ?_).congr (fun _ => Sublist.refl _) le_rfl
      obtain rfl : s.tick + 1 = tick := Option.some.inj htick
      exact ⟨le_rfl, fun earlier hearlier =>
        Nat.lt_succ_of_le (h.bounded clientId earlier hearlier)⟩

end Ordered

/-! ### The states of a resume -/

/-- A handler sends states only when a worker has answered with some. -/
inductive StreamStage where
  | idle
  | resuming

def streamAllowed : StreamStage → GatewayCmd → Prop
  | .idle, .enqueue _ (.state _ _) | .idle, .emit _ (.state _ _) => False
  | _, _ => True

def streamNext : StreamStage → (c : GatewayCmd) → Option c.Answer → StreamStage
  | _, .roomResume _ _ _, some (_ :: _) => .resuming
  | l, _, _ => l

def stream : Discipline GatewayCmd.Answer StreamStage where
  allowed := streamAllowed
  next := streamNext

/-- The commands that have nothing to do with the states of a log. -/
def GatewayCmd.Logless : GatewayCmd → Bool
  | .enqueue _ (.state _ _) | .emit _ (.state _ _) | .roomResume _ _ _ => false
  | _ => true

section Handlers

variable {config : GatewayConfig} {client : GameSocket}

lemma follows_logless {α : Type} {Q : Except String α → StreamStage → Prop} {p : GatewayM α}
    (h : p.Uses (·.Logless)) (hQ : ∀ r, Q r .idle) : p.Follows stream Q .idle := by
  apply follows_of_uses h
  · intro c hc
    cases c with
    | enqueue clientId event => cases event <;> trivial
    | emit clientId event => cases event <;> trivial
    | _ => trivial
  · intro c a hc
    cases c <;> first | rfl | cases hc
  · exact hQ

lemma uses_logless_of_common {α : Type} {p : GatewayM α} (h : p.Uses (·.Common)) :
    p.Uses (·.Logless) :=
  h.mono fun c hc => by
    cases c with
    | enqueue clientId event => cases event <;> first | rfl | cases hc
    | emit clientId event => cases event <;> first | rfl | cases hc
    | _ => first | rfl | cases hc

lemma follows_handleResume (tick : Option ℕ) :
    (handleResume client tick).Follows stream (fun _ _ => True) .idle := by
  apply follows_bind
  apply follows_logless (uses_logless_of_common (uses_flagOff _))
  rintro (e | off)
  · trivial
  · dsimp only
    split_ifs
    · exact follows_logless (uses_gatewayRun rfl) fun _ => trivial
    · apply follows_command_bind
      · trivial
      · rintro (_ | ⟨x, states⟩)
        · exact follows_logless (uses_gatewayRun_bind rfl fun _ => trivial) fun _ => trivial
        · apply follows_of_absorbing
          · exact fun c => by cases c <;> trivial
          · exact fun c a => by cases c <;> rcases a with _ | a <;> first | rfl | (cases a <;> rfl)
          · exact fun _ => trivial
      · trivial

/-- Only a resume asks for a log. -/
lemma uses_logless {r : GatewayCall} (hr : ∀ client tick, r ≠ .message client (.resume tick)) :
    (r.body config).Uses (·.Logless) := by
  have hissued : ∀ c, r.Issues c → c.Logless := by
    intro c hc
    cases r with
    | message client message =>
      cases message with
      | resume tick => exact (hr client tick rfl).elim
      | _ =>
        cases c with
        | enqueue clientId event => cases event <;> first | rfl | cases hc
        | emit clientId event => cases event <;> first | rfl | cases hc
        | _ => first | rfl | cases hc
    | _ =>
      cases c with
      | enqueue clientId event => cases event <;> first | rfl | cases hc
      | emit clientId event => cases event <;> first | rfl | cases hc
      | _ => first | rfl | cases hc
  exact (uses_body r).mono hissued

/-- Every call keeps to the discipline. -/
lemma follows_body_stream (r : GatewayCall) :
    (r.body config).Follows stream (fun _ _ => True) .idle := by
  cases r with
  | message client message =>
    cases message with
    | resume tick => exact follows_handleResume tick
    | _ => exact follows_logless (uses_logless fun _ _ heq => by cases heq) fun _ => trivial
  | _ => exact follows_logless (uses_logless fun _ _ heq => by cases heq) fun _ => trivial

end Handlers

/-! ### Runs -/

/-- The ticks are in order, and no handler has states of a log to send. -/
structure StreamInv (s : Gateway) (ls : List (GatewayCall × StreamStage)) : Prop where
  rooms : s.RoomsWaiting
  ordered : s.Ordered
  idle : ∀ rl ∈ ls, rl.2 = .idle

section Runs

variable {config : GatewayConfig} {s s' : Gateway} {r : GatewayCall} {c : GatewayCmd}
  {clientId : String} {since : ℕ}
  {P : Pool GatewayCmd.Answer String Unit Gateway GatewayCall}

/-- A command of a handler that sends no state of a log. -/
lemma Gateway.Ordered.exec (h : s.Ordered) (hallowed : streamAllowed .idle c)
    (hlater : ReplaysLater config s (.call r c)) : (c.exec config s).2.Ordered := by
  cases c with
  | applyAction clientId actionId time wire => exact h.applyAction clientId actionId time wire
  | enqueue clientId event =>
    cases event with
    | state payload tick => exact hallowed.elim
    | _ => exact h.enqueue_of_none rfl
  | emit clientId event =>
    cases event with
    | state payload tick => exact hallowed.elim
    | _ => exact h.emit rfl
  | sendReplay clientId state =>
    refine h.enqueue fun hroom tick htick => ?_
    obtain rfl : s.tick = tick := Option.some.inj htick
    exact ⟨le_rfl, hlater clientId rfl hroom⟩
  | saveHand tableId =>
    simp only [GatewayCmd.exec]
    split <;> exact h.congr (fun _ => Sublist.refl _) le_rfl
  | spectate tableId tick =>
    simp only [GatewayCmd.exec]
    split <;> exact h.congr (fun _ => Sublist.refl _) le_rfl
  | roomApply playerId tableId =>
    simp only [GatewayCmd.exec, GatewayCmd.execRoomApply]
    split_ifs
    · split <;> exact h.congr (fun _ => Sublist.refl _) le_rfl
    · exact h.congr (fun _ => Sublist.refl _) le_rfl
  | adopt tableId state => exact h.congr (fun _ => Sublist.refl _) (Nat.le_succ _)
  | _ => exact h.congr (fun _ => Sublist.refl _) le_rfl

/-- What is sent leaves the queue; a socket that goes takes its queue with it. -/
lemma Gateway.Ordered.env (h : s.Ordered) (henv : Gateway.Env config s s') : s'.Ordered := by
  cases henv with
  | disconnect client =>
    refine h.congr (fun other => ?_) le_rfl
    by_cases hother : other = client.id
    · subst hother
      simp [Gateway.ticks, Gateway.disconnect]
    · simp [Gateway.ticks, Gateway.disconnect, hother]
  | deliver clientId event rest hqueue =>
    refine h.congr (fun other => ?_) le_rfl
    by_cases hother : other = clientId
    · subst hother
      simp [Gateway.ticks, Gateway.emit, hqueue]
    · simp [Gateway.ticks, Gateway.emit, hother]
  | _ => exact h.congr (fun _ => Sublist.refl _) le_rfl

lemma ordered_of_initial (h : Gateway.Initial config s) : s.Ordered := by
  obtain ⟨now, flags, hands, draws, rfl⟩ := h
  exact ⟨fun _ => Pairwise.nil, fun _ _ hmem => by cases hmem⟩

/-- A worker that has played nothing answers a resume with nothing. -/
lemma roomResume_eq_nil (h : s.RoomsWaiting) (tableId : TableId) :
    ((GatewayCmd.roomResume tableId clientId since).exec config s).1 = [] := by
  simp [GatewayCmd.exec, (waiting_room h tableId).unplayed]

lemma resumed_eq_nil (h : s.RoomsWaiting) : s.resumed config clientId since = [] := by
  rw [Gateway.resumed, roomResume_eq_nil h, map_nil]

/-- So no handler comes to send states. -/
lemma streamNext_idle (h : s.RoomsWaiting) :
    streamNext .idle c (some (c.exec config s).1) = .idle := by
  cases c with
  | roomResume tableId clientId since => rw [roomResume_eq_nil h]; rfl
  | _ => rfl

lemma streamNext_none {l : StreamStage} : streamNext l c none = l := by
  cases c <;> rfl

/-- A resume is exact for the sockets that have missed nothing. -/
lemma resumeExact_iff (h : s.RoomsWaiting) :
    s.ResumeExact config clientId since ↔ s.UpToDate clientId since := by
  have hnone : ∀ {tick state}, (tick, state) ∉ s.resumed config clientId since := by
    intro tick state hmem
    rw [resumed_eq_nil h] at hmem
    cases hmem
  constructor
  · intro hexact payload tick hpublished
    by_contra hlate
    obtain ⟨state, hmem⟩ := (hexact.ticks tick).mpr ⟨not_le.mp hlate, payload, hpublished⟩
    exact hnone hmem
  · intro hupToDate
    refine ⟨fun tick => ⟨?_, ?_⟩, fun tick state hmem => (hnone hmem).elim⟩
    · rintro ⟨state, hmem⟩
      exact (hnone hmem).elim
    · rintro ⟨hlate, payload, hpublished⟩
      exact absurd (hupToDate payload tick hpublished) (not_le.mpr hlate)

/-- In the runs in which every replay comes after an action that the socket has not seen, the ticks
of every socket increase; and a resume is exact for the sockets that are up to date, and for no
other. -/
theorem stream_of_replaysLater
    (h : ((gatewayService config).within (ReplaysLater config)).Reachable P) :
    (∀ clientId, (P.state.ticks clientId).Pairwise (· < ·)) ∧
      ∀ clientId since,
        P.state.ResumeExact config clientId since ↔ P.state.UpToDate clientId since := by
  have hcall : ∀ s (ls₁ ls₂ : List (GatewayCall × StreamStage)) r l c,
      StreamInv s (ls₁ ++ (r, l) :: ls₂) → streamAllowed l c →
      ReplaysLater config s (.call r c) →
      StreamInv (c.exec config s).2
        (ls₁ ++ (r, streamNext l c (some (c.exec config s).1)) :: ls₂) := by
    intro s ls₁ ls₂ r l c hinv hallowed hlater
    obtain rfl : l = .idle := hinv.idle (r, l) (by simp)
    rw [streamNext_idle hinv.rooms]
    exact ⟨waiting_exec hinv.rooms c, hinv.ordered.exec hallowed hlater, hinv.idle⟩
  have hfault : ∀ s (ls₁ ls₂ : List (GatewayCall × StreamStage)) r l c,
      StreamInv s (ls₁ ++ (r, l) :: ls₂) →
      StreamInv s (ls₁ ++ (r, streamNext l c none) :: ls₂) := by
    intro s ls₁ ls₂ r l c hinv
    rwa [streamNext_none]
  obtain ⟨ls, -, hinv⟩ := Service.staged_invariant (S := gatewayService config)
    (D := stream) (Q := fun _ _ => True) (I := StreamInv)
    (fun s _ a => ReplaysLater config s a) follows_body_stream
    (fun s ts ls a hok _ => hok)
    (fun s ls r hinv _ _ => ⟨hinv.rooms, hinv.ordered,
      forall_mem_append.mpr ⟨hinv.idle, forall_mem_singleton.mpr rfl⟩⟩)
    hcall (fun s ls₁ ls₂ r l c hinv _ _ _ => hfault s ls₁ ls₂ r l c hinv)
    (fun s s' ls hinv henv _ => ⟨waiting_env hinv.rooms henv, hinv.ordered.env henv, hinv.idle⟩)
    (fun s hs => ⟨waiting_of_initial hs, ordered_of_initial hs, forall_mem_nil _⟩) h
  exact ⟨hinv.ordered.increasing, fun clientId since => resumeExact_iff hinv.rooms⟩

end Runs

/-! ### A resume that misses a state -/

/-- B asks for a replay once A has posted the blind. -/
def blindReplayed : Pool GatewayCmd.Answer String Unit Gateway GatewayCall :=
  (gatewayService zeroSeedConfig).playAll ⟨twoConnected, []⟩
    (served 0 (playerAction "A" "a1" (.postBlind "A" 1)) ++
      served 1 (.message (socketOf "B") .replay))

/-- The tick of the blind is the first for both. -/
theorem stream_of_replaysLater_blindReplayed :
    ((gatewayService zeroSeedConfig).within (ReplaysLater zeroSeedConfig)).Reachable
        blindReplayed ∧
      blindReplayed.state.ticks "socket-A" = [1] ∧ blindReplayed.state.ticks "socket-B" = [1] ∧
      (∀ clientId, (blindReplayed.state.ticks clientId).Pairwise (· < ·)) ∧
      ∀ clientId since, blindReplayed.state.ResumeExact zeroSeedConfig clientId since ↔
        blindReplayed.state.UpToDate clientId since := by
  have hreach : ((gatewayService zeroSeedConfig).within (ReplaysLater zeroSeedConfig)).Reachable
      blindReplayed :=
    Service.reachable_playAll_from (reachable_twoConnected fun _ => trivial)
      (Service.AllLegal.of_closed (by decide +kernel))
  exact ⟨hreach, by decide +kernel, by decide +kernel, stream_of_replaysLater hreach⟩

/-- A has posted the blind, and then asks for a replay. -/
def replayedTwice : Pool GatewayCmd.Answer String Unit Gateway GatewayCall :=
  (gatewayService zeroSeedConfig).playAll ⟨twoConnected, []⟩
    (served 0 (playerAction "A" "a1" (.postBlind "A" 1)) ++
      served 1 (.message (socketOf "A") .replay))

/-- The tick of a frame of the table. -/
def GatewayEvent.published? (tableId : TableId) : GatewayEvent → Option ℕ
  | .published table _ tick => if table = tableId then some tick else none
  | _ => none

lemma eq_published {tableId : TableId} {event : GatewayEvent} {tick : ℕ}
    (h : event.published? tableId = some tick) :
    ∃ payload, event = .published tableId payload tick := by
  cases event with
  | published table payload tick' =>
    rw [GatewayEvent.published?] at h
    split_ifs at h with htable
    exact ⟨payload, by rw [htable, Option.some.inj h]⟩
  | _ => cases h

/-- The replay repeats the tick of the blind, and a resume from the beginning misses the blind. -/
theorem tick_repeated_and_missed : ∃ config P, (gatewayService config).system.Reachable P ∧
    ∃ clientId, ¬ (P.state.ticks clientId).Pairwise (· < ·) ∧
      ¬ P.state.ResumeExact config clientId 0 := by
  have hreach : ((gatewayService zeroSeedConfig).within fun _ _ => True).Reachable replayedTwice :=
    Service.reachable_playAll_from (reachable_twoConnected fun _ => trivial)
      (Service.AllLegal.of_closed (by decide +kernel))
  refine ⟨zeroSeedConfig, replayedTwice, hreach.of_restrict, "socket-A", by decide +kernel, ?_⟩
  rw [resumeExact_iff (waiting_of_reachable hreach.of_restrict)]
  intro hupToDate
  have hblind : ∃ event ∈ replayedTwice.state.trace, event.published? "t1" = some 1 := by
    decide +kernel
  have hseated : replayedTwice.state.SeatedAt "socket-A" "t1" := by
    decide +kernel
  obtain ⟨event, hevent, hpublished⟩ := hblind
  obtain ⟨payload, rfl⟩ := eq_published hpublished
  exact absurd (hupToDate payload 1 ⟨"t1", hseated, hevent⟩) (by decide)

end Pokerhub
