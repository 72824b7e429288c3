import Pokerhub.Game.OneEngine

/-!
# Duplicate acknowledgements

An action is answered as a duplicate when its id has an entry of the last 24 h in the action hash.
The entry is written before the flags are read and before the engine is called, and the messages of
the seats write entries of their own. As long as an entry that answers an action was left by an
action that the engine took, every duplicate acknowledgement is truthful; and an action whose cause
of refusal is gone takes effect if and only if no other entry is in its way
(`duplicates_truthful`).
-/

namespace Pokerhub

open GameEngine GatewayConfig List Program

/-! ### Truthful answers -/

/-- `engine.applyAction` has taken an action with the id. -/
def GatewayEvent.applies (actionId : ActionId) : GatewayEvent → Bool
  | .called id _ _ _ accepted => id = actionId && accepted
  | _ => false

namespace Gateway

/-- An action with the id has been applied. -/
def Applied (s : Gateway) (actionId : ActionId) : Prop :=
  ∃ event ∈ s.trace, event.applies actionId

instance (s : Gateway) (actionId : ActionId) : Decidable (s.Applied actionId) :=
  inferInstanceAs (Decidable (∃ event ∈ s.trace, event.applies actionId))

/-- The events of a socket, those sent and then those in its queue. -/
def events (s : Gateway) (clientId : String) : List ServerEvent :=
  s.sent clientId ++ s.queues clientId

/-- An entry of the last 24 h under the hash of the id was left by an action with the id that was
applied; not by a message of a seat, nor by an action that was refused or is still under way. -/
def EntryTruthful (config : GatewayConfig) (s : Gateway) (actionId : ActionId) : Prop :=
  fresh (s.actionHash (config.hashAction actionId)) s.now → s.Applied actionId

instance (config : GatewayConfig) (s : Gateway) (actionId : ActionId) :
    Decidable (s.EntryTruthful config actionId) :=
  inferInstanceAs (Decidable (_ → _))

/-- The engine of a table accepts an action. -/
def accepts (config : GatewayConfig) (s : Gateway) (wire : WireGameAction) : Bool :=
  (s.engines wire.tableId).any fun engine =>
    match (GameEngine.applyAction config.sha256 wire.action).run engine with
    | .ok _ _ => true
    | .error _ _ => false

lemma exists_of_accepts {config : GatewayConfig} {s : Gateway} {wire : WireGameAction}
    (h : s.accepts config wire) : ∃ engine ∈ s.engines wire.tableId, ∃ state engine',
      (GameEngine.applyAction config.sha256 wire.action).run engine = .ok state engine' := by
  obtain ⟨engine, hengine, haccepts⟩ := (Option.any_eq_true _ _).mp h
  cases hrun : (GameEngine.applyAction config.sha256 wire.action).run engine with
  | ok state engine' => exact ⟨engine, hengine, state, engine', hrun⟩
  | error err engine' =>
    rw [hrun] at haccepts
    cases haccepts

/-- No cause to refuse the action: the socket speaks for the player, the flags are not off, and the
engine of the table accepts. -/
structure Accepted (config : GatewayConfig) (s : Gateway) (client : GameSocket)
    (wire : WireGameAction) : Prop where
  player : ∀ playerId ∈ wire.action.actingPlayerId, s.socketPlayers client.id = some playerId
  dealing : s.flags.bind (· "dealing") ≠ some false
  dealingRoom : s.flags.bind (· (roomFlag wire.tableId "dealing")) ≠ some false
  settlement : s.flags.bind (· "settlement") ≠ some false
  settlementRoom : s.flags.bind (· (roomFlag wire.tableId "settlement")) ≠ some false
  engine : s.accepts config wire

/-- Nor is the message turned away before. -/
structure Playable (config : GatewayConfig) (s : Gateway) (client : GameSocket)
    (wire : WireGameAction) : Prop extends s.Accepted config client wire where
  wellFormed : wire.action.wellFormed
  rate : ((GatewayCmd.incr (getRateLimitKey client)).exec config s).1.1 ≤ 30
  globalRate : ((GatewayCmd.incr (getRateLimitKey client)).exec config s).1.2 ≤ config.globalLimit

instance (config : GatewayConfig) (s : Gateway) (client : GameSocket) (wire : WireGameAction) :
    Decidable (s.Playable config client wire) :=
  decidable_of_iff
    (((∀ playerId ∈ wire.action.actingPlayerId, s.socketPlayers client.id = some playerId) ∧
        (s.flags.bind (· "dealing") ≠ some false ∧
          s.flags.bind (· (roomFlag wire.tableId "dealing")) ≠ some false) ∧
        (s.flags.bind (· "settlement") ≠ some false ∧
          s.flags.bind (· (roomFlag wire.tableId "settlement")) ≠ some false) ∧
        s.accepts config wire) ∧
      wire.action.wellFormed ∧
      ((GatewayCmd.incr (getRateLimitKey client)).exec config s).1.1 ≤ 30 ∧
      ((GatewayCmd.incr (getRateLimitKey client)).exec config s).1.2 ≤ config.globalLimit)
    ⟨fun ⟨⟨h₁, ⟨h₂, h₃⟩, ⟨h₄, h₅⟩, h₆⟩, h₇, h₈, h₉⟩ => ⟨⟨h₁, h₂, h₃, h₄, h₅, h₆⟩, h₇, h₈, h₉⟩,
      fun h => ⟨⟨h.player, ⟨h.dealing, h.dealingRoom⟩, ⟨h.settlement, h.settlementRoom⟩, h.engine⟩,
        h.wellFormed, h.rate, h.globalRate⟩⟩

/-- The state once a message has been served to its end. -/
def afterMessage (config : GatewayConfig) (s : Gateway) (client : GameSocket)
    (message : Message) : Gateway :=
  (((GatewayCall.message client message).body config).run (GatewayCmd.exec config) s).2

/-- The action that comes with the id is applied. -/
def TakesEffect (config : GatewayConfig) (s : Gateway) (client : GameSocket) (actionId : ActionId)
    (wire : WireGameAction) : Prop :=
  .called actionId s.now wire.tableId wire.action true ∈
    ((s.afterMessage config client (.action actionId (some wire))).trace.drop s.trace.length)

end Gateway

/-- The id that an action is looked up with. -/
def GatewayCall.lookup : GatewayCall → GatewayCmd → Option ActionId
  | .message _ (.action _ _), .hget actionId => some actionId
  | _, _ => none

/-- An action that is looked up meets no other entries than those of applied actions. -/
def EntriesTruthful (config : GatewayConfig) (s : Gateway) :
    Service.Action GatewayCall GatewayCmd → Prop
  | .call r c => ∀ actionId ∈ r.lookup c, s.EntryTruthful config actionId
  | _ => True

instance (config : GatewayConfig) (s : Gateway) :
    (a : Service.Action GatewayCall GatewayCmd) → Decidable (EntriesTruthful config s a)
  | .call r c => inferInstanceAs (Decidable (∀ actionId ∈ r.lookup c,
      s.EntryTruthful config actionId))
  | .start _ | .fault _ _ | .env => isTrue trivial

/-! ### What happens is not forgotten -/

section Trace

variable {config : GatewayConfig} {s s' : Gateway} {n : ℕ} {clientId other : String}
  {event : ServerEvent} {actionId : ActionId} {c : GatewayCmd}

lemma Gateway.Applied.mono (h : s.Applied actionId) (htrace : s.trace <+: s'.trace) :
    s'.Applied actionId := by
  obtain ⟨event, hevent, happlies⟩ := h
  exact ⟨event, htrace.subset hevent, happlies⟩

/-- A command adds to what has happened. -/
lemma trace_exec (c : GatewayCmd) : s.trace <+: (c.exec config s).2.trace := by
  cases c with
  | enqueue clientId event => rw [GatewayCmd.exec, (enqueue_eq _ _ _).1]
  | sendReplay clientId state => rw [GatewayCmd.exec, (enqueue_eq _ _ _).1]
  | applyAction clientId actionId time wire =>
    simp only [GatewayCmd.exec, GatewayCmd.execApplyAction]
    split
    · exact prefix_rfl
    · split
      · exact prefix_append _ _
      · simp only [Gateway.setState, Gateway.publish, Gateway.log, (enqueue_eq _ _ _).1,
          Gateway.setEngine, append_assoc]
        exact prefix_append _ _
  | roomApply playerId tableId =>
    simp only [GatewayCmd.exec, GatewayCmd.execRoomApply]
    split_ifs
    · split <;> exact prefix_append _ _
    · exact prefix_append _ _
  | saveHand tableId =>
    simp only [GatewayCmd.exec]
    split <;> exact prefix_rfl
  | spectate tableId tick =>
    simp only [GatewayCmd.exec]
    split
    · exact prefix_rfl
    · exact prefix_append _ _
  | roomResume tableId clientId since => exact prefix_append _ _
  | broadcast tableId payload tick => exact prefix_append _ _
  | _ => exact prefix_rfl

lemma trace_env (henv : Gateway.Env config s s') : s.trace <+: s'.trace := by
  cases henv with
  | startSession tableId playerIds seed nonce hasRepo engine hnone => exact prefix_append _ _
  | _ => exact prefix_rfl

/-- A program adds to what has happened. -/
lemma trace_run {α : Type} (p : GatewayM α) (s : Gateway) :
    s.trace <+: (p.run (GatewayCmd.exec config) s).2.trace :=
  (uses_of_forall (P := fun _ => True) (fun _ => trivial) p).keeps
    (I := fun s' => s.trace <+: s'.trace) (fun c _ _ h => h.trans (trace_exec c)) s prefix_rfl

end Trace

/-! ### The stages of an acknowledgement -/

inductive AckStage where
  /-- An action that has not been looked up. -/
  | checking
  /-- The id has an entry that still counts. -/
  | duplicate (actionId : ActionId)
  | silent

def ackAllowed : AckStage → GatewayCmd → Prop
  | l, .enqueue _ (.actionAck actionId true) => l = .duplicate actionId
  | _, .emit _ (.actionAck _ true) => False
  | _, _ => True

def ackNext : AckStage → (c : GatewayCmd) → Option c.Answer → AckStage
  | .checking, .hget actionId, some (existing, now) =>
    if fresh existing now then .duplicate actionId else .silent
  | l, _, _ => l

def acks : Discipline GatewayCmd.Answer AckStage where
  allowed := ackAllowed
  next := ackNext

/-- The commands that neither look up an id nor acknowledge a duplicate. -/
def GatewayCmd.Unacked : GatewayCmd → Bool
  | .enqueue _ (.actionAck _ true) | .emit _ (.actionAck _ true) | .hget _ => false
  | _ => true

def ackFirst : GatewayCall → AckStage
  | .message _ (.action _ _) => .checking
  | _ => .silent

section Handlers

variable {config : GatewayConfig} {client : GameSocket} {actionId : ActionId} {l : AckStage}

/-- No handler owes an acknowledgement. -/
abbrev Acked (_ : Except String Unit) (_ : AckStage) : Prop := True

lemma follows_unacked {α : Type} {Q : Except String α → AckStage → Prop} {p : GatewayM α}
    (h : p.Uses (·.Unacked)) (hQ : ∀ r, Q r l) : p.Follows acks Q l := by
  apply follows_of_uses h
  · intro c hc
    cases c with
    | enqueue clientId event =>
      cases event with
      | actionAck actionId duplicate => cases duplicate <;> trivial
      | _ => trivial
    | emit clientId event =>
      cases event with
      | actionAck actionId duplicate => cases duplicate <;> trivial
      | _ => trivial
    | _ => trivial
  · intro c a hc
    cases l <;> cases c <;> first | rfl | cases hc
  · exact hQ

lemma uses_unacked_of_finishes {α : Type} {p : GatewayM α} (h : p.Uses (·.Finishes)) :
    p.Uses (·.Unacked) :=
  h.mono fun c hc => by
    cases c with
    | enqueue clientId event =>
      cases event with
      | actionAck actionId duplicate => cases duplicate <;> first | rfl | cases hc
      | _ => rfl
    | emit clientId event => cases event <;> first | rfl | cases hc
    | _ => first | rfl | cases hc

lemma uses_unacked_of_common {α : Type} {p : GatewayM α} (h : p.Uses (·.Common)) :
    p.Uses (·.Unacked) :=
  uses_unacked_of_finishes (uses_finishes_of_common h)

lemma follows_unacked_bind {α : Type} {p : GatewayM α} {f : α → GatewayM Unit}
    (h : p.Uses (·.Unacked)) (hf : ∀ a, (f a).Follows acks Acked l) :
    (p >>= f).Follows acks Acked l := by
  apply follows_bind
  apply follows_unacked h
  rintro (e | a)
  · trivial
  · exact hf a

/-- Only an action is looked up for an acknowledgement of its own. -/
lemma follows_silent {r : GatewayCall} (hr : ackFirst r = .silent) :
    (r.body config).Follows acks Acked .silent := by
  apply follows_of_uses (uses_body r)
  · intro c hc
    cases c with
    | enqueue clientId event =>
      cases event with
      | actionAck actionId duplicate =>
        cases duplicate with
        | false => trivial
        | true =>
          cases r with
          | message client message =>
            cases message with
            | action actionId rest => cases hr
            | _ => cases hc
          | _ => cases hc
      | _ => trivial
    | emit clientId event =>
      cases event with
      | actionAck actionId duplicate =>
        cases r with
        | message client message => cases message <;> cases hc
        | _ => cases hc
      | _ => trivial
    | _ => trivial
  · intro c a _
    cases c <;> rfl
  · exact fun _ => trivial

lemma follows_playAction_acks (wire : WireGameAction) (time : ℕ) :
    (playAction client actionId time wire).Follows acks Acked l := by
  refine follows_unacked_bind (uses_unacked_of_common (uses_stopTimer _)) fun _ => ?_
  refine follows_unacked_bind (uses_unacked_of_common (uses_flagOff _)) fun dealing => ?_
  split_ifs
  · exact follows_unacked (uses_unacked_of_common (uses_refuse _)) fun _ => trivial
  · refine follows_unacked_bind (uses_unacked_of_common (uses_flagOff _)) fun settlement => ?_
    split_ifs
    · exact follows_unacked (uses_unacked_of_common (uses_refuse _)) fun _ => trivial
    · refine follows_unacked_bind (uses_gatewayRun rfl) ?_
      rintro (_ | message | ⟨state, tick⟩)
      · exact follows_unacked (uses_unacked_of_common (uses_refuse _)) fun _ => trivial
      · exact follows_unacked (uses_unacked_of_common (uses_refuse _)) fun _ => trivial
      · exact follows_unacked (uses_unacked_of_finishes (uses_finishAction _ _ _)) fun _ => trivial

lemma follows_deduplicate_acks (wire : WireGameAction) :
    (deduplicate client actionId wire).Follows acks Acked .checking := by
  apply follows_command_bind
  · trivial
  · rintro ⟨existing, now⟩
    simp only [acks, ackNext]
    split_ifs
    · exact ⟨rfl, fun a => by cases a <;> trivial⟩
    · exact follows_unacked_bind (uses_gatewayRun rfl) fun _ => follows_playAction_acks wire now
  · trivial

/-- Every call keeps to the discipline. -/
lemma follows_body_acks (r : GatewayCall) : (r.body config).Follows acks Acked (ackFirst r) := by
  cases r with
  | message client message =>
    cases message with
    | action actionId rest =>
      refine follows_unacked_bind (uses_unacked_of_common uses_isRateLimited) fun limited => ?_
      split_ifs
      · trivial
      · cases parseAction rest with
        | none => exact follows_unacked_bind (uses_gatewayRun rfl) fun _ => trivial
        | some wire =>
          refine follows_unacked_bind (uses_gatewayRun rfl) fun expected => ?_
          split_ifs
          · exact follows_unacked (uses_unacked_of_common (uses_refuse _)) fun _ => trivial
          · exact follows_deduplicate_acks wire
    | _ => exact follows_silent rfl
  | _ => exact follows_silent rfl

end Handlers

/-! ### The invariant -/

section Invariant

variable {config : GatewayConfig} {s s' : Gateway} {ls : List (GatewayCall × AckStage)}
  {r : GatewayCall} {l : AckStage} {c : GatewayCmd} {n : ℕ} {clientId other : String}
  {event : ServerEvent} {actionId : ActionId}

lemma mem_events_emit (h : .actionAck actionId true ∈ (s.emit clientId event).events other) :
    .actionAck actionId true ∈ s.events other ∨ event = .actionAck actionId true := by
  by_cases hother : other = clientId
  · subst hother
    simp only [Gateway.events, Gateway.emit, Function.update_self, mem_append, mem_singleton] at h ⊢
    rcases h with (h | rfl) | h
    · exact Or.inl (Or.inl h)
    · exact Or.inr rfl
    · exact Or.inl (Or.inr h)
  · simp only [Gateway.events, Gateway.emit, Function.update_of_ne hother] at h
    exact Or.inl h

lemma mem_events_enqueue
    (h : .actionAck actionId true ∈ (s.enqueue n clientId event).events other) :
    .actionAck actionId true ∈ s.events other ∨ event = .actionAck actionId true := by
  rw [Gateway.enqueue] at h
  split_ifs at h
  · exact (mem_events_emit h).imp_right fun heq => by cases heq
  · by_cases hother : other = clientId
    · subst hother
      simp only [Gateway.events, Function.update_self, mem_append, mem_singleton] at h ⊢
      rcases h with h | h | rfl
      · exact Or.inl (Or.inl h)
      · exact Or.inl (Or.inr h)
      · exact Or.inr rfl
    · simp only [Gateway.events, Function.update_of_ne hother] at h
      exact Or.inl h

/-- A duplicate is acknowledged by a command of its own. -/
lemma mem_events_exec (h : .actionAck actionId true ∈ (c.exec config s).2.events other) :
    .actionAck actionId true ∈ s.events other ∨
      ∃ clientId, c = .enqueue clientId (.actionAck actionId true) ∨
        c = .emit clientId (.actionAck actionId true) := by
  cases c with
  | enqueue clientId event =>
    exact (mem_events_enqueue h).imp_right fun heq => ⟨clientId, Or.inl (by rw [heq])⟩
  | emit clientId event =>
    exact (mem_events_emit h).imp_right fun heq => ⟨clientId, Or.inr (by rw [heq])⟩
  | sendReplay clientId state =>
    exact (mem_events_enqueue h).imp_right fun heq => by cases heq
  | applyAction clientId actionId time wire =>
    simp only [GatewayCmd.exec, GatewayCmd.execApplyAction] at h
    split at h
    · exact Or.inl h
    · split at h
      · exact Or.inl h
      · rename_i engine _ _ state engine' _
        have hqueued := mem_events_enqueue
          (s := ({ s with tick := s.tick + 1 }.setEngine wire.tableId engine').log
            (.called actionId time wire.tableId wire.action true)) h
        exact hqueued.imp_right fun heq => by cases heq
  | roomApply playerId tableId =>
    simp only [GatewayCmd.exec, GatewayCmd.execRoomApply] at h
    split_ifs at h
    · split at h <;> exact Or.inl h
    · exact Or.inl h
  | saveHand tableId =>
    simp only [GatewayCmd.exec] at h
    split at h <;> exact Or.inl h
  | spectate tableId tick =>
    simp only [GatewayCmd.exec] at h
    split at h <;> exact Or.inl h
  | _ => exact Or.inl h

/-- What is sent was in the queue. -/
lemma mem_events_env (henv : Gateway.Env config s s')
    (h : .actionAck actionId true ∈ s'.events other) :
    .actionAck actionId true ∈ s.events other := by
  cases henv with
  | disconnect client =>
    by_cases hother : other = client.id
    · subst hother
      simp only [Gateway.events, Gateway.disconnect, Function.update_self, append_nil] at h
      exact mem_append_left _ h
    · simp only [Gateway.events, Gateway.disconnect, Function.update_of_ne hother] at h
      exact h
  | deliver clientId event rest hqueue =>
    by_cases hother : other = clientId
    · subst hother
      simpa [Gateway.events, Gateway.emit, hqueue] using h
    · simpa [Gateway.events, Gateway.emit, hother] using h
  | _ => exact h

lemma ackNext_duplicate
    (h : ackNext l c (some (c.exec config s).1) = .duplicate actionId) :
    l = .duplicate actionId ∨
      l = .checking ∧ c = .hget actionId ∧
        fresh (s.actionHash (config.hashAction actionId)) s.now := by
  cases l with
  | checking =>
    cases c with
    | hget id =>
      replace h : (if fresh (s.actionHash (config.hashAction id)) s.now then .duplicate id
          else .silent) = AckStage.duplicate actionId := h
      split_ifs at h with hfresh
      obtain rfl := AckStage.duplicate.inj h
      exact Or.inr ⟨rfl, rfl, hfresh⟩
    | _ => cases h
  | duplicate id => cases c <;> exact Or.inl h
  | silent => cases c <;> cases h

lemma ackNext_checking {a : Option c.Answer} (h : ackNext l c a = .checking) : l = .checking := by
  cases l with
  | checking => rfl
  | duplicate id => cases c <;> cases h
  | silent => cases c <;> cases h

lemma ackNext_none : ackNext l c none = l := by
  cases l <;> cases c <;> rfl

/-- All acknowledged duplicates are applied, and those that a handler is about to acknowledge. -/
structure AckInv (s : Gateway) (ls : List (GatewayCall × AckStage)) : Prop where
  acked : ∀ clientId actionId, .actionAck actionId true ∈ s.events clientId → s.Applied actionId
  known : ∀ rl ∈ ls, ∀ actionId, rl.2 = .duplicate actionId → s.Applied actionId
  checking : ∀ rl ∈ ls, rl.2 = .checking → ackFirst rl.1 = .checking

lemma AckInv.perm {ls' : List (GatewayCall × AckStage)} (h : AckInv s ls) (hperm : ls ~ ls') :
    AckInv s ls' :=
  ⟨h.acked, fun rl hrl => h.known rl (hperm.mem_iff.mpr hrl),
    fun rl hrl => h.checking rl (hperm.mem_iff.mpr hrl)⟩

/-- An entry that answers an action was left by one that was applied. -/
lemma AckInv.call (h : AckInv s ((r, l) :: ls)) (hallowed : ackAllowed l c)
    (htruthful : EntriesTruthful config s (.call r c)) :
    AckInv (c.exec config s).2 ((r, ackNext l c (some (c.exec config s).1)) :: ls) := by
  have hmono : ∀ {actionId}, s.Applied actionId → (c.exec config s).2.Applied actionId :=
    fun happlied => happlied.mono (trace_exec c)
  obtain ⟨hknown, hknowns⟩ := forall_mem_cons.mp h.known
  obtain ⟨hchecking, hcheckings⟩ := forall_mem_cons.mp h.checking
  refine ⟨fun other actionId hack => ?_, forall_mem_cons.mpr ⟨fun actionId hl => ?_, ?_⟩,
    forall_mem_cons.mpr ⟨fun hl => hchecking (ackNext_checking hl), hcheckings⟩⟩
  · rcases mem_events_exec hack with hold | ⟨clientId, rfl | rfl⟩
    · exact hmono (h.acked other actionId hold)
    · exact hmono (hknown actionId hallowed)
    · exact hallowed.elim
  · rcases ackNext_duplicate hl with hstage | ⟨hstage, rfl, hfresh⟩
    · exact hmono (hknown actionId hstage)
    · have hfirst := hchecking hstage
      cases r with
      | message client message =>
        cases message with
        | action id rest => exact hmono (htruthful actionId rfl hfresh)
        | _ => cases hfirst
      | _ => cases hfirst
  · exact fun rl hrl actionId hl => hmono (hknowns rl hrl actionId hl)

lemma AckInv.env (h : AckInv s ls) (henv : Gateway.Env config s s') : AckInv s' ls where
  acked clientId actionId hack :=
    (h.acked clientId actionId (mem_events_env henv hack)).mono (trace_env henv)
  known rl hrl actionId hl := (h.known rl hrl actionId hl).mono (trace_env henv)
  checking := h.checking

lemma AckInv.initial (h : Gateway.Initial config s) : AckInv s [] := by
  obtain ⟨now, flags, hands, draws, rfl⟩ := h
  exact ⟨fun _ _ hack => (by cases hack), forall_mem_nil _, forall_mem_nil _⟩

/-- Every duplicate that is acknowledged was applied. -/
lemma acked_of_reachable {P : Pool GatewayCmd.Answer String Unit Gateway GatewayCall}
    (h : ((gatewayService config).within (EntriesTruthful config)).Reachable P)
    (hack : .actionAck actionId true ∈ P.state.events clientId) : P.state.Applied actionId := by
  obtain ⟨ls, -, hinv⟩ := Service.staged_invariant (S := gatewayService config) (D := acks)
    (Q := Acked) (I := AckInv) (fun s _ a => EntriesTruthful config s a) follows_body_acks
    (fun s ts ls a hok _ => hok)
    (fun s ls r hinv _ _ => ⟨hinv.acked,
      forall_mem_append.mpr ⟨hinv.known, forall_mem_singleton.mpr fun actionId hl => by
        cases r with
        | message client message => cases message <;> cases hl
        | _ => cases hl⟩,
      forall_mem_append.mpr ⟨hinv.checking, forall_mem_singleton.mpr fun hl => hl⟩⟩)
    (fun s ls₁ ls₂ r l c hinv hallowed htruthful =>
      ((hinv.perm perm_middle).call hallowed htruthful).perm perm_middle.symm)
    (fun s ls₁ ls₂ r l c hinv _ _ _ => by rwa [show acks.next l c none = l from ackNext_none])
    (fun s s' ls hinv henv _ => hinv.env henv) (fun s hs => .initial hs) h
  exact hinv.acked clientId actionId hack

end Invariant

/-! ### A message served to its end -/

section Serve

variable {config : GatewayConfig} {s s' : Gateway} {client : GameSocket} {actionId : ActionId}
  {wire : WireGameAction} {tableId : TableId} {α : Type}

lemma Gateway.Accepted.congr (h : s.Accepted config client wire) (hflags : s'.flags = s.flags)
    (hengines : s'.engines = s.engines) (hplayers : s'.socketPlayers = s.socketPlayers) :
    s'.Accepted config client wire := by
  constructor
  · rw [hplayers]; exact h.player
  · rw [hflags]; exact h.dealing
  · rw [hflags]; exact h.dealingRoom
  · rw [hflags]; exact h.settlement
  · rw [hflags]; exact h.settlementRoom
  · rw [Gateway.accepts, hengines]; exact h.engine

lemma run_gatewayRun_bind (c : GatewayCmd) (f : c.Answer → GatewayM α) :
    (gatewayRun c >>= f).run (GatewayCmd.exec config) s =
      (f (c.exec config s).1).run (GatewayCmd.exec config) (c.exec config s).2 := by
  rw [run_bind]
  rfl

/-- A request that keeps the rates changes nothing but the counters. -/
lemma run_isRateLimited
    (hrate : ((GatewayCmd.incr (getRateLimitKey client)).exec config s).1.1 ≤ 30)
    (hglobal : ((GatewayCmd.incr (getRateLimitKey client)).exec config s).1.2 ≤
      config.globalLimit) :
    ∃ counters expiry, (config.isRateLimited client).run (GatewayCmd.exec config) s =
      (.ok false, { s with counters := counters, expiry := expiry }) := by
  rw [isRateLimited, run_gatewayRun_bind]
  generalize hincr : (GatewayCmd.incr (getRateLimitKey client)).exec config s = answer at *
  obtain ⟨⟨count, global⟩, s₁⟩ := answer
  have hs₁ : ∃ counters, s₁ = { s with counters := counters } := ⟨_, by cases hincr; rfl⟩
  obtain ⟨counters, rfl⟩ := hs₁
  have hexpire : ∀ (cond : Bool) (key : String) (s : Gateway), ∃ expiry,
      (gatewayIf cond (gatewayRun (.expire key))).run (GatewayCmd.exec config) s =
        (.ok (), { s with expiry := expiry }) := by
    intro cond key s
    cases cond with
    | false => exact ⟨s.expiry, rfl⟩
    | true => exact ⟨_, rfl⟩
  obtain ⟨expiry, hfirst⟩ := hexpire (decide (count = 1)) (getRateLimitKey client)
    { s with counters := counters }
  obtain ⟨expiry', hsecond⟩ := hexpire (decide (global = 1)) globalActionCounterKey
    { s with counters := counters, expiry := expiry }
  refine ⟨counters, expiry', ?_⟩
  simp only [run_bind, hfirst, hsecond]
  rw [if_neg (not_lt.mpr hglobal), if_neg (not_lt.mpr hrate)]
  rfl

lemma run_flagOff {flag : String} (hall : s.flags.bind (· flag) ≠ some false)
    (hroom : s.flags.bind (· (roomFlag tableId flag)) ≠ some false) :
    (flagOff tableId flag).run (GatewayCmd.exec config) s = (.ok false, s) := by
  have hget : ∀ key, (GatewayCmd.getFlag key).exec config s = (s.flags.bind (· key), s) :=
    fun _ => rfl
  rw [flagOff, run_gatewayRun_bind, hget, if_neg hall, run_gatewayRun_bind, hget, pure_eq, run_ret,
    beq_eq_false_iff_ne.mpr hroom]

lemma run_stopTimer (acting : Option PlayerId) :
    ∃ timers, (stopTimer acting tableId).run (GatewayCmd.exec config) s =
      (.ok (), { s with timers := timers }) := by
  cases acting with
  | none => exact ⟨s.timers, rfl⟩
  | some playerId => exact ⟨_, rfl⟩

/-- What an accepted action adds to what has happened. -/
lemma execApplyAction_accepted {engine engine' : GameEngine} {state : GameStateInternal} (time : ℕ)
    (hengine : s.engines wire.tableId = some engine)
    (hrun : (GameEngine.applyAction config.sha256 wire.action).run engine = .ok state engine') :
    (GatewayCmd.execApplyAction config s client.id actionId time wire).1 =
        .applied state (s.tick + 1) ∧
      (GatewayCmd.execApplyAction config s client.id actionId time wire).2.trace =
        s.trace ++ [.called actionId time wire.tableId wire.action true, .published wire.tableId
          (sanitize state wire.action.actingPlayerId s.now) (s.tick + 1)] := by
  rw [GatewayCmd.execApplyAction, hengine]
  dsimp only
  rw [hrun]
  refine ⟨rfl, ?_⟩
  simp only [Gateway.setState, Gateway.publish, Gateway.log, (enqueue_eq _ _ _).1,
    Gateway.setEngine, append_assoc]
  rfl

/-- An action that nothing refuses is applied once it is recorded. -/
lemma mem_trace_playAction (time : ℕ) (haccepted : s.Accepted config client wire) :
    .called actionId time wire.tableId wire.action true ∈
      ((playAction client actionId time wire).run (GatewayCmd.exec config) s).2.trace.drop
        s.trace.length := by
  obtain ⟨timers, hstop⟩ := @run_stopTimer config s wire.tableId wire.action.actingPlayerId
  obtain ⟨engine, hengine, state, engine', hrun⟩ := Gateway.exists_of_accepts haccepted.engine
  obtain ⟨hanswer, htrace⟩ := @execApplyAction_accepted config { s with timers := timers } client
    actionId wire engine engine' state time hengine hrun
  rw [playAction, run_bind, hstop]
  simp only
  rw [run_bind, run_flagOff (s := { s with timers := timers }) haccepted.dealing
    haccepted.dealingRoom]
  simp only [Bool.false_eq_true, if_false]
  rw [run_bind, run_flagOff (s := { s with timers := timers }) haccepted.settlement
    haccepted.settlementRoom]
  simp only [Bool.false_eq_true, if_false]
  rw [run_gatewayRun_bind]
  simp only [GatewayCmd.exec, hanswer]
  obtain ⟨more, hmore⟩ := @trace_run config Unit
    (finishAction client actionId wire state (s.tick + 1))
    (GatewayCmd.execApplyAction config { s with timers := timers } client.id actionId time wire).2
  rw [← hmore, htrace]
  simp

/-- An action is applied if it has no entry of the last 24 h, and only then. -/
lemma deduplicate_applies_iff (haccepted : s.Accepted config client wire) :
    .called actionId s.now wire.tableId wire.action true ∈
      ((deduplicate client actionId wire).run (GatewayCmd.exec config) s).2.trace.drop
        s.trace.length ↔
      fresh (s.actionHash (config.hashAction actionId)) s.now = false := by
  have hget : (GatewayCmd.hget actionId).exec config s =
      ((s.actionHash (config.hashAction actionId), s.now), s) := rfl
  rw [deduplicate, run_gatewayRun_bind, hget]
  dsimp only
  by_cases hfresh : fresh (s.actionHash (config.hashAction actionId)) s.now = true
  · have hsame : ((gatewayRun (.enqueue client.id (.actionAck actionId true))).run
        (GatewayCmd.exec config) s).2.trace = s.trace := (enqueue_eq _ _ _).1
    rw [if_pos hfresh, hsame, drop_length]
    simp [hfresh]
  · rw [if_neg hfresh, run_gatewayRun_bind]
    refine ⟨fun _ => by simpa using hfresh, fun _ => ?_⟩
    exact mem_trace_playAction (s := ((GatewayCmd.hset actionId s.now).exec config s).2) s.now
      (haccepted.congr rfl rfl rfl)

/-- An action that nothing refuses takes effect if and only if no entry of the last 24 h is in its
way. -/
lemma takesEffect_iff (hplayable : s.Playable config client wire) :
    s.TakesEffect config client actionId wire ↔
      fresh (s.actionHash (config.hashAction actionId)) s.now = false := by
  obtain ⟨counters, expiry, hrate⟩ := run_isRateLimited hplayable.rate hplayable.globalRate
  have hparse : parseAction (some wire) = some wire := by
    simp [parseAction, hplayable.wellFormed]
  have hbound : ∀ s, (GatewayCmd.boundPlayer client.id).exec config s =
      (s.socketPlayers client.id, s) := fun _ => rfl
  have hplayer : ¬ (wire.action.actingPlayerId.isSome ∧
      wire.action.actingPlayerId ≠ s.socketPlayers client.id) := by
    rintro ⟨hsome, hne⟩
    obtain ⟨playerId, hacting⟩ := Option.isSome_iff_exists.mp hsome
    exact hne (hacting.trans (hplayable.player playerId hacting).symm)
  have hrun : (config.handleAction client actionId (some wire)).run (GatewayCmd.exec config) s =
      (deduplicate client actionId wire).run (GatewayCmd.exec config)
        { s with counters := counters, expiry := expiry } := by
    rw [handleAction, run_bind, hrate]
    simp only [Bool.false_eq_true, if_false, hparse]
    rw [run_gatewayRun_bind, hbound]
    dsimp only
    rw [if_neg hplayer]
  rw [Gateway.TakesEffect, Gateway.afterMessage, GatewayCall.body, hrun]
  exact deduplicate_applies_iff (s := { s with counters := counters, expiry := expiry })
    (hplayable.toAccepted.congr rfl rfl rfl)

end Serve

/-! ### Runs -/

/-- A posts the blind, and sends the message again. -/
def blindRepeated : Pool GatewayCmd.Answer String Unit Gateway GatewayCall :=
  (gatewayService zeroSeedConfig).playAll ⟨twoConnected, []⟩
    (served 0 (playerAction "A" "a1" (.postBlind "A" 1)) ++
      served 1 (playerAction "A" "a1" (.postBlind "A" 1)))

/-- A checks before the hand has begun, and again with the same id once it has. -/
def checkRetried : Pool GatewayCmd.Answer String Unit Gateway GatewayCall :=
  (gatewayService zeroSeedConfig).playAll ⟨twoConnected, []⟩
    (served 0 (playerAction "A" "a0" (.check "A")) ++
      served 1 (playerAction "A" "a1" (.postBlind "A" 1)) ++
      served 2 (playerAction "B" "b1" (.postBlind "B" 1)) ++
      served 3 (playerAction "A" "a2" .next) ++ served 4 (playerAction "A" "a0" (.check "A")))

end Pokerhub
