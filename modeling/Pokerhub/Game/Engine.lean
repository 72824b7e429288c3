import Pokerhub.Game.Proof

/-!
# The engine

`HandLog` of `hand-log.ts` and `GameEngine` of `engine/index.ts`, with its wallet and its table of
hands as flags. `settle` is asynchronous: after its first steps it waits for the table of hands
and for the wallet (`inFlight`), and the waiting settlements go on or fail at any later time
(`resume`). At the end it publishes the proof.
-/

namespace Pokerhub

open GameStateInternal HandStateMachine TransitionSystem List

/-! ### The log of a hand -/

structure HandLogEntry where
  index : ℕ
  action : GameAction
  preState : GameStateInternal
  postState : GameStateInternal
  deriving DecidableEq

/-- A line of the log file. -/
inductive LogLine where
  | commitment (commitment : String)
  | entry (entry : HandLogEntry)
  | proof (proof : HandProofResponse)
  deriving DecidableEq

structure HandLog where
  entries : List HandLogEntry := []
  commitment : Option String := none
  proof : Option HandProofResponse := none
  lines : List LogLine := []
  deriving DecidableEq

namespace HandLog

def record (log : HandLog) (action : GameAction) (preState postState : GameStateInternal) :
    HandLog :=
  let entry := ⟨log.entries.length, action, preState, postState⟩
  { log with entries := log.entries ++ [entry], lines := log.lines ++ [.entry entry] }

def recordCommitment (log : HandLog) (commitment : String) : HandLog :=
  { log with commitment := some commitment, lines := log.lines ++ [.commitment commitment] }

def recordProof (log : HandLog) (proof : HandProofResponse) : HandLog :=
  { log with proof := some proof, lines := log.lines ++ [.proof proof] }

end HandLog

/-! ### The engine -/

/-- What a settlement waits for. -/
inductive SettleStage where
  | findOne
  | wallet
  deriving DecidableEq

/-- The row of the hand in the table of hands. -/
structure HandRow where
  log : List HandLogEntry
  commitment : String
  seed : Option String
  nonce : Option String
  settled : Bool
  deriving DecidableEq

structure GameEngine where
  log : HandLog
  settlement : List SettlementEntry := []
  initialStacks : List (PlayerId × ℤ)
  machine : HandStateMachine
  rng : HandRNG
  hasWallet : Bool
  hasRepo : Bool
  proofFile : Option HandProofResponse := none
  handRow : Option HandRow := none
  inFlight : List SettleStage := []
  deriving DecidableEq

/-- A call on the engine. -/
abbrev Engine := EStateM GameError GameEngine

namespace GameEngine

/-- The constructor. -/
def create (playerIds : List PlayerId) (startingStack : ℕ) (rng : HandRNG)
    (hasWallet hasRepo : Bool) : GameEngine where
  log := HandLog.recordCommitment {} rng.commitment
  initialStacks := playerIds.map fun id => (id, (startingStack : ℤ))
  machine := HandStateMachine.initial playerIds startingStack
  rng := rng
  hasWallet := hasWallet
  hasRepo := hasRepo
  handRow :=
    if hasRepo then
      some { log := [], commitment := rng.commitment, seed := none, nonce := none, settled := false }
    else none

section Hash

variable (sha256 : List UInt8 → List UInt8)

/-- The end of `settle`: the proof goes to the log, to its file and to the table of hands. -/
def publish (e : GameEngine) : GameEngine :=
  let proof := e.rng.reveal sha256
  { e with
    log := e.log.recordProof proof
    proofFile := some proof
    handRow :=
      if e.hasRepo then
        some
          { log := e.log.entries, commitment := proof.commitment, seed := some proof.seed,
            nonce := some proof.nonce, settled := true }
      else e.handRow }

/-- `settle` from `recordDeltas` up to the wallet. -/
def settleEntries (e : GameEngine) : GameEngine :=
  let recorded := { e with
    settlement := e.settlement ++ recordDeltas e.machine.state e.initialStacks }
  if e.hasWallet then { recorded with inFlight := e.inFlight ++ [.wallet] }
  else recorded.publish sha256

/-- `settle` up to its first wait. -/
def settle (e : GameEngine) : GameEngine :=
  if e.machine.state.activePlayers.length = 0 then e
  else
    let settled := { e with
      machine := { e.machine with state := e.machine.state.settlePots } }
    if e.hasRepo then { settled with inFlight := e.inFlight ++ [.findOne] }
    else settled.settleEntries sha256

/-- A waiting settlement goes on, or what it waits for fails. -/
def resume (i : ℕ) (ok : Bool) (e : GameEngine) : GameEngine :=
  match e.inFlight[i]? with
  | none => e
  | some stage =>
    let resumed := { e with inFlight := e.inFlight.eraseIdx i }
    if ok then
      match stage with
      | .findOne =>
        if (e.handRow.map (·.settled)).getD false then resumed
        else resumed.settleEntries sha256
      | .wallet => resumed.publish sha256
    else resumed

/-- A call on the machine of the engine. -/
def onMachine (x : Machine Unit) : Engine Unit := fun e =>
  match x.run e.machine with
  | .ok u m => .ok u { e with machine := m }
  | .error err m => .error err { e with machine := m }

/-- `GameEngine.applyAction`. -/
def applyAction (action : GameAction) : Engine GameStateInternal := do
  let e ← get
  let shuffle := e.rng.shuffle sha256
  let preState := e.machine.state
  onMachine (HandStateMachine.apply shuffle action)
  onMachine <| modifyState fun s =>
    if s.activePlayers.length ≤ 1 ∧ s.phase = .bettingRound then { s with phase := .showdown }
    else s
  let e ← get
  if e.machine.state.phase = .showdown then
    onMachine (HandStateMachine.apply shuffle .next)
    modify (settle sha256)
  let e ← get
  let postState := e.machine.state
  modify fun e => { e with log := e.log.record action preState postState }
  return postState

/-- The engine after a call, accepted or rejected. -/
def afterAction (action : GameAction) (e : GameEngine) : GameEngine :=
  match (applyAction sha256 action).run e with
  | .ok _ e' | .error _ e' => e'

end Hash

variable {sha256 : List UInt8 → List UInt8}

/-! ### The machine and the RNG of a settlement -/

@[simp] lemma publish_machine (e : GameEngine) : (e.publish sha256).machine = e.machine := rfl

@[simp] lemma publish_rng (e : GameEngine) : (e.publish sha256).rng = e.rng := rfl

@[simp] lemma settleEntries_machine (e : GameEngine) :
    (e.settleEntries sha256).machine = e.machine := by
  unfold settleEntries
  dsimp only
  split <;> rfl

@[simp] lemma settleEntries_rng (e : GameEngine) : (e.settleEntries sha256).rng = e.rng := by
  unfold settleEntries
  dsimp only
  split <;> rfl

/-- What the settlement does before its first wait. -/
lemma settle_machine (e : GameEngine) :
    (e.settle sha256).machine = { e.machine with state := e.machine.state.settlePots } := by
  unfold settle
  dsimp only
  split_ifs with hactive hrepo
  · rw [settlePots, if_pos hactive]
  · rfl
  · rw [settleEntries_machine]

@[simp] lemma settle_rng (e : GameEngine) : (e.settle sha256).rng = e.rng := by
  unfold settle
  dsimp only
  split_ifs
  · rfl
  · rfl
  · rw [settleEntries_rng]

/-- The rest of a settlement leaves the machine alone. -/
lemma resume_machine (e : GameEngine) (i : ℕ) (ok : Bool) :
    (e.resume sha256 i ok).machine = e.machine := by
  unfold resume
  dsimp only
  split
  · rfl
  · rename_i stage _
    cases stage <;> split_ifs <;> simp

lemma resume_rng (e : GameEngine) (i : ℕ) (ok : Bool) : (e.resume sha256 i ok).rng = e.rng := by
  unfold resume
  dsimp only
  split
  · rfl
  · rename_i stage _
    cases stage <;> split_ifs <;> simp

/-! ### Calls follow the rules -/

lemma run_onMachine (x : Machine Unit) (e : GameEngine) :
    (onMachine x).run e =
      match x.run e.machine with
      | .ok u m => .ok u { e with machine := m }
      | .error err m => .error err { e with machine := m } := rfl

/-- An accepted call that ends before the showdown. -/
lemma afterAction_of_step {ids : List PlayerId} {e : GameEngine} (hlen : 2 ≤ ids.length)
    (h : Seated ids e.machine.state) {a : GameAction} {m₁ : HandStateMachine}
    (hstep : Step (e.rng.shuffle sha256) e.machine a m₁) (hphase : m₁.state.phase ≠ .showdown) :
    e.afterAction sha256 a =
      { e with machine := m₁, log := e.log.record a e.machine.state m₁.state } := by
  unfold afterAction applyAction
  simp only [EStateM.run_bind, EStateM.run_get, run_onMachine, hstep.run_apply, modifyState,
    EStateM.run_modify, not_forced (h.step hlen hstep), if_false, hphase]
  rfl

/-- A rejected call leaves the engine as it is; an accepted one plays a rule and settles a hand
that it brought to the showdown. -/
lemma afterAction_cases (sha256 : List UInt8 → List UInt8) {ids : List PlayerId} {e : GameEngine}
    (hlen : 2 ≤ ids.length) (h : Seated ids e.machine.state) (a : GameAction) :
    e.afterAction sha256 a = e ∨
      (∃ m₁, Step (e.rng.shuffle sha256) e.machine a m₁ ∧ m₁.state.phase ≠ .showdown ∧
        e.afterAction sha256 a =
          { e with machine := m₁, log := e.log.record a e.machine.state m₁.state }) ∨
      ∃ m₁, Step (e.rng.shuffle sha256) e.machine a m₁ ∧ m₁.state.phase = .showdown ∧
        Step (e.rng.shuffle sha256) m₁ .next (e.afterAction sha256 a).machine ∧
        (e.afterAction sha256 a).machine.state.phase = .settle ∧
        (e.afterAction sha256 a).rng = e.rng := by
  rcases apply_cases (e.rng.shuffle sha256) a e.machine with ⟨m₁, hrun, hstep⟩ | ⟨err, hrun⟩
  · right
    by_cases hphase : m₁.state.phase = .showdown
    · right
      unfold afterAction applyAction
      simp only [EStateM.run_bind, EStateM.run_get, run_onMachine, hrun, modifyState,
        EStateM.run_modify, not_forced (h.step hlen hstep), if_false]
      have hnext := run_apply_showdown (e.rng.shuffle sha256) hphase
      refine ⟨m₁, hstep, hphase, ?_⟩
      simp only [hphase, if_true, EStateM.run_bind, run_onMachine, hnext, EStateM.run_modify,
        EStateM.run_get, EStateM.run_pure, settle_machine, settlePots_phase, settlePots_settlePots,
        settle_rng, and_self, and_true]
      exact Step.of_apply hnext
    · exact Or.inl ⟨m₁, hstep, hphase, afterAction_of_step hlen h hstep hphase⟩
  · left
    unfold afterAction applyAction
    simp only [EStateM.run_bind, EStateM.run_get, run_onMachine, hrun]

/-! ### What a call does -/

lemma settle_log (e : GameEngine) : (e.settle sha256).log = e.log ∨
    ∃ p, (e.settle sha256).log = e.log.recordProof p := by
  unfold settle settleEntries
  dsimp only
  split_ifs
  · exact Or.inl rfl
  · exact Or.inl rfl
  · exact Or.inl rfl
  · exact Or.inr ⟨_, rfl⟩

lemma resume_log (e : GameEngine) (i : ℕ) (ok : Bool) : (e.resume sha256 i ok).log = e.log ∨
    ∃ p, (e.resume sha256 i ok).log = e.log.recordProof p := by
  unfold resume settleEntries
  dsimp only
  split
  · exact Or.inl rfl
  · rename_i stage _
    cases stage <;> split_ifs
    all_goals first | exact Or.inl rfl | exact Or.inr ⟨_, rfl⟩

/-- A betting round with one player left is shown down. -/
def force (s : GameStateInternal) : GameStateInternal :=
  if s.activePlayers.length ≤ 1 ∧ s.phase = .bettingRound then { s with phase := .showdown } else s

/-- The machine after a rule: a hand that came to its showdown is settled. -/
def conclude (m : HandStateMachine) : HandStateMachine :=
  { m with
    state :=
      if (force m.state).phase = .showdown then
        { (force m.state).settlePots with phase := .settle }
      else force m.state }

variable (sha256) in
/-- What an accepted call does once the machine has played it. -/
def afterPlay (a : GameAction) (preState : GameStateInternal) (e : GameEngine) : GameEngine :=
  let e' :=
    if e.machine.state.phase = .showdown then
      settle sha256
        { e with
          machine :=
            { e.machine with state := { e.machine.state.settlePots with phase := .settle } } }
    else e
  { e' with log := e'.log.record a preState e'.machine.state }

/-- A call is rejected and leaves the engine as it is, or it plays a rule. -/
lemma afterAction_spec (e : GameEngine) (a : GameAction) :
    (e.afterAction sha256 a = e ∧ (∃ err, (applyAction sha256 a).run e = .error err e) ∧
        ∀ m, ¬ Step (e.rng.shuffle sha256) e.machine a m) ∨
      ∃ m, Step (e.rng.shuffle sha256) e.machine a m ∧
        (applyAction sha256 a).run e = .ok (e.afterAction sha256 a).machine.state
          (e.afterAction sha256 a) ∧
        e.afterAction sha256 a = afterPlay sha256 a e.machine.state
          { e with machine := { m with state := force m.state } } := by
  unfold afterAction applyAction afterPlay
  rcases apply_cases (e.rng.shuffle sha256) a e.machine with ⟨m, hrun, hstep⟩ | ⟨err, hrun⟩
  · right
    refine ⟨m, hstep, ?_⟩
    simp only [EStateM.run_bind, EStateM.run_get, run_onMachine, hrun, modifyState,
      EStateM.run_modify, ← force.eq_1]
    generalize force m.state = s
    by_cases hphase : s.phase = .showdown
    · have hnext := run_apply_showdown (m := { m with state := s }) (e.rng.shuffle sha256) hphase
      simp only [hphase, if_true, EStateM.run_bind, run_onMachine, EStateM.run_modify,
        EStateM.run_get, EStateM.run_pure, hnext, and_self]
    · simp only [hphase, if_false, EStateM.run_bind, EStateM.run_modify, EStateM.run_get,
        EStateM.run_pure, and_self]
  · left
    simp only [EStateM.run_bind, EStateM.run_get, run_onMachine, hrun, true_and]
    refine ⟨⟨err, rfl⟩, fun m hstep => ?_⟩
    rw [hstep.run_apply] at hrun
    cases hrun

/-- A call that throws, on the machine or on the engine, has not written anything: not to the
state of the hand, the posted blinds or the log. -/
theorem thrown_call_unchanged (sha256 : List UInt8 → List UInt8) :
    (∀ (shuffle : Shuffle) (a : GameAction) (m m' : HandStateMachine) (err : GameError),
      (HandStateMachine.apply shuffle a).run m = .error err m' → m' = m) ∧
    ∀ (a : GameAction) (e e' : GameEngine) (err : GameError),
      (applyAction sha256 a).run e = .error err e' → e' = e := by
  constructor
  · intro shuffle a m m' err h
    exact apply_error_unchanged h
  · intro a e e' err h
    rcases @afterAction_spec sha256 e a with ⟨hstay, -⟩ | ⟨m, -, hok, -⟩
    · have hthrown : e.afterAction sha256 a = e' := by
        rw [afterAction, h]
      rw [← hthrown, hstay]
    · rw [hok] at h
      cases h

/-- In `WAIT_BLINDS` the machine and the engine throw at `next`. -/
theorem thrown_call_unchanged_next :
    let e := create ["p1", "p2"] 100 ⟨[], [], ""⟩ false false
    ∃ (m' : HandStateMachine) (e' : GameEngine) (err err' : GameError),
      (HandStateMachine.apply (map some) .next).run e.machine = .error err m' ∧ m' = e.machine ∧
        (applyAction id .next).run e = .error err' e' ∧ e' = e :=
  ⟨_, _, _, _, rfl, (thrown_call_unchanged id).1 (map some) .next _ _ _ rfl, rfl,
    (thrown_call_unchanged id).2 .next _ _ _ rfl⟩

lemma afterPlay_machine (a : GameAction) (preState : GameStateInternal) (e : GameEngine)
    (m : HandStateMachine) :
    (afterPlay sha256 a preState { e with machine := { m with state := force m.state } }).machine =
      conclude m := by
  unfold afterPlay conclude
  dsimp only
  split_ifs with hphase
  · rw [settle_machine]
    dsimp only
    rw [settlePots_phase, settlePots_settlePots]
  · rfl

lemma afterPlay_rng (a : GameAction) (preState : GameStateInternal) (e : GameEngine) :
    (afterPlay sha256 a preState e).rng = e.rng := by
  unfold afterPlay
  dsimp only
  split_ifs
  · rw [settle_rng]
  · rfl

lemma afterAction_rng_eq (e : GameEngine) (a : GameAction) :
    (e.afterAction sha256 a).rng = e.rng := by
  rcases @afterAction_spec sha256 e a with ⟨hstay, -⟩ | ⟨m, -, -, hplay⟩
  · rw [hstay]
  · rw [hplay, afterPlay_rng]

/-- The machine after a call is that after a rule, or the one before. -/
lemma afterAction_machine (e : GameEngine) (a : GameAction) : e.afterAction sha256 a = e ∨
    ∃ m, Step (e.rng.shuffle sha256) e.machine a m ∧
      (e.afterAction sha256 a).machine = conclude m := by
  rcases @afterAction_spec sha256 e a with ⟨hstay, -⟩ | ⟨m, hstep, -, hplay⟩
  · exact Or.inl hstay
  · exact Or.inr ⟨m, hstep, by rw [hplay, afterPlay_machine]⟩

lemma afterPlay_log (a : GameAction) (preState : GameStateInternal) (e : GameEngine) :
    ∃ log, (log = e.log ∨ ∃ p, log = e.log.recordProof p) ∧
      (afterPlay sha256 a preState e).log =
        log.record a preState (afterPlay sha256 a preState e).machine.state := by
  refine ⟨_, ?_, rfl⟩
  split_ifs
  · exact settle_log _
  · exact Or.inl rfl

/-- A call leaves the engine as it is, or its log gets the entry of the call. -/
lemma afterAction_log (e : GameEngine) (a : GameAction) : e.afterAction sha256 a = e ∨
    ∃ log, (log = e.log ∨ ∃ p, log = e.log.recordProof p) ∧
      (e.afterAction sha256 a).log =
        log.record a e.machine.state (e.afterAction sha256 a).machine.state := by
  rcases e.afterAction_spec a with ⟨hstay, -⟩ | ⟨m, -, -, hplay⟩
  · exact Or.inl hstay
  · right
    rw [hplay]
    exact afterPlay_log a e.machine.state { e with machine := { m with state := force m.state } }

lemma force_of_ne {s : GameStateInternal} (h : s.phase ≠ .bettingRound) : force s = s := by
  rw [force, if_neg fun hboth => h hboth.2]

lemma conclude_of_ne {m : HandStateMachine} (hbet : m.state.phase ≠ .bettingRound)
    (hshow : m.state.phase ≠ .showdown) : conclude m = m := by
  rw [conclude, force_of_ne hbet, if_neg hshow]

lemma conclude_of_showdown {m : HandStateMachine} (h : m.state.phase = .showdown) :
    (conclude m).state.phase = .settle := by
  rw [conclude, force_of_ne (by simp [h]), if_pos h]

lemma conclude_of_betting {m : HandStateMachine} (h : m.state.phase = .bettingRound) :
    (conclude m).state.phase = .settle ∨
      (2 ≤ m.state.activePlayers.length ∧ conclude m = m) := by
  by_cases hone : m.state.activePlayers.length ≤ 1
  · left
    have hforce : force m.state = { m.state with phase := .showdown } := if_pos ⟨hone, h⟩
    rw [conclude, hforce, if_pos rfl]
  · right
    have hforce : force m.state = m.state := by rw [force, if_neg fun hboth => hone hboth.1]
    refine ⟨by omega, ?_⟩
    rw [conclude, hforce, if_neg (by simp [h])]

/-- The call ends where the rule does, or in the settlement of a hand that was bet on. -/
lemma conclude_cases (m : HandStateMachine) : conclude m = m ∨
    ((m.state.phase = .bettingRound ∨ m.state.phase = .showdown) ∧
      (conclude m).state.phase = .settle) := by
  by_cases hbet : m.state.phase = .bettingRound
  · rcases conclude_of_betting hbet with hsettle | ⟨-, hsame⟩
    · exact Or.inr ⟨Or.inl hbet, hsettle⟩
    · exact Or.inl hsame
  · by_cases hshow : m.state.phase = .showdown
    · exact Or.inr ⟨Or.inr hshow, conclude_of_showdown hshow⟩
    · exact Or.inl (conclude_of_ne hbet hshow)

lemma conclude_phase_ne (m : HandStateMachine) : (conclude m).state.phase ≠ .showdown := by
  rw [conclude]
  dsimp only
  split_ifs with hphase
  · simp
  · exact hphase

/-- A rule is an accepted call. -/
lemma run_applyAction_of_step {e : GameEngine} {a : GameAction} {m : HandStateMachine}
    (hstep : Step (e.rng.shuffle sha256) e.machine a m) :
    (applyAction sha256 a).run e =
        .ok (e.afterAction sha256 a).machine.state (e.afterAction sha256 a) ∧
      (e.afterAction sha256 a).machine = conclude m := by
  rcases @afterAction_spec sha256 e a with ⟨-, -, hnone⟩ | ⟨m₁, hstep', hok, hplay⟩
  · exact absurd hstep (hnone m)
  · have hrun := hstep.run_apply
    rw [hstep'.run_apply] at hrun
    cases hrun
    exact ⟨hok, by rw [hplay, afterPlay_machine]⟩

/-! ### Who sits at the table -/

@[simp] lemma force_players (s : GameStateInternal) : (force s).players = s.players := by
  unfold force
  split_ifs <;> rfl

/-- The end of a call changes nothing of a player but the stack. -/
lemma map_conclude {β : Type*} (g : PlayerStateInternal → β)
    (hg : ∀ p stack, g { p with stack := stack } = g p) (m : HandStateMachine) :
    (conclude m).state.players.map g = m.state.players.map g := by
  unfold conclude
  dsimp only
  split_ifs
  · rw [map_settlePots g hg, force_players]
  · rw [force_players]

lemma cardView_conclude (m : HandStateMachine) :
    (conclude m).state.cardView = m.state.cardView := by
  have hforce : (force m.state).cardView = m.state.cardView := by
    unfold force
    split_ifs <;> rfl
  unfold conclude
  dsimp only
  split_ifs
  · exact (cardView_settlePots _).trans hforce
  · exact hforce

lemma afterAction_map_id (e : GameEngine) (a : GameAction) :
    (e.afterAction sha256 a).machine.state.players.map (·.id) =
      e.machine.state.players.map (·.id) := by
  rcases @afterAction_machine sha256 e a with hstay | ⟨m, hstep, hmachine⟩
  · rw [hstay]
  · rw [hmachine, map_conclude (fun p => p.id) (fun _ _ => rfl), hstep.map_id]

end GameEngine

end Pokerhub
