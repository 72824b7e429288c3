import Pokerhub.Game.Step

/-!
# The table over whole runs

The runs of the machine under its rules (`machineSteps`) and under calls to `apply` and
`applyAction` (`machineCalls`). A call takes at most two rules (`EngineStep`), as long as two
players are in the hand while it is played, which is an invariant (`Seated`); so every state that
calls reach is reached by rules (`reachable_of_calls`).
-/

namespace Pokerhub

open GameStateInternal HandStateMachine TransitionSystem List

/-! ### The roster -/

namespace GameStateInternal

/-- Who sits at the table and who has folded. -/
def roster (s : GameStateInternal) : List (PlayerId × Bool) :=
  s.players.map fun p => (p.id, p.folded)

lemma map_id_eq (s : GameStateInternal) : s.players.map (·.id) = s.roster.map (·.1) := by
  simp [roster, Function.comp_def]

lemma length_players_eq (s : GameStateInternal) : s.players.length = s.roster.length := by
  simp [roster]

lemma length_activePlayers_eq (s : GameStateInternal) :
    s.activePlayers.length = s.roster.countP (!·.2) := by
  rw [roster, countP_map, countP_eq_length_filter]
  rfl

/-- Someone in the hand may win the pot. -/
def Contested (s : GameStateInternal) (pot : SidePot) : Prop :=
  ∃ e ∈ s.roster, e.2 = false ∧ e.1 ∈ pot.players

@[simp] lemma roster_addBet (s : GameStateInternal) (p : PlayerStateInternal) (amount : ℤ) :
    (s.addBet p amount).roster = s.roster :=
  map_updateFirst_of_eq _ (by intro; rfl) _

@[simp] lemma roster_finishBettingRound (s : GameStateInternal) :
    s.finishBettingRound.roster = s.roster := by
  unfold finishBettingRound
  split
  · rfl
  · simp [roster]

@[simp] lemma roster_advanceStreet (s : GameStateInternal) :
    s.advanceStreet.roster = s.roster := rfl

@[simp] lemma roster_closeStreet (s : GameStateInternal) :
    s.closeStreet.roster = s.roster := by
  rw [← roster_finishBettingRound s]
  unfold closeStreet
  dsimp only
  split <;> rfl

@[simp] lemma roster_closeIfAlone (s : GameStateInternal) :
    s.closeIfAlone.roster = s.roster := by
  unfold closeIfAlone
  dsimp only
  split
  · split
    · exact roster_finishBettingRound s
    · rfl
  · rfl

@[simp] lemma roster_pop (s : GameStateInternal) (n : ℕ) : (s.pop n).roster = s.roster := rfl

@[simp] lemma roster_dealBoard (s : GameStateInternal) (shuffle : Shuffle) (n : ℕ) :
    (s.dealBoard shuffle n).roster = s.roster := rfl

lemma map_dealHoleCards {β : Type*} (g : PlayerStateInternal → β)
    (hg : ∀ p cards, g { p with holeCards := cards } = g p) (ps : List PlayerStateInternal)
    (deck : List ℕ) : (dealHoleCards ps deck).1.map g = ps.map g := by
  induction ps generalizing deck with
  | nil => rfl
  | cons p ps ih => simp [dealHoleCards, hg, ih]

@[simp] lemma roster_startHand (s : GameStateInternal) (shuffle : Shuffle) :
    (s.startHand shuffle).roster = s.roster :=
  map_dealHoleCards _ (fun _ _ => rfl) _ _

/-- A payment changes stacks only. -/
lemma map_payPot {β : Type*} (g : PlayerStateInternal → β)
    (hg : ∀ p stack, g { p with stack := stack } = g p) (board : List ℕ)
    (ps : List PlayerStateInternal) (pot : SidePot) : (payPot board ps pot).map g = ps.map g := by
  unfold payPot
  dsimp only
  split
  · rfl
  · split
    · rw [map_updateFirst_of_eq g fun p => hg p _, map_map]
      exact map_congr_left fun p _ => by simp only [Function.comp]; split <;> simp [hg]
    · rw [map_map]
      exact map_congr_left fun p _ => by simp only [Function.comp]; split <;> simp [hg]

lemma map_foldl_payPot {β : Type*} (g : PlayerStateInternal → β)
    (hg : ∀ p stack, g { p with stack := stack } = g p) (board : List ℕ) (pots : List SidePot)
    (ps : List PlayerStateInternal) : (pots.foldl (payPot board) ps).map g = ps.map g := by
  induction pots generalizing ps with
  | nil => rfl
  | cons pot pots ih => rw [foldl_cons, ih, map_payPot g hg]

lemma map_settlePots {β : Type*} (g : PlayerStateInternal → β)
    (hg : ∀ p stack, g { p with stack := stack } = g p) (s : GameStateInternal) :
    s.settlePots.players.map g = s.players.map g := by
  unfold settlePots
  split
  · rfl
  · exact map_foldl_payPot g hg _ _ _

@[simp] lemma roster_settlePots (s : GameStateInternal) : s.settlePots.roster = s.roster :=
  map_settlePots _ (fun _ _ => rfl) s

/-- A fold marks one player of the roster. -/
lemma roster_fold (s : GameStateInternal) (id : PlayerId) :
    (s.updatePlayer id (·.fold)).roster =
      s.roster.updateFirst (fun e => e.1 == id) fun e => (e.1, true) := by
  unfold roster updatePlayer
  dsimp only
  induction s.players with
  | nil => rfl
  | cons p ps ih =>
    rw [updateFirst_cons, map_cons, updateFirst_cons]
    split
    · rfl
    · rw [map_cons, ih]

lemma roster_resetHand (s : GameStateInternal) :
    s.resetHand.roster = s.roster.map fun e => (e.1, false) := by
  simp [roster, resetHand, PlayerStateInternal.reset, Function.comp_def]

end GameStateInternal

/-! ### Two players in every hand -/

/-- How many players are in the hand at least. -/
def HandPhase.minActive : HandPhase → ℕ
  | .waitBlinds | .nextHand | .deal | .bettingRound => 2
  | .showdown | .settle => 1

/-- The seats of a table: different players, enough of them in the hand, all before a deal. -/
structure Seated (ids : List PlayerId) (s : GameStateInternal) : Prop where
  ids : s.roster.map (·.1) = ids
  active : s.phase.minActive ≤ s.activePlayers.length
  waiting : s.phase = .waitBlinds ∨ s.phase = .nextHand → ∀ e ∈ s.roster, e.2 = false

lemma closeIfAlone_of_two_le {s : GameStateInternal} (h : 2 ≤ s.activePlayers.length) :
    s.closeIfAlone = s := by
  rw [closeIfAlone, if_neg (by omega)]

lemma closeIfAlone_phase {s : GameStateInternal} :
    s.closeIfAlone.phase = if s.activePlayers.length ≤ 1 then .showdown else s.phase := by
  unfold closeIfAlone
  split <;> rfl

lemma closeStreet_phase_eq (s : GameStateInternal) :
    s.closeStreet.phase = .showdown ∨ s.closeStreet.phase = .deal := by
  unfold closeStreet
  dsimp only
  split <;> simp

/-- Folding takes at most one player out of the hand. -/
lemma countP_updateFirst_fold (l : List (PlayerId × Bool)) (id : PlayerId) :
    l.countP (!·.2) ≤
      (l.updateFirst (fun e => e.1 == id) fun e => (e.1, true)).countP (!·.2) + 1 := by
  induction l with
  | nil => simp
  | cons e l ih =>
    rw [updateFirst_cons]
    split
    · simp only [countP_cons]
      split <;> simp
    · simp only [countP_cons]
      omega

lemma Seated.initial {ids : List PlayerId} (hlen : 2 ≤ ids.length) (startingStack : ℕ) :
    Seated ids (HandStateMachine.initial ids startingStack).state := by
  have hroster : (HandStateMachine.initial ids startingStack).state.roster =
      ids.map fun id => (id, false) := by
    simp [roster, HandStateMachine.initial]
  refine ⟨by simp [hroster, Function.comp_def], ?_, by simp [hroster]⟩
  rw [length_activePlayers_eq, hroster, countP_map]
  simpa [Function.comp_def, HandStateMachine.initial, HandPhase.minActive] using hlen

/-- A step that keeps the roster and does not ask for more players keeps the seats. -/
lemma Seated.of_roster_eq {ids : List PlayerId} {s s' : GameStateInternal} (h : Seated ids s)
    (hroster : s'.roster = s.roster) (hphase : s'.phase.minActive ≤ s.phase.minActive)
    (hwaiting : s'.phase = .waitBlinds ∨ s'.phase = .nextHand → s'.phase = s.phase) :
    Seated ids s' where
  ids := by rw [hroster, h.ids]
  active := by
    have := h.active
    rw [length_activePlayers_eq, hroster, ← length_activePlayers_eq]
    omega
  waiting hw := by
    rw [hroster]
    exact h.waiting (hwaiting hw ▸ hw)

theorem Seated.step {ids : List PlayerId} {shuffle : Shuffle} {a : GameAction}
    {m m' : HandStateMachine} (hlen : 2 ≤ ids.length) (h : Seated ids m.state)
    (hstep : Step shuffle m a m') : Seated ids m'.state := by
  cases hstep with
  | postBlind id amount p hphase => exact h.of_roster_eq (by simp) le_rfl fun _ => rfl
  | lastBlind id amount p hphase =>
    refine h.of_roster_eq (by simp) ?_ (by simp [startHand])
    rcases hphase with hphase | hphase <;> simp [hphase, startHand, HandPhase.minActive]
  | deal hphase =>
    refine h.of_roster_eq ?_ (by simp [hphase, HandPhase.minActive]) (by simp)
    split
    · rfl
    · exact roster_dealBoard m.state shuffle m.state.boardDeal
  | chips id amount p hphase =>
    have hactive := h.active
    rw [hphase] at hactive
    rw [closeIfAlone_of_two_le (by rwa [length_activePlayers_eq, roster_addBet,
      ← length_activePlayers_eq])]
    exact h.of_roster_eq (by simp) le_rfl fun _ => rfl
  | check id hphase =>
    have hactive := h.active
    rw [hphase] at hactive
    rwa [closeIfAlone_of_two_le hactive]
  | fold id p hphase hp =>
    have hactive := h.active
    have hone := countP_updateFirst_fold m.state.roster p.id
    rw [hphase, length_activePlayers_eq] at hactive
    refine ⟨?_, ?_, ?_⟩
    · rw [roster_closeIfAlone, roster_fold, map_updateFirst_of_eq _ (by intro; rfl), h.ids]
    · rw [length_activePlayers_eq, roster_closeIfAlone, closeIfAlone_phase,
        length_activePlayers_eq, roster_fold]
      have hkeep : (m.state.updatePlayer p.id (·.fold)).phase = .bettingRound := hphase
      rw [hkeep]
      simp only [HandPhase.minActive] at hactive
      split <;> simp only [HandPhase.minActive] <;> omega
    · rw [closeIfAlone_phase]
      have hkeep : (m.state.updatePlayer p.id (·.fold)).phase = .bettingRound := hphase
      rw [hkeep]
      split <;> simp
  | next hphase =>
    refine h.of_roster_eq (by simp) ?_ ?_
    · rcases closeStreet_phase_eq m.state with hc | hc <;>
        simp [hc, hphase, HandPhase.minActive]
    · rcases closeStreet_phase_eq m.state with hc | hc <;> simp [hc]
  | showdown hphase =>
    exact h.of_roster_eq (roster_settlePots _) (by simp [hphase, HandPhase.minActive]) (by simp)
  | settle hphase =>
    refine ⟨?_, ?_, ?_⟩
    · rw [roster_resetHand, map_map]
      exact h.ids
    · rw [length_activePlayers_eq, roster_resetHand, countP_map]
      have : m.state.roster.length = ids.length := by rw [← h.ids, length_map]
      simpa [Function.comp_def, resetHand, HandPhase.minActive, this] using hlen
    · simp [roster_resetHand]

/-- A rule keeps who sits at the table. -/
lemma Step.map_id {shuffle : Shuffle} {a : GameAction} {m m' : HandStateMachine}
    (h : Step shuffle m a m') : m'.state.players.map (·.id) = m.state.players.map (·.id) := by
  rw [map_id_eq, map_id_eq]
  cases h with
  | postBlind => simp
  | lastBlind => simp
  | deal => split_ifs <;> rfl
  | chips => simp
  | check => simp
  | fold id p =>
    simp only [roster_closeIfAlone, ← map_id_eq]
    exact map_updateFirst_of_eq _ (by intro; rfl) _
  | next => simp
  | showdown => exact congrArg (map _) (roster_settlePots _)
  | settle => simp [resetHand, roster, PlayerStateInternal.reset]

/-! ### Runs -/

/-- The runs of the machine under its rules, with any shuffle at every step. -/
def machineSteps (ids : List PlayerId) (startingStack : ℕ) :
    TransitionSystem HandStateMachine (Shuffle × GameAction) where
  init m := m = HandStateMachine.initial ids startingStack
  step m l m' := Step l.1 m l.2 m'

/-- The two entry points of the machine. -/
inductive Call where
  | apply (action : GameAction)
  | applyAction (action : GameAction)

def Call.action : Call → GameAction
  | .apply action | .applyAction action => action

def Call.run (shuffle : Shuffle) : Call → Machine Unit
  | .apply action => HandStateMachine.apply shuffle action
  | .applyAction action => HandStateMachine.applyAction shuffle action

/-- The machine after a call, accepted or rejected. -/
def machineAfter : EStateM.Result GameError HandStateMachine Unit → HandStateMachine
  | .ok _ m | .error _ m => m

/-- The runs of the machine under calls, accepted and rejected, with any shuffle in every call. -/
def machineCalls (ids : List PlayerId) (startingStack : ℕ) :
    TransitionSystem HandStateMachine (Shuffle × Call) where
  init m := m = HandStateMachine.initial ids startingStack
  step m l m' := m' = machineAfter ((l.2.run l.1).run m)

/-- The machine after a list of calls. -/
def callAll (shuffle : Shuffle) (calls : List Call) (m : HandStateMachine) : HandStateMachine :=
  calls.foldl (fun m c => machineAfter ((c.run shuffle).run m)) m

lemma reachable_callAll_restrict (ids : List PlayerId) (startingStack : ℕ) (shuffle : Shuffle)
    (calls : List Call) (ok : HandStateMachine → Shuffle × Call → Prop)
    (hok : ∀ m, ∀ c ∈ calls, ok m (shuffle, c)) :
    ((machineCalls ids startingStack).restrict ok).Reachable
      (callAll shuffle calls (HandStateMachine.initial ids startingStack)) := by
  have hgen : ∀ (calls : List Call) (m : HandStateMachine), (∀ m, ∀ c ∈ calls, ok m (shuffle, c)) →
      ((machineCalls ids startingStack).restrict ok).Reachable m →
      ((machineCalls ids startingStack).restrict ok).Reachable (callAll shuffle calls m) := by
    intro calls
    induction calls with
    | nil => exact fun _ _ h => h
    | cons c calls ih =>
      intro m hok h
      exact ih _ (fun m c hc => hok m c (mem_cons_of_mem _ hc))
        (h.tail (a := (shuffle, c)) ⟨hok m c mem_cons_self, rfl⟩)
  exact hgen calls _ hok (.of_init rfl)

lemma reachable_callAll (ids : List PlayerId) (startingStack : ℕ) (shuffle : Shuffle)
    (calls : List Call) :
    (machineCalls ids startingStack).Reachable
      (callAll shuffle calls (HandStateMachine.initial ids startingStack)) :=
  (reachable_callAll_restrict ids startingStack shuffle calls (fun _ _ => True)
    fun _ _ _ => trivial).of_restrict

theorem seated_of_reachable {ids : List PlayerId} {startingStack : ℕ} {m : HandStateMachine}
    (hlen : 2 ≤ ids.length) (h : (machineSteps ids startingStack).Reachable m) :
    Seated ids m.state :=
  h.invariant (I := fun m => Seated ids m.state) (by rintro _ rfl; exact .initial hlen _)
    fun _ _ _ hi hs => hi.step hlen hs

/-! ### Calls follow the rules -/

lemma payPot_zero (board : List ℕ) (ps : List PlayerStateInternal) (players : List PlayerId)
    (contributions : List (PlayerId × ℤ)) :
    payPot board ps ⟨0, players, contributions⟩ = ps := by
  simp [payPot]

/-- `settle` finds the pots already paid. -/
lemma settlePots_settlePots (s : GameStateInternal) : s.settlePots.settlePots = s.settlePots := by
  by_cases h : s.activePlayers.length = 0
  · simp only [settlePots, if_pos h]
  · have hactive : s.settlePots.activePlayers.length = s.activePlayers.length := by
      rw [length_activePlayers_eq, roster_settlePots, ← length_activePlayers_eq]
    have hpot : s.settlePots.pot = 0 ∧ s.settlePots.sidePots = [] := by
      simp only [settlePots, if_neg h, and_self]
    rw [settlePots, if_neg (by omega), potsToPay, hpot.2, hpot.1]
    simp only [length_nil, lt_self_iff_false, if_false, foldl_cons, foldl_nil, payPot_zero]
    generalize hs : s.settlePots = s' at *
    obtain ⟨h₁, h₂⟩ := hpot
    cases s'
    subst h₁ h₂
    rfl

/-- What an accepted `applyAction` does: the action, then the settlement of a hand that it
brought to the showdown. -/
inductive EngineStep (shuffle : Shuffle) (m : HandStateMachine) (a : GameAction) :
    HandStateMachine → Prop
  | play {m₁ : HandStateMachine} (hstep : Step shuffle m a m₁)
      (hphase : m₁.state.phase ≠ .showdown) : EngineStep shuffle m a m₁
  | settle {m₁ m₂ : HandStateMachine} (hstep : Step shuffle m a m₁)
      (hphase : m₁.state.phase = .showdown) (hnext : Step shuffle m₁ .next m₂) :
      EngineStep shuffle m a m₂

lemma run_apply_showdown {m : HandStateMachine} (shuffle : Shuffle)
    (hphase : m.state.phase = .showdown) :
    (apply shuffle .next).run m =
      .ok () { m with state := { m.state.settlePots with phase := .settle } } := by
  unfold apply
  rw [EStateM.run_bind, EStateM.run_get]
  simp only [hphase]
  rfl

lemma settlePots_phase (s : GameStateInternal) (phase : HandPhase) :
    ({ s with phase := phase } : GameStateInternal).settlePots =
      { s.settlePots with phase := phase } := by
  unfold settlePots potsToPay activePlayers
  split_ifs <;> rfl

/-- No betting round is left with one player. -/
lemma not_forced {ids : List PlayerId} {s : GameStateInternal} (h : Seated ids s) :
    ¬ (s.activePlayers.length ≤ 1 ∧ s.phase = .bettingRound) := by
  rintro ⟨hone, hphase⟩
  have hactive := h.active
  rw [hphase] at hactive
  simp only [HandPhase.minActive] at hactive
  omega

/-- `applyAction` at a seated table. -/
theorem applyAction_cases {ids : List PlayerId} {m : HandStateMachine} (hlen : 2 ≤ ids.length)
    (h : Seated ids m.state) (shuffle : Shuffle) (a : GameAction) :
    (∃ m', (applyAction shuffle a).run m = .ok () m' ∧ EngineStep shuffle m a m') ∨
      ∃ e, (applyAction shuffle a).run m = .error e m := by
  unfold applyAction
  rw [EStateM.run_bind]
  rcases apply_cases shuffle a m with ⟨m₁, hrun, hstep⟩ | ⟨e, hrun⟩
  · left
    have hforce := not_forced (h.step hlen hstep)
    simp only [hrun, EStateM.run_bind, modifyState, EStateM.run_modify, EStateM.run_get, hforce,
      if_false]
    by_cases hphase : m₁.state.phase = .showdown
    · refine ⟨_, ?_, .settle hstep hphase (.showdown hphase)⟩
      rw [if_pos hphase, EStateM.run_bind, run_apply_showdown shuffle hphase]
      simp only [EStateM.run_modify]
      rw [settlePots_phase, settlePots_settlePots]
    · exact ⟨m₁, by rw [if_neg hphase]; rfl, .play hstep hphase⟩
  · exact Or.inr ⟨e, by rw [hrun]⟩

/-- A call takes the rules or leaves the machine as it is. -/
lemma call_cases {ids : List PlayerId} {m : HandStateMachine} (hlen : 2 ≤ ids.length)
    (h : Seated ids m.state) (shuffle : Shuffle) (c : Call) :
    machineAfter ((c.run shuffle).run m) = m ∨
      Step shuffle m c.action (machineAfter ((c.run shuffle).run m)) ∨
      ∃ m₁, Step shuffle m c.action m₁ ∧ m₁.state.phase = .showdown ∧
        Step shuffle m₁ .next (machineAfter ((c.run shuffle).run m)) := by
  cases c with
  | apply a =>
    rcases apply_cases shuffle a m with ⟨m', hrun, hstep⟩ | ⟨e, hrun⟩
    · exact Or.inr (Or.inl (by simpa [Call.run, Call.action, hrun, machineAfter] using hstep))
    · exact Or.inl (by simp [Call.run, hrun, machineAfter])
  | applyAction a =>
    rcases applyAction_cases hlen h shuffle a with ⟨m', hrun, hstep⟩ | ⟨e, hrun⟩
    · simp only [Call.run, hrun, machineAfter, Call.action]
      cases hstep with
      | play hstep => exact Or.inr (Or.inl hstep)
      | settle hstep hphase hnext => exact Or.inr (Or.inr ⟨_, hstep, hphase, hnext⟩)
    · exact Or.inl (by simp [Call.run, hrun, machineAfter])

/-- Every state that calls reach is reached by rules, and a condition on the actions of the calls
holds of the actions of the rules when it admits `next` at the showdown. -/
theorem reachable_of_calls {ids : List PlayerId} {startingStack : ℕ}
    (ok : HandStateMachine → GameAction → Prop) {m : HandStateMachine} (hlen : 2 ≤ ids.length)
    (hok : ∀ m, m.state.phase = .showdown → ok m .next)
    (h : ((machineCalls ids startingStack).restrict fun m l => ok m l.2.action).Reachable m) :
    ((machineSteps ids startingStack).restrict fun m l => ok m l.2).Reachable m := by
  refine h.invariant (fun _ hm => .of_init hm) ?_
  rintro m ⟨shuffle, c⟩ _ hreach ⟨hc, rfl⟩
  have hseated := seated_of_reachable hlen hreach.of_restrict
  rcases call_cases hlen hseated shuffle c with hstay | hstep | ⟨m₁, hstep, hphase, hnext⟩
  · rwa [hstay]
  · exact hreach.tail (a := (shuffle, c.action)) ⟨hc, hstep⟩
  · refine Reachable.tail (hreach.tail (a := (shuffle, c.action)) ⟨hc, hstep⟩)
      (a := (shuffle, .next)) ⟨hok m₁ hphase, hnext⟩

lemma reachable_steps {ids : List PlayerId} {startingStack : ℕ} {m : HandStateMachine}
    (hlen : 2 ≤ ids.length) (h : (machineCalls ids startingStack).Reachable m) :
    (machineSteps ids startingStack).Reachable m := by
  have htrue : ((machineCalls ids startingStack).restrict fun _ _ => True).Reachable m :=
    h.invariant (fun _ hm => .of_init hm) fun _ _ _ hr hs => hr.tail ⟨trivial, hs⟩
  exact (reachable_of_calls (fun _ _ => True) hlen (fun _ _ => trivial) htrue).of_restrict

end Pokerhub
