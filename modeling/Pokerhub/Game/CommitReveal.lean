import Pokerhub.Game.Engine

/-!
# Commit and reveal

An engine has one RNG and deals every hand from its seed. As long as it deals only one hand, the
seed of the hand is published after its settlement only, and a second deal repeats the seed
(`commit_reveal`).
-/

namespace Pokerhub

open GameStateInternal HandStateMachine TransitionSystem List

/-! ### Runs of an engine -/

/-- What happens at an engine: a call, or a waiting settlement that goes on. -/
inductive EngineEvent where
  | action (a : GameAction)
  | resume (i : ℕ) (ok : Bool)

/-- An engine with the seeds that its hands were dealt from. -/
structure EngineRun where
  engine : GameEngine
  dealt : List (List UInt8) := []

/-- Before a deal. -/
def HandPhase.Waiting (phase : HandPhase) : Prop :=
  phase = .waitBlinds ∨ phase = .nextHand

instance (phase : HandPhase) : Decidable phase.Waiting :=
  inferInstanceAs (Decidable (_ ∨ _))

namespace EngineRun

def step (sha256 : List UInt8 → List UInt8) (r : EngineRun) : EngineEvent → EngineRun
  | .action a =>
    let e := r.engine.afterAction sha256 a
    { engine := e
      dealt :=
        if r.engine.machine.state.phase.Waiting ∧ e.machine.state.phase = .deal then
          r.dealt ++ [r.engine.rng.seed]
        else r.dealt }
  | .resume i ok => { r with engine := r.engine.resume sha256 i ok }

end EngineRun

/-- The runs of an engine, with any seed, wallet and table of hands. -/
def engineRuns (sha256 : List UInt8 → List UInt8) (ids : List PlayerId) (startingStack : ℕ) :
    TransitionSystem EngineRun EngineEvent where
  init r := ∃ seed nonce hasWallet hasRepo,
    r = { engine := .create ids startingStack (.create sha256 seed nonce) hasWallet hasRepo }
  step r event r' := r' = r.step sha256 event

/-- The seeds that the log, the proof file and the table of hands give away. -/
def GameEngine.published (e : GameEngine) : List String :=
  (e.log.proof.toList ++ e.proofFile.toList).map (·.seed) ++ (e.handRow.bind (·.seed)).toList

/-- The hand on the table has been dealt and is not settled. -/
def HandPhase.Live (phase : HandPhase) : Prop :=
  phase = .deal ∨ phase = .bettingRound ∨ phase = .showdown

/-- The last blind of a hand after the first one. -/
def DealsAgain (r : EngineRun) (event : EngineEvent) : Prop :=
  ∃ id amount p, event = .action (.postBlind id amount) ∧
    r.engine.machine.state.phase = .nextHand ∧
    r.engine.machine.state.players.find? (fun p => p.id == id) = some p ∧
    0 < amount ∧ amount ≤ p.stack ∧
    (insert p.id r.engine.machine.blindsPosted).card = r.engine.machine.state.players.length

/-! ### Phases -/

/-- The phases around a rule. -/
lemma Step.phase_cases {shuffle : Shuffle} {a : GameAction} {m m' : HandStateMachine}
    (h : Step shuffle m a m') :
    (m.state.phase.Waiting ∧ m'.state.phase = m.state.phase) ∨
      (m.state.phase.Waiting ∧ m'.state.phase = .deal ∧
        ∃ id amount p, a = .postBlind id amount ∧
          m.state.players.find? (fun p => p.id == id) = some p ∧ 0 < amount ∧ amount ≤ p.stack ∧
          (insert p.id m.blindsPosted).card = m.state.players.length) ∨
      (m.state.phase.Live ∧ (m'.state.phase.Live ∨ m'.state.phase = .settle)) ∨
      (m.state.phase = .settle ∧ m'.state.phase = .nextHand) := by
  have hopen : ∀ {s : GameStateInternal}, s.phase = .bettingRound → s.closeIfAlone.phase.Live := by
    intro s hs
    rw [closeIfAlone_phase, hs]
    split
    · exact Or.inr (Or.inr rfl)
    · exact Or.inr (Or.inl rfl)
  cases h with
  | postBlind id amount p hphase => exact Or.inl ⟨hphase, rfl⟩
  | lastBlind id amount p hphase hp hpos hle hall =>
    exact Or.inr (Or.inl ⟨hphase, rfl, id, amount, p, rfl, hp, hpos, hle, hall⟩)
  | deal hphase =>
    exact Or.inr (Or.inr (Or.inl ⟨Or.inl hphase, Or.inl (Or.inr (Or.inl rfl))⟩))
  | chips id amount p hphase =>
    exact Or.inr (Or.inr (Or.inl ⟨Or.inr (Or.inl hphase), Or.inl (hopen hphase)⟩))
  | check id hphase =>
    exact Or.inr (Or.inr (Or.inl ⟨Or.inr (Or.inl hphase), Or.inl (hopen hphase)⟩))
  | fold id p hphase =>
    exact Or.inr (Or.inr (Or.inl ⟨Or.inr (Or.inl hphase), Or.inl (hopen hphase)⟩))
  | next hphase =>
    refine Or.inr (Or.inr (Or.inl ⟨Or.inr (Or.inl hphase), Or.inl ?_⟩))
    rcases closeStreet_phase_eq m.state with hc | hc
    · exact Or.inr (Or.inr hc)
    · exact Or.inl hc
  | showdown hphase =>
    exact Or.inr (Or.inr (Or.inl ⟨Or.inr (Or.inr hphase), Or.inr rfl⟩))
  | settle hphase => exact Or.inr (Or.inr (Or.inr ⟨hphase, rfl⟩))

lemma HandPhase.Live.not_waiting {phase : HandPhase} (h : phase.Live) : ¬ phase.Waiting := by
  rcases h with rfl | rfl | rfl <;> simp [HandPhase.Waiting]

lemma HandPhase.Live.ne_waitBlinds {phase : HandPhase} (h : phase.Live) : phase ≠ .waitBlinds :=
  fun hw => h.not_waiting (Or.inl hw)

/-- Only a live hand is brought to the showdown. -/
lemma Step.live_of_showdown {shuffle : Shuffle} {a : GameAction} {m m' : HandStateMachine}
    (h : Step shuffle m a m') (hphase : m'.state.phase = .showdown) : m.state.phase.Live := by
  rcases h.phase_cases with ⟨hw, hsame⟩ | ⟨_, hdeal, _⟩ | ⟨hlive, _⟩ | ⟨_, hnext⟩
  · rw [← hsame, hphase] at hw
    rcases hw with hw | hw <;> cases hw
  · rw [hdeal] at hphase
    cases hphase
  · exact hlive
  · rw [hnext] at hphase
    cases hphase

/-! ### One RNG -/

section Run

variable {sha256 : List UInt8 → List UInt8} {ids : List PlayerId} {startingStack : ℕ}

/-- The hands of an engine have one seed. -/
structure OneSeed (ids : List PlayerId) (startingStack : ℕ) (r : EngineRun) : Prop where
  machine : (machineSteps ids startingStack).Reachable r.engine.machine
  dealt : ∀ seed ∈ r.dealt, seed = r.engine.rng.seed
  first : r.engine.machine.state.phase ≠ .waitBlinds → r.dealt ≠ []

lemma afterAction_rng {e : GameEngine} (hlen : 2 ≤ ids.length) (h : Seated ids e.machine.state)
    (a : GameAction) : (e.afterAction sha256 a).rng = e.rng := by
  rcases e.afterAction_cases sha256 hlen h a with hstay | ⟨m₁, _, _, hafter⟩ | ⟨_, _, _, _, _, hrng⟩
  · rw [hstay]
  · rw [hafter]
  · exact hrng

lemma EngineRun.dealt_step (r : EngineRun) (event : EngineEvent) :
    (r.step sha256 event).dealt = r.dealt ∨
      (r.step sha256 event).dealt = r.dealt ++ [r.engine.rng.seed] := by
  cases event with
  | action a =>
    simp only [EngineRun.step]
    split
    · exact Or.inr rfl
    · exact Or.inl rfl
  | resume i ok => exact Or.inl rfl

/-- Every event keeps the one seed. -/
theorem OneSeed.step {r : EngineRun} (hlen : 2 ≤ ids.length) (h : OneSeed ids startingStack r)
    (event : EngineEvent) : OneSeed ids startingStack (r.step sha256 event) := by
  have hseated := seated_of_reachable hlen h.machine
  have hrng : (r.step sha256 event).engine.rng = r.engine.rng := by
    cases event with
    | action a => exact afterAction_rng hlen hseated a
    | resume i ok => exact GameEngine.resume_rng _ _ _
  have hdealt : ∀ seed ∈ (r.step sha256 event).dealt, seed = (r.step sha256 event).engine.rng.seed := by
    intro seed hseed
    rw [hrng]
    rcases r.dealt_step event with hsame | hmore
    · exact h.dealt seed (hsame ▸ hseed)
    · rw [hmore] at hseed
      rcases mem_append.mp hseed with hseed | hseed
      · exact h.dealt seed hseed
      · exact mem_singleton.mp hseed
  have hstill : r.dealt ≠ [] → (r.step sha256 event).dealt ≠ [] := by
    intro hne
    rcases r.dealt_step event with hsame | hmore
    · rwa [hsame]
    · simp [hmore]
  cases event with
  | resume i ok =>
    have hmachine : (r.step sha256 (.resume i ok)).engine.machine = r.engine.machine :=
      GameEngine.resume_machine _ _ _
    exact ⟨hmachine ▸ h.machine, hdealt, fun hphase => hstill (h.first (hmachine ▸ hphase))⟩
  | action a =>
    rcases r.engine.afterAction_cases sha256 hlen hseated a with
      hstay | ⟨m₁, hstep, _, hafter⟩ | ⟨m₁, hstep, hphase, hnext, hsettle, _⟩
    · have hmachine : (r.step sha256 (.action a)).engine = r.engine := hstay
      exact ⟨hmachine ▸ h.machine, hdealt, fun hphase => hstill (h.first (hmachine ▸ hphase))⟩
    · have hmachine : (r.step sha256 (.action a)).engine.machine = m₁ := by
        simp only [EngineRun.step, hafter]
      refine ⟨?_, hdealt, fun hne => ?_⟩
      · rw [hmachine]
        exact h.machine.tail (a := (r.engine.rng.shuffle sha256, a)) hstep
      · by_cases hwait : r.engine.machine.state.phase = .waitBlinds
        · -- leaving the first blinds is a deal
          rw [hmachine] at hne
          rcases hstep.phase_cases with ⟨_, hsame⟩ | ⟨hw, hdeal, _⟩ | ⟨hlive, _⟩ | ⟨hs, _⟩
          · exact absurd (hsame.trans hwait) hne
          · simp [EngineRun.step, hafter, hw, hdeal]
          · exact absurd hwait hlive.ne_waitBlinds
          · rw [hwait] at hs
            cases hs
        · exact hstill (h.first hwait)
    · have hlive := hstep.live_of_showdown hphase
      refine ⟨?_, hdealt, fun _ => hstill (h.first hlive.ne_waitBlinds)⟩
      exact Reachable.tail (h.machine.tail (a := (r.engine.rng.shuffle sha256, a)) hstep)
        (a := (r.engine.rng.shuffle sha256, .next)) hnext

lemma oneSeed_of_reachable {r : EngineRun} (hlen : 2 ≤ ids.length)
    (h : (engineRuns sha256 ids startingStack).Reachable r) : OneSeed ids startingStack r := by
  refine h.invariant (I := OneSeed ids startingStack) ?_ ?_
  · rintro _ ⟨seed, nonce, hasWallet, hasRepo, rfl⟩
    exact ⟨.of_init rfl, by simp, fun hne => absurd rfl hne⟩
  · rintro r event _ hi rfl
    exact hi.step hlen event

/-! ### One hand -/

/-- At most one hand has been dealt, and until it is settled nothing is published. -/
structure OneHand (r : EngineRun) : Prop where
  few : r.dealt.length ≤ 1
  fresh : r.engine.machine.state.phase = .waitBlinds → r.dealt = []
  secret : r.engine.machine.state.phase = .waitBlinds ∨ r.engine.machine.state.phase.Live →
    r.engine.inFlight = [] ∧ r.engine.published = []

/-- Every event but a second deal keeps to one hand. -/
theorem OneHand.step {r : EngineRun} {event : EngineEvent} (hlen : 2 ≤ ids.length)
    (hseated : Seated ids r.engine.machine.state) (h : OneHand r) (hok : ¬ DealsAgain r event) :
    OneHand (r.step sha256 event) := by
  cases event with
  | resume i ok =>
    have hmachine : (r.step sha256 (.resume i ok)).engine.machine = r.engine.machine :=
      GameEngine.resume_machine _ _ _
    refine ⟨h.few, fun hwait => h.fresh (hmachine ▸ hwait), fun hlive => ?_⟩
    rw [hmachine] at hlive
    obtain ⟨hnone, hpublished⟩ := h.secret hlive
    have hidle : (r.step sha256 (.resume i ok)).engine = r.engine := by
      simp [EngineRun.step, GameEngine.resume, hnone]
    rw [hidle]
    exact ⟨hnone, hpublished⟩
  | action a =>
    rcases r.engine.afterAction_cases sha256 hlen hseated a with
      hstay | ⟨m₁, hstep, _, hafter⟩ | ⟨m₁, hstep, hphase, hnext, hsettle, _⟩
    · have hsame : r.step sha256 (.action a) = r := by
        have hdealt : ¬ (r.engine.machine.state.phase.Waiting ∧
            r.engine.machine.state.phase = .deal) := by
          rintro ⟨hw, hdeal⟩
          rw [hdeal] at hw
          rcases hw with hw | hw <;> cases hw
        simp only [EngineRun.step, hstay, hdealt, if_false]
      rwa [hsame]
    · have hmachine : (r.step sha256 (.action a)).engine.machine = m₁ := by
        simp only [EngineRun.step, hafter]
      have hidle : r.engine.inFlight = [] ∧ r.engine.published = [] →
          (r.step sha256 (.action a)).engine.inFlight = [] ∧
            (r.step sha256 (.action a)).engine.published = [] := by
        simp only [EngineRun.step, hafter]
        exact fun hidle => hidle
      have hdealt : (r.step sha256 (.action a)).dealt =
          if r.engine.machine.state.phase.Waiting ∧ m₁.state.phase = .deal then
            r.dealt ++ [r.engine.rng.seed] else r.dealt := by
        simp only [EngineRun.step, hafter]
      rw [← hmachine] at hstep
      rcases hstep.phase_cases with ⟨hw, hsame⟩ | ⟨hw, hdeal, id, amount, p, rfl, hblind⟩ |
        ⟨hlive, hlive'⟩ | ⟨hs, hnext⟩
      · -- one more blind, or the first one
        have hkeep : (r.step sha256 (.action a)).dealt = r.dealt := by
          rw [hdealt, if_neg]
          rintro ⟨_, hdeal⟩
          rw [← hmachine, hsame] at hdeal
          rw [hdeal] at hw
          rcases hw with hw | hw <;> cases hw
        refine ⟨hkeep ▸ h.few, fun hwait => ?_, fun hlive => hidle (h.secret ?_)⟩
        · rw [hkeep]
          exact h.fresh (hsame ▸ hwait)
        · rwa [hsame] at hlive
      · -- the deal of the first hand
        have hwait : r.engine.machine.state.phase = .waitBlinds :=
          hw.resolve_right fun hagain => hok ⟨id, amount, p, rfl, hagain, hblind⟩
        have hone : (r.step sha256 (.action (.postBlind id amount))).dealt =
            [r.engine.rng.seed] := by
          rw [hdealt, if_pos ⟨hw, by rw [← hmachine]; exact hdeal⟩, h.fresh hwait, nil_append]
        refine ⟨by rw [hone]; rfl, fun hwait' => ?_, fun _ => hidle (h.secret (Or.inl hwait))⟩
        rw [hdeal] at hwait'
        cases hwait'
      · have hkeep : (r.step sha256 (.action a)).dealt = r.dealt := by
          rw [hdealt, if_neg]
          exact fun hboth => hlive.not_waiting hboth.1
        refine ⟨hkeep ▸ h.few, fun hwait => ?_, fun _ => hidle (h.secret (Or.inr hlive))⟩
        rcases hlive' with hlive' | hlive'
        · exact absurd hwait hlive'.ne_waitBlinds
        · rw [hlive'] at hwait
          cases hwait
      · have hkeep : (r.step sha256 (.action a)).dealt = r.dealt := by
          rw [hdealt, if_neg]
          rintro ⟨hw, _⟩
          rw [hs] at hw
          rcases hw with hw | hw <;> cases hw
        refine ⟨hkeep ▸ h.few, fun hwait => ?_, fun hlive => ?_⟩
        · rw [hnext] at hwait
          cases hwait
        · rw [hnext] at hlive
          rcases hlive with hlive | hlive | hlive | hlive <;> cases hlive
    · have hsettled : (r.step sha256 (.action a)).engine.machine.state.phase = .settle := hsettle
      have hkeep : (r.step sha256 (.action a)).dealt = r.dealt := by
        simp only [EngineRun.step, hsettle]
        simp
      refine ⟨hkeep ▸ h.few, fun hwait => ?_, fun hlive => ?_⟩
      · rw [hsettled] at hwait
        cases hwait
      · rw [hsettled] at hlive
        rcases hlive with hlive | hlive | hlive | hlive <;> cases hlive

lemma oneHand_of_reachable {r : EngineRun} (hlen : 2 ≤ ids.length)
    (h : ((engineRuns sha256 ids startingStack).restrict
      fun r event => ¬ DealsAgain r event).Reachable r) : OneHand r := by
  refine h.restrict_invariant (I := OneHand) ?_ ?_
  · rintro _ ⟨seed, nonce, hasWallet, hasRepo, rfl⟩
    refine ⟨by simp, fun _ => rfl, fun _ => ⟨rfl, ?_⟩⟩
    cases hasRepo <;> rfl
  · rintro r event _ hreach hi hok rfl
    exact hi.step hlen (seated_of_reachable hlen (oneSeed_of_reachable hlen hreach).machine) hok

end Run

/-- In the runs of an engine that deal no second hand, the seed of a hand that is not settled is
not published and no seed is dealt from twice; the deal of a second hand always repeats the seed of
the first. -/
theorem commit_reveal {sha256 : List UInt8 → List UInt8} {ids : List PlayerId}
    {startingStack : ℕ} (hlen : 2 ≤ ids.length) :
    (∀ r, ((engineRuns sha256 ids startingStack).restrict
        fun r event => ¬ DealsAgain r event).Reachable r →
      (r.engine.machine.state.phase.Live →
        bytesToHex r.engine.rng.seed ∉ r.engine.published) ∧ r.dealt.Nodup) ∧
    ∀ r event, (engineRuns sha256 ids startingStack).Reachable r → DealsAgain r event →
      ¬ (r.step sha256 event).dealt.Nodup := by
  constructor
  · intro r h
    have hone := oneHand_of_reachable hlen h
    refine ⟨fun hlive => ?_, ?_⟩
    · rw [(hone.secret (Or.inr hlive)).2]
      exact not_mem_nil
    · rcases Nat.le_one_iff_eq_zero_or_eq_one.mp hone.few with hzero | hone
      · rw [length_eq_zero_iff.mp hzero]
        exact nodup_nil
      · obtain ⟨seed, hseed⟩ := length_eq_one_iff.mp hone
        rw [hseed]
        exact nodup_singleton seed
  · rintro r _ hreach ⟨id, amount, p, rfl, hphase, hp, hpos, hle, hall⟩ hnodup
    have hseed := oneSeed_of_reachable hlen hreach
    have hafter := GameEngine.afterAction_of_step hlen (seated_of_reachable hlen hseed.machine)
      (Step.lastBlind id amount p (Or.inr hphase) hp hpos hle hall :
        Step (r.engine.rng.shuffle sha256) _ _ _) (by simp [startHand])
    have hdealt : (r.step sha256 (.action (.postBlind id amount))).dealt =
        r.dealt ++ [r.engine.rng.seed] := by
      simp [EngineRun.step, hafter, HandPhase.Waiting, hphase, startHand]
    obtain ⟨seed, hmem⟩ := exists_mem_of_ne_nil _ (hseed.first (by simp [hphase]))
    rw [hdealt] at hnodup
    refine (nodup_append'.mp hnodup).2.2 hmem ?_
    rw [hseed.dealt seed hmem]
    exact mem_singleton_self _

/-! ### A second hand -/

/-- An engine without wallet and table of hands. -/
def zeroSeedRun : EngineRun :=
  { engine := .create ["p1", "p2"] 100 zeroRng false false }

/-- A run through some calls. -/
def playEvents (sha256 : List UInt8 → List UInt8) (r : EngineRun) (events : List EngineEvent) :
    EngineRun :=
  events.foldl (EngineRun.step sha256) r

lemma reachable_playEvents {sha256 : List UInt8 → List UInt8} {ids : List PlayerId}
    {startingStack : ℕ} {r : EngineRun} (h : (engineRuns sha256 ids startingStack).Reachable r)
    (events : List EngineEvent) :
    (engineRuns sha256 ids startingStack).Reachable (playEvents sha256 r events) := by
  induction events generalizing r with
  | nil => exact h
  | cons event events ih => exact ih (h.tail (a := event) rfl)

lemma reachable_zeroSeedRun : (engineRuns zeroSeedHash ["p1", "p2"] 100).Reachable zeroSeedRun :=
  .of_init ⟨zeroSeed, zeroNonce, false, false, rfl⟩

/-- A hand that ends by a fold. -/
def foldedHand : EngineRun :=
  playEvents zeroSeedHash zeroSeedRun
    [.action (.postBlind "p1" 1), .action (.postBlind "p2" 2), .action .next, .action (.fold "p1")]

lemma reachable_foldedHand : (engineRuns zeroSeedHash ["p1", "p2"] 100).Reachable foldedHand :=
  reachable_playEvents reachable_zeroSeedRun _

/-- One blind. -/
theorem commit_reveal_blind :
    (zeroSeedRun.step zeroSeedHash (.action (.postBlind "p1" 1))).dealt.Nodup :=
  ((commit_reveal (by decide)).1 _
    (Reachable.tail (a := .action (.postBlind "p1" 1))
      (.of_init ⟨zeroSeed, zeroNonce, false, false, rfl⟩)
      ⟨(by
        rintro ⟨_, _, _, _, hphase, _⟩
        cases hphase), rfl⟩)).2

/-- The hand after one that ended by a fold. -/
def secondHand : EngineRun :=
  playEvents zeroSeedHash zeroSeedRun
    [.action (.postBlind "p1" 1), .action (.postBlind "p2" 2), .action .next, .action (.fold "p1"),
      .action .next, .action (.postBlind "p1" 1), .action (.postBlind "p2" 2)]

/-- After a hand that ends by a fold, the next one is dealt from the published seed. -/
theorem second_hand_from_published_seed :
    ¬ ∀ (sha256 : List UInt8 → List UInt8) (ids : List PlayerId) (startingStack : ℕ)
      (r : EngineRun), 2 ≤ ids.length → (engineRuns sha256 ids startingStack).Reachable r →
      (r.engine.machine.state.phase.Live →
        bytesToHex r.engine.rng.seed ∉ r.engine.published) ∧ r.dealt.Nodup := by
  intro h
  have hdealt : secondHand.engine.machine.state.phase = .deal ∧
      bytesToHex secondHand.engine.rng.seed ∈ secondHand.engine.published := by
    rw [secondHand, zeroSeedRun, zeroRng, zeroSeedHash_eq]
    decide +kernel
  have hsecret := h zeroSeedHash ["p1", "p2"] 100 secondHand (by decide)
    (reachable_playEvents reachable_zeroSeedRun _)
  exact hsecret.1 (Or.inl hdealt.1) hdealt.2

end Pokerhub
