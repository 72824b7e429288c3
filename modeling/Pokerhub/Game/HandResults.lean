import Pokerhub.Game.Chips
import Pokerhub.Game.CommitReveal

/-!
# The results of the hands

An engine without a wallet plays hand after hand, and the settlement of each records one entry for
every player. The entries are taken from the stacks that the engine was built with, so they are the
result of the hand as long as everybody began it with that stack (`hand_results`).
-/

namespace Pokerhub

open GameStateInternal GameEngine HandStateMachine TransitionSystem List

/-! ### Hands of a run -/

/-- The stack of each player. -/
def GameStateInternal.playerStacks (s : GameStateInternal) : List (PlayerId × ℤ) :=
  s.players.map fun p => (p.id, p.stack)

/-- A hand that was played to its settlement. -/
structure HandResult where
  start : List (PlayerId × ℤ)
  finish : List (PlayerId × ℤ)
  /-- What the settlement has recorded, if it is past that point. -/
  recorded : Option (List SettlementEntry) := none

/-- What each player won or lost. -/
def HandResult.deltas (hand : HandResult) : List SettlementEntry :=
  zipWith (fun s f => ⟨f.1, f.2 - s.2⟩) hand.start hand.finish

/-- An engine with the stacks at the start of its hand and the hands before it. -/
structure HandsRun where
  engine : GameEngine
  start : List (PlayerId × ℤ)
  hands : List HandResult := []
  /-- The hands of the waiting settlements, as in `inFlight`. -/
  waiting : List ℕ := []

/-- The call plays the hand to its settlement. -/
def Ends (sha256 : List UInt8 → List UInt8) (e : GameEngine) (a : GameAction) : Prop :=
  e.machine.state.phase ≠ .settle ∧ (e.afterAction sha256 a).machine.state.phase = .settle

instance (sha256 : List UInt8 → List UInt8) (e : GameEngine) (a : GameAction) :
    Decidable (Ends sha256 e a) :=
  inferInstanceAs (Decidable (_ ∧ _))

namespace HandsRun

/-- What an engine has recorded since it was `e`. -/
def recordedSince (e e' : GameEngine) : List SettlementEntry :=
  e'.settlement.drop e.settlement.length

def step (sha256 : List UInt8 → List UInt8) (r : HandsRun) : EngineEvent → HandsRun
  | .action a =>
    let e := r.engine.afterAction sha256 a
    if Ends sha256 r.engine a then
      { engine := e
        start := r.start
        hands := r.hands ++
          [{ start := r.start
             finish := e.machine.state.playerStacks
             recorded := if e.hasRepo then none else some (recordedSince r.engine e) }]
        waiting := if e.hasRepo then r.waiting ++ [r.hands.length] else r.waiting }
    else if r.engine.machine.state.phase = .settle ∧ e.machine.state.phase = .nextHand then
      { r with engine := e, start := e.machine.state.playerStacks }
    else { r with engine := e }
  | .resume i ok =>
    let e := r.engine.resume sha256 i ok
    match r.waiting[i]? with
    | none => { r with engine := e }
    | some k =>
      { r with
        engine := e
        hands := r.hands.modify k fun hand =>
          if ok then { hand with recorded := some (recordedSince r.engine e) } else hand
        waiting := r.waiting.eraseIdx i }

end HandsRun

/-- The runs of an engine without a wallet. -/
def handsRuns (sha256 : List UInt8 → List UInt8) (ids : List PlayerId) (startingStack : ℕ) :
    TransitionSystem HandsRun EngineEvent where
  init r := ∃ seed nonce hasRepo,
    r =
      { engine := .create ids startingStack (.create sha256 seed nonce) false hasRepo
        start := (HandStateMachine.initial ids startingStack).state.playerStacks }
  step r event r' := r' = r.step sha256 event

/-- The event loses no chips, and a hand whose entries it records was begun with the initial stacks
and has its last stacks on the table. -/
def FromInitial (sha256 : List UInt8 → List UInt8) (r : HandsRun) : EngineEvent → Prop
  | .action a =>
    ¬ Orphans r.engine.machine a ∧
      (Ends sha256 r.engine a → r.engine.hasRepo = false → r.start = r.engine.initialStacks)
  | .resume i ok =>
    ∀ k hand, ok = true → r.waiting[i]? = some k → r.hands[k]? = some hand →
      hand.start = r.engine.initialStacks ∧ hand.finish = r.engine.machine.state.playerStacks ∧
        (r.engine.handRow.map (·.settled)).getD false = false

/-! ### What a settlement records -/

section Record

variable {sha256 : List UInt8 → List UInt8}

lemma lookup_const {ids : List PlayerId} {id : PlayerId} (h : id ∈ ids) (c : ℤ) :
    (ids.map fun id => (id, c)).lookup id = some c := by
  induction ids with
  | nil => cases h
  | cons x ids ih =>
    rw [map_cons, lookup_cons]
    cases hx : id == x with
    | true => rfl
    | false => exact ih ((mem_cons.mp h).resolve_left (by simpa using hx))

/-- The recorded entries are the changes since the stacks of the beginning. -/
lemma recordDeltas_eq {ids : List PlayerId} {s : GameStateInternal}
    (hids : s.players.map (·.id) = ids) (c : ℤ) :
    recordDeltas s (ids.map fun id => (id, c)) =
      zipWith (fun s f => ⟨f.1, f.2 - s.2⟩) (ids.map fun id => (id, c)) s.playerStacks := by
  have hlookup : recordDeltas s (ids.map fun id => (id, c)) =
      s.players.map fun p => ⟨p.id, p.stack - c⟩ := by
    refine map_congr_left fun p hp => ?_
    rw [lookup_const (hids ▸ mem_map_of_mem hp)]
    rfl
  rw [hlookup, ← hids, playerStacks, map_map, zipWith_map_left, zipWith_map_right, zipWith_self]
  rfl

/-- From other stacks of the same players the changes are different. -/
lemma zipWith_sub_injective {xs ys zs : List (PlayerId × ℤ)} (hxs : xs.map (·.1) = zs.map (·.1))
    (hys : ys.map (·.1) = zs.map (·.1))
    (h : zipWith (fun s f => (⟨f.1, f.2 - s.2⟩ : SettlementEntry)) xs zs =
      zipWith (fun s f => ⟨f.1, f.2 - s.2⟩) ys zs) : xs = ys := by
  induction xs generalizing ys zs with
  | nil =>
    rw [map_nil, eq_comm, map_eq_nil_iff] at hxs
    rw [hxs, map_nil, map_eq_nil_iff] at hys
    exact hys.symm
  | cons x xs ih =>
    cases zs with
    | nil => cases hxs
    | cons z zs =>
      cases ys with
      | nil => cases hys
      | cons y ys =>
        rw [map_cons, map_cons, cons.injEq] at hxs hys
        rw [zipWith_cons_cons, zipWith_cons_cons, cons.injEq, SettlementEntry.mk.injEq] at h
        rw [ih hxs.2 hys.2 h.2]
        have hfirst : x = y := Prod.ext (hxs.1.trans hys.1.symm) (by omega)
        rw [hfirst]

/-- The changes add up to the change of the sum. -/
lemma sum_zipWith_sub {xs ys : List (PlayerId × ℤ)} (h : xs.length = ys.length) :
    ((zipWith (fun s f => (⟨f.1, f.2 - s.2⟩ : SettlementEntry)) xs ys).map (·.delta)).sum =
      (ys.map (·.2)).sum - (xs.map (·.2)).sum := by
  induction xs generalizing ys with
  | nil =>
    obtain rfl := length_eq_zero_iff.mp h.symm
    rfl
  | cons x xs ih =>
    cases ys with
    | nil => cases h
    | cons y ys =>
      have hrest := ih (Nat.succ.inj h)
      simp only [zipWith_cons_cons, map_cons, sum_cons]
      omega

end Record

/-! ### When a settlement records -/

section Settle

variable {sha256 : List UInt8 → List UInt8} {e : GameEngine}

/-- What no event changes of an engine. -/
structure SameTerms (e e' : GameEngine) : Prop where
  wallet : e'.hasWallet = e.hasWallet
  repo : e'.hasRepo = e.hasRepo
  initial : e'.initialStacks = e.initialStacks

lemma SameTerms.refl (e : GameEngine) : SameTerms e e :=
  ⟨rfl, rfl, rfl⟩

lemma sameTerms_settleEntries (e : GameEngine) : SameTerms e (e.settleEntries sha256) := by
  unfold settleEntries
  dsimp only
  split_ifs <;> exact ⟨rfl, rfl, rfl⟩

lemma sameTerms_settle (e : GameEngine) : SameTerms e (e.settle sha256) := by
  unfold settle
  dsimp only
  split_ifs
  · exact .refl e
  · exact ⟨rfl, rfl, rfl⟩
  · obtain ⟨hwallet, hrepo, hinitial⟩ := @sameTerms_settleEntries sha256
      { e with machine := { e.machine with state := e.machine.state.settlePots } }
    exact ⟨hwallet, hrepo, hinitial⟩

lemma sameTerms_afterPlay (a : GameAction) (preState : GameStateInternal) (e : GameEngine) :
    SameTerms e (afterPlay sha256 a preState e) := by
  unfold afterPlay
  dsimp only
  split_ifs
  · obtain ⟨hwallet, hrepo, hinitial⟩ := @sameTerms_settle sha256
      { e with
        machine := { e.machine with state := { e.machine.state.settlePots with phase := .settle } } }
    exact ⟨hwallet, hrepo, hinitial⟩
  · exact ⟨rfl, rfl, rfl⟩

lemma sameTerms_afterAction (e : GameEngine) (a : GameAction) :
    SameTerms e (e.afterAction sha256 a) := by
  rcases @afterAction_spec sha256 e a with ⟨hstay, -⟩ | ⟨m, -, -, hplay⟩
  · rw [hstay]
    exact .refl e
  · rw [hplay]
    obtain ⟨hwallet, hrepo, hinitial⟩ := @sameTerms_afterPlay sha256 a e.machine.state
      { e with machine := { m with state := force m.state } }
    exact ⟨hwallet, hrepo, hinitial⟩

lemma sameTerms_resume (e : GameEngine) (i : ℕ) (ok : Bool) :
    SameTerms e (e.resume sha256 i ok) := by
  unfold resume
  dsimp only
  split
  · exact .refl e
  · rename_i stage _
    cases stage with
    | findOne =>
      split_ifs
      · exact ⟨rfl, rfl, rfl⟩
      · obtain ⟨hwallet, hrepo, hinitial⟩ := @sameTerms_settleEntries sha256
          { e with inFlight := e.inFlight.eraseIdx i }
        exact ⟨hwallet, hrepo, hinitial⟩
      · exact ⟨rfl, rfl, rfl⟩
    | wallet => split_ifs <;> exact ⟨rfl, rfl, rfl⟩

/-- Without a wallet the entries are recorded and the proof is published. -/
lemma settleEntries_record (hwallet : e.hasWallet = false) :
    (e.settleEntries sha256).settlement =
        e.settlement ++ recordDeltas e.machine.state e.initialStacks ∧
      (e.settleEntries sha256).inFlight = e.inFlight := by
  unfold settleEntries
  dsimp only
  rw [if_neg (by simp [hwallet])]
  exact ⟨rfl, rfl⟩

/-- A settlement waits for the table of hands, or records its entries at once. -/
lemma settle_record (hwallet : e.hasWallet = false)
    (hactive : 1 ≤ e.machine.state.activePlayers.length) :
    (e.settle sha256).settlement = e.settlement ++
        (if e.hasRepo then [] else recordDeltas e.machine.state.settlePots e.initialStacks) ∧
      (e.settle sha256).inFlight = e.inFlight ++ if e.hasRepo then [.findOne] else [] := by
  unfold settle
  dsimp only
  rw [if_neg (by omega)]
  split_ifs
  · exact ⟨(append_nil _).symm, rfl⟩
  · obtain ⟨hsettlement, hflight⟩ := @settleEntries_record sha256
      { e with machine := { e.machine with state := e.machine.state.settlePots } } hwallet
    exact ⟨hsettlement, hflight.trans (append_nil _).symm⟩

/-- A rule leads to a settled hand from the showdown only. -/
lemma Step.showdown_of_settle {shuffle : Shuffle} {a : GameAction} {m m' : HandStateMachine}
    (h : Step shuffle m a m') (hphase : m'.state.phase = .settle) : m.state.phase = .showdown := by
  have hopen : ∀ {s : GameStateInternal}, s.phase = .bettingRound → s.closeIfAlone.phase ≠ .settle := by
    intro s hs
    rw [closeIfAlone_phase, hs]
    split <;> simp
  cases h with
  | postBlind id amount p hwait =>
    have hsame : m.state.phase = .settle := hphase
    rcases hwait with hwait | hwait <;> simp [hwait] at hsame
  | lastBlind => cases hphase
  | deal => cases hphase
  | chips id amount p hbet => exact absurd hphase (hopen hbet)
  | check id hbet => exact absurd hphase (hopen hbet)
  | fold id p hbet => exact absurd hphase (hopen hbet)
  | next =>
    rcases closeStreet_phase_eq m.state with hc | hc <;> simp [hc] at hphase
  | showdown hshow => exact hshow
  | settle => cases hphase

lemma Step.nextHand_of_settle {shuffle : Shuffle} {a : GameAction} {m m' : HandStateMachine}
    (h : Step shuffle m a m') (hphase : m.state.phase = .settle) : m'.state.phase = .nextHand := by
  rcases h.phase_cases with ⟨hw, -⟩ | ⟨hw, -⟩ | ⟨hlive, -⟩ | ⟨-, hnext⟩
  · rcases hw with hw | hw <;> simp [hw] at hphase
  · rcases hw with hw | hw <;> simp [hw] at hphase
  · rcases hlive with hl | hl | hl <;> simp [hl] at hphase
  · exact hnext

/-- A call that ends a hand records the changes of the stacks, or waits for the table of hands. -/
structure Recorded (sha256 : List UInt8 → List UInt8) (e e' : GameEngine) : Prop where
  settlement : e'.settlement = e.settlement ++
    if e.hasRepo then [] else recordDeltas e'.machine.state e.initialStacks
  inFlight : e'.inFlight = e.inFlight ++ if e.hasRepo then [.findOne] else []

/-- A call that does not end a hand records nothing. -/
lemma afterAction_record {ids : List PlayerId} (hlen : 2 ≤ ids.length)
    (hseated : Seated ids e.machine.state) (hwallet : e.hasWallet = false)
    (hrest : e.machine.state.phase ≠ .showdown) (a : GameAction) :
    (Ends sha256 e a ∧ Recorded sha256 e (e.afterAction sha256 a)) ∨
      (¬ Ends sha256 e a ∧ (e.afterAction sha256 a).settlement = e.settlement ∧
        (e.afterAction sha256 a).inFlight = e.inFlight) := by
  rcases @afterAction_spec sha256 e a with ⟨hstay, -⟩ | ⟨m, hstep, -, hplay⟩
  · right
    rw [hstay]
    exact ⟨fun hends => hends.1 (hstay ▸ hends.2), rfl, rfl⟩
  · have hmachine : (e.afterAction sha256 a).machine = conclude m := by
      rw [hplay, afterPlay_machine]
    have hseated' := hseated.step hlen hstep
    have hforce : force m.state = m.state := by rw [force, if_neg (not_forced hseated')]
    rw [Ends, hmachine]
    by_cases hshow : m.state.phase = .showdown
    · left
      have hne : e.machine.state.phase ≠ .settle := fun hsettle => by
        rw [hstep.nextHand_of_settle hsettle] at hshow
        cases hshow
      have hsettle : (conclude m).state.phase = .settle := by
        rw [conclude, hforce, if_pos hshow]
      have hactive : 1 ≤ m.state.settlePots.activePlayers.length := by
        have hmin := hseated'.active
        rw [hshow] at hmin
        rw [length_activePlayers_eq, roster_settlePots, ← length_activePlayers_eq]
        exact hmin
      refine ⟨⟨hne, hsettle⟩, ?_⟩
      obtain ⟨hsettlement, hflight⟩ := @settle_record sha256
        { e with
          machine := { m with state := { m.state.settlePots with phase := .settle } } }
        hwallet hactive
      have hpaid : ({ m.state.settlePots with phase := .settle } : GameStateInternal).settlePots =
          (conclude m).state := by
        rw [settlePots_phase, settlePots_settlePots, conclude, hforce, if_pos hshow]
      dsimp only at hsettlement hflight
      rw [hpaid] at hsettlement
      constructor
      · rw [hmachine, hplay, afterPlay, hforce]
        dsimp only
        rw [if_pos hshow]
        exact hsettlement
      · rw [hplay, afterPlay, hforce]
        dsimp only
        rw [if_pos hshow]
        exact hflight
    · right
      have hkeep : (conclude m).state = m.state := by rw [conclude, hforce, if_neg hshow]
      refine ⟨fun hends => hrest (hstep.showdown_of_settle (hkeep ▸ hends.2)), ?_⟩
      rw [hplay, afterPlay, hforce]
      dsimp only
      rw [if_neg hshow]
      exact ⟨rfl, rfl⟩

/-- A settlement that was waiting for the table of hands records its entries, unless the hand is
settled there. -/
lemma resume_record (hwallet : e.hasWallet = false) (hflight : ∀ stage ∈ e.inFlight, stage = .findOne)
    (i : ℕ) (ok : Bool) :
    (e.resume sha256 i ok).settlement = e.settlement ++
        (if i < e.inFlight.length ∧ ok = true ∧ (e.handRow.map (·.settled)).getD false = false then
          recordDeltas e.machine.state e.initialStacks else []) ∧
      (e.resume sha256 i ok).inFlight = e.inFlight.eraseIdx i := by
  unfold resume
  dsimp only
  rcases hstage : e.inFlight[i]? with _ | stage
  · have hout : e.inFlight.length ≤ i := List.getElem?_eq_none_iff.mp hstage
    simp [not_lt.mpr hout, eraseIdx_of_length_le hout]
  · have hin : i < e.inFlight.length := (List.getElem?_eq_some_iff.mp hstage).1
    obtain rfl := hflight stage (mem_of_getElem? hstage)
    have hrecord := @settleEntries_record sha256 { e with inFlight := e.inFlight.eraseIdx i } hwallet
    cases ok with
    | false => simp
    | true =>
      cases hrow : (e.handRow.map (·.settled)).getD false with
      | true => simp
      | false => simpa [hin] using hrecord

end Settle

/-! ### Over whole runs -/

section Run

variable {sha256 : List UInt8 → List UInt8} {ids : List PlayerId} {startingStack : ℕ}

/-- A run has one table of players, who all began with the same stack. -/
structure HandsKept (ids : List PlayerId) (startingStack : ℕ) (r : HandsRun) : Prop where
  wallet : r.engine.hasWallet = false
  initial : r.engine.initialStacks = ids.map fun id => (id, (startingStack : ℤ))
  machine : (machineSteps ids startingStack).Reachable r.engine.machine
  resting : r.engine.machine.state.phase ≠ .showdown
  start : r.start.map (·.1) = ids
  inFlight : ∀ stage ∈ r.engine.inFlight, stage = .findOne
  waiting : r.waiting.length = r.engine.inFlight.length

lemma HandsKept.seated {r : HandsRun} (hlen : 2 ≤ ids.length) (h : HandsKept ids startingStack r) :
    Seated ids r.engine.machine.state :=
  seated_of_reachable hlen h.machine

lemma HandsKept.players {r : HandsRun} (hlen : 2 ≤ ids.length) (h : HandsKept ids startingStack r) :
    r.engine.machine.state.players.map (·.id) = ids := by
  rw [map_id_eq, (h.seated hlen).ids]

lemma playerStacks_ids (s : GameStateInternal) :
    s.playerStacks.map (·.1) = s.players.map (·.id) := by
  simp [playerStacks]

/-- The machine of an engine follows the rules. -/
lemma reachable_afterAction {ok : HandStateMachine → Shuffle × GameAction → Prop} {e : GameEngine}
    (hlen : 2 ≤ ids.length)
    (h : ((machineSteps ids startingStack).restrict ok).Reachable e.machine) {a : GameAction}
    (hok : ok e.machine (e.rng.shuffle sha256, a))
    (hnext : ∀ m shuffle, m.state.phase = .showdown → ok m (shuffle, .next)) :
    ((machineSteps ids startingStack).restrict ok).Reachable (e.afterAction sha256 a).machine := by
  rcases e.afterAction_cases sha256 hlen (seated_of_reachable hlen h.of_restrict) a with
    hstay | ⟨m₁, hstep, -, hafter⟩ | ⟨m₁, hstep, hphase, hshow, -⟩
  · rwa [hstay]
  · rw [hafter]
    exact h.tail (a := (e.rng.shuffle sha256, a)) ⟨hok, hstep⟩
  · exact Reachable.tail (h.tail (a := (e.rng.shuffle sha256, a)) ⟨hok, hstep⟩)
      (a := (e.rng.shuffle sha256, .next)) ⟨hnext m₁ _ hphase, hshow⟩

lemma afterAction_phase_ne {e : GameEngine} (h : e.machine.state.phase ≠ .showdown)
    (a : GameAction) : (e.afterAction sha256 a).machine.state.phase ≠ .showdown := by
  rcases @afterAction_machine sha256 e a with hstay | ⟨m, -, hmachine⟩
  · rwa [hstay]
  · rw [hmachine]
    exact conclude_phase_ne m

lemma HandsKept.init {r : HandsRun} (h : (handsRuns sha256 ids startingStack).init r) :
    HandsKept ids startingStack r := by
  obtain ⟨seed, nonce, hasRepo, rfl⟩ := h
  refine ⟨rfl, rfl, .of_init rfl, nofun, ?_, forall_mem_nil _, rfl⟩
  simp [playerStacks, HandStateMachine.initial, Function.comp_def]

theorem HandsKept.step {r : HandsRun} (hlen : 2 ≤ ids.length) (h : HandsKept ids startingStack r)
    (event : EngineEvent) : HandsKept ids startingStack (r.step sha256 event) := by
  cases event with
  | action a =>
    obtain ⟨hwallet, hrepo, hinitial⟩ := @sameTerms_afterAction sha256 r.engine a
    have hmachine : (machineSteps ids startingStack).Reachable
        (r.engine.afterAction sha256 a).machine := by
      have hall : ((machineSteps ids startingStack).restrict fun _ _ => True).Reachable
          r.engine.machine := h.machine.restrict_true fun _ _ => trivial
      exact (reachable_afterAction hlen hall trivial fun _ _ _ => trivial).of_restrict
    have hrest := @afterAction_phase_ne sha256 _ h.resting a
    rcases @afterAction_record sha256 _ _ hlen (h.seated hlen) h.wallet h.resting a with
      ⟨hends, -, hflight⟩ | ⟨hends, -, hflight⟩
    · refine ⟨?_, ?_, ?_, ?_, ?_, ?_, ?_⟩ <;> simp only [HandsRun.step, if_pos hends]
      · exact hwallet.trans h.wallet
      · exact hinitial.trans h.initial
      · exact hmachine
      · exact hrest
      · exact h.start
      · rw [hflight]
        intro stage hstage
        rcases mem_append.mp hstage with hstage | hstage
        · exact h.inFlight stage hstage
        · split_ifs at hstage
          · exact mem_singleton.mp hstage
          · cases hstage
      · rw [hflight, hrepo]
        split_ifs <;> simp [h.waiting]
    · have hids : (r.engine.afterAction sha256 a).machine.state.playerStacks.map (·.1) = ids := by
        rw [playerStacks_ids, afterAction_map_id, h.players hlen]
      simp only [HandsRun.step, if_neg hends]
      split_ifs
      · exact ⟨hwallet.trans h.wallet, hinitial.trans h.initial, hmachine, hrest, hids,
          hflight ▸ h.inFlight, by rw [h.waiting]; exact congrArg length hflight.symm⟩
      · exact ⟨hwallet.trans h.wallet, hinitial.trans h.initial, hmachine, hrest, h.start,
          hflight ▸ h.inFlight, by rw [h.waiting]; exact congrArg length hflight.symm⟩
  | resume i ok =>
    obtain ⟨hwallet, hrepo, hinitial⟩ := @sameTerms_resume sha256 r.engine i ok
    obtain ⟨-, hflight⟩ := @resume_record sha256 _ h.wallet h.inFlight i ok
    have hmachine := @resume_machine sha256 r.engine i ok
    have hstages : ∀ stage ∈ (r.engine.resume sha256 i ok).inFlight, stage = .findOne := by
      intro stage hstage
      rw [hflight] at hstage
      exact h.inFlight stage (mem_of_mem_eraseIdx hstage)
    have hwaiting : (r.waiting.eraseIdx i).length =
        (r.engine.resume sha256 i ok).inFlight.length := by
      rw [hflight, length_eraseIdx, length_eraseIdx, h.waiting]
    simp only [HandsRun.step]
    split
    · rename_i hnone
      have hout : r.waiting.length ≤ i := List.getElem?_eq_none_iff.mp hnone
      rw [eraseIdx_of_length_le hout] at hwaiting
      exact ⟨hwallet.trans h.wallet, hinitial.trans h.initial, hmachine ▸ h.machine,
        hmachine ▸ h.resting, h.start, hstages, hwaiting⟩
    · exact ⟨hwallet.trans h.wallet, hinitial.trans h.initial, hmachine ▸ h.machine,
        hmachine ▸ h.resting, h.start, hstages, hwaiting⟩

lemma handsKept_of_reachable {r : HandsRun} (hlen : 2 ≤ ids.length)
    (h : (handsRuns sha256 ids startingStack).Reachable r) : HandsKept ids startingStack r :=
  h.invariant (I := HandsKept ids startingStack) (fun _ hinit => .init hinit)
    (by
      rintro r event _ hi rfl
      exact hi.step hlen event)

/-- What a settlement of a hand recorded is the result of the hand. -/
structure Right (hand : HandResult) (entries : List SettlementEntry) : Prop where
  deltas : entries = hand.deltas
  sum : (entries.map (·.delta)).sum = 0

/-- The hands of a run in which nothing was carried over and no chip was lost. -/
structure FairHands (ids : List PlayerId) (startingStack : ℕ) (r : HandsRun) : Prop where
  machine : ((machineSteps ids startingStack).restrict fun m l => ¬ Orphans m l.2).Reachable
    r.engine.machine
  finish : ∀ hand ∈ r.hands, (hand.finish.map (·.2)).sum = ids.length * startingStack
  right : ∀ hand ∈ r.hands, ∀ entries ∈ hand.recorded, Right hand entries

/-- The changes from the initial stacks, when the chips are all there. -/
lemma right_of_initial {s : GameStateInternal} (hids : s.players.map (·.id) = ids)
    (hsum : (s.playerStacks.map (·.2)).sum = ids.length * startingStack)
    {hand : HandResult} (hstart : hand.start = ids.map fun id => (id, (startingStack : ℤ)))
    (hfinish : hand.finish = s.playerStacks) :
    Right hand (recordDeltas s (ids.map fun id => (id, (startingStack : ℤ)))) := by
  have hdeltas : recordDeltas s (ids.map fun id => (id, (startingStack : ℤ))) = hand.deltas := by
    rw [HandResult.deltas, hstart, hfinish, recordDeltas_eq hids]
  refine ⟨hdeltas, ?_⟩
  have hlength : hand.start.length = hand.finish.length := by
    rw [hstart, hfinish, ← hids]
    simp [playerStacks]
  rw [hdeltas, HandResult.deltas, sum_zipWith_sub hlength, hfinish, hsum, hstart]
  simp [Function.comp_def]

/-- The stacks of a settled hand hold all the chips. -/
lemma sum_playerStacks {m : HandStateMachine} (hlen : 2 ≤ ids.length)
    (h : ((machineSteps ids startingStack).restrict fun m l => ¬ Orphans m l.2).Reachable m)
    (hphase : m.state.phase = .settle) :
    (m.state.playerStacks.map (·.2)).sum = ids.length * startingStack := by
  have htotal := (chips_of_reachable hlen h).total
  rw [totalChips, (accounts_of_reachable hlen h.of_restrict).pot_eq_zero hphase, zero_add] at htotal
  rw [← htotal, playerStacks, map_map]
  rfl

lemma mem_modify {α : Type*} {l : List α} {f : α → α} {k : ℕ} {x : α} (h : x ∈ l.modify k f) :
    x ∈ l ∨ ∃ y, l[k]? = some y ∧ x = f y := by
  obtain ⟨n, hn⟩ := mem_iff_getElem?.mp h
  rw [getElem?_modify] at hn
  rcases hy : l[n]? with _ | y
  · rw [hy] at hn
    split_ifs at hn <;> cases hn
  · rw [hy] at hn
    split_ifs at hn with hk
    · obtain rfl := Option.some.inj hn
      exact Or.inr ⟨y, hk ▸ hy, rfl⟩
    · obtain rfl := Option.some.inj hn
      exact Or.inl (mem_of_getElem? hy)

theorem FairHands.step {r : HandsRun} (hlen : 2 ≤ ids.length) (hkept : HandsKept ids startingStack r)
    (h : FairHands ids startingStack r) {event : EngineEvent} (hok : FromInitial sha256 r event) :
    FairHands ids startingStack (r.step sha256 event) := by
  cases event with
  | action a =>
    obtain ⟨horphans, hinitial⟩ := hok
    have hterms := @sameTerms_afterAction sha256 r.engine a
    have hmachine : ((machineSteps ids startingStack).restrict fun m l => ¬ Orphans m l.2).Reachable
        (r.engine.afterAction sha256 a).machine :=
      reachable_afterAction hlen h.machine horphans
        (by
          rintro m shuffle - ⟨id, ha, -⟩
          cases ha)
    rcases @afterAction_record sha256 _ _ hlen (hkept.seated hlen) hkept.wallet hkept.resting a with
      ⟨hends, hsettlement, -⟩ | ⟨hends, -, -⟩
    · have hids : (r.engine.afterAction sha256 a).machine.state.players.map (·.id) = ids := by
        rw [afterAction_map_id, hkept.players hlen]
      have hsum := sum_playerStacks hlen hmachine hends.2
      refine ⟨?_, ?_, ?_⟩ <;> simp only [HandsRun.step, if_pos hends]
      · exact hmachine
      · intro hand hhand
        rcases mem_append.mp hhand with hhand | hhand
        · exact h.finish hand hhand
        · obtain rfl := mem_singleton.mp hhand
          exact hsum
      · intro hand hhand entries hentries
        rcases mem_append.mp hhand with hhand | hhand
        · exact h.right hand hhand entries hentries
        · obtain rfl := mem_singleton.mp hhand
          dsimp only at hentries
          rw [hterms.repo] at hentries
          cases hrepo : r.engine.hasRepo with
          | true =>
            rw [hrepo, if_pos rfl] at hentries
            cases hentries
          | false =>
            rw [hrepo, if_neg Bool.false_ne_true] at hentries hsettlement
            obtain rfl := Option.mem_some_iff.mp hentries
            rw [HandsRun.recordedSince, hsettlement, drop_left, hkept.initial]
            exact right_of_initial hids hsum ((hinitial hends hrepo).trans hkept.initial) rfl
    · simp only [HandsRun.step, if_neg hends]
      split_ifs
      · exact ⟨hmachine, h.finish, h.right⟩
      · exact ⟨hmachine, h.finish, h.right⟩
  | resume i ok =>
    obtain ⟨hsettlement, -⟩ := @resume_record sha256 _ hkept.wallet hkept.inFlight i ok
    have hmachine := @resume_machine sha256 r.engine i ok
    simp only [HandsRun.step]
    split
    · exact ⟨hmachine ▸ h.machine, h.finish, h.right⟩
    · rename_i k hk
      refine ⟨hmachine ▸ h.machine, fun hand hhand => ?_, fun hand hhand entries hentries => ?_⟩
      · rcases mem_modify hhand with hhand | ⟨hand, hold, rfl⟩
        · exact h.finish hand hhand
        · split_ifs <;> exact h.finish hand (mem_of_getElem? hold)
      · rcases mem_modify hhand with hhand | ⟨hand, hold, rfl⟩
        · exact h.right hand hhand entries hentries
        · cases ok with
          | false => exact h.right hand (mem_of_getElem? hold) entries hentries
          | true =>
            obtain ⟨hstart, hfinish, hrow⟩ := hok k hand rfl hk hold
            have hin : i < r.engine.inFlight.length := by
              rw [← hkept.waiting]
              exact (List.getElem?_eq_some_iff.mp hk).1
            have hrecorded : HandsRun.recordedSince r.engine (r.engine.resume sha256 i true) =
                recordDeltas r.engine.machine.state
                  (ids.map fun id => (id, (startingStack : ℤ))) := by
              rw [HandsRun.recordedSince, hsettlement, drop_left, if_pos ⟨hin, rfl, hrow⟩,
                hkept.initial]
            obtain rfl := Option.mem_some_iff.mp hentries
            rw [hrecorded]
            refine right_of_initial (hkept.players hlen) ?_ (hstart.trans hkept.initial) hfinish
            rw [← hfinish]
            exact h.finish hand (mem_of_getElem? hold)

lemma fairHands_of_reachable {r : HandsRun} (hlen : 2 ≤ ids.length)
    (h : ((handsRuns sha256 ids startingStack).restrict (FromInitial sha256)).Reachable r) :
    FairHands ids startingStack r := by
  refine h.restrict_invariant (I := FairHands ids startingStack) ?_ ?_
  · rintro _ ⟨seed, nonce, hasRepo, rfl⟩
    exact ⟨.of_init rfl, forall_mem_nil _, forall_mem_nil _⟩
  · rintro r event _ hreach hi hok rfl
    exact hi.step hlen (handsKept_of_reachable hlen hreach) hok

end Run

/-- In the runs of an engine without wallet in which every hand that is recorded was begun with the
initial stacks, the recorded entries are the results of the hands and add up to zero; and a hand
that somebody began with another stack is recorded with other entries. -/
theorem hand_results {sha256 : List UInt8 → List UInt8} {ids : List PlayerId} {startingStack : ℕ}
    (hlen : 2 ≤ ids.length) :
    (∀ r, ((handsRuns sha256 ids startingStack).restrict (FromInitial sha256)).Reachable r →
      ∀ hand ∈ r.hands, ∀ entries ∈ hand.recorded,
        entries = hand.deltas ∧ (entries.map (·.delta)).sum = 0) ∧
    ∀ r a, (handsRuns sha256 ids startingStack).Reachable r → r.engine.hasRepo = false →
      Ends sha256 r.engine a → r.start ≠ r.engine.initialStacks →
      ∃ hand ∈ (r.step sha256 (.action a)).hands, ∃ entries ∈ hand.recorded,
        entries ≠ hand.deltas := by
  constructor
  · intro r h hand hhand entries hentries
    obtain ⟨hdeltas, hsum⟩ := (fairHands_of_reachable hlen h).right hand hhand entries hentries
    exact ⟨hdeltas, hsum⟩
  · intro r a h hrepo hends hother
    have hkept := handsKept_of_reachable hlen h
    have hids : (r.engine.afterAction sha256 a).machine.state.players.map (·.id) = ids := by
      rw [afterAction_map_id, hkept.players hlen]
    have hrepo' := (@sameTerms_afterAction sha256 r.engine a).repo.trans hrepo
    rcases @afterAction_record sha256 _ _ hlen (hkept.seated hlen) hkept.wallet hkept.resting a with
      ⟨-, hsettlement, -⟩ | ⟨hnot, -⟩
    · rw [hrepo, if_neg Bool.false_ne_true] at hsettlement
      have hmem : (⟨r.start, (r.engine.afterAction sha256 a).machine.state.playerStacks,
          some (HandsRun.recordedSince r.engine (r.engine.afterAction sha256 a))⟩ : HandResult) ∈
          (r.step sha256 (.action a)).hands := by
        simp only [HandsRun.step, if_pos hends, hrepo', Bool.false_eq_true, if_false]
        exact mem_append_right _ mem_cons_self
      refine ⟨_, hmem, _, rfl, fun hsame => hother ?_⟩
      rw [HandsRun.recordedSince, hsettlement, drop_left, hkept.initial, recordDeltas_eq hids,
        HandResult.deltas] at hsame
      rw [hkept.initial]
      refine (zipWith_sub_injective ?_ ?_ hsame).symm
      · rw [playerStacks_ids, hids]
        simp [Function.comp_def]
      · rw [playerStacks_ids, hids, hkept.start]
    · exact absurd hends hnot

/-! ### Two hands -/

/-- An engine of two players, without wallet and table of hands. -/
def twoPlayers : HandsRun :=
  { engine := .create ["p1", "p2"] 100 zeroRng false false
    start := (HandStateMachine.initial ["p1", "p2"] 100).state.playerStacks }

def playHands (r : HandsRun) (actions : List GameAction) : HandsRun :=
  actions.foldl (fun r a => r.step zeroSeedHash (.action a)) r

/-- Actions without pots on the table, in hands that were begun with the initial stacks. -/
lemma reachable_playHands {r : HandsRun} {ids : List PlayerId} {startingStack : ℕ}
    (h : ((handsRuns zeroSeedHash ids startingStack).restrict (FromInitial zeroSeedHash)).Reachable
      r) (actions : List GameAction)
    (hok : ∀ n < actions.length,
      (playHands r (actions.take n)).engine.machine.state.sidePots = [] ∧
        (playHands r (actions.take n)).start = (playHands r (actions.take n)).engine.initialStacks) :
    ((handsRuns zeroSeedHash ids startingStack).restrict (FromInitial zeroSeedHash)).Reachable
      (playHands r actions) := by
  induction actions generalizing r with
  | nil => exact h
  | cons a actions ih =>
    obtain ⟨hpots, hstart⟩ := hok 0 (Nat.succ_pos _)
    have hfair : FromInitial zeroSeedHash r (.action a) := by
      refine ⟨?_, fun _ _ => hstart⟩
      rintro ⟨id, -, -, pot, hpot, -⟩
      have hnone : r.engine.machine.state.sidePots = [] := hpots
      rw [hnone] at hpot
      cases hpot
    refine ih (h.tail (a := .action a) ⟨hfair, rfl⟩) fun n hn => ?_
    exact hok (n + 1) (Nat.succ_lt_succ hn)

lemma reachable_twoPlayers :
    ((handsRuns zeroSeedHash ["p1", "p2"] 100).restrict (FromInitial zeroSeedHash)).Reachable
      twoPlayers :=
  .of_init ⟨zeroSeed, zeroNonce, false, rfl⟩

/-- One hand that ends by a fold. -/
theorem hand_results_fold :
    ∃ hand ∈ (playHands twoPlayers
        [.postBlind "p1" 1, .postBlind "p2" 2, .next, .fold "p1"]).hands,
      ∃ entries ∈ hand.recorded, entries = hand.deltas ∧ (entries.map (·.delta)).sum = 0 := by
  have hrecorded : ∃ hand ∈ (playHands twoPlayers
      [.postBlind "p1" 1, .postBlind "p2" 2, .next, .fold "p1"]).hands, hand.recorded.isSome := by
    rw [playHands, twoPlayers, zeroRng, zeroSeedHash_eq]
    decide +kernel
  obtain ⟨hand, hhand, hsome⟩ := hrecorded
  obtain ⟨entries, hentries⟩ := Option.isSome_iff_exists.mp hsome
  exact ⟨hand, hhand, entries, hentries, (hand_results (by decide)).1 _
    (reachable_playHands reachable_twoPlayers _ (by decide +kernel)) hand hhand entries hentries⟩

/-- The entries of a second hand count the result of the first one again. -/
theorem second_hand_from_initial_stacks :
    ¬ ∀ (sha256 : List UInt8 → List UInt8) (ids : List PlayerId) (startingStack : ℕ)
      (r : HandsRun), 2 ≤ ids.length → (handsRuns sha256 ids startingStack).Reachable r →
      ∀ hand ∈ r.hands, ∀ entries ∈ hand.recorded,
        entries = hand.deltas ∧ (entries.map (·.delta)).sum = 0 := by
  intro h
  have hreach : ∀ actions : List GameAction,
      (handsRuns zeroSeedHash ["p1", "p2"] 100).Reachable (playHands twoPlayers actions) := by
    intro actions
    induction actions using List.reverseRecOn with
    | nil => exact .of_init ⟨zeroSeed, zeroNonce, false, rfl⟩
    | append_singleton actions a ih =>
      rw [playHands, foldl_append]
      exact ih.tail (a := .action a) rfl
  have hhands := h _ _ _ _ (by decide) (hreach
    [.postBlind "p1" 1, .postBlind "p2" 2, .next, .fold "p1", .next,
      .postBlind "p1" 1, .postBlind "p2" 2, .next, .fold "p1"])
  revert hhands
  rw [playHands, twoPlayers, zeroRng, zeroSeedHash_eq]
  decide +kernel

end Pokerhub
