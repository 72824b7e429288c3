import Pokerhub.Game.CommitReveal

/-!
# The worker of a room

`room.worker.ts` around its engine. A handler of an `apply` message deals on until the next betting
round, and before each deal it reads a flag; while it waits for the flag, other messages are
handled. With the flag off the hand is sent back to its blinds, but not its street, the blinds and
the stacks.

A hand can be brought to its settlement from a state of the table exactly when the missing blinds
can be paid and the next community deal has its board and its cards (`settles_iff_alive`).
-/

namespace Pokerhub

open GameStateInternal GameEngine HandStateMachine TransitionSystem List

/-! ### The worker -/

/-- Where a handler of an `apply` message waits. -/
inductive ApplyStage where
  /-- For the flag, after the last blind. -/
  | dealt
  /-- For the flag, in the loop that deals on. -/
  | advance
  /-- Before the `next` after a settlement. -/
  | settled
  deriving DecidableEq

structure RoomWorker where
  engine : GameEngine
  waiting : List ApplyStage := []

/-- The writes of `resetToWaitBlinds`. -/
def GameStateInternal.resetToWaitBlinds (s : GameStateInternal) : GameStateInternal :=
  { s with
    phase := .waitBlinds
    deck := []
    communityCards := []
    players := s.players.map fun p => { p with holeCards := none } }

namespace RoomWorker

def reset (w : RoomWorker) : RoomWorker :=
  { w with
    engine :=
      { w.engine with
        machine := { w.engine.machine with state := w.engine.machine.state.resetToWaitBlinds } } }

/-- A handler stops to wait. -/
def wait (stage : ApplyStage) (w : RoomWorker) : RoomWorker :=
  { w with waiting := w.waiting ++ [stage] }

/-- The handler after its loop: a settled hand is followed by `next`. -/
def finish (w : RoomWorker) : RoomWorker :=
  if w.engine.machine.state.phase = .settle then w.wait .settled else w

/-- The head of the loop. -/
def loop (w : RoomWorker) : RoomWorker :=
  if w.engine.machine.state.phase = .deal then w.wait .advance else w.finish

section Hash

variable (sha256 : List UInt8 → List UInt8)

/-- The handler of an `apply` message up to its first wait; what the engine throws ends it. -/
def apply (action : GameAction) (w : RoomWorker) : RoomWorker :=
  match (applyAction sha256 action).run w.engine with
  | .error _ e => { w with engine := e }
  | .ok _ e =>
    let played := { w with engine := e }
    if w.engine.machine.state.phase = .waitBlinds ∧ e.machine.state.phase = .deal then
      played.wait .dealt
    else played.loop

/-- A waiting handler goes on, with what it read from the flag. -/
def proceed (i : ℕ) (enabled : Bool) (w : RoomWorker) : RoomWorker :=
  let resumed := { w with waiting := w.waiting.eraseIdx i }
  match w.waiting[i]? with
  | none => w
  | some .dealt => if enabled then resumed.loop else resumed.reset
  | some .advance =>
    if enabled then
      match (applyAction sha256 .next).run w.engine with
      | .error _ e => { resumed with engine := e }
      | .ok _ e => { resumed with engine := e }.loop
    else resumed.reset
  | some .settled => { resumed with engine := w.engine.afterAction sha256 .next }

end Hash

end RoomWorker

/-- What happens at a worker: a message, a handler that goes on, a settlement that goes on. -/
inductive RoomEvent where
  | apply (action : GameAction)
  | proceed (i : ℕ) (enabled : Bool)
  | resume (i : ℕ) (ok : Bool)

def RoomWorker.step (sha256 : List UInt8 → List UInt8) (w : RoomWorker) : RoomEvent → RoomWorker
  | .apply action => w.apply sha256 action
  | .proceed i enabled => w.proceed sha256 i enabled
  | .resume i ok => { w with engine := w.engine.resume sha256 i ok }

/-- The runs of a worker. -/
def roomRuns (sha256 : List UInt8 → List UInt8) (ids : List PlayerId) (startingStack : ℕ) :
    TransitionSystem RoomWorker RoomEvent where
  init w := ∃ seed nonce hasWallet hasRepo,
    w = { engine := .create ids startingStack (.create sha256 seed nonce) hasWallet hasRepo }
  step w event w' := w' = w.step sha256 event

section Worker

variable {sha256 : List UInt8 → List UInt8} {ids : List PlayerId} {startingStack : ℕ}

@[simp] lemma RoomWorker.wait_engine (w : RoomWorker) (stage : ApplyStage) :
    (w.wait stage).engine = w.engine := rfl

@[simp] lemma RoomWorker.finish_engine (w : RoomWorker) : w.finish.engine = w.engine := by
  unfold RoomWorker.finish
  split_ifs <;> rfl

@[simp] lemma RoomWorker.loop_engine (w : RoomWorker) : w.loop.engine = w.engine := by
  unfold RoomWorker.loop
  split_ifs
  · rfl
  · exact w.finish_engine

lemma afterAction_of_run {e e' : GameEngine} {a : GameAction} {err : GameError}
    (h : (applyAction sha256 a).run e = .error err e') : e.afterAction sha256 a = e' := by
  rw [afterAction, h]

lemma afterAction_of_run_ok {e e' : GameEngine} {a : GameAction} {s : GameStateInternal}
    (h : (applyAction sha256 a).run e = .ok s e') : e.afterAction sha256 a = e' := by
  rw [afterAction, h]

lemma RoomWorker.apply_engine (w : RoomWorker) (a : GameAction) :
    (w.apply sha256 a).engine = w.engine.afterAction sha256 a := by
  unfold RoomWorker.apply
  split
  · rename_i h
    rw [afterAction_of_run h]
  · rename_i h
    rw [afterAction_of_run_ok h]
    dsimp only
    split_ifs
    · rfl
    · exact RoomWorker.loop_engine _

/-- The engine of a worker is called, reset, settled, or left alone. -/
lemma RoomWorker.step_engine (w : RoomWorker) (event : RoomEvent) :
    (w.step sha256 event).engine = w.engine ∨
      (∃ a, (w.step sha256 event).engine = w.engine.afterAction sha256 a) ∨
      (w.step sha256 event).engine = w.reset.engine ∨
      ∃ i ok, (w.step sha256 event).engine = w.engine.resume sha256 i ok := by
  cases event with
  | apply a =>
    exact Or.inr (Or.inl ⟨a, w.apply_engine a⟩)
  | proceed i enabled =>
    simp only [RoomWorker.step, RoomWorker.proceed]
    split
    · exact Or.inl rfl
    · split_ifs
      · exact Or.inl (RoomWorker.loop_engine _)
      · exact Or.inr (Or.inr (Or.inl rfl))
    · split_ifs
      · right; left
        refine ⟨.next, ?_⟩
        split
        · rename_i h
          rw [afterAction_of_run h]
        · rename_i h
          rw [afterAction_of_run_ok h]
          exact RoomWorker.loop_engine _
      · exact Or.inr (Or.inr (Or.inl rfl))
    · exact Or.inr (Or.inl ⟨.next, rfl⟩)
  | resume i ok => exact Or.inr (Or.inr (Or.inr ⟨i, ok, rfl⟩))

end Worker

/-! ### A table that can go on -/

/-- The missing blinds can be posted, and the street that follows them can be dealt. -/
structure CanStart (m : HandStateMachine) : Prop where
  different : (m.state.players.map (·.id)).Nodup
  chips : ∀ p ∈ m.state.players, p.id ∉ m.blindsPosted → 0 < p.stack
  street : m.state.street ≠ .turn ∧ m.state.street ≠ .river ∧
    (m.state.street = .flop → m.state.players.length ≤ 24)

/-- Nothing stands between the state and the end of the hand. -/
def Alive (m : HandStateMachine) : Prop :=
  match m.state.phase with
  | .waitBlinds | .nextHand => CanStart m
  | .deal => m.state.boardDeal = 0 ∨ m.state.CanDeal m.state.boardDeal
  | .bettingRound | .showdown | .settle => True

lemma alive_of_waiting {m : HandStateMachine} (h : m.state.phase.Waiting) :
    Alive m ↔ CanStart m := by
  rw [Alive]
  rcases h with h | h <;> rw [h]

lemma alive_of_deal {m : HandStateMachine} (h : m.state.phase = .deal) :
    Alive m ↔ m.state.boardDeal = 0 ∨ m.state.CanDeal m.state.boardDeal := by
  rw [Alive, h]

lemma alive_of_played {m : HandStateMachine}
    (h : m.state.phase = .bettingRound ∨ m.state.phase = .showdown ∨ m.state.phase = .settle) :
    Alive m := by
  rw [Alive]
  rcases h with h | h | h <;> rw [h] <;> trivial

/-- A table over any number of hands and resets. -/
structure Open (ids : List PlayerId) (m : HandStateMachine) : Prop where
  players : m.state.players.map (·.id) = ids
  blinds : m.blindsPosted ⊆ ids.toFinset
  fewer : m.blindsPosted.card < ids.length
  board : m.state.phase.Waiting → m.state.communityCards = []
  nodup : ¬ m.state.phase.Waiting → ids.Nodup

/-- A rule and what the engine adds to it. -/
def Plays (shuffle : Shuffle) (m m' : HandStateMachine) : Prop :=
  ∃ a m₁, Step shuffle m a m₁ ∧ m' = conclude m₁

section Table

variable {shuffle : Shuffle} {ids : List PlayerId} {m m' : HandStateMachine}

lemma Open.conclude (h : Open ids m) : Open ids (conclude m) := by
  rcases conclude_cases m with hsame | ⟨hphase, hsettle⟩
  · rwa [hsame]
  · have hwait : ¬ m.state.phase.Waiting := by
      rcases hphase with hphase | hphase <;> simp [hphase, HandPhase.Waiting]
    refine ⟨?_, h.blinds, h.fewer, fun hw => ?_, fun _ => h.nodup hwait⟩
    · rw [map_conclude (fun p => p.id) (fun _ _ => rfl), h.players]
    · rw [hsettle] at hw
      rcases hw with hw | hw <;> cases hw

/-- The player of a find. -/
lemma Open.mem_ids (h : Open ids m) {id : PlayerId} {p : PlayerStateInternal}
    (hp : m.state.players.find? (fun p => p.id == id) = some p) : p.id ∈ ids := by
  rw [← h.players]
  exact mem_map_of_mem (mem_of_find?_eq_some hp)

/-- When everybody has posted, the players are different, and each is among those who have. -/
lemma Open.of_all (h : Open ids m) {id : PlayerId} (hid : id ∈ ids)
    (hall : (insert id m.blindsPosted).card = m.state.players.length) :
    ids.Nodup ∧ ∀ x ∈ ids, x = id ∨ x ∈ m.blindsPosted := by
  have hsub : insert id m.blindsPosted ⊆ ids.toFinset :=
    Finset.insert_subset (mem_toFinset.mpr hid) h.blinds
  have hlen : m.state.players.length = ids.length := by rw [← h.players, length_map]
  have hcard := Finset.card_le_card hsub
  have hdedup : ids.toFinset.card ≤ ids.length := toFinset_card_le ids
  refine ⟨?_, fun x hx => ?_⟩
  · have heq : ids.toFinset.card = ids.length := by omega
    exact Multiset.coe_nodup.mp (Multiset.toFinset_card_eq_card_iff_nodup.mp heq)
  · have heq := Finset.eq_of_subset_of_card_le hsub (by omega)
    rw [← Finset.mem_insert, heq]
    exact mem_toFinset.mpr hx

/-- A state of a hand that is played keeps the table open when it follows another one. -/
lemma Open.of_played (h : Open ids m) (hwait : ¬ m.state.phase.Waiting)
    (hids : m'.state.players.map (·.id) = m.state.players.map (·.id))
    (hblinds : m'.blindsPosted = m.blindsPosted) (hwait' : ¬ m'.state.phase.Waiting) :
    Open ids m' where
  players := hids.trans h.players
  blinds := hblinds ▸ h.blinds
  fewer := hblinds ▸ h.fewer
  board := fun hw => absurd hw hwait'
  nodup := fun _ => h.nodup hwait

lemma not_waiting_closeIfAlone {s : GameStateInternal} (h : s.phase = .bettingRound) :
    ¬ s.closeIfAlone.phase.Waiting := by
  rw [closeIfAlone_phase, h]
  split <;> simp [HandPhase.Waiting]

theorem Open.step {a : GameAction} (h : Open ids m) (hstep : Step shuffle m a m') :
    Open ids m' := by
  have hids := hstep.map_id
  cases hstep with
  | postBlind id amount p hphase hp hpos hle hmore =>
    have hsub : insert p.id m.blindsPosted ⊆ ids.toFinset :=
      Finset.insert_subset (mem_toFinset.mpr (h.mem_ids hp)) h.blinds
    refine ⟨hids.trans h.players, hsub, ?_, h.board, h.nodup⟩
    have hcard := (Finset.card_le_card hsub).trans (toFinset_card_le ids)
    have hlen : m.state.players.length = ids.length := by rw [← h.players, length_map]
    exact lt_of_le_of_ne hcard (hlen ▸ hmore)
  | lastBlind id amount p hphase hp hpos hle hall =>
    refine ⟨hids.trans h.players, Finset.empty_subset _, ?_, fun hw => ?_, fun _ => ?_⟩
    · exact (Nat.zero_le _).trans_lt h.fewer
    · rcases hw with hw | hw <;> cases hw
    · exact (h.of_all (h.mem_ids hp) hall).1
  | deal hphase =>
    exact h.of_played (by simp [hphase, HandPhase.Waiting]) hids rfl (by simp [HandPhase.Waiting])
  | chips id amount p hphase =>
    exact h.of_played (by simp [hphase, HandPhase.Waiting]) hids rfl
      (not_waiting_closeIfAlone hphase)
  | check id hphase =>
    exact h.of_played (by simp [hphase, HandPhase.Waiting]) hids rfl
      (not_waiting_closeIfAlone hphase)
  | fold id p hphase =>
    exact h.of_played (by simp [hphase, HandPhase.Waiting]) hids rfl
      (not_waiting_closeIfAlone hphase)
  | next hphase =>
    refine h.of_played (by simp [hphase, HandPhase.Waiting]) hids rfl ?_
    rcases closeStreet_phase_eq m.state with hc | hc <;> simp [hc, HandPhase.Waiting]
  | showdown hphase =>
    exact h.of_played (by simp [hphase, HandPhase.Waiting]) hids rfl (by simp [HandPhase.Waiting])
  | settle hphase =>
    refine ⟨hids.trans h.players, Finset.empty_subset _, ?_, fun _ => rfl, fun hw => ?_⟩
    · exact (Nat.zero_le _).trans_lt h.fewer
    · exact absurd (Or.inr rfl) hw

theorem Open.plays (h : Open ids m) (hplay : Plays shuffle m m') : Open ids m' := by
  obtain ⟨a, m₁, hstep, rfl⟩ := hplay
  exact (h.step hstep).conclude

lemma Open.reset (h : Open ids m) :
    Open ids { m with state := m.state.resetToWaitBlinds } := by
  refine ⟨?_, h.blinds, h.fewer, fun _ => rfl, fun hw => absurd (Or.inl rfl) hw⟩
  rw [← h.players]
  simp [resetToWaitBlinds]

lemma Open.initial (hlen : 2 ≤ ids.length) (startingStack : ℕ) :
    Open ids (HandStateMachine.initial ids startingStack) := by
  refine ⟨?_, Finset.empty_subset _, ?_, fun _ => rfl, fun hw => absurd (Or.inl rfl) hw⟩
  · simp [HandStateMachine.initial, Function.comp_def]
  · show 0 < ids.length
    omega

/-! ### The deal after a reset -/

/-- After the deal of the hole cards three cards for a flop are left to at most 24 players. -/
lemma canDeal_startHand_iff {s : GameStateInternal} (hgenuine : shuffle.Genuine)
    (hboard : s.communityCards = []) (hflop : s.street = .flop) :
    (s.startHand shuffle).CanDeal 3 ↔ s.players.length ≤ 24 := by
  obtain ⟨hcards, hdeck⟩ := startHand_deck hgenuine hboard
  obtain ⟨hcard, hlt⟩ := card_used_of_perm (hcards ▸ buildDeck_reverse_perm hgenuine)
  have hcount : (s.startHand shuffle).communityCards.length =
      (s.startHand shuffle).expectedCommunityCountBeforeDeal := by
    have hstreet : (s.startHand shuffle).street = .flop := hflop
    have hempty : (s.startHand shuffle).communityCards = [] := hboard
    rw [expectedCommunityCountBeforeDeal, hstreet, hempty]
    rfl
  constructor
  · intro h
    by_contra hmany
    have hshoe := h.shoe (Or.inr (by omega))
    rw [length_available hlt] at hshoe
    omega
  · refine fun hfew => ⟨hcount, fun _ => ?_⟩
    rw [length_available hlt]
    omega

/-! ### A dead table stays dead -/

/-- Another player is as before the bet. -/
lemma mem_addBet {s : GameStateInternal} {p q : PlayerStateInternal} (hq : q ∈ s.players)
    (hne : q.id ≠ p.id) (amount : ℤ) : q ∈ (s.addBet p amount).players :=
  mem_updateFirst_of_mem hq (by simpa using hne)

/-- Before a deal, what a blind leaves to the others was enough before it. -/
lemma chips_of_blind {id : PlayerId} {p : PlayerStateInternal} {amount : ℤ}
    (hnodup : (m.state.players.map (·.id)).Nodup)
    (hp : m.state.players.find? (fun p => p.id == id) = some p) (hpos : 0 < amount)
    (hle : amount ≤ p.stack)
    (hothers : ∀ q ∈ m.state.players, q.id ≠ p.id → q.id ∉ m.blindsPosted → 0 < q.stack) :
    ∀ q ∈ m.state.players, q.id ∉ m.blindsPosted → 0 < q.stack := by
  intro q hq hmissing
  by_cases hid : q.id = p.id
  · have hsame : q = p := inj_on_of_nodup_map hnodup hq (mem_of_find?_eq_some hp) hid
    rw [hsame]
    exact lt_of_lt_of_le hpos hle
  · exact hothers q hq hid hmissing

/-- A rule that leads to a table that is alive comes from one. -/
theorem Alive.of_step {a : GameAction} (hgenuine : shuffle.Genuine) (hopen : Open ids m)
    (hstep : Step shuffle m a m') (h : Alive m') : Alive m := by
  cases hstep with
  | postBlind id amount p hphase hp hpos hle =>
    have hwait : (m.state.addBet p amount).phase.Waiting := hphase
    have hstart := (alive_of_waiting
      (m := ⟨m.state.addBet p amount, insert p.id m.blindsPosted⟩) hwait).mp h
    have hids : (m.state.addBet p amount).players.map (·.id) = m.state.players.map (·.id) :=
      map_updateFirst_of_eq _ (by intro; rfl) _
    have hnodup : (m.state.players.map (·.id)).Nodup := hids ▸ hstart.different
    refine (alive_of_waiting hphase).mpr ⟨hnodup, ?_, ?_⟩
    · refine chips_of_blind hnodup hp hpos hle fun q hq hid hmissing => ?_
      refine hstart.chips q (mem_addBet hq hid amount) ?_
      exact fun hin => (Finset.mem_insert.mp hin).elim hid hmissing
    · have hlen : (m.state.addBet p amount).players.length = m.state.players.length :=
        length_updateFirst _
      exact hlen ▸ hstart.street
  | lastBlind id amount p hphase hp hpos hle hall =>
    obtain ⟨hnodup, hposted⟩ := hopen.of_all (hopen.mem_ids hp) hall
    rw [← hopen.players] at hnodup hposted
    refine (alive_of_waiting hphase).mpr ⟨hnodup, ?_, ?_⟩
    · refine chips_of_blind hnodup hp hpos hle fun q hq hid hmissing => ?_
      rcases hposted q.id (mem_map_of_mem hq) with hsame | hin
      · exact absurd hsame hid
      · exact absurd hin hmissing
    · have hdeal := (alive_of_deal
        (m := ⟨(m.state.addBet p amount).startHand shuffle, ∅⟩) rfl).mp h
      have hboard : (m.state.addBet p amount).communityCards = [] := hopen.board hphase
      have hlen : (m.state.addBet p amount).players.length = m.state.players.length :=
        length_updateFirst _
      have hstreet : ((m.state.addBet p amount).startHand shuffle).street = m.state.street := rfl
      have hnone : ((m.state.addBet p amount).startHand shuffle).communityCards = [] := hboard
      refine ⟨fun hturn => ?_, fun hriver => ?_, fun hflop => ?_⟩
      · rw [boardDeal, hstreet, hturn] at hdeal
        have hcount := (hdeal.resolve_left (by decide)).count
        rw [expectedCommunityCountBeforeDeal, hstreet, hturn, hnone] at hcount
        cases hcount
      · rw [boardDeal, hstreet, hriver] at hdeal
        have hcount := (hdeal.resolve_left (by decide)).count
        rw [expectedCommunityCountBeforeDeal, hstreet, hriver, hnone] at hcount
        cases hcount
      · rw [boardDeal, hstreet, hflop] at hdeal
        rw [← hlen]
        exact (canDeal_startHand_iff hgenuine hboard hflop).mp (hdeal.resolve_left (by decide))
  | deal hphase hdeal => exact (alive_of_deal hphase).mpr hdeal
  | chips id amount p hphase => exact alive_of_played (Or.inl hphase)
  | check id hphase => exact alive_of_played (Or.inl hphase)
  | fold id p hphase => exact alive_of_played (Or.inl hphase)
  | next hphase => exact alive_of_played (Or.inl hphase)
  | showdown hphase => exact alive_of_played (Or.inr (Or.inl hphase))
  | settle hphase => exact alive_of_played (Or.inr (Or.inr hphase))

theorem Alive.of_plays (hgenuine : shuffle.Genuine) (hopen : Open ids m)
    (hplay : Plays shuffle m m') (h : Alive m') : Alive m := by
  obtain ⟨a, m₁, hstep, rfl⟩ := hplay
  refine Alive.of_step hgenuine hopen hstep ?_
  rcases conclude_cases m₁ with hsame | ⟨hphase, -⟩
  · rwa [hsame] at h
  · exact alive_of_played (hphase.imp_right Or.inl)

/-- Accepted actions that lead to the settlement of the hand. -/
def Settles (shuffle : Shuffle) (m : HandStateMachine) : Prop :=
  ∃ m', Relation.ReflTransGen (Plays shuffle) m m' ∧ m'.state.phase = .settle

lemma Settles.alive (hgenuine : shuffle.Genuine) (hopen : Open ids m) (h : Settles shuffle m) :
    Alive m := by
  obtain ⟨m', hrun, hsettle⟩ := h
  induction hrun using Relation.ReflTransGen.head_induction_on with
  | refl => exact alive_of_played (Or.inr (Or.inr hsettle))
  | head hplay _ ih => exact Alive.of_plays hgenuine hopen hplay (ih (hopen.plays hplay))

/-! ### A table that is alive comes to a settlement -/

lemma Settles.of_settle (h : m.state.phase = .settle) : Settles shuffle m :=
  ⟨m, .refl, h⟩

lemma Settles.head (hplay : Plays shuffle m m') (h : Settles shuffle m') : Settles shuffle m := by
  obtain ⟨m₂, hrun, hsettle⟩ := h
  exact ⟨m₂, hrun.head hplay, hsettle⟩

/-- A rule whose call ends in a settlement, or in a state from which one is reached. -/
lemma Settles.of_step {a : GameAction} (hstep : Step shuffle m a m')
    (h : Settles shuffle (conclude m')) : Settles shuffle m :=
  .head ⟨a, m', hstep, rfl⟩ h

/-- A fold takes the player who folds out of the hand. -/
lemma length_activePlayers_fold {s : GameStateInternal} {id : PlayerId} {p : PlayerStateInternal}
    (hp : s.players.find? (fun p => p.id == id) = some p) (hin : p.folded = false) :
    (s.updatePlayer id (·.fold)).activePlayers.length + 1 = s.activePlayers.length := by
  rw [activePlayers, activePlayers, updatePlayer]
  dsimp only
  generalize s.players = ps at hp
  induction ps with
  | nil => cases hp
  | cons q ps ih =>
    rw [updateFirst_cons]
    rw [find?_cons] at hp
    cases hq : (q.id == id) with
    | true =>
      rw [hq] at hp
      obtain rfl := Option.some.inj hp
      simp [PlayerStateInternal.fold, hin]
    | false =>
      rw [hq] at hp
      have hrest := ih hp
      rw [if_neg Bool.false_ne_true, filter_cons, filter_cons]
      split_ifs
      · rw [length_cons, length_cons, hrest]
      · exact hrest

/-- After an action of a betting round the hand is settled, or the round goes on. -/
lemma Settles.of_closeIfAlone {s : GameStateInternal} {a : GameAction}
    (hphase : s.phase = .bettingRound)
    (hstep : Step shuffle m a { m with state := s.closeIfAlone })
    (h : 2 ≤ s.activePlayers.length → Settles shuffle { m with state := s }) :
    Settles shuffle m := by
  refine .of_step hstep ?_
  by_cases hone : s.activePlayers.length ≤ 1
  · have hshow : s.closeIfAlone.phase = .showdown := by rw [closeIfAlone_phase, if_pos hone]
    exact .of_settle (conclude_of_showdown hshow)
  · have hkeep : s.closeIfAlone = s := by rw [closeIfAlone, if_neg hone]
    rw [hkeep]
    rcases conclude_of_betting (m := { m with state := s }) hphase with hsettle | ⟨htwo, hsame⟩
    · exact .of_settle hsettle
    · rw [hsame]
      exact h htwo

/-- A betting round ends when the players fold one after another. -/
lemma Settles.of_betting (hopen : Open ids m) (hphase : m.state.phase = .bettingRound) :
    Settles shuffle m := by
  obtain ⟨n, hn⟩ : ∃ n, m.state.activePlayers.length = n := ⟨_, rfl⟩
  induction n generalizing m with
  | zero =>
    apply Settles.of_closeIfAlone hphase (.check "" hphase)
    intro htwo
    omega
  | succ n ih =>
    have hwait : ¬ m.state.phase.Waiting := by simp [hphase, HandPhase.Waiting]
    obtain ⟨p, hp⟩ : ∃ p, p ∈ m.state.activePlayers := by
      apply exists_mem_of_length_pos
      omega
    obtain ⟨hmem, hactive⟩ := mem_filter.mp hp
    have hin : p.folded = false := by simpa using hactive
    have hfind := find?_of_nodup_map (hopen.players ▸ hopen.nodup hwait) hmem
    apply Settles.of_closeIfAlone (s := m.state.updatePlayer p.id (·.fold)) hphase
      (.fold p.id p hphase hfind)
    intro htwo
    have hcount := length_activePlayers_fold hfind hin
    refine ih ?_ hphase (by dsimp only; omega)
    refine hopen.of_played hwait ?_ rfl hwait
    exact map_updateFirst_of_eq _ (by intro; rfl) _

lemma Settles.of_step_betting {a : GameAction} (hopen : Open ids m)
    (hstep : Step shuffle m a m') (hphase : m'.state.phase = .bettingRound) :
    Settles shuffle m := by
  refine .of_step hstep ?_
  rcases conclude_of_betting hphase with hsettle | ⟨-, hsame⟩
  · exact .of_settle hsettle
  · rw [hsame]
    exact .of_betting (hopen.step hstep) hphase

/-- A deal with its board and its cards leads to a betting round. -/
lemma Settles.of_deal (hopen : Open ids m) (hphase : m.state.phase = .deal)
    (hdeal : m.state.boardDeal = 0 ∨ m.state.CanDeal m.state.boardDeal) : Settles shuffle m :=
  .of_step_betting hopen (.deal hphase hdeal) rfl

/-- The hand that the last blind starts can be dealt. -/
lemma CanStart.deal (hgenuine : shuffle.Genuine) (h : CanStart m)
    (hboard : m.state.communityCards = []) (p : PlayerStateInternal) (amount : ℤ) :
    ((m.state.addBet p amount).startHand shuffle).boardDeal = 0 ∨
      ((m.state.addBet p amount).startHand shuffle).CanDeal
        ((m.state.addBet p amount).startHand shuffle).boardDeal := by
  obtain ⟨hturn, hriver, hflop⟩ := h.street
  have hstreet : ((m.state.addBet p amount).startHand shuffle).street = m.state.street := rfl
  rw [boardDeal, hstreet]
  cases hs : m.state.street with
  | preflop => exact Or.inl rfl
  | showdown => exact Or.inl rfl
  | turn => exact absurd hs hturn
  | river => exact absurd hs hriver
  | flop =>
    have hempty : (m.state.addBet p amount).communityCards = [] := hboard
    have hstreet' : (m.state.addBet p amount).street = .flop := hs
    have hlen : (m.state.addBet p amount).players.length = m.state.players.length :=
      length_updateFirst _
    right
    apply (canDeal_startHand_iff hgenuine hempty hstreet').mpr
    rw [hlen]
    exact hflop hs

/-- The players who have not posted post one chip each. -/
lemma Settles.of_waiting (hgenuine : shuffle.Genuine) (hopen : Open ids m)
    (hphase : m.state.phase.Waiting) (hstart : CanStart m) : Settles shuffle m := by
  obtain ⟨n, hn⟩ : ∃ n, m.blindsPosted.card + n = ids.length := by
    exact ⟨ids.length - m.blindsPosted.card, Nat.add_sub_cancel' hopen.fewer.le⟩
  induction n generalizing m with
  | zero =>
    have hfewer := hopen.fewer
    omega
  | succ n ih =>
    have hlen : m.state.players.length = ids.length := by rw [← hopen.players, length_map]
    obtain ⟨id, hid, hmissing⟩ : ∃ id ∈ ids.toFinset, id ∉ m.blindsPosted := by
      have hcard : ids.toFinset.card = ids.length :=
        toFinset_card_of_nodup (hopen.players ▸ hstart.different)
      exact Finset.exists_mem_notMem_of_card_lt_card (hcard ▸ hopen.fewer)
    obtain ⟨p, hp, rfl⟩ := mem_map.mp (hopen.players ▸ mem_toFinset.mp hid)
    have hfind := find?_of_nodup_map hstart.different hp
    have hstack := hstart.chips p hp hmissing
    have hcard : (insert p.id m.blindsPosted).card = m.blindsPosted.card + 1 :=
      Finset.card_insert_of_notMem hmissing
    have hids : (m.state.addBet p 1).players.map (·.id) = m.state.players.map (·.id) :=
      map_updateFirst_of_eq _ (by intro; rfl) _
    by_cases hall : (insert p.id m.blindsPosted).card = m.state.players.length
    · have hstep : Step shuffle m (.postBlind p.id 1) _ :=
        .lastBlind p.id 1 p hphase hfind (by decide) hstack hall
      refine .of_step hstep ?_
      rw [conclude_of_ne (by simp [startHand]) (by simp [startHand])]
      exact .of_deal (hopen.step hstep) rfl (hstart.deal hgenuine (hopen.board hphase) p 1)
    · have hstep : Step shuffle m (.postBlind p.id 1) _ :=
        .postBlind p.id 1 p hphase hfind (by decide) hstack hall
      refine .of_step hstep ?_
      have hwait : (m.state.addBet p 1).phase.Waiting := hphase
      rw [conclude_of_ne (by rcases hwait with hw | hw <;> simp [hw])
        (by rcases hwait with hw | hw <;> simp [hw])]
      refine ih (hopen.step hstep) hwait ⟨hids ▸ hstart.different, fun q hq hq' => ?_, ?_⟩
        (by dsimp only; omega)
      · -- who has not posted is as before
        rcases mem_updateFirst_find hfind hq with hq | rfl
        · exact hstart.chips q hq fun hin => hq' (Finset.mem_insert_of_mem hin)
        · exact absurd (Finset.mem_insert_self _ _) hq'
      · have hlen : (m.state.addBet p 1).players.length = m.state.players.length :=
          length_updateFirst _
        exact hlen ▸ hstart.street

theorem Alive.settles (hgenuine : shuffle.Genuine) (hopen : Open ids m) (h : Alive m) :
    Settles shuffle m := by
  cases hphase : m.state.phase with
  | waitBlinds =>
    exact .of_waiting hgenuine hopen (Or.inl hphase) ((alive_of_waiting (Or.inl hphase)).mp h)
  | nextHand =>
    exact .of_waiting hgenuine hopen (Or.inr hphase) ((alive_of_waiting (Or.inr hphase)).mp h)
  | deal => exact .of_deal hopen hphase ((alive_of_deal hphase).mp h)
  | bettingRound => exact .of_betting hopen hphase
  | showdown =>
    refine .of_step (.showdown hphase) (.of_settle ?_)
    rw [conclude_of_ne (by simp) (by simp)]
  | settle => exact .of_settle hphase

end Table

/-! ### Calls on the engine -/

/-- The engine accepts an action. -/
def Accepts (sha256 : List UInt8 → List UInt8) (e : GameEngine) (a : GameAction)
    (e' : GameEngine) : Prop :=
  ∃ s, (applyAction sha256 a).run e = .ok s e'

section Engine

variable {sha256 : List UInt8 → List UInt8} {ids : List PlayerId} {startingStack : ℕ}

/-- What the engine accepts is played with its one shuffle. -/
lemma Accepts.plays {e e' : GameEngine} {a : GameAction} (h : Accepts sha256 e a e') :
    Plays (e.rng.shuffle sha256) e.machine e'.machine ∧ e'.rng = e.rng := by
  obtain ⟨s, hrun⟩ := h
  rcases @afterAction_spec sha256 e a with ⟨-, ⟨err, herr⟩, -⟩ | ⟨m, hstep, hok, hplay⟩
  · rw [hrun] at herr
    cases herr
  · rw [hrun] at hok
    cases hok
    refine ⟨⟨a, m, hstep, ?_⟩, afterAction_rng_eq e a⟩
    rw [hplay, afterPlay_machine]

/-- A rule can be played at the engine. -/
lemma accepts_of_plays {e : GameEngine} {m' : HandStateMachine}
    (h : Plays (e.rng.shuffle sha256) e.machine m') :
    ∃ a e', Accepts sha256 e a e' ∧ e'.machine = m' ∧ e'.rng = e.rng := by
  obtain ⟨a, m, hstep, rfl⟩ := h
  obtain ⟨hrun, hmachine⟩ := run_applyAction_of_step hstep
  exact ⟨a, _, ⟨_, hrun⟩, hmachine, afterAction_rng_eq e a⟩

/-- Accepted actions of the engine are rules of its machine. -/
lemma settles_iff {e : GameEngine} :
    (∃ e', Relation.ReflTransGen (fun e e' => ∃ a, Accepts sha256 e a e') e e' ∧
        e'.machine.state.phase = .settle) ↔ Settles (e.rng.shuffle sha256) e.machine := by
  constructor
  · rintro ⟨e', hrun, hsettle⟩
    induction hrun using Relation.ReflTransGen.head_induction_on with
    | refl => exact .of_settle hsettle
    | head hacc _ ih =>
      obtain ⟨a, hacc⟩ := hacc
      obtain ⟨hplay, hrng⟩ := hacc.plays
      exact .head hplay (hrng ▸ ih)
  · rintro ⟨m', hrun, hsettle⟩
    have hlift : ∀ {m : HandStateMachine},
        Relation.ReflTransGen (Plays (e.rng.shuffle sha256)) m m' →
        ∀ e₁ : GameEngine, e₁.machine = m → e₁.rng = e.rng →
        ∃ e', Relation.ReflTransGen (fun e e' => ∃ a, Accepts sha256 e a e') e₁ e' ∧
          e'.machine = m' := by
      intro m hrun
      induction hrun using Relation.ReflTransGen.head_induction_on with
      | refl => exact fun e₁ he₁ _ => ⟨e₁, .refl, he₁⟩
      | head hplay _ ih =>
        rintro e₁ rfl hrng
        obtain ⟨a, e₂, hacc, hmachine, hrng₂⟩ := accepts_of_plays (hrng ▸ hplay)
        obtain ⟨e', hrest, hend⟩ := ih e₂ hmachine (hrng₂.trans hrng)
        exact ⟨e', hrest.head ⟨a, hacc⟩, hend⟩
    obtain ⟨e', hrun', hend⟩ := hlift hrun e rfl rfl
    exact ⟨e', hrun', hend ▸ hsettle⟩

/-- An open table that can be settled accepts an action. -/
lemma accepts_of_settles {e : GameEngine} (h : Settles (e.rng.shuffle sha256) e.machine) :
    ∃ a e', Accepts sha256 e a e' := by
  obtain ⟨m', hplay⟩ : ∃ m', Plays (e.rng.shuffle sha256) e.machine m' := by
    obtain ⟨m', hrun, hsettle⟩ := h
    rcases Relation.ReflTransGen.cases_head hrun with rfl | ⟨m₁, hplay, -⟩
    · exact ⟨_, .next, _, .settle hsettle, rfl⟩
    · exact ⟨m₁, hplay⟩
  obtain ⟨a, e', hacc, -⟩ := accepts_of_plays hplay
  exact ⟨a, e', hacc⟩

/-! ### Over whole runs -/

/-- A worker has an open table in every state. -/
lemma open_of_reachable (hlen : 2 ≤ ids.length) {w : RoomWorker}
    (h : (roomRuns sha256 ids startingStack).Reachable w) : Open ids w.engine.machine := by
  refine h.invariant (I := fun w : RoomWorker => Open ids w.engine.machine) ?_ ?_
  · rintro _ ⟨seed, nonce, hasWallet, hasRepo, rfl⟩
    exact .initial hlen startingStack
  · rintro w event _ hopen rfl
    rcases @RoomWorker.step_engine sha256 w event with
      hsame | ⟨a, hcall⟩ | hreset | ⟨i, ok, hresume⟩
    · rwa [hsame]
    · rw [hcall]
      rcases @afterAction_machine sha256 w.engine a with hstay | ⟨m, hstep, hmachine⟩
      · rwa [hstay]
      · rw [hmachine]
        exact (hopen.step hstep).conclude
    · rw [hreset]
      exact hopen.reset
    · rw [hresume, resume_machine]
      exact hopen

/-- What an engine does on its own, it does in a worker. -/
lemma reachable_room_of_engine {r : EngineRun}
    (h : (engineRuns sha256 ids startingStack).Reachable r) :
    ∃ w, (roomRuns sha256 ids startingStack).Reachable w ∧ w.engine = r.engine := by
  refine h.invariant (I := fun r : EngineRun =>
    ∃ w, (roomRuns sha256 ids startingStack).Reachable w ∧ w.engine = r.engine) ?_ ?_
  · rintro _ ⟨seed, nonce, hasWallet, hasRepo, rfl⟩
    exact ⟨_, .of_init ⟨seed, nonce, hasWallet, hasRepo, rfl⟩, rfl⟩
  · rintro r event _ ⟨w, hreach, hw⟩ rfl
    cases event with
    | action a =>
      refine ⟨_, hreach.tail (a := .apply a) rfl, ?_⟩
      rw [RoomWorker.step, RoomWorker.apply_engine, hw]
      rfl
    | resume i ok =>
      refine ⟨_, hreach.tail (a := .resume i ok) rfl, ?_⟩
      rw [RoomWorker.step, hw]
      rfl

end Engine

/-- The engines of tables: each on its own, or in the worker of a room. -/
def TableEngine (sha256 : List UInt8 → List UInt8) (ids : List PlayerId) (startingStack : ℕ)
    (e : GameEngine) : Prop :=
  (∃ r, (engineRuns sha256 ids startingStack).Reachable r ∧ r.engine = e) ∨
    ∃ w, (roomRuns sha256 ids startingStack).Reachable w ∧ w.engine = e

lemma TableEngine.open_machine {sha256 : List UInt8 → List UInt8} {ids : List PlayerId}
    {startingStack : ℕ} {e : GameEngine} (hlen : 2 ≤ ids.length)
    (h : TableEngine sha256 ids startingStack e) : Open ids e.machine := by
  rcases h with ⟨r, hreach, rfl⟩ | ⟨w, hreach, rfl⟩
  · obtain ⟨w, hreach', hw⟩ := reachable_room_of_engine hreach
    rw [← hw]
    exact open_of_reachable hlen hreach'
  · exact open_of_reachable hlen hreach

/-- From a reached state of a table some accepted actions settle the hand, and one is accepted,
exactly when the table is alive. -/
theorem settles_iff_alive {sha256 : List UInt8 → List UInt8} {ids : List PlayerId}
    {startingStack : ℕ} {e : GameEngine} (hlen : 2 ≤ ids.length)
    (h : TableEngine sha256 ids startingStack e) :
    ((∃ e', Relation.ReflTransGen (fun e e' => ∃ a, Accepts sha256 e a e') e e' ∧
        e'.machine.state.phase = .settle) ∧ ∃ a e', Accepts sha256 e a e') ↔ Alive e.machine := by
  have hopen := h.open_machine hlen
  have hgenuine := e.rng.genuine_shuffle sha256
  rw [settles_iff]
  constructor
  · exact fun hsettles => hsettles.1.alive hgenuine hopen
  · intro halive
    have hsettles := halive.settles hgenuine hopen
    exact ⟨hsettles, accepts_of_settles hsettles⟩

/-- A new table. -/
theorem settles_zeroSeedRun :
    (∃ e', Relation.ReflTransGen (fun e e' => ∃ a, Accepts zeroSeedHash e a e')
        zeroSeedRun.engine e' ∧ e'.machine.state.phase = .settle) ∧ ∃ a e', Accepts zeroSeedHash zeroSeedRun.engine a e' :=
  (settles_iff_alive (by decide) (Or.inl ⟨_, reachable_zeroSeedRun, rfl⟩)).mpr
    ⟨by decide, by decide, by decide⟩

/-- A player goes all in with the blind and folds. -/
def bustedHand : EngineRun :=
  playEvents zeroSeedHash zeroSeedRun
    [.action (.postBlind "p1" 100), .action (.postBlind "p2" 1), .action .next,
      .action (.fold "p1"), .action .next]

/-- Once a player has lost all chips, the blinds of the next hand are never complete. -/
theorem dead_table :
    ¬ ∀ (sha256 : List UInt8 → List UInt8) (ids : List PlayerId) (startingStack : ℕ)
      (e : GameEngine), 2 ≤ ids.length → TableEngine sha256 ids startingStack e →
      (∃ e', Relation.ReflTransGen (fun e e' => ∃ a, Accepts sha256 e a e') e e' ∧
          e'.machine.state.phase = .settle) ∧ ∃ a e', Accepts sha256 e a e' := by
  intro h
  have hbusted : TableEngine zeroSeedHash ["p1", "p2"] 100 bustedHand.engine :=
    Or.inl ⟨_, reachable_playEvents reachable_zeroSeedRun _, rfl⟩
  have hsettles := settles_iff.mp (h _ _ _ _ (by decide) hbusted).1
  have halive := hsettles.alive (HandRNG.genuine_shuffle _ _) (hbusted.open_machine (by decide))
  have hnext : bustedHand.engine.machine.state.phase = .nextHand ∧
      ¬ ∀ p ∈ bustedHand.engine.machine.state.players,
        p.id ∉ bustedHand.engine.machine.blindsPosted → 0 < p.stack := by
    rw [bustedHand, zeroSeedRun, zeroRng, zeroSeedHash_eq]
    decide +kernel
  exact hnext.2 ((alive_of_waiting (Or.inr hnext.1)).mp halive).chips

end Pokerhub
