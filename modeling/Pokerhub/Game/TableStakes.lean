import Mathlib.Algebra.Order.BigOperators.Group.List
import Pokerhub.Game.Accounts

/-!
# Table stakes

A pot records what each player has put into it; added over the pots, and with the bets that are
not swept yet, these records are what a player has put into the hand (`Stakes`). So a pot that a
player has paid into holds no more than he has matched. A player may also win a pot that he has
not paid into, but only one that was re-assigned because everybody who had paid into it folded
(`table_stakes`).
-/

namespace Pokerhub

open GameStateInternal HandStateMachine TransitionSystem List

/-! ### Records -/

/-- The value at a key, or 0. -/
def lookup (id : PlayerId) : List (PlayerId × ℤ) → ℤ
  | [] => 0
  | e :: l => if e.1 = id then e.2 else lookup id l

/-- `contributions[id]`. -/
def SidePot.recorded (pot : SidePot) (id : PlayerId) : ℤ :=
  lookup id pot.contributions

/-- The player may win the pot without having paid into it. -/
def Reassigned (id : PlayerId) (pot : SidePot) : Prop :=
  id ∈ pot.players ∧ pot.recorded id = 0

instance (id : PlayerId) (pot : SidePot) : Decidable (Reassigned id pot) :=
  inferInstanceAs (Decidable (_ ∧ _))

/-- A pot of one height, paid by those who reached it; who may win it without having paid does so
because everybody who paid has folded. -/
structure IsLayer (players : List PlayerStateInternal) (pot : SidePot) : Prop where
  height : ∃ h, 0 < h ∧ ∀ id, pot.recorded id = 0 ∨ pot.recorded id = h
  amount : pot.amount = (players.map fun p => pot.recorded p.id).sum
  matched : ∀ id, Reassigned id pot → ∀ p ∈ players, pot.recorded p.id ≠ 0 → p.folded = true

namespace GameStateInternal

def stackOf (s : GameStateInternal) (id : PlayerId) : ℤ :=
  ((s.players.find? fun p => p.id == id).map (·.stack)).getD 0

/-- What a player has put into the side pots. -/
def recordedTotal (s : GameStateInternal) (id : PlayerId) : ℤ :=
  (s.sidePots.map (·.recorded id)).sum

/-- What everybody brought to the hand, by id. -/
def brought (s : GameStateInternal) : List (PlayerId × ℤ) :=
  s.players.map fun p => (p.id, p.stack + p.bet + s.recordedTotal p.id)

end GameStateInternal

/-- The records of a hand that was started with the stacks `b`. -/
structure Stakes (b : List (PlayerId × ℤ)) (s : GameStateInternal) : Prop where
  brought : s.brought = b
  layers : ∀ pot ∈ s.sidePots, IsLayer s.players pot

lemma lookup_others (id : PlayerId) (others : List PlayerStateInternal) :
    lookup id (others.map fun p => (p.id, 0)) = 0 := by
  induction others with
  | nil => rfl
  | cons p others ih => simp [lookup, ih]

lemma lookup_payers (id : PlayerId) (d : ℤ) (payers others : List PlayerStateInternal) :
    lookup id (payers.map (fun p => (p.id, d)) ++ others.map fun p => (p.id, 0)) =
      if id ∈ payers.map (·.id) then d else 0 := by
  induction payers with
  | nil => simpa using lookup_others id others
  | cons p payers ih =>
    rw [map_cons, cons_append, lookup, ih, map_cons]
    by_cases hp : p.id = id
    · simp [hp]
    · have hp' : ¬ id = p.id := fun h => hp h.symm
      simp [hp, hp']

section Layer

variable {s : GameStateInternal} {previous level : ℤ} {pot : SidePot}

/-- Who pays a layer. -/
def payers (s : GameStateInternal) (level : ℤ) : List PlayerStateInternal :=
  s.bettors.filter fun p => level ≤ p.bet

lemma mem_payers {p : PlayerStateInternal} :
    p ∈ payers s level ↔ p ∈ s.players ∧ 0 < p.bet ∧ level ≤ p.bet := by
  simp only [payers, bettors, mem_filter, decide_eq_true_eq, and_assoc]

/-- A layer is nothing, or one pot with the records of its payers. -/
lemma layerPot_cases (h : pot ∈ s.layerPot s.bettors previous level) :
    0 < pot.amount ∧ pot.amount = (level - previous) * (payers s level).length ∧
      (∀ id, pot.recorded id = if id ∈ (payers s level).map (·.id) then level - previous else 0) ∧
      ((∀ p ∈ payers s level, p.folded = true) ∨
        ∀ id ∈ pot.players, id ∈ (payers s level).map (·.id)) := by
  have hpos := layerPot_amount_pos h
  unfold layerPot at h
  dsimp only at h
  split_ifs at h with hamount hnone hactive
  · obtain rfl := mem_singleton.mp h
    refine ⟨hpos, rfl, fun id => lookup_payers id _ _ _, Or.inr fun id hid => hid⟩
  · obtain rfl := mem_singleton.mp h
    refine ⟨hpos, rfl, fun id => lookup_payers id _ _ _, Or.inl fun p hp => ?_⟩
    have hfolded := filter_eq_nil_iff.mp (length_eq_zero_iff.mp hnone) p hp
    simpa using hfolded
  · obtain rfl := mem_singleton.mp h
    refine ⟨hpos, rfl, fun id => ?_, Or.inr fun id hid => ?_⟩
    · have hlookup := lookup_payers id (level - previous) (payers s level) []
      rwa [map_nil, append_nil] at hlookup
    · obtain ⟨p, hp, rfl⟩ := mem_map.mp hid
      exact mem_map_of_mem (mem_of_mem_filter hp)
  · simp at h

lemma mem_map_id_iff (hids : (s.players.map (·.id)).Nodup) {p : PlayerStateInternal}
    (hp : p ∈ s.players) :
    p.id ∈ (payers s level).map (·.id) ↔ 0 < p.bet ∧ level ≤ p.bet := by
  constructor
  · intro h
    obtain ⟨q, hq, hid⟩ := mem_map.mp h
    obtain ⟨hqmem, hq⟩ := mem_payers.mp hq
    obtain rfl := inj_on_of_nodup_map hids hqmem hp hid
    exact hq
  · exact fun h => mem_map_of_mem (mem_payers.mpr ⟨hp, h⟩)

/-- Every pot of a street is a layer. -/
lemma isLayer_layerPot (hids : (s.players.map (·.id)).Nodup)
    (h : pot ∈ s.layerPot s.bettors previous level) (hlevel : previous < level) :
    IsLayer s.players pot := by
  obtain ⟨hpos, hamount, hrecorded, hwho⟩ := layerPot_cases h
  refine ⟨⟨level - previous, by omega, fun id => ?_⟩, ?_, fun id hid p hp hpaid => ?_⟩
  · rw [hrecorded]
    split_ifs <;> simp
  · have hsum : ∀ ps : List PlayerStateInternal, (∀ p ∈ ps, p ∈ s.players) →
        (ps.map fun p => pot.recorded p.id).sum =
          (level - previous) * (ps.filter fun p => 0 < p.bet ∧ level ≤ p.bet).length := by
      intro ps
      induction ps with
      | nil => simp
      | cons p ps ih =>
        intro hsub
        simp only [mem_cons, forall_eq_or_imp] at hsub
        rw [map_cons, sum_cons, ih hsub.2, hrecorded, filter_cons]
        by_cases hpay : 0 < p.bet ∧ level ≤ p.bet
        · rw [if_pos ((mem_map_id_iff hids hsub.1).mpr hpay)]
          simp only [hpay, and_self, decide_true, if_true, length_cons]
          push_cast
          ring
        · rw [if_neg fun hin => hpay ((mem_map_id_iff hids hsub.1).mp hin)]
          simp [hpay]
    have hpayers : payers s level = s.players.filter fun p => 0 < p.bet ∧ level ≤ p.bet := by
      rw [payers, bettors, filter_filter]
      refine filter_congr fun p _ => ?_
      simp [and_comm]
    rw [hamount, hsum s.players fun _ hp => hp, hpayers]
  · rw [hrecorded] at hpaid
    have hpin : p.id ∈ (payers s level).map (·.id) := by
      by_contra hnot
      exact hpaid (if_neg hnot)
    rcases hwho with hfolded | hcontenders
    · exact hfolded p (mem_payers.mpr ⟨hp, (mem_map_id_iff hids hp).mp hpin⟩)
    · have hzero := hid.2
      rw [hrecorded, if_pos (hcontenders id hid.1)] at hzero
      omega

/-- A layer as a list of pots, with what it records for one player. -/
lemma sum_recorded_layerPot (hids : (s.players.map (·.id)).Nodup) {p : PlayerStateInternal}
    (hp : p ∈ s.players) (hprevious : 0 ≤ previous) (hlevel : previous < level) :
    ((s.layerPot s.bettors previous level).map (·.recorded p.id)).sum =
      (level - previous) * [p.bet].countP (level ≤ ·) := by
  have hpays : p.id ∈ (payers s level).map (·.id) ↔ level ≤ p.bet := by
    rw [mem_map_id_iff hids hp]
    omega
  have hcount : ([p.bet].countP (level ≤ ·) : ℤ) = if level ≤ p.bet then 1 else 0 := by
    by_cases h : level ≤ p.bet <;> simp [h]
  cases hpots : s.layerPot s.bettors previous level with
  | nil =>
    have hnone : ¬ level ≤ p.bet := by
      intro hle
      have hpayer := mem_payers.mpr ⟨hp, by omega, hle⟩
      have hpos : 0 < (level - previous) * ((payers s level).length : ℤ) :=
        mul_pos (by omega) (by exact_mod_cast length_pos_of_mem hpayer)
      unfold payers at hpos
      unfold layerPot at hpots
      dsimp only at hpots
      rw [if_pos hpos] at hpots
      split_ifs at hpots
    simp [hnone]
  | cons pot pots =>
    have hone : pots = [] := by
      unfold layerPot at hpots
      dsimp only at hpots
      split_ifs at hpots <;> simp_all
    have hrecorded := (layerPot_cases (hpots ▸ mem_cons_self)).2.2.1 p.id
    rw [hone, map_singleton, sum_singleton, hrecorded, hcount]
    by_cases h : level ≤ p.bet
    · rw [if_pos (hpays.mpr h), if_pos h, mul_one]
    · rw [if_neg fun hin => h (hpays.mp hin), if_neg h, mul_zero]

/-- The pots of a street record the bets of the street. -/
lemma sum_recorded_street (hids : (s.players.map (·.id)).Nodup)
    (hbets : ∀ p ∈ s.players, 0 ≤ p.bet) {p : PlayerStateInternal} (hp : p ∈ s.players) :
    (s.streetPots.map (·.recorded p.id)).sum = p.bet := by
  have hlayers : ∀ (previous : ℤ) (levels : List ℤ), 0 ≤ previous →
      (previous :: levels).Pairwise (· < ·) →
      ((s.layerPots s.bettors previous levels).map (·.recorded p.id)).sum =
        (layers [p.bet] previous levels).sum := by
    intro previous levels
    induction levels generalizing previous with
    | nil => exact fun _ _ => rfl
    | cons level levels ih =>
      intro hprevious h
      rw [pairwise_cons] at h
      have hlevel := h.1 level mem_cons_self
      rw [layerPots, map_append, sum_append, sum_recorded_layerPot hids hp hprevious hlevel,
        ih level (by omega) h.2, layers_cons, sum_cons]
  have hlevel : p.bet ≤ 0 ∨ p.bet ∈ s.levels := by
    by_cases hpos : 0 < p.bet
    · refine Or.inr ?_
      simp only [levels, mem_insertionSort, mem_dedup]
      exact mem_map_of_mem (mem_filter.mpr ⟨hp, by simpa using hpos⟩)
    · exact Or.inl (by omega)
  rw [streetPots, hlayers 0 s.levels le_rfl s.pairwise_levels,
    sum_layers s.pairwise_levels (by simpa using hlevel)]
  have := hbets p hp
  simpa using this

end Layer

/-! ### Records through the hand -/

lemma Stakes.initial_of_fresh {s : GameStateInternal} (hpots : s.sidePots = [])
    (hbets : ∀ p ∈ s.players, p.bet = 0) :
    Stakes (s.players.map fun p => (p.id, p.stack)) s where
  brought := by
    refine map_congr_left fun p hp => ?_
    simp [recordedTotal, hpots, hbets p hp]
  layers := by simp [hpots]

lemma IsLayer.of_roster {players players' : List PlayerStateInternal} {pot : SidePot}
    (h : IsLayer players pot) (hids : players'.map (·.id) = players.map (·.id))
    (hfolded : ∀ p' ∈ players', ∃ p ∈ players, p'.id = p.id ∧
      (p.folded = true → p'.folded = true)) : IsLayer players' pot where
  height := h.height
  amount := by
    have hsum := congrArg (map fun id => pot.recorded id) hids
    rw [map_map, map_map] at hsum
    exact h.amount.trans (congrArg sum hsum.symm)
  matched id hid p' hp' hpaid := by
    obtain ⟨p, hp, heq, hkeep⟩ := hfolded p' hp'
    exact hkeep (h.matched id hid p hp (heq ▸ hpaid))

/-- What the records read of a player. -/
def stake (p : PlayerStateInternal) : PlayerId × Bool × ℤ :=
  (p.id, p.folded, p.stack + p.bet)

lemma Stakes.of_stake {b : List (PlayerId × ℤ)} {s s' : GameStateInternal} (h : Stakes b s)
    (hplayers : s'.players.map stake = s.players.map stake) (hpots : s'.sidePots = s.sidePots) :
    Stakes b s' := by
  have hids : s'.players.map (·.id) = s.players.map (·.id) := by
    simpa [stake, Function.comp_def] using congrArg (map fun e : PlayerId × Bool × ℤ => e.1) hplayers
  refine ⟨?_, fun pot hpot => ?_⟩
  · have hmap := congrArg
      (map fun e : PlayerId × Bool × ℤ => (e.1, e.2.2 + s.recordedTotal e.1)) hplayers
    rw [map_map, map_map] at hmap
    rw [← h.brought]
    simpa [GameStateInternal.brought, recordedTotal, hpots, stake, Function.comp_def] using hmap
  · rw [hpots] at hpot
    refine (h.layers pot hpot).of_roster hids fun p' hp' => ?_
    have hmem : stake p' ∈ s.players.map stake := hplayers ▸ mem_map_of_mem hp'
    obtain ⟨p, hp, heq⟩ := mem_map.mp hmem
    simp only [stake, Prod.mk.injEq] at heq
    exact ⟨p, hp, heq.1.symm, fun hf => heq.2.1 ▸ hf⟩

lemma Stakes.fold {b : List (PlayerId × ℤ)} {s : GameStateInternal} (h : Stakes b s)
    (id : PlayerId) : Stakes b (s.updatePlayer id (·.fold)) where
  brought := (map_updateFirst_of_eq _ (by intro; rfl) _).trans h.brought
  layers pot hpot := by
    refine (h.layers pot hpot).of_roster (map_updateFirst_of_eq _ (by intro; rfl) _)
      fun p' hp' => ?_
    rcases mem_updateFirst hp' with hp' | ⟨p, hp, _, rfl⟩
    · exact ⟨p', hp', rfl, fun hf => hf⟩
    · exact ⟨p, hp, rfl, fun _ => rfl⟩

/-- Sweeping moves the bets into the records. -/
lemma Stakes.sweep {b : List (PlayerId × ℤ)} {s : GameStateInternal} (h : Stakes b s)
    (hids : (s.players.map (·.id)).Nodup) (hbets : ∀ p ∈ s.players, 0 ≤ p.bet)
    (phase : HandPhase) (street : Street) :
    Stakes b { s.finishBettingRound with phase := phase, street := street } := by
  rw [finishBettingRound_eq hbets]
  constructor
  · rw [← h.brought]
    simp only [GameStateInternal.brought, map_map]
    refine map_congr_left fun p hp => ?_
    have hstreet := sum_recorded_street hids hbets hp
    simp only [Function.comp, recordedTotal, map_append, sum_append, hstreet, Prod.mk.injEq,
      true_and]
    omega
  · have hkeep : ∀ pot, IsLayer s.players pot →
        IsLayer (s.players.map fun p => { p with bet := 0 }) pot := by
      intro pot hlayer
      refine hlayer.of_roster (by simp) fun p' hp' => ?_
      obtain ⟨p, hp, rfl⟩ := mem_map.mp hp'
      exact ⟨p, hp, rfl, fun hf => hf⟩
    intro pot hpot
    rcases mem_append.mp hpot with hpot | hpot
    · exact hkeep pot (h.layers pot hpot)
    · obtain ⟨previous, level, hlt, hpot⟩ := mem_layerPots s.pairwise_levels hpot
      exact hkeep pot (isLayer_layerPot hids hpot hlt)

lemma Stakes.closeIfAlone {b : List (PlayerId × ℤ)} {s : GameStateInternal} (h : Stakes b s)
    (hids : (s.players.map (·.id)).Nodup) (hbets : ∀ p ∈ s.players, 0 ≤ p.bet) :
    Stakes b s.closeIfAlone := by
  rw [closeIfAlone_eq]
  split
  · exact h.sweep hids hbets .showdown s.finishBettingRound.street
  · exact h

lemma Stakes.addBet {b : List (PlayerId × ℤ)} {s : GameStateInternal} (h : Stakes b s)
    (p : PlayerStateInternal) (amount : ℤ) : Stakes b (s.addBet p amount) := by
  refine h.of_stake (map_updateFirst_of_eq _ (fun q => ?_) _) rfl
  simp only [stake, PlayerStateInternal.commit, Prod.mk.injEq, true_and]
  omega

/-- Until the showdown every accepted action keeps the records. -/
theorem Stakes.step {ids : List PlayerId} {b : List (PlayerId × ℤ)} {shuffle : Shuffle}
    {a : GameAction} {m m' : HandStateMachine} (hids : ids.Nodup) (hseated : Seated ids m.state)
    (hs : Accounts m.state) (h : Stakes b m.state)
    (hphase : m.state.phase ≠ .showdown ∧ m.state.phase ≠ .settle)
    (hstep : Step shuffle m a m') : Stakes b m'.state ∧ m'.state.phase ≠ .settle := by
  have hnodup : ∀ {s : GameStateInternal}, s.roster = m.state.roster →
      (s.players.map (·.id)).Nodup := by
    intro s hs
    rw [map_id_eq, hs, hseated.ids]
    exact hids
  have hopen : ∀ {s : GameStateInternal}, s.phase = .bettingRound →
      s.closeIfAlone.phase ≠ .settle := by
    intro s hs
    rw [closeIfAlone_phase, hs]
    split <;> simp
  cases hstep with
  | postBlind id amount p hwait hp => exact ⟨h.addBet p amount, hphase.2⟩
  | lastBlind id amount p hwait hp =>
    exact ⟨(h.addBet p amount).of_stake (map_dealHoleCards _ (fun _ _ => rfl) _ _) rfl,
      by simp [startHand]⟩
  | deal => split <;> exact ⟨h.of_stake rfl rfl, by simp⟩
  | chips id amount p hround ha hp hpos hle =>
    rw [← find_id hp] at hp
    have haccounts := hs.addBet hp hpos hle hphase
    exact ⟨(h.addBet p amount).closeIfAlone (hnodup (roster_addBet _ _ _)) haccounts.bet_nonneg,
      hopen hround⟩
  | check id hround => exact ⟨h.closeIfAlone (hnodup rfl) hs.bet_nonneg, hopen hround⟩
  | fold id p hround hp =>
    have hsame : ((m.state.updatePlayer p.id (·.fold)).players.map (·.id)).Nodup := by
      have hmap : (m.state.updatePlayer p.id (·.fold)).players.map (·.id) =
          m.state.players.map (·.id) := map_updateFirst_of_eq _ (by intro; rfl) _
      rw [hmap]
      exact hnodup rfl
    exact ⟨(h.fold p.id).closeIfAlone hsame (hs.fold p.id hphase).bet_nonneg, hopen hround⟩
  | next hround =>
    unfold closeStreet
    dsimp only
    split
    · exact ⟨h.sweep (hnodup rfl) hs.bet_nonneg _ _, by simp⟩
    · exact ⟨h.sweep (hnodup rfl) hs.bet_nonneg _ _, by simp⟩
  | showdown hshow => exact absurd hshow hphase.1
  | settle hsettle => exact absurd hsettle hphase.2

/-! ### Fresh hands -/

/-- Before the first blind of a hand nothing is bet. -/
structure Fresh (m : HandStateMachine) : Prop where
  pots : m.state.phase = .waitBlinds ∨ m.state.phase = .nextHand → m.state.sidePots = []
  bets : m.state.phase = .waitBlinds ∨ m.state.phase = .nextHand → m.blindsPosted = ∅ →
    ∀ p ∈ m.state.players, p.bet = 0

lemma Fresh.of_phase {m : HandStateMachine}
    (h : ¬ (m.state.phase = .waitBlinds ∨ m.state.phase = .nextHand)) : Fresh m :=
  ⟨fun hw => absurd hw h, fun hw => absurd hw h⟩

theorem fresh_of_reachable {ids : List PlayerId} {startingStack : ℕ} {m : HandStateMachine}
    (h : (machineSteps ids startingStack).Reachable m) : Fresh m := by
  have hopen : ∀ {s : GameStateInternal}, s.phase = .bettingRound →
      ¬ (s.closeIfAlone.phase = .waitBlinds ∨ s.closeIfAlone.phase = .nextHand) := by
    intro s hs
    rw [closeIfAlone_phase, hs]
    split <;> simp
  refine h.invariant (I := Fresh) ?_ ?_
  · rintro _ rfl
    exact ⟨by simp [HandStateMachine.initial], by simp [HandStateMachine.initial]⟩
  · rintro m ⟨shuffle, a⟩ m' hi hstep
    cases hstep with
    | postBlind id amount p hphase =>
      exact ⟨fun _ => hi.pots hphase, fun _ hnone => absurd hnone (Finset.insert_ne_empty _ _)⟩
    | lastBlind => exact .of_phase (by simp [startHand])
    | deal => exact .of_phase (by simp)
    | chips id amount p hphase => exact .of_phase (hopen hphase)
    | check id hphase => exact .of_phase (hopen hphase)
    | fold id p hphase => exact .of_phase (hopen hphase)
    | next =>
      refine .of_phase ?_
      rcases closeStreet_phase_eq m.state with hc | hc <;> simp [hc]
    | showdown => exact .of_phase (by simp)
    | settle =>
      exact ⟨by simp [resetHand], by simp [resetHand, PlayerStateInternal.reset]⟩

/-! ### Payments -/

lemma id_mem_of_isWinner {board : List ℕ} {players : List PlayerStateInternal} {pot : SidePot}
    {p : PlayerStateInternal} (h : isWinner board players pot p = true) : p.id ∈ pot.players := by
  simp only [isWinner, isContender, Bool.and_eq_true] at h
  simpa using h.1.2

/-- A share and the odd chips together are no more than the pot. -/
lemma share_bounds {amount : ℤ} {n : ℕ} (hamount : 0 ≤ amount) (hn : 0 < n) :
    0 ≤ amount / n ∧ amount / n ≤ amount ∧ amount / n + (amount - amount / n * n) ≤ amount := by
  have hnonneg : 0 ≤ amount / (n : ℤ) := Int.ediv_nonneg hamount (by omega)
  have hfloor : amount / (n : ℤ) * n ≤ amount := Int.ediv_mul_le amount (by omega)
  have hone : amount / (n : ℤ) * 1 ≤ amount / (n : ℤ) * n :=
    mul_le_mul_of_nonneg_left (by omega) hnonneg
  omega

lemma mem_payShares {board : List ℕ} {players : List PlayerStateInternal} {pot : SidePot}
    (hamount : 0 ≤ pot.amount) {p' : PlayerStateInternal}
    (hp' : p' ∈ payShares board players pot
      (pot.amount / players.countP (isWinner board players pot))) :
    ∃ p ∈ players, p'.id = p.id ∧
      p'.stack ≤ p.stack + if p.id ∈ pot.players then pot.amount else 0 := by
  obtain ⟨p, hp, rfl⟩ := mem_map.mp hp'
  by_cases hwin : isWinner board players pot p = true
  · have hbounds := share_bounds hamount (countP_pos_iff.mpr ⟨p, hp, hwin⟩)
    refine ⟨p, hp, by rw [if_pos hwin], ?_⟩
    rw [if_pos hwin, if_pos (id_mem_of_isWinner hwin)]
    dsimp only
    omega
  · refine ⟨p, hp, by rw [if_neg hwin], ?_⟩
    rw [if_neg hwin]
    split_ifs <;> omega

/-- Nobody is paid more than the pot, and only those who may win it are paid. -/
lemma mem_payPot {board : List ℕ} {players : List PlayerStateInternal} {pot : SidePot}
    (hamount : 0 ≤ pot.amount) {p' : PlayerStateInternal}
    (hp' : p' ∈ payPot board players pot) :
    ∃ p ∈ players, p'.id = p.id ∧
      p'.stack ≤ p.stack + if p.id ∈ pot.players then pot.amount else 0 := by
  unfold payPot at hp'
  simp only [length_winners] at hp'
  split_ifs at hp' with hnone hpos
  · exact ⟨p', hp', rfl, by split_ifs <;> omega⟩
  · rcases mem_updateFirst hp' with hp' | ⟨q, hq, hwinner, rfl⟩
    · exact mem_payShares hamount hp'
    · obtain ⟨p, hp, rfl⟩ := mem_map.mp hq
      have hwin : isWinner board players pot p = true := by
        split_ifs at hwinner <;> exact hwinner
      have hbounds := share_bounds hamount (countP_pos_iff.mpr ⟨p, hp, hwin⟩)
      refine ⟨p, hp, by split_ifs <;> rfl, ?_⟩
      -- the first winner takes the odd chips
      have hshare : ∀ share : ℤ, (if isWinner board players pot p then
          { p with stack := p.stack + share } else p).stack = p.stack + share := by
        intro share
        rw [if_pos hwin]
      rw [if_pos (id_mem_of_isWinner hwin)]
      change (if isWinner board players pot p then _ else p).stack + _ ≤ _
      rw [hshare]
      omega
  · exact mem_payShares hamount hp'

lemma mem_foldl_payPot {board : List ℕ} {pots : List SidePot} {players : List PlayerStateInternal}
    (hamount : ∀ pot ∈ pots, 0 ≤ pot.amount) {p' : PlayerStateInternal}
    (hp' : p' ∈ pots.foldl (payPot board) players) :
    ∃ p ∈ players, p'.id = p.id ∧
      p'.stack ≤ p.stack +
        (pots.map fun pot => if p.id ∈ pot.players then pot.amount else 0).sum := by
  induction pots generalizing players with
  | nil => exact ⟨p', hp', rfl, by simp⟩
  | cons pot pots ih =>
    simp only [mem_cons, forall_eq_or_imp] at hamount
    obtain ⟨q, hq, hid, hle⟩ := ih hamount.2 hp'
    obtain ⟨p, hp, hqid, hqle⟩ := mem_payPot hamount.1 hq
    refine ⟨p, hp, hid.trans hqid, ?_⟩
    rw [map_cons, sum_cons]
    rw [hqid] at hle
    omega

/-! ### The bound -/

section Bound

variable {players : List PlayerStateInternal} {pots : List SidePot}

lemma IsLayer.recorded_nonneg {pot : SidePot} (h : IsLayer players pot) (id : PlayerId) :
    0 ≤ pot.recorded id := by
  obtain ⟨height, hpos, hrecorded⟩ := h.height
  rcases hrecorded id with hid | hid <;> omega

/-- In a layer that he has paid into, nobody has paid more than he. -/
lemma IsLayer.recorded_le {pot : SidePot} (h : IsLayer players pot) {id : PlayerId}
    (hid : pot.recorded id ≠ 0) (j : PlayerId) : pot.recorded j ≤ pot.recorded id := by
  obtain ⟨height, hpos, hrecorded⟩ := h.height
  rcases hrecorded id with hid' | hid'
  · exact absurd hid' hid
  · rcases hrecorded j with hj | hj <;> omega

/-- What a player may be paid from a layer: what he matched, unless it was re-assigned to him. -/
lemma IsLayer.payment_le {pot : SidePot} (h : IsLayer players pot) (id : PlayerId) :
    (if id ∈ pot.players then pot.amount else 0) ≤
      (players.map fun p => min (pot.recorded id) (pot.recorded p.id)).sum +
        if Reassigned id pot then pot.amount else 0 := by
  by_cases hzero : pot.recorded id = 0
  · have hmatched : players.map (fun p => min (pot.recorded id) (pot.recorded p.id)) =
        players.map fun _ => 0 := by
      refine map_congr_left fun p _ => ?_
      rw [hzero]
      exact min_eq_left (h.recorded_nonneg p.id)
    rw [hmatched]
    simp [Reassigned, hzero]
  · have hmatched : players.map (fun p => min (pot.recorded id) (pot.recorded p.id)) =
        players.map fun p => pot.recorded p.id :=
      map_congr_left fun p _ => min_eq_right (h.recorded_le hzero p.id)
    have hamount : 0 ≤ pot.amount := by
      rw [h.amount]
      refine List.sum_nonneg fun x hx => ?_
      obtain ⟨p, _, rfl⟩ := mem_map.mp hx
      exact h.recorded_nonneg p.id
    rw [hmatched, ← h.amount]
    split_ifs <;> omega

/-- The payments from all the layers. -/
lemma payments_le (h : ∀ pot ∈ pots, IsLayer players pot) (id : PlayerId) :
    (pots.map fun pot => if id ∈ pot.players then pot.amount else 0).sum ≤
      (players.map fun p =>
        min (pots.map (·.recorded id)).sum (pots.map (·.recorded p.id)).sum).sum +
        ((pots.filter (Reassigned id)).map (·.amount)).sum := by
  induction pots with
  | nil => simp
  | cons pot pots ih =>
    simp only [mem_cons, forall_eq_or_imp] at h
    have hpot := h.1.payment_le id
    have hrest := ih h.2
    have hmatch := sum_min_add_le players (fun p => pot.recorded p.id)
      (fun p => (pots.map (·.recorded p.id)).sum) (pot.recorded id)
      (pots.map (·.recorded id)).sum
    have hfilter : (((pot :: pots).filter (Reassigned id)).map (·.amount)).sum =
        (if Reassigned id pot then pot.amount else 0) +
          ((pots.filter (Reassigned id)).map (·.amount)).sum := by
      rw [filter_cons]
      by_cases hre : Reassigned id pot <;> simp [hre]
    rw [hfilter]
    simp only [map_cons, sum_cons]
    linarith

end Bound

/-! ### The hand -/

/-- An accepted action of a hand that is not shown down; `applyAction` makes the same moves and
settles at once (`applyAction_cases`). -/
def HandMove (m m' : HandStateMachine) : Prop :=
  m.state.phase ≠ .showdown ∧ ∃ shuffle a, (apply shuffle a).run m = .ok () m'

/-- What a player has put into the hand that began with the machine `m₀`. -/
def contribution (m₀ m : HandStateMachine) (id : PlayerId) : ℤ :=
  m₀.state.stackOf id - m.state.stackOf id

/-- What the settlement from `m` to `m'` has credited to a player. -/
def credited (m m' : HandStateMachine) (id : PlayerId) : ℤ :=
  m'.state.stackOf id - m.state.stackOf id

lemma stackOf_eq {s : GameStateInternal} (hids : (s.players.map (·.id)).Nodup)
    {p : PlayerStateInternal} (hp : p ∈ s.players) : s.stackOf p.id = p.stack := by
  have hsome : (s.players.find? fun q => q.id == p.id).isSome := by
    rw [find?_isSome]
    exact ⟨p, hp, by simp⟩
  obtain ⟨q, hq⟩ := Option.isSome_iff_exists.mp hsome
  obtain rfl := inj_on_of_nodup_map hids (mem_of_find?_eq_some hq) hp (find_id hq)
  rw [stackOf, hq]
  rfl

/-- The records of a hand hold until it is settled. -/
lemma stakes_of_moves {ids : List PlayerId} {startingStack : ℕ} {m₀ m : HandStateMachine}
    (hids : ids.Nodup) (hlen : 2 ≤ ids.length)
    (hreach : (machineSteps ids startingStack).Reachable m₀)
    (hfresh : m₀.state.phase = .waitBlinds ∨ m₀.state.phase = .nextHand)
    (hblinds : m₀.blindsPosted = ∅) (hand : Relation.ReflTransGen HandMove m₀ m) :
    (machineSteps ids startingStack).Reachable m ∧
      Stakes (m₀.state.players.map fun p => (p.id, p.stack)) m.state ∧
      m.state.phase ≠ .settle := by
  induction hand with
  | refl =>
    have h := fresh_of_reachable hreach
    refine ⟨hreach, .initial_of_fresh (h.pots hfresh) (h.bets hfresh hblinds), ?_⟩
    rcases hfresh with hfresh | hfresh <;> simp [hfresh]
  | tail _ hmove ih =>
    obtain ⟨hshow, shuffle, a, hrun⟩ := hmove
    obtain ⟨hreach, hstakes, hsettle⟩ := ih
    have hstep := Step.of_apply hrun
    exact ⟨hreach.tail (a := (shuffle, a)) hstep,
      hstakes.step hids (seated_of_reachable hlen hreach) (accounts_of_reachable hlen hreach)
        ⟨hshow, hsettle⟩ hstep⟩

/-- At the showdown a player's contribution is what the pots record of him. -/
lemma Stakes.contribution_eq {m₀ m : HandStateMachine}
    (h : Stakes (m₀.state.players.map fun p => (p.id, p.stack)) m.state)
    (hids₀ : (m₀.state.players.map (·.id)).Nodup) (hids : (m.state.players.map (·.id)).Nodup)
    (hswept : ∀ p ∈ m.state.players, p.bet = 0) {p : PlayerStateInternal}
    (hp : p ∈ m.state.players) : contribution m₀ m p.id = m.state.recordedTotal p.id := by
  have hmem : (p.id, p.stack + p.bet + m.state.recordedTotal p.id) ∈
      m₀.state.players.map fun p => (p.id, p.stack) := by
    rw [← h.brought]
    exact mem_map_of_mem hp
  obtain ⟨p₀, hp₀, heq⟩ := mem_map.mp hmem
  simp only [Prod.mk.injEq] at heq
  have hstack₀ := stackOf_eq hids₀ hp₀
  have hbet := hswept p hp
  rw [contribution, stackOf_eq hids hp, ← heq.1, hstack₀, heq.1]
  omega

/-- What a player is paid from the side pots, or from the pot that there is without them. -/
lemma payment_potsToPay_le {s : GameStateInternal} (h : Accounts s)
    (hswept : ∀ p ∈ s.players, p.bet = 0) (hlayers : ∀ pot ∈ s.sidePots, IsLayer s.players pot)
    (id : PlayerId) :
    (s.potsToPay.map fun pot => if id ∈ pot.players then pot.amount else 0).sum ≤
      (s.players.map fun p => min (s.recordedTotal id) (s.recordedTotal p.id)).sum +
        ((s.sidePots.filter (Reassigned id)).map (·.amount)).sum := by
  by_cases hpots : s.sidePots = []
  · have hnone : s.pot = 0 := by
      rw [h.split, liveBets_eq_zero hswept, sidePotTotal, hpots]
      rfl
    rw [potsToPay, hpots, if_neg (by simp), map_singleton, sum_singleton, hnone]
    simp [recordedTotal, hpots]
  · rw [potsToPay, if_pos (length_pos_of_ne_nil hpots)]
    exact payments_le hlayers id

/-- What the settlement pays a player. -/
lemma stackOf_settlePots_le {s : GameStateInternal} (h : Accounts s)
    (hactive : 1 ≤ s.activePlayers.length) (hswept : ∀ p ∈ s.players, p.bet = 0)
    (hids : (s.players.map (·.id)).Nodup) {id : PlayerId} (hid : id ∈ s.players.map (·.id)) :
    s.settlePots.stackOf id ≤ s.stackOf id +
      (s.potsToPay.map fun pot => if id ∈ pot.players then pot.amount else 0).sum := by
  have hsame : s.settlePots.players.map (·.id) = s.players.map (·.id) :=
    map_settlePots _ (fun _ _ => rfl) s
  obtain ⟨p', hp', rfl⟩ := mem_map.mp (hsame ▸ hid)
  have hpaid : p' ∈ s.potsToPay.foldl (payPot s.communityCards) s.players := by
    rw [settlePots_eq hactive] at hp'
    exact hp'
  obtain ⟨p, hp, hpid, hle⟩ := mem_foldl_payPot (h.potsToPay_nonneg hswept) hpaid
  rw [stackOf_eq (hsame ▸ hids) hp', hpid, stackOf_eq hids hp]
  exact hle

/-- In the settlement of a hand a player is credited no more than he has matched, and the layers
that were re-assigned to him; a layer that he may win is matched by him, or everybody who has paid
into it has folded. -/
theorem table_stakes {ids : List PlayerId} {startingStack : ℕ} {m₀ m m' : HandStateMachine}
    {shuffle : Shuffle} {id : PlayerId} (hids : ids.Nodup) (hlen : 2 ≤ ids.length)
    (hreach : (machineCalls ids startingStack).Reachable m₀)
    (hfresh : m₀.state.phase = .waitBlinds ∨ m₀.state.phase = .nextHand)
    (hblinds : m₀.blindsPosted = ∅) (hand : Relation.ReflTransGen HandMove m₀ m)
    (hphase : m.state.phase = .showdown)
    (hsettle : (apply shuffle .next).run m = .ok () m') (hid : id ∈ ids) :
    credited m m' id ≤
        (ids.map fun j => min (contribution m₀ m id) (contribution m₀ m j)).sum +
          ((m.state.sidePots.filter (Reassigned id)).map (·.amount)).sum ∧
      ∀ pot ∈ m.state.sidePots, id ∈ pot.players →
        (∀ j, pot.recorded j ≤ pot.recorded id) ∨
          ∀ p ∈ m.state.players, pot.recorded p.id ≠ 0 → p.folded = true := by
  have hsteps := reachable_steps hlen hreach
  obtain ⟨hreach', hstakes, _⟩ := stakes_of_moves hids hlen hsteps hfresh hblinds hand
  have hseated := seated_of_reachable hlen hreach'
  have haccounts := accounts_of_reachable hlen hreach'
  have hswept := haccounts.swept (Or.inl hphase)
  have hroster : m.state.players.map (·.id) = ids := by rw [map_id_eq, hseated.ids]
  have hnodup : (m.state.players.map (·.id)).Nodup := hroster ▸ hids
  have hnodup₀ : (m₀.state.players.map (·.id)).Nodup := by
    rw [map_id_eq, (seated_of_reachable hlen hsteps).ids]
    exact hids
  have hcontribution : ∀ j ∈ ids, contribution m₀ m j = m.state.recordedTotal j := by
    intro j hj
    rw [← hroster] at hj
    obtain ⟨p, hp, rfl⟩ := mem_map.mp hj
    exact hstakes.contribution_eq hnodup₀ hnodup hswept hp
  constructor
  · -- the contributions are records, and the records bound the payments
    have hmatch : (ids.map fun j => min (contribution m₀ m id) (contribution m₀ m j)).sum =
        (m.state.players.map fun p =>
          min (m.state.recordedTotal id) (m.state.recordedTotal p.id)).sum := by
      rw [map_congr_left fun j hj => by rw [hcontribution id hid, hcontribution j hj], ← hroster,
        map_map]
      rfl
    have hactive := hseated.active
    rw [hphase] at hactive
    have hpaid := stackOf_settlePots_le haccounts hactive hswept hnodup (hroster.symm ▸ hid)
    have hpayments := payment_potsToPay_le haccounts hswept hstakes.layers id
    rw [run_apply_showdown shuffle hphase] at hsettle
    cases hsettle
    rw [hmatch, credited]
    change m.state.settlePots.stackOf id - m.state.stackOf id ≤ _
    omega
  · intro pot hpot hin
    have hlayer := hstakes.layers pot hpot
    by_cases hzero : pot.recorded id = 0
    · exact Or.inr (hlayer.matched id ⟨hin, hzero⟩)
    · exact Or.inl (hlayer.recorded_le hzero)

/-- A hand played until its showdown, if every action is accepted. -/
def playHand (shuffle : Shuffle) : List GameAction → HandStateMachine → Option HandStateMachine
  | [], m => some m
  | a :: actions, m =>
    if m.state.phase = .showdown then none
    else
      match (apply shuffle a).run m with
      | .ok _ m' => playHand shuffle actions m'
      | .error _ _ => none

lemma moves_playHand {shuffle : Shuffle} {actions : List GameAction} {m m' : HandStateMachine}
    (h : playHand shuffle actions m = some m') : Relation.ReflTransGen HandMove m m' := by
  induction actions generalizing m with
  | nil =>
    cases h
    exact .refl
  | cons a actions ih =>
    rw [playHand] at h
    split_ifs at h with hphase
    cases hrun : (apply shuffle a).run m with
    | ok u m₁ =>
      rw [hrun] at h
      exact .head ⟨hphase, shuffle, a, hrun⟩ (ih h)
    | error e m₁ =>
      rw [hrun] at h
      cases h

/-- The big blind folds to the small blind. -/
def bigBlindFolds : HandStateMachine :=
  (playHand (·.map some) [.postBlind "p1" 1, .postBlind "p2" 2, .next, .fold "p2"]
    (HandStateMachine.initial ["p1", "p2"] 100)).getD (HandStateMachine.initial [] 0)

lemma playHand_bigBlindFolds :
    playHand (·.map some) [.postBlind "p1" 1, .postBlind "p2" 2, .next, .fold "p2"]
      (HandStateMachine.initial ["p1", "p2"] 100) = some bigBlindFolds := by
  decide +kernel

/-- The small blind is credited his match of 2 and the re-assigned layer of 1. -/
theorem table_stakes_bigBlindFolds :
    credited bigBlindFolds
      { bigBlindFolds with
        state := { bigBlindFolds.state.settlePots with phase := .settle } } "p1" ≤ 3 := by
  have hphase : bigBlindFolds.state.phase = .showdown := by decide +kernel
  refine (table_stakes (by decide) (by decide) (.of_init rfl) (Or.inl rfl) rfl
    (moves_playHand playHand_bigBlindFolds) hphase (run_apply_showdown (·.map some) hphase)
    (by decide : "p1" ∈ ["p1", "p2"])).1.trans ?_
  decide +kernel

/-- The small blind has matched 2 and is credited 3. -/
theorem unmatched_blind_collected :
    ¬ ∀ (ids : List PlayerId) (startingStack : ℕ) (m₀ m m' : HandStateMachine)
      (shuffle : Shuffle) (id : PlayerId), ids.Nodup → 2 ≤ ids.length →
      (machineCalls ids startingStack).Reachable m₀ →
      (m₀.state.phase = .waitBlinds ∨ m₀.state.phase = .nextHand) → m₀.blindsPosted = ∅ →
      Relation.ReflTransGen HandMove m₀ m → m.state.phase = .showdown →
      (apply shuffle .next).run m = .ok () m' → id ∈ ids →
      credited m m' id ≤
        (ids.map fun j => min (contribution m₀ m id) (contribution m₀ m j)).sum := by
  intro h
  have hphase : bigBlindFolds.state.phase = .showdown := by decide +kernel
  have hcredited := h ["p1", "p2"] 100 _ _ _ _ "p1" (by decide) (by decide) (.of_init rfl)
    (Or.inl rfl) rfl (moves_playHand playHand_bigBlindFolds) hphase
    (run_apply_showdown (·.map some) hphase) (by decide)
  revert hcredited
  decide +kernel

end Pokerhub
