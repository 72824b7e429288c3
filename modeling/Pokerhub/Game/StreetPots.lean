import Mathlib.Data.List.Forall2
import Pokerhub.Game.TableStakes

/-!
# The pots of a street

`finishBettingRound` appends one pot for every level of the bets. The contributions of a pot are
an object keyed by player id, so they add up to the pot as long as everybody has an id of his own
(`finishBettingRound_pots`).
-/

namespace Pokerhub

open GameStateInternal List

/-! ### The object that the assignments leave -/

/-- `o[key] = value`. A number assigned to `__proto__` is ignored. -/
def setEntry (o : List (PlayerId × ℤ)) (e : PlayerId × ℤ) : List (PlayerId × ℤ) :=
  if e.1 = "__proto__" then o
  else if (o.map (·.1)).contains e.1 then o.map fun d => if d.1 = e.1 then e else d
  else o ++ [e]

/-- The entries of `contributions` after its assignments. -/
def SidePot.entries (pot : SidePot) : List (PlayerId × ℤ) :=
  pot.contributions.foldl setEntry []

/-- `contributions[id]`, or 0. -/
def SidePot.contributed (pot : SidePot) (id : PlayerId) : ℤ :=
  lookup id pot.entries

/-- Assignments to different names leave one entry each. -/
lemma foldl_setEntry {o es : List (PlayerId × ℤ)} (hnodup : ((o ++ es).map (·.1)).Nodup)
    (hnames : ∀ e ∈ es, e.1 ≠ "__proto__") : es.foldl setEntry o = o ++ es := by
  induction es generalizing o with
  | nil => simp
  | cons e es ih =>
    simp only [mem_cons, forall_eq_or_imp] at hnames
    have hfresh : e.1 ∉ o.map (·.1) := by
      intro hmem
      rw [map_append, nodup_append] at hnodup
      exact hnodup.2.2 _ hmem _ (by simp) rfl
    have hset : setEntry o e = o ++ [e] := by
      rw [setEntry, if_neg hnames.1, if_neg (by simpa using hfresh)]
    rw [foldl_cons, hset, ih (by simpa using hnodup) hnames.2]
    simp

lemma SidePot.entries_eq {pot : SidePot} (hnodup : (pot.contributions.map (·.1)).Nodup)
    (hnames : ∀ e ∈ pot.contributions, e.1 ≠ "__proto__") : pot.entries = pot.contributions :=
  foldl_setEntry hnodup hnames

/-! ### One pot -/

/-- The pot of the bets between a level and the one below it. -/
structure PotOfLevel (s : GameStateInternal) (level : ℤ) (pot : SidePot) : Prop where
  complete : pot.amount = (pot.entries.map (·.2)).sum
  contributors : ∀ p ∈ s.players, 0 < pot.contributed p.id ↔ level ≤ p.bet
  eligible : (∃ p ∈ s.players, p.folded = false ∧ 0 < pot.contributed p.id) →
    pot.players = (s.players.filter fun p => !p.folded && level ≤ p.bet).map (·.id)

section Level

variable {s : GameStateInternal} {previous level : ℤ}

/-- The active players who have not paid a layer. -/
def others (s : GameStateInternal) (level : ℤ) : List PlayerStateInternal :=
  s.activePlayers.filter fun p => !((payers s level).map (·.id)).contains p.id

/-- Who has paid a layer and is still in the hand. -/
def live (s : GameStateInternal) (level : ℤ) : List PlayerStateInternal :=
  (payers s level).filter fun p => !p.folded

/-- A level that somebody's bet reaches has one pot, with its payers on record. It is played for
by those of them who are still in the hand, if there are any. -/
lemma layerPot_of_payers (hlevel : previous < level) (hpayers : payers s level ≠ []) :
    ∃ players l, (l = others s level ∨ l = []) ∧
      (live s level ≠ [] → players = (live s level).map (·.id)) ∧
      s.layerPot s.bettors previous level =
        [⟨(level - previous) * (payers s level).length, players,
          (payers s level).map (fun p => (p.id, level - previous)) ++
            l.map fun p => (p.id, 0)⟩] := by
  have hpos : 0 < (level - previous) *
      ((s.bettors.filter fun p => level ≤ p.bet).length : ℤ) :=
    mul_pos (by omega) (by exact_mod_cast length_pos_iff.mpr hpayers)
  unfold layerPot
  dsimp only
  rw [if_pos hpos]
  by_cases hnone : ((s.bettors.filter fun p => level ≤ p.bet).filter fun p => !p.folded).length = 0
  · refine ⟨(if s.activePlayers.length = 0 then payers s level else s.activePlayers).map (·.id),
      others s level, Or.inl rfl, fun hlive => absurd (length_eq_zero_iff.mp hnone) hlive, ?_⟩
    rw [if_pos hnone, map_map]
    rfl
  · refine ⟨_, [], Or.inr rfl, fun _ => rfl, ?_⟩
    rw [if_neg hnone, map_nil, append_nil]
    rfl

/-- The names under which a layer is recorded are different. -/
lemma nodup_contributions (hids : (s.players.map (·.id)).Nodup) (l : List PlayerStateInternal)
    (hl : l = others s level ∨ l = []) :
    ((payers s level ++ l).map (·.id)).Nodup := by
  have hpayers : ((payers s level).map (·.id)).Nodup :=
    hids.sublist ((filter_sublist.trans filter_sublist).map _)
  rw [map_append]
  rcases hl with rfl | rfl
  · refine hpayers.append (hids.sublist ((filter_sublist.trans filter_sublist).map _)) ?_
    intro id hid hother
    obtain ⟨p, hp, rfl⟩ := mem_map.mp hother
    have hnot := (mem_filter.mp hp).2
    rw [Bool.not_eq_true', contains_eq_mem, decide_eq_false_iff_not] at hnot
    exact hnot hid
  · simpa using hpayers

/-- A level that somebody's bet reaches has exactly one pot, and the right one. -/
lemma exists_potOfLevel (hids : (s.players.map (·.id)).Nodup)
    (hnames : ∀ p ∈ s.players, p.id ≠ "__proto__") (hprevious : 0 ≤ previous)
    (hlevel : previous < level) (hreached : ∃ p ∈ s.players, level ≤ p.bet) :
    ∃ pot, s.layerPot s.bettors previous level = [pot] ∧
      pot.entries = pot.contributions ∧ PotOfLevel s level pot := by
  obtain ⟨q, hq, hqlevel⟩ := hreached
  have hpayers : payers s level ≠ [] :=
    ne_nil_of_mem (mem_payers.mpr ⟨hq, by omega, hqlevel⟩)
  obtain ⟨players, l, hl, hlive, heq⟩ := layerPot_of_payers hlevel hpayers
  refine ⟨_, heq, ?_⟩
  have hplayer : ∀ p ∈ payers s level ++ l, p ∈ s.players := by
    intro p hp
    rcases mem_append.mp hp with hp | hp
    · exact (mem_payers.mp hp).1
    · rcases hl with rfl | rfl
      · exact mem_of_mem_filter (mem_of_mem_filter hp)
      · exact absurd hp not_mem_nil
  generalize hpot : (⟨_, _, _⟩ : SidePot) = pot
  have hentries : pot.entries = pot.contributions := by
    refine SidePot.entries_eq ?_ fun e he => ?_
    · have hnodup := nodup_contributions hids l hl
      rw [map_append] at hnodup
      rw [← hpot, map_append, map_map, map_map]
      exact hnodup
    · rw [← hpot] at he
      rcases mem_append.mp he with he | he
      · obtain ⟨p, hp, rfl⟩ := mem_map.mp he
        exact hnames p (hplayer p (mem_append_left _ hp))
      · obtain ⟨p, hp, rfl⟩ := mem_map.mp he
        exact hnames p (hplayer p (mem_append_right _ hp))
  have hcontributed : ∀ p ∈ s.players, 0 < pot.contributed p.id ↔ level ≤ p.bet := by
    intro p hp
    rw [SidePot.contributed, hentries, ← hpot, lookup_payers]
    have hmem : p.id ∈ (payers s level).map (·.id) ↔ 0 < p.bet ∧ level ≤ p.bet :=
      mem_map_id_iff hids hp
    split_ifs with hin
    · have := hmem.mp hin
      omega
    · have : ¬ (0 < p.bet ∧ level ≤ p.bet) := fun h => hin (hmem.mpr h)
      omega
  refine ⟨hentries, ?_, hcontributed, ?_⟩
  · rw [hentries, ← hpot]
    simp [Function.comp_def, mul_comm]
  · rintro ⟨p, hp, hfolded, hpaid⟩
    have hp' := (hcontributed p hp).mp hpaid
    have hmem : p ∈ live s level :=
      mem_filter.mpr ⟨mem_payers.mpr ⟨hp, by omega, hp'⟩, by simpa using hfolded⟩
    have hsame : live s level = s.players.filter fun p => !p.folded && level ≤ p.bet := by
      rw [live, payers, bettors, filter_filter, filter_filter]
      refine filter_congr fun p _ => ?_
      have hpositive : level ≤ p.bet → 0 < p.bet := by omega
      grind
    rw [← hpot, ← hsame]
    exact hlive (ne_nil_of_mem hmem)

/-- Level by level, the street has its pots. -/
lemma forall₂_potOfLevel (hids : (s.players.map (·.id)).Nodup)
    (hnames : ∀ p ∈ s.players, p.id ≠ "__proto__") {levels : List ℤ} (hprevious : 0 ≤ previous)
    (hlevels : (previous :: levels).Pairwise (· < ·))
    (hreached : ∀ level ∈ levels, ∃ p ∈ s.players, level ≤ p.bet) :
    Forall₂ (fun level pot => pot.entries = pot.contributions ∧ PotOfLevel s level pot) levels
      (s.layerPots s.bettors previous levels) := by
  induction levels generalizing previous with
  | nil => exact .nil
  | cons level levels ih =>
    rw [pairwise_cons] at hlevels
    have hlevel := hlevels.1 level mem_cons_self
    simp only [mem_cons, forall_eq_or_imp] at hreached
    obtain ⟨pot, hpot, hof⟩ := exists_potOfLevel hids hnames hprevious hlevel hreached.1
    rw [layerPots, hpot]
    exact .cons hof (ih (by omega) hlevels.2 hreached.2)

end Level

/-- The end of a street: a pot for each level of the bets, together holding the bets, with
everybody on record for his own; all bets are cleared and nothing else changes. -/
def CollectsBets (s : GameStateInternal) : Prop :=
  ∃ pots, s.finishBettingRound =
      { s with
        sidePots := s.sidePots ++ pots
        players := s.players.map fun p => { p with bet := 0 }
        currentBet := 0 } ∧
    Forall₂ (PotOfLevel s) s.levels pots ∧
    (pots.map (·.amount)).sum = (s.players.map (·.bet)).sum ∧
    ∀ p ∈ s.players, (pots.map (·.contributed p.id)).sum = p.bet

/-- With ids that tell the players apart, the bets of a street are collected as they should be. -/
theorem finishBettingRound_collects {s : GameStateInternal}
    (hids : (s.players.map (·.id)).Nodup) (hnames : ∀ p ∈ s.players, p.id ≠ "__proto__")
    (hbets : ∀ p ∈ s.players, 0 ≤ p.bet) : CollectsBets s := by
  have hreached : ∀ level ∈ s.levels, ∃ p ∈ s.players, level ≤ p.bet := by
    intro level hlevel
    simp only [levels, mem_insertionSort, mem_dedup] at hlevel
    obtain ⟨p, hp, rfl⟩ := mem_map.mp hlevel
    exact ⟨p, mem_of_mem_filter hp, le_rfl⟩
  have hpots := forall₂_potOfLevel hids hnames le_rfl s.pairwise_levels hreached
  have hentries := ((forall₂_and_left _ _).mp hpots.flip).1
  refine ⟨s.streetPots, finishBettingRound_eq hbets, hpots.imp fun _ _ h => h.2,
    sum_street hbets, fun p hp => ?_⟩
  rw [← sum_recorded_street hids hbets hp]
  refine congrArg sum (map_congr_left fun pot hpot => ?_)
  rw [SidePot.contributed, SidePot.recorded, hentries pot hpot]

/-- Before the flop: "a" is all in for 5, "b" has folded after 8, "c" has called 8. -/
def threeBets : GameStateInternal where
  phase := .bettingRound
  street := .preflop
  pot := 21
  sidePots := []
  currentBet := 8
  players := [⟨"a", 0, false, 5, true, none⟩, ⟨"b", 2, true, 8, false, none⟩,
    ⟨"c", 2, false, 8, false, none⟩]
  deck := []
  communityCards := []

theorem finishBettingRound_collects_threeBets :
    CollectsBets threeBets ∧ (threeBets.finishBettingRound.sidePots.map fun pot =>
      (pot.amount, pot.players)) = [(15, ["a", "c"]), (6, ["c"])] :=
  ⟨finishBettingRound_collects (by decide) (by decide) (by decide), by decide +kernel⟩

/-- Two players of one id have one entry in the pot between them. -/
theorem sameIds_lose_entry :
    ¬ ∀ s : GameStateInternal, (∀ p ∈ s.players, 0 ≤ p.bet) → CollectsBets s := by
  intro h
  obtain ⟨pots, hstate, hlevels, -⟩ := h
    { threeBets with players :=
        [⟨"a", 0, false, 5, true, none⟩, ⟨"a", 2, false, 5, false, none⟩] } (by decide)
  have hpots := congrArg (·.sidePots) hstate
  have hpot : pots = [⟨10, ["a", "a"], [("a", 5), ("a", 5)]⟩] := by
    refine Eq.symm (Eq.trans ?_ hpots)
    decide +kernel
  rw [hpot] at hlevels
  obtain ⟨_, _, hlevel, -⟩ := forall₂_cons_right_iff.mp hlevels
  have hcomplete := hlevel.complete
  revert hcomplete
  decide +kernel

end Pokerhub
