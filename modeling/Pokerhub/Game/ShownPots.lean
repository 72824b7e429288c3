import Pokerhub.Game.StreetPots

/-!
# The pots that the table shows

`calculateSidePots` of `sidePots.ts` splits the commitments shown on the table into a main pot and
side pots. It walks over the sorted commitments and stops adding layers when one player is left;
the main pot is the rest. `finishBettingRound` walks over the distinct bets. The two agree when
the highest commitment has been called; an uncalled one is a pot of its own for the engine and
part of the main pot on the table (`calculateSidePots_shows`).
-/

namespace Pokerhub

open GameStateInternal List

/-! ### The layers of sorted amounts -/

/-- The layers of increasing amounts above `previous`, one for each new amount. -/
def sortedLayers : ℤ → List ℤ → List ℤ
  | _, [] => []
  | previous, c :: cs =>
    if previous < c then (c - previous) * (cs.length + 1) :: sortedLayers c cs
    else sortedLayers previous cs

/-- Walking over the sorted amounts gives the layers at their distinct values. -/
lemma layers_eq_sortedLayers {bs cs levels : List ℤ} {previous : ℤ}
    (hcs : cs.Pairwise (· ≤ ·)) (hlevels : (previous :: levels).Pairwise (· < ·))
    (hmem : ∀ x, x ∈ levels ↔ x ∈ cs ∧ previous < x)
    (hcount : ∀ level ∈ levels, bs.countP (level ≤ ·) = cs.countP (level ≤ ·)) :
    layers bs previous levels = sortedLayers previous cs := by
  induction cs generalizing previous levels with
  | nil =>
    cases levels with
    | nil => rfl
    | cons level levels => simpa using (hmem level).mp mem_cons_self
  | cons c cs ih =>
    rw [pairwise_cons] at hcs
    rw [sortedLayers]
    split_ifs with hlt
    · -- `c` is the least of the levels
      cases levels with
      | nil => simpa using (hmem c).mpr ⟨mem_cons_self, hlt⟩
      | cons level levels =>
        rw [pairwise_cons] at hlevels
        have hstrict := hlevels.2
        rw [pairwise_cons] at hstrict
        obtain rfl : level = c := by
          refine le_antisymm ?_ ?_
          · rcases mem_cons.mp ((hmem c).mpr ⟨mem_cons_self, hlt⟩) with rfl | hc
            · exact le_rfl
            · exact (hstrict.1 c hc).le
          · rcases mem_cons.mp ((hmem level).mp mem_cons_self).1 with rfl | hl
            · exact le_rfl
            · exact hcs.1 level hl
        have hall : cs.countP (level ≤ ·) = cs.length :=
          countP_eq_length.mpr fun x hx => by simpa using hcs.1 x hx
        rw [layers_cons, hcount level mem_cons_self, countP_cons_of_pos (by simp), hall]
        congr 1
        refine ih hcs.2 hlevels.2 (fun x => ?_) fun x hx => ?_
        · constructor
          · intro hx
            have hlx := hstrict.1 x hx
            rcases mem_cons.mp ((hmem x).mp (mem_cons_of_mem _ hx)).1 with rfl | hxs
            · exact absurd hlx (lt_irrefl _)
            · exact ⟨hxs, hlx⟩
          · rintro ⟨hxs, hlx⟩
            rcases mem_cons.mp ((hmem x).mpr ⟨mem_cons_of_mem _ hxs, hlt.trans hlx⟩) with rfl | hx
            · exact absurd hlx (lt_irrefl _)
            · exact hx
        · rw [hcount x (mem_cons_of_mem _ hx), countP_cons_of_neg]
          simpa using hstrict.1 x hx
    · refine ih hcs.2 hlevels (fun x => ?_) fun x hx => ?_
      · rw [hmem, mem_cons]
        constructor
        · rintro ⟨rfl | hx, hpx⟩
          · exact absurd hpx hlt
          · exact ⟨hx, hpx⟩
        · exact fun hx => ⟨Or.inr hx.1, hx.2⟩
      · have hpx := ((hmem x).mp hx).2
        rw [hcount x hx, countP_cons_of_neg]
        simp
        omega

/-- Every amount is reached by another one. -/
def Called (bs : List ℤ) : Prop :=
  ∀ b ∈ bs, 2 ≤ bs.countP (b ≤ ·)

instance (bs : List ℤ) : Decidable (Called bs) :=
  inferInstanceAs (Decidable (∀ b ∈ bs, 2 ≤ bs.countP (b ≤ ·)))

/-! ### The program -/

structure PlayerLike where
  committed : Option ℤ

structure SidePotResult where
  main : ℤ
  sidePots : List ℤ
  deriving DecidableEq

/-- The variables of the loop. -/
structure LayerLoop where
  layers : List ℤ
  prev : ℤ
  remaining : ℕ

/-- One pass of the loop. -/
def LayerLoop.pass (l : LayerLoop) (commitment : ℤ) : LayerLoop :=
  let diff := commitment - l.prev
  if 0 < diff ∧ 1 < l.remaining then
    { layers := l.layers ++ [diff * l.remaining], prev := commitment,
      remaining := l.remaining - 1 }
  else { l with remaining := l.remaining - 1 }

def PlayerLike.commitments (players : List PlayerLike) : List ℤ :=
  ((players.map fun p => p.committed.getD 0).filter fun c => 0 < c).insertionSort (· ≤ ·)

def calculateSidePots (players : List PlayerLike) (totalPot : ℤ) : SidePotResult :=
  let commitments := PlayerLike.commitments players
  let loop := commitments.foldl LayerLoop.pass ⟨[], 0, commitments.length⟩
  let sidePots := loop.layers.drop 1
  { main := totalPot - sidePots.sum, sidePots := sidePots }

/-- The layers that the loop adds from `prev` on. -/
def shownLayers : ℤ → List ℤ → List ℤ
  | _, [] => []
  | prev, c :: cs =>
    if prev < c ∧ cs ≠ [] then (c - prev) * (cs.length + 1) :: shownLayers c cs
    else shownLayers prev cs

lemma layers_foldl_pass (cs ls : List ℤ) (prev : ℤ) :
    (cs.foldl LayerLoop.pass ⟨ls, prev, cs.length⟩).layers = ls ++ shownLayers prev cs := by
  induction cs generalizing ls prev with
  | nil => simp [shownLayers]
  | cons c cs ih =>
    have hpass : LayerLoop.pass ⟨ls, prev, (c :: cs).length⟩ c =
        if prev < c ∧ cs ≠ [] then ⟨ls ++ [(c - prev) * (cs.length + 1)], c, cs.length⟩
        else ⟨ls, prev, cs.length⟩ := by
      simp [LayerLoop.pass, length_pos_iff]
    rw [foldl_cons, hpass, shownLayers]
    split_ifs with h
    · rw [ih, append_assoc, singleton_append]
    · rw [ih]

/-! ### The two walks -/

/-- Without an uncalled amount above `prev` the loop adds every layer. -/
lemma shownLayers_of_called {cs : List ℤ} {prev : ℤ} (hcs : cs.Pairwise (· ≤ ·))
    (h : ∀ b ∈ cs, prev < b → 2 ≤ cs.countP (b ≤ ·)) :
    sortedLayers prev cs = shownLayers prev cs := by
  induction cs generalizing prev with
  | nil => rfl
  | cons c cs ih =>
    rw [pairwise_cons] at hcs
    have hrest : ∀ q, c ≤ q → prev ≤ q → ∀ b ∈ cs, q < b → 2 ≤ cs.countP (b ≤ ·) := by
      intro q hcq hpq b hb hqb
      have hcount := h b (mem_cons_of_mem _ hb) (hpq.trans_lt hqb)
      rwa [countP_cons_of_neg (by simpa using hcq.trans_lt hqb)] at hcount
    rw [sortedLayers, shownLayers]
    by_cases hlt : prev < c
    · have hne : cs ≠ [] := by
        rintro rfl
        simpa using h c mem_cons_self hlt
      rw [if_pos hlt, if_pos ⟨hlt, hne⟩, ih hcs.2 (hrest c le_rfl hlt.le)]
    · rw [if_neg hlt, if_neg fun hboth => hlt hboth.1,
        ih hcs.2 (hrest prev (not_lt.mp hlt) le_rfl)]

/-- An uncalled amount is the last layer, and the loop does not add it. -/
lemma shownLayers_of_uncalled {cs : List ℤ} {prev b : ℤ} (hcs : cs.Pairwise (· ≤ ·))
    (hb : b ∈ cs) (hlt : prev < b) (hcount : cs.countP (b ≤ ·) < 2) :
    ∃ top, sortedLayers prev cs = shownLayers prev cs ++ [top] := by
  induction cs generalizing prev with
  | nil => simp at hb
  | cons c cs ih =>
    rw [pairwise_cons] at hcs
    rw [sortedLayers, shownLayers]
    by_cases hnil : cs = []
    · subst hnil
      obtain rfl : b = c := by simpa using hb
      exact ⟨(b - prev) * (([] : List ℤ).length + 1), by simp [sortedLayers, shownLayers, hlt]⟩
    · have hcb : c < b := by
        by_contra hbc
        have hall : (c :: cs).countP (b ≤ ·) = (c :: cs).length := by
          refine countP_eq_length.mpr fun x hx => ?_
          rcases mem_cons.mp hx with rfl | hx
          · simpa using hbc
          · simpa using (not_lt.mp hbc).trans (hcs.1 x hx)
        have := length_pos_iff.mpr hnil
        rw [hall, length_cons] at hcount
        omega
      have hmem : b ∈ cs := by
        rcases mem_cons.mp hb with rfl | hmem
        · exact absurd hcb (lt_irrefl _)
        · exact hmem
      rw [countP_cons_of_neg (by simpa using hcb)] at hcount
      by_cases hpc : prev < c
      · obtain ⟨top, htop⟩ := ih hcs.2 hmem hcb hcount
        exact ⟨top, by rw [if_pos hpc, if_pos ⟨hpc, hnil⟩, htop, cons_append]⟩
      · obtain ⟨top, htop⟩ := ih hcs.2 hmem hlt hcount
        exact ⟨top, by rw [if_neg hpc, if_neg fun hboth => hpc hboth.1, htop]⟩

/-- With two amounts there is a layer for both. -/
lemma shownLayers_ne_nil {cs : List ℤ} {prev : ℤ} (hpos : ∀ c ∈ cs, prev < c)
    (htwo : 2 ≤ cs.length) : shownLayers prev cs ≠ [] := by
  match cs, htwo with
  | c :: d :: cs, _ => simp [shownLayers, hpos c mem_cons_self]

/-! ### The pots of the engine -/

section Engine

variable {s : GameStateInternal}

lemma map_amount_layerPots {bettors : List PlayerStateInternal} {previous : ℤ} {levels : List ℤ}
    (hlevels : (previous :: levels).Pairwise (· < ·))
    (hmem : ∀ level ∈ levels, level ∈ bettors.map (·.bet)) :
    (s.layerPots bettors previous levels).map (·.amount) =
      layers (bettors.map (·.bet)) previous levels := by
  induction levels generalizing previous with
  | nil => rfl
  | cons level levels ih =>
    rw [pairwise_cons] at hlevels
    simp only [mem_cons, forall_eq_or_imp] at hmem
    have hcount : (bettors.filter fun p => level ≤ p.bet).length =
        (bettors.map (·.bet)).countP (level ≤ ·) := by
      rw [countP_map, countP_eq_length_filter]
      rfl
    have hpos : 0 < (level - previous) * ((bettors.map (·.bet)).countP (level ≤ ·) : ℤ) := by
      have hreached : 0 < (bettors.map (·.bet)).countP (level ≤ ·) :=
        countP_pos_iff.mpr ⟨level, hmem.1, by simp⟩
      have := hlevels.1 level mem_cons_self
      exact mul_pos (by omega) (by omega)
    have hpot : (s.layerPot bettors previous level).map (·.amount) =
        [(level - previous) * (bettors.map (·.bet)).countP (level ≤ ·)] := by
      unfold layerPot
      simp only [hcount, if_pos hpos]
      split <;> rfl
    rw [layerPots, map_append, hpot, ih hlevels.2 hmem.2, layers_cons, singleton_append]

/-- A street whose bets are the commitments on the table, with two players in the pot. -/
structure ShownOn (s : GameStateInternal) (players : List PlayerLike) (totalPot : ℤ) : Prop where
  bets : s.players.map (·.bet) = players.map fun p => p.committed.getD 0
  nonneg : ∀ p ∈ players, 0 ≤ p.committed.getD 0
  two : 2 ≤ (PlayerLike.commitments players).length
  total : totalPot = (players.map fun p => p.committed.getD 0).sum

variable {players : List PlayerLike} {totalPot : ℤ}

lemma pairwise_commitments (players : List PlayerLike) :
    (PlayerLike.commitments players).Pairwise (· ≤ ·) :=
  pairwise_insertionSort _ _

lemma pos_of_mem_commitments {c : ℤ} (h : c ∈ PlayerLike.commitments players) : 0 < c := by
  rw [PlayerLike.commitments, mem_insertionSort] at h
  simpa using of_mem_filter h

lemma ShownOn.bets_nonneg (h : ShownOn s players totalPot) : ∀ p ∈ s.players, 0 ≤ p.bet := by
  have hall : ∀ b ∈ s.players.map (·.bet), 0 ≤ b := by
    rw [h.bets]
    simpa using h.nonneg
  simpa using hall

lemma ShownOn.bettors_perm (h : ShownOn s players totalPot) :
    s.bettors.map (·.bet) ~ PlayerLike.commitments players := by
  have hbets : s.bettors.map (·.bet) =
      (players.map fun p => p.committed.getD 0).filter fun c => 0 < c := by
    rw [← h.bets, filter_map]
    rfl
  rw [hbets]
  exact (perm_insertionSort _ _).symm

/-- The pots of the engine are the layers of the sorted commitments. -/
lemma ShownOn.map_amount_streetPots (h : ShownOn s players totalPot) :
    s.streetPots.map (·.amount) = sortedLayers 0 (PlayerLike.commitments players) := by
  have hmem : ∀ x, x ∈ s.levels ↔ x ∈ s.bettors.map (·.bet) := by
    intro x
    rw [levels, mem_insertionSort, mem_dedup]
  rw [streetPots, map_amount_layerPots s.pairwise_levels fun level hlevel => (hmem level).mp hlevel]
  refine layers_eq_sortedLayers (pairwise_commitments players) s.pairwise_levels (fun x => ?_)
    fun level _ => h.bettors_perm.countP_eq _
  rw [hmem, h.bettors_perm.mem_iff]
  exact ⟨fun hx => ⟨hx, pos_of_mem_commitments hx⟩, fun hx => hx.1⟩

lemma ShownOn.sum_streetPots (h : ShownOn s players totalPot) :
    (sortedLayers 0 (PlayerLike.commitments players)).sum = totalPot := by
  rw [← h.map_amount_streetPots, streetPots, sum_street h.bets_nonneg, liveBets, h.bets, h.total]

lemma calculateSidePots_eq (players : List PlayerLike) (totalPot : ℤ) :
    calculateSidePots players totalPot =
      { main := totalPot - ((shownLayers 0 (PlayerLike.commitments players)).drop 1).sum
        sidePots := (shownLayers 0 (PlayerLike.commitments players)).drop 1 } := by
  simp only [calculateSidePots, layers_foldl_pass, nil_append]

end Engine

/-- The pots on the table are those that the engine makes of the bets exactly when the highest
bet has been called. An uncalled top bet is the last pot of the engine; the table has it in the
main pot. -/
theorem calculateSidePots_shows {s : GameStateInternal} {players : List PlayerLike} {totalPot : ℤ}
    (h : ShownOn s players totalPot) :
    ∃ created : List ℤ,
      s.finishBettingRound.sidePots.map (·.amount) = s.sidePots.map (·.amount) ++ created ∧
      let shown := calculateSidePots players totalPot
      (created = shown.main :: shown.sidePots ↔ Called (PlayerLike.commitments players)) ∧
      (¬ Called (PlayerLike.commitments players) →
        ∃ first top, created = first :: shown.sidePots ++ [top] ∧ shown.main = first + top) := by
  refine ⟨s.streetPots.map (·.amount), ?_, ?_⟩
  · rw [finishBettingRound_eq h.bets_nonneg, map_append]
  rw [h.map_amount_streetPots, calculateSidePots_eq]
  dsimp only
  have hsum := h.sum_streetPots
  have hsorted := pairwise_commitments players
  have hne := shownLayers_ne_nil (fun c => pos_of_mem_commitments) h.two
  obtain ⟨first, rest, hshown⟩ := exists_cons_of_ne_nil hne
  rw [hshown, drop_succ_cons, drop_zero]
  by_cases hcalled : Called (PlayerLike.commitments players)
  · have hall := @shownLayers_of_called _ 0 hsorted fun b hb _ => hcalled b hb
    rw [hall, hshown, sum_cons] at hsum
    rw [hall, hshown]
    refine ⟨iff_of_true ?_ hcalled, fun hnot => absurd hcalled hnot⟩
    rw [← hsum, add_sub_cancel_right]
  · obtain ⟨b, hb, hcount⟩ : ∃ b ∈ PlayerLike.commitments players,
        (PlayerLike.commitments players).countP (b ≤ ·) < 2 := by
      simpa [Called] using hcalled
    obtain ⟨top, htop⟩ := shownLayers_of_uncalled hsorted hb (pos_of_mem_commitments hb) hcount
    rw [hshown] at htop
    rw [htop, sum_append, sum_cons, sum_singleton] at hsum
    rw [htop]
    refine ⟨iff_of_false ?_ hcalled, fun _ => ⟨first, top, rfl, by omega⟩⟩
    intro heq
    simpa using congrArg length heq

/-- "a" has bet 10, "b" 20. -/
def uncalledBet : GameStateInternal where
  phase := .bettingRound
  street := .flop
  pot := 30
  sidePots := []
  currentBet := 20
  players := [⟨"a", 0, false, 10, true, none⟩, ⟨"b", 5, false, 20, false, none⟩]
  deck := []
  communityCards := []

theorem calculateSidePots_uncalledBet :
    ∃ created : List ℤ,
      uncalledBet.finishBettingRound.sidePots.map (·.amount) = [] ++ created ∧
      let shown := calculateSidePots [⟨some 10⟩, ⟨some 20⟩] 30
      (created = shown.main :: shown.sidePots ↔
        Called (PlayerLike.commitments [⟨some 10⟩, ⟨some 20⟩])) ∧
      (¬ Called (PlayerLike.commitments [⟨some 10⟩, ⟨some 20⟩]) →
        ∃ first top, created = first :: shown.sidePots ++ [top] ∧ shown.main = first + top) :=
  calculateSidePots_shows ⟨rfl, by decide, by decide, rfl⟩

/-- The engine makes two pots of it, 20 and 10; the table shows one of 30. -/
theorem uncalledBet_shown :
    ¬ ∀ (s : GameStateInternal) (players : List PlayerLike) (totalPot : ℤ),
      ShownOn s players totalPot → s.sidePots = [] →
        s.finishBettingRound.sidePots.map (·.amount) =
          (calculateSidePots players totalPot).main ::
            (calculateSidePots players totalPot).sidePots := by
  intro h
  have hpots := h uncalledBet [⟨some 10⟩, ⟨some 20⟩] 30 ⟨rfl, by decide, by decide, rfl⟩ rfl
  revert hpots
  decide

end Pokerhub
