import Mathlib.Data.List.GetD
import Pokerhub.Core.Levelling
import Pokerhub.Tournament.Balancing

/-!
# What `balanceTables` leaves

The loop of `balanceTables` moves each player at most once, and only players who may be moved. It
takes them from the first of the longest tables; when nobody there may be moved it breaks, although
another table of that size may have such a player (`balanceTables_balances_iff`).
-/

namespace Pokerhub.TournamentService

open List

/-! ### The longest and the shortest table -/

/-- The table that is found first among the longest ones, and the size of the shortest ones. -/
structure Sizes.Extreme (z : Sizes) (result : List (List String)) : Prop where
  maxIdx_le : z.maxIdx ≤ result.length
  longest : ∀ i < result.length, (result.getD i []).length ≤ z.max
  first : ∀ i < z.maxIdx, (result.getD i []).length < z.max
  shortest : ∀ i < result.length, ∃ m, z.min = some m ∧ m ≤ (result.getD i []).length

lemma Sizes.Extreme.see {z : Sizes} {result : List (List String)} (h : z.Extreme result)
    (t : List String) : (z.see t result.length).Extreme (result ++ [t]) := by
  have hold : ∀ i < result.length, (result ++ [t]).getD i [] = result.getD i [] :=
    fun i hi => getD_append _ _ _ _ hi
  have hnew : (result ++ [t]).getD result.length [] = t := by simp
  have hcases : ∀ i < (result ++ [t]).length, i < result.length ∨ i = result.length := by
    intro i hi
    rw [length_append, length_singleton] at hi
    exact Nat.lt_succ_iff_lt_or_eq.mp hi
  constructor
  · have := h.maxIdx_le
    simp only [Sizes.see, length_append, length_singleton]
    split_ifs <;> omega
  · intro i hi
    simp only [Sizes.see]
    rcases hcases i hi with hlt | rfl
    · have := h.longest i hlt
      rw [hold i hlt]
      split_ifs <;> omega
    · rw [hnew]
      split_ifs <;> omega
  · intro i hi
    simp only [Sizes.see] at hi ⊢
    split_ifs at hi ⊢ with hlonger
    · rw [hold i hi]
      exact (h.longest i hi).trans_lt hlonger
    · rw [hold i (hi.trans_le h.maxIdx_le)]
      exact h.first i hi
  · intro i hi
    simp only [Sizes.see]
    split_ifs with hshorter
    · refine ⟨t.length, rfl, ?_⟩
      rcases hcases i hi with hlt | rfl
      · obtain ⟨m, hmin, hle⟩ := h.shortest i hlt
        rw [hmin, Option.all_some, decide_eq_true_eq] at hshorter
        rw [hold i hlt]
        exact hshorter.le.trans hle
      · rw [hnew]
    · cases hmin : z.min with
      | none => simp [hmin] at hshorter
      | some m =>
        refine ⟨m, rfl, ?_⟩
        rcases hcases i hi with hlt | rfl
        · obtain ⟨m', hmin', hle⟩ := h.shortest i hlt
          rw [hold i hlt, Option.some.inj (hmin.symm.trans hmin')]
          exact hle
        · rw [hnew]
          simpa [hmin] using hshorter

lemma extreme_sizes (result : List (List String)) : (sizes result).Extreme result := by
  induction result using reverseRecOn with
  | nil => exact ⟨le_rfl, fun i hi => absurd hi (Nat.not_lt_zero i),
      fun i hi => absurd hi (Nat.not_lt_zero i), fun i hi => absurd hi (Nat.not_lt_zero i)⟩
  | append_singleton result t ih =>
    rw [sizes_concat]
    exact ih.see t

/-! ### One turn -/

section Turn

variable {currentHand avoidWithin : ℕ} {recentlyMoved : RecentlyMoved}
  {result rest tables : List (List String)} {player : String} {n : ℕ}

lemma getD_of_getElem? {i : ℕ} {t : List String} (h : result[i]? = some t) :
    result.getD i [] = t := by
  rw [getD_eq_getElem?_getD, h, Option.getD_some]

lemma mem_flatten_of_mem_getD {i : ℕ} {p : String} (h : p ∈ result.getD i []) :
    p ∈ result.flatten := by
  rw [getD_eq_getElem?_getD] at h
  cases hrow : result[i]? with
  | none =>
    rw [hrow] at h
    exact absurd h not_mem_nil
  | some t =>
    rw [hrow] at h
    exact mem_flatten_of_mem (mem_of_getElem? hrow) h

/-- A turn takes a player from the first of the longest tables, and there is a shortest one. -/
structure Turn (result : List (List String)) (player : String) (rest : List (List String)) :
    Prop where
  maxIdx_lt : (sizes result).maxIdx < result.length
  minIdx_lt : (sizes result).minIdx < result.length
  longest : ∀ i < result.length,
    (result.getD i []).length ≤ (result.getD (sizes result).maxIdx []).length
  first : ∀ i < (sizes result).maxIdx,
    (result.getD i []).length < (result.getD (sizes result).maxIdx []).length
  shortest : ∀ i < result.length,
    (result.getD (sizes result).minIdx []).length ≤ (result.getD i []).length
  gap : (result.getD (sizes result).minIdx []).length + 2 ≤
    (result.getD (sizes result).maxIdx []).length
  taken : result.getD (sizes result).maxIdx [] ~ player :: rest.getD (sizes result).maxIdx []
  others : ∀ i, i ≠ (sizes result).maxIdx → rest.getD i [] = result.getD i []

lemma turn_of_takePlayer
    (h : takePlayer currentHand avoidWithin recentlyMoved result = some (player, rest)) :
    Turn result player rest := by
  obtain ⟨heven, old, row, hold, htake, rfl⟩ := takePlayer_eq_some h
  obtain ⟨m, hmin, hgap⟩ := Sizes.exists_min_of_not_even heven
  have hextreme := extreme_sizes result
  obtain ⟨longest, hlongest, hmax⟩ := (measure_sizes result).longest (by omega)
  obtain rfl : longest = old := Option.some.inj (hlongest.symm.trans hold)
  obtain ⟨shortest, hshortest, rfl⟩ := (measure_sizes result).shortest m hmin
  have hmaxIdx := (List.getElem?_eq_some_iff.mp hlongest).1
  have hrow : (result.set (sizes result).maxIdx row).getD (sizes result).maxIdx [] = row :=
    getD_of_getElem? (getElem?_set_self hmaxIdx)
  have hlongest' := getD_of_getElem? hlongest
  have hshortest' := getD_of_getElem? hshortest
  refine ⟨hmaxIdx, (List.getElem?_eq_some_iff.mp hshortest).1, fun i hi => ?_, fun i hi => ?_,
    fun i hi => ?_, ?_, ?_, fun i hi => ?_⟩
  · rw [hlongest', hmax]
    exact hextreme.longest i hi
  · rw [hlongest', hmax]
    exact hextreme.first i hi
  · obtain ⟨m', hmin', hle⟩ := hextreme.shortest i hi
    rw [hshortest', Option.some.inj (hmin.symm.trans hmin')]
    exact hle
  · rw [hlongest', hshortest', hmax]
    exact hgap
  · rw [hlongest', hrow]
    exact (takeLast?_eq_some htake).2
  · rw [getD_eq_getElem?_getD, getElem?_set_ne hi.symm, ← getD_eq_getElem?_getD]

/-- The tables after the turn. -/
lemma getD_modify_append {j : ℕ} (hj : j < rest.length) (i : ℕ) :
    (rest.modify j (· ++ [player])).getD i [] =
      if i = j then rest.getD i [] ++ [player] else rest.getD i [] := by
  rw [getD_eq_getElem?_getD, getElem?_modify, getD_eq_getElem?_getD]
  by_cases hij : i = j
  · subst hij
    simp [getElem?_eq_getElem hj]
  · simp [hij, Ne.symm hij]

lemma mayMove_cons_self (hpos : 0 < avoidWithin) :
    mayMove currentHand avoidWithin ((player, currentHand) :: recentlyMoved) player = false := by
  rw [mayMove, lookup_cons_self, Option.all_some, decide_eq_false_iff_not]
  omega

lemma mayMove_cons_of_ne {p : String} (hne : p ≠ player) :
    mayMove currentHand avoidWithin ((player, currentHand) :: recentlyMoved) p =
      mayMove currentHand avoidWithin recentlyMoved p := by
  rw [mayMove, lookup_cons, beq_false_of_ne hne, mayMove]

/-- The number of players of a table who may not be moved. -/
def pinned (currentHand avoidWithin : ℕ) (recentlyMoved : RecentlyMoved) (t : List String) : ℕ :=
  t.countP (!mayMove currentHand avoidWithin recentlyMoved ·)

lemma pinned_cons_of_notMem {t : List String} (h : player ∉ t) :
    pinned currentHand avoidWithin ((player, currentHand) :: recentlyMoved) t =
      pinned currentHand avoidWithin recentlyMoved t :=
  countP_congr fun p hp => by rw [mayMove_cons_of_ne (ne_of_mem_of_not_mem hp h)]

lemma pinned_append_self (hpos : 0 < avoidWithin) {t : List String} (h : player ∉ t) :
    pinned currentHand avoidWithin ((player, currentHand) :: recentlyMoved) (t ++ [player]) =
      pinned currentHand avoidWithin recentlyMoved t + 1 := by
  have hplayer := @mayMove_cons_self currentHand avoidWithin recentlyMoved player hpos
  rw [← pinned_cons_of_notMem h, pinned, countP_append, countP_singleton, hplayer]
  rfl

lemma pinned_of_perm {t t' : List String} (h : t ~ player :: t')
    (hmay : mayMove currentHand avoidWithin recentlyMoved player = true) :
    pinned currentHand avoidWithin recentlyMoved t =
      pinned currentHand avoidWithin recentlyMoved t' := by
  rw [pinned, h.countP_eq, countP_cons_of_neg (by simp [hmay]), pinned]

lemma pinned_le (currentHand avoidWithin : ℕ) (recentlyMoved : RecentlyMoved) (t : List String) :
    pinned currentHand avoidWithin recentlyMoved t ≤ t.length :=
  countP_le_length

/-- The tables as piles of players. -/
def tablePiles (currentHand avoidWithin : ℕ) (recentlyMoved : RecentlyMoved)
    (result : List (List String)) (n : ℕ) : Piles (Fin n) where
  size i := (result.getD i []).length
  fixed i := pinned currentHand avoidWithin recentlyMoved (result.getD i [])
  fixed_le _ := pinned_le _ _ _ _

lemma Turn.move (h : Turn result player rest) (hlength : rest.length = result.length)
    (hpos : 0 < avoidWithin)
    (hmay : mayMove currentHand avoidWithin recentlyMoved player = true)
    (habsent : player ∉ rest.flatten) (hn : result.length = n) :
    ∃ a m, (tablePiles currentHand avoidWithin recentlyMoved result n).Move a m
      (tablePiles currentHand avoidWithin ((player, currentHand) :: recentlyMoved)
        (rest.modify (sizes result).minIdx (· ++ [player])) n) := by
  subst hn
  have hrow : ∀ i, player ∉ rest.getD i [] := fun i hi => habsent (mem_flatten_of_mem_getD hi)
  have hne : (sizes result).maxIdx ≠ (sizes result).minIdx := by
    intro heq
    have := h.gap
    rw [heq] at this
    omega
  have hnext := @getD_modify_append rest player _ (hlength ▸ h.minIdx_lt)
  refine ⟨⟨_, h.maxIdx_lt⟩, ⟨_, h.minIdx_lt⟩,
    ⟨fun i => h.longest i i.isLt, fun i hi => h.first i hi⟩, fun i => h.shortest i i.isLt, h.gap,
    ?_, ?_, ?_, fun i hfrom hto => ?_, ?_, fun i hto => ?_⟩
  · have hlt := pinned_le currentHand avoidWithin recentlyMoved (rest.getD (sizes result).maxIdx [])
    change pinned _ _ _ _ < (result.getD _ []).length
    rw [pinned_of_perm h.taken hmay, h.taken.length_eq]
    exact Nat.lt_succ_of_le hlt
  · change (getD _ _ []).length + 1 = (result.getD _ []).length
    rw [hnext, if_neg hne, h.taken.length_eq, length_cons]
  · change (getD _ _ []).length = (result.getD _ []).length + 1
    rw [hnext, if_pos rfl, h.others _ hne.symm, length_append, length_singleton]
  · have hfrom' : (i : ℕ) ≠ (sizes result).maxIdx := fun heq => hfrom (Fin.ext heq)
    have hto' : (i : ℕ) ≠ (sizes result).minIdx := fun heq => hto (Fin.ext heq)
    change (getD _ _ []).length = (result.getD _ []).length
    rw [hnext, if_neg hto', h.others _ hfrom']
  · change pinned _ _ _ (getD _ _ []) = pinned _ _ _ (result.getD _ []) + 1
    rw [hnext, if_pos rfl, pinned_append_self hpos (hrow _), h.others _ hne.symm]
  · have hto' : (i : ℕ) ≠ (sizes result).minIdx := fun heq => hto (Fin.ext heq)
    change pinned _ _ _ (getD _ _ []) = pinned _ _ _ (result.getD _ [])
    rw [hnext, if_neg hto', pinned_cons_of_notMem (hrow _)]
    by_cases hfrom : (i : ℕ) = (sizes result).maxIdx
    · rw [hfrom, pinned_of_perm h.taken hmay]
    · rw [h.others _ hfrom]

/-- Where the loop breaks. -/
lemma level_or_stuck (h : takePlayer currentHand avoidWithin recentlyMoved result = none)
    (hn : result.length = n) :
    (tablePiles currentHand avoidWithin recentlyMoved result n).Level ∨
      (tablePiles currentHand avoidWithin recentlyMoved result n).Stuck := by
  subst hn
  have hextreme := extreme_sizes result
  simp only [takePlayer] at h
  split_ifs at h with heven
  · refine Or.inl fun i k => ?_
    obtain ⟨m, hmin, hle⟩ := hextreme.shortest k k.isLt
    have hmax : (sizes result).max ≤ m + 1 := by simpa [Sizes.even, hmin] using heven
    change (result.getD i []).length ≤ (result.getD k []).length + 1
    have := hextreme.longest i i.isLt
    omega
  · rw [Bool.not_eq_true] at heven
    obtain ⟨m, hmin, hgap⟩ := Sizes.exists_min_of_not_even heven
    obtain ⟨t, ht, hlength⟩ := (measure_sizes result).longest (by omega)
    have hrow := getD_of_getElem? ht
    refine Or.inr ⟨⟨(sizes result).maxIdx, (List.getElem?_eq_some_iff.mp ht).1⟩,
      ⟨fun k => ?_, fun k hk => ?_⟩, ?_⟩
    · change (result.getD k []).length ≤ (result.getD _ []).length
      rw [hrow, hlength]
      exact hextreme.longest k k.isLt
    · change (result.getD k []).length < (result.getD _ []).length
      rw [hrow, hlength]
      exact hextreme.first k hk
    · change pinned _ _ _ (result.getD _ []) = (result.getD _ []).length
      rw [hrow, pinned, countP_eq_length]
      rw [hrow, Option.map_eq_none_iff, takeLast?_eq_none] at h
      exact fun p hp => by rw [h p hp, Bool.not_false]

end Turn

/-! ### The whole loop -/

section Loop

variable {currentHand avoidWithin : ℕ} {recentlyMoved recentlyMoved' : RecentlyMoved}
  {tables result rest : List (List String)} {player : String}

/-- The players `moved` have been moved, the last one first. -/
structure Moved (currentHand avoidWithin : ℕ) (recentlyMoved : RecentlyMoved)
    (tables : List (List String)) (moved : List String) (recentlyMoved' : RecentlyMoved)
    (result : List (List String)) : Prop where
  nodup : moved.Nodup
  recent : recentlyMoved' = moved.map (·, currentHand) ++ recentlyMoved
  may : ∀ p ∈ moved, mayMove currentHand avoidWithin recentlyMoved p = true
  others : ∀ i, ∀ p ∈ result.getD i [], p ∈ tables.getD i [] ∨ p ∈ moved

lemma mayMove_append_of_notMem {moved : List String} {p : String} (hp : p ∉ moved) :
    mayMove currentHand avoidWithin (moved.map (·, currentHand) ++ recentlyMoved) p =
      mayMove currentHand avoidWithin recentlyMoved p := by
  induction moved with
  | nil => rfl
  | cons q moved ih =>
    rw [mem_cons, not_or] at hp
    rw [map_cons, cons_append, mayMove_cons_of_ne hp.1]
    exact ih hp.2

lemma mayMove_append_of_mem {moved : List String} {p : String} (hpos : 0 < avoidWithin)
    (hp : p ∈ moved) :
    mayMove currentHand avoidWithin (moved.map (·, currentHand) ++ recentlyMoved) p = false := by
  induction moved with
  | nil => exact absurd hp not_mem_nil
  | cons q moved ih =>
    rw [map_cons, cons_append]
    by_cases hpq : p = q
    · subst hpq
      exact mayMove_cons_self hpos
    · rw [mayMove_cons_of_ne hpq]
      exact ih ((mem_cons.mp hp).resolve_left hpq)

lemma Moved.refl : Moved currentHand avoidWithin recentlyMoved tables [] recentlyMoved tables where
  nodup := nodup_nil
  recent := rfl
  may _ hp := absurd hp not_mem_nil
  others _ _ hp := Or.inl hp

lemma Moved.turn {moved : List String}
    (h : Moved currentHand avoidWithin recentlyMoved tables moved recentlyMoved' result)
    (hturn : Turn result player rest) (hlength : rest.length = result.length)
    (hpos : 0 < avoidWithin)
    (hmay : mayMove currentHand avoidWithin recentlyMoved' player = true) :
    Moved currentHand avoidWithin recentlyMoved tables (player :: moved)
      ((player, currentHand) :: recentlyMoved')
      (rest.modify (sizes result).minIdx (· ++ [player])) := by
  have hnew : player ∉ moved := by
    intro hmem
    rw [h.recent, mayMove_append_of_mem hpos hmem] at hmay
    exact absurd hmay Bool.false_ne_true
  refine ⟨nodup_cons.mpr ⟨hnew, h.nodup⟩, by rw [h.recent, map_cons, cons_append], ?_, ?_⟩
  · rw [forall_mem_cons]
    refine ⟨?_, h.may⟩
    rw [h.recent, mayMove_append_of_notMem hnew] at hmay
    exact hmay
  · intro i p hp
    have hstays : p ∈ rest.getD i [] → p ∈ tables.getD i [] ∨ p ∈ player :: moved := by
      intro hrest
      have hresult : p ∈ result.getD i [] := by
        by_cases hi : i = (sizes result).maxIdx
        · subst hi
          exact hturn.taken.mem_iff.mpr (mem_cons_of_mem player hrest)
        · rwa [hturn.others i hi] at hrest
      exact (h.others i p hresult).imp_right (mem_cons_of_mem player)
    rw [getD_modify_append (hlength ▸ hturn.minIdx_lt)] at hp
    split_ifs at hp with hi
    · rcases mem_append.mp hp with hrest | hp
      · exact hstays hrest
      · rw [mem_singleton.mp hp]
        exact Or.inr mem_cons_self
    · exact hstays hp

/-- What every turn of the loop keeps. -/
structure Turned (currentHand avoidWithin : ℕ) (recentlyMoved : RecentlyMoved)
    (tables : List (List String)) (recentlyMoved' : RecentlyMoved) (result : List (List String)) :
    Prop where
  length_eq : result.length = tables.length
  players : result.flatten ~ tables.flatten
  moved : ∃ moved, Moved currentHand avoidWithin recentlyMoved tables moved recentlyMoved' result
  levelled : (tablePiles currentHand avoidWithin recentlyMoved tables tables.length).Levelled
    (tablePiles currentHand avoidWithin recentlyMoved' result tables.length)

lemma Turned.refl : Turned currentHand avoidWithin recentlyMoved tables recentlyMoved tables where
  length_eq := rfl
  players := .refl _
  moved := ⟨[], .refl⟩
  levelled := .refl _

lemma Turned.turn
    (h : Turned currentHand avoidWithin recentlyMoved tables recentlyMoved' result)
    (hpos : 0 < avoidWithin) (hnodup : tables.flatten.Nodup)
    (htake : takePlayer currentHand avoidWithin recentlyMoved' result = some (player, rest)) :
    Turned currentHand avoidWithin recentlyMoved tables ((player, currentHand) :: recentlyMoved')
      (rest.modify (sizes result).minIdx (· ++ [player])) := by
  obtain ⟨hmay, hperm⟩ := flatten_takePlayer htake
  have hturn := turn_of_takePlayer htake
  have hlength := length_takePlayer htake
  have hrest : (player :: rest.flatten).Nodup := (hperm.symm.trans h.players).nodup_iff.mpr hnodup
  obtain ⟨moved, hmoved⟩ := h.moved
  obtain ⟨a, m, hmove⟩ := hturn.move hlength hpos hmay (nodup_cons.mp hrest).1 h.length_eq
  constructor
  · rw [length_modify_append, hlength, h.length_eq]
  · have hput := flatten_modify_perm player (hlength ▸ hturn.minIdx_lt)
    exact hput.trans (hperm.symm.trans h.players)
  · exact ⟨player :: moved, hmoved.turn hturn hlength hpos hmay⟩
  · exact h.levelled.move hmove

/-- The loop comes to its `break`, and what its turns keep holds there. -/
lemma Turned.balanceLoop
    (h : Turned currentHand avoidWithin recentlyMoved tables recentlyMoved' result)
    (hpos : 0 < avoidWithin) (hnodup : tables.flatten.Nodup) (hempty : "" ∉ tables.flatten)
    {fuel : ℕ} (hfuel : result.weight < fuel) :
    let out := balanceLoop currentHand avoidWithin fuel recentlyMoved' result
    takePlayer currentHand avoidWithin out.1 out.2 = none ∧
      Turned currentHand avoidWithin recentlyMoved tables out.1 out.2 := by
  induction fuel generalizing recentlyMoved' result with
  | zero => exact absurd hfuel (Nat.not_lt_zero _)
  | succ fuel ih =>
    rw [TournamentService.balanceLoop]
    split
    · next htake => exact ⟨htake, h⟩
    · next player rest htake =>
      have hplayer : player ≠ "" := by
        rintro rfl
        have hmem := (flatten_takePlayer htake).2.mem_iff.mpr mem_cons_self
        exact hempty (h.players.mem_iff.mp hmem)
      rw [if_neg hplayer]
      exact ih (h.turn hpos hnodup htake)
        ((weight_takePlayer htake).2.trans_le (Nat.lt_succ_iff.mp hfuel))

end Loop

/-! ### What the call promises -/

/-- The sizes of the tables differ by at most one. -/
def SizesEven (result : List (List String)) : Prop :=
  ∀ t ∈ result, ∀ t' ∈ result, t.length ≤ t'.length + 1

/-- Nobody at a longest table may be moved. -/
def NobodyMayMove (currentHand avoidWithin : ℕ) (recentlyMoved : RecentlyMoved)
    (result : List (List String)) : Prop :=
  ∀ t ∈ result, (∀ t' ∈ result, t'.length ≤ t.length) →
    ∀ p ∈ t, mayMove currentHand avoidWithin recentlyMoved p = false

/-- What the call promises: its loop comes to the `break`, the players are the same, only players
who may be moved change their table, none of them twice, and the tables are even or nobody at a
longest one may be moved. -/
structure Balances (currentHand avoidWithin : ℕ) (tables : List (List String))
    (recentlyMoved : RecentlyMoved) (out : RecentlyMoved × List (List String)) : Prop where
  done : takePlayer currentHand avoidWithin out.1 out.2 = none
  players : out.2.flatten ~ tables.flatten
  moved : ∃ moved, Moved currentHand avoidWithin recentlyMoved tables moved out.1 out.2
  even : SizesEven out.2 ∨ NobodyMayMove currentHand avoidWithin out.1 out.2

section Piles

variable {currentHand avoidWithin n : ℕ} {recentlyMoved : RecentlyMoved}
  {tables result : List (List String)}

lemma forall_mem_iff_getD {P : List String → Prop} (hn : result.length = n) :
    (∀ t ∈ result, P t) ↔ ∀ i : Fin n, P (result.getD i []) := by
  subst hn
  constructor
  · intro h i
    rw [getD_eq_getElem _ _ i.isLt]
    exact h _ (getElem_mem i.isLt)
  · intro h t ht
    obtain ⟨i, hi, rfl⟩ := mem_iff_getElem.mp ht
    rw [← getD_eq_getElem _ [] hi]
    exact h ⟨i, hi⟩

lemma sizesEven_iff (hn : result.length = n) :
    SizesEven result ↔ (tablePiles currentHand avoidWithin recentlyMoved result n).Level := by
  simp only [SizesEven, forall_mem_iff_getD hn]
  rfl

lemma nobodyMayMove_iff (hn : result.length = n) :
    NobodyMayMove currentHand avoidWithin recentlyMoved result ↔
      (tablePiles currentHand avoidWithin recentlyMoved result n).Settled := by
  have hpinned : ∀ t, (∀ p ∈ t, mayMove currentHand avoidWithin recentlyMoved p = false) ↔
      pinned currentHand avoidWithin recentlyMoved t = t.length := by
    intro t
    rw [pinned, countP_eq_length]
    simp only [Bool.not_eq_true']
  simp only [NobodyMayMove, hpinned]
  simp only [forall_mem_iff_getD hn]
  rfl

lemma turned_balanceTables (currentHand : ℕ) (hpos : 0 < avoidWithin)
    (hnodup : tables.flatten.Nodup) (hempty : "" ∉ tables.flatten)
    (recentlyMoved : RecentlyMoved) :
    let out := balanceTables currentHand avoidWithin tables recentlyMoved
    takePlayer currentHand avoidWithin out.1 out.2 = none ∧
      Turned currentHand avoidWithin recentlyMoved tables out.1 out.2 :=
  Turned.refl.balanceLoop hpos hnodup hempty (Nat.lt_succ_self tables.weight)

/-- The call keeps its promise unless the players who may not be moved stall it. -/
theorem balanceTables_balances_iff (currentHand : ℕ) (hpos : 0 < avoidWithin)
    (hnodup : tables.flatten.Nodup) (hempty : "" ∉ tables.flatten)
    (recentlyMoved : RecentlyMoved) :
    Balances currentHand avoidWithin tables recentlyMoved
        (balanceTables currentHand avoidWithin tables recentlyMoved) ↔
      ¬ (tablePiles currentHand avoidWithin recentlyMoved tables tables.length).Stalls := by
  obtain ⟨hdone, hturned⟩ :=
    turned_balanceTables currentHand hpos hnodup hempty recentlyMoved
  have hsettled := hturned.levelled.settled_iff (level_or_stuck hdone hturned.length_eq)
  rw [← sizesEven_iff hturned.length_eq, ← nobodyMayMove_iff hturned.length_eq] at hsettled
  rw [← hsettled]
  exact ⟨fun h => h.even, fun h => ⟨hdone, hturned.players, hturned.moved, h⟩⟩

end Piles

/-- The players of the second table were moved two hands ago. -/
theorem balanceTables_balances_iff_threeTables :
    let tables := [["a", "b"], ["c", "d"], []]
    let recentlyMoved := [("c", 3), ("d", 3)]
    Balances 5 5 tables recentlyMoved (balanceTables 5 5 tables recentlyMoved) :=
  (balanceTables_balances_iff 5 (by decide) (by decide) (by decide) _).mpr (by decide +kernel)

/-- The players of the first table were moved two hands ago: the loop breaks there, and those of
the second table, which is as long, stay although the third one is empty. -/
theorem second_table_passed_over :
    let tables := [["a", "b"], ["c", "d"], []]
    let recentlyMoved := [("a", 3), ("b", 3)]
    (balanceTables 5 5 tables recentlyMoved).2 = tables ∧ mayMove 5 5 recentlyMoved "c" = true ∧
      ¬ Balances 5 5 tables recentlyMoved (balanceTables 5 5 tables recentlyMoved) := by
  intro tables recentlyMoved
  have hsame : balanceTables 5 5 tables recentlyMoved = (recentlyMoved, tables) := by
    decide +kernel
  refine ⟨by rw [hsame], by decide, fun h => ?_⟩
  rw [hsame] at h
  rcases h.even with heven | hnobody
  · have hsizes : 2 ≤ 0 + 1 := heven ["a", "b"] (by decide) [] (by decide)
    exact absurd hsizes (by decide)
  · have hstays := hnobody ["c", "d"] (by decide) (by decide) "c" (by decide)
    exact absurd hstays (by decide)

end Pokerhub.TournamentService
