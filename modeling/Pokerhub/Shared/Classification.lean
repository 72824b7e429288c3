import Pokerhub.Shared.HandRank
import Pokerhub.Shared.StandardOrder
import Mathlib.Data.List.Perm.Basic
import Mathlib.Tactic.IntervalCases

/-!
# `evaluate5` computes the standard category

For five distinct cards `evaluate5` returns the standard category of the hand together with its
standard tie-break ranks (`evaluate5_eq`). The ranks of such a hand, sorted high to low, have one
of six shapes (`Shape`); in each of them the counting of the program and the grouping of the
standard order are computed from the shape.
-/

namespace Pokerhub

open Standard List

/-- The name of a standard category in the program. -/
def toHandRank : Category → HandRank
  | .highCard => .highCard
  | .pair => .pair
  | .twoPair => .twoPair
  | .threeOfAKind => .threeOfAKind
  | .straight => .straight
  | .flush => .flush
  | .fullHouse => .fullHouse
  | .fourOfAKind => .fourOfAKind
  | .straightFlush => .straightFlush

/-! ### The entries of `countMap` -/

/-- What `countMap` holds after the ranks `rs`: every rank once, with its count. -/
structure Entries (m : List (ℕ × ℕ)) (rs : List ℕ) : Prop where
  nodup : (m.map Prod.fst).Nodup
  mem : ∀ e, e ∈ m ↔ e.1 ∈ rs ∧ e.2 = rs.count e.1

lemma map_fst_bump (r : ℕ) (m : List (ℕ × ℕ)) :
    (bump r m).map Prod.fst =
      if r ∈ m.map Prod.fst then m.map Prod.fst else m.map Prod.fst ++ [r] := by
  induction m with
  | nil => simp [bump]
  | cons e m ih =>
    simp only [bump]
    by_cases he : e.1 = r
    · simp [he]
    · rw [if_neg he, map_cons, ih]
      have hne : ¬ r = e.1 := fun h => he h.symm
      by_cases hr : r ∈ m.map Prod.fst
      · rw [if_pos hr, if_pos (by simp only [map_cons, mem_cons]; exact Or.inr hr), map_cons]
      · rw [if_neg hr, if_neg (by simp only [map_cons, mem_cons]; tauto), map_cons, cons_append]

lemma mem_bump {r : ℕ} {m : List (ℕ × ℕ)} (hm : (m.map Prod.fst).Nodup) (e : ℕ × ℕ) :
    e ∈ bump r m ↔ (e.1 ≠ r ∧ e ∈ m) ∨ (e.1 = r ∧ (e.1, e.2 - 1) ∈ m ∧ 0 < e.2) ∨
      (e = (r, 1) ∧ r ∉ m.map Prod.fst) := by
  induction m with
  | nil => simp [bump]
  | cons f m ih =>
    obtain ⟨x, n⟩ := f
    obtain ⟨y, k⟩ := e
    simp only [map_cons, nodup_cons] at hm
    simp only [bump]
    by_cases hx : x = r
    · subst hx
      have hnot : ∀ j, (x, j) ∉ m := fun j hj => hm.1 (mem_map_of_mem (f := Prod.fst) hj)
      rw [if_pos rfl]
      simp only [mem_cons, Prod.mk.injEq, map_cons, true_or, not_true_eq_false, and_false,
        or_false]
      constructor
      · rintro (⟨rfl, rfl⟩ | h)
        · exact Or.inr ⟨rfl, Or.inl ⟨rfl, rfl⟩, by omega⟩
        · refine Or.inl ⟨?_, Or.inr h⟩
          rintro rfl
          exact hnot k h
      · rintro (⟨hy, h | h⟩ | ⟨rfl, h | h, hk⟩)
        · exact absurd h.1 hy
        · exact Or.inr h
        · exact Or.inl ⟨rfl, by omega⟩
        · exact absurd h (hnot _)
    · rw [if_neg hx]
      simp only [mem_cons, ih hm.2, Prod.mk.injEq, map_cons]
      constructor
      · rintro (⟨rfl, rfl⟩ | h | h | h)
        · exact Or.inl ⟨hx, Or.inl ⟨rfl, rfl⟩⟩
        · exact Or.inl ⟨h.1, Or.inr h.2⟩
        · exact Or.inr (Or.inl ⟨h.1, Or.inr h.2.1, h.2.2⟩)
        · refine Or.inr (Or.inr ⟨h.1, ?_⟩)
          rintro (h' | h')
          · exact hx h'.symm
          · exact h.2 h'
      · rintro (⟨hy, h | h⟩ | ⟨hy, h | h, hk⟩ | ⟨h, h'⟩)
        · exact Or.inl h
        · exact Or.inr (Or.inl ⟨hy, h⟩)
        · exact absurd (h.1.symm.trans hy) hx
        · exact Or.inr (Or.inr (Or.inl ⟨hy, h, hk⟩))
        · exact Or.inr (Or.inr (Or.inr ⟨h, fun h'' => h' (Or.inr h'')⟩))

lemma Entries.bump {m : List (ℕ × ℕ)} {rs : List ℕ} (h : Entries m rs) (r : ℕ) :
    Entries (Pokerhub.bump r m) (rs ++ [r]) := by
  have hkeys : ∀ x, x ∈ m.map Prod.fst ↔ x ∈ rs := by
    intro x
    rw [mem_map]
    constructor
    · rintro ⟨e, he, rfl⟩
      exact ((h.mem e).mp he).1
    · intro hx
      exact ⟨(x, rs.count x), (h.mem _).mpr ⟨hx, rfl⟩, rfl⟩
  constructor
  · rw [map_fst_bump]
    split
    · exact h.nodup
    · rename_i hr
      exact nodup_append'.mpr ⟨h.nodup, by simp, by simpa using hr⟩
  · rintro ⟨x, n⟩
    rw [mem_bump h.nodup]
    simp only [h.mem, hkeys, mem_append, mem_singleton, count_append, count_singleton,
      Prod.mk.injEq]
    by_cases hx : x = r
    · subst hx
      by_cases hr : x ∈ rs
      · have := count_pos_iff.mpr hr
        simp only [ne_eq, not_true_eq_false, false_and, hr, true_and, and_false,
          or_false, false_or, beq_self_eq_true, if_true, true_or]
        omega
      · have := count_eq_zero.mpr hr
        simp only [ne_eq, not_true_eq_false, false_and, hr, true_and, and_false, false_or,
          beq_self_eq_true, if_true, or_true, not_false_eq_true, and_true]
        omega
    · have hrx : ¬ r = x := fun h' => hx h'.symm
      simp [hx, hrx]

/-- The fold of the program leaves every rank with its count. -/
lemma entries_foldl (rs : List ℕ) : Entries (rs.foldl (fun m r => bump r m) []) rs := by
  have hgen : ∀ (l pre : List ℕ) (m : List (ℕ × ℕ)), Entries m pre →
      Entries (l.foldl (fun m r => bump r m) m) (pre ++ l) := by
    intro l
    induction l with
    | nil => simp
    | cons r l ih =>
      intro pre m hm
      have := ih (pre ++ [r]) _ (hm.bump r)
      simpa using this
  exact hgen rs [] [] ⟨by simp, by simp⟩

/-! ### Counts and groups -/

lemma before_total (rs : List ℕ) (a b : ℕ) : Before rs a b ∨ Before rs b a := by
  unfold Before
  omega

lemma before_trans {rs : List ℕ} {a b c : ℕ} (h : Before rs a b) (h' : Before rs b c) :
    Before rs a c := by
  unfold Before at *
  omega

lemma before_antisymm {rs : List ℕ} {a b : ℕ} (h : Before rs a b) (h' : Before rs b a) :
    a = b := by
  unfold Before at *
  omega

lemma countsBefore_iff (a b : ℕ × ℕ) :
    countsBefore a b ↔ b.2 < a.2 ∨ (a.2 = b.2 ∧ b.1 ≤ a.1) := by
  unfold countsBefore
  split <;> omega

instance (rs : List ℕ) : Std.Total (Before rs) := ⟨before_total rs⟩
instance (rs : List ℕ) : IsTrans ℕ (Before rs) := ⟨fun _ _ _ => before_trans⟩

instance : Std.Total countsBefore :=
  ⟨fun a b => by rw [countsBefore_iff, countsBefore_iff]; omega⟩

instance : IsTrans (ℕ × ℕ) countsBefore :=
  ⟨fun a b c h h' => by rw [countsBefore_iff] at *; omega⟩

lemma countsBefore_antisymm {a b : ℕ × ℕ} (h : countsBefore a b) (h' : countsBefore b a) :
    a = b := by
  rw [countsBefore_iff] at h h'
  ext <;> omega

lemma mem_groups {rs : List ℕ} {r : ℕ} : r ∈ groups rs ↔ r ∈ rs := by
  simp [groups]

lemma groups_nodup (rs : List ℕ) : (groups rs).Nodup :=
  (perm_insertionSort _ _).nodup_iff.mpr (nodup_dedup rs)

lemma groups_pairwise (rs : List ℕ) : (groups rs).Pairwise (Before rs) :=
  pairwise_insertionSort _ _

/-- The groups are the only arrangement of the distinct ranks in the standard order. -/
lemma groups_eq {rs gs : List ℕ} (hnodup : gs.Nodup) (hmem : ∀ r, r ∈ gs ↔ r ∈ rs)
    (hgs : gs.Pairwise (Before rs)) : groups rs = gs := by
  refine Perm.eq_of_pairwise (fun _ _ _ _ => before_antisymm) (groups_pairwise rs) hgs ?_
  exact (perm_ext_iff_of_nodup (groups_nodup rs) hnodup).mpr fun r => by
    rw [mem_groups, hmem]

/-- `counts` lists the groups with their multiplicities. -/
lemma counts_eq (rs : List ℕ) :
    (rs.foldl (fun m r => bump r m) []).insertionSort countsBefore =
      (groups rs).map fun r => (r, rs.count r) := by
  have hentries := entries_foldl rs
  refine Perm.eq_of_pairwise (fun _ _ _ _ => countsBefore_antisymm)
    (pairwise_insertionSort _ _) ?_ ?_
  · rw [pairwise_map]
    exact (groups_pairwise rs).imp fun h => (countsBefore_iff _ _).mpr h
  · refine (perm_insertionSort _ _).trans ?_
    refine (perm_ext_iff_of_nodup (Nodup.of_map _ hentries.nodup) ?_).mpr ?_
    · exact (groups_nodup rs).map fun _ _ h => congrArg Prod.fst h
    · rintro ⟨x, n⟩
      simp only [hentries.mem, mem_map, Prod.mk.injEq, mem_groups]
      constructor
      · rintro ⟨hx, rfl⟩
        exact ⟨x, hx, rfl, rfl⟩
      · rintro ⟨y, hy, rfl, rfl⟩
        exact ⟨hy, rfl⟩

/-! ### The shapes of five ranks -/

/-- The ways five ranks, not all equal, can repeat. -/
inductive Shape (rs : List ℕ) : Prop where
  | distinct (h : rs.Nodup)
  | pair (x y z w : ℕ) (h : rs ~ [x, x, y, z, w]) (hyz : z < y) (hzw : w < z)
      (hx : x ∉ [y, z, w])
  | twoPair (x y z : ℕ) (h : rs ~ [x, x, y, y, z]) (hxy : y < x) (hz : z ∉ [x, y])
  | threeOfAKind (x y z : ℕ) (h : rs ~ [x, x, x, y, z]) (hyz : z < y) (hx : x ∉ [y, z])
  | fullHouse (x y : ℕ) (h : rs ~ [x, x, x, y, y]) (hxy : x ≠ y)
  | fourOfAKind (x y : ℕ) (h : rs ~ [x, x, x, x, y]) (hxy : x ≠ y)

lemma Shape.of_sorted {a b c d e : ℕ} (hab : b ≤ a) (hbc : c ≤ b) (hcd : d ≤ c) (hde : e ≤ d)
    (hne : a ≠ e) : Shape [a, b, c, d, e] := by
  rcases hab.eq_or_lt with rfl | hab <;> rcases hbc.eq_or_lt with rfl | hbc <;>
    rcases hcd.eq_or_lt with rfl | hcd <;> rcases hde.eq_or_lt with rfl | hde
  · exact absurd rfl hne
  · exact .fourOfAKind d e (Perm.refl _) (by omega)
  · exact .fullHouse c e (Perm.refl _) (by omega)
  · exact .threeOfAKind c d e (Perm.refl _) hde (by simp; omega)
  · exact .fullHouse e b (by grind) (by omega)
  · exact .twoPair b d e (Perm.refl _) hbc (by simp; omega)
  · exact .twoPair b e c (by grind) (by omega) (by simp; omega)
  · exact .pair b c d e (Perm.refl _) hcd hde (by simp; omega)
  · exact .fourOfAKind e a (by grind) (by omega)
  · exact .threeOfAKind d a e (by grind) (by omega) (by simp; omega)
  · exact .twoPair c e a (by grind) (by omega) (by simp; omega)
  · exact .pair c a d e (by grind) (by omega) hde (by simp; omega)
  · exact .threeOfAKind e a b (by grind) hab (by simp; omega)
  · exact .pair d a b e (by grind) hab (by omega) (by simp; omega)
  · exact .pair e a b c (by grind) hab hbc (by simp; omega)
  · exact .distinct (by simp; omega)

/-! ### Straights -/

/-- Five members of a list without repetition need five places. -/
lemma length_of_nodup_subset (gs rs : List ℕ) (h : gs.Nodup) (hs : ∀ r ∈ gs, r ∈ rs) :
    gs.length ≤ rs.length :=
  (subperm_of_subset h hs).length_le

lemma length_lt_of_not_nodup {rs : List ℕ} (h : ¬ rs.Nodup) : rs.dedup.length < rs.length := by
  refine lt_of_le_of_ne (dedup_sublist rs).length_le fun heq => h ?_
  rw [← (dedup_sublist rs).eq_of_length heq]
  exact nodup_dedup rs

lemma isStraightTo_five {rs : List ℕ} {top : ℕ} (h : IsStraightTo rs top) :
    5 ≤ rs.dedup.length := by
  rcases h with ⟨htop, h⟩ | ⟨_, h⟩
  · have hnodup : ([0, 1, 2, 3, 4].map fun k => top - k).Nodup := by simp; omega
    refine length_of_nodup_subset _ _ hnodup fun r hr => ?_
    obtain ⟨k, hk, rfl⟩ := mem_map.mp hr
    exact mem_dedup.mpr (h k (by simp at hk; omega))
  · exact length_of_nodup_subset [12, 0, 1, 2, 3] _ (by decide)
      fun r hr => mem_dedup.mpr (h r hr)

/-- Repeated ranks leave no room for a straight. -/
lemma straightTop_eq_none {rs : List ℕ} (hlen : rs.length = 5) (h : ¬ rs.Nodup) :
    straightTop rs = none := by
  refine find?_eq_none.mpr fun top _ ht => ?_
  have := isStraightTo_five (of_decide_eq_true ht)
  have := length_lt_of_not_nodup h
  omega

lemma straightHigh_eq_none {rs : List ℕ} (hlen : rs.length = 5) (h : ¬ rs.Nodup) :
    straightHigh (rs.dedup.insertionSort (· ≤ ·)) = none := by
  have hlt := length_lt_of_not_nodup h
  have hwindows : (rs.dedup.insertionSort (· ≤ ·)).length - 4 = 0 := by
    rw [length_insertionSort]
    omega
  have hwheel : ¬ (12 ∈ rs ∧ 0 ∈ rs ∧ 1 ∈ rs ∧ 2 ∈ rs ∧ 3 ∈ rs) := by
    rintro ⟨h₁, h₂, h₃, h₄, h₅⟩
    have hstraight : IsStraightTo rs 3 := Or.inr ⟨rfl, by simp [h₁, h₂, h₃, h₄, h₅]⟩
    have := isStraightTo_five hstraight
    omega
  simp only [straightHigh, hwindows, range_zero, foldl_nil, mem_insertionSort, mem_dedup, true_and,
    if_neg hwheel]

lemma find?_range_of_unique {p : ℕ → Bool} {n t : ℕ} (ht : t < n) (h : ∀ k, p k = true ↔ k = t) :
    (range n).find? p = some t := by
  cases hf : (range n).find? p with
  | none => exact absurd ((h t).mpr rfl) (find?_eq_none.mp hf t (mem_range.mpr ht))
  | some k => rw [(h k).mp (find?_some hf)]

/-- On five different ranks the window of the program is the whole hand. -/
lemma straightHigh_eq {a b c d e : ℕ} (ha : a ≤ 12) (hab : b < a) (hbc : c < b) (hcd : d < c)
    (hde : e < d) : straightHigh [e, d, c, b, a] = straightTop [a, b, c, d, e] := by
  have hiff : ∀ top, IsStraightTo [a, b, c, d, e] top ↔
      (a - e = 4 ∧ top = a) ∨
        (a = 12 ∧ b = 3 ∧ c = 2 ∧ d = 1 ∧ e = 0 ∧ top = 3) := by
    intro top
    constructor
    · rintro (⟨htop, h⟩ | ⟨rfl, h⟩)
      · have h₀ := h 0 (by omega)
        have h₁ := h 1 (by omega)
        have h₂ := h 2 (by omega)
        have h₃ := h 3 (by omega)
        have h₄ := h 4 (by omega)
        simp only [mem_cons, not_mem_nil, or_false] at h₀ h₁ h₂ h₃ h₄
        -- each rank has at least its place in the straight, from the highest on
        have htop' : top ≤ a := by omega
        have hb : top - 1 ≤ b := by omega
        have hc : top - 2 ≤ c := by omega
        have hd : top - 3 ≤ d := by omega
        have he : top - 4 = e := by omega
        -- and no more than that, from the lowest on
        have hd' : top - 3 = d := by omega
        have hc' : top - 2 = c := by omega
        have hb' : top - 1 = b := by omega
        have ha' : top = a := by omega
        exact Or.inl ⟨by omega, ha'⟩
      · simp only [mem_cons, not_mem_nil, or_false, forall_eq_or_imp, forall_eq] at h
        omega
    · rintro (⟨h, rfl⟩ | ⟨rfl, rfl, rfl, rfl, rfl, rfl⟩)
      · refine Or.inl ⟨by omega, fun k hk => ?_⟩
        simp only [mem_cons, not_mem_nil, or_false]
        omega
      · exact Or.inr ⟨rfl, by simp⟩
  have hcode : straightHigh [e, d, c, b, a] =
      if a - e = 4 then some a
      else if a = 12 ∧ b = 3 ∧ c = 2 ∧ d = 1 ∧ e = 0 then some 3 else none := by
    simp only [straightHigh, length_cons, length_nil, Nat.reduceAdd, Nat.reduceSub, range_one,
      foldl_cons, foldl_nil, drop_zero, take_succ_cons, take_zero, getD_cons_zero,
      getD_cons_succ]
    by_cases h : a - e = 4
    · simp [h]
    · simp only [if_neg h, mem_cons, not_mem_nil, or_false, true_and]
      congr 1
      simp only [eq_iff_iff]
      omega
  rw [hcode]
  symm
  by_cases hrun : a - e = 4
  · rw [if_pos hrun]
    refine find?_range_of_unique (by omega) fun top => ?_
    rw [decide_eq_true_iff, hiff]
    omega
  · rw [if_neg hrun]
    by_cases hwheel : a = 12 ∧ b = 3 ∧ c = 2 ∧ d = 1 ∧ e = 0
    · rw [if_pos hwheel]
      refine find?_range_of_unique (by omega) fun top => ?_
      rw [decide_eq_true_iff, hiff]
      omega
    · rw [if_neg hwheel]
      refine find?_eq_none.mpr fun top _ => ?_
      rw [decide_eq_true_iff, hiff]
      omega

/-! ### The classification -/

/-- Removing a rank from sorted ranks leaves the others, sorted. -/
lemma filter_eq_of_perm {rs l : List ℕ} (gs : List ℕ) {p : ℕ → Bool} (hsorted : rs.Pairwise (· ≥ ·))
    (h : rs ~ l) (hl : l.filter p = gs) (hgs : gs.Pairwise (· ≥ ·)) : rs.filter p = gs := by
  refine Perm.eq_of_pairwise (fun _ _ _ _ h h' => le_antisymm h' h) (hsorted.filter p) hgs ?_
  exact hl ▸ h.filter p

/-- How often the ranks of a hand occur, the highest number first. -/
def kinds (rs : List ℕ) : List ℕ :=
  (groups rs).map fun r => rs.count r

/-- The groups of a list and how often each occurs, read off a rearrangement of the list. -/
lemma groups_of_perm {rs l : List ℕ} (gs : List (ℕ × ℕ)) (h : rs ~ l)
    (hnodup : (gs.map Prod.fst).Nodup) (hmem : ∀ r, r ∈ gs.map Prod.fst ↔ r ∈ l)
    (hcount : ∀ e ∈ gs, l.count e.1 = e.2)
    (hgs : gs.Pairwise fun a b => b.2 < a.2 ∨ (a.2 = b.2 ∧ b.1 ≤ a.1)) :
    groups rs = gs.map Prod.fst ∧ (groups rs).map (fun r => (r, rs.count r)) = gs ∧
      kinds rs = gs.map Prod.snd := by
  have hg : groups rs = gs.map Prod.fst := by
    refine groups_eq hnodup (fun r => by rw [hmem, h.mem_iff]) ?_
    rw [pairwise_map]
    refine hgs.imp_of_mem fun {a b} ha hb hab => ?_
    rwa [Before, h.count_eq, h.count_eq, hcount a ha, hcount b hb]
  have hgs : (groups rs).map (fun r => (r, rs.count r)) = gs := by
    rw [hg, map_map]
    conv_rhs => rw [← map_id gs]
    refine map_congr_left fun e he => ?_
    simp [h.count_eq, hcount e he]
  exact ⟨hg, hgs, by simpa [kinds, Function.comp_def] using congrArg (map Prod.snd) hgs⟩

lemma hasKind_iff {rs : List ℕ} {k : ℕ} : HasKind rs k ↔ k ∈ kinds rs := by
  simp only [HasKind, kinds, mem_map, mem_groups]

/-- The standard category of a hand without a straight or a flush, from its multiplicities. -/
def kindCategory (ks : List ℕ) : Category :=
  if 4 ∈ ks then .fourOfAKind
  else if 3 ∈ ks ∧ 2 ∈ ks then .fullHouse
  else if 3 ∈ ks then .threeOfAKind
  else if 2 ≤ ks.count 2 then .twoPair
  else if 2 ∈ ks then .pair
  else .highCard

lemma twoPair_iff {rs : List ℕ} :
    (∃ r ∈ rs, ∃ s ∈ rs, r ≠ s ∧ rs.count r = 2 ∧ rs.count s = 2) ↔ 2 ≤ (kinds rs).count 2 := by
  have hcount : (kinds rs).count 2 = ((groups rs).filter fun r => rs.count r = 2).length := by
    rw [kinds, count, countP_map, countP_eq_length_filter]
    congr 2
  have hnodup := (groups_nodup rs).filter fun r => rs.count r = 2
  rw [hcount]
  constructor
  · rintro ⟨r, hr, s, hs, hrs, hr₂, hs₂⟩
    refine length_of_nodup_subset [r, s] _ (by simpa using hrs) ?_
    simp [mem_groups, hr, hs, hr₂, hs₂]
  · intro h
    match hl : (groups rs).filter fun r => rs.count r = 2 with
    | [] => simp [hl] at h
    | [_] => simp [hl] at h
    | r :: s :: l =>
      rw [hl] at hnodup
      have hr : r ∈ (groups rs).filter fun r => rs.count r = 2 := by simp [hl]
      have hs : s ∈ (groups rs).filter fun r => rs.count r = 2 := by simp [hl]
      simp only [mem_filter, mem_groups, decide_eq_true_iff] at hr hs
      have hrs : r ≠ s := by
        rintro rfl
        simp at hnodup
      exact ⟨r, hr.1, s, hs.1, hrs, hr.2, hs.2⟩

lemma find?_cons_decide {α : Type*} (p : α → Prop) [DecidablePred p] (a : α) (l : List α) :
    (a :: l).find? (fun x => decide (p x)) =
      if p a then some a else l.find? fun x => decide (p x) := by
  by_cases h : p a <;> simp [h]

lemma categoryOf_eq (rs : List ℕ) (flush : Prop) [Decidable flush] :
    categoryOf rs flush =
      if flush ∧ (straightTop rs).isSome then .straightFlush
      else if 4 ∈ kinds rs then .fourOfAKind
      else if 3 ∈ kinds rs ∧ 2 ∈ kinds rs then .fullHouse
      else if flush then .flush
      else if (straightTop rs).isSome then .straight
      else kindCategory (kinds rs) := by
  unfold categoryOf Category.highToLow
  simp only [find?_cons_decide]
  simp only [Meets, hasKind_iff, twoPair_iff, kindCategory]
  split_ifs <;> rfl

/-- How many ranks break a tie in each category. -/
def kickerCount : Category → ℕ
  | .straightFlush | .straight => 1
  | .fourOfAKind | .fullHouse => 2
  | .threeOfAKind | .twoPair => 3
  | .pair => 4
  | .flush | .highCard => 5

/-- What the tie-break ranks of a category look like: their number is fixed, and five different
ranks reach up to the six at least. -/
@[mk_iff]
structure TieShape (k : Category) (ts : List ℕ) : Prop where
  length : ts.length = kickerCount k
  lead : k = .highCard → 4 ≤ ts.headD 0

variable {rs : List ℕ} {flush : Prop} [Decidable flush]

omit [Decidable flush] in
/-- With repeated ranks there is neither a straight nor, for distinct cards, a flush. -/
lemma not_flush_of_repeat {l : List ℕ} (hlen : rs.length = 5) (hflush : flush → rs.Nodup)
    (h : rs ~ l) (hl : ¬ l.Nodup) :
    ¬ flush ∧ straightTop rs = none ∧ straightHigh (rs.dedup.insertionSort (· ≤ ·)) = none := by
  have hrs : ¬ rs.Nodup := by rwa [h.nodup_iff]
  exact ⟨fun hf => hrs (hflush hf), straightTop_eq_none hlen hrs, straightHigh_eq_none hlen hrs⟩

/-- Five different ranks: the straight and the suits decide. -/
lemma classify_eq_of_nodup (hsorted : rs.Pairwise (· ≥ ·)) (hlen : rs.length = 5)
    (h : rs.Nodup) (hle : ∀ r ∈ rs, r ≤ 12) :
    classify rs (decide flush) =
        ⟨toHandRank (categoryOf rs flush), tieBreak rs (categoryOf rs flush)⟩ ∧
      TieShape (categoryOf rs flush) (tieBreak rs (categoryOf rs flush)) := by
  match rs, hlen with
  | [a, b, c, d, e], _ =>
    simp only [pairwise_cons, mem_cons, not_mem_nil, or_false, forall_eq_or_imp,
      forall_eq] at hsorted
    have hstrict : (e < d ∧ d < c) ∧ c < b ∧ b < a := by
      simp only [nodup_cons, mem_cons, not_mem_nil, or_false, not_or] at h
      omega
    obtain ⟨⟨hde, hcd⟩, hbc, hab⟩ := hstrict
    obtain ⟨hg, hgs, hks⟩ := groups_of_perm [(a, 1), (b, 1), (c, 1), (d, 1), (e, 1)]
      (Perm.refl [a, b, c, d, e]) (by simpa using h) (by simp)
      (fun p hp => by
        have hp₁ : p.2 = 1 ∧ p.1 ∈ [a, b, c, d, e] := by
          simp only [mem_cons, not_mem_nil, or_false] at hp ⊢
          rcases hp with rfl | rfl | rfl | rfl | rfl <;> simp
        rw [hp₁.1, count_eq_one_of_mem h hp₁.2])
      (by simp; omega)
    have hlead : 4 ≤ a := by omega
    have hunique : [a, b, c, d, e].dedup.insertionSort (· ≤ ·) = [e, d, c, b, a] := by
      rw [h.dedup]
      exact Perm.eq_of_pairwise (fun _ _ _ _ => le_antisymm) (pairwise_insertionSort _ _)
        (by simp; omega) ((perm_insertionSort _ _).trans (reverse_perm [e, d, c, b, a]))
    have hstraight := straightHigh_eq (hle a (by simp)) hab hbc hcd hde
    simp only [classify, counts_eq, hgs, hunique, hstraight]
    rw [categoryOf_eq, hks]
    cases ht : straightTop [a, b, c, d, e] with
    | none =>
      by_cases hf : flush <;> simp [hf, kindCategory, toHandRank, tieBreak, hg, tieShape_iff, kickerCount,
        hlead]
    | some top =>
      by_cases hf : flush <;> simp [hf, ht, toHandRank, tieBreak, tieShape_iff, kickerCount]

/-- On each shape the program computes the standard category and tie-break ranks. -/
lemma classify_eq_of_shape (hsorted : rs.Pairwise (· ≥ ·)) (hlen : rs.length = 5)
    (hshape : Shape rs) (hle : ∀ r ∈ rs, r ≤ 12) (hflush : flush → rs.Nodup) :
    classify rs (decide flush) =
        ⟨toHandRank (categoryOf rs flush), tieBreak rs (categoryOf rs flush)⟩ ∧
      TieShape (categoryOf rs flush) (tieBreak rs (categoryOf rs flush)) := by
  cases hshape with
  | distinct h => exact classify_eq_of_nodup hsorted hlen h hle
  | pair x y z w h hyz hzw hx =>
    obtain ⟨hf, ht, hh⟩ := not_flush_of_repeat hlen hflush h (by simp)
    simp only [mem_cons, not_mem_nil, or_false, not_or] at hx
    obtain ⟨hxy, hxz, hxw⟩ := hx
    obtain ⟨hg, hgs, hks⟩ := groups_of_perm [(x, 2), (y, 1), (z, 1), (w, 1)] h
      (by simp; omega) (by simp)
      (by simp [count_cons, hxy, hxz, hxw, Ne.symm hxy, Ne.symm hxz, Ne.symm hxw, hyz.ne, hyz.ne',
        hzw.ne, hzw.ne', (hzw.trans hyz).ne, (hzw.trans hyz).ne'])
      (by simp; omega)
    have hrest : rs.filter (fun r => !decide (r = x)) = [y, z, w] :=
      filter_eq_of_perm _ hsorted h (by simp; omega) (by simp; omega)
    simp only [classify, counts_eq, hgs, hf, hh]
    simp [hrest, categoryOf_eq, ht, hks, kindCategory, toHandRank, tieBreak, hg, tieShape_iff,
      kickerCount]
  | twoPair x y z h hxy hz =>
    obtain ⟨hf, ht, hh⟩ := not_flush_of_repeat hlen hflush h (by simp)
    simp only [mem_cons, not_mem_nil, or_false, not_or] at hz
    obtain ⟨hzx, hzy⟩ := hz
    obtain ⟨hg, hgs, hks⟩ := groups_of_perm [(x, 2), (y, 2), (z, 1)] h
      (by simp; omega) (by simp)
      (by simp [count_cons, hxy.ne, hxy.ne', hzx, hzy, Ne.symm hzx, Ne.symm hzy]) (by simp; omega)
    have hrest : rs.find? (fun r => decide (r ≠ max x y ∧ r ≠ min x y)) = some z := by
      rw [max_eq_left hxy.le, min_eq_right hxy.le, ← head?_filter,
        filter_eq_of_perm [z] hsorted h (by simp [hzx, hzy]) (by simp)]
      rfl
    simp only [classify, counts_eq, hgs, hf, hh, getD_cons_zero, getD_cons_succ, hrest]
    simp [categoryOf_eq, ht, hks, kindCategory, toHandRank, tieBreak, hg, tieShape_iff,
      kickerCount, hxy.le]
  | threeOfAKind x y z h hyz hx =>
    obtain ⟨hf, ht, hh⟩ := not_flush_of_repeat hlen hflush h (by simp)
    simp only [mem_cons, not_mem_nil, or_false, not_or] at hx
    obtain ⟨hxy, hxz⟩ := hx
    obtain ⟨hg, hgs, hks⟩ := groups_of_perm [(x, 3), (y, 1), (z, 1)] h
      (by simp; omega) (by simp)
      (by simp [count_cons, hyz.ne, hyz.ne', hxy, hxz, Ne.symm hxy, Ne.symm hxz]) (by simp; omega)
    have hrest : rs.filter (fun r => !decide (r = x)) = [y, z] :=
      filter_eq_of_perm _ hsorted h (by simp; omega) (by simp; omega)
    simp only [classify, counts_eq, hgs, hf, hh]
    simp [hrest, categoryOf_eq, ht, hks, kindCategory, toHandRank, tieBreak, hg, tieShape_iff,
      kickerCount]
  | fullHouse x y h hxy =>
    obtain ⟨hf, ht, hh⟩ := not_flush_of_repeat hlen hflush h (by simp)
    obtain ⟨hg, hgs, hks⟩ := groups_of_perm [(x, 3), (y, 2)] h
      (by simpa using hxy) (by simp) (by simp [count_cons, hxy, hxy.symm]) (by simp)
    simp only [classify, counts_eq, hgs, hf, hh]
    simp [categoryOf_eq, ht, hks, toHandRank, tieBreak, hg, tieShape_iff,
      kickerCount]
  | fourOfAKind x y h hxy =>
    obtain ⟨hf, ht, hh⟩ := not_flush_of_repeat hlen hflush h (by simp)
    obtain ⟨hg, hgs, hks⟩ := groups_of_perm [(x, 4), (y, 1)] h
      (by simpa using hxy) (by simp) (by simp [count_cons, hxy, hxy.symm]) (by simp)
    have hrest : rs.find? (fun r => !decide (r = x)) = some y := by
      rw [← head?_filter, filter_eq_of_perm [y] hsorted h (by simp; omega) (by simp)]
      rfl
    simp only [classify, counts_eq, hgs, hf, hh]
    simp [hrest, categoryOf_eq, ht, hks, toHandRank, tieBreak, hg, tieShape_iff,
      kickerCount]

lemma isFlush_iff (hand : List ℕ) :
    ((hand.map (· % 4)).all fun s => s == (hand.map (· % 4)).getD 0 0) =
      decide (IsFlush hand) := by
  rw [Bool.eq_iff_iff, decide_eq_true_iff]
  cases hand with
  | nil => simp [IsFlush]
  | cons x l =>
    simp only [map_cons, getD_cons_zero, all_cons, beq_self_eq_true, Bool.true_and, all_eq_true,
      mem_map, beq_iff_eq, forall_exists_index, and_imp, forall_apply_eq_imp_iff₂]
    constructor
    · intro h
      have hx : ∀ c ∈ x :: l, c % 4 = x % 4 := by simpa using h
      exact fun c hc d hd => (hx c hc).trans (hx d hd).symm
    · exact fun h c hc => h c (by simp [hc]) x (by simp)

/-- Cards of one suit have different ranks. -/
lemma IsFlush.nodup_ranks {hand : List ℕ} (h : IsFlush hand) (hnodup : hand.Nodup) :
    (ranks hand).Nodup := by
  refine (perm_insertionSort _ _).nodup_iff.mpr (hnodup.map_on fun c hc d hd hcd => ?_)
  have := h c hc d hd
  omega

/-- Five distinct cards are not all of one rank. -/
lemma not_all_one_rank {hand : List ℕ} (hlen : hand.length = 5) (hnodup : hand.Nodup) (r : ℕ) :
    ¬ ∀ c ∈ hand, c / 4 = r := by
  intro h
  have hsuits : (hand.map (· % 4)).Nodup := by
    refine hnodup.map_on fun c hc d hd hcd => ?_
    have hc' := h c hc
    have hd' := h d hd
    omega
  have hle := length_of_nodup_subset _ (range 4) hsuits fun s hs => by
    obtain ⟨c, _, rfl⟩ := mem_map.mp hs
    exact mem_range.mpr (Nat.mod_lt _ (by omega))
  simp [hlen] at hle

lemma shape_of_hand {hand : List ℕ} (hlen : hand.length = 5) (hnodup : hand.Nodup) :
    Shape (ranks hand) := by
  have hsorted : (ranks hand).Pairwise (· ≥ ·) := pairwise_insertionSort _ _
  have hrlen : (ranks hand).length = 5 := by simp [ranks, hlen]
  match hr : ranks hand, hrlen with
  | [a, b, c, d, e], _ =>
    rw [hr] at hsorted
    simp only [pairwise_cons, mem_cons, not_mem_nil, or_false, forall_eq_or_imp,
      forall_eq] at hsorted
    refine .of_sorted (by omega) (by omega) (by omega) (by omega) fun hae => ?_
    refine not_all_one_rank hlen hnodup a fun x hx => ?_
    have hmem : x / 4 ∈ ranks hand := by
      simp only [ranks, mem_insertionSort, mem_map]
      exact ⟨x, hx, rfl⟩
    rw [hr] at hmem
    simp only [mem_cons, not_mem_nil, or_false] at hmem
    omega

lemma classify_hand {hand : List ℕ} (hlen : hand.length = 5) (hnodup : hand.Nodup)
    (hcards : ∀ c ∈ hand, c < 52) :
    classify (ranks hand) (decide (IsFlush hand)) =
        ⟨toHandRank (category hand), tieBreak (ranks hand) (category hand)⟩ ∧
      TieShape (category hand) (tieBreak (ranks hand) (category hand)) := by
  refine classify_eq_of_shape (pairwise_insertionSort _ _) (by simp [ranks, hlen])
    (shape_of_hand hlen hnodup) (fun r hr => ?_) fun h => IsFlush.nodup_ranks h hnodup
  simp only [ranks, mem_insertionSort, mem_map] at hr
  obtain ⟨c, hc, rfl⟩ := hr
  have := hcards c hc
  omega

/-- On five distinct cards the program computes the standard category and tie-break ranks. -/
theorem evaluate5_eq {hand : List ℕ} (hlen : hand.length = 5) (hnodup : hand.Nodup)
    (hcards : ∀ c ∈ hand, c < 52) :
    evaluate5 hand =
      ⟨toHandRank (category hand), tieBreak (ranks hand) (category hand)⟩ := by
  simp only [evaluate5, isFlush_iff]
  exact (classify_hand hlen hnodup hcards).1

lemma straightTop_le {rs : List ℕ} {top : ℕ} (h : straightTop rs = some top) : top ≤ 12 := by
  have := mem_range.mp (mem_of_find?_eq_some h)
  omega

/-- A tie is broken by ranks. -/
lemma tieBreak_le {hand : List ℕ} (hcards : ∀ c ∈ hand, c < 52) (k : Category) :
    ∀ t ∈ tieBreak (ranks hand) k, t ≤ 12 := by
  have hgroups : ∀ t ∈ groups (ranks hand), t ≤ 12 := by
    intro t ht
    simp only [mem_groups, ranks, mem_insertionSort, mem_map] at ht
    obtain ⟨c, hc, rfl⟩ := ht
    have := hcards c hc
    omega
  have htop : (straightTop (ranks hand)).getD 0 ≤ 12 := by
    cases h : straightTop (ranks hand) with
    | none => simp
    | some top => simpa using straightTop_le h
  cases k with
  | straightFlush | straight => simpa [tieBreak] using htop
  | _ => exact hgroups

end Pokerhub
