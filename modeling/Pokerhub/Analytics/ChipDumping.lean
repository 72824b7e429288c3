import Mathlib.Algebra.Order.BigOperators.Group.Multiset
import Mathlib.Algebra.Order.Field.Rat
import Mathlib.Tactic.FieldSimp
import Mathlib.Tactic.Linarith
import Mathlib.Tactic.NormNum
import Mathlib.Tactic.Ring
import Pokerhub.Core.Json
import Pokerhub.Core.Maximum
import Pokerhub.Core.Tally

/-!
# Chip dumping

`detectChipDump` of `shared/analytics/collusion.ts` with the threshold of `CollusionDetectionJob`,
and the flags for chip dumping of `runCollusionHeuristics` in `analytics.service.ts`, in exact
arithmetic. The balances of all players add up to zero, so none of them is more than half of the
total, and no score comes near the threshold (`chipDump_detected_iff`). The flags are kept under one
text for two users and take it apart again, which gives back the users as long as their ids have no
dash (`chipDump_flags_iff`).
-/

namespace Pokerhub

namespace Collusion

open List

structure Transfer (ι : Type*) where
  «from» : ι
  «to» : ι
  amount : ℚ
  deriving DecidableEq

section Score

variable {ι : Type*} [DecidableEq ι]

/-- What the loop of `detectChipDump` adds to the balances. -/
def balanceEntries (transfers : List (Transfer ι)) : List (ι × ℚ) :=
  transfers.flatMap fun t => [(t.from, -t.amount), (t.to, t.amount)]

def detectChipDump (transfers : List (Transfer ι)) : ℚ :=
  let balances := tally (balanceEntries transfers)
  let imbalances := balances.map fun b => |b.2|
  let total := imbalances.sum
  if total ≠ 0 then imbalances.foldr max 0 / total else 0

/-- The default of `thresholds.chipDumpScore`. -/
def chipDumpScore : ℚ := 4 / 5

/-! ### Balances add up to zero -/

lemma sum_balances (transfers : List (Transfer ι)) :
    ((tally (balanceEntries transfers)).map (·.2)).sum = 0 := by
  rw [sum_tally]
  induction transfers with
  | nil => rfl
  | cons t transfers ih =>
    rw [balanceEntries, flatMap_cons, map_append, sum_append, ← balanceEntries, ih]
    simp

/-- In a list that adds up to zero, nothing is more than half of the total. -/
lemma two_mul_abs_le_of_sum_eq_zero {l : List ℚ} (h : l.sum = 0) {x : ℚ} (hx : x ∈ l) :
    2 * |x| ≤ (l.map (|·|)).sum := by
  have hperm := perm_cons_erase hx
  have hsum := hperm.sum_eq
  have habs := (hperm.map (|·|)).sum_eq
  rw [sum_cons] at hsum
  rw [map_cons, sum_cons] at habs
  have hrest : |(l.erase x).sum| ≤ ((l.erase x).map (|·|)).sum := by
    simpa using Multiset.abs_sum_le_sum_abs (s := (l.erase x : Multiset ℚ))
  have hneg : (l.erase x).sum = -x := by linarith
  rw [hneg, abs_neg] at hrest
  linarith

lemma detectChipDump_le_half (transfers : List (Transfer ι)) :
    0 ≤ detectChipDump transfers ∧ detectChipDump transfers ≤ 1 / 2 := by
  unfold detectChipDump
  dsimp only
  set balances := tally (balanceEntries transfers)
  have hnonneg : 0 ≤ (balances.map fun b => |b.2|).sum := by
    refine sum_nonneg fun x hx => ?_
    obtain ⟨b, -, rfl⟩ := mem_map.mp hx
    exact abs_nonneg b.2
  split_ifs with htotal
  · have hpos : 0 < (balances.map fun b => |b.2|).sum := hnonneg.lt_of_ne (Ne.symm htotal)
    have hmax : (balances.map fun b => |b.2|).foldr max 0 ≤
        (balances.map fun b => |b.2|).sum / 2 := by
      refine foldr_max_le_iff.mpr ⟨by linarith, forall_mem_map.mpr fun b hb => ?_⟩
      have hhalf := two_mul_abs_le_of_sum_eq_zero (sum_balances transfers)
        (mem_map_of_mem (f := Prod.snd) hb)
      rw [map_map] at hhalf
      change 2 * |b.2| ≤ (balances.map fun b => |b.2|).sum at hhalf
      linarith
    constructor
    · exact div_nonneg (foldr_max_le_iff.mp le_rfl).1 hnonneg
    · rw [div_le_iff₀ hpos]
      linarith
  · norm_num

/-! ### Transfers between two players -/

/-- What the job filters the transfers by. -/
def Between (a b : ι) (transfers : List (Transfer ι)) : Prop :=
  ∀ t ∈ transfers, (t.from = a ∧ t.to = b) ∨ (t.from = b ∧ t.to = a)

/-- What `a` gives in all, less what it gets. -/
def net (a : ι) (transfers : List (Transfer ι)) : ℚ :=
  (transfers.map fun t => if t.from = a then t.amount else -t.amount).sum

/-- The part of what is moved that is not moved back. -/
def oneSidedness (a : ι) (transfers : List (Transfer ι)) : ℚ :=
  |net a transfers| / (transfers.map (·.amount)).sum

variable {a b : ι} {transfers : List (Transfer ι)}

omit [DecidableEq ι] in
lemma Between.of_cons {t : Transfer ι} (h : Between a b (t :: transfers)) :
    Between a b transfers :=
  fun t' ht' => h t' (mem_cons_of_mem t ht')

lemma totalOf_balanceEntries_cons (t : Transfer ι) (c : ι) :
    totalOf (balanceEntries (t :: transfers)) c =
      (if t.from = c then -t.amount else 0) + (if t.to = c then t.amount else 0) +
        totalOf (balanceEntries transfers) c := by
  rw [balanceEntries, flatMap_cons, ← balanceEntries]
  by_cases hfrom : t.from = c <;> by_cases hto : t.to = c <;> simp [totalOf, hfrom, hto]

lemma totalOf_giver (hab : a ≠ b) (h : Between a b transfers) :
    totalOf (balanceEntries transfers) a = -net a transfers := by
  induction transfers with
  | nil => rfl
  | cons t transfers ih =>
    rw [totalOf_balanceEntries_cons, ih h.of_cons, net, net, map_cons, sum_cons]
    rcases h t mem_cons_self with ⟨hfrom, hto⟩ | ⟨hfrom, hto⟩
    · simp only [hfrom, hto, if_true, hab.symm, if_false]
      ring
    · simp only [hfrom, hto, if_true, hab.symm, if_false]
      ring

lemma totalOf_taker (hab : a ≠ b) (h : Between a b transfers) :
    totalOf (balanceEntries transfers) b = net a transfers := by
  induction transfers with
  | nil => rfl
  | cons t transfers ih =>
    rw [totalOf_balanceEntries_cons, ih h.of_cons, net, net, map_cons, sum_cons]
    rcases h t mem_cons_self with ⟨hfrom, hto⟩ | ⟨hfrom, hto⟩
    · simp only [hfrom, hto, if_true, hab, if_false]
      ring
    · simp only [hfrom, hto, if_true, hab, hab.symm, if_false]
      ring

omit [DecidableEq ι] in
lemma mem_keys_balanceEntries (h : Between a b transfers) (hne : transfers ≠ []) {c : ι} :
    c ∈ (balanceEntries transfers).map (·.1) ↔ c = a ∨ c = b := by
  obtain ⟨t, rest, rfl⟩ := exists_cons_of_ne_nil hne
  constructor
  · intro hc
    simp only [balanceEntries, map_flatMap, mem_flatMap, map_cons, map_nil, mem_cons,
      not_mem_nil, or_false] at hc
    obtain ⟨t', ht', hc⟩ := hc
    rcases h t' (mem_cons.mpr ht') with ⟨hfrom, hto⟩ | ⟨hfrom, hto⟩
    · rwa [hfrom, hto] at hc
    · rw [hfrom, hto] at hc
      exact hc.symm
  · intro hc
    rw [balanceEntries, flatMap_cons, map_append, mem_append]
    left
    simp only [map_cons, map_nil, mem_cons, not_mem_nil, or_false]
    rcases h t mem_cons_self with ⟨hfrom, hto⟩ | ⟨hfrom, hto⟩
    · rwa [hfrom, hto]
    · rw [hfrom, hto]
      exact hc.symm

/-- The two players have opposite balances. -/
lemma tally_balances_perm (hab : a ≠ b) (h : Between a b transfers) (hne : transfers ≠ []) :
    tally (balanceEntries transfers) ~ [(a, -net a transfers), (b, net a transfers)] := by
  refine (perm_ext_iff_of_nodup (nodup_tally _).of_map ?_).mpr ?_
  · simp [hab]
  · rintro ⟨c, x⟩
    rw [mem_tally, mem_keys_balanceEntries h hne]
    constructor
    · rintro ⟨rfl | rfl, rfl⟩
      · simp [totalOf_giver hab h]
      · simp [totalOf_taker hab h]
    · intro hc
      simp only [mem_cons, Prod.mk.injEq, not_mem_nil, or_false] at hc
      rcases hc with ⟨rfl, rfl⟩ | ⟨rfl, rfl⟩
      · exact ⟨Or.inl rfl, (totalOf_giver hab h).symm⟩
      · exact ⟨Or.inr rfl, (totalOf_taker hab h).symm⟩

/-- Between two players the score is the same for all transfers that do not cancel out. -/
lemma detectChipDump_between (hab : a ≠ b) (h : Between a b transfers) :
    detectChipDump transfers = if net a transfers = 0 then 0 else 1 / 2 := by
  rcases eq_or_ne transfers [] with rfl | hne
  · rfl
  · have hperm := (tally_balances_perm hab h hne).map fun c => |c.2|
    simp only [map_cons, map_nil, abs_neg] at hperm
    have hsum := hperm.sum_eq
    have hmax := hperm.foldr_eq (f := max) 0
    simp only [sum_cons, sum_nil, add_zero] at hsum
    rw [foldr_cons, foldr_cons, foldr_nil, max_eq_left (abs_nonneg (net a transfers)),
      max_self] at hmax
    rw [detectChipDump, hsum, hmax]
    by_cases hnet : net a transfers = 0
    · simp [hnet]
    · have habs : |net a transfers| ≠ 0 := abs_ne_zero.mpr hnet
      have htwice : |net a transfers| + |net a transfers| ≠ 0 := by
        rw [← two_mul]
        exact mul_ne_zero two_ne_zero habs
      rw [if_pos htwice, if_neg hnet]
      field_simp
      norm_num

/-! ### One-sided transfers -/

omit [DecidableEq ι] in
lemma Between.symm (h : Between a b transfers) : Between b a transfers :=
  fun t ht => (h t ht).symm

lemma net_of_one_sided (h : ∀ t ∈ transfers, t.from = a) :
    net a transfers = (transfers.map (·.amount)).sum :=
  congrArg sum (map_congr_left fun t ht => if_pos (h t ht))

lemma net_pos_of_one_sided (hne : transfers ≠ [])
    (h : ∀ t ∈ transfers, t.from = a ∧ 0 < t.amount) : 0 < net a transfers := by
  rw [net_of_one_sided fun t ht => (h t ht).1]
  refine sum_pos _ (forall_mem_map.mpr fun t ht => (h t ht).2) ?_
  simpa using hne

/-- Transfers both ways are not entirely one-sided. -/
lemma oneSidedness_lt_one (hpos : ∀ t ∈ transfers, 0 < t.amount)
    (hgive : ∃ t ∈ transfers, t.from = a) (htake : ∃ t ∈ transfers, t.from ≠ a) :
    oneSidedness a transfers < 1 := by
  have hlt : net a transfers < (transfers.map (·.amount)).sum := by
    refine sum_lt_sum _ _ (fun t ht => ?_) ?_
    · have := hpos t ht
      split_ifs
      · exact le_rfl
      · linarith
    · obtain ⟨t, ht, hta⟩ := htake
      have := hpos t ht
      exact ⟨t, ht, by rw [if_neg hta]; linarith⟩
  have hgt : -(transfers.map (·.amount)).sum < net a transfers := by
    have hneg : -(transfers.map (·.amount)).sum = (transfers.map fun t => -t.amount).sum := by
      rw [sum_neg, map_map]
      rfl
    rw [hneg]
    refine sum_lt_sum _ _ (fun t ht => ?_) ?_
    · have := hpos t ht
      split_ifs
      · linarith
      · exact le_rfl
    · obtain ⟨t, ht, hta⟩ := hgive
      have := hpos t ht
      exact ⟨t, ht, by rw [if_pos hta]; linarith⟩
  rw [oneSidedness, div_lt_one₀ (by linarith), abs_lt]
  exact ⟨hgt, hlt⟩

/-- The score is a share, is over the threshold where one of two players gives all, is `0` where
nothing is given in all, and grows with the one-sidedness of the transfers. -/
def ChipDumpScored (transfers : List (Transfer ι)) : Prop :=
  (0 ≤ detectChipDump transfers ∧ detectChipDump transfers ≤ 1) ∧
  ∀ a b, a ≠ b → Between a b transfers →
    (transfers ≠ [] → (∀ t ∈ transfers, t.from = a ∧ 0 < t.amount) →
      chipDumpScore < detectChipDump transfers) ∧
    (net a transfers = 0 → detectChipDump transfers = 0) ∧
    ((∀ t ∈ transfers, 0 < t.amount) →
      ∀ transfers', Between a b transfers' → (∀ t ∈ transfers', 0 < t.amount) →
        oneSidedness a transfers < oneSidedness a transfers' →
        detectChipDump transfers < detectChipDump transfers')

lemma not_chipDumpScore_lt (transfers : List (Transfer ι)) :
    ¬chipDumpScore < detectChipDump transfers := by
  have := (detectChipDump_le_half transfers).2
  rw [chipDumpScore]
  linarith

/-- A right score is that of transfers that cancel out. -/
lemma ChipDumpScored.net_eq_zero (h : ChipDumpScored transfers) (hab : a ≠ b)
    (hbetween : Between a b transfers) (hpos : ∀ t ∈ transfers, 0 < t.amount) :
    net a transfers = 0 := by
  by_contra hnet
  have hne : transfers ≠ [] := by
    rintro rfl
    exact hnet rfl
  by_cases hgive : ∃ t ∈ transfers, t.from = a
  · by_cases htake : ∃ t ∈ transfers, t.from ≠ a
    · -- a list that is entirely one-sided has no greater score
      have hone : oneSidedness a [(⟨a, b, 1⟩ : Transfer ι)] = 1 := by
        simp [oneSidedness, net]
      have hgrow := (h.2 a b hab hbetween).2.2 hpos [⟨a, b, 1⟩] (by simp [Between]) (by simp)
        (by rw [hone]; exact oneSidedness_lt_one hpos hgive htake)
      have hhalf := (detectChipDump_le_half [(⟨a, b, 1⟩ : Transfer ι)]).2
      rw [detectChipDump_between hab hbetween, if_neg hnet] at hgrow
      linarith
    · push Not at htake
      exact not_chipDumpScore_lt transfers
        ((h.2 a b hab hbetween).1 hne fun t ht => ⟨htake t ht, hpos t ht⟩)
  · push Not at hgive
    have hback : ∀ t ∈ transfers, t.from = b ∧ 0 < t.amount := fun t ht =>
      ⟨((hbetween t ht).resolve_left fun hta => hgive t ht hta.1).1, hpos t ht⟩
    exact not_chipDumpScore_lt transfers ((h.2 b a hab.symm hbetween.symm).1 hne hback)

end Score

section Flags

def pairKey («from» «to» : Text) : Text :=
  «from» ++ '-' :: «to»

def transferTotals (transfers : List (Transfer Text)) : List (Text × ℚ) :=
  tally (transfers.map fun t => (pairKey t.from t.to, t.amount))

/-- The flag that is emitted, with its total. -/
structure DumpFlag where
  sessionId : Text
  users : List Text
  total : ℚ
  deriving DecidableEq

def dumpFlag («from» «to» : Text) (total : ℚ) : DumpFlag where
  sessionId := "dump-".toList ++ pairKey «from» «to»
  users := [«from», «to»]
  total := total

/-- The flags for chip dumping of `runCollusionHeuristics`. -/
def chipDumpFlags (transfers : List (Transfer Text)) : List DumpFlag :=
  (transferTotals transfers).filterMap fun e =>
    if 100000 < e.2 then
      let parts := e.1.splitOn '-'
      some (dumpFlag (parts.getD 0 []) (parts.getD 1 []) e.2)
    else none

/-- What goes from one user to the other. -/
def pairTotal («from» «to» : Text) (transfers : List (Transfer Text)) : ℚ :=
  ((transfers.filter fun t => t.from = «from» ∧ t.to = «to»).map (·.amount)).sum

/-! ### Two users in one text -/

variable {f t f' t' : Text}

lemma splitOn_pairKey (hf : '-' ∉ f) (ht : '-' ∉ t) : (pairKey f t).splitOn '-' = [f, t] := by
  rw [pairKey, splitOn_append_cons_self_of_not_mem hf, splitOn_eq_singleton ht]

/-- What `split` gives has none of what it splits at. -/
lemma notMem_of_mem_splitOn {c : Char} {s part : Text} (h : part ∈ s.splitOn c) : c ∉ part := by
  induction s generalizing part with
  | nil =>
    rw [splitOn_nil, mem_singleton] at h
    exact h ▸ not_mem_nil
  | cons d s ih =>
    rw [splitOn_cons_eq_if_modifyHead] at h
    by_cases hd : d = c
    · rw [if_pos (by simpa using hd)] at h
      rcases mem_cons.mp h with rfl | h
      · exact not_mem_nil
      · exact ih h
    · obtain ⟨q, qs, hq⟩ := exists_cons_of_ne_nil (splitOn_ne_nil c s)
      rw [if_neg (by simpa using hd), hq, modifyHead_cons] at h
      rcases mem_cons.mp h with rfl | h
      · rw [mem_cons, not_or]
        exact ⟨Ne.symm hd, ih (hq ▸ mem_cons_self)⟩
      · exact ih (hq ▸ mem_cons_of_mem q h)

lemma two_le_length_splitOn_pairKey : 2 ≤ ((pairKey f t).splitOn '-').length := by
  have hf := length_pos_iff.mpr (splitOn_ne_nil '-' f)
  have ht := length_pos_iff.mpr (splitOn_ne_nil '-' t)
  rw [pairKey, splitOn_append_cons_self, length_append]
  omega

lemma notMem_splitOn_getD {i : ℕ} (hi : i < 2) :
    '-' ∉ ((pairKey f t).splitOn '-').getD i [] := by
  have hlt := hi.trans_le (two_le_length_splitOn_pairKey (f := f) (t := t))
  rw [getD_eq_getElem?_getD, getElem?_eq_getElem hlt, Option.getD_some]
  exact notMem_of_mem_splitOn (getElem_mem hlt)

/-- The first user of one pair is that of the other, a dash and something, and this stands with
another dash in front of its second user in the other. -/
def Shifted (f t f' t' : Text) : Prop :=
  ∃ m, f' = f ++ '-' :: m ∧ t = m ++ '-' :: t'

lemma pairKey_eq_iff :
    pairKey f t = pairKey f' t' ↔
      (f = f' ∧ t = t') ∨ Shifted f t f' t' ∨ Shifted f' t' f t := by
  have hshift {f t f' t' : Text} : (∃ a, f' = f ++ a ∧ '-' :: t = a ++ '-' :: t') ↔
      (f = f' ∧ t = t') ∨ Shifted f t f' t' := by
    constructor
    · rintro ⟨a, rfl, ha⟩
      cases a with
      | nil => exact Or.inl ⟨(append_nil f).symm, (cons.inj ha).2⟩
      | cons c m =>
        obtain ⟨rfl, rfl⟩ := cons.inj ha
        exact Or.inr ⟨m, rfl, rfl⟩
    · rintro (⟨rfl, rfl⟩ | ⟨m, rfl, rfl⟩)
      · exact ⟨[], (append_nil f).symm, rfl⟩
      · exact ⟨'-' :: m, rfl, rfl⟩
  rw [pairKey, pairKey, append_eq_append_iff]
  rw [hshift, hshift]
  tauto

lemma dumpFlag_inj {x x' : ℚ} (h : dumpFlag f t x = dumpFlag f' t' x') :
    f = f' ∧ t = t' ∧ x = x' := by
  simp only [dumpFlag, DumpFlag.mk.injEq, cons.injEq] at h
  exact ⟨h.2.1.1, h.2.1.2.1, h.2.2⟩

/-! ### The flags and the pairs -/

variable {transfers : List (Transfer Text)} {u u' : Transfer Text}

/-- What the loop adds up under the text. -/
def addedUnder (key : Text) (transfers : List (Transfer Text)) : List (Transfer Text) :=
  transfers.filter fun t => pairKey t.from t.to = key

/-- There is one flag for each pair with a total over the limit and no other flag, and only
transfers of one pair are added together. -/
def ChipDumpFlagged (transfers : List (Transfer Text)) : Prop :=
  (∀ flag, flag ∈ chipDumpFlags transfers ↔ ∃ f t,
    100000 < pairTotal f t transfers ∧ flag = dumpFlag f t (pairTotal f t transfers)) ∧
  (chipDumpFlags transfers).Nodup ∧
  ∀ key, ∀ u ∈ addedUnder key transfers, ∀ u' ∈ addedUnder key transfers,
    u.from = u'.from ∧ u.to = u'.to

/-- The texts of different pairs of the list are different. -/
def PairsApart (transfers : List (Transfer Text)) : Prop :=
  ∀ u ∈ transfers, ∀ u' ∈ transfers, ¬Shifted u.from u.to u'.from u'.to

/-- The ids of the users over the limit can be read back. -/
def FlaggedUndashed (transfers : List (Transfer Text)) : Prop :=
  ∀ u ∈ transfers, 100000 < pairTotal u.from u.to transfers → '-' ∉ u.from ∧ '-' ∉ u.to

lemma mem_transferTotals {key : Text} {x : ℚ} :
    (key, x) ∈ transferTotals transfers ↔
      (∃ u ∈ transfers, pairKey u.from u.to = key) ∧
        x = ((addedUnder key transfers).map (·.amount)).sum := by
  rw [transferTotals, mem_tally, map_map, mem_map, totalOf, filter_map, map_map]
  rfl

lemma mem_chipDumpFlags {flag : DumpFlag} :
    flag ∈ chipDumpFlags transfers ↔ ∃ u ∈ transfers,
      100000 < ((addedUnder (pairKey u.from u.to) transfers).map (·.amount)).sum ∧
      flag = dumpFlag (((pairKey u.from u.to).splitOn '-').getD 0 [])
        (((pairKey u.from u.to).splitOn '-').getD 1 [])
        ((addedUnder (pairKey u.from u.to) transfers).map (·.amount)).sum := by
  rw [chipDumpFlags, mem_filterMap]
  constructor
  · rintro ⟨⟨key, x⟩, hmem, hflag⟩
    obtain ⟨⟨u, hu, rfl⟩, rfl⟩ := mem_transferTotals.mp hmem
    split_ifs at hflag with hx
    exact ⟨u, hu, hx, (Option.some.inj hflag).symm⟩
  · rintro ⟨u, hu, hx, rfl⟩
    exact ⟨_, mem_transferTotals.mpr ⟨⟨u, hu, rfl⟩, rfl⟩, if_pos hx⟩

lemma mem_of_pairTotal (h : 100000 < pairTotal f t transfers) :
    ∃ u ∈ transfers, u.from = f ∧ u.to = t := by
  by_contra hnone
  push Not at hnone
  have hfilter : (transfers.filter fun u => u.from = f ∧ u.to = t) = [] :=
    filter_eq_nil_iff.mpr fun u hu hpair => by
      rw [decide_eq_true_eq] at hpair
      exact hnone u hu hpair.1 hpair.2
  rw [pairTotal, hfilter, map_nil, sum_nil] at h
  norm_num at h

lemma pairTotal_singleton (u : Transfer Text) : pairTotal u.from u.to [u] = u.amount := by
  simp [pairTotal]

lemma PairsApart.pair_eq (h : PairsApart transfers) (hu : u ∈ transfers) (hu' : u' ∈ transfers)
    (hkey : pairKey u.from u.to = pairKey u'.from u'.to) : u.from = u'.from ∧ u.to = u'.to := by
  rcases pairKey_eq_iff.mp hkey with hpair | hshift | hshift
  · exact hpair
  · exact absurd hshift (h u hu u' hu')
  · exact absurd hshift (h u' hu' u hu)

lemma PairsApart.addedUnder_sum (h : PairsApart transfers) (hu : u ∈ transfers) :
    ((addedUnder (pairKey u.from u.to) transfers).map (·.amount)).sum =
      pairTotal u.from u.to transfers := by
  have hfilter : addedUnder (pairKey u.from u.to) transfers =
      transfers.filter fun u' => u'.from = u.from ∧ u'.to = u.to := by
    refine filter_congr fun u' hu' => decide_eq_decide.mpr ⟨h.pair_eq hu' hu, ?_⟩
    rintro ⟨hfrom, hto⟩
    rw [hfrom, hto]
  rw [hfilter, pairTotal]

/-- A flag is for the pair itself only if neither id has a dash. -/
lemma ChipDumpFlagged.undashed (h : ChipDumpFlagged transfers) : FlaggedUndashed transfers := by
  intro u _ htotal
  obtain ⟨v, _, _, hflag⟩ := mem_chipDumpFlags.mp ((h.1 _).mpr ⟨u.from, u.to, htotal, rfl⟩)
  obtain ⟨hfrom, hto, -⟩ := dumpFlag_inj hflag
  rw [hfrom, hto]
  exact ⟨notMem_splitOn_getD Nat.zero_lt_two, notMem_splitOn_getD Nat.one_lt_two⟩

lemma ChipDumpFlagged.apart (h : ChipDumpFlagged transfers) : PairsApart transfers := by
  intro u hu u' hu' hshift
  have hkey := pairKey_eq_iff.mpr (Or.inr (Or.inl hshift))
  have hpair := h.2.2 (pairKey u.from u.to) u (mem_filter.mpr ⟨hu, by simp⟩) u'
    (mem_filter.mpr ⟨hu', by simpa using hkey.symm⟩)
  obtain ⟨m, hfrom, -⟩ := hshift
  rw [hpair.1, self_eq_append_right] at hfrom
  exact cons_ne_nil '-' m hfrom

/-- Where nothing is mixed up, the flag is for the pair. -/
lemma mem_chipDumpFlags_of_undashed (hapart : PairsApart transfers)
    (hundashed : FlaggedUndashed transfers) {flag : DumpFlag} :
    flag ∈ chipDumpFlags transfers ↔ ∃ u ∈ transfers,
      100000 < pairTotal u.from u.to transfers ∧
      flag = dumpFlag u.from u.to (pairTotal u.from u.to transfers) := by
  rw [mem_chipDumpFlags]
  refine exists_congr fun u => and_congr_right fun hu => ?_
  rw [hapart.addedUnder_sum hu]
  refine and_congr_right fun htotal => ?_
  obtain ⟨hfrom, hto⟩ := hundashed u hu htotal
  rw [splitOn_pairKey hfrom hto]
  rfl

lemma nodup_chipDumpFlags (hapart : PairsApart transfers)
    (hundashed : FlaggedUndashed transfers) : (chipDumpFlags transfers).Nodup := by
  have hkeys := pairwise_map.mp
    (nodup_tally (transfers.map fun t => (pairKey t.from t.to, t.amount)))
  refine pairwise_filterMap.mpr (hkeys.imp_of_mem ?_)
  rintro ⟨key, x⟩ ⟨key', x'⟩ hmem hmem' hne flag hflag flag' hflag' rfl
  obtain ⟨⟨u, hu, rfl⟩, rfl⟩ := mem_transferTotals.mp hmem
  obtain ⟨⟨u', hu', rfl⟩, rfl⟩ := mem_transferTotals.mp hmem'
  simp only [hapart.addedUnder_sum hu] at hflag
  simp only [hapart.addedUnder_sum hu'] at hflag'
  split_ifs at hflag hflag' with htotal htotal'
  obtain ⟨hfrom, hto⟩ := hundashed u hu htotal
  obtain ⟨hfrom', hto'⟩ := hundashed u' hu' htotal'
  rw [splitOn_pairKey hfrom hto] at hflag
  rw [splitOn_pairKey hfrom' hto'] at hflag'
  obtain ⟨hf, ht, -⟩ := dumpFlag_inj (Option.some.inj (hflag.trans hflag'.symm))
  exact hne (congrArg₂ pairKey hf ht)

/-- The flags are for the right users exactly when the texts of the pairs are different and no id
over the limit has a dash. -/
theorem chipDump_flags_iff (transfers : List (Transfer Text)) :
    ChipDumpFlagged transfers ↔ PairsApart transfers ∧ FlaggedUndashed transfers := by
  refine ⟨fun h => ⟨h.apart, h.undashed⟩, fun ⟨hapart, hundashed⟩ => ⟨fun flag => ?_, ?_, ?_⟩⟩
  · rw [mem_chipDumpFlags_of_undashed hapart hundashed]
    constructor
    · rintro ⟨u, -, htotal, rfl⟩
      exact ⟨u.from, u.to, htotal, rfl⟩
    · rintro ⟨f, t, htotal, rfl⟩
      obtain ⟨u, hu, rfl, rfl⟩ := mem_of_pairTotal htotal
      exact ⟨u, hu, htotal, rfl⟩
  · exact nodup_chipDumpFlags hapart hundashed
  · intro key u hu u' hu'
    obtain ⟨hu, hkey⟩ := mem_filter.mp hu
    obtain ⟨hu', hkey'⟩ := mem_filter.mp hu'
    rw [decide_eq_true_eq] at hkey hkey'
    exact hapart.pair_eq hu hu' (hkey.trans hkey'.symm)

/-- A transfer between two users as the server numbers them. -/
def uuidTransfer : Transfer Text where
  «from» := "3f2504e0-4f89-41d3-9a0c-0305e82c3301".toList
  «to» := "9b2d1c44-52aa-4c0e-8f6d-6a1c7d0e9b12".toList
  amount := 200000

/-- The flag is for `3f2504e0` and `4f89`, who are no users. -/
theorem uuidTransfer_not_flagged :
    (chipDumpFlags [uuidTransfer]).map (·.users) = [["3f2504e0".toList, "4f89".toList]] ∧
      ¬ChipDumpFlagged [uuidTransfer] := by
  constructor
  · decide +kernel
  · intro h
    have hamount : 100000 < uuidTransfer.amount := by
      rw [show uuidTransfer.amount = 200000 from rfl]
      norm_num
    have hdash : '-' ∈ uuidTransfer.from := by decide +kernel
    rw [← pairTotal_singleton uuidTransfer] at hamount
    exact (h.undashed uuidTransfer mem_cons_self hamount).1 hdash

end Flags

end Collusion

end Pokerhub
