import Mathlib.Algebra.GroupWithZero.Nat
import Mathlib.Data.List.Nodup
import Mathlib.Data.List.Perm.Subperm
import Mathlib.Data.List.Range
import Mathlib.Data.Nat.Find

/-!
# Fixed windows

A counter numbers the requests that come in. Some time after its first request it is given a time
to live, and at the end of that time it is forgotten, so that the next request begins it again. In
any stretch of time as long as a counter lives, at most two lives of the counter have requests, so
that at most `2 * n` of them have a number up to `n` (`Counter.Sound.length_le`).
-/

namespace FixedWindow

open List

/-- A request as a counter has numbered it. -/
structure Hit where
  /-- How often the counter had begun. -/
  life : ℕ
  value : ℕ
  time : ℕ
  deriving DecidableEq

structure Counter where
  value : ℕ := 0
  expiry : Option ℕ := none
  life : ℕ := 0
  /-- When the counter last began. -/
  since : ℕ := 0

namespace Counter

/-- A request comes in. -/
def count (now : ℕ) (c : Counter) : Counter :=
  { c with
    value := c.value + 1
    life := if c.value = 0 then c.life + 1 else c.life
    since := if c.value = 0 then now else c.since }

def hit (now : ℕ) (c : Counter) : Hit :=
  ⟨(c.count now).life, (c.count now).value, now⟩

/-- The counter is given a time to live. -/
def expire (t : ℕ) (c : Counter) : Counter :=
  { c with expiry := some t }

def forget (c : Counter) : Counter :=
  { c with value := 0, expiry := none }

/-- What holds of a counter that lives for `window`, and of the requests that it has numbered. -/
structure Sound (window now : ℕ) (c : Counter) (hits : List Hit) : Prop where
  since_le : c.since ≤ now
  ended : c.value = 0 → c.life = 0 ∨ c.since + window ≤ now
  ends : ∀ t ∈ c.expiry, c.value ≠ 0 ∧ c.since + window ≤ t
  positive : ∀ h ∈ hits, 0 < h.value
  past : ∀ h ∈ hits, h.time ≤ now
  life_le : ∀ h ∈ hits, h.life ≤ c.life
  present : ∀ h ∈ hits, h.life = c.life → c.value ≠ 0 → h.value ≤ c.value
  before : ∀ h ∈ hits, h.life < c.life → h.time ≤ c.since
  longBefore : ∀ h ∈ hits, h.life + 1 < c.life → h.time + window ≤ c.since
  distinct : (hits.map fun h => (h.life, h.value)).Nodup
  /-- A whole life lies between two requests whose lives are not next to each other. -/
  apart : ∀ h ∈ hits, ∀ h' ∈ hits, h.life + 2 ≤ h'.life → h.time + window ≤ h'.time

variable {window now : ℕ} {c : Counter} {hits : List Hit}

lemma sound_new : ({} : Counter).Sound window now [] := by
  refine ⟨Nat.zero_le now, fun _ => Or.inl rfl, ?_, ?_, ?_, ?_, ?_, ?_, ?_, nodup_nil, ?_⟩ <;> simp

/-- A counter is as sound at a later time. -/
lemma Sound.later {now' : ℕ} (h : c.Sound window now hits) (hle : now ≤ now') :
    c.Sound window now' hits :=
  { h with
    since_le := Nat.le_trans h.since_le hle
    ended := fun hzero => (h.ended hzero).imp_right fun hover => Nat.le_trans hover hle
    past := fun x hx => Nat.le_trans (h.past x hx) hle }

lemma Sound.expire {t : ℕ} (h : c.Sound window now hits) (hvalue : c.value ≠ 0)
    (ht : now + window ≤ t) : (c.expire t).Sound window now hits :=
  { h with
    ends := fun t' ht' => by
      obtain rfl : t = t' := Option.some.inj ht'
      exact ⟨hvalue, Nat.le_trans (Nat.add_le_add_right h.since_le window) ht⟩ }

/-- A counter is forgotten at the end of its time. -/
lemma Sound.forget {t : ℕ} (h : c.Sound window now hits) (ht : c.expiry = some t)
    (hdue : t ≤ now) : c.forget.Sound window now hits :=
  { h with
    ended := fun _ => Or.inr (Nat.le_trans (h.ends t ht).2 hdue)
    ends := fun t' ht' => absurd ht' (Option.not_mem_none t')
    present := fun _ _ _ hne => absurd rfl hne }

/-- What holds of all requests, and of the one that comes in. -/
lemma forall_mem_concat {p : Hit → Prop} {x : Hit} :
    (∀ y ∈ hits ++ [x], p y) ↔ (∀ y ∈ hits, p y) ∧ p x := by
  rw [forall_mem_append, forall_mem_singleton]

/-- A request with a new number is distinct from the ones before it. -/
lemma Sound.distinct_concat {x : Hit} (h : c.Sound window now hits)
    (hnew : ∀ y ∈ hits, y.life = x.life → y.value ≠ x.value) :
    ((hits ++ [x]).map fun h => (h.life, h.value)).Nodup := by
  rw [map_append, map_singleton, nodup_append]
  refine ⟨h.distinct, nodup_singleton _, ?_⟩
  intro p hp q hq
  obtain ⟨y, hy, rfl⟩ := mem_map.mp hp
  rw [mem_singleton.mp hq]
  exact fun heq => hnew y hy (Prod.mk.inj heq).1 (Prod.mk.inj heq).2

/-- The request that comes in is of the last life. -/
lemma Sound.apart_concat {x : Hit} (h : c.Sound window now hits) (hlast : c.life ≤ x.life)
    (hnew : ∀ y ∈ hits, y.life + 2 ≤ x.life → y.time + window ≤ x.time) :
    ∀ y ∈ hits ++ [x], ∀ z ∈ hits ++ [x], y.life + 2 ≤ z.life → y.time + window ≤ z.time := by
  refine forall_mem_concat.mpr ⟨fun y hy => ?_, ?_⟩
  · exact forall_mem_concat.mpr ⟨h.apart y hy, hnew y hy⟩
  · refine forall_mem_concat.mpr ⟨fun z hz hlife => ?_, fun hlife => ?_⟩
    · have hle := Nat.le_trans hlife (Nat.le_trans (h.life_le z hz) hlast)
      exact absurd (Nat.le_of_succ_le hle) (Nat.not_succ_le_self _)
    · exact absurd (Nat.le_of_succ_le hlife) (Nat.not_succ_le_self _)

/-- The next request of a counter that is under way. -/
lemma Sound.count_present (h : c.Sound window now hits) (hvalue : c.value ≠ 0) :
    (c.count now).Sound window now (hits ++ [c.hit now]) := by
  have hcount : c.count now = { c with value := c.value + 1 } := by
    simp only [count, if_neg hvalue]
  have hhit : c.hit now = ⟨c.life, c.value + 1, now⟩ := by
    simp only [hit, hcount]
  rw [hcount, hhit]
  constructor
  · exact h.since_le
  · exact fun hzero => absurd hzero (Nat.succ_ne_zero _)
  · exact fun t ht => ⟨Nat.succ_ne_zero _, (h.ends t ht).2⟩
  · exact forall_mem_concat.mpr ⟨h.positive, Nat.succ_pos _⟩
  · exact forall_mem_concat.mpr ⟨h.past, Nat.le_refl now⟩
  · exact forall_mem_concat.mpr ⟨h.life_le, Nat.le_refl c.life⟩
  · refine forall_mem_concat.mpr ⟨fun x hx hlife _ => ?_, fun _ _ => Nat.le_refl _⟩
    exact Nat.le_succ_of_le (h.present x hx hlife hvalue)
  · exact forall_mem_concat.mpr ⟨h.before, fun hlife => absurd hlife (Nat.lt_irrefl _)⟩
  · refine forall_mem_concat.mpr ⟨h.longBefore, fun hlife => ?_⟩
    exact absurd hlife (Nat.not_lt_of_ge (Nat.le_succ _))
  · refine h.distinct_concat fun x hx hlife => ?_
    exact Nat.ne_of_lt (Nat.lt_succ_of_le (h.present x hx hlife hvalue))
  · refine h.apart_concat (Nat.le_refl _) fun x hx hlife => ?_
    exact Nat.le_trans (h.longBefore x hx hlife) h.since_le

/-- A request that begins the counter. -/
lemma Sound.count_begin (h : c.Sound window now hits) (hvalue : c.value = 0) :
    (c.count now).Sound window now (hits ++ [c.hit now]) := by
  have hcount : c.count now = ⟨1, c.expiry, c.life + 1, now⟩ := by
    simp only [count, hvalue, if_true, Nat.zero_add]
  have hhit : c.hit now = ⟨c.life + 1, 1, now⟩ := by
    simp only [hit, hcount]
  rw [hcount, hhit]
  have hnew : ∀ x ∈ hits, x.life ≠ c.life + 1 := fun x hx =>
    Nat.ne_of_lt (Nat.lt_succ_of_le (h.life_le x hx))
  -- the life before the one that ended now was over when that one began
  have hlong : ∀ x ∈ hits, x.life < c.life → x.time + window ≤ now := by
    intro x hx hlife
    rcases h.ended hvalue with hzero | hover
    · rw [hzero] at hlife
      exact absurd hlife (Nat.not_lt_zero _)
    · exact Nat.le_trans (Nat.add_le_add_right (h.before x hx hlife) window) hover
  constructor
  · exact Nat.le_refl now
  · exact fun hone => absurd hone (Nat.succ_ne_zero 0)
  · exact fun t ht => absurd hvalue (h.ends t ht).1
  · exact forall_mem_concat.mpr ⟨h.positive, Nat.one_pos⟩
  · exact forall_mem_concat.mpr ⟨h.past, Nat.le_refl now⟩
  · refine forall_mem_concat.mpr ⟨fun x hx => ?_, Nat.le_refl _⟩
    exact Nat.le_succ_of_le (h.life_le x hx)
  · refine forall_mem_concat.mpr ⟨fun x hx hlife => ?_, fun _ _ => Nat.le_refl 1⟩
    exact absurd hlife (hnew x hx)
  · refine forall_mem_concat.mpr ⟨fun x hx _ => h.past x hx, fun hlife => ?_⟩
    exact absurd hlife (Nat.lt_irrefl _)
  · refine forall_mem_concat.mpr ⟨fun x hx hlife => ?_, fun hlife => ?_⟩
    · exact hlong x hx (Nat.lt_of_succ_lt_succ hlife)
    · exact absurd hlife (Nat.not_lt_of_ge (Nat.le_succ _))
  · exact h.distinct_concat fun x hx hlife => absurd hlife (hnew x hx)
  · refine h.apart_concat (Nat.le_succ _) fun x hx hlife => ?_
    exact hlong x hx (Nat.lt_of_succ_lt_succ hlife)

lemma Sound.count (h : c.Sound window now hits) :
    (c.count now).Sound window now (hits ++ [c.hit now]) := by
  by_cases hvalue : c.value = 0
  · exact h.count_begin hvalue
  · exact h.count_present hvalue

end Counter

/-! ### Any stretch of time -/

/-- The requests of one life with a number up to `n` are at most `n`. -/
lemma length_le_of_life {hits : List Hit} {m n : ℕ} (hlife : ∀ h ∈ hits, h.life = m)
    (hpositive : ∀ h ∈ hits, 0 < h.value) (hle : ∀ h ∈ hits, h.value ≤ n)
    (hdistinct : (hits.map fun h => (h.life, h.value)).Nodup) : hits.length ≤ n := by
  have hvalues : (hits.map Hit.value).Nodup := by
    have hmap : hits.map (fun h => (h.life, h.value)) = (hits.map Hit.value).map (Prod.mk m) := by
      rw [map_map]
      exact map_congr_left fun h hh => by rw [hlife h hh]; rfl
    rw [hmap] at hdistinct
    exact Nodup.of_map _ hdistinct
  have hsubset : hits.map Hit.value ⊆ range' 1 n := by
    intro v hv
    obtain ⟨h, hh, rfl⟩ := mem_map.mp hv
    rw [mem_range'_1]
    exact ⟨hpositive h hh, Nat.lt_one_add_iff.mpr (hle h hh)⟩
  have hlength := (hvalues.subperm hsubset).length_le
  rwa [length_map, length_range'] at hlength

/-- Of the requests in a stretch as long as a life, at most `2 * n` have a number up to `n`. -/
theorem Counter.Sound.length_le {window now : ℕ} {c : Counter} {hits : List Hit}
    (h : c.Sound window now hits) (n a : ℕ) :
    (hits.filter fun x => x.value ≤ n ∧ a ≤ x.time ∧ x.time < a + window).length ≤ 2 * n := by
  set within := hits.filter fun x => x.value ≤ n ∧ a ≤ x.time ∧ x.time < a + window with hwithin
  have hmem : ∀ x ∈ within, x ∈ hits ∧ x.value ≤ n ∧ a ≤ x.time ∧ x.time < a + window := by
    intro x hx
    obtain ⟨hx, hcond⟩ := mem_filter.mp hx
    exact ⟨hx, of_decide_eq_true hcond⟩
  -- no whole life fits between two of them
  have hnear : ∀ x ∈ within, ∀ y ∈ within, y.life < x.life + 2 := by
    intro x hx y hy
    obtain ⟨hxmem, -, hfrom, -⟩ := hmem x hx
    obtain ⟨hymem, -, -, huntil⟩ := hmem y hy
    refine Nat.lt_of_not_le fun hlife => ?_
    have hapart := h.apart x hxmem y hymem hlife
    exact Nat.lt_irrefl _ (Nat.lt_of_le_of_lt
      (Nat.le_trans (Nat.add_le_add_right hfrom window) hapart) huntil)
  have hdistinct : (within.map fun x => (x.life, x.value)).Nodup :=
    h.distinct.sublist ((filter_sublist (l := hits)).map _)
  by_cases hnil : within = []
  · rw [hnil]
    exact Nat.zero_le _
  · -- the first of the lives
    obtain ⟨m, ⟨x, hx, rfl⟩, hmin⟩ : ∃ m, (∃ x ∈ within, x.life = m) ∧
        ∀ y ∈ within, m ≤ y.life := by
      classical
      obtain ⟨x, hx⟩ := exists_mem_of_ne_nil within hnil
      have hex : ∃ m, ∃ x ∈ within, x.life = m := ⟨x.life, x, hx, rfl⟩
      exact ⟨Nat.find hex, Nat.find_spec hex, fun y hy => Nat.find_min' hex ⟨y, hy, rfl⟩⟩
    have hlives : ∀ y ∈ within, y.life ≠ x.life → y.life = x.life + 1 := by
      intro y hy hne
      have hlt := hnear x hx y hy
      have hle := hmin y hy
      omega
    have hpart : ∀ (p : Hit → Bool) (m : ℕ), (∀ y ∈ within, p y → y.life = m) →
        (within.filter p).length ≤ n := by
      intro p m hp
      refine length_le_of_life (m := m) ?_ ?_ ?_ ?_
      · exact fun y hy => hp y (mem_of_mem_filter hy) (of_mem_filter hy)
      · exact fun y hy => h.positive y (hmem y (mem_of_mem_filter hy)).1
      · exact fun y hy => (hmem y (mem_of_mem_filter hy)).2.1
      · exact hdistinct.sublist ((filter_sublist (l := within)).map _)
    have hfirst := hpart (fun y => y.life = x.life) x.life fun y _ hy => of_decide_eq_true hy
    have hsecond := hpart (fun y => ¬ y.life = x.life) (x.life + 1) fun y hy hne =>
      hlives y hy (of_decide_eq_true hne)
    have hsplit := length_eq_length_filter_add (l := within) fun y => decide (y.life = x.life)
    have hnot : (within.filter fun y => !decide (y.life = x.life)) =
        within.filter fun y => decide (¬ y.life = x.life) := by
      congr 1
      funext y
      exact (decide_not).symm
    rw [hnot] at hsplit
    omega

end FixedWindow
