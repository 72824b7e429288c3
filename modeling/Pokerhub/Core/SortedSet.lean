import Mathlib.Algebra.GroupWithZero.Nat
import Mathlib.Data.List.Nodup
import Mathlib.Data.List.Perm.Subperm

/-!
# Sorted sets with a time to live

The sorted sets of a key-value store: members with scores, and a time at which the whole set is
gone. Such a set can follow a log of what happened when: each event is added with its time, and the
set is given a time to live that is not shorter than a window (`ZSet.Tracks.record`); what is older
than the window may be removed (`ZSet.Tracks.remove`). Then its members are events of the log, and
the events of the window are among them, so that its size lies between two counts of the log
(`ZSet.Tracks.le_card`, `ZSet.Tracks.card_le`).
-/

open List

/-- A sorted set: its members with their scores. -/
structure ZSet (α : Type) where
  members : List (α × ℕ) := []
  expiry : Option ℕ := none

namespace ZSet

variable {α : Type}

/-- What is left of a set at a time. -/
def current (now : ℕ) (z : ZSet α) : ZSet α :=
  if z.expiry.any (· ≤ now) then {} else z

/-- `ZADD`. -/
def add [DecidableEq α] (now : ℕ) (x : α) (score : ℕ) (z : ZSet α) : ZSet α :=
  let z := z.current now
  { z with members := (z.members.filter fun m => m.1 ≠ x) ++ [(x, score)] }

/-- `EXPIRE`. -/
def expire (now seconds : ℕ) (z : ZSet α) : ZSet α :=
  let z := z.current now
  if z.members = [] then z else { z with expiry := some (now + seconds * 1000) }

/-- `ZREMRANGEBYSCORE`, from 0 up to the time that lies `window` before `t`. -/
def remove (now t window : ℕ) (z : ZSet α) : ZSet α :=
  let z := z.current now
  let members := z.members.filter fun m => t < m.2 + window
  if members = [] then {} else { z with members := members }

/-- `ZCARD`. -/
def card (now : ℕ) (z : ZSet α) : ℕ :=
  (z.current now).members.length

/-- The set follows the log, as far as the window goes. -/
structure Tracks (window now : ℕ) (z : ZSet α) (log : List (α × ℕ)) : Prop where
  distinct : (z.members.map Prod.fst).Nodup
  sound : ∀ m ∈ z.members, m ∈ log
  complete : ∀ m ∈ log, now < m.2 + window → m ∈ z.members
  expiry : ∀ e ∈ z.expiry, ∀ m ∈ z.members, m.2 + window ≤ e

variable {window now : ℕ} {z : ZSet α} {log : List (α × ℕ)}

lemma tracks_empty : ({} : ZSet α).Tracks window now [] := by
  refine ⟨nodup_nil, ?_, ?_, ?_⟩ <;> simp

/-- A set is gone, or it is as it was. -/
lemma current_cases (now : ℕ) (z : ZSet α) :
    (z.current now = {} ∧ ∃ e ∈ z.expiry, e ≤ now) ∨
      (z.current now = z ∧ ∀ e ∈ z.expiry, now < e) := by
  by_cases h : ∃ e ∈ z.expiry, e ≤ now
  · obtain ⟨e, he, hle⟩ := h
    refine Or.inl ⟨if_pos ?_, e, he, hle⟩
    rw [he, Option.any_some]
    exact decide_eq_true hle
  · have hlt : ∀ e ∈ z.expiry, now < e := fun e he => Nat.lt_of_not_le fun hle => h ⟨e, he, hle⟩
    refine Or.inr ⟨if_neg ?_, hlt⟩
    cases hexpiry : z.expiry with
    | none => exact Bool.false_ne_true
    | some e => simpa using hlt e hexpiry

/-- What is left of a set has not come to its end. -/
lemma lt_expiry_current (now : ℕ) (z : ZSet α) : ∀ e ∈ (z.current now).expiry, now < e := by
  rcases current_cases now z with ⟨hgone, -⟩ | ⟨hsame, hlt⟩
  · rw [hgone]
    exact fun e he => absurd he (Option.not_mem_none e)
  · rw [hsame]
    exact hlt

lemma current_of_lt (h : ∀ e ∈ z.expiry, now < e) : z.current now = z := by
  rcases current_cases now z with ⟨-, e, he, hle⟩ | ⟨hsame, -⟩
  · exact absurd (h e he) (Nat.not_lt_of_ge hle)
  · exact hsame

lemma mem_of_current {x : α × ℕ} (h : x ∈ (z.current now).members) : x ∈ z.members := by
  rcases current_cases now z with ⟨hgone, -⟩ | ⟨hsame, -⟩
  · rw [hgone] at h
    exact absurd h not_mem_nil
  · exact hsame ▸ h

/-- A set that comes to its end has no events of the window. -/
lemma Tracks.current (h : z.Tracks window now log) : (z.current now).Tracks window now log := by
  rcases current_cases now z with ⟨hgone, e, he, hdue⟩ | ⟨hsame, -⟩
  · rw [hgone]
    refine ⟨nodup_nil, fun m hm => absurd hm not_mem_nil, fun m hm hwithin => ?_, ?_⟩
    · have hend := h.expiry e he m (h.complete m hm hwithin)
      exact absurd (Nat.lt_of_lt_of_le hwithin hend) (Nat.not_lt_of_ge hdue)
    · exact fun e he => absurd he (Option.not_mem_none e)
  · rw [hsame]
    exact h

/-- Time passes. -/
lemma Tracks.later {now' : ℕ} (h : z.Tracks window now log) (hle : now ≤ now') :
    z.Tracks window now' log :=
  { h with complete := fun m hm hwithin => h.complete m hm (Nat.lt_of_le_of_lt hle hwithin) }

/-- A member that is new comes last. -/
lemma expire_add [DecidableEq α] {x : α} (now seconds : ℕ)
    (hnew : x ∉ (z.current now).members.map Prod.fst) :
    (z.add now x now).expire now seconds =
      ⟨(z.current now).members ++ [(x, now)], some (now + seconds * 1000)⟩ := by
  have hall : (z.current now).members.filter (fun m => m.1 ≠ x) = (z.current now).members := by
    refine filter_eq_self.mpr fun m hm => decide_eq_true ?_
    rintro rfl
    exact hnew (mem_map_of_mem hm)
  have hadd : z.add now x now =
      { z.current now with members := (z.current now).members ++ [(x, now)] } := by
    simp only [add, hall]
  have hkept : (z.add now x now).current now = z.add now x now := by
    rw [hadd]
    exact current_of_lt (lt_expiry_current now z)
  have hne : (z.current now).members ++ [(x, now)] ≠ [] := by simp
  simp only [expire, hkept]
  rw [hadd, if_neg hne]

/-- An event happens: it is added, and the set is given a new time to live. -/
lemma Tracks.record [DecidableEq α] {x : α} {seconds : ℕ} (h : z.Tracks window now log)
    (hpast : ∀ m ∈ log, m.2 ≤ now) (hnew : x ∉ log.map Prod.fst)
    (hseconds : window ≤ seconds * 1000) :
    ((z.add now x now).expire now seconds).Tracks window now (log ++ [(x, now)]) := by
  have hcurrent := h.current
  have hfresh : x ∉ (z.current now).members.map Prod.fst := fun hx => by
    obtain ⟨m, hm, rfl⟩ := mem_map.mp hx
    exact hnew (mem_map_of_mem (hcurrent.sound m hm))
  rw [expire_add now seconds hfresh]
  constructor
  · rw [map_append, nodup_append]
    refine ⟨hcurrent.distinct, nodup_singleton _, ?_⟩
    rintro y hy _ hy' rfl
    obtain rfl : y = x := mem_singleton.mp hy'
    exact hfresh hy
  · intro m hm
    rcases mem_append.mp hm with hm | hm
    · exact mem_append_left _ (hcurrent.sound m hm)
    · exact mem_append_right _ hm
  · intro m hm hwithin
    rcases mem_append.mp hm with hm | hm
    · exact mem_append_left _ (hcurrent.complete m hm hwithin)
    · exact mem_append_right _ hm
  · intro e he m hm
    obtain rfl : now + seconds * 1000 = e := Option.some.inj he
    refine Nat.add_le_add ?_ hseconds
    rcases mem_append.mp hm with hm | hm
    · exact hpast m (hcurrent.sound m hm)
    · exact Nat.le_of_eq (congrArg Prod.snd (mem_singleton.mp hm))

/-- Nothing but the event is added. -/
lemma mem_of_record [DecidableEq α] {x : α} {seconds : ℕ} {y : α × ℕ}
    (h : y ∈ ((z.add now x now).expire now seconds).members) : y ∈ z.members ∨ y = (x, now) := by
  have hadd : y ∈ ((z.add now x now).current now).members := by
    simp only [expire] at h
    split_ifs at h
    · exact h
    · exact h
  rcases mem_append.mp (mem_of_current hadd) with hy | hy
  · exact Or.inl (mem_of_current (mem_of_mem_filter hy))
  · exact Or.inr (mem_singleton.mp hy)

/-- What has left the window at a time is removed. -/
lemma Tracks.remove {t : ℕ} (h : z.Tracks window now log) (ht : t ≤ now) :
    (z.remove now t window).Tracks window now log := by
  have hcurrent := h.current
  have hcomplete : ∀ m ∈ log, now < m.2 + window →
      m ∈ (z.current now).members.filter fun m => t < m.2 + window := fun m hm hwithin =>
    mem_filter.mpr
      ⟨hcurrent.complete m hm hwithin, decide_eq_true (Nat.lt_of_le_of_lt ht hwithin)⟩
  simp only [ZSet.remove]
  split_ifs with hnil
  · refine ⟨nodup_nil, fun m hm => absurd hm not_mem_nil, fun m hm hwithin => ?_, ?_⟩
    · exact absurd (hnil ▸ hcomplete m hm hwithin) not_mem_nil
    · exact fun e he => absurd he (Option.not_mem_none e)
  · constructor
    · exact hcurrent.distinct.sublist (filter_sublist.map _)
    · exact fun m hm => hcurrent.sound m (mem_of_mem_filter hm)
    · exact hcomplete
    · exact fun e he m hm => hcurrent.expiry e he m (mem_of_mem_filter hm)

/-- What is left after a removal was there, and was of the window. -/
lemma mem_of_remove {t : ℕ} {x : α × ℕ} (h : x ∈ (z.remove now t window).members) :
    x ∈ z.members ∧ t < x.2 + window := by
  simp only [ZSet.remove] at h
  split_ifs at h
  · exact absurd h not_mem_nil
  · obtain ⟨hx, hwithin⟩ := mem_filter.mp h
    exact ⟨mem_of_current hx, of_decide_eq_true hwithin⟩

/-! ### Sizes -/

/-- The events of the window are counted. -/
theorem Tracks.le_card {xs : List (α × ℕ)} (h : z.Tracks window now log)
    (hlog : (log.map Prod.fst).Nodup) (hxs : xs <+ log) :
    (xs.filter fun m => now < m.2 + window).length ≤ z.card now := by
  have hnodup : (xs.filter fun m => now < m.2 + window).Nodup :=
    (Nodup.of_map _ hlog).sublist (filter_sublist.trans hxs)
  refine (hnodup.subperm fun m hm => ?_).length_le
  obtain ⟨hm, hwithin⟩ := mem_filter.mp hm
  exact h.current.complete m (hxs.subset hm) (of_decide_eq_true hwithin)

/-- Only events that were in the window at the last removal are counted. -/
theorem Tracks.card_le {t : ℕ} (h : z.Tracks window now log)
    (ht : ∀ m ∈ z.members, t < m.2 + window) :
    z.card now ≤ (log.filter fun m => t < m.2 + window).length := by
  refine ((Nodup.of_map _ h.current.distinct).subperm fun m hm => ?_).length_le
  exact mem_filter.mpr ⟨h.current.sound m hm, decide_eq_true (ht m (mem_of_current hm))⟩

end ZSet
