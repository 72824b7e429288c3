import Mathlib.Data.List.Perm.Subperm
import Pokerhub.Core.Grouping

/-!
# Sets that only grow

The sets of a key-value store from which nothing is removed, kept as one list of entries in the
order in which they came. What the sets were earlier is a first part of the list (`KeyedSets.upTo`),
so an answer that was read since then lies between the set of that time and the set of any later
time (`KeyedSets.Answer`), whatever is added in the meantime (`KeyedSets.Answer.add`).
-/

open List

/-- Sets under keys; each entry has come once. -/
structure KeyedSets (κ ν : Type) where
  entries : List (κ × ν)
  nodup : entries.Nodup

namespace KeyedSets

variable {κ ν : Type} {s : KeyedSets κ ν} {k : κ} {v : ν} {vs : List ν} {n : ℕ} {e : κ × ν}

def empty : KeyedSets κ ν := ⟨[], nodup_nil⟩

/-- The sets when they had `n` entries. -/
def upTo (n : ℕ) (s : KeyedSets κ ν) : KeyedSets κ ν :=
  ⟨s.entries.take n, s.nodup.sublist (take_sublist n s.entries)⟩

lemma mem_of_upTo (h : e ∈ (s.upTo n).entries) : e ∈ s.entries :=
  (take_sublist n s.entries).subset h

/-! ### Answers -/

variable [DecidableEq κ]

/-- The members of a set. -/
def members (k : κ) (s : KeyedSets κ ν) : List ν :=
  Grouping.valuesOf s.entries k

@[simp] lemma mem_members : v ∈ s.members k ↔ (k, v) ∈ s.entries := Grouping.mem_valuesOf

lemma nodup_members (s : KeyedSets κ ν) (k : κ) : (s.members k).Nodup := by
  refine Nodup.map_on ?_ (s.nodup.filter _)
  rintro ⟨k₁, v₁⟩ h₁ ⟨k₂, v₂⟩ h₂ heq
  obtain rfl : v₁ = v₂ := heq
  obtain rfl : k₁ = k := by simpa using (mem_filter.mp h₁).2
  obtain rfl : k₂ = k₁ := by simpa using (mem_filter.mp h₂).2
  rfl

/-- `vs` was read from the set `k` at a time when there were `n` entries or more. -/
structure Answer (n : ℕ) (s : KeyedSets κ ν) (k : κ) (vs : List ν) : Prop where
  distinct : vs.Nodup
  complete : ∀ v ∈ (s.upTo n).members k, v ∈ vs
  sound : ∀ v ∈ vs, v ∈ s.members k

/-- The set, in any order. -/
lemma Answer.of_perm (n : ℕ) (h : vs ~ s.members k) : Answer n s k vs := by
  refine ⟨h.nodup_iff.mpr (nodup_members s k), fun v hv => ?_, fun v hv => h.mem_iff.mp hv⟩
  exact h.mem_iff.mpr (mem_members.mpr (mem_of_upTo (mem_members.mp hv)))

/-- The size of an answer is between the sizes of the sets. -/
lemma Answer.length (h : Answer n s k vs) :
    ((s.upTo n).members k).length ≤ vs.length ∧ vs.length ≤ (s.members k).length :=
  ⟨((nodup_members _ k).subperm h.complete).length_le, (h.distinct.subperm h.sound).length_le⟩

/-! ### Adding -/

variable [DecidableEq ν]

/-- `SADD`. -/
def add (k : κ) (v : ν) (s : KeyedSets κ ν) : KeyedSets κ ν :=
  ⟨Grouping.add s.entries (k, v), Grouping.nodup_add s.nodup⟩

lemma mem_add : e ∈ (s.add k v).entries ↔ e ∈ s.entries ∨ e = (k, v) := Grouping.mem_add

/-- What is added comes last. -/
lemma prefix_add (s : KeyedSets κ ν) (k : κ) (v : ν) : s.entries <+: (s.add k v).entries := by
  simp only [add, Grouping.add]
  split_ifs
  · exact prefix_rfl
  · exact prefix_append _ _

lemma upTo_add (k : κ) (v : ν) (h : n ≤ s.entries.length) : (s.add k v).upTo n = s.upTo n := by
  obtain ⟨es, hes⟩ := prefix_add s k v
  unfold upTo
  congr 1
  rw [← hes, take_append_of_le_length h]

/-- The sets as they were then do not have what is added, or they are the sets of now. -/
lemma upTo_add_cases (s : KeyedSets κ ν) (k : κ) (v : ν) (n : ℕ) :
    (s.add k v).upTo n = s.upTo n ∨ (s.add k v).upTo n = s.add k v := by
  rcases Nat.le_total n s.entries.length with hn | hn
  · exact Or.inl (upTo_add k v hn)
  · unfold upTo add Grouping.add
    split_ifs with hmem
    · exact Or.inl rfl
    · rcases Nat.eq_or_lt_of_le hn with rfl | hlt
      · refine Or.inl ?_
        congr 1
        rw [take_left, take_length]
      · refine Or.inr ?_
        congr 1
        refine take_of_length_le ?_
        rw [length_append]
        exact hlt

/-- What is added does not make an answer wrong. -/
lemma Answer.add (h : Answer n s k vs) (hn : n ≤ s.entries.length) (k' : κ) (v : ν) :
    Answer n (s.add k' v) k vs := by
  refine ⟨h.distinct, ?_, fun v hv => ?_⟩
  · rw [upTo_add k' v hn]
    exact h.complete
  · exact mem_members.mpr (mem_add.mpr (Or.inl (mem_members.mp (h.sound v hv))))

end KeyedSets
