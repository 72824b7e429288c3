import Mathlib.Algebra.BigOperators.Group.List.Basic
import Mathlib.Data.List.Induction
import Mathlib.Data.List.Nodup

/-!
# Sums by key

Amounts are added up under keys, in a map that keeps the keys in the order in which they were first
used. The map has each key once, with the total of its amounts (`mem_tally`), and together the
totals are the sum of all amounts (`sum_tally`).
-/

namespace List

variable {κ α : Type*} [DecidableEq κ] [AddCommMonoid α]

/-- Adds to what is under the key. -/
def addTo (totals : List (κ × α)) (k : κ) (x : α) : List (κ × α) :=
  if k ∈ totals.map (·.1) then totals.map fun e => if e.1 = k then (k, e.2 + x) else e
  else totals ++ [(k, x)]

/-- All amounts under their keys. -/
def tally (entries : List (κ × α)) : List (κ × α) :=
  entries.foldl (fun totals e => totals.addTo e.1 e.2) []

/-- The total of a key. -/
def totalOf (entries : List (κ × α)) (k : κ) : α :=
  ((entries.filter fun e => e.1 = k).map (·.2)).sum

variable {totals entries : List (κ × α)} {k : κ} {x : α}

lemma keys_addTo : (totals.addTo k x).map (·.1) =
    if k ∈ totals.map (·.1) then totals.map (·.1) else totals.map (·.1) ++ [k] := by
  rw [addTo]
  split_ifs with hk
  · rw [map_map]
    refine map_congr_left fun e _ => ?_
    by_cases he : e.1 = k
    · simp [he]
    · simp [he]
  · simp

lemma nodup_addTo (h : (totals.map (·.1)).Nodup) : ((totals.addTo k x).map (·.1)).Nodup := by
  rw [keys_addTo]
  split_ifs with hk
  · exact h
  · exact h.append (nodup_singleton k) (by simpa using hk)

lemma tally_append (entries : List (κ × α)) (e : κ × α) :
    tally (entries ++ [e]) = (tally entries).addTo e.1 e.2 := by
  rw [tally, foldl_append]
  rfl

/-- No key is there twice. -/
lemma nodup_tally (entries : List (κ × α)) : ((tally entries).map (·.1)).Nodup := by
  induction entries using List.reverseRecOn with
  | nil => exact nodup_nil
  | append_singleton entries e ih =>
    rw [tally_append]
    exact nodup_addTo ih

lemma mem_keys_tally : k ∈ (tally entries).map (·.1) ↔ k ∈ entries.map (·.1) := by
  induction entries using List.reverseRecOn with
  | nil => rfl
  | append_singleton entries e ih =>
    rw [tally_append, keys_addTo, map_append, mem_append]
    split_ifs with he
    · rw [ih]
      refine ⟨Or.inl, fun h => h.elim id fun hk => ?_⟩
      rw [← ih]
      simp only [map_cons, map_nil, mem_singleton] at hk
      exact hk ▸ he
    · rw [mem_append, ih]
      rfl

lemma totalOf_append (entries : List (κ × α)) (e : κ × α) (k : κ) :
    totalOf (entries ++ [e]) k = totalOf entries k + if e.1 = k then e.2 else 0 := by
  by_cases he : e.1 = k
  · simp [totalOf, filter_append, he]
  · simp [totalOf, filter_append, he]

lemma totalOf_of_notMem (h : k ∉ entries.map (·.1)) : totalOf entries k = 0 := by
  have hnone : (entries.filter fun e => e.1 = k) = [] := by
    rw [filter_eq_nil_iff]
    intro e he hk
    exact h (mem_map.mpr ⟨e, he, by simpa using hk⟩)
  rw [totalOf, hnone]
  rfl

lemma value_of_mem_tally {e : κ × α} (h : e ∈ tally entries) : e.2 = totalOf entries e.1 := by
  induction entries using List.reverseRecOn generalizing e with
  | nil => cases h
  | append_singleton entries d ih =>
    rw [tally_append, addTo] at h
    rw [totalOf_append]
    split_ifs at h with hd
    · obtain ⟨e', he', rfl⟩ := mem_map.mp h
      by_cases hkey : e'.1 = d.1
      · simp only [hkey, if_true]
        rw [ih he', hkey]
      · simp only [hkey, if_false, Ne.symm hkey, add_zero]
        exact ih he'
    · rcases mem_append.mp h with he | he
      · have hne : d.1 ≠ e.1 := fun hkey => hd (hkey ▸ mem_map_of_mem he)
        rw [if_neg hne, add_zero, ih he]
      · rw [mem_singleton.mp he, if_pos rfl, totalOf_of_notMem (mem_keys_tally.not.mp hd), zero_add]

/-- Each key has its total. -/
theorem mem_tally : (k, x) ∈ tally entries ↔ k ∈ entries.map (·.1) ∧ x = totalOf entries k := by
  constructor
  · intro h
    exact ⟨mem_keys_tally.mp (mem_map_of_mem (f := Prod.fst) h), value_of_mem_tally h⟩
  · rintro ⟨hk, rfl⟩
    obtain ⟨e, he, rfl⟩ := mem_map.mp (mem_keys_tally.mpr hk)
    rw [← value_of_mem_tally he]
    exact he

lemma sum_addTo (h : (totals.map (·.1)).Nodup) :
    ((totals.addTo k x).map (·.2)).sum = (totals.map (·.2)).sum + x := by
  rw [addTo]
  split_ifs with hk
  · induction totals with
    | nil => cases hk
    | cons e totals ih =>
      obtain ⟨he, hnodup⟩ := nodup_cons.mp h
      by_cases hkey : e.1 = k
      · have hrest : (totals.map fun e => if e.1 = k then (k, e.2 + x) else e) = totals := by
          refine (map_congr_left fun d hd => ?_).trans (map_id totals)
          exact if_neg fun hd' => he (mem_map.mpr ⟨d, hd, hd'.trans hkey.symm⟩)
        simp only [map_cons, sum_cons, hrest, hkey, if_true]
        rw [add_assoc, add_comm x, ← add_assoc]
      · have hmem : k ∈ totals.map (·.1) := by
          rcases mem_cons.mp hk with hk | hk
          · exact absurd hk.symm hkey
          · exact hk
        simp only [map_cons, sum_cons, hkey, if_false, ih hnodup hmem]
        rw [add_assoc]
  · simp

/-- Nothing is lost. -/
theorem sum_tally (entries : List (κ × α)) :
    ((tally entries).map (·.2)).sum = (entries.map (·.2)).sum := by
  induction entries using List.reverseRecOn with
  | nil => rfl
  | append_singleton entries e ih => rw [tally_append, sum_addTo (nodup_tally _), ih]; simp

end List
