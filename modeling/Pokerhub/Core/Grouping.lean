import Mathlib.Data.List.Induction
import Mathlib.Data.List.Nodup

/-!
# Values by key

Values are put under keys, in a map that keeps its keys in the order in which they were first used,
and what is under a key is built up value by value. The map has each key once, and under it what the
values of that key make, in their order (`groups_eq`). The values of a set are kept in the same way
(`List.foldl add []`).
-/

namespace Grouping

open List

variable {κ γ β : Type*} [DecidableEq κ]

/-! ### Sets -/

section Sets

variable {s xs : List κ} {x y : κ}

/-- A set that keeps its elements in the order in which they were first added. -/
def add (s : List κ) (x : κ) : List κ :=
  if x ∈ s then s else s ++ [x]

lemma mem_add : y ∈ add s x ↔ y ∈ s ∨ y = x := by
  unfold add
  split_ifs with hx
  · refine ⟨Or.inl, ?_⟩
    rintro (hy | rfl)
    · exact hy
    · exact hx
  · simp

lemma nodup_add (h : s.Nodup) : (add s x).Nodup := by
  unfold add
  split_ifs with hx
  · exact h
  · exact h.append (nodup_singleton x) (by simpa using hx)

lemma mem_foldl_add : y ∈ xs.foldl add s ↔ y ∈ s ∨ y ∈ xs := by
  induction xs generalizing s with
  | nil => simp
  | cons x xs ih => rw [foldl_cons, ih, mem_add, mem_cons, or_assoc]

lemma nodup_foldl_add (h : s.Nodup) : (xs.foldl add s).Nodup := by
  induction xs generalizing s with
  | nil => exact h
  | cons x xs ih => exact ih (nodup_add h)

omit [DecidableEq κ] in
/-- A set of two elements at least. -/
lemma one_lt_length_iff (h : s.Nodup) : 1 < s.length ↔ ∃ x ∈ s, ∃ y ∈ s, x ≠ y := by
  rcases s with _ | ⟨a, _ | ⟨b, s⟩⟩
  · simp
  · simp
  · have hab : a ≠ b := (nodup_cons.mp h).1 ∘ fun heq => heq ▸ mem_cons_self
    exact ⟨fun _ => ⟨a, mem_cons_self, b, mem_cons_of_mem _ mem_cons_self, hab⟩, fun _ => by simp⟩

end Sets

/-! ### Maps -/

variable (put : β → γ → β) (empty : β)

/-- Puts a value under a key. -/
def update (groups : List (κ × β)) (k : κ) (x : γ) : List (κ × β) :=
  if k ∈ groups.map Prod.fst then
    groups.map fun g => if g.1 = k then (k, put g.2 x) else g
  else groups ++ [(k, put empty x)]

/-- All values under their keys. -/
def groups (entries : List (κ × γ)) : List (κ × β) :=
  entries.foldl (fun groups e => update put empty groups e.1 e.2) []

/-- The values of a key, in their order. -/
def valuesOf (entries : List (κ × γ)) (k : κ) : List γ :=
  (entries.filter fun e => e.1 = k).map Prod.snd

/-- The keys in the order in which they were first used. -/
def keysOf (entries : List (κ × γ)) : List κ :=
  (entries.map Prod.fst).foldl add []

variable {put empty} {entries : List (κ × γ)} {k : κ}

lemma mem_keysOf : k ∈ keysOf entries ↔ k ∈ entries.map Prod.fst := by
  rw [keysOf, mem_foldl_add]
  simp

lemma mem_valuesOf {x : γ} : x ∈ valuesOf entries k ↔ (k, x) ∈ entries := by
  unfold valuesOf
  rw [mem_map]
  constructor
  · rintro ⟨⟨k', x'⟩, he, rfl⟩
    obtain ⟨hmem, hk⟩ := mem_filter.mp he
    obtain rfl : k' = k := by simpa using hk
    exact hmem
  · exact fun he => ⟨(k, x), mem_filter.mpr ⟨he, by simp⟩, rfl⟩

lemma valuesOf_append (e : κ × γ) :
    valuesOf (entries ++ [e]) k = valuesOf entries k ++ if e.1 = k then [e.2] else [] := by
  unfold valuesOf
  rw [filter_append, map_append]
  split_ifs with he <;> simp [he]

lemma valuesOf_of_notMem (h : k ∉ entries.map Prod.fst) : valuesOf entries k = [] := by
  refine eq_nil_iff_forall_not_mem.mpr fun x hx => h ?_
  exact mem_map_of_mem (f := Prod.fst) (mem_valuesOf.mp hx)

/-- The map has each key once, and under it what the values of the key make. -/
theorem groups_eq (entries : List (κ × γ)) :
    groups put empty entries =
      (keysOf entries).map fun k => (k, (valuesOf entries k).foldl put empty) := by
  induction entries using reverseRecOn with
  | nil => rfl
  | append_singleton entries e ih =>
    have hkeys : (groups put empty entries).map Prod.fst = keysOf entries := by
      rw [ih, map_map]
      exact map_id _
    have hgroups : groups put empty (entries ++ [e]) =
        update put empty (groups put empty entries) e.1 e.2 := by
      rw [groups, foldl_append]
      rfl
    have hkeysOf : keysOf (entries ++ [e]) = add (keysOf entries) e.1 := by
      rw [keysOf, map_append, foldl_append]
      rfl
    rw [hgroups, update, hkeys, hkeysOf, add]
    split_ifs with he
    · rw [ih, map_map]
      refine map_congr_left fun k _ => ?_
      rw [valuesOf_append, Function.comp_apply]
      by_cases hk : k = e.1
      · rw [if_pos hk, if_pos hk.symm, foldl_append, hk]
        rfl
      · rw [if_neg hk, if_neg (Ne.symm hk), append_nil]
    · rw [map_append, map_singleton, ih]
      congr 1
      · refine map_congr_left fun k hk => ?_
        have hne : e.1 ≠ k := fun heq => he (heq ▸ hk)
        rw [valuesOf_append, if_neg hne, append_nil]
      · rw [valuesOf_append, if_pos rfl, valuesOf_of_notMem (mem_keysOf.not.mp he)]
        rfl

lemma mem_groups {g : κ × β} : g ∈ groups put empty entries ↔
    g.1 ∈ entries.map Prod.fst ∧ g.2 = (valuesOf entries g.1).foldl put empty := by
  rw [groups_eq, mem_map]
  constructor
  · rintro ⟨k, hk, rfl⟩
    exact ⟨mem_keysOf.mp hk, rfl⟩
  · rintro ⟨hk, hvalue⟩
    exact ⟨g.1, mem_keysOf.mpr hk, Prod.ext rfl hvalue.symm⟩

lemma nodup_keys : ((groups put empty entries).map Prod.fst).Nodup := by
  rw [groups_eq, map_map]
  have hid : (Prod.fst ∘ fun k => (k, (valuesOf entries k).foldl put empty)) = id := rfl
  rw [hid, map_id]
  exact nodup_foldl_add nodup_nil

/-- Values that are kept in a list are kept in their order. -/
lemma foldl_push (xs ys : List γ) : xs.foldl (fun l x => l ++ [x]) ys = ys ++ xs := by
  induction xs generalizing ys with
  | nil => simp
  | cons x xs ih => rw [foldl_cons, ih, append_assoc, singleton_append]

end Grouping
