import Mathlib.Data.List.Basic
import Mathlib.Data.List.Nodup

/-!
# Maps in order of insertion

A map that lists its entries in the order in which their keys were first set; a key that is set
again keeps its place. What a map answers after an operation is told by `get?_set`, `get?_delete`
and `get?_filter`, and what it answers when it is made again from its entries by `get?_foldl_perm`.
-/

open List

/-- A map; each key is there once. -/
structure OrderedMap (κ ν : Type) where
  entries : List (κ × ν)
  nodup : (entries.map Prod.fst).Nodup

namespace OrderedMap

variable {κ ν : Type}

def empty : OrderedMap κ ν := ⟨[], nodup_nil⟩

/-- The entries that meet a condition. -/
def filter (p : κ → ν → Bool) (m : OrderedMap κ ν) : OrderedMap κ ν :=
  ⟨m.entries.filter fun e => p e.1 e.2, m.nodup.sublist (filter_sublist.map _)⟩

variable [DecidableEq κ]

def get? (m : OrderedMap κ ν) (k : κ) : Option ν :=
  (m.entries.find? fun e => e.1 = k).map Prod.snd

omit [DecidableEq κ] in
private lemma nodup_set {m : OrderedMap κ ν} {k : κ} (v : ν) (h : k ∉ m.entries.map Prod.fst) :
    ((m.entries ++ [(k, v)]).map Prod.fst).Nodup := by
  rw [map_append]
  exact m.nodup.append (nodup_singleton k) (by simpa using h)

private lemma map_replaced (k : κ) (v : ν) (es : List (κ × ν)) :
    (es.map fun e => if e.1 = k then (k, v) else e).map Prod.fst = es.map Prod.fst := by
  rw [map_map]
  refine map_congr_left fun e _ => ?_
  simp only [Function.comp_apply]
  split_ifs with hk
  · exact hk.symm
  · rfl

def set (k : κ) (v : ν) (m : OrderedMap κ ν) : OrderedMap κ ν :=
  if h : k ∈ m.entries.map Prod.fst then
    ⟨m.entries.map fun e => if e.1 = k then (k, v) else e, by
      rw [map_replaced]
      exact m.nodup⟩
  else ⟨m.entries ++ [(k, v)], nodup_set v h⟩

def delete (k : κ) (m : OrderedMap κ ν) : OrderedMap κ ν :=
  m.filter fun k' _ => k' ≠ k

variable {m : OrderedMap κ ν} {k k' : κ} {v v' : ν}

lemma get?_empty (k : κ) : (empty : OrderedMap κ ν).get? k = none := rfl

/-- The value of a key is that of its only entry. -/
theorem get?_eq_some : m.get? k = some v ↔ (k, v) ∈ m.entries := by
  obtain ⟨es, hes⟩ := m
  unfold get?
  induction es with
  | nil => simp
  | cons e es ih =>
    rw [map_cons, nodup_cons] at hes
    obtain ⟨hnew, hnodup⟩ := hes
    have hih := ih hnodup
    dsimp only at hih ⊢
    rw [find?_cons, mem_cons]
    by_cases hk : e.1 = k
    · obtain ⟨k₀, v₀⟩ := e
      obtain rfl : k₀ = k := hk
      simp only [decide_true, Option.map_some, Option.some.injEq]
      constructor
      · rintro rfl
        exact Or.inl rfl
      · rintro (heq | hmem)
        · exact (Prod.mk.inj heq).2.symm
        · exact absurd (mem_map_of_mem (f := Prod.fst) hmem) hnew
    · simp only [decide_eq_false hk]
      rw [hih]
      constructor
      · exact Or.inr
      · rintro (rfl | hmem)
        · exact absurd rfl hk
        · exact hmem

lemma mem_keys : k ∈ m.entries.map Prod.fst ↔ m.get? k ≠ none := by
  rw [mem_map, Option.ne_none_iff_exists']
  constructor
  · rintro ⟨e, he, rfl⟩
    exact ⟨e.2, get?_eq_some.mpr he⟩
  · rintro ⟨v, hv⟩
    exact ⟨(k, v), get?_eq_some.mp hv, rfl⟩

/-- Two maps with the same values. -/
private lemma get?_congr {m' : OrderedMap κ ν}
    (h : ∀ v, (k, v) ∈ m.entries ↔ (k', v) ∈ m'.entries) : m.get? k = m'.get? k' := by
  refine Option.ext fun v => ?_
  rw [get?_eq_some, get?_eq_some]
  exact h v

lemma mem_set {e : κ × ν} : e ∈ (m.set k v).entries ↔ e = (k, v) ∨ e ∈ m.entries ∧ e.1 ≠ k := by
  unfold set
  split_ifs with hk
  · rw [mem_map]
    constructor
    · rintro ⟨e', he', rfl⟩
      split_ifs with he
      · exact Or.inl rfl
      · exact Or.inr ⟨he', he⟩
    · rintro (rfl | ⟨he, hne⟩)
      · obtain ⟨e', he', hk'⟩ := mem_map.mp hk
        exact ⟨e', he', if_pos hk'⟩
      · exact ⟨e, he, if_neg hne⟩
  · rw [mem_append, mem_singleton, or_comm]
    refine or_congr Iff.rfl ⟨fun he => ⟨he, ?_⟩, And.left⟩
    rintro rfl
    exact hk (mem_map_of_mem he)

theorem get?_set (k k' : κ) (v : ν) (m : OrderedMap κ ν) :
    (m.set k v).get? k' = if k' = k then some v else m.get? k' := by
  split_ifs with hk
  · rw [get?_eq_some, mem_set, hk]
    exact Or.inl rfl
  · refine get?_congr fun v' => ?_
    rw [mem_set]
    constructor
    · rintro (heq | ⟨hmem, -⟩)
      · exact absurd (Prod.mk.inj heq).1 hk
      · exact hmem
    · exact fun hmem => Or.inr ⟨hmem, hk⟩

theorem get?_filter (p : κ → ν → Bool) (k : κ) (m : OrderedMap κ ν) :
    (m.filter p).get? k = (m.get? k).filter (p k) := by
  refine Option.ext fun v => ?_
  rw [get?_eq_some, Option.filter_eq_some_iff, get?_eq_some]
  exact mem_filter

theorem get?_delete (k k' : κ) (m : OrderedMap κ ν) :
    (m.delete k).get? k' = if k' = k then none else m.get? k' := by
  rw [delete, get?_filter]
  split_ifs with hk
  · cases m.get? k' with
    | none => rfl
    | some v => simp [hk]
  · cases m.get? k' with
    | none => rfl
    | some v => simp [hk]

/-- Entries that are set one after another. -/
theorem get?_foldl_set {es : List (κ × ν)} (hnodup : (es.map Prod.fst).Nodup)
    (m : OrderedMap κ ν) :
    (es.foldl (fun m e => m.set e.1 e.2) m).get? k = some v ↔
      (k, v) ∈ es ∨ k ∉ es.map Prod.fst ∧ m.get? k = some v := by
  induction es generalizing m with
  | nil => simp
  | cons e es ih =>
    obtain ⟨k₀, v₀⟩ := e
    rw [map_cons, nodup_cons] at hnodup
    obtain ⟨hnew, hnodup⟩ := hnodup
    rw [foldl_cons, ih hnodup, get?_set, map_cons, mem_cons, mem_cons, not_or]
    by_cases hk : k = k₀
    · subst hk
      rw [if_pos rfl]
      constructor
      · rintro (hmem | ⟨-, heq⟩)
        · exact absurd (mem_map_of_mem (f := Prod.fst) hmem) hnew
        · exact Or.inl (Or.inl (congrArg (Prod.mk k) (Option.some.inj heq).symm))
      · rintro ((heq | hmem) | ⟨⟨hne, -⟩, -⟩)
        · exact Or.inr ⟨hnew, congrArg some (Prod.mk.inj heq).2.symm⟩
        · exact absurd (mem_map_of_mem (f := Prod.fst) hmem) hnew
        · exact absurd rfl hne
    · rw [if_neg hk]
      constructor
      · rintro (hmem | ⟨hk', hm⟩)
        · exact Or.inl (Or.inr hmem)
        · exact Or.inr ⟨⟨hk, hk'⟩, hm⟩
      · rintro ((heq | hmem) | ⟨⟨-, hk'⟩, hm⟩)
        · exact absurd (Prod.mk.inj heq).1 hk
        · exact Or.inl hmem
        · exact Or.inr ⟨hk', hm⟩

/-- A map is made again from its entries in any order. -/
theorem get?_foldl_perm {es : List (κ × ν)} (h : es.Perm m.entries) (k : κ) :
    (es.foldl (fun m e => m.set e.1 e.2) empty).get? k = m.get? k := by
  have hnodup : (es.map Prod.fst).Nodup := (h.map Prod.fst).nodup_iff.mpr m.nodup
  refine Option.ext fun v => ?_
  rw [get?_foldl_set hnodup, h.mem_iff, get?_empty, get?_eq_some]
  exact ⟨fun hor => hor.resolve_right fun hnone => (nomatch hnone.2), Or.inl⟩

end OrderedMap
