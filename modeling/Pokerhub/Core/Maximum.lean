import Mathlib.Data.List.MinMax

/-!
# The greatest value in a list

`l.foldr max b` for a nonempty list and a lower bound `b`: where it is attained, and that two
maps ordering the elements alike attain it at the same element.
-/

namespace List

variable {α β γ : Type*} [LinearOrder β] [LinearOrder γ]

lemma foldr_max_le_iff {l : List β} {b x : β} :
    l.foldr max b ≤ x ↔ b ≤ x ∧ ∀ a ∈ l, a ≤ x := by
  induction l with
  | nil => simp
  | cons a l ih =>
    simp only [foldr_cons, max_le_iff, ih, mem_cons, forall_eq_or_imp]
    tauto

lemma foldr_max_mem {l : List β} {b : β} (hl : l ≠ []) (hb : ∀ a ∈ l, b ≤ a) :
    l.foldr max b ∈ l := by
  induction l with
  | nil => exact absurd rfl hl
  | cons a l ih =>
    rw [foldr_cons]
    rcases eq_or_ne l [] with rfl | hne
    · simp [hb a mem_cons_self]
    · rcases max_choice a (l.foldr max b) with h | h
      · rw [h]
        exact mem_cons_self
      · rw [h]
        exact mem_cons_of_mem a (ih hne fun c hc => hb c (mem_cons_of_mem a hc))

/-- Two maps that order the elements alike are greatest at a common element. -/
lemma exists_foldr_max_map_eq {f : α → β} {g : α → γ} {l : List α} {b : β} {c : γ} (hl : l ≠ [])
    (hb : ∀ x ∈ l, b ≤ f x) (hc : ∀ x ∈ l, c ≤ g x)
    (hfg : ∀ x ∈ l, ∀ y ∈ l, f x < f y ↔ g x < g y) :
    ∃ x ∈ l, (l.map f).foldr max b = f x ∧ (l.map g).foldr max c = g x := by
  have hmem : (l.map f).foldr max b ∈ l.map f :=
    foldr_max_mem (by simpa using hl) (by simpa using hb)
  obtain ⟨x, hx, hfx⟩ := mem_map.mp hmem
  have hle : ∀ y ∈ l, f y ≤ f x := by
    simpa using (foldr_max_le_iff.mp hfx.ge).2
  refine ⟨x, hx, hfx.symm, le_antisymm ?_ ?_⟩
  · refine foldr_max_le_iff.mpr ⟨hc x hx, ?_⟩
    simp only [mem_map, forall_exists_index, and_imp, forall_apply_eq_imp_iff₂]
    intro y hy
    have := hle y hy
    rw [← not_lt] at this ⊢
    rwa [← hfg x hx y hy]
  · exact (foldr_max_le_iff.mp le_rfl).2 _ (mem_map_of_mem hx)

/-- Two maps that order the elements of both lists alike compare the lists alike. -/
theorem foldr_max_map_lt_iff {f : α → β} {g : α → γ} {l m : List α} {b : β} {c : γ}
    (hl : l ≠ []) (hm : m ≠ []) (hb : ∀ x ∈ l ++ m, b ≤ f x) (hc : ∀ x ∈ l ++ m, c ≤ g x)
    (hfg : ∀ x ∈ l ++ m, ∀ y ∈ l ++ m, f x < f y ↔ g x < g y) :
    (l.map f).foldr max b < (m.map f).foldr max b ↔
      (l.map g).foldr max c < (m.map g).foldr max c := by
  have hl' : ∀ x ∈ l, x ∈ l ++ m := fun x hx => mem_append_left m hx
  have hm' : ∀ x ∈ m, x ∈ l ++ m := fun x hx => mem_append_right l hx
  obtain ⟨x, hx, hfx, hgx⟩ := exists_foldr_max_map_eq hl (fun x hx => hb x (hl' x hx))
    (fun x hx => hc x (hl' x hx)) fun x hx y hy => hfg x (hl' x hx) y (hl' y hy)
  obtain ⟨y, hy, hfy, hgy⟩ := exists_foldr_max_map_eq hm (fun x hx => hb x (hm' x hx))
    (fun x hx => hc x (hm' x hx)) fun x hx y hy => hfg x (hm' x hx) y (hm' y hy)
  rw [hfx, hgx, hfy, hgy]
  exact hfg x (hl' x hx) y (hm' y hy)

end List
