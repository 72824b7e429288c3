import Mathlib.Algebra.BigOperators.Group.List.Basic
import Mathlib.Algebra.Group.Int.Defs
import Mathlib.Algebra.Ring.Int.Defs
import Mathlib.Data.Int.Basic

/-!
# Updating the first match of a list

`updateFirst q f l` rewrites the first element of `l` that satisfies `q`. It models the write
through the reference that a search returned.
-/

namespace List

variable {α β : Type*} {q : α → Bool} {f : α → α}

/-- Apply `f` to the first element satisfying `q`. -/
def updateFirst (q : α → Bool) (f : α → α) : List α → List α
  | [] => []
  | a :: l => if q a then f a :: l else a :: updateFirst q f l

@[simp] lemma updateFirst_nil : updateFirst q f [] = [] := rfl

lemma updateFirst_cons (a : α) (l : List α) :
    updateFirst q f (a :: l) = if q a then f a :: l else a :: updateFirst q f l := rfl

/-- A projection that `f` leaves alone is left alone throughout the list. -/
lemma map_updateFirst_of_eq (g : α → β) (hg : ∀ a, g (f a) = g a) (l : List α) :
    (updateFirst q f l).map g = l.map g := by
  induction l with
  | nil => rfl
  | cons a l ih =>
    rw [updateFirst_cons]
    split
    · simp [hg]
    · simp [ih]

/-- An update commutes with a map under which the same element matches and is rewritten. -/
lemma map_updateFirst {q' : β → Bool} {f' : β → β} {g : α → β} {l : List α}
    (hq : ∀ a ∈ l, q' (g a) = q a) (hf : ∀ a ∈ l, g (f a) = f' (g a)) :
    (updateFirst q f l).map g = updateFirst q' f' (l.map g) := by
  induction l with
  | nil => rfl
  | cons a l ih =>
    simp only [mem_cons, forall_eq_or_imp] at hq hf
    rw [updateFirst_cons, map_cons, updateFirst_cons, hq.1]
    split
    · rw [map_cons, hf.1]
    · rw [map_cons, ih hq.2 hf.2]

@[simp] lemma length_updateFirst (l : List α) : (updateFirst q f l).length = l.length := by
  simpa using congrArg List.length (map_updateFirst_of_eq (q := q) (f := f) (fun _ => ())
    (fun _ => rfl) l)

/-- Every element of the updated list is an old element, or the rewritten match. -/
lemma mem_updateFirst {x : α} {l : List α} (hx : x ∈ updateFirst q f l) :
    x ∈ l ∨ ∃ a ∈ l, q a = true ∧ x = f a := by
  induction l with
  | nil => simp at hx
  | cons a l ih =>
    rw [updateFirst_cons] at hx
    split at hx
    · rename_i hq
      rcases mem_cons.mp hx with rfl | hx
      · exact Or.inr ⟨a, mem_cons_self, hq, rfl⟩
      · exact Or.inl (mem_cons_of_mem a hx)
    · rcases mem_cons.mp hx with rfl | hx
      · exact Or.inl mem_cons_self
      · rcases ih hx with h | ⟨b, hb, hqb, rfl⟩
        · exact Or.inl (mem_cons_of_mem a h)
        · exact Or.inr ⟨b, mem_cons_of_mem a hb, hqb, rfl⟩

/-- Every element of the updated list is an old element, or the rewritten first match. -/
lemma mem_updateFirst_find {x a : α} {l : List α} (ha : l.find? q = some a)
    (hx : x ∈ updateFirst q f l) : x ∈ l ∨ x = f a := by
  induction l with
  | nil => simp at hx
  | cons b l ih =>
    rw [updateFirst_cons] at hx
    cases hq : q b with
    | true =>
      simp only [find?_cons, hq, Option.some.injEq] at ha
      subst ha
      rcases mem_cons.mp (by simpa [hq] using hx) with rfl | hx
      · exact Or.inr rfl
      · exact Or.inl (mem_cons_of_mem b hx)
    | false =>
      simp only [find?_cons, hq] at ha
      rcases mem_cons.mp (by simpa [hq] using hx) with rfl | hx
      · exact Or.inl mem_cons_self
      · exact (ih ha hx).imp_left (mem_cons_of_mem b)

/-- The first match is rewritten. -/
lemma mem_updateFirst_self {a : α} {l : List α} (ha : l.find? q = some a) :
    f a ∈ updateFirst q f l := by
  induction l with
  | nil => simp at ha
  | cons b l ih =>
    rw [updateFirst_cons]
    cases hq : q b with
    | true =>
      simp only [find?_cons, hq, Option.some.injEq] at ha
      subst ha
      simp
    | false =>
      simp only [find?_cons, hq] at ha
      simpa using Or.inr (ih ha)

/-- An element that does not match stays. -/
lemma mem_updateFirst_of_mem {x : α} {l : List α} (hx : x ∈ l) (hq : q x = false) :
    x ∈ updateFirst q f l := by
  induction l with
  | nil => simp at hx
  | cons a l ih =>
    rw [updateFirst_cons]
    rcases mem_cons.mp hx with rfl | hx
    · simp [hq]
    · split
      · exact mem_cons_of_mem _ hx
      · exact mem_cons_of_mem _ (ih hx)

/-- The sum of a projection changes by what the update of the match changes. -/
lemma sum_map_updateFirst (g : α → ℤ) {a : α} {l : List α} (ha : l.find? q = some a) :
    ((updateFirst q f l).map g).sum = (l.map g).sum + (g (f a) - g a) := by
  induction l with
  | nil => simp at ha
  | cons b l ih =>
    rw [updateFirst_cons]
    cases hq : q b with
    | true =>
      simp only [find?_cons, hq, Option.some.injEq] at ha
      subst ha
      simp only [if_true, map_cons, sum_cons]
      omega
    | false =>
      simp only [find?_cons, hq] at ha
      simp only [Bool.false_eq_true, if_false, map_cons, sum_cons, ih ha]
      omega

section Keys

variable [DecidableEq β] {key : α → β} {l : List α}

/-- The element with a key is the one that a search for the key finds. -/
lemma find?_of_nodup_map (hnodup : (l.map key).Nodup) {a : α} (ha : a ∈ l) :
    l.find? (key · == key a) = some a := by
  induction l with
  | nil => exact absurd ha not_mem_nil
  | cons b l ih =>
    obtain ⟨hb, hnodup⟩ := nodup_cons.mp hnodup
    rcases mem_cons.mp ha with rfl | ha
    · simp
    · have hne : (key b == key a) = false := by
        refine beq_false_of_ne fun heq => hb ?_
        rw [heq]
        exact mem_map_of_mem ha
      rw [find?_cons, hne]
      exact ih hnodup ha

/-- When no two elements have the same key, all elements with a key are rewritten. -/
lemma updateFirst_eq_map (hnodup : (l.map key).Nodup) (k : β) (f : α → α) :
    updateFirst (key · == k) f l = l.map fun a => if key a == k then f a else a := by
  induction l with
  | nil => rfl
  | cons b l ih =>
    obtain ⟨hb, hnodup⟩ := nodup_cons.mp hnodup
    rw [updateFirst_cons, map_cons]
    by_cases hk : key b = k
    · have hkeep : (l.map fun a => if key a == k then f a else a) = l.map id := by
        refine map_congr_left fun a ha => if_neg fun heq => hb ?_
        rw [hk, ← eq_of_beq heq]
        exact mem_map_of_mem ha
      rw [hkeep, map_id]
      simp [hk]
    · rw [ih hnodup]
      simp [hk]

end Keys

end List
