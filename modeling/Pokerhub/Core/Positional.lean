import Mathlib.Data.Nat.Basic
import Mathlib.Data.List.Induction
import Mathlib.Data.List.Lex
import Mathlib.Tactic.Ring
import Mathlib.Tactic.Linarith

/-!
# Positional encodings

`positional b s ks` appends the digits `ks` to the number `s` in base `b`. Among encodings with
the same number of digits the order is lexicographic (`positional_lt_positional_iff`); with
different numbers of digits only the interval of each encoding is known
(`mul_pow_le_positional`, `positional_lt_mul_pow`).
-/

/-- Append the digits `ks` to `s` in base `b`, the most significant first. -/
def positional (b s : ℕ) (ks : List ℕ) : ℕ :=
  ks.foldl (fun s k => s * b + k) s

variable {b s t : ℕ} {ks ms : List ℕ}

@[simp] lemma positional_nil : positional b s [] = s := rfl

@[simp] lemma positional_cons (k : ℕ) : positional b s (k :: ks) = positional b (s * b + k) ks :=
  rfl

lemma mul_pow_le_positional (b s : ℕ) (ks : List ℕ) : s * b ^ ks.length ≤ positional b s ks := by
  induction ks generalizing s with
  | nil => simp
  | cons k ks ih =>
    calc s * b ^ (ks.length + 1) = s * b * b ^ ks.length := by ring
      _ ≤ (s * b + k) * b ^ ks.length := Nat.mul_le_mul_right _ (by omega)
      _ ≤ positional b s (k :: ks) := ih _

lemma positional_lt_mul_pow (hks : ∀ k ∈ ks, k < b) :
    positional b s ks < (s + 1) * b ^ ks.length := by
  induction ks generalizing s with
  | nil => simp
  | cons k ks ih =>
    simp only [List.mem_cons, forall_eq_or_imp] at hks
    calc positional b s (k :: ks) < (s * b + k + 1) * b ^ ks.length := ih hks.2
      _ ≤ (s + 1) * b * b ^ ks.length := by
        refine Nat.mul_le_mul_right _ ?_
        have := hks.1
        linarith
      _ = (s + 1) * b ^ (ks.length + 1) := by ring

/-- One more digit refines the order. -/
lemma digit_lt_digit_iff {k m : ℕ} (hk : k < b) (hm : m < b) :
    s * b + k < t * b + m ↔ s < t ∨ (s = t ∧ k < m) := by
  rcases lt_trichotomy s t with h | rfl | h
  · have : (s + 1) * b ≤ t * b := Nat.mul_le_mul_right _ h
    refine iff_of_true (by linarith) (Or.inl h)
  · simp
  · have : (t + 1) * b ≤ s * b := Nat.mul_le_mul_right _ h
    refine iff_of_false (by linarith) (by omega)

lemma digit_eq_digit_iff {k m : ℕ} (hk : k < b) (hm : m < b) :
    s * b + k = t * b + m ↔ s = t ∧ k = m := by
  have h := digit_lt_digit_iff (s := s) (t := t) hk hm
  have h' := digit_lt_digit_iff (s := t) (t := s) hm hk
  constructor
  · intro heq
    omega
  · rintro ⟨rfl, rfl⟩
    rfl

/-- With equally many digits, encodings compare lexicographically. -/
theorem positional_lt_positional_iff (hlen : ks.length = ms.length) (hks : ∀ k ∈ ks, k < b)
    (hms : ∀ m ∈ ms, m < b) :
    positional b s ks < positional b t ms ↔ s :: ks < t :: ms := by
  induction ks generalizing s t ms with
  | nil =>
    cases ms with
    | nil => simp [List.cons_lt_cons_iff]
    | cons m ms => simp at hlen
  | cons k ks ih =>
    cases ms with
    | nil => simp at hlen
    | cons m ms =>
      simp only [List.mem_cons, forall_eq_or_imp] at hks hms
      rw [positional_cons, positional_cons, ih (by simpa using hlen) hks.2 hms.2]
      simp only [List.cons_lt_cons_iff, digit_lt_digit_iff hks.1 hms.1,
        digit_eq_digit_iff hks.1 hms.1]
      tauto

/-! ### Numbers of different lengths -/

lemma positional_append_singleton (b s k : ℕ) (ks : List ℕ) :
    positional b s (ks ++ [k]) = positional b s ks * b + k :=
  List.foldl_append

lemma le_positional_append_singleton {k : ℕ} (ks : List ℕ) (hk : k < b) :
    b ≤ positional b 1 (ks ++ [k]) := by
  have hpos : 1 ≤ b ^ ks.length := Nat.one_le_pow _ _ (Nat.zero_lt_of_lt hk)
  calc b = 1 * b := (Nat.one_mul b).symm
    _ ≤ positional b 1 ks * b :=
      Nat.mul_le_mul_right b (hpos.trans (by simpa using mul_pow_le_positional b 1 ks))
    _ ≤ positional b 1 (ks ++ [k]) := by
      rw [positional_append_singleton]
      exact Nat.le_add_right _ _

/-- A leading digit keeps numbers of different lengths apart. -/
theorem positional_one_injective (hb : 1 < b) (hks : ∀ k ∈ ks, k < b) (hms : ∀ m ∈ ms, m < b)
    (h : positional b 1 ks = positional b 1 ms) : ks = ms := by
  induction ks using List.reverseRecOn generalizing ms with
  | nil =>
    cases ms using List.reverseRecOn with
    | nil => rfl
    | append_singleton ms m =>
      have hle := le_positional_append_singleton ms (hms m (by simp))
      rw [← h] at hle
      exact absurd hle (not_le.mpr hb)
  | append_singleton ks k ih =>
    cases ms using List.reverseRecOn with
    | nil =>
      have hle := le_positional_append_singleton ks (hks k (by simp))
      rw [h] at hle
      exact absurd hle (not_le.mpr hb)
    | append_singleton ms m =>
      rw [positional_append_singleton, positional_append_singleton,
        digit_eq_digit_iff (hks k (by simp)) (hms m (by simp))] at h
      rw [ih (fun k hk => hks k (by simp [hk])) (fun m hm => hms m (by simp [hm])) h.1, h.2]
