import Mathlib.Data.List.Nodup

/-!
# Guarded journals

Operations that write keys into a journal. An operation with a key that is in the journal already
is suppressed as a whole; otherwise it is posted and all its keys are written, if they are
different. The guard is exact in a run from an empty journal, that is, an operation is suppressed
only after the same operation was posted, exactly when no two different operations of the run
have a key in common (`exact_iff`).
-/

/-- Operations `ω` on states `σ` with a journal of keys `κ`. An operation may end before it gets
to the journal; then it has no keys. -/
structure JournalSystem (σ ω κ : Type*) where
  run : ω → σ → σ
  keys : ω → σ → Option (List κ)
  journal : σ → List κ

namespace JournalSystem

open List

variable {σ ω κ : Type*} (J : JournalSystem σ ω κ)

/-- The state after a list of operations. -/
def after (ops : List ω) (s : σ) : σ :=
  ops.foldl (fun s o => J.run o s) s

/-- One of the keys is in the journal already. -/
def Suppressed (o : ω) (s : σ) : Prop :=
  ∃ ks, J.keys o s = some ks ∧ ∃ k ∈ ks, k ∈ J.journal s

/-- The keys are new and different. -/
def Posts (o : ω) (s : σ) (ks : List κ) : Prop :=
  J.keys o s = some ks ∧ (∀ k ∈ ks, k ∉ J.journal s) ∧ ks.Nodup

/-- The operation has been posted in the course of `ops`. -/
def PostedIn (ops : List ω) (s : σ) (o : ω) : Prop :=
  ∃ before later ks, ops = before ++ o :: later ∧ J.Posts o (J.after before s) ks

/-- An operation is suppressed only after the same operation was posted. -/
def Exact (ops : List ω) (s : σ) : Prop :=
  ∀ before o later, ops = before ++ o :: later → J.Suppressed o (J.after before s) →
    J.PostedIn before s o

/-- An operation that could be posted has no key in common with a later, different one. -/
def Apart (ops : List ω) (s : σ) : Prop :=
  ∀ before o between o' later ks ks', ops = before ++ o :: between ++ o' :: later →
    J.keys o (J.after before s) = some ks → ks.Nodup →
    J.keys o' (J.after (before ++ o :: between) s) = some ks' → (∃ k ∈ ks, k ∈ ks') → o = o'

/-- What the operations do to the journal. -/
structure Lawful : Prop where
  posts : ∀ {o s ks}, J.Posts o s ks → J.journal (J.run o s) = J.journal s ++ ks
  keeps : ∀ {o s}, (∀ ks, ¬ J.Posts o s ks) → J.journal (J.run o s) = J.journal s
  /-- The keys of an operation do not change within a run. -/
  stable : ∀ {o ops ops' s ks ks'}, J.keys o (J.after ops s) = some ks →
    J.keys o (J.after ops' s) = some ks' → ks = ks'

variable {J} {ops ops' before later : List ω} {o o' : ω} {s : σ} {k : κ} {ks ks' : List κ}

@[simp] lemma after_nil : J.after [] s = s := rfl

lemma after_append : J.after (before ++ later) s = J.after later (J.after before s) :=
  foldl_append

lemma PostedIn.append (h : J.PostedIn before s o) (later : List ω) :
    J.PostedIn (before ++ later) s o := by
  obtain ⟨first, rest, ks, rfl, hpost⟩ := h
  exact ⟨first, rest ++ later, ks, by simp, hpost⟩

lemma Posts.postedIn (h : J.Posts o (J.after before s) ks) : J.PostedIn (before ++ [o]) s o :=
  ⟨before, [], ks, rfl, h⟩

namespace Lawful

lemma subset_run (hJ : J.Lawful) (h : k ∈ J.journal s) : k ∈ J.journal (J.run o s) := by
  by_cases hpost : ∃ ks, J.Posts o s ks
  · obtain ⟨ks, hpost⟩ := hpost
    rw [hJ.posts hpost]
    exact mem_append_left ks h
  · rwa [hJ.keeps (not_exists.mp hpost)]

/-- The journal only grows. -/
lemma subset_after (hJ : J.Lawful) (h : k ∈ J.journal s) : k ∈ J.journal (J.after ops s) := by
  induction ops generalizing s with
  | nil => exact h
  | cons o ops ih => exact ih (hJ.subset_run h)

/-- The journal holds the keys of what was posted. -/
lemma mem_journal_of_postedIn (hJ : J.Lawful) (h : J.PostedIn ops s o)
    (hks : J.keys o (J.after ops' s) = some ks) (hk : k ∈ ks) :
    k ∈ J.journal (J.after ops s) := by
  obtain ⟨before, later, ks₀, rfl, hpost⟩ := h
  have heq : ks₀ = ks := hJ.stable hpost.1 hks
  rw [after_append]
  show k ∈ J.journal (J.after later _)
  refine hJ.subset_after ?_
  rw [hJ.posts hpost]
  exact mem_append_right _ (heq ▸ hk)

/-- Every key that was not there at first is one of a posted operation. -/
lemma postedIn_of_mem_journal (hJ : J.Lawful) (h : k ∈ J.journal (J.after ops s))
    (hnew : k ∉ J.journal s) :
    ∃ before o later ks, ops = before ++ o :: later ∧ J.Posts o (J.after before s) ks ∧ k ∈ ks := by
  induction ops generalizing s with
  | nil => exact absurd h hnew
  | cons o ops ih =>
    by_cases hfirst : k ∈ J.journal (J.run o s)
    · by_cases hpost : ∃ ks, J.Posts o s ks
      · obtain ⟨ks, hpost⟩ := hpost
        rw [hJ.posts hpost] at hfirst
        exact ⟨[], o, ops, ks, rfl, hpost, (mem_append.mp hfirst).resolve_left hnew⟩
      · rw [hJ.keeps (not_exists.mp hpost)] at hfirst
        exact absurd hfirst hnew
    · obtain ⟨before, o', later, ks, rfl, hpost, hk⟩ := ih h hfirst
      exact ⟨o :: before, o', later, ks, rfl, hpost, hk⟩

/-- Two posted operations have no key in common. -/
lemma eq_of_postedIn (hJ : J.Lawful) (ho : J.PostedIn ops s o) (ho' : J.PostedIn ops s o')
    (hks : J.keys o (J.after before s) = some ks) (hks' : J.keys o' (J.after later s) = some ks')
    (hk : k ∈ ks) (hk' : k ∈ ks') : o = o' := by
  obtain ⟨first, rest, ks₁, rfl, hpost⟩ := ho
  obtain ⟨first', rest', ks₂, heq, hpost'⟩ := ho'
  have h₁ : ks₁ = ks := hJ.stable hpost.1 hks
  have h₂ : ks₂ = ks' := hJ.stable hpost'.1 hks'
  subst h₁ h₂
  -- whichever was posted later found the common key in the journal
  rcases append_eq_append_iff.mp heq with ⟨c, hfirst, hc⟩ | ⟨c, hfirst, hc⟩
  · cases c with
    | nil =>
      rw [nil_append, cons.injEq] at hc
      exact hc.1
    | cons x c =>
      rw [cons_append, cons.injEq] at hc
      obtain ⟨rfl, rfl⟩ := hc
      subst hfirst
      have hposted : J.PostedIn (first ++ o :: c) s o := ⟨first, c, ks₁, rfl, hpost⟩
      exact absurd (hJ.mem_journal_of_postedIn hposted hpost.1 hk) (hpost'.2.1 k hk')
  · cases c with
    | nil =>
      rw [nil_append, cons.injEq] at hc
      exact hc.1.symm
    | cons x c =>
      rw [cons_append, cons.injEq] at hc
      obtain ⟨rfl, rfl⟩ := hc
      subst hfirst
      have hposted : J.PostedIn (first' ++ o' :: c) s o' := ⟨first', c, ks₂, rfl, hpost'⟩
      exact absurd (hJ.mem_journal_of_postedIn hposted hpost'.1 hk') (hpost.2.1 k hk)

/-- From an empty journal, the guard is exact when different operations of the run have no key in
common, and only then. -/
theorem exact_iff (hJ : J.Lawful) (hempty : J.journal s = []) : J.Exact ops s ↔ J.Apart ops s := by
  constructor
  · rintro h before o between o' later ks ks' rfl hks hnodup hks' ⟨k, hk, hk'⟩
    have hsplit : before ++ o :: between ++ o' :: later = before ++ o :: (between ++ o' :: later) := by
      simp
    have hfirst : J.PostedIn (before ++ [o]) s o := by
      by_cases hsup : J.Suppressed o (J.after before s)
      · exact (h before o _ hsplit hsup).append [o]
      · refine Posts.postedIn ⟨hks, fun k hk hin => hsup ⟨ks, hks, k, hk, hin⟩, hnodup⟩
    have ho : J.PostedIn (before ++ o :: between) s o := by
      rw [← singleton_append, ← append_assoc]
      exact hfirst.append between
    have hsup : J.Suppressed o' (J.after (before ++ o :: between) s) :=
      ⟨ks', hks', k, hk', hJ.mem_journal_of_postedIn ho hks hk⟩
    exact hJ.eq_of_postedIn ho (h _ o' later rfl hsup) hks hks' hk hk'
  · rintro h before o' later rfl ⟨ks', hks', k, hk', hin⟩
    obtain ⟨first, o, rest, ks, rfl, hpost, hk⟩ :=
      hJ.postedIn_of_mem_journal hin (by simp [hempty])
    obtain rfl := h first o rest o' later ks ks' rfl hpost.1 hpost.2.2 hks' ⟨k, hk, hk'⟩
    exact ⟨first, rest, ks, rfl, hpost⟩

end Lawful

end JournalSystem
