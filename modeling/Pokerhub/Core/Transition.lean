import Mathlib.Logic.Relation

/-!
# Transition systems

States, labelled steps, and the runs they generate. A safety property of a system is an
invariant: it holds in every initial state and every step preserves it
(`TransitionSystem.Reachable.invariant`). A system can be restricted to the runs all of whose
steps meet a condition on the state before the step and on its label.
-/

/-- A transition system with states `σ` and labels `ℓ`. -/
structure TransitionSystem (σ ℓ : Type*) where
  /-- The states a run may start in. -/
  init : σ → Prop
  /-- The labelled steps a run may take. -/
  step : σ → ℓ → σ → Prop

namespace TransitionSystem

variable {σ ℓ : Type*} {T : TransitionSystem σ ℓ}

/-- One step, whatever its label. -/
def Moves (T : TransitionSystem σ ℓ) (s s' : σ) : Prop :=
  ∃ a, T.step s a s'

/-- The states that some run reaches. -/
def Reachable (T : TransitionSystem σ ℓ) (s : σ) : Prop :=
  ∃ s₀, T.init s₀ ∧ Relation.ReflTransGen T.Moves s₀ s

/-- The runs all of whose steps meet `ok`. -/
def restrict (T : TransitionSystem σ ℓ) (ok : σ → ℓ → Prop) : TransitionSystem σ ℓ where
  init := T.init
  step s a s' := ok s a ∧ T.step s a s'

lemma Reachable.of_init {s : σ} (h : T.init s) : T.Reachable s :=
  ⟨s, h, .refl⟩

lemma Reachable.tail {s s' : σ} {a : ℓ} (h : T.Reachable s) (hs : T.step s a s') :
    T.Reachable s' := by
  obtain ⟨s₀, h₀, hr⟩ := h
  exact ⟨s₀, h₀, hr.tail ⟨a, hs⟩⟩

/-- An initially true property that every step preserves holds along every run. -/
theorem Reachable.invariant {I : σ → Prop} (hinit : ∀ s, T.init s → I s)
    (hstep : ∀ s a s', I s → T.step s a s' → I s') {s : σ} (h : T.Reachable s) : I s := by
  obtain ⟨s₀, h₀, hr⟩ := h
  induction hr with
  | refl => exact hinit s₀ h₀
  | tail _ hm ih =>
    obtain ⟨a, hs⟩ := hm
    exact hstep _ a _ ih hs

/-- A property that holds now and that every step preserves holds along every continuation. -/
theorem invariant_of_moves {I : σ → Prop}
    (hstep : ∀ s a s', I s → T.step s a s' → I s') {s s' : σ}
    (h : Relation.ReflTransGen T.Moves s s') (hs : I s) : I s' := by
  induction h with
  | refl => exact hs
  | tail _ hm ih =>
    obtain ⟨a, hs⟩ := hm
    exact hstep _ a _ ih hs

/-- The steps of a restricted run are steps. -/
lemma moves_of_restrict {ok : σ → ℓ → Prop} {s s' : σ}
    (h : Relation.ReflTransGen (T.restrict ok).Moves s s') : Relation.ReflTransGen T.Moves s s' :=
  h.lift id fun _ _ ⟨a, _, hs⟩ => ⟨a, hs⟩

/-- A restriction to stronger conditions. -/
lemma moves_restrict_mono {ok ok' : σ → ℓ → Prop} (hok : ∀ s a, ok s a → ok' s a) {s s' : σ}
    (h : Relation.ReflTransGen (T.restrict ok).Moves s s') :
    Relation.ReflTransGen (T.restrict ok').Moves s s' :=
  h.lift id fun _ _ ⟨a, h, hs⟩ => ⟨a, hok _ a h, hs⟩

/-- A restricted run is a run. -/
lemma Reachable.of_restrict {ok : σ → ℓ → Prop} {s : σ} (h : (T.restrict ok).Reachable s) :
    T.Reachable s :=
  h.invariant (fun _ h₀ => .of_init h₀) (fun _ _ _ hr hs => hr.tail hs.2)

/-- A condition that always holds excludes no run. -/
lemma Reachable.restrict_true {ok : σ → ℓ → Prop} (hok : ∀ s a, ok s a) {s : σ}
    (h : T.Reachable s) : (T.restrict ok).Reachable s :=
  h.invariant (fun _ h₀ => .of_init h₀) (fun s a _ hr hs => hr.tail (a := a) ⟨hok s a, hs⟩)

/-- An invariant of the unrestricted runs may be used while proving one of the restricted
runs. -/
theorem Reachable.restrict_invariant {ok : σ → ℓ → Prop} {I : σ → Prop}
    (hinit : ∀ s, T.init s → I s)
    (hstep : ∀ s a s', T.Reachable s → I s → ok s a → T.step s a s' → I s') {s : σ}
    (h : (T.restrict ok).Reachable s) : I s := by
  have hboth : T.Reachable s ∧ I s := by
    refine h.invariant (I := fun s => T.Reachable s ∧ I s) ?_ ?_
    · exact fun s h₀ => ⟨.of_init h₀, hinit s h₀⟩
    · rintro s a s' ⟨hr, hi⟩ ⟨hok, hs⟩
      exact ⟨hr.tail hs, hstep s a s' hr hi hok hs⟩
  exact hboth.2

/-! ### Runs of a step function -/

section Function

variable {step : σ → ℓ → σ} {ok : σ → ℓ → Prop}

/-- Every step from `s` along the labels meets `ok`. -/
def Along (step : σ → ℓ → σ) (ok : σ → ℓ → Prop) : σ → List ℓ → Prop
  | _, [] => True
  | s, a :: labels => ok s a ∧ Along step ok (step s a) labels

instance decidableAlong [∀ s a, Decidable (ok s a)] :
    (s : σ) → (labels : List ℓ) → Decidable (Along step ok s labels)
  | _, [] => isTrue trivial
  | s, a :: labels =>
    have := decidableAlong (step s a) labels
    inferInstanceAs (Decidable (ok s a ∧ Along step ok (step s a) labels))

lemma along_true (s : σ) (labels : List ℓ) : Along step (fun _ _ => True) s labels := by
  induction labels generalizing s with
  | nil => trivial
  | cons a labels ih => exact ⟨trivial, ih (step s a)⟩

lemma along_append {s : σ} {labels labels' : List ℓ} :
    Along step ok s (labels ++ labels') ↔
      Along step ok s labels ∧ Along step ok (labels.foldl step s) labels' := by
  induction labels generalizing s with
  | nil => simp [Along]
  | cons a labels ih => simp [Along, ih, and_assoc]

/-- Steps that meet a condition meet a weaker one. -/
lemma Along.mono {ok' : σ → ℓ → Prop} (hok : ∀ s a, ok s a → ok' s a) {s : σ} {labels : List ℓ}
    (h : Along step ok s labels) : Along step ok' s labels := by
  induction labels generalizing s with
  | nil => trivial
  | cons a labels ih => exact ⟨hok s a h.1, ih h.2⟩

/-- What a step function does is a run while its steps meet a guard. -/
lemma Reachable.foldl_of_guard {guard : σ → ℓ → Prop}
    (hstep : ∀ s a, guard s a → T.step s a (step s a)) {s : σ}
    (h : (T.restrict ok).Reachable s) {labels : List ℓ}
    (hok : Along step (fun s a => guard s a ∧ ok s a) s labels) :
    (T.restrict ok).Reachable (labels.foldl step s) := by
  induction labels generalizing s with
  | nil => exact h
  | cons a labels ih =>
    obtain ⟨⟨hguard, ha⟩, hok⟩ := hok
    exact ih (h.tail (a := a) ⟨ha, hstep s a hguard⟩) hok

/-- What a step function does along some labels is a run. -/
lemma Reachable.foldl (hstep : ∀ s a, T.step s a (step s a)) {s : σ}
    (h : (T.restrict ok).Reachable s) {labels : List ℓ} (hok : Along step ok s labels) :
    (T.restrict ok).Reachable (labels.foldl step s) := by
  have htrue : Along step (fun s a => True ∧ ok s a) s labels := hok.mono fun _ _ h => ⟨trivial, h⟩
  exact h.foldl_of_guard (fun s a _ => hstep s a) htrue

end Function

end TransitionSystem
