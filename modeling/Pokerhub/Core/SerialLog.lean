import Pokerhub.Core.Service

/-!
# Logs of serial runs

When the requests of a service are served one after another, each request starts from what the ones
before it have left. What a program makes of the state, given what the requests before it have
answered, then holds for the log of all answers (`Service.serial_log`). The environment may change
what is not in view.
-/

namespace Service

open List Program

variable {C : Type} {R : C → Type} {ε α σ ρ τ : Type}

/-- The requests that have come to their end, with their outcomes. -/
def outcomes (threads : List (ρ × Program R ε α)) : List (ρ × Except ε α) :=
  threads.filterMap fun t => t.2.outcome.map (Prod.mk t.1)

/-- The rules for the program of `r`, which sees the view change by its own commands only. -/
def viewed (S : Service R ε α σ ρ) (view : σ → τ) (r : ρ) : Protocol R σ Unit τ where
  exec := S.exec r
  inv s _ v := view s = v
  allowed _ _ := True
  fails := S.fails

variable {S : Service R ε α σ ρ} {view : σ → τ} {I : τ → List (ρ × Except ε α) → Prop}

variable (S view I) in
/-- All requests but the last have come to their end, and the last will do so as it should. -/
def Logged (P : Pool R ε α σ ρ) : Prop :=
  P.threads = [] ∧ I (view P.state) [] ∨
    ∃ ts r p, P.threads = ts ++ [(r, p)] ∧ (∀ t ∈ ts, t.2.Done) ∧
      p.wp (S.viewed view r) (fun o v => I v (outcomes ts ++ [(r, o)])) (view P.state)

/-- The log, when all have come to their end. -/
lemma Logged.of_done {P : Pool R ε α σ ρ} (h : S.Logged view I P)
    (hdone : ∀ t ∈ P.threads, t.2.Done) : I (view P.state) (outcomes P.threads) := by
  rcases h with ⟨hnil, hI⟩ | ⟨ts, r, p, hthreads, -, hwp⟩
  · rw [hnil]
    exact hI
  · have hp : p.Done := hdone (r, p) (by simp [hthreads])
    obtain ⟨o, ho⟩ := Option.isSome_iff_exists.mp hp
    have hlog : outcomes P.threads = outcomes ts ++ [(r, o)] := by
      rw [hthreads, outcomes, filterMap_append]
      simp [outcomes, ho]
    rw [hlog]
    exact wp_outcome hwp ho

private lemma last_of_not_done {ts ts₁ ts₂ : List (ρ × Program R ε α)}
    {t u : ρ × Program R ε α} (h : ts₁ ++ t :: ts₂ = ts ++ [u]) (hts : ∀ v ∈ ts, v.2.Done)
    (ht : ¬ t.2.Done) : ts₁ = ts ∧ t = u ∧ ts₂ = [] := by
  rcases eq_nil_or_concat ts₂ with rfl | ⟨ts₂', v, rfl⟩
  · obtain ⟨rfl, heq⟩ := append_inj' h rfl
    exact ⟨rfl, (cons.inj heq).1, rfl⟩
  · rw [concat_eq_append, ← cons_append, ← append_assoc] at h
    obtain ⟨rfl, -⟩ := append_inj' h rfl
    exact absurd (hts t (mem_append_right _ mem_cons_self)) ht

/-- A command of the request that is under way, or its failure. -/
private lemma Logged.next {s s' : σ} {ts₁ ts₂ : List (ρ × Program R ε α)} {r : ρ} {c : C}
    {next : Option (R c) → Program R ε α} {a : Option (R c)}
    (h : S.Logged view I ⟨s, ts₁ ++ (r, .call c next) :: ts₂⟩)
    (hnext : ∀ {Q : Except ε α → τ → Prop},
      (call c next).wp (S.viewed view r) Q (view s) →
        (next a).wp (S.viewed view r) Q (view s')) :
    S.Logged view I ⟨s', ts₁ ++ (r, next a) :: ts₂⟩ := by
  rcases h with ⟨hnil, -⟩ | ⟨ts, r', p, hthreads, hts, hwp⟩
  · exact absurd hnil (by simp)
  · obtain ⟨rfl, heq, rfl⟩ := last_of_not_done hthreads hts (not_done_call _ _)
    obtain ⟨rfl, rfl⟩ := Prod.mk.inj heq
    exact Or.inr ⟨_, _, _, rfl, hts, hnext hwp⟩

/-- What each request, from what the ones before it have left and answered, adds to the log holds
of the whole log. -/
theorem serial_log (hinit : ∀ s, S.init s → I (view s) [])
    (hbody : ∀ s log r, I (view s) log → S.ready s r →
      (S.body r).wp (S.viewed view r) (fun o v => I v (log ++ [(r, o)])) (view s))
    (henv : ∀ s s', S.env s s' → view s' = view s) {P : Pool R ε α σ ρ}
    (h : S.serial.Reachable P) (hdone : ∀ t ∈ P.threads, t.2.Done) :
    I (view P.state) (outcomes P.threads) := by
  have hlogged : S.Logged view I P := by
    refine h.invariant ?_ ?_
    · rintro ⟨s, ts⟩ ⟨hs, rfl⟩
      exact Or.inl ⟨rfl, hinit s hs⟩
    · rintro _ _ _ hlogged ⟨hserial, hstep⟩
      cases hstep with
      | start hready =>
        exact Or.inr ⟨_, _, _, rfl, hserial, hbody _ _ _ (hlogged.of_done hserial) hready⟩
      | call =>
        refine hlogged.next fun hwp => ?_
        obtain ⟨v, rfl, hnext⟩ := (hwp _ () rfl).1 trivial
        exact hnext
      | fault hfails =>
        refine hlogged.next fun hwp => ?_
        obtain ⟨v, rfl, hnext⟩ := (hwp _ () rfl).2 hfails
        exact hnext
      | env henv' =>
        unfold Logged at hlogged ⊢
        rw [henv _ _ henv']
        exact hlogged
  exact hlogged.of_done hdone

end Service
