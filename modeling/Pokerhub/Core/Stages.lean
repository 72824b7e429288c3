import Pokerhub.Core.Service

/-!
# Programs in stages

A discipline says which commands a program may call at a stage, and at which stage the answer
brings it. Whether a program keeps to a discipline (`Program.Follows`) does not depend on any state,
so the stages of all that is under way can be read off a service at any time, and an invariant
between the shared state and the stages is proved command by command
(`Service.staged_invariant`).
-/

/-- The commands of a stage, and the stage after an answer; a command that failed answers `none`. -/
structure Discipline {C : Type} (R : C → Type) (L : Type) where
  allowed : L → C → Prop
  next : L → (c : C) → Option (R c) → L

namespace Program

variable {C : Type} {R : C → Type} {ε α β L : Type} {D : Discipline R L}

/-- The program keeps to the discipline from stage `l` on, and ends in an outcome and a stage that
meet `Q`. -/
def Follows (D : Discipline R L) (Q : Except ε α → L → Prop) : Program R ε α → L → Prop
  | ret a, l => Q (.ok a) l
  | raise e, l => Q (.error e) l
  | call c next, l => D.allowed l c ∧ ∀ a, (next a).Follows D Q (D.next l c a)

variable {Q Q' : Except ε α → L → Prop} {l : L}

@[simp] lemma follows_ret (a : α) : (ret a : Program R ε α).Follows D Q l ↔ Q (.ok a) l := Iff.rfl

@[simp] lemma follows_raise (e : ε) : (raise e : Program R ε α).Follows D Q l ↔ Q (.error e) l :=
  Iff.rfl

/-- The rule for one command. -/
lemma follows_command {failed : ε} {c : C} {Q : Except ε (R c) → L → Prop}
    (hallowed : D.allowed l c) (hok : ∀ a, Q (.ok a) (D.next l c (some a)))
    (hfail : Q (.error failed) (D.next l c none)) :
    (command failed c).Follows D Q l := by
  refine ⟨hallowed, ?_⟩
  rintro (_ | a)
  · exact hfail
  · exact hok a

lemma Follows.mono {p : Program R ε α} (hp : p.Follows D Q l) (h : ∀ r l, Q r l → Q' r l) :
    p.Follows D Q' l := by
  induction p generalizing l with
  | ret a => exact h _ _ hp
  | raise e => exact h _ _ hp
  | call c next ih => exact ⟨hp.1, fun a => ih a (hp.2 a)⟩

/-- The rule for two programs in a row. -/
lemma follows_bind {p : Program R ε α} {f : α → Program R ε β} {Q : Except ε β → L → Prop}
    (h : p.Follows D (fun
      | .ok a, l => (f a).Follows D Q l
      | .error e, l => Q (.error e) l) l) :
    (p >>= f).Follows D Q l := by
  induction p generalizing l with
  | ret a => exact h
  | raise e => exact h
  | call c next ih => exact ⟨h.1, fun a => ih a (h.2 a)⟩

/-- The rule for the outcome of a program, as a value. -/
lemma follows_attempt {p : Program R ε α} {Q : Except ε (Except ε α) → L → Prop}
    (h : p.Follows D (fun r => Q (.ok r)) l) : p.attempt.Follows D Q l := by
  induction p generalizing l with
  | ret a => exact h
  | raise e => exact h
  | call c next ih => exact ⟨h.1, fun a => ih a (h.2 a)⟩

lemma follows_resume {r : Except ε α} (h : Q r l) : (resume r : Program R ε α).Follows D Q l := by
  cases r <;> exact h

/-- The rule for `catch`. -/
lemma follows_handle {p : Program R ε α} {handler : ε → Program R ε α}
    (h : p.Follows D (fun
      | .ok a, l => Q (.ok a) l
      | .error e, l => (handler e).Follows D Q l) l) :
    (p.handle handler).Follows D Q l := by
  refine follows_bind (follows_attempt (h.mono ?_))
  rintro (e | a) l hr
  · exact hr
  · exact hr

/-- The rule for `finally`. -/
lemma follows_ensure {p : Program R ε α} {last : Program R ε Unit}
    (h : p.Follows D (fun r l => last.Follows D (fun
      | .ok _, l => Q r l
      | .error e, l => Q (.error e) l) l) l) :
    (p.ensure last).Follows D Q l := by
  refine follows_bind (follows_attempt (h.mono ?_))
  intro r l hlast
  refine follows_bind (hlast.mono ?_)
  rintro (e | a) l hr
  · exact hr
  · exact follows_resume hr

/-- A stage that allows every command and is never left. -/
lemma follows_of_absorbing (hallowed : ∀ c, D.allowed l c) (hnext : ∀ c a, D.next l c a = l)
    (hQ : ∀ r, Q r l) (p : Program R ε α) : p.Follows D Q l := by
  induction p with
  | ret a => exact hQ _
  | raise e => exact hQ _
  | call c next ih =>
    refine ⟨hallowed c, fun a => ?_⟩
    rw [hnext]
    exact ih a

/-- One command, and a program that goes on with its answer. -/
lemma follows_command_bind {failed : ε} {c : C} {f : R c → Program R ε α}
    (hallowed : D.allowed l c) (hok : ∀ a, (f a).Follows D Q (D.next l c (some a)))
    (hfail : Q (.error failed) (D.next l c none)) :
    (command failed c >>= f).Follows D Q l :=
  follows_bind (follows_command hallowed hok hfail)

/-- A program none of whose commands leaves the stage. -/
lemma follows_of_uses {K : C → Prop} {p : Program R ε α} (huses : p.Uses K)
    (hallowed : ∀ c, K c → D.allowed l c) (hnext : ∀ c a, K c → D.next l c a = l)
    (hQ : ∀ r, Q r l) : p.Follows D Q l := by
  induction p with
  | ret a => exact hQ _
  | raise e => exact hQ _
  | call c next ih =>
    refine ⟨hallowed c huses.1, fun a => ?_⟩
    rw [hnext c a huses.1]
    exact ih a (huses.2 a)

end Program

namespace Service

open List Program

variable {C : Type} {R : C → Type} {ε α σ ρ L : Type} {S : Service R ε α σ ρ}
  {D : Discipline R L} {Q : Except ε α → L → Prop}

/-- Each thread keeps to the discipline from its stage on. -/
def Staged (D : Discipline R L) (Q : Except ε α → L → Prop) :
    List (ρ × Program R ε α) → List (ρ × L) → Prop :=
  Forall₂ fun t rl => t.1 = rl.1 ∧ t.2.Follows D Q rl.2

/-- Two related lists have related elements at the same places. -/
lemma getElem?_related {A B : Type} {T : A → B → Prop} {xs : List A} {ys : List B}
    (h : Forall₂ T xs ys) (i : ℕ) :
    (xs[i]? = none ∧ ys[i]? = none) ∨ ∃ x y, xs[i]? = some x ∧ ys[i]? = some y ∧ T x y := by
  induction h generalizing i with
  | nil => exact Or.inl ⟨rfl, rfl⟩
  | cons hxy _ ih =>
    cases i with
    | zero => exact Or.inr ⟨_, _, rfl, rfl, hxy⟩
    | succ i => exact ih i

/-- How often something holds of the first of two related lists, if it shows in the second. -/
lemma countP_le_count {A B V : Type} [DecidableEq V] {T : A → B → Prop} {xs : List A} {ys : List B}
    {p : A → Bool} {f : B → Option V} {v : V} (h : Forall₂ T xs ys)
    (hp : ∀ x, ∀ y ∈ ys, T x y → p x → f y = some v) : xs.countP p ≤ (ys.filterMap f).count v := by
  induction h with
  | nil => exact Nat.le_refl _
  | @cons x y xs ys hxy _ ih =>
    have hrest := ih fun x y hy => hp x y (mem_cons_of_mem _ hy)
    by_cases hx : p x
    · rw [countP_cons_of_pos hx, filterMap_cons_some (hp x y mem_cons_self hxy hx), count_cons_self]
      exact Nat.succ_le_succ hrest
    · rw [countP_cons_of_neg hx]
      exact Nat.le_trans hrest (((sublist_cons_self y ys).filterMap f).count_le v)

section Invariant

variable {okPool : Pool R ε α σ ρ → Action ρ C → Prop}
  (ok : σ → List (ρ × L) → Action ρ C → Prop) {I : σ → List (ρ × L) → Prop} {first : ρ → L}
  (hbody : ∀ r, (S.body r).Follows D Q (first r))
  (hok : ∀ s ts ls a, okPool ⟨s, ts⟩ a → Staged D Q ts ls → ok s ls a)
  (hstart : ∀ s ls r, I s ls → S.ready s r → ok s ls (.start r) → I s (ls ++ [(r, first r)]))
  (hcall : ∀ s ls₁ ls₂ r l c, I s (ls₁ ++ (r, l) :: ls₂) → D.allowed l c →
    ok s (ls₁ ++ (r, l) :: ls₂) (.call r c) →
    I (S.exec r c s).2 (ls₁ ++ (r, D.next l c (some (S.exec r c s).1)) :: ls₂))
  (hfault : ∀ s ls₁ ls₂ r l c, I s (ls₁ ++ (r, l) :: ls₂) → D.allowed l c → S.fails s c →
    ok s (ls₁ ++ (r, l) :: ls₂) (.fault r c) → I s (ls₁ ++ (r, D.next l c none) :: ls₂))
  (henv : ∀ s s' ls, I s ls → S.env s s' → ok s ls .env → I s' ls)

include hbody hok hstart hcall hfault henv

/-- What every command keeps, given the stages of all that is under way, still holds after a run
whose steps meet a condition on the pool. -/
theorem staged_invariant_of_moves {P₀ P : Pool R ε α σ ρ}
    (h : Relation.ReflTransGen (S.system.restrict okPool).Moves P₀ P)
    (h₀ : ∃ ls, Staged D Q P₀.threads ls ∧ I P₀.state ls) :
    ∃ ls, Staged D Q P.threads ls ∧ I P.state ls := by
  refine TransitionSystem.invariant_of_moves
    (I := fun P => ∃ ls, Staged D Q P.threads ls ∧ I P.state ls) ?_ h h₀
  rintro _ _ _ ⟨ls, hts, hinv⟩ ⟨hpool, hstep⟩
  have hallowed := hok _ _ _ _ hpool hts
  cases hstep with
  | start hready =>
    exact ⟨_, rel_append hts (.cons ⟨rfl, hbody _⟩ .nil), hstart _ _ _ hinv hready hallowed⟩
  | call =>
    obtain ⟨ls₁, ⟨r, l⟩, ls₂, rfl, hts₁, ⟨rfl, hcalled, hnext⟩, hts₂⟩ := forall₂_middle hts
    exact ⟨_, rel_append hts₁ (.cons ⟨rfl, hnext _⟩ hts₂),
      hcall _ _ _ _ _ _ hinv hcalled hallowed⟩
  | fault hfails =>
    obtain ⟨ls₁, ⟨r, l⟩, ls₂, rfl, hts₁, ⟨rfl, hcalled, hnext⟩, hts₂⟩ := forall₂_middle hts
    exact ⟨_, rel_append hts₁ (.cons ⟨rfl, hnext _⟩ hts₂),
      hfault _ _ _ _ _ _ hinv hcalled hfails hallowed⟩
  | env henv' => exact ⟨ls, hts, henv _ _ _ hinv henv' hallowed⟩

/-- What every command keeps holds in every state of the runs. -/
theorem staged_invariant (hinit : ∀ s, S.init s → I s []) {P : Pool R ε α σ ρ}
    (h : (S.system.restrict okPool).Reachable P) :
    ∃ ls, Staged D Q P.threads ls ∧ I P.state ls := by
  obtain ⟨⟨s, ts⟩, ⟨hs, rfl⟩, hrun⟩ := h
  exact staged_invariant_of_moves ok hbody hok hstart hcall hfault henv hrun ⟨[], .nil, hinit s hs⟩

end Invariant

end Service
