import Pokerhub.Core.Stages

/-!
# Programs side by side

A program waits for several others at once: each of them is run, and if one fails, so does the
whole, but only when all have come to their end (`Program.both`, `Program.promiseAll`).
-/

namespace Program

open List

variable {C : Type} {R : C → Type} {ε α β γ L : Type} {D : Discipline R L} {l : L}

/-- `Promise.all` of two programs. -/
def both (p : Program R ε α) (q : Program R ε β) : Program R ε (α × β) := do
  let a ← p.attempt
  let b ← q.attempt
  let a ← resume a
  let b ← resume b
  return (a, b)

/-- The outcomes of `f`, one after another. -/
def settleAll (f : γ → Program R ε α) : List γ → Program R ε (List (Except ε α))
  | [] => ret []
  | x :: xs => do
    let a ← (f x).attempt
    let as ← settleAll f xs
    return a :: as

/-- The values, or the first error. -/
def collect : List (Except ε α) → Except ε (List α)
  | [] => .ok []
  | .error e :: _ => .error e
  | .ok a :: rs => (collect rs).map (a :: ·)

/-- `Promise.all(xs.map(f))`. -/
def promiseAll (f : γ → Program R ε α) (xs : List γ) : Program R ε (List α) := do
  resume (collect (← settleAll f xs))

/-- The rule for two programs. -/
lemma follows_both {p : Program R ε α} {q : Program R ε β} {Q : Except ε (α × β) → L → Prop}
    (h : p.Follows D (fun a l => q.Follows D (fun b l =>
      (∀ x y, a = .ok x → b = .ok y → Q (.ok (x, y)) l) ∧ ∀ e, Q (.error e) l) l) l) :
    (both p q).Follows D Q l := by
  refine follows_bind (follows_attempt (h.mono fun a l hq => ?_))
  refine follows_bind (follows_attempt (hq.mono fun b l hab => ?_))
  cases a with
  | error e => exact hab.2 e
  | ok x =>
    cases b with
    | error e => exact hab.2 e
    | ok y => exact hab.1 x y rfl rfl

/-- The rule for two programs, when nothing is asked of a failure. -/
lemma follows_both_of_error {p : Program R ε α} {q : Program R ε β}
    {Q : Except ε (α × β) → L → Prop} (hfail : ∀ e l, Q (.error e) l)
    (h : p.Follows D (fun a l => q.Follows D (fun b l =>
      ∀ x y, a = .ok x → b = .ok y → Q (.ok (x, y)) l) l) l) :
    (both p q).Follows D Q l :=
  follows_both (h.mono fun _ _ hq => hq.mono fun _ l hab => ⟨hab, fun e => hfail e l⟩)

/-- The values belong to the outcomes. -/
lemma forall₂_of_collect {T : γ → α → Prop} {xs : List γ} {rs : List (Except ε α)} {as : List α}
    (h : Forall₂ (fun x r => ∀ a, r = .ok a → T x a) xs rs) (has : collect rs = .ok as) :
    Forall₂ T xs as := by
  induction h generalizing as with
  | nil =>
    obtain rfl : [] = as := Except.ok.inj has
    exact .nil
  | @cons x r xs rs hx _ ih =>
    cases r with
    | error e => cases has
    | ok a =>
      simp only [collect] at has
      cases hrs : collect rs with
      | error e =>
        rw [hrs] at has
        cases has
      | ok as' =>
        rw [hrs] at has
        obtain rfl : a :: as' = as := Except.ok.inj has
        exact .cons (hx a rfl) (ih hrs)

/-- The rule for a list of programs: each keeps `I`, what it finds out is `T`, and what was found
out before stays so. -/
lemma follows_promiseAll {I : L → Prop} {T : γ → α → L → Prop} {f : γ → Program R ε α}
    {Q : Except ε (List α) → L → Prop} {xs : List γ}
    (hf : ∀ x ∈ xs, ∀ l, I l → (f x).Follows D (fun r l' =>
      I l' ∧ (∀ a, r = .ok a → T x a l') ∧ ∀ y b, T y b l → T y b l') l)
    (hQ : ∀ l, I l → (∀ as, Forall₂ (fun x a => T x a l) xs as → Q (.ok as) l) ∧
      ∀ e, Q (.error e) l)
    (hI : I l) : (promiseAll f xs).Follows D Q l := by
  have hsettle : (settleAll f xs).Follows D (fun r l' => I l' ∧ (∀ y b, T y b l → T y b l') ∧
      ∀ rs, r = .ok rs → Forall₂ (fun x r => ∀ a, r = .ok a → T x a l') xs rs) l := by
    clear hQ
    induction xs generalizing l with
    | nil =>
      refine ⟨hI, fun _ _ h => h, fun rs hrs => ?_⟩
      obtain rfl : [] = rs := Except.ok.inj hrs
      exact .nil
    | cons x xs ih =>
      refine follows_bind (follows_attempt ((hf x mem_cons_self l hI).mono ?_))
      rintro r l₁ ⟨hI₁, hx, hkeep₁⟩
      refine follows_bind ((ih (fun y hy => hf y (mem_cons_of_mem _ hy)) hI₁).mono ?_)
      rintro (e | rs) l₂ ⟨hI₂, hkeep₂, hrs⟩
      · exact ⟨hI₂, fun y b hy => hkeep₂ y b (hkeep₁ y b hy), fun rs h => by cases h⟩
      · refine ⟨hI₂, fun y b hy => hkeep₂ y b (hkeep₁ y b hy), fun rs' h => ?_⟩
        obtain rfl : r :: rs = rs' := Except.ok.inj h
        exact .cons (fun a ha => hkeep₂ x a (hx a ha)) (hrs rs rfl)
  refine follows_bind (hsettle.mono ?_)
  rintro (e | rs) l' ⟨hI', -, hrs⟩
  · exact (hQ l' hI').2 e
  · refine follows_resume ?_
    cases hcollect : collect rs with
    | error e => exact (hQ l' hI').2 e
    | ok as => exact (hQ l' hI').1 as (forall₂_of_collect (hrs rs rfl) hcollect)

lemma exists_of_collect_error {rs : List (Except ε α)} {e : ε} (h : collect rs = .error e) :
    .error e ∈ rs := by
  induction rs with
  | nil => cases h
  | cons r rs ih =>
    cases r with
    | error e' =>
      obtain rfl : e' = e := Except.error.inj h
      exact mem_cons_self
    | ok a =>
      simp only [collect] at h
      cases hrs : collect rs with
      | error e' =>
        rw [hrs] at h
        obtain rfl : e' = e := Except.error.inj h
        exact mem_cons_of_mem _ (ih hrs)
      | ok as =>
        rw [hrs] at h
        cases h

/-- The rule for a list of programs each of which keeps `I` and throws an `E` if it throws. -/
lemma wp_promiseAll {σ Γ : Type} {P : Protocol R σ Γ L} {I : L → Prop} {E : ε → Prop}
    {f : γ → Program R ε α} {Q : Except ε (List α) → L → Prop} {xs : List γ}
    (hf : ∀ x ∈ xs, ∀ l, I l → (f x).wp P (fun r l' => I l' ∧ ∀ e, r = .error e → E e) l)
    (hQ : ∀ l, I l → (∀ as, Q (.ok as) l) ∧ ∀ e, E e → Q (.error e) l) (hI : I l) :
    (promiseAll f xs).wp P Q l := by
  have hsettle : (settleAll f xs).wp P (fun r l' => I l' ∧
      ∃ rs, r = .ok rs ∧ ∀ e, .error e ∈ rs → E e) l := by
    clear hQ
    induction xs generalizing l with
    | nil => exact ⟨hI, [], rfl, fun e he => absurd he not_mem_nil⟩
    | cons x xs ih =>
      refine wp_bind (wp_attempt (wp_mono (hf x mem_cons_self l hI) ?_))
      rintro r l₁ ⟨hI₁, hr⟩
      refine wp_bind (wp_mono (ih (fun y hy => hf y (mem_cons_of_mem x hy)) hI₁) ?_)
      rintro _ l₂ ⟨hI₂, rs, rfl, hrs⟩
      refine ⟨hI₂, r :: rs, rfl, fun e he => ?_⟩
      rcases mem_cons.mp he with he | he
      · exact hr e he.symm
      · exact hrs e he
  refine wp_bind (wp_mono hsettle ?_)
  rintro _ l' ⟨hI', rs, rfl, hrs⟩
  refine wp_resume ?_
  cases hcollect : collect rs with
  | error e => exact (hQ l' hI').2 e (hrs e (exists_of_collect_error hcollect))
  | ok as => exact (hQ l' hI').1 as

lemma uses_promiseAll {P : C → Prop} {f : γ → Program R ε α} {xs : List γ}
    (hf : ∀ x ∈ xs, (f x).Uses P) : (promiseAll f xs).Uses P := by
  have hsettle : (settleAll f xs).Uses P := by
    induction xs with
    | nil => trivial
    | cons x xs ih =>
      refine (hf x mem_cons_self).attempt.bind fun a => ?_
      exact (ih fun y hy => hf y (mem_cons_of_mem x hy)).bind fun as => trivial
  exact hsettle.bind fun rs => uses_resume _

end Program
