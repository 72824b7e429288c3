import Mathlib.Logic.Basic

/-!
# Programs over commands

A program calls the commands of an interface and goes on with what they answer; a command that
fails answers nothing. Programs are run against a state from their first command to their last
(`Program.run`), or verified command by command against a protocol (`Program.wp`): before each
command the state meets an invariant, in which the program has a record of its own, and after the
command it has to meet it again. What others do between two commands is in the invariant only, so
the same rules serve a program that runs alone and one that runs among others.
-/

/-- A program over commands `C` with answers `R`. It returns an `α` or throws an `ε`. -/
inductive Program {C : Type} (R : C → Type) (ε α : Type) : Type where
  | ret (a : α)
  | raise (e : ε)
  | call (c : C) (next : Option (R c) → Program R ε α)

namespace Program

variable {C : Type} {R : C → Type} {ε α β : Type}

def bind : Program R ε α → (α → Program R ε β) → Program R ε β
  | ret a, f => f a
  | raise e, _ => raise e
  | call c next, f => call c fun r => (next r).bind f

instance : Monad (Program R ε) where
  pure := ret
  bind := bind

/-- The outcome of a program, as a value. -/
def attempt : Program R ε α → Program R ε (Except ε α)
  | ret a => ret (.ok a)
  | raise e => ret (.error e)
  | call c next => call c fun r => (next r).attempt

/-- Goes on with an outcome. -/
def resume : Except ε α → Program R ε α
  | .ok a => ret a
  | .error e => raise e

/-- `catch`. -/
def handle (p : Program R ε α) (h : ε → Program R ε α) : Program R ε α :=
  p.attempt >>= fun
    | .ok a => ret a
    | .error e => h e

/-- `finally`. -/
def ensure (p : Program R ε α) (last : Program R ε Unit) : Program R ε α :=
  p.attempt >>= fun r => last >>= fun _ => resume r

/-- `for (const x of xs)`. -/
def forEach {γ : Type} (f : γ → Program R ε Unit) : List γ → Program R ε Unit
  | [] => ret ()
  | x :: xs => f x >>= fun _ => forEach f xs

instance : MonadExcept ε (Program R ε) where
  throw := raise
  tryCatch := handle

/-- One command; if it fails, the program throws `failed`. -/
def command (failed : ε) (c : C) : Program R ε (R c) :=
  call c fun
    | some r => ret r
    | none => raise failed

/-- The outcome of a program that has come to its end. -/
def outcome : Program R ε α → Option (Except ε α)
  | ret a => some (.ok a)
  | raise e => some (.error e)
  | call _ _ => none

/-- The program has come to its end. -/
def Done (p : Program R ε α) : Prop :=
  p.outcome.isSome

lemma bind_eq (p : Program R ε α) (f : α → Program R ε β) : p >>= f = p.bind f := rfl

@[simp] lemma pure_eq (a : α) : (pure a : Program R ε α) = ret a := rfl

@[simp] lemma throw_eq (e : ε) : (throw e : Program R ε α) = raise e := rfl

@[simp] lemma ret_bind (a : α) (f : α → Program R ε β) : (ret a : Program R ε α) >>= f = f a := rfl

@[simp] lemma raise_bind (e : ε) (f : α → Program R ε β) :
    (raise e : Program R ε α) >>= f = raise e := rfl

@[simp] lemma outcome_ret (a : α) : (ret a : Program R ε α).outcome = some (.ok a) := rfl

@[simp] lemma outcome_raise (e : ε) : (raise e : Program R ε α).outcome = some (.error e) := rfl

lemma not_done_call (c : C) (next : Option (R c) → Program R ε α) : ¬ (call c next).Done := by
  simp [Done, outcome]

/-! ### Running -/

section Run

variable {σ : Type} (exec : (c : C) → σ → R c × σ)

/-- The run in which no command fails. -/
def run : Program R ε α → σ → Except ε α × σ
  | ret a, s => (.ok a, s)
  | raise e, s => (.error e, s)
  | call c next, s => (next (some (exec c s).1)).run (exec c s).2

@[simp] lemma run_ret (a : α) (s : σ) : (ret a : Program R ε α).run exec s = (.ok a, s) := rfl

@[simp] lemma run_raise (e : ε) (s : σ) :
    (raise e : Program R ε α).run exec s = (.error e, s) := rfl

@[simp] lemma run_command (failed : ε) (c : C) (s : σ) :
    (command failed c).run exec s = (.ok (exec c s).1, (exec c s).2) := rfl

@[simp] lemma run_bind (p : Program R ε α) (f : α → Program R ε β) (s : σ) :
    (p >>= f).run exec s =
      match p.run exec s with
      | (.ok a, s') => (f a).run exec s'
      | (.error e, s') => (.error e, s') := by
  induction p generalizing s with
  | ret a => rfl
  | raise e => rfl
  | call c next ih => exact ih (some (exec c s).1) (exec c s).2

@[simp] lemma run_attempt (p : Program R ε α) (s : σ) :
    p.attempt.run exec s = (.ok (p.run exec s).1, (p.run exec s).2) := by
  induction p generalizing s with
  | ret a => rfl
  | raise e => rfl
  | call c next ih => exact ih (some (exec c s).1) (exec c s).2

@[simp] lemma run_resume (r : Except ε α) (s : σ) :
    (resume r : Program R ε α).run exec s = (r, s) := by
  cases r <;> rfl

/-- The run in which the commands that meet `down` fail. -/
def runDown (down : C → Bool) : Program R ε α → σ → Except ε α × σ
  | ret a, s => (.ok a, s)
  | raise e, s => (.error e, s)
  | call c next, s =>
    if down c then (next none).runDown down s
    else (next (some (exec c s).1)).runDown down (exec c s).2

section Down

variable (down : C → Bool)

@[simp] lemma runDown_ret (a : α) (s : σ) :
    (ret a : Program R ε α).runDown exec down s = (.ok a, s) := rfl

@[simp] lemma runDown_raise (e : ε) (s : σ) :
    (raise e : Program R ε α).runDown exec down s = (.error e, s) := rfl

@[simp] lemma runDown_command (failed : ε) (c : C) (s : σ) :
    (command failed c).runDown exec down s =
      if down c then (.error failed, s) else (.ok (exec c s).1, (exec c s).2) := by
  simp only [command, runDown]

@[simp] lemma runDown_resume (r : Except ε α) (s : σ) :
    (resume r : Program R ε α).runDown exec down s = (r, s) := by
  cases r <;> rfl

@[simp] lemma runDown_bind (p : Program R ε α) (f : α → Program R ε β) (s : σ) :
    (p >>= f).runDown exec down s =
      match p.runDown exec down s with
      | (.ok a, s') => (f a).runDown exec down s'
      | (.error e, s') => (.error e, s') := by
  induction p generalizing s with
  | ret a => rfl
  | raise e => rfl
  | call c next ih =>
    rw [bind_eq, bind, runDown, runDown]
    split
    · exact ih none s
    · exact ih (some (exec c s).1) (exec c s).2

@[simp] lemma runDown_handle (p : Program R ε α) (h : ε → Program R ε α) (s : σ) :
    (p.handle h).runDown exec down s =
      match p.runDown exec down s with
      | (.ok a, s') => (.ok a, s')
      | (.error e, s') => (h e).runDown exec down s' := by
  induction p generalizing s with
  | ret a => rfl
  | raise e => rfl
  | call c next ih =>
    simp only [handle, attempt, bind_eq, bind, runDown]
    split
    · exact ih none s
    · exact ih (some (exec c s).1) (exec c s).2

end Down

end Run

/-! ### Keeping an invariant -/

section Keeps

variable {σ : Type} (exec : (c : C) → σ → R c × σ) (I : σ → Prop)

/-- The run in which no command fails keeps `I` from its start to its end. -/
def Keeps (p : Program R ε α) : Prop :=
  ∀ s, I s → I (p.run exec s).2

variable {exec I}

lemma keeps_ret (a : α) : (ret a : Program R ε α).Keeps exec I := fun _ h => h

lemma keeps_raise (e : ε) : (raise e : Program R ε α).Keeps exec I := fun _ h => h

lemma keeps_command {failed : ε} {c : C} (h : ∀ s, I s → I (exec c s).2) :
    (command failed c).Keeps exec I := h

/-- A program that keeps `I`, and a program that leads from `I` to `J`. -/
lemma Keeps.bind_into {J : σ → Prop} {p : Program R ε α} {f : α → Program R ε β}
    (hp : p.Keeps exec I) (hIJ : ∀ s, I s → J s)
    (hf : ∀ a s, I s → J ((f a).run exec s).2) {s : σ} (h : I s) : J ((p >>= f).run exec s).2 := by
  have hs := hp s h
  rw [run_bind]
  generalize p.run exec s = r at hs ⊢
  obtain ⟨e | a, s'⟩ := r
  · exact hIJ s' hs
  · exact hf a s' hs

lemma Keeps.bind {p : Program R ε α} {f : α → Program R ε β} (hp : p.Keeps exec I)
    (hf : ∀ a, (f a).Keeps exec I) : (p >>= f).Keeps exec I :=
  fun _ => hp.bind_into (fun _ => id) hf

end Keeps

/-! ### The commands of a program -/

/-- Every command that the program can call meets `P`. -/
def Uses (P : C → Prop) : Program R ε α → Prop
  | ret _ => True
  | raise _ => True
  | call c next => P c ∧ ∀ r, (next r).Uses P

section Uses

variable {P : C → Prop}

@[simp] lemma uses_ret (a : α) : (ret a : Program R ε α).Uses P := trivial

@[simp] lemma uses_raise (e : ε) : (raise e : Program R ε α).Uses P := trivial

lemma uses_of_forall (h : ∀ c, P c) (p : Program R ε α) : p.Uses P := by
  induction p with
  | ret a => trivial
  | raise e => trivial
  | call c next ih => exact ⟨h c, ih⟩

@[simp] lemma uses_command (failed : ε) (c : C) :
    (command failed c : Program R ε (R c)).Uses P ↔ P c := by
  refine ⟨And.left, fun h => ⟨h, fun r => ?_⟩⟩
  cases r <;> trivial

lemma Uses.bind {p : Program R ε α} {f : α → Program R ε β} (hp : p.Uses P)
    (hf : ∀ a, (f a).Uses P) : (p >>= f).Uses P := by
  induction p with
  | ret a => exact hf a
  | raise e => trivial
  | call c next ih => exact ⟨hp.1, fun r => ih r (hp.2 r)⟩

lemma Uses.attempt {p : Program R ε α} (hp : p.Uses P) : p.attempt.Uses P := by
  induction p with
  | ret a => trivial
  | raise e => trivial
  | call c next ih => exact ⟨hp.1, fun r => ih r (hp.2 r)⟩

lemma uses_resume (r : Except ε α) : (resume r : Program R ε α).Uses P := by
  cases r <;> trivial

lemma Uses.handle {p : Program R ε α} {h : ε → Program R ε α} (hp : p.Uses P)
    (hh : ∀ e, (h e).Uses P) : (p.handle h).Uses P := by
  refine hp.attempt.bind fun r => ?_
  cases r with
  | ok a => trivial
  | error e => exact hh e

lemma Uses.ensure {p : Program R ε α} {last : Program R ε Unit} (hp : p.Uses P)
    (hlast : last.Uses P) : (p.ensure last).Uses P :=
  hp.attempt.bind fun r => hlast.bind fun _ => uses_resume r

lemma uses_forEach {γ : Type} {xs : List γ} {f : γ → Program R ε Unit}
    (hf : ∀ x ∈ xs, (f x).Uses P) : (forEach f xs).Uses P := by
  induction xs with
  | nil => trivial
  | cons x xs ih =>
    exact (hf x List.mem_cons_self).bind fun _ => ih fun y hy => hf y (List.mem_cons_of_mem x hy)

/-- A program keeps what each of its commands keeps. -/
lemma Uses.keeps {σ : Type} {exec : (c : C) → σ → R c × σ} {I : σ → Prop} {p : Program R ε α}
    (hp : p.Uses P) (h : ∀ c s, P c → I s → I (exec c s).2) : p.Keeps exec I := by
  induction p with
  | ret a => exact keeps_ret a
  | raise e => exact keeps_raise e
  | call c next ih => exact fun s hs => ih _ (hp.2 _) _ (h c s hp.1 hs)

lemma Uses.mono {P' : C → Prop} {p : Program R ε α} (hp : p.Uses P) (h : ∀ c, P c → P' c) :
    p.Uses P' := by
  induction p with
  | ret a => trivial
  | raise e => trivial
  | call c next ih => exact ⟨h c hp.1, fun r => ih r (hp.2 r)⟩

end Uses

end Program

/-! ### Verifying -/

/-- The rules under which programs are verified: what the commands do, an invariant over the state,
the others `Γ` and the program's own record `L`, the steps that are allowed, and the commands that
may fail. -/
structure Protocol {C : Type} (R : C → Type) (σ Γ L : Type) where
  exec : (c : C) → σ → R c × σ
  inv : σ → Γ → L → Prop
  allowed : σ → C → Prop
  fails : σ → C → Prop

/-- The rules for a program that runs alone: its record is the state. -/
def Protocol.alone {C : Type} {R : C → Type} {σ : Type} (exec : (c : C) → σ → R c × σ)
    (fails : σ → C → Prop) (I : σ → Prop) : Protocol R σ Unit σ where
  exec := exec
  inv s _ l := s = l ∧ I s
  allowed _ _ := True
  fails := fails

namespace Program

variable {C : Type} {R : C → Type} {ε α β σ Γ L : Type} (P : Protocol R σ Γ L)

/-- The program keeps the invariant from any record `l` with which it is started, and ends in an
outcome and a record that meet `Q`. -/
def wp (Q : Except ε α → L → Prop) : Program R ε α → L → Prop
  | ret a, l => Q (.ok a) l
  | raise e, l => Q (.error e) l
  | call c next, l => ∀ s γ, P.inv s γ l →
      (P.allowed s c → ∃ l', P.inv (P.exec c s).2 γ l' ∧ (next (some (P.exec c s).1)).wp Q l') ∧
      (P.fails s c → ∃ l', P.inv s γ l' ∧ (next none).wp Q l')

variable {P} {Q Q' : Except ε α → L → Prop} {l : L}

@[simp] lemma wp_ret (a : α) : (ret a : Program R ε α).wp P Q l ↔ Q (.ok a) l := Iff.rfl

@[simp] lemma wp_raise (e : ε) : (raise e : Program R ε α).wp P Q l ↔ Q (.error e) l := Iff.rfl

/-- The rule for one command. -/
lemma wp_command {failed : ε} {c : C} {Q : Except ε (R c) → L → Prop}
    (h : ∀ s γ, P.inv s γ l →
      (P.allowed s c → ∃ l', P.inv (P.exec c s).2 γ l' ∧ Q (.ok (P.exec c s).1) l') ∧
      (P.fails s c → ∃ l', P.inv s γ l' ∧ Q (.error failed) l')) :
    (command failed c).wp P Q l := h

/-- The outcome and the record of a program that has come to its end meet `Q`. -/
lemma wp_outcome {p : Program R ε α} {r : Except ε α} (hp : p.wp P Q l) (h : p.outcome = some r) :
    Q r l := by
  cases p with
  | ret a => exact (Option.some.inj h) ▸ hp
  | raise e => exact (Option.some.inj h) ▸ hp
  | call c next => cases h

lemma wp_mono {p : Program R ε α} (hp : p.wp P Q l) (h : ∀ r l, Q r l → Q' r l) :
    p.wp P Q' l := by
  induction p generalizing l with
  | ret a => exact h _ _ hp
  | raise e => exact h _ _ hp
  | call c next ih =>
    intro s γ hinv
    obtain ⟨hcall, hfault⟩ := hp s γ hinv
    refine ⟨fun hallowed => ?_, fun hfails => ?_⟩
    · obtain ⟨l', hinv', hnext⟩ := hcall hallowed
      exact ⟨l', hinv', ih _ hnext⟩
    · obtain ⟨l', hinv', hnext⟩ := hfault hfails
      exact ⟨l', hinv', ih _ hnext⟩

/-- The rule for two programs in a row. -/
lemma wp_bind {p : Program R ε α} {f : α → Program R ε β} {Q : Except ε β → L → Prop}
    (h : p.wp P (fun
      | .ok a, l => (f a).wp P Q l
      | .error e, l => Q (.error e) l) l) :
    (p >>= f).wp P Q l := by
  induction p generalizing l with
  | ret a => exact h
  | raise e => exact h
  | call c next ih =>
    intro s γ hinv
    obtain ⟨hcall, hfault⟩ := h s γ hinv
    refine ⟨fun hallowed => ?_, fun hfails => ?_⟩
    · obtain ⟨l', hinv', hnext⟩ := hcall hallowed
      exact ⟨l', hinv', ih _ hnext⟩
    · obtain ⟨l', hinv', hnext⟩ := hfault hfails
      exact ⟨l', hinv', ih _ hnext⟩

lemma wp_attempt {p : Program R ε α} {Q : Except ε (Except ε α) → L → Prop}
    (h : p.wp P (fun r l => Q (.ok r) l) l) : p.attempt.wp P Q l := by
  induction p generalizing l with
  | ret a => exact h
  | raise e => exact h
  | call c next ih =>
    intro s γ hinv
    obtain ⟨hcall, hfault⟩ := h s γ hinv
    refine ⟨fun hallowed => ?_, fun hfails => ?_⟩
    · obtain ⟨l', hinv', hnext⟩ := hcall hallowed
      exact ⟨l', hinv', ih _ hnext⟩
    · obtain ⟨l', hinv', hnext⟩ := hfault hfails
      exact ⟨l', hinv', ih _ hnext⟩

lemma wp_resume {r : Except ε α} (h : Q r l) : (resume r : Program R ε α).wp P Q l := by
  cases r <;> exact h

/-- The rule for `catch`. -/
lemma wp_handle {p : Program R ε α} {handler : ε → Program R ε α}
    (h : p.wp P (fun
      | .ok a, l => Q (.ok a) l
      | .error e, l => (handler e).wp P Q l) l) :
    (p.handle handler).wp P Q l := by
  refine wp_bind (wp_attempt (wp_mono h ?_))
  rintro (e | a) l hr
  · exact hr
  · exact hr

/-- The rule for `finally`. -/
lemma wp_ensure {p : Program R ε α} {last : Program R ε Unit}
    (h : p.wp P (fun r l => last.wp P (fun
      | .ok _, l => Q r l
      | .error e, l => Q (.error e) l) l) l) :
    (p.ensure last).wp P Q l := by
  refine wp_bind (wp_attempt (wp_mono h ?_))
  intro r l hlast
  refine wp_bind (wp_mono hlast ?_)
  rintro (e | a) l hr
  · exact hr
  · exact wp_resume hr

/-- The rule for a loop. -/
lemma wp_forEach {γ : Type} {xs : List γ} {f : γ → Program R ε Unit} {I : L → Prop}
    {Q : Except ε Unit → L → Prop} (hI : I l) (hlast : ∀ l, I l → Q (.ok ()) l)
    (hf : ∀ x ∈ xs, ∀ l, I l → (f x).wp P (fun
      | .ok _, l => I l
      | .error e, l => Q (.error e) l) l) :
    (forEach f xs).wp P Q l := by
  induction xs generalizing l with
  | nil => exact hlast l hI
  | cons x xs ih =>
    refine wp_bind (wp_mono (hf x List.mem_cons_self l hI) ?_)
    rintro (e | a) l hr
    · exact hr
    · exact ih hr fun y hy => hf y (List.mem_cons_of_mem x hy)

/-- The frame rule: a program whose commands all keep the invariant for the records in `F` keeps
it. -/
lemma wp_of_uses {K : C → Prop} {F : L → Prop} {p : Program R ε α} (huses : p.Uses K)
    (hcall : ∀ c s γ l, K c → F l → P.inv s γ l → P.allowed s c →
      ∃ l', F l' ∧ P.inv (P.exec c s).2 γ l')
    (hQ : ∀ r l, F l → Q r l) (hl : F l) : p.wp P Q l := by
  induction p generalizing l with
  | ret a => exact hQ _ l hl
  | raise e => exact hQ _ l hl
  | call c next ih =>
    intro s γ hinv
    refine ⟨fun hallowed => ?_, fun _ => ⟨l, hinv, ih _ (huses.2 _) hl⟩⟩
    obtain ⟨l', hl', hinv'⟩ := hcall c s γ l huses.1 hl hinv hallowed
    exact ⟨l', hinv', ih _ (huses.2 _) hl'⟩

end Program
