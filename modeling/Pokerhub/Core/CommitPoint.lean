import Pokerhub.Core.Stages

/-!
# The point at which a program commits

A program is run while some of its commands fail. If it posts with one command at most, throws after
a failure behind that command and does not throw without one, then a run that throws has posted
nothing exactly when no command fails after the one that posts
(`Program.unchanged_of_raise_iff`). Failures that the program swallows do not count.
-/

namespace Program

open List

variable {C : Type} {R : C → Type} {ε α σ L : Type}

/-! ### Runs with failures -/

/-- The commands of a run with their answers; a command that failed has none. -/
abbrev Trace (R : C → Type) : Type := List (Σ c, Option (R c))

structure Run (R : C → Type) (ε α σ : Type) where
  outcome : Except ε α
  state : σ
  trace : Trace R

def Run.cons (x : Σ c, Option (R c)) (r : Run R ε α σ) : Run R ε α σ :=
  { r with trace := x :: r.trace }

section RunWith

variable (exec : (c : C) → σ → R c × σ)

/-- The run in which the commands at the given places fail; a command that fails has no effect. -/
def runWith : Program R ε α → (ℕ → Bool) → σ → Run R ε α σ
  | ret a, _, s => ⟨.ok a, s, []⟩
  | raise e, _, s => ⟨.error e, s, []⟩
  | call c next, fails, s =>
    if fails 0 then ((next none).runWith (fun n => fails (n + 1)) s).cons ⟨c, none⟩
    else ((next (some (exec c s).1)).runWith (fun n => fails (n + 1)) (exec c s).2).cons
      ⟨c, some (exec c s).1⟩

/-- The stage after a run. -/
def stageAfter (D : Discipline R L) (l : L) (trace : Trace R) : L :=
  trace.foldl (fun l x => D.next l x.1 x.2) l

variable {exec}

/-- A program that keeps to a discipline ends as it says, whatever fails. -/
lemma Follows.runWith {D : Discipline R L} {Q : Except ε α → L → Prop} {p : Program R ε α} {l : L}
    (h : p.Follows D Q l) (fails : ℕ → Bool) (s : σ) :
    Q (p.runWith exec fails s).outcome (stageAfter D l (p.runWith exec fails s).trace) := by
  induction p generalizing l fails s with
  | ret a => exact h
  | raise e => exact h
  | call c next ih =>
    unfold Program.runWith
    split_ifs
    · exact ih none (h.2 none) _ _
    · exact ih (some _) (h.2 _) _ _

end RunWith

/-! ### The commit point -/

inductive CommitStage where
  | looking
  | committed
  /-- Something has failed after the commit. -/
  | spoilt
  deriving DecidableEq

section Commit

variable (posts : (c : C) → R c → Bool) (swallowed : C → Bool)

/-- The answer says that the command has posted. -/
def Posted (x : Σ c, Option (R c)) : Bool :=
  x.2.any (posts x.1)

/-- A failure that the program does not swallow. -/
def CallFailed (x : Σ c, Option (R c)) : Bool :=
  x.2.isNone && !swallowed x.1

/-- A command fails after one that posts. -/
def FailsAfterCommit (trace : Trace R) : Prop :=
  ∃ before x after, trace = before ++ x :: after ∧ Posted posts x ∧ ∃ y ∈ after, CallFailed swallowed y

def commitPoint : Discipline R CommitStage where
  allowed l c := l = .looking ∨ ∀ a, posts c a = false
  next
    | .looking, c, a => if Posted posts ⟨c, a⟩ then .committed else .looking
    | .committed, c, a => if CallFailed swallowed ⟨c, a⟩ then .spoilt else .committed
    | .spoilt, _, _ => .spoilt

/-- A program that throws has failed after the commit, or has not committed. -/
def EndsSettled : Except ε α → CommitStage → Prop
  | .ok _, l => l ≠ .spoilt
  | .error _, l => l ≠ .committed

variable {posts swallowed}

lemma stageAfter_spoilt (trace : Trace R) :
    stageAfter (commitPoint posts swallowed) .spoilt trace = .spoilt := by
  induction trace with
  | nil => rfl
  | cons x trace ih => exact ih

lemma stageAfter_committed (trace : Trace R) :
    stageAfter (commitPoint posts swallowed) .committed trace = .spoilt ↔
      ∃ y ∈ trace, CallFailed swallowed y := by
  induction trace with
  | nil => simp [stageAfter]
  | cons x trace ih =>
    show stageAfter _ (if CallFailed swallowed x then CommitStage.spoilt else .committed) trace = _ ↔ _
    by_cases hx : CallFailed swallowed x
    · rw [if_pos hx, stageAfter_spoilt]
      simp [hx]
    · rw [if_neg hx, ih]
      simp [hx]

lemma failsAfterCommit_cons {x : Σ c, Option (R c)} {trace : Trace R} (hx : ¬ Posted posts x) :
    FailsAfterCommit posts swallowed (x :: trace) ↔ FailsAfterCommit posts swallowed trace := by
  constructor
  · rintro ⟨before, y, after, heq, hy, hfailed⟩
    cases before with
    | nil =>
      obtain ⟨rfl, -⟩ := cons.inj heq
      exact absurd hy hx
    | cons z before =>
      obtain ⟨-, rfl⟩ := cons.inj heq
      exact ⟨before, y, after, rfl, hy, hfailed⟩
  · rintro ⟨before, y, after, rfl, hy, hfailed⟩
    exact ⟨x :: before, y, after, rfl, hy, hfailed⟩

lemma stageAfter_looking {trace : Trace R} :
    stageAfter (commitPoint posts swallowed) .looking trace = .spoilt ↔
      FailsAfterCommit posts swallowed trace := by
  induction trace with
  | nil =>
    refine iff_of_false (by simp [stageAfter]) ?_
    rintro ⟨before, x, after, heq, -⟩
    simp at heq
  | cons x trace ih =>
    show stageAfter _ (if Posted posts x then CommitStage.committed else .looking) trace = _ ↔ _
    by_cases hx : Posted posts x
    · rw [if_pos hx, stageAfter_committed]
      constructor
      · exact fun hfailed => ⟨[], x, trace, rfl, hx, hfailed⟩
      · rintro ⟨before, z, after, heq, -, y, hy, hfailed⟩
        refine ⟨y, ?_, hfailed⟩
        cases before with
        | nil =>
          obtain ⟨-, rfl⟩ := cons.inj heq
          exact hy
        | cons w before =>
          obtain ⟨-, rfl⟩ := cons.inj heq
          exact mem_append_right _ (mem_cons_of_mem _ hy)
    · rw [if_neg hx, ih, failsAfterCommit_cons hx]

/-- The first stage is never entered again. -/
lemma next_ne_looking {l : CommitStage} (hl : l ≠ .looking) (c : C) (a : Option (R c)) :
    (commitPoint posts swallowed).next l c a ≠ .looking := by
  cases l with
  | looking => exact absurd rfl hl
  | committed =>
    show (if CallFailed swallowed ⟨c, a⟩ then CommitStage.spoilt else .committed) ≠ .looking
    split_ifs <;> simp
  | spoilt => simp [commitPoint]

lemma stageAfter_ne_looking (trace : Trace R) {l : CommitStage} (hl : l ≠ .looking) :
    stageAfter (commitPoint posts swallowed) l trace ≠ .looking := by
  induction trace generalizing l with
  | nil => exact hl
  | cons x trace ih => exact ih (next_ne_looking hl x.1 x.2)

/-! ### What a run leaves behind -/

variable {exec : (c : C) → σ → R c × σ} {V : Type} {view : σ → V}
  {Q : Except ε α → CommitStage → Prop} {p : Program R ε α}

/-- After the commit nothing is posted. -/
lemma view_of_committed (hkeep : ∀ c s, posts c (exec c s).1 = false → view (exec c s).2 = view s)
    {l : CommitStage} (hl : l ≠ .looking)
    (h : p.Follows (commitPoint posts swallowed) Q l) (fails : ℕ → Bool) (s : σ) :
    view (p.runWith exec fails s).state = view s := by
  induction p generalizing l fails s with
  | ret a => rfl
  | raise e => rfl
  | call c next ih =>
    unfold runWith
    split_ifs
    · exact ih none (next_ne_looking hl c none) (h.2 none) _ s
    · refine (ih _ (next_ne_looking hl c _) (h.2 _) _ _).trans (hkeep c s ?_)
      exact h.1.resolve_left hl _

/-- What was posted shows in the stage. -/
lemma view_eq_iff (hkeep : ∀ c s, posts c (exec c s).1 = false → view (exec c s).2 = view s)
    (hpost : ∀ c s, posts c (exec c s).1 = true → view (exec c s).2 ≠ view s)
    (h : p.Follows (commitPoint posts swallowed) Q .looking) (fails : ℕ → Bool) (s : σ) :
    view (p.runWith exec fails s).state = view s ↔
      stageAfter (commitPoint posts swallowed) .looking (p.runWith exec fails s).trace = .looking := by
  induction p generalizing fails s with
  | ret a => exact iff_of_true rfl rfl
  | raise e => exact iff_of_true rfl rfl
  | call c next ih =>
    have hsome := h.2 (some (exec c s).1)
    unfold runWith
    split_ifs
    · exact ih none (h.2 none) _ s
    · by_cases hposts : posts c (exec c s).1
      · have hnext : (commitPoint posts swallowed).next .looking c (some (exec c s).1) =
            .committed := if_pos hposts
        rw [hnext] at hsome
        refine iff_of_false ?_ ?_
        · show view (Program.runWith exec _ _ (exec c s).2).state ≠ view s
          rw [view_of_committed hkeep (by simp) hsome]
          exact hpost c s hposts
        · show stageAfter _ ((commitPoint posts swallowed).next .looking c (some (exec c s).1)) _ ≠ _
          rw [hnext]
          exact stageAfter_ne_looking _ (by simp)
      · have hnext : (commitPoint posts swallowed).next .looking c (some (exec c s).1) = .looking :=
          if_neg hposts
        rw [hnext] at hsome
        show view (Program.runWith exec _ _ (exec c s).2).state = view s ↔
          stageAfter _ ((commitPoint posts swallowed).next .looking c (some (exec c s).1)) _ = _
        rw [hnext, ← hkeep c s (by simpa using hposts)]
        exact ih _ hsome _ _

/-- A run that throws has left nothing behind exactly when nothing has failed after the commit. -/
theorem unchanged_of_raise_iff
    (hkeep : ∀ c s, posts c (exec c s).1 = false → view (exec c s).2 = view s)
    (hpost : ∀ c s, posts c (exec c s).1 = true → view (exec c s).2 ≠ view s)
    (h : p.Follows (commitPoint posts swallowed) EndsSettled .looking) (fails : ℕ → Bool) (s : σ) :
    ((∃ e, (p.runWith exec fails s).outcome = .error e) →
      view (p.runWith exec fails s).state = view s) ↔
    ¬ FailsAfterCommit posts swallowed (p.runWith exec fails s).trace := by
  have hends : EndsSettled (p.runWith exec fails s).outcome _ := h.runWith fails s
  have hview := view_eq_iff hkeep hpost h fails s
  rw [hview, ← stageAfter_looking]
  generalize stageAfter (commitPoint posts swallowed) .looking (p.runWith exec fails s).trace = l
    at hends ⊢
  cases houtcome : (p.runWith exec fails s).outcome with
  | ok a =>
    rw [houtcome] at hends
    exact iff_of_true (fun ⟨e, he⟩ => nomatch he) hends
  | error e =>
    rw [houtcome] at hends
    cases l with
    | looking => simp
    | committed => exact absurd rfl hends
    | spoilt => simp

end Commit

end Program
