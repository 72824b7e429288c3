import Mathlib.Data.List.Forall2
import Pokerhub.Core.Program
import Pokerhub.Core.Transition

/-!
# Services

A service answers requests, each with a program over one shared state. The requests are under way
at the same time: a step starts a request, runs the next command of one of them, lets that command
fail, or is a step of the environment. What the programs keep command by command holds in every
state of every run, whatever the interleaving (`Service.invariant`), and in the runs in which a
request is started only when the ones before it are done (`Service.serial_invariant`).
-/

/-- A service for requests `ρ`. -/
structure Service {C : Type} (R : C → Type) (ε α σ ρ : Type) where
  init : σ → Prop
  /-- The requests that may be started. -/
  ready : σ → ρ → Prop
  body : ρ → Program R ε α
  /-- What a command of a request does when it does not fail. -/
  exec : ρ → (c : C) → σ → R c × σ
  fails : σ → C → Prop
  env : σ → σ → Prop

/-- The shared state and the requests that were started, each with what is left of its program. -/
structure Pool {C : Type} (R : C → Type) (ε α σ ρ : Type) where
  state : σ
  threads : List (ρ × Program R ε α)

namespace Service

/-- The labels of the steps. -/
inductive Action (ρ C : Type) where
  | start (r : ρ)
  | call (r : ρ) (c : C)
  | fault (r : ρ) (c : C)
  | env

open List

variable {C : Type} {R : C → Type} {ε α σ ρ L : Type} (S : Service R ε α σ ρ)

inductive Step : Pool R ε α σ ρ → Action ρ C → Pool R ε α σ ρ → Prop
  | start {s ts r} (h : S.ready s r) : Step ⟨s, ts⟩ (.start r) ⟨s, ts ++ [(r, S.body r)]⟩
  | call {s ts₁ ts₂ r c} {next : Option (R c) → Program R ε α} :
    Step ⟨s, ts₁ ++ (r, .call c next) :: ts₂⟩ (.call r c)
      ⟨(S.exec r c s).2, ts₁ ++ (r, next (some (S.exec r c s).1)) :: ts₂⟩
  | fault {s ts₁ ts₂ r c} {next : Option (R c) → Program R ε α} (h : S.fails s c) :
    Step ⟨s, ts₁ ++ (r, .call c next) :: ts₂⟩ (.fault r c) ⟨s, ts₁ ++ (r, next none) :: ts₂⟩
  | env {s s' ts} (h : S.env s s') : Step ⟨s, ts⟩ .env ⟨s', ts⟩

/-- The service as a transition system. -/
def system : TransitionSystem (Pool R ε α σ ρ) (Action ρ C) where
  init P := S.init P.state ∧ P.threads = []
  step := S.Step

/-- The runs all of whose steps meet a condition on the shared state before the step. -/
def within (ok : σ → Action ρ C → Prop) : TransitionSystem (Pool R ε α σ ρ) (Action ρ C) :=
  S.system.restrict fun P a => ok P.state a

/-- A request is started only when the ones before it are done. -/
def InTurn (P : Pool R ε α σ ρ) : Action ρ C → Prop
  | .start _ => ∀ t ∈ P.threads, t.2.Done
  | _ => True

/-- The runs in which the requests are served one after another. -/
def serial : TransitionSystem (Pool R ε α σ ρ) (Action ρ C) :=
  S.system.restrict InTurn

/-- The rules for the program of `r`, among programs whose records are `I`'s second argument. -/
def protocol (ok : σ → Action ρ C → Prop) (I : σ → List (ρ × L) → Prop) (r : ρ) :
    Protocol R σ (List (ρ × L) × List (ρ × L)) L where
  exec := S.exec r
  inv s γ l := I s (γ.1 ++ (r, l) :: γ.2)
  allowed s c := ok s (.call r c)
  fails s c := S.fails s c ∧ ok s (.fault r c)

/-- The rules for the program of `r` when it runs alone. -/
def alone (I : σ → Prop) (r : ρ) : Protocol R σ Unit σ :=
  Protocol.alone (S.exec r) S.fails I

variable {S} {ok : σ → Action ρ C → Prop}

/-- The partner of an element of the first of two related lists. -/
lemma forall₂_middle {A B : Type} {T : A → B → Prop} {xs₁ xs₂ : List A} {x : A} {ys : List B}
    (h : Forall₂ T (xs₁ ++ x :: xs₂) ys) :
    ∃ ys₁ y ys₂, ys = ys₁ ++ y :: ys₂ ∧ Forall₂ T xs₁ ys₁ ∧ T x y ∧ Forall₂ T xs₂ ys₂ := by
  induction xs₁ generalizing ys with
  | nil =>
    cases h with
    | cons hx hxs => exact ⟨[], _, _, rfl, .nil, hx, hxs⟩
  | cons z xs₁ ih =>
    cases h with
    | cons hz hxs =>
      obtain ⟨ys₁, y, ys₂, rfl, h₁, hx, h₂⟩ := ih hxs
      exact ⟨_ :: ys₁, y, ys₂, rfl, .cons hz h₁, hx, h₂⟩

/-- The partner of an element of the second of two related lists. -/
lemma exists_left {A B : Type} {T : A → B → Prop} {xs : List A} {ys : List B}
    (h : Forall₂ T xs ys) {y : B} (hy : y ∈ ys) : ∃ x ∈ xs, T x y := by
  induction h with
  | nil => cases hy
  | cons hx _ ih =>
    rcases mem_cons.mp hy with rfl | hy
    · exact ⟨_, mem_cons_self, hx⟩
    · obtain ⟨x, hx, hT⟩ := ih hy
      exact ⟨x, mem_cons_of_mem _ hx, hT⟩

/-- The record of a thread. -/
lemma exists_record {I : σ → List (ρ × L) → Prop} {Q : ρ → Except ε α → L → Prop}
    {threads : List (ρ × Program R ε α)} {ls : List (ρ × L)}
    (h : Forall₂ (fun t rl => t.1 = rl.1 ∧ t.2.wp (S.protocol ok I rl.1) (Q rl.1) rl.2) threads ls)
    {t : ρ × Program R ε α} (ht : t ∈ threads) :
    ∃ l, (t.1, l) ∈ ls ∧ t.2.wp (S.protocol ok I t.1) (Q t.1) l := by
  obtain ⟨ts₁, ts₂, rfl⟩ := append_of_mem ht
  obtain ⟨ls₁, ⟨r, l⟩, ls₂, rfl, -, ⟨rfl, hwp⟩, -⟩ := forall₂_middle h
  exact ⟨l, by simp, hwp⟩

/-- The thread of a record. -/
lemma exists_thread {I : σ → List (ρ × L) → Prop} {Q : ρ → Except ε α → L → Prop}
    {threads : List (ρ × Program R ε α)} {ls : List (ρ × L)}
    (h : Forall₂ (fun t rl => t.1 = rl.1 ∧ t.2.wp (S.protocol ok I rl.1) (Q rl.1) rl.2) threads ls)
    {rl : ρ × L} (hrl : rl ∈ ls) :
    ∃ t ∈ threads, t.1 = rl.1 ∧ t.2.wp (S.protocol ok I rl.1) (Q rl.1) rl.2 :=
  exists_left h hrl

/-- The threads and their records belong to the same requests. -/
lemma map_records {β : Type} {T : ρ × Program R ε α → ρ × L → Prop}
    {threads : List (ρ × Program R ε α)} {ls : List (ρ × L)}
    (h : Forall₂ (fun t rl => t.1 = rl.1 ∧ T t rl) threads ls) (f : ρ → β) :
    (threads.map fun t => f t.1) = ls.map fun rl => f rl.1 := by
  induction h with
  | nil => rfl
  | cons ht _ ih => rw [map_cons, map_cons, ht.1, ih]

lemma reachable_within {P : Pool R ε α σ ρ} (h : S.system.Reachable P) :
    (S.within fun _ _ => True).Reachable P :=
  h.invariant (fun _ h₀ => .of_init h₀) fun _ _ _ hr hs => hr.tail ⟨trivial, hs⟩

/-- What every command that a program can call meets is met by the commands that are left. -/
lemma uses_of_reachable {K : C → Prop} (hbody : ∀ r, (S.body r).Uses K) {P : Pool R ε α σ ρ}
    (h : S.system.Reachable P) : ∀ t ∈ P.threads, t.2.Uses K := by
  refine h.invariant (I := fun P => ∀ t ∈ P.threads, t.2.Uses K) ?_ ?_
  · rintro ⟨s, ts⟩ ⟨-, rfl⟩ t ht
    cases ht
  · rintro _ _ _ huses hstep t ht
    -- the thread in the middle goes on with its next command
    have hmove : ∀ {ts₁ ts₂ : List (ρ × Program R ε α)} {r : ρ} {c : C}
        {next : Option (R c) → Program R ε α} (a : Option (R c)),
        (∀ t ∈ ts₁ ++ (r, .call c next) :: ts₂, t.2.Uses K) →
        t ∈ ts₁ ++ (r, next a) :: ts₂ → t.2.Uses K := by
      intro ts₁ ts₂ r c next a hall ht
      rcases mem_append.mp ht with ht | ht
      · exact hall t (mem_append_left _ ht)
      · rcases mem_cons.mp ht with rfl | ht
        · exact (hall (r, .call c next) (by simp)).2 a
        · exact hall t (by simp [ht])
    cases hstep with
    | start =>
      rcases mem_append.mp ht with ht | ht
      · exact huses t ht
      · rw [mem_singleton.mp ht]
        exact hbody _
    | call => exact hmove _ huses ht
    | fault => exact hmove _ huses ht
    | env => exact huses t ht

/-- What a step does to the shared state. -/
lemma Step.state_cases {P P' : Pool R ε α σ ρ} {a : Action ρ C} (h : S.Step P a P') :
    P'.state = P.state ∨
      (∃ r c next, a = .call r c ∧ (r, .call c next) ∈ P.threads ∧
        P'.state = (S.exec r c P.state).2) ∨
      a = .env ∧ S.env P.state P'.state := by
  cases h with
  | start => exact Or.inl rfl
  | call => exact Or.inr (Or.inl ⟨_, _, _, rfl, mem_append_right _ mem_cons_self, rfl⟩)
  | fault => exact Or.inl rfl
  | env h => exact Or.inr (Or.inr ⟨rfl, h⟩)

/-- What every program keeps holds in every state of every run. -/
theorem invariant {I : σ → List (ρ × L) → Prop} {Q : ρ → Except ε α → L → Prop}
    (hinit : ∀ s, S.init s → I s [])
    (hstart : ∀ s ls r, I s ls → S.ready s r → ok s (.start r) →
      ∃ l, I s (ls ++ [(r, l)]) ∧ (S.body r).wp (S.protocol ok I r) (Q r) l)
    (henv : ∀ s s' ls, I s ls → S.env s s' → ok s .env → I s' ls)
    {P : Pool R ε α σ ρ} (h : (S.within ok).Reachable P) :
    ∃ ls, Forall₂ (fun t rl => t.1 = rl.1 ∧ t.2.wp (S.protocol ok I rl.1) (Q rl.1) rl.2)
      P.threads ls ∧ I P.state ls := by
  refine h.invariant (I := fun P => ∃ ls, Forall₂ (fun t rl => t.1 = rl.1 ∧
    t.2.wp (S.protocol ok I rl.1) (Q rl.1) rl.2) P.threads ls ∧ I P.state ls) ?_ ?_
  · rintro ⟨s, ts⟩ ⟨hs, rfl⟩
    exact ⟨[], .nil, hinit s hs⟩
  · rintro _ _ _ ⟨ls, hts, hinv⟩ ⟨hok, hstep⟩
    cases hstep with
    | start hready =>
      obtain ⟨l, hinv', hwp⟩ := hstart _ ls _ hinv hready hok
      exact ⟨_, rel_append hts (.cons ⟨rfl, hwp⟩ .nil), hinv'⟩
    | call =>
      obtain ⟨ls₁, ⟨r, l⟩, ls₂, rfl, hts₁, ⟨rfl, hwp⟩, hts₂⟩ := forall₂_middle hts
      obtain ⟨l', hinv', hnext⟩ := (hwp _ (ls₁, ls₂) hinv).1 hok
      exact ⟨_, rel_append hts₁ (.cons ⟨rfl, hnext⟩ hts₂), hinv'⟩
    | fault hfails =>
      obtain ⟨ls₁, ⟨r, l⟩, ls₂, rfl, hts₁, ⟨rfl, hwp⟩, hts₂⟩ := forall₂_middle hts
      obtain ⟨l', hinv', hnext⟩ := (hwp _ (ls₁, ls₂) hinv).2 ⟨hfails, hok⟩
      exact ⟨_, rel_append hts₁ (.cons ⟨rfl, hnext⟩ hts₂), hinv'⟩
    | env henv' => exact ⟨ls, hts, henv _ _ ls hinv henv' hok⟩

/-! ### Conditions on all that is under way -/

variable (S) in
/-- The rules for the program of `r`, when the steps that are allowed depend on the records of the
other programs too. -/
def protocolAmong (ok : σ → List (ρ × L) → Action ρ C → Prop) (I : σ → List (ρ × L) → Prop) (r : ρ) :
    Protocol R (σ × List (ρ × L) × List (ρ × L)) Unit L where
  exec c s := ((S.exec r c s.1).1, (S.exec r c s.1).2, s.2)
  inv s _ l := I s.1 (s.2.1 ++ (r, l) :: s.2.2)
  allowed s c := ok s.1 (s.2.1 ++ s.2.2) (.call r c)
  fails s c := S.fails s.1 c ∧ ok s.1 (s.2.1 ++ s.2.2) (.fault r c)

/-- What every program keeps holds in every state of the runs whose steps meet a condition on the
pool, as far as the condition can be told from the records. -/
theorem invariant_among {okPool : Pool R ε α σ ρ → Action ρ C → Prop}
    {ok : σ → List (ρ × L) → Action ρ C → Prop} {I : σ → List (ρ × L) → Prop}
    {Q : ρ → Except ε α → L → Prop}
    (hok : ∀ s ts₁ t ts₂ ls a, okPool ⟨s, ts₁ ++ t :: ts₂⟩ a →
      Forall₂ (fun t rl => t.1 = rl.1 ∧ t.2.wp (S.protocolAmong ok I rl.1) (Q rl.1) rl.2)
        (ts₁ ++ ts₂) ls → ok s ls a)
    (hinit : ∀ s, S.init s → I s [])
    (hstart : ∀ s ls r, I s ls → S.ready s r →
      ∃ l, I s (ls ++ [(r, l)]) ∧ (S.body r).wp (S.protocolAmong ok I r) (Q r) l)
    (henv : ∀ s s' ls, I s ls → S.env s s' → I s' ls)
    {P : Pool R ε α σ ρ} (h : (S.system.restrict okPool).Reachable P) :
    ∃ ls, Forall₂ (fun t rl => t.1 = rl.1 ∧ t.2.wp (S.protocolAmong ok I rl.1) (Q rl.1) rl.2)
      P.threads ls ∧ I P.state ls := by
  refine h.invariant (I := fun P => ∃ ls, Forall₂ (fun t rl => t.1 = rl.1 ∧
    t.2.wp (S.protocolAmong ok I rl.1) (Q rl.1) rl.2) P.threads ls ∧ I P.state ls) ?_ ?_
  · rintro ⟨s, ts⟩ ⟨hs, rfl⟩
    exact ⟨[], .nil, hinit s hs⟩
  · rintro _ _ _ ⟨ls, hts, hinv⟩ ⟨hpool, hstep⟩
    cases hstep with
    | start hready =>
      obtain ⟨l, hinv', hwp⟩ := hstart _ ls _ hinv hready
      exact ⟨_, rel_append hts (.cons ⟨rfl, hwp⟩ .nil), hinv'⟩
    | call =>
      obtain ⟨ls₁, ⟨r, l⟩, ls₂, rfl, hts₁, ⟨rfl, hwp⟩, hts₂⟩ := forall₂_middle hts
      have hallowed := hok _ _ _ _ _ _ hpool (rel_append hts₁ hts₂)
      obtain ⟨l', hinv', hnext⟩ := (hwp (_, ls₁, ls₂) () hinv).1 hallowed
      exact ⟨_, rel_append hts₁ (.cons ⟨rfl, hnext⟩ hts₂), hinv'⟩
    | fault hfails =>
      obtain ⟨ls₁, ⟨r, l⟩, ls₂, rfl, hts₁, ⟨rfl, hwp⟩, hts₂⟩ := forall₂_middle hts
      have hallowed := hok _ _ _ _ _ _ hpool (rel_append hts₁ hts₂)
      obtain ⟨l', hinv', hnext⟩ := (hwp (_, ls₁, ls₂) () hinv).2 ⟨hfails, hallowed⟩
      exact ⟨_, rel_append hts₁ (.cons ⟨rfl, hnext⟩ hts₂), hinv'⟩
    | env henv' => exact ⟨ls, hts, henv _ _ ls hinv henv'⟩

/-- What every command keeps holds in every state of every run. -/
theorem invariant_of_calls {I : σ → Prop} (hinit : ∀ s, S.init s → I s)
    (hcall : ∀ s r c, I s → ok s (.call r c) → I (S.exec r c s).2)
    (henv : ∀ s s', I s → S.env s s' → ok s .env → I s') {P : Pool R ε α σ ρ}
    (h : (S.within ok).Reachable P) : I P.state := by
  refine h.invariant (T := S.within ok) (I := fun P => I P.state) (fun P hP => hinit _ hP.1) ?_
  rintro _ _ _ hI ⟨hok, hstep⟩
  cases hstep with
  | start => exact hI
  | call => exact hcall _ _ _ hI hok
  | fault => exact hI
  | env henv' => exact henv _ _ hI henv' hok

/-! ### One request after another -/

/-- At most one request is under way. -/
def OneAtATime (threads : List (ρ × Program R ε α)) : Prop :=
  threads.Pairwise fun t u => t.2.Done ∨ u.2.Done

/-- The requests beside one that is under way are done. -/
lemma OneAtATime.others {ts₁ ts₂ : List (ρ × Program R ε α)} {t : ρ × Program R ε α}
    (h : OneAtATime (ts₁ ++ t :: ts₂)) (ht : ¬ t.2.Done) : ∀ u ∈ ts₁ ++ ts₂, u.2.Done := by
  intro u hu
  exact ((pairwise_cons.mp ((pairwise_middle Or.symm).mp h)).1 u hu).resolve_left ht

lemma oneAtATime_of_others {ts₁ ts₂ : List (ρ × Program R ε α)} (t : ρ × Program R ε α)
    (h : ∀ u ∈ ts₁ ++ ts₂, u.2.Done) : OneAtATime (ts₁ ++ t :: ts₂) := by
  refine (pairwise_middle Or.symm).mpr (pairwise_cons.mpr ⟨fun u hu => Or.inr (h u hu), ?_⟩)
  exact pairwise_iff_forall_sublist.mpr fun hsub => Or.inl (h _ (hsub.subset mem_cons_self))

/-- In a serial run at most one request is under way. -/
theorem oneAtATime {P : Pool R ε α σ ρ} (h : S.serial.Reachable P) : OneAtATime P.threads := by
  refine h.invariant (I := fun P => OneAtATime P.threads) ?_ ?_
  · rintro ⟨s, ts⟩ ⟨-, rfl⟩
    exact .nil
  · rintro _ _ _ hone ⟨hserial, hstep⟩
    cases hstep with
    | start =>
      refine oneAtATime_of_others _ fun u hu => ?_
      exact hserial u (by simpa using hu)
    | call => exact oneAtATime_of_others _ (hone.others (Program.not_done_call _ _))
    | fault => exact oneAtATime_of_others _ (hone.others (Program.not_done_call _ _))
    | env => exact hone

/-- What every program keeps when it runs alone holds in every state of every serial run. -/
theorem serial_invariant {I : σ → Prop} (hinit : ∀ s, S.init s → I s)
    (hbody : ∀ s r, I s → S.ready s r → (S.body r).wp (S.alone I r) (fun _ _ => True) s)
    (henv : ∀ s s', ¬ S.env s s') {P : Pool R ε α σ ρ} (h : S.serial.Reachable P) :
    I P.state := by
  -- the thread that is under way keeps the invariant from the present state
  have hall : OneAtATime P.threads ∧ I P.state ∧ ∀ t ∈ P.threads, ¬ t.2.Done →
      t.2.wp (S.alone I t.1) (fun _ _ => True) P.state := by
    refine h.invariant (I := fun P => OneAtATime P.threads ∧ I P.state ∧ ∀ t ∈ P.threads,
      ¬ t.2.Done → t.2.wp (S.alone I t.1) (fun _ _ => True) P.state) ?_ ?_
    · rintro ⟨s, ts⟩ ⟨hs, rfl⟩
      exact ⟨.nil, hinit s hs, fun t ht => absurd ht not_mem_nil⟩
    · -- one thread goes on, the others are done
      have hmove : ∀ {s' : σ} {ts₁ ts₂ : List (ρ × Program R ε α)} {t : ρ × Program R ε α}, I s' →
          (∀ u ∈ ts₁ ++ ts₂, u.2.Done) → t.2.wp (S.alone I t.1) (fun _ _ => True) s' →
          OneAtATime (ts₁ ++ t :: ts₂) ∧ I s' ∧ ∀ u ∈ ts₁ ++ t :: ts₂, ¬ u.2.Done →
            u.2.wp (S.alone I u.1) (fun _ _ => True) s' := by
        intro s' ts₁ ts₂ t hI hdone hwp
        refine ⟨oneAtATime_of_others _ hdone, hI, fun u hu hnot => ?_⟩
        rcases mem_cons.mp (perm_middle.mem_iff.mp hu) with rfl | hu
        · exact hwp
        · exact absurd (hdone u hu) hnot
      rintro _ _ _ ⟨hone, hI, hthreads⟩ ⟨hserial, hstep⟩
      cases hstep with
      | start hready =>
        refine hmove hI (fun u hu => ?_) (hbody _ _ hI hready)
        exact hserial u (by simpa using hu)
      | call =>
        have hwp := hthreads _ (mem_append_right _ mem_cons_self) (Program.not_done_call _ _)
        obtain ⟨l', ⟨rfl, hI'⟩, hnext⟩ := (hwp _ () ⟨rfl, hI⟩).1 trivial
        exact hmove hI' (hone.others (Program.not_done_call _ _)) hnext
      | fault hfails =>
        have hwp := hthreads _ (mem_append_right _ mem_cons_self) (Program.not_done_call _ _)
        obtain ⟨l', ⟨rfl, hI'⟩, hnext⟩ := (hwp _ () ⟨rfl, hI⟩).2 hfails
        exact hmove hI' (hone.others (Program.not_done_call _ _)) hnext
      | env henv' => exact absurd henv' (henv _ _)
  exact hall.2.1

/-! ### Runs that are written down -/

/-- A step of a run that is written down: a request is started, thread `i` runs its next command or
has it fail, or the environment changes the state. -/
inductive Move (σ ρ : Type) where
  | start (r : ρ)
  | call (i : ℕ)
  | fault (i : ℕ)
  | env (f : σ → σ)

variable (S) in
def play (P : Pool R ε α σ ρ) : Move σ ρ → Pool R ε α σ ρ
  | .start r => ⟨P.state, P.threads ++ [(r, S.body r)]⟩
  | .call i =>
    match P.threads[i]? with
    | some (r, .call c next) =>
      ⟨(S.exec r c P.state).2, P.threads.set i (r, next (some (S.exec r c P.state).1))⟩
    | _ => P
  | .fault i =>
    match P.threads[i]? with
    | some (r, .call _ next) => ⟨P.state, P.threads.set i (r, next none)⟩
    | _ => P
  | .env f => ⟨f P.state, P.threads⟩

section Legal

/-- The next command of a thread, if it has one, meets `f`. -/
def NextMeets (f : ρ → C → Prop) : Option (ρ × Program R ε α) → Prop
  | some (r, .call c _) => f r c
  | _ => True

variable (S) (ok : Pool R ε α σ ρ → Action ρ C → Prop)

/-- The step is one of the service, and it meets the condition. -/
def Legal (P : Pool R ε α σ ρ) : Move σ ρ → Prop
  | .start r => S.ready P.state r ∧ ok P (.start r)
  | .call i => NextMeets (fun r c => ok P (.call r c)) P.threads[i]?
  | .fault i => NextMeets (fun r c => S.fails P.state c ∧ ok P (.fault r c)) P.threads[i]?
  | .env f => S.env P.state (f P.state) ∧ ok P .env

/-- The last state of a run that is written down. -/
def playAll (P : Pool R ε α σ ρ) (moves : List (Move σ ρ)) : Pool R ε α σ ρ :=
  moves.foldl S.play P

def AllLegal : Pool R ε α σ ρ → List (Move σ ρ) → Prop
  | _, [] => True
  | P, m :: moves => S.Legal ok P m ∧ AllLegal (S.play P m) moves

instance (f : ρ → C → Prop) [∀ r c, Decidable (f r c)] :
    (t : Option (ρ × Program R ε α)) → Decidable (NextMeets f t)
  | some (r, .call c _) => inferInstanceAs (Decidable (f r c))
  | some (_, .ret _) => isTrue trivial
  | some (_, .raise _) => isTrue trivial
  | none => isTrue trivial

section Decidable

variable [∀ P a, Decidable (ok P a)] [∀ s r, Decidable (S.ready s r)]
  [∀ s c, Decidable (S.fails s c)] [∀ s s', Decidable (S.env s s')]

instance (P : Pool R ε α σ ρ) : (m : Move σ ρ) → Decidable (S.Legal ok P m)
  | .start r => inferInstanceAs (Decidable (S.ready P.state r ∧ ok P (.start r)))
  | .call i => inferInstanceAs (Decidable (NextMeets _ P.threads[i]?))
  | .fault i => inferInstanceAs (Decidable (NextMeets _ P.threads[i]?))
  | .env f => inferInstanceAs (Decidable (S.env P.state (f P.state) ∧ ok P .env))

instance decidableAllLegal (P : Pool R ε α σ ρ) :
    (moves : List (Move σ ρ)) → Decidable (S.AllLegal ok P moves)
  | [] => isTrue trivial
  | m :: moves =>
    have := decidableAllLegal (S.play P m) moves
    inferInstanceAs (Decidable (S.Legal ok P m ∧ S.AllLegal ok (S.play P m) moves))

end Decidable

instance (P : Pool R ε α σ ρ) : (a : Action ρ C) → Decidable (InTurn P a)
  | .start _ => inferInstanceAs (Decidable (∀ t ∈ P.threads, t.2.outcome.isSome = true))
  | .call _ _ => isTrue trivial
  | .fault _ _ => isTrue trivial
  | .env => isTrue trivial

end Legal

variable {ok : Pool R ε α σ ρ → Action ρ C → Prop}

/-- What is in a list after one of its elements was replaced. -/
lemma mem_replaced {A : Type} {xs₁ xs₂ : List A} {x y z : A} (h : z ∈ xs₁ ++ y :: xs₂) :
    z ∈ xs₁ ++ x :: xs₂ ∨ z = y := by
  rcases mem_append.mp h with h | h
  · exact Or.inl (mem_append_left _ h)
  · rcases mem_cons.mp h with rfl | h
    · exact Or.inr rfl
    · exact Or.inl (mem_append_right _ (mem_cons_of_mem _ h))

private lemma set_of_getElem? {A : Type} {xs : List A} {i : ℕ} {x y : A} (h : xs[i]? = some x) :
    ∃ xs₁ xs₂, xs = xs₁ ++ x :: xs₂ ∧ xs.set i y = xs₁ ++ y :: xs₂ := by
  induction xs generalizing i with
  | nil => cases h
  | cons z xs ih =>
    cases i with
    | zero =>
      cases h
      exact ⟨[], xs, rfl, rfl⟩
    | succ i =>
      obtain ⟨xs₁, xs₂, rfl, hset⟩ := ih h
      exact ⟨z :: xs₁, xs₂, rfl, congrArg (z :: ·) hset⟩

lemma Legal.moves {P : Pool R ε α σ ρ} {m : Move σ ρ} (h : S.Legal ok P m) :
    Relation.ReflTransGen (S.system.restrict ok).Moves P (S.play P m) := by
  obtain ⟨s, ts⟩ := P
  cases m with
  | start r => exact .single ⟨_, h.2, .start h.1⟩
  | call i =>
    simp only [Legal] at h
    simp only [play]
    split
    · rename_i r c next hi
      rw [hi] at h
      obtain ⟨ts₁, ts₂, rfl, hset⟩ := set_of_getElem? hi
      rw [hset]
      exact .single ⟨_, h, .call⟩
    · exact .refl
  | fault i =>
    simp only [Legal] at h
    simp only [play]
    split
    · rename_i r c next hi
      rw [hi] at h
      obtain ⟨ts₁, ts₂, rfl, hset⟩ := set_of_getElem? hi
      rw [hset]
      exact .single ⟨_, h.2, .fault h.1⟩
    · exact .refl
  | env f => exact .single ⟨_, h.2, .env h.1⟩

/-- A run that is written down is a run. -/
theorem moves_playAll {P : Pool R ε α σ ρ} {moves : List (Move σ ρ)} (h : S.AllLegal ok P moves) :
    Relation.ReflTransGen (S.system.restrict ok).Moves P (S.playAll P moves) := by
  induction moves generalizing P with
  | nil => exact .refl
  | cons m moves ih => exact h.1.moves.trans (ih h.2)

/-- A run that is written down goes on from any state that is reached. -/
theorem reachable_playAll_from {P : Pool R ε α σ ρ} (hP : (S.system.restrict ok).Reachable P)
    {moves : List (Move σ ρ)} (h : S.AllLegal ok P moves) :
    (S.system.restrict ok).Reachable (S.playAll P moves) := by
  obtain ⟨P₀, h₀, hrun⟩ := hP
  exact ⟨P₀, h₀, hrun.trans (moves_playAll h)⟩

theorem reachable_playAll {s : σ} (hs : S.init s) {moves : List (Move σ ρ)}
    (h : S.AllLegal ok ⟨s, []⟩ moves) :
    (S.system.restrict ok).Reachable (S.playAll ⟨s, []⟩ moves) :=
  reachable_playAll_from (.of_init ⟨hs, rfl⟩) h

/-! ### Runs without the environment -/

variable (S) in
/-- The service, and an environment that does nothing. -/
def closed : Service R ε α σ ρ :=
  { S with env := fun _ _ => False }

instance [∀ s r, Decidable (S.ready s r)] (s : σ) (r : ρ) : Decidable (S.closed.ready s r) :=
  inferInstanceAs (Decidable (S.ready s r))

instance [∀ s c, Decidable (S.fails s c)] (s : σ) (c : C) : Decidable (S.closed.fails s c) :=
  inferInstanceAs (Decidable (S.fails s c))

instance (s s' : σ) : Decidable (S.closed.env s s') :=
  isFalse id

lemma Legal.of_closed {P : Pool R ε α σ ρ} {m : Move σ ρ} (h : S.closed.Legal ok P m) :
    S.Legal ok P m := by
  cases m with
  | env f => exact h.1.elim
  | _ => exact h

lemma AllLegal.of_closed {P : Pool R ε α σ ρ} {moves : List (Move σ ρ)}
    (h : S.closed.AllLegal ok P moves) : S.AllLegal ok P moves := by
  induction moves generalizing P with
  | nil => trivial
  | cons m moves ih => exact ⟨h.1.of_closed, ih h.2⟩

theorem reachable_playAll_of_closed {s : σ} (hs : S.init s) {moves : List (Move σ ρ)}
    (h : S.closed.AllLegal ok ⟨s, []⟩ moves) :
    (S.system.restrict ok).Reachable (S.playAll ⟨s, []⟩ moves) :=
  reachable_playAll hs h.of_closed

end Service
