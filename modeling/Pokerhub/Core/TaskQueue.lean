import Mathlib.Data.List.Basic
import Pokerhub.Core.Transition

/-!
# Queues that run one task at a time

A queue as the list of all the tasks that were ever added to it, each with what has become of it.
A step adds a task, drops the tasks that wait, or moves one task on; when a waiting task is taken
on is left open. Behind a task that is not settled no task has begun (`InOrder`), so the tasks
begin in the order in which they were added and at most one of them is under way.
-/

namespace TaskQueue

open List

variable {τ : Type*}

/-- What has become of a task: it waits, it was taken on, its function was called, its function
returned, it is done, or it was dropped. -/
inductive Fate where
  | waiting
  | taken
  | called
  | returned (ok : Bool)
  | done (ok : Bool)
  | dropped
  deriving DecidableEq, Repr

namespace Fate

/-- The task holds the queue. -/
def active : Fate → Bool
  | taken | called | returned _ => true
  | _ => false

/-- The function of the task was called. -/
def begun : Fate → Bool
  | called | returned _ | done _ => true
  | _ => false

/-- Nothing more becomes of the task. -/
def settled : Fate → Bool
  | done _ | dropped => true
  | _ => false

/-- How the function of the task ended. -/
def result : Fate → Option Bool
  | returned ok => some ok
  | done ok => some ok
  | _ => none

/-- What becomes of a task when the queue is cleared. -/
def drop : Fate → Fate
  | waiting => dropped
  | f => f

@[simp] lemma begun_drop (f : Fate) : f.drop.begun = f.begun := by cases f <;> rfl

@[simp] lemma active_drop (f : Fate) : f.drop.active = f.active := by cases f <;> rfl

@[simp] lemma result_drop (f : Fate) : f.drop.result = f.result := by cases f <;> rfl

@[simp] lemma drop_ne_waiting (f : Fate) : f.drop ≠ waiting := by cases f <;> simp [drop]

lemma settled_of_drop {f : Fate} (h : f.drop.settled = false) : f.settled = false := by
  cases f <;> simp_all [drop, settled]

lemma not_settled_of_active {f : Fate} (h : f.active = true) : f.settled = false := by
  cases f <;> simp_all [active, settled]

lemma begun_of_result {f : Fate} (h : f.begun = false) : f.result = none := by
  cases f <;> simp_all [begun, result]

/-- A task that neither waits nor holds the queue is settled. -/
lemma settled_of {f : Fate} (hwait : f ≠ waiting) (hactive : f.active = false) :
    f.settled = true := by
  cases f <;> simp_all [active, settled]

end Fate

/-- The tasks of a queue in the order in which they were added, and the tasks whose functions were
called in the order of the calls. -/
structure Account (τ : Type*) where
  entries : List (τ × Fate) := []
  log : List τ := []

namespace Account

def added (q : Account τ) : List τ :=
  q.entries.map Prod.fst

/-- The tasks that wait. -/
def waiting (q : Account τ) : List τ :=
  (q.entries.filter fun e => e.2 = .waiting).map Prod.fst

/-- The tasks that hold the queue. -/
def active (q : Account τ) : List (τ × Fate) :=
  q.entries.filter fun e => e.2.active

/-- The tasks whose function was called. -/
def begun (q : Account τ) : List τ :=
  (q.entries.filter fun e => e.2.begun).map Prod.fst

/-- The tasks whose function has ended, each with how it ended. -/
def results (q : Account τ) : List (τ × Bool) :=
  q.entries.filterMap fun e => e.2.result.map (e.1, ·)

/-- The number of the tasks that wait or hold the queue. -/
def depth (q : Account τ) : ℕ :=
  q.waiting.length + q.active.length

def add (q : Account τ) (t : τ) : Account τ :=
  { q with entries := q.entries ++ [(t, .waiting)] }

def clear (q : Account τ) : Account τ :=
  { q with entries := q.entries.map fun e => (e.1, e.2.drop) }

/-- Behind a task that is not settled no task is active or has begun. -/
def InOrder (entries : List (τ × Fate)) : Prop :=
  entries.Pairwise fun x y => x.2.settled = false → y.2.active = false ∧ y.2.begun = false

/-- The steps of a queue that move a task on. A task is taken on only when the ones before it are
settled. -/
inductive Moves : Account τ → Account τ → Prop
  | take {xs ys t log} (h : ∀ x ∈ xs, x.2.settled = true) :
    Moves ⟨xs ++ (t, .waiting) :: ys, log⟩ ⟨xs ++ (t, .taken) :: ys, log⟩
  | call {xs ys t log} :
    Moves ⟨xs ++ (t, .taken) :: ys, log⟩ ⟨xs ++ (t, .called) :: ys, log ++ [t]⟩
  | return {xs ys t log} (ok : Bool) :
    Moves ⟨xs ++ (t, .called) :: ys, log⟩ ⟨xs ++ (t, .returned ok) :: ys, log⟩
  | finish {xs ys t log} (ok : Bool) :
    Moves ⟨xs ++ (t, .returned ok) :: ys, log⟩ ⟨xs ++ (t, .done ok) :: ys, log⟩

/-- The steps of a queue. -/
inductive Step : Account τ → Account τ → Prop
  | add {q} (t : τ) : Step q (q.add t)
  | clear {q} : Step q q.clear
  | move {q q'} (h : Moves q q') : Step q q'

/-- The tasks have begun in the order of the log, and no task has overtaken another. -/
structure Valid (q : Account τ) : Prop where
  inOrder : InOrder q.entries
  log_eq : q.log = q.begun

/-! ### Steps -/

lemma InOrder.of_active {xs ys : List (τ × Fate)} {t : τ} {f : Fate}
    (h : InOrder (xs ++ (t, f) :: ys)) (hf : f.active = true) : ∀ x ∈ xs, x.2.settled = true := by
  intro x hx
  by_contra hnot
  have hafter := (pairwise_append.mp h).2.2 x hx (t, f) mem_cons_self (by simpa using hnot)
  rw [hf] at hafter
  exact absurd hafter.1 (by simp)

lemma InOrder.behind {xs ys : List (τ × Fate)} {t : τ} {f : Fate}
    (h : InOrder (xs ++ (t, f) :: ys)) (hf : f.settled = false) :
    ∀ y ∈ ys, y.2.active = false ∧ y.2.begun = false := by
  have hcons := (pairwise_append.mp h).2.1
  exact fun y hy => rel_of_pairwise_cons hcons hy hf

/-- The first task that is not settled may go on. -/
lemma InOrder.replace {xs ys : List (τ × Fate)} {t : τ} {f : Fate} (f' : Fate)
    (h : InOrder (xs ++ (t, f) :: ys)) (hxs : ∀ x ∈ xs, x.2.settled = true)
    (hf : f.settled = false) : InOrder (xs ++ (t, f') :: ys) := by
  obtain ⟨hleft, hright, -⟩ := pairwise_append.mp h
  have hys := h.behind hf
  refine pairwise_append.mpr ⟨hleft, ?_, ?_⟩
  · exact pairwise_cons.mpr ⟨fun y hy _ => hys y hy, (pairwise_cons.mp hright).2⟩
  · intro x hx y _ hnot
    rw [hxs x hx] at hnot
    exact absurd hnot (by simp)

lemma begun_replace {xs ys : List (τ × Fate)} {log log' : List τ} {t : τ} {f f' : Fate}
    (h : f'.begun = f.begun) :
    (⟨xs ++ (t, f') :: ys, log'⟩ : Account τ).begun =
      (⟨xs ++ (t, f) :: ys, log⟩ : Account τ).begun := by
  unfold begun
  cases hf : f.begun <;> simp [filter_append, h, hf]

/-- A task that begins is the last of those that have begun. -/
lemma begun_call {xs ys : List (τ × Fate)} {log log' : List τ} {t : τ}
    (hys : ∀ y ∈ ys, y.2.begun = false) :
    (⟨xs ++ (t, .called) :: ys, log'⟩ : Account τ).begun =
      (⟨xs ++ (t, .taken) :: ys, log⟩ : Account τ).begun ++ [t] := by
  have hnone : ys.filter (fun e => e.2.begun) = [] :=
    filter_eq_nil_iff.mpr fun y hy => by simp [hys y hy]
  unfold begun
  simp [filter_append, hnone, show Fate.called.begun = true from rfl,
    show Fate.taken.begun = false from rfl]

lemma Valid.init : Valid (⟨[], []⟩ : Account τ) :=
  ⟨.nil, rfl⟩

lemma Valid.add {q : Account τ} (h : Valid q) (t : τ) : Valid (q.add t) := by
  refine ⟨pairwise_append.mpr ⟨h.inOrder, pairwise_singleton _ _, ?_⟩, ?_⟩
  · rintro x - y hy -
    obtain rfl := mem_singleton.mp hy
    exact ⟨rfl, rfl⟩
  · rw [Account.add, h.log_eq]
    simp [begun, filter_append, Fate.begun]

lemma Valid.clear {q : Account τ} (h : Valid q) : Valid q.clear := by
  refine ⟨pairwise_map.mpr (h.inOrder.imp fun {x y} hxy hx => ?_), ?_⟩
  · simpa using hxy (Fate.settled_of_drop hx)
  · rw [Account.clear, h.log_eq]
    simp [begun, filter_map, Function.comp_def]

lemma Valid.move {q q' : Account τ} (h : Valid q) (hmove : Moves q q') : Valid q' := by
  obtain ⟨hin, hlog⟩ := h
  cases hmove with
  | take hxs => exact ⟨hin.replace _ hxs rfl, hlog.trans (begun_replace rfl)⟩
  | call =>
    refine ⟨hin.replace _ (hin.of_active rfl) rfl, ?_⟩
    rw [begun_call fun y hy => (hin.behind rfl y hy).2]
    exact congrArg (· ++ _) hlog
  | «return» ok =>
    exact ⟨hin.replace _ (hin.of_active rfl) rfl, hlog.trans (begun_replace rfl)⟩
  | finish ok =>
    exact ⟨hin.replace _ (hin.of_active rfl) rfl, hlog.trans (begun_replace rfl)⟩

/-- Every queue that was empty once is valid. -/
theorem Valid.of_steps {q : Account τ} (h : Relation.ReflTransGen Step ⟨[], []⟩ q) : Valid q := by
  induction h with
  | refl => exact .init
  | tail _ hstep ih =>
    cases hstep with
    | add t => exact ih.add t
    | clear => exact ih.clear
    | move hmove => exact ih.move hmove

/-! ### What a valid queue is like -/

/-- The tasks begin in the order in which they were added, each at most once. -/
lemma Valid.log_sublist {q : Account τ} (h : Valid q) : q.log.Sublist q.added := by
  rw [h.log_eq]
  exact filter_sublist.map _

lemma Valid.active_length {q : Account τ} (h : Valid q) : q.active.length ≤ 1 := by
  have hpair : q.active.Pairwise fun _ _ => False := by
    refine (h.inOrder.filter _).imp_of_mem fun {x y} hx hy hxy => ?_
    have hx := Fate.not_settled_of_active (mem_filter.mp hx).2
    exact absurd (mem_filter.mp hy).2 (by simp [(hxy hx).1])
  rcases hq : q.active with _ | ⟨x, _ | ⟨y, l⟩⟩
  · simp
  · simp
  · rw [hq] at hpair
    exact (rel_of_pairwise_cons hpair mem_cons_self).elim

/-- No step takes a task out of the account or adds one to it, but `add`. -/
@[simp] lemma added_add (q : Account τ) (t : τ) : (q.add t).added = q.added ++ [t] := by
  simp [add, added]

@[simp] lemma added_clear (q : Account τ) : q.clear.added = q.added := by
  simp [clear, added]

@[simp] lemma waiting_add (q : Account τ) (t : τ) : (q.add t).waiting = q.waiting ++ [t] := by
  simp [add, waiting, filter_append]

@[simp] lemma waiting_clear (q : Account τ) : q.clear.waiting = [] := by
  simp [clear, waiting, filter_map, Function.comp_def]

@[simp] lemma active_add (q : Account τ) (t : τ) : (q.add t).active = q.active := by
  simp [add, active, filter_append, Fate.active]

@[simp] lemma active_clear (q : Account τ) : q.clear.active = q.active := by
  have hkeep : ∀ e ∈ q.active, (e.1, e.2.drop) = e := by
    rintro ⟨t, f⟩ he
    have hf := (mem_filter.mp he).2
    cases f <;> simp_all [Fate.active, Fate.drop]
  unfold active clear
  rw [filter_map]
  simp only [Function.comp_def, Fate.active_drop]
  exact (map_congr_left hkeep).trans (map_id' _)

@[simp] lemma results_add (q : Account τ) (t : τ) : (q.add t).results = q.results := by
  simp [add, results, Fate.result]

@[simp] lemma results_clear (q : Account τ) : q.clear.results = q.results := by
  simp [clear, results, filterMap_map]

lemma Moves.added_eq {q q' : Account τ} (h : Moves q q') : q'.added = q.added := by
  cases h <;> simp [added]

lemma Moves.log_prefix {q q' : Account τ} (h : Moves q q') : q.log <+: q'.log := by
  cases h with
  | call => exact prefix_append _ _
  | _ => exact prefix_rfl

lemma depth_add (q : Account τ) (t : τ) : (q.add t).depth = q.depth + 1 := by
  rw [depth, depth, waiting_add, active_add, length_append, length_singleton]
  omega

lemma depth_clear (q : Account τ) : q.clear.depth = q.active.length := by
  simp [depth]

lemma Moves.depth_le {q q' : Account τ} (h : Moves q q') : q'.depth ≤ q.depth := by
  cases h with
  | take => simp [depth, waiting, active, filter_append, Fate.active]; omega
  | call => simp [depth, waiting, active, filter_append, Fate.active]
  | «return» => simp [depth, waiting, active, filter_append, Fate.active]
  | finish => simp [depth, waiting, active, filter_append, Fate.active]

/-! ### The step that is next -/

/-- When no task holds the queue the first that waits can be taken on. -/
lemma exists_take {q : Account τ} {t : τ} {rest : List τ} (hactive : q.active = [])
    (hwaiting : q.waiting = t :: rest) :
    ∃ q', Moves q q' ∧ q'.waiting = rest ∧ q'.active = [(t, .taken)] ∧ q'.log = q.log ∧
      q'.results = q.results := by
  obtain ⟨e, es, hfilter, rfl, rfl⟩ := map_eq_cons_iff.mp hwaiting
  obtain ⟨xs, ys, hentries, hxs, he, rfl⟩ := filter_eq_cons_iff.mp hfilter
  obtain ⟨t, f⟩ := e
  obtain rfl : f = .waiting := by simpa using he
  obtain ⟨entries, log⟩ := q
  subst hentries
  have hnone : ∀ e ∈ xs ++ ys, e.2.active = false := by
    intro e he
    have hmem : e ∈ xs ++ (t, .waiting) :: ys := by
      rcases mem_append.mp he with he | he
      · exact mem_append_left _ he
      · exact mem_append_right _ (mem_cons_of_mem _ he)
    simpa using filter_eq_nil_iff.mp hactive e hmem
  have hxs' : ∀ x ∈ xs, x.2.settled = true := fun x hx =>
    Fate.settled_of (by simpa using hxs x hx) (hnone x (mem_append_left _ hx))
  refine ⟨_, .take hxs', ?_, ?_, rfl, ?_⟩
  · have hwait : xs.filter (fun e => e.2 = Fate.waiting) = [] :=
      filter_eq_nil_iff.mpr fun x hx => hxs x hx
    simp [waiting, filter_append, hwait]
  · have hleft : xs.filter (fun e => e.2.active) = [] :=
      filter_eq_nil_iff.mpr fun x hx => by simp [hnone x (mem_append_left _ hx)]
    have hright : ys.filter (fun e => e.2.active) = [] :=
      filter_eq_nil_iff.mpr fun y hy => by simp [hnone y (mem_append_right _ hy)]
    simp [active, filter_append, hleft, hright, show Fate.taken.active = true from rfl]
  · simp [results, Fate.result]

/-- The task that holds the queue, among the others. -/
lemma exists_active {q : Account τ} {e : τ × Fate} (h : q.active = [e]) :
    ∃ xs ys, q.entries = xs ++ e :: ys ∧ xs.filter (fun e => e.2.active) = [] ∧
      ys.filter (fun e => e.2.active) = [] := by
  obtain ⟨xs, ys, hentries, hxs, -, hys⟩ := filter_eq_cons_iff.mp h
  exact ⟨xs, ys, hentries, filter_eq_nil_iff.mpr hxs, hys⟩

lemma exists_call {q : Account τ} {t : τ} (h : q.active = [(t, .taken)]) :
    ∃ q', Moves q q' ∧ q'.waiting = q.waiting ∧ q'.active = [(t, .called)] ∧
      q'.log = q.log ++ [t] ∧ q'.results = q.results := by
  obtain ⟨xs, ys, hentries, hxs, hys⟩ := exists_active h
  obtain ⟨entries, log⟩ := q
  subst hentries
  refine ⟨_, .call, by simp [waiting], ?_, rfl, by simp [results, Fate.result]⟩
  simp [active, filter_append, hxs, hys, show Fate.called.active = true from rfl]

lemma exists_return {q : Account τ} (hq : Valid q) {t : τ} (ok : Bool)
    (h : q.active = [(t, .called)]) :
    ∃ q', Moves q q' ∧ q'.waiting = q.waiting ∧ q'.active = [(t, .returned ok)] ∧
      q'.log = q.log ∧ q'.results = q.results ++ [(t, ok)] := by
  obtain ⟨xs, ys, hentries, hxs, hys⟩ := exists_active h
  obtain ⟨entries, log⟩ := q
  subst hentries
  refine ⟨_, .return ok, by simp [waiting], ?_, rfl, ?_⟩
  · simp [active, filter_append, hxs, hys, show (Fate.returned ok).active = true from rfl]
  · have hnone : ys.filterMap (fun e => e.2.result.map (e.1, ·)) = [] := by
      refine filterMap_eq_nil_iff.mpr fun y hy => ?_
      rw [Fate.begun_of_result (hq.inOrder.behind rfl y hy).2]
      rfl
    simp [results, hnone, show Fate.called.result = none from rfl,
      show (Fate.returned ok).result = some ok from rfl]

lemma exists_finish {q : Account τ} {t : τ} {ok : Bool} (h : q.active = [(t, .returned ok)]) :
    ∃ q', Moves q q' ∧ q'.waiting = q.waiting ∧ q'.active = [] ∧ q'.log = q.log ∧
      q'.results = q.results := by
  obtain ⟨xs, ys, hentries, hxs, hys⟩ := exists_active h
  obtain ⟨entries, log⟩ := q
  subst hentries
  refine ⟨_, .finish ok, by simp [waiting], ?_, rfl, by simp [results, Fate.result]⟩
  simp [active, filter_append, hxs, hys, show (Fate.done ok).active = false from rfl]

end Account

end TaskQueue
