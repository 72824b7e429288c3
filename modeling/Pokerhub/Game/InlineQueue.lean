import Mathlib.Algebra.GroupWithZero.Nat
import Mathlib.Data.List.Induction
import Pokerhub.Core.TaskQueue

/-!
# The queue that stands in for `p-queue`

`InlinePQueue` of `pqueue-loader.ts`, with the promise chains its tasks start. It is one of the
queues that run one task at a time (`simulates_foldl`): the tasks begin in the order in which they
were added, each at most once, and no task waits while none is under way. Nothing but `clear` keeps
a task from being run (`drained`).
-/

namespace Pokerhub.Spectate

open TaskQueue TransitionSystem List

variable {τ : Type*}

/-- How far the promise chain of a task has come: `fn` is to be called, its promise is open, or it
is settled and `finally` is to run. -/
inductive Phase where
  | posted
  | called
  | settled (ok : Bool)
  deriving DecidableEq, Repr

def Phase.fate : Phase → Fate
  | .posted => .taken
  | .called => .called
  | .settled ok => .returned ok

def Phase.isSettled : Phase → Bool
  | .settled _ => true
  | _ => false

/-- The turns that a chain still takes. -/
def Phase.turns : Phase → ℕ
  | .posted => 3
  | .called => 2
  | .settled _ => 1

/-- `InlinePQueue`, the chains that its tasks have started, and what was seen of it: the tasks that
were added, the calls of their functions, and how the promises of `add` were settled. -/
structure InlinePQueue (τ : Type*) where
  size : ℕ := 0
  pending : ℕ := 0
  queue : List τ := []
  chains : List (τ × Phase) := []
  added : List τ := []
  log : List τ := []
  results : List (τ × Bool) := []
  deriving DecidableEq

namespace InlinePQueue

def processNext (q : InlinePQueue τ) : InlinePQueue τ :=
  if q.pending > 0 then q
  else
    match q.queue with
    | [] => { q with size := 0 }
    | next :: rest =>
      { q with
        queue := rest
        size := rest.length
        pending := q.pending + 1
        chains := q.chains ++ [(next, .posted)] }

def add (q : InlinePQueue τ) (task : τ) : InlinePQueue τ :=
  processNext
    { q with
      queue := q.queue ++ [task]
      size := (q.queue ++ [task]).length
      added := q.added ++ [task] }

def clear (q : InlinePQueue τ) : InlinePQueue τ :=
  { q with queue := [], size := 0 }

/-- A call of `add` or `clear`, or a turn of one of the chains. -/
inductive Event (τ : Type*) where
  | add (task : τ)
  | clear
  | call (i : ℕ)
  | settle (i : ℕ) (ok : Bool)
  | finally (i : ℕ)

def step (q : InlinePQueue τ) : Event τ → InlinePQueue τ
  | .add task => q.add task
  | .clear => q.clear
  | .call i =>
    match q.chains[i]? with
    | some (task, .posted) =>
      { q with chains := q.chains.set i (task, .called), log := q.log ++ [task] }
    | _ => q
  | .settle i ok =>
    match q.chains[i]? with
    | some (task, .called) =>
      { q with chains := q.chains.set i (task, .settled ok), results := q.results ++ [(task, ok)] }
    | _ => q
  | .finally i =>
    match q.chains[i]? with
    | some (_, .settled _) =>
      processNext { q with chains := q.chains.eraseIdx i, pending := q.pending - 1 }
    | _ => q

/-! ### One of the queues that run one task at a time -/

/-- The account tells what the queue holds. -/
structure Mirrors (q : InlinePQueue τ) (a : Account τ) : Prop where
  added : a.added = q.added
  waiting : a.waiting = q.queue
  active : a.active = q.chains.map fun c => (c.1, c.2.fate)
  log : a.log = q.log
  results : a.results = q.results
  pending : q.pending = q.chains.length

/-- It does, and the queue is not idle while a task waits. -/
structure Simulates (q : InlinePQueue τ) (a : Account τ) : Prop extends Mirrors q a where
  size : q.size = q.queue.length
  busy : q.chains = [] → q.queue = []

/-- What `processNext` does is at most one step of the account. -/
lemma simulates_processNext {q : InlinePQueue τ} {a : Account τ} (h : Mirrors q a)
    (hsize : q.size = q.queue.length) :
    ∃ a', Relation.ReflTransGen Account.Step a a' ∧ Simulates q.processNext a' := by
  unfold processNext
  split_ifs with hpending
  · refine ⟨a, .refl, h, hsize, fun hnil => ?_⟩
    rw [h.pending, hnil] at hpending
    exact absurd hpending (Nat.lt_irrefl 0)
  · have hchains : q.chains = [] := by
      rw [h.pending] at hpending
      exact length_eq_zero_iff.mp (Nat.eq_zero_of_not_pos hpending)
    split
    · rename_i hqueue
      exact ⟨a, .refl, ⟨h.added, h.waiting, h.active, h.log, h.results, h.pending⟩,
        (congrArg length hqueue).symm, fun _ => hqueue⟩
    · rename_i next rest hqueue
      have hactive : a.active = [] := by rw [h.active, hchains, map_nil]
      obtain ⟨a', hmove, hwait, hact, hlog, hres⟩ :=
        Account.exists_take hactive (h.waiting.trans hqueue)
      refine ⟨a', .single (.move hmove), ⟨hmove.added_eq.trans h.added, hwait, ?_,
        hlog.trans h.log, hres.trans h.results, ?_⟩, rfl, fun hnil => ?_⟩
      · rw [hact, hchains]
        rfl
      · rw [length_append, h.pending]
        rfl
      · exact absurd hnil (append_ne_nil_of_right_ne_nil _ (cons_ne_nil _ _))

lemma Simulates.chains_length {q : InlinePQueue τ} {a : Account τ} (h : Simulates q a)
    (ha : a.Valid) : q.chains.length ≤ 1 := by
  have hactive := ha.active_length
  rwa [h.active, length_map] at hactive

/-- A chain that has come some way is the only one. -/
lemma Simulates.only {q : InlinePQueue τ} {a : Account τ} (h : Simulates q a) (ha : a.Valid)
    {i : ℕ} {c : τ × Phase} (hi : q.chains[i]? = some c) : i = 0 ∧ q.chains = [c] := by
  have hlength := h.chains_length ha
  rcases hq : q.chains with _ | ⟨c', _ | ⟨c'', cs⟩⟩
  · rw [hq] at hi
    exact absurd hi.symm (Option.some_ne_none _)
  · rw [hq] at hi
    cases i with
    | zero => exact ⟨rfl, by rw [Option.some.inj hi]⟩
    | succ i => exact absurd hi.symm (Option.some_ne_none _)
  · rw [hq] at hlength
    exact absurd hlength (by simp)

/-- Every event is some steps of the account. -/
lemma simulates_step {q : InlinePQueue τ} {a : Account τ} (h : Simulates q a) (ha : a.Valid)
    (e : Event τ) :
    ∃ a', Relation.ReflTransGen Account.Step a a' ∧ Simulates (q.step e) a' := by
  cases e with
  | add task =>
    have hmirrors : Mirrors
        { q with
          queue := q.queue ++ [task]
          size := (q.queue ++ [task]).length
          added := q.added ++ [task] } (a.add task) := by
      refine ⟨?_, ?_, ?_, h.log, ?_, h.pending⟩
      · rw [Account.added_add, h.added]
      · rw [Account.waiting_add, h.waiting]
      · rw [Account.active_add, h.active]
      · rw [Account.results_add, h.results]
    obtain ⟨a', hsteps, hsim⟩ := simulates_processNext hmirrors rfl
    exact ⟨a', .head (.add task) hsteps, hsim⟩
  | clear =>
    refine ⟨a.clear, .single .clear, ⟨?_, Account.waiting_clear a, ?_, h.log, ?_, h.pending⟩, rfl,
      fun _ => rfl⟩
    · rw [Account.added_clear]
      exact h.added
    · rw [Account.active_clear]
      exact h.active
    · rw [Account.results_clear]
      exact h.results
  | call i =>
    simp only [step]
    split
    · rename_i task hi
      obtain ⟨rfl, hchains⟩ := h.only ha hi
      have hactive : a.active = [(task, .taken)] := by rw [h.active, hchains]; rfl
      obtain ⟨a', hmove, hwait, hact, hlog, hres⟩ := Account.exists_call hactive
      refine ⟨a', .single (.move hmove), ⟨hmove.added_eq.trans h.added, hwait.trans h.waiting, ?_,
        ?_, hres.trans h.results, ?_⟩, h.size, fun hnil => ?_⟩
      · rw [hact, hchains]
        rfl
      · rw [hlog, h.log]
      · rw [length_set]
        exact h.pending
      · rw [hchains] at hnil
        exact absurd hnil (cons_ne_nil _ _)
    · exact ⟨a, .refl, h⟩
  | settle i ok =>
    simp only [step]
    split
    · rename_i task hi
      obtain ⟨rfl, hchains⟩ := h.only ha hi
      have hactive : a.active = [(task, .called)] := by rw [h.active, hchains]; rfl
      obtain ⟨a', hmove, hwait, hact, hlog, hres⟩ := Account.exists_return ha ok hactive
      refine ⟨a', .single (.move hmove), ⟨hmove.added_eq.trans h.added, hwait.trans h.waiting, ?_,
        hlog.trans h.log, ?_, ?_⟩, h.size, fun hnil => ?_⟩
      · rw [hact, hchains]
        rfl
      · rw [hres, h.results]
      · rw [length_set]
        exact h.pending
      · rw [hchains] at hnil
        exact absurd hnil (cons_ne_nil _ _)
    · exact ⟨a, .refl, h⟩
  | «finally» i =>
    simp only [step]
    split
    · rename_i task ok hi
      obtain ⟨rfl, hchains⟩ := h.only ha hi
      have hactive : a.active = [(task, .returned ok)] := by rw [h.active, hchains]; rfl
      obtain ⟨a', hmove, hwait, hact, hlog, hres⟩ := Account.exists_finish hactive
      have hmirrors : Mirrors
          { q with chains := q.chains.eraseIdx 0, pending := q.pending - 1 } a' := by
        refine ⟨hmove.added_eq.trans h.added, hwait.trans h.waiting, ?_, hlog.trans h.log,
          hres.trans h.results, ?_⟩
        · rw [hact, hchains]
          rfl
        · rw [h.pending, hchains]
          rfl
      obtain ⟨a'', hsteps, hsim⟩ := simulates_processNext hmirrors h.size
      exact ⟨a'', .head (.move hmove) hsteps, hsim⟩
    · exact ⟨a, .refl, h⟩

/-- `InlinePQueue` is one of the queues that run one task at a time. -/
lemma simulates_foldl (events : List (Event τ)) :
    ∃ a, Relation.ReflTransGen Account.Step ⟨[], []⟩ a ∧
      Simulates (events.foldl step ({} : InlinePQueue τ)) a := by
  induction events using reverseRecOn with
  | nil => exact ⟨_, .refl, ⟨rfl, rfl, rfl, rfl, rfl, rfl⟩, rfl, fun _ => rfl⟩
  | append_singleton events e ih =>
    obtain ⟨a, hsteps, hsim⟩ := ih
    obtain ⟨a', hsteps', hsim'⟩ := simulates_step hsim (.of_steps hsteps) e
    rw [foldl_append]
    exact ⟨a', hsteps.trans hsteps', hsim'⟩

/-- After any calls of `add` and `clear` and any turns of the chains, the two counters are right,
one task at most is under way and none waits while there is none; and the tasks that were added
have fates such that those that wait are the queue, in order, those whose functions were called
are the log, in order, and none has overtaken another. -/
theorem serves_in_order (events : List (Event τ)) :
    let q := events.foldl step ({} : InlinePQueue τ)
    q.size = q.queue.length ∧ q.pending = q.chains.length ∧ q.pending ≤ 1 ∧
      (q.pending = 0 → q.queue = []) ∧
      ∃ entries : List (τ × Fate), entries.map Prod.fst = q.added ∧
        (entries.filter fun e => e.2 = .waiting).map Prod.fst = q.queue ∧
        (entries.filter fun e => e.2.begun).map Prod.fst = q.log ∧
        entries.filterMap (fun e => e.2.result.map (e.1, ·)) = q.results ∧
        Account.InOrder entries := by
  obtain ⟨a, hsteps, hsim⟩ := simulates_foldl events
  have ha : a.Valid := .of_steps hsteps
  refine ⟨hsim.size, hsim.pending, hsim.pending ▸ hsim.chains_length ha, fun hzero => ?_,
    a.entries, hsim.added, hsim.waiting, ?_, hsim.results, ha.inOrder⟩
  · rw [hsim.pending] at hzero
    exact hsim.busy (length_eq_zero_iff.mp hzero)
  · exact ha.log_eq.symm.trans hsim.log

/-! ### Nothing but `clear` keeps a task from being run -/

/-- The turns that the chains under way and those of the waiting tasks still take. -/
def turns (q : InlinePQueue τ) : ℕ :=
  (q.chains.map fun c => c.2.turns).sum + 3 * q.queue.length

/-- The tasks whose functions are still to be called. -/
def toBegin (q : InlinePQueue τ) : List τ :=
  (q.chains.filter fun c => c.2 = .posted).map Prod.fst ++ q.queue

/-- A turn that one of the chains can take. -/
def turn (q : InlinePQueue τ) : Event τ → Bool
  | .add _ => false
  | .clear => false
  | .call i => q.chains[i]?.any fun c => c.2 = .posted
  | .settle i _ => q.chains[i]?.any fun c => c.2 = .called
  | .finally i => q.chains[i]?.any fun c => c.2.isSettled

/-- What `processNext` does when no task is under way. -/
lemma processNext_idle {q : InlinePQueue τ} (hchains : q.chains = []) (hpending : q.pending = 0) :
    q.processNext.turns = 3 * q.queue.length ∧ q.processNext.toBegin = q.queue ∧
      q.processNext.log = q.log := by
  unfold processNext
  rw [if_neg (by rw [hpending]; exact Nat.lt_irrefl 0)]
  split
  · rename_i hqueue
    simp [turns, toBegin, hchains, hqueue]
  · rename_i next rest hqueue
    simp [turns, toBegin, hchains, hqueue, Phase.turns]
    omega

/-- A turn brings the queue one turn nearer to its end, and the tasks that are still to begin stay
next in the log. -/
lemma turn_spec {q : InlinePQueue τ} {a : Account τ} (h : Simulates q a) (ha : a.Valid)
    {e : Event τ} (he : q.turn e = true) :
    (q.step e).turns + 1 = q.turns ∧ (q.step e).log ++ (q.step e).toBegin = q.log ++ q.toBegin := by
  cases e with
  | add task => cases he
  | clear => cases he
  | call i =>
    obtain ⟨⟨task, phase⟩, hi, hphase⟩ := (Option.any_eq_true _ _).mp he
    obtain rfl : phase = .posted := by simpa using hphase
    obtain ⟨rfl, hchains⟩ := h.only ha hi
    simp [step, turns, toBegin, hchains, Phase.turns]
    omega
  | settle i ok =>
    obtain ⟨⟨task, phase⟩, hi, hphase⟩ := (Option.any_eq_true _ _).mp he
    obtain rfl : phase = .called := by simpa using hphase
    obtain ⟨rfl, hchains⟩ := h.only ha hi
    simp [step, turns, toBegin, hchains, Phase.turns]
    omega
  | «finally» i =>
    obtain ⟨⟨task, phase⟩, hi, hphase⟩ := (Option.any_eq_true _ _).mp he
    obtain ⟨rfl, hchains⟩ := h.only ha hi
    cases phase with
    | posted => cases hphase
    | called => cases hphase
    | settled ok =>
      simp only [step, hi]
      have hpending : q.pending - 1 = 0 := by rw [h.pending, hchains]; rfl
      have hnil : q.chains.eraseIdx 0 = [] := by rw [hchains]; rfl
      obtain ⟨hturns, hbegin, hlog⟩ := processNext_idle
        (q := { q with chains := q.chains.eraseIdx 0, pending := q.pending - 1 }) hnil hpending
      rw [hturns, hbegin, hlog]
      simp [turns, toBegin, hchains, Phase.turns]
      omega

/-- While something is left to do, some chain can take a turn. -/
lemma exists_turn {q : InlinePQueue τ} {a : Account τ} (h : Simulates q a) (hpos : q.turns ≠ 0) :
    ∃ e, q.turn e = true := by
  rcases hchains : q.chains with _ | ⟨⟨task, phase⟩, cs⟩
  · rw [turns, hchains, h.busy hchains] at hpos
    exact absurd rfl hpos
  · cases phase with
    | posted => exact ⟨.call 0, by simp [turn, hchains]⟩
    | called => exact ⟨.settle 0 true, by simp [turn, hchains]⟩
    | settled ok => exact ⟨.finally 0, by simp [turn, hchains, Phase.isSettled]⟩

/-- However the chains go on after any events, they take `turns` turns in all and not one more,
and then every task that was not called and not cleared has been called, in order. -/
theorem drained (events more : List (Event τ))
    (hmore : Along step (fun q e => q.turn e = true)
      (events.foldl step ({} : InlinePQueue τ)) more) :
    let q := events.foldl step ({} : InlinePQueue τ)
    let q' := more.foldl step q
    more.length + q'.turns = q.turns ∧
      (q'.turns = 0 → q'.queue = [] ∧ q'.chains = [] ∧ q'.log = q.log ++ q.toBegin) ∧
      (q'.turns ≠ 0 → ∃ e, q'.turn e = true) := by
  intro q q'
  -- each turn is counted, and moves a task from those to begin to the log at most
  have hcount : more.length + q'.turns = q.turns ∧ q'.log ++ q'.toBegin = q.log ++ q.toBegin := by
    induction more using reverseRecOn with
    | nil => exact ⟨Nat.zero_add _, rfl⟩
    | append_singleton more e ih =>
      obtain ⟨hinit, hlast, -⟩ := along_append.mp hmore
      obtain ⟨hturns, hlog⟩ := ih hinit
      obtain ⟨a, hsteps, hsim⟩ := simulates_foldl (events ++ more)
      rw [foldl_append] at hsim
      obtain ⟨hturns', hlog'⟩ := turn_spec hsim (.of_steps hsteps) hlast
      have hq' : q' = (more.foldl step q).step e := foldl_append
      rw [hq', length_append, length_singleton, hlog', Nat.add_assoc, Nat.add_comm 1, hturns']
      exact ⟨hturns, hlog⟩
  obtain ⟨a, hsteps, hsim⟩ := simulates_foldl (events ++ more)
  rw [foldl_append] at hsim
  refine ⟨hcount.1, fun hzero => ?_, exists_turn hsim⟩
  have hchains : q'.chains = [] := by
    rcases hq : q'.chains with _ | ⟨⟨task, phase⟩, cs⟩
    · rfl
    · rw [turns, hq] at hzero
      cases phase <;> simp [Phase.turns] at hzero
  have hqueue := hsim.busy hchains
  refine ⟨hqueue, hchains, ?_⟩
  have hbegin : q'.toBegin = [] := by
    have hqueue : q'.queue = [] := hqueue
    rw [toBegin, hchains, hqueue]
    rfl
  rw [← hcount.2, hbegin, append_nil]

/-- Two tasks, the first of which fails, run to the end. -/
theorem drained_two :
    (({} : InlinePQueue ℕ).add 7 |>.add 8).toBegin = [7, 8] ∧
      let q' :=
        [.call 0, .settle 0 false, .finally 0, .call 0, .settle 0 true, .finally 0].foldl step
          ([.add 7, .add 8].foldl step ({} : InlinePQueue ℕ))
      q'.queue = [] ∧ q'.chains = [] ∧ q'.log = [7, 8] := by
  refine ⟨by decide, ?_⟩
  have hdrained := drained (τ := ℕ) [.add 7, .add 8]
    [.call 0, .settle 0 false, .finally 0, .call 0, .settle 0 true, .finally 0] (by decide)
  exact hdrained.2.1 (by decide)

end InlinePQueue

end Pokerhub.Spectate
