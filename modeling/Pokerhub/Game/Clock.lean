import Pokerhub.Core.OrderedMap

/-!
# The game clock

`ClockService` of `clock.service.ts`. It keeps one map of timers, and with every tick it runs the
callbacks that are due. Whatever else is set, replaced or cleared, a callback runs once, with the
first tick at or after its deadline, unless its timer is replaced or cleared before that, and then
it never runs (`timer_fate`).

Callbacks do not call the clock before they first wait, as those of the gateway do not.
-/

namespace Pokerhub.GameClock

open List

structure PlayerTimer where
  /-- In nanoseconds. -/
  deadline : ℕ
  /-- The callback, by the number of callbacks that were handed over before it. -/
  action : ℕ
  deriving DecidableEq

structure ClockService where
  /-- The monotonic time. -/
  now : ℕ
  actionTimeoutMs : ℕ
  timers : OrderedMap String PlayerTimer := .empty
  handedOver : ℕ := 0
  /-- The callbacks that have run, with the time of the tick. -/
  ran : List (ℕ × ℕ) := []

inductive ClockEvent where
  | wait (ns : ℕ)
  | setTimer (playerId tableId : String) (ms : Option ℕ)
  | clearTimer (playerId tableId : String)
  | tick

def key (playerId tableId : String) : String :=
  tableId ++ ":" ++ playerId

namespace ClockService

/-- The clock as it is constructed. -/
def create (now actionTimeoutMs : ℕ) : ClockService where
  now := now
  actionTimeoutMs := actionTimeoutMs

def deadline (c : ClockService) (ms : Option ℕ) : ℕ :=
  c.now + ms.getD c.actionTimeoutMs * 1000000

def setTimer (c : ClockService) (playerId tableId : String) (ms : Option ℕ) : ClockService :=
  { c with
    timers := c.timers.set (key playerId tableId) ⟨c.deadline ms, c.handedOver⟩
    handedOver := c.handedOver + 1 }

def clearTimer (c : ClockService) (playerId tableId : String) : ClockService :=
  { c with timers := c.timers.delete (key playerId tableId) }

def tick (c : ClockService) : ClockService :=
  { c with
    timers := c.timers.filter fun _ timer => c.now < timer.deadline
    ran := c.ran ++
      (c.timers.entries.filter fun e => e.2.deadline ≤ c.now).map fun e => (e.2.action, c.now) }

def step (c : ClockService) : ClockEvent → ClockService
  | .wait ns => { c with now := c.now + ns }
  | .setTimer playerId tableId ms => c.setTimer playerId tableId ms
  | .clearTimer playerId tableId => c.clearTimer playerId tableId
  | .tick => c.tick

def run (c : ClockService) (events : List ClockEvent) : ClockService :=
  events.foldl step c

end ClockService

/-! ### One timer -/

inductive Fate where
  | waiting
  | dropped
  | ran (time : ℕ)
  deriving DecidableEq

/-- What becomes of one timer, when nothing but its own key and its deadline matters. -/
def fate (k : String) (deadline : ℕ) : ℕ → List ClockEvent → Fate
  | _, [] => .waiting
  | now, .wait ns :: events => fate k deadline (now + ns) events
  | now, .setTimer playerId tableId _ :: events =>
    if key playerId tableId = k then .dropped else fate k deadline now events
  | now, .clearTimer playerId tableId :: events =>
    if key playerId tableId = k then .dropped else fate k deadline now events
  | now, .tick :: events => if deadline ≤ now then .ran now else fate k deadline now events

/-! ### All timers -/

/-- Each callback is in one place at most. -/
structure OncePlaced (c : ClockService) : Prop where
  distinct : ∀ e ∈ c.timers.entries, ∀ e' ∈ c.timers.entries, e.2.action = e'.2.action → e = e'
  waiting : ∀ e ∈ c.timers.entries, e.2.action < c.handedOver
  ran : ∀ r ∈ c.ran, r.1 < c.handedOver
  ran_once : (c.ran.map Prod.fst).Nodup
  ran_gone : ∀ e ∈ c.timers.entries, ∀ r ∈ c.ran, e.2.action ≠ r.1

variable {c : ClockService} {k : String} {deadline n : ℕ}

lemma mem_tick {e : String × PlayerTimer} :
    e ∈ c.tick.timers.entries ↔ e ∈ c.timers.entries ∧ c.now < e.2.deadline := by
  simp [ClockService.tick, OrderedMap.filter]

lemma mem_ran_tick {r : ℕ × ℕ} : r ∈ c.tick.ran ↔
    r ∈ c.ran ∨ ∃ e ∈ c.timers.entries, e.2.deadline ≤ c.now ∧ r = (e.2.action, c.now) := by
  simp only [ClockService.tick, mem_append, mem_map, mem_filter, decide_eq_true_eq]
  refine or_congr Iff.rfl ⟨?_, ?_⟩
  · rintro ⟨e, ⟨he, hdue⟩, rfl⟩
    exact ⟨e, he, hdue, rfl⟩
  · rintro ⟨e, he, hdue, rfl⟩
    exact ⟨e, ⟨he, hdue⟩, rfl⟩

lemma mem_clearTimer {playerId tableId : String} {e : String × PlayerTimer} :
    e ∈ (c.clearTimer playerId tableId).timers.entries ↔
      e ∈ c.timers.entries ∧ e.1 ≠ key playerId tableId := by
  simp [ClockService.clearTimer, OrderedMap.delete, OrderedMap.filter]

lemma mem_setTimer {playerId tableId : String} {ms : Option ℕ} {e : String × PlayerTimer} :
    e ∈ (c.setTimer playerId tableId ms).timers.entries ↔
      e = (key playerId tableId, ⟨c.deadline ms, c.handedOver⟩) ∨
        e ∈ c.timers.entries ∧ e.1 ≠ key playerId tableId :=
  OrderedMap.mem_set

lemma OncePlaced.create (now actionTimeoutMs : ℕ) :
    OncePlaced (ClockService.create now actionTimeoutMs) := by
  constructor <;> simp [ClockService.create, OrderedMap.empty]

lemma OncePlaced.tick (h : OncePlaced c) : OncePlaced c.tick := by
  constructor
  · intro e he e' he' heq
    exact h.distinct e (mem_tick.mp he).1 e' (mem_tick.mp he').1 heq
  · exact fun e he => h.waiting e (mem_tick.mp he).1
  · intro r hr
    rcases mem_ran_tick.mp hr with hr | ⟨e, he, -, rfl⟩
    · exact h.ran r hr
    · exact h.waiting e he
  · simp only [ClockService.tick, map_append, map_map]
    refine h.ran_once.append ?_ ?_
    · refine Nodup.map_on ?_ ((Nodup.of_map _ c.timers.nodup).filter _)
      intro e he e' he' heq
      exact h.distinct e (mem_of_mem_filter he) e' (mem_of_mem_filter he') heq
    · intro x hx hx'
      obtain ⟨r, hr, rfl⟩ := mem_map.mp hx
      obtain ⟨e, he, heq⟩ := mem_map.mp hx'
      exact h.ran_gone e (mem_of_mem_filter he) r hr heq
  · intro e he r hr
    obtain ⟨he, hlater⟩ := mem_tick.mp he
    rcases mem_ran_tick.mp hr with hr | ⟨e', he', hdue, rfl⟩
    · exact h.ran_gone e he r hr
    · intro heq
      obtain rfl := h.distinct e he e' he' heq
      exact absurd hlater (Nat.not_lt_of_le hdue)

lemma OncePlaced.setTimer (h : OncePlaced c) (playerId tableId : String) (ms : Option ℕ) :
    OncePlaced (c.setTimer playerId tableId ms) := by
  constructor
  · intro e he e' he' heq
    rcases mem_setTimer.mp he with rfl | ⟨he, -⟩
    · rcases mem_setTimer.mp he' with rfl | ⟨he', -⟩
      · rfl
      · exact absurd heq.symm (Nat.ne_of_lt (h.waiting e' he'))
    · rcases mem_setTimer.mp he' with rfl | ⟨he', -⟩
      · exact absurd heq (Nat.ne_of_lt (h.waiting e he))
      · exact h.distinct e he e' he' heq
  · intro e he
    rcases mem_setTimer.mp he with rfl | ⟨he, -⟩
    · exact Nat.lt_succ_self _
    · exact Nat.lt_succ_of_lt (h.waiting e he)
  · exact fun r hr => Nat.lt_succ_of_lt (h.ran r hr)
  · exact h.ran_once
  · intro e he r hr
    rcases mem_setTimer.mp he with rfl | ⟨he, -⟩
    · exact (Nat.ne_of_lt (h.ran r hr)).symm
    · exact h.ran_gone e he r hr

lemma OncePlaced.step (h : OncePlaced c) (event : ClockEvent) : OncePlaced (c.step event) := by
  cases event with
  | wait ns => exact ⟨h.distinct, h.waiting, h.ran, h.ran_once, h.ran_gone⟩
  | setTimer playerId tableId ms => exact h.setTimer playerId tableId ms
  | clearTimer playerId tableId =>
    constructor
    · intro e he e' he' heq
      exact h.distinct e (mem_clearTimer.mp he).1 e' (mem_clearTimer.mp he').1 heq
    · exact fun e he => h.waiting e (mem_clearTimer.mp he).1
    · exact h.ran
    · exact h.ran_once
    · exact fun e he => h.ran_gone e (mem_clearTimer.mp he).1
  | tick => exact h.tick

lemma OncePlaced.run (h : OncePlaced c) (events : List ClockEvent) : OncePlaced (c.run events) := by
  induction events generalizing c with
  | nil => exact h
  | cons event events ih => exact ih (h.step event)

/-! ### A callback that does not wait -/

/-- The callback waits for no deadline. -/
structure Gone (c : ClockService) (n : ℕ) : Prop where
  handed : n < c.handedOver
  absent : ∀ e ∈ c.timers.entries, e.2.action ≠ n

lemma Gone.step (h : Gone c n) (event : ClockEvent) :
    Gone (c.step event) n ∧ ∀ time, (n, time) ∈ (c.step event).ran ↔ (n, time) ∈ c.ran := by
  cases event with
  | wait ns => exact ⟨⟨h.handed, h.absent⟩, fun _ => Iff.rfl⟩
  | setTimer playerId tableId ms =>
    refine ⟨⟨Nat.lt_succ_of_lt h.handed, fun e he => ?_⟩, fun _ => Iff.rfl⟩
    rcases mem_setTimer.mp he with rfl | ⟨he, -⟩
    · exact (Nat.ne_of_lt h.handed).symm
    · exact h.absent e he
  | clearTimer playerId tableId =>
    exact ⟨⟨h.handed, fun e he => h.absent e (mem_clearTimer.mp he).1⟩, fun _ => Iff.rfl⟩
  | tick =>
    refine ⟨⟨h.handed, fun e he => h.absent e (mem_tick.mp he).1⟩, fun time => ?_⟩
    refine mem_ran_tick.trans ⟨?_, Or.inl⟩
    rintro (hr | ⟨e, he, -, heq⟩)
    · exact hr
    · exact absurd (Prod.mk.inj heq).1.symm (h.absent e he)

lemma Gone.run (h : Gone c n) (events : List ClockEvent) :
    Gone (c.run events) n ∧ ∀ time, (n, time) ∈ (c.run events).ran ↔ (n, time) ∈ c.ran := by
  induction events generalizing c with
  | nil => exact ⟨h, fun _ => Iff.rfl⟩
  | cons event events ih =>
    obtain ⟨hgone, hran⟩ := h.step event
    obtain ⟨hgone', hran'⟩ := ih hgone
    exact ⟨hgone', fun time => (hran' time).trans (hran time)⟩

/-! ### A callback that waits -/

/-- What has become of a callback that is gone stays so. -/
lemma Gone.fate (h : Gone c n) {f : Fate} (hf : f ≠ .waiting)
    (hran : ∀ time, (n, time) ∈ c.ran ↔ f = .ran time) (events : List ClockEvent) :
    (∀ time, (n, time) ∈ (c.run events).ran ↔ f = .ran time) ∧
      ((k, ⟨deadline, n⟩) ∈ (c.run events).timers.entries ↔ f = .waiting) := by
  obtain ⟨hgone, hrun⟩ := h.run events
  refine ⟨fun time => (hrun time).trans (hran time), fun he => ?_, fun heq => absurd heq hf⟩
  exact absurd rfl (hgone.absent _ he)

/-- A timer that waits has not run. -/
lemma OncePlaced.not_ran (h : OncePlaced c) (hwaiting : (k, ⟨deadline, n⟩) ∈ c.timers.entries)
    (time : ℕ) : (n, time) ∉ c.ran :=
  fun hr => h.ran_gone _ hwaiting _ hr rfl

/-- A timer that is dropped is gone. -/
lemma OncePlaced.gone {c' : ClockService} (h : OncePlaced c)
    (hwaiting : (k, ⟨deadline, n⟩) ∈ c.timers.entries) (hhanded : c.handedOver ≤ c'.handedOver)
    (hentries : ∀ e ∈ c'.timers.entries,
      e.2.action = c.handedOver ∨ e ∈ c.timers.entries ∧ e.1 ≠ k) :
    Gone c' n := by
  refine ⟨Nat.lt_of_lt_of_le (h.waiting _ hwaiting) hhanded, fun e he heq => ?_⟩
  rcases hentries e he with hnew | ⟨he, hne⟩
  · exact absurd (hnew.symm.trans heq) (Nat.ne_of_lt (h.waiting _ hwaiting)).symm
  · exact hne (congrArg Prod.fst (h.distinct e he _ hwaiting heq))

/-- The other timers do not matter to one that waits. -/
lemma fate_run (h : OncePlaced c) (hwaiting : (k, ⟨deadline, n⟩) ∈ c.timers.entries)
    (events : List ClockEvent) :
    (∀ time, (n, time) ∈ (c.run events).ran ↔ fate k deadline c.now events = .ran time) ∧
      ((k, ⟨deadline, n⟩) ∈ (c.run events).timers.entries ↔
        fate k deadline c.now events = .waiting) := by
  have hnot := h.not_ran hwaiting
  induction events generalizing c with
  | nil => exact ⟨fun time => ⟨fun hr => absurd hr (hnot time), fun heq => by cases heq⟩,
      fun _ => rfl, fun _ => hwaiting⟩
  | cons event events ih =>
    cases event with
    | wait ns => exact ih (h.step (.wait ns)) hwaiting hnot
    | setTimer playerId tableId ms =>
      simp only [fate]
      by_cases hk : key playerId tableId = k
      · rw [if_pos hk]
        have hgone : Gone (c.setTimer playerId tableId ms) n := by
          refine h.gone hwaiting (Nat.le_succ c.handedOver) fun e he => ?_
          rcases mem_setTimer.mp he with rfl | ⟨he, hne⟩
          · exact Or.inl rfl
          · exact Or.inr ⟨he, hk ▸ hne⟩
        refine hgone.fate (f := .dropped) (by simp) (fun time => ?_) events
        exact ⟨fun hr => absurd hr (hnot time), fun heq => by cases heq⟩
      · rw [if_neg hk]
        exact ih (h.step (.setTimer playerId tableId ms))
          (mem_setTimer.mpr (Or.inr ⟨hwaiting, Ne.symm hk⟩)) hnot
    | clearTimer playerId tableId =>
      simp only [fate]
      by_cases hk : key playerId tableId = k
      · rw [if_pos hk]
        have hgone : Gone (c.clearTimer playerId tableId) n := by
          refine h.gone hwaiting (Nat.le_refl c.handedOver) fun e he => Or.inr ?_
          obtain ⟨he, hne⟩ := mem_clearTimer.mp he
          exact ⟨he, hk ▸ hne⟩
        refine hgone.fate (f := .dropped) (by simp) (fun time => ?_) events
        exact ⟨fun hr => absurd hr (hnot time), fun heq => by cases heq⟩
      · rw [if_neg hk]
        exact ih (h.step (.clearTimer playerId tableId))
          (mem_clearTimer.mpr ⟨hwaiting, Ne.symm hk⟩) hnot
    | tick =>
      simp only [fate]
      by_cases hdue : deadline ≤ c.now
      · -- the callback runs now
        rw [if_pos hdue]
        have hgone : Gone c.tick n := by
          refine ⟨h.waiting _ hwaiting, fun e he heq => ?_⟩
          obtain ⟨he, hlater⟩ := mem_tick.mp he
          obtain rfl := h.distinct e he _ hwaiting heq
          exact absurd hlater (Nat.not_lt_of_le hdue)
        refine hgone.fate (f := .ran c.now) (by simp) (fun time => ?_) events
        refine mem_ran_tick.trans ⟨?_, ?_⟩
        · rintro (hr | ⟨e, -, -, heq⟩)
          · exact absurd hr (hnot time)
          · rw [(Prod.mk.inj heq).2]
        · intro heq
          obtain rfl : c.now = time := Fate.ran.inj heq
          exact Or.inr ⟨_, hwaiting, hdue, rfl⟩
      · rw [if_neg hdue]
        have hlater : c.now < deadline := Nat.lt_of_not_le hdue
        have hplaced := h.tick
        have hstays := mem_tick.mpr ⟨hwaiting, hlater⟩
        exact ih hplaced hstays (hplaced.not_ran hstays)

/-- A callback runs once at most, and it runs, waits or has been dropped just as its own deadline
and the later events with its key say. -/
theorem timer_fate (now actionTimeoutMs : ℕ) (before after : List ClockEvent)
    (playerId tableId : String) (ms : Option ℕ) :
    let c₀ := (ClockService.create now actionTimeoutMs).run before
    let c := c₀.run (.setTimer playerId tableId ms :: after)
    let f := fate (key playerId tableId) (c₀.deadline ms) c₀.now after
    (c.ran.map Prod.fst).Nodup ∧
      (∀ time, (c₀.handedOver, time) ∈ c.ran ↔ f = .ran time) ∧
      ((key playerId tableId, ⟨c₀.deadline ms, c₀.handedOver⟩) ∈ c.timers.entries ↔
        f = .waiting) := by
  intro c₀ c f
  have hplaced := (OncePlaced.create now actionTimeoutMs).run before
  have hset := hplaced.setTimer playerId tableId ms
  refine ⟨(hset.run after).ran_once, ?_⟩
  exact fate_run hset (mem_setTimer.mpr (Or.inl rfl)) after

end Pokerhub.GameClock
