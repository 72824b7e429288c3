import Mathlib.Algebra.Order.Group.Nat
import Mathlib.Data.List.Basic
import Pokerhub.Core.Transition

/-!
# The windows of the collusion job

`CollusionDetectionJob.run` of `collusion.ts` over the stream of game events. A run reads the stream
from the time `lastCheck` on, and when the answer is there it sets `lastCheck` to the clock. What
has come in between is older than that, and no run reads it. As long as nothing comes in between,
every event is examined (`examined_of_onTime`).
-/

namespace Pokerhub

open List TransitionSystem

variable {α : Type*}

/-- An entry of the stream; its id begins with the time of its arrival. -/
structure StreamEntry (α : Type*) where
  ms : ℕ
  event : α
  deriving DecidableEq

/-- A run of the job, with the number of entries there were when it started. -/
inductive CollusionRun where
  /-- It waits for the entries since `since`. -/
  | asked (started since : ℕ)
  /-- The stream, with `upTo` entries by then, has answered; `found` are the places of the entries
  in the answer. -/
  | answered (started upTo : ℕ) (found : List ℕ)
  deriving DecidableEq

structure CollusionJob (α : Type*) where
  /-- The clock, in milliseconds. -/
  now : ℕ
  stream : List (StreamEntry α)
  lastCheck : ℕ
  runs : List CollusionRun := []
  /-- The number of entries when the job was constructed. -/
  base : ℕ
  /-- The places of the entries that a run has gone through. -/
  examined : List ℕ := []
  /-- Entries before this place were there when some complete run started. -/
  covered : ℕ := 0
  deriving DecidableEq

inductive CollusionEvent (α : Type*) where
  | tick (ms : ℕ)
  | arrive (event : α)
  /-- `run` up to its request. -/
  | start
  | answer (i : ℕ)
  /-- `run` from the answer on. -/
  | resume (i : ℕ)
  deriving DecidableEq

/-- `xrange(stream, since-0, +)`, as places in the stream. -/
def xrange (stream : List (StreamEntry α)) (since : ℕ) : List ℕ :=
  (stream.zipIdx.filter fun e => since ≤ e.1.ms).map (·.2)

namespace CollusionJob

/-- The job as it is constructed. -/
def create (now : ℕ) (stream : List (StreamEntry α)) : CollusionJob α where
  now := now
  stream := stream
  lastCheck := now
  base := stream.length

def step (s : CollusionJob α) : CollusionEvent α → CollusionJob α
  | .tick ms => { s with now := s.now + ms }
  | .arrive event => { s with stream := s.stream ++ [⟨s.now, event⟩] }
  | .start => { s with runs := s.runs ++ [.asked s.stream.length s.lastCheck] }
  | .answer i =>
    match s.runs[i]? with
    | some (.asked started since) =>
      { s with
        runs := s.runs.set i (.answered started s.stream.length (xrange s.stream since)) }
    | _ => s
  | .resume i =>
    match s.runs[i]? with
    | some (.answered started _ found) =>
      { s with
        lastCheck := s.now
        runs := s.runs.eraseIdx i
        examined := s.examined ++ found
        covered := max s.covered started }
    | _ => s

/-- What came after the answer is no older than the clock that the run reads now. -/
def OnTime (s : CollusionJob α) : CollusionEvent α → Prop
  | .resume i => ∀ started upTo found, s.runs[i]? = some (.answered started upTo found) →
      ∀ e ∈ s.stream.drop upTo, s.now ≤ e.ms
  | _ => True

/-- Every event that came before the start of a complete run has been examined. -/
def Covered (s : CollusionJob α) : Prop :=
  ∀ k, s.base ≤ k → k < s.covered → k ∈ s.examined

end CollusionJob

/-- The runs of a job: the clock goes on, events come, and the job runs, also while an earlier run
is waiting. -/
def collusionRuns (α : Type*) : TransitionSystem (CollusionJob α) (CollusionEvent α) where
  init s := ∃ now stream, s = .create now stream
  step s event s' := s' = s.step event

namespace CollusionJob

lemma mem_xrange {stream : List (StreamEntry α)} {since k : ℕ} :
    k ∈ xrange stream since ↔ ∃ e, stream[k]? = some e ∧ since ≤ e.ms := by
  simp [xrange, mem_zipIdx_iff_getElem?]

/-! ### What is examined or will be -/

/-- From `since` on the stream holds all that is not examined. -/
def Rest (s : CollusionJob α) (since : ℕ) : Prop :=
  ∀ k e, s.base ≤ k → s.stream[k]? = some e → k ∈ s.examined ∨ since ≤ e.ms

/-- What a run knows while it waits. -/
def Waits (s : CollusionJob α) : CollusionRun → Prop
  | .asked started since => started ≤ s.stream.length ∧ since ≤ s.now ∧ s.Rest since
  | .answered started upTo found => started ≤ upTo ∧
      ∀ k, s.base ≤ k → k < upTo → k ∈ s.examined ∨ k ∈ found

structure Watching (s : CollusionJob α) : Prop where
  clock : s.lastCheck ≤ s.now
  rest : s.Rest s.lastCheck
  waits : ∀ run ∈ s.runs, s.Waits run
  covered : s.Covered

section Step

variable {s s' : CollusionJob α}

lemma Rest.mono {since : ℕ} (h : s.Rest since) (hbase : s'.base = s.base)
    (hstream : s'.stream = s.stream) (hexamined : s.examined ⊆ s'.examined) :
    s'.Rest since := by
  intro k e hk he
  rw [hbase] at hk
  rw [hstream] at he
  exact (h k e hk he).imp_left fun hin => hexamined hin

/-- A new entry has the time of its arrival. -/
lemma Rest.arrive {since : ℕ} (h : s.Rest since) (hsince : since ≤ s.now) (event : α) :
    (s.step (.arrive event)).Rest since := by
  intro k e hk he
  simp only [step] at he hk
  rcases lt_or_ge k s.stream.length with hlt | hge
  · rw [getElem?_append_left hlt] at he
    exact h k e hk he
  · rw [getElem?_append_right hge, getElem?_singleton] at he
    split_ifs at he
    obtain rfl := Option.some.inj he
    exact Or.inr hsince

lemma Waits.mono {run : CollusionRun} (h : s.Waits run) (hbase : s'.base = s.base)
    (hstream : s'.stream = s.stream) (hexamined : s.examined ⊆ s'.examined)
    (hnow : s.now ≤ s'.now) : s'.Waits run := by
  cases run with
  | asked started since =>
    obtain ⟨hstarted, hsince, hrest⟩ := h
    exact ⟨hstream ▸ hstarted, hsince.trans hnow, hrest.mono hbase hstream hexamined⟩
  | answered started upTo found =>
    obtain ⟨hstarted, hfound⟩ := h
    refine ⟨hstarted, fun k hk hlt => ?_⟩
    exact (hfound k (hbase ▸ hk) hlt).imp_left fun hin => hexamined hin

lemma Waits.arrive {run : CollusionRun} (h : s.Waits run) (event : α) :
    (s.step (.arrive event)).Waits run := by
  cases run with
  | asked started since =>
    obtain ⟨hstarted, hsince, hrest⟩ := h
    exact ⟨hstarted.trans (by simp [step]), hsince, hrest.arrive hsince event⟩
  | answered started upTo found => exact h

/-- The answer to a request holds all that is not examined. -/
lemma Waits.answer {started since : ℕ} (h : s.Waits (.asked started since)) :
    s.Waits (.answered started s.stream.length (xrange s.stream since)) := by
  obtain ⟨hstarted, _, hrest⟩ := h
  refine ⟨hstarted, fun k hk hlt => ?_⟩
  have hget : s.stream[k]? = some s.stream[k] := getElem?_eq_getElem hlt
  exact (hrest k _ hk hget).imp_right fun hsince => mem_xrange.mpr ⟨_, hget, hsince⟩

/-- A run that goes on in time leaves nothing behind. -/
theorem Watching.resume (h : s.Watching) {i : ℕ} (hok : s.OnTime (.resume i)) :
    (s.step (.resume i)).Watching := by
  cases hrun : s.runs[i]? with
  | none => simpa [step, hrun] using h
  | some run =>
    cases run with
    | asked started since => simpa [step, hrun] using h
    | answered started upTo found =>
      obtain ⟨hstarted, hfound⟩ := h.waits _ (mem_of_getElem? hrun)
      have hstep : s.step (.resume i) =
          { s with
            lastCheck := s.now
            runs := s.runs.eraseIdx i
            examined := s.examined ++ found
            covered := max s.covered started } := by
        simp [step, hrun]
      rw [hstep]
      refine ⟨le_rfl, fun k e hk he => ?_, fun run hmem => ?_, fun k hk hlt => ?_⟩
      · rcases lt_or_ge k upTo with hlt | hge
        · exact Or.inl (mem_append.mpr (hfound k hk hlt))
        · refine Or.inr (hok started upTo found hrun e ?_)
          refine mem_of_getElem? (i := k - upTo) ?_
          rwa [getElem?_drop, Nat.add_sub_cancel' hge]
      · exact (h.waits run (mem_of_mem_eraseIdx hmem)).mono rfl rfl
          (subset_append_left _ _) le_rfl
      · rcases lt_max_iff.mp hlt with hlt | hlt
        · exact mem_append_left _ (h.covered k hk hlt)
        · exact mem_append.mpr (hfound k hk (hlt.trans_le hstarted))

/-- Every step in time keeps watch. -/
theorem Watching.step (h : s.Watching) (event : CollusionEvent α) (hok : s.OnTime event) :
    (s.step event).Watching := by
  cases event with
  | tick ms =>
    refine ⟨h.clock.trans (Nat.le_add_right _ _), h.rest, fun run hrun => ?_, h.covered⟩
    exact (h.waits run hrun).mono rfl rfl (fun _ hin => hin) (Nat.le_add_right _ _)
  | arrive event =>
    exact ⟨h.clock, h.rest.arrive h.clock event, fun run hrun => (h.waits run hrun).arrive event,
      h.covered⟩
  | start =>
    refine ⟨h.clock, h.rest, fun run hrun => ?_, h.covered⟩
    rcases mem_append.mp hrun with hrun | hrun
    · exact h.waits run hrun
    · obtain rfl := mem_singleton.mp hrun
      exact ⟨le_rfl, h.clock, h.rest⟩
  | answer i =>
    cases hrun : s.runs[i]? with
    | none => simpa [CollusionJob.step, hrun] using h
    | some run =>
      cases run with
      | answered started upTo found => simpa [CollusionJob.step, hrun] using h
      | asked started since =>
        have hanswer := (h.waits _ (mem_of_getElem? hrun)).answer
        simp only [CollusionJob.step, hrun]
        refine ⟨h.clock, h.rest, fun run hmem => ?_, h.covered⟩
        rcases mem_or_eq_of_mem_set hmem with hmem | rfl
        · exact h.waits run hmem
        · exact hanswer
  | resume i => exact h.resume hok

end Step

/-- As long as nothing comes between the answer and the reading of the clock, every event that came
before the start of a complete run has been examined. -/
theorem examined_of_onTime {s : CollusionJob α}
    (h : ((collusionRuns α).restrict OnTime).Reachable s) : s.Covered := by
  have hwatching : s.Watching := by
    refine h.invariant (I := Watching) ?_ ?_
    · rintro _ ⟨now, stream, rfl⟩
      refine ⟨le_rfl, fun k e hk he => ?_, by simp [create], fun k _ hk => absurd hk k.not_lt_zero⟩
      have hlt : k < stream.length := (List.getElem?_eq_some_iff.mp he).1
      exact absurd hk (not_le.mpr hlt)
    · rintro s event _ hi ⟨hok, rfl⟩
      exact hi.step event hok
  exact hwatching.covered

/-- The job after some events. -/
def after (events : List (CollusionEvent α)) : CollusionJob α :=
  events.foldl step (create 0 [])

/-- One event, one run. -/
theorem examined_of_onTime_oneRun :
    (after [.tick 5, .arrive "event", .start, .answer 0, .tick 1, .resume 0]).Covered := by
  have hinit : ((collusionRuns String).restrict OnTime).Reachable (create 0 []) :=
    .of_init ⟨0, [], rfl⟩
  refine examined_of_onTime (Reachable.foldl (fun _ _ => rfl) hinit ?_)
  refine ⟨trivial, trivial, trivial, trivial, trivial, ?_, trivial⟩
  intro started upTo found hrun e he
  have hanswer : some (CollusionRun.answered 1 1 [0]) = some (.answered started upTo found) := hrun
  cases hanswer
  cases he

/-- An event comes between the answer and the reading of the clock, and the next run begins after
it. -/
theorem event_not_examined :
    ¬ ∀ s : CollusionJob String, (collusionRuns String).Reachable s → s.Covered := by
  intro h
  have hinit : ((collusionRuns String).restrict fun _ _ => True).Reachable (create 0 []) :=
    .of_init ⟨0, [], rfl⟩
  have hreach := Reachable.foldl (fun _ _ => rfl) hinit (along_true (create 0 [])
    [.tick 5, .start, .answer 0, .arrive "event", .tick 1, .resume 0, .start, .answer 0,
      .resume 0])
  exact absurd (h _ hreach.of_restrict 0 (by decide) (by decide)) (by decide)

end CollusionJob

end Pokerhub
