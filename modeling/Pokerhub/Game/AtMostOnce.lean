import Mathlib.Data.List.Perm.Basic
import Pokerhub.Core.Stages
import Pokerhub.Game.Gateway

/-!
# Action ids

An action id is read from the action hash, and if it is new it is written there before the action
is played. Between the two other handlers run. As long as no handler reads an id that another one
has read and is about to write or to trim, `engine.applyAction` is called at most once for an id in
24 h (`at_most_once`); two deliveries that both read first are both played.
-/

namespace Pokerhub

open GatewayConfig List Program

/-! ### The condition -/

/-- The next write of the program to the action hash writes or deletes the field. -/
def Writes (config : GatewayConfig) (field : String) : GatewayM Unit → Prop
  | .call (.hset actionId _) _ => config.hashAction actionId = field
  | .call (.hdel fields) _ => fields field
  | .call (.enqueue _ _) next => Writes config field (next (some ()))
  | _ => False

/-- The command reads the field; the trimming reads those that it may delete. -/
def Reads (config : GatewayConfig) (s : Gateway) (field : String) : GatewayCmd → Prop
  | .hget actionId => config.hashAction actionId = field
  | .hgetall => ∃ time ∈ s.actionHash field, time + actionRetentionMs < s.now
  | _ => False

/-- What is read in the action hash is not about to be written by a handler that has read it. -/
def Undisturbed (config : GatewayConfig)
    (P : Pool GatewayCmd.Answer String Unit Gateway GatewayCall) :
    Service.Action GatewayCall GatewayCmd → Prop
  | .call _ c => ∀ field, Reads config P.state field c → ∀ t ∈ P.threads, ¬ Writes config field t.2
  | _ => True

/-- The calls of `engine.applyAction`, each with the time at which its id was recorded. -/
def Gateway.calls (s : Gateway) : List (ActionId × ℕ) :=
  s.trace.filterMap fun
    | .called actionId time _ _ _ => some (actionId, time)
    | _ => none

/-- The calls for an action id that was recorded in the 24 h from `start` on. -/
def Gateway.callsWithin (s : Gateway) (actionId : ActionId) (start : ℕ) : List (ActionId × ℕ) :=
  s.calls.filter fun call =>
    call.1 = actionId ∧ start ≤ call.2 ∧ call.2 < start + actionRetentionMs

/-! ### The stages of a handler -/

inductive DedupStage where
  /-- Nothing read that would be written. -/
  | idle
  /-- The id was new at `time`, and will be recorded. -/
  | recording (actionId : ActionId) (time : ℕ)
  | recorded (actionId : ActionId) (time : ℕ)
  /-- The trimming has not read the clock yet. -/
  | trimmer
  | threshold (now : ℕ)
  | trimming (fields : String → Bool)

/-- The commands on the action hash, and the call of the engine. -/
def GatewayCmd.deduplicates : GatewayCmd → Bool
  | .hget _ | .hset _ _ | .hgetall | .hdel _ | .applyAction .. => true
  | _ => false

/-- The old entries. -/
def oldFields (entries : String → Option ℕ) (now : ℕ) (field : String) : Bool :=
  (entries field).any fun time => decide (time + actionRetentionMs < now)

lemma lt_of_oldFields {entries : String → Option ℕ} {now t : ℕ} {field : String}
    (h : oldFields entries now field) (ht : entries field = some t) :
    t + actionRetentionMs < now := by
  unfold oldFields at h
  rw [ht, Option.any_some] at h
  exact of_decide_eq_true h

def dedupAllowed : DedupStage → GatewayCmd → Prop
  | .idle, .hget _ => True
  | .idle, c => c.deduplicates = false
  | .recording actionId time, .hset actionId' time' => actionId' = actionId ∧ time' = time
  | .recording _ _, .enqueue _ _ => True
  | .recording _ _, _ => False
  | .recorded actionId time, .applyAction _ actionId' time' _ => actionId' = actionId ∧ time' = time
  | .recorded _ _, c => c.deduplicates = false
  | .trimmer, c => c = .clock
  | .threshold _, c => c = .hgetall
  | .trimming fields, c => c = .hdel fields

def dedupNext : DedupStage → (c : GatewayCmd) → Option c.Answer → DedupStage
  | .idle, .hget actionId, some (existing, now) =>
    if fresh existing now then .idle else .recording actionId now
  | .recording actionId time, .enqueue _ _, some _ => .recording actionId time
  | .recording actionId time, .hset _ _, some _ => .recorded actionId time
  | .recorded _ _, .applyAction .., _ => .idle
  | .recorded actionId time, _, _ => .recorded actionId time
  | .trimmer, .clock, some now => .threshold now
  | .threshold now, .hgetall, some entries => .trimming (oldFields entries now)
  | _, _, _ => .idle

def dedup : Discipline GatewayCmd.Answer DedupStage where
  allowed := dedupAllowed
  next := dedupNext

/-- A handler does not end before it has written what it read. -/
def Written (_ : Except String Unit) : DedupStage → Prop
  | .idle | .recorded _ _ => True
  | _ => False

/-! ### The handlers keep to it -/

section Handlers

variable {config : GatewayConfig} {client : GameSocket} {actionId : ActionId} {l : DedupStage}

/-- The command leaves the action ids alone. -/
abbrev Plain (c : GatewayCmd) : Prop :=
  c.deduplicates = false

lemma uses_plain {c : GatewayCmd} (hc : Plain c) : (gatewayRun c).Uses Plain :=
  uses_gatewayRun hc

lemma uses_plain_bind {α : Type} {c : GatewayCmd} {f : c.Answer → GatewayM α}
    (hc : Plain c) (hf : ∀ a, (f a).Uses Plain) : (gatewayRun c >>= f).Uses Plain :=
  uses_gatewayRun_bind hc hf

/-- What the handlers have in common leaves the action ids alone. -/
lemma uses_plain_of_common {α : Type} {p : GatewayM α} (h : p.Uses (·.Common)) : p.Uses Plain :=
  h.mono fun c hc => by cases c <;> first | rfl | cases hc

/-- So does what follows an accepted action. -/
lemma uses_plain_of_finishes {α : Type} {p : GatewayM α} (h : p.Uses (·.Finishes)) :
    p.Uses Plain :=
  h.mono fun c hc => by cases c <;> first | rfl | cases hc

/-- A program without commands on action ids, at the stages that allow them. -/
lemma follows_plain {α : Type} {Q : Except String α → DedupStage → Prop} {p : GatewayM α}
    (huses : p.Uses Plain) (hl : Written (.ok ()) l) (hQ : ∀ r, Q r l) : p.Follows dedup Q l := by
  apply follows_of_uses huses
  · intro c hc
    cases l <;> cases c <;> first | exact hc | exact hl.elim | cases hc
  · intro c a hc
    cases l <;> cases c <;> first | rfl | exact hl.elim | cases hc
  · exact hQ

/-- A plain program, and what comes after it. -/
lemma follows_plain_bind {α : Type} {p : GatewayM α} {f : α → GatewayM Unit}
    (huses : p.Uses Plain) (hl : Written (.ok ()) l)
    (hf : ∀ a, (f a).Follows dedup Written l) : (p >>= f).Follows dedup Written l := by
  apply follows_bind
  apply follows_plain huses hl
  rintro (e | a)
  · exact hl
  · exact hf a

lemma follows_playAction (wire : WireGameAction) (time : ℕ) :
    (playAction client actionId time wire).Follows dedup Written (.recorded actionId time) := by
  refine follows_plain_bind (uses_plain_of_common (uses_stopTimer _)) trivial ?_
  intro _
  refine follows_plain_bind (uses_plain_of_common (uses_flagOff _)) trivial ?_
  intro dealing
  split_ifs
  · exact follows_plain (uses_plain_of_common (uses_refuse _)) trivial fun _ => trivial
  · refine follows_plain_bind (uses_plain_of_common (uses_flagOff _)) trivial ?_
    intro settlement
    split_ifs
    · exact follows_plain (uses_plain_of_common (uses_refuse _)) trivial fun _ => trivial
    · apply follows_command_bind
      · exact ⟨rfl, rfl⟩
      · rintro (_ | message | ⟨state, tick⟩)
        · exact follows_plain (uses_plain_of_common (uses_refuse _)) trivial fun _ => trivial
        · exact follows_plain (uses_plain_of_common (uses_refuse _)) trivial fun _ => trivial
        · exact follows_plain (uses_plain_of_finishes (uses_finishAction _ _ _)) trivial fun _ => trivial
      · trivial

/-- The check for duplicates. -/
lemma follows_hget {f : Option ℕ × ℕ → GatewayM Unit}
    (hknown : ∀ existing now, fresh existing now = true →
      (f (existing, now)).Follows dedup Written .idle)
    (hnew : ∀ existing now, fresh existing now = false →
      (f (existing, now)).Follows dedup Written (.recording actionId now)) :
    (gatewayRun (.hget actionId) >>= f).Follows dedup Written .idle := by
  apply follows_command_bind
  · trivial
  · rintro ⟨existing, now⟩
    simp only [dedup, dedupNext]
    split_ifs with hfresh
    · exact hknown existing now hfresh
    · exact hnew existing now (by simpa using hfresh)
  · trivial

lemma follows_deduplicate (wire : WireGameAction) :
    (deduplicate client actionId wire).Follows dedup Written .idle := by
  apply follows_hget
  · intro existing now hfresh
    simp only [hfresh, if_true]
    exact follows_plain (uses_plain rfl) trivial fun _ => trivial
  · intro existing now hfresh
    simp only [hfresh, Bool.false_eq_true, if_false]
    apply follows_command_bind
    · exact ⟨rfl, rfl⟩
    · exact fun _ => follows_playAction wire now
    · trivial

lemma follows_acknowledge (event : SeatEvent) :
    (acknowledge client event actionId).Follows dedup Written .idle := by
  apply follows_hget
  · intro existing now hfresh
    simp only [hfresh, if_true]
    exact follows_plain (uses_plain rfl) trivial fun _ => trivial
  · intro existing now hfresh
    simp only [hfresh, Bool.false_eq_true, if_false]
    apply follows_command_bind
    · trivial
    · intro _
      apply follows_command
      · exact ⟨rfl, rfl⟩
      · exact fun _ => trivial
      · trivial
    · trivial

lemma follows_trim : trimActionHashes.Follows dedup Written .trimmer := by
  apply follows_command_bind
  · rfl
  · intro now
    apply follows_command_bind
    · rfl
    · intro entries
      apply follows_command
      · rfl
      · exact fun _ => trivial
      · trivial
    · trivial
  · trivial

/-- The calls that read no action id. -/
def GatewayCall.Idless : GatewayCall → Bool
  | .timeout _ _ | .message _ (.proof _) | .message _ .replay | .message _ (.resume _) => true
  | _ => false

lemma uses_plain_of_idless {r : GatewayCall} (hr : r.Idless) : (r.body config).Uses Plain := by
  apply (uses_body r).mono
  intro c hc
  cases r with
  | trim => cases hr
  | timeout playerId tableId => cases c <;> first | rfl | cases hc
  | message client message =>
    cases message with
    | action actionId rest => cases hr
    | seat event actionId => cases hr
    | _ => cases c <;> first | rfl | cases hc

/-- The stage at which a call starts. -/
def firstStage : GatewayCall → DedupStage
  | .trim => .trimmer
  | _ => .idle

/-- Every call keeps to the discipline. -/
lemma follows_body (r : GatewayCall) : (r.body config).Follows dedup Written (firstStage r) := by
  have hplain : ∀ {p : GatewayM Unit}, p.Uses Plain → p.Follows dedup Written .idle :=
    fun huses => follows_plain huses trivial fun _ => trivial
  cases r with
  | trim => exact follows_trim
  | timeout playerId tableId => exact hplain (uses_plain_of_idless rfl)
  | message client message =>
    cases message with
    | proof handId => exact hplain (uses_plain_of_idless (r := .message client (.proof handId)) rfl)
    | replay => exact hplain (uses_plain_of_idless (r := .message client .replay) rfl)
    | resume tick => exact hplain (uses_plain_of_idless (r := .message client (.resume tick)) rfl)
    | seat event actionId =>
      refine follows_plain_bind (uses_plain_of_common uses_isRateLimited) trivial ?_
      intro limited
      cases limited with
      | true => trivial
      | false => exact follows_acknowledge event
    | action actionId rest =>
      refine follows_plain_bind (uses_plain_of_common uses_isRateLimited) trivial ?_
      intro limited
      cases limited with
      | true => trivial
      | false =>
        rw [if_neg Bool.false_ne_true]
        cases parseAction rest with
        | none => exact hplain (uses_plain_bind rfl fun _ => trivial)
        | some wire =>
          refine follows_plain_bind (uses_plain rfl) trivial ?_
          intro expected
          split_ifs
          · exact hplain (uses_plain_of_common (uses_refuse _))
          · exact follows_deduplicate wire

end Handlers

/-! ### The invariant -/

section Invariant

variable {config : GatewayConfig} {s s' : Gateway} {ls ls' : List (GatewayCall × DedupStage)}
  {r : GatewayCall} {l : DedupStage} {actionId : ActionId} {time : ℕ}

/-- The field that is recorded and still to be played, with its time. -/
def DedupStage.toPlay (config : GatewayConfig) : DedupStage → Option (String × ℕ)
  | .recorded actionId time => some (config.hashAction actionId, time)
  | _ => none

def DedupStage.toRecord (config : GatewayConfig) : DedupStage → Option (String × ℕ)
  | .recording actionId time => some (config.hashAction actionId, time)
  | _ => none

/-- What was played, or is recorded and still to be played. -/
def plays (config : GatewayConfig) (s : Gateway) (ls : List (GatewayCall × DedupStage)) :
    List (String × ℕ) :=
  s.calls.map (fun call => (config.hashAction call.1, call.2)) ++
    ls.filterMap fun rl => rl.2.toPlay config

/-- What is about to be recorded. -/
def records (config : GatewayConfig) (ls : List (GatewayCall × DedupStage)) :
    List (String × ℕ) :=
  ls.filterMap fun rl => rl.2.toRecord config

/-- Not in the same 24 h. -/
def DayApart (x y : String × ℕ) : Prop :=
  x.1 = y.1 → x.2 + actionRetentionMs ≤ y.2 ∨ y.2 + actionRetentionMs ≤ x.2

lemma DayApart.symm {x y : String × ℕ} (h : DayApart x y) : DayApart y x :=
  fun heq => (h heq.symm).symm

/-- Everything played has its entry in the action hash for 24 h, and nothing that was read as new
was played in the last 24 h. -/
structure DedupInv (config : GatewayConfig) (s : Gateway)
    (ls : List (GatewayCall × DedupStage)) : Prop where
  past : ∀ field, ∀ t ∈ s.actionHash field, t ≤ s.now
  covered : ∀ x ∈ plays config s ls,
    (∃ t ∈ s.actionHash x.1, x.2 ≤ t) ∨ x.2 + actionRetentionMs ≤ s.now
  apart : (plays config s ls).Pairwise DayApart
  new : ∀ y ∈ records config ls,
    y.2 ≤ s.now ∧ ∀ x ∈ plays config s ls, x.1 = y.1 → x.2 + actionRetentionMs ≤ y.2
  single : ((records config ls).map Prod.fst).Nodup
  threshold : ∀ rl ∈ ls, ∀ now, rl.2 = .threshold now → now ≤ s.now
  trimming : ∀ rl ∈ ls, ∀ fields, rl.2 = .trimming fields → ∀ field, fields field →
    (∀ t ∈ s.actionHash field, t + actionRetentionMs ≤ s.now) ∧
      field ∉ (records config ls).map Prod.fst

lemma plays_perm (h : ls ~ ls') : plays config s ls ~ plays config s ls' :=
  (h.filterMap _).append_left _

lemma records_perm (h : ls ~ ls') : records config ls ~ records config ls' :=
  h.filterMap _

/-- The order of the stages does not matter. -/
lemma DedupInv.perm (h : DedupInv config s ls) (hperm : ls ~ ls') : DedupInv config s ls' where
  past := h.past
  covered x hx := h.covered x ((plays_perm hperm).mem_iff.mpr hx)
  apart := (plays_perm hperm).pairwise h.apart DayApart.symm
  new y hy := by
    obtain ⟨hpast, hnew⟩ := h.new y ((records_perm hperm).mem_iff.mpr hy)
    exact ⟨hpast, fun x hx => hnew x ((plays_perm hperm).mem_iff.mpr hx)⟩
  single := ((records_perm hperm).map Prod.fst).nodup_iff.mp h.single
  threshold rl hrl := h.threshold rl (hperm.mem_iff.mpr hrl)
  trimming rl hrl fields hl field hfield := by
    obtain ⟨hold, hfree⟩ := h.trimming rl (hperm.mem_iff.mpr hrl) fields hl field hfield
    exact ⟨hold, fun hmem => hfree (((records_perm hperm).map Prod.fst).mem_iff.mpr hmem)⟩

/-- Only the action hash, the clock and the calls matter. -/
lemma DedupInv.congr (h : DedupInv config s ls) (hhash : s'.actionHash = s.actionHash)
    (hnow : s.now ≤ s'.now) (hcalls : s'.calls = s.calls) : DedupInv config s' ls := by
  have hplays : plays config s' ls = plays config s ls := by rw [plays, hcalls, plays]
  constructor
  · intro field t ht
    rw [hhash] at ht
    exact (h.past field t ht).trans hnow
  · intro x hx
    rw [hplays] at hx
    rw [hhash]
    exact (h.covered x hx).imp_right fun hold => hold.trans hnow
  · rw [hplays]
    exact h.apart
  · intro y hy
    rw [hplays]
    exact ⟨(h.new y hy).1.trans hnow, (h.new y hy).2⟩
  · exact h.single
  · exact fun rl hrl now hl => (h.threshold rl hrl now hl).trans hnow
  · intro rl hrl fields hl field hfield
    obtain ⟨hold, hfree⟩ := h.trimming rl hrl fields hl field hfield
    rw [hhash]
    exact ⟨fun t ht => (hold t ht).trans hnow, hfree⟩

/-- A stage that is no threshold takes the place of another one. -/
lemma DedupInv.thresholds {l' : DedupStage} (h : DedupInv config s ((r, l) :: ls))
    (hne : ∀ now, l' ≠ .threshold now) :
    ∀ rl ∈ (r, l') :: ls, ∀ now, rl.2 = .threshold now → now ≤ s.now := by
  intro rl hrl now hl
  rcases mem_cons.mp hrl with rfl | hrl
  · exact absurd hl (hne now)
  · exact h.threshold rl (mem_cons_of_mem _ hrl) now hl

/-- A stage is left, with nothing more to record or to play. -/
lemma DedupInv.leave (h : DedupInv config s ((r, l) :: ls)) :
    DedupInv config s ((r, .idle) :: ls) := by
  have hplays : plays config s ((r, .idle) :: ls) <+ plays config s ((r, l) :: ls) :=
    ((sublist_cons_self _ _).filterMap _).append_left _
  have hrecords : records config ((r, .idle) :: ls) <+ records config ((r, l) :: ls) :=
    (sublist_cons_self _ _).filterMap _
  constructor
  · exact h.past
  · exact fun x hx => h.covered x (hplays.subset hx)
  · exact h.apart.sublist hplays
  · intro y hy
    obtain ⟨hpast, hnew⟩ := h.new y (hrecords.subset hy)
    exact ⟨hpast, fun x hx => hnew x (hplays.subset hx)⟩
  · exact h.single.sublist (hrecords.map _)
  · exact h.thresholds (by simp)
  · intro rl hrl fields hl field hfield
    rcases mem_cons.mp hrl with rfl | hrl
    · cases hl
    · obtain ⟨hold, hfree⟩ := h.trimming rl (mem_cons_of_mem _ hrl) fields hl field hfield
      exact ⟨hold, fun hmem => hfree ((hrecords.map _).subset hmem)⟩

/-- An id is read that is not in the hash, or that is there for 24 h. -/
lemma DedupInv.hget (h : DedupInv config s ((r, .idle) :: ls))
    (hnew : fresh (s.actionHash (config.hashAction actionId)) s.now = false)
    (hrecords : config.hashAction actionId ∉ (records config ls).map Prod.fst)
    (htrims : ∀ rl ∈ ls, ∀ fields, rl.2 = .trimming fields →
      ¬ fields (config.hashAction actionId)) :
    DedupInv config s ((r, .recording actionId s.now) :: ls) := by
  have hold : ∀ t ∈ s.actionHash (config.hashAction actionId), t + actionRetentionMs ≤ s.now := by
    intro t ht
    rw [Option.mem_def] at ht
    simp only [fresh, ht, Option.any_some, decide_eq_false_iff_not, not_lt] at hnew
    have := h.past _ t ht
    omega
  constructor
  · exact h.past
  · exact h.covered
  · exact h.apart
  · intro y hy
    rcases mem_cons.mp hy with rfl | hy
    · refine ⟨le_rfl, fun x hx hfield => ?_⟩
      rcases h.covered x hx with ⟨t, ht, hle⟩ | hpast
      · rw [hfield] at ht
        exact (Nat.add_le_add_right hle _).trans (hold t ht)
      · exact hpast
    · exact h.new y hy
  · exact nodup_cons.mpr ⟨hrecords, h.single⟩
  · exact h.thresholds (by simp)
  · intro rl hrl fields hl field hfield
    rcases mem_cons.mp hrl with rfl | hrl
    · cases hl
    · obtain ⟨hhash, hfree⟩ := h.trimming rl (mem_cons_of_mem _ hrl) fields hl field hfield
      refine ⟨hhash, fun hmem => ?_⟩
      rcases mem_cons.mp hmem with rfl | hmem
      · exact htrims rl hrl fields hl hfield
      · exact hfree hmem

/-- The id is recorded. -/
lemma DedupInv.hset (h : DedupInv config s ((r, .recording actionId time) :: ls))
    (hself : s'.actionHash (config.hashAction actionId) = some time)
    (hothers : ∀ field, field ≠ config.hashAction actionId →
      s'.actionHash field = s.actionHash field)
    (hnow : s'.now = s.now) (hcalls : s'.calls = s.calls) :
    DedupInv config s' ((r, .recorded actionId time) :: ls) := by
  obtain ⟨hpast, hnew⟩ := h.new (config.hashAction actionId, time) mem_cons_self
  obtain ⟨hother, hsingle⟩ := nodup_cons.mp h.single
  have hplays : plays config s' ((r, .recorded actionId time) :: ls) ~
      (config.hashAction actionId, time) :: plays config s ls := by
    rw [plays, hcalls]
    exact perm_middle
  constructor
  · intro field t ht
    rw [hnow]
    by_cases hfield : field = config.hashAction actionId
    · rw [hfield, hself] at ht
      cases ht
      exact hpast
    · rw [hothers field hfield] at ht
      exact h.past field t ht
  · intro x hx
    rw [hnow]
    by_cases hfield : x.1 = config.hashAction actionId
    · left
      refine ⟨time, by rw [hfield, hself]; rfl, ?_⟩
      rcases mem_cons.mp (hplays.mem_iff.mp hx) with rfl | hx
      · exact le_rfl
      · exact (Nat.le_add_right _ _).trans (hnew x hx hfield)
    · rw [hothers _ hfield]
      rcases mem_cons.mp (hplays.mem_iff.mp hx) with rfl | hx
      · exact absurd rfl hfield
      · exact h.covered x hx
  · refine hplays.symm.pairwise (pairwise_cons.mpr ⟨fun x hx hfield => ?_, h.apart⟩) DayApart.symm
    exact Or.inr (hnew x hx hfield.symm)
  · intro y hy
    obtain ⟨hle, hbefore⟩ := h.new y (mem_cons_of_mem _ hy)
    rw [hnow]
    refine ⟨hle, fun x hx hfield => ?_⟩
    rcases mem_cons.mp (hplays.mem_iff.mp hx) with rfl | hx
    · exact absurd (mem_map.mpr ⟨y, hy, hfield.symm⟩) hother
    · exact hbefore x hx hfield
  · exact hsingle
  · rw [hnow]
    exact h.thresholds (by simp)
  · intro rl hrl fields hl field hfield
    rw [hnow]
    rcases mem_cons.mp hrl with rfl | hrl
    · cases hl
    · obtain ⟨hold, hfree⟩ := h.trimming rl (mem_cons_of_mem _ hrl) fields hl field hfield
      have hne : field ≠ config.hashAction actionId := by
        rintro rfl
        exact hfree mem_cons_self
      rw [hothers field hne]
      exact ⟨hold, fun hmem => hfree (mem_cons_of_mem _ hmem)⟩

/-- The engine is called. -/
lemma DedupInv.play (h : DedupInv config s ((r, .recorded actionId time) :: ls))
    (hhash : s'.actionHash = s.actionHash) (hnow : s'.now = s.now)
    (hcalls : s'.calls = s.calls ++ [(actionId, time)]) :
    DedupInv config s' ((r, .idle) :: ls) := by
  have hplays : plays config s' ((r, .idle) :: ls) =
      plays config s ((r, .recorded actionId time) :: ls) := by
    simp [plays, hcalls, DedupStage.toPlay]
  constructor
  · rw [hhash, hnow]
    exact h.past
  · rw [hplays, hhash, hnow]
    exact h.covered
  · rw [hplays]
    exact h.apart
  · rw [hplays, hnow]
    exact h.new
  · exact h.single
  · rw [hnow]
    exact h.thresholds (by simp)
  · intro rl hrl fields hl field hfield
    rw [hhash, hnow]
    rcases mem_cons.mp hrl with rfl | hrl
    · cases hl
    · exact h.trimming rl (mem_cons_of_mem _ hrl) fields hl field hfield

/-- The trimming has read the clock. -/
lemma DedupInv.clock (h : DedupInv config s ((r, .trimmer) :: ls)) :
    DedupInv config s ((r, .threshold s.now) :: ls) where
  past := h.past
  covered := h.covered
  apart := h.apart
  new := h.new
  single := h.single
  threshold rl hrl now hl := by
    rcases mem_cons.mp hrl with rfl | hrl
    · cases hl
      exact le_rfl
    · exact h.threshold rl (mem_cons_of_mem _ hrl) now hl
  trimming rl hrl fields hl field hfield := by
    rcases mem_cons.mp hrl with rfl | hrl
    · cases hl
    · exact h.trimming rl (mem_cons_of_mem _ hrl) fields hl field hfield

/-- The trimming has read the hash. -/
lemma DedupInv.hgetall {now : ℕ} (h : DedupInv config s ((r, .threshold now) :: ls))
    (hrecords : ∀ field, oldFields s.actionHash now field →
      field ∉ (records config ls).map Prod.fst) :
    DedupInv config s ((r, .trimming (oldFields s.actionHash now)) :: ls) where
  past := h.past
  covered := h.covered
  apart := h.apart
  new := h.new
  single := h.single
  threshold := h.thresholds (by simp)
  trimming rl hrl fields hl field hfield := by
    rcases mem_cons.mp hrl with rfl | hrl
    · cases hl
      refine ⟨fun t ht => ?_, hrecords field hfield⟩
      exact (lt_of_oldFields hfield ht).le.trans (h.threshold _ mem_cons_self now rfl)
    · exact h.trimming rl (mem_cons_of_mem _ hrl) fields hl field hfield

/-- The old entries are deleted. -/
lemma DedupInv.hdel {fields : String → Bool} (h : DedupInv config s ((r, .trimming fields) :: ls))
    (hhash : ∀ field, s'.actionHash field = if fields field then none else s.actionHash field)
    (hnow : s'.now = s.now) (hcalls : s'.calls = s.calls) :
    DedupInv config s' ((r, .idle) :: ls) := by
  have hplays : plays config s' ((r, .idle) :: ls) = plays config s ls := by
    simp [plays, hcalls, DedupStage.toPlay]
  have hkept : ∀ field, ∀ t ∈ s'.actionHash field, t ∈ s.actionHash field := by
    intro field t ht
    rw [hhash] at ht
    split_ifs at ht
    · cases ht
    · exact ht
  constructor
  · intro field t ht
    rw [hnow]
    exact h.past field t (hkept field t ht)
  · intro x hx
    rw [hnow, hhash]
    rw [hplays] at hx
    rcases h.covered x hx with ⟨t, ht, hle⟩ | hpast
    · split_ifs with hfield
      · have hold := (h.trimming _ mem_cons_self fields rfl x.1 hfield).1 t ht
        exact Or.inr ((Nat.add_le_add_right hle _).trans hold)
      · exact Or.inl ⟨t, ht, hle⟩
    · exact Or.inr hpast
  · rw [hplays]
    exact h.apart
  · rw [hplays, hnow]
    exact h.new
  · exact h.single
  · rw [hnow]
    exact h.thresholds (by simp)
  · intro rl hrl fields' hl field hfield
    rw [hnow]
    rcases mem_cons.mp hrl with rfl | hrl
    · cases hl
    · obtain ⟨hold, hfree⟩ := h.trimming rl (mem_cons_of_mem _ hrl) fields' hl field hfield
      exact ⟨fun t ht => hold t (hkept field t ht), hfree⟩

end Invariant

/-! ### The commands keep it -/

section Commands

variable {config : GatewayConfig} {s s' : Gateway} {ls : List (GatewayCall × DedupStage)}
  {r : GatewayCall} {l : DedupStage} {c : GatewayCmd}

/-- The action hash, the clock and the calls are the same. -/
structure SameIds (s s' : Gateway) : Prop where
  actionHash : s'.actionHash = s.actionHash
  now : s'.now = s.now
  calls : s'.calls = s.calls

lemma SameIds.enqueue (n : ℕ) (clientId : String) (event : ServerEvent) :
    SameIds s (s.enqueue n clientId event) := by
  unfold Gateway.enqueue
  split_ifs <;> exact ⟨rfl, rfl, rfl⟩

lemma calls_log (s : Gateway) (event : GatewayEvent) :
    (s.log event).calls = s.calls ++ [event].filterMap fun
      | .called actionId time _ _ _ => some (actionId, time)
      | _ => none :=
  filterMap_append

lemma SameIds.roomApply (playerId : PlayerId) (tableId : TableId) :
    SameIds s (GatewayCmd.execRoomApply config s playerId tableId).2 := by
  have hlog : SameIds s (s.log (.timedOut playerId tableId)) :=
    ⟨rfl, rfl, (calls_log _ _).trans (append_nil _)⟩
  unfold GatewayCmd.execRoomApply
  dsimp only
  split_ifs
  · split
    · exact ⟨hlog.actionHash, hlog.now, hlog.calls⟩
    · exact ⟨hlog.actionHash, hlog.now, hlog.calls⟩
  · exact hlog

/-- A plain command leaves them as they are. -/
lemma sameIds_exec (hc : Plain c) (s : Gateway) : SameIds s (c.exec config s).2 := by
  cases c with
  | hget | hset | hgetall | hdel | applyAction => cases hc
  | enqueue clientId event => exact .enqueue _ _ _
  | sendReplay clientId state => exact .enqueue _ _ _
  | roomApply playerId tableId => exact .roomApply _ _
  | saveHand tableId =>
    simp only [GatewayCmd.exec]
    split <;> exact ⟨rfl, rfl, rfl⟩
  | spectate tableId tick =>
    simp only [GatewayCmd.exec]
    split
    · exact ⟨rfl, rfl, rfl⟩
    · exact ⟨rfl, rfl, (calls_log _ _).trans (append_nil _)⟩
  | broadcast tableId payload tick => exact ⟨rfl, rfl, (calls_log _ _).trans (append_nil _)⟩
  | roomResume tableId clientId since => exact ⟨rfl, rfl, (calls_log _ _).trans (append_nil _)⟩
  | _ => exact ⟨rfl, rfl, rfl⟩

lemma DedupInv.same (h : DedupInv config s ls) (hsame : SameIds s s') : DedupInv config s' ls :=
  h.congr hsame.actionHash hsame.now.ge hsame.calls

/-- The call of the engine is logged, if there is an engine. -/
lemma execApplyAction_cases (clientId : String) (actionId : ActionId) (time : ℕ)
    (wire : WireGameAction) (s : Gateway) :
    SameIds s (GatewayCmd.execApplyAction config s clientId actionId time wire).2 ∨
      ((GatewayCmd.execApplyAction config s clientId actionId time wire).2.actionHash =
          s.actionHash ∧
        (GatewayCmd.execApplyAction config s clientId actionId time wire).2.now = s.now ∧
        (GatewayCmd.execApplyAction config s clientId actionId time wire).2.calls =
          s.calls ++ [(actionId, time)]) := by
  unfold GatewayCmd.execApplyAction
  split
  · exact Or.inl ⟨rfl, rfl, rfl⟩
  · right
    split
    · exact ⟨rfl, rfl, calls_log _ _⟩
    · rename_i engine _ _ state engine' _
      dsimp only
      generalize hlog : ({ s with tick := s.tick + 1 }.setEngine wire.tableId engine').log
        (.called actionId time wire.tableId wire.action true) = s₁
      have hcalls : s₁.calls = s.calls ++ [(actionId, time)] := by
        rw [← hlog]
        exact calls_log _ _
      have hsent := @SameIds.enqueue s₁ config.queueLimit clientId
        (.state (sanitize state wire.action.actingPlayerId s.now) (s.tick + 1))
      refine ⟨?_, ?_, ?_⟩
      · exact hsent.actionHash.trans (by rw [← hlog]; rfl)
      · exact hsent.now.trans (by rw [← hlog]; rfl)
      · exact ((calls_log _ _).trans (append_nil _)).trans (hsent.calls.trans hcalls)

/-- Nothing that is read is about to be written. -/
def ReadsFree (config : GatewayConfig) (s : Gateway) (ls : List (GatewayCall × DedupStage)) :
    Service.Action GatewayCall GatewayCmd → Prop
  | .call _ c => ∀ field, Reads config s field c → field ∉ (records config ls).map Prod.fst ∧
      ∀ rl ∈ ls, ∀ fields, rl.2 = .trimming fields → ¬ fields field
  | _ => True

lemma ReadsFree.perm {ls' : List (GatewayCall × DedupStage)} {a : Service.Action GatewayCall GatewayCmd}
    (h : ReadsFree config s ls a) (hperm : ls ~ ls') : ReadsFree config s ls' a := by
  cases a with
  | call r c =>
    intro field hreads
    obtain ⟨hrecords, htrims⟩ := h field hreads
    refine ⟨fun hmem => hrecords (((records_perm hperm).map Prod.fst).mem_iff.mpr hmem), ?_⟩
    exact fun rl hrl => htrims rl (hperm.mem_iff.mpr hrl)
  | _ => trivial

lemma dedupNext_known {actionId : ActionId} {existing : Option ℕ} {now : ℕ}
    (h : fresh existing now = true) :
    dedupNext .idle (.hget actionId) (some (existing, now)) = .idle :=
  if_pos h

lemma dedupNext_new {actionId : ActionId} {existing : Option ℕ} {now : ℕ}
    (h : fresh existing now = false) :
    dedupNext .idle (.hget actionId) (some (existing, now)) = .recording actionId now :=
  if_neg (by rw [h]; exact Bool.false_ne_true)

lemma dedupNext_plain (hc : Plain c) (hl : Written (.ok ()) l) (a : Option c.Answer) :
    dedupNext l c a = l := by
  cases l <;> cases c <;> first | rfl | exact hl.elim | cases hc

lemma dedupAllowed_plain (hl : Written (.ok ()) l) (hallowed : dedupAllowed l c) :
    Plain c ∨ (∃ actionId, l = .idle ∧ c = .hget actionId) ∨
      ∃ actionId time clientId wire, l = .recorded actionId time ∧
        c = .applyAction clientId actionId time wire := by
  cases l with
  | idle =>
    cases c with
    | hget actionId => exact Or.inr (Or.inl ⟨actionId, rfl, rfl⟩)
    | _ => exact Or.inl hallowed
  | recorded actionId time =>
    cases c with
    | applyAction clientId actionId' time' wire =>
      obtain ⟨rfl, rfl⟩ := hallowed
      exact Or.inr (Or.inr ⟨_, _, _, _, rfl, rfl⟩)
    | _ => exact Or.inl hallowed
  | _ => exact hl.elim

/-- A command of a handler keeps the invariant. -/
lemma DedupInv.call (h : DedupInv config s ((r, l) :: ls)) (hallowed : dedupAllowed l c)
    (hfree : ReadsFree config s ((r, l) :: ls) (.call r c)) :
    DedupInv config (c.exec config s).2
      ((r, dedupNext l c (some (c.exec config s).1)) :: ls) := by
  by_cases hl : Written (.ok ()) l
  · rcases dedupAllowed_plain hl hallowed with
      hplain | ⟨actionId, rfl, rfl⟩ | ⟨actionId, time, clientId, wire, rfl, rfl⟩
    · rw [dedupNext_plain hplain hl]
      exact h.same (sameIds_exec hplain s)
    · obtain ⟨hrecords, htrims⟩ := hfree _ rfl
      show DedupInv config s ((r, dedupNext .idle (.hget actionId)
        (some (s.actionHash (config.hashAction actionId), s.now))) :: ls)
      cases hfresh : fresh (s.actionHash (config.hashAction actionId)) s.now with
      | true =>
        rw [dedupNext_known hfresh]
        exact h
      | false =>
        rw [dedupNext_new hfresh]
        exact h.hget hfresh hrecords fun rl hrl => htrims rl (mem_cons_of_mem _ hrl)
    · rcases @execApplyAction_cases config clientId actionId time wire s with
        hsame | ⟨hhash, hnow, hcalls⟩
      · exact h.leave.same hsame
      · exact h.play hhash hnow hcalls
  · cases l with
    | idle | recorded => exact absurd trivial hl
    | recording actionId time =>
      cases c with
      | hset actionId' time' =>
        obtain ⟨rfl, rfl⟩ := hallowed
        exact h.hset (Function.update_self _ _ _) (fun _ hne => Function.update_of_ne hne _ _)
          rfl rfl
      | enqueue clientId event => exact h.same (.enqueue _ _ _)
      | _ => exact hallowed.elim
    | trimmer =>
      obtain rfl : c = .clock := hallowed
      exact h.clock
    | threshold now =>
      obtain rfl : c = .hgetall := hallowed
      refine h.hgetall fun field hfield => ?_
      have hold : Reads config s field .hgetall := by
        cases hentry : s.actionHash field with
        | none => simp [oldFields, hentry] at hfield
        | some t =>
          have hle := h.threshold _ mem_cons_self now rfl
          exact ⟨t, hentry, (lt_of_oldFields hfield hentry).trans_le hle⟩
      exact (hfree field hold).1
    | trimming fields =>
      obtain rfl : c = .hdel fields := hallowed
      exact h.hdel (fun _ => rfl) rfl rfl

/-- A command that fails keeps it. -/
lemma DedupInv.fault (h : DedupInv config s ((r, l) :: ls)) (hallowed : dedupAllowed l c)
    (hfails : c.External) : DedupInv config s ((r, dedupNext l c none) :: ls) := by
  have hnext : dedupNext l c none = l ∨ dedupNext l c none = .idle := by
    cases l with
    | recorded => cases c <;> first | exact Or.inl rfl | exact Or.inr rfl
    | _ => exact Or.inr (by cases c <;> rfl)
  rcases hnext with hnext | hnext
  · rw [hnext]
    exact h
  · rw [hnext]
    exact h.leave

end Commands

/-! ### Runs -/

section Runs

variable {config : GatewayConfig}

lemma writes_of_recording {actionId : ActionId} {time : ℕ} {p : GatewayM Unit}
    (h : p.Follows dedup Written (.recording actionId time)) :
    Writes config (config.hashAction actionId) p := by
  induction p with
  | ret => exact h.elim
  | raise => exact h.elim
  | call c next ih =>
    obtain ⟨hallowed, hnext⟩ := h
    cases c with
    | hset actionId' time' =>
      obtain ⟨rfl, -⟩ : actionId' = actionId ∧ time' = time := hallowed
      rfl
    | enqueue clientId event => exact ih _ (hnext (some ()))
    | _ => exact hallowed.elim

lemma writes_of_trimming {fields : String → Bool} {field : String} {p : GatewayM Unit}
    (h : p.Follows dedup Written (.trimming fields)) (hfield : fields field) :
    Writes config field p := by
  cases p with
  | ret => exact h.elim
  | raise => exact h.elim
  | call c next =>
    obtain rfl : c = .hdel fields := h.1
    exact hfield

/-- What the condition on the handlers says about their stages. -/
lemma readsFree_of_undisturbed {s : Gateway} {ts : List (GatewayCall × GatewayM Unit)}
    {ls : List (GatewayCall × DedupStage)} {a : Service.Action GatewayCall GatewayCmd}
    (h : Undisturbed config ⟨s, ts⟩ a) (hts : Service.Staged dedup Written ts ls) :
    ReadsFree config s ls a := by
  cases a with
  | call r c =>
    intro field hreads
    constructor
    · intro hmem
      simp only [records, mem_map, mem_filterMap] at hmem
      obtain ⟨_, ⟨rl, hrl, hrecord⟩, rfl⟩ := hmem
      obtain ⟨t, ht, -, hfollows⟩ := Service.exists_left hts hrl
      cases hl : rl.2 with
      | recording actionId time =>
        rw [hl] at hrecord hfollows
        cases hrecord
        exact h _ hreads t ht (writes_of_recording hfollows)
      | _ =>
        rw [hl] at hrecord
        cases hrecord
    · intro rl hrl fields hl hfield
      obtain ⟨t, ht, -, hfollows⟩ := Service.exists_left hts hrl
      rw [hl] at hfollows
      exact h _ hreads t ht (writes_of_trimming hfollows hfield)
  | _ => trivial

lemma DedupInv.initial {s : Gateway} (h : Gateway.Initial config s) : DedupInv config s [] := by
  obtain ⟨now, flags, hands, draws, rfl⟩ := h
  refine ⟨?_, ?_, ?_, ?_, ?_, ?_, ?_⟩ <;> simp [plays, records, Gateway.calls]

lemma DedupInv.start {s : Gateway} {ls : List (GatewayCall × DedupStage)}
    (h : DedupInv config s ls) (r : GatewayCall) :
    DedupInv config s (ls ++ [(r, firstStage r)]) := by
  have hplays : plays config s (ls ++ [(r, firstStage r)]) = plays config s ls := by
    cases r <;> simp [plays, firstStage, DedupStage.toPlay]
  have hrecords : records config (ls ++ [(r, firstStage r)]) = records config ls := by
    cases r <;> simp [records, firstStage, DedupStage.toRecord]
  have hmem : ∀ rl ∈ ls ++ [(r, firstStage r)], (∀ now, rl.2 ≠ .threshold now) ∧
      (∀ fields, rl.2 ≠ .trimming fields) ∨ rl ∈ ls := by
    intro rl hrl
    rcases mem_append.mp hrl with hrl | hrl
    · exact Or.inr hrl
    · rw [mem_singleton.mp hrl]
      left
      cases r <;> exact ⟨(fun _ hl => nomatch hl), (fun _ hl => nomatch hl)⟩
  constructor
  · exact h.past
  · rw [hplays]
    exact h.covered
  · rw [hplays]
    exact h.apart
  · rw [hplays, hrecords]
    exact h.new
  · rw [hrecords]
    exact h.single
  · intro rl hrl now hl
    rcases hmem rl hrl with ⟨hne, -⟩ | hrl
    · exact absurd hl (hne now)
    · exact h.threshold rl hrl now hl
  · intro rl hrl fields hl
    rw [hrecords]
    rcases hmem rl hrl with ⟨-, hne⟩ | hrl
    · exact absurd hl (hne fields)
    · exact h.trimming rl hrl fields hl

lemma DedupInv.env {s s' : Gateway} {ls : List (GatewayCall × DedupStage)}
    (h : DedupInv config s ls) (henv : Gateway.Env config s s') : DedupInv config s' ls := by
  cases henv with
  | wait ms => exact h.congr rfl (Nat.le_add_right _ _) rfl
  | startSession => exact h.congr rfl le_rfl ((calls_log _ _).trans (append_nil _))
  | _ => exact h.congr rfl le_rfl rfl

/-- In the runs in which no id is read that another handler has read and is about to write or to
trim, the engine is called at most once for an id that is recorded in any 24 h. -/
theorem at_most_once {P : Pool GatewayCmd.Answer String Unit Gateway GatewayCall}
    (h : ((gatewayService config).system.restrict (Undisturbed config)).Reachable P)
    (actionId : ActionId) (start : ℕ) : (P.state.callsWithin actionId start).length ≤ 1 := by
  obtain ⟨ls, -, hinv⟩ := Service.staged_invariant (D := dedup) (Q := Written)
    (I := DedupInv config) (ReadsFree config) follows_body (fun s ts ls a => readsFree_of_undisturbed)
    (fun s ls r hinv _ _ => hinv.start r)
    (fun s ls₁ ls₂ r l c hinv hallowed hfree =>
      ((hinv.perm perm_middle).call hallowed (hfree.perm perm_middle)).perm perm_middle.symm)
    (fun s ls₁ ls₂ r l c hinv hallowed hfails _ =>
      ((hinv.perm perm_middle).fault hallowed hfails).perm perm_middle.symm)
    (fun s s' ls hinv henv _ => hinv.env henv) (fun s => .initial) h
  have hapart : P.state.calls.Pairwise fun call call' =>
      DayApart (config.hashAction call.1, call.2) (config.hashAction call'.1, call'.2) :=
    pairwise_map.mp (pairwise_append.mp hinv.apart).1
  -- two calls of the same 24 h would not be apart
  have hwithin : (P.state.callsWithin actionId start).Pairwise fun call call' =>
      DayApart (config.hashAction call.1, call.2) (config.hashAction call'.1, call'.2) :=
    hapart.sublist filter_sublist
  match hcalls : P.state.callsWithin actionId start with
  | [] | [_] => simp
  | x :: y :: rest =>
    have hmem : ∀ z ∈ x :: y :: rest,
        z.1 = actionId ∧ start ≤ z.2 ∧ z.2 < start + actionRetentionMs := by
      intro z hz
      rw [← hcalls] at hz
      exact of_decide_eq_true (mem_filter.mp hz).2
    obtain ⟨hid, hfrom, huntil⟩ := hmem x mem_cons_self
    obtain ⟨hid', hfrom', huntil'⟩ := hmem y (mem_cons_of_mem _ mem_cons_self)
    rw [hcalls] at hwithin
    have hboth := (pairwise_cons.mp hwithin).1 y mem_cons_self (by rw [hid, hid'])
    rcases hboth with hlater | hlater
    · exact absurd (hlater.trans_lt huntil') (not_lt.mpr (Nat.add_le_add_right hfrom _))
    · exact absurd (hlater.trans_lt huntil) (not_lt.mpr (Nat.add_le_add_right hfrom' _))

/-- A program that is done writes nothing. -/
lemma not_writes_of_done {field : String} {p : GatewayM Unit} (h : p.Done) :
    ¬ Writes config field p := by
  cases p with
  | call c next => exact absurd h (not_done_call c next)
  | _ => exact not_false

/-- Nor does one that is about to read. -/
lemma not_writes_of_reads {s : Gateway} {field field' : String} {c : GatewayCmd}
    {next : Option c.Answer → GatewayM Unit} (h : Reads config s field c) :
    ¬ Writes config field' (.call c next) := by
  cases c with
  | hget | hgetall => exact not_false
  | _ => exact h.elim

/-- Messages that are handled one after another are undisturbed. -/
lemma undisturbed_of_serial {P : Pool GatewayCmd.Answer String Unit Gateway GatewayCall}
    (h : (gatewayService config).serial.Reachable P) :
    ((gatewayService config).system.restrict (Undisturbed config)).Reachable P := by
  have hboth : (gatewayService config).serial.Reachable P ∧
      ((gatewayService config).system.restrict (Undisturbed config)).Reachable P := by
    apply h.invariant (I := fun P => (gatewayService config).serial.Reachable P ∧
      ((gatewayService config).system.restrict (Undisturbed config)).Reachable P)
    · exact fun P hP => ⟨.of_init hP, .of_init hP⟩
    · rintro P a P' ⟨hserial, hundisturbed⟩ hstep
      refine ⟨hserial.tail hstep, hundisturbed.tail ⟨?_, hstep.2⟩⟩
      have hone := Service.oneAtATime hserial
      cases hstep.2 with
      | call =>
        intro field hreads t ht
        rcases mem_cons.mp (perm_middle.mem_iff.mp ht) with rfl | ht
        · exact not_writes_of_reads hreads
        · exact not_writes_of_done (hone.others (not_done_call _ _) t ht)
      | _ => trivial
  exact hboth.2

end Runs

/-- A message, delivered again once the first delivery was handled. -/
def deliveredAgain : List (Service.Move Gateway GatewayCall) :=
  [.start (playerAction "A" "a1" (.postBlind "A" 1))] ++ replicate 30 (.call 0) ++
    [.start (playerAction "A" "a1" (.postBlind "A" 1))] ++ replicate 30 (.call 1)

theorem at_most_once_deliveredAgain : ∃ P,
    ((gatewayService zeroSeedConfig).system.restrict (Undisturbed zeroSeedConfig)).Reachable P ∧
      P.state.calls = [("a1", 0)] ∧ (P.state.callsWithin "a1" 0).length ≤ 1 := by
  have hreach : (gatewayService zeroSeedConfig).serial.Reachable
      ((gatewayService zeroSeedConfig).playAll ⟨twoConnected, []⟩ deliveredAgain) :=
    Service.reachable_playAll_from (reachable_twoConnected fun _ => trivial)
      (Service.AllLegal.of_closed (by decide +kernel))
  exact ⟨_, undisturbed_of_serial hreach, by decide +kernel,
    at_most_once (undisturbed_of_serial hreach) "a1" 0⟩

/-- A message, delivered again while the first delivery is handled. -/
def bothDeliveries : List (Service.Move Gateway GatewayCall) :=
  [.start (playerAction "A" "a1" (.postBlind "A" 1)),
    .start (playerAction "A" "a1" (.postBlind "A" 1))] ++ replicate 5 (.call 0) ++
    replicate 30 (.call 1) ++ replicate 30 (.call 0)

/-- Both deliveries read the action hash before one of them writes to it, and both are played. -/
theorem raced_deliveries : ¬ ∀ config P, (gatewayService config).system.Reachable P →
    ∀ actionId start, (P.state.callsWithin actionId start).length ≤ 1 := by
  intro h
  have hreach : ((gatewayService zeroSeedConfig).system.restrict fun _ _ => True).Reachable
      ((gatewayService zeroSeedConfig).playAll ⟨twoConnected, []⟩ bothDeliveries) :=
    Service.reachable_playAll_from (reachable_twoConnected fun _ => trivial)
      (Service.AllLegal.of_closed (by decide +kernel))
  have hcalls : ((gatewayService zeroSeedConfig).playAll ⟨twoConnected, []⟩
      bothDeliveries).state.calls = [("a1", 0), ("a1", 0)] := by
    decide +kernel
  have hlength := h zeroSeedConfig _ hreach.of_restrict "a1" 0
  rw [Gateway.callsWithin, hcalls] at hlength
  revert hlength
  unfold actionRetentionMs
  decide

end Pokerhub
