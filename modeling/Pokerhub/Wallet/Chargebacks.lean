import Pokerhub.Core.SortedSet
import Pokerhub.Core.Together

/-!
# Chargebacks

`ChargebackMonitor` of `chargeback.service.ts`. A chargeback is recorded in two sorted sets of
Redis, one of its account and one of its device; a check removes what has left the window and counts
the rest. Checks and records run at the same time, and commands may fail. A check counts every
chargeback that was recorded when it began and has not left the window when it ends, and none that
had left the window when it began (`check_counts`).

A pipeline is carried out as a whole or not at all, and the time it takes is left out.
-/

namespace Pokerhub.Chargebacks

open Function List Program

structure ChargebackMonitor where
  windowMs : ℕ
  accountLimit : ℕ
  deviceLimit : ℕ

/-- `wallet:cb:a:` and `wallet:cb:d:`. -/
inductive Key where
  | acc (id : String)
  | dev (id : String)
  deriving DecidableEq

structure CheckResult where
  flagged : Bool
  accountCount : ℕ
  deviceCount : ℕ
  accountLimit : ℕ
  deviceLimit : ℕ
  deriving DecidableEq

/-- A chargeback that was recorded. -/
structure Chargeback where
  accountId : String
  deviceId : String
  /-- The `randomUUID()` of its member. -/
  id : ℕ
  time : ℕ
  deriving DecidableEq

/-- Its event in the set `key`. -/
def Chargeback.event (key : Key) (c : Chargeback) : Option (ℕ × ℕ) :=
  if key = .acc c.accountId ∨ key = .dev c.deviceId then some (c.id, c.time) else none

structure Store where
  now : ℕ
  sets : Key → ZSet ℕ := fun _ => {}
  /-- The number of ids that were drawn. -/
  uuids : ℕ := 0
  recorded : List Chargeback := []

def Store.modify (key : Key) (f : ZSet ℕ → ZSet ℕ) (s : Store) : Store :=
  { s with sets := update s.sets key (f (s.sets key)) }

/-! ### Commands -/

inductive MonitorCmd where
  /-- `Date.now()` and the pipeline. -/
  | record (accountId deviceId : String)
  | clock
  /-- With the cutoff that belongs to the time. -/
  | zremrangebyscore (key : Key) (time : ℕ)
  | zcard (key : Key)
  deriving DecidableEq

namespace MonitorCmd

abbrev Answer : MonitorCmd → Type
  | record _ _ | zremrangebyscore _ _ => Unit
  | clock | zcard _ => ℕ

def External : MonitorCmd → Bool
  | clock => false
  | _ => true

end MonitorCmd

/-- `Math.ceil(this.windowMs / 1000)`. -/
def ChargebackMonitor.ttl (m : ChargebackMonitor) : ℕ :=
  (m.windowMs + 999) / 1000

def ChargebackMonitor.exec (m : ChargebackMonitor) :
    (c : MonitorCmd) → Store → c.Answer × Store
  | .record accountId deviceId, s =>
    let s' := s.modify (.acc accountId) (.add s.now s.uuids s.now)
    let s' := s'.modify (.dev deviceId) (.add s.now s.uuids s.now)
    let s' := s'.modify (.acc accountId) (.expire s.now m.ttl)
    let s' := s'.modify (.dev deviceId) (.expire s.now m.ttl)
    ((), { s' with
      uuids := s.uuids + 1
      recorded := s.recorded ++ [⟨accountId, deviceId, s.uuids, s.now⟩] })
  | .clock, s => (s.now, s)
  | .zremrangebyscore key time, s => ((), s.modify key (.remove s.now time m.windowMs))
  | .zcard key, s => ((s.sets key).card s.now, s)

/-! ### The methods -/

abbrev MonitorM := Program MonitorCmd.Answer String

def monitorRun (c : MonitorCmd) : MonitorM c.Answer :=
  Program.command "command failed" c

namespace ChargebackMonitor

def record (accountId deviceId : String) : MonitorM Unit :=
  monitorRun (.record accountId deviceId)

def check (m : ChargebackMonitor) (accountId deviceId : String) : MonitorM CheckResult := do
  let now : ℕ ← monitorRun .clock
  let _ ← both (monitorRun (.zremrangebyscore (.acc accountId) now))
    (monitorRun (.zremrangebyscore (.dev deviceId) now))
  let ((aCount : ℕ), (dCount : ℕ)) ←
    both (monitorRun (.zcard (.acc accountId))) (monitorRun (.zcard (.dev deviceId)))
  return {
    flagged := decide (m.accountLimit ≤ aCount) || decide (m.deviceLimit ≤ dCount)
    accountCount := aCount
    deviceCount := dCount
    accountLimit := m.accountLimit
    deviceLimit := m.deviceLimit }

end ChargebackMonitor

/-- When a check began, and how many chargebacks were recorded then. -/
structure Mark where
  time : ℕ
  recorded : ℕ
  deriving DecidableEq

inductive Call where
  | record (accountId deviceId : String)
  | check (accountId deviceId : String) (mark : Mark)
  deriving DecidableEq

namespace ChargebackMonitor

variable (m : ChargebackMonitor)

def body : Call → MonitorM (Option CheckResult)
  | .record accountId deviceId => do
    record accountId deviceId
    return none
  | .check accountId deviceId _ => do
    return some (← m.check accountId deviceId)

/-- The monitor; anything may be called at any time. -/
def service : Service MonitorCmd.Answer String (Option CheckResult) Store Call where
  init s := ∃ now, s = { now := now }
  ready s
    | .record _ _ => True
    | .check _ _ mark => mark = ⟨s.now, s.recorded.length⟩
  body := m.body
  exec _ := m.exec
  fails _ c := c.External
  env s s' := ∃ ms, s' = { s with now := s.now + ms }

/-- The chargebacks of an account or of a device that are in the window at `now`. -/
def countIn (key : Key) (now : ℕ) (cs : List Chargeback) : ℕ :=
  (cs.filterMap (Chargeback.event key)).countP fun e => now < e.2 + m.windowMs

end ChargebackMonitor

/-! ### Stages -/

def Call.mark : Call → Mark
  | record _ _ => ⟨0, 0⟩
  | check _ _ mark => mark

/-- What a call has learned. -/
structure Stage where
  call : Call
  clock : Option ℕ := none
  trimmed : List Key := []
  counts : List (Key × ℕ) := []

def monitorAllowed : Stage → MonitorCmd → Prop
  | l, .zremrangebyscore _ time => l.clock = some time
  | l, .zcard key => key ∈ l.trimmed
  | _, _ => True

def monitorNext : Stage → (c : MonitorCmd) → Option c.Answer → Stage
  | l, .clock, some now => { l with clock := some now }
  | l, .zremrangebyscore key _, some _ => { l with trimmed := key :: l.trimmed }
  | l, .zcard key, some n => { l with counts := (key, n) :: l.counts }
  | l, _, _ => l

def monitor : Discipline MonitorCmd.Answer Stage where
  allowed := monitorAllowed
  next := monitorNext

/-- The counts of a check are those that it has read. -/
def Answered (m : ChargebackMonitor) : Except String (Option CheckResult) → Stage → Prop
  | .ok (some res), l => ∀ accountId deviceId mark, l.call = .check accountId deviceId mark →
      (.acc accountId, res.accountCount) ∈ l.counts ∧ (.dev deviceId, res.deviceCount) ∈ l.counts ∧
        (res.flagged = true ↔ m.accountLimit ≤ res.accountCount ∨ m.deviceLimit ≤ res.deviceCount)
  | _, _ => True

section Stages

variable {m : ChargebackMonitor} {α : Type} {l : Stage}

/-- The rule for two commands that are sent together. -/
lemma follows_two {c₁ c₂ : MonitorCmd} {f : c₁.Answer × c₂.Answer → MonitorM α}
    {Q : Except String α → Stage → Prop} (h₁ : monitorAllowed l c₁)
    (h₂ : ∀ r, monitorAllowed (monitorNext l c₁ r) c₂) (hfail : ∀ e l, Q (.error e) l)
    (hf : ∀ a₁ a₂, (f (a₁, a₂)).Follows monitor Q
      (monitorNext (monitorNext l c₁ (some a₁)) c₂ (some a₂))) :
    (both (monitorRun c₁) (monitorRun c₂) >>= f).Follows monitor Q l := by
  refine follows_bind (follows_both_of_error hfail (follows_command h₁ (fun a₁ => ?_) ?_))
  · refine follows_command (h₂ _) (fun a₂ => ?_) ?_
    · rintro a₁' a₂' h₁' h₂'
      obtain rfl : a₁ = a₁' := Except.ok.inj h₁'
      obtain rfl : a₂ = a₂' := Except.ok.inj h₂'
      exact hf a₁ a₂
    · exact fun _ _ _ h => by cases h
  · exact follows_command (h₂ _) (fun _ _ _ h => by cases h) fun _ _ h => by cases h

lemma follows_check (accountId deviceId : String) (mark : Mark) :
    (m.body (.check accountId deviceId mark)).Follows monitor (Answered m)
      { call := .check accountId deviceId mark } := by
  apply follows_bind
  refine follows_command_bind trivial (fun now => ?_) trivial
  apply follows_two
  · rfl
  · rintro (_ | _) <;> rfl
  · exact fun _ _ => trivial
  · rintro ⟨⟩ ⟨⟩
    apply follows_two
    · exact mem_cons_of_mem _ mem_cons_self
    · rintro (_ | n) <;> exact mem_cons_self
    · exact fun _ _ => trivial
    · rintro aCount dCount accountId' deviceId' mark' hcall
      obtain ⟨rfl, rfl, rfl⟩ := Call.check.inj hcall
      refine ⟨mem_cons_of_mem _ mem_cons_self, mem_cons_self, ?_⟩
      rw [Bool.or_eq_true, decide_eq_true_iff, decide_eq_true_iff]

lemma follows_body (r : Call) :
    (m.body r).Follows monitor (Answered m) { call := r } := by
  cases r with
  | record accountId deviceId => exact follows_command_bind trivial (fun _ => trivial) trivial
  | check accountId deviceId mark => exact follows_check accountId deviceId mark

end Stages

/-! ### The invariant -/

/-- The sets follow what was recorded. -/
structure Faithful (m : ChargebackMonitor) (s : Store) : Prop where
  tracks : ∀ key, (s.sets key).Tracks m.windowMs s.now (s.recorded.filterMap (Chargeback.event key))
  past : ∀ c ∈ s.recorded, c.time ≤ s.now
  drawn : ∀ c ∈ s.recorded, c.id < s.uuids
  distinct : (s.recorded.map Chargeback.id).Nodup

/-- What a call has learned is still so. -/
structure Known (m : ChargebackMonitor) (s : Store) (l : Stage) : Prop where
  time_le : l.call.mark.time ≤ s.now
  recorded_le : l.call.mark.recorded ≤ s.recorded.length
  clock : ∀ t ∈ l.clock, l.call.mark.time ≤ t ∧ t ≤ s.now
  trimmed : ∀ key ∈ l.trimmed, ∀ x ∈ (s.sets key).members, l.call.mark.time < x.2 + m.windowMs
  counts : ∀ c ∈ l.counts,
    m.countIn c.1 s.now (s.recorded.take l.call.mark.recorded) ≤ c.2 ∧
      c.2 ≤ m.countIn c.1 l.call.mark.time s.recorded

structure MonitorInv (m : ChargebackMonitor) (s : Store) (ls : List (Call × Stage)) : Prop where
  faithful : Faithful m s
  own : ∀ rl ∈ ls, rl.2.call = rl.1
  known : ∀ rl ∈ ls, Known m s rl.2

section Invariant

variable {m : ChargebackMonitor} {s s' : Store} {l : Stage} {ls ls' : List (Call × Stage)}
  {r : Call}

lemma events_sublist (key : Key) (cs : List Chargeback) :
    (cs.filterMap (Chargeback.event key)).map Prod.fst <+ cs.map Chargeback.id := by
  induction cs with
  | nil => exact .refl _
  | cons c cs ih =>
    by_cases hkey : key = .acc c.accountId ∨ key = .dev c.deviceId
    · have hevent : c.event key = some (c.id, c.time) := if_pos hkey
      rw [filterMap_cons_some hevent, map_cons, map_cons]
      exact ih.cons_cons _
    · have hevent : c.event key = none := if_neg hkey
      rw [filterMap_cons_none hevent, map_cons]
      exact ih.cons _

lemma countIn_mono {key : Key} {now now' : ℕ} {cs : List Chargeback} (h : now ≤ now') :
    m.countIn key now' cs ≤ m.countIn key now cs :=
  countP_mono_left fun _ _ hwithin =>
    decide_eq_true (Nat.lt_of_le_of_lt h (of_decide_eq_true hwithin))

lemma countIn_append_le {key : Key} {now : ℕ} (cs cs' : List Chargeback) :
    m.countIn key now cs ≤ m.countIn key now (cs ++ cs') := by
  rw [ChargebackMonitor.countIn, ChargebackMonitor.countIn, filterMap_append, countP_append]
  exact Nat.le_add_right _ _

/-- A later state, in whose sets there is nothing that is both new and old. -/
lemma Known.later (h : Known m s l) (hnow : s.now ≤ s'.now)
    (hrecorded : ∃ cs, s'.recorded = s.recorded ++ cs)
    (hsets : ∀ key, ∀ x ∈ (s'.sets key).members,
      x ∈ (s.sets key).members ∨ s.now < x.2 + m.windowMs) :
    Known m s' l := by
  obtain ⟨cs, hcs⟩ := hrecorded
  have hlength : s.recorded.length ≤ s'.recorded.length := by
    rw [hcs, length_append]
    exact Nat.le_add_right _ _
  constructor
  · exact Nat.le_trans h.time_le hnow
  · exact Nat.le_trans h.recorded_le hlength
  · exact fun t ht => ⟨(h.clock t ht).1, Nat.le_trans (h.clock t ht).2 hnow⟩
  · intro key hkey x hx
    rcases hsets key x hx with hx | hwithin
    · exact h.trimmed key hkey x hx
    · exact Nat.lt_of_le_of_lt h.time_le hwithin
  · intro c hc
    obtain ⟨hlow, hhigh⟩ := h.counts c hc
    constructor
    · rw [hcs, take_append_of_le_length h.recorded_le]
      exact Nat.le_trans (countIn_mono hnow) hlow
    · rw [hcs]
      exact Nat.le_trans hhigh (countIn_append_le _ _)

lemma MonitorInv.perm (h : MonitorInv m s ls) (hperm : ls ~ ls') : MonitorInv m s ls' where
  faithful := h.faithful
  own rl hrl := h.own rl (hperm.mem_iff.mpr hrl)
  known rl hrl := h.known rl (hperm.mem_iff.mpr hrl)

/-- A call goes on, and the others know what they knew. -/
lemma MonitorInv.step {l' : Stage} (h : MonitorInv m s ((r, l) :: ls)) (hfaithful : Faithful m s')
    (hcall : l'.call = l.call) (hother : ∀ l, Known m s l → Known m s' l) (hown : Known m s' l') :
    MonitorInv m s' ((r, l') :: ls) := by
  refine ⟨hfaithful, ?_, ?_⟩
  · intro rl hrl
    rcases mem_cons.mp hrl with rfl | hrl
    · exact hcall.trans (h.own _ mem_cons_self)
    · exact h.own rl (mem_cons_of_mem _ hrl)
  · intro rl hrl
    rcases mem_cons.mp hrl with rfl | hrl
    · exact hown
    · exact hother _ (h.known rl (mem_cons_of_mem _ hrl))

/-! ### The commands keep it -/

/-- The seconds of `EXPIRE` are not less than the window. -/
lemma windowMs_le_ttl (m : ChargebackMonitor) : m.windowMs ≤ m.ttl * 1000 := by
  unfold ChargebackMonitor.ttl
  omega

/-- The set of a key after a record. -/
lemma sets_record (accountId deviceId : String) (key : Key) :
    ((m.exec (.record accountId deviceId) s).2.sets key) =
      if key = .acc accountId ∨ key = .dev deviceId then
        ((s.sets key).add s.now s.uuids s.now).expire s.now m.ttl
      else s.sets key := by
  rcases eq_or_ne key (.acc accountId) with rfl | hacc
  · simp [ChargebackMonitor.exec, Store.modify]
  · rcases eq_or_ne key (.dev deviceId) with rfl | hdev
    · simp [ChargebackMonitor.exec, Store.modify]
    · simp [ChargebackMonitor.exec, Store.modify, hacc, hdev]

lemma Faithful.record (h : Faithful m s) (accountId deviceId : String) :
    Faithful m (m.exec (.record accountId deviceId) s).2 := by
  have hnew : ∀ key, s.uuids ∉ (s.recorded.filterMap (Chargeback.event key)).map Prod.fst := by
    intro key hmem
    obtain ⟨c, hc, heq⟩ := mem_map.mp ((events_sublist key s.recorded).subset hmem)
    exact Nat.lt_irrefl _ (heq ▸ h.drawn c hc)
  have hpast : ∀ key, ∀ x ∈ s.recorded.filterMap (Chargeback.event key), x.2 ≤ s.now := by
    intro key x hx
    obtain ⟨c, hc, hevent⟩ := mem_filterMap.mp hx
    unfold Chargeback.event at hevent
    split_ifs at hevent
    obtain rfl := Option.some.inj hevent
    exact h.past c hc
  constructor
  · intro key
    rw [sets_record]
    simp only [ChargebackMonitor.exec, filterMap_append, filterMap_cons, filterMap_nil,
      Chargeback.event]
    split_ifs with hkey
    · exact (h.tracks key).record (hpast key) (hnew key) (windowMs_le_ttl m)
    · rw [append_nil]
      exact h.tracks key
  · intro c hc
    rcases mem_append.mp hc with hc | hc
    · exact h.past c hc
    · rw [mem_singleton.mp hc]
      exact Nat.le_refl s.now
  · intro c hc
    rcases mem_append.mp hc with hc | hc
    · exact Nat.lt_succ_of_lt (h.drawn c hc)
    · rw [mem_singleton.mp hc]
      exact Nat.lt_succ_self s.uuids
  · simp only [ChargebackMonitor.exec, map_append, map_singleton]
    refine nodup_append.mpr ⟨h.distinct, nodup_singleton _, ?_⟩
    rintro _ hid _ hid' rfl
    obtain ⟨c, hc, rfl⟩ := mem_map.mp hid
    exact Nat.ne_of_lt (h.drawn c hc) (mem_singleton.mp hid')

/-- What is new in the sets is of the window. -/
lemma mem_sets_record (hwindow : 0 < m.windowMs) (accountId deviceId : String) (key : Key) :
    ∀ x ∈ ((m.exec (.record accountId deviceId) s).2.sets key).members,
      x ∈ (s.sets key).members ∨ s.now < x.2 + m.windowMs := by
  intro x hx
  rw [sets_record] at hx
  split_ifs at hx
  · rcases ZSet.mem_of_record hx with hx | rfl
    · exact Or.inl hx
    · exact Or.inr (Nat.lt_add_of_pos_right hwindow)
  · exact Or.inl hx

lemma Faithful.remove (h : Faithful m s) {key : Key} {time : ℕ} (htime : time ≤ s.now) :
    Faithful m (m.exec (.zremrangebyscore key time) s).2 := by
  refine ⟨fun key' => ?_, h.past, h.drawn, h.distinct⟩
  rcases eq_or_ne key' key with rfl | hne
  · simp only [ChargebackMonitor.exec, Store.modify, update_self]
    exact (h.tracks key').remove htime
  · simp only [ChargebackMonitor.exec, Store.modify, update_of_ne hne]
    exact h.tracks key'

lemma mem_sets_remove {key key' : Key} {time : ℕ} {x : ℕ × ℕ}
    (hx : x ∈ ((m.exec (.zremrangebyscore key time) s).2.sets key').members) :
    x ∈ (s.sets key').members ∧ (key' = key → time < x.2 + m.windowMs) := by
  rcases eq_or_ne key' key with rfl | hne
  · simp only [ChargebackMonitor.exec, Store.modify, update_self] at hx
    exact ⟨(ZSet.mem_of_remove hx).1, fun _ => (ZSet.mem_of_remove hx).2⟩
  · simp only [ChargebackMonitor.exec, Store.modify, update_of_ne hne] at hx
    exact ⟨hx, fun heq => absurd heq hne⟩

/-- A set that was trimmed is counted. -/
lemma Known.card (h : Known m s l) (hfaithful : Faithful m s) {key : Key} (hkey : key ∈ l.trimmed) :
    m.countIn key s.now (s.recorded.take l.call.mark.recorded) ≤ (s.sets key).card s.now ∧
      (s.sets key).card s.now ≤ m.countIn key l.call.mark.time s.recorded := by
  have htracks := hfaithful.tracks key
  have hdistinct := hfaithful.distinct.sublist (events_sublist key s.recorded)
  constructor
  · rw [ChargebackMonitor.countIn, countP_eq_length_filter]
    exact htracks.le_card hdistinct ((take_sublist _ _).filterMap _)
  · rw [ChargebackMonitor.countIn, countP_eq_length_filter]
    exact htracks.card_le (h.trimmed key hkey)

/-- Every command that the discipline allows keeps the invariant. -/
lemma MonitorInv.call (hwindow : 0 < m.windowMs) (h : MonitorInv m s ((r, l) :: ls))
    {c : MonitorCmd} (hallowed : monitorAllowed l c) :
    MonitorInv m (m.exec c s).2 ((r, monitorNext l c (some (m.exec c s).1)) :: ls) := by
  have hknown := h.known _ mem_cons_self
  cases c with
  | record accountId deviceId =>
    have hlater : ∀ l, Known m s l → Known m (m.exec (.record accountId deviceId) s).2 l :=
      fun l hl => hl.later (Nat.le_refl _) ⟨_, rfl⟩ (mem_sets_record hwindow accountId deviceId)
    exact h.step (h.faithful.record accountId deviceId) rfl hlater (hlater l hknown)
  | clock =>
    refine h.step h.faithful rfl (fun _ hl => hl) ?_
    refine { hknown with clock := fun t ht => ?_ }
    obtain rfl : s.now = t := Option.some.inj ht
    exact ⟨hknown.time_le, Nat.le_refl _⟩
  | zremrangebyscore key time =>
    obtain ⟨hfrom, hpast⟩ := hknown.clock time hallowed
    have hlater : ∀ l, Known m s l → Known m (m.exec (.zremrangebyscore key time) s).2 l :=
      fun l hl => hl.later (Nat.le_refl _) ⟨[], (append_nil _).symm⟩
        fun key' x hx => Or.inl (mem_sets_remove hx).1
    refine h.step (h.faithful.remove hpast) rfl hlater ?_
    refine { hlater l hknown with trimmed := fun key' hkey x hx => ?_ }
    rcases mem_cons.mp hkey with rfl | hkey
    · exact Nat.lt_of_le_of_lt hfrom ((mem_sets_remove hx).2 rfl)
    · exact hknown.trimmed key' hkey x (mem_sets_remove hx).1
  | zcard key =>
    refine h.step h.faithful rfl (fun _ hl => hl) ?_
    refine { hknown with counts := fun c hc => ?_ }
    rcases mem_cons.mp hc with rfl | hc
    · exact hknown.card h.faithful hallowed
    · exact hknown.counts c hc

end Invariant

/-! ### Runs -/

section Runs

variable {m : ChargebackMonitor} {P : Pool MonitorCmd.Answer String (Option CheckResult) Store Call}

lemma MonitorInv.start {s : Store} {ls : List (Call × Stage)} (h : MonitorInv m s ls) {r : Call}
    (hready : m.service.ready s r) : MonitorInv m s (ls ++ [(r, { call := r })]) := by
  have hknown : Known m s { call := r } := by
    have hmark : r.mark.time ≤ s.now ∧ r.mark.recorded ≤ s.recorded.length := by
      cases r with
      | record => exact ⟨Nat.zero_le _, Nat.zero_le _⟩
      | check accountId deviceId mark =>
        obtain rfl : mark = ⟨s.now, s.recorded.length⟩ := hready
        exact ⟨Nat.le_refl _, Nat.le_refl _⟩
    refine ⟨hmark.1, hmark.2, ?_, ?_, ?_⟩
    · exact fun t ht => absurd ht (Option.not_mem_none t)
    · exact fun key hkey => absurd hkey not_mem_nil
    · exact fun c hc => absurd hc not_mem_nil
  refine ⟨h.faithful, ?_, ?_⟩
  · intro rl hrl
    rcases mem_append.mp hrl with hrl | hrl
    · exact h.own rl hrl
    · rw [mem_singleton.mp hrl]
  · intro rl hrl
    rcases mem_append.mp hrl with hrl | hrl
    · exact h.known rl hrl
    · rw [mem_singleton.mp hrl]
      exact hknown

lemma MonitorInv.wait {s : Store} {ls : List (Call × Stage)} (h : MonitorInv m s ls) (ms : ℕ) :
    MonitorInv m { s with now := s.now + ms } ls := by
  have hle : s.now ≤ s.now + ms := Nat.le_add_right _ _
  refine ⟨⟨fun key => (h.faithful.tracks key).later hle, ?_, h.faithful.drawn,
    h.faithful.distinct⟩, h.own, fun rl hrl => ?_⟩
  · exact fun c hc => Nat.le_trans (h.faithful.past c hc) hle
  · exact (h.known rl hrl).later hle ⟨[], (append_nil _).symm⟩ fun _ _ hx => Or.inl hx

lemma monitorNext_none (l : Stage) (c : MonitorCmd) : monitorNext l c none = l := by
  cases c <;> rfl

/-- A check counts every chargeback of the account that was recorded when it began and is still in
the window, and none that was out of the window when it began; so it does for the device, and it
flags them just if one of the counts has reached its limit. -/
theorem check_counts (hwindow : 0 < m.windowMs) (h : m.service.system.Reachable P)
    {accountId deviceId : String} {mark : Mark} {res : CheckResult}
    (ht : (.check accountId deviceId mark, .ret (some res)) ∈ P.threads) :
    (m.countIn (.acc accountId) P.state.now (P.state.recorded.take mark.recorded) ≤
        res.accountCount ∧
      res.accountCount ≤ m.countIn (.acc accountId) mark.time P.state.recorded) ∧
    (m.countIn (.dev deviceId) P.state.now (P.state.recorded.take mark.recorded) ≤
        res.deviceCount ∧
      res.deviceCount ≤ m.countIn (.dev deviceId) mark.time P.state.recorded) ∧
    (res.flagged = true ↔
      m.accountLimit ≤ res.accountCount ∨ m.deviceLimit ≤ res.deviceCount) := by
  have htrue : (m.service.system.restrict fun _ _ => True).Reachable P :=
    h.restrict_true fun _ _ => trivial
  obtain ⟨ls, hstaged, hinv⟩ := Service.staged_invariant (S := m.service) (D := monitor)
    (Q := Answered m) (I := MonitorInv m) (fun _ _ _ => True) follows_body
    (fun _ _ _ _ _ _ => trivial)
    (fun s ls r hinv hready _ => hinv.start hready)
    (fun s ls₁ ls₂ r l c hinv hallowed _ =>
      ((hinv.perm perm_middle).call hwindow hallowed).perm perm_middle.symm)
    (fun s ls₁ ls₂ r l c hinv _ _ _ => by
      have hnone : monitor.next l c none = l := monitorNext_none l c
      rw [hnone]
      exact hinv)
    (fun s s' ls hinv henv _ => by
      obtain ⟨ms, rfl⟩ := henv
      exact hinv.wait ms)
    (fun s hs => by
      obtain ⟨now, rfl⟩ := hs
      refine ⟨⟨fun key => ZSet.tracks_empty, ?_, ?_, nodup_nil⟩, ?_, ?_⟩ <;> simp) htrue
  obtain ⟨ts₁, ts₂, hthreads⟩ := append_of_mem ht
  rw [hthreads] at hstaged
  obtain ⟨ls₁, ⟨r, l⟩, ls₂, rfl, -, ⟨rfl, hanswered⟩, -⟩ := Service.forall₂_middle hstaged
  have hmem : (Call.check accountId deviceId mark, l) ∈
      ls₁ ++ (Call.check accountId deviceId mark, l) :: ls₂ :=
    mem_append_right _ mem_cons_self
  have hcall : l.call = .check accountId deviceId mark := hinv.own _ hmem
  have hknown := hinv.known _ hmem
  obtain ⟨hacc, hdev, hflagged⟩ := hanswered accountId deviceId mark hcall
  have haccount := hknown.counts _ hacc
  have hdevice := hknown.counts _ hdev
  dsimp only at haccount hdevice
  rw [hcall] at haccount hdevice
  exact ⟨haccount, hdevice, hflagged⟩

end Runs

/-! ### Two chargebacks -/

/-- A window of a minute, and a limit of two. -/
def minuteMonitor : ChargebackMonitor where
  windowMs := 60000
  accountLimit := 2
  deviceLimit := 2

instance (m : ChargebackMonitor) (s : Store) : (r : Call) → Decidable (m.service.ready s r)
  | .record _ _ => isTrue trivial
  | .check _ _ mark => inferInstanceAs (Decidable (mark = ⟨s.now, s.recorded.length⟩))

instance (m : ChargebackMonitor) (s : Store) (c : MonitorCmd) : Decidable (m.service.fails s c) :=
  inferInstanceAs (Decidable (c.External = true))

/-- Two devices of one account, and a check of one of them. -/
def twoChargebacks : List (Service.Move Store Call) :=
  [.start (.record "a" "d1"), .call 0, .start (.record "a" "d2"), .call 1,
    .start (.check "a" "d1" ⟨0, 2⟩)] ++ replicate 5 (.call 2)

def afterTwo : Pool MonitorCmd.Answer String (Option CheckResult) Store Call :=
  minuteMonitor.service.playAll ⟨{ now := 0 }, []⟩ twoChargebacks

/-- The account has reached the limit, the device has not. -/
theorem check_counts_two :
    (Call.check "a" "d1" ⟨0, 2⟩, .ret (some ⟨true, 2, 1, 2, 2⟩)) ∈ afterTwo.threads ∧
      2 ≤ minuteMonitor.countIn (.acc "a") 0 afterTwo.state.recorded ∧
        minuteMonitor.countIn (.dev "d1") 0 (afterTwo.state.recorded.take 2) ≤ 1 := by
  have hinit : minuteMonitor.service.init { now := 0 } := ⟨0, rfl⟩
  have hreach : (minuteMonitor.service.system.restrict fun _ _ => True).Reachable afterTwo :=
    Service.reachable_playAll_of_closed hinit (by decide +kernel)
  have hmem : (Call.check "a" "d1" ⟨0, 2⟩, .ret (some ⟨true, 2, 1, 2, 2⟩)) ∈ afterTwo.threads :=
    mem_of_getElem? (i := 2) rfl
  obtain ⟨hacc, hdev, -⟩ := check_counts (by decide) hreach.of_restrict hmem
  exact ⟨hmem, hacc.2, hdev.1⟩

end Pokerhub.Chargebacks
