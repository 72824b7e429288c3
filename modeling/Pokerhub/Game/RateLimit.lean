import Pokerhub.Core.FixedWindow
import Pokerhub.Core.Observed
import Pokerhub.Core.Stages
import Pokerhub.Game.Gateway

/-!
# The rate limit

`isRateLimited` of `game.gateway.ts` counts every message twice, for its sender and for all, and
gives a counter 10 s from its first message on; between the two commands other handlers run, and a
command may fail. Whatever the interleaving, in any 10 s at most 60 messages of a sender and at most
twice the global limit pass (`rate_limit`). A counter whose `EXPIRE` has failed counts for ever, and
a sender who is above the limit then never gets through again (`limited_forever`).
-/

namespace Pokerhub.RateLimit

open FixedWindow Function GatewayConfig List Program

/-! ### What is counted -/

/-- A message, as the counter of its sender and the one of all have numbered it. -/
structure Request where
  key : String
  own : Hit
  all : Hit
  deriving DecidableEq

/-- What `isRateLimited` goes by. -/
def Request.passes (globalLimit : ℕ) (r : Request) : Bool :=
  r.all.value ≤ globalLimit && r.own.value ≤ 30

structure Meter where
  requests : List Request := []
  life : String → ℕ := fun _ => 0
  since : String → ℕ := fun _ => 0

/-- The counters in Redis. -/
def counters (s : Gateway × Meter) (key : String) : Counter :=
  ⟨s.1.counters key, s.1.expiry key, s.2.life key, s.2.since key⟩

/-- One `INCR`. -/
def incremented (now : ℕ) (key : String) (cs : String → Counter) : String → Counter :=
  update cs key ((cs key).count now)

/-- The counters after the `MULTI`. -/
def afterMulti (key : String) (s : Gateway × Meter) : String → Counter :=
  incremented s.1.now globalActionCounterKey (incremented s.1.now key (counters s))

/-- The numbers that a message is given. -/
def number (key : String) (s : Gateway × Meter) : Request where
  key := key
  own := (counters s key).hit s.1.now
  all := (incremented s.1.now key (counters s) globalActionCounterKey).hit s.1.now

def Meter.note : GatewayCmd → Gateway → Meter → Meter
  | .incr key, s, m =>
    { requests := m.requests ++ [number key (s, m)]
      life := fun k => (afterMulti key (s, m) k).life
      since := fun k => (afterMulti key (s, m) k).since }
  | _, _, m => m

/-- The gateway, and what its counters have counted. -/
def metered (config : GatewayConfig) :
    Service GatewayCmd.Answer String Unit (Gateway × Meter) GatewayCall :=
  (gatewayService config).observed Meter.note {}

/-- The numbers of the counter `k`. -/
def Request.hits (k : String) (r : Request) : List Hit :=
  (if r.key = k then [r.own] else []) ++ if globalActionCounterKey = k then [r.all] else []

section Counters

variable {config : GatewayConfig} {s : Gateway × Meter} {key : String} {c : GatewayCmd}

lemma incremented_value (now : ℕ) (cs : String → Counter) (k : String) :
    (incremented now key cs k).value =
      update (fun k => (cs k).value) key ((cs key).value + 1) k := by
  rcases eq_or_ne k key with rfl | hne
  · simp only [incremented, update_self, Counter.count]
  · simp only [incremented, update_of_ne hne]

@[simp] lemma incremented_expiry (now : ℕ) (cs : String → Counter) (k : String) :
    (incremented now key cs k).expiry = (cs k).expiry := by
  rcases eq_or_ne k key with rfl | hne
  · simp only [incremented, update_self, Counter.count]
  · simp only [incremented, update_of_ne hne]

/-- The `MULTI` answers with the numbers. -/
lemma exec_incr : (GatewayCmd.exec config (.incr key) s.1).1 =
    ((number key s).own.value, (number key s).all.value) := by
  refine Prod.ext ?_ ?_
  · exact update_self _ _ _
  · exact congrArg (· + 1) (incremented_value s.1.now (counters s) _).symm

/-- The `MULTI` of the gateway. -/
lemma counters_incr (k : String) :
    counters ((GatewayCmd.exec config (.incr key) s.1).2, Meter.note (.incr key) s.1 s.2) k =
      afterMulti key s k := by
  have hvalue : (afterMulti key s k).value =
      (GatewayCmd.exec config (.incr key) s.1).2.counters k := by
    simp only [afterMulti, incremented_value]
    rfl
  have hexpiry : (afterMulti key s k).expiry = s.1.expiry k := by
    simp only [afterMulti, incremented_expiry]
    rfl
  rw [counters, ← hvalue]
  exact congrArg (fun e => (⟨_, e, _, _⟩ : Counter)) hexpiry.symm

lemma not_passes {globalLimit : ℕ} {r : Request} :
    r.passes globalLimit = (!decide (globalLimit < r.all.value) && !decide (30 < r.own.value)) := by
  simp only [Request.passes, ← decide_not, Nat.not_lt]

/-- A message is turned away just if its numbers do not pass. -/
theorem run_isRateLimited (client : GameSocket) :
    ((config.isRateLimited client).run (GatewayCmd.exec config) s.1).1 =
      .ok !(number (getRateLimitKey client) s).passes config.globalLimit := by
  simp only [isRateLimited, gatewayRun, run_bind, run_command, exec_incr, not_passes]
  unfold gatewayIf
  split_ifs with hown hall hglobal hsender
  all_goals simp [*]

end Counters

/-! ### The handlers -/

/-- The command is on the counters. -/
def counts : GatewayCmd → Bool
  | .incr _ | .expire _ => true
  | _ => false

/-- The keys that are still to be given their time to live. -/
def toExpire (key : String) (count global : ℕ) : List String :=
  (if count = 1 then [key] else []) ++ if global = 1 then [globalActionCounterKey] else []

def limitAllowed : List String → GatewayCmd → Prop
  | keys, .incr _ => keys = []
  | keys, .expire key => keys.head? = some key
  | _, _ => True

def limitNext : List String → (c : GatewayCmd) → Option c.Answer → List String
  | _, .incr key, some (count, global) => toExpire key count global
  | keys, .expire _, some _ => keys.tail
  | keys, _, some _ => keys
  | _, _, none => []

def limit : Discipline GatewayCmd.Answer (List String) where
  allowed := limitAllowed
  next := limitNext

/-- Nothing is left to be given a time to live. -/
def Settled {α : Type} (_ : Except String α) (keys : List String) : Prop :=
  keys = []

section Handlers

variable {config : GatewayConfig} {client : GameSocket} {actionId : ActionId} {tableId : TableId}
  {α : Type} {c : GatewayCmd} {keys : List String}

/-- The command leaves the counters alone. -/
abbrev Uncounted (c : GatewayCmd) : Prop :=
  counts c = false

lemma limitNext_uncounted (hc : Uncounted c) (a : Option c.Answer) :
    limitNext keys c a = if a.isSome then keys else [] := by
  cases a with
  | none => cases c <;> rfl
  | some a => cases c <;> first | rfl | cases hc

lemma follows_uncounted {Q : Except String α → List String → Prop} {p : GatewayM α}
    (huses : p.Uses Uncounted) (hQ : ∀ r, Q r []) : p.Follows limit Q [] := by
  apply follows_of_uses huses
  · intro c hc
    cases c with
    | incr key => cases hc
    | expire key => cases hc
    | _ => trivial
  · intro c a hc
    exact (limitNext_uncounted hc a).trans (ite_self _)
  · exact hQ

lemma uncounted {c : GatewayCmd} (hc : Uncounted c) : (gatewayRun c).Uses Uncounted :=
  uses_gatewayRun hc

lemma uncounted_bind {f : c.Answer → GatewayM α} (hc : Uncounted c)
    (hf : ∀ a, (f a).Uses Uncounted) : (gatewayRun c >>= f).Uses Uncounted :=
  uses_gatewayRun_bind hc hf

lemma uncounted_refuse (message : String) :
    (refuse client actionId message).Uses Uncounted :=
  uncounted_bind rfl fun _ => uncounted rfl

lemma uncounted_flagOff (flag : String) : (flagOff tableId flag).Uses Uncounted := by
  refine uncounted_bind rfl fun all => ?_
  split_ifs
  · trivial
  · exact uncounted_bind rfl fun _ => trivial

lemma uncounted_maybeSnapshot (state : HeldState) :
    (maybeSnapshot tableId state).Uses Uncounted := by
  refine uncounted_bind rfl ?_
  rintro (_ | tick)
  · trivial
  · exact uncounted_bind rfl fun _ => uncounted rfl

lemma uncounted_restartTimer (acting : Option PlayerId) :
    (restartTimer acting tableId).Uses Uncounted := by
  cases acting with
  | none => trivial
  | some playerId => exact uncounted rfl

lemma uncounted_stopTimer (acting : Option PlayerId) :
    (stopTimer acting tableId).Uses Uncounted := by
  cases acting with
  | none => trivial
  | some playerId => exact uncounted rfl

lemma uncounted_dropHand : (dropHand tableId).Uses Uncounted :=
  uncounted_bind rfl fun _ => uncounted rfl

lemma uncounted_finishAction (wire : WireGameAction) (state : GameStateInternal) (tick : ℕ) :
    (finishAction client actionId wire state tick).Uses Uncounted := by
  refine uncounted_bind rfl fun _ => uncounted_bind rfl fun _ => ?_
  refine (uncounted_maybeSnapshot _).bind fun _ => ?_
  refine (uses_gatewayIf (uncounted rfl)).bind fun _ => ?_
  refine uncounted_bind rfl fun _ => uncounted_bind rfl fun _ => ?_
  split_ifs
  · exact uncounted_dropHand
  · exact uncounted_restartTimer _

lemma uncounted_playAction (wire : WireGameAction) (time : ℕ) :
    (playAction client actionId time wire).Uses Uncounted := by
  refine (uncounted_stopTimer _).bind fun _ => (uncounted_flagOff _).bind fun dealing => ?_
  split_ifs
  · exact uncounted_refuse _
  · refine (uncounted_flagOff _).bind fun settlement => ?_
    split_ifs
    · exact uncounted_refuse _
    · refine uncounted_bind rfl ?_
      rintro (_ | message | ⟨state, tick⟩)
      · exact uncounted_refuse _
      · exact uncounted_refuse _
      · exact uncounted_finishAction wire state tick

lemma uncounted_deduplicate (wire : WireGameAction) :
    (deduplicate client actionId wire).Uses Uncounted := by
  refine uncounted_bind rfl ?_
  rintro ⟨existing, now⟩
  dsimp only
  split_ifs
  · exact uncounted rfl
  · exact uncounted_bind rfl fun _ => uncounted_playAction wire now

lemma uncounted_acknowledge (event : SeatEvent) :
    (acknowledge client event actionId).Uses Uncounted := by
  refine uncounted_bind rfl ?_
  rintro ⟨existing, now⟩
  dsimp only
  split_ifs
  · exact uncounted rfl
  · exact uncounted_bind rfl fun _ => uncounted rfl

lemma uncounted_handleReplay : (handleReplay client).Uses Uncounted := by
  refine (uncounted_flagOff _).bind fun off => ?_
  split_ifs
  · exact uncounted rfl
  · refine uncounted_bind rfl ?_
    rintro (_ | state)
    · trivial
    · exact uncounted rfl

lemma uncounted_handleResume (tick : Option ℕ) : (handleResume client tick).Uses Uncounted := by
  refine (uncounted_flagOff _).bind fun off => ?_
  split_ifs
  · exact uncounted rfl
  · refine uncounted_bind rfl fun states => uncounted_bind rfl fun now => ?_
    exact uses_forEach fun _ _ => uncounted rfl

lemma uncounted_handleTimeout (playerId : PlayerId) :
    (handleTimeout playerId tableId).Uses Uncounted := by
  refine uncounted_bind rfl fun _ => uncounted_bind rfl fun applied => ?_
  split_ifs
  · refine uncounted_bind rfl ?_
    rintro (_ | state)
    · trivial
    · refine uncounted_bind rfl ?_
      rintro ⟨payload, tick⟩
      refine uncounted_bind rfl fun _ => uncounted_bind rfl fun _ => ?_
      refine (uncounted_maybeSnapshot _).bind fun _ => uncounted_bind rfl fun _ => ?_
      exact uses_gatewayIf uncounted_dropHand
  · trivial

/-- A counter that begins is given its time to live. -/
lemma follows_expire {cond : Prop} [Decidable cond] {key : String} {f : Unit → GatewayM α}
    {Q : Except String α → List String → Prop} (hQ : ∀ e, Q (.error e) [])
    (hf : (f ()).Follows limit Q keys) :
    (gatewayIf cond (gatewayRun (.expire key)) >>= f).Follows limit Q
      ((if cond then [key] else []) ++ keys) := by
  by_cases hcond : cond
  · simp only [gatewayIf, hcond, decide_true, if_true]
    exact follows_command_bind rfl (fun _ => hf) (hQ _)
  · simp only [gatewayIf, hcond, decide_false, if_false]
    exact hf

/-- A handler that is rate limited leaves no counter without a time to live, as long as no command
fails. -/
lemma follows_isRateLimited {f : Bool → GatewayM Unit}
    (hf : ∀ limited, (f limited).Uses Uncounted) :
    (config.isRateLimited client >>= f).Follows limit Settled [] := by
  apply follows_bind
  refine follows_command_bind rfl ?_ rfl
  rintro ⟨count, global⟩
  refine follows_expire (fun _ => rfl) ?_
  rw [← append_nil (if global = 1 then [globalActionCounterKey] else [])]
  refine follows_expire (fun _ => rfl) ?_
  have hrest : ∀ limited, (f limited).Follows limit Settled [] := fun limited =>
    follows_uncounted (hf limited) fun _ => rfl
  split_ifs
  · exact follows_command_bind trivial (fun _ => hrest true) rfl
  · exact follows_command_bind trivial (fun _ => hrest true) rfl
  · exact hrest false

/-- Every call keeps to the discipline. -/
lemma follows_body (r : GatewayCall) : (r.body config).Follows limit Settled [] := by
  have hplain : ∀ {p : GatewayM Unit}, p.Uses Uncounted → p.Follows limit Settled [] :=
    fun huses => follows_uncounted huses fun _ => rfl
  cases r with
  | trim =>
    exact hplain (uncounted_bind rfl fun _ => uncounted_bind rfl fun _ => uncounted rfl)
  | timeout playerId tableId => exact hplain (uncounted_handleTimeout playerId)
  | message client message =>
    cases message with
    | replay => exact hplain uncounted_handleReplay
    | resume tick => exact hplain (uncounted_handleResume tick)
    | proof handId =>
      refine follows_isRateLimited fun limited => ?_
      split_ifs
      · trivial
      · refine uncounted_bind rfl fun hand => ?_
        split
        · split_ifs
          · exact uncounted rfl
          · exact uncounted rfl
        · exact uncounted rfl
    | seat event actionId =>
      refine follows_isRateLimited fun limited => ?_
      split_ifs
      · trivial
      · exact uncounted_acknowledge event
    | action actionId rest =>
      refine follows_isRateLimited fun limited => ?_
      split_ifs
      · trivial
      · cases parseAction rest with
        | none => exact uncounted_bind rfl fun _ => trivial
        | some wire =>
          refine uncounted_bind rfl fun expected => ?_
          split_ifs
          · exact uncounted_refuse _
          · exact uncounted_deduplicate wire

end Handlers

/-! ### The invariant -/

/-- The keys that the handlers are still to give their time to live. -/
def waiting (ls : List (GatewayCall × List String)) : List String :=
  ls.flatMap Prod.snd

/-- The counters are sound, and one without a time to live is about to be given it, unless a command
has failed. -/
structure LimitInv (s : Gateway × Meter) (ls : List (GatewayCall × List String)) : Prop where
  sound : ∀ k, (counters s k).Sound (10 * 1000) s.1.now (s.2.requests.flatMap (Request.hits k))
  unset : ∀ k ∈ waiting ls, s.1.expiry k = none ∧ s.1.counters k ≠ 0
  once : (waiting ls).Nodup

section Invariant

variable {config : GatewayConfig} {s s' : Gateway × Meter} {r : GatewayCall} {keys : List String}
  {ls ls' : List (GatewayCall × List String)} {key : String} {c : GatewayCmd}

lemma LimitInv.perm (h : LimitInv s ls) (hperm : ls ~ ls') : LimitInv s ls' where
  sound := h.sound
  unset k hk := h.unset k ((hperm.flatMap_right _).mem_iff.mpr hk)
  once := (hperm.flatMap_right _).nodup_iff.mp h.once

/-- Only the counters and the clock matter. -/
lemma LimitInv.congr (h : LimitInv s ls) (hcounters : s'.1.counters = s.1.counters)
    (hexpiry : s'.1.expiry = s.1.expiry) (hnow : s.1.now ≤ s'.1.now) (hmeter : s'.2 = s.2) :
    LimitInv s' ls := by
  have hsame : counters s' = counters s := by
    unfold counters
    rw [hcounters, hexpiry, hmeter]
  constructor
  · intro k
    rw [hsame, hmeter]
    exact (h.sound k).later hnow
  · rw [hcounters, hexpiry]
    exact h.unset
  · exact h.once

/-- A handler stops before it has given a counter its time to live. -/
lemma LimitInv.drop (h : LimitInv s ((r, keys) :: ls)) : LimitInv s ((r, []) :: ls) where
  sound := h.sound
  unset k hk := h.unset k (mem_append_right keys hk)
  once := (nodup_append.mp h.once).2.1

lemma sound_incremented {window now : ℕ} {cs : String → Counter} {hits : String → List Hit}
    (h : ∀ k, (cs k).Sound window now (hits k)) (k : String) :
    (incremented now key cs k).Sound window now
      (hits k ++ if key = k then [(cs key).hit now] else []) := by
  split_ifs with hkey
  · subst hkey
    rw [incremented, update_self]
    exact (h key).count
  · rw [incremented, update_of_ne (Ne.symm hkey), append_nil]
    exact h k

/-- The number that all messages together give to this one. -/
lemma all_value : (number key s).all.value =
    update s.1.counters key (s.1.counters key + 1) globalActionCounterKey + 1 :=
  congrArg (· + 1) (incremented_value s.1.now (counters s) _)

/-- A counter that is about to be given its time to live has just begun. -/
lemma eq_zero_of_toExpire {k : String}
    (hk : k ∈ toExpire key (number key s).own.value (number key s).all.value) :
    s.1.counters k = 0 := by
  rcases mem_append.mp hk with hk | hk
  · split_ifs at hk with hone
    · rw [mem_singleton.mp hk]
      exact Nat.succ.inj hone
    · exact absurd hk not_mem_nil
  · split_ifs at hk with hone
    · rw [mem_singleton.mp hk]
      rw [all_value] at hone
      have hzero := Nat.succ.inj hone
      rcases eq_or_ne globalActionCounterKey key with hkey | hkey
      · rw [hkey, update_self] at hzero
        exact absurd hzero (Nat.succ_ne_zero _)
      · rwa [update_of_ne hkey] at hzero
    · exact absurd hk not_mem_nil

lemma nodup_toExpire :
    (toExpire key (number key s).own.value (number key s).all.value).Nodup := by
  unfold toExpire
  split_ifs with hown hall
  · -- the two `INCR`s of one key do not both begin it
    have hne : key ≠ globalActionCounterKey := by
      rintro rfl
      rw [all_value, update_self] at hall
      exact Nat.succ_ne_zero _ (Nat.succ.inj hall)
    simpa using hne
  · exact nodup_singleton _
  · exact nodup_singleton _
  · exact nodup_nil

/-- A counter that has begun goes on. -/
lemma incremented_ne_zero {cs : String → Counter} {k : String} (now : ℕ)
    (h : (cs k).value ≠ 0 ∨ k = key) : (incremented now key cs k).value ≠ 0 := by
  rw [incremented_value]
  rcases eq_or_ne k key with rfl | hne
  · rw [update_self]
    exact Nat.succ_ne_zero _
  · rw [update_of_ne hne]
    exact h.resolve_right hne

/-- A message is counted. -/
lemma LimitInv.incr (h : LimitInv s ((r, []) :: ls)) :
    LimitInv ((GatewayCmd.exec config (.incr key) s.1).2, Meter.note (.incr key) s.1 s.2)
      ((r, toExpire key (number key s).own.value (number key s).all.value) :: ls) := by
  have hcounters : ∀ k, (GatewayCmd.exec config (.incr key) s.1).2.counters k =
      (afterMulti key s k).value := fun k =>
    congrArg Counter.value (@counters_incr config s key k)
  constructor
  · intro k
    have hsound := @sound_incremented globalActionCounterKey _ _ _ _
      (@sound_incremented key _ _ _ _ h.sound) k
    rw [append_assoc] at hsound
    rw [counters_incr]
    simp only [Meter.note, flatMap_append, flatMap_singleton]
    exact hsound
  · intro k hk
    rcases mem_append.mp hk with hk | hk
    · have hzero := eq_zero_of_toExpire hk
      constructor
      · -- a counter with a time to live has begun
        cases hexpiry : s.1.expiry k with
        | none => exact hexpiry
        | some t => exact absurd hzero ((h.sound k).ends t hexpiry).1
      · rw [hcounters]
        refine incremented_ne_zero _ ?_
        rcases mem_append.mp hk with hk | hk
        · split_ifs at hk
          · exact Or.inl (incremented_ne_zero _ (Or.inr (mem_singleton.mp hk)))
          · exact absurd hk not_mem_nil
        · split_ifs at hk
          · exact Or.inr (mem_singleton.mp hk)
          · exact absurd hk not_mem_nil
    · obtain ⟨hexpiry, hne⟩ := h.unset k hk
      refine ⟨hexpiry, ?_⟩
      rw [hcounters]
      exact incremented_ne_zero _ (Or.inl (incremented_ne_zero _ (Or.inl hne)))
  · refine nodup_append.mpr ⟨nodup_toExpire, h.once, ?_⟩
    rintro k hk _ hk' rfl
    exact (h.unset k hk').2 (eq_zero_of_toExpire hk)

lemma LimitInv.expire (h : LimitInv s ((r, key :: keys) :: ls)) :
    LimitInv ((GatewayCmd.exec config (.expire key) s.1).2, s.2) ((r, keys) :: ls) := by
  have hne : ∀ k ∈ waiting ((r, keys) :: ls), k ≠ key := by
    rintro k hk rfl
    exact (nodup_cons.mp h.once).1 hk
  constructor
  · intro k
    rcases eq_or_ne k key with rfl | hkey
    · have hcounter : counters ((GatewayCmd.exec config (.expire k) s.1).2, s.2) k =
          (counters s k).expire (s.1.now + 10 * 1000) := by
        simp only [counters, GatewayCmd.exec, update_self, Counter.expire]
      rw [hcounter]
      exact (h.sound k).expire (h.unset k mem_cons_self).2 (Nat.le_refl _)
    · have hcounter : counters ((GatewayCmd.exec config (.expire key) s.1).2, s.2) k =
          counters s k := by
        simp only [counters, GatewayCmd.exec, update_of_ne hkey]
      rw [hcounter]
      exact h.sound k
  · intro k hk
    obtain ⟨hexpiry, hvalue⟩ := h.unset k (mem_cons_of_mem _ hk)
    refine ⟨?_, hvalue⟩
    exact (update_of_ne (hne k hk) _ _).trans hexpiry
  · exact (nodup_cons.mp h.once).2

/-- A counter comes to the end of its time. -/
lemma LimitInv.forget {t : ℕ} (h : LimitInv s ls) (ht : s.1.expiry key = some t)
    (hdue : t ≤ s.1.now) :
    LimitInv ({ s.1 with
      counters := update s.1.counters key 0, expiry := update s.1.expiry key none }, s.2) ls := by
  constructor
  · intro k
    rcases eq_or_ne k key with rfl | hkey
    · simp only [counters, update_self]
      exact (h.sound k).forget ht hdue
    · simp only [counters, update_of_ne hkey]
      exact h.sound k
  · intro k hk
    obtain ⟨hexpiry, hvalue⟩ := h.unset k hk
    have hkey : k ≠ key := by
      rintro rfl
      rw [ht] at hexpiry
      exact Option.some_ne_none t hexpiry
    exact ⟨(update_of_ne hkey _ _).trans hexpiry, by simpa only [update_of_ne hkey] using hvalue⟩
  · exact h.once

/-- The counters and the clock are the same. -/
structure SameCounters (s s' : Gateway) : Prop where
  counters : s'.counters = s.counters
  expiry : s'.expiry = s.expiry
  now : s'.now = s.now

lemma SameCounters.enqueue (n : ℕ) (clientId : String) (event : ServerEvent) (s : Gateway) :
    SameCounters s (s.enqueue n clientId event) := by
  unfold Gateway.enqueue
  split_ifs <;> exact ⟨rfl, rfl, rfl⟩

lemma SameCounters.applyAction (clientId : String) (actionId : ActionId) (time : ℕ)
    (wire : WireGameAction) (s : Gateway) :
    SameCounters s (GatewayCmd.execApplyAction config s clientId actionId time wire).2 := by
  unfold GatewayCmd.execApplyAction
  split
  · exact ⟨rfl, rfl, rfl⟩
  · split
    · exact ⟨rfl, rfl, rfl⟩
    · have hsent := SameCounters.enqueue config.queueLimit clientId
      obtain ⟨hcounters, hexpiry, hnow⟩ := hsent (.state _ _) (Gateway.log _ _)
      exact ⟨hcounters, hexpiry, hnow⟩

/-- The other commands leave the counters and the clock alone. -/
lemma sameCounters_exec (hc : Uncounted c) (s : Gateway) :
    SameCounters s (GatewayCmd.exec config c s).2 := by
  cases c with
  | incr | expire => cases hc
  | enqueue clientId event => exact .enqueue _ _ _ _
  | sendReplay clientId state => exact .enqueue _ _ _ _
  | applyAction clientId actionId time wire => exact .applyAction _ _ _ _ _
  | roomApply playerId tableId =>
    simp only [GatewayCmd.exec, GatewayCmd.execRoomApply]
    split_ifs
    · split <;> exact ⟨rfl, rfl, rfl⟩
    · exact ⟨rfl, rfl, rfl⟩
  | saveHand tableId =>
    simp only [GatewayCmd.exec]
    split <;> exact ⟨rfl, rfl, rfl⟩
  | spectate tableId tick =>
    simp only [GatewayCmd.exec]
    split <;> exact ⟨rfl, rfl, rfl⟩
  | _ => exact ⟨rfl, rfl, rfl⟩

lemma note_uncounted (hc : Uncounted c) (s : Gateway) (m : Meter) : Meter.note c s m = m := by
  cases c <;> first | rfl | cases hc

/-- Every command that the discipline allows keeps the invariant. -/
lemma LimitInv.call (h : LimitInv s ((r, keys) :: ls)) (hallowed : limitAllowed keys c) :
    LimitInv ((GatewayCmd.exec config c s.1).2, Meter.note c s.1 s.2)
      ((r, limitNext keys c (some (GatewayCmd.exec config c s.1).1)) :: ls) := by
  by_cases hc : Uncounted c
  · rw [limitNext_uncounted hc, note_uncounted hc]
    have hsame : SameCounters s.1 (GatewayCmd.exec config c s.1).2 := sameCounters_exec hc s.1
    obtain ⟨hcounters, hexpiry, hnow⟩ := hsame
    exact h.congr hcounters hexpiry (Nat.le_of_eq hnow.symm) rfl
  · cases c with
    | incr key =>
      obtain rfl : keys = [] := hallowed
      rw [exec_incr]
      exact h.incr
    | expire key =>
      cases keys with
      | nil => exact absurd hallowed.symm (Option.some_ne_none key)
      | cons k keys =>
        obtain rfl : k = key := Option.some.inj hallowed
        exact h.expire
    | _ => exact absurd rfl hc

lemma LimitInv.env (h : LimitInv s ls) {g' : Gateway} (henv : Gateway.Env config s.1 g') :
    LimitInv (g', s.2) ls := by
  cases henv with
  | wait ms => exact h.congr rfl rfl (Nat.le_add_right _ ms) rfl
  | forget key hdue =>
    obtain ⟨t, ht, hle⟩ := hdue
    exact h.forget ht hle
  | _ => exact h.congr rfl rfl (Nat.le_refl _) rfl

lemma LimitInv.initial (h : Gateway.Initial config s.1) (hmeter : s.2 = {}) : LimitInv s [] := by
  obtain ⟨g, m⟩ := s
  obtain ⟨now, flags, hands, draws, rfl⟩ := h
  subst hmeter
  exact ⟨fun k => Counter.sound_new, fun k hk => absurd hk not_mem_nil, nodup_nil⟩

end Invariant

/-! ### Runs -/

/-- The messages with key `k` that pass in the 10 s from `a` on. -/
def Meter.passedWithin (config : GatewayConfig) (m : Meter) (k : String) (a : ℕ) : List Request :=
  m.requests.filter fun r =>
    r.key = k ∧ r.passes config.globalLimit ∧ a ≤ r.own.time ∧ r.own.time < a + 10 * 1000

def Meter.allWithin (config : GatewayConfig) (m : Meter) (a : ℕ) : List Request :=
  m.requests.filter fun r =>
    r.passes config.globalLimit ∧ a ≤ r.all.time ∧ r.all.time < a + 10 * 1000

/-- What is picked from the elements that pass is among what passes of all their parts. -/
lemma map_filter_sublist {A B : Type} {p : A → Bool} {f : A → B} {g : A → List B} {q : B → Bool}
    (h : ∀ x, p x → [f x] <+ (g x).filter q) (xs : List A) :
    (xs.filter p).map f <+ (xs.flatMap g).filter q := by
  induction xs with
  | nil => exact nil_sublist _
  | cons x xs ih =>
    rw [flatMap_cons, filter_append]
    by_cases hx : p x
    · rw [filter_cons_of_pos hx, map_cons]
      exact (h x hx).append ih
    · rw [filter_cons_of_neg hx]
      exact ih.trans (sublist_append_right _ _)

section Runs

variable {config : GatewayConfig}
  {P : Pool GatewayCmd.Answer String Unit (Gateway × Meter) GatewayCall}

lemma LimitInv.start {s : Gateway × Meter} {ls : List (GatewayCall × List String)}
    (h : LimitInv s ls) (r : GatewayCall) : LimitInv s (ls ++ [(r, [])]) := by
  have hwaiting : waiting (ls ++ [(r, [])]) = waiting ls := by
    rw [waiting, flatMap_append, flatMap_singleton, append_nil, waiting]
  refine ⟨h.sound, ?_, ?_⟩
  · rw [hwaiting]
    exact h.unset
  · rw [hwaiting]
    exact h.once

lemma limitNext_none (keys : List String) (c : GatewayCmd) : limitNext keys c none = [] := by
  cases c <;> rfl

theorem limitInv_of_reachable (h : (metered config).system.Reachable P) :
    ∃ ls, LimitInv P.state ls := by
  have htrue : ((metered config).system.restrict fun _ _ => True).Reachable P :=
    h.restrict_true fun _ _ => trivial
  obtain ⟨ls, -, hinv⟩ := Service.staged_invariant (S := metered config) (D := limit) (Q := Settled)
    (I := LimitInv) (fun _ _ _ => True) follows_body (fun _ _ _ _ _ _ => trivial)
    (fun s ls r hinv _ _ => hinv.start r)
    (fun s ls₁ ls₂ r l c hinv hallowed _ =>
      ((hinv.perm perm_middle).call hallowed).perm perm_middle.symm)
    (fun s ls₁ ls₂ r l c hinv _ _ _ => by
      have hnone : limit.next l c none = [] := limitNext_none l c
      rw [hnone]
      exact (hinv.perm perm_middle).drop.perm perm_middle.symm)
    (fun s s' ls hinv henv _ => by
      obtain ⟨g', m'⟩ := s'
      obtain ⟨henv, rfl⟩ := henv
      exact hinv.env henv)
    (fun s hs => .initial hs.1 hs.2) htrue
  exact ⟨ls, hinv⟩

/-- Of the messages of a sender at most 60 pass in any 10 s, and of all messages at most twice as
many as the global limit says. -/
theorem rate_limit (h : (metered config).system.Reachable P) (a : ℕ) :
    (∀ k, (P.state.2.passedWithin config k a).length ≤ 2 * 30) ∧
      (P.state.2.allWithin config a).length ≤ 2 * config.globalLimit := by
  obtain ⟨ls, hinv⟩ := limitInv_of_reachable h
  constructor
  · intro k
    have hle := (hinv.sound k).length_le 30 a
    refine Nat.le_trans ?_ hle
    rw [← length_map Request.own]
    refine (map_filter_sublist (fun r hr => ?_) _).length_le
    obtain ⟨rfl, hpasses, hfrom, huntil⟩ := of_decide_eq_true hr
    have hvalue : r.own.value ≤ 30 := of_decide_eq_true (Bool.and_eq_true_iff.mp hpasses).2
    rw [Request.hits, if_pos rfl, filter_append, filter_singleton]
    simp [hvalue, hfrom, huntil]
  · have hle := (hinv.sound globalActionCounterKey).length_le config.globalLimit a
    refine Nat.le_trans ?_ hle
    rw [← length_map Request.all]
    refine (map_filter_sublist (fun r hr => ?_) _).length_le
    obtain ⟨hpasses, hfrom, huntil⟩ := of_decide_eq_true hr
    have hvalue : r.all.value ≤ config.globalLimit :=
      of_decide_eq_true (Bool.and_eq_true_iff.mp hpasses).1
    rw [Request.hits, if_pos rfl, filter_append, filter_singleton]
    simp [hvalue, hfrom, huntil]

end Runs

/-! ### Thirty-one messages -/

instance (config : GatewayConfig) (s : Gateway × Meter) (r : GatewayCall) :
    Decidable ((metered config).ready s r) :=
  inferInstanceAs (Decidable ((gatewayService config).ready s.1 r))

instance (config : GatewayConfig) (s : Gateway × Meter) (c : GatewayCmd) :
    Decidable ((metered config).fails s c) :=
  inferInstanceAs (Decidable (c.External = true))

/-- A gateway without tables. -/
def idleGateway : Gateway :=
  { now := 0, flags := none, hands := none
    drawn := fun _ => .create zeroSeedHash zeroSeed zeroNonce }

/-- Messages of one sender, one after another. -/
def joins (n : ℕ) : List (Service.Move (Gateway × Meter) GatewayCall) :=
  (range n).flatMap fun i =>
    .start (.message (socketOf "A") (.seat .join "j")) :: replicate 6 (.call i)

@[irreducible] def afterJoins :
    Pool GatewayCmd.Answer String Unit (Gateway × Meter) GatewayCall :=
  (metered zeroSeedConfig).playAll ⟨(idleGateway, {}), []⟩ (joins 31)

/-- Of 31 messages at once the last one is turned away. -/
theorem rate_limit_joins :
    (afterJoins.state.2.passedWithin zeroSeedConfig "game:action_counter:A" 0).length = 30 ∧
      (afterJoins.state.2.passedWithin zeroSeedConfig "game:action_counter:A" 0).length ≤
        2 * 30 := by
  have hreach :
      ((metered zeroSeedConfig).system.restrict fun _ _ => True).Reachable afterJoins := by
    have hinit : (metered zeroSeedConfig).init (idleGateway, {}) :=
      ⟨⟨0, none, none, fun _ => (zeroSeed, zeroNonce), rfl⟩, rfl⟩
    unfold afterJoins
    exact Service.reachable_playAll_of_closed hinit (by decide +kernel)
  exact ⟨by decide +kernel, (rate_limit hreach.of_restrict 0).1 _⟩

/-! ### A counter without a time to live -/

section Lost

variable {config : GatewayConfig} {key : String} {n : ℕ} {g g' : Gateway} {r : GatewayCall}
  {keys : List String} {ls ls' : List (GatewayCall × List String)} {c : GatewayCmd}

/-- The counter has no time to live, and no handler is about to give it one. -/
structure Lost (key : String) (n : ℕ) (g : Gateway) (ls : List (GatewayCall × List String)) :
    Prop where
  expiry : g.expiry key = none
  le : n ≤ g.counters key
  unwaited : key ∉ waiting ls

lemma Lost.perm (h : Lost key n g ls) (hperm : ls ~ ls') : Lost key n g ls' where
  expiry := h.expiry
  le := h.le
  unwaited hmem := h.unwaited ((hperm.flatMap_right _).mem_iff.mpr hmem)

/-- Counters only grow as long as they are not forgotten. -/
lemma le_counters_incr (key k : String) (g : Gateway) :
    g.counters k ≤ (GatewayCmd.exec config (.incr key) g).2.counters k := by
  have hle : ∀ (f : String → ℕ) (k' : String), f k ≤ update f k' (f k' + 1) k := by
    intro f k'
    rcases eq_or_ne k k' with rfl | hne
    · rw [update_self]
      exact Nat.le_succ _
    · rw [update_of_ne hne]
  exact Nat.le_trans (hle _ key) (hle _ globalActionCounterKey)

/-- No command gives it one. -/
lemma Lost.call (hn : n ≠ 0) (h : Lost key n g ((r, keys) :: ls)) (hallowed : limitAllowed keys c) :
    Lost key n (GatewayCmd.exec config c g).2
      ((r, limitNext keys c (some (GatewayCmd.exec config c g).1)) :: ls) := by
  by_cases hc : Uncounted c
  · have hsame : SameCounters g (GatewayCmd.exec config c g).2 := sameCounters_exec hc g
    obtain ⟨hcounters, hexpiry, -⟩ := hsame
    rw [limitNext_uncounted hc]
    exact ⟨hexpiry ▸ h.expiry, hcounters ▸ h.le, h.unwaited⟩
  · cases c with
    | incr key' =>
      refine ⟨h.expiry, Nat.le_trans h.le (le_counters_incr _ _ _), fun hmem => ?_⟩
      rcases mem_append.mp hmem with hmem | hmem
      · have hanswer := @exec_incr config (g, {}) key'
        rw [hanswer] at hmem
        have hzero := eq_zero_of_toExpire (s := (g, {})) hmem
        exact hn (Nat.le_zero.mp (hzero ▸ h.le))
      · exact h.unwaited (mem_append_right keys hmem)
    | expire key' =>
      cases keys with
      | nil => exact absurd hallowed.symm (Option.some_ne_none key')
      | cons k keys =>
        obtain rfl : k = key' := Option.some.inj hallowed
        have hne : key ≠ k := by
          rintro rfl
          exact h.unwaited mem_cons_self
        refine ⟨?_, h.le, fun hmem => h.unwaited (mem_cons_of_mem k hmem)⟩
        exact (update_of_ne hne _ _).trans h.expiry
    | _ => exact absurd rfl hc

/-- It does not come to the end of its time. -/
lemma Lost.env (h : Lost key n g ls) (henv : Gateway.Env config g g') : Lost key n g' ls := by
  cases henv with
  | forget key' hdue =>
    obtain ⟨t, ht, -⟩ := hdue
    have hne : key ≠ key' := by
      rintro rfl
      rw [h.expiry] at ht
      exact absurd ht (Option.not_mem_none t)
    refine ⟨(update_of_ne hne _ _).trans h.expiry, ?_, h.unwaited⟩
    exact Nat.le_trans h.le (Nat.le_of_eq (update_of_ne hne _ _).symm)
  | _ => exact ⟨h.expiry, h.le, h.unwaited⟩

/-- Handlers that are done wait for nothing. -/
lemma staged_of_done {ts : List (GatewayCall × GatewayM Unit)} (h : ∀ t ∈ ts, t.2.Done) :
    Service.Staged limit Settled ts (ts.map fun t => (t.1, [])) := by
  refine forall₂_map_right_iff.mpr (forall₂_same.mpr fun t ht => ⟨rfl, ?_⟩)
  have hdone := h t ht
  revert hdone
  cases t.2 with
  | call c next => exact fun hdone => absurd hdone (not_done_call c next)
  | _ => exact fun _ => rfl

/-- Once the `EXPIRE` of a counter is lost, a sender whose 30 messages are used up never gets
another one through, whatever time passes. -/
theorem limited_forever {P P' : Pool GatewayCmd.Answer String Unit Gateway GatewayCall}
    {client : GameSocket} (hdone : ∀ t ∈ P.threads, t.2.Done)
    (hexpiry : P.state.expiry (getRateLimitKey client) = none)
    (hcount : 30 ≤ P.state.counters (getRateLimitKey client))
    (h : Relation.ReflTransGen (gatewayService config).system.Moves P P') :
    ((config.isRateLimited client).run (GatewayCmd.exec config) P'.state).1 = .ok true := by
  have hwaiting : getRateLimitKey client ∉ waiting (P.threads.map fun t => (t.1, [])) := by
    simp [waiting]
  have htrue : Relation.ReflTransGen
      ((gatewayService config).system.restrict fun _ _ => True).Moves P P' :=
    h.lift id fun _ _ ⟨a, hstep⟩ => ⟨a, trivial, hstep⟩
  obtain ⟨ls, -, hlost⟩ := Service.staged_invariant_of_moves (S := gatewayService config)
    (D := limit) (Q := Settled) (I := Lost (getRateLimitKey client) 30) (fun _ _ _ => True)
    follows_body (fun _ _ _ _ _ _ => trivial)
    (fun s ls r hlost _ _ => ⟨hlost.expiry, hlost.le, by simpa [waiting] using hlost.unwaited⟩)
    (fun s ls₁ ls₂ r l c hlost hallowed _ =>
      ((hlost.perm perm_middle).call (by decide) hallowed).perm perm_middle.symm)
    (fun s ls₁ ls₂ r l c hlost _ _ _ => by
      have hnone : limit.next l c none = [] := limitNext_none l c
      rw [hnone]
      refine ⟨hlost.expiry, hlost.le, fun hmem => hlost.unwaited ?_⟩
      simp only [waiting, flatMap_append, flatMap_cons, nil_append] at hmem ⊢
      exact ((Sublist.refl _).append (sublist_append_right _ _)).subset hmem)
    (fun s s' ls hlost henv _ => hlost.env henv) htrue
    ⟨_, staged_of_done hdone, hexpiry, hcount, hwaiting⟩
  have hrun := @run_isRateLimited config (P'.state, {}) client
  have hover : (number (getRateLimitKey client) (P'.state, {})).passes config.globalLimit =
      false := by
    rw [Request.passes, Bool.and_eq_false_iff]
    exact Or.inr (decide_eq_false (Nat.not_le.mpr (Nat.lt_succ_of_le hlost.le)))
  rw [hover] at hrun
  exact hrun

end Lost

lemma moves_wait (config : GatewayConfig)
    (P : Pool GatewayCmd.Answer String Unit Gateway GatewayCall) (ms : ℕ) :
    (gatewayService config).system.Moves P
      ⟨{ P.state with now := P.state.now + ms }, P.threads⟩ := by
  obtain ⟨s, ts⟩ := P
  exact ⟨.env, .env (.wait ms)⟩

/-- A message of a sender, the `EXPIRE` of whose counter fails, and 29 more. -/
def expireLost : List (Service.Move Gateway GatewayCall) :=
  [.start (.message (socketOf "A") (.seat .join "j")), .call 0, .fault 0] ++
    (range' 1 29).flatMap fun i =>
      .start (.message (socketOf "A") (.seat .join "j")) :: replicate 4 (.call i)

@[irreducible] def afterExpireLost : Pool GatewayCmd.Answer String Unit Gateway GatewayCall :=
  (gatewayService zeroSeedConfig).playAll ⟨twoConnected, []⟩ expireLost

/-- A quarter of an hour later the sender is still turned away. -/
theorem limited_forever_expireLost :
    ((zeroSeedConfig.isRateLimited (socketOf "A")).run (GatewayCmd.exec zeroSeedConfig)
      { afterExpireLost.state with now := afterExpireLost.state.now + 900000 }).1 = .ok true := by
  have hdone : ∀ t ∈ afterExpireLost.threads, t.2.Done := by
    unfold Done
    decide +kernel
  have hexpiry : afterExpireLost.state.expiry (getRateLimitKey (socketOf "A")) = none := by
    decide +kernel
  have hcount : 30 ≤ afterExpireLost.state.counters (getRateLimitKey (socketOf "A")) := by
    decide +kernel
  have hlimited := limited_forever (P := afterExpireLost) hdone hexpiry hcount
    (.single (moves_wait zeroSeedConfig afterExpireLost 900000))
  exact hlimited

end Pokerhub.RateLimit
