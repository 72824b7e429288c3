import Mathlib.Algebra.Order.BigOperators.Group.List
import Mathlib.Tactic.Linarith
import Mathlib.Tactic.Ring
import Pokerhub.Core.Service
import Pokerhub.Wallet.Requests

/-!
# The daily limit

A request adds its amount to the counter of the day before it looks at the limit, and takes it back
if the limit is passed, so the counter is the sum of the amounts that were accepted and of amounts
that are to be taken back.
-/

namespace Pokerhub.Wallet

open List Program

/-- A call of `enforceDailyLimit`. -/
structure LimitCall where
  op : Kind
  accountId : String
  amount : ℤ
  dateKey : String
  deriving DecidableEq, Repr

def LimitCall.key (r : LimitCall) : CounterKey :=
  .daily r.op r.accountId r.dateKey

/-- The calls of the requests of the day whose counter is `key`, any number of them at the same
time. All else that a request or another service does is a step of the environment, which leaves
that counter alone; every command may fail. -/
def limitService (limits : Limits) (key : CounterKey) :
    Service Cmd.Answer String Unit Store LimitCall where
  init s := s.counters key = none
  ready _ r := 0 < r.amount
  body r := enforceDailyLimit limits r.op r.accountId r.amount r.dateKey
  exec _ := Cmd.exec
  fails _ _ := True
  env s s' := s'.counters key = s.counters key

instance (limits : Limits) (key : CounterKey) (s : Store) (r : LimitCall) :
    Decidable ((limitService limits key).ready s r) :=
  inferInstanceAs (Decidable (0 < r.amount))

instance (limits : Limits) (key : CounterKey) (s : Store) (c : Cmd) :
    Decidable ((limitService limits key).fails s c) :=
  isTrue trivial

instance (limits : Limits) (key : CounterKey) (s s' : Store) :
    Decidable ((limitService limits key).env s s') :=
  inferInstanceAs (Decidable (s'.counters key = s.counters key))

/-- `enforceDailyLimit` has returned without error. -/
def Accepted (key : CounterKey) (t : LimitCall × WalletM Unit) : Bool :=
  t.1.key == key && match t.2.outcome with
    | some (.ok _) => true
    | _ => false

/-- The sum of the amounts that were accepted. -/
def acceptedAmount (key : CounterKey) (threads : List (LimitCall × WalletM Unit)) : ℤ :=
  ((threads.filter (Accepted key)).map (·.1.amount)).sum

/-! ### The invariant -/

/-- How far a call has come. -/
inductive LimitStage where
  | fresh
  /-- The amount was added within the limit. -/
  | passed
  /-- The amount was added, and the call does not accept it. -/
  | charged
  | undone
  deriving DecidableEq

/-- What a call has in the counter. -/
def LimitCall.charge (key : CounterKey) : LimitCall × LimitStage → ℤ
  | (r, .passed) => if r.key = key then r.amount else 0
  | (r, .charged) => if r.key = key then r.amount else 0
  | _ => 0

/-- What a call has in the counter within the limit. -/
def LimitCall.share (key : CounterKey) : LimitCall × LimitStage → ℤ
  | (r, .passed) => if r.key = key then r.amount else 0
  | _ => 0

structure WithinLimit (limits : Limits) (key : CounterKey) (s : Store)
    (ls : List (LimitCall × LimitStage)) : Prop where
  count : s.count key = (ls.map (LimitCall.charge key)).sum
  positive : ∀ rl ∈ ls, 0 < rl.1.amount
  within : ∀ op accountId dateKey L, key = .daily op accountId dateKey → limits.daily op = some L →
    (ls.map (LimitCall.share key)).sum ≤ max L 0

variable {limits : Limits} {key : CounterKey} {s s' : Store} {ls : List (LimitCall × LimitStage)}

lemma Store.count_congr (h : s'.counters key = s.counters key) : s'.count key = s.count key := by
  rw [Store.count, Store.count, h]

lemma Store.count_incrby (k : CounterKey) (n : ℤ) :
    (s.incrby k n).count key = s.count key + if k = key then n else 0 := by
  by_cases hk : k = key
  · subst hk
    rw [if_pos rfl, Store.count, Store.incrby]
    cases hc : s.counters k <;> simp [Store.count, hc]
  · rw [if_neg hk, add_zero]
    exact count_congr (Function.update_of_ne (Ne.symm hk) _ _)

lemma Store.count_expire (k : CounterKey) :
    ((Cmd.expire k).exec s).2.count key = s.count key := by
  simp only [Cmd.exec]
  split
  · rename_i c hc
    by_cases hk : k = key
    · subst hk
      simp [Store.count, hc]
    · exact count_congr (Function.update_of_ne (Ne.symm hk) _ _)
  · rfl

lemma LimitCall.share_le_charge {rl : LimitCall × LimitStage} (h : 0 < rl.1.amount) :
    LimitCall.share key rl ≤ LimitCall.charge key rl := by
  obtain ⟨r, l⟩ := rl
  cases l with
  | charged =>
    simp only [share, charge]
    split
    · exact h.le
    · exact le_rfl
  | _ => exact le_rfl

lemma sum_share_le {xs : List (LimitCall × LimitStage)} (h : ∀ rl ∈ xs, 0 < rl.1.amount) :
    (xs.map (LimitCall.share key)).sum ≤ (xs.map (LimitCall.charge key)).sum :=
  List.sum_le_sum fun rl hrl => LimitCall.share_le_charge (h rl hrl)

/-- The call in the middle goes on to the stage `l'`. -/
lemma WithinLimit.stage {ls₁ ls₂ : List (LimitCall × LimitStage)} {r : LimitCall} {l l' : LimitStage}
    (h : WithinLimit limits key s (ls₁ ++ (r, l) :: ls₂))
    (hcount : s'.count key = s.count key + (LimitCall.charge key (r, l') - LimitCall.charge key (r, l)))
    (hwithin : LimitCall.share key (r, l') ≤ LimitCall.share key (r, l) ∨
      ∀ L, limits.daily r.op = some L → r.key = key → s'.count key ≤ L) :
    WithinLimit limits key s' (ls₁ ++ (r, l') :: ls₂) := by
  have hpos : ∀ rl ∈ ls₁ ++ (r, l') :: ls₂, 0 < rl.1.amount := by
    intro rl hrl
    rcases Service.mem_replaced hrl with hrl | rfl
    · exact h.positive rl hrl
    · exact h.positive (r, l) (by simp)
  have hsum : s'.count key = ((ls₁ ++ (r, l') :: ls₂).map (LimitCall.charge key)).sum := by
    rw [hcount, h.count]
    simp only [map_append, map_cons, sum_append, sum_cons]
    ring
  refine ⟨hsum, hpos, ?_⟩
  intro op accountId dateKey L hkey hL
  have hold := h.within op accountId dateKey L hkey hL
  have hless : LimitCall.share key (r, l') ≤ LimitCall.share key (r, l) →
      ((ls₁ ++ (r, l') :: ls₂).map (LimitCall.share key)).sum ≤ max L 0 := by
    intro hle
    simp only [map_append, map_cons, sum_append, sum_cons] at hold ⊢
    linarith
  rcases hwithin with hle | hbound
  · exact hless hle
  · by_cases hr : r.key = key
    · have hop : r.op = op := by
        rw [hkey] at hr
        simp only [LimitCall.key, CounterKey.daily.injEq] at hr
        exact hr.1
      calc ((ls₁ ++ (r, l') :: ls₂).map (LimitCall.share key)).sum
          ≤ ((ls₁ ++ (r, l') :: ls₂).map (LimitCall.charge key)).sum := sum_share_le hpos
        _ = s'.count key := hsum.symm
        _ ≤ L := hbound L (hop ▸ hL) hr
        _ ≤ max L 0 := le_max_left L 0
    · refine hless ?_
      cases l' <;> cases l <;> simp [LimitCall.share, hr]

/-! ### The calls keep it -/

/-- A command that leaves the counter alone. -/
lemma wp_steady {r : LimitCall} {c : Cmd} {l : LimitStage}
    {Q : Except String c.Answer → LimitStage → Prop}
    (hc : ∀ s : Store, (c.exec s).2.count key = s.count key)
    (hok : ∀ s, Q (.ok (c.exec s).1) l) (herr : ∀ e, Q (.error e) l) :
    (run c).wp ((limitService limits key).protocol (fun _ _ => True) (WithinLimit limits key) r) Q
      l := by
  refine wp_command fun s γ hinv => ⟨fun _ => ⟨l, ?_, hok s⟩, fun _ => ⟨l, hinv, herr _⟩⟩
  exact hinv.stage (by rw [sub_self, add_zero]; exact hc s) (Or.inl le_rfl)

/-- The rest of a call after its increment. -/
lemma wp_afterIncrement {r : LimitCall} {total : ℤ} {l : LimitStage}
    (hl : l = if (limits.daily r.op).any (· < total) then .charged else .passed) :
    (onlyIf (total == r.amount) (run (.expire r.key) >>= fun _ => pure ()) >>= fun _ =>
      if (limits.daily r.op).any (· < total) then do
        let _ ← run (.incrby r.key (-r.amount))
        emit "antiCheat.flag" r.accountId
        throw "Daily limit exceeded"
      else pure ()).wp
      ((limitService limits key).protocol (fun _ _ => True) (WithinLimit limits key) r)
      (fun
        | .ok _, l => l = .passed
        | .error _, _ => True) l := by
  refine wp_bind (wp_mono (Q := fun
    | .ok _, l' => l' = l
    | .error _, _ => True) (wp_onlyIf (fun _ => ?_) fun _ => rfl) ?_)
  · exact wp_bind (wp_steady (fun s => Store.count_expire _) (fun _ => rfl) fun _ => trivial)
  rintro (e | _) l' hl'
  · trivial
  · subst hl'
    split_ifs at hl ⊢ with hover
    · subst hl
      -- the amount is taken back
      refine wp_bind (wp_command fun s γ hinv => ⟨fun _ => ?_, fun _ => ⟨_, hinv, trivial⟩⟩)
      refine ⟨.undone, hinv.stage ((Store.count_incrby _ _).trans ?_) (Or.inl le_rfl), ?_⟩
      · simp only [LimitCall.charge]
        split_ifs <;> ring
      · exact wp_bind (wp_steady (fun _ => rfl) (fun _ => trivial) fun _ => trivial)
    · exact hl

/-- A call that returns has its amount in the counter, within the limit. -/
lemma wp_enforceDailyLimit (r : LimitCall) :
    ((limitService limits key).body r).wp
      ((limitService limits key).protocol (fun _ _ => True) (WithinLimit limits key) r)
      (fun
        | .ok _, l => l = .passed
        | .error _, _ => True) .fresh := by
  refine wp_bind (wp_command fun s γ hinv => ⟨fun _ => ?_, fun _ => ⟨_, hinv, trivial⟩⟩)
  refine ⟨_, hinv.stage ((Store.count_incrby _ _).trans ?_) ?_, wp_afterIncrement rfl⟩
  · show _ = _ + (LimitCall.charge key (r, if _ then _ else _) - _)
    split_ifs <;> simp_all [LimitCall.charge, LimitCall.key]
  · show LimitCall.share key (r, if _ then _ else _) ≤ _ ∨ _
    split_ifs with hover
    · exact Or.inl le_rfl
    · refine Or.inr fun L hL hr => ?_
      rw [hL, Option.any_some, decide_eq_true_eq, not_lt] at hover
      exact hr ▸ hover

lemma LimitCall.share_nonneg {rl : LimitCall × LimitStage} (h : 0 < rl.1.amount) :
    0 ≤ LimitCall.share key rl := by
  obtain ⟨r, l⟩ := rl
  cases l with
  | passed =>
    simp only [share]
    split
    · exact le_of_lt h
    · exact le_refl 0
  | _ => exact le_refl 0

/-- What was accepted has a share in the counter. -/
lemma acceptedAmount_le {threads : List (LimitCall × WalletM Unit)}
    (h : Forall₂ (fun t rl => t.1 = rl.1 ∧ t.2.wp
      ((limitService limits key).protocol (fun _ _ => True) (WithinLimit limits key) rl.1)
      (fun
        | .ok _, l => l = .passed
        | .error _, _ => True) rl.2) threads ls) (hpos : ∀ rl ∈ ls, 0 < rl.1.amount) :
    acceptedAmount key threads ≤ (ls.map (LimitCall.share key)).sum := by
  induction h with
  | nil => exact le_rfl
  | @cons t rl threads ls ht _ ih =>
    obtain ⟨heq, hwp⟩ := ht
    have hrest := ih fun rl hrl => hpos rl (mem_cons_of_mem _ hrl)
    have hfirst : 0 ≤ LimitCall.share key rl := LimitCall.share_nonneg (hpos rl mem_cons_self)
    rw [map_cons, sum_cons]
    by_cases haccepted : Accepted key t = true
    · rw [acceptedAmount, filter_cons_of_pos haccepted, map_cons, sum_cons]
      have hshare : LimitCall.share key rl = t.1.amount := by
        rw [Accepted, Bool.and_eq_true, beq_iff_eq] at haccepted
        obtain ⟨hkey, hok⟩ := haccepted
        have hpassed : rl.2 = .passed := by
          split at hok
          · rename_i u hout
            exact wp_outcome hwp hout
          · cases hok
        obtain ⟨r, l⟩ := rl
        obtain rfl : l = .passed := hpassed
        have heq : t.1 = r := heq
        rw [heq] at hkey ⊢
        rw [LimitCall.share, if_pos hkey]
      rw [hshare]
      exact Int.add_le_add_left hrest _
    · rw [acceptedAmount, filter_cons_of_neg haccepted]
      exact hrest.trans (by linarith)

/-- The amounts that are accepted on one day stay within the limit, and the counter is never below
their sum. -/
theorem daily_limit (limits : Limits) (op : Kind) (accountId dateKey : String)
    {P : Pool Cmd.Answer String Unit Store LimitCall}
    (h : (limitService limits (.daily op accountId dateKey)).system.Reachable P) :
    (∀ L, limits.daily op = some L →
        acceptedAmount (.daily op accountId dateKey) P.threads ≤ max L 0) ∧
      acceptedAmount (.daily op accountId dateKey) P.threads ≤
        P.state.count (.daily op accountId dateKey) := by
  have hstart : ∀ s ls (r : LimitCall),
      WithinLimit limits (.daily op accountId dateKey) s ls → 0 < r.amount →
      WithinLimit limits (.daily op accountId dateKey) s (ls ++ [(r, .fresh)]) := by
    intro s ls r hs hr
    refine ⟨?_, ?_, ?_⟩
    · simpa [LimitCall.charge] using hs.count
    · intro rl hrl
      rcases mem_append.mp hrl with hrl | hrl
      · exact hs.positive rl hrl
      · rw [mem_singleton.mp hrl]
        exact hr
    · simpa [LimitCall.share] using hs.within
  obtain ⟨ls, hthreads, hinv⟩ := Service.invariant
    (I := WithinLimit limits (.daily op accountId dateKey))
    (fun s hs => ⟨by simp [Store.count, show s.counters _ = none from hs], by simp, by simp⟩)
    (fun s ls r hs hr _ => ⟨.fresh, hstart s ls r hs hr, wp_enforceDailyLimit r⟩)
    (fun s s' ls hs henv _ => ⟨(Store.count_congr henv).trans hs.count, hs.positive, hs.within⟩)
    (Service.reachable_within h)
  have haccepted := acceptedAmount_le hthreads hinv.positive
  refine ⟨fun L hL => haccepted.trans (hinv.within op accountId dateKey L rfl hL), ?_⟩
  rw [hinv.count]
  exact haccepted.trans (sum_share_le hinv.positive)

/-- Two deposits of 6 and 5 on a day with the limit 10, both added before either is checked. -/
def twoDepositCalls : Pool Cmd.Answer String Unit Store LimitCall :=
  (limitService { daily := fun _ => some 10 } (.daily .deposit "u1" "2025-01-01")).playAll
    ⟨{ accounts := [] }, []⟩
    [.start ⟨.deposit, "u1", 6, "2025-01-01"⟩, .start ⟨.deposit, "u1", 5, "2025-01-01"⟩, .call 0,
      .call 1, .call 0, .call 1, .call 1]

/-- One of them is accepted. -/
theorem daily_limit_twoDepositCalls :
    acceptedAmount (.daily .deposit "u1" "2025-01-01") twoDepositCalls.threads = 6 ∧
      acceptedAmount (.daily .deposit "u1" "2025-01-01") twoDepositCalls.threads ≤ max 10 0 := by
  refine ⟨by decide +kernel, ?_⟩
  have hreach : ((limitService { daily := fun _ => some 10 }
      (.daily .deposit "u1" "2025-01-01")).within fun _ _ => True).Reachable twoDepositCalls :=
    Service.reachable_playAll rfl (by decide +kernel)
  exact (daily_limit { daily := fun _ => some 10 } .deposit "u1" "2025-01-01"
    hreach.of_restrict).1 10 rfl

end Pokerhub.Wallet
