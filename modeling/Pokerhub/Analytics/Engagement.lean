import Mathlib.Algebra.Order.Field.Rat
import Mathlib.Data.Finset.Card
import Mathlib.Data.List.Dedup
import Mathlib.Tactic.Ring

/-!
# Engagement metrics

`rebuildEngagementMetrics` of `analytics.service.ts`. ClickHouse counts the users of the day and of
the month that ends with it; the fallback reads the Redis streams from the first moment of the
window on, and does not stop at its end. Both compute the same metrics exactly when everybody who
comes after the day was there in it (`metrics_agree_iff`).
-/

namespace Pokerhub

open List

/-! ### Distinct values -/

/-- `uniq`, and the size of a `Set`. -/
def uniq (l : List String) : ℕ :=
  l.toFinset.card

section Uniq

variable {α : Type*} {p q : α → Bool} {f : α → String} {l : List α}

lemma toFinset_filter_subset (hpq : ∀ a ∈ l, p a = true → q a = true) :
    ((l.filter p).map f).toFinset ⊆ ((l.filter q).map f).toFinset := by
  intro x hx
  obtain ⟨a, ha, rfl⟩ := mem_map.mp (mem_toFinset.mp hx)
  obtain ⟨ha, hp⟩ := mem_filter.mp ha
  exact mem_toFinset.mpr (mem_map_of_mem (mem_filter.mpr ⟨ha, hpq a ha hp⟩))

/-- A wider selection has as many values exactly when it has no new ones. -/
lemma uniq_filter_eq_iff (hpq : ∀ a ∈ l, p a = true → q a = true) :
    uniq ((l.filter p).map f) = uniq ((l.filter q).map f) ↔
      ∀ a ∈ l, q a = true → ∃ b ∈ l, p b = true ∧ f b = f a := by
  have hsub := toFinset_filter_subset (f := f) hpq
  constructor
  · intro h a ha hq
    have hall := Finset.eq_of_subset_of_card_le hsub h.ge
    have hmem : f a ∈ ((l.filter q).map f).toFinset :=
      mem_toFinset.mpr (mem_map_of_mem (mem_filter.mpr ⟨ha, hq⟩))
    rw [← hall, mem_toFinset, mem_map] at hmem
    obtain ⟨b, hb, hfb⟩ := hmem
    obtain ⟨hb, hp⟩ := mem_filter.mp hb
    exact ⟨b, hb, hp, hfb⟩
  · intro h
    refine congrArg Finset.card (hsub.antisymm fun x hx => ?_)
    obtain ⟨a, ha, rfl⟩ := mem_map.mp (mem_toFinset.mp hx)
    obtain ⟨ha, hq⟩ := mem_filter.mp ha
    obtain ⟨b, hb, hp, hfb⟩ := h a ha hq
    rw [← hfb]
    exact mem_toFinset.mpr (mem_map_of_mem (mem_filter.mpr ⟨hb, hp⟩))

end Uniq

/-! ### The two branches -/

/-- An `auth.login` event; times are in milliseconds. -/
structure AuthLogin where
  userId : String
  ts : ℤ
  deriving DecidableEq

/-- A `wallet.credit` event. -/
structure WalletCredit where
  accountId : String
  refType : String
  ts : ℤ
  deriving DecidableEq

structure EngagementMetrics where
  dau : ℕ
  mau : ℕ
  regs : ℕ
  deps : ℕ
  conversion : ℚ
  deriving DecidableEq

def oneDay : ℤ := 24 * 60 * 60 * 1000

/-- The start of the UTC day before `now`. -/
def dayFrom (now : ℤ) : ℤ :=
  (now / oneDay - 1) * oneDay

def dayTo (now : ℤ) : ℤ :=
  dayFrom now + oneDay

def conversionOf (regs deps : ℕ) : ℚ :=
  if regs > 0 then deps / regs else 0

/-- The four queries. -/
def clickhouseMetrics (now : ℤ) (logins : List AuthLogin) (credits : List WalletCredit) :
    EngagementMetrics :=
  let mauFrom := dayTo now - 30 * oneDay
  let dau := uniq <| (logins.filter fun e => dayFrom now ≤ e.ts ∧ e.ts < dayTo now).map (·.userId)
  let mau := uniq <| (logins.filter fun e => mauFrom ≤ e.ts ∧ e.ts < dayTo now).map (·.userId)
  let regs := uniq <|
    (logins.filter fun e => dayFrom now ≤ e.ts ∧ e.ts < dayTo now).map (·.userId)
  let deps := uniq <| (credits.filter fun e =>
    e.refType = "deposit" ∧ dayFrom now ≤ e.ts ∧ e.ts < dayTo now).map (·.accountId)
  ⟨dau, mau, regs, deps, conversionOf regs deps⟩

/-- `rangeStream`: from a time to the end of the stream. -/
def rangeStream {α : Type*} (ts : α → ℤ) (stream : List α) (since : ℤ) : List α :=
  stream.filter fun e => since ≤ ts e

/-- The fallback without ClickHouse. -/
def streamMetrics (now : ℤ) (logins : List AuthLogin) (credits : List WalletCredit) :
    EngagementMetrics :=
  let dayLogins := rangeStream (·.ts) logins (dayFrom now)
  let dau := uniq (dayLogins.map (·.userId))
  let mauLogins := rangeStream (·.ts) logins (dayFrom now - 29 * oneDay)
  let mau := uniq (mauLogins.map (·.userId))
  let regs := dau
  let depositEvents := rangeStream (·.ts) credits (dayFrom now)
  let deps := uniq ((depositEvents.filter fun e => e.refType = "deposit").map (·.accountId))
  ⟨dau, mau, regs, deps, conversionOf regs deps⟩

/-- `rebuildEngagementMetrics`, up to where it writes the metrics. -/
def rebuildEngagementMetrics (clickhouse : Bool) (now : ℤ) (logins : List AuthLogin)
    (credits : List WalletCredit) : EngagementMetrics :=
  if clickhouse then clickhouseMetrics now logins credits else streamMetrics now logins credits

/-! ### When they agree -/

/-- Everybody who logs in or deposits after the reported day has done so in it. -/
structure NobodyNew (now : ℤ) (logins : List AuthLogin) (credits : List WalletCredit) : Prop where
  logins : ∀ e ∈ logins, dayTo now ≤ e.ts →
    ∃ d ∈ logins, d.userId = e.userId ∧ dayFrom now ≤ d.ts ∧ d.ts < dayTo now
  deposits : ∀ e ∈ credits, e.refType = "deposit" → dayTo now ≤ e.ts →
    ∃ d ∈ credits, d.refType = "deposit" ∧ d.accountId = e.accountId ∧
      dayFrom now ≤ d.ts ∧ d.ts < dayTo now

section Agree

variable {now : ℤ} {logins : List AuthLogin} {credits : List WalletCredit}

lemma dayFrom_lt_dayTo (now : ℤ) : dayFrom now < dayTo now := by
  simp [dayTo, oneDay]

/-- The month begins at the same moment in both. -/
lemma mauFrom_eq (now : ℤ) : dayTo now - 30 * oneDay = dayFrom now - 29 * oneDay := by
  unfold dayTo
  ring

/-- The users since `since` are those of the window exactly when nobody comes new after it. -/
lemma uniq_logins_iff {since : ℤ} :
    uniq ((logins.filter fun e => since ≤ e.ts ∧ e.ts < dayTo now).map (·.userId)) =
        uniq ((rangeStream (·.ts) logins since).map (·.userId)) ↔
      ∀ e ∈ logins, since ≤ e.ts → dayTo now ≤ e.ts →
        ∃ d ∈ logins, d.userId = e.userId ∧ since ≤ d.ts ∧ d.ts < dayTo now := by
  unfold rangeStream
  rw [uniq_filter_eq_iff (by simp +contextual)]
  simp only [decide_eq_true_eq]
  constructor
  · intro h e he hsince _
    obtain ⟨d, hd, hwindow, hid⟩ := h e he hsince
    exact ⟨d, hd, hid, hwindow⟩
  · intro h e he hsince
    rcases lt_or_ge e.ts (dayTo now) with hbefore | hafter
    · exact ⟨e, he, ⟨hsince, hbefore⟩, rfl⟩
    · obtain ⟨d, hd, hid, hwindow⟩ := h e he hsince hafter
      exact ⟨d, hd, hwindow, hid⟩

lemma uniq_deposits_iff :
    uniq ((credits.filter fun e =>
          e.refType = "deposit" ∧ dayFrom now ≤ e.ts ∧ e.ts < dayTo now).map (·.accountId)) =
        uniq (((rangeStream (·.ts) credits (dayFrom now)).filter fun e =>
          e.refType = "deposit").map (·.accountId)) ↔
      ∀ e ∈ credits, e.refType = "deposit" → dayTo now ≤ e.ts →
        ∃ d ∈ credits, d.refType = "deposit" ∧ d.accountId = e.accountId ∧
          dayFrom now ≤ d.ts ∧ d.ts < dayTo now := by
  have hday := dayFrom_lt_dayTo now
  rw [rangeStream, filter_filter, uniq_filter_eq_iff (by simp +contextual)]
  simp only [decide_eq_true_eq, Bool.and_eq_true]
  constructor
  · intro h e he hdeposit hafter
    obtain ⟨d, hd, ⟨htype, hwindow⟩, hid⟩ := h e he ⟨hdeposit, by omega⟩
    exact ⟨d, hd, htype, hid, hwindow⟩
  · rintro h e he ⟨hdeposit, hsince⟩
    rcases lt_or_ge e.ts (dayTo now) with hbefore | hafter
    · exact ⟨e, he, ⟨hdeposit, hsince, hbefore⟩, rfl⟩
    · obtain ⟨d, hd, htype, hid, hwindow⟩ := h e he hdeposit hafter
      exact ⟨d, hd, ⟨htype, hwindow⟩, hid⟩

end Agree

/-- ClickHouse and the streams give the same metrics exactly when nobody comes new after the
reported day. -/
theorem metrics_agree_iff (now : ℤ) (logins : List AuthLogin) (credits : List WalletCredit) :
    rebuildEngagementMetrics true now logins credits =
        rebuildEngagementMetrics false now logins credits ↔
      NobodyNew now logins credits := by
  have hday := dayFrom_lt_dayTo now
  constructor
  · intro h
    simp only [rebuildEngagementMetrics, if_true, Bool.false_eq_true, if_false, clickhouseMetrics,
      streamMetrics, EngagementMetrics.mk.injEq] at h
    obtain ⟨hdau, _, _, hdeps, _⟩ := h
    refine ⟨fun e he hafter => ?_, uniq_deposits_iff.mp hdeps⟩
    exact uniq_logins_iff.mp hdau e he (by omega) hafter
  · intro h
    have hdau := uniq_logins_iff.mpr fun e he _ hafter => h.logins e he hafter
    have hmau := (@uniq_logins_iff now logins (dayFrom now - 29 * oneDay)).mpr
      fun e he _ hafter => by
        obtain ⟨d, hd, hid, hfrom, hto⟩ := h.logins e he hafter
        refine ⟨d, hd, hid, ?_, hto⟩
        have : 0 < oneDay := by decide
        omega
    have hdeps := uniq_deposits_iff.mpr h.deposits
    simp only [rebuildEngagementMetrics, if_true, Bool.false_eq_true, if_false, clickhouseMetrics,
      streamMetrics, mauFrom_eq, hdau, hmau, hdeps]

/-- A login on the day after the reported one, by somebody who was not there. -/
theorem metrics_differ :
    ¬ ∀ (now : ℤ) (logins : List AuthLogin) (credits : List WalletCredit),
      rebuildEngagementMetrics true now logins credits =
        rebuildEngagementMetrics false now logins credits := by
  intro h
  have hdau := congrArg (·.dau) (h (20000 * oneDay + 1000) [⟨"u", 20000 * oneDay⟩] [])
  revert hdau
  decide

end Pokerhub
