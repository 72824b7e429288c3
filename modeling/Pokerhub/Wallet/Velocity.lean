import Mathlib.Tactic.Linarith
import Pokerhub.Core.Service
import Pokerhub.Wallet.DailyLimit

/-!
# The velocity counters

A counter is the sum of what the requests have in it. A request that is turned away has to leave
nothing there, but only the check that turns it away takes its own increment back: the increments
of the checks before it stay.
-/

namespace Pokerhub.Wallet

open List Program

/-- The place of a velocity counter in a request; 0 for the other counters. -/
def CounterKey.place : CounterKey → ℕ
  | hourlyCount _ _ => 1
  | hourlyAmount _ _ => 2
  | dailyCount _ _ => 3
  | daily _ _ _ => 4
  | _ => 0

/-- A request and its idempotency key; the id tells requests apart. -/
structure CountedRequest where
  id : ℕ
  request : MoneyRequest
  idempotencyKey : Option String
  deriving DecidableEq, Repr

/-- The store, and what each request has in each counter: `none` before it has touched it. -/
structure CountedStore where
  store : Store
  held : ℕ → CounterKey → Option ℤ := fun _ _ => none

namespace CountedStore

def contribution (s : CountedStore) (id : ℕ) (k : CounterKey) : ℤ :=
  (s.held id k).getD 0

/-- A command of a request, with a note of what it adds to a counter. -/
def exec (r : CountedRequest) (c : Cmd) (s : CountedStore) : c.Answer × CountedStore :=
  ((c.exec s.store).1,
    { store := (c.exec s.store).2
      held := match c with
        | .incrby k n => fun id k' =>
          if id = r.id ∧ k' = k then some (s.contribution id k + n) else s.held id k'
        | _ => s.held })

/-- The counter expires, and with it what the requests have in it. -/
def expired (s : CountedStore) (k : CounterKey) : CountedStore where
  store := { s.store with counters := Function.update s.store.counters k none }
  held id k' := if k' = k then (s.held id k').map fun _ => 0 else s.held id k'

/-- The request has nothing in the velocity counters. -/
def Clean (s : CountedStore) (id : ℕ) : Prop :=
  ∀ k : CounterKey, 0 < k.place → s.contribution id k = 0

end CountedStore

def Cmd.isCounter : Cmd → Bool
  | .incrby _ _ | .expire _ => true
  | _ => false

/-- Deposits, withdrawals and bank transfers, any number of them at the same time. Every command
may fail but those on the counters. A counter with a TTL may expire at any time, and all else may
change. -/
def countedService (limits : Limits) (config : Config) :
    Service Cmd.Answer String Response CountedStore CountedRequest where
  init s := (∀ k : CounterKey, 0 < k.place → s.store.counters k = none) ∧ s.held = fun _ _ => none
  ready _ _ := True
  body r := r.request.body limits config r.idempotencyKey
  exec := CountedStore.exec
  fails _ c := !c.isCounter
  env s s' := (∃ k c, s.store.counters k = some c ∧ c.ttl = true ∧ s' = s.expired k) ∨
    s'.store.counters = s.store.counters ∧ s'.held = s.held

instance (limits : Limits) (config : Config) (s : CountedStore) (r : CountedRequest) :
    Decidable ((countedService limits config).ready s r) :=
  isTrue trivial

instance (limits : Limits) (config : Config) (s : CountedStore) (c : Cmd) :
    Decidable ((countedService limits config).fails s c) :=
  inferInstanceAs (Decidable ((!c.isCounter) = true))

/-- The answer turns the request away. -/
def Cmd.Refuses (r : CountedRequest) : (c : Cmd) → c.Answer → Prop
  | .findAccount _, none => True
  | .findAccount _, some user =>
    match r.request with
    | .deposit _ => user.kycVerified = false
    | _ => False
  | .kyc _, answer => answer = false
  | .flagged _ _, answer => answer = true
  | _, _ => False

/-- A request is turned away only when it has nothing in the counters but what the check that turns
it away takes back. -/
def TurnedAwayClean (s : CountedStore) : Service.Action CountedRequest Cmd → Prop
  | .call r (.incrby k n) => ∀ m, s.held r.id k = some m → 0 < k.place →
    m + n = 0 ∧ ∀ k' : CounterKey, 0 < k'.place → k' ≠ k → s.contribution r.id k' = 0
  | .call r c => c.Refuses r (c.exec s.store).1 → s.Clean r.id
  | .fault r _ => s.Clean r.id
  | _ => True

/-! ### The invariant -/

/-- What a request knows about the counters, of which one is looked at. -/
structure CounterRecord where
  /-- What it has added. -/
  held : CounterKey → Option ℤ
  /-- It is about to set the TTL of the counter. -/
  setsTtl : Bool

/-- The counter `k` is the sum of what the requests have in it, and has a TTL unless one of them is
about to set it. -/
structure CountedInv (k : CounterKey) (s : CountedStore)
    (ls : List (CountedRequest × CounterRecord)) : Prop where
  held : ∀ rl ∈ ls, ∀ k' : CounterKey, 0 < k'.place →
    s.held rl.1.id k' = rl.2.held k' ∨ (rl.2.held k').isSome ∧ s.held rl.1.id k' = some 0
  fresh : ∀ id, id ∉ ls.map (·.1.id) → s.held id = fun _ => none
  count : s.store.count k = (ls.map fun rl => s.contribution rl.1.id k).sum
  absent : s.store.counters k = none → ∀ rl ∈ ls, s.contribution rl.1.id k = 0
  ttl : ∀ c, s.store.counters k = some c → c.ttl = false →
    (∀ rl ∈ ls, s.contribution rl.1.id k = 0) ∨ ∃ rl ∈ ls, rl.2.setsTtl = true

variable {limits : Limits} {config : Config} {k : CounterKey} {s s' : CountedStore}
  {ls ls₁ ls₂ : List (CountedRequest × CounterRecord)} {r : CountedRequest}
  {l l' : CounterRecord}

lemma mem_middle {rl : CountedRequest × CounterRecord} :
    rl ∈ ls₁ ++ (r, l) :: ls₂ ↔ rl = (r, l) ∨ rl ∈ ls₁ ++ ls₂ := by
  simp only [mem_append, mem_cons]
  tauto

/-- One step of the request in the middle. -/
lemma CountedInv.step (h : CountedInv k s (ls₁ ++ (r, l) :: ls₂))
    (hnodup : ((ls₁ ++ (r, l') :: ls₂).map (·.1.id)).Nodup)
    (hothers : ∀ id, id ≠ r.id → s'.held id = s.held id)
    (hheld : ∀ k' : CounterKey, 0 < k'.place →
      s'.held r.id k' = l'.held k' ∨ (l'.held k').isSome ∧ s'.held r.id k' = some 0)
    (hcount : s'.store.count k + s.contribution r.id k = s.store.count k + s'.contribution r.id k)
    (habsent : s'.store.counters k = none →
      s.store.counters k = none ∧ s'.contribution r.id k = 0)
    (httl : ∀ c, s'.store.counters k = some c → c.ttl = false →
      ((∀ rl ∈ ls₁ ++ ls₂, s.contribution rl.1.id k = 0) ∧ s'.contribution r.id k = 0) ∨
        l'.setsTtl = true ∨ ∃ rl ∈ ls₁ ++ ls₂, rl.2.setsTtl = true) :
    CountedInv k s' (ls₁ ++ (r, l') :: ls₂) := by
  have hne : ∀ rl ∈ ls₁ ++ ls₂, rl.1.id ≠ r.id := by
    intro rl hrl heq
    rw [map_append, map_cons, nodup_middle, nodup_cons] at hnodup
    exact hnodup.1 (heq ▸ by rw [← map_append]; exact mem_map_of_mem hrl)
  have hsame : ∀ rl ∈ ls₁ ++ ls₂, s'.contribution rl.1.id k = s.contribution rl.1.id k := by
    intro rl hrl
    rw [CountedStore.contribution, hothers _ (hne rl hrl)]
    rfl
  refine ⟨?_, ?_, ?_, ?_, ?_⟩
  · intro rl hrl
    rcases mem_middle.mp hrl with rfl | hrl
    · exact hheld
    · rw [hothers _ (hne rl hrl)]
      exact h.held rl (mem_middle.mpr (Or.inr hrl))
  · intro id hid
    have hids : (ls₁ ++ (r, l') :: ls₂).map (·.1.id) = (ls₁ ++ (r, l) :: ls₂).map (·.1.id) := by simp
    rw [hids] at hid
    have hr : id ≠ r.id := by
      rintro rfl
      exact hid (by simp)
    rw [hothers id hr]
    exact h.fresh id hid
  · have hold := h.count
    have hsum : ∀ xs : List (CountedRequest × CounterRecord), (∀ rl ∈ xs, rl ∈ ls₁ ++ ls₂) →
        xs.map (fun rl => s'.contribution rl.1.id k) = xs.map fun rl => s.contribution rl.1.id k :=
      fun xs hxs => map_congr_left fun rl hrl => hsame rl (hxs rl hrl)
    simp only [map_append, map_cons, sum_append, sum_cons] at hold ⊢
    rw [hsum ls₁ (fun _ h => by simp [h]), hsum ls₂ (fun _ h => by simp [h])]
    linarith
  · intro hnone rl hrl
    obtain ⟨hnone, hself⟩ := habsent hnone
    rcases mem_middle.mp hrl with rfl | hrl
    · exact hself
    · rw [hsame rl hrl]
      exact h.absent hnone rl (mem_middle.mpr (Or.inr hrl))
  · intro c hc hno
    rcases httl c hc hno with ⟨hall, hself⟩ | hself | ⟨rl, hrl, hsets⟩
    · refine Or.inl fun rl hrl => ?_
      rcases mem_middle.mp hrl with rfl | hrl
      · exact hself
      · rw [hsame rl hrl]
        exact hall rl hrl
    · exact Or.inr ⟨(r, l'), by simp, hself⟩
    · exact Or.inr ⟨rl, mem_middle.mpr (Or.inr hrl), hsets⟩

/-- A step that leaves the counter and what the requests have in it alone. -/
lemma CountedInv.frame (h : CountedInv k s (ls₁ ++ (r, l) :: ls₂))
    (hnodup : ((ls₁ ++ (r, l') :: ls₂).map (·.1.id)).Nodup)
    (hothers : ∀ id, id ≠ r.id → s'.held id = s.held id)
    (hheld : ∀ k' : CounterKey, 0 < k'.place →
      s'.held r.id k' = l'.held k' ∨ (l'.held k').isSome ∧ s'.held r.id k' = some 0)
    (hcounters : s'.store.counters k = s.store.counters k)
    (hself : s'.held r.id k = s.held r.id k) (hsets : l.setsTtl = true → l'.setsTtl = true) :
    CountedInv k s' (ls₁ ++ (r, l') :: ls₂) := by
  have hcontribution : s'.contribution r.id k = s.contribution r.id k := by
    rw [CountedStore.contribution, hself]
    rfl
  refine h.step hnodup hothers hheld ?_ ?_ ?_
  · rw [hcontribution, Store.count_congr hcounters]
  · intro hnone
    rw [hcounters] at hnone
    exact ⟨hnone, hcontribution ▸ h.absent hnone (r, l) (by simp)⟩
  · intro c hc hno
    rw [hcounters] at hc
    rcases h.ttl c hc hno with hall | ⟨rl, hrl, hrlsets⟩
    · exact Or.inl ⟨fun rl hrl => hall rl (mem_middle.mpr (Or.inr hrl)),
        hcontribution ▸ hall (r, l) (by simp)⟩
    · rcases mem_middle.mp hrl with rfl | hrl
      · exact Or.inr (Or.inl (hsets hrlsets))
      · exact Or.inr (Or.inr ⟨rl, hrl, hrlsets⟩)

/-! ### How far a request has come -/

namespace CounterRecord

/-- It has nothing in the velocity counters. -/
def Clean (l : CounterRecord) : Prop :=
  l.setsTtl = false ∧ ∀ k : CounterKey, 0 < k.place → (l.held k).getD 0 = 0

/-- It has not come to the counters after the `n`-th one. -/
def Stage (l : CounterRecord) (n : ℕ) : Prop :=
  l.setsTtl = false ∧ ∀ k : CounterKey, n < k.place → l.held k = none

/-- What is left when it has nothing in the velocity counters any more. -/
def cleared (l : CounterRecord) : CounterRecord where
  held k := (l.held k).map fun _ => 0
  setsTtl := false

/-- A request that has not begun. -/
def unbegun : CounterRecord where
  held _ := none
  setsTtl := false

@[simp] lemma cleared_held : l.cleared.held k = (l.held k).map fun _ => 0 := rfl

lemma Stage.clean (h : l.Stage 0) : l.Clean :=
  ⟨h.1, fun k hk => by rw [h.2 k hk]; rfl⟩

lemma clean_cleared : l.cleared.Clean := by
  refine ⟨rfl, fun k _ => ?_⟩
  rw [cleared_held]
  cases l.held k <;> rfl

lemma Stage.last {n : ℕ} (h : l.Stage n) (hn : n ≤ 4) : l.Stage 4 :=
  ⟨h.1, fun k hk => h.2 k (by omega)⟩

lemma Stage.cleared {n : ℕ} (h : l.Stage n) : l.cleared.Stage n := by
  refine ⟨rfl, fun k hk => ?_⟩
  rw [cleared_held, h.2 k hk]
  rfl

end CounterRecord

/-- What is known of a request that has nothing in a counter. -/
lemma CountedInv.held_cleared (h : CountedInv k s (ls₁ ++ (r, l) :: ls₂)) {k' : CounterKey}
    (hk' : 0 < k'.place) (hzero : s.contribution r.id k' = 0) :
    s.held r.id k' = l.cleared.held k' ∨
      (l.cleared.held k').isSome ∧ s.held r.id k' = some 0 := by
  refine Or.inl ?_
  rw [CounterRecord.cleared_held]
  rcases h.held (r, l) (by simp) k' hk' with heq | ⟨hsome, heq⟩
  · rw [← heq]
    cases hheld : s.held r.id k' with
    | none => rfl
    | some m =>
      rw [CountedStore.contribution, hheld] at hzero
      exact congrArg some hzero
  · rw [heq]
    obtain ⟨m, hm⟩ := Option.isSome_iff_exists.mp hsome
    rw [hm]
    rfl

/-! ### The commands -/

/-- The rules for one request among the others. -/
abbrev countRules (limits : Limits) (config : Config) (k : CounterKey) (r : CountedRequest) :=
  (countedService limits config).protocol TurnedAwayClean
    (fun s ls => (ls.map (·.1.id)).Nodup → CountedInv k s ls) r

/-- What is to show of a step from the record `l` to the record `l'`. -/
lemma countRules_inv {γ : List (CountedRequest × CounterRecord) × _}
    (hinv : (countRules limits config k r).inv s γ l)
    (h : ((γ.1 ++ (r, l') :: γ.2).map (·.1.id)).Nodup → CountedInv k s (γ.1 ++ (r, l) :: γ.2) →
      CountedInv k s' (γ.1 ++ (r, l') :: γ.2)) :
    (countRules limits config k r).inv s' γ l' := by
  intro hnodup
  exact h hnodup (hinv (by simpa using hnodup))

lemma CountedStore.exec_plain {c : Cmd} (hc : c.isCounter = false) (s : CountedStore) :
    (s.exec r c).2.store.counters = s.store.counters ∧ (s.exec r c).2.held = s.held := by
  cases c with
  | transaction refType refId providerTxnId rows =>
    refine ⟨?_, rfl⟩
    rcases Cmd.exec_transaction refType refId providerTxnId rows s.store with hexec | hexec
    · simp only [CountedStore.exec, hexec]
      rw [Store.foldl_insert_eq]
    · simp only [CountedStore.exec, hexec]
  | setNx key v =>
    simp only [CountedStore.exec, Cmd.exec]
    split <;> exact ⟨rfl, trivial⟩
  | incrby | expire => cases hc
  | _ => exact ⟨rfl, rfl⟩

lemma turnedAwayClean_plain {c : Cmd} (hc : c.isCounter = false)
    (h : TurnedAwayClean s (.call r c)) (hrefuses : c.Refuses r (c.exec s.store).1) :
    s.Clean r.id := by
  cases c with
  | incrby => cases hc
  | _ => exact h hrefuses

/-- A step that is not on the counters. -/
lemma CountedInv.plain (h : CountedInv k s (ls₁ ++ (r, l) :: ls₂))
    (hnodup : ((ls₁ ++ (r, l') :: ls₂).map (·.1.id)).Nodup)
    (hcounters : s'.store.counters = s.store.counters) (hsame : s'.held = s.held)
    (hheld : ∀ k' : CounterKey, 0 < k'.place →
      s.held r.id k' = l'.held k' ∨ (l'.held k').isSome ∧ s.held r.id k' = some 0)
    (hsets : l.setsTtl = true → l'.setsTtl = true) : CountedInv k s' (ls₁ ++ (r, l') :: ls₂) :=
  h.frame hnodup (fun _ _ => by rw [hsame]) (hsame ▸ hheld) (by rw [hcounters]) (by rw [hsame]) hsets

/-- A command that is not on the counters. -/
lemma wp_plain {c : Cmd} (hc : c.isCounter = false) (hl : l.setsTtl = false) :
    (run c).wp (countRules limits config k r) (fun
      | .ok a, l' => l' = l ∧ ¬ c.Refuses r a ∨ l' = l.cleared
      | .error _, l' => l' = l.cleared) l := by
  have hno : l.setsTtl = true → l.cleared.setsTtl = true := fun h => by rw [hl] at h; cases h
  refine wp_command fun s γ hinv => ⟨fun hallowed => ?_, fun hfails => ?_⟩
  · obtain ⟨hcounters, hheld⟩ := CountedStore.exec_plain (r := r) hc s
    by_cases hrefuses : c.Refuses r (c.exec s.store).1
    · have hclean := turnedAwayClean_plain hc hallowed hrefuses
      exact ⟨l.cleared, countRules_inv hinv fun hnodup h => h.plain hnodup hcounters hheld
        (fun k' hk' => h.held_cleared hk' (hclean k' hk')) hno, Or.inr rfl⟩
    · exact ⟨l, countRules_inv hinv fun hnodup h =>
        h.plain hnodup hcounters hheld (h.held (r, l) (by simp)) id, Or.inl ⟨rfl, hrefuses⟩⟩
  · exact ⟨l.cleared, countRules_inv hinv fun hnodup h => h.plain hnodup rfl rfl
      (fun k' hk' => h.held_cleared hk' (hfails.2 k' hk')) hno, rfl⟩

/-! #### The counters -/

lemma CountedStore.incrby_held (key : CounterKey) (n : ℤ) (id : ℕ) (k' : CounterKey) :
    (s.exec r (.incrby key n)).2.held id k' =
      if id = r.id ∧ k' = key then some (s.contribution id key + n) else s.held id k' := rfl

lemma CountedStore.incrby_contribution (key : CounterKey) (n : ℤ) :
    (s.exec r (.incrby key n)).2.contribution r.id k =
      s.contribution r.id k + if key = k then n else 0 := by
  rw [contribution, incrby_held]
  by_cases hk : k = key
  · subst hk
    simp
  · simp [hk, Ne.symm hk, contribution]

/-- The counter after an increment. -/
lemma Store.incrby_counters (st : Store) (key : CounterKey) (n : ℤ) {c : Counter}
    (hc : (st.incrby key n).counters key = some c) (hno : c.ttl = false) :
    st.counters key = none ∨ ∃ c₀, st.counters key = some c₀ ∧ c₀.ttl = false := by
  simp only [Store.incrby, Function.update_self, Option.some.injEq] at hc
  cases hold : st.counters key with
  | none => exact Or.inl rfl
  | some c₀ =>
    rw [hold] at hc
    exact Or.inr ⟨c₀, rfl, by rw [← hno, ← hc]⟩

/-- An increment, or its rollback, of the request in the middle. -/
lemma CountedInv.incrby {key : CounterKey} {n : ℤ} (h : CountedInv k s (ls₁ ++ (r, l) :: ls₂))
    (hnodup : ((ls₁ ++ (r, l') :: ls₂).map (·.1.id)).Nodup)
    (hheld : ∀ k' : CounterKey, 0 < k'.place →
      (s.exec r (.incrby key n)).2.held r.id k' = l'.held k' ∨
        (l'.held k').isSome ∧ (s.exec r (.incrby key n)).2.held r.id k' = some 0)
    (hsets : l.setsTtl = false)
    (hlast : key = k → (∀ rl ∈ ls₁ ++ (r, l) :: ls₂, s.contribution rl.1.id k = 0) →
      s.contribution r.id k + n = 0 ∨ l'.setsTtl = true) :
    CountedInv k (s.exec r (.incrby key n)).2 (ls₁ ++ (r, l') :: ls₂) := by
  have hothers : ∀ id, id ≠ r.id → (s.exec r (.incrby key n)).2.held id = s.held id := by
    intro id hid
    funext k'
    rw [CountedStore.incrby_held, if_neg (fun h => hid h.1)]
  by_cases hk : key = k
  · subst hk
    refine h.step hnodup hothers hheld ?_ ?_ ?_
    · rw [CountedStore.incrby_contribution, if_pos rfl]
      show (s.store.incrby key n).count key + _ = _
      rw [Store.count_incrby, if_pos rfl]
      ring
    · intro hnone
      exact absurd hnone (by simp [CountedStore.exec, Cmd.exec, Store.incrby])
    · intro c hc hno
      have hzero : (∀ rl ∈ ls₁ ++ (r, l) :: ls₂, s.contribution rl.1.id key = 0) ∨
          ∃ rl ∈ ls₁ ++ (r, l) :: ls₂, rl.2.setsTtl = true := by
        rcases Store.incrby_counters s.store key n hc hno with hnone | ⟨c₀, hc₀, hno₀⟩
        · exact Or.inl (h.absent hnone)
        · exact h.ttl c₀ hc₀ hno₀
      rcases hzero with hall | ⟨rl, hrl, hrlsets⟩
      · rcases hlast rfl hall with hself | hself
        · refine Or.inl ⟨fun rl hrl => hall rl (mem_middle.mpr (Or.inr hrl)), ?_⟩
          rw [CountedStore.incrby_contribution, if_pos rfl, hself]
        · exact Or.inr (Or.inl hself)
      · rcases mem_middle.mp hrl with rfl | hrl
        · rw [hsets] at hrlsets
          cases hrlsets
        · exact Or.inr (Or.inr ⟨rl, hrl, hrlsets⟩)
  · refine h.frame hnodup hothers hheld ?_ ?_ (fun h => by rw [hsets] at h; cases h)
    · exact Function.update_of_ne (Ne.symm hk) _ _
    · rw [CountedStore.incrby_held, if_neg (fun h => hk h.2.symm)]

/-- A command on a counter does not fail. -/
lemma wp_counter {c : Cmd} {Q : Except String c.Answer → CounterRecord → Prop}
    (hc : c.isCounter = true) (hrecord : ∀ s : CountedStore, TurnedAwayClean s (.call r c) →
      ∃ l', (∀ ls₁ ls₂, ((ls₁ ++ (r, l') :: ls₂).map (·.1.id)).Nodup →
          CountedInv k s (ls₁ ++ (r, l) :: ls₂) →
          CountedInv k (s.exec r c).2 (ls₁ ++ (r, l') :: ls₂)) ∧
        Q (.ok (c.exec s.store).1) l') :
    (run c).wp (countRules limits config k r) Q l := by
  refine wp_command fun s γ hinv => ⟨fun hallowed => ?_, fun hfails => ?_⟩
  · obtain ⟨l', hstep, hQ⟩ := hrecord s hallowed
    exact ⟨l', countRules_inv hinv (hstep γ.1 γ.2), hQ⟩
  · exact absurd hfails.1 (by simp [countedService, hc])

/-- The first increment of a counter. -/
lemma wp_increment {key : CounterKey} {n : ℤ} {m : ℕ} (hkey : key.place = m + 1)
    (hl : l.Stage m) :
    (run (.incrby key n)).wp (countRules limits config k r) (fun
      | .ok total, l' => l'.held = Function.update l.held key (some n) ∧
        (l'.setsTtl = true → key = k ∧ total = n)
      | .error _, _ => False) l := by
  refine wp_counter rfl fun s _ => ?_
  refine ⟨⟨Function.update l.held key (some n),
    decide (key = k ∧ (s.store.incrby key n).count key = n)⟩, fun ls₁ ls₂ hnodup h => ?_, rfl,
    fun h => of_decide_eq_true h⟩
  have hnone : ∀ k' : CounterKey, m < k'.place → s.held r.id k' = none := by
    intro k' hk'
    have hlk := hl.2 k' hk'
    rcases h.held (r, l) (by simp) k' (by omega) with heq | ⟨hsome, -⟩
    · exact heq.trans hlk
    · rw [hlk] at hsome
      cases hsome
  refine h.incrby hnodup ?_ hl.1 ?_
  · intro k' hk'
    rw [CountedStore.incrby_held]
    by_cases hkk : k' = key
    · subst hkk
      refine Or.inl ?_
      rw [if_pos ⟨rfl, rfl⟩, CountedStore.contribution, hnone k' (by omega)]
      simp
    · have hsame : Function.update l.held key (some n) k' = l.held k' :=
        Function.update_of_ne hkk _ _
      rw [if_neg (fun h => hkk h.2)]
      simp only [hsame]
      exact h.held (r, l) (by simp) k' hk'
  · rintro rfl hall
    refine Or.inr (decide_eq_true ⟨rfl, ?_⟩)
    rw [Store.count_incrby, if_pos rfl, h.count, map_congr_left hall]
    simp

lemma Store.expire_counters_of_ne (st : Store) {key : CounterKey} (h : key ≠ k) :
    ((Cmd.expire key).exec st).2.counters k = st.counters k := by
  simp only [Cmd.exec]
  split
  · exact Function.update_of_ne (Ne.symm h) _ _
  · rfl

/-- The counter after its TTL was set. -/
lemma Store.expire_counters (st : Store) (key : CounterKey) :
    ((Cmd.expire key).exec st).2.counters key =
      (st.counters key).map fun c => { c with ttl := true } := by
  simp only [Cmd.exec]
  split
  · rename_i c hc
    simp [hc]
  · rename_i hc
    simp [hc]

/-- Setting the TTL. -/
lemma wp_setTtl {key : CounterKey} (hkey : l.setsTtl = true → key = k) :
    (run (.expire key)).wp (countRules limits config k r) (fun
      | .ok _, l' => l' = { l with setsTtl := false }
      | .error _, _ => False) l := by
  refine wp_counter rfl fun s _ => ⟨{ l with setsTtl := false }, fun ls₁ ls₂ hnodup h => ?_, rfl⟩
  have hheld : (s.exec r (.expire key)).2.held = s.held := rfl
  have hview := h.held (r, l) (by simp)
  by_cases hk : key = k
  · subst hk
    have hcounters : (s.exec r (.expire key)).2.store.counters key =
        (s.store.counters key).map fun c => { c with ttl := true } :=
      Store.expire_counters s.store key
    refine h.step hnodup (fun _ _ => by rw [hheld]) (by rw [hheld]; exact hview) ?_ ?_ ?_
    · exact congrArg (· + s.contribution r.id key) (Store.count_expire key)
    · intro hnone
      rw [hcounters, Option.map_eq_none_iff] at hnone
      exact ⟨hnone, h.absent hnone (r, l) (by simp)⟩
    · intro c hc hno
      rw [hcounters] at hc
      obtain ⟨c₀, -, rfl⟩ := Option.map_eq_some_iff.mp hc
      cases hno
  · refine h.frame hnodup (fun _ _ => by rw [hheld]) (by rw [hheld]; exact hview)
      (Store.expire_counters_of_ne s.store hk) (by rw [hheld]) ?_
    intro h
    exact absurd (hkey h) hk

/-- A check takes its increment back. -/
lemma wp_rollback {key : CounterKey} {n : ℤ} (hkey : 0 < key.place) (hn : l.held key = some n)
    (hsets : l.setsTtl = false) :
    (run (.incrby key (-n))).wp (countRules limits config k r) (fun
      | .ok _, l' => l' = l.cleared
      | .error _, _ => False) l := by
  refine wp_counter rfl fun s hallowed => ⟨l.cleared, fun ls₁ ls₂ hnodup h => ?_, rfl⟩
  obtain ⟨m, hm⟩ : ∃ m, s.held r.id key = some m := by
    rcases h.held (r, l) (by simp) key hkey with heq | ⟨-, heq⟩
    · exact ⟨n, heq.trans hn⟩
    · exact ⟨0, heq⟩
  obtain ⟨hzero, hothers⟩ := hallowed m hm hkey
  have hself : s.contribution r.id key + -n = 0 := by
    rw [CountedStore.contribution, hm]
    exact hzero
  refine h.incrby hnodup ?_ hsets (fun hk _ => hk ▸ Or.inl hself)
  intro k' hk'
  rw [CountedStore.incrby_held, CounterRecord.cleared_held]
  by_cases hkk : k' = key
  · subst hkk
    rw [if_pos ⟨rfl, rfl⟩, hself, hn]
    exact Or.inl rfl
  · rw [if_neg (fun h => hkk h.2), ← CounterRecord.cleared_held]
    exact h.held_cleared hk' (hothers k' hk' hkk)

/-- A counter that is not a velocity counter. -/
lemma wp_otherCounter {key : CounterKey} {n : ℤ} (hk : 0 < k.place) (hkey : key.place = 0)
    (hsets : l.setsTtl = false) :
    (run (.incrby key n)).wp (countRules limits config k r) (fun
      | .ok _, l' => l' = l
      | .error _, _ => False) l := by
  refine wp_counter rfl fun s _ => ⟨l, fun ls₁ ls₂ hnodup h => ?_, rfl⟩
  have hne : ∀ k' : CounterKey, 0 < k'.place → k' ≠ key := by
    rintro k' hk' rfl
    omega
  refine h.incrby hnodup ?_ hsets (fun heq => absurd heq.symm (hne k hk))
  intro k' hk'
  rw [CountedStore.incrby_held, if_neg (fun h => hne k' hk' h.2)]
  exact h.held (r, l) (by simp) k' hk'

/-! ### The requests -/

/-- A request that goes on has not come to the later counters; one that is turned away has nothing
in any of them. -/
def CountPost {α : Type} (n : ℕ) : Except String α → CounterRecord → Prop
  | .ok _, l => l.Stage n
  | .error _, l => l.Clean

lemma wp_stage_bind {α β : Type} {p : WalletM α} {f : α → WalletM β} {n n' : ℕ}
    (hp : p.wp (countRules limits config k r) (CountPost n) l)
    (hf : ∀ a l', l'.Stage n → (f a).wp (countRules limits config k r) (CountPost n') l') :
    (p >>= f).wp (countRules limits config k r) (CountPost n') l := by
  refine wp_bind (wp_mono hp ?_)
  rintro (e | a) l' hl'
  · exact hl'
  · exact hf a l' hl'

/-- A command that is not on the counters, and what its answer says. -/
lemma wp_plain_bind {c : Cmd} {f : c.Answer → WalletM β} {n n' : ℕ} (hc : c.isCounter = false)
    (hl : l.Stage n)
    (hf : ∀ a l', l'.Stage n → (c.Refuses r a → l'.Clean) →
      (f a).wp (countRules limits config k r) (CountPost n') l') :
    (run c >>= f).wp (countRules limits config k r) (CountPost n') l := by
  refine wp_bind (wp_mono (wp_plain hc hl.1) ?_)
  rintro (e | a) l' hl'
  · obtain rfl : l' = l.cleared := hl'
    exact CounterRecord.clean_cleared
  · rcases hl' with ⟨rfl, hgo⟩ | rfl
    · exact hf a _ hl fun h => absurd h hgo
    · exact hf a _ hl.cleared fun _ => CounterRecord.clean_cleared

/-- A program that is not on the counters, of a request that is turned away. -/
lemma wp_clean {α : Type} {p : WalletM α} (h : p.Uses (fun c => c.isCounter = false))
    (hl : l.Clean) : p.wp (countRules limits config k r) (fun _ l' => l'.Clean) l := by
  refine wp_of_uses (F := CounterRecord.Clean) h ?_ (fun _ _ h => h) hl
  intro c s γ l hc hl hinv _
  obtain ⟨hcounters, hheld⟩ := CountedStore.exec_plain (r := r) hc s
  exact ⟨l, hl, countRules_inv hinv fun hnodup h =>
    h.plain hnodup hcounters hheld (h.held (r, l) (by simp)) id⟩

/-- A counter to which the request has added. -/
lemma CounterRecord.Stage.add {key : CounterKey} {n : ℤ} {m : ℕ} (hkey : key.place = m + 1)
    (hl : l.Stage m) (hheld : l'.held = Function.update l.held key (some n))
    (hsets : l'.setsTtl = false) : l'.Stage (m + 1) ∧ l'.held key = some n := by
  refine ⟨⟨hsets, fun k' hk' => ?_⟩, ?_⟩
  · rw [hheld, Function.update_of_ne (by rintro rfl; omega)]
    exact hl.2 k' (by omega)
  · rw [hheld, Function.update_self]

/-- A check takes its increment back. -/
lemma wp_takeBack {α : Type} {key : CounterKey} {n : ℤ} {m n' : ℕ} {rest : WalletM α}
    (hkey : key.place = m + 1) (hl : l.Stage (m + 1)) (hn : l.held key = some n)
    (hrest : ∀ l', l'.Clean → rest.wp (countRules limits config k r) (CountPost n') l') :
    (run (.incrby key (-n)) >>= fun _ => rest).wp (countRules limits config k r)
      (CountPost n') l := by
  refine wp_bind (wp_mono (wp_rollback (by omega) hn hl.1) ?_)
  rintro (e | total) l' hl'
  · exact hl'.elim
  · obtain rfl : l' = l.cleared := hl'
    exact hrest _ CounterRecord.clean_cleared

/-- What is left to do for a request that is turned away. -/
lemma wp_turnAway {α : Type} {p : WalletM Unit} {e : String} {n : ℕ}
    (h : p.Uses (fun c => c.isCounter = false)) (hl : l.Clean) :
    (p >>= fun _ => (throw e : WalletM α)).wp (countRules limits config k r) (CountPost n) l := by
  refine wp_bind (wp_mono (wp_clean h hl) ?_)
  rintro (e | a) l' hl'
  · exact hl'
  · exact hl'

/-- The first increment of a counter sets its TTL. -/
lemma wp_startTtl {key : CounterKey} {n : ℤ} {m : ℕ} (hkey : key.place = m + 1) (hl : l.Stage m)
    (hheld : l'.held = Function.update l.held key (some n)) (hsets : l'.setsTtl = true → key = k) :
    (run (.expire key)).wp (countRules limits config k r) (fun
      | .ok _, l'' => l''.Stage (m + 1) ∧ l''.held key = some n
      | .error _, _ => False) l' := by
  refine wp_mono (wp_setTtl hsets) ?_
  rintro (e | ok) l'' hl''
  · exact hl''
  · obtain rfl : l'' = { l' with setsTtl := false } := hl''
    exact hl.add hkey hheld rfl

/-- One check of `enforceVelocity`. -/
lemma wp_enforceCounter {key : CounterKey} {amount limit : ℤ} {accountId : String} {m : ℕ}
    (hkey : key.place = m + 1) (hl : l.Stage m) :
    (enforceCounter key amount limit accountId).wp (countRules limits config k r)
      (CountPost (m + 1)) l := by
  refine wp_bind (wp_handle (wp_mono (Q := fun
    | .ok _, l' => l'.Stage (m + 1) ∧ l'.held key = some amount
    | .error _, _ => False) ?_ ?_))
  · refine wp_bind (wp_mono (wp_increment hkey hl) ?_)
    rintro (e | total) l' hl'
    · exact hl'
    obtain ⟨hheld, hsets⟩ := hl'
    dsimp only
    split_ifs with htotal
    · refine wp_bind (wp_mono (wp_startTtl hkey hl hheld fun h => (hsets h).1) ?_)
      rintro (e | ok) l'' hl''
      · exact hl''
      · exact hl''
    · refine hl.add hkey hheld ?_
      rw [← Bool.not_eq_true]
      exact fun h => htotal (hsets h).2
  · rintro (e | ⟨total, ok⟩) l' hl'
    · exact hl'.elim
    obtain ⟨hstage, hheld⟩ := hl'
    show Program.wp _ _ (if _ then _ else if _ then _ else _) _
    split_ifs with hok hover
    · exact wp_takeBack hkey hstage hheld fun _ hclean => hclean
    · exact wp_takeBack hkey hstage hheld fun _ hclean =>
        wp_turnAway (uses_emit fun _ => rfl) hclean
    · exact hstage

lemma wp_enforceIfLimited {key : CounterKey} {amount : ℤ} {limit : Option ℤ} {accountId : String}
    {m : ℕ} (hkey : key.place = m + 1) (hl : l.Stage m) :
    (enforceIfLimited key amount limit accountId).wp (countRules limits config k r)
      (CountPost (m + 1)) l := by
  cases limit with
  | none => exact ⟨hl.1, fun k' hk' => hl.2 k' (by omega)⟩
  | some limit => exact wp_enforceCounter hkey hl

lemma wp_enforceVelocity {op : Kind} {accountId : String} {amount : ℤ} (hl : l.Stage 0) :
    (enforceVelocity limits op accountId amount).wp (countRules limits config k r)
      (CountPost 3) l := by
  refine wp_stage_bind (wp_enforceIfLimited rfl hl) fun _ l' hl' => ?_
  refine wp_stage_bind (wp_enforceIfLimited rfl hl') fun _ l'' hl'' => ?_
  exact wp_enforceIfLimited rfl hl''

lemma wp_enforceDaily {op : Kind} {accountId dateKey : String} {amount : ℤ} (hl : l.Stage 3) :
    (enforceDailyLimit limits op accountId amount dateKey).wp (countRules limits config k r)
      (CountPost 4) l := by
  have hkey : (CounterKey.daily op accountId dateKey).place = 3 + 1 := rfl
  refine wp_bind (wp_mono (wp_increment hkey hl) ?_)
  rintro (e | total) l' hl'
  · exact hl'.elim
  obtain ⟨hheld, hsets⟩ := hl'
  refine wp_bind (wp_mono (Q := fun
    | .ok _, l' => l'.Stage (3 + 1) ∧ l'.held (.daily op accountId dateKey) = some amount
    | .error _, _ => False) (wp_onlyIf (fun htotal => ?_) fun htotal => ?_) ?_)
  · refine wp_bind (wp_mono (wp_startTtl hkey hl hheld fun h => (hsets h).1) ?_)
    rintro (e | ok) l'' hl''
    · exact hl''
    · exact hl''
  · refine hl.add hkey hheld ?_
    rw [← Bool.not_eq_true]
    intro h
    rw [(hsets h).2, beq_self_eq_true] at htotal
    cases htotal
  · rintro (e | _) l'' hl''
    · exact hl''.elim
    obtain ⟨hstage, hheld⟩ := hl''
    dsimp only
    split_ifs with hover
    · exact wp_takeBack hkey hstage hheld fun _ hclean =>
        wp_turnAway (uses_emit fun _ => rfl) hclean
    · exact hstage

lemma wp_countRequest (hk : 0 < k.place) {key : CounterKey} (hkey : key.place = 0)
    (hl : l.Stage 0) :
    (countRequest key).wp (countRules limits config k r) (CountPost 0) l := by
  refine wp_bind (wp_mono (wp_otherCounter hk hkey hl.1) ?_)
  rintro (e | count) l' hl'
  · exact hl'.elim
  obtain rfl : l' = l := hl'
  refine wp_stage_bind (wp_onlyIf (fun _ => ?_) fun _ => hl) fun _ _ h => h
  refine wp_bind (wp_mono (wp_setTtl fun h => ?_) ?_)
  · rw [hl.1] at h
    cases h
  · rintro (e | ok) l'' hl''
    · exact hl''.elim
    · obtain rfl : l'' = { l' with setsTtl := false } := hl''
      exact ⟨rfl, hl.2⟩

lemma wp_checkVelocity (hk : 0 < k.place) {op : Kind} {deviceId ip : String} (hl : l.Stage 0) :
    (checkVelocity op deviceId ip).wp (countRules limits config k r) (CountPost 0) l := by
  refine wp_stage_bind (wp_countRequest hk rfl hl) fun ipCount l' hl' => ?_
  refine wp_stage_bind (wp_countRequest hk rfl hl') fun devCount l'' hl'' => ?_
  split_ifs
  · exact hl''.clean
  · exact hl''

/-- Looking for the account. -/
lemma wp_findOneByOrFail_bind {q : Account → Bool} {f : Account → WalletM Response} {n : ℕ}
    (hl : l.Stage n)
    (hf : ∀ user l', l'.Stage n →
      (∀ req, r.request = .deposit req → user.kycVerified = false → l'.Clean) →
      (f user).wp (countRules limits config k r) (CountPost 4) l') :
    (findOneByOrFail q >>= f).wp (countRules limits config k r) (CountPost 4) l := by
  refine wp_bind (wp_bind (wp_mono (wp_plain rfl hl.1) ?_))
  rintro (e | user) l' hl'
  · obtain rfl : l' = l.cleared := hl'
    exact CounterRecord.clean_cleared
  have hstage : l'.Stage n ∧ (Cmd.Refuses r (.findAccount q) user → l'.Clean) := by
    rcases hl' with ⟨rfl, hgo⟩ | rfl
    · exact ⟨hl, fun h => absurd h hgo⟩
    · exact ⟨hl.cleared, fun _ => CounterRecord.clean_cleared⟩
  cases user with
  | none => exact hstage.2 trivial
  | some user =>
    refine hf user l' hstage.1 fun req hreq hkyc => hstage.2 ?_
    show match r.request with
      | .deposit _ => user.kycVerified = false
      | _ => False
    rw [hreq]
    exact hkyc

lemma wp_newChallenge {accountId : String} {amount : ℤ} {challenge : Challenge} (hl : l.Stage 4) :
    (do
      let id ← run (.initiate3DS accountId amount)
      run (.set (.challenge id) challenge)
      return Response.challenge id).wp (countRules limits config k r) (CountPost 4) l :=
  wp_plain_bind rfl hl fun _ _ hl' _ => wp_plain_bind rfl hl' fun _ _ hl'' _ => hl''

lemma wp_countedWithdraw (hk : 0 < k.place) {req : Request} (hl : l.Stage 0) :
    (withdrawOnce limits req).wp (countRules limits config k r) (CountPost 4) l := by
  unfold withdrawOnce
  split
  · exact hl.clean
  refine wp_findOneByOrFail_bind hl fun _ l hl _ => ?_
  refine wp_plain_bind rfl hl fun verified l hl hrefuses => ?_
  split
  · exact hl.clean
  split
  · exact hl.clean
  refine wp_stage_bind (wp_checkVelocity hk hl) fun _ l hl => ?_
  refine wp_stage_bind (wp_enforceVelocity hl) fun _ l hl => ?_
  exact wp_stage_bind (wp_enforceDaily hl) fun _ l hl => wp_newChallenge hl

lemma wp_countedDeposit (hk : 0 < k.place) {req : Request} (hr : r.request = .deposit req)
    (hl : l.Stage 0) :
    (depositOnce limits req).wp (countRules limits config k r) (CountPost 4) l := by
  unfold depositOnce
  split
  · exact hl.clean
  refine wp_stage_bind (wp_checkVelocity hk hl) fun _ l hl => ?_
  refine wp_stage_bind (wp_enforceVelocity hl) fun _ l hl => ?_
  refine wp_findOneByOrFail_bind hl fun user l hl hrefuses => ?_
  split
  · rename_i hkyc
    exact hrefuses req hr (by simpa using hkyc)
  refine wp_stage_bind (wp_enforceDaily hl) fun _ l hl => ?_
  refine wp_plain_bind rfl hl fun flagged l hl hrefuses => ?_
  split
  · rename_i hflagged
    exact wp_turnAway (uses_run rfl) (hrefuses hflagged)
  · exact wp_newChallenge hl

lemma wp_countedBankTransfer (hk : 0 < k.place) {req : Request} {depositId : String}
    {expiresAt : ℕ} (hl : l.Stage 0) :
    (bankTransferOnce limits config req depositId expiresAt).wp (countRules limits config k r)
      (CountPost 4) l := by
  unfold bankTransferOnce
  split
  · exact hl.clean
  refine wp_stage_bind (wp_checkVelocity hk hl) fun _ l hl => ?_
  refine wp_stage_bind (wp_enforceVelocity hl) fun _ l hl => ?_
  refine wp_findOneByOrFail_bind hl fun _ l hl _ => ?_
  refine wp_plain_bind rfl hl fun verified l hl hrefuses => ?_
  split
  · rename_i hverified
    exact hrefuses (show verified = false by simpa using hverified)
  refine wp_stage_bind (wp_enforceDaily hl) fun _ l hl => ?_
  refine wp_bind (wp_mono (wp_otherCounter hk rfl hl.1) ?_)
  rintro (e | refNum) l' hl'
  · exact hl'.elim
  obtain rfl : l' = l := hl'
  refine wp_plain_bind rfl hl fun _ l hl _ => ?_
  refine wp_plain_bind rfl hl fun _ l hl _ => ?_
  cases config.queueConnected with
  | true => exact hl
  | false => exact wp_plain_bind rfl hl fun _ _ hl _ => hl

/-- The key under which a body runs, or none. -/
lemma wp_countedIdempotent {idempotencyKey : Option String} {body : WalletM Response}
    (hbody : ∀ l : CounterRecord, l.Stage 0 →
      body.wp (countRules limits config k r) (CountPost 4) l) (hl : l.Stage 0) :
    (idempotent idempotencyKey body).wp (countRules limits config k r) (CountPost 4) l := by
  cases idempotencyKey with
  | none => exact hbody l hl
  | some key =>
    refine wp_handle (wp_mono (Q := CountPost 4) ?_ ?_)
    · refine wp_plain_bind rfl hl fun existing l hl _ => ?_
      rcases existing with _ | _ | res
      case some.response => exact hl.last (by omega)
      all_goals
        refine wp_plain_bind rfl hl fun lock l hl _ => ?_
        cases lock with
        | true =>
          refine wp_stage_bind (hbody l hl) fun res l hl => ?_
          exact wp_plain_bind rfl hl fun _ _ hl _ => hl
        | false =>
          refine wp_plain_bind rfl hl fun cached l hl _ => ?_
          rcases cached with _ | _ | res
          · exact hl.clean
          · exact hl.clean
          · exact hl.last (by omega)
    · rintro (e | res) l hl
      · exact wp_turnAway (uses_run rfl) hl
      · exact hl

lemma wp_countedBody (hk : 0 < k.place) (r : CountedRequest) (hl : l.Stage 0) :
    ((countedService limits config).body r).wp (countRules limits config k r) (CountPost 4) l := by
  show (r.request.body limits config r.idempotencyKey).wp _ _ _
  cases hr : r.request with
  | deposit req => exact wp_countedIdempotent (fun l hl => wp_countedDeposit hk hr hl) hl
  | withdraw req => exact wp_countedIdempotent (fun l hl => wp_countedWithdraw hk hl) hl
  | bankTransfer req depositId expiresAt =>
    exact wp_countedIdempotent (fun l hl => wp_countedBankTransfer hk hl) hl

/-! ### All runs -/

/-- A new request. -/
lemma CountedInv.start (h : CountedInv k s ls) (hr : r.id ∉ ls.map (·.1.id)) :
    CountedInv k s (ls ++ [(r, .unbegun)]) := by
  have hnone := h.fresh r.id hr
  have hzero : s.contribution r.id k = 0 := by
    rw [CountedStore.contribution, hnone]
    rfl
  refine ⟨?_, ?_, ?_, ?_, ?_⟩
  · intro rl hrl k' hk'
    rcases mem_append.mp hrl with hrl | hrl
    · exact h.held rl hrl k' hk'
    · rw [mem_singleton.mp hrl]
      exact Or.inl (congrFun hnone k')
  · intro id hid
    exact h.fresh id fun hmem => hid (by simp only [map_append, mem_append]; exact Or.inl hmem)
  · rw [h.count]
    simp [hzero]
  · intro habsent rl hrl
    rcases mem_append.mp hrl with hrl | hrl
    · exact h.absent habsent rl hrl
    · rw [mem_singleton.mp hrl]
      exact hzero
  · intro c hc hno
    rcases h.ttl c hc hno with hall | ⟨rl, hrl, hsets⟩
    · refine Or.inl fun rl hrl => ?_
      rcases mem_append.mp hrl with hrl | hrl
      · exact hall rl hrl
      · rw [mem_singleton.mp hrl]
        exact hzero
    · exact Or.inr ⟨rl, mem_append_left _ hrl, hsets⟩

lemma CountedStore.expired_contribution (key : CounterKey) (id : ℕ) :
    (s.expired key).contribution id k = if k = key then 0 else s.contribution id k := by
  simp only [contribution, expired]
  split
  · cases s.held id k <;> rfl
  · rfl

/-- A step of the environment. -/
lemma CountedInv.env (h : CountedInv k s ls) (henv : (countedService limits config).env s s') :
    CountedInv k s' ls := by
  rcases henv with ⟨key, c, hc, httl, rfl⟩ | ⟨hcounters, hheld⟩
  · have hheld : ∀ rl ∈ ls, ∀ k' : CounterKey, 0 < k'.place →
        (s.expired key).held rl.1.id k' = rl.2.held k' ∨
          (rl.2.held k').isSome ∧ (s.expired key).held rl.1.id k' = some 0 := by
      intro rl hrl k' hk'
      have hview := h.held rl hrl k' hk'
      simp only [CountedStore.expired]
      split_ifs
      · rcases hview with heq | ⟨hsome, heq⟩
        · rw [heq]
          cases rl.2.held k' with
          | none => exact Or.inl rfl
          | some m => exact Or.inr ⟨rfl, rfl⟩
        · rw [heq]
          exact Or.inr ⟨hsome, rfl⟩
      · exact hview
    have hfresh : ∀ id, id ∉ ls.map (·.1.id) → (s.expired key).held id = fun _ => none := by
      intro id hid
      funext k'
      simp only [CountedStore.expired, h.fresh id hid]
      split <;> rfl
    by_cases hk : k = key
    · subst hk
      have hnone : (s.expired k).store.counters k = none := Function.update_self _ _ _
      have hzero : ∀ rl ∈ ls, (s.expired k).contribution rl.1.id k = 0 := by
        intro rl _
        rw [CountedStore.expired_contribution, if_pos rfl]
      refine ⟨hheld, hfresh, ?_, fun _ => hzero, fun c hc => ?_⟩
      · rw [Store.count, hnone, map_congr_left hzero]
        simp
      · rw [hnone] at hc
        cases hc
    · have hsame : (s.expired key).store.counters k = s.store.counters k :=
        Function.update_of_ne hk _ _
      have hcontribution : ∀ id, (s.expired key).contribution id k = s.contribution id k := by
        intro id
        rw [CountedStore.expired_contribution, if_neg hk]
      refine ⟨hheld, hfresh, ?_, ?_, ?_⟩
      · rw [Store.count_congr hsame, h.count]
        simp only [hcontribution]
      · simpa only [hsame, hcontribution] using h.absent
      · simpa only [hsame, hcontribution] using h.ttl
  · have hcontribution : ∀ id, s'.contribution id k = s.contribution id k := by
      intro id
      rw [CountedStore.contribution, hheld]
      rfl
    refine ⟨?_, ?_, ?_, ?_, ?_⟩
    · simpa only [hheld] using h.held
    · simpa only [hheld] using h.fresh
    · rw [Store.count_congr (congrFun hcounters k), h.count]
      simp only [hcontribution]
    · simpa only [hcounters, hcontribution] using h.absent
    · simpa only [hcounters, hcontribution] using h.ttl

abbrev hundredDeposit : CountedRequest :=
  ⟨0, .deposit ⟨"u1", 100, "d1", "127.0.0.1", "USD", "2025-01-01"⟩, none⟩

def oneAccount (kycVerified : Bool) : CountedStore where
  store := { accounts := [⟨"u1", "alice", "USD", 0, kycVerified⟩] }

lemma init_oneAccount (limits : Limits) (kycVerified : Bool) :
    (countedService limits {}).init (oneAccount kycVerified) :=
  ⟨fun _ _ => rfl, rfl⟩

/-- Deposits are counted by the hour, and the user has not passed the KYC check. -/
def unverifiedDeposit : Pool Cmd.Answer String Response CountedStore CountedRequest :=
  (countedService { hourlyCount := fun _ => some 5 } {}).playAll ⟨oneAccount false, []⟩
    (.start hundredDeposit :: replicate 7 (.call 0))

/-- The amount alone is limited, to 50 an hour. -/
def overdrawnDeposit : Pool Cmd.Answer String Response CountedStore CountedRequest :=
  (countedService { hourlyAmount := fun _ => some 50 } {}).playAll ⟨oneAccount true, []⟩
    (.start hundredDeposit :: replicate 8 (.call 0))

end Pokerhub.Wallet
