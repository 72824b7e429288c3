import Mathlib.Data.List.Induction
import Pokerhub.Wallet.DoubleEntry
import Pokerhub.Wallet.Idempotency

/-!
# Reservations

The endpoints `reserve`, `commit` and `rollback` of `wallet.controller.ts`, and the law that what is
committed and rolled back under a reference is at most what was reserved under it. The three
operations are postings that do not look at each other; the law holds exactly in the runs in which
no call that is posted asks for more than is left.
-/

namespace Pokerhub.Wallet

open List

namespace Store

/-- The sum of the entries of a reference on the accounts `q`. -/
def entrySum (s : Store) (refType refId : String) (q : String → Bool) : ℤ :=
  ((s.journals.filter fun j => j.refType = refType ∧ j.refId = refId ∧ q j.accountId = true).map
    (·.amount)).sum

/-- The id is that of a reserve account. -/
def isReserve (s : Store) (id : String) : Bool :=
  s.accounts.any fun a => a.id == id && a.name == "reserve"

def reserved (s : Store) (refId : String) : ℤ :=
  s.entrySum "reserve" refId s.isReserve

def committed (s : Store) (refId : String) : ℤ :=
  -s.entrySum "commit" refId s.isReserve

def rolledBack (s : Store) (refId : String) : ℤ :=
  -s.entrySum "rollback" refId s.isReserve

def reservedBy (s : Store) (userId refId : String) : ℤ :=
  -s.entrySum "reserve" refId (· == userId)

def rolledBackTo (s : Store) (userId refId : String) : ℤ :=
  s.entrySum "rollback" refId (· == userId)

/-- No more is committed and rolled back than was reserved. -/
def Covered (s : Store) : Prop :=
  ∀ refId, s.committed refId + s.rolledBack refId ≤ s.reserved refId ∧
    ∀ userId, s.IsUser userId → s.rolledBackTo userId refId ≤ s.reservedBy userId refId

end Store

/-- The calls that the endpoints accept, for users. -/
def Op.Endpoint (s : Store) : Op → Prop
  | .reserve accountId amount _ _ => 0 < amount ∧ s.IsUser accountId
  | .commit _ amount rakeAmount _ => 0 < amount ∧ 0 ≤ rakeAmount
  | .rollback accountId amount _ _ => 0 < amount ∧ s.IsUser accountId
  | _ => False

instance (s : Store) : (op : Op) → Decidable (op.Endpoint s)
  | .reserve accountId amount _ _ => inferInstanceAs (Decidable (0 < amount ∧ s.IsUser accountId))
  | .commit _ amount rakeAmount _ => inferInstanceAs (Decidable (0 < amount ∧ 0 ≤ rakeAmount))
  | .rollback accountId amount _ _ => inferInstanceAs (Decidable (0 < amount ∧ s.IsUser accountId))
  | .refundDisbursement _ _ _ => isFalse id
  | .confirmPendingDeposit _ => isFalse id

/-- The call asks for more than is left. -/
def Op.Exceeds (s : Store) : Op → Prop
  | .commit refId amount _ _ => s.reserved refId < s.committed refId + s.rolledBack refId + amount
  | .rollback accountId amount refId _ =>
    s.reserved refId < s.committed refId + s.rolledBack refId + amount ∨
      s.reservedBy accountId refId < s.rolledBackTo accountId refId + amount
  | _ => False

instance (s : Store) : (op : Op) → Decidable (op.Exceeds s)
  | .commit refId amount _ _ => inferInstanceAs
    (Decidable (s.reserved refId < s.committed refId + s.rolledBack refId + amount))
  | .rollback accountId amount refId _ => inferInstanceAs
    (Decidable (s.reserved refId < s.committed refId + s.rolledBack refId + amount ∨
      s.reservedBy accountId refId < s.rolledBackTo accountId refId + amount))
  | .reserve _ _ _ _ => isFalse id
  | .refundDisbursement _ _ _ => isFalse id
  | .confirmPendingDeposit _ => isFalse id

/-! ### What a call does to the sums -/

section Sums

variable {sha256 : String → String} {config : Config} {s s' : Store}

lemma journals_apply (p : Posting) : (p.apply sha256 config s).journals =
    s.journals ++ p.entries.map fun e =>
      { accountId := e.account.id, amount := e.amount, currency := e.account.currency,
        refType := p.refType, refId := p.refId,
        hash := buildHash sha256 p.refType p.refId e.account.id e.amount } := by
  simp [Posting.apply, Posting.rows, Store.foldl_insert_journals, Function.comp_def]

lemma entrySum_apply (p : Posting) (refType refId : String) (q : String → Bool) :
    (p.apply sha256 config s).entrySum refType refId q = s.entrySum refType refId q +
      if p.refType = refType ∧ p.refId = refId then
        ((p.entries.filter fun e => q e.account.id).map (·.amount)).sum else 0 := by
  simp only [Store.entrySum, journals_apply, filter_append, map_append, sum_append]
  congr 1
  by_cases href : p.refType = refType ∧ p.refId = refId
  · simp only [href, and_self, if_true, filter_map, map_map]
    simp [Function.comp_def]
  · rw [if_neg href]
    rw [filter_eq_nil_iff.mpr]
    · rfl
    · intro j hj
      obtain ⟨e, _, rfl⟩ := mem_map.mp hj
      simp only [decide_eq_true_eq]
      exact fun h => href ⟨h.1, h.2.1⟩

lemma isReserve_congr (h : s'.accountRows = s.accountRows) : s'.isReserve = s.isReserve := by
  funext id
  have hany : ∀ t : Store, t.isReserve id =
      t.accountRows.any fun r => r.1 == id && r.2.1 == "reserve" := by
    intro t
    simp [Store.isReserve, Store.accountRows, any_map, Function.comp_def]
  rw [hany, hany, h]

lemma isReserve_apply (p : Posting) : (p.apply sha256 config s).isReserve = s.isReserve :=
  isReserve_congr (accountRows_apply p)

lemma isReserve_of_mem {a : Account} (ha : a ∈ s.accounts) (hname : a.name = "reserve") :
    s.isReserve a.id = true :=
  any_eq_true.mpr ⟨a, ha, by simp [hname]⟩

lemma not_isReserve_of_isUser {id : String} (h : s.IsUser id) : s.isReserve id = false := by
  rw [← Bool.not_eq_true]
  intro hres
  obtain ⟨a, ha, heq⟩ := any_eq_true.mp hres
  simp only [Bool.and_eq_true, beq_iff_eq] at heq
  exact h a ha heq.1 (by simp [heq.2])

lemma not_isReserve_of_name (hs : s.Keyed) {a : Account} (ha : a ∈ s.accounts)
    (hname : a.name ≠ "reserve") : s.isReserve a.id = false := by
  rw [← Bool.not_eq_true]
  intro hres
  obtain ⟨b, hb, heq⟩ := any_eq_true.mp hres
  simp only [Bool.and_eq_true, beq_iff_eq] at heq
  rw [hs.eq_of_id hb ha heq.1] at heq
  exact hname heq.2

end Sums

section Totals

variable {sha256 : String → String} {config : Config} {s : Store} {refId userId : String}
  {amount rakeAmount : ℤ} {user reserve prize rakeAcc : Account}

lemma IsUser.ne_reserve (h : s.IsUser userId) (hreserve : s.isReserve reserve.id = true) :
    reserve.id ≠ userId := by
  rintro rfl
  rw [not_isReserve_of_isUser h] at hreserve
  cases hreserve

/-- What a posted reservation changes. -/
lemma totals_reserve (huser : s.isReserve user.id = false)
    (hreserve : s.isReserve reserve.id = true) (r : String) :
    let s' := (reservePosting refId amount user reserve).apply sha256 config s
    s'.reserved r = s.reserved r + (if refId = r then amount else 0) ∧
      s'.committed r = s.committed r ∧ s'.rolledBack r = s.rolledBack r ∧
      ∀ v, reserve.id ≠ v →
        s'.reservedBy v r = s.reservedBy v r + (if refId = r ∧ user.id = v then amount else 0) ∧
        s'.rolledBackTo v r = s.rolledBackTo v r := by
  simp only [Store.committed, Store.rolledBack, Store.reserved, Store.rolledBackTo,
    Store.reservedBy, entrySum_apply, isReserve_apply, reservePosting]
  refine ⟨?_, ?_, ?_, fun v hv => ⟨?_, ?_⟩⟩
  · simp [huser, hreserve]
  · simp
  · simp
  · by_cases huv : user.id = v
    · by_cases href : refId = r <;> simp [huv, hv, href]
      ring
    · simp [huv, hv]
  · simp

/-- What a posted commit changes. -/
lemma totals_commit (hreserve : s.isReserve reserve.id = true)
    (hprize : s.isReserve prize.id = false) (hrake : s.isReserve rakeAcc.id = false) (r : String) :
    let s' := (commitPosting refId amount rakeAmount reserve prize rakeAcc).apply sha256 config s
    s'.reserved r = s.reserved r ∧
      s'.committed r = s.committed r + (if refId = r then amount else 0) ∧
      s'.rolledBack r = s.rolledBack r ∧
      ∀ v, s'.reservedBy v r = s.reservedBy v r ∧ s'.rolledBackTo v r = s.rolledBackTo v r := by
  simp only [Store.committed, Store.rolledBack, Store.reserved, Store.rolledBackTo,
    Store.reservedBy, entrySum_apply, isReserve_apply, commitPosting]
  refine ⟨?_, ?_, ?_, fun v => ⟨?_, ?_⟩⟩
  · simp
  · by_cases href : refId = r <;> simp [hprize, hrake, hreserve, href]
    ring
  · simp
  · simp
  · simp

/-- What a posted rollback changes. -/
lemma totals_rollback (huser : s.isReserve user.id = false)
    (hreserve : s.isReserve reserve.id = true) (r : String) :
    let s' := (rollbackPosting refId amount reserve user).apply sha256 config s
    s'.reserved r = s.reserved r ∧ s'.committed r = s.committed r ∧
      s'.rolledBack r = s.rolledBack r + (if refId = r then amount else 0) ∧
      ∀ v, reserve.id ≠ v → s'.reservedBy v r = s.reservedBy v r ∧
        s'.rolledBackTo v r =
          s.rolledBackTo v r + (if refId = r ∧ user.id = v then amount else 0) := by
  simp only [Store.committed, Store.rolledBack, Store.reserved, Store.rolledBackTo,
    Store.reservedBy, entrySum_apply, isReserve_apply, rollbackPosting]
  refine ⟨?_, ?_, ?_, fun v hv => ⟨?_, ?_⟩⟩
  · simp
  · simp
  · by_cases href : refId = r <;> simp [huser, hreserve, href]
    ring
  · simp
  · by_cases huv : user.id = v <;> simp [huv, hv]

end Totals

/-! ### Runs of calls -/

/-- The call gets to a transaction that inserts its legs. -/
def Op.Fresh (sha256 : String → String) (s : Store) (op : Op) : Prop :=
  ∃ p, op.posting s = some p ∧ (∀ h ∈ p.hashes sha256, h ∉ s.hashes) ∧ (p.hashes sha256).Nodup

instance (sha256 : String → String) (s : Store) (op : Op) : Decidable (op.Fresh sha256 s) :=
  match h : op.posting s with
  | some p => decidable_of_iff ((∀ h ∈ p.hashes sha256, h ∉ s.hashes) ∧ (p.hashes sha256).Nodup)
      ⟨fun hp => ⟨p, h, hp⟩, fun ⟨_, hq, hp⟩ => (Option.some.inj (h.symm.trans hq)) ▸ hp⟩
  | none => isFalse fun ⟨_, hq, _⟩ => nomatch h.symm.trans hq

/-- The calls keep what is committed and rolled back within what was reserved, and a call that asks
for more than is left leaves the ledger unchanged. -/
structure ReservationLaw (sha256 : String → String) (config : Config) (calls : List Op)
    (s : Store) : Prop where
  covered : ∀ before later, calls = before ++ later →
    (afterAll sha256 config before s).Covered
  unchanged : ∀ before op later, calls = before ++ op :: later →
    op.Exceeds (afterAll sha256 config before s) →
    (op.after sha256 config (afterAll sha256 config before s)).accounts =
        (afterAll sha256 config before s).accounts ∧
      (op.after sha256 config (afterAll sha256 config before s)).journals =
        (afterAll sha256 config before s).journals

/-- No call that inserts its legs asks for more than is left. -/
def WithinReserved (sha256 : String → String) (config : Config) (calls : List Op) (s : Store) :
    Prop :=
  ∀ before op later, calls = before ++ op :: later →
    op.Fresh sha256 (afterAll sha256 config before s) →
    ¬ op.Exceeds (afterAll sha256 config before s)

section Runs

variable {sha256 : String → String} {config : Config} {s s' : Store} {op : Op} {refId : String}
  {amount rakeAmount : ℤ} {user reserve prize rakeAcc : Account}

/-- A posted reservation keeps the law. -/
lemma covered_reserve (hs : s.Covered) (hamount : 0 < amount)
    (huser : s.isReserve user.id = false) (hreserve : s.isReserve reserve.id = true) :
    ((reservePosting refId amount user reserve).apply sha256 config s).Covered := by
  intro r
  obtain ⟨h₁, h₂, h₃, h₄⟩ :=
    @totals_reserve sha256 config s refId amount user reserve huser hreserve r
  obtain ⟨hall, hby⟩ := hs r
  refine ⟨?_, fun v hv => ?_⟩
  · rw [h₁, h₂, h₃]
    split_ifs <;> omega
  · have hv' : s.IsUser v := Store.isUser_congr (accountRows_apply _).symm hv
    obtain ⟨h₅, h₆⟩ := h₄ v (IsUser.ne_reserve hv' hreserve)
    have := hby v hv'
    rw [h₅, h₆]
    split_ifs <;> omega

/-- A posted commit keeps the law exactly if it does not ask for more than is left. -/
lemma covered_commit_iff (hs : s.Covered) (hreserve : s.isReserve reserve.id = true)
    (hprize : s.isReserve prize.id = false) (hrake : s.isReserve rakeAcc.id = false) :
    ((commitPosting refId amount rakeAmount reserve prize rakeAcc).apply sha256 config s).Covered ↔
      s.committed refId + s.rolledBack refId + amount ≤ s.reserved refId := by
  have htotals := @totals_commit sha256 config s refId amount rakeAmount reserve prize rakeAcc
    hreserve hprize hrake
  constructor
  · intro h
    obtain ⟨h₁, h₂, h₃, -⟩ := htotals refId
    have hall := (h refId).1
    rw [h₁, h₂, h₃, if_pos rfl] at hall
    omega
  · intro h r
    obtain ⟨h₁, h₂, h₃, h₄⟩ := htotals r
    obtain ⟨hall, hby⟩ := hs r
    refine ⟨?_, fun v hv => ?_⟩
    · rw [h₁, h₂, h₃]
      split_ifs with href
      · subst href
        omega
      · omega
    · rw [(h₄ v).1, (h₄ v).2]
      exact hby v (Store.isUser_congr (accountRows_apply _).symm hv)

/-- A posted rollback keeps the law exactly if it does not ask for more than is left. -/
lemma covered_rollback_iff (hs : s.Covered) (huser : s.IsUser user.id)
    (hreserve : s.isReserve reserve.id = true) :
    ((rollbackPosting refId amount reserve user).apply sha256 config s).Covered ↔
      s.committed refId + s.rolledBack refId + amount ≤ s.reserved refId ∧
        s.rolledBackTo user.id refId + amount ≤ s.reservedBy user.id refId := by
  have htotals := @totals_rollback sha256 config s refId amount user reserve
    (not_isReserve_of_isUser huser) hreserve
  constructor
  · intro h
    obtain ⟨h₁, h₂, h₃, h₄⟩ := htotals refId
    obtain ⟨hall, hby⟩ := h refId
    obtain ⟨h₅, h₆⟩ := h₄ user.id (IsUser.ne_reserve huser hreserve)
    have hby := hby user.id (Store.isUser_congr (accountRows_apply _) huser)
    rw [h₁, h₂, h₃, if_pos rfl] at hall
    rw [h₅, h₆, if_pos ⟨rfl, rfl⟩] at hby
    exact ⟨by omega, by omega⟩
  · rintro ⟨hleft, hleftBy⟩ r
    obtain ⟨h₁, h₂, h₃, h₄⟩ := htotals r
    obtain ⟨hall, hby⟩ := hs r
    refine ⟨?_, fun v hv => ?_⟩
    · rw [h₁, h₂, h₃]
      split_ifs with href
      · subst href
        omega
      · omega
    · have hv' : s.IsUser v := Store.isUser_congr (accountRows_apply _).symm hv
      obtain ⟨h₅, h₆⟩ := h₄ v (IsUser.ne_reserve hv' hreserve)
      have := hby v hv'
      rw [h₅, h₆]
      split_ifs with heq
      · obtain ⟨rfl, rfl⟩ := heq
        omega
      · omega

lemma isReserve_of_find? {currency : String} {a : Account}
    (h : s.accounts.find? (byName "reserve" currency) = some a) : s.isReserve a.id = true :=
  isReserve_of_mem (mem_of_find?_eq_some h) (byName_iff.mp (find?_some h)).1

lemma not_isReserve_of_find? (hkeyed : s.Keyed) {name currency : String} {a : Account}
    (h : s.accounts.find? (byName name currency) = some a) (hne : name ≠ "reserve") :
    s.isReserve a.id = false := by
  refine not_isReserve_of_name hkeyed (mem_of_find?_eq_some h) ?_
  rw [(byName_iff.mp (find?_some h)).1]
  exact hne

/-- A posted call keeps the law exactly if it does not ask for more than is left. -/
lemma covered_apply_iff (hkeyed : s.Keyed) (hend : op.Endpoint s) (hs : s.Covered) {p : Posting}
    (hp : op.posting s = some p) : (p.apply sha256 config s).Covered ↔ ¬ op.Exceeds s := by
  cases op with
  | reserve accountId amount refId currency =>
    simp only [Op.posting, Option.bind_eq_bind, Option.bind_eq_some_iff] at hp
    obtain ⟨user, huser, reserve, hreserve, hp⟩ := hp
    cases hp
    obtain ⟨hamount, hisUser⟩ := hend
    obtain ⟨rfl, -⟩ := byId_iff.mp (find?_some huser)
    exact iff_of_true (covered_reserve hs hamount (not_isReserve_of_isUser hisUser)
      (isReserve_of_find? hreserve)) id
  | commit refId amount rakeAmount currency =>
    simp only [Op.posting, Option.bind_eq_bind, Option.bind_eq_some_iff] at hp
    obtain ⟨reserve, hreserve, prize, hprize, rakeAcc, hrake, hp⟩ := hp
    cases hp
    simp only [Op.Exceeds, not_lt]
    exact covered_commit_iff hs (isReserve_of_find? hreserve)
      (not_isReserve_of_find? hkeyed hprize (by decide))
      (not_isReserve_of_find? hkeyed hrake (by decide))
  | rollback accountId amount refId currency =>
    simp only [Op.posting, Option.bind_eq_bind, Option.bind_eq_some_iff] at hp
    obtain ⟨reserve, hreserve, user, huser, hp⟩ := hp
    cases hp
    obtain ⟨-, hisUser⟩ := hend
    obtain ⟨rfl, -⟩ := byId_iff.mp (find?_some huser)
    simp only [Op.Exceeds, not_or, not_lt]
    exact covered_rollback_iff hs hisUser (isReserve_of_find? hreserve)
  | refundDisbursement => exact hend.elim
  | confirmPendingDeposit => exact hend.elim

lemma finish_of_endpoint (hend : op.Endpoint s) (s' : Store) : op.finish s' = s' := by
  cases op with
  | confirmPendingDeposit => exact hend.elim
  | _ => rfl

/-- A call whose legs are not inserted leaves the ledger unchanged. -/
lemma after_of_not_fresh (hend : op.Endpoint s) (h : ¬ op.Fresh sha256 s) :
    op.after sha256 config s = s := by
  cases opResult sha256 config op s with
  | none _ hafter _ _ => exact hafter
  | suppressed p _ _ hrun => rw [Op.after, hrun, finish_of_endpoint hend]
  | posted p hposting hnew hnodup _ => exact absurd ⟨p, hposting, hnew, hnodup⟩ h
  | failed p _ _ _ hrun => rw [Op.after, hrun]

lemma after_of_fresh (hend : op.Endpoint s) (h : op.Fresh sha256 s) :
    ∃ p, op.posting s = some p ∧ op.after sha256 config s = p.apply sha256 config s := by
  obtain ⟨p, hposting, hnew, hnodup⟩ := h
  have hpost : post sha256 config p s = (.ok .posted, p.apply sha256 config s) := by
    rw [post, if_neg (by rintro ⟨h, hh, hin⟩; exact hnew h hh hin), if_pos hnodup]
  refine ⟨p, hposting, ?_⟩
  rw [Op.after, run_op_of_posting hposting, hpost]
  exact finish_of_endpoint hend _

/-- The step of the law. -/
lemma covered_after_iff (hkeyed : s.Keyed) (hend : op.Endpoint s) (hs : s.Covered) :
    (op.after sha256 config s).Covered ↔ (op.Fresh sha256 s → ¬ op.Exceeds s) := by
  by_cases hfresh : op.Fresh sha256 s
  · obtain ⟨p, hposting, hafter⟩ := @after_of_fresh sha256 config s op hend hfresh
    rw [hafter, covered_apply_iff hkeyed hend hs hposting]
    exact ⟨fun h _ => h, fun h => h hfresh⟩
  · rw [after_of_not_fresh hend hfresh]
    exact ⟨fun _ h => absurd h hfresh, fun _ => hs⟩

lemma endpoint_congr (h : s'.accountRows = s.accountRows) (hend : op.Endpoint s) :
    op.Endpoint s' := by
  cases op with
  | reserve => exact ⟨hend.1, Store.isUser_congr h hend.2⟩
  | commit => exact hend
  | rollback => exact ⟨hend.1, Store.isUser_congr h hend.2⟩
  | refundDisbursement => exact hend
  | confirmPendingDeposit => exact hend

/-- The condition, call by call. -/
lemma withinReserved_cons {calls : List Op} : WithinReserved sha256 config (op :: calls) s ↔
    (op.Fresh sha256 s → ¬ op.Exceeds s) ∧
      WithinReserved sha256 config calls (op.after sha256 config s) := by
  constructor
  · intro h
    refine ⟨h [] op calls rfl, fun before op' later heq => ?_⟩
    exact h (op :: before) op' later (by rw [heq]; rfl)
  · rintro ⟨hfirst, hrest⟩ before op' later heq
    cases before with
    | nil =>
      rw [nil_append, cons.injEq] at heq
      obtain ⟨rfl, rfl⟩ := heq
      exact hfirst
    | cons o before =>
      rw [cons_append, cons.injEq] at heq
      obtain ⟨rfl, heq⟩ := heq
      exact hrest before op' later heq

lemma withinReserved_nil : WithinReserved sha256 config [] s := by
  rintro before op later heq
  simp at heq

lemma covered_of_journals (hs : s.journals = []) : s.Covered := by
  intro r
  simp [Store.committed, Store.rolledBack, Store.reserved, Store.rolledBackTo, Store.reservedBy,
    Store.entrySum, hs]

lemma afterAll_concat (before : List Op) : afterAll sha256 config (before ++ [op]) s =
    op.after sha256 config (afterAll sha256 config before s) := by
  simp [afterAll, foldl_append]

lemma accountRows_afterAll (before : List Op) :
    (afterAll sha256 config before s).accountRows = s.accountRows :=
  (@rows_afterAll sha256 config s before).1

end Runs

/-- From an empty journal, the law holds along the calls exactly when no call that inserts its legs
asks for more than is left of its reference. -/
theorem reservation_law_iff (sha256 : String → String) (config : Config) {s : Store}
    (hkeyed : s.Keyed) (hempty : s.journals = []) {calls : List Op}
    (hcalls : ∀ op ∈ calls, op.Endpoint s) :
    ReservationLaw sha256 config calls s ↔ WithinReserved sha256 config calls s := by
  have hrows : ∀ before, (afterAll sha256 config before s).accountRows = s.accountRows :=
    fun before => accountRows_afterAll before
  constructor
  · rintro ⟨hcovered, -⟩ before op later rfl hfresh
    have hend := endpoint_congr (hrows before) (hcalls op (by simp))
    have hnext := hcovered (before ++ [op]) later (by simp)
    rw [afterAll_concat] at hnext
    exact (covered_after_iff (hkeyed.congr (hrows before)) hend
      (hcovered before (op :: later) rfl)).mp hnext hfresh
  · intro hwithin
    refine ⟨fun before => ?_, ?_⟩
    · induction before using reverseRecOn with
      | nil => exact fun _ _ => covered_of_journals hempty
      | append_singleton before op ih =>
        rintro later heq
        rw [append_assoc, singleton_append] at heq
        have hmem : op ∈ calls := by rw [heq]; simp
        rw [afterAll_concat]
        exact (covered_after_iff (hkeyed.congr (hrows before))
          (endpoint_congr (hrows before) (hcalls op hmem)) (ih (op :: later) heq)).mpr
          (hwithin before op later heq)
    · rintro before op later heq hexceeds
      have hmem : op ∈ calls := by rw [heq]; simp
      rw [after_of_not_fresh (endpoint_congr (hrows before) (hcalls op hmem))
        fun hfresh => hwithin before op later heq hfresh hexceeds]
      exact ⟨rfl, rfl⟩

/-- A buy-in that is rolled back, and the rollback once more. -/
theorem reservation_law_iff_retried : ReservationLaw id {}
    [.reserve "u1" 100 "t1" "USD", .rollback "u1" 100 "t1" "USD", .rollback "u1" 100 "t1" "USD"]
    buyInAccounts := by
  refine (reservation_law_iff id {} ⟨by decide, by decide⟩ rfl (by decide)).mpr ?_
  simp only [withinReserved_cons, withinReserved_nil, and_true]
  decide +kernel

/-- A rollback without a reservation is paid out. -/
theorem rollback_without_reserve :
    ¬ ∀ (sha256 : String → String) (config : Config) (s : Store) (calls : List Op),
      Function.Injective sha256 → s.Keyed → s.journals = [] → (∀ op ∈ calls, op.Endpoint s) →
      ReservationLaw sha256 config calls s := by
  intro h
  have hlaw := h id {} buyInAccounts [.rollback "u1" 100 "t1" "USD"] Function.injective_id
    ⟨by decide, by decide⟩ rfl (by decide)
  have hcovered := (hlaw.covered [.rollback "u1" 100 "t1" "USD"] [] rfl "t1").1
  revert hcovered
  decide +kernel

end Pokerhub.Wallet
