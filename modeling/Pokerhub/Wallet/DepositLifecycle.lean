import Pokerhub.Core.Service
import Pokerhub.Wallet.Postings

/-!
# Pending deposits

The operations that move a deposit out of `pending`, in any interleaving, with failures and with
locks that expire. Posting a deposit and saving its status are two steps, and those that reject it
look at the status only, a user who cancels it not even at the lock. As long as a rejected deposit
is not posted or confirmed any more, and a posted one is not rejected any more, a deposit is
credited at most once, and its last status tells whether it was.
-/

namespace Pokerhub.Wallet

open List Program

inductive DepositOp where
  | confirmPendingDeposit (id : String)
  | rejectPendingDeposit (id : String)
  | cancelPendingDeposit (userId depositId : String)
  | rejectExpiredPendingDeposits (now : ℕ)
  | reconcile (entries : List BankEntry)
  deriving DecidableEq, Repr

section Service

variable (sha256 : String → String) (config : Config) (s₀ : Store)

def DepositOp.body : DepositOp → WalletM Unit
  | .confirmPendingDeposit id => do
    let _ ← Wallet.confirmPendingDeposit sha256 config id
    return ()
  | .rejectPendingDeposit id => Wallet.rejectPendingDeposit id
  | .cancelPendingDeposit userId depositId => Wallet.cancelPendingDeposit userId depositId
  | .rejectExpiredPendingDeposits now => Wallet.rejectExpiredPendingDeposits now
  | .reconcile entries => reconcileBank sha256 config entries

/-- The operations on the deposits of `s₀`. Every command may fail, and a lock may expire at any
time. -/
def depositService : Service Cmd.Answer String Unit Store DepositOp where
  init s := s = s₀
  ready _ _ := True
  body := DepositOp.body sha256 config
  exec _ := Cmd.exec
  fails _ _ := True
  env s s' := ∃ id, s' = s.setKey (.pendingLock id) none

instance (s : Store) (op : DepositOp) : Decidable ((depositService sha256 config s₀).ready s op) :=
  isTrue trivial

instance (s : Store) (c : Cmd) : Decidable ((depositService sha256 config s₀).fails s c) :=
  isTrue trivial

end Service

/-- The entry credits the amount of the deposit to its user. -/
def JournalEntry.credits (d : PendingDeposit) (j : JournalEntry) : Bool :=
  j.refType == "deposit" && j.refId == d.id && j.accountId == d.userId && j.amount == d.amount

/-- How many times the deposit was credited. -/
def Store.credits (s : Store) (d : PendingDeposit) : ℕ :=
  s.journals.countP (JournalEntry.credits d)

def Store.statusOf (s : Store) (id : String) : Option DepositStatus :=
  (s.pendingDeposits.find? (·.id == id)).map (·.status)

section Lodged

variable (sha256 : String → String) (s : Store)

/-- The hashes of the legs that a posting of the deposit can have. -/
def legHashes (d : PendingDeposit) : List String :=
  s.accounts.flatMap fun a =>
    [buildHash sha256 "deposit" d.id a.id (-d.amount), buildHash sha256 "deposit" d.id a.id d.amount]

/-- A pending deposit that was not credited, and whose hashes are neither in the journal nor those
of another deposit. -/
structure Lodged (d : PendingDeposit) : Prop where
  stored : d ∈ s.pendingDeposits
  pending : d.status = .pending
  ids : (s.pendingDeposits.map (·.id)).Nodup
  uncredited : s.credits d = 0
  fresh : ∀ h ∈ legHashes sha256 s d, h ∉ s.hashes
  apart : ∀ d' ∈ s.pendingDeposits, d'.id ≠ d.id →
    ∀ h ∈ legHashes sha256 s d, h ∉ legHashes sha256 s d'

end Lodged

/-- A deposit that is rejected is not posted and not confirmed, and one that is posted is not
rejected. -/
def InOrder (d : PendingDeposit) (s : Store) : Service.Action DepositOp Cmd → Prop
  | .call _ (.transaction refType refId _ _) =>
    refType = "deposit" → refId = d.id → s.statusOf d.id ≠ some .rejected
  | .call _ (.saveDeposit deposit) =>
    deposit.id = d.id → if deposit.status = .rejected then s.credits d = 0
      else s.statusOf d.id ≠ some .rejected
  | _ => True

instance (d : PendingDeposit) (s : Store) :
    (a : Service.Action DepositOp Cmd) → Decidable (InOrder d s a)
  | .call _ (.transaction refType refId _ _) => inferInstanceAs (Decidable
      (refType = "deposit" → refId = d.id → s.statusOf d.id ≠ some .rejected))
  | .call _ (.saveDeposit deposit) => inferInstanceAs (Decidable
      (deposit.id = d.id → if deposit.status = .rejected then s.credits d = 0
        else s.statusOf d.id ≠ some .rejected))
  | .call _ (.findAccount _) | .call _ .findAccounts | .call _ (.sumJournals _)
  | .call _ (.findJournals _) | .call _ (.findDeposit _) | .call _ (.findDeposits _)
  | .call _ (.insertDeposit _) | .call _ (.findDisbursement _) | .call _ (.findLastDisbursement _)
  | .call _ (.findDisbursements _) | .call _ (.saveDisbursement _)
  | .call _ (.deleteDisbursement _) | .call _ (.setNx _ _) | .call _ (.get _) | .call _ (.set _ _)
  | .call _ (.del _) | .call _ (.incrby _ _) | .call _ (.expire _) | .call _ (.emit _)
  | .call _ (.addPayout _ _) | .call _ (.addRetry _) | .call _ (.initiate3DS _ _)
  | .call _ (.kyc _) | .call _ (.flagged _ _) | .call _ (.side _)
  | .start _ | .fault _ _ | .env => isTrue trivial

/-- The operation has ended with an error. -/
def Failed (t : DepositOp × WalletM Unit) : Prop :=
  ∃ e, t.2.outcome = some (.error e)

/-- The deposit was posted by an operation that failed before it had saved the status, and was not
confirmed since. -/
def AwaitsRetry (d : PendingDeposit) (P : Pool Cmd.Answer String Unit Store DepositOp) : Prop :=
  P.state.statusOf d.id = some .pending ∧ (∃ t ∈ P.threads, Failed t) ∧
    ∀ t ∈ P.threads, t.1 = .confirmPendingDeposit d.id → Failed t

/-! ### The invariant -/

/-- What an operation knows about the deposit. -/
inductive DepositStage where
  | idle
  /-- The operation has found or made the entries of the deposit. -/
  | posted
  /-- The operation has seen that the deposit is not pending. -/
  | settled
  deriving DecidableEq

def creditHash (sha256 : String → String) (d : PendingDeposit) : String :=
  buildHash sha256 "deposit" d.id d.userId d.amount

/-- The accounts and deposits are those of `s₀`, and the journal agrees with the status. -/
structure DepositBooks (sha256 : String → String) (s₀ : Store) (d : PendingDeposit) (s : Store) :
    Prop where
  accounts : s.accountRows = s₀.accountRows
  deposits : s.depositRows = s₀.depositRows
  once : s.credits d ≤ 1
  hashes : ∀ j ∈ s.journals, j.credits d = true → j.hash = creditHash sha256 d
  legs : ∀ h ∈ legHashes sha256 s₀ d, h ∈ s.hashes → s.credits d = 1
  confirmed : s.statusOf d.id = some .confirmed → s.credits d = 1
  rejected : s.statusOf d.id = some .rejected → s.credits d = 0

structure Settling (sha256 : String → String) (s₀ : Store) (d : PendingDeposit) (s : Store)
    (ls : List (DepositOp × DepositStage)) : Prop where
  books : DepositBooks sha256 s₀ d s
  posted : ∀ rl ∈ ls, rl.2 = .posted → s.credits d = 1
  settled : ∀ rl ∈ ls, rl.2 = .settled → s.statusOf d.id ≠ some .pending
  waiting : s.statusOf d.id = some .pending → s.credits d = 1 → ∃ rl ∈ ls, rl.2 = .posted

/-- A command that writes neither accounts, nor the journal, nor deposits. -/
def Cmd.Still : Cmd → Prop
  | .transaction _ _ _ _ => False
  | .insertDeposit _ => False
  | .saveDeposit _ => False
  | _ => True

lemma Cmd.Still.exec {c : Cmd} (h : c.Still) (s : Store) :
    (c.exec s).2.accounts = s.accounts ∧ (c.exec s).2.journals = s.journals ∧
      (c.exec s).2.pendingDeposits = s.pendingDeposits := by
  cases c with
  | transaction => exact h.elim
  | insertDeposit => exact h.elim
  | saveDeposit => exact h.elim
  | setNx k v =>
    simp only [Cmd.exec]
    split <;> exact ⟨rfl, rfl, rfl⟩
  | expire k =>
    simp only [Cmd.exec]
    split <;> exact ⟨rfl, rfl, rfl⟩
  | _ => exact ⟨rfl, rfl, rfl⟩

section Invariant

variable {sha256 : String → String} {s₀ s s' : Store} {d x : PendingDeposit}

lemma Store.statusOf_saveDeposit (deposit : PendingDeposit) (id : String) :
    (s.saveDeposit deposit).statusOf id =
      if deposit.id = id then (s.statusOf id).map fun _ => deposit.status else s.statusOf id := by
  have hid : (fun d : PendingDeposit => d.id == id) ∘ (fun d : PendingDeposit =>
      if d.id = deposit.id then { d with status := deposit.status } else d) =
      fun d => d.id == id := by
    funext d
    simp only [Function.comp]
    split <;> rfl
  rw [statusOf, statusOf, saveDeposit, find?_map, hid]
  cases hfind : s.pendingDeposits.find? (·.id == id) with
  | none => simp
  | some d =>
    have hd : d.id = id := by simpa using find?_some hfind
    by_cases hdep : deposit.id = id
    · simp [hd, hdep]
    · simp [hd, hdep, Ne.symm hdep]

lemma DepositBooks.congr (h : DepositBooks sha256 s₀ d s) (haccounts : s'.accounts = s.accounts)
    (hjournals : s'.journals = s.journals) (hdeposits : s'.pendingDeposits = s.pendingDeposits) :
    DepositBooks sha256 s₀ d s' := by
  have hcredits : s'.credits d = s.credits d := by rw [Store.credits, hjournals, Store.credits]
  have hstatus : s'.statusOf d.id = s.statusOf d.id := by
    rw [Store.statusOf, hdeposits, Store.statusOf]
  constructor
  · rw [Store.accountRows, haccounts]
    exact h.accounts
  · rw [Store.depositRows, hdeposits]
    exact h.deposits
  · rw [hcredits]
    exact h.once
  · rw [hjournals]
    exact h.hashes
  · rw [Store.hashes, hjournals, hcredits]
    exact h.legs
  · rw [hstatus, hcredits]
    exact h.confirmed
  · rw [hstatus, hcredits]
    exact h.rejected

/-- The deposit is stored. -/
lemma DepositBooks.exists_status (h : DepositBooks sha256 s₀ d s) (hd : d ∈ s₀.pendingDeposits) :
    ∃ status, s.statusOf d.id = some status := by
  have hrow : (d.id, d.userId, d.amount, d.currency) ∈ s.depositRows := by
    rw [h.deposits]
    exact mem_map.mpr ⟨d, hd, rfl⟩
  obtain ⟨x, hx, heq⟩ := mem_map.mp hrow
  rw [Prod.mk.injEq] at heq
  cases hfind : s.pendingDeposits.find? (·.id == d.id) with
  | none =>
    rw [find?_eq_none] at hfind
    exact absurd heq.1 (by simpa using hfind x hx)
  | some y => exact ⟨y.status, by rw [Store.statusOf, hfind, Option.map_some]⟩

/-- A row of `s₀` with the id of the deposit is its row. -/
lemma Lodged.row_eq (h : Lodged sha256 s₀ d)
    (hx : (x.id, x.userId, x.amount, x.currency) ∈ s₀.depositRows)
    (hid : x.id = d.id) : x.userId = d.userId ∧ x.amount = d.amount := by
  obtain ⟨y, hy, heq⟩ := mem_map.mp hx
  simp only [Prod.mk.injEq] at heq
  obtain rfl : y = d := inj_on_of_nodup_map h.ids hy h.stored (heq.1.trans hid)
  exact ⟨heq.2.1.symm, heq.2.2.1.symm⟩

lemma mem_legHashes {id : String} (hid : id ∈ s.accounts.map (·.id)) :
    buildHash sha256 "deposit" d.id id (-d.amount) ∈ legHashes sha256 s d ∧
      buildHash sha256 "deposit" d.id id d.amount ∈ legHashes sha256 s d := by
  obtain ⟨a, ha, rfl⟩ := mem_map.mp hid
  exact ⟨mem_flatMap.mpr ⟨a, ha, by simp⟩, mem_flatMap.mpr ⟨a, ha, by simp⟩⟩

/-- The rows of a posting of a deposit. -/
def depositLegs (sha256 : String → String) (x : PendingDeposit) (house user : Account) :
    List (Movement × String) :=
  [(⟨house, -x.amount⟩, buildHash sha256 "deposit" x.id house.id (-x.amount)),
    (⟨user, x.amount⟩, buildHash sha256 "deposit" x.id user.id x.amount)]

/-- The store after a posting of the deposit `x`. -/
def afterDeposit (sha256 : String → String) (x : PendingDeposit) (house user : Account) (s : Store) :
    Store :=
  (depositLegs sha256 x house user).foldl (Store.insert "deposit" x.id none) s

variable {house user : Account}

lemma afterDeposit_journals : (afterDeposit sha256 x house user s).journals = s.journals ++
    [⟨house.id, -x.amount, house.currency, "deposit", x.id, none,
        buildHash sha256 "deposit" x.id house.id (-x.amount)⟩,
      ⟨user.id, x.amount, user.currency, "deposit", x.id, none,
        buildHash sha256 "deposit" x.id user.id x.amount⟩] :=
  Store.foldl_insert_journals _

lemma afterDeposit_statusOf (id : String) :
    (afterDeposit sha256 x house user s).statusOf id = s.statusOf id := by
  rw [afterDeposit, Store.foldl_insert_eq]
  rfl

lemma afterDeposit_rows : (afterDeposit sha256 x house user s).accountRows = s.accountRows ∧
    (afterDeposit sha256 x house user s).depositRows = s.depositRows := by
  refine ⟨Store.accountRows_foldl_insert, ?_⟩
  rw [afterDeposit, Store.foldl_insert_eq]
  rfl

/-- A posting of the deposit itself credits it. -/
lemma DepositBooks.post (h : DepositBooks sha256 s₀ d s) (hid : x.id = d.id)
    (hamount : x.amount = d.amount) (huser : user.id = d.userId)
    (hnodup : ((depositLegs sha256 x house user).map (·.2)).Nodup)
    (hnew : ∀ hash ∈ (depositLegs sha256 x house user).map (·.2), hash ∉ s.hashes)
    (hstatus : s.statusOf d.id ≠ some .rejected) :
    DepositBooks sha256 s₀ d (afterDeposit sha256 x house user s) ∧
      (afterDeposit sha256 x house user s).credits d = 1 := by
  have hcredit : buildHash sha256 "deposit" x.id user.id x.amount = creditHash sha256 d := by
    rw [hid, hamount, huser, creditHash]
  -- it was not credited before, since the hash is new
  have hzero : s.credits d = 0 := by
    refine countP_eq_zero.mpr fun j hj hjd => ?_
    refine hnew (creditHash sha256 d) ?_ (mem_map.mpr ⟨j, hj, h.hashes j hj hjd⟩)
    rw [← hcredit]
    simp [depositLegs]
  -- the leg of the house does not credit it: it has another hash
  have hhouse : (⟨house.id, -x.amount, house.currency, "deposit", x.id, none,
      buildHash sha256 "deposit" x.id house.id (-x.amount)⟩ : JournalEntry).credits d = false := by
    by_contra hc
    simp only [JournalEntry.credits, Bool.not_eq_false, Bool.and_eq_true, beq_iff_eq] at hc
    obtain ⟨⟨⟨-, -⟩, haccount⟩, hneg⟩ := hc
    rw [hamount] at hneg
    simp [depositLegs, haccount, huser, hamount, hneg] at hnodup
  have huserCredits : (⟨user.id, x.amount, user.currency, "deposit", x.id, none,
      buildHash sha256 "deposit" x.id user.id x.amount⟩ : JournalEntry).credits d = true := by
    simp [JournalEntry.credits, hid, hamount, huser]
  have hone : (afterDeposit sha256 x house user s).credits d = 1 := by
    rw [Store.credits, afterDeposit_journals, countP_append,
      show countP (JournalEntry.credits d) s.journals = 0 from hzero]
    simp [hhouse, huserCredits]
  refine ⟨⟨afterDeposit_rows.1.trans h.accounts, afterDeposit_rows.2.trans h.deposits, hone.le, ?_,
    fun _ _ _ => hone, fun _ => hone, ?_⟩, hone⟩
  · rw [afterDeposit_journals]
    intro j hj hjd
    rcases mem_append.mp hj with hj | hj
    · exact h.hashes j hj hjd
    · rcases mem_pair.mp hj with rfl | rfl
      · rw [hhouse] at hjd
        cases hjd
      · exact hcredit
  · rw [afterDeposit_statusOf]
    exact fun hrejected => absurd hrejected hstatus

/-- A posting of another deposit does not credit it. -/
lemma DepositBooks.post_other (h : DepositBooks sha256 s₀ d s) (hd : Lodged sha256 s₀ d)
    (hx : (x.id, x.userId, x.amount, x.currency) ∈ s₀.depositRows) (hid : x.id ≠ d.id)
    (hhouse : house.id ∈ s₀.accounts.map (·.id)) (huser : user.id ∈ s₀.accounts.map (·.id)) :
    DepositBooks sha256 s₀ d (afterDeposit sha256 x house user s) ∧
      (afterDeposit sha256 x house user s).credits d = s.credits d := by
  have hnot : ∀ j : JournalEntry, j.refId = x.id → j.credits d = false := by
    rintro j hj
    simp [JournalEntry.credits, hj, hid]
  have hcredits : (afterDeposit sha256 x house user s).credits d = s.credits d := by
    rw [Store.credits, afterDeposit_journals, countP_append]
    simp [hnot, Store.credits]
  refine ⟨⟨afterDeposit_rows.1.trans h.accounts, afterDeposit_rows.2.trans h.deposits, ?_, ?_, ?_,
    ?_, ?_⟩, hcredits⟩
  · rw [hcredits]
    exact h.once
  · rw [afterDeposit_journals]
    intro j hj hjd
    rcases mem_append.mp hj with hj | hj
    · exact h.hashes j hj hjd
    · rcases mem_pair.mp hj with rfl | rfl
      · rw [hnot _ rfl] at hjd
        cases hjd
      · rw [hnot _ rfl] at hjd
        cases hjd
  · intro hash hleg hin
    rw [hcredits]
    rw [Store.hashes, afterDeposit_journals, map_append] at hin
    rcases mem_append.mp hin with hin | hin
    · exact h.legs hash hleg hin
    · -- the new hashes are those of the other deposit
      obtain ⟨y, hy, heq⟩ := mem_map.mp hx
      simp only [Prod.mk.injEq] at heq
      refine absurd ?_ (hd.apart y hy (by rw [heq.1]; exact hid) hash hleg)
      rw [map_cons, map_cons, map_nil] at hin
      rcases mem_pair.mp hin with rfl | rfl
      · rw [← heq.1, ← heq.2.2.1]
        exact (mem_legHashes hhouse).1
      · rw [← heq.1, ← heq.2.2.1]
        exact (mem_legHashes huser).2
  · rw [afterDeposit_statusOf, hcredits]
    exact h.confirmed
  · rw [afterDeposit_statusOf, hcredits]
    exact h.rejected

/-- The status is saved; the journal has to agree if it is that of the deposit. -/
lemma DepositBooks.saveDeposit (h : DepositBooks sha256 s₀ d s)
    (hconfirmed : x.id = d.id → x.status = .confirmed → s.credits d = 1)
    (hrejected : x.id = d.id → x.status = .rejected → s.credits d = 0) :
    DepositBooks sha256 s₀ d (s.saveDeposit x) := by
  refine ⟨h.accounts, (Store.depositRows_saveDeposit x).trans h.deposits, h.once, h.hashes, h.legs,
    ?_, ?_⟩
  · rw [Store.statusOf_saveDeposit]
    split_ifs with hid
    · intro hstatus
      obtain ⟨_, -, hx⟩ := Option.map_eq_some_iff.mp hstatus
      exact hconfirmed hid hx
    · exact h.confirmed
  · rw [Store.statusOf_saveDeposit]
    split_ifs with hid
    · intro hstatus
      obtain ⟨_, -, hx⟩ := Option.map_eq_some_iff.mp hstatus
      exact hrejected hid hx
    · exact h.rejected

/-- The operation in the middle goes on, to the stage `l'`. -/
lemma Settling.step {ls₁ ls₂ : List (DepositOp × DepositStage)} {r : DepositOp}
    {l l' : DepositStage} (h : Settling sha256 s₀ d s (ls₁ ++ (r, l) :: ls₂))
    (hbooks : DepositBooks sha256 s₀ d s') (hcredits : s.credits d = 1 → s'.credits d = 1)
    (hstatus : s.statusOf d.id ≠ some .pending → s'.statusOf d.id ≠ some .pending)
    (hstage : l' = l ∨ l' = .posted ∧ s'.credits d = 1 ∨
      l' = .settled ∧ s'.statusOf d.id ≠ some .pending)
    (hnew : s'.credits d = 1 → s.credits d = 1 ∨ l' = .posted ∨ s'.statusOf d.id ≠ some .pending) :
    Settling sha256 s₀ d s' (ls₁ ++ (r, l') :: ls₂) := by
  have hold : ∀ rl ∈ ls₁ ++ (r, l') :: ls₂, rl ∈ ls₁ ++ (r, l) :: ls₂ ∨ rl = (r, l') :=
    fun _ => Service.mem_replaced
  refine ⟨hbooks, ?_, ?_, ?_⟩
  · intro rl hrl hposted
    rcases hold rl hrl with hrl | rfl
    · exact hcredits (h.posted rl hrl hposted)
    · rcases hstage with hl | ⟨-, hcredit⟩ | ⟨hl, -⟩
      · exact hcredits (h.posted (r, l) (by simp) (hl.symm.trans hposted))
      · exact hcredit
      · rw [show l' = .posted from hposted] at hl
        cases hl
  · intro rl hrl hsettled
    rcases hold rl hrl with hrl | rfl
    · exact hstatus (h.settled rl hrl hsettled)
    · rcases hstage with hl | ⟨hl, -⟩ | ⟨-, hnot⟩
      · exact hstatus (h.settled (r, l) (by simp) (hl.symm.trans hsettled))
      · rw [show l' = .settled from hsettled] at hl
        cases hl
      · exact hnot
  · intro hpending hcredit
    have hpending' : s.statusOf d.id = some .pending := by
      by_contra hne
      exact hstatus hne hpending
    rcases hnew hcredit with hcredit' | hl' | hnot
    · obtain ⟨rl, hrl, hposted⟩ := h.waiting hpending' hcredit'
      rcases mem_append.mp hrl with hrl | hrl
      · exact ⟨rl, mem_append_left _ hrl, hposted⟩
      · rcases mem_cons.mp hrl with rfl | hrl
        · refine ⟨(r, l'), by simp, ?_⟩
          rcases hstage with hl | ⟨hl, -⟩ | ⟨-, hnot⟩
          · exact hl.trans hposted
          · exact hl
          · exact absurd hpending hnot
        · exact ⟨rl, by simp [hrl], hposted⟩
    · exact ⟨(r, l'), by simp, hl'⟩
    · exact absurd hpending hnot

end Invariant

/-! ### The operations keep it -/

/-- The rules for an operation among others. -/
abbrev depositRules (sha256 : String → String) (config : Config) (s₀ : Store) (d : PendingDeposit)
    (r : DepositOp) :=
  (depositService sha256 config s₀).protocol (InOrder d) (Settling sha256 s₀ d) r

section Programs

variable {sha256 : String → String} {config : Config} {s₀ : Store} {d x : PendingDeposit}
  {r : DepositOp} {l : DepositStage} {α β : Type}

lemma Settling.still {ls : List (DepositOp × DepositStage)} {s s' : Store}
    (h : Settling sha256 s₀ d s ls) (haccounts : s'.accounts = s.accounts)
    (hjournals : s'.journals = s.journals) (hdeposits : s'.pendingDeposits = s.pendingDeposits) :
    Settling sha256 s₀ d s' ls := by
  have hcredits : s'.credits d = s.credits d := by rw [Store.credits, hjournals, Store.credits]
  have hstatus : s'.statusOf d.id = s.statusOf d.id := by
    rw [Store.statusOf, hdeposits, Store.statusOf]
  refine ⟨h.books.congr haccounts hjournals hdeposits, ?_, ?_, ?_⟩
  · rw [hcredits]
    exact h.posted
  · rw [hstatus]
    exact h.settled
  · rw [hstatus, hcredits]
    exact h.waiting

/-- A program that writes nothing of the deposit. -/
lemma wp_still {p : WalletM α} {Q : Except String α → DepositStage → Prop} (hp : p.Uses Cmd.Still)
    (hQ : ∀ o, Q o l) : p.wp (depositRules sha256 config s₀ d r) Q l := by
  refine wp_of_uses (F := fun l' => l' = l) hp ?_ (fun o l' hl' => hl' ▸ hQ o) rfl
  rintro c s γ l' hc rfl hinv -
  obtain ⟨haccounts, hjournals, hdeposits⟩ := hc.exec s
  exact ⟨l', rfl, hinv.still haccounts hjournals hdeposits⟩

lemma wp_still_bind {p : WalletM α} {f : α → WalletM β} {Q : Except String β → DepositStage → Prop}
    (hp : p.Uses Cmd.Still) (hf : ∀ a, (f a).wp (depositRules sha256 config s₀ d r) Q l)
    (herr : ∀ e, Q (.error e) l) :
    (p >>= f).wp (depositRules sha256 config s₀ d r) Q l := by
  refine wp_bind (wp_still hp ?_)
  rintro (e | a)
  · exact herr e
  · exact hf a

/-- Looking for a deposit. What is found is a row of `s₀`. -/
lemma wp_findDeposit_bind {q : PendingDeposit → Bool} {f : Option PendingDeposit → WalletM β}
    {Q : Except String β → DepositStage → Prop} (herr : ∀ e, Q (.error e) l)
    (hf : ∀ s ls₁ ls₂, Settling sha256 s₀ d s (ls₁ ++ (r, l) :: ls₂) →
      ∃ l', Settling sha256 s₀ d s (ls₁ ++ (r, l') :: ls₂) ∧
        (f (s.pendingDeposits.find? q)).wp (depositRules sha256 config s₀ d r) Q l') :
    (run (.findDeposit q) >>= f).wp (depositRules sha256 config s₀ d r) Q l := by
  refine wp_bind (wp_command fun s γ hinv => ⟨fun _ => ?_, fun _ => ⟨l, hinv, herr _⟩⟩)
  exact hf s γ.1 γ.2 hinv

/-- The row of a deposit is in `s₀`. -/
abbrev Stored (s₀ : Store) (x : PendingDeposit) : Prop :=
  (x.id, x.userId, x.amount, x.currency) ∈ s₀.depositRows

lemma DepositBooks.stored {s : Store} (h : DepositBooks sha256 s₀ d s)
    (hx : x ∈ s.pendingDeposits) : Stored s₀ x := by
  rw [Stored, ← h.deposits]
  exact mem_map.mpr ⟨x, hx, rfl⟩

/-- Looking for an account. What is found is an account of `s₀`. -/
lemma wp_findAccount_bind {q : Account → Bool} {f : Account → WalletM β}
    {Q : Except String β → DepositStage → Prop} (herr : ∀ e, Q (.error e) l)
    (hf : ∀ a, q a = true → a.id ∈ s₀.accounts.map (·.id) →
      (f a).wp (depositRules sha256 config s₀ d r) Q l) :
    (findOneByOrFail q >>= f).wp (depositRules sha256 config s₀ d r) Q l := by
  refine wp_bind (wp_bind (wp_command fun s γ hinv => ⟨fun _ => ?_, fun _ => ⟨l, hinv, herr _⟩⟩))
  refine ⟨l, hinv, ?_⟩
  cases hfind : s.accounts.find? q with
  | none =>
    simp only [Service.protocol, depositService, Cmd.exec, hfind]
    exact herr _
  | some a =>
    simp only [Service.protocol, depositService, Cmd.exec, hfind]
    refine hf a (find?_some hfind) ?_
    rw [← Store.ids_eq hinv.books.accounts]
    exact mem_map.mpr ⟨a, mem_of_find?_eq_some hfind, rfl⟩

/-- The operation has found or made the entries of the deposit, if it is the one of `x`. -/
abbrev stageAfter (d x : PendingDeposit) (next l : DepositStage) : DepositStage :=
  if x.id = d.id then next else l

/-- Saving a status that agrees with the journal. -/
lemma wp_saveDeposit {deposit : PendingDeposit} (next : DepositStage)
    {Q : Except String Unit → DepositStage → Prop} (hpending : deposit.status ≠ .pending)
    (hagrees : ∀ s ls₁ ls₂, Settling sha256 s₀ d s (ls₁ ++ (r, l) :: ls₂) → deposit.id = d.id →
      InOrder d s (.call r (.saveDeposit deposit)) →
      (deposit.status = .confirmed → s.credits d = 1) ∧
        (deposit.status = .rejected → s.credits d = 0))
    (hnext : next = l ∨ next = .settled) (hok : Q (.ok ()) (stageAfter d deposit next l))
    (herr : ∀ e, Q (.error e) l) :
    (run (.saveDeposit deposit)).wp (depositRules sha256 config s₀ d r) Q l := by
  refine wp_command fun s γ hinv => ⟨fun hinorder => ?_, fun _ => ⟨l, hinv, herr _⟩⟩
  refine ⟨stageAfter d deposit next l, hinv.step (hinv.books.saveDeposit ?_ ?_) id ?_ ?_ Or.inl, hok⟩
  · exact fun hid => (hagrees s γ.1 γ.2 hinv hid hinorder).1
  · exact fun hid => (hagrees s γ.1 γ.2 hinv hid hinorder).2
  · show _ → (s.saveDeposit deposit).statusOf d.id ≠ some .pending
    rw [Store.statusOf_saveDeposit]
    split_ifs with hid
    · intro _ hmap
      obtain ⟨_, -, hx⟩ := Option.map_eq_some_iff.mp hmap
      exact hpending hx
    · exact id
  · show stageAfter d deposit next l = l ∨ _ ∨ _ ∧ (s.saveDeposit deposit).statusOf d.id ≠ _
    rw [stageAfter, Store.statusOf_saveDeposit]
    split_ifs with hid
    · rcases hnext with hnext | hnext
      · exact Or.inl hnext
      · refine Or.inr (Or.inr ⟨hnext, fun hmap => ?_⟩)
        obtain ⟨_, -, hx⟩ := Option.map_eq_some_iff.mp hmap
        exact hpending hx
    · exact Or.inl rfl

/-- A step that leaves the store alone. -/
lemma Settling.see {ls₁ ls₂ : List (DepositOp × DepositStage)} {l' : DepositStage} {s : Store}
    (h : Settling sha256 s₀ d s (ls₁ ++ (r, l) :: ls₂))
    (hstage : l' = l ∨ l' = .posted ∧ s.credits d = 1 ∨
      l' = .settled ∧ s.statusOf d.id ≠ some .pending) :
    Settling sha256 s₀ d s (ls₁ ++ (r, l') :: ls₂) :=
  h.step h.books id id hstage Or.inl

/-- The transaction of a deposit. -/
lemma wp_depositTransaction {house user : Account} {Q : Except String Bool → DepositStage → Prop}
    (hd : Lodged sha256 s₀ d) (hx : Stored s₀ x) (hhouse : house.id ∈ s₀.accounts.map (·.id))
    (huser : user.id = x.userId) (huserIn : user.id ∈ s₀.accounts.map (·.id))
    (hok : Q (.ok true) (stageAfter d x .posted l)) (hfalse : Q (.ok false) l)
    (herr : ∀ e, Q (.error e) l) :
    (run (.transaction "deposit" x.id none (depositLegs sha256 x house user))).wp
      (depositRules sha256 config s₀ d r) Q l := by
  refine wp_command fun s γ hinv => ⟨fun hinorder => ?_, fun _ => ⟨l, hinv, herr _⟩⟩
  show ∃ l', Settling sha256 s₀ d
      ((Cmd.transaction "deposit" x.id none (depositLegs sha256 x house user)).exec s).2
      (γ.1 ++ (r, l') :: γ.2) ∧
    Q (.ok ((Cmd.transaction "deposit" x.id none (depositLegs sha256 x house user)).exec s).1) l'
  by_cases hnew : ((depositLegs sha256 x house user).map (·.2)).Nodup ∧
      ∀ h ∈ (depositLegs sha256 x house user).map (·.2), h ∉ s.journals.map (·.hash)
  · have hexec : (Cmd.transaction "deposit" x.id none (depositLegs sha256 x house user)).exec s =
        (true, afterDeposit sha256 x house user s) := if_pos hnew
    rw [hexec]
    refine ⟨stageAfter d x .posted l, ?_, hok⟩
    by_cases hid : x.id = d.id
    · obtain ⟨huid, hamount⟩ := hd.row_eq hx hid
      obtain ⟨hbooks, hone⟩ := hinv.books.post hid hamount (huser.trans huid) hnew.1 hnew.2
        (hinorder rfl hid)
      refine hinv.step hbooks (fun _ => hone) (by rw [afterDeposit_statusOf]; exact id)
        (Or.inr (Or.inl ⟨if_pos hid, hone⟩)) fun _ => Or.inr (Or.inl (if_pos hid))
    · obtain ⟨hbooks, hsame⟩ := hinv.books.post_other hd hx hid hhouse huserIn
      exact hinv.step hbooks (fun h => hsame.trans h) (by rw [afterDeposit_statusOf]; exact id)
        (Or.inl (if_neg hid)) fun h => Or.inl (hsame.symm.trans h)
  · have hexec : (Cmd.transaction "deposit" x.id none (depositLegs sha256 x house user)).exec s =
        (false, s) := if_neg hnew
    rw [hexec]
    exact ⟨l, hinv, hfalse⟩

/-- When `record` returns, the entries of the deposit are in the journal. -/
lemma wp_recordDeposit {house user : Account} (hd : Lodged sha256 s₀ d) (hx : Stored s₀ x)
    (hhouse : house.id ∈ s₀.accounts.map (·.id)) (huser : user.id = x.userId)
    (huserIn : user.id ∈ s₀.accounts.map (·.id)) :
    (record sha256 config "deposit" x.id [⟨house, -x.amount⟩, ⟨user, x.amount⟩]).wp
      (depositRules sha256 config s₀ d r) (fun
        | .ok _, l' => l' = stageAfter d x .posted l
        | .error _, _ => True) l := by
  unfold record
  rw [if_neg (by simp)]
  refine wp_bind (wp_command fun s γ hinv => ⟨fun _ => ?_, fun _ => ⟨l, hinv, trivial⟩⟩)
  show ∃ l', Settling sha256 s₀ d s (γ.1 ++ (r, l') :: γ.2) ∧
    (if s.journals.filter (fun j => ((depositLegs sha256 x house user).map (·.2)).contains j.hash) ≠ []
      then _ else _ : WalletM Outcome).wp _ _ l'
  split_ifs with hfound
  · -- a hash of the deposit is in the journal only if it was credited
    refine ⟨stageAfter d x .posted l, hinv.see ?_, rfl⟩
    by_cases hid : x.id = d.id
    · obtain ⟨huid, hamount⟩ := hd.row_eq hx hid
      obtain ⟨j, hj⟩ := exists_mem_of_ne_nil _ hfound
      obtain ⟨hj, hhash⟩ := mem_filter.mp hj
      refine Or.inr (Or.inl ⟨if_pos hid, hinv.books.legs j.hash ?_ (mem_map_of_mem hj)⟩)
      rw [contains_iff_mem, depositLegs, map_cons, map_cons, map_nil, hid, hamount] at hhash
      rcases mem_pair.mp hhash with heq | heq
      · rw [heq]
        exact (mem_legHashes hhouse).1
      · rw [heq]
        exact (mem_legHashes huserIn).2
    · exact Or.inl (if_neg hid)
  · refine ⟨l, hinv, wp_bind (wp_depositTransaction hd hx hhouse huser huserIn ?_ ?_ fun _ => ?_)⟩
    · dsimp only
      rw [if_pos rfl]
      refine wp_still_bind (uses_forEach fun e _ => uses_announce fun _ _ _ => trivial) ?_
        fun _ => trivial
      exact fun _ => rfl
    · dsimp only
      rw [if_neg Bool.false_ne_true]
      trivial
    · trivial

/-- A confirmation that returns leaves the deposit no longer pending. -/
def Confirmed (d : PendingDeposit) (id : String) (l : DepositStage) {α : Type} :
    Except String α → DepositStage → Prop
  | .ok _, l' => l' = if id = d.id then .settled else l
  | .error _, _ => True

lemma wp_confirmLocked (hd : Lodged sha256 s₀ d) (id : String) :
    (confirmLocked sha256 config id).wp (depositRules sha256 config s₀ d r) (Confirmed d id l) l := by
  refine wp_findDeposit_bind (fun _ => trivial) fun s ls₁ ls₂ hinv => ?_
  cases hfind : s.pendingDeposits.find? (·.id == id) with
  | none =>
    refine ⟨l, hinv, ?_⟩
    -- the deposit is stored, so it is another one that is missing
    have hne : id ≠ d.id := by
      rintro rfl
      obtain ⟨status, hstatus⟩ := hinv.books.exists_status hd.stored
      rw [Store.statusOf, hfind] at hstatus
      cases hstatus
    exact (if_neg hne).symm
  | some x =>
    have hid : x.id = id := by simpa using find?_some hfind
    have hx : Stored s₀ x := hinv.books.stored (mem_of_find?_eq_some hfind)
    dsimp only
    split_ifs with hpending
    · -- it was settled before
      refine ⟨if id = d.id then .settled else l, hinv.see ?_, rfl⟩
      by_cases hidd : id = d.id
      · refine Or.inr (Or.inr ⟨if_pos hidd, ?_⟩)
        rw [← hidd, Store.statusOf, hfind, Option.map_some]
        exact fun heq => hpending (Option.some.inj heq)
      · exact Or.inl (if_neg hidd)
    · refine ⟨l, hinv, ?_⟩
      refine wp_findAccount_bind (fun _ => trivial) fun user huser huserIn => ?_
      refine wp_findAccount_bind (fun _ => trivial) fun house _ hhouse => ?_
      refine wp_bind (wp_mono (wp_recordDeposit hd hx hhouse (byId_iff.mp huser).1 huserIn) ?_)
      rintro (e | outcome) l' hl'
      · trivial
      obtain rfl : l' = stageAfter d x .posted l := hl'
      refine wp_bind (wp_saveDeposit .settled (by simp) ?_ (Or.inr rfl) ?_ fun _ => trivial)
      · intro s' ls₁' ls₂' hinv' hidd hinorder
        refine ⟨fun _ => hinv'.posted (r, stageAfter d x .posted l) (by simp) (if_pos hidd), ?_⟩
        exact fun h => nomatch h
      · refine wp_still_bind (uses_emit fun _ => trivial) (fun _ => ?_) fun _ => trivial
        refine wp_still_bind (uses_emit fun _ => trivial) (fun _ => ?_) fun _ => trivial
        refine wp_still_bind (uses_emit fun _ => trivial) (fun _ => ?_) fun _ => trivial
        show stageAfter d _ .settled _ = _
        simp only [stageAfter, hid]
        split_ifs <;> rfl

lemma wp_confirmPendingDeposit (hd : Lodged sha256 s₀ d) (id : String) :
    (confirmPendingDeposit sha256 config id).wp (depositRules sha256 config s₀ d r)
      (Confirmed d id l) l := by
  refine wp_still_bind (uses_run trivial) (fun lock => ?_) fun _ => trivial
  split
  · refine wp_ensure (wp_mono (wp_confirmLocked hd id) fun o l' hl' => wp_still ?_ ?_)
    · exact Uses.bind (uses_removeJob fun _ => trivial) fun _ => uses_run trivial
    · rintro (e | _)
      · trivial
      · exact hl'
  · trivial

/-- The deposit is saved as rejected, and what follows leaves it alone. -/
lemma wp_saveRejected (x : PendingDeposit) {next : WalletM Unit}
    (hnext : next.wp (depositRules sha256 config s₀ d r) (fun _ l' => l' = l) l) :
    (do
      run (.saveDeposit { x with status := .rejected })
      emit "notification.create" x.userId
      emit "wallet.deposit.rejected" x.id
      next).wp (depositRules sha256 config s₀ d r) (fun _ l' => l' = l) l := by
  refine wp_bind (wp_saveDeposit l (by simp) ?_ (Or.inl rfl) ?_ fun _ => rfl)
  · exact fun s' _ _ _ hid hinorder =>
      ⟨(fun h => by cases h), fun _ => (if_pos rfl).mp (hinorder hid)⟩
  · rw [stageAfter, ite_self]
    refine wp_still_bind (uses_emit fun _ => trivial) (fun _ => ?_) fun _ => rfl
    exact wp_still_bind (uses_emit fun _ => trivial) (fun _ => hnext) fun _ => rfl

lemma wp_rejectLocked (id : String) :
    (rejectLocked id).wp (depositRules sha256 config s₀ d r) (fun _ l' => l' = l) l := by
  refine wp_findDeposit_bind (fun _ => rfl) fun s ls₁ ls₂ hinv => ⟨l, hinv, ?_⟩
  cases s.pendingDeposits.find? (·.id == id) with
  | none => rfl
  | some x =>
    dsimp only
    split_ifs
    · rfl
    · exact wp_saveRejected x (wp_still (uses_emit fun _ => trivial) fun _ => rfl)

lemma wp_rejectPendingDeposit (id : String) :
    (rejectPendingDeposit id).wp (depositRules sha256 config s₀ d r) (fun _ l' => l' = l) l := by
  refine wp_still_bind (uses_run trivial) (fun lock => ?_) fun _ => rfl
  split
  · refine wp_ensure (wp_mono (wp_rejectLocked id) fun o l' hl' => wp_still (uses_run trivial) ?_)
    rintro (e | _)
    · exact hl'
    · exact hl'
  · rfl

lemma wp_cancelPendingDeposit (userId depositId : String) :
    (cancelPendingDeposit userId depositId).wp (depositRules sha256 config s₀ d r)
      (fun _ l' => l' = l) l := by
  refine wp_findDeposit_bind (fun _ => rfl) fun s ls₁ ls₂ hinv => ⟨l, hinv, ?_⟩
  cases s.pendingDeposits.find? fun d => d.id == depositId && d.userId == userId with
  | none => rfl
  | some x =>
    dsimp only
    split_ifs
    · rfl
    · exact wp_saveRejected x (wp_still (uses_removeJob fun _ => trivial) fun _ => rfl)

lemma wp_rejectExpiredPendingDeposits (now : ℕ) :
    (rejectExpiredPendingDeposits now).wp (depositRules sha256 config s₀ d r)
      (fun _ l' => l' = l) l := by
  refine wp_still_bind (uses_run trivial) (fun expired => ?_) fun _ => rfl
  refine wp_forEach (I := fun l' => l' = l) rfl (fun _ h => h) fun dep _ l' hl' => ?_
  subst hl'
  refine wp_mono (wp_rejectPendingDeposit dep.id) ?_
  rintro (e | _) l hl
  · exact hl
  · exact hl

/-- The loop of `reconcile` confirms one deposit after the other. -/
lemma wp_reconcileBank (hd : Lodged sha256 s₀ d) (entries : List BankEntry) (hl : l ≠ .posted) :
    (reconcileBank sha256 config entries).wp (depositRules sha256 config s₀ d r) (fun
      | .ok _, l' => l' ≠ .posted
      | .error _, _ => True) l := by
  refine wp_bind (wp_forEach (I := fun l' => l' ≠ .posted) hl ?_ fun entry _ l hl => ?_)
  · exact fun l' hl' => wp_still (uses_run trivial) (by rintro (e | _) <;> trivial)
  · refine wp_still_bind (uses_run trivial) (fun found => ?_) fun _ => trivial
    cases found with
    | none => exact hl
    | some deposit =>
      refine wp_bind (wp_mono (wp_confirmPendingDeposit hd deposit.id) ?_)
      rintro (e | _) l' hl'
      · trivial
      · obtain rfl : l' = if deposit.id = d.id then .settled else l := hl'
        show (if deposit.id = d.id then DepositStage.settled else l) ≠ .posted
        split_ifs
        · simp
        · exact hl

/-- An operation that returns has saved the status of what it has posted; a confirmation of the
deposit leaves it no longer pending. -/
def Returned (d : PendingDeposit) (op : DepositOp) : Except String Unit → DepositStage → Prop
  | .ok _, l => l ≠ .posted ∧ (op = .confirmPendingDeposit d.id → l = .settled)
  | .error _, _ => True

lemma wp_depositOp (hd : Lodged sha256 s₀ d) (op : DepositOp) :
    (op.body sha256 config).wp (depositRules sha256 config s₀ d op) (Returned d op) .idle := by
  cases op with
  | confirmPendingDeposit id =>
    refine wp_bind (wp_mono (wp_confirmPendingDeposit hd id) ?_)
    rintro (e | _) l hl
    · trivial
    · obtain rfl : l = if id = d.id then .settled else .idle := hl
      refine ⟨?_, ?_⟩
      · show (if id = d.id then DepositStage.settled else .idle) ≠ .posted
        split_ifs <;> simp
      · intro heq
        exact if_pos (DepositOp.confirmPendingDeposit.inj heq)
  | rejectPendingDeposit id =>
    refine wp_mono (wp_rejectPendingDeposit id) ?_
    rintro (e | _) l rfl
    · trivial
    · exact ⟨by simp, fun h => nomatch h⟩
  | cancelPendingDeposit userId depositId =>
    refine wp_mono (wp_cancelPendingDeposit userId depositId) ?_
    rintro (e | _) l rfl
    · trivial
    · exact ⟨by simp, fun h => nomatch h⟩
  | rejectExpiredPendingDeposits now =>
    refine wp_mono (wp_rejectExpiredPendingDeposits now) ?_
    rintro (e | _) l rfl
    · trivial
    · exact ⟨by simp, fun h => nomatch h⟩
  | reconcile entries =>
    refine wp_mono (wp_reconcileBank hd entries (by simp)) ?_
    rintro (e | _) l hl
    · trivial
    · exact ⟨hl, fun h => nomatch h⟩

end Programs

/-! ### What never changes again -/

/-- A command that decides a deposit, if it saves one. -/
def Cmd.Decides : Cmd → Prop
  | .saveDeposit deposit => deposit.status ≠ .pending
  | .insertDeposit _ => False
  | _ => True

section Final

variable {sha256 : String → String} {config : Config} {s₀ : Store} {d : PendingDeposit}

lemma uses_confirmPendingDeposit (id : String) :
    (confirmPendingDeposit sha256 config id).Uses Cmd.Decides := by
  refine Uses.bind (uses_run trivial) fun lock => ?_
  split
  · refine Uses.ensure (Uses.bind (uses_run trivial) fun found => ?_)
      (Uses.bind (uses_removeJob fun _ => trivial) fun _ => uses_run trivial)
    cases found with
    | none => trivial
    | some deposit =>
      dsimp only
      split
      · trivial
      · refine Uses.bind (uses_findOneByOrFail trivial) fun user => ?_
        refine Uses.bind (uses_findOneByOrFail trivial) fun house => ?_
        refine Uses.bind (uses_record (fun _ => trivial) (fun _ => trivial) fun _ _ _ => trivial)
          fun outcome => ?_
        refine Uses.bind (uses_run (by simp [Cmd.Decides])) fun _ => ?_
        refine Uses.bind (uses_emit fun _ => trivial) fun _ => ?_
        refine Uses.bind (uses_emit fun _ => trivial) fun _ => ?_
        exact Uses.bind (uses_emit fun _ => trivial) fun _ => trivial
  · trivial

lemma uses_rejectPendingDeposit (id : String) : (rejectPendingDeposit id).Uses Cmd.Decides := by
  refine Uses.bind (uses_run trivial) fun lock => ?_
  split
  · refine Uses.ensure (Uses.bind (uses_run trivial) fun found => ?_) (uses_run trivial)
    cases found with
    | none => trivial
    | some deposit =>
      dsimp only
      split
      · trivial
      · refine Uses.bind (uses_run (by simp [Cmd.Decides])) fun _ => ?_
        refine Uses.bind (uses_emit fun _ => trivial) fun _ => ?_
        exact Uses.bind (uses_emit fun _ => trivial) fun _ => uses_emit fun _ => trivial
  · trivial

lemma uses_depositOp (op : DepositOp) : (op.body sha256 config).Uses Cmd.Decides := by
  cases op with
  | confirmPendingDeposit id => exact (uses_confirmPendingDeposit id).bind fun _ => trivial
  | rejectPendingDeposit id => exact uses_rejectPendingDeposit id
  | cancelPendingDeposit userId depositId =>
    refine Uses.bind (uses_run trivial) fun found => ?_
    cases found with
    | none => trivial
    | some deposit =>
      dsimp only
      split
      · trivial
      · refine Uses.bind (uses_run (by simp [Cmd.Decides])) fun _ => ?_
        refine Uses.bind (uses_emit fun _ => trivial) fun _ => ?_
        exact Uses.bind (uses_emit fun _ => trivial) fun _ => uses_removeJob fun _ => trivial
  | rejectExpiredPendingDeposits now =>
    exact Uses.bind (uses_run trivial) fun expired =>
      uses_forEach fun dep _ => uses_rejectPendingDeposit dep.id
  | reconcile entries =>
    refine Uses.bind (uses_forEach fun entry _ => ?_) fun _ => uses_run trivial
    refine Uses.bind (uses_run trivial) fun found => ?_
    cases found with
    | none => trivial
    | some deposit => exact (uses_confirmPendingDeposit deposit.id).bind fun _ => trivial

/-- The invariant in the runs that are in order, with what the operations know at their ends. -/
lemma exists_settling (hd : Lodged sha256 s₀ d) {P : Pool Cmd.Answer String Unit Store DepositOp}
    (h : ((depositService sha256 config s₀).within (InOrder d)).Reachable P) :
    ∃ ls, Forall₂ (fun t rl => t.1 = rl.1 ∧ t.2.wp (depositRules sha256 config s₀ d rl.1)
      (Returned d rl.1) rl.2) P.threads ls ∧ Settling sha256 s₀ d P.state ls := by
  have hinit : ∀ s, (depositService sha256 config s₀).init s → Settling sha256 s₀ d s [] := by
    rintro s rfl
    have hstatus : s.statusOf d.id = some .pending := by
      cases hfind : s.pendingDeposits.find? (·.id == d.id) with
      | none =>
        rw [find?_eq_none] at hfind
        exact absurd (beq_self_eq_true d.id) (hfind d hd.stored)
      | some x =>
        have hid : x.id = d.id := by simpa using find?_some hfind
        obtain rfl : x = d := inj_on_of_nodup_map hd.ids (mem_of_find?_eq_some hfind) hd.stored hid
        rw [Store.statusOf, hfind, Option.map_some, hd.pending]
    refine ⟨⟨rfl, rfl, ?_, ?_, ?_, ?_, ?_⟩, ?_, ?_, ?_⟩
    · rw [hd.uncredited]
      exact Nat.zero_le 1
    · exact fun j hj hjd => absurd hjd (countP_eq_zero.mp hd.uncredited j hj)
    · exact fun hash hleg hin => absurd hin (hd.fresh hash hleg)
    · rw [hstatus]
      exact fun h => nomatch h
    · exact fun _ => hd.uncredited
    · exact fun rl hrl => absurd hrl not_mem_nil
    · exact fun rl hrl => absurd hrl not_mem_nil
    · intro _ hcredit
      rw [hd.uncredited] at hcredit
      cases hcredit
  have hstart : ∀ s ls (op : DepositOp), Settling sha256 s₀ d s ls →
      Settling sha256 s₀ d s (ls ++ [(op, .idle)]) := by
    intro s ls op hs
    have hold : ∀ (rl : DepositOp × DepositStage) stage, rl ∈ ls ++ [(op, .idle)] → rl.2 = stage →
        stage ≠ .idle → rl ∈ ls := by
      rintro rl stage hrl rfl hne
      rcases mem_append.mp hrl with hrl | hrl
      · exact hrl
      · rw [mem_singleton.mp hrl] at hne
        exact absurd rfl hne
    refine ⟨hs.books, ?_, ?_, ?_⟩
    · exact fun rl hrl hposted => hs.posted rl (hold rl _ hrl hposted (by simp)) hposted
    · exact fun rl hrl hsettled => hs.settled rl (hold rl _ hrl hsettled (by simp)) hsettled
    · intro hpending hcredit
      obtain ⟨rl, hrl, hposted⟩ := hs.waiting hpending hcredit
      exact ⟨rl, mem_append_left _ hrl, hposted⟩
  have henv : ∀ s s' ls, Settling sha256 s₀ d s ls → (depositService sha256 config s₀).env s s' →
      InOrder d s .env → Settling sha256 s₀ d s' ls := by
    rintro s _ ls hs ⟨id, rfl⟩ -
    exact hs.still rfl rfl rfl
  exact Service.invariant (I := Settling sha256 s₀ d) (Q := Returned d) hinit
    (fun s ls op hs _ _ => ⟨.idle, hstart s ls op hs, wp_depositOp hd op⟩) henv h

/-- A step in order leaves a decided status as it is. -/
lemma statusOf_step (hd : Lodged sha256 s₀ d) {P P' : Pool Cmd.Answer String Unit Store DepositOp}
    {a : Service.Action DepositOp Cmd} (hP : DepositBooks sha256 s₀ d P.state)
    (huses : ∀ t ∈ P.threads, t.2.Uses Cmd.Decides) (hok : InOrder d P.state a)
    (hstep : (depositService sha256 config s₀).Step P a P')
    (hdecided : P.state.statusOf d.id ≠ some .pending) :
    P'.state.statusOf d.id = P.state.statusOf d.id := by
  rcases hstep.state_cases with heq | ⟨r, c, next, rfl, hmem, heq⟩ | ⟨rfl, id, heq⟩
  · rw [heq]
  · have hc : c.Decides := (huses _ hmem).1
    rw [heq]
    show (c.exec P.state).2.statusOf d.id = _
    cases c with
    | transaction refType refId providerTxnId rows =>
      rcases Cmd.exec_transaction refType refId providerTxnId rows P.state with hexec | hexec
      · rw [hexec, Store.foldl_insert_eq]
        rfl
      · rw [hexec]
    | insertDeposit => exact hc.elim
    | saveDeposit x =>
      show (P.state.saveDeposit x).statusOf d.id = _
      rw [Store.statusOf_saveDeposit]
      split_ifs with hid
      · obtain ⟨status, hstatus⟩ := hP.exists_status hd.stored
        have horder := hok hid
        rw [hstatus, Option.map_some]
        rw [hstatus] at hdecided horder
        -- the status that is saved is the one that is stored
        cases hx : x.status with
        | pending => exact absurd hx hc
        | confirmed =>
          rw [if_neg (by simp [hx])] at horder
          cases status with
          | pending => exact absurd rfl hdecided
          | confirmed => rfl
          | rejected => exact absurd rfl horder
        | rejected =>
          rw [if_pos hx] at horder
          cases status with
          | pending => exact absurd rfl hdecided
          | confirmed =>
            rw [hP.confirmed hstatus] at horder
            cases horder
          | rejected => rfl
      · rfl
    | _ => rw [Store.statusOf, (Cmd.Still.exec (by trivial) P.state).2.2, Store.statusOf]
  · rw [heq]
    rfl

end Final

/-- In every run that is in order: the deposit is credited at most once; when all operations have
ended it was credited exactly if it is confirmed, or else waits for a failed confirmation to be
repeated; and a status that is not `pending` stays. -/
theorem deposit_lifecycle {sha256 : String → String} (config : Config) {s₀ : Store}
    {d : PendingDeposit} (hd : Lodged sha256 s₀ d)
    {P : Pool Cmd.Answer String Unit Store DepositOp}
    (h : ((depositService sha256 config s₀).within (InOrder d)).Reachable P) :
    P.state.credits d ≤ 1 ∧
      ((∀ t ∈ P.threads, t.2.Done) →
        (P.state.credits d = 1 ↔ P.state.statusOf d.id = some .confirmed) ∨ AwaitsRetry d P) ∧
      ∀ P', Relation.ReflTransGen ((depositService sha256 config s₀).within (InOrder d)).Moves P P' →
        P.state.statusOf d.id ≠ some .pending → P'.state.statusOf d.id = P.state.statusOf d.id := by
  obtain ⟨ls, hthreads, hinv⟩ := exists_settling hd h
  refine ⟨hinv.books.once, fun hdone => ?_, fun P' hmoves hdecided => ?_⟩
  · obtain ⟨status, hstatus⟩ := hinv.books.exists_status hd.stored
    rcases Nat.le_one_iff_eq_zero_or_eq_one.mp hinv.books.once with hcredit | hcredit
    · left
      rw [hcredit]
      refine ⟨(fun h => nomatch h), fun hconfirmed => ?_⟩
      rw [← hcredit, hinv.books.confirmed hconfirmed]
    cases status with
    | confirmed => exact Or.inl ⟨fun _ => hstatus, fun _ => hcredit⟩
    | rejected =>
      rw [hinv.books.rejected hstatus] at hcredit
      cases hcredit
    | pending =>
      right
      have hfailed : ∀ t ∈ P.threads, ∀ l, t.2.wp (depositRules sha256 config s₀ d t.1)
          (Returned d t.1) l → (l = .posted ∨ t.1 = .confirmPendingDeposit d.id ∧ l ≠ .settled) →
          Failed t := by
        intro t ht l hwp hl
        obtain ⟨outcome, hout⟩ := Option.isSome_iff_exists.mp (hdone t ht)
        cases outcome with
        | error e => exact ⟨e, hout⟩
        | ok u =>
          obtain ⟨hposted, hsettled⟩ := wp_outcome hwp hout
          rcases hl with hl | ⟨hop, hl⟩
          · exact absurd hl hposted
          · exact absurd (hsettled hop) hl
      refine ⟨hstatus, ?_, fun t ht hop => ?_⟩
      · obtain ⟨rl, hrl, hposted⟩ := hinv.waiting hstatus hcredit
        obtain ⟨t, ht, hop, hwp⟩ := Service.exists_thread hthreads hrl
        rw [← hop] at hwp
        exact ⟨t, ht, hfailed t ht rl.2 hwp (Or.inl hposted)⟩
      · obtain ⟨l, hl, hwp⟩ := Service.exists_record hthreads ht
        exact hfailed t ht l hwp (Or.inr ⟨hop, fun h => hinv.settled _ hl h hstatus⟩)
  · have hboth := TransitionSystem.invariant_of_moves
      (I := fun P' => ((depositService sha256 config s₀).within (InOrder d)).Reachable P' ∧
        P'.state.statusOf d.id = P.state.statusOf d.id) ?_ hmoves ⟨h, rfl⟩
    · exact hboth.2
    · rintro P₁ a P₂ ⟨hreach, hsame⟩ ⟨hok, hstep⟩
      obtain ⟨ls₁, -, hinv₁⟩ := exists_settling hd hreach
      have huses := Service.uses_of_reachable (S := depositService sha256 config s₀)
        uses_depositOp hreach.of_restrict
      have hdecided₁ : P₁.state.statusOf d.id ≠ some .pending := by
        rw [hsame]
        exact hdecided
      refine ⟨hreach.tail ⟨hok, hstep⟩, ?_⟩
      exact (statusOf_step hd hinv₁.books huses hok hstep hdecided₁).trans hsame

/-! A deposit that is confirmed while its user cancels it. -/

def oneDeposit : PendingDeposit :=
  ⟨"d1", "u1", 100, "USD", "DEP00001", .pending, 0⟩

def oneDepositStore : Store where
  accounts := [⟨"u1", "alice", "USD", 0, true⟩, ⟨"h1", "house", "USD", 1000, true⟩]
  pendingDeposits := [oneDeposit]

/-- SHA-256 on the legs of the deposit. -/
def oneDepositHash : String → String :=
  hashTable [
    ("deposit:d1:u1:-100", "f6691537fee8c9190d4314e77c24ea9d00629761db4f3c07864297fe69d1beaa"),
    ("deposit:d1:u1:100", "687c6e65559327e413f2fcfb0faa1701a00741c7440584fbb1f6d32ac4800877"),
    ("deposit:d1:h1:-100", "d8e70b0f311fc087beff37be9764a953d21503e08cab13c6b29296bfae5d2231"),
    ("deposit:d1:h1:100", "cd42edb5627f7df81b5a8599b2eac629e8b8bce91b6680f81f86ecdafbfddc9f")]

lemma lodged_oneDeposit : Lodged oneDepositHash oneDepositStore oneDeposit := by
  refine ⟨by decide, rfl, by decide, rfl, ?_, ?_⟩
  · exact fun _ _ h => nomatch h
  · intro d' hd' hne
    rw [mem_singleton.mp hd'] at hne
    exact absurd rfl hne

/-- The user has read the deposit when it is confirmed. -/
def cancelledLate : Pool Cmd.Answer String Unit Store DepositOp :=
  (depositService oneDepositHash {} oneDepositStore).playAll ⟨oneDepositStore, []⟩
    ([.start (.cancelPendingDeposit "u1" "d1"), .start (.confirmPendingDeposit "d1"), .call 0] ++
      List.replicate 15 (.call 1) ++ List.replicate 4 (.call 0))

/-- The deposit is credited and rejected. -/
theorem cancelled_deposit_credited :
    ¬ ∀ (sha256 : String → String) (config : Config) (s₀ : Store) (d : PendingDeposit),
      Lodged sha256 s₀ d → ∀ P : Pool Cmd.Answer String Unit Store DepositOp,
      (depositService sha256 config s₀).system.Reachable P →
      P.state.credits d ≤ 1 ∧
        ((∀ t ∈ P.threads, t.2.Done) →
          (P.state.credits d = 1 ↔ P.state.statusOf d.id = some .confirmed) ∨ AwaitsRetry d P) ∧
        ∀ P', Relation.ReflTransGen (depositService sha256 config s₀).system.Moves P P' →
          P.state.statusOf d.id ≠ some .pending →
          P'.state.statusOf d.id = P.state.statusOf d.id := by
  intro h
  have hreach : ((depositService oneDepositHash {} oneDepositStore).within fun _ _ =>
      True).Reachable cancelledLate := Service.reachable_playAll_of_closed rfl (by decide +kernel)
  have hdone : ∀ t ∈ cancelledLate.threads, t.2.outcome.isSome = true := by decide +kernel
  have hstatus : cancelledLate.state.statusOf "d1" = some .rejected := by decide +kernel
  have hcredit : cancelledLate.state.credits oneDeposit = 1 := by decide +kernel
  rcases (h _ _ _ _ lodged_oneDeposit _ hreach.of_restrict).2.1 hdone with hiff | ⟨hpending, -⟩
  · have hconfirmed := hiff.mp hcredit
    rw [show oneDeposit.id = "d1" from rfl, hstatus] at hconfirmed
    cases hconfirmed
  · rw [show oneDeposit.id = "d1" from rfl, hstatus] at hpending
    cases hpending

/-- The status is not saved after the posting, and the confirmation is repeated. -/
def confirmedAgain : Pool Cmd.Answer String Unit Store DepositOp :=
  (depositService oneDepositHash {} oneDepositStore).playAll ⟨oneDepositStore, []⟩
    (.start (.confirmPendingDeposit "d1") :: List.replicate 9 (.call 0) ++ [.fault 0, .call 0, .call 0,
      .start (.confirmPendingDeposit "d1")] ++ List.replicate 11 (.call 1))

theorem deposit_lifecycle_confirmedAgain :
    confirmedAgain.state.statusOf "d1" = some .confirmed ∧
      confirmedAgain.state.credits oneDeposit = 1 := by
  have hreach : ((depositService oneDepositHash {} oneDepositStore).within
      (InOrder oneDeposit)).Reachable confirmedAgain :=
    Service.reachable_playAll_of_closed rfl (by decide +kernel)
  have hdone : ∀ t ∈ confirmedAgain.threads, t.2.outcome.isSome = true := by decide +kernel
  have hstatus : confirmedAgain.state.statusOf "d1" = some .confirmed := by decide +kernel
  refine ⟨hstatus, ?_⟩
  rcases (deposit_lifecycle {} lodged_oneDeposit hreach).2.1 hdone with hiff | ⟨hpending, -⟩
  · exact hiff.mpr hstatus
  · rw [show oneDeposit.id = "d1" from rfl, hstatus] at hpending
    cases hpending

end Pokerhub.Wallet
