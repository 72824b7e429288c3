import Pokerhub.Wallet.Store

/-!
# The operations of the wallet

`record` of `wallet.service.ts` and the operations that post through it. SHA-256 is a parameter,
and so are the results of `randomUUID`.
-/

namespace Pokerhub.Wallet

structure Config where
  systemAccounts : List String := ["reserve", "house", "rake", "prize"]
  /-- Whether the queues have a Redis connection. -/
  queueConnected : Bool := false

/-- A program of the wallet. A thrown error is its message. -/
abbrev WalletM := Program Cmd.Answer String

/-- One command. -/
def run (c : Cmd) : WalletM c.Answer :=
  Program.command "statement failed" c

/-- The ways in which an operation returns. -/
inductive Outcome where
  | posted | suppressed | skipped
  deriving DecidableEq, Repr

/-! ### Posting -/

def hashInput (refType refId accountId : String) (amount : ℤ) : String :=
  s!"{refType}:{refId}:{accountId}:{amount}"

def emit (topic id : String) : WalletM Unit :=
  run (.emit ⟨topic, id⟩)

/-- `if (cond) { await p }` -/
def onlyIf (cond : Bool) (p : WalletM Unit) : WalletM Unit :=
  if cond then p else pure ()

lemma wp_onlyIf {σ Γ L : Type} {P : Protocol Cmd.Answer σ Γ L} {cond : Bool} {p : WalletM Unit}
    {Q : Except String Unit → L → Prop} {l : L} (hp : cond = true → p.wp P Q l)
    (hskip : cond = false → Q (.ok ()) l) : (onlyIf cond p).wp P Q l := by
  cases cond with
  | true => exact hp rfl
  | false => exact hskip rfl

def findOneByOrFail (q : Account → Bool) : WalletM Account := do
  match ← run (.findAccount q) with
  | some account => return account
  | none => throw "EntityNotFoundError"

/-- `{ id, currency }` and `{ name, currency }`. -/
def byId (id currency : String) (a : Account) : Bool :=
  a.id == id && a.currency == currency

def byName (name currency : String) (a : Account) : Bool :=
  a.name == name && a.currency == currency

@[simp] lemma byId_iff {id currency : String} {a : Account} :
    byId id currency a = true ↔ a.id = id ∧ a.currency = currency := by
  simp [byId]

@[simp] lemma byName_iff {name currency : String} {a : Account} :
    byName name currency a = true ↔ a.name = name ∧ a.currency = currency := by
  simp [byName]

section Operations

variable (sha256 : String → String) (config : Config)

def buildHash (refType refId accountId : String) (amount : ℤ) : String :=
  sha256 (hashInput refType refId accountId amount)

/-- The emissions of `record` for one entry. -/
def announce (entry : Movement) : WalletM Unit := do
  emit (if entry.amount > 0 then "wallet.credit" else "wallet.debit") entry.account.id
  onlyIf (!config.systemAccounts.contains entry.account.name)
    (emit "notification.create" entry.account.id)

/-- `record`; the outcome tells its two returns apart. -/
def record (refType refId : String) (entries : List Movement)
    (providerTxnId : Option String := none) : WalletM Outcome := do
  if (entries.map (·.amount)).sum ≠ 0 then throw "Journal entries must sum to 0"
  else do
    let rows := entries.map fun e => (e, buildHash sha256 refType refId e.account.id e.amount)
    let existing ← run (.findJournals (rows.map (·.2)))
    if existing ≠ [] then return .suppressed
    else do
      let inserted ← run (.transaction refType refId providerTxnId rows)
      if inserted then do
        Program.forEach (announce config) entries
        return .posted
      else throw "duplicate key value violates unique constraint"

/-! ### Operations -/

def reserve (accountId : String) (amount : ℤ) (refId currency : String)
    (idempotencyKey : Option String := none) : WalletM Outcome := do
  let user ← findOneByOrFail (byId accountId currency)
  let reserve ← findOneByOrFail (byName "reserve" currency)
  onlyIf idempotencyKey.isSome (run (.side "settlements.insert"))
  record sha256 config "reserve" refId [⟨user, -amount⟩, ⟨reserve, amount⟩]

def commit (refId : String) (amount rakeAmount : ℤ) (currency : String)
    (idempotencyKey : Option String := none) : WalletM Outcome := do
  let reserve ← findOneByOrFail (byName "reserve" currency)
  let prize ← findOneByOrFail (byName "prize" currency)
  let rakeAcc ← findOneByOrFail (byName "rake" currency)
  let outcome ← record sha256 config "commit" refId
    [⟨reserve, -amount⟩, ⟨prize, amount - rakeAmount⟩, ⟨rakeAcc, rakeAmount⟩]
  run (.side "metrics.addRevenue")
  onlyIf idempotencyKey.isSome (run (.side "settlements.update"))
  return outcome

def rollback (accountId : String) (amount : ℤ) (refId currency : String)
    (idempotencyKey : Option String := none) : WalletM Outcome := do
  let reserve ← findOneByOrFail (byName "reserve" currency)
  let user ← findOneByOrFail (byId accountId currency)
  let outcome ← record sha256 config "rollback" refId [⟨reserve, -amount⟩, ⟨user, amount⟩]
  onlyIf idempotencyKey.isSome (run (.side "settlementSvc.cancel"))
  return outcome

def requestDisbursement (id currency : String) : WalletM Unit := do
  match ← run (.findDisbursement (·.id == id)) with
  | none => throw "EntityNotFoundError"
  | some disb => do
    let account ← findOneByOrFail (byId disb.accountId currency)
    let verified ← run (.kyc account.id)
    if verified then emit "wallet.disbursement.request" disb.id
    else throw "KYC required"

def enqueueDisbursement (id currency : String) : WalletM Unit :=
  if config.queueConnected then run (.addPayout id currency)
  else requestDisbursement id currency

def refundDisbursement (disb : Disbursement) : WalletM Outcome := do
  let account ← findOneByOrFail fun a => a.id == disb.accountId
  let house ← findOneByOrFail (byName "house" account.currency)
  record sha256 config "withdraw_reject" disb.id [⟨house, -disb.amount⟩, ⟨account, disb.amount⟩]

def retryPendingPayouts : WalletM Unit := do
  let pending ← run (.findDisbursements (·.status == .pending))
  Program.forEach (fun disb : Disbursement => do
    let account ← findOneByOrFail fun a => a.id == disb.accountId
    enqueueDisbursement config disb.id account.currency) pending

def isDuplicateWebhook (eventId : String) : WalletM Bool := do
  let stored ← run (.setNx (.webhook eventId) ())
  return !stored

/-- `ref`, `disbId` and `idempotencyKey` are fresh. -/
def confirm3DS (event : ProviderCallback) (ref disbId idempotencyKey : String) : WalletM Unit := do
  if ← isDuplicateWebhook event.eventId then return ()
  else do
    match ← run (.get (.challenge event.providerTxnId)) with
    | none => return ()
    | some (stored : Challenge) => do
      run (.del (.challenge event.providerTxnId))
      let user ← findOneByOrFail (byId stored.accountId stored.currency)
      let house ← findOneByOrFail (byName "house" stored.currency)
      match stored.op, event.status with
      | .deposit, .approved => do
        let _ ← record sha256 config "deposit" ref
          [⟨house, -stored.amount⟩, ⟨user, stored.amount⟩] (some event.providerTxnId)
        return ()
      | .deposit, .chargeback =>
        onlyIf stored.deviceId.isSome (run (.side "chargebacks.record"))
      | .withdraw, .approved => do
        let _ ← record sha256 config "withdraw" ref
          [⟨user, -stored.amount⟩, ⟨house, stored.amount⟩] (some event.providerTxnId)
        run (.saveDisbursement
          ⟨disbId, stored.accountId, stored.amount, idempotencyKey, .pending⟩)
        enqueueDisbursement config disbId stored.currency
      | _, _ => return ()

def processDisbursement (eventId idempotencyKey providerTxnId : String)
    (status : ProviderStatus) : WalletM Unit := do
  if ← isDuplicateWebhook eventId then return ()
  else do
    match ← run (.findDisbursement (·.idempotencyKey == idempotencyKey)) with
    | none => return ()
    | some disb =>
      if disb.status = .completed then return ()
      else do
        let user ← findOneByOrFail fun a => a.id == disb.accountId
        let house ← findOneByOrFail (byName "house" user.currency)
        let _ ← record sha256 config "payout" disb.id [⟨house, 0⟩] (some providerTxnId)
        if status = .approved then run (.saveDisbursement { disb with status := .completed })
        else enqueueDisbursement config disb.id user.currency

/-- `add`, `remove` or `freeze`; `refId` is fresh. -/
inductive Adjustment where
  | add | remove | freeze
  deriving DecidableEq, Repr

def adminAdjustBalance (userId : String) (action : Adjustment) (amount : ℤ) (currency : String)
    (refId : String) : WalletM Outcome := do
  let user ← findOneByOrFail (byId userId currency)
  let house ← findOneByOrFail (byName "house" currency)
  match action with
  | .add => record sha256 config "admin_add" refId [⟨house, -amount⟩, ⟨user, amount⟩]
  | .remove => record sha256 config "admin_remove" refId [⟨user, -amount⟩, ⟨house, amount⟩]
  | .freeze => reserve sha256 config userId amount refId currency

/-! ### Pending deposits -/

/-- `try { .. } catch {}` around the jobs of the deposit queue. -/
def removeJob : WalletM Unit :=
  (run (.side "pendingQueue.getJob")).handle fun _ => pure ()

/-- `confirmPendingDeposit` between taking the lock and giving it back. -/
def confirmLocked (id : String) : WalletM Outcome := do
  match ← run (.findDeposit (·.id == id)) with
  | none => return .skipped
  | some deposit =>
    if deposit.status ≠ .pending then return .skipped
    else do
      let user ← findOneByOrFail (byId deposit.userId deposit.currency)
      let house ← findOneByOrFail (byName "house" deposit.currency)
      let outcome ← record sha256 config "deposit" deposit.id
        [⟨house, -deposit.amount⟩, ⟨user, deposit.amount⟩]
      run (.saveDeposit { deposit with status := .confirmed })
      emit "notification.create" deposit.userId
      emit "wallet.deposit.confirmed" deposit.id
      emit "admin.deposit.confirmed" deposit.id
      return outcome

def confirmPendingDeposit (id : String) : WalletM Outcome := do
  let lock ← run (.setNx (.pendingLock id) ())
  if lock then
    (confirmLocked sha256 config id).ensure do
      removeJob
      run (.del (.pendingLock id))
  else throw "Deposit locked"

/-- `rejectPendingDeposit` between taking the lock and giving it back. -/
def rejectLocked (id : String) : WalletM Unit := do
  match ← run (.findDeposit (·.id == id)) with
  | none => return ()
  | some deposit =>
    if deposit.status ≠ .pending then return ()
    else do
      run (.saveDeposit { deposit with status := .rejected })
      emit "notification.create" deposit.userId
      emit "wallet.deposit.rejected" deposit.id
      emit "admin.deposit.rejected" deposit.id

def rejectPendingDeposit (id : String) : WalletM Unit := do
  let lock ← run (.setNx (.pendingLock id) ())
  if lock then (rejectLocked id).ensure (run (.del (.pendingLock id)))
  else throw "Deposit locked"

def cancelPendingDeposit (userId depositId : String) : WalletM Unit := do
  match ← run (.findDeposit fun d => d.id == depositId && d.userId == userId) with
  | none => return ()
  | some deposit =>
    if deposit.status ≠ .pending then return ()
    else do
      run (.saveDeposit { deposit with status := .rejected })
      emit "notification.create" deposit.userId
      emit "wallet.deposit.rejected" deposit.id
      removeJob

def rejectExpiredPendingDeposits (now : ℕ) : WalletM Unit := do
  let expired ← run (.findDeposits fun d => d.status == .pending && d.expiresAt < now)
  Program.forEach (fun dep : PendingDeposit => rejectPendingDeposit dep.id) expired

structure BankEntry where
  reference : String
  amount : ℤ
  deriving DecidableEq, Repr

/-- One turn of the loop of `BankReconciliationService.reconcile`. -/
def reconcileEntry (entry : BankEntry) : WalletM Unit := do
  match ← run (.findDeposit fun d =>
      d.reference == entry.reference && d.amount == entry.amount && d.status == .pending) with
  | some deposit => do
    let _ ← confirmPendingDeposit sha256 config deposit.id
    return ()
  | none => return ()

/-- `BankReconciliationService.reconcile`. A mismatch is the total of the entries that match no
pending deposit; it is only reported. -/
def reconcileBank (entries : List BankEntry) : WalletM Unit := do
  Program.forEach (reconcileEntry sha256 config) entries
  run (.side "wallet.reconcile.mismatch")

/-! ### Withdrawals -/

def confirmPendingWithdrawal (id : String) : WalletM Unit := do
  match ← run (.findDisbursement fun d => d.id == id && d.status == .pending) with
  | none => return ()
  | some disb => do
    let account ← findOneByOrFail fun a => a.id == disb.accountId
    requestDisbursement disb.id account.currency

def rejectPendingWithdrawal (id : String) : WalletM Unit := do
  match ← run (.findDisbursement fun d => d.id == id && d.status == .pending) with
  | none => return ()
  | some disb => do
    let _ ← refundDisbursement sha256 config disb
    run (.deleteDisbursement disb.id)

/-- `WithdrawalsService.approve`. -/
def approve (userId : String) : WalletM Unit := do
  run (.side "decisions.save")
  match ← run (.findLastDisbursement fun d => d.accountId == userId && d.status == .pending) with
  | none => return ()
  | some disb => do
    let account ← findOneByOrFail fun a => a.id == userId
    requestDisbursement disb.id account.currency

/-- `WithdrawalsService.reject`. -/
def reject (userId : String) : WalletM Unit := do
  run (.side "decisions.save")
  match ← run (.findLastDisbursement fun d => d.accountId == userId && d.status == .pending) with
  | none => return ()
  | some disb => do
    let _ ← refundDisbursement sha256 config disb
    run (.deleteDisbursement disb.id)

end Operations

/-! ### The commands that they use -/

section Uses

open Program

lemma uses_run {P : Cmd → Prop} {c : Cmd} (h : P c) : (run c).Uses P :=
  (uses_command _ _).mpr h

lemma uses_findOneByOrFail {P : Cmd → Prop} {q : Account → Bool} (h : P (.findAccount q)) :
    (findOneByOrFail q).Uses P := by
  refine Uses.bind ((uses_command _ _).mpr h) fun a => ?_
  cases a <;> trivial

lemma uses_emit {P : Cmd → Prop} {topic id : String} (h : ∀ event, P (.emit event)) :
    (emit topic id).Uses P :=
  (uses_command _ _).mpr (h _)

lemma uses_onlyIf {P : Cmd → Prop} {cond : Bool} {p : WalletM Unit} (h : p.Uses P) :
    (onlyIf cond p).Uses P := by
  cases cond
  · trivial
  · exact h

lemma uses_announce {P : Cmd → Prop} {config : Config} {entry : Movement}
    (h : ∀ topic ∈ ["wallet.credit", "wallet.debit", "notification.create"], ∀ id,
      P (.emit ⟨topic, id⟩)) : (announce config entry).Uses P := by
  refine Uses.bind (uses_run (h _ ?_ _)) fun _ => uses_onlyIf (uses_run (h _ (by simp) _))
  split <;> simp

lemma uses_record {P : Cmd → Prop} {sha256 : String → String} {config : Config}
    {refType refId : String} {entries : List Movement} {providerTxnId : Option String}
    (hfind : ∀ hashes, P (.findJournals hashes))
    (hpost : ∀ rows, P (.transaction refType refId providerTxnId rows))
    (hemit : ∀ topic ∈ ["wallet.credit", "wallet.debit", "notification.create"], ∀ id,
      P (.emit ⟨topic, id⟩)) :
    (record sha256 config refType refId entries providerTxnId).Uses P := by
  unfold record
  split
  · trivial
  · refine Uses.bind (uses_run (hfind _)) fun existing => ?_
    split
    · trivial
    · refine Uses.bind (uses_run (hpost _)) fun inserted => ?_
      split
      · exact Uses.bind (uses_forEach fun e _ => uses_announce hemit) fun _ => trivial
      · trivial

lemma uses_requestDisbursement {P : Cmd → Prop} {id currency : String}
    (hdisb : ∀ q, P (.findDisbursement q)) (haccount : ∀ q, P (.findAccount q))
    (hkyc : ∀ id, P (.kyc id)) (hemit : ∀ event, P (.emit event)) :
    (requestDisbursement id currency).Uses P := by
  refine Uses.bind ((uses_command _ _).mpr (hdisb _)) fun disb => ?_
  cases disb with
  | none => trivial
  | some disb =>
    refine Uses.bind (uses_findOneByOrFail (haccount _)) fun account => ?_
    refine Uses.bind ((uses_command _ _).mpr (hkyc _)) fun verified => ?_
    split
    · exact uses_emit hemit
    · trivial

lemma uses_enqueueDisbursement {P : Cmd → Prop} {config : Config} {id currency : String}
    (hdisb : ∀ q, P (.findDisbursement q)) (haccount : ∀ q, P (.findAccount q))
    (hkyc : ∀ id, P (.kyc id)) (hemit : ∀ event, P (.emit event))
    (hadd : P (.addPayout id currency)) : (enqueueDisbursement config id currency).Uses P := by
  unfold enqueueDisbursement
  split
  · exact (uses_command _ _).mpr hadd
  · exact uses_requestDisbursement hdisb haccount hkyc hemit

lemma uses_removeJob {P : Cmd → Prop} (h : ∀ what, P (.side what)) : removeJob.Uses P :=
  Uses.handle ((uses_command _ _).mpr (h _)) fun _ => trivial

end Uses

/-- A hash function that is written down for the inputs of a run. -/
def hashTable (digests : List (String × String)) (input : String) : String :=
  (digests.lookup input).getD input

/-! ### Reconciliation -/

structure ReconcileRow where
  account : String
  balance : ℤ
  journal : ℤ
  deriving DecidableEq, Repr

/-- The loop of `reconcile`. -/
def reconcileRows : List Account → WalletM (List ReconcileRow)
  | [] => return []
  | acc :: accounts => do
    let total ← run (.sumJournals acc.id)
    let report ← reconcileRows accounts
    return if total ≠ acc.balance then ⟨acc.name, acc.balance, total⟩ :: report else report

def reconcile : WalletM (List ReconcileRow) := do
  let accounts ← run .findAccounts
  reconcileRows accounts

end Pokerhub.Wallet
