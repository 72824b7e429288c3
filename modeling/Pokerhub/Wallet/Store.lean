import Mathlib.Algebra.Ring.Int.Defs
import Mathlib.Data.Int.Basic
import Mathlib.Data.List.Nodup
import Mathlib.Logic.Function.Basic
import Pokerhub.Core.Program

/-!
# The stores of the wallet

The tables, the Redis keys, the queues and the outside services that the wallet works on, and the
commands by which it does. The statements of one database transaction are one command. What no
modelled function reads again (settlement rows, metrics, decisions, jobs of the deposit queue) is
the command `side`, which only can fail.
-/

namespace Pokerhub.Wallet

open List

/-! ### Tables -/

structure Account where
  id : String
  name : String
  currency : String
  balance : ℤ
  kycVerified : Bool := false
  deriving DecidableEq, Repr

structure JournalEntry where
  accountId : String
  amount : ℤ
  currency : String
  refType : String
  refId : String
  providerTxnId : Option String := none
  hash : String
  deriving DecidableEq, Repr

inductive DepositStatus where
  | pending | confirmed | rejected
  deriving DecidableEq, Repr

structure PendingDeposit where
  id : String
  userId : String
  amount : ℤ
  currency : String
  reference : String
  status : DepositStatus
  expiresAt : ℕ
  deriving DecidableEq, Repr

inductive DisbursementStatus where
  | pending | completed
  deriving DecidableEq, Repr

structure Disbursement where
  id : String
  accountId : String
  amount : ℤ
  idempotencyKey : String
  status : DisbursementStatus
  deriving DecidableEq, Repr

/-- An account as it was loaded, and what to add to its balance. -/
structure Movement where
  account : Account
  amount : ℤ
  deriving DecidableEq, Repr

/-! ### Redis -/

/-- `'deposit' | 'withdraw'`. -/
inductive Kind where
  | deposit | withdraw
  deriving DecidableEq, Repr

inductive ProviderStatus where
  | approved | risky | chargeback
  deriving DecidableEq, Repr

structure ProviderCallback where
  eventId : String
  idempotencyKey : String
  providerTxnId : String
  status : ProviderStatus
  deriving DecidableEq, Repr

structure Challenge where
  op : Kind
  accountId : String
  amount : ℤ
  currency : String
  deviceId : Option String := none
  deriving DecidableEq, Repr

/-- What a deposit, a withdrawal or a bank transfer answers. -/
inductive Response where
  | challenge (id : String)
  | bank (reference bankName accountNumber routingCode : String)
  deriving DecidableEq, Repr

inductive Cached where
  | lock
  | response (r : Response)
  deriving DecidableEq, Repr

inductive RedisKey where
  /-- `wallet:3ds:${id}` -/
  | challenge (id : String)
  /-- `wallet:webhook:${eventId}` -/
  | webhook (eventId : String)
  /-- `provider:webhook:${idempotencyKey}` -/
  | providerWebhook (idempotencyKey : String)
  /-- `wallet:idemp:${idempotencyKey}` -/
  | idemp (idempotencyKey : String)
  /-- `wallet:pending:${id}:lock` -/
  | pendingLock (id : String)
  deriving DecidableEq, Repr

def RedisKey.Value : RedisKey → Type
  | challenge _ => Challenge
  | webhook _ => Unit
  | providerWebhook _ => ProviderCallback
  | idemp _ => Cached
  | pendingLock _ => Unit

inductive CounterKey where
  /-- `${op}:ip:${ip}` -/
  | ip (op : Kind) (ip : String)
  /-- `${op}:dev:${deviceId}` -/
  | dev (op : Kind) (deviceId : String)
  /-- `wallet:${op}:${accountId}:h:count` -/
  | hourlyCount (op : Kind) (accountId : String)
  /-- `wallet:${op}:${accountId}:h:amount` -/
  | hourlyAmount (op : Kind) (accountId : String)
  /-- `wallet:${op}:${accountId}:d:count` -/
  | dailyCount (op : Kind) (accountId : String)
  /-- `wallet:${op}:${accountId}:${dateKey}` -/
  | daily (op : Kind) (accountId dateKey : String)
  /-- `wallet:deposit:ref` -/
  | depositRef
  deriving DecidableEq, Repr

structure Counter where
  value : ℤ
  ttl : Bool
  deriving DecidableEq, Repr

/-! ### The store -/

/-- An event that was emitted, and the row or account it is about. -/
structure Event where
  topic : String
  id : String
  deriving DecidableEq, Repr

structure Store where
  accounts : List Account
  journals : List JournalEntry := []
  pendingDeposits : List PendingDeposit := []
  /-- In the order of their creation. -/
  disbursements : List Disbursement := []
  redis : (k : RedisKey) → Option k.Value := fun _ => none
  counters : CounterKey → Option Counter := fun _ => none
  emitted : List Event := []
  /-- The jobs of the `payout` queue. -/
  payouts : List (String × String) := []
  /-- The jobs of the `provider-webhook-retry` queue. -/
  retries : List ProviderCallback := []
  /-- The payment intents that the provider has created. -/
  intents : List String := []
  /-- The id that the provider gives to its next intent. -/
  intentId : ℕ → String := fun n => s!"pi_{n}"
  /-- What the KYC service says of an account. -/
  kyc : String → Bool := fun _ => true
  /-- What the chargeback monitor says of an account and a device. -/
  flagged : String → String → Bool := fun _ _ => false

namespace Store

/-- `save` writes the column that has changed. -/
def save (s : Store) (account : Account) : Store :=
  { s with
    accounts := s.accounts.map fun row =>
      if row.id = account.id then { row with balance := account.balance } else row }

/-- One turn of the loop of `record`, with the hash of the entry. -/
def insert (refType refId : String) (providerTxnId : Option String) (s : Store)
    (row : Movement × String) : Store :=
  let journal : JournalEntry :=
    { accountId := row.1.account.id, amount := row.1.amount, currency := row.1.account.currency,
      refType := refType, refId := refId, providerTxnId := providerTxnId, hash := row.2 }
  save { s with journals := s.journals ++ [journal] }
    { row.1.account with balance := row.1.account.balance + row.1.amount }

def saveDeposit (s : Store) (deposit : PendingDeposit) : Store :=
  { s with
    pendingDeposits := s.pendingDeposits.map fun d =>
      if d.id = deposit.id then { d with status := deposit.status } else d }

/-- A row that is not there, or no longer, is inserted. -/
def saveDisbursement (s : Store) (disb : Disbursement) : Store :=
  { s with
    disbursements :=
      if s.disbursements.any fun d => d.id = disb.id then
        s.disbursements.map fun d => if d.id = disb.id then disb else d
      else s.disbursements ++ [disb] }

def setKey (s : Store) (k : RedisKey) (v : Option k.Value) : Store :=
  { s with redis := Function.update s.redis k v }

def incrby (s : Store) (k : CounterKey) (n : ℤ) : Store :=
  { s with
    counters := Function.update s.counters k <| some <|
      match s.counters k with
      | some c => { c with value := c.value + n }
      | none => { value := n, ttl := false } }

/-- The value of a counter; a key that does not exist counts as 0. -/
def count (s : Store) (k : CounterKey) : ℤ :=
  match s.counters k with
  | some c => c.value
  | none => 0

end Store

/-! ### Commands -/

inductive Cmd where
  | findAccount (q : Account → Bool)
  | findAccounts
  | sumJournals (accountId : String)
  | findJournals (hashes : List String)
  | transaction (refType refId : String) (providerTxnId : Option String)
      (rows : List (Movement × String))
  | findDeposit (q : PendingDeposit → Bool)
  | findDeposits (q : PendingDeposit → Bool)
  | insertDeposit (deposit : PendingDeposit)
  | saveDeposit (deposit : PendingDeposit)
  | findDisbursement (q : Disbursement → Bool)
  /-- `order: { createdAt: 'DESC' }` -/
  | findLastDisbursement (q : Disbursement → Bool)
  | findDisbursements (q : Disbursement → Bool)
  | saveDisbursement (disb : Disbursement)
  | deleteDisbursement (id : String)
  /-- `SET key value EX ttl NX` -/
  | setNx (k : RedisKey) (v : k.Value)
  | get (k : RedisKey)
  /-- `SET key value EX ttl` -/
  | set (k : RedisKey) (v : k.Value)
  | del (k : RedisKey)
  | incrby (k : CounterKey) (n : ℤ)
  | expire (k : CounterKey)
  | emit (event : Event)
  | addPayout (id currency : String)
  | addRetry (event : ProviderCallback)
  | initiate3DS (accountId : String) (amount : ℤ)
  | kyc (accountId : String)
  | flagged (accountId deviceId : String)
  | side (what : String)

namespace Cmd

abbrev Answer : Cmd → Type
  | findAccount _ => Option Account
  | findAccounts => List Account
  | sumJournals _ => ℤ
  | findJournals _ => List JournalEntry
  | transaction _ _ _ _ => Bool
  | findDeposit _ => Option PendingDeposit
  | findDeposits _ => List PendingDeposit
  | findDisbursement _ => Option Disbursement
  | findLastDisbursement _ => Option Disbursement
  | findDisbursements _ => List Disbursement
  | setNx _ _ => Bool
  | get k => Option k.Value
  | incrby _ _ => ℤ
  | expire _ => Bool
  | initiate3DS _ _ => String
  | kyc _ => Bool
  | flagged _ _ => Bool
  | _ => Unit

/-- What a command does when it does not fail. -/
def exec : (c : Cmd) → Store → c.Answer × Store
  | findAccount q, s => (s.accounts.find? q, s)
  | findAccounts, s => (s.accounts, s)
  | sumJournals id, s =>
    let sum : ℤ := ((s.journals.filter (·.accountId = id)).map (·.amount)).sum
    (sum, s)
  | findJournals hashes, s => (s.journals.filter (hashes.contains ·.hash), s)
  | transaction refType refId providerTxnId rows, s =>
    -- the column of the hashes is unique; a violation rolls the transaction back
    if (rows.map (·.2)).Nodup ∧ ∀ h ∈ rows.map (·.2), h ∉ s.journals.map (·.hash) then
      (true, rows.foldl (Store.insert refType refId providerTxnId) s)
    else (false, s)
  | findDeposit q, s => (s.pendingDeposits.find? q, s)
  | findDeposits q, s => (s.pendingDeposits.filter q, s)
  | insertDeposit deposit, s =>
    ((), { s with pendingDeposits := s.pendingDeposits ++ [deposit] })
  | saveDeposit deposit, s => ((), s.saveDeposit deposit)
  | findDisbursement q, s => (s.disbursements.find? q, s)
  | findLastDisbursement q, s => (s.disbursements.reverse.find? q, s)
  | findDisbursements q, s => (s.disbursements.filter q, s)
  | saveDisbursement disb, s => ((), s.saveDisbursement disb)
  | deleteDisbursement id, s =>
    ((), { s with disbursements := s.disbursements.filter (·.id ≠ id) })
  | setNx k v, s =>
    match s.redis k with
    | some _ => (false, s)
    | none => (true, s.setKey k (some v))
  | get k, s => (s.redis k, s)
  | set k v, s => ((), s.setKey k (some v))
  | del k, s => ((), s.setKey k none)
  | incrby k n, s => ((s.incrby k n).count k, s.incrby k n)
  | expire k, s =>
    match s.counters k with
    | some c =>
      (true, { s with counters := Function.update s.counters k (some { c with ttl := true }) })
    | none => (false, s)
  | emit event, s => ((), { s with emitted := s.emitted ++ [event] })
  | addPayout id currency, s => ((), { s with payouts := s.payouts ++ [(id, currency)] })
  | addRetry event, s => ((), { s with retries := s.retries ++ [event] })
  | initiate3DS _ _, s =>
    (s.intentId s.intents.length,
      { s with intents := s.intents ++ [s.intentId s.intents.length] })
  | kyc id, s => (s.kyc id, s)
  | flagged id deviceId, s => (s.flagged id deviceId, s)
  | side _, s => ((), s)

/-- A transaction inserts all its rows or none. -/
lemma exec_transaction (refType refId : String) (providerTxnId : Option String)
    (rows : List (Movement × String)) (s : Store) :
    (transaction refType refId providerTxnId rows).exec s =
        (true, rows.foldl (Store.insert refType refId providerTxnId) s) ∨
      (transaction refType refId providerTxnId rows).exec s = (false, s) := by
  by_cases hnew : (rows.map (·.2)).Nodup ∧ ∀ h ∈ rows.map (·.2), h ∉ s.journals.map (·.hash)
  · exact Or.inl (if_pos hnew)
  · exact Or.inr (if_neg hnew)

/-- Only a transaction writes accounts and journal entries. -/
lemma exec_money (c : Cmd) (s : Store) :
    (∃ refType refId providerTxnId rows, c = .transaction refType refId providerTxnId rows) ∨
      (c.exec s).2.accounts = s.accounts ∧ (c.exec s).2.journals = s.journals := by
  cases c with
  | transaction refType refId providerTxnId rows => exact Or.inl ⟨_, _, _, _, rfl⟩
  | setNx k v =>
    right
    simp only [Cmd.exec]
    split <;> exact ⟨rfl, rfl⟩
  | expire k =>
    right
    simp only [Cmd.exec]
    split <;> exact ⟨rfl, rfl⟩
  | _ => exact Or.inr ⟨rfl, rfl⟩

end Cmd

/-! ### Where the money is -/

namespace Store

variable {refType refId : String} {providerTxnId : Option String} {s : Store}

@[simp] lemma setKey_redis (k : RedisKey) (v : Option k.Value) : (s.setKey k v).redis k = v := by
  simp [setKey]

lemma setKey_redis_of_ne {k k' : RedisKey} (h : k' ≠ k) (v : Option k.Value) :
    (s.setKey k v).redis k' = s.redis k' := by
  simp [setKey, h]

@[simp] lemma save_journals (account : Account) : (s.save account).journals = s.journals := rfl

@[simp] lemma insert_journals (row : Movement × String) :
    (insert refType refId providerTxnId s row).journals = s.journals ++
      [{ accountId := row.1.account.id, amount := row.1.amount,
         currency := row.1.account.currency, refType := refType, refId := refId,
         providerTxnId := providerTxnId, hash := row.2 }] := rfl

/-- What a transaction changes are the accounts and the journal. -/
lemma foldl_insert_eq (rows : List (Movement × String)) :
    rows.foldl (insert refType refId providerTxnId) s =
      { s with
        accounts := (rows.foldl (insert refType refId providerTxnId) s).accounts
        journals := (rows.foldl (insert refType refId providerTxnId) s).journals } := by
  induction rows generalizing s with
  | nil => rfl
  | cons row rows ih =>
    rw [foldl_cons, ih]
    rfl

lemma foldl_insert_journals (rows : List (Movement × String)) :
    (rows.foldl (insert refType refId providerTxnId) s).journals = s.journals ++ rows.map fun row =>
      { accountId := row.1.account.id, amount := row.1.amount,
        currency := row.1.account.currency, refType := refType, refId := refId,
        providerTxnId := providerTxnId, hash := row.2 } := by
  induction rows generalizing s with
  | nil => simp
  | cons row rows ih => rw [foldl_cons, ih]; simp

end Store

end Pokerhub.Wallet
