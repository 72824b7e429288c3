import Pokerhub.Wallet.Operations

/-!
# Requests for money

`withdraw`, `deposit` and `initiateBankTransfer` of `wallet.service.ts`: the idempotency key, the
rate, velocity and daily limits, and the provider challenge or the pending deposit at the end.
-/

namespace Pokerhub.Wallet

/-- The environment variables. A limit is `none` where it is unset, infinite or not a number. -/
structure Limits where
  daily : Kind → Option ℤ := fun _ => none
  hourlyCount : Kind → Option ℤ := fun _ => none
  hourlyAmount : Kind → Option ℤ := fun _ => none
  dailyCount : Kind → Option ℤ := fun _ => none
  /-- `BANK_NAME`, `BANK_ACCOUNT_NUMBER` and `BANK_ROUTING_CODE`, if all are set. -/
  bank : Option (String × String × String) := none
  /-- `geo.isAllowed`. -/
  allowed : String → Bool := fun _ => true

section Requests

variable (limits : Limits)

/-- One of the two counters of `checkVelocity`. -/
def countRequest (key : CounterKey) : WalletM ℤ := do
  let count ← run (.incrby key 1)
  onlyIf (count == 1) do
    let _ ← run (.expire key)
    return ()
  return count

def checkVelocity (op : Kind) (deviceId ip : String) : WalletM Unit := do
  let ipCount ← countRequest (.ip op ip)
  let devCount ← countRequest (.dev op deviceId)
  if ipCount > 3 ∨ devCount > 3 then throw "Rate limit exceeded"
  else return ()

/-- `dateKey` is the date when the function is called. -/
def enforceDailyLimit (op : Kind) (accountId : String) (amount : ℤ) (dateKey : String) :
    WalletM Unit := do
  let key := CounterKey.daily op accountId dateKey
  let total ← run (.incrby key amount)
  onlyIf (total == amount) do
    let _ ← run (.expire key)
    return ()
  if (limits.daily op).any (· < total) then do
    let _ ← run (.incrby key (-amount))
    emit "antiCheat.flag" accountId
    throw "Daily limit exceeded"
  else return ()

/-- One of the three blocks of `enforceVelocity`. -/
def enforceCounter (key : CounterKey) (amount limit : ℤ) (accountId : String) : WalletM Unit := do
  let (total, ok) ← (do
      let total ← run (.incrby key amount)
      if total = amount then do
        let ok ← run (.expire key)
        return (total, ok)
      else return (total, true)).handle fun err => do
    let _ ← run (.incrby key (-amount))
    throw err
  -- from here on `rolledBack` is set before anything can throw
  if !ok then do
    let _ ← run (.incrby key (-amount))
    throw "Failed to set expiry"
  else if total > limit then do
    let _ ← run (.incrby key (-amount))
    emit "wallet.velocity.limit" accountId
    throw "Velocity limit exceeded"
  else return ()

/-- `if (limit < Infinity) { .. }` -/
def enforceIfLimited (key : CounterKey) (amount : ℤ) (limit : Option ℤ) (accountId : String) :
    WalletM Unit :=
  match limit with
  | none => return ()
  | some limit => enforceCounter key amount limit accountId

def enforceVelocity (op : Kind) (accountId : String) (amount : ℤ) : WalletM Unit := do
  enforceIfLimited (.hourlyCount op accountId) 1 (limits.hourlyCount op) accountId
  enforceIfLimited (.hourlyAmount op accountId) amount (limits.hourlyAmount op) accountId
  enforceIfLimited (.dailyCount op accountId) 1 (limits.dailyCount op) accountId

/-- The parameters of a request, with the date when it is made. -/
structure Request where
  accountId : String
  amount : ℤ
  deviceId : String
  ip : String
  currency : String
  dateKey : String
  deriving DecidableEq, Repr

/-- `withdraw` between the two uses of its idempotency key. -/
def withdrawOnce (r : Request) : WalletM Response := do
  if !limits.allowed r.ip then throw "Country not allowed"
  else do
    let _ ← findOneByOrFail (byId r.accountId r.currency)
    let verified ← run (.kyc r.accountId)
    if !verified then throw "KYC required"
    else if r.amount > 100000 then throw "AML limit exceeded"
    else do
      checkVelocity .withdraw r.deviceId r.ip
      enforceVelocity limits .withdraw r.accountId r.amount
      enforceDailyLimit limits .withdraw r.accountId r.amount r.dateKey
      let id ← run (.initiate3DS r.accountId r.amount)
      run (.set (.challenge id) (⟨.withdraw, r.accountId, r.amount, r.currency, none⟩ : Challenge))
      return .challenge id

/-- `deposit` between the two uses of its idempotency key. -/
def depositOnce (r : Request) : WalletM Response := do
  if !limits.allowed r.ip then throw "Country not allowed"
  else do
    checkVelocity .deposit r.deviceId r.ip
    enforceVelocity limits .deposit r.accountId r.amount
    let user ← findOneByOrFail (byId r.accountId r.currency)
    if !user.kycVerified then throw "KYC required"
    else do
      enforceDailyLimit limits .deposit r.accountId r.amount r.dateKey
      let flagged ← run (.flagged r.accountId r.deviceId)
      if flagged then do
        run (.side "analytics.emit")
        throw "Chargeback threshold exceeded"
      else do
        let id ← run (.initiate3DS r.accountId r.amount)
        run (.set (.challenge id)
          (⟨.deposit, r.accountId, r.amount, r.currency, some r.deviceId⟩ : Challenge))
        return .challenge id

/-- `padStart(5, '0')` -/
def padStart (s : String) : String :=
  String.ofList (List.replicate (5 - s.length) '0') ++ s

/-- `initiateBankTransfer` between the two uses of its idempotency key; the id of the deposit is
fresh. -/
def bankTransferOnce (config : Config) (r : Request) (depositId : String) (expiresAt : ℕ) :
    WalletM Response := do
  match limits.bank with
  | none => throw "Bank transfer configuration missing"
  | some (bankName, accountNumber, routingCode) => do
    checkVelocity .deposit r.deviceId r.ip
    enforceVelocity limits .deposit r.accountId r.amount
    let _ ← findOneByOrFail (byId r.accountId r.currency)
    let verified ← run (.kyc r.accountId)
    if !verified then throw "KYC required"
    else do
      enforceDailyLimit limits .deposit r.accountId r.amount r.dateKey
      let refNum ← run (.incrby .depositRef 1)
      let reference := "DEP" ++ padStart (toString refNum)
      run (.insertDeposit
        ⟨depositId, r.accountId, r.amount, r.currency, reference, .pending, expiresAt⟩)
      run (.side "pendingQueue.add")
      onlyIf (!config.queueConnected) (run (.side "markActionRequiredIfPending"))
      return .bank reference bankName accountNumber routingCode

/-- What the three requests do with their idempotency key; `none` stands for the empty key too. -/
def idempotent (idempotencyKey : Option String) (body : WalletM Response) : WalletM Response :=
  match idempotencyKey with
  | none => body
  | some key =>
    (do
      match ← run (.get (.idemp key)) with
      | some (.response res) => return res
      | _ => do
        let lock ← run (.setNx (.idemp key) .lock)
        if lock then do
          let res ← body
          run (.set (.idemp key) (.response res))
          return res
        else do
          match ← run (.get (.idemp key)) with
          | some (.response res) => return res
          | _ => throw "Duplicate request in progress").handle fun err => do
      run (.del (.idemp key))
      throw err

def withdraw (r : Request) (idempotencyKey : Option String) : WalletM Response :=
  idempotent idempotencyKey (withdrawOnce limits r)

def deposit (r : Request) (idempotencyKey : Option String) : WalletM Response :=
  idempotent idempotencyKey (depositOnce limits r)

def initiateBankTransfer (config : Config) (r : Request) (idempotencyKey : Option String)
    (depositId : String) (expiresAt : ℕ) : WalletM Response :=
  idempotent idempotencyKey (bankTransferOnce limits config r depositId expiresAt)

inductive MoneyRequest where
  | deposit (r : Request)
  | withdraw (r : Request)
  | bankTransfer (r : Request) (depositId : String) (expiresAt : ℕ)
  deriving DecidableEq, Repr

def MoneyRequest.body (config : Config) (idempotencyKey : Option String) :
    MoneyRequest → WalletM Response
  | deposit r => Wallet.deposit limits r idempotencyKey
  | withdraw r => Wallet.withdraw limits r idempotencyKey
  | bankTransfer r depositId expiresAt =>
    Wallet.initiateBankTransfer limits config r idempotencyKey depositId expiresAt

end Requests

/-! ### The commands of the limits -/

/-- The checks of a request. -/
def Cmd.IsCheck : Cmd → Bool
  | .findAccount _ | .kyc _ | .flagged _ _ | .incrby _ _ | .expire _ | .emit _ => true
  | _ => false

section Checks

open Program

variable {limits : Limits} {op : Kind} {P : Cmd → Prop}

lemma uses_countRequest {key : CounterKey} (h : ∀ c : Cmd, c.IsCheck → P c) :
    (countRequest key).Uses P := by
  refine Uses.bind (uses_run (h _ rfl)) fun count => ?_
  exact Uses.bind (uses_onlyIf (Uses.bind (uses_run (h _ rfl)) fun _ => trivial)) fun _ => trivial

lemma uses_checkVelocity {deviceId ip : String} (h : ∀ c : Cmd, c.IsCheck → P c) :
    (checkVelocity op deviceId ip).Uses P := by
  refine Uses.bind (uses_countRequest h) fun ipCount => ?_
  refine Uses.bind (uses_countRequest h) fun devCount => ?_
  split <;> trivial

lemma uses_enforceDailyLimit {accountId dateKey : String} {amount : ℤ}
    (h : ∀ c : Cmd, c.IsCheck → P c) :
    (enforceDailyLimit limits op accountId amount dateKey).Uses P := by
  refine Uses.bind (uses_run (h _ rfl)) fun total => ?_
  refine Uses.bind (uses_onlyIf (Uses.bind (uses_run (h _ rfl)) fun _ => trivial)) fun _ => ?_
  split
  · exact Uses.bind (uses_run (h _ rfl)) fun _ =>
      Uses.bind (uses_emit fun _ => h _ rfl) fun _ => trivial
  · trivial

lemma uses_enforceCounter {key : CounterKey} {amount limit : ℤ} {accountId : String}
    (h : ∀ c : Cmd, c.IsCheck → P c) : (enforceCounter key amount limit accountId).Uses P := by
  refine Uses.bind (Uses.handle ?_ ?_) ?_
  · refine Uses.bind (uses_run (h _ rfl)) fun total => ?_
    split
    · exact Uses.bind (uses_run (h _ rfl)) fun _ => trivial
    · trivial
  · exact fun err => Uses.bind (uses_run (h _ rfl)) fun _ => trivial
  · rintro ⟨total, ok⟩
    dsimp only
    split
    · exact Uses.bind (uses_run (h _ rfl)) fun _ => trivial
    · split
      · exact Uses.bind (uses_run (h _ rfl)) fun _ =>
          Uses.bind (uses_emit fun _ => h _ rfl) fun _ => trivial
      · trivial

lemma uses_enforceVelocity {accountId : String} {amount : ℤ} (h : ∀ c : Cmd, c.IsCheck → P c) :
    (enforceVelocity limits op accountId amount).Uses P := by
  have hcounter : ∀ key amount limit,
      (enforceIfLimited key amount limit accountId).Uses P := by
    rintro key amount (_ | limit)
    · trivial
    · exact uses_enforceCounter h
  exact (hcounter _ _ _).bind fun _ => (hcounter _ _ _).bind fun _ => hcounter _ _ _

end Checks

end Pokerhub.Wallet
