import Mathlib.Data.Int.Notation
import Mathlib.Data.Nat.Notation
import Mathlib.Logic.Function.Basic

/-!
# Validating an account

`KycService.validate` asks one check after another for a reason to block the account, and then asks
the provider. A reason is stored under the account's denial key, in a cache that is optional. With a
cache a reason rejects the call; without one the reasons are read and dropped, and the call depends
on the required fields, `runChecks` and the provider alone (`validate_outcome`). So the cache decides
nothing exactly when no reason is met, or the call is rejected for another cause
(`decided_alike_iff`).
-/

namespace Pokerhub.Kyc

/-- The text functions of the language. -/
structure Text where
  toUpperCase : String → String
  toLowerCase : String → String
  trim : String → String

structure Account where
  id : String
  name : String
  region : Option String
  kycVerified : Bool
  deriving DecidableEq, Repr

/-- What comes back from a provider's URL. -/
inductive Response (α : Type) where
  | unreachable
  | error (status : ℕ)
  | ok (data : α)

structure FlagResult where
  flagged : Bool
  reason : Option String

structure GeoResult where
  country : Option String

structure ProviderResult where
  allowed : Bool
  reason : Option String
  deriving DecidableEq, Repr

/-- The service with what is injected into it, its lists, and the clock. -/
structure KycService where
  text : Text
  /-- `Date.now()`, in milliseconds. -/
  now : ℤ
  /-- `new Date(birthdate).getTime()`; nothing if it is not a number. -/
  getTime : String → Option ℤ
  /-- `getCountry` of the country provider. -/
  provider : Option (String → Except String String)
  /-- Whether the repository has a person of this name. -/
  peps : Option (String → Bool)
  blockedCountries : List String
  sanctionedNames : List String

/-- `process.env`, and the providers that it names. -/
structure Env where
  KYC_BLOCKED_REGIONS : Option String
  GEOIP_PROVIDER_URL : Option String
  SANCTIONS_PROVIDER_URL : Option String
  PEP_PROVIDER_URL : Option String
  /-- The answer of a geo-ip provider's URL for an address. -/
  geoIp : String → String → Response GeoResult
  /-- The answer of a flag provider's URL for a name. -/
  flags : String → String → Response FlagResult
  /-- The client, if there is a token: the result of a check on an applicant of a name. -/
  client : Option (String → Except String (Option String))

/-- The truth of an optional text. -/
def truthy (text : Option String) : Bool :=
  text.any (· ≠ "")

/-! ### The checks -/

namespace KycService

variable (svc : KycService) (env : Env) (account : Account) (ip birthdate : Option String)

/-- `age < 18`: the age is a quotient of whole milliseconds, and less than 18 when the dividend is
less than 18 times the divisor. A birthdate that is not a date has no age. -/
def underage (birthdate : String) : Bool :=
  (svc.getTime birthdate).any fun time => svc.now - time < 18 * 31557600000

def isPoliticallyExposed (name : String) : Bool :=
  svc.peps.any fun findOneBy => findOneBy (svc.text.toLowerCase name)

def runChecks (name ip birthdate : String) : Except String String :=
  match svc.provider with
  | none => .ok "unknown"
  | some getCountry => do
    let country ← getCountry ip
    if svc.blockedCountries.contains (svc.text.toUpperCase country) then
      throw "Blocked jurisdiction"
    if svc.sanctionedNames.contains (svc.text.toLowerCase name) then
      throw "Sanctioned individual"
    if svc.underage birthdate then
      throw "Underage"
    if svc.isPoliticallyExposed name then
      throw "Politically exposed person"
    return country

/-- The names in `KYC_BLOCKED_REGIONS`. -/
def regions : List String :=
  (env.KYC_BLOCKED_REGIONS.map fun names =>
    (names.splitOn ",").map fun r => svc.text.toUpperCase (svc.text.trim r)).getD []

/-- The reason against a region, if it is a blocked one. -/
def regionReason (region : Option String) : Option String :=
  (region.map svc.text.toUpperCase).bind fun region =>
    if region ≠ "" ∧ region ∈ svc.regions env then some ("region " ++ region ++ " blocked") else none

def getRegionBlockReason : Option String :=
  svc.regionReason env account.region

def checkGeoIp (ip : String) : Option String :=
  if truthy env.GEOIP_PROVIDER_URL then
    match env.geoIp (env.GEOIP_PROVIDER_URL.getD "") ip with
    | .unreachable => some "geoip provider unreachable"
    | .error status => some ("geoip provider error " ++ toString status)
    | .ok data => svc.regionReason env data.country
  else none

end KycService

section Flags

variable (env : Env) (account : Account)

def checkFlag (url : String) (type : String) : Option String :=
  if url = "" then some (type ++ " provider not configured")
  else
    match env.flags url account.name with
    | .unreachable => some (type ++ " provider unreachable")
    | .error status => some (type ++ " provider error " ++ toString status)
    | .ok data =>
      if data.flagged then some ((data.reason.filter (· ≠ "")).getD (type ++ " match")) else none

def sanctionReason : Option String :=
  checkFlag env account (env.SANCTIONS_PROVIDER_URL.getD "") "sanctions"

def pepReason : Option String :=
  checkFlag env account (env.PEP_PROVIDER_URL.getD "") "pep"

def callProvider : ProviderResult :=
  match env.client with
  | none => ⟨false, some "KYC provider not configured"⟩
  | some check =>
    match check account.name with
    | .ok result => ⟨result = some "clear", result⟩
    | .error message => ⟨false, some message⟩

end Flags

/-! ### The call -/

/-- What is cached: the reason of a denial, or the provider's result. -/
inductive Cached where
  | denial (reason : String)
  | result (result : ProviderResult)

/-- An entry that is read as the provider's result. A text has none of its fields. -/
def Cached.toResult : Cached → ProviderResult
  | .result r => r
  | .denial _ => ⟨false, none⟩

abbrev Cache := String → Option Cached

/-- The cache, if it is injected, and the accounts that were updated to verified. -/
structure KycState where
  cache : Option Cache
  updates : List String := []

abbrev KycM := ExceptT String (StateM KycState)

/-- `if (this.cache) { await this.cache.set(key, value) }`. -/
def cacheSet (key : String) (value : Cached) : KycM Unit :=
  modify fun s => { s with cache := s.cache.map fun cache => Function.update cache key (some value) }

/-- `if (this.cache) { await this.cache.del(key) }`. -/
def cacheDel (key : String) : KycM Unit :=
  modify fun s => { s with cache := s.cache.map fun cache => Function.update cache key none }

def cacheGet (key : String) : KycM (Option ProviderResult) := do
  return ((← get).cache.bind fun cache => cache key).map Cached.toResult

/-- `accounts.update(id, { kycVerified: true })`. -/
def updateAccount (id : String) : KycM Unit :=
  modify fun s => { s with updates := s.updates ++ [id] }

/-- `if (reason && this.cache) { await this.cache.set(denialKey, reason); throw new Error(reason) }`. -/
def deny (denialKey : String) (reason : Option String) : KycM Unit := do
  match reason, (← get).cache with
  | some reason, some _ =>
    cacheSet denialKey (.denial reason)
    throw reason
  | _, _ => return

/-- The part of `validate` that asks the provider. -/
def askProvider (env : Env) (account : Account) (key denialKey : String) : KycM Unit := do
  let result ← match ← cacheGet key with
    | some result => pure result
    | none => do
      cacheSet key (.result (callProvider env account))
      pure (callProvider env account)
  if result.allowed then
    updateAccount account.id
    cacheDel key
    cacheDel denialKey
  else
    let reason := result.reason.getD "KYC verification failed"
    cacheSet denialKey (.denial reason)
    throw reason

/-- `validate` from the region on. -/
def KycService.screen (svc : KycService) (env : Env) (account : Account) (ip : Option String) :
    KycM Unit := do
  let denialKey := "kyc:denial:" ++ account.id
  deny denialKey (svc.getRegionBlockReason env account)
  if truthy ip then
    deny denialKey (svc.checkGeoIp env (ip.getD ""))
  if account.kycVerified then
    return
  deny denialKey (sanctionReason env account)
  deny denialKey (pepReason env account)
  askProvider env account ("kyc:" ++ account.id) denialKey

/-- The checks before the region: the required fields, and `runChecks` where it is made. -/
def KycService.required (svc : KycService) (account : Account) (ip birthdate : Option String) :
    Except String Unit := do
  if account.name = "" then
    throw "Account missing required fields"
  if truthy birthdate && svc.provider.isSome then
    let _ ← svc.runChecks account.name (ip.getD "0.0.0.0") (birthdate.getD "")

def KycService.validate (svc : KycService) (env : Env) (account : Account)
    (ip birthdate : Option String) : KycM Unit := do
  match svc.required account ip birthdate with
  | .error message => throw message
  | .ok _ => svc.screen env account ip

/-! ### What a call decides -/

/-- The outcome of a call in a state. -/
def accepted (m : KycM Unit) (s : KycState) : Bool :=
  (m.run.run s).1.isOk

section Outcome

variable (svc : KycService) (env : Env) (account : Account) (ip birthdate : Option String)
  (s : KycState) (m : KycM Unit)

@[simp] lemma accepted_pure : accepted (pure ()) s = true := rfl

@[simp] lemma accepted_throw (message : String) : accepted (throw message) s = false := rfl

/-- A reason rejects the call where there is a cache, and is dropped where there is none. -/
@[simp] lemma accepted_deny (denialKey : String) (reason : Option String) :
    accepted (do deny denialKey reason; m) s =
      ((reason.isNone || s.cache.isNone) && accepted m s) := by
  cases reason <;> rcases s with ⟨_ | cache, updates⟩ <;> rfl

@[simp] lemma accepted_deny_last (denialKey : String) (reason : Option String) :
    accepted (deny denialKey reason) s = (reason.isNone || s.cache.isNone) := by
  cases reason <;> rcases s with ⟨_ | cache, updates⟩ <;> rfl

/-- A step that does not throw. -/
lemma accepted_bind {α : Type} {x : KycM α} {f : α → KycM Unit} {a : α} {s' : KycState}
    (h : x.run.run s = (.ok a, s')) : accepted (x >>= f) s = accepted (f a) s' := by
  have hbind : (x >>= f).run.run s = (f a).run.run s' := by
    rw [ExceptT.run_bind, StateT.run_bind, h]
    rfl
  rw [accepted, hbind, accepted]

/-- The provider decides as long as no earlier result of it is cached. -/
lemma accepted_askProvider (key denialKey : String)
    (h : ∀ cache, s.cache = some cache → cache key = none) :
    accepted (askProvider env account key denialKey) s = (callProvider env account).allowed := by
  have hget : (cacheGet key).run.run s = (.ok none, s) := by
    rcases s with ⟨_ | cache, updates⟩
    · rfl
    · have hcached : (cacheGet key).run.run ⟨some cache, updates⟩ =
          (.ok ((cache key).map Cached.toResult), ⟨some cache, updates⟩) := rfl
      rw [hcached, h cache rfl]
      rfl
  rw [askProvider, accepted_bind s hget]
  cases hallowed : (callProvider env account).allowed with
  | true => simp [hallowed]; rfl
  | false => simp [hallowed]; rfl

/-- The reasons of the checks that a call makes: a verified account is not asked for sanctions and
political exposure again. -/
def KycService.blockingReasons : List String :=
  (svc.getRegionBlockReason env account).toList ++
    (if truthy ip then (svc.checkGeoIp env (ip.getD "")).toList else []) ++
    if account.kycVerified then []
    else (sanctionReason env account).toList ++ (pepReason env account).toList

/-- From the region on, a call is accepted when its reasons, if there is a cache to store them, are
none, and the account is verified or the provider allows it. -/
lemma accepted_screen (h : ∀ cache, s.cache = some cache → cache ("kyc:" ++ account.id) = none) :
    accepted (svc.screen env account ip) s =
      (((svc.blockingReasons env account ip).isEmpty || s.cache.isNone) &&
        (account.kycVerified || (callProvider env account).allowed)) := by
  have hask := accepted_askProvider env account s ("kyc:" ++ account.id) ("kyc:denial:" ++ account.id) h
  rw [KycService.screen, KycService.blockingReasons]
  have happend : ∀ (reason : Option String) (reasons : List String),
      (reason.toList ++ reasons).isEmpty = (reason.isNone && reasons.isEmpty) := by
    rintro (_ | reason) reasons <;> rfl
  have htoList : ∀ reason : Option String, reason.toList.isEmpty = reason.isNone := by
    rintro (_ | reason) <;> rfl
  cases truthy ip <;> cases account.kycVerified <;> cases hcache : s.cache <;>
    simp [hask, hcache, happend, htoList, Bool.and_assoc]

/-- The whole call, from a state in which no result of the provider is cached. -/
theorem validate_outcome
    (h : ∀ cache, s.cache = some cache → cache ("kyc:" ++ account.id) = none) :
    accepted (svc.validate env account ip birthdate) s =
      ((svc.required account ip birthdate).isOk &&
        ((svc.blockingReasons env account ip).isEmpty || s.cache.isNone) &&
        (account.kycVerified || (callProvider env account).allowed)) := by
  rw [KycService.validate]
  cases svc.required account ip birthdate with
  | error message => rfl
  | ok _ => exact (accepted_screen svc env account ip s h).trans (by simp [Except.isOk, Except.toBool])

/-- The call decides with an empty cache as it does without a cache, and every reason that it meets
rejects it in both. -/
def KycService.DecidedAlike : Prop :=
  (accepted (svc.validate env account ip birthdate) { cache := some fun _ => none } ↔
    accepted (svc.validate env account ip birthdate) { cache := none }) ∧
  ∀ reason ∈ svc.blockingReasons env account ip,
    ¬ accepted (svc.validate env account ip birthdate) { cache := some fun _ => none } ∧
      ¬ accepted (svc.validate env account ip birthdate) { cache := none }

end Outcome

/-- The cache decides nothing exactly when no reason to block the account is met, or a required field
or a check of `runChecks` rejects it, or it is neither verified nor allowed by the provider. -/
theorem decidedAlike_iff (svc : KycService) (env : Env) (account : Account)
    (ip birthdate : Option String) :
    svc.DecidedAlike env account ip birthdate ↔
      svc.blockingReasons env account ip = [] ∨
        (svc.required account ip birthdate).isOk = false ∨
        account.kycVerified = false ∧ (callProvider env account).allowed = false := by
  have hcached := validate_outcome svc env account ip birthdate { cache := some fun _ => none }
    (by rintro _ ⟨⟩; rfl)
  have hbare := validate_outcome svc env account ip birthdate { cache := none } (by rintro _ ⟨⟩)
  rw [KycService.DecidedAlike, hcached, hbare]
  cases hreasons : svc.blockingReasons env account ip with
  | nil => simp
  | cons reason reasons =>
    cases (svc.required account ip birthdate).isOk <;> cases account.kycVerified <;>
      cases (callProvider env account).allowed <;> simp

/-- A service without lists, on a day after every birthdate. -/
def plainService : KycService where
  text := ⟨id, id, id⟩
  now := 0
  getTime _ := none
  provider := none
  peps := none
  blockedCountries := []
  sanctionedNames := []

/-- A sanctions provider that flags everybody, before a provider that allows everybody. -/
def flaggingEnv : Env where
  KYC_BLOCKED_REGIONS := none
  GEOIP_PROVIDER_URL := none
  SANCTIONS_PROVIDER_URL := some "https://sanctions"
  PEP_PROVIDER_URL := some "https://pep"
  geoIp _ _ := .unreachable
  flags url _ := .ok ⟨url == "https://sanctions", none⟩
  client := some fun _ => .ok (some "clear")

/-- Without a cache a sanctioned person is verified. -/
theorem sanction_dropped :
    ¬ ∀ (svc : KycService) (env : Env) (account : Account) (ip birthdate : Option String),
      svc.DecidedAlike env account ip birthdate := by
  intro h
  have halike := h plainService flaggingEnv ⟨"1", "Ada", none, false⟩ none none
  rw [decidedAlike_iff] at halike
  revert halike
  decide

end Pokerhub.Kyc
