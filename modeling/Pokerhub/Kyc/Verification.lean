import Mathlib.Data.List.Basic
import Mathlib.Tactic.Tauto
import Pokerhub.Core.Program
import Pokerhub.Core.Transition
import Pokerhub.Kyc.Validate

/-!
# Verification records

`requestVerification`, `validateJob` and `handleProviderUpdate`, called one after another, with any of
their commands failing. A record can lose its status `verified` again, by a job that is run once more
or by an update of the provider, and the flag of the account is never taken back; and an approval
writes the record and the flag one after the other, in an order of its own in each operation. So the
flag agrees with the records as long as no call takes the last `verified` away from an account or
stops between the two writes of an approval (`flag_iff_of_steady`).
-/

namespace Pokerhub.Kyc

open Program TransitionSystem

inductive VerificationStatus where
  | pending
  | verified
  | failed
  deriving DecidableEq, Repr

structure ProviderData where
  status : String
  deriving DecidableEq, Repr

/-- What is stored with a record: the provider's answer, or the error of the last run. -/
inductive VerificationResult where
  | data (data : ProviderData)
  | error (message : String)
  deriving DecidableEq, Repr

structure KycVerification where
  accountId : String
  provider : String
  status : VerificationStatus
  retries : ℕ
  result : Option VerificationResult
  deriving DecidableEq, Repr

structure VerificationJob where
  verificationId : ℕ
  accountId : String
  name : String
  birthdate : String
  ip : String
  deriving DecidableEq, Repr

structure KycConfig where
  apiUrl : Option String
  apiKey : Option String

/-- The body of the request to the provider. -/
structure ProviderRequest where
  id : ℕ
  accountId : String
  name : String
  ip : String
  country : String

/-- What is injected into the service when a call is made, and what answers there. -/
structure Setting where
  service : KycService
  /-- The name of the country provider's class. -/
  providerName : Option String
  /-- The repository of the records is injected. -/
  verifications : Bool
  config : Option KycConfig
  /-- The queue has a connection to Redis. -/
  connected : Bool
  /-- `fetchJson` on a URL with a key. -/
  fetchJson : String → String → ProviderRequest → Except String ProviderData

/-- The tables, and the jobs that were ever put in the queue. The id of a record is its place. -/
structure KycStore where
  verifications : List KycVerification
  /-- The accounts with `kycVerified`. -/
  kycVerified : List String
  jobs : List VerificationJob

namespace Verification

/-- The commands of the database and the queue. -/
inductive Cmd where
  | insert (accountId provider : String)
  | find (id : ℕ)
  | save (id : ℕ) (record : KycVerification)
  | updateAccount (accountId : String)
  | addJob (job : VerificationJob)
  deriving DecidableEq

abbrev Cmd.Answer : Cmd → Type
  | .insert _ _ => ℕ
  | .find _ => Option KycVerification
  | .save _ _ | .updateAccount _ | .addJob _ => Unit

def Cmd.exec : (c : Cmd) → KycStore → c.Answer × KycStore
  | .insert accountId provider, s =>
    (s.verifications.length, { s with
      verifications := s.verifications ++ [⟨accountId, provider, .pending, 0, none⟩] })
  | .find id, s => (s.verifications[id]?, s)
  | .save id record, s => ((), { s with verifications := s.verifications.set id record })
  | .updateAccount accountId, s => ((), { s with kycVerified := accountId :: s.kycVerified })
  | .addJob job, s => ((), { s with jobs := s.jobs ++ [job] })

abbrev VerificationM := Program Cmd.Answer String

/-- The message of a command that fails. -/
def unavailable : String := "Connection terminated unexpectedly"

def insert (accountId provider : String) : VerificationM ℕ :=
  command unavailable (Cmd.insert accountId provider)

def findOneBy (id : ℕ) : VerificationM (Option KycVerification) :=
  command unavailable (Cmd.find id)

def save (id : ℕ) (record : KycVerification) : VerificationM Unit :=
  command unavailable (Cmd.save id record)

/-- `accounts.update(accountId, { kycVerified: true })`. -/
def updateAccount (accountId : String) : VerificationM Unit :=
  command unavailable (Cmd.updateAccount accountId)

def enqueue (job : VerificationJob) : VerificationM Unit :=
  command unavailable (Cmd.addJob job)

/-- `findOneByOrFail`. -/
def findOneByOrFail (id : ℕ) : VerificationM KycVerification := do
  match ← findOneBy id with
  | some record => return record
  | none => throw "EntityNotFoundError"

/-! ### The operations -/

section Operations

variable (setting : Setting)

/-- A text of the configuration, trimmed, that must not be blank. -/
def configured (value : Option String) (message : String) : Except String String :=
  if truthy value ∧ setting.service.text.trim (value.getD "") ≠ "" then
    .ok (setting.service.text.trim (value.getD ""))
  else .error message

/-- What a job learns before it writes: the checks, the configuration, and the provider's answer. -/
def ask (config : KycConfig) (job : VerificationJob) : Except String ProviderData := do
  let country ← setting.service.runChecks job.name job.ip job.birthdate
  let normalizedUrl ← configured setting config.apiUrl "KYC provider API URL not configured"
  let normalizedKey ← configured setting config.apiKey "KYC provider API key not configured"
  setting.fetchJson normalizedUrl normalizedKey
    ⟨job.verificationId, job.accountId, job.name, job.ip, country⟩

/-- `queue.add`; a queue without a connection drops the job. -/
def addJob (job : VerificationJob) : VerificationM Unit :=
  if setting.connected then enqueue job else return ()

/-- The status that an answer gives a job's record. -/
def jobStatus (data : ProviderData) : VerificationStatus :=
  if data.status = "approved" then .verified
  else if data.status = "pending" then .pending
  else .failed

/-- The record as a job saves it on the provider's answer. -/
def settled (record : KycVerification) (data : ProviderData) : KycVerification :=
  { record with result := some (.data data), status := jobStatus data }

/-- The record as a job saves it on an error. -/
def rejected (record : KycVerification) (message : String) : KycVerification :=
  { record with
    status := .failed
    result := some (.error message)
    retries := record.retries + 1 }

/-- The writes of a job. -/
def settle (record : KycVerification) (job : VerificationJob) (data : ProviderData) :
    VerificationM Unit := do
  save job.verificationId (settled record data)
  match jobStatus data with
  | .verified => updateAccount job.accountId
  | .pending => addJob setting job
  | .failed => return ()

def validateJob (job : VerificationJob) : VerificationM Unit :=
  match setting.verifications, setting.config with
  | true, some config => do
    let record ← findOneByOrFail job.verificationId
    Program.handle (do settle setting record job (← resume (ask setting config job)))
      fun message => do
        save job.verificationId (rejected record message)
        throw message
  | _, _ => throw "KYC verification not configured"

def requestVerification (accountId name birthdate ip : String) : VerificationM Unit :=
  if setting.verifications then do
    let id ← insert accountId (setting.providerName.getD "unknown")
    let job : VerificationJob := ⟨id, accountId, name, birthdate, ip⟩
    if setting.connected then enqueue job else validateJob setting job
  else throw "KYC verification store not configured"

/-- The record as an update of the provider saves it. -/
def updated (record : KycVerification) (result : ProviderData) : KycVerification :=
  { record with
    result := some (.data result)
    status := if result.status = "approved" then .verified else .failed }

def handleProviderUpdate (verificationId : ℕ) (result : ProviderData) : VerificationM Unit :=
  if setting.verifications then do
    let record ← findOneByOrFail verificationId
    if result.status = "approved" then
      updateAccount record.accountId
    save verificationId (updated record result)
  else return ()

end Operations

/-! ### Runs -/

inductive Operation where
  | requestVerification (accountId name birthdate ip : String)
  | validateJob (job : VerificationJob)
  | handleProviderUpdate (verificationId : ℕ) (result : ProviderData)

def Operation.body (setting : Setting) : Operation → VerificationM Unit
  | .requestVerification accountId name birthdate ip =>
    Verification.requestVerification setting accountId name birthdate ip
  | .validateJob job => Verification.validateJob setting job
  | .handleProviderUpdate verificationId result =>
    Verification.handleProviderUpdate setting verificationId result

/-- A call of an operation, with what it finds and the commands that fail in it. -/
structure Call where
  op : Operation
  setting : Setting
  down : Cmd → Bool

def Call.run (c : Call) (s : KycStore) : KycStore :=
  ((c.op.body c.setting).runDown Cmd.exec c.down s).2

/-- The jobs that the worker runs come out of the queue, each any number of times. -/
def Call.Queued (s : KycStore) (c : Call) : Prop :=
  match c.op with
  | .validateJob job => job ∈ s.jobs
  | _ => True

instance (s : KycStore) : (c : Call) → Decidable (c.Queued s)
  | ⟨.validateJob job, _, _⟩ => inferInstanceAs (Decidable (job ∈ s.jobs))
  | ⟨.requestVerification _ _ _ _, _, _⟩ => isTrue trivial
  | ⟨.handleProviderUpdate _ _, _, _⟩ => isTrue trivial

/-- The jobs in the queue belong to the accounts of their records. -/
def JobsMatch (s : KycStore) : Prop :=
  ∀ job ∈ s.jobs, ∃ record, s.verifications[job.verificationId]? = some record ∧
    record.accountId = job.accountId

/-- The calls, one after another, from a store in which the account is unverified and has no
record. -/
def verificationRuns (accountId : String) : TransitionSystem KycStore Call where
  init s := JobsMatch s ∧ accountId ∉ s.kycVerified ∧
    ∀ record ∈ s.verifications, record.accountId ≠ accountId
  step s c s' := c.Queued s ∧ s' = c.run s

/-- The flag of the account is set exactly when some record of it is verified. -/
def FlagAgrees (accountId : String) (s : KycStore) : Prop :=
  accountId ∈ s.kycVerified ↔
    ∃ record ∈ s.verifications, record.accountId = accountId ∧ record.status = .verified

/-- A record other than that of `id` is verified for the account. -/
def OtherVerified (accountId : String) (s : KycStore) (id : ℕ) : Prop :=
  ∃ j record, j ≠ id ∧ s.verifications[j]? = some record ∧ record.accountId = accountId ∧
    record.status = .verified

/-- The record is the only verified one of the account. -/
def OnlyVerified (accountId : String) (s : KycStore) (id : ℕ) (record : KycVerification) : Prop :=
  record.status = .verified ∧ ¬ OtherVerified accountId s id

/-- A job that is run on a record of the account, in a setting that is configured, takes no last
`verified` away, and does not stop between the two writes of an approval. -/
def JobSteady (accountId : String) (setting : Setting) (down : Cmd → Bool) (s : KycStore)
    (job : VerificationJob) : Prop :=
  ∀ config record, setting.verifications = true → setting.config = some config →
    down (.find job.verificationId) = false →
    s.verifications[job.verificationId]? = some record → record.accountId = accountId →
    match ask setting config job with
    | .error message =>
      OnlyVerified accountId s job.verificationId record →
        down (.save job.verificationId (rejected record message)) = true
    | .ok data =>
      if jobStatus data = .verified then
        down (.save job.verificationId (settled record data)) = true ∨
            down (.updateAccount accountId) = true →
          (OnlyVerified accountId s job.verificationId record →
            down (.save job.verificationId (rejected record unavailable)) = true) ∧
          (down (.save job.verificationId (settled record data)) = false →
            down (.save job.verificationId (rejected record unavailable)) = true →
              accountId ∈ s.kycVerified)
      else OnlyVerified accountId s job.verificationId record →
        down (.save job.verificationId (settled record data)) = true ∧
          down (.save job.verificationId (rejected record unavailable)) = true

/-- An update of the provider does so. -/
def UpdateSteady (accountId : String) (setting : Setting) (down : Cmd → Bool) (s : KycStore)
    (id : ℕ) (result : ProviderData) : Prop :=
  ∀ record, setting.verifications = true → down (.find id) = false →
    s.verifications[id]? = some record → record.accountId = accountId →
    if result.status = "approved" then
      down (.updateAccount accountId) = false → down (.save id (updated record result)) = true →
        ∃ record ∈ s.verifications, record.accountId = accountId ∧ record.status = .verified
    else OnlyVerified accountId s id record → down (.save id (updated record result)) = true

/-- The store after a request was recorded. -/
def recorded (setting : Setting) (accountId : String) (s : KycStore) : KycStore :=
  (Cmd.exec (.insert accountId (setting.providerName.getD "unknown")) s).2

def Steady (accountId : String) (s : KycStore) (c : Call) : Prop :=
  match c.op with
  | .requestVerification account name birthdate ip =>
    c.setting.connected = false →
      c.down (.insert account (c.setting.providerName.getD "unknown")) = false →
      JobSteady accountId c.setting c.down (recorded c.setting account s)
        ⟨s.verifications.length, account, name, birthdate, ip⟩
  | .validateJob job => JobSteady accountId c.setting c.down s job
  | .handleProviderUpdate id result => UpdateSteady accountId c.setting c.down s id result

/-! ### What a job writes -/

/-- The record is saved, unless the command fails. -/
def saveUnless (down : Cmd → Bool) (id : ℕ) (record : KycVerification) (s : KycStore) : KycStore :=
  if down (.save id record) then s else (Cmd.exec (.save id record) s).2

section Job

variable {accountId : String} {setting : Setting} {down : Cmd → Bool} {s : KycStore}
  {job : VerificationJob} {config : KycConfig} {record : KycVerification} {id : ℕ}

@[simp] lemma run_insert (provider : String) :
    (insert accountId provider).runDown Cmd.exec down s =
      if down (.insert accountId provider) then (.error unavailable, s)
      else (.ok s.verifications.length, (Cmd.exec (.insert accountId provider) s).2) :=
  runDown_command Cmd.exec down unavailable _ s

@[simp] lemma run_findOneBy :
    (findOneBy id).runDown Cmd.exec down s =
      if down (.find id) then (.error unavailable, s) else (.ok s.verifications[id]?, s) :=
  runDown_command Cmd.exec down unavailable _ s

@[simp] lemma run_save :
    (save id record).runDown Cmd.exec down s =
      if down (.save id record) then (.error unavailable, s)
      else (.ok (), (Cmd.exec (.save id record) s).2) :=
  runDown_command Cmd.exec down unavailable _ s

@[simp] lemma run_updateAccount :
    (updateAccount accountId).runDown Cmd.exec down s =
      if down (.updateAccount accountId) then (.error unavailable, s)
      else (.ok (), (Cmd.exec (.updateAccount accountId) s).2) :=
  runDown_command Cmd.exec down unavailable _ s

@[simp] lemma run_enqueue :
    (enqueue job).runDown Cmd.exec down s =
      if down (.addJob job) then (.error unavailable, s)
      else (.ok (), (Cmd.exec (.addJob job) s).2) :=
  runDown_command Cmd.exec down unavailable _ s

lemma run_findOneByOrFail (hdown : down (.find id) = false)
    (hfind : s.verifications[id]? = some record) :
    (findOneByOrFail id).runDown Cmd.exec down s = (.ok record, s) := by
  simp [findOneByOrFail, hdown, hfind]

/-- What becomes of the store in a job that has found its record. -/
lemma run_validateJob (hv : setting.verifications = true) (hc : setting.config = some config)
    (hdown : down (.find job.verificationId) = false)
    (hfind : s.verifications[job.verificationId]? = some record) :
    ((validateJob setting job).runDown Cmd.exec down s).2 =
      match ask setting config job with
      | .error message => saveUnless down job.verificationId (rejected record message) s
      | .ok data =>
        if down (.save job.verificationId (settled record data)) then
          saveUnless down job.verificationId (rejected record unavailable) s
        else
          let s' := (Cmd.exec (.save job.verificationId (settled record data)) s).2
          match jobStatus data with
          | .verified =>
            if down (.updateAccount job.accountId) then
              saveUnless down job.verificationId (rejected record unavailable) s'
            else (Cmd.exec (.updateAccount job.accountId) s').2
          | .pending =>
            if setting.connected then
              if down (.addJob job) then
                saveUnless down job.verificationId (rejected record unavailable) s'
              else (Cmd.exec (.addJob job) s').2
            else s'
          | .failed => s' := by
  rw [validateJob, hv, hc]
  simp only [runDown_bind, run_findOneByOrFail hdown hfind, runDown_handle, runDown_resume]
  have hreject : ∀ message s', ((do
      save job.verificationId (rejected record message)
      throw message : VerificationM Unit).runDown Cmd.exec down s').2 =
        saveUnless down job.verificationId (rejected record message) s' := by
    intro message s'
    cases hsave : down (.save job.verificationId (rejected record message)) <;>
      simp [saveUnless, hsave]
  cases ask setting config job with
  | error message => simpa using hreject message s
  | ok data =>
    cases hsave : down (.save job.verificationId (settled record data)) with
    | true => simpa [settle, hsave] using hreject unavailable s
    | false =>
      cases hstatus : jobStatus data with
      | verified =>
        cases hupdate : down (.updateAccount job.accountId) with
        | true => simpa [settle, hsave, hstatus, hupdate] using hreject unavailable _
        | false => simp [settle, hsave, hstatus, hupdate]
      | pending =>
        cases hconnected : setting.connected with
        | false => simp [settle, hsave, hstatus, addJob, hconnected]
        | true =>
          cases hadd : down (.addJob job) with
          | true => simpa [settle, hsave, hstatus, addJob, hconnected, hadd] using hreject unavailable _
          | false => simp [settle, hsave, hstatus, addJob, hconnected, hadd]
      | failed => simp [settle, hsave, hstatus]

end Job

/-! ### The flag and the records -/

section Agreement

variable {accountId : String} {setting : Setting} {down : Cmd → Bool} {s s' : KycStore}
  {job : VerificationJob} {config : KycConfig} {record record' : KycVerification} {id : ℕ}

/-- The elements of a list are the one at a place and those at other places. -/
lemma exists_mem_iff_of_getElem? {α : Type*} {P : α → Prop} {l : List α} {i : ℕ} {a : α}
    (h : l[i]? = some a) :
    (∃ b ∈ l, P b) ↔ P a ∨ ∃ j b, j ≠ i ∧ l[j]? = some b ∧ P b := by
  constructor
  · rintro ⟨b, hb, hP⟩
    obtain ⟨j, hj⟩ := List.mem_iff_getElem?.mp hb
    rcases eq_or_ne j i with rfl | hne
    · rw [h] at hj
      cases hj
      exact Or.inl hP
    · exact Or.inr ⟨j, b, hne, hj, hP⟩
  · rintro (hP | ⟨j, b, -, hj, hP⟩)
    · exact ⟨a, List.mem_of_getElem? h, hP⟩
    · exact ⟨b, List.mem_of_getElem? hj, hP⟩

/-- The flag, by the record of `id` and the others. -/
lemma flagAgrees_iff (hfind : s.verifications[id]? = some record) :
    FlagAgrees accountId s ↔
      (accountId ∈ s.kycVerified ↔
        (record.accountId = accountId ∧ record.status = .verified) ∨ OtherVerified accountId s id) :=
  iff_congr Iff.rfl (exists_mem_iff_of_getElem? hfind)

/-- The flag after the record of `id` was saved. -/
lemma flagAgrees_save_iff (hfind : s.verifications[id]? = some record)
    (hs' : s'.verifications = s.verifications.set id record') :
    FlagAgrees accountId s' ↔
      (accountId ∈ s'.kycVerified ↔
        (record'.accountId = accountId ∧ record'.status = .verified) ∨
          OtherVerified accountId s id) := by
  have hlength : id < s.verifications.length := (List.getElem?_eq_some_iff.mp hfind).1
  have hset : s'.verifications[id]? = some record' := by simp [hs', hlength]
  have hother : OtherVerified accountId s' id ↔ OtherVerified accountId s id := by
    refine exists_congr fun j => exists_congr fun r => and_congr_right fun hne => ?_
    rw [hs', List.getElem?_set_ne hne.symm]
  rw [flagAgrees_iff hset, hother]

/-- Saving the record of another account. -/
lemma FlagAgrees.save_of_ne (record' : KycVerification) (h : FlagAgrees accountId s)
    (hfind : s.verifications[id]? = some record) (hne : record.accountId ≠ accountId)
    (hrecord' : record'.accountId = record.accountId)
    (hs' : s'.verifications = s.verifications.set id record')
    (hflag : accountId ∈ s'.kycVerified ↔ accountId ∈ s.kycVerified) :
    FlagAgrees accountId s' := by
  rw [flagAgrees_iff hfind] at h
  rw [flagAgrees_save_iff hfind hs', hflag, hrecord', h]
  simp [hne]

/-- Saving the record when it is not the last verified one, or as a verified one with the flag. -/
lemma FlagAgrees.save (record' : KycVerification) (h : FlagAgrees accountId s)
    (hfind : s.verifications[id]? = some record)
    (hrecord : record.accountId = accountId) (hrecord' : record'.accountId = record.accountId)
    (hs' : s'.verifications = s.verifications.set id record')
    (hverified : record'.status = .verified → accountId ∈ s'.kycVerified)
    (hother : record'.status ≠ .verified →
      (accountId ∈ s'.kycVerified ↔ accountId ∈ s.kycVerified) ∧
        ¬ OnlyVerified accountId s id record) :
    FlagAgrees accountId s' := by
  rw [flagAgrees_iff hfind] at h
  rw [flagAgrees_save_iff hfind hs', hrecord', hrecord]
  by_cases hstatus : record'.status = .verified
  · simp [hstatus, hverified hstatus]
  · obtain ⟨hflag, honly⟩ := hother hstatus
    rw [OnlyVerified] at honly
    simp only [hrecord, true_and] at h
    rw [hflag, h]
    simp only [hstatus, and_false, false_or]
    tauto

lemma flagAgrees_saveUnless (hs : down (.save id record') = true → FlagAgrees accountId s)
    (hsave : down (.save id record') = false →
      FlagAgrees accountId (Cmd.exec (.save id record') s).2) :
    FlagAgrees accountId (saveUnless down id record' s) := by
  rw [saveUnless]
  cases hdown : down (.save id record') with
  | true => exact hs hdown
  | false => exact hsave hdown

/-- What a call that has found the record of `id` may change. -/
structure Frame (record : KycVerification) (id : ℕ) (s s' : KycStore) : Prop where
  saved : ∃ record', record'.accountId = record.accountId ∧
    s'.verifications = s.verifications.set id record'
  flag : s'.kycVerified = s.kycVerified ∨ s'.kycVerified = record.accountId :: s.kycVerified
  jobs : ∀ job ∈ s'.jobs, job ∈ s.jobs ∨
    job.verificationId = id ∧ job.accountId = record.accountId

lemma Frame.refl (hfind : s.verifications[id]? = some record) : Frame record id s s where
  saved := by
    obtain ⟨hid, rfl⟩ := List.getElem?_eq_some_iff.mp hfind
    exact ⟨_, rfl, by simp⟩
  flag := Or.inl rfl
  jobs _ hjob := Or.inl hjob

lemma Frame.save (h : Frame record id s s') (hrecord' : record'.accountId = record.accountId) :
    Frame record id s (Cmd.exec (.save id record') s').2 where
  saved := by
    obtain ⟨r, -, hs'⟩ := h.saved
    exact ⟨record', hrecord', by simp [Cmd.exec, hs']⟩
  flag := h.flag
  jobs := h.jobs

lemma Frame.saveUnless (h : Frame record id s s') (hrecord' : record'.accountId = record.accountId) :
    Frame record id s (saveUnless down id record' s') := by
  rw [Verification.saveUnless]
  split
  · exact h
  · exact h.save hrecord'

/-- A job keeps to its record. -/
lemma frame_validateJob (hv : setting.verifications = true) (hc : setting.config = some config)
    (hdown : down (.find job.verificationId) = false)
    (hfind : s.verifications[job.verificationId]? = some record)
    (hmatch : record.accountId = job.accountId) :
    Frame record job.verificationId s ((validateJob setting job).runDown Cmd.exec down s).2 := by
  have hrefl : Frame record job.verificationId s s := .refl hfind
  rw [run_validateJob hv hc hdown hfind]
  cases ask setting config job with
  | error message => exact hrefl.saveUnless rfl
  | ok data =>
    have hsettled : Frame record job.verificationId s
        (Cmd.exec (.save job.verificationId (settled record data)) s).2 := hrefl.save rfl
    dsimp only
    split
    · exact hrefl.saveUnless rfl
    · cases jobStatus data with
      | verified =>
        dsimp only
        split
        · exact hsettled.saveUnless rfl
        · exact ⟨hsettled.saved, Or.inr (by simp [Cmd.exec, hmatch]), hsettled.jobs⟩
      | pending =>
        dsimp only
        split
        · split
          · exact hsettled.saveUnless rfl
          · refine ⟨hsettled.saved, hsettled.flag, fun j hj => ?_⟩
            rcases List.mem_append.mp hj with hj | hj
            · exact hsettled.jobs j hj
            · exact Or.inr (by simp_all)
        · exact hsettled
      | failed => exact hsettled

/-- Other accounts are not touched. -/
lemma FlagAgrees.of_frame (h : FlagAgrees accountId s) (hfind : s.verifications[id]? = some record)
    (hne : record.accountId ≠ accountId) (hframe : Frame record id s s') :
    FlagAgrees accountId s' := by
  obtain ⟨record', hrecord', hs'⟩ := hframe.saved
  refine h.save_of_ne record' hfind hne hrecord' hs' ?_
  rcases hframe.flag with hflag | hflag <;> simp [hflag, Ne.symm hne]

/-- The jobs go on matching their records. -/
lemma JobsMatch.of_frame (h : JobsMatch s) (hfind : s.verifications[id]? = some record)
    (hframe : Frame record id s s') : JobsMatch s' := by
  obtain ⟨record', hrecord', hs'⟩ := hframe.saved
  have hlength : id < s.verifications.length := (List.getElem?_eq_some_iff.mp hfind).1
  intro job hjob
  rcases hframe.jobs job hjob with hold | ⟨hid, haccount⟩
  · obtain ⟨r, hr, hmatch⟩ := h job hold
    by_cases hid : id = job.verificationId
    · have hr : r = record := by simpa [← hid, hfind] using hr.symm
      exact ⟨record', by simp [hs', ← hid, hlength], by rw [hrecord', ← hr, hmatch]⟩
    · exact ⟨r, by rw [hs', List.getElem?_set_ne hid, hr], hmatch⟩
  · exact ⟨record', by simp [hs', hid, hlength], by rw [hrecord', haccount]⟩

/-- The record that a `catch` saves is not verified. -/
lemma FlagAgrees.save_rejected (h : FlagAgrees accountId s)
    (hfind : s.verifications[id]? = some record) (hrecord : record.accountId = accountId)
    {message : String} (hs' : s'.verifications = s.verifications.set id (rejected record message))
    (hflag : s'.kycVerified = s.kycVerified) (honly : ¬ OnlyVerified accountId s id record) :
    FlagAgrees accountId s' :=
  h.save (rejected record message) hfind hrecord rfl hs' (fun hstatus => by cases hstatus)
    fun _ => ⟨by rw [hflag], honly⟩

/-- A job that is approved. -/
lemma FlagAgrees.validateJob_approved {data : ProviderData} (h : FlagAgrees accountId s)
    (hv : setting.verifications = true) (hc : setting.config = some config)
    (hdown : down (.find job.verificationId) = false)
    (hfind : s.verifications[job.verificationId]? = some record)
    (hmatch : record.accountId = job.accountId) (hrecord : record.accountId = accountId)
    (hask : ask setting config job = .ok data) (hstatus : jobStatus data = .verified)
    (hsteady : down (.save job.verificationId (settled record data)) = true ∨
        down (.updateAccount accountId) = true →
      (OnlyVerified accountId s job.verificationId record →
        down (.save job.verificationId (rejected record unavailable)) = true) ∧
      (down (.save job.verificationId (settled record data)) = false →
        down (.save job.verificationId (rejected record unavailable)) = true →
          accountId ∈ s.kycVerified)) :
    FlagAgrees accountId ((validateJob setting job).runDown Cmd.exec down s).2 := by
  rw [run_validateJob hv hc hdown hfind, hask]
  cases hsave : down (.save job.verificationId (settled record data)) with
  | true =>
    simp only [hsave, if_true]
    refine flagAgrees_saveUnless (fun _ => h) fun hrej =>
      h.save_rejected hfind hrecord rfl rfl fun honly => ?_
    exact absurd ((hsteady (Or.inl hsave)).1 honly) (by simp [hrej])
  | false =>
    -- the record is verified now, and the flag is the next write
    have hverified : ∀ s', s'.verifications =
        s.verifications.set job.verificationId (settled record data) →
        accountId ∈ s'.kycVerified → FlagAgrees accountId s' := fun s' hs' hflag =>
      h.save (settled record data) hfind hrecord rfl hs' (fun _ => hflag)
        fun hne => absurd hstatus hne
    have hjob : job.accountId = accountId := hmatch.symm.trans hrecord
    simp only [hsave, Bool.false_eq_true, if_false, hstatus, hjob]
    cases hupdate : down (.updateAccount accountId) with
    | true =>
      simp only [if_true]
      refine flagAgrees_saveUnless (fun hrej => hverified _ rfl ?_)
        fun hrej => h.save_rejected hfind hrecord (by simp [Cmd.exec]; rfl) rfl fun honly => ?_
      · exact (hsteady (Or.inr hupdate)).2 hsave hrej
      · exact absurd ((hsteady (Or.inr hupdate)).1 honly) (by simp [hrej])
    | false => exact hverified _ rfl (by simp [Cmd.exec, hjob])

/-- A job that is not approved, on a record that is not the last verified one. -/
lemma FlagAgrees.validateJob_denied {data : ProviderData} (h : FlagAgrees accountId s)
    (hv : setting.verifications = true) (hc : setting.config = some config)
    (hdown : down (.find job.verificationId) = false)
    (hfind : s.verifications[job.verificationId]? = some record)
    (hrecord : record.accountId = accountId)
    (hask : ask setting config job = .ok data) (hstatus : jobStatus data ≠ .verified)
    (hsteady : OnlyVerified accountId s job.verificationId record →
      down (.save job.verificationId (settled record data)) = true ∧
        down (.save job.verificationId (rejected record unavailable)) = true) :
    FlagAgrees accountId ((validateJob setting job).runDown Cmd.exec down s).2 := by
  rw [run_validateJob hv hc hdown hfind, hask]
  cases hsave : down (.save job.verificationId (settled record data)) with
  | true =>
    simp only [hsave, if_true]
    refine flagAgrees_saveUnless (fun _ => h) fun hrej =>
      h.save_rejected hfind hrecord rfl rfl fun honly => ?_
    exact absurd (hsteady honly).2 (by simp [hrej])
  | false =>
    have honly : ¬ OnlyVerified accountId s job.verificationId record :=
      fun honly => absurd (hsteady honly).1 (by simp [hsave])
    have hsettled : ∀ s', s'.verifications =
        s.verifications.set job.verificationId (settled record data) →
        s'.kycVerified = s.kycVerified → FlagAgrees accountId s' := fun s' hs' hflag =>
      h.save (settled record data) hfind hrecord rfl hs' (fun hverified => absurd hverified hstatus)
        fun _ => ⟨by rw [hflag], honly⟩
    have hrejected : FlagAgrees accountId (saveUnless down job.verificationId
        (rejected record unavailable)
        (Cmd.exec (.save job.verificationId (settled record data)) s).2) :=
      flagAgrees_saveUnless (fun _ => hsettled _ rfl rfl)
        fun _ => h.save_rejected hfind hrecord (by simp [Cmd.exec]; rfl) rfl honly
    simp only [hsave, Bool.false_eq_true, if_false]
    cases hj : jobStatus data with
    | verified => exact absurd hj hstatus
    | pending =>
      dsimp only
      split
      · split
        · exact hrejected
        · exact hsettled _ rfl rfl
      · exact hsettled _ rfl rfl
    | failed => exact hsettled _ rfl rfl

/-- A steady job on a record of the account. -/
lemma FlagAgrees.validateJob_of_eq (h : FlagAgrees accountId s)
    (hv : setting.verifications = true) (hc : setting.config = some config)
    (hdown : down (.find job.verificationId) = false)
    (hfind : s.verifications[job.verificationId]? = some record)
    (hmatch : record.accountId = job.accountId) (hrecord : record.accountId = accountId)
    (hsteady : JobSteady accountId setting down s job) :
    FlagAgrees accountId ((validateJob setting job).runDown Cmd.exec down s).2 := by
  have hst := hsteady config record hv hc hdown hfind hrecord
  cases hask : ask setting config job with
  | error message =>
    rw [hask] at hst
    rw [run_validateJob hv hc hdown hfind, hask]
    refine flagAgrees_saveUnless (fun _ => h) fun hrej =>
      h.save_rejected hfind hrecord rfl rfl fun honly => ?_
    exact absurd (hst honly) (by simp [hrej])
  | ok data =>
    rw [hask] at hst
    by_cases hstatus : jobStatus data = .verified
    · exact h.validateJob_approved hv hc hdown hfind hmatch hrecord hask hstatus
        (by simpa [hstatus] using hst)
    · exact h.validateJob_denied hv hc hdown hfind hrecord hask hstatus
        (by simpa [hstatus] using hst)

/-- A job whose record is not found, or that is run without its configuration, writes nothing. -/
lemma run_validateJob_of_missing
    (h : ¬ ∃ config record, setting.verifications = true ∧ setting.config = some config ∧
      down (.find job.verificationId) = false ∧
      s.verifications[job.verificationId]? = some record) :
    ((validateJob setting job).runDown Cmd.exec down s).2 = s := by
  cases hv : setting.verifications with
  | false => simp [validateJob, hv]
  | true =>
    cases hc : setting.config with
    | none => simp [validateJob, hv, hc]
    | some config =>
      cases hdown : down (.find job.verificationId) with
      | true => simp [validateJob, hv, hc, findOneByOrFail, hdown]
      | false =>
        cases hfind : s.verifications[job.verificationId]? with
        | none => simp [validateJob, hv, hc, findOneByOrFail, hdown, hfind]
        | some record => exact absurd ⟨config, record, hv, hc, hdown, hfind⟩ h

/-- What a steady job keeps. -/
lemma agrees_validateJob (hjobs : JobsMatch s) (h : FlagAgrees accountId s)
    (hmatch : ∀ record, s.verifications[job.verificationId]? = some record →
      record.accountId = job.accountId)
    (hsteady : JobSteady accountId setting down s job) :
    JobsMatch ((validateJob setting job).runDown Cmd.exec down s).2 ∧
      FlagAgrees accountId ((validateJob setting job).runDown Cmd.exec down s).2 := by
  by_cases hfound : ∃ config record, setting.verifications = true ∧ setting.config = some config ∧
      down (.find job.verificationId) = false ∧
      s.verifications[job.verificationId]? = some record
  · obtain ⟨config, record, hv, hc, hdown, hfind⟩ := hfound
    have hframe := frame_validateJob hv hc hdown hfind (hmatch record hfind)
    refine ⟨hjobs.of_frame hfind hframe, ?_⟩
    by_cases hrecord : record.accountId = accountId
    · exact h.validateJob_of_eq hv hc hdown hfind (hmatch record hfind) hrecord hsteady
    · exact h.of_frame hfind hrecord hframe
  · rw [run_validateJob_of_missing hfound]
    exact ⟨hjobs, h⟩

/-- What becomes of the store in an update of the provider that has found its record. -/
lemma run_handleProviderUpdate {result : ProviderData} (hv : setting.verifications = true)
    (hdown : down (.find id) = false) (hfind : s.verifications[id]? = some record) :
    ((handleProviderUpdate setting id result).runDown Cmd.exec down s).2 =
      if result.status = "approved" then
        if down (.updateAccount record.accountId) then s
        else saveUnless down id (updated record result)
          (Cmd.exec (.updateAccount record.accountId) s).2
      else saveUnless down id (updated record result) s := by
  rw [handleProviderUpdate, hv, if_pos rfl]
  simp only [runDown_bind, run_findOneByOrFail hdown hfind]
  by_cases hstatus : result.status = "approved"
  · cases hupdate : down (.updateAccount record.accountId) with
    | true => simp [hstatus, hupdate]
    | false =>
      cases hsave : down (.save id (updated record result)) <;>
        simp [hstatus, hupdate, hsave, saveUnless]
  · cases hsave : down (.save id (updated record result)) <;>
      simp [hstatus, hsave, saveUnless]

lemma run_handleProviderUpdate_of_missing {result : ProviderData}
    (h : ¬ ∃ record, setting.verifications = true ∧ down (.find id) = false ∧
      s.verifications[id]? = some record) :
    ((handleProviderUpdate setting id result).runDown Cmd.exec down s).2 = s := by
  cases hv : setting.verifications with
  | false => simp [handleProviderUpdate, hv]
  | true =>
    cases hdown : down (.find id) with
    | true => simp [handleProviderUpdate, hv, findOneByOrFail, hdown]
    | false =>
      cases hfind : s.verifications[id]? with
      | none => simp [handleProviderUpdate, hv, findOneByOrFail, hdown, hfind]
      | some record => exact absurd ⟨record, hv, hdown, hfind⟩ h

lemma frame_handleProviderUpdate {result : ProviderData} (hv : setting.verifications = true)
    (hdown : down (.find id) = false) (hfind : s.verifications[id]? = some record) :
    Frame record id s ((handleProviderUpdate setting id result).runDown Cmd.exec down s).2 := by
  have hrefl : Frame record id s s := .refl hfind
  rw [run_handleProviderUpdate hv hdown hfind]
  split
  · split
    · exact hrefl
    · exact Frame.saveUnless ⟨hrefl.saved, Or.inr rfl, hrefl.jobs⟩ rfl
  · exact hrefl.saveUnless rfl

/-- A steady update on a record of the account. -/
lemma FlagAgrees.handleProviderUpdate_of_eq {result : ProviderData} (h : FlagAgrees accountId s)
    (hv : setting.verifications = true) (hdown : down (.find id) = false)
    (hfind : s.verifications[id]? = some record) (hrecord : record.accountId = accountId)
    (hsteady : UpdateSteady accountId setting down s id result) :
    FlagAgrees accountId
      ((handleProviderUpdate setting id result).runDown Cmd.exec down s).2 := by
  have hst := hsteady record hv hdown hfind hrecord
  rw [run_handleProviderUpdate hv hdown hfind, hrecord]
  by_cases hstatus : result.status = "approved"
  · rw [if_pos hstatus] at hst ⊢
    cases hupdate : down (.updateAccount accountId) with
    | true => exact h
    | false =>
      refine flagAgrees_saveUnless (fun hsave => ?_) fun hsave => ?_
      · -- the flag is set, and the record is not saved
        obtain hverified := hst hupdate hsave
        exact iff_of_true List.mem_cons_self hverified
      · exact h.save (updated record result) hfind hrecord rfl rfl (fun _ => List.mem_cons_self)
          fun hne => absurd (by simp [updated, hstatus]) hne
  · rw [if_neg hstatus] at hst ⊢
    refine flagAgrees_saveUnless (fun _ => h) fun hsave =>
      h.save (updated record result) hfind hrecord rfl rfl (fun hv => ?_) fun _ => ⟨Iff.rfl, ?_⟩
    · simp [updated, hstatus] at hv
    · exact fun honly => absurd (hst honly) (by simp [hsave])

/-- What a steady update keeps. -/
lemma agrees_handleProviderUpdate {result : ProviderData} (hjobs : JobsMatch s)
    (h : FlagAgrees accountId s) (hsteady : UpdateSteady accountId setting down s id result) :
    JobsMatch ((handleProviderUpdate setting id result).runDown Cmd.exec down s).2 ∧
      FlagAgrees accountId
        ((handleProviderUpdate setting id result).runDown Cmd.exec down s).2 := by
  by_cases hfound : ∃ record, setting.verifications = true ∧ down (.find id) = false ∧
      s.verifications[id]? = some record
  · obtain ⟨record, hv, hdown, hfind⟩ := hfound
    have hframe : Frame record id s
        ((handleProviderUpdate setting id result).runDown Cmd.exec down s).2 :=
      frame_handleProviderUpdate hv hdown hfind
    refine ⟨hjobs.of_frame hfind hframe, ?_⟩
    by_cases hrecord : record.accountId = accountId
    · exact h.handleProviderUpdate_of_eq hv hdown hfind hrecord hsteady
    · exact h.of_frame hfind hrecord hframe
  · rw [run_handleProviderUpdate_of_missing hfound]
    exact ⟨hjobs, h⟩

/-- A new record is pending, and has the next place. -/
lemma agrees_recorded (setting : Setting) (account : String) (hjobs : JobsMatch s)
    (h : FlagAgrees accountId s) :
    JobsMatch (recorded setting account s) ∧ FlagAgrees accountId (recorded setting account s) ∧
      ∀ record, (recorded setting account s).verifications[s.verifications.length]? = some record →
        record.accountId = account := by
  refine ⟨fun job hjob => ?_, ?_, fun record hrecord => ?_⟩
  · obtain ⟨record, hfind, hmatch⟩ := hjobs job hjob
    have hlength : job.verificationId < s.verifications.length :=
      (List.getElem?_eq_some_iff.mp hfind).1
    exact ⟨record, by rw [recorded, Cmd.exec, List.getElem?_append_left hlength, hfind], hmatch⟩
  · rw [FlagAgrees] at h ⊢
    simp only [recorded, Cmd.exec, List.mem_append, List.mem_singleton, or_and_right, exists_or, h]
    simp
  · simp only [recorded, Cmd.exec, List.getElem?_concat_length, Option.some.injEq] at hrecord
    rw [← hrecord]

/-- What a steady request keeps. -/
lemma agrees_requestVerification {account name birthdate ip : String} (hjobs : JobsMatch s)
    (h : FlagAgrees accountId s)
    (hsteady : setting.connected = false →
      down (.insert account (setting.providerName.getD "unknown")) = false →
      JobSteady accountId setting down (recorded setting account s)
        ⟨s.verifications.length, account, name, birthdate, ip⟩) :
    JobsMatch ((requestVerification setting account name birthdate ip).runDown Cmd.exec down s).2 ∧
      FlagAgrees accountId
        ((requestVerification setting account name birthdate ip).runDown Cmd.exec down s).2 := by
  obtain ⟨hjobs', h', hnew⟩ := agrees_recorded setting account hjobs h
  cases hv : setting.verifications with
  | false => simpa [requestVerification, hv] using ⟨hjobs, h⟩
  | true =>
    cases hinsert : down (.insert account (setting.providerName.getD "unknown")) with
    | true => simpa [requestVerification, hv, hinsert] using ⟨hjobs, h⟩
    | false =>
      cases hconnected : setting.connected with
      | false =>
        have hkeeps := agrees_validateJob hjobs' h' hnew (hsteady hconnected hinsert)
        simpa [requestVerification, hv, hinsert, hconnected, recorded] using hkeeps
      | true =>
        cases hadd : down (.addJob ⟨s.verifications.length, account, name, birthdate, ip⟩) with
        | true =>
          simpa [requestVerification, hv, hinsert, hconnected, hadd, recorded] using
            And.intro hjobs' h'
        | false =>
          have hqueued : JobsMatch (Cmd.exec (.addJob ⟨s.verifications.length, account, name,
              birthdate, ip⟩) (recorded setting account s)).2 := by
            intro job hjob
            rcases List.mem_append.mp hjob with hjob | hjob
            · exact hjobs' job hjob
            · obtain rfl := List.mem_singleton.mp hjob
              exact ⟨_, by simp [recorded, Cmd.exec]; rfl, rfl⟩
          have hagrees : FlagAgrees accountId (Cmd.exec (.addJob ⟨s.verifications.length, account,
              name, birthdate, ip⟩) (recorded setting account s)).2 := h'
          simpa [requestVerification, hv, hinsert, hconnected, hadd, recorded] using
            And.intro hqueued hagrees

end Agreement

/-! ### Every run -/

/-- In every run whose calls are steady, the flag agrees with the records in every state reached. -/
theorem flag_iff_of_steady {accountId : String} {s : KycStore}
    (h : ((verificationRuns accountId).restrict (Steady accountId)).Reachable s) :
    FlagAgrees accountId s := by
  have hboth : JobsMatch s ∧ FlagAgrees accountId s := by
    refine h.invariant (I := fun s => JobsMatch s ∧ FlagAgrees accountId s) ?_ ?_
    · rintro s ⟨hjobs, hflag, hrecords⟩
      refine ⟨hjobs, iff_of_false hflag ?_⟩
      rintro ⟨record, hrecord, haccount, -⟩
      exact hrecords record hrecord haccount
    · rintro s ⟨op, setting, down⟩ _ ⟨hjobs, hagrees⟩ ⟨hsteady, hqueued, rfl⟩
      cases op with
      | requestVerification account name birthdate ip =>
        exact agrees_requestVerification hjobs hagrees hsteady
      | validateJob job =>
        obtain ⟨record, hfind, hmatch⟩ := hjobs job hqueued
        refine agrees_validateJob hjobs hagrees (fun r hr => ?_) hsteady
        rw [hfind] at hr
        cases hr
        exact hmatch
      | handleProviderUpdate id result =>
        exact agrees_handleProviderUpdate hjobs hagrees hsteady
  exact hboth.2

/-- A setting in which the provider gives one answer, and no command fails. -/
def answering (answer : Except String ProviderData) : Setting where
  service := plainService
  providerName := none
  verifications := true
  config := some ⟨some "https://kyc", some "key"⟩
  connected := true
  fetchJson _ _ _ := answer

/-- A call in that setting. -/
def Operation.answered (op : Operation) (answer : Except String ProviderData) : Call :=
  ⟨op, answering answer, fun _ => false⟩

/-- The job of the first request. -/
def firstJob : VerificationJob :=
  ⟨0, "1", "Ada", "1815-12-10", "10.0.0.1"⟩

/-- The provider keeps the job waiting, and approves it later. -/
def approvedLater : List Call :=
  [(Operation.requestVerification "1" "Ada" "1815-12-10" "10.0.0.1").answered (.ok ⟨"pending"⟩),
    (Operation.validateJob firstJob).answered (.ok ⟨"pending"⟩),
    (Operation.handleProviderUpdate 0 ⟨"approved"⟩).answered (.ok ⟨"pending"⟩)]

lemma reachable_empty (accountId : String) (ok : KycStore → Call → Prop) :
    ((verificationRuns accountId).restrict ok).Reachable ⟨[], [], []⟩ :=
  .of_init ⟨by simp [JobsMatch], by simp, by simp⟩

lemma step_of_queued (accountId : String) (s : KycStore) (c : Call) (h : c.Queued s) :
    (verificationRuns accountId).step s c (c.run s) := ⟨h, rfl⟩

theorem flag_iff_of_steady_approvedLater :
    FlagAgrees "1" (approvedLater.foldl (fun s c => c.run s) ⟨[], [], []⟩) := by
  refine flag_iff_of_steady (Reachable.foldl_of_guard (step_of_queued "1")
    (reachable_empty "1" (Steady "1")) ⟨⟨trivial, ?_⟩, ⟨?_, ?_⟩, ⟨trivial, ?_⟩, trivial⟩)
  · rintro ⟨⟩
  · decide
  · rintro config record - hconfig - hfind -
    cases hconfig
    cases hfind
    rintro ⟨hstatus, -⟩
    cases hstatus
  · rintro record - - hfind - - ⟨⟩

/-- The waiting job is run again after the approval, and the provider does not answer. -/
def runAgain : List Call :=
  approvedLater ++ [(Operation.validateJob firstJob).answered (.error "Request failed")]

/-- The record is `failed` then, and the flag is still set. -/
theorem rerun_disagrees :
    ¬ ∀ (accountId : String) (s : KycStore),
      (verificationRuns accountId).Reachable s → FlagAgrees accountId s := by
  intro h
  have hreach : ((verificationRuns "1").restrict fun _ _ => True).Reachable
      (runAgain.foldl (fun s c => c.run s) ⟨[], [], []⟩) :=
    Reachable.foldl_of_guard (step_of_queued "1") (reachable_empty "1" _) (by decide)
  have hagrees := h "1" _ hreach.of_restrict
  revert hagrees
  rw [FlagAgrees]
  decide

end Verification

end Pokerhub.Kyc
