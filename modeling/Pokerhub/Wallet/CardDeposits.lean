import Pokerhub.Core.Service
import Pokerhub.Wallet.Postings

/-!
# Card deposits

The callbacks of the payment provider, from the controller through the provider's service, which
sees to it that an event is handled once and retried if that fails, to `confirm3DS` of the wallet.
Controller and wallet mark the events that they have seen under the same key, so the wallet takes
every event that the controller passes on for a duplicate.
-/

namespace Pokerhub.Wallet

open List Program

/-! ### Callbacks -/

/-- `data.object` of a callback. -/
structure PaymentIntent where
  id : String
  status : Option String
  /-- `metadata?.idempotencyKey` -/
  idempotencyKey : Option String
  deriving DecidableEq, Repr

/-- The body of a callback. -/
structure ProviderPayload where
  type : Option String
  id : Option String
  object : Option PaymentIntent
  deriving DecidableEq, Repr

def PaymentIntent.providerStatus (intent : PaymentIntent) : ProviderStatus :=
  if intent.status = some "succeeded" then .approved
  else if intent.status = some "requires_action" then .risky
  else .chargeback

section Callbacks

variable (config : Config)

/-- `handleWebhook` of the provider's service, with the handler that is registered. -/
def handleWebhook (event : ProviderCallback) (handler : ProviderCallback → WalletM Unit) :
    WalletM Unit := do
  let stored ← run (.setNx (.providerWebhook event.idempotencyKey) event)
  if !stored then return ()
  else
    (do
      handler event
      run (.del (.providerWebhook event.idempotencyKey))).handle fun err =>
    if config.queueConnected then run (.addRetry event)
    else throw err

/-- What the worker of the queue `provider-webhook-retry` does with a job. -/
def retryWebhook (event : ProviderCallback) (handler : ProviderCallback → WalletM Unit) :
    WalletM Unit := do
  handler event
  run (.del (.providerWebhook event.idempotencyKey))

/-- `confirm3DS` of the provider's service. -/
def providerConfirm3DS (payload : ProviderPayload) (handler : ProviderCallback → WalletM Unit) :
    WalletM Unit :=
  if !payload.type.any (·.startsWith "payment_intent.") then throw "invalid event type"
  else
    match payload.object with
    | none => throw "invalid event payload"
    | some intent =>
      if intent.id = "" then throw "invalid event payload"
      else
        handleWebhook config
          { eventId := payload.id.getD intent.id
            idempotencyKey := intent.idempotencyKey.getD intent.id
            providerTxnId := intent.id
            status := intent.providerStatus } handler

/-- `WebhookController.callback`: `eventId` is the header `x-event-id`, `signed` the result of
`verifySignature`. -/
def callback (eventId : Option String) (signed : Bool) (payload : ProviderPayload)
    (handler : ProviderCallback → WalletM Unit) : WalletM Unit :=
  match eventId with
  | none => throw "missing event id"
  | some eventId =>
    if eventId = "" then throw "missing event id"
    else if !signed then throw "invalid signature"
    else do
      let stored ← run (.setNx (.webhook eventId) ())
      if !stored then return ()
      else providerConfirm3DS config payload handler

end Callbacks

/-! ### The service -/

/-- The store, and whether the time to live of the challenge is over. -/
structure ChallengeStore where
  store : Store
  expired : Bool := false

def ChallengeStore.exec (c : Cmd) (s : ChallengeStore) : c.Answer × ChallengeStore :=
  ((c.exec s.store).1, { s with store := (c.exec s.store).2 })

/-- A callback, or a job of the retry queue. The ids that the wallet may draw are fresh. -/
inductive CallbackOp where
  | callback (eventId : Option String) (signed : Bool) (payload : ProviderPayload)
      (ref disbId idempotencyKey : String)
  | retry (event : ProviderCallback) (ref disbId idempotencyKey : String)
  deriving DecidableEq, Repr

/-- The journal entry credits the challenge `id` to its user. -/
def JournalEntry.creditsChallenge (id : String) (ch : Challenge) (j : JournalEntry) : Bool :=
  j.providerTxnId == some id && j.accountId == ch.accountId && j.amount == ch.amount

/-- How many times the challenge was credited. -/
def Store.creditsOf (s : Store) (id : String) (ch : Challenge) : ℕ :=
  s.journals.countP (JournalEntry.creditsChallenge id ch)

section Service

variable (sha256 : String → String) (config : Config) (id : String) (ch : Challenge)

def CallbackOp.body : CallbackOp → WalletM Unit
  | .callback eventId signed payload ref disbId key =>
    Wallet.callback config eventId signed payload fun event =>
      confirm3DS sha256 config event ref disbId key
  | .retry event ref disbId key =>
    retryWebhook event fun event => confirm3DS sha256 config event ref disbId key

/-- The signed callbacks for the challenge `id`, whose header is the id of the payload, and their
retries. Every command may fail. The challenge is stored for ten minutes and the mark of an event
for a day, so the marks last as long as the challenge; the key of `handleWebhook` may expire at any
time. -/
def callbackService : Service Cmd.Answer String Unit ChallengeStore CallbackOp where
  init s := s.expired = false ∧ s.store.redis (.challenge id) = some ch ∧
    (∀ j ∈ s.store.journals, j.providerTxnId ≠ some id) ∧
    ∀ event ∈ s.store.retries, event.providerTxnId ≠ id
  ready s
    | .callback eventId signed payload _ _ _ =>
      signed = true ∧ payload.id = eventId ∧ payload.object.map (·.id) = some id
    | .retry event _ _ _ => event ∈ s.store.retries ∧ event.providerTxnId = id
  body := CallbackOp.body sha256 config
  exec _ := ChallengeStore.exec
  fails _ _ := True
  env s s' :=
    s' = { store := s.store.setKey (.challenge id) none, expired := true } ∨
    (∃ key, s' = { s with store := s.store.setKey (.providerWebhook key) none }) ∨
    s.expired = true ∧ ∃ eventId, s' = { s with store := s.store.setKey (.webhook eventId) none }

instance (s : ChallengeStore) :
    (op : CallbackOp) → Decidable ((callbackService sha256 config id ch).ready s op)
  | .callback eventId signed payload _ _ _ => inferInstanceAs (Decidable
      (signed = true ∧ payload.id = eventId ∧ payload.object.map (·.id) = some id))
  | .retry event _ _ _ => inferInstanceAs (Decidable
      (event ∈ s.store.retries ∧ event.providerTxnId = id))

instance (s : ChallengeStore) (c : Cmd) :
    Decidable ((callbackService sha256 config id ch).fails s c) :=
  isTrue trivial

end Service

/-- A callback with the status `succeeded` that was answered with success. -/
def AnsweredSucceeded (t : CallbackOp × WalletM Unit) : Prop :=
  t.2.outcome = some (.ok ()) ∧ ∃ eventId signed payload ref disbId key,
    t.1 = .callback eventId signed payload ref disbId key ∧
      payload.object.map (·.providerStatus) = some .approved

/-- Within the time to live of the challenge, a callback with the status `succeeded` was answered
with success, and there is nothing left to do: all callbacks are answered and all jobs done. -/
structure Delivered (id : String) (P : Pool Cmd.Answer String Unit ChallengeStore CallbackOp) :
    Prop where
  inTime : P.state.expired = false
  answered : ∃ t ∈ P.threads, AnsweredSucceeded t
  done : ∀ t ∈ P.threads, t.2.Done
  retried : ∀ event ∈ P.state.store.retries, event.providerTxnId = id →
    ∃ t ∈ P.threads, t.2.outcome = some (.ok ()) ∧
      ∃ ref disbId key, t.1 = .retry event ref disbId key

/-- The challenge is credited at most once, and once if it was paid. -/
def CreditedOnce (id : String) (ch : Challenge)
    (P : Pool Cmd.Answer String Unit ChallengeStore CallbackOp) : Prop :=
  P.state.store.creditsOf id ch ≤ 1 ∧ (Delivered id P → P.state.store.creditsOf id ch = 1)

/-! ### The invariant -/

/-- How far a callback or a job has come. -/
inductive CallbackStage where
  | idle
  /-- The event that it is about is marked as seen. -/
  | marked (eventId : String)
  /-- The time to live of the challenge is over. -/
  | late

/-- The event is marked as seen, or the challenge is gone. -/
def CallbackStage.Seen (eventId : String) (l : CallbackStage) : Prop :=
  l = .marked eventId ∨ l = .late

/-- No entry of the challenge is in the journal, and the events that are under way or to be retried
are marked as seen as long as the challenge is there. -/
structure Unpaid (id : String) (s : ChallengeStore) (ls : List (CallbackOp × CallbackStage)) :
    Prop where
  journals : ∀ j ∈ s.store.journals, j.providerTxnId ≠ some id
  gone : s.expired = true → s.store.redis (.challenge id) = none
  retries : s.expired = false → ∀ event ∈ s.store.retries, event.providerTxnId = id →
    (s.store.redis (.webhook event.eventId)).isSome
  marked : s.expired = false → ∀ rl ∈ ls, ∀ eventId, rl.2 = .marked eventId →
    (s.store.redis (.webhook eventId)).isSome
  late : ∀ rl ∈ ls, rl.2 = .late → s.expired = true

/-- A command that posts nothing, adds no retry, stores no challenge and removes no mark. -/
def Cmd.KeepsMarks : Cmd → Prop
  | .transaction _ _ _ _ => False
  | .addRetry _ => False
  | .set _ _ => False
  | .setNx (.challenge _) _ => False
  | .del (.webhook _) => False
  | _ => True

section Invariant

variable {id : String} {s : ChallengeStore} {ls ls₁ ls₂ : List (CallbackOp × CallbackStage)}
  {r : CallbackOp} {l l' : CallbackStage}

/-- What such a command does to the keys. -/
lemma Cmd.KeepsMarks.redis {c : Cmd} (h : c.KeepsMarks) (s : Store) :
    (∀ eventId, (s.redis (.webhook eventId)).isSome →
      ((c.exec s).2.redis (.webhook eventId)).isSome) ∧
    ∀ id, s.redis (.challenge id) = none → (c.exec s).2.redis (.challenge id) = none := by
  cases c with
  | transaction => exact h.elim
  | addRetry => exact h.elim
  | set => exact h.elim
  | setNx k v =>
    simp only [Cmd.exec]
    split
    · exact ⟨fun _ hs => hs, fun _ hs => hs⟩
    · refine ⟨fun eventId hs => ?_, fun id hs => ?_⟩
      · by_cases hk : RedisKey.webhook eventId = k
        · subst hk
          rw [Store.setKey_redis]
          rfl
        · rwa [Store.setKey_redis_of_ne hk]
      · cases k with
        | challenge => exact h.elim
        | _ => rwa [Store.setKey_redis_of_ne (by simp)]
  | del k =>
    refine ⟨fun eventId hs => ?_, fun id hs => ?_⟩
    · cases k with
      | webhook => exact h.elim
      | _ =>
        simp only [Cmd.exec]
        rwa [Store.setKey_redis_of_ne (by simp)]
    · simp only [Cmd.exec]
      by_cases hk : RedisKey.challenge id = k
      · subst hk
        exact Store.setKey_redis _ _
      · rwa [Store.setKey_redis_of_ne hk]
  | expire k =>
    simp only [Cmd.exec]
    split <;> exact ⟨fun _ hs => hs, fun _ hs => hs⟩
  | _ => exact ⟨fun _ hs => hs, fun _ hs => hs⟩

lemma Cmd.KeepsMarks.tables {c : Cmd} (h : c.KeepsMarks) (s : Store) :
    (c.exec s).2.journals = s.journals ∧ (c.exec s).2.retries = s.retries := by
  cases c with
  | transaction => exact h.elim
  | addRetry => exact h.elim
  | setNx k v =>
    simp only [Cmd.exec]
    split <;> exact ⟨rfl, rfl⟩
  | expire k =>
    simp only [Cmd.exec]
    split <;> exact ⟨rfl, rfl⟩
  | _ => exact ⟨rfl, rfl⟩

lemma Unpaid.exec {c : Cmd} (h : Unpaid id s ls) (hc : c.KeepsMarks) :
    Unpaid id (s.exec c).2 ls := by
  obtain ⟨hmarks, hchallenge⟩ := hc.redis s.store
  obtain ⟨hjournals, hretries⟩ := hc.tables s.store
  refine ⟨?_, fun hexpired => hchallenge id (h.gone hexpired), fun hexpired event hevent htxn => ?_,
    fun hexpired rl hrl eventId hl => hmarks _ (h.marked hexpired rl hrl eventId hl), h.late⟩
  · show ∀ j ∈ (c.exec s.store).2.journals, _
    rw [hjournals]
    exact h.journals
  · have hevent : event ∈ (c.exec s.store).2.retries := hevent
    rw [hretries] at hevent
    exact hmarks _ (h.retries hexpired event hevent htxn)

/-- The callback or job in the middle goes on to the stage `l'`. -/
lemma Unpaid.stage (h : Unpaid id s (ls₁ ++ (r, l) :: ls₂))
    (hmarked : s.expired = false → ∀ eventId, l' = .marked eventId →
      (s.store.redis (.webhook eventId)).isSome)
    (hlate : l' = .late → s.expired = true) : Unpaid id s (ls₁ ++ (r, l') :: ls₂) := by
  have hold : ∀ rl ∈ ls₁ ++ (r, l') :: ls₂, rl ∈ ls₁ ++ (r, l) :: ls₂ ∨ rl = (r, l') :=
    fun _ => Service.mem_replaced
  refine ⟨h.journals, h.gone, h.retries, ?_, ?_⟩
  · intro hexpired rl hrl eventId hl
    rcases hold rl hrl with hrl | rfl
    · exact h.marked hexpired rl hrl eventId hl
    · exact hmarked hexpired eventId hl
  · intro rl hrl hl
    rcases hold rl hrl with hrl | rfl
    · exact h.late rl hrl hl
    · exact hlate hl

lemma Unpaid.start (h : Unpaid id s ls)
    (hmarked : s.expired = false → ∀ eventId, l = .marked eventId →
      (s.store.redis (.webhook eventId)).isSome) (hlate : l ≠ .late) :
    Unpaid id s (ls ++ [(r, l)]) := by
  refine ⟨h.journals, h.gone, h.retries, ?_, ?_⟩
  · intro hexpired rl hrl eventId hl
    rcases mem_append.mp hrl with hrl | hrl
    · exact h.marked hexpired rl hrl eventId hl
    · rw [mem_singleton.mp hrl] at hl
      exact hmarked hexpired eventId hl
  · intro rl hrl hl
    rcases mem_append.mp hrl with hrl | hrl
    · exact h.late rl hrl hl
    · rw [mem_singleton.mp hrl] at hl
      exact absurd hl hlate

end Invariant

/-! ### The callbacks keep it -/

section Programs

variable {sha256 : String → String} {config : Config} {id : String} {ch : Challenge}
  {r : CallbackOp} {l : CallbackStage} {event : ProviderCallback}

/-- The rules for a callback or a job among others. -/
abbrev callbackRules (sha256 : String → String) (config : Config) (id : String) (ch : Challenge)
    (r : CallbackOp) :=
  (callbackService sha256 config id ch).protocol (fun _ _ => True) (Unpaid id) r

/-- A command that changes nothing that matters. -/
lemma wp_keepsMarks {c : Cmd} {Q : Except String c.Answer → CallbackStage → Prop}
    (hc : c.KeepsMarks) (hQ : ∀ o, Q o l) :
    (run c).wp (callbackRules sha256 config id ch r) Q l := by
  refine wp_command fun s γ hinv => ⟨fun _ => ⟨l, ?_, hQ _⟩, fun _ => ⟨l, hinv, hQ _⟩⟩
  exact Unpaid.exec hinv hc

/-- The wallet has seen the event before, or does not find the challenge. -/
lemma wp_confirm3DS (htxn : event.providerTxnId = id) (hl : l.Seen event.eventId)
    (ref disbId key : String) :
    (confirm3DS sha256 config event ref disbId key).wp (callbackRules sha256 config id ch r)
      (fun _ l' => l'.Seen event.eventId) l := by
  unfold confirm3DS
  refine wp_bind (wp_mono (Q := fun o l' =>
    l'.Seen event.eventId ∧ (o = .ok false → l' = .late)) ?_ ?_)
  · refine wp_bind (wp_command fun s γ hinv => ⟨fun _ => ?_,
      fun _ => ⟨l, hinv, hl, fun h => absurd h (by simp)⟩⟩)
    have hinv' := Unpaid.exec (c := .setNx (.webhook event.eventId) ()) hinv trivial
    cases hkey : s.store.redis (.webhook event.eventId) with
    | some u =>
      refine ⟨l, hinv', ?_⟩
      have hfalse : ((Cmd.setNx (.webhook event.eventId) ()).exec s.store).1 = false := by
        simp only [Cmd.exec, hkey]
      show l.Seen event.eventId ∧
        (Except.ok (!((Cmd.setNx (.webhook event.eventId) ()).exec s.store).1) = .ok false →
          l = .late)
      rw [hfalse]
      exact ⟨hl, fun h => absurd h (by simp)⟩
    | none =>
      -- the mark is gone, so the challenge is gone too
      have hexpired : s.expired = true := by
        by_contra hno
        rw [Bool.not_eq_true] at hno
        rcases hl with rfl | rfl
        · have hsome := hinv.marked hno (r, .marked event.eventId) (by simp) event.eventId rfl
          rw [hkey] at hsome
          cases hsome
        · rw [hinv.late (r, .late) (by simp) rfl] at hno
          cases hno
      refine ⟨.late, hinv'.stage (fun _ _ h => by cases h) fun _ => hexpired, ?_⟩
      exact ⟨Or.inr rfl, fun _ => rfl⟩
  · rintro (e | duplicate) l' hl'
    · exact hl'.1
    cases duplicate with
    | true => exact hl'.1
    | false =>
      obtain rfl : l' = .late := hl'.2 rfl
      refine wp_bind (wp_command fun s γ hinv => ⟨fun _ => ?_, fun _ => ⟨_, hinv, Or.inr rfl⟩⟩)
      refine ⟨.late, hinv, ?_⟩
      have hgone : ((callbackRules sha256 config id ch r).exec
          (.get (.challenge event.providerTxnId)) s).1 = none := by
        rw [htxn]
        exact hinv.gone (hinv.late (r, .late) (by simp) rfl)
      rw [hgone]
      exact Or.inr rfl

/-- An event that has failed is marked as seen when it is put into the queue. -/
lemma wp_addRetry (hl : l.Seen event.eventId) :
    (run (.addRetry event)).wp (callbackRules sha256 config id ch r) (fun _ _ => True) l := by
  refine wp_command fun s γ hinv => ⟨fun _ => ⟨l, ?_, trivial⟩, fun _ => ⟨l, hinv, trivial⟩⟩
  refine ⟨hinv.journals, hinv.gone, fun hexpired event' hevent' htxn => ?_, hinv.marked, hinv.late⟩
  rcases mem_append.mp hevent' with hevent' | hevent'
  · exact hinv.retries hexpired event' hevent' htxn
  · obtain rfl := mem_singleton.mp hevent'
    rcases hl with rfl | rfl
    · exact hinv.marked hexpired (r, .marked event'.eventId) (by simp) event'.eventId rfl
    · have hlate : s.expired = true := hinv.late (r, .late) (by simp) rfl
      have hexpired : s.expired = false := hexpired
      rw [hlate] at hexpired
      cases hexpired

lemma wp_retryWebhook (htxn : event.providerTxnId = id) (hl : l.Seen event.eventId)
    (ref disbId key : String) :
    (retryWebhook event fun event => confirm3DS sha256 config event ref disbId key).wp
      (callbackRules sha256 config id ch r) (fun _ l' => l'.Seen event.eventId) l := by
  refine wp_bind (wp_mono (wp_confirm3DS htxn hl ref disbId key) ?_)
  rintro (e | _) l' hl'
  · exact hl'
  · exact wp_keepsMarks trivial fun _ => hl'

lemma wp_handleWebhook (htxn : event.providerTxnId = id) (hl : l.Seen event.eventId)
    (ref disbId key : String) :
    (handleWebhook config event fun event => confirm3DS sha256 config event ref disbId key).wp
      (callbackRules sha256 config id ch r) (fun _ _ => True) l := by
  refine wp_bind (wp_keepsMarks trivial ?_)
  rintro (e | stored)
  · trivial
  · cases stored with
    | false => trivial
    | true =>
      refine wp_handle (wp_mono (wp_retryWebhook htxn hl ref disbId key) ?_)
      rintro (e | _) l' hl'
      · dsimp only
        split_ifs
        · exact wp_addRetry hl'
        · trivial
      · trivial

/-- The controller marks the event before it passes it on. -/
lemma wp_callback {eventId : Option String} {payload : ProviderPayload}
    (hheader : payload.id = eventId) (hobject : payload.object.map (·.id) = some id) (signed : Bool)
    (ref disbId key : String) :
    (callback config eventId signed payload fun event =>
        confirm3DS sha256 config event ref disbId key).wp
      (callbackRules sha256 config id ch r) (fun _ _ => True) .idle := by
  cases eventId with
  | none => trivial
  | some eventId =>
    simp only [callback]
    split_ifs
    · trivial
    · trivial
    · refine wp_bind (wp_mono (Q := fun
        | .ok stored, l' => stored = true → l' = .marked eventId
        | .error _, _ => True) ?_ ?_)
      · refine wp_command fun s γ hinv => ⟨fun _ => ?_, fun _ => ⟨_, hinv, trivial⟩⟩
        have hinv' := Unpaid.exec (c := .setNx (.webhook eventId) ()) hinv trivial
        refine ⟨.marked eventId, hinv'.stage (fun _ eventId' heq => ?_) (fun h => nomatch h),
          fun _ => rfl⟩
        cases heq
        -- the mark was there, or it is set now
        show (((Cmd.setNx (.webhook eventId) ()).exec s.store).2.redis (.webhook eventId)).isSome
        cases hkey : s.store.redis (.webhook eventId) with
        | some u =>
          simp only [Cmd.exec, hkey]
          rfl
        | none =>
          simp only [Cmd.exec, hkey, Store.setKey_redis]
          rfl
      · rintro (e | stored) l' hl'
        · trivial
        cases stored with
        | false => trivial
        | true =>
          obtain rfl : l' = .marked eventId := hl' rfl
          obtain ⟨intent, hintent, hid⟩ := Option.map_eq_some_iff.mp hobject
          simp only [Bool.not_true, Bool.false_eq_true, if_false, providerConfirm3DS, hintent]
          split_ifs
          · trivial
          · trivial
          · refine wp_handleWebhook hid ?_ ref disbId key
            rw [hheader]
            exact Or.inl rfl

end Programs

/-- The challenge is never credited; so when it is paid and all is delivered, it is not credited
once. -/
theorem card_deposit_uncredited (sha256 : String → String) (config : Config) (id : String)
    (ch : Challenge) {P : Pool Cmd.Answer String Unit ChallengeStore CallbackOp}
    (h : (callbackService sha256 config id ch).system.Reachable P) :
    P.state.store.creditsOf id ch = 0 ∧ (CreditedOnce id ch P ↔ ¬ Delivered id P) := by
  have hinit : ∀ s, (callbackService sha256 config id ch).init s → Unpaid id s [] := by
    rintro s ⟨hexpired, -, hjournals, hretries⟩
    refine ⟨hjournals, fun h => ?_, fun _ event hevent htxn => absurd htxn (hretries event hevent),
      fun _ rl hrl => absurd hrl not_mem_nil, fun rl hrl => absurd hrl not_mem_nil⟩
    rw [hexpired] at h
    cases h
  have hstart : ∀ s ls (op : CallbackOp), Unpaid id s ls →
      (callbackService sha256 config id ch).ready s op → True →
      ∃ l, Unpaid id s (ls ++ [(op, l)]) ∧ ((callbackService sha256 config id ch).body op).wp
        (callbackRules sha256 config id ch op) (fun _ _ => True) l := by
    rintro s ls op hs hready -
    cases op with
    | callback eventId signed payload ref disbId key =>
      obtain ⟨-, hheader, hobject⟩ := hready
      exact ⟨.idle, hs.start (fun _ _ h => nomatch h) (by simp),
        wp_callback hheader hobject signed ref disbId key⟩
    | retry event ref disbId key =>
      obtain ⟨hevent, htxn⟩ := hready
      refine ⟨.marked event.eventId, hs.start (fun hexpired eventId heq => ?_) (by simp),
        wp_mono (wp_retryWebhook htxn (Or.inl rfl) ref disbId key) fun _ _ _ => trivial⟩
      cases heq
      exact hs.retries hexpired event hevent htxn
  have henv : ∀ s s' ls, Unpaid id s ls → (callbackService sha256 config id ch).env s s' → True →
      Unpaid id s' ls := by
    rintro s s' ls hs (rfl | ⟨key, rfl⟩ | ⟨hexpired, eventId, rfl⟩) -
    · exact ⟨hs.journals, fun _ => Store.setKey_redis _ _, (fun h => nomatch h),
        (fun h => nomatch h), fun _ _ _ => rfl⟩
    · exact hs.exec (c := .del (.providerWebhook key)) trivial
    · refine ⟨hs.journals, fun hexp => ?_, fun hno => ?_, fun hno => ?_, hs.late⟩
      · show (s.store.setKey (.webhook eventId) none).redis (.challenge id) = none
        rw [Store.setKey_redis_of_ne (by simp)]
        exact hs.gone hexp
      · have hno : s.expired = false := hno
        rw [hexpired] at hno
        cases hno
      · have hno : s.expired = false := hno
        rw [hexpired] at hno
        cases hno
  obtain ⟨ls, -, hinv⟩ := Service.invariant (I := Unpaid id) (Q := fun _ _ _ => True) hinit hstart
    henv (Service.reachable_within h)
  have hzero : P.state.store.creditsOf id ch = 0 := by
    refine countP_eq_zero.mpr fun j hj hcredit => ?_
    simp only [JournalEntry.creditsChallenge, Bool.and_eq_true, beq_iff_eq] at hcredit
    exact hinv.journals j hj hcredit.1.1
  refine ⟨hzero, ⟨fun honce hdelivered => ?_, fun hno => ⟨?_, fun hyes => absurd hyes hno⟩⟩⟩
  · have hone := honce.2 hdelivered
    rw [hzero] at hone
    cases hone
  · rw [hzero]
    exact Nat.zero_le 1

/-! One callback, for a deposit of 100. -/

def cardDeposit : Challenge :=
  ⟨.deposit, "u1", 100, "USD", some "d1"⟩

def cardDepositStore : Store where
  accounts := [⟨"u1", "alice", "USD", 0, true⟩, ⟨"h1", "house", "USD", 1000, true⟩]
  redis := (Store.setKey { accounts := [] } (.challenge "pi_1") (some cardDeposit)).redis

def succeededCallback : CallbackOp :=
  .callback (some "evt_1") true
    ⟨some "payment_intent.succeeded", some "evt_1", some ⟨"pi_1", some "succeeded", none⟩⟩
    "ref" "disb" "key"

def succeededOnce : Pool Cmd.Answer String Unit ChallengeStore CallbackOp :=
  (callbackService id {} "pi_1" cardDeposit).playAll ⟨⟨cardDepositStore, false⟩, []⟩
    (.start succeededCallback :: replicate 4 (.call 0))

lemma init_cardDeposit : (callbackService id {} "pi_1" cardDeposit).init ⟨cardDepositStore, false⟩ :=
  ⟨rfl, rfl, fun _ h => (not_mem_nil h).elim, fun _ h => (not_mem_nil h).elim⟩

lemma threads_succeededOnce : (∃ t, t ∈ succeededOnce.threads) ∧ ∀ t ∈ succeededOnce.threads,
    t.1 = succeededCallback ∧ t.2.outcome = some (.ok ()) := by
  refine ⟨exists_mem_of_ne_nil _ (ne_nil_of_length_pos ?_), ?_⟩ <;> decide +kernel

lemma delivered_succeededOnce : Delivered "pi_1" succeededOnce where
  inTime := by decide +kernel
  answered := by
    obtain ⟨⟨t, ht⟩, hall⟩ := threads_succeededOnce
    exact ⟨t, ht, (hall t ht).2, _, _, _, _, _, _, (hall t ht).1, rfl⟩
  done := by
    intro t ht
    rw [Done, (threads_succeededOnce.2 t ht).2]
    rfl
  retried := by
    have hretries : succeededOnce.state.store.retries = [] := by decide +kernel
    rw [hretries]
    exact fun _ h => (not_mem_nil h).elim

lemma reachable_succeededOnce :
    (callbackService id {} "pi_1" cardDeposit).system.Reachable succeededOnce := by
  have hreach : ((callbackService id {} "pi_1" cardDeposit).within fun _ _ => True).Reachable
      succeededOnce := Service.reachable_playAll_of_closed init_cardDeposit (by decide +kernel)
  exact hreach.of_restrict

/-- The callback is answered, and the user is not credited. -/
theorem succeeded_callback_uncredited :
    ¬ ∀ (sha256 : String → String) (config : Config) (id : String) (ch : Challenge)
      (P : Pool Cmd.Answer String Unit ChallengeStore CallbackOp),
      (callbackService sha256 config id ch).system.Reachable P → CreditedOnce id ch P := by
  intro h
  have hone := (h _ _ _ _ _ reachable_succeededOnce).2 delivered_succeededOnce
  revert hone
  decide +kernel

theorem card_deposit_uncredited_succeededOnce : ¬ CreditedOnce "pi_1" cardDeposit succeededOnce := by
  intro honce
  have hiff := (card_deposit_uncredited id {} "pi_1" cardDeposit reachable_succeededOnce).2
  exact hiff.mp honce delivered_succeededOnce

end Pokerhub.Wallet
