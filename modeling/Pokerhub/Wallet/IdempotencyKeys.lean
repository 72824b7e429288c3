import Pokerhub.Core.Service
import Pokerhub.Wallet.Requests

/-!
# Requests with one idempotency key

The key holds `LOCK` while the request that set it is being served, and its response afterwards. A
request that fails deletes the key, also when it is not its own; so the key does its work as long
as a request that was refused the lock finds the response when it looks once more.
-/

namespace Pokerhub.Wallet

open List Program

/-- The store, and the requests that were refused the lock. -/
structure KeyedStore where
  store : Store
  refused : List MoneyRequest := []

/-- The payment intents and the pending deposits. -/
def Store.created (s : Store) : ℕ :=
  s.intents.length + s.pendingDeposits.length

section Service

variable (limits : Limits) (config : Config) (key : String) (s₀ : Store)

/-- A command, with a note of a request that is refused the lock. -/
def KeyedStore.exec (r : MoneyRequest) (c : Cmd) (s : KeyedStore) : c.Answer × KeyedStore :=
  ((c.exec s.store).1,
    { store := (c.exec s.store).2
      refused := match c with
        | .setNx (.idemp _) _ =>
          if (s.store.redis (.idemp key)).isSome then r :: s.refused else s.refused
        | _ => s.refused })

/-- Any number of requests with the idempotency key `key`, from a store in which the key is not
set. Every check may fail. -/
def keyedService : Service Cmd.Answer String Response KeyedStore MoneyRequest where
  init s := s = ⟨s₀, []⟩ ∧ s₀.redis (.idemp key) = none
  ready _ _ := True
  body := MoneyRequest.body limits config (some key)
  exec := KeyedStore.exec key
  fails _ c := c.IsCheck
  env _ _ := False

end Service

instance (limits : Limits) (config : Config) (key : String) (s₀ : Store) (s : KeyedStore)
    (r : MoneyRequest) : Decidable ((keyedService limits config key s₀).ready s r) :=
  isTrue trivial

instance (limits : Limits) (config : Config) (key : String) (s₀ : Store) (s : KeyedStore)
    (c : Cmd) : Decidable ((keyedService limits config key s₀).fails s c) :=
  inferInstanceAs (Decidable (c.IsCheck = true))

instance (limits : Limits) (config : Config) (key : String) (s₀ : Store) (s s' : KeyedStore) :
    Decidable ((keyedService limits config key s₀).env s s') :=
  isFalse id

def Cached.isResponse : Option Cached → Bool
  | some (.response _) => true
  | _ => false

def Cmd.isGet : Cmd → Bool
  | .get _ => true
  | _ => false

/-- A request that was refused the lock finds the response when it looks once more. -/
def FindsResponse (key : String) (s : KeyedStore) : Service.Action MoneyRequest Cmd → Prop
  | .call r c =>
    c.isGet → r ∈ s.refused → Cached.isResponse (s.store.redis (.idemp key)) = true
  | _ => True

instance (key : String) (s : KeyedStore) :
    (a : Service.Action MoneyRequest Cmd) → Decidable (FindsResponse key s a)
  | .call r c => inferInstanceAs (Decidable
      (c.isGet → r ∈ s.refused → Cached.isResponse (s.store.redis (.idemp key)) = true))
  | .start _ | .fault _ _ | .env => isTrue trivial

/-! ### The invariant -/

/-- The part of a request. -/
inductive KeyRole where
  | outside
  /-- It was refused the lock. -/
  | refused
  | holder
  /-- It holds the lock, and has created a challenge or a deposit. -/
  | maker
  | answered (res : Response)
  deriving DecidableEq

def KeyRole.isInside : KeyRole → Bool
  | outside | refused => false
  | _ => true

/-- The parts of the requests that have to do with the key. -/
def inside (ls : List (MoneyRequest × KeyRole)) : List KeyRole :=
  (ls.map (·.2)).filter KeyRole.isInside

/-- The key, what was created, and the requests that have to do with it. -/
inductive KeyState (s₀ : Store) : Option Cached → ℕ → List KeyRole → Prop
  | free : KeyState s₀ none s₀.created []
  | held : KeyState s₀ (some .lock) s₀.created [.holder]
  | made : KeyState s₀ (some .lock) (s₀.created + 1) [.maker]
  | answered {roles} (res : Response) (h : ∀ l ∈ roles, l = .answered res) :
    KeyState s₀ (some (.response res)) (s₀.created + 1) roles

structure KeyInv (key : String) (s₀ : Store) (s : KeyedStore)
    (ls : List (MoneyRequest × KeyRole)) : Prop where
  state : KeyState s₀ (s.store.redis (.idemp key)) s.store.created (inside ls)
  refused : ∀ rl ∈ ls, rl.2 = .refused → rl.1 ∈ s.refused

section

variable {limits : Limits} {config : Config} {key : String} {s₀ : Store} {s s' : KeyedStore}
  {ls ls₁ ls₂ : List (MoneyRequest × KeyRole)} {r : MoneyRequest} {l l' : KeyRole}

lemma inside_append : inside (ls₁ ++ ls₂) = inside ls₁ ++ inside ls₂ := by
  rw [inside, map_append, filter_append]
  rfl

lemma inside_cons_of_inside (h : l.isInside = true) : inside ((r, l) :: ls) = l :: inside ls := by
  rw [inside, map_cons, filter_cons_of_pos h]
  rfl

lemma inside_cons_of_outside (h : l.isInside = false) : inside ((r, l) :: ls) = inside ls := by
  rw [inside, map_cons, filter_cons_of_neg (by simp [h])]
  rfl

/-- The request in the middle goes on to the part `l'`. -/
lemma KeyInv.role (h : KeyInv key s₀ s (ls₁ ++ (r, l) :: ls₂))
    (hstate : KeyState s₀ (s.store.redis (.idemp key)) s.store.created
        (inside (ls₁ ++ (r, l) :: ls₂)) →
      KeyState s₀ (s'.store.redis (.idemp key)) s'.store.created (inside (ls₁ ++ (r, l') :: ls₂)))
    (hrefused : s.refused ⊆ s'.refused) (hself : l' = .refused → r ∈ s'.refused) :
    KeyInv key s₀ s' (ls₁ ++ (r, l') :: ls₂) := by
  refine ⟨hstate h.state, ?_⟩
  rintro rl hrl hrole
  rcases Service.mem_replaced hrl with hrl | rfl
  · exact hrefused (h.refused rl hrl hrole)
  · exact hself hrole

/-- The commands that neither touch the key nor create anything. -/
def Cmd.IsQuiet (c : Cmd) : Bool :=
  c.IsCheck || match c with
    | .side _ | .set (.challenge _) _ => true
    | _ => false

lemma KeyedStore.exec_of_quiet {c : Cmd} (hc : c.IsQuiet) (key : String) (r : MoneyRequest)
    (s : KeyedStore) :
    (s.exec key r c).2.store.redis (.idemp key) = s.store.redis (.idemp key) ∧
      (s.exec key r c).2.store.created = s.store.created ∧
      (s.exec key r c).2.refused = s.refused := by
  cases c with
  | expire k =>
    simp only [KeyedStore.exec, Cmd.exec]
    split <;> exact ⟨rfl, rfl, trivial⟩
  | set k v =>
    cases k with
    | challenge id => exact ⟨Store.setKey_redis_of_ne (by simp) _, rfl, rfl⟩
    | _ => cases hc
  | findAccount | kyc | flagged | incrby | emit | side => exact ⟨rfl, rfl, rfl⟩
  | _ => cases hc

lemma KeyState.of_holder {k : Option Cached} {n : ℕ} {xs ys : List KeyRole}
    (h : KeyState s₀ k n (xs ++ .holder :: ys)) :
    k = some .lock ∧ n = s₀.created ∧ xs = [] ∧ ys = [] := by
  generalize hroles : xs ++ KeyRole.holder :: ys = roles at h
  cases h with
  | free => simp at hroles
  | held =>
    obtain ⟨rfl, h⟩ | ⟨-, h⟩ := append_eq_singleton_iff.mp hroles
    · exact ⟨rfl, rfl, rfl, (cons.inj h).2⟩
    · cases h
  | made =>
    obtain ⟨-, h⟩ | ⟨-, h⟩ := append_eq_singleton_iff.mp hroles
    · cases (cons.inj h).1
    · cases h
  | answered res h =>
    cases h .holder (hroles ▸ by simp)

lemma KeyState.of_maker {k : Option Cached} {n : ℕ} {xs ys : List KeyRole}
    (h : KeyState s₀ k n (xs ++ .maker :: ys)) :
    n = s₀.created + 1 ∧ xs = [] ∧ ys = [] := by
  generalize hroles : xs ++ KeyRole.maker :: ys = roles at h
  cases h with
  | free => simp at hroles
  | held =>
    obtain ⟨-, h⟩ | ⟨-, h⟩ := append_eq_singleton_iff.mp hroles
    · cases (cons.inj h).1
    · cases h
  | made =>
    obtain ⟨rfl, h⟩ | ⟨-, h⟩ := append_eq_singleton_iff.mp hroles
    · exact ⟨rfl, rfl, (cons.inj h).2⟩
    · cases h
  | answered res h =>
    cases h .maker (hroles ▸ by simp)

lemma KeyState.of_free {n : ℕ} {roles : List KeyRole} (h : KeyState s₀ none n roles) :
    n = s₀.created ∧ roles = [] := by
  cases h
  exact ⟨rfl, rfl⟩

/-! ### The requests keep it -/

/-- The rules for one request among the others. -/
abbrev keyRules (limits : Limits) (config : Config) (key : String) (s₀ : Store)
    (r : MoneyRequest) :=
  (keyedService limits config key s₀).protocol (FindsResponse key) (KeyInv key s₀) r

/-- A program that has to do neither with the key nor with what is created. -/
lemma wp_quiet {α : Type} {p : WalletM α} (h : p.Uses (fun c => c.IsQuiet)) :
    p.wp (keyRules limits config key s₀ r) (fun _ l' => l' = l) l := by
  refine wp_of_uses (F := (· = l)) h ?_ (fun _ _ hl => hl) rfl
  intro c s γ l' hc hl hinv _
  obtain ⟨hredis, hcreated, hrefused⟩ := KeyedStore.exec_of_quiet hc key r s
  refine ⟨l', hl, ?_, ?_⟩
  · have hstate := hinv.state
    rw [← hredis, ← hcreated] at hstate
    exact hstate
  · have hmem := hinv.refused
    rw [← hrefused] at hmem
    exact hmem

/-- A command that does not fail. -/
lemma wp_sure {c : Cmd} {Q : Except String c.Answer → KeyRole → Prop} (hc : c.IsCheck = false)
    (h : ∀ s γ, (keyRules limits config key s₀ r).inv s γ l →
      FindsResponse key s (.call r c) →
      ∃ l', (keyRules limits config key s₀ r).inv (s.exec key r c).2 γ l' ∧
        Q (.ok (c.exec s.store).1) l') :
    (run c).wp (keyRules limits config key s₀ r) Q l := by
  refine wp_command fun s γ hinv => ⟨h s γ hinv, fun hfails => ?_⟩
  exact absurd hfails.1 (by simp [keyedService, hc])

/-- What creates one challenge or deposit. -/
lemma wp_create {c : Cmd} (hc : c.IsCheck = false)
    (hredis : ∀ s : Store, (c.exec s).2.redis = s.redis)
    (hcreated : ∀ s : Store, (c.exec s).2.created = s.created + 1)
    (hrefused : ∀ s : KeyedStore, (s.exec key r c).2.refused = s.refused) :
    (run c).wp (keyRules limits config key s₀ r) (fun r l => l = .maker ∧ ∃ a, r = .ok a)
      .holder := by
  refine wp_sure hc fun s γ hinv _ => ⟨.maker, ?_, rfl, _, rfl⟩
  refine hinv.role ?_ (hrefused s ▸ fun _ h => h) (fun h => nomatch h)
  intro hstate
  rw [inside_append, inside_cons_of_inside rfl] at hstate ⊢
  obtain ⟨hlock, hn, h₁, h₂⟩ := hstate.of_holder
  show KeyState s₀ ((c.exec s.store).2.redis (.idemp key)) (c.exec s.store).2.created _
  rw [hredis, hcreated, hlock, hn, h₁, h₂]
  exact .made

/-- The outcome of a body under the lock: a response after one creation, an error before. -/
def MadeOrNot : Except String Response → KeyRole → Prop
  | .ok _, l => l = .maker
  | .error _, l => l = .holder

/-- The checks in front of the rest of a body. -/
lemma wp_check_bind {α : Type} {p : WalletM α} {f : α → WalletM Response}
    (hp : p.Uses (fun c => c.IsQuiet))
    (hf : ∀ a, (f a).wp (keyRules limits config key s₀ r) MadeOrNot .holder) :
    (p >>= f).wp (keyRules limits config key s₀ r) MadeOrNot .holder := by
  refine wp_bind (wp_mono (wp_quiet hp) ?_)
  rintro (e | a) l rfl
  · rfl
  · exact hf a

lemma isQuiet_of_isCheck (c : Cmd) (h : c.IsCheck = true) : c.IsQuiet = true := by
  simp [Cmd.IsQuiet, h]

/-- A command after the creation. -/
lemma wp_after_bind {c : Cmd} {f : c.Answer → WalletM Response} (hc : c.IsCheck = false)
    (hquiet : c.IsQuiet = true)
    (hf : ∀ a, (f a).wp (keyRules limits config key s₀ r) MadeOrNot .maker) :
    (run c >>= f).wp (keyRules limits config key s₀ r) MadeOrNot .maker := by
  refine wp_bind (wp_sure hc fun s γ hinv hok => ?_)
  have hkeep : (run c).wp (keyRules limits config key s₀ r) (fun _ l => l = .maker) .maker :=
    wp_quiet (uses_run hquiet)
  obtain ⟨l', hinv', rfl⟩ := (hkeep s γ hinv).1 hok
  exact ⟨_, hinv', hf _⟩

/-- The challenge of a deposit or a withdrawal. -/
lemma wp_challenge {accountId : String} {amount : ℤ} {challenge : Challenge} :
    (do
      let id ← run (.initiate3DS accountId amount)
      run (.set (.challenge id) challenge)
      return Response.challenge id).wp (keyRules limits config key s₀ r) MadeOrNot .holder := by
  refine wp_bind (wp_mono (wp_create rfl (fun _ => rfl) ?_ fun _ => rfl) ?_)
  · intro s
    simp only [Cmd.exec, Store.created, length_append, length_singleton]
    omega
  · rintro _ _ ⟨rfl, id, rfl⟩
    exact wp_after_bind rfl rfl fun _ => rfl

lemma wp_withdrawOnce (req : Request) :
    (withdrawOnce limits req).wp (keyRules limits config key s₀ r) MadeOrNot .holder := by
  unfold withdrawOnce
  split
  · exact rfl
  refine wp_check_bind (uses_findOneByOrFail rfl) fun _ => ?_
  refine wp_check_bind (uses_run rfl) fun verified => ?_
  split
  · exact rfl
  split
  · exact rfl
  refine wp_check_bind (uses_checkVelocity isQuiet_of_isCheck) fun _ => ?_
  refine wp_check_bind (uses_enforceVelocity isQuiet_of_isCheck) fun _ => ?_
  exact wp_check_bind (uses_enforceDailyLimit isQuiet_of_isCheck) fun _ => wp_challenge

lemma wp_depositOnce (req : Request) :
    (depositOnce limits req).wp (keyRules limits config key s₀ r) MadeOrNot .holder := by
  unfold depositOnce
  split
  · exact rfl
  refine wp_check_bind (uses_checkVelocity isQuiet_of_isCheck) fun _ => ?_
  refine wp_check_bind (uses_enforceVelocity isQuiet_of_isCheck) fun _ => ?_
  refine wp_check_bind (uses_findOneByOrFail rfl) fun user => ?_
  split
  · exact rfl
  refine wp_check_bind (uses_enforceDailyLimit isQuiet_of_isCheck) fun _ => ?_
  refine wp_check_bind (uses_run rfl) fun flagged => ?_
  split
  · exact wp_check_bind (uses_run rfl) fun _ => rfl
  · exact wp_challenge

lemma wp_bankTransferOnce (req : Request) (depositId : String) (expiresAt : ℕ) :
    (bankTransferOnce limits config req depositId expiresAt).wp
      (keyRules limits config key s₀ r) MadeOrNot .holder := by
  unfold bankTransferOnce
  split
  · exact rfl
  refine wp_check_bind (uses_checkVelocity isQuiet_of_isCheck) fun _ => ?_
  refine wp_check_bind (uses_enforceVelocity isQuiet_of_isCheck) fun _ => ?_
  refine wp_check_bind (uses_findOneByOrFail rfl) fun _ => ?_
  refine wp_check_bind (uses_run rfl) fun verified => ?_
  split
  · exact rfl
  refine wp_check_bind (uses_enforceDailyLimit isQuiet_of_isCheck) fun _ => ?_
  refine wp_check_bind (uses_run rfl) fun refNum => ?_
  refine wp_bind (wp_mono (wp_create rfl (fun _ => rfl) ?_ fun _ => rfl) ?_)
  · intro s
    simp only [Cmd.exec, Store.created, length_append, length_singleton]
    omega
  · rintro _ _ ⟨rfl, _, rfl⟩
    refine wp_after_bind rfl rfl fun _ => ?_
    cases config.queueConnected with
    | true => exact rfl
    | false => exact wp_after_bind rfl rfl fun _ => rfl

/-- A request that answers has the response that the key holds. -/
def AnsweredRight : Except String Response → KeyRole → Prop
  | .ok res, l => l = .answered res
  | .error _, _ => True

/-- A request that finds the response. -/
lemma KeyInv.answer {res : Response} (h : KeyInv key s₀ s (ls₁ ++ (r, l) :: ls₂))
    (hl : l.isInside = false) (hkey : s.store.redis (.idemp key) = some (.response res)) :
    KeyInv key s₀ s (ls₁ ++ (r, .answered res) :: ls₂) := by
  refine h.role ?_ (fun _ h => h) (fun h => nomatch h)
  intro hstate
  rw [inside_append, inside_cons_of_outside hl, hkey] at hstate
  rw [inside_append, inside_cons_of_inside rfl, hkey]
  generalize hn : s.store.created = n at hstate ⊢
  generalize hroles : inside ls₁ ++ inside ls₂ = roles at hstate
  generalize hk : some (Cached.response res) = k at hstate
  cases hstate with
  | answered res' hall =>
    cases hk
    refine .answered _ fun l hl => ?_
    rw [← hroles] at hall
    rcases mem_append.mp hl with hl | hl
    · exact hall l (by simp [hl])
    · rcases mem_cons.mp hl with rfl | hl
      · rfl
      · exact hall l (by simp [hl])

/-- The cleanup of the request that holds the lock. -/
lemma wp_cleanup {err : String} :
    (do
      run (.del (.idemp key))
      throw err : WalletM Response).wp (keyRules limits config key s₀ r) AnsweredRight .holder := by
  refine wp_bind (wp_sure rfl fun s γ hinv _ => ⟨.outside, hinv.role ?_ (fun _ h => h) ?_, trivial⟩)
  · intro hstate
    rw [inside_append, inside_cons_of_inside rfl] at hstate
    rw [inside_append, inside_cons_of_outside rfl]
    obtain ⟨-, hn, h₁, h₂⟩ := hstate.of_holder
    have hcreated : (s.store.setKey (.idemp key) none).created = s₀.created := hn
    show KeyState s₀ ((s.store.setKey (.idemp key) none).redis (.idemp key))
      (s.store.setKey (.idemp key) none).created _
    rw [Store.setKey_redis, hcreated, h₁, h₂]
    exact .free
  · exact fun h => nomatch h

/-- The outcome in front of the cleanup. -/
def AnsweredOrHolds : Except String Response → KeyRole → Prop
  | .ok res, l => l = .answered res
  | .error _, l => l = .holder

/-- The body under the lock, and its response. -/
lemma wp_underLock {body : WalletM Response}
    (hbody : body.wp (keyRules limits config key s₀ r) MadeOrNot .holder) :
    (do
      let res ← body
      run (.set (.idemp key) (.response res : Cached))
      return res).wp (keyRules limits config key s₀ r) AnsweredOrHolds .holder := by
  refine wp_bind (wp_mono hbody ?_)
  rintro (e | res) l hl
  · exact hl
  obtain rfl : l = .maker := hl
  refine wp_bind (wp_sure rfl fun s γ hinv _ => ⟨.answered res, hinv.role ?_ (fun _ h => h) ?_, rfl⟩)
  · intro hstate
    rw [inside_append, inside_cons_of_inside rfl] at hstate ⊢
    obtain ⟨hn, h₁, h₂⟩ := hstate.of_maker
    have hcreated : (s.store.setKey (.idemp key) (some (.response res : Cached))).created =
        s₀.created + 1 := hn
    show KeyState s₀ ((s.store.setKey (.idemp key) (some (.response res : Cached))).redis
      (.idemp key)) (s.store.setKey (.idemp key) (some (.response res : Cached))).created _
    rw [Store.setKey_redis, hcreated, h₁, h₂]
    exact .answered res (by simp)
  · exact fun h => nomatch h

/-- Taking the lock, or being refused it. -/
lemma wp_lock :
    (run (.setNx (.idemp key) (.lock : Cached))).wp (keyRules limits config key s₀ r) (fun
      | .ok stored, l => l = if stored then .holder else .refused
      | .error _, _ => False) .outside := by
  refine wp_sure rfl fun s γ hinv _ => ?_
  cases hkey : s.store.redis (.idemp key) with
  | some cached =>
    have hexec : (Cmd.setNx (.idemp key) (.lock : Cached)).exec s.store = (false, s.store) := by
      simp [Cmd.exec, hkey]
    have hkeyed : (s.exec key r (.setNx (.idemp key) (.lock : Cached))).2 =
        ⟨s.store, r :: s.refused⟩ := by
      simp [KeyedStore.exec, hexec, hkey]
    rw [hkeyed, hexec]
    refine ⟨.refused, hinv.role ?_ (fun _ h => by simp [h]) (fun _ => by simp), rfl⟩
    intro hstate
    rw [inside_append, inside_cons_of_outside rfl] at hstate ⊢
    exact hstate
  | none =>
    have hexec : (Cmd.setNx (.idemp key) (.lock : Cached)).exec s.store =
        (true, s.store.setKey (.idemp key) (some .lock)) := by
      simp [Cmd.exec, hkey]
    have hkeyed : (s.exec key r (.setNx (.idemp key) (.lock : Cached))).2 =
        ⟨s.store.setKey (.idemp key) (some .lock), s.refused⟩ := by
      simp [KeyedStore.exec, hexec, hkey]
    rw [hkeyed, hexec]
    refine ⟨.holder, hinv.role ?_ (fun _ h => h) (fun h => by cases h), rfl⟩
    intro hstate
    rw [inside_append, inside_cons_of_outside rfl, hkey] at hstate
    rw [inside_append, inside_cons_of_inside rfl]
    obtain ⟨hn, hroles⟩ := hstate.of_free
    obtain ⟨h₁, h₂⟩ := append_eq_nil_iff.mp hroles
    have hcreated : (s.store.setKey (.idemp key) (some .lock)).created = s₀.created := hn
    rw [Store.setKey_redis, hcreated, h₁, h₂]
    exact .held

/-- A look at the key by a request that does not hold the lock. -/
lemma wp_look {f : Option Cached → WalletM Response} (hl : l.isInside = false)
    (hfound : ∀ res, (f (some (.response res))).wp (keyRules limits config key s₀ r)
      AnsweredOrHolds (.answered res))
    (hother : l ≠ .refused → ∀ cached, Cached.isResponse cached = false →
      (f cached).wp (keyRules limits config key s₀ r) AnsweredOrHolds l) :
    (run (.get (.idemp key)) >>= f).wp (keyRules limits config key s₀ r) AnsweredOrHolds l := by
  refine wp_bind (wp_sure rfl fun s γ hinv hok => ?_)
  show ∃ l', KeyInv key s₀ s (γ.1 ++ (r, l') :: γ.2) ∧
    (f (s.store.redis (.idemp key))).wp (keyRules limits config key s₀ r) AnsweredOrHolds l'
  cases hresponse : Cached.isResponse (s.store.redis (.idemp key)) with
  | true =>
    obtain ⟨res, hkey⟩ : ∃ res, s.store.redis (.idemp key) = some (.response res) := by
      cases hcached : s.store.redis (.idemp key) with
      | none => simp [hcached, Cached.isResponse] at hresponse
      | some cached =>
        cases cached with
        | lock => simp [hcached, Cached.isResponse] at hresponse
        | response res => exact ⟨res, rfl⟩
    refine ⟨.answered res, KeyInv.answer hinv hl hkey, ?_⟩
    rw [hkey]
    exact hfound res
  | false =>
    refine ⟨l, hinv, hother ?_ _ hresponse⟩
    intro hrefused
    have hmem : r ∈ s.refused := hinv.refused (r, l) (by simp) hrefused
    exact absurd (hok rfl hmem) (by simp [hresponse])

/-- The key under which a body runs. -/
lemma wp_idempotent {body : WalletM Response}
    (hbody : body.wp (keyRules limits config key s₀ r) MadeOrNot .holder) :
    (idempotent (some key) body).wp (keyRules limits config key s₀ r) AnsweredRight .outside := by
  refine wp_handle (wp_mono (Q := AnsweredOrHolds) ?_ ?_)
  · refine wp_look rfl (fun res => rfl) fun _ cached hcached => ?_
    -- without a response the request goes for the lock
    rcases cached with _ | _ | res
    case some.response => cases hcached
    all_goals
      refine wp_bind (wp_mono wp_lock ?_)
      rintro (e | lock) l hl
      · exact hl.elim
      · cases lock with
        | true =>
          obtain rfl : l = .holder := hl
          exact wp_underLock hbody
        | false =>
          obtain rfl : l = .refused := hl
          exact wp_look rfl (fun res => rfl) fun h => absurd rfl h
  · rintro (e | res) l hl
    · obtain rfl : l = .holder := hl
      exact wp_cleanup
    · exact hl

lemma wp_body (r : MoneyRequest) :
    ((keyedService limits config key s₀).body r).wp (keyRules limits config key s₀ r)
      AnsweredRight .outside := by
  cases r with
  | deposit r => exact wp_idempotent (wp_depositOnce r)
  | withdraw r => exact wp_idempotent (wp_withdrawOnce r)
  | bankTransfer r depositId expiresAt =>
    exact wp_idempotent (wp_bankTransferOnce r depositId expiresAt)

end

def oneUser : Store where
  accounts := [⟨"u1", "alice", "USD", 0, true⟩]

def aliceDeposits : MoneyRequest :=
  .deposit ⟨"u1", 100, "d1", "127.0.0.1", "USD", "2025-01-01"⟩

lemma init_oneUser : (keyedService {} {} "k1" oneUser).init ⟨oneUser, []⟩ :=
  ⟨rfl, rfl⟩

/-- The second request is refused the lock and deletes it; the third one takes it. -/
def threeDeposits : Pool Cmd.Answer String Response KeyedStore MoneyRequest :=
  (keyedService {} {} "k1" oneUser).playAll ⟨⟨oneUser, []⟩, []⟩
    ([.start aliceDeposits, .call 0, .call 0, .start aliceDeposits, .call 1, .call 1, .call 1,
      .call 1, .start aliceDeposits, .call 2, .call 2] ++ List.replicate 12 (.call 0) ++
      List.replicate 8 (.call 2))

/-- The second request looks once more when the first one has its response. -/
def twoDeposits : Pool Cmd.Answer String Response KeyedStore MoneyRequest :=
  (keyedService {} {} "k1" oneUser).playAll ⟨⟨oneUser, []⟩, []⟩
    ([.start aliceDeposits, .call 0, .call 0, .start aliceDeposits, .call 1, .call 1] ++
      List.replicate 12 (.call 0) ++ [.call 1])

end Pokerhub.Wallet
