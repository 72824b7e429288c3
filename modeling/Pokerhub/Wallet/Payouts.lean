import Pokerhub.Core.Service
import Pokerhub.Wallet.Postings

/-!
# Payouts and refunds

The operations that pay a disbursement, and those that reject and refund it, in any interleaving.
Asking the provider for the payout does not change the row of the disbursement, which stays
`pending` and can be rejected; and a refund is posted before the row is deleted. So a disbursement
is paid or refunded, and never both, as long as a refund is posted only when the payout was not
asked for and nobody who has read the row is still about to ask, and nobody reads a row whose refund
is posted in order to pay it.
-/

namespace Pokerhub.Wallet

open List Program

inductive PayoutOp where
  | confirm3DS (event : ProviderCallback) (ref disbId idempotencyKey : String)
  | requestDisbursement (id currency : String)
  | confirmPendingWithdrawal (id : String)
  | approve (userId : String)
  | retryPendingPayouts
  | processDisbursement (eventId idempotencyKey providerTxnId : String) (status : ProviderStatus)
  | rejectPendingWithdrawal (id : String)
  | reject (userId : String)
  deriving DecidableEq, Repr

/-- The operation refunds what it finds. -/
def PayoutOp.rejects : PayoutOp → Bool
  | .rejectPendingWithdrawal _ | .reject _ => true
  | _ => false

/-- A call of an operation; the number tells it from other calls of it. -/
structure PayoutCall where
  number : ℕ
  op : PayoutOp
  deriving DecidableEq, Repr

/-- The store, and the calls of paying operations that have read the row of the disbursement. -/
structure PayoutStore where
  store : Store
  readers : List PayoutCall := []

namespace Store

variable (s : Store) (id : String)

/-- The refund of the disbursement is in the journal. -/
def Refunded : Prop :=
  ∃ j ∈ s.journals, j.refType = "withdraw_reject" ∧ j.refId = id

/-- How many times the payout of the disbursement was asked for. -/
def requests : ℕ :=
  s.emitted.count ⟨"wallet.disbursement.request", id⟩

/-- The disbursement is stored as completed. -/
def Completed : Prop :=
  ∃ disb ∈ s.disbursements, disb.id = id ∧ disb.status = .completed

instance : Decidable (s.Refunded id) :=
  inferInstanceAs (Decidable (∃ j ∈ s.journals, j.refType = "withdraw_reject" ∧ j.refId = id))

instance : Decidable (s.Completed id) :=
  inferInstanceAs (Decidable (∃ disb ∈ s.disbursements, disb.id = id ∧ disb.status = .completed))

end Store

/-- A command, with a note of a paying call that reads the row of the disbursement `id`. -/
def PayoutStore.exec (id : String) (r : PayoutCall) (c : Cmd) (s : PayoutStore) :
    c.Answer × PayoutStore :=
  ((c.exec s.store).1,
    { store := (c.exec s.store).2
      readers := match c with
        | .findDisbursement q =>
          if !r.op.rejects && (s.store.disbursements.find? q).any (·.id == id) then r :: s.readers
          else s.readers
        | _ => s.readers })

section Service

variable (sha256 : String → String) (config : Config) (disb : Disbursement)

def PayoutOp.body : PayoutOp → WalletM Unit
  | .confirm3DS event ref disbId key => Wallet.confirm3DS sha256 config event ref disbId key
  | .requestDisbursement id currency => Wallet.requestDisbursement id currency
  | .confirmPendingWithdrawal id => Wallet.confirmPendingWithdrawal id
  | .approve userId => Wallet.approve userId
  | .retryPendingPayouts => Wallet.retryPendingPayouts config
  | .processDisbursement eventId key providerTxnId status =>
    Wallet.processDisbursement sha256 config eventId key providerTxnId status
  | .rejectPendingWithdrawal id => Wallet.rejectPendingWithdrawal sha256 config id
  | .reject userId => Wallet.reject sha256 config userId

/-- The operations, from a store in which the disbursement was not refunded. Every command may fail;
what else happens in the store leaves the journal, the events and the disbursements alone. -/
def payoutService : Service Cmd.Answer String Unit PayoutStore PayoutCall where
  init s := s.readers = [] ∧ ¬ s.store.Refunded disb.id
  ready _ _ := True
  body r := r.op.body sha256 config
  exec := PayoutStore.exec disb.id
  fails _ _ := True
  env s s' := s'.readers = s.readers ∧ s'.store.journals = s.store.journals ∧
    s'.store.emitted = s.store.emitted ∧ s'.store.disbursements = s.store.disbursements

instance (s : PayoutStore) (r : PayoutCall) :
    Decidable ((payoutService sha256 config disb).ready s r) :=
  isTrue trivial

instance (s : PayoutStore) (c : Cmd) :
    Decidable ((payoutService sha256 config disb).fails s c) :=
  isTrue trivial

end Service

/-- The payout was asked for, and the provider has approved it. -/
def Paid (disb : Disbursement) (P : Pool Cmd.Answer String Unit PayoutStore PayoutCall) : Prop :=
  0 < P.state.store.requests disb.id ∧ ∃ t ∈ P.threads, ∃ eventId providerTxnId,
    t.1.op = .processDisbursement eventId disb.idempotencyKey providerTxnId .approved

/-- The step does not let a payment and a refund of the disbursement meet: a paying call reads its
row only while its refund is not posted, and a refund is posted only if the payout was not asked
for, and every paying call that has read the row is done. -/
def Apart (id : String) (P : Pool Cmd.Answer String Unit PayoutStore PayoutCall) :
    Service.Action PayoutCall Cmd → Prop
  | .call r (.findDisbursement q) =>
    r.op.rejects = false → (P.state.store.disbursements.find? q).any (·.id == id) →
      ¬ P.state.store.Refunded id
  | .call _ (.transaction refType refId _ _) => refType = "withdraw_reject" → refId = id →
    P.state.store.requests id = 0 ∧ ¬ P.state.store.Completed id ∧
      ∀ t ∈ P.threads, t.1 ∈ P.state.readers → t.2.outcome.isSome = true
  | _ => True

instance (id : String) (P : Pool Cmd.Answer String Unit PayoutStore PayoutCall) :
    (a : Service.Action PayoutCall Cmd) → Decidable (Apart id P a)
  | .call r (.findDisbursement q) => inferInstanceAs (Decidable
      (r.op.rejects = false → (P.state.store.disbursements.find? q).any (·.id == id) →
        ¬ P.state.store.Refunded id))
  | .call _ (.transaction refType refId _ _) => inferInstanceAs (Decidable
      (refType = "withdraw_reject" → refId = id → P.state.store.requests id = 0 ∧
        ¬ P.state.store.Completed id ∧
        ∀ t ∈ P.threads, t.1 ∈ P.state.readers → t.2.outcome.isSome = true))
  | .call _ (.findAccount _) | .call _ .findAccounts | .call _ (.sumJournals _)
  | .call _ (.findJournals _) | .call _ (.findDeposit _) | .call _ (.findDeposits _)
  | .call _ (.insertDeposit _) | .call _ (.saveDeposit _) | .call _ (.findLastDisbursement _)
  | .call _ (.findDisbursements _) | .call _ (.saveDisbursement _)
  | .call _ (.deleteDisbursement _) | .call _ (.setNx _ _) | .call _ (.get _) | .call _ (.set _ _)
  | .call _ (.del _) | .call _ (.incrby _ _) | .call _ (.expire _) | .call _ (.emit _)
  | .call _ (.addPayout _ _) | .call _ (.addRetry _) | .call _ (.initiate3DS _ _)
  | .call _ (.kyc _) | .call _ (.flagged _ _) | .call _ (.side _)
  | .start _ | .fault _ _ | .env => isTrue trivial

/-! ### The invariant -/

/-- How far a call has come with the disbursement. -/
inductive PayStage where
  | free
  /-- It has read the row, and may ask for the payout or complete it. -/
  | holds
  deriving DecidableEq

structure PaidOrRefunded (id : String) (s : PayoutStore) (ls : List (PayoutCall × PayStage)) :
    Prop where
  never : s.store.Refunded id → s.store.requests id = 0 ∧ ¬ s.store.Completed id
  holds : ∀ rl ∈ ls, rl.2 = .holds → rl.1 ∈ s.readers ∧ ¬ s.store.Refunded id

/-- `Apart`, as far as the records tell. -/
def MayStep (id : String) (s : PayoutStore) (ls : List (PayoutCall × PayStage)) :
    Service.Action PayoutCall Cmd → Prop
  | .call r (.findDisbursement q) =>
    r.op.rejects = false → (s.store.disbursements.find? q).any (·.id == id) →
      ¬ s.store.Refunded id
  | .call _ (.transaction refType refId _ _) => refType = "withdraw_reject" → refId = id →
    s.store.requests id = 0 ∧ ¬ s.store.Completed id ∧
      ∀ rl ∈ ls, rl.1 ∈ s.readers → rl.2 = .free
  | _ => True

/-- A command that neither refunds nor pays the disbursement. -/
def Cmd.Calm (id : String) : Cmd → Prop
  | .transaction refType refId _ _ => refType = "withdraw_reject" → refId ≠ id
  | .emit event => event ≠ ⟨"wallet.disbursement.request", id⟩
  | .saveDisbursement disb => disb.id = id → disb.status = .pending
  | _ => True

section Invariant

variable {id : String} {s s' : PayoutStore} {ls ls₁ ls₂ : List (PayoutCall × PayStage)}
  {r : PayoutCall} {l l' : PayStage}

lemma Store.completed_saveDisbursement {s : Store} {disb : Disbursement}
    (h : (s.saveDisbursement disb).Completed id) :
    s.Completed id ∨ disb.id = id ∧ disb.status = .completed := by
  obtain ⟨d, hd, hid, hstatus⟩ := h
  simp only [saveDisbursement] at hd
  split at hd
  · obtain ⟨d', hd', heq⟩ := mem_map.mp hd
    split at heq
    · exact Or.inr ⟨heq ▸ hid, heq ▸ hstatus⟩
    · exact Or.inl ⟨d', hd', heq ▸ hid, heq ▸ hstatus⟩
  · rcases mem_append.mp hd with hd | hd
    · exact Or.inl ⟨d, hd, hid, hstatus⟩
    · obtain rfl := mem_singleton.mp hd
      exact Or.inr ⟨hid, hstatus⟩

/-- What such a command does to the disbursement. -/
lemma Cmd.Calm.exec {c : Cmd} (h : c.Calm id) (s : Store) :
    ((c.exec s).2.Refunded id → s.Refunded id) ∧ (c.exec s).2.requests id = s.requests id ∧
      ((c.exec s).2.Completed id → s.Completed id) := by
  cases c with
  | transaction refType refId providerTxnId rows =>
    rcases Cmd.exec_transaction refType refId providerTxnId rows s with hexec | hexec
    · rw [hexec]
      refine ⟨?_, ?_, ?_⟩
      · rintro ⟨j, hj, hrefType, hrefId⟩
        rw [Store.foldl_insert_journals] at hj
        rcases mem_append.mp hj with hj | hj
        · exact ⟨j, hj, hrefType, hrefId⟩
        · obtain ⟨row, -, rfl⟩ := mem_map.mp hj
          exact absurd hrefId (h hrefType)
      · rw [Store.foldl_insert_eq]
        rfl
      · rw [Store.foldl_insert_eq]
        exact fun h => h
    · rw [hexec]
      exact ⟨fun h => h, rfl, fun h => h⟩
  | emit event =>
    refine ⟨fun h => h, ?_, fun h => h⟩
    show (s.emitted ++ [event]).count _ = _
    rw [count_append, count_singleton, beq_eq_false_iff_ne.mpr h]
    rfl
  | saveDisbursement disb =>
    refine ⟨fun h => h, rfl, fun hcompleted => ?_⟩
    rcases Store.completed_saveDisbursement hcompleted with hcompleted | ⟨hid, hstatus⟩
    · exact hcompleted
    · rw [h hid] at hstatus
      cases hstatus
  | deleteDisbursement id' =>
    refine ⟨fun h => h, rfl, ?_⟩
    rintro ⟨d, hd, hid, hstatus⟩
    exact ⟨d, (mem_filter.mp hd).1, hid, hstatus⟩
  | setNx k v =>
    simp only [Cmd.exec]
    split <;> exact ⟨fun h => h, rfl, fun h => h⟩
  | expire k =>
    simp only [Cmd.exec]
    split <;> exact ⟨fun h => h, rfl, fun h => h⟩
  | _ => exact ⟨fun h => h, rfl, fun h => h⟩

lemma PayoutStore.readers_exec (c : Cmd) (h : r ∈ s.readers) (r' : PayoutCall) :
    r ∈ (s.exec id r' c).2.readers := by
  simp only [PayoutStore.exec]
  split
  · split
    · exact mem_cons_of_mem _ h
    · exact h
  · exact h

lemma PaidOrRefunded.calm (h : PaidOrRefunded id s ls) {c : Cmd} (hc : c.Calm id) :
    PaidOrRefunded id (s.exec id r c).2 ls := by
  obtain ⟨hrefunded, hrequests, hcompleted⟩ := hc.exec s.store
  refine ⟨fun hnew => ?_, fun rl hrl hl => ?_⟩
  · obtain ⟨hzero, hnot⟩ := h.never (hrefunded hnew)
    exact ⟨hrequests.trans hzero, fun hnew' => hnot (hcompleted hnew')⟩
  · obtain ⟨hreader, hnot⟩ := h.holds rl hrl hl
    exact ⟨PayoutStore.readers_exec c hreader r, fun hnew => hnot (hrefunded hnew)⟩

/-- The call in the middle goes on to the stage `l'`. -/
lemma PaidOrRefunded.stage (h : PaidOrRefunded id s (ls₁ ++ (r, l) :: ls₂))
    (hl : l' = .holds → r ∈ s.readers ∧ ¬ s.store.Refunded id) :
    PaidOrRefunded id s (ls₁ ++ (r, l') :: ls₂) := by
  refine ⟨h.never, fun rl hrl hholds => ?_⟩
  rcases Service.mem_replaced hrl with hrl | rfl
  · exact h.holds rl hrl hholds
  · exact hl hholds

/-- A call that holds the row lets it go before a refund. -/
lemma PaidOrRefunded.release (h : PaidOrRefunded id s (ls₁ ++ (r, .holds) :: ls₂)) :
    ¬ s.store.Refunded id ∧ PaidOrRefunded id s (ls₁ ++ (r, .free) :: ls₂) :=
  ⟨(h.holds (r, .holds) (by simp) rfl).2, h.stage fun hholds => by cases hholds⟩

/-- A refund is posted. -/
lemma PaidOrRefunded.refund (h : PaidOrRefunded id s (ls₁ ++ (r, .free) :: ls₂)) {c : Cmd}
    (hrequests : s.store.requests id = 0) (hcompleted : ¬ s.store.Completed id)
    (hfree : ∀ rl ∈ ls₁ ++ ls₂, rl.1 ∈ s.readers → rl.2 = .free)
    (hsame : (c.exec s.store).2.requests id = s.store.requests id)
    (hkeep : (c.exec s.store).2.Completed id → s.store.Completed id) :
    PaidOrRefunded id (s.exec id r c).2 (ls₁ ++ (r, .free) :: ls₂) := by
  refine ⟨fun _ => ⟨hsame.trans hrequests, fun hnew => hcompleted (hkeep hnew)⟩, ?_⟩
  intro rl hrl hholds
  -- nobody holds the row
  have hnone : rl.2 = .free := by
    have hreader := (h.holds rl hrl hholds).1
    rcases mem_append.mp hrl with hrl | hrl
    · exact hfree rl (mem_append_left _ hrl) hreader
    · rcases mem_cons.mp hrl with rfl | hrl
      · rfl
      · exact hfree rl (mem_append_right _ hrl) hreader
  rw [hnone] at hholds
  cases hholds

end Invariant

/-! ### The operations keep it -/

/-- The rules for a call among others. -/
abbrev payoutRules (sha256 : String → String) (config : Config) (disb : Disbursement)
    (r : PayoutCall) :=
  (payoutService sha256 config disb).protocolAmong (MayStep disb.id) (PaidOrRefunded disb.id) r

/-- A call that has come to its end does not hold the row. -/
def Released {α : Type} : Except String α → PayStage → Prop :=
  fun _ l => l = .free

section Programs

variable {sha256 : String → String} {config : Config} {disb x : Disbursement} {r : PayoutCall}
  {l : PayStage} {α β : Type}

/-- One command that neither refunds nor pays the disbursement. The call can go on without the row,
whatever the answer. -/
lemma wp_calm_bind {c : Cmd} {f : c.Answer → WalletM β} (hc : c.Calm disb.id)
    (hf : ∀ a, (f a).wp (payoutRules sha256 config disb r) Released l ∨
      (f a).wp (payoutRules sha256 config disb r) Released .free) :
    (run c >>= f).wp (payoutRules sha256 config disb r) Released l := by
  refine wp_bind (wp_command fun s γ hinv => ⟨fun _ => ?_, fun _ => ⟨.free, ?_, rfl⟩⟩)
  · have hinv' : PaidOrRefunded disb.id (s.1.exec disb.id r c).2 (s.2.1 ++ (r, l) :: s.2.2) :=
      PaidOrRefunded.calm hinv hc
    rcases hf (c.exec s.1.store).1 with hf | hf
    · exact ⟨l, hinv', hf⟩
    · exact ⟨.free, hinv'.stage (fun h => nomatch h), hf⟩
  · exact PaidOrRefunded.stage hinv fun h => nomatch h

/-- The last command. -/
lemma wp_calm_last {c : Cmd} (hc : c.Calm disb.id) :
    (run c).wp (payoutRules sha256 config disb r) Released l := by
  refine wp_command fun s γ hinv => ⟨fun _ => ?_, fun _ => ⟨.free, ?_, rfl⟩⟩
  · have hinv' : PaidOrRefunded disb.id (s.1.exec disb.id r c).2 (s.2.1 ++ (r, l) :: s.2.2) :=
      PaidOrRefunded.calm hinv hc
    exact ⟨.free, hinv'.stage (fun h => nomatch h), rfl⟩
  · exact PaidOrRefunded.stage hinv fun h => nomatch h

/-- A program of such commands in front of another. -/
lemma wp_calmProgram_bind {p : WalletM α} {f : α → WalletM β} (hp : p.Uses (Cmd.Calm disb.id))
    (hne : ∀ e, p ≠ .raise e) (hf : ∀ a, (f a).wp (payoutRules sha256 config disb r) Released l) :
    (p >>= f).wp (payoutRules sha256 config disb r) Released l := by
  induction p with
  | ret a => exact hf a
  | raise e => exact absurd rfl (hne e)
  | call c next ih =>
    intro s γ hinv
    have hdown : PaidOrRefunded disb.id s.1 (s.2.1 ++ (r, .free) :: s.2.2) :=
      PaidOrRefunded.stage hinv fun h => nomatch h
    have hinv' : PaidOrRefunded disb.id (s.1.exec disb.id r c).2 (s.2.1 ++ (r, l) :: s.2.2) :=
      PaidOrRefunded.calm hinv hp.1
    -- a program that throws next gives the row back
    have hnext : ∀ a, ((next a).bind f).wp (payoutRules sha256 config disb r) Released l ∨
        ((next a).bind f).wp (payoutRules sha256 config disb r) Released .free := by
      intro a
      by_cases hraise : ∃ e, next a = .raise e
      · obtain ⟨e, he⟩ := hraise
        rw [he]
        exact Or.inr rfl
      · exact Or.inl (ih a (hp.2 a) fun e he => hraise ⟨e, he⟩)
    refine ⟨fun _ => ?_, fun _ => ?_⟩
    · rcases hnext (some (c.exec s.1.store).1) with hnext | hnext
      · exact ⟨l, hinv', hnext⟩
      · exact ⟨.free, hinv'.stage (fun h => nomatch h), hnext⟩
    · rcases hnext none with hnext | hnext
      · exact ⟨l, hinv, hnext⟩
      · exact ⟨.free, hdown, hnext⟩

/-- A whole program of such commands, by a call that does not hold the row. -/
lemma wp_calmProgram {p : WalletM α} (hp : p.Uses (Cmd.Calm disb.id)) :
    p.wp (payoutRules sha256 config disb r) Released .free := by
  refine wp_of_uses (F := fun l' => l' = PayStage.free) hp ?_ (fun _ _ hl' => hl') rfl
  rintro c s γ l' hc rfl hinv -
  exact ⟨.free, rfl, PaidOrRefunded.calm hinv hc⟩

lemma wp_free_bind {p : WalletM α} {f : α → WalletM β} (hp : p.Uses (Cmd.Calm disb.id))
    (hf : ∀ a, (f a).wp (payoutRules sha256 config disb r) Released .free) :
    (p >>= f).wp (payoutRules sha256 config disb r) Released .free := by
  refine wp_bind (wp_mono (wp_calmProgram hp) ?_)
  rintro (e | a) l hl
  · exact hl
  · obtain rfl : l = .free := hl
    exact hf a

lemma findOneByOrFail_ne_raise (q : Account → Bool) (e : String) :
    findOneByOrFail q ≠ .raise e :=
  fun h => nomatch h

/-- A paying call reads a row, and holds it if it goes on with that of the disbursement. -/
lemma wp_read_bind {q : Disbursement → Bool} {f : Option Disbursement → WalletM β}
    (hr : r.op.rejects = false)
    (hnone : (f none).wp (payoutRules sha256 config disb r) Released .free)
    (hsome : ∀ x, q x = true →
      (f (some x)).wp (payoutRules sha256 config disb r) Released .free ∨
      (f (some x)).wp (payoutRules sha256 config disb r) Released
        (if x.id = disb.id then .holds else .free)) :
    (run (.findDisbursement q) >>= f).wp (payoutRules sha256 config disb r) Released l := by
  refine wp_bind (wp_command fun s γ hinv => ⟨fun hmay => ?_, fun _ => ⟨.free, ?_, rfl⟩⟩)
  · have hinv' : PaidOrRefunded disb.id (s.1.exec disb.id r (.findDisbursement q)).2
        (s.2.1 ++ (r, l) :: s.2.2) := PaidOrRefunded.calm hinv trivial
    have hfree : PaidOrRefunded disb.id (s.1.exec disb.id r (.findDisbursement q)).2
        (s.2.1 ++ (r, .free) :: s.2.2) := hinv'.stage fun h => nomatch h
    show ∃ l', PaidOrRefunded disb.id (s.1.exec disb.id r (.findDisbursement q)).2
      (s.2.1 ++ (r, l') :: s.2.2) ∧ (f (s.1.store.disbursements.find? q)).wp
        (payoutRules sha256 config disb r) Released l'
    cases hfind : s.1.store.disbursements.find? q with
    | none => exact ⟨.free, hfree, hnone⟩
    | some x =>
      rcases hsome x (find?_some hfind) with hx | hx
      · exact ⟨.free, hfree, hx⟩
      · refine ⟨_, hinv'.stage fun hholds => ?_, hx⟩
        have hid : x.id = disb.id := by
          by_contra hne
          rw [if_neg hne] at hholds
          cases hholds
        have hany : (s.1.store.disbursements.find? q).any (·.id == disb.id) = true := by
          rw [hfind, Option.any_some, hid]
          exact beq_self_eq_true _
        refine ⟨?_, hmay hr hany⟩
        simp [PayoutStore.exec, hr, hany]
  · exact PaidOrRefunded.stage hinv fun h => nomatch h

/-- The payout is asked for by a call that holds the row. -/
lemma wp_emitRequest :
    (emit "wallet.disbursement.request" x.id).wp (payoutRules sha256 config disb r) Released
      (if x.id = disb.id then .holds else .free) := by
  by_cases hid : x.id = disb.id
  · rw [if_pos hid]
    refine wp_command fun s γ hinv => ⟨fun _ => ⟨.free, ?_, rfl⟩, fun _ => ⟨.free, ?_, rfl⟩⟩
    · obtain ⟨hnot, hfree⟩ := PaidOrRefunded.release hinv
      exact ⟨fun hrefunded => absurd hrefunded hnot, hfree.holds⟩
    · exact (PaidOrRefunded.release hinv).2
  · rw [if_neg hid]
    refine wp_calm_last fun heq => hid ?_
    exact congrArg Event.id heq

lemma wp_requestDisbursement (hr : r.op.rejects = false) (id currency : String) :
    (requestDisbursement id currency).wp (payoutRules sha256 config disb r) Released l := by
  refine wp_read_bind hr rfl fun x _ => Or.inr ?_
  refine wp_calmProgram_bind (uses_findOneByOrFail trivial) (findOneByOrFail_ne_raise _)
    fun account => ?_
  refine wp_calm_bind trivial fun verified => ?_
  cases verified with
  | true => exact Or.inl wp_emitRequest
  | false => exact Or.inr rfl

lemma wp_enqueueDisbursement (hr : r.op.rejects = false) (id currency : String) :
    (enqueueDisbursement config id currency).wp (payoutRules sha256 config disb r) Released l := by
  unfold enqueueDisbursement
  split
  · exact wp_calm_last trivial
  · exact wp_requestDisbursement hr id currency

lemma wp_confirmPendingWithdrawal (hr : r.op.rejects = false) (id : String) :
    (confirmPendingWithdrawal id).wp (payoutRules sha256 config disb r) Released .free := by
  refine wp_read_bind hr rfl fun x _ => Or.inl ?_
  refine wp_free_bind (uses_findOneByOrFail trivial) fun account => ?_
  exact wp_requestDisbursement hr x.id account.currency

lemma wp_approve (hr : r.op.rejects = false) (userId : String) :
    (approve userId).wp (payoutRules sha256 config disb r) Released .free := by
  refine wp_free_bind (uses_run trivial) fun _ => ?_
  refine wp_free_bind (uses_run trivial) fun found => ?_
  cases found with
  | none => rfl
  | some x =>
    refine wp_free_bind (uses_findOneByOrFail trivial) fun account => ?_
    exact wp_requestDisbursement hr x.id account.currency

lemma wp_retryPendingPayouts (hr : r.op.rejects = false) :
    (retryPendingPayouts config).wp (payoutRules sha256 config disb r) Released .free := by
  refine wp_free_bind (uses_run trivial) fun pending => ?_
  refine wp_forEach (I := fun l => l = PayStage.free) rfl (fun _ hl => hl) ?_
  rintro x - l rfl
  refine wp_bind (wp_mono (wp_calmProgram (uses_findOneByOrFail trivial)) ?_)
  rintro (e | account) l hl
  · exact hl
  · refine wp_mono (wp_enqueueDisbursement hr x.id account.currency) ?_
    rintro (e | _) l' hl'
    · exact hl'
    · exact hl'

lemma uses_calmRecord {refType refId : String} {entries : List Movement}
    {providerTxnId : Option String} (h : refType = "withdraw_reject" → refId ≠ disb.id) :
    (record sha256 config refType refId entries providerTxnId).Uses (Cmd.Calm disb.id) := by
  refine uses_record (fun _ => trivial) (fun _ => h) fun topic htopic id heq => ?_
  have hname : topic = "wallet.disbursement.request" := congrArg Event.topic heq
  rw [hname] at htopic
  revert htopic
  decide

lemma wp_confirm3DS_payout (hr : r.op.rejects = false) (event : ProviderCallback)
    (ref disbId key : String) :
    (confirm3DS sha256 config event ref disbId key).wp (payoutRules sha256 config disb r) Released
      .free := by
  refine wp_free_bind (Uses.bind (uses_run trivial) fun _ => trivial) fun duplicate => ?_
  split
  · rfl
  refine wp_free_bind (uses_run trivial) fun found => ?_
  cases found with
  | none => rfl
  | some stored =>
    refine wp_free_bind (uses_run trivial) fun _ => ?_
    refine wp_free_bind (uses_findOneByOrFail trivial) fun user => ?_
    refine wp_free_bind (uses_findOneByOrFail trivial) fun house => ?_
    split
    · exact wp_free_bind (uses_calmRecord (by simp)) fun _ => rfl
    · exact wp_calmProgram (uses_onlyIf (uses_run trivial))
    · refine wp_free_bind (uses_calmRecord (by simp)) fun _ => ?_
      refine wp_free_bind (uses_run fun _ => rfl) fun _ => ?_
      exact wp_enqueueDisbursement hr disbId _
    · rfl

lemma record_zero_ne_raise (refType refId : String) (account : Account)
    (providerTxnId : Option String) (e : String) :
    record sha256 config refType refId [⟨account, 0⟩] providerTxnId ≠ .raise e := by
  unfold record
  rw [if_neg (by simp)]
  exact fun h => nomatch h

/-- The disbursement is completed by a call that holds the row. -/
lemma wp_saveCompleted : (run (.saveDisbursement { x with status := .completed })).wp
    (payoutRules sha256 config disb r) Released (if x.id = disb.id then .holds else .free) := by
  by_cases hid : x.id = disb.id
  · rw [if_pos hid]
    refine wp_command fun s γ hinv => ⟨fun _ => ⟨.free, ?_, rfl⟩, fun _ => ⟨.free, ?_, rfl⟩⟩
    · obtain ⟨hnot, hfree⟩ := PaidOrRefunded.release hinv
      exact ⟨fun hrefunded => absurd hrefunded hnot, hfree.holds⟩
    · exact (PaidOrRefunded.release hinv).2
  · rw [if_neg hid]
    exact wp_calm_last fun heq => absurd heq hid

lemma wp_processDisbursement (hr : r.op.rejects = false) (eventId key providerTxnId : String)
    (status : ProviderStatus) :
    (processDisbursement sha256 config eventId key providerTxnId status).wp
      (payoutRules sha256 config disb r) Released .free := by
  refine wp_free_bind (Uses.bind (uses_run trivial) fun _ => trivial) fun duplicate => ?_
  split
  · rfl
  refine wp_read_bind hr rfl fun x _ => ?_
  by_cases hcompleted : x.status = .completed
  · left
    dsimp only
    rw [if_pos hcompleted]
    rfl
  · right
    dsimp only
    rw [if_neg hcompleted]
    refine wp_calmProgram_bind (uses_findOneByOrFail trivial) (findOneByOrFail_ne_raise _)
      fun user => ?_
    refine wp_calmProgram_bind (uses_findOneByOrFail trivial) (findOneByOrFail_ne_raise _)
      fun house => ?_
    refine wp_calmProgram_bind (uses_calmRecord (by simp)) (record_zero_ne_raise _ _ _ _) fun _ => ?_
    split
    · exact wp_saveCompleted
    · exact wp_enqueueDisbursement hr x.id user.currency

/-! The rejections. -/

/-- A refund is posted in the absence of others, if it is that of the disbursement. -/
lemma wp_refundTransaction {f : Bool → WalletM β} {rows : List (Movement × String)}
    (hf : ∀ b, (f b).wp (payoutRules sha256 config disb r) Released .free) (id : String) :
    (run (.transaction "withdraw_reject" id none rows) >>= f).wp (payoutRules sha256 config disb r)
      Released .free := by
  by_cases hid : id = disb.id
  · refine wp_bind (wp_command fun s γ hinv => ⟨fun hmay => ?_, fun _ => ⟨.free, hinv, rfl⟩⟩)
    obtain ⟨hrequests, hcompleted, hfree⟩ := hmay rfl hid
    refine ⟨.free, PaidOrRefunded.refund hinv hrequests hcompleted hfree ?_ ?_, hf _⟩
    · rcases Cmd.exec_transaction "withdraw_reject" id none rows s.1.store with hexec | hexec
      · rw [hexec, Store.foldl_insert_eq]
        rfl
      · rw [hexec]
    · rcases Cmd.exec_transaction "withdraw_reject" id none rows s.1.store with hexec | hexec
      · rw [hexec, Store.foldl_insert_eq]
        exact fun h => h
      · rw [hexec]
        exact fun h => h
  · exact wp_calm_bind (fun _ => hid) fun b => Or.inl (hf b)

lemma wp_refundDisbursement :
    (refundDisbursement sha256 config x).wp (payoutRules sha256 config disb r) Released .free := by
  refine wp_free_bind (uses_findOneByOrFail trivial) fun account => ?_
  refine wp_free_bind (uses_findOneByOrFail trivial) fun house => ?_
  unfold record
  rw [if_neg (by simp)]
  refine wp_free_bind (uses_run trivial) fun existing => ?_
  split
  · rfl
  refine wp_refundTransaction (fun inserted => ?_) x.id
  split
  · refine wp_free_bind (uses_forEach fun e _ => uses_announce fun topic htopic id heq => ?_)
      fun _ => rfl
    have hname : topic = "wallet.disbursement.request" := congrArg Event.topic heq
    rw [hname] at htopic
    revert htopic
    decide
  · rfl

/-- The refund, and the deletion of the row. -/
lemma wp_refundAndDelete :
    (do
      let _ ← refundDisbursement sha256 config x
      run (.deleteDisbursement x.id)).wp (payoutRules sha256 config disb r) Released .free := by
  refine wp_bind (wp_mono wp_refundDisbursement ?_)
  rintro (e | _) l hl
  · exact hl
  · exact wp_calm_last trivial

lemma wp_payoutOp (r : PayoutCall) : (r.op.body sha256 config).wp
    (payoutRules sha256 config disb r) Released .free := by
  obtain ⟨number, op⟩ := r
  cases op with
  | confirm3DS event ref disbId key => exact wp_confirm3DS_payout rfl event ref disbId key
  | requestDisbursement id currency => exact wp_requestDisbursement rfl id currency
  | confirmPendingWithdrawal id => exact wp_confirmPendingWithdrawal rfl id
  | approve userId => exact wp_approve rfl userId
  | retryPendingPayouts => exact wp_retryPendingPayouts rfl
  | processDisbursement eventId key providerTxnId status =>
    exact wp_processDisbursement rfl eventId key providerTxnId status
  | rejectPendingWithdrawal id =>
    refine wp_free_bind (uses_run trivial) fun found => ?_
    cases found with
    | none => rfl
    | some x => exact wp_refundAndDelete
  | reject userId =>
    refine wp_free_bind (uses_run trivial) fun _ => ?_
    refine wp_free_bind (uses_run trivial) fun found => ?_
    cases found with
    | none => rfl
    | some x => exact wp_refundAndDelete

end Programs

/-- The invariant in the runs in which payments and refunds are apart. -/
lemma exists_paidOrRefunded {sha256 : String → String} {config : Config} {disb : Disbursement}
    {P : Pool Cmd.Answer String Unit PayoutStore PayoutCall}
    (h : ((payoutService sha256 config disb).system.restrict (Apart disb.id)).Reachable P) :
    ∃ ls, PaidOrRefunded disb.id P.state ls := by
  have hok : ∀ s ts₁ t ts₂ ls a, Apart disb.id ⟨s, ts₁ ++ t :: ts₂⟩ a →
      Forall₂ (fun t rl => t.1 = rl.1 ∧ t.2.wp (payoutRules sha256 config disb rl.1) Released rl.2)
        (ts₁ ++ ts₂) ls → MayStep disb.id s ls a := by
    intro s ts₁ t ts₂ ls a hapart hts
    cases a with
    | call r c =>
      cases c with
      | findDisbursement q => exact hapart
      | transaction refType refId providerTxnId rows =>
        intro hrefType hrefId
        obtain ⟨hrequests, hcompleted, hdone⟩ := hapart hrefType hrefId
        refine ⟨hrequests, hcompleted, fun rl hrl hreader => ?_⟩
        -- a reader is done, so it does not hold the row any more
        obtain ⟨t', ht', heq, hwp⟩ := Service.exists_left hts hrl
        have hmem : t' ∈ ts₁ ++ t :: ts₂ := by
          rcases mem_append.mp ht' with ht' | ht'
          · exact mem_append_left _ ht'
          · exact mem_append_right _ (mem_cons_of_mem _ ht')
        have hisSome := hdone t' hmem (heq ▸ hreader)
        obtain ⟨o, ho⟩ := Option.isSome_iff_exists.mp hisSome
        exact wp_outcome hwp ho
      | _ => trivial
    | _ => trivial
  have hinit : ∀ s, (payoutService sha256 config disb).init s → PaidOrRefunded disb.id s [] := by
    rintro s ⟨-, hnot⟩
    exact ⟨fun hrefunded => absurd hrefunded hnot, fun rl hrl => absurd hrl not_mem_nil⟩
  have hstart : ∀ s ls (r : PayoutCall), PaidOrRefunded disb.id s ls →
      PaidOrRefunded disb.id s (ls ++ [(r, .free)]) := by
    intro s ls r hs
    refine ⟨hs.never, fun rl hrl hholds => ?_⟩
    rcases mem_append.mp hrl with hrl | hrl
    · exact hs.holds rl hrl hholds
    · rw [mem_singleton.mp hrl] at hholds
      cases hholds
  have henv : ∀ s s' ls, PaidOrRefunded disb.id s ls → (payoutService sha256 config disb).env s s' →
      PaidOrRefunded disb.id s' ls := by
    rintro s s' ls hs ⟨hreaders, hjournals, hemitted, hdisbursements⟩
    have hrefunded : s'.store.Refunded disb.id ↔ s.store.Refunded disb.id := by
      rw [Store.Refunded, hjournals, Store.Refunded]
    refine ⟨fun hnew => ?_, fun rl hrl hholds => ?_⟩
    · rw [Store.requests, Store.Completed, hemitted, hdisbursements]
      exact hs.never (hrefunded.mp hnew)
    · rw [hreaders, hrefunded]
      exact hs.holds rl hrl hholds
  obtain ⟨ls, -, hinv⟩ := Service.invariant_among (Q := fun _ => Released) hok hinit
    (fun s ls r hs _ => ⟨.free, hstart s ls r hs, wp_payoutOp r⟩) henv h
  exact ⟨ls, hinv⟩

/-- A refund stays in the journal. -/
lemma refunded_step {sha256 : String → String} {config : Config} {disb : Disbursement} {id : String}
    {P P' : Pool Cmd.Answer String Unit PayoutStore PayoutCall} {a : Service.Action PayoutCall Cmd}
    (h : (payoutService sha256 config disb).Step P a P') (hP : P.state.store.Refunded id) :
    P'.state.store.Refunded id := by
  rcases h.state_cases with heq | ⟨r, c, next, rfl, -, heq⟩ | ⟨rfl, -, hjournals, -⟩
  · rw [heq]
    exact hP
  · rw [heq]
    show (c.exec P.state.store).2.Refunded id
    obtain ⟨j, hj, href⟩ := hP
    rcases c.exec_money P.state.store with ⟨refType, refId, txn, rows, rfl⟩ | ⟨-, hjournals⟩
    · rcases Cmd.exec_transaction refType refId txn rows P.state.store with hexec | hexec
      · refine ⟨j, ?_, href⟩
        rw [hexec, Store.foldl_insert_journals]
        exact mem_append_left _ hj
      · rw [hexec]
        exact ⟨j, hj, href⟩
    · exact ⟨j, hjournals ▸ hj, href⟩
  · rw [Store.Refunded, hjournals]
    exact hP

/-- In the runs in which the payments and the refund of a disbursement are apart, it is not both
paid and refunded, and once it is refunded it is neither asked for nor completed any more. -/
theorem paid_or_refunded {sha256 : String → String} {config : Config} {disb : Disbursement}
    {P P' : Pool Cmd.Answer String Unit PayoutStore PayoutCall}
    (h : ((payoutService sha256 config disb).system.restrict (Apart disb.id)).Reachable P)
    (hmoves : Relation.ReflTransGen
      ((payoutService sha256 config disb).system.restrict (Apart disb.id)).Moves P P') :
    ¬ (Paid disb P ∧ P.state.store.Refunded disb.id) ∧
      (P.state.store.Refunded disb.id →
        P'.state.store.requests disb.id = P.state.store.requests disb.id ∧
          (P'.state.store.Completed disb.id → P.state.store.Completed disb.id)) := by
  obtain ⟨ls, hinv⟩ := exists_paidOrRefunded h
  refine ⟨?_, fun hrefunded => ?_⟩
  · rintro ⟨⟨hpos, -⟩, hrefunded⟩
    exact absurd (hinv.never hrefunded).1 (Nat.pos_iff_ne_zero.mp hpos)
  · have hlater := TransitionSystem.invariant_of_moves
      (I := fun P' => ((payoutService sha256 config disb).system.restrict
        (Apart disb.id)).Reachable P' ∧ P'.state.store.Refunded disb.id)
      (fun _ _ _ hP hs => ⟨hP.1.tail hs, refunded_step hs.2 hP.2⟩) hmoves ⟨h, hrefunded⟩
    obtain ⟨ls', hinv'⟩ := exists_paidOrRefunded hlater.1
    obtain ⟨hzero', hnot'⟩ := hinv'.never hlater.2
    exact ⟨hzero'.trans (hinv.never hrefunded).1.symm, fun hcompleted => absurd hcompleted hnot'⟩

/-! A withdrawal of 100 that is waiting for the decision of an admin. -/

def waitingWithdrawal : Disbursement :=
  ⟨"w1", "u1", 100, "k1", .pending⟩

def withdrawalStore : PayoutStore where
  store := {
    accounts := [⟨"u1", "alice", "USD", 0, true⟩, ⟨"h1", "house", "USD", 1000, true⟩]
    disbursements := [waitingWithdrawal] }

lemma init_withdrawalStore :
    (payoutService id {} waitingWithdrawal).init withdrawalStore :=
  ⟨rfl, by decide⟩

/-- It is confirmed, then rejected, and then the provider approves the payout. -/
def rejectedAfterRequest : Pool Cmd.Answer String Unit PayoutStore PayoutCall :=
  (payoutService id {} waitingWithdrawal).playAll ⟨withdrawalStore, []⟩
    (.start ⟨0, .confirmPendingWithdrawal "w1"⟩ :: List.replicate 6 (.call 0) ++
      .start ⟨1, .rejectPendingWithdrawal "w1"⟩ :: List.replicate 9 (.call 1) ++
      .start ⟨2, .processDisbursement "e1" "k1" "t1" .approved⟩ :: List.replicate 2 (.call 2))

/-- The withdrawal is paid and refunded. -/
theorem rejected_withdrawal_paid :
    ¬ ∀ (sha256 : String → String) (config : Config) (disb : Disbursement)
      (P P' : Pool Cmd.Answer String Unit PayoutStore PayoutCall),
      (payoutService sha256 config disb).system.Reachable P →
      Relation.ReflTransGen (payoutService sha256 config disb).system.Moves P P' →
      ¬ (Paid disb P ∧ P.state.store.Refunded disb.id) ∧
        (P.state.store.Refunded disb.id →
          P'.state.store.requests disb.id = P.state.store.requests disb.id ∧
            (P'.state.store.Completed disb.id → P.state.store.Completed disb.id)) := by
  intro h
  have hreach : ((payoutService id {} waitingWithdrawal).within fun _ _ => True).Reachable
      rejectedAfterRequest :=
    Service.reachable_playAll_of_closed init_withdrawalStore (by decide +kernel)
  refine (h id {} waitingWithdrawal rejectedAfterRequest _ hreach.of_restrict .refl).1 ⟨⟨?_, ?_⟩, ?_⟩
  · decide +kernel
  · have happroved : ∃ t ∈ rejectedAfterRequest.threads,
        t.1.op = .processDisbursement "e1" "k1" "t1" .approved := by decide +kernel
    obtain ⟨t, ht, hop⟩ := happroved
    exact ⟨t, ht, "e1", "t1", hop⟩
  · decide +kernel

/-- It is rejected, and then confirmed. -/
def confirmedAfterRejection : Pool Cmd.Answer String Unit PayoutStore PayoutCall :=
  (payoutService id {} waitingWithdrawal).playAll ⟨withdrawalStore, []⟩
    (.start ⟨0, .rejectPendingWithdrawal "w1"⟩ :: List.replicate 9 (.call 0) ++
      .start ⟨1, .confirmPendingWithdrawal "w1"⟩ :: [.call 1])

theorem paid_or_refunded_confirmedAfterRejection :
    confirmedAfterRejection.state.store.Refunded "w1" ∧
      ¬ Paid waitingWithdrawal confirmedAfterRejection := by
  have hreach : ((payoutService id {} waitingWithdrawal).system.restrict
      (Apart waitingWithdrawal.id)).Reachable confirmedAfterRejection :=
    Service.reachable_playAll_of_closed init_withdrawalStore (by decide +kernel)
  have hrefunded : confirmedAfterRejection.state.store.Refunded "w1" := by decide +kernel
  exact ⟨hrefunded, fun hpaid => (paid_or_refunded hreach .refl).1 ⟨hpaid, hrefunded⟩⟩

end Pokerhub.Wallet
