import Pokerhub.Core.Service
import Pokerhub.Wallet.Postings

/-!
# The double-entry invariant under failures

The operations of the wallet, one after another, where any statement and any emission may fail. In
every state the balances are the sums of the journal entries, the totals of the currencies are the
initial ones, and the entries of every reference sum to zero.
-/

namespace Pokerhub.Wallet

open List Program

inductive Operation where
  | reserve (accountId : String) (amount : ℤ) (refId currency : String)
      (idempotencyKey : Option String)
  | commit (refId : String) (amount rakeAmount : ℤ) (currency : String)
      (idempotencyKey : Option String)
  | rollback (accountId : String) (amount : ℤ) (refId currency : String)
      (idempotencyKey : Option String)
  | refundDisbursement (disb : Disbursement)
  | confirm3DS (event : ProviderCallback) (ref disbId idempotencyKey : String)
  | processDisbursement (eventId idempotencyKey providerTxnId : String) (status : ProviderStatus)
  | confirmPendingDeposit (id : String)
  | adminAdjustBalance (userId : String) (action : Adjustment) (amount : ℤ)
      (currency refId : String)

/-- The users whom the operation names are user accounts. -/
def Operation.OfUsers (s : Store) : Operation → Prop
  | .reserve accountId _ _ _ _ => s.IsUser accountId
  | .rollback accountId _ _ _ _ => s.IsUser accountId
  | .refundDisbursement disb => s.IsUser disb.accountId
  | .adminAdjustBalance userId _ _ _ _ => s.IsUser userId
  | _ => True

instance (s : Store) : (op : Operation) → Decidable (op.OfUsers s)
  | .reserve accountId _ _ _ _ => inferInstanceAs (Decidable (s.IsUser accountId))
  | .rollback accountId _ _ _ _ => inferInstanceAs (Decidable (s.IsUser accountId))
  | .refundDisbursement disb => inferInstanceAs (Decidable (s.IsUser disb.accountId))
  | .adminAdjustBalance userId _ _ _ _ => inferInstanceAs (Decidable (s.IsUser userId))
  | .commit _ _ _ _ _ => isTrue trivial
  | .confirm3DS _ _ _ _ => isTrue trivial
  | .processDisbursement _ _ _ _ => isTrue trivial
  | .confirmPendingDeposit _ => isTrue trivial

/-- The challenges and deposits that are stored are of user accounts. -/
structure Store.UsersOnly (s : Store) : Prop where
  challenges : ∀ id (c : Challenge), s.redis (.challenge id) = some c → s.IsUser c.accountId
  deposits : ∀ d ∈ s.pendingDeposits, s.IsUser d.userId

/-- Books in order, with the totals `T`. -/
structure Books (T : String → ℤ) (s : Store) : Prop where
  keyed : s.Keyed
  users : s.UsersOnly
  reconciled : s.Reconciled
  totals : ∀ currency, s.total currency = T currency
  refs : ∀ refType refId, s.refTotal refType refId = 0

section Service

variable (sha256 : String → String) (config : Config)

def Operation.body : Operation → WalletM Unit
  | .reserve accountId amount refId currency key => do
    let _ ← Wallet.reserve sha256 config accountId amount refId currency key
    return ()
  | .commit refId amount rakeAmount currency key => do
    let _ ← Wallet.commit sha256 config refId amount rakeAmount currency key
    return ()
  | .rollback accountId amount refId currency key => do
    let _ ← Wallet.rollback sha256 config accountId amount refId currency key
    return ()
  | .refundDisbursement disb => do
    let _ ← Wallet.refundDisbursement sha256 config disb
    return ()
  | .confirm3DS event ref disbId key => Wallet.confirm3DS sha256 config event ref disbId key
  | .processDisbursement eventId key providerTxnId status =>
    Wallet.processDisbursement sha256 config eventId key providerTxnId status
  | .confirmPendingDeposit id => do
    let _ ← Wallet.confirmPendingDeposit sha256 config id
    return ()
  | .adminAdjustBalance userId action amount currency refId => do
    let _ ← Wallet.adminAdjustBalance sha256 config userId action amount currency refId
    return ()

/-- The operations on books that are in order at first; every command may fail. -/
def ledgerService (T : String → ℤ) : Service Cmd.Answer String Unit Store Operation where
  init := Books T
  ready s op := op.OfUsers s
  body := Operation.body sha256 config
  exec _ := Cmd.exec
  fails _ _ := True
  env _ _ := False

instance (T : String → ℤ) (s : Store) (op : Operation) :
    Decidable ((ledgerService sha256 config T).ready s op) :=
  inferInstanceAs (Decidable (op.OfUsers s))

instance (T : String → ℤ) (s : Store) (c : Cmd) :
    Decidable ((ledgerService sha256 config T).fails s c) :=
  isTrue trivial

instance (T : String → ℤ) (s s' : Store) : Decidable ((ledgerService sha256 config T).env s s') :=
  isFalse id

end Service

/-! ### Commands that leave the books alone -/

/-- A command that posts nothing and stores no challenge and no deposit. -/
def Cmd.Quiet : Cmd → Prop
  | .transaction _ _ _ _ => False
  | .insertDeposit _ => False
  | .setNx (.challenge _) _ => False
  | .set _ _ => False
  | _ => True

namespace Books

variable {T : String → ℤ} {s s' : Store}

lemma congr (hs : Books T s) (haccounts : s'.accounts = s.accounts)
    (hjournals : s'.journals = s.journals)
    (hchallenges : ∀ id c, s'.redis (.challenge id) = some c → s.redis (.challenge id) = some c)
    (hdeposits : ∀ d' ∈ s'.pendingDeposits, ∃ d ∈ s.pendingDeposits, d.userId = d'.userId) :
    Books T s' := by
  have hrows : s'.accountRows = s.accountRows := by rw [Store.accountRows, haccounts]; rfl
  refine ⟨hs.keyed.congr hrows, ⟨?_, ?_⟩, ?_, ?_, ?_⟩
  · intro id c hc
    exact Store.isUser_congr hrows (hs.users.challenges id c (hchallenges id c hc))
  · intro d' hd'
    obtain ⟨d, hd, heq⟩ := hdeposits d' hd'
    rw [← heq]
    exact Store.isUser_congr hrows (hs.users.deposits d hd)
  · intro a ha
    rw [haccounts] at ha
    rw [hs.reconciled a ha, Store.journalTotal, Store.journalTotal, hjournals]
  · intro currency
    rw [← hs.totals currency, Store.total, Store.total, haccounts]
  · intro refType refId
    rw [← hs.refs refType refId, Store.refTotal, Store.refTotal, hjournals]

lemma exec {c : Cmd} (hs : Books T s) (hc : c.Quiet) : Books T (c.exec s).2 := by
  have hrefl : ∀ d' ∈ s.pendingDeposits, ∃ d ∈ s.pendingDeposits, d.userId = d'.userId :=
    fun d hd => ⟨d, hd, rfl⟩
  cases c with
  | transaction => exact hc.elim
  | insertDeposit => exact hc.elim
  | set => exact hc.elim
  | saveDeposit deposit =>
    refine hs.congr rfl rfl (fun _ _ h => h) fun d' hd' => ?_
    obtain ⟨d, hd, rfl⟩ := mem_map.mp hd'
    refine ⟨d, hd, ?_⟩
    split <;> rfl
  | setNx k v =>
    simp only [Cmd.exec]
    split
    · exact hs
    · refine hs.congr rfl rfl (fun id c h => ?_) hrefl
      cases k with
      | challenge => exact hc.elim
      | _ => rwa [Store.setKey_redis_of_ne (by simp)] at h
  | del k =>
    refine hs.congr rfl rfl (fun id c h => ?_) hrefl
    simp only [Cmd.exec] at h
    by_cases hk : RedisKey.challenge id = k
    · subst hk
      simp at h
    · rwa [Store.setKey_redis_of_ne hk] at h
  | expire k =>
    simp only [Cmd.exec]
    split
    · exact hs.congr rfl rfl (fun _ _ h => h) hrefl
    · exact hs
  | _ => exact hs.congr rfl rfl (fun _ _ h => h) hrefl

/-- A balanced posting on accounts as they are stored leaves the books in order. -/
lemma transaction {refType refId : String} {providerTxnId : Option String}
    {rows : List (Movement × String)} (hs : Books T s) (hrows : s.Loaded rows) {c : String}
    (hcur : ∀ row ∈ rows, row.1.account.currency = c) (hsum : (rows.map (·.1.amount)).sum = 0) :
    Books T (rows.foldl (Store.insert refType refId providerTxnId) s) := by
  have haccounts : (rows.foldl (Store.insert refType refId providerTxnId) s).accountRows =
      s.accountRows := Store.accountRows_foldl_insert
  refine ⟨hs.keyed.congr haccounts, ⟨?_, ?_⟩, hs.reconciled.foldl_insert hs.keyed hrows, ?_, ?_⟩
  · intro id ch hc
    rw [Store.foldl_insert_eq] at hc
    exact Store.isUser_congr haccounts (hs.users.challenges id ch hc)
  · intro d hd
    rw [Store.foldl_insert_eq] at hd
    exact Store.isUser_congr haccounts (hs.users.deposits d hd)
  · intro currency
    rw [Store.total_foldl_insert hs.keyed hrows hcur, hsum, hs.totals]
    simp
  · intro refType' refId'
    rw [Store.refTotal_foldl_insert, hsum, hs.refs]
    simp

end Books

/-! ### Rules for programs that run alone -/

/-- The program keeps the books from the state `s` on, whatever fails. -/
def KeepsBooks (T : String → ℤ) {α : Type} (p : WalletM α) (s : Store) : Prop :=
  p.wp (.alone Cmd.exec (fun _ _ => True) (Books T)) (fun _ _ => True) s

namespace KeepsBooks

variable {T : String → ℤ} {α β : Type} {s : Store}

lemma ret (a : α) : KeepsBooks T (Program.ret a) s := trivial

lemma raise (e : String) : KeepsBooks T (Program.raise e : WalletM α) s := trivial

lemma run_bind {c : Cmd} {f : c.Answer → WalletM α} (h : Books T s → Books T (c.exec s).2 ∧
    KeepsBooks T (f (c.exec s).1) (c.exec s).2) :
    KeepsBooks T (run c >>= f) s := by
  refine wp_bind (wp_command fun s' _ ⟨heq, hs⟩ => ?_)
  subst heq
  obtain ⟨hs', hf⟩ := h hs
  exact ⟨fun _ => ⟨_, ⟨rfl, hs'⟩, hf⟩, fun _ => ⟨_, ⟨rfl, hs⟩, trivial⟩⟩

/-- A command that only reads. -/
lemma read_bind {c : Cmd} {f : c.Answer → WalletM α} (hread : (c.exec s).2 = s)
    (h : Books T s → KeepsBooks T (f (c.exec s).1) s) :
    KeepsBooks T (run c >>= f) s := by
  refine run_bind fun hs => ?_
  rw [hread]
  exact ⟨hs, h hs⟩

lemma find_bind {q : Account → Bool} {f : Account → WalletM α}
    (h : Books T s → ∀ a ∈ s.accounts, q a = true → KeepsBooks T (f a) s) :
    KeepsBooks T (findOneByOrFail q >>= f) s := by
  refine wp_bind (wp_bind (wp_command fun s' _ ⟨heq, hs⟩ => ?_))
  subst heq
  refine ⟨fun _ => ⟨_, ⟨rfl, hs⟩, ?_⟩, fun _ => ⟨_, ⟨rfl, hs⟩, trivial⟩⟩
  cases hfind : s'.accounts.find? q with
  | none =>
    simp only [Protocol.alone, Cmd.exec, hfind]
    exact trivial
  | some a =>
    simp only [Protocol.alone, Cmd.exec, hfind]
    exact h hs a (mem_of_find?_eq_some hfind) (find?_some hfind)

/-- A program that posts nothing. -/
lemma of_quiet {p : WalletM α} (h : p.Uses Cmd.Quiet) : KeepsBooks T p s := by
  refine wp_of_uses (F := fun _ => True) h ?_ (fun _ _ _ => trivial) trivial
  rintro c s' _ l hc - ⟨rfl, hs⟩ -
  exact ⟨_, trivial, rfl, hs.exec hc⟩

lemma bind {p : WalletM α} {f : α → WalletM β} (hp : KeepsBooks T p s)
    (hf : ∀ a s, KeepsBooks T (f a) s) : KeepsBooks T (p >>= f) s := by
  refine wp_bind (wp_mono hp ?_)
  rintro (e | a) s' -
  · trivial
  · exact hf a s'

lemma ensure {p : WalletM α} {last : WalletM Unit} (hp : KeepsBooks T p s)
    (hlast : ∀ s, KeepsBooks T last s) :
    KeepsBooks T (p.ensure last) s := by
  refine wp_ensure (wp_mono hp fun _ s' _ => wp_mono (hlast s') ?_)
  rintro (e | a) _ -
  · trivial
  · trivial

end KeepsBooks

/-! ### The operations -/

section Bodies

variable {sha256 : String → String} {config : Config} {T : String → ℤ} {s : Store}

/-- A balanced posting keeps the books, if its accounts are as they are stored. -/
lemma keepsBooks_record {refType refId : String} {providerTxnId : Option String}
    {entries : List Movement} {c : String} (hmem : ∀ e ∈ entries, e.account ∈ s.accounts)
    (hids : (entries.map (·.account.id)).Nodup)
    (hcur : ∀ e ∈ entries, e.account.currency = c) :
    KeepsBooks T (record sha256 config refType refId entries providerTxnId) s := by
  unfold record
  split_ifs with hsum
  · exact .raise _
  · refine .read_bind rfl fun _ => ?_
    split_ifs with hexisting
    · exact .ret _
    · refine .run_bind fun hs => ?_
      -- the transaction inserts all rows or none
      have hrows : s.Loaded (entries.map fun e =>
          (e, buildHash sha256 refType refId e.account.id e.amount)) := by
        refine ⟨?_, by simpa [Function.comp_def] using hids⟩
        rintro row hrow
        obtain ⟨e, he, rfl⟩ := mem_map.mp hrow
        exact hmem e he
      rcases Cmd.exec_transaction refType refId providerTxnId (entries.map fun e =>
          (e, buildHash sha256 refType refId e.account.id e.amount)) s with hexec | hexec
      · rw [hexec]
        refine ⟨hs.transaction hrows (c := c) ?_ ?_, ?_⟩
        · rintro row hrow
          obtain ⟨e, he, rfl⟩ := mem_map.mp hrow
          exact hcur e he
        · simpa [Function.comp_def] using hsum
        · rw [if_pos rfl]
          refine .bind (.of_quiet (uses_forEach fun e _ => uses_announce fun _ _ _ => trivial)) ?_
          intro _ _
          exact .ret _
      · rw [hexec, if_neg Bool.false_ne_true]
        exact ⟨hs, .raise _⟩

/-- A posting between a user and a system account. -/
lemma keepsBooks_transfer {refType refId : String} {providerTxnId : Option String}
    {x y : Account} {m n : ℤ} (hx : x ∈ s.accounts) (hy : y ∈ s.accounts) (hid : x.id ≠ y.id)
    (hcur : x.currency = y.currency) :
    KeepsBooks T (record sha256 config refType refId [⟨x, m⟩, ⟨y, n⟩] providerTxnId)
      s := by
  refine keepsBooks_record (c := y.currency) ?_ ?_ ?_
  · rintro e he
    rcases mem_pair.mp he with rfl | rfl
    · exact hx
    · exact hy
  · simpa using hid
  · rintro e he
    rcases mem_pair.mp he with rfl | rfl
    · exact hcur
    · rfl

lemma keepsBooks_reserve {accountId : String} {amount : ℤ} {refId currency : String}
    {key : Option String} (huser : s.IsUser accountId) :
    KeepsBooks T (reserve sha256 config accountId amount refId currency key) s := by
  refine .find_bind fun _ user hmem hq => ?_
  obtain ⟨rfl, rfl⟩ := byId_iff.mp hq
  refine .find_bind fun _ reserve hmem' hq' => ?_
  obtain ⟨hname, hcur⟩ := byName_iff.mp hq'
  have hid : user.id ≠ reserve.id := huser.ne hmem' (by simp [hname])
  cases key with
  | none => exact keepsBooks_transfer hmem hmem' hid hcur.symm
  | some key => exact .read_bind rfl fun _ => keepsBooks_transfer hmem hmem' hid hcur.symm

lemma keepsBooks_commit {refId : String} {amount rakeAmount : ℤ} {currency : String}
    {key : Option String} :
    KeepsBooks T (commit sha256 config refId amount rakeAmount currency key) s := by
  refine .find_bind fun hs reserve hreserve hq => ?_
  obtain ⟨hrname, hrcur⟩ := byName_iff.mp hq
  refine .find_bind fun _ prize hprize hq => ?_
  obtain ⟨hpname, hpcur⟩ := byName_iff.mp hq
  refine .find_bind fun _ rakeAcc hrake hq => ?_
  obtain ⟨hkname, hkcur⟩ := byName_iff.mp hq
  -- accounts of different names have different ids
  have hne : ∀ {x y : Account}, x ∈ s.accounts → y ∈ s.accounts → x.name ≠ y.name → x.id ≠ y.id :=
    fun hx hy hname hid => hname (congrArg Account.name (hs.keyed.eq_of_id hx hy hid))
  refine .bind (keepsBooks_record (c := currency) ?_ ?_ ?_) fun _ s => ?_
  · simp only [forall_mem_cons]
    exact ⟨hreserve, hprize, hrake, by simp⟩
  · simp only [map_cons, map_nil, nodup_cons, mem_cons, not_mem_nil, or_false, not_or,
      not_false_eq_true, nodup_nil, and_true]
    refine ⟨⟨hne hreserve hprize ?_, hne hreserve hrake ?_⟩, hne hprize hrake ?_⟩
    · simp [hrname, hpname]
    · simp [hrname, hkname]
    · simp [hpname, hkname]
  · simp only [forall_mem_cons]
    exact ⟨hrcur, hpcur, hkcur, by simp⟩
  · exact .of_quiet (.bind ((uses_command _ _).mpr trivial) fun _ =>
      .bind (uses_onlyIf ((uses_command _ _).mpr trivial)) fun _ => trivial)

lemma keepsBooks_rollback {accountId : String} {amount : ℤ} {refId currency : String}
    {key : Option String} (huser : s.IsUser accountId) :
    KeepsBooks T (rollback sha256 config accountId amount refId currency key) s := by
  refine .find_bind fun _ reserve hreserve hq => ?_
  obtain ⟨hname, hcur⟩ := byName_iff.mp hq
  refine .find_bind fun _ user hmem hq => ?_
  obtain ⟨rfl, hucur⟩ := byId_iff.mp hq
  have hid : user.id ≠ reserve.id := huser.ne hreserve (by simp [hname])
  refine .bind (keepsBooks_transfer hreserve hmem hid.symm (hcur.trans hucur.symm)) fun _ s => ?_
  exact .of_quiet (.bind (uses_onlyIf ((uses_command _ _).mpr trivial)) fun _ => trivial)

lemma keepsBooks_refundDisbursement {disb : Disbursement} (huser : s.IsUser disb.accountId) :
    KeepsBooks T (refundDisbursement sha256 config disb) s := by
  refine .find_bind fun _ account haccount hq => ?_
  have haid : account.id = disb.accountId := by simpa using hq
  refine .find_bind fun _ house hhouse hq => ?_
  obtain ⟨hname, hcur⟩ := byName_iff.mp hq
  have hid : account.id ≠ house.id := (haid ▸ huser).ne hhouse (by simp [hname])
  exact keepsBooks_transfer hhouse haccount hid.symm hcur

/-- The commands of a request to the provider are quiet. -/
lemma quiet_enqueueDisbursement {id currency : String} :
    (enqueueDisbursement config id currency).Uses Cmd.Quiet :=
  uses_enqueueDisbursement (fun _ => trivial) (fun _ => trivial) (fun _ => trivial)
    (fun _ => trivial) trivial

lemma keepsBooks_confirm3DS {event : ProviderCallback} {ref disbId key : String} :
    KeepsBooks T (confirm3DS sha256 config event ref disbId key) s := by
  refine .bind (.of_quiet (.bind ((uses_command _ _).mpr trivial) fun _ => trivial)) fun dup s => ?_
  split
  · exact .ret _
  · refine .read_bind rfl fun hs => ?_
    cases hstored : s.redis (.challenge event.providerTxnId) with
    | none =>
      simp only [Cmd.exec, hstored]
      exact .ret _
    | some stored =>
      simp only [Cmd.exec, hstored]
      have huser := hs.users.challenges _ _ hstored
      refine .run_bind fun hs => ⟨hs.exec trivial, ?_⟩
      -- deleting the challenge leaves the accounts alone
      refine .find_bind fun _ user hmem hq => ?_
      obtain ⟨huid, hucur⟩ := byId_iff.mp hq
      refine .find_bind fun _ house hhouse hq => ?_
      obtain ⟨hname, hcur⟩ := byName_iff.mp hq
      have hid : user.id ≠ house.id := (huid ▸ huser).ne hhouse (by simp [hname])
      split
      · exact .bind (keepsBooks_transfer hhouse hmem hid.symm (hcur.trans hucur.symm))
          fun _ _ => .ret _
      · exact .of_quiet (uses_onlyIf ((uses_command _ _).mpr trivial))
      · refine .bind (keepsBooks_transfer hmem hhouse hid (hucur.trans hcur.symm)) fun _ s => ?_
        exact .of_quiet (.bind ((uses_command _ _).mpr trivial) fun _ => quiet_enqueueDisbursement)
      · exact .ret _

lemma keepsBooks_processDisbursement {eventId key providerTxnId : String}
    {status : ProviderStatus} : KeepsBooks T
      (processDisbursement sha256 config eventId key providerTxnId status) s := by
  refine .bind (.of_quiet (.bind ((uses_command _ _).mpr trivial) fun _ => trivial)) fun dup s => ?_
  split
  · exact .ret _
  · refine .read_bind rfl fun _ => ?_
    cases hdisb : s.disbursements.find? (·.idempotencyKey == key) with
    | none =>
      simp only [Cmd.exec, hdisb]
      exact .ret _
    | some disb =>
      simp only [Cmd.exec, hdisb]
      split
      · exact .ret _
      · refine .find_bind fun _ user _ _ => ?_
        refine .find_bind fun _ house hhouse _ => ?_
        refine .bind (keepsBooks_record (c := house.currency) ?_ (by simp) ?_) fun _ s => ?_
        · simpa using hhouse
        · simp
        · split
          · exact .of_quiet ((uses_command _ _).mpr trivial)
          · exact .of_quiet quiet_enqueueDisbursement

lemma keepsBooks_confirmPendingDeposit {id : String} :
    KeepsBooks T (confirmPendingDeposit sha256 config id) s := by
  refine .bind (.of_quiet ((uses_command _ _).mpr trivial)) fun lock s => ?_
  split
  · refine .ensure ?_ fun s => ?_
    · refine .read_bind rfl fun hs => ?_
      cases hdeposit : s.pendingDeposits.find? (·.id == id) with
      | none =>
        simp only [Cmd.exec, hdeposit]
        exact .ret _
      | some deposit =>
        simp only [Cmd.exec, hdeposit]
        have huser := hs.users.deposits deposit (mem_of_find?_eq_some hdeposit)
        split_ifs
        · exact .ret _
        · refine .find_bind fun _ user hmem hq => ?_
          obtain ⟨huid, hucur⟩ := byId_iff.mp hq
          refine .find_bind fun _ house hhouse hq => ?_
          obtain ⟨hname, hcur⟩ := byName_iff.mp hq
          have hid : user.id ≠ house.id := (huid ▸ huser).ne hhouse (by simp [hname])
          refine .bind (keepsBooks_transfer hhouse hmem hid.symm (hcur.trans hucur.symm))
            fun _ s => ?_
          refine .of_quiet (.bind ((uses_command _ _).mpr trivial) fun _ => ?_)
          exact .bind (uses_emit fun _ => trivial) fun _ => .bind (uses_emit fun _ => trivial)
            fun _ => .bind (uses_emit fun _ => trivial) fun _ => trivial
    · exact .of_quiet (.bind (uses_removeJob fun _ => trivial) fun _ =>
        (uses_command _ _).mpr trivial)
  · exact .raise _

lemma keepsBooks_adminAdjustBalance {userId : String} {action : Adjustment} {amount : ℤ}
    {currency refId : String} (huser : s.IsUser userId) : KeepsBooks T
      (adminAdjustBalance sha256 config userId action amount currency refId) s := by
  refine .find_bind fun _ user hmem hq => ?_
  obtain ⟨rfl, hucur⟩ := byId_iff.mp hq
  refine .find_bind fun _ house hhouse hq => ?_
  obtain ⟨hname, hcur⟩ := byName_iff.mp hq
  have hid : user.id ≠ house.id := huser.ne hhouse (by simp [hname])
  cases action with
  | add => exact keepsBooks_transfer hhouse hmem hid.symm (hcur.trans hucur.symm)
  | remove => exact keepsBooks_transfer hmem hhouse hid (hucur.trans hcur.symm)
  | freeze => exact keepsBooks_reserve huser

lemma keepsBooks_body {op : Operation} (h : op.OfUsers s) :
    KeepsBooks T (op.body sha256 config) s := by
  cases op with
  | reserve => exact .bind (keepsBooks_reserve h) fun _ _ => .ret _
  | commit => exact .bind keepsBooks_commit fun _ _ => .ret _
  | rollback => exact .bind (keepsBooks_rollback h) fun _ _ => .ret _
  | refundDisbursement => exact .bind (keepsBooks_refundDisbursement h) fun _ _ => .ret _
  | confirm3DS => exact keepsBooks_confirm3DS
  | processDisbursement => exact keepsBooks_processDisbursement
  | confirmPendingDeposit => exact .bind keepsBooks_confirmPendingDeposit fun _ _ => .ret _
  | adminAdjustBalance => exact .bind (keepsBooks_adminAdjustBalance h) fun _ _ => .ret _

end Bodies

/-- The books stay in order in every run of operations one after another, wherever they fail. -/
theorem double_entry (sha256 : String → String) (config : Config) (T : String → ℤ)
    {P : Pool Cmd.Answer String Unit Store Operation}
    (h : (ledgerService sha256 config T).serial.Reachable P) :
    P.state.Reconciled ∧ (∀ currency, P.state.total currency = T currency) ∧
      ∀ refType refId, P.state.refTotal refType refId = 0 := by
  have hbooks : Books T P.state :=
    Service.serial_invariant (S := ledgerService sha256 config T) (I := Books T) (fun _ hs => hs)
      (fun s op _ hready => keepsBooks_body hready) (fun _ _ h => h) h
  exact ⟨hbooks.reconciled, hbooks.totals, hbooks.refs⟩

/-! A reservation whose first emission fails, and then the same reservation once more. -/

def freshAccounts : Store where
  accounts := [⟨"u1", "alice", "USD", 0, true⟩, ⟨"r1", "reserve", "USD", 0, true⟩]

/-- SHA-256 on the inputs of the run. -/
def buyInHash : String → String :=
  hashTable [
    ("reserve:t1:u1:-100", "a30067b9df6a2e8f3ad20a14d6df3fccb587498acc8cca5d37e8f2a471dfcc50"),
    ("reserve:t1:r1:100", "341a88a31039ff4c1104c1ae5cf5709bc5002df6b9c37edc9eb29f05a757103f")]

lemma books_freshAccounts : Books (fun _ => 0) freshAccounts where
  keyed := ⟨by decide, by decide⟩
  users := ⟨(fun _ _ h => nomatch h), (fun _ h => nomatch h)⟩
  reconciled := by decide
  totals currency := by
    refine sum_eq_zero fun x hx => ?_
    obtain ⟨a, ha, rfl⟩ := mem_map.mp hx
    have hzero : ∀ a ∈ freshAccounts.accounts, a.balance = 0 := by decide
    exact hzero a (mem_filter.mp ha).1
  refs _ _ := rfl

def interruptedReserve : Pool Cmd.Answer String Unit Store Operation :=
  (ledgerService buyInHash {} fun _ => 0).playAll ⟨freshAccounts, []⟩
    [.start (.reserve "u1" 100 "t1" "USD" none), .call 0, .call 0, .call 0, .call 0, .fault 0,
      .start (.reserve "u1" 100 "t1" "USD" none), .call 1, .call 1, .call 1]

theorem double_entry_interrupted :
    interruptedReserve.state.accounts.map (·.balance) = [-100, 100] ∧
      interruptedReserve.state.Reconciled :=
  ⟨by decide +kernel, (double_entry buyInHash {} (fun _ => 0)
    (Service.reachable_playAll books_freshAccounts (by decide +kernel))).1⟩

end Pokerhub.Wallet
