import Pokerhub.Wallet.Postings

/-!
# The ledger without failures

What `record` and the operations that post through it do when they run from their first command to
their last: an operation posts, is suppressed because one of its hashes is in the journal, fails
because two of its hashes are the same, or does not get to `record`.
-/

namespace Pokerhub.Wallet

open List Program

/-! ### Posting -/

/-- What an operation passes to `record`. -/
structure Posting where
  refType : String
  refId : String
  entries : List Movement

section Posting

variable (sha256 : String → String) (config : Config)

/-- The entries with their hashes. -/
def Posting.rows (p : Posting) : List (Movement × String) :=
  p.entries.map fun e => (e, buildHash sha256 p.refType p.refId e.account.id e.amount)

def Posting.hashes (p : Posting) : List String :=
  p.entries.map fun e => buildHash sha256 p.refType p.refId e.account.id e.amount

/-- The events that `record` emits for an entry. -/
def announcements (entry : Movement) : List Event :=
  ⟨if entry.amount > 0 then "wallet.credit" else "wallet.debit", entry.account.id⟩ ::
    if config.systemAccounts.contains entry.account.name then []
    else [⟨"notification.create", entry.account.id⟩]

/-- The store after the posting was inserted and announced. -/
def Posting.apply (p : Posting) (s : Store) : Store :=
  let s' := (p.rows sha256).foldl (Store.insert p.refType p.refId none) s
  { s' with emitted := s'.emitted ++ p.entries.flatMap (announcements config) }

/-- The outcome of `record` for a balanced posting. -/
def post (p : Posting) (s : Store) : Except String Outcome × Store :=
  if ∃ h ∈ p.hashes sha256, h ∈ s.hashes then (.ok .suppressed, s)
  else if (p.hashes sha256).Nodup then (.ok .posted, p.apply sha256 config s)
  else (.error "duplicate key value violates unique constraint", s)

end Posting

section Run

variable {sha256 : String → String} {config : Config} {s : Store}

lemma run_emit (topic id : String) :
    (emit topic id).run Cmd.exec s = (.ok (), { s with emitted := s.emitted ++ [⟨topic, id⟩] }) :=
  rfl

lemma run_announce (entry : Movement) : (announce config entry).run Cmd.exec s =
    (.ok (), { s with emitted := s.emitted ++ announcements config entry }) := by
  simp only [announce, run_bind, run_emit]
  by_cases hsystem : entry.account.name ∈ config.systemAccounts
  · simp [onlyIf, announcements, hsystem]
  · simp [onlyIf, announcements, hsystem, run_emit]

lemma run_forEach_announce (entries : List Movement) :
    (forEach (announce config) entries).run Cmd.exec s =
      (.ok (), { s with emitted := s.emitted ++ entries.flatMap (announcements config) }) := by
  induction entries generalizing s with
  | nil => simp [forEach]
  | cons entry entries ih => simp [forEach, run_announce, ih]

lemma Posting.map_snd_rows (p : Posting) : (p.rows sha256).map (·.2) = p.hashes sha256 := by
  simp [rows, hashes, Function.comp_def]

lemma findJournals_eq_nil {p : Posting} :
    s.journals.filter ((p.hashes sha256).contains ·.hash) = [] ↔
      ¬ ∃ h ∈ p.hashes sha256, h ∈ s.hashes := by
  simp only [filter_eq_nil_iff, contains_iff_mem, Store.hashes, mem_map, not_exists, not_and]
  constructor
  · rintro h _ hin j hj rfl
    exact h j hj hin
  · rintro h j hj hin
    exact h j.hash hin j hj rfl

lemma run_record {p : Posting} (hsum : (p.entries.map (·.amount)).sum = 0) :
    (record sha256 config p.refType p.refId p.entries).run Cmd.exec s = post sha256 config p s := by
  have hfind : (Cmd.findJournals ((p.rows sha256).map (·.2))).exec s =
      (s.journals.filter ((p.hashes sha256).contains ·.hash), s) := by
    rw [p.map_snd_rows]
    rfl
  unfold record
  rw [if_neg (not_not.mpr hsum)]
  show ((Wallet.run (.findJournals ((p.rows sha256).map (·.2)))) >>= _).run Cmd.exec s = _
  simp only [run_bind, Wallet.run, run_command, hfind]
  by_cases hold : ∃ h ∈ p.hashes sha256, h ∈ s.hashes
  · rw [if_pos (mt findJournals_eq_nil.mp (not_not.mpr hold)), post, if_pos hold]
    rfl
  · rw [if_neg (not_not.mpr (findJournals_eq_nil.mpr hold)), post, if_neg hold]
    have hnew : ∀ h ∈ p.hashes sha256, h ∉ s.hashes := fun h hh hin => hold ⟨h, hh, hin⟩
    by_cases hnodup : (p.hashes sha256).Nodup
    · have hexec : (Cmd.transaction p.refType p.refId none (p.rows sha256)).exec s =
          (true, (p.rows sha256).foldl (Store.insert p.refType p.refId none) s) := by
        refine if_pos ?_
        rw [p.map_snd_rows]
        exact ⟨hnodup, hnew⟩
      rw [if_pos hnodup]
      show ((Wallet.run (.transaction p.refType p.refId none (p.rows sha256))) >>= _).run Cmd.exec s
        = _
      simp only [run_bind, Wallet.run, run_command, hexec, if_true, run_forEach_announce]
      rfl
    · have hexec : (Cmd.transaction p.refType p.refId none (p.rows sha256)).exec s = (false, s) := by
        refine if_neg fun h => hnodup ?_
        rw [← p.map_snd_rows]
        exact h.1
      rw [if_neg hnodup]
      show ((Wallet.run (.transaction p.refType p.refId none (p.rows sha256))) >>= _).run Cmd.exec s
        = _
      simp only [run_bind, Wallet.run, run_command, hexec]
      rfl

lemma run_findOneByOrFail (q : Account → Bool) : (findOneByOrFail q).run Cmd.exec s =
    match s.accounts.find? q with
    | some account => (.ok account, s)
    | none => (.error "EntityNotFoundError", s) := by
  have hexec : (Cmd.findAccount q).exec s = (s.accounts.find? q, s) := rfl
  simp only [findOneByOrFail, run_bind, Wallet.run, run_command, hexec]
  cases s.accounts.find? q <;> rfl

lemma run_onlyIf_side (cond : Bool) (what : String) :
    (onlyIf cond (Wallet.run (.side what))).run Cmd.exec s = (.ok (), s) := by
  cases cond <;> rfl

/-! ### Operations -/

/-- The posting of `reserve`, for the accounts that it finds. -/
def reservePosting (refId : String) (amount : ℤ) (user reserve : Account) : Posting :=
  ⟨"reserve", refId, [⟨user, -amount⟩, ⟨reserve, amount⟩]⟩

def commitPosting (refId : String) (amount rakeAmount : ℤ) (reserve prize rakeAcc : Account) :
    Posting :=
  ⟨"commit", refId, [⟨reserve, -amount⟩, ⟨prize, amount - rakeAmount⟩, ⟨rakeAcc, rakeAmount⟩]⟩

def rollbackPosting (refId : String) (amount : ℤ) (reserve user : Account) : Posting :=
  ⟨"rollback", refId, [⟨reserve, -amount⟩, ⟨user, amount⟩]⟩

def refundPosting (id : String) (amount : ℤ) (account house : Account) : Posting :=
  ⟨"withdraw_reject", id, [⟨house, -amount⟩, ⟨account, amount⟩]⟩

def depositPosting (deposit : PendingDeposit) (user house : Account) : Posting :=
  ⟨"deposit", deposit.id, [⟨house, -deposit.amount⟩, ⟨user, deposit.amount⟩]⟩

lemma run_reserve {accountId : String} {amount : ℤ} {refId currency : String} {key : Option String}
    {user reserve : Account} (huser : s.accounts.find? (byId accountId currency) = some user)
    (hreserve : s.accounts.find? (byName "reserve" currency) = some reserve) :
    (Wallet.reserve sha256 config accountId amount refId currency key).run Cmd.exec s =
      post sha256 config (reservePosting refId amount user reserve) s := by
  rw [← run_record (by simp [reservePosting])]
  simp only [Wallet.reserve, run_bind, run_findOneByOrFail, huser, hreserve, run_onlyIf_side]
  rfl

lemma run_commit {amount rakeAmount : ℤ} {refId currency : String} {key : Option String}
    {reserve prize rakeAcc : Account}
    (hreserve : s.accounts.find? (byName "reserve" currency) = some reserve)
    (hprize : s.accounts.find? (byName "prize" currency) = some prize)
    (hrake : s.accounts.find? (byName "rake" currency) = some rakeAcc) :
    (Wallet.commit sha256 config refId amount rakeAmount currency key).run Cmd.exec s =
      post sha256 config (commitPosting refId amount rakeAmount reserve prize rakeAcc) s := by
  rw [← run_record (by simp [commitPosting])]
  have hside : ∀ s what, (Wallet.run (.side what)).run Cmd.exec s = (.ok (), s) := fun _ _ => rfl
  simp only [Wallet.commit, run_bind, run_findOneByOrFail, hreserve, hprize, hrake,
    run_onlyIf_side, hside, commitPosting]
  rcases (record sha256 config "commit" refId _ _).run Cmd.exec s with ⟨e | a, s'⟩ <;> rfl

lemma run_rollback {accountId : String} {amount : ℤ} {refId currency : String}
    {key : Option String} {user reserve : Account}
    (hreserve : s.accounts.find? (byName "reserve" currency) = some reserve)
    (huser : s.accounts.find? (byId accountId currency) = some user) :
    (Wallet.rollback sha256 config accountId amount refId currency key).run Cmd.exec s =
      post sha256 config (rollbackPosting refId amount reserve user) s := by
  rw [← run_record (by simp [rollbackPosting])]
  simp only [Wallet.rollback, run_bind, run_findOneByOrFail, huser, hreserve, run_onlyIf_side,
    rollbackPosting]
  rcases (record sha256 config "rollback" refId _ _).run Cmd.exec s with ⟨e | a, s'⟩ <;> rfl

end Run

/-! ### What an operation posts -/

/-- The operations that only post through `record`. -/
inductive Op where
  | reserve (accountId : String) (amount : ℤ) (refId currency : String)
  | commit (refId : String) (amount rakeAmount : ℤ) (currency : String)
  | rollback (accountId : String) (amount : ℤ) (refId currency : String)
  /-- The columns of the row that `refundDisbursement` reads. -/
  | refundDisbursement (id accountId : String) (amount : ℤ)
  | confirmPendingDeposit (id : String)
  deriving DecidableEq, Repr

def Op.body (sha256 : String → String) (config : Config) : Op → WalletM Outcome
  | .reserve accountId amount refId currency =>
    Wallet.reserve sha256 config accountId amount refId currency
  | .commit refId amount rakeAmount currency =>
    Wallet.commit sha256 config refId amount rakeAmount currency
  | .rollback accountId amount refId currency =>
    Wallet.rollback sha256 config accountId amount refId currency
  | .refundDisbursement id accountId amount =>
    Wallet.refundDisbursement sha256 config ⟨id, accountId, amount, "", .pending⟩
  | .confirmPendingDeposit id => Wallet.confirmPendingDeposit sha256 config id

/-- What the operation passes to `record`, if it gets there. -/
def Op.posting (s : Store) : Op → Option Posting
  | .reserve accountId amount refId currency => do
    let user ← s.accounts.find? (byId accountId currency)
    let reserve ← s.accounts.find? (byName "reserve" currency)
    return reservePosting refId amount user reserve
  | .commit refId amount rakeAmount currency => do
    let reserve ← s.accounts.find? (byName "reserve" currency)
    let prize ← s.accounts.find? (byName "prize" currency)
    let rakeAcc ← s.accounts.find? (byName "rake" currency)
    return commitPosting refId amount rakeAmount reserve prize rakeAcc
  | .rollback accountId amount refId currency => do
    let reserve ← s.accounts.find? (byName "reserve" currency)
    let user ← s.accounts.find? (byId accountId currency)
    return rollbackPosting refId amount reserve user
  | .refundDisbursement id accountId amount => do
    let account ← s.accounts.find? fun a => a.id == accountId
    let house ← s.accounts.find? (byName "house" account.currency)
    return refundPosting id amount account house
  | .confirmPendingDeposit id => do
    let deposit ← s.pendingDeposits.find? fun d => d.id == id
    guard (s.redis (.pendingLock id) = none ∧ deposit.status = .pending)
    let user ← s.accounts.find? (byId deposit.userId deposit.currency)
    let house ← s.accounts.find? (byName "house" deposit.currency)
    return depositPosting deposit user house

/-- The store after the operation. -/
def Op.after (sha256 : String → String) (config : Config) (op : Op) (s : Store) : Store :=
  ((op.body sha256 config).run Cmd.exec s).2

/-- What the operation does after `record` has returned. -/
def Op.finish (s : Store) : Op → Store
  | .confirmPendingDeposit id =>
    match s.pendingDeposits.find? fun d => d.id == id with
    | some deposit =>
      { s.saveDeposit { deposit with status := .confirmed } with
        emitted := s.emitted ++ [⟨"notification.create", deposit.userId⟩,
          ⟨"wallet.deposit.confirmed", deposit.id⟩, ⟨"admin.deposit.confirmed", deposit.id⟩] }
    | none => s
  | _ => s

section Results

variable {sha256 : String → String} {config : Config} {s : Store}

lemma sum_posting {op : Op} {p : Posting} (h : op.posting s = some p) :
    (p.entries.map (·.amount)).sum = 0 := by
  cases op <;> simp only [Op.posting, Option.bind_eq_bind, Option.bind_eq_some_iff,
    Option.pure_def, Option.some.injEq] at h
  case reserve =>
    obtain ⟨_, _, _, _, rfl⟩ := h
    simp [reservePosting]
  case commit =>
    obtain ⟨_, _, _, _, _, _, rfl⟩ := h
    simp [commitPosting]
  case rollback =>
    obtain ⟨_, _, _, _, rfl⟩ := h
    simp [rollbackPosting]
  case refundDisbursement =>
    obtain ⟨_, _, _, _, rfl⟩ := h
    simp [refundPosting]
  case confirmPendingDeposit =>
    obtain ⟨_, _, _, _, _, _, _, _, rfl⟩ := h
    simp [depositPosting]

/-- A posting does not look at Redis. -/
lemma post_redis (p : Posting) (r : (k : RedisKey) → Option k.Value) :
    post sha256 config p { s with redis := r } =
      ((post sha256 config p s).1, { (post sha256 config p s).2 with redis := r }) := by
  have hfold : ∀ rows : List (Movement × String), ∀ s : Store,
      rows.foldl (Store.insert p.refType p.refId none) { s with redis := r } =
        { rows.foldl (Store.insert p.refType p.refId none) s with redis := r } := by
    intro rows
    induction rows with
    | nil => exact fun _ => rfl
    | cons row rows ih => exact fun s => ih (Store.insert p.refType p.refId none s row)
  have happly : p.apply sha256 config { s with redis := r } =
      { p.apply sha256 config s with redis := r } := by
    simp only [Posting.apply, hfold]
  have hhashes : ({ s with redis := r } : Store).hashes = s.hashes := rfl
  simp only [post, hhashes, happly]
  split_ifs <;> rfl

lemma post_pendingDeposits (p : Posting) :
    (post sha256 config p s).2.pendingDeposits = s.pendingDeposits := by
  unfold post
  split_ifs
  · rfl
  · simp only [Posting.apply]
    rw [Store.foldl_insert_eq]
  · rfl

lemma post_redis_eq (p : Posting) : (post sha256 config p s).2.redis = s.redis := by
  unfold post
  split_ifs
  · rfl
  · simp only [Posting.apply]
    rw [Store.foldl_insert_eq]
  · rfl

section Deposit

variable {id : String} {deposit : PendingDeposit} {user house : Account}

lemma run_confirmLocked (hdeposit : s.pendingDeposits.find? (fun d => d.id == id) = some deposit)
    (hpending : deposit.status = .pending)
    (huser : s.accounts.find? (byId deposit.userId deposit.currency) = some user)
    (hhouse : s.accounts.find? (byName "house" deposit.currency) = some house) :
    (confirmLocked sha256 config id).run Cmd.exec s =
      match post sha256 config (depositPosting deposit user house) s with
      | (.ok outcome, s') => (.ok outcome, Op.finish s' (.confirmPendingDeposit id))
      | (.error e, s') => (.error e, s') := by
  have hfind : (Cmd.findDeposit fun d => d.id == id).exec s = (some deposit, s) := by
    simp only [Cmd.exec, hdeposit]
  have hsave : ∀ s' : Store, (Cmd.saveDeposit { deposit with status := .confirmed }).exec s' =
      ((), s'.saveDeposit { deposit with status := .confirmed }) := fun _ => rfl
  have hpost := @post_pendingDeposits sha256 config s (depositPosting deposit user house)
  have hrecord := @run_record sha256 config s (depositPosting deposit user house)
    (by simp [depositPosting])
  simp only [depositPosting] at hrecord hpost ⊢
  simp only [confirmLocked, run_bind, Wallet.run, run_command, hfind, hpending, ne_eq,
    not_true_eq_false, if_false, run_findOneByOrFail, huser, hhouse, hrecord]
  generalize post sha256 config _ s = result at hpost
  rcases result with ⟨e | outcome, s'⟩
  · rfl
  · rw [← hpost] at hdeposit
    simp only [hsave, run_emit, Op.finish, hdeposit]
    simp [Store.saveDeposit]

/-- `confirmPendingDeposit`, when it gets to `record`. -/
lemma run_confirmPendingDeposit (hlock : s.redis (.pendingLock id) = none)
    (hdeposit : s.pendingDeposits.find? (fun d => d.id == id) = some deposit)
    (hpending : deposit.status = .pending)
    (huser : s.accounts.find? (byId deposit.userId deposit.currency) = some user)
    (hhouse : s.accounts.find? (byName "house" deposit.currency) = some house) :
    (Wallet.confirmPendingDeposit sha256 config id).run Cmd.exec s =
      match post sha256 config (depositPosting deposit user house) s with
      | (.ok outcome, s') => (.ok outcome, Op.finish s' (.confirmPendingDeposit id))
      | (.error e, s') => (.error e, s') := by
  set r := Function.update s.redis (.pendingLock id) (some ()) with hr
  have hlocked : (Cmd.setNx (.pendingLock id) ()).exec s = (true, { s with redis := r }) := by
    simp only [Cmd.exec, hlock, hr, Store.setKey]
  have hunlock : Function.update r (.pendingLock id) none = s.redis := by
    rw [hr, Function.update_idem, Function.update_eq_self_iff, hlock]
  have hdel : ∀ s' : Store, (Cmd.del (.pendingLock id)).exec s' =
      ((), { s' with redis := Function.update s'.redis (.pendingLock id) none }) := fun _ => rfl
  have hremove : ∀ s' : Store, removeJob.run Cmd.exec s' = (.ok (), s') := fun _ => rfl
  have hconfirm : (confirmLocked sha256 config id).run Cmd.exec { s with redis := r } = _ :=
    run_confirmLocked hdeposit hpending huser hhouse
  have hredis := @post_redis_eq sha256 config s (depositPosting deposit user house)
  simp only [Wallet.confirmPendingDeposit, ensure, run_bind, Wallet.run, run_command, hlocked,
    if_true, run_attempt, hconfirm, post_redis, hremove, hdel, run_resume]
  generalize post sha256 config _ s = result at hredis
  rcases result with ⟨e | outcome, s'⟩
  · simp only [hunlock, ← hredis]
  · simp only at hredis
    simp only [Op.finish]
    cases s'.pendingDeposits.find? fun d => d.id == id with
    | none => simp only [hunlock, ← hredis]
    | some d => simp only [Store.saveDeposit, hunlock, ← hredis]

/-- `confirmPendingDeposit` gives the lock back in whatever way it ends. -/
lemma run_confirmPendingDeposit_of_locked {r : Except String Outcome}
    (hlock : s.redis (.pendingLock id) = none)
    (hlocked : ∀ redis, (confirmLocked sha256 config id).run Cmd.exec { s with redis := redis } =
      (r, { s with redis := redis })) :
    (Wallet.confirmPendingDeposit sha256 config id).run Cmd.exec s = (r, s) := by
  have hset : (Cmd.setNx (.pendingLock id) ()).exec s = (true, { s with
      redis := Function.update s.redis (.pendingLock id) (some ()) }) := by
    simp only [Cmd.exec, hlock, Store.setKey]
  have hunlock : Function.update (Function.update s.redis (.pendingLock id) (some ()))
      (.pendingLock id) none = s.redis := by
    rw [Function.update_idem, Function.update_eq_self_iff, hlock]
  have hdel : ∀ s' : Store, (Cmd.del (.pendingLock id)).exec s' =
      ((), { s' with redis := Function.update s'.redis (.pendingLock id) none }) := fun _ => rfl
  have hremove : ∀ s' : Store, removeJob.run Cmd.exec s' = (.ok (), s') := fun _ => rfl
  simp only [Wallet.confirmPendingDeposit, ensure, run_bind, Wallet.run, run_command, hset,
    if_true, run_attempt, hlocked, hremove, hdel, run_resume, hunlock]

/-- `confirmPendingDeposit`, when it does not get to `record`. -/
lemma run_confirmPendingDeposit_of_none (h : Op.posting s (.confirmPendingDeposit id) = none) :
    ∃ r, (Wallet.confirmPendingDeposit sha256 config id).run Cmd.exec s = (r, s) ∧
      r ≠ .ok .posted ∧ r ≠ .ok .suppressed := by
  by_cases hlock : s.redis (.pendingLock id) = none
  · cases hdeposit : s.pendingDeposits.find? (fun d => d.id == id) with
    | none =>
      refine ⟨.ok .skipped, run_confirmPendingDeposit_of_locked hlock fun redis => ?_,
        by simp, by simp⟩
      simp [confirmLocked, Wallet.run, Cmd.exec, hdeposit]
    | some deposit =>
      by_cases hpending : deposit.status = .pending
      · refine ⟨.error "EntityNotFoundError",
          run_confirmPendingDeposit_of_locked hlock fun redis => ?_, by simp, by simp⟩
        simp only [confirmLocked, Wallet.run, run_bind, run_command, Cmd.exec, hdeposit, hpending,
          ne_eq, not_true_eq_false, if_false, run_findOneByOrFail]
        cases huser : s.accounts.find? (byId deposit.userId deposit.currency) with
        | none => rfl
        | some user =>
          dsimp only
          cases hhouse : s.accounts.find? (byName "house" deposit.currency) with
          | none => rfl
          | some house =>
            simp [Op.posting, hdeposit, hlock, hpending, huser, hhouse] at h
      · refine ⟨.ok .skipped, run_confirmPendingDeposit_of_locked hlock fun redis => ?_,
          by simp, by simp⟩
        simp [confirmLocked, Wallet.run, Cmd.exec, hdeposit, hpending]
  · refine ⟨.error "Deposit locked", ?_, by simp, by simp⟩
    obtain ⟨v, hv⟩ := Option.ne_none_iff_exists'.mp hlock
    have hset : (Cmd.setNx (.pendingLock id) ()).exec s = (false, s) := by
      simp only [Cmd.exec, hv]
    simp only [Wallet.confirmPendingDeposit, run_bind, Wallet.run, run_command, hset]
    rfl

end Deposit

lemma run_refundDisbursement {disb : Disbursement} {account house : Account}
    (haccount : s.accounts.find? (fun a => a.id == disb.accountId) = some account)
    (hhouse : s.accounts.find? (byName "house" account.currency) = some house) :
    (Wallet.refundDisbursement sha256 config disb).run Cmd.exec s =
      post sha256 config (refundPosting disb.id disb.amount account house) s := by
  rw [← run_record (by simp [refundPosting])]
  simp only [Wallet.refundDisbursement, run_bind, run_findOneByOrFail, haccount, hhouse]
  rfl

/-- An operation that gets to `record` posts what `posting` says. -/
lemma run_op_of_posting {op : Op} {p : Posting} (h : op.posting s = some p) :
    (op.body sha256 config).run Cmd.exec s =
      match post sha256 config p s with
      | (.ok outcome, s') => (.ok outcome, op.finish s')
      | (.error e, s') => (.error e, s') := by
  -- without anything to do after `record`
  have hend : ∀ op : Op, (∀ s', op.finish s' = s') → (op.body sha256 config).run Cmd.exec s =
      post sha256 config p s → (op.body sha256 config).run Cmd.exec s =
        match post sha256 config p s with
        | (.ok outcome, s') => (.ok outcome, op.finish s')
        | (.error e, s') => (.error e, s') := by
    intro op hfinish hrun
    rw [hrun]
    rcases post sha256 config p s with ⟨e | outcome, s'⟩
    · rfl
    · simp only [hfinish]
  cases op with
  | reserve accountId amount refId currency =>
    simp only [Op.posting, Option.bind_eq_bind, Option.bind_eq_some_iff] at h
    obtain ⟨user, huser, reserve, hreserve, hp⟩ := h
    cases hp
    exact hend _ (fun _ => rfl) (run_reserve huser hreserve)
  | commit refId amount rakeAmount currency =>
    simp only [Op.posting, Option.bind_eq_bind, Option.bind_eq_some_iff] at h
    obtain ⟨reserve, hreserve, prize, hprize, rakeAcc, hrake, hp⟩ := h
    cases hp
    exact hend _ (fun _ => rfl) (run_commit hreserve hprize hrake)
  | rollback accountId amount refId currency =>
    simp only [Op.posting, Option.bind_eq_bind, Option.bind_eq_some_iff] at h
    obtain ⟨reserve, hreserve, user, huser, hp⟩ := h
    cases hp
    exact hend _ (fun _ => rfl) (run_rollback hreserve huser)
  | refundDisbursement id accountId amount =>
    simp only [Op.posting, Option.bind_eq_bind, Option.bind_eq_some_iff] at h
    obtain ⟨account, haccount, house, hhouse, hp⟩ := h
    cases hp
    have hrun := @run_refundDisbursement sha256 config s ⟨id, accountId, amount, "", .pending⟩
      account house haccount hhouse
    exact hend _ (fun _ => rfl) hrun
  | confirmPendingDeposit id =>
    simp only [Op.posting, Option.bind_eq_bind, Option.bind_eq_some_iff] at h
    obtain ⟨deposit, hdeposit, _, hguard, user, huser, house, hhouse, hp⟩ := h
    cases hp
    obtain ⟨hlock, hpending⟩ : s.redis (.pendingLock id) = none ∧ deposit.status = .pending := by
      by_contra hne
      simp [guard, hne] at hguard
    exact run_confirmPendingDeposit hlock hdeposit hpending huser hhouse

/-- An operation that does not get to `record` does nothing. -/
lemma run_op_of_none {op : Op} (h : op.posting s = none) :
    ∃ r, (op.body sha256 config).run Cmd.exec s = (r, s) ∧ r ≠ .ok .posted ∧
      r ≠ .ok .suppressed := by
  cases op with
  | reserve accountId amount refId currency =>
    refine ⟨.error "EntityNotFoundError", ?_, nofun, nofun⟩
    simp only [Op.body, Wallet.reserve, run_bind, run_findOneByOrFail]
    cases huser : s.accounts.find? (byId accountId currency) with
    | none => rfl
    | some user =>
      cases hreserve : s.accounts.find? (byName "reserve" currency) with
      | none => simp only [hreserve]
      | some reserve => simp [Op.posting, huser, hreserve] at h
  | commit refId amount rakeAmount currency =>
    refine ⟨.error "EntityNotFoundError", ?_, nofun, nofun⟩
    simp only [Op.body, Wallet.commit, run_bind, run_findOneByOrFail]
    cases hreserve : s.accounts.find? (byName "reserve" currency) with
    | none => rfl
    | some reserve =>
      dsimp only
      cases hprize : s.accounts.find? (byName "prize" currency) with
      | none => rfl
      | some prize =>
        dsimp only
        cases hrake : s.accounts.find? (byName "rake" currency) with
        | none => rfl
        | some rakeAcc => simp [Op.posting, hreserve, hprize, hrake] at h
  | rollback accountId amount refId currency =>
    refine ⟨.error "EntityNotFoundError", ?_, nofun, nofun⟩
    simp only [Op.body, Wallet.rollback, run_bind, run_findOneByOrFail]
    cases hreserve : s.accounts.find? (byName "reserve" currency) with
    | none => rfl
    | some reserve =>
      dsimp only
      cases huser : s.accounts.find? (byId accountId currency) with
      | none => rfl
      | some user => simp [Op.posting, huser, hreserve] at h
  | refundDisbursement id accountId amount =>
    refine ⟨.error "EntityNotFoundError", ?_, nofun, nofun⟩
    simp only [Op.body, Wallet.refundDisbursement, run_bind, run_findOneByOrFail]
    cases haccount : s.accounts.find? (fun a => a.id == accountId) with
    | none => rfl
    | some account =>
      dsimp only
      cases hhouse : s.accounts.find? (byName "house" account.currency) with
      | none => rfl
      | some house => simp [Op.posting, haccount, hhouse] at h
  | confirmPendingDeposit id => exact run_confirmPendingDeposit_of_none h

end Results

/-- How an operation ends. -/
inductive OpResult (sha256 : String → String) (config : Config) (op : Op) (s : Store) : Prop
  /-- It does not get to `record`. -/
  | none (hposting : op.posting s = none) (hafter : op.after sha256 config s = s)
      (hposted : ((op.body sha256 config).run Cmd.exec s).1 ≠ .ok .posted)
      (hsuppressed : ((op.body sha256 config).run Cmd.exec s).1 ≠ .ok .suppressed)
  /-- One of the hashes is in the journal. -/
  | suppressed (p : Posting) (hposting : op.posting s = some p)
      (hold : ∃ h ∈ p.hashes sha256, h ∈ s.hashes)
      (hrun : (op.body sha256 config).run Cmd.exec s = (.ok .suppressed, op.finish s))
  /-- The hashes are new and different. -/
  | posted (p : Posting) (hposting : op.posting s = some p)
      (hnew : ∀ h ∈ p.hashes sha256, h ∉ s.hashes) (hnodup : (p.hashes sha256).Nodup)
      (hrun : (op.body sha256 config).run Cmd.exec s =
        (.ok .posted, op.finish (p.apply sha256 config s)))
  /-- Two of the hashes are the same. -/
  | failed (p : Posting) (hposting : op.posting s = some p)
      (hnew : ∀ h ∈ p.hashes sha256, h ∉ s.hashes) (hdup : ¬ (p.hashes sha256).Nodup)
      (hrun : (op.body sha256 config).run Cmd.exec s =
        (.error "duplicate key value violates unique constraint", s))

theorem opResult (sha256 : String → String) (config : Config) (op : Op) (s : Store) :
    OpResult sha256 config op s := by
  cases hposting : op.posting s with
  | none =>
    obtain ⟨r, hrun, hposted, hsuppressed⟩ := @run_op_of_none sha256 config s op hposting
    refine .none hposting ?_ ?_ ?_
    · rw [Op.after, hrun]
    · rw [hrun]
      exact hposted
    · rw [hrun]
      exact hsuppressed
  | some p =>
    have hrun := @run_op_of_posting sha256 config s op p hposting
    rw [post] at hrun
    by_cases hold : ∃ h ∈ p.hashes sha256, h ∈ s.hashes
    · rw [if_pos hold] at hrun
      exact .suppressed p hposting hold hrun
    · rw [if_neg hold] at hrun
      have hnew : ∀ h ∈ p.hashes sha256, h ∉ s.hashes := fun h hh hin => hold ⟨h, hh, hin⟩
      by_cases hnodup : (p.hashes sha256).Nodup
      · rw [if_pos hnodup] at hrun
        exact .posted p hposting hnew hnodup hrun
      · rw [if_neg hnodup] at hrun
        exact .failed p hposting hnew hnodup hrun

end Pokerhub.Wallet
