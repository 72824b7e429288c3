import Pokerhub.Core.CommitPoint
import Pokerhub.Wallet.DoubleEntry

/-!
# Operations that reject

`record` posts in one transaction and emits its events afterwards, so an operation whose emissions
fail rejects although it has posted. A rejected operation has posted nothing exactly when no command
fails after the transaction that posts (`rejected_posts_nothing_iff`), whatever else fails before.
-/

namespace Pokerhub.Wallet

open List Program

/-- The transaction of `record` has inserted its rows. -/
def posts : (c : Cmd) → c.Answer → Bool
  | .transaction _ _ _ rows, inserted => inserted && !rows.isEmpty
  | _, _ => false

/-- The jobs of the deposit queue are removed in a `try` of their own. -/
def swallowed (c : Cmd) : Bool :=
  match c with
  | .side what => what = "pendingQueue.getJob"
  | _ => false

/-- The entries and the balances. -/
def Store.ledger (s : Store) : List Account × List JournalEntry :=
  (s.accounts, s.journals)

/-- The operations that a player, a table or an admin calls. -/
def Operation.Direct : Operation → Prop
  | .confirm3DS .. | .processDisbursement .. => False
  | _ => True

abbrev Commits {α : Type} (Q : Except String α → CommitStage → Prop) (p : WalletM α)
    (l : CommitStage) : Prop :=
  p.Follows (commitPoint posts swallowed) Q l

section Ledger

variable {c : Cmd} {s : Store}

/-- What does not post leaves the ledger alone. -/
lemma ledger_exec_of_not_posts (h : posts c (c.exec s).1 = false) :
    (c.exec s).2.ledger = s.ledger := by
  rcases c.exec_money s with ⟨refType, refId, providerTxnId, rows, rfl⟩ | ⟨haccounts, hjournals⟩
  · rcases Cmd.exec_transaction refType refId providerTxnId rows s with hexec | hexec
    · rw [hexec] at h ⊢
      obtain rfl : rows = [] := by simpa [posts] using h
      rfl
    · rw [hexec]
  · rw [Store.ledger, haccounts, hjournals]
    rfl

/-- What posts adds entries. -/
lemma ledger_exec_of_posts (h : posts c (c.exec s).1 = true) : (c.exec s).2.ledger ≠ s.ledger := by
  cases c with
  | transaction refType refId providerTxnId rows =>
    rcases Cmd.exec_transaction refType refId providerTxnId rows s with hexec | hexec
    · rw [hexec] at h ⊢
      have hrows : rows ≠ [] := by simpa [posts] using h
      intro hsame
      have hjournals : (rows.foldl (Store.insert refType refId providerTxnId) s).journals =
          s.journals := congrArg Prod.snd hsame
      rw [Store.foldl_insert_journals] at hjournals
      exact hrows (by simpa using hjournals)
    · rw [hexec] at h
      cases h
  | _ => cases h

end Ledger

section Operations

variable {α : Type} {Q : Except String α → CommitStage → Prop} {c : Cmd} {f : c.Answer → WalletM α}
  {sha256 : String → String} {config : Config}

/-- A command before the commit. -/
lemma follows_look (hc : ∀ a, posts c a = false) (hok : ∀ a, Commits Q (f a) .looking)
    (hfail : Q (.error "statement failed") .looking) : Commits Q (run c >>= f) .looking := by
  apply follows_command_bind
  · exact Or.inl rfl
  · intro a
    have hnext : (commitPoint posts swallowed).next .looking c (some a) = .looking := by
      refine if_neg ?_
      rw [Posted, Option.any_some, hc a]
      simp
    rw [hnext]
    exact hok a
  · exact hfail

/-- A command after the commit. -/
lemma follows_tell (hc : ∀ a, posts c a = false) (hs : swallowed c = false)
    (hok : ∀ a, Commits Q (f a) .committed) (hfail : Q (.error "statement failed") .spoilt) :
    Commits Q (run c >>= f) .committed := by
  apply follows_command_bind
  · exact Or.inr hc
  · exact hok
  · have hnext : (commitPoint posts swallowed).next .committed c none = .spoilt := by
      refine if_pos ?_
      rw [CallFailed, hs]
      rfl
    rw [hnext]
    exact hfail

lemma follows_findOneByOrFail {q : Account → Bool} {f : Account → WalletM α}
    (hok : ∀ account, Commits Q (f account) .looking) (hfail : ∀ e, Q (.error e) .looking) :
    Commits Q (findOneByOrFail q >>= f) .looking := by
  apply follows_bind
  apply follows_look
  · exact fun _ => rfl
  · rintro (_ | account)
    · exact hfail _
    · exact hok account
  · exact hfail _

lemma follows_emit {Q : Except String Unit → CommitStage → Prop} {topic id : String}
    (hok : Q (.ok ()) .committed) (hfail : ∀ e, Q (.error e) .spoilt) :
    Commits Q (emit topic id) .committed := by
  apply follows_command
  · exact Or.inr fun _ => rfl
  · exact fun _ => hok
  · exact hfail _

lemma follows_onlyIf {Q : Except String Unit → CommitStage → Prop} {cond : Bool} {p : WalletM Unit}
    {l : CommitStage} (hp : Commits Q p l) (hskip : Q (.ok ()) l) :
    Commits Q (onlyIf cond p) l := by
  cases cond with
  | true => exact hp
  | false => exact hskip

lemma follows_announce {Q : Except String Unit → CommitStage → Prop} {entry : Movement}
    (hok : Q (.ok ()) .committed) (hfail : ∀ e, Q (.error e) .spoilt) :
    Commits Q (announce config entry) .committed := by
  apply follows_bind
  apply follows_emit
  · apply follows_onlyIf
    · exact follows_emit hok hfail
    · exact hok
  · exact hfail

lemma follows_announceAll {Q : Except String Unit → CommitStage → Prop} (entries : List Movement)
    (hok : Q (.ok ()) .committed) (hfail : ∀ e, Q (.error e) .spoilt) :
    Commits Q (forEach (announce config) entries) .committed := by
  induction entries with
  | nil => exact hok
  | cons entry entries ih =>
    apply follows_bind
    exact follows_announce ih hfail

/-- `record` posts, and what it does afterwards only can fail. -/
lemma follows_record {Q : Except String Outcome → CommitStage → Prop} {refType refId : String}
    {entries : List Movement} {providerTxnId : Option String} (hentries : entries ≠ [])
    (hposted : Q (.ok .posted) .committed) (hsuppressed : Q (.ok .suppressed) .looking)
    (hfail : ∀ e, Q (.error e) .looking) (hspoilt : ∀ e, Q (.error e) .spoilt) :
    Commits Q (record sha256 config refType refId entries providerTxnId) .looking := by
  unfold record
  split_ifs
  · exact hfail _
  · apply follows_look
    · exact fun _ => rfl
    · intro existing
      split_ifs
      · exact hsuppressed
      · apply follows_command_bind
        · exact Or.inl rfl
        · rintro (_ | _)
          · exact hfail _
          · have hnext : (commitPoint posts swallowed).next .looking (.transaction refType refId
                providerTxnId (entries.map fun e =>
                  (e, buildHash sha256 refType refId e.account.id e.amount))) (some true) =
                .committed := by
              refine if_pos ?_
              simpa [Posted, posts] using hentries
            rw [hnext]
            apply follows_bind
            apply follows_announceAll
            · exact hposted
            · exact hspoilt
        · exact hfail _
    · exact hfail _

/-- The operations that end with `record`. -/
lemma settles_record {refType refId : String} {entries : List Movement}
    {providerTxnId : Option String} (hentries : entries ≠ []) :
    Commits EndsSettled (record sha256 config refType refId entries providerTxnId) .looking := by
  apply follows_record hentries
  · exact fun h => nomatch h
  · exact fun h => nomatch h
  · exact fun _ h => nomatch h
  · exact fun _ h => nomatch h

/-- A command that does not post, before the commit or after it. -/
lemma settles_further {c : Cmd} {f : c.Answer → WalletM Outcome} {l : CommitStage} (hl : l ≠ .spoilt)
    (hc : ∀ a, posts c a = false) (hs : swallowed c = false)
    (hok : ∀ a, Commits EndsSettled (f a) l) : Commits EndsSettled (run c >>= f) l := by
  cases l with
  | looking => exact follows_look hc hok (fun h => nomatch h)
  | committed => exact follows_tell hc hs hok (fun h => nomatch h)
  | spoilt => exact absurd rfl hl

lemma settles_onlyIf_side {what : String} {cond : Bool} {f : Unit → WalletM Outcome}
    {l : CommitStage} (hl : l ≠ .spoilt) (hs : swallowed (.side what) = false)
    (hok : Commits EndsSettled (f ()) l) :
    Commits EndsSettled (onlyIf cond (run (.side what)) >>= f) l := by
  cases cond with
  | true => exact settles_further hl (fun _ => rfl) hs fun _ => hok
  | false => exact hok

lemma settles_reserve {accountId : String} {amount : ℤ} {refId currency : String}
    {key : Option String} :
    Commits EndsSettled (reserve sha256 config accountId amount refId currency key) .looking := by
  apply follows_findOneByOrFail
  · intro user
    apply follows_findOneByOrFail
    · intro reserve
      apply settles_onlyIf_side
      · exact fun h => nomatch h
      · rfl
      · exact settles_record (cons_ne_nil _ _)
    · exact fun _ h => nomatch h
  · exact fun _ h => nomatch h

/-- What follows `record` runs unless `record` throws. -/
lemma settles_record_bind {refType refId : String} {entries : List Movement}
    {providerTxnId : Option String} {f : Outcome → WalletM Outcome} (hentries : entries ≠ [])
    (hf : ∀ outcome l, l ≠ .spoilt → Commits EndsSettled (f outcome) l) :
    Commits EndsSettled (record sha256 config refType refId entries providerTxnId >>= f) .looking := by
  apply follows_bind
  apply Follows.mono (settles_record hentries)
  rintro (e | outcome) l hl
  · exact hl
  · exact hf outcome l hl

lemma settles_commit {refId : String} {amount rakeAmount : ℤ} {currency : String}
    {key : Option String} :
    Commits EndsSettled (commit sha256 config refId amount rakeAmount currency key) .looking := by
  apply follows_findOneByOrFail
  · intro reserve
    apply follows_findOneByOrFail
    · intro prize
      apply follows_findOneByOrFail
      · intro rakeAcc
        apply settles_record_bind (cons_ne_nil _ _)
        intro outcome l hl
        apply settles_further hl (fun _ => rfl) rfl
        intro _
        apply settles_onlyIf_side hl rfl
        exact hl
      · exact fun _ h => nomatch h
    · exact fun _ h => nomatch h
  · exact fun _ h => nomatch h

lemma settles_rollback {accountId : String} {amount : ℤ} {refId currency : String}
    {key : Option String} :
    Commits EndsSettled (rollback sha256 config accountId amount refId currency key) .looking := by
  apply follows_findOneByOrFail
  · intro reserve
    apply follows_findOneByOrFail
    · intro user
      apply settles_record_bind (cons_ne_nil _ _)
      intro outcome l hl
      apply settles_onlyIf_side hl rfl
      exact hl
    · exact fun _ h => nomatch h
  · exact fun _ h => nomatch h

lemma settles_refundDisbursement {disb : Disbursement} :
    Commits EndsSettled (refundDisbursement sha256 config disb) .looking := by
  apply follows_findOneByOrFail
  · intro account
    apply follows_findOneByOrFail
    · intro house
      exact settles_record (cons_ne_nil _ _)
    · exact fun _ h => nomatch h
  · exact fun _ h => nomatch h

lemma settles_adminAdjustBalance {userId : String} {action : Adjustment} {amount : ℤ}
    {currency refId : String} :
    Commits EndsSettled (adminAdjustBalance sha256 config userId action amount currency refId)
      .looking := by
  apply follows_findOneByOrFail
  · intro user
    apply follows_findOneByOrFail
    · intro house
      cases action with
      | add => exact settles_record (cons_ne_nil _ _)
      | remove => exact settles_record (cons_ne_nil _ _)
      | freeze => exact settles_reserve
    · exact fun _ h => nomatch h
  · exact fun _ h => nomatch h

lemma settles_confirmLocked {id : String} :
    Commits EndsSettled (confirmLocked sha256 config id) .looking := by
  apply follows_look
  · exact fun _ => rfl
  · rintro (_ | deposit)
    · exact fun h => nomatch h
    · dsimp only
      split_ifs
      · exact fun h => nomatch h
      · apply follows_findOneByOrFail
        · intro user
          apply follows_findOneByOrFail
          · intro house
            apply settles_record_bind (cons_ne_nil _ _)
            intro outcome l hl
            apply settles_further hl (fun _ => rfl) rfl
            intro _
            apply settles_further hl (fun _ => rfl) rfl
            intro _
            apply settles_further hl (fun _ => rfl) rfl
            intro _
            apply settles_further hl (fun _ => rfl) rfl
            intro _
            exact hl
          · exact fun _ h => nomatch h
        · exact fun _ h => nomatch h
  · exact fun h => nomatch h

/-- A job that cannot be removed changes nothing. -/
lemma follows_removeJob {Q : Except String Unit → CommitStage → Prop} {l : CommitStage}
    (hok : Q (.ok ()) l) : Commits Q removeJob l := by
  apply follows_handle
  cases l with
  | looking => exact follows_command (Or.inl rfl) (fun _ => hok) hok
  | committed => exact follows_command (Or.inr fun _ => rfl) (fun _ => hok) hok
  | spoilt => exact follows_command (Or.inr fun _ => rfl) (fun _ => hok) hok

lemma settles_unlock {id : String} {r : Except String Outcome} {l : CommitStage}
    (h : EndsSettled r l) :
    Commits (fun
      | .ok _, l => EndsSettled r l
      | .error e, l => EndsSettled (.error e : Except String Outcome) l)
      (removeJob >>= fun _ => run (.del (.pendingLock id))) l := by
  apply follows_bind
  apply follows_removeJob
  cases l with
  | looking => exact follows_command (Or.inl rfl) (fun _ => h) (fun h => nomatch h)
  | committed => exact follows_command (Or.inr fun _ => rfl) (fun _ => h) (fun h => nomatch h)
  | spoilt => exact follows_command (Or.inr fun _ => rfl) (fun _ => h) (fun h => nomatch h)

lemma settles_confirmPendingDeposit {id : String} :
    Commits EndsSettled (confirmPendingDeposit sha256 config id) .looking := by
  apply follows_look
  · exact fun _ => rfl
  · rintro (_ | _)
    · exact fun h => nomatch h
    · apply follows_ensure
      apply Follows.mono settles_confirmLocked
      intro r l hl
      apply Follows.mono (settles_unlock hl)
      rintro (e | _) _ hr
      · exact hr
      · exact hr
  · exact fun h => nomatch h

/-- Every operation looks, posts once at most, and tells of it afterwards. -/
lemma settles_body {op : Operation} (h : op.Direct) :
    Commits EndsSettled (op.body sha256 config) .looking := by
  have hunit : ∀ {p : WalletM Outcome}, Commits EndsSettled p .looking →
      Commits EndsSettled (p >>= fun _ => pure ()) .looking := by
    intro p hp
    apply follows_bind
    apply Follows.mono hp
    rintro (e | outcome) l hl
    · exact hl
    · exact hl
  cases op with
  | reserve => exact hunit settles_reserve
  | commit => exact hunit settles_commit
  | rollback => exact hunit settles_rollback
  | refundDisbursement => exact hunit settles_refundDisbursement
  | confirm3DS => exact h.elim
  | processDisbursement => exact h.elim
  | confirmPendingDeposit => exact hunit settles_confirmPendingDeposit
  | adminAdjustBalance => exact hunit settles_adminAdjustBalance

end Operations

/-- The run of an operation alone in which the commands at the given places fail. -/
def Operation.execute (sha256 : String → String) (config : Config) (op : Operation)
    (fails : ℕ → Bool) (s : Store) : Run Cmd.Answer String Unit Store :=
  (op.body sha256 config).runWith Cmd.exec fails s

/-- An operation that rejects has posted nothing exactly when no command has failed after the
transaction that posts. -/
theorem rejected_posts_nothing_iff (sha256 : String → String) (config : Config) (op : Operation)
    (hop : op.Direct) (fails : ℕ → Bool) (s : Store) :
    ((∃ e, (op.execute sha256 config fails s).outcome = .error e) →
      (op.execute sha256 config fails s).state.journals = s.journals ∧
        (op.execute sha256 config fails s).state.accounts = s.accounts) ↔
    ¬ FailsAfterCommit posts swallowed (op.execute sha256 config fails s).trace := by
  have hkeep : ∀ (c : Cmd) s, posts c (c.exec s).1 = false → (c.exec s).2.ledger = s.ledger :=
    fun _ _ => ledger_exec_of_not_posts
  have hpost : ∀ (c : Cmd) s, posts c (c.exec s).1 = true → (c.exec s).2.ledger ≠ s.ledger :=
    fun _ _ => ledger_exec_of_posts
  have hbody : Commits EndsSettled (op.body sha256 config) .looking := settles_body hop
  refine Iff.trans ?_ (unchanged_of_raise_iff hkeep hpost hbody fails s)
  refine imp_congr_right fun _ => ?_
  exact ⟨fun ⟨hjournals, haccounts⟩ => Prod.ext haccounts hjournals,
    fun h => ⟨congrArg Prod.snd h, congrArg Prod.fst h⟩⟩

/-- Reserving 100 for a seat; the `n`-th command fails. -/
def reserveFailingAt (n : ℕ) : Run Cmd.Answer String Unit Store :=
  (Operation.reserve "u1" 100 "t1" "USD" none).execute buyInHash {} (fun i => i == n) freshAccounts

/-- The transaction itself fails. -/
theorem rejected_posts_nothing_unposted :
    (reserveFailingAt 3).state.journals = [] ∧
      (reserveFailingAt 3).state.accounts = freshAccounts.accounts :=
  (rejected_posts_nothing_iff buyInHash {} (.reserve "u1" 100 "t1" "USD" none) trivial
    (fun i => i == 3) freshAccounts).mpr
    (fun h => absurd (stageAfter_looking.mpr h) (by decide +kernel))
    ⟨"statement failed", by decide +kernel⟩

/-- The first emission fails: the reservation rejects, and the player has paid. -/
theorem rejected_and_posted :
    (reserveFailingAt 4).outcome = .error "statement failed" ∧
      (reserveFailingAt 4).state.journals ≠ freshAccounts.journals ∧
        (reserveFailingAt 4).state.accounts.map (·.balance) = [-100, 100] := by
  decide +kernel

end Pokerhub.Wallet
