import Pokerhub.Wallet.DoubleEntry

/-!
# The double-entry invariant under concurrency

The operations of the wallet in any interleaving. An operation loads its accounts before its
transaction, and the transaction writes the balances back that it has computed from them; so what
another transaction has written in between is lost. As long as every transaction finds its
accounts as they were loaded, `reconcile` reports nothing.
-/

namespace Pokerhub.Wallet

open List Program

section Service

variable (sha256 : String → String) (config : Config)

/-- The operations, any number of them at the same time. -/
def concurrentLedger : Service Cmd.Answer String Unit Store Operation where
  init s := s.Keyed ∧ s.Reconciled
  ready _ _ := True
  body := Operation.body sha256 config
  exec _ := Cmd.exec
  fails _ _ := True
  env _ _ := False

instance (s : Store) (op : Operation) : Decidable ((concurrentLedger sha256 config).ready s op) :=
  isTrue trivial

instance (s : Store) (c : Cmd) : Decidable ((concurrentLedger sha256 config).fails s c) :=
  isTrue trivial

instance (s s' : Store) : Decidable ((concurrentLedger sha256 config).env s s') :=
  isFalse id

end Service

/-- The movements of a transaction. -/
def Cmd.rows : Cmd → List (Movement × String)
  | .transaction _ _ _ rows => rows
  | _ => []

/-- A transaction starts with its accounts as they are stored. -/
def FreshlyLoaded (s : Store) : Service.Action Operation Cmd → Prop
  | .call _ c => s.Loaded c.rows
  | _ => True

instance (s : Store) : (a : Service.Action Operation Cmd) → Decidable (FreshlyLoaded s a)
  | .call _ c => inferInstanceAs (Decidable (s.Loaded c.rows))
  | .start _ => isTrue trivial
  | .fault _ _ => isTrue trivial
  | .env => isTrue trivial

variable {sha256 : String → String} {config : Config} {s : Store}

lemma reconcileRows_run (accounts : List Account) :
    (reconcileRows accounts).run Cmd.exec s =
      (.ok ((accounts.filter fun a => s.journalTotal a.id ≠ a.balance).map fun a =>
        ⟨a.name, a.balance, s.journalTotal a.id⟩), s) := by
  induction accounts with
  | nil => rfl
  | cons a accounts ih =>
    have htotal : (Cmd.sumJournals a.id).exec s = (s.journalTotal a.id, s) := rfl
    simp only [reconcileRows, Wallet.run, run_bind, run_command, htotal, ih]
    by_cases hbalance : s.journalTotal a.id = a.balance
    · simp [hbalance]
    · simp [hbalance]

/-- `reconcile` reports no row exactly when every balance is the sum of its entries. -/
lemma reconcile_run_eq_nil : (reconcile.run Cmd.exec s).1 = .ok [] ↔ s.Reconciled := by
  simp only [reconcile, Wallet.run, run_bind, run_command, Cmd.exec, reconcileRows_run,
    Except.ok.injEq, map_eq_nil_iff, filter_eq_nil_iff, decide_eq_true_eq, ne_eq, not_not]
  exact ⟨fun h a ha => (h a ha).symm, fun h a ha => (h a ha).symm⟩

lemma reconciled_exec {r : Operation} {c : Cmd} (hkeyed : s.Keyed) (hs : s.Reconciled)
    (hok : FreshlyLoaded s (.call r c)) : (c.exec s).2.Keyed ∧ (c.exec s).2.Reconciled := by
  rcases c.exec_money s with ⟨refType, refId, providerTxnId, rows, rfl⟩ | ⟨haccounts, hjournals⟩
  · rcases Cmd.exec_transaction refType refId providerTxnId rows s with hexec | hexec
    · rw [hexec]
      exact ⟨hkeyed.congr Store.accountRows_foldl_insert, hs.foldl_insert hkeyed hok⟩
    · rw [hexec]
      exact ⟨hkeyed, hs⟩
  · refine ⟨hkeyed.congr ?_, fun a ha => ?_⟩
    · rw [Store.accountRows, haccounts, Store.accountRows]
    · rw [haccounts] at ha
      rw [hs a ha, Store.journalTotal, Store.journalTotal, hjournals]

/-- In every interleaving in which no transaction starts from balances that another one has
changed since they were loaded, `reconcile` reports no row. -/
theorem reconcile_concurrent (sha256 : String → String) (config : Config)
    {P : Pool Cmd.Answer String Unit Store Operation}
    (h : ((concurrentLedger sha256 config).within FreshlyLoaded).Reachable P) :
    (reconcile.run Cmd.exec P.state).1 = .ok [] := by
  rw [reconcile_run_eq_nil]
  have hinv : P.state.Keyed ∧ P.state.Reconciled :=
    Service.invariant_of_calls (S := concurrentLedger sha256 config)
      (I := fun s => s.Keyed ∧ s.Reconciled) (fun _ hs => hs)
      (fun _ _ _ hs hok => reconciled_exec hs.1 hs.2 hok) (fun _ _ _ henv _ => henv.elim) h
  exact hinv.2

/-! Two buy-ins whose accounts are both loaded before the first is posted. -/

def twoPlayers : Store where
  accounts := [⟨"u1", "alice", "USD", 0, true⟩, ⟨"u2", "bob", "USD", 0, true⟩,
    ⟨"r1", "reserve", "USD", 0, true⟩]

/-- SHA-256 on the inputs of the run. -/
def twoBuyInsHash : String → String :=
  hashTable [
    ("reserve:t1:u1:-100", "a30067b9df6a2e8f3ad20a14d6df3fccb587498acc8cca5d37e8f2a471dfcc50"),
    ("reserve:t1:r1:100", "341a88a31039ff4c1104c1ae5cf5709bc5002df6b9c37edc9eb29f05a757103f"),
    ("reserve:t2:u2:-50", "3e6036e1e196a4b73ff1e452694ecc0ae9b45065970116593d31926b40d221da"),
    ("reserve:t2:r1:50", "656bbd6b432f8c244226777d9b08cde34810e558ac8b1662f735abd4e711bc1c")]

def overlappingReserves : Pool Cmd.Answer String Unit Store Operation :=
  (concurrentLedger twoBuyInsHash {}).playAll ⟨twoPlayers, []⟩
    [.start (.reserve "u1" 100 "t1" "USD" none), .start (.reserve "u2" 50 "t2" "USD" none),
      .call 0, .call 0, .call 1, .call 1, .call 0, .call 0, .call 1, .call 1,
      .call 0, .call 0, .call 0, .call 1, .call 1, .call 1]

lemma init_twoPlayers : (concurrentLedger twoBuyInsHash {}).init twoPlayers :=
  ⟨⟨by decide, by decide⟩, by decide⟩

/-- The credit of the first buy-in to the reserve is lost. -/
theorem reserves_lose_update :
    ¬ ∀ (sha256 : String → String) (config : Config)
      (P : Pool Cmd.Answer String Unit Store Operation),
      (concurrentLedger sha256 config).system.Reachable P → (∀ t ∈ P.threads, t.2.Done) →
      (reconcile.run Cmd.exec P.state).1 = .ok [] := by
  intro h
  have hreach : ((concurrentLedger twoBuyInsHash {}).within fun _ _ => True).Reachable
      overlappingReserves := Service.reachable_playAll init_twoPlayers (by decide +kernel)
  have hdone : ∀ t ∈ overlappingReserves.threads, t.2.outcome.isSome = true := by decide +kernel
  have hnil := h _ _ _ hreach.of_restrict hdone
  rw [reconcile_run_eq_nil] at hnil
  revert hnil
  decide +kernel

/-- The two buy-ins, the second of them after the first. -/
theorem reconcile_concurrent_inTurn :
    (reconcile.run Cmd.exec ((concurrentLedger twoBuyInsHash {}).playAll ⟨twoPlayers, []⟩
      [.start (.reserve "u1" 100 "t1" "USD" none), .start (.reserve "u2" 50 "t2" "USD" none),
        .call 0, .call 0, .call 0, .call 0, .call 1, .call 1, .call 0, .call 1, .call 1, .call 0,
        .call 0, .call 1, .call 1, .call 1]).state).1 = .ok [] :=
  reconcile_concurrent twoBuyInsHash {} (Service.reachable_playAll init_twoPlayers
    (by decide +kernel))

end Pokerhub.Wallet
