import Mathlib.Algebra.Ring.Int.Defs
import Mathlib.Data.List.Induction
import Mathlib.Logic.Function.Basic
import Pokerhub.Game.Settlement

/-!
# The repositories of the wallet during `writeHandLedger`

`writeHandLedger` of `hand-ledger.ts` gives the wallet the repositories of its transaction and
their manager a `transaction` that opens none, and takes both back in its `finally`. By then the
journals of the wallet are the original ones again, so the saved method goes to their manager and
not to the one it was taken from (`writeHandLedger_restores_iff`).
-/

namespace Pokerhub.Wallet

open List

/-! ### Repositories and managers -/

/-- An entity manager, by number. -/
abbrev Manager := ℕ

inductive Entity where
  | account | journalEntry | disbursement | settlementJournal
  deriving DecidableEq

structure Repository where
  entity : Entity
  manager : Manager
  deriving DecidableEq

/-- The fields of `WalletService` that are swapped; `none` is `undefined`. -/
structure Repositories where
  accounts : Option Repository
  journals : Option Repository
  disbursements : Option Repository
  settlements : Option Repository
  deriving DecidableEq

namespace Repositories

/-- `manager.getRepository` for each of the fields. -/
def ofManager (manager : Manager) : Repositories where
  accounts := some ⟨.account, manager⟩
  journals := some ⟨.journalEntry, manager⟩
  disbursements := some ⟨.disbursement, manager⟩
  settlements := some ⟨.settlementJournal, manager⟩

def hasRepos (orig : Repositories) : Bool :=
  orig.accounts.isSome && orig.journals.isSome

/-- Repositories that can be swapped, of a manager made before `fresh`. -/
structure Made (fresh : Manager) (repos : Repositories) : Prop where
  hasRepos : repos.hasRepos
  lt_fresh : ∀ journals, repos.journals = some journals → journals.manager < fresh

lemma made_ofManager {fresh manager : Manager} (hlt : manager < fresh) :
    (ofManager manager).Made fresh where
  hasRepos := rfl
  lt_fresh journals hjournals := by
    rw [← Option.some.inj hjournals]
    exact hlt

variable {repos : Repositories} {fresh fresh' : Manager}

lemma Made.mono (hr : repos.Made fresh) (hle : fresh ≤ fresh') : repos.Made fresh' :=
  ⟨hr.hasRepos, fun journals hj => (hr.lt_fresh journals hj).trans_le hle⟩

lemma exists_journals (h : repos.hasRepos) : ∃ journals, repos.journals = some journals := by
  rw [hasRepos, Bool.and_eq_true] at h
  exact Option.isSome_iff_exists.mp h.2

end Repositories

/-- The property `transaction` of a manager. -/
inductive TransactionMethod where
  /-- The method of the class, which works on `this`. -/
  | ofClass
  | bind (method : TransactionMethod) (manager : Manager)
  /-- `async (fn) => fn(wallet.journals.manager)` -/
  | direct
  deriving DecidableEq

/-- The manager on which `manager.transaction(fn)` opens a transaction, if it opens one. -/
def TransactionMethod.opens : TransactionMethod → Manager → Option Manager
  | .ofClass, manager => some manager
  | .bind method manager, _ => method.opens manager
  | .direct, _ => none

/-! ### The call -/

/-- A call on the wallet that the callback awaits. -/
inductive LedgerOp where
  | reserve (playerId : String) (amount : ℤ)
  | commit (total : ℤ)
  deriving DecidableEq

/-- The calls that the callback awaits, in order. -/
def ledgerOps (settlements : List SettlementEntry) : List LedgerOp :=
  let losses := settlements.filter fun entry => entry.delta < 0
  let total := (losses.map fun entry => -entry.delta).sum
  losses.map (fun entry => .reserve entry.playerId (-entry.delta)) ++
    if total > 0 then [.commit total] else []

/-- A callback that waits for the first of `awaiting`. Without repositories `origTxn` is
`undefined`. -/
structure LedgerCall where
  orig : Repositories
  origTxn : Option TransactionMethod
  awaiting : List LedgerOp
  deriving DecidableEq

/-- The wallet, the managers, and the callbacks that are under way. -/
structure WalletHeap where
  repos : Repositories
  transaction : Manager → TransactionMethod
  /-- The manager that the next `dataSource.transaction` makes. -/
  fresh : Manager
  calls : List LedgerCall

namespace WalletHeap

/-- The `finally` block. -/
def restore (c : LedgerCall) (h : WalletHeap) : WalletHeap :=
  if c.orig.hasRepos then
    let repos := c.orig
    -- `wallet.journals` is read after it has been set back
    match repos.journals, c.origTxn with
    | some journals, some origTxn =>
      { h with
        repos := repos
        transaction := Function.update h.transaction journals.manager origTxn }
    | _, _ => { h with repos := repos }
  else h

/-- The callback up to its next `await`, or to its end. -/
def proceed (c : LedgerCall) (h : WalletHeap) : WalletHeap :=
  if c.awaiting = [] then h.restore c else { h with calls := h.calls ++ [c] }

/-- `dataSource.transaction` runs the callback of a new call. -/
def callback (settlements : List SettlementEntry) (h : WalletHeap) : WalletHeap :=
  let manager := h.fresh
  let orig := h.repos
  let h := { h with fresh := manager + 1 }
  if orig.hasRepos then
    let origTxn := .bind (h.transaction manager) manager
    proceed ⟨orig, some origTxn, ledgerOps settlements⟩
      { h with
        repos := .ofManager manager
        transaction := Function.update h.transaction manager .direct }
  else proceed ⟨orig, none, ledgerOps settlements⟩ h

/-- What the `i`-th callback waits for is done or fails. -/
def resume (i : ℕ) (ok : Bool) (h : WalletHeap) : WalletHeap :=
  match h.calls[i]? with
  | none => h
  | some c =>
    let h := { h with calls := h.calls.eraseIdx i }
    if ok then h.proceed { c with awaiting := c.awaiting.tail } else h.restore c

end WalletHeap

inductive LedgerEvent where
  | callback (settlements : List SettlementEntry)
  | resume (i : ℕ) (ok : Bool)

namespace WalletHeap

def after (h : WalletHeap) : LedgerEvent → WalletHeap
  | .callback settlements => h.callback settlements
  | .resume i ok => h.resume i ok

/-- The calls of any number of callers, interleaved at their awaits. -/
def run (h : WalletHeap) (events : List LedgerEvent) : WalletHeap :=
  events.foldl after h

/-- The manager on which `manager.transaction(fn)` opens a transaction. -/
def opens (h : WalletHeap) (manager : Manager) : Option Manager :=
  (h.transaction manager).opens manager

/-- No callback is under way. A manager that is not made yet has the method of its class, and a
transaction is opened on one that is made. -/
structure Quiet (h : WalletHeap) : Prop where
  calls : h.calls = []
  unused : ∀ manager, h.fresh ≤ manager → h.transaction manager = .ofClass
  opens_lt : ∀ manager opened, manager < h.fresh → h.opens manager = some opened →
    opened < h.fresh
  lt_fresh : ∀ journals, h.repos.journals = some journals → journals.manager < h.fresh

/-- The fields are the original ones, and `transaction` does on every manager what it did. -/
structure Restored (h₀ h : WalletHeap) : Prop where
  repos : h.repos = h₀.repos
  opens : ∀ manager, h.opens manager = h₀.opens manager

/-- Before the first hand every manager has the method of its class. -/
lemma quiet_of_ofClass {h : WalletHeap} (hcalls : h.calls = [])
    (hclass : ∀ manager, h.transaction manager = .ofClass)
    (hlt : ∀ journals, h.repos.journals = some journals → journals.manager < h.fresh) :
    h.Quiet where
  calls := hcalls
  unused manager _ := hclass manager
  opens_lt manager opened hmanager hopens := by
    rw [opens, hclass] at hopens
    exact Option.some.inj hopens ▸ hmanager
  lt_fresh := hlt

/-! ### A wallet without repositories -/

section WithoutRepos

variable {h₀ h : WalletHeap}

/-- Nothing has been swapped. -/
structure Untouched (h₀ h : WalletHeap) : Prop where
  le_fresh : h₀.fresh ≤ h.fresh
  repos : h.repos = h₀.repos
  transaction : h.transaction = h₀.transaction
  calls : ∀ c ∈ h.calls, c.orig = h₀.repos

lemma Quiet.untouched (hq : h₀.Quiet) : Untouched h₀ h₀ :=
  ⟨le_rfl, rfl, rfl, by simp [hq.calls]⟩

lemma Untouched.restored (hu : Untouched h₀ h) : Restored h₀ h :=
  ⟨hu.repos, fun manager => by rw [opens, hu.transaction, opens]⟩

lemma Untouched.restore {c : LedgerCall} (hrepos : h₀.repos.hasRepos = false)
    (hu : Untouched h₀ h) (hc : c.orig = h₀.repos) : Untouched h₀ (h.restore c) := by
  rw [WalletHeap.restore, hc, hrepos]
  exact hu

lemma Untouched.proceed {c : LedgerCall} (hrepos : h₀.repos.hasRepos = false)
    (hu : Untouched h₀ h) (hc : c.orig = h₀.repos) : Untouched h₀ (h.proceed c) := by
  rw [WalletHeap.proceed]
  split
  · exact hu.restore hrepos hc
  · refine ⟨hu.le_fresh, hu.repos, hu.transaction, fun d hd => ?_⟩
    rcases mem_append.mp hd with hd | hd
    · exact hu.calls d hd
    · rw [mem_singleton.mp hd, hc]

lemma Untouched.callback (hrepos : h₀.repos.hasRepos = false) (hu : Untouched h₀ h)
    (settlements : List SettlementEntry) : Untouched h₀ (h.callback settlements) := by
  have hnone : h.repos.hasRepos = false := hu.repos ▸ hrepos
  rw [WalletHeap.callback]
  simp only [hnone, Bool.false_eq_true, if_false]
  exact Untouched.proceed hrepos
    ⟨hu.le_fresh.trans h.fresh.le_succ, hu.repos, hu.transaction, hu.calls⟩ hu.repos

lemma Untouched.resume (hrepos : h₀.repos.hasRepos = false) (hu : Untouched h₀ h) (i : ℕ)
    (ok : Bool) : Untouched h₀ (h.resume i ok) := by
  rw [WalletHeap.resume]
  split
  · exact hu
  · next c hget =>
    have hrest : Untouched h₀ { h with calls := h.calls.eraseIdx i } :=
      ⟨hu.le_fresh, hu.repos, hu.transaction, fun d hd => hu.calls d (mem_of_mem_eraseIdx hd)⟩
    have hc : c.orig = h₀.repos := hu.calls c (mem_of_getElem? hget)
    cases ok with
    | false => exact hrest.restore hrepos hc
    | true => exact hrest.proceed hrepos hc

lemma Untouched.run (hrepos : h₀.repos.hasRepos = false) (hu : Untouched h₀ h)
    (events : List LedgerEvent) : Untouched h₀ (h.run events) := by
  induction events generalizing h with
  | nil => exact hu
  | cons event events ih =>
    cases event with
    | callback settlements => exact ih (hu.callback hrepos settlements)
    | resume i ok => exact ih (hu.resume hrepos i ok)

lemma Untouched.quiet (hu : Untouched h₀ h) (hq : h₀.Quiet) (hdone : h.calls = []) :
    h.Quiet where
  calls := hdone
  unused manager hle := by
    rw [hu.transaction]
    exact hq.unused manager (hu.le_fresh.trans hle)
  opens_lt manager opened hlt hopens := by
    rw [hu.restored.opens] at hopens
    by_cases hmade : manager < h₀.fresh
    · exact (hq.opens_lt manager opened hmade hopens).trans_le hu.le_fresh
    · rw [opens, hq.unused manager (not_lt.mp hmade)] at hopens
      exact Option.some.inj hopens ▸ hlt
  lt_fresh journals hjournals := by
    rw [hu.repos] at hjournals
    exact (hq.lt_fresh journals hjournals).trans_le hu.le_fresh

end WithoutRepos

/-! ### A wallet with repositories -/

section WithRepos

variable {h : WalletHeap} {first : Manager} {cs : List LedgerCall}

/-- The calls `cs` are still to be restored. Each of them has saved the method of a manager that
was made for it, `first` or a later one. -/
structure Swapping (first : Manager) (cs : List LedgerCall) (h : WalletHeap) : Prop where
  le_fresh : first ≤ h.fresh
  unused : ∀ manager, h.fresh ≤ manager → h.transaction manager = .ofClass
  opens_lt : ∀ manager opened, manager < h.fresh → h.opens manager = some opened →
    opened < h.fresh
  repos : h.repos.Made h.fresh
  orig : ∀ c ∈ cs, c.orig.Made h.fresh
  origTxn : ∀ c ∈ cs, ∃ manager, first ≤ manager ∧ manager < h.fresh ∧
    c.origTxn = some (.bind .ofClass manager)

/-- The manager of the repository `journals` is still to be given the method of another manager,
or has been given one. -/
def Marked (first : Manager) (journals : Repository) (cs : List LedgerCall) (h : WalletHeap) :
    Prop :=
  (∃ c ∈ cs, c.orig.journals = some journals) ∨
    ∃ manager, first ≤ manager ∧ h.opens journals.manager = some manager

/-- What every event keeps once a call has saved the original repositories. -/
structure Tracked (first : Manager) (journals : Repository) (cs : List LedgerCall)
    (h : WalletHeap) : Prop extends Swapping first cs h where
  marked : Marked first journals cs h

lemma restore_eq {c : LedgerCall} {journals : Repository} {origTxn : TransactionMethod}
    (hc : c.orig.hasRepos) (hjournals : c.orig.journals = some journals)
    (horigTxn : c.origTxn = some origTxn) :
    h.restore c =
      { h with
        repos := c.orig
        transaction := Function.update h.transaction journals.manager origTxn } := by
  rw [restore, if_pos hc]
  simp only [hjournals, horigTxn]

lemma callback_eq (hrepos : h.repos.hasRepos) (settlements : List SettlementEntry) :
    h.callback settlements =
      proceed ⟨h.repos, some (.bind (h.transaction h.fresh) h.fresh), ledgerOps settlements⟩
        { h with
          repos := .ofManager h.fresh
          transaction := Function.update h.transaction h.fresh .direct
          fresh := h.fresh + 1 } := by
  rw [callback, if_pos hrepos]

lemma opens_update_self {h' : WalletHeap} {manager : Manager} {method : TransactionMethod}
    (heq : h'.transaction = Function.update h.transaction manager method) :
    h'.opens manager = method.opens manager := by
  rw [opens, heq, Function.update_self]

lemma opens_update_of_ne {h' : WalletHeap} {m manager : Manager} {method : TransactionMethod}
    (heq : h'.transaction = Function.update h.transaction manager method) (hne : m ≠ manager) :
    h'.opens m = h.opens m := by
  rw [opens, heq, Function.update_of_ne hne, opens]

/-- A call counts for what it has saved. -/
lemma Tracked.mono {journals : Repository} {ds : List LedgerCall}
    (ht : Tracked first journals cs h)
    (hds : ∀ d ∈ ds, ∃ c ∈ cs, d.orig = c.orig ∧ d.origTxn = c.origTxn)
    (hcs : ∀ c ∈ cs, ∃ d ∈ ds, d.orig = c.orig) : Tracked first journals ds h where
  le_fresh := ht.le_fresh
  unused := ht.unused
  opens_lt := ht.opens_lt
  repos := ht.repos
  orig d hd := by
    obtain ⟨c, hc, horig, -⟩ := hds d hd
    exact horig ▸ ht.orig c hc
  origTxn d hd := by
    obtain ⟨c, hc, -, horigTxn⟩ := hds d hd
    exact horigTxn ▸ ht.origTxn c hc
  marked := by
    refine ht.marked.imp_left fun ⟨c, hc, horig⟩ => ?_
    obtain ⟨d, hd, heq⟩ := hcs c hc
    exact ⟨d, hd, heq ▸ horig⟩

lemma Tracked.perm {journals : Repository} {ds : List LedgerCall}
    (ht : Tracked first journals cs h) (hperm : ds ~ cs) : Tracked first journals ds h :=
  ht.mono (fun d hd => ⟨d, hperm.mem_iff.mp hd, rfl, rfl⟩)
    fun c hc => ⟨c, hperm.mem_iff.mpr hc, rfl⟩

/-- The list of the calls under way plays no part. -/
lemma Tracked.withCalls {journals : Repository} (ht : Tracked first journals cs h)
    (calls : List LedgerCall) : Tracked first journals cs { h with calls := calls } :=
  ⟨⟨ht.le_fresh, ht.unused, ht.opens_lt, ht.repos, ht.orig, ht.origTxn⟩, ht.marked⟩

variable {journals : Repository}

lemma Tracked.restore {c : LedgerCall} (ht : Tracked first journals (c :: h.calls) h) :
    Tracked first journals (h.restore c).calls (h.restore c) := by
  have hc := ht.orig c mem_cons_self
  obtain ⟨saved, hsaved⟩ := Repositories.exists_journals hc.hasRepos
  obtain ⟨manager, hfirst, hmade, horigTxn⟩ := ht.origTxn c mem_cons_self
  rw [restore_eq hc.hasRepos hsaved horigTxn]
  refine ⟨⟨ht.le_fresh, fun m hm => ?_, fun m opened hm hopens => ?_, hc,
    fun d hd => ht.orig d (mem_cons_of_mem c hd),
    fun d hd => ht.origTxn d (mem_cons_of_mem c hd)⟩, ?_⟩
  · have hne : m ≠ saved.manager := ((hc.lt_fresh saved hsaved).trans_le hm).ne'
    exact (Function.update_of_ne hne _ _).trans (ht.unused m hm)
  · by_cases heq : m = saved.manager
    · subst heq
      rw [opens_update_self rfl] at hopens
      exact Option.some.inj hopens ▸ hmade
    · rw [opens_update_of_ne rfl heq] at hopens
      exact ht.opens_lt m opened hm hopens
  · by_cases heq : journals.manager = saved.manager
    · refine Or.inr ⟨manager, hfirst, ?_⟩
      rw [heq, opens_update_self rfl]
      rfl
    · rcases ht.marked with ⟨d, hd, hd'⟩ | ⟨m, hm, hopens⟩
      · rcases mem_cons.mp hd with rfl | hd
        · rw [hsaved] at hd'
          exact absurd (congrArg Repository.manager (Option.some.inj hd')).symm heq
        · exact Or.inl ⟨d, hd, hd'⟩
      · exact Or.inr ⟨m, hm, (opens_update_of_ne rfl heq).trans hopens⟩

lemma Tracked.proceed {c : LedgerCall} (ht : Tracked first journals (c :: h.calls) h) :
    Tracked first journals (h.proceed c).calls (h.proceed c) := by
  rw [WalletHeap.proceed]
  split
  · exact ht.restore
  · exact (ht.perm (perm_append_singleton c h.calls)).withCalls _

lemma Tracked.resume (ht : Tracked first journals h.calls h) (i : ℕ) (ok : Bool) :
    Tracked first journals (h.resume i ok).calls (h.resume i ok) := by
  rw [WalletHeap.resume]
  split
  · exact ht
  · next c hget =>
    obtain ⟨hi, rfl⟩ := List.getElem?_eq_some_iff.mp hget
    have hrest := (ht.perm (getElem_cons_eraseIdx_perm hi)).withCalls (h.calls.eraseIdx i)
    cases ok with
    | false => exact hrest.restore
    | true =>
      refine Tracked.proceed (hrest.mono (fun d hd => ?_) fun d hd => ?_)
      · rcases mem_cons.mp hd with rfl | hd
        · exact ⟨h.calls[i], mem_cons_self, rfl, rfl⟩
        · exact ⟨d, mem_cons_of_mem _ hd, rfl, rfl⟩
      · rcases mem_cons.mp hd with rfl | hd
        · exact ⟨_, mem_cons_self, rfl⟩
        · exact ⟨d, mem_cons_of_mem _ hd, rfl⟩

/-- The first callback begins the track, and the later ones keep it. -/
lemma Swapping.callback (hs : Swapping first h.calls h) (hlt : journals.manager < h.fresh)
    (hm : Marked first journals h.calls h ∨ h.repos.journals = some journals)
    (settlements : List SettlementEntry) :
    Tracked first journals (h.callback settlements).calls (h.callback settlements) := by
  rw [callback_eq hs.repos.hasRepos]
  refine Tracked.proceed ⟨⟨hs.le_fresh.trans h.fresh.le_succ, fun m hm => ?_,
    fun m opened hm hopens => ?_, Repositories.made_ofManager h.fresh.lt_succ_self,
    fun c hc => ?_, fun c hc => ?_⟩, ?_⟩
  · have hle : h.fresh < m := hm
    exact (Function.update_of_ne hle.ne' _ _).trans (hs.unused m hle.le)
  · by_cases heq : m = h.fresh
    · subst heq
      rw [opens_update_self rfl] at hopens
      exact absurd hopens (Option.some_ne_none opened).symm
    · rw [opens_update_of_ne rfl heq] at hopens
      exact (hs.opens_lt m opened ((Nat.lt_succ_iff.mp hm).lt_of_ne heq) hopens).trans
        h.fresh.lt_succ_self
  · rcases mem_cons.mp hc with rfl | hc
    · exact hs.repos.mono h.fresh.le_succ
    · exact (hs.orig c hc).mono h.fresh.le_succ
  · rcases mem_cons.mp hc with rfl | hc
    · exact ⟨h.fresh, hs.le_fresh, h.fresh.lt_succ_self, by rw [hs.unused _ le_rfl]⟩
    · obtain ⟨manager, hfirst, hmade, horigTxn⟩ := hs.origTxn c hc
      exact ⟨manager, hfirst, hmade.trans h.fresh.lt_succ_self, horigTxn⟩
  · rcases hm with (⟨c, hc, horig⟩ | ⟨m, hfirst, hopens⟩) | horig
    · exact Or.inl ⟨c, mem_cons_of_mem _ hc, horig⟩
    · exact Or.inr ⟨m, hfirst, (opens_update_of_ne rfl hlt.ne).trans hopens⟩
    · exact Or.inl ⟨_, mem_cons_self, horig⟩

lemma Tracked.run (ht : Tracked first journals h.calls h) (hlt : journals.manager < first)
    (events : List LedgerEvent) :
    Tracked first journals (h.run events).calls (h.run events) := by
  induction events generalizing h with
  | nil => exact ht
  | cons event events ih =>
    cases event with
    | callback settlements =>
      exact ih (ht.toSwapping.callback (hlt.trans_le ht.le_fresh) (Or.inl ht.marked) settlements)
    | resume i ok => exact ih (ht.resume i ok)

lemma Swapping.quiet (hs : Swapping first h.calls h) (hdone : h.calls = []) : h.Quiet :=
  ⟨hdone, hs.unused, hs.opens_lt, hs.repos.lt_fresh⟩

variable {h₀ : WalletHeap}

/-- The manager of the original journals opens transactions on the manager of a transaction that
is over. -/
lemma Tracked.not_restored (hq : h₀.Quiet) (ht : Tracked h₀.fresh journals h.calls h)
    (hdone : h.calls = []) (hlt : journals.manager < h₀.fresh) : ¬ Restored h₀ h := by
  intro hr
  rcases ht.marked with ⟨c, hc, -⟩ | ⟨manager, hle, hopens⟩
  · rw [hdone] at hc
    exact absurd hc not_mem_nil
  · rw [hr.opens] at hopens
    exact absurd (hq.opens_lt _ manager hlt hopens) (not_lt.mpr hle)

/-- Nothing happens before the first callback. -/
lemma Quiet.tracked_run (hq : h₀.Quiet) (hrepos : h₀.repos.hasRepos)
    (hjournals : h₀.repos.journals = some journals) (events : List LedgerEvent) :
    ((∀ settlements, LedgerEvent.callback settlements ∉ events) ∧ h₀.run events = h₀) ∨
      (∃ settlements, LedgerEvent.callback settlements ∈ events) ∧
        Tracked h₀.fresh journals (h₀.run events).calls (h₀.run events) := by
  have hlt := hq.lt_fresh journals hjournals
  induction events with
  | nil => exact Or.inl ⟨fun _ => not_mem_nil, rfl⟩
  | cons event events ih =>
    cases event with
    | callback settlements =>
      have hs : Swapping h₀.fresh h₀.calls h₀ :=
        ⟨le_rfl, hq.unused, hq.opens_lt, ⟨hrepos, hq.lt_fresh⟩, by simp [hq.calls],
          by simp [hq.calls]⟩
      exact Or.inr ⟨⟨settlements, mem_cons_self⟩,
        (hs.callback hlt (Or.inr hjournals) settlements).run hlt events⟩
    | resume i ok =>
      have hresume : h₀.resume i ok = h₀ := by
        rw [resume, hq.calls, getElem?_nil]
      have hrun : h₀.run (.resume i ok :: events) = h₀.run events :=
        congrArg (fun h : WalletHeap => h.run events) hresume
      rw [hrun]
      refine ih.imp (And.imp_left fun hnone settlements => ?_)
        (And.imp_left fun ⟨settlements, hmem⟩ => ⟨settlements, mem_cons_of_mem _ hmem⟩)
      rw [mem_cons, not_or]
      exact ⟨LedgerEvent.noConfusion, hnone settlements⟩

end WithRepos

/-! ### The original objects afterwards -/

variable {h₀ : WalletHeap}

/-- Between hands the wallet is quiet, whatever has been done to it. -/
theorem Quiet.run (hq : h₀.Quiet) {events : List LedgerEvent}
    (hdone : (h₀.run events).calls = []) : (h₀.run events).Quiet := by
  by_cases hrepos : h₀.repos.hasRepos
  · obtain ⟨journals, hjournals⟩ := Repositories.exists_journals hrepos
    rcases hq.tracked_run hrepos hjournals events with ⟨-, hrun⟩ | ⟨-, ht⟩
    · rw [hrun]
      exact hq
    · exact ht.toSwapping.quiet hdone
  · rw [Bool.not_eq_true] at hrepos
    exact (hq.untouched.run hrepos events).quiet hq hdone

/-- The calls restore the wallet when it has no repositories to swap, or when there are none. -/
theorem writeHandLedger_restores_iff (hq : h₀.Quiet) (events : List LedgerEvent)
    (hdone : (h₀.run events).calls = []) :
    Restored h₀ (h₀.run events) ↔
      h₀.repos.hasRepos = false ∨ ∀ settlements, LedgerEvent.callback settlements ∉ events := by
  by_cases hrepos : h₀.repos.hasRepos
  · obtain ⟨journals, hjournals⟩ := Repositories.exists_journals hrepos
    rcases hq.tracked_run hrepos hjournals events with ⟨hnone, hrun⟩ | ⟨⟨settlements, hmem⟩, ht⟩
    · rw [hrun]
      exact iff_of_true ⟨rfl, fun _ => rfl⟩ (Or.inr hnone)
    · refine iff_of_false (ht.not_restored hq hdone (hq.lt_fresh journals hjournals)) ?_
      rintro (hnone | hnone)
      · exact absurd (hrepos.symm.trans hnone) (by decide)
      · exact hnone settlements hmem
  · rw [Bool.not_eq_true] at hrepos
    exact iff_of_true (hq.untouched.run hrepos events).restored (Or.inl hrepos)

/-! ### A hand of two players -/

/-- The first player has lost 50 chips to the second; the loss is reserved and committed. -/
def oneLoss : List LedgerEvent :=
  [.callback [⟨"p1", -50⟩, ⟨"p2", 50⟩], .resume 0 true, .resume 0 true]

/-- A new wallet with the repositories `repos`, which are those of the manager `0` if any. -/
def newWallet (repos : Repositories) : WalletHeap where
  repos := repos
  transaction := fun _ => .ofClass
  fresh := 1
  calls := []

lemma quiet_newWallet {repos : Repositories} (hr : ∀ journals, repos.journals = some journals →
    journals.manager < 1) : (newWallet repos).Quiet :=
  quiet_of_ofClass rfl (fun _ => rfl) hr

/-- Without repositories. -/
theorem writeHandLedger_restores_iff_oneLoss :
    let h₀ := newWallet ⟨none, none, none, none⟩
    (h₀.run oneLoss).calls = [] ∧ Restored h₀ (h₀.run oneLoss) := by
  intro h₀
  have hdone : (h₀.run oneLoss).calls = [] := by decide
  have hquiet : h₀.Quiet :=
    quiet_newWallet fun _ hjournals => absurd hjournals (Option.some_ne_none _).symm
  exact ⟨hdone, (writeHandLedger_restores_iff hquiet oneLoss hdone).mpr (Or.inl rfl)⟩

/-- With repositories the fields are the original ones again, but `transaction` opens the
transactions of their manager on the manager of the hand. -/
theorem transaction_of_other_manager :
    let h₀ := newWallet (.ofManager 0)
    h₀.Quiet ∧ (h₀.run oneLoss).calls = [] ∧ (h₀.run oneLoss).repos = h₀.repos ∧
      h₀.opens 0 = some 0 ∧ (h₀.run oneLoss).opens 0 = some 1 ∧
      ¬ Restored h₀ (h₀.run oneLoss) := by
  intro h₀
  have hquiet : h₀.Quiet := quiet_newWallet (Repositories.made_ofManager Nat.one_pos).lt_fresh
  have hopens : (h₀.run oneLoss).opens 0 = some 1 := by decide
  refine ⟨hquiet, by decide, by decide, by decide, hopens, fun hr => ?_⟩
  have hsame : (h₀.run oneLoss).opens 0 = some 0 := hr.opens 0
  rw [hopens] at hsame
  exact absurd hsame (by decide)

end WalletHeap

end Pokerhub.Wallet
