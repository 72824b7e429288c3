import Pokerhub.Core.Journal
import Pokerhub.Wallet.Ledger

/-!
# The idempotency of the ledger

`record` drops a posting when one of the hashes of its legs is in the journal. The legs on the
shared accounts do not mention the user, so the guard is exact only in runs in which no two
different operations have a leg in common.
-/

namespace Pokerhub.Wallet

open List

/-! ### What an operation leaves alone -/

section Frame

variable {sha256 : String → String} {config : Config} {s s' : Store}

lemma hashes_apply (p : Posting) : (p.apply sha256 config s).hashes = s.hashes ++ p.hashes sha256 := by
  have hrows : ∀ rows : List (Movement × String),
      (rows.foldl (Store.insert p.refType p.refId none) s).hashes = s.hashes ++ rows.map (·.2) := by
    intro rows
    simp [Store.hashes, Store.foldl_insert_journals, Function.comp_def]
  rw [← p.map_snd_rows]
  exact hrows (p.rows sha256)

lemma accountRows_apply (p : Posting) : (p.apply sha256 config s).accountRows = s.accountRows :=
  show Store.accountRows ((p.rows sha256).foldl _ _) = _ from Store.accountRows_foldl_insert

lemma depositRows_apply (p : Posting) : (p.apply sha256 config s).depositRows = s.depositRows := by
  simp only [Posting.apply, Store.depositRows]
  rw [Store.foldl_insert_eq]

lemma accountRows_finish (op : Op) : (op.finish s).accountRows = s.accountRows := by
  cases op with
  | confirmPendingDeposit id =>
    simp only [Op.finish]
    split <;> rfl
  | _ => rfl

lemma depositRows_finish (op : Op) : (op.finish s).depositRows = s.depositRows := by
  cases op with
  | confirmPendingDeposit id =>
    simp only [Op.finish]
    split
    · exact Store.depositRows_saveDeposit _
    · rfl
  | _ => rfl

lemma hashes_finish (op : Op) : (op.finish s).hashes = s.hashes := by
  cases op with
  | confirmPendingDeposit id =>
    simp only [Op.finish]
    split <;> rfl
  | _ => rfl

lemma rows_after (op : Op) : (op.after sha256 config s).accountRows = s.accountRows ∧
    (op.after sha256 config s).depositRows = s.depositRows := by
  cases opResult sha256 config op s with
  | none _ hafter _ _ => rw [hafter]; exact ⟨rfl, rfl⟩
  | suppressed p _ _ hrun =>
    rw [Op.after, hrun]
    exact ⟨accountRows_finish op, depositRows_finish op⟩
  | posted p _ _ _ hrun =>
    rw [Op.after, hrun]
    exact ⟨(accountRows_finish op).trans (accountRows_apply p),
      (depositRows_finish op).trans (depositRows_apply p)⟩
  | failed p _ _ _ hrun => rw [Op.after, hrun]; exact ⟨rfl, rfl⟩

/-- The inputs of the hashes of an operation. -/
def Op.inputs (s : Store) (op : Op) : Option (List String) :=
  (op.posting s).map fun p => p.entries.map fun e => hashInput p.refType p.refId e.account.id e.amount

/-- The inputs do not depend on balances and states. -/
lemma inputs_congr {op : Op} (haccounts : s'.accountRows = s.accountRows)
    (hdeposits : s'.depositRows = s.depositRows) {is is' : List String}
    (h : op.inputs s = some is) (h' : op.inputs s' = some is') : is' = is := by
  simp only [Op.inputs, Option.map_eq_some_iff] at h h'
  obtain ⟨p, hp, rfl⟩ := h
  obtain ⟨p', hp', rfl⟩ := h'
  cases op with
  | reserve accountId amount refId currency =>
    simp only [Op.posting, Option.bind_eq_bind, Option.bind_eq_some_iff] at hp hp'
    obtain ⟨user, huser, reserve, hreserve, hp⟩ := hp
    obtain ⟨user', huser', reserve', hreserve', hp'⟩ := hp'
    cases hp
    cases hp'
    simp only [reservePosting, map_cons, map_nil, Store.find_byId haccounts huser' huser,
      Store.find_byName haccounts hreserve' hreserve]
  | commit refId amount rakeAmount currency =>
    simp only [Op.posting, Option.bind_eq_bind, Option.bind_eq_some_iff] at hp hp'
    obtain ⟨reserve, hreserve, prize, hprize, rakeAcc, hrake, hp⟩ := hp
    obtain ⟨reserve', hreserve', prize', hprize', rakeAcc', hrake', hp'⟩ := hp'
    cases hp
    cases hp'
    simp only [commitPosting, map_cons, map_nil, Store.find_byName haccounts hreserve' hreserve,
      Store.find_byName haccounts hprize' hprize, Store.find_byName haccounts hrake' hrake]
  | rollback accountId amount refId currency =>
    simp only [Op.posting, Option.bind_eq_bind, Option.bind_eq_some_iff] at hp hp'
    obtain ⟨reserve, hreserve, user, huser, hp⟩ := hp
    obtain ⟨reserve', hreserve', user', huser', hp'⟩ := hp'
    cases hp
    cases hp'
    simp only [rollbackPosting, map_cons, map_nil, Store.find_byId haccounts huser' huser,
      Store.find_byName haccounts hreserve' hreserve]
  | refundDisbursement id accountId amount =>
    simp only [Op.posting, Option.bind_eq_bind, Option.bind_eq_some_iff] at hp hp'
    obtain ⟨account, haccount, house, hhouse, hp⟩ := hp
    obtain ⟨account', haccount', house', hhouse', hp'⟩ := hp'
    cases hp
    cases hp'
    have hrow := Store.find?_row (q := fun r => r.1 == accountId) haccounts haccount' haccount
    have hid : account'.id = account.id := congrArg Prod.fst hrow
    have hcur : account'.currency = account.currency := congrArg (fun r => r.2.2.1) hrow
    rw [hcur] at hhouse'
    simp only [refundPosting, map_cons, map_nil, hid, Store.find_byName haccounts hhouse' hhouse]
  | confirmPendingDeposit id =>
    simp only [Op.posting, Option.bind_eq_bind, Option.bind_eq_some_iff] at hp hp'
    obtain ⟨deposit, hdeposit, _, _, user, huser, house, hhouse, hp⟩ := hp
    obtain ⟨deposit', hdeposit', _, _, user', huser', house', hhouse', hp'⟩ := hp'
    cases hp
    cases hp'
    have hrow := Store.find?_row (q := fun r => r.1 == id) hdeposits hdeposit' hdeposit
    simp only [Prod.mk.injEq] at hrow
    obtain ⟨hid, huid, hamount, hcur⟩ := hrow
    rw [huid, hcur] at huser'
    rw [hcur] at hhouse'
    simp only [depositPosting, map_cons, map_nil, hid, hamount,
      Store.find_byId haccounts huser' huser, Store.find_byName haccounts hhouse' hhouse]

end Frame

/-! ### The guard -/

/-- The operations as writers of the journal. -/
def guardedJournal (sha256 : String → String) (config : Config) :
    JournalSystem Store Op String where
  run op s := op.after sha256 config s
  keys op s := (op.inputs s).map (map sha256)
  journal := Store.hashes

variable {sha256 : String → String} {config : Config} {s : Store}

lemma keys_eq {op : Op} {p : Posting} (h : op.posting s = some p) :
    (guardedJournal sha256 config).keys op s = some (p.hashes sha256) := by
  simp only [guardedJournal, Op.inputs, h, Option.map_some, map_map]
  rfl

lemma rows_afterAll (ops : List Op) :
    ((guardedJournal sha256 config).after ops s).accountRows = s.accountRows ∧
      ((guardedJournal sha256 config).after ops s).depositRows = s.depositRows := by
  induction ops generalizing s with
  | nil => exact ⟨rfl, rfl⟩
  | cons op ops ih =>
    have hfirst := @rows_after sha256 config s op
    have hrest := @ih (op.after sha256 config s)
    exact ⟨hrest.1.trans hfirst.1, hrest.2.trans hfirst.2⟩

lemma lawful_guardedJournal : (guardedJournal sha256 config).Lawful where
  posts := by
    rintro op s ks ⟨hkeys, hnew, hnodup⟩
    show (op.after sha256 config s).hashes = s.hashes ++ ks
    cases opResult sha256 config op s with
    | none hposting _ _ _ => simp [guardedJournal, Op.inputs, hposting] at hkeys
    | suppressed p hposting hold _ =>
      rw [keys_eq hposting] at hkeys
      cases hkeys
      obtain ⟨h, hh, hin⟩ := hold
      exact absurd hin (hnew h hh)
    | posted p hposting _ _ hrun =>
      rw [keys_eq hposting] at hkeys
      cases hkeys
      rw [Op.after, hrun, hashes_finish, hashes_apply]
    | failed p hposting _ hdup _ =>
      rw [keys_eq hposting] at hkeys
      cases hkeys
      exact absurd hnodup hdup
  keeps := by
    intro op s hposts
    show (op.after sha256 config s).hashes = s.hashes
    cases opResult sha256 config op s with
    | none _ hafter _ _ => rw [hafter]
    | suppressed p _ _ hrun => rw [Op.after, hrun, hashes_finish]
    | posted p hposting hnew hnodup _ => exact absurd ⟨keys_eq hposting, hnew, hnodup⟩ (hposts _)
    | failed p _ _ _ hrun => rw [Op.after, hrun]
  stable := by
    intro op ops ops' s ks ks' hks hks'
    simp only [guardedJournal, Option.map_eq_some_iff] at hks hks'
    obtain ⟨is, his, rfl⟩ := hks
    obtain ⟨is', his', rfl⟩ := hks'
    have hrows := @rows_afterAll sha256 config s ops
    have hrows' := @rows_afterAll sha256 config s ops'
    rw [inputs_congr (hrows'.1.trans hrows.1.symm) (hrows'.2.trans hrows.2.symm) his his']

/-! ### Runs -/

/-- The store after a list of operations. -/
def afterAll (sha256 : String → String) (config : Config) (ops : List Op) (s : Store) : Store :=
  ops.foldl (fun s op => op.after sha256 config s) s

/-- How an operation returns. -/
def Op.returns (sha256 : String → String) (config : Config) (op : Op) (s : Store) :
    Except String Outcome :=
  ((op.body sha256 config).run Cmd.exec s).1

/-- Whenever an operation of the run is suppressed, the same operation was posted before. -/
def IdempotencyExact (sha256 : String → String) (config : Config) (ops : List Op) (s : Store) :
    Prop :=
  ∀ before op later, ops = before ++ op :: later →
    op.returns sha256 config (afterAll sha256 config before s) = .ok .suppressed →
    ∃ first rest, before = first ++ op :: rest ∧
      op.returns sha256 config (afterAll sha256 config first s) = .ok .posted

/-- An operation with different legs shares no leg with a later, different operation of the run. -/
def LegsApart (sha256 : String → String) (config : Config) (ops : List Op) (s : Store) : Prop :=
  ∀ before op between op' later is is', ops = before ++ op :: between ++ op' :: later →
    op.inputs (afterAll sha256 config before s) = some is → is.Nodup →
    op'.inputs (afterAll sha256 config (before ++ op :: between) s) = some is' →
    (∃ i ∈ is, i ∈ is') → op = op'

lemma returns_suppressed_iff {op : Op} : op.returns sha256 config s = .ok .suppressed ↔
    (guardedJournal sha256 config).Suppressed op s := by
  constructor
  · intro h
    unfold Op.returns at h
    cases opResult sha256 config op s with
    | none _ _ _ hsuppressed => exact absurd h hsuppressed
    | suppressed p hposting hold _ => exact ⟨_, keys_eq hposting, hold⟩
    | posted p _ _ _ hrun => rw [hrun] at h; cases h
    | failed p _ _ _ hrun => rw [hrun] at h; cases h
  · rintro ⟨ks, hkeys, hold⟩
    unfold Op.returns
    cases opResult sha256 config op s with
    | none hposting _ _ _ => simp [guardedJournal, Op.inputs, hposting] at hkeys
    | suppressed p _ _ hrun => rw [hrun]
    | posted p hposting hnew _ _ =>
      rw [keys_eq hposting] at hkeys
      cases hkeys
      obtain ⟨h, hh, hin⟩ := hold
      exact absurd hin (hnew h hh)
    | failed p hposting hnew _ _ =>
      rw [keys_eq hposting] at hkeys
      cases hkeys
      obtain ⟨h, hh, hin⟩ := hold
      exact absurd hin (hnew h hh)

lemma returns_posted_iff {op : Op} : op.returns sha256 config s = .ok .posted ↔
    ∃ ks, (guardedJournal sha256 config).Posts op s ks := by
  constructor
  · intro h
    unfold Op.returns at h
    cases opResult sha256 config op s with
    | none _ _ hposted _ => exact absurd h hposted
    | suppressed p _ _ hrun => rw [hrun] at h; cases h
    | posted p hposting hnew hnodup _ => exact ⟨_, keys_eq hposting, hnew, hnodup⟩
    | failed p _ _ _ hrun => rw [hrun] at h; cases h
  · rintro ⟨ks, hkeys, hnew, hnodup⟩
    unfold Op.returns
    cases opResult sha256 config op s with
    | none hposting _ _ _ => simp [guardedJournal, Op.inputs, hposting] at hkeys
    | suppressed p hposting hold _ =>
      rw [keys_eq hposting] at hkeys
      cases hkeys
      obtain ⟨h, hh, hin⟩ := hold
      exact absurd hin (hnew h hh)
    | posted p _ _ _ hrun => rw [hrun]
    | failed p hposting _ hdup _ =>
      rw [keys_eq hposting] at hkeys
      cases hkeys
      exact absurd hnodup hdup

lemma exact_iff_idempotencyExact {ops : List Op} :
    (guardedJournal sha256 config).Exact ops s ↔ IdempotencyExact sha256 config ops s := by
  constructor
  · rintro h before op later heq hsuppressed
    obtain ⟨first, rest, ks, rfl, hposts⟩ :=
      h before op later heq (returns_suppressed_iff.mp hsuppressed)
    exact ⟨first, rest, rfl, returns_posted_iff.mpr ⟨ks, hposts⟩⟩
  · rintro h before op later heq hsuppressed
    obtain ⟨first, rest, rfl, hposted⟩ :=
      h before op later heq (returns_suppressed_iff.mpr hsuppressed)
    obtain ⟨ks, hposts⟩ := returns_posted_iff.mp hposted
    exact ⟨first, rest, ks, rfl, hposts⟩

lemma apart_iff_legsApart (hsha : Function.Injective sha256) {ops : List Op} :
    (guardedJournal sha256 config).Apart ops s ↔ LegsApart sha256 config ops s := by
  constructor
  · rintro h before op between op' later is is' heq his hnodup his' ⟨i, hi, hi'⟩
    refine h before op between op' later (is.map sha256) (is'.map sha256) heq ?_
      (hnodup.map hsha) ?_ ⟨_, mem_map_of_mem hi, mem_map_of_mem hi'⟩
    · exact congrArg (Option.map (map sha256)) his
    · exact congrArg (Option.map (map sha256)) his'
  · rintro h before op between op' later ks ks' heq hks hnodup hks' ⟨k, hk, hk'⟩
    simp only [guardedJournal, Option.map_eq_some_iff] at hks hks'
    obtain ⟨is, his, rfl⟩ := hks
    obtain ⟨is', his', rfl⟩ := hks'
    obtain ⟨i, hi, rfl⟩ := mem_map.mp hk
    obtain ⟨i', hi', heq'⟩ := mem_map.mp hk'
    refine h before op between op' later is is' heq his (Nodup.of_map _ hnodup) his' ⟨i, hi, ?_⟩
    rwa [← hsha heq']

/-- From an empty journal, operations are suppressed only as repetitions exactly when no two
different operations of the run have a leg in common. -/
theorem idempotency_exact_iff {sha256 : String → String} (hsha : Function.Injective sha256)
    (config : Config) {s : Store} (hs : s.journals = []) (ops : List Op) :
    IdempotencyExact sha256 config ops s ↔ LegsApart sha256 config ops s := by
  rw [← exact_iff_idempotencyExact, ← apart_iff_legsApart hsha]
  refine lawful_guardedJournal.exact_iff ?_
  show s.journals.map (·.hash) = []
  rw [hs]
  rfl

/-! Two players of one table, and the reservations of their buy-ins. -/

def buyInAccounts : Store where
  accounts := [⟨"u1", "alice", "USD", 500, true⟩, ⟨"u2", "bob", "USD", 500, true⟩,
    ⟨"r1", "reserve", "USD", 0, true⟩]

/-- One buy-in, and its repetition. -/
theorem idempotency_exact_iff_repeated : IdempotencyExact id {}
    [.reserve "u1" 100 "t1" "USD", .reserve "u1" 100 "t1" "USD"] buyInAccounts := by
  refine (idempotency_exact_iff Function.injective_id {} rfl _).mpr ?_
  rintro before op between op' later - - heq - - - -
  have hall : ∀ o ∈ before ++ op :: between ++ op' :: later,
      o = Op.reserve "u1" 100 "t1" "USD" := by
    rw [← heq]
    simp
  exact (hall op (by simp)).trans (hall op' (by simp)).symm

/-- The second of two different players is not debited. -/
theorem second_reserve_suppressed :
    ¬ ∀ (sha256 : String → String) (config : Config) (s : Store) (ops : List Op),
      Function.Injective sha256 → s.journals = [] → IdempotencyExact sha256 config ops s := by
  intro h
  have hexact := h id {} buyInAccounts [.reserve "u1" 100 "t1" "USD", .reserve "u2" 100 "t1" "USD"]
    Function.injective_id rfl
  obtain ⟨first, rest, heq, -⟩ := hexact [.reserve "u1" 100 "t1" "USD"] _ [] rfl (by decide +kernel)
  have hmem : Op.reserve "u2" 100 "t1" "USD" ∈ [Op.reserve "u1" 100 "t1" "USD"] := by
    rw [heq]
    simp
  simp at hmem

end Pokerhub.Wallet
