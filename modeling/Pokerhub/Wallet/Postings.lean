import Mathlib.Algebra.BigOperators.Group.List.Basic
import Mathlib.Tactic.Ring
import Pokerhub.Wallet.Operations

/-!
# What a posting does

The sums over the journal by account and by reference, the totals of the balances by currency, and
what one turn of the loop of `record`, and then the whole transaction, does to them.
-/

namespace Pokerhub.Wallet

open List

namespace Store

/-- The sum of the journal entries of an account. -/
def journalTotal (s : Store) (accountId : String) : ℤ :=
  ((s.journals.filter (·.accountId = accountId)).map (·.amount)).sum

/-- The sum of the journal entries of a reference. -/
def refTotal (s : Store) (refType refId : String) : ℤ :=
  ((s.journals.filter fun j => j.refType = refType ∧ j.refId = refId).map (·.amount)).sum

/-- The sum of the balances of a currency. -/
def total (s : Store) (currency : String) : ℤ :=
  ((s.accounts.filter (·.currency = currency)).map (·.balance)).sum

/-- Every stored balance is the sum of the account's journal entries. -/
def Reconciled (s : Store) : Prop :=
  ∀ a ∈ s.accounts, a.balance = s.journalTotal a.id

instance (s : Store) : Decidable s.Reconciled :=
  inferInstanceAs (Decidable (∀ a ∈ s.accounts, a.balance = s.journalTotal a.id))

/-- The accounts have different ids, and different names within a currency. -/
structure Keyed (s : Store) : Prop where
  ids : (s.accounts.map (·.id)).Nodup
  names : (s.accounts.map fun a => (a.name, a.currency)).Nodup

/-- An account that is none of the system accounts. -/
def IsUser (s : Store) (id : String) : Prop :=
  ∀ a ∈ s.accounts, a.id = id → a.name ∉ ["reserve", "house", "rake", "prize"]

instance (s : Store) (id : String) : Decidable (s.IsUser id) :=
  inferInstanceAs (Decidable (∀ a ∈ s.accounts, a.id = id →
    a.name ∉ ["reserve", "house", "rake", "prize"]))

/-- The rows of the accounts without their balances. -/
def accountRows (s : Store) : List (String × String × String × Bool) :=
  s.accounts.map fun a => (a.id, a.name, a.currency, a.kycVerified)

/-- The rows of the deposits without their states. -/
def depositRows (s : Store) : List (String × String × ℤ × String) :=
  s.pendingDeposits.map fun d => (d.id, d.userId, d.amount, d.currency)

/-- The hashes of the journal. -/
def hashes (s : Store) : List String :=
  s.journals.map (·.hash)

/-- The accounts of `rows` are different ones, with the balances that are stored. -/
def Loaded (s : Store) (rows : List (Movement × String)) : Prop :=
  (∀ row ∈ rows, row.1.account ∈ s.accounts) ∧ (rows.map (·.1.account.id)).Nodup

instance (s : Store) (rows : List (Movement × String)) : Decidable (s.Loaded rows) :=
  inferInstanceAs (Decidable ((∀ row ∈ rows, row.1.account ∈ s.accounts) ∧
    (rows.map (·.1.account.id)).Nodup))

variable {refType refId : String} {providerTxnId : Option String} {s s' : Store}
  {row : Movement × String} {rows : List (Movement × String)}

lemma ids_eq (h : s'.accountRows = s.accountRows) :
    s'.accounts.map (·.id) = s.accounts.map (·.id) := by
  simpa [accountRows, Function.comp_def] using congrArg (map Prod.fst) h

lemma names_eq (h : s'.accountRows = s.accountRows) :
    (s'.accounts.map fun a => (a.name, a.currency)) =
      s.accounts.map fun a => (a.name, a.currency) := by
  simpa [accountRows, Function.comp_def] using
    congrArg (map fun x : String × String × String × Bool => (x.2.1, x.2.2.1)) h

lemma Keyed.congr (hs : s.Keyed) (h : s'.accountRows = s.accountRows) : s'.Keyed where
  ids := by rw [ids_eq h]; exact hs.ids
  names := by rw [names_eq h]; exact hs.names

/-- An id is that of one account. -/
lemma Keyed.eq_of_id (hs : s.Keyed) {a b : Account} (ha : a ∈ s.accounts) (hb : b ∈ s.accounts)
    (h : a.id = b.id) : a = b :=
  inj_on_of_nodup_map hs.ids ha hb h

lemma isUser_congr (h : s'.accountRows = s.accountRows) {id : String} (hid : s.IsUser id) :
    s'.IsUser id := by
  intro a ha hai
  -- the row of the account is that of one of `s`
  have hrow : (a.id, a.name, a.currency, a.kycVerified) ∈ s.accountRows := by
    rw [← h]
    exact mem_map.mpr ⟨a, ha, rfl⟩
  obtain ⟨b, hb, heq⟩ := mem_map.mp hrow
  simp only [Prod.mk.injEq] at heq
  rw [← heq.2.1]
  exact hid b hb (heq.1.trans hai)

/-- What is found in a table depends on the columns that do not change. -/
lemma find?_row {A B : Type} {xs ys : List A} {row : A → B} (h : xs.map row = ys.map row)
    {q : B → Bool} {x y : A} (hx : xs.find? (q ∘ row) = some x) (hy : ys.find? (q ∘ row) = some y) :
    row x = row y := by
  have heq : (xs.map row).find? q = (ys.map row).find? q := by rw [h]
  rw [find?_map, find?_map, hx, hy] at heq
  exact Option.some.inj heq

lemma find_byId (h : s'.accountRows = s.accountRows) {id currency : String} {a b : Account}
    (ha : s'.accounts.find? (byId id currency) = some a)
    (hb : s.accounts.find? (byId id currency) = some b) : a.id = b.id := by
  have := find?_row (q := fun r => r.1 == id && r.2.2.1 == currency) h ha hb
  exact congrArg Prod.fst this

lemma find_byName (h : s'.accountRows = s.accountRows) {name currency : String} {a b : Account}
    (ha : s'.accounts.find? (byName name currency) = some a)
    (hb : s.accounts.find? (byName name currency) = some b) : a.id = b.id := by
  have := find?_row (q := fun r => r.2.1 == name && r.2.2.1 == currency) h ha hb
  exact congrArg Prod.fst this

lemma IsUser.ne {x y : Account} (hx : s.IsUser x.id) (hy : y ∈ s.accounts)
    (hname : y.name ∈ ["reserve", "house", "rake", "prize"]) : x.id ≠ y.id :=
  fun hid => hx y hy hid.symm hname

@[simp] lemma accountRows_insert :
    (insert refType refId providerTxnId s row).accountRows = s.accountRows := by
  simp only [accountRows, insert, save, map_map]
  refine map_congr_left fun a _ => ?_
  simp only [Function.comp]
  split <;> rfl

@[simp] lemma accountRows_foldl_insert :
    (rows.foldl (insert refType refId providerTxnId) s).accountRows = s.accountRows := by
  induction rows generalizing s with
  | nil => rfl
  | cons row rows ih => rw [foldl_cons, ih, accountRows_insert]

@[simp] lemma depositRows_saveDeposit (deposit : PendingDeposit) :
    (s.saveDeposit deposit).depositRows = s.depositRows := by
  simp only [depositRows, saveDeposit, map_map]
  refine map_congr_left fun d _ => ?_
  simp only [Function.comp]
  split <;> rfl

/-! ### One entry -/

/-- An account that was loaded with its stored balance gets the amount of its entry. -/
lemma insert_accounts (hs : s.Keyed) (h : row.1.account ∈ s.accounts) :
    (insert refType refId providerTxnId s row).accounts = s.accounts.map fun a =>
      if a.id = row.1.account.id then { a with balance := a.balance + row.1.amount } else a := by
  refine map_congr_left fun a ha => ?_
  by_cases hid : a.id = row.1.account.id
  · rw [if_pos hid, if_pos hid, hs.eq_of_id ha h hid]
  · rw [if_neg hid, if_neg hid]

/-- The other accounts are left alone. -/
lemma mem_insert_accounts {a : Account} (ha : a ∈ s.accounts) (hid : a.id ≠ row.1.account.id) :
    a ∈ (insert refType refId providerTxnId s row).accounts := by
  refine mem_map.mpr ⟨a, ha, ?_⟩
  rw [if_neg hid]

lemma journalTotal_insert (id : String) :
    (insert refType refId providerTxnId s row).journalTotal id =
      s.journalTotal id + if row.1.account.id = id then row.1.amount else 0 := by
  simp only [journalTotal, insert_journals, filter_append, map_append, sum_append]
  by_cases hid : row.1.account.id = id <;> simp [hid]

lemma refTotal_insert (refType' refId' : String) :
    (insert refType refId providerTxnId s row).refTotal refType' refId' =
      s.refTotal refType' refId' +
        if refType = refType' ∧ refId = refId' then row.1.amount else 0 := by
  simp only [refTotal, insert_journals, filter_append, map_append, sum_append]
  by_cases href : refType = refType' ∧ refId = refId' <;> simp [href]

lemma Reconciled.insert (h : s.Reconciled) (hs : s.Keyed) (hrow : row.1.account ∈ s.accounts) :
    (insert refType refId providerTxnId s row).Reconciled := by
  intro a ha
  rw [insert_accounts hs hrow] at ha
  obtain ⟨b, hb, rfl⟩ := mem_map.mp ha
  rw [journalTotal_insert]
  by_cases hid : b.id = row.1.account.id
  · rw [if_pos hid]
    dsimp only
    rw [if_pos hid.symm, h b hb]
  · rw [if_neg hid, if_neg fun heq => hid heq.symm, add_zero, h b hb]

/-- Adding to one account adds to the total of its currency. -/
private lemma sum_credit {accounts : List Account} {x : Account} {n : ℤ} {currency : String}
    (hids : (accounts.map (·.id)).Nodup) (hx : x ∈ accounts) :
    (((accounts.map fun a => if a.id = x.id then { a with balance := a.balance + n } else a).filter
      (·.currency = currency)).map (·.balance)).sum =
    ((accounts.filter (·.currency = currency)).map (·.balance)).sum +
      if x.currency = currency then n else 0 := by
  induction accounts with
  | nil => cases hx
  | cons a accounts ih =>
    rw [map_cons, nodup_cons] at hids
    rcases mem_cons.mp hx with rfl | hx
    · -- the accounts behind it have other ids
      have hrest : (accounts.map fun a =>
          if a.id = x.id then { a with balance := a.balance + n } else a) = accounts := by
        refine (map_congr_left fun a ha => ?_).trans (map_id accounts)
        rw [if_neg fun hid => hids.1 (mem_map.mpr ⟨a, ha, hid⟩)]
        rfl
      rw [map_cons, hrest, if_pos rfl]
      by_cases hcur : x.currency = currency
      · simp only [hcur, decide_true, filter_cons_of_pos, map_cons, sum_cons, if_true]
        ring
      · simp [hcur]
    · have hne : a.id ≠ x.id := fun hid => hids.1 (mem_map.mpr ⟨x, hx, hid.symm⟩)
      rw [map_cons, if_neg hne]
      by_cases hcur : a.currency = currency
      · simp only [hcur, decide_true, filter_cons_of_pos, map_cons, sum_cons]
        rw [ih hids.2 hx]
        ring
      · simp only [hcur, decide_false, Bool.false_eq_true, not_false_eq_true, filter_cons_of_neg]
        exact ih hids.2 hx

lemma total_insert (hs : s.Keyed) (hrow : row.1.account ∈ s.accounts) (currency : String) :
    (insert refType refId providerTxnId s row).total currency =
      s.total currency + if row.1.account.currency = currency then row.1.amount else 0 := by
  unfold total
  rw [insert_accounts hs hrow]
  exact sum_credit hs.ids hrow

/-! ### A transaction -/

lemma Loaded.insert (h : s.Loaded (row :: rows)) :
    (insert refType refId providerTxnId s row).Loaded rows := by
  obtain ⟨hmem, hnodup⟩ := h
  rw [map_cons, nodup_cons] at hnodup
  refine ⟨fun row' hrow' => ?_, hnodup.2⟩
  refine mem_insert_accounts (hmem row' (mem_cons_of_mem row hrow')) fun hid => ?_
  exact hnodup.1 (mem_map.mpr ⟨row', hrow', hid⟩)

lemma Reconciled.foldl_insert (h : s.Reconciled) (hs : s.Keyed) (hrows : s.Loaded rows) :
    (rows.foldl (Store.insert refType refId providerTxnId) s).Reconciled := by
  induction rows generalizing s with
  | nil => exact h
  | cons row rows ih =>
    have hrow := hrows.1 row mem_cons_self
    exact ih (h.insert hs hrow) (hs.congr accountRows_insert) hrows.insert

lemma refTotal_foldl_insert (refType' refId' : String) :
    (rows.foldl (insert refType refId providerTxnId) s).refTotal refType' refId' =
      s.refTotal refType' refId' +
        if refType = refType' ∧ refId = refId' then (rows.map (·.1.amount)).sum else 0 := by
  induction rows generalizing s with
  | nil => simp
  | cons row rows ih =>
    rw [foldl_cons, ih, refTotal_insert, map_cons, sum_cons]
    split <;> ring

/-- The legs of a balanced transaction within one currency leave all totals alone. -/
lemma total_foldl_insert (hs : s.Keyed) (hrows : s.Loaded rows) {cur : String}
    (hcur : ∀ row ∈ rows, row.1.account.currency = cur) (currency : String) :
    (rows.foldl (insert refType refId providerTxnId) s).total currency =
      s.total currency + if cur = currency then (rows.map (·.1.amount)).sum else 0 := by
  induction rows generalizing s with
  | nil => simp
  | cons row rows ih =>
    have hrow := hrows.1 row mem_cons_self
    rw [foldl_cons, ih (hs.congr accountRows_insert) hrows.insert
      fun row' h => hcur row' (mem_cons_of_mem row h), total_insert hs hrow,
      hcur row mem_cons_self, map_cons, sum_cons]
    split <;> ring

end Store

end Pokerhub.Wallet
