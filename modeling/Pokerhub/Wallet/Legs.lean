import Std.Data.String.ToInt
import Pokerhub.Wallet.Escrow

/-!
# The legs of an operation

The accounts and amounts of a posting, and when the hashes of two legs are the same: the input of
a hash tells the kind of the operation, and under one kind and one reference the account and the
amount.
-/

namespace Pokerhub.Wallet

open List Program

/-! ### The input of a hash -/

lemma colon_notMem_repr (n : ℕ) : ':' ∉ n.repr.toList := by
  intro h
  have hdigits : ':' ∈ Nat.toDigits 10 n := by simpa [Nat.repr] using h
  have hdigit := Nat.isDigit_of_mem_toDigits (by decide) (by decide) hdigits
  exact absurd hdigit (by decide)

lemma colon_notMem_toString (n : ℤ) : ':' ∉ (toString n).toList := by
  rw [Int.toString_eq_repr]
  cases n with
  | ofNat n => exact colon_notMem_repr n
  | negSucc n =>
    show ':' ∉ ("-" ++ (n + 1).repr).toList
    rw [String.toList_append, mem_append]
    rintro (h | h)
    · exact absurd h (by decide)
    · exact colon_notMem_repr _ h

/-- A list is cut at the first separator in one way. -/
lemma append_separator_inj {sep : Char} {xs xs' ys ys' : List Char} (hxs : sep ∉ xs)
    (hxs' : sep ∉ xs') (h : xs ++ sep :: ys = xs' ++ sep :: ys') : xs = xs' ∧ ys = ys' := by
  have htake : ∀ {xs ys : List Char}, sep ∉ xs → (xs ++ sep :: ys).takeWhile (· != sep) = xs := by
    intro xs ys hsep
    rw [takeWhile_append_of_pos]
    · simp
    · intro c hc
      rw [bne_iff_ne]
      rintro rfl
      exact hsep hc
  have heq := congrArg (takeWhile (· != sep)) h
  rw [htake hxs, htake hxs'] at heq
  subst heq
  rw [append_cancel_left_eq, cons.injEq] at h
  exact ⟨rfl, h.2⟩

lemma toList_hashInput (refType refId accountId : String) (amount : ℤ) :
    (hashInput refType refId accountId amount).toList = refType.toList ++ ':' ::
      (refId.toList ++ ':' :: (accountId.toList ++ ':' :: (toString amount).toList)) := by
  simp [hashInput, toString]

/-- The last colon is the one before the amount. -/
lemma hashInput_inj {refType refId accountId accountId' : String} {amount amount' : ℤ}
    (h : hashInput refType refId accountId amount = hashInput refType refId accountId' amount') :
    accountId = accountId' ∧ amount = amount' := by
  have hlist := congrArg String.toList h
  rw [toList_hashInput, toList_hashInput, append_cancel_left_eq, cons.injEq, append_cancel_left_eq,
    cons.injEq] at hlist
  have hrev := congrArg reverse hlist.2.2
  simp only [reverse_append, reverse_cons, append_assoc, singleton_append] at hrev
  have hcolon : ∀ n : ℤ, ':' ∉ (toString n).toList.reverse :=
    fun n hin => colon_notMem_toString n (mem_reverse.mp hin)
  obtain ⟨hamount, haccount⟩ := append_separator_inj (hcolon amount) (hcolon amount') hrev
  rw [reverse_inj, String.toList_inj] at hamount haccount
  exact ⟨haccount, Int.repr_injective hamount⟩

/-- The first colon is the one behind the kind. -/
lemma refType_eq_of_hashInput {refType refType' refId refId' accountId accountId' : String}
    {amount amount' : ℤ} (hcolon : ':' ∉ refType.toList) (hcolon' : ':' ∉ refType'.toList)
    (h : hashInput refType refId accountId amount = hashInput refType' refId' accountId' amount') :
    refType = refType' := by
  have hlist := congrArg String.toList h
  rw [toList_hashInput, toList_hashInput] at hlist
  exact String.toList_inj.mp (append_separator_inj hcolon hcolon' hlist).1

/-! ### Legs -/

/-- The accounts and the amounts of a posting. -/
def Posting.legs (p : Posting) : List (String × ℤ) :=
  p.entries.map fun e => (e.account.id, e.amount)

/-- The journal entry of a leg. -/
def legEntry (sha256 : String → String) (refType refId currency : String) (leg : String × ℤ) :
    JournalEntry :=
  { accountId := leg.1, amount := leg.2, currency := currency, refType := refType, refId := refId
    hash := buildHash sha256 refType refId leg.1 leg.2 }

section Legs

variable {sha256 : String → String} {config : Config} {s s' : Store}

lemma Posting.hashes_eq (p : Posting) : p.hashes sha256 =
    p.legs.map fun leg => buildHash sha256 p.refType p.refId leg.1 leg.2 := by
  simp [Posting.hashes, legs, Function.comp_def]

/-- Legs on different accounts have different hashes. -/
lemma Posting.nodup_hashes (hsha : Function.Injective sha256) {p : Posting}
    (h : (p.legs.map (·.1)).Nodup) : (p.hashes sha256).Nodup := by
  rw [p.hashes_eq]
  refine Nodup.map_on ?_ (Nodup.of_map _ h)
  intro leg hleg leg' hleg' heq
  exact inj_on_of_nodup_map h hleg hleg' (hashInput_inj (hsha heq)).1

lemma journals_apply_legs {p : Posting} {currency : String}
    (h : ∀ e ∈ p.entries, e.account.currency = currency) : (p.apply sha256 config s).journals =
      s.journals ++ p.legs.map (legEntry sha256 p.refType p.refId currency) := by
  rw [journals_apply, Posting.legs, map_map]
  congr 1
  refine map_congr_left fun e he => ?_
  simp only [Function.comp_apply, legEntry, h e he]

/-- An operation that ends with `record` and whose legs are new. -/
lemma run_op_of_new {op : Op} {p : Posting} (hposting : op.posting s = some p)
    (hfinish : ∀ s, op.finish s = s) (hnew : ∀ h ∈ p.hashes sha256, h ∉ s.hashes)
    (hnodup : (p.hashes sha256).Nodup) :
    (op.body sha256 config).run Cmd.exec s = (.ok .posted, p.apply sha256 config s) := by
  have hold : ¬ ∃ h ∈ p.hashes sha256, h ∈ s.hashes := fun ⟨h, hh, hin⟩ => hnew h hh hin
  rw [run_op_of_posting hposting, post, if_neg hold, if_pos hnodup]
  dsimp only
  rw [hfinish]

/-- An operation that ends with `record` and one of whose legs is in the journal. -/
lemma run_op_of_old {op : Op} {p : Posting} (hposting : op.posting s = some p)
    (hfinish : ∀ s, op.finish s = s) (hold : ∃ h ∈ p.hashes sha256, h ∈ s.hashes) :
    (op.body sha256 config).run Cmd.exec s = (.ok .suppressed, s) := by
  rw [run_op_of_posting hposting, post, if_pos hold]
  dsimp only
  rw [hfinish]

end Legs

/-! ### Transfers between a user and the reserve -/

/-- The account of the user and the account of the reserve are found. -/
def Store.Finds (s : Store) (currency userId reserveId : String) : Prop :=
  ∃ user reserve, s.accounts.find? (byId userId currency) = some user ∧
    s.accounts.find? (byName "reserve" currency) = some reserve ∧ reserve.id = reserveId

/-- A user is not the reserve. -/
lemma ne_of_finds {s : Store} {v currency userId reserveId : String} (huser : s.IsUser v)
    (hfinds : s.Finds currency userId reserveId) : v ≠ reserveId := by
  obtain ⟨user, reserve, -, hreserve, rfl⟩ := hfinds
  intro heq
  refine huser reserve (mem_of_find?_eq_some hreserve) heq.symm ?_
  rw [(byName_iff.mp (find?_some hreserve)).1]
  exact mem_cons_self

inductive Transfer where
  | reserve | rollback
  deriving DecidableEq, Repr

namespace Transfer

def refType : Transfer → String
  | reserve => "reserve"
  | rollback => "rollback"

def op : Transfer → (accountId : String) → (amount : ℤ) → (refId currency : String) → Op
  | reserve => .reserve
  | rollback => .rollback

def legs (amount : ℤ) (userId reserveId : String) : Transfer → List (String × ℤ)
  | reserve => [(userId, -amount), (reserveId, amount)]
  | rollback => [(reserveId, -amount), (userId, amount)]

variable {sha256 : String → String} {config : Config} {s s' : Store} {dir : Transfer}
  {userId reserveId refId currency : String} {amount : ℤ}

lemma finish_op (s : Store) : (dir.op userId amount refId currency).finish s = s := by
  cases dir <;> rfl

/-- What a transfer passes to `record`. -/
lemma posting_op (dir : Transfer) (h : s.Finds currency userId reserveId) :
    ∃ p, (dir.op userId amount refId currency).posting s = some p ∧ p.refType = dir.refType ∧
      p.refId = refId ∧ p.legs = dir.legs amount userId reserveId ∧
      (∀ e ∈ p.entries, e.account.currency = currency) ∧
      ∀ e ∈ p.entries, e.account ∈ s.accounts := by
  obtain ⟨user, reserve, huser, hreserve, rfl⟩ := h
  obtain ⟨hid, hcur⟩ := byId_iff.mp (find?_some huser)
  obtain ⟨-, hcur'⟩ := byName_iff.mp (find?_some hreserve)
  have hmem := mem_of_find?_eq_some huser
  have hmem' := mem_of_find?_eq_some hreserve
  cases dir with
  | reserve =>
    refine ⟨reservePosting refId amount user reserve, ?_, rfl, rfl, ?_, ?_, ?_⟩
    · simp [op, Op.posting, huser, hreserve]
    · simp [Posting.legs, reservePosting, legs, hid]
    · simp [reservePosting, hcur, hcur']
    · simp [reservePosting, hmem, hmem']
  | rollback =>
    refine ⟨rollbackPosting refId amount reserve user, ?_, rfl, rfl, ?_, ?_, ?_⟩
    · simp [op, Op.posting, huser, hreserve]
    · simp [Posting.legs, rollbackPosting, legs, hid]
    · simp [rollbackPosting, hcur, hcur']
    · simp [rollbackPosting, hmem, hmem']

/-- A transfer whose legs are new is posted. -/
lemma run_of_new (config : Config) (hsha : Function.Injective sha256)
    (h : s.Finds currency userId reserveId) (hne : userId ≠ reserveId)
    (hnew : ∀ leg ∈ dir.legs amount userId reserveId,
      buildHash sha256 dir.refType refId leg.1 leg.2 ∉ s.hashes) :
    ∃ s', ((dir.op userId amount refId currency).body sha256 config).run Cmd.exec s =
        (.ok .posted, s') ∧ s'.accountRows = s.accountRows ∧
      s'.journals = s.journals ++
        (dir.legs amount userId reserveId).map (legEntry sha256 dir.refType refId currency) := by
  obtain ⟨p, hposting, hkind, href, hlegs, hcur, -⟩ := posting_op dir h
  refine ⟨p.apply sha256 config s, run_op_of_new hposting finish_op ?_ ?_, accountRows_apply p, ?_⟩
  · rw [p.hashes_eq, hkind, href, hlegs]
    intro h hh
    obtain ⟨leg, hleg, rfl⟩ := mem_map.mp hh
    exact hnew leg hleg
  · refine Posting.nodup_hashes hsha ?_
    rw [hlegs]
    cases dir <;> simp [legs, hne, hne.symm]
  · rw [journals_apply_legs hcur, hkind, href, hlegs]

/-- A transfer that has a leg in the journal is suppressed. -/
lemma run_of_old (h : s.Finds currency userId reserveId)
    (hold : ∃ leg ∈ dir.legs amount userId reserveId,
      buildHash sha256 dir.refType refId leg.1 leg.2 ∈ s.hashes) :
    ((dir.op userId amount refId currency).body sha256 config).run Cmd.exec s =
      (.ok .suppressed, s) := by
  obtain ⟨p, hposting, hkind, href, hlegs, -, -⟩ := posting_op dir h
  refine run_op_of_old hposting finish_op ?_
  rw [p.hashes_eq, hkind, href, hlegs]
  obtain ⟨leg, hleg, hin⟩ := hold
  exact ⟨_, mem_map_of_mem hleg, hin⟩

/-- Without the accounts a transfer fails. -/
lemma run_of_missing (h : ∀ reserveId, ¬ s.Finds currency userId reserveId) :
    ((dir.op userId amount refId currency).body sha256 config).run Cmd.exec s =
      (.error "EntityNotFoundError", s) := by
  cases huser : s.accounts.find? (byId userId currency) with
  | none =>
    cases dir with
    | reserve => simp [op, Op.body, Wallet.reserve, run_findOneByOrFail, huser]
    | rollback =>
      simp only [op, Op.body, Wallet.rollback, run_bind, run_findOneByOrFail]
      cases hreserve : s.accounts.find? (byName "reserve" currency) with
      | none => rfl
      | some reserve => simp [huser]
  | some user =>
    cases hreserve : s.accounts.find? (byName "reserve" currency) with
    | none =>
      cases dir with
      | reserve => simp [op, Op.body, Wallet.reserve, run_findOneByOrFail, huser, hreserve]
      | rollback => simp [op, Op.body, Wallet.rollback, run_findOneByOrFail, hreserve]
    | some reserve => exact absurd ⟨user, reserve, huser, hreserve, rfl⟩ (h reserve.id)

end Transfer

/-- A row that is found in one store is found in the other. -/
lemma Store.exists_find {s s' : Store} (hrows : s'.accountRows = s.accountRows)
    {q : String × String × String × Bool → Bool} {a : Account}
    (ha : s.accounts.find? (q ∘ fun a => (a.id, a.name, a.currency, a.kycVerified)) = some a) :
    ∃ b, s'.accounts.find? (q ∘ fun a => (a.id, a.name, a.currency, a.kycVerified)) = some b := by
  have heq : s'.accountRows.find? q = s.accountRows.find? q := by rw [hrows]
  rw [accountRows, accountRows, find?_map, find?_map, ha] at heq
  obtain ⟨b, hb, -⟩ := Option.map_eq_some_iff.mp heq
  exact ⟨b, hb⟩

/-- Which accounts are found does not depend on the balances. -/
lemma Store.Finds.congr {s s' : Store} {currency userId reserveId : String}
    (hrows : s'.accountRows = s.accountRows) (h : s.Finds currency userId reserveId) :
    s'.Finds currency userId reserveId := by
  obtain ⟨user, reserve, huser, hreserve, rfl⟩ := h
  obtain ⟨user', huser'⟩ := @exists_find s s' hrows
    (fun r => r.1 == userId && r.2.2.1 == currency) user huser
  obtain ⟨reserve', hreserve'⟩ := @exists_find s s' hrows
    (fun r => r.2.1 == "reserve" && r.2.2.1 == currency) reserve hreserve
  exact ⟨user', reserve', huser', hreserve', find_byName hrows hreserve' hreserve⟩

lemma Store.isSome_find_byName {s s' : Store} {name currency : String}
    (hrows : s'.accountRows = s.accountRows)
    (h : (s.accounts.find? (byName name currency)).isSome) :
    (s'.accounts.find? (byName name currency)).isSome := by
  obtain ⟨a, ha⟩ := Option.isSome_iff_exists.mp h
  rw [Option.isSome_iff_exists]
  exact @exists_find s s' hrows (fun r => r.2.1 == name && r.2.2.1 == currency) a ha

end Pokerhub.Wallet
