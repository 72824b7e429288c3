import Mathlib.Algebra.Order.BigOperators.Group.List
import Pokerhub.Game.Settlement
import Pokerhub.Wallet.Legs

/-!
# The ledger of a hand

What `GameEngine` does with its wallet: `create` reserves the stacks, and `settle` calls
`writeHandLedger` of `hand-ledger.ts`, pays the refunds and commits the losses. The transaction
around `writeHandLedger` shows only when a statement fails, and then the settlement does not
complete.
-/

namespace Pokerhub.Wallet

open List Program

/-! ### The operations of the engine -/

section Hand

variable (sha256 : String → String) (config : Config)

/-- The loop of `reserveStacks`. -/
def reserveStacks (handId currency : String) (initialStacks : List (String × ℤ)) : WalletM Unit :=
  Program.forEach (fun player : String × ℤ => do
    let _ ← reserve sha256 config player.1 player.2 handId currency) initialStacks

/-- `${handId}#${street}#${idx}` -/
def settlementKey (handId street : String) (idx : ℕ) : String :=
  s!"{handId}#{street}#{idx}"

/-- The loop of `writeHandLedger`; it returns the total of the losses. -/
def reserveLosses (key currency : String) : List SettlementEntry → (total : ℤ) → WalletM ℤ
  | [], total => return total
  | entry :: settlements, total =>
    if entry.delta < 0 then do
      let amount := -entry.delta
      let _ ← reserve sha256 config entry.playerId amount key currency (some key)
      reserveLosses key currency settlements (total + amount)
    else reserveLosses key currency settlements total

def writeHandLedger (handId street : String) (idx : ℕ) (settlements : List SettlementEntry)
    (currency : String) : WalletM Unit := do
  let key := settlementKey handId street idx
  let total ← reserveLosses sha256 config key currency settlements 0
  if total > 0 then do
    let _ ← commit sha256 config key total 0 currency (some key)
  else return ()

/-- The loop of `settle`; it returns the next index and the total of the losses. -/
def refundStacks (handId street currency : String) (initialStacks : List (String × ℤ)) :
    List SettlementEntry → (idx : ℕ) → (totalLoss : ℤ) → WalletM (ℕ × ℤ)
  | [], idx, totalLoss => return (idx, totalLoss)
  | entry :: entries, idx, totalLoss => do
    let initial := (initialStacks.lookup entry.playerId).getD 0
    let loss := if entry.delta < 0 then -entry.delta else 0
    let refund := initial - loss
    if refund > 0 then do
      let key := settlementKey handId street idx
      run (.side "settlementSvc.reserve")
      let _ ← rollback sha256 config entry.playerId refund handId currency (some key)
      refundStacks handId street currency initialStacks entries (idx + 1) (totalLoss + loss)
    else refundStacks handId street currency initialStacks entries idx (totalLoss + loss)

/-- `settle` from the entries that `recordDeltas` has returned to the final commit. -/
def settleHand (handId street currency : String) (initialStacks : List (String × ℤ))
    (entries : List SettlementEntry) : WalletM Unit := do
  writeHandLedger sha256 config handId street 0 entries currency
  let (idx, totalLoss) ← refundStacks sha256 config handId street currency initialStacks entries 0 0
  if totalLoss > 0 then do
    let key := settlementKey handId street idx
    run (.side "settlementSvc.reserve")
    let _ ← commit sha256 config handId totalLoss 0 currency (some key)
  else return ()

/-- The wallet from the creation of a hand to the end of its settlement. -/
def playHand (handId street currency : String) (initialStacks : List (String × ℤ))
    (entries : List SettlementEntry) : WalletM Unit := do
  reserveStacks sha256 config handId currency initialStacks
  settleHand sha256 config handId street currency initialStacks entries

end Hand

/-! ### Balances -/

namespace Store

/-- The balance of an account. -/
def balance (s : Store) (id : String) : ℤ :=
  ((s.accounts.find? (·.id == id)).map (·.balance)).getD 0

end Store

/-- What legs add to the balance of an account. -/
def legSum (legs : List (String × ℤ)) (id : String) : ℤ :=
  (legs.map fun leg => if leg.1 = id then leg.2 else 0).sum

section Balance

variable {sha256 : String → String} {config : Config} {s : Store} {refType refId : String}
  {providerTxnId : Option String} {row : Movement × String} {rows : List (Movement × String)}

lemma balance_insert (hs : s.Keyed) (hrow : row.1.account ∈ s.accounts) (id : String) :
    (Store.insert refType refId providerTxnId s row).balance id =
      s.balance id + if row.1.account.id = id then row.1.amount else 0 := by
  have hid : ((fun a : Account => a.id == id) ∘ fun a : Account =>
      if a.id = row.1.account.id then { a with balance := a.balance + row.1.amount } else a) =
        fun a => a.id == id := by
    funext a
    simp only [Function.comp_apply]
    split <;> rfl
  rw [Store.balance, Store.insert_accounts hs hrow, find?_map, hid, Store.balance]
  cases hfind : s.accounts.find? (·.id == id) with
  | none =>
    have hne : row.1.account.id ≠ id := by
      intro heq
      have := find?_eq_none.mp hfind row.1.account hrow
      simp [heq] at this
    simp [hne]
  | some a =>
    have haid : a.id = id := by simpa using find?_some hfind
    by_cases heq : row.1.account.id = id
    · simp [heq, haid]
    · have hne : a.id ≠ row.1.account.id := fun h => heq (h.symm.trans haid)
      simp [heq, hne]

lemma balance_foldl_insert (hs : s.Keyed) (hrows : s.Loaded rows) (id : String) :
    (rows.foldl (Store.insert refType refId providerTxnId) s).balance id =
      s.balance id + legSum (rows.map fun row => (row.1.account.id, row.1.amount)) id := by
  induction rows generalizing s with
  | nil => simp [legSum]
  | cons row rows ih =>
    rw [foldl_cons, ih (hs.congr Store.accountRows_insert) hrows.insert,
      balance_insert hs (hrows.1 row mem_cons_self)]
    simp [legSum, add_assoc]

/-- A posting adds its legs to the balances. -/
lemma balance_apply (hs : s.Keyed) {p : Posting} (hmem : ∀ e ∈ p.entries, e.account ∈ s.accounts)
    (hnodup : (p.legs.map (·.1)).Nodup) (id : String) :
    (p.apply sha256 config s).balance id = s.balance id + legSum p.legs id := by
  have hloaded : s.Loaded (p.rows sha256) := by
    refine ⟨fun row hrow => ?_, ?_⟩
    · obtain ⟨e, he, rfl⟩ := mem_map.mp hrow
      exact hmem e he
    · simpa [Posting.rows, Posting.legs, Function.comp_def] using hnodup
  have hlegs : (p.rows sha256).map (fun row => (row.1.account.id, row.1.amount)) = p.legs := by
    simp [Posting.rows, Posting.legs, Function.comp_def]
  rw [← hlegs]
  exact balance_foldl_insert hs hloaded id

end Balance

/-! ### One operation -/

/-- What an operation of a kind and a reference with these legs did. -/
inductive Did (sha256 : String → String) (refType refId : String) (legs : List (String × ℤ))
    (s : Store) : Store → Prop
  | suppressed (hold : ∃ leg ∈ legs, buildHash sha256 refType refId leg.1 leg.2 ∈ s.hashes) :
    Did sha256 refType refId legs s s
  | posted (s' : Store)
      (hnew : ∀ leg ∈ legs, buildHash sha256 refType refId leg.1 leg.2 ∉ s.hashes)
      (hrows : s'.accountRows = s.accountRows)
      (hhashes : s'.hashes = s.hashes ++ legs.map fun leg =>
        buildHash sha256 refType refId leg.1 leg.2)
      (hbalance : ∀ id, s'.balance id = s.balance id + legSum legs id) :
    Did sha256 refType refId legs s s'

/-- No leg of a kind and a reference is in the journal. -/
def Unused (sha256 : String → String) (refType refId : String) (s : Store) : Prop :=
  ∀ accountId amount, buildHash sha256 refType refId accountId amount ∉ s.hashes

/-- The journal has grown by legs of one kind and one reference. -/
structure Grew (sha256 : String → String) (refType refId : String) (s s' : Store) : Prop where
  rows : s'.accountRows = s.accountRows
  subset : ∀ x ∈ s.hashes, x ∈ s'.hashes
  added : ∀ x ∈ s'.hashes, x ∈ s.hashes ∨ ∃ a n, x = buildHash sha256 refType refId a n

/-- The accounts of a hand. -/
structure HandAccounts (currency reserveId : String) (playerIds : List String) (s : Store) :
    Prop where
  keyed : s.Keyed
  finds : ∀ id ∈ playerIds, s.Finds currency id reserveId
  users : ∀ id ∈ playerIds, s.IsUser id
  prize : (s.accounts.find? (byName "prize" currency)).isSome
  rake : (s.accounts.find? (byName "rake" currency)).isSome

section Operations

variable {sha256 : String → String} {config : Config} {s s' : Store} {refType refId : String}
  {legs : List (String × ℤ)} {currency reserveId userId : String} {playerIds : List String}
  {amount : ℤ}

lemma Did.accountRows (h : Did sha256 refType refId legs s s') :
    s'.accountRows = s.accountRows := by
  cases h with
  | suppressed => rfl
  | posted _ _ hrows => exact hrows

lemma Did.subset (h : Did sha256 refType refId legs s s') {x : String} (hx : x ∈ s.hashes) :
    x ∈ s'.hashes := by
  cases h with
  | suppressed => exact hx
  | posted _ _ _ hhashes _ =>
    rw [hhashes]
    exact mem_append_left _ hx

lemma Did.mem_hashes (h : Did sha256 refType refId legs s s') {x : String}
    (hx : x ∈ s'.hashes) : x ∈ s.hashes ∨
      ∃ leg ∈ legs, x = buildHash sha256 refType refId leg.1 leg.2 := by
  cases h with
  | suppressed => exact Or.inl hx
  | posted _ _ _ hhashes _ =>
    rw [hhashes, mem_append] at hx
    refine hx.imp_right fun hin => ?_
    obtain ⟨leg, hleg, rfl⟩ := mem_map.mp hin
    exact ⟨leg, hleg, rfl⟩

lemma Did.grew (h : Did sha256 refType refId legs s s') : Grew sha256 refType refId s s' where
  rows := h.accountRows
  subset := fun _ hx => h.subset hx
  added := by
    intro x hx
    refine (h.mem_hashes hx).imp_right ?_
    rintro ⟨leg, -, rfl⟩
    exact ⟨leg.1, leg.2, rfl⟩

lemma Grew.refl : Grew sha256 refType refId s s :=
  ⟨rfl, fun _ => id, fun _ => Or.inl⟩

lemma Grew.trans {s'' : Store} (h : Grew sha256 refType refId s s')
    (h' : Grew sha256 refType refId s' s'') : Grew sha256 refType refId s s'' where
  rows := h'.rows.trans h.rows
  subset := fun x hx => h'.subset x (h.subset x hx)
  added := by
    intro x hx
    rcases h'.added x hx with hx | hadded
    · exact h.added x hx
    · exact Or.inr hadded

/-- Other kinds and references stay unused. -/
lemma Grew.unused (h : Grew sha256 refType refId s s') (hsha : Function.Injective sha256)
    {refType' refId' : String}
    (hapart : ∀ a n a' n', hashInput refType refId a n ≠ hashInput refType' refId' a' n')
    (hs : Unused sha256 refType' refId' s) : Unused sha256 refType' refId' s' := by
  intro a n hin
  rcases h.added _ hin with hin | ⟨a', n', heq⟩
  · exact hs a n hin
  · exact hapart a' n' a n (hsha heq.symm)

/-- An operation whose kind and reference are new is posted. -/
lemma Did.balance_of_unused (h : Did sha256 refType refId legs s s')
    (hs : Unused sha256 refType refId s) (id : String) :
    s'.balance id = s.balance id + legSum legs id := by
  cases h with
  | suppressed hold =>
    obtain ⟨leg, -, hin⟩ := hold
    exact absurd hin (hs leg.1 leg.2)
  | posted _ _ _ _ hbalance => exact hbalance id

/-- With a leg in the journal an operation does nothing. -/
lemma Did.eq_of_mem (h : Did sha256 refType refId legs s s') {leg : String × ℤ}
    (hleg : leg ∈ legs)
    (hin : buildHash sha256 refType refId leg.1 leg.2 ∈ s.hashes) : s' = s := by
  cases h with
  | suppressed => rfl
  | posted _ hnew _ _ _ => exact absurd hin (hnew leg hleg)

/-- An operation that was posted or suppressed changes a balance by its legs or not at all. -/
lemma Did.balance_cases (h : Did sha256 refType refId legs s s') (id : String) :
    s'.balance id = s.balance id ∨ s'.balance id = s.balance id + legSum legs id := by
  cases h with
  | suppressed => exact Or.inl rfl
  | posted _ _ _ _ hbalance => exact Or.inr (hbalance id)

lemma HandAccounts.congr (h : HandAccounts currency reserveId playerIds s)
    (hrows : s'.accountRows = s.accountRows) : HandAccounts currency reserveId playerIds s' where
  keyed := h.keyed.congr hrows
  finds := fun id hid => (h.finds id hid).congr hrows
  users := fun id hid => Store.isUser_congr hrows (h.users id hid)
  prize := Store.isSome_find_byName hrows h.prize
  rake := Store.isSome_find_byName hrows h.rake

/-- What a posting does when its accounts are different ones. -/
lemma did_post (hsha : Function.Injective sha256) (hs : s.Keyed) {p : Posting}
    (hmem : ∀ e ∈ p.entries, e.account ∈ s.accounts) (hnodup : (p.legs.map (·.1)).Nodup) :
    ∃ outcome s', post sha256 config p s = (.ok outcome, s') ∧
      Did sha256 p.refType p.refId p.legs s s' := by
  by_cases hold : ∃ h ∈ p.hashes sha256, h ∈ s.hashes
  · refine ⟨.suppressed, s, by rw [post, if_pos hold], .suppressed ?_⟩
    obtain ⟨h, hh, hin⟩ := hold
    rw [p.hashes_eq] at hh
    obtain ⟨leg, hleg, rfl⟩ := mem_map.mp hh
    exact ⟨leg, hleg, hin⟩
  · refine ⟨.posted, p.apply sha256 config s, ?_, .posted _ ?_ (accountRows_apply p) ?_ ?_⟩
    · rw [post, if_neg hold, if_pos (Posting.nodup_hashes hsha hnodup)]
    · intro leg hleg hin
      refine hold ⟨_, ?_, hin⟩
      rw [p.hashes_eq]
      exact mem_map_of_mem hleg
    · rw [hashes_apply, p.hashes_eq]
    · exact balance_apply hs hmem hnodup

lemma did_reserve (config : Config) (hsha : Function.Injective sha256)
    (h : HandAccounts currency reserveId playerIds s) (hid : userId ∈ playerIds) (amount : ℤ)
    (refId : String) (key : Option String) : ∃ outcome s',
      (reserve sha256 config userId amount refId currency key).run Cmd.exec s = (.ok outcome, s') ∧
      Did sha256 "reserve" refId [(userId, -amount), (reserveId, amount)] s s' := by
  have hne := ne_of_finds (h.users userId hid) (h.finds userId hid)
  obtain ⟨user, reserve, huser, hreserve, rfl⟩ := h.finds userId hid
  have hlegs : (reservePosting refId amount user reserve).legs =
      [(userId, -amount), (reserve.id, amount)] := by
    simp [Posting.legs, reservePosting, (byId_iff.mp (find?_some huser)).1]
  rw [run_reserve huser hreserve]
  have hpost := @did_post sha256 config s hsha h.keyed (reservePosting refId amount user reserve)
    (by simp [reservePosting, mem_of_find?_eq_some huser, mem_of_find?_eq_some hreserve])
    (by simp [hlegs, hne])
  rw [hlegs] at hpost
  exact hpost

lemma did_rollback (config : Config) (hsha : Function.Injective sha256)
    (h : HandAccounts currency reserveId playerIds s) (hid : userId ∈ playerIds) (amount : ℤ)
    (refId : String) (key : Option String) : ∃ outcome s',
      (rollback sha256 config userId amount refId currency key).run Cmd.exec s = (.ok outcome, s') ∧
      Did sha256 "rollback" refId [(reserveId, -amount), (userId, amount)] s s' := by
  have hne := ne_of_finds (h.users userId hid) (h.finds userId hid)
  obtain ⟨user, reserve, huser, hreserve, rfl⟩ := h.finds userId hid
  have hlegs : (rollbackPosting refId amount reserve user).legs =
      [(reserve.id, -amount), (userId, amount)] := by
    simp [Posting.legs, rollbackPosting, (byId_iff.mp (find?_some huser)).1]
  rw [run_rollback hreserve huser]
  have hpost := @did_post sha256 config s hsha h.keyed (rollbackPosting refId amount reserve user)
    (by simp [rollbackPosting, mem_of_find?_eq_some huser, mem_of_find?_eq_some hreserve])
    (by simp [hlegs, hne.symm])
  rw [hlegs] at hpost
  exact hpost

/-- Accounts with different names have different ids. -/
lemma ne_of_name (hs : s.Keyed) {name name' : String} {a b : Account}
    (ha : s.accounts.find? (byName name currency) = some a)
    (hb : s.accounts.find? (byName name' currency) = some b) (hne : name ≠ name') : a.id ≠ b.id := by
  intro heq
  have hab := hs.eq_of_id (mem_of_find?_eq_some ha) (mem_of_find?_eq_some hb) heq
  rw [← (byName_iff.mp (find?_some ha)).1, ← (byName_iff.mp (find?_some hb)).1, hab] at hne
  exact hne rfl

/-- `commit` takes the amount from the reserve. -/
lemma did_commit (config : Config) (hsha : Function.Injective sha256)
    (h : HandAccounts currency reserveId playerIds s) (hid : userId ∈ playerIds) (amount : ℤ)
    (refId : String) (key : Option String) : ∃ outcome s' legs,
      (commit sha256 config refId amount 0 currency key).run Cmd.exec s = (.ok outcome, s') ∧
      Did sha256 "commit" refId legs s s' ∧ legSum legs reserveId = -amount := by
  obtain ⟨user, reserve, huser, hreserve, rfl⟩ := h.finds userId hid
  obtain ⟨prize, hprize⟩ := Option.isSome_iff_exists.mp h.prize
  obtain ⟨rakeAcc, hrake⟩ := Option.isSome_iff_exists.mp h.rake
  have hrp : reserve.id ≠ prize.id := ne_of_name h.keyed hreserve hprize (by decide)
  have hrr : reserve.id ≠ rakeAcc.id := ne_of_name h.keyed hreserve hrake (by decide)
  have hpr : prize.id ≠ rakeAcc.id := ne_of_name h.keyed hprize hrake (by decide)
  rw [run_commit hreserve hprize hrake]
  obtain ⟨outcome, s', hrun, hdid⟩ := @did_post sha256 config s hsha h.keyed
    (commitPosting refId amount 0 reserve prize rakeAcc)
    (by simp [commitPosting, mem_of_find?_eq_some hreserve, mem_of_find?_eq_some hprize,
      mem_of_find?_eq_some hrake])
    (by simp [Posting.legs, commitPosting, hrp, hrr, hpr])
  refine ⟨outcome, s', _, hrun, hdid, ?_⟩
  simp [legSum, Posting.legs, commitPosting, hrp.symm, hrr.symm]

end Operations

/-! ### The loops -/

/-- What a player has lost. -/
def lossOf (entry : SettlementEntry) : ℤ :=
  if entry.delta < 0 then -entry.delta else 0

def losses (entries : List SettlementEntry) : ℤ :=
  (entries.map lossOf).sum

lemma losses_cons (entry : SettlementEntry) (entries : List SettlementEntry) :
    losses (entry :: entries) = lossOf entry + losses entries := by
  simp [losses]

lemma lossOf_nonneg (entry : SettlementEntry) : 0 ≤ lossOf entry := by
  unfold lossOf
  split <;> omega

section Loops

variable {sha256 : String → String} {s s' : Store} {currency reserveId handId street : String}
  {playerIds : List String} {entries : List SettlementEntry}

/-- A second reservation of one stack is suppressed by the leg on the reserve. -/
lemma run_reserveStacks_old (config : Config) (hsha : Function.Injective sha256) {stack : ℤ}
    {initialStacks : List (String × ℤ)} (h : HandAccounts currency reserveId playerIds s)
    (hids : ∀ player ∈ initialStacks, player.1 ∈ playerIds ∧ player.2 = stack)
    (hold : buildHash sha256 "reserve" handId reserveId stack ∈ s.hashes) :
    (reserveStacks sha256 config handId currency initialStacks).run Cmd.exec s = (.ok (), s) := by
  induction initialStacks with
  | nil => rfl
  | cons player initialStacks ih =>
    obtain ⟨hid, hstack⟩ := hids player mem_cons_self
    obtain ⟨outcome, s', hrun, hdid⟩ := did_reserve config hsha h hid player.2 handId none
    rw [← hstack] at hold
    have hleg : (reserveId, player.2) ∈ [(player.1, -player.2), (reserveId, player.2)] := by simp
    have hsame : s' = s := hdid.eq_of_mem hleg hold
    rw [hstack] at hold
    rw [hsame] at hrun
    have hrest := ih fun player' h' => hids player' (mem_cons_of_mem player h')
    simp only [reserveStacks, forEach, run_bind, hrun, run_ret, pure_eq]
    exact hrest

/-- The loop of `create` reserves one stack. -/
lemma run_reserveStacks (config : Config) (hsha : Function.Injective sha256) (stack : ℤ)
    {playerId : String} {rest : List String}
    (h : HandAccounts currency reserveId (playerId :: rest) s)
    (hunused : Unused sha256 "reserve" handId s) : ∃ s',
      (reserveStacks sha256 config handId currency
        ((playerId :: rest).map fun id => (id, stack))).run Cmd.exec s = (.ok (), s') ∧
      Grew sha256 "reserve" handId s s' ∧
      ∀ id, s'.balance id = s.balance id + legSum [(playerId, -stack), (reserveId, stack)] id := by
  obtain ⟨outcome, s', hrun, hdid⟩ := did_reserve config hsha h mem_cons_self stack handId none
  have hold : buildHash sha256 "reserve" handId reserveId stack ∈ s'.hashes := by
    cases hdid with
    | suppressed hold =>
      obtain ⟨leg, -, hin⟩ := hold
      exact absurd hin (hunused leg.1 leg.2)
    | posted _ _ _ hhashes _ =>
      rw [hhashes]
      exact mem_append_right _ (by simp)
  have hids : ∀ player ∈ rest.map fun id => (id, stack),
      player.1 ∈ playerId :: rest ∧ player.2 = stack := by
    intro player hplayer
    obtain ⟨id, hid, rfl⟩ := mem_map.mp hplayer
    exact ⟨mem_cons_of_mem playerId hid, rfl⟩
  have hrest := run_reserveStacks_old config hsha (h.congr hdid.accountRows) hids hold
  refine ⟨s', ?_, hdid.grew, hdid.balance_of_unused hunused⟩
  rw [map_cons]
  simp only [reserveStacks, forEach, run_bind, hrun, run_ret, pure_eq]
  exact hrest

lemma run_reserveLosses (config : Config) (hsha : Function.Injective sha256) {key : String}
    {total : ℤ} (h : HandAccounts currency reserveId playerIds s)
    (hids : ∀ e ∈ entries, e.playerId ∈ playerIds) : ∃ s',
      (reserveLosses sha256 config key currency entries total).run Cmd.exec s =
        (.ok (total + losses entries), s') ∧
      Grew sha256 "reserve" key s s' ∧
      s'.balance reserveId ≤ s.balance reserveId + losses entries := by
  induction entries generalizing s total with
  | nil => exact ⟨s, by simp [reserveLosses, losses], .refl, by simp [losses]⟩
  | cons entry entries ih =>
    have hrest : ∀ e ∈ entries, e.playerId ∈ playerIds := fun e he => hids e (mem_cons_of_mem _ he)
    rw [losses_cons]
    by_cases hneg : entry.delta < 0
    · obtain ⟨outcome, s₁, hrun, hdid⟩ :=
        did_reserve config hsha h (hids entry mem_cons_self) (-entry.delta) key (some key)
      obtain ⟨s', hloop, hgrew, hbalance⟩ := @ih s₁ (total + -entry.delta)
        (h.congr hdid.accountRows) hrest
      have hloss : lossOf entry = -entry.delta := if_pos hneg
      refine ⟨s', ?_, hdid.grew.trans hgrew, ?_⟩
      · simp only [reserveLosses, if_pos hneg, run_bind, hrun, hloop, hloss, add_assoc]
      · have hne := ne_of_finds (h.users _ (hids entry mem_cons_self))
          (h.finds _ (hids entry mem_cons_self))
        have hcases := hdid.balance_cases reserveId
        simp only [legSum, map_cons, map_nil, if_neg hne, if_true, sum_cons, sum_nil] at hcases
        rw [hloss]
        omega
    · obtain ⟨s', hloop, hgrew, hbalance⟩ := @ih s total h hrest
      have hloss : lossOf entry = 0 := if_neg hneg
      refine ⟨s', ?_, hgrew, ?_⟩
      · simp only [reserveLosses, if_neg hneg, hloop, hloss, zero_add]
      · rw [hloss, zero_add]
        exact hbalance

/-- Without a loss the loop of `writeHandLedger` does nothing. -/
lemma run_reserveLosses_even (config : Config) {key : String} {total : ℤ}
    (heven : ∀ e ∈ entries, e.delta = 0) :
    (reserveLosses sha256 config key currency entries total).run Cmd.exec s = (.ok total, s) := by
  induction entries with
  | nil => rfl
  | cons entry entries ih =>
    have hnot : ¬ entry.delta < 0 := by
      rw [heven entry mem_cons_self]
      exact lt_irrefl 0
    simp only [reserveLosses, if_neg hnot]
    exact ih fun e he => heven e (mem_cons_of_mem _ he)

/-- Different kinds have different hashes. -/
lemma apart_of_refType {refType refType' refId refId' : String} (hcolon : ':' ∉ refType.toList)
    (hcolon' : ':' ∉ refType'.toList) (hne : refType ≠ refType') (a : String) (n : ℤ) (a' : String)
    (n' : ℤ) : hashInput refType refId a n ≠ hashInput refType' refId' a' n' :=
  fun h => hne (refType_eq_of_hashInput hcolon hcolon' h)

/-- The key of a settlement is another reference than the hand. -/
lemma apart_of_key (refType : String) (idx : ℕ) (a : String) (n : ℤ) (a' : String) (n' : ℤ) :
    hashInput refType (settlementKey handId street idx) a n ≠ hashInput refType handId a' n' := by
  intro h
  have hlist := congrArg String.toList h
  rw [toList_hashInput, toList_hashInput, append_cancel_left_eq, cons.injEq] at hlist
  have hkey : (settlementKey handId street idx).toList =
      handId.toList ++ '#' :: (street.toList ++ '#' :: (toString idx).toList) := by
    simp [settlementKey, toString]
  rw [hkey, append_assoc, append_cancel_left_eq, cons_append, cons.injEq] at hlist
  exact absurd hlist.2.1 (by decide)

/-- `writeHandLedger` reserves at most the losses and takes all of them. -/
lemma run_writeHandLedger (config : Config) (hsha : Function.Injective sha256)
    (h : HandAccounts currency reserveId playerIds s)
    (hids : ∀ e ∈ entries, e.playerId ∈ playerIds) (hloss : 0 < losses entries)
    (hkey : Unused sha256 "commit" (settlementKey handId street 0) s) : ∃ s₁ s',
      (writeHandLedger sha256 config handId street 0 entries currency).run Cmd.exec s =
        (.ok (), s') ∧
      Grew sha256 "reserve" (settlementKey handId street 0) s s₁ ∧
      Grew sha256 "commit" (settlementKey handId street 0) s₁ s' ∧
      s'.balance reserveId ≤ s.balance reserveId := by
  obtain ⟨s₁, hloop, hgrew, hbalance⟩ := @run_reserveLosses sha256 s currency reserveId playerIds
    entries config hsha (settlementKey handId street 0) 0 h hids
  rw [zero_add] at hloop
  obtain ⟨entry, hentry⟩ : ∃ e, e ∈ entries := by
    cases entries with
    | nil => exact absurd hloss (lt_irrefl 0)
    | cons entry entries => exact ⟨entry, mem_cons_self⟩
  obtain ⟨outcome, s', legs, hrun, hdid, hsum⟩ := did_commit config hsha (h.congr hgrew.rows)
    (hids entry hentry) (losses entries) (settlementKey handId street 0)
    (some (settlementKey handId street 0))
  have hunused := hgrew.unused hsha (apart_of_refType (by decide) (by decide) (by decide)) hkey
  refine ⟨s₁, s', ?_, hgrew, hdid.grew, ?_⟩
  · simp only [writeHandLedger, run_bind, hloop, gt_iff_lt, if_pos hloss, hrun, run_ret, pure_eq]
  · rw [hdid.balance_of_unused hunused, hsum]
    omega

lemma run_writeHandLedger_even (config : Config) (heven : ∀ e ∈ entries, e.delta = 0) :
    (writeHandLedger sha256 config handId street 0 entries currency).run Cmd.exec s =
      (.ok (), s) := by
  simp only [writeHandLedger, run_bind, run_reserveLosses_even config heven, gt_iff_lt, lt_irrefl,
    if_false, run_ret, pure_eq]

variable {initialStacks : List (String × ℤ)}

/-- What the loop of `settle` pays back for an entry. -/
def refundOf (initialStacks : List (String × ℤ)) (entry : SettlementEntry) : ℤ :=
  (initialStacks.lookup entry.playerId).getD 0 - lossOf entry

/-- One turn of the loop of `settle`. -/
lemma run_refundStacks_cons (config : Config) (hsha : Function.Injective sha256)
    {entry : SettlementEntry} {idx : ℕ} {totalLoss : ℤ}
    (h : HandAccounts currency reserveId playerIds s) (hid : entry.playerId ∈ playerIds)
    (hrefund : 0 < refundOf initialStacks entry) : ∃ s',
      (refundStacks sha256 config handId street currency initialStacks (entry :: entries) idx
          totalLoss).run Cmd.exec s =
        (refundStacks sha256 config handId street currency initialStacks entries (idx + 1)
          (totalLoss + lossOf entry)).run Cmd.exec s' ∧
      Did sha256 "rollback" handId [(reserveId, -refundOf initialStacks entry),
        (entry.playerId, refundOf initialStacks entry)] s s' := by
  obtain ⟨outcome, s', hrun, hdid⟩ := did_rollback config hsha h hid
    (refundOf initialStacks entry) handId (some (settlementKey handId street idx))
  refine ⟨s', ?_, hdid⟩
  have hside : ∀ what, (Wallet.run (.side what)).run Cmd.exec s = (.ok (), s) := fun _ => rfl
  have hpos : refundOf initialStacks entry > 0 := hrefund
  simp only [refundOf, lossOf] at hrun hpos ⊢
  simp only [refundStacks, if_pos hpos, run_bind, hside, hrun]

lemma run_refundStacks_skip (config : Config) {entry : SettlementEntry} {idx : ℕ} {totalLoss : ℤ}
    (hrefund : ¬ 0 < refundOf initialStacks entry) :
    (refundStacks sha256 config handId street currency initialStacks (entry :: entries) idx
        totalLoss).run Cmd.exec s =
      (refundStacks sha256 config handId street currency initialStacks entries idx
        (totalLoss + lossOf entry)).run Cmd.exec s := by
  have hneg : ¬ refundOf initialStacks entry > 0 := hrefund
  simp only [refundOf, lossOf] at hneg ⊢
  simp only [refundStacks, if_neg hneg]

lemma run_refundStacks (config : Config) (hsha : Function.Injective sha256) {idx : ℕ}
    {totalLoss : ℤ} (h : HandAccounts currency reserveId playerIds s)
    (hids : ∀ e ∈ entries, e.playerId ∈ playerIds) : ∃ s' n,
      (refundStacks sha256 config handId street currency initialStacks entries idx
          totalLoss).run Cmd.exec s = (.ok (n, totalLoss + losses entries), s') ∧
      Grew sha256 "rollback" handId s s' ∧ s'.balance reserveId ≤ s.balance reserveId := by
  induction entries generalizing s idx totalLoss with
  | nil => exact ⟨s, idx, by simp [refundStacks, losses], .refl, le_rfl⟩
  | cons entry entries ih =>
    have hrest : ∀ e ∈ entries, e.playerId ∈ playerIds := fun e he => hids e (mem_cons_of_mem _ he)
    rw [losses_cons, ← add_assoc]
    by_cases hrefund : 0 < refundOf initialStacks entry
    · obtain ⟨s₁, hturn, hdid⟩ := @run_refundStacks_cons sha256 s currency reserveId handId street
        playerIds entries initialStacks config hsha entry idx totalLoss h (hids entry mem_cons_self)
        hrefund
      obtain ⟨s', n, hloop, hgrew, hbalance⟩ := @ih s₁ (idx + 1) (totalLoss + lossOf entry)
        (h.congr hdid.accountRows) hrest
      refine ⟨s', n, by rw [hturn, hloop], hdid.grew.trans hgrew, ?_⟩
      have hne := ne_of_finds (h.users _ (hids entry mem_cons_self))
        (h.finds _ (hids entry mem_cons_self))
      have hcases := hdid.balance_cases reserveId
      simp only [legSum, map_cons, map_nil, if_neg hne, if_true, sum_cons, sum_nil] at hcases
      omega
    · obtain ⟨s', n, hloop, hgrew, hbalance⟩ := @ih s idx (totalLoss + lossOf entry) h hrest
      exact ⟨s', n, by rw [run_refundStacks_skip config hrefund, hloop], hgrew, hbalance⟩

/-- Somebody who has lost nothing gets the stack back, or shares the refund of another one. -/
lemma run_refundStacks_winner (config : Config) (hsha : Function.Injective sha256) {idx : ℕ}
    {totalLoss stack : ℤ} (h : HandAccounts currency reserveId playerIds s)
    (hids : ∀ e ∈ entries, e.playerId ∈ playerIds) (hstack : 0 < stack)
    (hinitial : ∀ e ∈ entries, (initialStacks.lookup e.playerId).getD 0 = stack)
    (hreserve : buildHash sha256 "rollback" handId reserveId (-stack) ∉ s.hashes)
    (hplayers : ∀ e ∈ entries, buildHash sha256 "rollback" handId e.playerId stack ∉ s.hashes)
    (hwinner : ∃ e ∈ entries, 0 ≤ e.delta) : ∃ s' n,
      (refundStacks sha256 config handId street currency initialStacks entries idx
          totalLoss).run Cmd.exec s = (.ok (n, totalLoss + losses entries), s') ∧
      Grew sha256 "rollback" handId s s' ∧
      s'.balance reserveId ≤ s.balance reserveId - stack := by
  induction entries generalizing s idx totalLoss with
  | nil =>
    obtain ⟨e, he, -⟩ := hwinner
    cases he
  | cons entry entries ih =>
    have hrest : ∀ e ∈ entries, e.playerId ∈ playerIds := fun e he => hids e (mem_cons_of_mem _ he)
    have hne := ne_of_finds (h.users _ (hids entry mem_cons_self))
      (h.finds _ (hids entry mem_cons_self))
    have hrefundOf : refundOf initialStacks entry = stack - lossOf entry := by
      rw [refundOf, hinitial entry mem_cons_self]
    rw [losses_cons, ← add_assoc]
    by_cases hloss : 0 ≤ entry.delta
    · -- the whole stack is paid back, which has not happened before
      have hzero : lossOf entry = 0 := if_neg (not_lt.mpr hloss)
      rw [hzero, sub_zero] at hrefundOf
      obtain ⟨s₁, hturn, hdid⟩ := @run_refundStacks_cons sha256 s currency reserveId handId street
        playerIds entries initialStacks config hsha entry idx totalLoss h (hids entry mem_cons_self)
        (hrefundOf ▸ hstack)
      obtain ⟨s', n, hloop, hgrew, hbalance⟩ := @run_refundStacks sha256 s₁ currency reserveId
        handId street playerIds entries initialStacks config hsha (idx + 1)
        (totalLoss + lossOf entry) (h.congr hdid.accountRows) hrest
      refine ⟨s', n, by rw [hturn, hloop], hdid.grew.trans hgrew, ?_⟩
      rw [hrefundOf] at hdid
      cases hdid with
      | suppressed hold =>
        obtain ⟨leg, hleg, hin⟩ := hold
        simp only [mem_cons, not_mem_nil, or_false] at hleg
        rcases hleg with rfl | rfl
        · exact absurd hin hreserve
        · exact absurd hin (hplayers entry mem_cons_self)
      | posted _ _ _ _ hposted =>
        have hpaid := hposted reserveId
        simp only [legSum, map_cons, map_nil, if_neg hne, if_true, sum_cons, sum_nil] at hpaid
        omega
    · have hpos : lossOf entry = -entry.delta := if_pos (not_le.mp hloss)
      have hwinner' : ∃ e ∈ entries, 0 ≤ e.delta := by
        obtain ⟨e, he, hdelta⟩ := hwinner
        rcases mem_cons.mp he with rfl | he
        · exact absurd hdelta hloss
        · exact ⟨e, he, hdelta⟩
      have hinitial' : ∀ e ∈ entries, (initialStacks.lookup e.playerId).getD 0 = stack :=
        fun e he => hinitial e (mem_cons_of_mem _ he)
      have hplayers' : ∀ e ∈ entries,
          buildHash sha256 "rollback" handId e.playerId stack ∉ s.hashes :=
        fun e he => hplayers e (mem_cons_of_mem _ he)
      have hless : refundOf initialStacks entry ≠ stack := by omega
      by_cases hrefund : 0 < refundOf initialStacks entry
      · -- a smaller refund leaves the legs of the whole stack unused
        obtain ⟨s₁, hturn, hdid⟩ := @run_refundStacks_cons sha256 s currency reserveId handId
          street playerIds entries initialStacks config hsha entry idx totalLoss h
          (hids entry mem_cons_self) hrefund
        have hother : ∀ {a : String} {n : ℤ},
            buildHash sha256 "rollback" handId a n ∉ s.hashes → n ≠ refundOf initialStacks entry →
            (a = reserveId → n ≠ -refundOf initialStacks entry) →
            buildHash sha256 "rollback" handId a n ∉ s₁.hashes := by
          intro a n hnot hn hn' hin
          rcases hdid.mem_hashes hin with hin | ⟨leg, hleg, heq⟩
          · exact hnot hin
          · obtain ⟨ha, hamount⟩ := hashInput_inj (hsha heq)
            simp only [mem_cons, not_mem_nil, or_false] at hleg
            rcases hleg with rfl | rfl
            · exact hn' ha hamount
            · exact hn hamount
        have hne' : ∀ e ∈ entries, e.playerId ≠ reserveId := fun e he =>
          ne_of_finds (h.users _ (hrest e he)) (h.finds _ (hrest e he))
        obtain ⟨s', n, hloop, hgrew, hbalance⟩ := @ih s₁ (idx + 1) (totalLoss + lossOf entry)
          (h.congr hdid.accountRows) hrest hinitial'
          (hother hreserve (by omega) fun _ => by omega)
          (fun e he => hother (hplayers' e he) hless.symm fun heq => absurd heq (hne' e he))
          hwinner'
        refine ⟨s', n, by rw [hturn, hloop], hdid.grew.trans hgrew, ?_⟩
        have hcases := hdid.balance_cases reserveId
        simp only [legSum, map_cons, map_nil, if_neg hne, if_true, sum_cons, sum_nil] at hcases
        omega
      · obtain ⟨s', n, hloop, hgrew, hbalance⟩ := @ih s idx (totalLoss + lossOf entry) h hrest
          hinitial' hreserve hplayers' hwinner'
        exact ⟨s', n, by rw [run_refundStacks_skip config hrefund, hloop], hgrew, hbalance⟩

/-- Further refunds of the whole stack are suppressed by the leg on the reserve. -/
lemma run_refundStacks_old (config : Config) (hsha : Function.Injective sha256) {idx : ℕ}
    {totalLoss stack : ℤ} (h : HandAccounts currency reserveId playerIds s)
    (hids : ∀ e ∈ entries, e.playerId ∈ playerIds) (hstack : 0 < stack)
    (hinitial : ∀ e ∈ entries, (initialStacks.lookup e.playerId).getD 0 = stack)
    (heven : ∀ e ∈ entries, e.delta = 0)
    (hold : buildHash sha256 "rollback" handId reserveId (-stack) ∈ s.hashes) : ∃ n,
      (refundStacks sha256 config handId street currency initialStacks entries idx
        totalLoss).run Cmd.exec s = (.ok (n, totalLoss), s) := by
  induction entries generalizing idx totalLoss with
  | nil => exact ⟨idx, rfl⟩
  | cons entry entries ih =>
    have hzero : lossOf entry = 0 := if_neg (by rw [heven entry mem_cons_self]; exact lt_irrefl 0)
    have hrefundOf : refundOf initialStacks entry = stack := by
      rw [refundOf, hinitial entry mem_cons_self, hzero, sub_zero]
    obtain ⟨s₁, hturn, hdid⟩ := @run_refundStacks_cons sha256 s currency reserveId handId street
      playerIds entries initialStacks config hsha entry idx totalLoss h (hids entry mem_cons_self)
      (hrefundOf ▸ hstack)
    rw [hrefundOf] at hdid
    obtain rfl : s₁ = s := hdid.eq_of_mem mem_cons_self hold
    obtain ⟨n, hloop⟩ := @ih (idx + 1) (totalLoss + lossOf entry)
      (fun e he => hids e (mem_cons_of_mem _ he)) (fun e he => hinitial e (mem_cons_of_mem _ he))
      fun e he => heven e (mem_cons_of_mem _ he)
    exact ⟨n, by rw [hturn, hloop, hzero, add_zero]⟩

/-- When nobody has lost, one stack is paid back. -/
lemma run_refundStacks_even (config : Config) (hsha : Function.Injective sha256) {idx : ℕ}
    {totalLoss stack : ℤ} {entry : SettlementEntry}
    (h : HandAccounts currency reserveId playerIds s)
    (hids : ∀ e ∈ entry :: entries, e.playerId ∈ playerIds) (hstack : 0 ≤ stack)
    (hinitial : ∀ e ∈ entry :: entries, (initialStacks.lookup e.playerId).getD 0 = stack)
    (heven : ∀ e ∈ entry :: entries, e.delta = 0) (hunused : Unused sha256 "rollback" handId s) :
    ∃ s' n,
      (refundStacks sha256 config handId street currency initialStacks (entry :: entries) idx
        totalLoss).run Cmd.exec s = (.ok (n, totalLoss), s') ∧
      ∀ id, s'.balance id =
        s.balance id + legSum [(reserveId, -stack), (entry.playerId, stack)] id := by
  have hzero : ∀ e ∈ entry :: entries, lossOf e = 0 := fun e he =>
    if_neg (by rw [heven e he]; exact lt_irrefl 0)
  have hrefundOf : ∀ e ∈ entry :: entries, refundOf initialStacks e = stack := fun e he => by
    rw [refundOf, hinitial e he, hzero e he, sub_zero]
  rcases hstack.lt_or_eq with hpos | rfl
  · obtain ⟨s₁, hturn, hdid⟩ := @run_refundStacks_cons sha256 s currency reserveId handId street
      playerIds entries initialStacks config hsha entry idx totalLoss h (hids entry mem_cons_self)
      (hrefundOf entry mem_cons_self ▸ hpos)
    rw [hrefundOf entry mem_cons_self] at hdid
    have hold : buildHash sha256 "rollback" handId reserveId (-stack) ∈ s₁.hashes := by
      cases hdid with
      | suppressed hold =>
        obtain ⟨leg, -, hin⟩ := hold
        exact absurd hin (hunused leg.1 leg.2)
      | posted _ _ _ hhashes _ =>
        rw [hhashes]
        exact mem_append_right _ mem_cons_self
    obtain ⟨n, hloop⟩ := @run_refundStacks_old sha256 s₁ currency reserveId handId street playerIds
      entries initialStacks config hsha (idx + 1) (totalLoss + lossOf entry) stack
      (h.congr hdid.accountRows) (fun e he => hids e (mem_cons_of_mem _ he)) hpos
      (fun e he => hinitial e (mem_cons_of_mem _ he))
      (fun e he => heven e (mem_cons_of_mem _ he)) hold
    refine ⟨s₁, n, ?_, hdid.balance_of_unused hunused⟩
    rw [hturn, hloop, hzero entry mem_cons_self, add_zero]
  · -- without stacks there is nothing to pay back
    have hskip : ∀ (es : List SettlementEntry), (∀ e ∈ es, refundOf initialStacks e = 0) →
        (∀ e ∈ es, lossOf e = 0) → ∀ idx totalLoss,
        (refundStacks sha256 config handId street currency initialStacks es idx
          totalLoss).run Cmd.exec s = (.ok (idx, totalLoss), s) := by
      intro es
      induction es with
      | nil => exact fun _ _ _ _ => rfl
      | cons e es ih =>
        intro hr hl idx totalLoss
        rw [run_refundStacks_skip config (by rw [hr e mem_cons_self]; exact lt_irrefl 0),
          hl e mem_cons_self, add_zero]
        exact ih (fun e' he => hr e' (mem_cons_of_mem _ he))
          (fun e' he => hl e' (mem_cons_of_mem _ he)) idx totalLoss
    refine ⟨s, idx, hskip _ hrefundOf hzero idx totalLoss, fun id => ?_⟩
    simp [legSum]

end Loops

/-! ### The settlement of a hand -/

/-- The hand and its first settlement key are new to the wallet. -/
def NewHand (sha256 : String → String) (handId street : String) (s : Store) : Prop :=
  ∀ refType, Unused sha256 refType handId s ∧
    Unused sha256 refType (settlementKey handId street 0) s

/-- Between `s` and `s'` every player has won or lost the delta, and the reserve is back. -/
structure SettledAs (s s' : Store) (reserveId : String) (entries : List SettlementEntry) :
    Prop where
  players : ∀ e ∈ entries, s'.balance e.playerId = s.balance e.playerId + e.delta
  reserve : s'.balance reserveId = s.balance reserveId

section Settlement

variable {sha256 : String → String} {s : Store} {currency reserveId handId street : String}
  {entries : List SettlementEntry}

lemma lossOf_eq_zero {entry : SettlementEntry} : lossOf entry = 0 ↔ 0 ≤ entry.delta := by
  unfold lossOf
  split <;> omega

lemma losses_nonneg : 0 ≤ losses entries := by
  refine sum_nonneg fun x hx => ?_
  obtain ⟨e, -, rfl⟩ := mem_map.mp hx
  exact lossOf_nonneg e

/-- Numbers of one sign that sum up to 0 are 0. -/
lemma eq_zero_of_sum {f : SettlementEntry → ℤ} (hf : ∀ e ∈ entries, 0 ≤ f e)
    (hsum : (entries.map f).sum = 0) : ∀ e ∈ entries, f e = 0 := by
  have hall : ∀ x ∈ entries.map f, 0 ≤ x := by
    intro x hx
    obtain ⟨e, he, rfl⟩ := mem_map.mp hx
    exact hf e he
  exact fun e he => all_zero_of_le_zero_le_of_sum_eq_zero hall hsum (mem_map_of_mem he)

/-- If something was won or lost, there are a loss and a player without one. -/
lemma exists_loss_and_winner (hsum : (entries.map (·.delta)).sum = 0)
    (hdelta : ¬ ∀ e ∈ entries, e.delta = 0) :
    0 < losses entries ∧ ∃ e ∈ entries, 0 ≤ e.delta := by
  constructor
  · refine lt_of_le_of_ne losses_nonneg fun hzero => hdelta ?_
    have hnone := eq_zero_of_sum (fun e _ => lossOf_nonneg e) hzero.symm
    exact eq_zero_of_sum (fun e he => lossOf_eq_zero.mp (hnone e he)) hsum
  · by_contra hnone
    have hneg : ∀ e ∈ entries, 0 ≤ -e.delta := by
      intro e he
      by_contra h
      exact hnone ⟨e, he, by omega⟩
    have hsum' : (entries.map fun e => -e.delta).sum = 0 := by
      have := sum_neg (entries.map (·.delta))
      rw [hsum, map_map] at this
      exact this.symm
    exact hdelta fun e he => neg_eq_zero.mp (eq_zero_of_sum hneg hsum' e he)

variable {reserveId : String} {playerIds : List String}

lemma lookup_initialStacks {stack : ℤ} {id : String} (hid : id ∈ playerIds) :
    ((playerIds.map fun id => (id, stack)).lookup id).getD 0 = stack := by
  induction playerIds with
  | nil => cases hid
  | cons playerId playerIds ih =>
    by_cases heq : id = playerId
    · simp [heq]
    · rw [map_cons, lookup_cons, beq_eq_false_iff_ne.mpr heq]
      exact ih ((mem_cons.mp hid).resolve_left heq)

/-- When nothing was won or lost, one stack is reserved and paid back. -/
lemma run_playHand_even (config : Config) (hsha : Function.Injective sha256) {stack : ℕ}
    (h : HandAccounts currency reserveId (entries.map (·.playerId)) s)
    (hnew : NewHand sha256 handId street s) (heven : ∀ e ∈ entries, e.delta = 0) : ∃ s',
      (playHand sha256 config handId street currency
        ((entries.map (·.playerId)).map fun id => (id, (stack : ℤ))) entries).run Cmd.exec s =
          (.ok (), s') ∧
      ∀ id, s'.balance id = s.balance id := by
  cases entries with
  | nil => exact ⟨s, rfl, fun _ => rfl⟩
  | cons entry entries =>
    obtain ⟨s₁, hreserve, hgrew, hbalance⟩ := run_reserveStacks config hsha stack h
      (hnew "reserve").1
    have hunused := hgrew.unused hsha (apart_of_refType (by decide) (by decide) (by decide))
      (hnew "rollback").1
    have hids : ∀ e ∈ entry :: entries, e.playerId ∈ (entry :: entries).map (·.playerId) :=
      fun e he => mem_map_of_mem he
    obtain ⟨s', n, hrefund, hbalance'⟩ := run_refundStacks_even config hsha (h.congr hgrew.rows)
      hids (Int.natCast_nonneg stack) (fun e he => lookup_initialStacks (hids e he)) heven hunused
    refine ⟨s', ?_, fun id => ?_⟩
    · rw [playHand, settleHand, run_bind, map_cons, hreserve]
      simp only [run_bind, run_writeHandLedger_even config heven]
      rw [← map_cons (f := fun e : SettlementEntry => e.playerId), hrefund]
      rfl
    · rw [hbalance', hbalance]
      simp only [legSum, map_cons, map_nil, sum_cons, sum_nil]
      split_ifs <;> omega

/-- When something was lost, the reserve ends below what it was. -/
lemma run_playHand_uneven (config : Config) (hsha : Function.Injective sha256) {stack : ℕ}
    (h : HandAccounts currency reserveId (entries.map (·.playerId)) s)
    (hnew : NewHand sha256 handId street s) (hsum : (entries.map (·.delta)).sum = 0)
    (hdelta : ¬ ∀ e ∈ entries, e.delta = 0) : ∃ s',
      (playHand sha256 config handId street currency
        ((entries.map (·.playerId)).map fun id => (id, (stack : ℤ))) entries).run Cmd.exec s =
          (.ok (), s') ∧
      s'.balance reserveId < s.balance reserveId := by
  obtain ⟨hloss, hwinner⟩ := exists_loss_and_winner hsum hdelta
  have hids : ∀ e ∈ entries, e.playerId ∈ entries.map (·.playerId) :=
    fun e he => mem_map_of_mem he
  obtain ⟨playerId, rest, hplayers⟩ : ∃ playerId rest,
      entries.map (·.playerId) = playerId :: rest := by
    cases entries with
    | nil => exact absurd hloss (lt_irrefl 0)
    | cons entry entries => exact ⟨_, _, rfl⟩
  have hne : playerId ≠ reserveId := by
    have hmem : playerId ∈ entries.map (·.playerId) := by rw [hplayers]; exact mem_cons_self
    exact ne_of_finds (h.users _ hmem) (h.finds _ hmem)
  -- the stack of the first player is reserved
  rw [hplayers] at h
  obtain ⟨s₁, hreserve, hgrew₁, hbalance₁⟩ := run_reserveStacks config hsha (stack : ℤ) h
    (hnew "reserve").1
  rw [← hplayers] at h hreserve
  have hreserved := hbalance₁ reserveId
  simp only [legSum, map_cons, map_nil, if_neg hne, if_true, sum_cons, sum_nil] at hreserved
  -- the losses are reserved once more, and taken
  have hkey : Unused sha256 "commit" (settlementKey handId street 0) s₁ :=
    hgrew₁.unused hsha (apart_of_refType (by decide) (by decide) (by decide)) (hnew "commit").2
  obtain ⟨s₁', s₂, hwrite, hgrew₂, hgrew₂', hbalance₂⟩ :=
    run_writeHandLedger config hsha (h.congr hgrew₁.rows) hids hloss hkey
  have hrollback : Unused sha256 "rollback" handId s₂ := by
    refine hgrew₂'.unused hsha (apart_of_refType (by decide) (by decide) (by decide)) ?_
    refine hgrew₂.unused hsha (apart_of_refType (by decide) (by decide) (by decide)) ?_
    exact hgrew₁.unused hsha (apart_of_refType (by decide) (by decide) (by decide))
      (hnew "rollback").1
  have hcommit : Unused sha256 "commit" handId s₂ := by
    refine hgrew₂'.unused hsha (apart_of_key "commit" 0) ?_
    refine hgrew₂.unused hsha (apart_of_refType (by decide) (by decide) (by decide)) ?_
    exact hgrew₁.unused hsha (apart_of_refType (by decide) (by decide) (by decide))
      (hnew "commit").1
  have haccounts₂ : HandAccounts currency reserveId (entries.map (·.playerId)) s₂ :=
    ((h.congr hgrew₁.rows).congr hgrew₂.rows).congr hgrew₂'.rows
  -- the refunds take the stack of the first player again
  obtain ⟨s₃, n, hrefund, hgrew₃, hbalance₃⟩ : ∃ s₃ n,
      (refundStacks sha256 config handId street currency
        ((entries.map (·.playerId)).map fun id => (id, (stack : ℤ))) entries 0 0).run Cmd.exec s₂ =
          (.ok (n, losses entries), s₃) ∧
      Grew sha256 "rollback" handId s₂ s₃ ∧
      s₃.balance reserveId ≤ s₂.balance reserveId - stack := by
    rcases (Int.natCast_nonneg stack).lt_or_eq with hpos | hzero
    · have hrun := @run_refundStacks_winner sha256 s₂ currency reserveId handId street _ entries _
        config hsha 0 0 _ haccounts₂ hids hpos (fun e he => lookup_initialStacks (hids e he))
        (hrollback _ _) (fun e _ => hrollback _ _) hwinner
      rw [zero_add] at hrun
      exact hrun
    · rw [← hzero, sub_zero]
      have hrun := @run_refundStacks sha256 s₂ currency reserveId handId street _ entries
        ((entries.map (·.playerId)).map fun id => (id, 0)) config hsha 0 0 haccounts₂ hids
      rw [zero_add] at hrun
      obtain ⟨s₃, n, hloop, hgrew₃, hbalance₃⟩ := hrun
      exact ⟨s₃, n, hloop, hgrew₃, hbalance₃⟩
  -- and the losses are taken once more
  have hmem : playerId ∈ entries.map (·.playerId) := by rw [hplayers]; exact mem_cons_self
  obtain ⟨outcome, s', legs, hrun, hdid, hlegs⟩ := did_commit config hsha
    (haccounts₂.congr hgrew₃.rows) hmem (losses entries) handId
    (some (settlementKey handId street n))
  have hunused := hgrew₃.unused hsha (apart_of_refType (by decide) (by decide) (by decide)) hcommit
  refine ⟨s', ?_, ?_⟩
  · have hside : ∀ what, (Wallet.run (.side what)).run Cmd.exec s₃ = (.ok (), s₃) := fun _ => rfl
    simp only [playHand, settleHand, run_bind, hreserve, hwrite, hrefund, gt_iff_lt, if_pos hloss,
      hside, hrun, run_ret, pure_eq]
  · rw [hdid.balance_of_unused hunused, hlegs]
    omega

end Settlement

def twoPlayerAccounts : Store where
  accounts := [⟨"u1", "alice", "USD", 500, true⟩, ⟨"u2", "bob", "USD", 500, true⟩,
    ⟨"r1", "reserve", "USD", 0, true⟩, ⟨"z1", "prize", "USD", 0, true⟩,
    ⟨"k1", "rake", "USD", 0, true⟩]

lemma handAccounts_twoPlayers : HandAccounts "USD" "r1" ["u1", "u2"] twoPlayerAccounts where
  keyed := ⟨by decide, by decide⟩
  finds := by
    intro id hid
    simp only [mem_cons, not_mem_nil, or_false] at hid
    rcases hid with rfl | rfl <;> exact ⟨_, _, rfl, rfl, rfl⟩
  users := by decide
  prize := rfl
  rake := rfl

lemma newHand_twoPlayers : NewHand id "hand1" "river" twoPlayerAccounts :=
  fun _ => ⟨fun _ _ => not_mem_nil, fun _ _ => not_mem_nil⟩

end Pokerhub.Wallet
