import Mathlib.Data.List.Nodup
import Pokerhub.Core.Stages

/-!
# Promotions

`PromotionsService.claim` of `promotions.service.ts` over the table of claims. The service looks for
a claim before it inserts one, and two requests can both look before either inserts; then the key of
the table, which is made of the promotion and the user, turns the second away. Of all claims of a
promotion by one user, whatever their interleaving, at most one succeeds, and none that comes after
it (`claim_once`).

No promotion is removed that someone has claimed; nothing in the program removes one.
-/

namespace Pokerhub.Promotions

open List Program

/-- A row of `promotion_claims`; its two columns are its key. -/
structure ClaimKey where
  promotionId : String
  userId : String
  deriving DecidableEq

structure Store where
  /-- The titles of the promotions. -/
  promotions : String → Option String
  claims : List ClaimKey
  /-- The key of the table. -/
  key : claims.Nodup

/-- The row is inserted, unless there is one already or its promotion is missing. -/
def Store.insert (s : Store) (c : ClaimKey) : Option Store :=
  if h : c ∉ s.claims ∧ (s.promotions c.promotionId).isSome then
    some { s with claims := c :: s.claims, key := nodup_cons.mpr ⟨h.1, s.key⟩ }
  else none

inductive PromotionCmd where
  | findPromotion (id : String)
  | findClaim (c : ClaimKey)
  /-- It answers whether the row was inserted. -/
  | insertClaim (c : ClaimKey)
  deriving DecidableEq

abbrev PromotionCmd.Answer : PromotionCmd → Type
  | findPromotion _ => Option String
  | findClaim _ | insertClaim _ => Bool

def exec : (c : PromotionCmd) → Store → c.Answer × Store
  | .findPromotion id, s => (s.promotions id, s)
  | .findClaim c, s => (decide (c ∈ s.claims), s)
  | .insertClaim c, s =>
    match s.insert c with
    | some s' => (true, s')
    | none => (false, s)

inductive ClaimError where
  | notFound
  | conflict
  /-- The database refuses the row, or does not answer. -/
  | queryFailed
  deriving DecidableEq

abbrev PromotionM := Program PromotionCmd.Answer ClaimError

def promotionRun (c : PromotionCmd) : PromotionM c.Answer :=
  Program.command .queryFailed c

def claim (id userId : String) : PromotionM String := do
  match (← promotionRun (.findPromotion id) : Option String) with
  | none => throw .notFound
  | some title =>
    let alreadyClaimed : Bool ← promotionRun (.findClaim ⟨id, userId⟩)
    if alreadyClaimed then throw .conflict
    let inserted : Bool ← promotionRun (.insertClaim ⟨id, userId⟩)
    if !inserted then throw .queryFailed
    return "Promotion \"" ++ title ++ "\" claimed"

/-- A request, with whether the promotion was claimed when it came. -/
structure ClaimRequest where
  id : String
  userId : String
  claimedBefore : Bool
  deriving DecidableEq

def ClaimRequest.key (r : ClaimRequest) : ClaimKey := ⟨r.id, r.userId⟩

def service : Service PromotionCmd.Answer ClaimError String Store ClaimRequest where
  init _ := True
  ready s r := r.claimedBefore = decide (r.key ∈ s.claims)
  body r := claim r.id r.userId
  exec _ := exec
  fails _ _ := True
  env s s' := s'.claims = s.claims ∧ ∀ c ∈ s.claims, (s'.promotions c.promotionId).isSome

/-! ### Stages -/

/-- Whether the request has inserted its row. -/
structure Stage where
  key : ClaimKey
  inserted : Bool := false

def claims : Discipline PromotionCmd.Answer Stage where
  allowed
    | l, .insertClaim c => l.key = c ∧ l.inserted = false
    | _, _ => True
  next
    | l, .insertClaim _, some true => { l with inserted := true }
    | l, _, _ => l

/-- A request that succeeds has inserted its row. -/
def Succeeded : Except ClaimError String → Stage → Prop
  | .ok _, l => l.inserted = true
  | .error _, _ => True

lemma follows_body (r : ClaimRequest) :
    (service.body r).Follows claims Succeeded { key := r.key } := by
  refine follows_command_bind trivial (fun promotion => ?_) trivial
  cases promotion with
  | none => trivial
  | some title =>
    refine follows_command_bind trivial (fun alreadyClaimed => ?_) trivial
    cases alreadyClaimed with
    | true => trivial
    | false =>
      refine follows_command_bind ⟨rfl, rfl⟩ (fun inserted => ?_) trivial
      cases inserted with
      | true => exact rfl
      | false => trivial

/-! ### The invariant -/

def Stage.insertedKey (l : Stage) : Option ClaimKey :=
  if l.inserted then some l.key else none

/-- The rows that the requests have inserted. -/
def insertedKeys (ls : List (ClaimRequest × Stage)) : List ClaimKey :=
  ls.filterMap fun rl => rl.2.insertedKey

structure ClaimInv (s : Store) (ls : List (ClaimRequest × Stage)) : Prop where
  own : ∀ rl ∈ ls, rl.2.key = rl.1.key
  before : ∀ rl ∈ ls, rl.1.claimedBefore = true → rl.1.key ∈ s.claims
  fresh : ∀ rl ∈ ls, rl.2.inserted = true → rl.1.claimedBefore = false
  counted : ∀ c, (insertedKeys ls).count c ≤ s.claims.count c

section Invariant

variable {s s' : Store} {ls ls₁ ls₂ : List (ClaimRequest × Stage)} {r : ClaimRequest} {l : Stage}

lemma ClaimInv.start (h : ClaimInv s ls) (hr : r.claimedBefore = decide (r.key ∈ s.claims)) :
    ClaimInv s (ls ++ [(r, { key := r.key })]) := by
  constructor
  · intro rl hrl
    rcases mem_append.mp hrl with hrl | hrl
    · exact h.own rl hrl
    · rw [mem_singleton.mp hrl]
  · intro rl hrl hbefore
    rcases mem_append.mp hrl with hrl | hrl
    · exact h.before rl hrl hbefore
    · obtain rfl := mem_singleton.mp hrl
      exact of_decide_eq_true (hr.symm.trans hbefore)
  · intro rl hrl hinserted
    rcases mem_append.mp hrl with hrl | hrl
    · exact h.fresh rl hrl hinserted
    · obtain rfl := mem_singleton.mp hrl
      exact absurd hinserted Bool.false_ne_true
  · intro c
    have hnone : insertedKeys (ls ++ [(r, { key := r.key })]) = insertedKeys ls := by
      rw [insertedKeys, filterMap_append]
      exact append_nil _
    rw [hnone]
    exact h.counted c

/-- The row of a request is new. -/
lemma ClaimInv.insert (h : ClaimInv s (ls₁ ++ (r, l) :: ls₂)) (hl : l.inserted = false)
    (hs : s.insert l.key = some s') :
    ClaimInv s' (ls₁ ++ (r, { l with inserted := true }) :: ls₂) := by
  unfold Store.insert at hs
  split_ifs at hs with hnew
  obtain rfl := Option.some.inj hs
  have hmem : (r, l) ∈ ls₁ ++ (r, l) :: ls₂ := mem_append_right _ mem_cons_self
  have hkey : l.key = r.key := h.own _ hmem
  constructor
  · intro rl hrl
    rcases Service.mem_replaced (x := (r, l)) hrl with hrl | rfl
    · exact h.own rl hrl
    · exact hkey
  · intro rl hrl hbefore
    rcases Service.mem_replaced (x := (r, l)) hrl with hrl | rfl
    · exact mem_cons_of_mem _ (h.before rl hrl hbefore)
    · exact mem_cons_of_mem _ (h.before (r, l) hmem hbefore)
  · intro rl hrl hinserted
    rcases Service.mem_replaced (x := (r, l)) hrl with hrl | rfl
    · exact h.fresh rl hrl hinserted
    · refine Bool.eq_false_iff.mpr fun hbefore => hnew.1 ?_
      rw [hkey]
      exact h.before _ hmem hbefore
  · intro c
    have hold : insertedKeys (ls₁ ++ (r, l) :: ls₂) = insertedKeys ls₁ ++ insertedKeys ls₂ := by
      simp [insertedKeys, filterMap_append, Stage.insertedKey, hl]
    have hnow : insertedKeys (ls₁ ++ (r, { l with inserted := true }) :: ls₂) ~
        l.key :: (insertedKeys ls₁ ++ insertedKeys ls₂) := by
      simp only [insertedKeys, filterMap_append, filterMap_cons, Stage.insertedKey, if_true]
      exact perm_middle
    have hcount := h.counted c
    rw [hold] at hcount
    rw [hnow.count_eq, count_cons, count_cons]
    exact Nat.add_le_add_right hcount _

lemma ClaimInv.call (h : ClaimInv s (ls₁ ++ (r, l) :: ls₂)) {c : PromotionCmd}
    (hallowed : claims.allowed l c) :
    ClaimInv (exec c s).2 (ls₁ ++ (r, claims.next l c (some (exec c s).1)) :: ls₂) := by
  cases c with
  | findPromotion id => exact h
  | findClaim c => exact h
  | insertClaim c =>
    obtain ⟨rfl, hl⟩ := hallowed
    simp only [exec]
    cases hs : s.insert l.key with
    | none => exact h
    | some s' => exact h.insert hl hs

end Invariant

/-! ### Runs -/

/-- The request has succeeded. -/
def Returned : PromotionM String → Bool
  | .ret _ => true
  | _ => false

/-- Of all claims of a promotion by one user at most one succeeds; its row is there from then on,
and it was not there when the request came. -/
theorem claim_once {P : Pool PromotionCmd.Answer ClaimError String Store ClaimRequest}
    (h : service.system.Reachable P) :
    (∀ c, (P.threads.countP fun t => t.1.key = c ∧ Returned t.2) ≤ 1) ∧
      ∀ t ∈ P.threads, Returned t.2 = true →
        t.1.key ∈ P.state.claims ∧ t.1.claimedBefore = false := by
  have htrue : (service.system.restrict fun _ _ => True).Reachable P :=
    h.restrict_true fun _ _ => trivial
  obtain ⟨ls, hstaged, hinv⟩ := Service.staged_invariant (S := service) (D := claims)
    (Q := Succeeded) (I := ClaimInv) (fun _ _ _ => True) follows_body
    (fun _ _ _ _ _ _ => trivial)
    (fun s ls r hinv hready _ => hinv.start hready)
    (fun s ls₁ ls₂ r l c hinv hallowed _ => hinv.call hallowed)
    (fun s ls₁ ls₂ r l c hinv _ _ _ => by
      have hnone : claims.next l c none = l := by cases c <;> rfl
      rw [hnone]
      exact hinv)
    (fun s s' ls hinv henv _ => by
      obtain ⟨hclaims, -⟩ := henv
      exact ⟨hinv.own, hclaims ▸ hinv.before, hinv.fresh, hclaims ▸ hinv.counted⟩)
    (fun s _ => ⟨by simp, by simp, by simp, fun c => Nat.zero_le _⟩) htrue
  -- a request that has returned has inserted its row
  have hreturned : ∀ t : ClaimRequest × PromotionM String, ∀ rl ∈ ls, t.1 = rl.1 ∧
      t.2.Follows claims Succeeded rl.2 → Returned t.2 = true →
        rl.2.insertedKey = some t.1.key := by
    rintro ⟨r, p⟩ ⟨r', l⟩ hrl ⟨heq, hfollows⟩ hret
    obtain rfl : r = r' := heq
    cases p with
    | ret title =>
      have hinserted : l.inserted = true := hfollows
      rw [Stage.insertedKey, if_pos hinserted, hinv.own _ hrl]
    | raise e => exact absurd hret Bool.false_ne_true
    | call c next => exact absurd hret Bool.false_ne_true
  constructor
  · intro c
    have hle : (P.threads.countP fun t => t.1.key = c ∧ Returned t.2) ≤
        (insertedKeys ls).count c := by
      apply Service.countP_le_count hstaged
      rintro t rl hrl ht hp
      obtain ⟨hkey, hret⟩ := of_decide_eq_true hp
      rw [hreturned t rl hrl ht hret, hkey]
    exact Nat.le_trans hle
      (Nat.le_trans (hinv.counted c) (nodup_iff_count_le_one.mp P.state.key c))
  · intro t ht hret
    obtain ⟨ts₁, ts₂, hthreads⟩ := append_of_mem ht
    rw [hthreads] at hstaged
    obtain ⟨ls₁, rl, ls₂, rfl, -, hrl, -⟩ := Service.forall₂_middle hstaged
    have hmem : rl ∈ ls₁ ++ rl :: ls₂ := mem_append_right _ mem_cons_self
    have hkey := hreturned t rl hmem hrl hret
    constructor
    · have hcount : 0 < (insertedKeys (ls₁ ++ rl :: ls₂)).count t.1.key :=
        count_pos_iff.mpr (mem_filterMap.mpr ⟨rl, hmem, hkey⟩)
      exact count_pos_iff.mp (Nat.lt_of_lt_of_le hcount (hinv.counted t.1.key))
    · have hinserted : rl.2.inserted = true := by
        unfold Stage.insertedKey at hkey
        split_ifs at hkey with hins
        exact hins
      rw [hrl.1]
      exact hinv.fresh rl hmem hinserted

/-! ### Two requests at a time -/

instance (s : Store) (r : ClaimRequest) : Decidable (service.ready s r) :=
  inferInstanceAs (Decidable (r.claimedBefore = decide (r.key ∈ s.claims)))

instance (s : Store) (c : PromotionCmd) : Decidable (service.fails s c) :=
  isTrue trivial

def oneBonus : Store where
  promotions id := if id = "bonus" then some "Bonus" else none
  claims := []
  key := nodup_nil

/-- Two requests that both look for a claim before either inserts one, and a later one. -/
def threeClaims : List (Service.Move Store ClaimRequest) :=
  [.start ⟨"bonus", "u", false⟩, .start ⟨"bonus", "u", false⟩] ++ replicate 2 (.call 0) ++
    replicate 3 (.call 1) ++ [.call 0, .start ⟨"bonus", "u", true⟩] ++ replicate 2 (.call 2)

def afterThree : Pool PromotionCmd.Answer ClaimError String Store ClaimRequest :=
  service.playAll ⟨oneBonus, []⟩ threeClaims

/-- The second request succeeds. -/
theorem claim_once_three :
    (afterThree.threads.map fun t => t.2.outcome) =
        [some (.error .queryFailed), some (.ok "Promotion \"Bonus\" claimed"),
          some (.error .conflict)] ∧
      (afterThree.threads.countP fun t => t.1.key = ⟨"bonus", "u"⟩ ∧ Returned t.2) ≤ 1 := by
  have hreach : (service.system.restrict fun _ _ => True).Reachable afterThree :=
    Service.reachable_playAll_of_closed (S := service) trivial (by decide +kernel)
  exact ⟨rfl, (claim_once hreach.of_restrict).1 _⟩

end Pokerhub.Promotions
