import Pokerhub.Game.Primary

/-!
# Reserved and committed settlements

A handler of the primary reserves the row of its turn, and commits that of the turn it has at the
end. A settled hand gets a `next` in between, and with it another turn. Where no hand is settled
every row is committed by the handler that has reserved it (`reservations_committed`).
-/

namespace Pokerhub

open GameEngine TransitionSystem List

/-- The turn whose row the handler has reserved and not committed. -/
def Handling.owed : Handling → Option Turn
  | .publish true turn | .settle true turn | .commit true turn => some turn
  | _ => none

/-- The hand is not settled. -/
def Primary.Unsettled (p : Primary) : Prop :=
  p.engine.machine.state.phase ≠ .settle

namespace SettlementService

variable {key : SettlementKey} {rows : List SettlementRow} {row : SettlementRow}

lemma mem_reserve (h : row ∈ reserve key rows) : row ∈ rows ∨ row.idempotencyKey = key := by
  unfold reserve at h
  split_ifs at h
  · exact Or.inl h
  · rcases mem_append.mp h with hrow | hrow
    · exact Or.inl hrow
    · rw [mem_singleton.mp hrow]
      exact Or.inr rfl

lemma mem_commit (h : row ∈ commit key rows) :
    row.status = .committed ∨ row ∈ rows ∧ row.idempotencyKey ≠ key := by
  obtain ⟨row, hrow, rfl⟩ := mem_map.mp h
  split_ifs with hkey
  · exact Or.inl rfl
  · by_cases heq : row.idempotencyKey = key
    · left
      cases hstatus : row.status with
      | committed => rfl
      | reserved => exact absurd ⟨heq, hstatus⟩ hkey
    · exact Or.inr ⟨hrow, heq⟩

end SettlementService

/-! ### What a handler does -/

section Handle

variable {sha256 : List UInt8 → List UInt8} {p : Primary} {seq : ℕ} {flag : Bool}
  {stage stage' : Handling} {t : Turn}

lemma handle_handId : (p.handle sha256 seq flag stage).1.handId = p.handId := by
  cases stage <;> simp only [Primary.handle]
  case answer => rfl
  all_goals split_ifs <;> try rfl
  all_goals split <;> rfl

/-- A handler reserves a row, commits what it has reserved, or keeps what it owes. -/
lemma handle_journal (hturn : ∀ t, stage.turn? = some t → t.state.phase ≠ .settle) :
    ((p.handle sha256 seq flag stage).1.journal = p.journal ∧
        ∀ t, stage.owed = some t →
          ∃ stage', (p.handle sha256 seq flag stage).2 = some stage' ∧ stage'.owed = some t) ∨
      (∃ t, stage.owed = none ∧
        (p.handle sha256 seq flag stage).1.journal =
          SettlementService.reserve (p.key t) p.journal ∧
        (p.handle sha256 seq flag stage).2 = some (.publish true t)) ∨
      ∃ t, stage.owed = some t ∧
        (p.handle sha256 seq flag stage).1.journal =
          SettlementService.commit (p.key t) p.journal := by
  cases stage with
  | dealt =>
    left
    simp only [Primary.handle]
    split_ifs
    · exact ⟨rfl, fun _ h => nomatch h⟩
    · exact ⟨rfl, fun _ h => nomatch h⟩
  | advance =>
    left
    simp only [Primary.handle]
    split_ifs
    · split
      · exact ⟨rfl, fun _ h => nomatch h⟩
      · exact ⟨rfl, fun _ h => nomatch h⟩
    · exact ⟨rfl, fun _ h => nomatch h⟩
  | reserve turn =>
    cases flag with
    | true => exact Or.inr (Or.inl ⟨turn, rfl, rfl, rfl⟩)
    | false => exact Or.inl ⟨rfl, fun _ h => nomatch h⟩
  | publish enabled turn =>
    left
    cases enabled with
    | true => exact ⟨rfl, fun t ht => ⟨_, rfl, ht⟩⟩
    | false => exact ⟨rfl, fun _ h => nomatch h⟩
  | settle enabled turn =>
    left
    have hsame : p.handle sha256 seq flag (.settle enabled turn) =
        (p, some (.commit enabled turn)) := if_neg (hturn turn rfl)
    rw [hsame]
    cases enabled with
    | true => exact ⟨rfl, fun t ht => ⟨_, rfl, ht⟩⟩
    | false => exact ⟨rfl, fun _ h => nomatch h⟩
  | commit enabled turn =>
    cases enabled with
    | true => exact Or.inr (Or.inr ⟨turn, rfl, rfl⟩)
    | false => exact Or.inl ⟨rfl, fun _ h => nomatch h⟩
  | answer turn => exact Or.inl ⟨rfl, fun _ h => nomatch h⟩

lemma turn_handling {e : GameEngine} (h : e.handling.turn? = some t) :
    t.state.phase = e.machine.state.phase := by
  unfold handling at h
  split_ifs at h
  · cases h
  · cases h
    rfl

/-- The turn of a handler is the one it has had, or one that it has just read. -/
lemma turn_handle (hnext : (p.handle sha256 seq flag stage).2 = some stage')
    (h : stage'.turn? = some t) :
    stage.turn? = some t ∨
      t.state.phase = (p.handle sha256 seq flag stage).1.engine.machine.state.phase := by
  cases stage with
  | dealt =>
    right
    simp only [Primary.handle] at hnext ⊢
    split_ifs at hnext ⊢
    · cases hnext
      exact turn_handling h
    · cases hnext
      cases h
      rfl
  | advance =>
    right
    simp only [Primary.handle] at hnext ⊢
    split_ifs at hnext ⊢
    · split at hnext
      · cases hnext
      · cases hnext
        exact turn_handling h
    · cases hnext
      cases h
      rfl
  | reserve turn =>
    left
    cases flag <;>
    · cases hnext
      exact h
  | publish enabled turn =>
    left
    cases hnext
    exact h
  | settle enabled turn =>
    simp only [Primary.handle] at hnext ⊢
    split_ifs at hnext ⊢
    · split at hnext
      · cases hnext
      · cases hnext
        cases h
        exact Or.inr rfl
    · left
      cases hnext
      exact h
  | commit enabled turn =>
    left
    cases enabled <;>
    · cases hnext
      exact h
  | answer turn => cases hnext

end Handle

/-! ### Over whole runs -/

/-- What is not committed is owed, and no handler has found the hand settled. -/
structure Primary.Owing (p : Primary) : Prop where
  turns : ∀ h ∈ p.handlers, ∀ t, h.2.turn? = some t → t.state.phase ≠ .settle
  rows : ∀ row ∈ p.journal, row.status = .committed ∨
    ∃ h ∈ p.handlers, ∃ t, h.2.owed = some t ∧ p.key t = row.idempotencyKey

section Run

variable {sha256 : List UInt8 → List UInt8} {ids : List PlayerId} {p : Primary}

lemma Primary.Owing.receive (h : p.Owing) {seq : ℕ} {seed nonce : List UInt8} {msg : RoomMessage}
    (hunsettled : (p.receive sha256 seq seed nonce msg).Unsettled) :
    (p.receive sha256 seq seed nonce msg).Owing := by
  by_cases hmsg : ∃ a, msg = .apply a
  · obtain ⟨a, rfl⟩ := hmsg
    rcases @Primary.receive_apply sha256 p seq seed nonce a with hstay | ⟨stage, hstep, hstage⟩
    · rw [hstay]
      exact h
    · rw [hstep] at hunsettled ⊢
      refine ⟨?_, ?_⟩
      · intro handler hmem t ht
        rcases mem_append.mp hmem with hmem | hmem
        · exact h.turns handler hmem t ht
        · obtain rfl := mem_singleton.mp hmem
          rcases hstage with rfl | rfl
          · cases ht
          · rw [turn_handling ht]
            exact hunsettled
      · intro row hrow
        rcases h.rows row hrow with hcommitted | ⟨handler, hmem, howed⟩
        · exact Or.inl hcommitted
        · exact Or.inr ⟨handler, mem_append_left _ hmem, howed⟩
  · obtain ⟨posted, hstep⟩ := @Primary.receive_other sha256 p seq seed nonce msg
      fun a ha => hmsg ⟨a, ha⟩
    rw [hstep]
    exact ⟨h.turns, h.rows⟩

lemma Primary.Owing.proceed (h : p.Owing) {i : ℕ} {flag : Bool}
    (hunsettled : (p.proceed sha256 i flag).Unsettled) : (p.proceed sha256 i flag).Owing := by
  rcases @Primary.proceed_cases sha256 p i flag with
    hstay | ⟨hs₁, seq, stage, hs₂, -, hhandlers, hstep⟩
  · rw [hstay]
    exact h
  · rw [hstep] at hunsettled ⊢
    have hmem : ∀ handler, (handler ∈ hs₁ ∨ handler ∈ hs₂) ∨ handler = (seq, stage) →
        handler ∈ p.handlers := fun handler hin => hhandlers ▸ mem_handlers.mpr hin
    have hturn := h.turns _ (hmem _ (Or.inr rfl))
    refine ⟨?_, ?_⟩
    · intro handler hhandler t ht
      rcases mem_handlers_next.mp hhandler with hother | ⟨stage', hnext, rfl⟩
      · exact h.turns handler (hmem handler (Or.inl hother)) t ht
      · rcases turn_handle hnext ht with hold | hread
        · exact hturn t hold
        · rw [hread]
          exact hunsettled
    · intro row hrow
      have hkey : ∀ t, Primary.key { (p.handle sha256 seq flag stage).1 with
          handlers := hs₁ ++ ((p.handle sha256 seq flag stage).2.map
            fun stage => (seq, stage)).toList ++ hs₂ } t = p.key t := by
        intro t
        rw [Primary.key, Primary.key, handle_handId]
      simp only [hkey]
      -- what another handler owes it still owes
      have hothers : ∀ row ∈ p.journal, row.status = .committed ∨
          (∃ handler ∈ hs₁ ++ ((p.handle sha256 seq flag stage).2.map
              fun stage => (seq, stage)).toList ++ hs₂, ∃ t,
            handler.2.owed = some t ∧ p.key t = row.idempotencyKey) ∨
          ∃ t, stage.owed = some t ∧ p.key t = row.idempotencyKey := by
        intro row hrow
        rcases h.rows row hrow with hcommitted | ⟨handler, hhandler, t, ht, hrowkey⟩
        · exact Or.inl hcommitted
        · rw [hhandlers] at hhandler
          rcases mem_handlers.mp hhandler with hother | rfl
          · exact Or.inr (Or.inl ⟨handler, mem_handlers_next.mpr (Or.inl hother), t, ht, hrowkey⟩)
          · exact Or.inr (Or.inr ⟨t, ht, hrowkey⟩)
      rcases @handle_journal sha256 p seq flag stage hturn with
        ⟨hjournal, hkeep⟩ | ⟨t, hnone, hjournal, hnext⟩ | ⟨t, hsome, hjournal⟩
      · rw [hjournal] at hrow
        rcases hothers row hrow with hcommitted | howed | ⟨t, ht, hrowkey⟩
        · exact Or.inl hcommitted
        · exact Or.inr howed
        · obtain ⟨stage', hnext, howed⟩ := hkeep t ht
          exact Or.inr ⟨_, mem_handlers_next.mpr (Or.inr ⟨stage', hnext, rfl⟩), t, howed, hrowkey⟩
      · rw [hjournal] at hrow
        rcases SettlementService.mem_reserve hrow with hrow | hrowkey
        · rcases hothers row hrow with hcommitted | howed | ⟨t', ht', -⟩
          · exact Or.inl hcommitted
          · exact Or.inr howed
          · rw [hnone] at ht'
            cases ht'
        · exact Or.inr ⟨_, mem_handlers_next.mpr (Or.inr ⟨_, hnext, rfl⟩), t, rfl, hrowkey.symm⟩
      · rw [hjournal] at hrow
        rcases SettlementService.mem_commit hrow with hcommitted | ⟨hrow, hne⟩
        · exact Or.inl hcommitted
        · rcases hothers row hrow with hcommitted | howed | ⟨t', ht', hrowkey⟩
          · exact Or.inl hcommitted
          · exact Or.inr howed
          · rw [hsome] at ht'
            cases ht'
            exact absurd hrowkey.symm hne

end Run

/-! ### A settled hand -/

instance (p : Primary) : Decidable p.Unsettled :=
  inferInstanceAs (Decidable (p.engine.machine.state.phase ≠ .settle))

def newPrimary : Primary where
  handId := "h1"
  engine := .create ["p1", "p2"] 100 zeroRng false false

/-- An `apply` message whose handler goes on `n` times, with every flag on. -/
def applied (seq : ℕ) (a : GameAction) (n : ℕ) : List PrimaryEvent :=
  .receive seq [] [] (.apply a) :: replicate n (.proceed 0 true)

def blindPosted : Primary :=
  (applied 1 (.postBlind "p1" 1) 5).foldl (Primary.step zeroSeedHash) newPrimary

/-- Two blinds, a deal and a fold. -/
def handFolded : Primary :=
  (applied 1 (.postBlind "p1" 1) 5 ++ applied 2 (.postBlind "p2" 2) 7 ++
    applied 3 (.fold "p1") 5).foldl (Primary.step zeroSeedHash) newPrimary

end Pokerhub
