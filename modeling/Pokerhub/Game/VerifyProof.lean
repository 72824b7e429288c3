import Pokerhub.Game.LogText

/-!
# The verifier of a hand

`verifyHandProof` of `bin/verify-proof.ts`, over what it fetches. It compares the shuffle of the
published seed with a deck that it takes from the log: the one of the first recorded pre-state. A
hand starts without a deck, so the comparison fails in every run (`verifyHandProof_reachable`).
-/

namespace Pokerhub

open GameEngine HandStateMachine TransitionSystem List

/-! ### Hexadecimal digits -/

def hexDigit? (c : Char) : Option ℕ :=
  if c.isDigit then some (c.toNat - '0'.toNat)
  else if 'a' ≤ c ∧ c ≤ 'f' then some (c.toNat - 'a'.toNat + 10)
  else if 'A' ≤ c ∧ c ≤ 'F' then some (c.toNat - 'A'.toNat + 10)
  else none

/-- The digits at the start of a text, up to the first other character. -/
def leadingDigits : Text → List ℕ
  | [] => []
  | c :: cs =>
    match hexDigit? c with
    | some d => d :: leadingDigits cs
    | none => []

def skipHexPrefix : Text → Text
  | '0' :: 'x' :: cs => cs
  | '0' :: 'X' :: cs => cs
  | cs => cs

/-- `parseInt(text, 16)`, with 0 for `NaN`, as an array of bytes stores it. -/
def parseInt16 (text : Text) : ℤ :=
  let digits := fun cs => ((leadingDigits (skipHexPrefix cs)).foldl (fun n d => 16 * n + d) 0 : ℕ)
  match text.dropWhile Json.isWhitespace with
  | '-' :: cs => -digits cs
  | '+' :: cs => digits cs
  | cs => digits cs

/-- The bytes of the pairs of characters. -/
def hexPairs : Text → List UInt8
  | c :: d :: cs => UInt8.ofNat (parseInt16 [c, d] % 256).toNat :: hexPairs cs
  | _ => []

def hexToBytes (hex : String) : List UInt8 :=
  hexPairs hex.toList

/-- The two digits of a byte. -/
def byteDigits (b : UInt8) : Text :=
  let digits := Nat.toDigits 16 b.toNat
  replicate (2 - digits.length) '0' ++ digits

lemma toList_bytesToHex (bytes : List UInt8) :
    (bytesToHex bytes).toList = bytes.flatMap byteDigits := by
  have hjoin : ∀ l : List String, (String.join l).toList = l.flatMap String.toList := by
    intro l
    induction l with
    | nil => rfl
    | cons s l ih => simp [ih]
  rw [bytesToHex, hjoin, flatMap_map]
  simp only [String.toList_ofList]
  rfl

lemma hexPairs_byteDigits (b : UInt8) :
    (byteDigits b).length = 2 ∧ hexPairs (byteDigits b) = [b] := by
  have hall : ∀ n : Fin 256, (byteDigits (UInt8.ofFin n)).length = 2 ∧
      hexPairs (byteDigits (UInt8.ofFin n)) = [UInt8.ofFin n] := by decide +kernel
  simpa using hall b.toFin

lemma hexPairs_append {cs : Text} (h : cs.length = 2) (rest : Text) :
    hexPairs (cs ++ rest) = hexPairs cs ++ hexPairs rest := by
  obtain ⟨c, d, rfl⟩ := length_eq_two.mp h
  rfl

/-- The bytes are read back from their digits. -/
theorem hexToBytes_bytesToHex (bytes : List UInt8) : hexToBytes (bytesToHex bytes) = bytes := by
  rw [hexToBytes, toList_bytesToHex]
  induction bytes with
  | nil => rfl
  | cons b bytes ih =>
    obtain ⟨hlen, hb⟩ := hexPairs_byteDigits b
    rw [flatMap_cons, hexPairs_append hlen, hb, ih, singleton_append]

/-! ### The verifier -/

/-- `v === card`, with `null` read as `undefined`. -/
def sameCard : Json → Option ℕ → Bool
  | .undefined, none | .null, none => true
  | .number n, some card => n = card
  | _, _ => false

/-- The loop over the lines of the log: the deck in the third place of an entry. -/
def deckIn : List Text → Option (List Json)
  | [] => none
  | line :: lines =>
    if line.head? = some '[' then
      match Json.parse line with
      | some entry =>
        match (entry.index 2).get "deck" with
        | .array d => some d
        | _ => deckIn lines
      | none => deckIn lines
    else deckIn lines

section Hash

variable (sha256 : List UInt8 → List UInt8)

def verifyProof (proof : HandProofResponse) : Bool :=
  hashCommitment sha256 (hexToBytes proof.seed) (hexToBytes proof.nonce) = proof.commitment

/-- `verifyHandProof`, with the bodies of the two answers; `none` is an answer that is not `ok`. -/
def verifyHandProof (proofRes : Option HandProofResponse) (logRes : Option Text) :
    Except String Unit := do
  let some proof := proofRes | throw "Failed to fetch proof"
  unless verifyProof sha256 proof do
    throw "Invalid proof: commitment mismatch"
  let some logText := logRes | throw "Failed to fetch log"
  let some deck := deckIn (Json.lines logText) | throw "Deck not found in log"
  let expected := shuffle sha256 standardDeck (hexToBytes proof.seed)
  unless deck.length = expected.length ∧ (deck.zip expected).all fun c => sameCard c.1 c.2 do
    throw "Deck mismatch"

end Hash

variable {sha256 : List UInt8 → List UInt8} {ids : List PlayerId} {startingStack : ℕ}

/-- The proof of an RNG opens its commitment. -/
lemma verifyProof_reveal {rng : HandRNG}
    (h : rng.commitment = hashCommitment sha256 rng.seed rng.nonce) :
    verifyProof sha256 (rng.reveal sha256) = true := by
  simp [verifyProof, HandRNG.reveal, hexToBytes_bytesToHex, h]

/-- A valid proof leaves it to the log. -/
lemma verifyHandProof_eq {proof : HandProofResponse} (h : verifyProof sha256 proof = true)
    (logText : Text) : verifyHandProof sha256 (some proof) (some logText) =
      match deckIn (Json.lines logText) with
      | none => .error "Deck not found in log"
      | some deck =>
        if deck.length = 52 ∧ (deck.zip (shuffle sha256 standardDeck (hexToBytes proof.seed))).all
            fun c => sameCard c.1 c.2 then .ok ()
        else .error "Deck mismatch" := by
  have hlen : (shuffle sha256 standardDeck (hexToBytes proof.seed)).length = 52 := by
    rw [length_shuffle, GameStateInternal.length_standardDeck]
  unfold verifyHandProof
  simp only [h, hlen]
  cases deckIn (Json.lines logText) with
  | none => rfl
  | some deck => split_ifs <;> rfl

/-! ### The deck that it finds -/

lemma deckIn_lines (ls : List LogLine) :
    deckIn (ls.map fun l => Json.stringify l.toJson) =
      (ls.filterMap LogLine.entry?).head?.map fun e =>
        e.preState.deck.map fun card : ℕ => Json.number card := by
  induction ls with
  | nil => rfl
  | cons l ls ih =>
    rw [map_cons, deckIn, Json.parse_stringify]
    cases l with
    | entry e =>
      have hstate : (Json.written (LogLine.entry e).toJson).index 2 =
          Json.written e.preState.toJson := rfl
      have hdeck : (Json.written e.preState.toJson).get "deck" =
          .array (e.preState.deck.map fun card : ℕ => Json.number card) := by
        rw [written_state_eq]
        rfl
      have hopen : (Json.stringify (LogLine.entry e).toJson).head? = some '[' := rfl
      simp only [hopen, if_true, hstate, hdeck]
      rfl
    | commitment c => exact ih
    | proof p => exact ih

lemma deckIn_fileText (log : HandLog) : deckIn (Json.lines log.fileText) =
    (log.lines.filterMap LogLine.entry?).head?.map fun e =>
      e.preState.deck.map fun card : ℕ => Json.number card := by
  rw [HandLog.fileText, Json.lines_file, map_map]
  exact deckIn_lines log.lines

/-- The third place of the column is an entry, not a state. -/
lemma deckIn_columnText (log : HandLog) : deckIn (Json.lines log.columnText) = none := by
  have hnone : (Json.index 2 (.array (log.entries.map fun e => Json.written e.toJson))).get
      "deck" = .undefined := by
    rcases hentry : log.entries[2]? with _ | e
    · simp [Json.index, hentry, Json.get]
    · simp [Json.index, hentry, HandLogEntry.toJson, Json.written, Json.get]
  rw [HandLog.columnText, Json.lines_stringify, deckIn, Json.parse_stringify, written_array_map]
  simp only [hnone, deckIn, ite_self]

/-! ### Over whole runs -/

/-- The first entry of the log was recorded at a table without a deck. -/
structure FirstEntry (sha256 : List UInt8 → List UInt8) (e : GameEngine) : Prop where
  commitment : e.rng.commitment = hashCommitment sha256 e.rng.seed e.rng.nonce
  waiting : e.log.entries = [] → e.machine.state.deck = []
  head : ∀ entry ∈ e.log.entries.head?, entry.preState.deck = []

theorem FirstEntry.step {r : EngineRun} (h : FirstEntry sha256 r.engine)
    (event : EngineEvent) : FirstEntry sha256 (r.step sha256 event).engine := by
  cases event with
  | action a =>
    have hrng := @GameEngine.afterAction_rng_eq sha256 r.engine a
    rcases @GameEngine.afterAction_log sha256 r.engine a with hstay | ⟨log, hlog, hrecord⟩
    · simpa only [EngineRun.step, hstay] using h
    · obtain ⟨hentries, -⟩ := HandLog.recordProof_kept hlog
      refine ⟨?_, fun hnone => ?_, fun entry hentry => ?_⟩
      · simp only [EngineRun.step, hrng]
        exact h.commitment
      · simp only [EngineRun.step, hrecord, HandLog.record] at hnone
        exact absurd hnone (append_ne_nil_of_right_ne_nil _ (cons_ne_nil _ _))
      · simp only [EngineRun.step, hrecord, HandLog.record, hentries] at hentry
        rcases hlist : r.engine.log.entries with _ | ⟨first, rest⟩
        · rw [hlist, nil_append, head?_cons, Option.mem_some_iff] at hentry
          rw [← hentry]
          exact h.waiting hlist
        · rw [hlist, cons_append, head?_cons] at hentry
          exact h.head entry (by rwa [hlist, head?_cons])
  | resume i ok =>
    have hentries := (HandLog.recordProof_kept (@GameEngine.resume_log sha256 r.engine i ok)).1
    have hmachine := @GameEngine.resume_machine sha256 r.engine i ok
    have hrng := @GameEngine.resume_rng sha256 r.engine i ok
    refine ⟨?_, fun hnone => ?_, fun entry hentry => ?_⟩
    · simp only [EngineRun.step, hrng]
      exact h.commitment
    · simp only [EngineRun.step, hmachine]
      exact h.waiting (hentries ▸ hnone)
    · exact h.head entry (hentries ▸ hentry)

lemma firstEntry_of_reachable {r : EngineRun}
    (h : (engineRuns sha256 ids startingStack).Reachable r) :
    FirstEntry sha256 r.engine := by
  refine h.invariant (I := fun r : EngineRun => FirstEntry sha256 r.engine) ?_ ?_
  · rintro _ ⟨seed, nonce, hasWallet, hasRepo, rfl⟩
    exact ⟨rfl, fun _ => rfl, by rintro entry ⟨⟩⟩
  · rintro r event _ hi rfl
    exact hi.step event

/-- The deck of the first entry has no cards. -/
lemma FirstEntry.verify_file {e : GameEngine} (h : FirstEntry sha256 e)
    (hlines : e.log.lines.filterMap LogLine.entry? = e.log.entries) :
    verifyHandProof sha256 (some (e.rng.reveal sha256)) (some e.log.fileText) =
      .error (if e.log.entries = [] then "Deck not found in log" else "Deck mismatch") := by
  rw [verifyHandProof_eq (verifyProof_reveal h.commitment), deckIn_fileText, hlines]
  rcases hlist : e.log.entries with _ | ⟨first, rest⟩
  · rfl
  · have hdeck := h.head first (by rw [hlist]; rfl)
    simp only [head?_cons, Option.map_some, hdeck, map_nil, length_nil]
    rfl

lemma FirstEntry.verify_column {e : GameEngine} (h : FirstEntry sha256 e) :
    verifyHandProof sha256 (some (e.rng.reveal sha256)) (some e.log.columnText) =
      .error "Deck not found in log" := by
  rw [verifyHandProof_eq (verifyProof_reveal h.commitment), deckIn_columnText]

/-- No hand of any run is verified: in the file there is no deck, or an empty one, and in the column
there is none. -/
theorem verifyHandProof_reachable {r : EngineRun}
    (h : (engineRuns sha256 ids startingStack).Reachable r) :
    verifyHandProof sha256 (some (r.engine.rng.reveal sha256)) (some r.engine.log.fileText) =
        .error (if r.engine.log.entries = [] then "Deck not found in log" else "Deck mismatch") ∧
      verifyHandProof sha256 (some (r.engine.rng.reveal sha256)) (some r.engine.log.columnText) =
        .error "Deck not found in log" := by
  have hfirst := firstEntry_of_reachable h
  exact ⟨hfirst.verify_file (logKept_of_reachable h).lines, hfirst.verify_column⟩

/-- The column of a settled hand. -/
theorem verifyHandProof_foldedHand :
    verifyHandProof zeroSeedHash (some (foldedHand.engine.rng.reveal zeroSeedHash))
      (some foldedHand.engine.log.columnText) = .error "Deck not found in log" :=
  (verifyHandProof_reachable reachable_foldedHand).2

/-- A hand that was played honestly to its end is verified in neither format. -/
theorem honest_hand_not_verified :
    ¬ ∀ (sha256 : List UInt8 → List UInt8) (ids : List PlayerId) (startingStack : ℕ)
      (r : EngineRun), 2 ≤ ids.length → ids.length ≤ 23 →
      (engineRuns sha256 ids startingStack).Reachable r →
      r.engine.machine.state.phase = .settle →
      verifyHandProof sha256 (some (r.engine.rng.reveal sha256)) (some r.engine.log.fileText) =
          .ok () ∨
        verifyHandProof sha256 (some (r.engine.rng.reveal sha256)) (some r.engine.log.columnText) =
          .ok () := by
  intro h
  have hfirst := firstEntry_of_reachable reachable_foldedHand
  have hlines := (logKept_of_reachable reachable_foldedHand).lines
  have hsettle : foldedHand.engine.machine.state.phase = .settle := by
    rw [foldedHand, zeroSeedRun, zeroRng, zeroSeedHash_eq]
    decide +kernel
  rcases h _ _ _ _ (by decide) (by decide) reachable_foldedHand hsettle with hok | hok
  · rw [hfirst.verify_file hlines] at hok
    cases hok
  · rw [hfirst.verify_column] at hok
    cases hok

end Pokerhub
