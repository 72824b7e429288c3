import Pokerhub.Core.Json
import Pokerhub.Game.CommitReveal

/-!
# The hand log as a text

The two formats in which the log of a hand is kept, the file of `hand-log.ts` with one JSON text a
line and the `log` column of `engine/index.ts` with the entries as one JSON array, and the readers
of `hand.controller.ts`. The readers go through the lines of a text, and to them the column is a
single entry; the file gives back the entries, as long as no card in them is `undefined`
(`decodes_iff`).
-/

namespace Pokerhub

open GameStateInternal GameEngine HandStateMachine TransitionSystem List

/-! ### Values -/

def Street.toJson : Street → Json
  | .preflop => .string "preflop"
  | .flop => .string "flop"
  | .turn => .string "turn"
  | .river => .string "river"
  | .showdown => .string "showdown"

def HandPhase.toJson : HandPhase → Json
  | .waitBlinds => .string "WAIT_BLINDS"
  | .deal => .string "DEAL"
  | .bettingRound => .string "BETTING_ROUND"
  | .showdown => .string "SHOWDOWN"
  | .settle => .string "SETTLE"
  | .nextHand => .string "NEXT_HAND"

def GameAction.toJson : GameAction → Json
  | .postBlind playerId amount => .object
      [("type", .string "postBlind"), ("playerId", .string playerId), ("amount", .number amount)]
  | .bet playerId amount => .object
      [("type", .string "bet"), ("playerId", .string playerId), ("amount", .number amount)]
  | .raise playerId amount => .object
      [("type", .string "raise"), ("playerId", .string playerId), ("amount", .number amount)]
  | .call playerId (some amount) => .object
      [("type", .string "call"), ("playerId", .string playerId), ("amount", .number amount)]
  | .call playerId none => .object [("type", .string "call"), ("playerId", .string playerId)]
  | .check playerId => .object [("type", .string "check"), ("playerId", .string playerId)]
  | .fold playerId => .object [("type", .string "fold"), ("playerId", .string playerId)]
  | .next => .object [("type", .string "next")]

/-- A card, or `undefined`. -/
def cardJson : Option ℕ → Json
  | some card => .number card
  | none => .undefined

def PlayerStateInternal.toJson (p : PlayerStateInternal) : Json :=
  .object <|
    [("id", .string p.id), ("stack", .number p.stack), ("folded", .bool p.folded),
      ("bet", .number p.bet), ("allIn", .bool p.allIn)] ++
    (match p.holeCards with
      | some cards => [("holeCards", .array (cards.map cardJson))]
      | none => [])

def SidePot.toJson (pot : SidePot) : Json :=
  .object
    [("amount", .number pot.amount), ("players", .array (pot.players.map .string)),
      ("contributions", .object (pot.contributions.map fun c => (c.1, .number c.2)))]

def GameStateInternal.toJson (s : GameStateInternal) : Json :=
  .object
    [("phase", s.phase.toJson), ("street", s.street.toJson), ("pot", .number s.pot),
      ("sidePots", .array (s.sidePots.map (·.toJson))), ("currentBet", .number s.currentBet),
      ("players", .array (s.players.map (·.toJson))),
      ("deck", .array (s.deck.map fun card : ℕ => .number card)),
      ("communityCards", .array (s.communityCards.map fun card : ℕ => .number card))]

def HandLogEntry.toJson (entry : HandLogEntry) : Json :=
  .array [.number entry.index, entry.action.toJson, entry.preState.toJson, entry.postState.toJson]

def HandProofResponse.toJson (proof : HandProofResponse) : Json :=
  .object
    [("commitment", .string proof.commitment), ("seed", .string proof.seed),
      ("nonce", .string proof.nonce), ("deck", .array (proof.deck.map cardJson))]

def LogLine.toJson : LogLine → Json
  | .commitment c => .object [("commitment", .string c)]
  | .entry e => e.toJson
  | .proof p => .object [("proof", p.toJson)]

namespace HandLog

/-- The file, once it is flushed. -/
def fileText (log : HandLog) : Text :=
  Json.file (log.lines.map (·.toJson))

/-- `JSON.stringify(getHandLog())`. -/
def columnText (log : HandLog) : Text :=
  Json.stringify (.array (log.entries.map (·.toJson)))

end HandLog

/-! ### The readers -/

namespace HandController

/-- The log that `parseHandLog` builds; its entries are what the lines hold. -/
structure ParsedLog where
  entries : List Json := []
  commitment : Option Json := none
  proof : Option Json := none

namespace ParsedLog

/-- One line of `parseHandLog`; what is thrown is caught and the line skipped. -/
def addLine (log : ParsedLog) (line : Text) : ParsedLog :=
  match Json.parse line with
  | none => log
  | some (.array xs) => { log with entries := log.entries ++ [.array xs] }
  | some parsed =>
    if parsed.isNullish then log
    else if (parsed.get "commitment").truthy then
      { log with commitment := some (parsed.get "commitment") }
    else if (parsed.get "proof").truthy then { log with proof := some (parsed.get "proof") }
    else log

/-- `reconstruct`; an entry is an array. -/
def reconstruct (log : ParsedLog) (i : ℕ) : Option Json :=
  log.entries[i]?.map (·.index 3)

end ParsedLog

def parseHandLog (raw : Text) : ParsedLog :=
  (Json.lines raw).foldl ParsedLog.addLine {}

/-- The loop over the players of a state, up to the first one without properties. -/
def playerIdsOf : List Json → List Json × Bool
  | [] => ([], true)
  | p :: ps =>
    if p.isNullish then ([], false)
    else ((p.get "id") :: (playerIdsOf ps).1, (playerIdsOf ps).2)

/-- The loop of `extractParticipants`; `seen` holds the ids that were added. -/
def participantsIn (seen : List Json) : List Text → List Json
  | [] => seen
  | line :: lines =>
    match Json.parse line with
    | some (.array xs) =>
      let state := Json.index 2 (.array xs)
      if state.isNullish then participantsIn seen lines
      else
        match state.get "players" with
        | Json.array ps =>
          let ids := playerIdsOf ps
          if ids.2 then seen ++ ids.1 else participantsIn (seen ++ ids.1) lines
        | _ => participantsIn seen lines
    | _ => participantsIn seen lines

def extractParticipants (raw : Text) : List Json :=
  participantsIn [] (Json.lines raw)

/-- Where the log of a hand is kept. -/
structure LogStore where
  file : Option Text
  /-- The `log` column of the hand's row. -/
  column : Option Text

inductive HttpError where
  | notFound (message : String)
  | unauthorized
  | forbidden
  deriving DecidableEq

def loadHandLog (store : LogStore) : Except HttpError ParsedLog :=
  match store.file with
  | some raw => .ok (parseHandLog raw)
  | none =>
    match store.column with
    | some raw => if raw = [] then .error (.notFound "log not found") else .ok (parseHandLog raw)
    | none => .error (.notFound "log not found")

def getParticipants (store : LogStore) : List Json :=
  match store.file with
  | some raw => extractParticipants raw
  | none =>
    match store.column with
    | some raw => extractParticipants raw
    | none => []

end HandController

/-! ### What is written -/

section Written

open Json

@[simp] lemma written_street (street : Street) : written street.toJson = street.toJson := by
  cases street <;> rfl

@[simp] lemma written_phase (phase : HandPhase) : written phase.toJson = phase.toJson := by
  cases phase <;> rfl

@[simp] lemma isDefined_street (street : Street) : isDefined street.toJson = true := by
  cases street <;> rfl

@[simp] lemma isDefined_phase (phase : HandPhase) : isDefined phase.toJson = true := by
  cases phase <;> rfl

@[simp] lemma written_action (a : GameAction) : written a.toJson = a.toJson := by
  cases a with
  | call playerId amount => cases amount <;> rfl
  | _ => rfl

lemma array_map_congr {α : Type*} {f g : α → Json} {xs : List α} :
    array (xs.map f) = array (xs.map g) ↔ ∀ x ∈ xs, f x = g x := by
  rw [array.injEq, map_inj_left]

lemma written_array_map {α : Type*} (f : α → Json) (xs : List α) :
    written (array (xs.map f)) = array (xs.map fun x => written (f x)) := by
  rw [written, writtenElements_eq, map_map]
  rfl

lemma written_cards (cards : List (Option ℕ)) :
    written (array (cards.map cardJson)) = array (cards.map cardJson) ↔ none ∉ cards := by
  rw [written_array_map, array_map_congr]
  constructor
  · intro h hnone
    cases h none hnone
  · intro h card hcard
    cases card with
    | some card => rfl
    | none => exact absurd hcard h

/-- No card of the player is `undefined`. -/
def PlayerStateInternal.CardsDefined (p : PlayerStateInternal) : Prop :=
  ∀ cards ∈ p.holeCards, none ∉ cards

/-- No hole card is `undefined`. -/
def GameStateInternal.CardsDefined (s : GameStateInternal) : Prop :=
  ∀ p ∈ s.players, p.CardsDefined

def HandLogEntry.CardsDefined (entry : HandLogEntry) : Prop :=
  entry.preState.CardsDefined ∧ entry.postState.CardsDefined

lemma written_player (p : PlayerStateInternal) :
    written p.toJson = p.toJson ↔ p.CardsDefined := by
  obtain ⟨id, stack, folded, bet, allIn, holeCards⟩ := p
  cases holeCards with
  | none => simp [PlayerStateInternal.toJson, PlayerStateInternal.CardsDefined, written,
      writtenMembers]
  | some cards =>
    have hcards := written_cards cards
    rw [written] at hcards
    simp [PlayerStateInternal.toJson, PlayerStateInternal.CardsDefined, written, writtenMembers,
      hcards]

lemma written_sidePot (pot : SidePot) : written pot.toJson = pot.toJson := by
  have hmembers : ∀ cs : List (PlayerId × ℤ),
      writtenMembers (cs.map fun c => (c.1, number c.2)) = cs.map fun c => (c.1, number c.2) := by
    intro cs
    rw [writtenMembers_eq, filter_eq_self.mpr (forall_mem_map.mpr fun _ _ => rfl), map_map]
    rfl
  have hplayers := written_array_map Json.string pot.players
  rw [written] at hplayers
  simp [SidePot.toJson, written, writtenMembers, hmembers]
  simpa [written] using hplayers

lemma written_state (s : GameStateInternal) : written s.toJson = s.toJson ↔ s.CardsDefined := by
  simp [GameStateInternal.toJson, written, writtenMembers_eq, writtenElements_eq, filter_cons,
    written_sidePot, written_player, GameStateInternal.CardsDefined]

lemma written_entry (entry : HandLogEntry) :
    written entry.toJson = entry.toJson ↔ entry.CardsDefined := by
  simp [HandLogEntry.toJson, HandLogEntry.CardsDefined, written, writtenElements, written_state]

lemma written_state_eq (s : GameStateInternal) : written s.toJson =
    object
      [("phase", s.phase.toJson), ("street", s.street.toJson), ("pot", number s.pot),
        ("sidePots", array (s.sidePots.map (·.toJson))), ("currentBet", number s.currentBet),
        ("players", array (s.players.map fun p => written p.toJson)),
        ("deck", array (s.deck.map fun card : ℕ => number card)),
        ("communityCards", array (s.communityCards.map fun card : ℕ => number card))] := by
  simp [GameStateInternal.toJson, written, writtenMembers_eq, writtenElements_eq, filter_cons,
    written_sidePot]

/-- What a line holds, if it is an entry. -/
def LogLine.entry? : LogLine → Option HandLogEntry
  | .entry e => some e
  | _ => none

end Written

/-! ### Reading the file -/

namespace HandController

open Json

lemma addLine_toJson (log : ParsedLog) (l : LogLine) :
    (log.addLine (stringify l.toJson)).entries =
      log.entries ++ (l.entry?.map fun e => written e.toJson).toList := by
  rw [ParsedLog.addLine, parse_stringify]
  cases l with
  | entry e => rfl
  | commitment c =>
    simp only [LogLine.toJson, written, writtenMembers, isNullish]
    split_ifs <;> simp [LogLine.entry?]
  | proof p =>
    simp only [LogLine.toJson, HandProofResponse.toJson, written, writtenMembers, isNullish]
    split_ifs <;> simp [LogLine.entry?]

lemma foldl_addLine (ls : List LogLine) (log : ParsedLog) :
    ((ls.map fun l => stringify l.toJson).foldl ParsedLog.addLine log).entries =
      log.entries ++ (ls.filterMap LogLine.entry?).map fun e => written e.toJson := by
  induction ls generalizing log with
  | nil => simp
  | cons l ls ih =>
    rw [map_cons, foldl_cons, ih, addLine_toJson]
    cases h : l.entry? with
    | none => simp [h]
    | some e => simp [h]

/-- The file is read back entry by entry. -/
lemma parse_fileText (log : HandLog) : (parseHandLog log.fileText).entries =
    (log.lines.filterMap LogLine.entry?).map fun e => written e.toJson := by
  rw [parseHandLog, HandLog.fileText, lines_file, map_map]
  exact foldl_addLine log.lines {}

/-- The column is read as one entry. -/
lemma parse_columnText (log : HandLog) : (parseHandLog log.columnText).entries =
    [array (log.entries.map fun e => written e.toJson)] := by
  rw [parseHandLog, HandLog.columnText, lines_stringify, foldl_cons, foldl_nil,
    ParsedLog.addLine, parse_stringify, written_array_map]
  rfl

lemma get_id_player (p : PlayerStateInternal) : (written p.toJson).get "id" = string p.id := by
  obtain ⟨id, stack, folded, bet, allIn, holeCards⟩ := p
  cases holeCards <;> rfl

lemma isNullish_player (p : PlayerStateInternal) : (written p.toJson).isNullish = false := rfl

lemma playerIdsOf_players (ps : List PlayerStateInternal) :
    playerIdsOf (ps.map fun p => written p.toJson) = (ps.map fun p => string p.id, true) := by
  induction ps with
  | nil => rfl
  | cons p ps ih =>
    rw [map_cons, playerIdsOf, ih, isNullish_player, if_neg Bool.false_ne_true, get_id_player,
      map_cons]

/-- The participants are the players of the first entry. -/
lemma participantsIn_lines (ls : List LogLine) :
    participantsIn [] (ls.map fun l => stringify l.toJson) =
      ((ls.filterMap LogLine.entry?).head?.map fun e =>
        e.preState.players.map fun p => string p.id).getD [] := by
  induction ls with
  | nil => rfl
  | cons l ls ih =>
    rw [map_cons, participantsIn, parse_stringify]
    cases l with
    | entry e =>
      obtain ⟨xs, hxs⟩ : ∃ xs, written (LogLine.entry e).toJson = array xs := ⟨_, rfl⟩
      have hstate : Json.index 2 (array xs) = written e.preState.toJson := by
        rw [← hxs]
        rfl
      have hplayers : (written e.preState.toJson).get "players" =
          array (e.preState.players.map fun p => written p.toJson) := by
        rw [written_state_eq]
        rfl
      have hobject : (written e.preState.toJson).isNullish = false := rfl
      rw [hxs]
      simp only [hstate, hobject, Bool.false_eq_true, if_false, hplayers, playerIdsOf_players,
        if_true, nil_append]
      simp [LogLine.entry?]
    | commitment c => exact ih
    | proof p => exact ih

lemma extractParticipants_fileText (log : HandLog) : extractParticipants log.fileText =
    ((log.lines.filterMap LogLine.entry?).head?.map fun e =>
      e.preState.players.map fun p => string p.id).getD [] := by
  rw [extractParticipants, HandLog.fileText, lines_file, map_map]
  exact participantsIn_lines log.lines

/-- No property of an array is called `players`. -/
lemma extractParticipants_columnText (log : HandLog) : extractParticipants log.columnText = [] := by
  have hnone : (Json.index 2 (array (log.entries.map fun e => written e.toJson))).get "players" =
      undefined := by
    rcases hentry : log.entries[2]? with _ | e
    · simp [Json.index, hentry, Json.get]
    · simp [Json.index, hentry, HandLogEntry.toJson, written, Json.get]
  rw [extractParticipants, HandLog.columnText, lines_stringify, participantsIn, parse_stringify,
    written_array_map]
  simp only [hnone, participantsIn, ite_self]

end HandController

/-! ### The log over whole runs -/

/-- The file has the entries of the log, each with the players of the hand before the action. -/
structure LogKept (ids : List PlayerId) (e : GameEngine) : Prop where
  lines : e.log.lines.filterMap LogLine.entry? = e.log.entries
  players : ∀ entry ∈ e.log.entries, entry.preState.players.map (·.id) = ids
  table : e.machine.state.players.map (·.id) = ids

section Run

variable {sha256 : List UInt8 → List UInt8} {ids : List PlayerId} {startingStack : ℕ}

lemma HandLog.recordProof_kept {log log' : HandLog}
    (h : log' = log ∨ ∃ p, log' = log.recordProof p) :
    log'.entries = log.entries ∧
      log'.lines.filterMap LogLine.entry? = log.lines.filterMap LogLine.entry? := by
  rcases h with rfl | ⟨p, rfl⟩
  · exact ⟨rfl, rfl⟩
  · exact ⟨rfl, by simp [HandLog.recordProof, LogLine.entry?]⟩

theorem LogKept.step {r : EngineRun} (h : LogKept ids r.engine) (event : EngineEvent) :
    LogKept ids (r.step sha256 event).engine := by
  cases event with
  | action a =>
    have htable := (@GameEngine.afterAction_map_id sha256 r.engine a).trans h.table
    rcases @GameEngine.afterAction_log sha256 r.engine a with hstay | ⟨log, hlog, hrecord⟩
    · simpa only [EngineRun.step, hstay] using h
    · obtain ⟨hentries, hlines⟩ := HandLog.recordProof_kept hlog
      refine ⟨?_, fun entry hentry => ?_, htable⟩
      · simp only [EngineRun.step, hrecord, HandLog.record, filterMap_append, hlines, h.lines,
          hentries]
        rfl
      · simp only [EngineRun.step, hrecord, HandLog.record, hentries, mem_append,
          mem_singleton] at hentry
        rcases hentry with hentry | rfl
        · exact h.players entry hentry
        · exact h.table
  | resume i ok =>
    obtain ⟨hentries, hlines⟩ :=
      HandLog.recordProof_kept (@GameEngine.resume_log sha256 r.engine i ok)
    refine ⟨?_, fun entry hentry => ?_, ?_⟩
    · exact hlines.trans (h.lines.trans hentries.symm)
    · exact h.players entry (hentries ▸ hentry)
    · exact (congrArg (fun m : HandStateMachine => m.state.players.map (·.id))
        (r.engine.resume_machine i ok)).trans h.table

lemma logKept_of_reachable {r : EngineRun} (h : (engineRuns sha256 ids startingStack).Reachable r) :
    LogKept ids r.engine := by
  refine h.invariant (I := fun r : EngineRun => LogKept ids r.engine) ?_ ?_
  · rintro _ ⟨seed, nonce, hasWallet, hasRepo, rfl⟩
    refine ⟨rfl, forall_mem_nil _, ?_⟩
    simp [GameEngine.create, HandStateMachine.initial, Function.comp_def]
  · rintro r event _ hi rfl
    exact hi.step event

end Run

/-! ### Tables of at most 26 players -/

lemma cardsDefined_iff (s : GameStateInternal) :
    s.CardsDefined ↔ ∀ h ∈ s.cardView.1, ∀ cards ∈ h, none ∉ cards := by
  simp [GameStateInternal.CardsDefined, PlayerStateInternal.CardsDefined, cardView]

lemma cardsDefined_of_view {s s' : GameStateInternal} (h : s'.cardView = s.cardView)
    (hs : s.CardsDefined) : s'.CardsDefined := by
  rw [cardsDefined_iff, h]
  exact (cardsDefined_iff s).mp hs

/-- At most 26 players are dealt cards of the deck. -/
lemma cardsDefined_startHand (shuffle : Shuffle) {s : GameStateInternal}
    (hlen : s.players.length ≤ 26) : (s.startHand shuffle).CardsDefined := by
  have hdeck := available_length_le shuffle ∅
  have hshoe : (standardDeck.filter (· ∉ (∅ : Finset ℕ))).length = 52 := by decide
  obtain ⟨hhole, -⟩ := @dealHoleCards_spec s.players (buildDeck shuffle ∅) (by omega)
  intro p hp cards hcards
  obtain ⟨a, b, hab⟩ := hhole p hp
  rw [hab] at hcards
  obtain rfl := Option.mem_some_iff.mp hcards
  simp

theorem Step.cardsDefined {shuffle : Shuffle} {a : GameAction} {m m' : HandStateMachine}
    (hstep : Step shuffle m a m') (hlen : m.state.players.length ≤ 26)
    (h : m.state.CardsDefined) : m'.state.CardsDefined := by
  cases hstep with
  | postBlind id amount p => exact cardsDefined_of_view (cardView_addBet _ p amount) h
  | lastBlind id amount p =>
    apply cardsDefined_startHand
    simpa [addBet, updatePlayer] using hlen
  | deal => split_ifs <;> exact h
  | chips id amount p =>
    exact cardsDefined_of_view ((cardView_closeIfAlone _).trans (cardView_addBet _ p amount)) h
  | check => exact cardsDefined_of_view (cardView_closeIfAlone _) h
  | fold id p =>
    exact cardsDefined_of_view ((cardView_closeIfAlone _).trans (cardView_fold _ p.id)) h
  | next => exact cardsDefined_of_view (cardView_closeStreet _) h
  | showdown => exact cardsDefined_of_view (cardView_settlePots m.state) h
  | settle =>
    intro p hp cards hcards
    obtain ⟨q, -, rfl⟩ := mem_map.mp hp
    cases hcards

/-- The state of the machine and of every entry has no card that is `undefined`. -/
structure CardsKept (e : GameEngine) : Prop where
  state : e.machine.state.CardsDefined
  entries : ∀ entry ∈ e.log.entries, entry.CardsDefined

lemma GameEngine.afterAction_cardsDefined {sha256 : List UInt8 → List UInt8} {e : GameEngine}
    (hlen : e.machine.state.players.length ≤ 26) (h : e.machine.state.CardsDefined)
    (a : GameAction) : (e.afterAction sha256 a).machine.state.CardsDefined := by
  rcases @GameEngine.afterAction_spec sha256 e a with ⟨hstay, -⟩ | ⟨m, hstep, -, hplay⟩
  · rwa [hstay]
  · have hcards := cardsDefined_of_view (cardView_conclude m) (hstep.cardsDefined hlen h)
    rwa [hplay, afterPlay_machine]

/-- At a table of at most 26 players no recorded card is `undefined`. -/
theorem cardsKept_of_reachable {sha256 : List UInt8 → List UInt8} {ids : List PlayerId}
    {startingStack : ℕ} {r : EngineRun} (hlen : ids.length ≤ 26)
    (h : (engineRuns sha256 ids startingStack).Reachable r) :
    LogKept ids r.engine ∧ CardsKept r.engine := by
  refine h.invariant (I := fun r : EngineRun => LogKept ids r.engine ∧ CardsKept r.engine) ?_ ?_
  · rintro _ ⟨seed, nonce, hasWallet, hasRepo, rfl⟩
    refine ⟨logKept_of_reachable (.of_init ⟨seed, nonce, hasWallet, hasRepo, rfl⟩), ?_, ?_⟩
    · intro p hp cards hcards
      obtain ⟨id, -, rfl⟩ := mem_map.mp hp
      cases hcards
    · exact forall_mem_nil _
  · rintro r event _ ⟨hkept, hcards⟩ rfl
    refine ⟨hkept.step event, ?_⟩
    have hseats : r.engine.machine.state.players.length ≤ 26 := by
      rwa [← length_map (·.id), hkept.table]
    cases event with
    | action a =>
      have hstate := @GameEngine.afterAction_cardsDefined sha256 _ hseats hcards.state a
      refine ⟨hstate, fun entry hentry => ?_⟩
      rcases @GameEngine.afterAction_log sha256 r.engine a with hstay | ⟨log, hlog, hrecord⟩
      · simp only [EngineRun.step, hstay] at hentry
        exact hcards.entries entry hentry
      · simp only [EngineRun.step, hrecord, HandLog.record,
          (HandLog.recordProof_kept hlog).1, mem_append, mem_singleton] at hentry
        rcases hentry with hentry | rfl
        · exact hcards.entries entry hentry
        · exact ⟨hcards.state, hstate⟩
    | resume i ok =>
      have hentries :=
        (HandLog.recordProof_kept (@GameEngine.resume_log sha256 r.engine i ok)).1
      refine ⟨?_, fun entry hentry => hcards.entries entry (hentries ▸ hentry)⟩
      show (r.engine.resume sha256 i ok).machine.state.CardsDefined
      rw [GameEngine.resume_machine]
      exact hcards.state

/-! ### Decoding -/

open HandController

/-- The readers give the entries of the log, the state after each of them, and the players. -/
structure Decodes (store : LogStore) (log : HandLog) (ids : List PlayerId) : Prop where
  entries : ∃ parsed, loadHandLog store = .ok parsed ∧
    parsed.entries = log.entries.map (·.toJson) ∧
    ∀ i, parsed.reconstruct i = log.entries[i]?.map (·.postState.toJson)
  participants : ∀ v, v ∈ getParticipants store ↔ ∃ id ∈ ids, v = .string id

/-- The entries that the file is read as are those of the log when their cards are defined. -/
lemma written_entries (log : HandLog) :
    (log.entries.map fun e => Json.written e.toJson) = log.entries.map (·.toJson) ↔
      ∀ entry ∈ log.entries, entry.CardsDefined := by
  rw [map_inj_left]
  exact forall₂_congr fun entry _ => written_entry entry

lemma loadHandLog_file {log : HandLog} (hlines : log.lines.filterMap LogLine.entry? = log.entries)
    (column : Option Text) :
    ∃ parsed, loadHandLog ⟨some log.fileText, column⟩ = .ok parsed ∧
      parsed.entries = log.entries.map fun e => Json.written e.toJson :=
  ⟨_, rfl, by rw [parse_fileText, hlines]⟩

/-- An entry has its post-state in the fourth place. -/
lemma reconstruct_entries {parsed : ParsedLog} {entries : List HandLogEntry}
    (h : parsed.entries = entries.map (·.toJson)) (i : ℕ) :
    parsed.reconstruct i = entries[i]?.map (·.postState.toJson) := by
  rw [ParsedLog.reconstruct, h, getElem?_map, Option.map_map]
  rfl

/-- The column is one entry, and no log is. -/
lemma columnText_entries (log : HandLog) {parsed : ParsedLog}
    (h : loadHandLog ⟨none, some log.columnText⟩ = .ok parsed) :
    parsed.entries ≠ log.entries.map (·.toJson) := by
  intro hentries
  have hparsed : parsed = parseHandLog log.columnText := by
    rw [loadHandLog] at h
    dsimp only at h
    split_ifs at h
    exact (Except.ok.inj h).symm
  rw [hparsed, parse_columnText] at hentries
  rcases hlog : log.entries with _ | ⟨entry, _ | ⟨entry', entries⟩⟩
  · simp [hlog] at hentries
  · simp [hlog, HandLogEntry.toJson] at hentries
  · simp [hlog] at hentries

/-- The participants that the file gives are the players, once there is an entry. -/
lemma getParticipants_file {e : GameEngine} {ids : List PlayerId} (h : LogKept ids e)
    (column : Option Text) : getParticipants ⟨some e.log.fileText, column⟩ =
      if e.log.entries = [] then [] else ids.map .string := by
  show extractParticipants e.log.fileText = _
  rw [extractParticipants_fileText, h.lines]
  split_ifs with hne
  · rw [hne]
    rfl
  · obtain ⟨entry, entries, hentries⟩ := exists_cons_of_ne_nil hne
    have hplayers := h.players entry (by rw [hentries]; exact mem_cons_self)
    rw [hentries, ← hplayers, map_map]
    rfl

/-- At any point of a run the file is decoded exactly when an action has been recorded (or nobody
plays) and, at a table of more than 26 players, no recorded hole card is `undefined`; the column is
never decoded. -/
theorem decodes_iff {sha256 : List UInt8 → List UInt8} {ids : List PlayerId} {startingStack : ℕ}
    {r : EngineRun} (h : (engineRuns sha256 ids startingStack).Reachable r)
    (column : Option Text) :
    (Decodes ⟨some r.engine.log.fileText, column⟩ r.engine.log ids ↔
      (r.engine.log.entries = [] → ids = []) ∧
        (26 < ids.length → ∀ entry ∈ r.engine.log.entries, entry.CardsDefined)) ∧
    ¬ Decodes ⟨none, some r.engine.log.columnText⟩ r.engine.log ids := by
  have hkept := logKept_of_reachable h
  obtain ⟨parsed, hload, hparsed⟩ := loadHandLog_file hkept.lines column
  refine ⟨⟨fun hdecodes => ⟨fun hnone => ?_, fun _ => ?_⟩,
    fun ⟨hsome, hmany⟩ => ⟨?_, fun v => ?_⟩⟩, ?_⟩
  · -- a file without entries has no participants
    refine eq_nil_iff_forall_not_mem.mpr fun id hid => ?_
    have hmem := (hdecodes.participants (.string id)).mpr ⟨id, hid, rfl⟩
    rw [getParticipants_file hkept, if_pos hnone] at hmem
    exact not_mem_nil hmem
  · obtain ⟨parsed', hload', hentries, -⟩ := hdecodes.entries
    have hsame : parsed' = parsed := Except.ok.inj (hload'.symm.trans hload)
    rw [hsame, hparsed] at hentries
    exact (written_entries _).mp hentries
  · have hcards : ∀ entry ∈ r.engine.log.entries, entry.CardsDefined := by
      by_cases hlen : ids.length ≤ 26
      · exact (cardsKept_of_reachable hlen h).2.entries
      · exact hmany (not_le.mp hlen)
    have hentries := hparsed.trans ((written_entries _).mpr hcards)
    exact ⟨parsed, hload, hentries, reconstruct_entries hentries⟩
  · rw [getParticipants_file hkept]
    split_ifs with hne
    · rw [hsome hne]
      simp
    · rw [mem_map]
      exact exists_congr fun id => and_congr_right fun _ => eq_comm
  · rintro ⟨⟨parsed', hload', hentries, -⟩, -⟩
    exact columnText_entries _ hload' hentries

/-- The file after one blind. -/
theorem decodes_blind :
    Decodes
      ⟨some (zeroSeedRun.step zeroSeedHash (.action (.postBlind "p1" 1))).engine.log.fileText, none⟩
      (zeroSeedRun.step zeroSeedHash (.action (.postBlind "p1" 1))).engine.log ["p1", "p2"] :=
  (decodes_iff
      (reachable_playEvents reachable_zeroSeedRun [.action (.postBlind "p1" 1)]) none).1.mpr
    ⟨(fun hnone => nomatch hnone), fun hmany => absurd hmany (by decide)⟩

/-- The column of a settled hand is read as one entry. -/
theorem column_not_decoded :
    ¬ ∀ (sha256 : List UInt8 → List UInt8) (ids : List PlayerId) (startingStack : ℕ)
      (r : EngineRun), 2 ≤ ids.length → (engineRuns sha256 ids startingStack).Reachable r →
      Decodes ⟨some r.engine.log.fileText, none⟩ r.engine.log ids ∧
        Decodes ⟨none, some r.engine.log.columnText⟩ r.engine.log ids := by
  intro h
  have hrun := reachable_playEvents reachable_zeroSeedRun
    [.action (.postBlind "p1" 1), .action (.postBlind "p2" 2), .action .next, .action (.fold "p1")]
  obtain ⟨parsed, hload, hentries, -⟩ :=
    (h zeroSeedHash ["p1", "p2"] 100 _ (by decide) hrun).2.entries
  exact columnText_entries _ hload hentries

end Pokerhub
