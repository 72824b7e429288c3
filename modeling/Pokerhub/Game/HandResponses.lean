import Pokerhub.Game.LogText
import Pokerhub.Game.Sanitize

/-!
# The responses of the hand controller

`getReplay`, `getState` and `getLog` of `hand.controller.ts`, with the schemas that the first two
put their responses through. What they read from a log is JSON, of any form; from the file of an
engine they respond with the recorded states as `sanitize` shows them (`getReplay_file`,
`getState_file`), and `getLog` responds with the text itself.
-/

namespace Pokerhub

open List

namespace HandController

open Json

/-! ### Schemas -/

/-- `z.string()`. -/
def asString : Json → Option String
  | .string s => some s
  | _ => none

/-- `z.number()`. -/
def asNumber : Json → Option ℤ
  | .number n => some n
  | _ => none

/-- `z.boolean()`. -/
def asBool : Json → Option Bool
  | .bool b => some b
  | _ => none

/-- `z.array(item)`. -/
def asArray {α : Type} (item : Json → Option α) : Json → Option (List α)
  | .array xs => xs.mapM item
  | _ => none

/-- `z.record(z.string(), z.number())`. -/
def asRecord : Json → Option (List (String × ℤ))
  | .object members => members.mapM fun m => (asNumber m.2).map (m.1, ·)
  | _ => none

def asStreet : Json → Option Street
  | .string "preflop" => some .preflop
  | .string "flop" => some .flop
  | .string "turn" => some .turn
  | .string "river" => some .river
  | .string "showdown" => some .showdown
  | _ => none

def asPhase : Json → Option HandPhase
  | .string "WAIT_BLINDS" => some .waitBlinds
  | .string "DEAL" => some .deal
  | .string "BETTING_ROUND" => some .bettingRound
  | .string "SHOWDOWN" => some .showdown
  | .string "SETTLE" => some .settle
  | .string "NEXT_HAND" => some .nextHand
  | _ => none

/-- `z.object`, which is given the value once it is an object. -/
def asObject {α : Type} (fields : Json → Option α) : Json → Option α
  | .object members => fields (.object members)
  | _ => none

/-- `SidePotSchema`. -/
def asSidePot : Json → Option SidePot :=
  asObject fun v => do
    let amount ← asNumber (v.get "amount")
    let players ← asArray asString (v.get "players")
    let contributions ← asRecord (v.get "contributions")
    return ⟨amount, players, contributions⟩

/-- A player of a response. -/
structure HandStatePlayer where
  id : PlayerId
  stack : ℤ
  folded : Bool
  bet : ℤ
  allIn : Bool
  holeCards : Option (List ℤ) := none
  deriving DecidableEq

/-- What the schemas of the players have in common. -/
def asPlayer (v : Json) : Option HandStatePlayer := do
  let id ← asString (v.get "id")
  let stack ← asNumber (v.get "stack")
  let folded ← asBool (v.get "folded")
  let bet ← asNumber (v.get "bet")
  let allIn ← asBool (v.get "allIn")
  return { id, stack, folded, bet, allIn }

/-- `GameStatePlayerSchema`. -/
def asStatePlayer : Json → Option HandStatePlayer :=
  asObject fun v => do
    let player ← asPlayer v
    match v.get "holeCards" with
    | .undefined => return player
    | cards =>
      let cards ← asArray asNumber cards
      if cards.length = 2 then return { player with holeCards := some cards } else none

/-- A frame of the replay, and the part of a state that is like it. -/
structure HandReplayFrame where
  street : Street
  pot : ℤ
  sidePots : List SidePot
  currentBet : ℤ
  players : List HandStatePlayer
  communityCards : List ℤ
  deriving DecidableEq

def asFrame (player : Json → Option HandStatePlayer) (v : Json) : Option HandReplayFrame := do
  let street ← asStreet (v.get "street")
  let pot ← asNumber (v.get "pot")
  let sidePots ← asArray asSidePot (v.get "sidePots")
  let currentBet ← asNumber (v.get "currentBet")
  let players ← asArray player (v.get "players")
  let communityCards ← asArray asNumber (v.get "communityCards")
  return { street, pot, sidePots, currentBet, players, communityCards }

/-- What `getState` responds with. -/
structure HandState where
  version : String
  tick : ℤ
  phase : HandPhase
  frame : HandReplayFrame
  deriving DecidableEq

/-- `GameStateSchema.omit({ serverTime: true })`; it is strict. -/
def asHandState : Json → Option HandState
  | .object members => do
    let v := Json.object members
    let version ← asString (v.get "version")
    let tick ← asNumber (v.get "tick")
    let phase ← asPhase (v.get "phase")
    let frame ← asFrame asStatePlayer v
    if version = "1" ∧ ∀ m ∈ members, m.1 ∈ ["version", "tick", "phase", "street", "pot",
      "sidePots", "currentBet", "players", "communityCards"] then
      return { version, tick, phase, frame }
    else none
  | _ => none

/-! ### The readers -/

structure JwtClaims where
  sub : PlayerId
  role : Option String := none
  deriving DecidableEq

/-- How a request fails; what is thrown and not caught is answered as an internal error. -/
inductive RequestError where
  | http (error : HttpError)
  | thrown
  deriving DecidableEq

/-- The condition under which `sanitize` keeps the hole cards of a player. -/
def keepsCards (playerId : PlayerId) (p : Json) : Bool :=
  asString (p.get "id") == some playerId &&
    match p.get "holeCards" with
    | .array cards => cards.length == 2 && cards.all fun c => (asNumber c).isSome
    | _ => false

/-- One player of `sanitize`, as it is read from a log. -/
def sanitizePlayerJson (playerId : PlayerId) (p : Json) : Option Json :=
  if p.isNullish then none
  else
    some <| .object <|
      [("id", p.get "id"), ("stack", p.get "stack"), ("folded", p.get "folded"),
        ("bet", p.get "bet"), ("allIn", p.get "allIn")] ++
      (if keepsCards playerId p then [("holeCards", p.get "holeCards")] else [])

/-- `sanitize` of a state that is read from a log; `none` is a thrown error. The members that are
overwritten come last, their places do not matter to the schemas. -/
def sanitizeJson (playerId : PlayerId) (now : ℕ) (state : Json) : Option Json :=
  match state, state.get "players" with
  | .object members, .array players =>
    (players.mapM (sanitizePlayerJson playerId)).map fun players =>
      .object <|
        (members.filter fun m => m.1 ∉ ["deck", "players", "version", "serverTime"]) ++
        [("version", .string EVENT_SCHEMA_VERSION), ("serverTime", .number now),
          ("players", .array players)]
  | _, _ => none

/-- `verifyToken` has accepted the claims. -/
def assertParticipantOrAdmin (store : LogStore) (claims : JwtClaims) :
    Except RequestError PlayerId :=
  if claims.role ≠ some "admin" ∧
      ¬ (getParticipants store).any (fun id => asString id == some claims.sub) then
    .error (.http .forbidden)
  else .ok claims.sub

/-- `loadHandLog`, as the requests see it. -/
def requestLog (store : LogStore) : Except RequestError ParsedLog :=
  (loadHandLog store).mapError .http

def getReplay (store : LogStore) (claims : JwtClaims) (now : ℕ) :
    Except RequestError (List HandReplayFrame) := do
  let userId ← assertParticipantOrAdmin store claims
  let log ← requestLog store
  let frames := log.entries.mapM fun entry =>
    (sanitizeJson userId now (entry.index 3)).bind (asFrame (asObject asPlayer))
  match frames with
  | some frames => return frames
  | none => throw .thrown

/-- `{ ...sanitizedState, tick, version }`. -/
def stateAt (index : ℕ) : Json → Json
  | .object members =>
    .object <| (members.filter fun m => m.1 ∉ ["serverTime", "tick", "version"]) ++
      [("tick", .number (index + 1)), ("version", .string EVENT_SCHEMA_VERSION)]
  | v => v

/-- `getState`; an index that is not a whole number from 0 on is `none`. -/
def getState (store : LogStore) (claims : JwtClaims) (index : Option ℕ) (now : ℕ) :
    Except RequestError HandState := do
  let userId ← assertParticipantOrAdmin store claims
  match index with
  | none => throw (.http (.notFound "state not found"))
  | some index =>
    let log ← requestLog store
    let state := (log.reconstruct index).getD .undefined
    if state.truthy then
      match (sanitizeJson userId now state).bind fun v => asHandState (stateAt index v) with
      | some response => return response
      | none => throw .thrown
    else throw (.http (.notFound "state not found"))

def getLog (store : LogStore) (claims : JwtClaims) : Except RequestError Text := do
  let _ ← assertParticipantOrAdmin store claims
  match store.file, store.column with
  | some raw, _ => return raw
  | none, some raw => return raw
  | none, none => throw (.http (.notFound "log not found"))

end HandController

/-! ### What the schemas accept -/

def GameStatePlayer.toJson (p : GameStatePlayer) : Json :=
  .object <|
    [("id", .string p.id), ("stack", .number p.stack), ("folded", .bool p.folded),
      ("bet", .number p.bet), ("allIn", .bool p.allIn)] ++
    (match p.holeCards with
      | some cards => [("holeCards", .array (cards.map fun card : ℕ => .number card))]
      | none => [])

def GameState.toJson (s : GameState) : Json :=
  .object
    [("phase", s.phase.toJson), ("street", s.street.toJson), ("pot", .number s.pot),
      ("sidePots", .array (s.sidePots.map (·.toJson))), ("currentBet", .number s.currentBet),
      ("communityCards", .array (s.communityCards.map fun card : ℕ => .number card)),
      ("version", .string s.version), ("serverTime", .number s.serverTime),
      ("players", .array (s.players.map (·.toJson)))]

/-- A player as the responses have it. -/
def GameStatePlayer.response (p : GameStatePlayer) : HandController.HandStatePlayer where
  id := p.id
  stack := p.stack
  folded := p.folded
  bet := p.bet
  allIn := p.allIn
  holeCards := p.holeCards.map fun cards => cards.map fun card : ℕ => (card : ℤ)

/-- The frame of a state, with the hole cards or without. -/
def GameState.frame (s : GameState) (cards : Bool) : HandController.HandReplayFrame where
  street := s.street
  pot := s.pot
  sidePots := s.sidePots
  currentBet := s.currentBet
  players := s.players.map fun p =>
    if cards then p.response else { p.response with holeCards := none }
  communityCards := s.communityCards.map fun card : ℕ => (card : ℤ)

/-- The entries in the lines of a log. -/
def HandLog.recorded (log : HandLog) : List HandLogEntry :=
  log.lines.filterMap LogLine.entry?

/-- The response of `getState` for a state. -/
def GameState.response (s : GameState) (index : ℕ) : HandController.HandState where
  version := EVENT_SCHEMA_VERSION
  tick := index + 1
  phase := s.phase
  frame := s.frame true

namespace HandController

open Json

lemma mapM_map_some {α β γ : Type} {f : α → β} {g : β → Option γ} {h : α → γ} {xs : List α}
    (hg : ∀ x ∈ xs, g (f x) = some (h x)) : (xs.map f).mapM g = some (xs.map h) := by
  induction xs with
  | nil => rfl
  | cons x xs ih =>
    obtain ⟨hx, hxs⟩ := forall_mem_cons.mp hg
    simp [mapM_cons, hx, ih hxs]

lemma asArray_map {α β : Type} {f : α → Json} {g : Json → Option β} {h : α → β} {xs : List α}
    (hg : ∀ x ∈ xs, g (f x) = some (h x)) : asArray g (array (xs.map f)) = some (xs.map h) :=
  mapM_map_some hg

@[simp] lemma asStreet_toJson (street : Street) : asStreet street.toJson = some street := by
  cases street <;> rfl

@[simp] lemma asPhase_toJson (phase : HandPhase) : asPhase phase.toJson = some phase := by
  cases phase <;> rfl

@[simp] lemma asArray_cards (cards : List ℕ) :
    asArray asNumber (array (cards.map fun card : ℕ => number card)) =
      some (cards.map fun card : ℕ => (card : ℤ)) :=
  asArray_map fun _ _ => rfl

@[simp] lemma asSidePot_toJson (pot : SidePot) : asSidePot pot.toJson = some pot := by
  have hplayers : asArray asString (array (pot.players.map string)) = some pot.players := by
    have hids := @asArray_map _ _ string asString id pot.players fun _ _ => rfl
    rwa [map_id] at hids
  have hcontributions : asRecord (object (pot.contributions.map fun c => (c.1, number c.2))) =
      some pot.contributions := by
    have hrecord := @mapM_map_some _ _ _ (fun c : PlayerId × ℤ => (c.1, number c.2))
      (fun m => (asNumber m.2).map (m.1, ·)) id pot.contributions fun _ _ => rfl
    rwa [map_id] at hrecord
  simp [asSidePot, SidePot.toJson, asObject, Json.get, lookup_cons, asNumber, hplayers,
    hcontributions]

lemma asPlayer_toJson (p : GameStatePlayer) :
    asObject asPlayer p.toJson = some { p.response with holeCards := none } := by
  obtain ⟨id, stack, folded, bet, allIn, holeCards⟩ := p
  cases holeCards <;> rfl

lemma asStatePlayer_toJson (p : GameStatePlayer)
    (hcards : ∀ cards ∈ p.holeCards, cards.length = 2) :
    asStatePlayer p.toJson = some p.response := by
  obtain ⟨id, stack, folded, bet, allIn, holeCards⟩ := p
  cases holeCards with
  | none => rfl
  | some cards =>
    have htwo := hcards cards rfl
    simp [asStatePlayer, GameStatePlayer.toJson, asObject, asPlayer, Json.get, lookup_cons,
      asString, asNumber, asBool, GameStatePlayer.response, htwo]

lemma shownCards_length {p : PlayerStateInternal} {cards : List ℕ} (h : p.shownCards = some cards) :
    cards.length = 2 := by
  unfold PlayerStateInternal.shownCards at h
  obtain ⟨hole, -, hif⟩ := Option.bind_eq_some_iff.mp h
  split_ifs at hif with hboth
  cases hif
  exact (filterMap_length_eq_length.mpr hboth.2).trans hboth.1

lemma asFrame_replay (s : GameState) :
    asFrame (asObject asPlayer) s.toJson = some (s.frame false) := by
  have hpots : asArray asSidePot (array (s.sidePots.map (·.toJson))) = some s.sidePots := by
    have h := @asArray_map _ _ (·.toJson) asSidePot id s.sidePots fun pot _ => asSidePot_toJson pot
    rwa [map_id] at h
  have hplayers := @asArray_map _ _ (·.toJson) (asObject asPlayer)
    (fun p : GameStatePlayer => { p.response with holeCards := none }) s.players
    fun p _ => asPlayer_toJson p
  simp [asFrame, GameState.toJson, Json.get, lookup_cons, asNumber, hpots, hplayers,
    GameState.frame]

/-- The response of `getState` passes its schema. -/
lemma asHandState_stateAt (s : GameState) (index : ℕ)
    (hcards : ∀ p ∈ s.players, ∀ cards ∈ p.holeCards, cards.length = 2) :
    asHandState (stateAt index s.toJson) = some (s.response index) := by
  have hpots : asArray asSidePot (array (s.sidePots.map (·.toJson))) = some s.sidePots := by
    have h := @asArray_map _ _ (·.toJson) asSidePot id s.sidePots fun pot _ => asSidePot_toJson pot
    rwa [map_id] at h
  have hplayers := @asArray_map _ _ (·.toJson) asStatePlayer (·.response) s.players
    fun p hp => asStatePlayer_toJson p (hcards p hp)
  simp [asHandState, stateAt, asFrame, GameState.toJson, Json.get, lookup_cons, asNumber, asString,
    hpots, hplayers, GameState.frame, GameState.response, EVENT_SCHEMA_VERSION]

/-! ### States of an engine -/

/-- Cards that are all there are read as their numbers. -/
lemma map_written_cardJson {cards : List (Option ℕ)} (h : ∀ c ∈ cards, c.isSome) :
    cards.map (fun c => written (cardJson c)) =
      (cards.filterMap fun c => c).map fun card : ℕ => number card := by
  induction cards with
  | nil => rfl
  | cons c cards ih =>
    obtain ⟨hc, hcards⟩ := forall_mem_cons.mp h
    obtain ⟨c, rfl⟩ := Option.isSome_iff_exists.mp hc
    rw [map_cons, ih hcards]
    rfl

lemma keepsCards_player (playerId : PlayerId) (p : PlayerStateInternal) :
    keepsCards playerId (written p.toJson) = true ↔
      p.id = playerId ∧ ∃ cards ∈ p.holeCards, cards.length = 2 ∧ ∀ c ∈ cards, c.isSome := by
  obtain ⟨id, stack, folded, bet, allIn, holeCards⟩ := p
  cases holeCards with
  | none => simp [keepsCards, PlayerStateInternal.toJson, written, writtenMembers, Json.get,
      lookup_cons]
  | some cards =>
    have hnumbers : ∀ c : Option ℕ, (asNumber (written (cardJson c))).isSome = c.isSome := by
      rintro (_ | c) <;> rfl
    have hcards : written (array (cards.map cardJson)) =
        array (cards.map fun c => written (cardJson c)) := written_array_map cardJson cards
    rw [written] at hcards
    simp [keepsCards, PlayerStateInternal.toJson, written, writtenMembers, Json.get, lookup_cons,
      asString, hcards, hnumbers]

/-- Of a recorded player the readers show what `sanitize` shows. -/
lemma sanitizePlayerJson_player (playerId : PlayerId) (p : PlayerStateInternal) :
    sanitizePlayerJson playerId (written p.toJson) =
      some (sanitizePlayer (some playerId) p).toJson := by
  have hkeeps := keepsCards_player playerId p
  rw [sanitizePlayerJson, isNullish_player, if_neg Bool.false_ne_true]
  obtain ⟨id, stack, folded, bet, allIn, holeCards⟩ := p
  by_cases hkeep : keepsCards playerId
      (written (PlayerStateInternal.mk id stack folded bet allIn holeCards).toJson) = true
  · obtain ⟨rfl, cards, hcards, htwo, hsome⟩ := hkeeps.mp hkeep
    obtain rfl : holeCards = some cards := hcards
    have hwritten := (written_array_map cardJson cards).trans
      (congrArg array (map_written_cardJson hsome))
    rw [written] at hwritten
    have hshown : (PlayerStateInternal.mk id stack folded bet allIn (some cards)).shownCards =
        some (cards.filterMap fun c => c) := if_pos ⟨htwo, hsome⟩
    rw [if_pos hkeep]
    simp [PlayerStateInternal.toJson, written, writtenMembers, Json.get, lookup_cons, hwritten,
      sanitizePlayer, hshown, GameStatePlayer.toJson]
  · have hnone : (sanitizePlayer (some playerId)
        ⟨id, stack, folded, bet, allIn, holeCards⟩).holeCards = none := by
      simp only [sanitizePlayer, ite_eq_right_iff, PlayerStateInternal.shownCards]
      rintro ⟨rfl⟩
      cases holeCards with
      | none => rfl
      | some cards =>
        refine if_neg fun hboth => hkeep (hkeeps.mpr ⟨rfl, cards, rfl, hboth⟩)
    rw [if_neg hkeep, GameStatePlayer.toJson, hnone]
    cases holeCards <;>
      simp [PlayerStateInternal.toJson, written, writtenMembers, Json.get, lookup_cons,
        sanitizePlayer]

/-- Of a recorded state the readers show what `sanitize` shows. -/
lemma sanitizeJson_state (playerId : PlayerId) (now : ℕ) (s : GameStateInternal) :
    sanitizeJson playerId now (written s.toJson) =
      some (sanitize s (some playerId) now).toJson := by
  have hplayers := @mapM_map_some _ _ _ (fun p : PlayerStateInternal => written p.toJson)
    (sanitizePlayerJson playerId) (fun p => (sanitizePlayer (some playerId) p).toJson) s.players
    fun p _ => sanitizePlayerJson_player playerId p
  simp [written_state_eq, sanitizeJson, Json.get, lookup_cons, hplayers, GameState.toJson, sanitize,
    Function.comp_def]

lemma holeCards_sanitize {s : GameStateInternal} {playerId : Option PlayerId} {now : ℕ} :
    ∀ p ∈ (sanitize s playerId now).players, ∀ cards ∈ p.holeCards, cards.length = 2 := by
  intro p hp cards hcards
  obtain ⟨q, -, rfl⟩ := mem_map.mp hp
  rw [sanitizePlayer] at hcards
  dsimp only at hcards
  split_ifs at hcards
  · exact shownCards_length hcards
  · cases hcards

/-! ### The file of an engine -/

section File

variable (log : HandLog) (column : Option Text) (claims : JwtClaims) (now : ℕ)

/-- A log is read by the players of its first entry, and by administrators. -/
lemma assertParticipantOrAdmin_file :
    assertParticipantOrAdmin ⟨some log.fileText, column⟩ claims =
      if claims.role ≠ some "admin" ∧
          ∀ entry ∈ log.recorded.head?, claims.sub ∉ entry.preState.players.map (·.id) then
        .error (.http .forbidden)
      else .ok claims.sub := by
  have hparticipants : getParticipants ⟨some log.fileText, column⟩ =
      (log.recorded.head?.map fun e => e.preState.players.map fun p => string p.id).getD [] :=
    extractParticipants_fileText log
  rw [assertParticipantOrAdmin, hparticipants]
  congr 1
  cases log.recorded.head? <;> simp [asString]

/-- The replay shows each recorded state as `sanitize` does, without cards. -/
theorem getReplay_file :
    getReplay ⟨some log.fileText, column⟩ claims now =
      (assertParticipantOrAdmin ⟨some log.fileText, column⟩ claims).map fun userId =>
        log.recorded.map fun entry => (sanitize entry.postState (some userId) now).frame false := by
  have hframes : ∀ userId, (parseHandLog log.fileText).entries.mapM (fun entry =>
      (sanitizeJson userId now (entry.index 3)).bind (asFrame (asObject asPlayer))) =
        some (log.recorded.map fun entry =>
          (sanitize entry.postState (some userId) now).frame false) := by
    intro userId
    rw [parse_fileText]
    refine mapM_map_some fun entry _ => ?_
    have hindex : (Json.written entry.toJson).index 3 = Json.written entry.postState.toJson := rfl
    rw [hindex, sanitizeJson_state, Option.bind_some, asFrame_replay]
  rw [getReplay]
  cases assertParticipantOrAdmin ⟨some log.fileText, column⟩ claims with
  | error e => rfl
  | ok userId =>
    have hlog : requestLog ⟨some log.fileText, column⟩ = .ok (parseHandLog log.fileText) := rfl
    simp only [hlog, bind, Except.bind, hframes]
    rfl

/-- The state at an index is the recorded one, as `sanitize` shows it. -/
theorem getState_file (index : Option ℕ) :
    getState ⟨some log.fileText, column⟩ claims index now =
      (assertParticipantOrAdmin ⟨some log.fileText, column⟩ claims).bind fun userId =>
        match index.bind fun index => log.recorded[index]?.map fun entry =>
          (sanitize entry.postState (some userId) now).response index with
        | some response => .ok response
        | none => .error (.http (.notFound "state not found")) := by
  have hlog : requestLog ⟨some log.fileText, column⟩ = .ok (parseHandLog log.fileText) := rfl
  rw [getState]
  cases assertParticipantOrAdmin ⟨some log.fileText, column⟩ claims with
  | error e => rfl
  | ok userId =>
    cases index with
    | none => rfl
    | some index =>
      have hstate : (parseHandLog log.fileText).reconstruct index =
          log.recorded[index]?.map fun entry => Json.written entry.postState.toJson := by
        rw [ParsedLog.reconstruct, parse_fileText, getElem?_map, Option.map_map]
        rfl
      simp only [hlog, bind, Except.bind, hstate, Option.bind_some]
      cases log.recorded[index]? with
      | none => rfl
      | some entry =>
        have htruthy : (Json.written entry.postState.toJson).truthy = true := rfl
        simp only [Option.map_some, Option.getD_some, htruthy, if_true, sanitizeJson_state,
          Option.bind_some, asHandState_stateAt _ _ holeCards_sanitize]
        rfl

/-- The log is not sanitized. -/
theorem getLog_file :
    getLog ⟨some log.fileText, column⟩ claims =
      (assertParticipantOrAdmin ⟨some log.fileText, column⟩ claims).map fun _ => log.fileText := by
  rw [getLog]
  cases assertParticipantOrAdmin ⟨some log.fileText, column⟩ claims <;> rfl

end File

end HandController

end Pokerhub
