import Pokerhub.Game.HandResponses
import Pokerhub.Game.TwoHands

/-!
# Who sees the hole cards

Two runs of a hand take the same calls and differ in the cards that are hidden from a player: the
hole cards of the others and the deck. The state frames and the sanitized responses of the hand
controller are the same to the player. The log is streamed as it is, and once the cards are dealt
it is the same only if the whole decks are (`delivered_eq_iff`).
-/

namespace Pokerhub

open GameStateInternal GameEngine HandStateMachine TransitionSystem HandController List

/-! ### Hidden cards -/

/-- The state without the deck and without the hole cards of the other players. -/
def GameStateInternal.hideFrom (playerId : PlayerId) (s : GameStateInternal) : GameStateInternal :=
  { s with
    deck := []
    players := s.players.map fun p => if p.id = playerId then p else p.cardless }

section HideFrom

variable (s : GameStateInternal) (playerId : PlayerId) (now : ℕ)

lemma map_hideFrom {β : Type*} {f : PlayerStateInternal → β}
    (hf : ∀ p ∈ s.players, p.id ≠ playerId → f p.cardless = f p) :
    (s.hideFrom playerId).players.map f = s.players.map f := by
  rw [hideFrom, map_map]
  refine map_congr_left fun p hp => ?_
  by_cases hid : p.id = playerId
  · simp only [Function.comp_apply, if_pos hid]
  · simp only [Function.comp_apply, if_neg hid, hf p hp hid]

/-- The frames of a player show nothing that is hidden from him. -/
lemma sanitize_hideFrom :
    sanitize (s.hideFrom playerId) (some playerId) now = sanitize s (some playerId) now := by
  have hplayers := map_hideFrom s playerId (f := sanitizePlayer (some playerId)) fun p _ hid => by
    simp [sanitizePlayer, PlayerStateInternal.cardless, Ne.symm hid]
  rw [sanitize, hplayers]
  rfl

/-- The frames for nobody show nothing that is hidden from anyone. -/
lemma sanitize_none_hideFrom :
    sanitize (s.hideFrom playerId) none now = sanitize s none now := by
  have hplayers := map_hideFrom s playerId (f := sanitizePlayer none) fun p _ _ => by
    simp [sanitizePlayer, PlayerStateInternal.cardless]
  rw [sanitize, hplayers]
  rfl

end HideFrom

/-! ### Calls before the settlement -/

section Calls

variable {sha256 : List UInt8 → List UInt8} {e : GameEngine} {a : GameAction}

lemma Step.unique {shuffle : Shuffle} {m m₁ m₂ : HandStateMachine} (h₁ : Step shuffle m a m₁)
    (h₂ : Step shuffle m a m₂) : m₁ = m₂ := by
  have hrun := h₁.run_apply
  rw [h₂.run_apply] at hrun
  cases hrun
  rfl

/-- A call that does not come to the settlement is rejected, or plays a rule and records it. -/
lemma afterAction_of_ne_settle (hphase : (e.afterAction sha256 a).machine.state.phase ≠ .settle) :
    (e.afterAction sha256 a = e ∧ ∀ m, ¬ Step (e.rng.shuffle sha256) e.machine a m) ∨
      ∃ m, Step (e.rng.shuffle sha256) e.machine a m ∧ m.state.phase ≠ .showdown ∧
        e.afterAction sha256 a =
          { e with machine := m, log := e.log.record a e.machine.state m.state } := by
  rcases @afterAction_spec sha256 e a with ⟨hstay, -, hnone⟩ | ⟨m, hstep, -, hplay⟩
  · exact Or.inl ⟨hstay, hnone⟩
  · right
    rw [hplay, afterPlay_machine] at hphase
    rcases conclude_cases m with hsame | ⟨-, hsettle⟩
    · have hshow := conclude_phase_ne m
      rw [hsame] at hshow
      have hforced : (force m.state).phase ≠ .showdown := fun hforced => by
        rw [conclude, if_pos hforced] at hphase
        exact hphase rfl
      have hforce : force m.state = m.state := by
        rw [conclude, if_neg hforced] at hsame
        exact congrArg (·.state) hsame
      refine ⟨m, hstep, hshow, ?_⟩
      rw [hplay, afterPlay, hforce]
      dsimp only
      rw [if_neg hshow]
    · exact absurd hsettle hphase

/-- What holds of an engine until its first hand is settled. -/
structure FirstHand (sha256 : List UInt8 → List UInt8) (e : GameEngine) : Prop where
  dealt : DealtFrom (e.deck sha256) e.machine.state
  phase : e.machine.state.phase = .waitBlinds ∨ e.machine.state.phase = .deal ∨
    e.machine.state.phase = .bettingRound
  lines : e.log.lines = .commitment e.rng.commitment :: e.log.entries.map .entry
  last : e.machine.state.phase = .waitBlinds ∨
    e.log.entries.getLast?.map (·.postState) = some e.machine.state

lemma FirstHand.create (ids : List PlayerId) (startingStack : ℕ) (rng : HandRNG)
    (hasWallet hasRepo : Bool) :
    FirstHand sha256 (.create ids startingStack rng hasWallet hasRepo) where
  dealt := .initial _ ids startingStack
  phase := Or.inl rfl
  lines := rfl
  last := Or.inl rfl

lemma FirstHand.afterAction (h : FirstHand sha256 e)
    (hphase : (e.afterAction sha256 a).machine.state.phase ≠ .settle) :
    FirstHand sha256 (e.afterAction sha256 a) := by
  have hdealt := h.dealt.afterAction a
  rw [← deck_afterAction a] at hdealt
  rcases afterAction_of_ne_settle hphase with ⟨hstay, -⟩ | ⟨m, hstep, hshow, hafter⟩
  · rwa [hstay]
  · rw [hafter] at hphase hdealt ⊢
    refine ⟨hdealt, ?_, ?_, Or.inr ?_⟩
    · rcases hstep.phase_cases with ⟨hw, hsame⟩ | ⟨-, hdeal, -⟩ | ⟨-, hlive | hsettle⟩ | ⟨hs, -⟩
      · dsimp only
        rw [hsame]
        exact h.phase
      · exact Or.inr (Or.inl hdeal)
      · rcases hlive with hlive | hlive | hlive
        · exact Or.inr (Or.inl hlive)
        · exact Or.inr (Or.inr hlive)
        · exact absurd hlive hshow
      · exact absurd hsettle hphase
      · rcases h.phase with hp | hp | hp <;> simp [hp] at hs
    · simp [HandLog.record, h.lines]
    · simp [HandLog.record]

/-- A hand that has been dealt stays so until it is settled. -/
lemma FirstHand.inHand_of_step {m : HandStateMachine} (h : FirstHand sha256 e)
    (hstep : Step (e.rng.shuffle sha256) e.machine a m)
    (hin : e.machine.state.phase.InHand) : m.state.phase.InHand := by
  rcases hstep.phase_cases with ⟨hw, -⟩ | ⟨hw, -⟩ | ⟨-, hlive | hsettle⟩ | ⟨hs, -⟩
  · exact absurd hin (inHand_of_waiting hw)
  · exact absurd hin (inHand_of_waiting hw)
  · exact hlive.imp id (Or.imp id Or.inl)
  · exact Or.inr (Or.inr (Or.inr hsettle))
  · rcases h.phase with hp | hp | hp <;> simp [hp] at hs

end Calls

/-! ### Two runs -/

/-- Two runs of a hand with the same calls, up to the settlement, that differ in the cards that are
hidden from the player. -/
def handPairs (sha256 : List UInt8 → List UInt8) (ids : List PlayerId) (startingStack : ℕ)
    (playerId : PlayerId) : TransitionSystem (GameEngine × GameEngine) GameAction where
  init e := ∃ seed nonce seed' nonce' hasWallet hasRepo,
    e = (.create ids startingStack (.create sha256 seed nonce) hasWallet hasRepo,
      .create ids startingStack (.create sha256 seed' nonce') hasWallet hasRepo)
  step e a e' :=
    e' = (e.1.afterAction sha256 a, e.2.afterAction sha256 a) ∧
      e'.1.machine.state.phase ≠ .settle ∧
      e'.1.machine.state.hideFrom playerId = e'.2.machine.state.hideFrom playerId

/-- The entries are the same to the player. -/
def SameEntry (playerId : PlayerId) (entry entry' : HandLogEntry) : Prop :=
  entry.index = entry'.index ∧
    entry.postState.hideFrom playerId = entry'.postState.hideFrom playerId

/-- What the runs have in common. -/
structure Alike (sha256 : List UInt8 → List UInt8) (playerId : PlayerId) (e e' : GameEngine) :
    Prop where
  twin : Twin e.machine.state e'.machine.state
  blinds : e.machine.blindsPosted = e'.machine.blindsPosted
  entries : Forall₂ (SameEntry playerId) e.log.entries e'.log.entries
  same : ¬ e.machine.state.phase.InHand ∨ e.deck sha256 = e'.deck sha256 →
    e.machine = e'.machine ∧ e.log.entries = e'.log.entries

section Pairs

variable {sha256 : List UInt8 → List UInt8} {ids : List PlayerId} {startingStack : ℕ}
  {playerId : PlayerId} {e e' : GameEngine} {a : GameAction}

/-- A call is a rule in both runs, or rejected in both. -/
theorem Alike.afterAction (h : FirstHand sha256 e) (h' : FirstHand sha256 e')
    (halike : Alike sha256 playerId e e')
    (hphase : (e.afterAction sha256 a).machine.state.phase ≠ .settle)
    (hknown : (e.afterAction sha256 a).machine.state.hideFrom playerId =
      (e'.afterAction sha256 a).machine.state.hideFrom playerId) :
    Alike sha256 playerId (e.afterAction sha256 a) (e'.afterAction sha256 a) := by
  have hphase' : (e'.afterAction sha256 a).machine.state.phase ≠ .settle :=
    congrArg (·.phase) hknown ▸ hphase
  have hgenuine := e.rng.genuine_shuffle sha256
  have hgenuine' := e'.rng.genuine_shuffle sha256
  have hbefore : ∀ {e₀ : GameEngine}, FirstHand sha256 e₀ → e₀.machine.state.phase ≠ .showdown ∧
      e₀.machine.state.phase ≠ .settle := fun h₀ => by
    rcases h₀.phase with hp | hp | hp <;> simp [hp]
  rcases afterAction_of_ne_settle hphase with ⟨hstay, hnone⟩ | ⟨m, hstep, hshow, hafter⟩
  · rcases afterAction_of_ne_settle hphase' with ⟨hstay', -⟩ | ⟨m', hstep', -, -⟩
    · rwa [hstay, hstay']
    · obtain ⟨m, hstep, -⟩ := hstep'.twin hgenuine' hgenuine h'.dealt h.dealt halike.twin.symm
        halike.blinds.symm (hbefore h').1 (hbefore h').2
      exact absurd hstep (hnone m)
  · obtain ⟨m', hstep', htwin, hblinds⟩ := hstep.twin hgenuine hgenuine' h.dealt h'.dealt
      halike.twin halike.blinds (hbefore h).1 (hbefore h).2
    rcases afterAction_of_ne_settle hphase' with ⟨-, hnone'⟩ | ⟨m₁, hstep₁, -, hafter'⟩
    · exact absurd hstep' (hnone' m')
    · obtain rfl := hstep'.unique hstep₁
      rw [hafter, hafter'] at hknown ⊢
      refine ⟨htwin, hblinds, ?_, fun hsame => ?_⟩
      · exact rel_append halike.entries (.cons ⟨halike.entries.length_eq, hknown⟩ .nil)
      · have hsame₀ : ¬ e.machine.state.phase.InHand ∨ e.deck sha256 = e'.deck sha256 :=
          hsame.imp_left fun hnot hin => hnot (h.inHand_of_step hstep hin)
        obtain ⟨hmachine, hentries⟩ := halike.same hsame₀
        have hreshuffled := hstep.reshuffle hgenuine h.dealt hsame
        rw [hmachine] at hreshuffled
        obtain rfl := hreshuffled.unique hstep'
        exact ⟨rfl, by simp [HandLog.record, hmachine, hentries]⟩

/-- What is kept along the two runs. -/
structure PairKept (sha256 : List UInt8 → List UInt8) (ids : List PlayerId) (playerId : PlayerId)
    (e e' : GameEngine) : Prop where
  first : FirstHand sha256 e
  first' : FirstHand sha256 e'
  kept : LogKept ids e
  kept' : LogKept ids e'
  alike : Alike sha256 playerId e e'

lemma LogKept.afterAction (h : LogKept ids e) : LogKept ids (e.afterAction sha256 a) :=
  LogKept.step (r := { engine := e }) h (.action a)

lemma pairKept_of_reachable (h : (handPairs sha256 ids startingStack playerId).Reachable (e, e')) :
    PairKept sha256 ids playerId e e' := by
  refine h.invariant (I := fun e => PairKept sha256 ids playerId e.1 e.2) ?_ ?_
  · rintro _ ⟨seed, nonce, seed', nonce', hasWallet, hasRepo, rfl⟩
    have hkept : ∀ rng, LogKept ids (.create ids startingStack rng hasWallet hasRepo) := fun rng =>
      ⟨rfl, forall_mem_nil _, by simp [GameEngine.create, HandStateMachine.initial,
        Function.comp_def]⟩
    exact ⟨.create .., .create .., hkept _, hkept _, ⟨.refl _, rfl, .nil, fun _ => ⟨rfl, rfl⟩⟩⟩
  · rintro ⟨e, e'⟩ a _ hi ⟨rfl, hphase, hknown⟩
    have hphase' : (e'.afterAction sha256 a).machine.state.phase ≠ .settle :=
      congrArg (·.phase) hknown ▸ hphase
    exact ⟨hi.first.afterAction hphase, hi.first'.afterAction hphase', hi.kept.afterAction,
      hi.kept'.afterAction, hi.alike.afterAction hi.first hi.first' hphase hknown⟩

end Pairs

/-! ### What the texts give away -/

section Texts

open Json

lemma cardJson_written_injective : Function.Injective fun c => written (cardJson c) := by
  rintro (_ | c) (_ | c') h
  · rfl
  · cases h
  · cases h
  · simpa [cardJson, written] using h

lemma holeCards_of_written {p q : PlayerStateInternal} (h : written p.toJson = written q.toJson) :
    p.holeCards = q.holeCards := by
  have hget := congrArg (·.get "holeCards") h
  obtain ⟨id, stack, folded, bet, allIn, holeCards⟩ := p
  obtain ⟨id', stack', folded', bet', allIn', holeCards'⟩ := q
  have hcards : ∀ cards : List (Option ℕ), array (writtenElements (cards.map cardJson)) =
      array (cards.map fun c => written (cardJson c)) := fun cards => by
    rw [← written_array_map, written]
  cases holeCards <;> cases holeCards' <;>
    simp [PlayerStateInternal.toJson, written, writtenMembers, Json.get, lookup_cons,
      hcards] at hget ⊢
  exact map_injective_iff.mpr cardJson_written_injective hget

lemma map_eq_of_map_eq {α β γ : Type*} {f : α → β} {g : α → γ}
    (hfg : ∀ x y, f x = f y → g x = g y) {xs ys : List α} (h : xs.map f = ys.map f) :
    xs.map g = ys.map g := by
  rw [← forall₂_eq_eq_eq, forall₂_map_left_iff, forall₂_map_right_iff] at h ⊢
  exact h.imp fun x y => hfg x y

/-- A written state has all the cards. -/
lemma cards_of_written {s s' : GameStateInternal} (h : written s.toJson = written s'.toJson) :
    s.cards = s'.cards := by
  rw [written_state_eq, written_state_eq] at h
  simp only [object.injEq, cons.injEq, Prod.mk.injEq, array.injEq, true_and, and_true] at h
  obtain ⟨-, -, -, -, -, hplayers, hdeck, hboard⟩ := h
  have hnumber : Function.Injective fun card : ℕ => number (card : ℤ) := fun c c' hc => by
    simpa using hc
  have hholes : s.players.map (·.holeCards) = s'.players.map (·.holeCards) :=
    map_eq_of_map_eq (fun _ _ => holeCards_of_written) hplayers
  have hview : s.cardView = s'.cardView := by
    rw [cardView, cardView, hholes, map_injective_iff.mpr hnumber hdeck,
      map_injective_iff.mpr hnumber hboard]
  exact (cards_eq_of_view hview).1

variable {sha256 : List UInt8 → List UInt8} {e e' : GameEngine}

/-- The last entry of a dealt hand has its state. -/
lemma FirstHand.getLast?_written (h : FirstHand sha256 e) (hin : e.machine.state.phase.InHand) :
    (e.log.entries.map fun entry => written entry.postState.toJson).getLast? =
      some (written e.machine.state.toJson) := by
  have hlast := h.last.resolve_left fun hwait => inHand_of_waiting (Or.inl hwait) hin
  obtain ⟨entry, hentry, hpost⟩ := Option.map_eq_some_iff.mp hlast
  rw [getLast?_map, hentry, Option.map_some, hpost]

/-- The lines of a dealt hand give its deck away. -/
lemma deck_of_lines (h : FirstHand sha256 e) (h' : FirstHand sha256 e')
    (hphase : e.machine.state.phase = e'.machine.state.phase)
    (hin : e.machine.state.phase.InHand)
    (hlines : e.log.entries.map (fun entry => stringify entry.toJson) =
      e'.log.entries.map fun entry => stringify entry.toJson) :
    e.deck sha256 = e'.deck sha256 := by
  have hposts : e.log.entries.map (fun entry => written entry.postState.toJson) =
      e'.log.entries.map fun entry => written entry.postState.toJson :=
    map_eq_of_map_eq (fun entry entry' hline => by
      have hparsed := congrArg parse hline
      rw [parse_stringify, parse_stringify] at hparsed
      exact congrArg (·.index 3) (Option.some.inj hparsed)) hlines
  have hlast := congrArg getLast? hposts
  rw [h.getLast?_written hin, h'.getLast?_written (hphase ▸ hin)] at hlast
  have hcards := cards_of_written (Option.some.inj hlast)
  rw [h.dealt.cards hin, h'.dealt.cards (hphase ▸ hin)] at hcards
  exact reverse_inj.mp hcards

end Texts

/-! ### What is delivered -/

/-- What goes through `sanitize` on its way to a player. -/
structure Sanitized where
  /-- The state frames after each call, for the player who acted or for nobody. -/
  frames : List (GameState × GameState)
  spectatorFrames : List GameState
  replay : Except RequestError (List HandReplayFrame)
  state : Option ℕ → Except RequestError HandState

/-- What the server delivers to a player. -/
structure Delivered where
  sanitized : Sanitized
  /-- The lines of the log after the commitment to the seed. -/
  log : Except RequestError (List Text)

namespace GameEngine

variable (e : GameEngine) (claims : JwtClaims) (clock : ℕ → ℕ)

/-- The file of an engine, and what the column of its row may hold. -/
def logStore (column : Option Text) : LogStore :=
  ⟨some e.log.fileText, column⟩

/-- The frames of all calls so far, at the times of these, and the responses now. -/
def delivered (column : Option Text) : Delivered where
  sanitized :=
    { frames := e.log.entries.map fun entry =>
        (sanitize entry.postState (some claims.sub) (clock entry.index),
          sanitize entry.postState none (clock entry.index))
      spectatorFrames := e.log.entries.map fun entry =>
        sanitize entry.postState.publicView none (clock entry.index)
      replay := getReplay (e.logStore column) claims (clock e.log.entries.length)
      state := fun index =>
        getState (e.logStore column) claims index (clock e.log.entries.length) }
  log := (getLog (e.logStore column) claims).map fun text => (Json.lines text).tail

end GameEngine

section Delivered

variable {sha256 : List UInt8 → List UInt8} {ids : List PlayerId} {startingStack : ℕ}
  {claims : JwtClaims} {e e' : GameEngine}

lemma map_eq_of_forall₂ {α β γ : Type*} {R : α → β → Prop} {f : α → γ} {g : β → γ}
    (hfg : ∀ x y, R x y → f x = g y) {xs : List α} {ys : List β} (h : Forall₂ R xs ys) :
    xs.map f = ys.map g := by
  rw [← forall₂_eq_eq_eq, forall₂_map_left_iff, forall₂_map_right_iff]
  exact h.imp fun x y => hfg x y

/-- A player may read the log once it has an entry. -/
lemma LogKept.assertParticipantOrAdmin (h : LogKept ids e) (hp : claims.sub ∈ ids)
    (column : Option Text) :
    HandController.assertParticipantOrAdmin (e.logStore column) claims =
      if claims.role ≠ some "admin" ∧ e.log.entries = [] then .error (.http .forbidden)
      else .ok claims.sub := by
  rw [logStore, assertParticipantOrAdmin_file, HandLog.recorded, h.lines]
  congr 2
  rcases hentries : e.log.entries with _ | ⟨entry, entries⟩
  · simp
  · have hplayers := h.players entry (hentries ▸ mem_cons_self)
    rw [← hplayers] at hp
    simpa using hp

lemma LogKept.getReplay (h : LogKept ids e) (hp : claims.sub ∈ ids) (column : Option Text)
    (now : ℕ) : HandController.getReplay (e.logStore column) claims now =
      if claims.role ≠ some "admin" ∧ e.log.entries = [] then .error (.http .forbidden)
      else .ok <| e.log.entries.map fun entry =>
        (sanitize entry.postState (some claims.sub) now).frame false := by
  have hread := getReplay_file e.log column claims now
  rw [← logStore, h.assertParticipantOrAdmin hp, HandLog.recorded, h.lines] at hread
  rw [hread]
  split_ifs <;> rfl

lemma LogKept.getState (h : LogKept ids e) (hp : claims.sub ∈ ids) (column : Option Text)
    (index : Option ℕ) (now : ℕ) : HandController.getState (e.logStore column) claims index now =
      if claims.role ≠ some "admin" ∧ e.log.entries = [] then .error (.http .forbidden)
      else
        let states := e.log.entries.map fun entry => sanitize entry.postState (some claims.sub) now
        match index.bind fun index => states[index]?.map (·.response index) with
        | some response => .ok response
        | none => .error (.http (.notFound "state not found")) := by
  have hread := getState_file e.log column claims now index
  rw [← logStore, h.assertParticipantOrAdmin hp, HandLog.recorded, h.lines] at hread
  rw [hread]
  simp only [getElem?_map, Option.map_map]
  split_ifs <;> rfl

lemma FirstHand.tail_lines (h : FirstHand sha256 e) : (Json.lines e.log.fileText).tail =
    e.log.entries.map fun entry => Json.stringify entry.toJson := by
  rw [HandLog.fileText, Json.lines_file, h.lines]
  simp [LogLine.toJson]

/-- What `getLog` delivers of a log before the proof. -/
lemma FirstHand.delivered_log (h : FirstHand sha256 e) (hkept : LogKept ids e)
    (hp : claims.sub ∈ ids) (clock : ℕ → ℕ) (column : Option Text) :
    (e.delivered claims clock column).log =
      if claims.role ≠ some "admin" ∧ e.log.entries = [] then .error (.http .forbidden)
      else .ok (e.log.entries.map fun entry => Json.stringify entry.toJson) := by
  have hread := getLog_file e.log column claims
  rw [← logStore, hkept.assertParticipantOrAdmin hp] at hread
  rw [delivered, hread, ← h.tail_lines]
  split_ifs <;> rfl

/-- What goes through `sanitize` is the same in both runs. -/
lemma PairKept.sanitized_eq (h : PairKept sha256 ids claims.sub e e') (hp : claims.sub ∈ ids)
    (clock : ℕ → ℕ) (column column' : Option Text) :
    (e.delivered claims clock column).sanitized =
      (e'.delivered claims clock column').sanitized := by
  have hown : ∀ {entry entry' : HandLogEntry} (now : ℕ), SameEntry claims.sub entry entry' →
      sanitize entry.postState (some claims.sub) now =
        sanitize entry'.postState (some claims.sub) now := fun now hsame => by
    rw [← sanitize_hideFrom, hsame.2, sanitize_hideFrom]
  have hnobody : ∀ {entry entry' : HandLogEntry} (now : ℕ), SameEntry claims.sub entry entry' →
      sanitize entry.postState none now = sanitize entry'.postState none now := fun now hsame => by
    rw [← sanitize_none_hideFrom _ claims.sub, hsame.2, sanitize_none_hideFrom]
  have hentries := h.alike.entries
  have hlength := hentries.length_eq
  have hnil : e.log.entries = [] ↔ e'.log.entries = [] := by
    rw [← length_eq_zero_iff, hlength, length_eq_zero_iff]
  have hreplay : getReplay (e.logStore column) claims (clock e.log.entries.length) =
      getReplay (e'.logStore column') claims (clock e'.log.entries.length) := by
    have hframes := map_eq_of_forall₂ (fun entry entry' hsame => congrArg (·.frame false)
      (hown (clock e'.log.entries.length) hsame)) hentries
    rw [h.kept.getReplay hp, h.kept'.getReplay hp, hlength, hframes]
    simp only [hnil]
  have hstate : ∀ index, getState (e.logStore column) claims index (clock e.log.entries.length) =
      getState (e'.logStore column') claims index (clock e'.log.entries.length) := by
    intro index
    have hstates := map_eq_of_forall₂ (fun entry entry' hsame =>
      hown (clock e'.log.entries.length) hsame) hentries
    rw [h.kept.getState hp, h.kept'.getState hp, hlength, hstates]
    simp only [hnil]
  simp only [delivered, Sanitized.mk.injEq]
  refine ⟨?_, ?_, hreplay, funext hstate⟩
  · refine map_eq_of_forall₂ (fun entry entry' hsame => ?_) hentries
    rw [hsame.1, hown _ hsame, hnobody _ hsame]
  · refine map_eq_of_forall₂ (fun entry entry' hsame => ?_) hentries
    rw [sanitize_publicView, sanitize_publicView, hsame.1, hnobody _ hsame]

/-- All that is delivered is the same exactly if the log is. -/
lemma PairKept.delivered_same_iff (h : PairKept sha256 ids claims.sub e e') (hp : claims.sub ∈ ids)
    (clock : ℕ → ℕ) (column column' : Option Text) :
    e.delivered claims clock column = e'.delivered claims clock column' ↔
      ¬ e.machine.state.phase.InHand ∨ e.deck sha256 = e'.deck sha256 := by
  have hlog := h.first.delivered_log h.kept hp clock column
  have hlog' := h.first'.delivered_log h.kept' hp clock column'
  constructor
  · intro hdelivered
    by_cases hin : e.machine.state.phase.InHand
    · right
      have hsome : e.log.entries ≠ [] := fun hnone => by
        have hlast := h.first.getLast?_written hin
        rw [hnone] at hlast
        cases hlast
      have hsome' : e'.log.entries ≠ [] := by
        rwa [← length_pos_iff, ← h.alike.entries.length_eq, length_pos_iff]
      have hlines := congrArg (·.log) hdelivered
      rw [hlog, hlog', if_neg fun hboth => hsome hboth.2, if_neg fun hboth => hsome' hboth.2]
        at hlines
      exact deck_of_lines h.first h.first' h.alike.twin.phase hin (Except.ok.inj hlines)
    · exact Or.inl hin
  · intro hsame
    rw [(h.alike.same hsame).2, ← hlog'] at hlog
    exact Delivered.mk.injEq _ _ _ _ ▸ ⟨h.sanitized_eq hp clock column column', hlog⟩

/-- Up to the settlement, what goes through `sanitize` is the same to a player in two runs that
differ in the cards hidden from him. The log, and with it all that is delivered, is the same exactly
before the cards are dealt or if the decks are the same. -/
theorem delivered_eq_iff (hp : claims.sub ∈ ids)
    (h : (handPairs sha256 ids startingStack claims.sub).Reachable (e, e')) (clock : ℕ → ℕ)
    (column column' : Option Text) :
    (e.delivered claims clock column).sanitized = (e'.delivered claims clock column').sanitized ∧
      (e.delivered claims clock column = e'.delivered claims clock column' ↔
        ¬ e.machine.state.phase.InHand ∨ e.deck sha256 = e'.deck sha256) := by
  have hkept := pairKept_of_reachable h
  exact ⟨hkept.sanitized_eq hp clock column column',
    hkept.delivered_same_iff hp clock column column'⟩

end Delivered

/-! ### Two seeds -/

def otherSeed : List UInt8 := replicate 31 0 ++ [3]

/-- The SHA-256 digests of the other seed with each of the counters 0 to 50, and with the nonce. -/
def otherSeedDigests : List ℕ :=
  [0x840034a11439d329ac8b80a74899c391b38961dbd7eb0b8d7eda1e1eeeb71bbd,
    0x53026bf49cb4fa67a462fb7e5826d5ece0286b535b841e45219be563053f2a93,
    0xcccb360f7a20256debacfaecf1d4eb6ef9a457c896256087afe0dee706c01c98,
    0x1790c8f1262f0cc5791a388de45b0c7b452780464d98408f90f51fde92d8a066,
    0xcc2f22c7ea7ac7bd82e6d99c92dafc228fa22827147dbeee0673b8e436b5c465,
    0x36bb59180e3aea92711f4b27fdb0c052dc5802826f28f79195cbf3abd626a10e,
    0x0eae8ff8357ade3924a5d384780b8116158583ada53d1a410493e2ac97682b6f,
    0x14885a32af798ed6e75d47d0e9b1d38fdd4d7c29fc598c6029dcee8536498faf,
    0xf0a6929d2b2d317f8f1b7290614592bc8dbff69a40e1f8bfe5dc4b5b37bfb90b,
    0xcbd866afc2862bad3a147c1c86b689358298aa9fa5930649c08642e1377a3d11,
    0x5138afdd459e0a79b84a478aea5005b213d3928345cea33c47757f6b32ba9f17,
    0x800474034b7b9d619ad4544fffe0643c86e3424795b15fba7f661c7ffc747f78,
    0x2f2c16f0f4492c4a6bad70211146bbd954cd80ab984b8d5eac2f717dab2d9fff,
    0x15fe2b5e8c9039a5b8d551e129a1580ea0a5e9d27ae7c9bc1703ad305f5d1601,
    0x06aeed15b5600ec8993446b86643bccd741fbff0c88e0378d3fa099ceae4adcd,
    0xe72c9dc6f0dee83e98681c59477d164b9edd75f1a243939ffc96e4ce6eddcd0f,
    0x34e8a6ee4c5e1ceed8b1f969696b827e97881b9894019190104a128c96f120fd,
    0x5bb219c7632991b2a6dc1aee1ff2997f254741b459f3ab99f0ab08439fb0750d,
    0x6c6e302cffc89392db84460965ce639b1e21a00f70704213371ee50710c2d819,
    0xdbabf56dc5a73eaf0e196a1563771daf451c43316b815c333e9ddc3ce7787232,
    0xba5d9b08d4b387d70761d62ce997296b0fa67ac770c68ae1ae85b83909f61ab1,
    0x13c70445d264bcbdea00a5fc197831cbf15713d6af1c94308a66dfa8dfd96d12,
    0x0cedd94f0d4aeb00281457fa71f38df8fe12c28dc66a62e7acc63e794622b7af,
    0x67c6393a3bcb8a7445c7a79dd25b5e7627bac32fe84a7617416af13e28a2357d,
    0x3f9dcb8afdf9f2a31ac285a9e1bd6364b6be308568b036f870bb162feab47dcd,
    0x31e3b5761acc27dc9cfabc92dbc8056e7f76f3f8d9e9c1c7252f7033453f7f05,
    0x5b4a02cd526c8a75acc0cb23e155c035dafc8e43e4eb851c18ed780975cea7a0,
    0xffd23656fa6c3949944ec423db48665807b74e8fc85be25affd12118c261cf62,
    0xe116fa51f48660345c2e0bbef643f427539296ede4546da3d752a1fef27a465e,
    0x12d762b960adfd927ce871d104e4d078dad6b1879c507967557209d45932db70,
    0x7e89ddb43fc59b59cef2cd2c2601e25ba0c8b277b63cfe195c290738edf7710b,
    0xe404cb5e67bb4449300a00f31cb81466d438b37d9b38810a62a1ae7a60098742,
    0x17f562e035231a1961a4db7852d7c9aeda33d39774c9eccf714a44edc58a7caf,
    0x09f41123a4623bd97a44d0b7ecb643aa980c246febe94bbc0be7b40e12bfcc88,
    0x58c79109f763d3ed892484d40728595516c6d7a5827d8dff81f103cc3fe53551,
    0x14221589df0ff8de2c9370fa947d9ba60a0e53fc360aa84b3cf5f5bd71611bb1,
    0x7872e8f43a74d2ec0ee7ace780a071535a93485102d19243b0f4b50afd98b091,
    0x1182ee1f1ebc6079d6bce85052d5713d470acd9b758077aac4370bb164c8e3d7,
    0x4b6ba22801f2c0bea34bfab658692d8d4c89e730c2d6873663d801b75a0cb606,
    0x6363185123cff3fbda75347e85d9bc5ec80a3a414136b1251ec54c7cea05b409,
    0xd63fefa679a5665ba1a26cfae768c19e0e8f500972c670699ad1a8ebb89407d1,
    0x6c445545ddea40ee14bcf83a828e66b0b832e8499df16a96d7e9e7b93e0eecb3,
    0x802bf7ed047a6cd48305265fc4f942c6a39ac06baabb18667daccdbe97b0b841,
    0x81f6b6c361278ff6e9b126082bcd0912d9c04ab3d5ca12649552a50959fc6f0d,
    0x748b3283ee44b156af05c406878935feefba5785682f81ebbf3afee2fbaeac6d,
    0xee004db193006bd5c3884c1c322d0635a75b43f669beb8adf13ff905c1d6c58c,
    0x82de21770ee20c3ad8c503cddefd90147a0e3111f5aa6f795453707ce1750f5c,
    0xab977e46e65b55882ebce21e0e2aa45e0668c1662fac3feea3ac2b883c92de89,
    0x83dc250410278feba4731552e0cdb1040ba023d6464d8b4523b9749404f0fdd0,
    0xbe5e8bf83b9dfbbe6dd56d95eaa4fe3ff90884ad5c828f49ef042b57b69329f3,
    0x8ec946f03a19a122017add857dd80ebd6367231f0efa24f3a0c5a0faed922bcf,
    0x4257ccaa9daa0f374c042f528a951020bde55a2f2c49b0d817bf081c40696ef7]

/-- SHA-256 on the inputs of the two hands. -/
def twoSeedsHash (input : List UInt8) : List UInt8 :=
  let inputs := [zeroSeed, otherSeed].flatMap fun seed =>
    (range 51).map (fun counter => seed ++ encode counter) ++ [seed ++ zeroNonce]
  digestBytes ((zeroSeedDigests ++ otherSeedDigests).getD (inputs.idxOf input) 0)

lemma twoSeedsHash_eq :
    twoSeedsHash = fun input =>
      let inputs := [zeroSeed, otherSeed].flatMap fun seed =>
        (range 51).map (fun counter => seed ++ encode counter) ++ [seed ++ zeroNonce]
      digestBytes ((zeroSeedDigests ++ otherSeedDigests).getD
        ((inputs.map inputNumber).idxOf (inputNumber input)) 0) := by
  funext input
  dsimp only
  rw [idxOf_map inputNumber_injective]
  rfl

/-- The engine of a hand of two players. -/
def seededEngine (seed : List UInt8) : GameEngine :=
  .create ["p1", "p2"] 100 (.create twoSeedsHash seed zeroNonce) false false

/-- The engine with one blind. -/
def blindEngine (seed : List UInt8) : GameEngine :=
  (seededEngine seed).afterAction twoSeedsHash (.postBlind "p1" 1)

/-- The engine once the cards are dealt. -/
def dealtEngine (seed : List UInt8) : GameEngine :=
  (blindEngine seed).afterAction twoSeedsHash (.postBlind "p2" 2)

lemma deck_zeroSeed : (seededEngine zeroSeed).deck twoSeedsHash =
    [0, 22, 40, 36, 23, 2, 10, 26, 17, 14, 13, 5, 25, 50, 31, 35, 41, 30, 48, 7, 42, 32, 38, 8, 6,
      3, 34, 9, 47, 1, 43, 39, 11, 44, 20, 45, 19, 4, 15, 16, 12, 18, 21, 24, 27, 28, 29, 33, 37,
      46, 49, 51] := by
  rw [seededEngine, twoSeedsHash_eq]
  decide +kernel

lemma deck_otherSeed : (seededEngine otherSeed).deck twoSeedsHash =
    [18, 30, 17, 21, 28, 20, 24, 38, 25, 32, 41, 26, 48, 50, 35, 19, 27, 37, 22, 23, 46, 29, 43, 9,
      5, 6, 11, 1, 45, 42, 14, 12, 39, 0, 44, 7, 13, 3, 2, 10, 4, 16, 8, 15, 31, 33, 34, 36, 40, 47,
      49, 51] := by
  rw [seededEngine, twoSeedsHash_eq]
  decide +kernel

lemma dealtEngine_state (seed : List UInt8) : (dealtEngine seed).machine.state =
    let dealt := dealHoleCards
      [⟨"p1", 99, false, 1, false, none⟩, ⟨"p2", 98, false, 2, false, none⟩]
      ((seededEngine seed).deck twoSeedsHash)
    { phase := .deal, street := .preflop, pot := 3, sidePots := [], currentBet := 2,
      players := dealt.1, deck := dealt.2, communityCards := [] } := rfl

/-- The first player holds the same cards in both hands. -/
lemma dealtEngine_known : (dealtEngine zeroSeed).machine.state.hideFrom "p1" =
    (dealtEngine otherSeed).machine.state.hideFrom "p1" := by
  rw [dealtEngine_state, dealtEngine_state, deck_zeroSeed, deck_otherSeed]
  decide

lemma dealtEngine_deck : (dealtEngine zeroSeed).deck twoSeedsHash ≠
    (dealtEngine otherSeed).deck twoSeedsHash := by
  rw [dealtEngine, dealtEngine, deck_afterAction, deck_afterAction, blindEngine, blindEngine,
    deck_afterAction, deck_afterAction, deck_zeroSeed, deck_otherSeed]
  decide

lemma reachable_dealtEngine : (handPairs twoSeedsHash ["p1", "p2"] 100 "p1").Reachable
    (dealtEngine zeroSeed, dealtEngine otherSeed) := by
  have hstart : (handPairs twoSeedsHash ["p1", "p2"] 100 "p1").Reachable
      (seededEngine zeroSeed, seededEngine otherSeed) :=
    .of_init ⟨zeroSeed, zeroNonce, otherSeed, zeroNonce, false, false, rfl⟩
  have hblind : (handPairs twoSeedsHash ["p1", "p2"] 100 "p1").Reachable
      (blindEngine zeroSeed, blindEngine otherSeed) :=
    hstart.tail (a := .postBlind "p1" 1) ⟨rfl, (nomatch ·), rfl⟩
  exact hblind.tail (a := .postBlind "p2" 2) ⟨rfl, (nomatch ·), dealtEngine_known⟩

/-- With the cards dealt from two seeds, the frames of the first player are the same, but not his
log. -/
theorem delivered_dealt :
    ((dealtEngine zeroSeed).delivered ⟨"p1", none⟩ (fun _ => 0) none).sanitized =
        ((dealtEngine otherSeed).delivered ⟨"p1", none⟩ (fun _ => 0) none).sanitized ∧
      ((dealtEngine zeroSeed).delivered ⟨"p1", none⟩ (fun _ => 0) none =
          (dealtEngine otherSeed).delivered ⟨"p1", none⟩ (fun _ => 0) none ↔
        ¬ (dealtEngine zeroSeed).machine.state.phase.InHand ∨
          (dealtEngine zeroSeed).deck twoSeedsHash = (dealtEngine otherSeed).deck twoSeedsHash) :=
  delivered_eq_iff (by decide) reachable_dealtEngine (fun _ => 0) none none

/-- The log shows a player the cards of the others. -/
theorem log_shows_hidden_cards :
    ¬ ∀ (sha256 : List UInt8 → List UInt8) (ids : List PlayerId) (startingStack : ℕ)
      (claims : JwtClaims) (e e' : GameEngine) (clock : ℕ → ℕ) (column : Option Text),
      claims.sub ∈ ids → (handPairs sha256 ids startingStack claims.sub).Reachable (e, e') →
      e.delivered claims clock column = e'.delivered claims clock column := by
  intro h
  have hsame := h twoSeedsHash ["p1", "p2"] 100 ⟨"p1", none⟩ _ _ (fun _ => 0) none (by decide)
    reachable_dealtEngine
  have hkept := pairKept_of_reachable reachable_dealtEngine
  rcases (hkept.delivered_same_iff (by decide) (fun _ => 0) none none).mp hsame with hnot | hdeck
  · exact hnot (Or.inl rfl)
  · exact dealtEngine_deck hdeck

end Pokerhub
