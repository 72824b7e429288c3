import Mathlib.Algebra.Order.Field.Rat
import Mathlib.Data.Finset.Card
import Mathlib.Data.Multiset.Basic
import Mathlib.Tactic.Linarith
import Pokerhub.Analytics.Engagement
import Pokerhub.Core.Json
import Pokerhub.Leaderboard.Service

/-!
# The two rebuilds of the leaderboard

`rebuild` and `rebuildFromEvents` of `leaderboard.service.ts` over the same game events, in exact
arithmetic and for any `updateRating`. The stream has the events in the order of time; the files are
read from the newest day to the oldest, and the day on which the window of the stream begins is not
read. A rating depends on the order of its events, so the rebuilds agree only where each ranked
player has played on one of the days that are read and on no other (`rebuilds_agree_iff`).
-/

namespace Pokerhub

open List

def DAY_MS : ℤ :=
  24 * 60 * 60 * 1000

/-- The numbers are of the type `κ`. -/
structure RatingState (κ : Type*) where
  rating : κ
  rd : κ
  volatility : κ
  deriving DecidableEq

/-- An opponent, with 1 for a win, 0 for a loss and 1/2 for a draw. -/
structure Match (κ : Type*) where
  rating : κ
  rd : κ
  score : κ
  deriving DecidableEq

/-- `updateRating(state, matches, ageDays)`. -/
abbrev UpdateRating (κ : Type*) := RatingState κ → List (Match κ) → κ → RatingState κ

structure ScoreEntry where
  sessions : Finset Text
  rating : ℚ
  rd : ℚ
  volatility : ℚ
  net : ℚ
  bb : ℚ
  hands : ℚ
  duration : ℚ
  buyIn : ℚ
  /-- Each finish as often as it was reached. -/
  finishes : Multiset ℚ
  deriving DecidableEq

def initScoreEntry : ScoreEntry where
  sessions := ∅
  rating := 0
  rd := 350
  volatility := 3 / 50
  net := 0
  bb := 0
  hands := 0
  duration := 0
  buyIn := 0
  finishes := 0

/-- A valid game event with a timestamp. -/
structure GameEvent (ι : Type*) where
  playerId : ι
  sessionId : Option Text
  ts : ℤ
  points : Option ℚ := none
  net : Option ℚ := none
  bb : Option ℚ := none
  hands : Option ℚ := none
  duration : Option ℚ := none
  buyIn : Option ℚ := none
  finish : Option ℚ := none
  deriving DecidableEq

structure ScoreDelta where
  points : ℚ := 0
  net : ℚ := 0
  bb : ℚ := 0
  hands : ℚ := 0
  duration : ℚ := 0
  buyIn : ℚ := 0
  finish : Option ℚ := none
  ageDays : ℚ := 0

section Rebuild

variable {ι : Type*} [LinearOrder ι] (updateRating : UpdateRating ℚ)

def updateScoreEntry (entry : ScoreEntry) (delta : ScoreDelta) : ScoreEntry :=
  let result := if 0 < delta.points then 1 else if delta.points < 0 then 0 else 1 / 2
  let updated := updateRating ⟨entry.rating, entry.rd, entry.volatility⟩ [⟨0, 350, result⟩]
    delta.ageDays
  { entry with
    rating := updated.rating
    rd := updated.rd
    volatility := updated.volatility
    net := entry.net + delta.net
    bb := entry.bb + delta.bb
    hands := entry.hands + delta.hands
    duration := entry.duration + delta.duration
    buyIn := entry.buyIn + delta.buyIn
    finishes := delta.finish.toList + entry.finishes }

/-- `!event.sessionId` is false. -/
def GameEvent.hasSession (event : GameEvent ι) : Bool :=
  event.sessionId.any (· ≠ [])

/-- The arithmetic of the leaderboard with this `updateRating`, at the time `now`. -/
def gameScoring (now : ℤ) : Scoring ScoreEntry ℚ (GameEvent ι) where
  initScoreEntry := initScoreEntry
  hand := fun delta entry => updateScoreEntry updateRating entry
    { points := delta, net := delta, bb := delta, hands := 1 }
  game := fun event entry =>
    updateScoreEntry updateRating
      { entry with sessions := insert (event.sessionId.getD []) entry.sessions }
      { points := event.points.getD 0
        net := event.net.getD 0
        bb := event.bb.getD 0
        hands := event.hands.getD 0
        duration := event.duration.getD 0
        buyIn := event.buyIn.getD 0
        finish := event.finish
        ageDays := (now - event.ts) / DAY_MS }
  sessions := fun entry => entry.sessions.card
  rating := ScoreEntry.rating

/-- The events that count, under their players. -/
def counted (events : List (GameEvent ι)) : List (ι × GameEvent ι) :=
  (events.filter (·.hasSession)).map fun event => (event.playerId, event)

/-- The scores of `rebuildWithEvents`, with its default for `minSessions`. -/
def rebuildWithEvents (now : ℤ) (events : List (GameEvent ι)) : List (ι × ScoreEntry) :=
  rebuiltScores (gameScoring updateRating now) (counted events) fun _ => 10

/-- `rebuild({days})`, over a stream in which an entry has the time of its event. -/
def rebuild (days : ℕ) (now : ℤ) (stream : List (GameEvent ι)) : List (ι × ScoreEntry) :=
  rebuildWithEvents updateRating now (rangeStream (·.ts) stream (now - days * DAY_MS))

/-- The number of the day in `toISOString`. -/
def utcDay (ts : ℤ) : ℤ :=
  ts / DAY_MS

def loadEvents (days : ℕ) (now : ℤ) (files : ℤ → List (GameEvent ι)) : List (GameEvent ι) :=
  (range days).flatMap fun i : ℕ => files (utcDay (now - i * DAY_MS))

def rebuildFromEvents (days : ℕ) (now : ℤ) (files : ℤ → List (GameEvent ι)) :
    List (ι × ScoreEntry) :=
  rebuildWithEvents updateRating now (loadEvents days now files)

/-- One file for each day. -/
def filesOf (events : List (GameEvent ι)) (day : ℤ) : List (GameEvent ι) :=
  events.filter fun event => utcDay event.ts = day

/-- The same scores and the same ranks, whatever `updateRating` is. -/
def RebuildsAgree (days : ℕ) (now : ℤ) (events : List (GameEvent ι)) : Prop :=
  ∀ updateRating : UpdateRating ℚ,
    rebuild updateRating days now events ~
      rebuildFromEvents updateRating days now (filesOf events) ∧
    rankedRows (gameScoring (ι := ι) updateRating now) (rebuild updateRating days now events) =
      rankedRows (gameScoring (ι := ι) updateRating now)
        (rebuildFromEvents updateRating days now (filesOf events))

end Rebuild

/-! ### The entry of a player -/

section Scores

variable {ι ε ρ γ : Type*} [LinearOrder ι] [LinearOrder ρ] (scoring : Scoring ε ρ γ)

omit [LinearOrder ρ] in
lemma lookup_cons_ite (k p : ι) (x : ε) (scores : List (ι × ε)) :
    ((k, x) :: scores).lookup p = if p = k then some x else scores.lookup p := by
  by_cases hk : p = k
  · simp [hk]
  · have hbeq : (p == k) = false := by simpa using hk
    simp [lookup_cons, hk, hbeq]

omit [LinearOrder ρ] in
lemma lookup_setScore (scores : List (ι × ε)) (id p : ι) (entry : ε) :
    (setScore scores id entry).lookup p = if p = id then some entry else scores.lookup p := by
  rw [setScore]
  split_ifs with hid hp hp
  · subst hp
    induction scores with
    | nil => cases hid
    | cons e scores ih =>
      obtain ⟨k, x⟩ := e
      by_cases hk : k = p
      · simp [hk]
      · have hrest : p ∈ scores.map (·.1) := by
          simpa [Ne.symm hk] using hid
        rw [map_cons, if_neg hk, lookup_cons_ite, if_neg (Ne.symm hk), ih hrest]
  · clear hid
    induction scores with
    | nil => rfl
    | cons e scores ih =>
      obtain ⟨k, x⟩ := e
      rw [map_cons, lookup_cons_ite k p x scores]
      by_cases hk : k = id
      · rw [if_pos hk, lookup_cons_ite, if_neg hp, if_neg (hk ▸ hp), ih]
      · rw [if_neg hk, lookup_cons_ite, ih]
  · subst hp
    have hnone : scores.lookup p = none := by
      rw [lookup_eq_none_iff]
      intro e he
      have hne : p ≠ e.1 := by
        rintro rfl
        exact hid (mem_map_of_mem he)
      simpa using hne
    rw [lookup_append, hnone, Option.none_or, lookup_cons_self]
  · rw [lookup_append, lookup_cons_ite, if_neg hp]
    exact Option.or_none

/-- The entry that the events of a player lead to. -/
def entryOf (events : List γ) : ε :=
  events.foldl (fun entry event => scoring.game event entry) scoring.initScoreEntry

omit [LinearOrder ι] [LinearOrder ρ] in
lemma entryOf_append (events : List γ) (event : γ) :
    entryOf scoring (events ++ [event]) = scoring.game event (entryOf scoring events) := by
  rw [entryOf, foldl_append]
  rfl

omit [LinearOrder ρ] in
/-- A player's entry depends on his own events only. -/
lemma lookup_foldl_setScore (events : List (ι × γ)) (p : ι) :
    (events.foldl (fun scores e =>
      setScore scores e.1 (scoring.game e.2 (scoreOf scoring scores e.1))) []).lookup p =
      if p ∈ events.map (·.1) then
        some (entryOf scoring ((events.filter fun e => e.1 = p).map (·.2)))
      else none := by
  induction events using List.reverseRecOn generalizing p with
  | nil => rfl
  | append_singleton events e ih =>
    rw [foldl_append, foldl_cons, foldl_nil, lookup_setScore, scoreOf, ih, ih]
    by_cases hp : p = e.1
    · subst hp
      have hmem : e.1 ∈ (events ++ [e]).map (·.1) := by simp
      have hlast : ([e].filter fun d => d.1 = e.1).map (·.2) = [e.2] := by simp
      rw [if_pos rfl, if_pos hmem, filter_append, map_append, hlast, entryOf_append]
      split_ifs with hkey
      · rfl
      · have hnone : (events.filter fun d => d.1 = e.1) = [] :=
          filter_eq_nil_iff.mpr fun d hd hde =>
            hkey (mem_map.mpr ⟨d, hd, by simpa using hde⟩)
        rw [hnone]
        rfl
    · have hlast : ([e].filter fun d => d.1 = p) = [] := by simp [Ne.symm hp]
      rw [if_neg hp, filter_append, hlast, append_nil]
      simp only [map_append, map_cons, map_nil, mem_append, mem_singleton, hp, or_false]

omit [LinearOrder ρ] in
lemma mem_iff_lookup {scores : List (ι × ε)} (h : (scores.map (·.1)).Nodup) {p : ι} {entry : ε} :
    (p, entry) ∈ scores ↔ scores.lookup p = some entry := by
  rw [lookup_eq_some_iff]
  constructor
  · intro hmem
    obtain ⟨before, rest, rfl⟩ := append_of_mem hmem
    refine ⟨before, rest, rfl, fun e he => ?_⟩
    rw [map_append, map_cons] at h
    have hne := (nodup_append.mp h).2.2 e.1 (mem_map_of_mem he) p mem_cons_self
    simpa using Ne.symm hne
  · rintro ⟨before, rest, rfl, -⟩
    simp

omit [LinearOrder ρ] in
lemma mem_rebuiltScores {events : List (ι × γ)} {minSessions : ι → ℕ} {p : ι} {entry : ε} :
    (p, entry) ∈ rebuiltScores scoring events minSessions ↔
      p ∈ events.map (·.1) ∧
        entry = entryOf scoring ((events.filter fun e => e.1 = p).map (·.2)) ∧
        minSessions p ≤ scoring.sessions entry := by
  have hempty : (([] : List (ι × ε)).map (·.1)).Nodup := nodup_nil
  have hnodup := nodup_foldl_setScore events (·.1)
    (fun scores e => scoring.game e.2 (scoreOf scoring scores e.1)) hempty
  rw [rebuiltScores, mem_filter, mem_iff_lookup hnodup, lookup_foldl_setScore]
  split_ifs with hp
  · rw [Option.some.injEq, decide_eq_true_eq, eq_comm]
    simp only [hp, true_and]
  · simp [hp]

/-- The ranking does not depend on the order in the map. -/
lemma rankedRows_eq_of_perm {scores scores' : List (ι × ε)} (h : (scores.map (·.1)).Nodup)
    (hperm : scores ~ scores') : rankedRows scoring scores = rankedRows scoring scores' := by
  have hsorted : scores.insertionSort (RankOrder scoring) =
      scores'.insertionSort (RankOrder scoring) := by
    refine Perm.eq_of_pairwise ?_ (pairwise_insertionSort _ _) (pairwise_insertionSort _ _)
      (((perm_insertionSort _ scores).trans hperm).trans (perm_insertionSort _ scores').symm)
    rintro ⟨p, x⟩ ⟨p', x'⟩ hmem hmem' hle hle'
    have hid : p = p' := by
      rcases hle with hlt | ⟨heq, hid⟩
      · rcases hle' with hlt' | ⟨heq', -⟩
        · exact absurd hlt hlt'.asymm
        · exact absurd heq' hlt.ne
      · rcases hle' with hlt' | ⟨-, hid'⟩
        · exact absurd heq hlt'.ne
        · exact le_antisymm hid hid'
    rw [mem_insertionSort] at hmem hmem'
    subst hid
    have hx := (mem_iff_lookup h).mp hmem
    have hx' := (mem_iff_lookup h).mp (hperm.mem_iff.mpr hmem')
    rw [Option.some.inj (hx.symm.trans hx')]
  rw [rankedRows, rankedRows, hsorted]

end Scores

/-! ### The same events in another order -/

section Agree

variable {ι : Type*} [LinearOrder ι] {updateRating : UpdateRating ℚ} {days : ℕ} {now : ℤ}
  {events : List (GameEvent ι)} {p : ι} {entry : ScoreEntry}

/-- What counts for a player. -/
def playerEvents (p : ι) (events : List (GameEvent ι)) : List (GameEvent ι) :=
  events.filter fun event => event.hasSession ∧ event.playerId = p

def sessionsOf (events : List (GameEvent ι)) : Finset Text :=
  (events.map fun event => event.sessionId.getD []).toFinset

lemma mem_playerEvents {event : GameEvent ι} :
    event ∈ playerEvents p events ↔
      event ∈ events ∧ event.hasSession = true ∧ event.playerId = p := by
  rw [playerEvents, mem_filter, decide_eq_true_eq]

omit [LinearOrder ι] in
lemma sessions_entryOf (events : List (GameEvent ι)) :
    (entryOf (gameScoring updateRating now) events).sessions = sessionsOf events := by
  induction events using List.reverseRecOn with
  | nil => rfl
  | append_singleton events event ih =>
    have hinsert : sessionsOf (events ++ [event]) =
        insert (event.sessionId.getD []) (sessionsOf events) := by
      ext x
      simp [sessionsOf]
    rw [entryOf_append, hinsert, ← ih]
    rfl

/-- A player has his entry exactly if it has ten sessions. -/
lemma mem_rebuildWithEvents :
    (p, entry) ∈ rebuildWithEvents updateRating now events ↔
      entry = entryOf (gameScoring updateRating now) (playerEvents p events) ∧
        10 ≤ (sessionsOf (playerEvents p events)).card := by
  have hown : (((counted events).filter fun e => e.1 = p).map (·.2)) = playerEvents p events := by
    rw [counted, filter_map, map_map, filter_filter, playerEvents]
    simp only [Function.comp_def, map_id', Bool.decide_and, Bool.decide_eq_true, Bool.and_comm]
  have hcard : (gameScoring (ι := ι) updateRating now).sessions
      (entryOf (gameScoring (ι := ι) updateRating now) (playerEvents p events)) =
      (sessionsOf (playerEvents p events)).card :=
    congrArg Finset.card (sessions_entryOf (playerEvents p events))
  rw [rebuildWithEvents, mem_rebuiltScores, hown]
  constructor
  · rintro ⟨-, rfl, hten⟩
    exact ⟨rfl, hcard ▸ hten⟩
  · rintro ⟨rfl, hten⟩
    refine ⟨?_, rfl, hcard.symm ▸ hten⟩
    have hne : playerEvents p events ≠ [] := by
      rintro hnil
      simp [hnil, sessionsOf] at hten
    obtain ⟨event, hevent⟩ := exists_mem_of_ne_nil _ hne
    obtain ⟨hmem, hsession, rfl⟩ := mem_playerEvents.mp hevent
    exact mem_map.mpr ⟨(event.playerId, event),
      mem_map.mpr ⟨event, mem_filter.mpr ⟨hmem, hsession⟩, rfl⟩, rfl⟩

lemma nodup_rebuildWithEvents (events : List (GameEvent ι)) :
    ((rebuildWithEvents updateRating now events).map (·.1)).Nodup :=
  nodup_rebuiltScores _ _ _

/-- Two rebuilds agree exactly when each player with ten sessions in either of them has the same
entry in both. -/
lemma rebuildWithEvents_perm_iff {events' : List (GameEvent ι)} :
    rebuildWithEvents updateRating now events ~ rebuildWithEvents updateRating now events' ↔
      ∀ p, (10 ≤ (sessionsOf (playerEvents p events)).card ↔
          10 ≤ (sessionsOf (playerEvents p events')).card) ∧
        (10 ≤ (sessionsOf (playerEvents p events)).card →
          entryOf (gameScoring updateRating now) (playerEvents p events) =
            entryOf (gameScoring updateRating now) (playerEvents p events')) := by
  rw [perm_ext_iff_of_nodup (nodup_rebuildWithEvents events).of_map
    (nodup_rebuildWithEvents events').of_map]
  constructor
  · intro h p
    have hmem (entry : _) := mem_rebuildWithEvents.symm.trans
      ((h (p, entry)).trans mem_rebuildWithEvents)
    refine ⟨⟨fun hten => ?_, fun hten => ?_⟩, fun hten => ?_⟩
    · exact ((hmem _).mp ⟨rfl, hten⟩).2
    · exact ((hmem _).mpr ⟨rfl, hten⟩).2
    · exact ((hmem _).mp ⟨rfl, hten⟩).1
  · rintro h ⟨p, entry⟩
    obtain ⟨hten, hentry⟩ := h p
    rw [mem_rebuildWithEvents, mem_rebuildWithEvents]
    constructor
    · rintro ⟨rfl, hcard⟩
      exact ⟨hentry hcard, hten.mp hcard⟩
    · rintro ⟨rfl, hcard⟩
      exact ⟨(hentry (hten.mpr hcard)).symm, hten.mpr hcard⟩

/-! ### Day by day -/

lemma utcDay_sub (now : ℤ) (i : ℕ) : utcDay (now - i * DAY_MS) = utcDay now - i := by
  rw [utcDay, utcDay, sub_eq_add_neg, ← neg_mul, Int.add_mul_ediv_right _ _ (by decide),
    ← sub_eq_add_neg]

/-- The loader goes through a player's events from the newest day on. -/
lemma playerEvents_loadEvents (p : ι) (days : ℕ) (now : ℤ) (events : List (GameEvent ι)) :
    playerEvents p (loadEvents days now (filesOf events)) =
      (range days).flatMap fun i : ℕ => filesOf (playerEvents p events) (utcDay now - i) := by
  rw [playerEvents, loadEvents, filter_flatMap]
  refine flatMap_congr fun i _ => ?_
  rw [utcDay_sub, filesOf, filesOf, playerEvents, filter_filter, filter_filter]
  exact filter_congr fun event _ => Bool.and_comm _ _

lemma mem_playerEvents_loadEvents {event : GameEvent ι} :
    event ∈ playerEvents p (loadEvents days now (filesOf events)) ↔
      event ∈ playerEvents p events ∧ utcDay now - days < utcDay event.ts ∧
        utcDay event.ts ≤ utcDay now := by
  rw [playerEvents_loadEvents, mem_flatMap]
  constructor
  · rintro ⟨i, hi, hevent⟩
    obtain ⟨hmem, hday⟩ := mem_filter.mp hevent
    rw [mem_range] at hi
    rw [decide_eq_true_eq] at hday
    exact ⟨hmem, by omega, by omega⟩
  · rintro ⟨hmem, hlow, hhigh⟩
    refine ⟨(utcDay now - utcDay event.ts).toNat, mem_range.mpr (by omega),
      mem_filter.mpr ⟨hmem, ?_⟩⟩
    rw [decide_eq_true_eq]
    omega

/-- On one day that is read, the loader has the events as the stream has them. -/
lemma playerEvents_loadEvents_of_day {day : ℤ} (hlow : utcDay now - days < day)
    (hhigh : day ≤ utcDay now) (hday : ∀ event ∈ playerEvents p events, utcDay event.ts = day) :
    playerEvents p (loadEvents days now (filesOf events)) = playerEvents p events := by
  have hone (i : ℕ) : filesOf (playerEvents p events) (utcDay now - i) =
      if utcDay now - i = day then playerEvents p events else [] := by
    split_ifs with hi
    · exact filter_eq_self.mpr fun event hevent => by
        rw [decide_eq_true_eq, hi]
        exact hday event hevent
    · exact filter_eq_nil_iff.mpr fun event hevent hne => by
        rw [decide_eq_true_eq, hday event hevent] at hne
        exact hi hne.symm
  obtain ⟨k, hk⟩ : ∃ k : ℕ, utcDay now - k = day := ⟨(utcDay now - day).toNat, by omega⟩
  have hsum : ∀ n : ℕ, ((range n).flatMap fun i : ℕ =>
      filesOf (playerEvents p events) (utcDay now - i)) =
        if k < n then playerEvents p events else [] := by
    intro n
    induction n with
    | zero => rfl
    | succ n ih =>
      rw [range_succ, flatMap_append, ih, flatMap_singleton, hone]
      rcases lt_trichotomy k n with hlt | rfl | hgt
      · rw [if_pos hlt, if_neg (by omega), if_pos (by omega), append_nil]
      · rw [if_neg (by omega), if_pos hk, if_pos (by omega), nil_append]
      · rw [if_neg (by omega), if_neg (by omega), if_neg (by omega), append_nil]
  rw [playerEvents_loadEvents, hsum, if_pos (by omega)]

/-- The first event that is loaded is on the newest day. -/
lemma pairwise_loadEvents : (playerEvents p (loadEvents days now (filesOf events))).Pairwise
    fun a b => utcDay b.ts ≤ utcDay a.ts := by
  rw [playerEvents_loadEvents, pairwise_flatMap]
  constructor
  · intro i _
    refine pairwise_of_forall_mem_list fun a ha b hb => ?_
    have hday := (mem_filter.mp ha).2
    have hday' := (mem_filter.mp hb).2
    rw [decide_eq_true_eq] at hday hday'
    omega
  · refine (pairwise_lt_range (n := days)).imp fun hlt a ha b hb => ?_
    have hday := (mem_filter.mp ha).2
    have hday' := (mem_filter.mp hb).2
    rw [decide_eq_true_eq] at hday hday'
    omega

/-! ### What the ratings tell about the order -/

/-- A rating that keeps the age of the first event. -/
def firstAge : UpdateRating ℚ := fun state _ ageDays =>
  if state.rd = 350 then ⟨ageDays, 0, 0⟩ else state

omit [LinearOrder ι] in
lemma rating_firstAge (event : GameEvent ι) (rest : List (GameEvent ι)) :
    (entryOf (gameScoring firstAge now) (event :: rest)).rating = (now - event.ts) / DAY_MS := by
  have hkeep : (entryOf (gameScoring firstAge now) (event :: rest)).rd = 0 ∧
      (entryOf (gameScoring firstAge now) (event :: rest)).rating =
        (now - event.ts) / DAY_MS := by
    induction rest using List.reverseRecOn with
    | nil => exact ⟨rfl, rfl⟩
    | append_singleton rest last ih =>
      rw [← cons_append, entryOf_append]
      set entry := entryOf (gameScoring firstAge now) (event :: rest)
      have hstate : firstAge ⟨entry.rating, entry.rd, entry.volatility⟩ =
          fun _ _ => ⟨entry.rating, entry.rd, entry.volatility⟩ := by
        funext _ _
        rw [firstAge, ih.1, if_neg (by norm_num)]
      constructor
      · change (firstAge ⟨entry.rating, entry.rd, entry.volatility⟩ _ _).rd = 0
        rw [hstate, ih.1]
      · change (firstAge ⟨entry.rating, entry.rd, entry.volatility⟩ _ _).rating = _
        rw [hstate, ih.2]
  exact hkeep.2

omit [LinearOrder ι] in
lemma ts_eq_of_entryOf_firstAge {event event' : GameEvent ι} {rest rest' : List (GameEvent ι)}
    (h : entryOf (gameScoring firstAge now) (event :: rest) =
      entryOf (gameScoring firstAge now) (event' :: rest')) : event.ts = event'.ts := by
  have hrating := congrArg ScoreEntry.rating h
  rw [rating_firstAge, rating_firstAge] at hrating
  have hday : ((DAY_MS : ℤ) : ℚ) ≠ 0 := by
    exact_mod_cast (by decide : DAY_MS ≠ 0)
  have hsub := (div_left_inj' hday).mp hrating
  have hcast : (event.ts : ℚ) = event'.ts := by linarith
  exact_mod_cast hcast

/-! ### Where the rebuilds agree -/

/-- Every player with ten sessions has played on one day only, and it is one that is read. -/
def OneDayEach (days : ℕ) (now : ℤ) (events : List (GameEvent ι)) : Prop :=
  ∀ p, 10 ≤ (sessionsOf (playerEvents p events)).card →
    ∃ day, utcDay now - days < day ∧ ∀ event ∈ playerEvents p events, utcDay event.ts = day

/-- The events are within the last days. -/
def InWindow (days : ℕ) (now : ℤ) (events : List (GameEvent ι)) : Prop :=
  ∀ event ∈ events, now - days * DAY_MS ≤ event.ts ∧ event.ts ≤ now

lemma utcDay_mono {ts ts' : ℤ} (h : ts ≤ ts') : utcDay ts ≤ utcDay ts' :=
  Int.ediv_le_ediv (by decide) h

omit [LinearOrder ι] in
lemma rangeStream_of_inWindow (h : InWindow days now events) :
    rangeStream (·.ts) events (now - days * DAY_MS) = events :=
  filter_eq_self.mpr fun event hevent => decide_eq_true (h event hevent).1

lemma exists_cons_of_ten (h : 10 ≤ (sessionsOf (playerEvents p events)).card) :
    ∃ event rest, playerEvents p events = event :: rest := by
  refine exists_cons_of_ne_nil fun hnil => ?_
  simp [hnil, sessionsOf] at h

omit [LinearOrder ι] in
/-- What comes first in an order is not after anything else. -/
lemma le_of_pairwise_cons {β : Type*} [Preorder β] {key : GameEvent ι → β}
    {l rest : List (GameEvent ι)} {first event : GameEvent ι}
    (h : l.Pairwise fun a b => key a ≤ key b) (hl : l = first :: rest) (hevent : event ∈ l) :
    key first ≤ key event := by
  subst hl
  rcases mem_cons.mp hevent with rfl | hrest
  · exact le_rfl
  · exact (pairwise_cons.mp h).1 event hrest

lemma RebuildsAgree.oneDayEach (h : RebuildsAgree days now events)
    (hsorted : events.Pairwise fun a b => a.ts ≤ b.ts) (hwindow : InWindow days now events) :
    OneDayEach days now events := by
  intro p hten
  have hperm := (h firstAge).1
  rw [rebuild, rangeStream_of_inWindow hwindow, rebuildFromEvents,
    rebuildWithEvents_perm_iff] at hperm
  obtain ⟨htens, hentry⟩ := hperm p
  have hfirst := hentry hten
  obtain ⟨event, rest, hown⟩ := exists_cons_of_ten hten
  obtain ⟨event', rest', hloaded⟩ := exists_cons_of_ten (htens.mp hten)
  rw [hown, hloaded] at hfirst
  have hts := ts_eq_of_entryOf_firstAge hfirst
  -- the first event that is loaded is as old as the oldest one, and on the newest day
  have hread : event' ∈ playerEvents p (loadEvents days now (filesOf events)) :=
    hloaded ▸ mem_cons_self
  have hlow := (mem_playerEvents_loadEvents.mp hread).2.1
  refine ⟨utcDay event'.ts, hlow, fun other hother => ?_⟩
  have hoth := (mem_playerEvents.mp hother).1
  have holdest : event'.ts ≤ other.ts :=
    hts ▸ le_of_pairwise_cons (hsorted.sublist filter_sublist) hown hother
  have hloads : other ∈ playerEvents p (loadEvents days now (filesOf events)) :=
    mem_playerEvents_loadEvents.mpr
      ⟨hother, hlow.trans_le (utcDay_mono holdest), utcDay_mono (hwindow other hoth).2⟩
  have hnewest : utcDay other.ts ≤ utcDay event'.ts := by
    have hpairwise : (playerEvents p (loadEvents days now (filesOf events))).Pairwise
        fun a b => OrderDual.toDual (utcDay a.ts) ≤ OrderDual.toDual (utcDay b.ts) :=
      pairwise_loadEvents
    exact le_of_pairwise_cons hpairwise hloaded hloads
  exact le_antisymm hnewest (utcDay_mono holdest)

lemma OneDayEach.perm (h : OneDayEach days now events) (hwindow : InWindow days now events) :
    rebuild updateRating days now events ~
      rebuildFromEvents updateRating days now (filesOf events) := by
  rw [rebuild, rangeStream_of_inWindow hwindow, rebuildFromEvents, rebuildWithEvents_perm_iff]
  intro p
  by_cases hten : 10 ≤ (sessionsOf (playerEvents p events)).card
  · obtain ⟨day, hlow, hday⟩ := h p hten
    obtain ⟨event, rest, hown⟩ := exists_cons_of_ten hten
    have hevent : event ∈ playerEvents p events := hown ▸ mem_cons_self
    have hhigh : day ≤ utcDay now := by
      rw [← hday event hevent]
      exact utcDay_mono (hwindow event (mem_playerEvents.mp hevent).1).2
    rw [playerEvents_loadEvents_of_day hlow hhigh hday]
    exact ⟨Iff.rfl, fun _ => rfl⟩
  · have hsubset : sessionsOf (playerEvents p (loadEvents days now (filesOf events))) ⊆
        sessionsOf (playerEvents p events) := by
      intro x hx
      simp only [sessionsOf, mem_toFinset, mem_map] at hx ⊢
      obtain ⟨event, hevent, rfl⟩ := hx
      exact ⟨event, (mem_playerEvents_loadEvents.mp hevent).1, rfl⟩
    have hfew := Finset.card_le_card hsubset
    exact ⟨⟨fun hmany => absurd hmany hten, fun hmany => absurd (hmany.trans hfew) hten⟩,
      fun hmany => absurd hmany hten⟩

/-- Over the same events in the order of time, the two rebuilds agree for every `updateRating`
exactly when each player with ten sessions has played on one day that is read. -/
theorem rebuilds_agree_iff (hsorted : events.Pairwise fun a b => a.ts ≤ b.ts)
    (hwindow : InWindow days now events) :
    RebuildsAgree days now events ↔ OneDayEach days now events := by
  refine ⟨fun h => h.oneDayEach hsorted hwindow, fun h updateRating => ?_⟩
  have hperm : rebuild updateRating days now events ~
      rebuildFromEvents updateRating days now (filesOf events) := h.perm hwindow
  exact ⟨hperm, rankedRows_eq_of_perm _ (nodup_rebuildWithEvents _) hperm⟩

/-- Ten sessions of a player, the first ones at one time and the last ones at another. -/
def tenSessions (first last : ℤ) : List (GameEvent ℕ) :=
  (range 10).map fun i : ℕ =>
    { playerId := 1
      sessionId := some (Nat.toDigits 10 i)
      ts := if i < 5 then first else last
      points := some (if i < 5 then 1 else -1) }

/-- All of them today. -/
theorem rebuilds_agree_today :
    RebuildsAgree 30 (DAY_MS + 10) (tenSessions DAY_MS (DAY_MS + 5)) := by
  have hwindow : InWindow 30 (DAY_MS + 10) (tenSessions DAY_MS (DAY_MS + 5)) := by
    unfold InWindow
    decide
  refine (rebuilds_agree_iff (by decide) hwindow).mpr fun p _ =>
    ⟨1, by decide, fun event hevent => ?_⟩
  have hday : ∀ event ∈ tenSessions DAY_MS (DAY_MS + 5), utcDay event.ts = 1 := by decide
  exact hday event (mem_playerEvents.mp hevent).1

/-- Some yesterday and some today: the files begin with today. -/
theorem rebuilds_differ :
    ¬ ∀ (days : ℕ) (now : ℤ) (events : List (GameEvent ℕ)),
      events.Pairwise (fun a b => a.ts ≤ b.ts) → InWindow days now events →
      RebuildsAgree days now events := by
  intro h
  have hsorted : (tenSessions 0 DAY_MS).Pairwise fun a b => a.ts ≤ b.ts := by decide
  have hwindow : InWindow 30 (DAY_MS + 10) (tenSessions 0 DAY_MS) := by
    unfold InWindow
    decide
  obtain ⟨day, -, hday⟩ := (h 30 _ _ hsorted hwindow).oneDayEach hsorted hwindow 1 (by decide)
  have hyesterday := hday _ (mem_playerEvents.mpr
    ⟨mem_of_mem_head? (a := ⟨1, some ['0'], 0, some 1, none, none, none, none, none, none⟩) rfl,
      rfl, rfl⟩)
  have htoday := hday _ (mem_playerEvents.mpr
    ⟨mem_of_getLast? (a := ⟨1, some ['9'], DAY_MS, some (-1), none, none, none, none, none, none⟩)
      rfl, rfl, rfl⟩)
  rw [← hyesterday] at htoday
  exact absurd htoday (by decide)

end Agree

end Pokerhub
