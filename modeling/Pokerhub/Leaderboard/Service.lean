import Mathlib.Data.List.Sort
import Mathlib.Data.Prod.Lex
import Mathlib.Order.Lattice
import Pokerhub.Core.Transition

/-!
# The leaderboard

`leaderboard.service.ts`. Every call of `handleHandSettled` and `rebuild` takes the rows of the
scores as they are, clears the table and inserts the rows, and others go on while it waits. Where
the calls clear in the order in which they took their rows, each when the one before it is done,
and nobody reads between a clear and its insert, the table is always whole and in the end the
ranking of the scores (`consistent_of_inTurn`).
-/

namespace Pokerhub

open List TransitionSystem

/-- The arithmetic of `score-utils.ts`: entries `ε` with ratings `ρ`, game events `γ`. -/
structure Scoring (ε ρ γ : Type*) where
  initScoreEntry : ε
  /-- `updateScoreEntry` with the delta of a hand. -/
  hand : ℤ → ε → ε
  /-- `sessions.add` and `updateScoreEntry` with the values of a game event. -/
  game : γ → ε → ε
  /-- `sessions.size`. -/
  sessions : ε → ℕ
  rating : ε → ρ

structure LeaderboardRow (ι ε : Type*) where
  playerId : ι
  rank : ℕ
  entry : ε
  deriving DecidableEq

/-- Where a call of `persist` waits, with its rows. -/
inductive PersistStage (ι ε : Type*) where
  | clear (rows : List (LeaderboardRow ι ε))
  | insert (rows : List (LeaderboardRow ι ε))
  deriving DecidableEq

def PersistStage.rows {ι ε : Type*} : PersistStage ι ε → List (LeaderboardRow ι ε)
  | .clear rows | .insert rows => rows

/-- The call has cleared the table. -/
def PersistStage.isInsert {ι ε : Type*} : PersistStage ι ε → Bool
  | .clear _ => false
  | .insert _ => true

structure Leaderboard (ι ε : Type*) where
  /-- The map of the scores, in the order of its insertions. -/
  scores : List (ι × ε)
  table : List (LeaderboardRow ι ε)
  /-- The calls that are not done, in the order in which they took their rows. -/
  calls : List (PersistStage ι ε) := []
  /-- The rows of the call that was done last. -/
  stored : List (LeaderboardRow ι ε)
  /-- The calls that ended with a key conflict. -/
  failed : ℕ := 0
  /-- What readers have seen, each with the rows that were stored then. -/
  reads : List (List (LeaderboardRow ι ε) × List (LeaderboardRow ι ε)) := []
  deriving DecidableEq

inductive LeaderboardEvent (ι γ : Type*) where
  /-- `handleHandSettled` up to its first wait. -/
  | handSettled (playerIds : List ι) (deltas : List ℤ)
  /-- `rebuildWithEvents` up to its first wait. -/
  | rebuild (events : List (ι × γ)) (minSessions : ι → ℕ)
  | clear (i : ℕ)
  | insert (i : ℕ)
  | read

variable {ι ε ρ γ : Type*} [LinearOrder ι] [LinearOrder ρ]

/-! ### Scores -/

section Scores

/-- `scores.set(id, entry)`. -/
def setScore (scores : List (ι × ε)) (id : ι) (entry : ε) : List (ι × ε) :=
  if id ∈ scores.map (·.1) then scores.map fun e => if e.1 = id then (id, entry) else e
  else scores ++ [(id, entry)]

variable (scoring : Scoring ε ρ γ)

/-- `scores.get(id) ?? initScoreEntry()`. -/
def scoreOf (scores : List (ι × ε)) (id : ι) : ε :=
  (scores.lookup id).getD scoring.initScoreEntry

def creditHand (scores : List (ι × ε)) (playerIds : List ι) (deltas : List ℤ) : List (ι × ε) :=
  playerIds.zipIdx.foldl (fun scores e =>
    setScore scores e.1 (scoring.hand (deltas.getD e.2 0) (scoreOf scoring scores e.1))) scores

/-- The scores of game events, all of them with a session. -/
def rebuiltScores (events : List (ι × γ)) (minSessions : ι → ℕ) : List (ι × ε) :=
  (events.foldl (fun scores e =>
    setScore scores e.1 (scoring.game e.2 (scoreOf scoring scores e.1))) []).filter fun e =>
      minSessions e.1 ≤ scoring.sessions e.2

/-- The order of the ranking: rating descending, then id ascending. -/
def RankOrder (a b : ι × ε) : Prop :=
  scoring.rating b.2 < scoring.rating a.2 ∨
    (scoring.rating a.2 = scoring.rating b.2 ∧ a.1 ≤ b.1)

instance : DecidableRel (RankOrder (ι := ι) scoring) :=
  fun _ _ => inferInstanceAs (Decidable (_ ∨ (_ ∧ _)))

/-- The rows that `persist` takes. -/
def rankedRows (scores : List (ι × ε)) : List (LeaderboardRow ι ε) :=
  (scores.insertionSort (RankOrder scoring)).zipIdx.map fun e => ⟨e.1.1, e.2 + 1, e.1.2⟩

/-- Every scored player once, with the ranks from 1 on in the order of the ranking. -/
structure Ranked (scores : List (ι × ε)) (table : List (LeaderboardRow ι ε)) : Prop where
  players : (table.map fun row => (row.playerId, row.entry)).Perm scores
  once : (table.map (·.playerId)).Nodup
  ranks : table.map (·.rank) = range' 1 table.length
  sorted : table.Pairwise fun a b =>
    scoring.rating b.entry < scoring.rating a.entry ∨
      (scoring.rating a.entry = scoring.rating b.entry ∧ a.playerId < b.playerId)

lemma map_fst_setScore (scores : List (ι × ε)) (id : ι) (entry : ε) :
    (setScore scores id entry).map (·.1) =
      if id ∈ scores.map (·.1) then scores.map (·.1) else scores.map (·.1) ++ [id] := by
  unfold setScore
  split_ifs
  · rw [map_map]
    refine map_congr_left fun e _ => ?_
    simp only [Function.comp_apply]
    split_ifs with he
    · exact he.symm
    · rfl
  · simp

lemma nodup_setScore {scores : List (ι × ε)} (h : (scores.map (·.1)).Nodup) (id : ι) (entry : ε) :
    ((setScore scores id entry).map (·.1)).Nodup := by
  rw [map_fst_setScore]
  split_ifs with hid
  · exact h
  · exact h.append (nodup_singleton id) (by simpa using hid)

lemma nodup_foldl_setScore {β : Type*} (l : List β) (id : β → ι)
    (entry : List (ι × ε) → β → ε) {scores : List (ι × ε)} (h : (scores.map (·.1)).Nodup) :
    ((l.foldl (fun scores b => setScore scores (id b) (entry scores b)) scores).map
      (·.1)).Nodup := by
  induction l generalizing scores with
  | nil => exact h
  | cons b l ih => exact ih (nodup_setScore h _ _)

omit [LinearOrder ρ] in
lemma nodup_creditHand {scores : List (ι × ε)} (h : (scores.map (·.1)).Nodup)
    (playerIds : List ι) (deltas : List ℤ) :
    ((creditHand scoring scores playerIds deltas).map (·.1)).Nodup :=
  nodup_foldl_setScore playerIds.zipIdx (·.1) _ h

omit [LinearOrder ρ] in
lemma nodup_rebuiltScores (events : List (ι × γ)) (minSessions : ι → ℕ) :
    ((rebuiltScores scoring events minSessions).map (·.1)).Nodup := by
  have hnil : (([] : List (ι × ε)).map (·.1)).Nodup := nodup_nil
  exact (nodup_foldl_setScore events (·.1) _ hnil).sublist (filter_sublist.map _)

instance : Std.Total (RankOrder (ι := ι) scoring) where
  total a b := by
    unfold RankOrder
    rcases lt_trichotomy (scoring.rating a.2) (scoring.rating b.2) with h | h | h
    · exact Or.inr (Or.inl h)
    · rcases le_total a.1 b.1 with hid | hid
      · exact Or.inl (Or.inr ⟨h, hid⟩)
      · exact Or.inr (Or.inr ⟨h.symm, hid⟩)
    · exact Or.inl (Or.inl h)

instance : IsTrans (ι × ε) (RankOrder (ι := ι) scoring) where
  trans a b c := by
    rintro (hab | ⟨hab, hid⟩) (hbc | ⟨hbc, hid'⟩)
    · exact Or.inl (hbc.trans hab)
    · exact Or.inl (hbc ▸ hab)
    · exact Or.inl (hab ▸ hbc)
    · exact Or.inr ⟨hab.trans hbc, hid.trans hid'⟩

/-- The rows that `persist` takes rank the scores. -/
lemma ranked_rankedRows {scores : List (ι × ε)} (h : (scores.map (·.1)).Nodup) :
    Ranked scoring scores (rankedRows scoring scores) := by
  have hperm := perm_insertionSort (RankOrder scoring) scores
  have hplayers : (rankedRows scoring scores).map (fun row => (row.playerId, row.entry)) =
      scores.insertionSort (RankOrder scoring) := by
    rw [rankedRows, map_map]
    exact zipIdx_map_fst _ _
  have honce : ((rankedRows scoring scores).map (·.playerId)).Nodup := by
    have hids := congrArg (map Prod.fst) hplayers
    rw [map_map] at hids
    exact hids ▸ (hperm.map Prod.fst).nodup_iff.mpr h
  refine ⟨hplayers ▸ hperm, honce, ?_, ?_⟩
  · have hranks : (rankedRows scoring scores).map (·.rank) =
        ((scores.insertionSort (RankOrder scoring)).zipIdx.map (·.2)).map (1 + ·) := by
      rw [rankedRows, map_map, map_map]
      refine map_congr_left fun e _ => ?_
      exact Nat.add_comm _ _
    rw [hranks, zipIdx_map_snd, map_add_range']
    simp [rankedRows]
  · have hsorted : (rankedRows scoring scores).Pairwise fun a b =>
        RankOrder scoring (a.playerId, a.entry) (b.playerId, b.entry) := by
      rw [← pairwise_map (f := fun row : LeaderboardRow ι ε => (row.playerId, row.entry)), hplayers]
      exact pairwise_insertionSort _ _
    refine (hsorted.and (pairwise_map.mp honce)).imp ?_
    rintro a b ⟨hrating | ⟨hrating, hid⟩, hne⟩
    · exact Or.inl hrating
    · exact Or.inr ⟨hrating, lt_of_le_of_ne hid hne⟩

end Scores

/-! ### The calls -/

namespace Leaderboard

section Runs

variable (scoring : Scoring ε ρ γ)

/-- A call takes its rows. -/
def persist (s : Leaderboard ι ε) (scores : List (ι × ε)) : Leaderboard ι ε :=
  { s with scores := scores, calls := s.calls ++ [.clear (rankedRows scoring scores)] }

def step (s : Leaderboard ι ε) : LeaderboardEvent ι γ → Leaderboard ι ε
  | .handSettled playerIds deltas =>
    s.persist scoring (creditHand scoring s.scores playerIds deltas)
  | .rebuild events minSessions => s.persist scoring (rebuiltScores scoring events minSessions)
  | .clear i =>
    match s.calls[i]? with
    | some (.clear rows) =>
      if rows.length = 0 then
        { s with table := [], calls := s.calls.eraseIdx i, stored := [] }
      else { s with table := [], calls := s.calls.set i (.insert rows) }
    | _ => s
  | .insert i =>
    match s.calls[i]? with
    | some (.insert rows) =>
      -- one statement: a row whose key is taken fails it as a whole
      if rows.any fun row => (s.table.map (·.playerId)).contains row.playerId then
        { s with calls := s.calls.eraseIdx i, failed := s.failed + 1 }
      else
        { s with table := s.table ++ rows, calls := s.calls.eraseIdx i, stored := rows }
    | _ => s
  | .read => { s with reads := s.reads ++ [(s.table, s.stored)] }

/-- A call clears when the calls before it are done, and nobody reads between a clear and its
insert. -/
def InTurn (s : Leaderboard ι ε) : LeaderboardEvent ι γ → Prop
  | .clear i => i = 0
  | .read => ∀ call ∈ s.calls, call.isInsert = false
  | _ => True

instance (s : Leaderboard ι ε) (event : LeaderboardEvent ι γ) : Decidable (s.InTurn event) :=
  match event with
  | .clear i => inferInstanceAs (Decidable (i = 0))
  | .read => inferInstanceAs (Decidable (∀ call ∈ s.calls, call.isInsert = false))
  | .handSettled .. | .rebuild .. | .insert _ => isTrue trivial

/-- Every call was done without a conflict, nobody has seen the rows of a call in part, and when all
calls are done, the table ranks the scores. -/
structure Consistent (s : Leaderboard ι ε) : Prop where
  failed : s.failed = 0
  reads : ∀ r ∈ s.reads, r.1 = r.2
  table : s.calls = [] → Ranked scoring s.scores s.table

end Runs

end Leaderboard

/-- The runs of the service, from a table that ranks its scores. -/
def leaderboardRuns (scoring : Scoring ε ρ γ) :
    TransitionSystem (Leaderboard ι ε) (LeaderboardEvent ι γ) where
  init s := ∃ scores, (scores.map (·.1)).Nodup ∧
    s = { scores := scores, table := rankedRows scoring scores, stored := rankedRows scoring scores }
  step s event s' := s' = s.step scoring event

namespace Leaderboard

section Turn

variable {scoring : Scoring ε ρ γ} {s : Leaderboard ι ε}

/-- What the table holds, with this call at the head of the queue. -/
def Holds (table stored : List (LeaderboardRow ι ε)) : Option (PersistStage ι ε) → Prop
  | some (.insert _) => table = []
  | _ => table = stored

/-- The rows that will be stored when all calls are done. -/
def newest (s : Leaderboard ι ε) : List (LeaderboardRow ι ε) :=
  (s.calls.getLast?.map (·.rows)).getD s.stored

/-- The calls stand in a queue. -/
structure Orderly (scoring : Scoring ε ρ γ) (s : Leaderboard ι ε) : Prop where
  keys : (s.scores.map (·.1)).Nodup
  failed : s.failed = 0
  reads : ∀ r ∈ s.reads, r.1 = r.2
  waiting : ∀ stage ∈ s.calls.tail, ∃ rows, stage = .clear rows
  holds : Holds s.table s.stored s.calls.head?
  newest : s.newest = rankedRows scoring s.scores

/-- A new call goes to the end of the queue. -/
lemma Orderly.persist (h : s.Orderly scoring) {scores : List (ι × ε)}
    (hkeys : (scores.map (·.1)).Nodup) : (s.persist scoring scores).Orderly scoring where
  keys := hkeys
  failed := h.failed
  reads := h.reads
  waiting := by
    cases hcalls : s.calls with
    | nil => simp [Leaderboard.persist, hcalls]
    | cons call calls =>
      have hwaiting := h.waiting
      simp only [hcalls, tail_cons] at hwaiting
      intro stage hstage
      simp only [Leaderboard.persist, hcalls, cons_append, tail_cons, mem_append,
        mem_singleton] at hstage
      rcases hstage with hstage | rfl
      · exact hwaiting stage hstage
      · exact ⟨_, rfl⟩
  holds := by
    have hholds := h.holds
    cases hcalls : s.calls with
    | nil =>
      rw [hcalls] at hholds
      simpa [Leaderboard.persist, hcalls, Holds] using hholds
    | cons call calls =>
      rw [hcalls] at hholds
      simpa [Leaderboard.persist, hcalls] using hholds
  newest := by simp [Leaderboard.newest, Leaderboard.persist, PersistStage.rows]

/-- When the head of the queue is done with its rows stored, the next one may clear. -/
lemma Orderly.done (h : s.Orderly scoring) {call : PersistStage ι ε}
    {calls : List (PersistStage ι ε)} (hcalls : s.calls = call :: calls) :
    ({ s with table := call.rows, calls := calls, stored := call.rows } :
      Leaderboard ι ε).Orderly scoring := by
  have hwaiting := h.waiting
  have hnewest := h.newest
  rw [hcalls, tail_cons] at hwaiting
  refine ⟨h.keys, h.failed, h.reads, fun stage hstage => ?_, ?_, ?_⟩
  · exact hwaiting stage (mem_of_mem_tail hstage)
  · cases calls with
    | nil => rfl
    | cons next calls =>
      obtain ⟨rows, rfl⟩ := hwaiting next mem_cons_self
      rfl
  · rw [← hnewest, Leaderboard.newest, Leaderboard.newest, hcalls, getLast?_cons]
    cases calls.getLast? <;> rfl

/-- The head of the queue clears. -/
lemma Orderly.clear (h : s.Orderly scoring) : (s.step scoring (.clear 0)).Orderly scoring := by
  cases hcalls : s.calls with
  | nil => simpa [step, hcalls] using h
  | cons call calls =>
    cases call with
    | insert rows => simpa [step, hcalls] using h
    | clear rows =>
      simp only [step, hcalls, getElem?_cons_zero, eraseIdx_zero, tail_cons, set_cons_zero]
      split_ifs with hnone
      · obtain rfl := length_eq_zero_iff.mp hnone
        exact h.done hcalls
      · have hwaiting := h.waiting
        have hnewest := h.newest
        rw [hcalls, tail_cons] at hwaiting
        refine ⟨h.keys, h.failed, h.reads, hwaiting, rfl, ?_⟩
        rw [← hnewest, Leaderboard.newest, Leaderboard.newest, hcalls, getLast?_cons, getLast?_cons]
        cases calls.getLast? <;> rfl

/-- Only the head of the queue inserts, and into an empty table. -/
lemma Orderly.insert (h : s.Orderly scoring) (i : ℕ) :
    (s.step scoring (.insert i)).Orderly scoring := by
  cases hcall : s.calls[i]? with
  | none => simpa [step, hcall] using h
  | some call =>
    cases call with
    | clear rows => simpa [step, hcall] using h
    | insert rows =>
      cases hcalls : s.calls with
      | nil => simp [hcalls] at hcall
      | cons head calls =>
        cases i with
        | succ i =>
          -- nobody else is between its clear and its insert
          have hmem : PersistStage.insert rows ∈ s.calls.tail := by
            rw [hcalls] at hcall ⊢
            exact mem_of_getElem? hcall
          obtain ⟨_, hclear⟩ := h.waiting _ hmem
          cases hclear
        | zero =>
          obtain rfl : head = .insert rows := by simpa [hcalls] using hcall
          have hempty : s.table = [] := by
            have hholds := h.holds
            rwa [hcalls] at hholds
          have hstep : s.step scoring (.insert 0) =
              { s with table := rows, calls := calls, stored := rows } := by
            simp [step, hcalls, hempty]
          rw [hstep]
          exact h.done hcalls

/-- Nobody reads while the table is empty for an insert. -/
lemma Orderly.read (h : s.Orderly scoring) (hok : ∀ call ∈ s.calls, call.isInsert = false) :
    (s.step scoring .read).Orderly scoring := by
  have hwhole : s.table = s.stored := by
    have hholds := h.holds
    cases hhead : s.calls.head? with
    | none => simpa [hhead, Holds] using hholds
    | some call =>
      cases call with
      | clear rows => simpa [hhead, Holds] using hholds
      | insert rows => cases hok _ (mem_of_mem_head? hhead)
  refine ⟨h.keys, h.failed, fun r hr => ?_, h.waiting, h.holds, h.newest⟩
  rcases mem_append.mp hr with hr | hr
  · exact h.reads r hr
  · obtain rfl := mem_singleton.mp hr
    exact hwhole

/-- Every step in turn keeps the queue. -/
theorem Orderly.step (h : s.Orderly scoring) {event : LeaderboardEvent ι γ}
    (hok : s.InTurn event) : (s.step scoring event).Orderly scoring := by
  cases event with
  | handSettled playerIds deltas => exact h.persist (nodup_creditHand scoring h.keys _ _)
  | rebuild events minSessions => exact h.persist (nodup_rebuiltScores scoring _ _)
  | clear i =>
    obtain rfl : i = 0 := hok
    exact h.clear
  | insert i => exact h.insert i
  | read => exact h.read hok

lemma Orderly.consistent (h : s.Orderly scoring) : s.Consistent scoring where
  failed := h.failed
  reads := h.reads
  table := by
    intro hcalls
    have hholds := h.holds
    have hnewest := h.newest
    rw [hcalls] at hholds
    have htable : s.table = rankedRows scoring s.scores := by
      rw [← hnewest, Leaderboard.newest, hcalls]
      exact hholds
    rw [htable]
    exact ranked_rankedRows scoring h.keys

end Turn

/-- Points instead of ratings. -/
def points : Scoring ℤ ℤ ℤ where
  initScoreEntry := 0
  hand delta entry := entry + delta
  game delta entry := entry + delta
  sessions _ := 1
  rating entry := entry

lemma reachable_empty (ok : Leaderboard ℕ ℤ → LeaderboardEvent ℕ ℤ → Prop) :
    ((leaderboardRuns points).restrict ok).Reachable ⟨[], [], [], [], 0, []⟩ :=
  .of_init ⟨[], nodup_nil, rfl⟩

end Leaderboard

end Pokerhub
