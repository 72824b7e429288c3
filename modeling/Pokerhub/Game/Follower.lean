import Pokerhub.Game.Primary

/-!
# The follower of a room

`room.follower.ts`: a log that is written by index from the diffs, and as a whole from a snapshot.
It is kept in a file as JSON, which has no holes: what was never written is read back as `null`.
-/

namespace Pokerhub

open GameEngine List Json

structure Follower where
  /-- An entry that was never written is `undefined`. -/
  log : List Json := []
  current : Json := .undefined
  file : Option Text := none
  /-- The answers. -/
  posted : List (ℕ × Json) := []

/-- `xs[i] = v` -/
def assign (xs : List Json) (i : ℕ) (v : Json) : List Json :=
  if i < xs.length then xs.set i v else xs ++ replicate (i - xs.length) .undefined ++ [v]

/-- `JSON.stringify([idx, state])` -/
def Turn.diff (turn : Turn) : Text :=
  stringify (.array [.number turn.idx, turn.state.publicJson])

namespace Follower

def persist (f : Follower) : Follower :=
  { f with file := some (stringify (.object [("log", .array f.log), ("current", f.current)])) }

def loadPersisted (f : Follower) : Follower :=
  match f.file.bind parse with
  | none => f
  | some data =>
    let log :=
      match data.get "log" with
      | .array xs => xs
      | _ => []
    { f with log := log, current := data.get "current" }

/-- The follower after a restart. -/
def restart (f : Follower) : Follower :=
  loadPersisted { file := f.file }

/-- A message on the channel of the diffs. -/
def onDiff (msg : Text) (f : Follower) : Follower :=
  match parse msg with
  | none => f
  | some diff =>
    match diff.index 0 with
    | .number idx =>
      let log := assign f.log idx.toNat (.array [.number idx, diff.index 1])
      persist { f with current := diff.index 1, log := log }
    | _ => f

def onSnapshot (states : List Json) (f : Follower) : Follower :=
  let current :=
    match states.getLast? with
    | some last => last.index 1
    | none => .undefined
  persist { f with log := states, current := current }

def post (seq : ℕ) (answer : Json) (f : Follower) : Follower :=
  { f with posted := f.posted ++ [(seq, answer)] }

/-- `([i]) => i >= start`; the filter leaves holes out. -/
def since (start : ℕ) (entry : Json) : Bool :=
  match entry.index 0 with
  | .number i => start ≤ i
  | _ => false

/-- `log.filter(..)`, which throws at a `null`. -/
def resume (start : ℕ) (f : Follower) : Option Json :=
  if f.log.any fun entry => entry.isNullish && entry.isDefined then none
  else some (.array (f.log.filter (since start)))

/-- `(current as any)?.handId ?? ''` -/
def handId (f : Follower) : Json :=
  if (f.current.get "handId").isNullish then .string "" else f.current.get "handId"

/-- A message of another type is ignored. -/
def receive (seq : ℕ) (msg : RoomMessage) (f : Follower) : Follower :=
  match msg with
  | .snapshot states => (f.onSnapshot states).post seq (.bool true)
  | .getState => f.post seq f.current
  | .resume start =>
    match f.resume start with
    | some states => f.post seq states
    | none => f
  | .replay => f.post seq f.current
  | .ping => f.post seq (.bool true)
  | .getHandId => f.post seq f.handId
  | .apply _ => f

end Follower

/-! ### Logs as arrays -/

section Assign

variable {xs : List Json} {i : ℕ} {v : Json}

lemma length_assign : (assign xs i v).length = max xs.length (i + 1) := by
  unfold assign
  split_ifs with hi
  · rw [length_set]
    omega
  · simp
    omega

lemma getElem?_assign_self : (assign xs i v)[i]? = some v := by
  unfold assign
  split_ifs with hi
  · exact getElem?_set_self hi
  · have hlen : (xs ++ replicate (i - xs.length) Json.undefined).length = i := by
      simp
      omega
    rw [getElem?_append_right (by omega), hlen, Nat.sub_self]
    rfl

/-- Another entry is as before, or a hole. -/
lemma getElem?_assign_of_ne {j : ℕ} (hj : j ≠ i) :
    (assign xs i v)[j]? = xs[j]? ∨ xs[j]? = none ∧ (assign xs i v)[j]? = some .undefined ∨
      xs[j]? = none ∧ (assign xs i v)[j]? = none := by
  unfold assign
  split_ifs with hi
  · exact Or.inl (getElem?_set_ne (Ne.symm hj))
  · by_cases hlt : j < xs.length
    · left
      rw [append_assoc, getElem?_append_left hlt]
    · have hnone : xs[j]? = none := getElem?_eq_none (by omega)
      right
      by_cases hji : j < i
      · left
        refine ⟨hnone, ?_⟩
        rw [getElem?_append_left (by simp; omega), getElem?_append_right (by omega)]
        exact getElem?_replicate_of_lt (by omega)
      · right
        exact ⟨hnone, getElem?_eq_none (by simp; omega)⟩

end Assign

/-! ### Values that JSON keeps -/

lemma written_publicJson (s : GameStateInternal) : written s.publicJson = s.publicJson := by
  have hplayers : ∀ p ∈ s.publicView.players, written p.toJson = p.toJson := by
    intro p hp
    apply (written_player p).mpr
    obtain ⟨q, -, rfl⟩ := mem_map.mp hp
    exact fun cards hcards => nomatch hcards
  simpa [GameStateInternal.publicJson, written, writtenMembers_eq, writtenElements_eq, filter_cons,
    written_sidePot] using hplayers

/-- An entry of the hand log with its public state. -/
def HandLogEntry.publicJson (entry : HandLogEntry) : Json :=
  .array [.number entry.index, entry.postState.publicJson]

lemma written_entry_publicJson (entry : HandLogEntry) :
    written entry.publicJson = entry.publicJson := by
  simp [HandLogEntry.publicJson, written, writtenElements, written_publicJson]

lemma written_entry_stateJson (entry : HandLogEntry) :
    written entry.stateJson = entry.stateJson ↔ entry.postState.CardsDefined := by
  simp [HandLogEntry.stateJson, written, writtenElements, written_state]

namespace Follower

variable {f : Follower}

/-- A diff as it arrives. -/
lemma onDiff_diff (t : Turn) :
    f.onDiff t.diff = persist { f with
      current := t.state.publicJson
      log := assign f.log t.idx (.array [.number t.idx, t.state.publicJson]) } := by
  have hparse : parse t.diff = some (.array [.number t.idx, t.state.publicJson]) := by
    rw [Turn.diff, parse_stringify]
    simp [written, writtenElements, written_publicJson]
  rw [onDiff, hparse]
  simp [Json.index]

/-- A restart keeps what can be written. -/
lemma restart_persist_log : f.persist.restart.log = f.log.map written := by
  have hparse : parse (stringify (.object [("log", .array f.log), ("current", f.current)])) =
      some (written (.object [("log", .array f.log), ("current", f.current)])) :=
    parse_stringify _
  have hlog : (written (.object [("log", .array f.log), ("current", f.current)])).get "log" =
      .array (f.log.map written) := by
    simp [written, writtenMembers_eq, writtenElements_eq, filter_cons, Json.get]
  rw [restart, loadPersisted, persist, Option.bind_some, hparse]
  simp only [hlog]

end Follower

end Pokerhub
