import Mathlib.Data.List.Basic
import Mathlib.Logic.Function.Basic
import Pokerhub.Core.Cursor

/-!
# The consumer of notifications

`NotificationsListener` of `notifications.listener.ts`, with the topic `notification.create` and
what Kafka keeps for its group. A message is handled when the one before it in its partition is done
with. Its offset is committed when its notification is stored; a message that fails goes to the dead
letters, and the consumer goes on behind it.

Any of the requests may fail, also after it has taken effect, and the process may be started again
at any time. The messages from the last start without a committed offset on are all dealt with
(`nothing_skipped`), and there is no later such start once an offset is committed
(`no_gap_once_committed`). A restart is the only reason for storing a notification twice
(`stored_once_per_start`).
-/

namespace Pokerhub.Notifications

open Function List

/-- The payload of `notification.create`. -/
structure NotificationCreateEvent where
  userId : String
  type : String
  message : String
  deriving DecidableEq

/-- The partition and the offset of a message. -/
abbrev Place := ℕ × ℕ

structure Notification where
  userId : String
  type : String
  title : String
  message : String
  /-- The message that it was made from, for the statements. -/
  source : Place
  deriving DecidableEq

/-- `this.repo.create(..)` -/
def NotificationCreateEvent.create (data : NotificationCreateEvent) (source : Place) :
    Notification where
  userId := data.userId
  type := data.type
  title := data.type
  message := data.message
  source := source

/-- An entry of `notifications:dead-letter`. -/
structure DeadLetter where
  raw : String
  source : Place
  deriving DecidableEq

/-- Why a message that has failed is not among the dead letters. -/
inductive Loss where
  | emptyText | noRedis | refused
  deriving DecidableEq

structure Dropped where
  reason : Loss
  source : Place
  deriving DecidableEq

/-- What the handler of a message waits for. -/
inductive Stage where
  | save (raw : String) (data : NotificationCreateEvent)
  | commitOffsets (raw : String)
  | lpush (raw : String)
  deriving DecidableEq

def Stage.raw : Stage → String
  | save raw _ | commitOffsets raw | lpush raw => raw

/-- How a request ends. One that is not answered has taken effect all the same. -/
inductive Outcome where
  | done | refused | unanswered
  deriving DecidableEq

structure Listener where
  /-- There is a Redis client. -/
  redis : Bool
  /-- The messages of the partitions; `none` stands for a message without a value. -/
  topic : ℕ → List (Option String)
  rows : List Notification := []
  deadLetters : List DeadLetter := []
  dropped : List Dropped := []
  cursors : ℕ → Cursor
  stages : ℕ → Option Stage := fun _ => none
  restarts : ℕ := 0

inductive Event where
  | produce (partition : ℕ) (value : Option String)
  | eachMessage (partition : ℕ)
  | answer (partition : ℕ) (outcome : Outcome)
  | restart
  deriving DecidableEq

namespace Listener

/-- The first start of the consumer: it subscribes from the end of the topic on. -/
def create (redis : Bool) (topic : ℕ → List (Option String)) : Listener where
  redis := redis
  topic := topic
  cursors p := ⟨(topic p).length, (topic p).length, none⟩

/-- The message that is handled. -/
def place (s : Listener) (p : ℕ) : Place :=
  (p, (s.cursors p).position)

def message? (s : Listener) (place : Place) : Option (Option String) :=
  (s.topic place.1)[place.2]?

def setStage (p : ℕ) (stage : Stage) (s : Listener) : Listener :=
  { s with stages := update s.stages p (some stage) }

def insert (row : Notification) (s : Listener) : Listener :=
  { s with rows := s.rows ++ [row] }

def commit (p : ℕ) (s : Listener) : Listener :=
  { s with cursors := update s.cursors p (s.cursors p).commit }

/-- A text goes to `notifications:dead-letter`. -/
def bury (letter : DeadLetter) (s : Listener) : Listener :=
  { s with deadLetters := letter :: s.deadLetters }

/-- `eachMessage` returns. -/
def next (p : ℕ) (s : Listener) : Listener :=
  { s with
    cursors := update s.cursors p (s.cursors p).advance
    stages := update s.stages p none }

def drop (p : ℕ) (reason : Loss) (s : Listener) : Listener :=
  { s with dropped := ⟨reason, s.place p⟩ :: s.dropped }

/-- The `catch` of `eachMessage`, up to its `lpush`. -/
def fail (p : ℕ) (raw : String) (s : Listener) : Listener :=
  if raw = "" then (s.drop p .emptyText).next p
  else if s.redis then s.setStage p (.lpush raw)
  else (s.drop p .noRedis).next p

section Handler

variable (parse : String → Option NotificationCreateEvent)

/-- `eachMessage` up to its first `await`; `parse` reads a text as JSON and as the event. -/
def eachMessage (p : ℕ) (s : Listener) : Listener :=
  match s.message? (s.place p) with
  | none => s
  | some none => s.next p
  | some (some raw) =>
    match parse raw with
    | some data => s.setStage p (.save raw data)
    | none => s.fail p raw

/-- The handler goes on when its request has ended. -/
def answer (p : ℕ) (outcome : Outcome) (s : Listener) : Listener :=
  match s.stages p with
  | none => s
  | some (.save raw data) =>
    match outcome with
    | .done => (s.insert (data.create (s.place p))).setStage p (.commitOffsets raw)
    | .refused => s.fail p raw
    | .unanswered => (s.insert (data.create (s.place p))).fail p raw
  | some (.commitOffsets raw) =>
    match outcome with
    | .done => (s.commit p).next p
    | .refused => s.fail p raw
    | .unanswered => (s.commit p).fail p raw
  | some (.lpush raw) =>
    match outcome with
    | .done | .unanswered => (s.bury ⟨raw, s.place p⟩).next p
    | .refused => (s.drop p .refused).next p

def step (s : Listener) : Event → Listener
  | .produce p value => { s with topic := update s.topic p (s.topic p ++ [value]) }
  | .eachMessage p => if s.stages p = none then s.eachMessage parse p else s
  | .answer p outcome => s.answer p outcome
  | .restart =>
    { s with
      cursors := fun p => (s.cursors p).start (s.topic p).length
      stages := fun _ => none
      restarts := s.restarts + 1 }

def run (s : Listener) (events : List Event) : Listener :=
  events.foldl (step parse) s

end Handler

/-! ### What becomes of a message -/

/-- The message has no value, or its notification is stored, or it is a dead letter, or there was
no way to keep it. -/
def Accounted (s : Listener) (place : Place) : Prop :=
  s.message? place = some none ∨ (∃ row ∈ s.rows, row.source = place) ∨
    (∃ letter ∈ s.deadLetters, letter.source = place) ∨ ∃ d ∈ s.dropped, d.source = place

/-- What is kept of the messages is what they say. -/
structure Truthful (parse : String → Option NotificationCreateEvent) (s : Listener) : Prop where
  rows : ∀ row ∈ s.rows, ∃ raw data, s.message? row.source = some (some raw) ∧
    parse raw = some data ∧ row = data.create row.source
  deadLetters : ∀ letter ∈ s.deadLetters, s.message? letter.source = some (some letter.raw)
  emptyText : ∀ place, ⟨.emptyText, place⟩ ∈ s.dropped → s.message? place = some (some "")
  noRedis : ∀ place, ⟨.noRedis, place⟩ ∈ s.dropped → s.redis = false

/-- What has become of a message that the consumer is done with. -/
inductive DealtWith (parse : String → Option NotificationCreateEvent) (s : Listener)
    (place : Place) : Prop
  | noValue (h : s.message? place = some none)
  | stored {raw : String} {data : NotificationCreateEvent}
    (hmessage : s.message? place = some (some raw)) (hdata : parse raw = some data)
    (h : data.create place ∈ s.rows)
  | deadLetter {raw : String} (hmessage : s.message? place = some (some raw))
    (h : ⟨raw, place⟩ ∈ s.deadLetters)
  | emptyText (h : s.message? place = some (some ""))
  | noRedis (hredis : s.redis = false) (h : ⟨.noRedis, place⟩ ∈ s.dropped)
  /-- Redis has refused the dead letter. -/
  | refused (h : ⟨.refused, place⟩ ∈ s.dropped)

/-- How many notifications were stored for a message. -/
def rowsOf (s : Listener) (p i : ℕ) : ℕ :=
  s.rows.countP (·.source = (p, i))

def lettersOf (s : Listener) (p i : ℕ) : ℕ :=
  s.deadLetters.countP (·.source = (p, i))

/-! ### What a step leaves as it is -/

variable {parse : String → Option NotificationCreateEvent} {s s' s'' : Listener} {p q : ℕ}
  {raw : String} {place : Place}

/-- Messages and what is kept of them only become more. -/
structure Grows (s s' : Listener) : Prop where
  message : ∀ place m, s.message? place = some m → s'.message? place = some m
  rows : s.rows ⊆ s'.rows
  deadLetters : s.deadLetters ⊆ s'.deadLetters
  dropped : s.dropped ⊆ s'.dropped

lemma Grows.refl (s : Listener) : Grows s s :=
  ⟨fun _ _ h => h, Subset.refl _, Subset.refl _, Subset.refl _⟩

lemma Grows.trans (h : Grows s s') (h' : Grows s' s'') : Grows s s'' where
  message place m hm := h'.message place m (h.message place m hm)
  rows := Subset.trans h.rows h'.rows
  deadLetters := Subset.trans h.deadLetters h'.deadLetters
  dropped := Subset.trans h.dropped h'.dropped

lemma Accounted.grows (h : s.Accounted place) (hgrows : Grows s s') : s'.Accounted place := by
  rcases h with hnull | ⟨row, hrow, hsource⟩ | ⟨letter, hletter, hsource⟩ | ⟨d, hd, hsource⟩
  · exact Or.inl (hgrows.message _ _ hnull)
  · exact Or.inr (Or.inl ⟨row, hgrows.rows hrow, hsource⟩)
  · exact Or.inr (Or.inr (Or.inl ⟨letter, hgrows.deadLetters hletter, hsource⟩))
  · exact Or.inr (Or.inr (Or.inr ⟨d, hgrows.dropped hd, hsource⟩))

/-- The step does not touch the partition `q`. -/
structure Beside (q : ℕ) (s s' : Listener) : Prop where
  grows : Grows s s'
  cursor : s'.cursors q = s.cursors q
  stage : s'.stages q = s.stages q
  restarts : s'.restarts = s.restarts
  rowsOf : s'.rowsOf q = s.rowsOf q
  lettersOf : s'.lettersOf q = s.lettersOf q

lemma Beside.refl (q : ℕ) (s : Listener) : Beside q s s :=
  ⟨Grows.refl s, rfl, rfl, rfl, rfl, rfl⟩

lemma Beside.trans (h : Beside q s s') (h' : Beside q s' s'') : Beside q s s'' where
  grows := h.grows.trans h'.grows
  cursor := h'.cursor.trans h.cursor
  stage := h'.stage.trans h.stage
  restarts := h'.restarts.trans h.restarts
  rowsOf := h'.rowsOf.trans h.rowsOf
  lettersOf := h'.lettersOf.trans h.lettersOf

lemma rowsOf_insert (row : Notification) (s : Listener) (q i : ℕ) :
    (s.insert row).rowsOf q i = s.rowsOf q i + if row.source = (q, i) then 1 else 0 := by
  simp [rowsOf, insert, countP_append, countP_singleton]

lemma lettersOf_bury (letter : DeadLetter) (s : Listener) (q i : ℕ) :
    (s.bury letter).lettersOf q i =
      s.lettersOf q i + if letter.source = (q, i) then 1 else 0 := by
  simp [lettersOf, bury, countP_cons]

lemma place_ne (hne : q ≠ p) (s : Listener) (i : ℕ) : s.place p ≠ (q, i) :=
  fun heq => hne (congrArg Prod.fst heq).symm

section Beside

lemma grows_insert (row : Notification) (s : Listener) : Grows s (s.insert row) :=
  ⟨fun _ _ h => h, subset_append_left _ _, Subset.refl _, Subset.refl _⟩

lemma grows_bury (letter : DeadLetter) (s : Listener) : Grows s (s.bury letter) :=
  ⟨fun _ _ h => h, Subset.refl _, subset_cons_self _ _, Subset.refl _⟩

lemma grows_drop (p : ℕ) (reason : Loss) (s : Listener) : Grows s (s.drop p reason) :=
  ⟨fun _ _ h => h, Subset.refl _, Subset.refl _, subset_cons_self _ _⟩

variable (hne : q ≠ p)

include hne

lemma Beside.setStage (stage : Stage) (s : Listener) : Beside q s (s.setStage p stage) where
  grows := ⟨fun _ _ h => h, Subset.refl _, Subset.refl _, Subset.refl _⟩
  cursor := rfl
  stage := update_of_ne hne _ _
  restarts := rfl
  rowsOf := rfl
  lettersOf := rfl

lemma Beside.next (s : Listener) : Beside q s (s.next p) where
  grows := ⟨fun _ _ h => h, Subset.refl _, Subset.refl _, Subset.refl _⟩
  cursor := update_of_ne hne _ _
  stage := update_of_ne hne _ _
  restarts := rfl
  rowsOf := rfl
  lettersOf := rfl

lemma Beside.commit (s : Listener) : Beside q s (s.commit p) where
  grows := ⟨fun _ _ h => h, Subset.refl _, Subset.refl _, Subset.refl _⟩
  cursor := update_of_ne hne _ _
  stage := rfl
  restarts := rfl
  rowsOf := rfl
  lettersOf := rfl

omit hne in
lemma Beside.drop (reason : Loss) (s : Listener) : Beside q s (s.drop p reason) :=
  ⟨grows_drop p reason s, rfl, rfl, rfl, rfl, rfl⟩

lemma Beside.insert (data : NotificationCreateEvent) (s : Listener) :
    Beside q s (s.insert (data.create (s.place p))) where
  grows := grows_insert _ s
  cursor := rfl
  stage := rfl
  restarts := rfl
  rowsOf := by
    funext i
    exact (rowsOf_insert _ s q i).trans (congrArg (s.rowsOf q i + ·) (if_neg (place_ne hne s i)))
  lettersOf := rfl

lemma Beside.bury (raw : String) (s : Listener) : Beside q s (s.bury ⟨raw, s.place p⟩) where
  grows := grows_bury _ s
  cursor := rfl
  stage := rfl
  restarts := rfl
  rowsOf := rfl
  lettersOf := by
    funext i
    exact (lettersOf_bury _ s q i).trans
      (congrArg (s.lettersOf q i + ·) (if_neg (place_ne hne s i)))

lemma Beside.fail (raw : String) (s : Listener) : Beside q s (s.fail p raw) := by
  unfold Listener.fail
  split_ifs
  · exact (Beside.drop _ s).trans (.next hne _)
  · exact .setStage hne _ s
  · exact (Beside.drop _ s).trans (.next hne _)

lemma Beside.eachMessage (s : Listener) : Beside q s (s.eachMessage parse p) := by
  unfold Listener.eachMessage
  split
  · exact .refl q s
  · exact .next hne s
  · split
    · exact .setStage hne _ s
    · exact .fail hne _ s

lemma Beside.answer (outcome : Outcome) (s : Listener) : Beside q s (s.answer p outcome) := by
  unfold Listener.answer
  split
  · exact .refl q s
  · cases outcome with
    | done => exact (Beside.insert hne _ s).trans (.setStage hne _ _)
    | refused => exact .fail hne _ s
    | unanswered => exact (Beside.insert hne _ s).trans (.fail hne _ _)
  · cases outcome with
    | done => exact (Beside.commit hne s).trans (.next hne _)
    | refused => exact .fail hne _ s
    | unanswered => exact (Beside.commit hne s).trans (.fail hne _ _)
  · cases outcome with
    | refused => exact (Beside.drop _ s).trans (.next hne _)
    | done | unanswered => exact (Beside.bury hne _ s).trans (.next hne _)

end Beside

/-! ### One partition -/

/-- What is known while the handler waits. -/
def Fits (parse : String → Option NotificationCreateEvent) (s : Listener) (p : ℕ) : Stage → Prop
  | .save raw data => s.message? (s.place p) = some (some raw) ∧ parse raw = some data
  | .commitOffsets raw =>
    s.message? (s.place p) = some (some raw) ∧ ∃ row ∈ s.rows, row.source = s.place p
  | .lpush raw => s.message? (s.place p) = some (some raw)

/-- The offset up to which notifications have been stored since the last start. -/
def reached (s : Listener) (p : ℕ) : ℕ :=
  match s.stages p with
  | some (.commitOffsets _) | some (.lpush _) => (s.cursors p).position + 1
  | _ => (s.cursors p).position

structure Sound (parse : String → Option NotificationCreateEvent) (s : Listener) (p : ℕ) :
    Prop where
  covers : (s.cursors p).Covers fun i => s.Accounted (p, i)
  stage : ∀ stage ∈ s.stages p, s.Fits parse p stage
  rows : Counted (s.rowsOf p) s.restarts (s.reached p)
  letters : Counted (s.lettersOf p) s.restarts (s.cursors p).position

lemma Fits.grows {stage : Stage} (h : s.Fits parse p stage) (hgrows : Grows s s')
    (hcursor : s'.cursors p = s.cursors p) : s'.Fits parse p stage := by
  have hplace : s'.place p = s.place p := by rw [place, hcursor, place]
  cases stage with
  | save raw data => exact ⟨hplace ▸ hgrows.message _ _ h.1, h.2⟩
  | commitOffsets raw =>
    obtain ⟨hmessage, row, hrow, hsource⟩ := h
    exact ⟨hplace ▸ hgrows.message _ _ hmessage, row, hgrows.rows hrow, hsource.trans hplace.symm⟩
  | lpush raw =>
    have hmessage := hgrows.message _ _ h
    rwa [← hplace] at hmessage

/-- A step of another partition. -/
lemma Sound.beside (h : s.Sound parse q) (hbeside : Beside q s s') : s'.Sound parse q where
  covers := by
    rw [hbeside.cursor]
    exact h.covers.mono fun _ hi => hi.grows hbeside.grows
  stage := by
    rw [hbeside.stage]
    exact fun stage hstage => (h.stage stage hstage).grows hbeside.grows hbeside.cursor
  rows := by
    rw [hbeside.rowsOf, hbeside.restarts, reached, hbeside.stage, hbeside.cursor]
    exact h.rows
  letters := by
    rw [hbeside.lettersOf, hbeside.restarts, hbeside.cursor]
    exact h.letters

/-- The handler returns when the message is done with. -/
lemma Sound.next (hcovers : (s.cursors p).Covers fun i => s.Accounted (p, i))
    (hdone : s.Accounted (s.place p))
    (hrows : Counted (s.rowsOf p) s.restarts ((s.cursors p).position + 1))
    (hletters : Counted (s.lettersOf p) s.restarts ((s.cursors p).position + 1)) :
    (s.next p).Sound parse p := by
  have hcursor : (s.next p).cursors p = (s.cursors p).advance := update_self _ _ _
  have hstage : (s.next p).stages p = none := update_self _ _ _
  constructor
  · rw [hcursor]
    exact hcovers.advance hdone
  · rw [hstage]
    rintro stage ⟨⟩
  · rw [reached, hstage, hcursor]
    exact hrows
  · rw [hcursor]
    exact hletters

/-- The handler has caught an error. -/
lemma Sound.fail (hcovers : (s.cursors p).Covers fun i => s.Accounted (p, i))
    (hmessage : s.message? (s.place p) = some (some raw))
    (hrows : Counted (s.rowsOf p) s.restarts ((s.cursors p).position + 1))
    (hletters : Counted (s.lettersOf p) s.restarts (s.cursors p).position) :
    (s.fail p raw).Sound parse p := by
  have hdropped : ∀ reason, ((s.drop p reason).next p).Sound parse p := fun reason =>
    .next (hcovers.mono fun _ hi => hi.grows (grows_drop p reason s))
      (Or.inr (Or.inr (Or.inr ⟨_, mem_cons_self, rfl⟩))) hrows (hletters.mono (Nat.le_succ _))
  unfold Listener.fail
  split_ifs
  · exact hdropped _
  · have hstage : (s.setStage p (.lpush raw)).stages p = some (.lpush raw) := update_self _ _ _
    constructor
    · exact hcovers
    · rw [hstage]
      rintro stage ⟨⟩
      exact hmessage
    · rw [reached, hstage]
      exact hrows
    · exact hletters
  · exact hdropped _

lemma Sound.eachMessage (h : s.Sound parse p) (hidle : s.stages p = none) :
    (s.eachMessage parse p).Sound parse p := by
  have hreached : s.reached p = (s.cursors p).position := by rw [reached, hidle]
  have hrows := hreached ▸ h.rows
  unfold Listener.eachMessage
  split
  · exact h
  · rename_i hnull
    exact .next h.covers (Or.inl hnull) (hrows.mono (Nat.le_succ _))
      (h.letters.mono (Nat.le_succ _))
  · rename_i raw hmessage
    split
    · rename_i data hdata
      have hstage : (s.setStage p (.save raw data)).stages p = some (.save raw data) :=
        update_self _ _ _
      refine ⟨h.covers, ?_, ?_, h.letters⟩
      · rw [hstage]
        rintro stage ⟨⟩
        exact ⟨hmessage, hdata⟩
      · rw [reached, hstage]
        exact hrows
    · exact .fail h.covers hmessage (hrows.mono (Nat.le_succ _)) h.letters

/-- The notification of the message that is handled has been stored. -/
lemma counted_insert {data : NotificationCreateEvent}
    (h : Counted (s.rowsOf p) s.restarts (s.cursors p).position) :
    Counted ((s.insert (data.create (s.place p))).rowsOf p) s.restarts
      ((s.cursors p).position + 1) := by
  refine h.take (fun i hi => ?_) ?_
  · have hsource : s.place p ≠ (p, i) := fun heq => hi (congrArg Prod.snd heq).symm
    exact (rowsOf_insert _ s p i).trans (congrArg (s.rowsOf p i + ·) (if_neg hsource))
  · rw [rowsOf_insert]
    refine Nat.add_le_add_left ?_ _
    split_ifs <;> decide

lemma counted_bury (h : Counted (s.lettersOf p) s.restarts (s.cursors p).position) :
    Counted ((s.bury ⟨raw, s.place p⟩).lettersOf p) s.restarts ((s.cursors p).position + 1) := by
  refine h.take (fun i hi => ?_) ?_
  · have hsource : s.place p ≠ (p, i) := fun heq => hi (congrArg Prod.snd heq).symm
    exact (lettersOf_bury _ s p i).trans (congrArg (s.lettersOf p i + ·) (if_neg hsource))
  · rw [lettersOf_bury]
    refine Nat.add_le_add_left ?_ _
    split_ifs <;> decide

lemma cursors_commit (s : Listener) (p : ℕ) :
    (s.commit p).cursors p = (s.cursors p).commit :=
  update_self _ _ _

lemma position_commit (s : Listener) (p : ℕ) :
    ((s.commit p).cursors p).position = (s.cursors p).position := by
  rw [cursors_commit, Cursor.commit]

lemma place_commit (s : Listener) (p : ℕ) : (s.commit p).place p = s.place p := by
  rw [place, position_commit, place]

lemma Sound.answer (h : s.Sound parse p) (outcome : Outcome) :
    (s.answer p outcome).Sound parse p := by
  unfold Listener.answer
  split
  · exact h
  · rename_i raw data hstage
    obtain ⟨hmessage, hdata⟩ := h.stage _ hstage
    have hrows : Counted (s.rowsOf p) s.restarts (s.cursors p).position := by
      have hreached : s.reached p = (s.cursors p).position := by rw [reached, hstage]
      exact hreached ▸ h.rows
    have hcovers := h.covers.mono fun _ hi => hi.grows (grows_insert (data.create (s.place p)) s)
    have hstored : Counted ((s.insert (data.create (s.place p))).rowsOf p) s.restarts
        ((s.cursors p).position + 1) := counted_insert hrows
    cases outcome with
    | refused => exact .fail h.covers hmessage (hrows.mono (Nat.le_succ _)) h.letters
    | unanswered => exact .fail hcovers hmessage hstored h.letters
    | done =>
      have hcommits : ((s.insert (data.create (s.place p))).setStage p (.commitOffsets raw)).stages
          p = some (.commitOffsets raw) := update_self _ _ _
      refine ⟨hcovers, ?_, ?_, h.letters⟩
      · rw [hcommits]
        rintro stage ⟨⟩
        exact ⟨hmessage, _, mem_append_right _ mem_cons_self, rfl⟩
      · rw [reached, hcommits]
        exact hstored
  · rename_i raw hstage
    obtain ⟨hmessage, row, hrow, hsource⟩ := h.stage _ hstage
    have hdone : s.Accounted (s.place p) := Or.inr (Or.inl ⟨row, hrow, hsource⟩)
    have hrows : Counted (s.rowsOf p) s.restarts ((s.cursors p).position + 1) := by
      have hreached : s.reached p = (s.cursors p).position + 1 := by rw [reached, hstage]
      exact hreached ▸ h.rows
    have hcovers : ((s.commit p).cursors p).Covers fun i => (s.commit p).Accounted (p, i) :=
      cursors_commit s p ▸ h.covers.commit hdone
    have hstored := position_commit s p ▸ hrows
    have hletters := position_commit s p ▸ h.letters
    cases outcome with
    | refused => exact .fail h.covers hmessage hrows h.letters
    | unanswered => exact .fail hcovers (place_commit s p ▸ hmessage) hstored hletters
    | done => exact .next hcovers (place_commit s p ▸ hdone) hstored (hletters.mono (Nat.le_succ _))
  · rename_i raw hstage
    have hrows : Counted (s.rowsOf p) s.restarts ((s.cursors p).position + 1) := by
      have hreached : s.reached p = (s.cursors p).position + 1 := by rw [reached, hstage]
      exact hreached ▸ h.rows
    have hburied : ((s.bury ⟨raw, s.place p⟩).next p).Sound parse p :=
      .next (h.covers.mono fun _ hi => hi.grows (grows_bury _ s))
        (Or.inr (Or.inr (Or.inl ⟨_, mem_cons_self, rfl⟩))) hrows (counted_bury h.letters)
    cases outcome with
    | refused =>
      exact .next (h.covers.mono fun _ hi => hi.grows (grows_drop p .refused s))
        (Or.inr (Or.inr (Or.inr ⟨_, mem_cons_self, rfl⟩))) hrows (h.letters.mono (Nat.le_succ _))
    | done | unanswered => exact hburied

/-- A new message changes nothing for the earlier ones. -/
lemma grows_produce (s : Listener) (p : ℕ) (value : Option String) :
    Grows s (s.step parse (.produce p value)) := by
  refine ⟨fun place m hm => ?_, Subset.refl _, Subset.refl _, Subset.refl _⟩
  rcases eq_or_ne place.1 p with hp | hp
  · have htopic : (s.step parse (.produce p value)).topic place.1 = s.topic place.1 ++ [value] := by
      rw [hp]
      exact update_self _ _ _
    obtain ⟨hlt, -⟩ := List.getElem?_eq_some_iff.mp hm
    rw [message?, htopic, getElem?_append_left hlt]
    exact hm
  · have htopic : (s.step parse (.produce p value)).topic place.1 = s.topic place.1 :=
      update_of_ne hp _ _
    rw [message?, htopic]
    exact hm

lemma Sound.restart (h : s.Sound parse p) : (s.step parse .restart).Sound parse p where
  covers := h.covers.start _
  stage := by rintro stage ⟨⟩
  rows := h.rows.restart _
  letters := h.letters.restart _

/-- Every step keeps every partition sound. -/
lemma Sound.step (h : ∀ p, s.Sound parse p) (event : Event) (q : ℕ) :
    (s.step parse event).Sound parse q := by
  cases event with
  | produce p value => exact (h q).beside ⟨grows_produce s p value, rfl, rfl, rfl, rfl, rfl⟩
  | eachMessage p =>
    simp only [Listener.step]
    split_ifs with hidle
    · rcases eq_or_ne q p with rfl | hne
      · exact (h q).eachMessage hidle
      · exact (h q).beside (.eachMessage hne s)
    · exact h q
  | answer p outcome =>
    rcases eq_or_ne q p with rfl | hne
    · exact (h q).answer outcome
    · exact (h q).beside (.answer hne outcome s)
  | restart => exact (h q).restart

/-! ### The base -/

lemma continues_next (s : Listener) (p q : ℕ) :
    (s.cursors q).Continues ((s.next p).cursors q) := by
  rcases eq_or_ne q p with rfl | hne
  · have hcursor : (s.next q).cursors q = (s.cursors q).advance := update_self _ _ _
    exact hcursor ▸ Cursor.continues_advance _
  · have hcursor : (s.next p).cursors q = s.cursors q := update_of_ne hne _ _
    exact hcursor ▸ Cursor.Continues.refl _

lemma continues_commit (s : Listener) (p q : ℕ) :
    (s.cursors q).Continues ((s.commit p).cursors q) := by
  rcases eq_or_ne q p with rfl | hne
  · exact cursors_commit s q ▸ Cursor.continues_commit _
  · have hcursor : (s.commit p).cursors q = s.cursors q := update_of_ne hne _ _
    exact hcursor ▸ Cursor.Continues.refl _

lemma continues_fail (s : Listener) (p q : ℕ) (raw : String) :
    (s.cursors q).Continues ((s.fail p raw).cursors q) := by
  unfold Listener.fail
  split_ifs
  · exact continues_next (s.drop p .emptyText) p q
  · exact .refl _
  · exact continues_next (s.drop p .noRedis) p q

lemma continues_eachMessage (s : Listener) (p q : ℕ) :
    (s.cursors q).Continues ((s.eachMessage parse p).cursors q) := by
  unfold Listener.eachMessage
  split
  · exact .refl _
  · exact continues_next s p q
  · split
    · exact .refl _
    · exact continues_fail s p q _

lemma continues_answer (s : Listener) (p q : ℕ) (outcome : Outcome) :
    (s.cursors q).Continues ((s.answer p outcome).cursors q) := by
  unfold Listener.answer
  split
  · exact .refl _
  · cases outcome with
    | done => exact .refl _
    | refused => exact continues_fail s p q _
    | unanswered => exact continues_fail (s.insert _) p q _
  · cases outcome with
    | done => exact (continues_commit s p q).trans (continues_next _ p q)
    | refused => exact continues_fail s p q _
    | unanswered => exact (continues_commit s p q).trans (continues_fail _ p q _)
  · cases outcome with
    | refused => exact continues_next (s.drop p .refused) p q
    | done | unanswered => exact continues_next (s.bury _) p q

lemma continues_step (s : Listener) (event : Event) (q : ℕ) :
    (s.cursors q).Continues ((s.step parse event).cursors q) := by
  cases event with
  | produce p value => exact .refl _
  | eachMessage p =>
    simp only [Listener.step]
    split_ifs
    · exact continues_eachMessage s p q
    · exact .refl _
  | answer p outcome => exact continues_answer s p q outcome
  | restart => exact Cursor.continues_start _ _

lemma continues_run (s : Listener) (events : List Event) (q : ℕ) :
    (s.cursors q).Continues ((s.run parse events).cursors q) := by
  induction events generalizing s with
  | nil => exact .refl _
  | cons event events ih => exact (continues_step s event q).trans (ih _)

/-! ### What is kept -/

section Truthful

variable (h : s.Truthful parse)

include h

lemma Truthful.next (p : ℕ) : (s.next p).Truthful parse :=
  ⟨h.rows, h.deadLetters, h.emptyText, h.noRedis⟩

lemma Truthful.setStage (p : ℕ) (stage : Stage) : (s.setStage p stage).Truthful parse :=
  ⟨h.rows, h.deadLetters, h.emptyText, h.noRedis⟩

lemma Truthful.commit (p : ℕ) : (s.commit p).Truthful parse :=
  ⟨h.rows, h.deadLetters, h.emptyText, h.noRedis⟩

lemma Truthful.insert {data : NotificationCreateEvent}
    (hmessage : s.message? place = some (some raw)) (hdata : parse raw = some data) :
    (s.insert (data.create place)).Truthful parse where
  rows row hrow := by
    rcases mem_append.mp hrow with hrow | hrow
    · exact h.rows row hrow
    · obtain rfl := mem_singleton.mp hrow
      exact ⟨raw, data, hmessage, hdata, rfl⟩
  deadLetters := h.deadLetters
  emptyText := h.emptyText
  noRedis := h.noRedis

lemma Truthful.bury (hmessage : s.message? place = some (some raw)) :
    (s.bury ⟨raw, place⟩).Truthful parse where
  rows := h.rows
  deadLetters letter hletter := by
    rcases mem_cons.mp hletter with rfl | hletter
    · exact hmessage
    · exact h.deadLetters letter hletter
  emptyText := h.emptyText
  noRedis := h.noRedis

lemma Truthful.drop (reason : Loss)
    (hempty : reason = .emptyText → s.message? (s.place p) = some (some ""))
    (hredis : reason = .noRedis → s.redis = false) : (s.drop p reason).Truthful parse where
  rows := h.rows
  deadLetters := h.deadLetters
  emptyText place hplace := by
    rcases mem_cons.mp hplace with heq | hplace
    · obtain ⟨hreason, rfl⟩ := Dropped.mk.inj heq
      exact hempty hreason.symm
    · exact h.emptyText place hplace
  noRedis place hplace := by
    rcases mem_cons.mp hplace with heq | hplace
    · exact hredis (Dropped.mk.inj heq).1.symm
    · exact h.noRedis place hplace

lemma Truthful.fail (hmessage : s.message? (s.place p) = some (some raw)) :
    (s.fail p raw).Truthful parse := by
  unfold Listener.fail
  split_ifs with hraw hredis
  · exact (h.drop .emptyText (fun _ => hraw ▸ hmessage) nofun).next p
  · exact h.setStage p _
  · exact (h.drop .noRedis nofun fun _ => eq_false_of_ne_true hredis).next p

lemma Truthful.eachMessage : (s.eachMessage parse p).Truthful parse := by
  unfold Listener.eachMessage
  split
  · exact h
  · exact h.next p
  · rename_i hmessage
    split
    · exact h.setStage p _
    · exact h.fail hmessage

lemma Truthful.answer (hsound : s.Sound parse p) (outcome : Outcome) :
    (s.answer p outcome).Truthful parse := by
  unfold Listener.answer
  split
  · exact h
  · rename_i hstage
    obtain ⟨hmessage, hdata⟩ := hsound.stage _ hstage
    cases outcome with
    | done => exact (h.insert hmessage hdata).setStage p _
    | refused => exact h.fail hmessage
    | unanswered => exact (h.insert hmessage hdata).fail hmessage
  · rename_i hstage
    obtain ⟨hmessage, -⟩ := hsound.stage _ hstage
    cases outcome with
    | done => exact (h.commit p).next p
    | refused => exact h.fail hmessage
    | unanswered => exact (h.commit p).fail (place_commit s p ▸ hmessage)
  · rename_i hstage
    have hmessage := hsound.stage _ hstage
    cases outcome with
    | refused => exact (h.drop .refused nofun nofun).next p
    | done | unanswered => exact (h.bury hmessage).next p

end Truthful

lemma Truthful.step (h : s.Truthful parse) (hsound : ∀ p, s.Sound parse p) (event : Event) :
    (s.step parse event).Truthful parse := by
  cases event with
  | produce p value =>
    have hgrows : Grows s (s.step parse (.produce p value)) := grows_produce s p value
    constructor
    · intro row hrow
      obtain ⟨raw, data, hmessage, hdata⟩ := h.rows row hrow
      exact ⟨raw, data, hgrows.message _ _ hmessage, hdata⟩
    · exact fun letter hletter => hgrows.message _ _ (h.deadLetters letter hletter)
    · exact fun place hplace => hgrows.message _ _ (h.emptyText place hplace)
    · exact h.noRedis
  | eachMessage p =>
    simp only [Listener.step]
    split_ifs
    · exact h.eachMessage
    · exact h
  | answer p outcome => exact h.answer (hsound p) outcome
  | restart => exact ⟨h.rows, h.deadLetters, h.emptyText, h.noRedis⟩

/-! ### Whole runs -/

lemma sound_create (redis : Bool) (topic : ℕ → List (Option String)) (p : ℕ) :
    (create redis topic).Sound parse p where
  covers := .first _ _
  stage := by rintro stage ⟨⟩
  rows i := Nat.zero_le _
  letters i := Nat.zero_le _

lemma truthful_create (redis : Bool) (topic : ℕ → List (Option String)) :
    (create redis topic).Truthful parse where
  rows := by rintro row ⟨⟩
  deadLetters := by rintro letter ⟨⟩
  emptyText := by rintro place ⟨⟩
  noRedis := by rintro place ⟨⟩

/-- The steps of a run keep what is known, partition by partition. -/
lemma run_inv (hsound : ∀ p, s.Sound parse p) (h : s.Truthful parse) (events : List Event) :
    (∀ p, (s.run parse events).Sound parse p) ∧ (s.run parse events).Truthful parse := by
  induction events generalizing s with
  | nil => exact ⟨hsound, h⟩
  | cons event events ih => exact ih (Sound.step hsound event) (h.step hsound event)

/-- What is accounted for has been dealt with. -/
lemma Truthful.dealtWith (h : s.Truthful parse) (hplace : s.Accounted place) :
    s.DealtWith parse place := by
  rcases hplace with hnull | ⟨row, hrow, rfl⟩ | ⟨letter, hletter, rfl⟩ | ⟨⟨reason, _⟩, hd, rfl⟩
  · exact .noValue hnull
  · obtain ⟨raw, data, hmessage, hdata, hcreate⟩ := h.rows row hrow
    exact .stored hmessage hdata (hcreate ▸ hrow)
  · exact .deadLetter (h.deadLetters letter hletter) hletter
  · cases reason with
    | emptyText => exact .emptyText (h.emptyText _ hd)
    | noRedis => exact .noRedis (h.noRedis _ hd) hd
    | refused => exact .refused hd

/-- Up to the position and up to the committed offset. -/
lemma Sound.dealtWith {i : ℕ} (h : s.Sound parse p) (htruthful : s.Truthful parse)
    (hbase : (s.cursors p).base ≤ i)
    (hi : i < (s.cursors p).position ∨ ∃ offset ∈ (s.cursors p).committed, i < offset) :
    s.DealtWith parse (p, i) := by
  refine htruthful.dealtWith ?_
  rcases hi with hi | ⟨offset, hoffset, hi⟩
  · exact h.covers.passed i hbase hi
  · exact h.covers.committed offset hoffset i hbase hi

lemma restarts_step (s : Listener) (event : Event) :
    (s.step parse event).restarts = s.restarts + [event].count .restart := by
  cases event with
  | produce p value => rfl
  | eachMessage p =>
    simp only [Listener.step]
    split_ifs
    · exact (Beside.eachMessage (Nat.succ_ne_self p) s).restarts
    · rfl
  | answer p outcome => exact (Beside.answer (Nat.succ_ne_self p) outcome s).restarts
  | restart => rfl

lemma restarts_run (s : Listener) (events : List Event) :
    (s.run parse events).restarts = s.restarts + events.count .restart := by
  induction events generalizing s with
  | nil => rfl
  | cons event events ih =>
    have hcount : (event :: events).count .restart =
        [event].count .restart + events.count .restart := by
      rw [← singleton_append, count_append]
    rw [hcount, ← Nat.add_assoc, ← restarts_step]
    exact ih _

/-- Whatever fails and whenever the consumer is started again, no message that it has passed or
committed is left out from its last start without a committed offset on: each one was without a
value, or its notification is stored, or it is a dead letter, unless it is the empty text or there
was no Redis to keep it. -/
theorem nothing_skipped (parse : String → Option NotificationCreateEvent) (redis : Bool)
    (topic : ℕ → List (Option String)) (events : List Event) (p i : ℕ)
    (hbase : (((create redis topic).run parse events).cursors p).base ≤ i)
    (hi : i < (((create redis topic).run parse events).cursors p).position ∨
      ∃ offset ∈ (((create redis topic).run parse events).cursors p).committed, i < offset) :
    ((create redis topic).run parse events).DealtWith parse (p, i) := by
  have htopic : (create redis topic).Truthful parse := truthful_create redis topic
  obtain ⟨hsound, htruthful⟩ := run_inv (sound_create redis topic) htopic events
  exact (hsound p).dealtWith htruthful hbase hi

/-- Once an offset is committed, whatever fails later and however often the consumer is started
again, every message from the same one on that it has passed or committed is dealt with. -/
theorem no_gap_once_committed (parse : String → Option NotificationCreateEvent) (redis : Bool)
    (topic : ℕ → List (Option String)) (before after : List Event) (p i : ℕ)
    (hcommitted : (((create redis topic).run parse before).cursors p).committed ≠ none)
    (hbase : (((create redis topic).run parse before).cursors p).base ≤ i)
    (hi : i < (((create redis topic).run parse (before ++ after)).cursors p).position ∨
      ∃ offset ∈ (((create redis topic).run parse (before ++ after)).cursors p).committed,
        i < offset) :
    ((create redis topic).run parse (before ++ after)).DealtWith parse (p, i) := by
  have htopic : (create redis topic).Truthful parse := truthful_create redis topic
  obtain ⟨hsound, htruthful⟩ := run_inv (sound_create redis topic) htopic (before ++ after)
  have hrun : (create redis topic).run parse (before ++ after) =
      ((create redis topic).run parse before).run parse after := foldl_append
  have hcontinues : (((create redis topic).run parse before).cursors p).Continues
      (((create redis topic).run parse (before ++ after)).cursors p) :=
    hrun ▸ continues_run _ after p
  have hsame := Nat.le_of_eq (hcontinues.base hcommitted)
  exact (hsound p).dealtWith htruthful (Nat.le_trans hsame hbase) hi

/-- A notification is stored only for a message that reads as its payload, and for each message not
more often than the consumer was started. The same holds of the dead letters. -/
theorem stored_once_per_start (parse : String → Option NotificationCreateEvent) (redis : Bool)
    (topic : ℕ → List (Option String)) (events : List Event) :
    ((create redis topic).run parse events).Truthful parse ∧
      ∀ p i, ((create redis topic).run parse events).rowsOf p i ≤ events.count .restart + 1 ∧
        ((create redis topic).run parse events).lettersOf p i ≤ events.count .restart + 1 := by
  have htopic : (create redis topic).Truthful parse := truthful_create redis topic
  obtain ⟨hsound, htruthful⟩ := run_inv (sound_create redis topic) htopic events
  refine ⟨htruthful, fun p i => ?_⟩
  have hrestarts : ((create redis topic).run parse events).restarts = events.count .restart :=
    (restarts_run _ events).trans (Nat.zero_add _)
  exact ⟨hrestarts ▸ (hsound p).rows.le i, hrestarts ▸ (hsound p).letters.le i⟩

/-! ### Two starts -/

def depositText : String :=
  "\x7b\"userId\":\"4dbe4b82-0d9b-4a52-8a1c-3f2f3a2b6c01\",\"type\":\"system\"," ++
    "\"message\":\"Deposit confirmed\"\x7d"

def deposit : NotificationCreateEvent where
  userId := "4dbe4b82-0d9b-4a52-8a1c-3f2f3a2b6c01"
  type := "system"
  message := "Deposit confirmed"

/-- A notification is stored and its offset not committed when the consumer is started again; after
it comes a text that is no JSON. -/
def twoStarts : List Event :=
  [.produce 0 (some depositText), .eachMessage 0, .answer 0 .done, .answer 0 .done,
    .produce 0 (some depositText), .produce 0 (some "deposit"), .eachMessage 0, .answer 0 .done,
    .restart, .eachMessage 0, .answer 0 .done, .answer 0 .done, .eachMessage 0, .answer 0 .done]

def afterTwoStarts : Listener :=
  (create true fun _ => []).run
    (fun raw => if raw = depositText then some deposit else none) twoStarts

theorem nothing_skipped_twoStarts :
    afterTwoStarts.DealtWith (fun raw => if raw = depositText then some deposit else none) (0, 2) :=
  nothing_skipped _ true (fun _ => []) twoStarts 0 2 (by decide) (Or.inl (by decide))

theorem no_gap_once_committed_twoStarts :
    afterTwoStarts.DealtWith (fun raw => if raw = depositText then some deposit else none) (0, 1) :=
  no_gap_once_committed _ true (fun _ => []) (twoStarts.take 4) (twoStarts.drop 4) 0 1 (by decide)
    (by decide) (Or.inl (by decide))

/-- The message at the restart is stored twice. -/
example : afterTwoStarts.rowsOf 0 1 = 2 ∧ afterTwoStarts.lettersOf 0 2 = 1 := by decide

/-- A dead letter commits no offset, so that the start after it goes to the end of the topic. -/
example :
    let s := (create true fun _ => []).run (fun _ => none)
      [.produce 0 (some "deposit"), .eachMessage 0, .answer 0 .done,
        .produce 0 (some depositText), .restart]
    (s.cursors 0).position = 2 ∧ s.rows = [] ∧ s.lettersOf 0 1 = 0 := by decide

end Listener

end Pokerhub.Notifications
