import Pokerhub.Core.IdLog
import Pokerhub.Core.Json

/-!
# The events of the streams

`EtlService` of `etl.service.ts`: a loop reads the streams `analytics:*` that there are when it
starts, and sends each entry to Kafka, to ClickHouse and to the archive if it is an event. Entries
are added all the while. Every stream is read once from its first entry on, in its order, whatever
becomes of the requests (`handled_in_order`), and no entry is forgotten (`caught_up`). A stream that
comes later is not read.
-/

namespace Pokerhub.Etl

open Function List

/-- A time and a number. -/
abbrev EntryId := ℕ ×ₗ ℕ

/-- The id and the fields of an entry. -/
abbrev Entry := EntryId × List Text

/-- What `runEtl` asks for. -/
inductive Request where
  | send (topic : Text) (value : Text)
  | ingest (table : Text) (payload : Json)
  | archive (event : Text) (payload : Json)

/-- `EventSchemas` and the validators that are made of them. -/
structure Schemas where
  knows : Text → Bool
  parse : Text → Json → Option Json
  validate : Text → Json → Bool

section Entries

variable (schemas : Schemas)

def topicMap : List (Text × Text) :=
  [("game".toList, "hand".toList), ("hand".toList, "hand".toList),
    ("action".toList, "hand".toList), ("wallet".toList, "wallet".toList),
    ("tournament".toList, "tourney".toList), ("auth".toList, "auth".toList),
    ("antiCheat".toList, "auth".toList)]

/-- `event.replace('.', '_')` -/
def replaceDot : Text → Text
  | [] => []
  | c :: text => if c = '.' then '_' :: text else c :: replaceDot text

/-- The requests of `runEtl`, which are made together. -/
def runEtl (event : Text) (data : Json) : List Request :=
  (schemas.parse event data).elim [] fun payload =>
    if schemas.validate event payload then
      (topicMap.lookup ((event.splitOn '.').headD [])).elim [] fun topic =>
        [.send topic (Json.stringify (.object
            [("event", .string (String.ofList event)), ("data", payload)])),
          .ingest (replaceDot event) payload, .archive event payload]
    else []

/-- A text that is no JSON, and an event that is not known, are left out. -/
def processEntry (event : Text) (fields : List Text) : List Request :=
  (fields[1]?.bind Json.parse).elim [] fun raw =>
    if schemas.knows event then
      (schemas.parse event raw).elim [] fun payload => runEtl schemas event payload
    else []

/-- The event of the entries of a stream. -/
def eventOf (stream : Text) : Text :=
  let key := (stream.splitOn ':').getD 1 []
  if '.' ∈ key then key else key ++ ".event".toList

end Entries

/-! ### The loop -/

structure Reader where
  /-- The keys when the loop starts. -/
  streams : List Text
  nodup : streams.Nodup
  redis : Text → IdLog EntryId (List Text)
  lastIds : Text → EntryId := fun _ => ⊥
  /-- The entries of the answer that are still to be processed, with their streams. -/
  batch : List (Text × Entry) := []
  processed : List (Text × Entry) := []
  requests : List (Text × Request) := []

inductive Event where
  | xadd (stream : Text) (id : EntryId) (fields : List Text)
  | next

namespace Reader

/-- The loop starts; `KEYS` lists a key once. -/
def start (streams : {keys : List Text // keys.Nodup}) (redis : Text → IdLog EntryId (List Text)) :
    Reader where
  streams := streams.1
  nodup := streams.2
  redis := redis

variable (schemas : Schemas)

/-- What `xread` answers; nothing if it has waited for long enough. -/
def unread (s : Reader) : List (Text × Entry) :=
  s.streams.flatMap fun stream =>
    ((s.redis stream).after (s.lastIds stream)).map fun entry => (stream, entry)

/-- The next entry of the answer, or the next answer. An id is kept at once here, which the loop
does after the last entry of a stream; it is not read before. -/
def next (s : Reader) : Reader :=
  match s.batch with
  | [] => { s with batch := s.unread }
  | (stream, entry) :: batch =>
    { s with
      lastIds := update s.lastIds stream entry.1
      batch := batch
      processed := s.processed ++ [(stream, entry)]
      requests := s.requests ++
        (processEntry schemas (eventOf stream) entry.2).map fun request => (stream, request) }

def step (s : Reader) : Event → Reader
  | .xadd stream id fields =>
    { s with redis := update s.redis stream ((s.redis stream).add id fields) }
  | .next => s.next schemas

def run (s : Reader) (events : List Event) : Reader :=
  events.foldl (step schemas) s

end Reader

/-! ### One stream -/

/-- The entries of a stream. -/
def ofStream {α : Type} (stream : Text) (es : List (Text × α)) : List α :=
  (es.filter fun e => e.1 = stream).map Prod.snd

section OfStream

variable {α β : Type} {stream stream' : Text}

lemma ofStream_append (stream : Text) (es es' : List (Text × α)) :
    ofStream stream (es ++ es') = ofStream stream es ++ ofStream stream es' := by
  rw [ofStream, filter_append, map_append]
  rfl

lemma ofStream_cons_self (stream : Text) (x : α) (es : List (Text × α)) :
    ofStream stream ((stream, x) :: es) = x :: ofStream stream es := by
  simp [ofStream]

lemma ofStream_cons_of_ne (h : stream' ≠ stream) (x : α) (es : List (Text × α)) :
    ofStream stream ((stream', x) :: es) = ofStream stream es := by
  simp [ofStream, h]

lemma ofStream_map_self (stream : Text) (xs : List α) :
    ofStream stream (xs.map fun x => (stream, x)) = xs := by
  induction xs with
  | nil => rfl
  | cons x xs ih => rw [map_cons, ofStream_cons_self, ih]

lemma ofStream_map_of_ne (h : stream' ≠ stream) (xs : List α) :
    ofStream stream (xs.map fun x => (stream', x)) = [] := by
  induction xs with
  | nil => rfl
  | cons x xs ih => rw [map_cons, ofStream_cons_of_ne h, ih]

/-- The answer has each stream once. -/
lemma ofStream_flatMap {streams : List Text} (hnodup : streams.Nodup) (f : Text → List α)
    (stream : Text) :
    ofStream stream (streams.flatMap fun stream' => (f stream').map fun x => (stream', x)) =
      if stream ∈ streams then f stream else [] := by
  induction streams with
  | nil => rfl
  | cons stream' streams ih =>
    obtain ⟨hnew, hnodup⟩ := nodup_cons.mp hnodup
    rw [flatMap_cons, ofStream_append, ih hnodup]
    rcases eq_or_ne stream' stream with rfl | hne
    · rw [ofStream_map_self, if_neg hnew, if_pos mem_cons_self, append_nil]
    · rw [ofStream_map_of_ne hne, nil_append]
      exact if_congr ⟨mem_cons_of_mem _, fun hmem => (mem_cons.mp hmem).resolve_left hne.symm⟩
        rfl rfl

/-- What is made of the entries of a stream. -/
lemma ofStream_requests (f : Text → α → List β) (stream : Text) (es : List (Text × α)) :
    ofStream stream (es.flatMap fun e => (f e.1 e.2).map fun x => (e.1, x)) =
      (ofStream stream es).flatMap (f stream) := by
  induction es with
  | nil => rfl
  | cons e es ih =>
    obtain ⟨stream', x⟩ := e
    rw [flatMap_cons, ofStream_append, ih]
    rcases eq_or_ne stream' stream with rfl | hne
    · rw [ofStream_map_self, ofStream_cons_self, flatMap_cons]
    · rw [ofStream_map_of_ne hne, ofStream_cons_of_ne hne, nil_append]

end OfStream

/-! ### The loop keeps the order -/

variable {schemas : Schemas} {s : Reader}

structure Sound (schemas : Schemas) (s : Reader) : Prop where
  split : ∀ stream, ∃ newer, (s.redis stream).entries =
    ofStream stream s.processed ++ (ofStream stream s.batch ++ newer)
  lastId : ∀ stream, s.lastIds stream = IdLog.lastId (ofStream stream s.processed)
  others : ∀ stream ∉ s.streams, ofStream stream s.batch = [] ∧ ofStream stream s.processed = []
  requests : s.requests = s.processed.flatMap fun e =>
    (processEntry schemas (eventOf e.1) e.2.2).map fun request => (e.1, request)

namespace Sound

lemma ofStream_unread (s : Reader) (stream : Text) :
    ofStream stream s.unread =
      if stream ∈ s.streams then (s.redis stream).after (s.lastIds stream) else [] :=
  ofStream_flatMap s.nodup _ stream

/-- When the answer is used up, the next one is the rest of the streams. -/
lemma unread_eq (h : Sound schemas s) (hbatch : s.batch = []) {stream : Text}
    (hstream : stream ∈ s.streams) :
    (s.redis stream).entries = ofStream stream s.processed ++ ofStream stream s.unread := by
  obtain ⟨newer, hnewer⟩ := h.split stream
  rw [hbatch] at hnewer
  have hafter := IdLog.after_lastId hnewer
  rw [ofStream_unread, if_pos hstream, h.lastId, hafter]
  exact hnewer

lemma xadd (h : Sound schemas s) (stream : Text) (id : EntryId) (fields : List Text) :
    Sound schemas (s.step schemas (.xadd stream id fields)) where
  split stream' := by
    obtain ⟨newer, hnewer⟩ := h.split stream'
    rcases eq_or_ne stream' stream with rfl | hne
    · obtain ⟨new, hnew⟩ := (s.redis stream').entries_add id fields
      have hlog : (s.step schemas (.xadd stream' id fields)).redis stream' =
          (s.redis stream').add id fields := update_self _ _ _
      refine ⟨newer ++ new, ?_⟩
      rw [hlog, hnew, hnewer, append_assoc, append_assoc]
      rfl
    · have hlog : (s.step schemas (.xadd stream id fields)).redis stream' = s.redis stream' :=
        update_of_ne hne _ _
      exact ⟨newer, hlog ▸ hnewer⟩
  lastId := h.lastId
  others := h.others
  requests := h.requests

lemma next (h : Sound schemas s) : Sound schemas (s.next schemas) := by
  unfold Reader.next
  split
  · rename_i hbatch
    refine ⟨fun stream => ?_, h.lastId, fun stream hstream => ⟨?_, (h.others stream hstream).2⟩,
      h.requests⟩
    · by_cases hstream : stream ∈ s.streams
      · exact ⟨[], by rw [append_nil]; exact h.unread_eq hbatch hstream⟩
      · obtain ⟨newer, hnewer⟩ := h.split stream
        rw [hbatch] at hnewer
        refine ⟨newer, ?_⟩
        rw [ofStream_unread, if_neg hstream]
        exact hnewer
    · exact (ofStream_unread s stream).trans (if_neg hstream)
  · rename_i stream entry batch hbatch
    have hself : ofStream stream s.batch = entry :: ofStream stream batch := by
      rw [hbatch, ofStream_cons_self]
    have hother : ∀ stream' ≠ stream, ofStream stream' s.batch = ofStream stream' batch :=
      fun stream' hne => by rw [hbatch, ofStream_cons_of_ne hne.symm]
    have hone : ofStream stream [(stream, entry)] = [entry] := ofStream_cons_self stream entry []
    have hnone : ∀ stream' ≠ stream, ofStream stream' [(stream, entry)] = [] :=
      fun stream' hne => ofStream_cons_of_ne hne.symm entry []
    refine ⟨fun stream' => ?_, fun stream' => ?_, fun stream' hstream => ?_, ?_⟩
    · obtain ⟨newer, hnewer⟩ := h.split stream'
      refine ⟨newer, ?_⟩
      rcases eq_or_ne stream' stream with rfl | hne
      · rw [hself] at hnewer
        rw [ofStream_append, hone, append_assoc]
        exact hnewer
      · rw [hother stream' hne] at hnewer
        rw [ofStream_append, hnone stream' hne, append_nil]
        exact hnewer
    · rcases eq_or_ne stream' stream with rfl | hne
      · rw [ofStream_append, hone, IdLog.lastId_concat]
        exact update_self _ _ _
      · rw [ofStream_append, hnone stream' hne, append_nil, ← h.lastId stream']
        exact update_of_ne hne _ _
    · obtain ⟨hbatch', hprocessed⟩ := h.others stream' hstream
      have hne : stream' ≠ stream := by
        rintro rfl
        rw [hself] at hbatch'
        cases hbatch'
      rw [hother stream' hne] at hbatch'
      refine ⟨hbatch', ?_⟩
      rw [ofStream_append, hprocessed, hnone stream' hne, append_nil]
    · rw [flatMap_append, ← h.requests, flatMap_singleton]

lemma step (h : Sound schemas s) (event : Event) : Sound schemas (s.step schemas event) := by
  cases event with
  | xadd stream id fields => exact h.xadd stream id fields
  | next => exact h.next

lemma run (h : Sound schemas s) (events : List Event) : Sound schemas (s.run schemas events) := by
  induction events generalizing s with
  | nil => exact h
  | cons event events ih => exact ih (h.step event)

lemma start (streams : {keys : List Text // keys.Nodup})
    (redis : Text → IdLog EntryId (List Text)) : Sound schemas (.start streams redis) :=
  ⟨fun _ => ⟨_, rfl⟩, fun _ => rfl, fun _ _ => ⟨rfl, rfl⟩, rfl⟩

end Sound

lemma streams_step (event : Event) : (s.step schemas event).streams = s.streams := by
  cases event with
  | xadd stream id fields => rfl
  | next =>
    rw [Reader.step, Reader.next]
    split <;> rfl

lemma streams_run (events : List Event) : (s.run schemas events).streams = s.streams := by
  induction events generalizing s with
  | nil => rfl
  | cons event events ih => exact ih.trans (streams_step event)

/-- Whatever is added while the loop runs: of each stream that it has found, the first entries have
been processed, each once and in their order, and of the others none; and what was asked for are the
requests of these entries. -/
theorem handled_in_order (schemas : Schemas) (streams : {keys : List Text // keys.Nodup})
    (redis : Text → IdLog EntryId (List Text)) (events : List Event) (stream : Text) :
    let s := (Reader.start streams redis).run schemas events
    ∃ n, ofStream stream s.processed = (s.redis stream).entries.take n ∧
      (stream ∉ streams.1 → n = 0) ∧
      ofStream stream s.requests =
        ((s.redis stream).entries.take n).flatMap fun entry =>
          processEntry schemas (eventOf stream) entry.2 := by
  intro s
  have hsound : Sound schemas s := (Sound.start streams redis).run events
  have hstreams : s.streams = streams.1 := streams_run events
  obtain ⟨newer, hnewer⟩ := hsound.split stream
  have htake : ofStream stream s.processed =
      (s.redis stream).entries.take (ofStream stream s.processed).length := by
    rw [hnewer, take_left]
  refine ⟨_, htake, fun hstream => ?_, ?_⟩
  · rw [← hstreams] at hstream
    rw [(hsound.others stream hstream).2]
    rfl
  · rw [hsound.requests, ← htake]
    exact ofStream_requests (fun stream entry => processEntry schemas (eventOf stream) entry.2)
      stream s.processed

/-! ### Nothing is forgotten -/

/-- The rest of an answer. -/
lemma run_batch (s : Reader) :
    (s.run schemas (replicate s.batch.length .next)).batch = [] ∧
      (s.run schemas (replicate s.batch.length .next)).redis = s.redis ∧
        (s.run schemas (replicate s.batch.length .next)).processed = s.processed ++ s.batch := by
  induction hbatch : s.batch generalizing s with
  | nil => exact ⟨hbatch, rfl, (append_nil _).symm⟩
  | cons e batch ih =>
    obtain ⟨stream, entry⟩ := e
    have hnext : (s.next schemas).batch = batch := by rw [Reader.next, hbatch]
    have hredis : (s.next schemas).redis = s.redis := by rw [Reader.next, hbatch]
    have hprocessed : (s.next schemas).processed = s.processed ++ [(stream, entry)] := by
      rw [Reader.next, hbatch]
    obtain ⟨hdone, hsame, hall⟩ := ih (s.next schemas) hnext
    refine ⟨hdone, hsame.trans hredis, hall.trans ?_⟩
    rw [hprocessed, append_assoc]
    rfl

lemma run_append (s : Reader) (events events' : List Event) :
    s.run schemas (events ++ events') = (s.run schemas events).run schemas events' :=
  foldl_append

/-- An answer and all of its entries. -/
lemma Sound.answered (h : Sound schemas s) (hbatch : s.batch = []) {stream : Text}
    (hstream : stream ∈ s.streams) :
    ofStream stream (s.run schemas (replicate (s.unread.length + 1) .next)).processed =
      (s.redis stream).entries := by
  have hnext : s.next schemas = { s with batch := s.unread } := by rw [Reader.next, hbatch]
  have hrun : s.run schemas (replicate (s.unread.length + 1) .next) =
      (s.next schemas).run schemas (replicate s.unread.length .next) := rfl
  obtain ⟨-, -, hprocessed⟩ := @run_batch schemas { s with batch := s.unread }
  rw [hrun, hnext, hprocessed, ofStream_append]
  exact (h.unread_eq hbatch hstream).symm

/-- The loop comes to the end of what there is. -/
theorem caught_up (schemas : Schemas) (streams : {keys : List Text // keys.Nodup})
    (redis : Text → IdLog EntryId (List Text)) (events : List Event) :
    let s := (Reader.start streams redis).run schemas events
    ∃ n, ∀ stream ∈ streams.1, ofStream stream (s.run schemas (replicate n .next)).processed =
      (s.redis stream).entries := by
  intro s
  have hsound : Sound schemas s := (Sound.start streams redis).run events
  have hstreams : s.streams = streams.1 := streams_run events
  -- the rest of the last answer, and then the next one
  obtain ⟨hbatch, hredis, -⟩ := @run_batch schemas s
  have hstreams' := (@streams_run schemas s (replicate s.batch.length .next)).trans hstreams
  refine ⟨s.batch.length + ((s.run schemas (replicate s.batch.length .next)).unread.length + 1),
    fun stream hstream => ?_⟩
  rw [replicate_add, run_append, (hsound.run _).answered hbatch (hstreams' ▸ hstream), hredis]

end Pokerhub.Etl
