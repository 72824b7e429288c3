import Pokerhub.Events.Publisher

/-!
# The stages of the publisher

How far a call has come with its events: what an `emit` has sent or kept, and what a replay has read
and still has to send and to remove. Every call keeps to these stages (`follows_body`), unless one of
the things happens that the condition on the runs excludes (`EventStage.spoilt`).
-/

namespace Pokerhub.Events

open List Program

/-- What a replay has read: a text in Redis, or an object in memory. -/
structure Entry where
  identity : Option ℕ
  raw : Text
  event : Option FailedEvent

def Entry.ofText (raw : Text) : Entry :=
  ⟨none, raw, deserializeFailedEvent raw⟩

def Entry.ofObject (x : ℕ × FailedEvent) : Entry :=
  ⟨some x.1, serializeFailedEvent x.2, some x.2⟩

inductive EventStage where
  | entering (name : String) (payload : Json)
  | refused
  | invalid
  | trying (event : FailedEvent)
  | failing (event : FailedEvent)
  /-- The event is in Redis, and the answer is awaited. -/
  | written (event : FailedEvent)
  | sent (raw : Text)
  | kept (raw : Text)
  | unread
  | replaying (entries : List Entry)
  | resending (entry : Entry) (event : FailedEvent) (entries : List Entry)
  /-- The event was sent again, and is not yet removed. -/
  | resent (entry : Entry) (entries : List Entry)
  | stopped
  /-- What the condition on the runs excludes. -/
  | spoilt

namespace EventStage

def Allows : EventStage → EventCmd → Prop
  | entering .., c => c = .circuitOpen
  | trying event, c => ∃ n, c = .send n event
  | failing event, c =>
    c = .countFailure ∨ c = .rpush (serializeFailedEvent event) ∨ c = .push event
  | written _, c => c = .answer
  | unread, c => c = .lrange ∨ c = .fallbackEvents
  | replaying (x :: _), c => c = .circuitOpen ∨ x.event = none ∧ c = .lrem x.raw
  | resending _ event _, c => ∃ n, c = .send n event
  | resent x _, c =>
    x.identity = none ∧ c = .lrem x.raw ∨ ∃ identity ∈ x.identity, c = .splice identity
  | spoilt, _ => True
  | _, _ => False

/-- A replay begins with the next event. -/
def resend (config : EventConfig) (x : Entry) (entries : List Entry) : EventStage :=
  match x.event with
  | none => spoilt
  | some event =>
    match config.schema event.name event.payload with
    | none => stopped
    | some data => resending x ⟨event.name, data⟩ entries

def next (config : EventConfig) : EventStage → (c : EventCmd) → Option c.Answer → EventStage
  | entering _ _, .circuitOpen, some true => refused
  | entering name payload, .circuitOpen, some false =>
    match config.schema name payload with
    | none => invalid
    | some data => trying ⟨name, data⟩
  | trying event, .send _ _, some _ => sent (serializeFailedEvent event)
  | trying event, .send n _, none => if n = 3 then failing event else trying event
  | failing event, .countFailure, some _ => failing event
  | failing event, .rpush _, some _ => written event
  | failing event, .rpush _, none => failing event
  | failing event, .push _, some _ => kept (serializeFailedEvent event)
  | written event, .answer, some _ => kept (serializeFailedEvent event)
  | unread, .lrange, some texts => replaying (texts.map Entry.ofText)
  | unread, .lrange, none => stopped
  | unread, .fallbackEvents, some events => replaying (events.map Entry.ofObject)
  | replaying (_ :: _), .circuitOpen, some true => stopped
  | replaying (x :: entries), .circuitOpen, some false => resend config x entries
  | resending x _ entries, .send _ _, some _ => resent x entries
  | resending x event entries, .send n _, none =>
    if n = 3 then spoilt else resending x event entries
  | resent _ entries, .lrem _, some _ => replaying entries
  | resent _ entries, .splice _, some _ => replaying entries
  | _, _, _ => spoilt

end EventStage

def eventStages (config : EventConfig) : Discipline EventCmd.Answer EventStage where
  allowed := EventStage.Allows
  next := EventStage.next config

/-- The end of a call. -/
def Ends : Except EventError Unit → EventStage → Prop
  | _, .spoilt => True
  | .ok _, .sent _ | .ok _, .stopped | .ok _, .replaying [] => True
  | .error .circuitOpen, .refused | .error .invalid, .invalid => True
  | .error (.unpublished _), .kept _ => True
  | _, _ => False

def firstStage : EventCall → EventStage
  | .emit name payload => .entering name payload
  | .replayFailed => .unread

/-! ### The calls keep to the stages -/

section Calls

variable {config : EventConfig} {l : EventStage}

lemma follows_eventRun {α : Type} {Q : Except EventError α → EventStage → Prop} {c : EventCmd}
    {f : c.Answer → EventM α} (hc : l.Allows c)
    (hok : ∀ a, (f a).Follows (eventStages config) Q (l.next config c (some a)))
    (hfail : Q (.error .command) (l.next config c none)) :
    (eventRun c >>= f).Follows (eventStages config) Q l :=
  follows_command_bind hc hok hfail

lemma follows_spoilt {α : Type} {Q : Except EventError α → EventStage → Prop}
    (hQ : ∀ r, Q r .spoilt) (p : EventM α) : p.Follows (eventStages config) Q .spoilt :=
  follows_of_absorbing (fun _ => trivial) (fun _ _ => rfl) hQ p

/-- The three attempts. -/
lemma follows_attempts {Q : Except EventError Bool → EventStage → Prop} {event : FailedEvent}
    (hsend : ∀ n, l.Allows (.send n event))
    (hok : ∀ n, Q (.ok true) (l.next config (.send n event) (some ())))
    (hretry : ∀ n, n ≠ 3 → l.next config (.send n event) none = l)
    (hlast : Q (.ok false) (l.next config (.send 3 event) none)) :
    (attempts event [1, 2, 3]).Follows (eventStages config) Q l := by
  have hattempt : ∀ n ns, ((attempts event ns).Follows (eventStages config) Q
      (l.next config (.send n event) none)) →
      (attempts event (n :: ns)).Follows (eventStages config) Q l := by
    intro n ns hns
    apply follows_bind
    apply follows_attempt
    apply follows_command
    · exact hsend n
    · exact fun _ => hok n
    · exact hns
  apply hattempt
  rw [hretry 1 (by decide)]
  apply hattempt
  rw [hretry 2 (by decide)]
  apply hattempt
  exact hlast

lemma follows_persistFailedEvent {Q : Except EventError Unit → EventStage → Prop}
    {event : FailedEvent} (hkept : Q (.ok ()) (.kept (serializeFailedEvent event)))
    (hspoilt : ∀ r, Q r .spoilt) :
    (config.persistFailedEvent event).Follows (eventStages config) Q (.failing event) := by
  have hpush : (eventRun (.push event)).Follows (eventStages config) Q (.failing event) := by
    apply follows_command
    · exact Or.inr (Or.inr rfl)
    · exact fun _ => hkept
    · exact hspoilt _
  unfold EventConfig.persistFailedEvent
  split_ifs
  · apply follows_bind
    apply follows_attempt
    apply follows_eventRun
    · exact Or.inr (Or.inl rfl)
    · intro _
      apply follows_command
      · exact rfl
      · exact fun _ => hkept
      · exact follows_spoilt hspoilt _
    · exact hpush
  · exact hpush

lemma follows_emit {name : String} {payload : Json} :
    (config.emit name payload).Follows (eventStages config) Ends (.entering name payload) := by
  apply follows_eventRun
  · exact rfl
  · rintro (_ | _)
    · show Program.Follows _ _ (match config.schema name payload with | none => _ | some data => _)
        (match config.schema name payload with | none => _ | some data => _)
      cases config.schema name payload with
      | none => trivial
      | some data =>
        apply follows_bind
        apply follows_attempts
        · exact fun n => ⟨n, rfl⟩
        · exact fun _ => trivial
        · exact fun n hn => if_neg hn
        · apply follows_eventRun
          · exact Or.inl rfl
          · intro _
            apply follows_bind
            apply follows_persistFailedEvent
            · trivial
            · rintro (_ | _)
              · trivial
              · trivial
          · trivial
    · trivial
  · trivial

/-- An event is sent again. -/
lemma follows_resend {Q : Except EventError Unit → EventStage → Prop} {x : Entry}
    {entries : List Entry} {event : FailedEvent} {remove : EventM Unit} (hx : x.event = some event)
    (hstop : ∀ e, Q (.error e) .stopped)
    (hspoilt : ∀ r, Q r .spoilt)
    (hremove : remove.Follows (eventStages config) Q (.resent x entries)) :
    (config.emit event.name event.payload >>= fun _ => remove).Follows (eventStages config) Q
      (.replaying (x :: entries)) := by
  apply follows_bind
  apply follows_eventRun
  · exact Or.inl rfl
  · rintro (_ | _)
    · show Program.Follows _ _ _ (EventStage.resend config x entries)
      unfold EventStage.resend
      rw [hx]
      show Program.Follows _ _ (match config.schema event.name event.payload with
        | none => _ | some data => _) (match config.schema event.name event.payload with
        | none => _ | some data => _)
      cases config.schema event.name event.payload with
      | none => exact hstop _
      | some data =>
        apply follows_bind
        apply follows_attempts
        · exact fun n => ⟨n, rfl⟩
        · exact fun _ => hremove
        · exact fun n hn => if_neg hn
        · apply follows_spoilt
          rintro (_ | _)
          · exact hspoilt _
          · exact follows_spoilt hspoilt _
    · exact hstop _
  · exact hspoilt _

lemma follows_removePersistedEvent {Q : Except EventError Unit → EventStage → Prop} {raw : Text}
    (hc : l.Allows (.lrem raw)) (hok : Q (.ok ()) (l.next config (.lrem raw) (some ())))
    (hfail : Q (.ok ()) (l.next config (.lrem raw) none)) :
    (removePersistedEvent raw).Follows (eventStages config) Q l := by
  apply follows_bind
  apply follows_attempt
  apply follows_command
  · exact hc
  · exact fun _ => hok
  · exact hfail

lemma follows_replayEntries (texts : List Text) :
    (config.replayEntries texts).Follows (eventStages config) Ends
      (.replaying (texts.map Entry.ofText)) := by
  induction texts with
  | nil => trivial
  | cons raw texts ih =>
    have hspoilt : ∀ p : EventM Unit, p.Follows (eventStages config) Ends .spoilt :=
      follows_spoilt fun r => by cases r <;> trivial
    unfold EventConfig.replayEntries
    cases hevent : deserializeFailedEvent raw with
    | none =>
      apply follows_bind
      apply follows_removePersistedEvent
      · exact Or.inr ⟨hevent, rfl⟩
      · exact hspoilt _
      · exact hspoilt _
    | some event =>
      apply follows_bind
      apply follows_attempt
      apply follows_resend
      · exact hevent
      · exact fun _ => trivial
      · rintro (_ | _)
        · exact hspoilt _
        · exact hspoilt _
      · apply follows_removePersistedEvent
        · exact Or.inl ⟨rfl, rfl⟩
        · exact ih
        · exact hspoilt _

lemma follows_replayEvents (events : List (ℕ × FailedEvent)) :
    (config.replayEvents events).Follows (eventStages config) Ends
      (.replaying (events.map Entry.ofObject)) := by
  induction events with
  | nil => trivial
  | cons x events ih =>
    have hspoilt : ∀ p : EventM Unit, p.Follows (eventStages config) Ends .spoilt :=
      follows_spoilt fun r => by cases r <;> trivial
    apply follows_bind
    apply follows_attempt
    apply follows_resend
    · exact rfl
    · exact fun _ => trivial
    · rintro (_ | _)
      · exact hspoilt _
      · exact hspoilt _
    · apply follows_command
      · exact Or.inr ⟨x.1, rfl, rfl⟩
      · exact fun _ => ih
      · exact hspoilt _

/-- Every call keeps to the stages. -/
lemma follows_body (r : EventCall) :
    (r.body config).Follows (eventStages config) Ends (firstStage r) := by
  cases r with
  | emit => exact follows_emit
  | replayFailed =>
    show (if config.redis then _ else _ : EventM Unit).Follows _ _ _
    split_ifs
    · apply follows_bind
      apply follows_attempt
      apply follows_command
      · exact Or.inl rfl
      · exact fun texts => follows_replayEntries texts
      · trivial
    · apply follows_eventRun
      · exact Or.inr rfl
      · exact fun events => follows_replayEvents events
      · trivial

end Calls

end Pokerhub.Events
