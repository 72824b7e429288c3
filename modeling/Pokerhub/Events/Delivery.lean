import Mathlib.Data.List.Nodup
import Mathlib.Data.List.Perm.Subperm
import Pokerhub.Events.Stages

/-!
# Events are neither lost nor kept twice

In the runs in which every event that a replay sends again is acknowledged, what was sent again is
removed, no replay begins before the one under way has ended, and no write to Redis that takes
effect is reported as failed, an event that is not refused by the open circuit breaker is, once all
calls have ended, either delivered or kept, and it is so once (`delivered_or_kept`).
-/

namespace Pokerhub.Events

open List Program

/-! ### What is delivered and what is kept -/

namespace EventStage

/-- The event of an `emit` that is delivered or kept. -/
def done : EventStage → List Text
  | written event => [serializeFailedEvent event]
  | sent raw | kept raw => [raw]
  | _ => []

/-- The event that is delivered and not yet removed. -/
def pending : EventStage → List Text
  | resent x _ => [x.raw]
  | _ => []

/-- What a replay still has to remove. -/
def queue : EventStage → List Entry
  | replaying entries => entries
  | resending x _ entries | resent x entries => x :: entries
  | _ => []

end EventStage

def Valid (config : EventConfig) (event : FailedEvent) : Prop :=
  ∃ payload, config.schema event.name payload = some event.payload

/-- An entry was read from where a valid event is kept. -/
def Entry.Reads (config : EventConfig) (x : Entry) : Prop :=
  ∃ event, Valid config event ∧ serializeFailedEvent event = x.raw ∧
    ∃ v, (v = event.payload ∨ v = event.payload.written) ∧ x.event = some ⟨event.name, v⟩

def Entry.text (x : Entry) : Option Text :=
  if x.identity = none then some x.raw else none

def Entry.object (x : Entry) : Option (ℕ × Text) :=
  x.identity.map fun identity => (identity, x.raw)

/-- The objects in memory. -/
def Publisher.objects (s : Publisher) : List (ℕ × Text) :=
  s.fallback.map fun x => (x.1, serializeFailedEvent x.2)

/-- The stages of a call. -/
def Fits (config : EventConfig) : EventCall → EventStage → Prop
  | .emit name payload, .entering name' payload' => name' = name ∧ payload' = payload
  | .emit .., .refused => True
  | .emit name payload, .invalid => config.schema name payload = none
  | .emit name payload, .trying event | .emit name payload, .failing event
  | .emit name payload, .written event =>
    event.name = name ∧ config.schema name payload = some event.payload
  | .emit name payload, .sent raw | .emit name payload, .kept raw =>
    ∃ data, config.schema name payload = some data ∧ raw = serializeFailedEvent ⟨name, data⟩
  | .replayFailed, .unread | .replayFailed, .replaying _ | .replayFailed, .resent .. => True
  | .replayFailed, .resending x event _ => serializeFailedEvent event = x.raw
  | .replayFailed, .stopped => True
  | _, _ => False

/-- The lists of all stages, one after another. -/
def gather {A : Type} (f : EventStage → List A) (ls : List (EventCall × EventStage)) : List A :=
  ls.flatMap fun rl => f rl.2

structure Balance (config : EventConfig) (s : Publisher) (ls : List (EventCall × EventStage)) :
    Prop where
  fits : ∀ rl ∈ ls, Fits config rl.1 rl.2
  texts : ∀ raw ∈ s.failedEvents, ∃ event, Valid config event ∧ serializeFailedEvent event = raw
  events : ∀ x ∈ s.fallback, Valid config x.2
  identities : (s.fallback.map (·.1)).Nodup
  fresh : ∀ x ∈ s.fallback, x.1 < s.pushed
  entries : ∀ x ∈ gather EventStage.queue ls, x.Reads config
  queuedTexts : (gather EventStage.queue ls).filterMap Entry.text <+~ s.failedEvents
  queuedObjects : (gather EventStage.queue ls).filterMap Entry.object <+~ s.objects
  held : ∀ raw, (gather EventStage.done ls).count raw + (gather EventStage.pending ls).count raw =
    s.delivered.count raw + s.held raw
  removed : ∀ raw, s.replayed.count raw =
    s.removed.count raw + (gather EventStage.pending ls).count raw

section Balance

variable {config : EventConfig} {s s' : Publisher} {ls ls' : List (EventCall × EventStage)}
  {r : EventCall} {l l' : EventStage} {c : EventCmd}

lemma gather_cons {A : Type} (f : EventStage → List A) :
    gather f ((r, l) :: ls) = f l ++ gather f ls := rfl

lemma gather_perm {A : Type} (f : EventStage → List A) (h : ls ~ ls') : gather f ls ~ gather f ls' :=
  h.flatMap_right _

lemma Balance.perm (h : Balance config s ls) (hperm : ls ~ ls') : Balance config s ls' where
  fits rl hrl := h.fits rl (hperm.mem_iff.mpr hrl)
  texts := h.texts
  events := h.events
  identities := h.identities
  fresh := h.fresh
  entries x hx := h.entries x ((gather_perm _ hperm).mem_iff.mpr hx)
  queuedTexts := (((gather_perm _ hperm).filterMap _).subperm_right).mp h.queuedTexts
  queuedObjects := (((gather_perm _ hperm).filterMap _).subperm_right).mp h.queuedObjects
  held raw := by
    rw [← (gather_perm _ hperm).count_eq, ← (gather_perm _ hperm).count_eq]
    exact h.held raw
  removed raw := by
    rw [← (gather_perm _ hperm).count_eq]
    exact h.removed raw

lemma Balance.fits_cons (h : Balance config s ((r, l) :: ls)) (hfits : Fits config r l') :
    ∀ rl ∈ (r, l') :: ls, Fits config rl.1 rl.2 := by
  intro rl hrl
  rcases mem_cons.mp hrl with rfl | hrl
  · exact hfits
  · exact h.fits rl (mem_cons_of_mem _ hrl)

/-- The failures and the clock do not matter. -/
lemma Balance.clock (h : Balance config s ls) (now failures circuitOpenUntil : ℕ) :
    Balance config { s with
      now := now
      failures := failures
      circuitOpenUntil := circuitOpenUntil } ls :=
  ⟨h.fits, h.texts, h.events, h.identities, h.fresh, h.entries, h.queuedTexts, h.queuedObjects,
    h.held, h.removed⟩

/-- A call goes on, and may drop what it still had to remove. -/
lemma Balance.move (h : Balance config s ((r, l) :: ls)) (hfits : Fits config r l')
    (hdone : l'.done = l.done) (hpending : l'.pending = l.pending) (hqueue : l'.queue <+ l.queue) :
    Balance config s ((r, l') :: ls) := by
  have hsub : gather EventStage.queue ((r, l') :: ls) <+ gather EventStage.queue ((r, l) :: ls) :=
    hqueue.append_right _
  constructor
  · exact h.fits_cons hfits
  · exact h.texts
  · exact h.events
  · exact h.identities
  · exact h.fresh
  · exact fun x hx => h.entries x (hsub.subset hx)
  · exact (hsub.filterMap _).subperm.trans h.queuedTexts
  · exact (hsub.filterMap _).subperm.trans h.queuedObjects
  · intro raw
    rw [gather_cons, gather_cons, hdone, hpending]
    exact h.held raw
  · intro raw
    rw [gather_cons, hpending]
    exact h.removed raw

/-- The broker acknowledges an event that was passed to `emit`. -/
lemma Balance.deliver (h : Balance config s ((r, l) :: ls)) {raw : Text} (hfits : Fits config r l')
    (hdone : l.done = []) (hdone' : l'.done = [raw]) (hpending : l'.pending = l.pending)
    (hqueue : l'.queue = l.queue) :
    Balance config { s with delivered := s.delivered ++ [raw] } ((r, l') :: ls) where
  fits := h.fits_cons hfits
  texts := h.texts
  events := h.events
  identities := h.identities
  fresh := h.fresh
  entries := by
    rw [gather_cons, hqueue]
    exact h.entries
  queuedTexts := by
    rw [gather_cons, hqueue]
    exact h.queuedTexts
  queuedObjects := by
    rw [gather_cons, hqueue]
    exact h.queuedObjects
  held text := by
    have hheld := h.held text
    simp only [gather_cons, hdone, hdone', hpending, count_append, count_nil] at hheld ⊢
    show _ = _ + s.held text
    omega
  removed text := by
    rw [gather_cons, hpending]
    exact h.removed text

/-- An event is kept in Redis. -/
lemma Balance.write (h : Balance config s ((r, l) :: ls)) {event : FailedEvent}
    (hvalid : Valid config event) (hfits : Fits config r l') (hdone : l.done = [])
    (hdone' : l'.done = [serializeFailedEvent event]) (hpending : l'.pending = l.pending)
    (hqueue : l'.queue = l.queue) :
    Balance config { s with failedEvents := s.failedEvents ++ [serializeFailedEvent event] }
      ((r, l') :: ls) where
  fits := h.fits_cons hfits
  texts raw hraw := by
    rcases mem_append.mp hraw with hraw | hraw
    · exact h.texts raw hraw
    · exact ⟨event, hvalid, (mem_singleton.mp hraw).symm⟩
  events := h.events
  identities := h.identities
  fresh := h.fresh
  entries := by
    rw [gather_cons, hqueue]
    exact h.entries
  queuedTexts := by
    rw [gather_cons, hqueue]
    exact h.queuedTexts.trans (sublist_append_left _ _).subperm
  queuedObjects := by
    rw [gather_cons, hqueue]
    exact h.queuedObjects
  held text := by
    have hheld := h.held text
    simp only [gather_cons, hdone, hdone', hpending, count_append, count_nil, Publisher.held]
      at hheld ⊢
    omega
  removed text := by
    rw [gather_cons, hpending]
    exact h.removed text

/-- An event is kept in memory. -/
lemma Balance.push (h : Balance config s ((r, l) :: ls)) {event : FailedEvent}
    (hvalid : Valid config event) (hfits : Fits config r l') (hdone : l.done = [])
    (hdone' : l'.done = [serializeFailedEvent event]) (hpending : l'.pending = l.pending)
    (hqueue : l'.queue = l.queue) :
    Balance config { s with
      fallback := s.fallback ++ [(s.pushed, event)]
      pushed := s.pushed + 1 } ((r, l') :: ls) where
  fits := h.fits_cons hfits
  texts := h.texts
  events x hx := by
    rcases mem_append.mp hx with hx | hx
    · exact h.events x hx
    · rw [mem_singleton.mp hx]
      exact hvalid
  identities := by
    rw [map_append, nodup_append]
    refine ⟨h.identities, nodup_singleton _, ?_⟩
    rintro identity hidentity identity' hidentity' rfl
    obtain ⟨x, hx, rfl⟩ := mem_map.mp hidentity
    exact (h.fresh x hx).ne (mem_singleton.mp hidentity')
  fresh x hx := by
    rcases mem_append.mp hx with hx | hx
    · exact (h.fresh x hx).trans (Nat.lt_succ_self _)
    · rw [mem_singleton.mp hx]
      exact Nat.lt_succ_self _
  entries := by
    rw [gather_cons, hqueue]
    exact h.entries
  queuedTexts := by
    rw [gather_cons, hqueue]
    exact h.queuedTexts
  queuedObjects := by
    rw [gather_cons, hqueue, Publisher.objects, map_append]
    exact h.queuedObjects.trans (sublist_append_left _ _).subperm
  held text := by
    have hheld := h.held text
    simp only [gather_cons, hdone, hdone', hpending, count_append, count_nil, Publisher.held,
      map_append, map_cons, map_nil] at hheld ⊢
    omega
  removed text := by
    rw [gather_cons, hpending]
    exact h.removed text

lemma filterMap_text_ofText (texts : List Text) :
    (texts.map Entry.ofText).filterMap Entry.text = texts := by
  rw [filterMap_map]
  exact filterMap_some

lemma filterMap_object_ofText (texts : List Text) :
    (texts.map Entry.ofText).filterMap Entry.object = [] := by
  induction texts with
  | nil => rfl
  | cons raw texts ih => exact ih

lemma filterMap_text_ofObject (events : List (ℕ × FailedEvent)) :
    (events.map Entry.ofObject).filterMap Entry.text = [] := by
  induction events with
  | nil => rfl
  | cons x events ih => exact ih

lemma filterMap_object_ofObject (events : List (ℕ × FailedEvent)) :
    (events.map Entry.ofObject).filterMap Entry.object =
      events.map fun x => (x.1, serializeFailedEvent x.2) := by
  rw [filterMap_map]
  exact congrFun filterMap_eq_map events

/-- A replay reads what is kept in Redis. -/
lemma Balance.readTexts (h : Balance config s ((r, l) :: ls)) (hfits : Fits config r l')
    (hdone : l'.done = l.done) (hpending : l'.pending = l.pending)
    (hqueue : l'.queue = s.failedEvents.map Entry.ofText) (hfree : gather EventStage.queue ls = []) :
    Balance config s ((r, l') :: ls) where
  fits := h.fits_cons hfits
  texts := h.texts
  events := h.events
  identities := h.identities
  fresh := h.fresh
  entries x hx := by
    rw [gather_cons, hqueue, hfree, append_nil] at hx
    obtain ⟨raw, hraw, rfl⟩ := mem_map.mp hx
    obtain ⟨event, ⟨payload, hevent⟩, rfl⟩ := h.texts raw hraw
    exact ⟨event, ⟨payload, hevent⟩, rfl, _, Or.inr rfl, deserialize_serialize hevent⟩
  queuedTexts := by
    rw [gather_cons, hqueue, hfree, append_nil, filterMap_text_ofText]
  queuedObjects := by
    rw [gather_cons, hqueue, hfree, append_nil, filterMap_object_ofText]
    exact nil_subperm
  held raw := by
    rw [gather_cons, gather_cons, hdone, hpending]
    exact h.held raw
  removed raw := by
    rw [gather_cons, hpending]
    exact h.removed raw

/-- A replay reads what is kept in memory. -/
lemma Balance.readEvents (h : Balance config s ((r, l) :: ls)) (hfits : Fits config r l')
    (hdone : l'.done = l.done) (hpending : l'.pending = l.pending)
    (hqueue : l'.queue = s.fallback.map Entry.ofObject) (hfree : gather EventStage.queue ls = []) :
    Balance config s ((r, l') :: ls) where
  fits := h.fits_cons hfits
  texts := h.texts
  events := h.events
  identities := h.identities
  fresh := h.fresh
  entries x hx := by
    rw [gather_cons, hqueue, hfree, append_nil] at hx
    obtain ⟨y, hy, rfl⟩ := mem_map.mp hx
    exact ⟨y.2, h.events y hy, rfl, _, Or.inl rfl, rfl⟩
  queuedTexts := by
    rw [gather_cons, hqueue, hfree, append_nil, filterMap_text_ofObject]
    exact nil_subperm
  queuedObjects := by
    rw [gather_cons, hqueue, hfree, append_nil, filterMap_object_ofObject]
    exact Subperm.refl _
  held raw := by
    rw [gather_cons, gather_cons, hdone, hpending]
    exact h.held raw
  removed raw := by
    rw [gather_cons, hpending]
    exact h.removed raw

/-- The broker acknowledges an event that is sent again. -/
lemma Balance.redeliver (h : Balance config s ((r, l) :: ls)) {raw : Text} (hfits : Fits config r l')
    (hdone : l'.done = l.done) (hpending : l.pending = []) (hpending' : l'.pending = [raw])
    (hqueue : l'.queue = l.queue) :
    Balance config { s with
      delivered := s.delivered ++ [raw]
      replayed := s.replayed ++ [raw] } ((r, l') :: ls) where
  fits := h.fits_cons hfits
  texts := h.texts
  events := h.events
  identities := h.identities
  fresh := h.fresh
  entries := by
    rw [gather_cons, hqueue]
    exact h.entries
  queuedTexts := by
    rw [gather_cons, hqueue]
    exact h.queuedTexts
  queuedObjects := by
    rw [gather_cons, hqueue]
    exact h.queuedObjects
  held text := by
    have hheld := h.held text
    simp only [gather_cons, hdone, hpending, hpending', count_append, count_nil] at hheld ⊢
    show _ = _ + s.held text
    omega
  removed text := by
    have hremoved := h.removed text
    simp only [gather_cons, hpending, hpending', count_append, count_nil] at hremoved ⊢
    omega

/-- What was sent again is removed from Redis. -/
lemma Balance.eraseText (h : Balance config s ((r, l) :: ls)) {x : Entry} (hx : x.identity = none)
    (hfits : Fits config r l') (hdone : l'.done = l.done) (hpending : l.pending = [x.raw])
    (hpending' : l'.pending = []) (hqueue : l.queue = x :: l'.queue) :
    Balance config { s with
      failedEvents := s.failedEvents.erase x.raw
      removed := if x.raw ∈ s.failedEvents then s.removed ++ [x.raw] else s.removed }
      ((r, l') :: ls) := by
  have htext : x.text = some x.raw := if_pos hx
  have hobject : x.object = none := by
    rw [Entry.object, hx]
    rfl
  have hqueued := h.queuedTexts
  rw [gather_cons, hqueue, cons_append, filterMap_cons_some htext] at hqueued
  have hmem : x.raw ∈ s.failedEvents := hqueued.subset mem_cons_self
  rw [if_pos hmem]
  constructor
  · exact h.fits_cons hfits
  · exact fun raw hraw => h.texts raw (mem_of_mem_erase hraw)
  · exact h.events
  · exact h.identities
  · exact h.fresh
  · intro y hy
    apply h.entries
    rw [gather_cons, hqueue]
    exact mem_cons_of_mem _ hy
  · have herase := hqueued.erase x.raw
    rw [erase_cons_head] at herase
    exact herase
  · have hobjects := h.queuedObjects
    rw [gather_cons, hqueue, cons_append, filterMap_cons_none hobject] at hobjects
    exact hobjects
  · intro text
    have hheld := h.held text
    have herase := (perm_cons_erase hmem).count_eq text
    simp only [gather_cons, hdone, hpending, hpending', count_append, count_nil, count_cons,
      Publisher.held] at hheld herase ⊢
    omega
  · intro text
    have hremoved := h.removed text
    simp only [gather_cons, hpending, hpending', count_append, count_nil, count_cons]
      at hremoved ⊢
    omega

/-- The object of an identity is removed. -/
lemma eraseP_identity {fallback : List (ℕ × FailedEvent)} {y : ℕ × FailedEvent}
    (hnodup : (fallback.map (·.1)).Nodup) (hy : y ∈ fallback) :
    fallback ~ y :: fallback.eraseP (·.1 = y.1) ∧ fallback.find? (·.1 = y.1) = some y := by
  obtain ⟨before, after, rfl⟩ := append_of_mem hy
  have hbefore : ∀ z ∈ before, ¬ z.1 = y.1 := by
    intro z hz heq
    rw [map_append, nodup_append] at hnodup
    exact hnodup.2.2 z.1 (mem_map_of_mem hz) y.1 (mem_map_of_mem mem_cons_self) heq
  have herase : (before ++ y :: after).eraseP (·.1 = y.1) = before ++ after := by
    rw [eraseP_append_right _ (by simpa using hbefore), eraseP_cons_of_pos (by simp)]
  have hfind : (before ++ y :: after).find? (·.1 = y.1) = some y := by
    rw [find?_append, find?_eq_none.mpr (by simpa using hbefore), find?_cons_of_pos (by simp)]
    rfl
  rw [herase, hfind]
  exact ⟨perm_middle, rfl⟩

/-- What was sent again is removed from memory. -/
lemma Balance.eraseObject (h : Balance config s ((r, l) :: ls)) {x : Entry} {identity : ℕ}
    (hx : x.identity = some identity) (hfits : Fits config r l') (hdone : l'.done = l.done)
    (hpending : l.pending = [x.raw]) (hpending' : l'.pending = [])
    (hqueue : l.queue = x :: l'.queue) :
    Balance config { s with
      fallback := s.fallback.eraseP (·.1 = identity)
      removed := s.removed ++
        ((s.fallback.find? (·.1 = identity)).map fun e => serializeFailedEvent e.2).toList }
      ((r, l') :: ls) := by
  have htext : x.text = none := if_neg (by simp [hx])
  have hobject : x.object = some (identity, x.raw) := by
    rw [Entry.object, hx]
    rfl
  have hqueued := h.queuedObjects
  rw [gather_cons, hqueue, cons_append, filterMap_cons_some hobject] at hqueued
  obtain ⟨y, hy, hpair⟩ := mem_map.mp (hqueued.subset mem_cons_self)
  obtain ⟨rfl, hraw⟩ := Prod.mk.inj hpair
  obtain ⟨hperm, hfind⟩ := eraseP_identity h.identities hy
  rw [hfind]
  constructor
  · exact h.fits_cons hfits
  · exact h.texts
  · exact fun z hz => h.events z (mem_of_mem_eraseP hz)
  · exact Nodup.sublist (eraseP_sublist.map _) h.identities
  · exact fun z hz => h.fresh z (mem_of_mem_eraseP hz)
  · intro z hz
    apply h.entries
    rw [gather_cons, hqueue]
    exact mem_cons_of_mem _ hz
  · have htexts := h.queuedTexts
    rw [gather_cons, hqueue, cons_append, filterMap_cons_none htext] at htexts
    exact htexts
  · have hobjects : s.objects ~ (y.1, x.raw) :: (s.fallback.eraseP (·.1 = y.1)).map
        fun x => (x.1, serializeFailedEvent x.2) := by
      rw [← hraw]
      exact hperm.map _
    exact (subperm_cons _).mp (hobjects.subperm_left.mp hqueued)
  · intro text
    have hheld := h.held text
    have hcount := (hperm.map fun e => serializeFailedEvent e.2).count_eq text
    simp only [gather_cons, hdone, hpending, hpending', count_append, count_nil, count_cons,
      Publisher.held, map_cons, hraw] at hheld hcount ⊢
    omega
  · intro text
    have hremoved := h.removed text
    simp only [gather_cons, hpending, hpending', count_append, count_nil, count_cons, hraw,
      Option.map_some, Option.toList_some] at hremoved ⊢
    omega

/-- A replay begins with the next event. -/
lemma Balance.resend {x : Entry} {entries : List Entry}
    (h : Balance config s ((r, .replaying (x :: entries)) :: ls)) :
    Balance config s ((r, .resend config x entries) :: ls) := by
  obtain ⟨event, ⟨payload, hevent⟩, hraw, v, hv, hx⟩ :=
    h.entries x (by simp [gather_cons, EventStage.queue])
  have hfits := h.fits _ mem_cons_self
  cases r with
  | emit => exact hfits.elim
  | replayFailed =>
    unfold EventStage.resend
    rw [hx]
    dsimp only
    cases hdata : config.schema event.name v with
    | none => exact h.move trivial rfl rfl (nil_sublist _)
    | some data =>
      show Balance config s ((_, .resending x ⟨event.name, data⟩ entries) :: ls)
      refine h.move ?_ rfl rfl (Sublist.refl _)
      exact (serialize_stable hevent hv hdata).trans hraw

lemma exec_countFailure (s : Publisher) (r : EventCall) : ∃ failures circuitOpenUntil,
    (EventCmd.exec r .countFailure s).2 =
      { s with
        failures := failures
        circuitOpenUntil := circuitOpenUntil } := by
  by_cases hopen : 5 ≤ s.failures + 1
  · exact ⟨0, s.now + 30000, by rw [EventCmd.exec, if_pos hopen]⟩
  · exact ⟨s.failures + 1, s.circuitOpenUntil, by rw [EventCmd.exec, if_neg hopen]⟩

/-- A command of a call. -/
lemma Balance.call (h : Balance config s ((r, l) :: ls)) (hallowed : l.Allows c)
    (hfree : r = .replayFailed → c = .lrange ∨ c = .fallbackEvents → gather EventStage.queue ls = []) :
    Balance config (c.exec r s).2 ((r, l.next config c (some (c.exec r s).1)) :: ls) := by
  have hfits := h.fits _ mem_cons_self
  cases l with
  | entering name payload =>
    obtain rfl : c = .circuitOpen := hallowed
    cases r with
    | replayFailed => exact hfits.elim
    | emit name' payload' =>
      obtain ⟨rfl, rfl⟩ := hfits
      show Balance config s ((_, EventStage.next config (.entering name payload) .circuitOpen
        (some (decide (s.now < s.circuitOpenUntil)))) :: ls)
      cases decide (s.now < s.circuitOpenUntil) with
      | true => exact h.move trivial rfl rfl (nil_sublist _)
      | false =>
        simp only [EventStage.next]
        cases hdata : config.schema name payload with
        | none => exact h.move hdata rfl rfl (nil_sublist _)
        | some data => exact h.move ⟨rfl, hdata⟩ rfl rfl (nil_sublist _)
  | trying event =>
    obtain ⟨n, rfl⟩ := hallowed
    cases r with
    | replayFailed => exact hfits.elim
    | emit name payload =>
      obtain ⟨rfl, hdata⟩ := hfits
      exact (h.clock s.now 0 s.circuitOpenUntil).deliver ⟨_, hdata, rfl⟩ rfl rfl rfl rfl
  | failing event =>
    cases r with
    | replayFailed => exact hfits.elim
    | emit name payload =>
      obtain ⟨rfl, hdata⟩ := hfits
      rcases hallowed with rfl | rfl | rfl
      · show Balance config (EventCmd.exec _ .countFailure s).2 _
        obtain ⟨failures, circuitOpenUntil, hexec⟩ :=
          exec_countFailure s (.emit event.name payload)
        rw [hexec]
        exact h.clock s.now failures circuitOpenUntil
      · exact h.write ⟨payload, hdata⟩ ⟨rfl, hdata⟩ rfl rfl rfl rfl
      · exact h.push ⟨payload, hdata⟩ ⟨_, hdata, rfl⟩ rfl rfl rfl rfl
  | written event =>
    obtain rfl : c = .answer := hallowed
    cases r with
    | replayFailed => exact hfits.elim
    | emit name payload =>
      obtain ⟨rfl, hdata⟩ := hfits
      exact h.move ⟨_, hdata, rfl⟩ rfl rfl (nil_sublist _)
  | unread =>
    cases r with
    | emit => exact hfits.elim
    | replayFailed =>
      rcases hallowed with rfl | rfl
      · exact h.readTexts trivial rfl rfl rfl (hfree rfl (Or.inl rfl))
      · exact h.readEvents trivial rfl rfl rfl (hfree rfl (Or.inr rfl))
  | replaying entries =>
    cases entries with
    | nil => exact hallowed.elim
    | cons x entries =>
      cases r with
      | emit => exact hfits.elim
      | replayFailed =>
        rcases hallowed with rfl | ⟨hnone, rfl⟩
        · show Balance config s ((_, EventStage.next config (.replaying (x :: entries)) .circuitOpen
            (some (decide (s.now < s.circuitOpenUntil)))) :: ls)
          cases decide (s.now < s.circuitOpenUntil) with
          | true => exact h.move trivial rfl rfl (nil_sublist _)
          | false => exact h.resend
        · -- what is kept is read back
          obtain ⟨_, -, -, _, -, hx⟩ := h.entries x (by simp [gather_cons, EventStage.queue])
          rw [hnone] at hx
          cases hx
  | resending x event entries =>
    obtain ⟨n, rfl⟩ := hallowed
    cases r with
    | emit => exact hfits.elim
    | replayFailed =>
      have hraw : serializeFailedEvent event = x.raw := hfits
      have hnext : Balance config { s with
          failures := 0
          delivered := s.delivered ++ [x.raw]
          replayed := s.replayed ++ [x.raw] } ((.replayFailed, .resent x entries) :: ls) :=
        (h.clock s.now 0 s.circuitOpenUntil).redeliver trivial rfl rfl rfl rfl
      rw [← hraw] at hnext
      exact hnext
  | resent x entries =>
    cases r with
    | emit => exact hfits.elim
    | replayFailed =>
      rcases hallowed with ⟨hx, rfl⟩ | ⟨identity, hx, rfl⟩
      · exact h.eraseText hx trivial rfl rfl rfl rfl
      · exact h.eraseObject hx trivial rfl rfl rfl rfl
  | spoilt => cases r <;> exact hfits.elim
  | _ => exact hallowed.elim

/-- A command that fails. -/
lemma Balance.fault (h : Balance config s ((r, l) :: ls)) (hallowed : l.Allows c)
    (hfails : c.External) (hanswer : c ≠ .answer) (hlrem : ∀ raw, c ≠ .lrem raw)
    (hsend : r = .replayFailed → ∀ event, c ≠ .send 3 event) :
    Balance config s ((r, l.next config c none) :: ls) := by
  have hfits := h.fits _ mem_cons_self
  cases l with
  | entering name payload =>
    obtain rfl : c = .circuitOpen := hallowed
    cases hfails
  | trying event =>
    obtain ⟨n, rfl⟩ := hallowed
    show Balance config s ((r, if n = 3 then .failing event else .trying event) :: ls)
    cases r with
    | replayFailed => exact hfits.elim
    | emit =>
      split_ifs
      · exact h.move hfits rfl rfl (nil_sublist _)
      · exact h
  | failing event =>
    rcases hallowed with rfl | rfl | rfl
    · cases hfails
    · exact h
    · cases hfails
  | written event => exact absurd hallowed hanswer
  | unread =>
    rcases hallowed with rfl | rfl
    · cases r with
      | emit => exact hfits.elim
      | replayFailed => exact h.move trivial rfl rfl (nil_sublist _)
    · cases hfails
  | replaying entries =>
    cases entries with
    | nil => exact hallowed.elim
    | cons x entries =>
      rcases hallowed with rfl | ⟨-, rfl⟩
      · cases hfails
      · exact absurd rfl (hlrem _)
  | resending x event entries =>
    obtain ⟨n, rfl⟩ := hallowed
    show Balance config s ((r, if n = 3 then .spoilt else .resending x event entries) :: ls)
    cases r with
    | emit => exact hfits.elim
    | replayFailed =>
      rw [if_neg]
      · exact h
      · rintro rfl
        exact hsend rfl event rfl
  | resent x entries =>
    rcases hallowed with ⟨-, rfl⟩ | ⟨identity, -, rfl⟩
    · exact absurd rfl (hlrem _)
    · cases hfails
  | spoilt => cases r <;> exact hfits.elim
  | _ => exact hallowed.elim

lemma Balance.start (h : Balance config s ls) : Balance config s (ls ++ [(r, firstStage r)]) := by
  suffices hcons : Balance config s ((r, firstStage r) :: ls) from
    hcons.perm (perm_append_singleton _ _).symm
  have hnil : (firstStage r).done = [] ∧ (firstStage r).pending = [] ∧ (firstStage r).queue = [] := by
    cases r <;> exact ⟨rfl, rfl, rfl⟩
  obtain ⟨hdone, hpending, hqueue⟩ := hnil
  constructor
  · intro rl hrl
    rcases mem_cons.mp hrl with rfl | hrl
    · cases r with
      | emit => exact ⟨rfl, rfl⟩
      | replayFailed => trivial
    · exact h.fits rl hrl
  · exact h.texts
  · exact h.events
  · exact h.identities
  · exact h.fresh
  · rw [gather_cons, hqueue]
    exact h.entries
  · rw [gather_cons, hqueue]
    exact h.queuedTexts
  · rw [gather_cons, hqueue]
    exact h.queuedObjects
  · intro raw
    rw [gather_cons, gather_cons, hdone, hpending]
    exact h.held raw
  · intro raw
    rw [gather_cons, hpending]
    exact h.removed raw

lemma Balance.initial (h : (publisherService config).init s) : Balance config s [] := by
  obtain ⟨now, rfl⟩ := h
  constructor <;> simp [gather, Publisher.held, Publisher.objects]

end Balance

/-! ### The runs -/

/-- A replay that has not yet read what is kept. -/
def Unread : EventM Unit → Prop
  | .call .lrange _ | .call .fallbackEvents _ => True
  | _ => False

/-- Every event that a replay sends again is acknowledged in its three attempts and then removed, no
replay reads what is kept before the one under way has ended, and no write that takes effect is
reported as failed. -/
def Accounted (P : Pool EventCmd.Answer EventError Unit Publisher EventCall) :
    Service.Action EventCall EventCmd → Prop
  | .call _ .lrange | .call _ .fallbackEvents =>
    ∀ t ∈ P.threads, t.1.IsReplay → t.2.Done ∨ Unread t.2
  | .fault r (.send attempt _) => r.IsReplay → attempt ≠ 3
  | .fault _ (.lrem _) | .fault _ .answer => False
  | _ => True

/-- No call is under way. -/
def Quiescent (P : Pool EventCmd.Answer EventError Unit Publisher EventCall) : Prop :=
  ∀ t ∈ P.threads, t.2.Done

/-- The open circuit breaker has refused the event. -/
def Refused (p : EventM Unit) : Prop :=
  p.outcome = some (.error .circuitOpen)

instance (p : EventM Unit) : Decidable (Refused p) :=
  inferInstanceAs (Decidable (_ = _))

/-- The event that is passed to `emit`, if it is one of its schema. -/
def EventConfig.textOf (config : EventConfig) : EventCall → Option Text
  | .emit name payload =>
    (config.schema name payload).map fun data => serializeFailedEvent ⟨name, data⟩
  | .replayFailed => none

/-- How often an event was passed to `emit`. -/
def emitted (config : EventConfig) (P : Pool EventCmd.Answer EventError Unit Publisher EventCall)
    (raw : Text) : ℕ :=
  P.threads.countP fun t => config.textOf t.1 = some raw

/-- How often it was passed and not refused by the open circuit breaker. -/
def accepted (config : EventConfig) (P : Pool EventCmd.Answer EventError Unit Publisher EventCall)
    (raw : Text) : ℕ :=
  P.threads.countP fun t => config.textOf t.1 = some raw ∧ ¬ Refused t.2

section Runs

variable {config : EventConfig} {P : Pool EventCmd.Answer EventError Unit Publisher EventCall}
  {ts : List (EventCall × EventM Unit)} {ls : List (EventCall × EventStage)} {s : Publisher}
  {r : EventCall} {l : EventStage} {p : EventM Unit}

/-- A replay that still has to remove something is neither done nor about to read. -/
lemma queue_eq_nil (hfits : Fits config r l) (hfollows : p.Follows (eventStages config) Ends l)
    (h : p.Done ∨ Unread p) : l.queue = [] := by
  have hbusy : ∀ l' : EventStage, l' = l → (∀ o, ¬ Ends o l') → (∀ c, l'.Allows c → c ≠ .lrange ∧
      c ≠ .fallbackEvents) → False := by
    rintro l' rfl hends hallows
    cases p with
    | ret a => exact hends _ hfollows
    | raise e => exact hends _ hfollows
    | call c next =>
      obtain ⟨hlrange, hevents⟩ := hallows c hfollows.1
      rcases h with h | h
      · exact not_done_call c next h
      · cases c with
        | lrange => exact hlrange rfl
        | fallbackEvents => exact hevents rfl
        | _ => exact h
  cases l with
  | replaying entries =>
    cases entries with
    | nil => rfl
    | cons x entries =>
      refine absurd (hbusy _ rfl ?_ ?_) not_false
      · rintro (e | _) <;> simp [Ends]
      · rintro c (rfl | ⟨-, rfl⟩) <;> simp
  | resending x event entries =>
    refine absurd (hbusy _ rfl ?_ ?_) not_false
    · rintro (e | _) <;> simp [Ends]
    · rintro c ⟨n, rfl⟩
      simp
  | resent x entries =>
    refine absurd (hbusy _ rfl ?_ ?_) not_false
    · rintro (e | _) <;> simp [Ends]
    · rintro c (⟨-, rfl⟩ | ⟨identity, -, rfl⟩) <;> simp
  | _ => rfl

/-- Only replays have something to remove. -/
lemma isReplay_of_queue (hfits : Fits config r l) (h : l.queue ≠ []) : r.IsReplay := by
  cases r with
  | replayFailed => rfl
  | emit =>
    cases l with
    | replaying | resending | resent => exact hfits.elim
    | _ => exact absurd rfl h

/-- When a replay reads what is kept, nothing is still to be removed. -/
lemma gather_queue_eq_nil (hfits : ∀ rl ∈ ls, Fits config rl.1 rl.2)
    (hts : Service.Staged (eventStages config) Ends ts ls)
    (h : ∀ t ∈ ts, t.1.IsReplay → t.2.Done ∨ Unread t.2) : gather EventStage.queue ls = [] := by
  apply flatMap_eq_nil_iff.mpr
  intro rl hrl
  by_contra hqueue
  obtain ⟨t, ht, hrequest, hfollows⟩ := Service.exists_left hts hrl
  have hreplay := isReplay_of_queue (hfits rl hrl) hqueue
  rw [← hrequest] at hreplay
  exact hqueue (queue_eq_nil (hfits rl hrl) hfollows (h t ht hreplay))

theorem balance_of_reachable
    (h : ((publisherService config).system.restrict Accounted).Reachable P) :
    ∃ ls, Service.Staged (eventStages config) Ends P.threads ls ∧ Balance config P.state ls := by
  apply Service.staged_invariant (fun s ls a => ∃ ts, Accounted ⟨s, ts⟩ a ∧
    Service.Staged (eventStages config) Ends ts ls) follows_body _ _ _ _ _ _ h
  · exact fun s ts ls a haccounted hts => ⟨ts, haccounted, hts⟩
  · exact fun s ls r hbalance _ _ => hbalance.start
  · rintro s ls₁ ls₂ r l c hbalance hallowed ⟨ts, haccounted, hts⟩
    refine ((hbalance.perm perm_middle).call hallowed ?_).perm perm_middle.symm
    rintro rfl hreads
    have hall : gather EventStage.queue (ls₁ ++ (.replayFailed, l) :: ls₂) = [] := by
      apply gather_queue_eq_nil hbalance.fits hts
      rcases hreads with rfl | rfl
      · exact haccounted
      · exact haccounted
    have hperm := gather_perm EventStage.queue
      (perm_middle : ls₁ ++ (EventCall.replayFailed, l) :: ls₂ ~ _)
    rw [hall, gather_cons] at hperm
    exact (append_eq_nil_iff.mp hperm.nil_eq.symm).2
  · rintro s ls₁ ls₂ r l c hbalance hallowed hfails ⟨ts, haccounted, hts⟩
    refine ((hbalance.perm perm_middle).fault hallowed hfails ?_ ?_ ?_).perm perm_middle.symm
    · rintro rfl
      exact haccounted
    · rintro raw rfl
      exact haccounted
    · rintro rfl event rfl
      exact haccounted rfl rfl
  · rintro s s' ls hbalance ⟨now, rfl⟩ -
    exact hbalance.clock now s.failures s.circuitOpenUntil
  · exact fun s hs => .initial hs

/-- A call that has ended. -/
lemma done_of_follows (hfits : Fits config r l) (hfollows : p.Follows (eventStages config) Ends l)
    (hdone : p.Done) (raw : Text) : l.pending = [] ∧
      (if config.textOf r = some raw ∧ ¬ Refused p then 1 else 0) = l.done.count raw := by
  -- the stages in which an event is delivered or kept
  have hends : ∀ raw' : Text, (∃ name payload data, r = .emit name payload ∧
      config.schema name payload = some data ∧ raw' = serializeFailedEvent ⟨name, data⟩) →
      ¬ Refused p → (if config.textOf r = some raw ∧ ¬ Refused p then 1 else 0) =
        [raw'].count raw := by
    rintro _ ⟨name, payload, data, rfl, hdata, rfl⟩ hrefused
    have htext : config.textOf (.emit name payload) =
        some (serializeFailedEvent ⟨name, data⟩) := by
      rw [EventConfig.textOf, hdata]
      rfl
    rw [htext]
    by_cases heq : serializeFailedEvent ⟨name, data⟩ = raw
    · simp [heq, hrefused]
    · simp [heq]
  -- the others end without one
  have hnone : config.textOf r = none ∨ Refused p →
      (if config.textOf r = some raw ∧ ¬ Refused p then 1 else 0) = 0 := by
    rintro (h | h) <;> simp [h]
  cases p with
  | call c next => exact absurd hdone (not_done_call c next)
  | ret a =>
    cases l with
    | sent raw' =>
      cases r with
      | replayFailed => exact hfits.elim
      | emit name payload =>
        obtain ⟨data, hdata, hraw⟩ := hfits
        exact ⟨rfl, hends raw' ⟨name, payload, data, rfl, hdata, hraw⟩ (by simp [Refused])⟩
    | stopped =>
      cases r with
      | emit => exact hfits.elim
      | replayFailed => exact ⟨rfl, hnone (Or.inl rfl)⟩
    | replaying entries =>
      cases r with
      | emit => exact hfits.elim
      | replayFailed => exact ⟨rfl, hnone (Or.inl rfl)⟩
    | spoilt => cases r <;> exact hfits.elim
    | _ => exact hfollows.elim
  | raise e =>
    cases l with
    | refused =>
      obtain rfl : e = .circuitOpen := by
        cases e <;> first
          | rfl
          | exact hfollows.elim
      exact ⟨rfl, hnone (Or.inr rfl)⟩
    | invalid =>
      cases r with
      | replayFailed => exact hfits.elim
      | emit name payload =>
        have htext : config.textOf (.emit name payload) = none := by
          rw [EventConfig.textOf, hfits]
          rfl
        exact ⟨rfl, hnone (Or.inl htext)⟩
    | kept raw' =>
      cases r with
      | replayFailed => exact hfits.elim
      | emit name payload =>
        obtain ⟨data, hdata, hraw⟩ := hfits
        refine ⟨rfl, hends raw' ⟨name, payload, data, rfl, hdata, hraw⟩ ?_⟩
        intro hrefused
        obtain rfl : e = .circuitOpen := Except.error.inj (Option.some.inj hrefused)
        exact hfollows
    | spoilt => cases r <;> exact hfits.elim
    | replaying entries => cases entries <;> cases e <;> exact hfollows.elim
    | _ => cases e <;> exact hfollows.elim

/-- The calls have ended with the events that were accepted. -/
lemma accepted_eq (hfits : ∀ rl ∈ ls, Fits config rl.1 rl.2)
    (hts : Service.Staged (eventStages config) Ends ts ls) (hdone : ∀ t ∈ ts, t.2.Done)
    (raw : Text) : gather EventStage.pending ls = [] ∧
      (ts.countP fun t => config.textOf t.1 = some raw ∧ ¬ Refused t.2) =
        (gather EventStage.done ls).count raw := by
  induction hts with
  | nil => exact ⟨rfl, rfl⟩
  | @cons t rl ts ls ht _ ih =>
    obtain ⟨hrest, hcount⟩ := ih (fun rl' hrl => hfits rl' (mem_cons_of_mem _ hrl))
      fun t' ht' => hdone t' (mem_cons_of_mem _ ht')
    obtain ⟨hrequest, hfollows⟩ := ht
    obtain ⟨hpending, hone⟩ := done_of_follows (hfits rl mem_cons_self) hfollows
      (hdone t mem_cons_self) raw
    constructor
    · show rl.2.pending ++ gather EventStage.pending ls = []
      rw [hpending, hrest]
      rfl
    · show _ = (rl.2.done ++ gather EventStage.done ls).count raw
      rw [count_append, ← hone, ← hcount, countP_cons, hrequest, Nat.add_comm]
      simp

/-- In the runs in which every event that a replay sends again is acknowledged and then removed,
once no call is under way: an event that was passed to `emit` and was not refused by the open circuit
breaker is either delivered or kept, each time that it was passed once, and replays have removed what
they have delivered. -/
theorem delivered_or_kept
    (h : ((publisherService config).system.restrict Accounted).Reachable P) (hquiescent : Quiescent P)
    (raw : Text) : accepted config P raw = P.state.delivered.count raw + P.state.held raw ∧
      P.state.replayed.count raw = P.state.removed.count raw := by
  obtain ⟨ls, hts, hbalance⟩ := balance_of_reachable h
  obtain ⟨hpending, haccepted⟩ := accepted_eq hbalance.fits hts hquiescent raw
  have hheld := hbalance.held raw
  have hremoved := hbalance.removed raw
  rw [hpending, count_nil, Nat.add_zero] at hheld hremoved
  exact ⟨haccepted.trans hheld, hremoved⟩

end Runs

/-! Cancelled tournaments. -/

def sampleConfig : EventConfig where
  schema name payload :=
    match payload with
    | .object [("tournamentId", .string id)] =>
      if name = "tournament.cancel" then some (.object [("tournamentId", .string id)]) else none
    | _ => none
  redis := true
  name_ne {name payload data} h := by
    split at h
    · rintro rfl
      cases h
    · cases h
  object {name payload data} h := by
    split at h
    · split_ifs at h
      exact ⟨_, (Option.some.inj h).symm⟩
    · cases h
  stable {name payload data} h v hv data' h' := by
    split at h
    · rename_i id
      split_ifs at h with hname
      obtain rfl := Option.some.inj h
      obtain rfl : v = .object [("tournamentId", .string id)] := by
        rcases hv with rfl | rfl <;> rfl
      have hsame : data' = .object [("tournamentId", .string id)] := by
        simpa [hname] using h'.symm
      rw [hsame]
    · cases h

def cancelled : EventCall :=
  .emit "tournament.cancel"
    (.object [("tournamentId", .string "2f0c1a52-97a4-4d3b-8a3e-6f2f8f9b7c11")])

instance (p : EventM Unit) : Decidable (Unread p) :=
  match p with
  | .call .lrange _ | .call .fallbackEvents _ => isTrue trivial
  | .call .circuitOpen _ | .call (.send ..) _ | .call .countFailure _ | .call (.rpush _) _
  | .call .answer _ | .call (.push _) _ | .call (.lrem _) _ | .call (.splice _) _ | .ret _
  | .raise _ => isFalse id

instance (p : EventM Unit) : Decidable p.Done :=
  inferInstanceAs (Decidable (p.outcome.isSome = true))

instance (P : Pool EventCmd.Answer EventError Unit Publisher EventCall) :
    Decidable (Quiescent P) :=
  inferInstanceAs (Decidable (∀ t ∈ P.threads, t.2.Done))

instance (P : Pool EventCmd.Answer EventError Unit Publisher EventCall)
    (a : Service.Action EventCall EventCmd) : Decidable (Accounted P a) := by
  unfold Accounted
  split <;> infer_instance

instance (c : EventCmd) (s : Publisher) : Decidable ((publisherService sampleConfig).fails s c) :=
  inferInstanceAs (Decidable (c.External = true))

instance (s : Publisher) (r : EventCall) : Decidable ((publisherService sampleConfig).ready s r) :=
  isTrue trivial

lemma init_publisher : (publisherService sampleConfig).init { now := 0 } :=
  ⟨0, rfl⟩

/-- An event that is not acknowledged, and a replay. -/
def keptAndReplayed : List (Service.Move Publisher EventCall) :=
  [.start cancelled, .call 0] ++ replicate 3 (.fault 0) ++ replicate 3 (.call 0) ++
    [.start .replayFailed] ++ replicate 4 (.call 1)

theorem delivered_or_kept_keptAndReplayed : ∃ P,
    ((publisherService sampleConfig).system.restrict Accounted).Reachable P ∧
      P.state.replayed.length = 1 ∧ ∀ raw, accepted sampleConfig P raw =
        P.state.delivered.count raw + P.state.held raw ∧
        P.state.replayed.count raw = P.state.removed.count raw := by
  have hreach : ((publisherService sampleConfig).system.restrict Accounted).Reachable
      ((publisherService sampleConfig).playAll ⟨{ now := 0 }, []⟩ keptAndReplayed) :=
    Service.reachable_playAll_of_closed init_publisher (by decide +kernel)
  exact ⟨_, hreach, by decide +kernel, delivered_or_kept hreach (by decide +kernel)⟩

/-- An event that is not acknowledged. -/
def unacknowledged (i : ℕ) : List (Service.Move Publisher EventCall) :=
  [.start cancelled, .call i] ++ replicate 3 (.fault i) ++ replicate 3 (.call i)

/-- After five events that are not acknowledged the sixth is neither sent nor kept. -/
theorem refused_event_lost : ¬ ∀ config P, (publisherService config).system.Reachable P →
    Quiescent P → ∀ raw, emitted config P raw = P.state.delivered.count raw + P.state.held raw ∧
      P.state.replayed.count raw = P.state.removed.count raw := by
  intro h
  have hreach : ((publisherService sampleConfig).system.restrict fun _ _ => True).Reachable
      ((publisherService sampleConfig).playAll ⟨{ now := 0 }, []⟩
        ((range 5).flatMap unacknowledged ++ [.start cancelled, .call 5])) :=
    Service.reachable_playAll_of_closed init_publisher (by decide +kernel)
  have hcount := (h sampleConfig _ hreach.of_restrict (by decide +kernel)
    (serializeFailedEvent ⟨"tournament.cancel",
      .object [("tournamentId", .string "2f0c1a52-97a4-4d3b-8a3e-6f2f8f9b7c11")]⟩)).1
  revert hcount
  decide +kernel

end Pokerhub.Events
