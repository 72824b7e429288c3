import Pokerhub.Core.Retransmit

/-!
# Requests that are sent until they are acknowledged

`emitWithAck` of `socket-core.ts`: all the calls on one socket, whose requests and
acknowledgements may be lost, repeated and reordered on the way. Each call is a message that is sent
again until it is acknowledged or the caller has waited for the last time.
-/

namespace Pokerhub.EmitWithAck

open Retransmit TransitionSystem List

def baseDelay : ℕ := 2000

def maxDelay : ℕ := 8000

def delay (attempts : ℕ) : ℕ :=
  if baseDelay * 2 ^ attempts ≤ maxDelay then baseDelay * 2 ^ attempts else maxDelay

/-- A call of `emitWithAck`: its variables, whether the handler for `ackEvent` is on, how the
promise was settled, and when the request was emitted. -/
structure Call where
  ackEvent : String
  actionId : String
  retries : ℕ
  attempts : ℕ := 0
  timer : Option ℕ := none
  listening : Bool := false
  settled : Option Ending := none
  emitted : List ℕ := []

namespace Call

def cleanup (c : Call) : Call :=
  { c with timer := none, listening := false }

def fail (c : Call) : Call :=
  { c.cleanup with settled := some .gaveUp }

def send (now : ℕ) (c : Call) : Call :=
  { c with emitted := c.emitted ++ [now], timer := some (now + delay c.attempts) }

/-- The timer that `send` has set fires. -/
def fire (now : ℕ) (c : Call) : Call :=
  if c.attempts < c.retries then send now { c with timer := none, attempts := c.attempts + 1 }
  else fail { c with timer := none }

/-- `handler` -/
def handler (actionId : String) (c : Call) : Call :=
  if c.actionId = actionId then { c.cleanup with settled := some .acknowledged } else c

end Call

/-- The time, the calls of `emitWithAck`, and the requests the server has got, each as the event it
is acknowledged by and its id. -/
structure Page where
  now : ℕ := 0
  calls : List Call := []
  served : List (String × String) := []

namespace Page

def emitWithAck (ackEvent actionId : String) (retries : ℕ) (p : Page) : Page :=
  { p with
    calls := p.calls ++ [Call.send p.now { ackEvent, actionId, retries, listening := true }] }

/-- An acknowledgement reaches the page. -/
def receive (ackEvent actionId : String) (p : Page) : Page :=
  { p with
    calls := p.calls.map fun c =>
      if c.listening = true ∧ c.ackEvent = ackEvent then c.handler actionId else c }

inductive Event where
  | emitWithAck (ackEvent actionId : String) (retries : ℕ)
  | tick (ms : ℕ)
  | fire (i : ℕ)
  | serve (i : ℕ)
  | ack (ackEvent actionId : String)

/-- The server gets what was emitted, and acknowledges what it has got. -/
inductive Step : Page → Event → Page → Prop
  | emitWithAck {p} (ackEvent actionId : String) (retries : ℕ) :
    Step p (.emitWithAck ackEvent actionId retries) (p.emitWithAck ackEvent actionId retries)
  | tick {p} (ms : ℕ) : Step p (.tick ms) { p with now := p.now + ms }
  | fire {p : Page} {i c t} (hi : p.calls[i]? = some c) (htimer : c.timer = some t)
      (hdue : t ≤ p.now) : Step p (.fire i) { p with calls := p.calls.set i (c.fire p.now) }
  | serve {p : Page} {i c} (hi : p.calls[i]? = some c) :
    Step p (.serve i) { p with served := p.served ++ [(c.ackEvent, c.actionId)] }
  | ack {p : Page} {ackEvent actionId} (hgot : (ackEvent, actionId) ∈ p.served) :
    Step p (.ack ackEvent actionId) (p.receive ackEvent actionId)

def system : TransitionSystem Page Event where
  init p := p = {}
  step := Step

end Page

/-! ### Messages that are sent again -/

namespace Call

def policy (c : Call) : Policy where
  limit := c.retries + 1
  delay n := delay (n - 1)
  waits := true

/-- A call as a message, when the server has got `served`. -/
def message (served : List (String × String)) (c : Call) : Parcel where
  policy := c.policy
  sent := c.emitted
  timer := c.timer
  outcome := c.settled
  received := served.count (c.ackEvent, c.actionId)

/-- What ties the fields of a call together. -/
structure Tied (c : Call) : Prop where
  attempts : c.emitted.length = c.attempts + 1
  listening : c.listening = true ↔ c.settled = none

variable {served : List (String × String)} {now : ℕ} {c : Call}

lemma fire_message (h : c.Tied) : (c.fire now).message served = (c.message served).fire now := by
  unfold Call.fire Parcel.fire
  by_cases hagain : c.attempts < c.retries
  · have hlimit : (c.message served).sent.length < (c.message served).policy.limit := by
      rw [message, policy, h.attempts]
      exact Nat.succ_lt_succ hagain
    rw [if_pos hagain, if_pos hlimit, Parcel.send_of_waits (m := c.message served) rfl]
    simp [send, message, policy, h.attempts]
  · have hlimit : ¬ (c.message served).sent.length < (c.message served).policy.limit := by
      rw [message, policy, h.attempts]
      exact fun hlt => hagain (Nat.lt_of_succ_lt_succ hlt)
    rw [if_neg hagain, if_neg hlimit]
    rfl

lemma Tied.fire (h : c.Tied) : (c.fire now).Tied := by
  unfold Call.fire
  split_ifs
  · refine ⟨?_, h.listening⟩
    rw [send, length_append, length_singleton, h.attempts]
  · exact ⟨h.attempts, by simp [fail, cleanup]⟩

end Call

/-! ### Every run is one of the messages -/

namespace Page

/-- The calls of a page as messages. -/
def traffic (p : Page) : Traffic where
  now := p.now
  messages := p.calls.map (Call.message p.served)

/-- The calls are messages of some run, and their fields are tied together. -/
structure Mirrored (p : Page) : Prop where
  reachable : Retransmit.system.Reachable p.traffic
  tied : ∀ c ∈ p.calls, c.Tied

/-- Every step is some steps of the messages. -/
lemma Mirrored.moves {p p' : Page} {e : Event} (h : Mirrored p) (hstep : Step p e p') :
    Relation.ReflTransGen Retransmit.system.Moves p.traffic p'.traffic ∧
      ∀ c ∈ p'.calls, c.Tied := by
  obtain ⟨hreach, htied⟩ := h
  cases hstep with
  | emitWithAck ackEvent actionId retries =>
    refine ⟨?_, fun c hc => ?_⟩
    · -- the request is sent, and the server may have got its id before
      have hstart : Relation.ReflTransGen Retransmit.system.Moves p.traffic
          ⟨p.now, p.traffic.messages ++ [Parcel.send p.now
            { policy := Call.policy { ackEvent, actionId, retries } }]⟩ :=
        .single ⟨_, .start _⟩
      have hreceived := receive_many p.now p.traffic.messages (Parcel.send p.now
        { policy := Call.policy { ackEvent, actionId, retries } })
        (p.served.count (ackEvent, actionId))
      have hsend : Call.message p.served
            (Call.send p.now { ackEvent, actionId, retries, listening := true }) =
          { Parcel.send p.now { policy := Call.policy { ackEvent, actionId, retries } } with
            received := (Parcel.send p.now
              { policy := Call.policy { ackEvent, actionId, retries } }).received +
                p.served.count (ackEvent, actionId) } := by
        rw [Parcel.send_of_waits rfl]
        simp [Call.message, Call.send, Call.policy]
      refine hstart.trans ?_
      unfold traffic Page.emitWithAck
      rw [map_append, map_singleton, hsend]
      exact hreceived
    · rcases mem_append.mp hc with hold | hnew
      · exact htied c hold
      · rw [mem_singleton.mp hnew]
        exact ⟨rfl, by simp [Call.send]⟩
  | tick ms => exact ⟨.single ⟨_, .tick ms⟩, htied⟩
  | fire hi htimer hdue =>
    rename_i i c t
    have hmem := mem_of_getElem? hi
    refine ⟨?_, fun c' hc' => ?_⟩
    · unfold traffic
      rw [map_set, Call.fire_message (htied c hmem)]
      exact .single ⟨_, .step (by rw [getElem?_map, hi]; rfl) (.fire htimer hdue)⟩
    · rcases mem_or_eq_of_mem_set hc' with hold | rfl
      · exact htied c' hold
      · exact (htied c hmem).fire
  | serve hi =>
    rename_i i c
    refine ⟨moves_forall₂ ?_, htied⟩
    rw [forall₂_map_left_iff, forall₂_map_right_iff, forall₂_same]
    intro c' hc'
    by_cases hsame : (c.ackEvent, c.actionId) = (c'.ackEvent, c'.actionId)
    · right
      rw [hsame]
      have hreceive : Parcel.Step p.now (c'.message p.served) _ := .receive
      simpa [Call.message] using hreceive
    · left
      simp [Call.message, count_append, hsame]
  | ack hgot =>
    rename_i ackEvent actionId
    refine ⟨moves_forall₂ ?_, fun c' hc' => ?_⟩
    · rw [Page.receive, map_map, forall₂_map_left_iff, forall₂_map_right_iff, forall₂_same]
      intro c hc
      dsimp only [Function.comp_apply]
      unfold Call.handler
      split_ifs with hon hid
      · right
        obtain ⟨hlistening, rfl⟩ := hon
        subst hid
        have hnone : (c.message p.served).outcome = none := (htied c hc).listening.mp hlistening
        have hstep : Parcel.Step p.now (c.message p.served)
            ((c.message p.served).settle .acknowledged) := .acknowledge (count_pos_iff.mpr hgot)
        rw [Parcel.settle, if_pos hnone] at hstep
        exact hstep
      · exact Or.inl rfl
      · exact Or.inl rfl
    · obtain ⟨c, hc, rfl⟩ := mem_map.mp hc'
      unfold Call.handler
      split_ifs
      · exact ⟨(htied c hc).attempts, by simp [Call.cleanup]⟩
      · exact htied c hc
      · exact htied c hc

lemma Mirrored.step {p p' : Page} {e : Event} (h : Mirrored p) (hstep : Step p e p') :
    Mirrored p' := by
  obtain ⟨hmoves, htied⟩ := h.moves hstep
  obtain ⟨w, hw, hrun⟩ := h.reachable
  exact ⟨⟨w, hw, hrun.trans hmoves⟩, htied⟩

lemma mirrored_of_reachable {p : Page} (h : system.Reachable p) : Mirrored p := by
  refine h.invariant (T := system) (I := Mirrored) ?_ fun p e p' => Mirrored.step
  rintro p rfl
  exact ⟨.of_init rfl, fun c hc => absurd hc not_mem_nil⟩

/-- In every run of a page, over a channel that may lose, repeat and reorder, a call emits its
request `retries + 1` times at most, with the waits of `delay` between them. While its promise is
open, its timer is set and its handler is on, and afterwards neither; it is resolved only when the
server has got a request with its id, and rejected only when the request was emitted `retries + 1`
times and the last wait is over too. -/
theorem call_settles {p : Page} (h : system.Reachable p) {i : ℕ} {c : Call}
    (hi : p.calls[i]? = some c) :
    1 ≤ c.emitted.length ∧ c.emitted.length ≤ c.retries + 1 ∧
      (∀ k t t', c.emitted[k]? = some t → c.emitted[k + 1]? = some t' → t + delay k ≤ t') ∧
      (c.settled = none ↔ c.timer ≠ none) ∧ (c.settled = none ↔ c.listening = true) ∧
      (c.settled = some .acknowledged → (c.ackEvent, c.actionId) ∈ p.served) ∧
      (c.settled = some .gaveUp → c.emitted.length = c.retries + 1 ∧
        ∀ first ∈ c.emitted[0]?, first + ((range (c.retries + 1)).map delay).sum ≤ p.now) := by
  obtain ⟨hreach, htied⟩ := mirrored_of_reachable h
  have hmem := mem_of_getElem? hi
  have htie := htied c hmem
  have hsound : (c.message p.served).Sound p.now :=
    sound_of_reachable hreach _ (mem_map_of_mem hmem)
  have hle : c.emitted.length ≤ c.retries + 1 := by
    rcases hsound.sent_le with hone | hlimit
    · exact Nat.le_trans hone (Nat.le_add_left _ _)
    · exact hlimit
  refine ⟨length_pos_iff.mpr hsound.sent_ne, hle, hsound.spaced, ?_, htie.listening.symm,
    fun hack => count_pos_iff.mp (hsound.acknowledged hack), fun hgave => ?_⟩
  · have htimer : c.timer.isSome = c.settled.isNone := hsound.timer
    rw [← Option.isNone_iff_eq_none, ← Option.isSome_iff_ne_none, htimer]
  · obtain ⟨hlimit, hwaited⟩ := hsound.gaveUp hgave
    have hlength : c.emitted.length = c.retries + 1 := Nat.le_antisymm hle hlimit
    refine ⟨hlength, fun first hfirst => ?_⟩
    -- the waits before the last time, and then the last one
    obtain ⟨last, hlast⟩ : ∃ last, c.emitted[c.retries]? = some last :=
      ⟨_, getElem?_eq_getElem (hlength ▸ Nat.lt_succ_self _)⟩
    have hsum : first + ((range c.retries).map delay).sum ≤ last :=
      hsound.spaced.sum_le hfirst hlast
    have hend : last + delay (c.emitted.length - 1) ≤ p.now := by
      refine hwaited rfl last ?_
      rw [Option.mem_def, getLast?_eq_getElem?]
      change c.emitted[c.emitted.length - 1]? = some last
      rwa [hlength]
    rw [hlength, Nat.add_sub_cancel] at hend
    rw [range_succ, map_append, sum_append, map_singleton, sum_singleton, ← Nat.add_assoc]
    exact Nat.le_trans (Nat.add_le_add_right hsum _) hend

/-- A page that has called `emitWithAck` once. -/
def asked : Page :=
  ({} : Page).emitWithAck "join:ack" "a" 1

lemma reachable_asked : system.Reachable asked :=
  (Reachable.of_init rfl).tail (.emitWithAck (p := {}) "join:ack" "a" 1)

/-- Its promise is open, and its timer is set. -/
theorem call_settles_asked : ∃ c, asked.calls[0]? = some c ∧ c.settled = none ∧ c.timer ≠ none := by
  refine ⟨_, rfl, rfl, ?_⟩
  exact (call_settles (i := 0) reachable_asked rfl).2.2.2.1.mp rfl

/-- A call whose promise is settled stays as it is, and emits nothing any more. -/
theorem call_settled_forever {p p' : Page} (h : system.Reachable p)
    (hrun : Relation.ReflTransGen system.Moves p p') {i : ℕ} {c : Call}
    (hi : p.calls[i]? = some c) (hsettled : c.settled ≠ none) :
    ∃ c', p'.calls[i]? = some c' ∧ c'.settled = c.settled ∧ c'.emitted = c.emitted := by
  have hmoves : Mirrored p' ∧
      Relation.ReflTransGen Retransmit.system.Moves p.traffic p'.traffic := by
    refine TransitionSystem.invariant_of_moves (T := system) (I := fun p' => Mirrored p' ∧
      Relation.ReflTransGen Retransmit.system.Moves p.traffic p'.traffic) ?_ hrun
      ⟨mirrored_of_reachable h, .refl⟩
    rintro v e v' ⟨hv, hmoves⟩ hstep
    exact ⟨hv.step hstep, hmoves.trans (hv.moves hstep).1⟩
  have hget : p.traffic.messages[i]? = some (c.message p.served) := by
    rw [traffic, getElem?_map, hi]
    rfl
  obtain ⟨m', hm', hout, hsent⟩ :=
    settled_forever (mirrored_of_reachable h).reachable hmoves.2 hget hsettled
  rw [traffic, getElem?_map, Option.map_eq_some_iff] at hm'
  obtain ⟨c', hi', rfl⟩ := hm'
  exact ⟨c', hi', hout, hsent⟩

/-- The server has got the request, and its acknowledgement has come back. -/
def resolved : Page :=
  { asked with served := [("join:ack", "a")] }.receive "join:ack" "a"

lemma reachable_resolved : system.Reachable resolved :=
  (reachable_asked.tail (.serve (i := 0) rfl)).tail
    (Step.ack (p := { asked with served := [("join:ack", "a")] }) (by simp))

/-- A minute later the request was emitted once. -/
theorem call_settled_forever_resolved :
    ∃ c, ({ resolved with now := 60000 } : Page).calls[0]? = some c ∧
      c.settled = some .acknowledged ∧ c.emitted = [0] :=
  call_settled_forever (i := 0) reachable_resolved
    (.single ⟨.tick 60000, .tick (p := resolved) 60000⟩) rfl (by decide)

end Page

end Pokerhub.EmitWithAck
