import Pokerhub.Core.Retransmit

/-!
# Frames that are sent until they are acknowledged

`trackFrame`, `handleFrameAck` and the part of `handleDisconnect` about frames of
`game.gateway.ts`, for the entries of `frameAcks` under one socket id, and the handler of
`socket-core.ts` that acknowledges every frame it sees. Each tracked frame is a message that is sent
again until it is acknowledged (`traffic_of_reachable`).
-/

namespace Pokerhub.FrameAcks

open Retransmit TransitionSystem List

def maxFrameAttempts : ℕ := 5

/-- A frame that `trackFrame` was called with: the map its closure holds, whether that map has its
id, its `FrameInfo`, when it was emitted, and how often the client has seen it. -/
structure Frame where
  frames : ℕ
  has : Bool := true
  attempt : ℕ := 1
  timeout : Option ℕ := none
  emitted : List ℕ
  received : ℕ := 0
  /-- Why the frame is not sent any more. -/
  ended : Option Ending := none

/-- `retry` -/
def Frame.retry (now : ℕ) (frame : Frame) : Frame :=
  if frame.has = false then frame
  else if frame.attempt ≥ maxFrameAttempts then
    { frame with has := false, ended := some .gaveUp }
  else { frame with timeout := some (now + 2 ^ frame.attempt * 100) }

/-- The timer that `retry` has set fires. -/
def Frame.fire (now : ℕ) (frame : Frame) : Frame :=
  if frame.has = false then { frame with timeout := none }
  else
    Frame.retry now
      { frame with
        timeout := none
        emitted := frame.emitted ++ [now]
        attempt := frame.attempt + 1 }

/-- The time, the map that `frameAcks` has under the socket id, the number of maps that were made
for it, and all the frames that were tracked. -/
structure Socket where
  now : ℕ := 0
  frameAcks : Option ℕ := none
  maps : ℕ := 0
  frames : List Frame := []

namespace Socket

/-- A frame was emitted and is tracked. -/
def trackFrame (s : Socket) : Socket :=
  match s.frameAcks with
  | some m =>
    { s with frames := s.frames ++ [Frame.retry s.now { frames := m, emitted := [s.now] }] }
  | none =>
    { s with
      frameAcks := some s.maps
      maps := s.maps + 1
      frames := s.frames ++ [Frame.retry s.now { frames := s.maps, emitted := [s.now] }] }

/-- The map under the socket id has the frame. -/
def holds (s : Socket) (frame : Frame) : Bool :=
  s.frameAcks == some frame.frames && frame.has

def handleFrameAck (i : ℕ) (s : Socket) : Socket :=
  match s.frames[i]? with
  | none => s
  | some frame =>
    if s.holds frame then
      { s with
        frames := s.frames.set i
          { frame with timeout := none, has := false, ended := some .acknowledged } }
    else s

def handleDisconnect (s : Socket) : Socket :=
  { s with
    frames := s.frames.map fun frame =>
      if s.holds frame then { frame with timeout := none, ended := some .abandoned } else frame
    frameAcks := none }

inductive Event where
  | track
  | tick (ms : ℕ)
  | fire (i : ℕ)
  | receive (i : ℕ)
  | ack (i : ℕ)
  | disconnect

/-- A timer fires when it is due, and only a frame that the client has seen is acknowledged. -/
inductive Step : Socket → Event → Socket → Prop
  | track {s} : Step s .track s.trackFrame
  | tick {s} (ms : ℕ) : Step s (.tick ms) { s with now := s.now + ms }
  | fire {s i frame t} (hi : s.frames[i]? = some frame) (htimer : frame.timeout = some t)
      (hdue : t ≤ s.now) :
    Step s (.fire i) { s with frames := s.frames.set i (frame.fire s.now) }
  | receive {s i frame} (hi : s.frames[i]? = some frame) :
    Step s (.receive i)
      { s with frames := s.frames.set i { frame with received := frame.received + 1 } }
  | ack {s i frame} (hi : s.frames[i]? = some frame) (hseen : 0 < frame.received) :
    Step s (.ack i) (s.handleFrameAck i)
  | disconnect {s} : Step s .disconnect s.handleDisconnect

def system : TransitionSystem Socket Event where
  init s := s = {}
  step := Step

end Socket

/-! ### Messages that are sent again -/

def framePolicy : Policy where
  limit := maxFrameAttempts
  delay n := 2 ^ n * 100
  waits := false

def Frame.message (frame : Frame) : Parcel where
  policy := framePolicy
  sent := frame.emitted
  timer := frame.timeout
  outcome := frame.ended
  received := frame.received

/-- What ties the fields of a frame together, when `current` is the map under the socket id and
`maps` maps were made. -/
structure Frame.Tied (current : Option ℕ) (maps : ℕ) (frame : Frame) : Prop where
  attempt : frame.attempt = frame.emitted.length
  has : frame.has = true ↔ frame.ended = none ∨ frame.ended = some .abandoned
  again : frame.timeout ≠ none → frame.attempt < maxFrameAttempts
  abandoned : frame.ended = some .abandoned → current ≠ some frame.frames
  present : frame.ended = none → current = some frame.frames
  frames_lt : frame.frames < maps

section Steps

variable {current : Option ℕ} {maps now : ℕ} {frame : Frame}

lemma retry_message (hhas : frame.has = true) (hattempt : frame.attempt = frame.emitted.length)
    (htimeout : frame.timeout = none) : (frame.retry now).message = frame.message.arm now := by
  unfold Frame.retry Parcel.arm
  rw [if_neg (by simp [hhas])]
  by_cases hlimit : frame.attempt < maxFrameAttempts
  · have hagain : frame.message.sent.length < frame.message.policy.limit := by
      rw [hattempt] at hlimit
      exact hlimit
    rw [if_neg (Nat.not_le.mpr hlimit), if_pos (Or.inl hagain)]
    simp [Frame.message, framePolicy, hattempt]
  · have hstop : ¬ (frame.message.sent.length < frame.message.policy.limit ∨
        frame.message.policy.waits = true) := by
      rw [hattempt] at hlimit
      exact not_or.mpr ⟨hlimit, by simp [Frame.message, framePolicy]⟩
    rw [if_pos (Nat.not_lt.mp hlimit), if_neg hstop]
    simp [Frame.message, htimeout]

lemma tied_retry (h : frame.Tied current maps) (hopen : frame.ended = none)
    (htimeout : frame.timeout = none) : (frame.retry now).Tied current maps := by
  have hhas : frame.has = true := h.has.mpr (Or.inl hopen)
  unfold Frame.retry
  rw [if_neg (by simp [hhas])]
  split_ifs with hlimit
  · refine ⟨h.attempt, by simp, fun hsome => absurd htimeout hsome, by simp, by simp, h.frames_lt⟩
  · exact ⟨h.attempt, h.has, fun _ => Nat.not_le.mp hlimit, h.abandoned, h.present, h.frames_lt⟩

lemma fire_message (h : frame.Tied current maps) (hopen : frame.ended = none)
    (htimer : frame.timeout ≠ none) : (frame.fire now).message = frame.message.fire now := by
  have hhas : frame.has = true := h.has.mpr (Or.inl hopen)
  have hagain : frame.message.sent.length < frame.message.policy.limit := by
    have hlt := h.again htimer
    rw [h.attempt] at hlt
    exact hlt
  unfold Frame.fire Parcel.fire
  rw [if_neg (by simp [hhas]), if_pos hagain]
  have hretry : (Frame.retry now
      { frame with
        timeout := none
        emitted := frame.emitted ++ [now]
        attempt := frame.attempt + 1 }).message =
      Parcel.arm now
        (Frame.message
          { frame with
            timeout := none
            emitted := frame.emitted ++ [now]
            attempt := frame.attempt + 1 }) :=
    retry_message hhas (by rw [length_append, length_singleton, h.attempt]) rfl
  rw [hretry]
  unfold Parcel.send Parcel.arm
  rfl

lemma tied_fire (h : frame.Tied current maps) (hopen : frame.ended = none) :
    (frame.fire now).Tied current maps := by
  have hhas : frame.has = true := h.has.mpr (Or.inl hopen)
  unfold Frame.fire
  rw [if_neg (by simp [hhas])]
  refine tied_retry ⟨?_, h.has, fun hne => absurd rfl hne, h.abandoned, h.present, h.frames_lt⟩
    hopen rfl
  rw [length_append, length_singleton, h.attempt]

/-- A frame that the map under the socket id has is open. -/
lemma Socket.holds_open {s : Socket} (h : frame.Tied s.frameAcks maps) (hholds : s.holds frame) :
    frame.ended = none := by
  obtain ⟨hcurrent, hhas⟩ := Bool.and_eq_true_iff.mp hholds
  rcases h.has.mp hhas with hopen | habandoned
  · exact hopen
  · exact absurd (by simpa using hcurrent) (h.abandoned habandoned)

end Steps

/-! ### Every run is one of the messages -/

namespace Socket

/-- The frames of a socket as messages. -/
def traffic (s : Socket) : Traffic where
  now := s.now
  messages := s.frames.map Frame.message

/-- The frames are messages of some run, and their fields are tied together. -/
structure Mirrored (s : Socket) : Prop where
  reachable : Retransmit.system.Reachable s.traffic
  maps : ∀ m ∈ s.frameAcks, m < s.maps
  tied : ∀ frame ∈ s.frames, frame.Tied s.frameAcks s.maps

/-- Every step is some steps of the messages. -/
lemma Mirrored.moves {s s' : Socket} {e : Event} (h : Mirrored s) (hstep : Step s e s') :
    Relation.ReflTransGen Retransmit.system.Moves s.traffic s'.traffic ∧
      (∀ m ∈ s'.frameAcks, m < s'.maps) ∧ ∀ frame ∈ s'.frames, frame.Tied s'.frameAcks s'.maps := by
  obtain ⟨hreach, hmaps, htied⟩ := h
  have hsound : ∀ frame ∈ s.frames, frame.message.Sound s.now := fun frame hframe =>
    sound_of_reachable hreach _ (mem_map_of_mem hframe)
  have hset : ∀ {i : ℕ} {frame frame' : Frame}, s.frames[i]? = some frame →
      Parcel.Step s.now frame.message frame'.message →
      Relation.ReflTransGen Retransmit.system.Moves s.traffic
        ⟨s.now, (s.frames.set i frame').map Frame.message⟩ := by
    intro i frame frame' hi hmessage
    rw [map_set]
    exact .single ⟨_, .step (by rw [traffic, getElem?_map, hi]; rfl) hmessage⟩
  cases hstep with
  | track =>
    have hfresh : ∀ m, (Frame.retry s.now { frames := m, emitted := [s.now] }).message =
        Parcel.send s.now { policy := framePolicy } := fun m => retry_message rfl rfl rfl
    have htrack : Retransmit.system.Moves s.traffic
        ⟨s.now, s.traffic.messages ++ [Parcel.send s.now { policy := framePolicy }]⟩ :=
      ⟨_, .start framePolicy⟩
    unfold trackFrame
    cases hcurrent : s.frameAcks with
    | some m =>
      dsimp only
      refine ⟨?_, fun m' hm' => hmaps m' (hcurrent ▸ hm'), fun frame hframe => ?_⟩
      · unfold traffic
        rw [map_append, map_singleton, hfresh]
        exact .single htrack
      · rcases mem_append.mp hframe with hold | hnew
        · exact hcurrent ▸ htied frame hold
        · rw [mem_singleton.mp hnew]
          exact tied_retry ⟨rfl, by simp, by simp, by simp, fun _ => rfl, hmaps m hcurrent⟩ rfl rfl
    | none =>
      dsimp only
      refine ⟨?_, fun m' hm' => ?_, fun frame hframe => ?_⟩
      · unfold traffic
        rw [map_append, map_singleton, hfresh]
        exact .single htrack
      · rw [← Option.some.inj hm']
        exact Nat.lt_succ_self _
      · rcases mem_append.mp hframe with hold | hnew
        · obtain ⟨h₁, h₂, h₃, h₄, h₅, h₆⟩ := htied frame hold
          refine ⟨h₁, h₂, h₃, fun _ heq => ?_, fun hopen => ?_, Nat.lt_succ_of_lt h₆⟩
          · exact absurd (Option.some.inj heq) (Nat.ne_of_gt h₆)
          · exact absurd ((h₅ hopen).symm.trans hcurrent) (Option.some_ne_none _)
        · rw [mem_singleton.mp hnew]
          exact tied_retry ⟨rfl, by simp, by simp, by simp, fun _ => rfl, Nat.lt_succ_self _⟩
            rfl rfl
  | tick ms => exact ⟨.single ⟨_, .tick ms⟩, hmaps, htied⟩
  | fire hi htimer hdue =>
    rename_i i frame t
    have hframe := mem_of_getElem? hi
    have hopen : frame.ended = none := (hsound frame hframe).open htimer
    have hne : frame.timeout ≠ none := by rw [htimer]; exact Option.some_ne_none t
    have hmessage : (frame.fire s.now).message = frame.message.fire s.now :=
      fire_message (htied frame hframe) hopen hne
    refine ⟨hset hi (hmessage ▸ .fire htimer hdue), hmaps, fun frame' hframe' => ?_⟩
    rcases mem_or_eq_of_mem_set hframe' with hold | rfl
    · exact htied frame' hold
    · exact tied_fire (htied frame hframe) hopen
  | receive hi =>
    rename_i i frame
    refine ⟨hset hi .receive, hmaps, fun frame' hframe' => ?_⟩
    rcases mem_or_eq_of_mem_set hframe' with hold | rfl
    · exact htied frame' hold
    · obtain ⟨h₁, h₂, h₃, h₄, h₅, h₆⟩ := htied frame (mem_of_getElem? hi)
      exact ⟨h₁, h₂, h₃, h₄, h₅, h₆⟩
  | ack hi hseen =>
    rename_i i frame
    simp only [handleFrameAck, hi]
    split_ifs with hholds
    · have hframe := htied frame (mem_of_getElem? hi)
      have hopen := holds_open hframe hholds
      have hmessage : Parcel.Step s.now frame.message (Frame.message
          { frame with timeout := none, has := false, ended := some .acknowledged }) := by
        have hstep : Parcel.Step s.now frame.message (frame.message.settle .acknowledged) :=
          .acknowledge hseen
        have hnone : frame.message.outcome = none := hopen
        rw [Parcel.settle, if_pos hnone] at hstep
        exact hstep
      refine ⟨hset hi hmessage, hmaps, fun frame' hframe' => ?_⟩
      rcases mem_or_eq_of_mem_set hframe' with hold | rfl
      · exact htied frame' hold
      · exact ⟨hframe.attempt, by simp, fun hne => absurd rfl hne, by simp, by simp,
          hframe.frames_lt⟩
    · exact ⟨.refl, hmaps, htied⟩
  | disconnect =>
    have hforall : Forall₂ (fun m m' => m' = m ∨ Parcel.Step s.now m m')
        (s.frames.map Frame.message) (s.handleDisconnect.frames.map Frame.message) := by
      rw [handleDisconnect, map_map, forall₂_map_left_iff, forall₂_map_right_iff, forall₂_same]
      intro frame hframe
      dsimp only [Function.comp_apply]
      split_ifs with hholds
      · right
        have hstep : Parcel.Step s.now frame.message (frame.message.settle .abandoned) := .abandon
        have hnone : frame.message.outcome = none := holds_open (htied frame hframe) hholds
        rw [Parcel.settle, if_pos hnone] at hstep
        exact hstep
      · exact Or.inl rfl
    refine ⟨moves_forall₂ hforall, fun m hm => ?_, fun frame' hframe' => ?_⟩
    · exact absurd hm (Option.not_mem_none m)
    · obtain ⟨frame, hframe, rfl⟩ := mem_map.mp hframe'
      have htie := htied frame hframe
      split_ifs with hholds
      · have hhas := (Bool.and_eq_true_iff.mp hholds).2
        exact ⟨htie.attempt, by simp [hhas], fun hne => absurd rfl hne,
          fun _ => (Option.some_ne_none _).symm, by simp, htie.frames_lt⟩
      · refine ⟨htie.attempt, htie.has, htie.again, fun _ => (Option.some_ne_none _).symm,
          fun hopen => ?_, htie.frames_lt⟩
        refine absurd ?_ hholds
        rw [holds, htie.present hopen, htie.has.mpr (Or.inl hopen)]
        simp

lemma Mirrored.step {s s' : Socket} {e : Event} (h : Mirrored s) (hstep : Step s e s') :
    Mirrored s' := by
  obtain ⟨hmoves, hmaps, htied⟩ := h.moves hstep
  obtain ⟨w, hw, hrun⟩ := h.reachable
  exact ⟨⟨w, hw, hrun.trans hmoves⟩, hmaps, htied⟩

/-- Every run of a socket is a run of its frames as messages that are sent again. -/
lemma mirrored_of_reachable {s : Socket} (h : system.Reachable s) : Mirrored s := by
  refine h.invariant (T := system) (I := Mirrored) ?_ fun s e s' => Mirrored.step
  rintro s rfl
  exact ⟨.of_init rfl, fun m hm => absurd hm (Option.not_mem_none m),
    fun frame hframe => absurd hframe not_mem_nil⟩

/-- In every run, over a channel that may lose, repeat and reorder, a frame is emitted five times
at most, with waits of 200, 400, 800 and 1600 milliseconds at least. It is open exactly as long as
its timer is set and the gateway knows it; it is closed as acknowledged only when the client has
seen it, and as dropped only after the fifth time. -/
theorem frame_delivery {s : Socket} (h : system.Reachable s) {i : ℕ} {frame : Frame}
    (hi : s.frames[i]? = some frame) :
    1 ≤ frame.emitted.length ∧ frame.emitted.length ≤ maxFrameAttempts ∧
      (∀ k t t', frame.emitted[k]? = some t → frame.emitted[k + 1]? = some t' →
        t + 2 ^ (k + 1) * 100 ≤ t') ∧
      (frame.ended = none ↔ frame.timeout ≠ none) ∧ (frame.ended = none ↔ s.holds frame = true) ∧
      (frame.ended = some .acknowledged → 0 < frame.received) ∧
      (frame.ended = some .gaveUp → frame.emitted.length = maxFrameAttempts) := by
  obtain ⟨hreach, -, htied⟩ := mirrored_of_reachable h
  have hframe := mem_of_getElem? hi
  have htie := htied frame hframe
  have hsound : frame.message.Sound s.now := sound_of_reachable hreach _ (mem_map_of_mem hframe)
  have hle : frame.emitted.length ≤ maxFrameAttempts := by
    rcases hsound.sent_le with hone | hlimit
    · exact Nat.le_trans hone (by decide)
    · exact hlimit
  refine ⟨length_pos_iff.mpr hsound.sent_ne, hle, hsound.spaced, ?_,
    ⟨fun hopen => ?_, fun hholds => ?_⟩, hsound.acknowledged, fun hgave => ?_⟩
  · have htimer : frame.timeout.isSome = frame.ended.isNone := hsound.timer
    rw [← Option.isNone_iff_eq_none, ← Option.isSome_iff_ne_none, htimer]
  · rw [holds, htie.present hopen, htie.has.mpr (Or.inl hopen)]
    simp
  · exact holds_open htie hholds
  · exact Nat.le_antisymm hle (hsound.gaveUp hgave).1

lemma reachable_tracked : system.Reachable ({} : Socket).trackFrame :=
  (Reachable.of_init rfl).tail (.track (s := {}))

/-- The gateway knows a frame that was just tracked. -/
theorem frame_delivery_tracked :
    ({} : Socket).trackFrame.holds (Frame.retry 0 { frames := 0, emitted := [0] }) = true :=
  (frame_delivery (i := 0) reachable_tracked rfl).2.2.2.2.1.mp rfl

/-- A frame that was acknowledged, dropped, or abandoned because the client left, is never emitted
again, whatever happens later. -/
theorem frame_ended_forever {s s' : Socket} (h : system.Reachable s)
    (hrun : Relation.ReflTransGen system.Moves s s') {i : ℕ} {frame : Frame}
    (hi : s.frames[i]? = some frame) (hended : frame.ended ≠ none) :
    ∃ frame', s'.frames[i]? = some frame' ∧ frame'.ended = frame.ended ∧
      frame'.emitted = frame.emitted := by
  have hmoves : Mirrored s' ∧
      Relation.ReflTransGen Retransmit.system.Moves s.traffic s'.traffic := by
    refine TransitionSystem.invariant_of_moves (T := system) (I := fun s' => Mirrored s' ∧
      Relation.ReflTransGen Retransmit.system.Moves s.traffic s'.traffic) ?_ hrun
      ⟨mirrored_of_reachable h, .refl⟩
    rintro v e v' ⟨hv, hmoves⟩ hstep
    exact ⟨hv.step hstep, hmoves.trans (hv.moves hstep).1⟩
  have hget : s.traffic.messages[i]? = some frame.message := by
    rw [traffic, getElem?_map, hi]
    rfl
  obtain ⟨m', hm', hout, hsent⟩ :=
    settled_forever (mirrored_of_reachable h).reachable hmoves.2 hget hended
  rw [traffic, getElem?_map, Option.map_eq_some_iff] at hm'
  obtain ⟨frame', hi', rfl⟩ := hm'
  exact ⟨frame', hi', hout, hsent⟩

/-- A frame that the client has seen and acknowledged. -/
def acknowledged : Socket :=
  { ({} : Socket).trackFrame with
    frames := [{ Frame.retry 0 { frames := 0, emitted := [0] } with received := 1 }]
  }.handleFrameAck 0

lemma reachable_acknowledged : system.Reachable acknowledged :=
  (reachable_tracked.tail (.receive (i := 0) rfl)).tail (.ack (i := 0) rfl (by decide))

/-- A second later it was emitted once. -/
theorem frame_ended_forever_acknowledged :
    ∃ frame', ({ acknowledged with now := 1000 } : Socket).frames[0]? = some frame' ∧
      frame'.ended = some .acknowledged ∧ frame'.emitted = [0] :=
  frame_ended_forever (i := 0) reachable_acknowledged
    (.single ⟨.tick 1000, .tick (s := acknowledged) 1000⟩) rfl (by decide)

end Socket

end Pokerhub.FrameAcks
