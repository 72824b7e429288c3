import Mathlib.Algebra.GroupWithZero.Nat
import Mathlib.Data.List.Forall2
import Pokerhub.Core.Transition

/-!
# Retransmission

A sender that sends a message, waits, and sends it again until the message is acknowledged, the
sender gives up, or the message is abandoned. The channel may lose, repeat and reorder: whatever was
sent may be received any number of times, and whatever was received may be acknowledged any number
of times. What holds of a message is preserved by every step (`Sound.step`), so it holds in every
state of every run.
-/

namespace Retransmit

open List

/-- When a message is sent again: it is sent `limit` times at most, with a wait of `delay n` after
it was sent the `n`th time; `waits` tells whether there is a wait after the last time. -/
structure Policy where
  limit : ℕ
  delay : ℕ → ℕ
  waits : Bool

inductive Ending where
  | acknowledged
  | gaveUp
  | abandoned
  deriving DecidableEq, Repr

/-- A message: when it was sent, when it is to be sent again, and how often it was received. -/
structure Parcel where
  policy : Policy
  sent : List ℕ := []
  timer : Option ℕ := none
  outcome : Option Ending := none
  received : ℕ := 0

namespace Parcel

/-- What follows a send. -/
def arm (now : ℕ) (m : Parcel) : Parcel :=
  if m.sent.length < m.policy.limit ∨ m.policy.waits = true then
    { m with timer := some (now + m.policy.delay m.sent.length) }
  else { m with timer := none, outcome := some .gaveUp }

def send (now : ℕ) (m : Parcel) : Parcel :=
  arm now { m with sent := m.sent ++ [now] }

/-- The timer of a message fires. -/
def fire (now : ℕ) (m : Parcel) : Parcel :=
  if m.sent.length < m.policy.limit then m.send now
  else { m with timer := none, outcome := some .gaveUp }

/-- The message has an outcome, unless it had one. -/
def settle (o : Ending) (m : Parcel) : Parcel :=
  if m.outcome = none then { m with timer := none, outcome := some o } else m

/-- The steps of one message at the time `now`. -/
inductive Step (now : ℕ) : Parcel → Parcel → Prop
  | fire {m t} (htimer : m.timer = some t) (hdue : t ≤ now) : Step now m (m.fire now)
  | receive {m} : Step now m { m with received := m.received + 1 }
  | acknowledge {m} (h : 0 < m.received) : Step now m (m.settle .acknowledged)
  | abandon {m} : Step now m (m.settle .abandoned)

/-- The waits between the sends were as long as the policy says. -/
def Spaced (p : Policy) (sent : List ℕ) : Prop :=
  ∀ k t t', sent[k]? = some t → sent[k + 1]? = some t' → t + p.delay (k + 1) ≤ t'

/-- The wait after the last send. -/
def Waited (p : Policy) (sent : List ℕ) (now : ℕ) : Prop :=
  ∀ t ∈ sent.getLast?, t + p.delay sent.length ≤ now

/-- What holds of a message at any time. -/
structure Sound (now : ℕ) (m : Parcel) : Prop where
  sent_ne : m.sent ≠ []
  sent_le : m.sent.length ≤ 1 ∨ m.sent.length ≤ m.policy.limit
  past : ∀ t ∈ m.sent, t ≤ now
  spaced : Spaced m.policy m.sent
  /-- A message without outcome has a timer, and no other has. -/
  timer : m.timer.isSome = m.outcome.isNone
  due : ∀ t ∈ m.timer, ∃ last ∈ m.sent.getLast?, t = last + m.policy.delay m.sent.length
  acknowledged : m.outcome = some .acknowledged → 0 < m.received
  gaveUp : m.outcome = some .gaveUp →
    m.policy.limit ≤ m.sent.length ∧ (m.policy.waits = true → Waited m.policy m.sent now)

/-- The waits up to the `k`th send are not shorter than those of the policy together. -/
lemma Spaced.sum_le {p : Policy} {sent : List ℕ} (h : Spaced p sent) {k first t : ℕ}
    (hfirst : sent[0]? = some first) (hk : sent[k]? = some t) :
    first + ((range k).map fun j => p.delay (j + 1)).sum ≤ t := by
  induction k generalizing t with
  | zero => exact Nat.le_of_eq (Option.some.inj (hfirst.symm.trans hk))
  | succ k ih =>
    obtain ⟨hlt, -⟩ := List.getElem?_eq_some_iff.mp hk
    obtain ⟨prev, hprev⟩ : ∃ prev, sent[k]? = some prev :=
      ⟨_, getElem?_eq_getElem (Nat.lt_of_succ_lt hlt)⟩
    have hsum := ih hprev
    have hgap := h k _ t hprev hk
    rw [range_succ, map_append, sum_append, map_singleton, sum_singleton]
    omega

/-! ### One message -/

/-- A message that is always waited for is open after it was sent. -/
lemma send_of_waits {now : ℕ} {m : Parcel} (h : m.policy.waits = true) :
    m.send now =
      { m with
        sent := m.sent ++ [now]
        timer := some (now + m.policy.delay (m.sent.length + 1)) } := by
  rw [send, arm, if_pos (Or.inr h), length_append, length_singleton]

lemma spaced_append {p : Policy} {sent : List ℕ} {now : ℕ} (h : Spaced p sent)
    (hlast : Waited p sent now) : Spaced p (sent ++ [now]) := by
  intro k t t' hk hk'
  rcases Nat.lt_trichotomy (k + 1) sent.length with hlt | heq | hgt
  · rw [getElem?_append_left (Nat.lt_of_succ_lt hlt)] at hk
    rw [getElem?_append_left hlt] at hk'
    exact h k t t' hk hk'
  · rw [getElem?_append_left (heq ▸ Nat.lt_succ_self k)] at hk
    rw [heq, getElem?_concat_length] at hk'
    obtain rfl := Option.some.inj hk'
    rw [heq]
    refine hlast t ?_
    rw [getLast?_eq_getElem?, ← heq, Nat.add_sub_cancel]
    exact hk
  · rw [getElem?_eq_none (by simpa using Nat.lt_succ_iff.mp hgt)] at hk'
    exact absurd hk'.symm (Option.some_ne_none _)

lemma sound_send {now : ℕ} {m : Parcel}
    (hlength : m.sent = [] ∨ m.sent.length + 1 ≤ m.policy.limit) (hpast : ∀ t ∈ m.sent, t ≤ now) (hspaced : Spaced m.policy m.sent)
    (hwaited : Waited m.policy m.sent now) (hopen : m.outcome = none) : Sound now (m.send now) := by
  have hne : m.sent ++ [now] ≠ [] := append_ne_nil_of_right_ne_nil _ (cons_ne_nil _ _)
  have hle : (m.sent ++ [now]).length ≤ 1 ∨ (m.sent ++ [now]).length ≤ m.policy.limit := by
    rw [length_append, length_singleton]
    exact hlength.imp_left fun hnil => by rw [hnil]; exact Nat.le_refl _
  have hpast' : ∀ t ∈ m.sent ++ [now], t ≤ now := by
    intro t ht
    rcases mem_append.mp ht with ht | ht
    · exact hpast t ht
    · exact Nat.le_of_eq (mem_singleton.mp ht)
  unfold send arm
  dsimp only
  split_ifs with hagain
  · refine ⟨hne, hle, hpast', spaced_append hspaced hwaited, by simp [hopen], ?_, ?_, ?_⟩
    · intro t ht
      obtain rfl := Option.some.inj ht
      exact ⟨now, by simp, rfl⟩
    · simp [hopen]
    · simp [hopen]
  · rw [not_or, Nat.not_lt, Bool.not_eq_true] at hagain
    refine ⟨hne, hle, hpast', spaced_append hspaced hwaited, rfl, ?_, by simp, fun _ => ?_⟩
    · exact fun t ht => absurd ht (Option.not_mem_none t)
    · exact ⟨hagain.1, fun hwaits => absurd hwaits (by simp [hagain.2])⟩

lemma Sound.open {now : ℕ} {m : Parcel} (h : Sound now m) {t : ℕ} (htimer : m.timer = some t) :
    m.outcome = none := by
  have hisNone := h.timer
  rw [htimer] at hisNone
  simpa using hisNone.symm

lemma Sound.fire {now : ℕ} {m : Parcel} (h : Sound now m) {t : ℕ} (htimer : m.timer = some t)
    (hdue : t ≤ now) : Sound now (m.fire now) := by
  have hopen := h.open htimer
  have hwaited : Waited m.policy m.sent now := by
    obtain ⟨last, hlast, rfl⟩ := h.due t htimer
    intro t' ht'
    obtain rfl := Option.mem_unique hlast ht'
    exact hdue
  unfold Parcel.fire
  split_ifs with hagain
  · exact sound_send (Or.inr hagain) h.past h.spaced hwaited hopen
  · refine ⟨h.sent_ne, h.sent_le, h.past, h.spaced, rfl, ?_, by simp, fun _ => ?_⟩
    · exact fun t ht => absurd ht (Option.not_mem_none t)
    · exact ⟨Nat.not_lt.mp hagain, fun _ => hwaited⟩

lemma Sound.settle {now : ℕ} {m : Parcel} (h : Sound now m) {o : Ending}
    (ho : o = .acknowledged → 0 < m.received) (hne : o ≠ .gaveUp) : Sound now (m.settle o) := by
  unfold Parcel.settle
  split_ifs
  · refine ⟨h.sent_ne, h.sent_le, h.past, h.spaced, rfl, ?_, ?_, ?_⟩
    · exact fun t ht => absurd ht (Option.not_mem_none t)
    · exact fun heq => ho (Option.some.inj heq)
    · exact fun heq => absurd (Option.some.inj heq) hne
  · exact h

/-- Every step keeps what holds of a message. -/
lemma Sound.step {now : ℕ} {m m' : Parcel} (h : Sound now m) (hstep : Step now m m') :
    Sound now m' := by
  cases hstep with
  | fire htimer hdue => exact h.fire htimer hdue
  | receive =>
    exact ⟨h.sent_ne, h.sent_le, h.past, h.spaced, h.timer, h.due,
      fun heq => Nat.lt_trans (h.acknowledged heq) (Nat.lt_succ_self _), h.gaveUp⟩
  | acknowledge hpos => exact h.settle (fun _ => hpos) (by simp)
  | abandon => exact h.settle (fun heq => by cases heq) (by simp)

/-- What holds of a message holds of it later. -/
lemma Sound.later {now now' : ℕ} {m : Parcel} (h : Sound now m) (hle : now ≤ now') :
    Sound now' m :=
  ⟨h.sent_ne, h.sent_le, fun t ht => Nat.le_trans (h.past t ht) hle, h.spaced, h.timer, h.due,
    h.acknowledged, fun heq => ⟨(h.gaveUp heq).1, fun hwaits t ht =>
      Nat.le_trans ((h.gaveUp heq).2 hwaits t ht) hle⟩⟩

/-- A message that has an outcome keeps it, and is not sent any more. -/
lemma Step.settled {now : ℕ} {m m' : Parcel} (h : Sound now m) (hsettled : m.outcome ≠ none)
    (hstep : Step now m m') : m'.outcome = m.outcome ∧ m'.sent = m.sent := by
  cases hstep with
  | fire htimer => exact absurd (h.open htimer) hsettled
  | receive => exact ⟨rfl, rfl⟩
  | acknowledge =>
    rw [settle, if_neg hsettled]
    exact ⟨rfl, rfl⟩
  | abandon =>
    rw [settle, if_neg hsettled]
    exact ⟨rfl, rfl⟩

end Parcel

/-! ### All the messages of a sender -/

structure Traffic where
  now : ℕ := 0
  messages : List Parcel := []

/-- A message is sent for the first time, time goes on, or a message makes a step. -/
inductive Event where
  | start (policy : Policy)
  | tick (ms : ℕ)
  | step (i : ℕ)

inductive Step : Traffic → Event → Traffic → Prop
  | start {w} (policy : Policy) :
    Step w (.start policy) { w with
      messages := w.messages ++ [Parcel.send w.now ({ policy } : Parcel)] }
  | tick {w} (ms : ℕ) : Step w (.tick ms) { w with now := w.now + ms }
  | step {w i m m'} (hi : w.messages[i]? = some m) (h : Parcel.Step w.now m m') :
    Step w (.step i) { w with messages := w.messages.set i m' }

def system : TransitionSystem Traffic Event where
  init w := w = {}
  step := Step

/-- Several messages may make a step at the same time. -/
lemma moves_forall₂ {now : ℕ} {messages messages' : List Parcel}
    (h : Forall₂ (fun m m' => m' = m ∨ Parcel.Step now m m') messages messages') :
    Relation.ReflTransGen system.Moves ⟨now, messages⟩ ⟨now, messages'⟩ := by
  have hall : ∀ done : List Parcel,
      Relation.ReflTransGen system.Moves ⟨now, done ++ messages⟩ ⟨now, done ++ messages'⟩ := by
    induction h with
    | nil => exact fun _ => .refl
    | @cons m m' rest rest' hm _ ih =>
      intro done
      have htail := ih (done ++ [m'])
      rw [append_assoc, append_assoc, singleton_append, singleton_append] at htail
      rcases hm with rfl | hstep
      · exact htail
      · have hget : (done ++ m :: rest)[done.length]? = some m := by
          rw [getElem?_append_right (Nat.le_refl _), Nat.sub_self, getElem?_cons_zero]
        have hset : (done ++ m :: rest).set done.length m' = done ++ m' :: rest := by
          rw [set_append_right _ _ (Nat.le_refl _), Nat.sub_self, set_cons_zero]
        have hone := Step.step (w := ⟨now, done ++ m :: rest⟩) hget hstep
        rw [hset] at hone
        exact .head ⟨_, hone⟩ htail
  exact hall []

/-- A message may be received several times in a row. -/
lemma receive_many (now : ℕ) (messages : List Parcel) (m : Parcel) (n : ℕ) :
    Relation.ReflTransGen system.Moves ⟨now, messages ++ [m]⟩
      ⟨now, messages ++ [{ m with received := m.received + n }]⟩ := by
  induction n with
  | zero => exact .refl
  | succ n ih =>
    refine ih.tail ?_
    have hstep := Step.step
      (w := ⟨now, messages ++ [{ m with received := m.received + n }]⟩) (i := messages.length)
      (by rw [getElem?_append_right (Nat.le_refl _), Nat.sub_self, getElem?_cons_zero])
      (.receive : Parcel.Step now _ _)
    rw [set_append_right _ _ (Nat.le_refl _), Nat.sub_self, set_cons_zero] at hstep
    exact ⟨_, hstep⟩

lemma sound_start (now : ℕ) (policy : Policy) :
    Parcel.Sound now (Parcel.send now ({ policy } : Parcel)) := by
  refine Parcel.sound_send (Or.inl rfl) ?_ ?_ ?_ rfl
  · exact fun t ht => absurd ht not_mem_nil
  · exact fun k t t' hk => absurd hk.symm (Option.some_ne_none _)
  · exact fun t ht => absurd ht (Option.not_mem_none t)

/-- In every state of every run all messages are sound. -/
theorem sound_of_reachable {w : Traffic} (h : system.Reachable w) :
    ∀ m ∈ w.messages, m.Sound w.now := by
  refine h.invariant (T := system) (I := fun w => ∀ m ∈ w.messages, m.Sound w.now) ?_ ?_
  · rintro w rfl m hm
    exact absurd hm not_mem_nil
  · intro w e w' hsound hstep
    cases hstep with
    | start policy =>
      intro m hm
      rcases mem_append.mp hm with hm | hm
      · exact hsound m hm
      · rw [mem_singleton.mp hm]
        exact sound_start _ policy
    | tick ms => exact fun m hm => (hsound m hm).later (Nat.le_add_right _ _)
    | step hi hstep =>
      intro m hm
      rcases mem_or_eq_of_mem_set hm with hm | rfl
      · exact hsound m hm
      · exact (hsound _ (mem_of_getElem? hi)).step hstep

/-- A message that has an outcome keeps it through every continuation of a run, and is not sent any
more. -/
theorem settled_forever {w w' : Traffic} (h : system.Reachable w)
    (hrun : Relation.ReflTransGen system.Moves w w') {i : ℕ} {m : Parcel}
    (hi : w.messages[i]? = some m) (hsettled : m.outcome ≠ none) :
    ∃ m', w'.messages[i]? = some m' ∧ m'.outcome = m.outcome ∧ m'.sent = m.sent := by
  have hall : system.Reachable w' ∧
      ∃ m', w'.messages[i]? = some m' ∧ m'.outcome = m.outcome ∧ m'.sent = m.sent := by
    refine TransitionSystem.invariant_of_moves (T := system) (I := fun w' => system.Reachable w' ∧
      ∃ m', w'.messages[i]? = some m' ∧ m'.outcome = m.outcome ∧ m'.sent = m.sent) ?_ hrun
      ⟨h, m, hi, rfl, rfl⟩
    rintro v e v' ⟨hv, m', hi', hout, hsent⟩ hstep
    refine ⟨hv.tail hstep, ?_⟩
    have hsound := sound_of_reachable hv m' (mem_of_getElem? hi')
    cases hstep with
    | start policy =>
      refine ⟨m', ?_, hout, hsent⟩
      dsimp only
      rw [getElem?_append_left (List.getElem?_eq_some_iff.mp hi').1]
      exact hi'
    | tick ms => exact ⟨m', hi', hout, hsent⟩
    | step hj hstep' =>
      rename_i j n n'
      by_cases hij : j = i
      · subst hij
        obtain rfl : m' = n := Option.some.inj (hi'.symm.trans hj)
        obtain ⟨hout', hsent'⟩ := hstep'.settled hsound (hout ▸ hsettled)
        refine ⟨n', ?_, hout'.trans hout, hsent'.trans hsent⟩
        rw [getElem?_set_self (List.getElem?_eq_some_iff.mp hj).1]
      · refine ⟨m', ?_, hout, hsent⟩
        rwa [getElem?_set_ne hij]
  exact hall.2

end Retransmit
