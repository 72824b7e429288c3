import Pokerhub.Game.Follower
import Pokerhub.Game.Reservations

/-!
# Failover to the follower

`WorkerHost` and `RoomWorker` of `room.service.ts`: calls are numbered and wait for an answer with
their number, and when the primary has exited the follower is called in its place. The follower
does not answer an `apply` message, so after a failover no `apply` is ever answered
(`apply_never_answered`).
-/

namespace Pokerhub

open GameEngine TransitionSystem List

/-! ### Hosts -/

inductive Thread where
  | primary (p : Primary)
  | follower (f : Follower)
  | exited

namespace Thread

/-- The answers that are on their way to the host. -/
def posted : Thread → List (ℕ × Json)
  | primary p => p.posted
  | follower f => f.posted
  | exited => []

def setPosted (answers : List (ℕ × Json)) : Thread → Thread
  | primary p => primary { p with posted := answers }
  | follower f => follower { f with posted := answers }
  | exited => exited

section Hash

variable (sha256 : List UInt8 → List UInt8)

def receive (seq : ℕ) (seed nonce : List UInt8) (msg : RoomMessage) : Thread → Thread
  | primary p => primary (p.receive sha256 seq seed nonce msg)
  | follower f => follower (f.receive seq msg)
  | exited => exited

def proceed (i : ℕ) (flag : Bool) : Thread → Thread
  | primary p => primary (p.proceed sha256 i flag)
  | follower f => follower f
  | exited => exited

end Hash

end Thread

structure WorkerHost where
  thread : Thread
  seq : ℕ := 0
  /-- The messages that are on their way to the thread. -/
  inbox : List (ℕ × RoomMessage) := []
  pending : List ℕ := []
  /-- The calls that have been resolved, and with what. -/
  answered : List (ℕ × Json) := []

inductive HostEvent where
  | receive (seed nonce : List UInt8)
  | proceed (i : ℕ) (flag : Bool)
  | deliver
  | exit

namespace WorkerHost

def call (msg : RoomMessage) (h : WorkerHost) : WorkerHost :=
  { h with
    seq := h.seq + 1
    pending := h.pending ++ [h.seq + 1]
    inbox := h.inbox ++ [(h.seq + 1, msg)] }

/-- `worker.on('message')` -/
def deliver (h : WorkerHost) : WorkerHost :=
  match h.thread.posted with
  | [] => h
  | (seq, answer) :: rest =>
    let h := { h with thread := h.thread.setPosted rest }
    if h.pending.contains seq then
      { h with pending := h.pending.erase seq, answered := h.answered ++ [(seq, answer)] }
    else h

/-- A diff arrives at the thread. -/
def receiveDiff (t : Turn) (h : WorkerHost) : WorkerHost :=
  match h.thread with
  | .follower f => { h with thread := .follower (f.onDiff t.diff) }
  | _ => h

def step (sha256 : List UInt8 → List UInt8) (h : WorkerHost) : HostEvent → WorkerHost
  | .receive seed nonce =>
    match h.inbox with
    | [] => h
    | (seq, msg) :: rest =>
      { h with thread := h.thread.receive sha256 seq seed nonce msg, inbox := rest }
  | .proceed i flag => { h with thread := h.thread.proceed sha256 i flag }
  | .deliver => h.deliver
  -- `worker.on('exit')` rejects what is pending
  | .exit => { h with thread := .exited, pending := [] }

end WorkerHost

/-! ### The room -/

structure RoomService where
  primary : WorkerHost
  follower : Option WorkerHost
  /-- The diffs that are on their way to the follower. -/
  diffs : List Turn := []
  synced : Bool := false

inductive RoomServiceEvent where
  | request (msg : RoomMessage)
  | primary (event : HostEvent)
  | follower (event : HostEvent)
  /-- `syncFollower`, once the primary has answered it. -/
  | sync
  | diff
  /-- The second call of `replay`. -/
  | replayFollower
  | promote

namespace RoomService

/-- The diffs of a thread go to their channel. -/
def publish (r : RoomService) : RoomService :=
  match r.primary.thread with
  | .primary p =>
    { r with
      primary := { r.primary with thread := .primary { p with diffs := [] } }
      diffs := r.diffs ++ p.diffs }
  | _ => r

def request (msg : RoomMessage) (r : RoomService) : RoomService :=
  { r with primary := r.primary.call msg }

def sync (r : RoomService) : RoomService :=
  match r.follower, r.primary.answered.lookup 1 with
  | some follower, some (.array states) =>
    if r.synced then r
    else { r with follower := some (follower.call (.snapshot states)), synced := true }
  | _, _ => r

def deliverDiff (r : RoomService) : RoomService :=
  match r.diffs with
  | [] => r
  | t :: diffs =>
    match r.follower with
    | some follower => { r with follower := some (follower.receiveDiff t), diffs := diffs }
    | none => { r with primary := r.primary.receiveDiff t, diffs := diffs }

def promoteFollower (r : RoomService) : RoomService :=
  match r.primary.thread, r.follower with
  | .exited, some follower => { r with primary := follower, follower := none }
  | _, _ => r

def step (sha256 : List UInt8 → List UInt8) (r : RoomService) : RoomServiceEvent → RoomService
  | .request msg => r.request msg
  | .primary event => publish { r with primary := r.primary.step sha256 event }
  | .follower event => { r with follower := r.follower.map (·.step sha256 event) }
  | .sync => r.sync
  | .diff => r.deliverDiff
  | .replayFollower => { r with follower := r.follower.map (·.call .replay) }
  | .promote => r.promoteFollower

end RoomService

/-- The runs of a room. The first call is that of `syncFollower`, and the follower may have a log
from its file. -/
def roomServiceRuns (sha256 : List UInt8 → List UInt8) (ids : List PlayerId) :
    TransitionSystem RoomService RoomServiceEvent where
  init r := ∃ p file, (primaryRuns sha256 ids).init p ∧
    r =
      { primary := WorkerHost.call (.resume 0) { thread := .primary p }
        follower := some { thread := .follower (Follower.restart { file := file }) } }
  step r event r' := r' = r.step sha256 event

/-! ### A host without a primary -/

/-- The thread is no primary. -/
def Thread.Passive : Thread → Prop
  | .primary _ => False
  | .follower _ | .exited => True

/-- What a follower answers is a message that it has received, and no `apply`. -/
lemma Follower.mem_posted_receive {f : Follower} {seq : ℕ} {msg : RoomMessage} {x : ℕ × Json}
    (h : x ∈ (f.receive seq msg).posted) :
    x ∈ f.posted ∨ x.1 = seq ∧ ∀ a, msg ≠ .apply a := by
  cases msg with
  | apply a => exact Or.inl h
  | resume start =>
    simp only [Follower.receive] at h
    split at h
    · rcases mem_append.mp h with h | h
      · exact Or.inl h
      · rw [mem_singleton.mp h]
        exact Or.inr ⟨rfl, fun _ h => nomatch h⟩
    · exact Or.inl h
  | _ =>
    rcases mem_append.mp h with h | h
    · exact Or.inl h
    · rw [mem_singleton.mp h]
      exact Or.inr ⟨rfl, fun _ h => nomatch h⟩

/-- What a step of such a host does. -/
structure WorkerHost.PassiveStep (h h' : WorkerHost) : Prop where
  thread : h'.thread.Passive
  seq : h'.seq = h.seq
  inbox : h'.inbox ⊆ h.inbox
  posted : ∀ x ∈ h'.thread.posted, x ∈ h.thread.posted ∨
    ∃ msg, (x.1, msg) ∈ h.inbox ∧ ∀ a, msg ≠ .apply a
  answered : ∀ x ∈ h'.answered, x ∈ h.answered ∨ x ∈ h.thread.posted

section Passive

variable {sha256 : List UInt8 → List UInt8} {ids : List PlayerId} {h : WorkerHost}

lemma WorkerHost.PassiveStep.refl (hpassive : h.thread.Passive) : h.PassiveStep h :=
  ⟨hpassive, rfl, Subset.refl _, fun _ hx => Or.inl hx, fun _ hx => Or.inl hx⟩

lemma Thread.Passive.setPosted {t : Thread} (ht : t.Passive) (answers : List (ℕ × Json)) :
    (t.setPosted answers).Passive ∧ (t.setPosted answers).posted ⊆ answers := by
  cases t with
  | primary p => exact ht.elim
  | follower f => exact ⟨trivial, Subset.refl _⟩
  | exited => exact ⟨trivial, nil_subset _⟩

lemma Thread.Passive.receive {t : Thread} (ht : t.Passive) (sha256 : List UInt8 → List UInt8)
    (seq : ℕ) (seed nonce : List UInt8) (msg : RoomMessage) :
    (t.receive sha256 seq seed nonce msg).Passive ∧
      ∀ x ∈ (t.receive sha256 seq seed nonce msg).posted, x ∈ t.posted ∨
        x.1 = seq ∧ ∀ a, msg ≠ .apply a := by
  cases t with
  | primary p => exact ht.elim
  | follower f => exact ⟨trivial, fun _ => Follower.mem_posted_receive⟩
  | exited => exact ⟨trivial, fun _ h => nomatch h⟩

lemma Thread.Passive.proceed {t : Thread} (ht : t.Passive) (i : ℕ) (flag : Bool) :
    t.proceed sha256 i flag = t := by
  cases t with
  | primary p => exact ht.elim
  | follower f => rfl
  | exited => rfl

lemma WorkerHost.deliver_passive (hpassive : h.thread.Passive) : h.PassiveStep h.deliver := by
  unfold WorkerHost.deliver
  cases hposted : h.thread.posted with
  | nil => exact .refl hpassive
  | cons x rest =>
    obtain ⟨hthread, hrest⟩ := hpassive.setPosted rest
    have hsub : (h.thread.setPosted rest).posted ⊆ h.thread.posted :=
      fun y hy => hposted ▸ mem_cons_of_mem x (hrest hy)
    dsimp only
    split_ifs
    · refine ⟨hthread, rfl, Subset.refl _, fun y hy => Or.inl (hsub hy), ?_⟩
      intro y hy
      rcases mem_append.mp hy with hy | hy
      · exact Or.inl hy
      · rw [mem_singleton.mp hy, hposted]
        exact Or.inr mem_cons_self
    · exact ⟨hthread, rfl, Subset.refl _, fun y hy => Or.inl (hsub hy), fun _ hy => Or.inl hy⟩

lemma WorkerHost.step_passive (hpassive : h.thread.Passive) (event : HostEvent) :
    h.PassiveStep (h.step sha256 event) := by
  cases event with
  | receive seed nonce =>
    simp only [WorkerHost.step]
    cases hinbox : h.inbox with
    | nil => exact .refl hpassive
    | cons x rest =>
      obtain ⟨hthread, hposted⟩ := hpassive.receive sha256 x.1 seed nonce x.2
      refine ⟨hthread, rfl, ?_, ?_, fun _ hy => Or.inl hy⟩
      · rw [hinbox]
        exact subset_cons_self _ _
      · intro y hy
        rcases hposted y hy with hold | ⟨hseq, hmsg⟩
        · exact Or.inl hold
        · rw [hinbox, hseq]
          exact Or.inr ⟨x.2, mem_cons_self, hmsg⟩
  | proceed i flag =>
    have hstay : h.step sha256 (.proceed i flag) = h := by
      rw [WorkerHost.step, hpassive.proceed]
    rw [hstay]
    exact .refl hpassive
  | deliver => exact h.deliver_passive hpassive
  | exit =>
    exact ⟨trivial, rfl, Subset.refl _, (fun _ hy => nomatch hy), fun _ hy => Or.inl hy⟩

/-! ### A call that is never answered -/

/-- The numbers that the host has given are the only ones there are. -/
structure WorkerHost.Numbered (h : WorkerHost) : Prop where
  thread : h.thread.Passive
  inbox : ∀ x ∈ h.inbox, x.1 ≤ h.seq
  posted : ∀ x ∈ h.thread.posted, x.1 ≤ h.seq
  answered : ∀ x ∈ h.answered, x.1 ≤ h.seq

/-- Call `n` is an `apply` that has not been answered. -/
structure WorkerHost.Ignores (n : ℕ) (h : WorkerHost) : Prop where
  thread : h.thread.Passive
  seq : n ≤ h.seq
  inbox : ∀ msg, (n, msg) ∈ h.inbox → ∃ a, msg = .apply a
  posted : ∀ x ∈ h.thread.posted, x.1 ≠ n
  answered : ∀ x ∈ h.answered, x.1 ≠ n

lemma WorkerHost.Numbered.step {h' : WorkerHost} (hnumbered : h.Numbered)
    (hstep : h.PassiveStep h') : h'.Numbered := by
  refine ⟨hstep.thread, ?_, ?_, ?_⟩
  · intro x hx
    rw [hstep.seq]
    exact hnumbered.inbox x (hstep.inbox hx)
  · intro x hx
    rw [hstep.seq]
    rcases hstep.posted x hx with hold | ⟨msg, hmsg, -⟩
    · exact hnumbered.posted x hold
    · exact hnumbered.inbox _ hmsg
  · intro x hx
    rw [hstep.seq]
    rcases hstep.answered x hx with hold | hposted
    · exact hnumbered.answered x hold
    · exact hnumbered.posted x hposted

lemma WorkerHost.Ignores.step {n : ℕ} {h' : WorkerHost} (hignores : h.Ignores n)
    (hstep : h.PassiveStep h') : h'.Ignores n := by
  refine ⟨hstep.thread, hstep.seq ▸ hignores.seq, ?_, ?_, ?_⟩
  · exact fun msg hmsg => hignores.inbox msg (hstep.inbox hmsg)
  · rintro x hx rfl
    rcases hstep.posted x hx with hold | ⟨msg, hmsg, hother⟩
    · exact hignores.posted x hold rfl
    · obtain ⟨a, rfl⟩ := hignores.inbox msg hmsg
      exact hother a rfl
  · intro x hx
    rcases hstep.answered x hx with hold | hposted
    · exact hignores.answered x hold
    · exact hignores.posted x hposted

lemma WorkerHost.Numbered.call (hnumbered : h.Numbered) (msg : RoomMessage) :
    (h.call msg).Numbered := by
  refine ⟨hnumbered.thread, ?_, ?_, ?_⟩
  · intro x hx
    rcases mem_append.mp hx with hx | hx
    · exact (hnumbered.inbox x hx).trans (Nat.le_succ _)
    · rw [mem_singleton.mp hx]
      exact Nat.le_refl _
  · exact fun x hx => (hnumbered.posted x hx).trans (Nat.le_succ _)
  · exact fun x hx => (hnumbered.answered x hx).trans (Nat.le_succ _)

/-- The number of a new call is new. -/
lemma WorkerHost.Numbered.ignores (hnumbered : h.Numbered) (a : GameAction) :
    (h.call (.apply a)).Ignores (h.seq + 1) := by
  refine ⟨hnumbered.thread, Nat.le_refl _, ?_, ?_, ?_⟩
  · intro msg hmsg
    rcases mem_append.mp hmsg with hold | hnew
    · exact absurd (hnumbered.inbox _ hold) (Nat.not_succ_le_self _)
    · cases mem_singleton.mp hnew
      exact ⟨a, rfl⟩
  · exact fun x hx => Nat.ne_of_lt (Nat.lt_succ_of_le (hnumbered.posted x hx))
  · exact fun x hx => Nat.ne_of_lt (Nat.lt_succ_of_le (hnumbered.answered x hx))

lemma WorkerHost.Ignores.call {n : ℕ} (hignores : h.Ignores n) (msg : RoomMessage) :
    (h.call msg).Ignores n := by
  refine ⟨hignores.thread, hignores.seq.trans (Nat.le_succ _), ?_, hignores.posted,
    hignores.answered⟩
  intro msg' hmsg
  rcases mem_append.mp hmsg with hold | hnew
  · exact hignores.inbox msg' hold
  · have hseq : n = h.seq + 1 := congrArg Prod.fst (mem_singleton.mp hnew)
    exact absurd hignores.seq (by omega)

/-! ### Over whole runs -/

/-- After the failover the primary is a follower; before it the follower is one. -/
def RoomService.FollowerNumbered (r : RoomService) : Prop :=
  match r.follower with
  | some follower => follower.Numbered
  | none => r.primary.Numbered

lemma WorkerHost.receiveDiff_passive (hpassive : h.thread.Passive) (t : Turn) :
    h.PassiveStep (h.receiveDiff t) := by
  unfold WorkerHost.receiveDiff
  cases hthread : h.thread with
  | primary p =>
    rw [hthread] at hpassive
    exact hpassive.elim
  | follower f =>
    have hposted : (f.onDiff t.diff).posted = f.posted := by
      rw [Follower.onDiff_diff]
      rfl
    refine ⟨trivial, rfl, Subset.refl _, fun x hx => Or.inl ?_, fun _ hx => Or.inl hx⟩
    have hmem : x ∈ (f.onDiff t.diff).posted := hx
    rw [hthread]
    rwa [hposted] at hmem
  | exited => exact .refl hpassive

lemma RoomService.publish_passive {r : RoomService} (h : r.primary.thread.Passive) :
    r.publish = r := by
  unfold RoomService.publish
  cases hthread : r.primary.thread with
  | primary p =>
    rw [hthread] at h
    exact h.elim
  | follower f => rfl
  | exited => rfl

/-- What happens to a room whose primary is a passive host, as long as it has no follower. -/
lemma RoomService.step_promoted {r : RoomService} (hnone : r.follower = none)
    (hpassive : r.primary.thread.Passive) (event : RoomServiceEvent) :
    (r.step sha256 event).follower = none ∧
      ((∃ msg, (r.step sha256 event).primary = r.primary.call msg) ∨
        r.primary.PassiveStep (r.step sha256 event).primary) := by
  have hstay : r.primary.PassiveStep r.primary := .refl hpassive
  cases event with
  | request msg => exact ⟨hnone, Or.inl ⟨msg, rfl⟩⟩
  | primary event =>
    have hstep := @WorkerHost.step_passive sha256 r.primary hpassive event
    rw [RoomService.step, RoomService.publish_passive hstep.thread]
    exact ⟨hnone, Or.inr hstep⟩
  | follower event =>
    refine ⟨?_, Or.inr hstay⟩
    simp [RoomService.step, hnone]
  | sync =>
    have hsame : r.sync = r := by
      simp only [RoomService.sync, hnone]
    rw [RoomService.step, hsame]
    exact ⟨hnone, Or.inr hstay⟩
  | diff =>
    cases hdiffs : r.diffs with
    | nil =>
      simp only [RoomService.step, RoomService.deliverDiff, hdiffs]
      exact ⟨hnone, Or.inr hstay⟩
    | cons t diffs =>
      simp only [RoomService.step, RoomService.deliverDiff, hdiffs, hnone]
      exact ⟨trivial, Or.inr (r.primary.receiveDiff_passive hpassive t)⟩
  | replayFollower =>
    refine ⟨?_, Or.inr hstay⟩
    simp [RoomService.step, hnone]
  | promote =>
    have hsame : r.promoteFollower = r := by
      simp only [RoomService.promoteFollower, hnone]
      cases r.primary.thread <;> rfl
    rw [RoomService.step, hsame]
    exact ⟨hnone, Or.inr hstay⟩

/-- Before the failover the follower is a numbered host, and after it the primary is one. -/
lemma RoomService.FollowerNumbered.step {r : RoomService} (hr : r.FollowerNumbered)
    (event : RoomServiceEvent) : (r.step sha256 event).FollowerNumbered := by
  unfold RoomService.FollowerNumbered at hr
  cases hfollower : r.follower with
  | none =>
    rw [hfollower] at hr
    obtain ⟨hnone, hstep⟩ := @RoomService.step_promoted sha256 r hfollower hr.thread event
    unfold RoomService.FollowerNumbered
    rw [hnone]
    rcases hstep with ⟨msg, hcall⟩ | hstep
    · dsimp only
      rw [hcall]
      exact hr.call msg
    · exact hr.step hstep
  | some follower =>
    rw [hfollower] at hr
    have hsame : ∀ {r' : RoomService}, r'.follower = some follower → r'.FollowerNumbered := by
      intro r' hr'
      unfold RoomService.FollowerNumbered
      rw [hr']
      exact hr
    have hother : ∀ {r' : RoomService} {h : WorkerHost}, r'.follower = some h → h.Numbered →
        r'.FollowerNumbered := by
      intro r' h hr' hnumbered
      unfold RoomService.FollowerNumbered
      rw [hr']
      exact hnumbered
    cases event with
    | request msg => exact hsame hfollower
    | primary event =>
      refine hsame (Eq.trans ?_ hfollower)
      simp only [RoomService.step, RoomService.publish]
      split <;> rfl
    | follower event =>
      refine hother ?_ (hr.step (@WorkerHost.step_passive sha256 follower hr.thread event))
      simp [RoomService.step, hfollower]
    | sync =>
      cases hanswer : r.primary.answered.lookup 1 with
      | some answer =>
        by_cases harray : ∃ states, answer = .array states
        · obtain ⟨states, rfl⟩ := harray
          simp only [RoomService.step, RoomService.sync, hfollower, hanswer]
          split_ifs
          · exact hsame hfollower
          · exact hother rfl (hr.call _)
        · have hstay : r.sync = r := by
            simp only [RoomService.sync, hfollower, hanswer]
            cases answer with
            | array states => exact absurd ⟨states, rfl⟩ harray
            | _ => rfl
          rw [RoomService.step, hstay]
          exact hsame hfollower
      | none =>
        have hstay : r.sync = r := by
          simp only [RoomService.sync, hfollower, hanswer]
        rw [RoomService.step, hstay]
        exact hsame hfollower
    | diff =>
      cases hdiffs : r.diffs with
      | nil =>
        simp only [RoomService.step, RoomService.deliverDiff, hdiffs]
        exact hsame hfollower
      | cons t diffs =>
        simp only [RoomService.step, RoomService.deliverDiff, hdiffs, hfollower]
        exact hother rfl (hr.step (follower.receiveDiff_passive hr.thread t))
    | replayFollower =>
      refine hother ?_ (hr.call .replay)
      simp [RoomService.step, hfollower]
    | promote =>
      cases hthread : r.primary.thread with
      | exited =>
        simp only [RoomService.step, RoomService.promoteFollower, hthread, hfollower]
        exact hr
      | _ =>
        simp only [RoomService.step, RoomService.promoteFollower, hthread]
        exact hsame hfollower

/-- The call is answered in some continuation of the run. -/
def RoomService.Answers (sha256 : List UInt8 → List UInt8) (ids : List PlayerId) (r : RoomService)
    (msg : RoomMessage) : Prop :=
  ∃ r', Relation.ReflTransGen (roomServiceRuns sha256 ids).Moves (r.request msg) r' ∧
    r.primary.seq + 1 ∈ r'.primary.answered.map (·.1)

/-- A promoted follower answers no `apply`. -/
lemma RoomService.FollowerNumbered.not_answers {r : RoomService} (hr : r.FollowerNumbered)
    (hnone : r.follower = none) (a : GameAction) : ¬ r.Answers sha256 ids (.apply a) := by
  rintro ⟨r', hrun, hanswered⟩
  unfold RoomService.FollowerNumbered at hr
  rw [hnone] at hr
  have hignores : r'.follower = none ∧ r'.primary.Ignores (r.primary.seq + 1) := by
    refine invariant_of_moves (I := fun r' : RoomService =>
      r'.follower = none ∧ r'.primary.Ignores (r.primary.seq + 1)) ?_ hrun ⟨hnone, hr.ignores a⟩
    rintro s event _ ⟨hs, hignores⟩ rfl
    obtain ⟨hs', hstep⟩ := @RoomService.step_promoted sha256 s hs hignores.thread event
    refine ⟨hs', ?_⟩
    rcases hstep with ⟨msg, hcall⟩ | hstep
    · rw [hcall]
      exact hignores.call msg
    · exact hignores.step hstep
  obtain ⟨x, hx, hseq⟩ := mem_map.mp hanswered
  exact hignores.2.answered x hx hseq

lemma followerNumbered_of_reachable {r : RoomService}
    (h : (roomServiceRuns sha256 ids).Reachable r) : r.FollowerNumbered := by
  refine h.invariant (I := RoomService.FollowerNumbered) ?_ ?_
  · rintro _ ⟨p, file, -, rfl⟩
    have hposted : (Follower.restart { file := file }).posted = [] := by
      unfold Follower.restart Follower.loadPersisted
      split <;> rfl
    refine ⟨trivial, (fun _ h => nomatch h), fun x hx => ?_, (fun _ h => nomatch h)⟩
    have hmem : x ∈ (Follower.restart { file := file }).posted := hx
    rw [hposted] at hmem
    cases hmem
  · rintro r event _ hr rfl
    exact hr.step event

/-- After a failover no `apply` is ever answered. -/
theorem apply_never_answered {r : RoomService} (h : (roomServiceRuns sha256 ids).Reachable r)
    (hpromoted : r.follower = none) (a : GameAction) : ¬ r.Answers sha256 ids (.apply a) :=
  (followerNumbered_of_reachable h).not_answers hpromoted a

end Passive

/-! ### A failover between two actions -/

def newRoom : RoomService where
  primary := WorkerHost.call (.resume 0) { thread := .primary newPrimary }
  follower := some { thread := .follower {} }

/-- An action that the primary handles to its end, with `n` waits. -/
def acted (a : GameAction) (n : ℕ) : List RoomServiceEvent :=
  .request (.apply a) :: .primary (.receive [] []) ::
    (replicate n (.primary (.proceed 0 true)) ++ [.primary .deliver, .diff])

/-- Both blinds are posted and the hand is dealt; then the primary exits. -/
def roomPromoted : RoomService :=
  let events : List RoomServiceEvent :=
    [.primary (.receive [] []), .primary .deliver, .sync, .follower (.receive [] []),
      .follower .deliver] ++
    acted (.postBlind "p1" 1) 5 ++ acted (.postBlind "p2" 2) 7 ++ [.primary .exit, .promote]
  events.foldl (RoomService.step zeroSeedHash) newRoom

lemma reachable_roomPromoted :
    (roomServiceRuns zeroSeedHash ["p1", "p2"]).Reachable roomPromoted := by
  have hinit : (roomServiceRuns zeroSeedHash ["p1", "p2"]).init newRoom :=
    ⟨newPrimary, none, ⟨"h1", zeroSeed, zeroNonce, rfl⟩, rfl⟩
  have hfree : ∀ (events : List RoomServiceEvent) (r : RoomService),
      Along (RoomService.step zeroSeedHash) (fun _ _ => True) r events := by
    intro events
    induction events with
    | nil => exact fun _ => trivial
    | cons event events ih => exact fun r => ⟨trivial, ih _⟩
  exact (Reachable.foldl (T := roomServiceRuns zeroSeedHash ["p1", "p2"]) (fun _ _ => rfl)
    (.of_init hinit) (hfree _ _)).of_restrict

lemma follower_roomPromoted : roomPromoted.follower = none := by
  apply Option.isNone_iff_eq_none.mp
  rw [roomPromoted, newRoom, newPrimary, zeroRng, zeroSeedHash_eq]
  decide +kernel

theorem apply_never_answered_next :
    ¬ roomPromoted.Answers zeroSeedHash ["p1", "p2"] (.apply .next) :=
  apply_never_answered reachable_roomPromoted follower_roomPromoted .next

/-- The text of the last answer. -/
def WorkerHost.lastText (h : WorkerHost) : Option String :=
  match h.answered.getLast? with
  | some (_, .string s) => some s
  | _ => none

/-- The room does not go on: an action waits for ever, and the id of the hand is lost. -/
theorem failover_broken :
    ¬ roomPromoted.Answers zeroSeedHash ["p1", "p2"] (.apply (.check "p1")) ∧
      (([.request .getHandId, .primary (.receive [] []), .primary .deliver].foldl
        (RoomService.step zeroSeedHash) roomPromoted).primary.lastText = some "") := by
  refine ⟨(followerNumbered_of_reachable reachable_roomPromoted).not_answers
    follower_roomPromoted _, ?_⟩
  rw [roomPromoted, newRoom, newPrimary, zeroRng, zeroSeedHash_eq]
  decide +kernel

end Pokerhub
