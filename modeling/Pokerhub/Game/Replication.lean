import Pokerhub.Game.Follower
import Pokerhub.Game.Reservations

/-!
# Replication to the follower

A primary, its follower, the diffs that are on their way and the one snapshot that
`syncFollower` takes. The diffs of a message that deals on leave its other entries out, a snapshot
drops what came before it, and the latest delivery is the current state. Where nothing of this
happens the follower that has received everything agrees with the hand log (`follower_agrees`).
-/

namespace Pokerhub

open GameEngine TransitionSystem List Json

/-! ### The parties -/

inductive Snapshot where
  | due
  /-- It is on its way. -/
  | taken (states : List Json)
  | delivered (states : List Json)

/-- It has arrived. -/
def Snapshot.Arrived : Snapshot → Prop
  | .delivered _ => True
  | _ => False

structure Replication where
  primary : Primary
  snapshot : Snapshot := .due
  follower : Follower

inductive ReplicationEvent where
  | primary (event : PrimaryEvent)
  | take
  | snapshot
  | diff (i : ℕ)

/-- `resume(0)` -/
def Primary.states (p : Primary) : List Json :=
  p.engine.log.entries.map (·.stateJson)

namespace Replication

/-- `syncFollower` asks the primary. -/
def take (r : Replication) : Replication :=
  match r.snapshot with
  | .due => { r with snapshot := .taken r.primary.states }
  | _ => r

def deliverSnapshot (r : Replication) : Replication :=
  match r.snapshot with
  | .taken states =>
    { r with snapshot := .delivered states, follower := r.follower.onSnapshot states }
  | _ => r

def deliverDiff (i : ℕ) (r : Replication) : Replication :=
  match r.primary.diffs[i]? with
  | some t =>
    { r with
      primary := { r.primary with diffs := r.primary.diffs.eraseIdx i }
      follower := r.follower.onDiff t.diff }
  | none => r

def step (sha256 : List UInt8 → List UInt8) (r : Replication) : ReplicationEvent → Replication
  | .primary event => { r with primary := r.primary.step sha256 event }
  | .take => r.take
  | .snapshot => r.deliverSnapshot
  | .diff i => r.deliverDiff i

/-- The hand log. -/
abbrev entries (r : Replication) : List HandLogEntry :=
  r.primary.engine.log.entries

end Replication

/-- The runs of a primary with its follower, which may have a log from its file. -/
def replicationRuns (sha256 : List UInt8 → List UInt8) (ids : List PlayerId) :
    TransitionSystem Replication ReplicationEvent where
  init r := (primaryRuns sha256 ids).init r.primary ∧ r.snapshot = .due
  step r event r' := r' = r.step sha256 event

/-! ### Steps that keep the follower in agreement -/

/-- The handler deals on, or is about to. -/
def Handling.Dealing : Handling → Prop
  | .dealt | .advance => True
  | _ => False

/-- The snapshot is not yet taken, or it has the whole log. -/
def Replication.Covered (r : Replication) : Prop :=
  match r.snapshot with
  | .due => True
  | .taken states | .delivered states => r.entries.length ≤ states.length

/-- A diff is delivered after the snapshot or its entry is in the snapshot, and none is delivered
after the last of them. -/
def Replication.InOrder (r : Replication) (t : Turn) : Prop :=
  match r.snapshot with
  | .due => True
  | .taken states => t.idx < states.length
  | .delivered _ => ∃ t' ∈ r.primary.diffs, r.follower.log.length ≤ t'.idx + 1

/-- Dealing is enabled, no message deals on after the snapshot, and the deliveries are in order. -/
def Replication.Agreeable (r : Replication) : ReplicationEvent → Prop
  | .primary (.proceed i flag) => ∀ handler ∈ r.primary.handlers[i]?, handler.2.Dealing →
      flag = true ∧ r.Covered
  | .diff i => ∀ t ∈ r.primary.diffs[i]?, r.InOrder t
  | _ => True

/-! ### What a primary logs and publishes -/

/-- An accepted call and its entry. -/
def EntryLogged (sha256 : List UInt8 → List UInt8) (e e' : GameEngine) (entry : HandLogEntry) : Prop :=
  (∃ a, e' = e.afterAction sha256 a) ∧ e'.log.entries = e.log.entries ++ [entry] ∧
    entry.index = e.log.entries.length ∧ entry.postState = e'.machine.state

lemma run_recorded {sha256 : List UInt8 → List UInt8} (e : GameEngine) (a : GameAction) :
    (∃ err, (applyAction sha256 a).run e = .error err e) ∨
      ∃ s e' entry, (applyAction sha256 a).run e = .ok s e' ∧ EntryLogged sha256 e e' entry := by
  rcases @afterAction_spec sha256 e a with ⟨-, herr, -⟩ | ⟨m, -, hrun, hplay⟩
  · exact Or.inl herr
  · right
    obtain ⟨log, hlog, hrecord⟩ := @afterPlay_log sha256 a e.machine.state
      { e with machine := { m with state := force m.state } }
    rw [← hplay] at hrecord
    have hentries := (HandLog.recordProof_kept hlog).1
    refine ⟨_, _, ⟨log.entries.length, a, e.machine.state,
      (e.afterAction sha256 a).machine.state⟩, hrun, ⟨a, rfl⟩, ?_, ?_, rfl⟩
    · rw [hrecord, HandLog.record, hentries]
    · exact congrArg length hentries

/-- The turn of a handler that has yet to publish it. -/
def Handling.unpublished : Handling → Option Turn
  | .reserve turn | .publish _ turn => some turn
  | _ => none

/-- What a step of a handler, or a message that gets one, does to the log and to the diffs. -/
structure Primary.Progress (sha256 : List UInt8 → List UInt8) (p p' : Primary)
    (old next : Option Handling) : Prop where
  engine : p'.engine = p.engine ∨ ∃ entry, EntryLogged sha256 p.engine p'.engine entry
  keep : p.diffs ⊆ p'.diffs
  diffs : ∀ t ∈ p'.diffs, t ∈ p.diffs ∨ (∃ stage ∈ old, stage.turn? = some t) ∨
    ∃ idx entry, EntryLogged sha256 p.engine p'.engine entry ∧ t = p'.engine.turn idx
  turns : ∀ stage ∈ next, ∀ t, stage.turn? = some t →
    (∃ stage ∈ old, stage.turn? = some t) ∨ ∃ idx, t = p'.engine.turn idx
  unpublished : ∀ stage ∈ old, ∀ t, stage.unpublished = some t →
    t ∈ p'.diffs ∨ ∃ stage' ∈ next, stage'.unpublished = some t
  fresh : old = none → next = none ∨ ∃ entry, EntryLogged sha256 p.engine p'.engine entry
  recorded : ∀ entry, EntryLogged sha256 p.engine p'.engine entry →
    (∃ idx, p'.engine.turn idx ∈ p'.diffs) ∨ ∃ stage' ∈ next, stage'.Dealing ∨
      ∃ idx, stage'.unpublished = some (p'.engine.turn idx)

section Progress

variable {sha256 : List UInt8 → List UInt8} {p : Primary}

/-- An entry has been added. -/
lemma EntryLogged.ne {e e' : GameEngine} {entry : HandLogEntry} (h : EntryLogged sha256 e e' entry) :
    e' ≠ e := by
  rintro rfl
  have hlength := congrArg length h.2.1
  simp at hlength

/-- The engine stays, and so do the diffs. -/
lemma Primary.Progress.of_same {p' : Primary} {old next : Option Handling}
    (hfresh : old = none → next = none) (hengine : p'.engine = p.engine) (hdiffs : p'.diffs = p.diffs)
    (hturns : ∀ stage ∈ next, ∀ t, stage.turn? = some t →
      (∃ stage ∈ old, stage.turn? = some t) ∨ ∃ idx, t = p'.engine.turn idx)
    (hunpublished : ∀ stage ∈ old, ∀ t, stage.unpublished = some t →
      ∃ stage' ∈ next, stage'.unpublished = some t) :
    p.Progress sha256 p' old next where
  engine := Or.inl hengine
  keep := hdiffs ▸ Subset.refl _
  diffs := fun _ ht => Or.inl (hdiffs ▸ ht)
  turns := hturns
  unpublished := fun stage hstage t ht => Or.inr (hunpublished stage hstage t ht)
  fresh := fun hold => Or.inl (hfresh hold)
  recorded := fun _ hentry => absurd hengine hentry.ne

lemma handling_spec {e : GameEngine} :
    e.handling.Dealing ∨ e.handling.unpublished = some (e.turn 0) := by
  unfold handling
  split_ifs
  · exact Or.inl trivial
  · exact Or.inr rfl

lemma turn?_handling {e : GameEngine} {t : Turn} (h : e.handling.turn? = some t) :
    t = e.turn 0 := by
  unfold handling at h
  split_ifs at h
  · cases h
  · cases h
    rfl

lemma Primary.progress_handle {seq : ℕ} {flag : Bool} {stage : Handling}
    (hflag : stage.Dealing → flag = true) :
    p.Progress sha256 (p.handle sha256 seq flag stage).1 (some stage)
      (p.handle sha256 seq flag stage).2 := by
  cases stage with
  | dealt =>
    obtain rfl := hflag trivial
    refine .of_same (fun h => absurd h (Option.some_ne_none _)) rfl rfl ?_ ?_
    · rintro _ ⟨⟩ t ht
      exact Or.inr ⟨0, turn?_handling ht⟩
    · rintro _ ⟨⟩ t ht
      cases ht
  | advance =>
    obtain rfl := hflag trivial
    rcases @run_recorded sha256 p.engine .next with ⟨err, hrun⟩ | ⟨s, e', entry, hrun, hentry⟩
    · simp only [Primary.handle, hrun]
      refine .of_same (fun h => absurd h (Option.some_ne_none _)) rfl rfl ?_ ?_
      · rintro _ ⟨⟩
      · rintro _ ⟨⟩ t ht
        cases ht
    · simp only [Primary.handle, hrun]
      refine ⟨Or.inr ⟨entry, hentry⟩, Subset.refl _, fun t ht => Or.inl ht, ?_, ?_,
        (fun h => absurd h (Option.some_ne_none _)), ?_⟩
      · rintro _ ⟨⟩ t ht
        exact Or.inr ⟨0, turn?_handling ht⟩
      · rintro _ ⟨⟩ t ht
        cases ht
      · intro _ _
        refine Or.inr ⟨_, rfl, ?_⟩
        exact handling_spec.imp_right fun h => ⟨0, h⟩
  | reserve turn =>
    cases flag <;>
    · refine .of_same (fun h => absurd h (Option.some_ne_none _)) rfl rfl ?_ ?_
      · rintro _ ⟨⟩ t ht
        exact Or.inl ⟨_, rfl, ht⟩
      · rintro _ ⟨⟩ t ht
        exact ⟨_, rfl, ht⟩
  | publish enabled turn =>
    refine ⟨Or.inl rfl, subset_append_left _ _, ?_, ?_, ?_,
      (fun h => absurd h (Option.some_ne_none _)), fun _ h => absurd rfl h.ne⟩
    · intro t ht
      rcases mem_append.mp ht with ht | ht
      · exact Or.inl ht
      · obtain rfl := mem_singleton.mp ht
        exact Or.inr (Or.inl ⟨_, rfl, rfl⟩)
    · rintro _ ⟨⟩ t ht
      exact Or.inl ⟨_, rfl, ht⟩
    · rintro _ ⟨⟩ t ht
      cases ht
      exact Or.inl (mem_append_right _ mem_cons_self)
  | settle enabled turn =>
    by_cases hsettle : turn.state.phase = .settle
    · rcases @run_recorded sha256 p.engine .next with ⟨err, hrun⟩ | ⟨s, e', entry, hrun, hentry⟩
      · simp only [Primary.handle, if_pos hsettle, hrun]
        refine .of_same (fun h => absurd h (Option.some_ne_none _)) rfl rfl ?_ ?_
        · rintro _ ⟨⟩
        · rintro _ ⟨⟩ t ht
          cases ht
      · simp only [Primary.handle, if_pos hsettle, hrun]
        refine ⟨Or.inr ⟨entry, hentry⟩, subset_append_left _ _, ?_, ?_, ?_,
          (fun h => absurd h (Option.some_ne_none _)), ?_⟩
        · intro t ht
          rcases mem_append.mp ht with ht | ht
          · exact Or.inl ht
          · exact Or.inr (Or.inr ⟨_, _, hentry, mem_singleton.mp ht⟩)
        · rintro _ ⟨⟩ t ht
          cases ht
          exact Or.inr ⟨_, rfl⟩
        · rintro _ ⟨⟩ t ht
          cases ht
        · exact fun _ _ => Or.inl ⟨_, mem_append_right _ mem_cons_self⟩
    · simp only [Primary.handle, if_neg hsettle]
      refine .of_same (fun h => absurd h (Option.some_ne_none _)) rfl rfl ?_ ?_
      · rintro _ ⟨⟩ t ht
        exact Or.inl ⟨_, rfl, ht⟩
      · rintro _ ⟨⟩ t ht
        cases ht
  | commit enabled turn =>
    cases enabled <;>
    · refine .of_same (fun h => absurd h (Option.some_ne_none _)) rfl rfl ?_ ?_
      · rintro _ ⟨⟩ t ht
        exact Or.inl ⟨_, rfl, ht⟩
      · rintro _ ⟨⟩ t ht
        cases ht
  | answer turn =>
    refine .of_same (fun h => absurd h (Option.some_ne_none _)) rfl rfl ?_ ?_
    · rintro _ ⟨⟩
    · rintro _ ⟨⟩ t ht
      cases ht

/-- A step of the primary is one of a handler, or a message that gets one, or nothing. -/
lemma Primary.step_progress {event : PrimaryEvent}
    (hflag : ∀ i flag, event = .proceed i flag → ∀ handler ∈ p.handlers[i]?,
      handler.2.Dealing → flag = true) :
    ∃ (hs₁ : List (ℕ × Handling)) (seq : ℕ) (old next : Option Handling)
      (hs₂ : List (ℕ × Handling)),
      p.handlers = hs₁ ++ (old.map fun stage => (seq, stage)).toList ++ hs₂ ∧
      (p.step sha256 event).handlers =
        hs₁ ++ (next.map fun stage => (seq, stage)).toList ++ hs₂ ∧
      p.Progress sha256 (p.step sha256 event) old next ∧
      ∀ stage ∈ old, ∃ i flag, event = .proceed i flag ∧ (seq, stage) ∈ p.handlers[i]? := by
  have hnothing : ∀ {p' : Primary}, p'.engine = p.engine → p'.diffs = p.diffs →
      p.Progress sha256 p' none none := by
    intro p' hengine hdiffs
    refine .of_same (fun _ => rfl) hengine hdiffs ?_ ?_
    · rintro _ ⟨⟩
    · rintro _ ⟨⟩
  cases event with
  | receive seq seed nonce msg =>
    by_cases hmsg : ∃ a, msg = .apply a
    · obtain ⟨a, rfl⟩ := hmsg
      rcases @run_recorded sha256 p.engine a with ⟨err, hrun⟩ | ⟨s, e', entry, hrun, hentry⟩
      · have hstay : p.step sha256 (.receive seq seed nonce (.apply a)) = p := by
          simp only [Primary.step, Primary.receive, hrun]
        rw [hstay]
        exact ⟨p.handlers, 0, none, none, [], by simp, by simp, hnothing rfl rfl,
          fun _ h => absurd h (Option.not_mem_none _)⟩
      · have hstep : p.step sha256 (.receive seq seed nonce (.apply a)) =
            { p with
              engine := e'
              handlers := p.handlers ++ [(seq, if p.engine.machine.state.phase = .waitBlinds ∧
                e'.machine.state.phase = .deal then .dealt else e'.handling)] } := by
          simp only [Primary.step, Primary.receive, hrun]
        rw [hstep]
        refine ⟨p.handlers, seq, none, some _, [], by simp, by simp; rfl, ?_,
          fun _ h => absurd h (Option.not_mem_none _)⟩
        refine ⟨Or.inr ⟨entry, hentry⟩, Subset.refl _, fun t ht => Or.inl ht, ?_, ?_,
          fun _ => Or.inr ⟨entry, hentry⟩, ?_⟩
        · rintro _ ⟨⟩ t ht
          split_ifs at ht
          · cases ht
          · exact Or.inr ⟨0, turn?_handling ht⟩
        · rintro _ ⟨⟩
        · intro _ _
          refine Or.inr ⟨_, rfl, ?_⟩
          split_ifs
          · exact Or.inl trivial
          · exact handling_spec.imp_right fun h => ⟨0, h⟩
    · obtain ⟨posted, hstep⟩ := @Primary.receive_other sha256 p seq seed nonce msg
        fun a ha => hmsg ⟨a, ha⟩
      rw [Primary.step, hstep]
      exact ⟨p.handlers, 0, none, none, [], by simp, by simp, hnothing rfl rfl,
        fun _ h => absurd h (Option.not_mem_none _)⟩
  | proceed i flag =>
    rcases @Primary.proceed_cases sha256 p i flag with
      hstay | ⟨hs₁, seq, stage, hs₂, hi, hhandlers, hstep⟩
    · rw [Primary.step, hstay]
      exact ⟨p.handlers, 0, none, none, [], by simp, by simp, hnothing rfl rfl,
        fun _ h => absurd h (Option.not_mem_none _)⟩
    · rw [Primary.step, hstep]
      have hprogress := @Primary.progress_handle sha256 p seq flag stage
        (hflag i flag rfl (seq, stage) hi)
      refine ⟨hs₁, seq, some stage, (p.handle sha256 seq flag stage).2, hs₂, ?_, rfl, ?_, ?_⟩
      · rw [hhandlers]
        simp
      · exact ⟨hprogress.engine, hprogress.keep, hprogress.diffs, hprogress.turns,
          hprogress.unpublished, hprogress.fresh, hprogress.recorded⟩
      · rintro _ ⟨⟩
        exact ⟨i, flag, rfl, hi⟩

/-! ### What a handler reads -/

/-- The turn is of an entry, with the state after it. -/
def Primary.Read (p : Primary) (t : Turn) : Prop :=
  ∃ entry, p.engine.log.entries[t.idx]? = some entry ∧ t.state = entry.postState.publicView

/-- The state is that of the last entry. -/
structure Primary.Current (sha256 : List UInt8 → List UInt8) (ids : List PlayerId) (p : Primary) :
    Prop where
  engine : ∃ r, (engineRuns sha256 ids 100).Reachable r ∧ r.engine = p.engine
  index : ∀ (i : ℕ) (entry : HandLogEntry), p.engine.log.entries[i]? = some entry → entry.index = i
  state : ∀ entry ∈ p.engine.log.entries.getLast?, p.engine.machine.state = entry.postState

/-- Every turn is of an entry. -/
structure Primary.Reads (sha256 : List UInt8 → List UInt8) (ids : List PlayerId) (p : Primary) :
    Prop extends p.Current sha256 ids where
  started : p.handlers ≠ [] → p.engine.log.entries ≠ []
  turns : ∀ handler ∈ p.handlers, ∀ t, handler.2.turn? = some t → p.Read t
  diffs : ∀ t ∈ p.diffs, p.Read t

variable {ids : List PlayerId} {p' : Primary} {old next : Option Handling}

/-- An entry stays in the log. -/
lemma Primary.Progress.getElem? (h : p.Progress sha256 p' old next) {i : ℕ} {entry : HandLogEntry}
    (hentry : p.engine.log.entries[i]? = some entry) :
    p'.engine.log.entries[i]? = some entry := by
  rcases h.engine with hengine | ⟨_, hrecorded⟩
  · rwa [hengine]
  · rw [hrecorded.2.1]
    rw [getElem?_append_left (List.getElem?_eq_some_iff.mp hentry).1]
    exact hentry

lemma Primary.Progress.read (h : p.Progress sha256 p' old next) {t : Turn} (ht : p.Read t) :
    p'.Read t := by
  obtain ⟨entry, hentry, hstate⟩ := ht
  exact ⟨entry, h.getElem? hentry, hstate⟩

/-- What is read now is of the last entry. -/
lemma Primary.Current.read_turn {p : Primary} (h : p.Current sha256 ids)
    (hne : p.engine.log.entries ≠ []) (idx : ℕ) :
    (p.engine.turn idx).idx + 1 = p.engine.log.entries.length ∧ p.Read (p.engine.turn idx) := by
  have hlast := getLast?_eq_some_getLast hne
  have hlen := length_pos_iff.mpr hne
  have hget : p.engine.log.entries[p.engine.log.entries.length - 1]? =
      some (p.engine.log.entries.getLast hne) := by
    rw [← getLast?_eq_getElem?, hlast]
  have hidx : (p.engine.turn idx).idx = p.engine.log.entries.length - 1 := by
    simp only [turn, lastIndex, hlast]
    exact h.index _ _ hget
  refine ⟨by omega, _, hidx ▸ hget, ?_⟩
  rw [← h.state _ hlast]
  rfl

theorem Primary.Current.step (h : p.Current sha256 ids)
    (hprogress : p.Progress sha256 p' old next) : p'.Current sha256 ids := by
  rcases hprogress.engine with hengine | ⟨last, ⟨a, hafter⟩, hentries, hindex, hpost⟩
  · refine ⟨?_, ?_, ?_⟩
    · exact hengine ▸ h.engine
    · exact hengine ▸ h.index
    · exact hengine ▸ h.state
  · refine ⟨?_, ?_, ?_⟩
    · obtain ⟨r, hreach, hr⟩ := h.engine
      refine ⟨r.step sha256 (.action a), hreach.tail (a := .action a) rfl, ?_⟩
      rw [hafter, ← hr]
      rfl
    · intro i entry hentry
      rw [hentries] at hentry
      by_cases hi : i < p.engine.log.entries.length
      · rw [getElem?_append_left hi] at hentry
        exact h.index i entry hentry
      · rw [getElem?_append_right (by omega)] at hentry
        obtain ⟨hlt, hget⟩ := List.getElem?_eq_some_iff.mp hentry
        simp only [length_singleton] at hlt
        obtain rfl : i = p.engine.log.entries.length := by omega
        rw [← hindex, ← hget]
        simp
    · intro entry hentry
      rw [hentries, getLast?_concat] at hentry
      cases hentry
      exact hpost.symm

lemma EntryLogged.ne_nil {e e' : GameEngine} {entry : HandLogEntry}
    (h : EntryLogged sha256 e e' entry) : e'.log.entries ≠ [] := by
  rw [h.2.1]
  simp

lemma Primary.Progress.ne_nil (h : p.Progress sha256 p' old next)
    (hne : p.engine.log.entries ≠ []) : p'.engine.log.entries ≠ [] := by
  rcases h.engine with hengine | ⟨_, hrecorded⟩
  · rwa [hengine]
  · exact hrecorded.ne_nil

/-- A step keeps what the turns are of. -/
theorem Primary.Reads.step {event : PrimaryEvent} (h : p.Reads sha256 ids)
    (hflag : ∀ i flag, event = .proceed i flag → ∀ handler ∈ p.handlers[i]?,
      handler.2.Dealing → flag = true) :
    (p.step sha256 event).Reads sha256 ids := by
  obtain ⟨hs₁, seq, old, next, hs₂, hhandlers, hhandlers', hprogress, -⟩ :=
    @Primary.step_progress sha256 p event hflag
  have hcurrent := h.toCurrent.step hprogress
  have hold : ∀ stage ∈ old, (seq, stage) ∈ p.handlers := by
    rintro stage ⟨⟩
    rw [hhandlers]
    simp
  have hstarted : (p.step sha256 event).handlers ≠ [] →
      (p.step sha256 event).engine.log.entries ≠ [] := by
    intro hne
    cases old with
    | some stage => exact hprogress.ne_nil (h.started (ne_nil_of_mem (hold stage rfl)))
    | none =>
      rcases hprogress.fresh rfl with rfl | ⟨entry, hrecorded⟩
      · rw [hhandlers', ← hhandlers] at hne
        exact hprogress.ne_nil (h.started hne)
      · exact hrecorded.ne_nil
  have hread : ∀ stage ∈ old, ∀ t, stage.turn? = some t → (p.step sha256 event).Read t :=
    fun stage hstage t ht => hprogress.read (h.turns _ (hold stage hstage) t ht)
  refine ⟨hcurrent, hstarted, ?_, ?_⟩
  · intro handler hhandler t ht
    have hne := hstarted (ne_nil_of_mem hhandler)
    rw [hhandlers'] at hhandler
    rcases mem_handlers_next.mp hhandler with hother | ⟨stage, hstage, rfl⟩
    · refine hprogress.read (h.turns handler ?_ t ht)
      rw [hhandlers]
      exact mem_handlers_next.mpr (Or.inl hother)
    · rcases hprogress.turns stage hstage t ht with ⟨stage', hstage', ht'⟩ | ⟨idx, rfl⟩
      · exact hread stage' hstage' t ht'
      · exact (hcurrent.read_turn hne idx).2
  · intro t ht
    rcases hprogress.diffs t ht with hdiff | ⟨stage, hstage, hturn⟩ | ⟨idx, entry, hrecorded, rfl⟩
    · exact hprogress.read (h.diffs t hdiff)
    · exact hread stage hstage t hturn
    · exact (hcurrent.read_turn hrecorded.ne_nil idx).2

/-! ### What has yet to be delivered -/

/-- A diff of the entry is on its way or has yet to be published, or a handler deals on. -/
def Primary.Pending (p : Primary) (i : ℕ) : Prop :=
  (∃ t ∈ p.diffs, t.idx = i) ∨ ∃ handler ∈ p.handlers, handler.2.Dealing ∨
    ∃ t, handler.2.unpublished = some t ∧ t.idx = i

/-- After a step an entry is still pending, unless it is a handler that deals on; a new entry is
pending. -/
lemma Primary.Reads.pending {event : PrimaryEvent} (h : p.Reads sha256 ids)
    (hflag : ∀ i flag, event = .proceed i flag → ∀ handler ∈ p.handlers[i]?,
      handler.2.Dealing → flag = true) {i : ℕ}
    (hi : i < (p.step sha256 event).engine.log.entries.length)
    (hpending : i < p.engine.log.entries.length → p.Pending i) :
    (p.step sha256 event).Pending i ∨
      (i < p.engine.log.entries.length ∧ ∃ j flag, event = .proceed j flag ∧
        ∃ handler ∈ p.handlers[j]?, handler.2.Dealing) := by
  obtain ⟨hs₁, seq, old, next, hs₂, hhandlers, hhandlers', hprogress, hacts⟩ :=
    @Primary.step_progress sha256 p event hflag
  have hcurrent := h.toCurrent.step hprogress
  by_cases hold : i < p.engine.log.entries.length
  · rcases hpending hold with ⟨t, ht, rfl⟩ | ⟨handler, hhandler, hstage⟩
    · exact Or.inl (Or.inl ⟨t, hprogress.keep ht, rfl⟩)
    · rw [hhandlers] at hhandler
      rcases mem_handlers_next.mp hhandler with hother | ⟨stage, hmem, rfl⟩
      · left; right
        refine ⟨handler, ?_, hstage⟩
        rw [hhandlers']
        exact mem_handlers_next.mpr (Or.inl hother)
      · rcases hstage with hdealing | ⟨t, ht, rfl⟩
        · obtain ⟨j, flag, rfl, hj⟩ := hacts stage hmem
          exact Or.inr ⟨hold, j, flag, rfl, _, hj, hdealing⟩
        · left
          rcases hprogress.unpublished stage hmem t ht with hdiff | ⟨stage', hnext, hstill⟩
          · exact Or.inl ⟨t, hdiff, rfl⟩
          · refine Or.inr ⟨(seq, stage'), ?_, Or.inr ⟨t, hstill, rfl⟩⟩
            rw [hhandlers']
            exact mem_handlers_next.mpr (Or.inr ⟨stage', hnext, rfl⟩)
  · left
    rcases hprogress.engine with hengine | ⟨entry, hrecorded⟩
    · rw [hengine] at hi
      exact absurd hi hold
    · have hidx : ∀ idx, ((p.step sha256 event).engine.turn idx).idx = i := by
        intro idx
        have hlast := (hcurrent.read_turn hrecorded.ne_nil idx).1
        rw [hrecorded.2.1, length_append, length_singleton] at hlast hi
        omega
      rcases hprogress.recorded entry hrecorded with
        ⟨idx, hdiff⟩ | ⟨stage, hnext, hdealing | ⟨idx, hturn⟩⟩
      · exact Or.inl ⟨_, hdiff, hidx idx⟩
      · refine Or.inr ⟨(seq, stage), ?_, Or.inl hdealing⟩
        rw [hhandlers']
        exact mem_handlers_next.mpr (Or.inr ⟨stage, hnext, rfl⟩)
      · refine Or.inr ⟨(seq, stage), ?_, Or.inr ⟨_, hturn, hidx idx⟩⟩
        rw [hhandlers']
        exact mem_handlers_next.mpr (Or.inr ⟨stage, hnext, rfl⟩)

end Progress

/-! ### The snapshot and the log of the follower -/

/-- The value is the entry with its state, or with what is public of it. -/
def HandLogEntry.Shows (entry : HandLogEntry) (v : Json) : Prop :=
  v = entry.stateJson ∨ v = entry.publicJson

/-- A snapshot that is on its way; what it does not have is pending. -/
structure Replication.Taken (r : Replication) (states : List Json) : Prop where
  shown : ∀ (i : ℕ) (v : Json), states[i]? = some v →
    ∃ entry, r.entries[i]? = some entry ∧ v = entry.stateJson
  covered : ∀ i < r.entries.length, i < states.length ∨ r.primary.Pending i

/-- The log has entries of the hand log, and what it does not have is pending. -/
structure Replication.Delivered (r : Replication) (states : List Json) : Prop where
  slots : ∀ (i : ℕ) (v : Json), r.follower.log[i]? = some v → v = .undefined ∨
    ∃ entry, r.entries[i]? = some entry ∧ entry.Shows v
  filled : ∀ i < states.length, ∃ v, r.follower.log[i]? = some v ∧ v ≠ .undefined
  covered : ∀ i < r.entries.length,
    (∃ v, r.follower.log[i]? = some v ∧ v ≠ .undefined) ∨ r.primary.Pending i
  length : r.follower.log.length ≤ r.entries.length
  current : ∀ v ∈ r.follower.log.getLast?, (v ≠ .undefined ∧ r.follower.current = v.index 1) ∨
    ∃ t ∈ r.primary.diffs, r.follower.log.length ≤ t.idx + 1
  saved : r.follower.persist = r.follower

def Replication.Synced (sha256 : List UInt8 → List UInt8) (ids : List PlayerId) (r : Replication) :
    Prop :=
  r.primary.Reads sha256 ids ∧
    match r.snapshot with
    | .due => True
    | .taken states => r.Taken states
    | .delivered states => r.Delivered states

section Sync

variable {sha256 : List UInt8 → List UInt8} {ids : List PlayerId} {r : Replication}
  {states : List Json}

lemma HandLogEntry.Shows.ne {entry : HandLogEntry} {v : Json} (h : entry.Shows v) :
    v ≠ .undefined := by
  rcases h with rfl | rfl
  · exact fun h => nomatch h
  · exact fun h => nomatch h

/-- A step of the primary. -/
lemma Replication.Synced.primary {event : PrimaryEvent} (h : r.Synced sha256 ids)
    (hok : r.Agreeable (.primary event)) :
    Replication.Synced sha256 ids { r with primary := r.primary.step sha256 event } := by
  have hflag : ∀ i flag, event = .proceed i flag → ∀ handler ∈ r.primary.handlers[i]?,
      handler.2.Dealing → flag = true := by
    rintro i flag rfl handler hhandler hdealing
    exact (hok handler hhandler hdealing).1
  have hcovered : ∀ j flag, event = .proceed j flag → (∃ handler ∈ r.primary.handlers[j]?,
      handler.2.Dealing) → r.Covered := by
    rintro j flag rfl ⟨handler, hhandler, hdealing⟩
    exact (hok handler hhandler hdealing).2
  obtain ⟨hreads, hsnapshot⟩ := h
  have hentries : ∀ {i : ℕ} {entry : HandLogEntry}, r.entries[i]? = some entry →
      (r.primary.step sha256 event).engine.log.entries[i]? = some entry := by
    obtain ⟨_, _, _, _, _, _, _, hprogress, _⟩ :=
      @Primary.step_progress sha256 r.primary event hflag
    exact hprogress.getElem?
  -- what has yet to be published still has, unless all of it is covered
  have hstays : ∀ {i : ℕ}, i < (r.primary.step sha256 event).engine.log.entries.length →
      (i < r.entries.length → r.primary.Pending i) →
      (r.primary.step sha256 event).Pending i ∨ (i < r.entries.length ∧ r.Covered) := by
    intro i hi hpending
    rcases hreads.pending hflag hi hpending with hstill | ⟨hold, j, flag, hevent, hdealing⟩
    · exact Or.inl hstill
    · exact Or.inr ⟨hold, hcovered j flag hevent hdealing⟩
  refine ⟨hreads.step hflag, ?_⟩
  dsimp only
  cases hstage : r.snapshot with
  | due => trivial
  | taken states =>
    rw [hstage] at hsnapshot
    refine ⟨?_, ?_⟩
    · intro i v hv
      obtain ⟨entry, hentry, rfl⟩ := hsnapshot.shown i v hv
      exact ⟨entry, hentries hentry, rfl⟩
    · intro i hi
      by_cases hin : i < states.length
      · exact Or.inl hin
      · right
        have hpending : i < r.entries.length → r.primary.Pending i :=
          fun hold => (hsnapshot.covered i hold).resolve_left hin
        rcases hstays hi hpending with hstill | ⟨hold, hall⟩
        · exact hstill
        · rw [Covered, hstage] at hall
          exact absurd (lt_of_lt_of_le hold hall) hin
  | delivered states =>
    rw [hstage] at hsnapshot
    obtain ⟨_, _, _, _, _, _, _, hprogress, _⟩ :=
      @Primary.step_progress sha256 r.primary event hflag
    refine ⟨?_, hsnapshot.filled, ?_, ?_, ?_, hsnapshot.saved⟩
    · intro i v hv
      rcases hsnapshot.slots i v hv with hhole | ⟨entry, hentry, hshows⟩
      · exact Or.inl hhole
      · exact Or.inr ⟨entry, hentries hentry, hshows⟩
    · intro i hi
      by_cases hin : ∃ v, r.follower.log[i]? = some v ∧ v ≠ .undefined
      · exact Or.inl hin
      · right
        have hpending : i < r.entries.length → r.primary.Pending i :=
          fun hold => (hsnapshot.covered i hold).resolve_left hin
        rcases hstays hi hpending with hstill | ⟨hold, hall⟩
        · exact hstill
        · rw [Covered, hstage] at hall
          exact absurd (hsnapshot.filled i (lt_of_lt_of_le hold hall)) hin
    · refine hsnapshot.length.trans ?_
      rcases hprogress.engine with hengine | ⟨entry, hrecorded⟩
      · exact (congrArg (fun e : GameEngine => e.log.entries.length) hengine).ge
      · show r.entries.length ≤ (r.primary.step sha256 event).engine.log.entries.length
        rw [hrecorded.2.1, length_append]
        exact Nat.le_add_right _ _
    · intro v hv
      rcases hsnapshot.current v hv with hlast | ⟨t, ht, hle⟩
      · exact Or.inl hlast
      · exact Or.inr ⟨t, hprogress.keep ht, hle⟩

/-- The snapshot arrives. -/
lemma Replication.Taken.deliver (h : r.Taken states) :
    Replication.Delivered
      { r with snapshot := .delivered states, follower := r.follower.onSnapshot states } states := by
  have hfilled : ∀ i < states.length, ∃ v, states[i]? = some v ∧ v ≠ .undefined := by
    intro i hi
    obtain ⟨entry, -, hstate⟩ := h.shown i _ (getElem?_eq_getElem hi)
    exact ⟨_, getElem?_eq_getElem hi, hstate ▸ fun h => nomatch h⟩
  refine ⟨?_, hfilled, ?_, ?_, ?_, rfl⟩
  · intro i v hv
    obtain ⟨entry, hentry, hstate⟩ := h.shown i v hv
    exact Or.inr ⟨entry, hentry, Or.inl hstate⟩
  · intro i hi
    exact (h.covered i hi).imp_left (hfilled i)
  · show states.length ≤ r.entries.length
    by_contra hlt
    obtain ⟨v, hv, -⟩ := hfilled r.entries.length (by omega)
    obtain ⟨entry, hentry, -⟩ := h.shown _ v hv
    simp at hentry
  · intro v hv
    have hlast : states.getLast? = some v := hv
    left
    refine ⟨?_, ?_⟩
    · rw [getLast?_eq_getElem?] at hlast
      obtain ⟨entry, -, rfl⟩ := h.shown _ v hlast
      exact fun h => nomatch h
    · simp only [Follower.onSnapshot, hlast]
      rfl

/-- What is public of a public state. -/
lemma publicJson_publicView (s : GameStateInternal) : s.publicView.publicJson = s.publicJson := by
  simp [GameStateInternal.publicJson, GameStateInternal.publicView]

/-- A diff of an entry writes the entry. -/
lemma Primary.Read.diff {p : Primary} {t : Turn} (h : p.Read t) (hreads : p.Reads sha256 ids) :
    ∃ entry, p.engine.log.entries[t.idx]? = some entry ∧
      entry.Shows (.array [.number t.idx, t.state.publicJson]) := by
  obtain ⟨entry, hentry, hstate⟩ := h
  refine ⟨entry, hentry, Or.inr ?_⟩
  rw [hstate, publicJson_publicView, HandLogEntry.publicJson, hreads.index _ _ hentry]

/-- What is pending when a diff has been delivered. -/
lemma Primary.Pending.deliver {p : Primary} {i j : ℕ} {t : Turn} (h : p.Pending j)
    (ht : p.diffs[i]? = some t) :
    t.idx = j ∨ Primary.Pending { p with diffs := p.diffs.eraseIdx i } j := by
  rcases h with ⟨t', ht', rfl⟩ | hhandler
  · obtain ⟨hi, hget⟩ := List.getElem?_eq_some_iff.mp ht
    have hperm := getElem_cons_eraseIdx_perm hi
    rcases mem_cons.mp (hperm.symm.subset ht') with rfl | hrest
    · exact Or.inl (congrArg Turn.idx hget.symm)
    · exact Or.inr (Or.inl ⟨t', hrest, rfl⟩)
  · exact Or.inr (Or.inr hhandler)

/-- A diff arrives after the snapshot. -/
lemma Replication.Delivered.diff {i : ℕ} {t : Turn} {stage : Snapshot} (h : r.Delivered states)
    (hreads : r.primary.Reads sha256 ids) (ht : r.primary.diffs[i]? = some t)
    (hok : ∃ t' ∈ r.primary.diffs, r.follower.log.length ≤ t'.idx + 1) :
    Replication.Delivered
      { primary := { r.primary with diffs := r.primary.diffs.eraseIdx i }, snapshot := stage,
        follower := r.follower.onDiff t.diff } states := by
  obtain ⟨entry, hentry, hshows⟩ := (hreads.diffs t (mem_of_getElem? ht)).diff hreads
  have hidx : t.idx < r.entries.length := (List.getElem?_eq_some_iff.mp hentry).1
  have hother {j : ℕ} (hj : j ≠ t.idx) := @getElem?_assign_of_ne r.follower.log t.idx
    (.array [.number t.idx, t.state.publicJson]) j hj
  have hwrite : ∀ (j : ℕ) (v : Json), r.follower.log[j]? = some v → v ≠ .undefined →
      ∃ v, (assign r.follower.log t.idx (.array [.number t.idx, t.state.publicJson]))[j]? =
        some v ∧ v ≠ .undefined := by
    intro j v hv hne
    by_cases hj : j = t.idx
    · subst hj
      exact ⟨_, getElem?_assign_self, hshows.ne⟩
    · rcases hother hj with hsame | ⟨hnone, -⟩ | ⟨hnone, -⟩
      · exact ⟨v, hsame.trans hv, hne⟩
      · rw [hnone] at hv
        cases hv
      · rw [hnone] at hv
        cases hv
  rw [Follower.onDiff_diff]
  refine ⟨?_, ?_, ?_, ?_, ?_, rfl⟩
  · intro j v hv
    by_cases hj : j = t.idx
    · subst hj
      have hself : some v = some _ := hv.symm.trans getElem?_assign_self
      cases hself
      exact Or.inr ⟨entry, hentry, hshows⟩
    · rcases hother hj with hsame | ⟨-, hhole⟩ | ⟨-, hnone⟩
      · exact h.slots j v (hsame.symm.trans hv)
      · exact Or.inl (Option.some.inj (hv.symm.trans hhole))
      · cases hv.symm.trans hnone
  · intro j hj
    obtain ⟨v, hv, hne⟩ := h.filled j hj
    exact hwrite j v hv hne
  · intro j hj
    rcases h.covered j hj with ⟨v, hv, hne⟩ | hpending
    · exact Or.inl (hwrite j v hv hne)
    · rcases hpending.deliver ht with rfl | hstill
      · exact Or.inl ⟨_, getElem?_assign_self, hshows.ne⟩
      · exact Or.inr hstill
  · have hlength := h.length
    show (assign r.follower.log t.idx _).length ≤ r.entries.length
    rw [length_assign]
    omega
  · intro v hv
    have hlast : (assign r.follower.log t.idx
        (.array [.number t.idx, t.state.publicJson])).getLast? = some v := hv
    by_cases hnew : r.follower.log.length ≤ t.idx + 1
    · left
      rw [getLast?_eq_getElem?, length_assign, max_eq_right hnew, Nat.add_sub_cancel,
        getElem?_assign_self] at hlast
      cases hlast
      exact ⟨hshows.ne, rfl⟩
    · right
      obtain ⟨t', ht', hle⟩ := hok
      obtain ⟨hi, hget⟩ := List.getElem?_eq_some_iff.mp ht
      have hperm := getElem_cons_eraseIdx_perm hi
      rcases mem_cons.mp (hperm.symm.subset ht') with rfl | hrest
      · rw [hget] at hle
        exact absurd hle hnew
      · refine ⟨t', hrest, ?_⟩
        show (assign r.follower.log t.idx _).length ≤ t'.idx + 1
        rw [length_assign]
        omega

/-- A delivery leaves the hand log and the turns of the handlers alone. -/
lemma Primary.Reads.deliver {p : Primary} (h : p.Reads sha256 ids) (i : ℕ) :
    Primary.Reads sha256 ids { p with diffs := p.diffs.eraseIdx i } :=
  ⟨⟨h.engine, h.index, h.state⟩, h.started, h.turns,
    fun t ht => h.diffs t (mem_of_mem_eraseIdx ht)⟩

/-- Agreeable steps keep the parties in sync. -/
theorem Replication.Synced.step {event : ReplicationEvent} (h : r.Synced sha256 ids)
    (hok : r.Agreeable event) : (r.step sha256 event).Synced sha256 ids := by
  cases event with
  | primary event => exact h.primary hok
  | take =>
    obtain ⟨hreads, hsnapshot⟩ := h
    simp only [Replication.step, Replication.take]
    split
    · refine ⟨hreads, ?_, ?_⟩
      · intro i v hv
        obtain ⟨entry, hentry, rfl⟩ := Option.map_eq_some_iff.mp (getElem?_map ▸ hv)
        exact ⟨entry, hentry, rfl⟩
      · intro i hi
        left
        rwa [Primary.states, length_map]
    · exact ⟨hreads, hsnapshot⟩
  | snapshot =>
    obtain ⟨hreads, hsnapshot⟩ := h
    simp only [Replication.step, Replication.deliverSnapshot]
    split
    · rename_i states hstage
      rw [hstage] at hsnapshot
      exact ⟨hreads, hsnapshot.deliver⟩
    · exact ⟨hreads, hsnapshot⟩
  | diff i =>
    obtain ⟨hreads, hsnapshot⟩ := h
    simp only [Replication.step, Replication.deliverDiff]
    cases ht : r.primary.diffs[i]? with
    | none => exact ⟨hreads, hsnapshot⟩
    | some t =>
      have horder := hok t ht
      refine ⟨hreads.deliver i, ?_⟩
      dsimp only
      cases hstage : r.snapshot with
      | due => trivial
      | taken states =>
        rw [hstage] at hsnapshot
        rw [InOrder, hstage] at horder
        refine ⟨hsnapshot.shown, fun j hj => ?_⟩
        rcases hsnapshot.covered j hj with hin | hpending
        · exact Or.inl hin
        · rcases hpending.deliver ht with rfl | hstill
          · exact Or.inl horder
          · exact Or.inr hstill
      | delivered states =>
        rw [hstage] at hsnapshot
        rw [InOrder, hstage] at horder
        exact hsnapshot.diff hreads ht horder

/-- When everything has arrived, the log is the hand log. -/
lemma Replication.Delivered.shows (h : r.Delivered states) (hdiffs : r.primary.diffs = [])
    (hhandlers : r.primary.handlers = []) :
    Forall₂ (fun v (entry : HandLogEntry) => entry.Shows v) r.follower.log r.entries := by
  have hslot : ∀ i < r.entries.length, ∃ v, r.follower.log[i]? = some v ∧ v ≠ .undefined := by
    intro i hi
    refine (h.covered i hi).resolve_right ?_
    rintro (⟨t, ht, -⟩ | ⟨handler, hhandler, -⟩)
    · rw [hdiffs] at ht
      cases ht
    · rw [hhandlers] at hhandler
      cases hhandler
  have hlength : r.follower.log.length = r.entries.length := by
    refine Nat.le_antisymm h.length (Nat.le_of_not_lt fun hlt => ?_)
    obtain ⟨v, hv, -⟩ := hslot _ hlt
    simp at hv
  refine forall₂_of_length_eq_of_get hlength fun i h₁ h₂ => ?_
  obtain ⟨v, hv, hne⟩ := hslot i h₂
  rcases h.slots i v hv with hhole | ⟨entry, hentry, hshows⟩
  · exact absurd hhole hne
  · obtain ⟨_, rfl⟩ := List.getElem?_eq_some_iff.mp hv
    obtain ⟨_, rfl⟩ := List.getElem?_eq_some_iff.mp hentry
    exact hshows

/-- What shows entries is what a restart reads. -/
lemma written_of_shows {entry : HandLogEntry} {v : Json} (h : entry.Shows v)
    (hcards : entry.postState.CardsDefined) : written v = v := by
  rcases h with rfl | rfl
  · exact (written_entry_stateJson entry).mpr hcards
  · exact written_entry_publicJson entry

lemma map_written_of_shows {vs : List Json} {entries : List HandLogEntry}
    (h : Forall₂ (fun v (entry : HandLogEntry) => entry.Shows v) vs entries)
    (hcards : ∀ entry ∈ entries, entry.postState.CardsDefined) : vs.map written = vs := by
  induction h with
  | nil => rfl
  | cons hv _ ih =>
    rw [map_cons, written_of_shows hv (hcards _ mem_cons_self),
      ih fun entry hentry => hcards entry (mem_cons_of_mem _ hentry)]

/-- The current state is that of the last entry. -/
lemma Replication.Delivered.newest (h : r.Delivered states) (hdiffs : r.primary.diffs = [])
    (hshows : Forall₂ (fun v (entry : HandLogEntry) => entry.Shows v) r.follower.log r.entries)
    (hne : r.entries ≠ []) : ∃ entry ∈ r.entries.getLast?,
      r.follower.current = entry.postState.toJson ∨
        r.follower.current = entry.postState.publicJson := by
  have hlength := hshows.length_eq
  have hlast := getLast?_eq_some_getLast hne
  have hpos := length_pos_iff.mpr hne
  obtain ⟨v, hv⟩ : ∃ v, r.follower.log.getLast? = some v := by
    refine ⟨_, getLast?_eq_some_getLast (length_pos_iff.mp ?_)⟩
    omega
  refine ⟨_, hlast, ?_⟩
  have hcurrent : v ≠ .undefined ∧ r.follower.current = v.index 1 := by
    rcases h.current v hv with hlast | ⟨t, ht, -⟩
    · exact hlast
    · rw [hdiffs] at ht
      cases ht
  rw [getLast?_eq_getElem?] at hv hlast
  rcases h.slots _ v hv with hhole | ⟨entry, hentry, hshow⟩
  · exact absurd hhole hcurrent.1
  · rw [hlength, hlast] at hentry
    cases hentry
    rw [hcurrent.2]
    rcases hshow with rfl | rfl
    · exact Or.inl rfl
    · exact Or.inr rfl

end Sync

/-! ### Two runs -/

instance : (stage : Snapshot) → Decidable stage.Arrived
  | .due => isFalse id
  | .taken _ => isFalse id
  | .delivered _ => isTrue trivial

instance : (stage : Handling) → Decidable stage.Dealing
  | .dealt => isTrue trivial
  | .advance => isTrue trivial
  | .reserve _ => isFalse id
  | .publish _ _ => isFalse id
  | .settle _ _ => isFalse id
  | .commit _ _ => isFalse id
  | .answer _ => isFalse id

instance : (r : Replication) → Decidable r.Covered
  | ⟨_, .due, _⟩ => isTrue trivial
  | ⟨p, .taken states, _⟩ =>
    inferInstanceAs (Decidable (p.engine.log.entries.length ≤ states.length))
  | ⟨p, .delivered states, _⟩ =>
    inferInstanceAs (Decidable (p.engine.log.entries.length ≤ states.length))

instance : (r : Replication) → (t : Turn) → Decidable (r.InOrder t)
  | ⟨_, .due, _⟩, _ => isTrue trivial
  | ⟨_, .taken states, _⟩, t => inferInstanceAs (Decidable (t.idx < states.length))
  | ⟨p, .delivered _, f⟩, _ =>
    inferInstanceAs (Decidable (∃ t' ∈ p.diffs, f.log.length ≤ t'.idx + 1))

instance (r : Replication) : (event : ReplicationEvent) → Decidable (r.Agreeable event)
  | .primary (.proceed i flag) =>
    inferInstanceAs (Decidable (∀ handler ∈ r.primary.handlers[i]?, handler.2.Dealing →
      flag = true ∧ r.Covered))
  | .primary (.receive _ _ _ _) => isTrue trivial
  | .take => isTrue trivial
  | .snapshot => isTrue trivial
  | .diff i => inferInstanceAs (Decidable (∀ t ∈ r.primary.diffs[i]?, r.InOrder t))

/-- A snapshot of a new hand, some messages, and their diffs in order. -/
def replicated (messages : List PrimaryEvent) (diffs : ℕ) : Replication :=
  let events : List ReplicationEvent :=
    [.take, .snapshot] ++ messages.map .primary ++ replicate diffs (.diff 0)
  events.foldl (Replication.step zeroSeedHash) { primary := newPrimary, follower := {} }

/-- One blind. -/
def blindReplicated : Replication :=
  replicated (applied 1 (.postBlind "p1" 1) 5) 1

/-- Two blinds, and the deal that follows them. -/
def dealReplicated : Replication :=
  replicated (applied 1 (.postBlind "p1" 1) 5 ++ applied 2 (.postBlind "p2" 2) 7) 2

end Pokerhub
