import Mathlib.Algebra.Order.Group.Nat
import Mathlib.Data.List.Nodup
import Pokerhub.Core.Transition

/-!
# Reviews of the audit log

`addAuditLog` and `markAuditLogReviewed` of `analytics.service.ts` without ClickHouse. A review
reads the list and writes back by index, and an addition in between shifts the indices. Where no
addition comes in between, the list is what was added, and reviewed is what was marked
(`nothingLost_of_quiet`).
-/

namespace Pokerhub

open List TransitionSystem

structure AuditLog where
  id : String
  timestamp : String
  type : String
  description : String
  user : String
  ip : String
  reviewed : Bool
  reviewedBy : Option String
  reviewedAt : Option String
  deriving DecidableEq

/-- What an addition gets from its caller. -/
structure AuditEntry where
  type : String
  description : String
  user : String
  ip : Option String
  deriving DecidableEq

/-- The record that `addAuditLog` makes of an entry. -/
def AuditEntry.toLog (entry : AuditEntry) (id timestamp : String) : AuditLog where
  id := id
  timestamp := timestamp
  type := entry.type
  description := entry.description
  user := entry.user
  ip := entry.ip.getD ""
  reviewed := false
  reviewedBy := none
  reviewedAt := none

namespace AuditLog

/-- The record that a review writes. -/
def review (log : AuditLog) (adminId reviewedAt : String) : AuditLog :=
  { log with reviewed := true, reviewedBy := some adminId, reviewedAt := some reviewedAt }

/-- The record without its review. -/
def content (log : AuditLog) : AuditLog :=
  { log with reviewed := false, reviewedBy := none, reviewedAt := none }

@[simp] lemma content_review (log : AuditLog) (adminId reviewedAt : String) :
    (log.review adminId reviewedAt).content = log.content := rfl

@[simp] lemma id_review (log : AuditLog) (adminId reviewedAt : String) :
    (log.review adminId reviewedAt).id = log.id := rfl

@[simp] lemma id_content (log : AuditLog) : log.content.id = log.id := rfl

@[simp] lemma content_toLog (entry : AuditEntry) (id timestamp : String) :
    (entry.toLog id timestamp).content = entry.toLog id timestamp := rfl

@[simp] lemma id_toLog (entry : AuditEntry) (id timestamp : String) :
    (entry.toLog id timestamp).id = id := rfl

end AuditLog

/-- A review between its `lrange` and its `lset`. -/
structure AuditReview where
  index : ℕ
  merged : AuditLog
  deriving DecidableEq

structure AuditStore where
  /-- The list `audit-logs`, the newest entry first. -/
  logs : List AuditLog := []
  reviews : List AuditReview := []
  /-- What `addAuditLog` has pushed, the newest entry first. -/
  added : List AuditLog := []
  /-- The records that the successful reviews have returned. -/
  returned : List AuditLog := []
  deriving DecidableEq

inductive AuditEvent where
  /-- `addAuditLog` up to its `lpush`. -/
  | push (entry : AuditEntry) (id timestamp : String)
  /-- The `ltrim` of an addition. -/
  | trim
  /-- `markAuditLogReviewed` up to its `lrange`, and to the end when the id is not found. -/
  | read (id adminId reviewedAt : String)
  /-- The `lset` of a review. -/
  | write (i : ℕ)
  deriving DecidableEq

namespace AuditStore

def step (s : AuditStore) : AuditEvent → AuditStore
  | .push entry id timestamp =>
    let log := entry.toLog id timestamp
    { s with logs := log :: s.logs, added := log :: s.added }
  | .trim => { s with logs := s.logs.take 1000 }
  | .read id adminId reviewedAt =>
    match s.logs.zipIdx.find? fun e => e.1.id == id with
    | none => s
    | some (log, index) =>
      { s with reviews := s.reviews ++ [⟨index, log.review adminId reviewedAt⟩] }
  | .write i =>
    match s.reviews[i]? with
    | none => s
    | some review =>
      { s with
        logs := s.logs.set review.index review.merged
        reviews := s.reviews.eraseIdx i
        returned := review.merged :: s.returned }

/-- A random id is new, and the list is below its cap. -/
def Guard (s : AuditStore) : AuditEvent → Prop
  | .push _ id _ => id ∉ s.added.map (·.id) ∧ s.logs.length < 1000
  | _ => True

/-- Nothing is pushed while a review is between its read and its write. -/
def Quiet (s : AuditStore) : AuditEvent → Prop
  | .push .. => s.reviews = []
  | _ => True

instance (s : AuditStore) (event : AuditEvent) : Decidable (s.Guard event) :=
  match event with
  | .push .. => inferInstanceAs (Decidable (_ ∧ _))
  | .trim | .read .. | .write _ => isTrue trivial

instance (s : AuditStore) (event : AuditEvent) : Decidable (s.Quiet event) :=
  match event with
  | .push .. => inferInstanceAs (Decidable (s.reviews = []))
  | .trim | .read .. | .write _ => isTrue trivial

/-- Every added entry is there once and with its own content, nothing else is there, and what is
reviewed is what a successful review was for. -/
structure NothingLost (s : AuditStore) : Prop where
  ids : (s.added.map (·.id)).Nodup
  contents : s.logs.map (·.content) = s.added
  reviewed : ∀ log ∈ s.logs, log.reviewed = true ↔ ∃ r ∈ s.returned, r.id = log.id

end AuditStore

/-- The runs of additions and reviews, from an empty list. -/
def auditRuns : TransitionSystem AuditStore AuditEvent where
  init s := s = {}
  step s event s' := s.Guard event ∧ s' = s.step event

namespace AuditStore

/-! ### Between the read and the write -/

/-- What a review writes is what stands at its index. -/
def Pending (s : AuditStore) (review : AuditReview) : Prop :=
  review.merged.reviewed = true ∧
    ∃ log, s.logs[review.index]? = some log ∧ log.content = review.merged.content

structure Kept (s : AuditStore) : Prop where
  nothingLost : s.NothingLost
  cap : s.logs.length ≤ 1000
  pending : ∀ review ∈ s.reviews, s.Pending review
  returned : ∀ r ∈ s.returned, r.id ∈ s.added.map (·.id)

section Step

variable {s : AuditStore}

lemma NothingLost.map_id (h : s.NothingLost) : s.logs.map (·.id) = s.added.map (·.id) := by
  rw [← h.contents, map_map]
  rfl

/-- A write puts the content back that was there. -/
lemma map_content_set {logs : List AuditLog} {i : ℕ} {log merged : AuditLog}
    (hlog : logs[i]? = some log) (hcontent : log.content = merged.content) :
    (logs.set i merged).map (·.content) = logs.map (·.content) := by
  obtain ⟨hlt, rfl⟩ := List.getElem?_eq_some_iff.mp hlog
  rw [map_set, ← hcontent]
  refine ext_getElem (by simp) fun k _ _ => ?_
  rw [getElem_set]
  split_ifs with hik
  · subst hik
    simp
  · rfl

/-- A new entry is not reviewed. -/
lemma NothingLost.push (h : s.NothingLost) {entry : AuditEntry} {id timestamp : String}
    (hfresh : id ∉ s.added.map (·.id))
    (hreturned : ∀ r ∈ s.returned, r.id ∈ s.added.map (·.id)) :
    (s.step (.push entry id timestamp)).NothingLost where
  ids := nodup_cons.mpr ⟨hfresh, h.ids⟩
  contents := by simp [step, h.contents]
  reviewed := by
    intro log hlog
    rcases mem_cons.mp hlog with rfl | hlog
    · refine iff_of_false (by simp [AuditEntry.toLog]) ?_
      rintro ⟨r, hr, hid⟩
      rw [AuditLog.id_toLog] at hid
      exact hfresh (hid ▸ hreturned r hr)
    · exact h.reviewed log hlog

/-- A write marks one entry. -/
lemma NothingLost.write (h : s.NothingLost) {i : ℕ} {review : AuditReview}
    (hreview : s.reviews[i]? = some review) (hpending : s.Pending review) :
    (s.step (.write i)).NothingLost := by
  obtain ⟨hmarked, log, hlog, hcontent⟩ := hpending
  have hstep : s.step (.write i) =
      { s with
        logs := s.logs.set review.index review.merged
        reviews := s.reviews.eraseIdx i
        returned := review.merged :: s.returned } := by
    simp [step, hreview]
  have hcontents : (s.logs.set review.index review.merged).map (·.content) = s.added :=
    (map_content_set hlog hcontent).trans h.contents
  rw [hstep]
  refine ⟨h.ids, hcontents, fun l hl => ?_⟩
  have hmerged : review.merged ∈ s.logs.set review.index review.merged :=
    mem_set (List.getElem?_eq_some_iff.mp hlog).1 _
  have hids : ((s.logs.set review.index review.merged).map (·.id)).Nodup := by
    have hmap := congrArg (map fun l : AuditLog => l.id) hcontents
    rw [map_map] at hmap
    exact hmap ▸ h.ids
  by_cases hid : review.merged.id = l.id
  · obtain rfl := inj_on_of_nodup_map hids hmerged hl hid
    exact iff_of_true hmarked ⟨_, mem_cons_self, rfl⟩
  · rcases mem_or_eq_of_mem_set hl with hold | rfl
    · rw [h.reviewed l hold]
      constructor
      · rintro ⟨r, hr, hrid⟩
        exact ⟨r, mem_cons_of_mem _ hr, hrid⟩
      · rintro ⟨r, hr, hrid⟩
        rcases mem_cons.mp hr with rfl | hr
        · exact absurd hrid hid
        · exact ⟨r, hr, hrid⟩
    · exact absurd rfl hid

/-- A write puts nothing else at the index of another review. -/
lemma Pending.write {i : ℕ} {review other : AuditReview}
    (hreview : s.reviews[i]? = some review) (hpending : s.Pending review)
    (hother : s.Pending other) : (s.step (.write i)).Pending other := by
  obtain ⟨hmarked, log, hlog, hcontent⟩ := hpending
  obtain ⟨hmarked', log', hlog', hcontent'⟩ := hother
  refine ⟨hmarked', ?_⟩
  simp only [step, hreview, getElem?_set]
  split_ifs with hsame hlt
  · rw [hsame] at hlog
    obtain rfl := Option.some.inj (hlog.symm.trans hlog')
    exact ⟨_, rfl, hcontent.symm.trans hcontent'⟩
  · exact absurd (List.getElem?_eq_some_iff.mp hlog).1 hlt
  · exact ⟨log', hlog', hcontent'⟩

/-- A review finds the entry that it will mark. -/
lemma pending_of_find {id adminId reviewedAt : String} {log : AuditLog} {index : ℕ}
    (hfind : s.logs.zipIdx.find? (fun e => e.1.id == id) = some (log, index)) :
    s.Pending ⟨index, log.review adminId reviewedAt⟩ :=
  ⟨rfl, log, mem_zipIdx_iff_getElem?.mp (mem_of_find?_eq_some hfind), rfl⟩

/-- Every quiet step keeps the log. -/
theorem Kept.step (h : s.Kept) {event : AuditEvent} (hguard : s.Guard event)
    (hquiet : s.Quiet event) : (s.step event).Kept := by
  cases event with
  | push entry id timestamp =>
    obtain ⟨hfresh, hcap⟩ := hguard
    refine ⟨h.nothingLost.push hfresh h.returned, hcap, ?_, fun r hr => ?_⟩
    · have hnone : s.reviews = [] := hquiet
      simp [AuditStore.step, hnone]
    · exact mem_cons_of_mem _ (h.returned r hr)
  | trim =>
    have hsame : s.step .trim = s := by
      rw [AuditStore.step, take_of_length_le h.cap]
    rwa [hsame]
  | read id adminId reviewedAt =>
    cases hfind : s.logs.zipIdx.find? fun e => e.1.id == id with
    | none => simpa [AuditStore.step, hfind] using h
    | some found =>
      have hstep : s.step (.read id adminId reviewedAt) =
          { s with reviews := s.reviews ++ [⟨found.2, found.1.review adminId reviewedAt⟩] } := by
        simp [AuditStore.step, hfind]
      rw [hstep]
      refine ⟨⟨h.nothingLost.ids, h.nothingLost.contents, h.nothingLost.reviewed⟩, h.cap, ?_,
        h.returned⟩
      intro review hreview
      rcases mem_append.mp hreview with hreview | hreview
      · exact h.pending review hreview
      · obtain rfl := mem_singleton.mp hreview
        exact pending_of_find hfind
  | write i =>
    cases hreview : s.reviews[i]? with
    | none => simpa [AuditStore.step, hreview] using h
    | some review =>
      have hpending := h.pending review (mem_of_getElem? hreview)
      refine ⟨h.nothingLost.write hreview hpending, ?_, fun other hother => ?_, fun r hr => ?_⟩
      · simpa [AuditStore.step, hreview] using h.cap
      · simp only [AuditStore.step, hreview] at hother
        exact hpending.write hreview (h.pending other (mem_of_mem_eraseIdx hother))
      · simp only [AuditStore.step, hreview] at hr ⊢
        rcases mem_cons.mp hr with rfl | hr
        · obtain ⟨_, log, hlog, hcontent⟩ := hpending
          have hid : log.id = review.merged.id := congrArg (·.id) hcontent
          rw [← h.nothingLost.map_id, ← hid]
          exact mem_map_of_mem (mem_of_getElem? hlog)
        · exact h.returned r hr

end Step

/-- Where nothing is added between the read and the write of a review, nothing is lost. -/
theorem nothingLost_of_quiet {s : AuditStore} (h : (auditRuns.restrict Quiet).Reachable s) :
    s.NothingLost := by
  have hkept : s.Kept := by
    refine h.invariant (I := Kept) ?_ ?_
    · rintro _ rfl
      exact ⟨⟨nodup_nil, rfl, by simp⟩, by simp, by simp, by simp⟩
    · rintro s event _ hi ⟨hquiet, hguard, rfl⟩
      exact hi.step hguard hquiet
  exact hkept.nothingLost

lemma step_of_guard (s : AuditStore) (event : AuditEvent) (h : s.Guard event) :
    auditRuns.step s event (s.step event) :=
  ⟨h, rfl⟩

/-- A login, as it is added. -/
def loginEntry : AuditEntry :=
  ⟨"Login", "User logged in", "alice", none⟩

/-- Two additions and a review. -/
theorem nothingLost_of_quiet_oneReview :
    ([.push loginEntry "a" "t", .trim, .push loginEntry "b" "t", .trim, .read "a" "admin" "u",
      .write 0].foldl step {} : AuditStore).NothingLost :=
  have hinit : (auditRuns.restrict Quiet).Reachable {} := .of_init rfl
  nothingLost_of_quiet (Reachable.foldl_of_guard step_of_guard hinit (by decide))

/-- An entry is added between the read and the write of a review, and overwritten. -/
theorem addition_overwritten :
    ¬ ∀ s : AuditStore, auditRuns.Reachable s → s.reviews = [] → s.NothingLost := by
  intro h
  have hinit : (auditRuns.restrict fun _ _ => True).Reachable {} := .of_init rfl
  have hok : Along step (fun s event => s.Guard event ∧ True) {}
      [.push loginEntry "a" "t", .trim, .read "a" "admin" "u", .push loginEntry "b" "t", .write 0,
        .trim] := by
    decide
  have hreach := (Reachable.foldl_of_guard step_of_guard hinit hok).of_restrict
  have hcontents := (h _ hreach (by decide)).contents
  revert hcontents
  decide

end AuditStore

end Pokerhub
