import Pokerhub.Core.KeyedSets
import Pokerhub.Core.Maximum
import Pokerhub.Core.Together

/-!
# Evidence of collusion

`CollusionService` of `collusion.service.ts` over Redis. With every action a user's device and IP
address are recorded in four sets, two by value and two by user, and from the sets the features of a
pair of users are extracted. Records and extractions run at the same time, and commands may fail.
What is shared and was recorded when an extraction began is found, what is found was recorded for
both users, and the score of the IP clusters counts both of them (`extractFeatures_evidence`): a
value is put into the set of its users before it is put into the user's own.

The figures that are computed in floating point are parameters.
-/

namespace Pokerhub.Evidence

open List Program

/-- The keys `collusion:device:`, `collusion:ip:`, `collusion:user:devices:` and
`collusion:user:ips:`. -/
inductive SetKey where
  | device (deviceId : String)
  | ip (ip : String)
  | userDevices (userId : String)
  | userIps (userId : String)
  deriving DecidableEq

structure Store where
  sets : KeyedSets SetKey String := .empty
  /-- The lists `collusion:times:`, each entry with its user. -/
  times : List (String × ℕ) := []

/-- How much was stored when a call began. -/
structure Mark where
  entries : ℕ
  times : ℕ
  deriving DecidableEq

def Store.mark (s : Store) : Mark := ⟨s.sets.entries.length, s.times.length⟩

def Store.timesOf (userId : String) (s : Store) : List ℕ :=
  Grouping.valuesOf s.times userId

/-- The store at the beginning of a call. -/
def Store.upTo (m : Mark) (s : Store) : Store := ⟨s.sets.upTo m.entries, s.times.take m.times⟩

/-- The order in which `SMEMBERS` answers; any order will do. -/
structure Listing where
  list : List String → List String
  perm : ∀ vs, list vs ~ vs

/-- The figures over numbers `F`. -/
structure Metrics (F : Type) where
  vpipCorrelation : List F → List F → F
  timingSimilarity : List ℕ → List ℕ → F
  timeCorrelatedBetting : List ℕ → List ℕ → F
  seatProximity : List F → List F → F

structure Features (F : Type) where
  sharedDevices : List String
  sharedIps : List String
  ipClusterScore : ℕ
  vpipCorrelation : F
  timingSimilarity : F
  betCorrelation : F
  seatProximity : F
  deriving DecidableEq

/-! ### Commands -/

inductive EvidenceCmd where
  | sadd (key : SetKey) (value : String)
  | smembers (key : SetKey)
  | scard (key : SetKey)
  | rpush (userId : String) (timestamp : ℕ)
  | lrange (userId : String)
  deriving DecidableEq

abbrev EvidenceCmd.Answer : EvidenceCmd → Type
  | sadd _ _ | rpush _ _ => Unit
  | smembers _ => List String
  | scard _ => ℕ
  | lrange _ => List ℕ

def Listing.exec (L : Listing) : (c : EvidenceCmd) → Store → c.Answer × Store
  | .sadd key value, s => ((), { s with sets := s.sets.add key value })
  | .smembers key, s => (L.list (s.sets.members key), s)
  | .scard key, s => ((s.sets.members key).length, s)
  | .rpush userId timestamp, s => ((), { s with times := s.times ++ [(userId, timestamp)] })
  | .lrange userId, s => (s.timesOf userId, s)

/-! ### The methods -/

abbrev EvidenceM := Program EvidenceCmd.Answer String

def evidenceRun (c : EvidenceCmd) : EvidenceM c.Answer :=
  Program.command "command failed" c

def record (userId deviceId ip : String) (timestamp : ℕ) : EvidenceM Unit := do
  let _ ← evidenceRun (.sadd (.device deviceId) userId)
  let _ ← evidenceRun (.sadd (.ip ip) userId)
  let _ ← evidenceRun (.sadd (.userDevices userId) deviceId)
  let _ ← evidenceRun (.sadd (.userIps userId) ip)
  let _ ← evidenceRun (.rpush userId timestamp)
  return ()

def getDeviceCluster (deviceId : String) : EvidenceM (List String) :=
  evidenceRun (.smembers (.device deviceId))

def getIpCluster (ip : String) : EvidenceM (List String) :=
  evidenceRun (.smembers (.ip ip))

/-- Two times in a row lie less than the threshold apart. -/
def anyFast (thresholdMs : ℤ) : List ℕ → Bool
  | t :: t' :: times => decide ((t' : ℤ) - t < thresholdMs) || anyFast thresholdMs (t' :: times)
  | _ => false

def hasFastActions (userId : String) (thresholdMs : ℤ) : EvidenceM Bool := do
  let times : List ℕ ← evidenceRun (.lrange userId)
  return anyFast thresholdMs times

def shared (keyA keyB : SetKey) : EvidenceM (List String) := do
  let ((a : List String), (b : List String)) ←
    both (evidenceRun (.smembers keyA)) (evidenceRun (.smembers keyB))
  return a.filter fun v => v ∈ b

def extractFeatures {F : Type} (M : Metrics F) (userA userB : String)
    (vpipA vpipB seatsA seatsB : List F) : EvidenceM (Features F) := do
  let (sharedDevices, sharedIps, (timesA : List ℕ), (timesB : List ℕ)) ←
    both (shared (.userDevices userA) (.userDevices userB))
      (both (shared (.userIps userA) (.userIps userB))
        (both (evidenceRun (.lrange userA)) (evidenceRun (.lrange userB))))
  let (ipClusterSizes : List ℕ) ← promiseAll (fun ip => evidenceRun (.scard (.ip ip))) sharedIps
  return {
    sharedDevices := sharedDevices
    sharedIps := sharedIps
    ipClusterScore := ipClusterSizes.foldr max 0
    vpipCorrelation := M.vpipCorrelation vpipA vpipB
    timingSimilarity := M.timingSimilarity timesA timesB
    betCorrelation := M.timeCorrelatedBetting timesA timesB
    seatProximity := M.seatProximity seatsA seatsB }

inductive Call (F : Type) where
  | record (userId deviceId ip : String) (timestamp : ℕ)
  | getDeviceCluster (deviceId : String)
  | getIpCluster (ip : String)
  | hasFastActions (userId : String) (thresholdMs : ℤ)
  | extractFeatures (userA userB : String) (vpipA vpipB seatsA seatsB : List F)
  deriving DecidableEq

inductive Reply (F : Type) where
  | recorded
  | users (users : List String)
  | fast (fast : Bool)
  | features (features : Features F)
  deriving DecidableEq

section Service

variable {F : Type} (M : Metrics F) (L : Listing)

def body : Call F → EvidenceM (Reply F)
  | .record userId deviceId ip timestamp => do
    record userId deviceId ip timestamp
    return .recorded
  | .getDeviceCluster deviceId => do
    return .users (← getDeviceCluster deviceId)
  | .getIpCluster ip => do
    return .users (← getIpCluster ip)
  | .hasFastActions userId thresholdMs => do
    return .fast (← hasFastActions userId thresholdMs)
  | .extractFeatures userA userB vpipA vpipB seatsA seatsB => do
    return .features (← extractFeatures M userA userB vpipA vpipB seatsA seatsB)

/-- The service; anything may be called at any time, and any command may fail. -/
def service : Service EvidenceCmd.Answer String (Reply F) Store (Call F × Mark) where
  init s := s = {}
  ready s r := r.2 = s.mark
  body r := body M r.1
  exec _ := L.exec
  fails _ _ := True
  env _ _ := False

end Service

/-! ### Stages -/

/-- What a record puts into the sets. -/
def Call.entries {F : Type} : Call F → List (SetKey × String)
  | .record userId deviceId ip _ =>
    [(.device deviceId, userId), (.ip ip, userId), (.userDevices userId, deviceId),
      (.userIps userId, ip)]
  | _ => []

/-- The entry by value that belongs to an entry by user. -/
def byValue : SetKey × String → Option (SetKey × String)
  | (.userDevices userId, deviceId) => some (.device deviceId, userId)
  | (.userIps userId, ip) => some (.ip ip, userId)
  | _ => none

/-- What a call has done and learned. -/
structure Stage (F : Type) where
  call : Call F × Mark
  added : List (SetKey × String) := []
  read : List (SetKey × List String) := []
  times : List (String × List ℕ) := []
  counted : List (SetKey × ℕ) := []

section Stages

variable {F : Type}

def evidenceAllowed : Stage F → EvidenceCmd → Prop
  | l, .sadd key value =>
    (key, value) ∈ l.call.1.entries ∧ ∀ e ∈ byValue (key, value), e ∈ l.added
  | l, .smembers _ => l.counted = []
  | _, _ => True

def evidenceNext : Stage F → (c : EvidenceCmd) → Option c.Answer → Stage F
  | l, .sadd key value, some _ => { l with added := (key, value) :: l.added }
  | l, .smembers key, some vs => { l with read := (key, vs) :: l.read }
  | l, .scard key, some n => { l with counted := (key, n) :: l.counted }
  | l, .lrange userId, some ts => { l with times := (userId, ts) :: l.times }
  | l, _, _ => l

variable (F) in
def evidence : Discipline EvidenceCmd.Answer (Stage F) where
  allowed := evidenceAllowed
  next := evidenceNext

/-- The features are those of what was read. -/
structure Found (M : Metrics F) (l : Stage F) (userA userB : String) (f : Features F) : Prop where
  devices : ∃ a b, (.userDevices userA, a) ∈ l.read ∧ (.userDevices userB, b) ∈ l.read ∧
    f.sharedDevices = a.filter fun v => v ∈ b
  ips : ∃ a b, (.userIps userA, a) ∈ l.read ∧ (.userIps userB, b) ∈ l.read ∧
    f.sharedIps = a.filter fun v => v ∈ b
  times : ∃ a b, (userA, a) ∈ l.times ∧ (userB, b) ∈ l.times ∧
    f.timingSimilarity = M.timingSimilarity a b ∧ f.betCorrelation = M.timeCorrelatedBetting a b
  score : ∃ sizes, Forall₂ (fun ip n => (SetKey.ip ip, n) ∈ l.counted) f.sharedIps sizes ∧
    f.ipClusterScore = sizes.foldr max 0

/-- A reply is made of what the call has read. -/
def Answered (M : Metrics F) : Except String (Reply F) → Stage F → Prop
  | .ok reply, l =>
    match l.call.1, reply with
    | .getDeviceCluster deviceId, .users users => (.device deviceId, users) ∈ l.read
    | .getIpCluster ip, .users users => (.ip ip, users) ∈ l.read
    | .hasFastActions userId thresholdMs, .fast fast =>
      ∃ ts, (userId, ts) ∈ l.times ∧ fast = anyFast thresholdMs ts
    | .extractFeatures userA userB _ _ _ _, .features f => Found M l userA userB f
    | _, _ => True
  | .error _, _ => True

variable {M : Metrics F} {m : Mark}

lemma follows_record (userId deviceId ip : String) (timestamp : ℕ) :
    (body M (.record userId deviceId ip timestamp)).Follows (evidence F) (Answered M)
      { call := (.record userId deviceId ip timestamp, m) } := by
  apply follows_bind
  refine follows_command_bind ⟨by simp [Call.entries], by simp [byValue]⟩ (fun _ => ?_) trivial
  refine follows_command_bind ⟨by simp [evidence, evidenceNext, Call.entries], by simp [byValue]⟩
    (fun _ => ?_) trivial
  refine follows_command_bind ⟨by simp [evidence, evidenceNext, Call.entries],
    by simp [evidence, evidenceNext, byValue]⟩ (fun _ => ?_) trivial
  refine follows_command_bind ⟨by simp [evidence, evidenceNext, Call.entries],
    by simp [evidence, evidenceNext, byValue]⟩ (fun _ => ?_) trivial
  exact follows_command_bind trivial (fun _ => trivial) trivial

/-- A call has read more, and has not counted yet. -/
structure ReadsOn (l l' : Stage F) : Prop where
  call : l'.call = l.call
  counted : l'.counted = l.counted
  read : l.read ⊆ l'.read
  times : l.times ⊆ l'.times

lemma ReadsOn.trans {l l' l'' : Stage F} (h : ReadsOn l l') (h' : ReadsOn l' l'') :
    ReadsOn l l'' where
  call := h'.call.trans h.call
  counted := h'.counted.trans h.counted
  read _ hr := h'.read (h.read hr)
  times _ ht := h'.times (h.times ht)

lemma readsOn_evidenceNext (l : Stage F) {c : EvidenceCmd} (hc : ∀ key, c ≠ .scard key)
    (a : Option c.Answer) : ReadsOn l (evidenceNext l c a) := by
  rcases a with _ | a
  · cases c <;> exact ⟨rfl, rfl, fun _ h => h, fun _ h => h⟩
  · cases c with
    | scard key => exact absurd rfl (hc key)
    | sadd => exact ⟨rfl, rfl, fun _ h => h, fun _ h => h⟩
    | smembers => exact ⟨rfl, rfl, subset_cons_self _ _, fun _ h => h⟩
    | rpush => exact ⟨rfl, rfl, fun _ h => h, fun _ h => h⟩
    | lrange => exact ⟨rfl, rfl, fun _ h => h, subset_cons_self _ _⟩

lemma follows_smembers {key : SetKey} {l : Stage F} (hl : l.counted = []) :
    (evidenceRun (.smembers key)).Follows (evidence F) (fun (r : Except String (List String)) l' =>
      ReadsOn l l' ∧ ∀ vs, r = .ok vs → (key, vs) ∈ l'.read) l := by
  refine follows_command hl (fun vs => ?_) ?_
  · refine ⟨readsOn_evidenceNext l (by simp) (some vs), fun vs' heq => ?_⟩
    obtain rfl : vs = vs' := Except.ok.inj heq
    exact mem_cons_self
  · exact ⟨readsOn_evidenceNext (c := .smembers key) l (by simp) none, fun vs heq => by cases heq⟩

lemma follows_lrange {userId : String} {l : Stage F} :
    (evidenceRun (.lrange userId)).Follows (evidence F) (fun (r : Except String (List ℕ)) l' =>
      ReadsOn l l' ∧ ∀ ts, r = .ok ts → (userId, ts) ∈ l'.times) l := by
  refine follows_command trivial (fun ts => ?_) ?_
  · refine ⟨readsOn_evidenceNext l (by simp) (some ts), fun ts' heq => ?_⟩
    obtain rfl : ts = ts' := Except.ok.inj heq
    exact mem_cons_self
  · exact ⟨readsOn_evidenceNext (c := .lrange userId) l (by simp) none, fun ts heq => by cases heq⟩

/-- Two sets are read together. -/
lemma follows_shared {keyA keyB : SetKey} {l : Stage F} (hl : l.counted = []) :
    (shared keyA keyB).Follows (evidence F) (fun r l' => ReadsOn l l' ∧ ∀ vs, r = .ok vs →
      ∃ a b, (keyA, a) ∈ l'.read ∧ (keyB, b) ∈ l'.read ∧ vs = a.filter fun v => v ∈ b) l := by
  refine follows_bind (follows_both ((follows_smembers hl).mono ?_))
  rintro ra l₁ ⟨h₁, ha⟩
  refine (follows_smembers (h₁.counted.trans hl)).mono ?_
  rintro rb l₂ ⟨h₂, hb⟩
  refine ⟨?_, fun e => ⟨h₁.trans h₂, fun vs heq => by cases heq⟩⟩
  rintro a b rfl rfl
  refine ⟨h₁.trans h₂, fun vs heq => ⟨a, b, h₂.read (ha a rfl), hb b rfl, ?_⟩⟩
  exact (Except.ok.inj heq).symm

lemma follows_extractFeatures (userA userB : String) (vpipA vpipB seatsA seatsB : List F) :
    (body M (.extractFeatures userA userB vpipA vpipB seatsA seatsB)).Follows (evidence F)
      (Answered M) { call := (.extractFeatures userA userB vpipA vpipB seatsA seatsB, m) } := by
  apply follows_bind
  refine follows_bind (follows_both_of_error (fun _ _ => trivial) ((follows_shared rfl).mono ?_))
  rintro rd l₁ ⟨h₁, hd⟩
  refine follows_both_of_error (fun _ _ _ _ _ h => by cases h) ((follows_shared h₁.counted).mono ?_)
  rintro ri l₂ ⟨h₂, hi⟩
  refine follows_both_of_error (fun _ _ _ _ _ h => by cases h) (follows_lrange.mono ?_)
  rintro ra l₃ ⟨h₃, ha⟩
  refine follows_lrange.mono ?_
  rintro rb l₄ ⟨h₄, hb⟩
  rintro timesA timesB rfl rfl sharedIps _ rfl htimes
  obtain rfl := Except.ok.inj htimes
  rintro sharedDevices _ rfl hrest
  obtain rfl := Except.ok.inj hrest
  obtain ⟨da, db, hda, hdb, hdevices⟩ := hd sharedDevices rfl
  obtain ⟨ia, ib, hia, hib, hips⟩ := hi sharedIps rfl
  have h₂₄ := h₃.trans h₄
  have h₁₄ := h₂.trans h₂₄
  -- to count the clusters changes nothing else
  refine follows_bind (follows_promiseAll
    (I := fun l => l.call = l₄.call ∧ l.read = l₄.read ∧ l.times = l₄.times)
    (T := fun ip n l => (SetKey.ip ip, n) ∈ l.counted) ?_ ?_ ⟨rfl, rfl, rfl⟩)
  · intro ip _ l hI
    refine follows_command trivial (fun n => ⟨hI, ?_, fun _ _ h => mem_cons_of_mem _ h⟩) ?_
    · intro n' heq
      obtain rfl : n = n' := Except.ok.inj heq
      exact mem_cons_self
    · exact ⟨hI, fun _ heq => (by cases heq), fun _ _ h => h⟩
  · rintro l ⟨hcall, hread, htimes⟩
    refine ⟨fun sizes hsizes => ?_, fun e => trivial⟩
    have hown : l.call.1 = .extractFeatures userA userB vpipA vpipB seatsA seatsB := by
      rw [hcall, (h₁.trans h₁₄).call]
    show Answered M (.ok (.features _)) l
    simp only [Answered, hown]
    constructor
    · refine ⟨da, db, ?_, ?_, hdevices⟩
      · rw [hread]
        exact h₁₄.read hda
      · rw [hread]
        exact h₁₄.read hdb
    · refine ⟨ia, ib, ?_, ?_, hips⟩
      · rw [hread]
        exact h₂₄.read hia
      · rw [hread]
        exact h₂₄.read hib
    · refine ⟨timesA, timesB, ?_, ?_, rfl, rfl⟩
      · rw [htimes]
        exact h₄.times (ha timesA rfl)
      · rw [htimes]
        exact hb timesB rfl
    · exact ⟨sizes, hsizes, rfl⟩

lemma follows_body (r : Call F × Mark) :
    (body M r.1).Follows (evidence F) (Answered M) { call := r } := by
  obtain ⟨call, m⟩ := r
  cases call with
  | record userId deviceId ip timestamp => exact follows_record userId deviceId ip timestamp
  | getDeviceCluster deviceId =>
    exact follows_bind (follows_command rfl (fun users => mem_cons_self) trivial)
  | getIpCluster ip =>
    exact follows_bind (follows_command rfl (fun users => mem_cons_self) trivial)
  | hasFastActions userId thresholdMs =>
    refine follows_bind (follows_command_bind trivial (fun ts => ?_) trivial)
    exact ⟨ts, mem_cons_self, rfl⟩
  | extractFeatures userA userB vpipA vpipB seatsA seatsB =>
    exact follows_extractFeatures userA userB vpipA vpipB seatsA seatsB

end Stages

/-! ### The invariant -/

section Invariant

variable {F : Type}

/-- What a call has learned is still so. -/
structure Known (s : Store) (l : Stage F) : Prop where
  entries_le : l.call.2.entries ≤ s.sets.entries.length
  times_le : l.call.2.times ≤ s.times.length
  added : ∀ e ∈ l.added, e ∈ s.sets.entries
  read : ∀ r ∈ l.read, s.sets.Answer l.call.2.entries r.1 r.2
  times : ∀ r ∈ l.times, (s.upTo l.call.2).timesOf r.1 <+: r.2 ∧ r.2 <+: s.timesOf r.1
  /-- Who has the address in what was read is counted among its users. -/
  counted : ∀ c ∈ l.counted, ∃ users : List String, users.length = c.2 ∧
    s.sets.Answer l.call.2.entries c.1 users ∧
      ∀ u ip vs, c.1 = .ip ip → (.userIps u, vs) ∈ l.read → ip ∈ vs → u ∈ users

/-- An entry by user comes after its entry by value, at all times. -/
def Indexed (sets : KeyedSets SetKey String) : Prop :=
  ∀ n, ∀ e ∈ (sets.upTo n).entries, ∀ e' ∈ byValue e, e' ∈ (sets.upTo n).entries

structure EvidenceInv (s : Store) (ls : List ((Call F × Mark) × Stage F)) : Prop where
  indexed : Indexed s.sets
  recorded : ∀ e ∈ s.sets.entries, ∃ rl ∈ ls, e ∈ rl.1.1.entries
  own : ∀ rl ∈ ls, rl.2.call = rl.1
  known : ∀ rl ∈ ls, Known s rl.2

variable {s s' : Store} {l l' : Stage F} {ls ls' : List ((Call F × Mark) × Stage F)}
  {r : Call F × Mark}

lemma EvidenceInv.perm (h : EvidenceInv s ls) (hperm : ls ~ ls') : EvidenceInv s ls' where
  indexed := h.indexed
  recorded e he := by
    obtain ⟨rl, hrl, hentries⟩ := h.recorded e he
    exact ⟨rl, hperm.mem_iff.mp hrl, hentries⟩
  own rl hrl := h.own rl (hperm.mem_iff.mpr hrl)
  known rl hrl := h.known rl (hperm.mem_iff.mpr hrl)

/-- A call goes on, and the others know what they knew. -/
lemma EvidenceInv.step (h : EvidenceInv s ((r, l) :: ls)) (hindexed : Indexed s'.sets)
    (hentries : ∀ e ∈ s'.sets.entries, e ∈ s.sets.entries ∨ e ∈ r.1.entries)
    (hcall : l'.call = l.call) (hother : ∀ l : Stage F, Known s l → Known s' l)
    (hown : Known s' l') : EvidenceInv s' ((r, l') :: ls) := by
  refine ⟨hindexed, ?_, ?_, ?_⟩
  · intro e he
    rcases hentries e he with he | he
    · obtain ⟨rl, hrl, he⟩ := h.recorded e he
      rcases mem_cons.mp hrl with rfl | hrl
      · exact ⟨(r, l'), mem_cons_self, he⟩
      · exact ⟨rl, mem_cons_of_mem _ hrl, he⟩
    · exact ⟨(r, l'), mem_cons_self, he⟩
  · intro rl hrl
    rcases mem_cons.mp hrl with rfl | hrl
    · exact hcall.trans (h.own _ mem_cons_self)
    · exact h.own rl (mem_cons_of_mem _ hrl)
  · intro rl hrl
    rcases mem_cons.mp hrl with rfl | hrl
    · exact hown
    · exact hother _ (h.known rl (mem_cons_of_mem _ hrl))

/-! ### The commands keep it -/

lemma Indexed.now {sets : KeyedSets SetKey String} (h : Indexed sets) :
    ∀ e ∈ sets.entries, ∀ e' ∈ byValue e, e' ∈ sets.entries := by
  have hall : sets.upTo sets.entries.length = sets := by
    simp only [KeyedSets.upTo, take_length]
  have hindexed := h sets.entries.length
  rwa [hall] at hindexed

lemma Indexed.add {sets : KeyedSets SetKey String} (h : Indexed sets) {key : SetKey}
    {value : String} (hvalue : ∀ e ∈ byValue (key, value), e ∈ sets.entries) :
    Indexed (sets.add key value) := by
  intro n e he e' he'
  rcases sets.upTo_add_cases key value n with hsets | hsets
  · rw [hsets] at he ⊢
    exact h n e he e' he'
  · rw [hsets] at he ⊢
    refine KeyedSets.mem_add.mpr (Or.inl ?_)
    rcases KeyedSets.mem_add.mp he with he | rfl
    · exact h.now e he e' he'
    · exact hvalue e' he'

/-- More is in the sets. -/
lemma Known.sadd (h : Known s l) (key : SetKey) (value : String) :
    Known { s with sets := s.sets.add key value } l where
  entries_le := Nat.le_trans h.entries_le (KeyedSets.prefix_add s.sets key value).length_le
  times_le := h.times_le
  added e he := KeyedSets.mem_add.mpr (Or.inl (h.added e he))
  read r hr := (h.read r hr).add h.entries_le key value
  times := h.times
  counted c hc := by
    obtain ⟨users, hlength, hanswer, husers⟩ := h.counted c hc
    exact ⟨users, hlength, hanswer.add h.entries_le key value, husers⟩

/-- More is in the lists. -/
lemma Known.rpush (h : Known s l) (userId : String) (timestamp : ℕ) :
    Known { s with times := s.times ++ [(userId, timestamp)] } l := by
  refine { h with times_le := ?_, times := fun r hr => ⟨?_, ?_⟩ }
  · rw [length_append]
    exact Nat.le_trans h.times_le (Nat.le_add_right _ _)
  · have hfirst := (h.times r hr).1
    simp only [Store.timesOf, Store.upTo] at hfirst ⊢
    rwa [take_append_of_le_length h.times_le]
  · refine (h.times r hr).2.trans ?_
    simp only [Store.timesOf, Grouping.valuesOf_append]
    exact prefix_append _ _

/-- The times that are read now. -/
lemma timesOf_upTo (m : Mark) (s : Store) (userId : String) :
    (s.upTo m).timesOf userId <+: s.timesOf userId := by
  have htimes : s.times.take m.times <+: s.times := take_prefix _ _
  exact (htimes.filter _).map _

/-- Every command that the discipline allows keeps the invariant. -/
lemma EvidenceInv.call {L : Listing} (h : EvidenceInv s ((r, l) :: ls)) {c : EvidenceCmd}
    (hallowed : evidenceAllowed l c) :
    EvidenceInv (L.exec c s).2 ((r, evidenceNext l c (some (L.exec c s).1)) :: ls) := by
  have hknown := h.known _ mem_cons_self
  have hcall : l.call = r := h.own _ mem_cons_self
  cases c with
  | sadd key value =>
    obtain ⟨hown, hvalue⟩ := hallowed
    refine h.step (h.indexed.add fun e he => hknown.added e (hvalue e he)) (fun e he => ?_) rfl
      (fun l hl => hl.sadd key value) { hknown.sadd key value with added := fun e he => ?_ }
    · rcases KeyedSets.mem_add.mp he with he | rfl
      · exact Or.inl he
      · rw [← hcall]
        exact Or.inr hown
    · rcases mem_cons.mp he with rfl | he
      · exact KeyedSets.mem_add.mpr (Or.inr rfl)
      · exact (hknown.sadd key value).added e he
  | smembers key =>
    have hnone : l.counted = [] := hallowed
    refine h.step h.indexed (fun e he => Or.inl he) rfl (fun l hl => hl)
      { hknown with read := fun r hr => ?_, counted := fun c hc => ?_ }
    · rcases mem_cons.mp hr with rfl | hr
      · exact .of_perm _ (L.perm _)
      · exact hknown.read r hr
    · have hc : c ∈ l.counted := hc
      rw [hnone] at hc
      exact absurd hc not_mem_nil
  | scard key =>
    refine h.step h.indexed (fun e he => Or.inl he) rfl (fun l hl => hl)
      { hknown with counted := fun c hc => ?_ }
    rcases mem_cons.mp hc with rfl | hc
    · refine ⟨s.sets.members key, rfl, .of_perm _ (.refl _), ?_⟩
      rintro u ip vs rfl hvs hip
      have hentry := KeyedSets.mem_members.mp ((hknown.read _ hvs).sound ip hip)
      exact KeyedSets.mem_members.mpr (h.indexed.now _ hentry _ rfl)
    · exact hknown.counted c hc
  | rpush userId timestamp =>
    have hlater : ∀ l : Stage F, Known s l →
        Known { s with times := s.times ++ [(userId, timestamp)] } l :=
      fun l hl => hl.rpush userId timestamp
    exact h.step h.indexed (fun e he => Or.inl he) rfl hlater (hlater l hknown)
  | lrange userId =>
    refine h.step h.indexed (fun e he => Or.inl he) rfl (fun l hl => hl)
      { hknown with times := fun r hr => ?_ }
    rcases mem_cons.mp hr with rfl | hr
    · exact ⟨timesOf_upTo _ s userId, prefix_rfl⟩
    · exact hknown.times r hr

end Invariant

/-! ### Runs -/

section Runs

variable {F : Type} {M : Metrics F} {L : Listing}
  {P : Pool EvidenceCmd.Answer String (Reply F) Store (Call F × Mark)}

lemma EvidenceInv.start {s : Store} {ls : List ((Call F × Mark) × Stage F)} (h : EvidenceInv s ls)
    {r : Call F × Mark} (hr : r.2 = s.mark) : EvidenceInv s (ls ++ [(r, { call := r })]) := by
  have hknown : Known s { call := r } := by
    refine ⟨?_, ?_, ?_, ?_, ?_, ?_⟩
    · rw [hr]
      exact Nat.le_refl _
    · rw [hr]
      exact Nat.le_refl _
    · exact fun _ h => absurd h not_mem_nil
    · exact fun _ h => absurd h not_mem_nil
    · exact fun _ h => absurd h not_mem_nil
    · exact fun _ h => absurd h not_mem_nil
  refine ⟨h.indexed, fun e he => ?_, ?_, ?_⟩
  · obtain ⟨rl, hrl, hentries⟩ := h.recorded e he
    exact ⟨rl, mem_append_left _ hrl, hentries⟩
  · intro rl hrl
    rcases mem_append.mp hrl with hrl | hrl
    · exact h.own rl hrl
    · rw [mem_singleton.mp hrl]
  · intro rl hrl
    rcases mem_append.mp hrl with hrl | hrl
    · exact h.known rl hrl
    · rw [mem_singleton.mp hrl]
      exact hknown

lemma evidenceNext_none (l : Stage F) (c : EvidenceCmd) : evidenceNext l c none = l := by
  cases c <;> rfl

lemma EvidenceInv.init : EvidenceInv (F := F) {} [] := by
  refine ⟨fun n e he => ?_, fun e he => absurd he not_mem_nil, ?_, ?_⟩
  · exact absurd (KeyedSets.mem_of_upTo he) not_mem_nil
  · exact fun _ h => absurd h not_mem_nil
  · exact fun _ h => absurd h not_mem_nil

/-- The stages of all calls, and what they know. -/
lemma exists_stages (h : (service M L).system.Reachable P) :
    ∃ ls, Service.Staged (evidence F) (Answered M) P.threads ls ∧ EvidenceInv P.state ls := by
  have htrue : ((service M L).system.restrict fun _ _ => True).Reachable P :=
    h.restrict_true fun _ _ => trivial
  refine Service.staged_invariant (S := service M L) (I := EvidenceInv) (fun _ _ _ => True)
    follows_body (fun _ _ _ _ _ _ => trivial) ?_ ?_ ?_ ?_ ?_ htrue
  · exact fun s ls r hinv hready _ => hinv.start hready
  · exact fun s ls₁ ls₂ r l c hinv hallowed _ =>
      ((hinv.perm perm_middle).call hallowed).perm perm_middle.symm
  · intro s ls₁ ls₂ r l c hinv _ _ _
    have hnone : (evidence F).next l c none = l := evidenceNext_none l c
    rw [hnone]
    exact hinv
  · exact fun _ _ _ _ henv => absurd henv id
  · rintro s rfl
    exact .init

/-- What a call that has come to its end has read. -/
lemma exists_known (h : (service M L).system.Reachable P) {call : Call F} {m : Mark}
    {reply : Reply F} (ht : ((call, m), .ret reply) ∈ P.threads) :
    ∃ l : Stage F, l.call = (call, m) ∧ Answered M (.ok reply) l ∧ Known P.state l ∧
      Indexed P.state.sets := by
  obtain ⟨ls, hstaged, hinv⟩ := exists_stages h
  obtain ⟨ts₁, ts₂, hthreads⟩ := append_of_mem ht
  rw [hthreads] at hstaged
  obtain ⟨ls₁, ⟨r, l⟩, ls₂, rfl, -, ⟨rfl, hanswered⟩, -⟩ := Service.forall₂_middle hstaged
  have hmem : (((call, m), l) : (Call F × Mark) × Stage F) ∈ ls₁ ++ ((call, m), l) :: ls₂ :=
    mem_append_right _ mem_cons_self
  exact ⟨l, hinv.own _ hmem, hanswered, hinv.known _ hmem, hinv.indexed⟩

/-- There is a call that records the entry. -/
def Recorded (P : Pool EvidenceCmd.Answer String (Reply F) Store (Call F × Mark))
    (e : SetKey × String) : Prop :=
  ∃ t ∈ P.threads, e ∈ t.1.1.entries

/-- What is in the sets was recorded. -/
lemma recorded_of_mem (h : (service M L).system.Reachable P) {e : SetKey × String}
    (he : e ∈ P.state.sets.entries) : Recorded P e := by
  obtain ⟨ls, hstaged, hinv⟩ := exists_stages h
  obtain ⟨rl, hrl, hentries⟩ := hinv.recorded e he
  obtain ⟨t, ht, hr, -⟩ := Service.exists_left hstaged hrl
  exact ⟨t, ht, hr ▸ hentries⟩

/-- What is in both of two sets that were read. -/
lemma shared_answer {s : Store} {n : ℕ} {keyA keyB : SetKey} {a b : List String}
    (ha : s.sets.Answer n keyA a) (hb : s.sets.Answer n keyB b) :
    (a.filter fun v => v ∈ b).Nodup ∧
      (∀ v, v ∈ (s.sets.upTo n).members keyA → v ∈ (s.sets.upTo n).members keyB →
        v ∈ a.filter fun v => v ∈ b) ∧
      ∀ v ∈ a.filter (fun v => v ∈ b),
        (keyA, v) ∈ s.sets.entries ∧ (keyB, v) ∈ s.sets.entries := by
  refine ⟨ha.distinct.filter _, fun v hva hvb => ?_, fun v hv => ?_⟩
  · exact mem_filter.mpr ⟨ha.complete v hva, decide_eq_true (hb.complete v hvb)⟩
  · obtain ⟨hva, hvb⟩ := mem_filter.mp hv
    have hvb : v ∈ b := of_decide_eq_true hvb
    exact ⟨KeyedSets.mem_members.mp (ha.sound v hva), KeyedSets.mem_members.mp (hb.sound v hvb)⟩

/-- The features of a pair of users are supported by what was recorded. -/
structure Supported (M : Metrics F)
    (P : Pool EvidenceCmd.Answer String (Reply F) Store (Call F × Mark)) (m : Mark)
    (userA userB : String) (f : Features F) : Prop where
  distinct : f.sharedDevices.Nodup ∧ f.sharedIps.Nodup
  devices_found : ∀ d, d ∈ (P.state.upTo m).sets.members (.userDevices userA) →
    d ∈ (P.state.upTo m).sets.members (.userDevices userB) → d ∈ f.sharedDevices
  ips_found : ∀ ip, ip ∈ (P.state.upTo m).sets.members (.userIps userA) →
    ip ∈ (P.state.upTo m).sets.members (.userIps userB) → ip ∈ f.sharedIps
  devices_recorded : ∀ d ∈ f.sharedDevices,
    Recorded P (.userDevices userA, d) ∧ Recorded P (.userDevices userB, d)
  ips_recorded : ∀ ip ∈ f.sharedIps,
    Recorded P (.userIps userA, ip) ∧ Recorded P (.userIps userB, ip)
  both_counted : userA ≠ userB → f.sharedIps ≠ [] → 2 ≤ f.ipClusterScore
  score_low : ∀ ip ∈ f.sharedIps,
    ((P.state.upTo m).sets.members (.ip ip)).length ≤ f.ipClusterScore
  score_high : f.ipClusterScore = 0 ∨
    ∃ ip ∈ f.sharedIps, f.ipClusterScore ≤ (P.state.sets.members (.ip ip)).length
  times : ∃ a b, (P.state.upTo m).timesOf userA <+: a ∧ a <+: P.state.timesOf userA ∧
    (P.state.upTo m).timesOf userB <+: b ∧ b <+: P.state.timesOf userB ∧
      f.timingSimilarity = M.timingSimilarity a b ∧ f.betCorrelation = M.timeCorrelatedBetting a b

/-- The features of two users hold all that they shared when the extraction began, and only what
was recorded for both; the score of the IP clusters is the size of one of them, and counts both. -/
theorem extractFeatures_evidence (h : (service M L).system.Reachable P) {userA userB : String}
    {vpipA vpipB seatsA seatsB : List F} {m : Mark} {f : Features F}
    (ht : ((.extractFeatures userA userB vpipA vpipB seatsA seatsB, m), .ret (.features f)) ∈
      P.threads) : Supported M P m userA userB f := by
  obtain ⟨l, hcall, hanswered, hknown, -⟩ := exists_known h ht
  have hfound : Found M l userA userB f := by
    simpa only [Answered, hcall] using hanswered
  obtain ⟨da, db, hda, hdb, hdevices⟩ := hfound.devices
  obtain ⟨ia, ib, hia, hib, hips⟩ := hfound.ips
  obtain ⟨sizes, hsizes, hscore⟩ := hfound.score
  have hread := hknown.read
  have hcounted := hknown.counted
  have htimes := hknown.times
  rw [hcall] at hread hcounted htimes
  obtain ⟨hdistinct, hcomplete, hsound⟩ := shared_answer (hread _ hda) (hread _ hdb)
  obtain ⟨hdistinct', hcomplete', hsound'⟩ := shared_answer (hread _ hia) (hread _ hib)
  rw [← hdevices] at hdistinct hcomplete hsound
  rw [← hips] at hdistinct' hcomplete' hsound'
  have hmax : ∀ n ∈ sizes, n ≤ f.ipClusterScore := by
    rw [hscore]
    exact (foldr_max_le_iff.mp (Nat.le_refl _)).2
  -- the cluster of a shared address was counted
  have hcluster : ∀ ip ∈ f.sharedIps, ∃ users : List String, users.length ≤ f.ipClusterScore ∧
      P.state.sets.Answer m.entries (.ip ip) users ∧ userA ∈ users ∧ userB ∈ users := by
    intro ip hip
    obtain ⟨n, hn, hcount⟩ := Service.exists_left hsizes.flip hip
    obtain ⟨users, hlength, hanswer, husers⟩ := hcounted _ hcount
    rw [hips] at hip
    obtain ⟨hipa, hipb⟩ := mem_filter.mp hip
    refine ⟨users, hlength ▸ hmax n hn, hanswer, ?_, ?_⟩
    · exact husers userA ip ia rfl hia hipa
    · exact husers userB ip ib rfl hib (of_decide_eq_true hipb)
  constructor
  · exact ⟨hdistinct, hdistinct'⟩
  · exact hcomplete
  · exact hcomplete'
  · exact fun d hd => ⟨recorded_of_mem h (hsound d hd).1, recorded_of_mem h (hsound d hd).2⟩
  · exact fun ip hip => ⟨recorded_of_mem h (hsound' ip hip).1, recorded_of_mem h (hsound' ip hip).2⟩
  · intro hne hshared
    obtain ⟨ip, hip⟩ := exists_mem_of_ne_nil _ hshared
    obtain ⟨users, hle, hanswer, ha, hb⟩ := hcluster ip hip
    exact Nat.le_trans
      ((Grouping.one_lt_length_iff hanswer.distinct).mpr ⟨userA, ha, userB, hb, hne⟩) hle
  · intro ip hip
    obtain ⟨users, hle, hanswer, -⟩ := hcluster ip hip
    exact Nat.le_trans hanswer.length.1 hle
  · rcases eq_or_ne sizes [] with hnil | hne
    · rw [hscore, hnil]
      exact Or.inl rfl
    · have hmem : f.ipClusterScore ∈ sizes := by
        rw [hscore]
        exact foldr_max_mem hne fun n _ => Nat.zero_le n
      obtain ⟨ip, hip, hcount⟩ := Service.exists_left hsizes hmem
      obtain ⟨users, hlength, hanswer, -⟩ := hcounted _ hcount
      exact Or.inr ⟨ip, hip, Nat.le_trans (Nat.le_of_eq hlength.symm) hanswer.length.2⟩
  · obtain ⟨a, b, ha, hb, htiming, hbet⟩ := hfound.times
    exact ⟨a, b, (htimes _ ha).1, (htimes _ ha).2, (htimes _ hb).1, (htimes _ hb).2, htiming, hbet⟩

/-- What a cluster answers, when the entries by user have their entries by value. -/
lemma mem_cluster {s : Store} {n : ℕ} {key : SetKey} {users : List String} {e : SetKey × String}
    {u : String} (hanswer : s.sets.Answer n key users) (hindexed : Indexed s.sets)
    (he : e ∈ (s.sets.upTo n).entries) (hvalue : byValue e = some (key, u)) : u ∈ users :=
  hanswer.complete u (KeyedSets.mem_members.mpr (hindexed n e he _ hvalue))

/-- A cluster of an IP address holds all users that had the address when it was asked for, and only
users for whom it was recorded; and so it is with devices. -/
theorem clusters_complete (h : (service M L).system.Reachable P) {m : Mark} {users : List String} :
    (∀ ip, ((.getIpCluster ip, m), .ret (.users users)) ∈ P.threads → users.Nodup ∧
      (∀ u, ip ∈ (P.state.upTo m).sets.members (.userIps u) → u ∈ users) ∧
        ∀ u ∈ users, Recorded P (.ip ip, u)) ∧
    ∀ d, ((.getDeviceCluster d, m), .ret (.users users)) ∈ P.threads → users.Nodup ∧
      (∀ u, d ∈ (P.state.upTo m).sets.members (.userDevices u) → u ∈ users) ∧
        ∀ u ∈ users, Recorded P (.device d, u) := by
  constructor
  · intro ip ht
    obtain ⟨l, hcall, hanswered, hknown, hindexed⟩ := exists_known h ht
    have hread : (SetKey.ip ip, users) ∈ l.read := by
      simpa only [Answered, hcall] using hanswered
    have hanswer := hknown.read _ hread
    rw [hcall] at hanswer
    refine ⟨hanswer.distinct, fun u hu => ?_, fun u hu => ?_⟩
    · exact mem_cluster hanswer hindexed (KeyedSets.mem_members.mp hu) rfl
    · exact recorded_of_mem h (KeyedSets.mem_members.mp (hanswer.sound u hu))
  · intro d ht
    obtain ⟨l, hcall, hanswered, hknown, hindexed⟩ := exists_known h ht
    have hread : (SetKey.device d, users) ∈ l.read := by
      simpa only [Answered, hcall] using hanswered
    have hanswer := hknown.read _ hread
    rw [hcall] at hanswer
    refine ⟨hanswer.distinct, fun u hu => ?_, fun u hu => ?_⟩
    · exact mem_cluster hanswer hindexed (KeyedSets.mem_members.mp hu) rfl
    · exact recorded_of_mem h (KeyedSets.mem_members.mp (hanswer.sound u hu))

/-- More times do not make two that are in a row less fast. -/
lemma anyFast_mono {thresholdMs : ℤ} {ts ts' : List ℕ} (h : ts <+: ts')
    (hfast : anyFast thresholdMs ts = true) : anyFast thresholdMs ts' = true := by
  obtain ⟨more, rfl⟩ := h
  induction ts with
  | nil => exact absurd hfast Bool.false_ne_true
  | cons t ts ih =>
    cases ts with
    | nil => exact absurd hfast Bool.false_ne_true
    | cons t' ts =>
      simp only [anyFast, cons_append, Bool.or_eq_true] at hfast ⊢
      exact hfast.imp id ih

/-- The fast actions of a user that were recorded when the question came are seen, and only those
that were recorded by the end. -/
theorem hasFastActions_seen (h : (service M L).system.Reachable P) {userId : String}
    {thresholdMs : ℤ} {m : Mark} {fast : Bool}
    (ht : ((.hasFastActions userId thresholdMs, m), .ret (.fast fast)) ∈ P.threads) :
    (anyFast thresholdMs ((P.state.upTo m).timesOf userId) = true → fast = true) ∧
      (fast = true → anyFast thresholdMs (P.state.timesOf userId) = true) := by
  obtain ⟨l, hcall, hanswered, hknown, -⟩ := exists_known h ht
  obtain ⟨ts, hts, rfl⟩ : ∃ ts, (userId, ts) ∈ l.times ∧ fast = anyFast thresholdMs ts := by
    simpa only [Answered, hcall] using hanswered
  obtain ⟨hlow, hhigh⟩ := hknown.times _ hts
  rw [hcall] at hlow
  exact ⟨anyFast_mono hlow, anyFast_mono hhigh⟩

end Runs

/-! ### A shared address -/

/-- The figures, as far as they are needed for two users who act at the same times. -/
def sameTimes : Metrics ℕ where
  vpipCorrelation _ _ := 0
  timingSimilarity a b := if a = b ∧ a ≠ [] then 1 else 0
  timeCorrelatedBetting a b := if a = b ∧ a ≠ [] then 1 else 0
  seatProximity _ _ := 0

def inOrder : Listing where
  list vs := vs
  perm _ := .refl _

instance (s : Store) (r : Call ℕ × Mark) : Decidable ((service sameTimes inOrder).ready s r) :=
  inferInstanceAs (Decidable (r.2 = s.mark))

instance (s : Store) (c : EvidenceCmd) : Decidable ((service sameTimes inOrder).fails s c) :=
  isTrue trivial

/-- Two users are recorded with one address, and what they share is extracted while another record
fails on its way. -/
def sharedAddress : List (Service.Move Store (Call ℕ × Mark)) :=
  [.start (.record "a" "d1" "ip" 5, ⟨0, 0⟩), .start (.record "b" "d2" "ip" 5, ⟨0, 0⟩)] ++
    replicate 5 (.call 0) ++ replicate 5 (.call 1) ++
    [.start (.record "c" "d1" "ip" 9, ⟨8, 2⟩), .call 2,
      .start (.extractFeatures "a" "b" [] [] [] [], ⟨9, 2⟩), .call 2, .fault 2] ++
    replicate 7 (.call 3)

@[irreducible] def afterExtraction :
    Pool EvidenceCmd.Answer String (Reply ℕ) Store (Call ℕ × Mark) :=
  (service sameTimes inOrder).playAll ⟨{}, []⟩ sharedAddress

def addressFeatures : Features ℕ where
  sharedDevices := []
  sharedIps := ["ip"]
  ipClusterScore := 3
  vpipCorrelation := 0
  timingSimilarity := 1
  betCorrelation := 1
  seatProximity := 0

lemma afterExtraction_reachable :
    (service sameTimes inOrder).system.Reachable afterExtraction := by
  have hreach : ((service sameTimes inOrder).system.restrict fun _ _ => True).Reachable
      ((service sameTimes inOrder).playAll ⟨{}, []⟩ sharedAddress) :=
    Service.reachable_playAll_of_closed (S := service sameTimes inOrder) rfl (by decide +kernel)
  unfold afterExtraction
  exact hreach.of_restrict

/-- The third user has got as far as the set of the address. -/
theorem extractFeatures_evidence_address :
    ((Call.extractFeatures "a" "b" [] [] [] [], (⟨9, 2⟩ : Mark)),
      .ret (Reply.features addressFeatures)) ∈ afterExtraction.threads ∧
        Supported sameTimes afterExtraction ⟨9, 2⟩ "a" "b" addressFeatures := by
  have hmem : ((Call.extractFeatures "a" "b" [] [] [] [], (⟨9, 2⟩ : Mark)),
      .ret (Reply.features addressFeatures)) ∈ afterExtraction.threads := by
    unfold afterExtraction
    exact mem_of_getElem? (i := 3) rfl
  exact ⟨hmem, extractFeatures_evidence afterExtraction_reachable hmem⟩

end Pokerhub.Evidence
