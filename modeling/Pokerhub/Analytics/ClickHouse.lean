import Mathlib.Data.List.Infix
import Pokerhub.Core.DepthFirst
import Pokerhub.Core.Transition

/-!
# The analytics database

`isClickHouseUnavailable`, `withClickHouse` and `disableClickHouse` of `analytics.service.ts`. An
error tells that the database cannot be reached if it says so itself, or an error it was caused by
or was put together from, however deep, and also if the errors lead in circles
(`isClickHouseUnavailable_iff`). The first such error disables the database: whatever calls are
under way by then, it is reported once, the client is closed once, and no such error gets to a
caller (`call_fate`), and from then on no call does anything (`disabled_forever`).
-/

namespace Pokerhub.ClickHouse

open DepthFirst List Relation

/-! ### Errors -/

/-- A value that can be thrown, among `n` objects. -/
inductive Value (n : ℕ) where
  | primitive
  | object (e : Fin n)
  deriving DecidableEq

structure ErrorObject (n : ℕ) where
  /-- `code`, if it is a string. -/
  code : Option String := none
  /-- `instanceof Error`. -/
  isError : Bool := true
  message : String := ""
  cause : Value n := .primitive
  /-- `errors`, if it is an array. -/
  errors : Option (List (Value n)) := none
  deriving DecidableEq

/-- The objects there are; they may refer to each other in circles. -/
structure Memory where
  size : ℕ
  objects : Fin size → ErrorObject size

def offlineCodes : List String :=
  ["EAI_AGAIN", "ENOTFOUND", "ECONNREFUSED", "ECONNRESET", "ETIMEDOUT", "ECONNABORTED",
    "EHOSTUNREACH"]

/-- The test of a word as a regular expression, with the flag `i`. -/
def mentions (word message : String) : Bool :=
  (message.toList.map Char.toLower).tails.any fun rest =>
    (word.toList.map Char.toLower).isPrefixOf rest

/-- The error says itself that there is no connection. -/
def ErrorObject.offline {n : ℕ} (e : ErrorObject n) : Bool :=
  e.code.any (fun code => decide (code ∈ offlineCodes)) ||
    e.isError && (mentions "getaddrinfo" e.message || mentions "ECONNREFUSED" e.message ||
      mentions "ENOTFOUND" e.message)

def Value.object? {n : ℕ} : Value n → Option (Fin n)
  | primitive => none
  | object e => some e

/-- The objects among `cause` and `errors`, in the order in which they are looked at. -/
def Memory.links (m : Memory) (e : Fin m.size) : List (Fin m.size) :=
  ((m.objects e).cause :: (m.objects e).errors.getD []).filterMap Value.object?

def isClickHouseUnavailable (m : Memory) : Value m.size → Bool
  | .primitive => false
  | .object e => (search m.links (fun e => (m.objects e).offline) (m.size + 1) e).getD false

/-- `w` is the cause of `v`, or one of its errors. -/
def Memory.LeadsTo (m : Memory) (v w : Value m.size) : Prop :=
  ∃ e, v = .object e ∧ (w = (m.objects e).cause ∨ ∃ es ∈ (m.objects e).errors, w ∈ es)

section Errors

variable {m : Memory}

lemma leadsTo_object {a b : Fin m.size} : m.LeadsTo (.object a) (.object b) ↔ b ∈ m.links a := by
  have hobject : ∀ v : Value m.size, v.object? = some b ↔ .object b = v := by
    rintro (_ | c)
    · exact ⟨fun h => (by cases h), fun h => (by cases h)⟩
    · simp [Value.object?, eq_comm]
  unfold Memory.links
  rw [mem_filterMap]
  constructor
  · rintro ⟨e, he, hv⟩
    cases he
    rcases hv with hv | ⟨es, hes, hv⟩
    · exact ⟨_, mem_cons_self, (hobject _).mpr hv⟩
    · obtain hes : (m.objects a).errors = some es := hes
      exact ⟨_, mem_cons_of_mem _ (by rw [hes]; exact hv), (hobject _).mpr rfl⟩
  · rintro ⟨v, hv, hb⟩
    obtain rfl := (hobject v).mp hb
    refine ⟨a, rfl, ?_⟩
    rcases mem_cons.mp hv with hv | hv
    · exact Or.inl hv
    · cases hes : (m.objects a).errors with
      | none =>
        rw [hes] at hv
        exact absurd hv not_mem_nil
      | some es =>
        rw [hes] at hv
        exact Or.inr ⟨es, rfl, hv⟩

/-- What leads to an object is an object. -/
lemma leadsTo_iff {v : Value m.size} {y : Fin m.size} :
    ReflTransGen m.LeadsTo v (.object y) ↔
      ∃ x, v = .object x ∧ ReflTransGen (fun a b => b ∈ m.links a) x y := by
  constructor
  · intro h
    induction h using ReflTransGen.head_induction_on with
    | refl => exact ⟨y, rfl, .refl⟩
    | head hvw _ ih =>
      obtain ⟨z, rfl, hz⟩ := ih
      obtain ⟨x, rfl, -⟩ := id hvw
      exact ⟨x, rfl, .head (leadsTo_object.mp hvw) hz⟩
  · rintro ⟨x, rfl, h⟩
    exact h.lift Value.object fun a b hab => leadsTo_object.mpr hab

theorem isClickHouseUnavailable_iff (m : Memory) (error : Value m.size) :
    isClickHouseUnavailable m error = true ↔
      ∃ e, ReflTransGen m.LeadsTo error (.object e) ∧ (m.objects e).offline = true := by
  cases error with
  | primitive =>
    refine ⟨fun h => absurd h Bool.false_ne_true, ?_⟩
    rintro ⟨e, h, -⟩
    obtain ⟨x, hx, -⟩ := leadsTo_iff.mp h
    cases hx
  | object e =>
    obtain ⟨found, hsearch, hfound⟩ :=
      @search_iff _ _ m.links (fun e => (m.objects e).offline) (finRange m.size)
        (fun _ _ x _ => mem_finRange x) (m.size + 1) e (mem_finRange e)
        (by rw [length_finRange]; exact Nat.lt_succ_self _)
    rw [isClickHouseUnavailable, hsearch]
    refine hfound.trans ⟨?_, ?_⟩
    · rintro ⟨y, hreach, hy⟩
      exact ⟨y, leadsTo_iff.mpr ⟨e, rfl, hreach⟩, hy⟩
    · rintro ⟨y, hreach, hy⟩
      obtain ⟨x, hx, hreach⟩ := leadsTo_iff.mp hreach
      cases hx
      exact ⟨y, hreach, hy⟩

end Errors

/-! ### The connection -/

/-- A call of `withClickHouse`, with a result from its end on. -/
structure Call (ε α : Type) where
  context : String
  fallback : α
  /-- Whether the operation was started. -/
  started : Bool
  /-- What the operation came to. -/
  outcome : Option (Except ε α) := none
  result : Option (Except ε α) := none

inductive LogLine where
  /-- `No ClickHouse client configured`. -/
  | notice
  | disabled (context : String)
  | closeFailed
  deriving DecidableEq

structure Analytics (ε α : Type) where
  client : Bool
  clickhouseDisabled : Bool := false
  clickhouseNoticeLogged : Bool := false
  log : List LogLine := []
  /-- How often `close` was called. -/
  closes : ℕ := 0
  calls : List (Call ε α) := []

inductive AnalyticsEvent (ε α : Type) where
  /-- `withClickHouse` is called. -/
  | call (context : String) (fallback : α)
  /-- The operation of a call comes to its end. -/
  | settle (i : ℕ) (outcome : Except ε α)
  /-- `close` comes to its end. -/
  | closed (i : ℕ) (ok : Bool)

namespace Analytics

variable {ε α : Type}

def hasClickHouse (s : Analytics ε α) : Bool :=
  s.client && !s.clickhouseDisabled

/-- `withClickHouse` up to the operation. -/
def withClickHouse (context : String) (fallback : α) (s : Analytics ε α) : Analytics ε α :=
  if s.hasClickHouse then
    { s with calls := s.calls ++ [{ context := context, fallback := fallback, started := true }] }
  else
    { s with
      log := if s.clickhouseNoticeLogged then s.log else s.log ++ [.notice]
      clickhouseNoticeLogged := true
      calls := s.calls ++ [{
        context := context
        fallback := fallback
        started := false
        result := some (.ok fallback) }] }

/-- `disableClickHouse` up to the call of `close`; the call goes on at once if there is none. -/
def disableClickHouse (i : ℕ) (c : Call ε α) (s : Analytics ε α) : Analytics ε α :=
  if s.clickhouseDisabled then
    { s with calls := s.calls.set i { c with result := some (.ok c.fallback) } }
  else
    { s with
      clickhouseDisabled := true
      clickhouseNoticeLogged := true
      client := false
      log := s.log ++ [.disabled c.context]
      closes := if s.client then s.closes + 1 else s.closes
      calls := s.calls.set i
        (if s.client then c else { c with result := some (.ok c.fallback) }) }

def step (unavailable : ε → Bool) (s : Analytics ε α) : AnalyticsEvent ε α → Analytics ε α
  | .call context fallback => s.withClickHouse context fallback
  | .settle i outcome =>
    match s.calls[i]? with
    | some c =>
      if c.started = true ∧ c.outcome.isNone then
        let c' : Call ε α := { c with outcome := some outcome }
        match outcome with
        | .ok v => { s with calls := s.calls.set i { c' with result := some (.ok v) } }
        | .error e =>
          if unavailable e then s.disableClickHouse i c'
          else { s with calls := s.calls.set i { c' with result := some (.error e) } }
      else s
    | none => s
  | .closed i ok =>
    match s.calls[i]? with
    | some c =>
      if c.outcome.isSome ∧ c.result.isNone then
        { s with
          log := if ok then s.log else s.log ++ [.closeFailed]
          calls := s.calls.set i { c with result := some (.ok c.fallback) } }
      else s
    | none => s

end Analytics

/-- The runs of the service, with a database or without. -/
def system {ε : Type} (α : Type) (unavailable : ε → Bool) :
    TransitionSystem (Analytics ε α) (AnalyticsEvent ε α) where
  init s := ∃ configured, s = { client := configured }
  step s event s' := s' = s.step unavailable event

section Runs

variable {ε α : Type} (unavailable : ε → Bool)

/-- What becomes of a call: without a database it returns the fallback. Otherwise it returns what
the operation returns and throws what it throws, except that it returns the fallback, in the end, if
the database cannot be reached. -/
def Call.Fate (c : Call ε α) : Prop :=
  match c.started, c.outcome with
  | false, outcome => outcome = none ∧ c.result = some (.ok c.fallback)
  | true, none => c.result = none
  | true, some (.ok v) => c.result = some (.ok v)
  | true, some (.error e) =>
    if unavailable e then c.result = none ∨ c.result = some (.ok c.fallback)
    else c.result = some (.error e)

/-- The operation of the call could not reach the database. -/
def Call.Failed (c : Call ε α) : Prop :=
  ∃ e, c.outcome = some (.error e) ∧ unavailable e = true

/-- The lines apart from those about `close`. -/
def mainLines (log : List LogLine) : List LogLine :=
  log.filter (· ≠ .closeFailed)

structure Inv (s : Analytics ε α) : Prop where
  fate : ∀ c ∈ s.calls, c.Fate unavailable
  failed : ∀ c ∈ s.calls, c.Failed unavailable → s.clickhouseDisabled = true
  started : ∀ c ∈ s.calls, c.started = true → s.client = true ∨ s.clickhouseDisabled = true
  enabled : s.clickhouseDisabled = false → s.closes = 0 ∧
    (s.client = true → s.clickhouseNoticeLogged = false) ∧
    mainLines s.log = if s.clickhouseNoticeLogged then [.notice] else []
  disabled : s.clickhouseDisabled = true → s.closes = 1 ∧ s.client = false ∧
    s.clickhouseNoticeLogged = true ∧
    ∃ c ∈ s.calls, c.Failed unavailable ∧ mainLines s.log = [.disabled c.context]

variable {unavailable} {s : Analytics ε α} {cs₁ cs₂ : List (Call ε α)} {c : Call ε α}

lemma mainLines_append (log : List LogLine) (line : LogLine) :
    mainLines (log ++ [line]) =
      if line = .closeFailed then mainLines log else mainLines log ++ [line] := by
  unfold mainLines
  rw [filter_append]
  by_cases hline : line = .closeFailed
  · rw [if_pos hline, hline]
    exact append_nil _
  · rw [if_neg hline]
    exact congrArg _ (filter_cons_of_pos (by simpa using hline))

/-- One call goes on, and the service is as it was. -/
lemma Inv.replace (h : Inv unavailable s) (hcalls : s.calls = cs₁ ++ c :: cs₂)
    (outcome result : Option (Except ε α))
    (hfate : ({ c with outcome, result } : Call ε α).Fate unavailable)
    (hfailed : ({ c with outcome, result } : Call ε α).Failed unavailable →
      s.clickhouseDisabled = true)
    (hkept : c.Failed unavailable → ({ c with outcome, result } : Call ε α).Failed unavailable)
    {log : List LogLine} (hlog : mainLines log = mainLines s.log) :
    Inv unavailable { s with log, calls := cs₁ ++ { c with outcome, result } :: cs₂ } := by
  have hold : ∀ x ∈ cs₁ ++ { c with outcome, result } :: cs₂,
      x = { c with outcome, result } ∨ x ∈ s.calls := by
    intro x hx
    rw [hcalls]
    rcases mem_append.mp hx with hx | hx
    · exact Or.inr (mem_append_left _ hx)
    · exact (mem_cons.mp hx).imp_right fun hx => mem_append_right _ (mem_cons_of_mem c hx)
  have hc : c ∈ s.calls := by
    rw [hcalls]
    exact mem_append_right _ mem_cons_self
  constructor
  · intro x hx
    rcases hold x hx with rfl | hx
    · exact hfate
    · exact h.fate x hx
  · intro x hx
    rcases hold x hx with rfl | hx
    · exact hfailed
    · exact h.failed x hx
  · intro x hx hstarted
    rcases hold x hx with rfl | hx
    · exact h.started c hc hstarted
    · exact h.started x hx hstarted
  · intro henabled
    obtain ⟨hcloses, hnotice, hlines⟩ := h.enabled henabled
    exact ⟨hcloses, hnotice, hlog.trans hlines⟩
  · intro hdisabled
    obtain ⟨hcloses, hclient, hnotice, x, hx, hxfailed, hlines⟩ := h.disabled hdisabled
    refine ⟨hcloses, hclient, hnotice, ?_⟩
    rw [hcalls] at hx
    rcases mem_append.mp hx with hx | hx
    · exact ⟨x, mem_append_left _ hx, hxfailed, hlog.trans hlines⟩
    · rcases mem_cons.mp hx with rfl | hx
      · exact ⟨_, mem_append_right _ mem_cons_self, hkept hxfailed, hlog.trans hlines⟩
      · exact ⟨x, mem_append_right _ (mem_cons_of_mem _ hx), hxfailed, hlog.trans hlines⟩

lemma Inv.call (h : Inv unavailable s) (context : String) (fallback : α) :
    Inv unavailable (s.withClickHouse context fallback) := by
  unfold Analytics.withClickHouse Analytics.hasClickHouse
  by_cases hhas : (s.client && !s.clickhouseDisabled) = true
  · rw [if_pos hhas]
    obtain ⟨hclient, henabled⟩ := Bool.and_eq_true_iff.mp hhas
    constructor
    · intro x hx
      rcases mem_append.mp hx with hx | hx
      · exact h.fate x hx
      · rw [mem_singleton.mp hx]
        rfl
    · intro x hx hfailed
      rcases mem_append.mp hx with hx | hx
      · exact h.failed x hx hfailed
      · rw [mem_singleton.mp hx] at hfailed
        obtain ⟨e, he, -⟩ := hfailed
        cases he
    · exact fun _ _ _ => Or.inl hclient
    · exact h.enabled
    · intro hdisabled
      rw [show s.clickhouseDisabled = true from hdisabled] at henabled
      cases henabled
  · rw [if_neg hhas]
    have hclient : s.clickhouseDisabled = false → s.client = false := by
      intro henabled
      rw [henabled, Bool.not_false, Bool.and_true] at hhas
      exact Bool.eq_false_iff.mpr hhas
    constructor
    · intro x hx
      rcases mem_append.mp hx with hx | hx
      · exact h.fate x hx
      · rw [mem_singleton.mp hx]
        exact ⟨rfl, rfl⟩
    · intro x hx hfailed
      rcases mem_append.mp hx with hx | hx
      · exact h.failed x hx hfailed
      · rw [mem_singleton.mp hx] at hfailed
        obtain ⟨e, he, -⟩ := hfailed
        cases he
    · intro x hx hstarted
      rcases mem_append.mp hx with hx | hx
      · exact h.started x hx hstarted
      · rw [mem_singleton.mp hx] at hstarted
        cases hstarted
    · intro henabled
      obtain ⟨hcloses, -, hlines⟩ := h.enabled henabled
      refine ⟨hcloses, fun hc => ?_, ?_⟩
      · exact absurd ((hclient henabled).symm.trans hc) Bool.false_ne_true
      · show mainLines (if s.clickhouseNoticeLogged = true then s.log else _) = [.notice]
        by_cases hnotice : s.clickhouseNoticeLogged = true
        · rw [if_pos hnotice, hlines, if_pos hnotice]
        · rw [if_neg hnotice, mainLines_append, hlines, if_neg hnotice]
          rfl
    · intro hdisabled
      obtain ⟨hcloses, hnoclient, hnotice, x, hx, hfailed, hlines⟩ := h.disabled hdisabled
      refine ⟨hcloses, hnoclient, rfl, x, mem_append_left _ hx, hfailed, ?_⟩
      show mainLines (if s.clickhouseNoticeLogged = true then s.log else _) = _
      rw [if_pos hnotice, hlines]

/-- The first operation that cannot reach the database. -/
lemma Inv.disable (h : Inv unavailable s) (hcalls : s.calls = cs₁ ++ c :: cs₂)
    (hstarted : c.started = true) (henabled : s.clickhouseDisabled = false) {e : ε}
    (hresult : c.result = none) (he : unavailable e = true) :
    Inv unavailable { s with
      clickhouseDisabled := true
      clickhouseNoticeLogged := true
      client := false
      log := s.log ++ [.disabled c.context]
      closes := s.closes + 1
      calls := cs₁ ++ { c with outcome := some (.error e) } :: cs₂ } := by
  have hc : c ∈ s.calls := by
    rw [hcalls]
    exact mem_append_right _ mem_cons_self
  obtain ⟨hcloses, hnotice, hlines⟩ := h.enabled henabled
  have hclient : s.client = true :=
    (h.started c hc hstarted).resolve_right fun hdisabled => by
      rw [henabled] at hdisabled
      cases hdisabled
  constructor
  · intro x hx
    have hx' : x = { c with outcome := some (.error e) } ∨ x ∈ s.calls := by
      rw [hcalls]
      rcases mem_append.mp hx with hx | hx
      · exact Or.inr (mem_append_left _ hx)
      · exact (mem_cons.mp hx).imp_right fun hx => mem_append_right _ (mem_cons_of_mem c hx)
    rcases hx' with rfl | hx
    · simp only [Call.Fate, hstarted, if_pos he, hresult]
      exact Or.inl trivial
    · exact h.fate x hx
  · exact fun _ _ _ => rfl
  · exact fun _ _ _ => Or.inr rfl
  · intro hfalse
    cases hfalse
  · intro _
    refine ⟨congrArg (· + 1) hcloses, rfl, rfl, _, mem_append_right _ mem_cons_self,
      ⟨e, rfl, he⟩, ?_⟩
    show mainLines (s.log ++ [.disabled c.context]) = [.disabled c.context]
    rw [mainLines_append, hlines, hnotice hclient, if_neg (by simp), if_neg Bool.false_ne_true]
    rfl

lemma Call.Fate.result_none {c : Call ε α} (h : c.Fate unavailable) (hstarted : c.started = true)
    (houtcome : c.outcome = none) : c.result = none := by
  rw [Call.Fate, hstarted, houtcome] at h
  exact h

/-- A call whose operation has come to its end, and that still waits. -/
lemma Call.Fate.failed {c : Call ε α} (h : c.Fate unavailable) (houtcome : c.outcome.isSome)
    (hresult : c.result = none) : c.started = true ∧ c.Failed unavailable := by
  obtain ⟨context, fallback, started, outcome, result⟩ := c
  obtain rfl : result = none := hresult
  obtain ⟨o, rfl⟩ : ∃ o, outcome = some o := Option.isSome_iff_exists.mp houtcome
  cases started with
  | false => cases h.1
  | true =>
    cases o with
    | ok v => cases h
    | error e =>
      refine ⟨rfl, e, rfl, ?_⟩
      by_contra he
      have hthrown : none = some (Except.error e) := (if_neg he).mp h
      cases hthrown

private lemma exists_split {A : Type} {xs : List A} {i : ℕ} {x : A} (y : A)
    (h : xs[i]? = some x) :
    ∃ xs₁ xs₂, xs = xs₁ ++ x :: xs₂ ∧ xs.set i y = xs₁ ++ y :: xs₂ := by
  obtain ⟨hi, rfl⟩ := List.getElem?_eq_some_iff.mp h
  obtain ⟨xs₁, xs₂, hxs, -, hset⟩ := exists_of_set hi
  exact ⟨xs₁, xs₂, hxs, hset⟩

/-- The operation of a call comes to its end. -/
lemma Inv.settle (h : Inv unavailable s) {i : ℕ} (hi : s.calls[i]? = some c)
    (hstarted : c.started = true) (houtcome : c.outcome = none) (outcome : Except ε α) :
    Inv unavailable (s.step unavailable (.settle i outcome)) := by
  have hnone : c.result = none :=
    (h.fate c (mem_of_getElem? hi)).result_none hstarted houtcome
  have hnot : ¬ c.Failed unavailable := by
    rintro ⟨e, he, -⟩
    rw [houtcome] at he
    cases he
  have hcond : c.started = true ∧ c.outcome.isNone = true := by
    rw [houtcome]
    exact ⟨hstarted, rfl⟩
  simp only [Analytics.step, hi, if_pos hcond]
  cases outcome with
  | ok v =>
    obtain ⟨cs₁, cs₂, hcalls, hset⟩ :=
      exists_split { c with outcome := some (.ok v), result := some (.ok v) } hi
    dsimp only
    rw [hset]
    refine h.replace hcalls (some (.ok v)) (some (.ok v)) ?_ ?_
      (fun hfailed => absurd hfailed hnot) rfl
    · simp only [Call.Fate, hstarted]
    · rintro ⟨e, he, -⟩
      cases he
  | error e =>
    dsimp only
    by_cases he : unavailable e = true
    · rw [if_pos he]
      unfold Analytics.disableClickHouse
      by_cases hdisabled : s.clickhouseDisabled = true
      · rw [if_pos hdisabled]
        obtain ⟨cs₁, cs₂, hcalls, hset⟩ :=
          exists_split { c with outcome := some (.error e), result := some (.ok c.fallback) } hi
        rw [hset]
        refine h.replace hcalls (some (.error e)) (some (.ok c.fallback)) ?_ (fun _ => hdisabled)
          (fun hfailed => absurd hfailed hnot) rfl
        simp only [Call.Fate, hstarted, if_pos he]
        exact Or.inr trivial
      · rw [if_neg hdisabled]
        have hclient : s.client = true :=
          (h.started c (mem_of_getElem? hi) hstarted).resolve_right hdisabled
        simp only [if_pos hclient]
        obtain ⟨cs₁, cs₂, hcalls, hset⟩ := exists_split { c with outcome := some (.error e) } hi
        rw [hset]
        exact h.disable hcalls hstarted (Bool.eq_false_iff.mpr hdisabled) hnone he
    · rw [if_neg he]
      obtain ⟨cs₁, cs₂, hcalls, hset⟩ :=
        exists_split { c with outcome := some (.error e), result := some (.error e) } hi
      rw [hset]
      refine h.replace hcalls (some (.error e)) (some (.error e)) ?_ ?_
        (fun hfailed => absurd hfailed hnot) rfl
      · simp only [Call.Fate, hstarted, if_neg he]
      · rintro ⟨e', he', htrue⟩
        obtain rfl : e = e' := Except.error.inj (Option.some.inj he')
        exact absurd htrue he

/-- The client of a call is closed. -/
lemma Inv.closed (h : Inv unavailable s) {i : ℕ} (hi : s.calls[i]? = some c)
    (houtcome : c.outcome.isSome) (hresult : c.result = none) (ok : Bool) :
    Inv unavailable (s.step unavailable (.closed i ok)) := by
  have hc := mem_of_getElem? hi
  obtain ⟨hstarted, e, he, hunavailable⟩ := (h.fate c hc).failed houtcome hresult
  have hcond : c.outcome.isSome = true ∧ c.result.isNone = true := by
    rw [hresult]
    exact ⟨houtcome, rfl⟩
  simp only [Analytics.step, hi, if_pos hcond]
  obtain ⟨cs₁, cs₂, hcalls, hset⟩ := exists_split { c with result := some (.ok c.fallback) } hi
  rw [hset]
  refine h.replace hcalls c.outcome (some (.ok c.fallback)) ?_
    (fun _ => h.failed c hc ⟨e, he, hunavailable⟩) id ?_
  · simp only [Call.Fate, hstarted, he, if_pos hunavailable]
    exact Or.inr trivial
  · cases ok with
    | true => rfl
    | false => exact (mainLines_append _ _).trans (if_pos rfl)

lemma Inv.step (h : Inv unavailable s) (event : AnalyticsEvent ε α) :
    Inv unavailable (s.step unavailable event) := by
  cases event with
  | call context fallback => exact h.call context fallback
  | settle i outcome =>
    cases hi : s.calls[i]? with
    | none =>
      simp only [Analytics.step, hi]
      exact h
    | some c =>
      by_cases hcond : c.started = true ∧ c.outcome.isNone = true
      · exact h.settle hi hcond.1 (Option.isNone_iff_eq_none.mp hcond.2) outcome
      · simp only [Analytics.step, hi, if_neg hcond]
        exact h
  | closed i ok =>
    cases hi : s.calls[i]? with
    | none =>
      simp only [Analytics.step, hi]
      exact h
    | some c =>
      by_cases hcond : c.outcome.isSome = true ∧ c.result.isNone = true
      · exact h.closed hi hcond.1 (Option.isNone_iff_eq_none.mp hcond.2) ok
      · simp only [Analytics.step, hi, if_neg hcond]
        exact h

lemma moves_run (s : Analytics ε α) (events : List (AnalyticsEvent ε α)) :
    ReflTransGen (system α unavailable).Moves s (events.foldl (Analytics.step unavailable) s) := by
  induction events generalizing s with
  | nil => exact .refl
  | cons event events ih => exact .head ⟨event, rfl⟩ (ih _)

lemma inv_of_reachable (h : (system α unavailable).Reachable s) : Inv unavailable s := by
  refine h.invariant ?_ ?_
  · rintro _ ⟨configured, rfl⟩
    refine ⟨?_, ?_, ?_, fun _ => ⟨rfl, fun _ => rfl, rfl⟩, fun hdisabled => ?_⟩
    · exact fun c hc => absurd hc not_mem_nil
    · exact fun c hc => absurd hc not_mem_nil
    · exact fun c hc => absurd hc not_mem_nil
    · cases hdisabled
  · rintro s event _ hinv rfl
    exact hinv.step event

/-- In every state each call has the fate that its operation has earned; the service is disabled
exactly if some operation could not reach the database. Then it has reported one such call, and
closed the client once; before, it has reported at most that there is no database. -/
theorem call_fate (h : (system α unavailable).Reachable s) :
    (∀ c ∈ s.calls, c.Fate unavailable) ∧
    (s.clickhouseDisabled = true ↔ ∃ c ∈ s.calls, c.Failed unavailable) ∧
    s.closes = (if s.clickhouseDisabled then 1 else 0) ∧
    if s.clickhouseDisabled then
      ∃ c ∈ s.calls, c.Failed unavailable ∧ mainLines s.log = [.disabled c.context]
    else mainLines s.log = if s.clickhouseNoticeLogged then [.notice] else [] := by
  have hinv := inv_of_reachable h
  refine ⟨hinv.fate, ⟨fun hdisabled => ?_, ?_⟩, ?_⟩
  · obtain ⟨-, -, -, c, hc, hfailed, -⟩ := hinv.disabled hdisabled
    exact ⟨c, hc, hfailed⟩
  · rintro ⟨c, hc, hfailed⟩
    exact hinv.failed c hc hfailed
  · by_cases hdisabled : s.clickhouseDisabled = true
    · obtain ⟨hcloses, -, -, hline⟩ := hinv.disabled hdisabled
      rw [if_pos hdisabled, if_pos hdisabled]
      exact ⟨hcloses, hline⟩
    · obtain ⟨hcloses, -, hlines⟩ := hinv.enabled (Bool.eq_false_iff.mpr hdisabled)
      rw [if_neg hdisabled, if_neg hdisabled]
      exact ⟨hcloses, hlines⟩

/-- A failed request, its cause, which refers back to it, and what the cause was put together
from. -/
def circle : Memory where
  size := 4
  objects e := match e with
    | 0 => { message := "fetch failed", cause := .object 1 }
    | 1 => { cause := .object 0, errors := some [.object 2, .object 3] }
    | 2 => { message := "no route" }
    | 3 => { code := some "ECONNREFUSED" }

def circleUnavailable : Value 4 → Bool :=
  isClickHouseUnavailable circle

/-- Two calls fail while both are under way. -/
def twoFailures : List (AnalyticsEvent (Value 4) ℕ) :=
  [.call "insert into a" 0, .call "insert into b" 0, .settle 0 (.error (.object 0)),
    .settle 1 (.error (.object 1))]

def afterTwo : Analytics (Value 4) ℕ :=
  twoFailures.foldl (Analytics.step circleUnavailable) { client := true }

/-- The client is closed, and a third call comes. -/
def afterThird : Analytics (Value 4) ℕ :=
  [.closed 0 false, .call "insert into c" 7].foldl (Analytics.step circleUnavailable) afterTwo

lemma reachable_afterTwo : (system ℕ circleUnavailable).Reachable afterTwo :=
  ⟨_, ⟨true, rfl⟩, moves_run _ _⟩

theorem call_fate_two :
    afterTwo.log = [.disabled "insert into a"] ∧ afterTwo.closes = 1 ∧
      ∀ c ∈ afterTwo.calls, c.Fate circleUnavailable := by
  obtain ⟨hfate, -, hcloses, -⟩ := call_fate reachable_afterTwo
  exact ⟨by decide +kernel, hcloses.trans (by decide +kernel), hfate⟩

/-! ### After that -/

/-- The database is disabled, `lines` were reported, and the calls from the `n`-th on have returned
their fallbacks. -/
structure Off (n : ℕ) (lines : List LogLine) (s : Analytics ε α) : Prop where
  disabled : s.clickhouseDisabled = true
  noticed : s.clickhouseNoticeLogged = true
  lines : mainLines s.log = lines
  idle : ∀ k c, n ≤ k → s.calls[k]? = some c →
    c.started = false ∧ c.result = some (.ok c.fallback)

variable {n : ℕ} {lines : List LogLine}

/-- A call that still does something goes on. -/
lemma Off.set (h : Off n lines s) {i : ℕ} (hi : s.calls[i]? = some c)
    (hbusy : c.started = true ∨ c.result = none) (c' : Call ε α) {log : List LogLine}
    (hlog : mainLines log = mainLines s.log) :
    Off n lines { s with log, calls := s.calls.set i c' } := by
  refine ⟨h.disabled, h.noticed, hlog.trans h.lines, fun k x hk hx => ?_⟩
  have hne : i ≠ k := by
    rintro rfl
    obtain ⟨hstarted, hresult⟩ := h.idle i c hk hi
    rcases hbusy with hbusy | hbusy
    · rw [hstarted] at hbusy
      cases hbusy
    · rw [hresult] at hbusy
      cases hbusy
  exact h.idle k x hk ((getElem?_set_ne hne).symm.trans hx)

lemma Off.step (h : Off n lines s) (event : AnalyticsEvent ε α) :
    Off n lines (s.step unavailable event) := by
  cases event with
  | call context fallback =>
    have hno : ¬ s.hasClickHouse = true := by
      rw [Analytics.hasClickHouse, h.disabled, Bool.not_true, Bool.and_false]
      exact Bool.false_ne_true
    simp only [Analytics.step, Analytics.withClickHouse, if_neg hno, h.noticed, if_true]
    refine ⟨h.disabled, rfl, h.lines, fun k c hk hc => ?_⟩
    rcases Nat.lt_or_ge k s.calls.length with hlt | hge
    · rw [getElem?_append_left hlt] at hc
      exact h.idle k c hk hc
    · rw [getElem?_append_right hge] at hc
      obtain rfl := mem_singleton.mp (mem_of_getElem? hc)
      exact ⟨rfl, rfl⟩
  | settle i outcome =>
    cases hi : s.calls[i]? with
    | none =>
      simp only [Analytics.step, hi]
      exact h
    | some c =>
      by_cases hcond : c.started = true ∧ c.outcome.isNone = true
      · simp only [Analytics.step, hi, if_pos hcond]
        cases outcome with
        | ok v => exact h.set hi (Or.inl hcond.1) _ rfl
        | error e =>
          dsimp only
          split_ifs
          · rw [Analytics.disableClickHouse, if_pos h.disabled]
            exact h.set hi (Or.inl hcond.1) _ rfl
          · exact h.set hi (Or.inl hcond.1) _ rfl
      · simp only [Analytics.step, hi, if_neg hcond]
        exact h
  | closed i ok =>
    cases hi : s.calls[i]? with
    | none =>
      simp only [Analytics.step, hi]
      exact h
    | some c =>
      by_cases hcond : c.outcome.isSome = true ∧ c.result.isNone = true
      · simp only [Analytics.step, hi, if_pos hcond]
        refine h.set hi (Or.inr (Option.isNone_iff_eq_none.mp hcond.2)) _ ?_
        cases ok with
        | true => rfl
        | false => exact (mainLines_append _ _).trans (if_pos rfl)
      · simp only [Analytics.step, hi, if_neg hcond]
        exact h

/-- Once the database is disabled, calls start no operation any more and return their fallbacks at
once, and nothing more is reported. -/
theorem disabled_forever {s' : Analytics ε α} (h : (system α unavailable).Reachable s)
    (hdisabled : s.clickhouseDisabled = true)
    (hrun : ReflTransGen (system α unavailable).Moves s s') :
    s'.clickhouseDisabled = true ∧ mainLines s'.log = mainLines s.log ∧
      ∀ k c, s.calls.length ≤ k → s'.calls[k]? = some c →
        c.started = false ∧ c.result = some (.ok c.fallback) := by
  obtain ⟨-, -, hnotice, -⟩ := (inv_of_reachable h).disabled hdisabled
  have hoff : Off s.calls.length (mainLines s.log) s' := by
    refine TransitionSystem.invariant_of_moves (I := Off s.calls.length (mainLines s.log)) ?_ hrun
      ⟨hdisabled, hnotice, rfl, fun k c hk hc => ?_⟩
    · rintro s event _ hoff rfl
      exact hoff.step event
    · rw [getElem?_eq_none hk] at hc
      cases hc
  exact ⟨hoff.disabled, hoff.lines, hoff.idle⟩

end Runs

theorem disabled_forever_third :
    afterThird.log = [.disabled "insert into a", .closeFailed] ∧
      ∀ k c, 2 ≤ k → afterThird.calls[k]? = some c →
        c.started = false ∧ c.result = some (.ok c.fallback) := by
  have hrun : ReflTransGen (system ℕ circleUnavailable).Moves afterTwo afterThird := moves_run _ _
  obtain ⟨-, -, hidle⟩ := disabled_forever reachable_afterTwo (by decide +kernel) hrun
  have hlength : afterTwo.calls.length = 2 := by decide +kernel
  exact ⟨by decide +kernel, hlength ▸ hidle⟩

end Pokerhub.ClickHouse
