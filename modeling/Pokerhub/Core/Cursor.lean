import Mathlib.Data.Option.Basic
import Mathlib.Order.Basic

/-!
# Reading a log from a committed offset

A reader handles the messages of a log one after another and commits now and then how far it has
come. Whenever it starts, it goes on from the committed offset, or from the end of the log if there
is none. Nothing that it has passed since its last start at the end is left out (`Cursor.Covers`),
that start is the last such one once an offset is committed (`Cursor.Continues`), and a message is
handled once for each start at most (`Counted`).
-/

structure Cursor where
  /-- The offset of its last start without a committed offset. -/
  base : ℕ
  /-- The offset of the message that it handles or waits for. -/
  position : ℕ
  committed : Option ℕ := none
  deriving DecidableEq

namespace Cursor

/-- A start, with a log of this length. -/
def start (length : ℕ) (c : Cursor) : Cursor :=
  match c.committed with
  | some offset => { c with position := offset }
  | none => { c with base := length, position := length }

/-- The message at the position is done with. -/
def advance (c : Cursor) : Cursor :=
  { c with position := c.position + 1 }

def commit (c : Cursor) : Cursor :=
  { c with committed := some (c.position + 1) }

/-- What has been passed or committed is done with. -/
structure Covers (done : ℕ → Prop) (c : Cursor) : Prop where
  base_le : c.base ≤ c.position
  passed : ∀ i, c.base ≤ i → i < c.position → done i
  base_le_committed : ∀ offset ∈ c.committed, c.base ≤ offset
  committed : ∀ offset ∈ c.committed, ∀ i, c.base ≤ i → i < offset → done i

variable {done done' : ℕ → Prop} {c c' c'' : Cursor}

lemma Covers.mono (h : c.Covers done) (hdone : ∀ i, done i → done' i) : c.Covers done' where
  base_le := h.base_le
  passed i hbase hi := hdone i (h.passed i hbase hi)
  base_le_committed := h.base_le_committed
  committed offset hoffset i hbase hi := hdone i (h.committed offset hoffset i hbase hi)

/-- Up to the message at the position. -/
lemma Covers.through (h : c.Covers done) (hdone : done c.position) (i : ℕ) (hbase : c.base ≤ i)
    (hi : i < c.position + 1) : done i := by
  rcases Nat.lt_succ_iff_lt_or_eq.mp hi with hi | rfl
  · exact h.passed i hbase hi
  · exact hdone

lemma Covers.advance (h : c.Covers done) (hdone : done c.position) : c.advance.Covers done where
  base_le := Nat.le_succ_of_le h.base_le
  passed := h.through hdone
  base_le_committed := h.base_le_committed
  committed := h.committed

lemma Covers.commit (h : c.Covers done) (hdone : done c.position) : c.commit.Covers done where
  base_le := h.base_le
  passed := h.passed
  base_le_committed := by
    rintro offset ⟨⟩
    exact Nat.le_succ_of_le h.base_le
  committed := by
    rintro offset ⟨⟩
    exact h.through hdone

/-- A start without a committed offset has passed nothing yet. -/
lemma Covers.first (done : ℕ → Prop) (length : ℕ) :
    (⟨length, length, none⟩ : Cursor).Covers done where
  base_le := Nat.le_refl _
  passed i hbase hi := absurd hi (Nat.not_lt_of_le hbase)
  base_le_committed offset hoffset := by cases hoffset
  committed offset hoffset := by cases hoffset

lemma Covers.start (h : c.Covers done) (length : ℕ) : (c.start length).Covers done := by
  obtain ⟨base, position, committed⟩ := c
  cases committed with
  | some offset =>
    exact ⟨h.base_le_committed offset rfl, h.committed offset rfl, h.base_le_committed, h.committed⟩
  | none => exact .first done length

/-- Once an offset is committed, one stays committed and the base does not move. -/
structure Continues (c c' : Cursor) : Prop where
  base : c.committed ≠ none → c'.base = c.base
  committed : c.committed ≠ none → c'.committed ≠ none

lemma Continues.refl (c : Cursor) : Continues c c :=
  ⟨fun _ => rfl, id⟩

lemma Continues.trans (h : Continues c c') (h' : Continues c' c'') : Continues c c'' where
  base hc := (h'.base (h.committed hc)).trans (h.base hc)
  committed hc := h'.committed (h.committed hc)

lemma continues_advance (c : Cursor) : Continues c c.advance :=
  ⟨fun _ => rfl, id⟩

lemma continues_commit (c : Cursor) : Continues c c.commit :=
  ⟨fun _ => rfl, fun _ => Option.some_ne_none _⟩

lemma continues_start (length : ℕ) (c : Cursor) : Continues c (c.start length) := by
  obtain ⟨base, position, committed⟩ := c
  cases committed with
  | some offset => exact ⟨fun _ => rfl, id⟩
  | none => exact ⟨fun hc => absurd rfl hc, fun hc => absurd rfl hc⟩

end Cursor

/-! ### How often -/

/-- After so many restarts, with the messages before `reached` taken since the last one. -/
def Counted (count : ℕ → ℕ) (restarts reached : ℕ) : Prop :=
  ∀ i, count i ≤ restarts + if i < reached then 1 else 0

namespace Counted

variable {count count' : ℕ → ℕ} {restarts n n' : ℕ}

lemma le (h : Counted count restarts n) (i : ℕ) : count i ≤ restarts + 1 := by
  refine Nat.le_trans (h i) (Nat.add_le_add_left ?_ _)
  split_ifs <;> decide

/-- Where nothing has been taken yet. -/
lemma le_of_not_lt (h : Counted count restarts n) {i : ℕ} (hi : ¬ i < n) : count i ≤ restarts := by
  have hcount := h i
  rwa [if_neg hi] at hcount

lemma mono (h : Counted count restarts n) (hn : n ≤ n') : Counted count restarts n' := by
  intro i
  refine Nat.le_trans (h i) (Nat.add_le_add_left ?_ _)
  split_ifs with hi hi'
  · exact Nat.le_refl 1
  · exact absurd (Nat.lt_of_lt_of_le hi hn) hi'
  · exact Nat.zero_le 1
  · exact Nat.le_refl 0

/-- The next message is taken once. -/
lemma take (h : Counted count restarts n) (hother : ∀ i, i ≠ n → count' i = count i)
    (hn : count' n ≤ count n + 1) : Counted count' restarts (n + 1) := by
  intro i
  rcases eq_or_ne i n with rfl | hi
  · rw [if_pos (Nat.lt_succ_self i)]
    exact Nat.le_trans hn (Nat.succ_le_succ (h.le_of_not_lt (Nat.lt_irrefl i)))
  · rw [hother i hi]
    exact h.mono (Nat.le_succ n) i

lemma restart (h : Counted count restarts n) (n' : ℕ) : Counted count (restarts + 1) n' :=
  fun i => Nat.le_trans (h.le i) (Nat.le_add_right _ _)

end Counted
