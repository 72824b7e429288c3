import Mathlib

/-!
# Logs that are read from an id on

The entries of a log have growing ids. A reader asks for what is behind the last entry that it has
seen, and what it has seen goes on with what it is given (`IdLog.after_lastId`).
-/

open List

/-- A log; no id is the least one. -/
structure IdLog (ι α : Type) [LinearOrder ι] [OrderBot ι] where
  entries : List (ι × α)
  sorted : entries.Pairwise fun e e' => e.1 < e'.1
  bot_lt : ∀ e ∈ entries, ⊥ < e.1

namespace IdLog

variable {ι α : Type} [LinearOrder ι] [OrderBot ι]

def empty : IdLog ι α :=
  ⟨[], .nil, fun _ he => nomatch he⟩

/-- An entry with an id that is not greater than the others is refused. -/
def add (id : ι) (a : α) (log : IdLog ι α) : IdLog ι α :=
  if h : ⊥ < id ∧ ∀ e ∈ log.entries, e.1 < id then
    { entries := log.entries ++ [(id, a)]
      sorted := pairwise_append.mpr ⟨log.sorted, pairwise_singleton _ _, fun e he e' he' => by
        rw [mem_singleton.mp he']
        exact h.2 e he⟩
      bot_lt := fun e he => by
        rcases mem_append.mp he with he | he
        · exact log.bot_lt e he
        · rw [mem_singleton.mp he]
          exact h.1 }
  else log

/-- What is behind an id. -/
def after (last : ι) (log : IdLog ι α) : List (ι × α) :=
  log.entries.filter fun e => last < e.1

/-- The id of the last one of the entries. -/
def lastId (seen : List (ι × α)) : ι :=
  (seen.getLast?.map Prod.fst).getD ⊥

variable {log : IdLog ι α} {seen rest : List (ι × α)} {e : ι × α}

lemma lastId_concat (seen : List (ι × α)) (e : ι × α) : lastId (seen ++ [e]) = e.1 := by
  rw [lastId, getLast?_concat]
  rfl

/-- Entries only come to the end. -/
lemma entries_add (id : ι) (a : α) (log : IdLog ι α) :
    ∃ new, (log.add id a).entries = log.entries ++ new := by
  unfold add
  split_ifs
  · exact ⟨_, rfl⟩
  · exact ⟨[], (append_nil _).symm⟩

lemma le_lastId (h : log.entries = seen ++ rest) (he : e ∈ seen) : e.1 ≤ lastId seen := by
  have hsorted := log.sorted
  rw [h] at hsorted
  obtain ⟨hseen, -, -⟩ := pairwise_append.mp hsorted
  rcases eq_nil_or_concat seen with rfl | ⟨init, last, rfl⟩
  · cases he
  · rw [concat_eq_append] at hseen he ⊢
    rw [lastId_concat]
    rcases mem_append.mp he with he | he
    · exact ((pairwise_append.mp hseen).2.2 e he last (mem_singleton_self last)).le
    · rw [mem_singleton.mp he]

lemma lastId_lt (h : log.entries = seen ++ rest) (he : e ∈ rest) : lastId seen < e.1 := by
  have hsorted := log.sorted
  have hbot := log.bot_lt
  rw [h] at hsorted hbot
  rcases eq_nil_or_concat seen with rfl | ⟨init, last, rfl⟩
  · exact hbot e he
  · rw [concat_eq_append] at hsorted ⊢
    rw [lastId_concat]
    exact (pairwise_append.mp hsorted).2.2 last (mem_append_right _ (mem_singleton_self last)) e he

/-- What is behind the last entry that was seen is the rest. -/
theorem after_lastId (h : log.entries = seen ++ rest) : log.after (lastId seen) = rest := by
  have hold : seen.filter (fun e => lastId seen < e.1) = [] := by
    refine filter_eq_nil_iff.mpr fun e he => ?_
    rw [decide_eq_true_eq, not_lt]
    exact le_lastId h he
  have hnew : rest.filter (fun e => lastId seen < e.1) = rest :=
    filter_eq_self.mpr fun e he => decide_eq_true (lastId_lt h he)
  rw [after, h, filter_append, hold, hnew, nil_append]

end IdLog
