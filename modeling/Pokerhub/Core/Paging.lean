import Mathlib.Data.List.Basic

/-!
# Following pages

A listing answers a request with a page, and the page leads to the next request or is the last one.
If the pages are consecutive parts of a list and each request but the last one gets on in it, the
last page is reached, and together the pages are the list (`exists_followPages`).
-/

variable {ρ π α : Type*}

/-- The pages from a request on, if the last one is among the first `n`. -/
def followPages (answer : ρ → Option π) (next : ρ → π → Option ρ) : ℕ → ρ → Option (List π)
  | 0, _ => none
  | n + 1, request => do
    let page ← answer request
    match next request page with
    | none => some [page]
    | some request' => (followPages answer next n request').map (page :: ·)

variable {answer : ρ → Option π} {next : ρ → π → Option ρ} {n : ℕ} {request request' : ρ} {page : π}

lemma followPages_last (hanswer : answer request = some page) (hnext : next request page = none) :
    followPages answer next (n + 1) request = some [page] := by
  simp [followPages, hanswer, hnext]

lemma followPages_next (hanswer : answer request = some page)
    (hnext : next request page = some request') :
    followPages answer next (n + 1) request =
      (followPages answer next n request').map (page :: ·) := by
  simp [followPages, hanswer, hnext]

/-- `asks request offset` says that a request is for the rows from `offset` on. -/
theorem exists_followPages {rows : List α} {items : π → List α} {asks : ρ → ℕ → Prop}
    {good : π → Prop}
    (hpage : ∀ request offset, asks request offset → ∃ page, answer request = some page ∧
      good page ∧ ((next request page = none ∧ items page = rows.drop offset) ∨
        ∃ request' offset', next request page = some request' ∧ asks request' offset' ∧
          offset < offset' ∧ offset' < rows.length ∧
          items page = (rows.drop offset).take (offset' - offset)))
    {offset : ℕ} (h : asks request offset) :
    ∃ n pages, followPages answer next n request = some pages ∧
      pages.flatMap items = rows.drop offset ∧ ∀ page ∈ pages, good page := by
  -- the rows that are left become fewer
  induction hleft : rows.length - offset using Nat.strongRecOn generalizing request offset with
  | ind left ih =>
    obtain ⟨page, hanswer, hgood, hnext⟩ := hpage request offset h
    rcases hnext with ⟨hnext, hitems⟩ | ⟨request', offset', hnext, hasks, hlt, hle, hitems⟩
    · refine ⟨1, [page], followPages_last hanswer hnext, ?_, ?_⟩
      · rw [List.flatMap_singleton, hitems]
      · simpa using hgood
    · obtain ⟨n, pages, hpages, hrest, hall⟩ := ih (rows.length - offset') (by omega) hasks rfl
      refine ⟨n + 1, page :: pages, ?_, ?_, List.forall_mem_cons.mpr ⟨hgood, hall⟩⟩
      · rw [followPages_next hanswer hnext, hpages]
        rfl
      · have hdrop : rows.drop offset' = (rows.drop offset).drop (offset' - offset) := by
          rw [List.drop_drop, Nat.add_sub_cancel' (Nat.le_of_lt hlt)]
        rw [List.flatMap_cons, hrest, hitems, hdrop, List.take_append_drop]
