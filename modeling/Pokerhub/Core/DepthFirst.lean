import Mathlib.Data.List.FinRange
import Mathlib.Data.List.Perm.Subperm
import Mathlib.Logic.Relation

/-!
# Searches that remember

A depth-first search for a node that is a hit. The nodes are remembered for the whole search, and
one that was seen before is not searched again, so the search ends on graphs with cycles too. It
finds a hit exactly when one can be reached (`DepthFirst.search_iff`): if it finds none, the nodes
that it has seen are closed under the edges.
-/

namespace DepthFirst

open List Relation

variable {ν : Type}

/-- Goes through nodes up to the first from which a hit is found. -/
def visitAll (visit : ν → List ν → Option (Bool × List ν)) :
    List ν → List ν → Option (Bool × List ν)
  | [], seen => some (false, seen)
  | x :: xs, seen =>
    match visit x seen with
    | none => none
    | some (true, seen') => some (true, seen')
    | some (false, seen') => visitAll visit xs seen'

variable [DecidableEq ν]

/-- Whether there is a hit from `x` on, and the nodes that were seen. It returns nothing if there
are more than `fuel` calls inside each other. -/
def visit (next : ν → List ν) (hit : ν → Bool) : ℕ → ν → List ν → Option (Bool × List ν)
  | 0, _, _ => none
  | fuel + 1, x, seen =>
    if x ∈ seen then some (false, seen)
    else if hit x then some (true, x :: seen)
    else visitAll (visit next hit fuel) (next x) (x :: seen)

def search (next : ν → List ν) (hit : ν → Bool) (fuel : ℕ) (x : ν) : Option Bool :=
  (visit next hit fuel x []).map Prod.fst

variable {next : ν → List ν} {hit : ν → Bool}

/-! ### What is found -/

section Found

omit [DecidableEq ν]

variable (next hit) in
/-- A hit can be reached. -/
def Reaches (x : ν) : Prop :=
  ∃ y, ReflTransGen (fun a b => b ∈ next a) x y ∧ hit y = true

variable (next hit) in
/-- What was seen in between is no hit, and its successors were seen, too. -/
structure Explored (seen seen' : List ν) : Prop where
  subset : seen ⊆ seen'
  closed : ∀ y ∈ seen', y ∈ seen ∨ hit y = false ∧ ∀ z ∈ next y, z ∈ seen'

lemma explored_refl (seen : List ν) : Explored next hit seen seen :=
  ⟨fun _ h => h, fun _ hy => Or.inl hy⟩

lemma Explored.trans {seen seen₁ seen₂ : List ν} (h₁ : Explored next hit seen seen₁)
    (h₂ : Explored next hit seen₁ seen₂) : Explored next hit seen seen₂ := by
  refine ⟨fun y hy => h₂.subset (h₁.subset hy), fun y hy => ?_⟩
  rcases h₂.closed y hy with hy | hy
  · rcases h₁.closed y hy with hy | ⟨hhit, hnext⟩
    · exact Or.inl hy
    · exact Or.inr ⟨hhit, fun z hz => h₂.subset (hnext z hz)⟩
  · exact Or.inr hy

variable (next hit) in
/-- A node from which nothing was found has been seen. -/
structure Found (x : ν) (seen : List ν) (r : Bool × List ν) : Prop where
  sound : r.1 = true → Reaches next hit x
  complete : r.1 = false → x ∈ r.2 ∧ Explored next hit seen r.2

lemma visitAll_found {f : ν → List ν → Option (Bool × List ν)}
    (hf : ∀ x seen r, f x seen = some r → Found next hit x seen r)
    {xs seen : List ν} {r : Bool × List ν} (h : visitAll f xs seen = some r) :
    (r.1 = true → ∃ x ∈ xs, Reaches next hit x) ∧
      (r.1 = false → (∀ x ∈ xs, x ∈ r.2) ∧ Explored next hit seen r.2) := by
  induction xs generalizing seen with
  | nil =>
    obtain rfl := Option.some.inj h
    exact ⟨fun hfound => absurd hfound Bool.false_ne_true,
      fun _ => ⟨fun x hx => absurd hx not_mem_nil, explored_refl seen⟩⟩
  | cons x xs ih =>
    rw [visitAll] at h
    cases hx : f x seen with
    | none =>
      rw [hx] at h
      cases h
    | some rx =>
      obtain ⟨found, seen'⟩ := rx
      have hfx := hf x seen _ hx
      rw [hx] at h
      cases found with
      | true =>
        obtain rfl := Option.some.inj h
        exact ⟨fun _ => ⟨x, mem_cons_self, hfx.sound rfl⟩,
          fun hfound => absurd hfound.symm Bool.false_ne_true⟩
      | false =>
        obtain ⟨hmem, hexplored⟩ := hfx.complete rfl
        obtain ⟨hsound, hcomplete⟩ := ih h
        constructor
        · intro hfound
          obtain ⟨y, hy, hreach⟩ := hsound hfound
          exact ⟨y, mem_cons_of_mem x hy, hreach⟩
        · intro hfound
          obtain ⟨hall, hrest⟩ := hcomplete hfound
          refine ⟨fun y hy => ?_, hexplored.trans hrest⟩
          rcases mem_cons.mp hy with rfl | hy
          · exact hrest.subset hmem
          · exact hall y hy

end Found

lemma visit_found {fuel : ℕ} {x : ν} {seen : List ν} {r : Bool × List ν}
    (h : visit next hit fuel x seen = some r) :
    Found next hit x seen r := by
  induction fuel generalizing x seen r with
  | zero => cases h
  | succ fuel ih =>
    rw [visit] at h
    split_ifs at h with hseen hhit
    · obtain rfl := Option.some.inj h
      exact ⟨fun hfound => absurd hfound Bool.false_ne_true,
        fun _ => ⟨hseen, explored_refl seen⟩⟩
    · obtain rfl := Option.some.inj h
      exact ⟨fun _ => ⟨x, .refl, hhit⟩, fun hfound => absurd hfound.symm Bool.false_ne_true⟩
    · obtain ⟨hsound, hcomplete⟩ := visitAll_found (fun x seen r => ih) h
      constructor
      · intro hfound
        obtain ⟨y, hy, z, hreach, hz⟩ := hsound hfound
        exact ⟨z, hreach.head hy, hz⟩
      · intro hfound
        obtain ⟨hall, hexplored⟩ := hcomplete hfound
        refine ⟨hexplored.subset mem_cons_self,
          fun y hy => hexplored.subset (mem_cons_of_mem x hy), fun y hy => ?_⟩
        rcases hexplored.closed y hy with hy | hy
        · rcases mem_cons.mp hy with rfl | hy
          · exact Or.inr ⟨Bool.eq_false_iff.mpr hhit, hall⟩
          · exact Or.inl hy
        · exact Or.inr hy

/-! ### The end of the search -/

/-- What was seen lies in the graph, each node once. -/
structure Within (nodes seen : List ν) : Prop where
  nodup : seen.Nodup
  subset : seen ⊆ nodes

omit [DecidableEq ν] in
lemma Within.length_le {nodes seen : List ν} (h : Within nodes seen) :
    seen.length ≤ nodes.length :=
  (h.nodup.subperm h.subset).length_le

section Ends

variable {nodes : List ν}

omit [DecidableEq ν] in
lemma visitAll_ends {f : ν → List ν → Option (Bool × List ν)} {n : ℕ}
    (hf : ∀ x ∈ nodes, ∀ seen, Within nodes seen → n ≤ seen.length →
      ∃ found seen', f x seen = some (found, seen') ∧ Within nodes seen' ∧
        seen.length ≤ seen'.length)
    {xs seen : List ν} (hxs : xs ⊆ nodes) (hseen : Within nodes seen) (hn : n ≤ seen.length) :
    ∃ found seen', visitAll f xs seen = some (found, seen') ∧ Within nodes seen' ∧
      seen.length ≤ seen'.length := by
  induction xs generalizing seen with
  | nil => exact ⟨false, seen, rfl, hseen, Nat.le_refl _⟩
  | cons x xs ih =>
    obtain ⟨found, seen', hx, hwithin, hle⟩ := hf x (hxs mem_cons_self) seen hseen hn
    rw [visitAll, hx]
    cases found with
    | true => exact ⟨true, seen', rfl, hwithin, hle⟩
    | false =>
      obtain ⟨found, seen'', hrest, hwithin', hle'⟩ :=
        ih (fun y hy => hxs (mem_cons_of_mem x hy)) hwithin (Nat.le_trans hn hle)
      exact ⟨found, seen'', hrest, hwithin', Nat.le_trans hle hle'⟩

/-- Each call inside another has seen one node more. -/
lemma visit_ends (hnext : ∀ x ∈ nodes, next x ⊆ nodes) {fuel : ℕ} {x : ν} {seen : List ν}
    (hx : x ∈ nodes) (hseen : Within nodes seen) (hfuel : nodes.length < fuel + seen.length) :
    ∃ found seen', visit next hit fuel x seen = some (found, seen') ∧ Within nodes seen' ∧
      seen.length ≤ seen'.length := by
  induction fuel generalizing x seen with
  | zero =>
    rw [Nat.zero_add] at hfuel
    exact absurd hseen.length_le (Nat.not_le_of_lt hfuel)
  | succ fuel ih =>
    rw [visit]
    split_ifs with hmem hhit
    · exact ⟨false, seen, rfl, hseen, Nat.le_refl _⟩
    · exact ⟨true, x :: seen, rfl, ⟨nodup_cons.mpr ⟨hmem, hseen.nodup⟩,
        cons_subset.mpr ⟨hx, hseen.subset⟩⟩, Nat.le_succ _⟩
    · have hcons : Within nodes (x :: seen) :=
        ⟨nodup_cons.mpr ⟨hmem, hseen.nodup⟩, cons_subset.mpr ⟨hx, hseen.subset⟩⟩
      obtain ⟨found, seen', hall, hwithin, hle⟩ :=
        visitAll_ends (n := (x :: seen).length) (f := visit next hit fuel)
          (fun y hy seen' hseen' hlength => ih hy hseen' (by
            rw [length_cons] at hlength
            omega))
          (hnext x hx) hcons (Nat.le_refl _)
      exact ⟨found, seen', hall, hwithin, Nat.le_trans (Nat.le_succ _) hle⟩

end Ends

/-- In a finite graph the search ends, and it finds a hit exactly when one can be reached. -/
theorem search_iff {nodes : List ν} (hnext : ∀ x ∈ nodes, next x ⊆ nodes) {fuel : ℕ} {x : ν}
    (hx : x ∈ nodes) (hfuel : nodes.length < fuel) :
    ∃ found, search next hit fuel x = some found ∧ (found = true ↔ Reaches next hit x) := by
  have hempty : Within nodes ([] : List ν) := ⟨nodup_nil, nil_subset _⟩
  obtain ⟨found, seen, hvisit, -, -⟩ : ∃ found seen, visit next hit fuel x [] = some (found, seen) ∧
      Within nodes seen ∧ ([] : List ν).length ≤ seen.length :=
    visit_ends hnext hx hempty (by rwa [length_nil, Nat.add_zero])
  have hfound := visit_found hvisit
  refine ⟨found, by rw [search, hvisit]; rfl, fun h => hfound.sound h, ?_⟩
  rintro ⟨y, hreach, hhit⟩
  refine Bool.eq_false_or_eq_true found |>.resolve_right fun hfalse => ?_
  obtain ⟨hmem, hexplored⟩ := hfound.complete hfalse
  -- all that can be reached was seen, and is no hit
  have hall : y ∈ seen := by
    clear hhit
    induction hreach with
    | refl => exact hmem
    | tail _ hz ih =>
      rcases hexplored.closed _ ih with hnil | ⟨-, hclosed⟩
      · exact absurd hnil not_mem_nil
      · exact hclosed _ hz
  rcases hexplored.closed y hall with hnil | ⟨hno, -⟩
  · exact not_mem_nil hnil
  · rw [hno] at hhit
    exact Bool.false_ne_true hhit

end DepthFirst
