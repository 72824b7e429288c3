import Mathlib.Algebra.Order.Ring.Int
import Mathlib.Data.List.Pairwise
import Mathlib.Data.List.Sort
import Pokerhub.Core.Grouping

/-!
# What players have in common

`detectSharedIP`, `clusterBySharedValues` and `detectSynchronizedBetting` of
`shared/analytics/collusion.ts`. They report exactly what the sessions, the values and the bets of
the players have in common; but the clusters are kept in a plain object, and a value that is the
name of one of its inherited members makes `clusterBySharedValues` throw.
-/

namespace Pokerhub.SharedValues

open Grouping List

/-! ### Shared addresses -/

structure Session where
  playerId : String
  ip : String
  deriving DecidableEq

structure SharedIpResult where
  ip : String
  players : List String
  deriving DecidableEq

/-- The map of `detectSharedIP`. -/
def playersByIp (sessions : List Session) : List (String × List String) :=
  groups add [] (sessions.map fun s => (s.ip, s.playerId))

def detectSharedIP (sessions : List Session) : List SharedIpResult :=
  (playersByIp sessions).filterMap fun g =>
    if g.2.length > 1 then some ⟨g.1, g.2⟩ else none

/-! ### Shared values -/

/-- The members that a plain object inherits. -/
def objectPrototype : List String :=
  ["__defineGetter__", "__defineSetter__", "hasOwnProperty", "__lookupGetter__",
    "__lookupSetter__", "isPrototypeOf", "propertyIsEnumerable", "toString", "valueOf",
    "__proto__", "toLocaleString", "constructor"]

/-- The values of the users, each with its user, in the order of the two loops. -/
def valueEntries (userValues : List (String × List String)) : List (String × String) :=
  userValues.flatMap fun u => u.2.map fun value => (value, u.1)

/-- The clusters, up to their order, or nothing when `add` is called on an inherited member. -/
def clusterBySharedValues (userValues : List (String × List String)) :
    Option (List (String × List String)) :=
  if (valueEntries userValues).any fun e => objectPrototype.contains e.1 then none
  else some ((groups add [] (valueEntries userValues)).filter fun g => g.2.length > 1)

/-! ### Synchronized bets -/

structure BetEvent where
  handId : String
  playerId : String
  timeMs : ℤ
  deriving DecidableEq

structure SynchronizedBettingResult where
  handId : String
  players : List String
  deriving DecidableEq

/-- The map of `detectSynchronizedBetting`. -/
def byHand (events : List BetEvent) : List (String × List BetEvent) :=
  groups (fun list e => list ++ [e]) [] (events.map fun e => (e.handId, e))

/-- There are two times at least, and the first and the last lie within the window. -/
def withinWindow (times : List ℤ) (windowMs : ℤ) : Bool :=
  match times.head?, times.getLast? with
  | some first, some last => decide (times.length > 1) && decide (last - first ≤ windowMs)
  | _, _ => false

def detectSynchronizedBetting (events : List BetEvent) (windowMs : ℤ) :
    List SynchronizedBettingResult :=
  (byHand events).filterMap fun g =>
    if withinWindow ((g.2.map (·.timeMs)).mergeSort (· ≤ ·)) windowMs then
      some ⟨g.1, g.2.map (·.playerId)⟩
    else none

/-! ### What is reported -/

lemma mem_valueEntries {userValues : List (String × List String)} {value user : String} :
    (value, user) ∈ valueEntries userValues ↔
      ∃ values, (user, values) ∈ userValues ∧ value ∈ values := by
  unfold valueEntries
  rw [mem_flatMap]
  constructor
  · rintro ⟨⟨user', values⟩, hu, he⟩
    obtain ⟨value', hvalue, heq⟩ := mem_map.mp he
    obtain ⟨rfl, rfl⟩ := Prod.mk.inj heq
    exact ⟨values, hu, hvalue⟩
  · rintro ⟨values, hu, hvalue⟩
    exact ⟨(user, values), hu, mem_map.mpr ⟨value, hvalue, rfl⟩⟩

/-- Which sets of a map have two elements at least. -/
lemma exists_large_group {κ γ : Type*} [DecidableEq κ] [DecidableEq γ] {entries : List (κ × γ)}
    {k : κ} :
    (∃ g ∈ groups add [] entries, g.1 = k ∧ 1 < g.2.length) ↔
      ∃ x y, (k, x) ∈ entries ∧ (k, y) ∈ entries ∧ x ≠ y := by
  constructor
  · rintro ⟨g, hg, rfl, hlength⟩
    obtain ⟨-, hvalue⟩ := mem_groups.mp hg
    rw [hvalue] at hlength
    obtain ⟨x, hx, y, hy, hne⟩ := (one_lt_length_iff (nodup_foldl_add nodup_nil)).mp hlength
    have hmem : ∀ z ∈ (valuesOf entries g.1).foldl add [], (g.1, z) ∈ entries := fun z hz =>
      mem_valuesOf.mp ((mem_foldl_add.mp hz).resolve_left not_mem_nil)
    exact ⟨x, y, hmem x hx, hmem y hy, hne⟩
  · rintro ⟨x, y, hx, hy, hne⟩
    refine ⟨(k, (valuesOf entries k).foldl add []), mem_groups.mpr ⟨?_, rfl⟩, rfl, ?_⟩
    · exact mem_map_of_mem (f := Prod.fst) hx
    · exact (one_lt_length_iff (nodup_foldl_add nodup_nil)).mpr
        ⟨x, mem_foldl_add.mpr (Or.inr (mem_valuesOf.mpr hx)), y,
          mem_foldl_add.mpr (Or.inr (mem_valuesOf.mpr hy)), hne⟩

/-- The members of a set of a map. -/
lemma mem_group {κ γ : Type*} [DecidableEq κ] [DecidableEq γ] {entries : List (κ × γ)}
    {g : κ × List γ} (hg : g ∈ groups add [] entries) (x : γ) : x ∈ g.2 ↔ (g.1, x) ∈ entries := by
  obtain ⟨-, hvalue⟩ := mem_groups.mp hg
  rw [hvalue, mem_foldl_add, mem_valuesOf]
  simp

lemma nodup_group {κ γ : Type*} [DecidableEq κ] [DecidableEq γ] {entries : List (κ × γ)}
    {g : κ × List γ} (hg : g ∈ groups add [] entries) : g.2.Nodup := by
  obtain ⟨-, hvalue⟩ := mem_groups.mp hg
  rw [hvalue]
  exact nodup_foldl_add nodup_nil

lemma mem_detectSharedIP {sessions : List Session} {r : SharedIpResult} :
    r ∈ detectSharedIP sessions ↔
      (r.ip, r.players) ∈ playersByIp sessions ∧ 1 < r.players.length := by
  unfold detectSharedIP
  rw [mem_filterMap]
  constructor
  · rintro ⟨g, hg, hr⟩
    split_ifs at hr with hlength
    obtain rfl := Option.some.inj hr
    exact ⟨hg, hlength⟩
  · rintro ⟨hg, hlength⟩
    exact ⟨_, hg, by rw [if_pos hlength]⟩

lemma mem_sessions {sessions : List Session} {ip playerId : String} :
    (ip, playerId) ∈ sessions.map (fun s => (s.ip, s.playerId)) ↔ ⟨playerId, ip⟩ ∈ sessions := by
  rw [mem_map]
  constructor
  · rintro ⟨s, hs, heq⟩
    obtain ⟨rfl, rfl⟩ := Prod.mk.inj heq
    exact hs
  · exact fun hs => ⟨_, hs, rfl⟩

/-- An address is reported exactly when two different players have used it, once, and with each
player who has used it once. -/
theorem detectSharedIP_exact (sessions : List Session) :
    ((detectSharedIP sessions).map (·.ip)).Nodup ∧
      (∀ ip, ip ∈ (detectSharedIP sessions).map (·.ip) ↔
        ∃ p q, ⟨p, ip⟩ ∈ sessions ∧ ⟨q, ip⟩ ∈ sessions ∧ p ≠ q) ∧
      ∀ r ∈ detectSharedIP sessions,
        r.players.Nodup ∧ ∀ p, p ∈ r.players ↔ ⟨p, r.ip⟩ ∈ sessions := by
  refine ⟨?_, fun ip => ?_, fun r hr => ?_⟩
  · have hsub : ((detectSharedIP sessions).map (·.ip)).Sublist
        ((playersByIp sessions).map Prod.fst) := by
      unfold detectSharedIP
      induction playersByIp sessions with
      | nil => exact .refl _
      | cons g gs ih =>
        rw [filterMap_cons]
        split_ifs
        · exact ih.cons_cons _
        · exact ih.cons _
    exact nodup_keys.sublist hsub
  · have hlarge := @exists_large_group _ _ _ _ (sessions.map fun s => (s.ip, s.playerId)) ip
    simp only [mem_sessions] at hlarge
    rw [← hlarge, mem_map]
    constructor
    · rintro ⟨r, hr, rfl⟩
      obtain ⟨hg, hlength⟩ := mem_detectSharedIP.mp hr
      exact ⟨_, hg, rfl, hlength⟩
    · rintro ⟨g, hg, rfl, hlength⟩
      exact ⟨⟨g.1, g.2⟩, mem_detectSharedIP.mpr ⟨hg, hlength⟩, rfl⟩
  · obtain ⟨hg, -⟩ := mem_detectSharedIP.mp hr
    exact ⟨nodup_group hg, fun p => (mem_group hg p).trans mem_sessions⟩

/-- The clusters fail exactly when some value is the name of an inherited member; otherwise a value
has a cluster exactly when two different users have it, and the cluster is each user who has it
once. -/
theorem clusterBySharedValues_exact (userValues : List (String × List String)) :
    (clusterBySharedValues userValues = none ↔
      ∃ value ∈ objectPrototype, ∃ user values, (user, values) ∈ userValues ∧ value ∈ values) ∧
    ∀ clusters, clusterBySharedValues userValues = some clusters →
      (clusters.map Prod.fst).Nodup ∧
        (∀ value, value ∈ clusters.map Prod.fst ↔
          ∃ u v, (∃ values, (u, values) ∈ userValues ∧ value ∈ values) ∧
            (∃ values, (v, values) ∈ userValues ∧ value ∈ values) ∧ u ≠ v) ∧
        ∀ g ∈ clusters, g.2.Nodup ∧
          ∀ u, u ∈ g.2 ↔ ∃ values, (u, values) ∈ userValues ∧ g.1 ∈ values := by
  have hany : ((valueEntries userValues).any fun e => objectPrototype.contains e.1) = true ↔
      ∃ value ∈ objectPrototype, ∃ user values, (user, values) ∈ userValues ∧ value ∈ values := by
    rw [any_eq_true]
    constructor
    · rintro ⟨⟨value, user⟩, he, hvalue⟩
      exact ⟨value, by simpa using hvalue, user, mem_valueEntries.mp he⟩
    · rintro ⟨value, hvalue, user, he⟩
      exact ⟨(value, user), mem_valueEntries.mpr he, by simpa using hvalue⟩
  unfold clusterBySharedValues
  refine ⟨?_, fun clusters hclusters => ?_⟩
  · rw [← hany]
    split_ifs with hthrows
    · exact iff_of_true rfl hthrows
    · exact iff_of_false id hthrows
  · split_ifs at hclusters
    obtain rfl := Option.some.inj hclusters
    refine ⟨?_, fun value => ?_, fun g hg => ?_⟩
    · exact nodup_keys.sublist (filter_sublist.map _)
    · have hlarge := @exists_large_group _ _ _ _ (valueEntries userValues) value
      simp only [mem_valueEntries] at hlarge
      rw [← hlarge, mem_map]
      constructor
      · rintro ⟨g, hg, rfl⟩
        obtain ⟨hg, hlength⟩ := mem_filter.mp hg
        exact ⟨g, hg, rfl, by simpa using hlength⟩
      · rintro ⟨g, hg, rfl, hlength⟩
        exact ⟨g, mem_filter.mpr ⟨hg, by simpa using hlength⟩, rfl⟩
    · obtain ⟨hg, -⟩ := mem_filter.mp hg
      exact ⟨nodup_group hg, fun u => (mem_group hg u).trans mem_valueEntries⟩

/-- The first and the last of sorted times tell how far any two of them are apart. -/
lemma withinWindow_mergeSort (times : List ℤ) (windowMs : ℤ) :
    withinWindow (times.mergeSort (· ≤ ·)) windowMs = true ↔
      1 < times.length ∧ ∀ t ∈ times, ∀ t' ∈ times, t' - t ≤ windowMs := by
  have hsorted : (times.mergeSort (· ≤ ·)).Pairwise fun a b => decide (a ≤ b) = true :=
    pairwise_mergeSort (fun a b c => by simpa using le_trans)
      (fun a b => by simpa using le_total a b) _
  have hlength : (times.mergeSort (· ≤ ·)).length = times.length := length_mergeSort _
  have hmem : ∀ t, t ∈ times.mergeSort (· ≤ ·) ↔ t ∈ times := fun t => mem_mergeSort
  generalize times.mergeSort (· ≤ ·) = sorted at hsorted hlength hmem
  rcases sorted with _ | ⟨first, rest⟩
  · have hnil : times = [] := eq_nil_of_length_eq_zero hlength.symm
    simp [withinWindow, hnil]
  · have hlast : (first :: rest).getLast? = some ((first :: rest).getLast (cons_ne_nil _ _)) :=
      getLast?_eq_some_getLast _
    set last := (first :: rest).getLast (cons_ne_nil _ _) with hlastdef
    have hfirst_le : ∀ t ∈ first :: rest, first ≤ t := by
      intro t ht
      rcases mem_cons.mp ht with rfl | ht
      · exact le_refl _
      · simpa using rel_of_pairwise_cons hsorted ht
    have hle_last : ∀ t ∈ first :: rest, t ≤ last := by
      intro t ht
      have hrefl : Std.Refl fun a b : ℤ => decide (a ≤ b) = true := ⟨fun a => by simp⟩
      simpa using hsorted.rel_getLast ht
    simp only [withinWindow, head?_cons, hlast, Bool.and_eq_true, decide_eq_true_eq]
    rw [hlength]
    refine and_congr_right fun _ => ⟨fun hwindow t ht t' ht' => ?_, fun hall => ?_⟩
    · have h₁ := hfirst_le t ((hmem t).mpr ht)
      have h₂ := hle_last t' ((hmem t').mpr ht')
      omega
    · exact hall first ((hmem _).mp mem_cons_self) last ((hmem _).mp (getLast_mem _))

/-- A hand is reported exactly when it has two bets at least and any two of its bets lie within the
window, once, and with the players of its bets in their order. -/
theorem detectSynchronizedBetting_exact (events : List BetEvent) (windowMs : ℤ)
    (r : SynchronizedBettingResult) :
    r ∈ detectSynchronizedBetting events windowMs ↔
      r.players = (events.filter fun e => e.handId = r.handId).map (·.playerId) ∧
        1 < r.players.length ∧
        ∀ e ∈ events, ∀ e' ∈ events, e.handId = r.handId → e'.handId = r.handId →
          e'.timeMs - e.timeMs ≤ windowMs := by
  set entries := events.map fun e => (e.handId, e)
  have hvalues : valuesOf entries r.handId = events.filter fun e => e.handId = r.handId := by
    rw [valuesOf, filter_map, map_map]
    exact map_id _
  have hgroup : ∀ {list : List BetEvent}, (r.handId, list) ∈ byHand events ↔
      r.handId ∈ entries.map Prod.fst ∧ list = events.filter fun e => e.handId = r.handId := by
    intro list
    rw [byHand, mem_groups, foldl_push, nil_append, hvalues]
  have hmem : r ∈ detectSynchronizedBetting events windowMs ↔ ∃ list,
      (r.handId, list) ∈ byHand events ∧
        withinWindow ((list.map (·.timeMs)).mergeSort (· ≤ ·)) windowMs = true ∧
        r.players = list.map (·.playerId) := by
    unfold detectSynchronizedBetting
    rw [mem_filterMap]
    constructor
    · rintro ⟨g, hg, hr⟩
      split_ifs at hr with hwindow
      obtain rfl := Option.some.inj hr
      exact ⟨g.2, hg, hwindow, rfl⟩
    · rintro ⟨list, hg, hwindow, hplayers⟩
      exact ⟨_, hg, by rw [if_pos hwindow, ← hplayers]⟩
  rw [hmem]
  constructor
  · rintro ⟨list, hg, hwindow, hplayers⟩
    obtain ⟨-, rfl⟩ := hgroup.mp hg
    obtain ⟨hlength, hall⟩ := (withinWindow_mergeSort _ _).mp hwindow
    refine ⟨hplayers, ?_, fun e he e' he' hhand hhand' => ?_⟩
    · rw [hplayers, length_map]
      rwa [length_map] at hlength
    · exact hall _ (mem_map_of_mem (mem_filter.mpr ⟨he, by simpa using hhand⟩)) _
        (mem_map_of_mem (mem_filter.mpr ⟨he', by simpa using hhand'⟩))
  · rintro ⟨hplayers, hlength, hall⟩
    rw [hplayers, length_map] at hlength
    refine ⟨_, hgroup.mpr ⟨?_, rfl⟩, (withinWindow_mergeSort _ _).mpr ⟨?_, ?_⟩, hplayers⟩
    · obtain ⟨e, he⟩ := exists_mem_of_length_pos (Nat.lt_of_succ_lt hlength)
      obtain ⟨he, hhand⟩ := mem_filter.mp he
      exact mem_map.mpr ⟨(e.handId, e), mem_map_of_mem he, by simpa using hhand⟩
    · rwa [length_map]
    · intro t ht t' ht'
      obtain ⟨e, he, rfl⟩ := mem_map.mp ht
      obtain ⟨e', he', rfl⟩ := mem_map.mp ht'
      obtain ⟨he, hhand⟩ := mem_filter.mp he
      obtain ⟨he', hhand'⟩ := mem_filter.mp he'
      exact hall e he e' he' (by simpa using hhand) (by simpa using hhand')

end Pokerhub.SharedValues
