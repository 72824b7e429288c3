import Mathlib.Data.List.Induction
import Mathlib.Data.List.Nodup
import Pokerhub.Core.Rows
import Pokerhub.Core.UpdateFirst
import Pokerhub.Tournament.Calls

/-!
# Balancing the tables of a tournament

`balanceTables` and `balanceTournament` of `tournament.service.ts`. Players are moved one at a time
from the first of the longest tables to the first of the shortest ones, until the sizes differ by
at most one or nobody at the longest table may be moved.

`balanceTournament` loads the seats of the tables and the users of the seats. Whether a seat that is
loaded in this way knows its table is up to the library of the database: `populated`.
-/

namespace Pokerhub.TournamentService

open List

/-- `Map<string, number>`; the entry of a player that was set last comes first. -/
abbrev RecentlyMoved := List (String × ℕ)

/-! ### The assignment of players to tables -/

/-- The sizes that the `forEach` has seen. No `min` is `Infinity`. -/
structure Sizes where
  max : ℕ := 0
  min : Option ℕ := none
  maxIdx : ℕ := 0
  minIdx : ℕ := 0

/-- One turn of the `forEach`. -/
def Sizes.see (z : Sizes) (t : List String) (i : ℕ) : Sizes where
  max := if z.max < t.length then t.length else z.max
  min := if z.min.all (t.length < ·) then some t.length else z.min
  maxIdx := if z.max < t.length then i else z.maxIdx
  minIdx := if z.min.all (t.length < ·) then i else z.minIdx

def sizes (result : List (List String)) : Sizes :=
  result.zipIdx.foldl (fun z t => z.see t.1 t.2) {}

/-- `max - min <= 1` -/
def Sizes.even (z : Sizes) : Bool :=
  z.min.all (z.max ≤ · + 1)

section Balance

variable (currentHand avoidWithin : ℕ)

/-- `currentHand - (recentlyMoved.get(p) ?? -Infinity) >= avoidWithin` -/
def mayMove (recentlyMoved : RecentlyMoved) (p : String) : Bool :=
  (recentlyMoved.lookup p).all (· + avoidWithin ≤ currentHand)

/-- The last player of the longest table who may be moved, and the tables without him; none when
the sizes are even or there is no such player. -/
def takePlayer (recentlyMoved : RecentlyMoved) (result : List (List String)) :
    Option (String × List (List String)) :=
  let z := sizes result
  if z.even then none
  else
    ((result.getD z.maxIdx []).takeLast? (mayMove currentHand avoidWithin recentlyMoved)).map
      fun (player, row) => (player, result.set z.maxIdx row)

/-- The `while` loop. It breaks when there is no player, and `!player` is true for the empty string
as well. -/
def balanceLoop : ℕ → RecentlyMoved → List (List String) → RecentlyMoved × List (List String)
  | 0, recentlyMoved, result => (recentlyMoved, result)
  | fuel + 1, recentlyMoved, result =>
    match takePlayer currentHand avoidWithin recentlyMoved result with
    | none => (recentlyMoved, result)
    | some (player, rest) =>
      if player = "" then (recentlyMoved, rest)
      else
        balanceLoop fuel ((player, currentHand) :: recentlyMoved)
          (rest.modify (sizes result).minIdx (· ++ [player]))

/-- The map after the call, and the tables. Each turn lowers the weight of the tables
(`weight_modify_lt`), so there is fuel for all of them (`balanceLoop_eq`). -/
def balanceTables (tables : List (List String)) (recentlyMoved : RecentlyMoved) :
    RecentlyMoved × List (List String) :=
  balanceLoop currentHand avoidWithin (tables.weight + 1) recentlyMoved tables

end Balance

/-! ### The seats that are moved -/

namespace Store

/-- `tables.flatMap((t) => t.seats)` -/
def loadedSeats (s : Store) (tournamentId : String) : List Seat :=
  (s.tablesOf tournamentId).flatMap s.seatsAt

/-- `tables.map((t) => t.seats.map((s) => s.user.id))` -/
def tablePlayers (s : Store) (tournamentId : String) : List (List String) :=
  (s.tablesOf tournamentId).map fun t => (s.seatsAt t).map (·.userId)

end Store

/-- What the loop over the balanced tables has changed. -/
structure Moving where
  seats : List Seat
  recentlyMoved : RecentlyMoved
  movedSeats : List String := []

/-- One turn of the loop over the players of a table. -/
def moveSeat (populated : Bool) (currentHand : ℕ) (m : Moving) (visit : Table × String) :
    Except String Moving :=
  match m.seats.find? (·.userId == visit.2) with
  | none => .ok m
  | some seat =>
    if populated then
      if seat.tableId ≠ visit.1.id then
        .ok
          { seats := m.seats.updateFirst (·.userId == visit.2) fun seat =>
              { seat with tableId := visit.1.id, lastMovedHand := currentHand }
            recentlyMoved := (visit.2, currentHand) :: m.recentlyMoved
            movedSeats := m.movedSeats ++ [seat.id] }
      else .ok m
    else .error "Cannot read properties of undefined (reading 'id')"

/-- The players of the tables, table by table. -/
def visits (tables : List Table) (balanced : List (List String)) : List (Table × String) :=
  (tables.zip balanced).flatMap fun (t, players) => players.map (t, ·)

/-- `await this.seats.save(movedSeats)` -/
def Moving.save (m : Moving) (rows : List Seat) : List Seat :=
  rows.map fun row =>
    if row.id ∈ m.movedSeats then (m.seats.find? (·.id == row.id)).getD row else row

/-- The map is the caller's, who sees its new entries when the call returns. -/
def balanceTournament (populated : Bool) (tournamentId : String) (currentHand avoidWithin : ℕ)
    (recentlyMoved : RecentlyMoved) : TournamentM RecentlyMoved := do
  let s ← get
  let (recentlyMoved, balanced) :=
    balanceTables currentHand avoidWithin (s.tablePlayers tournamentId) recentlyMoved
  match (visits (s.tablesOf tournamentId) balanced).foldlM (moveSeat populated currentHand)
    { seats := s.loadedSeats tournamentId, recentlyMoved := recentlyMoved } with
  | .error e => throw e
  | .ok m => do
    modify fun s => { s with seats := m.save s.seats }
    return m.recentlyMoved

/-! ### What the loop keeps -/

/-- The sizes are those of two of the tables. -/
structure Sizes.Measure (z : Sizes) (result : List (List String)) : Prop where
  longest : 0 < z.max → ∃ t, result[z.maxIdx]? = some t ∧ t.length = z.max
  shortest : ∀ m, z.min = some m → ∃ t, result[z.minIdx]? = some t ∧ t.length = m

/-- Sizes that are not even are two apart. -/
lemma Sizes.exists_min_of_not_even {z : Sizes} (h : z.even = false) :
    ∃ m, z.min = some m ∧ m + 2 ≤ z.max := by
  cases hmin : z.min with
  | none => simp [Sizes.even, hmin] at h
  | some m => exact ⟨m, rfl, Nat.succ_le_of_lt (by simpa [Sizes.even, hmin] using h)⟩

lemma sizes_concat (result : List (List String)) (t : List String) :
    sizes (result ++ [t]) = (sizes result).see t result.length := by
  simp [sizes, zipIdx_append]

lemma measure_sizes (result : List (List String)) : (sizes result).Measure result := by
  induction result using reverseRecOn with
  | nil => exact ⟨fun h => absurd h (lt_irrefl 0), fun m h => nomatch h⟩
  | append_singleton result t ih =>
    have hkeep : ∀ {i : ℕ} {row : List String}, result[i]? = some row →
        (result ++ [t])[i]? = some row := by
      intro i row hrow
      obtain ⟨hlt, -⟩ := List.getElem?_eq_some_iff.mp hrow
      rw [getElem?_append_left hlt, hrow]
    rw [sizes_concat]
    constructor
    · intro hmax
      simp only [Sizes.see] at hmax ⊢
      split_ifs at hmax ⊢ with hlonger
      · exact ⟨t, by simp, rfl⟩
      · obtain ⟨row, hrow, hlen⟩ := ih.longest hmax
        exact ⟨row, hkeep hrow, hlen⟩
    · intro m hmin
      simp only [Sizes.see] at hmin ⊢
      split_ifs at hmin ⊢ with hshorter
      · exact ⟨t, by simp, Option.some.inj hmin⟩
      · obtain ⟨row, hrow, hlen⟩ := ih.shortest m hmin
        exact ⟨row, hkeep hrow, hlen⟩

section Loop

variable {currentHand avoidWithin : ℕ} {recentlyMoved recentlyMoved' : RecentlyMoved}
  {result result' rest : List (List String)} {player : String}

lemma takePlayer_eq_some
    (h : takePlayer currentHand avoidWithin recentlyMoved result = some (player, rest)) :
    (sizes result).even = false ∧ ∃ old row, result[(sizes result).maxIdx]? = some old ∧
      old.takeLast? (mayMove currentHand avoidWithin recentlyMoved) = some (player, row) ∧
      rest = result.set (sizes result).maxIdx row := by
  simp only [takePlayer] at h
  split_ifs at h with heven
  obtain ⟨⟨p, row⟩, htake, heq⟩ := Option.map_eq_some_iff.mp h
  obtain ⟨rfl, rfl⟩ := Prod.mk.inj heq
  refine ⟨by simpa using heven, ?_⟩
  cases hold : result[(sizes result).maxIdx]? with
  | none =>
    rw [getD_eq_getElem?_getD, hold] at htake
    cases htake
  | some old =>
    rw [getD_eq_getElem?_getD, hold] at htake
    exact ⟨old, row, rfl, htake, rfl⟩

/-- A player is taken from the tables. -/
lemma flatten_takePlayer
    (h : takePlayer currentHand avoidWithin recentlyMoved result = some (player, rest)) :
    mayMove currentHand avoidWithin recentlyMoved player = true ∧
      result.flatten ~ player :: rest.flatten := by
  obtain ⟨-, old, row, hold, htake, rfl⟩ := takePlayer_eq_some h
  obtain ⟨hmay, hperm⟩ := takeLast?_eq_some htake
  exact ⟨hmay, flatten_set_perm hold hperm⟩

lemma length_takePlayer
    (h : takePlayer currentHand avoidWithin recentlyMoved result = some (player, rest)) :
    rest.length = result.length := by
  obtain ⟨-, old, row, -, -, rfl⟩ := takePlayer_eq_some h
  exact length_set

/-- The players who are left at a table were there. -/
lemma mem_takePlayer
    (h : takePlayer currentHand avoidWithin recentlyMoved result = some (player, rest)) {i : ℕ}
    {row row' : List String} (hrow : result[i]? = some row) (hrow' : rest[i]? = some row')
    {p : String} (hp : p ∈ row') : p ∈ row := by
  obtain ⟨-, old, left, hold, htake, rfl⟩ := takePlayer_eq_some h
  rw [getElem?_set] at hrow'
  split_ifs at hrow' with hi hlt
  · subst hi
    obtain rfl : old = row := Option.some.inj (hold.symm.trans hrow)
    obtain rfl : left = row' := Option.some.inj hrow'
    exact (takeLast?_eq_some htake).2.mem_iff.mpr (mem_cons_of_mem player hp)
  · obtain rfl : row = row' := Option.some.inj (hrow.symm.trans hrow')
    exact hp

/-- A turn of the loop makes the tables lighter. -/
lemma weight_takePlayer
    (h : takePlayer currentHand avoidWithin recentlyMoved result = some (player, rest)) :
    rest.weight < result.weight ∧
      (rest.modify (sizes result).minIdx (· ++ [player])).weight < result.weight := by
  obtain ⟨heven, old, row, hold, htake, rfl⟩ := takePlayer_eq_some h
  have hlength : old.length = row.length + 1 := (takeLast?_eq_some htake).2.length_eq
  have hset := weight_set hold hlength
  obtain ⟨m, hmin, hmax⟩ := Sizes.exists_min_of_not_even heven
  obtain ⟨longest, hlongest, hlen⟩ := (measure_sizes result).longest (by omega)
  obtain rfl : longest = old := Option.some.inj (hlongest.symm.trans hold)
  obtain ⟨shortest, hshortest, hlen'⟩ := (measure_sizes result).shortest m hmin
  have hne : (sizes result).maxIdx ≠ (sizes result).minIdx := by
    intro heq
    rw [heq, hshortest] at hlongest
    obtain rfl := Option.some.inj hlongest
    omega
  have hrow : (result.set (sizes result).maxIdx row)[(sizes result).minIdx]? = some shortest := by
    rw [getElem?_set_ne hne, hshortest]
  have hmodify := weight_modify hrow player
  omega

/-- More fuel than the weight changes nothing. -/
lemma balanceLoop_eq {fuel fuel' : ℕ} (h : result.weight < fuel) (h' : result.weight < fuel') :
    balanceLoop currentHand avoidWithin fuel recentlyMoved result =
      balanceLoop currentHand avoidWithin fuel' recentlyMoved result := by
  induction fuel generalizing fuel' recentlyMoved result with
  | zero => exact absurd h (Nat.not_lt_zero _)
  | succ fuel ih =>
    cases fuel' with
    | zero => exact absurd h' (Nat.not_lt_zero _)
    | succ fuel' =>
      simp only [balanceLoop]
      cases htake : takePlayer currentHand avoidWithin recentlyMoved result with
      | none => rfl
      | some taken =>
        have hlt := (weight_takePlayer htake).2
        by_cases hempty : taken.1 = ""
        · simp only [hempty, if_true]
        · simp only [hempty, if_false]
          exact ih (hlt.trans_le (Nat.lt_succ_iff.mp h)) (hlt.trans_le (Nat.lt_succ_iff.mp h'))

/-- What is true of the tables before the loop and after some of its turns. -/
structure Rearranged (currentHand avoidWithin : ℕ) (recentlyMoved : RecentlyMoved)
    (result : List (List String)) (recentlyMoved' : RecentlyMoved) (result' : List (List String)) :
    Prop where
  length_eq : result'.length = result.length
  players : result'.flatten <+~ result.flatten
  recent : ∀ p, recentlyMoved'.lookup p = recentlyMoved.lookup p ∨
    mayMove currentHand avoidWithin recentlyMoved p = true ∧
      recentlyMoved'.lookup p = some currentHand
  moved : ∀ (i : ℕ) (row row' : List String), result[i]? = some row → result'[i]? = some row' →
    ∀ p ∈ row', p ∈ row ∨ mayMove currentHand avoidWithin recentlyMoved p = true ∧
      recentlyMoved'.lookup p = some currentHand

lemma Rearranged.refl :
    Rearranged currentHand avoidWithin recentlyMoved result recentlyMoved result where
  length_eq := rfl
  players := .refl _
  recent _ := Or.inl rfl
  moved := by
    intro i row row' hrow hrow' p hp
    obtain rfl : row = row' := Option.some.inj (hrow.symm.trans hrow')
    exact Or.inl hp

lemma Rearranged.trans {recentlyMoved₁ : RecentlyMoved} {result₁ : List (List String)}
    (h : Rearranged currentHand avoidWithin recentlyMoved result recentlyMoved₁ result₁)
    (h' : Rearranged currentHand avoidWithin recentlyMoved₁ result₁ recentlyMoved' result') :
    Rearranged currentHand avoidWithin recentlyMoved result recentlyMoved' result' := by
  have hmay : ∀ p, mayMove currentHand avoidWithin recentlyMoved₁ p = true →
      mayMove currentHand avoidWithin recentlyMoved p = true := by
    intro p hp
    rcases h.recent p with hsame | ⟨hmay, -⟩
    · rwa [mayMove, ← hsame]
    · exact hmay
  have hrecent : ∀ p, mayMove currentHand avoidWithin recentlyMoved p = true →
      recentlyMoved₁.lookup p = some currentHand →
      recentlyMoved'.lookup p = some currentHand := by
    intro p hp hlookup
    rcases h'.recent p with hsame | ⟨-, hset⟩
    · rw [hsame, hlookup]
    · exact hset
  constructor
  · exact h'.length_eq.trans h.length_eq
  · exact h'.players.trans h.players
  · intro p
    rcases h'.recent p with hsame | ⟨hp, hset⟩
    · rw [hsame]
      exact h.recent p
    · exact Or.inr ⟨hmay p hp, hset⟩
  · intro i row row' hrow hrow' p hp
    obtain ⟨row₁, hrow₁⟩ : ∃ row₁, result₁[i]? = some row₁ := by
      obtain ⟨hlt, -⟩ := List.getElem?_eq_some_iff.mp hrow
      exact ⟨_, getElem?_eq_getElem (h.length_eq ▸ hlt)⟩
    rcases h'.moved i row₁ row' hrow₁ hrow' p hp with hin | ⟨hp', hset⟩
    · rcases h.moved i row row₁ hrow hrow₁ p hin with hin | ⟨hp', hset⟩
      · exact Or.inl hin
      · exact Or.inr ⟨hp', hrecent p hp' hset⟩
    · exact Or.inr ⟨hmay p hp', hset⟩

/-- A turn that drops a player with an empty id. -/
lemma rearranged_dropped
    (h : takePlayer currentHand avoidWithin recentlyMoved result = some (player, rest)) :
    Rearranged currentHand avoidWithin recentlyMoved result recentlyMoved rest where
  length_eq := length_takePlayer h
  players := (sublist_cons_self player _).subperm.trans (flatten_takePlayer h).2.symm.subperm
  recent _ := Or.inl rfl
  moved _ _ _ hrow hrow' _ hp := Or.inl (mem_takePlayer h hrow hrow' hp)

/-- A turn that moves a player. -/
lemma rearranged_moved
    (h : takePlayer currentHand avoidWithin recentlyMoved result = some (player, rest)) (i : ℕ) :
    Rearranged currentHand avoidWithin recentlyMoved result
      ((player, currentHand) :: recentlyMoved) (rest.modify i (· ++ [player])) := by
  obtain ⟨hmay, hperm⟩ := flatten_takePlayer h
  constructor
  · rw [length_modify_append, length_takePlayer h]
  · exact (flatten_modify_subperm player rest i).trans hperm.symm.subperm
  · intro p
    by_cases hp : p = player
    · subst hp
      exact Or.inr ⟨hmay, lookup_cons_self⟩
    · have hne : (p == player) = false := beq_false_of_ne hp
      exact Or.inl (by rw [lookup_cons, hne])
  · intro j row row' hrow hrow' p hp
    rw [getElem?_modify] at hrow'
    obtain ⟨left, hleft, rfl⟩ := Option.map_eq_some_iff.mp hrow'
    have hkept : p ∈ left → p ∈ row := mem_takePlayer h hrow hleft
    split_ifs at hp with hij
    · rcases mem_append.mp hp with hin | hin
      · exact Or.inl (hkept hin)
      · obtain rfl : p = player := mem_singleton.mp hin
        exact Or.inr ⟨hmay, lookup_cons_self⟩
    · exact Or.inl (hkept hp)

lemma rearranged_balanceLoop (fuel : ℕ) :
    Rearranged currentHand avoidWithin recentlyMoved result
      (balanceLoop currentHand avoidWithin fuel recentlyMoved result).1
      (balanceLoop currentHand avoidWithin fuel recentlyMoved result).2 := by
  induction fuel generalizing recentlyMoved result with
  | zero => exact .refl
  | succ fuel ih =>
    rw [balanceLoop]
    split
    · exact .refl
    · rename_i player rest htake
      split_ifs
      · exact rearranged_dropped htake
      · exact (rearranged_moved htake _).trans ih

lemma rearranged_balanceTables (currentHand avoidWithin : ℕ) (tables : List (List String))
    (recentlyMoved : RecentlyMoved) :
    Rearranged currentHand avoidWithin recentlyMoved tables
      (balanceTables currentHand avoidWithin tables recentlyMoved).1
      (balanceTables currentHand avoidWithin tables recentlyMoved).2 :=
  rearranged_balanceLoop _

lemma weight_balanceLoop_le (fuel : ℕ) :
    (balanceLoop currentHand avoidWithin fuel recentlyMoved result).2.weight ≤ result.weight := by
  induction fuel generalizing recentlyMoved result with
  | zero => exact le_rfl
  | succ fuel ih =>
    rw [balanceLoop]
    split
    · exact le_rfl
    · rename_i player rest htake
      obtain ⟨hdropped, hmoved⟩ := weight_takePlayer htake
      split_ifs
      · exact hdropped.le
      · exact ih.trans hmoved.le

/-- When there is nobody to take, the tables stay as they are. -/
lemma balanceTables_of_takePlayer_eq_none
    (h : takePlayer currentHand avoidWithin recentlyMoved result = none) :
    balanceTables currentHand avoidWithin result recentlyMoved = (recentlyMoved, result) := by
  rw [balanceTables, balanceLoop, h]

lemma weight_balanceTables_lt
    (h : takePlayer currentHand avoidWithin recentlyMoved result = some (player, rest)) :
    (balanceTables currentHand avoidWithin result recentlyMoved).2.weight < result.weight := by
  obtain ⟨hdropped, hmoved⟩ := weight_takePlayer h
  rw [balanceTables, balanceLoop, h]
  dsimp only
  split_ifs
  · exact hdropped
  · exact (weight_balanceLoop_le _).trans_lt hmoved

end Loop

/-! ### What is stored -/

/-- What the visits do to the seat of a player. -/
def reseat (visits : List (Table × String)) (currentHand : ℕ) (seat : Seat) : Seat :=
  match visits.find? (·.2 == seat.userId) with
  | some (table, _) =>
    if seat.tableId ≠ table.id then
      { seat with tableId := table.id, lastMovedHand := currentHand }
    else seat
  | none => seat

section Stored

variable {currentHand avoidWithin : ℕ} {visit : Table × String} {vs : List (Table × String)}
  {m m₁ m' : Moving} {seat : Seat}

lemma reseat_of_not_mem (h : seat.userId ∉ vs.map (·.2)) : reseat vs currentHand seat = seat := by
  have hnone : vs.find? (·.2 == seat.userId) = none := by
    refine find?_eq_none.mpr fun v hv heq => h ?_
    rw [← eq_of_beq heq]
    exact mem_map_of_mem hv
  simp only [reseat, hnone]

/-- A seat that was not left as it was has been moved to the table of a visit. -/
lemma reseat_cases (vs : List (Table × String)) (currentHand : ℕ) (seat : Seat) :
    reseat vs currentHand seat = seat ∨
      ∃ table, (table, seat.userId) ∈ vs ∧ seat.tableId ≠ table.id ∧
        reseat vs currentHand seat =
          { seat with tableId := table.id, lastMovedHand := currentHand } := by
  cases hfind : vs.find? (·.2 == seat.userId) with
  | none => exact Or.inl (by simp only [reseat, hfind])
  | some v =>
    have huser : v.2 = seat.userId := by simpa using find?_some hfind
    have hmem : (v.1, seat.userId) ∈ vs := huser ▸ mem_of_find?_eq_some hfind
    by_cases hne : seat.tableId ≠ v.1.id
    · exact Or.inr ⟨v.1, hmem, hne, by simp only [reseat, hfind, if_pos hne]⟩
    · exact Or.inl (by simp only [reseat, hfind, if_neg hne])

@[simp] lemma reseat_userId : (reseat vs currentHand seat).userId = seat.userId := by
  rcases reseat_cases vs currentHand seat with h | ⟨_, _, _, h⟩
  · rw [h]
  · rw [h]

@[simp] lemma reseat_id : (reseat vs currentHand seat).id = seat.id := by
  rcases reseat_cases vs currentHand seat with h | ⟨_, _, _, h⟩
  · rw [h]
  · rw [h]

/-- A player is visited once. -/
lemma reseat_cons (h : visit.2 ∉ vs.map (·.2)) : reseat (visit :: vs) currentHand seat =
    reseat vs currentHand (reseat [visit] currentHand seat) := by
  by_cases huser : visit.2 = seat.userId
  · have hkeep : reseat vs currentHand (reseat [visit] currentHand seat) =
        reseat [visit] currentHand seat := reseat_of_not_mem (by rwa [reseat_userId, ← huser])
    rw [hkeep]
    simp only [reseat, find?_cons, beq_iff_eq.mpr huser]
  · have hkeep : reseat [visit] currentHand seat = seat :=
      reseat_of_not_mem (by simpa using Ne.symm huser)
    rw [hkeep]
    simp only [reseat, find?_cons, beq_false_of_ne huser]

/-- What some of the visits have done. -/
structure Moving.After (currentHand : ℕ) (vs : List (Table × String)) (m m' : Moving) : Prop where
  seats : m'.seats = m.seats.map (reseat vs currentHand)
  recent : ∀ p, m'.recentlyMoved.lookup p = m.recentlyMoved.lookup p ∨
    m'.recentlyMoved.lookup p = some currentHand
  marks : m.movedSeats ⊆ m'.movedSeats
  marked : ∀ x ∈ m'.movedSeats, x ∈ m.movedSeats ∨ ∃ seat ∈ m.seats, seat.id = x
  unmarked : ∀ seat ∈ m.seats, seat.id ∉ m'.movedSeats → reseat vs currentHand seat = seat

lemma Moving.After.refl : m.After currentHand [] m where
  seats := (map_id m.seats).symm
  recent _ := Or.inl rfl
  marks := List.Subset.refl _
  marked _ hx := Or.inl hx
  unmarked _ _ _ := rfl

lemma Moving.After.cons (h : m.After currentHand [visit] m₁) (h' : m₁.After currentHand vs m')
    (hvisit : visit.2 ∉ vs.map (·.2)) : m.After currentHand (visit :: vs) m' where
  seats := by
    rw [h'.seats, h.seats, map_map]
    exact map_congr_left fun seat _ => (reseat_cons hvisit).symm
  recent p := by
    rcases h'.recent p with hsame | hset
    · rw [hsame]
      exact h.recent p
    · exact Or.inr hset
  marks := List.Subset.trans h.marks h'.marks
  marked x hx := by
    rcases h'.marked x hx with hx | ⟨seat, hseat, rfl⟩
    · exact h.marked x hx
    · rw [h.seats] at hseat
      obtain ⟨seat₀, hseat₀, rfl⟩ := mem_map.mp hseat
      exact Or.inr ⟨seat₀, hseat₀, reseat_id.symm⟩
  unmarked seat hseat hid := by
    have hseat₁ : reseat [visit] currentHand seat ∈ m₁.seats := by
      rw [h.seats]
      exact mem_map_of_mem hseat
    rw [reseat_cons hvisit, h'.unmarked _ hseat₁ (by rwa [reseat_id])]
    exact h.unmarked seat hseat fun hin => hid (h'.marks hin)

lemma moveSeat_after (currentHand : ℕ) (visit : Table × String)
    (husers : (m.seats.map (·.userId)).Nodup) :
    ∃ m', moveSeat true currentHand m visit = .ok m' ∧ m.After currentHand [visit] m' := by
  have hmiss : m.seats.find? (·.userId == visit.2) = none → ∀ seat ∈ m.seats,
      reseat [visit] currentHand seat = seat := by
    intro hnone seat hseat
    refine reseat_of_not_mem ?_
    simpa using find?_eq_none.mp hnone seat hseat
  cases hfind : m.seats.find? (·.userId == visit.2) with
  | none =>
    refine ⟨m, by simp only [moveSeat, hfind], ?_, fun _ => Or.inl rfl, List.Subset.refl _,
      fun _ hx => Or.inl hx, fun seat hseat _ => hmiss hfind seat hseat⟩
    rw [map_congr_left (hmiss hfind)]
    exact (map_id m.seats).symm
  | some found =>
    have hin := mem_of_find?_eq_some hfind
    have huser : found.userId = visit.2 := by simpa using find?_some hfind
    -- the seat that is found is the only one of the player
    have honly : ∀ seat ∈ m.seats, seat.userId = visit.2 → seat = found := fun seat hseat heq =>
      inj_on_of_nodup_map husers hseat hin (heq.trans huser.symm)
    have hreseat : ∀ seat : Seat, seat.userId = visit.2 → reseat [visit] currentHand seat =
        if seat.tableId ≠ visit.1.id then
          { seat with tableId := visit.1.id, lastMovedHand := currentHand } else seat := by
      intro seat heq
      simp only [reseat, find?_cons, heq, beq_self_eq_true]
    by_cases hne : found.tableId ≠ visit.1.id
    · have hmove : moveSeat true currentHand m visit = .ok
          { seats := m.seats.updateFirst (·.userId == visit.2) fun seat =>
              { seat with tableId := visit.1.id, lastMovedHand := currentHand }
            recentlyMoved := (visit.2, currentHand) :: m.recentlyMoved
            movedSeats := m.movedSeats ++ [found.id] } := by
        simp only [moveSeat, hfind, if_true, if_pos hne]
      refine ⟨_, hmove, ?_, ?_, ?_, ?_, ?_⟩
      · rw [updateFirst_eq_map husers]
        refine map_congr_left fun seat hseat => ?_
        by_cases heq : seat.userId = visit.2
        · obtain rfl := honly seat hseat heq
          rw [hreseat _ heq, if_pos hne, if_pos (beq_iff_eq.mpr heq)]
        · rw [if_neg (by simpa using heq), reseat_of_not_mem (by simpa using heq)]
      · intro p
        by_cases hp : p = visit.2
        · subst hp
          exact Or.inr lookup_cons_self
        · exact Or.inl (by rw [lookup_cons, beq_false_of_ne hp])
      · exact subset_append_left _ _
      · intro x hx
        rcases mem_append.mp hx with hx | hx
        · exact Or.inl hx
        · exact Or.inr ⟨found, hin, (mem_singleton.mp hx).symm⟩
      · intro seat hseat hid
        refine reseat_of_not_mem fun heq => hid (mem_append_right _ ?_)
        rw [honly seat hseat (by simpa using heq)]
        exact mem_cons_self
    · have hkeep : ∀ seat ∈ m.seats, reseat [visit] currentHand seat = seat := by
        intro seat hseat
        by_cases heq : seat.userId = visit.2
        · obtain rfl := honly seat hseat heq
          rw [hreseat _ heq, if_neg hne]
        · exact reseat_of_not_mem (by simpa using heq)
      refine ⟨m, by simp only [moveSeat, hfind, if_true, if_neg hne], ?_, fun _ => Or.inl rfl,
        List.Subset.refl _, fun _ hx => Or.inl hx, fun seat hseat _ => hkeep seat hseat⟩
      rw [map_congr_left hkeep]
      exact (map_id m.seats).symm

lemma foldlM_moveSeat (currentHand : ℕ) (hvs : (vs.map (·.2)).Nodup)
    (husers : (m.seats.map (·.userId)).Nodup) :
    ∃ m', vs.foldlM (moveSeat true currentHand) m = .ok m' ∧ m.After currentHand vs m' := by
  induction vs generalizing m with
  | nil => exact ⟨m, rfl, .refl⟩
  | cons visit vs ih =>
    obtain ⟨hvisit, hvs⟩ := nodup_cons.mp hvs
    obtain ⟨m₁, hmove, hafter⟩ := moveSeat_after currentHand visit husers
    have husers₁ : (m₁.seats.map (·.userId)).Nodup := by
      rw [hafter.seats, map_map]
      simpa [Function.comp_def] using husers
    obtain ⟨m', hfold, hafter'⟩ := ih hvs husers₁
    refine ⟨m', ?_, hafter.cons hafter' hvisit⟩
    rw [foldlM_cons, hmove]
    exact hfold

/-- Nothing is moved when the seats do not know their tables. -/
lemma eq_of_foldlM_unpopulated (h : vs.foldlM (moveSeat false currentHand) m = .ok m') :
    m' = m := by
  induction vs generalizing m with
  | nil => exact (Except.ok.inj h).symm
  | cons visit vs ih =>
    rw [foldlM_cons] at h
    cases hfind : m.seats.find? (·.userId == visit.2) with
    | none =>
      have hmove : moveSeat false currentHand m visit = .ok m := by simp only [moveSeat, hfind]
      rw [hmove] at h
      exact ih h
    | some seat =>
      have hmove : moveSeat false currentHand m visit =
          .error "Cannot read properties of undefined (reading 'id')" := by
        simp only [moveSeat, hfind, Bool.false_eq_true, if_false]
      rw [hmove] at h
      cases h

lemma save_of_movedSeats_eq_nil (h : m.movedSeats = []) (rows : List Seat) :
    m.save rows = rows := by
  simp [Moving.save, h]

/-- The rows of the seats that were moved are written. -/
lemma save_eq {loaded rows : List Seat} {recentlyMoved : RecentlyMoved}
    (hids : (rows.map (·.id)).Nodup) (hloaded : ∀ seat ∈ loaded, seat ∈ rows)
    (h : Moving.After currentHand vs { seats := loaded, recentlyMoved := recentlyMoved } m') :
    m'.save rows =
      rows.map fun row => if row ∈ loaded then reseat vs currentHand row else row := by
  refine map_congr_left fun row hrow => ?_
  have hsame : ∀ seat ∈ loaded, seat.id = row.id → seat = row := fun seat hseat heq =>
    inj_on_of_nodup_map hids (hloaded seat hseat) hrow heq
  by_cases hin : row ∈ loaded
  · rw [if_pos hin]
    split_ifs with hmarked
    · cases hfind : m'.seats.find? (·.id == row.id) with
      | none =>
        have hreseat : reseat vs currentHand row ∈ m'.seats := by
          rw [h.seats]
          exact mem_map_of_mem hin
        simpa using find?_eq_none.mp hfind _ hreseat
      | some found =>
        have hfound := mem_of_find?_eq_some hfind
        rw [h.seats] at hfound
        obtain ⟨seat, hseat, rfl⟩ := mem_map.mp hfound
        rw [Option.getD_some, hsame seat hseat (by simpa using find?_some hfind)]
    · exact (h.unmarked row hin hmarked).symm
  · rw [if_neg hin, if_neg]
    intro hmarked
    rcases h.marked row.id hmarked with hnil | ⟨seat, hseat, heq⟩
    · exact absurd hnil not_mem_nil
    · exact hin (hsame seat hseat heq ▸ hseat)

lemma map_snd_visits {tables : List Table} {balanced : List (List String)}
    (h : balanced.length = tables.length) :
    (visits tables balanced).map (·.2) = balanced.flatten := by
  have hzip : (tables.zip balanced).map Prod.snd = balanced := map_snd_zip h.le
  calc (visits tables balanced).map (·.2)
      = (tables.zip balanced).flatMap Prod.snd := by
        rw [visits, map_flatMap]
        simp [Function.comp_def]
    _ = balanced.flatten := by rw [flatMap_def, hzip]

lemma mem_visits {tables : List Table} {balanced : List (List String)} :
    visit ∈ visits tables balanced ↔ ∃ (i : ℕ) (players : List String),
      tables[i]? = some visit.1 ∧ balanced[i]? = some players ∧ visit.2 ∈ players := by
  obtain ⟨table, player⟩ := visit
  simp only [visits, mem_flatMap, mem_map, Prod.mk.injEq]
  constructor
  · rintro ⟨⟨t, players⟩, hzip, p, hp, rfl, rfl⟩
    obtain ⟨i, hi⟩ := mem_iff_getElem?.mp hzip
    obtain ⟨ht, hplayers⟩ := getElem?_zip_eq_some.mp hi
    exact ⟨i, players, ht, hplayers, hp⟩
  · rintro ⟨i, players, ht, hplayers, hp⟩
    exact ⟨(table, players), mem_of_getElem? (getElem?_zip_eq_some.mpr ⟨ht, hplayers⟩),
      player, hp, rfl, rfl⟩

end Stored

section Run

variable {currentHand avoidWithin : ℕ} {recentlyMoved : RecentlyMoved} {s : Store} {id : String}
  {row : Seat}

lemma mem_loadedSeats :
    row ∈ s.loadedSeats id ↔ ∃ table ∈ s.tablesOf id, row ∈ s.seats ∧ row.tableId = table.id := by
  simp [Store.loadedSeats, Store.seatsAt]

lemma flatten_tablePlayers : (s.tablePlayers id).flatten = (s.loadedSeats id).map (·.userId) := by
  rw [Store.tablePlayers, Store.loadedSeats, map_flatMap, flatMap_def]

/-- The visits that a call makes. -/
def balancedVisits (s : Store) (id : String) (currentHand avoidWithin : ℕ)
    (recentlyMoved : RecentlyMoved) : List (Table × String) :=
  visits (s.tablesOf id)
    (balanceTables currentHand avoidWithin (s.tablePlayers id) recentlyMoved).2

lemma length_balanceTables (tables : List (List String)) :
    (balanceTables currentHand avoidWithin tables recentlyMoved).2.length = tables.length :=
  (rearranged_balanceTables _ _ _ _).length_eq

/-- Nobody is visited twice. -/
lemma nodup_balancedVisits (husers : ((s.loadedSeats id).map (·.userId)).Nodup) :
    ((balancedVisits s id currentHand avoidWithin recentlyMoved).map (·.2)).Nodup := by
  rw [balancedVisits, map_snd_visits]
  · obtain ⟨l, hperm, hsub⟩ := (rearranged_balanceTables currentHand avoidWithin
      (s.tablePlayers id) recentlyMoved).players
    rw [flatten_tablePlayers] at hsub
    exact hperm.nodup_iff.mp (hsub.nodup husers)
  · rw [length_balanceTables, Store.tablePlayers, length_map]

/-- The seats that are stored by a call, when the seats know their tables. -/
lemma run_balanceTournament (currentHand avoidWithin : ℕ) (recentlyMoved : RecentlyMoved)
    (hids : (s.seats.map (·.id)).Nodup)
    (husers : ((s.loadedSeats id).map (·.userId)).Nodup) :
    ∃ recentlyMoved', (balanceTournament true id currentHand avoidWithin recentlyMoved).run s =
        .ok recentlyMoved' { s with
          seats := s.seats.map fun row =>
            if row ∈ s.loadedSeats id then
              reseat (balancedVisits s id currentHand avoidWithin recentlyMoved) currentHand row
            else row } ∧
      ∀ p, recentlyMoved'.lookup p = (balanceTables currentHand avoidWithin (s.tablePlayers id)
          recentlyMoved).1.lookup p ∨ recentlyMoved'.lookup p = some currentHand := by
  let loaded : Moving :=
    { seats := s.loadedSeats id
      recentlyMoved :=
        (balanceTables currentHand avoidWithin (s.tablePlayers id) recentlyMoved).1 }
  obtain ⟨m', hfold, hafter⟩ := @foldlM_moveSeat _ loaded currentHand
    (nodup_balancedVisits husers) husers
  refine ⟨m'.recentlyMoved, ?_, hafter.recent⟩
  have hloaded : ∀ seat ∈ s.loadedSeats id, seat ∈ s.seats := by
    intro seat hseat
    obtain ⟨table, -, hin, -⟩ := mem_loadedSeats.mp hseat
    exact hin
  rw [← save_eq hids hloaded hafter]
  simp only [balanceTournament, EStateM.run_bind, EStateM.run_get]
  rw [balancedVisits] at hfold
  rw [hfold]
  rfl

/-- A call that finds seats that do not know their tables stores nothing. -/
lemma run_balanceTournament_unpopulated (id : String) (currentHand avoidWithin : ℕ)
    (recentlyMoved : RecentlyMoved) (s : Store) :
    (balanceTournament false id currentHand avoidWithin recentlyMoved).run s =
      .ok (balanceTables currentHand avoidWithin (s.tablePlayers id) recentlyMoved).1 s ∨
    ∃ e, (balanceTournament false id currentHand avoidWithin recentlyMoved).run s = .error e s := by
  simp only [balanceTournament, EStateM.run_bind, EStateM.run_get]
  split
  · rename_i e hfold
    exact Or.inr ⟨e, rfl⟩
  · rename_i m hfold
    obtain rfl := eq_of_foldlM_unpopulated hfold
    refine Or.inl ?_
    simp only [EStateM.run_bind, EStateM.run_modify, EStateM.run_pure,
      save_of_movedSeats_eq_nil]

/-- Whose seat gets another table may be moved, and is moved at this hand. -/
lemma mayMove_of_moved (husers : ((s.loadedSeats id).map (·.userId)).Nodup)
    (hrow : row ∈ s.loadedSeats id)
    (hmoved : (reseat (balancedVisits s id currentHand avoidWithin recentlyMoved) currentHand
      row).tableId ≠ row.tableId) :
    mayMove currentHand avoidWithin recentlyMoved row.userId = true ∧
      (balanceTables currentHand avoidWithin (s.tablePlayers id) recentlyMoved).1.lookup
        row.userId = some currentHand := by
  rcases reseat_cases (balancedVisits s id currentHand avoidWithin recentlyMoved) currentHand row
    with hkept | ⟨table, hvisit, hne, -⟩
  · rw [hkept] at hmoved
    exact absurd rfl hmoved
  · obtain ⟨i, players, htable, hplayers, hin⟩ := mem_visits.mp hvisit
    have hrowi : (s.tablePlayers id)[i]? = some ((s.seatsAt table).map (·.userId)) := by
      rw [Store.tablePlayers, getElem?_map, htable]
      rfl
    rcases (rearranged_balanceTables _ _ _ _).moved i _ players hrowi hplayers _ hin with hthere | hmay
    · -- the player's only seat would be at the table he is moved to
      obtain ⟨seat, hseat, huser⟩ := mem_map.mp hthere
      obtain ⟨hseats, hat⟩ := mem_filter.mp hseat
      have hat' : seat.tableId = table.id := by simpa using hat
      have hloaded : seat ∈ s.loadedSeats id :=
        mem_loadedSeats.mpr ⟨table, mem_of_getElem? htable, hseats, hat'⟩
      obtain rfl := inj_on_of_nodup_map husers hloaded hrow huser
      exact absurd hat' hne
    · exact hmay

end Run

end Pokerhub.TournamentService
