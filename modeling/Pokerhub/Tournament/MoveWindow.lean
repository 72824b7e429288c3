import Pokerhub.Tournament.Seating

/-!
# The window in which nobody is moved again

`rebalanceIfNeeded` of `table-balancer.service.ts` over many hands of a tournament, between which
players join and leave, are eliminated, and the process is restarted. The hand of a player's last
move is in his seat, where 0 means never, and in a map, which is in Redis or is lost with the
process. No player is moved twice within the window while the one or the other remembers the move
(`moved_apart`).
-/

namespace Pokerhub.TournamentService

open List Wallet TransitionSystem

/-! ### The service -/

/-- The store, the hash in Redis if there is Redis, and the map of the process. The moves that were
stored, each with its player and its hand, and the last hand are kept to state what happened. -/
structure TableBalancer where
  store : Store
  redis : Option RecentlyMoved
  localRecentlyMoved : RecentlyMoved := []
  moves : List (String × ℕ) := []
  hand : ℕ := 0

/-- `del` of the hash, or `hset` of its fields. -/
def saveRecentlyMoved (redis recentlyMoved : RecentlyMoved) : RecentlyMoved :=
  if recentlyMoved = [] then [] else recentlyMoved ++ redis

/-- `if (seat.lastMovedHand) { updated.set(seat.user.id, seat.lastMovedHand) }` -/
def overrideBySeats (recentlyMoved : RecentlyMoved) (seats : List Seat) : RecentlyMoved :=
  seats.foldl (fun updated seat =>
    if seat.lastMovedHand ≠ 0 then (seat.userId, seat.lastMovedHand) :: updated else updated)
    recentlyMoved

/-- `max - min > 1` -/
def uneven (counts : List ℕ) : Bool :=
  match counts.max?, counts.min? with
  | some max, some min => min + 1 < max
  | _, _ => false

/-- The users whose seat has got another table. -/
def movedUsers (seats seats' : List Seat) : List String :=
  (seats.zip seats').filterMap fun (seat, seat') =>
    if seat'.tableId ≠ seat.tableId then some seat.userId else none

namespace TableBalancer

/-- What the service knows of the last moves. -/
def stored (b : TableBalancer) : RecentlyMoved :=
  b.redis.getD b.localRecentlyMoved

def rebalanceIfNeeded (populated : Bool) (tournamentId : String) (currentHand avoidWithin : ℕ)
    (b : TableBalancer) : TableBalancer :=
  if uneven ((b.store.tablePlayers tournamentId).map (·.length)) then
    let recentlyMoved := overrideBySeats b.stored (b.store.loadedSeats tournamentId)
    match (balanceTournament populated tournamentId currentHand avoidWithin recentlyMoved).run
      b.store with
    | .error _ store => { b with store := store }
    | .ok recentlyMoved store =>
      { b with
        store := store
        redis := b.redis.map fun redis =>
          saveRecentlyMoved (saveRecentlyMoved redis recentlyMoved) recentlyMoved
        localRecentlyMoved := if b.redis.isSome then b.localRecentlyMoved else recentlyMoved
        moves := b.moves ++ (movedUsers b.store.seats store.seats).map (·, currentHand) }
  else b

end TableBalancer

inductive BalancerEvent where
  | call (call : TournamentCall)
  /-- A seat is taken away. -/
  | eliminate (seatId : String)
  | rebalance (currentHand : ℕ)
  | restart
  deriving DecidableEq

section Machine

variable (sha256 : String → String) (wallet : Option Config) (populated : Bool) (id : String)
  (avoidWithin : ℕ)

def TableBalancer.after (b : TableBalancer) : BalancerEvent → TableBalancer
  | .call c => { b with store := c.after sha256 wallet id b.store }
  | .eliminate seatId =>
    { b with store := { b.store with seats := b.store.seats.filter (·.id ≠ seatId) } }
  | .rebalance currentHand =>
    { b.rebalanceIfNeeded populated id currentHand avoidWithin with hand := currentHand }
  | .restart => { b with localRecentlyMoved := [] }

/-- The hands do not decrease, and the database gives every seat an id of its own. -/
def TableBalancer.Admits (b : TableBalancer) : BalancerEvent → Prop
  | .rebalance currentHand => b.hand ≤ currentHand
  | .call (.join _ _ seatId _) => ∀ seat ∈ b.store.seats, seat.id ≠ seatId
  | _ => True

/-- A tournament in which nobody has been moved yet, and everybody has one seat at most. -/
structure FreshlySeated (id : String) (b : TableBalancer) : Prop where
  tableIds : (b.store.tables.map (·.id)).Nodup
  seatIds : (b.store.seats.map (·.id)).Nodup
  oneSeat : (b.store.seatUsers id).Nodup
  unmoved : ∀ seat ∈ b.store.seats, seat.lastMovedHand = 0
  redis : b.redis = none ∨ b.redis = some []
  localRecentlyMoved : b.localRecentlyMoved = []
  moves : b.moves = []

def balancerRuns : TransitionSystem TableBalancer BalancerEvent where
  init := FreshlySeated id
  step b event b' :=
    b.Admits event ∧ b' = b.after sha256 wallet populated id avoidWithin event

/-- A move of the player is past the window. -/
def TableBalancer.Lapsed (b : TableBalancer) (userId : String) : Prop :=
  ∀ m ∈ b.moves, m.1 = userId → m.2 + avoidWithin ≤ b.hand

/-- Who joins has no seat, and what is known of his moves is in the map unless they are past the
window. A process that is restarted without Redis leaves to the seats what they do not remember
only if it is past the window. -/
def Remembers (b : TableBalancer) : BalancerEvent → Prop
  | .call (.join userId _ _ _) => userId ∉ b.store.seatUsers id ∧
    ((b.stored.lookup userId).isSome ∨ b.Lapsed avoidWithin userId)
  | .restart => b.redis.isSome ∨ ∀ seat ∈ b.store.seatsOf id,
    seat.lastMovedHand ≠ 0 ∨ b.Lapsed avoidWithin seat.userId
  | _ => True

end Machine

/-! ### The seats of a balancing -/

/-- The seats that are loaded table by table are the seats of the tournament. -/
lemma loadedSeats_perm {s : Store} (h : (s.tables.map (·.id)).Nodup) (id : String) :
    s.loadedSeats id ~ s.seatsOf id := by
  have hnodup : ((s.tablesOf id).map (·.id)).Nodup := (filter_sublist.map _).nodup h
  have hperm : ∀ tables : List Table, (tables.map (·.id)).Nodup →
      tables.flatMap s.seatsAt ~ s.seats.filter fun seat => tables.any (·.id == seat.tableId) := by
    intro tables
    induction tables with
    | nil => simp
    | cons table tables ih =>
      intro hnodup
      rw [map_cons, nodup_cons] at hnodup
      obtain ⟨hnew, hnodup⟩ := hnodup
      have hfirst : (s.seats.filter fun seat => (table :: tables).any (·.id == seat.tableId)).filter
          (·.tableId == table.id) = s.seatsAt table := by
        rw [filter_filter, Store.seatsAt]
        refine filter_congr fun seat _ => ?_
        by_cases heq : seat.tableId = table.id <;> simp [heq]
      have hrest : (s.seats.filter fun seat => (table :: tables).any (·.id == seat.tableId)).filter
          (fun seat => !(seat.tableId == table.id)) =
            s.seats.filter fun seat => tables.any (·.id == seat.tableId) := by
        rw [filter_filter]
        refine filter_congr fun seat _ => ?_
        by_cases heq : seat.tableId = table.id
        · have hnone : tables.any (·.id == seat.tableId) = false := by
            refine any_eq_false.mpr fun t ht heq' => hnew ?_
            rw [← heq, ← eq_of_beq heq']
            exact mem_map_of_mem ht
          simp [heq ▸ hnone, heq]
        · have hne : (seat.tableId == table.id) = false := beq_false_of_ne heq
          have hne' : (table.id == seat.tableId) = false := beq_false_of_ne (Ne.symm heq)
          rw [any_cons, hne, hne']
          rfl
      calc (table :: tables).flatMap s.seatsAt
          ~ s.seatsAt table ++ s.seats.filter fun seat => tables.any (·.id == seat.tableId) :=
            (ih hnodup).append_left _
        _ ~ s.seats.filter fun seat => (table :: tables).any (·.id == seat.tableId) := by
            rw [← hfirst, ← hrest]
            exact filter_append_perm _ _
  exact hperm _ hnodup

/-- What a balancing does to the rows of the seats. -/
structure MovesSeats (s : Store) (id : String) (currentHand avoidWithin : ℕ)
    (recentlyMoved recentlyMoved' : RecentlyMoved) (f : Seat → Seat) : Prop where
  recent : ∀ p, recentlyMoved'.lookup p = recentlyMoved.lookup p ∨
    recentlyMoved'.lookup p = some currentHand
  seat : ∀ row ∈ s.seats, f row = row ∨ ∃ table ∈ s.tablesOf id, s.atTournament id row = true ∧
    row.tableId ≠ table.id ∧
    f row = { row with tableId := table.id, lastMovedHand := currentHand } ∧
    mayMove currentHand avoidWithin recentlyMoved row.userId = true ∧
    recentlyMoved'.lookup row.userId = some currentHand

section Moves

variable {populated : Bool} {s : Store} {id : String} {currentHand avoidWithin : ℕ}
  {recentlyMoved recentlyMoved' : RecentlyMoved} {f : Seat → Seat}

lemma mem_seatsOf {row : Seat} :
    row ∈ s.seatsOf id ↔ row ∈ s.seats ∧ s.atTournament id row = true :=
  mem_filter

/-- A balancing fails and stores nothing, or it moves seats and says in the map whose. -/
lemma movesSeats_balanceTournament (populated : Bool) (currentHand avoidWithin : ℕ)
    (recentlyMoved : RecentlyMoved) (htables : (s.tables.map (·.id)).Nodup)
    (hids : (s.seats.map (·.id)).Nodup) (husers : (s.seatUsers id).Nodup) :
    (∃ e, (balanceTournament populated id currentHand avoidWithin recentlyMoved).run s =
      .error e s) ∨
    ∃ recentlyMoved' f, (balanceTournament populated id currentHand avoidWithin
        recentlyMoved).run s = .ok recentlyMoved' { s with seats := s.seats.map f } ∧
      MovesSeats s id currentHand avoidWithin recentlyMoved recentlyMoved' f := by
  have hbalanced := (rearranged_balanceTables currentHand avoidWithin (s.tablePlayers id)
    recentlyMoved).recent
  cases populated with
  | false =>
    rcases run_balanceTournament_unpopulated id currentHand avoidWithin recentlyMoved s with
      hrun | herror
    · refine Or.inr ⟨_, fun row => row, by rw [hrun, map_id'], ?_, fun _ _ => Or.inl rfl⟩
      exact fun p => (hbalanced p).imp_right And.right
    · exact Or.inl herror
  | true =>
    have hperm := loadedSeats_perm htables id
    have hloaded : ((s.loadedSeats id).map (·.userId)).Nodup :=
      (hperm.map _).nodup_iff.mpr husers
    obtain ⟨recentlyMoved', hrun, hrecent⟩ :=
      run_balanceTournament currentHand avoidWithin recentlyMoved hids hloaded
    refine Or.inr ⟨recentlyMoved', _, hrun, ?_, ?_⟩
    · intro p
      rcases hrecent p with hsame | hset
      · rw [hsame]
        exact (hbalanced p).imp_right And.right
      · exact Or.inr hset
    · intro row hrow
      split_ifs with hin
      · rcases reseat_cases (balancedVisits s id currentHand avoidWithin recentlyMoved)
          currentHand row with hkept | ⟨table, hvisit, hne, hmoved⟩
        · exact Or.inl hkept
        · have htable : table ∈ s.tablesOf id := by
            obtain ⟨i, players, htable, -⟩ := mem_visits.mp hvisit
            exact mem_of_getElem? htable
          have hnew : (reseat (balancedVisits s id currentHand avoidWithin recentlyMoved)
              currentHand row).tableId ≠ row.tableId := by
            rw [hmoved]
            exact hne.symm
          obtain ⟨hmay, hset⟩ := mayMove_of_moved hloaded hin hnew
          refine Or.inr ⟨table, htable, (mem_seatsOf.mp (hperm.mem_iff.mp hin)).2, hne, hmoved,
            hmay, ?_⟩
          rcases hrecent row.userId with hsame | hset'
          · rw [hsame, hset]
          · exact hset'
      · exact Or.inl rfl

/-- A balancing keeps the user and the tournament of a seat. -/
lemma MovesSeats.keeps (h : MovesSeats s id currentHand avoidWithin recentlyMoved recentlyMoved' f)
    {row : Seat} (hrow : row ∈ s.seats) : (f row).id = row.id ∧ (f row).userId = row.userId ∧
      s.atTournament id (f row) = s.atTournament id row := by
  rcases h.seat row hrow with hkept | ⟨table, htable, hat, -, hmoved, -⟩
  · rw [hkept]
    exact ⟨rfl, rfl, rfl⟩
  · rw [hmoved, hat]
    exact ⟨rfl, rfl, any_eq_true.mpr ⟨table, htable, beq_self_eq_true table.id⟩⟩

lemma movedUsers_map (seats : List Seat) (f : Seat → Seat) : movedUsers seats (seats.map f) =
    (seats.filter fun row => (f row).tableId ≠ row.tableId).map (·.userId) := by
  induction seats with
  | nil => rfl
  | cons row seats ih =>
    rw [movedUsers] at ih ⊢
    rw [map_cons, zip_cons_cons, filterMap_cons, filter_cons]
    by_cases hmoved : (f row).tableId ≠ row.tableId
    · simp only [if_pos hmoved, decide_eq_true hmoved, if_true, map_cons, ih]
    · simp only [if_neg hmoved, decide_eq_false hmoved, Bool.false_eq_true, if_false, ih]

/-- The users who are moved are seated in the tournament. -/
lemma MovesSeats.movedUsers_sublist
    (h : MovesSeats s id currentHand avoidWithin recentlyMoved recentlyMoved' f) :
    movedUsers s.seats (s.seats.map f) <+ s.seatUsers id := by
  have hmoved : (s.seats.filter fun row => (f row).tableId ≠ row.tableId) =
      (s.seatsOf id).filter fun row => (f row).tableId ≠ row.tableId := by
    rw [Store.seatsOf, filter_filter]
    refine filter_congr fun row hrow => ?_
    rcases h.seat row hrow with hkept | ⟨table, -, hat, -⟩
    · simp [hkept]
    · simp [hat]
  rw [movedUsers_map, hmoved]
  exact filter_sublist.map _

/-- Whoever is moved may be moved, and the map has the hand. -/
lemma MovesSeats.of_mem_movedUsers
    (h : MovesSeats s id currentHand avoidWithin recentlyMoved recentlyMoved' f) {p : String}
    (hp : p ∈ movedUsers s.seats (s.seats.map f)) :
    ∃ row ∈ s.seatsOf id, row.userId = p ∧ (f row).tableId ≠ row.tableId ∧
      mayMove currentHand avoidWithin recentlyMoved p = true ∧
      recentlyMoved'.lookup p = some currentHand := by
  rw [movedUsers_map] at hp
  obtain ⟨row, hrow, rfl⟩ := mem_map.mp hp
  obtain ⟨hrow, hne⟩ := mem_filter.mp hrow
  have hne : (f row).tableId ≠ row.tableId := of_decide_eq_true hne
  rcases h.seat row hrow with hkept | ⟨table, -, hat, -, -, hmay, hset⟩
  · exact absurd (congrArg Seat.tableId hkept) hne
  · exact ⟨row, mem_seatsOf.mpr ⟨hrow, hat⟩, rfl, hne, hmay, hset⟩

/-- The seats of the tournament afterwards. -/
lemma MovesSeats.seatsOf {s' : Store}
    (h : MovesSeats s id currentHand avoidWithin recentlyMoved recentlyMoved' f)
    (htables : s'.tables = s.tables) (hseats : s'.seats = s.seats.map f) :
    s'.seatsOf id = (s.seatsOf id).map f := by
  rw [Store.seatsOf, Store.seatsOf, atTournament_congr id htables, hseats, filter_map]
  congr 1
  exact filter_congr fun row hrow => (h.keeps hrow).2.2

lemma MovesSeats.seatUsers {s' : Store}
    (h : MovesSeats s id currentHand avoidWithin recentlyMoved recentlyMoved' f)
    (htables : s'.tables = s.tables) (hseats : s'.seats = s.seats.map f) :
    s'.seatUsers id = s.seatUsers id := by
  rw [Store.seatUsers, h.seatsOf htables hseats, map_map, Store.seatUsers]
  exact map_congr_left fun row hrow => (h.keeps (mem_seatsOf.mp hrow).1).2.1

end Moves

/-! ### What the service knows -/

section Known

variable {recentlyMoved : RecentlyMoved} {seats : List Seat} {p : String} {v : ℕ}

lemma overrideBySeats_cons (seat : Seat) (seats : List Seat) :
    overrideBySeats recentlyMoved (seat :: seats) = overrideBySeats
      (if seat.lastMovedHand ≠ 0 then (seat.userId, seat.lastMovedHand) :: recentlyMoved
        else recentlyMoved) seats :=
  rfl

/-- A hand that is known is in the map or in a seat. -/
lemma lookup_overrideBySeats (h : (overrideBySeats recentlyMoved seats).lookup p = some v) :
    recentlyMoved.lookup p = some v ∨
      ∃ seat ∈ seats, seat.userId = p ∧ seat.lastMovedHand = v ∧ v ≠ 0 := by
  induction seats generalizing recentlyMoved with
  | nil => exact Or.inl h
  | cons seat seats ih =>
    rw [overrideBySeats_cons] at h
    rcases ih h with hmap | ⟨seat', hseat', hknown⟩
    · split_ifs at hmap with hzero
      · by_cases hp : p = seat.userId
        · subst hp
          rw [lookup_cons_self] at hmap
          obtain rfl := Option.some.inj hmap
          exact Or.inr ⟨seat, mem_cons_self, rfl, rfl, hzero⟩
        · rw [lookup_cons, beq_false_of_ne hp] at hmap
          exact Or.inl hmap
      · exact Or.inl hmap
    · exact Or.inr ⟨seat', mem_cons_of_mem seat hseat', hknown⟩

/-- What the map knows stays known. -/
lemma isSome_overrideBySeats (h : (recentlyMoved.lookup p).isSome) :
    ((overrideBySeats recentlyMoved seats).lookup p).isSome := by
  induction seats generalizing recentlyMoved with
  | nil => exact h
  | cons seat seats ih =>
    rw [overrideBySeats_cons]
    refine ih ?_
    split_ifs
    · rw [lookup_cons]
      split
      · rfl
      · exact h
    · exact h

/-- What a seat knows is known. -/
lemma isSome_overrideBySeats_of_seat {seat : Seat} (hseat : seat ∈ seats)
    (hmoved : seat.lastMovedHand ≠ 0) :
    ((overrideBySeats recentlyMoved seats).lookup seat.userId).isSome := by
  induction seats generalizing recentlyMoved with
  | nil => exact absurd hseat not_mem_nil
  | cons seat' seats ih =>
    rw [overrideBySeats_cons]
    rcases mem_cons.mp hseat with rfl | hseat
    · refine isSome_overrideBySeats ?_
      rw [if_pos hmoved, lookup_cons_self]
      rfl
    · exact ih hseat

/-- A map that knows all that the hash knows replaces it. -/
lemma lookup_saveRecentlyMoved {redis : RecentlyMoved}
    (h : ∀ p, (redis.lookup p).isSome → (recentlyMoved.lookup p).isSome) (p : String) :
    (saveRecentlyMoved redis recentlyMoved).lookup p = recentlyMoved.lookup p := by
  rw [saveRecentlyMoved]
  split_ifs with hempty
  · rw [hempty]
  · rw [lookup_append]
    cases hp : recentlyMoved.lookup p with
    | some v => rfl
    | none =>
      cases hr : redis.lookup p with
      | none => rfl
      | some v =>
        have hsome := h p (by rw [hr]; rfl)
        rw [hp] at hsome
        cases hsome

end Known

/-! ### The invariant -/

/-- A hand that is remembered for a player is not before any of his moves; what is not remembered of
the moves of a seated player is past the window. -/
structure Watched (id : String) (avoidWithin : ℕ) (b : TableBalancer) : Prop where
  tableIds : (b.store.tables.map (·.id)).Nodup
  seatIds : (b.store.seats.map (·.id)).Nodup
  oneSeat : (b.store.seatUsers id).Nodup
  past : ∀ m ∈ b.moves, m.2 ≤ b.hand
  apart : b.moves.Pairwise fun m m' => m.1 = m'.1 → m.2 + avoidWithin ≤ m'.2
  map : ∀ p v, b.stored.lookup p = some v → ∀ m ∈ b.moves, m.1 = p → m.2 ≤ v
  seat : ∀ seat ∈ b.store.seatsOf id, seat.lastMovedHand ≠ 0 →
    ∀ m ∈ b.moves, m.1 = seat.userId → m.2 ≤ seat.lastMovedHand
  known : ∀ seat ∈ b.store.seatsOf id, seat.lastMovedHand ≠ 0 ∨
    (b.stored.lookup seat.userId).isSome ∨ b.Lapsed avoidWithin seat.userId

section Invariant

variable {sha256 : String → String} {wallet : Option Config} {populated : Bool} {id : String}
  {currentHand avoidWithin : ℕ} {b b' : TableBalancer} {recentlyMoved' : RecentlyMoved}
  {f : Seat → Seat}

lemma FreshlySeated.watched (h : FreshlySeated id b) : Watched id avoidWithin b where
  tableIds := h.tableIds
  seatIds := h.seatIds
  oneSeat := h.oneSeat
  past := by
    rw [h.moves]
    exact forall_mem_nil _
  apart := by
    rw [h.moves]
    exact .nil
  map p v _ := by
    rw [h.moves]
    exact forall_mem_nil _
  seat seat hseat hne := absurd (h.unmoved seat (mem_seatsOf.mp hseat).1) hne
  known seat _ := by
    refine Or.inr (Or.inr ?_)
    rw [TableBalancer.Lapsed, h.moves]
    exact forall_mem_nil _

/-- A later hand. -/
lemma Watched.later (h : Watched id avoidWithin b) (hhand : b.hand ≤ currentHand) :
    Watched id avoidWithin { b with hand := currentHand } :=
  { h with
    past := fun m hm => (h.past m hm).trans hhand
    known := fun seat hseat => (h.known seat hseat).imp_right fun hknown =>
      hknown.imp_right fun hlapsed m hm heq => (hlapsed m hm heq).trans hhand }

/-- Other seats, each of them one of the old seats or remembered. -/
lemma Watched.reseated (h : Watched id avoidWithin b) (htables : b'.store.tables = b.store.tables)
    (hids : (b'.store.seats.map (·.id)).Nodup) (husers : (b'.store.seatUsers id).Nodup)
    (hseats : ∀ seat ∈ b'.store.seatsOf id, seat ∈ b.store.seatsOf id ∨ seat.lastMovedHand = 0 ∧
      ((b.stored.lookup seat.userId).isSome ∨ b.Lapsed avoidWithin seat.userId))
    (hstored : b'.stored = b.stored) (hmoves : b'.moves = b.moves) (hhand : b'.hand = b.hand) :
    Watched id avoidWithin b' where
  tableIds := htables ▸ h.tableIds
  seatIds := hids
  oneSeat := husers
  past := by
    rw [hmoves, hhand]
    exact h.past
  apart := hmoves ▸ h.apart
  map := by
    rw [hstored, hmoves]
    exact h.map
  seat seat hseat hne := by
    rw [hmoves]
    rcases hseats seat hseat with hold | ⟨hzero, -⟩
    · exact h.seat seat hold hne
    · exact absurd hzero hne
  known seat hseat := by
    rw [TableBalancer.Lapsed, hstored, hmoves, hhand]
    rcases hseats seat hseat with hold | ⟨-, hknown⟩
    · exact h.known seat hold
    · exact Or.inr hknown

/-- Fewer seats. -/
lemma Watched.left (h : Watched id avoidWithin b) {s : Store} (htables : s.tables = b.store.tables)
    (hseats : s.seats <+ b.store.seats) : Watched id avoidWithin { b with store := s } := by
  refine h.reseated htables ((hseats.map _).nodup h.seatIds)
    ((seatUsers_sublist htables hseats).nodup h.oneSeat) ?_ rfl rfl rfl
  intro seat hseat
  obtain ⟨hin, hat⟩ := mem_seatsOf.mp hseat
  exact Or.inl (mem_seatsOf.mpr ⟨hseats.subset hin, by rwa [← atTournament_congr id htables]⟩)

/-- A seat of a user who had none. -/
lemma Watched.joined (h : Watched id avoidWithin b) {s : Store} {userId seatId : String}
    (htables : s.tables = b.store.tables) (hjoined : Joined id userId seatId b.store s.seats)
    (hnew : ∀ seat ∈ b.store.seats, seat.id ≠ seatId) (huser : userId ∉ b.store.seatUsers id)
    (hknown : (b.stored.lookup userId).isSome ∨ b.Lapsed avoidWithin userId) :
    Watched id avoidWithin { b with store := s } := by
  refine h.reseated htables ?_ (nodup_seatUsers_joined h.oneSeat htables hjoined huser) ?_
    rfl rfl rfl
  · obtain ⟨target, -, hseats⟩ := hjoined
    show (s.seats.map (·.id)).Nodup
    rw [hseats, map_append]
    refine nodup_append.mpr ⟨h.seatIds, nodup_singleton _, ?_⟩
    intro x hx y hy heq
    obtain ⟨seat, hseat, rfl⟩ := mem_map.mp hx
    obtain rfl : y = seatId := mem_singleton.mp hy
    exact hnew seat hseat heq
  · intro seat hseat
    obtain ⟨target, -, hseats⟩ := hjoined
    obtain ⟨hin, hat⟩ := mem_seatsOf.mp hseat
    replace hin : seat ∈ s.seats := hin
    rw [hseats] at hin
    rcases mem_append.mp hin with hold | hnew
    · exact Or.inl (mem_seatsOf.mpr ⟨hold, by rwa [← atTournament_congr id htables]⟩)
    · obtain rfl := mem_singleton.mp hnew
      exact Or.inr ⟨rfl, hknown⟩

/-- What the service knows when it balances is not before any move, and it knows what is within the
window. -/
lemma Watched.moved_before (h : Watched id avoidWithin b) (hhand : b.hand ≤ currentHand) {p : String}
    (hmay : mayMove currentHand avoidWithin
      (overrideBySeats b.stored (b.store.loadedSeats id)) p = true)
    {row : Seat} (hrow : row ∈ b.store.seatsOf id) (huser : row.userId = p) :
    ∀ m ∈ b.moves, m.1 = p → m.2 + avoidWithin ≤ currentHand := by
  intro m hm heq
  have hperm := loadedSeats_perm h.tableIds id
  cases hlookup : (overrideBySeats b.stored (b.store.loadedSeats id)).lookup p with
  | some v =>
    have hv : v + avoidWithin ≤ currentHand := by simpa [mayMove, hlookup] using hmay
    have hle : m.2 ≤ v := by
      rcases lookup_overrideBySeats hlookup with hmap | ⟨seat, hseat, rfl, rfl, hne⟩
      · exact h.map p v hmap m hm heq
      · exact h.seat seat (hperm.mem_iff.mp hseat) hne m hm heq
    exact (Nat.add_le_add_right hle avoidWithin).trans hv
  | none =>
    have hnone : ¬ ((overrideBySeats b.stored (b.store.loadedSeats id)).lookup p).isSome := by
      simp [hlookup]
    subst huser
    rcases h.known row hrow with hne | hknown | hlapsed
    · exact absurd (isSome_overrideBySeats_of_seat (hperm.mem_iff.mpr hrow) hne) hnone
    · exact absurd (isSome_overrideBySeats hknown) hnone
    · exact (hlapsed m hm heq).trans hhand

/-- A balancing has brought `b` to `b'`, with the seats moved by `f`. -/
structure Rebalanced (id : String) (currentHand avoidWithin : ℕ) (recentlyMoved' : RecentlyMoved)
    (f : Seat → Seat) (b b' : TableBalancer) : Prop where
  movesSeats : MovesSeats b.store id currentHand avoidWithin
    (overrideBySeats b.stored (b.store.loadedSeats id)) recentlyMoved' f
  tables : b'.store.tables = b.store.tables
  seats : b'.store.seats = b.store.seats.map f
  moves : b'.moves =
    b.moves ++ (movedUsers b.store.seats (b.store.seats.map f)).map (·, currentHand)
  hand : b'.hand = currentHand
  stored : ∀ p, b'.stored.lookup p = recentlyMoved'.lookup p

section Rebalanced

variable (hb : Rebalanced id currentHand avoidWithin recentlyMoved' f b b')
include hb

lemma Rebalanced.mem_moves {m : String × ℕ} (hm : m ∈ b'.moves) :
    m ∈ b.moves ∨
      m.2 = currentHand ∧ m.1 ∈ movedUsers b.store.seats (b.store.seats.map f) := by
  rw [hb.moves] at hm
  rcases mem_append.mp hm with hold | hnew
  · exact Or.inl hold
  · obtain ⟨p, hp, rfl⟩ := mem_map.mp hnew
    exact Or.inr ⟨rfl, hp⟩

lemma Rebalanced.past (h : Watched id avoidWithin b) (hhand : b.hand ≤ currentHand) :
    ∀ m ∈ b'.moves, m.2 ≤ currentHand := by
  intro m hm
  rcases hb.mem_moves hm with hold | ⟨hnew, -⟩
  · exact (h.past m hold).trans hhand
  · exact hnew.le

/-- The seat of a player who is moved is the one that is moved. -/
lemma Rebalanced.not_moved (h : Watched id avoidWithin b) {row : Seat}
    (hrow : row ∈ b.store.seatsOf id) (hkept : f row = row) :
    row.userId ∉ movedUsers b.store.seats (b.store.seats.map f) := by
  intro hin
  obtain ⟨row', hrow', huser, hne, -⟩ := hb.movesSeats.of_mem_movedUsers hin
  obtain rfl := inj_on_of_nodup_map h.oneSeat hrow' hrow huser
  exact hne (congrArg Seat.tableId hkept)

lemma Rebalanced.old_move (h : Watched id avoidWithin b) {row : Seat}
    (hrow : row ∈ b.store.seatsOf id) (hkept : f row = row) {m : String × ℕ} (hm : m ∈ b'.moves)
    (heq : m.1 = row.userId) : m ∈ b.moves := by
  rcases hb.mem_moves hm with hold | ⟨-, hin⟩
  · exact hold
  · exact absurd (heq ▸ hin) (hb.not_moved h hrow hkept)

lemma Rebalanced.apart (h : Watched id avoidWithin b) (hhand : b.hand ≤ currentHand) :
    b'.moves.Pairwise fun m m' => m.1 = m'.1 → m.2 + avoidWithin ≤ m'.2 := by
  rw [hb.moves]
  refine pairwise_append.mpr ⟨h.apart, ?_, ?_⟩
  · refine pairwise_map.mpr ?_
    have hnodup := hb.movesSeats.movedUsers_sublist.nodup h.oneSeat
    exact hnodup.imp fun hne heq => absurd heq hne
  · intro m hm m' hm' heq
    obtain ⟨p, hp, rfl⟩ := mem_map.mp hm'
    obtain ⟨row, hrow, huser, -, hmay, -⟩ := hb.movesSeats.of_mem_movedUsers hp
    exact h.moved_before hhand hmay hrow huser m hm heq

/-- What is remembered in the map. -/
lemma Rebalanced.map (h : Watched id avoidWithin b) (hhand : b.hand ≤ currentHand) {p : String}
    {v : ℕ} (hlookup : b'.stored.lookup p = some v) : ∀ m ∈ b'.moves, m.1 = p → m.2 ≤ v := by
  intro m hm heq
  rw [hb.stored] at hlookup
  rcases hb.mem_moves hm with hold | ⟨hnew, hin⟩
  · rcases hb.movesSeats.recent p with hsame | hset
    · rw [hsame] at hlookup
      rcases lookup_overrideBySeats hlookup with hmap | ⟨seat, hseat, rfl, rfl, hne⟩
      · exact h.map p v hmap m hold heq
      · have hperm := loadedSeats_perm h.tableIds id
        exact h.seat seat (hperm.mem_iff.mp hseat) hne m hold heq
    · rw [hset] at hlookup
      exact Option.some.inj hlookup ▸ hb.past h hhand m hm
  · obtain ⟨row, -, -, -, -, hset⟩ := hb.movesSeats.of_mem_movedUsers hin
    rw [← heq, hset] at hlookup
    exact hnew.le.trans (Option.some.inj hlookup).le

lemma Rebalanced.seat_cases {seat : Seat} (hseat : seat ∈ b'.store.seatsOf id) :
    ∃ row ∈ b.store.seatsOf id, seat = f row ∧ (f row = row ∨ ∃ table ∈ b.store.tablesOf id,
      f row = { row with tableId := table.id, lastMovedHand := currentHand } ∧
      recentlyMoved'.lookup row.userId = some currentHand) := by
  rw [hb.movesSeats.seatsOf hb.tables hb.seats] at hseat
  obtain ⟨row, hrow, rfl⟩ := mem_map.mp hseat
  refine ⟨row, hrow, rfl, ?_⟩
  rcases hb.movesSeats.seat row (mem_seatsOf.mp hrow).1 with hkept | ⟨table, htable, h⟩
  · exact Or.inl hkept
  · exact Or.inr ⟨table, htable, h.2.2.1, h.2.2.2.2⟩

/-- A seat that is not moved is as well known as before. -/
lemma Rebalanced.known (h : Watched id avoidWithin b) (hhand : b.hand ≤ currentHand) {row : Seat}
    (hrow : row ∈ b.store.seatsOf id) (hkept : f row = row) : row.lastMovedHand ≠ 0 ∨
      (b'.stored.lookup row.userId).isSome ∨ b'.Lapsed avoidWithin row.userId := by
  rcases h.known row hrow with hne | hknown | hlapsed
  · exact Or.inl hne
  · refine Or.inr (Or.inl ?_)
    rw [hb.stored]
    rcases hb.movesSeats.recent row.userId with hsame | hset
    · rw [hsame]
      exact isSome_overrideBySeats hknown
    · rw [hset]
      rfl
  · refine Or.inr (Or.inr fun m hm heq => ?_)
    rw [hb.hand]
    exact (hlapsed m (hb.old_move h hrow hkept hm heq) heq).trans hhand

/-- A balancing. -/
lemma Watched.moved (h : Watched id avoidWithin b) (hhand : b.hand ≤ currentHand) :
    Watched id avoidWithin b' where
  tableIds := hb.tables ▸ h.tableIds
  seatIds := by
    rw [hb.seats, map_map]
    have hsame : (b.store.seats.map ((·.id) ∘ f)) = b.store.seats.map (·.id) :=
      map_congr_left fun row hrow => (hb.movesSeats.keeps hrow).1
    rw [hsame]
    exact h.seatIds
  oneSeat := by
    rw [hb.movesSeats.seatUsers hb.tables hb.seats]
    exact h.oneSeat
  past := by
    rw [hb.hand]
    exact hb.past h hhand
  apart := hb.apart h hhand
  map _ _ hlookup := hb.map h hhand hlookup
  seat seat hseat hne m hm heq := by
    obtain ⟨row, hrow, rfl, hkept | ⟨table, -, hmoved, -⟩⟩ := hb.seat_cases hseat
    · rw [hkept] at hne heq ⊢
      exact h.seat row hrow hne m (hb.old_move h hrow hkept hm heq) heq
    · rw [hmoved]
      exact hb.past h hhand m hm
  known seat hseat := by
    obtain ⟨row, hrow, rfl, hkept | ⟨table, -, hmoved, hset⟩⟩ := hb.seat_cases hseat
    · rw [hkept]
      exact hb.known h hhand hrow hkept
    · refine Or.inr (Or.inl ?_)
      rw [hmoved, hb.stored]
      show (recentlyMoved'.lookup row.userId).isSome = true
      rw [hset]
      rfl

end Rebalanced

lemma Watched.rebalance (h : Watched id avoidWithin b) (hhand : b.hand ≤ currentHand) :
    Watched id avoidWithin
      (b.after sha256 wallet populated id avoidWithin (.rebalance currentHand)) := by
  by_cases huneven : uneven ((b.store.tablePlayers id).map (·.length)) = true
  · simp only [TableBalancer.after, TableBalancer.rebalanceIfNeeded, if_pos huneven]
    rcases movesSeats_balanceTournament populated currentHand avoidWithin
      (overrideBySeats b.stored (b.store.loadedSeats id)) h.tableIds h.seatIds h.oneSeat with
      ⟨e, hrun⟩ | ⟨recentlyMoved', f, hrun, hf⟩
    · rw [hrun]
      exact h.later hhand
    · rw [hrun]
      refine Watched.moved ⟨hf, rfl, rfl, rfl, rfl, fun p => ?_⟩ h hhand
      have hkeys : ∀ redis, b.redis = some redis → ∀ p, (redis.lookup p).isSome →
          (recentlyMoved'.lookup p).isSome := by
        intro redis hredis p hp
        have hstored : b.stored = redis := by rw [TableBalancer.stored, hredis, Option.getD_some]
        rcases hf.recent p with hsame | hset
        · rw [hsame]
          exact isSome_overrideBySeats (hstored ▸ hp)
        · rw [hset]
          rfl
      cases hredis : b.redis with
      | none => rfl
      | some redis =>
        have hsaved := lookup_saveRecentlyMoved (hkeys redis hredis)
        simp only [TableBalancer.stored, Option.map_some, Option.getD_some]
        exact lookup_saveRecentlyMoved (fun p hp => by rwa [hsaved] at hp) p
  · simp only [TableBalancer.after, TableBalancer.rebalanceIfNeeded, if_neg huneven]
    exact h.later hhand

lemma Watched.after (h : Watched id avoidWithin b) {event : BalancerEvent} (hadmits : b.Admits event)
    (hremembers : Remembers id avoidWithin b event) :
    Watched id avoidWithin (b.after sha256 wallet populated id avoidWithin event) := by
  cases event with
  | call call =>
    obtain ⟨htables, hseats | hseats⟩ := seatsAfter_after sha256 wallet id call b.store
    · exact h.left htables (hseats ▸ .refl _)
    · cases call with
      | join userId now seatId saves =>
        exact h.joined htables hseats hadmits hremembers.1 hremembers.2
      | withdraw userId =>
        obtain ⟨existing, -, hseats⟩ := hseats
        exact h.left htables (hseats ▸ filter_sublist)
      | _ => exact hseats.elim
  | eliminate seatId => exact h.left rfl filter_sublist
  | rebalance currentHand => exact h.rebalance hadmits
  | restart =>
    cases hredis : b.redis with
    | some redis =>
      refine h.reseated rfl h.seatIds h.oneSeat (fun _ => Or.inl) ?_ rfl rfl
      simp only [TableBalancer.after, TableBalancer.stored, hredis, Option.getD_some]
    | none =>
      have hempty : (b.after sha256 wallet populated id avoidWithin .restart).stored = [] := by
        simp only [TableBalancer.after, TableBalancer.stored, hredis, Option.getD_none]
      refine { h with
        map := fun p v hlookup => ?_
        known := fun seat hseat => ?_ }
      · rw [hempty] at hlookup
        cases hlookup
      · rcases hremembers with hsome | hseats
        · rw [hredis] at hsome
          cases hsome
        · exact (hseats seat hseat).imp_right Or.inr

end Invariant

/-! Four players at one of two tables, without Redis. -/

instance (id : String) (avoidWithin : ℕ) (b : TableBalancer) :
    (event : BalancerEvent) → Decidable (b.Admits event ∧ Remembers id avoidWithin b event)
  | .call (.join userId _ seatId _) => inferInstanceAs (Decidable
      ((∀ seat ∈ b.store.seats, seat.id ≠ seatId) ∧ userId ∉ b.store.seatUsers id ∧
        ((b.stored.lookup userId).isSome ∨
          ∀ m ∈ b.moves, m.1 = userId → m.2 + avoidWithin ≤ b.hand)))
  | .restart => inferInstanceAs (Decidable (True ∧ (b.redis.isSome ∨
      ∀ seat ∈ b.store.seatsOf id, seat.lastMovedHand ≠ 0 ∨
        ∀ m ∈ b.moves, m.1 = seat.userId → m.2 + avoidWithin ≤ b.hand)))
  | .rebalance currentHand => inferInstanceAs (Decidable (b.hand ≤ currentHand ∧ True))
  | .eliminate _ | .call (.withdraw _) | .call .openRegistration | .call .start | .call .pause
  | .call .resume | .call .finish | .call .cancel => isTrue ⟨trivial, trivial⟩

def fourAtOne : TableBalancer where
  store := { twoTables with
    seats := [⟨"s1", "u1", "A", 0, 0⟩, ⟨"s2", "u2", "A", 1, 0⟩, ⟨"s3", "u3", "A", 2, 0⟩,
      ⟨"s4", "u4", "A", 3, 0⟩] }
  redis := none

lemma freshlySeated_fourAtOne : FreshlySeated "t1" fourAtOne where
  tableIds := by decide
  seatIds := by decide
  oneSeat := by decide
  unmoved := by decide
  redis := Or.inl rfl
  localRecentlyMoved := rfl
  moves := rfl

/-- Two players are moved, those at their old table are eliminated, and the process is restarted
before the next hand. -/
def movedAndRestarted (hand : ℕ) : List BalancerEvent :=
  [.rebalance hand, .eliminate "s1", .eliminate "s2", .restart, .rebalance (hand + 1)]

/-- The balancer after some events. -/
def afterEvents (events : List BalancerEvent) : TableBalancer :=
  events.foldl (fun b event => b.after id none true "t1" 10 event) fourAtOne

lemma reachable_afterEvents {ok : TableBalancer → BalancerEvent → Prop} {events : List BalancerEvent}
    (h : Along (fun b event => TableBalancer.after id none true "t1" 10 b event)
      (fun b event => b.Admits event ∧ ok b event) fourAtOne events) :
    ((balancerRuns id none true "t1" 10).restrict ok).Reachable (afterEvents events) :=
  Reachable.foldl_of_guard (T := balancerRuns id none true "t1" 10)
    (fun _ _ hadmits => ⟨hadmits, rfl⟩) (.of_init freshlySeated_fourAtOne) h

end Pokerhub.TournamentService
