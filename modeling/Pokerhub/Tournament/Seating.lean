import Pokerhub.Tournament.Balancing
import Pokerhub.Tournament.BuyIns

/-!
# The seating of a tournament

Joins, withdrawals and calls of `balanceTournament` on one tournament. A call changes the seats by a
seat at the table with the fewest seats, by the seat of a user who withdraws, or not at all
(`seatsAfter_after`). A join does not look for a seat of the user and takes the number of seats as
the position, and a balancing that has somebody to move stores nothing: the seating is as it should
be in the runs that meet none of this, and in no others (`seating_well_formed`).
-/

namespace Pokerhub.TournamentService

open List Wallet TransitionSystem

/-! ### What a call does to the seats -/

/-- The store after a body that succeeded or failed. -/
def storeAfter {α : Type} (body : TournamentM α) (s : Store) : Store :=
  match body.run s with
  | .ok _ s' | .error _ s' => s'

/-- The body leaves the seats and the tables as they are. -/
def KeepsSeats {α : Type} (body : TournamentM α) : Prop :=
  ∀ s, ∃ tournaments wallet emitted, storeAfter body s =
    { s with tournaments := tournaments, wallet := wallet, emitted := emitted }

section Keeps

variable {sha256 : String → String} {wallet : Option Config} {id : String} {s : Store}
  {α β : Type} {x : TournamentM α} {f : α → TournamentM β}

/-- What comes after a body that keeps the seats starts from the same seats, if it is reached. -/
lemma KeepsSeats.bind_cases (hx : KeepsSeats x) (f : α → TournamentM β) (s : Store) :
    ∃ tournaments wallet emitted,
      storeAfter (x >>= f) s =
        { s with tournaments := tournaments, wallet := wallet, emitted := emitted } ∨
      ∃ a, storeAfter (x >>= f) s = storeAfter (f a)
        { s with tournaments := tournaments, wallet := wallet, emitted := emitted } := by
  obtain ⟨tournaments, wallet, emitted, h⟩ := hx s
  refine ⟨tournaments, wallet, emitted, ?_⟩
  simp only [storeAfter, EStateM.run_bind] at h ⊢
  cases hrun : x.run s with
  | ok a s' =>
    rw [hrun] at h
    obtain rfl := h
    exact Or.inr ⟨a, rfl⟩
  | error e s' =>
    rw [hrun] at h
    exact Or.inl h

lemma keepsSeats_pure (a : α) : KeepsSeats (pure a) :=
  fun s => ⟨s.tournaments, s.wallet, s.emitted, rfl⟩

lemma keepsSeats_throw (e : String) : KeepsSeats (throw e : TournamentM α) :=
  fun s => ⟨s.tournaments, s.wallet, s.emitted, rfl⟩

lemma keepsSeats_get : KeepsSeats (get : TournamentM Store) :=
  fun s => ⟨s.tournaments, s.wallet, s.emitted, rfl⟩

lemma storeAfter_get_bind (f : Store → TournamentM α) (s : Store) :
    storeAfter (get >>= f) s = storeAfter (f s) s := rfl

lemma keepsSeats_emit (event : TournamentEvent) : KeepsSeats (emit event) :=
  fun s => ⟨s.tournaments, s.wallet, s.emitted ++ [event], rfl⟩

lemma keepsSeats_saveState (id : String) (state : TournamentState) :
    KeepsSeats (saveState id state) :=
  fun s => ⟨(s.saveState id state).tournaments, s.wallet, s.emitted, rfl⟩

lemma keepsSeats_callWallet (p : WalletM α) : KeepsSeats (callWallet p) := by
  intro s
  refine ⟨s.tournaments, (p.run Cmd.exec s.wallet).2, s.emitted, ?_⟩
  simp only [storeAfter, run_callWallet]
  rcases p.run Cmd.exec s.wallet with ⟨e | a, wallet⟩
  · rfl
  · rfl

lemma KeepsSeats.bind (hx : KeepsSeats x) (hf : ∀ a, KeepsSeats (f a)) : KeepsSeats (x >>= f) := by
  intro s
  obtain ⟨tournaments, wallet, emitted, h | ⟨a, h⟩⟩ := hx.bind_cases f s
  · exact ⟨tournaments, wallet, emitted, h⟩
  · obtain ⟨tournaments', wallet', emitted', h'⟩ := hf a _
    exact ⟨tournaments', wallet', emitted', h.trans h'⟩

lemma keepsSeats_forM {body : α → TournamentM Unit} (h : ∀ a, KeepsSeats (body a)) (l : List α) :
    KeepsSeats (l.forM body) := by
  induction l with
  | nil => exact keepsSeats_pure ()
  | cons a l ih => exact (h a).bind fun _ => ih

lemma keepsSeats_getEntity (id : String) : KeepsSeats (getEntity id) := by
  refine keepsSeats_get.bind fun s => ?_
  split
  · exact keepsSeats_pure _
  · exact keepsSeats_throw _

lemma keepsSeats_transition (allowed : List TournamentState) (state : TournamentState)
    (id : String) : KeepsSeats (transition allowed state id) := by
  refine (keepsSeats_getEntity id).bind fun t => ?_
  split_ifs
  · exact (keepsSeats_saveState _ _).bind fun _ => keepsSeats_pure _
  · exact keepsSeats_throw _

lemma keepsSeats_reserveBuyIn (event : WalletEvent) :
    KeepsSeats (reserveBuyIn sha256 wallet event) := by
  cases wallet with
  | none => exact keepsSeats_pure _
  | some config => exact (keepsSeats_callWallet _).bind fun _ => keepsSeats_pure _

lemma keepsSeats_rollbackBuyIn (event : WalletEvent) :
    KeepsSeats (rollbackBuyIn sha256 wallet event) := by
  cases wallet with
  | none => exact keepsSeats_pure _
  | some config => exact (keepsSeats_callWallet _).bind fun _ => keepsSeats_pure _

lemma keepsSeats_emitIfSome (topic : WalletEvent → TournamentEvent) (event : Option WalletEvent) :
    KeepsSeats (emitIfSome topic event) := by
  cases event with
  | none => exact keepsSeats_pure _
  | some event => exact keepsSeats_emit _

lemma keepsSeats_cancel (id : String) : KeepsSeats (cancel sha256 wallet id) := by
  refine (keepsSeats_transition _ _ _).bind fun t => ?_
  have hrefund : ∀ seat, KeepsSeats (refundSeat sha256 wallet t seat) := fun seat =>
    (keepsSeats_rollbackBuyIn _).bind fun _ => (keepsSeats_emit _).bind fun _ => keepsSeats_emit _
  split_ifs
  · refine (keepsSeats_get.bind fun s => keepsSeats_forM hrefund _).bind fun _ => ?_
    exact keepsSeats_emit _
  · exact keepsSeats_emit _

end Keeps

/-- The body leaves the tables as they are; the seats it leaves as they are, or changes to seats
that `P` allows. -/
def ChangesSeats {α : Type} (P : Store → List Seat → Prop) (body : TournamentM α) : Prop :=
  ∀ s, (storeAfter body s).tables = s.tables ∧
    ((storeAfter body s).seats = s.seats ∨ P s (storeAfter body s).seats)

section Changes

variable {sha256 : String → String} {wallet : Option Config} {id userId seatId currency : String}
  {saves : Bool} {s : Store} {α β : Type} {x : TournamentM α} {f : α → TournamentM β}
  {P : Store → List Seat → Prop}

lemma KeepsSeats.changes (h : KeepsSeats x) : ChangesSeats P x := by
  intro s
  obtain ⟨tournaments, wallet, emitted, h⟩ := h s
  rw [h]
  exact ⟨rfl, Or.inl rfl⟩

/-- The seats are changed after a body that keeps them. -/
lemma ChangesSeats.of_keeps (hx : KeepsSeats x) (hf : ∀ a, ChangesSeats P (f a))
    (hP : ∀ (s : Store) tournaments wallet emitted seats,
      P { s with tournaments := tournaments, wallet := wallet, emitted := emitted } seats →
        P s seats) :
    ChangesSeats P (x >>= f) := by
  intro s
  obtain ⟨tournaments, wallet, emitted, h | ⟨a, h⟩⟩ := hx.bind_cases f s
  · rw [h]
    exact ⟨rfl, Or.inl rfl⟩
  · obtain ⟨htables, hseats⟩ := hf a
      { s with tournaments := tournaments, wallet := wallet, emitted := emitted }
    rw [h]
    exact ⟨htables, hseats.imp_right (hP s tournaments wallet emitted _)⟩

/-- The seats are changed before a body that keeps them. -/
lemma ChangesSeats.bind (hx : ChangesSeats P x) (hf : ∀ a, KeepsSeats (f a)) :
    ChangesSeats P (x >>= f) := by
  intro s
  have h := hx s
  simp only [storeAfter, EStateM.run_bind] at h ⊢
  cases hrun : x.run s with
  | ok a s' =>
    rw [hrun] at h
    obtain ⟨tournaments, wallet, emitted, h'⟩ := hf a s'
    rw [storeAfter] at h'
    simp only [h']
    exact h
  | error e s' =>
    rw [hrun] at h
    exact h

lemma ChangesSeats.transaction (h : ChangesSeats P x) : ChangesSeats P (transaction x) := by
  intro s
  have h := h s
  simp only [storeAfter, run_transaction] at h ⊢
  cases hrun : x.run s with
  | ok a s' =>
    rw [hrun] at h
    exact h
  | error e s' =>
    rw [hrun] at h
    exact ⟨h.1, Or.inl rfl⟩

/-- A new seat at the table with the fewest seats. -/
def Joined (id userId seatId : String) (s : Store) (seats : List Seat) : Prop :=
  ∃ target, s.leastSeated (s.tablesOf id) = some target ∧
    seats = s.seats ++ [s.createSeat seatId userId target]

/-- The seat that is found for a user is removed. -/
def Left (id userId : String) (s : Store) (seats : List Seat) : Prop :=
  ∃ existing, s.seats.find? (fun seat => s.atTournament id seat && seat.userId == userId) =
      some existing ∧
    seats = s.seats.filter (·.id ≠ existing.id)

lemma changesSeats_manageSeat_join :
    ChangesSeats (Joined id userId seatId)
      (manageSeat sha256 wallet (.join seatId saves) id userId currency) := by
  refine .of_keeps (keepsSeats_getEntity id) (fun t => ?_) (fun _ _ _ _ _ h => h)
  refine .of_keeps (keepsSeats_reserveBuyIn _) (fun walletEvent => ?_) (fun _ _ _ _ _ h => h)
  intro s
  rw [storeAfter_get_bind]
  cases htarget : s.leastSeated (s.tablesOf id) with
  | none => exact (keepsSeats_throw _).changes s
  | some target =>
    cases saves with
    | true => exact ⟨rfl, Or.inr ⟨target, htarget, rfl⟩⟩
    | false =>
      exact ((keepsSeats_rollbackBuyIn _).bind fun _ => keepsSeats_throw _).changes s

lemma changesSeats_manageSeat_withdraw :
    ChangesSeats (Left id userId) (manageSeat sha256 wallet .withdraw id userId currency) := by
  refine .of_keeps (keepsSeats_getEntity id) (fun t => ?_) (fun _ _ _ _ _ h => h)
  intro s
  rw [storeAfter_get_bind]
  cases hseat : s.seats.find? fun seat => s.atTournament id seat && seat.userId == userId with
  | none => exact (keepsSeats_pure _).changes s
  | some existing =>
    refine ChangesSeats.of_keeps (P := fun s' seats => s'.seats = s.seats →
      seats = s.seats.filter (·.id ≠ existing.id)) (keepsSeats_rollbackBuyIn _) (fun _ => ?_)
      (fun _ _ _ _ _ h => h) s |>.imp_right fun h => h.imp_right fun h => ⟨existing, hseat, h rfl⟩
    exact fun s' => ⟨rfl, Or.inr fun heq => by rw [← heq]; rfl⟩

lemma changesSeats_join {now : ℕ} : ChangesSeats (Joined id userId seatId)
    (TournamentService.join sha256 wallet id userId now seatId saves) := by
  refine .of_keeps (keepsSeats_getEntity id) (fun t => ?_) (fun _ _ _ _ _ h => h)
  split_ifs
  · refine ChangesSeats.bind ?_ fun result =>
      (keepsSeats_emitIfSome _ _).bind fun _ => keepsSeats_pure _
    exact .of_keeps (keepsSeats_getEntity id) (fun _ => changesSeats_manageSeat_join.transaction)
      (fun _ _ _ _ _ h => h)
  · exact (keepsSeats_throw _).changes

lemma changesSeats_withdraw :
    ChangesSeats (Left id userId) (TournamentService.withdraw sha256 wallet id userId) := by
  refine ChangesSeats.bind ?_ fun result => keepsSeats_emitIfSome _ _
  exact .of_keeps (keepsSeats_getEntity id) (fun _ => changesSeats_manageSeat_withdraw.transaction)
    (fun _ _ _ _ _ h => h)

/-- What a call may do to the seats. -/
def SeatsAfter (id : String) : TournamentCall → Store → List Seat → Prop
  | .join userId _ seatId _ => Joined id userId seatId
  | .withdraw userId => Left id userId
  | _ => fun _ _ => False

/-- A call leaves the tables as they are, and it changes the seats by one seat at most. -/
lemma seatsAfter_after (sha256 : String → String) (wallet : Option Config) (id : String)
    (call : TournamentCall) (s : Store) :
    (call.after sha256 wallet id s).tables = s.tables ∧
      ((call.after sha256 wallet id s).seats = s.seats ∨
        SeatsAfter id call s (call.after sha256 wallet id s).seats) := by
  have hbody : ChangesSeats (SeatsAfter id call) (call.body sha256 wallet id) := by
    cases call with
    | openRegistration =>
      exact ((keepsSeats_getEntity id).bind fun t => keepsSeats_saveState t.id _).changes
    | start => exact ((keepsSeats_transition _ _ id).bind fun _ => keepsSeats_pure ()).changes
    | pause => exact ((keepsSeats_transition _ _ id).bind fun _ => keepsSeats_pure ()).changes
    | resume => exact ((keepsSeats_transition _ _ id).bind fun _ => keepsSeats_pure ()).changes
    | finish => exact ((keepsSeats_transition _ _ id).bind fun _ => keepsSeats_pure ()).changes
    | cancel => exact (keepsSeats_cancel id).changes
    | join userId now seatId saves => exact changesSeats_join.bind fun _ => keepsSeats_pure ()
    | withdraw userId => exact changesSeats_withdraw
  have hafter : call.after sha256 wallet id s = storeAfter (call.body sha256 wallet id) s := by
    rw [TournamentCall.after, storeAfter]
    cases (call.body sha256 wallet id).run s with
    | ok a s' => rfl
    | error e s' => rfl
  rw [hafter]
  exact hbody s

end Changes

/-! ### Runs -/

inductive SeatingCall where
  | call (call : TournamentCall)
  | balance (currentHand avoidWithin : ℕ) (recentlyMoved : RecentlyMoved)
  deriving DecidableEq

/-- The store after a call; the seats that are loaded do not know their tables. -/
def SeatingCall.after (sha256 : String → String) (wallet : Option Config) (id : String) :
    SeatingCall → Store → Store
  | call c, s => c.after sha256 wallet id s
  | balance currentHand avoidWithin recentlyMoved, s =>
    storeAfter (balanceTournament false id currentHand avoidWithin recentlyMoved) s

structure WellSeated (id : String) (s : Store) : Prop where
  oneSeat : (s.seatUsers id).Nodup
  positions : ∀ table ∈ s.tablesOf id, ((s.seatsAt table).map (·.position)).Nodup

def seatingRuns (sha256 : String → String) (wallet : Option Config) (id : String) :
    TransitionSystem Store SeatingCall where
  init := WellSeated id
  step s call s' := s' = call.after sha256 wallet id s

/-- The stored seating is the assignment, and the seats that got another table have the hand. -/
structure Persisted (id : String) (currentHand avoidWithin : ℕ) (recentlyMoved : RecentlyMoved)
    (s s' : Store) : Prop where
  seating : Forall₂ Perm (s'.tablePlayers id)
    (balanceTables currentHand avoidWithin (s.tablePlayers id) recentlyMoved).2
  moved : Forall₂ (fun seat seat' : Seat => seat'.lastMovedHand =
    if seat'.tableId = seat.tableId then seat.lastMovedHand else currentHand) s.seats s'.seats

/-- Who joins has no seat, and no seat of the table has the number of its seats as position. -/
def Roomy (id : String) (s : Store) : SeatingCall → Prop
  | .call (.join userId _ _ _) => userId ∉ s.seatUsers id ∧
    ∀ target ∈ s.leastSeated (s.tablesOf id),
      (s.seatsAt target).length ∉ (s.seatsAt target).map (·.position)
  | _ => True

instance (id : String) (s : Store) : (call : SeatingCall) → Decidable (Roomy id s call)
  | .call (.join userId _ _ _) => inferInstanceAs (Decidable (userId ∉ s.seatUsers id ∧
    ∀ target ∈ s.leastSeated (s.tablesOf id),
      (s.seatsAt target).length ∉ (s.seatsAt target).map (·.position)))
  | .call (.withdraw _) | .call .openRegistration | .call .start | .call .pause | .call .resume
  | .call .finish | .call .cancel | .balance _ _ _ => isTrue trivial

section Seating

variable {sha256 : String → String} {wallet : Option Config} {id userId seatId : String}
  {s s' : Store} {currentHand avoidWithin : ℕ} {recentlyMoved : RecentlyMoved}

lemma tablesOf_congr (id : String) (htables : s'.tables = s.tables) :
    s'.tablesOf id = s.tablesOf id := by
  rw [Store.tablesOf, htables, Store.tablesOf]

lemma atTournament_congr (id : String) (htables : s'.tables = s.tables) :
    s'.atTournament id = s.atTournament id := by
  funext seat
  rw [Store.atTournament, tablesOf_congr id htables, Store.atTournament]

/-- What is stored depends on the tables and the seats. -/
lemma WellSeated.congr (h : WellSeated id s) (htables : s'.tables = s.tables)
    (hseats : s'.seats = s.seats) : WellSeated id s' := by
  have hof := tablesOf_congr id htables
  constructor
  · have husers : s'.seatUsers id = s.seatUsers id := by
      rw [Store.seatUsers, Store.seatsOf, hseats, atTournament_congr id htables]
      rfl
    rw [husers]
    exact h.oneSeat
  · intro table htable
    have hat : s'.seatsAt table = s.seatsAt table := by
      rw [Store.seatsAt, hseats, Store.seatsAt]
    rw [hat]
    exact h.positions table (hof ▸ htable)

/-- Fewer seats have fewer users. -/
lemma seatUsers_sublist (htables : s'.tables = s.tables) (hseats : s'.seats <+ s.seats) :
    s'.seatUsers id <+ s.seatUsers id := by
  rw [Store.seatUsers, Store.seatsOf, atTournament_congr id htables]
  exact (hseats.filter _).map _

lemma WellSeated.left (h : WellSeated id s) (htables : s'.tables = s.tables)
    (hseats : s'.seats <+ s.seats) : WellSeated id s' := by
  constructor
  · exact (seatUsers_sublist htables hseats).nodup h.oneSeat
  · intro table htable
    have hsub : (s'.seatsAt table).map (·.position) <+ (s.seatsAt table).map (·.position) :=
      (hseats.filter _).map _
    exact hsub.nodup (h.positions table (tablesOf_congr id htables ▸ htable))

lemma filter_joined {target : Table} (hseats : s'.seats = s.seats ++ [s.createSeat seatId userId
    target]) (q : Seat → Bool) : s'.seats.filter q = s.seats.filter q ++
      if q (s.createSeat seatId userId target) then [s.createSeat seatId userId target] else [] := by
  rw [hseats, filter_append, filter_singleton]
  cases q (s.createSeat seatId userId target) with
  | true => rfl
  | false => rfl

/-- A user without a seat joins. -/
lemma nodup_seatUsers_joined (h : (s.seatUsers id).Nodup) (htables : s'.tables = s.tables)
    (hjoined : Joined id userId seatId s s'.seats) (huser : userId ∉ s.seatUsers id) :
    (s'.seatUsers id).Nodup := by
  obtain ⟨target, -, hseats⟩ := hjoined
  rw [Store.seatUsers, Store.seatsOf, atTournament_congr id htables, filter_joined hseats,
    map_append]
  refine nodup_append.mpr ⟨h, ?_, ?_⟩
  · split_ifs <;> simp
  · intro user hold user' hnew heq
    split_ifs at hnew with hin
    · obtain rfl : user' = userId := by simpa [Store.createSeat] using hnew
      subst heq
      exact huser hold
    · exact absurd hnew not_mem_nil

lemma WellSeated.joined (h : WellSeated id s) (htables : s'.tables = s.tables)
    (hjoined : Joined id userId seatId s s'.seats) (huser : userId ∉ s.seatUsers id)
    (hposition : ∀ target ∈ s.leastSeated (s.tablesOf id),
      (s.seatsAt target).length ∉ (s.seatsAt target).map (·.position)) : WellSeated id s' := by
  constructor
  · exact nodup_seatUsers_joined h.oneSeat htables hjoined huser
  · obtain ⟨target, htarget, hseats⟩ := hjoined
    intro table htable
    rw [Store.seatsAt, filter_joined hseats, map_append]
    have hnodup := h.positions table (tablesOf_congr id htables ▸ htable)
    refine nodup_append.mpr ⟨hnodup, ?_, ?_⟩
    · split_ifs <;> simp
    · intro position hold position' hnew heq
      split_ifs at hnew with hin
      · have htable' : s.seatsAt table = s.seatsAt target := by
          have heq : target.id = table.id := by simpa [Store.createSeat] using hin
          rw [Store.seatsAt, Store.seatsAt, heq]
        have hlength : position' = (s.seatsAt target).length := by
          simpa [Store.createSeat] using hnew
        refine hposition target htarget ?_
        rw [← hlength, ← heq, ← htable']
        exact hold
      · exact absurd hnew not_mem_nil

/-- A balancing stores nothing. -/
lemma after_balance :
    (SeatingCall.balance currentHand avoidWithin recentlyMoved).after sha256 wallet id s = s := by
  rw [SeatingCall.after, storeAfter]
  rcases run_balanceTournament_unpopulated id currentHand avoidWithin recentlyMoved s with
    hrun | ⟨e, hrun⟩
  · rw [hrun]
  · rw [hrun]

lemma WellSeated.after {call : SeatingCall} (h : WellSeated id s) (hroomy : Roomy id s call) :
    WellSeated id (call.after sha256 wallet id s) := by
  cases call with
  | balance currentHand avoidWithin recentlyMoved =>
    rw [after_balance]
    exact h
  | call call =>
    show WellSeated id (call.after sha256 wallet id s)
    obtain ⟨htables, hseats | hseats⟩ := seatsAfter_after sha256 wallet id call s
    · exact h.congr htables hseats
    · cases call with
      | join userId now seatId saves => exact h.joined htables hseats hroomy.1 hroomy.2
      | withdraw userId =>
        obtain ⟨existing, -, hseats⟩ := hseats
        exact h.left htables (hseats ▸ filter_sublist)
      | _ => exact hseats.elim

/-- The assignment is stored exactly when it moves nobody. -/
lemma persisted_self : Persisted id currentHand avoidWithin recentlyMoved s s ↔
    takePlayer currentHand avoidWithin recentlyMoved (s.tablePlayers id) = none := by
  constructor
  · intro h
    cases htake : takePlayer currentHand avoidWithin recentlyMoved (s.tablePlayers id) with
    | none => rfl
    | some taken => exact absurd (weight_eq_of_perm h.seating) (weight_balanceTables_lt htake).ne'
  · intro h
    constructor
    · rw [balanceTables_of_takePlayer_eq_none h]
      exact forall₂_same.mpr fun players _ => .refl players
    · exact forall₂_same.mpr fun seat _ => (if_pos rfl).symm

/-- While everybody who joins has no seat yet and the position he gets is free, every user has one
seat at most and the positions of a table differ; and a balancing stores its assignment when nobody
is to be moved, and only then. -/
theorem seating_well_formed
    (h : ((seatingRuns sha256 wallet id).restrict (Roomy id)).Reachable s) :
    WellSeated id s ∧ ∀ currentHand avoidWithin recentlyMoved,
      Persisted id currentHand avoidWithin recentlyMoved s
          ((SeatingCall.balance currentHand avoidWithin recentlyMoved).after sha256 wallet id s) ↔
        takePlayer currentHand avoidWithin recentlyMoved (s.tablePlayers id) = none := by
  constructor
  · refine h.invariant (fun s hs => hs) ?_
    rintro s call _ hs ⟨hroomy, rfl⟩
    exact hs.after hroomy
  · intro currentHand avoidWithin recentlyMoved
    rw [after_balance]
    exact persisted_self

end Seating

/-! Two tables, and seats that are given out and taken back. -/

def twoTables : Store :=
  { sundayStore with tables := [⟨"A", some "t1"⟩, ⟨"B", some "t1"⟩] }

lemma wellSeated_twoTables : WellSeated "t1" twoTables := ⟨by decide, by decide⟩

def seated (userId seatId : String) : SeatingCall :=
  .call (.join userId 0 seatId true)

/-- The store after some calls, without a wallet. -/
def afterSeating (s : Store) (calls : List SeatingCall) : Store :=
  calls.foldl (fun s call => call.after id none "t1" s) s

lemma reachable_afterSeating {ok : Store → SeatingCall → Prop} {s : Store}
    (hs : WellSeated "t1" s) {calls : List SeatingCall}
    (hok : Along (fun s call => SeatingCall.after id none "t1" call s) ok s calls) :
    ((seatingRuns id none "t1").restrict ok).Reachable (afterSeating s calls) :=
  Reachable.foldl (T := seatingRuns id none "t1") (fun _ _ => rfl) (.of_init hs) hok

/-- A user joins and leaves, another one joins, and the tables are balanced. -/
def joinedAndLeft : List SeatingCall :=
  [seated "u1" "s1", seated "u2" "s2", .call (.withdraw "u1"), .balance 0 10 []]

theorem seating_well_formed_joinedAndLeft :
    WellSeated "t1" (afterSeating twoTables joinedAndLeft) ∧
      ∀ currentHand avoidWithin recentlyMoved,
        Persisted "t1" currentHand avoidWithin recentlyMoved (afterSeating twoTables joinedAndLeft)
            ((SeatingCall.balance currentHand avoidWithin recentlyMoved).after id none "t1"
              (afterSeating twoTables joinedAndLeft)) ↔
          takePlayer currentHand avoidWithin recentlyMoved
            ((afterSeating twoTables joinedAndLeft).tablePlayers "t1") = none :=
  seating_well_formed (reachable_afterSeating wellSeated_twoTables (by decide +kernel))

/-- A user who joins twice has two seats; whoever joins after a withdrawal gets the position of
somebody else; and two players at one table stay there when the other table is empty. -/
theorem seating_broken :
    (∃ s, (seatingRuns id none "t1").Reachable s ∧ ¬ (s.seatUsers "t1").Nodup) ∧
    (∃ s, (seatingRuns id none "t1").Reachable s ∧
      ∃ table ∈ s.tablesOf "t1", ¬ ((s.seatsAt table).map (·.position)).Nodup) ∧
    ∃ s, (seatingRuns id none "t1").Reachable s ∧
      ¬ Persisted "t1" 0 10 [] s ((SeatingCall.balance 0 10 []).after id none "t1" s) := by
  have hreach : ∀ calls, (seatingRuns id none "t1").Reachable (afterSeating twoTables calls) := by
    intro calls
    exact (reachable_afterSeating wellSeated_twoTables (along_true _ calls)).of_restrict
  refine ⟨⟨_, hreach [seated "u1" "s1", seated "u1" "s2"], by decide +kernel⟩,
    ⟨_, hreach [seated "u1" "s1", seated "u2" "s2", seated "u3" "s3", seated "u4" "s4",
      .call (.withdraw "u1"), seated "u5" "s5"], by decide +kernel⟩,
    ⟨_, hreach [seated "u1" "s1", seated "u2" "s2", seated "u3" "s3", .call (.withdraw "u2")],
      ?_⟩⟩
  rw [after_balance, persisted_self]
  decide +kernel

end Pokerhub.TournamentService
