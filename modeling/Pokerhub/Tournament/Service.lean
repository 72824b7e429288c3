import Pokerhub.Wallet.Operations

/-!
# Tournaments

`TournamentService` of `tournament.service.ts`: the states of a tournament, and the seats that are
given out and taken back together with the buy-ins. The wallet is optional. A call of the wallet
service is run from its first command to its last.
-/

namespace Pokerhub.TournamentService

open List Wallet

/-! ### Tables of the database -/

inductive TournamentState where
  | regOpen | running | paused | finished | cancelled
  deriving DecidableEq, Repr

/-- The strings of the enumeration. -/
def TournamentState.name : TournamentState → String
  | regOpen => "REG_OPEN"
  | running => "RUNNING"
  | paused => "PAUSED"
  | finished => "FINISHED"
  | cancelled => "CANCELLED"

structure Tournament where
  id : String
  title : String
  buyIn : ℤ
  currency : String
  state : TournamentState
  registrationClose : Option ℕ
  deriving DecidableEq, Repr

structure Table where
  id : String
  tournamentId : Option String
  deriving DecidableEq, Repr

structure Seat where
  id : String
  userId : String
  tableId : String
  position : ℕ
  lastMovedHand : ℕ
  deriving DecidableEq, Repr

/-- `{ accountId, amount, refId, currency }` -/
structure WalletEvent where
  accountId : String
  amount : ℤ
  refId : String
  currency : String
  deriving DecidableEq, Repr

inductive TournamentEvent where
  /-- `wallet.reserve` -/
  | reserve (event : WalletEvent)
  /-- `wallet.rollback` -/
  | rollback (event : WalletEvent)
  /-- `notification.create` -/
  | notification (userId message : String)
  /-- `tournament.cancel` -/
  | cancel (tournamentId : String)
  deriving DecidableEq, Repr

structure Store where
  tournaments : List Tournament
  tables : List Table
  seats : List Seat := []
  wallet : Wallet.Store
  emitted : List TournamentEvent := []

namespace Store

/-- `where: { tournament: { id } }` -/
def tablesOf (s : Store) (tournamentId : String) : List Table :=
  s.tables.filter (·.tournamentId == some tournamentId)

/-- The relation `seats` of a table. -/
def seatsAt (s : Store) (table : Table) : List Seat :=
  s.seats.filter (·.tableId == table.id)

/-- `where: { table: { tournament: { id } } }` -/
def atTournament (s : Store) (tournamentId : String) (seat : Seat) : Bool :=
  (s.tablesOf tournamentId).any (·.id == seat.tableId)

def seatsOf (s : Store) (tournamentId : String) : List Seat :=
  s.seats.filter (s.atTournament tournamentId)

/-- `save` writes the column that has changed. -/
def saveState (s : Store) (id : String) (state : TournamentState) : Store :=
  { s with
    tournaments := s.tournaments.map fun t => if t.id = id then { t with state := state } else t }

/-- The first of the tables with the fewest seats. -/
def leastSeated (s : Store) : List Table → Option Table
  | [] => none
  | first :: rest => some <| rest.foldl (fun target tbl =>
      if (s.seatsAt tbl).length < (s.seatsAt target).length then tbl else target) first

/-- `seatRepo.create` -/
def createSeat (s : Store) (seatId userId : String) (target : Table) : Seat where
  id := seatId
  userId := userId
  tableId := target.id
  position := (s.seatsAt target).length
  lastMovedHand := 0

lemma leastSeated_eq_none {s : Store} {tables : List Table} :
    s.leastSeated tables = none ↔ tables = [] := by
  cases tables <;> simp [leastSeated]

/-- The table that is chosen is one of the tables. -/
lemma mem_of_leastSeated {s : Store} {tables : List Table} {target : Table}
    (h : s.leastSeated tables = some target) : target ∈ tables := by
  cases tables with
  | nil => cases h
  | cons first rest =>
    simp only [leastSeated, Option.some.injEq] at h
    subst h
    have hmem : ∀ (rest : List Table) (first : Table), rest.foldl (fun target tbl =>
        if (s.seatsAt tbl).length < (s.seatsAt target).length then tbl else target) first ∈
          first :: rest := by
      intro rest
      induction rest with
      | nil => exact fun first => mem_cons_self
      | cons tbl rest ih =>
        intro first
        rw [foldl_cons]
        split
        · exact mem_cons_of_mem first (ih tbl)
        · rcases mem_cons.mp (ih first) with heq | hin
          · rw [heq]
            exact mem_cons_self
          · exact mem_cons_of_mem first (mem_cons_of_mem tbl hin)
    exact hmem rest first

end Store

/-! ### The service -/

/-- A call of the service. A thrown error is its message. -/
abbrev TournamentM := EStateM String Store

/-- What happens to a seat. A seat that is joined gets its id from the database, which takes the
row or does not. -/
inductive SeatAction where
  | join (seatId : String) (saves : Bool)
  | withdraw
  deriving DecidableEq, Repr

/-- `{ seat?, walletEvent? }` -/
structure SeatResult where
  seat : Option Seat
  walletEvent : Option WalletEvent
  deriving DecidableEq, Repr

def emit (event : TournamentEvent) : TournamentM Unit :=
  modify fun s => { s with emitted := s.emitted ++ [event] }

/-- `if (walletEvent) { await this.events.emit(.., walletEvent) }` -/
def emitIfSome (topic : WalletEvent → TournamentEvent) : Option WalletEvent → TournamentM Unit
  | some event => emit (topic event)
  | none => pure ()

/-- `manager.transaction`: when the body throws, the seats are as they were before. The wallet has
transactions of its own. -/
def transaction {α : Type} (body : TournamentM α) : TournamentM α := fun s =>
  match body.run s with
  | .ok a s' => .ok a s'
  | .error e s' => .error e { s' with seats := s.seats }

def callWallet {α : Type} (p : WalletM α) : TournamentM α := fun s =>
  match p.run Cmd.exec s.wallet with
  | (.ok a, wallet) => .ok a { s with wallet := wallet }
  | (.error e, wallet) => .error e { s with wallet := wallet }

def getEntity (id : String) : TournamentM Tournament := do
  let s ← get
  match s.tournaments.find? (·.id == id) with
  | some t => return t
  | none => throw s!"Tournament {id} not found"

def saveState (id : String) (state : TournamentState) : TournamentM Unit :=
  modify (·.saveState id state)

def setState (id : String) (state : TournamentState) : TournamentM Unit := do
  let t ← getEntity id
  saveState t.id state

def openRegistration (id : String) : TournamentM Unit :=
  setState id .regOpen

/-- A transition that is allowed from some states only. -/
def transition (allowed : List TournamentState) (state : TournamentState) (id : String) :
    TournamentM Tournament := do
  let t ← getEntity id
  if t.state ∈ allowed then do
    saveState t.id state
    return t
  else throw s!"Invalid transition from {t.state.name} to {state.name}"

def start (id : String) : TournamentM Unit := do
  let _ ← transition [.regOpen] .running id

def pause (id : String) : TournamentM Unit := do
  let _ ← transition [.running] .paused id

def resume (id : String) : TournamentM Unit := do
  let _ ← transition [.paused] .running id

def finish (id : String) : TournamentM Unit := do
  let _ ← transition [.running, .paused] .finished id

section Seats

variable (sha256 : String → String) (wallet : Option Config)

/-- `if (this.wallet) { await this.wallet.reserve(..) }`, and the event about it. -/
def reserveBuyIn (event : WalletEvent) : TournamentM (Option WalletEvent) :=
  match wallet with
  | some config => do
    let _ ← callWallet
      (Wallet.reserve sha256 config event.accountId event.amount event.refId event.currency)
    return some event
  | none => return none

/-- `if (this.wallet) { await this.wallet.rollback(..) }`, and the event about it. -/
def rollbackBuyIn (event : WalletEvent) : TournamentM (Option WalletEvent) :=
  match wallet with
  | some config => do
    let _ ← callWallet
      (Wallet.rollback sha256 config event.accountId event.amount event.refId event.currency)
    return some event
  | none => return none

/-- One turn of the loop of `cancel`. -/
def refundSeat (t : Tournament) (seat : Seat) : TournamentM Unit := do
  let event := WalletEvent.mk seat.userId t.buyIn t.id t.currency
  let _ ← rollbackBuyIn sha256 wallet event
  emit (.rollback event)
  emit (.notification seat.userId s!"Tournament {t.title} cancelled")

def cancel (id : String) : TournamentM Unit := do
  let t ← transition [.regOpen, .running, .paused] .cancelled id
  if wallet.isSome then do
    let s ← get
    (s.seatsOf id).forM (refundSeat sha256 wallet t)
  emit (.cancel id)

def manageSeat (action : SeatAction) (tournamentId userId currency : String) :
    TournamentM SeatResult := do
  let t ← getEntity tournamentId
  let event := WalletEvent.mk userId t.buyIn tournamentId currency
  match action with
  | .join seatId saves => do
    let walletEvent ← reserveBuyIn sha256 wallet event
    let s ← get
    match s.leastSeated (s.tablesOf tournamentId) with
    | none => throw s!"No tables available for tournament {tournamentId}; cannot assign seat"
    | some target =>
      let seat := s.createSeat seatId userId target
      if saves then do
        modify fun s => { s with seats := s.seats ++ [seat] }
        return ⟨some seat, walletEvent⟩
      else do
        let _ ← rollbackBuyIn sha256 wallet event
        throw "seat not saved"
  | .withdraw => do
    let s ← get
    match s.seats.find? fun seat => s.atTournament tournamentId seat && seat.userId == userId with
    | none => return ⟨none, none⟩
    | some existing => do
      let walletEvent ← rollbackBuyIn sha256 wallet event
      modify fun s => { s with seats := s.seats.filter (·.id ≠ existing.id) }
      return ⟨none, walletEvent⟩

def assignSeat (tournamentId userId : String) (action : SeatAction) : TournamentM SeatResult := do
  let t ← getEntity tournamentId
  transaction (manageSeat sha256 wallet action tournamentId userId t.currency)

/-- Registration, or late registration. -/
def Tournament.admits (t : Tournament) (now : ℕ) : Bool :=
  t.state = .regOpen ||
    t.state = .running && t.registrationClose.any fun close => now < close

def join (tournamentId userId : String) (now : ℕ) (seatId : String) (saves : Bool) :
    TournamentM (Option Seat) := do
  let t ← getEntity tournamentId
  if t.admits now then do
    let result ← assignSeat sha256 wallet tournamentId userId (.join seatId saves)
    emitIfSome .reserve result.walletEvent
    return result.seat
  else throw "registration closed"

def withdraw (tournamentId userId : String) : TournamentM Unit := do
  let result ← assignSeat sha256 wallet tournamentId userId .withdraw
  emitIfSome .rollback result.walletEvent

end Seats

/-! ### Runs -/

section Run

variable {sha256 : String → String} {config : Config} {s : Store} {id : String} {t : Tournament}

lemma run_getEntity (h : s.tournaments.find? (·.id == id) = some t) :
    (getEntity id).run s = .ok t s := by
  simp only [getEntity, EStateM.run_bind, EStateM.run_get, h, EStateM.run_pure]

lemma run_callWallet {α : Type} (p : WalletM α) : (callWallet p).run s =
    match p.run Cmd.exec s.wallet with
    | (.ok a, wallet) => .ok a { s with wallet := wallet }
    | (.error e, wallet) => .error e { s with wallet := wallet } := rfl

lemma run_transaction {α : Type} (body : TournamentM α) : (transaction body).run s =
    match body.run s with
    | .ok a s' => .ok a s'
    | .error e s' => .error e { s' with seats := s.seats } := rfl

lemma run_transition (h : s.tournaments.find? (·.id == id) = some t)
    (allowed : List TournamentState) (state : TournamentState) :
    (transition allowed state id).run s =
      if t.state ∈ allowed then .ok t (s.saveState t.id state)
      else .error s!"Invalid transition from {t.state.name} to {state.name}" s := by
  simp only [transition, EStateM.run_bind, run_getEntity h]
  split_ifs
  · simp only [EStateM.run_bind, saveState, EStateM.run_modify, EStateM.run_pure]
  · rfl

lemma run_reserveBuyIn (event : WalletEvent) :
    (reserveBuyIn sha256 (some config) event).run s =
      match (Wallet.reserve sha256 config event.accountId event.amount event.refId
        event.currency).run Cmd.exec s.wallet with
      | (.ok _, wallet) => .ok (some event) { s with wallet := wallet }
      | (.error e, wallet) => .error e { s with wallet := wallet } := by
  simp only [reserveBuyIn, EStateM.run_bind, run_callWallet]
  rcases (Wallet.reserve sha256 config event.accountId event.amount event.refId
    event.currency).run Cmd.exec s.wallet with ⟨e | a, wallet⟩ <;> rfl

lemma run_rollbackBuyIn (event : WalletEvent) :
    (rollbackBuyIn sha256 (some config) event).run s =
      match (Wallet.rollback sha256 config event.accountId event.amount event.refId
        event.currency).run Cmd.exec s.wallet with
      | (.ok _, wallet) => .ok (some event) { s with wallet := wallet }
      | (.error e, wallet) => .error e { s with wallet := wallet } := by
  simp only [rollbackBuyIn, EStateM.run_bind, run_callWallet]
  rcases (Wallet.rollback sha256 config event.accountId event.amount event.refId
    event.currency).run Cmd.exec s.wallet with ⟨e | a, wallet⟩ <;> rfl

variable {userId seatId currency : String} {saves : Bool} {now : ℕ} {outcome : Wallet.Outcome}
  {wallet : Wallet.Store} {target : Table}

lemma run_manageSeat_join_error {e : String} (h : s.tournaments.find? (·.id == id) = some t)
    (hreserve : (Wallet.reserve sha256 config userId t.buyIn id currency).run Cmd.exec s.wallet =
      (.error e, wallet)) :
    (manageSeat sha256 (some config) (.join seatId saves) id userId currency).run s =
      .error e { s with wallet := wallet } := by
  simp only [manageSeat, EStateM.run_bind, run_getEntity h, run_reserveBuyIn, hreserve]

lemma run_manageSeat_join_noTable (h : s.tournaments.find? (·.id == id) = some t)
    (hreserve : (Wallet.reserve sha256 config userId t.buyIn id currency).run Cmd.exec s.wallet =
      (.ok outcome, wallet)) (htables : s.tablesOf id = []) :
    (manageSeat sha256 (some config) (.join seatId saves) id userId currency).run s =
      .error s!"No tables available for tournament {id}; cannot assign seat"
        { s with wallet := wallet } := by
  have hnone : ({ s with wallet := wallet } : Store).leastSeated
      (({ s with wallet := wallet } : Store).tablesOf id) = none :=
    Store.leastSeated_eq_none.mpr htables
  simp only [manageSeat, EStateM.run_bind, run_getEntity h, run_reserveBuyIn, hreserve,
    EStateM.run_get, hnone]
  rfl

lemma run_manageSeat_join_saved (seatId : String) (h : s.tournaments.find? (·.id == id) = some t)
    (hreserve : (Wallet.reserve sha256 config userId t.buyIn id currency).run Cmd.exec s.wallet =
      (.ok outcome, wallet)) (htarget : s.leastSeated (s.tablesOf id) = some target) :
    (manageSeat sha256 (some config) (.join seatId true) id userId currency).run s =
      .ok ⟨some (s.createSeat seatId userId target), some ⟨userId, t.buyIn, id, currency⟩⟩
        { s with wallet := wallet, seats := s.seats ++ [s.createSeat seatId userId target] } := by
  have hsome : ({ s with wallet := wallet } : Store).leastSeated
      (({ s with wallet := wallet } : Store).tablesOf id) = some target := htarget
  simp only [manageSeat, EStateM.run_bind, run_getEntity h, run_reserveBuyIn, hreserve,
    EStateM.run_get, hsome, if_true, EStateM.run_modify, EStateM.run_pure]
  rfl

lemma run_manageSeat_join_unsaved (seatId : String) (h : s.tournaments.find? (·.id == id) = some t)
    (hreserve : (Wallet.reserve sha256 config userId t.buyIn id currency).run Cmd.exec s.wallet =
      (.ok outcome, wallet)) (htarget : s.leastSeated (s.tablesOf id) = some target) :
    ∃ e, (manageSeat sha256 (some config) (.join seatId false) id userId currency).run s =
      .error e { s with
        wallet := ((Wallet.rollback sha256 config userId t.buyIn id currency).run Cmd.exec
          wallet).2 } := by
  have hsome : ({ s with wallet := wallet } : Store).leastSeated
      (({ s with wallet := wallet } : Store).tablesOf id) = some target := htarget
  simp only [manageSeat, EStateM.run_bind, run_getEntity h, run_reserveBuyIn, hreserve,
    EStateM.run_get, hsome, Bool.false_eq_true, if_false, run_rollbackBuyIn]
  rcases (Wallet.rollback sha256 config userId t.buyIn id currency).run Cmd.exec wallet with
    ⟨e | a, wallet'⟩
  · exact ⟨e, rfl⟩
  · exact ⟨"seat not saved", rfl⟩

lemma run_manageSeat_withdraw_none (h : s.tournaments.find? (·.id == id) = some t)
    (hseat : s.seats.find? (fun seat => s.atTournament id seat && seat.userId == userId) = none) :
    (manageSeat sha256 (some config) .withdraw id userId currency).run s =
      .ok ⟨none, none⟩ s := by
  simp only [manageSeat, EStateM.run_bind, run_getEntity h, EStateM.run_get, hseat,
    EStateM.run_pure]

lemma run_manageSeat_withdraw (h : s.tournaments.find? (·.id == id) = some t) {existing : Seat}
    (hseat : s.seats.find? (fun seat => s.atTournament id seat && seat.userId == userId) =
      some existing) :
    (manageSeat sha256 (some config) .withdraw id userId currency).run s =
      match (Wallet.rollback sha256 config userId t.buyIn id currency).run Cmd.exec s.wallet with
      | (.ok _, wallet) => .ok ⟨none, some ⟨userId, t.buyIn, id, currency⟩⟩
          { s with wallet := wallet, seats := s.seats.filter (·.id ≠ existing.id) }
      | (.error e, wallet) => .error e { s with wallet := wallet } := by
  simp only [manageSeat, EStateM.run_bind, run_getEntity h, EStateM.run_get, hseat,
    run_rollbackBuyIn]
  rcases (Wallet.rollback sha256 config userId t.buyIn id currency).run Cmd.exec s.wallet with
    ⟨e | a, wallet'⟩ <;> rfl

/-- A rejected seat action leaves the seats as they were. -/
lemma run_assignSeat (h : s.tournaments.find? (·.id == id) = some t) (action : SeatAction) :
    (assignSeat sha256 (some config) id userId action).run s =
      match (manageSeat sha256 (some config) action id userId t.currency).run s with
      | .ok result s' => .ok result s'
      | .error e s' => .error e { s' with seats := s.seats } := by
  simp only [assignSeat, EStateM.run_bind, run_getEntity h, run_transaction]
  rcases (manageSeat sha256 (some config) action id userId t.currency).run s with
    ⟨result, s'⟩ | ⟨e, s'⟩ <;> rfl

end Run

end Pokerhub.TournamentService
