import Pokerhub.Tournament.Service

/-!
# Calls on a tournament

The calls of `tournament.service.ts` that change the state or the seats of a tournament, each
succeeding or failing as the service decides, and what they leave in the store.
-/

namespace Pokerhub.TournamentService

open List Wallet

/-! ### Calls -/

inductive TournamentCall where
  | openRegistration
  | start
  | pause
  | resume
  | finish
  | cancel
  | join (userId : String) (now : ℕ) (seatId : String) (saves : Bool)
  | withdraw (userId : String)
  deriving DecidableEq, Repr

namespace TournamentCall

/-- The user that the call is for. -/
def user : TournamentCall → Option String
  | join userId _ _ _ => some userId
  | withdraw userId => some userId
  | _ => none

section Body

variable (sha256 : String → String) (wallet : Option Config) (id : String)

def body : TournamentCall → TournamentM Unit
  | openRegistration => TournamentService.openRegistration id
  | start => TournamentService.start id
  | pause => TournamentService.pause id
  | resume => TournamentService.resume id
  | finish => TournamentService.finish id
  | cancel => TournamentService.cancel sha256 wallet id
  | join userId now seatId saves => do
    let _ ← TournamentService.join sha256 wallet id userId now seatId saves
  | withdraw userId => TournamentService.withdraw sha256 wallet id userId

/-- The store after a call that succeeded or failed. -/
def after (call : TournamentCall) (s : Store) : Store :=
  match (call.body sha256 wallet id).run s with
  | .ok _ s' | .error _ s' => s'

end Body

end TournamentCall

def afterCalls (sha256 : String → String) (wallet : Option Config) (id : String)
    (calls : List TournamentCall) (s : Store) : Store :=
  calls.foldl (fun s call => call.after sha256 wallet id s) s

/-! ### What the calls do -/

section After

variable {sha256 : String → String} {config : Config} {t : Tournament} {id userId seatId : String}
  {s s' : Store} {now : ℕ} {saves : Bool}

lemma after_openRegistration (h : s.tournaments.find? (·.id == id) = some t) :
    TournamentCall.openRegistration.after sha256 (some config) id s =
      s.saveState t.id .regOpen := by
  simp only [TournamentCall.after, TournamentCall.body, openRegistration, setState,
    EStateM.run_bind, run_getEntity h, saveState, EStateM.run_modify]

/-- A transition saves the state, or it is refused. -/
lemma after_transition (h : s.tournaments.find? (·.id == id) = some t)
    {call : TournamentCall} {allowed : List TournamentState} {state : TournamentState}
    (hbody : call.body sha256 (some config) id = do let _ ← transition allowed state id) :
    call.after sha256 (some config) id s =
      if t.state ∈ allowed then s.saveState t.id state else s := by
  simp only [TournamentCall.after, hbody, EStateM.run_bind, run_transition h]
  split_ifs <;> rfl

lemma after_join_refused (h : s.tournaments.find? (·.id == id) = some t)
    (hadmits : t.admits now = false) :
    (TournamentCall.join userId now seatId saves).after sha256 (some config) id s = s := by
  simp only [TournamentCall.after, TournamentCall.body, join, EStateM.run_bind, run_getEntity h,
    hadmits, Bool.false_eq_true, if_false]
  rfl

/-- A join that is rejected may have changed the wallet. -/
lemma after_join_error (h : s.tournaments.find? (·.id == id) = some t)
    (hadmits : t.admits now = true) {e : String} {wallet : Wallet.Store}
    (hmanage : (manageSeat sha256 (some config) (.join seatId saves) id userId t.currency).run s =
      .error e { s with wallet := wallet }) :
    (TournamentCall.join userId now seatId saves).after sha256 (some config) id s =
      { s with wallet := wallet } := by
  simp only [TournamentCall.after, TournamentCall.body, join, EStateM.run_bind, run_getEntity h,
    hadmits, if_true, run_assignSeat h, hmanage]

lemma run_emitIfSome (topic : WalletEvent → TournamentEvent) (event : Option WalletEvent) :
    ∃ emitted, (emitIfSome topic event).run s = .ok () { s with emitted := emitted } := by
  cases event with
  | none => exact ⟨s.emitted, rfl⟩
  | some event => exact ⟨s.emitted ++ [topic event], rfl⟩

lemma after_join_ok (h : s.tournaments.find? (·.id == id) = some t)
    (hadmits : t.admits now = true) {result : SeatResult}
    (hmanage : (manageSeat sha256 (some config) (.join seatId saves) id userId t.currency).run s =
      .ok result s') :
    ∃ emitted, (TournamentCall.join userId now seatId saves).after sha256 (some config) id s =
      { s' with emitted := emitted } := by
  obtain ⟨emitted, hemit⟩ := run_emitIfSome (s := s') .reserve result.walletEvent
  refine ⟨emitted, ?_⟩
  simp only [TournamentCall.after, TournamentCall.body, join, EStateM.run_bind, run_getEntity h,
    hadmits, if_true, run_assignSeat h, hmanage, hemit, EStateM.run_pure]

lemma after_withdraw_error (h : s.tournaments.find? (·.id == id) = some t) {e : String}
    {wallet : Wallet.Store}
    (hmanage : (manageSeat sha256 (some config) .withdraw id userId t.currency).run s =
      .error e { s with wallet := wallet }) :
    (TournamentCall.withdraw userId).after sha256 (some config) id s =
      { s with wallet := wallet } := by
  simp only [TournamentCall.after, TournamentCall.body, withdraw, EStateM.run_bind,
    run_assignSeat h, hmanage]

lemma after_withdraw_ok (h : s.tournaments.find? (·.id == id) = some t) {result : SeatResult}
    (hmanage : (manageSeat sha256 (some config) .withdraw id userId t.currency).run s =
      .ok result s') :
    ∃ emitted, (TournamentCall.withdraw userId).after sha256 (some config) id s =
      { s' with emitted := emitted } := by
  obtain ⟨emitted, hemit⟩ := run_emitIfSome (s := s') .rollback result.walletEvent
  refine ⟨emitted, ?_⟩
  simp only [TournamentCall.after, TournamentCall.body, withdraw, EStateM.run_bind,
    run_assignSeat h, hmanage, hemit]

/-- One turn of the loop of `cancel`. -/
lemma run_refundSeat {seat : Seat} {wallet : Wallet.Store} {r : Except String Wallet.Outcome}
    (hrun : (Wallet.rollback sha256 config seat.userId t.buyIn t.id t.currency).run Cmd.exec
      s.wallet = (r, wallet)) :
    (∃ emitted, (refundSeat sha256 (some config) t seat).run s =
      .ok () { s with wallet := wallet, emitted := emitted }) ∨
      ∃ e, r = .error e ∧
        (refundSeat sha256 (some config) t seat).run s = .error e { s with wallet := wallet } := by
  cases r with
  | error e =>
    right
    refine ⟨e, rfl, ?_⟩
    simp only [refundSeat, EStateM.run_bind, run_rollbackBuyIn, hrun]
  | ok outcome =>
    left
    refine ⟨s.emitted ++ [.rollback ⟨seat.userId, t.buyIn, t.id, t.currency⟩] ++
      [.notification seat.userId s!"Tournament {t.title} cancelled"], ?_⟩
    simp only [refundSeat, EStateM.run_bind, run_rollbackBuyIn, hrun, emit, EStateM.run_modify]

lemma after_cancel_refused (h : s.tournaments.find? (·.id == id) = some t)
    (hstate : t.state ∉ [TournamentState.regOpen, .running, .paused]) :
    TournamentCall.cancel.after sha256 (some config) id s = s := by
  simp only [TournamentCall.after, TournamentCall.body, cancel, EStateM.run_bind,
    run_transition h, if_neg hstate]

/-- `cancel` saves the state and returns the buy-ins seat by seat, until one fails. -/
lemma after_cancel (h : s.tournaments.find? (·.id == id) = some t)
    (hstate : t.state ∈ [TournamentState.regOpen, .running, .paused])
    (hloop : (∃ u, ((s.seatsOf id).forM (refundSeat sha256 (some config) t)).run
        (s.saveState t.id .cancelled) = .ok u s') ∨
      ∃ e, ((s.seatsOf id).forM (refundSeat sha256 (some config) t)).run
        (s.saveState t.id .cancelled) = .error e s') :
    ∃ emitted, TournamentCall.cancel.after sha256 (some config) id s =
      { s' with emitted := emitted } := by
  have hseats : (s.saveState t.id .cancelled).seatsOf id = s.seatsOf id := rfl
  rcases hloop with ⟨u, hloop⟩ | ⟨e, hloop⟩
  · refine ⟨s'.emitted ++ [.cancel id], ?_⟩
    simp only [TournamentCall.after, TournamentCall.body, cancel, EStateM.run_bind,
      run_transition h, if_pos hstate, Option.isSome_some, if_true, EStateM.run_get, hseats, hloop,
      emit, EStateM.run_modify]
  · refine ⟨s'.emitted, ?_⟩
    simp only [TournamentCall.after, TournamentCall.body, cancel, EStateM.run_bind,
      run_transition h, if_pos hstate, Option.isSome_some, if_true, EStateM.run_get, hseats, hloop]

end After

end Pokerhub.TournamentService
