import Pokerhub.Tournament.Books

/-!
# Buy-ins and seats

A seat and its buy-in are written by separate steps, and the ledger posts one buy-in for each
tournament. Money and seats agree along a sequence of calls exactly when every call of it fits: at
most one user is charged and sits at a table.
-/

namespace Pokerhub.TournamentService

open List Wallet

/-! ### The condition -/

namespace Store

/-- A buy-in of the tournament is in the journal. -/
def charged (s : Store) (id : String) : Bool :=
  s.wallet.journals.any fun j => j.refType == "reserve" && j.refId == id

/-- A return of a buy-in is in the journal. -/
def refunded (s : Store) (id : String) : Bool :=
  s.wallet.journals.any fun j => j.refType == "rollback" && j.refId == id

def hasAccounts (s : Store) (currency userId : String) : Bool :=
  (s.wallet.accounts.find? (byId userId currency)).isSome &&
    (s.wallet.accounts.find? (byName "reserve" currency)).isSome

/-- A join that gets to the seats leaves money and seats in agreement: without a table it charges
nothing; a seat that is saved is the user's first and is charged; what was charged for a seat that
is not saved is returned. -/
def JoinFits (s : Store) (t : Tournament) (userId : String) (saves : Bool) : Prop :=
  if s.tablesOf t.id = [] then t.buyIn = 0 ∨ s.charged t.id = true
  else if saves then s.seatsHeldBy t.id userId = 0 ∧ (t.buyIn = 0 ∨ s.charged t.id = false)
  else t.buyIn = 0 ∨ s.charged t.id = false ∨ s.refunded t.id = true

instance (s : Store) (t : Tournament) (userId : String) (saves : Bool) :
    Decidable (s.JoinFits t userId saves) :=
  inferInstanceAs (Decidable (if s.tablesOf t.id = [] then t.buyIn = 0 ∨ s.charged t.id = true
    else if saves then s.seatsHeldBy t.id userId = 0 ∧ (t.buyIn = 0 ∨ s.charged t.id = false)
    else t.buyIn = 0 ∨ s.charged t.id = false ∨ s.refunded t.id = true))

end Store

/-- The step condition: a join that gets to the seats fits, and registration is not opened again
after `cancel` while somebody sits at a table. -/
def TournamentCall.Fits (t : Tournament) (s : Store) : TournamentCall → Prop
  | join userId now _ saves => (s.tournaments.find? (·.id == t.id)).any (·.admits now) = true →
    s.hasAccounts t.currency userId = true → s.JoinFits t userId saves
  | openRegistration => s.Cancelled t.id → t.buyIn = 0 ∨ s.seatsOf t.id = []
  | _ => True

instance (t : Tournament) (s : Store) : (call : TournamentCall) → Decidable (call.Fits t s)
  | .join userId now _ saves => inferInstanceAs
    (Decidable ((s.tournaments.find? (·.id == t.id)).any (·.admits now) = true →
      s.hasAccounts t.currency userId = true → s.JoinFits t userId saves))
  | .openRegistration => inferInstanceAs
    (Decidable (s.Cancelled t.id → t.buyIn = 0 ∨ s.seatsOf t.id = []))
  | .start => isTrue trivial
  | .pause => isTrue trivial
  | .resume => isTrue trivial
  | .finish => isTrue trivial
  | .cancel => isTrue trivial
  | .withdraw _ => isTrue trivial

/-! ### The phases of a tournament -/

/-- The runs in which money and seats agree: the tournament is free, or at most one user was
charged. -/
inductive Phase (buyIn : ℤ) (state : TournamentState) :
    List (Transfer × String) → List String → Prop
  | free (moves : List (Transfer × String)) (users : List String) (hfree : buyIn = 0)
      (hnodup : users.Nodup) : Phase buyIn state moves users
  | fresh : Phase buyIn state [] []
  | held (userId : String) (hstate : state ≠ .cancelled) :
    Phase buyIn state [(.reserve, userId)] [userId]
  | closed (userId : String) : Phase buyIn state [(.reserve, userId), (.rollback, userId)] []
  | cancelled (userId : String) (hstate : state = .cancelled) :
    Phase buyIn state [(.reserve, userId), (.rollback, userId)] [userId]

section Phases

variable {sha256 : String → String} {t : Tournament} {reserveId : String} {s₀ s : Store}
  {state : TournamentState} {moves : List (Transfer × String)}

lemma netSign_nil (v : String) : netSign [] v = 0 := rfl

lemma netSign_held (u v : String) : netSign [(.reserve, u)] v = if u = v then 1 else 0 := by
  simp [netSign, sign]

lemma netSign_closed (u v : String) : netSign [(.reserve, u), (.rollback, u)] v = 0 := by
  by_cases huv : u = v <;> simp [netSign, sign, huv]

/-- In every phase the law holds. -/
lemma Books.law (hopened : Opened sha256 t s₀) (h : Books sha256 t reserveId s₀ s state moves)
    (hphase : Phase t.buyIn state moves (s.seatUsers t.id)) : MoneyMatchesSeats t s := by
  rw [h.law_iff hopened]
  generalize s.seatUsers t.id = users at hphase
  cases hphase with
  | free _ _ hfree hnodup => simp [hfree, hnodup]
  | fresh => simp [netSign_nil]
  | held userId hstate =>
    refine ⟨fun _ => ⟨fun v _ => ?_, nodup_singleton _, ?_⟩, fun hc => absurd hc hstate⟩
    · rw [netSign_held]
      by_cases hv : userId = v <;> simp [hv]
    · simp [sign]
  | closed userId => simp [netSign_closed, sign]
  | cancelled userId hstate =>
    exact ⟨fun hopen => absurd hstate hopen, fun _ v _ => by rw [netSign_closed, mul_zero]⟩

end Phases

/-! ### The step -/

section Step

variable {sha256 : String → String} (config : Config) {t : Tournament}
  {reserveId userId seatId : String} {s₀ s s' : Store} {state state' : TournamentState}
  {moves : List (Transfer × String)} {now : ℕ} {saves : Bool}

lemma seatUsers_congr (htables : s'.tables = s.tables) (hseats : s'.seats = s.seats) :
    s'.seatUsers t.id = s.seatUsers t.id := by
  have hat : s'.atTournament t.id = s.atTournament t.id := by
    funext seat
    rw [Store.atTournament, Store.atTournament, Store.tablesOf, Store.tablesOf, htables]
  rw [Store.seatUsers, Store.seatUsers, Store.seatsOf, Store.seatsOf, hseats, hat]

lemma Phase.nodup {buyIn : ℤ} {users : List String} (h : Phase buyIn state moves users) :
    users.Nodup := by
  cases h with
  | free _ _ _ hnodup => exact hnodup
  | fresh => exact nodup_nil
  | held userId => exact nodup_singleton userId
  | closed userId => exact nodup_nil
  | cancelled userId => exact nodup_singleton userId

/-- As long as the tournament is not cancelled, its state does not matter. -/
lemma Phase.open {buyIn : ℤ} {users : List String} (h : Phase buyIn state moves users)
    (hstate : state ≠ .cancelled) (hstate' : state' ≠ .cancelled) :
    Phase buyIn state' moves users := by
  cases h with
  | free _ _ hfree hnodup => exact .free _ _ hfree hnodup
  | fresh => exact .fresh
  | held userId _ => exact .held userId hstate'
  | closed userId => exact .closed userId
  | cancelled userId hcancelled => exact absurd hcancelled hstate

/-- Money and seats of a tournament agree. -/
def Agrees (sha256 : String → String) (t : Tournament) (reserveId : String) (s₀ s : Store) : Prop :=
  ∃ state moves, Books sha256 t reserveId s₀ s state moves ∧
    Phase t.buyIn state moves (s.seatUsers t.id) ∧
    ∀ userId ∈ s.seatUsers t.id, s₀.wallet.IsUser userId

lemma agrees_transition (h : Agrees sha256 t reserveId s₀ s) {call : TournamentCall}
    {allowed : List TournamentState}
    (hbody : call.body sha256 (some config) t.id = do let _ ← transition allowed state' t.id)
    (hallowed : .cancelled ∉ allowed) (hstate' : state' ≠ .cancelled) :
    Agrees sha256 t reserveId s₀ (call.after sha256 (some config) t.id s) := by
  obtain ⟨state, moves, hbooks, hphase, husers⟩ := h
  rw [after_transition hbooks.found hbody]
  split_ifs with hstate
  · refine ⟨state', moves, hbooks.saveState state', hphase.open ?_ hstate', husers⟩
    rintro rfl
    exact hallowed hstate
  · exact ⟨state, moves, hbooks, hphase, husers⟩

/-- Registration may be opened again while nobody sits at a table that was paid back. -/
lemma agrees_openRegistration (h : Agrees sha256 t reserveId s₀ s)
    (hfits : TournamentCall.openRegistration.Fits t s) :
    Agrees sha256 t reserveId s₀
      (TournamentCall.openRegistration.after sha256 (some config) t.id s) := by
  obtain ⟨state, moves, hbooks, hphase, husers⟩ := h
  rw [after_openRegistration hbooks.found]
  refine ⟨.regOpen, moves, hbooks.saveState _, ?_, husers⟩
  show Phase t.buyIn .regOpen moves (s.seatUsers t.id)
  by_cases hstate : state = .cancelled
  · rcases hfits (hbooks.cancelled_iff.mpr hstate) with hfree | hseats
    · exact .free _ _ hfree hphase.nodup
    · have husers : s.seatUsers t.id = [] := by rw [Store.seatUsers, hseats, map_nil]
      rw [husers] at hphase ⊢
      cases hphase with
      | free _ _ hfree hnodup => exact .free _ _ hfree hnodup
      | fresh => exact .fresh
      | closed userId => exact .closed userId
  · exact hphase.open hstate nofun

lemma fits_openRegistration (hopened : Opened sha256 t s₀) (h : Agrees sha256 t reserveId s₀ s)
    (hlaw : MoneyMatchesSeats t
      (TournamentCall.openRegistration.after sha256 (some config) t.id s)) :
    TournamentCall.openRegistration.Fits t s := by
  obtain ⟨state, moves, hbooks, hphase, husers⟩ := h
  rw [after_openRegistration hbooks.found, (hbooks.saveState _).law_iff hopened] at hlaw
  intro hcancelled
  obtain ⟨hdebits, -, -⟩ := hlaw.1 nofun
  have hstate := hbooks.cancelled_iff.mp hcancelled
  have hsame : (s.saveState t.id .regOpen).seatUsers t.id = s.seatUsers t.id := rfl
  rw [hsame] at hdebits
  have hnone : s.seatUsers t.id = [] → s.seatsOf t.id = [] := map_eq_nil_iff.mp
  generalize s.seatUsers t.id = users at *
  cases hphase with
  | free _ _ hfree _ => exact Or.inl hfree
  | fresh => exact Or.inr (hnone rfl)
  | held userId hopen => exact absurd hstate hopen
  | closed userId => exact Or.inr (hnone rfl)
  | cancelled userId _ =>
    -- the seat is left, and its buy-in was returned
    have hdebit := hdebits userId (husers userId (mem_singleton_self userId))
    rw [netSign_closed, mul_zero] at hdebit
    simp at hdebit
    exact Or.inl hdebit.symm

/-- A rollback for a user that was charged, and was not paid back yet. -/
lemma Books.rollback_held (hsha : Function.Injective sha256) (hopened : Opened sha256 t s₀)
    (h : Books sha256 t reserveId s₀ s state [(.reserve, userId)]) : ∃ wallet,
      (Wallet.rollback sha256 config userId t.buyIn t.id t.currency).run Cmd.exec s.wallet =
        (.ok .posted, wallet) ∧
      Books sha256 t reserveId s₀ { s with wallet := wallet } state
        [(.reserve, userId), (.rollback, userId)] := by
  obtain ⟨huser, hfinds⟩ := h.users _ mem_cons_self
  have hdir : Transfer.rollback ∉ map (·.1) [(Transfer.reserve, userId)] := by simp
  exact h.transfer_new config hsha hopened huser hfinds hdir

lemma agrees_cancel (hsha : Function.Injective sha256) (hopened : Opened sha256 t s₀)
    (h : Agrees sha256 t reserveId s₀ s) :
    Agrees sha256 t reserveId s₀ (TournamentCall.cancel.after sha256 (some config) t.id s) := by
  obtain ⟨state, moves, hbooks, hphase, husers⟩ := h
  by_cases hstate : state ∈ [TournamentState.regOpen, .running, .paused]
  swap
  · rw [after_cancel_refused hbooks.found hstate]
    exact ⟨state, moves, hbooks, hphase, husers⟩
  have hsaved := hbooks.saveState .cancelled
  have hopen : state ≠ .cancelled := by
    rintro rfl
    simp at hstate
  -- without seats there is nothing to return
  have hnoSeats : s.seatUsers t.id = [] → Phase t.buyIn .cancelled moves [] →
      Agrees sha256 t reserveId s₀ (TournamentCall.cancel.after sha256 (some config) t.id s) := by
    intro hnone hphase'
    have hseats : s.seatsOf t.id = [] := map_eq_nil_iff.mp hnone
    have hloop : ((s.seatsOf t.id).forM (refundSeat sha256 (some config)
        { t with state := state })).run (s.saveState t.id .cancelled) =
          .ok ⟨⟩ (s.saveState t.id .cancelled) := by
      rw [hseats]
      rfl
    obtain ⟨emitted, hafter⟩ := after_cancel hbooks.found hstate (Or.inl ⟨_, hloop⟩)
    rw [hafter]
    refine ⟨.cancelled, moves, hsaved.congr rfl rfl rfl, ?_, husers⟩
    show Phase t.buyIn .cancelled moves (s.seatUsers t.id)
    rw [hnone]
    exact hphase'
  generalize hu : s.seatUsers t.id = users at hphase
  cases hphase with
  | free _ _ hfree hnodup =>
    have hloop := hsaved.refundSeats config state hsha hopened
      (s.seatsOf t.id) fun seat hseat => husers seat.userId (mem_map_of_mem hseat)
    obtain ⟨s', moves', hloop, hbooks', hseats⟩ := hloop
    obtain ⟨emitted, hafter⟩ := after_cancel hbooks.found hstate hloop
    have hsame : ({ s' with emitted := emitted } : Store).seatUsers t.id = s.seatUsers t.id :=
      seatUsers_congr (hbooks'.tables.trans hbooks.tables.symm) hseats
    rw [hafter]
    refine ⟨.cancelled, moves', hbooks'.congr rfl rfl rfl, ?_, ?_⟩
    · rw [hsame, hu]
      exact .free _ _ hfree hnodup
    · rw [hsame]
      exact husers
  | fresh => exact hnoSeats hu .fresh
  | held userId _ =>
    obtain ⟨seat, hseat, rfl⟩ := map_eq_singleton_iff.mp hu
    obtain ⟨wallet, hrun, hbooks'⟩ := hsaved.rollback_held config hsha hopened
    have hturn := @run_refundSeat sha256 config { t with state := state }
      (s.saveState t.id .cancelled) seat wallet _ hrun
    obtain ⟨emitted, hturn⟩ := hturn.resolve_right (by rintro ⟨e, he, -⟩; cases he)
    have hloop : ((s.seatsOf t.id).forM (refundSeat sha256 (some config)
        { t with state := state })).run (s.saveState t.id .cancelled) =
          .ok ⟨⟩ { s.saveState t.id .cancelled with wallet := wallet, emitted := emitted } := by
      rw [hseat, List.forM_eq_forM, List.forM_cons, EStateM.run_bind, hturn]
      rfl
    obtain ⟨emitted', hafter⟩ := after_cancel hbooks.found hstate (Or.inl ⟨_, hloop⟩)
    rw [hafter]
    refine ⟨.cancelled, _, hbooks'.congr rfl rfl rfl, ?_, husers⟩
    show Phase t.buyIn .cancelled _ (s.seatUsers t.id)
    rw [hu]
    exact .cancelled seat.userId rfl
  | closed userId => exact hnoSeats hu (.closed userId)
  | cancelled userId hcancelled => exact absurd hcancelled hopen

/-- What `withdraw` leaves of the seats. -/
lemma seatUsers_remove {existing : Seat} :
    ({ s with seats := s.seats.filter (·.id ≠ existing.id) } : Store).seatUsers t.id =
      ((s.seatsOf t.id).filter (·.id ≠ existing.id)).map (·.userId) := by
  show (((s.seats.filter (·.id ≠ existing.id)).filter (s.atTournament t.id)).map (·.userId)) = _
  rw [filter_comm]
  rfl

lemma agrees_withdraw (hsha : Function.Injective sha256) (hopened : Opened sha256 t s₀)
    (h : Agrees sha256 t reserveId s₀ s) (huser : s₀.wallet.IsUser userId) :
    Agrees sha256 t reserveId s₀
      ((TournamentCall.withdraw userId).after sha256 (some config) t.id s) := by
  obtain ⟨state, moves, hbooks, hphase, husers⟩ := h
  cases hseat : s.seats.find? fun seat => s.atTournament t.id seat && seat.userId == userId with
  | none =>
    have hmanage := @run_manageSeat_withdraw_none sha256 config _ _ _ userId t.currency
      hbooks.found hseat
    obtain ⟨emitted, hafter⟩ := after_withdraw_ok hbooks.found hmanage
    rw [hafter]
    exact ⟨state, moves, hbooks.congr rfl rfl rfl, hphase, husers⟩
  | some existing =>
    have hmem : existing ∈ s.seatsOf t.id := by
      have hfound := find?_some hseat
      rw [Bool.and_eq_true] at hfound
      exact mem_filter.mpr ⟨mem_of_find?_eq_some hseat, hfound.1⟩
    have huserId : existing.userId = userId := by
      have hfound := find?_some hseat
      rw [Bool.and_eq_true, beq_iff_eq] at hfound
      exact hfound.2
    have hmanage := @run_manageSeat_withdraw sha256 config _ _ _ userId t.currency
      hbooks.found _ hseat
    -- when the rollback has come to its end, the seat is removed
    have hremoved : ∀ {outcome wallet moves'},
        (Wallet.rollback sha256 config userId t.buyIn t.id t.currency).run Cmd.exec s.wallet =
          (.ok outcome, wallet) →
        Books sha256 t reserveId s₀ { s with wallet := wallet } state moves' →
        Phase t.buyIn state moves'
          (((s.seatsOf t.id).filter (·.id ≠ existing.id)).map (·.userId)) →
        Agrees sha256 t reserveId s₀
          ((TournamentCall.withdraw userId).after sha256 (some config) t.id s) := by
      intro outcome wallet moves' hrun hbooks' hphase'
      rw [hrun] at hmanage
      obtain ⟨emitted, hafter⟩ := after_withdraw_ok hbooks.found hmanage
      rw [hafter]
      refine ⟨state, moves', hbooks'.congr rfl rfl rfl, ?_, ?_⟩
      · rw [← seatUsers_remove] at hphase'
        exact hphase'
      · intro v hv
        have hv' : v ∈ ((s.seatsOf t.id).filter (·.id ≠ existing.id)).map (·.userId) := by
          rw [← seatUsers_remove]
          exact hv
        obtain ⟨seat, hin, rfl⟩ := mem_map.mp hv'
        exact husers seat.userId (mem_map_of_mem (mem_filter.mp hin).1)
    -- the only seat of a user that was charged
    have honly : s.seatUsers t.id = [userId] →
        ((s.seatsOf t.id).filter (·.id ≠ existing.id)).map (·.userId) = [] := by
      intro hu
      obtain ⟨seat, hseats, -⟩ := map_eq_singleton_iff.mp hu
      rw [hseats] at hmem ⊢
      rw [mem_singleton] at hmem
      simp [hmem]
    have hin : userId ∈ s.seatUsers t.id := mem_map.mpr ⟨existing, hmem, huserId⟩
    generalize hu : s.seatUsers t.id = users at hphase
    cases hphase with
    | free _ _ hfree hnodup =>
      obtain ⟨r, wallet, moves', hrun, hbooks'⟩ :=
        hbooks.transfer config hsha hopened huser .rollback
      cases r with
      | ok outcome =>
        refine hremoved hrun hbooks' (.free _ _ hfree ?_)
        rw [← hu] at hnodup
        exact hnodup.sublist (filter_sublist.map _)
      | error e =>
        have hrun' : (Wallet.rollback sha256 config userId t.buyIn t.id t.currency).run Cmd.exec
          s.wallet = (.error e, wallet) := hrun
        have hmanage' := hmanage
        dsimp only at hmanage'
        rw [hrun'] at hmanage'
        rw [after_withdraw_error hbooks.found hmanage']
        refine ⟨state, moves', hbooks', ?_, husers⟩
        show Phase t.buyIn state moves' (s.seatUsers t.id)
        rw [hu]
        exact .free _ _ hfree hnodup
    | fresh =>
      rw [hu] at hin
      cases hin
    | held v hopen =>
      rw [hu, mem_singleton] at hin
      subst hin
      obtain ⟨wallet, hrun, hbooks'⟩ := hbooks.rollback_held config hsha hopened
      refine hremoved hrun hbooks' ?_
      rw [honly hu]
      exact .closed userId
    | closed v =>
      rw [hu] at hin
      cases hin
    | cancelled v _ =>
      rw [hu, mem_singleton] at hin
      subst hin
      have hfinds := (hbooks.users _ mem_cons_self).2
      have hdir : Transfer.rollback ∈ map (·.1)
        [(Transfer.reserve, userId), (Transfer.rollback, userId)] := by simp
      refine hremoved (hbooks.transfer_old config hfinds hdir) hbooks ?_
      rw [honly hu]
      exact .closed userId

/-! ### Joining -/

/-- The transfers of the ledger after one more was asked for. -/
def addMove (moves : List (Transfer × String)) (m : Transfer × String) :
    List (Transfer × String) :=
  if m.1 ∈ moves.map (·.1) then moves else moves ++ [m]

lemma Books.transfer_add (hsha : Function.Injective sha256) (hopened : Opened sha256 t s₀)
    (h : Books sha256 t reserveId s₀ s state moves) (huser : s₀.wallet.IsUser userId)
    (hfinds : s₀.wallet.Finds t.currency userId reserveId) (dir : Transfer) : ∃ outcome wallet,
      ((dir.op userId t.buyIn t.id t.currency).body sha256 config).run Cmd.exec s.wallet =
        (.ok outcome, wallet) ∧
      Books sha256 t reserveId s₀ { s with wallet := wallet } state
        (addMove moves (dir, userId)) := by
  unfold addMove
  split_ifs with hdir
  · exact ⟨_, _, h.transfer_old config hfinds hdir, h⟩
  · obtain ⟨wallet, hrun, hbooks⟩ := h.transfer_new config hsha hopened huser hfinds hdir
    exact ⟨_, _, hrun, hbooks⟩

lemma hasAccounts_iff {currency : String} : s.hasAccounts currency userId = true ↔
    ∃ r, s.wallet.Finds currency userId r := by
  simp only [Store.hasAccounts, Bool.and_eq_true, Option.isSome_iff_exists, Wallet.Store.Finds]
  constructor
  · rintro ⟨⟨user, huser⟩, reserve, hreserve⟩
    exact ⟨reserve.id, user, reserve, huser, hreserve, rfl⟩
  · rintro ⟨r, user, reserve, huser, hreserve, -⟩
    exact ⟨⟨user, huser⟩, reserve, hreserve⟩

/-- A kind of transfer that is in the journal for the tournament is one of those in the books. -/
lemma Books.any_iff (hopened : Opened sha256 t s₀) (h : Books sha256 t reserveId s₀ s state moves)
    (dir : Transfer) :
    (s.wallet.journals.any fun j => j.refType == dir.refType && j.refId == t.id) = true ↔
      dir ∈ moves.map (·.1) := by
  rw [h.journals, any_append, Bool.or_eq_true, any_eq_true, any_eq_true, mem_map]
  constructor
  · rintro (⟨j, hj, heq⟩ | ⟨j, hj, heq⟩)
    · rw [Bool.and_eq_true, beq_iff_eq, beq_iff_eq] at heq
      exact absurd heq.2 (hopened.noEntries j hj)
    · obtain ⟨m, hm, leg, -, rfl⟩ := mem_moveEntries.mp hj
      rw [Bool.and_eq_true, beq_iff_eq] at heq
      exact ⟨m, hm, refType_inj heq.1⟩
  · rintro ⟨m, hm, rfl⟩
    obtain ⟨leg, hleg⟩ : ∃ leg, leg ∈ m.1.legs t.buyIn m.2 reserveId := by
      cases m.1 with
      | reserve => exact ⟨_, mem_cons_self⟩
      | rollback => exact ⟨_, mem_cons_self⟩
    exact Or.inr ⟨_, mem_moveEntries.mpr ⟨m, hm, leg, hleg, rfl⟩, by simp [legEntry]⟩

lemma Books.charged_iff (hopened : Opened sha256 t s₀)
    (h : Books sha256 t reserveId s₀ s state moves) :
    s.charged t.id = true ↔ .reserve ∈ moves.map (·.1) :=
  h.any_iff hopened .reserve

lemma Books.refunded_iff (hopened : Opened sha256 t s₀)
    (h : Books sha256 t reserveId s₀ s state moves) :
    s.refunded t.id = true ↔ .rollback ∈ moves.map (·.1) :=
  h.any_iff hopened .rollback

/-- What a join that gets to the seats leaves in the books and at the tables. -/
def joinMoves (moves : List (Transfer × String)) (userId : String) (table saves : Bool) :
    List (Transfer × String) :=
  if table && !saves then addMove (addMove moves (.reserve, userId)) (.rollback, userId)
  else addMove moves (.reserve, userId)

def joinUsers (users : List String) (userId : String) (table saves : Bool) : List String :=
  if table && saves then users ++ [userId] else users

lemma Books.join (seatId : String) (saves : Bool) (hsha : Function.Injective sha256)
    (hopened : Opened sha256 t s₀) (h : Books sha256 t reserveId s₀ s state moves)
    (huser : s₀.wallet.IsUser userId)
    (hfinds : s₀.wallet.Finds t.currency userId reserveId)
    (hadmits : ({ t with state := state } : Tournament).admits now = true) :
    let s' := (TournamentCall.join userId now seatId saves).after sha256 (some config) t.id s
    let table := !(s.tablesOf t.id).isEmpty
    Books sha256 t reserveId s₀ s' state (joinMoves moves userId table saves) ∧
      s'.seatUsers t.id = joinUsers (s.seatUsers t.id) userId table saves := by
  obtain ⟨outcome, wallet, hreserve, hbooks⟩ :=
    h.transfer_add config hsha hopened huser hfinds .reserve
  cases htarget : s.leastSeated (s.tablesOf t.id) with
  | none =>
    have htables := Store.leastSeated_eq_none.mp htarget
    rw [after_join_error h.found hadmits (run_manageSeat_join_noTable h.found hreserve htables)]
    simp only [htables, isEmpty_nil, Bool.not_true, joinMoves, joinUsers, Bool.false_and,
      Bool.false_eq_true, if_false]
    exact ⟨hbooks, rfl⟩
  | some target =>
    have hmem := Store.mem_of_leastSeated htarget
    have htable : (s.tablesOf t.id).isEmpty = false := by
      rw [isEmpty_eq_false_iff_exists_mem]
      exact ⟨target, hmem⟩
    simp only [htable, Bool.not_false, joinMoves, joinUsers, Bool.true_and]
    cases saves with
    | true =>
      obtain ⟨emitted, hafter⟩ := after_join_ok h.found hadmits
        (run_manageSeat_join_saved seatId h.found hreserve htarget)
      rw [hafter]
      refine ⟨hbooks.congr rfl rfl rfl, ?_⟩
      -- the table of the new seat is one of the tournament
      have hat : s.atTournament t.id (s.createSeat seatId userId target) = true :=
        any_eq_true.mpr ⟨target, hmem, by simp [Store.createSeat]⟩
      show ((s.seats ++ [s.createSeat seatId userId target]).filter (s.atTournament t.id)).map _ = _
      rw [filter_append, map_append, filter_cons_of_pos hat, filter_nil]
      rfl
    | false =>
      obtain ⟨e, hmanage⟩ := run_manageSeat_join_unsaved seatId h.found hreserve htarget
      obtain ⟨outcome', wallet', hrollback, hbooks'⟩ :=
        hbooks.transfer_add config hsha hopened huser hfinds .rollback
      have hrollback' : (Wallet.rollback sha256 config userId t.buyIn t.id t.currency).run Cmd.exec
        wallet = (.ok outcome', wallet') := hrollback
      rw [after_join_error h.found hadmits hmanage, hrollback']
      exact ⟨hbooks', rfl⟩

/-- `JoinFits`, in terms of the books. -/
def MovesFit (buyIn : ℤ) (moves : List (Transfer × String)) (users : List String)
    (userId : String) (table saves : Bool) : Prop :=
  if table = false then buyIn = 0 ∨ .reserve ∈ moves.map (·.1)
  else if saves then userId ∉ users ∧ (buyIn = 0 ∨ .reserve ∉ moves.map (·.1))
  else buyIn = 0 ∨ .reserve ∉ moves.map (·.1) ∨ .rollback ∈ moves.map (·.1)

lemma Books.joinFits_iff (hopened : Opened sha256 t s₀)
    (h : Books sha256 t reserveId s₀ s state moves) : s.JoinFits t userId saves ↔
      MovesFit t.buyIn moves (s.seatUsers t.id) userId (!(s.tablesOf t.id).isEmpty) saves := by
  have hcharged : s.charged t.id = false ↔ .reserve ∉ moves.map (·.1) := by
    rw [← Bool.not_eq_true, h.charged_iff hopened]
  have htables : ((!(s.tablesOf t.id).isEmpty) = false) ↔ s.tablesOf t.id = [] := by
    rw [Bool.not_eq_eq_eq_not, Bool.not_false, List.isEmpty_iff]
  unfold Store.JoinFits MovesFit
  simp only [htables, hcharged, h.charged_iff hopened, h.refunded_iff hopened, Store.seatsHeldBy,
    count_eq_zero]

variable {buyIn : ℤ} {users : List String} {table : Bool}

/-- A join that fits leads to a phase. -/
lemma Phase.join (h : Phase buyIn state moves users) (hopen : state ≠ .cancelled)
    (hfits : MovesFit buyIn moves users userId table saves) :
    Phase buyIn state (joinMoves moves userId table saves)
      (joinUsers users userId table saves) := by
  -- a tournament without buy-in
  by_cases hfree : buyIn = 0
  · refine .free _ _ hfree ?_
    cases table with
    | false => exact h.nodup
    | true =>
      cases saves with
      | false => exact h.nodup
      | true =>
        show (users ++ [userId]).Nodup
        rw [← concat_eq_append]
        exact h.nodup.concat hfits.1
  cases h with
  | free _ _ hzero _ => exact absurd hzero hfree
  | fresh =>
    cases table with
    | false =>
      rcases hfits with hzero | hin
      · exact absurd hzero hfree
      · cases hin
    | true =>
      cases saves with
      | true => exact .held userId hopen
      | false => exact .closed userId
  | held v _ =>
    cases table with
    | false => exact .held v hopen
    | true =>
      cases saves with
      | true => exact absurd mem_cons_self (hfits.2.resolve_left hfree)
      | false =>
        rcases hfits with hzero | hnot | hin
        · exact absurd hzero hfree
        · exact absurd mem_cons_self hnot
        · simp at hin
  | closed v =>
    cases table with
    | false => exact .closed v
    | true =>
      cases saves with
      | true => exact absurd mem_cons_self (hfits.2.resolve_left hfree)
      | false => exact .closed v
  | cancelled v hcancelled => exact absurd hcancelled hopen

/-- A join after which the debit and the seats of its user agree was one that fits. -/
lemma Phase.movesFit (h : Phase buyIn state moves users) (hopen : state ≠ .cancelled)
    (hdebit : buyIn * netSign (joinMoves moves userId table saves) userId =
      buyIn * (joinUsers users userId table saves).count userId)
    (hnodup : (joinUsers users userId table saves).Nodup) :
    MovesFit buyIn moves users userId table saves := by
  have hnew : table = true → saves = true → userId ∉ users := by
    rintro rfl rfl hin
    have hcount := nodup_iff_count_le_one.mp hnodup userId
    simp only [joinUsers, Bool.and_self, if_true, count_append, count_singleton_self] at hcount
    have := count_pos_iff.mpr hin
    omega
  cases h with
  | free _ _ hfree _ =>
    cases table with
    | false => exact Or.inl hfree
    | true =>
      cases saves with
      | true => exact ⟨hnew rfl rfl, Or.inl hfree⟩
      | false => exact Or.inl hfree
  | fresh =>
    cases table with
    | false =>
      -- the user was charged, and got no seat
      simp [joinMoves, joinUsers, addMove, netSign, sign] at hdebit
      exact Or.inl hdebit
    | true =>
      cases saves with
      | true => exact ⟨hnew rfl rfl, Or.inr (by simp)⟩
      | false => exact Or.inr (Or.inl (by simp))
  | held v _ =>
    cases table with
    | false => exact Or.inr mem_cons_self
    | true =>
      cases saves with
      | true =>
        -- the user got a seat, and was not charged
        have hne : v ≠ userId := fun heq => hnew rfl rfl (by simp [heq])
        simp [joinMoves, joinUsers, addMove, netSign_held, hne] at hdebit
        exact ⟨hnew rfl rfl, Or.inl hdebit.symm⟩
      | false =>
        -- the buy-in of a seat that is held was returned, or one that was not charged
        by_cases hv : v = userId <;>
          simp [joinMoves, joinUsers, addMove, netSign, sign, hv] at hdebit
        · exact Or.inl hdebit.symm
        · exact Or.inl hdebit
  | closed v =>
    cases table with
    | false => exact Or.inr mem_cons_self
    | true =>
      cases saves with
      | true =>
        simp [joinMoves, joinUsers, addMove, netSign_closed] at hdebit
        exact ⟨hnew rfl rfl, Or.inl hdebit.symm⟩
      | false => exact Or.inr (Or.inr (by simp))
  | cancelled v hcancelled => exact absurd hcancelled hopen

lemma admits_ne_cancelled (hadmits : ({ t with state := state } : Tournament).admits now = true) :
    state ≠ .cancelled := by
  rintro rfl
  simp [Tournament.admits] at hadmits

/-- A join that does not get to the seats changes nothing. -/
lemma after_join_outside (h : Books sha256 t reserveId s₀ s state moves)
    (hout : ({ t with state := state } : Tournament).admits now = true →
      ∀ r, ¬ s.wallet.Finds t.currency userId r) :
    (TournamentCall.join userId now seatId saves).after sha256 (some config) t.id s = s := by
  cases hadmits : ({ t with state := state } : Tournament).admits now with
  | false => exact after_join_refused h.found hadmits
  | true =>
    have hmissing : ((Transfer.reserve.op userId t.buyIn t.id t.currency).body sha256 config).run
        Cmd.exec s.wallet = _ := Transfer.run_of_missing (hout hadmits)
    exact after_join_error h.found hadmits (run_manageSeat_join_error h.found hmissing)

/-- The step of the law. -/
lemma agrees_join (hsha : Function.Injective sha256) (hopened : Opened sha256 t s₀)
    (h : Agrees sha256 t reserveId s₀ s) (huser : s₀.wallet.IsUser userId) :
    ((TournamentCall.join userId now seatId saves).Fits t s →
      Agrees sha256 t reserveId s₀
        ((TournamentCall.join userId now seatId saves).after sha256 (some config) t.id s)) ∧
    (MoneyMatchesSeats t
        ((TournamentCall.join userId now seatId saves).after sha256 (some config) t.id s) →
      (TournamentCall.join userId now seatId saves).Fits t s) := by
  obtain ⟨state, moves, hbooks, hphase, husers⟩ := h
  simp only [TournamentCall.Fits, hbooks.found, Option.any_some, hasAccounts_iff]
  by_cases hin : ({ t with state := state } : Tournament).admits now = true ∧
      ∃ r, s.wallet.Finds t.currency userId r
  · obtain ⟨hadmits, r, hfinds⟩ := hin
    have hfinds₀ := hfinds.congr hbooks.rows.symm
    obtain rfl := hbooks.reserveOnly userId r hfinds₀
    have hopen := admits_ne_cancelled hadmits
    obtain ⟨hafter, hseats⟩ := hbooks.join config seatId saves
      hsha hopened huser hfinds₀ hadmits
    rw [hbooks.joinFits_iff hopened]
    constructor
    · intro hfits
      refine ⟨state, _, hafter, ?_, ?_⟩
      · rw [hseats]
        exact hphase.join hopen (hfits hadmits ⟨r, hfinds⟩)
      · rw [hseats]
        intro v hv
        unfold joinUsers at hv
        split at hv
        · rcases mem_append.mp hv with hv | hv
          · exact husers v hv
          · rw [mem_singleton.mp hv]
            exact huser
        · exact husers v hv
    · intro hlaw _ _
      obtain ⟨hdebits, hnodup, -⟩ := ((hafter.law_iff hopened).mp hlaw).1 hopen
      rw [hseats] at hdebits hnodup
      exact hphase.movesFit hopen (hdebits userId huser) hnodup
  · rw [after_join_outside config hbooks fun hadmits r hr => hin ⟨hadmits, r, hr⟩]
    refine ⟨fun _ => ⟨state, moves, hbooks, hphase, husers⟩, fun _ hadmits hr => ?_⟩
    exact absurd ⟨hadmits, hr⟩ hin

/-- One call: it keeps money and seats in agreement exactly if it fits. -/
lemma agrees_after (hsha : Function.Injective sha256) (hopened : Opened sha256 t s₀)
    (h : Agrees sha256 t reserveId s₀ s) {call : TournamentCall}
    (huser : ∀ userId, call.user = some userId → s₀.wallet.IsUser userId) :
    (call.Fits t s → Agrees sha256 t reserveId s₀ (call.after sha256 (some config) t.id s)) ∧
    (MoneyMatchesSeats t (call.after sha256 (some config) t.id s) → call.Fits t s) := by
  cases call with
  | openRegistration =>
    exact ⟨agrees_openRegistration config h, fits_openRegistration config hopened h⟩
  | start => exact ⟨fun _ => agrees_transition config h rfl (by decide) nofun, fun _ => trivial⟩
  | pause => exact ⟨fun _ => agrees_transition config h rfl (by decide) nofun, fun _ => trivial⟩
  | resume => exact ⟨fun _ => agrees_transition config h rfl (by decide) nofun, fun _ => trivial⟩
  | finish => exact ⟨fun _ => agrees_transition config h rfl (by decide) nofun, fun _ => trivial⟩
  | cancel => exact ⟨fun _ => agrees_cancel config hsha hopened h, fun _ => trivial⟩
  | join userId now seatId saves => exact agrees_join config hsha hopened h (huser userId rfl)
  | withdraw userId =>
    exact ⟨fun _ => agrees_withdraw config hsha hopened h (huser userId rfl), fun _ => trivial⟩

end Step

/-! ### Runs -/

/-- The account that `reserve` and `rollback` of a currency work on. -/
def Store.reserveId (s : Store) (currency : String) : String :=
  ((s.wallet.accounts.find? (byName "reserve" currency)).map (·.id)).getD ""

lemma agrees_opened {sha256 : String → String} {t : Tournament} {s : Store}
    (h : Opened sha256 t s) : Agrees sha256 t (s.reserveId t.currency) s s := by
  have hnone : s.seatUsers t.id = [] := by rw [Store.seatUsers, h.noSeats, map_nil]
  refine ⟨t.state, [], ⟨h.found, rfl, rfl, by simp [moveEntries], nodup_nil, ?_, ?_⟩, ?_, ?_⟩
  · exact fun _ hmem => absurd hmem not_mem_nil
  · rintro userId r ⟨user, reserve, -, hreserve, rfl⟩
    simp [Store.reserveId, hreserve]
  · rw [hnone]
    exact .fresh
  · rw [hnone]
    exact fun _ hmem => absurd hmem not_mem_nil

/-- Along the calls, the money of the tournament matches its seats. -/
def LawAlong (sha256 : String → String) (config : Config) (t : Tournament)
    (calls : List TournamentCall) (s : Store) : Prop :=
  ∀ before later, calls = before ++ later →
    MoneyMatchesSeats t (afterCalls sha256 (some config) t.id before s)

/-- Every call of the sequence fits. -/
def CallsFit (sha256 : String → String) (config : Config) (t : Tournament)
    (calls : List TournamentCall) (s : Store) : Prop :=
  ∀ before call later, calls = before ++ call :: later →
    call.Fits t (afterCalls sha256 (some config) t.id before s)

section Runs

variable {sha256 : String → String} {config : Config} {t : Tournament} {s : Store}
  {calls : List TournamentCall} {call : TournamentCall}

lemma afterCalls_concat (before : List TournamentCall) :
    afterCalls sha256 (some config) t.id (before ++ [call]) s =
      call.after sha256 (some config) t.id (afterCalls sha256 (some config) t.id before s) := by
  simp [afterCalls, foldl_append]

lemma callsFit_nil : CallsFit sha256 config t [] s := by
  intro before call later heq
  simp at heq

lemma callsFit_cons : CallsFit sha256 config t (call :: calls) s ↔
    call.Fits t s ∧ CallsFit sha256 config t calls (call.after sha256 (some config) t.id s) := by
  constructor
  · intro h
    refine ⟨h [] call calls rfl, fun before call' later heq => ?_⟩
    exact h (call :: before) call' later (by rw [heq]; rfl)
  · rintro ⟨hfirst, hrest⟩ before call' later heq
    cases before with
    | nil =>
      rw [nil_append, cons.injEq] at heq
      obtain ⟨rfl, rfl⟩ := heq
      exact hfirst
    | cons first before =>
      rw [cons_append, cons.injEq] at heq
      obtain ⟨rfl, heq⟩ := heq
      exact hrest before call' later heq

/-- As long as the calls fit, money and seats agree. -/
lemma agrees_afterCalls (hsha : Function.Injective sha256) (hopened : Opened sha256 t s)
    (husers : ∀ call ∈ calls, ∀ userId, call.user = some userId → s.wallet.IsUser userId)
    (hfits : ∀ before call later, calls = before ++ call :: later →
      Agrees sha256 t (s.reserveId t.currency) s
        (afterCalls sha256 (some config) t.id before s) →
      call.Fits t (afterCalls sha256 (some config) t.id before s)) (before : List TournamentCall) :
    ∀ later, calls = before ++ later →
      Agrees sha256 t (s.reserveId t.currency) s
        (afterCalls sha256 (some config) t.id before s) := by
  induction before using reverseRecOn with
  | nil => exact fun _ _ => agrees_opened hopened
  | append_singleton before call ih =>
    intro later heq
    rw [append_assoc, singleton_append] at heq
    have hbefore := ih (call :: later) heq
    have hcall : call ∈ calls := by rw [heq]; simp
    rw [afterCalls_concat]
    exact (agrees_after config hsha hopened hbefore (husers call hcall)).1
      (hfits before call later heq hbefore)

end Runs

def sundayMajor : Tournament where
  id := "t1"
  title := "Sunday Major"
  buyIn := 100
  currency := "USD"
  state := .regOpen
  registrationClose := none

def sundayStore : Store where
  tournaments := [sundayMajor]
  tables := [⟨"table1", some "t1"⟩]
  wallet := buyInAccounts

lemma opened_sundayMajor : Opened id sundayMajor sundayStore where
  found := rfl
  noSeats := rfl
  noEntries := nofun
  newHashes := fun _ _ _ => not_mem_nil

end Pokerhub.TournamentService
