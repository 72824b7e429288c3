import Pokerhub.Tournament.Calls
import Pokerhub.Wallet.Legs

/-!
# The books of a tournament

The law that the money of a tournament matches its seats, and the transfers that the ledger has for
a tournament. The buy-ins of all users share the leg on the reserve account, so the ledger posts one
reservation and one rollback for a tournament, whoever they are for (`Books.transfer_old`,
`Books.transfer_new`).
-/

namespace Pokerhub.TournamentService

open List Wallet

/-! ### The law -/

namespace Store

/-- The sum of the entries for a tournament on the accounts `q`. -/
def entrySum (s : Store) (id : String) (q : String → Bool) : ℤ :=
  ((s.wallet.journals.filter fun j => j.refId = id ∧ q j.accountId = true).map (·.amount)).sum

def netDebit (s : Store) (id userId : String) : ℤ :=
  -s.entrySum id (· == userId)

/-- What the reserve account holds for a tournament. -/
def reserveHolds (s : Store) (id : String) : ℤ :=
  s.entrySum id s.wallet.isReserve

/-- The users at the tables of a tournament, once for each seat. -/
def seatUsers (s : Store) (id : String) : List String :=
  (s.seatsOf id).map (·.userId)

def seatsHeldBy (s : Store) (id userId : String) : ℕ :=
  (s.seatUsers id).count userId

def Cancelled (s : Store) (id : String) : Prop :=
  (s.tournaments.find? (·.id == id)).map (·.state) = some .cancelled

instance (s : Store) (id : String) : Decidable (s.Cancelled id) :=
  inferInstanceAs (Decidable ((s.tournaments.find? (·.id == id)).map (·.state) = some .cancelled))

end Store

/-- The money of a tournament matches its seats; after `cancel` it is returned. -/
structure MoneyMatchesSeats (t : Tournament) (s : Store) : Prop where
  debits : ¬ s.Cancelled t.id → ∀ userId, s.wallet.IsUser userId →
    s.netDebit t.id userId = t.buyIn * s.seatsHeldBy t.id userId
  oneSeat : ¬ s.Cancelled t.id → ∀ userId, s.seatsHeldBy t.id userId ≤ 1
  reserve : ¬ s.Cancelled t.id → s.reserveHolds t.id = t.buyIn * (s.seatsOf t.id).length
  returned : s.Cancelled t.id → ∀ userId, s.wallet.IsUser userId →
    s.netDebit t.id userId = 0

/-- A tournament that nobody has joined yet; its id is new to the wallet. -/
structure Opened (sha256 : String → String) (t : Tournament) (s : Store) : Prop where
  found : s.tournaments.find? (·.id == t.id) = some t
  noSeats : s.seatsOf t.id = []
  noEntries : ∀ j ∈ s.wallet.journals, j.refId ≠ t.id
  newHashes : ∀ refType accountId amount,
    buildHash sha256 refType t.id accountId amount ∉ s.wallet.hashes

/-! ### The transfers of a tournament -/

/-- The entries of transfers of the buy-in, with the users that they are for. -/
def moveEntries (sha256 : String → String) (t : Tournament) (reserveId : String)
    (moves : List (Transfer × String)) : List JournalEntry :=
  moves.flatMap fun m => (m.1.legs t.buyIn m.2 reserveId).map
    (legEntry sha256 m.1.refType t.id t.currency)

/-- What a transfer adds to the debit of its user, in buy-ins. -/
def sign : Transfer → ℤ
  | .reserve => 1
  | .rollback => -1

/-- The debit of a user, in buy-ins. -/
def netSign (moves : List (Transfer × String)) (userId : String) : ℤ :=
  (moves.map fun m => if m.2 = userId then sign m.1 else 0).sum

/-- The tournament, its tables and its accounts are those of `s₀`, the tournament is in `state`, and
`moves` were posted for it. -/
structure Books (sha256 : String → String) (t : Tournament) (reserveId : String) (s₀ s : Store)
    (state : TournamentState) (moves : List (Transfer × String)) : Prop where
  found : s.tournaments.find? (·.id == t.id) = some { t with state := state }
  tables : s.tables = s₀.tables
  rows : s.wallet.accountRows = s₀.wallet.accountRows
  journals : s.wallet.journals = s₀.wallet.journals ++ moveEntries sha256 t reserveId moves
  nodup : (moves.map (·.1)).Nodup
  users : ∀ m ∈ moves, s₀.wallet.IsUser m.2 ∧ s₀.wallet.Finds t.currency m.2 reserveId
  reserveOnly : ∀ userId r, s₀.wallet.Finds t.currency userId r → r = reserveId

section Books

variable {sha256 : String → String} (config : Config) {t : Tournament} {reserveId userId : String}
  {s₀ s : Store} {state : TournamentState} {moves : List (Transfer × String)}

lemma refType_inj {dir dir' : Transfer} (h : dir.refType = dir'.refType) : dir = dir' := by
  cases dir <;> cases dir' <;> first | rfl | exact absurd h (by decide)

/-- The hashes of two directions are different. -/
lemma dir_eq_of_hash (hsha : Function.Injective sha256) {dir dir' : Transfer}
    {refId refId' : String} {leg leg' : String × ℤ} (h : buildHash sha256 dir.refType refId leg.1 leg.2 =
      buildHash sha256 dir'.refType refId' leg'.1 leg'.2) : dir = dir' := by
  have hcolon : ∀ dir : Transfer, ':' ∉ dir.refType.toList := fun dir => by cases dir <;> decide
  exact refType_inj (refType_eq_of_hashInput (hcolon dir) (hcolon dir') (hsha h))

lemma mem_moveEntries {j : JournalEntry} : j ∈ moveEntries sha256 t reserveId moves ↔
    ∃ m ∈ moves, ∃ leg ∈ m.1.legs t.buyIn m.2 reserveId,
      legEntry sha256 m.1.refType t.id t.currency leg = j := by
  simp only [moveEntries, mem_flatMap, mem_map]

lemma Books.hashes (h : Books sha256 t reserveId s₀ s state moves) : s.wallet.hashes =
    s₀.wallet.hashes ++ (moveEntries sha256 t reserveId moves).map (·.hash) := by
  rw [Wallet.Store.hashes, h.journals, map_append]
  rfl

/-- The leg on the reserve account is the same for all users: a second transfer in one direction is
suppressed. -/
lemma Books.transfer_old (h : Books sha256 t reserveId s₀ s state moves)
    (hfinds : s₀.wallet.Finds t.currency userId reserveId) {dir : Transfer}
    (hdir : dir ∈ moves.map (·.1)) :
    ((dir.op userId t.buyIn t.id t.currency).body sha256 config).run Cmd.exec s.wallet =
      (.ok .suppressed, s.wallet) := by
  obtain ⟨m, hm, rfl⟩ := mem_map.mp hdir
  have hshared : ∃ leg, ∀ userId, leg ∈ m.1.legs t.buyIn userId reserveId := by
    cases m.1 with
    | reserve => exact ⟨(reserveId, t.buyIn), fun _ => by simp [Transfer.legs]⟩
    | rollback => exact ⟨(reserveId, -t.buyIn), fun _ => by simp [Transfer.legs]⟩
  obtain ⟨leg, hleg⟩ := hshared
  refine Transfer.run_of_old (hfinds.congr h.rows) ⟨leg, hleg userId, ?_⟩
  rw [h.hashes]
  refine mem_append_right _ (mem_map.mpr ⟨_, mem_moveEntries.mpr ⟨m, hm, leg, hleg m.2, rfl⟩, rfl⟩)

/-- The first transfer in a direction is posted. -/
lemma Books.transfer_new (hsha : Function.Injective sha256) (hopened : Opened sha256 t s₀)
    (h : Books sha256 t reserveId s₀ s state moves) (huser : s₀.wallet.IsUser userId)
    (hfinds : s₀.wallet.Finds t.currency userId reserveId) {dir : Transfer}
    (hdir : dir ∉ moves.map (·.1)) :
    ∃ wallet, ((dir.op userId t.buyIn t.id t.currency).body sha256 config).run Cmd.exec s.wallet =
        (.ok .posted, wallet) ∧
      Books sha256 t reserveId s₀ { s with wallet := wallet } state (moves ++ [(dir, userId)]) := by
  have hnew : ∀ leg ∈ dir.legs t.buyIn userId reserveId,
      buildHash sha256 dir.refType t.id leg.1 leg.2 ∉ s.wallet.hashes := by
    intro leg _
    rw [h.hashes, mem_append, not_or]
    refine ⟨hopened.newHashes _ _ _, ?_⟩
    rw [mem_map]
    rintro ⟨j, hj, heq⟩
    obtain ⟨m, hm, leg', -, rfl⟩ := mem_moveEntries.mp hj
    exact hdir (mem_map.mpr ⟨m, hm, dir_eq_of_hash hsha heq⟩)
  obtain ⟨wallet, hrun, hrows, hjournals⟩ := Transfer.run_of_new config hsha
    (hfinds.congr h.rows) (ne_of_finds huser hfinds) hnew
  refine ⟨wallet, hrun, ⟨h.found, h.tables, hrows.trans h.rows, ?_, ?_, ?_, h.reserveOnly⟩⟩
  · rw [hjournals, h.journals, append_assoc]
    simp [moveEntries]
  · rw [map_append, map_singleton, ← concat_eq_append]
    exact h.nodup.concat hdir
  · intro m hm
    rcases mem_append.mp hm with hm | hm
    · exact h.users m hm
    · rw [mem_singleton] at hm
      subst hm
      exact ⟨huser, hfinds⟩

/-! ### What the law says of the transfers -/

lemma entrySum_append {j : List JournalEntry} {id : String} {q : String → Bool}
    (hs₀ : ∀ j ∈ s₀.wallet.journals, j.refId ≠ id)
    (h : s.wallet.journals = s₀.wallet.journals ++ j) :
    s.entrySum id q =
      ((j.filter fun j => j.refId = id ∧ q j.accountId = true).map (·.amount)).sum := by
  have hnone : (s₀.wallet.journals.filter fun j => j.refId = id ∧ q j.accountId = true) = [] := by
    rw [filter_eq_nil_iff]
    intro j hj hid
    simp only [decide_eq_true_eq] at hid
    exact hs₀ j hj hid.1
  rw [Store.entrySum, h, filter_append, hnone, nil_append]

/-- The entries of the transfers, summed up over accounts on one side. -/
lemma sum_moveEntries {q : String → Bool} {c : Transfer × String → ℤ}
    (hc : ∀ m ∈ moves, (((m.1.legs t.buyIn m.2 reserveId).filter fun leg => q leg.1).map
      (·.2)).sum = t.buyIn * c m) :
    (((moveEntries sha256 t reserveId moves).filter fun j =>
      j.refId = t.id ∧ q j.accountId = true).map (·.amount)).sum = t.buyIn * (moves.map c).sum := by
  induction moves with
  | nil => simp [moveEntries]
  | cons m moves ih =>
    have hfirst : (((m.1.legs t.buyIn m.2 reserveId).map
        (legEntry sha256 m.1.refType t.id t.currency)).filter fun j =>
          j.refId = t.id ∧ q j.accountId = true).map (·.amount) =
        ((m.1.legs t.buyIn m.2 reserveId).filter fun leg => q leg.1).map (·.2) := by
      rw [filter_map, map_map]
      simp [Function.comp_def, legEntry]
    have hrest := ih fun m' hm' => hc m' (mem_cons_of_mem m hm')
    rw [moveEntries, flatMap_cons, filter_append, map_append, sum_append, hfirst,
      hc m mem_cons_self, map_cons, sum_cons, mul_add]
    exact congrArg (t.buyIn * c m + ·) hrest

lemma Books.entrySum (hopened : Opened sha256 t s₀)
    (h : Books sha256 t reserveId s₀ s state moves) {q : String → Bool} {c : Transfer × String → ℤ}
    (hc : ∀ m ∈ moves, (((m.1.legs t.buyIn m.2 reserveId).filter fun leg => q leg.1).map
      (·.2)).sum = t.buyIn * c m) : s.entrySum t.id q = t.buyIn * (moves.map c).sum :=
  (entrySum_append hopened.noEntries h.journals).trans (sum_moveEntries hc)

lemma Books.netDebit (hopened : Opened sha256 t s₀)
    (h : Books sha256 t reserveId s₀ s state moves) (huser : s.wallet.IsUser userId) :
    s.netDebit t.id userId = t.buyIn * netSign moves userId := by
  have hsum : s.entrySum t.id (· == userId) =
      t.buyIn * (moves.map fun m => -if m.2 = userId then sign m.1 else 0).sum := by
    refine h.entrySum hopened fun m hm => ?_
    have hne : reserveId ≠ userId :=
      (ne_of_finds (Wallet.Store.isUser_congr h.rows.symm huser) (h.users m hm).2).symm
    obtain ⟨dir, v⟩ := m
    by_cases hv : v = userId <;> cases dir <;> simp [Transfer.legs, sign, hne, hv]
  rw [Store.netDebit, hsum, netSign, ← mul_neg]
  rw [sum_neg, map_map]
  simp [Function.comp_def]

lemma Books.reserveHolds (hopened : Opened sha256 t s₀)
    (h : Books sha256 t reserveId s₀ s state moves) :
    s.reserveHolds t.id = t.buyIn * (moves.map (sign ·.1)).sum := by
  refine h.entrySum hopened fun m hm => ?_
  obtain ⟨huser, user, reserve, hu, hreserve, hid⟩ := h.users m hm
  have hres : s.wallet.isReserve reserveId = true := by
    rw [isReserve_congr h.rows, ← hid]
    exact isReserve_of_mem (mem_of_find?_eq_some hreserve) (byName_iff.mp (find?_some hreserve)).1
  have hnot : s.wallet.isReserve m.2 = false := by
    rw [isReserve_congr h.rows]
    exact not_isReserve_of_isUser huser
  obtain ⟨dir, v⟩ := m
  cases dir <;> simp [Transfer.legs, sign, hres, hnot]

lemma Books.cancelled_iff (h : Books sha256 t reserveId s₀ s state moves) :
    s.Cancelled t.id ↔ state = .cancelled := by
  simp [Store.Cancelled, h.found]

/-- The law, in terms of the transfers. -/
lemma Books.law_iff (hopened : Opened sha256 t s₀)
    (h : Books sha256 t reserveId s₀ s state moves) : MoneyMatchesSeats t s ↔
      (state ≠ .cancelled →
        (∀ v, s₀.wallet.IsUser v →
          t.buyIn * netSign moves v = t.buyIn * (s.seatUsers t.id).count v) ∧
        (s.seatUsers t.id).Nodup ∧
        t.buyIn * (moves.map (sign ·.1)).sum = t.buyIn * (s.seatUsers t.id).length) ∧
      (state = .cancelled → ∀ v, s₀.wallet.IsUser v → t.buyIn * netSign moves v = 0) := by
  have huser : ∀ v, s.wallet.IsUser v ↔ s₀.wallet.IsUser v := fun v =>
    ⟨Wallet.Store.isUser_congr h.rows.symm, Wallet.Store.isUser_congr h.rows⟩
  have hdebit : ∀ v, s₀.wallet.IsUser v → s.netDebit t.id v = t.buyIn * netSign moves v :=
    fun v hv => h.netDebit hopened ((huser v).mpr hv)
  have hlength : (s.seatUsers t.id).length = (s.seatsOf t.id).length := length_map _
  rw [hlength, ← h.reserveHolds hopened, ne_eq, ← h.cancelled_iff]
  constructor
  · rintro ⟨hdebits, hone, hreserve, hreturned⟩
    refine ⟨fun hopen => ⟨fun v hv => ?_, ?_, hreserve hopen⟩, fun hcancelled v hv => ?_⟩
    · rw [← hdebit v hv]
      exact hdebits hopen v ((huser v).mpr hv)
    · exact nodup_iff_count_le_one.mpr (hone hopen)
    · rw [← hdebit v hv]
      exact hreturned hcancelled v ((huser v).mpr hv)
  · rintro ⟨hopen, hcancelled⟩
    refine ⟨fun ho v hv => ?_, fun ho => ?_, fun ho => (hopen ho).2.2, fun hc v hv => ?_⟩
    · rw [hdebit v ((huser v).mp hv)]
      exact (hopen ho).1 v ((huser v).mp hv)
    · exact nodup_iff_count_le_one.mp (hopen ho).2.1
    · rw [hdebit v ((huser v).mp hv)]
      exact hcancelled hc v ((huser v).mp hv)

/-! ### What does not change the books -/

variable {s' : Store}

lemma Books.congr (h : Books sha256 t reserveId s₀ s state moves)
    (htournaments : s'.tournaments = s.tournaments) (htables : s'.tables = s.tables)
    (hwallet : s'.wallet = s.wallet) : Books sha256 t reserveId s₀ s' state moves where
  found := by rw [htournaments]; exact h.found
  tables := by rw [htables]; exact h.tables
  rows := by rw [hwallet]; exact h.rows
  journals := by rw [hwallet]; exact h.journals
  nodup := h.nodup
  users := h.users
  reserveOnly := h.reserveOnly

lemma Books.saveState (h : Books sha256 t reserveId s₀ s state moves)
    (state' : TournamentState) :
    Books sha256 t reserveId s₀ (s.saveState t.id state') state' moves where
  found := by
    have hid : ((fun x : Tournament => x.id == t.id) ∘ fun x : Tournament =>
        if x.id = t.id then { x with state := state' } else x) = fun x => x.id == t.id := by
      funext x
      simp only [Function.comp_apply]
      split <;> rfl
    simp only [Store.saveState, find?_map, hid, h.found, Option.map_some, if_true]
  tables := h.tables
  rows := h.rows
  journals := h.journals
  nodup := h.nodup
  users := h.users
  reserveOnly := h.reserveOnly

/-- A transfer for a user, whatever comes of it. -/
lemma Books.transfer (hsha : Function.Injective sha256) (hopened : Opened sha256 t s₀)
    (h : Books sha256 t reserveId s₀ s state moves) (huser : s₀.wallet.IsUser userId)
    (dir : Transfer) : ∃ r wallet moves',
      ((dir.op userId t.buyIn t.id t.currency).body sha256 config).run Cmd.exec s.wallet =
        (r, wallet) ∧
      Books sha256 t reserveId s₀ { s with wallet := wallet } state moves' := by
  by_cases hfinds : ∃ r, s₀.wallet.Finds t.currency userId r
  · obtain ⟨r, hfinds⟩ := hfinds
    obtain rfl := h.reserveOnly userId r hfinds
    by_cases hdir : dir ∈ moves.map (·.1)
    · exact ⟨_, _, moves, h.transfer_old config hfinds hdir, h⟩
    · obtain ⟨wallet, hrun, hbooks⟩ := h.transfer_new config hsha hopened huser hfinds hdir
      exact ⟨_, _, _, hrun, hbooks⟩
  · refine ⟨_, _, moves, Transfer.run_of_missing fun r hr => ?_, h⟩
    exact hfinds ⟨r, hr.congr h.rows.symm⟩

/-- The loop of `cancel` changes the money only. -/
lemma Books.refundSeats (state' : TournamentState) (hsha : Function.Injective sha256)
    (hopened : Opened sha256 t s₀) (seats : List Seat)
    (husers : ∀ seat ∈ seats, s₀.wallet.IsUser seat.userId)
    (h : Books sha256 t reserveId s₀ s state moves) : ∃ s' moves',
      ((∃ u, (seats.forM (refundSeat sha256 (some config) { t with state := state' })).run s =
          .ok u s') ∨
        ∃ e, (seats.forM (refundSeat sha256 (some config) { t with state := state' })).run s =
          .error e s') ∧
      Books sha256 t reserveId s₀ s' state moves' ∧ s'.seats = s.seats := by
  induction seats generalizing s moves with
  | nil => exact ⟨s, moves, Or.inl ⟨_, rfl⟩, h, rfl⟩
  | cons seat seats ih =>
    obtain ⟨r, wallet, moves₁, hrun, hbooks⟩ :=
      h.transfer config hsha hopened (husers seat mem_cons_self) .rollback
    have hturn := @run_refundSeat sha256 config { t with state := state' } s seat wallet r hrun
    rcases hturn with ⟨emitted, hturn⟩ | ⟨e, -, hturn⟩
    · have hbooks' : Books sha256 t reserveId s₀
          { s with wallet := wallet, emitted := emitted } state moves₁ := hbooks.congr rfl rfl rfl
      obtain ⟨s', moves', hloop, hbooks'', hseats⟩ :=
        ih (fun seat' h' => husers seat' (mem_cons_of_mem seat h')) hbooks'
      refine ⟨s', moves', ?_, hbooks'', hseats⟩
      simp only [List.forM_eq_forM, List.forM_cons, EStateM.run_bind, hturn]
      exact hloop
    · refine ⟨{ s with wallet := wallet }, moves₁, Or.inr ⟨e, ?_⟩, hbooks, rfl⟩
      simp only [List.forM_eq_forM, List.forM_cons, EStateM.run_bind, hturn]

end Books

end Pokerhub.TournamentService
