import Mathlib.Data.Char
import Mathlib.Data.List.Lex
import Mathlib.Data.List.Sort
import Pokerhub.Core.Numerals
import Pokerhub.Core.Paging

/-!
# Pages of the history

`HistoryQuerySchema` of `shared/schemas/history.ts` and the three listings of `history.service.ts`,
over rows that do not change. A page ends with the offset of the next one as a text, which the next
request brings back. Whoever follows these texts comes to the last page, and has then been given
every row once (`history_enumerates`).
-/

namespace Pokerhub.History

open List

/-! ### Queries -/

inductive ProfitLoss where
  | win
  | loss
  deriving DecidableEq

inductive SortOrder where
  | asc
  | desc
  deriving DecidableEq

/-- What `limit` is once it has been parsed. -/
abbrev Limit := {n : ℕ // 0 < n ∧ n ≤ 100}

structure HistoryQuery where
  gameType : Option Text
  profitLoss : Option ProfitLoss
  dateFrom : Option Text
  dateTo : Option Text
  limit : Option Limit
  cursor : Option ℕ
  sort : Option SortOrder
  deriving DecidableEq

/-- The texts of a request. -/
structure RawQuery where
  gameType : Option Text := none
  profitLoss : Option Text := none
  dateFrom : Option Text := none
  dateTo : Option Text := none
  limit : Option Text := none
  cursor : Option Text := none
  sort : Option Text := none
  deriving DecidableEq

/-- An optional member of the schema. -/
def parseOptional {α : Type*} (parse : Text → Option α) : Option Text → Option (Option α)
  | none => some none
  | some text => (parse text).map some

/-- `z.coerce.number().int().min(0)`. Whole numbers are left exact, also where doubles are further
apart than that: no array is as long. -/
def parseCursor (text : Text) : Option ℕ := do
  let exact ← numeral text
  let x ← if exact.den = 1 then some exact else roundDouble exact
  if x.den = 1 ∧ 0 ≤ x.num then some x.num.toNat else none

/-- `z.coerce.number().int().positive().max(100)`. -/
def parseLimit (text : Text) : Option Limit := do
  let n ← parseCursor text
  if h : 0 < n ∧ n ≤ 100 then some ⟨n, h⟩ else none

def parseProfitLoss (text : Text) : Option ProfitLoss :=
  [("win".toList, .win), ("loss".toList, .loss)].lookup text

def parseSort (text : Text) : Option SortOrder :=
  [("asc".toList, .asc), ("desc".toList, .desc)].lookup text

/-- `HistoryQuerySchema.parse`. -/
def RawQuery.parse (raw : RawQuery) : Option HistoryQuery := do
  let profitLoss ← parseOptional parseProfitLoss raw.profitLoss
  let limit ← parseOptional parseLimit raw.limit
  let sort ← parseOptional parseSort raw.sort
  let cursor ← parseOptional parseCursor raw.cursor
  return ⟨raw.gameType, profitLoss, raw.dateFrom, raw.dateTo, limit, cursor, sort⟩

/-- Functions of the language, with an order of the names. -/
structure Language where
  toLowerCase : Text → Text
  /-- `new Date(value).getTime()`, if it is a number. -/
  getTime : Text → Option ℤ
  toISOString : ℤ → Text
  localeCompare : Text → Text → ℤ
  localeCompare_total : ∀ a b, localeCompare a b ≤ 0 ∨ localeCompare b a ≤ 0
  localeCompare_trans : ∀ a b c, localeCompare a b ≤ 0 → localeCompare b c ≤ 0 →
    localeCompare a c ≤ 0

/-- What `normalizeQuery` returns. -/
structure Config where
  limit : ℕ
  offset : ℕ
  sort : SortOrder
  dateFrom : Option ℤ
  dateTo : Option ℤ
  gameType : Option Text
  profitLoss : Option ProfitLoss
  deriving DecidableEq

section Service

variable (lang : Language)

def parseDate (value : Option Text) : Option ℤ :=
  (value.filter (· ≠ [])).bind lang.getTime

def normalizeQuery (query : HistoryQuery) : Config where
  limit := min ((query.limit.map (·.1)).getD 25) 100
  offset := query.cursor.getD 0
  sort := if query.sort = some .asc then .asc else .desc
  dateFrom := parseDate lang query.dateFrom
  dateTo := parseDate lang query.dateTo
  gameType := (query.gameType.map fun t => lang.toLowerCase (Json.trim t)).filter (· ≠ [])
  profitLoss := query.profitLoss

/-! ### Pages -/

structure Paginated (α : Type*) where
  items : List α
  nextCursor : Option Text
  total : ℕ
  deriving DecidableEq

/-- `rows.sort(compare)`, which is stable. -/
def sortBy {α : Type*} (compare : α → α → ℤ) (rows : List α) : List α :=
  rows.mergeSort fun a b => compare a b ≤ 0

def sliceRows {α : Type*} (rows : List α) (offset limit : ℕ) : List α × Option Text :=
  if rows.length ≤ offset then ([], none)
  else
    let slice := (rows.drop offset).take limit
    let nextOffset := offset + slice.length
    (slice, if nextOffset < rows.length then some (Nat.toDigits 10 nextOffset) else none)

/-- The end of each listing. -/
def paginate {α β : Type*} (rows : List α) (config : Config) (entry : α → β) : Paginated β where
  items := (sliceRows rows config.offset config.limit).1.map entry
  nextCursor := (sliceRows rows config.offset config.limit).2
  total := rows.length

/-! ### Amounts -/

def DEFAULT_CURRENCY : Text :=
  "USD".toList

def symbolCurrency : Char → Option Text
  | '$' => some "USD".toList
  | '€' => some "EUR".toList
  | '£' => some "GBP".toList
  | _ => none

structure Amount where
  amount : ℚ
  currency : Text
  deriving DecidableEq

def parseAmount (amount : Text) : Amount :=
  if amount = [] then ⟨0, DEFAULT_CURRENCY⟩
  else
    let trimmed := Json.trim amount
    let code := trimmed.drop (trimmed.length - 3)
    let currency :=
      if code.length = 3 ∧ code.all Char.isAlpha then code.map Char.toUpper
      else (trimmed.findSome? symbolCurrency).getD DEFAULT_CURRENCY
    let numericPart := trimmed.filter fun c => c.isDigit || c ∈ ['.', '+', '-']
    ⟨(parseFloat numericPart).getD 0, currency⟩

/-! ### The listings -/

def byDate {α : Type*} (sort : SortOrder) (date : α → ℤ) (a b : α) : ℤ :=
  if sort = .asc then date a - date b else date b - date a

structure GameHistory where
  id : Text
  type : Text
  stakes : Text
  buyin : Text
  /-- `date.getTime()`. -/
  date : ℤ
  profit : Bool
  amount : Text
  deriving DecidableEq

structure GameHistoryEntry where
  id : Text
  type : Text
  stakes : Text
  buyin : Text
  date : Text
  profit : Bool
  amount : Amount
  deriving DecidableEq

/-- The conditions that the listings of games and of transactions share. -/
def inRange (config : Config) (type : Text) (date : ℤ) : Bool :=
  config.gameType.all (lang.toLowerCase type = ·) && config.dateFrom.all (· ≤ date) &&
    config.dateTo.all (date ≤ ·)

def keepsGame (config : Config) (row : GameHistory) : Bool :=
  inRange lang config row.type row.date &&
    match config.profitLoss with
    | some .win => row.profit
    | some .loss => !row.profit
    | none => true

def listedGames (rows : List GameHistory) (config : Config) : List GameHistory :=
  sortBy (byDate config.sort (·.date)) (rows.filter (keepsGame lang config))

def gameEntry (r : GameHistory) : GameHistoryEntry where
  id := r.id
  type := r.type
  stakes := r.stakes
  buyin := r.buyin
  date := lang.toISOString r.date
  profit := r.profit
  amount := parseAmount r.amount

def getGames (rows : List GameHistory) (query : HistoryQuery) : Paginated GameHistoryEntry :=
  let config := normalizeQuery lang query
  paginate (listedGames lang rows config) config (gameEntry lang)

structure TournamentHistory where
  id : Text
  name : Text
  place : Text
  buyin : Text
  prize : Text
  duration : Text
  deriving DecidableEq

def byName (sort : SortOrder) (a b : TournamentHistory) : ℤ :=
  if sort = .asc then lang.localeCompare a.name b.name else lang.localeCompare b.name a.name

/-- A tournament has nothing that a filter could ask for. -/
def listedTournaments (rows : List TournamentHistory) (config : Config) : List TournamentHistory :=
  sortBy (byName lang config.sort) rows

/-- The entry of a tournament has the same members as its row. -/
def getTournaments (rows : List TournamentHistory) (query : HistoryQuery) :
    Paginated TournamentHistory :=
  let config := normalizeQuery lang query
  paginate (listedTournaments lang rows config) config id

structure WalletHistory where
  date : ℤ
  type : Text
  amount : Text
  status : Text
  deriving DecidableEq

structure TransactionEntry where
  date : Text
  type : Text
  amount : Amount
  status : Text
  deriving DecidableEq

def keepsTransaction (config : Config) (row : WalletHistory) : Bool :=
  inRange lang config row.type row.date &&
    match config.profitLoss with
    | some .win => 0 < (parseAmount row.amount).amount
    | some .loss => (parseAmount row.amount).amount < 0
    | none => true

def listedTransactions (rows : List WalletHistory) (config : Config) : List WalletHistory :=
  sortBy (byDate config.sort (·.date)) (rows.filter (keepsTransaction lang config))

def transactionEntry (r : WalletHistory) : TransactionEntry where
  date := lang.toISOString r.date
  type := r.type
  amount := parseAmount r.amount
  status := r.status

def getTransactions (rows : List WalletHistory) (query : HistoryQuery) :
    Paginated TransactionEntry :=
  let config := normalizeQuery lang query
  paginate (listedTransactions lang rows config) config (transactionEntry lang)

end Service

/-! ### A cursor is read back -/

variable {lang : Language} {raw : RawQuery} {query : HistoryQuery} {config : Config}

lemma parseCursor_toDigits (n : ℕ) : parseCursor (Nat.toDigits 10 n) = some n := by
  simp [parseCursor, numeral_toDigits]

/-- The query of the next page. -/
def RawQuery.withCursor (raw : RawQuery) (cursor : Text) : RawQuery :=
  { raw with cursor := some cursor }

lemma RawQuery.parse_eq_some_iff : raw.parse = some query ↔
    parseOptional parseProfitLoss raw.profitLoss = some query.profitLoss ∧
    parseOptional parseLimit raw.limit = some query.limit ∧
    parseOptional parseSort raw.sort = some query.sort ∧
    parseOptional parseCursor raw.cursor = some query.cursor ∧
    raw.gameType = query.gameType ∧ raw.dateFrom = query.dateFrom ∧
    raw.dateTo = query.dateTo := by
  constructor
  · intro h
    simp only [RawQuery.parse, Option.bind_eq_bind, Option.bind_eq_some_iff, Option.pure_def,
      Option.some.injEq] at h
    obtain ⟨profitLoss, hprofitLoss, limit, hlimit, sort, hsort, cursor, hcursor, rfl⟩ := h
    exact ⟨hprofitLoss, hlimit, hsort, hcursor, rfl, rfl, rfl⟩
  · rintro ⟨hprofitLoss, hlimit, hsort, hcursor, hgameType, hdateFrom, hdateTo⟩
    simp [RawQuery.parse, hprofitLoss, hlimit, hsort, hcursor, hgameType, hdateFrom, hdateTo]

/-- Only the offset is another one. -/
lemma RawQuery.parse_withCursor (h : raw.parse = some query) (n : ℕ) :
    (raw.withCursor (Nat.toDigits 10 n)).parse = some { query with cursor := some n } := by
  rw [RawQuery.parse_eq_some_iff] at h ⊢
  obtain ⟨hprofitLoss, hlimit, hsort, -, hrest⟩ := h
  refine ⟨hprofitLoss, hlimit, hsort, ?_, hrest⟩
  simp [RawQuery.withCursor, parseOptional, parseCursor_toDigits]

lemma cursor_eq_none (h : raw.parse = some query) (hstart : raw.cursor = none) :
    query.cursor = none := by
  obtain ⟨-, -, -, hcursor, -⟩ := RawQuery.parse_eq_some_iff.mp h
  rw [hstart] at hcursor
  exact (Option.some.inj hcursor).symm

lemma limit_pos (query : HistoryQuery) : 0 < (normalizeQuery lang query).limit := by
  rw [normalizeQuery]
  rcases query.limit with _ | ⟨n, hpos, hle⟩
  · exact Nat.lt_of_lt_of_le Nat.zero_lt_one (by simp)
  · exact lt_min hpos (by decide)

/-! ### Following the cursors -/

/-- A request to the controller, up to the answer of the service. -/
def answer {β : Type*} (endpoint : HistoryQuery → Paginated β) (raw : RawQuery) :
    Option (Paginated β) :=
  raw.parse.map endpoint

/-- The request for the page after this one. -/
def nextRequest {β : Type*} (raw : RawQuery) (page : Paginated β) : Option RawQuery :=
  page.nextCursor.map raw.withCursor

/-- From the request on, the pages end, and they are the rows, which every page counts. -/
def Enumerates {β : Type*} (endpoint : HistoryQuery → Paginated β) (raw : RawQuery)
    (rows : List β) : Prop :=
  ∃ n pages, followPages (answer endpoint) nextRequest n raw = some pages ∧
    pages.flatMap (·.items) = rows ∧ ∀ page ∈ pages, page.total = rows.length

section Rows

variable {α β : Type*} {rows : List α} {offset limit : ℕ}

lemma sliceRows_last (h : rows.length ≤ offset + limit) :
    sliceRows rows offset limit = (rows.drop offset, none) := by
  rw [sliceRows]
  split_ifs with hend
  · rw [drop_eq_nil_of_le hend]
  · have hslice : (rows.drop offset).take limit = rows.drop offset :=
      take_of_length_le (by rw [length_drop]; omega)
    have hnext : ¬offset + (rows.drop offset).length < rows.length := by
      rw [length_drop]
      omega
    simp only [hslice, if_neg hnext]

lemma sliceRows_next (h : offset + limit < rows.length) :
    sliceRows rows offset limit =
      ((rows.drop offset).take limit, some (Nat.toDigits 10 (offset + limit))) := by
  have hslice : ((rows.drop offset).take limit).length = limit := by
    rw [length_take, length_drop]
    omega
  rw [sliceRows, if_neg (by omega)]
  simp only [hslice, if_pos h]

/-- A page is cut from the same rows, at the offset of its request. -/
lemma paginate_of_listed {listed : Config → List α} {entry : α → β}
    (hlisted : ∀ config n, listed { config with offset := n } = listed config)
    (cursor : Option ℕ) :
    paginate (listed (normalizeQuery lang { query with cursor := cursor }))
      (normalizeQuery lang { query with cursor := cursor }) entry =
      ⟨(sliceRows (listed (normalizeQuery lang query)) (cursor.getD 0)
          (normalizeQuery lang query).limit).1.map entry,
        (sliceRows (listed (normalizeQuery lang query)) (cursor.getD 0)
          (normalizeQuery lang query).limit).2, (listed (normalizeQuery lang query)).length⟩ := by
  have hsame : listed (normalizeQuery lang { query with cursor := cursor }) =
      listed (normalizeQuery lang query) :=
    hlisted (normalizeQuery lang query) (cursor.getD 0)
  rw [paginate, hsame]
  rfl

/-- A listing whose rows do not depend on the offset gives each of them once. -/
lemma enumerates_of_listed {listed : Config → List α} {entry : α → β}
    (hlisted : ∀ config n, listed { config with offset := n } = listed config)
    (hparse : raw.parse = some query) (hstart : raw.cursor = none) :
    Enumerates (fun query => paginate (listed (normalizeQuery lang query))
      (normalizeQuery lang query) entry) raw
      ((listed (normalizeQuery lang query)).map entry) := by
  set rows := listed (normalizeQuery lang query) with hrows
  set limit := (normalizeQuery lang query).limit with hlimit
  have hzero : ∃ cursor, raw.parse = some { query with cursor := cursor } ∧ cursor.getD 0 = 0 := by
    refine ⟨none, ?_, rfl⟩
    rw [hparse, ← cursor_eq_none hparse hstart]
  rw [← drop_zero (l := rows.map entry)]
  let asks (request : RawQuery) (offset : ℕ) : Prop := ∃ cursor,
    request.parse = some { query with cursor := cursor } ∧ cursor.getD 0 = offset
  have hasks : asks raw 0 := hzero
  refine exists_followPages ?_ hasks
  rintro request _ ⟨cursor, hrequest, rfl⟩
  refine ⟨_, by rw [answer, hrequest, Option.map_some, paginate_of_listed hlisted],
    by rw [drop_zero, length_map], ?_⟩
  rcases lt_or_ge (cursor.getD 0 + limit) rows.length with hnext | hlast
  · right
    refine ⟨request.withCursor (Nat.toDigits 10 (cursor.getD 0 + limit)), cursor.getD 0 + limit,
      ?_, ⟨some (cursor.getD 0 + limit), RawQuery.parse_withCursor hrequest _, rfl⟩, ?_, ?_, ?_⟩
    · rw [nextRequest, sliceRows_next hnext, Option.map_some]
    · exact Nat.lt_add_of_pos_right (limit_pos query)
    · rwa [length_map]
    · rw [sliceRows_next hnext, Nat.add_sub_cancel_left, ← map_drop, map_take]
  · left
    constructor
    · rw [nextRequest, sliceRows_last hlast, Option.map_none]
    · rw [sliceRows_last hlast, map_drop]

/-! ### What is listed -/

/-- The rows in the order of the comparison. -/
def Lists (compare : α → α → ℤ) (rows listed : List α) : Prop :=
  listed ~ rows ∧ listed.Pairwise fun a b => compare a b ≤ 0

lemma lists_sortBy {compare : α → α → ℤ}
    (htrans : ∀ a b c, compare a b ≤ 0 → compare b c ≤ 0 → compare a c ≤ 0)
    (htotal : ∀ a b, compare a b ≤ 0 ∨ compare b a ≤ 0) (rows : List α) :
    Lists compare rows (sortBy compare rows) := by
  have h : (rows.mergeSort fun a b => decide (compare a b ≤ 0)).Pairwise
      fun a b => decide (compare a b ≤ 0) = true :=
    pairwise_mergeSort (fun a b c => by simpa using htrans a b c)
      (fun a b => by simpa using htotal a b) rows
  exact ⟨mergeSort_perm rows _, by simpa [sortBy] using h⟩

lemma lists_byDate (sort : SortOrder) (date : α → ℤ) (rows : List α) :
    Lists (byDate sort date) rows (sortBy (byDate sort date) rows) := by
  refine lists_sortBy (fun a b c => ?_) (fun a b => ?_) rows
  · cases sort
    · simp only [byDate, if_true]
      omega
    · simp only [byDate, reduceCtorEq, if_false]
      omega
  · cases sort
    · simp only [byDate, if_true]
      omega
    · simp only [byDate, reduceCtorEq, if_false]
      omega

end Rows

lemma lists_byName (sort : SortOrder) (rows : List TournamentHistory) :
    Lists (byName lang sort) rows (sortBy (byName lang sort) rows) := by
  refine lists_sortBy (fun a b c => ?_) (fun a b => ?_) rows
  · cases sort
    · exact lang.localeCompare_trans a.name b.name c.name
    · exact fun hab hbc => lang.localeCompare_trans c.name b.name a.name hbc hab
  · cases sort
    · exact lang.localeCompare_total a.name b.name
    · exact lang.localeCompare_total b.name a.name

/-- Following the cursors of each listing ends and gives every row that passes the filters once, in
the order of the query, and every page has the number of these rows. -/
theorem history_enumerates (lang : Language) (games : List GameHistory)
    (tournaments : List TournamentHistory) (transactions : List WalletHistory) {raw : RawQuery}
    {query : HistoryQuery} (hparse : raw.parse = some query) (hstart : raw.cursor = none) :
    (Lists (byDate (normalizeQuery lang query).sort (·.date))
        (games.filter (keepsGame lang (normalizeQuery lang query)))
        (listedGames lang games (normalizeQuery lang query)) ∧
      Enumerates (getGames lang games) raw
        ((listedGames lang games (normalizeQuery lang query)).map (gameEntry lang))) ∧
    (Lists (byName lang (normalizeQuery lang query).sort) tournaments
        (listedTournaments lang tournaments (normalizeQuery lang query)) ∧
      Enumerates (getTournaments lang tournaments) raw
        ((listedTournaments lang tournaments (normalizeQuery lang query)).map id)) ∧
    (Lists (byDate (normalizeQuery lang query).sort (·.date))
        (transactions.filter (keepsTransaction lang (normalizeQuery lang query)))
        (listedTransactions lang transactions (normalizeQuery lang query)) ∧
      Enumerates (getTransactions lang transactions) raw
        ((listedTransactions lang transactions (normalizeQuery lang query)).map
          (transactionEntry lang))) := by
  refine ⟨⟨lists_byDate _ _ _, ?_⟩, ⟨lists_byName _ _, ?_⟩, ⟨lists_byDate _ _ _, ?_⟩⟩
  · exact enumerates_of_listed (fun _ _ => rfl) hparse hstart
  · exact enumerates_of_listed (fun _ _ => rfl) hparse hstart
  · exact enumerates_of_listed (fun _ _ => rfl) hparse hstart

/-- The functions of the language on English text and the first milliseconds of 1970. -/
def asciiLanguage : Language where
  toLowerCase := map Char.toLower
  getTime := fun _ => none
  toISOString := fun t => "1970-01-01T00:00:00.00".toList ++ Nat.toDigits 10 t.toNat ++ ['Z']
  localeCompare := fun a b => if a < b then -1 else if b < a then 1 else 0
  localeCompare_total := by
    intro a b
    rcases lt_trichotomy a b with h | rfl | h
    · simp [h]
    · simp
    · simp [h]
  localeCompare_trans := by
    have hle : ∀ a b : Text, (if a < b then (-1 : ℤ) else if b < a then 1 else 0) ≤ 0 ↔ a ≤ b := by
      intro a b
      rcases lt_trichotomy a b with h | rfl | h
      · simp [h, h.le]
      · simp
      · simp [h, h.not_gt]
    intro a b c
    rw [hle, hle, hle]
    exact le_trans

/-- Two cash games. -/
def twoGames : List GameHistory :=
  [⟨['a'], "cash".toList, "$1/$2".toList, "$100".toList, 0, true, "$50".toList⟩,
    ⟨['b'], "cash".toList, "$2/$5".toList, "$200".toList, 1, false, "-$25".toList⟩]

/-- One game to a page, the latest first. -/
theorem history_enumerates_twoGames :
    Enumerates (getGames asciiLanguage twoGames) { limit := some ['1'] }
      ((listedGames asciiLanguage twoGames ⟨1, 0, .desc, none, none, none, none⟩).map
        (gameEntry asciiLanguage)) := by
  have hparse : RawQuery.parse { limit := some ['1'] } =
      some ⟨none, none, none, none, some ⟨1, by decide⟩, none, none⟩ := by decide +kernel
  exact (history_enumerates asciiLanguage twoGames [] [] hparse rfl).1.2

end Pokerhub.History
