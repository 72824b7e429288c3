import Pokerhub.Core.Json
import Pokerhub.Core.Stages

/-!
# Sessions

`SessionService` and the calls of `AuthService` that issue, rotate and revoke refresh tokens. The
prefixes of the keys in Redis keep the refresh tokens, the revoked tokens and the reset codes apart,
so each is a map of its own. The calls share Redis and the table of users, and what a call does
between two of its awaits is one command.

An access token is what the library signs. Meters and the rate limit of the reset requests are left
out.
-/

namespace Pokerhub.Auth

open List

abbrev Token := String

abbrev Email := String

/-- The name of a user is a generated UUID, so it does not read as a JSON object. -/
structure UserId where
  val : String
  hex : (val.toList.head?.bind Json.hexDigit).isSome
  deriving DecidableEq

inductive Role where
  | admin
  deriving DecidableEq

structure User where
  id : UserId
  password : Option String
  role : Option Role := none
  deriving DecidableEq

/-! ### The values of the refresh keys -/

/-- `parsed.role === 'admin' ? 'admin' : undefined` -/
def roleOf (parsed : Json) : Option Role :=
  match parsed.get "role" with
  | .string role => if role = "admin" then some .admin else none
  | _ => none

/-- A value that is no object with a `userId` is the user's id itself. -/
def parseRefreshValue : Option String → Option String × Option Role
  | none => (none, none)
  | some value =>
    if value = "" then (none, none)
    else
      match Json.parse value.toList with
      | none => (some value, none)
      | some parsed =>
        match parsed.get "userId" with
        | .string userId => (some userId, roleOf parsed)
        | _ => (some value, none)

/-- `opts.role ? JSON.stringify({ userId, role: opts.role }) : userId` -/
def refreshValue (userId : String) : Option Role → String
  | none => userId
  | some .admin =>
    String.ofList <| Json.stringify <| .object
      [("userId", .string userId), ("role", .string "admin")]

/-- The text of a user's id starts with a hexadecimal digit. -/
def IsUserId (s : String) : Prop :=
  (s.toList.head?.bind Json.hexDigit).isSome

/-- What starts with a hexadecimal digit is read as a number or as `false`. -/
lemma get_parse_of_hex {c : Char} {s : Text} {parsed : Json} (hc : (Json.hexDigit c).isSome)
    (h : Json.parse (c :: s) = some parsed) (key : String) : parsed.get key = .undefined := by
  have hspace : Json.isSpace c = false := by
    by_contra hspace
    simp only [Json.isSpace, Bool.not_eq_false, Bool.or_eq_true, decide_eq_true_eq] at hspace
    rcases hspace with ((rfl | rfl) | rfl) | rfl <;> revert hc <;> decide
  have hne : ∀ d, (Json.hexDigit d).isSome = false → c ≠ d := by
    rintro d hd rfl
    rw [hc] at hd
    cases hd
  simp only [Json.parse, Option.bind_eq_some_iff] at h
  obtain ⟨⟨value, rest⟩, hread, hrest⟩ := h
  have hvalue : value = parsed := by
    split_ifs at hrest
    exact Option.some.inj hrest
  rw [Json.readValue, Json.skip_cons hspace] at hread
  simp only [hne 'n' (by decide), hne 't' (by decide), hne Json.quotationMark (by decide),
    hne '[' (by decide), hne '{' (by decide), if_false] at hread
  rw [← hvalue]
  split_ifs at hread
  · unfold Json.keyword at hread
    split_ifs at hread
    obtain rfl : Json.bool false = value := (Prod.mk.inj (Option.some.inj hread)).1
    rfl
  · unfold Json.readNumber at hread
    dsimp only at hread
    split_ifs at hread <;>
    · obtain rfl := (Prod.mk.inj (Option.some.inj hread)).1
      rfl

/-- The value of a refresh key is read back as the user and the role it was written for. -/
theorem parseRefreshValue_refreshValue {userId : String} (h : IsUserId userId)
    (role : Option Role) :
    parseRefreshValue (some (refreshValue userId role)) = (some userId, role) := by
  cases role with
  | none =>
    obtain ⟨c, s, hlist, hc⟩ : ∃ c s, userId.toList = c :: s ∧ (Json.hexDigit c).isSome := by
      unfold IsUserId at h
      cases hlist : userId.toList with
      | nil => simp [hlist] at h
      | cons c s => exact ⟨c, s, rfl, by simpa [hlist] using h⟩
    have hempty : userId ≠ "" := by
      rintro rfl
      cases hlist
    simp only [refreshValue, parseRefreshValue, if_neg hempty, hlist]
    split
    · rfl
    · rename_i parsed hparse
      rw [get_parse_of_hex hc hparse]
  | some role =>
    cases role
    have hempty : refreshValue userId (some .admin) ≠ "" := by
      intro hempty
      have hlist := congrArg String.toList hempty
      simp [refreshValue, Json.stringify] at hlist
    rw [parseRefreshValue, if_neg hempty]
    simp only [refreshValue, String.toList_ofList, Json.parse_stringify]
    rfl

/-! ### The state -/

structure Claims where
  sub : String
  role : Option Role
  deriving DecidableEq

structure TokenPair where
  accessToken : String
  refreshToken : Token
  deriving DecidableEq

structure AuthConfig where
  jwtSecrets : Option (List (Option String))
  accessTtl : ℕ := 900
  refreshTtl : ℕ := 604800
  resetTtl : ℕ := 900
  /-- `jwt.sign` at a time. -/
  sign : Claims → String → ℕ → ℕ → String
  /-- The UUIDs that `randomUUID` returns, one after another, and the place of each. -/
  uuid : ℕ → Token
  serial : Token → Option ℕ
  serial_uuid : ∀ n, serial (uuid n) = some n
  hashCode : String → String
  hashPassword : String → String
  comparePassword : String → String → Bool

/-- The secrets that are not blank. -/
def AuthConfig.availableSecrets (config : AuthConfig) : List String :=
  (config.jwtSecrets.getD []).filterMap fun secret =>
    (secret.map fun v => String.ofList (Json.trim v.toList)).filter (· ≠ "")

/-- A refresh key that was written, with the token that it replaces. -/
structure Issue where
  token : Token
  value : String
  parent : Option Token
  deriving DecidableEq

/-- The user of a refresh key. -/
def Issue.userId (issue : Issue) : Option String :=
  (parseRefreshValue (some issue.value)).1

structure AuthState where
  now : ℕ
  /-- The keys `refresh:*` with their values and the end of their time to live. -/
  refresh : List (Token × String × ℕ) := []
  revoked : Token → Option ℕ := fun _ => none
  reset : Email → Option (String × ℕ) := fun _ => none
  users : Email → Option User
  /-- How many UUIDs were drawn. -/
  drawn : ℕ := 0
  /-- The refresh keys that were ever written, for the statements about the runs. -/
  issues : List Issue := []

/-! ### The commands -/

inductive AuthCmd where
  | getRevoked (token : Token)
  | setRevoked (token : Token)
  | getRefresh (token : Token)
  | setRefresh (token : Token) (value : String) (parent : Option Token)
  | delRefresh (token : Token)
  /-- `KEYS refresh:*` -/
  | keys
  | getReset (email : Email)
  | delReset (email : Email)
  /-- `jwt.sign` and `randomUUID`. -/
  | sign (claims : Claims) (secret : String)
  | findUser (email : Email)
  | saveUser (email : Email) (password : String)
  | emitLogin (userId : String)
  | recordLogin (userId : String)
  deriving DecidableEq

namespace AuthCmd

abbrev Answer : AuthCmd → Type
  | getRevoked _ => Bool
  | getRefresh _ => Option String
  | keys => List Token
  | getReset _ => Option String
  | sign .. => TokenPair
  | findUser _ => Option User
  | _ => Unit

/-- The commands on Redis, the database and the analytics; they may fail. -/
def External : AuthCmd → Bool
  | sign .. => false
  | _ => true

open Function

def exec (config : AuthConfig) : (c : AuthCmd) → AuthState → c.Answer × AuthState
  | getRevoked token, s => ((s.revoked token).isSome, s)
  | setRevoked token, s =>
    ((), { s with revoked := update s.revoked token (some (s.now + config.refreshTtl)) })
  | getRefresh token, s => ((s.refresh.lookup token).map (·.1), s)
  | setRefresh token value parent, s =>
    ((), { s with
      refresh := s.refresh.filter (·.1 ≠ token) ++ [(token, value, s.now + config.refreshTtl)]
      issues := s.issues ++ [⟨token, value, parent⟩] })
  | delRefresh token, s => ((), { s with refresh := s.refresh.filter (·.1 ≠ token) })
  | keys, s => (s.refresh.map (·.1), s)
  | getReset email, s => ((s.reset email).map (·.1), s)
  | delReset email, s => ((), { s with reset := update s.reset email none })
  | .sign claims secret, s =>
    (⟨config.sign claims secret s.now config.accessTtl, config.uuid s.drawn⟩,
      { s with drawn := s.drawn + 1 })
  | findUser email, s => (s.users email, s)
  | saveUser email password, s =>
    ((), { s with
      users := update s.users email ((s.users email).map fun user =>
        { user with password := some password }) })
  | emitLogin _, s => ((), s)
  | recordLogin _, s => ((), s)

end AuthCmd

/-! ### The calls -/

/-- A call returns, or it throws. -/
abbrev AuthM := Program AuthCmd.Answer String

/-- One command. -/
def authRun (c : AuthCmd) : AuthM c.Answer :=
  Program.command "command failed" c

namespace AuthConfig

variable (config : AuthConfig)

/-- `issueTokens`; the new token replaces `parent`. -/
def issueTokens (userId : String) (role : Option Role) (parent : Option Token) :
    AuthM TokenPair :=
  match config.availableSecrets with
  | [] => throw "JWT secrets not configured"
  | secret :: _ => do
    let pair : TokenPair ← authRun (.sign ⟨userId, role⟩ secret)
    authRun (.setRefresh pair.refreshToken (refreshValue userId role) parent)
    return pair

/-- `SessionService.rotate`. -/
def rotate (refreshToken : Token) : AuthM (Option TokenPair) := do
  let stored : Option String ← authRun (.getRefresh refreshToken)
  match parseRefreshValue stored with
  | (none, _) => return none
  | (some userId, role) =>
    if userId = "" then return none
    else
      authRun (.delRefresh refreshToken)
      return some (← config.issueTokens userId role (some refreshToken))

/-- `SessionService.revoke`. -/
def revoke (refreshToken : Token) : AuthM Unit :=
  authRun (.delRefresh refreshToken)

/-- The loop of `revokeAll`. -/
def revokeKey (userId : String) (token : Token) : AuthM Unit := do
  let stored : Option String ← authRun (.getRefresh token)
  if (parseRefreshValue stored).1 = some userId then authRun (.delRefresh token)
  else return

/-- `SessionService.revokeAll`. -/
def revokeAll (userId : String) : AuthM Unit := do
  let keys : List Token ← authRun .keys
  Program.forEach (revokeKey userId) keys

def login (email : Email) (password : String) : AuthM (Option TokenPair) := do
  match ← authRun (.findUser email) with
  | none => return none
  | some user =>
    if user.password.any fun hash => hash ≠ "" ∧ config.comparePassword password hash then
      authRun (.emitLogin user.id.val)
      authRun (.recordLogin user.id.val)
      return some (← config.issueTokens user.id.val user.role none)
    else return none

/-- `AuthService.refresh`. -/
def refresh (refreshToken : Token) : AuthM (Option TokenPair) := do
  if ← authRun (.getRevoked refreshToken) then return none
  else
    match ← config.rotate refreshToken with
    | none => return none
    | some pair =>
      authRun (.setRevoked refreshToken)
      return some pair

def logout (refreshToken : Token) : AuthM Unit := do
  authRun (.setRevoked refreshToken)
  revoke refreshToken

/-- `verifyResetCode`; digests are compared as their hexadecimal texts. -/
def verifyResetCode (email : Email) (code : String) : AuthM Bool := do
  let stored : Option String ← authRun (.getReset email)
  return stored.any fun stored => stored ≠ "" ∧ stored = config.hashCode code

def resetPassword (email : Email) (code password : String) : AuthM Bool := do
  if ← config.verifyResetCode email code then
    match ← authRun (.findUser email) with
    | none => return false
    | some user =>
      authRun (.saveUser email (config.hashPassword password))
      revokeAll user.id.val
      authRun (.delReset email)
      return true
  else return false

end AuthConfig

/-- The calls of the two services. -/
inductive AuthCall where
  | login (email : Email) (password : String)
  | refresh (token : Token)
  | logout (token : Token)
  | revokeAll (userId : String)
  | resetPassword (email : Email) (code password : String)
  deriving DecidableEq

inductive AuthReply where
  | tokens (pair : Option TokenPair)
  | loggedOut
  | revokedAll
  | reset (done : Bool)
  deriving DecidableEq

def AuthCall.body (config : AuthConfig) : AuthCall → AuthM AuthReply
  | login email password => do return .tokens (← config.login email password)
  | refresh token => do return .tokens (← config.refresh token)
  | logout token => do
    AuthConfig.logout token
    return .loggedOut
  | revokeAll userId => do
    AuthConfig.revokeAll userId
    return .revokedAll
  | resetPassword email code password => do
    return .reset (← config.resetPassword email code password)

/-! ### The service -/

namespace AuthState

/-- A token that was handed out, or that no UUID will be. -/
def Known (config : AuthConfig) (s : AuthState) (token : Token) : Prop :=
  (config.serial token).isSome → ∃ issue ∈ s.issues, issue.token = token

instance (config : AuthConfig) (s : AuthState) (token : Token) :
    Decidable (s.Known config token) :=
  inferInstanceAs (Decidable (_ → _))

/-- What happens apart from the calls. -/
inductive Env (config : AuthConfig) (s : AuthState) : AuthState → Prop
  | wait (seconds : ℕ) : Env config s { s with now := s.now + seconds }
  /-- A refresh key comes to the end of its time to live. -/
  | expire (token : Token) (h : ∃ e ∈ s.refresh, e.1 = token ∧ e.2.2 ≤ s.now) :
    Env config s { s with refresh := s.refresh.filter (·.1 ≠ token) }
  | forget (token : Token) (h : ∃ t ∈ s.revoked token, t ≤ s.now) :
    Env config s { s with revoked := Function.update s.revoked token none }
  /-- `requestPasswordReset` has sent a code. -/
  | sendCode (email : Email) (code : String) :
    Env config s
      { s with
        reset := Function.update s.reset email
          (some (config.hashCode code, s.now + config.resetTtl)) }
  | expireCode (email : Email) (h : ∃ e ∈ s.reset email, e.2 ≤ s.now) :
    Env config s { s with reset := Function.update s.reset email none }
  /-- The keys are listed in any order. -/
  | reorder (refresh : List (Token × String × ℕ)) (h : s.refresh ~ refresh) :
    Env config s { s with refresh := refresh }

end AuthState

/-- The services on an empty Redis. A UUID is not named before it was handed out. -/
def authService (config : AuthConfig) :
    Service AuthCmd.Answer String AuthReply AuthState AuthCall where
  init s := ∃ now users, s = { now := now, users := users }
  ready s
    | .refresh token | .logout token => s.Known config token
    | .revokeAll userId => IsUserId userId
    | _ => True
  body := AuthCall.body config
  exec _ c s := c.exec config s
  fails _ c := c.External
  env := AuthState.Env config

instance (config : AuthConfig) (s : AuthState) :
    (r : AuthCall) → Decidable ((authService config).ready s r)
  | .refresh token | .logout token => inferInstanceAs (Decidable (s.Known config token))
  | .revokeAll _ => inferInstanceAs (Decidable ((_ : Bool) = true))
  | .login .. | .resetPassword .. => isTrue trivial

instance (config : AuthConfig) (s : AuthState) (c : AuthCmd) :
    Decidable ((authService config).fails s c) :=
  inferInstanceAs (Decidable (c.External = true))

/-! One user, and UUIDs that are counted in strokes. -/

def sampleConfig : AuthConfig where
  jwtSecrets := some [some "key"]
  sign claims _ _ _ := claims.sub
  uuid n := String.ofList (replicate (n + 1) 'f')
  serial t :=
    if t.toList ≠ [] ∧ t.toList.all (· = 'f') then some (t.toList.length - 1) else none
  serial_uuid n := by simp
  hashCode code := code
  hashPassword password := password
  comparePassword password hash := password = hash

def oneUser : AuthState where
  now := 0
  users email :=
    if email = "alice@example.com" then some ⟨⟨"a1", by decide⟩, some "secret", none⟩ else none

lemma init_oneUser : (authService sampleConfig).init oneUser :=
  ⟨0, _, rfl⟩

end Pokerhub.Auth
