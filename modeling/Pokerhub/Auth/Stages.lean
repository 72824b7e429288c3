import Mathlib.Data.List.Perm.Basic
import Pokerhub.Auth.Sessions

/-!
# The stages of the calls

What a call has in hand: the token it has read and still has to replace, the UUID it has drawn, the
tokens that it still has to revoke. Every call keeps to these stages (`follows_body`), and with the
stages of all calls under way the refresh keys are those of tokens that were handed out, each of
them once (`SessionsInv`).
-/

namespace Pokerhub.Auth

open AuthConfig List Program

inductive AuthStage where
  /-- Nothing more to do with tokens. -/
  | idle
  | reading (token : Token)
  /-- A refresh has read its token. -/
  | holding (token : Token) (userId : String) (role : Option Role)
  | issuing (parent : Token) (userId : String) (role : Option Role)
  | drawn (parent : Option Token) (userId : String) (role : Option Role) (token : Token)
  | stored (parent : Option Token)
  | entering (email : Email)
  | signing (userId : String)
  | marking (token : Token)
  | loggedOut (token : Token)
  | looking (email : Email)
  | known (userId : String)
  /-- The tokens that a `revokeAll` has listed and not yet read. -/
  | sweeping (userId : String) (tokens : List Token)
  | matched (userId : String) (token : Token) (tokens : List Token)

namespace AuthStage

def Allows : AuthStage → AuthCmd → Prop
  | reading t, c => c = .getRevoked t ∨ c = .getRefresh t
  | holding t _ _, c => c = .delRefresh t
  | issuing _ userId role, c => ∃ secret, c = .sign ⟨userId, role⟩ secret
  | drawn parent userId role t, c => c = .setRefresh t (refreshValue userId role) parent
  | stored _, c => ∃ t, c = .setRevoked t
  | entering email, c => c = .findUser email
  | signing userId, c =>
    c = .emitLogin userId ∨ c = .recordLogin userId ∨
      ∃ role secret, c = .sign ⟨userId, role⟩ secret
  | marking t, c => c = .setRevoked t ∨ c = .delRefresh t
  | looking email, c => c = .getReset email ∨ c = .findUser email
  | known _, c => c = .keys ∨ ∃ email password, c = .saveUser email password
  | sweeping _ (t :: _), c => c = .getRefresh t
  | sweeping _ [], c => ∃ email, c = .delReset email
  | matched _ t _, c => c = .delRefresh t
  | _, _ => False

/-- A refresh that has read a value. -/
def held (token : Token) (value : Option String) : AuthStage :=
  match parseRefreshValue value with
  | (some userId, role) => if userId = "" then .idle else .holding token userId role
  | (none, _) => .idle

/-- A `revokeAll` that has read a value. -/
def swept (userId : String) (token : Token) (tokens : List Token) (value : Option String) :
    AuthStage :=
  if (parseRefreshValue value).1 = some userId then .matched userId token tokens
  else .sweeping userId tokens

def next (config : AuthConfig) : AuthStage → (c : AuthCmd) → Option c.Answer → AuthStage
  | reading t, .getRevoked _, some false => .reading t
  | reading t, .getRefresh _, some value => held t value
  | holding t userId role, .delRefresh _, some _ =>
    if config.availableSecrets = [] then .idle else .issuing t userId role
  | issuing t userId role, .sign _ _, some pair =>
    .drawn (some t) userId role pair.refreshToken
  | drawn parent _ _ _, .setRefresh .., some _ => .stored parent
  | stored parent, .setRevoked _, some _ => .stored parent
  | entering _, .findUser _, some (some user) => .signing user.id.val
  | signing userId, .sign claims _, some pair => .drawn none userId claims.role pair.refreshToken
  | signing userId, _, some _ => .signing userId
  | marking t, .setRevoked _, some _ => .marking t
  | marking t, .delRefresh _, some _ => .loggedOut t
  | looking email, .getReset _, some _ => .looking email
  | looking _, .findUser _, some (some user) => .known user.id.val
  | known userId, .keys, some tokens => .sweeping userId tokens
  | known userId, .saveUser .., some _ => .known userId
  | sweeping userId (t :: ts), .getRefresh _, some value => swept userId t ts value
  | sweeping userId [], .delReset _, some _ => .sweeping userId []
  | matched userId _ ts, .delRefresh _, some _ => .sweeping userId ts
  | _, _, _ => .idle

end AuthStage

def sessionStages (config : AuthConfig) : Discipline AuthCmd.Answer AuthStage where
  allowed := AuthStage.Allows
  next := AuthStage.next config

/-- The end of a call: what was begun is finished, unless the call throws. -/
def Ends : Except String AuthReply → AuthStage → Prop
  | .ok (.tokens (some _)), l => ∃ parent, l = .stored parent
  | .ok .loggedOut, l => ∃ t, l = .loggedOut t
  | .ok .revokedAll, l | .ok (.reset true), l => ∃ userId, l = .sweeping userId []
  | _, .holding .. | _, .issuing .. | _, .drawn .. => False
  | _, .loggedOut _ | _, .sweeping .. | _, .matched .. => False
  | _, _ => True

namespace AuthStage

/-- There is a command to come. -/
def Unfinished : AuthStage → Prop
  | holding .. | issuing .. | drawn .. | matched .. | sweeping _ (_ :: _) => True
  | _ => False

end AuthStage

lemma not_ends {l : AuthStage} (h : l.Unfinished) (o : Except String AuthReply) : ¬ Ends o l := by
  cases l with
  | sweeping u tokens =>
    cases tokens with
    | nil => exact h.elim
    | cons t ts => rcases o with e | (_ | pair) | _ | _ | _ | _ <;> simp [Ends]
  | holding | issuing | drawn | matched =>
    rcases o with e | (_ | pair) | _ | _ | _ | _ <;> simp [Ends]
  | _ => exact h.elim

/-- A call that is not finished goes on with a command of its stage. -/
lemma call_of_follows {config : AuthConfig} {l : AuthStage} {p : AuthM AuthReply}
    (h : p.Follows (sessionStages config) Ends l) (hl : l.Unfinished) :
    ∃ c next, p = .call c next ∧ l.Allows c := by
  cases p with
  | ret reply => exact absurd h (not_ends hl _)
  | raise e => exact absurd h (not_ends hl _)
  | call c next => exact ⟨c, next, rfl, h.1⟩

/-- The stage in which a call starts. -/
def firstStage : AuthCall → AuthStage
  | .login email _ => .entering email
  | .refresh t => .reading t
  | .logout t => .marking t
  | .revokeAll userId => .known userId
  | .resetPassword email _ _ => .looking email

/-! ### The calls keep to the stages -/

section Calls

variable {config : AuthConfig} {l : AuthStage}

/-- The rule for one command and what follows it. -/
lemma follows_authRun {α : Type} {Q : Except String α → AuthStage → Prop} {c : AuthCmd}
    {f : c.Answer → AuthM α} (hc : l.Allows c)
    (hok : ∀ a, (f a).Follows (sessionStages config) Q (l.next config c (some a)))
    (hfail : Q (.error "command failed") (l.next config c none)) :
    (authRun c >>= f).Follows (sessionStages config) Q l :=
  follows_command_bind hc hok hfail

lemma follows_issueTokens {Q : Except String TokenPair → AuthStage → Prop} {userId : String}
    {role : Option Role} {parent : Option Token}
    (hsign : ∀ secret, l.Allows (.sign ⟨userId, role⟩ secret))
    (hdrawn : ∀ secret pair, l.next config (.sign ⟨userId, role⟩ secret) (some pair) =
      .drawn parent userId role pair.refreshToken)
    (hidle : ∀ secret, l.next config (.sign ⟨userId, role⟩ secret) none = .idle)
    (hnone : config.availableSecrets = [] → Q (.error "JWT secrets not configured") l)
    (hstored : ∀ pair, Q (.ok pair) (.stored parent))
    (hfail : Q (.error "command failed") .idle) :
    (config.issueTokens userId role parent).Follows (sessionStages config) Q l := by
  unfold issueTokens
  split
  · rename_i hsecrets
    exact hnone hsecrets
  · apply follows_authRun
    · exact hsign _
    · intro pair
      rw [hdrawn]
      apply follows_authRun
      · exact rfl
      · exact fun _ => hstored pair
      · exact hfail
    · rw [hidle]
      exact hfail

lemma follows_rotate {t : Token} :
    (config.rotate t).Follows (sessionStages config) (fun
      | .ok (some _), l => l = .stored (some t)
      | _, l => l = .idle) (.reading t) := by
  apply follows_authRun
  · exact Or.inr rfl
  · intro stored
    show Program.Follows _ _ _ (AuthStage.held t stored)
    unfold AuthStage.held
    match parseRefreshValue stored with
    | (none, role) => exact rfl
    | (some userId, role) =>
      dsimp only
      split_ifs with hempty
      · exact rfl
      · apply follows_authRun
        · exact rfl
        · intro _
          show Program.Follows _ _ _ (if config.availableSecrets = [] then _ else _)
          apply follows_bind
          split_ifs with hsecrets
          · unfold issueTokens
            rw [hsecrets]
            exact rfl
          · apply follows_issueTokens
            · exact fun secret => ⟨secret, rfl⟩
            · exact fun _ _ => rfl
            · exact fun _ => rfl
            · exact fun h => absurd h hsecrets
            · exact fun _ => rfl
            · rfl
        · rfl
  · rfl

lemma follows_refresh {t : Token} :
    (AuthCall.body config (.refresh t)).Follows (sessionStages config) Ends (.reading t) := by
  apply follows_bind
  apply follows_authRun
  · exact Or.inl rfl
  · intro revoked
    cases revoked with
    | true => trivial
    | false =>
      apply follows_bind
      apply follows_rotate.mono
      rintro (e | _ | pair) l hl
      · subst hl
        trivial
      · subst hl
        trivial
      · subst hl
        apply follows_authRun
        · exact ⟨t, rfl⟩
        · exact fun _ => ⟨some t, rfl⟩
        · trivial
  · trivial

lemma follows_login {email : Email} {password : String} :
    (AuthCall.body config (.login email password)).Follows (sessionStages config) Ends
      (.entering email) := by
  apply follows_bind
  apply follows_authRun
  · exact rfl
  · rintro (_ | user)
    · trivial
    · dsimp only
      split_ifs
      · apply follows_authRun
        · exact Or.inl rfl
        · intro _
          apply follows_authRun
          · exact Or.inr (Or.inl rfl)
          · intro _
            apply follows_bind
            apply follows_issueTokens
            · exact fun secret => Or.inr (Or.inr ⟨_, secret, rfl⟩)
            · exact fun _ _ => rfl
            · exact fun _ => rfl
            · exact fun _ => trivial
            · exact fun _ => ⟨none, rfl⟩
            · trivial
          · trivial
        · trivial
      · trivial
  · trivial

lemma follows_logout {t : Token} :
    (AuthCall.body config (.logout t)).Follows (sessionStages config) Ends (.marking t) := by
  apply follows_bind
  apply follows_authRun
  · exact Or.inl rfl
  · intro _
    apply follows_command
    · exact Or.inr rfl
    · exact fun _ => ⟨t, rfl⟩
    · trivial
  · trivial

/-- The loop of `revokeAll`. -/
lemma follows_revokeKeys {userId : String} (tokens : List Token) :
    (forEach (revokeKey userId) tokens).Follows (sessionStages config) (fun
      | .ok _, l => l = .sweeping userId []
      | .error _, l => l = .idle) (.sweeping userId tokens) := by
  induction tokens with
  | nil => rfl
  | cons t ts ih =>
    apply follows_bind
    apply follows_authRun
    · exact rfl
    · intro stored
      show Program.Follows _ _ _ (AuthStage.swept userId t ts stored)
      unfold AuthStage.swept
      split_ifs
      · apply follows_command
        · rfl
        · exact fun _ => ih
        · rfl
      · exact ih
    · rfl

lemma follows_revokeAll {userId : String} :
    (AuthConfig.revokeAll userId).Follows (sessionStages config) (fun
      | .ok _, l => l = .sweeping userId []
      | .error _, l => l = .idle) (.known userId) := by
  apply follows_authRun
  · exact Or.inl rfl
  · exact fun tokens => follows_revokeKeys tokens
  · rfl

lemma follows_resetPassword {email : Email} {code password : String} :
    (AuthCall.body config (.resetPassword email code password)).Follows (sessionStages config) Ends
      (.looking email) := by
  apply follows_bind
  apply follows_bind
  apply follows_authRun
  · exact Or.inl rfl
  · intro stored
    show Program.Follows _ _ (if _ then _ else _) _
    split_ifs
    · apply follows_authRun
      · exact Or.inr rfl
      · rintro (_ | user)
        · trivial
        · apply follows_authRun
          · exact Or.inr ⟨_, _, rfl⟩
          · intro _
            apply follows_bind
            apply follows_revokeAll.mono
            rintro (e | _) l hl
            · subst hl
              trivial
            · subst hl
              apply follows_authRun
              · exact ⟨email, rfl⟩
              · exact fun _ => ⟨_, rfl⟩
              · trivial
          · trivial
      · trivial
    · trivial
  · trivial

/-- Every call keeps to the stages. -/
lemma follows_body (r : AuthCall) :
    (r.body config).Follows (sessionStages config) Ends (firstStage r) := by
  cases r with
  | login => exact follows_login
  | refresh => exact follows_refresh
  | logout => exact follows_logout
  | revokeAll userId =>
    apply follows_bind
    apply follows_revokeAll.mono
    rintro (e | _) l hl
    · subst hl
      trivial
    · subst hl
      exact ⟨userId, rfl⟩
  | resetPassword => exact follows_resetPassword

end Calls

/-! ### The tokens that are handed out -/

namespace AuthStage

/-- The UUID that is drawn and not yet stored. -/
def pending : AuthStage → Option Token
  | drawn _ _ _ t => some t
  | _ => none

/-- The token that was read and is not yet replaced, with its user. -/
def claim : AuthStage → Option (Token × String)
  | holding t userId _ => some (t, userId)
  | issuing t userId _ => some (t, userId)
  | drawn (some t) userId _ _ => some (t, userId)
  | _ => none

/-- The user whose id is in hand. -/
def userId : AuthStage → Option String
  | holding _ userId _ | issuing _ userId _ | drawn _ userId _ _ => some userId
  | signing userId | known userId | sweeping userId _ | matched userId _ _ => some userId
  | _ => none

/-- The stages of a call. -/
def Fits (s : AuthState) : AuthCall → AuthStage → Prop
  | _, idle => True
  | .refresh t, reading t' | .refresh t, holding t' _ _ | .refresh t, issuing t' _ _ => t' = t
  | .refresh t, drawn parent _ _ _ | .refresh t, stored parent => parent = some t
  | .login email _, entering email' => email' = email
  | .login _ _, signing _ => True
  | .login _ _, drawn parent _ _ _ | .login _ _, stored parent => parent = none
  | .logout t, marking t' | .logout t, loggedOut t' => t' = t
  | .revokeAll userId, known userId' | .revokeAll userId, sweeping userId' _
  | .revokeAll userId, matched userId' _ _ => userId' = userId
  | .resetPassword email _ _, looking email' => email' = email
  | .resetPassword email _ _, known userId | .resetPassword email _ _, sweeping userId _
  | .resetPassword email _ _, matched userId _ _ =>
    (s.users email).map (·.id.val) = some userId
  | _, _ => False

end AuthStage

/-- The tokens that are handed out, or drawn. -/
def tokens (s : AuthState) (ls : List (AuthCall × AuthStage)) : List Token :=
  ls.filterMap (·.2.pending) ++ s.issues.map (·.token)

/-- The token is one of the user's. -/
def AuthState.OwnedBy (s : AuthState) (t : Token) (userId : String) : Prop :=
  ∃ issue ∈ s.issues, issue.token = t ∧ issue.userId = some userId

structure SessionsInv (config : AuthConfig) (s : AuthState) (ls : List (AuthCall × AuthStage)) :
    Prop where
  fits : ∀ rl ∈ ls, rl.2.Fits s rl.1
  users : ∀ rl ∈ ls, ∀ u ∈ rl.2.userId, IsUserId u
  below : ∀ t ∈ tokens s ls, ∃ n < s.drawn, config.uuid n = t
  distinct : (tokens s ls).Nodup
  owned : ∀ issue ∈ s.issues, ∃ u, IsUserId u ∧ issue.userId = some u
  live : ∀ e ∈ s.refresh, ∃ issue ∈ s.issues, issue.token = e.1 ∧ issue.value = e.2.1
  claims : ∀ rl ∈ ls, ∀ x ∈ rl.2.claim, s.OwnedBy x.1 x.2
  parents : ∀ issue ∈ s.issues, ∀ p ∈ issue.parent, ∀ u ∈ issue.userId, s.OwnedBy p u

section Tokens

variable {config : AuthConfig} {s s' : AuthState} {ls ls' : List (AuthCall × AuthStage)}
  {r : AuthCall} {l l' : AuthStage} {c : AuthCmd} {t : Token}

lemma tokens_perm (h : ls ~ ls') : tokens s ls ~ tokens s ls' :=
  (h.filterMap _).append_right _

lemma SessionsInv.perm (h : SessionsInv config s ls) (hperm : ls ~ ls') :
    SessionsInv config s ls' where
  fits rl hrl := h.fits rl (hperm.mem_iff.mpr hrl)
  users rl hrl := h.users rl (hperm.mem_iff.mpr hrl)
  below t ht := h.below t ((tokens_perm hperm).mem_iff.mpr ht)
  distinct := (tokens_perm hperm).nodup_iff.mp h.distinct
  owned := h.owned
  live := h.live
  claims rl hrl := h.claims rl (hperm.mem_iff.mpr hrl)
  parents := h.parents

/-- The name of a user never changes. -/
structure SameUsers (s s' : AuthState) : Prop where
  ids : ∀ email, (s'.users email).map (·.id.val) = (s.users email).map (·.id.val)

lemma SameUsers.of_eq (h : s'.users = s.users) : SameUsers s s' :=
  ⟨fun _ => by rw [h]⟩

lemma AuthStage.Fits.congr (h : l.Fits s r) (hids : SameUsers s s') : l.Fits s' r := by
  cases r <;> cases l <;> first
    | exact h
    | exact (hids.ids _).trans h

/-- The keys may get fewer, and one call may go on. -/
lemma SessionsInv.move (h : SessionsInv config s ((r, l) :: ls))
    (hrefresh : ∀ e ∈ s'.refresh, e ∈ s.refresh) (hissues : s'.issues = s.issues)
    (hdrawn : s'.drawn = s.drawn) (hids : SameUsers s s') (hfits : l'.Fits s r)
    (husers : ∀ u ∈ l'.userId, IsUserId u) (hpending : l'.pending = none)
    (hclaim : ∀ x ∈ l'.claim, s.OwnedBy x.1 x.2) : SessionsInv config s' ((r, l') :: ls) := by
  have htokens : tokens s' ((r, l') :: ls) <+ tokens s ((r, l) :: ls) := by
    have hcons : ((r, l') :: ls).filterMap (·.2.pending) = ls.filterMap (·.2.pending) :=
      filterMap_cons_none hpending
    rw [tokens, tokens, hissues, hcons]
    exact ((sublist_cons_self _ _).filterMap _).append_right _
  have howned : ∀ t u, s.OwnedBy t u → s'.OwnedBy t u := by
    intro t u hu
    rw [AuthState.OwnedBy, hissues]
    exact hu
  constructor
  · intro rl hrl
    rcases mem_cons.mp hrl with rfl | hrl
    · exact hfits.congr hids
    · exact (h.fits rl (mem_cons_of_mem _ hrl)).congr hids
  · intro rl hrl
    rcases mem_cons.mp hrl with rfl | hrl
    · exact husers
    · exact h.users rl (mem_cons_of_mem _ hrl)
  · intro t ht
    rw [hdrawn]
    exact h.below t (htokens.subset ht)
  · exact h.distinct.sublist htokens
  · rw [hissues]
    exact h.owned
  · intro e he
    rw [hissues]
    exact h.live e (hrefresh e he)
  · intro rl hrl x hx
    rcases mem_cons.mp hrl with rfl | hrl
    · exact howned _ _ (hclaim x hx)
    · exact howned _ _ (h.claims rl (mem_cons_of_mem _ hrl) x hx)
  · intro issue hissue p hp u hu
    rw [hissues] at hissue
    exact howned _ _ (h.parents issue hissue p hp u hu)

/-- A call has nothing more to do with tokens. -/
lemma SessionsInv.leave (h : SessionsInv config s ((r, l) :: ls)) :
    SessionsInv config s ((r, .idle) :: ls) :=
  h.move (fun _ he => he) rfl rfl (.of_eq rfl) trivial (fun _ hu => nomatch hu) rfl
    (fun _ hx => nomatch hx)

/-- A UUID is drawn. -/
lemma SessionsInv.draw {parent : Option Token} {u : String} {role : Option Role}
    (h : SessionsInv config s ((r, l) :: ls)) (hpending : l.pending = none)
    (hfits : (AuthStage.drawn parent u role (config.uuid s.drawn)).Fits s r) (hu : IsUserId u)
    (hclaim : ∀ p ∈ parent, s.OwnedBy p u) :
    SessionsInv config { s with drawn := s.drawn + 1 }
      ((r, .drawn parent u role (config.uuid s.drawn)) :: ls) := by
  have htokens : tokens s ((r, l) :: ls) = tokens s ls := by
    have hcons : ((r, l) :: ls).filterMap (·.2.pending) = ls.filterMap (·.2.pending) :=
      filterMap_cons_none hpending
    rw [tokens, tokens, hcons]
  have hdistinct := h.distinct
  rw [htokens] at hdistinct
  have hnew : config.uuid s.drawn ∉ tokens s ls := by
    intro hmem
    obtain ⟨n, hn, heq⟩ := h.below _ (htokens ▸ hmem)
    have hserial := config.serial_uuid n
    rw [heq, config.serial_uuid] at hserial
    exact hn.ne' (Option.some.inj hserial)
  constructor
  · intro rl hrl
    rcases mem_cons.mp hrl with rfl | hrl
    · exact hfits.congr ⟨fun _ => rfl⟩
    · exact (h.fits rl (mem_cons_of_mem _ hrl)).congr ⟨fun _ => rfl⟩
  · intro rl hrl u' hu'
    rcases mem_cons.mp hrl with rfl | hrl
    · cases hu'
      exact hu
    · exact h.users rl (mem_cons_of_mem _ hrl) u' hu'
  · intro t ht
    rcases mem_cons.mp ht with rfl | ht
    · exact ⟨s.drawn, Nat.lt_succ_self _, rfl⟩
    · obtain ⟨n, hn, heq⟩ := h.below t (htokens ▸ ht)
      exact ⟨n, hn.trans (Nat.lt_succ_self _), heq⟩
  · exact nodup_cons.mpr ⟨hnew, hdistinct⟩
  · exact h.owned
  · exact h.live
  · intro rl hrl x hx
    rcases mem_cons.mp hrl with rfl | hrl
    · cases parent with
      | none => cases hx
      | some p =>
        cases hx
        exact hclaim p rfl
    · exact h.claims rl (mem_cons_of_mem _ hrl) x hx
  · exact h.parents

/-- The new token is stored. -/
lemma SessionsInv.store {parent : Option Token} {u : String} {role : Option Role}
    (h : SessionsInv config s ((r, .drawn parent u role t) :: ls)) :
    SessionsInv config
      (AuthCmd.exec config (.setRefresh t (refreshValue u role) parent) s).2
      ((r, .stored parent) :: ls) := by
  have hu : IsUserId u := h.users _ mem_cons_self u rfl
  have huser : (parseRefreshValue (some (refreshValue u role))).1 = some u := by
    rw [parseRefreshValue_refreshValue hu]
  have htokens : tokens (AuthCmd.exec config (.setRefresh t (refreshValue u role) parent) s).2
      ((r, .stored parent) :: ls) ~ tokens s ((r, .drawn parent u role t) :: ls) := by
    simp only [tokens, AuthCmd.exec, AuthStage.pending, filterMap_cons, map_append, map_cons,
      map_nil]
    rw [← append_assoc]
    exact perm_append_singleton _ _
  have howned : ∀ p u', s.OwnedBy p u' →
      (AuthCmd.exec config (.setRefresh t (refreshValue u role) parent) s).2.OwnedBy p u' := by
    rintro p u' ⟨issue, hissue, hp⟩
    exact ⟨issue, mem_append_left _ hissue, hp⟩
  constructor
  · intro rl hrl
    rcases mem_cons.mp hrl with rfl | hrl
    · have hfits := h.fits _ mem_cons_self
      cases r <;> exact hfits
    · exact (h.fits rl (mem_cons_of_mem _ hrl)).congr ⟨fun _ => rfl⟩
  · intro rl hrl u' hu'
    rcases mem_cons.mp hrl with rfl | hrl
    · cases hu'
    · exact h.users rl (mem_cons_of_mem _ hrl) u' hu'
  · exact fun t' ht' => h.below t' (htokens.mem_iff.mp ht')
  · exact htokens.nodup_iff.mpr h.distinct
  · intro issue hissue
    rcases mem_append.mp hissue with hissue | hissue
    · exact h.owned issue hissue
    · rw [mem_singleton.mp hissue]
      exact ⟨u, hu, huser⟩
  · intro e he
    rcases mem_append.mp he with he | he
    · obtain ⟨issue, hissue, heq⟩ := h.live e (mem_filter.mp he).1
      exact ⟨issue, mem_append_left _ hissue, heq⟩
    · rw [mem_singleton.mp he]
      exact ⟨_, mem_append_right _ mem_cons_self, rfl, rfl⟩
  · intro rl hrl x hx
    rcases mem_cons.mp hrl with rfl | hrl
    · cases hx
    · exact howned _ _ (h.claims rl (mem_cons_of_mem _ hrl) x hx)
  · intro issue hissue p hp u' hu'
    rcases mem_append.mp hissue with hissue | hissue
    · exact howned _ _ (h.parents issue hissue p hp u' hu')
    · rw [mem_singleton.mp hissue] at hp hu'
      obtain rfl : u = u' := Option.some.inj (huser.symm.trans hu')
      obtain rfl : parent = some p := hp
      exact howned _ _ (h.claims _ mem_cons_self (p, u) rfl)

/-- What is read under a key was written with it. -/
lemma SessionsInv.lookup (h : SessionsInv config s ls) {value : String}
    (hvalue : (s.refresh.lookup t).map (·.1) = some value) :
    ∃ u, IsUserId u ∧ (parseRefreshValue (some value)).1 = some u ∧ s.OwnedBy t u := by
  obtain ⟨e, he, rfl⟩ := Option.map_eq_some_iff.mp hvalue
  obtain ⟨before, after, hsplit, -⟩ := lookup_eq_some_iff.mp he
  have hmem : (t, e) ∈ s.refresh := by
    rw [hsplit]
    exact mem_append_right _ mem_cons_self
  obtain ⟨issue, hissue, htoken, hsame⟩ := h.live (t, e) hmem
  obtain ⟨u, hu, howner⟩ := h.owned issue hissue
  refine ⟨u, hu, ?_, issue, hissue, htoken, howner⟩
  rw [← hsame]
  exact howner

/-- The stage after a refresh has read its key. -/
lemma SessionsInv.held (h : SessionsInv config s ((r, .reading t) :: ls)) :
    SessionsInv config s ((r, .held t ((s.refresh.lookup t).map (·.1))) :: ls) := by
  unfold AuthStage.held
  cases hvalue : (s.refresh.lookup t).map (·.1) with
  | none => exact h.leave
  | some value =>
    obtain ⟨u, hu, hparse, howned⟩ := h.lookup hvalue
    obtain ⟨role, hpair⟩ : ∃ role, parseRefreshValue (some value) = (some u, role) :=
      ⟨_, Prod.ext hparse rfl⟩
    rw [hpair]
    dsimp only
    split_ifs
    · exact h.leave
    · apply h.move (fun _ he => he) rfl rfl ⟨fun _ => rfl⟩
      · have hfits := h.fits _ mem_cons_self
        cases r <;> exact hfits
      · rintro u' hu'
        cases hu'
        exact hu
      · rfl
      · rintro x hx
        cases hx
        exact howned

/-- The stages of a `revokeAll`. -/
lemma SessionsInv.sweep {u : String} (h : SessionsInv config s ((r, l) :: ls))
    (hrefresh : ∀ e ∈ s'.refresh, e ∈ s.refresh) (hissues : s'.issues = s.issues)
    (hdrawn : s'.drawn = s.drawn) (hids : SameUsers s s') (hl : l.userId = some u)
    (hl' : l'.userId = some u) (hfits : l.Fits s r → l'.Fits s r) (hpending : l'.pending = none)
    (hclaim : l'.claim = none) : SessionsInv config s' ((r, l') :: ls) := by
  apply h.move hrefresh hissues hdrawn hids (hfits (h.fits _ mem_cons_self)) _ hpending
  · intro x hx
    rw [hclaim] at hx
    cases hx
  · intro u' hu'
    rw [hl'] at hu'
    cases hu'
    exact h.users _ mem_cons_self u hl

lemma sameUsers_saveUser (config : AuthConfig) (s : AuthState) (email : Email)
    (password : String) : SameUsers s (AuthCmd.exec config (.saveUser email password) s).2 := by
  constructor
  intro email'
  by_cases hemail : email' = email
  · subst hemail
    cases huser : s.users email' <;> simp [AuthCmd.exec, huser]
  · simp [AuthCmd.exec, Function.update_of_ne hemail]

/-- A command of a call. -/
lemma SessionsInv.call (h : SessionsInv config s ((r, l) :: ls)) (hallowed : l.Allows c) :
    SessionsInv config (c.exec config s).2
      ((r, l.next config c (some (c.exec config s).1)) :: ls) := by
  have hfits := h.fits _ mem_cons_self
  have husers := h.users _ mem_cons_self
  have hclaims := h.claims _ mem_cons_self
  cases l with
  | idle => exact hallowed.elim
  | loggedOut t => exact hallowed.elim
  | reading t =>
    rcases hallowed with rfl | rfl
    · show SessionsInv config s ((r, AuthStage.next config (.reading t) (.getRevoked t)
        (some (s.revoked t).isSome)) :: ls)
      cases (s.revoked t).isSome with
      | true => exact h.leave
      | false => exact h
    · exact h.held
  | holding t u role =>
    obtain rfl : c = .delRefresh t := hallowed
    show SessionsInv config (AuthCmd.exec config (.delRefresh t) s).2
      ((r, if config.availableSecrets = [] then .idle else .issuing t u role) :: ls)
    have hmem : ∀ e ∈ (AuthCmd.exec config (.delRefresh t) s).2.refresh, e ∈ s.refresh :=
      fun _ he => (mem_filter.mp he).1
    split_ifs
    · exact h.move hmem rfl rfl (.of_eq rfl) trivial (fun _ hu => nomatch hu) rfl
        fun _ hx => nomatch hx
    · exact h.move hmem rfl rfl (.of_eq rfl) (by cases r <;> exact hfits) husers rfl hclaims
  | issuing t u role =>
    obtain ⟨secret, rfl⟩ := hallowed
    apply h.draw rfl
    · cases r <;> first
        | exact congrArg some hfits
        | exact hfits.elim
    · exact husers u rfl
    · rintro p hp
      cases hp
      exact hclaims (t, u) rfl
  | drawn parent u role t =>
    obtain rfl : c = .setRefresh t (refreshValue u role) parent := hallowed
    exact h.store
  | stored parent =>
    obtain ⟨t, rfl⟩ := hallowed
    exact h.move (fun _ he => he) rfl rfl (.of_eq rfl) hfits husers rfl hclaims
  | entering email =>
    obtain rfl : c = .findUser email := hallowed
    show SessionsInv config s ((r, AuthStage.next config (.entering email) (.findUser email)
      (some (s.users email))) :: ls)
    cases s.users email with
    | none => exact h.leave
    | some user =>
      apply h.move (fun _ he => he) rfl rfl (.of_eq rfl)
      · cases r <;> trivial
      · rintro u hu
        cases hu
        exact user.id.hex
      · rfl
      · exact fun _ hx => nomatch hx
  | signing u =>
    rcases hallowed with rfl | rfl | ⟨role, secret, rfl⟩
    · exact h
    · exact h
    · apply h.draw rfl
      · cases r <;> first
          | rfl
          | exact hfits.elim
      · exact husers u rfl
      · exact fun _ hp => nomatch hp
  | marking t =>
    rcases hallowed with rfl | rfl
    · exact h.move (fun _ he => he) rfl rfl (.of_eq rfl) hfits husers rfl hclaims
    · exact h.move (fun _ he => (mem_filter.mp he).1) rfl rfl (.of_eq rfl) (by cases r <;> exact hfits)
        (fun _ hu => nomatch hu) rfl (fun _ hx => nomatch hx)
  | looking email =>
    rcases hallowed with rfl | rfl
    · exact h
    · show SessionsInv config s ((r, AuthStage.next config (.looking email) (.findUser email)
        (some (s.users email))) :: ls)
      cases huser : s.users email with
      | none => exact h.leave
      | some user =>
        apply h.move (fun _ he => he) rfl rfl (.of_eq rfl)
        · cases r <;> first
            | exact hfits.elim
            | skip
          obtain rfl : email = _ := hfits
          exact congrArg (Option.map fun user : User => user.id.val) huser
        · rintro u hu
          cases hu
          exact user.id.hex
        · rfl
        · exact fun _ hx => nomatch hx
  | known u =>
    rcases hallowed with rfl | ⟨email, password, rfl⟩
    · exact h.sweep (fun _ he => he) rfl rfl (.of_eq rfl) rfl rfl (by cases r <;> exact id) rfl rfl
    · exact h.sweep (fun _ he => he) rfl rfl (sameUsers_saveUser config s email password) rfl rfl
        id rfl rfl
  | sweeping u tokens =>
    cases tokens with
    | nil =>
      obtain ⟨email, rfl⟩ := hallowed
      exact h.sweep (fun _ he => he) rfl rfl (.of_eq rfl) rfl rfl id rfl rfl
    | cons t ts =>
      obtain rfl : c = .getRefresh t := hallowed
      show SessionsInv config s ((r, AuthStage.swept u t ts _) :: ls)
      unfold AuthStage.swept
      split_ifs
      · exact h.sweep (fun _ he => he) rfl rfl (.of_eq rfl) rfl rfl (by cases r <;> exact id) rfl rfl
      · exact h.sweep (fun _ he => he) rfl rfl (.of_eq rfl) rfl rfl (by cases r <;> exact id) rfl rfl
  | matched u t ts =>
    obtain rfl : c = .delRefresh t := hallowed
    exact h.sweep (fun _ he => (mem_filter.mp he).1) rfl rfl (.of_eq rfl) rfl rfl
      (by cases r <;> exact id) rfl rfl

lemma next_none (c : AuthCmd) : l.next config c none = .idle := by
  cases l with
  | sweeping userId tokens => cases tokens <;> cases c <;> rfl
  | _ => cases c <;> rfl

lemma SessionsInv.initial (h : (authService config).init s) : SessionsInv config s [] := by
  obtain ⟨now, users, rfl⟩ := h
  constructor <;> simp [tokens]

lemma SessionsInv.start (h : SessionsInv config s ls) (hready : (authService config).ready s r) :
    SessionsInv config s (ls ++ [(r, firstStage r)]) := by
  have htokens : tokens s (ls ++ [(r, firstStage r)]) = tokens s ls := by
    cases r <;> simp [tokens, firstStage, AuthStage.pending]
  have hmem : ∀ rl ∈ ls ++ [(r, firstStage r)], rl ∈ ls ∨ rl = (r, firstStage r) := by
    intro rl hrl
    exact (mem_append.mp hrl).imp_right mem_singleton.mp
  constructor
  · intro rl hrl
    rcases hmem rl hrl with hrl | rfl
    · exact h.fits rl hrl
    · cases r <;> rfl
  · intro rl hrl u hu
    rcases hmem rl hrl with hrl | rfl
    · exact h.users rl hrl u hu
    · cases r with
      | revokeAll userId =>
        cases hu
        exact hready
      | _ => cases hu
  · rw [htokens]
    exact h.below
  · rw [htokens]
    exact h.distinct
  · exact h.owned
  · exact h.live
  · intro rl hrl x hx
    rcases hmem rl hrl with hrl | rfl
    · exact h.claims rl hrl x hx
    · cases r <;> cases hx
  · exact h.parents

lemma SessionsInv.env (h : SessionsInv config s ls) (henv : AuthState.Env config s s') :
    SessionsInv config s' ls := by
  have hkeep : ∀ refresh : List (Token × String × ℕ), (∀ e ∈ refresh, e ∈ s.refresh) →
      SessionsInv config { s with refresh := refresh } ls := by
    intro refresh hrefresh
    exact ⟨fun rl hrl => (h.fits rl hrl).congr ⟨fun _ => rfl⟩, h.users, h.below, h.distinct,
      h.owned, fun e he => h.live e (hrefresh e he), h.claims, h.parents⟩
  cases henv with
  | expire token => exact hkeep _ fun _ he => (mem_filter.mp he).1
  | reorder refresh hperm => exact hkeep _ fun _ he => hperm.mem_iff.mpr he
  | _ =>
    exact ⟨fun rl hrl => (h.fits rl hrl).congr ⟨fun _ => rfl⟩, h.users, h.below, h.distinct,
      h.owned, h.live, h.claims, h.parents⟩

end Tokens

end Pokerhub.Auth
