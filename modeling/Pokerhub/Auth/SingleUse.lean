import Mathlib.Data.List.Nodup
import Pokerhub.Auth.Stages

/-!
# Refresh tokens are used once

A refresh reads the key of its token and deletes it with the next command. If no other refresh
reads the key in between, at most one refresh of a token returns a new pair, whatever else runs
(`single_use`); two refreshes that both read first both return one.
-/

namespace Pokerhub.Auth

open List Program

/-- The next command of the program deletes the key of the token. -/
def DeletesNext (t : Token) : AuthM AuthReply → Prop
  | .call (.delRefresh t') _ => t' = t
  | _ => False

/-- No refresh reads a token that another refresh has read and is about to delete. -/
def ReadsAlone (P : Pool AuthCmd.Answer String AuthReply AuthState AuthCall) :
    Service.Action AuthCall AuthCmd → Prop
  | .call (.refresh _) (.getRefresh t) =>
    ∀ u ∈ P.threads, u.1 = .refresh t → ¬ DeletesNext t u.2
  | _ => True

instance (t : Token) : (p : AuthM AuthReply) → Decidable (DeletesNext t p)
  | .call (.delRefresh t') _ => inferInstanceAs (Decidable (t' = t))
  | .call (.getRevoked _) _ | .call (.setRevoked _) _ | .call (.getRefresh _) _
  | .call (.setRefresh ..) _ | .call .keys _ | .call (.getReset _) _ | .call (.delReset _) _
  | .call (.sign ..) _ | .call (.findUser _) _ | .call (.saveUser ..) _ | .call (.emitLogin _) _
  | .call (.recordLogin _) _ | .ret _ | .raise _ => isFalse id

instance (P : Pool AuthCmd.Answer String AuthReply AuthState AuthCall)
    (a : Service.Action AuthCall AuthCmd) : Decidable (ReadsAlone P a) := by
  unfold ReadsAlone
  split <;> infer_instance

/-- The call has returned a new pair. -/
def Returned : AuthM AuthReply → Bool
  | .ret (.tokens (some _)) => true
  | _ => false

/-- How many refreshes of a token have returned a new pair. -/
def exchanges (P : Pool AuthCmd.Answer String AuthReply AuthState AuthCall) (t : Token) : ℕ :=
  P.threads.countP fun u => u.1 = .refresh t ∧ Returned u.2

namespace AuthStage

/-- The token that a refresh has read and replaces, or has replaced. -/
def uses : AuthStage → Option Token
  | holding t _ _ | issuing t _ _ => some t
  | drawn parent _ _ _ | stored parent => parent
  | _ => none

/-- The token whose key a refresh has deleted. -/
def spends : AuthStage → Option Token
  | issuing t _ _ => some t
  | drawn parent _ _ _ | stored parent => parent
  | _ => none

end AuthStage

/-- A token is read by one refresh at most, and its key does not come back. -/
structure Once (s : AuthState) (ls : List (AuthCall × AuthStage)) : Prop where
  once : (ls.filterMap (·.2.uses)).Nodup
  spent : ∀ rl ∈ ls, ∀ t ∈ rl.2.spends,
    (∀ e ∈ s.refresh, e.1 ≠ t) ∧ ∃ issue ∈ s.issues, issue.token = t

section Once

variable {config : AuthConfig} {s s' : AuthState} {ls ls' : List (AuthCall × AuthStage)}
  {r : AuthCall} {l l' : AuthStage} {c : AuthCmd} {t : Token}

lemma Once.perm (h : Once s ls) (hperm : ls ~ ls') : Once s ls' where
  once := (hperm.filterMap _).nodup_iff.mp h.once
  spent rl hrl := h.spent rl (hperm.mem_iff.mpr hrl)

/-- Only the refresh keys and the issued tokens matter. -/
lemma Once.congr (h : Once s ls)
    (hrefresh : ∀ rl ∈ ls, ∀ t ∈ rl.2.spends, ∀ e ∈ s'.refresh, e.1 = t → e ∈ s.refresh)
    (hissues : ∀ issue ∈ s.issues, issue ∈ s'.issues) : Once s' ls where
  once := h.once
  spent rl hrl t ht := by
    obtain ⟨habsent, issue, hissue, htoken⟩ := h.spent rl hrl t ht
    exact ⟨fun e he heq => habsent e (hrefresh rl hrl t ht e he heq) heq, issue,
      hissues issue hissue, htoken⟩

/-- A call goes on with the token that it has, or leaves it. -/
lemma Once.move (h : Once s ((r, l) :: ls)) (huses : ∀ t ∈ l'.uses, t ∈ l.uses)
    (hspends : ∀ t ∈ l'.spends, (∀ e ∈ s.refresh, e.1 ≠ t) ∧ ∃ issue ∈ s.issues, issue.token = t) :
    Once s ((r, l') :: ls) where
  once := by
    refine Nodup.sublist ?_ h.once
    cases huse : l'.uses with
    | none =>
      simp only [filterMap_cons, huse]
      exact (sublist_cons_self (r, l) ls).filterMap _
    | some t =>
      have hbefore : l.uses = some t := huses t huse
      simp [huse, hbefore]
  spent rl hrl := by
    rcases mem_cons.mp hrl with rfl | hrl
    · exact hspends
    · exact h.spent rl (mem_cons_of_mem _ hrl)

/-- The refresh has read its key. -/
lemma Once.held (h : Once s ((r, .reading t) :: ls)) {u : String} {role : Option Role}
    (hlive : ∃ e ∈ s.refresh, e.1 = t)
    (halone : ∀ rl ∈ ls, ∀ u role, rl.2 ≠ .holding t u role) :
    Once s ((r, .holding t u role) :: ls) where
  once := by
    refine nodup_cons.mpr ⟨fun hmem => ?_, h.once⟩
    obtain ⟨rl, hrl, huse⟩ := mem_filterMap.mp hmem
    obtain ⟨e, he, heq⟩ := hlive
    have hspent : ∀ t' ∈ rl.2.spends, t' ≠ t := by
      rintro t' ht' rfl
      exact (h.spent rl (mem_cons_of_mem _ hrl) t' ht').1 e he heq
    cases hl : rl.2 with
    | holding t' u role =>
      rw [hl] at huse
      cases huse
      exact halone rl hrl u role hl
    | issuing | drawn | stored =>
      rw [hl] at huse hspent
      exact hspent t huse rfl
    | _ =>
      rw [hl] at huse
      cases huse
  spent rl hrl t' ht' := by
    rcases mem_cons.mp hrl with rfl | hrl
    · cases ht'
    · exact h.spent rl (mem_cons_of_mem _ hrl) t' ht'

lemma exec_issues (c : AuthCmd) : ∀ issue ∈ s.issues, issue ∈ (c.exec config s).2.issues := by
  intro issue hissue
  cases c with
  | setRefresh => exact mem_append_left _ hissue
  | _ => exact hissue

/-- Only `setRefresh` writes a refresh key. -/
lemma mem_exec_refresh {e : Token × String × ℕ} (he : e ∈ (c.exec config s).2.refresh) :
    e ∈ s.refresh ∨ ∃ value parent, c = .setRefresh e.1 value parent := by
  cases c with
  | setRefresh token value parent =>
    rcases mem_append.mp he with he | he
    · exact Or.inl (mem_filter.mp he).1
    · rw [mem_singleton.mp he]
      exact Or.inr ⟨value, parent, rfl⟩
  | delRefresh token => exact Or.inl (mem_filter.mp he).1
  | _ => exact Or.inl he

lemma allows_setRefresh {value : String} {parent : Option Token}
    (h : l.Allows (.setRefresh t value parent)) : ∃ u role, l = .drawn parent u role t := by
  cases l with
  | drawn parent u role t =>
    obtain ⟨rfl, -, rfl⟩ := AuthCmd.setRefresh.inj h
    exact ⟨u, role, rfl⟩
  | sweeping u tokens => cases tokens <;> simp [AuthStage.Allows] at h
  | _ => simp [AuthStage.Allows] at h

/-- A spent token is not stored again. -/
lemma Once.exec (h : Once s ((r, l) :: ls)) (hinv : SessionsInv config s ((r, l) :: ls))
    (hallowed : l.Allows c) : Once (c.exec config s).2 ((r, l) :: ls) := by
  refine h.congr (fun rl hrl t ht e he heq => ?_) (exec_issues c)
  rcases mem_exec_refresh he with he | ⟨value, parent, rfl⟩
  · exact he
  · -- the new token is drawn, and the spent one is issued
    obtain ⟨-, issue, hissue, htoken⟩ := h.spent rl hrl t ht
    obtain ⟨u, role, rfl⟩ := allows_setRefresh hallowed
    have hdistinct : (e.1 :: tokens s ls).Nodup := hinv.distinct
    refine absurd ?_ (nodup_cons.mp hdistinct).1
    rw [heq, ← htoken]
    exact mem_append_right _ (mem_map_of_mem hissue)

/-- Only a refresh that reads its key takes up a token. -/
lemma uses_next (hallowed : l.Allows c) (a : c.Answer) (hread : ∀ t, l ≠ .reading t) :
    ∀ t ∈ (l.next config c (some a)).uses, t ∈ l.uses := by
  cases l with
  | reading t => exact absurd rfl (hread t)
  | holding t u role =>
    obtain rfl : c = .delRefresh t := hallowed
    show ∀ t' ∈ (if config.availableSecrets = [] then AuthStage.idle else .issuing t u role).uses, _
    split_ifs
    · exact fun _ ht => nomatch ht
    · exact fun _ ht => ht
  | issuing t u role =>
    obtain ⟨secret, rfl⟩ := hallowed
    exact fun _ ht => ht
  | drawn parent u role t =>
    obtain rfl : c = .setRefresh t (refreshValue u role) parent := hallowed
    exact fun _ ht => ht
  | stored parent =>
    obtain ⟨t, rfl⟩ := hallowed
    exact fun _ ht => ht
  | entering email =>
    obtain rfl : c = .findUser email := hallowed
    cases a <;> exact fun _ ht => nomatch ht
  | signing u => rcases hallowed with rfl | rfl | ⟨role, secret, rfl⟩ <;> exact fun _ ht => nomatch ht
  | marking t => rcases hallowed with rfl | rfl <;> exact fun _ ht => nomatch ht
  | looking email =>
    rcases hallowed with rfl | rfl
    · exact fun _ ht => nomatch ht
    · cases a <;> exact fun _ ht => nomatch ht
  | known u => rcases hallowed with rfl | ⟨email, password, rfl⟩ <;> exact fun _ ht => nomatch ht
  | sweeping u tokens =>
    cases tokens with
    | nil =>
      obtain ⟨email, rfl⟩ := hallowed
      exact fun _ ht => nomatch ht
    | cons t ts =>
      obtain rfl : c = .getRefresh t := hallowed
      show ∀ t' ∈ (AuthStage.swept u t ts a).uses, _
      unfold AuthStage.swept
      split_ifs <;> exact fun _ ht => nomatch ht
  | matched u t ts =>
    obtain rfl : c = .delRefresh t := hallowed
    exact fun _ ht => nomatch ht
  | _ => exact hallowed.elim

lemma spends_uses : ∀ t ∈ l.spends, t ∈ l.uses := by
  intro t ht
  cases l with
  | holding => cases ht
  | _ => exact ht

/-- Only a refresh that deletes its key spends a token. -/
lemma spends_next (hallowed : l.Allows c) (a : c.Answer) (hread : ∀ t, l ≠ .reading t) :
    ∀ t ∈ (l.next config c (some a)).spends,
      t ∈ l.spends ∨ ∃ u role, l = .holding t u role ∧ c = .delRefresh t := by
  intro t ht
  have huse := uses_next hallowed a hread t (spends_uses t ht)
  cases l with
  | holding t' u role =>
    obtain rfl : t' = t := Option.some.inj huse
    exact Or.inr ⟨u, role, rfl, hallowed⟩
  | _ => exact Or.inl huse

/-- What a refresh has read is a token and its user, or nothing. -/
lemma held_cases (t : Token) (value : Option String) :
    AuthStage.held t value = .idle ∨
      value.isSome ∧ ∃ u role, AuthStage.held t value = .holding t u role := by
  cases value with
  | none => exact Or.inl rfl
  | some value =>
    unfold AuthStage.held
    rcases parseRefreshValue (some value) with ⟨_ | u, role⟩
    · exact Or.inl rfl
    · dsimp only
      split_ifs
      · exact Or.inl rfl
      · exact Or.inr ⟨rfl, u, role, rfl⟩

lemma exists_of_lookup (h : ((s.refresh.lookup t).map (·.1)).isSome) :
    ∃ e ∈ s.refresh, e.1 = t := by
  rw [Option.isSome_map] at h
  obtain ⟨value, hlookup⟩ := Option.isSome_iff_exists.mp h
  obtain ⟨before, after, hsplit, -⟩ := lookup_eq_some_iff.mp hlookup
  rw [hsplit]
  exact ⟨(t, value), mem_append_right _ mem_cons_self, rfl⟩

/-- The refresh has read what is under its key. -/
lemma Once.read (h : Once s ((r, .reading t) :: ls))
    (halone : ∀ rl ∈ ls, ∀ u role, rl.2 ≠ .holding t u role) :
    Once s ((r, .held t ((s.refresh.lookup t).map (·.1))) :: ls) := by
  rcases held_cases t ((s.refresh.lookup t).map (·.1)) with hidle | ⟨hvalue, u, role, hheld⟩
  · rw [hidle]
    apply h.move
    · exact fun _ ht => nomatch ht
    · exact fun _ ht => nomatch ht
  · rw [hheld]
    apply h.held _ halone
    exact exists_of_lookup hvalue

/-- A command of a call. -/
lemma Once.call (h : Once s ((r, l) :: ls)) (hinv : SessionsInv config s ((r, l) :: ls))
    (hallowed : l.Allows c)
    (halone : ∀ t, l = .reading t → c = .getRefresh t → ∀ rl ∈ ls, ∀ u role, rl.2 ≠ .holding t u role) :
    Once (c.exec config s).2 ((r, l.next config c (some (c.exec config s).1)) :: ls) := by
  by_cases hread : ∃ t, l = .reading t
  · obtain ⟨t, rfl⟩ := hread
    rcases hallowed with rfl | rfl
    · show Once s ((r, AuthStage.next config (.reading t) (.getRevoked t)
        (some (s.revoked t).isSome)) :: ls)
      apply h.move
      · cases (s.revoked t).isSome <;> exact fun _ ht => nomatch ht
      · cases (s.revoked t).isSome <;> exact fun _ ht => nomatch ht
    · exact h.read (halone t rfl rfl)
  · have hexec := h.exec hinv hallowed
    apply hexec.move
    · exact uses_next hallowed _ fun t ht => hread ⟨t, ht⟩
    · intro t ht
      rcases spends_next hallowed _ (fun t ht => hread ⟨t, ht⟩) t ht with ht | ⟨u, role, rfl, rfl⟩
      · exact hexec.spent _ mem_cons_self t ht
      · obtain ⟨issue, hissue, htoken, -⟩ := hinv.claims _ mem_cons_self (t, u) rfl
        refine ⟨fun e he heq => ?_, issue, hissue, htoken⟩
        have hkept := (mem_filter.mp he).2
        simp [heq] at hkept

lemma Once.leave (h : Once s ((r, l) :: ls)) : Once s ((r, .idle) :: ls) := by
  apply h.move
  · exact fun _ ht => nomatch ht
  · exact fun _ ht => nomatch ht

lemma Once.start (h : Once s ls) : Once s (ls ++ [(r, firstStage r)]) := by
  have huses : (ls ++ [(r, firstStage r)]).filterMap (·.2.uses) = ls.filterMap (·.2.uses) := by
    cases r <;> simp [firstStage, AuthStage.uses]
  constructor
  · rw [huses]
    exact h.once
  · intro rl hrl t ht
    rcases mem_append.mp hrl with hrl | hrl
    · exact h.spent rl hrl t ht
    · rw [mem_singleton.mp hrl] at ht
      cases r <;> cases ht

lemma Once.env (h : Once s ls) (henv : AuthState.Env config s s') : Once s' ls := by
  cases henv with
  | expire token => exact h.congr (fun _ _ _ _ _ he _ => (mem_filter.mp he).1) fun _ hi => hi
  | reorder refresh hperm =>
    exact h.congr (fun _ _ _ _ _ he _ => hperm.mem_iff.mpr he) fun _ hi => hi
  | _ => exact h.congr (fun _ _ _ _ _ he _ => he) fun _ hi => hi

end Once

/-! ### The runs -/

section Runs

variable {config : AuthConfig}
  {P : Pool AuthCmd.Answer String AuthReply AuthState AuthCall}

/-- What `ReadsAlone` says about the stages. -/
def StagesAlone (ls : List (AuthCall × AuthStage)) : Service.Action AuthCall AuthCmd → Prop
  | .call (.refresh _) (.getRefresh t) =>
    ∀ rl ∈ ls, rl.1 = .refresh t → ∀ u role, rl.2 ≠ .holding t u role
  | _ => True

lemma deletesNext_of_follows {t : Token} {p : AuthM AuthReply} {u : String} {role : Option Role}
    (h : p.Follows (sessionStages config) Ends (.holding t u role)) : DeletesNext t p := by
  obtain ⟨c, next, rfl, hc⟩ := call_of_follows h trivial
  obtain rfl : c = .delRefresh t := hc
  rfl

lemma stagesAlone {s : AuthState} {ts : List (AuthCall × AuthM AuthReply)}
    {ls : List (AuthCall × AuthStage)} {a : Service.Action AuthCall AuthCmd}
    (h : ReadsAlone ⟨s, ts⟩ a) (hts : Service.Staged (sessionStages config) Ends ts ls) :
    StagesAlone ls a := by
  unfold StagesAlone
  split
  · intro rl hrl hr u role hl
    obtain ⟨x, hx, hrequest, hfollows⟩ := Service.exists_left hts hrl
    rw [hl] at hfollows
    exact h x hx (hrequest.trans hr) (deletesNext_of_follows hfollows)
  · trivial

/-- The invariant holds in every run in which no refresh reads a token that another is about to
delete. -/
theorem once_of_reachable (h : ((authService config).system.restrict ReadsAlone).Reachable P) :
    ∃ ls, Service.Staged (sessionStages config) Ends P.threads ls ∧
      SessionsInv config P.state ls ∧ Once P.state ls := by
  apply Service.staged_invariant (I := fun s ls => SessionsInv config s ls ∧ Once s ls)
    (fun _ ls a => StagesAlone ls a) follows_body _ _ _ _ _ _ h
  · exact fun _ _ _ _ halone hts => stagesAlone halone hts
  · rintro s ls r ⟨hinv, honce⟩ hready -
    exact ⟨hinv.start hready, honce.start⟩
  · rintro s ls₁ ls₂ r l c ⟨hinv, honce⟩ hallowed halone
    have hinv' := hinv.perm perm_middle
    refine ⟨(hinv'.call hallowed).perm perm_middle.symm, ?_⟩
    refine ((honce.perm perm_middle).call hinv' hallowed ?_).perm perm_middle.symm
    rintro t rfl rfl rl hrl u role hl
    -- a call that reads a token or holds one is a refresh of it
    have hmem : rl ∈ ls₁ ++ (r, .reading t) :: ls₂ :=
      perm_middle.mem_iff.mpr (mem_cons_of_mem _ hrl)
    have hreads := hinv'.fits _ mem_cons_self
    have hholds := hinv.fits rl hmem
    rw [hl] at hholds
    cases r with
    | refresh t' =>
      cases hr : rl.1 with
      | refresh t'' =>
        rw [hr] at hholds
        obtain rfl : t = t'' := hholds
        exact halone rl hmem hr u role hl
      | _ =>
        rw [hr] at hholds
        exact hholds
    | _ => exact hreads
  · rintro s ls₁ ls₂ r l c ⟨hinv, honce⟩ - - -
    show SessionsInv config s (ls₁ ++ (r, l.next config c none) :: ls₂) ∧
      Once s (ls₁ ++ (r, l.next config c none) :: ls₂)
    rw [next_none]
    exact ⟨(hinv.perm perm_middle).leave.perm perm_middle.symm,
      (honce.perm perm_middle).leave.perm perm_middle.symm⟩
  · rintro s s' ls ⟨hinv, honce⟩ henv -
    exact ⟨hinv.env henv, honce.env henv⟩
  · exact fun s hs => ⟨.initial hs, .nil, fun _ hrl => nomatch hrl⟩

/-- A refresh that has returned a new pair has replaced its token. -/
lemma uses_of_returned {s : AuthState} {t : Token} {p : AuthM AuthReply} {l : AuthStage}
    (hfollows : p.Follows (sessionStages config) Ends l) (hfits : l.Fits s (.refresh t))
    (h : Returned p) : l.uses = some t := by
  match p, h with
  | .ret (.tokens (some pair)), _ =>
    obtain ⟨parent, rfl⟩ := hfollows
    exact hfits

/-- At most one refresh of a token returns a new pair, in every run in which no refresh reads the
key of a token that another refresh has read and is about to delete. -/
theorem single_use (h : ((authService config).system.restrict ReadsAlone).Reachable P)
    (t : Token) : exchanges P t ≤ 1 := by
  obtain ⟨ls, hts, hinv, honce⟩ := once_of_reachable h
  have hcount : exchanges P t ≤ (ls.filterMap (·.2.uses)).count t := by
    apply Service.countP_le_count hts
    rintro ⟨r, p⟩ ⟨r', l⟩ hrl ⟨rfl, hfollows⟩ hreturned
    obtain ⟨hr, hpair⟩ := of_decide_eq_true hreturned
    obtain rfl : r = .refresh t := hr
    exact uses_of_returned hfollows (hinv.fits _ hrl) hpair
  exact hcount.trans (nodup_iff_count_le_one.mp honce.once t)

end Runs

/-- A refresh of a token, and another one after it. -/
def refreshedTwice : List (Service.Move AuthState AuthCall) :=
  [.start (.login "alice@example.com" "secret")] ++ replicate 5 (.call 0) ++
    [.start (.refresh (sampleConfig.uuid 0))] ++ replicate 6 (.call 1) ++
    [.start (.refresh (sampleConfig.uuid 0))] ++ replicate 6 (.call 2)

theorem single_use_refreshedTwice : ∃ P,
    ((authService sampleConfig).system.restrict ReadsAlone).Reachable P ∧
      (∃ u ∈ P.threads, u.1 = .refresh (sampleConfig.uuid 0) ∧ Returned u.2) ∧
      exchanges P (sampleConfig.uuid 0) ≤ 1 := by
  have hreach : ((authService sampleConfig).system.restrict ReadsAlone).Reachable
      ((authService sampleConfig).playAll ⟨oneUser, []⟩ refreshedTwice) :=
    Service.reachable_playAll_of_closed init_oneUser (by decide +kernel)
  exact ⟨_, hreach, by decide +kernel, single_use hreach _⟩

/-- Two refreshes of a token that both read its key. -/
def bothRefreshes : List (Service.Move AuthState AuthCall) :=
  [.start (.login "alice@example.com" "secret")] ++ replicate 5 (.call 0) ++
    [.start (.refresh (sampleConfig.uuid 0)), .start (.refresh (sampleConfig.uuid 0))] ++
    replicate 2 (.call 1) ++ replicate 6 (.call 2) ++ replicate 4 (.call 1)

/-- Both refreshes return a new pair. -/
theorem token_used_twice : ¬ ∀ config P, (authService config).system.Reachable P →
    ∀ t, exchanges P t ≤ 1 := by
  intro h
  have hreach : ((authService sampleConfig).system.restrict fun _ _ => True).Reachable
      ((authService sampleConfig).playAll ⟨oneUser, []⟩ bothRefreshes) :=
    Service.reachable_playAll_of_closed init_oneUser (by decide +kernel)
  have hone := h sampleConfig _ hreach.of_restrict (sampleConfig.uuid 0)
  revert hone
  decide +kernel

end Pokerhub.Auth
