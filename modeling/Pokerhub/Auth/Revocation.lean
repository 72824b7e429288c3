import Pokerhub.Auth.SingleUse

/-!
# Revocation

A logout deletes the key of its token, `revokeAll` the keys that it has listed, one by one. A
refresh that has read a key in the meantime still stores a new one, and what has replaced a token
before is not followed. If no such refresh is under way from the time at which the keys are listed,
and the token of a logout was not replaced, then neither the tokens that are revoked nor what is
obtained from them is accepted by a later refresh, in any run that follows
(`revocation_complete`).
-/

namespace Pokerhub.Auth

open List Program

/-- The token is one of the roots, or was obtained from one by refreshes. -/
inductive Descends (issues : List Issue) (roots : Token → Prop) : Token → Prop
  | root {t : Token} (h : roots t) : Descends issues roots t
  | rotated {issue : Issue} {p : Token} (h : issue ∈ issues) (hparent : issue.parent = some p)
    (hp : Descends issues roots p) : Descends issues roots issue.token

/-- The tokens that a call revokes, by what was issued before it was started. -/
def Revokes (s : AuthState) : AuthCall → Token → Prop
  | .logout t, t' => t' = t
  | .revokeAll userId, t => s.OwnedBy t userId
  | .resetPassword email _ _, t => ∃ user ∈ s.users email, s.OwnedBy t user.id.val
  | _, _ => False

def AuthReply.Revoked : AuthReply → Prop
  | .loggedOut | .revokedAll | .reset true => True
  | _ => False

/-- The call has listed the keys; a logout has deleted its key. -/
def Revoking : AuthCall → AuthM AuthReply → Prop
  | _, .ret reply => reply.Revoked
  | .logout _, _ => False
  | _, .call (.getRefresh _) _ | _, .call (.delRefresh _) _ | _, .call (.delReset _) _ => True
  | _, _ => False

/-- A refresh that has read its key and still has to delete it, or to store the new one. -/
def Rotating : AuthM AuthReply → Prop
  | .call (.delRefresh _) _ | .call (.sign ..) _ | .call (.setRefresh ..) _ => True
  | _ => False

/-- From the time at which thread `i` has listed the keys, no token that it revokes is being
replaced; the token of a logout was not replaced before. -/
def Quiet (roots : Token → Prop) (i : ℕ)
    (P : Pool AuthCmd.Answer String AuthReply AuthState AuthCall) : Prop :=
  ∀ u, P.threads[i]? = some u → Revoking u.1 u.2 →
    (∀ v ∈ P.threads, ∀ t, v.1 = .refresh t → Descends P.state.issues roots t →
      ¬ Rotating v.2) ∧
    ∀ t, u.1 = .logout t → ∀ issue ∈ P.state.issues, issue.parent ≠ some t

/-- A run all of whose states are quiet. -/
def QuietRun (config : AuthConfig) (roots : Token → Prop) (i : ℕ)
    (P P' : Pool AuthCmd.Answer String AuthReply AuthState AuthCall) : Prop :=
  Relation.ReflTransGen
    ((authService config).system.restrict fun P _ => Quiet roots i P).Moves P P' ∧ Quiet roots i P'

/-! ### Descent -/

section Descent

variable {config : AuthConfig} {s s' : AuthState} {ls : List (AuthCall × AuthStage)}
  {r : AuthCall} {l : AuthStage} {c : AuthCmd} {t : Token} {roots : Token → Prop}

/-- A token that was obtained from another one is issued. -/
lemma Descends.issued {issues : List Issue} (h : Descends issues roots t) :
    roots t ∨ ∃ issue ∈ issues, issue.token = t := by
  cases h with
  | root h => exact Or.inl h
  | rotated h => exact Or.inr ⟨_, h, rfl⟩

/-- What is obtained from a token that was not replaced is the token. -/
lemma Descends.eq_of_not_replaced {issues : List Issue}
    (hparent : ∀ issue ∈ issues, issue.parent ≠ some t) {d : Token}
    (h : Descends issues (· = t) d) : d = t := by
  induction h with
  | root h => exact h
  | rotated hissue hp _ ih => exact absurd (hp.trans (congrArg some ih)) (hparent _ hissue)

/-- The owner of a token is one user. -/
lemma SessionsInv.owner_unique (h : SessionsInv config s ls) {issue issue' : Issue}
    (hissue : issue ∈ s.issues) (hissue' : issue' ∈ s.issues) (htoken : issue.token = issue'.token) :
    issue = issue' := by
  have hnodup : (s.issues.map (·.token)).Nodup :=
    Nodup.sublist (sublist_append_right _ _) h.distinct
  exact inj_on_of_nodup_map hnodup hissue hissue' htoken

/-- What is obtained from the tokens of a user is the user's. -/
lemma SessionsInv.ownedBy_of_descends (h : SessionsInv config s ls) {u : String}
    (hroots : ∀ t, roots t → s.OwnedBy t u) (hd : Descends s.issues roots t) :
    s.OwnedBy t u := by
  induction hd with
  | root ht => exact hroots _ ht
  | @rotated issue p hissue hparent _ ih =>
    obtain ⟨v, -, hv⟩ := h.owned issue hissue
    obtain ⟨issue₁, hissue₁, htoken₁, hu⟩ := ih
    obtain ⟨issue₂, hissue₂, htoken₂, hv'⟩ := h.parents issue hissue p hparent v hv
    obtain rfl := h.owner_unique hissue₁ hissue₂ (htoken₁.trans htoken₂.symm)
    obtain rfl : u = v := Option.some.inj (hu.symm.trans hv')
    exact ⟨issue, hissue, rfl, hv⟩

/-- What is stored under a token says whose it is. -/
lemma SessionsInv.lookup_owner (h : SessionsInv config s ls) {u : String}
    {e : Token × String × ℕ} (he : e ∈ s.refresh) (howned : s.OwnedBy e.1 u) :
    (parseRefreshValue ((s.refresh.lookup e.1).map (·.1))).1 = some u := by
  obtain ⟨value, hvalue⟩ : ∃ value, s.refresh.lookup e.1 = some value := by
    cases hlookup : s.refresh.lookup e.1 with
    | none => exact absurd (lookup_eq_none_iff.mp hlookup e he) (by simp)
    | some value => exact ⟨value, rfl⟩
  obtain ⟨v, -, hparse, issue, hissue, htoken, hv⟩ :=
    h.lookup (congrArg (Option.map (·.1)) hvalue)
  obtain ⟨issue', hissue', htoken', hu⟩ := howned
  obtain rfl := h.owner_unique hissue hissue' (htoken.trans htoken'.symm)
  rw [hvalue, ← hu, hv]
  exact hparse

/-- A UUID that was drawn and not stored was not obtained from anything. -/
lemma SessionsInv.not_descends_of_drawn {parent : Option Token} {u : String} {role : Option Role}
    (h : SessionsInv config s ((r, .drawn parent u role t) :: ls))
    (hknown : ∀ t, roots t → s.Known config t) : ¬ Descends s.issues roots t := by
  intro hd
  have hdistinct : (t :: tokens s ls).Nodup := h.distinct
  have hissued : ∃ issue ∈ s.issues, issue.token = t := by
    rcases hd.issued with hroot | hissued
    · obtain ⟨n, -, rfl⟩ := h.below t (mem_cons_self : t ∈ t :: tokens s ls)
      apply hknown _ hroot
      rw [config.serial_uuid]
      rfl
    · exact hissued
  obtain ⟨issue, hissue, htoken⟩ := hissued
  refine (nodup_cons.mp hdistinct).1 ?_
  rw [← htoken]
  exact mem_append_right _ (mem_map_of_mem hissue)

/-- A command obtains no new token from the roots, unless it replaces one. -/
lemma descends_exec (hallowed : l.Allows c)
    (hclaim : ∀ x ∈ l.claim, ¬ Descends s.issues roots x.1)
    (hd : Descends (c.exec config s).2.issues roots t) : Descends s.issues roots t := by
  cases c with
  | setRefresh t' value parent =>
    obtain ⟨u, role, rfl⟩ := allows_setRefresh hallowed
    induction hd with
    | root h => exact .root h
    | rotated hissue hparent _ ih =>
      rcases mem_append.mp hissue with hissue | hissue
      · exact .rotated hissue hparent ih
      · rw [mem_singleton.mp hissue] at hparent
        obtain rfl : parent = some _ := hparent
        exact absurd ih (hclaim (_, u) rfl)
  | _ => exact hd

end Descent

/-! ### While the tokens are revoked -/

namespace AuthStage

/-- The keys are listed, or the key of a logout is deleted. -/
def Listed : AuthStage → Prop
  | sweeping .. | matched .. | loggedOut _ => True
  | _ => False

/-- Which tokens may still be stored. -/
def Leaves (issues : List Issue) (roots : Token → Prop) : AuthStage → Token → Prop
  | sweeping _ ts, t => Descends issues roots t → t ∈ ts
  | matched _ t' ts, t => Descends issues roots t → t ∈ t' :: ts
  | loggedOut t', t => t ≠ t'
  | _, _ => True

lemma leaves_of_not_listed {l : AuthStage} {issues : List Issue} {roots : Token → Prop}
    (h : ¬ l.Listed) (t : Token) : l.Leaves issues roots t := by
  cases l with
  | sweeping | matched | loggedOut => exact absurd trivial h
  | _ => trivial

end AuthStage

/-- What the stages say of the thread that revokes. -/
def QuietStages (r : AuthCall) (i : ℕ) (roots : Token → Prop) (s : AuthState)
    (ls : List (AuthCall × AuthStage)) : Prop :=
  ∀ l, ls[i]? = some (r, l) → l.Listed → ∀ rl ∈ ls, ∀ x ∈ rl.2.claim,
    ¬ Descends s.issues roots x.1

/-- The state of a call that revokes tokens: it was started after `s₀`, as thread `i`. -/
structure Sweep (config : AuthConfig) (s₀ : AuthState) (r : AuthCall) (i : ℕ) (s : AuthState)
    (ls : List (AuthCall × AuthStage)) : Prop where
  issues : ∀ issue ∈ s₀.issues, issue ∈ s.issues
  users : SameUsers s₀ s
  known : ∀ l, ls[i]? = some (r, l) → ∀ t, Revokes s₀ r t → s.Known config t
  left : ∀ l, ls[i]? = some (r, l) → ∀ e ∈ s.refresh, l.Leaves s.issues (Revokes s₀ r) e.1

section Sweep

variable {config : AuthConfig} {s₀ s s' : AuthState} {ls ls₁ ls₂ : List (AuthCall × AuthStage)}
  {r r' : AuthCall} {l l' : AuthStage} {c : AuthCmd} {i : ℕ} {t : Token} {roots : Token → Prop}

/-- The elements of a list in which one was replaced. -/
lemma getElem?_middle {A : Type} {xs ys : List A} {x y z : A} {i : ℕ}
    (h : (xs ++ y :: ys)[i]? = some z) :
    (i = xs.length ∧ z = y) ∨ (i ≠ xs.length ∧ (xs ++ x :: ys)[i]? = some z) := by
  induction xs generalizing i with
  | nil =>
    cases i with
    | zero => exact Or.inl ⟨rfl, (Option.some.inj h).symm⟩
    | succ i => exact Or.inr ⟨Nat.succ_ne_zero i, h⟩
  | cons w xs ih =>
    cases i with
    | zero => exact Or.inr ⟨(Nat.succ_ne_zero _).symm, h⟩
    | succ i =>
      rcases ih h with ⟨hi, hz⟩ | ⟨hi, hz⟩
      · exact Or.inl ⟨congrArg (· + 1) hi, hz⟩
      · exact Or.inr ⟨fun heq => hi (Nat.succ.inj heq), hz⟩

lemma mem_append_of_getElem? {A : Type} {xs : List A} {x z : A} {i : ℕ}
    (h : (xs ++ [x])[i]? = some z) : xs[i]? = some z ∨ z = x := by
  rcases lt_or_ge i xs.length with hi | hi
  · rw [getElem?_append_left hi] at h
    exact Or.inl h
  · rw [getElem?_append_right hi] at h
    exact Or.inr (mem_singleton.mp (mem_of_getElem? h))

lemma AuthState.Known.mono (h : s.Known config t) (hissues : ∀ issue ∈ s.issues, issue ∈ s'.issues) :
    s'.Known config t := by
  intro hserial
  obtain ⟨issue, hissue, htoken⟩ := h hserial
  exact ⟨issue, hissues issue hissue, htoken⟩

/-- The calls that delete the keys of a user. -/
lemma fits_sweep {u : String} (hfits : l.Fits s r)
    (hl : (∃ ts, l = .sweeping u ts) ∨ ∃ t ts, l = .matched u t ts) :
    r = .revokeAll u ∨ ∃ email code password, r = .resetPassword email code password ∧
      (s.users email).map (·.id.val) = some u := by
  rcases hl with ⟨ts, rfl⟩ | ⟨t, ts, rfl⟩ <;>
  · cases r with
    | revokeAll v =>
      obtain rfl : u = v := hfits
      exact Or.inl rfl
    | resetPassword email code password => exact Or.inr ⟨email, code, password, rfl, hfits⟩
    | _ => exact hfits.elim

/-- The tokens that are revoked are those of the user whose keys are deleted. -/
lemma ownedBy_of_revokes {u : String} (hissues : ∀ issue ∈ s₀.issues, issue ∈ s.issues)
    (husers : SameUsers s₀ s) (hfits : l.Fits s r)
    (hl : (∃ ts, l = .sweeping u ts) ∨ ∃ t ts, l = .matched u t ts) (ht : Revokes s₀ r t) :
    s.OwnedBy t u := by
  have hmono : ∀ {v}, s₀.OwnedBy t v → s.OwnedBy t v := by
    rintro v ⟨issue, hissue, howned⟩
    exact ⟨issue, hissues issue hissue, howned⟩
  rcases fits_sweep hfits hl with rfl | ⟨email, code, password, rfl, hsame⟩
  · exact hmono ht
  · obtain ⟨user, huser, howned⟩ := ht
    rw [husers.ids, huser] at hsame
    obtain rfl : user.id.val = u := Option.some.inj hsame
    exact hmono howned

lemma sameUsers_exec (c : AuthCmd) : SameUsers s (c.exec config s).2 := by
  cases c with
  | saveUser email password => exact sameUsers_saveUser config s email password
  | _ => exact .of_eq rfl

lemma SameUsers.trans {s₁ s₂ s₃ : AuthState} (h : SameUsers s₁ s₂) (h' : SameUsers s₂ s₃) :
    SameUsers s₁ s₃ :=
  ⟨fun email => (h'.ids email).trans (h.ids email)⟩

/-- What is still to be revoked, after a command of another call. -/
lemma leaves_other (hinv : SessionsInv config s ((r', l') :: ls)) (hallowed : l'.Allows c)
    (hknown : ∀ t, roots t → s.Known config t)
    (hclaim : l.Listed → ∀ x ∈ l'.claim, ¬ Descends s.issues roots x.1)
    (hdeleted : ∀ t, l = .loggedOut t → roots t)
    (hleft : ∀ e ∈ s.refresh, l.Leaves s.issues roots e.1) :
    ∀ e ∈ (c.exec config s).2.refresh, l.Leaves (c.exec config s).2.issues roots e.1 := by
  intro e he
  by_cases hl : l.Listed
  swap
  · exact AuthStage.leaves_of_not_listed hl e.1
  have hdescends : ∀ {t}, Descends (c.exec config s).2.issues roots t → Descends s.issues roots t :=
    descends_exec hallowed (hclaim hl)
  have hstored : l.Leaves s.issues roots e.1 := by
    rcases mem_exec_refresh he with he | ⟨value, parent, rfl⟩
    · exact hleft e he
    · -- a new token is none of those that are revoked
      obtain ⟨u, role, rfl⟩ := allows_setRefresh hallowed
      have hnew := hinv.not_descends_of_drawn hknown
      cases l with
      | sweeping | matched => exact fun hd => absurd hd hnew
      | loggedOut t' =>
        intro heq
        apply hnew
        rw [heq]
        exact .root (hdeleted t' rfl)
      | _ => exact hl.elim
  cases l with
  | sweeping | matched => exact fun hd => hstored (hdescends hd)
  | loggedOut => exact hstored
  | _ => exact hl.elim

/-- What is still to be revoked, after a command of the call that revokes. -/
lemma leaves_own (hinv : SessionsInv config s ((r, l) :: ls)) (hallowed : l.Allows c)
    (howned : ∀ u, ((∃ ts, l = .sweeping u ts) ∨ ∃ t ts, l = .matched u t ts) →
      ∀ t, roots t → s.OwnedBy t u)
    (hleft : ∀ e ∈ s.refresh, l.Leaves s.issues roots e.1) :
    ∀ e ∈ (c.exec config s).2.refresh,
      (l.next config c (some (c.exec config s).1)).Leaves (c.exec config s).2.issues roots e.1 := by
  cases l with
  | marking t =>
    rcases hallowed with rfl | rfl
    · exact fun _ _ => trivial
    · intro e he
      have hne : e.1 ≠ t := by simpa using (mem_filter.mp he).2
      exact hne
  | known u =>
    rcases hallowed with rfl | ⟨email, password, rfl⟩
    · exact fun e he _ => mem_map_of_mem he
    · exact fun _ _ => trivial
  | sweeping u ts =>
    cases ts with
    | nil =>
      obtain ⟨email, rfl⟩ := hallowed
      exact hleft
    | cons t ts =>
      obtain rfl : c = .getRefresh t := hallowed
      show ∀ e ∈ s.refresh, (AuthStage.swept u t ts ((s.refresh.lookup t).map (·.1))).Leaves
        s.issues roots e.1
      unfold AuthStage.swept
      split_ifs with howner
      · exact hleft
      · -- a token of another user, or one that is no longer stored
        intro e he hd
        refine (mem_cons.mp (hleft e he hd)).resolve_left ?_
        rintro rfl
        refine howner (hinv.lookup_owner he ?_)
        exact hinv.ownedBy_of_descends (howned u (Or.inl ⟨_, rfl⟩)) hd
  | matched u t ts =>
    obtain rfl : c = .delRefresh t := hallowed
    intro e he hd
    obtain ⟨he, hne⟩ := mem_filter.mp he
    refine (mem_cons.mp (hleft e he hd)).resolve_left ?_
    simpa using hne
  | reading t =>
    rcases hallowed with rfl | rfl
    · show ∀ e ∈ s.refresh, (AuthStage.next config (.reading t) (.getRevoked t)
        (some (s.revoked t).isSome)).Leaves s.issues roots e.1
      cases (s.revoked t).isSome <;> exact fun _ _ => trivial
    · show ∀ e ∈ s.refresh, (AuthStage.held t ((s.refresh.lookup t).map (·.1))).Leaves
        s.issues roots e.1
      rcases held_cases t ((s.refresh.lookup t).map (·.1)) with h | ⟨-, u, role, h⟩
      · rw [h]
        exact fun _ _ => trivial
      · rw [h]
        exact fun _ _ => trivial
  | holding t u role =>
    obtain rfl : c = .delRefresh t := hallowed
    intro e _
    show (if config.availableSecrets = [] then AuthStage.idle else .issuing t u role).Leaves _ _ _
    split_ifs <;> trivial
  | issuing t u role =>
    obtain ⟨secret, rfl⟩ := hallowed
    exact fun _ _ => trivial
  | drawn parent u role t =>
    obtain rfl : c = .setRefresh t (refreshValue u role) parent := hallowed
    exact fun _ _ => trivial
  | stored parent =>
    obtain ⟨t, rfl⟩ := hallowed
    exact fun _ _ => trivial
  | entering email =>
    obtain rfl : c = .findUser email := hallowed
    show ∀ e ∈ s.refresh, (AuthStage.next config (.entering email) (.findUser email)
      (some (s.users email))).Leaves s.issues roots e.1
    cases s.users email <;> exact fun _ _ => trivial
  | signing u => rcases hallowed with rfl | rfl | ⟨role, secret, rfl⟩ <;> exact fun _ _ => trivial
  | looking email =>
    rcases hallowed with rfl | rfl
    · exact fun _ _ => trivial
    · show ∀ e ∈ s.refresh, (AuthStage.next config (.looking email) (.findUser email)
        (some (s.users email))).Leaves s.issues roots e.1
      cases s.users email <;> exact fun _ _ => trivial
  | _ => exact hallowed.elim

/-- A command of any call. -/
lemma Sweep.call (h : Sweep config s₀ r i s (ls₁ ++ (r', l') :: ls₂))
    (hinv : SessionsInv config s (ls₁ ++ (r', l') :: ls₂)) (hallowed : l'.Allows c)
    (hquiet : QuietStages r i (Revokes s₀ r) s (ls₁ ++ (r', l') :: ls₂)) :
    Sweep config s₀ r i (c.exec config s).2
      (ls₁ ++ (r', l'.next config c (some (c.exec config s).1)) :: ls₂) where
  issues issue hissue := exec_issues c issue (h.issues issue hissue)
  users := h.users.trans (sameUsers_exec c)
  known l hl t ht := by
    rcases getElem?_middle (x := (r', l')) hl with ⟨rfl, heq⟩ | ⟨-, hl⟩
    · obtain ⟨rfl, -⟩ := Prod.mk.inj heq
      exact (h.known l' (by simp) t ht).mono (exec_issues c)
    · exact (h.known l hl t ht).mono (exec_issues c)
  left l hl := by
    rcases getElem?_middle (x := (r', l')) hl with ⟨rfl, heq⟩ | ⟨-, hl⟩
    · obtain ⟨rfl, rfl⟩ := Prod.mk.inj heq
      apply leaves_own (hinv.perm perm_middle) hallowed
      · intro u hu t ht
        exact ownedBy_of_revokes h.issues h.users (hinv.fits (r, l') (by simp)) hu ht
      · exact h.left l' (by simp)
    · apply leaves_other (hinv.perm perm_middle) hallowed (h.known l hl)
      · intro hlisted
        exact hquiet l hl hlisted (r', l') (by simp)
      · rintro t rfl
        have hfits := hinv.fits _ (mem_of_getElem? hl)
        cases r with
        | logout t' => exact hfits
        | _ => exact hfits.elim
      · exact h.left l hl

lemma Sweep.fault (h : Sweep config s₀ r i s (ls₁ ++ (r', l') :: ls₂)) :
    Sweep config s₀ r i s (ls₁ ++ (r', .idle) :: ls₂) where
  issues := h.issues
  users := h.users
  known l hl t ht := by
    rcases getElem?_middle (x := (r', l')) hl with ⟨rfl, heq⟩ | ⟨-, hl⟩
    · obtain ⟨rfl, -⟩ := Prod.mk.inj heq
      exact h.known l' (by simp) t ht
    · exact h.known l hl t ht
  left l hl := by
    rcases getElem?_middle (x := (r', l')) hl with ⟨rfl, heq⟩ | ⟨-, hl⟩
    · obtain ⟨-, rfl⟩ := Prod.mk.inj heq
      exact fun _ _ => trivial
    · exact h.left l hl

lemma not_listed_firstStage (r : AuthCall) : ¬ (firstStage r).Listed := by
  cases r <;> exact not_false

lemma Sweep.start (h : Sweep config s₀ r i s ls) (hready : (authService config).ready s r') :
    Sweep config s₀ r i s (ls ++ [(r', firstStage r')]) where
  issues := h.issues
  users := h.users
  known l hl t ht := by
    rcases mem_append_of_getElem? hl with hl | heq
    · exact h.known l hl t ht
    · obtain ⟨rfl, -⟩ := Prod.mk.inj heq
      cases r with
      | logout t' =>
        obtain rfl : t = t' := ht
        exact hready
      | revokeAll u =>
        obtain ⟨issue, hissue, htoken, -⟩ := ht
        exact fun _ => ⟨issue, h.issues issue hissue, htoken⟩
      | resetPassword email code password =>
        obtain ⟨user, -, issue, hissue, htoken, -⟩ := ht
        exact fun _ => ⟨issue, h.issues issue hissue, htoken⟩
      | _ => exact ht.elim
  left l hl := by
    rcases mem_append_of_getElem? hl with hl | heq
    · exact h.left l hl
    · obtain ⟨-, rfl⟩ := Prod.mk.inj heq
      exact fun e _ => AuthStage.leaves_of_not_listed (not_listed_firstStage r') e.1

lemma Sweep.env (h : Sweep config s₀ r i s ls) (henv : AuthState.Env config s s') :
    Sweep config s₀ r i s' ls := by
  have hkeep : ∀ refresh : List (Token × String × ℕ), (∀ e ∈ refresh, e ∈ s.refresh) →
      Sweep config s₀ r i { s with refresh := refresh } ls :=
    fun refresh hrefresh => ⟨h.issues, h.users.trans (.of_eq rfl), h.known, fun l hl e he =>
      h.left l hl e (hrefresh e he)⟩
  cases henv with
  | expire token => exact hkeep _ fun _ he => (mem_filter.mp he).1
  | reorder refresh hperm => exact hkeep _ fun _ he => hperm.mem_iff.mpr he
  | _ => exact ⟨h.issues, h.users.trans (.of_eq rfl), h.known, h.left⟩

end Sweep

/-! ### Once the tokens are revoked -/

/-- Nothing that was obtained from the roots is stored or about to be replaced, and none of the
threads from `n` on has used it. -/
structure Dead (config : AuthConfig) (roots : Token → Prop) (n : ℕ) (s : AuthState)
    (ls : List (AuthCall × AuthStage)) : Prop where
  known : ∀ t, roots t → s.Known config t
  stored : ∀ e ∈ s.refresh, ¬ Descends s.issues roots e.1
  claims : ∀ rl ∈ ls, ∀ x ∈ rl.2.claim, ¬ Descends s.issues roots x.1
  later : ∀ j rl, n ≤ j → ls[j]? = some rl → ∀ t ∈ rl.2.uses, ¬ Descends s.issues roots t

section Dead

variable {config : AuthConfig} {roots : Token → Prop} {n : ℕ} {s s' : AuthState}
  {ls ls₁ ls₂ : List (AuthCall × AuthStage)} {r : AuthCall} {l l' : AuthStage} {c : AuthCmd}
  {t t' : Token}

lemma claim_uses {x : Token × String} (hx : x ∈ l.claim) : x.1 ∈ l.uses := by
  cases l with
  | holding | issuing =>
    cases hx
    rfl
  | drawn parent =>
    cases parent with
    | none => cases hx
    | some p =>
      cases hx
      rfl
  | _ => cases hx

/-- Only a refresh that reads its key takes up a token. -/
lemma claim_next (hallowed : l.Allows c) (a : c.Answer) (hread : ∀ t, l ≠ .reading t)
    {x : Token × String} (hx : x ∈ (l.next config c (some a)).claim) :
    ∃ u, (x.1, u) ∈ l.claim := by
  have huse := uses_next hallowed a hread x.1 (claim_uses hx)
  cases l with
  | holding | issuing =>
    cases huse
    exact ⟨_, rfl⟩
  | drawn parent u role t =>
    obtain rfl : parent = some x.1 := huse
    exact ⟨u, rfl⟩
  | stored parent =>
    obtain ⟨t, rfl⟩ := hallowed
    cases hx
  | _ => cases huse

/-- A refresh that reads its key finds no dead token. -/
lemma uses_reading (hallowed : (AuthStage.reading t).Allows c)
    (hx : t' ∈ ((AuthStage.reading t).next config c (some (c.exec config s).1)).uses) :
    ∃ e ∈ s.refresh, e.1 = t' := by
  rcases hallowed with rfl | rfl
  · replace hx : t' ∈ (AuthStage.next config (.reading t) (.getRevoked t)
      (some (s.revoked t).isSome)).uses := hx
    cases hrevoked : (s.revoked t).isSome <;> rw [hrevoked] at hx <;> cases hx
  · replace hx : t' ∈ (AuthStage.held t ((s.refresh.lookup t).map (·.1))).uses := hx
    rcases held_cases t ((s.refresh.lookup t).map (·.1)) with hidle | ⟨hvalue, u, role, hheld⟩
    · rw [hidle] at hx
      cases hx
    · rw [hheld] at hx
      obtain rfl : t = t' := Option.some.inj hx
      exact exists_of_lookup hvalue

lemma Dead.call (h : Dead config roots n s (ls₁ ++ (r, l) :: ls₂))
    (hinv : SessionsInv config s (ls₁ ++ (r, l) :: ls₂)) (hallowed : l.Allows c) :
    Dead config roots n (c.exec config s).2
      (ls₁ ++ (r, l.next config c (some (c.exec config s).1)) :: ls₂) := by
  have hclaim : ∀ x ∈ l.claim, ¬ Descends s.issues roots x.1 := h.claims (r, l) (by simp)
  have hdescends : ∀ {t}, Descends (c.exec config s).2.issues roots t → Descends s.issues roots t :=
    descends_exec hallowed hclaim
  -- a token that is read is stored, so it is none of those that are revoked
  have hread : ∀ t, l = .reading t →
      ∀ t' ∈ (l.next config c (some (c.exec config s).1)).uses, ¬ Descends s.issues roots t' := by
    rintro t rfl t' ht'
    obtain ⟨e, he, rfl⟩ := uses_reading hallowed ht'
    exact h.stored e he
  constructor
  · exact fun t ht => (h.known t ht).mono (exec_issues c)
  · intro e he hd
    rcases mem_exec_refresh he with he | ⟨value, parent, rfl⟩
    · exact h.stored e he (hdescends hd)
    · obtain ⟨u, role, rfl⟩ := allows_setRefresh hallowed
      exact (hinv.perm perm_middle).not_descends_of_drawn h.known (hdescends hd)
  · intro rl hrl x hx hd
    rcases mem_cons.mp (perm_middle.mem_iff.mp hrl) with rfl | hrl
    · by_cases hreading : ∃ t, l = .reading t
      · obtain ⟨t, hl⟩ := hreading
        exact hread t hl x.1 (claim_uses hx) (hdescends hd)
      · obtain ⟨u, hu⟩ := claim_next hallowed _ (fun t ht => hreading ⟨t, ht⟩) hx
        exact hclaim _ hu (hdescends hd)
    · exact h.claims rl (perm_middle.mem_iff.mpr (mem_cons_of_mem _ hrl)) x hx (hdescends hd)
  · intro j rl hj hrl t ht hd
    rcases getElem?_middle (x := (r, l)) hrl with ⟨rfl, rfl⟩ | ⟨-, hrl⟩
    · by_cases hreading : ∃ t, l = .reading t
      · obtain ⟨t', hl⟩ := hreading
        exact hread t' hl t ht (hdescends hd)
      · have huse := uses_next hallowed _ (fun t ht => hreading ⟨t, ht⟩) t ht
        exact h.later _ (r, l) hj (by simp) t huse (hdescends hd)
    · exact h.later j rl hj hrl t ht (hdescends hd)

lemma Dead.fault (h : Dead config roots n s (ls₁ ++ (r, l) :: ls₂)) :
    Dead config roots n s (ls₁ ++ (r, .idle) :: ls₂) where
  known := h.known
  stored := h.stored
  claims rl hrl x hx := by
    rcases mem_cons.mp (perm_middle.mem_iff.mp hrl) with rfl | hrl
    · cases hx
    · exact h.claims rl (perm_middle.mem_iff.mpr (mem_cons_of_mem _ hrl)) x hx
  later j rl hj hrl t ht := by
    rcases getElem?_middle (x := (r, l)) hrl with ⟨rfl, rfl⟩ | ⟨-, hrl⟩
    · cases ht
    · exact h.later j rl hj hrl t ht

lemma uses_firstStage (r : AuthCall) : (firstStage r).uses = none := by
  cases r <;> rfl

lemma Dead.start (h : Dead config roots n s ls) : Dead config roots n s (ls ++ [(r, firstStage r)]) where
  known := h.known
  stored := h.stored
  claims rl hrl x hx := by
    rcases mem_append.mp hrl with hrl | hrl
    · exact h.claims rl hrl x hx
    · rw [mem_singleton.mp hrl] at hx
      have huse := claim_uses hx
      rw [uses_firstStage] at huse
      cases huse
  later j rl hj hrl t ht := by
    rcases mem_append_of_getElem? hrl with hrl | rfl
    · exact h.later j rl hj hrl t ht
    · rw [uses_firstStage] at ht
      cases ht

lemma Dead.env (h : Dead config roots n s ls) (henv : AuthState.Env config s s') :
    Dead config roots n s' ls := by
  cases henv with
  | expire token =>
    exact ⟨h.known, fun e he => h.stored e (mem_filter.mp he).1, h.claims, h.later⟩
  | reorder refresh hperm =>
    exact ⟨h.known, fun e he => h.stored e (hperm.mem_iff.mpr he), h.claims, h.later⟩
  | _ => exact ⟨h.known, h.stored, h.claims, h.later⟩

end Dead

/-! ### The runs -/

section Runs

variable {config : AuthConfig} {s : AuthState} {roots : Token → Prop} {i : ℕ} {r : AuthCall}
  {l : AuthStage} {p : AuthM AuthReply} {ts : List (AuthCall × AuthM AuthReply)}
  {ls : List (AuthCall × AuthStage)}
  {P P' P₀ : Pool AuthCmd.Answer String AuthReply AuthState AuthCall}

/-- A thread that has listed the keys. -/
lemma revoking_of_listed (hfits : l.Fits s r) (hfollows : p.Follows (sessionStages config) Ends l)
    (hl : l.Listed) : Revoking r p := by
  cases l with
  | loggedOut t =>
    cases p with
    | ret reply =>
      match reply, hfollows with
      | .loggedOut, _ => trivial
    | raise e => exact hfollows.elim
    | call c next => exact hfollows.1.elim
  | sweeping u ts =>
    have hcalls := fits_sweep hfits (Or.inl ⟨ts, rfl⟩)
    cases p with
    | ret reply =>
      match reply, hfollows with
      | .revokedAll, _ | .reset true, _ => trivial
    | raise e => exact hfollows.elim
    | call c next =>
      cases ts with
      | nil =>
        obtain ⟨⟨email, rfl⟩, -⟩ := hfollows
        rcases hcalls with rfl | ⟨_, _, _, rfl, -⟩ <;> trivial
      | cons t ts =>
        obtain ⟨rfl : c = .getRefresh t, -⟩ := hfollows
        rcases hcalls with rfl | ⟨_, _, _, rfl, -⟩ <;> trivial
  | matched u t ts =>
    have hcalls := fits_sweep hfits (Or.inr ⟨t, ts, rfl⟩)
    obtain ⟨c, next, rfl, hc⟩ := call_of_follows hfollows trivial
    obtain rfl : c = .delRefresh t := hc
    rcases hcalls with rfl | ⟨_, _, _, rfl, -⟩ <;> trivial
  | _ => exact hl.elim

/-- A refresh that has read its key and still has to store a new one. -/
lemma rotating_of_claim {x : Token × String} (hfits : l.Fits s r)
    (hfollows : p.Follows (sessionStages config) Ends l) (hx : x ∈ l.claim) :
    r = .refresh x.1 ∧ Rotating p := by
  cases l with
  | holding t u role =>
    cases hx
    obtain ⟨c, next, rfl, hc⟩ := call_of_follows hfollows trivial
    obtain rfl : c = .delRefresh t := hc
    cases r with
    | refresh t' =>
      obtain rfl : t = t' := hfits
      exact ⟨rfl, trivial⟩
    | _ => exact hfits.elim
  | issuing t u role =>
    cases hx
    obtain ⟨c, next, rfl, secret, rfl⟩ := call_of_follows hfollows trivial
    cases r with
    | refresh t' =>
      obtain rfl : t = t' := hfits
      exact ⟨rfl, trivial⟩
    | _ => exact hfits.elim
  | drawn parent u role t =>
    cases parent with
    | none => cases hx
    | some p =>
      cases hx
      obtain ⟨c, next, rfl, hc⟩ := call_of_follows hfollows trivial
      obtain rfl : c = .setRefresh t (refreshValue u role) (some p) := hc
      cases r with
      | refresh t' =>
        obtain rfl : p = t' := Option.some.inj hfits
        exact ⟨rfl, trivial⟩
      | login => cases hfits
      | _ => exact hfits.elim
  | _ => cases hx

/-- What a quiet state says of the stages. -/
lemma quietStages (hinv : SessionsInv config s ls)
    (hts : Service.Staged (sessionStages config) Ends ts ls) (hquiet : Quiet roots i ⟨s, ts⟩) :
    QuietStages r i roots s ls := by
  intro l hl hlisted rl hrl x hx
  have hfits := hinv.fits _ (mem_of_getElem? hl)
  rcases Service.getElem?_related hts i with ⟨-, hnone⟩ | ⟨u, rl', hu, hrl', hrequest, hfollows⟩
  · rw [hl] at hnone
    cases hnone
  · obtain rfl : (r, l) = rl' := Option.some.inj (hl.symm.trans hrl')
    obtain rfl : u.1 = r := hrequest
    have hrotates := (hquiet u hu (revoking_of_listed hfits hfollows hlisted)).1
    obtain ⟨v, hv, hrequest, hfollows'⟩ := Service.exists_left hts hrl
    obtain ⟨hr, hrotating⟩ := rotating_of_claim (hinv.fits rl hrl) hfollows' hx
    exact fun hd => hrotates v hv x.1 (hrequest.trans hr) hd hrotating

/-- The tokens that are handed out, in every run. -/
lemma sessions_of_reachable (h : (authService config).system.Reachable P) :
    ∃ ls, Service.Staged (sessionStages config) Ends P.threads ls ∧
      SessionsInv config P.state ls := by
  have hrun : ((authService config).system.restrict fun _ _ => True).Reachable P :=
    h.restrict_true fun _ _ => trivial
  apply Service.staged_invariant (fun _ _ _ => True) follows_body _ _ _ _ _ _ hrun
  · exact fun _ _ _ _ _ _ => trivial
  · exact fun s ls r hinv hready _ => hinv.start hready
  · rintro s ls₁ ls₂ r l c hinv hallowed -
    exact ((hinv.perm perm_middle).call hallowed).perm perm_middle.symm
  · rintro s ls₁ ls₂ r l c hinv - - -
    show SessionsInv config s (ls₁ ++ (r, l.next config c none) :: ls₂)
    rw [next_none]
    exact (hinv.perm perm_middle).leave.perm perm_middle.symm
  · exact fun s s' ls hinv henv _ => hinv.env henv
  · exact fun s hs => .initial hs

/-- The call that revokes, in a quiet run that starts before it. -/
lemma sweep_of_quietRun (h₀ : (authService config).system.Reachable P₀)
    (hafter : P₀.threads.length ≤ i)
    (hrun : QuietRun config (Revokes P₀.state r) i P₀ P) :
    ∃ ls, Service.Staged (sessionStages config) Ends P.threads ls ∧
      SessionsInv config P.state ls ∧ Sweep config P₀.state r i P.state ls := by
  apply Service.staged_invariant_of_moves
    (I := fun s ls => SessionsInv config s ls ∧ Sweep config P₀.state r i s ls)
    (fun s ls _ => ∃ ts, Quiet (Revokes P₀.state r) i ⟨s, ts⟩ ∧
      Service.Staged (sessionStages config) Ends ts ls) follows_body _ _ _ _ _ hrun.1
  · obtain ⟨ls, hts, hinv⟩ := sessions_of_reachable h₀
    have hnone : ls[i]? = none := by
      rw [getElem?_eq_none_iff, ← hts.length_eq]
      exact hafter
    refine ⟨ls, hts, hinv, fun _ h => h, .of_eq rfl, fun l hl => ?_, fun l hl => ?_⟩ <;>
    · rw [hnone] at hl
      cases hl
  · exact fun s ts ls a hquiet hts => ⟨ts, hquiet, hts⟩
  · rintro s ls r' ⟨hinv, hsweep⟩ hready -
    exact ⟨hinv.start hready, hsweep.start hready⟩
  · rintro s ls₁ ls₂ r' l c ⟨hinv, hsweep⟩ hallowed ⟨ts, hquiet, hts⟩
    exact ⟨((hinv.perm perm_middle).call hallowed).perm perm_middle.symm,
      hsweep.call hinv hallowed (quietStages hinv hts hquiet)⟩
  · rintro s ls₁ ls₂ r' l c ⟨hinv, hsweep⟩ - - -
    show SessionsInv config s (ls₁ ++ (r', l.next config c none) :: ls₂) ∧
      Sweep config P₀.state r i s (ls₁ ++ (r', l.next config c none) :: ls₂)
    rw [next_none]
    exact ⟨(hinv.perm perm_middle).leave.perm perm_middle.symm, hsweep.fault⟩
  · rintro s s' ls ⟨hinv, hsweep⟩ henv -
    exact ⟨hinv.env henv, hsweep.env henv⟩

/-- The call has returned, so nothing that it revokes is stored. -/
lemma dead_of_done (hinv : SessionsInv config P.state ls) (hsweep : Sweep config s r i P.state ls)
    (hts : Service.Staged (sessionStages config) Ends P.threads ls)
    (hquiet : Quiet (Revokes s r) i P) {reply : AuthReply}
    (hdone : P.threads[i]? = some (r, .ret reply)) (hreply : reply.Revoked) :
    Dead config (Revokes s r) P.threads.length P.state ls := by
  obtain ⟨l, hl, hends⟩ : ∃ l, ls[i]? = some (r, l) ∧ Ends (.ok reply) l := by
    rcases Service.getElem?_related hts i with ⟨hnone, -⟩ | ⟨u, rl, hu, hrl, hrequest, hfollows⟩
    · rw [hdone] at hnone
      cases hnone
    · obtain rfl : (r, .ret reply) = u := Option.some.inj (hdone.symm.trans hu)
      obtain ⟨r', l⟩ := rl
      obtain rfl : r = r' := hrequest
      exact ⟨l, hrl, hfollows⟩
  have hfits := hinv.fits _ (mem_of_getElem? hl)
  have hstages : QuietStages r i (Revokes s r) P.state ls := quietStages hinv hts hquiet
  have hlast : (∃ t, l = .loggedOut t) ∨ ∃ u, l = .sweeping u [] := by
    match reply, hreply, hends with
    | .loggedOut, _, h => exact Or.inl h
    | .revokedAll, _, h | .reset true, _, h => exact Or.inr h
  have hlisted : l.Listed := by
    rcases hlast with ⟨t, rfl⟩ | ⟨u, rfl⟩ <;> trivial
  constructor
  · exact hsweep.known l hl
  · intro e he hd
    have hleft := hsweep.left l hl e he
    rcases hlast with ⟨t, rfl⟩ | ⟨u, rfl⟩
    · cases r with
      | logout t' =>
        obtain rfl : t = t' := hfits
        exact hleft (hd.eq_of_not_replaced ((hquiet _ hdone hreply).2 t rfl))
      | _ => exact hfits.elim
    · exact not_mem_nil (hleft hd)
  · exact hstages l hl hlisted
  · intro j rl hj hrl
    have hlt := (List.getElem?_eq_some_iff.mp hrl).1
    rw [← hts.length_eq] at hlt
    exact absurd hlt (not_lt.mpr hj)

/-- In a quiet run that starts before a call that revokes tokens, once the call has returned, no
refresh that is started later returns a new pair for a token that is revoked, or for one that was
obtained from it. -/
theorem revocation_complete (h₀ : (authService config).system.Reachable P₀)
    (hafter : P₀.threads.length ≤ i) (hrun : QuietRun config (Revokes P₀.state r) i P₀ P)
    {reply : AuthReply} (hdone : P.threads[i]? = some (r, .ret reply)) (hreply : reply.Revoked)
    (hrun' : Relation.ReflTransGen (authService config).system.Moves P P') {d : Token}
    (hd : Descends P'.state.issues (Revokes P₀.state r) d) {j : ℕ} (hj : P.threads.length ≤ j)
    (hlater : P'.threads[j]? = some (.refresh d, p)) : ¬ Returned p := by
  obtain ⟨ls, hts, hinv, hsweep⟩ := sweep_of_quietRun h₀ hafter hrun
  have hdead := dead_of_done hinv hsweep hts hrun.2 hdone hreply
  have hrun'' : Relation.ReflTransGen
      ((authService config).system.restrict fun _ _ => True).Moves P P' :=
    hrun'.lift id fun _ _ ⟨a, h⟩ => ⟨a, trivial, h⟩
  obtain ⟨ls', hts', hinv', hdead'⟩ : ∃ ls', Service.Staged (sessionStages config) Ends P'.threads ls' ∧
      SessionsInv config P'.state ls' ∧
      Dead config (Revokes P₀.state r) P.threads.length P'.state ls' := by
    apply Service.staged_invariant_of_moves
      (I := fun s ls => SessionsInv config s ls ∧
        Dead config (Revokes P₀.state r) P.threads.length s ls)
      (fun _ _ _ => True) follows_body _ _ _ _ _ hrun''
    · exact ⟨ls, hts, hinv, hdead⟩
    · exact fun _ _ _ _ _ _ => trivial
    · rintro s ls r' ⟨hinv, hdead⟩ hready -
      exact ⟨hinv.start hready, hdead.start⟩
    · rintro s ls₁ ls₂ r' l c ⟨hinv, hdead⟩ hallowed -
      exact ⟨((hinv.perm perm_middle).call hallowed).perm perm_middle.symm,
        hdead.call hinv hallowed⟩
    · rintro s ls₁ ls₂ r' l c ⟨hinv, hdead⟩ - - -
      show SessionsInv config s (ls₁ ++ (r', l.next config c none) :: ls₂) ∧
        Dead config _ _ s (ls₁ ++ (r', l.next config c none) :: ls₂)
      rw [next_none]
      exact ⟨(hinv.perm perm_middle).leave.perm perm_middle.symm, hdead.fault⟩
    · rintro s s' ls ⟨hinv, hdead⟩ henv -
      exact ⟨hinv.env henv, hdead.env henv⟩
  intro hreturned
  rcases Service.getElem?_related hts' j with ⟨hnone, -⟩ | ⟨u, rl, hu, hrl, hrequest, hfollows⟩
  · rw [hlater] at hnone
    cases hnone
  · obtain rfl : (.refresh d, p) = u := Option.some.inj (hlater.symm.trans hu)
    have hfits := hinv'.fits _ (mem_of_getElem? hrl)
    rw [← hrequest] at hfits
    exact hdead'.later j rl hj hrl d (uses_of_returned hfollows hfits hreturned) hd

end Runs

/-- The calls that name a token. -/
def AuthCall.NamesToken : AuthCall → Bool
  | .refresh _ | .logout _ => true
  | _ => false

/-- A run is quiet while no call names a token. -/
lemma quiet_of_namesToken {roots : Token → Prop} {i : ℕ}
    {P : Pool AuthCmd.Answer String AuthReply AuthState AuthCall}
    (h : ∀ v ∈ P.threads, v.1.NamesToken = false) : Quiet roots i P := by
  intro u hu _
  constructor
  · intro v hv t hr
    have hnames := h v hv
    rw [hr] at hnames
    cases hnames
  · intro t hr
    have hnames := h u (mem_of_getElem? hu)
    rw [hr] at hnames
    cases hnames

/-- A thread that has returned. -/
lemma eq_ret_of_outcome {u : Option (AuthCall × AuthM AuthReply)} {r : AuthCall} {reply : AuthReply}
    (h : u.map (fun u => (u.1, u.2.outcome)) = some (r, some (.ok reply))) :
    u = some (r, .ret reply) := by
  obtain ⟨⟨r', p⟩, rfl, heq⟩ := Option.map_eq_some_iff.mp h
  obtain ⟨rfl, hp⟩ := Prod.mk.inj heq
  cases p with
  | ret a =>
    obtain rfl : a = reply := Except.ok.inj (Option.some.inj hp)
    rfl
  | raise e => cases hp
  | call c next => cases hp

/-- The user has logged in. -/
def loggedIn : Pool AuthCmd.Answer String AuthReply AuthState AuthCall :=
  (authService sampleConfig).playAll ⟨oneUser, []⟩
    (.start (.login "alice@example.com" "secret") :: replicate 5 (.call 0))

lemma reachable_loggedIn : (authService sampleConfig).system.Reachable loggedIn := by
  have hreach : ((authService sampleConfig).system.restrict fun _ _ => True).Reachable loggedIn :=
    Service.reachable_playAll_of_closed init_oneUser (by decide +kernel)
  exact hreach.of_restrict

/-- All tokens of the user are revoked. -/
def revokedAll : Pool AuthCmd.Answer String AuthReply AuthState AuthCall :=
  (authService sampleConfig).playAll loggedIn (.start (.revokeAll "a1") :: replicate 3 (.call 1))

/-- The token that was handed out at the login is presented again. -/
def refreshedLate : Pool AuthCmd.Answer String AuthReply AuthState AuthCall :=
  (authService sampleConfig).playAll revokedAll
    (.start (.refresh (sampleConfig.uuid 0)) :: replicate 2 (.call 2))

lemma owned_loggedIn : loggedIn.state.OwnedBy (sampleConfig.uuid 0) "a1" :=
  ⟨⟨sampleConfig.uuid 0, "a1", none⟩, by decide +kernel, rfl, by decide +kernel⟩

lemma quietRun_revokedAll (roots : Token → Prop) :
    QuietRun sampleConfig roots 1 loggedIn revokedAll := by
  have hrun : Relation.ReflTransGen ((authService sampleConfig).system.restrict
      fun P _ => ∀ v ∈ P.threads, v.1.NamesToken = false).Moves loggedIn revokedAll :=
    Service.moves_playAll (Service.AllLegal.of_closed (by decide +kernel))
  refine ⟨TransitionSystem.moves_restrict_mono ?_ hrun, quiet_of_namesToken (by decide +kernel)⟩
  exact fun P a hnames => quiet_of_namesToken hnames

lemma done_revokedAll : revokedAll.threads[1]? = some (.revokeAll "a1", .ret .revokedAll) :=
  eq_ret_of_outcome (by decide +kernel)

theorem revocation_complete_refreshedLate : ∃ p,
    refreshedLate.threads[2]? = some (.refresh (sampleConfig.uuid 0), p) ∧ ¬ Returned p := by
  have hlater : refreshedLate.threads[2]? =
      some (.refresh (sampleConfig.uuid 0), .ret (.tokens none)) :=
    eq_ret_of_outcome (by decide +kernel)
  have hrun : Relation.ReflTransGen ((authService sampleConfig).system.restrict
      fun _ _ => True).Moves revokedAll refreshedLate :=
    Service.moves_playAll (Service.AllLegal.of_closed (by decide +kernel))
  refine ⟨_, hlater, revocation_complete reachable_loggedIn (by decide +kernel)
    (quietRun_revokedAll _) done_revokedAll trivial (TransitionSystem.moves_of_restrict hrun)
    (.root owned_loggedIn) (by decide +kernel) hlater⟩

/-- A refresh has read the token of the login; then all tokens of the user are revoked. -/
def revokedAmidst : Pool AuthCmd.Answer String AuthReply AuthState AuthCall :=
  (authService sampleConfig).playAll loggedIn
    ([.start (.refresh (sampleConfig.uuid 0))] ++ replicate 2 (.call 1) ++
      [.start (.revokeAll "a1")] ++ replicate 3 (.call 2))

/-- The refresh stores the new token, which is presented. -/
def refreshedAgain : Pool AuthCmd.Answer String AuthReply AuthState AuthCall :=
  (authService sampleConfig).playAll revokedAmidst
    (replicate 4 (.call 1) ++ [.start (.refresh (sampleConfig.uuid 1))] ++ replicate 6 (.call 3))

/-- A token that replaces one of those that are revoked is accepted after the revocation. -/
theorem replaced_token_survives : ¬ ∀ (config : AuthConfig)
    (P₀ P P' : Pool AuthCmd.Answer String AuthReply AuthState AuthCall) (i : ℕ) (r : AuthCall)
    (reply : AuthReply) (d : Token) (j : ℕ) (p : AuthM AuthReply),
    (authService config).system.Reachable P₀ → P₀.threads.length ≤ i →
    Relation.ReflTransGen (authService config).system.Moves P₀ P →
    P.threads[i]? = some (r, .ret reply) → reply.Revoked →
    Relation.ReflTransGen (authService config).system.Moves P P' →
    Descends P'.state.issues (Revokes P₀.state r) d → P.threads.length ≤ j →
    P'.threads[j]? = some (.refresh d, p) → ¬ Returned p := by
  intro h
  have hrun : Relation.ReflTransGen ((authService sampleConfig).system.restrict
      fun _ _ => True).Moves loggedIn revokedAmidst :=
    Service.moves_playAll (Service.AllLegal.of_closed (by decide +kernel))
  have hrun' : Relation.ReflTransGen ((authService sampleConfig).system.restrict
      fun _ _ => True).Moves revokedAmidst refreshedAgain :=
    Service.moves_playAll (Service.AllLegal.of_closed (by decide +kernel))
  have hdone : revokedAmidst.threads[2]? = some (.revokeAll "a1", .ret .revokedAll) :=
    eq_ret_of_outcome (by decide +kernel)
  have hlater : refreshedAgain.threads[3]? = some (.refresh (sampleConfig.uuid 1),
      .ret (.tokens (some ⟨"a1", sampleConfig.uuid 2⟩))) :=
    eq_ret_of_outcome (by decide +kernel)
  have hissued : ⟨sampleConfig.uuid 1, "a1", some (sampleConfig.uuid 0)⟩ ∈
      refreshedAgain.state.issues := by
    decide +kernel
  refine h sampleConfig loggedIn revokedAmidst refreshedAgain 2 (.revokeAll "a1") .revokedAll
    (sampleConfig.uuid 1) 3 _ reachable_loggedIn (by decide +kernel)
    (TransitionSystem.moves_of_restrict hrun) hdone trivial
    (TransitionSystem.moves_of_restrict hrun') ?_ (by decide +kernel) hlater rfl
  exact .rotated hissued rfl (.root owned_loggedIn)

end Pokerhub.Auth
