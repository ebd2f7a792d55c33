import Marketplace.Lib.Told
import Marketplace.Auth.Service
import Marketplace.System.Identity

/-!
# Whom auth-service signs tokens for

A call of auth-service learns of users from the rows it reads, and the tokens it answers with are for
one of them.

* `hears`           the users in an answer of the database;
* `Given`           what is in an answer with tokens: an access token and a refresh token of a user;
* `told_login`, `told_refresh`   whatever the database answers, the tokens are for a user it has named;
* `users_step`      no move of these calls changes a user.
-/

set_option linter.unusedSectionVars false

namespace Marketplace.System.Issued

open Interleave Service ReadCommitted Marketplace.Auth Identity

/-- the users in a row -/
def found : (q : Stmt) → Row q → List User
  | .findByEmail _, a => a.toList
  | .findUser _, a => a.toList
  | .findByTokenHash _, _ => []
  | .insertToken _ _ _, _ => []
  | .updateToken _, _ => []
  | .snapshotTokens _, _ => []
  | .revokeToken _ _, _ => []

def hears : (c : Cmd Stmt Ask) → Ans Row Reply c → List User
  | .sql q, .ok a => found q a
  | .sql _, .error _ => []
  | .begin, _ => []
  | .commit, _ => []
  | .rollback, _ => []
  | .remote _, _ => []

/-- a call may send what it likes -/
def anything (_ : Cmd Stmt Ask) (_ : List User) : Prop := True

/-! ## what a call answers with -/

/-- tokens for a user -/
structure Given (j : JwtUtil) (user : User) (t : TokenResponse) : Prop where
  access : ∃ issued,
    t.accessToken = j.generateAccessToken user.userID user.email user.role.name issued
  refresh : ∃ jti issued, t.refreshToken = j.generateRefreshToken user.userID jti issued

theorem Given.issuedFor {j : JwtUtil} {user : User} {t : TokenResponse} (h : Given j user t) :
    IssuedFor j user t.accessToken ∧ IssuedFor j user t.refreshToken := by
  obtain ⟨issued, ha⟩ := h.access
  obtain ⟨jti, now, hr⟩ := h.refresh
  rw [ha, hr]
  exact ⟨.access issued, .refresh jti now⟩

/-- an answer with tokens is for somebody that was named -/
def Named (j : JwtUtil) (r : Except Err Answer) (g : List User) : Prop :=
  ∀ t, r = .ok (.tokens t) → ∃ user ∈ g, Given j user t

section
variable {A : AuthServiceImpl} {g : List User} {user : User}

theorem told_exec {q : Stmt} {Φ : Row q → List User → Prop} (h : ∀ a, Φ a (found q a ++ g)) :
    Told hears anything (exec q) g Φ :=
  Told.sql trivial h

theorem told_orThrow {α : Type} {r : Except Jwt.Err α} {Φ : α → List User → Prop}
    (h : ∀ a, Φ a g) : Told hears anything (orThrow r : Op α) g Φ := by
  cases r with
  | ok a => exact Told.pure (h a)
  | error e =>
    cases e with
    | invalidToken m => exact Told.throw _
    | other => exact Told.throw _

/-- nothing is named by a clock or a random number -/
theorem told_ask {r : Ask} {Φ : Reply r → List User → Prop} (h : ∀ a, Φ a g) :
    Told hears anything (remote r : Op (Reply r)) g Φ :=
  Told.remote trivial h

theorem told_newTokens (hu : user ∈ g) :
    Told hears anything (A.newTokens user) g fun t g => user ∈ g ∧ Given A.jwtUtil user t.1 := by
  refine Told.bind (told_ask (Φ := fun _ g' => g' = g) fun _ => rfl) fun issued g₁ h₁ => ?_
  refine Told.bind (told_ask (Φ := fun _ g' => g' = g) fun _ => h₁) fun jti g₂ h₂ => ?_
  refine Told.bind (told_ask (Φ := fun _ g' => g' = g) fun _ => h₂) fun reissued g₃ h₃ => ?_
  refine Told.bind (told_ask (Φ := fun _ g' => g' = g) fun _ => h₃) fun recorded g₄ h₄ => ?_
  subst h₄
  exact Told.pure ⟨hu, ⟨issued, rfl⟩, jti, reissued, rfl⟩

theorem told_insertToken {u : UUID} {h : String} {expiresAt : Time} {t : TokenResponse}
    (ht : user ∈ g ∧ Given A.jwtUtil user t) :
    Told hears anything (exec (.insertToken u h expiresAt)) g
      fun _ g => user ∈ g ∧ Given A.jwtUtil user t :=
  told_exec fun _ => ht

theorem told_login (email password : String) :
    Told hears anything (A.loginBody email password) g fun t g => ∃ user ∈ g, Given A.jwtUtil user t := by
  unfold AuthServiceImpl.loginBody
  refine Told.bind (told_exec (Φ := fun a g' => ∀ user, a = some user → user ∈ g') ?_)
    fun a g₁ h₁ => ?_
  · rintro a user rfl
    exact List.mem_append_left _ (Option.mem_toList.mpr rfl)
  · cases a with
    | none => exact Told.throw _
    | some user =>
      dsimp only
      split
      · exact Told.throw _
      · split
        · exact Told.throw _
        · refine Told.bind (told_newTokens (h₁ user rfl)) fun t g₂ h₂ => ?_
          refine Told.bind (told_insertToken h₂) fun _ g₃ h₃ => ?_
          exact Told.pure ⟨user, h₃.1, h₃.2⟩

theorem told_refreshToken (token : String) :
    Told hears anything (A.refreshTokenBody token) g fun t g => ∃ user ∈ g, Given A.jwtUtil user t := by
  unfold AuthServiceImpl.refreshTokenBody
  refine Told.bind (told_ask (Φ := fun _ _ => True) fun _ => trivial) fun asked g₁ _ => ?_
  split
  · exact Told.throw _
  · refine Told.bind (told_ask (Φ := fun _ _ => True) fun _ => trivial) fun typed g₂ _ => ?_
    refine Told.bind (told_orThrow (Φ := fun _ _ => True) fun _ => trivial) fun b g₃ _ => ?_
    split
    · exact Told.throw _
    · refine Told.bind (told_exec (Φ := fun _ _ => True) fun _ => trivial) fun row g₄ _ => ?_
      cases row with
      | none => exact Told.throw _
      | some stored =>
        refine Told.bind (told_ask (Φ := fun _ _ => True) fun _ => trivial) fun looked g₅ _ => ?_
        split
        · exact Told.throw _
        · refine Told.bind (told_ask (Φ := fun _ _ => True) fun _ => trivial) fun read g₆ _ => ?_
          refine Told.bind (told_orThrow (Φ := fun _ _ => True) fun _ => trivial) fun u g₇ _ => ?_
          refine Told.bind (told_exec (Φ := fun a g' => ∀ user, a = some user → user ∈ g') ?_)
            fun a g₈ h₈ => ?_
          · rintro a user rfl
            exact List.mem_append_left _ (Option.mem_toList.mpr rfl)
          · cases a with
            | none => exact Told.throw _
            | some user =>
              dsimp only
              split
              · exact Told.throw _
              · refine Told.bind (told_newTokens (h₈ user rfl)) fun t g₉ h₉ => ?_
                refine Told.bind (told_insertToken h₉) fun _ g' h' => ?_
                refine Told.bind (told_exec
                  (Φ := fun _ g => user ∈ g ∧ Given A.jwtUtil user t.1) fun _ => h')
                  fun _ g'' h'' => ?_
                exact Told.pure ⟨user, h''.1, h''.2⟩

/-- **tokens are for a user that the database has named** -/
theorem told_op (i : Invocation) : (i.op A).run.Told hears anything [] (Named A.jwtUtil) := by
  have hbody : Told hears anything (i.body A) [] fun a g =>
      ∀ t, a = .tokens t → ∃ user ∈ g, Given A.jwtUtil user t := by
    cases i with
    | login email password =>
      refine Told.bind (told_login email password) fun t g h => Told.pure ?_
      intro t' ht'
      cases ht'
      exact h
    | refreshToken token =>
      refine Told.bind (told_refreshToken token) fun t g h => Told.pure ?_
      intro t' ht'
      cases ht'
      exact h
    | logout u =>
      refine Told.bind (Told.any (fun _ _ => trivial) (AuthServiceImpl.revokeAllForUser u) (Φ := fun _ _ => True)
        fun _ _ => trivial) fun n g _ => Told.pure ?_
      intro t ht
      cases ht
  refine Prog.Told.mono (Told.inTx (fun _ => ⟨trivial, trivial, trivial⟩) (fun r => ?_) (fun r => ?_) hbody) fun r g h t ht => h _ ht t rfl
  · rfl
  · rfl

end

/-! ## the rows that are read -/

section
variable {P : Type} [DecidableEq P] {p : P} {s t : St P}

theorem users_applyAll (ws : List Write) (d : Db) : (applyAll ws d).users = d.users :=
  applyAll_rel (fun d e : Db => e.users = d.users) (fun _ => rfl) (fun _ _ _ h h' => h'.trans h)
    ws (fun w _ d => by cases w <;> rfl) d

theorem users_view (s : St P) (p : P) : (s.view p).users = s.committed.users := users_applyAll _ _

/-- what a statement finds is a row of the table -/
theorem found_mem {q : Stmt} {x : Choice Unit} {a : Row q} (h : stmt p q x s = some (.ok a, t)) :
    ∀ u ∈ found q a, u ∈ s.committed.users := by
  intro u hu
  rw [← users_view s p]
  cases q with
  | findByEmail email =>
    cases h
    exact List.mem_of_find?_eq_some (Option.mem_toList.mp hu)
  | findUser w =>
    cases h
    exact List.mem_of_find?_eq_some (Option.mem_toList.mp hu)
  | findByTokenHash h => cases hu
  | insertToken w h expiresAt => cases hu
  | updateToken entity => cases hu
  | snapshotTokens w => cases hu
  | revokeToken i w => cases hu

theorem heard_mem {c : Cmd Stmt Ask} {x : Choice Unit} {a : Ans Row Reply c}
    {σ τ : State P Db Write Lock (Reads P)} (h : spec.machine.exec p c x σ = some (a, τ)) :
    ∀ u ∈ hears c a, u ∈ σ.store.committed.users := by
  have h : spec.exec p c x σ = some (a, τ) := h
  cases c with
  | begin => exact fun u hu => by cases hu
  | commit => exact fun u hu => by cases hu
  | rollback => exact fun u hu => by cases hu
  | remote r => exact fun u hu => by cases hu
  | sql q =>
    cases a with
    | error e => exact fun u hu => by cases hu
    | ok a =>
      simp only [Spec.exec] at h
      split at h
      · obtain ⟨⟨b, s⟩, hs, he⟩ := Option.map_eq_some_iff.mp h
        obtain ⟨hb, -⟩ := Prod.mk.inj he
        have hb : b = .ok a := hb
        subst hb
        exact found_mem hs
      · cases h

/-- no move of these calls changes a user -/
theorem users_step {σ τ : Config P} {a : Act P (Choice Unit)} (h : spec.machine.step σ a = some τ) :
    τ.state.store.committed.users = σ.state.store.committed.users := by
  rcases Spec.step_store h with ⟨p, -, he⟩ | ⟨he, -⟩
  · rw [he]
    exact users_view _ _
  · rw [he]

end

end Marketplace.System.Issued
