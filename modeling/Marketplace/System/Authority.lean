import Marketplace.Accounts.Linear
import Marketplace.System.Entry
import Marketplace.System.Issued

/-!
# Nobody acts beyond a role

The platform as a whole, as far as it is a matter of who may do what: people register and change their
accounts, log in and exchange tokens, and send requests to all services, in any order and interleaved
statement by statement.

* `Platform`         the calls, the libraries, the keys;
* `World`, `Step`    registrations and profiles; sessions, which read the users that are committed;
                     requests that a handler is entered for.  A token that verifies is one that
                     auth-service has answered with: nobody else has the secret;
* `Member`           somebody is registered in a role, by a call that grants it;
* `Entry.Rightful`   what has to stand behind an entry;
* `entries_rightful` **every entry of every run is rightful**;
* `login_opens`      and who has logged in gets to all handlers of the role, and to no other.
-/

set_option linter.unusedSectionVars false

namespace Marketplace.System.Authority

open Interleave Service ReadCommitted UniqueKeys Marketplace.Auth Verifiers Identity Doors Issued
open Accounts (PasswordEncoder)

/-! ## the platform -/

structure Platform (N Q : Type) where
  /-- the calls of auth-, customer- and seller-service that concern accounts and profiles -/
  members : N → Accounts.Invocation
  /-- the calls of auth-service that concern tokens -/
  logins : Q → Auth.Invocation
  authService : AuthServiceImpl
  libraries : Time → Libraries
  trusted : ∀ now, Trusted (libraries now) authService.jwtUtil
  keys : Doors.Service → List Char

/-- a request that a handler has been entered for -/
structure Entry where
  service : Doors.Service
  request : Doors.Request
  handler : Handler
  who : Option UUID

structure World (N Q : Type) where
  accounts : Accounts.Config N
  sessions : Auth.Config Q
  entries : List Entry

/-- the columns of a user that tokens are about -/
def forAuth (x : Accounts.User) : Auth.User := ⟨x.userID, x.email, x.passwordHash, x.role, x.status⟩

/-- the table users -/
def tableOf (d : Accounts.Db) : List Auth.User := (d.rows.filterMap Accounts.Row.user?).map forAuth

section
variable {N Q : Type} [DecidableEq N] [DecidableEq Q] [PasswordEncoder]

/-- the sessions with the users as they are committed -/
def withUsers (d : Accounts.Db) (σ : Auth.Config Q) : Auth.Config Q :=
  { σ with
    state :=
      { σ.state with
        store :=
          { σ.state.store with
            committed := { σ.state.store.committed with users := tableOf d } } } }

/-- the token that the verifier of a service reads in a header -/
def tokenIn : Doors.Service → List Char → Option (List Char)
  | .auth | .customer | .seller => extractJwtFromRequest
  | .request | .admin => bearerToken
  | .offer | .notification => pythonToken

/-- auth-service has answered with the token -/
def HandedOut (σ : Auth.Config Q) (token : List Char) : Prop :=
  ∃ q t, σ.prog q = some (.ret (.ok (.tokens t))) ∧
    (token = t.accessToken.toList ∨ token = t.refreshToken.toList)

variable (E : Platform N Q)

def start : World N Q where
  accounts := Accounts.start E.members
  sessions := Auth.start E.authService E.logins ⟨[], []⟩
  entries := []

inductive Step : World N Q → World N Q → Prop
  | account {w : World N Q} {a : Act N (Choice Unit)} {σ : Accounts.Config N}
      (h : Accounts.spec.machine.step w.accounts a = some σ) :
      Step w ⟨σ, withUsers σ.state.store.committed w.sessions, w.entries⟩
  | session {w : World N Q} {a : Act Q (Choice Unit)} {σ : Auth.Config Q}
      (h : Auth.spec.machine.step w.sessions a = some σ) : Step w { w with sessions := σ }
  | enter {w : World N Q} (now : Time) (s : Doors.Service) (r : Doors.Request) {h : Handler}
      {who : Option UUID} (hs : serve (E.libraries now) (E.keys s) r s = .entered h who)
      (ht : ∀ token, tokenIn s r.authorization = some token →
        ((E.libraries now).verify token).isSome = true → HandedOut w.sessions token) :
      Step w { w with entries := ⟨s, r, h, who⟩ :: w.entries }

def Reaches : World N Q → Prop := Relation.ReflTransGen (Step E) (start E)

/-! ## what is to hold -/

/-- somebody is registered in a role, by a call that grants it -/
def Member (s : Accounts.St N) (u : UUID) (role : Role) : Prop :=
  (∃ x : Accounts.User, Accounts.Row.user x ∈ s.committed.rows ∧ x.userID = u ∧ x.role = role) ∧
    ∃ c ∈ s.log, (E.members c.tx).grants = some role

def Entry.Rightful (s : Accounts.St N) (e : Entry) : Prop :=
  match e.handler.access with
  | .anyone => ∀ u, e.who = some u → ∃ role, Member E s u role
  | .member => ∃ u role, e.who = some u ∧ Member E s u role
  | .only role => ∃ u, e.who = some u ∧ Member E s u role
  | .services => e.who = none ∧ e.service.hasKey (E.keys e.service) e.request
  | .nobody => False

structure Inv (w : World N Q) : Prop where
  accounts : Runs Accounts.spec.machine (Accounts.start E.members) w.accounts
  users : w.sessions.state.store.committed.users = tableOf w.accounts.state.store.committed
  sessions : Informed hears (fun _ => anything) (fun u => Member E w.accounts.state.store u.userID u.role)
    (fun _ => Named E.authService.jwtUtil) w.sessions
  entries : ∀ e ∈ w.entries, e.Rightful E w.accounts.state.store

end

/-! ## members -/

section
variable {N Q : Type} [DecidableEq N] [DecidableEq Q] [PasswordEncoder] {E : Platform N Q}
  {s t : Accounts.St N} {u : UUID} {role : Role} {w : World N Q}

theorem mem_tableOf {d : Accounts.Db} {user : Auth.User} (h : user ∈ tableOf d) :
    ∃ x, Accounts.Row.user x ∈ d.rows ∧ forAuth x = user := by
  obtain ⟨x, hx, hu⟩ := List.mem_map.mp h
  obtain ⟨r, hr, hx⟩ := List.mem_filterMap.mp hx
  cases r with
  | user y =>
    cases hx
    exact ⟨x, hr, hu⟩
  | profile f => cases hx

/-- whoever stands in the table is a member -/
theorem member_of_table {σ : Accounts.Config N}
    (h : Runs Accounts.spec.machine (Accounts.start E.members) σ) {user : Auth.User}
    (hu : user ∈ tableOf σ.state.store.committed) :
    Member E σ.state.store user.userID user.role := by
  obtain ⟨x, hx, rfl⟩ := mem_tableOf hu
  exact ⟨⟨x, hx, rfl, rfl⟩, Accounts.granted_by h hx⟩

/-- who is a member stays one -/
theorem Member.step {σ τ : Accounts.Config N} {a : Act N (Choice Unit)}
    (h : Runs Accounts.spec.machine (Accounts.start E.members) σ)
    (hs : Accounts.spec.machine.step σ a = some τ) (hm : Member E σ.state.store u role) :
    Member E τ.state.store u role := by
  obtain ⟨⟨x, hx, hid, hrole⟩, c, hc, hg⟩ := hm
  obtain ⟨v, hv, hvid, hvrole⟩ := Accounts.registered_step h hs hx
  refine ⟨⟨v, hv, hvid.trans hid, hvrole.trans hrole⟩, c, ?_, hg⟩
  rcases Spec.step_store hs with ⟨p, -, he⟩ | ⟨-, hl⟩
  · rw [he]
    exact List.mem_cons_of_mem _ hc
  · rw [hl]
    exact hc

theorem Entry.Rightful.mono {e : Entry} (h : e.Rightful E s)
    (hm : ∀ u role, Member E s u role → Member E t u role) : e.Rightful E t := by
  unfold Entry.Rightful at h ⊢
  split
  · next ha =>
    rw [ha] at h
    intro u hu
    obtain ⟨role, hr⟩ := h u hu
    exact ⟨role, hm u role hr⟩
  · next ha =>
    rw [ha] at h
    obtain ⟨u, role, hu, hr⟩ := h
    exact ⟨u, role, hu, hm u role hr⟩
  · next role ha =>
    rw [ha] at h
    obtain ⟨u, hu, hr⟩ := h
    exact ⟨u, hu, hm u role hr⟩
  · next ha =>
    rw [ha] at h
    exact h
  · next ha =>
    rw [ha] at h
    exact h

/-! ## tokens -/

theorem token_of_who {L : Libraries} {sv : Doors.Service} {header : List Char} {j : Json}
    (h : sv.whoOf L header = some (u, j)) : ∃ token c v, tokenIn sv header = some token ∧
      L.verify token = some c ∧ L.identity c v = some (u, j) := by
  have split : ∀ {read : Option (List Char)} {v : Verifier},
      (read.bind fun t => (L.verify t).bind fun c => L.identity c v) = some (u, j) →
      ∃ token c v, read = some token ∧ L.verify token = some c ∧
        L.identity c v = some (u, j) := by
    intro read v h
    obtain ⟨token, ht, h⟩ := Option.bind_eq_some_iff.mp h
    obtain ⟨c, hc, h⟩ := Option.bind_eq_some_iff.mp h
    exact ⟨token, c, v, ht, hc, h⟩
  cases sv with
  | auth | customer | seller => exact split ((L.whoJava_eq header).symm.trans h)
  | request | admin => exact split ((L.whoGo_eq header).symm.trans h)
  | offer | notification => exact split ((L.whoPython_eq header).symm.trans h)

/-- whoever a service takes a sender for is a member, in the role that the token tells -/
theorem Inv.sender (hi : Inv E w) {now : Time} {sv : Doors.Service} {header : List Char} {j : Json}
    (ht : ∀ token, tokenIn sv header = some token →
      ((E.libraries now).verify token).isSome = true → HandedOut w.sessions token)
    (h : sv.whoOf (E.libraries now) header = some (u, j)) :
    ∃ role, j = .str role.name ∧ Member E w.accounts.state.store u role := by
  obtain ⟨token, c, v, hread, hc, hident⟩ := token_of_who h
  obtain ⟨q, t, hq, htoken⟩ := ht token hread (Option.isSome_iff_exists.mpr ⟨c, hc⟩)
  obtain ⟨g, hg, hnamed⟩ := hi.sessions.ends hq
  obtain ⟨user, hmem, hgiven⟩ := hnamed t rfl
  have hmember := hg user hmem
  obtain ⟨haccess, hrefresh⟩ := hgiven.issuedFor
  have hwho : u = user.userID ∧ j = .str user.role.name := by
    rcases htoken with e | e
    · exact identity_issued (E.trusted now) haccess (e ▸ hc) hident
    · exact identity_issued (E.trusted now) hrefresh (e ▸ hc) hident
  obtain ⟨rfl, rfl⟩ := hwho
  exact ⟨user.role, rfl, hmember⟩

/-- what a handler takes for granted is so -/
theorem rightful_entry (hi : Inv E w) {now : Time} {sv : Doors.Service} {r : Doors.Request}
    {h : Handler} {who : Option UUID}
    (hs : serve (E.libraries now) (E.keys sv) r sv = .entered h who)
    (ht : ∀ token, tokenIn sv r.authorization = some token →
      ((E.libraries now).verify token).isSome = true → HandedOut w.sessions token) :
    (⟨sv, r, h, who⟩ : Entry).Rightful E w.accounts.state.store := by
  have hmeant := serve_entered sv hs
  show match h.access with
    | .anyone => ∀ u, who = some u → ∃ role, Member E w.accounts.state.store u role
    | .member => ∃ u role, who = some u ∧ Member E w.accounts.state.store u role
    | .only role => ∃ u, who = some u ∧ Member E w.accounts.state.store u role
    | .services => who = none ∧ sv.hasKey (E.keys sv) r
    | .nobody => False
  cases ha : h.access with
  | anyone =>
    rw [ha] at hmeant
    intro u hu
    obtain ⟨j, hj⟩ := hmeant u hu
    obtain ⟨role, -, hm⟩ := hi.sender ht hj
    exact ⟨role, hm⟩
  | member =>
    rw [ha] at hmeant
    obtain ⟨u, j, hj, hu⟩ := hmeant
    obtain ⟨role, -, hm⟩ := hi.sender ht hj
    exact ⟨u, role, hu, hm⟩
  | only role =>
    rw [ha] at hmeant
    obtain ⟨u, hj, hu⟩ := hmeant
    obtain ⟨ro, hro, hm⟩ := hi.sender ht hj
    have heq : role = ro := name_inj (Json.str.inj hro)
    exact ⟨u, hu, heq ▸ hm⟩
  | services =>
    rw [ha] at hmeant
    rcases hmeant with ⟨hk, hu⟩ | ⟨u, hj, -⟩
    · exact ⟨hu, hk⟩
    · obtain ⟨ro, hro, -⟩ := hi.sender ht hj
      exact absurd (Json.str.inj hro).symm (name_ne_internal ro)
  | nobody =>
    rw [ha] at hmeant
    obtain ⟨u, hj, -⟩ := hmeant
    obtain ⟨ro, hro, -⟩ := hi.sender ht hj
    exact name_ne_internal ro (Json.str.inj hro).symm

/-! ## every run -/

theorem inv_start : Inv E (start E) where
  accounts := .refl
  users := rfl
  sessions := by
    intro q m hm
    obtain rfl := Option.some.inj hm
    exact ⟨[], fun u hu => absurd hu List.not_mem_nil, told_op (E.logins q)⟩
  entries e he := absurd he List.not_mem_nil

theorem inv_step {w' : World N Q} (hi : Inv E w) (hs : Step E w w') : Inv E w' := by
  cases hs with
  | account h =>
    have hm : ∀ u role, Member E w.accounts.state.store u role → Member E _ u role :=
      fun u role hm => hm.step hi.accounts h
    exact
      { accounts := hi.accounts.tail _ h
        users := rfl
        sessions := hi.sessions.mono fun u hu => hm u.userID u.role hu
        entries := fun e he => (hi.entries e he).mono hm }
  | session h =>
    exact
      { accounts := hi.accounts
        users := (users_step h).trans hi.users
        sessions := hi.sessions.step h fun p c k x b s _ hx u hu =>
          member_of_table hi.accounts (hi.users ▸ heard_mem hx u hu)
        entries := hi.entries }
  | enter now sv r hserve ht =>
    refine ⟨hi.accounts, hi.users, hi.sessions, fun e he => ?_⟩
    rcases List.mem_cons.mp he with rfl | he
    · exact rightful_entry hi hserve ht
    · exact hi.entries e he

theorem inv_reaches (h : Reaches E w) : Inv E w := by
  unfold Reaches at h
  induction h with
  | refl => exact inv_start
  | tail _ hs ih => exact inv_step ih hs

/-- **Every handler is entered by whom it is for.**  People register, log in, exchange tokens and send
requests, interleaved statement by statement; whatever a request looks like, a handler for a role is
entered only by a user who is registered in that role, by a call that registers people in it (for ADMIN
that is the bootstrap), a handler for services only with the key of the service, and the metrics by
nobody. -/
theorem entries_rightful (E : Platform N Q) (h : Reaches E w) :
    ∀ e ∈ w.entries, e.Rightful E w.accounts.state.store := (inv_reaches h).entries

/-- **A login opens all doors of a role, in every service, and no other.**  Once a call has answered
with tokens, there is a user, registered in a role, to whom every service gives every handler for the
role, as long as the access token is good, and refuses every other. -/
theorem login_opens (E : Platform N Q) (h : Reaches E w) {q : Q} {t : TokenResponse}
    (hq : w.sessions.prog q = some (.ret (.ok (.tokens t)))) :
    ∃ (user : Auth.User) (issued : Time), Member E w.accounts.state.store user.userID user.role ∧
      (Fits user.userID → ∀ (now : Time) (s : Doors.Service) (r : Doors.Request) (h : Handler),
        (E.libraries now).uuidParse (UUID.toText user.userID) = some user.userID →
        (∀ v, (E.libraries now).passes v
          (accessClaims E.authService.jwtUtil.expiryMinutes user issued) = true) →
        ((E.libraries now).verify t.accessToken.toList).isSome = true →
        r.authorization = bearer t.accessToken → r.internalAPIKey = [] → Plain r →
        s.handlerOf r = some h →
        serve (E.libraries now) (E.keys s) r s =
          if h.access.admits user.role = true then .entered h (s.shows user.userID h.access)
          else .refused (refusal h.access)) := by
  obtain ⟨g, hg, hnamed⟩ := (inv_reaches h).sessions.ends hq
  obtain ⟨user, hmem, hgiven⟩ := hnamed t rfl
  obtain ⟨issued, haccess⟩ := hgiven.access
  refine ⟨user, issued, hg user hmem, ?_⟩
  intro hid now s r h hgo hp hgood hauth hk hplain hh
  exact serve_bearer (E.trusted now) user issued hid hgo hp haccess.symm hgood hauth hk hplain s hh

theorem reaches_accounts {σ τ : Accounts.Config N} (h : Runs Accounts.spec.machine σ τ)
    (sessions : Auth.Config Q) (entries : List Entry) :
    Relation.ReflTransGen (Step E)
      ⟨σ, withUsers σ.state.store.committed sessions, entries⟩
      ⟨τ, withUsers τ.state.store.committed sessions, entries⟩ := by
  induction h with
  | refl => exact .refl
  | tail _ a hs ih => exact ih.tail (.account hs)

theorem reaches_sessions {σ τ : Auth.Config Q} (h : Runs Auth.spec.machine σ τ)
    (accounts : Accounts.Config N) (entries : List Entry) :
    Relation.ReflTransGen (Step E) ⟨accounts, σ, entries⟩ ⟨accounts, τ, entries⟩ := by
  induction h with
  | refl => exact .refl
  | tail _ a hs ih => exact ih.tail (.session hs)

end

/-! ### a seller registers, logs in and submits an offer -/

def shop : Platform Unit Unit where
  members _ := .registerSeller ⟨"a@b.c", "", "+4912345"⟩
  logins _ := .login "a@b.c" ""
  authService := ⟨sellerTokens.jwtUtil, fun raw encoded => raw == encoded, id⟩
  libraries := sellerTokens.libraries
  trusted := sellerTokens.trusted
  keys _ := "key".toList

def sellerRow : Accounts.Row := .user ⟨1, "a@b.c", "+4912345", "", .SELLER, .ACTIVE⟩

def submitOffer : Doors.Request where
  method := "POST"
  requestURI := "/api/offers".toList
  path := ["api", "offers"]
  authorization := bearer "a.b.c"
  internalAPIKey := []

def accountSchedule : List (Act Unit (Choice Unit)) :=
  List.replicate 6 (.exec () ⟨.none, 1, 0, 0, ()⟩)

def sessionSchedule : List (Act Unit (Choice Unit)) :=
  List.replicate 8 (.exec () ⟨.none, 2, 0, 0, ()⟩)

def tokensOf (σ : Auth.Config Unit) : Option TokenResponse :=
  match σ.prog () with
  | some (.ret (.ok (.tokens t))) => some t
  | _ => none

theorem tokensOf_some {σ : Auth.Config Unit} {t : TokenResponse} (h : tokensOf σ = some t) :
    σ.prog () = some (.ret (.ok (.tokens t))) := by
  unfold tokensOf at h
  split at h
  · rename_i hp
    rw [hp, Option.some.inj h]
  · cases h

theorem shop_login : letI := Accounts.plainEncoder
    ∃ w, Reaches shop w ∧ w.entries = [] ∧
      w.sessions.prog () = some (.ret (.ok (.tokens ⟨"a.b.c", "d.e.f", 3600, "Bearer"⟩))) := by
  let : PasswordEncoder := Accounts.plainEncoder
  obtain ⟨σ, hσ, hrows⟩ := Runs.exists_of_run (M := Accounts.spec.machine)
    (σ := Accounts.start shop.members) accountSchedule (f := fun σ => σ.state.store.committed)
    (b := ⟨[sellerRow]⟩) (by decide +kernel)
  obtain ⟨τ, hτ, htokens⟩ := Runs.exists_of_run (M := Auth.spec.machine)
    (σ := withUsers ⟨[sellerRow]⟩ (Auth.start shop.authService shop.logins ⟨[], []⟩))
    sessionSchedule (f := tokensOf) (b := some ⟨"a.b.c", "d.e.f", 3600, "Bearer"⟩)
    (by decide +kernel)
  have hregistered := reaches_accounts (E := shop) hσ
    (Auth.start shop.authService shop.logins ⟨[], []⟩) []
  rw [hrows] at hregistered
  exact ⟨⟨σ, τ, []⟩, hregistered.trans (reaches_sessions hτ σ []), rfl, tokensOf_some htokens⟩

theorem entries_rightful_offer : letI := Accounts.plainEncoder
    ∃ w, Reaches shop w ∧ ∃ e ∈ w.entries, e.handler = .offer .submitOffer ∧
      ∃ u, e.who = some u ∧ Member shop w.accounts.state.store u .SELLER := by
  let : PasswordEncoder := Accounts.plainEncoder
  obtain ⟨w, hw, -, hq⟩ := shop_login
  have hserve : serve (shop.libraries 0) (shop.keys .offer) submitOffer .offer =
      .entered (.offer .submitOffer) (some 1) := by decide +kernel
  have hentered : Reaches shop
      { w with entries := ⟨.offer, submitOffer, .offer .submitOffer, some 1⟩ :: w.entries } := by
    refine hw.tail (.enter 0 .offer submitOffer hserve fun token htoken _ => ?_)
    have hread : tokenIn .offer submitOffer.authorization = some "a.b.c".toList := by decide +kernel
    rw [hread] at htoken
    exact ⟨(), _, hq, .inl (Option.some.inj htoken).symm⟩
  refine ⟨_, hentered, _, List.mem_cons_self, rfl, ?_⟩
  exact entries_rightful shop hentered ⟨.offer, submitOffer, .offer .submitOffer, some 1⟩
    List.mem_cons_self

theorem login_opens_seller : letI := Accounts.plainEncoder
    ∃ w, Reaches shop w ∧ ∃ user : Auth.User,
      Member shop w.accounts.state.store user.userID user.role := by
  let : PasswordEncoder := Accounts.plainEncoder
  obtain ⟨w, hw, -, hq⟩ := shop_login
  obtain ⟨user, -, hmember, -⟩ := login_opens shop hw hq
  exact ⟨w, hw, user, hmember⟩

end Marketplace.System.Authority
