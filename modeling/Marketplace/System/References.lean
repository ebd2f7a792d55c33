import Marketplace.Accounts.Linear
import Marketplace.Request.Linear
import Marketplace.Offers.Changes
import Marketplace.Offers.Payload

/-!
# Offers refer to what is there

An offer names a seller and a request that live in the databases of other services, and no foreign
key holds them together.  A route of offer-service asks first, works on its own tables later, and by
then everything may have changed.

* `Errand`           what a route asks the other services, `clients.py`;
* `World`, `Step`    accounts and profiles, requests, the errands of the routes, and offer-service,
                     which works on a route once its errand has ended.  What the errands come to is
                     told beforehand (`works`);
* `Answers`          when a service answers so, by what is committed there at that moment;
* `Founded`          what has to stand behind an offer;
* `offers_founded`   **every offer of every run is founded**, and changed by its own seller or a
                     decision.
-/

set_option linter.unusedSectionVars false

namespace Marketplace.System.References

open Interleave Service ReadCommitted
open Accounts (PasswordEncoder)
open Request (Postgres EnsureRequestBody requestItemKey)
open Offers (OfferCreate OfferUpdate RequestedItem Decision Offer)

/-! ## clients.py -/

inductive Ask where
  | resolveSellerID (userID : UUID)
  | getRequest (requestID : UUID)
  | ensureRequestForItem (item : RequestedItem)
  | adminUserIDs
  deriving DecidableEq, Repr

/-- what the caller finds in the body -/
inductive Body where
  | id (id : UUID)
  | noID
  /-- no JSON object, or not what it should be -/
  | malformed
  deriving DecidableEq, Repr

structure Response where
  status : Nat
  body : Body
  deriving DecidableEq, Repr

/-- no response is a failure of the transport; every failure of `admin_user_ids` is an empty list -/
@[reducible]
def Reply : Ask → Type
  | .resolveSellerID _ => Option Response
  | .getRequest _ => Option Response
  | .ensureRequestForItem _ => Option Response
  | .adminUserIDs => List UUID

inductive Refused where
  | sellerProfileMissing
  | requestMissing
  | upstreamUnavailable
  /-- an exception that no handler knows -/
  | failed
  deriving DecidableEq, Repr

abbrev NoRow : Empty → Type := fun q => nomatch q

abbrev Errand (α : Type) : Type := Call NoRow Reply Refused α

def ask (a : Ask) : Errand (Reply a) := Service.remote a

def resolveSellerID (userID : UUID) : Errand UUID := do
  match ← ask (.resolveSellerID userID) with
  | none => throw .upstreamUnavailable
  | some response =>
    if response.status = 404 then throw .sellerProfileMissing
    else if response.status ≠ 200 then throw .upstreamUnavailable
    else
      match response.body with
      | .id sellerID => return sellerID
      | .noID => throw .upstreamUnavailable
      | .malformed => throw .failed

/-- `_to_request`, whose exceptions nobody catches -/
def toRequest (response : Response) : Errand UUID :=
  match response.body with
  | .id requestID => return requestID
  | .noID => throw .failed
  | .malformed => throw .failed

def getRequest (requestID : UUID) : Errand UUID := do
  match ← ask (.getRequest requestID) with
  | none => throw .upstreamUnavailable
  | some response =>
    if response.status = 404 then throw .requestMissing
    else if response.status ≠ 200 then throw .upstreamUnavailable
    else toRequest response

def ensureRequestForItem (item : RequestedItem) : Errand UUID := do
  match ← ask (.ensureRequestForItem item) with
  | none => throw .upstreamUnavailable
  | some response =>
    if response.status ≠ 200 ∧ response.status ≠ 201 then throw .upstreamUnavailable
    else toRequest response

def demandAnswered (payload : OfferCreate) : Errand UUID :=
  match payload.requestID with
  | some requestID => do
    let _ ← getRequest requestID
    return requestID
  | none =>
    match payload.item with
    | some item => ensureRequestForItem item
    -- no body that passes is like that
    | none => throw .failed

/-- a request to a route that writes, with the body as it has passed -/
inductive Route where
  | submitOffer (userID : UUID) (payload : OfferCreate) (image : Bytes) (imageType : String)
  | updateOffer (userID offerID : UUID) (payload : OfferUpdate) (image : Bytes) (imageType : String)
  | cancelOffer (userID offerID : UUID)
  | setStatus (offerID : UUID) (status : Decision)
  deriving DecidableEq, Repr

/-- the route up to its operation -/
def Route.errand : Route → Errand Offers.Invocation
  | .submitOffer u payload image imageType => do
    let sellerID ← resolveSellerID u
    let requestID ← demandAnswered payload
    let adminIDs : List UUID ← ask .adminUserIDs
    return .createOffer sellerID requestID payload.terms.terms adminIDs image imageType
  | .updateOffer u i payload image imageType => do
    let sellerID ← resolveSellerID u
    return .updateOffer i sellerID payload.terms.terms image imageType
  | .cancelOffer u i => do
    let sellerID ← resolveSellerID u
    return .cancelOffer i sellerID
  | .setStatus i st => return .setStatus i st

/-! ## what an errand has been told -/

abbrev Fact : Type := (a : Ask) × Reply a

def hears : (c : Cmd Empty Ask) → Ans NoRow Reply c → List Fact
  | .remote a, r => [⟨a, r⟩]
  | _, _ => []

def anything (_ : Cmd Empty Ask) (_ : List Fact) : Prop := True

/-- the seller is the one that seller-service has named for the user -/
def Resolved (u s : UUID) (g : List Fact) : Prop :=
  (⟨.resolveSellerID u, some ⟨200, .id s⟩⟩ : Fact) ∈ g

/-- the request is one that request-service has answered with -/
def Demanded (payload : OfferCreate) (r : UUID) (g : List Fact) : Prop :=
  (payload.requestID = some r ∧ ∃ x, (⟨.getRequest r, some ⟨200, x⟩⟩ : Fact) ∈ g) ∨
  ∃ item status, payload.item = some item ∧ (status = 200 ∨ status = 201) ∧
    (⟨.ensureRequestForItem item, some ⟨status, .id r⟩⟩ : Fact) ∈ g

/-- what a route comes to -/
def Route.Comes : Route → Offers.Invocation → List Fact → Prop
  | .submitOffer u payload image imageType, inv, g => ∃ s r as,
      inv = .createOffer s r payload.terms.terms as image imageType ∧ Resolved u s g ∧
        Demanded payload r g
  | .updateOffer u i payload image imageType, inv, g => ∃ s,
      inv = .updateOffer i s payload.terms.terms image imageType ∧ Resolved u s g
  | .cancelOffer u i, inv, g => ∃ s, inv = .cancelOffer i s ∧ Resolved u s g
  | .setStatus i st, inv, _ => inv = .setStatus i st

section
variable {g : List Fact}

theorem told_ask (a : Ask) : Told hears anything (ask a) g fun r g' => g' = ⟨a, r⟩ :: g :=
  Told.remote trivial fun _ => rfl

theorem told_resolveSellerID (u : UUID) :
    Told hears anything (resolveSellerID u) g fun s g' => Resolved u s g' := by
  refine Told.bind (told_ask _) fun a g' hg => ?_
  cases a with
  | none => exact Told.throw _
  | some response =>
    obtain ⟨status, body⟩ := response
    show Told hears anything (if status = 404 then _ else _) _ _
    split
    · exact Told.throw _
    · split
      · exact Told.throw _
      · rename_i hs
        obtain rfl := not_not.mp hs
        cases body with
        | id s =>
          refine Told.pure ?_
          rw [hg]
          exact List.mem_cons_self
        | noID => exact Told.throw _
        | malformed => exact Told.throw _

theorem told_toRequest (response : Response) :
    Told hears anything (toRequest response) g fun r g' => g' = g ∧ response.body = .id r := by
  unfold toRequest
  split
  · rename_i r hr
    exact Told.pure ⟨rfl, hr⟩
  · exact Told.throw _
  · exact Told.throw _

theorem told_getRequest (r : UUID) : Told hears anything (getRequest r) g
    fun _ g' => ∃ x, g' = ⟨.getRequest r, some ⟨200, x⟩⟩ :: g := by
  refine Told.bind (told_ask _) fun a g' hg => ?_
  cases a with
  | none => exact Told.throw _
  | some response =>
    obtain ⟨status, body⟩ := response
    show Told hears anything (if status = 404 then _ else _) _ _
    split
    · exact Told.throw _
    · split
      · exact Told.throw _
      · rename_i hs
        obtain rfl := not_not.mp hs
        exact (told_toRequest _).mono fun _ g'' h => ⟨body, h.1.trans hg⟩

theorem told_ensureRequestForItem (item : RequestedItem) :
    Told hears anything (ensureRequestForItem item) g fun r g' =>
      ∃ status, (status = 200 ∨ status = 201) ∧
        g' = ⟨.ensureRequestForItem item, some ⟨status, .id r⟩⟩ :: g := by
  refine Told.bind (told_ask _) fun a g' hg => ?_
  cases a with
  | none => exact Told.throw _
  | some response =>
    obtain ⟨status, body⟩ := response
    show Told hears anything (if status ≠ 200 ∧ status ≠ 201 then _ else _) _ _
    split
    · exact Told.throw _
    · rename_i hs
      refine (told_toRequest _).mono fun r g'' h => ⟨status, by omega, ?_⟩
      obtain ⟨rfl, hid⟩ := h
      have hid : body = .id r := hid
      rw [hg, hid]

/-- what was heard before is kept -/
theorem told_demandAnswered (payload : OfferCreate) :
    Told hears anything (demandAnswered payload) g fun r g' =>
      Demanded payload r g' ∧ ∀ x ∈ g, x ∈ g' := by
  unfold demandAnswered
  split
  · rename_i r hr
    refine Told.bind (told_getRequest r) fun _ g' hg => Told.pure ?_
    obtain ⟨x, rfl⟩ := hg
    exact ⟨.inl ⟨hr, x, List.mem_cons_self⟩, fun y hy => List.mem_cons_of_mem _ hy⟩
  · split
    · rename_i item hitem
      refine (told_ensureRequestForItem item).mono fun r g' hg => ?_
      obtain ⟨status, hs, rfl⟩ := hg
      exact ⟨.inr ⟨item, status, hitem, hs, List.mem_cons_self⟩,
        fun y hy => List.mem_cons_of_mem _ hy⟩
    · exact Told.throw _

theorem told_errand (route : Route) :
    Told hears anything route.errand g fun inv g' => route.Comes inv g' := by
  cases route with
  | submitOffer u payload image imageType =>
    refine Told.bind (told_resolveSellerID u) fun s g hs => ?_
    refine Told.bind (told_demandAnswered payload) fun r g' hr => ?_
    refine Told.bind (told_ask .adminUserIDs) fun as g'' hg => Told.pure ?_
    subst hg
    refine ⟨s, r, as, rfl, List.mem_cons_of_mem _ (hr.2 _ hs), ?_⟩
    rcases hr.1 with ⟨he, x, hx⟩ | ⟨item, status, hi, hst, hx⟩
    · exact .inl ⟨he, x, List.mem_cons_of_mem _ hx⟩
    · exact .inr ⟨item, status, hi, hst, List.mem_cons_of_mem _ hx⟩
  | updateOffer u i payload image imageType =>
    exact Told.bind (told_resolveSellerID u) fun s g hs => Told.pure ⟨s, rfl, hs⟩
  | cancelOffer u i =>
    exact Told.bind (told_resolveSellerID u) fun s g hs => Told.pure ⟨s, rfl, hs⟩
  | setStatus i st => exact Told.pure rfl

/-! ### what a route may then do to an offer -/

theorem Route.Comes.adds {route : Route} {inv : Offers.Invocation} (h : route.Comes inv g)
    {o : Offer} (ha : inv.Adds o) : ∃ u payload image imageType,
      route = .submitOffer u payload image imageType ∧ Resolved u o.sellerID g ∧
        Demanded payload o.requestID g := by
  cases route with
  | submitOffer u payload image imageType =>
    obtain ⟨s, r, as, rfl, hs, hr⟩ := h
    obtain ⟨rfl, rfl⟩ := ha
    exact ⟨u, payload, image, imageType, rfl, hs, hr⟩
  | updateOffer u i payload image imageType =>
    obtain ⟨s, rfl, -⟩ := h
    exact False.elim ha
  | cancelOffer u i =>
    obtain ⟨s, rfl, -⟩ := h
    exact False.elim ha
  | setStatus i st =>
    obtain rfl : inv = .setStatus i st := h
    exact False.elim ha

/-- the seller that a route may act for -/
def Route.Masters : Route → UUID → UUID → List Fact → Prop
  | .submitOffer _ _ _ _, _, _, _ => False
  | .updateOffer u i _ _ _, j, s, g => j = i ∧ Resolved u s g
  | .cancelOffer u i, j, s, g => j = i ∧ Resolved u s g
  | .setStatus i _, j, _, _ => j = i

theorem Route.Comes.touches {route : Route} {inv : Offers.Invocation} (h : route.Comes inv g)
    {j s : UUID} (ht : inv.Touches j s) : route.Masters j s g := by
  cases route with
  | submitOffer u payload image imageType =>
    obtain ⟨s', r, as, rfl, -, -⟩ := h
    exact ht
  | updateOffer u i payload image imageType =>
    obtain ⟨s', rfl, hs⟩ := h
    obtain ⟨rfl, rfl⟩ := ht
    exact ⟨rfl, hs⟩
  | cancelOffer u i =>
    obtain ⟨s', rfl, hs⟩ := h
    obtain ⟨rfl, rfl⟩ := ht
    exact ⟨rfl, hs⟩
  | setStatus i st =>
    obtain rfl : inv = .setStatus i st := h
    exact ht

end

/-! ## the platform -/

structure Platform (N M O : Type) where
  /-- the calls of auth-, customer- and seller-service that concern accounts and profiles -/
  members : N → Accounts.Invocation
  /-- the calls of request-service -/
  demands : M → Request.Invocation
  routes : O → Route
  /-- what the errands of the routes come to -/
  works : O → Offers.Invocation

abbrev Errands (O : Type) : Type :=
  O → Prog (Cmd Empty Ask) (Ans NoRow Reply) (Except Refused Offers.Invocation)

structure World (N M O : Type) where
  accounts : Accounts.Config N
  requests : Request.Config M
  errands : Errands O
  offers : Offers.Config O Unit

/-- the user has the seller profile -/
def SellerOf (d : Accounts.Db) (u s : UUID) : Prop :=
  ∃ f : Accounts.Profile, Accounts.Row.profile f ∈ d.rows ∧ f.kind = .seller ∧
    f.profileID = s ∧ f.userID = u

section
variable {N M O : Type} [DecidableEq N] [DecidableEq M] [DecidableEq O] [PasswordEncoder] [Postgres]

/-- when a service answers so; whom auth-service names as its admins is not asked -/
def Answers (E : Platform N M O) (w : World N M O) : Fact → Prop
  | ⟨.resolveSellerID u, r⟩ => ∀ s, r = some ⟨200, .id s⟩ →
      SellerOf w.accounts.state.store.committed u s
  | ⟨.getRequest q, r⟩ => ∀ x, r = some ⟨200, x⟩ →
      w.requests.state.store.committed.findRequest q ≠ none
  | ⟨.ensureRequestForItem item, r⟩ => ∀ status q, r = some ⟨status, .id q⟩ →
      status = 200 ∨ status = 201 → ∃ m inp a, E.demands m = .ensureForItem inp ∧
        (EnsureRequestBody.mk item.itemName item.description item.category).validate =
          .ok ⟨inp.itemName, inp.description, inp.category⟩ ∧
        w.requests.prog m = some (.ret (.ok a)) ∧ a.request.requestID = q
  | ⟨.adminUserIDs, _⟩ => True

variable (E : Platform N M O)

def start : World N M O where
  accounts := Accounts.start E.members
  requests := Request.start E.demands Request.Db.empty
  errands p := (E.routes p).errand.run
  offers := Offers.start (fun p => (E.works p).handler) Offers.Db.empty ()

/-- offer-service; what becomes of its reports is another matter -/
abbrev offerService : Spec O Offers.Db Offers.Write Offers.Lock Unit Unit Offers.Row Offers.Reply :=
  Offers.spec Offers.Outside.nothing

inductive Step : World N M O → World N M O → Prop
  | account {w : World N M O} {a : Act N (Choice Unit)} {σ : Accounts.Config N}
      (h : Accounts.spec.machine.step w.accounts a = some σ) : Step w { w with accounts := σ }
  | request {w : World N M O} {a : Act M (Choice Unit)} {σ : Request.Config M}
      (h : Request.spec.machine.step w.requests a = some σ) : Step w { w with requests := σ }
  | ask {w : World N M O} (p : O) {a : Ask}
      {k : Reply a → Prog (Cmd Empty Ask) (Ans NoRow Reply) (Except Refused Offers.Invocation)}
      (r : Reply a) (hp : w.errands p = .call (.remote a) k) (ha : Answers E w ⟨a, r⟩) :
      Step w { w with errands := Function.update w.errands p (k r) }
  | offer {w : World N M O} {a : Act O (Choice Unit)} {σ : Offers.Config O Unit}
      (h : offerService.machine.step w.offers a = some σ)
      (hp : ∀ p x, a = .exec p x → w.errands p = .ret (.ok (E.works p))) :
      Step w { w with offers := σ }

def Reaches : World N M O → Prop := Relation.ReflTransGen (Step E) (start E)

/-! ## what is to hold -/

/-- the user has the seller profile, and is registered as a SELLER -/
def Owns (d : Accounts.Db) (u s : UUID) : Prop :=
  SellerOf d u s ∧
    ∃ x : Accounts.User, Accounts.Row.user x ∈ d.rows ∧ x.userID = u ∧ x.role = .SELLER

/-- the request is there, and the one that the body names or the one that carries its item -/
def Answered (d : Request.Db) (payload : OfferCreate) (r : UUID) : Prop :=
  ∃ pr, d.findRequest r = some pr ∧ (payload.requestID = some r ∨
    ∃ item, payload.item = some item ∧
      requestItemKey pr.itemName = requestItemKey (trimSpace item.itemName))

/-- a user who owns the seller profile has submitted the offer, for the request -/
def Founded (w : World N M O) (o : Offer) : Prop :=
  ∃ c ∈ w.offers.state.store.log, ∃ u payload image imageType,
    E.routes c.tx = .submitOffer u payload image imageType ∧
    Owns w.accounts.state.store.committed u o.sellerID ∧
    Answered w.requests.state.store.committed payload o.requestID

/-- the route is its owner's, or a decision on it -/
def Mastered (w : World N M O) (o : Offer) : Route → Prop
  | .submitOffer _ _ _ _ => False
  | .updateOffer u i _ _ _ => o.offerID = i ∧ Owns w.accounts.state.store.committed u o.sellerID
  | .cancelOffer u i => o.offerID = i ∧ Owns w.accounts.state.store.committed u o.sellerID
  | .setStatus i _ => o.offerID = i

/-- what a fact tells for good -/
def Holds (w : World N M O) : Fact → Prop
  | ⟨.resolveSellerID u, r⟩ => ∀ s, r = some ⟨200, .id s⟩ →
      SellerOf w.accounts.state.store.committed u s
  | ⟨.getRequest q, r⟩ => ∀ x, r = some ⟨200, x⟩ →
      ∃ pr, w.requests.state.store.committed.findRequest q = some pr
  | ⟨.ensureRequestForItem item, r⟩ => ∀ status q, r = some ⟨status, .id q⟩ →
      status = 200 ∨ status = 201 →
      ∃ pr, w.requests.state.store.committed.findRequest q = some pr ∧
        requestItemKey pr.itemName = requestItemKey (trimSpace item.itemName)
  | ⟨.adminUserIDs, _⟩ => True

structure Inv (w : World N M O) : Prop where
  accounts : Runs Accounts.spec.machine (Accounts.start E.members) w.accounts
  requests : Runs Request.spec.machine (Request.start E.demands Request.Db.empty) w.requests
  errands : ∀ p, ∃ g, (∀ x ∈ g, Holds w x) ∧ (w.errands p).Told hears anything g
    fun r g => ∀ inv, r = .ok inv → (E.routes p).Comes inv g
  offers : Runs offerService.machine
    (Offers.start (fun p => (E.works p).handler) Offers.Db.empty ()) w.offers
  worked : ∀ c ∈ w.offers.state.store.log, w.errands c.tx = .ret (.ok (E.works c.tx))

end

section
variable {N M O : Type} [DecidableEq N] [DecidableEq M] [DecidableEq O] [PasswordEncoder] [Postgres]
  {E : Platform N M O} {w w' : World N M O}

theorem validate_name {b b' : EnsureRequestBody} (h : b.validate = .ok b') :
    b'.itemName = trimSpace b.itemName := by
  unfold EnsureRequestBody.validate at h
  cases hc : Request.checkItemName b.trimmed.itemName with
  | error e =>
    rw [hc] at h
    cases h
  | ok _ =>
    rw [hc] at h
    cases h
    rfl

theorem Inv.holds (hi : Inv E w) {x : Fact} (h : Answers E w x) : Holds w x := by
  obtain ⟨a, r⟩ := x
  cases a with
  | resolveSellerID u => exact h
  | getRequest q => exact fun x hx => Option.ne_none_iff_exists'.mp (h x hx)
  | ensureRequestForItem item =>
    intro status q hr hs
    obtain ⟨m, inp, a, hm, hv, ha, rfl⟩ := h status q hr hs
    obtain ⟨pr, hf, hkey⟩ := Request.ensured_listed hi.requests hm ha
    exact ⟨pr, hf, hkey.trans (congrArg requestItemKey (validate_name hv))⟩
  | adminUserIDs => trivial

theorem SellerOf.step {σ τ : Accounts.Config N} {a : Act N (Choice Unit)}
    (h : Runs Accounts.spec.machine (Accounts.start E.members) σ)
    (hs : Accounts.spec.machine.step σ a = some τ) {u s : UUID}
    (ho : SellerOf σ.state.store.committed u s) : SellerOf τ.state.store.committed u s := by
  obtain ⟨f, hf, hk, hid, hu⟩ := ho
  obtain ⟨f', hf', hk', hid', hu'⟩ := Accounts.profile_step h hs hf
  exact ⟨f', hf', hk'.trans hk, hid'.trans hid, hu'.trans hu⟩

theorem Holds.mono {x : Fact} (h : Holds w x)
    (hsell : ∀ u s, SellerOf w.accounts.state.store.committed u s →
      SellerOf w'.accounts.state.store.committed u s)
    (hreq : ∀ r pr, w.requests.state.store.committed.findRequest r = some pr →
      ∃ pr', w'.requests.state.store.committed.findRequest r = some pr' ∧
        pr'.itemName = pr.itemName) : Holds w' x := by
  obtain ⟨a, r⟩ := x
  cases a with
  | resolveSellerID u => exact fun s hs => hsell u s (h s hs)
  | getRequest q =>
    intro x hx
    obtain ⟨pr, hf⟩ := h x hx
    obtain ⟨pr', hf', -⟩ := hreq q pr hf
    exact ⟨pr', hf'⟩
  | ensureRequestForItem item =>
    intro status q hr hs
    obtain ⟨pr, hf, hkey⟩ := h status q hr hs
    obtain ⟨pr', hf', hn⟩ := hreq q pr hf
    exact ⟨pr', hf', (congrArg requestItemKey hn).trans hkey⟩
  | adminUserIDs => trivial

/-! ## every run -/

theorem inv_start : Inv E (start E) where
  accounts := .refl
  requests := .refl
  errands p := ⟨[], fun _ hx => absurd hx List.not_mem_nil, told_errand (E.routes p)⟩
  offers := .refl
  worked _ hc := absurd hc List.not_mem_nil

theorem inv_step (hi : Inv E w) (hs : Step E w w') : Inv E w' := by
  cases hs with
  | account h =>
    refine ⟨hi.accounts.tail _ h, hi.requests, fun p => ?_, hi.offers, hi.worked⟩
    obtain ⟨g, hg, ht⟩ := hi.errands p
    exact ⟨g, fun x hx => (hg x hx).mono (fun u s ho => ho.step hi.accounts h)
      fun r pr hf => ⟨pr, hf, rfl⟩, ht⟩
  | request h =>
    refine ⟨hi.accounts, hi.requests.tail _ h, fun p => ?_, hi.offers, hi.worked⟩
    obtain ⟨g, hg, ht⟩ := hi.errands p
    exact ⟨g, fun x hx => (hg x hx).mono (fun u s ho => ho)
      fun r pr hf => Request.listed_step hi.requests h hf, ht⟩
  | @ask p a k r hp ha =>
    refine ⟨hi.accounts, hi.requests, fun q => ?_, hi.offers, fun c hc => ?_⟩
    · by_cases e : q = p
      · subst e
        obtain ⟨g, hg, ht⟩ := hi.errands q
        rw [hp] at ht
        refine ⟨⟨a, r⟩ :: g, fun x hx => ?_, ?_⟩
        · rcases List.mem_cons.mp hx with rfl | hx
          · exact hi.holds ha
          · exact hg x hx
        · show Prog.Told hears anything (Function.update w.errands q (k r) q) _ _
          rw [Function.update_self]
          exact ht.2 r
      · show ∃ g, _ ∧ Prog.Told hears anything (Function.update w.errands p (k r) q) g _
        rw [Function.update_of_ne e]
        exact hi.errands q
    · have hne : c.tx ≠ p := by
        intro e
        have hret := hi.worked c hc
        rw [e, hp] at hret
        cases hret
      exact (Function.update_of_ne hne _ _).trans (hi.worked c hc)
  | @offer a σ h hp =>
    refine ⟨hi.accounts, hi.requests, hi.errands, hi.offers.tail _ h, fun c hc => ?_⟩
    rcases Spec.step_store h with ⟨p, hcom, he⟩ | ⟨-, hl⟩
    · have hc : c ∈ (w.offers.state.store.commit p).log := he ▸ hc
      rcases List.mem_cons.mp hc with rfl | hc
      · obtain ⟨x, rfl⟩ := committer_exec hcom
        exact hp p x rfl
      · exact hi.worked c hc
    · exact hi.worked c (hl ▸ hc)

theorem inv_reaches (h : Reaches E w) : Inv E w := by
  unfold Reaches at h
  induction h with
  | refl => exact inv_start
  | tail _ hs ih => exact inv_step ih hs

/-- what offer-service works on is what the errand of the route came to -/
theorem Inv.came (hi : Inv E w) {c : Commit O Offers.Db} (hc : c ∈ w.offers.state.store.log) :
    ∃ g, (∀ x ∈ g, Holds w x) ∧ (E.routes c.tx).Comes (E.works c.tx) g := by
  obtain ⟨g, hg, ht⟩ := hi.errands c.tx
  rw [hi.worked c hc] at ht
  exact ⟨g, hg, ht _ rfl⟩

theorem Inv.owns (hi : Inv E w) {g : List Fact} (hg : ∀ x ∈ g, Holds w x) {u s : UUID}
    (h : Resolved u s g) : Owns w.accounts.state.store.committed u s := by
  have hsell : SellerOf w.accounts.state.store.committed u s := hg _ h s rfl
  obtain ⟨f, hf, hk, hid, hu⟩ := hsell
  obtain ⟨x, hx, hxu, hrole⟩ := Accounts.owner_registered hi.accounts hf
  refine ⟨⟨f, hf, hk, hid, hu⟩, x, hx, hxu.trans hu, ?_⟩
  rw [hrole, hk]
  rfl

theorem answered {g : List Fact} (hg : ∀ x ∈ g, Holds w x) {payload : OfferCreate} {r : UUID}
    (h : Demanded payload r g) : Answered w.requests.state.store.committed payload r := by
  rcases h with ⟨he, x, hx⟩ | ⟨item, status, hitem, hs, hx⟩
  · obtain ⟨pr, hf⟩ := hg _ hx x rfl
    exact ⟨pr, hf, .inl he⟩
  · obtain ⟨pr, hf, hkey⟩ := hg _ hx status r rfl hs
    exact ⟨pr, hf, .inr ⟨item, hitem, hkey⟩⟩

theorem Inv.founded (hi : Inv E w) {c : Commit O Offers.Db} (hc : c ∈ w.offers.state.store.log)
    {o : Offer} (h : (E.works c.tx).Adds o) : Founded E w o := by
  obtain ⟨g, hg, hcomes⟩ := hi.came hc
  obtain ⟨u, payload, image, imageType, hroute, hs, hr⟩ := hcomes.adds h
  exact ⟨c, hc, u, payload, image, imageType, hroute, hi.owns hg hs, answered hg hr⟩

theorem Inv.mastered (hi : Inv E w) {c : Commit O Offers.Db} (hc : c ∈ w.offers.state.store.log)
    {o : Offer} (h : (E.works c.tx).Touches o.offerID o.sellerID) :
    Mastered w o (E.routes c.tx) := by
  obtain ⟨g, hg, hcomes⟩ := hi.came hc
  have hmaster := hcomes.touches h
  generalize E.routes c.tx = route at hmaster ⊢
  cases route with
  | submitOffer u payload image imageType => exact hmaster
  | updateOffer u i payload image imageType => exact ⟨hmaster.1, hi.owns hg hmaster.2⟩
  | cancelOffer u i => exact ⟨hmaster.1, hi.owns hg hmaster.2⟩
  | setStatus i st => exact hmaster

variable (E) in
/-- **Every offer is founded.**  Accounts, profiles and requests change while the routes of
offer-service run, statement by statement and call by call, and what a route has been told may be
old when it writes.  Still every offer is for a seller profile whose user is registered as a SELLER
and has submitted it, and for a request that is there: the one that was named, or one with the key
of the item.  And in every commit an offer stays as it is, unless the route is its own seller's or a
decision on it. -/
theorem offers_founded (h : Reaches E w) :
    (∀ o ∈ w.offers.state.store.committed.offers, Founded E w o) ∧
    ∀ c ∈ w.offers.state.store.log, ∀ o ∈ c.before.offers,
      o ∈ c.after.offers ∨ Mastered w o (E.routes c.tx) := by
  have hi := inv_reaches h
  have hlog := (Offers.runs_changing hi.offers).log
  refine ⟨fun o ho => ?_, fun c hc o ho => ?_⟩
  · have hchain := Spec.chained_runs hi.offers (chained_fresh Offers.Db.empty)
    rcases Offers.adds_of_log hchain hlog ho with ⟨o₀, ho₀, -⟩ | ⟨c, hc, hadds⟩
    · exact absurd ho₀ List.not_mem_nil
    · exact hi.founded hc hadds
  · obtain ⟨f, new, he, hf, -⟩ := hlog c hc
    rcases (hf o).altered with heq | ⟨htouch, -⟩
    · refine .inl (he ▸ List.mem_append_left _ ?_)
      exact List.mem_map.mpr ⟨o, ho, heq⟩
    · exact .inr (hi.mastered hc htouch)

end

section
variable {N M O : Type} [DecidableEq N] [DecidableEq M] [DecidableEq O] [PasswordEncoder] [Postgres]
  {E : Platform N M O}

theorem reaches_accounts {σ τ : Accounts.Config N} (h : Runs Accounts.spec.machine σ τ)
    (requests : Request.Config M) (errands : Errands O) (offers : Offers.Config O Unit) :
    Relation.ReflTransGen (Step E) ⟨σ, requests, errands, offers⟩
      ⟨τ, requests, errands, offers⟩ := by
  induction h with
  | refl => exact .refl
  | tail _ a hs ih => exact ih.tail (.account hs)

theorem reaches_requests {σ τ : Request.Config M} (h : Runs Request.spec.machine σ τ)
    (accounts : Accounts.Config N) (errands : Errands O) (offers : Offers.Config O Unit) :
    Relation.ReflTransGen (Step E) ⟨accounts, σ, errands, offers⟩
      ⟨accounts, τ, errands, offers⟩ := by
  induction h with
  | refl => exact .refl
  | tail _ a hs ih => exact ih.tail (.request hs)

/-- all the errands have ended -/
theorem reaches_offers {σ τ : Offers.Config O Unit} (h : Runs offerService.machine σ τ)
    (accounts : Accounts.Config N) (requests : Request.Config M) {errands : Errands O}
    (hret : ∀ p, errands p = .ret (.ok (E.works p))) :
    Relation.ReflTransGen (Step E) ⟨accounts, requests, errands, σ⟩
      ⟨accounts, requests, errands, τ⟩ := by
  induction h with
  | refl => exact .refl
  | tail _ a hs ih => exact ih.tail (.offer hs fun p _ _ => hret p)

end

/-! ## a seller opens a shop, offers and cancels -/

def espresso : OfferCreate :=
  ⟨none, some ⟨"Espresso machine", "", ""⟩, ⟨2, ⟨250, 0⟩, "EUR", ""⟩⟩

def shop : Platform (Fin 2) Unit (Fin 2) where
  members
    | 0 => .registerSeller ⟨"a@b.c", "", "+4912345"⟩
    | 1 => .createSeller 50 ⟨"Coffee", none, none, none⟩
  demands _ := .ensureForItem ⟨"Espresso machine", "", ""⟩
  routes
    | 0 => .submitOffer 50 espresso [] ""
    | 1 => .cancelOffer 50 80
  works
    | 0 => .createOffer 60 70 espresso.terms.terms [] [] ""
    | 1 => .cancelOffer 80 60

/-- the id that is drawn is `i` -/
def go {P : Type} (i : UUID) (p : P) : Act P (Choice Unit) := .exec p ⟨.none, i, 0, 1, ()⟩

def opened : List (Act (Fin 2) (Choice Unit)) :=
  List.replicate 6 (go 50 0) ++ List.replicate 5 (go 60 1)

def listed : List (Act Unit (Choice Unit)) := List.replicate 6 (go 70 ())

def offered : List (Act (Fin 2) (Choice Unit)) :=
  List.replicate 8 (go 80 0) ++ List.replicate 8 (go 80 1)

def userRow : Accounts.Row := .user ⟨50, "a@b.c", "+4912345", "", .SELLER, .ACTIVE⟩

def profileRow : Accounts.Row := .profile (.seller ⟨60, 50, "Coffee", none, none, none⟩)

theorem shop_answers : letI := Accounts.plainEncoder
    letI := Request.asciiPostgres
    ∃ w, Reaches shop w ∧ w.errands = (start shop).errands ∧ w.offers = (start shop).offers ∧
      (∀ errands, Answers shop { w with errands := errands }
        ⟨.resolveSellerID 50, some ⟨200, .id 60⟩⟩) ∧
      ∀ errands, Answers shop { w with errands := errands }
        ⟨.ensureRequestForItem ⟨"Espresso machine", "", ""⟩, some ⟨201, .id 70⟩⟩ := by
  let : PasswordEncoder := Accounts.plainEncoder
  let : Postgres := Request.asciiPostgres
  obtain ⟨σ, hσ, hrows⟩ := Runs.exists_of_run (M := Accounts.spec.machine)
    (σ := Accounts.start shop.members) opened (f := fun σ => σ.state.store.committed)
    (b := ⟨[userRow, profileRow]⟩) (by decide +kernel)
  obtain ⟨τ, hτ, hid⟩ := Runs.exists_of_run (M := Request.spec.machine)
    (σ := Request.start shop.demands Request.Db.empty) listed
    (f := fun σ => (Request.answeredWith σ ()).map (·.request.requestID))
    (b := some 70) (by decide +kernel)
  obtain ⟨a, ha, hid⟩ := Option.map_eq_some_iff.mp hid
  refine ⟨⟨σ, τ, _, _⟩, (reaches_accounts hσ _ _ _).trans (reaches_requests hτ _ _ _), rfl, rfl,
    fun errands s hs => ?_, fun errands status q hq _ => ?_⟩
  · cases hs
    refine ⟨.seller ⟨60, 50, "Coffee", none, none, none⟩, ?_, rfl, rfl, rfl⟩
    show profileRow ∈ σ.state.store.committed.rows
    rw [hrows]
    exact List.mem_cons_of_mem _ List.mem_cons_self
  · cases hq
    exact ⟨(), ⟨"Espresso machine", "", ""⟩, a, rfl, by rfl, Request.answeredWith_some ha, hid⟩

theorem shop_submits : letI := Accounts.plainEncoder
    letI := Request.asciiPostgres
    ∃ w, Reaches shop w ∧ w.offers.state.store.log.map Commit.tx = [1, 0] ∧
      w.offers.state.store.committed.offers.map Offer.offerID = [80] := by
  let : PasswordEncoder := Accounts.plainEncoder
  let : Postgres := Request.asciiPostgres
  obtain ⟨⟨σ, τ, errands, offers⟩, hw, rfl, rfl, hseller, hrequest⟩ := shop_answers
  obtain ⟨υ, hυ, hlog⟩ := Runs.exists_of_run (M := offerService.machine)
    (σ := Offers.start (fun p => (shop.works p).handler) Offers.Db.empty ()) offered
    (f := fun σ => (σ.state.store.log.map Commit.tx,
      σ.state.store.committed.offers.map Offer.offerID))
    (b := ([1, 0], [80])) (by decide +kernel)
  obtain ⟨hlog, hids⟩ := Prod.mk.inj hlog
  have hresolved := hw.tail (.ask 0 (a := .resolveSellerID 50) _ rfl (hseller _))
  have hensured := hresolved.tail
    (.ask 0 (a := .ensureRequestForItem ⟨"Espresso machine", "", ""⟩) _ rfl (hrequest _))
  have hadmins := hensured.tail (.ask 0 (a := .adminUserIDs) [] rfl trivial)
  have hcancel := hadmins.tail (.ask 1 (a := .resolveSellerID 50) _ rfl (hseller _))
  exact ⟨_, hcancel.trans (reaches_offers hυ σ τ (Fin.forall_fin_two.mpr ⟨rfl, rfl⟩)), hlog, hids⟩

theorem offers_founded_shop : letI := Accounts.plainEncoder
    letI := Request.asciiPostgres
    ∃ w, Reaches shop w ∧ w.offers.state.store.log.map Commit.tx = [1, 0] ∧
      (∃ o ∈ w.offers.state.store.committed.offers, Founded shop w o) ∧
      ∀ c ∈ w.offers.state.store.log, ∀ o ∈ c.before.offers,
        o ∈ c.after.offers ∨ Mastered w o (shop.routes c.tx) := by
  let : PasswordEncoder := Accounts.plainEncoder
  let : Postgres := Request.asciiPostgres
  obtain ⟨w, hw, hlog, hids⟩ := shop_submits
  obtain ⟨hfounded, hmastered⟩ := offers_founded shop hw
  obtain ⟨o, ho, -⟩ := List.mem_map.mp (hids ▸ List.mem_singleton_self 80)
  exact ⟨w, hw, hlog, ⟨o, ho, hfounded o ho⟩, hmastered⟩

end Marketplace.System.References
