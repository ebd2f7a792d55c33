import Marketplace.Offers.Lifecycle
import Marketplace.Admin.Exposure

/-!
# admin-service and offer-service together

admin-service runs over its own database; what it meets outside is offer-service, itself any number
of routes interleaved over a second database.  A `GET` reads the committed offer.  A `PATCH` is sent,
then worked on like any other route, and its answer is awaited; the network may lose an answer, and
the route goes on all the same.

* `World`            offer-service with its routes, and the PATCHes that have arrived;
* `outside S may`    this world as the outside of admin-service.  `S` is offer-service, `may` a
                     condition on its moves;
* `Linked F`         how the calls of admin-service and the world hang together: a PATCH that was
                     answered has run to its end, and an offer that was read is known as `F` says;
* `law`              this holds in every run, if the moves of offer-service keep `F` (`Keeps`).
-/

set_option linter.unusedSectionVars false

namespace Marketplace.System

open Table Events ReadCommitted Interleave Service
open Offers (Decision OfferOut OfferStatus Offer)
open Admin (ClientErr Customer Remote Reply Event Ext Law clientErr)

/-- what the network and the remaining services decide at one command -/
structure Net (O P : Type) where
  lost : Bool
  act : Act (O ⊕ P) (Choice Unit)
  participants : Except ClientErr (List UUID)
  identity : Except ClientErr UUID
  customer : Except ClientErr Customer
  phone : Except ClientErr String

/-- offer-service as admin-service meets it.  The routes of the sellers are indexed by `O`, the
PATCH of a `Decide` call by that call; `got` keeps what each call has read. -/
structure World (O P : Type) where
  offers : Offers.Config (O ⊕ P) Unit
  sent : P → Bool
  got : P → List OfferOut

section
variable {O P : Type} [DecidableEq O] [DecidableEq P]

/-- the routes at work in offer-service -/
def routes (calls : P → Admin.Invocation) (sellers : O → Offers.Invocation) :
    O ⊕ P → Offers.Op Offer
  | .inl o => (sellers o).handler
  | .inr p =>
    match calls p with
    | .decide inp => (Offers.Invocation.setStatus inp.offerID inp.decision).handler
    -- no other call sends a PATCH
    | _ => throw .offerNotFound

def World.start (calls : P → Admin.Invocation) (sellers : O → Offers.Invocation) : World O P where
  offers := Offers.start (routes calls sellers) Offers.Db.empty ()
  sent _ := false
  got _ := []

/-- `GET /internal/offers/{id}` -/
def World.get (w : World O P) (o : UUID) : Except ClientErr OfferOut :=
  match w.offers.state.store.committed.find o with
  | some offer => .ok (.of offer)
  | none => .error .notFound

def World.read (w : World O P) (p : P) (o : UUID) : World O P :=
  match w.get o with
  | .ok info => { w with got := Function.update w.got p (info :: w.got p) }
  | .error _ => w

def World.send (w : World O P) (p : P) : World O P :=
  { w with sent := Function.update w.sent p true }

/-- the response to the PATCH of `p`; `none` while the route is at work -/
def World.answer (w : World O P) (p : P) : Option (Except ClientErr OfferOut) :=
  match w.offers.prog (.inr p) with
  | some (.ret (.ok offer)) => some (.ok (.of offer))
  | some (.ret (.error e)) => some (.error (clientErr e))
  | some (.call _ _) => none
  | none => some (.error .unavailable)

/-- a PATCH is worked on once it has arrived -/
def World.open (w : World O P) : Act (O ⊕ P) (Choice Unit) → Bool
  | .exec (.inr p) _ => w.sent p
  | .crash (.inr p) => w.sent p
  | _ => true

abbrev OfferService (O P : Type) [DecidableEq O] [DecidableEq P] : Type :=
  Spec (O ⊕ P) Offers.Db Offers.Write Offers.Lock Unit Unit Offers.Row Offers.Reply

variable (S : OfferService O P) (may : World O P → Act (O ⊕ P) (Choice Unit) → Bool)

def World.remote (p : P) : (r : Remote) → Choice (Net O P) → World O P →
    Option (Reply r × World O P)
  | .offersGet o, x, w =>
    if x.ext.lost then some (.error .unavailable, w) else some (w.get o, w.read p o)
  | .sendStatus _ _, x, w => some ((), if x.ext.lost then w else w.send p)
  | .awaitStatus _ _, x, w =>
    if x.ext.lost then some (.error .unavailable, w) else (w.answer p).map fun a => (a, w)
  | .participantCustomerIDs _, x, w => some (x.ext.participants, w)
  | .resolveSellerID _, x, w => some (x.ext.identity, w)
  | .resolveUserID _, x, w => some (x.ext.identity, w)
  | .resolveCustomer _, x, w => some (x.ext.customer, w)
  | .phone _, x, w => some (x.ext.phone, w)

theorem World.get_ok {w : World O P} {o : UUID} {info : OfferOut} (h : w.get o = .ok info) :
    ∃ row, w.offers.state.store.committed.find o = some row ∧ info = .of row := by
  unfold World.get at h
  split at h
  · rename_i row hf
    exact ⟨row, hf, (Except.ok.inj h).symm⟩
  · cases h

def outside : Admin.Outside P (World O P) (Net O P) where
  remote := World.remote
  env x w :=
    if w.open x.ext.act && may w x.ext.act then
      (S.machine.step w.offers x.ext.act).map fun c => { w with offers := c }
    else none
  get_id {p o x e info e'} h := by
    simp only [World.remote] at h
    split at h
    · cases h
    · obtain ⟨row, hf, rfl⟩ := World.get_ok (congrArg Prod.fst (Option.some.inj h))
      exact Offers.find_id hf

variable {S may}

/-! ## what a remote call does to the world -/

section
variable {p : P} {r : Remote} {x : Choice (Net O P)} {w w' : World O P} {a : Reply r}

theorem read_offers (w : World O P) (p : P) (o : UUID) :
    (w.read p o).offers = w.offers ∧ (w.read p o).sent = w.sent ∧
      ∀ q, w.got q ⊆ (w.read p o).got q := by
  unfold World.read
  split
  · refine ⟨rfl, rfl, fun q => ?_⟩
    by_cases e : q = p
    · subst e
      simp
    · simp [Function.update_of_ne e]
  · exact ⟨rfl, rfl, fun _ => List.Subset.refl _⟩

/-- it makes no move of offer-service; it may send the PATCH of `p` -/
theorem remote_world (h : World.remote p r x w = some (a, w')) :
    w'.offers = w.offers ∧ (∀ q, w'.sent q = w.sent q ∨ (q = p ∧ w'.sent q = true)) ∧
      ∀ q, w.got q ⊆ w'.got q := by
  have same : w' = w → w'.offers = w.offers ∧
      (∀ q, w'.sent q = w.sent q ∨ (q = p ∧ w'.sent q = true)) ∧ ∀ q, w.got q ⊆ w'.got q := by
    rintro rfl
    exact ⟨rfl, fun _ => .inl rfl, fun _ => List.Subset.refl _⟩
  cases r with
  | offersGet o =>
    simp only [World.remote] at h
    split at h
    · cases h
      exact same rfl
    · cases h
      obtain ⟨h1, h2, h3⟩ := read_offers w p o
      exact ⟨h1, fun q => .inl (by rw [h2]), h3⟩
  | sendStatus o st =>
    simp only [World.remote] at h
    split at h
    · cases h
      exact same rfl
    · cases h
      refine ⟨rfl, fun q => ?_, fun _ => List.Subset.refl _⟩
      by_cases e : q = p
      · subst e
        exact .inr ⟨rfl, Function.update_self ..⟩
      · exact .inl (Function.update_of_ne e _ _)
  | awaitStatus o st =>
    simp only [World.remote] at h
    split at h
    · cases h
      exact same rfl
    · obtain ⟨b, -, e⟩ := Option.map_eq_some_iff.mp h
      cases e
      exact same rfl
  | participantCustomerIDs i => cases h; exact same rfl
  | resolveSellerID i => cases h; exact same rfl
  | resolveUserID i => cases h; exact same rfl
  | resolveCustomer i => cases h; exact same rfl
  | phone i => cases h; exact same rfl

theorem remote_get {o : UUID} {info : OfferOut}
    (h : World.remote p (.offersGet o) x w = some (.ok info, w')) :
    info ∈ w'.got p ∧ ∃ row, w.offers.state.store.committed.find o = some row ∧ info = .of row := by
  simp only [World.remote] at h
  split at h
  · cases h
  · obtain ⟨hg, rfl⟩ := Prod.mk.inj (Option.some.inj h)
    refine ⟨?_, World.get_ok hg⟩
    simp [World.read, hg]

/-- a PATCH that was answered with a success has run to its end -/
theorem remote_await {o : UUID} {st : Decision} {reply : OfferOut}
    (h : World.remote p (.awaitStatus o st) x w = some (.ok reply, w')) :
    ∃ offer, w.offers.prog (.inr p) = some (.ret (.ok offer)) := by
  simp only [World.remote] at h
  split at h
  · cases h
  · obtain ⟨b, hb, e⟩ := Option.map_eq_some_iff.mp h
    obtain ⟨rfl, -⟩ := Prod.mk.inj e
    unfold World.answer at hb
    split at hb
    · rename_i offer ho
      exact ⟨offer, ho⟩
    · cases hb
    · cases hb
    · cases hb

end

/-! ## calls and world -/

section
variable (S) (calls : P → Admin.Invocation) (sellers : O → Offers.Invocation)
variable (F : P → OfferOut → Offers.Config (O ⊕ P) Unit → Prop)

abbrev OffersRun (c : Offers.Config (O ⊕ P) Unit) : Prop :=
  Runs S.machine (Offers.start (routes calls sellers) Offers.Db.empty ()) c

/-- how the calls of admin-service and the world hang together -/
structure Linked (e : Ext P (World O P)) : Prop where
  runs : OffersRun S calls sellers e.out.offers
  silent : ∀ p, e.trace p = [] → e.out.sent p = false
  unsent : ∀ p, e.out.sent p = false → ∀ c ∈ e.out.offers.state.store.log, c.tx ≠ .inr p
  accepted : ∀ p o st reply, Event.remote (.awaitStatus o st) (.ok reply) ∈ e.trace p →
    ∃ offer, e.out.offers.prog (.inr p) = some (.ret (.ok offer))
  got : ∀ p o info, (e.trace p).head? = some (.remote (.offersGet o) (.ok info)) →
    info ∈ e.out.got p ∧ info.offerID = o ∧ F p info e.out.offers

/-- `F` holds of an offer when it is read, and the moves of offer-service keep it -/
structure Keeps (may : World O P → Act (O ⊕ P) (Choice Unit) → Bool) : Prop where
  get : ∀ {p o row c}, OffersRun S calls sellers c → (∀ d ∈ c.state.store.log, d.tx ≠ .inr p) →
    c.state.store.committed.find o = some row → F p (.of row) c
  step : ∀ {p info w act c}, OffersRun S calls sellers w.offers → info ∈ w.got p →
    may w act = true → S.machine.step w.offers act = some c → F p info w.offers → F p info c

variable {S calls sellers F}

theorem linked_start : Linked S calls sellers F ⟨World.start calls sellers, fun _ => []⟩ where
  runs := .refl
  silent _ _ := rfl
  unsent _ _ := by simp [World.start, Offers.start, Store.fresh]
  accepted := by simp
  got := by simp

/-- an event of `p` that is no read of an offer leaves the first event of every call alone -/
theorem head?_record {e : Ext P (World O P)} {p q : P} {ev ev' : Event} (h : ev ≠ ev')
    (hh : ((e.record p ev).trace q).head? = some ev') : (e.trace q).head? = some ev' := by
  by_cases hq : q = p
  · subst hq
    rw [Admin.record_self, List.head?_append] at hh
    cases ht : (e.trace q).head? with
    | none =>
      rw [ht] at hh
      exact absurd (Option.some.inj hh) h
    | some ev₁ =>
      rw [ht] at hh
      exact hh
  · rwa [Admin.record_other e hq] at hh

theorem mem_record {e : Ext P (World O P)} {p q : P} {ev ev' : Event} (h : ev ≠ ev')
    (hh : ev' ∈ (e.record p ev).trace q) : ev' ∈ e.trace q := by
  by_cases hq : q = p
  · subst hq
    rw [Admin.record_self] at hh
    rcases List.mem_append.mp hh with hh | hh
    · exact hh
    · exact absurd (List.mem_singleton.mp hh).symm h
  · rwa [Admin.record_other e hq] at hh

theorem record_ne_nil (e : Ext P (World O P)) {p q : P} {ev : Event}
    (h : (e.record p ev).trace q = []) : q ≠ p ∧ e.trace q = [] := by
  by_cases hq : q = p
  · subst hq
    rw [Admin.record_self] at h
    exact absurd h (by simp)
  · rw [Admin.record_other e hq] at h
    exact ⟨hq, h⟩

theorem Linked.remote (hK : Keeps S calls sellers F may) {p : P} {r : Remote}
    {x : Choice (Net O P)} {e : Ext P (World O P)} {a : Reply r} {w : World O P}
    (h : Linked S calls sellers F e) (hr : World.remote p r x e.out = some (a, w)) :
    Linked S calls sellers F ({ e with out := w }.record p (.remote r a)) := by
  obtain ⟨ho, hs, hg⟩ := remote_world hr
  have hunsent : ∀ q, w.sent q = false → e.out.sent q = false := by
    intro q hq
    rcases hs q with hs | ⟨-, hs⟩
    · exact hs.symm.trans hq
    · exact nomatch hs.symm.trans hq
  refine ⟨?_, fun q hq => ?_, fun q hq c hc => ?_, fun q o st reply hm => ?_,
    fun q o info hh => ?_⟩
  · show OffersRun S calls sellers w.offers
    rw [ho]
    exact h.runs
  · obtain ⟨hne, hq⟩ := record_ne_nil _ hq
    rcases hs q with hs | ⟨e, -⟩
    · exact hs.trans (h.silent q hq)
    · exact absurd e hne
  · have hc' : c ∈ w.offers.state.store.log := hc
    rw [ho] at hc'
    exact h.unsent q (hunsent q hq) c hc'
  · show ∃ offer, w.offers.prog (.inr q) = _
    rw [ho]
    by_cases hev : Event.remote r a = .remote (.awaitStatus o st) (.ok reply)
    · by_cases hq : q = p
      · subst hq
        cases hev
        exact remote_await hr
      · rw [Admin.record_other _ hq] at hm
        exact h.accepted q o st reply hm
    · exact h.accepted q o st reply (mem_record hev hm)
  · show info ∈ w.got q ∧ info.offerID = o ∧ F q info w.offers
    rw [ho]
    have old : (e.trace q).head? = some (.remote (.offersGet o) (.ok info)) →
        info ∈ w.got q ∧ info.offerID = o ∧ F q info e.out.offers := fun hh =>
      ⟨hg q (h.got q o info hh).1, (h.got q o info hh).2⟩
    by_cases hev : Event.remote r a = .remote (.offersGet o) (.ok info)
    · by_cases hq : q = p
      · subst hq
        by_cases ht : e.trace q = []
        · -- the first event of the call: its PATCH has not been sent, let alone committed
          cases hev
          obtain ⟨hm, row, hf, rfl⟩ := remote_get hr
          exact ⟨hm, Offers.find_id hf, hK.get h.runs (h.unsent q (h.silent q ht)) hf⟩
        · refine old ?_
          rw [Admin.record_self] at hh
          obtain ⟨ev, es, he⟩ := List.exists_cons_of_ne_nil ht
          simp only [he, List.cons_append, List.head?_cons] at hh
          rw [he]
          exact hh
      · rw [Admin.record_other _ hq] at hh
        exact old hh
    · exact old (head?_record hev hh)

theorem Linked.read {p : P} {ev : Event} {e : Ext P (World O P)} (hev : ev.readOf ≠ none)
    (h : Linked S calls sellers F e) : Linked S calls sellers F (e.record p ev) := by
  have hne : ∀ (r : Remote) (a : Reply r), ev ≠ .remote r a := by
    rintro r a rfl
    exact hev rfl
  exact ⟨h.runs, fun q hq => h.silent q (record_ne_nil e hq).2, h.unsent,
    fun q o st reply hm => h.accepted q o st reply (mem_record (hne _ _) hm),
    fun q o info hh => h.got q o info (head?_record (hne _ _) hh)⟩

/-- a move of offer-service -/
theorem Linked.env (hK : Keeps S calls sellers F may) {x : Choice (Net O P)}
    {e : Ext P (World O P)} {w : World O P} (h : Linked S calls sellers F e)
    (hx : (outside S may).env x e.out = some w) :
    Linked S calls sellers F { e with out := w } := by
  simp only [outside] at hx
  split at hx
  · rename_i hok
    simp only [Bool.and_eq_true] at hok
    obtain ⟨c, hc, rfl⟩ := Option.map_eq_some_iff.mp hx
    refine ⟨h.runs.tail _ hc, h.silent, fun p hp d hd => ?_, fun p o st reply hm => ?_,
      fun p o info hh => ?_⟩
    · have hold := h.unsent p hp
      rcases Spec.step_store hc with ⟨q, hq, he⟩ | ⟨-, he⟩
      · simp only [he, Store.commit, List.mem_cons] at hd
        rcases hd with rfl | hd
        · -- the committer has moved, so its PATCH has arrived
          rintro rfl
          have hopen := hok.1
          unfold committer at hq
          split at hq
          · rename_i p' x' hact
            split at hq
            · split at hq
              · cases hq
              · cases hq
                rw [hact] at hopen
                cases (show e.out.sent p = true from hopen).symm.trans hp
            · cases hq
          · cases hq
        · exact hold d hd
      · simp only [he] at hd
        exact hold d hd
    · obtain ⟨offer, ho⟩ := h.accepted p o st reply hm
      exact ⟨offer, Machine.step_ret hc ho⟩
    · obtain ⟨hg, hid, hF⟩ := h.got p o info hh
      exact ⟨hg, hid, hK.step h.runs hg hok.2 hc hF⟩
  · cases hx

/-- **calls and world hang together in every run** -/
def law (hK : Keeps S calls sellers F may) : Law (outside S may) where
  holds := Linked S calls sellers F
  remote h hr := h.remote hK hr
  env h hx := h.env hK hx
  read _ _ hev h := h.read hev

/-! ## the PATCH -/

/-- what the PATCH of `p` has done when it ends -/
def Patched (strict exact : Prop) (calls : P → Admin.Invocation) (t : O ⊕ P)
    (s : Offers.St (O ⊕ P)) : Prop :=
  ∀ p inp, t = .inr p → calls p = .decide inp →
    Offers.Done strict exact (.setStatus inp.offerID inp.decision) t s

theorem triple_routes {T : Service.Terms S} {strict exact : Prop}
    (hs : Offers.Sessions T strict exact) (hr : Offers.Reports T)
    (hc : ∀ t inv, Offers.Commits T strict exact (fun _ _ _ => True) t inv) (t : O ⊕ P) :
    T.Triple t (fun σ => Offers.Idle t σ.store) (routes calls sellers t)
      (fun _ σ => Patched strict exact calls t σ.store) fun _ _ => True := by
  cases t with
  | inl o =>
    exact (Offers.triple_handler hs hr (hc _ _)).weaken (fun _ h => h)
      (fun _ _ _ _ p inp e => nomatch e) fun _ _ _ _ => trivial
  | inr p =>
    cases hp : calls p with
    | decide inp =>
      simp only [routes, hp]
      refine (Offers.triple_handler hs hr (hc _ _)).weaken (fun _ h => h)
        (fun _ _ _ h q inp' e hq => ?_) fun _ _ _ _ => trivial
      cases e
      cases hp.symm.trans hq
      exact h
    | revoke i =>
      simp only [routes, hp]
      exact .throw Offers.Idle.stable fun _ _ _ => trivial
    | contactsForRequest u r =>
      simp only [routes, hp]
      exact .throw Offers.Idle.stable fun _ _ _ => trivial
    | hasContactAccess sl c r =>
      simp only [routes, hp]
      exact .throw Offers.Idle.stable fun _ _ _ => trivial

end

end

end Marketplace.System
