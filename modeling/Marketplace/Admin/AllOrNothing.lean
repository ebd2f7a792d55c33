import Mathlib.Algebra.Order.BigOperators.Group.List
import Mathlib.Algebra.Order.Group.Nat
import Marketplace.Lib.Alone
import Marketplace.Offers.Lifecycle
import Marketplace.Admin.Exposure

/-!
# admin-service: a decision across two services

`Decide` writes its rows, has offer-service change the status, writes the events and commits.  One
call is followed through every pattern of failures among its steps.

* `Pattern`          which of the steps fail, and how the PATCH fares;
* `Desk`             offer-service as the call meets it: its tables, and the answer it owes;
* `AllOrNothing`     the two services agree on the decision, and an error leaves no trace;
* `Torn f`           the PATCH is applied, and then its answer is lost or an event is not written;
* `decide_all_or_nothing`   the two services agree exactly if this does not happen.
-/

set_option linter.unusedSectionVars false

namespace Marketplace.Admin

open Table Events ReadCommitted Interleave
open Service hiding query remote
open Offers (Decision OfferOut OfferStatus Offer)

/-! ## the failures of one call -/

/-- how the PATCH fares: it is refused or does not arrive; it is applied, but the answer is lost,
late or unreadable; it is applied and answered -/
inductive Patch where
  | unsent (e : ClientErr)
  | unanswered
  | answered
  deriving DecidableEq, Repr

structure Pattern where
  get : Option ClientErr
  seller : Except ClientErr UUID
  participants : Except ClientErr (List UUID)
  patch : Patch
  step : Cmd Stmt Remote → Choice Unit

/-- generated ids are new -/
structure Pattern.Fresh (f : Pattern) (d : Db) : Prop where
  access : ∀ sl c r o u, d.rowsOf (f.step (.sql (.grantContactAccess sl c r o u))).id = []
  access_inj : ∀ sl c c' r o u, (f.step (.sql (.grantContactAccess sl c r o u))).id =
    (f.step (.sql (.grantContactAccess sl c' r o u))).id → c = c'
  event : ∀ key ns, ∀ row ∈ d.outbox, row.eventID ≠ (f.step (.sql (.insertOutbox key ns))).tag
  event_inj : ∀ key key' ns ns', (f.step (.sql (.insertOutbox key ns))).tag =
    (f.step (.sql (.insertOutbox key' ns'))).tag → key = key'

/-- offer-service as the call meets it -/
structure Desk where
  offers : Offers.Db
  answer : Except ClientErr OfferOut

/-- the route `PATCH /internal/offers/{id}/status`, from beginning to end -/
def Desk.setStatus (k : Desk) (o : UUID) (st : Decision) (now : Time) : Option Desk :=
  ((Offers.spec Offers.Outside.nothing).machine.alone () (fun _ => ⟨.none, 0, 0, now, ()⟩)
    (Offers.Invocation.setStatus o st).handler.run { store := Store.fresh k.offers, ext := () }).map
      fun r => {
        offers := r.2.store.committed
        answer := match r.1 with
          | .ok offer => .ok (.of offer)
          | .error e => .error (clientErr e) }

def Desk.get (k : Desk) (o : UUID) : Except ClientErr OfferOut :=
  match k.offers.find o with
  | some offer => .ok (.of offer)
  | none => .error .notFound

/-- the other services under a pattern of failures; `Decide` calls no others than these -/
def Pattern.outside (f : Pattern) : Outside Unit Desk Unit where
  remote _ r x k :=
    match r with
    | .offersGet o =>
      match f.get with
      | some e => some (.error e, k)
      | none => some (k.get o, k)
    | .sendStatus o st =>
      match f.patch with
      | .unsent _ => some ((), k)
      | _ => (k.setStatus o st x.now).map fun k => ((), k)
    | .awaitStatus _ _ =>
      match f.patch with
      | .unsent e => some (.error e, k)
      | .unanswered => some (.error .unavailable, k)
      | .answered => some (k.answer, k)
    | .participantCustomerIDs _ => some (f.participants, k)
    | .resolveUserID _ => some (f.seller, k)
    | .resolveSellerID _ => some (.error .unavailable, k)
    | .resolveCustomer _ => some (.error .unavailable, k)
    | .phone _ => some (.error .unavailable, k)
  env _ _ := none
  get_id {p o x k info k'} h := by
    simp only at h
    split at h
    · cases h
    · simp only [Option.some.injEq, Prod.mk.injEq, Desk.get] at h
      obtain ⟨h, -⟩ := h
      split at h
      · rename_i offer hf
        cases h
        exact Offers.rowsOf_id (Offers.find_mem hf)
      · cases h

/-- what a call has ended in -/
structure Outcome where
  result : Except Err DecideResult
  admin : Db
  offers : Offers.Db

abbrev Sys : Type := State Unit Db Write Lock (Ext Unit Desk)

/-- the two services before the call -/
def opening (d : Db) (e : Offers.Db) : Sys :=
  { store := Store.fresh d, ext := { out := ⟨e, .error .unavailable⟩, trace := fun _ => [] } }

/-- one call of `Decide` on these tables, from beginning to end -/
def decideUnder (f : Pattern) (inp : DecideInput) (d : Db) (e : Offers.Db) : Option Outcome :=
  ((spec f.outside).machine.alone () f.step (Admin.decide inp).run (opening d e)).map
    fun r => ⟨r.1, r.2.store.committed, r.2.ext.out.offers⟩

/-! ## the property and the condition -/

/-- the customers that an approval reads -/
def Pattern.customers (f : Pattern) (inp : DecideInput) : List UUID :=
  match inp.decision, f.participants with
  | .APPROVED, .ok ids => ids
  | _, _ => []

/-- the two services agree on the decision; after an error the offer is PENDING, the tables are
what they were, and the offer can still be decided -/
structure AllOrNothing (inp : DecideInput) (info : OfferOut) (ids : List UUID) (d : Db)
    (t : Outcome) : Prop where
  agree : t.offers.statusOf inp.offerID = some inp.decision.status ↔
    ∃ dec, t.admin.decisionsOf inp.offerID = [dec] ∧ dec.decision = inp.decision ∧
      t.admin.grantsOf inp.offerID = ids.map (grantFor info)
  undone : ∀ e, t.result = .error e →
    t.offers.statusOf inp.offerID = some .PENDING ∧ t.admin = d ∧
    ∃ f : Pattern, f.Fresh t.admin ∧ ∃ result d' e',
      decideUnder f inp t.admin t.offers = some ⟨.ok result, d', e'⟩

abbrev grantStmt (inp : DecideInput) (info : OfferOut) (customerID : UUID) : Stmt :=
  .grantContactAccess info.sellerID customerID info.requestID info.offerID inp.adminUserID

/-- nothing fails before the PATCH -/
structure Pattern.Reaches (f : Pattern) (inp : DecideInput) (info : OfferOut) : Prop where
  get : f.get = none
  customers : inp.decision = .APPROVED →
    ∃ ids, f.participants = .ok ids ∧ ids ≠ [] ∧ ids.Nodup ∧
      ∀ c ∈ ids, (f.step (.sql (grantStmt inp info c))).fault = .none
  begins : (f.step .begin).fault = .none
  records : (f.step (.sql (.recordDecision inp.offerID inp.adminUserID inp.decision
    inp.reason))).fault = .none

/-- whom the events of the decision are for; nil if the seller could not be resolved -/
def Pattern.addressee (f : Pattern) : UUID := (present f.seller).toOption.getD UUID.nil

/-- an event of the decision is not written -/
def Pattern.EnqueueFails (f : Pattern) (inp : DecideInput) : Prop :=
  f.addressee ≠ UUID.nil ∧
  ((f.step (.sql (.insertOutbox (outcomeKey inp.decision)
      [outcomeNotification f.addressee inp]))).fault ≠ .none ∨
    inp.decision = .APPROVED ∧ (f.step (.sql (.insertOutbox .contactAccessGranted
      [accessNotification f.addressee (f.customers inp).length]))).fault ≠ .none)

/-- the PATCH is applied, and then its answer is lost or an event is not written -/
def Pattern.Torn (f : Pattern) (inp : DecideInput) (info : OfferOut) : Prop :=
  f.Reaches inp info ∧
    (f.patch = .unanswered ∨ f.patch = .answered ∧ f.EnqueueFails inp)

/-! ## offer-service -/

theorem free_alone {Db W L : Type} [DecidableEq L] [Schema Db W L] (s : Store Unit Db W L) (l : L) :
    s.free () l = true := by
  unfold Store.free
  cases s.locks l <;> simp

theorem put_alone {Db W L : Type} [DecidableEq L] [Schema Db W L] (s : Store Unit Db W L) (w : W) :
    ∃ t, s.put () w = some t := by
  unfold Store.put
  rw [if_pos (List.all_eq_true.mpr fun l _ => free_alone s l)]
  exact ⟨_, rfl⟩

theorem writing_alone {α : Type} (s : Offers.St Unit) (w : Offers.Write) (row : α) :
    ∃ t, s.writing () w row = some (.ok row, t) ∧ s.put () w = some t := by
  obtain ⟨t, ht⟩ := put_alone s w
  exact ⟨t, by rw [Offers.St.writing, ht]; rfl, ht⟩

/-- the update of a decision, when the row is as it was loaded -/
theorem updateStatus_alone (st : Decision) {s : Offers.St Unit} {row : Offer} {x : Choice Unit}
    (hrow : (s.view ()).find row.offerID = some row) (hs : row.status = .PENDING)
    (hv : row.valid = true) :
    ∃ t, Offers.stmt () (.updateOffer row { status := some st.status }) x s = some (.ok (), t) ∧
      s.put () (.updateOffer row { status := some st.status } x.now) = some t := by
  have hsent : Offers.Columns.changed { status := some st.status } row =
      { status := some st.status } := by
    have hne : st.status ≠ row.status := by
      rw [hs]
      cases st <;> simp [Decision.status]
    simp [Offers.Columns.changed, hne]
  have hvalid : (row.updated { status := some st.status } x.now).valid = true := hv
  have hfits : Offers.Columns.fits { status := some st.status } = true := rfl
  obtain ⟨t, ht, hput⟩ := writing_alone s (.updateOffer row { status := some st.status } x.now) ()
  refine ⟨t, ?_, hput⟩
  simp only [Offers.stmt, free_alone, hrow, hsent, hfits, hvalid, hs, OfferStatus.live, Bool.not_true,
    Bool.and_false, Bool.false_and, Bool.false_eq_true, if_false]
  exact ht

/-- **the PATCH**: a PENDING offer gets the status, and the answer is a success -/
theorem Desk.setStatus_eq {k : Desk} {o : UUID} {row : Offer} (hrow : k.offers.rowsOf o = [row])
    (hs : row.status = .PENDING) (hv : row.valid = true) (st : Decision) (now : Time) :
    ∃ k' info, k.setStatus o st now = some k' ∧ k'.answer = .ok info ∧
      k'.offers.statusOf o = some st.status := by
  have hid : row.offerID = o := Offers.rowsOf_id (hrow ▸ List.mem_singleton_self row)
  have hfind : k.offers.find row.offerID = some row := by rw [Offers.find_eq, hid, hrow]; rfl
  subst hid
  -- the statements, one after the other
  let x : Cmd Offers.Stmt Offers.Report → Choice Unit := fun _ => ⟨.none, 0, 0, now, ()⟩
  let s₁ : Offers.St Unit := (Store.fresh k.offers).begin () now
  obtain ⟨s₂, hupd, hput⟩ := updateStatus_alone st (s := s₁)
    (x := ⟨.none, 0, 0, now, ()⟩) hfind hs hv
  have hview : (s₂.commit ()).view () =
      Offers.Write.apply (.updateOffer row { status := some st.status } now) k.offers := by
    show applyAll (Function.update s₂.pending () [] ()) (s₂.view ()) = _
    rw [Function.update_self, applyAll_nil, put_view hput]
    rfl
  let row' := row.updated { status := some st.status } now
  have hrows : ((s₂.commit ()).view ()).rowsOf row.offerID = [row'] := by
    rw [hview]
    exact Offers.rowsOf_updateOffer _ _ _ _ hrow
  have hfind' : ((s₂.commit ()).view ()).find row.offerID = some row' := by
    rw [Offers.find_eq, hrows]
    rfl
  have hget : Ends (Offers.spec Offers.Outside.nothing) () x (Offers.getOffer row.offerID) ⟨s₁, ()⟩ (.ok row)
      ⟨s₁, ()⟩ := by
    refine .bind (.sql (a := some row) (t := s₁) rfl ?_) (.pure row)
    show some (Except.ok ((s₁.view ()).find row.offerID), s₁) = _
    rw [show (s₁.view ()).find row.offerID = some row from hfind]
  have hbody : Ends (Offers.spec Offers.Outside.nothing) () x (Offers.setStatus row.offerID st.status)
      ⟨Store.fresh k.offers, ()⟩ (.ok row') ⟨s₂.commit (), ()⟩ := by
    refine .bind (.bind (.begin rfl) (.pure ())) (.bind hget ?_)
    simp only [hs, ne_eq, not_true_eq_false, if_false]
    refine .bind (.sql rfl hupd) (.bind (.bind (.commit rfl rfl) (.pure ())) (.sql rfl ?_))
    show Offers.stmt () (.refresh row.offerID) (x .begin) (s₂.commit ()) = _
    simp only [Offers.stmt, hfind']
  have hreport : Ends (Offers.spec Offers.Outside.nothing) () x (Offers.reportOfferCount row'.requestID)
      ⟨s₂.commit (), ()⟩ (.ok ()) ⟨s₂.commit (), ()⟩ :=
    .bind (.sql rfl rfl) (.remote rfl)
  have hall : Ends (Offers.spec Offers.Outside.nothing) () x (Offers.Invocation.setStatus row.offerID st).handler
      ⟨Store.fresh k.offers, ()⟩ (.ok row') ⟨(s₂.commit ()).rollback (), ()⟩ :=
    .bind (.attempt (.bind hbody (.bind hreport (.pure row')))) (.bind .rollback (.pure row'))
  refine ⟨⟨(s₂.commit ()).committed, .ok (.of row')⟩, .of row', ?_, rfl, ?_⟩
  · unfold Desk.setStatus
    rw [show Machine.alone _ _ _ _ _ = _ from hall]
    rfl
  · have hc : (s₂.commit ()).view () = (s₂.commit ()).committed := by
      show applyAll (Function.update s₂.pending () [] ()) _ = _
      rw [Function.update_self]
      rfl
    rw [← hc, Offers.statusOf_of_rows hrows]
    rfl

/-! ## the transaction of `Decide` -/

/-- nothing is committed yet, and offer-service is as it was -/
structure Untouched (d : Db) (k : Desk) (σ : Sys) : Prop where
  committed : σ.store.committed = d
  out : σ.ext.out = k

/-- the writes of the transaction so far -/
structure Tx (d : Db) (k : Desk) (dec : OfferDecision) (rows : List ContactAccess)
    (evs : List NotificationOutbox) (σ : Sys) : Prop extends Untouched d k σ where
  pending : σ.store.pending () =
    .recordDecision dec :: (rows.map .grantContactAccess ++ evs.map .insertOutbox)

theorem applyAll_grants (rows : List ContactAccess) (d : Db) :
    applyAll (rows.map Write.grantContactAccess) d = { d with accesses := d.accesses ++ rows } := by
  induction rows generalizing d with
  | nil => simp [applyAll_nil]
  | cons row rows ih =>
    rw [List.map_cons, applyAll_cons, ih]
    simp [Schema.apply, Write.apply]

theorem applyAll_events (evs : List NotificationOutbox) (d : Db) :
    applyAll (evs.map Write.insertOutbox) d = { d with outbox := d.outbox ++ evs } := by
  induction evs generalizing d with
  | nil => simp [applyAll_nil]
  | cons row rows ih =>
    rw [List.map_cons, applyAll_cons, ih]
    simp [Schema.apply, Write.apply]

section
variable {f : Pattern} {inp : DecideInput} {info : OfferOut} {d : Db} {k : Desk} {σ : Sys}
variable {dec : OfferDecision} {rows : List ContactAccess} {evs : List NotificationOutbox}

theorem Tx.view (h : Tx d k dec rows evs σ) :
    σ.store.view () = ⟨d.decisions ++ [dec], d.accesses ++ rows, d.outbox ++ evs⟩ := by
  rw [Store.view, h.pending, h.committed, applyAll_cons, applyAll_append, applyAll_grants,
    applyAll_events]
  rfl

theorem adminWriting_alone {α : Type} (s : St Unit) (w : Write) (row : α) :
    ∃ t, s.writing () w row = some (.ok row, t) ∧ s.put () w = some t := by
  obtain ⟨t, ht⟩ := put_alone s w
  exact ⟨t, by rw [St.writing, ht]; rfl, ht⟩

theorem recordDecision_alone (h : Untouched d k σ) (hp : σ.store.pending () = [])
    (hd : d.decisionsOf inp.offerID = [])
    (hx : (f.step (.sql (.recordDecision inp.offerID inp.adminUserID inp.decision
      inp.reason))).fault = .none) :
    ∃ dec τ, Ends (spec f.outside) () f.step (recordDecision inp) σ (.ok dec) τ ∧
      Tx d k dec [] [] τ ∧ dec.offerID = inp.offerID ∧ dec.decision = inp.decision := by
  let q : Stmt := .recordDecision inp.offerID inp.adminUserID inp.decision inp.reason
  let dec : OfferDecision := ⟨(f.step (.sql q)).id, inp.offerID, inp.adminUserID, inp.decision,
    inp.reason, σ.store.now ()⟩
  obtain ⟨t, ht, hput⟩ := adminWriting_alone σ.store (.recordDecision dec) dec
  have hstmt : stmt () q (f.step (.sql q)) σ.store = some (.ok dec, t) := by
    have hv : (σ.store.view ()).decisionsOf inp.offerID = [] := by
      rw [view_of_pending hp, h.committed]
      exact hd
    simp only [q, stmt, free_alone, hv, Bool.not_true, Bool.false_eq_true, ne_eq, not_true_eq_false,
      if_false]
    exact ht
  refine ⟨dec, ⟨t, σ.ext⟩, .bind (.query hx hstmt) (.pure dec),
    ⟨⟨?_, h.out⟩, ?_⟩, rfl, rfl⟩
  · exact (Quiet.put hput).committed.trans h.committed
  · show t.pending () = _
    rw [put_pending hput, hp]
    rfl

theorem recordDecision_fails (hx : (f.step (.sql (.recordDecision inp.offerID inp.adminUserID
      inp.decision inp.reason))).fault ≠ .none) :
    Ends (spec f.outside) () f.step (recordDecision inp) σ
      (.error (.wrap "recording decision" (.pg .other))) σ :=
  .bind (.query_fails hx) (.throw _)

/-- the grants so far are those of this decision -/
def Given (f : Pattern) (inp : DecideInput) (info : OfferOut) (rows : List ContactAccess) : Prop :=
  ∀ row ∈ rows, row.offerID = inp.offerID ∧ row.grant = grantFor info row.customerID ∧
    row.accessID = (f.step (.sql (grantStmt inp info row.customerID))).id

theorem grant_alone (hf : f.Fresh d) (hinfo : info.offerID = inp.offerID)
    (hacc : d.accessesOf inp.offerID = []) (h : Tx d k dec rows [] σ) (hg : Given f inp info rows)
    {c : UUID} (hx : (f.step (.sql (grantStmt inp info c))).fault = .none)
    (hc : c ∉ rows.map (·.customerID)) :
    ∃ (row : ContactAccess) (τ : Sys), Ends (spec f.outside) () f.step
        (exec "granting contact access" (grantStmt inp info c)) σ (.ok row) τ ∧ Tx d k dec (rows ++ [row]) [] τ ∧ row.customerID = c ∧
      Given f inp info (rows ++ [row]) := by
  let x := f.step (.sql (grantStmt inp info c))
  let row : ContactAccess := ⟨x.id, info.sellerID, c, info.requestID, info.offerID, .GRANTED,
    inp.adminUserID, σ.store.now (), none⟩
  obtain ⟨t, ht, hput⟩ := adminWriting_alone σ.store (.grantContactAccess row) row
  have hid : (σ.store.view ()).rowsOf x.id = [] := by
    rw [h.view]
    show (d.accesses ++ rows).filter _ = []
    rw [List.filter_append]
    refine List.append_eq_nil_iff.mpr ⟨hf.access _ _ _ _ _, List.filter_eq_nil_iff.mpr ?_⟩
    intro b hb
    simp only [beq_iff_eq]
    intro e
    rw [(hg b hb).2.2] at e
    exact hc (List.mem_map.mpr ⟨b, hb, hf.access_inj _ _ _ _ _ _ e⟩)
  have hone : ((σ.store.view ()).accessesOf info.offerID).any (·.customerID == c) = false := by
    rw [h.view]
    show ((d.accesses ++ rows).filter _).any _ = false
    rw [List.filter_append, hinfo]
    show (d.accessesOf inp.offerID ++ _).any _ = false
    rw [hacc, List.nil_append, List.any_eq_false]
    intro b hb e
    exact hc (List.mem_map.mpr ⟨b, (List.mem_filter.mp hb).1, by simpa using e⟩)
  have hstmt : stmt () (grantStmt inp info c) x σ.store = some (.ok row, t) := by
    simp only [grantStmt, stmt, free_alone, hid, hone, Bool.and_self, Bool.not_true,
      Bool.false_eq_true, ne_eq, not_true_eq_false, if_false]
    exact ht
  refine ⟨row, ⟨t, σ.ext⟩, .sql hx hstmt,
    ⟨⟨(Quiet.put hput).committed.trans h.committed, h.out⟩, ?_⟩, rfl, ?_⟩
  · show t.pending () = _
    rw [put_pending hput, h.pending]
    simp
  · intro b hb
    rcases List.mem_append.mp hb with hb | hb
    · exact hg b hb
    · rw [List.mem_singleton.mp hb]
      exact ⟨hinfo, rfl, rfl⟩

theorem grant_fails (hinfo : info.offerID = inp.offerID) (h : Tx d k dec rows [] σ)
    (hg : Given f inp info rows) {c : UUID}
    (hx : (f.step (.sql (grantStmt inp info c))).fault ≠ .none ∨ c ∈ rows.map (·.customerID)) :
    ∃ e τ, Ends (spec f.outside) () f.step (exec "granting contact access" (grantStmt inp info c))
        σ (.error e) τ ∧ Untouched d k τ := by
  by_cases hfault : (f.step (.sql (grantStmt inp info c))).fault = .none
  · have hc := hx.resolve_left (not_not.mpr hfault)
    obtain ⟨b, hb, rfl⟩ := List.mem_map.mp hc
    have hone : ((σ.store.view ()).accessesOf info.offerID).any (·.customerID == b.customerID)
        = true := by
      rw [h.view, List.any_eq_true]
      refine ⟨b, List.mem_filter.mpr ⟨List.mem_append_right _ hb, ?_⟩, beq_self_eq_true _⟩
      rw [hinfo, (hg b hb).1]
      exact beq_self_eq_true _
    have hstmt : stmt () (grantStmt inp info b.customerID)
        (f.step (.sql (grantStmt inp info b.customerID))) σ.store =
          some (.error .uniqueViolation, σ.store) := by
      simp only [grantStmt, stmt, free_alone, hone, Bool.and_self, Bool.not_true,
        Bool.false_eq_true, if_false, if_true]
      split
      · rfl
      · rfl
    exact ⟨_, σ, .sql_error hfault hstmt, h.toUntouched⟩
  · exact ⟨_, σ, .sql_fails hfault, h.toUntouched⟩

/-- all the grants go in if none fails and no customer comes twice -/
theorem grantAll_alone (hf : f.Fresh d) (hinfo : info.offerID = inp.offerID)
    (hacc : d.accessesOf inp.offerID = []) (ids : List UUID) :
    ∀ rows σ, Tx d k dec rows [] σ → Given f inp info rows →
      (∀ c ∈ ids, (f.step (.sql (grantStmt inp info c))).fault = .none) →
      (rows.map (·.customerID) ++ ids).Nodup →
      ∃ rows' τ, Ends (spec f.outside) () f.step (grantAll inp info ids) σ (.ok ()) τ ∧
        Tx d k dec rows' [] τ ∧ Given f inp info rows' ∧
        rows'.map (·.customerID) = rows.map (·.customerID) ++ ids := by
  induction ids with
  | nil =>
    intro rows σ h hg _ _
    exact ⟨rows, σ, .pure (), h, hg, (List.append_nil _).symm⟩
  | cons c ids ih =>
    intro rows σ h hg hx hnd
    have hc : c ∉ rows.map (·.customerID) := fun hm =>
      (List.nodup_append.mp hnd).2.2 c hm c List.mem_cons_self rfl
    obtain ⟨row, τ, hrun, htx, hcust, hg'⟩ := grant_alone hf hinfo hacc h hg
      (hx c List.mem_cons_self) hc
    have hmap : (rows ++ [row]).map (·.customerID) ++ ids = rows.map (·.customerID) ++ c :: ids := by
      simp [hcust]
    obtain ⟨rows', υ, hrun', htx', hg'', hids⟩ := ih (rows ++ [row]) τ htx hg'
      (fun c' hc' => hx c' (List.mem_cons_of_mem _ hc')) (hmap ▸ hnd)
    exact ⟨rows', υ, .bind hrun hrun', htx', hg'', hids.trans hmap⟩

theorem grantAll_fails (hf : f.Fresh d) (hinfo : info.offerID = inp.offerID)
    (hacc : d.accessesOf inp.offerID = []) (ids : List UUID) :
    ∀ rows σ, Tx d k dec rows [] σ → Given f inp info rows → (rows.map (·.customerID)).Nodup →
      ¬ ((∀ c ∈ ids, (f.step (.sql (grantStmt inp info c))).fault = .none) ∧
        (rows.map (·.customerID) ++ ids).Nodup) →
      ∃ e τ, Ends (spec f.outside) () f.step (grantAll inp info ids) σ (.error e) τ ∧
        Untouched d k τ := by
  induction ids with
  | nil =>
    intro rows σ h hg hnd hn
    exact absurd ⟨fun c hc => absurd hc List.not_mem_nil, by rwa [List.append_nil]⟩ hn
  | cons c ids ih =>
    intro rows σ h hg hnd hn
    by_cases hbad : (f.step (.sql (grantStmt inp info c))).fault ≠ .none ∨
        c ∈ rows.map (·.customerID)
    · obtain ⟨e, τ, hrun, ht⟩ := grant_fails hinfo h hg hbad
      exact ⟨e, τ, .bind_error hrun, ht⟩
    · rw [not_or, not_not] at hbad
      obtain ⟨row, τ, hrun, htx, hcust, hg'⟩ := grant_alone hf hinfo hacc h hg hbad.1 hbad.2
      have hmap : (rows ++ [row]).map (·.customerID) = rows.map (·.customerID) ++ [c] := by
        simp [hcust]
      have hnd' : ((rows ++ [row]).map (·.customerID)).Nodup := by
        rw [hmap]
        exact List.nodup_append.mpr ⟨hnd, List.nodup_singleton c, fun x hx y hy e =>
          hbad.2 (List.mem_singleton.mp hy ▸ e ▸ hx)⟩
      have hn' : ¬ ((∀ c ∈ ids, (f.step (.sql (grantStmt inp info c))).fault = .none) ∧
          ((rows ++ [row]).map (·.customerID) ++ ids).Nodup) := by
        rintro ⟨hall, hall'⟩
        rw [hmap, List.append_assoc] at hall'
        exact hn ⟨List.forall_mem_cons.mpr ⟨hbad.1, hall⟩, hall'⟩
      obtain ⟨e, υ, hrun', ht⟩ := ih (rows ++ [row]) τ htx hg' hnd' hn'
      exact ⟨e, υ, .bind hrun hrun', ht⟩

/-! ### the PATCH -/

/-- offer-service has taken the decision over -/
def Taken (inp : DecideInput) (k' : Desk) : Prop :=
  k'.offers.statusOf inp.offerID = some inp.decision.status

/-- after a remote call -/
def Sys.answered (σ : Sys) (r : Remote) (a : Reply r) (k' : Desk) : Sys :=
  ⟨σ.store, Ext.record { σ.ext with out := k' } () (.remote r a)⟩

theorem remote_alone {r : Remote} {a : Reply r} {w : Desk}
    (h : f.outside.remote () r (f.step (.remote r)) σ.ext.out = some (a, w)) :
    Ends (spec f.outside) () f.step (remote r) σ (.ok a) (Sys.answered σ r a w) := by
  refine .remote ?_
  show ((f.outside.remote () r _ _).map _) = _
  rw [h]
  rfl

/-- the answer is an error -/
theorem setStatus_error {τ : Sys} {e : ClientErr}
    (hsend : Ends (spec f.outside) () f.step
      (remote (.sendStatus inp.offerID inp.decision) : Op Unit) σ (.ok ()) τ)
    (h : f.outside.remote () (.awaitStatus inp.offerID inp.decision)
      (f.step (.remote (.awaitStatus inp.offerID inp.decision))) τ.ext.out =
        some (.error e, τ.ext.out)) :
    ∃ e' υ, Ends (spec f.outside) () f.step (setStatus inp) σ (.error e') υ ∧
      υ.store = τ.store ∧ υ.ext.out = τ.ext.out := by
  cases e with
  | notFound => exact ⟨_, _, .bind hsend (.bind (remote_alone h) (.throw _)), rfl, rfl⟩
  | conflict => exact ⟨_, _, .bind hsend (.bind (remote_alone h) (.throw _)), rfl, rfl⟩
  | unavailable => exact ⟨_, _, .bind hsend (.bind (remote_alone h) (.throw _)), rfl, rfl⟩

theorem setStatus_unsent {e : ClientErr} (hf : f.patch = .unsent e) (h : Untouched d k σ) :
    ∃ e' τ, Ends (spec f.outside) () f.step (setStatus inp) σ (.error e') τ ∧ Untouched d k τ := by
  have hsend : Ends (spec f.outside) () f.step
      (remote (.sendStatus inp.offerID inp.decision) : Op Unit) σ (.ok ()) _ :=
    remote_alone (w := σ.ext.out) (by simp only [Pattern.outside, hf])
  obtain ⟨e', υ, hrun, hst, hout⟩ := setStatus_error (e := e) hsend
    (by simp only [Pattern.outside, hf])
  exact ⟨e', υ, hrun, hst ▸ h.committed, hout.trans h.out⟩

section
variable {row : Offer}

/-- offer-service gets the PATCH and applies it -/
theorem sendStatus_alone (hrow : k.offers.rowsOf inp.offerID = [row]) (hs : row.status = .PENDING)
    (hv : row.valid = true) (hf : ∀ e, f.patch ≠ .unsent e) (hk : σ.ext.out = k) :
    ∃ k' info τ, Ends (spec f.outside) () f.step
        (remote (.sendStatus inp.offerID inp.decision) : Op Unit) σ (.ok ()) τ ∧
      τ.store = σ.store ∧ τ.ext.out = k' ∧ k'.answer = .ok info ∧ Taken inp k' := by
  obtain ⟨k', info, hset, hans, htaken⟩ := Desk.setStatus_eq hrow hs hv inp.decision
    (f.step (.remote (.sendStatus inp.offerID inp.decision))).now
  refine ⟨k', info, _, remote_alone (w := k') ?_, rfl, rfl, hans, htaken⟩
  cases hp : f.patch with
  | unsent e => exact absurd hp (hf e)
  | unanswered => simp only [Pattern.outside, hp, hk, hset, Option.map_some]
  | answered => simp only [Pattern.outside, hp, hk, hset, Option.map_some]

theorem setStatus_unanswered (hrow : k.offers.rowsOf inp.offerID = [row])
    (hs : row.status = .PENDING) (hv : row.valid = true) (hf : f.patch = .unanswered)
    (h : Untouched d k σ) :
    ∃ e k' τ, Ends (spec f.outside) () f.step (setStatus inp) σ (.error e) τ ∧
      Untouched d k' τ ∧ Taken inp k' := by
  obtain ⟨k', info, τ, hsend, hst, hout, -, htaken⟩ :=
    sendStatus_alone hrow hs hv (fun e => by rw [hf]; exact Patch.noConfusion) h.out
  obtain ⟨e', υ, hrun, hst', hout'⟩ := setStatus_error (e := .unavailable) hsend
    (by simp only [Pattern.outside, hf])
  exact ⟨e', k', υ, hrun, ⟨by rw [hst', hst, h.committed], by rw [hout', hout]⟩, htaken⟩

theorem setStatus_answered (hrow : k.offers.rowsOf inp.offerID = [row])
    (hs : row.status = .PENDING) (hv : row.valid = true) (hf : f.patch = .answered)
    (h : Tx d k dec rows [] σ) :
    ∃ k' τ, Ends (spec f.outside) () f.step (setStatus inp) σ (.ok ()) τ ∧
      Tx d k' dec rows [] τ ∧ Taken inp k' := by
  obtain ⟨k', info, τ, hsend, hst, hout, hans, htaken⟩ :=
    sendStatus_alone hrow hs hv (fun e => by rw [hf]; exact Patch.noConfusion) h.out
  have hawait : f.outside.remote () (.awaitStatus inp.offerID inp.decision)
      (f.step (.remote (.awaitStatus inp.offerID inp.decision))) τ.ext.out =
        some (.ok info, k') := by
    simp only [Pattern.outside, hf, hout, hans]
  exact ⟨k', _, .bind hsend (.bind (remote_alone hawait) (.pure ())),
    ⟨⟨hst ▸ h.committed, rfl⟩, hst ▸ h.pending⟩, htaken⟩

end

/-! ### the events -/

theorem exec_outbox {key : RoutingKey} {n : Notification} (h : Tx d k dec rows evs σ)
    (hx : (f.step (.sql (.insertOutbox key [n]))).fault = .none)
    (hnew : ∀ row ∈ d.outbox ++ evs, row.eventID ≠ (f.step (.sql (.insertOutbox key [n]))).tag) :
    ∃ row τ, Ends (spec f.outside) () f.step (enqueue key [n]) σ (.ok ()) τ ∧
      Tx d k dec rows (evs ++ [row]) τ ∧
      row.eventID = (f.step (.sql (.insertOutbox key [n]))).tag := by
  let x := f.step (.sql (.insertOutbox key [n]))
  let row := NotificationOutbox.of x.id x.tag key [n] (σ.store.now ())
  obtain ⟨t, ht, hput⟩ := adminWriting_alone σ.store (.insertOutbox row) ()
  have hstmt : stmt () (.insertOutbox key [n]) x σ.store = some (.ok (), t) := by
    have hany : (σ.store.view ()).outbox.any (·.eventID == x.tag) = false := by
      rw [h.view, List.any_eq_false]
      intro b hb
      simpa using hnew b hb
    simp only [stmt, free_alone, hany, Bool.not_true, Bool.false_eq_true, if_false]
    exact ht
  refine ⟨row, ⟨t, σ.ext⟩, ?_, ⟨⟨(Quiet.put hput).committed.trans h.committed, h.out⟩, ?_⟩, rfl⟩
  · unfold enqueue
    rw [if_neg (List.cons_ne_nil _ _)]
    exact .sql hx hstmt
  · show t.pending () = _
    rw [put_pending hput, h.pending]
    simp

theorem exec_outbox_fails {key : RoutingKey} {n : Notification}
    (hx : (f.step (.sql (.insertOutbox key [n]))).fault ≠ .none) :
    ∃ e, Ends (spec f.outside) () f.step (enqueue key [n]) σ (.error e) σ := by
  unfold enqueue
  rw [if_neg (List.cons_ne_nil _ _)]
  exact ⟨_, .sql_fails hx⟩

theorem notifySeller_alone (hf : f.Fresh d) (hn : ¬ f.EnqueueFails inp)
    (h : Tx d k dec rows [] σ) :
    ∃ evs τ, Ends (spec f.outside) () f.step
        (notifySeller f.addressee inp (f.customers inp).length) σ (.ok ()) τ ∧
      Tx d k dec rows evs τ := by
  unfold notifySeller
  by_cases hu : f.addressee = UUID.nil
  · rw [if_pos hu]
    exact ⟨[], σ, .pure (), h⟩
  · rw [if_neg hu]
    have hn' := not_and.mp hn hu
    rw [not_or, not_not, not_and, not_not] at hn'
    obtain ⟨row, τ, hrun, htx, hrow⟩ := exec_outbox h hn'.1 (by simpa using hf.event _ _)
    by_cases hd : inp.decision ≠ .APPROVED ∨ (f.customers inp).length = 0
    · refine ⟨[] ++ [row], τ, .bind hrun ?_, htx⟩
      rw [if_pos hd]
      exact .pure ()
    · have hap : inp.decision = .APPROVED := by
        rw [not_or, not_not] at hd
        exact hd.1
      have hnew : ∀ b ∈ d.outbox ++ ([] ++ [row]), b.eventID ≠ (f.step (.sql (.insertOutbox
          .contactAccessGranted [accessNotification f.addressee (f.customers inp).length]))).tag := by
        intro b hb
        rcases List.mem_append.mp hb with hb | hb
        · exact hf.event _ _ b hb
        · -- the two events have different keys
          rw [List.nil_append, List.mem_singleton] at hb
          subst hb
          rw [hrow]
          intro e
          have hkey := hf.event_inj _ _ _ _ e
          rw [hap] at hkey
          exact absurd hkey (by simp [outcomeKey])
      obtain ⟨row', υ, hrun', htx', -⟩ := exec_outbox htx (hn'.2 hap) hnew
      refine ⟨_, υ, .bind hrun ?_, htx'⟩
      rw [if_neg hd]
      exact hrun'

theorem notifySeller_fails (hf : f.Fresh d) (hn : f.EnqueueFails inp)
    (hne : inp.decision = .APPROVED → (f.customers inp).length ≠ 0) (h : Tx d k dec rows [] σ) :
    ∃ e τ, Ends (spec f.outside) () f.step
        (notifySeller f.addressee inp (f.customers inp).length) σ (.error e) τ ∧
      Untouched d k τ := by
  unfold notifySeller
  rw [if_neg hn.1]
  by_cases hx : (f.step (.sql (.insertOutbox (outcomeKey inp.decision)
      [outcomeNotification f.addressee inp]))).fault = .none
  · obtain ⟨hap, hx'⟩ := hn.2.resolve_left (not_not.mpr hx)
    obtain ⟨row, τ, hrun, htx, -⟩ := exec_outbox h hx (by simpa using hf.event _ _)
    obtain ⟨e, hfail⟩ := exec_outbox_fails (σ := τ) hx'
    refine ⟨e, τ, .bind hrun ?_, htx.toUntouched⟩
    rw [if_neg (by rw [not_or, not_not]; exact ⟨hap, hne hap⟩)]
    exact hfail
  · obtain ⟨e, hfail⟩ := exec_outbox_fails (σ := σ) hx
    exact ⟨e, σ, .bind_error hfail, h.toUntouched⟩

/-! ### the whole transaction -/

/-- nothing fails inside the transaction before the PATCH -/
structure Pattern.Records (f : Pattern) (inp : DecideInput) (info : OfferOut) : Prop where
  decision : (f.step (.sql (.recordDecision inp.offerID inp.adminUserID inp.decision
    inp.reason))).fault = .none
  grants : ∀ c ∈ f.customers inp, (f.step (.sql (grantStmt inp info c))).fault = .none
  nodup : (f.customers inp).Nodup

section
variable {row : Offer}

/-- the rows are written, up to the PATCH -/
theorem records_alone (hf : f.Fresh d) (hinfo : info.offerID = inp.offerID)
    (hd : d.decisionsOf inp.offerID = []) (hacc : d.accessesOf inp.offerID = [])
    (h : Untouched d k σ) (hp : σ.store.pending () = []) (hr : f.Records inp info) :
    ∃ dec rows τ υ, Ends (spec f.outside) () f.step (recordDecision inp) σ (.ok dec) τ ∧
      Ends (spec f.outside) () f.step (grantAll inp info (f.customers inp)) τ (.ok ()) υ ∧
      Tx d k dec rows [] υ ∧ dec.offerID = inp.offerID ∧ dec.decision = inp.decision ∧
      Given f inp info rows ∧ rows.map (·.customerID) = f.customers inp := by
  obtain ⟨dec, τ, hrec, htx, hoff, hdec⟩ := recordDecision_alone h hp hd hr.decision
  obtain ⟨rows, υ, hgr, htx', hg, hids⟩ := grantAll_alone hf hinfo hacc (f.customers inp) [] τ htx
    (fun _ hm => absurd hm List.not_mem_nil) hr.grants hr.nodup
  exact ⟨dec, rows, τ, υ, hrec, hgr, htx', hoff, hdec, hg, hids⟩

theorem recordOutcome_before (hf : f.Fresh d) (hinfo : info.offerID = inp.offerID)
    (hd : d.decisionsOf inp.offerID = []) (hacc : d.accessesOf inp.offerID = [])
    (h : Untouched d k σ) (hp : σ.store.pending () = [])
    (hn : ¬ f.Records inp info ∨ ∃ e, f.patch = .unsent e) :
    ∃ e τ, Ends (spec f.outside) () f.step
        (recordOutcome inp info f.addressee (f.customers inp)) σ (.error e) τ ∧
      Untouched d k τ := by
  by_cases hx : (f.step (.sql (.recordDecision inp.offerID inp.adminUserID inp.decision
      inp.reason))).fault = .none
  · by_cases hr : f.Records inp info
    · obtain ⟨e, he⟩ := hn.resolve_left (not_not.mpr hr)
      obtain ⟨dec, rows, τ, υ, hrec, hgr, htx, -⟩ := records_alone hf hinfo hd hacc h hp hr
      obtain ⟨e', ω, hset, ht⟩ := setStatus_unsent he htx.toUntouched
      exact ⟨e', ω, .bind hrec (.bind hgr (.bind_error hset)), ht⟩
    · obtain ⟨dec, τ, hrec, htx, -⟩ := recordDecision_alone h hp hd hx
      obtain ⟨e, υ, hgr, ht⟩ := grantAll_fails hf hinfo hacc (f.customers inp) [] τ htx
        (fun _ hm => absurd hm List.not_mem_nil) List.nodup_nil
        (fun hall => hr ⟨hx, hall.1, hall.2⟩)
      exact ⟨e, υ, .bind hrec (.bind_error hgr), ht⟩
  · exact ⟨_, σ, .bind_error (recordDecision_fails hx), h⟩

theorem recordOutcome_torn (hf : f.Fresh d) (hinfo : info.offerID = inp.offerID)
    (hd : d.decisionsOf inp.offerID = []) (hacc : d.accessesOf inp.offerID = [])
    (hrow : k.offers.rowsOf inp.offerID = [row]) (hs : row.status = .PENDING)
    (hv : row.valid = true) (hne : inp.decision = .APPROVED → (f.customers inp).length ≠ 0)
    (h : Untouched d k σ) (hp : σ.store.pending () = []) (hr : f.Records inp info)
    (ht : f.patch = .unanswered ∨ f.patch = .answered ∧ f.EnqueueFails inp) :
    ∃ e k' τ, Ends (spec f.outside) () f.step
        (recordOutcome inp info f.addressee (f.customers inp)) σ (.error e) τ ∧
      Untouched d k' τ ∧ Taken inp k' := by
  obtain ⟨dec, rows, τ, υ, hrec, hgr, htx, -⟩ := records_alone hf hinfo hd hacc h hp hr
  rcases ht with hpatch | ⟨hpatch, hfail⟩
  · obtain ⟨e, k', ω, hset, hu, htaken⟩ := setStatus_unanswered hrow hs hv hpatch htx.toUntouched
    exact ⟨e, k', ω, .bind hrec (.bind hgr (.bind_error hset)), hu, htaken⟩
  · obtain ⟨k', ω, hset, htx', htaken⟩ := setStatus_answered hrow hs hv hpatch htx
    obtain ⟨e, ψ, hnot, hu⟩ := notifySeller_fails hf hfail hne htx'
    exact ⟨e, k', ψ, .bind hrec (.bind hgr (.bind hset (.bind_error hnot))), hu, htaken⟩

theorem recordOutcome_alone (hf : f.Fresh d) (hinfo : info.offerID = inp.offerID)
    (hd : d.decisionsOf inp.offerID = []) (hacc : d.accessesOf inp.offerID = [])
    (hrow : k.offers.rowsOf inp.offerID = [row]) (hs : row.status = .PENDING)
    (hv : row.valid = true) (h : Untouched d k σ) (hp : σ.store.pending () = [])
    (hr : f.Records inp info) (hpatch : f.patch = .answered) (hn : ¬ f.EnqueueFails inp) :
    ∃ res k' dec rows evs τ, Ends (spec f.outside) () f.step
        (recordOutcome inp info f.addressee (f.customers inp)) σ (.ok res) τ ∧
      Tx d k' dec rows evs τ ∧ Taken inp k' ∧ dec.offerID = inp.offerID ∧
      dec.decision = inp.decision ∧ Given f inp info rows ∧
      rows.map (·.customerID) = f.customers inp := by
  obtain ⟨dec, rows, τ, υ, hrec, hgr, htx, hrest⟩ := records_alone hf hinfo hd hacc h hp hr
  obtain ⟨k', ω, hset, htx', htaken⟩ := setStatus_answered hrow hs hv hpatch htx
  obtain ⟨evs, ψ, hnot, htx''⟩ := notifySeller_alone hf hn htx'
  exact ⟨_, k', dec, rows, evs, ψ, .bind hrec (.bind hgr (.bind hset (.bind hnot (.pure _)))),
    htx'', htaken, hrest⟩

/-! ### the call -/

/-- what `Decide` reads before it opens its transaction does not fail -/
structure Pattern.Gathers (f : Pattern) (inp : DecideInput) : Prop where
  get : f.get = none
  customers : inp.decision = .APPROVED → ∃ ids, f.participants = .ok ids ∧ ids ≠ []

theorem customers_approved {ids : List UUID} (hd : inp.decision = .APPROVED)
    (h : f.participants = .ok ids) : f.customers inp = ids := by
  simp only [Pattern.customers, hd, h]

theorem customers_rejected (hd : inp.decision = .REJECTED) : f.customers inp = [] := by
  simp only [Pattern.customers, hd]

theorem Pattern.Gathers.ne_zero (h : f.Gathers inp) (hd : inp.decision = .APPROVED) :
    (f.customers inp).length ≠ 0 := by
  obtain ⟨ids, hids, hne⟩ := h.customers hd
  rw [customers_approved hd hids]
  exact fun e => hne (List.length_eq_zero_iff.mp e)

theorem reaches_iff : f.Reaches inp info ↔
    f.Gathers inp ∧ (f.step .begin).fault = .none ∧ f.Records inp info := by
  constructor
  · intro h
    refine ⟨⟨h.get, fun hd => ?_⟩, h.begins, h.records, fun c hc => ?_, ?_⟩
    · obtain ⟨ids, hids, hne, -⟩ := h.customers hd
      exact ⟨ids, hids, hne⟩
    · cases hd : inp.decision with
      | REJECTED => exact absurd (customers_rejected hd ▸ hc) List.not_mem_nil
      | APPROVED =>
        obtain ⟨ids, hids, -, -, hx⟩ := h.customers hd
        exact hx c (customers_approved hd hids ▸ hc)
    · cases hd : inp.decision with
      | REJECTED => exact customers_rejected hd ▸ List.nodup_nil
      | APPROVED =>
        obtain ⟨ids, hids, -, hnd, -⟩ := h.customers hd
        exact customers_approved hd hids ▸ hnd
  · rintro ⟨hg, hb, hr⟩
    refine ⟨hg.get, fun hd => ?_, hb, hr.decision⟩
    obtain ⟨ids, hids, hne⟩ := hg.customers hd
    have he := customers_approved hd hids
    exact ⟨ids, hids, hne, he ▸ hr.nodup, he ▸ hr.grants⟩

theorem buyers_alone (info : OfferOut) (hg : f.Gathers inp) :
    ∃ τ : Sys, Ends (spec f.outside) () f.step (buyers inp.decision info) σ
        (.ok (f.customers inp)) τ ∧ τ.store = σ.store ∧ τ.ext.out = σ.ext.out := by
  cases hd : inp.decision with
  | REJECTED =>
    rw [customers_rejected hd]
    exact ⟨σ, .pure [], rfl, rfl⟩
  | APPROVED =>
    obtain ⟨ids, hids, hne⟩ := hg.customers hd
    rw [customers_approved hd hids]
    have hrem : f.outside.remote () (.participantCustomerIDs info.requestID)
        (f.step (.remote (.participantCustomerIDs info.requestID))) σ.ext.out =
          some (.ok ids, σ.ext.out) := by
      simp only [Pattern.outside, hids]
    refine ⟨Sys.answered σ (.participantCustomerIDs info.requestID) (.ok ids) σ.ext.out,
      .bind (remote_alone hrem) ?_, rfl, rfl⟩
    match ids, hne with
    | c :: cs, _ => exact .pure (c :: cs)

theorem buyers_fails (info : OfferOut) (hd : inp.decision = .APPROVED)
    (hn : ¬ ∃ ids, f.participants = .ok ids ∧ ids ≠ []) :
    ∃ e, ∃ τ : Sys, Ends (spec f.outside) () f.step (buyers inp.decision info) σ (.error e) τ ∧
      τ.store = σ.store ∧ τ.ext.out = σ.ext.out := by
  rw [hd]
  have hrem : ∀ a, f.participants = a → Ends (spec f.outside) () f.step
      (remote (.participantCustomerIDs info.requestID)) σ (.ok a)
      (Sys.answered σ (.participantCustomerIDs info.requestID) a σ.ext.out) :=
    fun a ha => remote_alone (ha ▸ rfl)
  match hp : f.participants with
  | .ok (c :: cs) => exact absurd ⟨c :: cs, hp, List.cons_ne_nil _ _⟩ hn
  | .ok [] => exact ⟨_, Sys.answered σ _ _ _, .bind (hrem _ hp) (.throw _), rfl, rfl⟩
  | .error .notFound => exact ⟨_, Sys.answered σ _ _ _, .bind (hrem _ hp) (.throw _), rfl, rfl⟩
  | .error .conflict => exact ⟨_, Sys.answered σ _ _ _, .bind (hrem _ hp) (.throw _), rfl, rfl⟩
  | .error .unavailable => exact ⟨_, Sys.answered σ _ _ _, .bind (hrem _ hp) (.throw _), rfl, rfl⟩

/-- the offer is read and is PENDING; then it depends on the rest -/
theorem decide_of_decideOffer (hget : f.get = none) (hrow : σ.ext.out.offers.rowsOf inp.offerID = [row])
    (hs : row.status = .PENDING) :
    ∃ σ₁ : Sys, σ₁.store = σ.store ∧ σ₁.ext.out = σ.ext.out ∧ ∀ r τ,
      Ends (spec f.outside) () f.step (do
        let customerIDs ← buyers inp.decision (.of row)
        inTx (recordOutcome inp (.of row) f.addressee customerIDs)) σ₁ r τ →
      Ends (spec f.outside) () f.step (Admin.decide inp) σ r τ := by
  have hread : f.outside.remote () (.offersGet inp.offerID)
      (f.step (.remote (.offersGet inp.offerID))) σ.ext.out = some (.ok (.of row), σ.ext.out) := by
    have hfind : σ.ext.out.offers.find inp.offerID = some row := by
      rw [Offers.find_eq, hrow]
      rfl
    simp only [Pattern.outside, hget, Desk.get, hfind]
  have hseller : ∀ e : Ext Unit Desk, f.outside.remote () (.resolveUserID row.sellerID)
      (f.step (.remote (.resolveUserID row.sellerID))) e.out = some (f.seller, e.out) :=
    fun _ => rfl
  let σ₁ := Sys.answered σ (.offersGet inp.offerID) (.ok (.of row)) σ.ext.out
  refine ⟨Sys.answered σ₁ (.resolveUserID row.sellerID) f.seller σ.ext.out, rfl, rfl,
    fun r τ h => .bind (remote_alone hread) ?_⟩
  show Ends _ _ _ (decideOffer inp (.of row)) _ _ _
  unfold decideOffer
  rw [if_neg (show ¬ (OfferOut.of row).status ≠ .PENDING from not_not.mpr hs)]
  exact .bind (remote_alone (hseller _)) h

end

/-! ### the three ends -/

section
variable {row : Offer} {e : Offers.Db}

theorem decideUnder_of_ends {r : Except Err DecideResult} {τ : Sys}
    (h : Ends (spec f.outside) () f.step (Admin.decide inp) (opening d e) r τ) :
    decideUnder f inp d e = some ⟨r, τ.store.committed, τ.ext.out.offers⟩ := by
  unfold decideUnder
  rw [show Machine.alone _ _ _ _ _ = _ from h]
  rfl

/-- the call before its transaction -/
theorem decide_of_inTx (hrow : e.rowsOf inp.offerID = [row]) (hs : row.status = .PENDING)
    (hg : f.Gathers inp) :
    ∃ σ₁ : Sys, σ₁.store = Store.fresh d ∧ σ₁.ext.out.offers = e ∧ ∀ r τ,
      Ends (spec f.outside) () f.step
        (inTx (recordOutcome inp (.of row) f.addressee (f.customers inp))) σ₁ r τ →
      decideUnder f inp d e = some ⟨r, τ.store.committed, τ.ext.out.offers⟩ := by
  obtain ⟨σ₁, hst, hout, hrest⟩ := decide_of_decideOffer (f := f) (σ := opening d e) hg.get hrow hs
  obtain ⟨σ₂, hb, hst', hout'⟩ := buyers_alone (.of row) (σ := σ₁) hg
  refine ⟨σ₂, hst'.trans hst, by rw [hout', hout]; rfl, fun r τ h => ?_⟩
  exact decideUnder_of_ends (hrest r τ (.bind hb h))

/-- nothing reaches offer-service -/
theorem decide_before (hf : f.Fresh d) (hd : d.decisionsOf inp.offerID = [])
    (hacc : d.accessesOf inp.offerID = []) (hrow : e.rowsOf inp.offerID = [row])
    (hs : row.status = .PENDING)
    (hn : ¬ f.Reaches inp (.of row) ∨ ∃ e, f.patch = .unsent e) :
    ∃ err, decideUnder f inp d e = some ⟨.error err, d, e⟩ := by
  have hid : row.offerID = inp.offerID := Offers.rowsOf_id (hrow ▸ List.mem_singleton_self row)
  by_cases hg : f.Gathers inp
  · obtain ⟨σ₁, hst, hout, hrest⟩ := decide_of_inTx (d := d) hrow hs hg
    by_cases hb : (f.step .begin).fault = .none
    · have hn' : ¬ f.Records inp (.of row) ∨ ∃ e, f.patch = .unsent e :=
        hn.imp_left fun hr h => hr (reaches_iff.mpr ⟨hg, hb, h⟩)
      obtain ⟨err, τ, hrun, hu⟩ := recordOutcome_before (d := d) (k := σ₁.ext.out)
        (σ := { σ₁ with store := σ₁.store.begin () (f.step .begin).now }) hf hid hd hacc
        ⟨by rw [hst]; rfl, rfl⟩ (by rw [hst]; rfl) hn'
      refine ⟨err, (hrest _ _ (.inTx_error hb hrun)).trans ?_⟩
      show some (Outcome.mk _ τ.store.committed τ.ext.out.offers) = _
      rw [hu.committed, hu.out, hout]
    · refine ⟨.wrap "beginning transaction" (.pg .other), ?_⟩
      rw [hrest _ _ (.inTx_unbegun hb), hst, hout]
      rfl
  · by_cases hget : f.get = none
    · have hd' : inp.decision = .APPROVED := by
        by_contra hne
        exact hg ⟨hget, fun h => absurd h hne⟩
      have hp : ¬ ∃ ids, f.participants = .ok ids ∧ ids ≠ [] := fun h => hg ⟨hget, fun _ => h⟩
      obtain ⟨σ₁, hst, hout, hrest⟩ := decide_of_decideOffer (f := f) (σ := opening d e) hget hrow hs
      obtain ⟨err, τ, hb, hst', hout'⟩ := buyers_fails (.of row) (σ := σ₁) hd' hp
      refine ⟨err, (decideUnder_of_ends (hrest _ _ (.bind_error hb))).trans ?_⟩
      rw [hst', hst, hout', hout]
      rfl
    · obtain ⟨err, herr⟩ := Option.ne_none_iff_exists'.mp hget
      have hrem : f.outside.remote () (.offersGet inp.offerID)
          (f.step (.remote (.offersGet inp.offerID))) (opening d e).ext.out =
            some (.error err, (opening d e).ext.out) := by
        simp only [Pattern.outside, herr]
      cases err with
      | notFound => exact ⟨_, decideUnder_of_ends (.bind (remote_alone hrem) (.throw _))⟩
      | conflict => exact ⟨_, decideUnder_of_ends (.bind (remote_alone hrem) (.throw _))⟩
      | unavailable => exact ⟨_, decideUnder_of_ends (.bind (remote_alone hrem) (.throw _))⟩

/-- the PATCH is applied, but the rows are rolled back -/
theorem decide_torn (hf : f.Fresh d) (hd : d.decisionsOf inp.offerID = [])
    (hacc : d.accessesOf inp.offerID = []) (hrow : e.rowsOf inp.offerID = [row])
    (hs : row.status = .PENDING) (hv : row.valid = true) (ht : f.Torn inp (.of row)) :
    ∃ err e', decideUnder f inp d e = some ⟨.error err, d, e'⟩ ∧
      e'.statusOf inp.offerID = some inp.decision.status := by
  have hid : row.offerID = inp.offerID := Offers.rowsOf_id (hrow ▸ List.mem_singleton_self row)
  obtain ⟨hg, hb, hr⟩ := reaches_iff.mp ht.1
  obtain ⟨σ₁, hst, hout, hrest⟩ := decide_of_inTx (d := d) hrow hs hg
  obtain ⟨err, k', τ, hrun, hu, htaken⟩ := recordOutcome_torn (d := d) (k := σ₁.ext.out)
    (σ := { σ₁ with store := σ₁.store.begin () (f.step .begin).now }) hf hid hd hacc
    (hout.symm ▸ hrow) hs hv hg.ne_zero ⟨by rw [hst]; rfl, rfl⟩ (by rw [hst]; rfl) hr ht.2
  refine ⟨err, k'.offers, (hrest _ _ (.inTx_error hb hrun)).trans ?_, htaken⟩
  show some (Outcome.mk _ τ.store.committed τ.ext.out.offers) = _
  rw [hu.committed, hu.out]

/-- both services have the decision -/
theorem decide_through (hf : f.Fresh d) (hc : (f.step .commit).fault = .none)
    (hd : d.decisionsOf inp.offerID = []) (hacc : d.accessesOf inp.offerID = [])
    (hrow : e.rowsOf inp.offerID = [row]) (hs : row.status = .PENDING) (hv : row.valid = true)
    (hr : f.Reaches inp (.of row)) (hpatch : f.patch = .answered) (hn : ¬ f.EnqueueFails inp) :
    ∃ res d' e', decideUnder f inp d e = some ⟨.ok res, d', e'⟩ ∧
      e'.statusOf inp.offerID = some inp.decision.status ∧
      (∃ dec, d'.decisionsOf inp.offerID = [dec] ∧ dec.decision = inp.decision) ∧
      d'.grantsOf inp.offerID = (f.customers inp).map (grantFor (.of row)) := by
  have hid : row.offerID = inp.offerID := Offers.rowsOf_id (hrow ▸ List.mem_singleton_self row)
  obtain ⟨hg, hb, hrec⟩ := reaches_iff.mp hr
  obtain ⟨σ₁, hst, hout, hrest⟩ := decide_of_inTx (d := d) hrow hs hg
  obtain ⟨res, k', dec, rows, evs, τ, hrun, htx, htaken, hoff, hdec, hgiven, hids⟩ :=
    recordOutcome_alone (d := d) (k := σ₁.ext.out)
      (σ := { σ₁ with store := σ₁.store.begin () (f.step .begin).now }) hf hid hd hacc
      (hout.symm ▸ hrow) hs hv ⟨by rw [hst]; rfl, rfl⟩ (by rw [hst]; rfl) hrec hpatch hn
  refine ⟨res, τ.store.view (), k'.offers, (hrest _ _ (.inTx hb hc hrun rfl)).trans ?_, htaken,
    ⟨dec, ?_, hdec⟩, ?_⟩
  · show some (Outcome.mk _ (τ.store.view ()) τ.ext.out.offers) = _
    rw [htx.out]
  · rw [htx.view]
    show (d.decisions ++ [dec]).filter _ = _
    rw [List.filter_append]
    show d.decisionsOf inp.offerID ++ _ = _
    rw [hd]
    simp [hoff]
  · rw [htx.view]
    show ((d.accesses ++ rows).filter _).map _ = _
    rw [List.filter_append]
    show (d.accessesOf inp.offerID ++ _).map _ = _
    have hall : rows.filter (·.offerID == inp.offerID) = rows :=
      List.filter_eq_self.mpr fun b hb => by rw [(hgiven b hb).1]; exact beq_self_eq_true _
    rw [hacc, List.nil_append, hall, ← hids, List.map_map]
    exact List.map_congr_left fun b hb => (hgiven b hb).2.1

/-! ### a calm day -/

def keyIndex : RoutingKey → Nat
  | .requestJoined => 0
  | .offerCreated => 1
  | .offerApproved => 2
  | .offerRejected => 3
  | .contactAccessGranted => 4

theorem keyIndex_inj {a b : RoutingKey} (h : keyIndex a = keyIndex b) : a = b := by
  cases a <;> cases b <;> first | rfl | cases h

/-- no step fails; the ids are above those in use -/
def calm (d : Db) : Pattern where
  get := none
  seller := .error .unavailable
  participants := .ok [1]
  patch := .answered
  step
    | .sql (.grantContactAccess _ c _ _ _) =>
      ⟨.none, (d.accesses.map (·.accessID)).sum + 1 + c, 0, 0, ()⟩
    | .sql (.insertOutbox key _) =>
      ⟨.none, 0, (d.outbox.map (·.eventID)).sum + 1 + keyIndex key, 0, ()⟩
    | _ => ⟨.none, 0, 0, 0, ()⟩

theorem calm_fresh (d : Db) : (calm d).Fresh d where
  access sl c r o u := by
    refine List.filter_eq_nil_iff.mpr fun a ha e => ?_
    have hle : a.accessID ≤ (d.accesses.map (·.accessID)).sum :=
      List.le_sum_of_mem (List.mem_map_of_mem ha)
    have he : a.accessID = (d.accesses.map (·.accessID)).sum + 1 + c := beq_iff_eq.mp e
    exact Nat.not_succ_le_self _ ((Nat.le_add_right _ c).trans (he.ge.trans hle))
  access_inj sl c c' r o u h := Nat.add_left_cancel h
  event key ns row hrow e := by
    have hle : row.eventID ≤ (d.outbox.map (·.eventID)).sum :=
      List.le_sum_of_mem (List.mem_map_of_mem hrow)
    have he : row.eventID = (d.outbox.map (·.eventID)).sum + 1 + keyIndex key := e
    exact Nat.not_succ_le_self _ ((Nat.le_add_right _ _).trans (he.ge.trans hle))
  event_inj key key' ns ns' h := keyIndex_inj (Nat.add_left_cancel h)

theorem calm_reaches (d : Db) : (calm d).Reaches inp info :=
  ⟨rfl, fun _ => ⟨[1], rfl, List.cons_ne_nil _ _, List.nodup_singleton 1, fun _ _ => rfl⟩, rfl, rfl⟩

theorem calm_writes (d : Db) : ¬ (calm d).EnqueueFails inp := fun h => h.1 rfl

/-- **A decision across two services.**  One `Decide` on a PENDING offer that has no decision yet,
under any pattern of failures among its steps but that of its commit: the call ends, and the
services agree and an error leaves nothing behind exactly if it does not happen that the PATCH is
applied and then its answer is lost or an event is not written. -/
theorem decide_all_or_nothing (f : Pattern) (inp : DecideInput) (d : Db) (e : Offers.Db)
    (row : Offer) (hrow : e.rowsOf inp.offerID = [row]) (hs : row.status = .PENDING)
    (hv : row.valid = true) (hd : d.decisionsOf inp.offerID = [])
    (hacc : d.accessesOf inp.offerID = []) (hf : f.Fresh d)
    (hc : (f.step .commit).fault = .none) :
    ∃ t, decideUnder f inp d e = some t ∧
      (AllOrNothing inp (.of row) (f.customers inp) d t ↔ ¬ f.Torn inp (.of row)) := by
  have hstill : e.statusOf inp.offerID = some .PENDING := by rw [Offers.statusOf_of_rows hrow, hs]
  have hne : ∀ st : Decision, some OfferStatus.PENDING ≠ some st.status := by
    intro st
    cases st <;> simp [Decision.status]
  have hlater : ∃ f : Pattern, f.Fresh d ∧ ∃ result d' e',
      decideUnder f inp d e = some ⟨.ok result, d', e'⟩ := by
    obtain ⟨res, d', e', h, -⟩ := decide_through (calm_fresh d) rfl hd hacc hrow hs hv
      (calm_reaches d) rfl (calm_writes d)
    exact ⟨calm d, calm_fresh d, res, d', e', h⟩
  by_cases ht : f.Torn inp (.of row)
  · obtain ⟨err, e', h, htaken⟩ := decide_torn hf hd hacc hrow hs hv ht
    refine ⟨_, h, fun hall => ?_, fun hn => absurd ht hn⟩
    obtain ⟨dec, hdec, -⟩ := hall.agree.mp htaken
    rw [hd] at hdec
    cases hdec
  · by_cases hn : ¬ f.Reaches inp (.of row) ∨ ∃ e, f.patch = .unsent e
    · obtain ⟨err, h⟩ := decide_before hf hd hacc hrow hs hn
      refine ⟨_, h, fun _ => ht, fun _ => ⟨⟨fun hst => ?_, fun ⟨dec, hdec, _⟩ => ?_⟩, fun _ _ =>
        ⟨hstill, rfl, hlater⟩⟩⟩
      · exact absurd (hstill.symm.trans hst) (hne _)
      · rw [hd] at hdec
        cases hdec
    · rw [not_or, not_not, not_exists] at hn
      have hpatch : f.patch = .answered := by
        cases hp : f.patch with
        | unsent e => exact absurd hp (hn.2 e)
        | unanswered => exact absurd ⟨hn.1, .inl hp⟩ ht
        | answered => rfl
      have hwrites : ¬ f.EnqueueFails inp := fun h => ht ⟨hn.1, .inr ⟨hpatch, h⟩⟩
      obtain ⟨res, d', e', h, htaken, ⟨dec, hdec, hd'⟩, hgr⟩ :=
        decide_through hf hc hd hacc hrow hs hv hn.1 hpatch hwrites
      exact ⟨_, h, fun _ => ht, fun _ => ⟨⟨fun _ => ⟨dec, hdec, hd', hgr⟩, fun _ => htaken⟩,
        fun _ e => nomatch e⟩⟩

end

end

/-- the offer of a seller, still PENDING -/
def pendingOffer : Offer := ⟨50, 4, 5, 10, 250, "EUR", "", "", .PENDING, 0, 0⟩

def approve : DecideInput := ⟨50, 9, .APPROVED, ""⟩

theorem decide_all_or_nothing_calm :
    ∃ t, decideUnder (calm Db.empty) approve Db.empty ⟨[pendingOffer], [], []⟩ = some t ∧
      AllOrNothing approve (.of pendingOffer) [1] Db.empty t := by
  obtain ⟨t, ht, hall⟩ := decide_all_or_nothing (calm Db.empty) approve Db.empty
    ⟨[pendingOffer], [], []⟩ pendingOffer rfl rfl (by decide) rfl rfl (calm_fresh _) rfl
  refine ⟨t, ht, hall.mpr fun h => ?_⟩
  rcases h.2 with h | ⟨-, h⟩
  · cases h
  · exact calm_writes Db.empty h

/-- the answer of offer-service is lost: it has approved the offer, admin-service knows nothing -/
theorem answer_lost :
    ∃ t, decideUnder { calm Db.empty with patch := .unanswered } approve Db.empty
        ⟨[pendingOffer], [], []⟩ = some t ∧
      t.result = .error (.client .unavailable) ∧ t.offers.statusOf 50 = some .APPROVED ∧
      t.admin = Db.empty ∧ ¬ AllOrNothing approve (.of pendingOffer) [1] Db.empty t := by
  obtain ⟨t, ht, hr⟩ := Option.map_eq_some_iff.mp (show (decideUnder
    { calm Db.empty with patch := .unanswered } approve Db.empty ⟨[pendingOffer], [], []⟩).map
      (fun t => (t.result, t.offers.statusOf 50, t.admin)) =
        some (.error (.client .unavailable), some .APPROVED, Db.empty) by decide)
  simp only [Prod.mk.injEq] at hr
  obtain ⟨hres, hst, had⟩ := hr
  refine ⟨t, ht, hres, hst, had, fun h => ?_⟩
  obtain ⟨dec, hdec, -⟩ := h.agree.mp hst
  rw [had] at hdec
  cases hdec

end Marketplace.Admin
