import Marketplace.Lib.Faultless
import Marketplace.Offers.Session
import Marketplace.Offers.Routes

/-!
# offer-service: one seller answers one request many times at once

`create_offer` reads whether the seller has a live offer, and the unique index refuses a second one.
The handler stands around the commit, but the INSERT goes out with the flush before it.

* `Stmt.acceptable`   an INSERT of new ids, with values that the columns take;
* `Stmt.first`        an INSERT that goes out while no live offer is committed;
* `Bid.Stored`        the rows that one call adds;
* `answered_once`     **as long as no INSERT comes second, one call stores its offer and every other is
                      answered with it**;
* `answered_twice`    an INSERT that comes second is answered with 500.
-/

set_option linter.unusedSectionVars false

namespace Marketplace.Offers

open Table Events ReadCommitted Interleave Service

/-- what a call of `create_offer` is given besides the seller and the request -/
structure Bid where
  terms : Terms
  adminUserIDs : List UUID
  image : Bytes
  imageType : String

def Bid.invocation (b : Bid) (s r : UUID) : Invocation :=
  .createOffer s r b.terms b.adminUserIDs b.image b.imageType

/-! ## the condition -/

/-- the generated ids are new, and the columns take the values -/
def Stmt.acceptable {Y : Type} (q : Stmt) (x : Choice Y) (d : Db) : Bool :=
  match q with
  | .insertOffer s r t ty =>
    inRange t.availableQuantity t.pricePerUnit && textFits t.description &&
      Offer.valid ⟨x.id, s, r, t.availableQuantity, t.pricePerUnit, t.currency, t.description, ty,
        .PENDING, 0, 0⟩ &&
      (d.find x.id).isNone
  | .insertImage i data => imageValid data && (d.findImage i).isNone
  | .insertOutbox _ _ => !d.outbox.any (·.eventID == x.tag)
  | _ => true

/-- no live offer has been committed since the read -/
def Stmt.first (q : Stmt) (d : Db) : Bool :=
  match q with
  | .insertOffer s r _ _ => (d.liveOfferOf s r).isNone
  | _ => true

/-! ## what one call adds -/

/-- the event of a new offer, unless there is nobody to tell -/
def Bid.Announces (b : Bid) (o : Offer) (ws : List Write) : Prop :=
  ∃ id tag now, ws = if b.adminUserIDs = [] then [] else
    [.insertOutbox (.of id tag .offerCreated (b.adminUserIDs.map (newOfferNotification o)) now)]

def Bid.Pictures (b : Bid) (o : Offer) (ws : List Write) : Prop :=
  ∃ now, ws = if b.image = [] then [] else [.insertImage ⟨o.offerID, b.image, now⟩]

/-- the call has added its offer, with its event and its picture, and nothing else -/
structure Bid.Stored (b : Bid) (s r : UUID) (o : Offer) (d e : Db) : Prop where
  sellerID : o.sellerID = s
  requestID : o.requestID = r
  terms : o.terms = b.terms
  status : o.status = .PENDING
  new : d.find o.offerID = none
  rows : ∃ ws vs, b.Announces o ws ∧ b.Pictures o vs ∧ e = applyAll (.insertOffer o :: (ws ++ vs)) d

theorem Bid.Announces.besides {b : Bid} {o : Offer} {ws : List Write} (h : b.Announces o ws) :
    ∀ w ∈ ws, w.besides o.offerID := by
  obtain ⟨id, tag, now, rfl⟩ := h
  intro w hw
  split at hw
  · cases hw
  · rw [List.mem_singleton.mp hw]
    trivial

theorem Bid.Pictures.besides {b : Bid} {o : Offer} {ws : List Write} (h : b.Pictures o ws) :
    ∀ w ∈ ws, w.besides o.offerID := by
  obtain ⟨now, rfl⟩ := h
  intro w hw
  split at hw
  · cases hw
  · rw [List.mem_singleton.mp hw]
    rfl

section
variable {b : Bid} {sl r : UUID} {o : Offer} {d e : Db}

theorem Bid.Stored.offers (h : b.Stored sl r o d e) : e.offers = d.offers ++ [o] := by
  obtain ⟨ws, vs, hws, hvs, rfl⟩ := h.rows
  rw [applyAll_cons, offers_besides (i := o.offerID)]
  · rfl
  · intro w hw
    rcases List.mem_append.mp hw with hw | hw
    · exact hws.besides w hw
    · exact hvs.besides w hw

/-- it is the live offer of the seller -/
theorem Bid.Stored.live (h : b.Stored sl r o d e) (hd : d.liveOfferOf sl r = none) :
    e.liveOfferOf sl r = some o := by
  unfold Db.liveOfferOf at hd ⊢
  rw [h.offers, List.find?_append, hd, Option.none_or]
  refine List.find?_cons_of_pos ?_
  rw [h.sellerID, h.requestID, h.status]
  simp [OfferStatus.live]

theorem Bid.Stored.find (h : b.Stored sl r o d e) : e.find o.offerID = some o := by
  unfold Db.find
  rw [h.offers]
  exact find_insertOffer h.new

end

/-! ## one commit at most -/

section
variable {P E Y : Type} [DecidableEq P]

/-- nobody has committed, or one call has -/
def Once (bids : P → Bid) (sl r : UUID) (d₀ d : Db) (log : List (Commit P Db)) : Prop :=
  log = [] ∧ d = d₀ ∨ ∃ p o, log = [⟨p, d₀, d⟩] ∧ (bids p).Stored sl r o d₀ d

/-- the call of `q` has stored `o` -/
def Won (bids : P → Bid) (sl r : UUID) (d₀ : Db) (q : P) (o : Offer) (s : St P) : Prop :=
  ∃ d, s.log = [⟨q, d₀, d⟩] ∧ (bids q).Stored sl r o d₀ d

variable {bids : P → Bid} {sl r : UUID} {d₀ : Db}

theorem Won.committed {q : P} {o : Offer} {s : St P} (h : Won bids sl r d₀ q o s)
    (hi : Once bids sl r d₀ s.committed s.log) :
    s.log = [⟨q, d₀, s.committed⟩] ∧ (bids q).Stored sl r o d₀ s.committed := by
  obtain ⟨d, hl, hs⟩ := h
  rcases hi with ⟨hn, -⟩ | ⟨p, o', hl', -⟩
  · rw [hn] at hl
    cases hl
  · rw [hl] at hl'
    simp only [List.cons.injEq, Commit.mk.injEq, and_true, true_and] at hl'
    obtain ⟨-, rfl⟩ := hl'
    exact ⟨hl, hs⟩

/-- a live offer is that of the one who has committed -/
theorem Once.read {d : Db} {log : List (Commit P Db)} (h : Once bids sl r d₀ d log)
    (h₀ : d₀.liveOfferOf sl r = none) {o : Offer} (ho : d.liveOfferOf sl r = some o) :
    ∃ p, log = [⟨p, d₀, d⟩] ∧ (bids p).Stored sl r o d₀ d := by
  rcases h with ⟨-, rfl⟩ | ⟨p, o', hl, hs⟩
  · rw [h₀] at ho
    cases ho
  · rw [hs.live h₀] at ho
    cases ho
    exact ⟨p, hl, hs⟩

/-- who has inserted an offer is the first -/
theorem Once.first {s : St P} (h : Once bids sl r d₀ s.committed s.log)
    (hn : s.committed.liveOfferOf sl r = none) (h₀ : d₀.liveOfferOf sl r = none) :
    s.log = [] ∧ s.committed = d₀ := by
  rcases h with h | ⟨p, o', -, hs⟩
  · exact h
  · rw [hs.live h₀] at hn
    cases hn

/-! ## the contract -/

/-- offer-service, as long as its INSERTs are acceptable and none comes second -/
def orderly (out : Outside P E Y) : Spec P Db Write Lock E Y Row Reply :=
  (spec out).onlyIf fun p q x s => q.acceptable x (s.view p) && q.first (s.view p)

variable {out : Outside P E Y}

theorem orderly_stmt {p : P} {q : Stmt} {x : Choice Y} {s : St P}
    {a : Except PgErr (Row q) × St P} (h : (orderly out).stmt p q x s = some a) :
    q.acceptable x (s.view p) = true ∧ q.first (s.view p) = true ∧ stmt p q x s = some a := by
  obtain ⟨hok, hs⟩ := Spec.onlyIf_stmt _ h
  obtain ⟨h1, h2⟩ := Bool.and_eq_true_iff.mp hok
  exact ⟨h1, h2, hs⟩

/-- nobody commits but once -/
def once (out : Outside P E Y) (bids : P → Bid) (sl r : UUID) (d₀ : Db) :
    Service.Terms (orderly out) where
  I d log _ := Once bids sl r d₀ d log
  R _ _ _ := True
  refl _ _ := trivial
  trans _ _ _ _ _ _ := trivial
  note _ := trivial
  remote _ _ := trivial
  env_R _ := trivial
  env_I h _ := h

variable {p : P} {o : Offer}

theorem Won.stable {q : P} :
    (once out bids sl r d₀).Stable p fun σ => Won bids sl r d₀ q o σ.store := by
  rintro σ τ hr hi ⟨d, hl, hs⟩
  refine ⟨d, ?_, hs⟩
  obtain ⟨new, hn, -⟩ := hr.seen.log
  rw [hl] at hn
  -- no second commit has come on top
  rcases hi.holds with ⟨h, -⟩ | ⟨q', o', h, -⟩
  · rw [h] at hn
    cases new with
    | nil => cases hn
    | cons c new => cases hn
  · rw [h] at hn
    cases new with
    | nil => exact h.trans hn
    | cons c new =>
      cases new with
      | nil => cases hn
      | cons c new => cases hn

/-- the offer has been inserted, and then `rest` -/
structure Sending (p : P) (o : Offer) (rest : List Write) (s : St P) : Prop where
  created : Created p o s
  pending : s.pending p = .insertOffer o :: rest

theorem Sending.stable {rest : List Write} :
    (once out bids sl r d₀).Stable p fun σ => Sending p o rest σ.store :=
  fun σ τ hr hi h => ⟨Created.stable σ τ hr hi h.created, hr.seen.pending.trans h.pending⟩

theorem Sending.put {rest : List Write} {s t : St P} {w : Write} (h : Sending p o rest s)
    (hput : s.put p w = some t) (hw : w.besides o.offerID) : Sending p o (rest ++ [w]) t :=
  ⟨h.created.put hput hw, by rw [put_pending hput, h.pending]; rfl⟩

theorem Sending.view {rest : List Write} {s : St P} (h : Sending p o rest s) :
    s.view p = applyAll (.insertOffer o :: rest) s.committed := by
  rw [Store.view, h.pending]

/-- who has inserted an offer finds the contents as they were -/
theorem Sending.first {rest : List Write} {s : St P} (h : Sending p o rest s)
    (hi : Once bids sl r d₀ s.committed s.log) (h₀ : d₀.liveOfferOf sl r = none)
    (hsl : o.sellerID = sl) (hr : o.requestID = r) : s.log = [] ∧ s.committed = d₀ := by
  refine hi.first ?_ h₀
  have hlone := h.created.lone
  rw [hsl, hr] at hlone
  refine List.find?_eq_none.mpr fun o' ho' hlive => ?_
  simp only [Bool.and_eq_true] at hlive
  have hmem : (o'.offerID, true) ∈ (s.committed.liveMap sl r).filter (·.2) := by
    refine List.mem_filter.mpr ⟨List.mem_map.mpr ⟨o', List.mem_filter.mpr ⟨ho', ?_⟩, ?_⟩, rfl⟩
    · rw [Bool.and_eq_true]
      exact hlive.1
    · rw [hlive.2]
  rw [hlone] at hmem
  cases hmem

/-! ## the statements -/

/-- an error that a call ends in names the offer of the one who has committed -/
def Lost (bids : P → Bid) (sl r : UUID) (d₀ : Db) (p : P) (e : Err) (s : St P) : Prop :=
  ∃ q o, q ≠ p ∧ Won bids sl r d₀ q o s ∧ e = .offerAlreadyMade (.of o)

theorem sure_liveOfferOf (h₀ : d₀.liveOfferOf sl r = none)
    {F : Err → State P Db Write Lock E → Prop} :
    (once out bids sl r d₀).Sure p (fun σ => Idle p σ.store) (exec (.liveOfferOf sl r))
      (fun a σ => Idle p σ.store ∧ ∀ o, a = some o → ∃ q, q ≠ p ∧ Won bids sl r d₀ q o σ.store)
      F := by
  refine Terms.Sure.sql Idle.stable (fun a => Idle.stable.and (.all fun o => .all fun _ => .ex
    fun q => (Terms.Stable.const _).and Won.stable)) fun σ x a t hi h hst => ?_
  obtain ⟨-, -, hst⟩ := orderly_stmt hst
  cases hst
  refine ⟨hi.locked, hi.holds, _, rfl, h, fun o ho => ?_⟩
  rw [view_of_pending h.pending] at ho
  obtain ⟨q, hl, hs⟩ := Once.read hi.holds h₀ ho
  refine ⟨q, ?_, _, hl, hs⟩
  rintro rfl
  have hfresh := h.fresh
  rw [Store.commitsOf, hl] at hfresh
  simp at hfresh

theorem insertOffer_accepted {x : Choice Y} {s t : St P} {tm : Terms} {ty : String}
    {a : Except PgErr Offer} (hacc : (Stmt.insertOffer sl r tm ty).acceptable x (s.view p) = true)
    (hfirst : (Stmt.insertOffer sl r tm ty).first (s.view p) = true)
    (h : stmt p (.insertOffer sl r tm ty) x s = some (a, t)) : ∃ o, a = .ok o := by
  simp only [Stmt.acceptable, Bool.and_eq_true] at hacc
  obtain ⟨⟨⟨hrange, hfits⟩, hvalid⟩, hnew⟩ := hacc
  simp only [stmt] at h
  split at h
  · rename_i hn
    simp [hrange, hfits] at hn
  · split at h
    · rename_i hn
      rw [Bool.not_eq_true'] at hn
      exact absurd (hvalid.symm.trans hn) (by simp)
    · split at h
      · cases h
      · split at h
        · rename_i hn
          exact absurd (Option.isNone_iff_eq_none.mp hnew) hn
        · split at h
          · rename_i hn
            exact absurd (Option.isNone_iff_eq_none.mp hfirst) hn
          · exact ⟨_, (writing_eq h).1⟩

theorem sure_insertOffer {tm : Terms} {ty : String} {F : Err → State P Db Write Lock E → Prop} :
    (once out bids sl r d₀).Sure p (fun σ => Idle p σ.store) (exec (.insertOffer sl r tm ty))
      (fun o σ => Sending p o [] σ.store ∧ (o.sellerID = sl ∧ o.requestID = r ∧ o.terms = tm ∧
        o.status = .PENDING)) F := by
  refine Terms.Sure.sql Idle.stable (fun a => Sending.stable.and (.const _))
    fun σ x a t hi h hst => ?_
  obtain ⟨hacc, hfirst, hst⟩ := orderly_stmt hst
  obtain ⟨o, rfl⟩ := insertOffer_accepted hacc hfirst hst
  obtain ⟨hcr, hsent, ho⟩ := h.insertOffer hst
  exact ⟨stmt_wellLocked hi.locked hst, hi.holds, o, rfl, ⟨hcr, hsent⟩, ho⟩

theorem sure_enqueue {b : Bid} {F : Err → State P Db Write Lock E → Prop} :
    (once out bids sl r d₀).Sure p (fun σ => Sending p o [] σ.store)
      (enqueue .offerCreated (b.adminUserIDs.map (newOfferNotification o)))
      (fun _ σ => ∃ ws, Sending p o ws σ.store ∧ b.Announces o ws) F := by
  unfold enqueue
  by_cases e : b.adminUserIDs = []
  · rw [if_pos (by rw [e]; rfl)]
    exact .pure Sending.stable fun σ _ h => ⟨[], h, 0, 0, 0, by rw [if_pos e]⟩
  · rw [if_neg (by rw [List.map_eq_nil_iff]; exact e)]
    refine Terms.Sure.sql Sending.stable (fun a => .ex fun ws => Sending.stable.and (.const _))
      fun σ x a t hi h hst => ?_
    obtain ⟨hacc, -, hst⟩ := orderly_stmt hst
    have hok : ∃ u, a = .ok u := by
      simp only [Stmt.acceptable, Bool.not_eq_true'] at hacc
      have hst' := hst
      simp only [stmt] at hst'
      split at hst'
      · cases hst'
      · rw [if_neg (by simp [hacc])] at hst'
        exact ⟨_, (writing_eq hst').1⟩
    obtain ⟨u, rfl⟩ := hok
    refine ⟨stmt_wellLocked hi.locked hst, hi.holds, u, rfl, _, h.put (insertOutbox_ok hst) trivial,
      x.id, x.tag, σ.store.now p, ?_⟩
    rw [if_neg e]
    rfl

theorem sure_addImage {b : Bid} {ws : List Write} {F : Err → State P Db Write Lock E → Prop} :
    (once out bids sl r d₀).Sure p (fun σ => Sending p o ws σ.store)
      (addImage o.offerID b.image)
      (fun _ σ => ∃ vs, Sending p o (ws ++ vs) σ.store ∧ b.Pictures o vs) F := by
  unfold addImage
  by_cases e : b.image = []
  · rw [if_pos e]
    exact .pure Sending.stable fun σ _ h => ⟨[], by rwa [List.append_nil], 0, by rw [if_pos e]⟩
  · rw [if_neg e]
    refine Terms.Sure.sql Sending.stable (fun a => .ex fun vs => Sending.stable.and (.const _))
      fun σ x a t hi h hst => ?_
    obtain ⟨hacc, -, hst⟩ := orderly_stmt hst
    have hok : ∃ u, a = .ok u := by
      simp only [Stmt.acceptable, Bool.and_eq_true, Option.isNone_iff_eq_none] at hacc
      have hst' := hst
      simp only [stmt] at hst'
      rw [if_neg (by simp [hacc.1])] at hst'
      split at hst'
      · cases hst'
      · rw [if_neg (by simp [hacc.2]), if_neg (by rw [h.created.find]; simp)] at hst'
        exact ⟨_, (writing_eq hst').1⟩
    obtain ⟨u, rfl⟩ := hok
    refine ⟨stmt_wellLocked hi.locked hst, hi.holds, u, rfl, _, h.put (insertImage_ok hst).2 rfl,
      σ.store.now p, ?_⟩
    rw [if_neg e]

/-- the commit of the one who has inserted -/
theorem Sending.stored {b : Bid} {ws vs : List Write} {s : St P} (h : Sending p o (ws ++ vs) s)
    (hi : Once bids sl r d₀ s.committed s.log) (h₀ : d₀.liveOfferOf sl r = none)
    (ho : o.sellerID = sl ∧ o.requestID = r ∧ o.terms = b.terms ∧ o.status = .PENDING)
    (hws : b.Announces o ws) (hvs : b.Pictures o vs) :
    s.log = [] ∧ s.committed = d₀ ∧ b.Stored sl r o d₀ (s.view p) := by
  obtain ⟨hl, hc⟩ := h.first hi h₀ ho.1 ho.2.1
  refine ⟨hl, hc, ho.1, ho.2.1, ho.2.2.1, ho.2.2.2, hc ▸ h.created.absent, ws, vs, hws, hvs, ?_⟩
  rw [h.view, hc]

/-! ## the call -/

/-- the offer is committed, and nothing is under way -/
def Settled (bids : P → Bid) (sl r : UUID) (d₀ : Db) (p : P) (o : Offer) (s : St P) : Prop :=
  s.pending p = [] ∧ Won bids sl r d₀ p o s

theorem Settled.stable :
    (once out bids sl r d₀).Stable p fun σ => Settled bids sl r d₀ p o σ.store :=
  (Terms.Stable.pending (· = [])).and Won.stable

theorem sure_commitOffer (h₀ : d₀.liveOfferOf sl r = none)
    (ho : o.sellerID = sl ∧ o.requestID = r ∧ o.terms = (bids p).terms ∧ o.status = .PENDING) :
    (once out bids sl r d₀).Sure p (fun σ => Sending p o [] σ.store)
      (commitOffer o (bids p).adminUserIDs (bids p).image)
      (fun _ σ => Settled bids sl r d₀ p o σ.store) fun _ _ => False := by
  have hstable : ∀ ws, (once out bids sl r d₀).Stable p fun σ => ∃ vs,
      Sending p o (ws ++ vs) σ.store ∧ (bids p).Pictures o vs :=
    fun ws => .ex fun vs => Sending.stable.and (.const _)
  refine .bind sure_enqueue fun _ => ?_
  rintro σ ⟨ws, hσ, hws⟩
  refine Terms.Sure.bind (A := fun σ => Sending p o ws σ.store) sure_addImage (fun _ => ?_) σ hσ
  refine Terms.Sure.commit (hstable ws) Settled.stable (fun σ hi h => ?_) fun σ hi h => ?_
  · obtain ⟨vs, h, hvs⟩ := h
    obtain ⟨hl, hc, hs⟩ := h.stored hi.holds h₀ ho hws hvs
    exact .inr ⟨p, o, by rw [hl, hc], hs⟩
  · obtain ⟨vs, h, hvs⟩ := h
    obtain ⟨hl, hc, hs⟩ := h.stored hi.holds h₀ ho hws hvs
    exact ⟨Function.update_self .., _, by rw [Store.commit, hl, hc], hs⟩

theorem sure_refresh {F : Err → State P Db Write Lock E → Prop} :
    (once out bids sl r d₀).Sure p (fun σ => Settled bids sl r d₀ p o σ.store)
      (exec (.refresh o.offerID)) (fun o' σ => Won bids sl r d₀ p o' σ.store) F := by
  refine Terms.Sure.sql Settled.stable (fun _ => Won.stable) fun σ x a t hi h hst => ?_
  obtain ⟨-, -, hst⟩ := orderly_stmt hst
  have hfind : (σ.store.view p).find o.offerID = some o := by
    rw [view_of_pending h.1]
    exact (h.2.committed hi.holds).2.find
  simp only [stmt, hfind] at hst
  cases hst
  exact ⟨hi.locked, hi.holds, o, rfl, h.2⟩

/-- **a call stores its offer, or is refused with the one that is stored** -/
theorem sure_createOffer (h₀ : d₀.liveOfferOf sl r = none) :
    (once out bids sl r d₀).Sure p (fun σ => Idle p σ.store) ((bids p).invocation sl r).body
      (fun o σ => Won bids sl r d₀ p o σ.store) fun e σ => Lost bids sl r d₀ p e σ.store := by
  refine .bind (Terms.Sure.begin Idle.stable Idle.stable fun _ n _ h => h.begin n) fun _ =>
    .bind (sure_liveOfferOf h₀) fun a => ?_
  cases a with
  | some existing =>
    refine .throw (Idle.stable.and (.all fun o => .all fun _ => .ex fun q =>
      (Terms.Stable.const _).and Won.stable)) fun σ _ h => ?_
    obtain ⟨q, hq, hw⟩ := h.2 existing rfl
    exact ⟨q, existing, hq, hw, rfl⟩
  | none =>
    refine (Terms.Sure.bind sure_insertOffer fun o => .fact fun ho => .bind (.attempt
      (sure_commitOffer h₀ ho)) fun a => ?_).pre fun σ h => h.1
    match a with
    | .ok _ => exact sure_refresh
    | .error e => exact fun σ h => h.elim

/-- the end of the session takes nothing back -/
theorem sure_op (h₀ : d₀.liveOfferOf sl r = none) :
    (once out bids sl r d₀).Sure p (fun σ => Idle p σ.store) ((bids p).invocation sl r).op
      (fun o σ => Won bids sl r d₀ p o σ.store) fun e σ => Lost bids sl r d₀ p e σ.store := by
  refine .bind (.attempt (sure_createOffer h₀)) fun a => ?_
  have hlost : ∀ e, (once out bids sl r d₀).Stable p fun σ => Lost bids sl r d₀ p e σ.store :=
    fun e => .ex fun q => .ex fun o => (Terms.Stable.const _).and (Won.stable.and (.const _))
  match a with
  | .ok o =>
    exact .bind (B := fun _ σ => Won bids sl r d₀ p o σ.store)
      (.rollback Won.stable Won.stable fun _ _ h => h) fun _ => .pure Won.stable fun _ _ h => h
  | .error e =>
    exact .bind (B := fun _ σ => Lost bids sl r d₀ p e σ.store)
      (.rollback (hlost e) (hlost e) fun _ _ h => h) fun _ => .throw (hlost e) fun _ _ h => h

/-! ## every run -/

/-- what a call that is refused is answered -/
def refusal (res : Except Err Offer) : Option Response :=
  match res with
  | .ok _ => none
  | .error e => some e.response

/-- **A seller answers a request once.**  Any number of calls for one seller and one request, in any
order of their statements, on a database that does not fail, from contents where the seller has no
live offer on the request; INSERTs are of new ids and of values that the columns take, and none is
sent after another call has committed.  Then at most one call has committed; and when a call has
returned, one has: its offer is live, it has returned that offer, every other that has returned was
refused with it (409), and its rows are all that has been added. -/
theorem answered_once (bids : P → Bid) {sl r : UUID} {d₀ : Db} (e₀ : E)
    (h₀ : d₀.liveOfferOf sl r = none) {σ : Config P E}
    (h : Runs (orderly out).faultless (start (fun p => ((bids p).invocation sl r).op) d₀ e₀) σ) :
    σ.state.store.log.length ≤ 1 ∧
    ∀ p res, σ.prog p = some (.ret res) → ∃ q o,
      σ.state.store.log = [⟨q, d₀, σ.state.store.committed⟩] ∧
      (bids q).Stored sl r o d₀ σ.state.store.committed ∧
      σ.state.store.committed.liveOfferOf sl r = some o ∧
      (p = q → res = .ok o) ∧
      (p ≠ q → res = .error (.offerAlreadyMade (.of o)) ∧
        (refusal res).map (·.status) = some 409) := by
  have hinv : (once out bids sl r d₀).Inv (start (fun p => ((bids p).invocation sl r).op) d₀
      e₀).state := ⟨fun _ _ hw => absurd hw List.not_mem_nil, .inl ⟨rfl, rfl⟩⟩
  obtain ⟨hi, hp⟩ := (once out bids sl r d₀).faultless.runs (Q := fun p => Terms.ends
    (fun o σ => Won bids sl r d₀ p o σ.store) fun e σ => Lost bids sl r d₀ p e σ.store) h hinv
    fun p m hm => by
      obtain rfl := Option.some.inj hm
      exact sure_op h₀ _ (idle_fresh p _)
  have hone : Once bids sl r d₀ σ.state.store.committed σ.state.store.log := hi.holds
  refine ⟨?_, fun p res hres => ?_⟩
  · rcases hone with ⟨hl, -⟩ | ⟨q, o, hl, -⟩
    · rw [hl]
      exact Nat.zero_le 1
    · rw [hl]
      exact Nat.le_refl 1
  · have hend := hp p _ hres _ ((once out bids sl r d₀).faultless.rely_refl p _) hi
    cases res with
    | ok o =>
      obtain ⟨hl, hs⟩ := Won.committed hend hone
      exact ⟨p, o, hl, hs, hs.live h₀, fun _ => rfl, fun hne => absurd rfl hne⟩
    | error e =>
      obtain ⟨q, o, hq, hw, rfl⟩ := hend
      obtain ⟨hl, hs⟩ := hw.committed hone
      exact ⟨q, o, hl, hs, hs.live h₀, fun e => absurd e.symm hq, fun _ => ⟨rfl, rfl⟩⟩

end

/-! ## two calls -/

/-- an offer with a picture, of which one admin is told -/
def twoBids (_ : Fin 2) : Bid := ⟨⟨10, 250, "EUR", ""⟩, [9], [0xff, 0xd8, 0xff], "image/jpeg"⟩

def bidding (p : Fin 2) : Act (Fin 2) (Choice Unit) := .exec p ⟨.none, 50 + p, 60 + p, 1, ()⟩

def inTurn : List (Act (Fin 2) (Choice Unit)) :=
  [bidding 0, bidding 0, bidding 0, bidding 0, bidding 0, bidding 0, bidding 0, bidding 0,
    bidding 1, bidding 1, bidding 1]

/-- both read before either inserts -/
def atOnce : List (Act (Fin 2) (Choice Unit)) :=
  [bidding 0, bidding 0, bidding 1, bidding 1, bidding 0, bidding 0, bidding 0, bidding 0,
    bidding 1, bidding 1]

/-- the status of a refusal -/
def refusedWith {P E : Type} (σ : Config P E) (p : P) : Option Nat :=
  match σ.prog p with
  | some (.ret res) => (refusal res).map (·.status)
  | _ => none

theorem refusedWith_eq {P E : Type} {σ : Config P E} {p : P} {n : Nat}
    (h : refusedWith σ p = some n) :
    ∃ e : Err, σ.prog p = some (.ret (.error e)) ∧ e.response.status = n := by
  unfold refusedWith at h
  split at h
  · rename_i res hres
    cases res with
    | ok o => cases h
    | error e => exact ⟨e, hres, Option.some.inj h⟩
  · cases h

theorem answered_once_in_turn :
    ∃ σ, Runs (orderly Outside.nothing).faultless
        (start (fun p => ((twoBids p).invocation 4 5).op) Db.empty ()) σ ∧
      ∃ o, σ.state.store.committed.liveOfferOf 4 5 = some o ∧
        σ.prog 1 = some (.ret (.error (.offerAlreadyMade (.of o)))) := by
  obtain ⟨σ, hr, hσ⟩ := Runs.exists_of_run (M := (orderly Outside.nothing).faultless)
    (σ := start (fun p => ((twoBids p).invocation 4 5).op) Db.empty ()) inTurn
    (f := fun σ => refusedWith σ 1) (b := some 409) (by decide)
  obtain ⟨e, he, -⟩ := refusedWith_eq hσ
  obtain ⟨q, o, -, -, hlive, hown, hother⟩ := (answered_once twoBids () rfl hr).2 1 _ he
  have hq : 1 ≠ q := fun hq => nomatch hown hq
  exact ⟨σ, hr, o, hlive, by rw [he, (hother hq).1]⟩

/-- **two calls that read before either inserts**: the index refuses the second INSERT at the flush, which
the handler does not stand around, and that call is answered with 500 -/
theorem answered_twice :
    ∃ σ, Runs (spec Outside.nothing).faultless
        (start (fun p => ((twoBids p).invocation 4 5).op) Db.empty ()) σ ∧
      σ.state.store.committed.liveOfferOf 4 5 ≠ none ∧
      ∃ e : Err, σ.prog 1 = some (.ret (.error e)) ∧ e.response.status = 500 := by
  obtain ⟨σ, hr, hσ⟩ := Runs.exists_of_run (M := (spec Outside.nothing).faultless)
    (σ := start (fun p => ((twoBids p).invocation 4 5).op) Db.empty ()) atOnce
    (f := fun σ => (refusedWith σ 1, (σ.state.store.committed.liveOfferOf 4 5).isSome))
    (b := (some 500, true)) (by decide)
  obtain ⟨hstatus, hlive⟩ := Prod.mk.inj hσ
  exact ⟨σ, hr, Option.isSome_iff_ne_none.mp hlive, refusedWith_eq hstatus⟩

end Marketplace.Offers
