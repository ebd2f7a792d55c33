import Marketplace.System.Platform

/-!
# What was approved is what was read

A `Decide` call reads the offer with one request and has it approved with another; the PATCH
carries no terms and no version.

* `keepsTerms p`     the condition, on the moves of offer-service: a transaction that commits after
                     the `GET` of `p` sets no term of that offer to anything else than was read.
                     Nothing in the code checks this;
* `approved_as_read` in every run whose moves meet it, an approval of `p` that is committed finds the
                     terms that `p` read, in the commit that approves and in all later ones;
* `approved_unread`  without it, the seller changes the price in between.
-/

set_option linter.unusedSectionVars false

namespace Marketplace.System

open Table Events ReadCommitted Interleave Service
open Offers (Decision OfferOut OfferStatus Offer Columns Db Write Outside)
open Admin (ClientErr Customer Remote Reply Event Ext Law)

/-! ## terms -/

def termsOf (d : Db) (i : UUID) : Option Offers.Terms := (d.find i).map (·.terms)

/-- the columns among the terms that are set are set to these terms -/
def setsOnly (set : Columns) (t : Offers.Terms) : Bool :=
  set.availableQuantity.getD t.availableQuantity = t.availableQuantity &&
    set.pricePerUnit.getD t.pricePerUnit = t.pricePerUnit &&
    set.currency.getD t.currency = t.currency && set.description.getD t.description = t.description

/-- the write leaves the offer with the terms that were read -/
def agrees (info : OfferOut) : Write → Bool
  | .updateOffer old set _ => old.offerID != info.offerID || setsOnly set info.terms
  | _ => true

theorem terms_updated {set : Columns} {o : Offer} (h : setsOnly set o.terms = true) (now : Time) :
    (o.updated set now).terms = o.terms := by
  simp only [setsOnly, Bool.and_eq_true] at h
  obtain ⟨⟨⟨hq, hp⟩, hc⟩, hd⟩ := h
  show Offers.Terms.mk _ _ _ _ = Offers.Terms.mk _ _ _ _
  rw [Offers.Terms.mk.injEq]
  exact ⟨of_decide_eq_true hq, of_decide_eq_true hp, of_decide_eq_true hc, of_decide_eq_true hd⟩

theorem termsOf_of_offers {d e : Db} (h : e.offers = d.offers) (i : UUID) :
    termsOf e i = termsOf d i := by
  unfold termsOf Db.find
  rw [h]

theorem termsOf_apply {info : OfferOut} {w : Write} (h : agrees info w = true) {d : Db}
    (hd : termsOf d info.offerID = some info.terms) :
    termsOf (w.apply d) info.offerID = some info.terms := by
  obtain ⟨o, ho, ht⟩ := Option.map_eq_some_iff.mp hd
  cases w with
  | insertOffer new =>
    have hf : (Write.apply (.insertOffer new) d).find info.offerID = some o := by
      show (d.offers ++ [new]).find? _ = _
      rw [List.find?_append]
      show (d.find info.offerID).or _ = _
      rw [ho]
      rfl
    rw [termsOf, hf, ← ht]
    rfl
  | updateOffer old set now =>
    have hf : (Write.apply (.updateOffer old set now) d).find info.offerID =
        some (if old.isRow o then o.updated set now else o) := by
      rw [Offers.find_eq] at ho ⊢
      show ((updateWhere _ _ d.offers).filter _).head? = _
      rw [filter_updateWhere _ _ _ (by intro x _; rfl)]
      show (updateWhere _ _ (d.rowsOf info.offerID)).head? = _
      rw [updateWhere, List.head?_map, ho]
      rfl
    rw [termsOf, hf, ← ht]
    by_cases e : old.isRow o = true
    · have hid : old.offerID = info.offerID := by
        have hi := Offers.find_id ho
        simp only [Offer.isRow, Bool.and_eq_true, beq_iff_eq] at e
        rw [← e.1.1.1, hi]
      have hs : setsOnly set o.terms = true := by
        rw [ht]
        simpa [agrees, hid] using h
      rw [if_pos e, Option.map_some, terms_updated hs]
    · rw [if_neg e]
      rfl
  | insertImage oi => exact (termsOf_of_offers rfl _).trans hd
  | updateImage i data now => exact (termsOf_of_offers rfl _).trans hd
  | insertOutbox row => exact (termsOf_of_offers rfl _).trans hd

theorem termsOf_applyAll {info : OfferOut} (ws : List Write)
    (h : ∀ w ∈ ws, agrees info w = true) {d : Db}
    (hd : termsOf d info.offerID = some info.terms) :
    termsOf (applyAll ws d) info.offerID = some info.terms :=
  applyAll_rel (fun d e : Db => termsOf d info.offerID = some info.terms →
    termsOf e info.offerID = some info.terms) (fun _ h => h) (fun _ _ _ h h' hd => h' (h hd)) ws
    (fun w hw _ hd => termsOf_apply (h w hw) hd) d hd

section
variable {O P : Type} [DecidableEq O] [DecidableEq P]

/-- a transaction that commits after the `GET` of `p` leaves the offer with the terms `p` read -/
def keepsTerms (p : P) (w : World O P) (act : Act (O ⊕ P) (Choice Unit)) : Bool :=
  match committer w.offers act with
  | some q => (w.offers.state.store.pending q).all fun wr => (w.got p).all fun info => agrees info wr
  | none => true

/-- since `p` has read it, and before its PATCH, the offer has kept the terms -/
def Standing (p : P) (info : OfferOut) (c : Offers.Config (O ⊕ P) Unit) : Prop :=
  ∃ newer older, c.state.store.log = newer ++ older ∧ (∀ d ∈ older, d.tx ≠ .inr p) ∧
    (∀ d ∈ newer, termsOf d.after info.offerID = some info.terms) ∧
    termsOf c.state.store.committed info.offerID = some info.terms

variable {S : OfferService O P} {calls : P → Admin.Invocation} {sellers : O → Offers.Invocation}

theorem keeps_standing (p : P) :
    Keeps S calls sellers (fun q info c => q = p → Standing p info c) (keepsTerms p) where
  get {q o row c} _ hlog hf := by
    rintro rfl
    refine ⟨[], _, rfl, hlog, by simp, ?_⟩
    show termsOf _ row.offerID = _
    rw [termsOf, Offers.find_id hf, hf]
    rfl
  step {q info w act c} _ hg hmay hs h := by
    rintro rfl
    obtain ⟨newer, older, hlog, hold, hnew, hnow⟩ := h rfl
    rcases Spec.step_store hs with ⟨t, ht, he⟩ | ⟨hc, hl⟩
    · have hv : termsOf (w.offers.state.store.view t) info.offerID = some info.terms := by
        refine termsOf_applyAll _ (fun wr hwr => ?_) hnow
        simp only [keepsTerms, ht] at hmay
        exact List.all_eq_true.mp (List.all_eq_true.mp hmay wr hwr) info hg
      rw [Standing, he]
      refine ⟨⟨t, _, _⟩ :: newer, older, by rw [Store.commit, hlog]; rfl, hold, fun d hd => ?_, hv⟩
      rcases List.mem_cons.mp hd with rfl | hd
      · exact hv
      · exact hnew d hd
    · exact ⟨newer, older, hl.trans hlog, hold, hnew, hc ▸ hnow⟩

/-! ## the PATCH -/

/-- nothing is asked of the runs of offer-service -/
def plain : Service.Terms (Offers.spec (Outside.nothing : Outside (O ⊕ P) Unit Unit)) where
  I _ _ _ := True
  R _ _ _ := True
  refl _ _ := trivial
  trans _ _ _ _ _ _ := trivial
  note _ := trivial
  remote _ _ := trivial
  env_R _ := trivial
  env_I h _ := h

theorem plain_sessions : Offers.Sessions (plain (O := O) (P := P)) False False where
  stmt h := h
  pending h := h.elim
  exact h := h.elim
  note _ h := h

theorem plain_reports : Offers.Reports (plain (O := O) (P := P)) := ⟨fun h => h, fun h _ => h⟩

theorem plain_commits {t : O ⊕ P} {inv : Offers.Invocation} :
    Offers.Commits (plain (O := O) (P := P)) False False (fun _ _ _ => True) t inv :=
  ⟨fun _ _ _ _ => trivial, fun _ _ _ _ _ _ _ _ => trivial⟩

/-- **What was approved is what was read.**  In every run in which no transaction that commits
after the `GET` of `p` sets a term of the offer to anything else than was read: if `p` has
committed its approval, then its PATCH has committed the status APPROVED after the `GET`, and in
every commit since then and now the offer has the terms that the `GET` returned. -/
theorem approved_as_read (calls : P → Admin.Invocation) (sellers : O → Offers.Invocation) (p : P)
    {inp : Admin.DecideInput} {σ : Admin.Config P (World O P)}
    (h : Runs (Admin.spec (outside (Offers.spec Outside.nothing) (keepsTerms p))).machine
      (Admin.start calls Admin.Db.empty (World.start calls sellers)) σ)
    (hp : calls p = .decide inp) (ha : inp.decision = .APPROVED)
    (hc : ∃ c ∈ σ.state.store.log, c.tx = p) :
    ∃ info since before,
      (σ.state.ext.trace p).head? = some (.remote (.offersGet inp.offerID) (.ok info)) ∧
      σ.state.ext.out.offers.state.store.log = since ++ before ∧
      (∃ c ∈ since, c.tx = .inr p ∧ c.after.statusOf inp.offerID = some .APPROVED) ∧
      (∀ c ∈ since, termsOf c.after inp.offerID = some info.terms) ∧
      termsOf σ.state.ext.out.offers.state.store.committed inp.offerID = some info.terms := by
  obtain ⟨hg, hl, -⟩ := Admin.runs_good (law (keeps_standing p)) linked_start h
  obtain ⟨c, hc, rfl⟩ := hc
  have hby := hg.commits c hc inp hp
  obtain ⟨info, ids, hget, -⟩ := hby.approved ha
  obtain ⟨reply, hr⟩ := hby.accepted
  obtain ⟨-, hid, hst⟩ := hl.got _ _ info hget
  obtain ⟨since, before, hlog, hbefore, hsince, hnow⟩ := hst rfl
  rw [hid] at hsince hnow
  refine ⟨info, since, before, hget, hlog, ?_, hsince, hnow⟩
  obtain ⟨offer, ho⟩ := hl.accepted _ _ _ reply hr
  obtain ⟨-, hends⟩ := Offers.runs_ends (T := plain) trivial
    (fun t => triple_routes plain_sessions plain_reports (fun _ _ => plain_commits) t) hl.runs
  obtain ⟨i, d, hd, hw⟩ := hends _ offer ho c.tx inp rfl hp
  obtain ⟨hm, htx⟩ := List.mem_filter.mp (hd ▸ List.mem_singleton_self d)
  have htx : d.tx = .inr c.tx := by simpa using htx
  refine ⟨d, ?_, htx, ?_⟩
  · rw [hlog] at hm
    rcases List.mem_append.mp hm with hm | hm
    · exact hm
    · exact absurd htx (hbefore d hm)
  · have hs := hw.status
    rw [ha] at hs
    exact hs

end

/-! ## a seller who changes the price in the meantime -/

/-- the offer, and a higher price -/
def repricing : Fin 2 → Offers.Invocation
  | 0 => .createOffer 4 5 ⟨10, 250, "EUR", ""⟩ [] [] ""
  | 1 => .updateOffer 50 4 ⟨10, 900, "EUR", ""⟩ [] ""

def approving : Unit → Admin.Invocation
  | () => .decide ⟨50, 9, .APPROVED, ""⟩

/-- one customer is behind the request, and the seller's user is not known -/
def quiet (act : Act (Fin 2 ⊕ Unit) (Choice Unit)) : Net (Fin 2) Unit :=
  ⟨false, act, .ok [1], .error .unavailable, .error .unavailable, .error .unavailable⟩

/-- a move of offer-service -/
def there (t : Fin 2 ⊕ Unit) : Act Unit (Choice (Net (Fin 2) Unit)) :=
  .env ⟨.none, 0, 0, 0, quiet (.exec t ⟨.none, 50, 0, 1, ()⟩)⟩

/-- a move of admin-service -/
def here : Act Unit (Choice (Net (Fin 2) Unit)) := .exec () ⟨.none, 7, 7, 1, quiet (.crash (.inr ()))⟩

/-- the offer is made and approved -/
def approvedAtOnce : List (Act Unit (Choice (Net (Fin 2) Unit))) :=
  List.replicate 8 (there (.inl 0)) ++ List.replicate 7 here ++
    List.replicate 8 (there (.inr ())) ++ List.replicate 2 here

/-- the price is changed after the `GET` -/
def repricedBetween : List (Act Unit (Choice (Net (Fin 2) Unit))) :=
  List.replicate 8 (there (.inl 0)) ++ [here] ++ List.replicate 6 (there (.inl 1)) ++
    List.replicate 6 here ++ List.replicate 8 (there (.inr ())) ++ List.replicate 2 here

/-- the terms that the first event of a call tells -/
def readTerms (es : List Event) : Option Offers.Terms :=
  match es with
  | .remote (.offersGet _) (.ok info) :: _ => some info.terms
  | _ => none

theorem readTerms_eq {es : List Event} {t : Offers.Terms} (h : readTerms es = some t) :
    ∃ o info, es.head? = some (.remote (.offersGet o) (.ok info)) ∧ info.terms = t := by
  unfold readTerms at h
  split at h
  · rename_i o info es
    exact ⟨o, info, rfl, Option.some.inj h⟩
  · cases h

theorem approved_as_read_at_once :
    ∃ σ, Runs (Admin.spec (outside (Offers.spec Outside.nothing) (keepsTerms ()))).machine
        (Admin.start approving Admin.Db.empty (World.start approving repricing)) σ ∧
      ∃ info : OfferOut,
        termsOf σ.state.ext.out.offers.state.store.committed 50 = some info.terms ∧
        σ.state.ext.out.offers.state.store.committed.statusOf 50 = some .APPROVED := by
  obtain ⟨σ, hr, hσ⟩ := Runs.exists_of_run
    (M := (Admin.spec (outside (Offers.spec Outside.nothing) (keepsTerms ()))).machine)
    (σ := Admin.start approving Admin.Db.empty (World.start approving repricing)) approvedAtOnce
    (f := fun σ => (σ.state.store.log.map (·.tx),
      σ.state.ext.out.offers.state.store.committed.statusOf 50))
    (b := ([()], some .APPROVED)) (by decide)
  simp only [Prod.mk.injEq] at hσ
  obtain ⟨c, hc, -⟩ := List.mem_map.mp (hσ.1 ▸ List.mem_singleton_self ())
  obtain ⟨info, -, -, -, -, -, -, hnow⟩ := approved_as_read approving repricing () hr rfl rfl
    ⟨c, hc, rfl⟩
  exact ⟨σ, hr, info, hnow, hσ.2⟩

/-- without the condition an offer is approved at a price nobody has looked at -/
theorem approved_unread :
    ∃ σ, Runs (Admin.spec (outside (Offers.spec Outside.nothing) fun _ _ => true)).machine
        (Admin.start approving Admin.Db.empty (World.start approving repricing)) σ ∧
      (∃ c ∈ σ.state.store.log, c.tx = ()) ∧
      (∃ o info, (σ.state.ext.trace ()).head? = some (.remote (.offersGet o) (.ok info)) ∧
        info.terms = ⟨10, 250, "EUR", ""⟩) ∧
      σ.state.ext.out.offers.state.store.committed.statusOf 50 = some .APPROVED ∧
      termsOf σ.state.ext.out.offers.state.store.committed 50 = some ⟨10, 900, "EUR", ""⟩ := by
  obtain ⟨σ, hr, hσ⟩ := Runs.exists_of_run
    (M := (Admin.spec (outside (Offers.spec Outside.nothing) fun _ _ => true)).machine)
    (σ := Admin.start approving Admin.Db.empty (World.start approving repricing)) repricedBetween
    (f := fun σ => (σ.state.store.log.map (·.tx), readTerms (σ.state.ext.trace ()),
      σ.state.ext.out.offers.state.store.committed.statusOf 50,
      termsOf σ.state.ext.out.offers.state.store.committed 50))
    (b := ([()], some ⟨10, 250, "EUR", ""⟩, some .APPROVED, some ⟨10, 900, "EUR", ""⟩)) (by decide)
  simp only [Prod.mk.injEq] at hσ
  obtain ⟨c, hc, -⟩ := List.mem_map.mp (hσ.1 ▸ List.mem_singleton_self ())
  exact ⟨σ, hr, ⟨c, hc, rfl⟩, readTerms_eq hσ.2.1, hσ.2.2⟩

end Marketplace.System
