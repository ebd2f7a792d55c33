import Marketplace.Offers.Routes
import Marketplace.Lib.TwoRuns

/-!
# What a seller can tell about a rival

Two stores that a seller cannot tell apart, through any calls.

* `Resembles s d d'`   the same offers; where an offer is not one of the seller `s`, it may differ in
                     who made it, its description, its last change and its picture;
* `Glimpse`          what is left of an offer: all of it, or `CompetingOfferOut`;
* `AsSeen s d d'`      the seller glimpses the same, and has the same pictures: all that the routes
                     depend on;
* `Alike`            two stores in the middle of the seller's call;
* `responses_same`   **every answer is the same**, for any sequence of calls.
-/

set_option linter.unusedSectionVars false

namespace Marketplace.Offers

open Interleave Service ReadCommitted Table

/-! ## resemblance -/

/-- the same offer, or an offer of somebody else with the same terms and the same status -/
def Offer.Resembles (s : UUID) (o o' : Offer) : Prop :=
  o = o' ∨ (o.sellerID ≠ s ∧ o'.sellerID ≠ s ∧
    o' = { o with
      sellerID := o'.sellerID
      description := o'.description
      updatedAt := o'.updatedAt
      imageType := o'.imageType })

/-- the offer `i` is one of `s` -/
def Db.Owns (d : Db) (s i : UUID) : Prop := ∃ o, d.find i = some o ∧ o.sellerID = s

structure Resembles (s : UUID) (d d' : Db) : Prop where
  offers : List.Forall₂ (Offer.Resembles s) d.offers d'.offers
  images : ∀ i, d.Owns s i → d.imagesOf i = d'.imagesOf i

/-! ## glimpses -/

inductive Glimpse where
  | own (o : Offer)
  | rival (o : CompetingOfferOut)

def glimpse (s : UUID) (o : Offer) : Glimpse :=
  if o.sellerID = s then .own o else .rival (.of o)

namespace Glimpse

def offerID : Glimpse → UUID
  | own o => o.offerID
  | rival o => o.offerID

def requestID : Glimpse → UUID
  | own o => o.requestID
  | rival o => o.requestID

def status : Glimpse → OfferStatus
  | own o => o.status
  | rival o => o.status

def createdAt : Glimpse → Time
  | own o => o.createdAt
  | rival o => o.createdAt

def projection : Glimpse → Projection
  | own o => .offer (.of o)
  | rival o => .competing o

def own? : Glimpse → Option Offer
  | own o => some o
  | rival _ => none

def update (f : Offer → Offer) : Glimpse → Glimpse
  | own o => own (f o)
  | rival o => rival o

end Glimpse

section
variable {s : UUID} {o o' : Offer}

theorem glimpse_own (h : o.sellerID = s) : glimpse s o = .own o := if_pos h
theorem glimpse_rival (h : o.sellerID ≠ s) : glimpse s o = .rival (.of o) := if_neg h

/-- a column that is glimpsed of every offer -/
theorem glimpse_column {α : Type} (s : UUID) (f : Glimpse → α) (g : Offer → α)
    (ho : ∀ o, f (.own o) = g o) (hr : ∀ o, f (.rival (.of o)) = g o) (o : Offer) :
    f (glimpse s o) = g o := by
  by_cases h : o.sellerID = s
  · rw [glimpse_own h, ho]
  · rw [glimpse_rival h, hr]

theorem glimpse_offerID (s : UUID) (o : Offer) : (glimpse s o).offerID = o.offerID :=
  glimpse_column s Glimpse.offerID Offer.offerID (fun _ => rfl) (fun _ => rfl) o
theorem glimpse_requestID (s : UUID) (o : Offer) : (glimpse s o).requestID = o.requestID :=
  glimpse_column s Glimpse.requestID Offer.requestID (fun _ => rfl) (fun _ => rfl) o
theorem glimpse_status (s : UUID) (o : Offer) : (glimpse s o).status = o.status :=
  glimpse_column s Glimpse.status Offer.status (fun _ => rfl) (fun _ => rfl) o
theorem glimpse_createdAt (s : UUID) (o : Offer) : (glimpse s o).createdAt = o.createdAt :=
  glimpse_column s Glimpse.createdAt Offer.createdAt (fun _ => rfl) (fun _ => rfl) o

/-- what a route shows of an offer is what is glimpsed of it -/
theorem projectForSeller_eq (s : UUID) (o : Offer) :
    projectForSeller o s = (glimpse s o).projection := by
  by_cases h : o.sellerID = s
  · rw [projectForSeller, if_pos h, glimpse_own h]
    rfl
  · rw [projectForSeller, if_neg h, glimpse_rival h]
    rfl

theorem glimpse_own? (s : UUID) (o : Offer) :
    (glimpse s o).own? = if o.sellerID == s then some o else none := by
  by_cases h : o.sellerID = s
  · rw [glimpse_own h, if_pos (beq_iff_eq.mpr h)]
    rfl
  · rw [glimpse_rival h, if_neg (fun e => h (beq_iff_eq.mp e))]
    rfl

theorem Offer.Resembles.glimpse (h : Offer.Resembles s o o') : glimpse s o = glimpse s o' := by
  rcases h with rfl | ⟨h, h', e⟩
  · rfl
  · rw [glimpse_rival h, glimpse_rival h', e]
    rfl

/-- offers of somebody else look the same only when they are offers of somebody else -/
theorem glimpse_eq (h : glimpse s o = glimpse s o') :
    o = o' ∨ (o.sellerID ≠ s ∧ o'.sellerID ≠ s) := by
  by_cases ho : o.sellerID = s
  · by_cases ho' : o'.sellerID = s
    · rw [glimpse_own ho, glimpse_own ho'] at h
      exact .inl (Glimpse.own.inj h)
    · rw [glimpse_own ho, glimpse_rival ho'] at h
      cases h
  · by_cases ho' : o'.sellerID = s
    · rw [glimpse_rival ho, glimpse_own ho'] at h
      cases h
    · exact .inr ⟨ho, ho'⟩

end

/-! ## what the routes depend on -/

def Db.glimpses (d : Db) (s : UUID) : List Glimpse := d.offers.map (glimpse s)

structure AsSeen (s : UUID) (d d' : Db) : Prop where
  offers : d.glimpses s = d'.glimpses s
  images : ∀ i, d.Owns s i → d.imagesOf i = d'.imagesOf i

theorem Resembles.asSeen {s : UUID} {d d' : Db} (h : Resembles s d d') : AsSeen s d d' where
  offers := by
    have hall : ∀ {l l' : List Offer}, List.Forall₂ (Offer.Resembles s) l l' →
        l.map (glimpse s) = l'.map (glimpse s) := by
      intro l l' hl
      induction hl with
      | nil => rfl
      | cons ho _ ih => exact congrArg₂ List.cons ho.glimpse ih
    exact hall h.offers
  images := h.images

/-- a choice of offers by what is glimpsed of them -/
theorem glimpses_filter (d : Db) (s : UUID) {p : Offer → Bool} {q : Glimpse → Bool}
    (h : ∀ o, q (glimpse s o) = p o) :
    (d.offers.filter p).map (glimpse s) = (d.glimpses s).filter q := by
  rw [Db.glimpses, List.filter_map, show (q ∘ glimpse s) = p from funext h]

namespace AsSeen
variable {s : UUID} {d d' : Db}

theorem find (h : AsSeen s d d') (i : UUID) :
    (d.find i).map (glimpse s) = (d'.find i).map (glimpse s) := by
  have hfind : ∀ e : Db, (e.find i).map (glimpse s) = (e.glimpses s).find? (·.offerID == i) := by
    intro e
    rw [Db.glimpses, List.find?_map, Db.find]
    refine congrArg (Option.map _) (congrArg (List.find? · e.offers) (funext fun o => ?_))
    show _ = ((glimpse s o).offerID == i)
    rw [glimpse_offerID]
  rw [hfind, hfind, h.offers]

/-- an offer is missing in both, the same in both, or somebody else's in both -/
theorem find_cases (h : AsSeen s d d') (i : UUID) :
    (d.find i = none ∧ d'.find i = none) ∨
    (∃ o, o.sellerID = s ∧ d.find i = some o ∧ d'.find i = some o) ∨
    ∃ o o', o.sellerID ≠ s ∧ o'.sellerID ≠ s ∧ glimpse s o = glimpse s o' ∧
      d.find i = some o ∧ d'.find i = some o' := by
  have hf := h.find i
  cases hd : d.find i with
  | none =>
    rw [hd] at hf
    exact .inl ⟨rfl, Option.map_eq_none_iff.mp hf.symm⟩
  | some o =>
    rw [hd] at hf
    obtain ⟨o', hd', hg⟩ := Option.map_eq_some_iff.mp hf.symm
    by_cases ho : o.sellerID = s
    · rcases glimpse_eq hg.symm with rfl | ⟨hne, -⟩
      · exact .inr (.inl ⟨o, ho, rfl, hd'⟩)
      · exact absurd ho hne
    · refine .inr (.inr ⟨o, o', ho, ?_, hg.symm, rfl, hd'⟩)
      rcases glimpse_eq hg.symm with rfl | ⟨-, hne⟩
      · exact ho
      · exact hne

theorem findImage (h : AsSeen s d d') {i : UUID} (hi : d.Owns s i) :
    d.findImage i = d'.findImage i := by
  have hhead : ∀ e : Db, e.findImage i = (e.imagesOf i).head? := fun e =>
    List.head?_filter.symm
  rw [hhead, hhead, h.images i hi]

theorem listForRequest (h : AsSeen s d d') (r : UUID) :
    (d.listForRequest r).map (projectForSeller · s) =
      (d'.listForRequest r).map (projectForSeller · s) := by
  have hlist : ∀ e : Db, (e.listForRequest r).map (projectForSeller · s) =
      (((e.glimpses s).filter (·.requestID == r)).mergeSort
        fun a b => a.createdAt ≤ b.createdAt).map Glimpse.projection := by
    intro e
    have hp : (projectForSeller · s) = Glimpse.projection ∘ glimpse s :=
      funext (projectForSeller_eq s)
    rw [Db.listForRequest, hp, ← List.map_map,
      List.map_mergeSort (s := fun a b => decide (a.createdAt ≤ b.createdAt))
        (fun a _ b _ => by rw [glimpse_createdAt, glimpse_createdAt]),
      glimpses_filter e s (q := fun g => g.requestID == r) fun o => by rw [glimpse_requestID]]
  rw [hlist, hlist, h.offers]

theorem listForSeller (h : AsSeen s d d') : d.listForSeller s = d'.listForSeller s := by
  have hlist : ∀ e : Db, e.offers.filter (·.sellerID == s) = (e.glimpses s).filterMap Glimpse.own? := by
    intro e
    rw [Db.glimpses, List.filterMap_map, ← List.filterMap_eq_filter]
    refine congrArg (List.filterMap · e.offers) (funext fun o => ?_)
    show Option.guard _ o = (glimpse s o).own?
    rw [glimpse_own?, Option.guard]
  rw [Db.listForSeller, Db.listForSeller, hlist, hlist, h.offers]

theorem countLive (h : AsSeen s d d') (r : UUID) : d.countLive r = d'.countLive r := by
  have hcount : ∀ e : Db, e.countLive r =
      ((e.glimpses s).filter fun g => g.requestID == r && g.status.live).length := by
    intro e
    rw [← glimpses_filter e s (p := fun o => o.requestID == r && o.status.live)
      (q := fun g => g.requestID == r && g.status.live)
      fun o => by rw [glimpse_requestID, glimpse_status], List.length_map]
    rfl
  rw [hcount, hcount, h.offers]

end AsSeen

/-! ## the seller's own writes -/

/-- a write that moves no offer but one of `s` -/
def Write.By (s : UUID) : Write → Prop
  | .insertOffer _ => False
  | .updateOffer old _ _ => old.sellerID = s
  | _ => True

theorem glimpse_update {s : UUID} {old : Offer} (h : old.sellerID = s) (set : Columns) (now : Time)
    (o : Offer) :
    glimpse s (if old.isRow o then o.updated set now else o) =
      (glimpse s o).update fun o => if old.isRow o then o.updated set now else o := by
  by_cases ho : o.sellerID = s
  · have hu : (if old.isRow o then o.updated set now else o).sellerID = s := by
      split
      · exact ho
      · exact ho
    rw [glimpse_own ho, glimpse_own hu]
    rfl
  · have hrow : old.isRow o = false := by
      simp [Offer.isRow, h, ho]
    rw [hrow, glimpse_rival ho]
    exact glimpse_rival ho

theorem glimpses_apply {s : UUID} {d d' : Db} (h : d.glimpses s = d'.glimpses s) {w : Write}
    (hw : w.By s) : (w.apply d).glimpses s = (w.apply d').glimpses s := by
  cases w with
  | insertOffer o => exact hw.elim
  | updateOffer old set now =>
    have hmap : ∀ e : Db, (Write.apply (.updateOffer old set now) e).glimpses s =
        (e.glimpses s).map (Glimpse.update fun o =>
          if old.isRow o then o.updated set now else o) := by
      intro e
      show (updateWhere _ _ e.offers).map _ = (e.offers.map _).map _
      rw [updateWhere, List.map_map, List.map_map]
      exact List.map_congr_left fun o _ => glimpse_update hw set now o
    rw [hmap, hmap, h]
  | insertImage oi => exact h
  | updateImage i data now => exact h
  | insertOutbox row => exact h

/-- a write changes no offer's owner -/
theorem owns_apply {s i : UUID} {d : Db} {w : Write} (hw : w.By s) :
    (w.apply d).Owns s i ↔ d.Owns s i := by
  cases w with
  | insertOffer o => exact hw.elim
  | updateOffer old set now =>
    have hfind : (Write.apply (.updateOffer old set now) d).find i =
        (d.find i).map fun o => if old.isRow o then o.updated set now else o := by
      show (updateWhere _ _ d.offers).find? _ = _
      rw [updateWhere, List.find?_map]
      refine congrArg (Option.map _) (congrArg (List.find? · d.offers) (funext fun o => ?_))
      show ((if old.isRow o then o.updated set now else o).offerID == i) = _
      split
      · rfl
      · rfl
    have hs : ∀ o : Offer, (if old.isRow o then o.updated set now else o).sellerID =
        o.sellerID := by
      intro o
      split
      · rfl
      · rfl
    constructor
    · rintro ⟨o, ho, hos⟩
      rw [hfind] at ho
      obtain ⟨o₀, h₀, rfl⟩ := Option.map_eq_some_iff.mp ho
      exact ⟨o₀, h₀, (hs o₀).symm.trans hos⟩
    · rintro ⟨o, ho, hos⟩
      exact ⟨_, by rw [hfind, ho]; rfl, (hs o).trans hos⟩
  | insertImage oi => exact Iff.rfl
  | updateImage j data now => exact Iff.rfl
  | insertOutbox row => exact Iff.rfl

theorem AsSeen.apply {s : UUID} {d d' : Db} (h : AsSeen s d d') {w : Write} (hw : w.By s) :
    AsSeen s (w.apply d) (w.apply d') where
  offers := glimpses_apply h.offers hw
  images i hi := sameUnder_congr (l := .image i) w (h.images i ((owns_apply hw).mp hi))

theorem AsSeen.applyAll {s : UUID} {ws : List Write} (hw : ∀ w ∈ ws, w.By s) {d d' : Db}
    (h : AsSeen s d d') : AsSeen s (applyAll ws d) (ReadCommitted.applyAll ws d') := by
  induction ws generalizing d d' with
  | nil => exact h
  | cons w ws ih =>
    exact ih (fun v hv => hw v (List.mem_cons_of_mem _ hv)) (h.apply (hw w List.mem_cons_self))

/-! ## in the middle of a call -/

/-- what the seller's own transaction has done is the same in both stores -/
structure Alike (s : UUID) (t t' : St Unit) : Prop where
  committed : AsSeen s t.committed t'.committed
  pending : t'.pending = t.pending
  own : ∀ p, ∀ w ∈ t.pending p, w.By s
  locks : t'.locks = t.locks
  now : t'.now = t.now

namespace Alike
variable {s : UUID} {t t' : St Unit} {p : Unit}

theorem fresh {d d' : Db} (h : AsSeen s d d') : Alike s (Store.fresh d) (Store.fresh d') where
  committed := h
  pending := rfl
  own _ _ hw := (List.not_mem_nil hw).elim
  locks := rfl
  now := rfl

theorem view (h : Alike s t t') (p : Unit) : AsSeen s (t.view p) (t'.view p) := by
  unfold Store.view
  rw [h.pending]
  exact h.committed.applyAll (h.own p)

theorem free (h : Alike s t t') (p : Unit) (l : Lock) : t'.free p l = t.free p l := by
  unfold Store.free
  rw [h.locks]

theorem begin (h : Alike s t t') (n : Nat) : Alike s (t.begin p n) (t'.begin p n) where
  committed := h.committed
  pending := h.pending
  own := h.own
  locks := h.locks
  now := by
    show Function.update t'.now p n = Function.update t.now p n
    rw [h.now]

theorem rollback (h : Alike s t t') : Alike s (t.rollback p) (t'.rollback p) where
  committed := h.committed
  pending := by
    show Function.update t'.pending p [] = Function.update t.pending p []
    rw [h.pending]
  own q w hw := by
    have hnil : (t.rollback p).pending q = [] := by
      show Function.update t.pending p [] q = []
      exact Function.update_self q [] t.pending
    rw [hnil] at hw
    cases hw
  locks := by
    show t'.released p = t.released p
    unfold Store.released
    rw [h.locks]
  now := h.now

theorem commit (h : Alike s t t') : Alike s (t.commit p) (t'.commit p) :=
  { h.rollback (p := p) with committed := h.view p }

theorem owns (h : Alike s t t') (i : UUID) :
    (t.view p).Owns s i ↔ t.committed.Owns s i := by
  have hall : ∀ (ws : List Write), (∀ w ∈ ws, w.By s) → ∀ d : Db,
      (applyAll ws d).Owns s i ↔ d.Owns s i := by
    intro ws
    induction ws with
    | nil => exact fun _ d => Iff.rfl
    | cons w ws ih =>
      intro hw d
      exact (ih (fun v hv => hw v (List.mem_cons_of_mem _ hv)) _).trans
        (owns_apply (hw w List.mem_cons_self))
  exact hall _ (h.own p) _

end Alike

/-- the offer `i` that the call is about is one of `s` -/
def Holding (s i : UUID) (t t' : St Unit) : Prop := Alike s t t' ∧ t.committed.Owns s i

/-- the same answer, and still alike -/
def Answers {α : Type} (s i : UUID) (r r' : Except PgErr α × St Unit) : Prop :=
  r.1 = r'.1 ∧ Holding s i r.2 r'.2

namespace Holding
variable {s i : UUID} {t t' : St Unit} {p : Unit}

theorem view (h : Holding s i t t') (p : Unit) : (t.view p).Owns s i := (h.1.owns i).mpr h.2

theorem put (h : Holding s i t t') {w : Write} (hw : w.By s) :
    Option.Rel (Holding s i) (t.put p w) (t'.put p w) := by
  unfold Store.put
  rw [show t'.free p = t.free p from funext (h.1.free p)]
  refine rel_ite (fun _ => .some ⟨?_, h.2⟩) fun _ => .none
  refine ⟨h.1.committed, ?_, ?_, ?_, h.1.now⟩
  · show Function.update t'.pending p (t'.pending p ++ [w]) =
      Function.update t.pending p (t.pending p ++ [w])
    rw [h.1.pending]
  · intro q v hv
    have hq : Function.update t.pending p (t.pending p ++ [w]) q = t.pending p ++ [w] :=
      Function.update_self p _ t.pending
    rcases List.mem_append.mp (hq ▸ hv) with hv | hv
    · exact h.1.own p v hv
    · rw [List.mem_singleton.mp hv]
      exact hw
  · funext l
    show (if _ then _ else t'.locks l) = if _ then _ else t.locks l
    rw [h.1.locks]

theorem writing {α : Type} (h : Holding s i t t') {w : Write} (hw : w.By s) (row : α) :
    Option.Rel (Answers s i) (t.writing p w row) (t'.writing p w row) :=
  rel_map (h.put hw) fun _ _ ht => ⟨rfl, ht⟩

theorem failing {α : Type} (h : Holding s i t t') (e : PgErr) :
    Option.Rel (Answers s i) (t.failing e : Option (Except PgErr α × St Unit)) (t'.failing e) :=
  .some ⟨rfl, h⟩

theorem find (h : Holding s i t t') (p : Unit) :
    ∃ o, o.sellerID = s ∧ (t.view p).find i = some o ∧ (t'.view p).find i = some o := by
  obtain ⟨o, ho, hs⟩ := h.view p
  rcases (h.1.view p).find_cases i with ⟨hn, -⟩ | he | ⟨o₁, o₂, hne, -, -, h₁, -⟩
  · rw [ho] at hn
    cases hn
  · exact he
  · rw [ho] at h₁
    cases h₁
    exact absurd hs hne

/-! ### the statements of a call -/

theorem updateOffer (h : Holding s i t t') {loaded : Offer} (hl : loaded.offerID = i)
    (set : Columns) (x : Choice Unit) :
    Option.Rel (Answers s i) (stmt p (.updateOffer loaded set) x t)
      (stmt p (.updateOffer loaded set) x t') := by
  obtain ⟨old, hs, ho, ho'⟩ := h.find p
  -- a twin of the seller's own offer is itself one of the seller's
  have htwin : ∀ d : Db, d.liveTwin old = ((d.glimpses s).filterMap Glimpse.own?).any fun o' =>
      o'.offerID != old.offerID && o'.requestID == old.requestID && o'.status.live := by
    intro d
    rw [Db.glimpses, List.filterMap_map, List.any_filterMap, Db.liveTwin]
    refine congrArg (List.any d.offers) (funext fun o => ?_)
    simp only [Function.comp, glimpse_own?, hs]
    by_cases hos : o.sellerID = s
    · simp [hos]
    · simp [hos]
  subst hl
  simp only [stmt, h.1.free, ho, ho', htwin, (h.1.view p).offers]
  refine rel_ite (fun _ => .none) fun _ => ?_
  refine rel_ite (fun _ => h.failing _) fun _ => ?_
  refine rel_ite (fun _ => h.failing _) fun _ => ?_
  refine rel_ite (fun _ => .none) fun _ => ?_
  refine rel_ite (fun _ => h.failing _) fun _ => ?_
  exact h.writing (w := .updateOffer old _ _) hs ()

theorem insertImage (h : Holding s i t t') (data : Bytes) (x : Choice Unit) :
    Option.Rel (Answers s i) (stmt p (.insertImage i data) x t)
      (stmt p (.insertImage i data) x t') := by
  obtain ⟨o, -, ho, ho'⟩ := h.find p
  have hnow : t'.now p = t.now p := congrFun h.1.now p
  simp only [stmt, h.1.free, ho, ho', ← (h.1.view p).findImage (h.view p), hnow]
  refine rel_ite (fun _ => h.failing _) fun _ => ?_
  refine rel_ite (fun _ => .none) fun _ => ?_
  refine rel_ite (fun _ => h.failing _) fun _ => ?_
  refine rel_ite (fun _ => h.failing _) fun _ => ?_
  exact h.writing (w := .insertImage _) trivial ()

theorem updateImage (h : Holding s i t t') {loaded : OfferImage} (hl : loaded.offerID = i)
    (data : Bytes) (x : Choice Unit) :
    Option.Rel (Answers s i) (stmt p (.updateImage loaded data) x t)
      (stmt p (.updateImage loaded data) x t') := by
  subst hl
  simp only [stmt, h.1.free, ← (h.1.view p).findImage (h.view p)]
  refine rel_ite (fun _ => .none) fun _ => ?_
  refine rel_ite (fun _ => h.failing _) fun _ => ?_
  refine rel_ite (fun _ => h.failing _) fun _ => ?_
  exact h.writing (w := .updateImage _ _ _) trivial ()

theorem refresh (h : Holding s i t t') (x : Choice Unit) :
    Option.Rel (Answers s i) (stmt p (.refresh i) x t) (stmt p (.refresh i) x t') := by
  obtain ⟨o, -, ho, ho'⟩ := h.find p
  simp only [stmt, ho, ho']
  exact .some ⟨rfl, h⟩

end Holding

/-! ## two calls -/

abbrev Sta : Type := State Unit Db Write Lock Unit

def Near (s : UUID) (σ σ' : Sta) : Prop := Alike s σ.store σ'.store

def NearOwn (s i : UUID) (σ σ' : Sta) : Prop := Holding s i σ.store σ'.store

/-- the same result in both calls, which then meet `W` -/
def Same {α : Type} (W : α → Sta → Sta → Prop) (a b : α) (σ σ' : Sta) : Prop := a = b ∧ W a σ σ'

section
variable {s i : UUID} {x : Env}

/-- a statement that answers the same -/
theorem agree_exec {q : Stmt} (h : ∀ t t', Holding s i t t' → Option.Rel (Answers s i)
      (stmt () q (x (.sql q)) t) (stmt () q (x (.sql q)) t')) :
    Agree (spec Outside.nothing) () x (NearOwn s i) (Same fun _ => NearOwn s i) (Near s)
      (exec q) (exec q) := by
  refine Agree.sql (fun _ _ hs => hs.1) fun σ σ' hs => ?_
  refine rel_mono (h σ.store σ'.store hs) ?_
  rintro ⟨a, t⟩ ⟨b, t'⟩ ⟨rfl, ht⟩ e e'
  cases a with
  | ok a => exact ⟨rfl, ht⟩
  | error e => exact ⟨rfl, ht.1⟩

theorem agree_begin :
    Agree (spec Outside.nothing) () x (Near s) (Same fun _ => Near s) (Near s) begin begin :=
  Agree.begin (fun _ _ hs => hs) fun _ _ n hs => ⟨rfl, hs.begin n⟩

theorem agree_commit :
    Agree (spec Outside.nothing) () x (NearOwn s i) (Same fun _ => NearOwn s i) (Near s)
      commit commit :=
  Agree.commit (fun _ _ _ => rfl) (fun _ _ hs => ⟨rfl, hs.1.commit, hs.view ()⟩)
    (fun _ _ hs => hs.1.commit) fun _ _ hs => hs.1.rollback

/-- the offer is missing in both stores, or there in both -/
theorem agree_getOffer :
    Agree (spec Outside.nothing) () x (Near s)
      (fun o o' σ σ' => Near s σ σ' ∧ (σ.store.view ()).find i = some o ∧
        (σ'.store.view ()).find i = some o') (Near s) (getOffer i) (getOffer i) := by
  have hread : Agree (spec Outside.nothing) () x (Near s)
      (fun a b σ σ' => Near s σ σ' ∧ (σ.store.view ()).find i = a ∧
        (σ'.store.view ()).find i = b) (Near s) (exec (.getOffer i)) (exec (.getOffer i)) := by
    refine Agree.sql (q := Stmt.getOffer i) (fun _ _ hs => hs) fun σ σ' hs => ?_
    exact .some fun _ _ => ⟨hs, rfl, rfl⟩
  refine Agree.bind hread fun a b => Sim.fact (φ := a = none ↔ b = none) ?_ fun hab => ?_
  · rintro σ σ' ⟨hs, rfl, rfl⟩
    have hf := congrArg Option.isNone ((hs.view ()).find i)
    rw [Option.isNone_map, Option.isNone_map] at hf
    rw [← Option.isNone_iff_eq_none, ← Option.isNone_iff_eq_none, hf]
  · match a, b with
    | none, none => exact Agree.throw _ fun _ _ hs => hs.1
    | some o, some o' => exact Agree.pure fun _ _ hs => hs
    | none, some o' => exact absurd (hab.mp rfl) (by simp)
    | some o, none => exact absurd (hab.mpr rfl) (by simp)

/-- it is then one of the seller's, and pending, or the call fails the same way -/
theorem agree_ownPendingOffer :
    Agree (spec Outside.nothing) () x (Near s)
      (Same fun o σ σ' => (o.sellerID = s ∧ o.offerID = i) ∧ NearOwn s i σ σ') (Near s)
      (ownPendingOffer i s) (ownPendingOffer i s) := by
  refine Agree.bind agree_getOffer fun o o' => Sim.fact
    (φ := (o = o' ∧ o.sellerID = s ∧ o.offerID = i) ∨ (o.sellerID ≠ s ∧ o'.sellerID ≠ s)) ?_ ?_
  · rintro σ σ' ⟨hs, ho, ho'⟩
    rcases (hs.view ()).find_cases i with ⟨hn, -⟩ | ⟨o₁, h₁, he, he'⟩ | ⟨o₁, o₂, hne, hne', -, he, he'⟩
    · rw [ho] at hn
      cases hn
    · rw [ho] at he
      rw [ho'] at he'
      cases he
      cases he'
      exact .inl ⟨rfl, h₁, by simpa using List.find?_some (l := (σ.store.view ()).offers) ho⟩
    · rw [ho] at he
      rw [ho'] at he'
      cases he
      cases he'
      exact .inr ⟨hne, hne'⟩
  · rintro (⟨rfl, hs, hi⟩ | ⟨hne, hne'⟩)
    · rw [if_neg (not_not.mpr hs)]
      by_cases hp : o.status = .PENDING
      · rw [if_neg (not_not.mpr hp)]
        refine Agree.pure fun σ σ' h => ⟨rfl, ⟨hs, hi⟩, h.1, ?_⟩
        exact (h.1.owns i).mp ⟨o, h.2.1, hs⟩
      · rw [if_pos hp]
        exact Agree.throw _ fun _ _ h => h.1
    · rw [if_pos hne, if_pos hne']
      exact Agree.throw _ fun _ _ h => h.1

theorem agree_storeImage {existing : Option OfferImage} (he : ∀ oi ∈ existing, oi.offerID = i)
    (image : Bytes) :
    Agree (spec Outside.nothing) () x (NearOwn s i) (Same fun _ => NearOwn s i) (Near s)
      (storeImage existing i image) (storeImage existing i image) := by
  cases existing with
  | none => exact agree_exec fun _ _ h => h.insertImage _ _
  | some oi => exact agree_exec fun _ _ h => h.updateImage (he oi rfl) _ _

/-- the picture of the seller's own offer -/
theorem agree_getImage :
    Agree (spec Outside.nothing) () x (NearOwn s i)
      (Same fun a σ σ' => (∀ oi ∈ a, oi.offerID = i) ∧ NearOwn s i σ σ') (Near s)
      (exec (.getImage i)) (exec (.getImage i)) := by
  refine Agree.sql (q := Stmt.getImage i) (fun _ _ hs => hs.1) fun σ σ' hs => .some fun _ _ => ?_
  refine ⟨(hs.1.view ()).findImage (hs.view ()), fun oi hoi => ?_, hs⟩
  simpa using List.find?_some (l := (σ.store.view ()).images) hoi

theorem agree_flushTerms {offer : Offer} (hi : offer.offerID = i) (payload : Terms) (image : Bytes)
    (imageType : String) :
    Agree (spec Outside.nothing) () x (NearOwn s i) (Same fun _ => NearOwn s i) (Near s)
      (flushTerms offer i payload image imageType)
      (flushTerms offer i payload image imageType) := by
  unfold flushTerms
  split
  · exact agree_exec fun _ _ h => h.updateOffer hi _ _
  · refine Agree.bindEq agree_getImage fun existing => Sim.fact (fun _ _ h => h.1) fun he => ?_
    refine Agree.bindEq (Sim.pre (agree_exec fun _ _ h => h.updateOffer hi _ _)
      fun _ _ h => h.2) fun _ => ?_
    exact agree_storeImage he image

/-- both calls end with the row of the seller's own offer -/
theorem agree_refresh :
    Agree (spec Outside.nothing) () x (NearOwn s i) (Same fun _ => Near s) (Near s)
      (exec (.refresh i)) (exec (.refresh i)) :=
  Sim.mono (agree_exec fun _ _ h => h.refresh _) fun a b σ σ' h => by
    cases a with
    | ok a =>
      cases b with
      | ok b => exact ⟨h.1, h.2.1⟩
      | error e => exact h
    | error e =>
      cases b with
      | ok b => exact h
      | error e => exact h

theorem agree_updateOffer (payload : Terms) (image : Bytes) (imageType : String) :
    Agree (spec Outside.nothing) () x (Near s) (Same fun _ => Near s) (Near s)
      (updateOffer i s payload image imageType) (updateOffer i s payload image imageType) := by
  refine Agree.bindEq agree_begin fun _ => ?_
  refine Agree.bindEq agree_ownPendingOffer fun offer => Sim.fact (fun _ _ h => h.1) fun ho => ?_
  refine Agree.bindEq (Sim.pre (agree_flushTerms ho.2 payload image imageType)
    fun _ _ h => h.2) fun _ => ?_
  exact Agree.bindEq agree_commit fun _ => agree_refresh

theorem agree_cancelOffer :
    Agree (spec Outside.nothing) () x (Near s) (Same fun _ => Near s) (Near s)
      (cancelOffer i s) (cancelOffer i s) := by
  refine Agree.bindEq agree_begin fun _ => ?_
  refine Agree.bindEq agree_ownPendingOffer fun offer => Sim.fact (fun _ _ h => h.1) fun ho => ?_
  refine Agree.bindEq (Sim.pre (agree_exec fun _ _ h => h.updateOffer ho.2 _ _)
    fun _ _ h => h.2) fun _ => ?_
  exact Agree.bindEq agree_commit fun _ => agree_refresh

/-- the count takes in the offers of others, but not who made them -/
theorem agree_reportOfferCount (r : UUID) :
    Agree (spec Outside.nothing) () x (Near s) (Same fun _ => Near s) (Near s)
      (reportOfferCount r) (reportOfferCount r) := by
  have hcount : Agree (spec Outside.nothing) () x (Near s) (Same fun _ => Near s) (Near s)
      (exec (.countLiveOffers r)) (exec (.countLiveOffers r)) := by
    refine Agree.sql (q := Stmt.countLiveOffers r) (fun _ _ hs => hs) fun σ σ' hs => ?_
    exact .some fun _ _ => ⟨(hs.view ()).countLive r, hs⟩
  refine Agree.bindEq hcount fun n => ?_
  exact Agree.remote fun _ _ hs => .some ⟨rfl, hs⟩

theorem agree_getSession {α : Type} {m : Op α}
    (h : Agree (spec Outside.nothing) () x (Near s) (Same fun _ => Near s) (Near s) m m) :
    Agree (spec Outside.nothing) () x (Near s) (Same fun _ => Near s) (Near s)
      (getSession m) (getSession m) := by
  have hrollback : Agree (spec Outside.nothing) () x (Near s)
      (Same fun (_ : Unit) => Near s) (Near s) (Service.rollback : Op Unit) Service.rollback :=
    Agree.rollback fun _ _ hs => ⟨rfl, hs.rollback⟩
  refine Agree.bind (Agree.attempt h) fun r r' => ?_
  match r, r' with
  | .ok a, .ok b =>
    refine Sim.fact (fun _ _ hs => hs.1) fun e => ?_
    subst e
    refine Agree.bindEq (Sim.pre hrollback fun _ _ hs => hs.2) fun _ => ?_
    exact Agree.pure fun _ _ hs => ⟨rfl, hs⟩
  | .error e, .error e' =>
    refine Sim.fact (fun _ _ hs => hs.1) fun he => ?_
    subst he
    refine Agree.bindEq (Sim.pre hrollback fun _ _ hs => hs.2) fun _ => ?_
    exact Agree.throw _ fun _ _ hs => hs
  | .ok _, .error _ => exact fun _ _ hs => hs.elim
  | .error _, .ok _ => exact fun _ _ hs => hs.elim

end

/-! ## the routes -/

/-- the calls of the seller's own -/
def Invocation.By (s : UUID) : Invocation → Prop
  | .updateOffer _ sl _ _ _ => sl = s
  | .cancelOffer _ sl => sl = s
  | _ => False

theorem agree_handler {s : UUID} {x : Env} {inv : Invocation} (h : inv.By s) :
    Agree (spec Outside.nothing) () x (Near s) (Same fun _ => Near s) (Near s)
      inv.handler inv.handler := by
  cases inv with
  | createOffer sl r t as im ty => exact h.elim
  | setStatus i st => exact h.elim
  | updateOffer i sl t im ty =>
    obtain rfl : sl = s := h
    refine agree_getSession (Agree.bindEq (agree_updateOffer t im ty) fun offer => ?_)
    exact Agree.pure fun _ _ hs => ⟨rfl, hs⟩
  | cancelOffer i sl =>
    obtain rfl : sl = s := h
    refine agree_getSession (Agree.bindEq agree_cancelOffer fun offer => ?_)
    refine Agree.bindEq (agree_reportOfferCount offer.requestID) fun _ => ?_
    exact Agree.pure fun _ _ hs => ⟨rfl, hs⟩

/-- the same answer, and still seen the same -/
def SameAnswer (s : UUID) (r r' : Response × Db) : Prop := r.1 = r'.1 ∧ AsSeen s r.2 r'.2

section
variable {s : UUID} {d d' : Db} {pr : Principal}

theorem writing_same (h : AsSeen s d d') (inv : Invocation) (hinv : inv.By s) (x : Env)
    (ok : Offer → Response) :
    Option.Rel (SameAnswer s) (writing inv x ok d) (writing inv x ok d') := by
  refine rel_map (rel_map (v := fun r r' => r.1 = r'.1 ∧ AsSeen s r.2 r'.2)
    (agree_handler hinv ⟨Store.fresh d, ()⟩ ⟨Store.fresh d', ()⟩ (Alike.fresh h)) ?_) ?_
  · rintro ⟨a, σ⟩ ⟨b, σ'⟩ hab
    match a, b with
    | .ok a, .ok b => exact ⟨congrArg Except.ok hab.1, hab.2.committed⟩
    | .error e, .error e' => exact ⟨congrArg Except.error hab.1, hab.2.committed⟩
    | .ok _, .error _ => exact hab.elim
    | .error _, .ok _ => exact hab.elim
  · rintro ⟨a, e⟩ ⟨b, e'⟩ ⟨rfl, he⟩
    exact ⟨rfl, he⟩

theorem myOffers_same (h : AsSeen s d d') (hr : pr.role = roleSeller)
    (hs : pr.sellerID = .ok s) : myOffers pr d = myOffers pr d' := by
  simp only [myOffers, Principal.require, hr, Principal.resolved, hs, h.listForSeller]

theorem offersForRequest_same (h : AsSeen s d d') (hr : pr.role = roleSeller)
    (hs : pr.sellerID = .ok s) (r : UUID) :
    offersForRequest pr r d = offersForRequest pr r d' := by
  have hrole : ¬(pr.role = roleCustomer ∨ pr.role = roleAdmin) := by
    rw [hr]
    decide
  simp only [offersForRequest, if_neg hrole, Principal.resolved, hs, h.listForRequest]

theorem getOfferRoute_same (h : AsSeen s d d') (hr : pr.role = roleSeller)
    (hs : pr.sellerID = .ok s) (i : UUID) : getOfferRoute pr i d = getOfferRoute pr i d' := by
  have hrole : ¬(pr.role = roleCustomer ∨ pr.role = roleAdmin) := by
    rw [hr]
    decide
  rcases h.find_cases i with ⟨ho, ho'⟩ | ⟨o, -, ho, ho'⟩ | ⟨o, o', -, -, hg, ho, ho'⟩
  · simp only [getOfferRoute, ho, ho']
  · simp only [getOfferRoute, ho, ho']
  · simp only [getOfferRoute, ho, ho', if_neg hrole, Principal.resolved, hs, projectForSeller_eq, hg]

theorem offerImageRoute_same (h : AsSeen s d d') (hr : pr.role = roleSeller)
    (hs : pr.sellerID = .ok s) (i : UUID) (etag : Option String) :
    offerImageRoute pr i etag d = offerImageRoute pr i etag d' := by
  simp only [offerImageRoute, if_pos hr, Principal.resolved, hs]
  rcases h.find_cases i with ⟨ho, ho'⟩ | ⟨o, hos, ho, ho'⟩ | ⟨o, o', hne, hne', -, ho, ho'⟩
  · simp only [ho, ho']
  · have himage := h.findImage ⟨o, ho, hos⟩
    simp only [ho, ho', imageResponse, Db.offerImage, himage]
  · simp only [ho, ho', if_pos hne, if_pos hne']

/-- one call -/
theorem serve_same (h : AsSeen s d d') (hr : pr.role = roleSeller) (hs : pr.sellerID = .ok s)
    (x : Env) (route : Route) :
    Option.Rel (SameAnswer s) (serve pr x route d) (serve pr x route d') := by
  cases route with
  | myOffers => exact .some ⟨myOffers_same h hr hs, h⟩
  | offersForRequest r => exact .some ⟨offersForRequest_same h hr hs r, h⟩
  | getOffer i => exact .some ⟨getOfferRoute_same h hr hs i, h⟩
  | offerImage i etag => exact .some ⟨offerImageRoute_same h hr hs i etag, h⟩
  | updateOffer i body =>
    simp only [serve, updateOfferRoute, if_neg (not_not.mpr hr), hs]
    cases bodyWithImage body with
    | error message => exact .some ⟨rfl, h⟩
    | ok b => exact writing_same h (.updateOffer i s b.1 b.2.1 b.2.2) rfl x _
  | cancelOffer i =>
    simp only [serve, cancelOfferRoute, if_neg (not_not.mpr hr), hs]
    exact writing_same h (.cancelOffer i s) rfl x _

end

/-- **A seller learns nothing about who a rival is.** -/
theorem responses_same {s : UUID} {pr : Principal} (hr : pr.role = roleSeller)
    (hs : pr.sellerID = .ok s) {d d' : Db} (h : Resembles s d d') (calls : List (Route × Env)) :
    responses pr calls d = responses pr calls d' := by
  have hseen : ∀ {d d' : Db}, AsSeen s d d' → responses pr calls d = responses pr calls d' := by
    induction calls with
    | nil => exact fun _ => rfl
    | cons c calls ih =>
      obtain ⟨route, x⟩ := c
      intro d d' h
      have hcall := serve_same h hr hs x route
      simp only [responses]
      cases hd : serve pr x route d with
      | none =>
        cases hd' : serve pr x route d' with
        | none => rfl
        | some r' =>
          rw [hd, hd'] at hcall
          cases hcall
      | some r =>
        cases hd' : serve pr x route d' with
        | none =>
          rw [hd, hd'] at hcall
          cases hcall
        | some r' =>
          rw [hd, hd'] at hcall
          cases hcall with
          | some hrr => exact congrArg₂ List.cons (congrArg some hrr.1) (ih hrr.2)
  exact hseen h.asSeen

/-- an offer of seller 1, and a rival's, with a picture of the rival's if it has one -/
def market (rival : UUID) (description imageType : String) (images : List OfferImage) : Db where
  offers := [⟨10, 1, 7, 5, 900, "EUR", "mine", "", .PENDING, 100, 100⟩,
    ⟨11, rival, 7, 4, 800, "EUR", description, imageType, .PENDING, 101, 150 + rival⟩]
  images := images
  outbox := []

theorem responses_same_in_market :
    responses ⟨roleSeller, .ok 1⟩
        [(.offersForRequest 7, fun _ => ⟨.none, 0, 0, 200, ()⟩),
          (.offerImage 11 none, fun _ => ⟨.none, 0, 0, 200, ()⟩),
          (.cancelOffer 10, fun _ => ⟨.none, 0, 0, 200, ()⟩),
          (.getOffer 11, fun _ => ⟨.none, 0, 0, 200, ()⟩)]
        (market 2 "from Acme" "image/png" [⟨11, [1], 150⟩]) =
      responses ⟨roleSeller, .ok 1⟩
        [(.offersForRequest 7, fun _ => ⟨.none, 0, 0, 200, ()⟩),
          (.offerImage 11 none, fun _ => ⟨.none, 0, 0, 200, ()⟩),
          (.cancelOffer 10, fun _ => ⟨.none, 0, 0, 200, ()⟩),
          (.getOffer 11, fun _ => ⟨.none, 0, 0, 200, ()⟩)]
        (market 3 "" "" []) := by
  refine responses_same (s := 1) rfl rfl ⟨?_, ?_⟩ _
  · exact .cons (.inl rfl) (.cons (.inr ⟨by decide, by decide, rfl⟩) .nil)
  · rintro i ⟨o, ho, hs⟩
    have hi : i = 10 := by
      have hm := List.mem_of_find?_eq_some ho
      have hid := List.find?_some ho
      rcases List.mem_pair.mp hm with rfl | rfl
      · exact (beq_iff_eq.mp hid).symm
      · exact absurd hs (by decide)
    subst hi
    rfl

end Marketplace.Offers
