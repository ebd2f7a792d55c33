import Marketplace.Request.Service

/-!
# request-service: demand and names

What the tables are meant to say, and what the row writes do to it.

* `Derived d pr`     the totals and the status of a row follow from its participants and offers;
* `DemandAt r d`     the request `r` has at most one row, and its columns are derived.  This reads
                     only what the lock of the row protects (`DemandAt.congr`);
* `OffersKept d e`   no `total_offers` changes from `d` to `e`, and new rows start at zero;
* `OneKey d`         no two rows carry the same item key; `inserted` are the names that a list of
                     writes adds.
-/

set_option linter.unusedSectionVars false

namespace Marketplace.Request

open Table ReadCommitted

def Db.rowsOf (d : Db) (r : UUID) : List PurchaseRequest := d.requests.filter (·.requestID == r)

theorem findRequest_none {d : Db} {r : UUID} (h : d.findRequest r = none) : d.rowsOf r = [] := by
  refine List.filter_eq_nil_iff.mpr (fun pr hpr => ?_)
  exact List.find?_eq_none.mp h pr hpr

theorem findRequest_some {d : Db} {r : UUID} {pr : PurchaseRequest}
    (h : d.findRequest r = some pr) : pr ∈ d.rowsOf r :=
  List.mem_filter.mpr ⟨List.mem_of_find?_eq_some h,
    List.find?_some (p := fun x : PurchaseRequest => x.requestID == r) h⟩

theorem rowsOf_id {d : Db} {r : UUID} {pr : PurchaseRequest} (h : pr ∈ d.rowsOf r) :
    pr.requestID = r := by
  simpa using (List.mem_filter.mp h).2

theorem rowsOf_updateRequest (d : Db) (r : UUID) (f : PurchaseRequest → PurchaseRequest)
    (hid : ∀ x, (f x).requestID = x.requestID) :
    (d.updateRequest r f).rowsOf r = (d.rowsOf r).map f := by
  show (updateWhere _ f d.requests).filter _ = _
  rw [filter_updateWhere _ _ _ (fun x _ => by rw [hid])]
  refine List.map_congr_left (fun x hx => ?_)
  rw [if_pos]
  simpa using rowsOf_id hx

/-! ## the derived columns -/

/-- the derived columns of a row say what its participants and its offers say -/
structure Derived (d : Db) (pr : PurchaseRequest) : Prop where
  customers : pr.totalCustomers = d.countParticipants pr.requestID
  quantity : pr.totalQuantity = d.sumQuantity pr.requestID
  status : pr.status = .OPEN ↔ 0 < pr.totalCustomers ∨ 0 < pr.totalOffers

/-- what holds of a row also while its totals are out of date -/
structure RowAt (r : UUID) (d : Db) : Prop where
  one : (d.rowsOf r).length ≤ 1
  offers : ∀ pr ∈ d.rowsOf r, 0 ≤ pr.totalOffers

structure DemandAt (r : UUID) (d : Db) : Prop extends RowAt r d where
  derived : ∀ pr ∈ d.rowsOf r, Derived d pr

section
variable [Postgres]

theorem DemandAt.congr {r : UUID} {d e : Db} (hs : Db.sameUnder (.request r) d e)
    (h : DemandAt r d) : DemandAt r e := by
  obtain ⟨hr, hp, -⟩ := hs
  have hr' : e.rowsOf r = d.rowsOf r := hr.symm
  refine ⟨⟨hr'.symm ▸ h.one, hr'.symm ▸ h.offers⟩, fun pr hpr => ?_⟩
  rw [hr'] at hpr
  obtain ⟨h1, h2, h3⟩ := h.derived pr hpr
  have hid := rowsOf_id hpr
  refine ⟨?_, ?_, h3⟩
  · rw [h1, hid, Db.countParticipants, Db.countParticipants, hp]
  · rw [h2, hid, Db.sumQuantity, Db.sumQuantity, hp]

theorem RowAt.congr {r : UUID} {d e : Db} (hs : Db.sameUnder (.request r) d e)
    (h : RowAt r d) : RowAt r e := by
  have hr : e.rowsOf r = d.rowsOf r := hs.1.symm
  exact ⟨hr.symm ▸ h.one, hr.symm ▸ h.offers⟩

theorem rowsOf_congr {r : UUID} {d e : Db} (hs : Db.sameUnder (.request r) d e) :
    e.rowsOf r = d.rowsOf r := hs.1.symm

end

theorem RowAt.updateRequest {r : UUID} {d : Db} {f : PurchaseRequest → PurchaseRequest}
    (h : RowAt r d) (hid : ∀ x, (f x).requestID = x.requestID)
    (ho : ∀ x, 0 ≤ x.totalOffers → 0 ≤ (f x).totalOffers) : RowAt r (d.updateRequest r f) := by
  constructor
  · rw [rowsOf_updateRequest d r f hid, List.length_map]
    exact h.one
  · rw [rowsOf_updateRequest d r f hid]
    intro pr hpr
    obtain ⟨x, hx, rfl⟩ := List.mem_map.mp hpr
    exact ho x (h.offers x hx)

/-- a new row -/
theorem RowAt.insertRequest {d : Db} {pr : PurchaseRequest} (hn : d.rowsOf pr.requestID = [])
    (ho : 0 ≤ pr.totalOffers) : RowAt pr.requestID (Write.apply (.insertRequest pr) d) := by
  have hrows : (Write.apply (.insertRequest pr) d).rowsOf pr.requestID = [pr] := by
    show (d.requests ++ [pr]).filter _ = _
    rw [List.filter_append]
    show d.rowsOf pr.requestID ++ _ = _
    rw [hn]
    simp
  refine ⟨by rw [hrows]; exact Nat.le_refl 1, fun x hx => ?_⟩
  rw [hrows, List.mem_singleton] at hx
  exact hx ▸ ho

theorem rowsOf_eq_singleton {r : UUID} {d : Db} {pr : PurchaseRequest} (h : RowAt r d)
    (hf : d.findRequest r = some pr) : d.rowsOf r = [pr] := by
  have hm := findRequest_some hf
  match hrows : d.rowsOf r with
  | [] => rw [hrows] at hm; exact absurd hm List.not_mem_nil
  | [x] =>
    rw [hrows, List.mem_singleton] at hm
    rw [hm]
  | x :: y :: zs =>
    have h1 := h.one
    rw [hrows] at h1
    simp at h1

/-- **the recount**: whatever the totals were, afterwards they are derived -/
theorem demandAt_setDemand {r : UUID} {d : Db} (now : Time) (h : RowAt r d) :
    DemandAt r (Write.apply (.setDemand r (d.countParticipants r) (d.sumQuantity r) now) d) := by
  have hrows : (Write.apply (.setDemand r (d.countParticipants r) (d.sumQuantity r) now) d).rowsOf r
      = (d.rowsOf r).map (PurchaseRequest.withDemand (d.countParticipants r) (d.sumQuantity r) now) :=
    rowsOf_updateRequest d r _ (by intro x; rfl)
  refine ⟨h.updateRequest (by intro x; rfl) (fun x hx => hx), fun pr hpr => ?_⟩
  rw [hrows] at hpr
  obtain ⟨x, hx, rfl⟩ := List.mem_map.mp hpr
  have hid := rowsOf_id hx
  have ho := h.offers x hx
  have hn : 0 ≤ d.countParticipants r := Int.natCast_nonneg _
  refine ⟨?_, ?_, ?_⟩
  · show d.countParticipants r = d.countParticipants x.requestID
    rw [hid]
  · show d.sumQuantity r = d.sumQuantity x.requestID
    rw [hid]
  · show (if d.countParticipants r = 0 ∧ x.totalOffers = 0 then Status.INACTIVE else Status.OPEN)
      = .OPEN ↔ 0 < d.countParticipants r ∨ 0 < x.totalOffers
    split
    · rename_i e
      rw [e.1, e.2]
      simp
    · simp only [true_iff]
      omega

/-! ## total_offers -/

/-- the column, with the id of its row -/
def Db.offerCounts (d : Db) : List (UUID × Int) := d.requests.map fun pr => (pr.requestID, pr.totalOffers)

/-- no `total_offers` changes from `d` to `e`; new rows start at zero -/
def OffersKept (d e : Db) : Prop :=
  ∃ opened, e.offerCounts = d.offerCounts ++ opened ∧ ∀ x ∈ opened, x.2 = 0

theorem OffersKept.refl (d : Db) : OffersKept d d := ⟨[], by simp, by simp⟩

theorem OffersKept.trans {a b c : Db} (h : OffersKept a b) (h' : OffersKept b c) :
    OffersKept a c := by
  obtain ⟨n, hn, hz⟩ := h
  obtain ⟨n', hn', hz'⟩ := h'
  refine ⟨n ++ n', by rw [hn', hn, List.append_assoc], fun x hx => ?_⟩
  rcases List.mem_append.mp hx with hx | hx
  · exact hz x hx
  · exact hz' x hx

def Write.KeepsOffers : Write → Prop
  | .setTotalOffers _ _ => False
  | .insertRequest pr => pr.totalOffers = 0
  | _ => True

theorem offerCounts_updateRequest (d : Db) (r : UUID) (f : PurchaseRequest → PurchaseRequest)
    (hid : ∀ x, (f x).requestID = x.requestID) (ho : ∀ x, (f x).totalOffers = x.totalOffers) :
    (d.updateRequest r f).offerCounts = d.offerCounts :=
  map_updateWhere _ f _ (fun x _ => by rw [hid, ho]) d.requests

theorem Write.KeepsOffers.offersKept {w : Write} (h : w.KeepsOffers) (d : Db) :
    OffersKept d (w.apply d) := by
  have same : ∀ {e : Db}, e.offerCounts = d.offerCounts → OffersKept d e :=
    fun he => ⟨[], by rw [he, List.append_nil], by simp⟩
  cases w with
  | insertRequest pr =>
    refine ⟨[(pr.requestID, pr.totalOffers)], List.map_append, fun x hx => ?_⟩
    rw [List.mem_singleton.mp hx]
    exact h
  | setTotalOffers r n => exact absurd h id
  | setDemand r n q now =>
    exact same (offerCounts_updateRequest d r _ (by intro x; rfl) (by intro x; rfl))
  | setImageType r ty now =>
    exact same (offerCounts_updateRequest d r _ (by intro x; rfl) (by intro x; rfl))
  | insertParticipant rp => exact same rfl
  | setQuantity r c q => exact same rfl
  | deleteParticipant r c => exact same rfl
  | setImage ri => exact same rfl
  | insertOutbox row => exact same rfl

/-! ## item names -/

def Db.itemNames (d : Db) : List String := d.requests.map (·.itemName)

/-- the name of a row that a write inserts -/
def Write.inserted : Write → Option String
  | .insertRequest pr => some pr.itemName
  | _ => none

theorem itemNames_updateRequest (d : Db) (r : UUID) (f : PurchaseRequest → PurchaseRequest)
    (hn : ∀ x, (f x).itemName = x.itemName) : (d.updateRequest r f).itemNames = d.itemNames :=
  map_updateWhere _ f _ (fun x _ => hn x) d.requests

theorem itemNames_apply (w : Write) (d : Db) :
    (w.apply d).itemNames = d.itemNames ++ w.inserted.toList := by
  have same : ∀ {e : Db}, e.itemNames = d.itemNames →
      e.itemNames = d.itemNames ++ (none : Option String).toList := by
    intro e he
    rw [he]
    exact (List.append_nil _).symm
  cases w with
  | insertRequest pr => exact List.map_append
  | setDemand r n q now => exact same (itemNames_updateRequest d r _ (by intro x; rfl))
  | setTotalOffers r n => exact same (itemNames_updateRequest d r _ (by intro x; rfl))
  | setImageType r ty now => exact same (itemNames_updateRequest d r _ (by intro x; rfl))
  | insertParticipant rp => exact same rfl
  | setQuantity r c q => exact same rfl
  | deleteParticipant r c => exact same rfl
  | setImage ri => exact same rfl
  | insertOutbox row => exact same rfl

section
variable [Postgres]

/-- a list of writes adds the names it inserts and changes no other -/
theorem itemNames_applyAll (ws : List Write) (d : Db) :
    (applyAll ws d).itemNames = d.itemNames ++ ws.filterMap Write.inserted := by
  induction ws generalizing d with
  | nil => simp [applyAll_nil]
  | cons w ws ih =>
    rw [applyAll_cons, ih, show Schema.apply w d = w.apply d from rfl, itemNames_apply,
      List.append_assoc]
    cases hw : w.inserted with
    | none => simp [hw]
    | some n => simp [hw]

def OneKey (d : Db) : Prop := (d.itemNames.map requestItemKey).Nodup

/-- no row carries the key of the name -/
def Unused (n : String) (d : Db) : Prop :=
  ∀ m ∈ d.namesUnder (itemLock n), requestItemKey m ≠ requestItemKey n

/-- names with one key are under one advisory lock -/
theorem unused_iff {n : String} {d : Db} :
    Unused n d ↔ requestItemKey n ∉ d.itemNames.map requestItemKey := by
  constructor
  · intro h hm
    obtain ⟨m, hm, e⟩ := List.mem_map.mp hm
    refine h m (List.mem_filter.mpr ⟨hm, ?_⟩) e
    simp [itemLock, e]
  · intro h m hm e
    exact h (List.mem_map.mpr ⟨m, (List.mem_filter.mp hm).1, e⟩)

theorem Unused.congr {n : String} {d e : Db} (hs : Db.sameUnder (.item (itemLock n)) d e)
    (h : Unused n d) : Unused n e := by
  have hs' : d.namesUnder (itemLock n) = e.namesUnder (itemLock n) := hs
  intro m hm
  exact h m (hs'.symm ▸ hm)

theorem OneKey.insert {n : String} {d e : Db} (h : OneKey d) (hn : Unused n d)
    (he : e.itemNames = d.itemNames ++ [n]) : OneKey e := by
  unfold OneKey
  rw [he, List.map_append]
  refine List.nodup_append.mpr ⟨h, by simp, fun a ha b hb => ?_⟩
  rintro rfl
  simp only [List.map_cons, List.map_nil, List.mem_singleton] at hb
  exact unused_iff.mp hn (hb ▸ ha)

/-! ## writes on one request -/

/-- writes on the request `r` only put rows of `r` behind those of the others -/
theorem requests_split {r : UUID} {w : Write} {d : Db} {others : List PurchaseRequest}
    (hw : ∀ r', Lock.request r' ∈ w.guards → r' = r)
    (ho : ∀ pr ∈ others, pr.requestID ≠ r)
    (h : ∃ mine, d.requests = others ++ mine ∧ ∀ pr ∈ mine, pr.requestID = r) :
    ∃ mine, (w.apply d).requests = others ++ mine ∧ ∀ pr ∈ mine, pr.requestID = r := by
  obtain ⟨mine, hd, hm⟩ := h
  have upd : ∀ (f : PurchaseRequest → PurchaseRequest), (∀ x, (f x).requestID = x.requestID) →
      ∃ mine, (d.updateRequest r f).requests = others ++ mine ∧ ∀ pr ∈ mine, pr.requestID = r := by
    intro f hid
    refine ⟨updateWhere (·.requestID == r) f mine, ?_, fun pr hpr => ?_⟩
    · show updateWhere _ f d.requests = _
      rw [hd, updateWhere_append, updateWhere_eq_self _ f others]
      intro x hx
      simpa using ho x hx
    · obtain ⟨x, hx, rfl⟩ := mem_updateWhere.mp hpr
      split
      · rw [hid]; exact hm x hx
      · exact hm x hx
  cases w with
  | insertRequest pr =>
    have hr : pr.requestID = r := hw _ (by simp [Write.guards])
    refine ⟨mine ++ [pr], ?_, fun x hx => ?_⟩
    · show d.requests ++ [pr] = _
      rw [hd, List.append_assoc]
    · rcases List.mem_append.mp hx with hx | hx
      · exact hm x hx
      · rw [List.mem_singleton.mp hx]; exact hr
  | setDemand r' n q now =>
    obtain rfl : r' = r := hw _ (by simp [Write.guards])
    exact upd _ (by intro x; rfl)
  | setTotalOffers r' n =>
    obtain rfl : r' = r := hw _ (by simp [Write.guards])
    exact upd _ (by intro x; rfl)
  | setImageType r' ty now =>
    obtain rfl : r' = r := hw _ (by simp [Write.guards])
    exact upd _ (by intro x; rfl)
  | insertParticipant rp => exact ⟨mine, hd, hm⟩
  | setQuantity r c q => exact ⟨mine, hd, hm⟩
  | deleteParticipant r c => exact ⟨mine, hd, hm⟩
  | setImage ri => exact ⟨mine, hd, hm⟩
  | insertOutbox row => exact ⟨mine, hd, hm⟩

/-- where there was no row of `r`, writes on `r` leave the rows of the others in front -/
theorem requests_applyAll {r : UUID} {ws : List Write} {d : Db}
    (hw : ∀ w ∈ ws, ∀ r', Lock.request r' ∈ w.guards → r' = r) (hn : d.rowsOf r = []) :
    (applyAll ws d).requests = d.requests ++ (applyAll ws d).rowsOf r := by
  have ho : ∀ pr ∈ d.requests, pr.requestID ≠ r := by
    intro pr hpr e
    have : pr ∈ d.rowsOf r := List.mem_filter.mpr ⟨hpr, by simpa using e⟩
    rw [hn] at this
    exact absurd this List.not_mem_nil
  have key : ∀ (ws : List Write) (e : Db), (∀ w ∈ ws, ∀ r', Lock.request r' ∈ w.guards → r' = r) →
      (∃ mine, e.requests = d.requests ++ mine ∧ ∀ pr ∈ mine, pr.requestID = r) →
      ∃ mine, (applyAll ws e).requests = d.requests ++ mine ∧ ∀ pr ∈ mine, pr.requestID = r := by
    intro ws
    induction ws with
    | nil => exact fun e _ h => h
    | cons w ws ih =>
      intro e hws h
      exact ih _ (fun v hv => hws v (List.mem_cons_of_mem _ hv))
        (requests_split (hws w List.mem_cons_self) ho h)
  obtain ⟨mine, he, hm⟩ := key ws d hw ⟨[], by simp, by simp⟩
  have hmine : (applyAll ws d).rowsOf r = mine := by
    unfold Db.rowsOf
    rw [he, List.filter_append]
    show d.rowsOf r ++ _ = _
    rw [hn, List.nil_append]
    exact List.filter_eq_self.mpr (fun pr hpr => by simpa using hm pr hpr)
  rw [hmine]
  exact he

end

end Marketplace.Request
