import Marketplace.Offers.Store

/-!
# offer-service: the migration 0003

It cancels offers, and then builds the partial unique index that lets a seller have one live offer on a
request.

* `Row`, `Table`     the table offer as the migration 0001 made it;
* `keep`             the subquery: the live offer of the seller on the request that is kept;
* `upgrade`          the UPDATE and the index;
* `Applies`          what the migration is for: the index is built, whoever had a live offer still has
                     one, what was decided stays, and the newest offer is the one that is kept;
* `upgrade_applies_iff`   **it does this exactly if no seller has two APPROVED offers on one request**;
* `upgrade_twice_approved`   with two of them the index cannot be built.
-/

namespace Marketplace.Offers.OneLive

open Table

/-- a row of offer -/
structure Row where
  offerID : UUID
  sellerID : UUID
  requestID : UUID
  availableQuantity : Int
  pricePerUnit : Int
  currency : String
  description : String
  status : OfferStatus
  createdAt : Time
  updatedAt : Time
  deriving DecidableEq, Repr

/-- the rows under the primary key -/
structure Table where
  rows : List Row
  key : (rows.map (·.offerID)).Nodup

/-- the offers of a seller on a request -/
def offersBy (t : List Row) (s r : UUID) : List Row :=
  t.filter fun o => o.sellerID == s && o.requestID == r

def liveBy (t : List Row) (s r : UUID) : List Row := (offersBy t s r).filter (·.status.live)

def approvedBy (t : List Row) (s r : UUID) : List Row :=
  (offersBy t s r).filter (·.status == .APPROVED)

/-! ## the migration -/

/-- `ORDER BY (keep.status = 'APPROVED') DESC, keep.created_at DESC, keep.offer_id` -/
def precedes (a b : Row) : Bool :=
  if (a.status == .APPROVED) != (b.status == .APPROVED) then a.status == .APPROVED
  else if a.createdAt ≠ b.createdAt then b.createdAt < a.createdAt
  else a.offerID < b.offerID

def keep (t : List Row) (s r : UUID) : Option Row := firstBy precedes (liveBy t s r)

/-- the WHERE of the UPDATE; the subquery sees the table as it was before -/
def outlived (t : List Row) (o : Row) : Bool :=
  o.status == .PENDING &&
    match keep t o.sellerID o.requestID with
    | some k => o.offerID != k.offerID
    -- `offer_id <> NULL`
    | none => false

def cancelled (now : Time) (o : Row) : Row := { o with status := .CANCELLED, updatedAt := now }

def cancelOthers (now : Time) (t : List Row) : List Row :=
  updateWhere (outlived t) (cancelled now) t

/-- `idx_offer_one_live_per_seller_request` -/
def createIndex (t : List Row) : Option (List Row) :=
  if t.all fun o => (liveBy t o.sellerID o.requestID).length ≤ 1 then some t else none

def upgrade (now : Time) (t : List Row) : Option (List Row) := createIndex (cancelOthers now t)

/-! ## what it is for -/

structure Applies (now : Time) (t : List Row) : Prop where
  built : upgrade now t = some (cancelOthers now t)
  one : ∀ s r, (liveBy (cancelOthers now t) s r).length ≤ 1
  /-- who had a live offer still has one -/
  kept : ∀ s r, liveBy t s r ≠ [] → liveBy (cancelOthers now t) s r ≠ []
  /-- only PENDING offers are touched -/
  decided : ∀ o ∈ t, o.status ≠ .PENDING → o ∈ cancelOthers now t
  only : (cancelOthers now t).map (·.offerID) = t.map (·.offerID)
  /-- without an APPROVED offer the newest is kept -/
  newest : ∀ s r, approvedBy t s r = [] → ∀ o ∈ liveBy (cancelOthers now t) s r,
    ∀ o' ∈ liveBy t s r, o'.createdAt ≤ o.createdAt

section
variable {now : Time} {t : List Row} {s r : UUID} {o : Row}

theorem mem_offersBy : o ∈ offersBy t s r ↔ o ∈ t ∧ o.sellerID = s ∧ o.requestID = r := by
  simp [offersBy]

theorem mem_liveBy : o ∈ liveBy t s r ↔
    (o ∈ t ∧ o.sellerID = s ∧ o.requestID = r) ∧ o.status.live = true := by
  rw [liveBy, List.mem_filter, mem_offersBy]

theorem mem_approvedBy : o ∈ approvedBy t s r ↔
    (o ∈ t ∧ o.sellerID = s ∧ o.requestID = r) ∧ o.status = .APPROVED := by
  rw [approvedBy, List.mem_filter, mem_offersBy, beq_iff_eq]

theorem approved_live (h : o ∈ approvedBy t s r) : o ∈ liveBy t s r := by
  obtain ⟨h, ha⟩ := mem_approvedBy.mp h
  refine mem_liveBy.mpr ⟨h, ?_⟩
  rw [ha]
  rfl

/-! ## the order -/

theorem precedes_asymm (a b : Row) (h : precedes a b = true) : precedes b a = false := by
  unfold precedes at h ⊢
  generalize (a.status == .APPROVED) = x at h ⊢
  generalize (b.status == .APPROVED) = y at h ⊢
  cases x <;> cases y <;> simp at h ⊢ <;> grind

theorem precedes_neg (a b c : Row) (h : precedes a b = false) (h' : precedes b c = false) :
    precedes a c = false := by
  unfold precedes at h h' ⊢
  generalize (a.status == .APPROVED) = x at h h' ⊢
  generalize (b.status == .APPROVED) = y at h h' ⊢
  generalize (c.status == .APPROVED) = z at h h' ⊢
  cases x <;> cases y <;> cases z <;> simp at h h' ⊢ <;> grind

theorem keep_mem (h : keep t s r = some o) : o ∈ liveBy t s r := firstBy_mem h

theorem keep_least (h : keep t s r = some o) {o' : Row} (ho : o' ∈ liveBy t s r) :
    precedes o' o = false := firstBy_least precedes_asymm precedes_neg h ho

theorem keep_some (h : o ∈ liveBy t s r) : ∃ k, keep t s r = some k := by
  cases hk : keep t s r with
  | some k => exact ⟨k, rfl⟩
  | none =>
    rw [firstBy_none hk] at h
    exact absurd h List.not_mem_nil

/-- an APPROVED offer comes before every other one -/
theorem keep_approved (h : keep t s r = some o) (ha : approvedBy t s r ≠ []) :
    o.status = .APPROVED := by
  obtain ⟨a, ha⟩ := List.exists_mem_of_ne_nil _ ha
  have hlt := keep_least h (approved_live ha)
  have hs := (mem_approvedBy.mp ha).2
  by_contra hne
  rw [precedes, hs] at hlt
  simp [hne] at hlt

/-- otherwise the newest one does -/
theorem keep_newest (h : keep t s r = some o) (ha : approvedBy t s r = []) {o' : Row}
    (ho : o' ∈ liveBy t s r) : o'.createdAt ≤ o.createdAt := by
  have hnot : ∀ x ∈ liveBy t s r, x.status ≠ .APPROVED := by
    intro x hx hs
    have hmem := mem_approvedBy.mpr ⟨(mem_liveBy.mp hx).1, hs⟩
    rw [ha] at hmem
    exact absurd hmem List.not_mem_nil
  have hlt := keep_least h ho
  rw [precedes, beq_eq_false_iff_ne.mpr (hnot _ ho), beq_eq_false_iff_ne.mpr (hnot _ (keep_mem h))]
    at hlt
  refine Nat.le_of_not_lt fun hgt => ?_
  have hne : o'.createdAt ≠ o.createdAt := Nat.ne_of_gt hgt
  simp only [bne_self_eq_false, Bool.false_eq_true, if_false, ne_eq, hne, not_false_eq_true,
    if_true, decide_eq_false_iff_not] at hlt
  exact hlt hgt

/-! ## the rows after the UPDATE -/

theorem outlived_iff {k : Row} (hk : keep t o.sellerID o.requestID = some k) :
    outlived t o = true ↔ o.status = .PENDING ∧ o.offerID ≠ k.offerID := by
  simp [outlived, hk]

/-- what is live after the UPDATE was live before, and was not cancelled -/
theorem mem_live_after : o ∈ liveBy (cancelOthers now t) s r ↔
    o ∈ liveBy t s r ∧ outlived t o = false := by
  rw [mem_liveBy, mem_liveBy, cancelOthers, mem_updateWhere]
  constructor
  · rintro ⟨⟨⟨x, hx, rfl⟩, hs, hr⟩, hl⟩
    cases hc : outlived t x with
    | true =>
      rw [hc] at hl
      cases hl
    | false =>
      simp only [hc, Bool.false_eq_true, if_false] at hs hr hl ⊢
      exact ⟨⟨⟨hx, hs, hr⟩, hl⟩, trivial⟩
  · rintro ⟨⟨⟨hx, hs, hr⟩, hl⟩, hc⟩
    refine ⟨⟨⟨o, hx, ?_⟩, hs, hr⟩, hl⟩
    simp [hc]

/-- what is live after the UPDATE: the offer that is kept, and APPROVED ones -/
theorem live_after {k : Row} (hk : keep t s r = some k) (h : o ∈ liveBy (cancelOthers now t) s r) :
    o.status = .APPROVED ∨ o.offerID = k.offerID := by
  obtain ⟨hl, hc⟩ := mem_live_after.mp h
  obtain ⟨⟨-, rfl, rfl⟩, hlive⟩ := mem_liveBy.mp hl
  have hnot : ¬(o.status = .PENDING ∧ o.offerID ≠ k.offerID) := fun hn => by
    rw [(outlived_iff hk).mpr hn] at hc
    cases hc
  cases hs : o.status with
  | APPROVED => exact .inl rfl
  | PENDING => exact .inr (by_contra fun hne => hnot ⟨hs, hne⟩)
  | REJECTED =>
    rw [hs] at hlive
    cases hlive
  | CANCELLED =>
    rw [hs] at hlive
    cases hlive

/-- the offer that is kept stays as it is -/
theorem keep_stays {k : Row} (hk : keep t s r = some k) : k ∈ liveBy (cancelOthers now t) s r := by
  refine mem_live_after.mpr ⟨keep_mem hk, Bool.eq_false_iff.mpr fun h => ?_⟩
  obtain ⟨⟨-, hs, hr⟩, -⟩ := mem_liveBy.mp (keep_mem hk)
  rw [← hs, ← hr] at hk
  exact ((outlived_iff hk).mp h).2 rfl

theorem approved_after : approvedBy (cancelOthers now t) s r = approvedBy t s r := by
  have hsame : ∀ x : Row, outlived t x = true →
      (cancelled now x).status = .CANCELLED ∧ x.status = .PENDING := by
    intro x hx
    have hp : x.status = .PENDING := by
      simp only [outlived, Bool.and_eq_true, beq_iff_eq] at hx
      exact hx.1
    exact ⟨rfl, hp⟩
  unfold approvedBy offersBy cancelOthers
  rw [List.filter_filter, List.filter_filter, filter_updateWhere]
  · refine updateWhere_eq_self _ _ _ fun x hx => Bool.eq_false_iff.mpr fun hc => ?_
    have ha := (List.mem_filter.mp hx).2
    rw [(hsame x hc).2] at ha
    cases ha
  · intro x hc
    rw [(hsame x hc).1, (hsame x hc).2]
    rfl

/-- at most one is live if at most one was APPROVED -/
theorem one_live (hkey : (t.map (·.offerID)).Nodup) (h : (approvedBy t s r).length ≤ 1) :
    (liveBy (cancelOthers now t) s r).length ≤ 1 := by
  cases hk : keep t s r with
  | none =>
    have hnil : liveBy (cancelOthers now t) s r = [] := by
      refine List.eq_nil_iff_forall_not_mem.mpr fun o ho => ?_
      have hl := (mem_live_after.mp ho).1
      rw [firstBy_none hk] at hl
      exact List.not_mem_nil hl
    rw [hnil]
    exact Nat.zero_le 1
  | some k =>
    -- they are all the one that is kept
    have hsame : ∀ o ∈ liveBy (cancelOthers now t) s r, o = k := by
      intro o ho
      have hl := (mem_live_after.mp ho).1
      have hmem := (mem_liveBy.mp hl).1
      have hkmem := (mem_liveBy.mp (keep_mem hk)).1
      rcases live_after hk ho with ha | hid
      · have hao : o ∈ approvedBy t s r := mem_approvedBy.mpr ⟨hmem, ha⟩
        have hka : k ∈ approvedBy t s r :=
          mem_approvedBy.mpr ⟨hkmem, keep_approved hk (List.ne_nil_of_mem hao)⟩
        rw [eq_singleton h hao, List.mem_singleton] at hka
        exact hka.symm
      · exact List.inj_on_of_nodup_map hkey hmem.1 hkmem.1 hid
    have hnd : (liveBy (cancelOthers now t) s r).Nodup := by
      have hafter : ((cancelOthers now t).map (·.offerID)).Nodup := by
        rw [cancelOthers, map_updateWhere _ _ _ (by intro x _; rfl)]
        exact hkey
      exact ((List.Nodup.of_map _ hafter).filter _).filter _
    match hl : liveBy (cancelOthers now t) s r with
    | [] => exact Nat.zero_le 1
    | [o] => exact Nat.le_refl 1
    | o :: o' :: rest =>
      rw [hl] at hsame hnd
      have heq : o = o' := (hsame o List.mem_cons_self).trans
        (hsame o' (List.mem_cons_of_mem _ List.mem_cons_self)).symm
      exact absurd (heq ▸ List.mem_cons_self) (List.nodup_cons.mp hnd).1

theorem createIndex_iff {u : List Row} :
    createIndex u = some u ↔ ∀ s r, (liveBy u s r).length ≤ 1 := by
  have hall : createIndex u = some u ↔
      (u.all fun o => (liveBy u o.sellerID o.requestID).length ≤ 1) = true := by
    unfold createIndex
    split
    · rename_i h
      exact ⟨fun _ => h, fun _ => rfl⟩
    · rename_i h
      exact ⟨(fun e => nomatch e), fun e => absurd e h⟩
  rw [hall, List.all_eq_true]
  constructor
  · intro h s r
    cases hl : liveBy u s r with
    | nil => exact Nat.zero_le 1
    | cons o rest =>
      have ho : o ∈ liveBy u s r := by
        rw [hl]
        exact List.mem_cons_self
      obtain ⟨⟨hmem, rfl, rfl⟩, -⟩ := mem_liveBy.mp ho
      rw [← hl]
      exact of_decide_eq_true (h o hmem)
  · exact fun h o _ => decide_eq_true (h _ _)

end

/-- **The migration 0003 does what it is for exactly if no seller has two APPROVED offers on one
request.** -/
theorem upgrade_applies_iff (t : Table) (now : Time) :
    Applies now t.rows ↔ ∀ s r, (approvedBy t.rows s r).length ≤ 1 := by
  constructor
  · intro h s r
    refine Nat.le_trans ?_ (h.one s r)
    have hafter : approvedBy (cancelOthers now t.rows) s r = approvedBy t.rows s r := approved_after
    rw [← hafter, approvedBy, liveBy]
    refine (List.monotone_filter_right _ fun x hx => ?_).length_le
    rw [beq_iff_eq.mp hx]
    rfl
  · intro h
    have hone : ∀ s r, (liveBy (cancelOthers now t.rows) s r).length ≤ 1 :=
      fun s r => one_live t.key (h s r)
    refine ⟨createIndex_iff.mpr hone, hone, fun s r hne => ?_, fun o ho hs => ?_, ?_,
      fun s r ha o ho o' ho' => ?_⟩
    · obtain ⟨o, ho⟩ := List.exists_mem_of_ne_nil _ hne
      obtain ⟨k, hk⟩ := keep_some ho
      exact List.ne_nil_of_mem (keep_stays hk)
    · refine mem_updateWhere.mpr ⟨o, ho, ?_⟩
      simp [outlived, hs]
    · exact map_updateWhere _ _ _ (by intro x _; rfl) _
    · obtain ⟨k, hk⟩ := keep_some ho'
      have hok : o = k := by
        have hkeep : k ∈ liveBy (cancelOthers now t.rows) s r := keep_stays hk
        rw [eq_singleton (hone s r) ho, List.mem_singleton] at hkeep
        exact hkeep.symm
      rw [hok]
      exact keep_newest hk ha ho'

/-- a seller with two APPROVED offers on one request: `set_status` looks at one offer alone -/
def twiceApproved : Table where
  rows := [⟨1, 4, 5, 10, 250, "EUR", "", .APPROVED, 0, 3⟩, ⟨2, 4, 5, 20, 240, "EUR", "", .APPROVED, 1, 4⟩]
  key := by decide

theorem upgrade_twice_approved :
    upgrade 9 twiceApproved.rows = none ∧ ¬Applies 9 twiceApproved.rows := by
  have hfails : upgrade 9 twiceApproved.rows = none := by decide
  refine ⟨hfails, fun h => ?_⟩
  have hbuilt := h.built
  rw [hfails] at hbuilt
  cases hbuilt

end Marketplace.Offers.OneLive
