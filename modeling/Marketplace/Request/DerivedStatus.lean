import Marketplace.Request.Demand

/-!
# request-service: the migration 000007

It makes the status follow from the participants.

* `OldStatus`        the five statuses that a request had, and the one that is new;
* `Before`           the tables under the constraints of the migrations 000001 to 000006;
* `up`               the UPDATE, under the CHECK that is still there, and then the exchange of the CHECK;
* `Row.current`      a row as the service reads it from then on, with `total_offers` 0;
* `Follows`          the status is the one that `RecalculateDemand` derives;
* `up_follows_iff`   **the migration achieves this exactly if every request has a participant**;
* `up_abandoned`     an OPEN request that everybody has left stays OPEN, and any other one cannot be
                     made INACTIVE: the old CHECK does not know the status.
-/

namespace Marketplace.Request.DerivedStatus

open Table

inductive OldStatus where
  | OPEN
  | OFFER_PENDING
  | OFFER_APPROVED
  | CLOSED
  | CANCELLED
  | INACTIVE
  deriving DecidableEq, Repr

/-- a row of purchase_request -/
structure Row where
  requestID : UUID
  itemName : String
  description : String
  category : String
  status : OldStatus
  totalCustomers : Int
  totalQuantity : Int
  createdAt : Time
  updatedAt : Time
  createdBy : Option UUID
  deriving DecidableEq, Repr

structure Tables where
  requests : List Row
  participants : List RequestParticipant
  deriving DecidableEq, Repr

def Tables.participantsOf (t : Tables) (r : UUID) : List RequestParticipant :=
  t.participants.filter (·.requestID == r)

/-! ## the CHECK constraints -/

/-- `purchase_request_item_name_not_blank` and `purchase_request_totals_non_negative` -/
def Row.checks (row : Row) : Bool :=
  0 < (btrim row.itemName.toList).length && (0 ≤ row.totalCustomers && 0 ≤ row.totalQuantity)

/-- `purchase_request_status_valid` of 000001 -/
def Row.statusValid (row : Row) : Bool :=
  [OldStatus.OPEN, .OFFER_PENDING, .OFFER_APPROVED, .CLOSED, .CANCELLED].contains row.status

/-- `purchase_request_status_valid` of 000007 -/
def Row.statusDerived (row : Row) : Bool := [OldStatus.OPEN, .INACTIVE].contains row.status

/-- the tables before the migration -/
structure Before extends Tables where
  key : (requests.map (·.requestID)).Nodup
  checked : ∀ row ∈ requests, row.checks = true ∧ row.statusValid = true
  references : ∀ rp ∈ participants, ∃ row ∈ requests, row.requestID = rp.requestID
  once : (participants.map fun rp => (rp.requestID, rp.customerID)).Nodup
  positive : ∀ rp ∈ participants, 0 < rp.quantity

/-! ## the migration -/

def Tables.derived (t : Tables) (row : Row) : Row :=
  { row with status := if (t.participantsOf row.requestID).length = 0 then .INACTIVE else .OPEN }

/-- `UPDATE purchase_request pr SET status = CASE .. END WHERE pr.status <> 'OPEN'`: a row that
breaks a CHECK fails the statement -/
def updateStatus (t : Tables) : Option Tables :=
  let requests := updateWhere (fun row => row.status != .OPEN) t.derived t.requests
  if requests.all fun row => row.checks && row.statusValid then some { t with requests := requests }
  else none

/-- `DROP CONSTRAINT` and `ADD CONSTRAINT`, which looks at every row -/
def exchangeCheck (t : Tables) : Option Tables :=
  if t.requests.all Row.statusDerived then some t else none

def up (t : Tables) : Option Tables := updateStatus t >>= exchangeCheck

/-! ## the service from then on -/

def OldStatus.current : OldStatus → Option Status
  | .OPEN => some .OPEN
  | .INACTIVE => some .INACTIVE
  | _ => none

/-- the row under the later migrations -/
def Row.current (row : Row) (status : Status) : PurchaseRequest where
  requestID := row.requestID
  itemName := row.itemName
  description := row.description
  category := row.category
  status := status
  totalCustomers := row.totalCustomers
  totalQuantity := row.totalQuantity
  createdAt := row.createdAt
  updatedAt := row.updatedAt
  createdBy := row.createdBy
  totalOffers := 0
  imageType := ""

/-- every status is one that the service knows, and the one that `RecalculateDemand` would set -/
structure Follows (t : Tables) : Prop where
  check : t.requests.all Row.statusDerived = true
  status : ∀ row ∈ t.requests, ∃ st, row.status.current = some st ∧ ∀ quantity now,
    ((row.current st).withDemand (t.participantsOf row.requestID).length quantity now).status = st
  opened : ∀ row ∈ t.requests, row.status = .OPEN ↔ t.participantsOf row.requestID ≠ []

section
variable {t : Tables} {row : Row}

/-- what `RecalculateDemand` derives without offers -/
theorem withDemand_status (st : Status) (n quantity : Int) (now : Time) :
    ((row.current st).withDemand n quantity now).status = if n = 0 then .INACTIVE else .OPEN := by
  show (if n = 0 ∧ (0 : Int) = 0 then Status.INACTIVE else .OPEN) = _
  simp

theorem follows_of (h : ∀ row ∈ t.requests,
    row.status = if (t.participantsOf row.requestID).length = 0 then .INACTIVE else .OPEN) :
    Follows t := by
  refine ⟨List.all_eq_true.mpr fun row hrow => ?_, fun row hrow => ?_, fun row hrow => ?_⟩
  · rw [Row.statusDerived, h row hrow]
    split <;> rfl
  · by_cases hn : (t.participantsOf row.requestID).length = 0
    · refine ⟨.INACTIVE, ?_, fun quantity now => ?_⟩
      · rw [h row hrow, if_pos hn]
        rfl
      · rw [withDemand_status, hn]
        rfl
    · refine ⟨.OPEN, ?_, fun quantity now => ?_⟩
      · rw [h row hrow, if_neg hn]
        rfl
      · rw [withDemand_status, if_neg (by omega)]
  · rw [h row hrow, ← List.length_pos_iff]
    split
    · rename_i hn
      simp [hn]
    · rename_i hn
      simp [Nat.pos_of_ne_zero hn]

/-- an UPDATE that goes through leaves no INACTIVE row -/
theorem updateStatus_valid {u : Tables} (h : updateStatus t = some u) :
    (∀ row ∈ u.requests, row.statusValid = true) ∧ u.participants = t.participants ∧
      u.requests = updateWhere (fun row => row.status != .OPEN) t.derived t.requests := by
  simp only [updateStatus] at h
  split at h
  · rename_i hall
    cases h
    refine ⟨fun row hrow => ?_, rfl, rfl⟩
    have hrow := List.all_eq_true.mp hall row hrow
    exact (Bool.and_eq_true_iff.mp hrow).2
  · cases h

theorem exchangeCheck_eq {u : Tables} (h : exchangeCheck t = some u) : u = t := by
  unfold exchangeCheck at h
  split at h
  · exact (Option.some.inj h).symm
  · cases h

theorem statusValid_ne (h : row.statusValid = true) : row.status ≠ .INACTIVE := by
  intro he
  rw [Row.statusValid, he] at h
  cases h

theorem derived_checks (h : row.checks = true) : (t.derived row).checks = true := h

end

/-- **The migration 000007 makes every status the derived one exactly if every request has a
participant.** -/
theorem up_follows_iff (t : Before) :
    (∃ u, up t.toTables = some u ∧ Follows u) ↔
      ∀ row ∈ t.requests, t.participantsOf row.requestID ≠ [] := by
  constructor
  · rintro ⟨u, hu, hf⟩ row hrow hnil
    obtain ⟨u', hupd, hex⟩ := Option.bind_eq_some_iff.mp hu
    obtain rfl := exchangeCheck_eq hex
    obtain ⟨hvalid, hpart, hreq⟩ := updateStatus_valid hupd
    -- the row after the UPDATE
    have hafter : (if row.status != .OPEN then t.derived row else row) ∈ u.requests := by
      rw [hreq]
      exact List.mem_map_of_mem hrow
    by_cases hs : row.status = .OPEN
    · simp only [hs, bne_self_eq_false, Bool.false_eq_true, if_false] at hafter
      refine (hf.opened row hafter).mp hs ?_
      rw [Tables.participantsOf, hpart]
      exact hnil
    · have hne : (row.status != .OPEN) = true := bne_iff_ne.mpr hs
      rw [if_pos hne] at hafter
      refine statusValid_ne (hvalid _ hafter) ?_
      rw [Tables.derived, hnil]
      rfl
  · intro h
    have hopen : ∀ row ∈ updateWhere (fun row => row.status != .OPEN) t.derived t.requests,
        row.status = .OPEN ∧ row.checks = true ∧ t.participantsOf row.requestID ≠ [] := by
      intro row hrow
      obtain ⟨old, hold, rfl⟩ := mem_updateWhere.mp hrow
      have hlen : (t.participantsOf old.requestID).length ≠ 0 := fun hn =>
        h old hold (List.length_eq_zero_iff.mp hn)
      split
      · exact ⟨if_neg hlen, derived_checks (t.checked old hold).1, h old hold⟩
      · rename_i hs
        exact ⟨by simpa using hs, (t.checked old hold).1, h old hold⟩
    let u : Tables :=
      { t.toTables with
        requests := updateWhere (fun row => row.status != .OPEN) t.derived t.requests }
    have hupd : updateStatus t.toTables = some u := by
      refine if_pos (List.all_eq_true.mpr fun row hrow => ?_)
      obtain ⟨hs, hc, -⟩ := hopen row hrow
      rw [hc, Row.statusValid, hs]
      rfl
    have hfollows : Follows u := by
      refine follows_of fun row hrow => ?_
      obtain ⟨hs, -, hne⟩ := hopen row hrow
      have hlen : (t.participantsOf row.requestID).length ≠ 0 := fun hn =>
        hne (List.length_eq_zero_iff.mp hn)
      rw [hs]
      exact (if_neg hlen).symm
    refine ⟨u, ?_, hfollows⟩
    rw [up, hupd]
    exact if_pos hfollows.check

/-- a request that its last participant has left -/
def abandoned (status : OldStatus) : Row :=
  ⟨1, "Espresso Machine", "", "", status, 0, 0, 0, 0, some 7⟩

def alone (row : Row) (h : row.checks = true ∧ row.statusValid = true) : Before where
  requests := [row]
  participants := []
  key := List.nodup_singleton _
  checked _ hrow := List.mem_singleton.mp hrow ▸ h
  references _ hrp := absurd hrp List.not_mem_nil
  once := List.nodup_nil
  positive _ hrp := absurd hrp List.not_mem_nil

def leftOpen : Before := alone (abandoned .OPEN) (by decide)

def leftClosed : Before := alone (abandoned .CLOSED) (by decide)

theorem up_abandoned :
    up leftOpen.toTables = some leftOpen.toTables ∧ ¬Follows leftOpen.toTables ∧
      up leftClosed.toTables = none := by
  refine ⟨by decide, fun h => ?_, by decide⟩
  have hrow := (h.opened _ (List.mem_singleton_self _)).mp rfl
  exact hrow rfl

end Marketplace.Request.DerivedStatus
