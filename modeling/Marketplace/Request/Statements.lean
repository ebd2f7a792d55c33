import Marketplace.Request.Store

/-!
# request-service: the statements of `queries/requests.sql`

`Stmt` lists them, `Row` is what each returns, `stmt` what it does in the transaction of the
process `p`.  A statement waits (`none`) while somebody else holds a lock it takes, and then
reads afresh.  `RecalculateDemand` is only ever issued under the lock of the request's row, so
it never waits between its reading of the participants and its update.
-/

set_option linter.unusedSectionVars false

namespace Marketplace.Request

open Table Events ReadCommitted Service

inductive Stmt where
  | lockItemName (itemName : String)
  | findRequestByItemName (itemName : String)
  | createRequest (itemName description category : String) (createdBy : Option UUID)
  | addParticipant (requestID customerID : UUID) (quantity : Int)
  | getParticipant (requestID customerID : UUID)
  | updateParticipantQuantity (requestID customerID : UUID) (quantity : Int)
  | deleteParticipant (requestID customerID : UUID)
  | lockRequest (requestID : UUID)
  | recalculateDemand (requestID : UUID)
  | setOfferCount (requestID : UUID) (totalOffers : Int)
  | setRequestImage (requestID : UUID) (imageData : Bytes)
  | setRequestImageType (requestID : UUID) (imageType : String)
  | insertOutbox (routingKey : RoutingKey) (notifications : List Notification)

@[reducible]
def Row : Stmt → Type
  | .lockItemName _ => Unit
  | .findRequestByItemName _ => PurchaseRequest
  | .createRequest _ _ _ _ => PurchaseRequest
  | .addParticipant _ _ _ => RequestParticipant
  | .getParticipant _ _ => RequestParticipant
  | .updateParticipantQuantity _ _ _ => RequestParticipant
  | .deleteParticipant _ _ => Nat
  | .lockRequest _ => PurchaseRequest
  | .recalculateDemand _ => PurchaseRequest
  | .setOfferCount _ _ => Unit
  | .setRequestImage _ _ => Unit
  | .setRequestImageType _ _ => Unit
  | .insertOutbox _ _ => Unit

/-- `ORDER BY (status = 'OPEN') DESC, created_at, request_id` -/
def PurchaseRequest.precedes (a b : PurchaseRequest) : Bool :=
  if a.status ≠ b.status then a.status = .OPEN
  else if a.createdAt ≠ b.createdAt then a.createdAt < b.createdAt
  else a.requestID < b.requestID

/-- the row that `CreateRequest` inserts: the columns it names, and the defaults of the others -/
def PurchaseRequest.new (id : UUID) (itemName description category : String)
    (createdBy : Option UUID) (now : Time) : PurchaseRequest where
  requestID := id
  itemName := itemName
  description := description
  category := category
  status := .OPEN
  totalCustomers := 0
  totalQuantity := 0
  createdAt := now
  updatedAt := now
  createdBy := createdBy
  totalOffers := 0
  imageType := ""

/-- the largest value of an INTEGER column -/
def maxInt32 : Int := 2147483647

/-- CHECK of purchase_request.image_type -/
def imageTypes : List String := ["", "image/jpeg", "image/png", "image/webp"]

section
variable [Postgres] {P : Type} [DecidableEq P]

abbrev St (P : Type) := Store P Db Write Lock

/-- the request that carries an item name -/
def Db.findByItemName (d : Db) (itemName : String) : Option PurchaseRequest :=
  firstBy PurchaseRequest.precedes
    (d.requests.filter fun pr => requestItemKey pr.itemName == requestItemKey itemName)

/-- the answer of a statement that writes `w` and then returns `row` -/
def St.writing {α : Type} (s : St P) (p : P) (w : Write) (row : α) :
    Option (Except PgErr α × St P) :=
  (s.put p w).map fun t => (.ok row, t)

/-- the answer of a statement that fails -/
def St.failing {α : Type} (s : St P) (e : PgErr) : Option (Except PgErr α × St P) :=
  some (.error e, s)

def stmt (p : P) : (q : Stmt) → Choice Unit → St P → Option (Except PgErr (Row q) × St P)
  | .lockItemName n, _, s => (s.acquire p (.item (itemLock n))).map fun t => (.ok (), t)
  | .findRequestByItemName n, _, s =>
    match (s.view p).findByItemName n with
    | some pr => some (.ok pr, s)
    | none => s.failing .noRows
  | .createRequest n desc cat by_, x, s =>
    let pr := PurchaseRequest.new x.id n desc cat by_ (s.now p)
    if btrim n.toList = [] then s.failing .integrityViolation
    else if !s.free p (.request x.id) then none
    else if (s.view p).findRequest x.id ≠ none then s.failing .uniqueViolation
    else s.writing p (.insertRequest pr) pr
  | .addParticipant r c q, x, s =>
    let rp : RequestParticipant := ⟨x.id, r, c, q, s.now p⟩
    if q ≤ 0 then s.failing .integrityViolation
    else if !s.free p (.participant r c) then none
    else if (s.view p).findParticipant r c ≠ none then s.failing .uniqueViolation
    -- the foreign key
    else if (s.view p).findRequest r = none then s.failing .integrityViolation
    else s.writing p (.insertParticipant rp) rp
  | .getParticipant r c, _, s =>
    match (s.view p).findParticipant r c with
    | some rp => some (.ok rp, s)
    | none => s.failing .noRows
  | .updateParticipantQuantity r c q, _, s =>
    match (s.view p).findParticipant r c with
    | some rp =>
      if q ≤ 0 then s.failing .integrityViolation
      else s.writing p (.setQuantity r c q) { rp with quantity := q }
    | none => s.failing .noRows
  | .deleteParticipant r c, _, s =>
    match (s.view p).findParticipant r c with
    | some _ => s.writing p (.deleteParticipant r c) (1 : Nat)
    | none => some (.ok (0 : Nat), s)
  | .lockRequest r, _, s =>
    match (s.view p).findRequest r with
    | some pr => (s.acquire p (.request r)).map fun t => (.ok pr, t)
    | none => s.failing .noRows
  | .recalculateDemand r, _, s =>
    let n := (s.view p).countParticipants r
    let q := (s.view p).sumQuantity r
    match (s.view p).findRequest r with
    | some pr =>
      -- the cast of the count to int
      if maxInt32 < n then s.failing .other
      else s.writing p (.setDemand r n q (s.now p)) (pr.withDemand n q (s.now p))
    | none => s.failing .noRows
  | .setOfferCount r n, _, s =>
    if n < 0 then s.failing .integrityViolation
    else s.writing p (.setTotalOffers r n) ()
  | .setRequestImage r data, _, s =>
    if data.length = 0 ∨ 2097152 < data.length then s.failing .integrityViolation
    else s.writing p (.setImage ⟨r, data, s.now p⟩) ()
  | .setRequestImageType r ty, _, s =>
    if ty ∈ imageTypes then s.writing p (.setImageType r ty (s.now p)) ()
    else s.failing .integrityViolation
  | .insertOutbox key ns, x, s =>
    let row := NotificationOutbox.of x.id x.tag key ns (s.now p)
    if !s.free p (.event x.tag) then none
    else if (s.view p).outbox.any (·.eventID == x.tag) then s.failing .uniqueViolation
    else s.writing p (.insertOutbox row) ()

/-! ## what each statement does -/

theorem writing_eq {α : Type} {s t : St P} {p : P} {w : Write} {row : α} {a : Except PgErr α}
    (h : s.writing p w row = some (a, t)) : a = .ok row ∧ s.put p w = some t := by
  obtain ⟨u, hu, e⟩ := Option.map_eq_some_iff.mp h
  cases e
  exact ⟨rfl, hu⟩

theorem failing_eq {α : Type} {s t : St P} {e : PgErr} {a : Except PgErr α}
    (h : s.failing e = some (a, t)) : a = .error e ∧ t = s := by
  cases h
  exact ⟨rfl, rfl⟩

/-- a failure is no answer -/
theorem failing_ok {α : Type} {s t : St P} {e : PgErr} {row : α}
    (h : s.failing e = some (.ok row, t)) : False := by
  cases h

/-- what a statement leaves in the store: nothing, a lock, or one write -/
inductive Effect (p : P) (q : Stmt) (s : St P) : Except PgErr (Row q) → St P → Prop where
  | none (a : Except PgErr (Row q)) : Effect p q s a s
  | lock {l : Lock} {t : St P} (a : Row q) (h : s.acquire p l = some t) : Effect p q s (.ok a) t
  | write {w : Write} {t : St P} (a : Row q) (h : s.put p w = some t) : Effect p q s (.ok a) t

theorem stmt_effect {p : P} {q : Stmt} {x : Choice Unit} {s t : St P} {a : Except PgErr (Row q)}
    (h : stmt p q x s = some (a, t)) : Effect p q s a t := by
  have fails : ∀ {e : PgErr}, s.failing e = some (a, t) → Effect p q s a t := by
    intro e h
    obtain ⟨rfl, rfl⟩ := failing_eq h
    exact .none _
  have writes : ∀ {w : Write} {row : Row q}, s.writing p w row = some (a, t) →
      Effect p q s a t := by
    intro w row h
    obtain ⟨rfl, hp⟩ := writing_eq h
    exact .write _ hp
  cases q with
  | lockItemName n =>
    obtain ⟨u, hu, e⟩ := Option.map_eq_some_iff.mp h
    cases e
    exact .lock _ hu
  | lockRequest r =>
    simp only [stmt] at h
    split at h
    · obtain ⟨u, hu, e⟩ := Option.map_eq_some_iff.mp h
      cases e
      exact .lock _ hu
    · exact fails h
  | findRequestByItemName n =>
    simp only [stmt] at h
    split at h
    · cases h; exact .none _
    · exact fails h
  | getParticipant r c =>
    simp only [stmt] at h
    split at h
    · cases h; exact .none _
    · exact fails h
  | createRequest n d c b =>
    simp only [stmt] at h
    split at h
    · exact fails h
    · split at h
      · cases h
      · split at h
        · exact fails h
        · exact writes h
  | addParticipant r c n =>
    simp only [stmt] at h
    split at h
    · exact fails h
    · split at h
      · cases h
      · split at h
        · exact fails h
        · split at h
          · exact fails h
          · exact writes h
  | updateParticipantQuantity r c n =>
    simp only [stmt] at h
    split at h
    · split at h
      · exact fails h
      · exact writes h
    · exact fails h
  | deleteParticipant r c =>
    simp only [stmt] at h
    split at h
    · exact writes h
    · cases h; exact .none _
  | recalculateDemand r =>
    simp only [stmt] at h
    split at h
    · split at h
      · exact fails h
      · exact writes h
    · exact fails h
  | setOfferCount r n =>
    simp only [stmt] at h
    split at h
    · exact fails h
    · exact writes h
  | setRequestImage r data =>
    simp only [stmt] at h
    split at h
    · exact fails h
    · exact writes h
  | setRequestImageType r ty =>
    simp only [stmt] at h
    split at h
    · exact writes h
    · exact fails h
  | insertOutbox key ns =>
    simp only [stmt] at h
    split at h
    · cases h
    · split at h
      · exact fails h
      · exact writes h

theorem stmt_quiet {p : P} {q : Stmt} {x : Choice Unit} {s t : St P} {a : Except PgErr (Row q)}
    (h : stmt p q x s = some (a, t)) : Quiet p s t := by
  cases stmt_effect h with
  | none => exact Quiet.refl p s
  | lock _ h => exact Quiet.acquire h
  | write _ h => exact Quiet.put h

/-- a statement that fails changes nothing -/
theorem stmt_error {p : P} {q : Stmt} {x : Choice Unit} {s t : St P} {e : PgErr}
    (h : stmt p q x s = some (.error e, t)) : t = s := by
  cases stmt_effect h with
  | none => rfl

section
variable {p : P} {x : Choice Unit} {s t : St P}

theorem lockItemName_ok {n : String} {a : Unit}
    (h : stmt p (.lockItemName n) x s = some (.ok a, t)) :
    s.acquire p (.item (itemLock n)) = some t := by
  obtain ⟨u, hu, e⟩ := Option.map_eq_some_iff.mp h
  cases e
  exact hu

theorem findRequestByItemName_ok {n : String} {a : PurchaseRequest}
    (h : stmt p (.findRequestByItemName n) x s = some (.ok a, t)) :
    t = s ∧ a ∈ (s.view p).requests ∧ requestItemKey a.itemName = requestItemKey n := by
  simp only [stmt] at h
  split at h
  · rename_i pr hpr
    cases h
    have hm := List.mem_filter.mp (firstBy_mem hpr)
    exact ⟨rfl, hm.1, by simpa using hm.2⟩
  · exact (failing_ok h).elim

theorem findRequestByItemName_none {n : String}
    (h : stmt p (.findRequestByItemName n) x s = some (.error .noRows, t)) :
    ∀ pr ∈ (s.view p).requests, requestItemKey pr.itemName ≠ requestItemKey n := by
  simp only [stmt] at h
  split at h
  · cases h
  · rename_i hn
    intro pr hpr e
    have hnil := firstBy_none hn
    have hm : pr ∈ (s.view p).requests.filter
        fun pr => requestItemKey pr.itemName == requestItemKey n :=
      List.mem_filter.mpr ⟨hpr, by simpa using e⟩
    rw [hnil] at hm
    exact absurd hm List.not_mem_nil

theorem createRequest_ok {n desc cat : String} {by_ : Option UUID} {a : PurchaseRequest}
    (h : stmt p (.createRequest n desc cat by_) x s = some (.ok a, t)) :
    a = PurchaseRequest.new x.id n desc cat by_ (s.now p) ∧
      (s.view p).findRequest a.requestID = none ∧ s.put p (.insertRequest a) = some t := by
  simp only [stmt] at h
  split at h
  · exact (failing_ok h).elim
  · split at h
    · cases h
    · split at h
      · exact (failing_ok h).elim
      · rename_i hn
        obtain ⟨e, hp⟩ := writing_eq h
        cases e
        exact ⟨rfl, not_not.mp hn, hp⟩

theorem addParticipant_ok {r c : UUID} {q : Int} {a : RequestParticipant}
    (h : stmt p (.addParticipant r c q) x s = some (.ok a, t)) :
    a.requestID = r ∧ s.put p (.insertParticipant a) = some t := by
  simp only [stmt] at h
  split at h
  · exact (failing_ok h).elim
  · split at h
    · cases h
    · split at h
      · exact (failing_ok h).elim
      · split at h
        · exact (failing_ok h).elim
        · obtain ⟨e, hp⟩ := writing_eq h
          cases e
          exact ⟨rfl, hp⟩

theorem addParticipant_quantity {r c : UUID} {q : Int} {a : RequestParticipant}
    (h : stmt p (.addParticipant r c q) x s = some (.ok a, t)) : a.quantity = q := by
  simp only [stmt] at h
  split at h
  · exact (failing_ok h).elim
  · split at h
    · cases h
    · split at h
      · exact (failing_ok h).elim
      · split at h
        · exact (failing_ok h).elim
        · obtain ⟨e, -⟩ := writing_eq h
          cases e
          rfl

theorem getParticipant_ok {r c : UUID} {a : RequestParticipant}
    (h : stmt p (.getParticipant r c) x s = some (.ok a, t)) :
    t = s ∧ a ∈ (s.view p).participants ∧ a.requestID = r ∧ a.customerID = c := by
  simp only [stmt] at h
  split at h
  · rename_i rp hrp
    cases h
    have hc := List.find?_some hrp
    simp only [Bool.and_eq_true, beq_iff_eq] at hc
    exact ⟨rfl, List.mem_of_find?_eq_some hrp, hc⟩
  · exact (failing_ok h).elim

theorem updateParticipantQuantity_ok {r c : UUID} {q : Int} {a : RequestParticipant}
    (h : stmt p (.updateParticipantQuantity r c q) x s = some (.ok a, t)) :
    s.put p (.setQuantity r c q) = some t := by
  simp only [stmt] at h
  split at h
  · split at h
    · exact (failing_ok h).elim
    · exact (writing_eq h).2
  · exact (failing_ok h).elim

theorem deleteParticipant_ok {r c : UUID} {a : Nat}
    (h : stmt p (.deleteParticipant r c) x s = some (.ok a, t)) :
    (a = 0 ∧ t = s) ∨ s.put p (.deleteParticipant r c) = some t := by
  simp only [stmt] at h
  split at h
  · exact .inr (writing_eq h).2
  · cases h
    exact .inl ⟨rfl, rfl⟩

theorem lockRequest_ok {r : UUID} {a : PurchaseRequest}
    (h : stmt p (.lockRequest r) x s = some (.ok a, t)) : s.acquire p (.request r) = some t := by
  simp only [stmt] at h
  split at h
  · obtain ⟨u, hu, e⟩ := Option.map_eq_some_iff.mp h
    cases e
    exact hu
  · exact (failing_ok h).elim

theorem recalculateDemand_ok {r : UUID} {a : PurchaseRequest}
    (h : stmt p (.recalculateDemand r) x s = some (.ok a, t)) :
    ∃ pr, (s.view p).findRequest r = some pr ∧
      a = pr.withDemand ((s.view p).countParticipants r) ((s.view p).sumQuantity r) (s.now p) ∧
      s.put p (.setDemand r ((s.view p).countParticipants r) ((s.view p).sumQuantity r)
        (s.now p)) = some t := by
  simp only [stmt] at h
  split at h
  · rename_i pr hpr
    split at h
    · exact (failing_ok h).elim
    · obtain ⟨e, hp⟩ := writing_eq h
      cases e
      exact ⟨pr, hpr, rfl, hp⟩
  · exact (failing_ok h).elim

/-- the count is an int32 -/
theorem recalculateDemand_count {r : UUID} {a : PurchaseRequest}
    (h : stmt p (.recalculateDemand r) x s = some (.ok a, t)) :
    (s.view p).countParticipants r ≤ maxInt32 := by
  simp only [stmt] at h
  split at h
  · split at h
    · exact (failing_ok h).elim
    · rename_i hn
      exact Int.not_lt.mp hn
  · exact (failing_ok h).elim

theorem setOfferCount_ok {r : UUID} {n : Int} {a : Unit}
    (h : stmt p (.setOfferCount r n) x s = some (.ok a, t)) :
    0 ≤ n ∧ s.put p (.setTotalOffers r n) = some t := by
  simp only [stmt] at h
  split at h
  · exact (failing_ok h).elim
  · exact ⟨Int.not_lt.mp (by assumption), (writing_eq h).2⟩

theorem setRequestImage_ok {r : UUID} {data : Bytes} {a : Unit}
    (h : stmt p (.setRequestImage r data) x s = some (.ok a, t)) :
    s.put p (.setImage ⟨r, data, s.now p⟩) = some t := by
  simp only [stmt] at h
  split at h
  · exact (failing_ok h).elim
  · exact (writing_eq h).2

theorem setRequestImageType_ok {r : UUID} {ty : String} {a : Unit}
    (h : stmt p (.setRequestImageType r ty) x s = some (.ok a, t)) :
    s.put p (.setImageType r ty (s.now p)) = some t := by
  simp only [stmt] at h
  split at h
  · exact (writing_eq h).2
  · exact (failing_ok h).elim

theorem insertOutbox_ok {key : RoutingKey} {ns : List Notification} {a : Unit}
    (h : stmt p (.insertOutbox key ns) x s = some (.ok a, t)) :
    s.put p (.insertOutbox (NotificationOutbox.of x.id x.tag key ns (s.now p))) = some t := by
  simp only [stmt] at h
  split at h
  · cases h
  · split at h
    · exact (failing_ok h).elim
    · exact (writing_eq h).2

end

/-- request-service calls no other service -/
def spec : Spec P Db Write Lock Unit Unit Row (fun r : Empty => nomatch r) where
  stmt := stmt
  note _ _ _ _ e := e
  remote _ r := nomatch r
  env _ _ := none
  quiet := stmt_quiet

end

end Marketplace.Request
