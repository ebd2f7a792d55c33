import Marketplace.Lib.Atomic
import Marketplace.Request.Safety

/-!
# request-service: all or nothing, and one announcement

Any number of calls run interleaved from any contents of the tables, and any statement may fail.

* `settles_op`        a call commits once, as its last command: an error leaves nothing behind;
* `Writing`           what a transaction has written to the outbox so far, and the locks it holds;
* `Counted`           the row as the recount has left it, which its lock keeps until the commit;
* `Announced`         what a commit has to say of the call that made it;
* `atomic_and_announced`   both together, for every schedule.
-/

set_option linter.unusedSectionVars false

namespace Marketplace.Request

open Table Events Interleave ReadCommitted
open Service hiding query

/-! ## nothing but `inTx` commits -/

section
variable {α : Type}

theorem only_exec {text : String} {q : Stmt} : Only Body (exec text q) :=
  Only.bind (Only.query fun e => nomatch e) .orThrow

theorem only_query {q : Stmt} : Only Body (query q) := Only.query fun e => nomatch e

theorem only_enqueue {key : RoutingKey} {ns : List Notification} : Only Body (enqueue key ns) := by
  unfold enqueue
  split
  · exact .pure ()
  · exact only_exec

theorem only_storeImage {r : UUID} {image : Bytes} {imageType : String} :
    Only Body (storeImage r image imageType) := by
  unfold storeImage
  split
  · exact .pure ()
  · exact only_exec.bind fun _ => only_exec.bind fun _ => .pure ()

theorem only_openRequest {customerID : UUID} {inp : CreateInput} :
    Only Body (openRequest customerID inp) :=
  only_exec.bind fun _ => only_exec.bind fun _ => only_storeImage.bind fun _ =>
    only_exec.bind fun _ => only_enqueue.bind fun _ => .pure _

theorem only_refuseExisting {existing : PurchaseRequest} {customerID : UUID} :
    Only Body (refuseExisting existing customerID) := by
  refine only_query.bind fun a => ?_
  match a with
  | .ok _ => exact .throw _
  | .error e => cases e <;> exact .throw _

theorem settles_create {customerID : UUID} {inp : CreateInput} :
    Settles (create customerID inp).run := by
  refine settles_inTx (only_exec.bind fun _ => only_query.bind fun a => ?_)
  match a with
  | .ok existing => exact only_refuseExisting
  | .error .noRows => exact only_openRequest
  | .error .uniqueViolation => exact .throw _
  | .error .integrityViolation => exact .throw _
  | .error .other => exact .throw _

theorem settles_ensureForItem {inp : EnsureInput} : Settles (ensureForItem inp).run := by
  refine settles_inTx (only_exec.bind fun _ => only_query.bind fun a => ?_)
  match a with
  | .ok existing => exact .pure _
  | .error .noRows => exact only_exec.bind fun _ => only_exec.bind fun _ => .pure _
  | .error .uniqueViolation => exact .throw _
  | .error .integrityViolation => exact .throw _
  | .error .other => exact .throw _

theorem only_lockRequest {r : UUID} : Only Body (lockRequest r) := by
  refine only_query.bind fun a => ?_
  match a with
  | .ok _ => exact .pure ()
  | .error e => cases e <;> exact .throw _

theorem settles_setOfferCount {r : UUID} {n : Int} : Settles (setOfferCount r n).run :=
  settles_inTx (only_lockRequest.bind fun _ => only_exec.bind fun _ => only_exec)

theorem settles_mutateParticipants {r : UUID} {mutate : Op Unit}
    {notify : Option (PurchaseRequest → List Notification)} (hm : Only Body mutate) :
    Settles (mutateParticipants r mutate notify).run := by
  refine settles_inTx (only_lockRequest.bind fun _ => hm.bind fun _ => only_exec.bind fun _ => ?_)
  cases notify with
  | none => exact .pure _
  | some f => exact only_enqueue.bind fun _ => .pure _

theorem only_addParticipant {r c : UUID} {n : Int} : Only Body (addParticipant r c n) := by
  refine only_query.bind fun a => ?_
  match a with
  | .ok _ => exact .pure ()
  | .error e => cases e <;> exact .throw _

theorem only_changeQuantity {r c : UUID} {n : Int} : Only Body (changeQuantity r c n) := by
  refine only_query.bind fun a => ?_
  match a with
  | .ok _ => exact .pure ()
  | .error e => cases e <;> exact .throw _

theorem only_removeParticipant {r c : UUID} : Only Body (removeParticipant r c) := by
  refine only_query.bind fun a => ?_
  match a with
  | .ok 0 => exact .throw _
  | .ok (n + 1) => exact .pure ()
  | .error e => exact .throw _

/-- **a call commits as its last command** -/
theorem settles_op (inv : Invocation) : Settles inv.op.run := by
  cases inv with
  | create c inp => exact settles_create.bind_pure _
  | ensureForItem inp => exact settles_ensureForItem.bind_pure _
  | join r c u q => exact (settles_mutateParticipants only_addParticipant).bind_pure _
  | updateQuantity r c q => exact (settles_mutateParticipants only_changeQuantity).bind_pure _
  | leave r c => exact (settles_mutateParticipants only_removeParticipant).bind_pure _
  | setOfferCount r n => exact settles_setOfferCount.bind_pure _

end

/-! ## what a transaction tells -/

/-- the outbox row that a write inserts -/
def Write.enqueued : Write → Option NotificationOutbox
  | .insertOutbox row => some row
  | _ => none

/-- the payloads that a statement writes to the outbox -/
def Stmt.tells : Stmt → List Payload
  | .insertOutbox _ ns => [.notifications ns]
  | _ => []

section
variable [Postgres] {P : Type} [DecidableEq P]

theorem outbox_apply (w : Write) (d : Db) :
    (w.apply d).outbox = d.outbox ++ w.enqueued.toList := by
  cases w with
  | insertOutbox row => rfl
  | _ => exact (List.append_nil _).symm

theorem outbox_applyAll (ws : List Write) (d : Db) :
    (applyAll ws d).outbox = d.outbox ++ ws.filterMap Write.enqueued :=
  applyAll_inserts (·.outbox) Write.enqueued outbox_apply ws d

/-- the payloads that the transaction of `p` has written so far -/
def told (s : St P) (p : P) : List Payload :=
  ((s.pending p).filterMap Write.enqueued).map (·.payload)

/-- the locks that a statement is issued under -/
def Stmt.under : Stmt → List Lock
  | .createRequest n _ _ _ => [.item (itemLock n)]
  | .addParticipant r _ _ => [.request r]
  | .updateParticipantQuantity r _ _ => [.request r]
  | .deleteParticipant r _ => [.request r]
  | .setRequestImage r _ => [.request r]
  | _ => []

/-- what a statement of `p` leaves: the discipline, its locks, and what it tells -/
structure Keeps (p : P) (tells : List Payload) (s t : St P) : Prop where
  locked : WellLocked t
  locks : ∀ l, s.locks l = some p → t.locks l = some p
  told : told t p = told s p ++ tells
  commits : t.commitsOf p = s.commitsOf p

variable {p : P} {x : Choice Unit} {s t : St P}

theorem Keeps.refl (h : WellLocked s) : Keeps p [] s s :=
  ⟨h, fun _ hl => hl, (List.append_nil _).symm, rfl⟩

theorem Keeps.acquire {l : Lock} (h : WellLocked s) (ha : s.acquire p l = some t) :
    Keeps p [] s t := by
  have ht := acquire_eq ha
  refine ⟨wellLocked_acquire h ha, fun k hk => ?_, ?_, ?_⟩
  · by_cases e : k = l
    · rw [e]
      exact acquire_locks ha
    · rw [ht]
      exact (Function.update_of_ne e _ _).trans hk
  · rw [ht]
    exact (List.append_nil _).symm
  · rw [ht]
    rfl

theorem Keeps.put {w : Write} (h : WellLocked s) (hp : s.put p w = some t)
    (hg : ∀ l ∈ w.guards, l ∈ w.takes ∨ s.locks l = some p) :
    Keeps p (w.enqueued.toList.map (·.payload)) s t := by
  refine ⟨wellLocked_put h hp hg, fun l => put_keeps hp, ?_, ?_⟩
  · unfold Request.told
    rw [put_pending hp, List.filterMap_append, List.map_append]
    cases hw : w.enqueued with
    | none => simp [hw]
    | some row => simp [hw]
  · unfold Store.commitsOf
    rw [(Quiet.put hp).log]

/-- **what any statement leaves** -/
theorem stmt_keeps {q : Stmt} {a : Row q} (h : stmt p q x s = some (.ok a, t)) (hw : WellLocked s)
    (hu : ∀ l ∈ q.under, s.locks l = some p) : Keeps p q.tells s t := by
  cases q with
  | lockItemName n => exact .acquire hw (lockItemName_ok h)
  | findRequestByItemName n =>
    obtain ⟨rfl, -⟩ := findRequestByItemName_ok h
    exact .refl hw
  | createRequest n d c b =>
    obtain ⟨ha, -, hp⟩ := createRequest_ok h
    refine .put hw hp fun l hl => ?_
    rcases List.mem_cons.mp hl with hl | hl
    · exact .inl (hl ▸ List.mem_cons_self)
    · rw [ha] at hl
      exact .inr (hu l hl)
  | addParticipant r c n =>
    obtain ⟨ha, hp⟩ := addParticipant_ok h
    refine .put hw hp fun l hl => .inr (hu l ?_)
    rwa [Write.guards, ha] at hl
  | getParticipant r c =>
    obtain ⟨rfl, -⟩ := getParticipant_ok h
    exact .refl hw
  | updateParticipantQuantity r c n =>
    exact .put hw (updateParticipantQuantity_ok h) fun l hl => .inr (hu l hl)
  | deleteParticipant r c =>
    rcases deleteParticipant_ok h with ⟨-, rfl⟩ | hp
    · exact .refl hw
    · exact .put hw hp fun l hl => .inr (hu l hl)
  | lockRequest r => exact .acquire hw (lockRequest_ok h)
  | recalculateDemand r =>
    obtain ⟨pr, -, -, hp⟩ := recalculateDemand_ok h
    exact .put hw hp fun l hl => .inl hl
  | setOfferCount r n => exact .put hw (setOfferCount_ok h).2 fun l hl => .inl hl
  | setRequestImage r data =>
    exact .put hw (setRequestImage_ok h) fun l hl => .inr (hu l hl)
  | setRequestImageType r ty => exact .put hw (setRequestImageType_ok h) fun l hl => .inl hl
  | insertOutbox key ns => exact .put hw (insertOutbox_ok h) fun l hl => .inl hl

/-! ## what each operation tells -/

/-- nothing is asked of the tables -/
def anyTables : Terms (spec (P := P)) where
  I _ _ _ := True
  R _ _ _ := True
  refl _ _ := trivial
  trans _ _ _ _ _ _ := trivial
  note _ := trivial
  remote _ _ := trivial
  env_R _ := trivial
  env_I _ h := nomatch h

/-- the transaction of `p` holds these locks and has told this much -/
structure Writing (p : P) (held : List Lock) (ns : List Payload) (s : St P) : Prop where
  held : ∀ l ∈ held, s.locks l = some p
  told : told s p = ns
  fresh : s.commitsOf p = []

/-- the row of the request `r` as the transaction of `p` leaves it -/
structure Counted (p : P) (r : UUID) (pr : PurchaseRequest) (ns : List Payload) (s : St P) : Prop
    extends Writing p [.request r] ns s where
  row : (s.view p).findRequest r = some pr

variable {held : List Lock} {ns : List Payload} {r : UUID} {pr : PurchaseRequest}

theorem Writing.stable : (anyTables (P := P)).Stable p fun σ => Writing p held ns σ.store := by
  intro σ τ hr _ h
  refine ⟨fun l hl => (hr.seen.locks l).mpr (h.held l hl), ?_, hr.seen.commitsOf.trans h.fresh⟩
  have ht := h.told
  unfold Request.told at ht ⊢
  rw [hr.seen.pending]
  exact ht

/-- the row is read off what its lock protects -/
theorem findRequest_congr {d e : Db} (h : Db.sameUnder (.request r) d e) :
    e.findRequest r = d.findRequest r := by
  have hrows : e.requests.filter (·.requestID == r) = d.requests.filter (·.requestID == r) :=
    h.1.symm
  unfold Db.findRequest
  rw [← List.head?_filter, ← List.head?_filter, hrows]

theorem Counted.stable : (anyTables (P := P)).Stable p fun σ => Counted p r pr ns σ.store := by
  intro σ τ hr hi h
  refine ⟨Writing.stable σ τ hr hi h.toWriting, ?_⟩
  exact (findRequest_congr (hr.seen.view (h.held _ List.mem_cons_self))).trans h.row

theorem Writing.keeps {more : List Payload} (h : Writing p held ns s) (hk : Keeps p more s t) :
    Writing p held (ns ++ more) t :=
  ⟨fun l hl => hk.locks l (h.held l hl), hk.told.trans (by rw [h.told]), hk.commits.trans h.fresh⟩

/-- nothing is promised after an error -/
def Anyhow : Err → State P Db Write Lock Unit → Prop := fun _ _ => True

/-- a statement whose error is looked at, under the locks it needs -/
theorem tells_query {q : Stmt} (hu : ∀ l ∈ q.under, l ∈ held) (ht : q.tells = []) :
    anyTables.Triple p (fun σ => Writing p held ns σ.store) (query q)
      (fun _ σ => Writing p held ns σ.store) Anyhow := by
  refine Terms.Triple.query Writing.stable (fun _ => Writing.stable) (fun σ x a u hi h hs => ?_)
    fun σ _ h => h
  have hs : stmt p q x σ.store = some (a, u) := hs
  cases a with
  | ok a =>
    have hk := stmt_keeps hs hi.locked fun l hl => h.held l (hu l hl)
    rw [ht] at hk
    exact ⟨hk.locked, trivial, List.append_nil ns ▸ h.keeps hk⟩
  | error e =>
    obtain rfl := stmt_error hs
    exact ⟨hi.locked, trivial, h⟩

/-- a statement whose error is passed on -/
theorem tells_exec {q : Stmt} {text : String} {B : Row q → State P Db Write Lock Unit → Prop}
    (hu : ∀ l ∈ q.under, l ∈ held) (hB : ∀ a, anyTables.Stable p (B a))
    (h : ∀ s x a t, Writing p held ns s → stmt p q x s = some (.ok a, t) →
      Writing p held (ns ++ q.tells) t → B a ⟨t, ()⟩) :
    anyTables.Triple p (fun σ => Writing p held ns σ.store) (exec text q) B Anyhow := by
  refine Terms.Triple.sql Writing.stable hB (fun _ _ => trivial) fun σ x a u hi hw hs => ?_
  have hs : stmt p q x σ.store = some (a, u) := hs
  cases a with
  | ok a =>
    have hk := stmt_keeps hs hi.locked fun l hl => hw.held l (hu l hl)
    refine ⟨hk.locked, trivial, fun b hb => ?_⟩
    obtain rfl := Except.ok.inj hb
    exact h σ.store x a u hw hs (hw.keeps hk)
  | error e =>
    obtain rfl := stmt_error hs
    exact ⟨hi.locked, trivial, fun b hb => nomatch hb⟩

/-- a statement that tells nothing and whose answer is not looked at -/
theorem tells_nothing {q : Stmt} {text : String} (hu : ∀ l ∈ q.under, l ∈ held)
    (ht : q.tells = []) :
    anyTables.Triple p (fun σ => Writing p held ns σ.store) (exec text q)
      (fun _ σ => Writing p held ns σ.store) Anyhow :=
  tells_exec hu (fun _ => Writing.stable) fun _ _ _ _ _ _ h => by
    rwa [ht, List.append_nil] at h

theorem tells_lockItemName {n text : String} :
    anyTables.Triple p (fun σ => Writing p [] [] σ.store) (exec text (.lockItemName n))
      (fun _ σ => Writing p [.item (itemLock n)] [] σ.store) Anyhow := by
  refine tells_exec (fun l hl => hl) (fun _ => Writing.stable) fun s x a t _ hs h => ?_
  refine ⟨fun l hl => ?_, h.told, h.fresh⟩
  rw [List.mem_singleton.mp hl]
  exact acquire_locks (lockItemName_ok hs)

theorem tells_lockRequest :
    anyTables.Triple p (fun σ => Writing p [] [] σ.store) (lockRequest r)
      (fun _ σ => Writing p [.request r] [] σ.store) Anyhow := by
  have hstable : ∀ a : Except PgErr PurchaseRequest, anyTables.Stable p
      fun σ : State P Db Write Lock Unit => a.isOk = true → Writing p [.request r] [] σ.store :=
    fun a => .all fun _ => Writing.stable
  refine .bind (B := fun a σ => a.isOk = true → Writing p [.request r] [] σ.store)
    (Terms.Triple.query (q := Stmt.lockRequest r) Writing.stable hstable (fun σ x a t hi h hs => ?_)
      fun _ _ _ e => nomatch e) fun a => ?_
  · have hs : stmt p (.lockRequest r) x σ.store = some (a, t) := hs
    cases a with
    | ok a =>
      have hk := stmt_keeps hs hi.locked fun l hl => absurd hl List.not_mem_nil
      have hw := h.keeps hk
      refine ⟨hk.locked, trivial, fun _ => ⟨fun l hl => ?_, hw.told, hw.fresh⟩⟩
      rw [List.mem_singleton.mp hl]
      exact acquire_locks (lockRequest_ok hs)
    | error e =>
      obtain rfl := stmt_error hs
      exact ⟨hi.locked, trivial, fun e => nomatch e⟩
  · match a with
    | .ok a => exact .pure (hstable _) fun _ _ h => h rfl
    | .error e => cases e <;> exact .throw (hstable _) fun _ _ _ => trivial

theorem tells_createRequest {n desc cat text : String} {by_ : Option UUID} :
    anyTables.Triple p (fun σ => Writing p [.item (itemLock n)] [] σ.store)
      (exec text (.createRequest n desc cat by_))
      (fun pr σ => Writing p [.request pr.requestID] [] σ.store) Anyhow := by
  refine tells_exec (fun l hl => hl) (fun _ => Writing.stable) fun s x a t _ hs h => ?_
  obtain ⟨-, -, hp⟩ := createRequest_ok hs
  refine ⟨fun l hl => ?_, h.told, h.fresh⟩
  rw [List.mem_singleton.mp hl]
  exact put_takes hp List.mem_cons_self

theorem findRequest_updateRequest (d : Db) (f : PurchaseRequest → PurchaseRequest)
    (hid : ∀ x, (f x).requestID = x.requestID) :
    (d.updateRequest r f).findRequest r = (d.findRequest r).map f := by
  have hrows := rowsOf_updateRequest d r f hid
  unfold Db.findRequest
  rw [← List.head?_filter, ← List.head?_filter]
  show ((d.updateRequest r f).rowsOf r).head? = (d.rowsOf r).head?.map f
  rw [hrows, List.head?_map]

/-- the row that the recount answers is the row as it now stands -/
theorem tells_recalculateDemand {text : String} :
    anyTables.Triple p (fun σ => Writing p [.request r] ns σ.store)
      (exec text (.recalculateDemand r)) (fun pr σ => Counted p r pr ns σ.store) Anyhow := by
  refine tells_exec (fun l hl => absurd hl List.not_mem_nil) (fun _ => Counted.stable)
    fun s x a t _ hs h => ?_
  obtain ⟨pr, hpr, ha, hp⟩ := recalculateDemand_ok hs
  refine ⟨List.append_nil ns ▸ h, ?_⟩
  show (t.view p).findRequest r = some a
  rw [put_view hp, ha]
  refine (findRequest_updateRequest (s.view p) (PurchaseRequest.withDemand _ _ _)
    (by intro _; rfl)).trans ?_
  rw [hpr]
  rfl

theorem tells_enqueue {key : RoutingKey} {n : Notification} :
    anyTables.Triple p (fun σ => Counted p r pr [] σ.store) (enqueue key [n])
      (fun _ σ => Counted p r pr [.notifications [n]] σ.store) Anyhow := by
  unfold enqueue
  rw [if_neg (List.cons_ne_nil _ _)]
  refine Terms.Triple.sql (q := Stmt.insertOutbox key [n]) Counted.stable
    (fun _ => Counted.stable) (fun _ _ => trivial) fun σ x a t hi h hs => ?_
  have hs : stmt p (.insertOutbox key [n]) x σ.store = some (a, t) := hs
  cases a with
  | ok a =>
    have hk := stmt_keeps hs hi.locked fun l hl => absurd hl List.not_mem_nil
    refine ⟨hk.locked, trivial, fun _ _ => ⟨h.toWriting.keeps hk, ?_⟩⟩
    show (t.view p).findRequest r = some pr
    rw [put_view (insertOutbox_ok hs)]
    exact h.row
  | error e =>
    obtain rfl := stmt_error hs
    exact ⟨hi.locked, trivial, fun _ e => nomatch e⟩

/-! ## what a commit tells -/

/-- what the commit of a call that answers `pr` has to tell: `Create` and `Join` add one row with one
notification for the acting user, which for `Join` quotes the row as it is committed, and the
others add none -/
def Announced : Invocation → PurchaseRequest → Commit P Db → Prop
  | .create _ inp, _, c => ∃ row n, c.after.outbox = c.before.outbox ++ [row] ∧
      row.payload = .notifications [n] ∧ n.userID = inp.actorUserID
  | .join r _ actorUserID quantity, pr, c => ∃ row, c.after.outbox = c.before.outbox ++ [row] ∧
      row.payload = .notifications [joinedNotification actorUserID quantity pr] ∧
      c.after.findRequest r = some pr
  | _, _, c => c.after.outbox = c.before.outbox

/-- `p` has committed once, and that commit is as described -/
def Ended (p : P) (Ψ : Commit P Db → Prop) (s : St P) : Prop := ∃ c, s.commitsOf p = [c] ∧ Ψ c

theorem Ended.stable {Ψ : Commit P Db → Prop} :
    (anyTables (P := P)).Stable p fun σ => Ended p Ψ σ.store :=
  Terms.Stable.commitsOf fun l => ∃ c, l = [c] ∧ Ψ c

/-- the outbox after the commit -/
theorem Writing.outbox (h : Writing p held ns s) : ∃ rows : List NotificationOutbox,
    (s.view p).outbox = s.committed.outbox ++ rows ∧ rows.map (·.payload) = ns :=
  ⟨_, outbox_applyAll _ _, h.told⟩

theorem Writing.silent (h : Writing p held [] s) : (s.view p).outbox = s.committed.outbox := by
  obtain ⟨rows, ho, hr⟩ := h.outbox
  rw [ho, List.map_eq_nil_iff.mp hr, List.append_nil]

theorem Writing.one {n : Payload} (h : Writing p held [n] s) : ∃ row : NotificationOutbox,
    (s.view p).outbox = s.committed.outbox ++ [row] ∧ row.payload = n := by
  obtain ⟨rows, ho, hr⟩ := h.outbox
  obtain ⟨row, rest, rfl, hn, hrest⟩ := List.map_eq_cons_iff.mp hr
  obtain rfl := List.map_eq_nil_iff.mp hrest
  exact ⟨row, ho, hn⟩

theorem tells_inTx {α : Type} {fn : Op α} {M : α → State P Db Write Lock Unit → Prop}
    {Ψ : α → Commit P Db → Prop}
    (hfn : anyTables.Triple p (fun σ => Writing p [] [] σ.store) fn M Anyhow)
    (hM : ∀ a σ, M a σ → σ.store.commitsOf p = [] ∧ Ψ a ⟨p, σ.store.committed, σ.store.view p⟩) :
    anyTables.Triple p (fun σ => Idle p σ.store) (inTx fn) (fun a σ => Ended p (Ψ a) σ.store)
      Anyhow := by
  have hidle : (anyTables (P := P)).Stable p fun σ => Idle p σ.store :=
    fun σ τ hr hi h => ⟨Terms.Stable.pending (· = []) σ τ hr hi h.pending,
      Terms.Stable.commitsOf (· = []) σ τ hr hi h.fresh⟩
  refine Terms.Triple.inTx hidle Writing.stable (fun _ => Ended.stable)
    (fun _ => Terms.Stable.const True) (fun σ n _ h => ⟨fun l hl => absurd hl List.not_mem_nil, ?_,
      h.fresh⟩) hfn (fun _ _ _ _ => trivial) (fun a σ _ h => ⟨trivial, ?_⟩)
    (fun _ _ => trivial) fun _ _ => trivial
  · show ((σ.store.pending p).filterMap Write.enqueued).map _ = []
    rw [h.pending]
    rfl
  · obtain ⟨hf, hΨ⟩ := hM a σ h
    exact ⟨_, by rw [commitsOf_commit, hf], hΨ⟩

/-- one written statement after the other, none of them telling anything -/
theorem tells_storeImage {image : Bytes} {imageType : String} :
    anyTables.Triple p (fun σ => Writing p [.request r] ns σ.store) (storeImage r image imageType)
      (fun _ σ => Writing p [.request r] ns σ.store) Anyhow := by
  unfold storeImage
  split
  · exact .pure Writing.stable fun _ _ h => h
  · refine .bind (tells_nothing (fun l hl => hl) rfl) fun _ => ?_
    refine .bind (tells_nothing (fun l hl => absurd hl List.not_mem_nil) rfl) fun _ => ?_
    exact .pure Writing.stable fun _ _ h => h

theorem tells_openRequest {customerID : UUID} {inp : CreateInput} :
    anyTables.Triple p (fun σ => Writing p [.item (itemLock inp.itemName)] [] σ.store)
      (openRequest customerID inp)
      (fun pr σ => ∃ r, Counted p r pr [.notifications [createdNotification inp pr]] σ.store)
      Anyhow := by
  refine .bind tells_createRequest fun request => ?_
  refine .bind (tells_nothing (fun l hl => hl) rfl) fun _ => ?_
  refine .bind tells_storeImage fun _ => .bind tells_recalculateDemand fun created => ?_
  exact .bind tells_enqueue fun _ => .pure Counted.stable fun _ _ h => ⟨_, h⟩

theorem tells_create {customerID : UUID} {inp : CreateInput} :
    anyTables.Triple p (fun σ => Idle p σ.store) (create customerID inp)
      (fun pr σ => Ended p (Announced (.create customerID inp) pr) σ.store) Anyhow := by
  refine tells_inTx (M := fun pr σ => ∃ r,
    Counted p r pr [.notifications [createdNotification inp pr]] σ.store)
    (.bind tells_lockItemName fun _ => .bind
      (tells_query (fun l hl => absurd hl List.not_mem_nil) rfl) fun a => ?_)
    fun pr σ ⟨r, h⟩ => ⟨h.fresh, ?_⟩
  · match a with
    | .ok existing =>
      refine .bind (tells_query (fun l hl => absurd hl List.not_mem_nil) rfl) fun b => ?_
      match b with
      | .ok _ => exact .throw Writing.stable fun _ _ _ => trivial
      | .error e => cases e <;> exact .throw Writing.stable fun _ _ _ => trivial
    | .error .noRows => exact tells_openRequest
    | .error .uniqueViolation => exact .throw Writing.stable fun _ _ _ => trivial
    | .error .integrityViolation => exact .throw Writing.stable fun _ _ _ => trivial
    | .error .other => exact .throw Writing.stable fun _ _ _ => trivial
  · obtain ⟨row, ho, hn⟩ := h.toWriting.one
    exact ⟨row, _, ho, hn, rfl⟩

theorem tells_ensureForItem {inp : EnsureInput} :
    anyTables.Triple p (fun σ => Idle p σ.store) (ensureForItem inp)
      (fun a σ => Ended p (Announced (.ensureForItem inp) a.1) σ.store) Anyhow := by
  refine tells_inTx (M := fun a σ => ∃ held, Writing p held [] σ.store)
    (.bind tells_lockItemName fun _ => .bind
      (tells_query (fun l hl => absurd hl List.not_mem_nil) rfl) fun a => ?_)
    fun a σ ⟨held, h⟩ => ⟨h.fresh, h.silent⟩
  match a with
  | .ok existing => exact .pure Writing.stable fun _ _ h => ⟨_, h⟩
  | .error .noRows =>
    refine .bind tells_createRequest fun opened => .bind tells_recalculateDemand fun request => ?_
    exact .pure Counted.stable fun _ _ h => ⟨_, h.toWriting⟩
  | .error .uniqueViolation => exact .throw Writing.stable fun _ _ _ => trivial
  | .error .integrityViolation => exact .throw Writing.stable fun _ _ _ => trivial
  | .error .other => exact .throw Writing.stable fun _ _ _ => trivial

theorem tells_setOfferCount {n : Int} :
    anyTables.Triple p (fun σ => Idle p σ.store) (setOfferCount r n)
      (fun pr σ => Ended p (Announced (.setOfferCount r n) pr) σ.store) Anyhow := by
  refine tells_inTx (M := fun pr σ => Counted p r pr [] σ.store)
    (.bind tells_lockRequest fun _ => ?_) fun pr σ h => ⟨h.fresh, h.toWriting.silent⟩
  exact .bind (tells_nothing (fun l hl => absurd hl List.not_mem_nil) rfl)
    fun _ => tells_recalculateDemand

section
variable {c : UUID} {n : Int}

/-- a change of the participants, under the lock of their request -/
theorem tells_addParticipant :
    anyTables.Triple p (fun σ => Writing p [.request r] [] σ.store) (addParticipant r c n)
      (fun _ σ => Writing p [.request r] [] σ.store) Anyhow := by
  refine .bind (tells_query (fun l hl => hl) rfl) fun a => ?_
  match a with
  | .ok _ => exact .pure Writing.stable fun _ _ h => h
  | .error e => cases e <;> exact .throw Writing.stable fun _ _ _ => trivial

theorem tells_changeQuantity :
    anyTables.Triple p (fun σ => Writing p [.request r] [] σ.store) (changeQuantity r c n)
      (fun _ σ => Writing p [.request r] [] σ.store) Anyhow := by
  refine .bind (tells_query (fun l hl => hl) rfl) fun a => ?_
  match a with
  | .ok _ => exact .pure Writing.stable fun _ _ h => h
  | .error e => cases e <;> exact .throw Writing.stable fun _ _ _ => trivial

theorem tells_removeParticipant :
    anyTables.Triple p (fun σ => Writing p [.request r] [] σ.store) (removeParticipant r c)
      (fun _ σ => Writing p [.request r] [] σ.store) Anyhow := by
  refine .bind (tells_query (fun l hl => hl) rfl) fun a => ?_
  match a with
  | .ok 0 => exact .throw Writing.stable fun _ _ _ => trivial
  | .ok (_ + 1) => exact .pure Writing.stable fun _ _ h => h
  | .error e => exact .throw Writing.stable fun _ _ _ => trivial

/-- a change that nobody is told of -/
theorem tells_mutateParticipants {mutate : Op Unit} {Ψ : PurchaseRequest → Commit P Db → Prop}
    (hm : anyTables.Triple p (fun σ => Writing p [.request r] [] σ.store) mutate
      (fun _ σ => Writing p [.request r] [] σ.store) Anyhow)
    (hΨ : ∀ pr (d e : Db), e.outbox = d.outbox → Ψ pr ⟨p, d, e⟩) :
    anyTables.Triple p (fun σ => Idle p σ.store) (mutateParticipants r mutate none)
      (fun pr σ => Ended p (Ψ pr) σ.store) Anyhow := by
  refine tells_inTx (M := fun pr σ => Counted p r pr [] σ.store)
    (.bind tells_lockRequest fun _ => .bind hm fun _ => .bind tells_recalculateDemand fun pr => ?_)
    fun pr σ h => ⟨h.fresh, hΨ pr _ _ h.toWriting.silent⟩
  exact .pure Counted.stable fun _ _ h => h

theorem tells_join {actorUserID : UUID} :
    anyTables.Triple p (fun σ => Idle p σ.store) (join r c actorUserID n)
      (fun pr σ => Ended p (Announced (.join r c actorUserID n) pr) σ.store) Anyhow := by
  refine tells_inTx (M := fun pr σ =>
    Counted p r pr [.notifications [joinedNotification actorUserID n pr]] σ.store)
    (.bind tells_lockRequest fun _ => .bind tells_addParticipant fun _ =>
      .bind tells_recalculateDemand fun pr => ?_) fun pr σ h => ⟨h.fresh, ?_⟩
  · exact .bind tells_enqueue fun _ => .pure Counted.stable fun _ _ h => h
  · obtain ⟨row, ho, hn⟩ := h.toWriting.one
    exact ⟨row, ho, hn, h.row⟩

end

/-- **what any call tells** -/
theorem tells_op (inv : Invocation) :
    anyTables.Triple p (fun σ => Idle p σ.store) inv.op
      (fun a σ => Ended p (Announced inv a.request) σ.store) Anyhow := by
  cases inv with
  | create c inp => exact .bind tells_create fun pr => .pure Ended.stable fun _ _ h => h
  | ensureForItem inp =>
    exact .bind tells_ensureForItem fun a => .pure Ended.stable fun _ _ h => h
  | join r c u q => exact .bind tells_join fun pr => .pure Ended.stable fun _ _ h => h
  | updateQuantity r c q =>
    exact .bind (tells_mutateParticipants tells_changeQuantity fun _ _ _ h => h) fun pr =>
      .pure Ended.stable fun _ _ h => h
  | leave r c =>
    exact .bind (tells_mutateParticipants tells_removeParticipant fun _ _ _ h => h) fun pr =>
      .pure Ended.stable fun _ _ h => h
  | setOfferCount r n => exact .bind tells_setOfferCount fun pr => .pure Ended.stable fun _ _ h => h

/-! ## every schedule -/

/-- a call that throws has committed nothing -/
theorem not_committed {calls : P → Invocation} {d : Db} {e : Err} (as : List (Act P (Choice Unit)))
    {σ : Config P} (h : spec.machine.run (start calls d) as = some σ)
    (hl : ∀ x, Act.exec p x ∈ as → x.fault ≠ .lost) (he : σ.prog p = some (.ret (.error e))) :
    ∀ c ∈ σ.state.store.log, c.tx ≠ p := by
  intro c hc hp
  have hstart : Clean p (start calls d) := by
    intro m hm
    obtain rfl := Option.some.inj hm
    exact ⟨settles_op (calls p), .inl rfl⟩
  obtain ⟨-, hsofar⟩ := Spec.run_clean as h hl hstart _ he
  have hnil : σ.state.store.commitsOf p = [] := hsofar.resolve_right fun ⟨_, e⟩ => nomatch e
  have hmem : c ∈ σ.state.store.commitsOf p := List.mem_filter.mpr ⟨hc, decide_eq_true hp⟩
  rw [hnil] at hmem
  exact absurd hmem List.not_mem_nil

/-- **All or nothing, and one announcement.**  Any calls run in any order on tables with any contents, and
any of their commands may fail.  The tables are what the commits in the log have made of them.
A call that throws, unless the acknowledgement of its commit was lost, has made none of these
commits, and has left the tables as they were if nobody else moved; a call that succeeds has made
one, which announces it as `Announced` says. -/
theorem atomic_and_announced (calls : P → Invocation) (d : Db) (as : List (Act P (Choice Unit)))
    {σ : Config P} (h : spec.machine.run (start calls d) as = some σ) :
    Chained d σ.state.store.log σ.state.store.committed ∧
    ∀ p,
      ((∀ x, Act.exec p x ∈ as → x.fault ≠ .lost) → ∀ e, σ.prog p = some (.ret (.error e)) →
        (∀ c ∈ σ.state.store.log, c.tx ≠ p) ∧
        ((∀ a ∈ as, ∃ x, a = .exec p x) → σ.state.store.committed = d)) ∧
      (∀ a, σ.prog p = some (.ret (.ok a)) →
        ∃ c, σ.state.store.commitsOf p = [c] ∧ Announced (calls p) a.request c) := by
  have hruns : Runs spec.machine (start calls d) σ := Runs.of_run as h
  have hchain := Spec.chained_runs hruns (chained_fresh d)
  refine ⟨hchain, fun p => ⟨fun hl e he => ?_, fun a ha => ?_⟩⟩
  · have hnone := not_committed as h hl he
    refine ⟨hnone, fun hown => ?_⟩
    cases hlog : σ.state.store.log with
    | nil =>
      rw [hlog] at hchain
      exact hchain
    | cons c cs =>
      have hc : c ∈ σ.state.store.log := hlog ▸ List.mem_cons_self
      rcases Spec.run_movers as h c hc with hc' | ⟨x, hx⟩
      · exact absurd hc' List.not_mem_nil
      · obtain ⟨y, hy⟩ := hown _ hx
        exact absurd (Act.exec.inj hy).1 (hnone c hc)
  · have hinv : (anyTables (P := P)).Inv (start calls d).state :=
      ⟨fun _ _ hw => absurd hw List.not_mem_nil, trivial⟩
    obtain ⟨hi, hp⟩ := (anyTables (P := P)).contract.runs
      (Q := fun p => Terms.ends (fun a σ => Ended p (Announced (calls p) a.request) σ.store) Anyhow)
      hruns hinv fun p m hm => by
        obtain rfl := Option.some.inj hm
        exact tells_op (calls p) _ (idle_fresh p _)
    exact hp p _ ha _ ((anyTables (P := P)).contract.rely_refl p _) hi

end

/-- how a call has succeeded -/
def answeredWith {P : Type} (σ : Config P) (p : P) : Option Answer :=
  match σ.prog p with
  | some (.ret (.ok a)) => some a
  | _ => none

theorem answeredWith_some {P : Type} {σ : Config P} {p : P} {a : Answer}
    (h : answeredWith σ p = some a) : σ.prog p = some (.ret (.ok a)) := by
  unfold answeredWith at h
  split at h
  · rename_i b hb
    rw [hb, Option.some.inj h]
  · cases h

theorem buyersSchedule_faults (p : Fin 3) (x : Choice Unit) (h : Act.exec p x ∈ buyersSchedule) :
    x.fault ≠ .lost := by
  have hall : lossless buyersSchedule = true := by decide
  exact not_lost hall h

/-- the three calls of `buyers`: the third one throws, and the second one has told its customer -/
theorem atomic_and_announced_buyers : letI := asciiPostgres
    ∃ σ e a, spec.machine.run (start buyers Db.empty) buyersSchedule = some σ ∧
      σ.prog 2 = some (.ret (.error e)) ∧ (∀ c ∈ σ.state.store.log, c.tx ≠ 2) ∧
      σ.prog 1 = some (.ret (.ok a)) ∧
      ∃ c, σ.state.store.commitsOf 1 = [c] ∧ Announced (buyers 1) a.request c := by
  let : Postgres := asciiPostgres
  obtain ⟨σ, hσ, h⟩ := Option.map_eq_some_iff.mp
    (show (spec.machine.run (start buyers Db.empty) buyersSchedule).map
      (fun σ => ((refusedWith σ 2).isSome, (answeredWith σ 1).isSome)) = some (true, true) by
        decide +kernel)
  obtain ⟨h2, h1⟩ := Prod.mk.inj h
  obtain ⟨e, he⟩ := Option.isSome_iff_exists.mp h2
  obtain ⟨a, ha⟩ := Option.isSome_iff_exists.mp h1
  have he := refusedWith_some he
  have ha := answeredWith_some ha
  have hall := (atomic_and_announced buyers Db.empty buyersSchedule hσ).2
  exact ⟨σ, e, a, hσ, he, ((hall 2).1 (buyersSchedule_faults 2) e he).1, ha, (hall 1).2 a ha⟩

end Marketplace.Request
