import Marketplace.Request.Demand

/-!
# request-service: demand is exact, and an item has one request

Any number of calls run interleaved, statement by statement, from empty tables.

* `Good`             what every commit keeps: the demand of every request is derived, item keys are
                     distinct, and only `SetOfferCount` changes a `total_offers`;
* `Open`, `Settled`  a transaction that writes on one request: before and after the recount;
* `Fail`             what is known after an error: a database error, or a refusal that has
                     committed nothing;
* `triple_..`        what each operation does, in the order of `Service`.
-/

set_option linter.unusedSectionVars false

namespace Marketplace.Request

open Events Interleave ReadCommitted
open Service hiding query

section
variable [Postgres] {P : Type} [DecidableEq P]

/-- what every commit keeps -/
structure Good (calls : P → Invocation) (d : Db) (log : List (Commit P Db)) : Prop where
  chained : Chained Db.empty log d
  demand : ∀ r, DemandAt r d
  keys : OneKey d
  offers : ∀ c ∈ log, (∀ r n, calls c.tx ≠ .setOfferCount r n) → OffersKept c.before c.after

def terms (calls : P → Invocation) : Terms (spec (P := P)) where
  I d log _ := Good calls d log
  R _ _ _ := True
  refl _ _ := trivial
  trans _ _ _ _ _ _ := trivial
  note _ := trivial
  remote {_ _ r} := nomatch r
  env_R _ := trivial
  env_I _ h := nomatch h

/-! ## a transaction on one request -/

/-- the name that an invocation may open a request for -/
def Invocation.opens : Invocation → Option String
  | .create _ inp => some inp.itemName
  | .ensureForItem inp => some inp.itemName
  | _ => none

/-- the transaction inserts no request, or one for a name that nobody carries -/
def Opens (p : P) (r : UUID) : Option String → St P → Prop
  | none, s => (s.pending p).filterMap Write.inserted = []
  | some n, s => (s.pending p).filterMap Write.inserted = [n] ∧
      (s.locks (.item (itemLock n)) = some p ∧ Unused n s.committed) ∧
      s.committed.rowsOf r = []

/-- the transaction of `p` holds the lock of the request `r` and has written on nothing else -/
structure Open (inv : Invocation) (p : P) (r : UUID) (new : Option String) (s : St P) : Prop where
  held : s.locks (.request r) = some p
  only : ∀ w ∈ s.pending p, ∀ r', Lock.request r' ∈ w.guards → r' = r
  offers : (∀ r n, inv ≠ .setOfferCount r n) → ∀ w ∈ s.pending p, w.KeepsOffers
  names : Opens p r new s
  row : RowAt r (s.view p)
  fresh : s.commitsOf p = []

/-- the totals have been recounted; `pr` is the row as it stands -/
structure Settled (inv : Invocation) (p : P) (r : UUID) (new : Option String)
    (pr : PurchaseRequest) (s : St P) : Prop extends Open inv p r new s where
  demand : DemandAt r (s.view p)
  rows : (s.view p).rowsOf r = [pr]

/-- `p` has not written and not committed -/
structure Idle (p : P) (s : St P) : Prop where
  pending : s.pending p = []
  fresh : s.commitsOf p = []

variable {calls : P → Invocation} {inv : Invocation} {p : P} {r : UUID} {new : Option String}

theorem Idle.stable : (terms calls).Stable p fun σ => Idle p σ.store :=
  fun σ τ hr hi h => ⟨Terms.Stable.pending (· = []) σ τ hr hi h.pending,
    Terms.Stable.commitsOf (· = []) σ τ hr hi h.fresh⟩

theorem Open.stable : (terms calls).Stable p fun σ => Open inv p r new σ.store := by
  intro σ τ hr hi h
  have hp := hr.seen.pending
  refine ⟨(hr.seen.locks _).mpr h.held, hp.symm ▸ h.only, hp.symm ▸ h.offers, ?_,
    h.row.congr (hr.seen.view h.held), hr.seen.commitsOf.trans h.fresh⟩
  have hn := h.names
  cases new with
  | none =>
    show (τ.store.pending p).filterMap Write.inserted = []
    rw [hp]
    exact hn
  | some n =>
    obtain ⟨h1, ⟨h2, h3⟩, h4⟩ := hn
    refine ⟨hp.symm ▸ h1, ⟨(hr.seen.locks _).mpr h2, h3.congr (hr.seen.same _ h2)⟩, ?_⟩
    exact (rowsOf_congr (hr.seen.same _ h.held)).trans h4

theorem Settled.stable {pr : PurchaseRequest} :
    (terms calls).Stable p fun σ => Settled inv p r new pr σ.store := fun σ τ hr hi h =>
  ⟨Open.stable σ τ hr hi h.toOpen, h.demand.congr (hr.seen.view h.held),
    (rowsOf_congr (hr.seen.view h.held)).trans h.rows⟩

/-- one more write on the same request -/
theorem Open.put {s t : St P} {w : Write} (h : Open inv p r new s) (hw : WellLocked s)
    (hput : s.put p w = some t) (hg : ∀ l ∈ w.guards, l ∈ w.takes ∨ l = .request r)
    (hr : ∀ r', Lock.request r' ∈ w.guards → r' = r)
    (ho : (∀ r n, inv ≠ .setOfferCount r n) → w.KeepsOffers) (hn : w.inserted = none)
    (hrow : RowAt r (w.apply (s.view p))) : WellLocked t ∧ Open inv p r new t := by
  have hpend := put_pending hput
  have hc : t.committed = s.committed := (Quiet.put hput).committed
  have hguard : ∀ l ∈ w.guards, l ∈ w.takes ∨ s.locks l = some p := by
    intro l hl
    rcases hg l hl with ht | rfl
    · exact .inl ht
    · exact .inr h.held
  refine ⟨wellLocked_put hw hput hguard, put_keeps hput h.held, ?_, ?_, ?_, ?_, ?_⟩
  · rw [hpend]
    intro v hv
    rcases List.mem_append.mp hv with hv | hv
    · exact h.only v hv
    · exact List.mem_singleton.mp hv ▸ hr
  · rw [hpend]
    intro hi v hv
    rcases List.mem_append.mp hv with hv | hv
    · exact h.offers hi v hv
    · exact List.mem_singleton.mp hv ▸ ho hi
  · have hins : (t.pending p).filterMap Write.inserted = (s.pending p).filterMap Write.inserted := by
      rw [hpend, List.filterMap_append]
      simp [hn]
    have hnames := h.names
    cases new with
    | none => exact hins.trans hnames
    | some n =>
      obtain ⟨h1, ⟨h2, h3⟩, h4⟩ := hnames
      exact ⟨hins.trans h1, ⟨put_keeps hput h2, hc.symm ▸ h3⟩, hc.symm ▸ h4⟩
  · rw [put_view hput]
    exact hrow
  · unfold Store.commitsOf
    rw [(Quiet.put hput).log]
    exact h.fresh

/-- **what is settled may be committed** -/
theorem Settled.commit {pr : PurchaseRequest} {s : St P} (h : Settled (calls p) p r new pr s)
    (hg : Good calls s.committed s.log) :
    Good calls (s.view p) (⟨p, s.committed, s.view p⟩ :: s.log) := by
  have hnames : (s.view p).itemNames =
      s.committed.itemNames ++ (s.pending p).filterMap Write.inserted :=
    itemNames_applyAll _ _
  refine ⟨⟨rfl, hg.chained⟩, fun r' => ?_, ?_, fun c hc hi => ?_⟩
  · by_cases e : r' = r
    · exact e ▸ h.demand
    · have hsame : Schema.same Write (Lock.request r') s.committed (s.view p) :=
        same_applyAll _ (fun w hw hm => e (h.only w hw r' hm)) _
      exact (hg.demand r').congr hsame
  · have hn := h.names
    cases new with
    | none =>
      rw [show (s.pending p).filterMap Write.inserted = [] from hn, List.append_nil] at hnames
      unfold OneKey
      rw [hnames]
      exact hg.keys
    | some n =>
      rw [hn.1] at hnames
      exact hg.keys.insert hn.2.1.2 hnames
  · rcases List.mem_cons.mp hc with rfl | hc
    · exact applyAll_rel OffersKept OffersKept.refl (fun _ _ _ => OffersKept.trans) _
        (fun w hw d => (h.offers hi w hw).offersKept d) _
    · exact hg.offers c hc hi

/-- so may nothing at all -/
theorem Idle.commit {s : St P} (h : s.pending p = []) (hg : Good calls s.committed s.log) :
    Good calls (s.view p) (⟨p, s.committed, s.view p⟩ :: s.log) := by
  rw [view_of_pending h]
  refine ⟨⟨rfl, hg.chained⟩, hg.demand, hg.keys, fun c hc hi => ?_⟩
  rcases List.mem_cons.mp hc with rfl | hc
  · exact OffersKept.refl _
  · exact hg.offers c hc hi

/-! ## what a call ends in -/

/-- `p` has committed once, with `pr` as the row it answers; a new request is one more row -/
def Committed (p : P) (new : Option String) (pr : PurchaseRequest) (s : St P) : Prop :=
  ∃ c, s.commitsOf p = [c] ∧ c.after.rowsOf pr.requestID = [pr] ∧
    ∀ n, new = some n → c.after.requests = c.before.requests ++ [pr] ∧ pr.itemName = n

/-- some commit left the row in the table -/
def WasCommitted (pr : PurchaseRequest) (log : List (Commit P Db)) : Prop :=
  ∃ c ∈ log, pr ∈ c.after.requests

/-- `p` has changed nothing and answers a row of the same key -/
def Found (p : P) (new : Option String) (pr : PurchaseRequest) (s : St P) : Prop :=
  ∃ n c, new = some n ∧ s.commitsOf p = [c] ∧ c.after = c.before ∧
    requestItemKey pr.itemName = requestItemKey n ∧ WasCommitted pr s.log

/-- the refusals: a `Create` that found its item -/
def Refusal (inv : Invocation) (e : Err) (log : List (Commit P Db)) : Prop :=
  match inv with
  | .create customerID inp =>
    ∃ existing, requestItemKey existing.itemName = requestItemKey inp.itemName ∧
      WasCommitted existing log ∧
      (e = .requestExists existing ∨
        e = .alreadyParticipant ∧ ∃ c ∈ log, ∃ rp ∈ c.after.participants,
          rp.requestID = existing.requestID ∧ rp.customerID = customerID)
  | .ensureForItem _ => False
  | _ => True

/-- what is known after an error -/
def Fail (inv : Invocation) (p : P) (e : Err) (s : St P) : Prop :=
  e.isDatabase = true ∨ (s.commitsOf p = [] ∧ Refusal inv e s.log)

theorem WasCommitted.mono {pr : PurchaseRequest} {l l' : List (Commit P Db)}
    (h : WasCommitted pr l) (hl : ∀ c ∈ l, c ∈ l') : WasCommitted pr l' := by
  obtain ⟨c, hc, hm⟩ := h
  exact ⟨c, hl c hc, hm⟩

theorem Refusal.mono {e : Err} {l l' : List (Commit P Db)} (h : Refusal inv e l)
    (hl : ∀ c ∈ l, c ∈ l') : Refusal inv e l' := by
  cases inv with
  | create customerID inp =>
    obtain ⟨x, hk, hx, he⟩ := h
    refine ⟨x, hk, hx.mono hl, he.imp id fun ⟨h1, c, hc, h2⟩ => ⟨h1, c, hl c hc, h2⟩⟩
  | ensureForItem inp => exact h
  | join r c u q => trivial
  | updateQuantity r c q => trivial
  | leave r c => trivial
  | setOfferCount r n => trivial

theorem Committed.stable {pr : PurchaseRequest} :
    (terms calls).Stable p fun σ => Committed p new pr σ.store :=
  Terms.Stable.commitsOf fun l : List (Commit P Db) => ∃ c, l = [c] ∧ c.after.rowsOf pr.requestID = [pr] ∧
    ∀ n, new = some n → c.after.requests = c.before.requests ++ [pr] ∧ pr.itemName = n

theorem Found.stable {pr : PurchaseRequest} :
    (terms calls).Stable p fun σ => Found p new pr σ.store := by
  rintro σ τ hr - ⟨n, c, hn, hc, he, hk, hm⟩
  exact ⟨n, c, hn, hr.seen.commitsOf.trans hc, he, hk, hm.mono fun _ => hr.seen.mem_log⟩

theorem Fail.stable (e : Err) : (terms calls).Stable p fun σ => Fail inv p e σ.store := by
  rintro σ τ hr - h
  exact h.imp id fun ⟨hc, hx⟩ =>
    ⟨hr.seen.commitsOf.trans hc, hx.mono fun _ => hr.seen.mem_log⟩

theorem Settled.committed {pr : PurchaseRequest} {s : St P} (h : Settled inv p r new pr s) :
    Committed p new pr (s.commit p) := by
  have hid : pr.requestID = r := rowsOf_id (h.rows.symm ▸ List.mem_singleton_self pr)
  refine ⟨_, by rw [commitsOf_commit, h.fresh], hid.symm ▸ h.rows, fun n hn => ?_⟩
  subst hn
  obtain ⟨h1, -, h4⟩ := h.names
  have hreq : (s.view p).requests = s.committed.requests ++ [pr] := by
    rw [← h.rows]
    exact requests_applyAll h.only h4
  refine ⟨hreq, ?_⟩
  have hnames : (s.view p).itemNames = s.committed.itemNames ++ [n] := by
    rw [← h1]
    exact itemNames_applyAll _ _
  have h' : s.committed.itemNames ++ [pr.itemName] = s.committed.itemNames ++ [n] := by
    rw [← hnames]
    show _ = (s.view p).requests.map _
    rw [hreq, List.map_append]
    rfl
  exact List.cons.inj (List.append_cancel_left h') |>.1

/-! ## what each operation does -/

theorem Fail.pg {e : PgErr} {text : String} {s : St P} : Fail inv p (.wrap text (.pg e)) s :=
  .inl rfl

/-- a statement whose error is looked at; one that fails changes nothing -/
theorem triple_query {q : Stmt} {A : State P Db Write Lock Unit → Prop}
    {B : Except PgErr (Row q) → State P Db Write Lock Unit → Prop}
    {F : Err → State P Db Write Lock Unit → Prop} (hA : (terms calls).Stable p A)
    (hB : ∀ a, (terms calls).Stable p (B a))
    (hok : ∀ σ x a t, (terms calls).Inv σ → A σ → stmt p q x σ.store = some (.ok a, t) →
      WellLocked t ∧ B (.ok a) ⟨t, ()⟩)
    (herr : ∀ σ e, (terms calls).Inv σ → A σ →
      (e = .other ∨ ∃ x, stmt p q x σ.store = some (.error e, σ.store)) → B (.error e) σ) :
    (terms calls).Triple p A (query q) B F := by
  refine Terms.Triple.query hA hB (fun σ x a t hi ha hs => ?_)
    fun σ hi ha => herr σ .other hi ha (.inl rfl)
  have hs : stmt p q x σ.store = some (a, t) := hs
  cases a with
  | ok a =>
    obtain ⟨hw, hb⟩ := hok σ x a t hi ha hs
    exact ⟨hw, hi.holds, hb⟩
  | error e =>
    obtain rfl := stmt_error hs
    exact ⟨hi.locked, hi.holds, herr σ e hi ha (.inr ⟨x, hs⟩)⟩

/-- a statement whose error is passed on -/
theorem triple_exec {q : Stmt} {text : String} {A : State P Db Write Lock Unit → Prop}
    {B : Row q → State P Db Write Lock Unit → Prop} (hA : (terms calls).Stable p A)
    (hB : ∀ a, (terms calls).Stable p (B a))
    (h : ∀ σ x a t, (terms calls).Inv σ → A σ → stmt p q x σ.store = some (.ok a, t) →
      WellLocked t ∧ B a ⟨t, ()⟩) :
    (terms calls).Triple p A (exec text q) B fun e σ => Fail inv p e σ.store := by
  refine Terms.Triple.bind (B := fun r σ => match r with
    | .ok a => B a σ
    | .error _ => True) (triple_query hA ?_ h fun _ _ _ _ _ => trivial) ?_
  · intro r
    cases r with
    | ok a => exact hB a
    | error e => exact Terms.Stable.const True
  · intro r
    cases r with
    | ok a => exact .pure (hB a) fun _ _ hb => hb
    | error e => exact .throw (Terms.Stable.const True) fun _ _ _ => Fail.pg

/-- a statement that writes on the request, its error passed on -/
theorem triple_execOpen {q : Stmt} {text : String}
    (h : ∀ σ x a t, (terms calls).Inv σ → Open inv p r new σ.store →
      stmt p q x σ.store = some (.ok a, t) → WellLocked t ∧ Open inv p r new t) :
    (terms calls).Triple p (fun σ => Open inv p r new σ.store) (exec text q)
      (fun _ σ => Open inv p r new σ.store) fun e σ => Fail inv p e σ.store :=
  triple_exec Open.stable (fun _ => Open.stable) h

/-- `SELECT .. FOR UPDATE` on the request -/
theorem triple_lockRequest (hx : ∀ e (log : List (Commit P Db)), Refusal inv e log) :
    (terms calls).Triple p (fun σ => Idle p σ.store) (lockRequest r)
      (fun _ σ => Open inv p r none σ.store) fun e σ => Fail inv p e σ.store := by
  refine Terms.Triple.bind (B := fun a σ => match a with
    | .ok _ => Open inv p r none σ.store
    | .error _ => Idle p σ.store) (triple_query Idle.stable ?_ ?_ fun _ _ _ h _ => h) ?_
  · intro a
    cases a with
    | ok a => exact Open.stable
    | error e => exact Idle.stable
  · intro σ x a t hi h hs
    have hq := lockRequest_ok hs
    have ht := acquire_eq hq
    have hp : t.pending p = [] := by rw [ht]; exact h.pending
    refine ⟨wellLocked_acquire hi.locked hq, acquire_locks hq, ?_, ?_, ?_, ?_, ?_⟩
    · intro w hw
      rw [hp] at hw
      exact absurd hw List.not_mem_nil
    · intro _ w hw
      rw [hp] at hw
      exact absurd hw List.not_mem_nil
    · show (t.pending p).filterMap _ = []
      rw [hp]
      rfl
    · show RowAt r (t.view p)
      rw [view_of_pending hp, ht]
      exact (hi.holds.demand r).toRowAt
    · show t.commitsOf p = []
      rw [ht]
      exact h.fresh
  · intro a
    cases a with
    | ok a => exact .pure Open.stable fun _ _ h => h
    | error e =>
      cases e with
      | noRows => exact .throw Idle.stable fun σ _ h => .inr ⟨h.fresh, hx _ _⟩
      | _ => exact .throw Idle.stable fun _ _ _ => Fail.pg

/-- the transaction has written on the request, and its `total_offers` is as `G` says -/
def Counts (G : Int → Prop) (inv : Invocation) (p : P) (r : UUID) (new : Option String) (s : St P) :
    Prop :=
  Open inv p r new s ∧ ∀ pr ∈ (s.view p).rowsOf r, G pr.totalOffers

theorem Counts.stable {G : Int → Prop} :
    (terms calls).Stable p fun σ => Counts G inv p r new σ.store := by
  intro σ τ hr hi h
  refine ⟨Open.stable σ τ hr hi h.1, ?_⟩
  rw [rowsOf_congr (hr.seen.view h.1.held)]
  exact h.2

/-- the recount leaves `total_offers` alone -/
theorem triple_recount {G : Int → Prop} {text : String} :
    (terms calls).Triple p (fun σ => Counts G inv p r new σ.store)
      (exec text (.recalculateDemand r))
      (fun pr σ => Settled inv p r new pr σ.store ∧ G pr.totalOffers)
      fun e σ => Fail inv p e σ.store := by
  refine triple_exec Counts.stable (fun _ => Settled.stable.and (.const _)) fun σ x a t hi h hs => ?_
  obtain ⟨h, hG⟩ := h
  obtain ⟨pr, hf, rfl, hp⟩ := recalculateDemand_ok hs
  have hd := demandAt_setDemand (σ.store.now p) h.row
  obtain ⟨hw, ho⟩ := h.put hi.locked hp (fun l hl => .inl hl) (by simp [Write.guards])
    (fun _ => trivial) rfl hd.toRowAt
  have hv := put_view hp
  refine ⟨hw, ⟨ho, by rw [hv]; exact hd, ?_⟩, hG pr (findRequest_some hf)⟩
  rw [hv]
  show (Db.updateRequest _ r _).rowsOf r = _
  rw [rowsOf_updateRequest _ _ _ (by intro x; rfl), rowsOf_eq_singleton h.row hf]
  rfl

/-- the recount -/
theorem triple_recalculateDemand {text : String} :
    (terms calls).Triple p (fun σ => Open inv p r new σ.store) (exec text (.recalculateDemand r))
      (fun pr σ => Settled inv p r new pr σ.store) fun e σ => Fail inv p e σ.store :=
  (triple_recount (G := fun _ => True)).weaken (fun _ h => ⟨h, fun _ _ => trivial⟩)
    (fun _ _ _ h => h.1) fun _ _ _ h => h

/-- an event changes no request -/
theorem triple_enqueue {pr : PurchaseRequest} (key : RoutingKey) (ns : List Notification) :
    (terms calls).Triple p (fun σ => Settled inv p r new pr σ.store) (enqueue key ns)
      (fun _ σ => Settled inv p r new pr σ.store) fun e σ => Fail inv p e σ.store := by
  unfold enqueue
  by_cases e : ns = []
  · rw [if_pos e]
    exact .pure Settled.stable fun _ _ h => h
  · rw [if_neg e]
    refine triple_exec Settled.stable (fun _ => Settled.stable) (fun σ x a t hi h hs => ?_)
    have hp := insertOutbox_ok hs
    have hv := put_view hp
    obtain ⟨hw, ho⟩ := h.toOpen.put hi.locked hp (fun l hl => .inl hl) (by simp [Write.guards])
      (fun _ => trivial) rfl ⟨h.row.one, h.row.offers⟩
    refine ⟨hw, ho, ?_, by rw [hv]; exact h.rows⟩
    rw [hv]
    exact h.demand.congr (sameUnder_apply _ (by simp [Write.guards]))

/-- a write on the participants of the request -/
theorem Open.putParticipants {s t : St P} {w : Write} (h : Open inv p r new s) (hw : WellLocked s)
    (hput : s.put p w = some t) (hg : w.guards = [.request r]) (ho : w.KeepsOffers)
    (hn : w.inserted = none) (hr : (w.apply (s.view p)).requests = (s.view p).requests) :
    WellLocked t ∧ Open inv p r new t := by
  refine h.put hw hput (fun l hl => ?_) (fun r' hr' => ?_) (fun _ => ho) hn ?_
  · rw [hg, List.mem_singleton] at hl
    exact .inr hl
  · rw [hg, List.mem_singleton] at hr'
    exact Lock.request.inj hr'
  · have hrows : (w.apply (s.view p)).rowsOf r = (s.view p).rowsOf r := congrArg _ hr
    exact ⟨hrows.symm ▸ h.row.one, hrows.symm ▸ h.row.offers⟩

/-- a participant change is one statement, whose errors are looked at -/
theorem triple_mutate {q : Stmt} {f : Except PgErr (Row q) → Op Unit}
    (hx : ∀ e (log : List (Commit P Db)), Refusal inv e log)
    (hok : ∀ σ x a t, (terms calls).Inv σ → Open inv p r none σ.store →
      stmt p q x σ.store = some (.ok a, t) → WellLocked t ∧ Open inv p r none t)
    (hf : ∀ a, f a = pure () ∨ ∃ e, f a = throw e) :
    (terms calls).Triple p (fun σ => Open inv p r none σ.store) (query q >>= f)
      (fun _ σ => Open inv p r none σ.store) fun e σ => Fail inv p e σ.store := by
  refine Terms.Triple.bind (B := fun _ σ => Open inv p r none σ.store)
    (triple_query Open.stable (fun _ => Open.stable) hok fun _ _ _ h _ => h) fun a => ?_
  obtain e | ⟨e, he⟩ := hf a
  · rw [e]
    exact .pure Open.stable fun _ _ h => h
  · rw [he]
    exact .throw Open.stable fun σ _ h => .inr ⟨h.fresh, hx _ _⟩

theorem triple_addParticipant (hx : ∀ e (log : List (Commit P Db)), Refusal inv e log) (c : UUID)
    (q : Int) :
    (terms calls).Triple p (fun σ => Open inv p r none σ.store) (addParticipant r c q)
      (fun _ σ => Open inv p r none σ.store) fun e σ => Fail inv p e σ.store := by
  refine triple_mutate hx (fun σ x a t hi h hs => ?_) fun a => ?_
  · obtain ⟨ha, hp⟩ := addParticipant_ok hs
    exact h.putParticipants hi.locked hp (by rw [← ha]; rfl) trivial rfl rfl
  · cases a with
    | ok a => exact .inl rfl
    | error e => cases e <;> exact .inr ⟨_, rfl⟩

theorem triple_changeQuantity (hx : ∀ e (log : List (Commit P Db)), Refusal inv e log) (c : UUID)
    (q : Int) :
    (terms calls).Triple p (fun σ => Open inv p r none σ.store) (changeQuantity r c q)
      (fun _ σ => Open inv p r none σ.store) fun e σ => Fail inv p e σ.store := by
  refine triple_mutate hx (fun σ x a t hi h hs => ?_) fun a => ?_
  · exact h.putParticipants hi.locked (updateParticipantQuantity_ok hs) rfl trivial rfl rfl
  · cases a with
    | ok a => exact .inl rfl
    | error e => cases e <;> exact .inr ⟨_, rfl⟩

theorem triple_removeParticipant (hx : ∀ e (log : List (Commit P Db)), Refusal inv e log)
    (c : UUID) :
    (terms calls).Triple p (fun σ => Open inv p r none σ.store) (removeParticipant r c)
      (fun _ σ => Open inv p r none σ.store) fun e σ => Fail inv p e σ.store := by
  refine triple_mutate hx (fun σ x a t hi h hs => ?_) fun a => ?_
  · obtain ⟨-, rfl⟩ | hp := deleteParticipant_ok hs
    · exact ⟨hi.locked, h⟩
    · exact h.putParticipants hi.locked hp rfl trivial rfl rfl
  · cases a with
    | ok a =>
      by_cases e : a = 0
      · exact .inr ⟨.notParticipant, if_pos e⟩
      · exact .inl (if_neg e)
    | error e => exact .inr ⟨_, rfl⟩

/-- a transaction that ends settled, or has written nothing -/
theorem triple_inTx {α : Type} {fn : Op α} {Q : α → St P → Prop}
    {M : α → State P Db Write Lock Unit → Prop}
    (hQ : ∀ a, (terms calls).Stable p fun σ => Q a σ.store)
    (hfn : (terms calls).Triple p (fun σ => Idle p σ.store) fn M
      fun e σ => Fail (calls p) p e σ.store)
    (hM : ∀ a σ, (terms calls).Inv σ → M a σ →
      Good calls (σ.store.view p) (⟨p, σ.store.committed, σ.store.view p⟩ :: σ.store.log) ∧
        Q a (σ.store.commit p)) :
    (terms calls).Triple p (fun σ => Idle p σ.store) (inTx fn) (fun a σ => Q a σ.store)
      fun e σ => Fail (calls p) p e σ.store :=
  Terms.Triple.inTx Idle.stable Idle.stable hQ Fail.stable (fun _ _ _ h => ⟨h.pending, h.fresh⟩) hfn
    (fun _ _ _ h => h) hM (fun _ _ => .inl rfl) (fun _ _ => .inl rfl)

theorem triple_mutateParticipants {mutate : Op Unit}
    {notify : Option (PurchaseRequest → List Notification)}
    (hx : ∀ e (log : List (Commit P Db)), Refusal (calls p) e log)
    (hm : (terms calls).Triple p (fun σ => Open (calls p) p r none σ.store) mutate
      (fun _ σ => Open (calls p) p r none σ.store) fun e σ => Fail (calls p) p e σ.store) :
    (terms calls).Triple p (fun σ => Idle p σ.store) (mutateParticipants r mutate notify)
      (fun pr σ => Committed p none pr σ.store) fun e σ => Fail (calls p) p e σ.store := by
  refine triple_inTx (fun _ => Committed.stable)
    (.bind (triple_lockRequest hx) fun _ => .bind hm fun _ =>
      .bind triple_recalculateDemand fun pr => ?_)
    (M := fun pr σ => Settled (calls p) p r none pr σ.store)
    (fun pr σ hi h => ⟨h.commit hi.holds, h.committed⟩)
  cases notify with
  | none => exact .pure Settled.stable fun _ _ h => h
  | some f =>
    exact .bind (triple_enqueue .requestJoined (f pr)) fun _ => .pure Settled.stable fun _ _ h => h

theorem triple_setOfferCount {n : Int} (hx : ∀ e (log : List (Commit P Db)), Refusal (calls p) e log)
    (hc : ∃ r n, calls p = .setOfferCount r n) :
    (terms calls).Triple p (fun σ => Idle p σ.store) (setOfferCount r n)
      (fun pr σ => Committed p none pr σ.store ∧ (pr.requestID = r ∧ pr.totalOffers = n))
      fun e σ => Fail (calls p) p e σ.store := by
  refine triple_inTx
    (Q := fun (pr : PurchaseRequest) s =>
      Committed p none pr s ∧ (pr.requestID = r ∧ pr.totalOffers = n))
    (fun _ => Committed.stable.and (.const _))
    (.bind (triple_lockRequest hx) fun _ => .bind ?_ fun _ => triple_recount (G := (· = n)))
    (M := fun pr σ => Settled (calls p) p r none pr σ.store ∧ pr.totalOffers = n)
    (fun pr σ hi h => ⟨h.1.commit hi.holds, h.1.committed, ?_, h.2⟩)
  · refine triple_exec Open.stable (fun _ => Counts.stable) fun σ x a t hi h hs => ?_
    obtain ⟨hn, hp⟩ := setOfferCount_ok hs
    obtain ⟨r', n', e⟩ := hc
    obtain ⟨hw, ho⟩ := h.put hi.locked hp (fun l hl => .inl hl) (by simp [Write.guards])
      (fun hne => absurd e (hne r' n')) rfl (h.row.updateRequest (by intro x; rfl) fun _ _ => hn)
    refine ⟨hw, ho, fun pr hpr => ?_⟩
    rw [put_view hp] at hpr
    have hpr : pr ∈ (Db.updateRequest (σ.store.view p) r fun pr =>
        { pr with totalOffers := n }).rowsOf r := hpr
    rw [rowsOf_updateRequest _ _ _ (by intro x; rfl)] at hpr
    obtain ⟨x, -, rfl⟩ := List.mem_map.mp hpr
    rfl
  · exact rowsOf_id (h.1.rows.symm ▸ List.mem_singleton_self pr)

/-! ## opening a request -/

/-- `p` holds the lock of the item name and has written nothing -/
structure Named (p : P) (n : String) (s : St P) : Prop extends Idle p s where
  lock : s.locks (.item (itemLock n)) = some p

theorem Named.stable {n : String} : (terms calls).Stable p fun σ => Named p n σ.store :=
  fun σ τ hr hi h => ⟨Idle.stable σ τ hr hi h.toIdle, (hr.seen.locks _).mpr h.lock⟩

theorem Named.unused_stable {n : String} :
    (terms calls).Stable p fun σ => Named p n σ.store ∧ Unused n σ.store.committed :=
  fun σ τ hr hi h => ⟨Named.stable σ τ hr hi h.1, h.2.congr (hr.seen.same _ h.1.lock)⟩

/-- a row that is committed now was left by some commit -/
theorem Good.wasCommitted {d : Db} {log : List (Commit P Db)} (h : Good calls d log)
    {pr : PurchaseRequest} (hpr : pr ∈ d.requests) : WasCommitted pr log := by
  obtain rfl | ⟨c, hc, rfl⟩ := h.chained.cases
  · exact absurd hpr List.not_mem_nil
  · exact ⟨c, hc, hpr⟩

theorem triple_lockItemName {n text : String} :
    (terms calls).Triple p (fun σ => Idle p σ.store) (exec text (.lockItemName n))
      (fun _ σ => Named p n σ.store) fun e σ => Fail inv p e σ.store := by
  refine triple_exec Idle.stable (fun _ => Named.stable) (fun σ x a t hi h hs => ?_)
  have hq := lockItemName_ok hs
  have ht := acquire_eq hq
  refine ⟨wellLocked_acquire hi.locked hq, ⟨?_, ?_⟩, acquire_locks hq⟩
  · show t.pending p = []
    rw [ht]
    exact h.pending
  · show t.commitsOf p = []
    rw [ht]
    exact h.fresh

/-- what the look-up under the lock says: a committed row of the same key, or that there is none -/
def Looked (p : P) (n : String) : Except PgErr PurchaseRequest → St P → Prop
  | .ok pr, s => Named p n s ∧ requestItemKey pr.itemName = requestItemKey n ∧
      WasCommitted pr s.log
  | .error .noRows, s => Named p n s ∧ Unused n s.committed
  | .error _, _ => True

theorem Looked.stable {n : String} (a : Except PgErr PurchaseRequest) :
    (terms calls).Stable p fun σ => Looked p n a σ.store := by
  intro σ τ hr hi h
  match a with
  | .ok pr =>
    exact ⟨Named.stable σ τ hr hi h.1, h.2.1, h.2.2.mono fun _ => hr.seen.mem_log⟩
  | .error .noRows => exact Named.unused_stable σ τ hr hi h
  | .error .uniqueViolation => trivial
  | .error .integrityViolation => trivial
  | .error .other => trivial

theorem triple_findRequestByItemName {n : String} {F : Err → State P Db Write Lock Unit → Prop} :
    (terms calls).Triple p (fun σ => Named p n σ.store) (query (.findRequestByItemName n))
      (fun a σ => Looked p n a σ.store) F := by
  refine triple_query Named.stable Looked.stable (fun σ x a t hi h hs => ?_)
    fun σ e hi h hs => ?_
  · obtain ⟨rfl, hm, hk⟩ := findRequestByItemName_ok hs
    rw [view_of_pending h.pending] at hm
    exact ⟨hi.locked, h, hk, hi.holds.wasCommitted hm⟩
  · match e, hs with
    | .noRows, .inr ⟨x, hs⟩ =>
      have hn := findRequestByItemName_none hs
      rw [view_of_pending h.pending] at hn
      refine ⟨h, unused_iff.mpr fun hm => ?_⟩
      obtain ⟨m, hm, hk⟩ := List.mem_map.mp hm
      obtain ⟨pr, hpr, rfl⟩ := List.mem_map.mp hm
      exact hn pr hpr hk
    | .uniqueViolation, _ => trivial
    | .integrityViolation, _ => trivial
    | .other, _ => trivial

/-- the insert: the new row is under the lock of its key, and nobody carries its name -/
theorem triple_createRequest {n desc cat text : String} {by_ : Option UUID} :
    (terms calls).Triple p (fun σ => Named p n σ.store ∧ Unused n σ.store.committed)
      (exec text (.createRequest n desc cat by_))
      (fun pr σ => Open inv p pr.requestID (some n) σ.store) fun e σ => Fail inv p e σ.store := by
  refine triple_exec Named.unused_stable (fun _ => Open.stable) (fun σ x a t hi h hs => ?_)
  obtain ⟨hn, hu⟩ := h
  obtain ⟨ha, hf, hp⟩ := createRequest_ok hs
  have hview := view_of_pending hn.pending
  have hpend : t.pending p = [.insertRequest a] := by
    rw [put_pending hp, hn.pending]
    rfl
  have hc : t.committed = σ.store.committed := (Quiet.put hp).committed
  have hname : a.itemName = n := by rw [ha]; rfl
  have hzero : a.totalOffers = 0 := by rw [ha]; rfl
  have hrows : σ.store.committed.rowsOf a.requestID = [] := hview ▸ findRequest_none hf
  refine ⟨wellLocked_put hi.locked hp fun l hl => ?_, put_takes hp List.mem_cons_self, ?_, ?_,
    ⟨?_, ⟨put_keeps hp hn.lock, hc.symm ▸ hu⟩, hc.symm ▸ hrows⟩, ?_, ?_⟩
  · -- the key of the row is locked by the insert, its name since before
    rcases List.mem_cons.mp hl with rfl | hl
    · exact .inl List.mem_cons_self
    · rw [List.mem_singleton.mp hl, hname]
      exact .inr hn.lock
  · intro w hw r' hr'
    rw [hpend, List.mem_singleton] at hw
    subst hw
    simpa [Write.guards] using hr'
  · intro _ w hw
    rw [hpend, List.mem_singleton] at hw
    subst hw
    exact hzero
  · rw [hpend, ← hname]
    rfl
  · show RowAt _ (t.view p)
    rw [put_view hp, hview]
    exact RowAt.insertRequest hrows (hzero ▸ Int.le_refl 0)
  · show t.commitsOf p = []
    unfold Store.commitsOf
    rw [(Quiet.put hp).log]
    exact hn.fresh

/-- the picture and its type, for a request this transaction has just opened -/
theorem triple_storeImage (image : Bytes) (imageType : String) :
    (terms calls).Triple p (fun σ => Open inv p r new σ.store) (storeImage r image imageType)
      (fun _ σ => Open inv p r new σ.store) fun e σ => Fail inv p e σ.store := by
  unfold storeImage
  by_cases e : image.length = 0
  · rw [if_pos e]
    exact .pure Open.stable fun _ _ h => h
  · rw [if_neg e]
    refine .bind (triple_execOpen fun σ x a t hi h hs => ?_) fun _ =>
      .bind (triple_execOpen fun σ x a t hi h hs => ?_) fun _ =>
        .pure Open.stable fun _ _ h => h
    · exact h.putParticipants hi.locked (setRequestImage_ok hs) rfl trivial rfl rfl
    · exact h.put hi.locked (setRequestImageType_ok hs) (fun l hl => .inl hl)
        (by simp [Write.guards]) (fun _ => trivial) rfl
        (h.row.updateRequest (by intro x; rfl) fun _ hx => hx)

theorem triple_openRequest {customerID : UUID} {inp : CreateInput} :
    (terms calls).Triple p (fun σ => Named p inp.itemName σ.store ∧ Unused inp.itemName σ.store.committed)
      (openRequest customerID inp)
      (fun pr σ => ∃ r, Settled inv p r (some inp.itemName) pr σ.store)
      fun e σ => Fail inv p e σ.store := by
  refine .bind triple_createRequest fun pr => .bind ?_ fun _ =>
    .bind (triple_storeImage _ _) fun _ => .bind triple_recalculateDemand fun created =>
      .bind (triple_enqueue _ _) fun _ => .pure Settled.stable fun _ _ h => ⟨_, h⟩
  refine triple_execOpen fun σ x a t hi h hs => ?_
  obtain ⟨ha, hp⟩ := addParticipant_ok hs
  exact h.putParticipants hi.locked hp (by rw [← ha]; rfl) trivial rfl rfl

/-- `refuseExisting` always throws -/
theorem triple_refuseExisting {customerID : UUID} {inp : CreateInput} {existing : PurchaseRequest}
    {Q : PurchaseRequest → State P Db Write Lock Unit → Prop}
    (hinv : inv = .create customerID inp) :
    (terms calls).Triple p (fun σ => Looked p inp.itemName (.ok existing) σ.store)
      (refuseExisting existing customerID) Q fun e σ => Fail inv p e σ.store := by
  subst hinv
  have hjoined : ∀ a : Except PgErr RequestParticipant, (terms calls).Stable p fun σ =>
      Looked p inp.itemName (.ok existing) σ.store ∧ ∀ rp, a = .ok rp →
        ∃ c ∈ σ.store.log, ∃ rp ∈ c.after.participants,
          rp.requestID = existing.requestID ∧ rp.customerID = customerID := by
    intro a σ τ hr hi h
    refine ⟨Looked.stable _ σ τ hr hi h.1, fun rp e => ?_⟩
    obtain ⟨c, hc, hx⟩ := h.2 rp e
    exact ⟨c, hr.seen.mem_log hc, hx⟩
  refine .bind (triple_query (Looked.stable _) hjoined ?_ ?_) ?_
  · intro σ x a t hi h hs
    obtain ⟨rfl, hm, hr, hc⟩ := getParticipant_ok hs
    rw [view_of_pending h.1.pending] at hm
    refine ⟨hi.locked, h, fun _ _ => ?_⟩
    obtain e | ⟨c, hcl, e⟩ := hi.holds.chained.cases
    · rw [e] at hm
      exact absurd hm List.not_mem_nil
    · exact ⟨c, hcl, a, e ▸ hm, hr, hc⟩
  · exact fun σ e _ h _ => ⟨h, fun rp e => nomatch e⟩
  · intro a
    match a with
    | .ok rp =>
      exact .throw (hjoined _) fun σ _ h =>
        .inr ⟨h.1.1.fresh, existing, h.1.2.1, h.1.2.2, .inr ⟨rfl, h.2 rp rfl⟩⟩
    | .error .noRows =>
      exact .throw (hjoined _) fun σ _ h => .inr ⟨h.1.1.fresh, existing, h.1.2.1, h.1.2.2, .inl rfl⟩
    | .error .uniqueViolation => exact .throw (hjoined _) fun _ _ _ => Fail.pg
    | .error .integrityViolation => exact .throw (hjoined _) fun _ _ _ => Fail.pg
    | .error .other => exact .throw (hjoined _) fun _ _ _ => Fail.pg

theorem triple_create {customerID : UUID} {inp : CreateInput}
    (hinv : calls p = .create customerID inp) :
    (terms calls).Triple p (fun σ => Idle p σ.store) (create customerID inp)
      (fun pr σ => Committed p (some inp.itemName) pr σ.store)
      fun e σ => Fail (calls p) p e σ.store := by
  refine triple_inTx (fun _ => Committed.stable)
    (.bind triple_lockItemName fun _ => .bind triple_findRequestByItemName fun a => ?_)
    (M := fun pr σ => ∃ r, Settled (calls p) p r (some inp.itemName) pr σ.store)
    (fun pr σ hi ⟨r, h⟩ => ⟨h.commit hi.holds, h.committed⟩)
  match a with
  | .ok existing => exact triple_refuseExisting hinv
  | .error .noRows => exact triple_openRequest
  | .error .uniqueViolation => exact .throw (Looked.stable _) fun _ _ _ => Fail.pg
  | .error .integrityViolation => exact .throw (Looked.stable _) fun _ _ _ => Fail.pg
  | .error .other => exact .throw (Looked.stable _) fun _ _ _ => Fail.pg

/-- what `EnsureForItem` answers: a row it has opened, or one it has found -/
def Ensured (p : P) (n : String) (a : PurchaseRequest × Bool) (s : St P) : Prop :=
  if a.2 then Committed p (some n) a.1 s else Found p (some n) a.1 s

theorem Ensured.stable {n : String} (a : PurchaseRequest × Bool) :
    (terms calls).Stable p fun σ => Ensured p n a σ.store := by
  unfold Ensured
  by_cases e : a.2 = true
  · simp only [if_pos e]
    exact Committed.stable
  · simp only [if_neg e]
    exact Found.stable

theorem triple_openForItem {inp : EnsureInput} :
    (terms calls).Triple p (fun σ => Named p inp.itemName σ.store ∧ Unused inp.itemName σ.store.committed)
      (openForItem inp)
      (fun a σ => a.2 = true ∧ ∃ r, Settled inv p r (some inp.itemName) a.1 σ.store)
      fun e σ => Fail inv p e σ.store :=
  .bind triple_createRequest fun _ => .bind triple_recalculateDemand fun _ =>
    .pure Settled.stable fun _ _ h => ⟨rfl, _, h⟩

theorem triple_ensureForItem {inp : EnsureInput} :
    (terms calls).Triple p (fun σ => Idle p σ.store) (ensureForItem inp)
      (fun a σ => Ensured p inp.itemName a σ.store) fun e σ => Fail (calls p) p e σ.store := by
  refine triple_inTx Ensured.stable
    (.bind triple_lockItemName fun _ => .bind triple_findRequestByItemName fun a => ?_)
    (M := fun a σ => (a.2 = true ∧ ∃ r, Settled (calls p) p r (some inp.itemName) a.1 σ.store) ∨
      (a.2 = false ∧ Looked p inp.itemName (.ok a.1) σ.store))
    (fun a σ hi h => ?_)
  · match a with
    | .ok existing => exact .pure (Looked.stable _) fun _ _ h => .inr ⟨rfl, h⟩
    | .error .noRows =>
      exact triple_openForItem.weaken (fun _ h => h) (fun _ _ _ h => .inl h) fun _ _ _ h => h
    | .error .uniqueViolation => exact .throw (Looked.stable _) fun _ _ _ => Fail.pg
    | .error .integrityViolation => exact .throw (Looked.stable _) fun _ _ _ => Fail.pg
    | .error .other => exact .throw (Looked.stable _) fun _ _ _ => Fail.pg
  · unfold Ensured
    obtain ⟨ha, r, hs⟩ | ⟨ha, hl⟩ := h
    · rw [if_pos ha]
      exact ⟨hs.commit hi.holds, hs.committed⟩
    · rw [ha, if_neg Bool.false_ne_true]
      obtain ⟨hn, hk, c, hc, hm⟩ := hl
      refine ⟨Idle.commit hn.pending hi.holds, inp.itemName,
        ⟨p, σ.store.committed, σ.store.view p⟩, rfl, ?_,
        (view_of_pending hn.pending : σ.store.view p = σ.store.committed), hk, c, List.mem_cons_of_mem _ hc, hm⟩
      rw [commitsOf_commit, hn.fresh]

/-- what a call answers; only `EnsureForItem` answers a row it has not written -/
def Answered (inv : Invocation) (p : P) (a : Answer) (s : St P) : Prop :=
  if a.wrote then Committed p inv.opens a.request s
  else (∃ inp, inv = .ensureForItem inp) ∧ Found p inv.opens a.request s

/-- `SetOfferCount` answers with the count it was sent -/
def Told (inv : Invocation) (a : Answer) : Prop :=
  ∀ r n, inv = .setOfferCount r n →
    a.wrote = true ∧ a.request.requestID = r ∧ a.request.totalOffers = n

theorem triple_returning {op : Op PurchaseRequest} {Φ : PurchaseRequest → Prop}
    (hn : inv.opens = new)
    (h : (terms calls).Triple p (fun σ => Idle p σ.store) op
      (fun pr σ => Committed p new pr σ.store ∧ Φ pr) fun e σ => Fail inv p e σ.store)
    (hΦ : ∀ pr, Φ pr → Told inv ⟨pr, true⟩) :
    (terms calls).Triple p (fun σ => Idle p σ.store) (returning op)
      (fun a σ => Answered inv p a σ.store ∧ Told inv a) fun e σ => Fail inv p e σ.store := by
  subst hn
  exact .bind h fun pr => .pure (Committed.stable.and (.const _)) fun _ _ h => ⟨h.1, hΦ pr h.2⟩

/-- where there is nothing to be told -/
theorem triple_returningAny {op : Op PurchaseRequest} (hn : inv.opens = new)
    (hne : ∀ r n, inv ≠ .setOfferCount r n)
    (h : (terms calls).Triple p (fun σ => Idle p σ.store) op
      (fun pr σ => Committed p new pr σ.store) fun e σ => Fail inv p e σ.store) :
    (terms calls).Triple p (fun σ => Idle p σ.store) (returning op)
      (fun a σ => Answered inv p a σ.store ∧ Told inv a) fun e σ => Fail inv p e σ.store :=
  triple_returning (Φ := fun _ => True) hn
    (h.weaken (fun _ h => h) (fun _ _ _ h => ⟨h, trivial⟩) fun _ _ _ h => h)
    fun _ _ r n e => absurd e (hne r n)

/-- **what any call does** -/
theorem triple_op {inv : Invocation} (hc : calls p = inv) :
    (terms calls).Triple p (fun σ => Idle p σ.store) inv.op
      (fun a σ => Answered (calls p) p a σ.store ∧ Told (calls p) a)
      fun e σ => Fail (calls p) p e σ.store := by
  cases inv with
  | create customerID inp =>
    exact triple_returningAny (by rw [hc]; rfl) (by rw [hc]; exact fun _ _ e => nomatch e)
      (triple_create hc)
  | ensureForItem inp =>
    refine .bind triple_ensureForItem fun a => .pure (Ensured.stable a) fun σ _ h => ⟨?_, ?_⟩
    · unfold Answered
      unfold Ensured at h
      rw [hc]
      split
      · rename_i hw
        rwa [if_pos hw] at h
      · rename_i hw
        rw [if_neg hw] at h
        exact ⟨⟨inp, rfl⟩, h⟩
    · rw [hc]
      exact fun _ _ e => nomatch e
  | join r c u q =>
    have hx : ∀ e (log : List (Commit P Db)), Refusal (calls p) e log := fun e log => by
      rw [hc]; trivial
    exact triple_returningAny (by rw [hc]; rfl) (by rw [hc]; exact fun _ _ e => nomatch e)
      (triple_mutateParticipants hx (triple_addParticipant hx c q))
  | updateQuantity r c q =>
    have hx : ∀ e (log : List (Commit P Db)), Refusal (calls p) e log := fun e log => by
      rw [hc]; trivial
    exact triple_returningAny (by rw [hc]; rfl) (by rw [hc]; exact fun _ _ e => nomatch e)
      (triple_mutateParticipants hx (triple_changeQuantity hx c q))
  | leave r c =>
    have hx : ∀ e (log : List (Commit P Db)), Refusal (calls p) e log := fun e log => by
      rw [hc]; trivial
    exact triple_returningAny (by rw [hc]; rfl) (by rw [hc]; exact fun _ _ e => nomatch e)
      (triple_mutateParticipants hx (triple_removeParticipant hx c))
  | setOfferCount r n =>
    have hx : ∀ e (log : List (Commit P Db)), Refusal (calls p) e log := fun e log => by
      rw [hc]; trivial
    refine triple_returning (by rw [hc]; rfl) (triple_setOfferCount hx ⟨r, n, hc⟩) ?_
    rintro pr ⟨hid, hn⟩ r' n' e
    rw [hc] at e
    cases e
    exact ⟨rfl, hid, hn⟩

/-! ## every run -/

theorem good_empty : Good calls Db.empty [] :=
  ⟨rfl, fun _ => ⟨⟨Nat.zero_le _, by simp [Db.rowsOf, Db.empty]⟩, by simp [Db.rowsOf, Db.empty]⟩,
    List.nodup_nil, by simp⟩

theorem idle_fresh (p : P) (d : Db) : Idle p (Store.fresh d : St P) := ⟨rfl, rfl⟩

/-- in every run the tables are good, and a call that has ended is in its postcondition -/
theorem runs_good {σ : Config P} (h : Runs spec.machine (start calls Db.empty) σ) :
    Good calls σ.state.store.committed σ.state.store.log ∧
    (∀ p a, σ.prog p = some (.ret (.ok a)) →
      Answered (calls p) p a σ.state.store ∧ Told (calls p) a) ∧
    (∀ p e, σ.prog p = some (.ret (.error e)) → Fail (calls p) p e σ.state.store) := by
  have hinv : (terms calls).Inv (start calls Db.empty).state :=
    ⟨fun _ _ hw => absurd hw List.not_mem_nil, good_empty⟩
  obtain ⟨hi, hp⟩ := (terms calls).contract.runs
    (Q := fun p => Terms.ends (fun a σ => Answered (calls p) p a σ.store ∧ Told (calls p) a)
      fun e σ => Fail (calls p) p e σ.store) h hinv fun p m hm => by
    obtain rfl := Option.some.inj hm
    exact triple_op rfl _ (idle_fresh p _)
  refine ⟨hi.holds, fun p a ha => ?_, fun p e he => ?_⟩
  · exact hp p _ ha _ ((terms calls).contract.rely_refl p _) hi
  · exact hp p _ he _ ((terms calls).contract.rely_refl p _) hi

/-- the one commit of a process is in the log -/
theorem mem_of_commitsOf {s : St P} {c : Commit P Db} (h : s.commitsOf p = [c]) :
    c ∈ s.log ∧ c.tx = p := by
  have hm : c ∈ s.commitsOf p := h ▸ List.mem_singleton_self c
  exact ⟨(List.mem_filter.mp hm).1, by simpa using (List.mem_filter.mp hm).2⟩

/-- **Demand is exact.**  In every run from empty tables: the totals and the status of every
committed row are those of its committed participants and its offers, `total_offers` is changed
by nothing but `SetOfferCount`, and the row a call answers is the row as that call committed
it. -/
theorem demand_invariant (calls : P → Invocation) {σ : Config P}
    (h : Runs spec.machine (start calls Db.empty) σ) :
    (∀ pr ∈ σ.state.store.committed.requests, Derived σ.state.store.committed pr) ∧
    (Chained Db.empty σ.state.store.log σ.state.store.committed ∧
      ∀ c ∈ σ.state.store.log, (∀ r n, calls c.tx ≠ .setOfferCount r n) →
        OffersKept c.before c.after) ∧
    (∀ p a, σ.prog p = some (.ret (.ok a)) → a.wrote = true →
      ∃ c ∈ σ.state.store.log, c.tx = p ∧ c.after.rowsOf a.request.requestID = [a.request]) := by
  obtain ⟨hg, ha, -⟩ := runs_good h
  refine ⟨fun pr hpr => ?_, ⟨hg.chained, hg.offers⟩, fun p a hp hw => ?_⟩
  · exact (hg.demand pr.requestID).derived pr (List.mem_filter.mpr ⟨hpr, by simp⟩)
  · have h := (ha p a hp).1
    rw [Answered, if_pos hw] at h
    obtain ⟨c, hc, hrow, -⟩ := h
    exact ⟨c, (mem_of_commitsOf hc).1, (mem_of_commitsOf hc).2, hrow⟩

/-- `p` committed exactly one new row, which carries the key of the name -/
def OpenedOne (p : P) (n : String) (pr : PurchaseRequest) (s : St P) : Prop :=
  ∃ c, s.commitsOf p = [c] ∧ c.after.requests = c.before.requests ++ [pr] ∧
    requestItemKey pr.itemName = requestItemKey n

theorem Committed.openedOne {n : String} {pr : PurchaseRequest} {s : St P}
    (h : Committed p (some n) pr s) : OpenedOne p n pr s := by
  obtain ⟨c, hc, -, hn⟩ := h
  exact ⟨c, hc, (hn n rfl).1, by rw [(hn n rfl).2]⟩

/-- **An item has one request.**  In every run from empty tables no two committed rows carry the
same item key; a `Create` or `EnsureForItem` that does not end in a database error has committed
one new row of its key, or has changed nothing and answers from a committed row of its key. -/
theorem one_request_per_item (calls : P → Invocation) {σ : Config P}
    (h : Runs spec.machine (start calls Db.empty) σ) :
    (σ.state.store.committed.requests.Pairwise fun a b =>
      requestItemKey a.itemName ≠ requestItemKey b.itemName) ∧
    (∀ p customerID inp, calls p = .create customerID inp →
      (∀ a, σ.prog p = some (.ret (.ok a)) →
        OpenedOne p inp.itemName a.request σ.state.store) ∧
      (∀ e, σ.prog p = some (.ret (.error e)) → e.isDatabase = false →
        σ.state.store.commitsOf p = [] ∧
        ∃ existing, requestItemKey existing.itemName = requestItemKey inp.itemName ∧
          WasCommitted existing σ.state.store.log ∧
          (e = .requestExists existing ∨ e = .alreadyParticipant ∧
            ∃ c ∈ σ.state.store.log, ∃ rp ∈ c.after.participants,
              rp.requestID = existing.requestID ∧ rp.customerID = customerID))) ∧
    (∀ p inp, calls p = .ensureForItem inp →
      (∀ a, σ.prog p = some (.ret (.ok a)) → a.wrote = true →
        OpenedOne p inp.itemName a.request σ.state.store) ∧
      (∀ a, σ.prog p = some (.ret (.ok a)) → a.wrote = false →
        (∃ c, σ.state.store.commitsOf p = [c] ∧ c.after = c.before) ∧
        requestItemKey a.request.itemName = requestItemKey inp.itemName ∧
        WasCommitted a.request σ.state.store.log) ∧
      (∀ e, σ.prog p = some (.ret (.error e)) → e.isDatabase = true)) := by
  obtain ⟨hg, ha, he⟩ := runs_good h
  refine ⟨?_, fun p customerID inp hc => ⟨fun a hp => ?_, fun e hp hd => ?_⟩,
    fun p inp hc => ⟨fun a hp hw => ?_, fun a hp hw => ?_, fun e hp => ?_⟩⟩
  · have hk := hg.keys
    unfold OneKey Db.itemNames at hk
    rw [List.map_map] at hk
    exact List.pairwise_map.mp hk
  · have h := (ha p a hp).1
    rw [hc, Answered] at h
    split at h
    · exact h.openedOne
    · obtain ⟨⟨inp', e⟩, -⟩ := h
      cases e
  · have h := he p e hp
    rw [hc] at h
    exact h.resolve_left (by simp [hd])
  · have h := (ha p a hp).1
    rw [hc, Answered, if_pos hw] at h
    exact h.openedOne
  · have h := (ha p a hp).1
    rw [hc, Answered, if_neg (by simp [hw])] at h
    obtain ⟨-, n, c, hn, hcs, hsame, hk, hm⟩ := h
    obtain rfl := Option.some.inj hn
    exact ⟨⟨c, hcs, hsame⟩, hk, hm⟩
  · have h := he p e hp
    rw [hc] at h
    exact h.elim id fun hx => absurd hx.2 id

end

/-! ## a run of three calls -/

/-- a television, under some name -/
def television (itemName : String) : CreateInput where
  itemName := itemName
  description := ""
  category := "home"
  quantity := 2
  actorUserID := 70
  image := []
  imageType := ""

/-- a first customer opens a request, a second one joins it, a third one asks for the same item -/
def buyers : Fin 3 → Invocation
  | 0 => .create 7 (television "TV set")
  | 1 => .join 50 8 80 3
  | 2 => .create 9 (television "tv-SET (new)")

def move (p : Fin 3) (id tag : Nat) : Act (Fin 3) (Choice Unit) := .exec p ⟨.none, id, tag, 1, ()⟩

def buyersSchedule : List (Act (Fin 3) (Choice Unit)) :=
  [move 0 0 0, move 1 0 0, move 2 0 0, move 0 0 0, move 0 0 0, move 0 50 0, move 0 60 0,
    move 0 0 0, move 0 90 91, move 0 0 0,
    move 1 0 0, move 1 61 0, move 2 0 0, move 1 0 0, move 1 92 93, move 1 0 0,
    move 2 0 0, move 2 0 0, move 2 0 0]

theorem demand_invariant_buyers : letI := asciiPostgres
    ∃ σ, Runs spec.machine (start buyers Db.empty) σ ∧
      (σ.state.store.committed.requests.map fun pr => (pr.totalCustomers, pr.totalQuantity))
        = [(2, 5)] ∧
      ∀ pr ∈ σ.state.store.committed.requests, Derived σ.state.store.committed pr := by
  let : Postgres := asciiPostgres
  obtain ⟨σ, hr, hσ⟩ := Runs.exists_of_run (M := spec.machine) (σ := start buyers Db.empty)
    buyersSchedule (f := fun σ => σ.state.store.committed.requests.map fun pr =>
      (pr.totalCustomers, pr.totalQuantity)) (b := [(2, 5)]) (by decide +kernel)
  exact ⟨σ, hr, hσ, (demand_invariant buyers hr).1⟩

/-- how a call has ended in an error -/
def refusedWith {P : Type} (σ : Config P) (p : P) : Option Err :=
  match σ.prog p with
  | some (.ret (.error e)) => some e
  | _ => none

theorem refusedWith_some {P : Type} {σ : Config P} {p : P} {e : Err}
    (h : refusedWith σ p = some e) : σ.prog p = some (.ret (.error e)) := by
  unfold refusedWith at h
  split at h
  · rename_i e' he
    rw [he, Option.some.inj h]
  · cases h

theorem one_request_per_item_buyers : letI := asciiPostgres
    ∃ σ e, Runs spec.machine (start buyers Db.empty) σ ∧ e.isDatabase = false ∧
      σ.prog 2 = some (.ret (.error e)) ∧
      ∃ existing, requestItemKey existing.itemName = requestItemKey "tv-SET (new)" ∧
        WasCommitted existing σ.state.store.log := by
  let : Postgres := asciiPostgres
  obtain ⟨σ, hr, hσ⟩ := Runs.exists_of_run (M := spec.machine) (σ := start buyers Db.empty)
    buyersSchedule (f := fun σ => (refusedWith σ 2).map Err.isDatabase) (b := some false)
    (by decide +kernel)
  obtain ⟨e, he, hd⟩ := Option.map_eq_some_iff.mp hσ
  have hp := refusedWith_some he
  obtain ⟨-, x, hk, hm, -⟩ := ((one_request_per_item buyers hr).2.1 2 9 _ rfl).2 e hp hd
  exact ⟨σ, e, hr, hd, hp, x, hk, hm⟩

end Marketplace.Request
