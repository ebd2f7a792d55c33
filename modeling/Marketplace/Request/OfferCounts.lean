import Marketplace.Lib.Discipline
import Marketplace.Request.Safety

/-!
# request-service: the last count wins

`SetOfferCount` records the number of live offers that offer-service has sent.

* `Invocation.reported r`   the count that a call carries for the request `r`;
* `countDiscipline`    a `SetOfferCount` writes on its own request only;
* `total_offers_last`   **`total_offers` is the count of the last `SetOfferCount` in the log**, if those
                     that have committed have returned.
-/

set_option linter.unusedSectionVars false

namespace Marketplace.Request

open Events Interleave ReadCommitted
open Service hiding query

def Invocation.reported (r : UUID) : Invocation → Option Int
  | .setOfferCount r' n => if r' = r then some n else none
  | _ => none

section
variable [Postgres] {P : Type} [DecidableEq P]

/-! ## what it writes -/

theorem countStmt_pending {p : P} {q : Stmt} {x : Choice Unit} {s t : St P}
    {a : Except PgErr (Row q)} (h : stmt p q x s = some (a, t)) :
    t.pending p = s.pending p ∨ ∃ w, t.pending p = s.pending p ++ [w] := by
  cases stmt_effect h with
  | none => exact .inl rfl
  | lock _ h =>
    rw [acquire_eq h]
    exact .inl rfl
  | write _ h => exact .inr ⟨_, put_pending h⟩

/-- the statements of a `SetOfferCount` -/
def Stmt.counting (r : UUID) (n : Int) (q : Stmt) : Prop :=
  q = .lockRequest r ∨ q = .setOfferCount r n ∨ q = .recalculateDemand r

theorem counting_pending {p : P} {q : Stmt} {r : UUID} {n : Int} {x : Choice Unit} {s t : St P}
    {a : Except PgErr (Row q)} (hq : q.counting r n) (h : stmt p q x s = some (a, t)) :
    t.pending p = s.pending p ∨
      ∃ w : Write, w.guards = [.request r] ∧ t.pending p = s.pending p ++ [w] := by
  cases a with
  | error e =>
    rw [stmt_error h]
    exact .inl rfl
  | ok a =>
    rcases hq with rfl | rfl | rfl
    · rw [acquire_eq (lockRequest_ok h)]
      exact .inl rfl
    · exact .inr ⟨_, rfl, put_pending (setOfferCount_ok h).2⟩
    · obtain ⟨pr, -, -, hp⟩ := recalculateDemand_ok h
      exact .inr ⟨_, rfl, put_pending hp⟩

def countDiscipline (calls : P → Invocation) : Discipline (spec (P := P)) where
  Fine _ := True
  Writes p w := ∀ r n, calls p = .setOfferCount r n → w.guards = [.request r]
  Sends p q := ∀ r n, calls p = .setOfferCount r n → q.counting r n
  Gets _ _ _ := True
  Hears _ r := nomatch r
  apply _ _ := trivial
  stmt {p q x s a t} hq _ h := by
    refine ⟨fun _ _ => trivial, ?_⟩
    by_cases hc : ∃ r n, calls p = .setOfferCount r n
    · obtain ⟨r, n, hc⟩ := hc
      rcases counting_pending (hq r n hc) h with hp | ⟨w, hw, hp⟩
      · exact .inl hp
      · refine .inr ⟨w, fun r' n' hc' => ?_, hp⟩
        rw [hc] at hc'
        cases hc'
        exact hw
    · rcases countStmt_pending h with hp | ⟨w, hp⟩
      · exact .inl hp
      · exact .inr ⟨w, fun r n e => absurd ⟨r, n, e⟩ hc, hp⟩
  remote {_ r} := nomatch r

variable {calls : P → Invocation} {σ : Config P} {p : P}

/-- whatever a call other than `SetOfferCount` does -/
theorem returns_any {α : Type} (op : Op α) (hn : ∀ r n, calls p ≠ .setOfferCount r n) :
    (countDiscipline calls).Returns p (fun _ => True) op := by
  have honly : ∀ m : Prog (Cmd Stmt Empty) (Ans Row NoReply) (Except Err α),
      m.Only fun _ => True := by
    intro m
    induction m with
    | ret a => trivial
    | call c k ih => exact ⟨trivial, ih⟩
  exact Discipline.Returns.of_only (fun q _ r n e => absurd e (hn r n)) (honly op.run)

theorem sends_counting {r : UUID} {n : Int} (hc : calls p = .setOfferCount r n) {q : Stmt}
    (hq : q.counting r n) : (countDiscipline calls).Sends p q := by
  intro r' n' hc'
  rw [hc] at hc'
  cases hc'
  exact hq

theorem returns_lockRequest {r : UUID} {n : Int} (hc : calls p = .setOfferCount r n) :
    (countDiscipline calls).Returns p (fun _ => True) (lockRequest r) := by
  refine .bind (.query (sends_counting hc (.inl rfl))) fun a _ => ?_
  match a with
  | .ok _ => exact .pure trivial
  | .error .noRows => exact .throw _
  | .error .uniqueViolation => exact .throw _
  | .error .integrityViolation => exact .throw _
  | .error .other => exact .throw _

theorem returns_setOfferCount {r : UUID} {n : Int} (hc : calls p = .setOfferCount r n) :
    (countDiscipline calls).Returns p (fun _ => True) (setOfferCount r n) :=
  .inTx (.bind (returns_lockRequest hc) fun _ _ =>
    .bind (.sql (sends_counting hc (.inr (.inl rfl)))) fun _ _ =>
      .sql (sends_counting hc (.inr (.inr rfl))))

theorem returns_op : (countDiscipline calls).Returns p (fun _ => True) (calls p).op := by
  by_cases hc : ∃ r n, calls p = .setOfferCount r n
  · obtain ⟨r, n, hc⟩ := hc
    rw [hc]
    exact .bind (returns_setOfferCount hc) fun _ _ => .pure trivial
  · exact returns_any _ fun r n e => hc ⟨r, n, e⟩

/-- **a `SetOfferCount` leaves the other requests alone** -/
theorem setOfferCount_elsewhere (h : Runs spec.machine (start calls Db.empty) σ)
    {c : Commit P Db} (hc : c ∈ σ.state.store.log) {r r' : UUID} {n : Int}
    (hn : calls c.tx = .setOfferCount r n) (hr : r' ≠ r) :
    c.after.rowsOf r' = c.before.rowsOf r' := by
  have hkept : (countDiscipline calls).Kept (start calls Db.empty) := by
    refine ⟨trivial, fun _ _ hw => absurd hw List.not_mem_nil, fun p m hm => ?_,
      fun _ hc => absurd hc List.not_mem_nil⟩
    obtain rfl := Option.some.inj hm
    exact Discipline.Does.mono returns_op fun _ _ => trivial
  obtain ⟨ws, he, hw⟩ := (Discipline.runs h hkept).log c hc
  have hsame : Schema.same Write (Lock.request r') c.before (applyAll ws c.before) := by
    refine same_applyAll ws (fun w hws hl => hr ?_) _
    have hg : w.guards = [.request r] := hw w hws r n hn
    have hl : Lock.request r' ∈ w.guards := hl
    rw [hg, List.mem_singleton] at hl
    exact Lock.request.inj hl
  rw [he]
  exact rowsOf_congr hsame

/-! ## the column and the log -/

/-- every commit has left one row a request -/
theorem log_rows (h : Runs spec.machine (start calls Db.empty) σ) :
    ∀ c ∈ σ.state.store.log, ∀ r, (c.after.rowsOf r).length ≤ 1 := by
  induction h with
  | refl => exact fun _ hc => absurd hc List.not_mem_nil
  | tail h a hs ih =>
    rcases Spec.step_store hs with ⟨p, -, he⟩ | ⟨-, he⟩
    · have hg := (runs_good (h.tail a hs)).1
      intro c hc r
      rw [he] at hc
      rcases List.mem_cons.mp hc with rfl | hc
      · have hone := (hg.demand r).one
        rw [he] at hone
        exact hone
      · exact ih c hc r
    · rw [he]
      exact ih

/-- what a `SetOfferCount` that has returned has committed -/
theorem setOfferCount_committed (h : Runs spec.machine (start calls Db.empty) σ)
    {c : Commit P Db} (hc : c ∈ σ.state.store.log) {r : UUID} {n : Int}
    (hn : calls c.tx = .setOfferCount r n) {a : Answer}
    (ha : σ.prog c.tx = some (.ret (.ok a))) :
    ∃ pr, c.after.rowsOf r = [pr] ∧ pr.totalOffers = n := by
  obtain ⟨hans, htold⟩ := (runs_good h).2.1 c.tx a ha
  obtain ⟨hwrote, hid, htotal⟩ := htold r n hn
  rw [Answered, if_pos hwrote] at hans
  obtain ⟨c', hone, hrows, -⟩ := hans
  have hmem : c ∈ σ.state.store.commitsOf c.tx := List.mem_filter.mpr ⟨hc, by simp⟩
  rw [hone, List.mem_singleton] at hmem
  rw [hmem, ← hid]
  exact ⟨a.request, hrows, htotal⟩

/-- the count that was committed last -/
def lastReported (calls : P → Invocation) (r : UUID) (log : List (Commit P Db)) : Option Int :=
  log.findSome? fun c => (calls c.tx).reported r

theorem offerCounts_rowsOf (d : Db) (r : UUID) :
    d.offerCounts.filter (·.1 == r) =
      (d.rowsOf r).map fun pr => (pr.requestID, pr.totalOffers) := by
  unfold Db.offerCounts Db.rowsOf
  rw [List.filter_map]
  rfl

theorem mem_offerCounts {d : Db} {r : UUID} {n : Int} (h : (r, n) ∈ d.offerCounts) :
    ∃ pr ∈ d.rowsOf r, pr.totalOffers = n := by
  obtain ⟨pr, hpr, e⟩ := List.mem_map.mp h
  obtain ⟨rfl, rfl⟩ := Prod.mk.inj e
  exact ⟨pr, List.mem_filter.mpr ⟨hpr, by simp⟩, rfl⟩

/-- a row that is new is the only one -/
theorem OffersKept.row {d e : Db} (h : OffersKept d e) {r : UUID} (hone : (e.rowsOf r).length ≤ 1)
    {pr : PurchaseRequest} (hpr : pr ∈ e.rowsOf r) :
    (∃ pr' ∈ d.rowsOf r, pr'.totalOffers = pr.totalOffers) ∨
      d.rowsOf r = [] ∧ pr.totalOffers = 0 := by
  obtain ⟨opened, he, hz⟩ := h
  have hmem : (r, pr.totalOffers) ∈ e.offerCounts :=
    List.mem_map.mpr ⟨pr, (List.mem_filter.mp hpr).1, by rw [rowsOf_id hpr]⟩
  rw [he] at hmem
  rcases List.mem_append.mp hmem with hold | hnew
  · exact .inl (mem_offerCounts hold)
  · refine .inr ⟨?_, hz _ hnew⟩
    -- another row would be a second one
    have hlen := congrArg (fun l => (l.filter (·.1 == r)).length) he
    simp only [List.filter_append, List.length_append, offerCounts_rowsOf, List.length_map] at hlen
    have hpos : 0 < (opened.filter (·.1 == r)).length :=
      List.length_pos_of_mem (List.mem_filter.mpr ⟨hnew, by simp⟩)
    exact List.length_eq_zero_iff.mp (by omega)

/-- no row goes away -/
theorem OffersKept.none {d e : Db} (h : OffersKept d e) {r : UUID} (hnil : e.rowsOf r = []) :
    d.rowsOf r = [] := by
  obtain ⟨opened, he, -⟩ := h
  have hrows := congrArg (fun l => (l.filter (·.1 == r)).length) he
  simp only [List.filter_append, List.length_append, offerCounts_rowsOf, List.length_map, hnil,
    List.length_nil] at hrows
  exact List.length_eq_zero_iff.mp (by omega)

/-- what a commit that reports nothing on `r` does to the rows of `r` -/
structure Unreported (r : UUID) (d e : Db) : Prop where
  /-- the count is kept, or the request is opened with a count of zero -/
  row : ∀ pr ∈ e.rowsOf r, (∃ pr' ∈ d.rowsOf r, pr'.totalOffers = pr.totalOffers) ∨
    d.rowsOf r = [] ∧ pr.totalOffers = 0
  none : e.rowsOf r = [] → d.rowsOf r = []

theorem unreported (h : Runs spec.machine (start calls Db.empty) σ) {c : Commit P Db}
    (hc : c ∈ σ.state.store.log) {r : UUID} (hn : (calls c.tx).reported r = none) :
    Unreported r c.before c.after := by
  by_cases hset : ∃ r' n, calls c.tx = .setOfferCount r' n
  · obtain ⟨r', n, hset⟩ := hset
    have hne : r ≠ r' := by
      rintro rfl
      rw [hset] at hn
      simp [Invocation.reported] at hn
    have hrows := setOfferCount_elsewhere h hc hset hne
    exact ⟨fun pr hpr => .inl ⟨pr, hrows ▸ hpr, rfl⟩, fun hnil => hrows ▸ hnil⟩
  · have hkept := (runs_good h).1.offers c hc fun r' n e => hset ⟨r', n, e⟩
    exact ⟨fun pr hpr => hkept.row (log_rows h c hc r) hpr, hkept.none⟩

theorem reported_some {inv : Invocation} {r : UUID} {n : Int} (h : inv.reported r = some n) :
    inv = .setOfferCount r n := by
  cases inv with
  | setOfferCount r' n' =>
    simp only [Invocation.reported] at h
    split at h
    · rename_i hr
      rw [hr, Option.some.inj h]
    · cases h
  | create customerID inp => cases h
  | ensureForItem inp => cases h
  | join r' c u q => cases h
  | updateQuantity r' c q => cases h
  | leave r' c => cases h

/-- **The last count wins.**  In every run from empty tables: if every `SetOfferCount` that has
committed has returned, `total_offers` of a request is the count of the last of them, and zero before
there is one. -/
theorem total_offers_last (h : Runs spec.machine (start calls Db.empty) σ)
    (hdone : ∀ c ∈ σ.state.store.log, ∀ r n, calls c.tx = .setOfferCount r n →
      ∃ a, σ.prog c.tx = some (.ret (.ok a)))
    {r : UUID} {pr : PurchaseRequest} (hpr : pr ∈ σ.state.store.committed.rowsOf r) :
    pr.totalOffers = (lastReported calls r σ.state.store.log).getD 0 := by
  -- by induction on the log: also, a request that a count was reported on is there
  have key : ∀ (log : List (Commit P Db)) (d : Db), (∀ c ∈ log, c ∈ σ.state.store.log) →
      Chained Db.empty log d →
      (∀ pr ∈ d.rowsOf r, pr.totalOffers = (lastReported calls r log).getD 0) ∧
        (d.rowsOf r = [] → lastReported calls r log = none) := by
    intro log
    induction log with
    | nil =>
      rintro d - hd
      obtain rfl : d = Db.empty := hd
      exact ⟨fun _ hpr => absurd hpr List.not_mem_nil, fun _ => rfl⟩
    | cons c log ih =>
      rintro d hlog ⟨rfl, hchain⟩
      have hc := hlog c List.mem_cons_self
      obtain ⟨ih, ihnone⟩ := ih c.before (fun c' hc' => hlog c' (List.mem_cons_of_mem _ hc')) hchain
      cases hn : (calls c.tx).reported r with
      | some n =>
        have hset := reported_some hn
        obtain ⟨a, ha⟩ := hdone c hc r n hset
        obtain ⟨pr', hrows, htotal⟩ := setOfferCount_committed h hc hset ha
        have hlast : lastReported calls r (c :: log) = some n := by
          rw [lastReported, List.findSome?_cons, hn]
        rw [hrows, hlast]
        refine ⟨fun pr hpr => ?_, fun hnil => absurd hnil (List.cons_ne_nil _ _)⟩
        rw [List.mem_singleton.mp hpr]
        exact htotal
      | none =>
        have hlast : lastReported calls r (c :: log) = lastReported calls r log := by
          rw [lastReported, List.findSome?_cons, hn]
          rfl
        have hun := unreported h hc hn
        rw [hlast]
        refine ⟨fun pr hpr => ?_, fun hnil => ihnone (hun.none hnil)⟩
        rcases hun.row pr hpr with ⟨pr', hpr', htotal⟩ | ⟨hnil, hzero⟩
        · rw [← htotal]
          exact ih pr' hpr'
        · rw [ihnone hnil, hzero]
          rfl
  exact (key _ _ (fun _ hc => hc) (runs_good h).1.chained).1 pr hpr

end

end Marketplace.Request
