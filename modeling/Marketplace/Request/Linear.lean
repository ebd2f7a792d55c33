import Marketplace.Lib.Known
import Marketplace.Request.Announce
import Marketplace.Request.Board

/-!
# request-service: every run plays the board

The calls run interleaved, statement by statement, at READ COMMITTED.  All the same they act on the
board one at a time: what a call does, it does at the moment of its commit, and what it refuses,
the board refused at some moment.

* `Db.demandOf`, `Db.onBoard`   the board that the tables hold;
* `May`              the events that a call may bring about;
* `At`               a transaction on one request: the entry before it and as it leaves it, both of
                     which the lock of the row keeps until the commit;
* `Plays`            what every commit keeps: it is an event of the board, one for each call;
* `Refuses`          what the board has to be like for an error;
* `linear_op`        what each operation does, in the order of `Service`;
* `requests_linear`, `refusals_linear`   **every run**.
-/

set_option linter.unusedSectionVars false

namespace Marketplace.Request

open Table Events Interleave ReadCommitted
open Service hiding query

/-! ## the board that the tables hold -/

/-- the entry of a request -/
def Db.demandOf (d : Db) (r : UUID) : Option (Demand String UUID) :=
  (d.findRequest r).map fun pr =>
    { itemName := pr.itemName
      wants := (d.participantsOf r).map fun rp => (rp.customerID, rp.quantity)
      offers := pr.totalOffers }

def Db.onBoard (d : Db) : Board UUID String UUID := d.demandOf

/-- the events that a call may bring about -/
def Invocation.May : Invocation → Event UUID String UUID → Prop
  | .create c inp, v => ∃ r, v = .opened r inp.itemName (some (c, inp.quantity))
  | .ensureForItem inp, v => ∃ r, v = .opened r inp.itemName none ∨ v = .found r inp.itemName
  | .join r c _ q, v => v = .joined r c q
  | .updateQuantity r c q, v => v = .changed r c q
  | .leave r c, v => v = .left r c
  | .setOfferCount r n, v => v = .counted r n

section
variable [Postgres]

theorem demandOf_congr {d e : Db} {r : UUID} (h : Db.sameUnder (.request r) d e) :
    e.demandOf r = d.demandOf r := by
  have hp : e.participantsOf r = d.participantsOf r := h.2.1.symm
  unfold Db.demandOf
  rw [findRequest_congr h, hp]

variable {d : Db} {r c : UUID}

theorem demandOf_none : d.demandOf r = none ↔ d.findRequest r = none := Option.map_eq_none_iff

theorem demandOf_isSome {pr : PurchaseRequest} (h : d.findRequest r = some pr) :
    ∃ x, d.demandOf r = some x := ⟨_, congrArg (Option.map _) h⟩

/-- who is on the entry has a row -/
theorem mem_customers {x : Demand String UUID} (h : d.demandOf r = some x) :
    c ∈ x.customers ↔ d.findParticipant r c ≠ none := by
  obtain ⟨pr, -, rfl⟩ := Option.map_eq_some_iff.mp h
  unfold Demand.customers Db.findParticipant Db.participantsOf
  rw [List.map_map, ne_eq, List.find?_eq_none]
  constructor
  · intro hc hn
    obtain ⟨rp, hrp, e⟩ := List.mem_map.mp hc
    obtain ⟨hrp, hr⟩ := List.mem_filter.mp hrp
    exact hn rp hrp (by simpa [hr] using e)
  · intro hn
    by_contra hc
    refine hn fun rp hrp hcond => hc ?_
    simp only [Bool.and_eq_true, beq_iff_eq] at hcond
    exact List.mem_map.mpr ⟨rp, List.mem_filter.mpr ⟨hrp, by simp [hcond.1]⟩, hcond.2⟩

/-! ## what the writes do to the entry -/

theorem demandOf_updateRequest {f : PurchaseRequest → PurchaseRequest} {g : Int → Int}
    (hid : ∀ x, (f x).requestID = x.requestID) (hn : ∀ x, (f x).itemName = x.itemName)
    (ho : ∀ x, (f x).totalOffers = g x.totalOffers) :
    (d.updateRequest r f).demandOf r =
      (d.demandOf r).map fun x => { x with offers := g x.offers } := by
  have hp : (d.updateRequest r f).participantsOf r = d.participantsOf r := rfl
  unfold Db.demandOf
  rw [findRequest_updateRequest d f hid, hp, Option.map_map, Option.map_map]
  refine congrArg (fun h => Option.map h _) (funext fun pr => ?_)
  show (⟨(f pr).itemName, _, (f pr).totalOffers⟩ : Demand String UUID) = _
  rw [hn, ho]
  rfl

/-- a write that leaves the name and the offers of a request alone -/
theorem demandOf_kept {f : PurchaseRequest → PurchaseRequest}
    (hid : ∀ x, (f x).requestID = x.requestID) (hn : ∀ x, (f x).itemName = x.itemName)
    (ho : ∀ x, (f x).totalOffers = x.totalOffers) :
    (d.updateRequest r f).demandOf r = d.demandOf r := by
  rw [demandOf_updateRequest (g := id) hid hn ho]
  exact congrFun Option.map_id _

theorem demandOf_participants {ps : List RequestParticipant}
    {f : Demand String UUID → Demand String UUID}
    (h : ∀ pr : PurchaseRequest, f ⟨pr.itemName,
        (d.participantsOf r).map fun rp => (rp.customerID, rp.quantity), pr.totalOffers⟩ =
      ⟨pr.itemName, (ps.filter (·.requestID == r)).map fun rp => (rp.customerID, rp.quantity),
        pr.totalOffers⟩) :
    Db.demandOf { d with participants := ps } r = (d.demandOf r).map f := by
  unfold Db.demandOf
  rw [Option.map_map]
  exact congrArg (fun g => Option.map g (d.findRequest r)) (funext fun pr => (h pr).symm)

theorem demandOf_insertParticipant {rp : RequestParticipant} (hr : rp.requestID = r) :
    (Write.apply (.insertParticipant rp) d).demandOf r =
      (d.demandOf r).map fun x => x.join rp.customerID rp.quantity := by
  refine demandOf_participants fun pr => ?_
  unfold Demand.join Db.participantsOf
  simp [hr]

theorem demandOf_setQuantity {q : Int} :
    (Write.apply (.setQuantity r c q) d).demandOf r =
      (d.demandOf r).map fun x => x.change c q := by
  refine demandOf_participants fun pr => ?_
  unfold Demand.change Db.participantsOf
  rw [filter_updateWhere _ _ _ (by intro x _; rfl)]
  unfold updateWhere
  simp only [List.map_map, Demand.mk.injEq, true_and, and_true]
  refine List.map_congr_left fun rp hrp => ?_
  have hr : rp.requestID = r := by simpa using (List.mem_filter.mp hrp).2
  by_cases e : rp.customerID = c <;> simp [hr, e]

theorem demandOf_deleteParticipant :
    (Write.apply (.deleteParticipant r c) d).demandOf r = (d.demandOf r).map fun x => x.leave c := by
  refine demandOf_participants fun pr => ?_
  unfold Demand.leave Db.participantsOf
  rw [List.filter_map, List.filter_filter, List.filter_filter]
  simp only [Demand.mk.injEq, true_and, and_true]
  refine congrArg (List.map _) (List.filter_congr fun rp _ => ?_)
  by_cases hr : rp.requestID = r <;> by_cases e : rp.customerID = c <;> simp [hr, e]

/-- a new row is a new entry that nobody is on -/
theorem demandOf_insertRequest {pr : PurchaseRequest} (hf : d.findRequest pr.requestID = none)
    (hp : d.participantsOf pr.requestID = []) :
    (Write.apply (.insertRequest pr) d).demandOf pr.requestID =
      some ⟨pr.itemName, [], pr.totalOffers⟩ := by
  have hfind : (Write.apply (.insertRequest pr) d).findRequest pr.requestID = some pr := by
    show (d.requests ++ [pr]).find? _ = _
    rw [List.find?_append, show d.requests.find? _ = none from hf]
    simp
  unfold Db.demandOf
  rw [hfind]
  show some (⟨_, (d.participantsOf pr.requestID).map _, _⟩ : Demand String UUID) = _
  rw [hp]
  rfl

/-! ## a transaction on one request -/

variable {P : Type} [DecidableEq P] {calls : P → Invocation} {p : P}
variable {new : Option String} {x y : Option (Demand String UUID)}

/-- the transaction of `p` holds the lock of the request `r` and has written on nothing else; the entry
is `x` for the others, and `y` as it leaves it.  A name that it is to list is under its lock. -/
structure At (p : P) (r : UUID) (new : Option String) (x y : Option (Demand String UUID)) (s : St P) :
    Prop where
  held : s.locks (.request r) = some p
  only : ∀ w ∈ s.pending p, ∀ r', Lock.request r' ∈ w.guards → r' = r
  before : s.committed.demandOf r = x
  now : (s.view p).demandOf r = y
  claim : ∀ n, new = some n → s.locks (.item (itemLock n)) = some p ∧ Unused n s.committed
  fresh : s.commitsOf p = []

/-- what belongs to a request has its row -/
def Rooted (d : Db) : Prop := ∀ r, d.findRequest r = none → d.participantsOf r = []

/-- the commits are events of the board, one for each call -/
structure Plays (calls : P → Invocation) (d : Db) (log : List (Commit P Db)) : Prop where
  rooted : Rooted d
  refines : Refines (board requestItemKey) Db.onBoard (fun p => (calls p).May) Db.empty d log

/-- every run is known to be good -/
noncomputable def plays (calls : P → Invocation) : Terms ((spec (P := P)).knowing (Good calls)) where
  I d log _ := Good calls d log ∧ Plays calls d log
  R _ _ _ := True
  refl _ _ := trivial
  trans _ _ _ _ _ _ := trivial
  note _ := trivial
  remote {_ _ r} := nomatch r
  env_R _ := trivial
  env_I _ h := nomatch h

theorem At.stable : (plays calls).Stable p fun σ => At p r new x y σ.store := by
  intro σ τ hr hi h
  refine ⟨(hr.seen.locks _).mpr h.held, ?_, ?_, ?_, fun n hn => ?_,
    hr.seen.commitsOf.trans h.fresh⟩
  · rw [hr.seen.pending]
    exact h.only
  · rw [demandOf_congr (hr.seen.same _ h.held)]
    exact h.before
  · rw [demandOf_congr (hr.seen.view h.held)]
    exact h.now
  · obtain ⟨hl, hu⟩ := h.claim n hn
    exact ⟨(hr.seen.locks _).mpr hl, hu.congr (hr.seen.same _ hl)⟩

/-- one more write on the same request -/
theorem At.put {s t : St P} {w : Write} {z : Option (Demand String UUID)} (h : At p r new x y s)
    (hw : WellLocked s) (hput : s.put p w = some t)
    (hg : ∀ l ∈ w.guards, l ∈ w.takes ∨ l = .request r)
    (hr : ∀ r', Lock.request r' ∈ w.guards → r' = r) (hz : (w.apply (s.view p)).demandOf r = z) :
    WellLocked t ∧ At p r new x z t := by
  refine ⟨wellLocked_put hw hput fun l hl => ?_, put_keeps hput h.held, ?_, ?_, ?_, fun n hn => ?_,
    ?_⟩
  · rcases hg l hl with ht | rfl
    · exact .inl ht
    · exact .inr h.held
  · rw [put_pending hput]
    intro v hv
    rcases List.mem_append.mp hv with hv | hv
    · exact h.only v hv
    · rw [List.mem_singleton.mp hv]
      exact hr
  · rw [(Quiet.put hput).committed]
    exact h.before
  · rw [put_view hput]
    exact hz
  · obtain ⟨hl, hu⟩ := h.claim n hn
    exact ⟨put_keeps hput hl, (Quiet.put hput).committed.symm ▸ hu⟩
  · unfold Store.commitsOf
    rw [(Quiet.put hput).log]
    exact h.fresh

/-- a write on what belongs to the request, but not its row -/
theorem At.putPart {s t : St P} {w : Write} {z : Option (Demand String UUID)} (h : At p r new x y s)
    (hw : WellLocked s) (hput : s.put p w = some t) (hg : w.guards = [.request r])
    (hz : (w.apply (s.view p)).demandOf r = z) : WellLocked t ∧ At p r new x z t := by
  refine h.put hw hput (fun l hl => ?_) (fun r' hr' => ?_) hz
  · rw [hg, List.mem_singleton] at hl
    exact .inr hl
  · rw [hg, List.mem_singleton] at hr'
    exact Lock.request.inj hr'

/-- the board after the commit: one entry has changed -/
theorem At.onBoard {s : St P} (h : At p r new x y s) :
    (s.view p).onBoard = Function.update s.committed.onBoard r y := by
  funext r'
  by_cases e : r' = r
  · subst e
    rw [Function.update_self]
    exact h.now
  · rw [Function.update_of_ne e]
    have hsame : Schema.same Write (Lock.request r') s.committed (s.view p) :=
      same_applyAll _ (fun w hw hm => e (h.only w hw r' hm)) _
    exact demandOf_congr hsame

theorem At.rooted {s : St P} (h : At p r new x y s) (hy : y ≠ none) (hr : Rooted s.committed) :
    Rooted (s.view p) := by
  intro r' hn
  by_cases e : r' = r
  · subst e
    exact absurd (h.now.symm.trans (demandOf_none.mpr hn)) hy
  · have hsame : Schema.same Write (Lock.request r') s.committed (s.view p) :=
      same_applyAll _ (fun w hw hm => e (h.only w hw r' hm)) _
    have hp : s.committed.participantsOf r' = (s.view p).participantsOf r' := hsame.2.1
    rw [← hp]
    exact hr r' ((findRequest_congr hsame).symm.trans hn)

/-- a commit by one who has not committed yet -/
theorem Plays.commit {s : St P} (hi : Plays calls s.committed s.log) (hf : s.commitsOf p = [])
    (hr : Rooted (s.view p))
    (ht : Takes (board requestItemKey) Db.onBoard (fun p => (calls p).May)
      ⟨p, s.committed, s.view p⟩) :
    Plays calls (s.view p) (⟨p, s.committed, s.view p⟩ :: s.log) :=
  ⟨hr, hi.refines.commit hf ht⟩

theorem unlisted_of_unused {d : Db} {n : String} (h : Unused n d) :
    Unlisted requestItemKey n d.onBoard := by
  intro r z hz hk
  obtain ⟨pr, hpr, rfl⟩ := Option.map_eq_some_iff.mp hz
  refine unused_iff.mp h (List.mem_map.mpr ⟨pr.itemName, ?_, hk⟩)
  exact List.mem_map.mpr ⟨pr, List.mem_of_find?_eq_some hpr, rfl⟩

/-- **an event on the entry may be committed** -/
theorem At.plays {s : St P} {v : Event UUID String UUID} (h : At p v.entry new x (v.effect x) s)
    (hy : v.effect x ≠ none) (hi : Plays calls s.committed s.log) (hm : (calls p).May v)
    (hx : v.Fits requestItemKey x) (hn : v.lists = new) :
    Plays calls (s.view p) (⟨p, s.committed, s.view p⟩ :: s.log) := by
  refine hi.commit h.fresh (h.rooted hy hi.rooted) ⟨v, hm, ⟨?_, fun n hl => ?_⟩, ?_⟩
  · show v.Fits requestItemKey (s.committed.demandOf v.entry)
    rw [h.before]
    exact hx
  · exact unlisted_of_unused (h.claim n (hn.symm.trans hl)).2
  · show (s.view p).onBoard = Event.apply v s.committed.onBoard
    rw [h.onBoard, Event.apply]
    show _ = Function.update s.committed.onBoard v.entry (v.effect (s.committed.demandOf v.entry))
    rw [h.before]

/-! ## what the board refuses -/

/-- what the board is like when it refuses a call -/
def Invocation.Refused : Invocation → Err → Board UUID String UUID → Prop
  | .create c inp, e, b => ∃ r x, b r = some x ∧
      requestItemKey x.itemName = requestItemKey inp.itemName ∧
      (e = .alreadyParticipant ∧ c ∈ x.customers ∨
        ∃ existing, e = .requestExists existing ∧ existing.requestID = r ∧ c ∉ x.customers)
  | .ensureForItem _, _, _ => False
  | .join r c _ _, e, b => e = .requestNotFound ∧ b r = none ∨
      e = .alreadyParticipant ∧ ∃ x, b r = some x ∧ c ∈ x.customers
  | .updateQuantity r c _, e, b => e = .requestNotFound ∧ b r = none ∨
      e = .notParticipant ∧ ∃ x, b r = some x ∧ c ∉ x.customers
  | .leave r c, e, b => e = .requestNotFound ∧ b r = none ∨
      e = .notParticipant ∧ ∃ x, b r = some x ∧ c ∉ x.customers
  | .setOfferCount r _, e, b => e = .requestNotFound ∧ b r = none

/-- a database error, or a refusal of the board that has committed nothing -/
def Refuses (inv : Invocation) (p : P) (e : Err) (s : St P) : Prop :=
  e.isDatabase = true ∨
    (s.commitsOf p = [] ∧ ∃ d, Moment Db.empty s.log d ∧ inv.Refused e d.onBoard)

theorem Refuses.stable {inv : Invocation} (e : Err) :
    (plays calls).Stable p fun σ => Refuses inv p e σ.store := by
  intro σ τ hr hi h
  refine h.imp id fun hx => ⟨hr.seen.commitsOf.trans hx.1, ?_⟩
  obtain ⟨d, hd, he⟩ := hx.2
  exact ⟨d, hd.seen hr.seen, he⟩

/-- refused by the board as it is now -/
theorem Refuses.now {inv : Invocation} {e : Err} {s : St P} (hg : Good calls s.committed s.log)
    (hf : s.commitsOf p = []) (h : inv.Refused e s.committed.onBoard) : Refuses inv p e s :=
  .inr ⟨hf, _, hg.chained.moment, h⟩

/-- an entry that was once on the board is there now, under its name -/
theorem Plays.lasting {d : Db} {log : List (Commit P Db)} (h : Plays calls d log) {d₀ : Db}
    (hd : Moment Db.empty log d₀) {z : Demand String UUID} (hz : d₀.onBoard r = some z) :
    ∃ z', d.onBoard r = some z' ∧ z'.itemName = z.itemName := by
  have hkept : ∀ (v : Event UUID String UUID) (b : Board UUID String UUID),
      v.Allowed requestItemKey b → ∀ z, b r = some z →
      ∃ z', v.apply b r = some z' ∧ z'.itemName = z.itemName :=
    fun v b hv z hz => apply_lasting hv hz
  have hsince := h.refines.since
    (R := fun b b' => ∀ z, b r = some z → ∃ z', b' r = some z' ∧ z'.itemName = z.itemName)
    (fun _ z hz => ⟨z, hz, rfl⟩) (fun a b c hab hbc z hz => by
      obtain ⟨y, hy, hn⟩ := hab z hz
      obtain ⟨w, hw, hn'⟩ := hbc y hy
      exact ⟨w, hw, hn'.trans hn⟩) hkept hd
  exact hsince z hz

/-! ## the rules of the statements -/

theorem lockRequest_found {q : Choice Unit} {s t : St P} {a : PurchaseRequest}
    (h : stmt p (.lockRequest r) q s = some (.ok a, t)) : (s.view p).findRequest r = some a := by
  simp only [stmt] at h
  split at h
  · rename_i pr hpr
    obtain ⟨u, -, e⟩ := Option.map_eq_some_iff.mp h
    cases e
    exact hpr
  · exact (failing_ok h).elim

theorem lockRequest_none {q : Choice Unit} {s t : St P}
    (h : stmt p (.lockRequest r) q s = some (.error .noRows, t)) :
    (s.view p).findRequest r = none := by
  simp only [stmt] at h
  split at h
  · obtain ⟨u, -, e⟩ := Option.map_eq_some_iff.mp h
    cases e
  · assumption

theorem addParticipant_fits {x : Choice Unit} {s t : St P} {q : Int} {a : RequestParticipant}
    (h : stmt p (.addParticipant r c q) x s = some (.ok a, t)) :
    0 < q ∧ a.customerID = c ∧ (s.view p).findParticipant r c = none := by
  simp only [stmt] at h
  split at h
  · exact (failing_ok h).elim
  · rename_i hq
    split at h
    · cases h
    · split at h
      · exact (failing_ok h).elim
      · rename_i hn
        split at h
        · exact (failing_ok h).elim
        · obtain ⟨e, -⟩ := writing_eq h
          cases e
          exact ⟨Int.not_le.mp hq, rfl, not_not.mp hn⟩

theorem addParticipant_unique {x : Choice Unit} {s t : St P} {q : Int}
    (h : stmt p (.addParticipant r c q) x s = some (.error .uniqueViolation, t)) :
    (s.view p).findParticipant r c ≠ none := by
  simp only [stmt] at h
  split at h
  · cases (failing_eq h).1
  · split at h
    · cases h
    · split at h
      · assumption
      · split at h
        · cases (failing_eq h).1
        · cases (writing_eq h).1

theorem updateParticipantQuantity_fits {x : Choice Unit} {s t : St P} {q : Int}
    {a : RequestParticipant}
    (h : stmt p (.updateParticipantQuantity r c q) x s = some (.ok a, t)) :
    0 < q ∧ (s.view p).findParticipant r c ≠ none := by
  simp only [stmt] at h
  split at h
  · rename_i rp hrp
    split at h
    · exact (failing_ok h).elim
    · rename_i hq
      refine ⟨Int.not_le.mp hq, fun hn => ?_⟩
      cases hrp.symm.trans hn
  · exact (failing_ok h).elim

theorem updateParticipantQuantity_none {x : Choice Unit} {s t : St P} {q : Int}
    (h : stmt p (.updateParticipantQuantity r c q) x s = some (.error .noRows, t)) :
    (s.view p).findParticipant r c = none := by
  simp only [stmt] at h
  split at h
  · split at h
    · cases (failing_eq h).1
    · cases (writing_eq h).1
  · assumption

theorem deleteParticipant_cases {x : Choice Unit} {s t : St P} {a : Nat}
    (h : stmt p (.deleteParticipant r c) x s = some (.ok a, t)) :
    (a = 0 ∧ t = s ∧ (s.view p).findParticipant r c = none) ∨
    (a = 1 ∧ (s.view p).findParticipant r c ≠ none ∧ s.put p (.deleteParticipant r c) = some t) := by
  simp only [stmt] at h
  split at h
  · rename_i rp hrp
    obtain ⟨e, hp⟩ := writing_eq h
    cases e
    refine .inr ⟨rfl, fun hn => ?_, hp⟩
    cases hrp.symm.trans hn
  · cases h
    exact .inl ⟨rfl, rfl, by assumption⟩

theorem getParticipant_found {x : Choice Unit} {s t : St P} {a : RequestParticipant}
    (h : stmt p (.getParticipant r c) x s = some (.ok a, t)) :
    t = s ∧ (s.view p).findParticipant r c ≠ none := by
  simp only [stmt] at h
  split at h
  · rename_i rp hrp
    cases h
    refine ⟨rfl, fun hn => ?_⟩
    cases hrp.symm.trans hn
  · exact (failing_ok h).elim

theorem getParticipant_none {x : Choice Unit} {s t : St P}
    (h : stmt p (.getParticipant r c) x s = some (.error .noRows, t)) :
    (s.view p).findParticipant r c = none := by
  simp only [stmt] at h
  split at h
  · cases h
  · assumption

/-- a statement whose error is looked at; one that fails changes nothing -/
theorem linear_query {q : Stmt} {A : State P Db Write Lock Unit → Prop}
    {B : Except PgErr (Row q) → State P Db Write Lock Unit → Prop}
    {F : Err → State P Db Write Lock Unit → Prop} (hA : (plays calls).Stable p A)
    (hB : ∀ a, (plays calls).Stable p (B a))
    (hok : ∀ σ x a t, (plays calls).Inv σ → A σ → stmt p q x σ.store = some (.ok a, t) →
      WellLocked t ∧ B (.ok a) ⟨t, ()⟩)
    (herr : ∀ σ e, (plays calls).Inv σ → A σ →
      (e = .other ∨ ∃ x, stmt p q x σ.store = some (.error e, σ.store)) → B (.error e) σ) :
    (plays calls).Triple p A (query q) B F := by
  refine Terms.Triple.query hA hB (fun σ x a t hi ha hs => ?_)
    fun σ hi ha => herr σ .other hi ha (.inl rfl)
  have hs : stmt p q x σ.store = some (a, t) := hs
  cases a with
  | ok a =>
    obtain ⟨hw, hb⟩ := hok σ x a t hi ha hs
    exact ⟨hw, hi.holds, hb⟩
  | error e =>
    obtain rfl := stmt_error hs
    exact ⟨hi.locked, hi.holds, herr σ e hi ha (.inr ⟨x, hs⟩)⟩

/-- a statement whose error is passed on -/
theorem linear_exec {inv : Invocation} {q : Stmt} {text : String}
    {A : State P Db Write Lock Unit → Prop} {B : Row q → State P Db Write Lock Unit → Prop}
    (hA : (plays calls).Stable p A) (hB : ∀ a, (plays calls).Stable p (B a))
    (h : ∀ σ x a t, (plays calls).Inv σ → A σ → stmt p q x σ.store = some (.ok a, t) →
      WellLocked t ∧ B a ⟨t, ()⟩) :
    (plays calls).Triple p A (exec text q) B fun e σ => Refuses inv p e σ.store := by
  refine Terms.Triple.sqlThrows hA hB (fun e => Refuses.stable _) (fun σ x a t hi ha hs => ?_)
    fun _ _ _ => .inl rfl
  have hs : stmt p q x σ.store = some (a, t) := hs
  cases a with
  | ok a =>
    obtain ⟨hw, hb⟩ := h σ x a t hi ha hs
    exact ⟨hw, hi.holds, hb⟩
  | error e =>
    obtain rfl := stmt_error hs
    exact ⟨hi.locked, hi.holds, .inl rfl⟩

/-! ## what each operation does -/

theorem idle_stable : (plays calls).Stable p fun σ => Idle p σ.store :=
  fun σ τ hr hi h => ⟨Terms.Stable.pending (· = []) σ τ hr hi h.pending,
    Terms.Stable.commitsOf (· = []) σ τ hr hi h.fresh⟩

/-- what a transaction ends in may be committed -/
theorem linear_inTx {α : Type} {fn : Op α} {M : α → State P Db Write Lock Unit → Prop}
    (hfn : (plays calls).Triple p (fun σ => Idle p σ.store) fn M
      fun e σ => Refuses (calls p) p e σ.store)
    (hM : ∀ a σ, (plays calls).Inv σ → M a σ →
      Plays calls (σ.store.view p) (⟨p, σ.store.committed, σ.store.view p⟩ :: σ.store.log)) :
    (plays calls).Triple p (fun σ => Idle p σ.store) (inTx fn) (fun _ _ => True)
      fun e σ => Refuses (calls p) p e σ.store := by
  refine Terms.Triple.inTx_may idle_stable idle_stable (fun _ => Terms.Stable.const True)
    Refuses.stable (fun _ _ _ h => ⟨h.pending, h.fresh⟩) hfn (fun _ _ _ h => h)
    (fun a σ hi h => ⟨fun hmay => ⟨(Spec.knowing_commit hmay).2, hM a σ hi h⟩, trivial⟩)
    (fun _ _ => .inl rfl) fun _ _ => .inl rfl

/-- what is left by a query whose caller reports a missing row, and no other failure, as its own -/
def RowOr {α : Type} (found missing : St P → Prop) : Except PgErr α → St P → Prop
  | .ok _ => found
  | .error .noRows => missing
  | .error _ => fun _ => True

theorem RowOr.stable {α : Type} {found missing : St P → Prop}
    (hf : (plays calls).Stable p fun σ => found σ.store)
    (hm : (plays calls).Stable p fun σ => missing σ.store) (a : Except PgErr α) :
    (plays calls).Stable p fun σ => RowOr found missing a σ.store := by
  cases a with
  | ok a => exact hf
  | error e =>
    cases e with
    | noRows => exact hm
    | uniqueViolation => exact Terms.Stable.const True
    | integrityViolation => exact Terms.Stable.const True
    | other => exact Terms.Stable.const True

/-- `SELECT .. FOR UPDATE`: the entry is there, or the call is refused -/
theorem linear_lockRequest
    (hx : ∀ b : Board UUID String UUID, b r = none → (calls p).Refused .requestNotFound b) :
    (plays calls).Triple p (fun σ => Idle p σ.store) (lockRequest r)
      (fun _ σ => ∃ x, At p r none (some x) (some x) σ.store)
      fun e σ => Refuses (calls p) p e σ.store := by
  have hstable : (plays calls).Stable p fun σ => ∃ x, At p r none (some x) (some x) σ.store :=
    .ex fun _ => At.stable
  refine Terms.Triple.bind (B := fun a σ => RowOr
    (fun s => ∃ x, At p r none (some x) (some x) s)
    (fun s => Refuses (calls p) p .requestNotFound s) a σ.store)
    (linear_query idle_stable (RowOr.stable hstable (Refuses.stable _)) ?_ ?_) ?_
  · intro σ x a t hi h hs
    have hq := lockRequest_ok hs
    have hfind := lockRequest_found hs
    have ht := acquire_eq hq
    have hp : t.pending p = [] := by rw [ht]; exact h.pending
    obtain ⟨z, hz⟩ := demandOf_isSome hfind
    have hc : t.committed = σ.store.committed := by rw [ht]
    rw [view_of_pending h.pending, ← hc] at hz
    refine ⟨wellLocked_acquire hi.locked hq, z, acquire_locks hq, ?_, hz, ?_, ?_, ?_⟩
    · rw [hp]
      exact fun w hw => absurd hw List.not_mem_nil
    · rw [view_of_pending hp]
      exact hz
    · intro m hm
      cases hm
    · show t.commitsOf p = []
      rw [ht]
      exact h.fresh
  · intro σ e hi h he
    cases e with
    | noRows =>
      obtain ⟨x, hs⟩ := he.resolve_left PgErr.noConfusion
      have hn := lockRequest_none hs
      rw [view_of_pending h.pending] at hn
      exact .now hi.holds.1 h.fresh (hx _ (demandOf_none.mpr hn))
    | uniqueViolation => trivial
    | integrityViolation => trivial
    | other => trivial
  · intro a
    cases a with
    | ok a => exact .pure hstable fun _ _ h => h
    | error e =>
      cases e with
      | noRows => exact .throw (Refuses.stable _) fun _ _ h => h
      | uniqueViolation => exact .throw (Terms.Stable.const True) fun _ _ _ => .inl rfl
      | integrityViolation => exact .throw (Terms.Stable.const True) fun _ _ _ => .inl rfl
      | other => exact .throw (Terms.Stable.const True) fun _ _ _ => .inl rfl

/-- the recount leaves the entry alone -/
theorem linear_recalculateDemand {inv : Invocation} {text : String} :
    (plays calls).Triple p (fun σ => At p r new x y σ.store) (exec text (.recalculateDemand r))
      (fun _ σ => At p r new x y σ.store) fun e σ => Refuses inv p e σ.store := by
  refine linear_exec At.stable (fun _ => At.stable) fun σ _ a t hi h hs => ?_
  obtain ⟨pr, -, -, hp⟩ := recalculateDemand_ok hs
  refine h.put hi.locked hp (fun l hl => .inl hl) (by simp [Write.guards]) ?_
  rw [← h.now]
  exact demandOf_kept (by intro _; rfl) (by intro _; rfl) (by intro _; rfl)

/-- so does an event in the outbox -/
theorem linear_enqueue {inv : Invocation} (key : RoutingKey) (ns : List Notification) :
    (plays calls).Triple p (fun σ => At p r new x y σ.store) (enqueue key ns)
      (fun _ σ => At p r new x y σ.store) fun e σ => Refuses inv p e σ.store := by
  unfold enqueue
  by_cases e : ns = []
  · rw [if_pos e]
    exact .pure At.stable fun _ _ h => h
  · rw [if_neg e]
    refine linear_exec At.stable (fun _ => At.stable) fun σ _ a t hi h hs => ?_
    exact h.put hi.locked (insertOutbox_ok hs) (fun l hl => .inl hl) (by simp [Write.guards]) h.now

/-- a change of the participants is one statement: an event on the entry, or a refusal -/
theorem linear_mutate {q : Stmt} {f : Except PgErr (Row q) → Op Unit} {z : Demand String UUID}
    {v : Event UUID String UUID}
    (hother : ∃ e, f (.error .other) = throw e ∧ e.isDatabase = true)
    (h : ∀ (s : St P) x a t, WellLocked s → At p r none (some z) (some z) s →
      stmt p q x s = some (a, t) →
      (f a = pure () ∧ WellLocked t ∧ At p r none (some z) (v.effect (some z)) t ∧
        v.Fits requestItemKey (some z)) ∨
      ∃ e, f a = throw e ∧ t = s ∧ (e.isDatabase = true ∨
        ∀ b : Board UUID String UUID, b r = some z → (calls p).Refused e b)) :
    (plays calls).Triple p (fun σ => At p r none (some z) (some z) σ.store) (query q >>= f)
      (fun _ σ => At p r none (some z) (v.effect (some z)) σ.store ∧ v.Fits requestItemKey (some z))
      fun e σ => Refuses (calls p) p e σ.store := by
  have hdone : (plays calls).Stable p fun σ => At p r none (some z) (v.effect (some z)) σ.store ∧
      v.Fits requestItemKey (some z) := At.stable.and (.const _)
  have hB : ∀ a : Except PgErr (Row q), (plays calls).Stable p fun σ =>
      (f a = pure () ∧ At p r none (some z) (v.effect (some z)) σ.store ∧
        v.Fits requestItemKey (some z)) ∨
      ∃ e, f a = throw e ∧ Refuses (calls p) p e σ.store := by
    intro a σ τ hr hi h
    refine h.imp (fun hd => ⟨hd.1, hdone σ τ hr hi hd.2⟩) fun he => ?_
    obtain ⟨e, hf, hx⟩ := he
    exact ⟨e, hf, Refuses.stable e σ τ hr hi hx⟩
  refine Terms.Triple.bind (Terms.Triple.query At.stable hB (fun σ x a t hi ha hs => ?_)
    fun σ hi ha => ?_) fun a σ hσ => ?_
  · rcases h σ.store x a t hi.locked ha hs with ⟨hf, hw, hd⟩ | ⟨e, hf, rfl, he⟩
    · exact ⟨hw, hi.holds, .inl ⟨hf, hd⟩⟩
    · refine ⟨hi.locked, hi.holds, .inr ⟨e, hf, he.imp id fun hb => ⟨ha.fresh, ?_⟩⟩⟩
      exact ⟨_, hi.holds.1.chained.moment, hb _ ha.before⟩
  · obtain ⟨e, hf, he⟩ := hother
    exact .inr ⟨e, hf, .inl he⟩
  · rcases hσ with ⟨hf, hd⟩ | ⟨e, hf, hx⟩
    · rw [hf]
      exact Terms.Triple.pure hdone (fun _ _ h => h) σ hd
    · rw [hf]
      exact Terms.Triple.throw (Refuses.stable e) (fun _ _ h => h) σ hx

section
variable {z : Demand String UUID} {n : Int}

/-- a customer joins an entry, unless on it already -/
theorem linear_addParticipant
    (hx : ∀ b : Board UUID String UUID, b r = some z → c ∈ z.customers →
      (calls p).Refused .alreadyParticipant b) :
    (plays calls).Triple p (fun σ => At p r none (some z) (some z) σ.store) (addParticipant r c n)
      (fun _ σ => At p r none (some z) ((Event.joined r c n).effect (some z)) σ.store ∧
        (Event.joined r c n).Fits requestItemKey (some z))
      fun e σ => Refuses (calls p) p e σ.store := by
  refine linear_mutate ⟨_, rfl, rfl⟩ fun s x a t hw h hs => ?_
  cases a with
  | ok a =>
    obtain ⟨hr, hp⟩ := addParticipant_ok hs
    obtain ⟨hq, hc, hnone⟩ := addParticipant_fits hs
    refine .inl ⟨rfl, ?_⟩
    obtain ⟨hw', ht⟩ := h.putPart hw hp (by rw [← hr]; rfl) (demandOf_insertParticipant hr)
    rw [h.now, hc, addParticipant_quantity hs] at ht
    refine ⟨hw', ht, ⟨z, rfl, fun hm => ?_⟩, hq⟩
    exact (mem_customers h.now).mp hm hnone
  | error e =>
    obtain rfl := stmt_error hs
    refine .inr ?_
    cases e with
    | uniqueViolation =>
      have hm := (mem_customers h.now).mpr (addParticipant_unique hs)
      exact ⟨_, rfl, rfl, .inr fun b hb => hx b hb hm⟩
    | noRows => exact ⟨_, rfl, rfl, .inl rfl⟩
    | integrityViolation => exact ⟨_, rfl, rfl, .inl rfl⟩
    | other => exact ⟨_, rfl, rfl, .inl rfl⟩

/-- a customer on an entry changes the quantity -/
theorem linear_changeQuantity
    (hx : ∀ b : Board UUID String UUID, b r = some z → c ∉ z.customers →
      (calls p).Refused .notParticipant b) :
    (plays calls).Triple p (fun σ => At p r none (some z) (some z) σ.store) (changeQuantity r c n)
      (fun _ σ => At p r none (some z) ((Event.changed r c n).effect (some z)) σ.store ∧
        (Event.changed r c n).Fits requestItemKey (some z))
      fun e σ => Refuses (calls p) p e σ.store := by
  refine linear_mutate ⟨_, rfl, rfl⟩ fun s x a t hw h hs => ?_
  cases a with
  | ok a =>
    obtain ⟨hq, hfind⟩ := updateParticipantQuantity_fits hs
    refine .inl ⟨rfl, ?_⟩
    obtain ⟨hw', ht⟩ := h.putPart hw (updateParticipantQuantity_ok hs) rfl demandOf_setQuantity
    rw [h.now] at ht
    exact ⟨hw', ht, ⟨z, rfl, (mem_customers h.now).mpr hfind⟩, hq⟩
  | error e =>
    obtain rfl := stmt_error hs
    refine .inr ?_
    cases e with
    | noRows =>
      have hm := fun hc => (mem_customers h.now).mp hc (updateParticipantQuantity_none hs)
      exact ⟨_, rfl, rfl, .inr fun b hb => hx b hb hm⟩
    | uniqueViolation => exact ⟨_, rfl, rfl, .inl rfl⟩
    | integrityViolation => exact ⟨_, rfl, rfl, .inl rfl⟩
    | other => exact ⟨_, rfl, rfl, .inl rfl⟩

/-- a customer on an entry leaves it -/
theorem linear_removeParticipant
    (hx : ∀ b : Board UUID String UUID, b r = some z → c ∉ z.customers →
      (calls p).Refused .notParticipant b) :
    (plays calls).Triple p (fun σ => At p r none (some z) (some z) σ.store) (removeParticipant r c)
      (fun _ σ => At p r none (some z) ((Event.left r c).effect (some z)) σ.store ∧
        (Event.left r c).Fits requestItemKey (some z))
      fun e σ => Refuses (calls p) p e σ.store := by
  refine linear_mutate ⟨_, rfl, rfl⟩ fun s x a t hw h hs => ?_
  cases a with
  | ok a =>
    rcases deleteParticipant_cases hs with ⟨rfl, rfl, hnone⟩ | ⟨rfl, hfind, hp⟩
    · have hm := fun hc => (mem_customers h.now).mp hc hnone
      exact .inr ⟨_, rfl, rfl, .inr fun b hb => hx b hb hm⟩
    · refine .inl ⟨rfl, ?_⟩
      obtain ⟨hw', ht⟩ := h.putPart hw hp rfl demandOf_deleteParticipant
      rw [h.now] at ht
      exact ⟨hw', ht, z, rfl, (mem_customers h.now).mpr hfind⟩
  | error e =>
    obtain rfl := stmt_error hs
    exact .inr ⟨_, rfl, rfl, .inl rfl⟩

end

/-- **a change of the participants is one event** -/
theorem linear_mutateParticipants {mutate : Op Unit} {v : Event UUID String UUID}
    {notify : Option (PurchaseRequest → List Notification)}
    (hx : ∀ b : Board UUID String UUID, b v.entry = none → (calls p).Refused .requestNotFound b)
    (hm : ∀ z, (plays calls).Triple p (fun σ => At p v.entry none (some z) (some z) σ.store) mutate
      (fun _ σ => At p v.entry none (some z) (v.effect (some z)) σ.store ∧
        v.Fits requestItemKey (some z))
      fun e σ => Refuses (calls p) p e σ.store)
    (hmay : (calls p).May v) (hlists : v.lists = none) (heffect : ∀ z, v.effect (some z) ≠ none) :
    (plays calls).Triple p (fun σ => Idle p σ.store) (mutateParticipants v.entry mutate notify)
      (fun _ _ => True) fun e σ => Refuses (calls p) p e σ.store := by
  have hstable : ∀ z, (plays calls).Stable p fun σ =>
      At p v.entry none (some z) (v.effect (some z)) σ.store ∧ v.Fits requestItemKey (some z) :=
    fun z => At.stable.and (.const _)
  refine linear_inTx (M := fun _ σ => ∃ z, At p v.entry none (some z) (v.effect (some z)) σ.store ∧
      v.Fits requestItemKey (some z)) (.bind (linear_lockRequest hx) fun _ => ?_) ?_
  · intro σ hσ
    obtain ⟨z, hz⟩ := hσ
    refine Terms.Triple.bind (hm z) (fun _ => ?_) σ hz
    refine Terms.Triple.fact fun hfits => ?_
    refine .bind linear_recalculateDemand fun pr => ?_
    cases notify with
    | none => exact .pure At.stable fun _ _ h => ⟨z, h, hfits⟩
    | some f =>
      exact .bind (linear_enqueue .requestJoined (f pr)) fun _ =>
        .pure At.stable fun _ _ h => ⟨z, h, hfits⟩
  · intro _ σ hi h
    obtain ⟨z, h, hfits⟩ := h
    exact h.plays (heffect z) hi.holds.2 hmay hfits hlists

theorem linear_setOfferCount {n : Int} (hc : calls p = .setOfferCount r n) :
    (plays calls).Triple p (fun σ => Idle p σ.store) (setOfferCount r n) (fun _ _ => True)
      fun e σ => Refuses (calls p) p e σ.store := by
  have hx : ∀ b : Board UUID String UUID, b r = none →
      (calls p).Refused .requestNotFound b := by
    rw [hc]
    exact fun b hb => ⟨rfl, hb⟩
  refine linear_inTx (M := fun _ σ => ∃ z,
      At p r none (some z) ((Event.counted r n).effect (some z)) σ.store ∧ 0 ≤ n)
    (.bind (linear_lockRequest hx) fun _ => ?_) ?_
  · intro σ hσ
    obtain ⟨z, hz⟩ := hσ
    refine Terms.Triple.bind (B := fun _ σ =>
      At p r none (some z) ((Event.counted r n).effect (some z)) σ.store ∧ 0 ≤ n)
      (linear_exec At.stable (fun _ => At.stable.and (.const _)) fun σ _ a t hi h hs => ?_)
      (fun _ => ?_) σ hz
    · obtain ⟨hn, hp⟩ := setOfferCount_ok hs
      obtain ⟨hw, ht⟩ := h.put hi.locked hp (fun l hl => .inl hl) (by simp [Write.guards])
        (demandOf_updateRequest (g := fun _ => n) (by intro _; rfl) (by intro _; rfl)
          (by intro _; rfl))
      rw [h.now] at ht
      exact ⟨hw, ht, hn⟩
    · refine Terms.Triple.fact fun hn => ?_
      exact linear_recalculateDemand.weaken (fun _ h => h) (fun _ _ _ h => ⟨z, h, hn⟩)
        fun _ _ _ h => h
  · intro _ σ hi h
    obtain ⟨z, h, hn⟩ := h
    exact At.plays (v := .counted r n) h (by simp [Event.effect]) hi.holds.2 (by rw [hc]; rfl)
      ⟨⟨z, rfl⟩, hn⟩ rfl

/-! ## opening a request -/

theorem named_stable {n : String} : (plays calls).Stable p fun σ => Named p n σ.store :=
  fun σ τ hr hi h => ⟨idle_stable σ τ hr hi h.toIdle, (hr.seen.locks _).mpr h.lock⟩

/-- the entry goes by a name of this key -/
def Lists (n : String) (r : UUID) (d : Db) : Prop :=
  ∃ z, d.onBoard r = some z ∧ requestItemKey z.itemName = requestItemKey n

/-- what the look-up under the lock says of the board -/
def Sought (p : P) (n : String) : Except PgErr PurchaseRequest → St P → Prop
  | .ok pr, s => Named p n s ∧ ∃ d, Moment Db.empty s.log d ∧ Lists n pr.requestID d
  | .error .noRows, s => Named p n s ∧ Unused n s.committed
  | .error _, _ => True

theorem Sought.stable {n : String} (a : Except PgErr PurchaseRequest) :
    (plays calls).Stable p fun σ => Sought p n a σ.store := by
  intro σ τ hr hi h
  cases a with
  | ok pr =>
    obtain ⟨hn, d, hd, hl⟩ := h
    exact ⟨named_stable σ τ hr hi hn, d, hd.seen hr.seen, hl⟩
  | error e =>
    cases e with
    | noRows => exact ⟨named_stable σ τ hr hi h.1, h.2.congr (hr.seen.same _ h.1.lock)⟩
    | uniqueViolation => trivial
    | integrityViolation => trivial
    | other => trivial

/-- what was listed once is listed now -/
theorem Lists.now {n : String} {d d₀ : Db} {log : List (Commit P Db)} (hi : Plays calls d log)
    (hd : Moment Db.empty log d₀) (h : Lists n r d₀) : Lists n r d := by
  obtain ⟨z, hz, hk⟩ := h
  obtain ⟨z', hz', hn⟩ := hi.lasting hd hz
  exact ⟨z', hz', hn ▸ hk⟩

/-- a committed row is on the board -/
theorem Good.lists {d : Db} {log : List (Commit P Db)} (hg : Good calls d log) {n : String}
    {pr : PurchaseRequest} (hpr : pr ∈ d.requests)
    (hk : requestItemKey pr.itemName = requestItemKey n) : Lists n pr.requestID d := by
  have hm : pr ∈ d.rowsOf pr.requestID := List.mem_filter.mpr ⟨hpr, by simp⟩
  have hrows : d.rowsOf pr.requestID = [pr] := eq_singleton (hg.demand pr.requestID).one hm
  have hfind : d.findRequest pr.requestID = some pr := by
    unfold Db.findRequest
    rw [← List.head?_filter]
    show (d.rowsOf pr.requestID).head? = _
    rw [hrows]
    rfl
  exact ⟨_, congrArg (Option.map _) hfind, hk⟩

theorem linear_lockItemName {inv : Invocation} {n text : String} :
    (plays calls).Triple p (fun σ => Idle p σ.store) (exec text (.lockItemName n))
      (fun _ σ => Named p n σ.store) fun e σ => Refuses inv p e σ.store := by
  refine linear_exec idle_stable (fun _ => named_stable) fun σ x a t hi h hs => ?_
  have hq := lockItemName_ok hs
  have ht := acquire_eq hq
  refine ⟨wellLocked_acquire hi.locked hq, ⟨?_, ?_⟩, acquire_locks hq⟩
  · show t.pending p = []
    rw [ht]
    exact h.pending
  · show t.commitsOf p = []
    rw [ht]
    exact h.fresh

theorem linear_findRequestByItemName {n : String} {F : Err → State P Db Write Lock Unit → Prop} :
    (plays calls).Triple p (fun σ => Named p n σ.store) (query (.findRequestByItemName n))
      (fun a σ => Sought p n a σ.store) F := by
  refine linear_query named_stable Sought.stable (fun σ x a t hi h hs => ?_) fun σ e hi h hs => ?_
  · obtain ⟨rfl, hm, hk⟩ := findRequestByItemName_ok hs
    rw [view_of_pending h.pending] at hm
    exact ⟨hi.locked, h, _, hi.holds.1.chained.moment, hi.holds.1.lists hm hk⟩
  · cases e with
    | noRows =>
      obtain ⟨x, hs⟩ := hs.resolve_left PgErr.noConfusion
      have hn := findRequestByItemName_none hs
      rw [view_of_pending h.pending] at hn
      refine ⟨h, unused_iff.mpr fun hm => ?_⟩
      obtain ⟨m, hm, hk⟩ := List.mem_map.mp hm
      obtain ⟨pr, hpr, rfl⟩ := List.mem_map.mp hm
      exact hn pr hpr hk
    | uniqueViolation => trivial
    | integrityViolation => trivial
    | other => trivial

/-- a new entry that nobody is on yet -/
theorem linear_createRequest {inv : Invocation} {n desc cat text : String} {by_ : Option UUID} :
    (plays calls).Triple p (fun σ => Named p n σ.store ∧ Unused n σ.store.committed)
      (exec text (.createRequest n desc cat by_))
      (fun pr σ => At p pr.requestID (some n) none (some ⟨n, [], 0⟩) σ.store)
      fun e σ => Refuses inv p e σ.store := by
  refine linear_exec (Sought.stable (.error .noRows)) (fun _ => At.stable) fun σ x a t hi h hs => ?_
  obtain ⟨hn, hu⟩ := h
  obtain ⟨ha, hf, hp⟩ := createRequest_ok hs
  have hview := view_of_pending hn.pending
  have hpend : t.pending p = [.insertRequest a] := by
    rw [put_pending hp, hn.pending]
    rfl
  have hc : t.committed = σ.store.committed := (Quiet.put hp).committed
  have hname : a.itemName = n := by rw [ha]; rfl
  have hzero : a.totalOffers = 0 := by rw [ha]; rfl
  rw [hview] at hf
  refine ⟨wellLocked_put hi.locked hp fun l hl => ?_, put_takes hp List.mem_cons_self, ?_, ?_, ?_,
    fun m hm => ?_, ?_⟩
  · rcases List.mem_cons.mp hl with rfl | hl
    · exact .inl List.mem_cons_self
    · rw [List.mem_singleton.mp hl, hname]
      exact .inr hn.lock
  · intro w hw r' hr'
    rw [hpend, List.mem_singleton] at hw
    subst hw
    simpa [Write.guards] using hr'
  · show t.committed.demandOf a.requestID = none
    rw [hc]
    exact demandOf_none.mpr hf
  · show (t.view p).demandOf a.requestID = _
    rw [put_view hp, hview, ← hname, ← hzero]
    exact demandOf_insertRequest hf (hi.holds.2.rooted _ hf)
  · obtain rfl := Option.some.inj hm
    exact ⟨put_keeps hp hn.lock, hc.symm ▸ hu⟩
  · show t.commitsOf p = []
    unfold Store.commitsOf
    rw [(Quiet.put hp).log]
    exact hn.fresh

/-- a picture is not on the board -/
theorem linear_storeImage {inv : Invocation} (image : Bytes) (imageType : String) :
    (plays calls).Triple p (fun σ => At p r new x y σ.store) (storeImage r image imageType)
      (fun _ σ => At p r new x y σ.store) fun e σ => Refuses inv p e σ.store := by
  unfold storeImage
  by_cases e : image.length = 0
  · rw [if_pos e]
    exact .pure At.stable fun _ _ h => h
  · rw [if_neg e]
    refine .bind (B := fun _ σ => At p r new x y σ.store)
      (linear_exec At.stable (fun _ => At.stable) fun σ _ a t hi h hs => ?_) fun _ =>
      .bind (B := fun _ σ => At p r new x y σ.store)
        (linear_exec At.stable (fun _ => At.stable) fun σ _ a t hi h hs => ?_) fun _ =>
          .pure At.stable fun _ _ h => h
    · exact h.putPart hi.locked (setRequestImage_ok hs) rfl h.now
    · refine h.put hi.locked (setRequestImageType_ok hs) (fun l hl => .inl hl)
        (by simp [Write.guards]) ?_
      rw [← h.now]
      exact demandOf_kept (by intro _; rfl) (by intro _; rfl) (by intro _; rfl)

/-- an entry that its transaction has just listed -/
def Listed (p : P) (n : String) (first : Option (UUID × Int)) (s : St P) : Prop :=
  (∃ r, At p r (some n) none ((Event.opened r n first).effect none) s) ∧ ∀ w ∈ first, 0 < w.2

theorem linear_openRequest {inv : Invocation} {customerID : UUID} {inp : CreateInput} :
    (plays calls).Triple p
      (fun σ => Named p inp.itemName σ.store ∧ Unused inp.itemName σ.store.committed)
      (openRequest customerID inp)
      (fun _ σ => Listed p inp.itemName (some (customerID, inp.quantity)) σ.store)
      fun e σ => Refuses inv p e σ.store := by
  refine .bind linear_createRequest fun pr => .bind (B := fun _ σ =>
    At p pr.requestID (some inp.itemName) none
      (some ⟨inp.itemName, [(customerID, inp.quantity)], 0⟩) σ.store ∧ 0 < inp.quantity)
    (linear_exec At.stable (fun _ => At.stable.and (.const _)) fun σ x a t hi h hs => ?_)
    fun _ => .fact fun hq => ?_
  · obtain ⟨hr, hp⟩ := addParticipant_ok hs
    obtain ⟨hq, hc, -⟩ := addParticipant_fits hs
    obtain ⟨hw, ht⟩ := h.putPart hi.locked hp (by rw [← hr]; rfl) (demandOf_insertParticipant hr)
    rw [h.now, hc, addParticipant_quantity hs] at ht
    exact ⟨hw, ht, hq⟩
  · refine .bind (linear_storeImage _ _) fun _ => .bind linear_recalculateDemand fun created =>
      .bind (linear_enqueue _ _) fun _ => .pure At.stable fun _ _ h => ⟨⟨_, h⟩, fun w hw => ?_⟩
    obtain rfl := Option.some.inj hw
    exact hq

/-- an entry that is listed may be committed -/
theorem Listed.plays {n : String} {first : Option (UUID × Int)} {s : St P} (h : Listed p n first s)
    (hi : Plays calls s.committed s.log) (hm : ∀ r, (calls p).May (.opened r n first)) :
    Plays calls (s.view p) (⟨p, s.committed, s.view p⟩ :: s.log) := by
  obtain ⟨⟨r, h⟩, hq⟩ := h
  exact At.plays (v := .opened r n first) h (by simp [Event.effect]) hi (hm r) ⟨rfl, hq⟩ rfl

/-- a name collision is one with the board as it is when the participants are looked up -/
theorem linear_refuseExisting {customerID : UUID} {inp : CreateInput} {existing : PurchaseRequest}
    {Q : PurchaseRequest → State P Db Write Lock Unit → Prop}
    (hinv : calls p = .create customerID inp) :
    (plays calls).Triple p (fun σ => Sought p inp.itemName (.ok existing) σ.store)
      (refuseExisting existing customerID) Q fun e σ => Refuses (calls p) p e σ.store := by
  have refused : ∀ (s : St P) (e : Err), Good calls s.committed s.log →
      Plays calls s.committed s.log → Sought p inp.itemName (.ok existing) s →
      (∀ z, s.committed.onBoard existing.requestID = some z →
        e = .alreadyParticipant ∧ customerID ∈ z.customers ∨
        ∃ x, e = .requestExists x ∧ x.requestID = existing.requestID ∧ customerID ∉ z.customers) →
      Refuses (calls p) p e s := by
    intro s e hg hp h he
    obtain ⟨hn, d, hd, hl⟩ := h
    obtain ⟨z, hz, hk⟩ := hl.now hp hd
    refine .now hg hn.fresh ?_
    rw [hinv]
    exact ⟨_, z, hz, hk, he z hz⟩
  refine Terms.Triple.bind (B := fun a σ => RowOr
    (fun s => Refuses (calls p) p .alreadyParticipant s)
    (fun s => Refuses (calls p) p (.requestExists existing) s) a σ.store)
    (linear_query (Sought.stable _) (RowOr.stable (Refuses.stable _) (Refuses.stable _)) ?_ ?_) ?_
  · intro σ x a t hi h hs
    obtain ⟨rfl, hfind⟩ := getParticipant_found hs
    rw [view_of_pending h.1.pending] at hfind
    refine ⟨hi.locked, refused _ _ hi.holds.1 hi.holds.2 h fun z hz => .inl ⟨rfl, ?_⟩⟩
    exact (mem_customers hz).mpr hfind
  · intro σ e hi h he
    cases e with
    | noRows =>
      obtain ⟨x, hs⟩ := he.resolve_left PgErr.noConfusion
      have hnone := getParticipant_none hs
      rw [view_of_pending h.1.pending] at hnone
      refine refused _ _ hi.holds.1 hi.holds.2 h fun z hz => .inr ⟨_, rfl, rfl, fun hm => ?_⟩
      exact (mem_customers hz).mp hm hnone
    | uniqueViolation => trivial
    | integrityViolation => trivial
    | other => trivial
  · intro a
    cases a with
    | ok a => exact .throw (Refuses.stable _) fun _ _ h => h
    | error e =>
      cases e with
      | noRows => exact .throw (Refuses.stable _) fun _ _ h => h
      | uniqueViolation => exact .throw (Terms.Stable.const True) fun _ _ _ => .inl rfl
      | integrityViolation => exact .throw (Terms.Stable.const True) fun _ _ _ => .inl rfl
      | other => exact .throw (Terms.Stable.const True) fun _ _ _ => .inl rfl

theorem linear_create {customerID : UUID} {inp : CreateInput}
    (hinv : calls p = .create customerID inp) :
    (plays calls).Triple p (fun σ => Idle p σ.store) (create customerID inp) (fun _ _ => True)
      fun e σ => Refuses (calls p) p e σ.store := by
  refine linear_inTx
    (M := fun _ σ => Listed p inp.itemName (some (customerID, inp.quantity)) σ.store)
    (.bind linear_lockItemName fun _ => .bind linear_findRequestByItemName fun a => ?_)
    fun _ σ hi h => h.plays hi.holds.2 fun r => ?_
  · cases a with
    | ok existing => exact linear_refuseExisting hinv
    | error e =>
      cases e with
      | noRows => exact linear_openRequest
      | uniqueViolation => exact .throw (Sought.stable _) fun _ _ _ => .inl rfl
      | integrityViolation => exact .throw (Sought.stable _) fun _ _ _ => .inl rfl
      | other => exact .throw (Sought.stable _) fun _ _ _ => .inl rfl
  · rw [hinv]
    exact ⟨r, rfl⟩

/-- a commit of nothing, on a name that is listed -/
theorem Sought.plays {n : String} {existing : PurchaseRequest} {s : St P}
    (h : Sought p n (.ok existing) s) (hi : Plays calls s.committed s.log)
    (hm : ∀ r, (calls p).May (.found r n)) :
    Plays calls (s.view p) (⟨p, s.committed, s.view p⟩ :: s.log) := by
  obtain ⟨hn, d, hd, hl⟩ := h
  have hview : s.view p = s.committed := view_of_pending hn.pending
  obtain ⟨z, hz, hk⟩ := hl.now hi hd
  refine hi.commit hn.fresh (hview ▸ hi.rooted)
    ⟨_, hm existing.requestID, ⟨⟨z, hz, hk⟩, fun _ hw => ?_⟩, ?_⟩
  · cases hw
  show (s.view p).onBoard = Function.update s.committed.onBoard existing.requestID
    (s.committed.onBoard existing.requestID)
  rw [hview, Function.update_eq_self]

theorem linear_ensureForItem {inp : EnsureInput} (hinv : calls p = .ensureForItem inp) :
    (plays calls).Triple p (fun σ => Idle p σ.store) (ensureForItem inp) (fun _ _ => True)
      fun e σ => Refuses (calls p) p e σ.store := by
  refine linear_inTx (M := fun a σ => Listed p inp.itemName none σ.store ∨
      Sought p inp.itemName (.ok a.1) σ.store)
    (.bind linear_lockItemName fun _ => .bind linear_findRequestByItemName fun a => ?_) ?_
  · cases a with
    | ok existing => exact .pure (Sought.stable _) fun _ _ h => .inr h
    | error e =>
      cases e with
      | noRows =>
        refine .bind linear_createRequest fun _ => .bind linear_recalculateDemand fun _ =>
          .pure At.stable fun _ _ h => .inl ⟨⟨_, h⟩, fun _ hw => ?_⟩
        cases hw
      | uniqueViolation => exact .throw (Sought.stable _) fun _ _ _ => .inl rfl
      | integrityViolation => exact .throw (Sought.stable _) fun _ _ _ => .inl rfl
      | other => exact .throw (Sought.stable _) fun _ _ _ => .inl rfl
  · intro a σ hi h
    rcases h with h | h
    · refine h.plays hi.holds.2 fun r => ?_
      rw [hinv]
      exact ⟨r, .inl rfl⟩
    · refine h.plays hi.holds.2 fun r => ?_
      rw [hinv]
      exact ⟨r, .inr rfl⟩

/-- **what any call does** -/
theorem linear_op {inv : Invocation} (hc : calls p = inv) :
    (plays calls).Triple p (fun σ => Idle p σ.store) inv.op (fun _ _ => True)
      fun e σ => Refuses (calls p) p e σ.store := by
  have returned : ∀ {op : Op PurchaseRequest},
      (plays calls).Triple p (fun σ => Idle p σ.store) op (fun _ _ => True)
        (fun e σ => Refuses (calls p) p e σ.store) →
      (plays calls).Triple p (fun σ => Idle p σ.store) (returning op) (fun _ _ => True)
        fun e σ => Refuses (calls p) p e σ.store :=
    fun h => .bind h fun _ => .pure (Terms.Stable.const True) fun _ _ h => h
  cases inv with
  | create c inp => exact returned (linear_create hc)
  | ensureForItem inp =>
    exact .bind (linear_ensureForItem hc) fun _ =>
      .pure (Terms.Stable.const True) fun _ _ h => h
  | join r c u q =>
    refine returned (linear_mutateParticipants (v := .joined r c q) ?_
      (fun z => linear_addParticipant ?_) ?_ rfl fun _ => by simp [Event.effect])
    · rw [hc]
      exact fun b hb => .inl ⟨rfl, hb⟩
    · rw [hc]
      exact fun b hb hm => .inr ⟨rfl, z, hb, hm⟩
    · rw [hc]
      rfl
  | updateQuantity r c q =>
    refine returned (linear_mutateParticipants (v := .changed r c q) ?_
      (fun z => linear_changeQuantity ?_) ?_ rfl fun _ => by simp [Event.effect])
    · rw [hc]
      exact fun b hb => .inl ⟨rfl, hb⟩
    · rw [hc]
      exact fun b hb hm => .inr ⟨rfl, z, hb, hm⟩
    · rw [hc]
      rfl
  | leave r c =>
    refine returned (linear_mutateParticipants (v := .left r c) ?_
      (fun z => linear_removeParticipant ?_) ?_ rfl fun _ => by simp [Event.effect])
    · rw [hc]
      exact fun b hb => .inl ⟨rfl, hb⟩
    · rw [hc]
      exact fun b hb hm => .inr ⟨rfl, z, hb, hm⟩
    · rw [hc]
      rfl
  | setOfferCount r n => exact returned (linear_setOfferCount hc)

/-! ## every run -/

theorem plays_empty : Plays calls Db.empty [] :=
  ⟨fun _ _ => rfl, .fresh _⟩

/-- in every run the commits are events of the board, and an error is a refusal of the board -/
theorem runs_plays {σ : Config P} (h : Runs spec.machine (start calls Db.empty) σ) :
    (Good calls σ.state.store.committed σ.state.store.log ∧
      Plays calls σ.state.store.committed σ.state.store.log) ∧
    ∀ p e, σ.prog p = some (.ret (.error e)) → Refuses (calls p) p e σ.state.store := by
  have hknown := Spec.runs_knowing (K := Good calls) (fun υ hυ => (runs_good hυ).1) h
  have hinv : (plays calls).Inv (start calls Db.empty).state :=
    ⟨fun _ _ hw => absurd hw List.not_mem_nil, good_empty, plays_empty⟩
  obtain ⟨hi, hp⟩ := (plays calls).contract.runs
    (Q := fun p => Terms.ends (fun _ _ => True) fun e σ => Refuses (calls p) p e σ.store)
    hknown hinv fun p m hm => by
      obtain rfl := Option.some.inj hm
      exact linear_op rfl _ (idle_fresh p _)
  exact ⟨hi.holds, fun p e he => hp p _ he _ ((plays calls).contract.rely_refl p _) hi⟩

/-- what an answer shows of the board -/
def Shows (pr : PurchaseRequest) (b : Board UUID String UUID) : Prop :=
  ∃ z, b pr.requestID = some z ∧ pr.itemName = z.itemName ∧
    pr.totalCustomers = z.totalCustomers ∧ pr.totalQuantity = z.totalQuantity ∧
    pr.totalOffers = z.offers ∧ (pr.status = .OPEN ↔ 0 < z.totalCustomers ∨ 0 < z.offers)

/-- a row that is derived shows its entry -/
theorem Derived.shows {d : Db} {pr : PurchaseRequest} (h : Derived d pr)
    (hrows : d.rowsOf pr.requestID = [pr]) : Shows pr d.onBoard := by
  have hfind : d.findRequest pr.requestID = some pr := by
    unfold Db.findRequest
    rw [← List.head?_filter]
    show (d.rowsOf pr.requestID).head? = _
    rw [hrows]
    rfl
  have hcustomers : pr.totalCustomers = (((d.participantsOf pr.requestID).map
      fun rp => (rp.customerID, rp.quantity)).length : Nat) := by
    rw [h.customers, List.length_map]
    rfl
  refine ⟨_, congrArg (Option.map _) hfind, rfl, hcustomers, ?_, rfl, ?_⟩
  · unfold Demand.totalQuantity
    rw [h.quantity, List.map_map]
    rfl
  · rw [h.status, hcustomers]
    rfl

/-- **Request-service is one board.**  Any calls run interleaved, statement by statement, at READ
COMMITTED.  The committed tables hold the board to which the events lead that the commits
are, in the order of the commits: at most one event for each call, of those the call may bring about,
and allowed when it happens.  A call that has written and answers a row has committed its event, and
the row shows the board right after that event. -/
theorem requests_linear (calls : P → Invocation) {σ : Config P}
    (h : Runs spec.machine (start calls Db.empty) σ) :
    (∃ events : List (P × Event UUID String UUID),
      events.map Prod.fst = σ.state.store.log.map Commit.tx ∧ (events.map Prod.fst).Nodup ∧
      (∀ x ∈ events, (calls x.1).May x.2) ∧
      History (board requestItemKey) events σ.state.store.committed.onBoard) ∧
    ∀ p a, σ.prog p = some (.ret (.ok a)) → a.wrote = true →
      ∃ c ∈ σ.state.store.log, c.tx = p ∧
        Takes (board requestItemKey) Db.onBoard (fun p => (calls p).May) c ∧
        Shows a.request c.after.onBoard := by
  obtain ⟨⟨hg, hi⟩, -⟩ := runs_plays h
  obtain ⟨events, hp, hb, hm⟩ := hi.refines.history rfl
  refine ⟨⟨events, hp, hp ▸ hi.refines.once, hm, hb⟩, fun p a ha hw => ?_⟩
  have hanswer := ((runs_good h).2.1 p a ha).1
  rw [Answered, if_pos hw] at hanswer
  obtain ⟨c, hcs, hrows, -⟩ := hanswer
  obtain ⟨hc, htx⟩ := mem_of_commitsOf hcs
  obtain ⟨υ, hυ, hafter⟩ := Spec.runs_after rfl h hc
  have hd : Derived c.after a.request := by
    rw [← hafter] at hrows ⊢
    exact ((runs_good hυ).1.demand _).derived _ (hrows.symm ▸ List.mem_singleton_self _)
  exact ⟨c, hc, htx, hi.refines.takes c hc, hd.shows hrows⟩

/-- **Every refusal is one of the board.**  A call that ends in an error which is not one of the
database has committed nothing, and at some moment of the run the board was as the error says. -/
theorem refusals_linear (calls : P → Invocation) {σ : Config P}
    (h : Runs spec.machine (start calls Db.empty) σ) {p : P} {e : Err}
    (hp : σ.prog p = some (.ret (.error e))) (he : e.isDatabase = false) :
    (∀ c ∈ σ.state.store.log, c.tx ≠ p) ∧
    ∃ d, Moment Db.empty σ.state.store.log d ∧ (calls p).Refused e d.onBoard := by
  have hx := ((runs_plays h).2 p e hp).resolve_left (by simp [he])
  refine ⟨fun c hc htx => ?_, hx.2⟩
  exact List.filter_eq_nil_iff.mp hx.1 c hc (by simpa using htx)

/-- how many a customer wants, by the tables -/
theorem wanted_onBoard {d : Db} (hr : Rooted d) (r c : UUID) :
    d.onBoard.wanted r c = (d.findParticipant r c).map (·.quantity) := by
  have hfind : d.findParticipant r c =
      (d.participantsOf r).find? fun rp => rp.customerID == c := by
    unfold Db.findParticipant Db.participantsOf
    rw [List.find?_filter]
    refine congrArg (fun f => List.find? f d.participants) (funext fun rp => ?_)
    by_cases hr : rp.requestID = r <;> by_cases hc : rp.customerID = c <;> simp [hr, hc]
  show (d.demandOf r).bind _ = _
  cases hf : d.findRequest r with
  | none =>
    rw [demandOf_none.mpr hf, hfind, hr r hf]
    rfl
  | some pr =>
    unfold Db.demandOf Demand.wanted
    rw [hf, hfind]
    show (List.find? _ (List.map _ _)).map _ = _
    rw [List.find?_map, Option.map_map]
    rfl

/-- **No demand is lost or counted twice.**  In every run there is one event for each commit, in
the order of the commits and of those its call may bring about, such that every customer wants of
every request what the last event about the two tells, and has a row iff the arrivals exceed the
departures, and then by one. -/
theorem demand_conserved (calls : P → Invocation) {σ : Config P}
    (h : Runs spec.machine (start calls Db.empty) σ) :
    ∃ events : List (P × Event UUID String UUID),
      events.map Prod.fst = σ.state.store.log.map Commit.tx ∧
      (∀ x ∈ events, (calls x.1).May x.2) ∧
      ∀ r c,
        (σ.state.store.committed.findParticipant r c).map (·.quantity) =
          (events.findSome? fun x => x.2.tells r c).getD none ∧
        (events.map fun x => x.2.arrival r c).sum =
          if σ.state.store.committed.findParticipant r c = none then 0 else 1 := by
  obtain ⟨⟨hg, hi⟩, -⟩ := runs_plays h
  obtain ⟨events, hp, hb, hm⟩ := hi.refines.history rfl
  refine ⟨events, hp, hm, fun r c => ⟨?_, ?_⟩⟩
  · rw [← wanted_onBoard hi.rooted]
    exact history_wanted hb r c
  · rw [history_arrivals hb r c]
    have hiff : c ∈ σ.state.store.committed.onBoard.customers r ↔
        σ.state.store.committed.findParticipant r c ≠ none := by
      rw [← not_iff_not, not_not, ← wanted_none r c, wanted_onBoard hi.rooted,
        Option.map_eq_none_iff]
    by_cases hc : c ∈ σ.state.store.committed.onBoard.customers r
    · rw [if_pos hc, if_neg (hiff.mp hc)]
    · rw [if_neg hc, if_pos (not_not.mp fun e => hc (hiff.mpr e))]

/-! ## what has been listed stays listed -/

theorem listed_since {σ : Config P} (h : Runs spec.machine (start calls Db.empty) σ) {d : Db}
    (hd : Moment Db.empty σ.state.store.log d) {pr : PurchaseRequest}
    (hf : d.findRequest r = some pr) :
    ∃ pr', σ.state.store.committed.findRequest r = some pr' ∧ pr'.itemName = pr.itemName := by
  have hd₀ : d.onBoard r = some _ := congrArg (Option.map _) hf
  obtain ⟨z, hz, hn⟩ := (runs_plays h).1.2.lasting hd hd₀
  obtain ⟨pr', hf', rfl⟩ := Option.map_eq_some_iff.mp hz
  exact ⟨pr', hf', hn⟩

theorem listed_step {σ τ : Config P} (h : Runs spec.machine (start calls Db.empty) σ)
    {a : Act P (Choice Unit)} (hs : spec.machine.step σ a = some τ) {pr : PurchaseRequest}
    (hf : σ.state.store.committed.findRequest r = some pr) :
    ∃ pr', τ.state.store.committed.findRequest r = some pr' ∧ pr'.itemName = pr.itemName := by
  refine listed_since (h.tail a hs) ?_ hf
  rcases Spec.step_store hs with ⟨p, -, he⟩ | ⟨he, -⟩
  · rw [he]
    exact (Chained.moment (Spec.chained_runs h (chained_fresh Db.empty))).later _
  · rw [← he]
    exact Chained.moment (Spec.chained_runs (h.tail a hs) (chained_fresh Db.empty))

/-- `EnsureForItem` answers a request that is there, and carries the item -/
theorem ensured_listed {σ : Config P} (h : Runs spec.machine (start calls Db.empty) σ) {p : P}
    {inp : EnsureInput} (hp : calls p = .ensureForItem inp) {a : Answer}
    (ha : σ.prog p = some (.ret (.ok a))) :
    ∃ pr, σ.state.store.committed.findRequest a.request.requestID = some pr ∧
      requestItemKey pr.itemName = requestItemKey inp.itemName := by
  have hanswer := ((runs_good h).2.1 p a ha).1
  -- some commit has left the row, and its name has the key of the item
  have hleft : ∃ c ∈ σ.state.store.log, a.request ∈ c.after.requests ∧
      requestItemKey a.request.itemName = requestItemKey inp.itemName := by
    rw [hp, Answered] at hanswer
    split at hanswer
    · obtain ⟨c, hc, -, hnew⟩ := hanswer
      obtain ⟨hreq, hname⟩ := hnew inp.itemName rfl
      refine ⟨c, (mem_of_commitsOf hc).1, ?_, congrArg requestItemKey hname⟩
      rw [hreq]
      exact List.mem_append_right _ (List.mem_singleton_self _)
    · obtain ⟨-, n, c, hn, -, -, hkey, c', hc', hm⟩ := hanswer
      obtain rfl := Option.some.inj hn
      exact ⟨c', hc', hm, hkey⟩
  obtain ⟨c, hc, hm, hkey⟩ := hleft
  obtain ⟨υ, hυ, hafter⟩ := Spec.runs_after rfl h hc
  have hone := ((runs_good hυ).1.demand a.request.requestID).one
  rw [hafter] at hone
  have hrow : a.request ∈ c.after.rowsOf a.request.requestID :=
    List.mem_filter.mpr ⟨hm, beq_self_eq_true _⟩
  obtain ⟨pr, hrows⟩ := List.length_eq_one_iff.mp
    (Nat.le_antisymm hone (List.length_pos_of_mem hrow))
  rw [hrows] at hrow
  obtain rfl := List.mem_singleton.mp hrow
  have hfind : c.after.findRequest a.request.requestID = some a.request := by
    unfold Db.findRequest
    rw [← List.head?_filter]
    show (c.after.rowsOf a.request.requestID).head? = _
    rw [hrows]
    rfl
  obtain ⟨pr', hf', hn⟩ := listed_since h (.inr ⟨c, hc, rfl⟩) hfind
  exact ⟨pr', hf', (congrArg requestItemKey hn).trans hkey⟩

end

/-! ## the run of the three buyers -/

theorem requests_linear_buyers : letI := asciiPostgres
    ∃ σ a, Runs spec.machine (start buyers Db.empty) σ ∧ σ.prog 1 = some (.ret (.ok a)) ∧
      (∃ c ∈ σ.state.store.log, c.tx = 1 ∧ Shows a.request c.after.onBoard) ∧
      ∃ events : List (Fin 3 × Event UUID String UUID), events.map Prod.fst = [1, 0] ∧
        History (board requestItemKey) events σ.state.store.committed.onBoard := by
  let : Postgres := asciiPostgres
  obtain ⟨σ, hr, hσ⟩ := Runs.exists_of_run (M := spec.machine) (σ := start buyers Db.empty)
    buyersSchedule (f := fun σ => ((answeredWith σ 1).map Answer.wrote,
      σ.state.store.log.map Commit.tx)) (b := (some true, [1, 0])) (by decide +kernel)
  obtain ⟨hw, hlog⟩ := Prod.mk.inj hσ
  obtain ⟨a, ha, hw⟩ := Option.map_eq_some_iff.mp hw
  obtain ⟨⟨events, hp, -, -, hb⟩, hanswer⟩ := requests_linear buyers hr
  obtain ⟨c, hc, htx, -, hs⟩ := hanswer 1 a (answeredWith_some ha) hw
  exact ⟨σ, a, hr, answeredWith_some ha, ⟨c, hc, htx, hs⟩, events, hp.trans hlog, hb⟩

theorem refusals_linear_buyers : letI := asciiPostgres
    ∃ σ e, Runs spec.machine (start buyers Db.empty) σ ∧ σ.prog 2 = some (.ret (.error e)) ∧
      ∃ d, Moment Db.empty σ.state.store.log d ∧ (buyers 2).Refused e d.onBoard := by
  let : Postgres := asciiPostgres
  obtain ⟨σ, hr, hσ⟩ := Runs.exists_of_run (M := spec.machine) (σ := start buyers Db.empty)
    buyersSchedule (f := fun σ => (refusedWith σ 2).map Err.isDatabase) (b := some false)
    (by decide +kernel)
  obtain ⟨e, he, hd⟩ := Option.map_eq_some_iff.mp hσ
  exact ⟨σ, e, hr, refusedWith_some he, (refusals_linear buyers hr (refusedWith_some he) hd).2⟩

theorem demand_conserved_buyers : letI := asciiPostgres
    ∃ σ, Runs spec.machine (start buyers Db.empty) σ ∧
      ∃ events : List (Fin 3 × Event UUID String UUID), events.map Prod.fst = [1, 0] ∧
        (∀ x ∈ events, (buyers x.1).May x.2) ∧
        (σ.state.store.committed.findParticipant 50 8).map (·.quantity) =
          (events.findSome? fun x => x.2.tells 50 8).getD none := by
  let : Postgres := asciiPostgres
  obtain ⟨σ, hr, hσ⟩ := Runs.exists_of_run (M := spec.machine) (σ := start buyers Db.empty)
    buyersSchedule (f := fun σ => σ.state.store.log.map Commit.tx) (b := [1, 0])
    (by decide +kernel)
  obtain ⟨events, hp, hm, hq⟩ := demand_conserved buyers hr
  exact ⟨σ, hr, events, hp.trans hσ, hm, (hq 50 8).1⟩

end Marketplace.Request
