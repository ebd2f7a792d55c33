import Marketplace.Lib.Atomic
import Marketplace.Offers.Counting
import Marketplace.Request.OfferCounts

/-!
# offer-service and request-service: the number of live offers

A route of offer-service that has moved an offer counts the live offers of its request and sends the
count to request-service, which works on the message as on any other call.  Counting, sending and
recording are separate steps, and the messages of two routes may overtake each other.

* `Net`              the counts that were read, the messages, and request-service with its calls;
* `outside may`      this is what offer-service meets outside; `may` is a condition on the moves of
                     request-service;
* `Net.inOrder`      no message is recorded after another on the same request whose count is newer;
* `Settled`          every route that has committed has reported, and every message is recorded;
* `offer_count_converges`   **then `total_offers` is the number of live offers**, as long as
                     messages are recorded in order;
* `offer_count_diverges`    otherwise it need not be.
-/

set_option linter.unusedSectionVars false

namespace Marketplace.System.Convergence

open ReadCommitted Interleave Service
open Offers (Report)

/-- a call of request-service that comes from elsewhere -/
structure Call where
  inv : Request.Invocation
  other : ∀ r n, inv ≠ .setOfferCount r n

/-- a count, when it was read -/
structure Count (P : Type) where
  caller : P
  requestID : UUID
  total : Nat
  log : List (Commit P Offers.Db)

/-- what a message asks for -/
def recording (m : Report) : Request.Invocation := .setOfferCount m.requestID m.totalOffers

section
variable [Request.Postgres] {P Q : Type} [DecidableEq P] [DecidableEq Q]

/-- a move of request-service, where the message of a route `p` is worked on as `.inr p` -/
abbrev Move (P Q : Type) : Type := Act (Q ⊕ P) (Choice Unit)

structure Net (P Q : Type) where
  /-- newest first -/
  counts : List (Count P)
  sent : P → Option Report
  requests : Request.Config (Q ⊕ P)

namespace Net

def start (others : Q → Call) : Net P Q where
  counts := []
  sent _ := none
  requests :=
    { state := { store := Store.fresh Request.Db.empty, ext := () }
      prog := fun
        | .inl q => some (others q).inv.op.run
        | .inr _ => none }

def count (e : Net P Q) (p : P) (r : UUID) (s : Offers.St P) : Net P Q :=
  { e with counts := ⟨p, r, (s.view p).countLive r, s.log⟩ :: e.counts }

def sending (e : Net P Q) (p : P) (m : Report) : Net P Q :=
  { e with
    sent := Function.update e.sent p (some m)
    requests :=
      ⟨e.requests.state, Function.update e.requests.prog (.inr p) (some (recording m).op.run)⟩ }

/-- a route sends one message -/
def send (e : Net P Q) (p : P) (m : Report) : Option (Net P Q) :=
  if e.sent p = none then some (e.sending p m) else none

def move (e : Net P Q) (a : Move P Q) : Option (Net P Q) :=
  (Request.spec.machine.step e.requests a).map fun c => { e with requests := c }

/-! ## the condition -/

/-- the counts that were read after that of `p` -/
def later (e : Net P Q) (p : P) : List (Count P) := e.counts.takeWhile fun c => c.caller ≠ p

/-- a newer count on the same request has been recorded -/
def overtaken (e : Net P Q) (p : P) : Bool :=
  (e.later p).any fun c => (e.sent p).map (·.requestID) = some c.requestID &&
    e.requests.state.store.log.any fun d => d.tx = .inr c.caller

def inOrder (e : Net P Q) (a : Move P Q) : Bool :=
  match committer e.requests a with
  | some (.inr p) => !e.overtaken p
  | _ => true

end Net

def outside (may : Net P Q → Move P Q → Bool) : Offers.Outside P (Net P Q) (Move P Q) where
  note p q _ s e :=
    match q with
    | .countLiveOffers r => e.count p r s
    | _ => e
  report p m _ e := e.send p m
  env x e := if may e x.ext then e.move x.ext else none

def start (calls : P → Offers.Invocation) (others : Q → Call) : Offers.Config P (Net P Q) :=
  Offers.start (fun p => (calls p).handler) Offers.Db.empty (Net.start others)

/-- a route that has committed has gone on to count and to send, and a message that was sent has
been recorded -/
structure Settled (σ : Offers.Config P (Net P Q)) : Prop where
  reported : ∀ p, σ.state.store.commitsOf p ≠ [] → ∃ o, σ.prog p = some (.ret (.ok o))
  recorded : ∀ p, σ.state.ext.sent p ≠ none →
    ∃ a, σ.state.ext.requests.prog (.inr p) = some (.ret (.ok a))

/-! ## request-service runs by itself -/

namespace Net

/-- request-service, with the messages that are still to come -/
def fill (calls : Q ⊕ P → Request.Invocation) (e : Net P Q) : Request.Config (Q ⊕ P) :=
  { e.requests with
    prog := fun
      | .inl q => e.requests.prog (.inl q)
      | .inr p =>
        if e.sent p = none then some (calls (.inr p)).op.run else e.requests.prog (.inr p) }

/-- the calls are those of `others`, and the messages that were sent -/
structure Agrees (others : Q → Call) (calls : Q ⊕ P → Request.Invocation) (e : Net P Q) : Prop where
  inl : ∀ q, calls (.inl q) = (others q).inv
  inr : ∀ p m, e.sent p = some m → calls (.inr p) = recording m

/-- what is not sent is not worked on -/
def Waiting (e : Net P Q) : Prop := ∀ p, e.sent p = none → e.requests.prog (.inr p) = none

theorem Waiting.fill {e : Net P Q} (h : e.Waiting) (calls : Q ⊕ P → Request.Invocation) {x : Q ⊕ P}
    (hx : e.requests.prog x ≠ none) : (e.fill calls).prog x = e.requests.prog x := by
  cases x with
  | inl q => rfl
  | inr p =>
    show (if e.sent p = none then _ else _) = _
    rw [if_neg fun hn => hx (h p hn)]

theorem Waiting.move {e e' : Net P Q} {a : Move P Q} (h : e.Waiting) (hm : e.move a = some e') :
    e'.Waiting := by
  obtain ⟨c, hc, rfl⟩ := Option.map_eq_some_iff.mp hm
  exact fun p hp => Machine.step_none hc (h p hp)

/-- who acts is there -/
theorem fill_update {e : Net P Q} (h : e.Waiting) (calls : Q ⊕ P → Request.Invocation) {x : Q ⊕ P}
    (hx : e.requests.prog x ≠ none) {s : State (Q ⊕ P) Request.Db Request.Write Request.Lock Unit}
    {m : Option (Prog _ _ _)} :
    fill calls { e with requests := ⟨s, Function.update e.requests.prog x m⟩ } =
      ⟨s, Function.update (e.fill calls).prog x m⟩ := by
  have hprog : (fill calls { e with requests := ⟨s, Function.update e.requests.prog x m⟩ }).prog =
      Function.update (e.fill calls).prog x m := by
    funext y
    by_cases hy : y = x
    · subst hy
      rw [Function.update_self]
      cases y with
      | inl q => exact Function.update_self ..
      | inr p =>
        show (if e.sent p = none then _ else _) = _
        rw [if_neg fun hn => hx (h p hn)]
        exact Function.update_self ..
    · rw [Function.update_of_ne hy]
      cases y with
      | inl q => exact Function.update_of_ne hy _ _
      | inr p =>
        show (if e.sent p = none then _ else _) = if e.sent p = none then _ else _
        split
        · rfl
        · exact Function.update_of_ne hy _ _
  exact congrArg (Conf.mk s) hprog

theorem fill_move {e e' : Net P Q} {a : Move P Q} (h : e.Waiting)
    (calls : Q ⊕ P → Request.Invocation) (hm : e.move a = some e') :
    Request.spec.machine.step (e.fill calls) a = some (e'.fill calls) := by
  obtain ⟨c, hc, rfl⟩ := Option.map_eq_some_iff.mp hm
  cases a with
  | exec x ch =>
    obtain ⟨cmd, k, b, s, hx, hexec, rfl⟩ := Machine.step_exec hc
    have hne : e.requests.prog x ≠ none := by
      rw [hx]
      exact Option.some_ne_none _
    rw [fill_update h calls hne]
    simp only [Machine.step, h.fill calls hne, hx]
    show (Request.spec.machine.exec x cmd ch e.requests.state).map _ = _
    rw [hexec]
    rfl
  | crash x =>
    obtain ⟨⟨cmd, k, hx⟩, rfl⟩ := Machine.step_crash hc
    have hne : e.requests.prog x ≠ none := by
      rw [hx]
      exact Option.some_ne_none _
    rw [fill_update h calls hne]
    simp only [Machine.step, h.fill calls hne, hx]
    rfl
  | env ch =>
    obtain ⟨s, hs, -⟩ := Machine.step_env hc
    cases hs

theorem sent_sending (e : Net P Q) (p : P) (m : Report) : (e.sending p m).sent p = some m :=
  Function.update_self ..

theorem sent_sending_ne {e : Net P Q} {p q : P} {m : Report} (h : q ≠ p) :
    (e.sending p m).sent q = e.sent q := Function.update_of_ne h _ _

theorem send_eq {e e' : Net P Q} {p : P} {m : Report} (h : e.send p m = some e') :
    e.sent p = none ∧ e' = e.sending p m := by
  unfold send at h
  split at h
  · rename_i hp
    exact ⟨hp, (Option.some.inj h).symm⟩
  · cases h

theorem agrees_sending {e : Net P Q} {others : Q → Call} {calls : Q ⊕ P → Request.Invocation}
    {p : P} {m : Report} (hp : e.sent p = none) (ha : Agrees others calls (e.sending p m)) :
    Agrees others calls e := by
  refine ⟨ha.inl, fun q m' hq => ha.inr q m' ?_⟩
  have hne : q ≠ p := by
    rintro rfl
    rw [hp] at hq
    cases hq
  rw [sent_sending_ne hne]
  exact hq

/-- the message is started where it was to come -/
theorem fill_sending {e : Net P Q} {others : Q → Call} {calls : Q ⊕ P → Request.Invocation} {p : P}
    {m : Report} (hp : e.sent p = none) (ha : Agrees others calls (e.sending p m)) :
    (e.sending p m).fill calls = e.fill calls := by
  have hprog : ((e.sending p m).fill calls).prog = (e.fill calls).prog := by
    funext y
    cases y with
    | inl q =>
      have hne : (Sum.inl q : Q ⊕ P) ≠ .inr p := Sum.inl_ne_inr
      show Function.update e.requests.prog (.inr p) (some (recording m).op.run) (.inl q) = _
      rw [Function.update_of_ne hne]
      rfl
    | inr q =>
      show (if (e.sending p m).sent q = none then _ else _) = if e.sent q = none then _ else _
      by_cases hq : q = p
      · subst hq
        have hc : calls (.inr q) = recording m := ha.inr q m (sent_sending e q m)
        rw [sent_sending, if_neg (Option.some_ne_none m), if_pos hp, hc]
        exact Function.update_self ..
      · have hne : (Sum.inr q : Q ⊕ P) ≠ .inr p := fun h => hq (Sum.inr.inj h)
        have hsame : (e.sending p m).requests.prog (.inr q) = e.requests.prog (.inr q) :=
          Function.update_of_ne hne _ _
        rw [sent_sending_ne hq, hsame]
  exact congrArg (Conf.mk e.requests.state) hprog

end Net

/-! ## what holds in every run -/

/-- the count is right for what had been committed by then, by the route as well -/
structure Count.Right (c : Count P) (log : List (Commit P Offers.Db)) : Prop where
  suffix : c.log <:+ log
  total : ∃ d, Chained Offers.Db.empty c.log d ∧ c.total = d.countLive c.requestID
  own : ∃ x ∈ c.log, x.tx = c.caller

theorem Count.Right.mono {c : Count P} {log log' : List (Commit P Offers.Db)} (h : c.Right log)
    (hl : log <:+ log') : c.Right log' := ⟨h.suffix.trans hl, h.total, h.own⟩

/-- a recorded message comes with no newer count on its request that was recorded before it -/
def Net.Ordered (e : Net P Q) : Prop :=
  e.requests.state.store.log.Pairwise fun new old => ∀ p, new.tx = .inr p → ∀ c ∈ e.later p,
    (e.sent p).map (·.requestID) = some c.requestID → old.tx ≠ .inr c.caller

structure Tracked (others : Q → Call) (d : Offers.Db) (log : List (Commit P Offers.Db))
    (e : Net P Q) : Prop where
  chained : Chained Offers.Db.empty log d
  kept : ∀ c ∈ log, Offers.RequestKept c.before c.after
  right : ∀ c ∈ e.counts, c.Right log
  sorted : e.counts.Pairwise fun new old => old.log <:+ new.log
  once : (e.counts.map (·.caller)).Nodup
  sent : ∀ p m, e.sent p = some m →
    ∃ c ∈ e.counts, c.caller = p ∧ m = ⟨c.requestID, c.total⟩
  waiting : e.Waiting
  recorded : ∀ c ∈ e.requests.state.store.log, ∀ p, c.tx = .inr p → e.sent p ≠ none
  reached : ∀ calls, Net.Agrees others calls e →
    Runs Request.spec.machine (Request.start calls Request.Db.empty) (e.fill calls)
  ordered : e.Ordered

section
variable {others : Q → Call} {d : Offers.Db} {log : List (Commit P Offers.Db)} {e e' : Net P Q}

theorem tracked_start : Tracked (P := P) others Offers.Db.empty [] (Net.start others) where
  chained := rfl
  kept _ hc := absurd hc List.not_mem_nil
  right _ hc := absurd hc List.not_mem_nil
  sorted := List.Pairwise.nil
  once := List.nodup_nil
  sent _ _ h := nomatch h
  waiting _ _ := rfl
  recorded _ hc := absurd hc List.not_mem_nil
  reached calls ha := by
    have hfill : (Net.start others).fill calls = Request.start calls Request.Db.empty := by
      refine congrArg (Conf.mk _) (funext fun y => ?_)
      cases y with
      | inl q => exact congrArg (fun inv : Request.Invocation => some inv.op.run) (ha.inl q).symm
      | inr p => rfl
    rw [hfill]
    exact .refl
  ordered := List.Pairwise.nil

/-- another commit of offer-service -/
theorem Tracked.commit (h : Tracked others d log e) (p : P) (ws : List Offers.Write) :
    Tracked others (applyAll ws d) (⟨p, d, applyAll ws d⟩ :: log) e :=
  { h with
    chained := ⟨rfl, h.chained⟩
    kept := fun c hc => by
      rcases List.mem_cons.mp hc with rfl | hc
      · exact Offers.requestKept_applyAll ws d
      · exact h.kept c hc
    right := fun c hc => (h.right c hc).mono (List.suffix_cons _ _) }

/-- a route has counted once at most, and its message is that count -/
def Net.countsOf (e : Net P Q) (p : P) : List (Count P) := e.counts.filter fun c => c.caller = p

theorem Net.countsOf_nil {p : P} (h : e.countsOf p = []) : ∀ c ∈ e.counts, c.caller ≠ p :=
  fun c hc e => List.filter_eq_nil_iff.mp h c hc (by simpa using e)

theorem Tracked.unsent (h : Tracked others d log e) {p : P} (hp : e.countsOf p = []) :
    e.sent p = none := by
  cases hs : e.sent p with
  | none => rfl
  | some m =>
    obtain ⟨c, hc, hcp, -⟩ := h.sent p m hs
    exact absurd hcp (Net.countsOf_nil hp c hc)

/-- a route counts, after its commit -/
theorem Tracked.count {s : Offers.St P} {p : P} (h : Tracked others s.committed s.log e)
    (hp : e.countsOf p = []) (hs : s.pending p = []) (hc : ∃ x ∈ s.log, x.tx = p) (r : UUID) :
    Tracked others s.committed s.log (e.count p r s) := by
  have hnew := Net.countsOf_nil hp
  have hright : (Count.mk p r ((s.view p).countLive r) s.log).Right s.log :=
    ⟨List.suffix_rfl, ⟨s.committed, h.chained, by rw [view_of_pending hs]⟩, hc⟩
  refine { h with
    right := fun c hm => ?_, sorted := ?_, once := ?_, sent := fun q m hq => ?_
    reached := fun calls ha => h.reached calls ⟨ha.inl, ha.inr⟩, ordered := ?_ }
  · rcases List.mem_cons.mp hm with rfl | hm
    · exact hright
    · exact h.right c hm
  · exact List.pairwise_cons.mpr ⟨fun c hm => (h.right c hm).suffix, h.sorted⟩
  · refine List.nodup_cons.mpr ⟨fun hm => ?_, h.once⟩
    obtain ⟨c, hm, hcp⟩ := List.mem_map.mp hm
    exact hnew c hm hcp
  · obtain ⟨c, hm, hcq⟩ := h.sent q m hq
    exact ⟨c, List.mem_cons_of_mem _ hm, hcq⟩
  · refine h.ordered.imp_of_mem fun {new old} hn ho hno q hq c hm hr => ?_
    -- the new count is not that of a message
    have hne : p ≠ q := by
      rintro rfl
      exact h.recorded new hn p hq (h.unsent hp)
    have hlater : (e.count p r s).later q = ⟨p, r, (s.view p).countLive r, s.log⟩ :: e.later q :=
      List.takeWhile_cons_of_pos (by simpa using hne)
    rw [hlater] at hm
    rcases List.mem_cons.mp hm with rfl | hm
    · exact fun ho' => h.recorded old ho p ho' (h.unsent hp)
    · exact hno q hq c hm hr

theorem sent_ne_sending {p q : P} {m : Report} (h : e.sent q ≠ none) :
    (e.sending p m).sent q ≠ none := by
  by_cases hq : q = p
  · rw [hq, Net.sent_sending]
    exact Option.some_ne_none m
  · rw [Net.sent_sending_ne hq]
    exact h

/-- a route sends what it has counted -/
theorem Tracked.send {p : P} {c : Count P} (h : Tracked others d log e) (hp : e.sent p = none)
    (hc : c ∈ e.counts) (hcp : c.caller = p) :
    Tracked others d log (e.sending p ⟨c.requestID, c.total⟩) := by
  refine { h with
    sent := fun q m hq => ?_, waiting := fun q hq => ?_
    recorded := fun x hx q hq => sent_ne_sending (h.recorded x hx q hq)
    reached := fun calls ha => ?_, ordered := ?_ }
  · by_cases hqp : q = p
    · rw [hqp, Net.sent_sending] at hq
      exact ⟨c, hc, hcp.trans hqp.symm, (Option.some.inj hq).symm⟩
    · rw [Net.sent_sending_ne hqp] at hq
      exact h.sent q m hq
  · by_cases hqp : q = p
    · rw [hqp, Net.sent_sending] at hq
      cases hq
    · rw [Net.sent_sending_ne hqp] at hq
      have hne : (Sum.inr q : Q ⊕ P) ≠ .inr p := fun e => hqp (Sum.inr.inj e)
      exact (Function.update_of_ne hne _ _).trans (h.waiting q hq)
  · rw [Net.fill_sending hp ha]
    exact h.reached calls (Net.agrees_sending hp ha)
  · refine h.ordered.imp_of_mem fun {new old} hn _ hno q hq x hx hr => hno q hq x hx ?_
    have hqp : q ≠ p := by
      rintro rfl
      exact h.recorded new hn q hq hp
    rw [Net.sent_sending_ne hqp] at hr
    exact hr

/-- a move of request-service, in order -/
theorem Tracked.move {a : Move P Q} (h : Tracked others d log e) (hord : e.inOrder a = true)
    (hm : e.move a = some e') : Tracked others d log e' := by
  have hwaiting := h.waiting.move hm
  have hfill := fun calls => Net.fill_move h.waiting calls hm
  obtain ⟨c, hc, rfl⟩ := Option.map_eq_some_iff.mp hm
  refine { h with
    sent := h.sent, waiting := hwaiting, recorded := ?_
    reached := fun calls ha => (h.reached calls ⟨ha.inl, ha.inr⟩).tail a (hfill calls)
    ordered := ?_ }
  · intro x hx p hp
    rcases Spec.step_store hc with ⟨y, hy, he⟩ | ⟨-, he⟩
    · rw [he] at hx
      rcases List.mem_cons.mp hx with rfl | hx
      · -- who commits is at work
        intro hnone
        obtain rfl : y = .inr p := hp
        obtain ⟨ch, rfl⟩ := committer_exec hy
        obtain ⟨cmd, k, b, s, hprog, -⟩ := Machine.step_exec hc
        rw [h.waiting p hnone] at hprog
        cases hprog
      · exact h.recorded x hx p hp
    · exact h.recorded x (he ▸ hx) p hp
  · rcases Spec.step_store hc with ⟨y, hy, he⟩ | ⟨-, he⟩
    · show List.Pairwise _ c.state.store.log
      rw [he]
      refine List.pairwise_cons.mpr ⟨fun old hold p hp x hx hr hx' => ?_, h.ordered⟩
      obtain rfl : y = .inr p := hp
      simp only [Net.inOrder, hy, Bool.not_eq_true', Net.overtaken, List.any_eq_false,
        Bool.and_eq_true, decide_eq_true_eq, List.any_eq_true, not_and, not_exists] at hord
      exact hord x hx hr old hold hx'
    · show List.Pairwise _ c.state.store.log
      rw [he]
      exact h.ordered

end

/-! ## a route -/

/-- everything but counting and reporting -/
def Unseen : Cmd Offers.Stmt Report → Prop
  | .sql q => q.counts = false
  | .remote _ => False
  | _ => True

theorem unseen_exec {q : Offers.Stmt} (hq : q.counts = false) : Only Unseen (Offers.exec q) :=
  .bind (.query hq) .orThrow

theorem unseen_begin : Only Unseen Offers.begin := .bind (.begin trivial) .orThrow

theorem unseen_commit : Only Unseen Offers.commit := .bind (.commit trivial) .orThrow

theorem unseen_attempt {α : Type} {op : Offers.Op α} (h : Only Unseen op) :
    Only Unseen (attempt op : Offers.Op (Except Offers.Err α)) :=
  Prog.Only.bind h fun _ => trivial

theorem unseen_getOffer (i : UUID) : Only Unseen (Offers.getOffer i) := by
  refine .bind (unseen_exec rfl) fun o => ?_
  cases o with
  | some o => exact .pure o
  | none => exact .throw _

theorem unseen_ownPendingOffer (i s : UUID) : Only Unseen (Offers.ownPendingOffer i s) := by
  refine .bind (unseen_getOffer i) fun o => ?_
  split
  · exact .throw _
  · split
    · exact .throw _
    · exact .pure o

theorem unseen_finish (i : UUID) :
    Only Unseen (do Offers.commit; Offers.exec (.refresh i) : Offers.Op Offers.Offer) :=
  .bind unseen_commit fun _ => unseen_exec rfl

theorem unseen_flushTerms (o : Offers.Offer) (i : UUID) (t : Offers.Terms) (im : Bytes)
    (ty : String) : Only Unseen (Offers.flushTerms o i t im ty) := by
  unfold Offers.flushTerms
  split
  · exact unseen_exec rfl
  · refine .bind (unseen_exec rfl) fun existing => .bind (unseen_exec rfl) fun _ => ?_
    cases existing with
    | none => exact unseen_exec rfl
    | some oi => exact unseen_exec rfl

theorem unseen_commitOffer (o : Offers.Offer) (as : List UUID) (im : Bytes) :
    Only Unseen (Offers.commitOffer o as im) := by
  refine .bind ?_ fun _ => .bind ?_ fun _ => unseen_commit
  · unfold Offers.enqueue
    split
    · exact .pure ()
    · exact unseen_exec rfl
  · unfold Offers.addImage
    split
    · exact .pure ()
    · exact unseen_exec rfl

theorem unseen_createOffer (s r : UUID) (t : Offers.Terms) (as : List UUID) (im : Bytes)
    (ty : String) : Only Unseen (Offers.createOffer s r t as im ty) := by
  refine .bind unseen_begin fun _ => .bind (unseen_exec rfl) fun existing => ?_
  cases existing with
  | some o => exact .throw _
  | none =>
    refine .bind (unseen_exec rfl) fun o => .bind (unseen_attempt (unseen_commitOffer o as im))
      fun a => ?_
    cases a with
    | ok _ => exact unseen_exec rfl
    | error e =>
      cases e with
      | pg e =>
        dsimp only
        split
        · refine .bind (.rollback trivial) fun _ =>
            .bind unseen_begin fun _ => .bind (unseen_exec rfl) fun o => ?_
          cases o with
          | some o => exact .throw _
          | none => exact .throw _
        · exact .throw _
      | offerNotFound => exact .throw _
      | notOfferOwner => exact .throw _
      | offerAlreadyMade o => exact .throw _
      | offerNotPending => exact .throw _

/-- an operation neither counts nor reports -/
theorem unseen_body (inv : Offers.Invocation) : Only Unseen inv.body := by
  cases inv with
  | createOffer s r t as im ty => exact unseen_createOffer s r t as im ty
  | updateOffer i s t im ty =>
    exact .bind unseen_begin fun _ => .bind (unseen_ownPendingOffer i s) fun o =>
      .bind (unseen_flushTerms o i t im ty) fun _ => unseen_finish i
  | cancelOffer i s =>
    exact .bind unseen_begin fun _ => .bind (unseen_ownPendingOffer i s) fun o =>
      .bind (unseen_exec rfl) fun _ => unseen_finish i
  | setStatus i st =>
    refine .bind unseen_begin fun _ => .bind (unseen_getOffer i) fun o => ?_
    split
    · exact .throw _
    · exact .bind (unseen_exec rfl) fun _ => unseen_finish i

/-! ## a route and its report -/

theorem note_other (may : Net P Q → Move P Q → Bool) (x : Choice (Move P Q)) {p q : P}
    {st : Offers.Stmt} {s : Offers.St P} {e : Net P Q} (hq : q ≠ p) :
    ((outside may).note p st x s e).countsOf q = e.countsOf q ∧
      ((outside may).note p st x s e).sent q = e.sent q := by
  cases st with
  | countLiveOffers r =>
    refine ⟨?_, rfl⟩
    show (Count.mk p r _ _ :: e.counts).filter _ = _
    exact List.filter_cons_of_neg (by simpa using hq.symm)
  | getOffer i => exact ⟨rfl, rfl⟩
  | liveOfferOf sl r => exact ⟨rfl, rfl⟩
  | getImage i => exact ⟨rfl, rfl⟩
  | insertOffer sl r t ty => exact ⟨rfl, rfl⟩
  | updateOffer loaded set => exact ⟨rfl, rfl⟩
  | insertImage i data => exact ⟨rfl, rfl⟩
  | updateImage loaded data => exact ⟨rfl, rfl⟩
  | insertOutbox key ns => exact ⟨rfl, rfl⟩
  | refresh i => exact ⟨rfl, rfl⟩

theorem note_unseen (may : Net P Q → Move P Q → Bool) (x : Choice (Move P Q)) {p : P}
    {st : Offers.Stmt} {s : Offers.St P} {e : Net P Q} (hq : st.counts = false) :
    (outside may).note p st x s e = e := by
  cases st with
  | countLiveOffers r => cases hq
  | getOffer i => rfl
  | liveOfferOf sl r => rfl
  | getImage i => rfl
  | insertOffer sl r t ty => rfl
  | updateOffer loaded set => rfl
  | insertImage i data => rfl
  | updateImage loaded data => rfl
  | insertOutbox key ns => rfl
  | refresh i => rfl

theorem env_eq {x : Choice (Move P Q)} {e e' : Net P Q} {may : Net P Q → Move P Q → Bool}
    (h : (outside may).env x e = some e') : may e x.ext = true ∧ e.move x.ext = some e' := by
  simp only [outside] at h
  split at h
  · exact ⟨by assumption, h⟩
  · cases h

theorem move_counts {a : Move P Q} {e e' : Net P Q} (h : e.move a = some e') :
    e'.counts = e.counts ∧ e'.sent = e.sent := by
  obtain ⟨c, -, rfl⟩ := Option.map_eq_some_iff.mp h
  exact ⟨rfl, rfl⟩

section
variable {others : Q → Call}

/-- what the others leave alone: the counts and the message of `p` -/
def tracked (others : Q → Call) :
    Service.Terms (Offers.spec (outside (P := P) (Q := Q) Net.inOrder)) where
  I := Tracked others
  R p e e' := e'.countsOf p = e.countsOf p ∧ e'.sent p = e.sent p
  refl _ _ := ⟨rfl, rfl⟩
  trans _ _ _ _ h h' := ⟨h'.1.trans h.1, h'.2.trans h.2⟩
  note {p p' q x s e} hq := note_other Net.inOrder x hq
  remote {p p' m x e a e'} hq h := by
    obtain ⟨e₁, h₁, heq⟩ := Option.map_eq_some_iff.mp h
    cases heq
    obtain ⟨-, rfl⟩ := Net.send_eq h₁
    exact ⟨rfl, Net.sent_sending_ne hq⟩
  env_R {p x e e'} h := by
    obtain ⟨hc, hs⟩ := move_counts (env_eq h).2
    exact ⟨congrArg (List.filter _) hc, congrFun hs p⟩
  env_I hI h := hI.move (env_eq h).1 (env_eq h).2

theorem sessions : Offers.Sessions (tracked (P := P) others) False False where
  stmt h := h
  pending h := h.elim
  exact h := h.elim
  note {p q x s d log e} hq hI := by
    have hnote : (Offers.spec (outside Net.inOrder)).note p q x s e = e :=
      note_unseen Net.inOrder x hq
    rw [hnote]
    exact hI

/-- the row that is read after the commit is on the request that the row before it was on -/
def SameRequest (i : UUID) (c : Commit P Offers.Db) (o : Offers.Offer) : Prop :=
  ∀ o', c.before.find i = some o' → o.requestID = o'.requestID

theorem commits {p : P} {inv : Offers.Invocation} :
    Offers.Commits (tracked others) False False SameRequest p inv where
  keeps i σ hi _ := hi.holds.commit p _
  reads i c o σ hi hc hw ho := by
    intro o' ho'
    have hmem : c ∈ σ.store.commitsOf p := hc ▸ List.mem_singleton_self c
    have hlog : c ∈ σ.store.log := (List.mem_filter.mp hmem).1
    have hsince := hi.holds.chained.since Offers.RequestKept.refl (fun _ _ _ => .trans)
      hi.holds.kept hlog
    have hkept := (hi.holds.kept c hlog).trans hsince
    obtain ⟨o'', ho'', he⟩ := hkept i o' ho'
    obtain rfl : o = o'' := Option.some.inj (ho.symm.trans ho'')
    exact he

abbrev Route (P Q : Type) := State P Offers.Db Offers.Write Offers.Lock (Net P Q)

variable {p : P} {inv : Offers.Invocation} {r : UUID}

/-- `p` has committed, and has moved the number of live offers on the request `r` at most -/
structure Moved (p : P) (inv : Offers.Invocation) (r : UUID) (s : Offers.St P) : Prop where
  pending : s.pending p = []
  commit : ∃ i c, s.commitsOf p = [c] ∧ Offers.Wrote False False p i inv c ∧
    ∀ r', inv.Moves i c.before r' → r' = r

theorem Moved.stable : (tracked others).Stable p fun σ => Moved p inv r σ.store :=
  fun _ _ hr _ h => ⟨hr.seen.pending.trans h.pending, hr.seen.commitsOf.symm ▸ h.commit⟩

/-- it has not counted -/
def Silent (p : P) (σ : Route P Q) : Prop := σ.ext.countsOf p = []

theorem Silent.stable : (tracked others).Stable p (Silent p) :=
  fun _ _ hr _ h => hr.ext.1.trans h

/-- it has counted, and not yet reported -/
structure Counted (p : P) (r : UUID) (n : Nat) (σ : Route P Q) : Prop where
  count : ∃ c, σ.ext.countsOf p = [c] ∧ c.requestID = r ∧ c.total = n
  unsent : σ.ext.sent p = none

theorem Counted.stable {n : Nat} : (tracked others).Stable p (Counted p r n) :=
  fun _ _ hr _ h => ⟨hr.ext.1.symm ▸ h.count, hr.ext.2.trans h.unsent⟩

/-- it has committed, and has reported what it has moved -/
def Reported (p : P) (inv : Offers.Invocation) (σ : Route P Q) : Prop :=
  ∃ i c, σ.store.commitsOf p = [c] ∧ Offers.Wrote False False p i inv c ∧
    ∀ r, inv.Moves i c.before r →
      σ.ext.sent p ≠ none ∧ ∃ x ∈ σ.ext.countsOf p, x.requestID = r

theorem Reported.stable : (tracked others).Stable p (Reported p inv) := by
  intro σ τ hr _ h
  obtain ⟨hcounts, hsent⟩ := hr.ext
  unfold Reported
  rw [hr.seen.commitsOf, hcounts, hsent]
  exact h

theorem triple_count :
    (tracked others).Triple p (fun σ => Moved p inv r σ.store ∧ Silent p σ)
      (Offers.exec (.countLiveOffers r))
      (fun n σ => Moved p inv r σ.store ∧ Counted p r n σ) fun _ _ => True := by
  refine Terms.Triple.sql (q := Offers.Stmt.countLiveOffers r) (Moved.stable.and Silent.stable)
    (fun _ => Moved.stable.and Counted.stable) (fun _ _ => trivial) fun σ x a t hi h hs => ?_
  obtain ⟨hmoved, hsilent⟩ := h
  cases hs
  obtain ⟨i, c, hc, -⟩ := hmoved.commit
  have hmem : c ∈ σ.store.commitsOf p := hc ▸ List.mem_singleton_self c
  have hcommitted : ∃ x ∈ σ.store.log, x.tx = p := ⟨c, (List.mem_filter.mp hmem).1,
    of_decide_eq_true (List.mem_filter.mp hmem).2⟩
  refine ⟨hi.locked, hi.holds.count hsilent hmoved.pending hcommitted r, fun n e => ?_⟩
  cases e
  refine ⟨hmoved, ⟨⟨p, r, (σ.store.view p).countLive r, σ.store.log⟩, ?_, rfl, rfl⟩,
    hi.holds.unsent hsilent⟩
  have hcons : (σ.ext.count p r σ.store).countsOf p =
      ⟨p, r, (σ.store.view p).countLive r, σ.store.log⟩ :: σ.ext.countsOf p :=
    List.filter_cons_of_pos (decide_eq_true rfl)
  exact hcons.trans (congrArg _ hsilent)

theorem triple_report {n : Nat} :
    (tracked others).Triple p (fun σ => Moved p inv r σ.store ∧ Counted p r n σ)
      (remote (⟨r, n⟩ : Report) : Offers.Op Unit) (fun _ => Reported p inv) fun _ _ => True := by
  refine Terms.Triple.remote (Moved.stable.and Counted.stable) (fun _ => Reported.stable)
    fun σ x a e hi h hx => ?_
  obtain ⟨hmoved, hcount, hunsent⟩ := h
  obtain ⟨c, hc, rfl, rfl⟩ := hcount
  obtain ⟨e₁, h₁, he⟩ := Option.map_eq_some_iff.mp hx
  cases he
  obtain ⟨-, rfl⟩ := Net.send_eq h₁
  have hmem : c ∈ σ.ext.countsOf p := hc ▸ List.mem_singleton_self c
  obtain ⟨hin, hcp⟩ := List.mem_filter.mp hmem
  refine ⟨hi.holds.send hunsent hin (of_decide_eq_true hcp), ?_⟩
  obtain ⟨i, x, hx, hw, hmoves⟩ := hmoved.commit
  refine ⟨i, x, hx, hw, fun r' hr' => ⟨?_, c, hmem, (hmoves r' hr').symm⟩⟩
  rw [Net.sent_sending]
  exact Option.some_ne_none _

theorem triple_reportOfferCount :
    (tracked others).Triple p (fun σ => Moved p inv r σ.store ∧ Silent p σ)
      (Offers.reportOfferCount r) (fun _ => Reported p inv) fun _ _ => True :=
  .bind triple_count fun _ => triple_report

/-- what an operation leaves unseen -/
theorem exec_unseen {p : P} {c : Cmd Offers.Stmt Report} {x : Choice (Move P Q)} {σ τ : Route P Q}
    {a : Ans Offers.Row Offers.Reply c} (hc : Unseen c)
    (h : (Offers.spec (outside Net.inOrder)).exec p c x σ = some (a, τ)) : τ.ext = σ.ext := by
  cases c with
  | begin =>
    cases h
    rfl
  | commit =>
    obtain ⟨-, -, rfl⟩ := Spec.exec_commit _ h
    rfl
  | rollback =>
    cases h
    rfl
  | remote m => exact hc.elim
  | sql q =>
    simp only [Spec.exec] at h
    split at h
    · obtain ⟨⟨b, t⟩, -, he⟩ := Option.map_eq_some_iff.mp h
      cases he
      exact note_unseen Net.inOrder x hc
    · cases h
      rfl

/-- the operation of a route -/
theorem triple_body (inv : Offers.Invocation) :
    (tracked others).Triple p (fun σ => Offers.Idle p σ.store ∧ Silent p σ) inv.body
      (fun o σ => Offers.Success False False SameRequest p inv o σ.store ∧ Silent p σ)
      fun _ _ => True := by
  refine (Terms.Triple.frame (B := Silent p) Silent.stable (fun hc hx hs => ?_) (unseen_body inv)
    (Offers.triple_body sessions inv commits)).weaken (fun _ h => h) (fun _ _ _ h => h)
    fun _ _ _ _ => trivial
  have hext := exec_unseen hc hx
  unfold Silent
  rw [hext]
  exact hs

/-- **a route that returns has reported what it has moved** -/
theorem triple_handler (inv : Offers.Invocation) :
    (tracked others).Triple p (fun σ => Offers.Idle p σ.store ∧ Silent p σ) inv.handler
      (fun _ => Reported p inv) fun _ _ => True := by
  refine Offers.triple_getSession (.bind (triple_body inv) fun o => ?_) (fun _ => Reported.stable)
    fun _ _ h => h
  have hsuccess : (tracked others).Stable p fun σ =>
      Offers.Success False False SameRequest p inv o σ.store ∧ Silent p σ :=
    Offers.Success.stable.and Silent.stable
  have moved : ∀ (r : UUID) (σ : Route P Q), (∀ i (c : Commit P Offers.Db), SameRequest i c o →
      ∀ r', inv.Moves i c.before r' → r' = r) →
      Offers.Success False False SameRequest p inv o σ.store → Moved p inv r σ.store := by
    intro r σ hmoves h
    obtain ⟨hpend, i, c, hc, hw, hsame⟩ := h
    exact ⟨hpend, i, c, hc, hw, hmoves i c hsame⟩
  cases inv with
  | createOffer s r t as im ty =>
    refine .bind (triple_reportOfferCount.pre fun σ h => ⟨moved r σ ?_ h.1, h.2⟩) fun _ =>
      .pure Reported.stable fun _ _ h => h
    exact fun i c _ r' hr' => hr'.symm
  | updateOffer i s t im ty =>
    refine .pure hsuccess fun σ _ h => ?_
    obtain ⟨-, j, c, hc, hw, -⟩ := h.1
    exact ⟨j, c, hc, hw, fun r hr => hr.elim⟩
  | cancelOffer i s =>
    refine .bind (triple_reportOfferCount.pre fun σ h => ⟨moved o.requestID σ ?_ h.1, h.2⟩) fun _ =>
      .pure Reported.stable fun _ _ h => h
    rintro j c hsame r' ⟨o', ho', rfl⟩
    exact (hsame o' ho').symm
  | setStatus i st =>
    refine .bind (triple_reportOfferCount.pre fun σ h => ⟨moved o.requestID σ ?_ h.1, h.2⟩) fun _ =>
      .pure Reported.stable fun _ _ h => h
    rintro j c hsame r' ⟨o', ho', rfl⟩
    exact (hsame o' ho').symm

/-! ## every run -/

variable {calls : P → Offers.Invocation} {σ : Offers.Config P (Net P Q)}

theorem tracked_runs
    (h : Runs (Offers.spec (outside Net.inOrder)).machine (start calls others) σ) :
    Tracked others σ.state.store.committed σ.state.store.log σ.state.ext ∧
    ∀ p o, σ.prog p = some (.ret (.ok o)) → Reported p (calls p) σ.state := by
  have hinv : (tracked others).Inv (start calls others).state :=
    ⟨fun _ _ hw => absurd hw List.not_mem_nil, tracked_start⟩
  obtain ⟨hi, hp⟩ := (tracked others).contract.runs
    (Q := fun p => Terms.ends (fun _ σ => Reported p (calls p) σ) fun _ _ => True) h hinv
    fun p m hm => by
      obtain rfl := Option.some.inj hm
      exact triple_handler (calls p) _ ⟨Offers.idle_fresh p _, rfl⟩
  exact ⟨hi.holds, fun p o ho => hp p _ ho _ ((tracked others).contract.rely_refl p _) hi⟩

/-- a commit that has moved the number, with the count that was read after it and sent -/
structure Told (x : Commit P Offers.Db) (r : UUID) (e : Net P Q) (c : Count P) : Prop where
  mem : c ∈ e.counts
  caller : c.caller = x.tx
  request : c.requestID = r
  sent : e.sent x.tx = some ⟨r, c.total⟩
  after : x ∈ c.log

theorem told (h : Runs (Offers.spec (outside Net.inOrder)).machine (start calls others) σ)
    (hs : Settled σ) {x : Commit P Offers.Db} (hx : x ∈ σ.state.store.log) {r : UUID}
    (hr : x.after.countLive r ≠ x.before.countLive r) :
    σ.state.store.commitsOf x.tx = [x] ∧ ∃ c, Told x r σ.state.ext c := by
  obtain ⟨ht, hrep⟩ := tracked_runs h
  have hmem : x ∈ σ.state.store.commitsOf x.tx := List.mem_filter.mpr ⟨hx, decide_eq_true rfl⟩
  obtain ⟨o, ho⟩ := hs.reported x.tx (List.ne_nil_of_mem hmem)
  obtain ⟨i, c, hc, hw, hmoves⟩ := hrep x.tx o ho
  obtain rfl : x = c := by
    rw [hc] at hmem
    exact List.mem_singleton.mp hmem
  obtain ⟨hsent, cnt, hcnt, hreq⟩ := hmoves r (hw.moves hr)
  obtain ⟨hin, hcaller⟩ := List.mem_filter.mp hcnt
  have hcaller := of_decide_eq_true hcaller
  obtain ⟨m, hm⟩ := Option.ne_none_iff_exists'.mp hsent
  refine ⟨hc, cnt, hin, hcaller, hreq, ?_, ?_⟩
  · -- the message is that count
    obtain ⟨cnt', hin', hcaller', rfl⟩ := ht.sent x.tx m hm
    obtain rfl : cnt' = cnt :=
      List.inj_on_of_nodup_map ht.once hin' hin (hcaller'.trans hcaller.symm)
    rw [hm, hreq]
  · have hright := ht.right cnt hin
    obtain ⟨y, hy, htx⟩ := hright.own
    have hown : y ∈ σ.state.store.commitsOf x.tx :=
      List.mem_filter.mpr ⟨hright.suffix.subset hy, decide_eq_true (htx.trans hcaller)⟩
    rw [hc, List.mem_singleton] at hown
    exact hown ▸ hy

/-- the calls of request-service; what is not sent may be anything -/
def Net.invocations (others : Q → Call) (e : Net P Q) : Q ⊕ P → Request.Invocation
  | .inl q => (others q).inv
  | .inr p =>
    match e.sent p with
    | some m => recording m
    | none => recording ⟨0, 0⟩

theorem Net.invocations_sent {e : Net P Q} {p : P} {m : Report} (h : e.sent p = some m) :
    e.invocations others (.inr p) = recording m := by
  simp only [Net.invocations, h]

theorem Net.agrees_invocations (e : Net P Q) : e.Agrees others (e.invocations others) :=
  ⟨fun _ => rfl, fun _ _ h => Net.invocations_sent h⟩

/-- a message that was sent has returned -/
theorem returned (ht : Tracked others σ.state.store.committed σ.state.store.log σ.state.ext)
    (hs : Settled σ) {p : P} (hp : σ.state.ext.sent p ≠ none) :
    ∃ a, (σ.state.ext.fill (σ.state.ext.invocations others)).prog (.inr p) =
      some (.ret (.ok a)) := by
  obtain ⟨a, ha⟩ := hs.recorded p hp
  have hne : σ.state.ext.requests.prog (.inr p) ≠ none := by
    rw [ha]
    exact Option.some_ne_none _
  exact ⟨a, (ht.waiting.fill _ hne).trans ha⟩

/-- and has committed -/
theorem recorded (ht : Tracked others σ.state.store.committed σ.state.store.log σ.state.ext)
    (hs : Settled σ) {p : P} {m : Report} (hm : σ.state.ext.sent p = some m) :
    ∃ d ∈ σ.state.ext.requests.state.store.log, d.tx = .inr p := by
  have hp : σ.state.ext.sent p ≠ none := by
    rw [hm]
    exact Option.some_ne_none m
  obtain ⟨a, ha⟩ := returned ht hs hp
  have hruns := ht.reached _ (Net.agrees_invocations σ.state.ext)
  obtain ⟨hans, htold⟩ := (Request.runs_good hruns).2.1 (.inr p) a ha
  obtain ⟨hwrote, -, -⟩ := htold m.requestID m.totalOffers (Net.invocations_sent hm)
  rw [Request.Answered, if_pos hwrote] at hans
  obtain ⟨d, hd, -⟩ := hans
  exact ⟨d, Request.mem_of_commitsOf hd⟩

/-- of two counts, the one that knows of more was read later -/
theorem Tracked.later {d : Offers.Db} {log : List (Commit P Offers.Db)} {e : Net P Q}
    (h : Tracked others d log e) {c c' : Count P} (hc : c ∈ e.counts) (hc' : c' ∈ e.counts)
    {x : Commit P Offers.Db} (hx : x ∈ c'.log) (hnot : x ∉ c.log) :
    c' ∈ e.later c.caller ∧ c'.caller ≠ c.caller := by
  obtain ⟨newer, older, hsplit⟩ := List.append_of_mem hc
  have hother : ∀ y ∈ newer, y.caller ≠ c.caller := by
    have honce := h.once
    rw [hsplit, List.map_append] at honce
    intro y hy heq
    exact (List.nodup_append.mp honce).2.2 y.caller (List.mem_map_of_mem hy) c.caller
      List.mem_cons_self heq
  have hlater : e.later c.caller = newer := by
    rw [Net.later, hsplit, List.takeWhile_append_of_pos fun y hy => decide_eq_true (hother y hy)]
    rw [List.takeWhile_cons_of_neg (by simp), List.append_nil]
  have hsorted := h.sorted
  rw [hsplit] at hc' hsorted
  rcases List.mem_append.mp hc' with hnew | hrest
  · exact ⟨hlater ▸ hnew, hother c' hnew⟩
  · rcases List.mem_cons.mp hrest with rfl | hold
    · exact absurd hx hnot
    · have hcons := (List.pairwise_append.mp hsorted).2.1
      exact absurd (((List.pairwise_cons.mp hcons).1 c' hold).subset hx) hnot

/-- a commit is there once -/
theorem not_mem_of_commitsOf {log new old : List (Commit P Offers.Db)} {x : Commit P Offers.Db}
    (hlog : new ++ old = log) (hone : log.filter (fun c => c.tx = x.tx) = [x]) (hx : x ∈ new) :
    x ∉ old := by
  intro hold
  have hlen := congrArg List.length hone
  rw [← hlog, List.filter_append, List.length_append] at hlen
  have h₁ : 0 < (new.filter fun c => c.tx = x.tx).length :=
    List.length_pos_of_mem (List.mem_filter.mpr ⟨hx, decide_eq_true rfl⟩)
  have h₂ : 0 < (old.filter fun c => c.tx = x.tx).length :=
    List.length_pos_of_mem (List.mem_filter.mpr ⟨hold, decide_eq_true rfl⟩)
  rw [List.length_singleton] at hlen
  omega

/-- commits that leave the number alone -/
theorem countLive_unmoved {log new : List (Commit P Offers.Db)} {d e : Offers.Db} {r : UUID}
    (h : Chained Offers.Db.empty log d) (h' : Chained Offers.Db.empty (new ++ log) e)
    (hn : ∀ x ∈ new, x.after.countLive r = x.before.countLive r) :
    e.countLive r = d.countLive r := by
  have htrans : ∀ a b c : Offers.Db, b.countLive r = a.countLive r →
      c.countLive r = b.countLive r → c.countLive r = a.countLive r :=
    fun _ _ _ hab hbc => hbc.trans hab
  exact Chained.between (R := fun a b => b.countLive r = a.countLive r) (fun _ => rfl) htrans
    h h' hn

/-- what a route has reported on `r`, its message records -/
theorem reported_of_sent {e : Net P Q} {p : P} {r : UUID} {n : ℕ} (h : e.sent p = some ⟨r, n⟩) :
    (e.invocations others (.inr p)).reported r = some (n : Int) := by
  rw [Net.invocations_sent h]
  exact if_pos rfl

/-- **the last count that was recorded is the number of live offers**: no commit has moved the
number after it was read -/
theorem last_recorded (h : Runs (Offers.spec (outside Net.inOrder)).machine (start calls others) σ)
    (hs : Settled σ) {r : UUID} {newer older : List (Commit (Q ⊕ P) Request.Db)}
    {d : Commit (Q ⊕ P) Request.Db}
    (hlog : σ.state.ext.requests.state.store.log = newer ++ d :: older)
    (hlast : ∀ y ∈ newer, (σ.state.ext.invocations others y.tx).reported r = none)
    {c : Count P} (hc : c ∈ σ.state.ext.counts) (hd : d.tx = .inr c.caller)
    (hsent : σ.state.ext.sent c.caller = some ⟨r, c.total⟩) (hr : c.requestID = r) :
    σ.state.store.committed.countLive r = c.total := by
  have ht := (tracked_runs h).1
  obtain ⟨past, hthen, htotal⟩ := (ht.right c hc).total
  obtain ⟨new, hnew⟩ := (ht.right c hc).suffix
  have hchained : Chained Offers.Db.empty (new ++ c.log) σ.state.store.committed := by
    rw [hnew]
    exact ht.chained
  have hsame : σ.state.store.committed.countLive r = past.countLive r := by
    refine countLive_unmoved hthen hchained fun x hx => ?_
    by_contra hmoved
    have hmem : x ∈ σ.state.store.log := hnew ▸ List.mem_append_left _ hx
    obtain ⟨hone, c', hc'⟩ := told h hs hmem hmoved
    -- it was counted after `c`
    obtain ⟨hlater, hne⟩ := ht.later hc hc'.mem hc'.after (not_mem_of_commitsOf hnew hone hx)
    -- and recorded, before `d` and after `d`
    obtain ⟨y, hy, hytx⟩ := recorded ht hs hc'.sent
    have hyr : (σ.state.ext.invocations others y.tx).reported r = some (c'.total : Int) := by
      rw [hytx]
      exact reported_of_sent hc'.sent
    have hordered := ht.ordered
    rw [Net.Ordered, hlog] at hordered
    rw [hlog] at hy
    rcases List.mem_append.mp hy with hy | hy
    · rw [hlast y hy] at hyr
      cases hyr
    · rcases List.mem_cons.mp hy with rfl | hy
      · rw [hd] at hytx
        exact hne (hc'.caller.trans (Sum.inr.inj hytx).symm)
      · refine (List.pairwise_cons.mp (List.pairwise_append.mp hordered).2.1).1 y hy c.caller hd c'
          hlater ?_ (hytx.trans (congrArg Sum.inr hc'.caller.symm))
        rw [hsent, hc'.request]
        rfl
  rw [hsame, htotal, hr]

/-- where nothing was recorded, no commit has moved the number -/
theorem none_recorded (h : Runs (Offers.spec (outside Net.inOrder)).machine (start calls others) σ)
    (hs : Settled σ) {r : UUID}
    (hnone : ∀ y ∈ σ.state.ext.requests.state.store.log,
      (σ.state.ext.invocations others y.tx).reported r = none) :
    σ.state.store.committed.countLive r = 0 := by
  have ht := (tracked_runs h).1
  have hnil : Chained Offers.Db.empty ([] : List (Commit P Offers.Db)) Offers.Db.empty := rfl
  have hchained : Chained Offers.Db.empty (σ.state.store.log ++ []) σ.state.store.committed := by
    rw [List.append_nil]
    exact ht.chained
  have hsame : σ.state.store.committed.countLive r = Offers.Db.empty.countLive r := by
    refine countLive_unmoved hnil hchained fun x hx => ?_
    by_contra hmoved
    obtain ⟨-, c, hc⟩ := told h hs hx hmoved
    obtain ⟨y, hy, hytx⟩ := recorded ht hs hc.sent
    have hy := hnone y hy
    rw [hytx, reported_of_sent hc.sent] at hy
    cases hy
  rw [hsame]
  rfl

/-- **the last count is the number of live offers** -/
theorem lastReported_live
    (h : Runs (Offers.spec (outside Net.inOrder)).machine (start calls others) σ) (hs : Settled σ)
    (r : UUID) :
    (Request.lastReported (σ.state.ext.invocations others) r
      σ.state.ext.requests.state.store.log).getD 0 = σ.state.store.committed.countLive r := by
  have ht := (tracked_runs h).1
  cases hrep : Request.lastReported (σ.state.ext.invocations others) r
      σ.state.ext.requests.state.store.log with
  | none =>
    rw [none_recorded h hs (List.findSome?_eq_none_iff.mp hrep)]
    rfl
  | some n =>
    obtain ⟨newer, d, older, hlog, hd, hnewer⟩ := List.findSome?_eq_some_iff.mp hrep
    have hset := Request.reported_some hd
    have hin : d ∈ σ.state.ext.requests.state.store.log := by
      rw [hlog]
      exact List.mem_append_right _ List.mem_cons_self
    cases hx : d.tx with
    | inl q =>
      rw [hx] at hset
      exact absurd hset ((others q).other r n)
    | inr p =>
      obtain ⟨m, hm⟩ := Option.ne_none_iff_exists'.mp (ht.recorded d hin p hx)
      obtain ⟨c, hc, rfl, rfl⟩ := ht.sent p m hm
      rw [hx, Net.invocations_sent hm] at hset
      obtain ⟨hr, rfl⟩ : c.requestID = r ∧ (c.total : Int) = n := by
        cases hset
        exact ⟨rfl, rfl⟩
      have hsent : σ.state.ext.sent c.caller = some ⟨r, c.total⟩ := hr ▸ hm
      rw [last_recorded h hs hlog hnewer hc hx hsent hr]
      rfl

theorem countLive_pos {d : Offers.Db} {r : UUID} :
    0 < d.countLive r ↔ ∃ o ∈ d.offers, o.requestID = r ∧ o.status.live = true := by
  rw [Offers.Db.countLive, List.length_pos_iff_exists_mem]
  simp only [List.mem_filter, Bool.and_eq_true, beq_iff_eq]

/-- **The number of live offers converges.**  In every run in which the messages of one request are
recorded in the order in which their counts were read: where nothing is outstanding, `total_offers`
is the number of live offers that offer-service holds, and the status is OPEN exactly if there is a
participant or a live offer. -/
theorem offer_count_converges
    (h : Runs (Offers.spec (outside Net.inOrder)).machine (start calls others) σ) (hs : Settled σ)
    {r : UUID} {pr : Request.PurchaseRequest}
    (hpr : pr ∈ σ.state.ext.requests.state.store.committed.rowsOf r) :
    pr.totalOffers = σ.state.store.committed.countLive r ∧
      (pr.status = .OPEN ↔
        σ.state.ext.requests.state.store.committed.participantsOf r ≠ [] ∨
          ∃ o ∈ σ.state.store.committed.offers, o.requestID = r ∧ o.status.live = true) := by
  have ht := (tracked_runs h).1
  have hruns := ht.reached _ (Net.agrees_invocations σ.state.ext)
  have hlast : pr.totalOffers = (Request.lastReported (σ.state.ext.invocations others) r
      σ.state.ext.requests.state.store.log).getD 0 := by
    refine Request.total_offers_last hruns (fun d hd r' n hn => ?_) hpr
    cases hx : d.tx with
    | inl q =>
      rw [hx] at hn
      exact absurd hn ((others q).other r' n)
    | inr p => exact returned ht hs (ht.recorded d hd p hx)
  have htotal : pr.totalOffers = σ.state.store.committed.countLive r :=
    hlast.trans (lastReported_live h hs r)
  refine ⟨htotal, ?_⟩
  have hid : pr.requestID = r := Request.rowsOf_id hpr
  obtain ⟨hcustomers, -, hstatus⟩ := ((Request.runs_good hruns).1.demand r).derived pr hpr
  have hjoined : 0 < pr.totalCustomers ↔
      σ.state.ext.requests.state.store.committed.participantsOf r ≠ [] := by
    rw [hcustomers, hid, Request.Db.countParticipants, ← List.length_pos_iff]
    exact Int.natCast_pos
  rw [hstatus, hjoined, htotal, Int.natCast_pos, countLive_pos]

end

end

/-! ## two routes -/

/-- a request that has no customer yet -/
def catalogue (_ : Fin 1) : Call where
  inv := .ensureForItem ⟨"TV", "", "electronics"⟩
  other _ _ := Request.Invocation.noConfusion

/-- an offer is made, and withdrawn -/
def withdrawn : Fin 2 → Offers.Invocation
  | 0 => .createOffer 4 5 ⟨10, 250, "EUR", ""⟩ [] [] ""
  | 1 => .cancelOffer 50 4

abbrev Two : Type := Offers.Config (Fin 2) (Net (Fin 2) (Fin 1))

/-- commands of a route; a new offer gets the id 50 -/
def routes (n : Nat) (p : Fin 2) : List (Act (Fin 2) (Choice (Move (Fin 2) (Fin 1)))) :=
  List.replicate n (.exec p ⟨.none, 50, 0, 1, .crash (.inl 0)⟩)

/-- commands of request-service; a new request gets the id 5 -/
def works (n : Nat) (x : Fin 1 ⊕ Fin 2) : List (Act (Fin 2) (Choice (Move (Fin 2) (Fin 1)))) :=
  List.replicate n (.env ⟨.none, 0, 0, 0, .exec x ⟨.none, 5, 0, 1, ()⟩⟩)

/-- the first route counts, then the second one comes, counts and sends -/
def overlapping : List (Act (Fin 2) (Choice (Move (Fin 2) (Fin 1)))) :=
  works 6 (.inl 0) ++ routes 6 0 ++ routes 7 1

/-- the message of the first route is recorded before that of the second one -/
def inTurn : List (Act (Fin 2) (Choice (Move (Fin 2) (Fin 1)))) :=
  overlapping ++ routes 1 0 ++ works 5 (.inr 0) ++ works 5 (.inr 1) ++ routes 1 0 ++ routes 1 1

/-- the second route has its answer before the first one sends -/
def overtaking : List (Act (Fin 2) (Choice (Move (Fin 2) (Fin 1)))) :=
  overlapping ++ works 5 (.inr 1) ++ routes 1 1 ++ routes 1 0 ++ works 5 (.inr 0) ++ routes 1 0

def succeeded {C ε α : Type} {A : C → Type} (m : Option (Prog C A (Except ε α))) : Bool :=
  match m with
  | some (.ret (.ok _)) => true
  | _ => false

theorem succeeded_iff {C ε α : Type} {A : C → Type} {m : Option (Prog C A (Except ε α))}
    (h : succeeded m = true) : ∃ a, m = some (.ret (.ok a)) := by
  unfold succeeded at h
  split at h
  · rename_i a
    exact ⟨a, rfl⟩
  · cases h

/-- what is read off the end -/
structure Seen where
  returned : Bool
  rows : List (Int × Request.Status)
  participants : Nat
  live : Nat
  deriving DecidableEq

def see (σ : Two) : Seen where
  returned := (List.finRange 2).all fun p =>
    succeeded (σ.prog p) && succeeded (σ.state.ext.requests.prog (.inr p))
  rows := (σ.state.ext.requests.state.store.committed.rowsOf 5).map fun pr =>
    (pr.totalOffers, pr.status)
  participants := (σ.state.ext.requests.state.store.committed.participantsOf 5).length
  live := σ.state.store.committed.countLive 5

theorem see_settled {σ : Two} (h : (see σ).returned = true) : Settled σ := by
  have hall := List.all_eq_true.mp h
  have hp : ∀ p, succeeded (σ.prog p) = true ∧
      succeeded (σ.state.ext.requests.prog (.inr p)) = true := fun p =>
    Bool.and_eq_true_iff.mp (hall p (List.mem_finRange p))
  exact ⟨fun p _ => succeeded_iff (hp p).1, fun p _ => succeeded_iff (hp p).2⟩

theorem see_row {σ : Two} {n : Int} {st : Request.Status} (h : (see σ).rows = [(n, st)]) :
    ∃ pr ∈ σ.state.ext.requests.state.store.committed.rowsOf 5,
      pr.totalOffers = n ∧ pr.status = st := by
  have hmem : (n, st) ∈ (see σ).rows := by
    rw [h]
    exact List.mem_singleton_self _
  obtain ⟨pr, hpr, hrow⟩ := List.mem_map.mp hmem
  obtain ⟨rfl, rfl⟩ := Prod.mk.inj hrow
  exact ⟨pr, hpr, rfl, rfl⟩

theorem offer_count_converges_withdrawn : letI := Request.asciiPostgres
    ∃ σ pr, Runs (Offers.spec (outside Net.inOrder)).machine (start withdrawn catalogue) σ ∧
      Settled σ ∧ pr ∈ σ.state.ext.requests.state.store.committed.rowsOf 5 ∧
      pr.totalOffers = σ.state.store.committed.countLive 5 := by
  let : Request.Postgres := Request.asciiPostgres
  obtain ⟨σ, hr, hσ⟩ := Runs.exists_of_run (M := (Offers.spec (outside Net.inOrder)).machine)
    (σ := start withdrawn catalogue) inTurn (f := see) (b := ⟨true, [(0, .INACTIVE)], 0, 0⟩)
    (by decide +kernel)
  have hs : Settled σ := see_settled (congrArg Seen.returned hσ)
  obtain ⟨pr, hpr, -⟩ := see_row (congrArg Seen.rows hσ)
  exact ⟨σ, pr, hr, hs, hpr, (offer_count_converges hr hs hpr).1⟩

/-- without the condition a message that was overtaken stays: the offer is withdrawn, and the
request is open for it -/
theorem offer_count_diverges : letI := Request.asciiPostgres
    ∃ σ pr, Runs (Offers.spec (outside fun _ _ => true)).machine (start withdrawn catalogue) σ ∧
      Settled σ ∧ pr ∈ σ.state.ext.requests.state.store.committed.rowsOf 5 ∧
      pr.totalOffers = 1 ∧ σ.state.store.committed.countLive 5 = 0 ∧ pr.status = .OPEN ∧
      σ.state.ext.requests.state.store.committed.participantsOf 5 = [] ∧
      ¬∃ o ∈ σ.state.store.committed.offers, o.requestID = 5 ∧ o.status.live = true := by
  let : Request.Postgres := Request.asciiPostgres
  obtain ⟨σ, hr, hσ⟩ := Runs.exists_of_run (M := (Offers.spec (outside fun _ _ => true)).machine)
    (σ := start withdrawn catalogue) overtaking (f := see) (b := ⟨true, [(1, .OPEN)], 0, 0⟩)
    (by decide +kernel)
  have hs : Settled σ := see_settled (congrArg Seen.returned hσ)
  obtain ⟨pr, hpr, htotal, hstatus⟩ := see_row (congrArg Seen.rows hσ)
  have hlive : σ.state.store.committed.countLive 5 = 0 := congrArg Seen.live hσ
  refine ⟨σ, pr, hr, hs, hpr, htotal, hlive, hstatus,
    List.length_eq_zero_iff.mp (congrArg Seen.participants hσ), ?_⟩
  rw [← countLive_pos, hlive]
  exact Nat.lt_irrefl 0

end Marketplace.System.Convergence
