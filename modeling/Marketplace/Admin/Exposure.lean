import Marketplace.Admin.Service

/-!
# admin-service: who is exposed to whom

Any number of `Decide`, `Revoke`, `ContactsForRequest` and `HasContactAccess` calls run interleaved,
with any answers from the other services and any transaction failing at any step.

* `DecidedAt o d`    what the tables say about an offer: no decision and no grant, or the one decision
                     of some `Decide` call, with one grant for every customer that call read;
* `AccessStep`       what a commit may do to the grants: a decision adds some, a revoke withdraws one;
* `ContactsTrace`    what `ContactsForRequest` asks the other services for;
* `exposure_sound`   all of this in every state of every run.
-/

set_option linter.unusedSectionVars false

namespace Marketplace.Admin

open Table Events ReadCommitted Interleave
open Service hiding query remote
open Offers (Decision OfferOut OfferStatus)

section
variable {P E Y : Type} [DecidableEq P]

/-! ## what the tables say -/

/-- the grant of a customer on the terms of an offer -/
def grantFor (offer : OfferOut) (customerID : UUID) : Grant :=
  ⟨offer.sellerID, customerID, offer.requestID⟩

/-- the decision of the call `p`, as far as the tables and its remote calls tell -/
structure DecidedBy (tr : P → List Event) (o : UUID) (d : Db) (p : P) (inp : DecideInput) :
    Prop where
  decision : ∃ dec, d.decisionsOf o = [dec] ∧ dec.decision = inp.decision
  offer : inp.offerID = o
  accepted : ∃ reply, Event.remote (.awaitStatus o inp.decision) (.ok reply) ∈ tr p
  rejected : inp.decision = .REJECTED → d.grantsOf o = []
  approved : inp.decision = .APPROVED → ∃ info customerIDs,
    (tr p).head? = some (.remote (.offersGet o) (.ok info)) ∧
    Event.remote (.participantCustomerIDs info.requestID) (.ok customerIDs) ∈ tr p ∧
    customerIDs ≠ [] ∧ customerIDs.Nodup ∧ d.grantsOf o = customerIDs.map (grantFor info)

def DecidedAt (calls : P → Invocation) (tr : P → List Event) (o : UUID) (d : Db) : Prop :=
  (d.decisionsOf o = [] ∧ d.grantsOf o = []) ∨
  ∃ p inp, calls p = .decide inp ∧ DecidedBy tr o d p inp

variable {calls : P → Invocation} {tr tr' : P → List Event} {o : UUID} {d e : Db}

theorem DecidedAt.congr (hs : Db.sameUnder (.decision o) d e) (h : DecidedAt calls tr o d) :
    DecidedAt calls tr o e := by
  obtain ⟨h1, h2⟩ := hs
  rcases h with ⟨hd, hg⟩ | ⟨p, inp, hp, h⟩
  · exact .inl ⟨h1.symm.trans hd, h2.symm.trans hg⟩
  · refine .inr ⟨p, inp, hp, h1 ▸ h.decision, h.offer, h.accepted, h2 ▸ h.rejected, fun ha => ?_⟩
    obtain ⟨info, cs, hget, hread, hne, hnd, hgr⟩ := h.approved ha
    exact ⟨info, cs, hget, hread, hne, hnd, h2.symm.trans hgr⟩

theorem DecidedBy.mono {p : P} {inp : DecideInput} (ht : tr p <+: tr' p)
    (h : DecidedBy tr o d p inp) : DecidedBy tr' o d p inp := by
  obtain ⟨reply, hr⟩ := h.accepted
  refine ⟨h.decision, h.offer, ⟨reply, ht.subset hr⟩, h.rejected, fun ha => ?_⟩
  obtain ⟨info, cs, hget, hread, hrest⟩ := h.approved ha
  refine ⟨info, cs, ?_, ht.subset hread, hrest⟩
  obtain ⟨new, hn⟩ := ht
  rw [← hn, List.head?_append, hget]
  rfl

theorem DecidedAt.mono (ht : ∀ q, tr q <+: tr' q) (h : DecidedAt calls tr o d) :
    DecidedAt calls tr' o d := by
  rcases h with h | ⟨p, inp, hp, h⟩
  · exact .inl h
  · exact .inr ⟨p, inp, hp, h.mono (ht p)⟩

/-- what a commit may do to the grants -/
def AccessStep (inv : Invocation) (d e : Db) : Prop :=
  match inv with
  | .decide _ => ∃ new, e.accesses = d.accesses ++ new ∧
      ∀ a ∈ new, a.status = .GRANTED ∧ a.expiresAt = none
  | .revoke a => e.accesses = d.accesses ∨
      e.accesses = updateWhere (fun row => row.accessID == a && row.status == .GRANTED)
        ContactAccess.revoked d.accesses
  | _ => e.accesses = d.accesses

/-! ## what a contact lookup asks for -/

/-- only customers of the grants are resolved, and only their phones are asked for -/
def HopsOf (grants : List ContactAccess) (hops : List Event) : Prop :=
  ∀ ev ∈ hops,
    (∃ g ∈ grants, ∃ a, ev = .remote (.resolveCustomer g.customerID) a) ∨
    (∃ g ∈ grants, ∃ c a, ev = .remote (.phone c.userID) a ∧
      Event.remote (.resolveCustomer g.customerID) (.ok c) ∈ hops)

/-- the grants were read for the seller that the user resolved to, and the hops follow them -/
def Looked (userID requestID : UUID) (sellerID : UUID) (d : Db) (now : Time) (hops : List Event)
    (es : List Event) : Prop :=
  es = .remote (.resolveSellerID userID) (.ok sellerID) :: .listed d now :: hops ∧
    HopsOf (d.listGranted sellerID requestID now) hops

def ContactsTrace (userID requestID : UUID) (es : List Event) : Prop :=
  es = [] ∨ (∃ a, es = [.remote (.resolveSellerID userID) a]) ∨
  ∃ s d now hops, Looked userID requestID s d now hops es

def TraceOf (inv : Invocation) (es : List Event) : Prop :=
  match inv with
  | .contactsForRequest u r => ContactsTrace u r es
  | _ => True

theorem HopsOf.append_customer {grants : List ContactAccess} {hops : List Event}
    (h : HopsOf grants hops) {g : ContactAccess} (hg : g ∈ grants)
    (a : Reply (.resolveCustomer g.customerID)) :
    HopsOf grants (hops ++ [.remote (.resolveCustomer g.customerID) a]) := by
  intro ev hev
  rcases List.mem_append.mp hev with hev | hev
  · rcases h ev hev with h | ⟨g', hg', c, b, he, hc⟩
    · exact .inl h
    · exact .inr ⟨g', hg', c, b, he, List.mem_append_left _ hc⟩
  · exact .inl ⟨g, hg, a, List.mem_singleton.mp hev⟩

theorem HopsOf.append_phone {grants : List ContactAccess} {hops : List Event}
    (h : HopsOf grants hops) {g : ContactAccess} (hg : g ∈ grants) {c : Customer}
    (hc : Event.remote (.resolveCustomer g.customerID) (.ok c) ∈ hops)
    (a : Reply (.phone c.userID)) :
    HopsOf grants (hops ++ [.remote (.phone c.userID) a]) := by
  intro ev hev
  rcases List.mem_append.mp hev with hev | hev
  · rcases h ev hev with h | ⟨g', hg', c', b, he, hc'⟩
    · exact .inl h
    · exact .inr ⟨g', hg', c', b, he, List.mem_append_left _ hc'⟩
  · exact .inr ⟨g, hg, c, a, List.mem_singleton.mp hev, List.mem_append_left _ hc⟩

/-! ## what every step keeps -/

/-- contents that were committed at some time -/
def WasCommitted (d : Db) (log : List (Commit P Db)) : Prop :=
  d = Db.empty ∨ ∃ c ∈ log, c.after = d

theorem WasCommitted.mono {log log' : List (Commit P Db)} (hl : ∀ c ∈ log, c ∈ log')
    (h : WasCommitted d log) : WasCommitted d log' := by
  rcases h with h | ⟨c, hc, e⟩
  · exact .inl h
  · exact .inr ⟨c, hl c hc, e⟩

/-- the contents that a read of the grants was made on -/
def Event.readOf : Event → Option Db
  | .remote _ _ => none
  | .listed d _ => some d
  | .counted d _ => some d

structure Good (calls : P → Invocation) (d : Db) (log : List (Commit P Db))
    (tr : P → List Event) : Prop where
  chained : Chained Db.empty log d
  decided : ∀ o, DecidedAt calls tr o d
  one : ∀ a, (d.rowsOf a).length ≤ 1
  steps : ∀ c ∈ log, AccessStep (calls c.tx) c.before c.after
  commits : ∀ c ∈ log, ∀ inp, calls c.tx = .decide inp →
    DecidedBy tr inp.offerID c.after c.tx inp
  traces : ∀ p, TraceOf (calls p) (tr p)
  reads : ∀ p, ∀ ev ∈ tr p, ∀ d, ev.readOf = some d → WasCommitted d log

/-- what the outside guarantees about itself and the events so far -/
structure Law (out : Outside P E Y) where
  holds : Ext P E → Prop
  remote : ∀ {p r x e a o}, holds e → out.remote p r x e.out = some (a, o) →
    holds ({ e with out := o }.record p (.remote r a))
  env : ∀ {x e o}, holds e → out.env x e.out = some o → holds { e with out := o }
  read : ∀ {e} p ev, ev.readOf ≠ none → holds e → holds (e.record p ev)

/-- nothing is known of the outside -/
def Law.trivial (out : Outside P E Y) : Law out :=
  ⟨fun _ => True, fun _ _ => True.intro, fun _ _ => True.intro, fun _ _ _ _ => True.intro⟩

variable {out : Outside P E Y}

def terms (calls : P → Invocation) (law : Law out) : Service.Terms (spec out) where
  I d log e := Good calls d log e.trace ∧ law.holds e
  R p e e' := e'.trace p = e.trace p
  refl _ _ := rfl
  trans _ _ _ _ h h' := h'.trans h
  note {p p' q x s e} h := by
    cases q with
    | listGrantedForSellerRequest sl r => exact record_other e h _
    | countEffectiveAccess sl c r => exact record_other e h _
    | _ => rfl
  remote {p p' r x e a e'} h hs := by
    obtain ⟨b, hb, he⟩ := Option.map_eq_some_iff.mp hs
    cases he
    exact record_other _ h _
  env_R {p x e e'} hs := by
    obtain ⟨b, hb, rfl⟩ := Option.map_eq_some_iff.mp hs
    rfl
  env_I {d log x e e'} h hs := by
    obtain ⟨b, hb, rfl⟩ := Option.map_eq_some_iff.mp hs
    exact ⟨h.1, law.env h.2 hb⟩

/-- one more event of `p` -/
theorem Good.record {log : List (Commit P Db)} {p : P} {ev : Event} {x : Ext P E}
    (h : Good calls d log x.trace) (ht : TraceOf (calls p) (x.trace p ++ [ev]))
    (hr : ∀ d, ev.readOf = some d → WasCommitted d log) :
    Good calls d log (x.record p ev).trace := by
  have ht' : ∀ q, x.trace q <+: (x.record p ev).trace q := by
    intro q
    by_cases e : q = p
    · subst e
      rw [record_self]
      exact List.prefix_append _ _
    · simp only [record_other x e, List.prefix_rfl]
  refine ⟨h.chained, fun o => (h.decided o).mono ht', h.one, h.steps,
    fun c hc inp hp => (h.commits c hc inp hp).mono (ht' _), fun q => ?_, fun q ev' hev => ?_⟩
  · by_cases e : q = p
    · subst e
      rw [record_self]
      exact ht
    · rw [record_other x e]
      exact h.traces q
  · by_cases e : q = p
    · subst e
      rw [record_self] at hev
      rcases List.mem_append.mp hev with hev | hev
      · exact h.reads q ev' hev
      · exact List.mem_singleton.mp hev ▸ hr
    · rw [record_other x e] at hev
      exact h.reads q ev' hev

/-! ## assertions -/

variable {law : Law out} {p : P}

/-- what `p` knows of the tables and what it has done so far -/
structure At (p : P) (S : St P → Prop) (T : List Event → Prop)
    (σ : State P Db Write Lock (Ext P E)) : Prop where
  store : S σ.store
  trace : T (σ.ext.trace p)

theorem At.stable {S : St P → Prop} {T : List Event → Prop}
    (hS : (terms calls law).Stable p fun σ => S σ.store) :
    (terms calls law).Stable p (At p S T) :=
  fun σ τ hr hi h => ⟨hS σ τ hr hi h.store, (congrArg T hr.ext).mpr h.trace⟩

def Idle (p : P) (s : St P) : Prop := s.pending p = []

theorem Idle.stable : (terms calls law).Stable p fun σ => Idle p σ.store :=
  Terms.Stable.pending (· = [])

/-- the answer is one that the outside gives -/
def Replies (out : Outside P E Y) (p : P) (r : Remote) (a : Reply r) : Prop :=
  ∃ x e e', out.remote p r x e = some (a, e')

theorem triple_remote {r : Remote} {S : St P → Prop} {T : List Event → Prop}
    {U : Reply r → List Event → Prop} {F : Err → State P Db Write Lock (Ext P E) → Prop}
    (hS : (terms calls law).Stable p fun σ => S σ.store)
    (h : ∀ es a, Replies out p r a → T es →
      TraceOf (calls p) (es ++ [.remote r a]) ∧ U a (es ++ [.remote r a])) :
    (terms calls law).Triple p (At p S T) (remote r) (fun a => At p S (U a)) F := by
  refine Terms.Triple.remote (At.stable hS) (fun a => At.stable hS) fun σ x a e hi ha hs => ?_
  obtain ⟨⟨b, o⟩, hb, he⟩ := Option.map_eq_some_iff.mp hs
  cases he
  obtain ⟨ht, ht'⟩ := h _ b ⟨x, _, _, hb⟩ ha.trace
  refine ⟨⟨Good.record (x := { σ.ext with out := o }) hi.holds.1 ht (fun d e => nomatch e),
    law.remote hi.holds.2 hb⟩, ha.store, ?_⟩
  show U b (Ext.trace _ p)
  rw [record_self]
  exact ht'

/-- a statement that leaves no event -/
def Stmt.silent : Stmt → Prop
  | .listGrantedForSellerRequest _ _ => False
  | .countEffectiveAccess _ _ _ => False
  | _ => True

theorem note_silent {q : Stmt} (h : q.silent) (x : Choice Y) (s : St P) (e : Ext P E) :
    note p q x s e = e := by
  cases q with
  | listGrantedForSellerRequest sl r => exact h.elim
  | countEffectiveAccess sl c r => exact h.elim
  | _ => rfl

theorem triple_query {ε : Type} {q : Stmt} (hq : q.silent) {S : St P → Prop} {T : List Event → Prop}
    {B : Except PgErr (Row q) → St P → Prop} {F : ε → State P Db Write Lock (Ext P E) → Prop}
    (hS : (terms calls law).Stable p fun σ => S σ.store)
    (hB : ∀ r, (terms calls law).Stable p fun σ => B r σ.store)
    (h : ∀ s (x : Choice Y) a t tr, WellLocked s → Good calls s.committed s.log tr → S s →
      stmt p q x s = some (.ok a, t) → WellLocked t ∧ B (.ok a) t)
    (herr : ∀ s e, S s → B (.error e) s) :
    (terms calls law).Triple p (At p S T) (Service.query q : Call Row Reply ε _)
      (fun r => At p (B r) T) F := by
  refine Terms.Triple.query (At.stable hS) (fun r => At.stable (hB r)) ?_
    fun σ _ ha => ⟨herr _ _ ha.store, ha.trace⟩
  intro σ x r t hi ha hs
  have hn : (spec out).note p q x σ.store σ.ext = σ.ext := note_silent hq x σ.store σ.ext
  rw [hn]
  cases r with
  | ok a =>
    obtain ⟨hw, hb⟩ := h σ.store x a t _ hi.locked hi.holds.1 ha.store hs
    exact ⟨hw, hi.holds, hb, ha.trace⟩
  | error e =>
    obtain rfl := stmt_error hs
    exact ⟨hi.locked, hi.holds, herr _ _ ha.store, ha.trace⟩

/-- a statement whose error is passed on; about an error nothing is claimed -/
theorem triple_sql {ε : Type} {wrap : PgErr → ε} {q : Stmt} (hq : q.silent) {S : St P → Prop}
    {T : List Event → Prop} {B : Row q → St P → Prop}
    (hS : (terms calls law).Stable p fun σ => S σ.store)
    (hB : ∀ a, (terms calls law).Stable p fun σ => B a σ.store)
    (h : ∀ s (x : Choice Y) a t tr, WellLocked s → Good calls s.committed s.log tr → S s →
      stmt p q x s = some (.ok a, t) → WellLocked t ∧ B a t) :
    (terms calls law).Triple p (At p S T) (Service.sql wrap q : Call Row Reply ε _)
      (fun a => At p (B a) T) fun _ _ => True := by
  refine .bind (triple_query (B := fun r s => ∀ a, r = .ok a → B a s) hq hS
    (fun r => .all fun a => .all fun _ => hB a) (fun s x a t tr hw hg ha hs => ?_)
    fun _ _ _ _ e => nomatch e) fun r => ?_
  · obtain ⟨hw', hb⟩ := h s x a t tr hw hg ha hs
    refine ⟨hw', fun b e => ?_⟩
    cases e
    exact hb
  · exact .orThrow (At.stable (.all fun a => .all fun _ => hB a))
      (fun a σ e _ h => ⟨h.store a e, h.trace⟩) fun _ _ _ _ _ => trivial

/-! ## Decide -/

/-- a write that adds a row; a new grant is in force and does not expire -/
def Write.adds : Write → Prop
  | .recordDecision _ => True
  | .grantContactAccess row => row.status = .GRANTED ∧ row.expiresAt = none
  | .revokeContactAccess _ => False
  | .insertOutbox _ => True

def Adding (d e : Db) : Prop :=
  ∃ new, e.accesses = d.accesses ++ new ∧ ∀ a ∈ new, a.status = .GRANTED ∧ a.expiresAt = none

theorem adding_apply {w : Write} (h : w.adds) (d : Db) : Adding d (w.apply d) := by
  cases w with
  | recordDecision dec => exact ⟨[], (List.append_nil _).symm, by simp⟩
  | grantContactAccess row => exact ⟨[row], rfl, fun a ha => List.mem_singleton.mp ha ▸ h⟩
  | revokeContactAccess a => exact h.elim
  | insertOutbox row => exact ⟨[], (List.append_nil _).symm, by simp⟩

theorem Adding.trans {a b c : Db} (h : Adding a b) (h' : Adding b c) : Adding a c := by
  obtain ⟨n, hn, hs⟩ := h
  obtain ⟨n', hn', hs'⟩ := h'
  refine ⟨n ++ n', by rw [hn', hn, List.append_assoc], fun x hx => ?_⟩
  exact (List.mem_append.mp hx).elim (hs x) (hs' x)

theorem adding_view {s : St P} (h : ∀ w ∈ s.pending p, w.adds) : Adding s.committed (s.view p) :=
  applyAll_rel Adding (fun d => ⟨[], (List.append_nil _).symm, by simp⟩) (fun _ _ _ => Adding.trans)
    _ (fun w hw d => adding_apply (h w hw) d) _

/-- the transaction of `p` has decided `inp` and granted access to the customers `granted` -/
structure Recorded (p : P) (inp : DecideInput) (info : OfferOut) (granted : List UUID)
    (s : St P) : Prop where
  held : s.locks (.decision inp.offerID) = some p
  only : ∀ w ∈ s.pending p, ∀ j, Lock.decision j ∈ w.guards → j = inp.offerID
  adds : ∀ w ∈ s.pending p, w.adds
  one : ∀ a, (∃ w ∈ s.pending p, Lock.access a ∈ w.guards) → ((s.view p).rowsOf a).length ≤ 1
  decision : ∃ dec, (s.view p).decisionsOf inp.offerID = [dec] ∧ dec.decision = inp.decision
  grants : (s.view p).grantsOf inp.offerID = granted.map (grantFor info)
  nodup : granted.Nodup

variable {inp : DecideInput} {info : OfferOut} {granted : List UUID}

theorem Recorded.stable :
    (terms calls law).Stable p fun σ => Recorded p inp info granted σ.store := by
  intro σ τ hr hi h
  have hp := hr.seen.pending
  obtain ⟨hdec, hgr⟩ := hr.seen.view h.held
  refine ⟨(hr.seen.locks _).mpr h.held, hp.symm ▸ h.only, hp.symm ▸ h.adds, fun a hw => ?_,
    hdec ▸ h.decision, hgr ▸ h.grants, h.nodup⟩
  have hlock : τ.store.locks (.access a) = some p := by
    obtain ⟨w, hw, hg⟩ := hw
    exact hi.locked p w hw _ hg
  rw [hp] at hw
  have hsame : (σ.store.view p).rowsOf a = (τ.store.view p).rowsOf a :=
    hr.seen.view ((hr.seen.locks _).mp hlock)
  rw [← hsame]
  exact h.one a hw

/-- **what is decided under these rules may be committed** -/
theorem Recorded.commit {s : St P} {tr : P → List Event} (hp : calls p = .decide inp)
    (h : Recorded p inp info granted s) (hg : Good calls s.committed s.log tr)
    (hby : DecidedBy tr inp.offerID (s.view p) p inp) :
    Good calls (s.view p) (⟨p, s.committed, s.view p⟩ :: s.log) tr := by
  refine ⟨⟨rfl, hg.chained⟩, fun o => ?_, fun a => ?_, fun c hc => ?_, fun c hc inp' hp' => ?_,
    hg.traces, fun q ev hev d hd => (hg.reads q ev hev d hd).mono fun c => List.mem_cons_of_mem _⟩
  · by_cases e : o = inp.offerID
    · exact .inr ⟨p, inp, hp, e ▸ hby⟩
    · have hsame : Schema.same Write (Lock.decision o) s.committed (s.view p) :=
        same_applyAll _ (fun w hw hm => e (h.only w hw o hm)) _
      exact (hg.decided o).congr hsame
  · by_cases e : ∃ w ∈ s.pending p, Lock.access a ∈ w.guards
    · exact h.one a e
    · have hsame : Schema.same Write (Lock.access a) s.committed (s.view p) :=
        same_applyAll _ (fun w hw hm => e ⟨w, hw, hm⟩) _
      have hrows : s.committed.rowsOf a = (s.view p).rowsOf a := hsame
      rw [← hrows]
      exact hg.one a
  · rcases List.mem_cons.mp hc with rfl | hc
    · show AccessStep (calls p) _ _
      rw [hp]
      exact adding_view h.adds
    · exact hg.steps c hc
  · rcases List.mem_cons.mp hc with rfl | hc
    · cases hp.symm.trans hp'
      exact hby
    · exact hg.commits c hc inp' hp'

/-- one more write of the decision -/
theorem Recorded.put {s t : St P} {w : Write} {granted' : List UUID}
    (h : Recorded p inp info granted s) (hw : WellLocked s) (hput : s.put p w = some t)
    (hg : ∀ l ∈ w.guards, l ∈ w.takes ∨ l = .decision inp.offerID) (ha : w.adds)
    (honly : ∀ j, Lock.decision j ∈ w.guards → j = inp.offerID)
    (hone : ∀ a, Lock.access a ∈ w.guards → ((w.apply (s.view p)).rowsOf a).length ≤ 1)
    (hdec : (w.apply (s.view p)).decisions = (s.view p).decisions)
    (hgr : (w.apply (s.view p)).grantsOf inp.offerID = granted'.map (grantFor info))
    (hnd : granted'.Nodup) : WellLocked t ∧ Recorded p inp info granted' t := by
  have hpend := put_pending hput
  have hv : t.view p = w.apply (s.view p) := put_view hput
  have hguard : ∀ l ∈ w.guards, l ∈ w.takes ∨ s.locks l = some p := by
    intro l hl
    rcases hg l hl with ht | rfl
    · exact .inl ht
    · exact .inr h.held
  refine ⟨wellLocked_put hw hput hguard, put_keeps hput h.held, ?_, ?_, fun a ⟨v, hm, hgv⟩ => ?_,
    ?_, by rw [hv]; exact hgr, hnd⟩
  · rw [hpend]
    intro v hv
    rcases List.mem_append.mp hv with hv | hv
    · exact h.only v hv
    · exact List.mem_singleton.mp hv ▸ honly
  · rw [hpend]
    intro v hv
    rcases List.mem_append.mp hv with hv | hv
    · exact h.adds v hv
    · exact List.mem_singleton.mp hv ▸ ha
  · rw [hv]
    by_cases e : Lock.access a ∈ w.guards
    · exact hone a e
    · have hsame : (s.view p).rowsOf a = (w.apply (s.view p)).rowsOf a :=
        sameUnder_apply (l := .access a) _ e
      rw [← hsame]
      rw [hpend] at hm
      rcases List.mem_append.mp hm with hm | hm
      · exact h.one a ⟨v, hm, hgv⟩
      · exact absurd (List.mem_singleton.mp hm ▸ hgv) e
  · obtain ⟨dec, hd, he⟩ := h.decision
    refine ⟨dec, ?_, he⟩
    rw [hv, Db.decisionsOf, hdec]
    exact hd

/-- the decision goes in first: where there is none there is no grant either -/
theorem triple_recordDecision {T : List Event → Prop} :
    (terms calls law).Triple p (At p (Idle p) T) (recordDecision inp)
      (fun _ => At p (Recorded p inp info []) T) fun _ _ => True := by
  refine .bind (triple_query (q := .recordDecision _ _ _ _)
    (B := fun r s => ∀ a, r = .ok a → Recorded p inp info [] s) trivial
    Idle.stable (fun r => .all fun a => .all fun _ => Recorded.stable)
    (fun s x a t tr hw hg hi hs => ?_) fun _ _ _ _ e => ?_) fun r => ?_
  · obtain ⟨hoff, hdec, hnone, hp⟩ := recordDecision_ok hs
    have hview := view_of_pending hi
    rw [hview] at hnone
    have hpend : t.pending p = [.recordDecision a] := by
      rw [put_pending hp, hi]
      rfl
    have hv : t.view p = Write.apply (.recordDecision a) s.committed := by
      rw [put_view hp, hview]
      rfl
    have hgrants : s.committed.grantsOf inp.offerID = [] := by
      rcases hg.decided inp.offerID with h | ⟨q, inp', -, h⟩
      · exact h.2
      · obtain ⟨dec, hd, -⟩ := h.decision
        rw [hnone] at hd
        cases hd
    refine ⟨wellLocked_put hw hp fun l hl => .inl hl, fun b _ => ⟨?_, ?_, ?_, ?_, ?_, ?_, List.nodup_nil⟩⟩
    · exact hoff ▸ put_takes hp List.mem_cons_self
    · rw [hpend]
      intro w hm j hj
      rw [List.mem_singleton] at hm
      subst hm
      simpa [Write.guards, Write.takes, hoff] using hj
    · rw [hpend]
      intro w hm
      rw [List.mem_singleton] at hm
      subst hm
      trivial
    · rw [hpend]
      intro i hi
      obtain ⟨w, hm, hw⟩ := hi
      rw [List.mem_singleton] at hm
      subst hm
      simp [Write.guards, Write.takes] at hw
    · refine ⟨a, ?_, hdec⟩
      rw [hv]
      show (s.committed.decisions ++ [a]).filter _ = _
      rw [List.filter_append]
      show s.committed.decisionsOf inp.offerID ++ _ = _
      rw [hnone]
      simp [hoff]
    · rw [hv]
      exact hgrants
  · cases e
  · have hst : (terms calls law).Stable p
        (At p (fun s => ∀ a, r = .ok a → Recorded p inp info [] s) T) :=
      At.stable (.all fun a => .all fun _ => Recorded.stable)
    cases r with
    | ok a => exact .pure hst fun σ _ h => ⟨h.store a rfl, h.trace⟩
    | error e =>
      cases e with
      | uniqueViolation => exact .throw hst fun _ _ _ => trivial
      | noRows => exact .throw hst fun _ _ _ => trivial
      | integrityViolation => exact .throw hst fun _ _ _ => trivial
      | other => exact .throw hst fun _ _ _ => trivial

theorem grantsOf_grant (row : ContactAccess) (d : Db) :
    (Write.apply (.grantContactAccess row) d).grantsOf row.offerID =
      d.grantsOf row.offerID ++ [row.grant] := by
  show ((d.accesses ++ [row]).filter _).map _ = _
  rw [List.filter_append, List.map_append]
  simp [Db.grantsOf, Db.accessesOf]

theorem triple_grantAll (hinfo : info.offerID = inp.offerID) {T : List Event → Prop}
    (ids granted : List UUID) :
    (terms calls law).Triple p (At p (Recorded p inp info granted) T) (grantAll inp info ids)
      (fun _ => At p (Recorded p inp info (granted ++ ids)) T) fun _ _ => True := by
  induction ids generalizing granted with
  | nil =>
    rw [List.append_nil]
    exact .pure (At.stable Recorded.stable) fun _ _ h => h
  | cons c ids ih =>
    refine .bind (B := fun _ => At p (Recorded p inp info (granted ++ [c])) T) ?_ fun _ => ?_
    · refine triple_sql (q := .grantContactAccess _ _ _ _ _)
        (B := fun _ => Recorded p inp info (granted ++ [c])) trivial Recorded.stable
        (fun _ => Recorded.stable) fun s x a t tr hw hg h hs => ?_
      obtain ⟨hoff, hgrant, hst, hexp, hid, hnew, hp⟩ := grantContactAccess_ok hs
      rw [hinfo] at hoff hnew
      have hc : c ∉ granted := by
        intro hm
        have hgr : grantFor info c ∈ (s.view p).grantsOf inp.offerID := by
          rw [h.grants]
          exact List.mem_map_of_mem hm
        obtain ⟨b, hb, he⟩ := List.mem_map.mp hgr
        exact hnew b hb (congrArg Grant.customerID he)
      refine h.put hw hp ?_ ⟨hst, hexp⟩ ?_ ?_ rfl ?_ ?_
      · intro l hl
        simp only [Write.guards, List.mem_cons, List.not_mem_nil, or_false] at hl
        rcases hl with rfl | rfl
        · exact .inr (hoff ▸ rfl)
        · exact .inl (List.mem_cons_of_mem _ List.mem_cons_self)
      · intro j hj
        simp only [Write.guards, List.mem_cons, Lock.decision.injEq, reduceCtorEq,
          List.not_mem_nil, or_false] at hj
        exact hj.trans hoff
      · intro i hi
        simp only [Write.guards, List.mem_cons, Lock.access.injEq, reduceCtorEq,
          List.not_mem_nil, or_false, false_or] at hi
        subst hi
        show ((((s.view p).accesses ++ [a]).filter _).length : Nat) ≤ 1
        rw [List.filter_append]
        show ((s.view p).rowsOf a.accessID ++ _).length ≤ 1
        rw [hid]
        exact List.length_filter_le _ _
      · rw [← hoff, grantsOf_grant, hoff, h.grants, List.map_append, hgrant]
        rfl
      · exact List.nodup_append.mpr ⟨h.nodup, List.nodup_singleton c, fun x hx y hy e =>
          hc (List.mem_singleton.mp hy ▸ e ▸ hx)⟩
    · refine (ih (granted ++ [c])).weaken (fun _ h => h) (fun _ σ _ h => ?_) fun _ _ _ _ => trivial
      rwa [List.append_assoc] at h

/-- more events do not make it false -/
def Grows (T : List Event → Prop) : Prop := ∀ es ev, T es → T (es ++ [ev])

/-- the rest of `Decide` may ask for anything -/
theorem traceOf_decide (hp : calls p = .decide inp) (es : List Event) : TraceOf (calls p) es := by
  rw [hp]
  trivial

theorem triple_setStatus (hp : calls p = .decide inp) {S : St P → Prop} {T : List Event → Prop}
    (hS : (terms calls law).Stable p fun σ => S σ.store) (hT : Grows T) :
    (terms calls law).Triple p (At p S T) (setStatus inp)
      (fun _ => At p S fun es => T es ∧
        ∃ reply, Event.remote (.awaitStatus inp.offerID inp.decision) (.ok reply) ∈ es)
      fun _ _ => True := by
  refine .bind (triple_remote (U := fun _ => T) hS fun es a _ ht =>
    ⟨traceOf_decide hp _, hT _ _ ht⟩) fun _ => .bind (triple_remote (U := fun a es =>
      T es ∧ Event.remote (.awaitStatus inp.offerID inp.decision) a ∈ es) hS fun es a _ ht =>
        ⟨traceOf_decide hp _, hT _ _ ht, by simp⟩) fun a => ?_
  match a with
  | .ok reply => exact .pure (At.stable hS) fun σ _ h => ⟨h.store, h.trace.1, reply, h.trace.2⟩
  | .error .conflict => exact .throw (At.stable hS) fun _ _ _ => trivial
  | .error .notFound => exact .throw (At.stable hS) fun _ _ _ => trivial
  | .error .unavailable => exact .throw (At.stable hS) fun _ _ _ => trivial

theorem triple_enqueue {T : List Event → Prop} (key : RoutingKey) (ns : List Notification) :
    (terms calls law).Triple p (At p (Recorded p inp info granted) T) (enqueue key ns)
      (fun _ => At p (Recorded p inp info granted) T) fun _ _ => True := by
  unfold enqueue
  by_cases e : ns = []
  · rw [if_pos e]
    exact .pure (At.stable Recorded.stable) fun _ _ h => h
  · rw [if_neg e]
    refine triple_sql (q := .insertOutbox _ _) (B := fun _ => Recorded p inp info granted) trivial
      Recorded.stable (fun _ => Recorded.stable) fun s x a t tr hw hg h hs => ?_
    exact h.put hw (insertOutbox_ok hs) (fun l hl => .inl hl) trivial
      (by simp [Write.guards, Write.takes]) (by simp [Write.guards, Write.takes]) rfl h.grants
      h.nodup

theorem triple_notifySeller {T : List Event → Prop} (u : UUID) (n : Nat) :
    (terms calls law).Triple p (At p (Recorded p inp info granted) T) (notifySeller u inp n)
      (fun _ => At p (Recorded p inp info granted) T) fun _ _ => True := by
  unfold notifySeller
  by_cases e : u = UUID.nil
  · rw [if_pos e]
    exact .pure (At.stable Recorded.stable) fun _ _ h => h
  · rw [if_neg e]
    refine .bind (triple_enqueue _ _) fun _ => ?_
    by_cases e' : inp.decision ≠ .APPROVED ∨ n = 0
    · rw [if_pos e']
      exact .pure (At.stable Recorded.stable) fun _ _ h => h
    · rw [if_neg e']
      exact triple_enqueue _ _

/-- what `Decide` has read before it opens its transaction -/
structure Gathered (inp : DecideInput) (info : OfferOut) (ids : List UUID) (es : List Event) :
    Prop where
  offer : es.head? = some (.remote (.offersGet inp.offerID) (.ok info))
  rejected : inp.decision = .REJECTED → ids = []
  approved : inp.decision = .APPROVED →
    ids ≠ [] ∧ Event.remote (.participantCustomerIDs info.requestID) (.ok ids) ∈ es

theorem head?_grows (ev : Event) : Grows fun es => es.head? = some ev := by
  intro es ev' h
  rw [List.head?_append, h]
  rfl

theorem Gathered.grows {ids : List UUID} : Grows (Gathered inp info ids) :=
  fun _ _ h => ⟨head?_grows _ _ _ h.offer, h.rejected,
    fun ha => ⟨(h.approved ha).1, List.mem_append_left _ (h.approved ha).2⟩⟩

/-- the transaction has done all of its writes, and offer-service has accepted the decision -/
theorem Recorded.decidedBy {ids : List UUID} {s : St P} {tr : P → List Event}
    (h : Recorded p inp info ids s) (hg : Gathered inp info ids (tr p))
    (hr : ∃ reply, Event.remote (.awaitStatus inp.offerID inp.decision) (.ok reply) ∈ tr p) :
    DecidedBy tr inp.offerID (s.view p) p inp where
  decision := h.decision
  offer := rfl
  accepted := hr
  rejected e := by rw [h.grants, hg.rejected e]; rfl
  approved e := ⟨info, ids, hg.offer, (hg.approved e).2, (hg.approved e).1, h.nodup, h.grants⟩

theorem triple_recordOutcome (hp : calls p = .decide inp) (hinfo : info.offerID = inp.offerID)
    {ids : List UUID} (u : UUID) :
    (terms calls law).Triple p (At p (Idle p) (Gathered inp info ids))
      (inTx (recordOutcome inp info u ids)) (fun _ _ => True) fun _ _ => True := by
  refine Terms.Triple.inTx (At.stable Idle.stable) (At.stable Idle.stable) (fun _ => .const True)
    (fun _ => .const True) (fun σ n _ h => ⟨h.store, h.trace⟩)
    (M := fun _ => At p (Recorded p inp info ids) fun es => Gathered inp info ids es ∧
      ∃ reply, Event.remote (.awaitStatus inp.offerID inp.decision) (.ok reply) ∈ es)
    (G := fun _ _ => True) ?_ (fun _ _ _ _ => trivial) (fun a σ hi h => ⟨?_, trivial⟩)
    (fun _ _ => trivial) fun _ _ => trivial
  · refine .bind triple_recordDecision fun dec => .bind (triple_grantAll hinfo ids []) fun _ =>
      .bind (triple_setStatus hp Recorded.stable Gathered.grows) fun _ =>
        .bind (triple_notifySeller _ _) fun _ => .pure (At.stable Recorded.stable) fun _ _ h => h
  · exact ⟨h.store.commit hp hi.holds.1 (h.store.decidedBy h.trace.1 h.trace.2), hi.holds.2⟩

theorem triple_buyers (hp : calls p = .decide inp) {S : St P → Prop}
    (hS : (terms calls law).Stable p fun σ => S σ.store) :
    (terms calls law).Triple p
      (At p S fun es => es.head? = some (.remote (.offersGet inp.offerID) (.ok info)))
      (buyers inp.decision info) (fun ids => At p S (Gathered inp info ids)) fun _ _ => True := by
  cases hd : inp.decision with
  | REJECTED =>
    exact .pure (At.stable hS) fun σ _ h =>
      ⟨h.store, h.trace, fun _ => rfl, fun e => nomatch hd.symm.trans e⟩
  | APPROVED =>
    refine .bind (triple_remote (U := fun a es =>
      es.head? = some (.remote (.offersGet inp.offerID) (.ok info)) ∧
      Event.remote (.participantCustomerIDs info.requestID) a ∈ es) hS fun es a _ ht =>
        ⟨traceOf_decide hp _, head?_grows _ _ _ ht, by simp⟩) fun a => ?_
    match a with
    | .ok [] => exact .throw (At.stable hS) fun _ _ _ => trivial
    | .ok (c :: cs) =>
      exact .pure (At.stable hS) fun σ _ h => ⟨h.store, h.trace.1,
        (fun e => nomatch hd.symm.trans e), fun _ => ⟨List.cons_ne_nil _ _, h.trace.2⟩⟩
    | .error .conflict => exact .throw (At.stable hS) fun _ _ _ => trivial
    | .error .notFound => exact .throw (At.stable hS) fun _ _ _ => trivial
    | .error .unavailable => exact .throw (At.stable hS) fun _ _ _ => trivial

theorem triple_decideOffer (hp : calls p = .decide inp) (hinfo : info.offerID = inp.offerID) :
    (terms calls law).Triple p
      (At p (Idle p) fun es => es.head? = some (.remote (.offersGet inp.offerID) (.ok info)))
      (decideOffer inp info) (fun _ _ => True) fun _ _ => True := by
  unfold decideOffer
  by_cases e : info.status ≠ .PENDING
  · rw [if_pos e]
    exact .throw (At.stable Idle.stable) fun _ _ _ => trivial
  · rw [if_neg e]
    exact .bind (triple_remote (U := fun _ es =>
      es.head? = some (.remote (.offersGet inp.offerID) (.ok info))) Idle.stable fun es a _ ht =>
      ⟨traceOf_decide hp _, head?_grows _ _ _ ht⟩) fun _ =>
        .bind (triple_buyers hp Idle.stable) fun ids => triple_recordOutcome hp hinfo _

/-- **what `Decide` does** -/
theorem triple_decide (hp : calls p = .decide inp) :
    (terms calls law).Triple p (At p (Idle p) (· = [])) (Admin.decide inp) (fun _ _ => True)
      fun _ _ => True := by
  refine .bind (triple_remote (r := .offersGet inp.offerID) (U := fun a es => (∀ info, a = .ok info →
    info.offerID = inp.offerID) ∧ es = [.remote (.offersGet inp.offerID) a]) Idle.stable
    fun es a hr ht => ⟨traceOf_decide hp _, fun info he => ?_, by rw [ht]; rfl⟩) fun a => ?_
  · obtain ⟨x, e, e', h⟩ := hr
    subst he
    exact out.get_id h
  · have hst : (terms calls law).Stable p (At p (Idle p) fun es => (∀ info, a = .ok info →
        info.offerID = inp.offerID) ∧ es = [.remote (.offersGet inp.offerID) a]) :=
      At.stable Idle.stable
    match a with
    | .error .conflict => exact .throw hst fun _ _ _ => trivial
    | .error .notFound => exact .throw hst fun _ _ _ => trivial
    | .error .unavailable => exact .throw hst fun _ _ _ => trivial
    | .ok info =>
      exact (Terms.Triple.fact (φ := info.offerID = inp.offerID) fun hinfo =>
        triple_decideOffer hp hinfo).pre fun σ h =>
          ⟨⟨h.store, by rw [h.trace.2]; rfl⟩, h.trace.1 info rfl⟩

/-! ## Revoke -/

theorem findAccess_eq (d : Db) (i : UUID) : d.findAccess i = (d.rowsOf i).head? :=
  (List.head?_filter ..).symm

/-- a revoke may be committed -/
theorem Good.revoke {i : UUID} {log : List (Commit P Db)} (hp : calls p = .revoke i)
    (h : Good calls d log tr) :
    Good calls (Write.apply (.revokeContactAccess i) d)
      (⟨p, d, Write.apply (.revokeContactAccess i) d⟩ :: log) tr := by
  refine ⟨⟨rfl, h.chained⟩, fun o => ?_, fun a => ?_, fun c hc => ?_, fun c hc inp hp' => ?_,
    h.traces, fun q ev hev d hd => (h.reads q ev hev d hd).mono fun c => List.mem_cons_of_mem _⟩
  · have hsame : Db.sameUnder (.decision o) d (Write.apply (.revokeContactAccess i) d) :=
      ⟨rfl, (grantsOf_revoke i o d).symm⟩
    exact (h.decided o).congr hsame
  · show ((updateWhere _ _ d.accesses).filter _).length ≤ 1
    rw [filter_updateWhere _ _ _ (by intro x _; rfl), updateWhere, List.length_map]
    exact h.one a
  · rcases List.mem_cons.mp hc with rfl | hc
    · show AccessStep (calls p) _ _
      rw [hp]
      exact .inr rfl
    · exact h.steps c hc
  · rcases List.mem_cons.mp hc with rfl | hc
    · cases hp.symm.trans hp'
    · exact h.commits c hc inp hp'

/-- `p` has committed the withdrawal of a grant that was in force -/
def Revoked (p : P) (i : UUID) (a : ContactAccess) (s : St P) : Prop :=
  ∃ c ∈ s.log, c.tx = p ∧ c.after = Write.apply (.revokeContactAccess i) c.before ∧
    ∃ row, c.before.rowsOf i = [row] ∧ row.status = .GRANTED ∧ a = row.revoked

theorem Revoked.stable {i : UUID} {a : ContactAccess} :
    (terms calls law).Stable p fun σ => Revoked p i a σ.store :=
  fun _ _ hr _ ⟨c, hc, h⟩ => ⟨c, hr.seen.mem_log hc, h⟩

/-- the transaction has withdrawn a grant that is in force -/
structure Revoking (p : P) (i : UUID) (a : ContactAccess) (s : St P) : Prop where
  pending : s.pending p = [.revokeContactAccess i]
  held : s.locks (.access i) = some p
  row : ∃ row, s.committed.rowsOf i = [row] ∧ row.status = .GRANTED ∧ a = row.revoked

theorem Revoking.stable {i : UUID} {a : ContactAccess} :
    (terms calls law).Stable p fun σ => Revoking p i a σ.store := by
  intro σ τ hr hi h
  have hrows : σ.store.committed.rowsOf i = τ.store.committed.rowsOf i := hr.seen.same _ h.held
  exact ⟨hr.seen.pending.trans h.pending, (hr.seen.locks _).mpr h.held, hrows ▸ h.row⟩

theorem triple_autocommit_revoke {i : UUID} (hp : calls p = .revoke i) {T : List Event → Prop} :
    (terms calls law).Triple p (At p (Idle p) T) (autocommit (.revokeContactAccess i))
      (fun r => At p (fun s => ∀ a, r = .ok a → Revoked p i a s) fun _ => True)
      fun _ _ => True := by
  refine .bind (.attempt (Φ := fun a => At p (Revoked p i a) fun _ => True)
    (Terms.Triple.inTx (G := fun _ _ => True) (M := fun a => At p (Revoking p i a) T)
      (At.stable Idle.stable) (At.stable Idle.stable) (fun _ => At.stable Revoked.stable)
      (fun _ => .const True) (fun σ n _ h => ⟨h.store, h.trace⟩)
      (triple_sql (q := .revokeContactAccess i) (B := fun a => Revoking p i a) trivial Idle.stable
        (fun _ => Revoking.stable) fun s x a t tr hw hg h hs => ?_)
      (fun _ _ _ _ => trivial) (fun a σ hi h => ⟨?_, ?_⟩) (fun _ _ => trivial)
      fun _ _ => trivial)) fun r => ?_
  · obtain ⟨row, hf, hst, ha, hput⟩ := revokeContactAccess_ok hs
    rw [view_of_pending h, findAccess_eq] at hf
    refine ⟨wellLocked_put hw hput fun l hl => .inl hl, ?_, put_takes hput List.mem_cons_self, row,
      ?_, hst, ha⟩
    · rw [put_pending hput, h]
      rfl
    · rw [(Quiet.put hput).committed]
      exact eq_singleton (hg.one i) (List.mem_of_head? hf)
  · have hv : σ.store.view p = Write.apply (.revokeContactAccess i) σ.store.committed := by
      rw [Store.view, h.store.pending]
      rfl
    rw [hv]
    exact ⟨hi.holds.1.revoke hp, hi.holds.2⟩
  · refine ⟨⟨_, List.mem_cons_self, rfl, ?_, h.store.row⟩, trivial⟩
    rw [Store.view, h.store.pending]
    rfl
  · cases r with
    | ok a =>
      refine .pure (At.stable Revoked.stable) fun σ _ h => ⟨fun b e => ?_, trivial⟩
      cases e
      exact h.store
    | error e =>
      refine .pure (.const True) fun σ _ h => ⟨fun _ e' => ?_, trivial⟩
      cases e'

theorem triple_revoke {i : UUID} (hp : calls p = .revoke i) {T : List Event → Prop} :
    (terms calls law).Triple p (At p (Idle p) T) (Admin.revoke i)
      (fun a => At p (Revoked p i a) fun _ => True) fun _ _ => True := by
  refine .bind (triple_autocommit_revoke hp) fun r => ?_
  have hst : (terms calls law).Stable p
      (At p (fun s => ∀ a, r = .ok a → Revoked p i a s) fun _ => True) :=
    At.stable (.all fun a => .all fun _ => Revoked.stable)
  cases r with
  | ok a => exact .pure hst fun σ _ h => ⟨h.store a rfl, trivial⟩
  | error e =>
    cases e with
    | noRows =>
      -- the row is read again only to choose the error
      refine .bind (triple_query (q := .getContactAccess i) (B := fun _ _ => True) trivial
        (.all fun a => .all fun _ => Revoked.stable) (fun _ => .const True)
        (fun s x a t tr hw hg h hs => ?_) fun _ _ _ => trivial) fun b => ?_
      · simp only [stmt] at hs
        split at hs
        · cases hs
          exact ⟨hw, trivial⟩
        · exact (failing_ok hs).elim
      · cases b with
        | ok existing => exact .throw (At.stable (.const True)) fun _ _ _ => trivial
        | error e =>
          cases e with
          | noRows => exact .throw (At.stable (.const True)) fun _ _ _ => trivial
          | uniqueViolation => exact .throw (At.stable (.const True)) fun _ _ _ => trivial
          | integrityViolation => exact .throw (At.stable (.const True)) fun _ _ _ => trivial
          | other => exact .throw (At.stable (.const True)) fun _ _ _ => trivial
    | uniqueViolation => exact .throw hst fun _ _ _ => trivial
    | integrityViolation => exact .throw hst fun _ _ _ => trivial
    | other => exact .throw hst fun _ _ _ => trivial

/-! ## the lookups -/

/-- a read of the grants leaves an event with the contents it was made on -/
theorem triple_reading {q : Stmt} {T : List Event → Prop} {B : Row q → List Event → Prop}
    (ev : Db → Time → Event) (hev : ∀ d now, (ev d now).readOf = some d)
    (hq : ∀ (x : Choice Y) (s : St P) e, note p q x s e = Ext.record (P := P) (E := E) e p
      (ev (s.view p) x.now))
    (hstmt : ∀ (x : Choice Y) (s : St P) a t, stmt p q x s = some (a, t) → t = s ∧ ∃ b, a = .ok b ∧
      ∀ es, T es → TraceOf (calls p) (es ++ [ev (s.view p) x.now]) ∧
        B b (es ++ [ev (s.view p) x.now])) :
    (terms calls law).Triple p (At p (Idle p) T) (query q)
      (fun a => At p (fun _ => True) fun es => ∀ b, a = .ok b → B b es) fun _ _ => True := by
  refine Terms.Triple.query (At.stable Idle.stable) (fun _ => At.stable (.const True)) ?_
    fun σ _ h => ⟨trivial, fun _ e => (nomatch e)⟩
  intro σ x a t hi h hs
  have hn : (spec out).note p q x σ.store σ.ext = σ.ext.record p (ev (σ.store.view p) x.now) :=
    hq x σ.store σ.ext
  rw [hn]
  obtain ⟨rfl, b, rfl, hb⟩ := hstmt x σ.store a t hs
  obtain ⟨htr, hB⟩ := hb _ h.trace
  refine ⟨hi.locked, ⟨hi.holds.1.record htr fun d hd => ?_, law.read p _ ?_ hi.holds.2⟩, trivial,
    fun c e => ?_⟩
  · rw [hev, view_of_pending h.store] at hd
    cases hd
    exact hi.holds.1.chained.cases
  · rw [hev]
    exact Option.some_ne_none _
  · cases e
    show B b (Ext.trace _ p)
    rw [record_self]
    exact hB

/-- seen so far: the grants, and the customers and phones asked for -/
def Looking (u r sl : UUID) (d : Db) (now : Time) (es : List Event) : Prop :=
  ∃ hops, Looked u r sl d now hops es

theorem Looking.hop {u r sl : UUID} {now : Time} {hops es : List Event} {ev : Event}
    (h : Looked u r sl d now hops es) (hh : HopsOf (d.listGranted sl r now) (hops ++ [ev])) :
    Looked u r sl d now (hops ++ [ev]) (es ++ [ev]) := by
  refine ⟨?_, hh⟩
  rw [h.1]
  rfl

theorem Looking.traceOf {u r sl : UUID} {now : Time} {es : List Event}
    (hp : calls p = .contactsForRequest u r) (h : Looking u r sl d now es) :
    TraceOf (calls p) es := by
  rw [hp]
  obtain ⟨hops, h⟩ := h
  exact .inr (.inr ⟨sl, d, now, hops, h⟩)

theorem triple_contactOf {u r sl : UUID} {now : Time} (hp : calls p = .contactsForRequest u r)
    {g : ContactAccess} (hg : g ∈ d.listGranted sl r now) :
    (terms calls law).Triple p (At p (fun _ => True) (Looking u r sl d now)) (contactOf g)
      (fun c σ => At p (fun _ => True) (Looking u r sl d now) σ ∧ c.customerID = g.customerID)
      fun _ _ => True := by
  refine .bind (triple_remote (r := .resolveCustomer g.customerID) (U := fun a es => ∃ hops,
    Looked u r sl d now hops es ∧ Event.remote (.resolveCustomer g.customerID) a ∈ hops)
    (.const True) fun es a _ ⟨hops, h⟩ => ?_) fun a => ?_
  · have hl := Looking.hop h (h.2.append_customer hg a)
    exact ⟨Looking.traceOf hp ⟨_, hl⟩, _, hl, by simp⟩
  · match a with
    | .error e => exact .throw (At.stable (.const True)) fun _ _ _ => trivial
    | .ok customer =>
      by_cases e : customer.userID = UUID.nil
      · simp only [if_pos e]
        exact .throw (At.stable (.const True)) fun _ _ _ => trivial
      · simp only [if_neg e]
        refine .bind (triple_remote (U := fun _ => Looking u r sl d now) (.const True)
          fun es a _ ⟨hops, h, hc⟩ => ?_) fun b => ?_
        · have hl := Looking.hop h (h.2.append_phone hg hc a)
          exact ⟨Looking.traceOf hp ⟨_, hl⟩, _, hl⟩
        · match b with
          | .error e => exact .throw (At.stable (.const True)) fun _ _ _ => trivial
          | .ok phone => exact .pure (At.stable (.const True)) fun σ _ h => ⟨h, rfl⟩

theorem triple_contactsOf {u r sl : UUID} {now : Time} (hp : calls p = .contactsForRequest u r)
    (grants : List ContactAccess) (hg : ∀ g ∈ grants, g ∈ d.listGranted sl r now) :
    (terms calls law).Triple p (At p (fun _ => True) (Looking u r sl d now)) (contactsOf grants)
      (fun cs σ => At p (fun _ => True) (Looking u r sl d now) σ ∧
        cs.map (·.customerID) = grants.map (·.customerID)) fun _ _ => True := by
  induction grants with
  | nil => exact .pure (At.stable (.const True)) fun σ _ h => ⟨h, rfl⟩
  | cons g grants ih =>
    refine .bind (triple_contactOf hp (hg g List.mem_cons_self)) fun c => .fact fun hc =>
      .bind (ih fun g' hg' => hg g' (List.mem_cons_of_mem _ hg')) fun cs => .fact fun hcs =>
        .pure (At.stable (.const True)) fun σ _ h => ⟨h, ?_⟩
    rw [List.map_cons, List.map_cons, hc, hcs]

/-- what a lookup that succeeds has done -/
def Answered (inv : Invocation) (ans : Answer) (p : P) (s : St P) (es : List Event) : Prop :=
  match inv, ans with
  | .decide _, .decided _ => True
  | .revoke i, .revoked a => Revoked p i a s
  | .contactsForRequest u r, .contacts cs => ∃ sl d now hops, Looked u r sl d now hops es ∧
      d.listGranted sl r now ≠ [] ∧
      cs.map (·.customerID) = (d.listGranted sl r now).map (·.customerID)
  | .hasContactAccess sl c r, .access b => ∃ d now, es = [.counted d now] ∧
      (r ≠ UUID.nil → (b = true ↔ ∃ g ∈ d.listGranted sl r now, g.customerID = c))
  | _, _ => False

theorem present_ok {a : Except ClientErr UUID} {u : UUID} (h : present a = .ok u) : a = .ok u := by
  cases a with
  | error e => cases h
  | ok v =>
    simp only [present] at h
    split at h
    · cases h
    · exact h

/-- **what `ContactsForRequest` does** -/
theorem triple_contactsForRequest {u r : UUID} (hp : calls p = .contactsForRequest u r) :
    (terms calls law).Triple p (At p (Idle p) (· = [])) (Admin.contactsForRequest u r)
      (fun cs σ => Answered (.contactsForRequest u r) (.contacts cs) p σ.store (σ.ext.trace p))
      fun _ _ => True := by
  refine .bind (triple_remote (U := fun a es => es = [.remote (.resolveSellerID u) a]) Idle.stable
    fun es a _ h => ?_) fun a => ?_
  · subst h
    refine ⟨?_, rfl⟩
    rw [hp]
    exact .inr (.inl ⟨a, rfl⟩)
  · cases ha : present a with
    | error e => exact .throw (At.stable Idle.stable) fun _ _ _ => trivial
    | ok sl =>
      obtain rfl := present_ok ha
      refine .bind (triple_reading .listed (B := fun grants es =>
        ∃ d now, grants = d.listGranted sl r now ∧ Looked u r sl d now [] es) (fun _ _ => rfl)
        (fun _ _ _ => rfl) fun x s a t hs => ?_) fun b => ?_
      · cases hs
        refine ⟨rfl, _, rfl, fun es he => ?_⟩
        subst he
        have hl : Looked u r sl (s.view p) x.now [] ([.remote (.resolveSellerID u) (.ok sl)] ++
          [.listed (s.view p) x.now]) := ⟨rfl, fun _ h => absurd h List.not_mem_nil⟩
        exact ⟨Looking.traceOf hp ⟨_, hl⟩, s.view p, x.now, rfl, hl⟩
      · match b with
        | .error e => exact .throw (At.stable (.const True)) fun _ _ _ => trivial
        | .ok [] => exact .throw (At.stable (.const True)) fun _ _ _ => trivial
        | .ok (g :: gs) =>
          intro σ h
          obtain ⟨d, now, hgs, hl⟩ := h.trace _ rfl
          refine (triple_contactsOf hp (g :: gs) fun x hx => hgs ▸ hx).weaken
            (A := At p (fun _ => True) (Looking u r sl d now)) (fun _ h => h) (fun cs τ _ ht => ?_)
            (fun _ _ _ _ => trivial) σ ⟨trivial, [], hl⟩
          obtain ⟨hops, hops'⟩ := ht.1.trace
          exact ⟨sl, d, now, hops, hops', hgs ▸ List.cons_ne_nil _ _, hgs ▸ ht.2⟩

/-- the two queries speak of the same grants -/
theorem countEffective_pos (d : Db) (sl c r : UUID) (now : Time) :
    0 < d.countEffective sl c (some r) now ↔ ∃ g ∈ d.listGranted sl r now, g.customerID = c := by
  rw [Db.countEffective, List.length_pos_iff_exists_mem]
  refine exists_congr fun g => ?_
  rw [Db.listGranted, List.mem_insertionSort, List.mem_filter, List.mem_filter]
  simp only [Bool.and_eq_true, beq_iff_eq]
  tauto

theorem triple_hasContactAccess {sl c r : UUID} (hp : calls p = .hasContactAccess sl c r) :
    (terms calls law).Triple p (At p (Idle p) (· = [])) (Admin.hasContactAccess sl c r)
      (fun b σ => Answered (.hasContactAccess sl c r) (.access b) p σ.store (σ.ext.trace p))
      fun _ _ => True := by
  refine .bind (triple_reading .counted (B := fun (n : Nat) es => ∃ d now,
    es = [.counted d now] ∧ n = d.countEffective sl c (optionalUUID r) now) (fun _ _ => rfl)
    (fun _ _ _ => rfl) fun x s a t hs => ?_) fun b => ?_
  · cases hs
    refine ⟨rfl, _, rfl, fun es he => ?_⟩
    subst he
    refine ⟨?_, s.view p, x.now, rfl, rfl⟩
    rw [hp]
    trivial
  · match b with
    | .error e => exact .throw (At.stable (.const True)) fun _ _ _ => trivial
    | .ok (n : Nat) =>
      refine .pure (At.stable (.const True)) fun σ _ h => ?_
      obtain ⟨d, now, hes, hn⟩ := h.trace n rfl
      refine ⟨d, now, hes, fun hr => ?_⟩
      rw [hn, optionalUUID, if_neg hr, decide_eq_true_eq]
      exact countEffective_pos d sl c r now

/-! ## every run -/

theorem triple_answering {α : Type} {f : α → Answer} {op : Op α} {inv : Invocation}
    (h : (terms calls law).Triple p (At p (Idle p) (· = [])) op
      (fun a σ => Answered inv (f a) p σ.store (σ.ext.trace p)) fun _ _ => True) :
    (terms calls law).Triple p (At p (Idle p) (· = [])) (answering f op)
      (fun a σ => Answered inv a p σ.store (σ.ext.trace p)) fun _ _ => True :=
  .bind_always h fun _ => .pure Terms.Stable.always fun _ hi ha => ha.now hi

theorem triple_op (p : P) :
    (terms calls law).Triple p (At p (Idle p) (· = [])) (calls p).op
      (fun a σ => Answered (calls p) a p σ.store (σ.ext.trace p)) fun _ _ => True := by
  cases hp : calls p with
  | decide inp => exact triple_answering (triple_decide hp)
  | revoke i =>
    exact triple_answering ((triple_revoke hp).weaken (fun _ h => h) (fun _ _ _ h => h.store)
      fun _ _ _ h => h)
  | contactsForRequest u r => exact triple_answering (triple_contactsForRequest hp)
  | hasContactAccess sl c r => exact triple_answering (triple_hasContactAccess hp)

theorem good_empty : Good calls Db.empty [] fun _ => [] where
  chained := rfl
  decided _ := .inl ⟨rfl, rfl⟩
  one _ := Nat.zero_le _
  steps := by simp
  commits := by simp
  traces p := by
    unfold TraceOf
    split
    · exact .inl rfl
    · trivial
  reads := by simp

theorem runs_inv {e₀ : E} {σ : Config P E} (h₀ : law.holds ⟨e₀, fun _ => []⟩)
    (h : Runs (spec out).machine (start calls Db.empty e₀) σ) :
    (terms calls law).Inv σ.state ∧ ∀ p a, σ.prog p = some (.ret (.ok a)) →
      Answered (calls p) a p σ.state.store (σ.state.ext.trace p) := by
  have hinv : (terms calls law).Inv (start calls Db.empty e₀).state :=
    ⟨fun _ _ hw => absurd hw List.not_mem_nil, good_empty, h₀⟩
  obtain ⟨hi, hp⟩ := (terms calls law).contract.runs
    (Q := fun p => Terms.ends (fun a σ => Answered (calls p) a p σ.store (σ.ext.trace p))
      fun _ _ => True) h hinv fun p m hm => by
      obtain rfl := Option.some.inj hm
      exact triple_op p _ ⟨rfl, rfl⟩
  exact ⟨hi, fun p a ha => hp p _ ha _ ((terms calls law).contract.rely_refl p _) hi⟩

/-- in every run the tables are good, the outside keeps its law, and every success is what the
call asked for -/
theorem runs_good (law : Law out) {e₀ : E} {σ : Config P E} (h₀ : law.holds ⟨e₀, fun _ => []⟩)
    (h : Runs (spec out).machine (start calls Db.empty e₀) σ) :
    Good calls σ.state.store.committed σ.state.store.log σ.state.ext.trace ∧
    law.holds σ.state.ext ∧
    ∀ p a, σ.prog p = some (.ret (.ok a)) →
      Answered (calls p) a p σ.state.store (σ.state.ext.trace p) := by
  obtain ⟨hi, hans⟩ := runs_inv h₀ h
  exact ⟨hi.holds.1, hi.holds.2, hans⟩

/-- no hop without a grant -/
theorem HopsOf.nil {hops : List Event} (h : HopsOf [] hops) : hops = [] := by
  refine List.eq_nil_iff_forall_not_mem.mpr fun ev hev => ?_
  rcases h ev hev with ⟨g, hg, -⟩ | ⟨g, hg, -⟩
  · exact absurd hg List.not_mem_nil
  · exact absurd hg List.not_mem_nil

theorem DecidedAt.length_le (h : DecidedAt calls tr o d) : (d.decisionsOf o).length ≤ 1 := by
  rcases h with ⟨hd, -⟩ | ⟨p, inp, -, h⟩
  · rw [hd]
    exact Nat.zero_le 1
  · obtain ⟨dec, hd, -⟩ := h.decision
    rw [hd]
    exact Nat.le_refl 1

theorem DecidedAt.granted_iff (h : DecidedAt calls tr o d) :
    d.accessesOf o ≠ [] ↔ ∃ dec ∈ d.decisionsOf o, dec.decision = .APPROVED := by
  have hnil : d.accessesOf o = [] ↔ d.grantsOf o = [] := by rw [Db.grantsOf, List.map_eq_nil_iff]
  rw [Ne, hnil]
  rcases h with ⟨hd, hg⟩ | ⟨p, inp, -, h⟩
  · simp [hd, hg]
  · obtain ⟨dec, hd, he⟩ := h.decision
    rw [hd]
    cases hc : inp.decision with
    | REJECTED => simp [h.rejected hc, he, hc]
    | APPROVED =>
      obtain ⟨info, ids, -, -, hne, -, hg⟩ := h.approved hc
      simp [hg, hne, he, hc]

/-- grants on an offer come from an approval -/
theorem DecidedAt.approved_by (h : DecidedAt calls tr o d) (hne : d.accessesOf o ≠ []) :
    ∃ p inp, calls p = .decide inp ∧ inp.decision = .APPROVED ∧ DecidedBy tr o d p inp := by
  obtain ⟨dec, hm, hap⟩ := h.granted_iff.mp hne
  rcases h with ⟨hd, -⟩ | ⟨p, inp, hp, h⟩
  · rw [hd] at hm
    exact absurd hm List.not_mem_nil
  · obtain ⟨dec', hd, he⟩ := h.decision
    rw [hd, List.mem_singleton] at hm
    exact ⟨p, inp, hp, by rw [← he, ← hm, hap], h⟩

theorem DecidedAt.grants_of (h : DecidedAt calls tr o d) (hne : d.accessesOf o ≠ []) :
    ∃ p inp info ids, calls p = .decide inp ∧ inp.offerID = o ∧ inp.decision = .APPROVED ∧
      Event.remote (.offersGet o) (.ok info) ∈ tr p ∧
      Event.remote (.participantCustomerIDs info.requestID) (.ok ids) ∈ tr p ∧ ids.Nodup ∧
      d.grantsOf o = ids.map (grantFor info) := by
  obtain ⟨p, inp, hp, ha, h⟩ := h.approved_by hne
  obtain ⟨info, ids, hget, hread, -, hnd, hg⟩ := h.approved ha
  exact ⟨p, inp, info, ids, hp, h.offer, ha, List.mem_of_head? hget, hread, hnd, hg⟩

/-- **Who is exposed to whom.**  In every run of any number of calls, with any answers from the
other services and any transaction failing at any step: an offer is decided at most once; there
are grants on an offer exactly if it was approved, one for each customer that this `Decide` read,
on the terms it read; a row changes only by a `Revoke`, from GRANTED to REVOKED; a contact lookup
asks only for customers of the grants it read and returns all of them; and the permission check
speaks of the same grants. -/
theorem exposure_sound (calls : P → Invocation) (out : Outside P E Y) (e₀ : E) {σ : Config P E}
    (h : Runs (spec out).machine (start calls Db.empty e₀) σ) :
    (∀ o, (σ.state.store.committed.decisionsOf o).length ≤ 1 ∧
      (σ.state.store.committed.accessesOf o ≠ [] ↔
        ∃ dec ∈ σ.state.store.committed.decisionsOf o, dec.decision = .APPROVED) ∧
      (σ.state.store.committed.accessesOf o ≠ [] → ∃ p inp info ids, calls p = .decide inp ∧
        inp.offerID = o ∧ inp.decision = .APPROVED ∧
        Event.remote (.offersGet o) (.ok info) ∈ σ.state.ext.trace p ∧
        Event.remote (.participantCustomerIDs info.requestID) (.ok ids) ∈ σ.state.ext.trace p ∧
        ids.Nodup ∧ σ.state.store.committed.grantsOf o = ids.map (grantFor info))) ∧
    Chained Db.empty σ.state.store.log σ.state.store.committed ∧
    (∀ c ∈ σ.state.store.log, AccessStep (calls c.tx) c.before c.after) ∧
    (∀ p u r, calls p = .contactsForRequest u r →
      (σ.state.ext.trace p = [] ∨
        (∃ a, σ.state.ext.trace p = [.remote (.resolveSellerID u) a]) ∨
        ∃ s d now hops, Looked u r s d now hops (σ.state.ext.trace p) ∧
          WasCommitted d σ.state.store.log ∧ (d.listGranted s r now = [] → hops = [])) ∧
      ∀ a, σ.prog p = some (.ret (.ok a)) → ∃ cs s d now hops, a = .contacts cs ∧
        Looked u r s d now hops (σ.state.ext.trace p) ∧
        cs.map (·.customerID) = (d.listGranted s r now).map (·.customerID)) ∧
    (∀ p s c r a, calls p = .hasContactAccess s c r → r ≠ UUID.nil →
      σ.prog p = some (.ret (.ok a)) → ∃ b d now, a = .access b ∧
        σ.state.ext.trace p = [.counted d now] ∧ WasCommitted d σ.state.store.log ∧
        (b = true ↔ ∃ g ∈ d.listGranted s r now, g.customerID = c)) := by
  obtain ⟨hg, -, hans⟩ := runs_good (.trivial out) trivial h
  refine ⟨fun o => ⟨(hg.decided o).length_le, (hg.decided o).granted_iff, (hg.decided o).grants_of⟩,
    hg.chained, hg.steps, fun p u r hp => ⟨?_, fun a ha => ?_⟩, fun p s c r a hp hr ha => ?_⟩
  · have ht := hg.traces p
    rw [hp] at ht
    rcases ht with ht | ht | ⟨s, d, now, hops, hl⟩
    · exact .inl ht
    · exact .inr (.inl ht)
    · refine .inr (.inr ⟨s, d, now, hops, hl, hg.reads p (.listed d now) ?_ d rfl, fun hn => ?_⟩)
      · rw [hl.1]
        simp
      · exact HopsOf.nil (hn ▸ hl.2)
  · have hd := hans p a ha
    rw [hp] at hd
    match a with
    | .contacts cs =>
      obtain ⟨s, d, now, hops, hl, -, hcs⟩ := hd
      exact ⟨cs, s, d, now, hops, rfl, hl, hcs⟩
  · have hd := hans p a ha
    rw [hp] at hd
    match a with
    | .access b =>
      obtain ⟨d, now, hes, hb⟩ := hd
      exact ⟨b, d, now, rfl, hes, hg.reads p (.counted d now) (by simp [hes]) d rfl, hb hr⟩

end

/-! ## an approval and a lookup -/

def offerOut (o : UUID) (status : OfferStatus) : OfferOut :=
  ⟨o, 5, 4, ⟨10, 250, "EUR", ""⟩, status, 0, 0, false⟩

/-- the offer of the seller 4 on the request 5, with the customers 1 and 2 behind it -/
def Outside.neighbours : Outside (Fin 3) Unit Unit where
  remote _ r _ _ :=
    match r with
    | .offersGet o => some (.ok (offerOut o .PENDING), ())
    | .sendStatus _ _ => some ((), ())
    | .awaitStatus o st => some (.ok (offerOut o st.status), ())
    | .participantCustomerIDs _ => some (.ok [1, 2], ())
    | .resolveSellerID _ => some (.ok 4, ())
    | .resolveUserID _ => some (.ok 14, ())
    | .resolveCustomer c => some (.ok ⟨c + 10, "", ""⟩, ())
    | .phone _ => some (.ok "", ())
  env _ _ := none
  get_id h := by
    cases h
    rfl

def approval : Fin 3 → Invocation
  | 0 => .decide ⟨50, 9, .APPROVED, ""⟩
  | 1 => .contactsForRequest 14 5
  | 2 => .hasContactAccess 4 2 5

/-- the approval, then the lookup, then the check; every row gets an id of its own -/
def approvalFirst : List (Act (Fin 3) (Choice Unit)) :=
  (List.range 12).map (fun n => .exec 0 ⟨.none, n, n, 1, ()⟩) ++
    (List.range 6).map (fun _ => .exec 1 ⟨.none, 0, 0, 1, ()⟩) ++ [.exec 2 ⟨.none, 0, 0, 1, ()⟩]

def answerOf {P E : Type} (σ : Config P E) (p : P) : Option Answer :=
  match σ.prog p with
  | some (.ret (.ok a)) => some a
  | _ => none

theorem answerOf_eq {P E : Type} {σ : Config P E} {p : P} {a : Answer}
    (h : answerOf σ p = some a) : σ.prog p = some (.ret (.ok a)) := by
  unfold answerOf at h
  split at h
  · rename_i b hb
    cases h
    exact hb
  · cases h

theorem exposure_sound_approval :
    ∃ σ, Runs (spec Outside.neighbours).machine (start approval Db.empty ()) σ ∧
      (σ.state.store.committed.accessesOf 50).length = 2 ∧
      (∃ dec ∈ σ.state.store.committed.decisionsOf 50, dec.decision = .APPROVED) ∧
      ∃ b d now, Answer.access true = .access b ∧ σ.state.ext.trace 2 = [.counted d now] ∧
        WasCommitted d σ.state.store.log ∧
        (b = true ↔ ∃ g ∈ d.listGranted 4 5 now, g.customerID = 2) := by
  obtain ⟨σ, hr, hσ⟩ := Runs.exists_of_run (M := (spec Outside.neighbours).machine)
    (σ := start approval Db.empty ()) approvalFirst
    (f := fun σ => ((σ.state.store.committed.accessesOf 50).length, answerOf σ 2))
    (b := (2, some (.access true))) (by decide)
  have hlen : (σ.state.store.committed.accessesOf 50).length = 2 := congrArg Prod.fst hσ
  have hne : σ.state.store.committed.accessesOf 50 ≠ [] := by
    intro e
    rw [e] at hlen
    cases hlen
  obtain ⟨h, -, -, -, hc⟩ := exposure_sound approval Outside.neighbours () hr
  exact ⟨σ, hr, hlen, (h 50).2.1.mp hne,
    hc 2 4 2 5 _ rfl (by decide) (answerOf_eq (congrArg Prod.snd hσ))⟩

end Marketplace.Admin
