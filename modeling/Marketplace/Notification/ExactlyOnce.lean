import Marketplace.Events.Delivery
import Marketplace.Notification.Session

/-!
# Every event takes effect once, or not at all

* `Holds`            a notification that is stored is one that was sent;
* `Applied`          the event is in processed_event, and the rows made for it are the notifications
                     of its message, once each;
* `Sound`            what holds of the tables, the commits and the outside: every event is applied or
                     has left no trace, and a message is acked only after its event was committed;
* `terms`            the contract of the consumers and the routes;
* `exactly_once`     **for every event either its processed_event row exists and its notifications
                     are stored once each, or neither; and only such messages are acked**.
-/

set_option linter.unusedSectionVars false

namespace Marketplace.Notifications

open Table Events ReadCommitted Interleave
open Service hiding begin commit remote

/-- what is told is what was sent, its texts stripped -/
structure Holds (n : Notification) (c : Content) : Prop where
  userID : c.userID = n.userID
  type : c.type = n.type
  channel : channelOf n = some c.channel
  title : c.title = strip n.title
  message : c.message = strip n.message

theorem accepts_holds {ns : List Notification} {cs : List NotificationCreate}
    (h : List.Forall₂ Accepts ns cs) :
    List.Forall₂ Holds ns (cs.map NotificationCreate.content) := by
  induction h with
  | nil => exact .nil
  | cons h _ ih => exact .cons ⟨h.userID, h.type, h.channel, h.title, h.message⟩ ih

/-! ## the contract -/

section
variable {N Q P : Type} [DecidableEq N] [DecidableEq Q] [DecidableEq P]

/-- the event is recorded, and its notifications are stored once each -/
def Applied (o : Outside N Q) (d : Db) (e : UUID) : Prop :=
  (∃ pe, d.processedOf e = [pe]) ∧ ∃ m ∈ o.queue, m.eventID = e ∧
    ∃ ns, m.notifications = .notifications ns ∧ List.Forall₂ Holds ns (d.contentsOf e)

structure Sound (replica : Q → N) (calls : Q → Relay.Invocation) (d : Db)
    (log : List (Commit P Db)) (o : Outside N Q) : Prop where
  runs : Runs (Relay.spec replica).machine (Relay.start calls) o.relays
  handled : ∀ e, d.processedOf e ≠ [] ↔ Handled e log
  exact : ∀ e, (d.processedOf e = [] ∧ d.contentsOf e = []) ∨ Applied o d e
  acked : ∀ m ∈ o.acked, Handled m.eventID log

variable {replica : Q → N} {calls : Q → Relay.Invocation}

theorem Applied.grows {o o' : Outside N Q} {d : Db} {e : UUID} (h : Applied o d e)
    (ho : ∀ m ∈ o.queue, m ∈ o'.queue) : Applied o' d e := by
  obtain ⟨hp, m, hm, hrest⟩ := h
  exact ⟨hp, m, ho m hm, hrest⟩

/-- a move outside -/
theorem Sound.outside {d : Db} {log : List (Commit P Db)} {o o' : Outside N Q}
    (h : Sound replica calls d log o)
    (hr : Runs (Relay.spec replica).machine (Relay.start calls) o'.relays)
    (ho : ∀ m ∈ o.queue, m ∈ o'.queue) (ha : ∀ m ∈ o'.acked, Handled m.eventID log) :
    Sound replica calls d log o' :=
  ⟨hr, h.handled, fun e => (h.exact e).imp_right fun h => h.grows ho, ha⟩

/-- what a transaction may do to an event: nothing, or apply it as a whole -/
def Keeps (o : Outside N Q) (d d' : Db) (e : UUID) : Prop :=
  (d'.processedOf e = d.processedOf e ∧ d'.contentsOf e = d.contentsOf e) ∨
  (d.processedOf e = [] ∧ (d.contentsOf e = [] → Applied o d' e))

theorem Sound.commit {d d' : Db} {log : List (Commit P Db)} {o : Outside N Q} (p : P)
    (h : Sound replica calls d log o) (hk : ∀ e, Keeps o d d' e) :
    Sound replica calls d' (⟨p, d, d'⟩ :: log) o := by
  refine ⟨h.runs, fun e => ⟨fun hd => ⟨_, List.mem_cons_self, hd⟩, ?_⟩, fun e => ?_,
    fun m hm => ?_⟩
  · rintro ⟨c, hc, hd⟩
    rcases List.mem_cons.mp hc with rfl | hc
    · exact hd
    · rcases hk e with ⟨hp, -⟩ | ⟨hp, -⟩
      · rw [hp]
        exact (h.handled e).mpr ⟨c, hc, hd⟩
      · exact absurd hp ((h.handled e).mpr ⟨c, hc, hd⟩)
  · rcases hk e with ⟨hp, hcont⟩ | ⟨hp, happ⟩
    · refine (h.exact e).imp (fun h => ⟨hp.trans h.1, hcont.trans h.2⟩) fun ha => ?_
      obtain ⟨⟨pe, hpe⟩, m, hm, he, ns, hns, hall⟩ := ha
      exact ⟨⟨pe, hp.trans hpe⟩, m, hm, he, ns, hns, hcont ▸ hall⟩
    · rcases h.exact e with ⟨-, hcont⟩ | ⟨⟨pe, hpe⟩, -⟩
      · exact .inr (happ hcont)
      · exact absurd (hp.symm.trans hpe) (List.cons_ne_nil _ _).symm
  · obtain ⟨c, hc, hd⟩ := h.acked m hm
    exact ⟨c, List.mem_cons_of_mem _ hc, hd⟩

theorem queue_remote {o o' : Outside N Q} {r : Remote} {x : Choice (Net Q)} {a : Reply r}
    (h : o.remote r x = some (a, o')) : o'.relays = o.relays ∧
      (o'.acked = o.acked ∨ ∃ m, r = .ack m ∧ o'.acked = m :: o.acked) := by
  cases r with
  | now =>
    cases h
    exact ⟨rfl, .inl rfl⟩
  | receive =>
    obtain ⟨m, -, e⟩ := Option.map_eq_some_iff.mp h
    cases e
    exact ⟨rfl, .inl rfl⟩
  | ack m =>
    simp only [Outside.remote] at h
    split at h
    · cases h
      exact ⟨rfl, .inl rfl⟩
    · cases h
      exact ⟨rfl, .inr ⟨m, rfl, rfl⟩⟩
  | reject m =>
    cases h
    exact ⟨rfl, .inl rfl⟩

theorem queue_relays {o o' : Outside N Q} (h : o'.relays = o.relays) :
    ∀ m ∈ o.queue, m ∈ o'.queue := by
  unfold Outside.queue
  rw [h]
  exact fun _ h => h

theorem queue_env {o : Outside N Q} {a : Act Q (Choice Network)} {c : Relay.Config N Q}
    (h : (Relay.spec replica).machine.step o.relays a = some c) :
    ∀ m ∈ o.queue, m ∈ ({ o with relays := c } : Outside N Q).queue :=
  Relay.queue_step (fun _ _ _ => true) h

def terms (replica : Q → N) (calls : Q → Relay.Invocation) : Terms (spec (P := P) replica) where
  I := Sound replica calls
  R _ o o' := ∀ m ∈ o.queue, m ∈ o'.queue
  refl _ _ _ h := h
  trans _ _ _ _ h h' m hm := h' m (h m hm)
  note _ _ h := h
  remote _ hr := queue_relays (queue_remote hr).1
  env_R hx := by
    obtain ⟨c, hc, rfl⟩ := Option.map_eq_some_iff.mp hx
    exact queue_env hc
  env_I hi hx := by
    obtain ⟨c, hc, rfl⟩ := Option.map_eq_some_iff.mp hx
    exact hi.outside (hi.runs.tail _ hc) (queue_env hc) hi.acked

/-! ## the calls -/

theorem sessions (replica : Q → N) (calls : Q → Relay.Invocation) :
    Sessions (terms (P := P) replica calls) where
  stmt h := h
  note := rfl
  now h := by
    cases h
    rfl
  handled {_ _ _ e} h hp := (h.handled e).mp hp

variable {p : P} {σ : State P Db Write Lock (Outside N Q)} {e : UUID} {ws : List Write}

/-- the message has been accepted by the queue -/
abbrev Queued (m : Message) (_ : List (Commit P Db)) (o : Outside N Q) : Prop := m ∈ o.queue

theorem queued_stable (m : Message) :
    (terms replica calls).Stable p fun σ => Queued m σ.store.log σ.ext :=
  fun _ _ hr _ h => hr.ext m h

theorem EventWrites.keeps {envelope : EventEnvelope} {m : Message} {t : Time} [Texts]
    (hv : EventEnvelope.validate (messageBody m t) = some envelope) (h : EventWrites envelope ws)
    (hw : At (Queued m) envelope.eventID p ws σ) (e : UUID) :
    Keeps σ.ext σ.store.committed (σ.store.view p) e := by
  obtain ⟨hid, ns, hns, hall⟩ := validate_body hv
  obtain ⟨⟨pe, hpe⟩, hcont⟩ := h.tables σ.store.committed e
  rw [Store.view, hw.1.pending]
  by_cases he : envelope.eventID = e
  · subst he
    obtain ⟨pe', hpe'⟩ := h.keyed
    obtain ⟨-, -, hnew⟩ := hw.1.ready _ hpe'
    rw [if_pos rfl] at hpe hcont
    refine .inr ⟨hnew, fun hc => ⟨⟨pe, ?_⟩, m, hw.2, hid.symm, ns, hns, ?_⟩⟩
    · rw [hpe, hnew, List.nil_append]
    · rw [hcont, hc, List.nil_append]
      exact accepts_holds hall
  · rw [if_neg he, List.append_nil] at hpe hcont
    exact .inl ⟨hpe, hcont⟩

theorem commits_event [Texts] {m : Message} {t : Time} {envelope : EventEnvelope}
    (hv : EventEnvelope.validate (messageBody m t) = some envelope) :
    Commits (terms replica calls) (Queued m) envelope.eventID p (EventWrites envelope) :=
  fun _ _ hi h hws => hi.holds.commit p fun e => hws.keeps hv h e

/-- a route leaves the events alone -/
theorem commits_route {payloads : List NotificationCreate} :
    Commits (terms replica calls) (fun _ _ => True) e p (RouteWrites payloads) := by
  intro σ ws hi h hws
  obtain ⟨first, now, drafts, -, rfl⟩ := hws
  refine hi.holds.commit p fun e' => .inl ?_
  rw [Store.view, h.1.pending]
  refine ⟨rfl, (contentsOf_insert _ _ e').trans ?_⟩
  rw [filter_newRows, if_neg (Option.some_ne_none e').symm, List.map_nil, List.append_nil]

/-- a status is no part of what a notification tells -/
theorem commits_read {i : UUID} :
    Commits (terms replica calls) (fun _ _ => True) e p (· = [.setStatus i .READ]) := by
  rintro σ ws hi h rfl
  refine hi.holds.commit p fun e' => .inl ?_
  rw [Store.view, h.1.pending]
  exact ⟨rfl, contentsOf_setStatus i .READ _ e'⟩

/-- only what has been committed is acked -/
theorem triple_ack {m : Message} (he : e = m.eventID) :
    Calls (terms replica calls) p (fun σ => Handled e σ.store.log) (remote (.ack m))
      fun _ _ => True := by
  subst he
  refine Terms.Triple.remote (r := Remote.ack m) handled_stable (fun _ => .const True)
    fun σ x a o hi h hx => ⟨?_, trivial⟩
  obtain ⟨hr, ha⟩ := queue_remote (o := σ.ext) (r := .ack m) (x := x) hx
  refine hi.holds.outside (hr ▸ hi.holds.runs) (queue_relays hr) fun m' hm' => ?_
  rcases ha with ha | ⟨_, e, ha⟩
  · exact hi.holds.acked m' (ha ▸ hm')
  · cases e
    rw [ha] at hm'
    rcases List.mem_cons.mp hm' with rfl | hm'
    · exact h
    · exact hi.holds.acked m' hm'

theorem triple_reject (m : Message) :
    Calls (terms replica calls) p (fun _ => True) (remote (.reject m)) fun _ _ => True := by
  refine Terms.Triple.remote (r := Remote.reject m) (.const True) (fun _ => .const True)
    fun σ x a o hi h hx => ?_
  cases hx
  exact ⟨hi.holds, trivial⟩

/-- nothing is promised to the reader of a notification -/
theorem triple_markRead (i u : UUID) :
    Calls (terms replica calls) p (At (fun _ _ => True) e p []) (markRead i u) fun _ _ => True := by
  have hs := sessions (P := P) replica calls
  have hF : Errors (terms replica calls) e p fun _ _ => True := errors_true
  have htrue : (terms replica calls).Stable p fun _ => True := .const True
  refine .bind (triple_begin hF htrue) fun _ => .bind (triple_getNotification hs hF
    (At.stable htrue) (K := fun _ _ => True) (fun _ => htrue) i fun _ _ _ => trivial) fun r =>
      .fact fun _ => ?_
  cases r with
  | none => exact .throw (At.stable htrue) fun _ _ _ => trivial
  | some r =>
    show Calls (terms replica calls) p _ (if _ then _ else _) _
    split
    · exact .throw (At.stable htrue) fun _ _ _ => trivial
    · split
      · refine .bind (triple_setRead hs hF htrue (fun _ _ => trivial) i) fun _ =>
          .bind (triple_commit hF htrue commits_read (B := fun _ => True) htrue
            (fun _ _ _ => trivial) rfl) fun _ => ?_
        exact (triple_refresh hs hF htrue (K := fun _ _ => True) (fun _ => htrue) i
          fun _ _ _ _ _ => trivial).weaken (fun _ h => h) (fun _ _ _ _ => trivial)
            fun _ _ _ h => h
      · exact .pure (At.stable htrue) fun _ _ _ => trivial

variable [Texts]

theorem triple_handle (eventFirst : Bool) :
    Calls (terms replica calls) p (fun σ => σ.store.pending p = []) (handle eventFirst)
      fun _ _ => True := by
  have hidle : (terms replica calls).Stable p
      fun σ : State P Db Write Lock (Outside N Q) => σ.store.pending p = [] :=
    Terms.Stable.pending (· = [])
  refine .bind (B := fun d σ => σ.store.pending p = [] ∧ Queued d.1 σ.store.log σ.ext)
    (Terms.Triple.remote (r := Remote.receive) hidle (fun d => hidle.and (queued_stable d.1))
    fun σ x a o hi h hx => ?_) fun d => ?_
  · obtain ⟨m, hm, e⟩ := Option.map_eq_some_iff.mp hx
    cases e
    exact ⟨hi.holds, h, List.mem_of_getElem? hm⟩
  · exact triple_consume (sessions replica calls) (queued_stable d.1) eventFirst
      (fun _ hv => commits_event hv) (fun _ hv => triple_ack (validate_body hv).1)
      (triple_reject d.1)

/-! ## runs -/

theorem triple_op (inv : Invocation) :
    Calls (terms replica calls) p (fun σ => σ.store.pending p = []) inv.op fun _ _ => True := by
  have hs := sessions (P := P) replica calls
  have hidle : ∀ σ : State P Db Write Lock (Outside N Q), σ.store.pending p = [] →
      At (fun _ _ => True) 0 p [] σ := fun σ h => ⟨Writing.idle h, trivial⟩
  have hroute : ∀ payloads, Calls (terms replica calls) p (fun σ => σ.store.pending p = [])
      (inSession (createBulk payloads)) fun _ _ => True := fun payloads =>
    (triple_session (triple_createBulk hs errors_true (.const True) commits_route)).pre hidle
  cases inv with
  | handle eventFirst =>
    exact .bind (triple_handle eventFirst) fun _ => .pure (.const True) fun _ _ h => h
  | create payload => exact hroute [payload]
  | createBulk payload => exact hroute payload.notifications
  | markRead i u =>
    refine (triple_session (.bind (triple_markRead (e := 0) i u) fun r => ?_)).pre hidle
    exact .pure (.const True) fun _ _ h => h

theorem sound_start : Sound (P := P) replica calls Db.empty [] ⟨Relay.start calls, []⟩ where
  runs := .refl
  handled e := by simp [Handled, Db.processedOf, Db.empty]
  exact e := .inl ⟨rfl, rfl⟩
  acked m hm := absurd hm List.not_mem_nil

theorem sound_runs {invs : P → Invocation} {τ : Config N Q P}
    (h : Runs (spec replica).machine (start calls invs) τ) :
    Sound replica calls τ.state.store.committed τ.state.store.log τ.state.ext := by
  refine ((terms replica calls).contract.runs (Q := fun _ => Terms.ends (fun _ _ => True)
    fun _ _ => True) h ⟨fun p w hw => absurd hw List.not_mem_nil, sound_start⟩ fun p m hm => ?_).1.holds
  cases hm
  exact triple_op (invs p) _ rfl

/-- **exactly once or not at all**: in every run of any number of producers, Go and Python relays,
consumers and routes, for every event id either its processed_event row exists, the event has one
outbox row, and the rows stored for it are the notifications of that row's payload, once each and in
order; or there is no such row and none of them is stored.  A message is acked only when its event id
is in processed_event. -/
theorem exactly_once {invs : P → Invocation} {τ : Config N Q P}
    (h : Runs (spec replica).machine (start calls invs) τ) :
    (∀ e, (τ.state.store.committed.processedOf e = [] ∧ τ.state.store.committed.storedOf e = []) ∨
      ∃ pe x ns, τ.state.store.committed.processedOf e = [pe] ∧
        τ.state.ext.relays.state.store.committed.withEvent e = [x] ∧
        x.row.payload = .notifications ns ∧
        List.Forall₂ Holds ns (τ.state.store.committed.contentsOf e)) ∧
    ∀ m ∈ τ.state.ext.acked, τ.state.store.committed.processedOf m.eventID ≠ [] := by
  have hs := sound_runs h
  refine ⟨fun e => ?_, fun m hm => (hs.handled m.eventID).mpr (hs.acked m hm)⟩
  refine (hs.exact e).imp (fun h => ⟨h.1, List.map_eq_nil_iff.mp h.2⟩) fun ha => ?_
  obtain ⟨⟨pe, hpe⟩, m, hm, rfl, ns, hns, hall⟩ := ha
  obtain ⟨x, hx, hpay⟩ := (Relay.kept_runs (fun _ _ _ => true) hs.runs).outbox hm
  exact ⟨pe, x, ns, hpe, hx, hpay.trans hns, hall⟩

end

/-! ### one event, delivered twice -/

section

/-- uuids and dates in a simple notation -/
@[reducible]
def plainTexts : Texts where
  uuid u := String.ofList (List.replicate u 'a')
  parseUUID s := some s.length
  parse_uuid u := by rw [← String.length_toList, String.toList_ofList, List.length_replicate]
  isoformat _ := "2026-01-01T00:00:00Z"
  isDatetime _ := true
  datetime_isoformat _ := rfl

attribute [local instance] plainTexts

def greeting : NotificationCreate where
  userID := 1
  type := ⟨"REQUEST_JOINED", by decide, by decide⟩
  channel := .IN_APP
  title := ⟨"Welcome", by decide, by decide, by decide⟩
  message := ⟨"You joined", by decide, by decide, by decide⟩

def twoConsumers : Bool → Invocation
  | false => .handle false
  | true => .handle true

def net (a : Act Bool (Choice Network)) : Net Bool := ⟨0, false, a⟩

/-- a move of the relays or of the broker -/
def outside (a : Act Bool (Choice Network)) : Act Bool (Choice (Net Bool)) :=
  .env ⟨.none, 0, 0, 0, net a⟩

def consuming (p : Bool) : Act Bool (Choice (Net Bool)) :=
  .exec p ⟨.none, 70, 0, 5, net (.crash true)⟩

def deliveredTwice : List (Act Bool (Choice (Net Bool))) :=
  (Relay.frameWritten ++ [Relay.network (.receive 0)] ++ List.replicate 2 (Relay.go true)).map
    outside ++ List.replicate 9 (consuming false) ++ List.replicate 7 (consuming true)

theorem exactly_once_twice :
    ∃ τ : Config Unit Bool Bool,
      Runs (spec fun _ => ()).machine (start Relay.joinAndDrain twoConsumers) τ ∧
      τ.state.ext.acked.length = 2 ∧
      ∃ pe x ns, τ.state.store.committed.processedOf 8 = [pe] ∧
        τ.state.ext.relays.state.store.committed.withEvent 8 = [x] ∧
        x.row.payload = .notifications ns ∧
        List.Forall₂ Holds ns (τ.state.store.committed.contentsOf 8) := by
  obtain ⟨τ, hr, hτ⟩ := Runs.exists_of_run (M := (spec fun _ : Bool => ()).machine)
    (σ := start Relay.joinAndDrain twoConsumers) deliveredTwice
    (f := fun τ => (τ.state.ext.acked.length, τ.state.store.committed.processed.map (·.eventID)))
    (b := (2, [8])) (by decide +kernel)
  obtain ⟨ha, hp⟩ := Prod.mk.inj hτ
  obtain ⟨pe, hpe, he⟩ := List.mem_map.mp (hp ▸ List.mem_singleton_self 8)
  have hne : τ.state.store.committed.processedOf 8 ≠ [] :=
    List.ne_nil_of_mem (List.mem_filter.mpr ⟨hpe, beq_iff_eq.mpr he⟩)
  exact ⟨τ, hr, ha, ((exactly_once hr).1 8).resolve_left fun h => hne h.1⟩

end

end Marketplace.Notifications
