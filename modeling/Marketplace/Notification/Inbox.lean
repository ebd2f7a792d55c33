import Marketplace.Lib.Faultless
import Marketplace.Notification.Session

/-!
# The inbox of notification-service

Any number of calls of the service at work on its database, with any bodies and envelopes, and with
faults and crashes.

* `Task`             the calls of the routes and of the consumer;
* `Step`             what the commit of a call does to the tables: it adds new rows, or marks a row of
                     its own user (`Step.cases`);
* `Tables`           what holds of the tables: the constraints, and every event is there as a whole or
                     not at all;
* `RowsKept`         what happens to a row: only one that is SENT changes;
* `inbox`            the contract;  `inbox_runs`  it holds in every run.
-/

set_option linter.unusedSectionVars false

namespace Marketplace.Notifications

open Table Events ReadCommitted Interleave
open Service hiding begin commit remote

/-! ## rows -/

/-- what the schema promises of a notification, its keys apart -/
structure Draft.Valid (n : Draft) : Prop where
  checks : n.checks = true
  fits : n.fits = true

theorem Built.valid {c : NotificationCreate} {n : Draft} (h : Built c n) : n.Valid :=
  ⟨h.checks, h.fits⟩

theorem built_valid {cs : List NotificationCreate} {ns : List Draft} {n : Draft}
    (h : List.Forall₂ Built cs ns) (hn : n ∈ ns) : n.Valid :=
  ⟨List.all_eq_true.mp (built_checks h) n hn, List.all_eq_true.mp (built_fits h) n hn⟩

/-- an undelivered notification stays so, and one that has been read -/
structure RowKept (r r' : NotificationRow) : Prop where
  userID : r'.draft.userID = r.draft.userID
  sentAt : r'.draft.sentAt = r.draft.sentAt
  final : r.draft.status ≠ .SENT → r' = r

def RowsKept (d d' : Db) : Prop :=
  ∀ i r, d.find i = some r → ∃ r', d'.find i = some r' ∧ RowKept r r'

theorem RowKept.refl (r : NotificationRow) : RowKept r r := ⟨rfl, rfl, fun _ => rfl⟩

theorem RowsKept.refl (d : Db) : RowsKept d d := fun _ r h => ⟨r, h, .refl r⟩

theorem RowsKept.trans (a b c : Db) (h : RowsKept a b) (h' : RowsKept b c) : RowsKept a c := by
  intro i r hr
  obtain ⟨r', hr', hk⟩ := h i r hr
  obtain ⟨r'', hr'', hk'⟩ := h' i r' hr'
  refine ⟨r'', hr'', hk'.userID.trans hk.userID, hk'.sentAt.trans hk.sentAt, fun hs => ?_⟩
  have he := hk.final hs
  rw [he] at hk'
  exact hk'.final hs

theorem find_insert {d d' : Db} {rows : List NotificationRow}
    (h : d'.notifications = d.notifications ++ rows) {i : UUID} {r : NotificationRow}
    (hr : d.find i = some r) : d'.find i = some r := by
  show d'.notifications.find? _ = _
  rw [h, List.find?_append]
  show (d.find i).or _ = _
  rw [hr]
  rfl

theorem find_setStatus (j : UUID) (st : NotificationStatus) (d : Db) (i : UUID) :
    ((Write.setStatus j st).apply d).find i =
      (d.find i).map fun r => if i = j then r.withStatus st else r := by
  rw [find_eq, find_eq, rowsOf_setStatus, updateWhere, List.head?_map]
  cases h : (d.rowsOf i).head? with
  | none => rfl
  | some r =>
    have hid : r.notificationID = i := find_id (find_eq d i ▸ h)
    simp only [Option.map_some, hid, beq_iff_eq]

/-- a row that has been sent is SENT or READ -/
theorem Draft.Valid.sent_iff {n : Draft} (h : n.Valid) :
    n.sentAt ≠ none ↔ n.status = .SENT ∨ n.status = .READ := by
  have hc := h.checks
  simp only [Draft.checks, Bool.and_eq_true, beq_iff_eq] at hc
  rw [← Option.isSome_iff_ne_none, ← hc.2, Bool.or_eq_true, beq_iff_eq, beq_iff_eq]

theorem NotificationRow.withStatus_valid {r : NotificationRow} (h : r.draft.Valid)
    (hs : r.draft.sentAt ≠ none) : (r.withStatus .READ).draft.Valid := by
  refine ⟨?_, h.fits⟩
  have hc := h.checks
  have hsome : r.draft.sentAt.isSome = true := Option.isSome_iff_ne_none.mpr hs
  simp only [Draft.checks, Bool.and_eq_true, beq_iff_eq] at hc
  have hread : (NotificationStatus.READ == .SENT || NotificationStatus.READ == .READ) = true := rfl
  simp only [Draft.checks, NotificationRow.withStatus, Bool.and_eq_true, hread, hsome]
  exact ⟨hc.1, rfl⟩

theorem NotificationRow.withStatus_self {r : NotificationRow} {st : NotificationStatus}
    (h : r.draft.status = st) : r.withStatus st = r := by
  subst h
  rfl

theorem find_mem {d : Db} {i : UUID} {r : NotificationRow} (h : d.find i = some r) : r ∈ d.notifications :=
  List.mem_of_find?_eq_some h

theorem nodup_filter_id {rows : List NotificationRow} (h : (rows.map (·.notificationID)).Nodup)
    (i : UUID) : (rows.filter (·.notificationID == i)).length ≤ 1 := by
  have hcount := List.nodup_iff_count_le_one.mp h i
  rw [List.count, List.countP_map, List.countP_eq_length_filter] at hcount
  exact hcount

/-- what a statement marks READ, sent or read before -/
def Marks (i u : UUID) (d d' : Db) : Prop :=
  ∃ r, d.find i = some r ∧ r.draft.userID = u ∧ r.draft.sentAt ≠ none ∧
    d' = (Write.setStatus i .READ).apply d

/-! ## the calls -/

inductive Task where
  | create (payload : NotificationCreate)
  | createBulk (payload : Bulk)
  | recordEvent (eventFirst : Bool) (envelope : EventEnvelope)
  /-- `_handle`: the broker has handed out the message `m` with this body -/
  | consume (eventFirst : Bool) (m : Message) (body : Json)
  | markRead (notificationID userID : UUID)

section
variable [Texts]

def Task.op : Task → Op (List NotificationRow)
  | .create payload => inSession (Notifications.createBulk [payload])
  | .createBulk payload => inSession (Notifications.createBulk payload.notifications)
  | .recordEvent eventFirst envelope => inSession (Notifications.recordEvent eventFirst envelope)
  | .consume eventFirst m body => do
    Notifications.consume eventFirst m body
    return []
  | .markRead i u => inSession do
    let r ← Notifications.markRead i u
    return [r]

/-- the event that a call records -/
def Task.envelope : Task → Option EventEnvelope
  | .recordEvent _ envelope => some envelope
  | .consume _ _ body => EventEnvelope.validate body
  | _ => none

/-- what a call writes -/
def Task.Writes : Task → List Write → Prop
  | .create payload, ws => RouteWrites [payload] ws
  | .createBulk payload, ws => RouteWrites payload.notifications ws
  | .markRead i _, ws => ws = [.setStatus i .READ]
  | task, ws => ∃ envelope, task.envelope = some envelope ∧ EventWrites envelope ws

/-! ## the tables -/

/-- what a statement has found when its write was made -/
def Write.Allowed (task : Task) (d : Db) : Write → Prop
  | .insertNotifications rows => ∀ r ∈ rows, d.rowsOf r.notificationID = []
  | .insertProcessed pe => d.processedOf pe.eventID = []
  | .setStatus i _ => ∃ r, d.find i = some r ∧ r.draft.sentAt ≠ none ∧
      task = .markRead i r.draft.userID

/-- what the commit of a call does -/
def Step (task : Task) (d d' : Db) : Prop :=
  ∃ ws, task.Writes ws ∧ d' = applyAll ws d ∧ ∀ w ∈ ws, w.Allowed task d

/-- a commit adds new rows, or marks one -/
theorem Step.cases {task : Task} {d d' : Db} (h : Step task d d') :
    (∃ rows, d'.notifications = d.notifications ++ rows ∧ (rows.map (·.notificationID)).Nodup ∧
      ∀ r ∈ rows, d.rowsOf r.notificationID = [] ∧ r.draft.Valid) ∧ (∀ i u, task ≠ .markRead i u) ∨
    ∃ i u, task = .markRead i u ∧ Marks i u d d' := by
  obtain ⟨ws, hws, rfl, hall⟩ := h
  have hroute : ∀ {payloads}, RouteWrites payloads ws → ∃ rows,
      (applyAll ws d).notifications = d.notifications ++ rows ∧
        (rows.map (·.notificationID)).Nodup ∧
          ∀ r ∈ rows, d.rowsOf r.notificationID = [] ∧ r.draft.Valid := by
    rintro payloads ⟨first, now, drafts, hb, rfl⟩
    exact ⟨_, rfl, newRows_ids first now none drafts, fun r hr =>
      ⟨hall _ (List.mem_singleton_self _) r hr, built_valid hb (newRows_draft hr)⟩⟩
  have hevent : (∃ envelope, task.envelope = some envelope ∧ EventWrites envelope ws) → ∃ rows,
      (applyAll ws d).notifications = d.notifications ++ rows ∧
        (rows.map (·.notificationID)).Nodup ∧
          ∀ r ∈ rows, d.rowsOf r.notificationID = [] ∧ r.draft.Valid := by
    rintro ⟨envelope, -, drafts, first, now, at', hb, hws⟩
    refine ⟨newRows first now (some envelope.eventID) drafts, ?_, newRows_ids _ _ _ _, fun r hr =>
      ⟨hall (.insertNotifications _) ?_ r hr, built_valid hb (newRows_draft hr)⟩⟩
    · rcases hws with rfl | rfl <;> rfl
    · rcases hws with rfl | rfl
      · exact List.mem_cons_of_mem _ (List.mem_singleton_self _)
      · exact List.mem_cons_self
  cases task with
  | create payload => exact .inl ⟨hroute hws, nofun⟩
  | createBulk payload => exact .inl ⟨hroute hws, nofun⟩
  | recordEvent eventFirst envelope => exact .inl ⟨hevent hws, nofun⟩
  | consume eventFirst m body => exact .inl ⟨hevent hws, nofun⟩
  | markRead i u =>
    obtain rfl : ws = [.setStatus i .READ] := hws
    obtain ⟨r, hr, hs, e⟩ := hall _ (List.mem_singleton_self _)
    cases e
    exact .inr ⟨i, _, rfl, r, hr, rfl, hs, rfl⟩

/-- what it does to the events -/
theorem Step.events {task : Task} {d d' : Db} (h : Step task d d') :
    d'.processed = d.processed ∧ (∀ e, d'.contentsOf e = d.contentsOf e) ∨
    ∃ envelope pe, task.envelope = some envelope ∧ d.processedOf envelope.eventID = [] ∧
      d'.processed = d.processed ++ [pe] ∧ pe.eventID = envelope.eventID ∧
      pe.source = envelope.source.val ∧ ∀ e, d'.contentsOf e = d.contentsOf e ++
        if envelope.eventID = e then
          envelope.bulk.notifications.map NotificationCreate.content else [] := by
  obtain ⟨ws, hws, rfl, hall⟩ := h
  have hroute : ∀ {payloads}, RouteWrites payloads ws → (applyAll ws d).processed = d.processed ∧
      ∀ e, (applyAll ws d).contentsOf e = d.contentsOf e := by
    rintro payloads ⟨first, now, drafts, -, rfl⟩
    refine ⟨rfl, fun e => (contentsOf_insert _ _ e).trans ?_⟩
    rw [filter_newRows, if_neg (Option.some_ne_none e).symm, List.map_nil, List.append_nil]
  have hevent : (∃ envelope, task.envelope = some envelope ∧ EventWrites envelope ws) →
      ∃ envelope pe, task.envelope = some envelope ∧ d.processedOf envelope.eventID = [] ∧
        (applyAll ws d).processed = d.processed ++ [pe] ∧ pe.eventID = envelope.eventID ∧
        pe.source = envelope.source.val ∧ ∀ e, (applyAll ws d).contentsOf e = d.contentsOf e ++
          if envelope.eventID = e then
            envelope.bulk.notifications.map NotificationCreate.content else [] := by
    rintro ⟨envelope, he, hws⟩
    have htables := fun e => (hws.tables d e).2
    obtain ⟨drafts, first, now, at', -, rfl | rfl⟩ := hws
    · exact ⟨envelope, _, he, hall _ List.mem_cons_self, rfl, rfl, rfl, htables⟩
    · exact ⟨envelope, _, he, hall _ (List.mem_cons_of_mem _ (List.mem_singleton_self _)), rfl, rfl,
        rfl, htables⟩
  cases task with
  | create payload => exact .inl (hroute hws)
  | createBulk payload => exact .inl (hroute hws)
  | recordEvent eventFirst envelope => exact .inr (hevent hws)
  | consume eventFirst m body => exact .inr (hevent hws)
  | markRead i u =>
    obtain rfl : ws = [.setStatus i .READ] := hws
    exact .inl ⟨rfl, contentsOf_setStatus i .READ d⟩

/-! ### what holds of the tables -/

/-- the event has been recorded with the notifications of one of its envelopes -/
def Recorded {P : Type} (tasks : P → Task) (d : Db) (e : UUID) : Prop :=
  d.processedOf e ≠ [] ∧ ∃ p envelope, (tasks p).envelope = some envelope ∧ envelope.eventID = e ∧
    d.contentsOf e = envelope.bulk.notifications.map NotificationCreate.content

structure Tables {P : Type} (tasks : P → Task) (d : Db) : Prop where
  ids : ∀ i, (d.rowsOf i).length ≤ 1
  keys : ∀ e, (d.processedOf e).length ≤ 1
  valid : ∀ r ∈ d.notifications, r.draft.Valid
  sources : ∀ pe ∈ d.processed, pe.source.length ≤ 64
  whole : ∀ e, (d.processedOf e = [] ∧ d.contentsOf e = []) ∨ Recorded tasks d e

variable {P : Type} {tasks : P → Task} {d d' : Db}

theorem find_row (ht : Tables tasks d) {r : NotificationRow} (hr : r ∈ d.notifications) :
    d.find r.notificationID = some r := by
  rw [find_eq, eq_singleton (ht.ids _) (List.mem_filter.mpr ⟨hr, beq_self_eq_true _⟩)]
  rfl

/-- only a row that is SENT changes -/
theorem Marks.kept {i u : UUID} (ht : Tables tasks d) (h : Marks i u d d') : RowsKept d d' := by
  obtain ⟨r, hr, rfl, hs, rfl⟩ := h
  intro j s hsj
  refine ⟨_, by rw [find_setStatus, hsj]; rfl, ?_⟩
  split
  · rename_i e
    subst e
    obtain rfl : r = s := Option.some.inj (hr.symm.trans hsj)
    refine ⟨rfl, rfl, fun hne => NotificationRow.withStatus_self ?_⟩
    exact (((ht.valid r (find_mem hr)).sent_iff.mp hs).resolve_left hne)
  · exact .refl s

theorem Step.kept {task : Task} (ht : Tables tasks d) (h : Step task d d') : RowsKept d d' := by
  rcases h.cases with ⟨⟨rows, hn, -, -⟩, -⟩ | ⟨i, u, -, hm⟩
  · exact fun i r hr => ⟨r, find_insert hn hr, .refl r⟩
  · exact hm.kept ht

/-- new rows have new ids, and a marked one was sent -/
theorem Step.rows {task : Task} (ht : Tables tasks d) (h : Step task d d') :
    (∀ i, (d'.rowsOf i).length ≤ 1) ∧ ∀ r ∈ d'.notifications, r.draft.Valid := by
  rcases h.cases with ⟨⟨rows, hn, hnodup, hnew⟩, -⟩ | ⟨i, u, -, r, hr, -, hs, rfl⟩
  · refine ⟨fun i => ?_, fun r hr => ?_⟩
    · have happ : d'.rowsOf i = d.rowsOf i ++ rows.filter (·.notificationID == i) := by
        unfold Db.rowsOf
        rw [hn, List.filter_append]
      by_cases he : ∃ r ∈ rows, r.notificationID = i
      · obtain ⟨r, hr, rfl⟩ := he
        rw [happ, (hnew r hr).1, List.nil_append]
        exact nodup_filter_id hnodup _
      · have hnil : rows.filter (·.notificationID == i) = [] :=
          List.filter_eq_nil_iff.mpr fun r hr e => he ⟨r, hr, beq_iff_eq.mp e⟩
        rw [happ, hnil, List.append_nil]
        exact ht.ids i
    · rw [hn] at hr
      rcases List.mem_append.mp hr with hr | hr
      · exact ht.valid r hr
      · exact (hnew r hr).2
  · refine ⟨fun j => ?_, fun s hs' => ?_⟩
    · rw [rowsOf_setStatus, updateWhere, List.length_map]
      exact ht.ids j
    · obtain ⟨x, hx, rfl⟩ := mem_updateWhere.mp hs'
      split
      · rename_i e
        have hxi : x.notificationID = i := beq_iff_eq.mp e
        have hx' := find_row ht hx
        rw [hxi, hr] at hx'
        cases hx'
        exact NotificationRow.withStatus_valid (ht.valid _ hx) hs
      · exact ht.valid x hx

/-- **a commit keeps the tables in order** -/
theorem Step.tables {p : P} (ht : Tables tasks d) (h : Step (tasks p) d d') : Tables tasks d' := by
  obtain ⟨hids, hvalid⟩ := h.rows ht
  have hwhole : ∀ e, d'.processedOf e = d.processedOf e → d'.contentsOf e = d.contentsOf e →
      (d'.processedOf e = [] ∧ d'.contentsOf e = []) ∨ Recorded tasks d' e := by
    intro e hp hc
    unfold Recorded
    rw [hp, hc]
    exact ht.whole e
  rcases h.events with ⟨hp, hc⟩ | ⟨envelope, pe, he, hnone, hp, hpe, hsrc, hc⟩
  · have hof : ∀ e, d'.processedOf e = d.processedOf e := fun e => by rw [Db.processedOf, hp]; rfl
    exact ⟨hids, fun e => by rw [hof]; exact ht.keys e, hvalid, by rw [hp]; exact ht.sources,
      fun e => hwhole e (hof e) (hc e)⟩
  · have hof : ∀ e, d'.processedOf e = d.processedOf e ++ if pe.eventID = e then [pe] else [] :=
      fun e => by
        rw [← processedOf_insert, Db.processedOf, hp]
        rfl
    refine ⟨hids, fun e => ?_, hvalid, fun pe' hpe' => ?_, fun e => ?_⟩
    · rw [hof]
      split
      · rename_i e'
        rw [← e', hpe, hnone]
        exact Nat.le_refl 1
      · rw [List.append_nil]
        exact ht.keys e
    · rw [hp] at hpe'
      rcases List.mem_append.mp hpe' with hpe' | hpe'
      · exact ht.sources pe' hpe'
      · rw [List.mem_singleton.mp hpe', hsrc]
        exact envelope.source.short
    · by_cases e' : envelope.eventID = e
      · subst e'
        have hcn : d.contentsOf envelope.eventID = [] :=
          ((ht.whole _).resolve_right fun h => h.1 hnone).2
        refine .inr ⟨?_, p, envelope, he, rfl, ?_⟩
        · rw [hof, if_pos hpe]
          exact List.append_ne_nil_of_right_ne_nil _ (List.cons_ne_nil _ _)
        · rw [hc, if_pos rfl, hcn, List.nil_append]
      · refine hwhole e ?_ ?_
        · rw [hof, if_neg (hpe ▸ e'), List.append_nil]
        · rw [hc, if_neg e', List.append_nil]

/-! ## the contract -/

variable [DecidableEq P]

/-- what a call is answered from outside; it is noted who has acked.  These calls have their message in
hand, and an ack may be lost. -/
def answer (p : P) : (r : Remote) → Choice Bool → List P → Option (Reply r × List P)
  | .now, x, acked => some (x.now, acked)
  | .receive, _, _ => none
  | .ack _, x, acked => some ((), if x.ext then acked else p :: acked)
  | .reject _, _, acked => some ((), acked)

def inboxSpec : Spec P Db Write Lock (List P) Bool Row Reply where
  stmt := stmt
  note _ _ _ _ acked := acked
  remote p r x acked := answer p r x acked
  env _ _ := none
  quiet := stmt_quiet

/-- the tables have come from the commits of the calls, and who has acked has an event that has been
committed -/
structure Kept (tasks : P → Task) (d : Db) (log : List (Commit P Db)) (acked : List P) : Prop where
  chained : Chained Db.empty log d
  steps : ∀ c ∈ log, Step (tasks c.tx) c.before c.after
  acked : ∀ p ∈ acked, ∀ envelope, (tasks p).envelope = some envelope → Handled envelope.eventID log

variable {log : List (Commit P Db)} {acked : List P}

theorem tables_empty : Tables tasks Db.empty where
  ids _ := Nat.zero_le 1
  keys _ := Nat.zero_le 1
  valid _ h := absurd h List.not_mem_nil
  sources _ h := absurd h List.not_mem_nil
  whole _ := .inl ⟨rfl, rfl⟩

theorem Kept.tables (h : Kept tasks d log acked) :
    Tables tasks d ∧ ∀ c ∈ log, Tables tasks c.before ∧ Tables tasks c.after :=
  h.chained.invariant tables_empty fun c hc ht => (h.steps c hc).tables ht

theorem Kept.rows (h : Kept tasks d log acked) : ∀ c ∈ log, RowsKept c.before c.after :=
  fun c hc => (h.steps c hc).kept (h.tables.2 c hc).1

/-- a row that was there after a commit still is -/
theorem Kept.since (h : Kept tasks d log acked) {c : Commit P Db} (hc : c ∈ log) :
    RowsKept c.after d := h.chained.since RowsKept.refl RowsKept.trans h.rows hc

/-- what is in the tables came with a commit -/
theorem Kept.after {F : Db → Prop} (h : Kept tasks d log acked) (he : ¬F Db.empty) (hd : F d) :
    ∃ c ∈ log, F c.after := by
  rcases h.chained.cases with rfl | ⟨c, hc, rfl⟩
  · exact absurd hd he
  · exact ⟨c, hc, hd⟩

/-- no event is forgotten -/
theorem Step.processed {task : Task} (h : Step task d d') {e : UUID} (hd : d.processedOf e ≠ []) :
    d'.processedOf e ≠ [] := by
  rcases h.events with ⟨hp, -⟩ | ⟨-, pe, -, -, hp, -⟩
  · rw [Db.processedOf, hp]
    exact hd
  · rw [Db.processedOf, hp, List.filter_append]
    exact List.append_ne_nil_of_left_ne_nil hd _

/-- **an event that has been committed is recorded as a whole** -/
theorem Kept.recorded (h : Kept tasks d log acked) {e : UUID} (he : Handled e log) :
    Recorded tasks d e := by
  obtain ⟨c, hc, hp⟩ := he
  have hd : d.processedOf e ≠ [] :=
    h.chained.since (R := fun a b : Db => a.processedOf e ≠ [] → b.processedOf e ≠ [])
      (fun _ h => h) (fun _ _ _ h h' ha => h' (h ha)) (fun c hc hb => (h.steps c hc).processed hb)
      hc hp
  exact (h.tables.1.whole e).resolve_left fun h => hd h.1

theorem Kept.commit (h : Kept tasks d log acked) {p : P} (hs : Step (tasks p) d d') :
    Kept tasks d' (⟨p, d, d'⟩ :: log) acked := by
  refine ⟨⟨rfl, h.chained⟩, fun c hc => ?_, fun q hq envelope he => ?_⟩
  · rcases List.mem_cons.mp hc with rfl | hc
    · exact hs
    · exact h.steps c hc
  · obtain ⟨c, hc, hp⟩ := h.acked q hq envelope he
    exact ⟨c, List.mem_cons_of_mem _ hc, hp⟩

def inbox (tasks : P → Task) : Terms (inboxSpec (P := P)) where
  I := Kept tasks
  R _ _ _ := True
  refl _ _ := trivial
  trans _ _ _ _ _ _ := trivial
  note _ := trivial
  remote _ _ := trivial
  env_R h := nomatch h
  env_I _ h := nomatch h

theorem inbox_sessions (tasks : P → Task) : Sessions (inbox tasks) where
  stmt h := h
  note := rfl
  now h := by
    cases h
    rfl
  handled {d _ _ e} h hp := h.after (F := fun d : Db => d.processedOf e ≠ []) (fun h => h rfl) hp

/-! ## the commits -/

variable {p : P} {e i u : UUID}

/-- a row that was found once -/
def Seen (i : UUID) (r : NotificationRow) (log : List (Commit P Db)) : Prop :=
  ∃ c ∈ log, c.after.find i = some r

theorem Kept.seen (h : Kept tasks d log acked) {r : NotificationRow} (hr : d.find i = some r) :
    Seen i r log := h.after (F := fun d => d.find i = some r) (fun h => nomatch h) hr

theorem Kept.found (h : Kept tasks d log acked) {r : NotificationRow} (hr : Seen i r log) :
    ∃ r', d.find i = some r' ∧ RowKept r r' := by
  obtain ⟨c, hc, hr⟩ := hr
  exact h.since hc i r hr

theorem seen_stable (r : NotificationRow) :
    (inbox tasks).Stable p fun σ => Seen i r σ.store.log :=
  fun _ _ hr _ ⟨c, hc, h⟩ => ⟨c, hr.seen.mem_log hc, h⟩

theorem commits_step {M : List (Commit P Db) → List P → Prop} {W : List Write → Prop}
    (hW : ∀ ws, W ws → (tasks p).Writes ws)
    (hset : ∀ σ ws, (inbox tasks).Inv σ → At M e p ws σ → W ws → ∀ j st r,
      .setStatus j st ∈ ws → σ.store.committed.find j = some r →
        tasks p = .markRead j r.draft.userID) :
    Commits (inbox tasks) M e p W := by
  intro σ ws hi h hws
  refine hi.holds.commit ⟨ws, hW ws hws, by rw [Store.view, h.1.pending], fun w hw => ?_⟩
  have hr := h.1.ready w hw
  cases w with
  | insertNotifications rows => exact fun r hmem => (hr r hmem).2
  | insertProcessed pe =>
    obtain ⟨rfl, -, hnone⟩ := hr
    exact hnone
  | setStatus j st =>
    obtain ⟨-, -, r, hfind, hsent⟩ := hr
    exact ⟨r, hfind, hsent, hset σ ws hi h hws j st r hw hfind⟩

theorem RouteWrites.no_set {payloads : List NotificationCreate} {ws : List Write}
    (h : RouteWrites payloads ws) (j : UUID) (st : NotificationStatus) :
    .setStatus j st ∉ ws := by
  obtain ⟨first, now, drafts, -, rfl⟩ := h
  exact fun h => nomatch List.mem_singleton.mp h

theorem EventWrites.no_set {envelope : EventEnvelope} {ws : List Write}
    (h : EventWrites envelope ws) (j : UUID) (st : NotificationStatus) : .setStatus j st ∉ ws := by
  obtain ⟨drafts, first, now, at', -, rfl | rfl⟩ := h
  all_goals
    intro h
    rcases List.mem_cons.mp h with h | h
    · cases h
    · exact nomatch List.mem_singleton.mp h

theorem commits_routes {M : List (Commit P Db) → List P → Prop} {payloads : List NotificationCreate}
    (hW : ∀ ws, RouteWrites payloads ws → (tasks p).Writes ws) :
    Commits (inbox tasks) M e p (RouteWrites payloads) :=
  commits_step hW fun _ _ _ _ hws j st _ hm _ => absurd hm (hws.no_set j st)

theorem commits_envelope {M : List (Commit P Db) → List P → Prop} {envelope : EventEnvelope}
    (hW : ∀ ws, EventWrites envelope ws → (tasks p).Writes ws) :
    Commits (inbox tasks) M e p (EventWrites envelope) :=
  commits_step hW fun _ _ _ _ hws j st _ hm _ => absurd hm (hws.no_set j st)

/-- the row that is marked is still one of the user it was read for -/
theorem commits_marked {r : NotificationRow} (htask : tasks p = .markRead i u)
    (hu : r.draft.userID = u) :
    Commits (inbox tasks) (fun log _ => Seen i r log) e p (· = [.setStatus i .READ]) := by
  refine commits_step (fun ws hws => ?_) fun σ ws hi h hws j st r' hm hr' => ?_
  · rw [htask]
    exact hws
  · subst hws
    cases List.mem_singleton.mp hm
    obtain ⟨r'', hr'', hk⟩ := hi.holds.found h.2
    rw [hr'] at hr''
    cases hr''
    rw [hk.userID, hu]
    exact htask

/-! ## what a call is told -/

/-- the row of a notification that will not change -/
structure Final (i u : UUID) (r : NotificationRow) (log : List (Commit P Db)) : Prop where
  seen : Seen i r log
  userID : r.draft.userID = u
  status : r.draft.status ≠ .SENT

theorem Kept.final (h : Kept tasks d log acked) {r : NotificationRow} (hr : Final i u r log) :
    d.find i = some r := by
  obtain ⟨r', hr', hk⟩ := h.found hr.seen
  rw [hr', hk.final hr.status]

theorem final_stable (r : NotificationRow) :
    (inbox tasks).Stable p fun σ => Final i u r σ.store.log :=
  fun σ τ hr hi h => ⟨seen_stable r σ τ hr hi h.seen, h.userID, h.status⟩

/-- a notification of the user has this id -/
def Owned (i u : UUID) (log : List (Commit P Db)) : Prop := ∃ r, Seen i r log ∧ r.draft.userID = u

/-- `mark_read` fails because of the database, or because there is no such notification of the user:
not if there was one before (`own`) -/
def Refused (own : Prop) : Err → Prop
  | .pg _ => True
  | .notificationNotFound => ¬own
  | .duplicateEvent => False

theorem refused_errors (own : Prop) :
    Errors (inbox tasks) e p fun x _ => Refused own x :=
  ⟨fun _ => .const _, fun _ _ _ => trivial⟩

/-- a session that reads back the row it has marked -/
theorem Kept.marked (h : Kept tasks d log acked) {p : P} {ws : List Write}
    (hws : ws = [.setStatus i .READ]) {r : NotificationRow} (hr : Seen i r log) (hu : r.draft.userID = u) :
    ∃ r', Final i u r' (⟨p, d, applyAll ws d⟩ :: log) := by
  subst hws
  obtain ⟨r', hr', hk⟩ := h.found hr
  refine ⟨r'.withStatus .READ, ⟨_, List.mem_cons_self, ?_⟩, hk.userID.trans hu, fun e => nomatch e⟩
  show ((Write.setStatus i .READ).apply d).find i = _
  rw [find_setStatus, hr', Option.map_some, if_pos rfl]

/-- what the SELECT of `mark_read` tells -/
def Found (own : Prop) (i u : UUID) (log : List (Commit P Db)) : Option NotificationRow → Prop
  | none => ¬own
  | some r => Seen i r log ∧ (r.draft.userID ≠ u → ¬own)

theorem found_stable (own : Prop) (r : Option NotificationRow) :
    (inbox tasks).Stable p fun σ => Found own i u σ.store.log r := by
  cases r with
  | none => exact .const _
  | some r => exact (seen_stable r).and (.const _)

theorem Kept.read (h : Kept tasks d log acked) {own : Prop} (hown : own → Owned i u log) :
    Found own i u log (d.find i) := by
  cases hr : d.find i with
  | none =>
    intro ho
    obtain ⟨r, hs, -⟩ := hown ho
    obtain ⟨r', hr', -⟩ := h.found hs
    exact nomatch hr.symm.trans hr'
  | some r =>
    refine ⟨h.seen hr, fun hu ho => hu ?_⟩
    obtain ⟨r₀, hs, hu₀⟩ := hown ho
    obtain ⟨r', hr', hk⟩ := h.found hs
    rw [hr] at hr'
    cases hr'
    exact hk.userID.trans hu₀

/-- a session that has marked its row -/
abbrev Marked (i u : UUID) (p : P) (σ : State P Db Write Lock (List P)) : Prop :=
  σ.store.pending p = [] ∧ ∃ r, Final i u r σ.store.log

theorem marked_stable : (inbox tasks).Stable p (Marked i u p) :=
  (Terms.Stable.pending (· = [])).and (.ex fun r => final_stable r)

theorem Kept.commits {σ : State P Db Write Lock (List P)} (hi : (inbox tasks).Inv σ)
    {r : NotificationRow} (h : At (fun log _ => Seen i r log) e p [.setStatus i .READ] σ)
    (hu : r.draft.userID = u) : Marked i u p { σ with store := σ.store.commit p } := by
  refine ⟨Function.update_self .., ?_⟩
  show ∃ r, Final i u r (⟨p, σ.store.committed, σ.store.view p⟩ :: σ.store.log)
  rw [Store.view, h.1.pending]
  exact hi.holds.marked rfl h.2 hu

/-- reading back -/
theorem Kept.refreshed {σ : State P Db Write Lock (List P)} (hi : (inbox tasks).Inv σ)
    (h : Marked i u p σ) : ∃ r, (σ.store.view p).find i = some r ∧ Final i u r σ.store.log := by
  obtain ⟨hp, r, hr⟩ := h
  refine ⟨r, ?_, hr⟩
  rw [view_of_pending hp]
  exact hi.holds.final hr

/-- **`mark_read`** returns a row of the user that will not change -/
theorem inbox_markRead (htask : tasks p = .markRead i u) (e : UUID) (own : Prop) :
    (inbox tasks).Triple p (At (fun log _ => own → Owned i u log) e p []) (markRead i u)
      (fun r σ => Final i u r σ.store.log) fun x _ => Refused own x := by
  have hs := inbox_sessions (P := P) tasks
  have hF : Errors (inbox tasks) e p fun x _ => Refused own x := refused_errors own
  have hown : (inbox tasks).Stable p fun σ => own → Owned i u σ.store.log :=
    .all fun _ => .ex fun r => (seen_stable r).and (.const _)
  refine .bind (triple_begin hF hown) fun _ => .bind (triple_getNotification hs hF
    (At.stable hown) (K := fun r σ => Found own i u σ.store.log r) (found_stable own) i
      fun σ hi h => ?_) fun r => ?_
  · rw [view_of_pending h.1.pending]
    exact hi.holds.read h.2
  · have hA : (inbox tasks).Stable p fun σ =>
        At (fun log _ => own → Owned i u log) e p [] σ ∧ Found own i u σ.store.log r :=
      (At.stable hown).and (found_stable own r)
    cases r with
    | none => exact .throw hA fun _ _ h => h.2
    | some r =>
      show (inbox tasks).Triple p _ (if _ then _ else _) _ _
      split
      · rename_i hu
        exact .throw hA fun _ _ h => h.2.2 hu
      · rename_i hu
        have hu : r.draft.userID = u := not_not.mp hu
        split
        · refine Terms.Triple.pre (B := At (fun log _ => Seen i r log) e p []) ?_
            fun σ h => ⟨h.1.1, h.2.1⟩
          refine .bind (triple_setRead hs hF (seen_stable r) (fun _ _ => trivial) i) fun _ =>
            .bind (triple_commit hF (seen_stable r) (commits_marked htask hu) marked_stable
              (fun σ hi h => Kept.commits hi h hu) rfl) fun _ => ?_
          refine (triple_refresh hs hF marked_stable (K := fun r σ => Final i u r σ.store.log)
            final_stable i fun σ r hi h hr => ?_).weaken (fun _ h => h) (fun _ _ _ h => h.2)
              fun _ _ _ h => h
          obtain ⟨r', hr', hfinal⟩ := Kept.refreshed hi h
          rw [hr] at hr'
          cases hr'
          exact hfinal
        · rename_i hst
          exact .pure hA fun _ _ h => ⟨h.2.1, hu, hst⟩

/-- a row that was SENT still can be marked -/
theorem Kept.markable (h : Kept tasks d log acked) {r : NotificationRow} (hr : Seen i r log)
    (hs : r.draft.status = .SENT) : ∃ r', d.find i = some r' ∧ r'.draft.sentAt ≠ none := by
  obtain ⟨r', hr', hk⟩ := h.found hr
  obtain ⟨c, hc, hfind⟩ := hr
  refine ⟨r', hr', ?_⟩
  rw [hk.sentAt]
  exact (((h.tables.2 c hc).2.valid r (find_mem hfind)).sent_iff).mpr (.inl hs)

/-- **on a database that does not fail `mark_read` fails only if there is no such notification** -/
theorem sure_markRead (htask : tasks p = .markRead i u) :
    (inbox tasks).Sure p (fun σ => σ.store.pending p = []) (markRead i u) (fun _ _ => True)
      fun x _ => x = .notificationNotFound := by
  have hidle : (inbox tasks).Stable p
      fun σ : State P Db Write Lock (List P) => σ.store.pending p = [] :=
    Terms.Stable.pending (· = [])
  have hrow : ∀ r : Option NotificationRow, (inbox tasks).Stable p fun σ =>
      σ.store.pending p = [] ∧ ∀ r', r = some r' → Seen i r' σ.store.log :=
    fun r => hidle.and (.all fun r' => .all fun _ => seen_stable r')
  refine .bind (Terms.Sure.begin hidle hidle fun _ _ _ h => h) fun _ =>
    .bind (Terms.Sure.sql (q := Stmt.getNotification i) hidle hrow fun σ x a t hi h hx => ?_)
      fun r => ?_
  · cases hx
    refine ⟨hi.locked, hi.holds, _, rfl, h, fun r' hr' => ?_⟩
    rw [view_of_pending h] at hr'
    exact hi.holds.seen hr'
  · cases r with
    | none => exact .throw (hrow none) fun _ _ _ => rfl
    | some r =>
      show (inbox tasks).Sure p _ (if _ then _ else _) _ _
      split
      · exact .throw (hrow (some r)) fun _ _ _ => rfl
      · rename_i hu
        have hu : r.draft.userID = u := not_not.mp hu
        split
        · rename_i hst
          have hAt : ∀ ws, (inbox tasks).Stable p (At (fun log _ => Seen i r log) 0 p ws) :=
            fun ws => At.stable (seen_stable r)
          refine .bind (Terms.Sure.sql (q := Stmt.setRead i) (hrow (some r))
            (fun _ => hAt [.setStatus i .READ]) fun σ x a t hi h hx => ?_) fun _ =>
              .bind (Terms.Sure.commit (hAt _) marked_stable (fun σ hi h => ?_)
                fun σ hi h => Kept.commits hi h hu) fun _ => ?_
          · have hx : stmt p (.setRead i) x σ.store = some (a, t) := hx
            obtain ⟨r', hr', hsent⟩ := hi.holds.markable (h.2 r rfl) hst
            rcases (Writing.idle (e := 0) h.1).setRead hx with ⟨-, -, hno⟩ | ⟨rfl, hready, hw⟩
            · exact absurd (hno r' hr') hsent
            · refine ⟨wellLocked_put hi.locked hw fun _ hl => .inl hl, hi.holds, _, rfl, hready, ?_⟩
              rw [(Quiet.put hw).log]
              exact h.2 r rfl
          · exact commits_marked htask hu σ _ hi h rfl
          · refine .bind (Terms.Sure.sql (q := Stmt.getNotification i) marked_stable (fun r =>
              (Terms.Stable.const (∃ r', r = some r'))) fun σ x a t hi h hx => ?_) fun r => ?_
            · cases hx
              obtain ⟨r', hr', -⟩ := Kept.refreshed hi h
              exact ⟨hi.locked, hi.holds, _, rfl, r', hr'⟩
            · cases r with
              | none => exact .throw (.const _) fun _ _ ⟨_, h⟩ => nomatch h
              | some r => exact .pure (.const _) fun _ _ _ => trivial
        · exact .pure (hrow (some r)) fun _ _ _ => trivial

/-! ## runs -/

/-- what holds when a call ends -/
def Task.Ends (task : Task) (log : List (Commit P Db)) (res : Except Err (List NotificationRow)) :
    Prop :=
  match task with
  | .recordEvent _ envelope =>
    (∃ rows, res = .ok rows) ∨ res = .error .duplicateEvent → Handled envelope.eventID log
  | .markRead i u =>
    match res with
    | .ok rows => ∃ r, rows = [r] ∧ Final i u r log
    | .error x => Refused False x
  -- the consumer throws nothing
  | .consume _ _ _ => ∃ rows, res = .ok rows
  | _ => True

abbrev Calling (tasks : P → Task) (p : P) (A : State P Db Write Lock (List P) → Prop) : Prop :=
  (inbox tasks).Triple p A (tasks p).op (fun rows σ => (tasks p).Ends σ.store.log (.ok rows))
    fun x σ => (tasks p).Ends σ.store.log (.error x)

/-- **`mark_read` in its session** -/
theorem inbox_marking (htask : tasks p = .markRead i u) (own : Prop) :
    (inbox tasks).Triple p
      (fun σ => σ.store.pending p = [] ∧ (own → Owned i u σ.store.log)) (tasks p).op
      (fun rows σ => ∃ r, rows = [r] ∧ Final i u r σ.store.log) fun x _ => Refused own x := by
  have hstable : ∀ rows, (inbox tasks).Stable p
      fun σ => ∃ r, rows = [r] ∧ Final i u r σ.store.log :=
    fun rows => .ex fun r => (Terms.Stable.const _).and (final_stable r)
  rw [htask]
  refine triple_inSession hstable (fun _ => .const _) (fun _ _ h => h) (fun _ _ h => h) ?_
  refine .bind (Terms.Triple.pre (inbox_markRead htask 0 own)
    fun σ h => ⟨Writing.idle h.1, h.2⟩) fun r => ?_
  exact .pure (final_stable r) fun _ _ h => ⟨r, rfl, h⟩

/-- only an event that has been committed is acked -/
theorem inbox_ack {m : Message} (hm : ∀ envelope, (tasks p).envelope = some envelope →
      envelope.eventID = e) :
    (inbox tasks).Triple p (fun σ => Handled e σ.store.log) (remote (.ack m)) (fun _ _ => True)
      fun _ _ => False := by
  refine Terms.Triple.remote (r := Remote.ack m) handled_stable (fun _ => .const True)
    fun σ x a o hi h hx => ⟨?_, trivial⟩
  refine ⟨hi.holds.chained, hi.holds.steps, fun q hq envelope he => ?_⟩
  cases hx
  by_cases hlost : x.ext = true
  · rw [if_pos hlost] at hq
    exact hi.holds.acked q hq envelope he
  · rw [if_neg hlost] at hq
    rcases List.mem_cons.mp hq with rfl | hq
    · rw [hm envelope he]
      exact h
    · exact hi.holds.acked q hq envelope he

theorem inbox_reject (m : Message) :
    (inbox tasks).Triple p (fun _ => True) (remote (.reject m)) (fun _ _ => True)
      fun _ _ => False := by
  refine Terms.Triple.remote (r := Remote.reject m) (.const True) (fun _ => .const True)
    fun σ x a o hi h hx => ?_
  cases hx
  exact ⟨hi.holds, trivial⟩

theorem triple_task (p : P) : Calling tasks p fun σ => σ.store.pending p = [] := by
  have hs := inbox_sessions (P := P) tasks
  have htrue : (inbox tasks).Stable p fun _ => True := .const True
  have hroute : ∀ payloads, (∀ ws, RouteWrites payloads ws → (tasks p).Writes ws) →
      Calls (inbox tasks) p (fun σ => σ.store.pending p = []) (inSession (createBulk payloads))
        fun _ _ => True := fun payloads hW =>
    (triple_session (triple_createBulk (e := 0) (M := fun _ _ => True) hs errors_true htrue
      (commits_routes hW))).pre fun σ h => ⟨Writing.idle h, trivial⟩
  unfold Calling
  cases htask : tasks p with
  | create payload => exact hroute [payload] fun ws h => htask ▸ h
  | createBulk payload => exact hroute payload.notifications fun ws h => htask ▸ h
  | recordEvent eventFirst envelope =>
    have hW : ∀ ws, EventWrites envelope ws → (tasks p).Writes ws := fun ws h => by
      rw [htask]
      exact ⟨envelope, rfl, h⟩
    refine (triple_recordSession (M := fun _ _ => True) hs htrue eventFirst rfl
      (commits_envelope hW)).weaken (fun σ h => ⟨Writing.idle h, trivial⟩) (fun _ _ _ h _ => h)
        fun x σ _ h hx => ?_
    rcases hx with ⟨rows, hx⟩ | hx
    · cases hx
    · cases hx
      exact h
  | consume eventFirst m body =>
    have henv : ∀ {envelope}, (tasks p).envelope = some envelope ↔
        EventEnvelope.validate body = some envelope := by
      rw [htask]
      exact Iff.rfl
    refine .bind (Terms.Triple.weaken (triple_consume (M := fun _ _ => True) hs htrue eventFirst
      (fun envelope hv => commits_envelope fun ws h => ?_) (fun envelope hv => inbox_ack
        fun envelope' h => ?_) (inbox_reject m)) (fun σ h => ⟨h, trivial⟩) (fun _ _ _ h => h)
          fun _ _ _ h => h.elim) fun _ => .pure htrue fun _ _ _ => ⟨_, rfl⟩
    · rw [htask]
      exact ⟨envelope, hv, h⟩
    · rw [henv.mp h] at hv
      cases hv
      rfl
  | markRead i u =>
    have hm := inbox_marking htask False
    rw [htask] at hm
    exact hm.pre fun σ h => ⟨h, False.elim⟩

abbrev InboxConf (P : Type) : Type :=
  Conf P (Cmd Stmt Remote) (Ans Row Reply) (State P Db Write Lock (List P))
    (Except Err (List NotificationRow))

/-- empty tables, and no call has begun -/
def inboxStart (tasks : P → Task) : InboxConf P where
  state := { store := Store.fresh Db.empty, ext := [] }
  prog p := some (tasks p).op.run

theorem inbox_runs {σ : InboxConf P} (h : Runs inboxSpec.machine (inboxStart tasks) σ) :
    (inbox tasks).Inv σ.state ∧ ∀ p m, σ.prog p = some m → (inbox tasks).contract.Safe p
      (fun res σ => (tasks p).Ends σ.store.log res) m σ.state := by
  refine (inbox tasks).contract.runs h ⟨fun p w hw => absurd hw List.not_mem_nil, rfl,
    fun c hc => absurd hc List.not_mem_nil, fun p hp => absurd hp List.not_mem_nil⟩ fun p m hm => ?_
  cases hm
  refine Safe.mono (fun res τ _ hr => ?_) (triple_task p _ rfl)
  cases res <;> exact hr

/-- a call that has ended -/
theorem inbox_ends {σ : InboxConf P} (h : Runs inboxSpec.machine (inboxStart tasks) σ) {p : P}
    {res : Except Err (List NotificationRow)} (hp : σ.prog p = some (.ret res)) :
    (tasks p).Ends σ.state.store.log res :=
  (inbox_runs h).2 p _ hp σ.state ((inbox tasks).contract.rely_refl p _) (inbox_runs h).1

end

end Marketplace.Notifications
