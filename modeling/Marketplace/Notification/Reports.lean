import Marketplace.Lib.Discipline
import Marketplace.Notification.ExactlyOnce
import Marketplace.Notification.Inbox

/-!
# A duplicate report is true

`record_event` takes every IntegrityError of its commit for a sign that the event was handled before.

* `Stmt.Sound`, `Write.Sound`   rows that meet every constraint of their tables but the keys;
* `sound_integrity`  an INSERT of such rows violates no constraint but the key of processed_event;
* `inboxDiscipline`  the calls send no others, whatever they are told;
* `duplicate_reports`   **DuplicateEvent is raised, and a message acked, only for an event whose
                     notifications are stored**.
-/

set_option linter.unusedSectionVars false

namespace Marketplace.Notifications

open Table Events ReadCommitted Interleave
open Service hiding begin commit remote

/-! ## rows that meet the constraints -/

/-- `marks`: whether a status may be set -/
def Stmt.Sound (marks : Prop) : Stmt → Prop
  | .insertNotifications _ drafts => ∀ n ∈ drafts, n.Valid
  | .insertProcessedEvent _ source => source.length ≤ 64
  | .getNotification _ => True
  | .setRead _ => marks

def Write.Sound : Write → Prop
  | .insertNotifications rows => ∀ r ∈ rows, r.draft.Valid
  | .insertProcessed pe => pe.source.length ≤ 64
  | .setStatus _ _ => True

section
variable {P : Type} [DecidableEq P]

/-- **the only constraint that an INSERT of such rows can violate is the key of processed_event** -/
theorem sound_integrity {Y : Type} {p : P} {q : Stmt} {x : Choice Y} {s t : St P} {a : PgErr}
    (hq : q.Sound False) (h : stmt p q x s = some (.error a, t))
    (ha : integrityError a = true) :
    ∃ e source, q = .insertProcessedEvent e source ∧ (s.view p).processedOf e ≠ [] := by
  cases q with
  | insertNotifications event drafts =>
    have hchecks : drafts.all Draft.checks = true :=
      List.all_eq_true.mpr fun n hn => (hq n hn).checks
    rcases insertNotifications_eq h with ⟨-, e | ⟨-, hc⟩⟩ | ⟨e, -⟩
    · cases e
      cases ha
    · exact nomatch hchecks.symm.trans hc
    · cases e
  | insertProcessedEvent e source =>
    rcases insertProcessedEvent_eq h with ⟨-, e' | ⟨-, hp⟩⟩ | ⟨e', -⟩
    · cases e'
      cases ha
    · exact ⟨e, source, rfl, hp⟩
    · cases e'
  | getNotification i => cases h
  | setRead i => exact hq.elim

/-! ## the calls send no others -/

def inboxDiscipline (marks : Prop) : Discipline (inboxSpec (P := P)) where
  Fine _ := True
  Writes _ := Write.Sound
  Sends _ := Stmt.Sound marks
  Gets _ _ _ := True
  Hears _ _ _ := True
  apply _ _ := trivial
  remote _ := trivial
  stmt {p q x s a t} hq _ h := by
    refine ⟨fun _ _ => trivial, ?_⟩
    have h : Notifications.stmt p q x s = some (a, t) := h
    cases q with
    | insertNotifications event drafts =>
      rcases insertNotifications_eq h with ⟨rfl, -⟩ | ⟨-, -, hw⟩
      · exact .inl rfl
      · exact .inr ⟨.insertNotifications _, fun r hr => hq _ (newRows_draft hr), put_pending hw⟩
    | insertProcessedEvent e source =>
      rcases insertProcessedEvent_eq h with ⟨rfl, -⟩ | ⟨-, -, hw⟩
      · exact .inl rfl
      · exact .inr ⟨.insertProcessed ⟨e, source, s.now p⟩, hq, put_pending hw⟩
    | getNotification i =>
      cases h
      exact .inl rfl
    | setRead i =>
      rcases setRead_eq h with ⟨rfl, -⟩ | ⟨-, -, hw⟩
      · exact .inl rfl
      · exact .inr ⟨.setStatus _ _, trivial, put_pending hw⟩

section
variable {p : P} {α : Type} {marks : Prop}

theorem sends_exec {q : Stmt} (h : q.Sound marks) :
    (inboxDiscipline marks).Returns p (fun _ => True) (exec q) := .sql h

theorem sends_begin : (inboxDiscipline marks).Returns p (fun _ => True) begin :=
  .bind .begin fun _ _ => .orThrow

theorem sends_commit : (inboxDiscipline marks).Returns p (fun _ => True) commit :=
  .bind .commit fun _ _ => .orThrow

theorem sends_deliver (c : NotificationCreate) :
    (inboxDiscipline marks).Returns p Draft.Valid (deliver c) := by
  unfold deliver
  split
  · rename_i hc
    refine .bind (Discipline.Returns.remote (r := Remote.now)) fun t _ => .pure ?_
    exact Built.valid ⟨some t, rfl, fun _ => nofun, fun _ => hc⟩
  · rename_i hc
    exact .pure (Built.valid ⟨none, rfl, fun h => absurd h hc, fun h => absurd rfl h⟩)

theorem sends_buildAll (cs : List NotificationCreate) :
    (inboxDiscipline marks).Returns p (fun ns => ∀ n ∈ ns, n.Valid) (buildAll cs) := by
  induction cs with
  | nil => exact .pure fun _ h => absurd h List.not_mem_nil
  | cons c cs ih =>
    refine .bind (sends_deliver c) fun n hn => .bind ih fun ns hns => .pure fun n' hn' => ?_
    rcases List.mem_cons.mp hn' with rfl | hn'
    · exact hn
    · exact hns n' hn'

theorem sends_refresh (i : UUID) : (inboxDiscipline marks).Returns p (fun _ => True) (refresh i) := by
  refine .bind (sends_exec trivial) fun r _ => ?_
  cases r with
  | some r => exact .pure trivial
  | none => exact .throw _

theorem sends_refreshAll (rows : List NotificationRow) :
    (inboxDiscipline marks).Returns p (fun _ => True) (refreshAll rows) := by
  induction rows with
  | nil => exact .pure trivial
  | cons r rs ih => exact .bind (sends_refresh _) fun _ _ => .bind ih fun _ _ => .pure trivial

theorem sends_createBulk (payloads : List NotificationCreate) :
    (inboxDiscipline marks).Returns p (fun _ => True) (createBulk payloads) := by
  refine .bind (sends_buildAll payloads) fun drafts hd => .bind sends_begin fun _ _ => ?_
  exact .bind (sends_exec (q := .insertNotifications none drafts) hd) fun rows _ =>
    .bind sends_commit fun _ _ => sends_refreshAll rows

theorem sends_commitEvent (eventFirst : Bool) (envelope : EventEnvelope) {drafts : List Draft}
    (hd : ∀ n ∈ drafts, n.Valid) :
    (inboxDiscipline marks).Returns p (fun _ => True) (commitEvent eventFirst envelope drafts) := by
  have hevent : (inboxDiscipline marks).Returns p (fun _ => True)
      (exec (.insertProcessedEvent envelope.eventID envelope.source.val)) :=
    sends_exec envelope.source.short
  have hrows : (inboxDiscipline marks).Returns p (fun _ => True)
      (exec (.insertNotifications (some envelope.eventID) drafts)) := sends_exec hd
  refine .bind sends_begin fun _ _ => .bind (Φ := fun _ => True) ?_ fun rows _ =>
    .bind sends_commit fun _ _ => .pure trivial
  cases eventFirst with
  | true => exact .bind hevent fun _ _ => hrows
  | false => exact .bind hrows fun _ _ => .bind hevent fun _ _ => .pure trivial

theorem sends_recordEvent (eventFirst : Bool) (envelope : EventEnvelope) :
    (inboxDiscipline marks).Returns p (fun _ => True) (recordEvent eventFirst envelope) := by
  refine .bind (sends_buildAll _) fun drafts hd =>
    .bind (.attempt (sends_commitEvent eventFirst envelope hd)) fun r _ => ?_
  cases r with
  | ok rows => exact sends_refreshAll rows
  | error x =>
    cases x with
    | pg x =>
      show (inboxDiscipline marks).Returns p _ (if _ then _ else _)
      split
      · exact .bind .rollback fun _ _ => .throw _
      · exact .throw _
    | duplicateEvent => exact .throw _
    | notificationNotFound => exact .throw _

theorem sends_markRead (hm : marks) (i u : UUID) :
    (inboxDiscipline marks).Returns p (fun _ => True) (markRead i u) := by
  refine .bind sends_begin fun _ _ => .bind (sends_exec trivial) fun r _ => ?_
  cases r with
  | none => exact .throw _
  | some r =>
    show (inboxDiscipline marks).Returns p _ (if _ then _ else _)
    split
    · exact .throw _
    · split
      · exact .bind (sends_exec hm) fun _ _ => .bind sends_commit fun _ _ => sends_refresh i
      · exact .pure trivial

theorem sends_inSession {body : Op α} (h : (inboxDiscipline marks).Returns p (fun _ => True) body) :
    (inboxDiscipline marks).Returns p (fun _ => True) (inSession body) := by
  refine .bind (.attempt h) fun r _ => ?_
  cases r with
  | ok a => exact .bind .rollback fun _ _ => .pure trivial
  | error x => exact .bind .rollback fun _ _ => .throw _

variable [Texts]

theorem sends_op (task : Task) : (inboxDiscipline True).Returns p (fun _ => True) task.op := by
  cases task with
  | create payload => exact sends_inSession (sends_createBulk _)
  | createBulk payload => exact sends_inSession (sends_createBulk _)
  | recordEvent eventFirst envelope => exact sends_inSession (sends_recordEvent eventFirst envelope)
  | consume eventFirst m body =>
    refine .bind (Φ := fun _ => True) ?_ fun _ _ => .pure trivial
    unfold consume
    have hsay : ∀ r : Remote, (inboxDiscipline True).Returns p (fun _ => True) (remote r) :=
      fun r => .remote
    split
    · exact hsay (.reject m)
    · refine .bind (.attempt (sends_inSession (sends_recordEvent eventFirst _))) fun r _ => ?_
      cases r with
      | ok rows => exact hsay (.ack m)
      | error x =>
        cases x with
        | duplicateEvent => exact hsay (.ack m)
        | pg x => exact hsay (.reject m)
        | notificationNotFound => exact hsay (.reject m)
  | markRead i u =>
    exact sends_inSession (.bind (sends_markRead trivial i u) fun r _ => .pure trivial)

/-- whatever a call has written, committed or not, meets the constraints -/
theorem writes_sound {tasks : P → Task} {σ : InboxConf P}
    (h : Runs inboxSpec.machine (inboxStart tasks) σ) :
    ∀ p, ∀ w ∈ σ.state.store.pending p, w.Sound := by
  refine (Discipline.runs (D := inboxDiscipline True) h ⟨trivial, fun _ _ h => absurd h List.not_mem_nil,
    fun p m hm => ?_, fun _ h => absurd h List.not_mem_nil⟩).pending
  cases hm
  exact Discipline.Does.mono (sends_op (tasks p)) fun _ _ => trivial

/-- **A duplicate report is true.**  Whatever envelope it is given and whatever it is told,
`record_event` sends only INSERTs of rows that meet every NOT NULL, length and CHECK constraint, so
that an IntegrityError means that the event is in processed_event.  In every run of any calls, in any
order and with any faults, every row that is written meets these constraints, and DuplicateEvent is
raised, and a message acked, only for an event that is in processed_event and whose notifications are
stored, once each and in order. -/
theorem duplicate_reports {tasks : P → Task} {σ : InboxConf P}
    (h : Runs inboxSpec.machine (inboxStart tasks) σ) :
    (∀ (p : P) (eventFirst : Bool) (envelope : EventEnvelope),
      (inboxDiscipline False).Returns p (fun _ => True) (recordEvent eventFirst envelope)) ∧
    (∀ (p : P) (q : Stmt) (x : Choice Bool) (s t : St P) (a : PgErr), q.Sound False →
      stmt p q x s = some (.error a, t) → integrityError a = true →
        ∃ e source, q = .insertProcessedEvent e source ∧ (s.view p).processedOf e ≠ []) ∧
    (∀ p, ∀ w ∈ σ.state.store.pending p, w.Sound) ∧
    (∀ r ∈ σ.state.store.committed.notifications, r.draft.Valid) ∧
    (∀ pe ∈ σ.state.store.committed.processed, pe.source.length ≤ 64) ∧
    ∀ p envelope, (tasks p).envelope = some envelope →
      (σ.prog p = some (.ret (.error .duplicateEvent)) ∨ p ∈ σ.state.ext) →
        Recorded tasks σ.state.store.committed envelope.eventID := by
  have hi := (inbox_runs h).1.holds
  refine ⟨fun _ => sends_recordEvent, fun _ _ _ _ _ _ => sound_integrity, writes_sound h,
    hi.tables.1.valid, hi.tables.1.sources, fun p envelope he hp => hi.recorded ?_⟩
  rcases hp with hp | hp
  · have hends := inbox_ends h hp
    cases htask : tasks p with
    | create payload => exact nomatch htask ▸ he
    | createBulk payload => exact nomatch htask ▸ he
    | recordEvent eventFirst envelope' =>
      rw [htask] at hends he
      cases he
      exact hends (.inr rfl)
    | consume eventFirst m body =>
      rw [htask] at hends
      exact nomatch hends
    | markRead i u => exact nomatch htask ▸ he
  · exact hi.acked p hp envelope he

end

end

/-! ### one event, recorded twice -/

section

attribute [local instance] plainTexts

/-- an event of one notification -/
def welcome : EventEnvelope where
  eventID := 8
  source := ⟨"request-service", by decide, by decide⟩
  bulk := {
    notifications := [greeting]
    pos := by decide
    few := by decide }

def twice : Bool → Task := fun eventFirst => .recordEvent eventFirst welcome

def records (p : Bool) : Act Bool (Choice Bool) := .exec p ⟨.none, 70, 0, 5, false⟩

def refused : Prog (Cmd Stmt Remote) (Ans Row Reply) (Except Err (List NotificationRow)) → Bool
  | .ret (.error .duplicateEvent) => true
  | _ => false

theorem refused_eq {m : Prog (Cmd Stmt Remote) (Ans Row Reply) (Except Err (List NotificationRow))}
    (h : refused m = true) : m = .ret (.error .duplicateEvent) := by
  unfold refused at h
  split at h
  · rfl
  · cases h

theorem duplicate_reports_twice :
    ∃ σ : InboxConf Bool, Runs inboxSpec.machine (inboxStart twice) σ ∧
      σ.prog true = some (.ret (.error .duplicateEvent)) ∧
      Recorded twice σ.state.store.committed 8 := by
  obtain ⟨σ, hr, hσ⟩ := Runs.exists_of_run (M := inboxSpec.machine) (σ := inboxStart twice)
    (List.replicate 7 (records false) ++ List.replicate 5 (records true))
    (f := fun σ => (σ.prog true).map refused) (b := some true) (by decide +kernel)
  have hp : σ.prog true = some (.ret (.error .duplicateEvent)) := by
    obtain ⟨m, hm, he⟩ := Option.map_eq_some_iff.mp hσ
    rw [hm, refused_eq he]
  exact ⟨σ, hr, hp, (duplicate_reports hr).2.2.2.2.2 true welcome rfl (.inl hp)⟩

end

end Marketplace.Notifications
