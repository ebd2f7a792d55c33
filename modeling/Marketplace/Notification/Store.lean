import Marketplace.Lib.Service
import Marketplace.Lib.Table
import Marketplace.Request.ItemKey
import Marketplace.Notification.Schemas

/-!
# notification-service: tables, row writes, statements

The tables of the migrations 0001 and 0002.

* `Db`, `Write`, `Lock`   notification and processed_event, their row writes, their keys;
* `Draft`            a notification as `_build` makes it, `Draft.checks` the CHECK constraints of its
                     table;
* `Stmt`, `stmt`     the statements of `service.py`.
-/

set_option linter.unusedSectionVars false

namespace Marketplace.Notifications

open Table Events ReadCommitted Service

inductive NotificationStatus where
  | PENDING
  | SENT
  | FAILED
  | READ
  deriving DecidableEq, Repr

/-- a notification that has no id yet -/
structure Draft where
  userID : UUID
  type : String
  channel : Channel
  title : String
  message : String
  status : NotificationStatus
  sentAt : Option Time
  deriving DecidableEq, Repr

/-- a row of notification; `event` is no column, it keeps which event the row was made for -/
structure NotificationRow where
  notificationID : UUID
  createdAt : Time
  draft : Draft
  event : Option UUID
  deriving DecidableEq, Repr

/-- a row of processed_event -/
structure ProcessedEvent where
  eventID : UUID
  source : String
  processedAt : Time
  deriving DecidableEq, Repr

structure Db where
  notifications : List NotificationRow
  processed : List ProcessedEvent
  deriving DecidableEq, Repr

def Db.empty : Db := ⟨[], []⟩

def Db.rowsOf (d : Db) (i : UUID) : List NotificationRow :=
  d.notifications.filter (·.notificationID == i)
def Db.processedOf (d : Db) (e : UUID) : List ProcessedEvent := d.processed.filter (·.eventID == e)

/-- the rows that were made for an event -/
def Db.storedOf (d : Db) (e : UUID) : List NotificationRow :=
  d.notifications.filter (·.event == some e)

inductive Write where
  | insertNotifications (rows : List NotificationRow)
  | insertProcessed (pe : ProcessedEvent)
  | setStatus (i : UUID) (status : NotificationStatus)
  deriving DecidableEq, Repr

def NotificationRow.withStatus (st : NotificationStatus) (r : NotificationRow) : NotificationRow :=
  { r with draft := { r.draft with status := st } }

def Write.apply : Write → Db → Db
  | .insertNotifications rows, d => { d with notifications := d.notifications ++ rows }
  | .insertProcessed pe, d => { d with processed := d.processed ++ [pe] }
  | .setStatus i st, d =>
    { d with
      notifications := updateWhere (·.notificationID == i) (NotificationRow.withStatus st)
        d.notifications }

inductive Lock where
  | notification (i : UUID)
  | event (e : UUID)
  deriving DecidableEq, Repr

def Write.takes : Write → List Lock
  | .insertNotifications rows => rows.map fun r => .notification r.notificationID
  | .insertProcessed pe => [.event pe.eventID]
  | .setStatus i _ => [.notification i]

def Db.sameUnder : Lock → Db → Db → Prop
  | .notification i, d, d' => d.rowsOf i = d'.rowsOf i
  | .event e, d, d' => d.processedOf e = d'.processedOf e

theorem sameUnder_apply {l : Lock} {w : Write} (d : Db) (h : l ∉ w.takes) :
    Db.sameUnder l d (w.apply d) := by
  cases w with
  | insertNotifications rows =>
    cases l with
    | event e => rfl
    | notification i =>
      have hr : rows.filter (·.notificationID == i) = [] := by
        refine List.filter_eq_nil_iff.mpr fun r hr e => h (List.mem_map.mpr ⟨r, hr, ?_⟩)
        rw [beq_iff_eq.mp e]
      show d.rowsOf i = (d.notifications ++ rows).filter _
      rw [List.filter_append, hr, List.append_nil]
      rfl
  | insertProcessed pe =>
    cases l with
    | notification i => rfl
    | event e =>
      have he : pe.eventID ≠ e := fun e' => h (by rw [Write.takes, e']; exact List.mem_singleton_self _)
      show d.processedOf e = (d.processed ++ [pe]).filter _
      simp [Db.processedOf, he]
  | setStatus i st =>
    cases l with
    | event e => rfl
    | notification j =>
      have hij : j ≠ i := fun e => h (by rw [Write.takes, e]; exact List.mem_singleton_self _)
      show d.rowsOf j = (updateWhere _ _ d.notifications).filter _
      rw [filter_updateWhere _ _ _ (by intro x _; rfl)]
      refine (updateWhere_eq_self _ _ _ fun x hx => ?_).symm
      have hx' : x.notificationID = j := by simpa using (List.mem_filter.mp hx).2
      simp [hx', hij]

theorem sameUnder_congr {l : Lock} {d e : Db} (w : Write) (h : Db.sameUnder l d e) :
    Db.sameUnder l (w.apply d) (w.apply e) := by
  cases w with
  | insertNotifications rows =>
    cases l with
    | event u => exact h
    | notification i =>
      show (d.notifications ++ rows).filter _ = (e.notifications ++ rows).filter _
      rw [List.filter_append, List.filter_append]
      exact congrArg (· ++ _) h
  | insertProcessed pe =>
    cases l with
    | notification i => exact h
    | event u =>
      show (d.processed ++ [pe]).filter _ = (e.processed ++ [pe]).filter _
      rw [List.filter_append, List.filter_append]
      exact congrArg (· ++ _) h
  | setStatus i st =>
    cases l with
    | event u => exact h
    | notification j =>
      show (updateWhere _ _ d.notifications).filter _ = (updateWhere _ _ e.notifications).filter _
      rw [filter_updateWhere _ _ _ (by intro x _; rfl), filter_updateWhere _ _ _ (by intro x _; rfl)]
      exact congrArg _ h

instance : Schema Db Write Lock where
  apply := Write.apply
  takes := Write.takes
  guards := Write.takes
  same := Db.sameUnder
  same_refl l d := by cases l <;> rfl
  same_trans {l} _ _ _ h h' := by cases l <;> exact Eq.trans h h'
  same_apply d h := sameUnder_apply d h
  same_congr w h := sameUnder_congr w h

/-! ## statements -/

/-- the CHECK constraints; those of status and channel are kept by the types -/
def Draft.checks (n : Draft) : Bool :=
  typeShape n.type && decide (0 < (Request.btrim n.title.toList).length) &&
    ((n.status == .SENT || n.status == .READ) == n.sentAt.isSome)

/-- the columns of bounded length -/
def Draft.fits (n : Draft) : Bool := decide (n.type.length ≤ 64) && decide (n.title.length ≤ 200)

/-- PostgreSQL holds no text with a NUL -/
def noNul (s : String) : Bool := s.toList.all (· != Char.ofNat 0)

def Draft.storable (n : Draft) : Bool := noNul n.type && noNul n.title && noNul n.message

inductive Stmt where
  | insertNotifications (event : Option UUID) (drafts : List Draft)
  | insertProcessedEvent (eventID : UUID) (source : String)
  | getNotification (notificationID : UUID)
  | setRead (notificationID : UUID)

@[reducible]
def Row : Stmt → Type
  | .insertNotifications _ _ => List NotificationRow
  | .insertProcessedEvent _ _ => Unit
  | .getNotification _ => Option NotificationRow
  | .setRead _ => Unit

section
variable {P : Type} [DecidableEq P]

abbrev St (P : Type) := Store P Db Write Lock

def Db.find (d : Db) (i : UUID) : Option NotificationRow :=
  d.notifications.find? (·.notificationID == i)

def St.writing {α : Type} (s : St P) (p : P) (w : Write) (row : α) :
    Option (Except PgErr α × St P) :=
  (s.put p w).map fun t => (.ok row, t)

/-- the rows that an INSERT makes, with ids from `first` on -/
def newRows (first : UUID) (now : Time) (event : Option UUID) (drafts : List Draft) :
    List NotificationRow :=
  drafts.zipIdx.map fun n => ⟨first + n.2, now, n.1, event⟩

def stmt {Y : Type} (p : P) : (q : Stmt) → Choice Y → St P → Option (Except PgErr (Row q) × St P)
  | .insertNotifications event drafts, x, s =>
    if !(drafts.all Draft.fits && drafts.all Draft.storable) then some (.error .other, s)
    else if !drafts.all Draft.checks then some (.error .integrityViolation, s)
    -- generated ids are new
    else if (newRows x.id (s.now p) event drafts).any fun r =>
        (s.view p).rowsOf r.notificationID != [] then none
    else s.writing p (.insertNotifications (newRows x.id (s.now p) event drafts))
      (newRows x.id (s.now p) event drafts)
  | .insertProcessedEvent e source, _, s =>
    if 64 < source.length || !noNul source then some (.error .other, s)
    else if !s.free p (.event e) then none
    else if (s.view p).processedOf e ≠ [] then some (.error .uniqueViolation, s)
    else s.writing p (.insertProcessed ⟨e, source, s.now p⟩) ()
  | .getNotification i, _, s => some (.ok ((s.view p).find i), s)
  | .setRead i, _, s =>
    match (s.view p).find i with
    -- SQLAlchemy counts the rows an UPDATE matched
    | none => some (.error .other, s)
    | some r =>
      if r.draft.sentAt = none then some (.error .integrityViolation, s)
      else s.writing p (.setStatus i .READ) ()

theorem writing_eq {α : Type} {s t : St P} {p : P} {w : Write} {row : α} {a : Except PgErr α}
    (h : s.writing p w row = some (a, t)) : a = .ok row ∧ s.put p w = some t := by
  obtain ⟨u, hu, e⟩ := Option.map_eq_some_iff.mp h
  cases e
  exact ⟨rfl, hu⟩

/-- an INSERT of notifications fails, or adds the drafts under new ids -/
theorem insertNotifications_eq {Y : Type} {p : P} {event : Option UUID} {drafts : List Draft}
    {x : Choice Y} {s t : St P} {a : Except PgErr (List NotificationRow)}
    (h : stmt p (.insertNotifications event drafts) x s = some (a, t)) :
    (t = s ∧ (a = .error .other ∨ (a = .error .integrityViolation ∧
      drafts.all Draft.checks = false))) ∨
    (a = .ok (newRows x.id (s.now p) event drafts) ∧
      (∀ r ∈ newRows x.id (s.now p) event drafts, (s.view p).rowsOf r.notificationID = []) ∧
      s.put p (.insertNotifications (newRows x.id (s.now p) event drafts)) = some t) := by
  simp only [stmt] at h
  split at h
  · cases h
    exact .inl ⟨rfl, .inl rfl⟩
  · split at h
    · rename_i hc
      cases h
      exact .inl ⟨rfl, .inr ⟨rfl, by simpa using hc⟩⟩
    · split at h
      · cases h
      · rename_i hnew
        refine .inr ⟨(writing_eq h).1, fun r hr => ?_, (writing_eq h).2⟩
        exact not_not.mp fun hne => hnew (List.any_eq_true.mpr ⟨r, hr, bne_iff_ne.mpr hne⟩)

/-- an INSERT of an event fails, finds it already there, or adds it -/
theorem insertProcessedEvent_eq {Y : Type} {p : P} {e : UUID} {source : String} {x : Choice Y}
    {s t : St P} {a : Except PgErr Unit}
    (h : stmt p (.insertProcessedEvent e source) x s = some (a, t)) :
    (t = s ∧ (a = .error .other ∨ (a = .error .uniqueViolation ∧ (s.view p).processedOf e ≠ []))) ∨
    (a = .ok () ∧ (s.view p).processedOf e = [] ∧
      s.put p (.insertProcessed ⟨e, source, s.now p⟩) = some t) := by
  simp only [stmt] at h
  split at h
  · cases h
    exact .inl ⟨rfl, .inl rfl⟩
  · split at h
    · cases h
    · split at h
      · rename_i hp
        cases h
        exact .inl ⟨rfl, .inr ⟨rfl, hp⟩⟩
      · rename_i hp
        exact .inr ⟨(writing_eq h).1, not_not.mp hp, (writing_eq h).2⟩

/-- an UPDATE of a status fails, or finds a row that has been sent -/
theorem setRead_eq {Y : Type} {p : P} {i : UUID} {x : Choice Y} {s t : St P}
    {a : Except PgErr Unit} (h : stmt p (.setRead i) x s = some (a, t)) :
    (t = s ∧ (∃ e, a = .error e) ∧ ∀ r, (s.view p).find i = some r → r.draft.sentAt = none) ∨
    (a = .ok () ∧ (∃ r, (s.view p).find i = some r ∧ r.draft.sentAt ≠ none) ∧
      s.put p (.setStatus i .READ) = some t) := by
  simp only [stmt] at h
  split at h
  · rename_i hn
    cases h
    exact .inl ⟨rfl, ⟨_, rfl⟩, fun r hr => nomatch hn.symm.trans hr⟩
  · rename_i r hr
    split at h
    · rename_i hs
      cases h
      exact .inl ⟨rfl, ⟨_, rfl⟩, fun r' hr' => Option.some.inj (hr.symm.trans hr') ▸ hs⟩
    · rename_i hs
      exact .inr ⟨(writing_eq h).1, ⟨r, hr, hs⟩, (writing_eq h).2⟩

theorem stmt_quiet {Y : Type} {p : P} {q : Stmt} {x : Choice Y} {s t : St P}
    {a : Except PgErr (Row q)} (h : stmt p q x s = some (a, t)) : Quiet p s t := by
  cases q with
  | insertNotifications event drafts =>
    rcases insertNotifications_eq h with ⟨rfl, -⟩ | ⟨-, -, hw⟩
    · exact Quiet.refl p t
    · exact Quiet.put hw
  | insertProcessedEvent e source =>
    rcases insertProcessedEvent_eq h with ⟨rfl, -⟩ | ⟨-, -, hw⟩
    · exact Quiet.refl p t
    · exact Quiet.put hw
  | getNotification i =>
    cases h
    exact Quiet.refl p s
  | setRead i =>
    rcases setRead_eq h with ⟨rfl, -⟩ | ⟨-, -, hw⟩
    · exact Quiet.refl p t
    · exact Quiet.put hw

end

end Marketplace.Notifications
