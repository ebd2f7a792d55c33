import Mathlib.Data.List.Sort
import Marketplace.Lib.Service
import Marketplace.Events.Broker

/-!
# The relays: outbox tables, publishers, `drain`

Every producer has an outbox table of its own; here they are one table with a column for the
producer, and a transaction touches the rows of one producer only.  Event ids are generated, and a
generated id is new in all of them.

* `Db`, `Write`, `Lock`   the tables, the row writes of `outbox.go` and `events.py`, the row locks;
* `Stmt`, `stmt`     their statements; `lockBatch` is `SELECT .. FOR UPDATE SKIP LOCKED`;
* `publishEvent`, `drain`         the Go relay, `publisher.go` and `outbox.go`;
* `publishEventPython`, `drainPython`   the Python relay, `events.py`;
* `spec`             all of them at work, any number of replicas, with one broker.
-/

set_option linter.unusedSectionVars false

namespace Marketplace.Relay

open Table Events ReadCommitted Interleave
open Service hiding remote

/-! ## tables -/

inductive Producer where
  | request
  | offer
  | admin
  deriving DecidableEq, Repr

def Producer.source : Producer → String
  | .request => "request-service"
  | .offer => "offer-service"
  | .admin => "admin-service"

structure Entry where
  producer : Producer
  row : NotificationOutbox
  deriving DecidableEq, Repr

structure Db where
  entries : List Entry
  deriving DecidableEq, Repr

def Db.empty : Db := ⟨[]⟩

/-- the row with this primary key -/
def Entry.isRow (k : Producer) (i : UUID) (e : Entry) : Bool := e.producer == k && e.row.outboxID == i

def Db.rowsOf (d : Db) (k : Producer) (i : UUID) : List Entry := d.entries.filter (Entry.isRow k i)
def Db.withEvent (d : Db) (e : UUID) : List Entry := d.entries.filter (·.row.eventID == e)

/-- how a relay marks a row: sent, retired with an error, or tried in vain -/
inductive Mark where
  | published (now : Time)
  | failed (now : Time) (cause : String)
  | attempted (cause : String)
  deriving DecidableEq, Repr

def Mark.set : Mark → NotificationOutbox → NotificationOutbox
  | .published now, r =>
    { r with publishedAt := some now, attempts := r.attempts + 1, lastError := none }
  | .failed now cause, r =>
    { r with publishedAt := some now, attempts := r.attempts + 1, lastError := some cause }
  | .attempted cause, r => { r with attempts := r.attempts + 1, lastError := some cause }

theorem Mark.set_outboxID (m : Mark) (r : NotificationOutbox) : (m.set r).outboxID = r.outboxID := by
  cases m <;> rfl
theorem Mark.set_eventID (m : Mark) (r : NotificationOutbox) : (m.set r).eventID = r.eventID := by
  cases m <;> rfl
theorem Mark.set_payload (m : Mark) (r : NotificationOutbox) : (m.set r).payload = r.payload := by
  cases m <;> rfl

def Entry.mark (m : Mark) (e : Entry) : Entry := { e with row := m.set e.row }

inductive Write where
  | insert (e : Entry)
  | mark (k : Producer) (i : UUID) (m : Mark)
  deriving DecidableEq, Repr

def Write.apply : Write → Db → Db
  | .insert e, d => ⟨d.entries ++ [e]⟩
  | .mark k i m, d => ⟨updateWhere (Entry.isRow k i) (Entry.mark m) d.entries⟩

inductive Lock where
  | row (k : Producer) (i : UUID)
  | event (e : UUID)
  deriving DecidableEq, Repr

def Write.takes : Write → List Lock
  | .insert e => [.row e.producer e.row.outboxID, .event e.row.eventID]
  | .mark k i _ => [.row k i]

def Db.sameUnder : Lock → Db → Db → Prop
  | .row k i, d, d' => d.rowsOf k i = d'.rowsOf k i
  | .event e, d, d' => (d.withEvent e).length = (d'.withEvent e).length

theorem isRow_mark (k : Producer) (i : UUID) (m : Mark) (e : Entry) :
    Entry.isRow k i (e.mark m) = Entry.isRow k i e := by
  simp only [Entry.isRow, Entry.mark, Mark.set_outboxID]

theorem rowsOf_mark (k k' : Producer) (i i' : UUID) (m : Mark) (d : Db) :
    (Write.apply (.mark k i m) d).rowsOf k' i' =
      updateWhere (Entry.isRow k i) (Entry.mark m) (d.rowsOf k' i') :=
  filter_updateWhere _ _ _ (fun e _ => isRow_mark k' i' m e) _

theorem withEvent_mark (k : Producer) (i : UUID) (m : Mark) (d : Db) (e : UUID) :
    (Write.apply (.mark k i m) d).withEvent e =
      updateWhere (Entry.isRow k i) (Entry.mark m) (d.withEvent e) :=
  filter_updateWhere _ _ _ (fun x _ => by simp only [Entry.mark, Mark.set_eventID]) _

theorem length_updateWhere {α : Type} (c : α → Bool) (f : α → α) (t : List α) :
    (updateWhere c f t).length = t.length := List.length_map _

theorem sameUnder_apply {l : Lock} {w : Write} (d : Db) (h : l ∉ w.takes) :
    Db.sameUnder l d (w.apply d) := by
  cases w with
  | insert e =>
    simp only [Write.takes, List.mem_cons, List.not_mem_nil, or_false, not_or] at h
    cases l with
    | row k i =>
      have hi : Entry.isRow k i e = false := by
        rw [Entry.isRow, Bool.and_eq_false_iff]
        by_contra hc
        simp only [beq_eq_false_iff_ne, ne_eq, not_or, not_not] at hc
        exact h.1 (by rw [hc.1, hc.2])
      show d.rowsOf k i = (d.entries ++ [e]).filter _
      rw [List.filter_append, List.filter_cons, hi]
      simp [Db.rowsOf]
    | event u =>
      have hu : e.row.eventID ≠ u := fun e' => h.2 (by rw [e'])
      show (d.withEvent u).length = ((d.entries ++ [e]).filter _).length
      simp [Db.withEvent, hu]
  | mark k i m =>
    cases l with
    | row k' i' =>
      show d.rowsOf k' i' = _
      rw [rowsOf_mark]
      refine (updateWhere_eq_self _ _ _ fun x hx => ?_).symm
      have hx' : x.producer = k' ∧ x.row.outboxID = i' := by
        simpa [Entry.isRow] using (List.mem_filter.mp hx).2
      by_contra hc
      have hc' : x.producer = k ∧ x.row.outboxID = i := by simpa [Entry.isRow] using hc
      refine h ?_
      rw [← hx'.1, ← hx'.2, hc'.1, hc'.2]
      exact List.mem_singleton_self _
    | event u =>
      show (d.withEvent u).length = _
      rw [withEvent_mark, length_updateWhere]

theorem sameUnder_congr {l : Lock} {d e : Db} (w : Write) (h : Db.sameUnder l d e) :
    Db.sameUnder l (w.apply d) (w.apply e) := by
  cases w with
  | insert x =>
    cases l with
    | row k i =>
      show (d.entries ++ [x]).filter _ = (e.entries ++ [x]).filter _
      rw [List.filter_append, List.filter_append]
      exact congrArg (· ++ _) h
    | event u =>
      show ((d.entries ++ [x]).filter _).length = ((e.entries ++ [x]).filter _).length
      rw [List.filter_append, List.filter_append, List.length_append, List.length_append]
      exact congrArg (· + _) h
  | mark k i m =>
    cases l with
    | row k' i' =>
      show (Write.apply _ d).rowsOf k' i' = (Write.apply _ e).rowsOf k' i'
      rw [rowsOf_mark, rowsOf_mark]
      exact congrArg _ h
    | event u =>
      show ((Write.apply _ d).withEvent u).length = ((Write.apply _ e).withEvent u).length
      rw [withEvent_mark, withEvent_mark, length_updateWhere, length_updateWhere]
      exact h

theorem sameUnder_trans {l : Lock} {a b c : Db} (h : Db.sameUnder l a b) (h' : Db.sameUnder l b c) :
    Db.sameUnder l a c := by
  cases l with
  | row k i => exact h.trans h'
  | event e => exact h.trans h'

instance : Schema Db Write Lock where
  apply := Write.apply
  takes := Write.takes
  guards := Write.takes
  same := Db.sameUnder
  same_refl l d := by cases l <;> rfl
  same_trans := sameUnder_trans
  same_apply d h := sameUnder_apply d h
  same_congr w h := sameUnder_congr w h

/-! ## statements -/

inductive Stmt where
  | lockBatch (k : Producer)
  | markPublished (k : Producer) (outboxID : UUID)
  /-- with the clock of the caller -/
  | setPublished (k : Producer) (outboxID : UUID)
  | markFailed (k : Producer) (outboxID : UUID) (cause : String)
  | recordAttempt (k : Producer) (outboxID : UUID) (cause : String)
  | insertOutbox (k : Producer) (routingKey : RoutingKey) (notifications : List Notification)

@[reducible]
def Row : Stmt → Type
  | .lockBatch _ => List NotificationOutbox
  | _ => Unit

section
variable {P : Type} [DecidableEq P]

abbrev St (P : Type) := Store P Db Write Lock

def relayBatchSize : Nat := 100

/-- the oldest unpublished rows that nobody else has locked -/
def batchOf (s : St P) (p : P) (k : Producer) : List NotificationOutbox :=
  ((((s.view p).entries.filter fun e => e.producer == k && e.row.publishedAt == none &&
    s.free p (.row k e.row.outboxID)).map (·.row)).insertionSort
      fun a b => a.createdAt ≤ b.createdAt).take relayBatchSize

def St.lockRows (s : St P) (p : P) (k : Producer) (rows : List NotificationOutbox) : St P :=
  { s with locks := fun l =>
      if l ∈ rows.map fun r => Lock.row k r.outboxID then some p else s.locks l }

def St.writing {α : Type} (s : St P) (p : P) (w : Write) (row : α) :
    Option (Except PgErr α × St P) :=
  (s.put p w).map fun t => (.ok row, t)

def stmt {Y : Type} (p : P) : (q : Stmt) → Choice Y → St P → Option (Except PgErr (Row q) × St P)
  | .lockBatch k, _, s => some (.ok (batchOf s p k), s.lockRows p k (batchOf s p k))
  | .markPublished k i, _, s => s.writing p (.mark k i (.published (s.now p))) ()
  | .setPublished k i, x, s => s.writing p (.mark k i (.published x.now)) ()
  | .markFailed k i cause, _, s => s.writing p (.mark k i (.failed (s.now p) cause)) ()
  | .recordAttempt k i cause, _, s => s.writing p (.mark k i (.attempted cause)) ()
  | .insertOutbox k key ns, x, s =>
    if !(s.free p (.row k x.id) && s.free p (.event x.tag)) then none
    else if (s.view p).rowsOf k x.id ≠ [] ∨ (s.view p).withEvent x.tag ≠ [] then
      some (.error .uniqueViolation, s)
    else s.writing p (.insert ⟨k, .of x.id x.tag key ns (s.now p)⟩) ()

theorem writing_eq {α : Type} {s t : St P} {p : P} {w : Write} {row : α} {a : Except PgErr α}
    (h : s.writing p w row = some (a, t)) : a = .ok row ∧ s.put p w = some t := by
  obtain ⟨u, hu, e⟩ := Option.map_eq_some_iff.mp h
  cases e
  exact ⟨rfl, hu⟩

theorem batchOf_mem {s : St P} {p : P} {k : Producer} {r : NotificationOutbox}
    (h : r ∈ batchOf s p k) : ∃ e ∈ (s.view p).entries, e.row = r ∧ e.producer = k ∧
      r.publishedAt = none ∧ s.free p (.row k r.outboxID) = true := by
  have hm := List.mem_of_mem_take h
  rw [List.mem_insertionSort] at hm
  obtain ⟨e, he, rfl⟩ := List.mem_map.mp hm
  obtain ⟨he, hc⟩ := List.mem_filter.mp he
  simp only [Bool.and_eq_true, beq_iff_eq] at hc
  exact ⟨e, he, rfl, hc.1.1, hc.1.2, hc.2⟩

theorem lockRows_quiet {s : St P} {p : P} {k : Producer} :
    Quiet p s (s.lockRows p k (batchOf s p k)) := by
  refine ⟨rfl, rfl, fun _ _ => ⟨rfl, rfl⟩, fun q hq l => ?_⟩
  by_cases e : l ∈ (batchOf s p k).map fun r => Lock.row k r.outboxID
  · obtain ⟨r, hr, rfl⟩ := List.mem_map.mp e
    obtain ⟨-, -, -, -, -, hf⟩ := batchOf_mem hr
    simp only [St.lockRows, if_pos e, Option.some.injEq]
    exact ⟨fun e => absurd e.symm hq, fun e => absurd e (free_ne hf hq)⟩
  · simp only [St.lockRows, if_neg e]

/-- an INSERT is refused, or both of its keys are new -/
theorem insertOutbox_eq {Y : Type} {p : P} {k : Producer} {key : RoutingKey}
    {ns : List Notification} {x : Choice Y} {s t : St P} {a : Except PgErr Unit}
    (h : stmt p (.insertOutbox k key ns) x s = some (a, t)) :
    (a = .error .uniqueViolation ∧ t = s) ∨
    (a = .ok () ∧ (s.view p).rowsOf k x.id = [] ∧ (s.view p).withEvent x.tag = [] ∧
      s.put p (.insert ⟨k, .of x.id x.tag key ns (s.now p)⟩) = some t) := by
  simp only [stmt] at h
  split at h
  · cases h
  · split at h
    · cases h
      exact .inl ⟨rfl, rfl⟩
    · rename_i hn
      simp only [ne_eq, not_or, not_not] at hn
      obtain ⟨ha, hp⟩ := writing_eq h
      exact .inr ⟨ha, hn.1, hn.2, hp⟩

theorem stmt_quiet {Y : Type} {p : P} {q : Stmt} {x : Choice Y} {s t : St P}
    {a : Except PgErr (Row q)} (h : stmt p q x s = some (a, t)) : Quiet p s t := by
  cases q with
  | lockBatch k =>
    cases h
    exact lockRows_quiet
  | markPublished k i => exact Quiet.put (writing_eq h).2
  | setPublished k i => exact Quiet.put (writing_eq h).2
  | markFailed k i cause => exact Quiet.put (writing_eq h).2
  | recordAttempt k i cause => exact Quiet.put (writing_eq h).2
  | insertOutbox k key ns =>
    rcases insertOutbox_eq h with ⟨-, rfl⟩ | ⟨-, -, -, hp⟩
    · exact Quiet.refl p t
    · exact Quiet.put hp

end

/-! ## the publishers -/

inductive Remote where
  /-- `ctx.Err() != nil` -/
  | expired
  | acquire
  | publish (m : Message)
  | discard
  | publishOnce (m : Message)
  | forget
  deriving DecidableEq, Repr

@[reducible]
def Reply : Remote → Type
  | .expired => Bool
  | .acquire => Except String Unit
  | .publish _ => Except String Unit
  | .discard => Unit
  | .publishOnce _ => Except String Unit
  | .forget => Unit

inductive Err where
  | pg (text : String) (e : PgErr)
  deriving DecidableEq, Repr

abbrev Op (α : Type) : Type := Call Row Reply Err α

def remote (r : Remote) : Op (Reply r) := Service.remote r

def exec (text : String) (q : Stmt) : Op (Row q) := Service.sql (.pg text) q

/-- the loop of `PublishEvent` with `n` attempts left -/
def attempts (m : Message) (lastErr : String) : Nat → Op (Except String Unit)
  | 0 => return .error ("publishing " ++ m.routingKey.text ++ ": " ++ lastErr)
  | n + 1 => do
    if (← remote .expired : Bool) then
      return .error ("publishing " ++ m.routingKey.text ++ ": " ++ lastErr)
    else
      match ← remote .acquire with
      | .error e => do
        remote .discard
        attempts m e n
      | .ok _ =>
        match ← remote (.publish m) with
        | .ok _ => return .ok ()
        | .error e => do
          remote .discard
          attempts m e n

def publishEvent (k : Producer) (eventID : UUID) (key : RoutingKey) (ns : List Notification) :
    Op (Except String Unit) :=
  if ns = [] then return .ok ()
  else attempts ⟨eventID, k.source, key, .notifications ns⟩ "%!w(<nil>)" 2

/-- the loop of `publish_event` with `n` attempts left -/
def attemptsPython (m : Message) (last : String) : Nat → Op (Except String Unit)
  | 0 => return .error last
  | n + 1 => do
    match ← remote (.publishOnce m) with
    | .ok _ => return .ok ()
    | .error e => do
      remote .forget
      attemptsPython m e n

def publishEventPython (k : Producer) (row : NotificationOutbox) : Op (Except String Unit) :=
  if row.payload = .notifications [] then return .ok ()
  else attemptsPython ⟨row.eventID, k.source, row.routingKey, row.payload⟩ "publish failed" 2

/-! ## the relays -/

/-- the loop of `drain`; the number of rows published -/
def publishBatch (k : Producer) : List NotificationOutbox → Nat → Op Nat
  | [], n => return n
  | p :: batch, n =>
    match p.payload.decode with
    -- unpublishable however often it is retried
    | .error e => do
      exec "retiring outbox row" (.markFailed k p.outboxID e)
      publishBatch k batch n
    | .ok notifications => do
      match ← publishEvent k p.eventID p.routingKey notifications with
      | .error e => do
        exec "recording outbox attempt" (.recordAttempt k p.outboxID e)
        return n
      | .ok _ => do
        exec "marking outbox row published" (.markPublished k p.outboxID)
        publishBatch k batch (n + 1)

/-- whatever is not committed at the end is rolled back -/
def closing {α : Type} (body : Op α) : Op α := do
  match ← attempt body with
  | .ok a => do
    rollback
    return a
  | .error e => do
    rollback
    throw e

def drain (k : Producer) : Op Nat := do
  begin >>= orThrow (.pg "beginning relay transaction")
  closing do
    let batch : List NotificationOutbox ← exec "reading outbox" (.lockBatch k)
    if batch = [] then return 0
    else do
      let published ← publishBatch k batch 0
      commit >>= orThrow (.pg "committing relay transaction")
      return published

def publishBatchPython (k : Producer) : List NotificationOutbox → Nat → Op Nat
  | [], n => return n
  | row :: rows, n => do
    match ← publishEventPython k row with
    | .error e => do
      exec "" (.recordAttempt k row.outboxID e)
      return n
    | .ok _ => do
      exec "" (.setPublished k row.outboxID)
      publishBatchPython k rows (n + 1)

def drainPython (k : Producer) : Op Nat := do
  begin >>= orThrow (.pg "")
  closing do
    let rows : List NotificationOutbox ← exec "" (.lockBatch k)
    if rows = [] then return 0
    else do
      let published ← publishBatchPython k rows 0
      commit >>= orThrow (.pg "")
      return published

/-! ## the producers -/

/-- `Enqueue` -/
def enqueue (k : Producer) (key : RoutingKey) (ns : List Notification) : Op Unit :=
  if ns = [] then return ()
  else exec ("enqueuing " ++ key.text) (.insertOutbox k key ns)

def enqueueAll (k : Producer) : List (RoutingKey × List Notification) → Op Unit
  | [] => return ()
  | ev :: evs => do
    enqueue k ev.1 ev.2
    enqueueAll k evs

/-- a business transaction, as far as it concerns the outbox -/
def produce (k : Producer) (events : List (RoutingKey × List Notification)) : Op Unit :=
  Service.inTx (.pg "beginning transaction") (.pg "committing transaction") (enqueueAll k events)

inductive Invocation where
  | produce (k : Producer) (events : List (RoutingKey × List Notification))
  | drain (k : Producer)
  | drainPython (k : Producer)

def Invocation.op : Invocation → Op Nat
  | .produce k events => do
    Relay.produce k events
    return 0
  | .drain k => Relay.drain k
  | .drainPython k => Relay.drainPython k

section
variable {N P : Type} [DecidableEq N] [DecidableEq P]

/-- `replica p` is the publisher that the process `p` uses -/
def spec (replica : P → N) : Spec P Db Write Lock (Broker N P) Network Row Reply where
  stmt := stmt
  note _ _ _ _ b := b
  remote p r x b :=
    match r with
    | .expired => some (x.ext.expired, b)
    | .acquire => some (b.acquire (replica p) x.ext)
    | .publish m => some (b.publish p (replica p) m x.ext)
    | .discard => some ((), b.discard (replica p))
    | .publishOnce m => some (b.publishOnce (replica p) m x.ext)
    | .forget => some ((), b.forget (replica p))
  env x b := b.move x.ext.move
  quiet := stmt_quiet

abbrev Config (N P : Type) : Type :=
  Conf P (Cmd Stmt Remote) (Ans Row Reply) (State P Db Write Lock (Broker N P)) (Except Err Nat)

/-- any number of producers and relays, none of them begun, and empty tables -/
def start (calls : P → Invocation) : Config N P where
  state := { store := Store.fresh Db.empty, ext := Broker.start }
  prog p := some (calls p).op.run

end

end Marketplace.Relay
