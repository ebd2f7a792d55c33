import Marketplace.Events.Delivery
import Marketplace.Lib.Checked
import Marketplace.Lib.GivesUp

/-!
# One drain of the outbox

What `drain` does to the table, row by row, and which events it publishes.  Here a call of
`PublishEvent` is one step, and its outcome is whatever the environment says.

* `drainOf publish`      `drain` of `outbox.go` with the publisher as a parameter; `drain_eq`: with
                         that of `publisher.go` it is the relay of `Marketplace.Events.Relay`;
* `drains`               outbox tables, with the batches that every process has been handed and its
                         calls of `PublishEvent` with their outcomes;
* `Drained k batch n`    what one drain does: `n` is the position of the first row that can be
                         decoded and whose publication has failed, or the number of rows;
* `drain_outbox`         **every commit of a drain is of this kind**, whatever the other processes
                         do, and so is the number that it returns; if a command of the database
                         fails, it never commits;
* `drain_unacknowledged`   a commit that takes effect may be reported as an error.
-/

set_option linter.unusedSectionVars false

namespace Marketplace.Relay

open Table Events ReadCommitted Interleave
open Service hiding remote

/-! ## the program -/

section
variable {Rm : Type} {Answer : Rm → Type}

/-- `PublishEvent` -/
abbrev Publisher (Answer : Rm → Type) : Type :=
  UUID → RoutingKey → List Notification → Call Row Answer Err (Except String Unit)

def execOf (text : String) (q : Stmt) : Call Row Answer Err (Row q) := Service.sql (.pg text) q

/-- the loop of `drain`; the number of rows published -/
def publishBatchOf (publish : Publisher Answer) (k : Producer) :
    List NotificationOutbox → Nat → Call Row Answer Err Nat
  | [], n => return n
  | p :: batch, n =>
    match p.payload.decode with
    -- unpublishable however often it is retried
    | .error e => do
      execOf "retiring outbox row" (.markFailed k p.outboxID e)
      publishBatchOf publish k batch n
    | .ok notifications => do
      match ← publish p.eventID p.routingKey notifications with
      | .error e => do
        execOf "recording outbox attempt" (.recordAttempt k p.outboxID e)
        return n
      | .ok _ => do
        execOf "marking outbox row published" (.markPublished k p.outboxID)
        publishBatchOf publish k batch (n + 1)

/-- the transaction of `drain` -/
def drainBody (publish : Publisher Answer) (k : Producer) : Call Row Answer Err Nat := do
  let batch : List NotificationOutbox ← execOf "reading outbox" (.lockBatch k)
  if batch = [] then return 0
  else do
    let published ← publishBatchOf publish k batch 0
    commit >>= orThrow (.pg "committing relay transaction")
    return published

def drainOf (publish : Publisher Answer) (k : Producer) : Call Row Answer Err Nat := do
  begin >>= orThrow (.pg "beginning relay transaction")
  match ← attempt (drainBody publish k) with
  | .ok a => do
    rollback
    return a
  | .error e => do
    rollback
    throw e

end

theorem publishBatch_eq (k : Producer) (batch : List NotificationOutbox) (n : Nat) :
    publishBatch k batch n = publishBatchOf (publishEvent k) k batch n := by
  induction batch generalizing n with
  | nil => rfl
  | cons p batch ih =>
    unfold publishBatch publishBatchOf
    simp only [ih]
    rfl

/-- **the relay, with its publisher** -/
theorem drain_eq (k : Producer) : drain k = drainOf (publishEvent k) k := by
  have hclosing : ∀ body : Op Nat, closing body = (do
      match ← attempt body with
      | .ok a => do
        rollback
        return a
      | .error e => do
        rollback
        throw e) := by
    intro body
    refine congrArg (fun f => attempt body >>= f) (funext fun r => ?_)
    cases r with
    | ok a => rfl
    | error e => rfl
  unfold drain drainOf drainBody
  rw [hclosing]
  simp only [publishBatch_eq]
  rfl

/-! ## calls of `PublishEvent` -/

structure Publication where
  eventID : UUID
  routingKey : RoutingKey
  notifications : List Notification
  deriving DecidableEq, Repr

@[reducible]
def Outcome : Publication → Type := fun _ => Except String Unit

/-- a call, and what has come of it -/
abbrev Called := Publication × Except String Unit

/-- `PublishEvent` as one step -/
def publishing : Publisher Outcome := fun eventID routingKey notifications =>
  Service.remote (⟨eventID, routingKey, notifications⟩ : Publication)

/-- the call for a row, if the row can be decoded -/
def publication (r : NotificationOutbox) : Option Publication :=
  match r.payload.decode with
  | .ok ns => some ⟨r.eventID, r.routingKey, ns⟩
  | .error _ => none

/-- the calls for these rows, all of them successful -/
def sent (rows : List NotificationOutbox) : List Called :=
  (rows.filterMap publication).map fun pub => (pub, .ok ())

/-- **What one drain does**: to the table, given the rows that the SELECT has handed out, and to the
broker.  `n` is the position of the first row that can be decoded and whose publication has failed,
or the number of rows. -/
structure Drained (k : Producer) (batch : List NotificationOutbox) (n : Nat) (now : Time)
    (calls : List Called) (before after : Db) : Prop where
  selected : batch.length ≤ relayBatchSize ∧ (batch.map (·.outboxID)).Nodup ∧
    ∀ r ∈ batch, before.rowsOf k r.outboxID = [⟨k, r⟩] ∧ r.publishedAt = none
  position : n ≤ batch.length
  published : ∀ j r ns, j < n → batch[j]? = some r → r.payload.decode = .ok ns →
    after.rowsOf k r.outboxID =
      [⟨k, { r with publishedAt := some now, attempts := r.attempts + 1, lastError := none }⟩]
  retired : ∀ j r e, j < n → batch[j]? = some r → r.payload.decode = .error e →
    after.rowsOf k r.outboxID =
      [⟨k, { r with publishedAt := some now, attempts := r.attempts + 1, lastError := some e }⟩]
  stopped : ∀ r, batch[n]? = some r → ∃ ns e, r.payload.decode = .ok ns ∧
    calls = sent (batch.take n) ++ [(⟨r.eventID, r.routingKey, ns⟩, .error e)] ∧
    after.rowsOf k r.outboxID =
      [⟨k, { r with publishedAt := none, attempts := r.attempts + 1, lastError := some e }⟩]
  through : n = batch.length → calls = sent batch
  untouched : ∀ k' i, (k' ≠ k ∨ ∀ j r, j ≤ n → batch[j]? = some r → r.outboxID ≠ i) →
    after.rowsOf k' i = before.rowsOf k' i

/-- the primary key -/
def Db.Keyed (d : Db) : Prop := (d.entries.map fun x => (x.producer, x.row.outboxID)).Nodup

instance (d : Db) : Decidable d.Keyed := inferInstanceAs (Decidable (List.Nodup _))

/-- the batches that a process has been handed, and its calls -/
structure Record where
  batches : List (List NotificationOutbox)
  calls : List Called
  deriving DecidableEq

section
variable {P : Type} [DecidableEq P]

/-- outside, every process keeps its record -/
def drains : Spec P Db Write Lock (P → Record) (Except String Unit) Row Outcome where
  stmt := stmt
  note p q _ s e :=
    match q with
    | .lockBatch k =>
      Function.update e p { e p with batches := (e p).batches ++ [batchOf s p k] }
    | _ => e
  remote p pub x e :=
    some (x.ext, Function.update e p { e p with calls := (e p).calls ++ [(pub, x.ext)] })
  env _ _ := none
  quiet := stmt_quiet

abbrev Outboxes (P : Type) : Type :=
  Conf P (Cmd Stmt Publication) (Ans Row Outcome) (State P Db Write Lock (P → Record))
    (Except Err Nat)

/-- any programs on a table with the contents `d`, none of them begun -/
def opening (progs : P → Call Row Outcome Err Nat) (d : Db) : Outboxes P where
  state := ⟨Store.fresh d, fun _ => ⟨[], []⟩⟩
  prog p := some (progs p).run

end

/-! ## keys -/

theorem Db.Keyed.one {d : Db} (h : d.Keyed) (k : Producer) (i : UUID) :
    (d.rowsOf k i).length ≤ 1 := by
  have hsub : ((d.rowsOf k i).map fun x => (x.producer, x.row.outboxID)).Nodup :=
    h.sublist (List.filter_sublist.map _)
  match hr : d.rowsOf k i with
  | [] => exact Nat.zero_le _
  | [x] => exact Nat.le_refl _
  | x :: y :: rest =>
    have hkey : ∀ z ∈ d.rowsOf k i, (z.producer, z.row.outboxID) = (k, i) := by
      intro z hz
      have hz' := (List.mem_filter.mp hz).2
      rw [Entry.isRow, Bool.and_eq_true, beq_iff_eq, beq_iff_eq] at hz'
      rw [hz'.1, hz'.2]
    rw [hr] at hsub hkey
    have hx := hkey x List.mem_cons_self
    have hy := hkey y (List.mem_cons_of_mem _ List.mem_cons_self)
    rw [List.map_cons, List.nodup_cons, List.map_cons, hx, hy] at hsub
    exact absurd List.mem_cons_self hsub.1

theorem keys_mark (k : Producer) (i : UUID) (m : Mark) (d : Db) :
    ((Write.apply (.mark k i m) d).entries.map fun x => (x.producer, x.row.outboxID)) =
      d.entries.map fun x => (x.producer, x.row.outboxID) :=
  map_updateWhere _ _ _ (fun x _ => by simp only [Entry.mark, Mark.set_outboxID]) _

/-- an INSERT has found its key new -/
def Write.New : Write → Db → Prop
  | .insert x, d => d.rowsOf x.producer x.row.outboxID = []
  | .mark _ _ _, _ => True

theorem keyed_apply {w : Write} {d : Db} (h : d.Keyed) (hw : w.New d) : (w.apply d).Keyed := by
  cases w with
  | mark k i m =>
    unfold Db.Keyed
    rw [keys_mark]
    exact h
  | insert x =>
    unfold Db.Keyed
    show ((d.entries ++ [x]).map _).Nodup
    rw [List.map_append, List.nodup_append]
    refine ⟨h, List.nodup_singleton _, fun a ha b hb hab => ?_⟩
    obtain ⟨y, hy, rfl⟩ := List.mem_map.mp ha
    rw [List.mem_singleton.mp hb] at hab
    have hmem : y ∈ d.rowsOf x.producer x.row.outboxID := by
      refine List.mem_filter.mpr ⟨hy, ?_⟩
      rw [Entry.isRow, Bool.and_eq_true, beq_iff_eq, beq_iff_eq]
      exact ⟨(Prod.mk.inj hab).1, (Prod.mk.inj hab).2⟩
    rw [show d.rowsOf x.producer x.row.outboxID = [] from hw] at hmem
    exact absurd hmem List.not_mem_nil

theorem new_congr {w : Write} {d e : Db} (hs : ∀ l ∈ w.takes, Db.sameUnder l d e) (h : w.New d) :
    w.New e := by
  cases w with
  | mark k i m => trivial
  | insert x =>
    have hrows : d.rowsOf x.producer x.row.outboxID = e.rowsOf x.producer x.row.outboxID :=
      hs _ List.mem_cons_self
    exact hrows.symm.trans h

section
variable {P : Type} [DecidableEq P]

theorem stmt_wellLocked {Y : Type} {p : P} {q : Stmt} {x : Choice Y} {s t : St P}
    {a : Except PgErr (Row q)} (h : stmt p q x s = some (a, t)) (hw : WellLocked s) :
    WellLocked t := by
  cases q with
  | lockBatch k =>
    cases h
    exact wellLocked_lockRows hw
  | markPublished k i => exact wellLocked_mark hw (writing_eq h).2
  | setPublished k i => exact wellLocked_mark hw (writing_eq h).2
  | markFailed k i cause => exact wellLocked_mark hw (writing_eq h).2
  | recordAttempt k i cause => exact wellLocked_mark hw (writing_eq h).2
  | insertOutbox k key ns =>
    rcases insertOutbox_eq h with ⟨-, rfl⟩ | ⟨-, -, -, hput⟩
    · exact hw
    · exact wellLocked_put hw hput fun _ hl => .inl hl

/-- the rows that are inserted have new keys -/
def keys : Checks (drains (P := P)) where
  Ok := Write.New
  congr hs h := new_congr hs h
  stmt {p q x s a t} h hw := by
    have h : stmt p q x s = some (a, t) := h
    refine ⟨stmt_wellLocked h hw, ?_⟩
    have hmark : ∀ {k i m} {u : Unit} {a : Except PgErr Unit},
        St.writing s p (.mark k i m) u = some (a, t) →
        ∃ w : Write, w.New (s.view p) ∧ t.pending p = s.pending p ++ [w] := by
      intro k i m u a h
      refine ⟨_, ?_, put_pending (writing_eq h).2⟩
      trivial
    cases q with
    | lockBatch k =>
      cases h
      exact .inl rfl
    | markPublished k i => exact .inr (hmark h)
    | setPublished k i => exact .inr (hmark h)
    | markFailed k i cause => exact .inr (hmark h)
    | recordAttempt k i cause => exact .inr (hmark h)
    | insertOutbox k key ns =>
      rcases insertOutbox_eq h with ⟨-, rfl⟩ | ⟨-, hnew, -, hput⟩
      · exact .inl rfl
      · refine .inr ⟨_, ?_, put_pending hput⟩
        exact hnew

theorem keyed_applyAll {ws : List Write} {d : Db} (h : d.Keyed)
    (hw : (keys (P := P)).Holds d ws) : (applyAll ws d).Keyed := by
  induction ws generalizing d with
  | nil => exact h
  | cons w ws ih => exact ih (keyed_apply h hw.1) hw.2

/-- **the primary key of every run** -/
theorem keyed_runs {progs : P → Call Row Outcome Err Nat} {d₀ : Db} (h₀ : d₀.Keyed) {σ : Outboxes P}
    (h : Runs drains.machine (opening progs d₀) σ) : σ.state.store.committed.Keyed := by
  induction h with
  | refl => exact h₀
  | tail h a hs ih =>
    rcases Spec.step_store hs with ⟨p, -, he⟩ | ⟨he, -⟩
    · have hsound := Checks.runs (K := keys) h (Checks.sound_fresh d₀)
      rw [he]
      exact keyed_applyAll ih (hsound.holds p)
    · rw [he]
      exact ih

end

/-! ## marks -/

/-- the UPDATEs of a transaction, by primary key -/
def marking (k : Producer) (ms : List (UUID × Mark)) : List Write := ms.map fun x => .mark k x.1 x.2

/-- how a row is marked that has been dealt with -/
def verdict (now : Time) (r : NotificationOutbox) : Mark :=
  match r.payload.decode with
  | .ok _ => .published now
  | .error e => .failed now e

def verdicts (now : Time) (rows : List NotificationOutbox) : List (UUID × Mark) :=
  rows.map fun r => (r.outboxID, verdict now r)

theorem rowsOf_marking_other {k k' : Producer} {i : UUID} {ms : List (UUID × Mark)}
    (h : k' ≠ k ∨ i ∉ ms.map (·.1)) (d : Db) :
    (applyAll (marking k ms) d).rowsOf k' i = d.rowsOf k' i := by
  refine (same_applyAll (l := Lock.row k' i) (marking k ms) (fun w hw hm => ?_) d).symm
  obtain ⟨x, hx, rfl⟩ := List.mem_map.mp hw
  have hm : Lock.row k' i = .row k x.1 := List.mem_singleton.mp hm
  cases hm
  rcases h with h | h
  · exact h rfl
  · exact h (List.mem_map_of_mem hx)

theorem rowsOf_marking {k : Producer} {i : UUID} {m : Mark} {ms : List (UUID × Mark)}
    (hnd : (ms.map (·.1)).Nodup) (hm : (i, m) ∈ ms) {d : Db} {e : Entry} (he : d.rowsOf k i = [e]) :
    (applyAll (marking k ms) d).rowsOf k i = [e.mark m] := by
  have hrow : Entry.isRow k i e = true := by
    have hmem : e ∈ d.rowsOf k i := he ▸ List.mem_singleton_self e
    exact (List.mem_filter.mp hmem).2
  induction ms generalizing d with
  | nil => exact absurd hm List.not_mem_nil
  | cons x ms ih =>
    rw [List.map_cons, List.nodup_cons] at hnd
    show (applyAll (marking k ms) (Write.apply (.mark k x.1 x.2) d)).rowsOf k i = _
    rcases List.mem_cons.mp hm with rfl | hm
    · rw [rowsOf_marking_other (.inr hnd.1), rowsOf_mark, he]
      simp [updateWhere, hrow]
    · have hne : x.1 ≠ i := fun e => hnd.1 (e ▸ List.mem_map_of_mem hm)
      refine ih hnd.2 hm ?_
      have hother : (applyAll (marking k [x]) d).rowsOf k i = d.rowsOf k i :=
        rowsOf_marking_other (.inr fun h => hne (List.mem_singleton.mp h).symm) d
      exact hother.trans he

theorem fst_verdicts (now : Time) (rows : List NotificationOutbox) :
    (verdicts now rows).map (·.1) = rows.map (·.outboxID) := by
  rw [verdicts, List.map_map]
  rfl

/-- how far a drain has come when it commits, with its marks and its calls -/
inductive Stops (now : Time) (batch : List NotificationOutbox) :
    Nat → List (UUID × Mark) → List Called → Prop where
  | through : Stops now batch batch.length (verdicts now batch) (sent batch)
  | stopped {n : Nat} (r : NotificationOutbox) (ns : List Notification) (e : String)
      (hr : batch[n]? = some r) (hd : r.payload.decode = .ok ns) :
      Stops now batch n (verdicts now (batch.take n) ++ [(r.outboxID, .attempted e)])
        (sent (batch.take n) ++ [(⟨r.eventID, r.routingKey, ns⟩, .error e)])

variable {k : Producer} {batch : List NotificationOutbox} {n : Nat} {now : Time}
  {ms : List (UUID × Mark)} {calls : List Called}

/-- the marks go to the first rows of the batch, in their order -/
theorem Stops.keys (h : Stops now batch n ms calls) :
    ms.map (·.1) = (batch.take (n + 1)).map (·.outboxID) := by
  cases h with
  | through => rw [fst_verdicts, List.take_of_length_le (Nat.le_succ _)]
  | stopped r ns e hr hd =>
    rw [List.map_append, fst_verdicts, List.take_add_one, hr, List.map_append]
    rfl

theorem Stops.position (h : Stops now batch n ms calls) : n ≤ batch.length := by
  cases h with
  | through => exact Nat.le_refl _
  | stopped r ns e hr hd => exact (List.getElem?_eq_some_iff.mp hr).1.le

/-- the rows before the last one -/
theorem Stops.verdict (h : Stops now batch n ms calls) {j : Nat} {r : NotificationOutbox}
    (hj : j < n) (hr : batch[j]? = some r) : (r.outboxID, verdict now r) ∈ ms := by
  have hin : ∀ {rows : List NotificationOutbox}, r ∈ rows →
      (r.outboxID, Relay.verdict now r) ∈ verdicts now rows :=
    fun hm => List.mem_map.mpr ⟨r, hm, rfl⟩
  cases h with
  | through => exact hin (List.mem_of_getElem? hr)
  | stopped r' ns e hr' hd =>
    refine List.mem_append_left _ (hin (List.mem_of_getElem? (i := j) ?_))
    rw [List.getElem?_take_of_lt hj]
    exact hr

/-- the batch as the SELECT has handed it out -/
structure Selected (k : Producer) (batch : List NotificationOutbox) (d : Db) : Prop where
  size : batch.length ≤ relayBatchSize
  distinct : (batch.map (·.outboxID)).Nodup
  rows : ∀ r ∈ batch, d.rowsOf k r.outboxID = [⟨k, r⟩] ∧ r.publishedAt = none

/-- **the marks of a drain** -/
theorem Selected.drained {d : Db} (h : Selected k batch d) (hs : Stops now batch n ms calls) :
    Drained k batch n now calls d (applyAll (marking k ms) d) := by
  have hnd : (ms.map (·.1)).Nodup := by
    rw [hs.keys]
    exact h.distinct.sublist ((List.take_sublist _ _).map _)
  have hrow : ∀ {r m}, r ∈ batch → (r.outboxID, m) ∈ ms →
      (applyAll (marking k ms) d).rowsOf k r.outboxID = [⟨k, m.set r⟩] :=
    fun hr hm => rowsOf_marking hnd hm (h.rows _ hr).1
  refine ⟨⟨h.size, h.distinct, h.rows⟩, hs.position, fun j r ns hj hr hd => ?_,
    fun j r e hj hr hd => ?_, fun r hr => ?_, fun hn => ?_, fun k' i hi => ?_⟩
  · have hv : verdict now r = .published now := by
      unfold verdict
      rw [hd]
    have hafter := hrow (List.mem_of_getElem? hr) (hs.verdict hj hr)
    rw [hv] at hafter
    exact hafter
  · have hv : verdict now r = .failed now e := by
      unfold verdict
      rw [hd]
    have hafter := hrow (List.mem_of_getElem? hr) (hs.verdict hj hr)
    rw [hv] at hafter
    exact hafter
  · cases hs with
    | through =>
      rw [List.getElem?_eq_none (Nat.le_refl _)] at hr
      cases hr
    | stopped r' ns e hr' hd =>
      cases hr'.symm.trans hr
      have hmem := List.mem_of_getElem? hr
      have hafter := hrow hmem (List.mem_append_right _ (List.mem_singleton_self _))
      refine ⟨ns, e, hd, rfl, ?_⟩
      rw [hafter]
      show [Entry.mk k { r with attempts := r.attempts + 1, lastError := some e }] = _
      rw [(h.rows _ hmem).2]
  · cases hs with
    | through => rfl
    | stopped r ns e hr hd =>
      rw [List.getElem?_eq_none hn.ge] at hr
      cases hr
  · refine rowsOf_marking_other (hi.imp_right fun hall hm => ?_) d
    rw [hs.keys] at hm
    obtain ⟨r, hr, hid⟩ := List.mem_map.mp hm
    obtain ⟨j, hj⟩ := List.mem_iff_getElem?.mp hr
    obtain ⟨hlt, -⟩ := List.getElem?_eq_some_iff.mp hj
    rw [List.length_take] at hlt
    have hjn : j < n + 1 := by omega
    rw [List.getElem?_take_of_lt hjn] at hj
    exact hall j r (by omega) hj hid

/-! ## a drain, statement by statement -/

section
variable {P : Type} [DecidableEq P]

abbrev DrainState (P : Type) := State P Db Write Lock (P → Record)

/-- every statement finds the primary key intact -/
abbrev keyedDrains : Spec P Db Write Lock (P → Record) (Except String Unit) Row Outcome :=
  drains.onlyIf fun _ _ _ s => decide s.committed.Keyed

theorem note_other {p q : P} {r : Stmt} {x : Choice (Except String Unit)} {s : St P}
    {e : P → Record} (hq : q ≠ p) : drains.note p r x s e q = e q := by
  cases r with
  | lockBatch k => exact Function.update_of_ne hq _ _
  | markPublished k i => rfl
  | setPublished k i => rfl
  | markFailed k i cause => rfl
  | recordAttempt k i cause => rfl
  | insertOutbox k key ns => rfl

/-- `p` has been handed one batch and has committed once, and its commit is that of one drain -/
def DrainedOnce (p : P) (k : Producer) (batch : List NotificationOutbox) (n : Nat)
    (log : List (Commit P Db)) (r : Record) : Prop :=
  ∃ c now, log.filter (·.tx = p) = [c] ∧ r.batches = [batch] ∧
    Drained k batch n now r.calls c.before c.after

/-- `p` commits nothing else -/
def onlyDrains (p : P) (k : Producer) : Service.Terms (keyedDrains (P := P)) where
  I _ log e := log.filter (·.tx = p) = [] ∨ ∃ batch n, DrainedOnce p k batch n log (e p)
  R q e e' := e q = e' q
  refl _ _ := rfl
  trans _ _ _ _ h h' := h.trans h'
  note {p p' q x s e} hq := (note_other (x := x) hq).symm
  remote {p p' r x e a e'} hq h := by
    cases h
    exact (Function.update_of_ne hq _ _).symm
  env_R h := nomatch h
  env_I _ h := nomatch h

variable {p : P}

/-- after the rows that it has dealt with, `p` has made these marks and these calls -/
structure Working (p : P) (k : Producer) (batch : List NotificationOutbox) (now : Time)
    (ms : List (UUID × Mark)) (calls : List Called) (σ : DrainState P) : Prop where
  fresh : σ.store.commitsOf p = []
  held : ∀ r ∈ batch, σ.store.locks (.row k r.outboxID) = some p
  selected : Selected k batch σ.store.committed
  clock : σ.store.now p = now
  marks : σ.store.pending p = marking k ms
  record : σ.ext p = ⟨[batch], calls⟩

theorem Working.stable : (onlyDrains p k).Stable p (Working p k batch now ms calls) := by
  intro σ τ hr _ h
  refine ⟨hr.seen.commitsOf.trans h.fresh, fun r hm => (hr.seen.locks _).mpr (h.held r hm),
    ⟨h.selected.size, h.selected.distinct, fun r hm => ?_⟩, hr.seen.now.trans h.clock,
    hr.seen.pending.trans h.marks, Eq.trans (Eq.symm hr.ext) h.record⟩
  have hsame : σ.store.committed.rowsOf k r.outboxID = τ.store.committed.rowsOf k r.outboxID :=
    hr.seen.same _ (h.held r hm)
  rw [← hsame]
  exact h.selected.rows r hm

/-- nothing is promised about a drain that throws -/
abbrev gaveUp : Err → DrainState P → Prop := fun _ _ => True

/-- an UPDATE of one row -/
def MarksOne (p : P) (k : Producer) (i : UUID) (m : Time → Mark) (q : Stmt) : Prop :=
  ∀ (x : Choice (Except String Unit)) (s : St P) (e : P → Record), drains.note p q x s e = e ∧
    ∃ u : Row q, stmt p q x s = St.writing s p (.mark k i (m (s.now p))) u

theorem triple_oneMark {r : NotificationOutbox} {text : String} {q : Stmt} {m : Time → Mark}
    (hq : MarksOne p k r.outboxID m q) :
    (onlyDrains p k).Triple p (Working p k batch now ms calls) (execOf text q)
      (fun _ => Working p k batch now (ms ++ [(r.outboxID, m now)]) calls) gaveUp := by
  refine Terms.Triple.sql Working.stable (fun _ => Working.stable) (fun _ _ => trivial)
    fun σ x a t hi h hs => ?_
  obtain ⟨hn, u, hu⟩ := hq x σ.store σ.ext
  have hput := (writing_eq (hu.symm.trans (Spec.onlyIf_stmt _ hs).2)).2
  have hnote : (keyedDrains (P := P)).note p q x σ.store σ.ext = σ.ext := hn
  rw [hnote]
  refine ⟨wellLocked_mark hi.locked hput, hi.holds, fun _ _ => ?_⟩
  have hquiet := Quiet.put hput
  have hnow : t.now p = now := by
    rw [put_eq hput]
    exact h.clock
  refine ⟨?_, fun r' hr' => put_keeps hput (h.held r' hr'), ?_, hnow, ?_, h.record⟩
  · show t.log.filter _ = []
    rw [hquiet.log]
    exact h.fresh
  · show Selected k batch t.committed
    rw [hquiet.committed]
    exact h.selected
  · show t.pending p = _
    rw [put_pending hput, h.marks, h.clock, marking, marking, List.map_append]
    rfl

theorem triple_publishing (eventID : UUID) (key : RoutingKey) (ns : List Notification) :
    (onlyDrains p k).Triple p (Working p k batch now ms calls) (publishing eventID key ns)
      (fun a => Working p k batch now ms (calls ++ [(⟨eventID, key, ns⟩, a)])) gaveUp := by
  refine Terms.Triple.remote Working.stable (fun _ => Working.stable) fun σ x a e hi h hx => ?_
  cases hx
  refine ⟨.inl h.fresh, h.fresh, h.held, h.selected, h.clock, h.marks, ?_⟩
  show Function.update σ.ext p _ p = _
  rw [Function.update_self, h.record]

/-- a drain that has come to its commit -/
def Ready (p : P) (k : Producer) (batch : List NotificationOutbox) (now : Time) (m : Nat)
    (σ : DrainState P) : Prop :=
  ∃ n ms calls, Working p k batch now ms calls σ ∧ Stops now batch n ms calls ∧
    m = ((batch.take n).filterMap publication).length

theorem Ready.stable {m : Nat} : (onlyDrains p k).Stable p (Ready p k batch now m) :=
  .ex fun _ => .ex fun _ => .ex fun _ => Working.stable.and (.const _)

theorem verdicts_append (r : NotificationOutbox) (done : List NotificationOutbox) :
    verdicts now (done ++ [r]) = verdicts now done ++ [(r.outboxID, verdict now r)] := by
  rw [verdicts, List.map_append]
  rfl

/-- **the loop**: `done` are the rows that it has dealt with -/
theorem triple_publishBatchOf (rest done : List NotificationOutbox) (hb : batch = done ++ rest) :
    (onlyDrains p k).Triple p (Working p k batch now (verdicts now done) (sent done))
      (publishBatchOf publishing k rest (done.filterMap publication).length)
      (Ready p k batch now) gaveUp := by
  induction rest generalizing done with
  | nil =>
    rw [List.append_nil] at hb
    refine .pure Working.stable fun σ _ h => ⟨batch.length, _, _, h, ?_, ?_⟩
    · rw [← hb]
      exact .through
    · rw [List.take_length, hb]
  | cons r rest ih =>
    have hb' : batch = (done ++ [r]) ++ rest := by rw [hb, List.append_assoc]; rfl
    have hnext := ih (done ++ [r]) hb'
    rw [verdicts_append, sent, List.filterMap_append] at hnext
    unfold publishBatchOf
    cases hd : r.payload.decode with
    | error e =>
      have hnone : [r].filterMap publication = [] := by
        simp [publication, hd]
      have hverdict : verdict now r = .failed now e := by
        unfold verdict
        rw [hd]
      rw [hnone, hverdict, List.append_nil] at hnext
      have hmark : MarksOne p k r.outboxID (fun t => .failed t e) (.markFailed k r.outboxID e) :=
        fun _ _ _ => ⟨rfl, (), rfl⟩
      exact .bind (triple_oneMark hmark) fun _ => hnext
    | ok ns =>
      have hsome : [r].filterMap publication = [⟨r.eventID, r.routingKey, ns⟩] := by
        simp [publication, hd]
      have hverdict : verdict now r = .published now := by
        unfold verdict
        rw [hd]
      rw [hsome, hverdict, List.map_append, List.length_append] at hnext
      refine .bind (triple_publishing _ _ _) fun a => ?_
      cases a with
      | ok _ =>
        have hmark : MarksOne p k r.outboxID .published (.markPublished k r.outboxID) :=
          fun _ _ _ => ⟨rfl, (), rfl⟩
        exact .bind (triple_oneMark hmark) fun _ => hnext
      | error e =>
        have hmark : MarksOne p k r.outboxID (fun _ => .attempted e)
            (.recordAttempt k r.outboxID e) := fun _ _ _ => ⟨rfl, (), rfl⟩
        refine .bind (triple_oneMark hmark) fun _ =>
          .pure Working.stable fun σ _ h => ⟨done.length, _, _, h, ?_, ?_⟩
        · have htake : batch.take done.length = done := by rw [hb, List.take_left]
          have hr : batch[done.length]? = some r := by
            rw [hb, List.getElem?_append_right (Nat.le_refl _), Nat.sub_self]
            rfl
          have hstop : Stops now batch done.length _ _ := .stopped r ns e hr hd
          rw [htake] at hstop
          exact hstop
        · rw [hb, List.take_left]

/-- `p` has not begun -/
structure Unbegun (p : P) (σ : DrainState P) : Prop where
  idle : σ.store.pending p = []
  fresh : σ.store.commitsOf p = []
  silent : σ.ext p = ⟨[], []⟩

theorem Unbegun.stable : (onlyDrains p k).Stable p (Unbegun p) := by
  intro σ τ hr _ h
  exact ⟨hr.seen.pending.trans h.idle, hr.seen.commitsOf.trans h.fresh,
    Eq.trans (Eq.symm hr.ext) h.silent⟩

theorem batchOf_length (s : St P) : (batchOf s p k).length ≤ relayBatchSize := by
  unfold batchOf
  exact List.length_take_le _ _

/-- the rows of one producer have their own keys -/
theorem batchOf_distinct {s : St P} (h : (s.view p).Keyed) :
    ((batchOf s p k).map (·.outboxID)).Nodup := by
  obtain ⟨c, hc, hbatch⟩ : ∃ c : Entry → Bool, (∀ x, c x = true → x.producer = k) ∧
      batchOf s p k = ((((s.view p).entries.filter c).map (·.row)).insertionSort
        fun a b => a.createdAt ≤ b.createdAt).take relayBatchSize := by
    refine ⟨_, fun x hx => ?_, rfl⟩
    simp only [Bool.and_eq_true, beq_iff_eq] at hx
    exact hx.1.1
  have hrows : ((((s.view p).entries.filter c).map (·.row)).map (·.outboxID)).Nodup := by
    rw [List.map_map]
    refine List.Nodup.map_on (fun x hx y hy hxy => ?_) ((List.Nodup.of_map _ h).filter _)
    obtain ⟨hx, hcx⟩ := List.mem_filter.mp hx
    obtain ⟨hy, hcy⟩ := List.mem_filter.mp hy
    have hid : x.row.outboxID = y.row.outboxID := hxy
    refine List.inj_on_of_nodup_map h hx hy ?_
    rw [hc x hcx, hc y hcy, hid]
  rw [hbatch]
  refine List.Nodup.sublist ((List.take_sublist _ _).map _) ?_
  exact ((List.perm_insertionSort _ _).map _).nodup_iff.mpr hrows

theorem triple_select (text : String) : (onlyDrains p k).Triple p (Unbegun p)
    (execOf text (.lockBatch k)) (fun batch σ => ∃ now, Working p k batch now [] [] σ) gaveUp := by
  refine Terms.Triple.sql (q := Stmt.lockBatch k) Unbegun.stable
    (fun _ => .ex fun _ => Working.stable) (fun _ _ => trivial) fun σ x a t hi h hs => ?_
  obtain ⟨hk, hs⟩ := Spec.onlyIf_stmt _ hs
  have hkeyed : σ.store.committed.Keyed := of_decide_eq_true hk
  cases hs
  have hview : σ.store.view p = σ.store.committed := view_of_pending h.idle
  refine ⟨wellLocked_lockRows hi.locked, .inl h.fresh, fun batch e => ?_⟩
  cases e
  refine ⟨σ.store.now p, h.fresh, fun r hr => if_pos (List.mem_map.mpr ⟨r, hr, rfl⟩),
    ⟨batchOf_length _, batchOf_distinct (hview ▸ hkeyed), fun r hr => ?_⟩, rfl, h.idle, ?_⟩
  · obtain ⟨x, hx, rfl, rfl, hnone, -⟩ := batchOf_mem hr
    rw [hview] at hx
    exact ⟨eq_singleton (hkeyed.one _ _) (mem_rowsOf.mp hx), hnone⟩
  · show Function.update σ.ext p _ p = _
    rw [Function.update_self, h.silent]
    rfl

/-- what a drain that returns `m` has done: nothing, as there was nothing to do, or one commit -/
inductive Returned (p : P) (k : Producer) (σ : DrainState P) : Nat → Prop where
  | empty (hc : σ.store.commitsOf p = []) (he : σ.ext p = ⟨[[]], []⟩) : Returned p k σ 0
  | committed (batch : List NotificationOutbox) (n : Nat)
      (h : DrainedOnce p k batch n σ.store.log (σ.ext p)) :
      Returned p k σ ((batch.take n).filterMap publication).length

theorem Returned.congr {m : Nat} {σ τ : DrainState P} (h : Returned p k σ m)
    (hc : τ.store.commitsOf p = σ.store.commitsOf p) (he : τ.ext p = σ.ext p) :
    Returned p k τ m := by
  cases h with
  | empty hn hr => exact .empty (hc.trans hn) (he.trans hr)
  | committed batch n h =>
    obtain ⟨c, now, hone, hb, hd⟩ := h
    rw [← he] at hb hd
    exact .committed batch n ⟨c, now, hc.trans hone, hb, hd⟩

theorem Returned.stable {m : Nat} : (onlyDrains p k).Stable p fun σ => Returned p k σ m :=
  fun _ _ hr _ h => h.congr hr.seen.commitsOf (Eq.symm hr.ext)

/-- what is committed is what the marks make of the table -/
theorem Ready.commit {m : Nat} {σ : DrainState P} (h : Ready p k batch now m σ) :
    ∃ n, m = ((batch.take n).filterMap publication).length ∧
      DrainedOnce p k batch n (σ.store.commit p).log (σ.ext p) := by
  obtain ⟨n, ms, calls, hw, hs, hm⟩ := h
  refine ⟨n, hm, ⟨p, σ.store.committed, σ.store.view p⟩, now, ?_, congrArg Record.batches hw.record,
    ?_⟩
  · show (σ.store.commit p).commitsOf p = _
    rw [commitsOf_commit, hw.fresh]
  · rw [hw.record, Store.view, hw.marks]
    exact hw.selected.drained hs

theorem triple_committing {m : Nat} (text : String) :
    (onlyDrains p k).Triple p (Ready p k batch now m)
      (commit >>= orThrow (.pg text) : Call Row Outcome Err Unit) (fun _ σ => Returned p k σ m)
      gaveUp := by
  refine .bind (B := fun r σ => r = .ok () → Returned p k σ m) (Terms.Triple.commit Ready.stable
    (fun r => .all fun _ => Returned.stable) (fun σ hi h _ => ?_) (fun σ hi h _ => ?_)
    (fun σ _ _ e => nomatch e) fun σ _ _ e => nomatch e) fun r => ?_
  · obtain ⟨n, -, hd⟩ := h.commit
    exact .inr ⟨batch, n, hd⟩
  · obtain ⟨n, rfl, hd⟩ := h.commit
    exact .committed batch n hd
  · exact .orThrow (.all fun _ => Returned.stable) (fun a σ e _ h => h e) fun _ _ _ _ _ => trivial

theorem triple_drainBody : (onlyDrains p k).Triple p (Unbegun p) (drainBody publishing k)
    (fun m σ => Returned p k σ m) gaveUp := by
  refine .bind (triple_select _) fun batch σ h => ?_
  obtain ⟨now, h⟩ := h
  revert σ
  show (onlyDrains p k).Triple p _ _ _ _
  split
  · rename_i hnil
    exact .pure Working.stable fun σ _ h => .empty h.fresh (hnil ▸ h.record)
  · refine .bind (triple_publishBatchOf batch [] rfl) fun m => ?_
    exact .bind (triple_committing _) fun _ => .pure Returned.stable fun _ _ h => h

/-- **a drain** -/
theorem triple_drainOf : (onlyDrains p k).Triple p (Unbegun p) (drainOf publishing k)
    (fun m σ => Returned p k σ m) gaveUp := by
  have hbegin : (onlyDrains p k).Triple p (Unbegun p)
      (begin >>= orThrow (.pg "beginning relay transaction") : Call Row Outcome Err Unit)
      (fun _ => Unbegun p) gaveUp := by
    refine .bind (B := fun _ => Unbegun p) (Terms.Triple.begin Unbegun.stable
      (fun _ => Unbegun.stable) (fun σ n _ h => ⟨h.idle, h.fresh, h.silent⟩) fun _ _ h => h)
      fun a => ?_
    exact .orThrow Unbegun.stable (fun _ _ _ _ h => h) fun _ _ _ _ _ => trivial
  refine .bind hbegin fun _ => .bind_always (.attempt triple_drainBody) fun r => ?_
  cases r with
  | ok m =>
    refine .bind (B := fun _ σ => Returned p k σ m) (Terms.Triple.rollback Terms.Stable.always
      Returned.stable fun σ hi h => ?_) fun _ => .pure Returned.stable fun _ _ h => h
    exact (h.now hi).congr rfl rfl
  | error e =>
    exact .bind (B := fun _ _ => True) (Terms.Triple.rollback Terms.Stable.always
      (Terms.Stable.const True) fun _ _ _ => trivial) fun _ =>
      .throw (Terms.Stable.const True) fun _ _ _ => trivial

end

/-! ## a drain that fails -/

theorem brittle_publishBatchOf (k : Producer) (batch : List NotificationOutbox) (n : Nat) :
    Brittle (publishBatchOf publishing k batch n) := by
  induction batch generalizing n with
  | nil => exact .pure n
  | cons p batch ih =>
    unfold publishBatchOf
    cases p.payload.decode with
    | error e => exact .bind .sql fun _ => ih n
    | ok ns =>
      refine .bind .remote fun r => ?_
      cases r with
      | error e => exact .bind .sql fun _ => .pure n
      | ok _ => exact .bind .sql fun _ => ih (n + 1)

theorem throws_drainBody (k : Producer) : Throws (drainBody publishing k).run := by
  have hselect : Brittle (execOf "reading outbox" (.lockBatch k) : Call Row Outcome Err _) := .sql
  refine hselect.throws.bind hselect.body fun batch => ?_
  split
  · trivial
  · have hloop := brittle_publishBatchOf k batch 0
    exact hloop.throws.bind hloop.body fun m => Throws.commit m

theorem givesUp_drainOf (k : Producer) : GivesUp (drainOf publishing k).run := by
  refine ⟨fun e => ⟨_, rfl⟩, ?_⟩
  exact (throws_drainBody k).givesUp (fun a => ⟨rfl, fun _ => trivial⟩)
    fun e => ⟨rfl, fun _ => ⟨e, rfl⟩⟩

/-! ## runs -/

section
variable {P : Type} [DecidableEq P]

/-- the commands of the others are not in the way of `p` -/
theorem safe_other {p q : P} {k : Producer} (hq : q ≠ p) (m : Call Row Outcome Err Nat)
    (σ : DrainState P) : (onlyDrains p k).contract.Safe q (fun _ _ => True) m.run σ := by
  refine Terms.safe_any (fun {σ r x a t} hi hs => ?_) (fun {σ r x a e} hi hr => ?_)
    (fun {σ} hi => ?_) m.run σ
  · obtain ⟨hk, hs⟩ := Spec.onlyIf_stmt _ hs
    refine ⟨stmt_wellLocked hs hi.locked, ?_⟩
    have hnote : (keyedDrains (P := P)).note q r x σ.store σ.ext p = σ.ext p :=
      note_other (x := x) hq.symm
    have hI := hi.holds
    simp only [onlyDrains] at hI ⊢
    rw [hnote]
    exact hI
  · cases hr
    have hI := hi.holds
    simp only [onlyDrains] at hI ⊢
    rw [Function.update_of_ne hq.symm]
    exact hI
  · have hfilter : (Commit.mk q σ.store.committed (σ.store.view q) :: σ.store.log).filter
        (·.tx = p) = σ.store.log.filter (·.tx = p) := List.filter_cons_of_neg (by simpa using hq)
    have hI := hi.holds
    simp only [onlyDrains, DrainedOnce] at hI ⊢
    rw [hfilter]
    exact hI

variable {progs : P → Call Row Outcome Err Nat} {p : P} {k : Producer} {d₀ : Db} {σ : Outboxes P}

theorem drain_runs (hp : progs p = drainOf publishing k) (h₀ : d₀.Keyed)
    (h : Runs drains.machine (opening progs d₀) σ) :
    (onlyDrains p k).Inv σ.state ∧
      ∀ m, σ.prog p = some (.ret (.ok m)) → Returned p k σ.state m := by
  have hkeyed : Runs keyedDrains.machine (opening progs d₀) σ :=
    Spec.runs_onlyIf h fun υ hr _ _ _ => decide_eq_true (keyed_runs h₀ hr)
  have hunbegun : Unbegun p (opening progs d₀).state := ⟨rfl, rfl, rfl⟩
  have hsafe := triple_drainOf (k := k) _ hunbegun
  have hinv : (onlyDrains p k).Inv (opening progs d₀).state :=
    ⟨fun _ _ hw => absurd hw List.not_mem_nil, .inl rfl⟩
  have hall : ∀ q m, (opening progs d₀).prog q = some m →
      (onlyDrains p k).contract.Safe q (fun _ _ => True) m (opening progs d₀).state := by
    intro q m hm
    cases hm
    by_cases e : q = p
    · subst e
      rw [hp]
      exact Interleave.Safe.mono (fun _ _ _ _ => trivial) hsafe
    · exact safe_other e _ _
  have hprog : (opening progs d₀).prog p = some (drainOf publishing k).run := by
    rw [← hp]
    rfl
  obtain ⟨hi, hend⟩ := (onlyDrains p k).contract.runs_from (Q := fun _ _ _ => True) hkeyed hinv hall
    hprog hsafe
  exact ⟨hi, fun m hm => hend _ hm σ.state ((onlyDrains p k).contract.rely_refl p _) hi⟩

/-- **one drain of the outbox**, whatever the other processes do -/
theorem drain_outbox (hp : progs p = drainOf publishing k) (h₀ : d₀.Keyed)
    (h : Runs drains.machine (opening progs d₀) σ) :
    Chained d₀ σ.state.store.log σ.state.store.committed ∧
    (σ.state.store.commitsOf p = [] ∨
      ∃ batch n, DrainedOnce p k batch n σ.state.store.log (σ.state.ext p)) ∧
    (∀ m, σ.prog p = some (.ret (.ok m)) → Returned p k σ.state m) ∧
    ∀ (τ υ : Outboxes P) (x : Choice (Except String Unit)) (c : Cmd Stmt Publication)
      (next : Ans Row Outcome c → Prog _ _ (Except Err Nat)),
      Runs drains.machine (opening progs d₀) τ → τ.prog p = some (.call c next) → c.Fails x →
      drains.machine.step τ (.exec p x) = some υ → Runs drains.machine υ σ →
        σ.state.store.commitsOf p = [] ∧ ∀ m, σ.prog p ≠ some (.ret (.ok m)) := by
  obtain ⟨hi, hend⟩ := drain_runs hp h₀ h
  refine ⟨Spec.chained_runs h (chained_fresh d₀), hi.holds, hend, ?_⟩
  intro τ υ x c next hτ hc hf hs hσ
  have hprog : (opening progs d₀).prog p = some (drainOf publishing k).run := by
    rw [← hp]
    rfl
  exact (givesUp_drainOf k).fails hprog rfl hτ hc hf hs hσ

end

/-! ### four rows: the second cannot be decoded, and the broker refuses the third -/

def queued (i : UUID) (payload : Payload) : Entry :=
  ⟨.request, ⟨i, i + 10, .requestJoined, payload, i, none, 0, none⟩⟩

def joined : Payload := .notifications [⟨1, "REQUEST_JOINED", "", "Joined", "You joined."⟩]

def fourRows : Db := ⟨[queued 1 joined, queued 2 (.other "1"), queued 3 joined, queued 4 joined]⟩

def oneDrain : Unit → Call Row Outcome Err Nat := fun _ => drainOf publishing .request

/-- the next command, and what becomes of it -/
def turn (fault : Fault) (sent : Except String Unit) : Act Unit (Choice (Except String Unit)) :=
  .exec () ⟨fault, 0, 0, 9, sent⟩

/-- up to the commit -/
def untilCommit : List (Act Unit (Choice (Except String Unit))) :=
  List.replicate 5 (turn .none (.ok ())) ++ [turn .none (.error "closed"), turn .none (.ok ())]

/-- what the drain has returned, and the rows it has left -/
structure Left where
  result : Option (Except Err Nat)
  rows : List (Option Time × Nat × Option String)
  deriving DecidableEq

def leftBy (σ : Outboxes Unit) : Left where
  result :=
    match σ.prog () with
    | some (.ret r) => some r
    | _ => none
  rows := σ.state.store.committed.entries.map fun x =>
    (x.row.publishedAt, x.row.attempts, x.row.lastError)

theorem result_eq {σ : Outboxes Unit} {r : Except Err Nat} (h : (leftBy σ).result = some r) :
    σ.prog () = some (.ret r) := by
  simp only [leftBy] at h
  split at h
  · rename_i r' hr
    rw [hr, Option.some.inj h]
  · cases h

theorem drain_outbox_four : ∃ σ : Outboxes Unit, Runs drains.machine (opening oneDrain fourRows) σ ∧
    Returned () .request σ.state 1 ∧ (leftBy σ).rows = [(some 9, 1, none),
      (some 9, 1, some "cannot unmarshal 1"), (none, 1, some "closed"), (none, 0, none)] := by
  obtain ⟨σ, hr, hσ⟩ := Runs.exists_of_run (M := drains.machine) (σ := opening oneDrain fourRows)
    (untilCommit ++ List.replicate 2 (turn .none (.ok ()))) (f := leftBy)
    (b := ⟨some (.ok 1), [(some 9, 1, none), (some 9, 1, some "cannot unmarshal 1"),
      (none, 1, some "closed"), (none, 0, none)]⟩) (by decide +kernel)
  obtain ⟨-, -, hret, -⟩ := drain_outbox (p := ()) (k := .request) rfl (by decide) hr
  exact ⟨σ, hr, hret 1 (result_eq (congrArg Left.result hσ)), congrArg Left.rows hσ⟩

/-- a commit that takes effect and is not acknowledged: the drain returns an error, and the table
has changed -/
theorem drain_unacknowledged : ∃ σ : Outboxes Unit,
    Runs drains.machine (opening oneDrain fourRows) σ ∧
    σ.prog () = some (.ret (.error (.pg "committing relay transaction" .other))) ∧
    σ.state.store.committed ≠ fourRows := by
  obtain ⟨σ, hr, hσ⟩ := Runs.exists_of_run (M := drains.machine) (σ := opening oneDrain fourRows)
    (untilCommit ++ [turn .lost (.ok ()), turn .none (.ok ())]) (f := leftBy)
    (b := ⟨some (.error (.pg "committing relay transaction" .other)), [(some 9, 1, none),
      (some 9, 1, some "cannot unmarshal 1"), (none, 1, some "closed"), (none, 0, none)]⟩)
    (by decide +kernel)
  refine ⟨σ, hr, result_eq (congrArg Left.result hσ), fun hsame => ?_⟩
  have hrows := congrArg Left.rows hσ
  simp only [leftBy, hsame] at hrows
  exact absurd hrows (by decide)

end Marketplace.Relay
