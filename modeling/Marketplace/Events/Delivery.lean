import Marketplace.Events.Relay

/-!
# What the relays deliver

* `Sourced d m`      some row of the outbox tables has the event id and the payload of `m`;
* `Kept`             every message that is in the queue or on its way has its row, keys and event ids
                     are unique, and no event is empty; if no drain commits before its frames have
                     arrived (`Settles`), every row marked as sent is in the queue;
* `terms`            the contract of producers and relays: a frame that was written is on its way
                     until it arrives, and a locked row stays as it is;
* `Draining`, `Producing`   what a relay and a producer hold between their statements;
* `kept_runs`        `Kept` in every configuration that is reached;
* `outbox_delivered`        **a row marked as sent has been accepted by the broker**, in runs whose
                     drains commit only after their frames have arrived.
-/

set_option linter.unusedSectionVars false

namespace Marketplace.Relay

open Table Events ReadCommitted Interleave
open Service hiding remote

/-! ## the tables -/

/-- the rows that a lock is about -/
def Db.under (d : Db) : Lock → List Entry
  | .row k i => d.rowsOf k i
  | .event e => d.withEvent e

theorem under_same {l : Lock} {d e : Db} (h : Db.sameUnder l d e) :
    (e.under l).length = (d.under l).length := by
  cases l with
  | row k i => exact congrArg List.length h.symm
  | event u => exact h.symm

theorem under_mark (k : Producer) (i : UUID) (m : Mark) (d : Db) (l : Lock) :
    ((Write.apply (.mark k i m) d).under l).length = (d.under l).length := by
  cases l with
  | row k' i' =>
    show ((Write.apply _ d).rowsOf k' i').length = _
    rw [rowsOf_mark, length_updateWhere]
    rfl
  | event u =>
    show ((Write.apply _ d).withEvent u).length = _
    rw [withEvent_mark, length_updateWhere]
    rfl

theorem under_insert (x : Entry) (d : Db) (l : Lock) (h : l ∈ (Write.insert x).takes)
    (hd : d.under l = []) : ((Write.apply (.insert x) d).under l).length ≤ 1 := by
  simp only [Write.takes, List.mem_cons, List.not_mem_nil, or_false] at h
  rcases h with rfl | rfl
  · show ((d.entries ++ [x]).filter _).length ≤ 1
    rw [List.filter_append, show d.entries.filter _ = [] from hd, List.nil_append]
    exact List.length_filter_le _ [x]
  · show ((d.entries ++ [x]).filter _).length ≤ 1
    rw [List.filter_append, show d.entries.filter _ = [] from hd, List.nil_append]
    exact List.length_filter_le _ [x]

def Sourced (d : Db) (m : Message) : Prop :=
  ∃ x ∈ d.entries, x.row.eventID = m.eventID ∧ x.row.payload = m.notifications

/-- every row stays, with its event and payload -/
theorem entries_apply (w : Write) {d : Db} {x : Entry} (hx : x ∈ d.entries) :
    ∃ y ∈ (w.apply d).entries, y.row.eventID = x.row.eventID ∧ y.row.payload = x.row.payload := by
  cases w with
  | insert e => exact ⟨x, List.mem_append_left _ hx, rfl, rfl⟩
  | mark k i m =>
    refine ⟨_, mem_updateWhere.mpr ⟨x, hx, rfl⟩, ?_⟩
    split
    · exact ⟨Mark.set_eventID m x.row, Mark.set_payload m x.row⟩
    · exact ⟨rfl, rfl⟩

theorem Sourced.applyAll {d : Db} {m : Message} (h : Sourced d m) (ws : List Write) :
    Sourced (applyAll ws d) m := by
  refine applyAll_rel (fun d e => Sourced d m → Sourced e m) (fun _ h => h)
    (fun _ _ _ h h' x => h' (h x)) ws (fun w _ d h => ?_) d h
  obtain ⟨x, hx, he, hp⟩ := h
  obtain ⟨y, hy, he', hp'⟩ := entries_apply w hx
  exact ⟨y, hy, he'.trans he, hp'.trans hp⟩

/-- the row is marked as sent -/
def Entry.Sent (x : Entry) : Prop := x.row.publishedAt ≠ none ∧ x.row.lastError = none

/-- the row carries at least one notification -/
def Entry.Full (x : Entry) : Prop := ∃ ns, ns ≠ [] ∧ x.row.payload = .notifications ns

theorem sent_mark {m : Mark} {x : Entry} (h : (x.mark m).Sent) : ∃ now, m = .published now := by
  cases m with
  | published now => exact ⟨now, rfl⟩
  | failed now cause => exact absurd h.2 (Option.some_ne_none _)
  | attempted cause => exact absurd h.2 (Option.some_ne_none _)

/-- the writes of a relay: only a row marked as published becomes sent -/
theorem sent_marks {A : UUID → Prop} (ws : List Write) {d : Db}
    (hw : ∀ w ∈ ws, ∃ k i m, w = .mark k i m ∧ ∀ now, m = .published now →
      ∀ x ∈ d.rowsOf k i, A x.row.eventID)
    (hd : ∀ x ∈ d.entries, x.Sent → A x.row.eventID) :
    ∀ x ∈ (applyAll ws d).entries, x.Sent → A x.row.eventID := by
  induction ws generalizing d with
  | nil => exact hd
  | cons w ws ih =>
    obtain ⟨k, i, m, rfl, hm⟩ := hw w List.mem_cons_self
    refine ih (fun v hv => ?_) fun x hx hs => ?_
    · obtain ⟨k', i', m', rfl, hm'⟩ := hw v (List.mem_cons_of_mem _ hv)
      refine ⟨k', i', m', rfl, fun now e x hx => ?_⟩
      have hx' : x ∈ (Write.apply (.mark k i m) d).rowsOf k' i' := hx
      rw [rowsOf_mark] at hx'
      obtain ⟨y, hy, rfl⟩ := mem_updateWhere.mp hx'
      have hA := hm' now e y hy
      split
      · rw [Entry.mark, Mark.set_eventID]
        exact hA
      · exact hA
    · obtain ⟨y, hy, rfl⟩ := mem_updateWhere.mp hx
      split at hs
      · rename_i hc
        rw [if_pos hc, Entry.mark, Mark.set_eventID]
        obtain ⟨now, e⟩ := sent_mark hs
        exact hm now e y (List.mem_filter.mpr ⟨hy, hc⟩)
      · rename_i hc
        rw [if_neg hc]
        exact hd y hy hs

theorem full_marks (ws : List Write) {d : Db} (hw : ∀ w ∈ ws, ∃ k i m, w = Write.mark k i m)
    (hd : ∀ x ∈ d.entries, x.Full) : ∀ x ∈ (applyAll ws d).entries, x.Full := by
  induction ws generalizing d with
  | nil => exact hd
  | cons w ws ih =>
    obtain ⟨k, i, m, rfl⟩ := hw w List.mem_cons_self
    refine ih (fun v hv => hw v (List.mem_cons_of_mem _ hv)) fun x hx => ?_
    obtain ⟨y, hy, rfl⟩ := mem_updateWhere.mp hx
    obtain ⟨ns, hn, hp⟩ := hd y hy
    split
    · exact ⟨ns, hn, (Mark.set_payload m y.row).trans hp⟩
    · exact ⟨ns, hn, hp⟩

theorem under_marks (ws : List Write) {d : Db} (hw : ∀ w ∈ ws, ∃ k i m, w = Write.mark k i m)
    (l : Lock) : ((applyAll ws d).under l).length = (d.under l).length := by
  induction ws generalizing d with
  | nil => rfl
  | cons w ws ih =>
    obtain ⟨k, i, m, rfl⟩ := hw w List.mem_cons_self
    exact (ih fun v hv => hw v (List.mem_cons_of_mem _ hv)).trans (under_mark k i m d l)

theorem applyAll_inserts (es : List Entry) (d : Db) :
    applyAll (es.map Write.insert) d = ⟨d.entries ++ es⟩ := by
  induction es generalizing d with
  | nil => simp [applyAll]
  | cons e es ih =>
    rw [List.map_cons, applyAll_cons]
    refine (ih _).trans ?_
    show (⟨(d.entries ++ [e]) ++ es⟩ : Db) = _
    rw [List.append_assoc]
    rfl

section
variable {N P : Type} [DecidableEq N] [DecidableEq P]

/-! ## the contract -/

/-- no drain commits before the broker has received the frames it counts as published -/
def Settles (may : P → St P → Broker N P → Bool) : Prop :=
  ∀ p s b, may p s b = true → b.settled p = true

structure Kept (strict : Prop) (d : Db) (b : Broker N P) : Prop where
  sourced : ∀ m, Carries b m → Sourced d m
  distinct : ∀ l, (d.under l).length ≤ 1
  full : ∀ x ∈ d.entries, x.Full
  accepted : strict → ∀ x ∈ d.entries, x.Sent → b.Accepted x.row.eventID

/-- what a remote call writes to a connection -/
def Remote.message : Remote → Option Message
  | .publish m => some m
  | .publishOnce m => some m
  | _ => none

/-- the answer says that the message has been published -/
def Remote.Published (r : Remote) (a : Reply r) (p : P) (b : Broker N P) : Prop :=
  match r, a with
  | .publish m, a => a = .ok () → Reaches p m.eventID b
  | .publishOnce m, a => a = .ok () → Reaches p m.eventID b
  | _, _ => True

variable {replica : P → N} {may : P → St P → Broker N P → Bool}

theorem remote_evolves {p : P} {r : Remote} {x : Choice Network} {b b' : Broker N P} {a : Reply r}
    (h : (spec replica).remote p r x b = some (a, b')) :
    Evolves r.message b b' ∧ r.Published a p b' := by
  have ha : ∀ {c : Reply r × Broker N P}, some c = some (a, b') → a = c.1 ∧ b' = c.2 := by
    rintro c e
    cases e
    exact ⟨rfl, rfl⟩
  cases r with
  | expired =>
    cases h
    exact ⟨.refl b, trivial⟩
  | acquire =>
    obtain ⟨rfl, rfl⟩ := ha h
    exact ⟨.acquire, trivial⟩
  | publish m =>
    obtain ⟨rfl, rfl⟩ := ha h
    exact publish_evolves
  | discard =>
    cases h
    exact ⟨.discard, trivial⟩
  | publishOnce m =>
    obtain ⟨rfl, rfl⟩ := ha h
    exact ⟨publishOnce_evolves.1, fun e => .inl (publishOnce_evolves.2 e)⟩
  | forget =>
    cases h
    exact ⟨.forget, trivial⟩

theorem Kept.evolves {strict : Prop} {d : Db} {b b' : Broker N P} {new : Option Message}
    (h : Kept strict d b) (he : Evolves new b b') (hn : ∀ m, new = some m → Sourced d m) :
    Kept strict d b' where
  sourced m hm := (he.nothing m hm).elim (hn m) (h.sourced m)
  distinct := h.distinct
  full := h.full
  accepted hs x hx hsent := by
    obtain ⟨m, hm, e⟩ := h.accepted hs x hx hsent
    exact ⟨m, he.queue m hm, e⟩

abbrev relay (replica : P → N) (may : P → St P → Broker N P → Bool) :
    Spec P Db Write Lock (Broker N P) Network Row Reply := (spec replica).commitsIf may

def terms (replica : P → N) (may : P → St P → Broker N P → Bool) : Terms (relay replica may) where
  I d _ b := Kept (Settles may) d b
  R p b b' := ∀ e, Reaches p e b → Reaches p e b'
  refl _ _ _ h := h
  trans _ _ _ _ h h' e hr := h' e (h e hr)
  note _ _ h := h
  remote _ hr _ h := (remote_evolves hr).1.reaches h
  env_R hx _ h := (move_evolves hx).reaches h
  env_I hk hx := hk.evolves (move_evolves hx) fun _ e => nomatch e

variable {p : P} {k : Producer}

abbrev RState (N P : Type) := State P Db Write Lock (Broker N P)

/-! ## a relay between its statements -/

/-- the rows it still has to publish are locked, and a row it has marked as published is on its
way -/
structure Draining (p : P) (k : Producer) (rows : List NotificationOutbox) (σ : RState N P) :
    Prop where
  rows : ∀ r ∈ rows, σ.store.locks (.row k r.outboxID) = some p ∧
    ⟨k, r⟩ ∈ σ.store.committed.entries
  marks : ∀ w ∈ σ.store.pending p, ∃ k i m, w = .mark k i m ∧ ∀ now, m = .published now →
    ∀ x ∈ σ.store.committed.rowsOf k i, Reaches p x.row.eventID σ.ext

theorem mem_rowsOf {d : Db} {k : Producer} {r : NotificationOutbox} :
    ⟨k, r⟩ ∈ d.entries ↔ ⟨k, r⟩ ∈ d.rowsOf k r.outboxID := by
  simp [Db.rowsOf, List.mem_filter, Entry.isRow]

theorem Draining.stable {rows : List NotificationOutbox} :
    (terms replica may).Stable p (Draining p k rows) := by
  refine fun σ τ hr hi h => ⟨fun r hm => ?_, fun w hw => ?_⟩
  · obtain ⟨hl, hc⟩ := h.rows r hm
    have hs : σ.store.committed.rowsOf k r.outboxID = τ.store.committed.rowsOf k r.outboxID :=
      hr.seen.same _ hl
    refine ⟨(hr.seen.locks _).mpr hl, mem_rowsOf.mpr ?_⟩
    rw [← hs]
    exact mem_rowsOf.mp hc
  · have hw' := hw
    rw [hr.seen.pending] at hw'
    obtain ⟨k', i, m, rfl, hm⟩ := h.marks w hw'
    have hl : σ.store.locks (.row k' i) = some p :=
      (hr.seen.locks _).mp (hi.locked p _ hw _ (List.mem_singleton_self _))
    have hs : σ.store.committed.rowsOf k' i = τ.store.committed.rowsOf k' i := hr.seen.same _ hl
    refine ⟨k', i, m, rfl, fun now e x hx => hr.ext _ (hm now e x ?_)⟩
    rw [hs]
    exact hx

theorem Draining.fewer {rows rows' : List NotificationOutbox} {σ : RState N P}
    (h : Draining p k rows σ) (hs : rows' ⊆ rows) : Draining p k rows' σ :=
  ⟨fun r hr => h.rows r (hs hr), h.marks⟩

theorem Draining.evolves {rows : List NotificationOutbox} {σ : RState N P} {b : Broker N P}
    {new : Option Message} (h : Draining p k rows σ) (he : Evolves new σ.ext b) :
    Draining p k rows { σ with ext := b } := by
  refine ⟨h.rows, fun w hw => ?_⟩
  obtain ⟨k', i, m, rfl, hm⟩ := h.marks w hw
  exact ⟨k', i, m, rfl, fun now e x hx => he.reaches (hm now e x hx)⟩

/-- the batch is locked as it is read -/
theorem draining_lockRows {σ : RState N P} (hp : σ.store.pending p = []) :
    Draining p k (batchOf σ.store p k)
      { σ with store := St.lockRows σ.store p k (batchOf σ.store p k) } := by
  refine ⟨fun r hr => ⟨?_, ?_⟩, fun w hw => ?_⟩
  · exact if_pos (List.mem_map.mpr ⟨r, hr, rfl⟩)
  · obtain ⟨x, hx, rfl, rfl, -⟩ := batchOf_mem hr
    rw [view_of_pending hp] at hx
    exact hx
  · have hw' : w ∈ σ.store.pending p := hw
    rw [hp] at hw'
    exact absurd hw' List.not_mem_nil

theorem wellLocked_lockRows {s : St P} (h : WellLocked s) :
    WellLocked (s.lockRows p k (batchOf s p k)) := by
  refine lockRows_quiet.wellLocked h fun w hw l hl => ?_
  have hs := h p w hw l hl
  show (if _ then some p else s.locks l) = some p
  split
  · rfl
  · exact hs

/-- one more row is marked -/
theorem Draining.mark {rows : List NotificationOutbox} {r : NotificationOutbox} {m : Mark}
    {σ : RState N P} {t : St P} (h : Draining p k (r :: rows) σ) (hi : (terms replica may).Inv σ)
    (hm : ∀ now, m = .published now → Reaches p r.eventID σ.ext)
    (hw : σ.store.put p (.mark k r.outboxID m) = some t) :
    Draining p k rows { σ with store := t } := by
  have hq := Quiet.put hw
  refine ⟨fun r' hr' => ?_, fun w hw' => ?_⟩
  · obtain ⟨hl, hc⟩ := h.rows r' (List.mem_cons_of_mem _ hr')
    exact ⟨put_keeps hw hl, by rw [hq.committed]; exact hc⟩
  · have hw'' : w ∈ t.pending p := hw'
    rw [put_pending hw] at hw''
    show ∃ k i m, w = .mark k i m ∧ ∀ now, m = .published now →
      ∀ x ∈ t.committed.rowsOf k i, Reaches p x.row.eventID σ.ext
    rw [hq.committed]
    rcases List.mem_append.mp hw'' with hw'' | hw''
    · exact h.marks w hw''
    · refine ⟨k, r.outboxID, m, List.mem_singleton.mp hw'', fun now e x hx => ?_⟩
      have hone : σ.store.committed.rowsOf k r.outboxID = [⟨k, r⟩] :=
        eq_singleton (hi.holds.distinct (.row k r.outboxID))
          (mem_rowsOf.mp (h.rows r List.mem_cons_self).2)
      rw [hone] at hx
      rw [List.mem_singleton.mp hx]
      exact hm now e

theorem wellLocked_mark {s t : St P} {i : UUID} {m : Mark} (h : WellLocked s)
    (hw : s.put p (.mark k i m) = some t) : WellLocked t :=
  wellLocked_put h hw fun _ hl => .inl hl

/-- what a relay commits -/
theorem Draining.commit {rows : List NotificationOutbox} {σ : RState N P}
    (h : Draining p k rows σ) (hi : (terms replica may).Inv σ)
    (hm : may p σ.store σ.ext = true) : Kept (Settles may) (σ.store.view p) σ.ext := by
  have hmarks : ∀ w ∈ σ.store.pending p, ∃ k i m, w = Write.mark k i m := fun w hw => by
    obtain ⟨k', i, m, rfl, -⟩ := h.marks w hw
    exact ⟨k', i, m, rfl⟩
  refine ⟨fun m hc => (hi.holds.sourced m hc).applyAll _, fun l => ?_,
    full_marks _ hmarks hi.holds.full, fun hs => ?_⟩
  · exact (under_marks _ hmarks l).trans_le (hi.holds.distinct l)
  · refine sent_marks _ (fun w hw => ?_) (hi.holds.accepted hs)
    obtain ⟨k', i, m, rfl, hr⟩ := h.marks w hw
    exact ⟨k', i, m, rfl, fun now e x hx => (hr now e x hx).settled (hs p _ _ hm)⟩

/-! ## a relay, statement by statement -/

variable {rows : List NotificationOutbox} {r : NotificationOutbox}

/-- nothing is promised about a call that throws -/
abbrev thrown : Err → RState N P → Prop := fun _ _ => True

theorem reaches_stable (e : UUID) :
    (terms replica may).Stable p fun σ => Reaches p e σ.ext := fun _ _ hr _ h => hr.ext e h

theorem published_stable {r : Remote} (a : Reply r) :
    (terms replica may).Stable p fun σ => r.Published a p σ.ext := by
  intro σ τ hr _ h
  cases r with
  | publish m => exact fun e => hr.ext _ (h e)
  | publishOnce m => exact fun e => hr.ext _ (h e)
  | expired => trivial
  | acquire => trivial
  | discard => trivial
  | forget => trivial

/-- what a relay publishes is one of its rows -/
theorem triple_remote {q : Remote} (hm : ∀ m, q.message = some m →
      ∃ r ∈ rows, r.eventID = m.eventID ∧ r.payload = m.notifications) :
    (terms replica may).Triple p (Draining p k rows) (remote q)
      (fun a σ => Draining p k rows σ ∧ q.Published a p σ.ext) thrown := by
  refine Terms.Triple.remote Draining.stable (fun a => Draining.stable.and (published_stable a))
    fun σ x a b hi h hx => ?_
  obtain ⟨he, hpub⟩ := remote_evolves hx
  refine ⟨hi.holds.evolves he fun m e => ?_, h.evolves he, hpub⟩
  obtain ⟨r, hr, hev, hp⟩ := hm m e
  exact ⟨⟨k, r⟩, (h.rows r hr).2, hev, hp⟩

/-- a call that publishes `r`, or reports an error -/
abbrev Publishes (replica : P → N) (may : P → St P → Broker N P → Bool) (p : P) (k : Producer)
    (r : NotificationOutbox) (rows : List NotificationOutbox) (m : Op (Except String Unit)) : Prop :=
  (terms replica may).Triple p (Draining p k (r :: rows)) m
    (fun a σ => Draining p k (r :: rows) σ ∧ (a = .ok () → Reaches p r.eventID σ.ext)) thrown

theorem triple_error (e : String) :
    Publishes replica may p k r rows (pure (.error e)) :=
  .pure Draining.stable fun _ _ h => ⟨h, fun e => nomatch e⟩

theorem triple_attempts {m : Message} (he : r.eventID = m.eventID)
    (hp : r.payload = m.notifications) (lastErr : String) (n : Nat) :
    Publishes replica may p k r rows (attempts m lastErr n) := by
  induction n generalizing lastErr with
  | zero => exact triple_error _
  | succ n ih =>
    have hnone : ∀ q : Remote, q.message = none → ∀ m', q.message = some m' →
        ∃ r' ∈ r :: rows, r'.eventID = m'.eventID ∧ r'.payload = m'.notifications :=
      fun q hq m' e => nomatch hq.symm.trans e
    have hagain : ∀ e, Publishes replica may p k r rows (remote .discard >>= fun _ => attempts m e n) :=
      fun e => .bind (triple_remote (hnone _ rfl)) fun _ => (ih e).pre fun _ h => h.1
    unfold attempts
    refine .bind (triple_remote (hnone _ rfl)) fun expired => ?_
    refine Terms.Triple.pre (B := Draining p k (r :: rows)) ?_ fun _ h => h.1
    split
    · exact triple_error _
    · refine .bind (triple_remote (hnone _ rfl)) fun a => ?_
      refine Terms.Triple.pre (B := Draining p k (r :: rows)) ?_ fun _ h => h.1
      cases a with
      | error e => exact hagain e
      | ok _ =>
        refine .bind (triple_remote (q := .publish m) fun m' e => ?_) fun a => ?_
        · cases e
          exact ⟨r, List.mem_cons_self, he, hp⟩
        · cases a with
          | error e => exact (hagain e).pre fun _ h => h.1
          | ok _ =>
            refine .pure (Draining.stable.and (published_stable (r := .publish m) _))
              fun σ _ h => ⟨h.1, fun _ => ?_⟩
            rw [he]
            exact h.2 rfl

/-- the rows that are drained carry notifications -/
theorem Draining.full {σ : RState N P} (h : Draining p k (r :: rows) σ)
    (hi : (terms replica may).Inv σ) : r.payload ≠ .notifications [] := by
  obtain ⟨ns, hn, hp⟩ := hi.holds.full _ (h.rows r List.mem_cons_self).2
  intro e
  rw [show r.payload = _ from hp] at e
  exact hn (Payload.notifications.inj e)

theorem triple_publishEvent {ns : List Notification} (hd : r.payload = .notifications ns) :
    Publishes replica may p k r rows (publishEvent k r.eventID r.routingKey ns) := by
  unfold publishEvent
  split
  · rename_i hn
    refine .pure Draining.stable fun σ hi h => absurd ?_ (h.full hi)
    rw [hd, hn]
  · exact triple_attempts rfl hd _ _

theorem triple_attemptsPython {m : Message} (he : r.eventID = m.eventID)
    (hp : r.payload = m.notifications) (last : String) (n : Nat) :
    Publishes replica may p k r rows (attemptsPython m last n) := by
  induction n generalizing last with
  | zero => exact triple_error _
  | succ n ih =>
    unfold attemptsPython
    refine .bind (triple_remote (q := .publishOnce m) fun m' e => ?_) fun a => ?_
    · cases e
      exact ⟨r, List.mem_cons_self, he, hp⟩
    · cases a with
      | error e =>
        refine .bind (B := fun _ => Draining p k (r :: rows)) ?_ fun _ => ih e
        refine (triple_remote (q := .forget) fun m' e => nomatch e).weaken (fun _ h => h.1)
          (fun _ _ _ h => h.1) fun _ _ _ _ => trivial
      | ok _ =>
        refine .pure (Draining.stable.and (published_stable (r := .publishOnce m) _))
          fun σ _ h => ⟨h.1, fun _ => ?_⟩
        rw [he]
        exact h.2 rfl

theorem triple_publishEventPython :
    Publishes replica may p k r rows (publishEventPython k r) := by
  unfold publishEventPython
  split
  · rename_i hn
    exact .pure Draining.stable fun σ hi h => absurd hn (h.full hi)
  · exact triple_attemptsPython rfl rfl _ _

/-- marking the next row -/
theorem triple_mark (rows : List NotificationOutbox) {text : String} {q : Stmt}
    {m : Choice Network → Time → Mark}
    {A : RState N P → Prop} (hA : (terms replica may).Stable p A)
    (hq : ∀ x s, ∃ u : Row q, stmt p q x s = St.writing s p (.mark k r.outboxID (m x (s.now p))) u)
    (hd : ∀ σ, A σ → Draining p k (r :: rows) σ)
    (hr : ∀ x t now σ, m x t = .published now → A σ → Reaches p r.eventID σ.ext) :
    (terms replica may).Triple p A (exec text q) (fun _ => Draining p k rows) thrown := by
  refine Terms.Triple.sql hA (fun _ => Draining.stable) (fun _ _ => trivial)
    fun σ x a t hi h hs => ?_
  obtain ⟨u, hu⟩ := hq x σ.store
  have hput := (writing_eq (hu.symm.trans hs)).2
  exact ⟨wellLocked_mark hi.locked hput, hi.holds, fun _ _ =>
    (hd σ h).mark hi (fun now e => hr _ _ now σ e h) hput⟩

/-- a relay that has come to its commit -/
abbrev Drains (replica : P → N) (may : P → St P → Broker N P → Bool) (p : P) (k : Producer)
    (rows : List NotificationOutbox) (m : Op Nat) : Prop :=
  (terms replica may).Triple p (Draining p k rows) m (fun _ => Draining p k []) thrown

/-- a row that could not be sent ends the batch -/
theorem triple_giveUp (text cause : String) (n : Nat) :
    Drains replica may p k (r :: rows) (exec text (.recordAttempt k r.outboxID cause) >>=
      fun _ => pure n) := by
  refine .bind (triple_mark rows (m := fun _ _ => .attempted cause) Draining.stable
    (fun _ _ => ⟨(), rfl⟩) (fun _ h => h) fun _ _ _ _ e => nomatch e) fun _ => ?_
  exact .pure Draining.stable fun _ _ h => h.fewer (List.nil_subset _)

theorem triple_publishBatch (n : Nat) : Drains replica may p k rows (publishBatch k rows n) := by
  induction rows generalizing n with
  | nil => exact .pure Draining.stable fun _ _ h => h
  | cons r rows ih =>
    unfold publishBatch
    split
    · rename_i e _
      exact .bind (triple_mark rows (m := fun _ t => .failed t e) Draining.stable
        (fun _ _ => ⟨(), rfl⟩) (fun _ h => h) fun _ _ _ _ e => nomatch e) fun _ => ih n
    · rename_i ns hns
      have hp : r.payload = .notifications ns := by
        cases hr : r.payload with
        | notifications ms =>
          rw [hr] at hns
          rw [Except.ok.inj hns]
        | other raw =>
          rw [hr] at hns
          cases hns
      refine .bind (triple_publishEvent hp) fun a => ?_
      cases a with
      | error e => exact (triple_giveUp _ e n).pre fun _ h => h.1
      | ok _ =>
        exact .bind (triple_mark rows (m := fun _ t => .published t)
          (Draining.stable.and (.all fun _ => reaches_stable _)) (fun _ _ => ⟨(), rfl⟩)
          (fun _ h => h.1) fun _ _ _ _ _ h => h.2 rfl) fun _ => ih (n + 1)

theorem triple_publishBatchPython (n : Nat) :
    Drains replica may p k rows (publishBatchPython k rows n) := by
  induction rows generalizing n with
  | nil => exact .pure Draining.stable fun _ _ h => h
  | cons r rows ih =>
    unfold publishBatchPython
    refine .bind triple_publishEventPython fun a => ?_
    cases a with
    | error e => exact (triple_giveUp _ e n).pre fun _ h => h.1
    | ok _ =>
      exact .bind (triple_mark rows (m := fun x _ => .published x.now)
        (Draining.stable.and (.all fun _ => reaches_stable _)) (fun _ _ => ⟨(), rfl⟩)
        (fun _ h => h.1) fun _ _ _ _ _ h => h.2 rfl) fun _ => ih (n + 1)

/-- no transaction is open -/
def Idle (p : P) (σ : RState N P) : Prop := σ.store.pending p = []

theorem Idle.stable : (terms replica may).Stable p (Idle p) := Terms.Stable.pending (· = [])

theorem true_stable {A : Prop} : (terms replica may).Stable p fun _ => A := Terms.Stable.const A

theorem triple_begin (text : String) : (terms replica may).Triple p (Idle p)
    (begin >>= orThrow (.pg text) : Op Unit) (fun _ => Idle p) thrown := by
  refine .bind (B := fun _ => Idle p) (Terms.Triple.begin Idle.stable (fun _ => Idle.stable)
    (fun _ _ _ h => h) fun _ _ h => h) fun a => ?_
  exact .orThrow Idle.stable (fun _ _ _ _ h => h) fun _ _ _ _ _ => trivial

theorem triple_closing {α : Type} {A : RState N P → Prop} {body : Op α}
    (h : (terms replica may).Triple p A body (fun _ _ => True) thrown) :
    (terms replica may).Triple p A (closing body) (fun _ _ => True) thrown := by
  refine .bind_always (.attempt h) fun a => ?_
  have hroll : (terms replica may).Triple p ((terms replica may).always p (Terms.ends
      (fun _ _ => True) thrown a)) (rollback : Op Unit) (fun _ _ => True) thrown :=
    Terms.Triple.rollback Terms.Stable.always true_stable fun _ _ _ => trivial
  cases a with
  | ok a => exact .bind hroll fun _ => .pure true_stable fun _ _ h => h
  | error e => exact .bind hroll fun _ => .throw true_stable fun _ _ h => h

theorem triple_commit (text : String) : (terms replica may).Triple p (Draining p k [])
    (commit >>= orThrow (.pg text) : Op Unit) (fun _ _ => True) thrown := by
  refine .bind (B := fun _ _ => True) (Terms.Triple.commit Draining.stable (fun _ => true_stable)
    (fun σ hi h hm => h.commit hi hm) (fun _ _ _ => trivial) (fun _ _ _ => trivial)
    fun _ _ _ => trivial) fun a => ?_
  exact .orThrow true_stable (fun _ _ _ _ h => h) fun _ _ _ _ _ => trivial

theorem triple_lockBatch (text : String) : (terms replica may).Triple p (Idle p)
    (exec text (.lockBatch k)) (fun batch => Draining p k batch) thrown := by
  refine Terms.Triple.sql (q := Stmt.lockBatch k) Idle.stable (fun _ => Draining.stable)
    (fun _ _ => trivial) fun σ x a t hi h hs => ?_
  cases hs
  refine ⟨wellLocked_lockRows hi.locked, hi.holds, fun batch e => ?_⟩
  cases e
  exact draining_lockRows h

theorem triple_drain : (terms replica may).Triple p (Idle p) (drain k) (fun _ _ => True)
    thrown := by
  refine .bind (triple_begin _) fun _ => triple_closing (.bind (triple_lockBatch _) fun batch => ?_)
  split
  · exact .pure Draining.stable fun _ _ _ => trivial
  · exact .bind (triple_publishBatch 0) fun n => .bind (triple_commit _) fun _ =>
      .pure true_stable fun _ _ h => h

theorem triple_drainPython : (terms replica may).Triple p (Idle p) (drainPython k)
    (fun _ _ => True) thrown := by
  refine .bind (triple_begin _) fun _ => triple_closing (.bind (triple_lockBatch _) fun batch => ?_)
  split
  · exact .pure Draining.stable fun _ _ _ => trivial
  · exact .bind (triple_publishBatchPython 0) fun n => .bind (triple_commit _) fun _ =>
      .pure true_stable fun _ _ h => h

/-! ## a producer -/

/-- it has inserted events that are not empty, and every key and event id is still unique -/
structure Producing (p : P) (σ : RState N P) : Prop where
  inserts : ∃ es : List Entry, σ.store.pending p = es.map .insert ∧
    ∀ x ∈ es, x.row.publishedAt = none ∧ x.Full
  distinct : ∀ l, ((σ.store.view p).under l).length ≤ 1

/-- what is not locked is as it was committed -/
theorem Producing.stable : (terms replica may).Stable p (Producing p) := by
  refine fun σ τ hr hi h => ⟨by rw [hr.seen.pending]; exact h.inserts, fun l => ?_⟩
  by_cases hl : σ.store.locks l = some p
  · exact (under_same (hr.seen.view hl)).trans_le (h.distinct l)
  · have hsame : Schema.same Write l τ.store.committed (τ.store.view p) := by
      refine same_applyAll _ (fun w hw hg => hl ?_) _
      exact (hr.seen.locks l).mp (hi.locked p w hw l hg)
    exact (under_same hsame).trans_le (hi.holds.distinct l)

theorem Producing.begin {σ : RState N P} (h : Idle p σ) (hi : (terms replica may).Inv σ) (n : Nat) :
    Producing p { σ with store := σ.store.begin p n } := by
  have hp : (σ.store.begin p n).pending p = [] := h
  refine ⟨⟨[], hp, fun _ hx => absurd hx List.not_mem_nil⟩, fun l => ?_⟩
  show (((σ.store.begin p n).view p).under l).length ≤ 1
  rw [view_of_pending hp]
  exact hi.holds.distinct l

theorem Producing.insert {σ : RState N P} {x : Entry} {t : St P} (h : Producing p σ)
    (hn : x.row.publishedAt = none) (hf : x.Full)
    (hrow : (σ.store.view p).rowsOf x.producer x.row.outboxID = [])
    (hev : (σ.store.view p).withEvent x.row.eventID = [])
    (hw : σ.store.put p (.insert x) = some t) : Producing p { σ with store := t } := by
  refine ⟨?_, fun l => ?_⟩
  · obtain ⟨es, hes, hall⟩ := h.inserts
    refine ⟨es ++ [x], ?_, fun y hy => ?_⟩
    · show t.pending p = _
      rw [put_pending hw, hes, List.map_append]
      rfl
    · rcases List.mem_append.mp hy with hy | hy
      · exact hall y hy
      · rw [List.mem_singleton.mp hy]
        exact ⟨hn, hf⟩
  · show ((t.view p).under l).length ≤ 1
    rw [put_view hw]
    by_cases hl : l ∈ (Write.insert x).takes
    · refine under_insert x _ l hl ?_
      simp only [Write.takes, List.mem_cons, List.not_mem_nil, or_false] at hl
      rcases hl with rfl | rfl
      · exact hrow
      · exact hev
    · exact (under_same (sameUnder_apply _ hl)).trans_le (h.distinct l)

/-- what a producer commits -/
theorem Producing.commit {σ : RState N P} (h : Producing p σ) (hi : (terms replica may).Inv σ) :
    Kept (Settles may) (σ.store.view p) σ.ext := by
  obtain ⟨es, hes, hall⟩ := h.inserts
  have hview : σ.store.view p = ⟨σ.store.committed.entries ++ es⟩ := by
    rw [Store.view, hes, applyAll_inserts]
  refine ⟨fun m hc => (hi.holds.sourced m hc).applyAll _, h.distinct, fun x hx => ?_,
    fun hs x hx hsent => ?_⟩
  · rw [hview] at hx
    rcases List.mem_append.mp hx with hx | hx
    · exact hi.holds.full x hx
    · exact (hall x hx).2
  · rw [hview] at hx
    rcases List.mem_append.mp hx with hx | hx
    · exact hi.holds.accepted hs x hx hsent
    · exact absurd (hall x hx).1 hsent.1

theorem triple_enqueue (key : RoutingKey) (ns : List Notification) :
    (terms replica may).Triple p (Producing p) (enqueue k key ns) (fun _ => Producing p) thrown := by
  unfold enqueue
  split
  · exact .pure Producing.stable fun _ _ h => h
  · rename_i hn
    refine Terms.Triple.sql (q := Stmt.insertOutbox k key ns) Producing.stable
      (fun _ => Producing.stable) (fun _ _ => trivial) fun σ x a t hi h hs => ?_
    rcases insertOutbox_eq hs with ⟨rfl, rfl⟩ | ⟨rfl, hrow, hev, hw⟩
    · exact ⟨hi.locked, hi.holds, fun _ e => nomatch e⟩
    · refine ⟨wellLocked_put hi.locked hw fun _ hl => .inl hl, hi.holds, fun _ _ => ?_⟩
      exact h.insert rfl ⟨ns, hn, rfl⟩ hrow hev hw

theorem triple_enqueueAll (events : List (RoutingKey × List Notification)) :
    (terms replica may).Triple p (Producing p) (enqueueAll k events) (fun _ => Producing p)
      thrown := by
  induction events with
  | nil => exact .pure Producing.stable fun _ _ h => h
  | cons ev evs ih => exact .bind (triple_enqueue ev.1 ev.2) fun _ => ih

theorem triple_produce (events : List (RoutingKey × List Notification)) :
    (terms replica may).Triple p (Idle p) (produce k events) (fun _ _ => True) thrown :=
  .inTx Idle.stable (B := fun σ => Producing p σ) Producing.stable (fun _ => true_stable)
    (fun _ => true_stable) (fun _ n hi h => Producing.begin h hi n) (triple_enqueueAll events)
    (fun _ _ _ _ => trivial) (fun _ _ hi h => ⟨h.commit hi, trivial⟩) (fun _ _ => trivial)
    fun _ _ => trivial

/-! ## runs -/

theorem triple_op (inv : Invocation) :
    (terms replica may).Triple p (Idle p) inv.op (fun _ _ => True) thrown := by
  cases inv with
  | produce k events => exact .bind (triple_produce events) fun _ => .pure true_stable fun _ _ h => h
  | drain k => exact triple_drain
  | drainPython k => exact triple_drainPython

theorem kept_start (strict : Prop) : Kept strict Db.empty (Broker.start : Broker N P) where
  sourced m h := by simp [Carries, Broker.start] at h
  distinct l := by cases l <;> exact Nat.zero_le 1
  full x hx := absurd hx List.not_mem_nil
  accepted _ x hx := absurd hx List.not_mem_nil

/-- the outbox and the broker agree in every configuration that is reached -/
theorem kept_runs (may : P → St P → Broker N P → Bool) {calls : P → Invocation} {τ : Config N P}
    (h : Runs (relay replica may).machine (start calls) τ) :
    Kept (Settles may) τ.state.store.committed τ.state.ext := by
  refine ((terms replica may).contract.runs (Q := fun _ => Terms.ends (fun _ _ => True) (thrown (N := N) (P := P))) h
    ⟨fun p w hw => absurd hw List.not_mem_nil, kept_start _⟩ fun p m hm => ?_).1.holds
  cases hm
  exact triple_op (calls p) _ rfl

/-- what the queue has accepted stays accepted -/
theorem queue_step (may : P → St P → Broker N P → Bool) {σ τ : Config N P}
    {a : Act P (Choice Network)}
    (h : (relay replica may).machine.step σ a = some τ) :
    ∀ m ∈ σ.state.ext.queue, m ∈ τ.state.ext.queue := by
  rcases Spec.step_ext h with e | ⟨_, _, _, e⟩ | ⟨p, r, x, b, hr⟩ | ⟨x, hx⟩
  · rw [e]
    exact fun _ h => h
  · rw [e]
    exact fun _ h => h
  · exact (remote_evolves hr).1.queue
  · exact (move_evolves hx).queue

/-- a message of the queue has one row in the outbox tables, with its event and payload -/
theorem Kept.outbox {strict : Prop} {d : Db} {b : Broker N P} (hk : Kept strict d b) {m : Message}
    (hm : m ∈ b.queue) : ∃ x, d.withEvent m.eventID = [x] ∧ x.row.payload = m.notifications := by
  obtain ⟨y, hy, hid, hpay⟩ := hk.sourced m (.inl hm)
  exact ⟨y, eq_singleton (hk.distinct (.event m.eventID))
    (List.mem_filter.mpr ⟨hy, beq_iff_eq.mpr hid⟩), hpay⟩

/-- **a row marked as sent has been accepted by the broker**: if a drain commits only once the
broker has received every frame that the drain counts as published, every row with a `published_at`
and without a `last_error` was stored in the durable queue, under its event id and as it is -/
theorem outbox_delivered {calls : P → Invocation} {τ : Config N P}
    (h : Runs ((spec replica).commitsIf fun p _ b => b.settled p).machine (start calls) τ)
    {x : Entry} (hx : x ∈ τ.state.store.committed.entries) (hp : x.row.publishedAt ≠ none)
    (he : x.row.lastError = none) :
    ∃ m ∈ τ.state.ext.queue, m.eventID = x.row.eventID ∧ m.notifications = x.row.payload := by
  have hk := kept_runs _ h
  obtain ⟨m, hm, hid⟩ := hk.accepted (fun _ _ _ h => h) x hx ⟨hp, he⟩
  obtain ⟨y, hy, hpay⟩ := hk.outbox hm
  have hxy : x ∈ τ.state.store.committed.withEvent m.eventID :=
    List.mem_filter.mpr ⟨hx, beq_iff_eq.mpr hid.symm⟩
  rw [hy] at hxy
  refine ⟨m, hm, hid, ?_⟩
  rw [← hpay, List.mem_singleton.mp hxy]

end

/-! ### one event, one relay -/

/-- a join is announced, and a relay of request-service drains the outbox -/
def joinAndDrain : Bool → Invocation
  | false => .produce .request
      [(.requestJoined, [⟨1, "REQUEST_JOINED", "", "Request joined", "You joined."⟩])]
  | true => .drain .request

def go (p : Bool) : Act Bool (Choice Network) :=
  .exec p ⟨.none, 7, 8, 3, ⟨false, true, .done, .receive 0⟩⟩

def network (m : Move) : Act Bool (Choice Network) :=
  .env ⟨.none, 0, 0, 0, ⟨false, true, .done, m⟩⟩

/-- up to the frame that the relay writes -/
def frameWritten : List (Act Bool (Choice Network)) :=
  List.replicate 3 (go false) ++ List.replicate 5 (go true)

/-- the rows marked as sent, and the events in the queue -/
def sentAndQueued (σ : Config Unit Bool) : List UUID × List UUID :=
  ((σ.state.store.committed.entries.filter fun x =>
      x.row.publishedAt != none && x.row.lastError == none).map (·.row.eventID),
    σ.state.ext.queue.map (·.eventID))

theorem sentAndQueued_eq {σ : Config Unit Bool} {e : UUID} {q : List UUID}
    (h : sentAndQueued σ = ([e], q)) : ∃ x ∈ σ.state.store.committed.entries,
      x.row.publishedAt ≠ none ∧ x.row.lastError = none ∧ x.row.eventID = e := by
  obtain ⟨h1, -⟩ := Prod.mk.inj h
  obtain ⟨x, hx, rfl⟩ := List.mem_map.mp (h1 ▸ List.mem_singleton_self e)
  obtain ⟨hm, hc⟩ := List.mem_filter.mp hx
  simp only [Bool.and_eq_true, bne_iff_ne, ne_eq, beq_iff_eq] at hc
  exact ⟨x, hm, hc.1, hc.2, rfl⟩

theorem outbox_delivered_once :
    ∃ σ : Config Unit Bool,
      Runs ((spec fun _ => ()).commitsIf fun p _ b => b.settled p).machine (start joinAndDrain) σ ∧
      (∃ x ∈ σ.state.store.committed.entries, x.row.publishedAt ≠ none ∧
        x.row.lastError = none ∧ x.row.eventID = 8) ∧
      ∃ m ∈ σ.state.ext.queue, m.eventID = 8 := by
  obtain ⟨σ, hr, hσ⟩ := Runs.exists_of_run
    (M := ((spec fun _ : Bool => ()).commitsIf fun p _ b => b.settled p).machine)
    (σ := start joinAndDrain) (frameWritten ++ [network (.receive 0)] ++ List.replicate 2 (go true))
    (f := sentAndQueued) (b := ([8], [8])) (by decide)
  obtain ⟨x, hx, hp, he, hid⟩ := sentAndQueued_eq hσ
  obtain ⟨m, hm, hm', -⟩ := outbox_delivered hr hx hp he
  exact ⟨σ, hr, ⟨x, hx, hp, he, hid⟩, m, hm, hm'.trans hid⟩

/-- without the condition a row is marked as sent although the broker never gets the event -/
theorem published_in_vain :
    ∃ σ : Config Unit Bool, Runs (spec fun _ => ()).machine (start joinAndDrain) σ ∧
      ∃ x ∈ σ.state.store.committed.entries, x.row.publishedAt ≠ none ∧ x.row.lastError = none ∧
        ¬ ∃ m ∈ σ.state.ext.queue, m.eventID = x.row.eventID := by
  obtain ⟨σ, hr, hσ⟩ := Runs.exists_of_run (M := (spec fun _ : Bool => ()).machine)
    (σ := start joinAndDrain) (frameWritten ++ [network (.drop 0)] ++ List.replicate 2 (go true))
    (f := sentAndQueued) (b := ([8], [])) (by decide)
  obtain ⟨x, hx, hp, he, -⟩ := sentAndQueued_eq hσ
  refine ⟨σ, hr, x, hx, hp, he, ?_⟩
  rintro ⟨m, hm, -⟩
  rw [List.map_eq_nil_iff.mp (Prod.mk.inj hσ).2] at hm
  exact absurd hm List.not_mem_nil

end Marketplace.Relay
