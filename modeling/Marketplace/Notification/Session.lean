import Marketplace.Notification.Service

/-!
# notification-service: what a session writes

The calls are followed statement by statement, for any contract of the service.

* `Content`, `Db.contentsOf`   what a notification tells its user, and what is stored for an event;
* `Built`            the drafts that `_build` makes; they pass the constraints (`Built.checks`,
                     `Built.fits`);
* `Sessions T`       the statements are those of notification-service, and the contract `T` knows
                     which events have been committed (`Handled`);
* `Write.Ready`, `Writing`   what a call holds between its statements: its own writes, their locks,
                     and what the statements have found under them;
* `Commits T M W`    the contract `T` allows the commit of such writes;
* `Errors`, `Fails`   an IntegrityError says that the event has been committed before;
* `triple_createBulk`, `triple_recordEvent`, `triple_consume`   the calls.
-/

set_option linter.unusedSectionVars false

namespace Marketplace.Notifications

open Table Events ReadCommitted Interleave
open Service hiding begin commit remote

/-! ## the tables -/

structure Content where
  userID : UUID
  type : String
  channel : Channel
  title : String
  message : String
  deriving DecidableEq, Repr

def Draft.content (n : Draft) : Content := ⟨n.userID, n.type, n.channel, n.title, n.message⟩

def NotificationRow.content (r : NotificationRow) : Content := r.draft.content

/-- what is stored for an event -/
def Db.contentsOf (d : Db) (e : UUID) : List Content := (d.storedOf e).map NotificationRow.content

theorem contentsOf_insert (rows : List NotificationRow) (d : Db) (e : UUID) :
    ((Write.insertNotifications rows).apply d).contentsOf e =
      d.contentsOf e ++ (rows.filter (·.event == some e)).map NotificationRow.content := by
  show ((d.notifications ++ rows).filter _).map _ = _
  rw [List.filter_append, List.map_append]
  rfl

theorem contentsOf_setStatus (i : UUID) (st : NotificationStatus) (d : Db) (e : UUID) :
    ((Write.setStatus i st).apply d).contentsOf e = d.contentsOf e := by
  show ((updateWhere _ _ d.notifications).filter _).map _ = _
  rw [filter_updateWhere _ _ _ (by intro x _; rfl)]
  exact map_updateWhere _ _ _ (by intro x _; rfl) _

theorem processedOf_insert (pe : ProcessedEvent) (d : Db) (e : UUID) :
    ((Write.insertProcessed pe).apply d).processedOf e =
      d.processedOf e ++ if pe.eventID = e then [pe] else [] := by
  show (d.processed ++ [pe]).filter _ = _
  rw [List.filter_append, List.filter_cons, List.filter_nil]
  simp only [beq_iff_eq]
  rfl

/-- only an INSERT into processed_event changes that table -/
theorem processedOf_applyAll (ws : List Write) (d : Db) (e : UUID)
    (h : ∀ pe, .insertProcessed pe ∉ ws) : (applyAll ws d).processedOf e = d.processedOf e := by
  induction ws generalizing d with
  | nil => rfl
  | cons w ws ih =>
    rw [applyAll_cons, ih _ fun pe hpe => h pe (List.mem_cons_of_mem _ hpe)]
    cases w with
    | insertNotifications rows => rfl
    | insertProcessed pe => exact absurd List.mem_cons_self (h pe)
    | setStatus i st => rfl

theorem rowsOf_insert (rows : List NotificationRow) (d : Db) (i : UUID) :
    ((Write.insertNotifications rows).apply d).rowsOf i =
      d.rowsOf i ++ rows.filter (·.notificationID == i) := List.filter_append ..

theorem rowsOf_setStatus (j : UUID) (st : NotificationStatus) (d : Db) (i : UUID) :
    ((Write.setStatus j st).apply d).rowsOf i =
      updateWhere (·.notificationID == j) (NotificationRow.withStatus st) (d.rowsOf i) :=
  filter_updateWhere _ _ _ (by intro x _; rfl) _

/-- no row is deleted -/
theorem rowsOf_applyAll_nil (ws : List Write) (d : Db) (i : UUID)
    (h : (applyAll ws d).rowsOf i = []) : d.rowsOf i = [] := by
  refine applyAll_rel (fun d e : Db => e.rowsOf i = [] → d.rowsOf i = []) (fun _ h => h)
    (fun _ _ _ h h' he => h (h' he)) ws (fun w _ d hd => ?_) d h
  cases w with
  | insertNotifications rows =>
    rw [show (Schema.apply (Write.insertNotifications rows) d : Db).rowsOf i = _ from
      rowsOf_insert rows d i] at hd
    exact (List.append_eq_nil_iff.mp hd).1
  | insertProcessed pe => exact hd
  | setStatus j st =>
    rw [show (Schema.apply (Write.setStatus j st) d : Db).rowsOf i = _ from
      rowsOf_setStatus j st d i] at hd
    exact List.map_eq_nil_iff.mp hd

theorem find_eq (d : Db) (i : UUID) : d.find i = (d.rowsOf i).head? := (List.head?_filter ..).symm

theorem find_id {d : Db} {i : UUID} {r : NotificationRow} (h : d.find i = some r) :
    r.notificationID = i :=
  beq_iff_eq.mp (List.find?_some (p := fun r : NotificationRow => r.notificationID == i) h)

/-! ### the rows of one INSERT -/

section
variable {first : UUID} {now : Time} {event : Option UUID} {drafts : List Draft}

/-- they are all made for the same event -/
theorem newRows_event {r : NotificationRow} (h : r ∈ newRows first now event drafts) :
    r.event = event := by
  obtain ⟨n, -, rfl⟩ := List.mem_map.mp h
  rfl

theorem newRows_draft {r : NotificationRow} (h : r ∈ newRows first now event drafts) :
    r.draft ∈ drafts := by
  obtain ⟨n, hn, rfl⟩ := List.mem_map.mp h
  exact List.fst_mem_of_mem_zipIdx hn

/-- and have different ids -/
theorem newRows_ids (first : UUID) (now : Time) (event : Option UUID) (drafts : List Draft) :
    ((newRows first now event drafts).map (·.notificationID)).Nodup := by
  have hids : (newRows first now event drafts).map (·.notificationID) =
      (List.range' 0 drafts.length).map (first + ·) := by
    unfold newRows
    rw [List.map_map, ← List.zipIdx_map_snd 0 drafts, List.map_map]
    rfl
  rw [hids]
  exact List.Nodup.map (fun _ _ h => Nat.add_left_cancel h) List.nodup_range'

theorem newRows_content (first : UUID) (now : Time) (event : Option UUID) (drafts : List Draft) :
    (newRows first now event drafts).map NotificationRow.content = drafts.map Draft.content := by
  unfold newRows
  rw [List.map_map]
  show drafts.zipIdx.map (Draft.content ∘ Prod.fst) = _
  rw [← List.map_map, List.zipIdx_map_fst]

theorem filter_newRows (e : UUID) :
    (newRows first now event drafts).filter (·.event == some e) =
      if event = some e then newRows first now event drafts else [] := by
  split
  · rename_i h
    refine List.filter_eq_self.mpr fun r hr => ?_
    rw [newRows_event hr, h]
    exact beq_self_eq_true _
  · rename_i h
    refine List.filter_eq_nil_iff.mpr fun r hr he => h ?_
    rw [← newRows_event hr]
    exact beq_iff_eq.mp he

end

/-! ## what is built passes the constraints -/

/-- the drafts that `_build` makes; what goes to the inbox is sent at once -/
def Built (c : NotificationCreate) (n : Draft) : Prop :=
  ∃ sent, n = build c sent ∧ (c.channel = .IN_APP ↔ sent ≠ none)

theorem Built.checks {c : NotificationCreate} {n : Draft} (h : Built c n) : n.checks = true := by
  obtain ⟨sent, rfl, -⟩ := h
  have htitle : 0 < (Request.btrim c.title.val.toList).length := by
    refine List.length_pos_iff.mpr ?_
    have hne : Text.trimBy isSpace c.title.val.toList ≠ [] := by
      intro he
      refine c.title.nonempty ?_
      rw [← c.title.stripped, strip, he]
    have hself : Text.trimBy isSpace c.title.val.toList = c.title.val.toList := by
      have h := congrArg String.toList c.title.stripped
      rwa [strip, String.toList_ofList] at h
    have hb := Text.trimBy_ne_nil (f := isSpace) (g := (· == ' ')) (fun c hc => by
      rw [beq_iff_eq.mp hc]
      decide) hne
    rw [hself] at hb
    exact hb
  simp only [Draft.checks, build, c.type.shape, Bool.true_and, Bool.and_eq_true, beq_iff_eq]
  refine ⟨decide_eq_true htitle, ?_⟩
  cases sent with
  | none => rfl
  | some t => rfl

theorem Built.fits {c : NotificationCreate} {n : Draft} (h : Built c n) : n.fits = true := by
  obtain ⟨sent, rfl, -⟩ := h
  rw [Draft.fits, build, decide_eq_true c.type.short, decide_eq_true c.title.short]
  rfl

theorem built_all {f : Draft → Bool} (hf : ∀ {c n}, Built c n → f n = true)
    {cs : List NotificationCreate} {ns : List Draft} (h : List.Forall₂ Built cs ns) :
    ns.all f = true := by
  induction h with
  | nil => rfl
  | cons hb _ ih => rw [List.all_cons, hf hb, ih, Bool.and_self]

theorem built_checks {cs : List NotificationCreate} {ns : List Draft}
    (h : List.Forall₂ Built cs ns) : ns.all Draft.checks = true := built_all Built.checks h

theorem built_fits {cs : List NotificationCreate} {ns : List Draft}
    (h : List.Forall₂ Built cs ns) : ns.all Draft.fits = true := built_all Built.fits h

def NotificationCreate.content (c : NotificationCreate) : Content :=
  ⟨c.userID, c.type.val, c.channel, c.title.val, c.message.val⟩

theorem built_content {cs : List NotificationCreate} {ns : List Draft}
    (h : List.Forall₂ Built cs ns) :
    ns.map Draft.content = cs.map NotificationCreate.content := by
  induction h with
  | nil => rfl
  | cons hb _ ih =>
    obtain ⟨sent, rfl, -⟩ := hb
    rw [List.map_cons, List.map_cons, ih]
    rfl

/-! ## a call between its statements -/

section
variable {P O Y : Type} [DecidableEq P]

/-- the event has been committed -/
def Handled (e : UUID) (log : List (Commit P Db)) : Prop := ∃ c ∈ log, c.after.processedOf e ≠ []

/-- a write that has gone through holds its locks, and under them is what its statement found: the
ids of new rows and the key of the event `e` are new, a row that is marked read has been sent -/
def Write.Ready (e : UUID) (p : P) (s : St P) : Write → Prop
  | .insertNotifications rows => ∀ r ∈ rows,
    s.locks (.notification r.notificationID) = some p ∧ s.committed.rowsOf r.notificationID = []
  | .insertProcessed pe =>
    pe.eventID = e ∧ s.locks (.event e) = some p ∧ s.committed.processedOf e = []
  | .setStatus i st => s.locks (.notification i) = some p ∧
    st = .READ ∧ ∃ r, s.committed.find i = some r ∧ r.draft.sentAt ≠ none

theorem sameUnder_refl (l : Lock) (d : Db) : Db.sameUnder l d d := by
  cases l <;> rfl

theorem Write.Ready.transfer {e : UUID} {p : P} {s t : St P} {w : Write} (h : w.Ready e p s)
    (hl : ∀ l, s.locks l = some p → t.locks l = some p ∧ Db.sameUnder l s.committed t.committed) :
    w.Ready e p t := by
  cases w with
  | insertNotifications rows =>
    intro r hr
    obtain ⟨hr, hn⟩ := h r hr
    exact ⟨(hl _ hr).1, (hl _ hr).2.symm.trans hn⟩
  | insertProcessed pe =>
    obtain ⟨he, hk, hn⟩ := h
    exact ⟨he, (hl _ hk).1, (hl _ hk).2.symm.trans hn⟩
  | setStatus i st =>
    obtain ⟨hk, hst, r, hr, hs⟩ := h
    refine ⟨(hl _ hk).1, hst, r, ?_, hs⟩
    rw [find_eq] at hr ⊢
    rw [← show s.committed.rowsOf i = t.committed.rowsOf i from (hl _ hk).2]
    exact hr

/-- its own writes, each of them ready -/
structure Writing (e : UUID) (p : P) (ws : List Write) (s : St P) : Prop where
  pending : s.pending p = ws
  ready : ∀ w ∈ ws, w.Ready e p s

variable {e : UUID} {p : P} {ws : List Write} {s t : St P}

theorem Writing.idle (h : s.pending p = []) : Writing e p [] s :=
  ⟨h, fun _ hw => absurd hw List.not_mem_nil⟩

theorem Writing.begin (h : Writing e p ws s) (n : Time) : Writing e p ws (s.begin p n) :=
  ⟨h.pending, fun w hw => (h.ready w hw).transfer fun l hl => ⟨hl, sameUnder_refl l _⟩⟩

theorem Writing.put {w : Write} (h : Writing e p ws s) (ht : s.put p w = some t)
    (hw : w.Ready e p t) : Writing e p (ws ++ [w]) t := by
  refine ⟨(put_pending ht).trans (by rw [h.pending]), fun v hv => ?_⟩
  rcases List.mem_append.mp hv with hv | hv
  · refine (h.ready v hv).transfer fun l hl => ⟨put_keeps ht hl, ?_⟩
    rw [(Quiet.put ht).committed]
    exact sameUnder_refl l _
  · rw [List.mem_singleton.mp hv]
    exact hw

variable {S : Spec P Db Write Lock O Y Row Reply}

structure Sessions (T : Terms S) : Prop where
  stmt : ∀ {p q x s r}, S.stmt p q x s = some r → Notifications.stmt p q x s = some r
  note : ∀ {p q x s o}, S.note p q x s o = o
  now : ∀ {p} {x : Choice Y} {o : O} {r : Reply .now × O}, S.remote p .now x o = some r → r.2 = o
  handled : ∀ {d log o} {e : UUID}, T.I d log o → d.processedOf e ≠ [] → Handled e log

/-- its writes, and what it knows of the commits and of the outside -/
abbrev At (M : List (Commit P Db) → O → Prop) (e : UUID) (p : P) (ws : List Write)
    (σ : State P Db Write Lock O) : Prop :=
  Writing e p ws σ.store ∧ M σ.store.log σ.ext

/-- the contract allows the commit of these writes -/
def Commits (T : Terms S) (M : List (Commit P Db) → O → Prop) (e : UUID) (p : P)
    (W : List Write → Prop) : Prop :=
  ∀ σ ws, T.Inv σ → At M e p ws σ → W ws →
    T.I (σ.store.view p) (⟨p, σ.store.committed, σ.store.view p⟩ :: σ.store.log) σ.ext

/-- an IntegrityError says that the event has been committed before -/
def Fails (e : UUID) : Err → State P Db Write Lock O → Prop
  | .pg x, σ => integrityError x = true → Handled e σ.store.log
  | .duplicateEvent, σ => Handled e σ.store.log
  | .notificationNotFound, _ => True

section
variable {T : Terms S} {M : List (Commit P Db) → O → Prop} {α : Type}
variable {A B : State P Db Write Lock O → Prop}

theorem Writing.stable : T.Stable p fun σ => Writing e p ws σ.store := by
  refine fun σ τ hr _ h => ⟨hr.seen.pending.trans h.pending, fun w hw => ?_⟩
  exact (h.ready w hw).transfer fun l hl => ⟨(hr.seen.locks l).mpr hl, hr.seen.same l hl⟩

theorem At.stable (hM : T.Stable p fun σ => M σ.store.log σ.ext) : T.Stable p (At M e p ws) :=
  Writing.stable.and hM

theorem handled_stable : T.Stable p fun σ => Handled e σ.store.log :=
  fun _ _ hr _ ⟨c, hc, hd⟩ => ⟨c, hr.seen.mem_log hc, hd⟩

theorem Fails.stable (x : Err) : T.Stable p (Fails e x) := by
  cases x with
  | pg x => exact .all fun _ => handled_stable
  | duplicateEvent => exact handled_stable
  | notificationNotFound => exact .const True

/-- what a call may say of an error of the database: that of a statement that fails says nothing, and
an IntegrityError that the event has been committed before -/
structure Errors (T : Terms S) (e : UUID) (p : P) (F : Err → State P Db Write Lock O → Prop) :
    Prop where
  stable : ∀ x, T.Stable p (F x)
  pg : ∀ x σ, (integrityError x = true → Handled e σ.store.log) → F (.pg x) σ

theorem errors_fails : Errors T e p (Fails e) := ⟨Fails.stable, fun _ _ h => h⟩

theorem errors_true : Errors T e p fun _ _ => True := ⟨fun _ => .const True, fun _ _ _ => trivial⟩

variable {F : Err → State P Db Write Lock O → Prop}

/-- an error that is no IntegrityError says nothing -/
theorem Errors.other (hF : Errors T e p F) (σ : State P Db Write Lock O) : F (.pg .other) σ :=
  hF.pg _ σ fun h => nomatch h

/-- where nothing is promised about an error -/
abbrev Calls (T : Terms S) (p : P) (A : State P Db Write Lock O → Prop) (m : Op α)
    (B : α → State P Db Write Lock O → Prop) : Prop :=
  T.Triple p A m B fun _ _ => True

/-! ## the statements -/

theorem triple_deliver (hs : Sessions T) (hA : T.Stable p A) (c : NotificationCreate) :
    T.Triple p A (deliver c) (fun n σ => A σ ∧ Built c n) F := by
  unfold deliver
  split
  · rename_i hc
    refine .bind (B := fun _ => A) (Terms.Triple.remote (r := Remote.now) hA (fun _ => hA)
      fun σ x a o hi h hx => ?_) fun t => .pure hA fun _ _ h => ⟨h, some t, rfl, ?_⟩
    · obtain rfl : o = σ.ext := hs.now hx
      exact ⟨hi.holds, h⟩
    · exact ⟨fun _ => nofun, fun _ => hc⟩
  · rename_i hc
    exact .pure hA fun _ _ h => ⟨h, none, rfl, fun h => absurd h hc, fun h => absurd rfl h⟩

theorem triple_buildAll (hs : Sessions T) (hA : T.Stable p A) (cs : List NotificationCreate) :
    T.Triple p A (buildAll cs) (fun ns σ => A σ ∧ List.Forall₂ Built cs ns) F := by
  induction cs with
  | nil => exact .pure hA fun _ _ h => ⟨h, .nil⟩
  | cons c cs ih =>
    refine .bind (triple_deliver hs hA c) fun n => .fact fun hn => .bind ih fun ns =>
      .fact fun hns => ?_
    exact .pure hA fun _ _ h => ⟨h, .cons hn hns⟩

theorem triple_begin (hF : Errors T e p F) (hM : T.Stable p fun σ => M σ.store.log σ.ext) :
    T.Triple p (At M e p []) begin (fun _ => At M e p []) F := by
  refine .bind (B := fun a => Terms.ends (fun _ => At M e p []) (fun x _ => x = PgErr.other) a)
    (Terms.Triple.begin (At.stable hM) (fun a => ?_)
    (fun _ n _ h => ⟨h.1.begin n, h.2⟩) fun _ _ _ => rfl) fun a => ?_
  · cases a with
    | ok _ => exact At.stable hM
    | error x => exact .const _
  · cases a with
    | ok _ => exact .pure (At.stable hM) fun _ _ h => h
    | error x => exact .throw (.const _) fun σ _ h => h ▸ hF.other σ

theorem triple_commit (hF : Errors T e p F) (hM : T.Stable p fun σ => M σ.store.log σ.ext)
    {W : List Write → Prop} (hk : Commits T M e p W) (hB : T.Stable p B)
    (h : ∀ σ, T.Inv σ → At M e p ws σ → B { σ with store := σ.store.commit p }) (hws : W ws) :
    T.Triple p (At M e p ws) commit (fun _ => B) F := by
  refine .bind (B := fun a => Terms.ends (fun _ => B) (fun x _ => x = PgErr.other) a)
    (Terms.Triple.commit (At.stable hM) (fun a => ?_) (fun σ hi h _ => hk σ ws hi h hws) h
      (fun _ _ _ => rfl) fun _ _ _ => rfl) fun a => ?_
  · cases a with
    | ok _ => exact hB
    | error x => exact .const _
  · cases a with
    | ok _ => exact .pure hB fun _ _ h => h
    | error x => exact .throw (.const _) fun σ _ h => h ▸ hF.other σ

/-- the rows of an INSERT are ready -/
theorem Writing.inserted {rows : List NotificationRow} (h : Writing e p ws s)
    (hnew : ∀ r ∈ rows, (s.view p).rowsOf r.notificationID = [])
    (ht : s.put p (.insertNotifications rows) = some t) :
    Writing e p (ws ++ [.insertNotifications rows]) t := by
  refine h.put ht fun r hr => ⟨put_takes ht (List.mem_map.mpr ⟨r, hr, rfl⟩), ?_⟩
  rw [(Quiet.put ht).committed]
  exact rowsOf_applyAll_nil (s.pending p) _ _ (hnew r hr)

theorem triple_insertNotifications (hs : Sessions T) (hF : Errors T e p F)
    (hM : T.Stable p fun σ => M σ.store.log σ.ext) {event : Option UUID} {drafts : List Draft}
    (hd : drafts.all Draft.checks = true) :
    T.Triple p (At M e p ws) (exec (.insertNotifications event drafts)) (fun rows σ =>
      At M e p (ws ++ [.insertNotifications rows]) σ ∧
        ∃ first now, rows = newRows first now event drafts) F := by
  refine .sqlThrows (q := Stmt.insertNotifications event drafts) (At.stable hM)
    (fun _ => (At.stable hM).and (.const _)) (fun x => hF.stable _) (fun σ x a t hi h hx => ?_)
    fun σ _ _ => hF.other σ
  rw [hs.note]
  rcases insertNotifications_eq (hs.stmt hx) with ⟨rfl, rfl | ⟨rfl, hc⟩⟩ | ⟨rfl, hnew, hw⟩
  · exact ⟨hi.locked, hi.holds, hF.other _⟩
  · exact nomatch hd.symm.trans hc
  · refine ⟨wellLocked_put hi.locked hw fun _ hl => .inl hl, hi.holds, ⟨?_, ?_⟩, x.id, _, rfl⟩
    · exact h.1.inserted hnew hw
    · rw [(Quiet.put hw).log]
      exact h.2

/-- the primary key tells whether the event was handled before -/
theorem triple_insertProcessedEvent (hs : Sessions T) (hF : Errors T e p F)
    (hM : T.Stable p fun σ => M σ.store.log σ.ext) {source : String}
    (hws : ∀ pe, .insertProcessed pe ∉ ws) :
    T.Triple p (At M e p ws) (exec (.insertProcessedEvent e source)) (fun _ σ =>
      ∃ now, At M e p (ws ++ [.insertProcessed ⟨e, source, now⟩]) σ) F := by
  refine .sqlThrows (q := Stmt.insertProcessedEvent e source) (At.stable hM)
    (fun _ => .ex fun now => At.stable hM) (fun x => hF.stable _)
    (fun σ x a t hi h hx => ?_) fun σ _ _ => hF.other σ
  rw [hs.note]
  have hview : (σ.store.view p).processedOf e = σ.store.committed.processedOf e := by
    rw [Store.view, h.1.pending]
    exact processedOf_applyAll ws _ e hws
  rcases insertProcessedEvent_eq (hs.stmt hx) with ⟨rfl, rfl | ⟨rfl, hp⟩⟩ | ⟨rfl, hp, hw⟩
  · exact ⟨hi.locked, hi.holds, hF.other _⟩
  · exact ⟨hi.locked, hi.holds, hF.pg _ _ fun _ => hs.handled hi.holds (hview ▸ hp)⟩
  · have hq := Quiet.put hw
    refine ⟨wellLocked_put hi.locked hw fun _ hl => .inl hl, hi.holds, σ.store.now p, ?_, ?_⟩
    · refine h.1.put hw ⟨rfl, put_takes hw (List.mem_singleton_self _), ?_⟩
      rw [hq.committed]
      exact hview.symm.trans hp
    · rw [hq.log]
      exact h.2

/-- `K r` is what is known of what has been read -/
theorem triple_getNotification (hs : Sessions T) (hF : Errors T e p F) (hA : T.Stable p A)
    {K : Option NotificationRow → State P Db Write Lock O → Prop} (hK : ∀ r, T.Stable p (K r))
    (i : UUID) (h : ∀ σ, T.Inv σ → A σ → K ((σ.store.view p).find i) σ) :
    T.Triple p A (exec (.getNotification i)) (fun r σ => A σ ∧ K r σ) F := by
  refine .sqlThrows (q := Stmt.getNotification i) hA (fun r => hA.and (hK r))
    (fun x => hF.stable _) (fun σ x a t hi ha hx => ?_) fun σ _ _ => hF.other σ
  rw [hs.note]
  have hx' : Notifications.stmt p (.getNotification i) x σ.store = some (a, t) := hs.stmt hx
  cases hx'
  exact ⟨hi.locked, hi.holds, ha, h σ hi ha⟩

/-- reading a row back -/
theorem triple_refresh (hs : Sessions T) (hF : Errors T e p F) (hA : T.Stable p A)
    {K : NotificationRow → State P Db Write Lock O → Prop} (hK : ∀ r, T.Stable p (K r)) (i : UUID)
    (h : ∀ σ r, T.Inv σ → A σ → (σ.store.view p).find i = some r → K r σ) :
    T.Triple p A (refresh i) (fun r σ => A σ ∧ K r σ) F := by
  refine .bind (triple_getNotification hs hF hA (K := fun r σ => ∀ r', r = some r' → K r' σ)
    (fun r => .all fun r' => .all fun _ => hK r') i fun σ hi ha r hr => h σ r hi ha hr) fun r => ?_
  have hstable : T.Stable p fun σ => A σ ∧ ∀ r', r = some r' → K r' σ :=
    hA.and (.all fun r' => .all fun _ => hK r')
  cases r with
  | some r => exact .pure hstable fun _ _ h => ⟨h.1, h.2 r rfl⟩
  | none => exact .throw hstable fun σ _ _ => hF.other σ

theorem triple_refreshAll (hs : Sessions T) (hF : Errors T e p F) (hA : T.Stable p A)
    (rows : List NotificationRow) : T.Triple p A (refreshAll rows) (fun _ => A) F := by
  induction rows with
  | nil => exact .pure hA fun _ _ h => h
  | cons r rs ih =>
    refine .bind (triple_refresh hs hF hA (K := fun _ _ => True) (fun _ => .const _) _
      fun _ _ _ _ _ => trivial) fun _ => .fact fun _ => ?_
    exact .bind ih fun _ => .pure hA fun _ _ h => h

/-- a row that can be marked has been sent -/
theorem Writing.setRead {i : UUID} {x : Choice Y} {a : Except PgErr Unit} (h : Writing e p [] s)
    (hx : Notifications.stmt p (.setRead i) x s = some (a, t)) :
    (t = s ∧ (∃ err, a = .error err) ∧ ∀ r, s.committed.find i = some r → r.draft.sentAt = none) ∨
    (a = .ok () ∧ Writing e p [.setStatus i .READ] t ∧ s.put p (.setStatus i .READ) = some t) := by
  have hx' := setRead_eq hx
  rw [view_of_pending h.pending] at hx'
  rcases hx' with hno | ⟨rfl, ⟨r, hr, hsent⟩, hw⟩
  · exact .inl hno
  · refine .inr ⟨rfl, h.put hw ⟨put_takes hw (List.mem_singleton_self _), rfl, r, ?_, hsent⟩, hw⟩
    rw [(Quiet.put hw).committed]
    exact hr

theorem triple_setRead (hs : Sessions T) (hF : Errors T e p F)
    (hM : T.Stable p fun σ => M σ.store.log σ.ext) (hpg : ∀ x σ, F (.pg x) σ) (i : UUID) :
    T.Triple p (At M e p []) (exec (.setRead i)) (fun _ => At M e p [.setStatus i .READ]) F := by
  refine .sqlThrows (q := Stmt.setRead i) (At.stable hM) (fun _ => At.stable hM)
    (fun x => hF.stable _) (fun σ x a t hi h hx => ?_) fun σ _ _ => hF.other σ
  rw [hs.note]
  rcases h.1.setRead (hs.stmt hx) with ⟨rfl, ⟨err, rfl⟩, -⟩ | ⟨rfl, hready, hw⟩
  · exact ⟨hi.locked, hi.holds, hpg err _⟩
  · refine ⟨wellLocked_put hi.locked hw fun _ hl => .inl hl, hi.holds, hready, ?_⟩
    rw [(Quiet.put hw).log]
    exact h.2

/-! ## the routes -/

/-- the writes of `create_bulk` -/
def RouteWrites (payloads : List NotificationCreate) (ws : List Write) : Prop :=
  ∃ first now drafts, List.Forall₂ Built payloads drafts ∧
    ws = [.insertNotifications (newRows first now none drafts)]

theorem triple_createBulk (hs : Sessions T) (hF : Errors T e p F)
    (hM : T.Stable p fun σ => M σ.store.log σ.ext) {payloads : List NotificationCreate}
    (hk : Commits T M e p (RouteWrites payloads)) :
    T.Triple p (At M e p []) (createBulk payloads) (fun _ _ => True) F := by
  refine .bind (triple_buildAll hs (At.stable hM) _) fun drafts => .fact fun hb =>
    .bind (triple_begin hF hM) fun _ =>
    .bind (triple_insertNotifications hs hF hM (built_checks hb)) fun rows => .fact fun hrows => ?_
  obtain ⟨first, now, rfl⟩ := hrows
  refine .bind (triple_commit hF hM hk (B := fun _ => True) (.const True) (fun _ _ _ => trivial) ?_)
    fun _ => triple_refreshAll hs hF (.const True) _
  exact ⟨first, now, drafts, hb, rfl⟩

/-! ## an event -/

/-- the writes of an event, in either order -/
def EventWrites (envelope : EventEnvelope) (ws : List Write) : Prop :=
  ∃ drafts first now at', List.Forall₂ Built envelope.bulk.notifications drafts ∧
    (ws = [.insertProcessed ⟨envelope.eventID, envelope.source.val, at'⟩,
      .insertNotifications (newRows first now (some envelope.eventID) drafts)] ∨
     ws = [.insertNotifications (newRows first now (some envelope.eventID) drafts),
      .insertProcessed ⟨envelope.eventID, envelope.source.val, at'⟩])

theorem EventWrites.keyed {envelope : EventEnvelope} (h : EventWrites envelope ws) :
    ∃ pe, .insertProcessed pe ∈ ws := by
  obtain ⟨drafts, first, now, at', -, rfl | rfl⟩ := h
  · exact ⟨_, List.mem_cons_self⟩
  · exact ⟨_, List.mem_cons_of_mem _ List.mem_cons_self⟩

/-- they apply the event as a whole and leave every other one alone -/
theorem EventWrites.tables {envelope : EventEnvelope} (h : EventWrites envelope ws) (d : Db)
    (e : UUID) :
    (∃ pe, (applyAll ws d).processedOf e =
      d.processedOf e ++ if envelope.eventID = e then [pe] else []) ∧
    (applyAll ws d).contentsOf e = d.contentsOf e ++ if envelope.eventID = e then
      envelope.bulk.notifications.map NotificationCreate.content else [] := by
  obtain ⟨drafts, first, now, at', hb, hws⟩ := h
  have hrows : ((newRows first now (some envelope.eventID) drafts).filter
      (·.event == some e)).map NotificationRow.content = if envelope.eventID = e then
        envelope.bulk.notifications.map NotificationCreate.content else [] := by
    rw [filter_newRows]
    by_cases he : envelope.eventID = e
    · rw [if_pos he, if_pos (congrArg some he), newRows_content, built_content hb]
    · rw [if_neg he, if_neg fun h => he (Option.some.inj h), List.map_nil]
  rcases hws with rfl | rfl
  · exact ⟨⟨_, processedOf_insert _ d e⟩, (contentsOf_insert _ _ e).trans (congrArg _ hrows)⟩
  · exact ⟨⟨_, processedOf_insert _ _ e⟩, (contentsOf_insert _ d e).trans (congrArg _ hrows)⟩

theorem triple_flushEvent (hs : Sessions T) (hF : Errors T e p F)
    (hM : T.Stable p fun σ => M σ.store.log σ.ext) (eventFirst : Bool) {envelope : EventEnvelope}
    {drafts : List Draft} (he : envelope.eventID = e)
    (hb : List.Forall₂ Built envelope.bulk.notifications drafts) :
    T.Triple p (At M e p []) (flushEvent eventFirst envelope drafts) (fun _ σ =>
      ∃ ws, EventWrites envelope ws ∧ At M e p ws σ) F := by
  subst he
  have hstable : T.Stable p fun σ => ∃ ws, EventWrites envelope ws ∧
      At M envelope.eventID p ws σ :=
    .ex fun ws => (Terms.Stable.const _).and (At.stable hM)
  cases eventFirst with
  | true =>
    refine .bind (triple_insertProcessedEvent hs hF hM fun _ h => absurd h List.not_mem_nil)
      fun _ => ?_
    intro σ ⟨at', h⟩
    refine ((triple_insertNotifications hs hF hM (built_checks hb)).weaken (fun _ h => h)
      (fun rows σ _ h => ?_) fun _ _ _ h => h) σ h
    obtain ⟨h, first, now, rfl⟩ := h
    exact ⟨_, ⟨drafts, first, now, at', hb, .inl rfl⟩, h⟩
  | false =>
    refine .bind (triple_insertNotifications hs hF hM (built_checks hb)) fun rows =>
      .fact fun hrows => ?_
    obtain ⟨first, now, rfl⟩ := hrows
    refine .bind (B := fun _ σ => ∃ ws, EventWrites envelope ws ∧
      At M envelope.eventID p ws σ) ?_ fun _ => .pure hstable fun _ _ h => h
    refine (triple_insertProcessedEvent hs hF hM fun pe h => ?_).weaken (fun _ h => h)
      (fun _ σ _ h => ?_) fun _ _ _ h => h
    · exact nomatch List.mem_singleton.mp h
    · obtain ⟨at', h⟩ := h
      exact ⟨_, ⟨drafts, first, now, at', hb, .inr rfl⟩, h⟩

/-- **the commit of an event** -/
theorem triple_commitEvent (hs : Sessions T) (hF : Errors T e p F)
    (hM : T.Stable p fun σ => M σ.store.log σ.ext) (eventFirst : Bool) {envelope : EventEnvelope}
    {drafts : List Draft} (he : envelope.eventID = e)
    (hb : List.Forall₂ Built envelope.bulk.notifications drafts)
    (hk : Commits T M e p (EventWrites envelope)) :
    T.Triple p (At M e p []) (commitEvent eventFirst envelope drafts)
      (fun _ σ => Handled e σ.store.log) F := by
  refine .bind (triple_begin hF hM) fun _ => .bind (triple_flushEvent hs hF hM eventFirst he hb)
    fun rows => .bind (B := fun _ σ => Handled e σ.store.log) ?_ fun _ =>
      .pure handled_stable fun _ _ h => h
  intro σ ⟨ws, hws, h⟩
  refine triple_commit hF hM hk handled_stable (fun σ _ h => ⟨_, List.mem_cons_self, ?_⟩) hws σ h
  show (σ.store.view p).processedOf e ≠ []
  obtain ⟨⟨pe, hpe⟩, -⟩ := hws.tables σ.store.committed e
  rw [Store.view, h.1.pending, hpe, if_pos he]
  exact List.append_ne_nil_of_right_ne_nil _ (List.cons_ne_nil _ _)

theorem triple_recordEvent (hs : Sessions T) (hM : T.Stable p fun σ => M σ.store.log σ.ext)
    (eventFirst : Bool) {envelope : EventEnvelope} (he : envelope.eventID = e)
    (hk : Commits T M e p (EventWrites envelope)) :
    T.Triple p (At M e p []) (recordEvent eventFirst envelope)
      (fun _ σ => Handled e σ.store.log) (Fails e) := by
  refine .bind (triple_buildAll hs (At.stable hM) _) fun drafts => .fact fun hb => ?_
  refine .bind (.attempt (triple_commitEvent hs errors_fails hM eventFirst he hb hk)) fun r => ?_
  cases r with
  | ok rows => exact triple_refreshAll hs errors_fails handled_stable rows
  | error x =>
    cases x with
    | pg x =>
      show T.Triple p (Fails e (.pg x)) (if _ then _ else _) _ _
      split
      · rename_i hx
        refine .bind (B := fun _ σ => Handled e σ.store.log) (Terms.Triple.rollback
          (Fails.stable _) handled_stable fun _ _ h => h hx) fun _ => ?_
        exact .throw handled_stable fun _ _ h => h
      · exact .throw (Fails.stable _) fun _ _ h => h
    | duplicateEvent => exact .throw (Fails.stable .duplicateEvent) fun _ _ h => h
    | notificationNotFound => exact .throw (.const True) fun _ _ h => h

/-! ## the session -/

/-- what does not depend on the open transaction survives the end of the session -/
theorem triple_inSession {B : α → State P Db Write Lock O → Prop} {body : Op α}
    (hB : ∀ a, T.Stable p (B a)) (hF : ∀ x, T.Stable p (F x))
    (hBroll : ∀ a σ, B a σ → B a { σ with store := σ.store.rollback p })
    (hFroll : ∀ x σ, F x σ → F x { σ with store := σ.store.rollback p })
    (h : T.Triple p A body B F) : T.Triple p A (inSession body) B F := by
  refine .bind (.attempt h) fun r => ?_
  cases r with
  | ok a =>
    refine .bind (B := fun _ => B a) (Terms.Triple.rollback (hB a) (hB a) fun σ _ h => hBroll a σ h)
      fun _ => .pure (hB a) fun _ _ h => h
  | error x =>
    refine .bind (B := fun _ => F x) (Terms.Triple.rollback (hF x) (hF x) fun σ _ h => hFroll x σ h)
      fun _ => .throw (hF x) fun _ _ h => h

/-- where nothing is promised -/
theorem triple_session {body : Op α} (h : Calls T p A body fun _ _ => True) :
    Calls T p A (inSession body) fun _ _ => True :=
  triple_inSession (fun _ => .const True) (fun _ => .const True) (fun _ _ _ => trivial)
    (fun _ _ _ => trivial) h

theorem triple_recordSession (hs : Sessions T) (hM : T.Stable p fun σ => M σ.store.log σ.ext)
    (eventFirst : Bool) {envelope : EventEnvelope} (he : envelope.eventID = e)
    (hk : Commits T M e p (EventWrites envelope)) :
    T.Triple p (At M e p []) (inSession (recordEvent eventFirst envelope))
      (fun _ σ => Handled e σ.store.log) (Fails e) := by
  refine triple_inSession (fun _ => handled_stable) Fails.stable (fun _ _ h => h)
    (fun x σ h => ?_) (triple_recordEvent hs hM eventFirst he hk)
  cases x <;> exact h

section
variable [Texts]

/-- **the consumer** acks what has been committed, and throws nothing of its own -/
theorem triple_consume (hs : Sessions T) (hM : T.Stable p fun σ => M σ.store.log σ.ext)
    (eventFirst : Bool) {m : Message} {body : Json}
    (hk : ∀ envelope, EventEnvelope.validate body = some envelope →
      Commits T M envelope.eventID p (EventWrites envelope))
    (hack : ∀ envelope, EventEnvelope.validate body = some envelope →
      T.Triple p (fun σ => Handled envelope.eventID σ.store.log) (remote (.ack m))
        (fun _ _ => True) F)
    (hreject : T.Triple p (fun _ => True) (remote (.reject m)) (fun _ _ => True) F) :
    T.Triple p (fun σ => σ.store.pending p = [] ∧ M σ.store.log σ.ext) (consume eventFirst m body)
      (fun _ _ => True) F := by
  unfold consume
  split
  · exact hreject.pre fun _ _ => trivial
  · rename_i envelope hv
    refine .bind (Terms.Triple.pre (.attempt (triple_recordSession hs hM eventFirst rfl
      (hk envelope hv))) fun σ h => ⟨Writing.idle h.1, h.2⟩) fun r => ?_
    cases r with
    | ok rows => exact hack envelope hv
    | error x =>
      cases x with
      | duplicateEvent => exact hack envelope hv
      | pg x => exact hreject.pre fun _ _ => trivial
      | notificationNotFound => exact hreject.pre fun _ _ => trivial

end

end

end

end Marketplace.Notifications
