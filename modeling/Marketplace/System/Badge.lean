import Marketplace.Frontend.Slices
import Marketplace.Notification.Marking

/-!
# The unread badge and the unread count

The badge takes one off for every answer of a `mark_read`; the server takes one off for every
notification that goes from SENT to READ.

* `OnlyMoved`        no notification has been created, and some have been marked;
* `sentAmong`        the SENT notifications of a user among those that are marked;
* `Answered`         the calls of a user, each of them answered with its row, while nobody else marks a
                     notification of this user, and none is created;
* `Shown`            the answers reach the slice once each, in any order;
* `badge_tracks_iff` **the badge is the unread count exactly if every answer stands for a SENT
                     notification of its own, or the SENT ones that are marked are all the unread**;
* `badge_lags`       one notification, marked twice.
-/

set_option linter.unusedSectionVars false

namespace Marketplace.System.Badge

open Table Events ReadCommitted Interleave Notifications
open Frontend (NotificationsSlice.State NotificationsSlice.Action NotificationsSlice.reducer)

/-! ## the server -/

/-- a row that has been marked, or not -/
def Moved (r r' : NotificationRow) : Prop :=
  r' = r ∨ (r.draft.status = .SENT ∧ r' = r.withStatus .READ)

theorem Moved.trans {a b c : NotificationRow} (h : Moved a b) (h' : Moved b c) : Moved a c := by
  rcases h with rfl | ⟨hs, rfl⟩
  · exact h'
  · rcases h' with rfl | ⟨hs', -⟩
    · exact .inr ⟨hs, rfl⟩
    · cases hs'

theorem Moved.id {r r' : NotificationRow} (h : Moved r r') : r'.notificationID = r.notificationID := by
  rcases h with rfl | ⟨-, rfl⟩ <;> rfl

theorem moved_trans {as bs cs : List NotificationRow} (h : List.Forall₂ Moved as bs)
    (h' : List.Forall₂ Moved bs cs) : List.Forall₂ Moved as cs := by
  induction h generalizing cs with
  | nil => exact h'
  | cons hab _ ih =>
    cases h' with
    | cons hbc hrest => exact .cons (hab.trans hbc) (ih hrest)

/-- no notification has been created, and some have been marked -/
def OnlyMoved (d d' : Db) : Prop := List.Forall₂ Moved d.notifications d'.notifications

section
variable {P : Type} [Texts] {tasks : P → Task} {d d' : Db} {u : UUID}

theorem Marks.moved {i : UUID} (ht : Tables tasks d) (h : Marks i u d d') : OnlyMoved d d' := by
  obtain ⟨r, hr, -, hs, rfl⟩ := h
  refine List.forall₂_map_right_iff.mpr (List.forall₂_same.mpr fun x hx => ?_)
  split
  · rename_i e
    have hx' := find_row ht hx
    rw [beq_iff_eq.mp e, hr] at hx'
    cases hx'
    rcases (ht.valid r hx).sent_iff.mp hs with hsent | hread
    · exact .inr ⟨hsent, rfl⟩
    · exact .inl (NotificationRow.withStatus_self hread)
  · exact .inl rfl

/-- the SENT notifications of a user among those with these ids -/
def sentAmong (d : Db) (u : UUID) (ids : List UUID) : Nat :=
  d.notifications.countP fun r =>
    r.draft.userID == u && r.draft.status == .SENT && ids.contains r.notificationID

/-- the notifications that have been marked are no longer counted -/
theorem count_moved {rs rs' : List NotificationRow} {q : NotificationRow → Bool}
    (h : List.Forall₂ (fun r r' => Moved r r' ∧ (r.draft.userID = u → r.draft.status = .SENT →
      (q r = true ↔ r' ≠ r))) rs rs') :
    rs.countP (fun r => r.draft.userID == u && r.unread) =
      rs'.countP (fun r => r.draft.userID == u && r.unread) +
        rs.countP fun r => r.draft.userID == u && r.draft.status == .SENT && q r := by
  induction h with
  | nil => rfl
  | @cons r r' rs rs' hr _ ih =>
    rw [List.countP_cons, List.countP_cons, List.countP_cons, ih]
    have hone : (if (r.draft.userID == u && r.unread) = true then 1 else 0) =
        (if (r'.draft.userID == u && r'.unread) = true then 1 else 0) +
          if (r.draft.userID == u && r.draft.status == .SENT && q r) = true then 1 else 0 := by
      obtain ⟨hm, hq⟩ := hr
      by_cases hu : r.draft.userID = u
      · by_cases hs : r.draft.status = .SENT
        · have hunread : r.unread = true := by
            rw [NotificationRow.unread, hs]
            rfl
          by_cases hqr : q r = true
          · obtain ⟨-, rfl⟩ := hm.resolve_left ((hq hu hs).mp hqr)
            have hread : (r.withStatus .READ).unread = false := rfl
            simp [hu, hs, hqr, hunread, hread]
          · have he : r' = r := not_not.mp fun hne => hqr ((hq hu hs).mpr hne)
            simp [he, hu, hqr]
        · obtain rfl : r' = r := hm.resolve_right fun h => hs h.1
          simp [hs]
      · have hu' : r'.draft.userID ≠ u := by
          rcases hm with rfl | ⟨-, rfl⟩ <;> exact hu
        simp [hu, hu']
    rw [hone]
    omega

variable [DecidableEq P] {σ τ : InboxConf P} {marks : List P} {id : P → UUID}
variable {rows : P → NotificationRow}

/-- the `mark_read` calls of a user, each of them answered with its row; nobody else marks a
notification of this user meanwhile, and none is created -/
structure Answered (tasks : P → Task) (σ τ : InboxConf P) (u : UUID) (marks : List P)
    (id : P → UUID) (rows : P → NotificationRow) : Prop where
  reached : Runs inboxSpec.machine (inboxStart tasks) σ
  runs : Runs inboxSpec.machine σ τ
  calls : ∀ p ∈ marks, tasks p = .markRead (id p) u
  ended : ∀ p ∈ marks, τ.prog p = some (.ret (.ok [rows p]))
  only : ∀ new, τ.state.store.log = new ++ σ.state.store.log → ∀ c ∈ new,
    c.tx ∈ marks ∨ ∃ i v, tasks c.tx = .markRead i v ∧ v ≠ u

/-- **the server takes one off for every SENT notification that is marked** -/
theorem Answered.count (h : Answered tasks σ τ u marks id rows) :
    unreadCount σ.state.store.committed u = unreadCount τ.state.store.committed u +
      sentAmong σ.state.store.committed u (marks.map id) := by
  have hτ := h.reached.trans h.runs
  have hi := (inbox_runs h.reached).1.holds
  have hi' := (inbox_runs hτ).1.holds
  obtain ⟨new, hlog⟩ := Service.Spec.runs_log h.runs
  have hchain := hi'.chained
  rw [hlog] at hchain
  have hnew : ∀ c ∈ new, c ∈ τ.state.store.log := fun c hc => hlog ▸ List.mem_append_left _ hc
  have hmoved : OnlyMoved σ.state.store.committed τ.state.store.committed := by
    refine hi.chained.between (R := OnlyMoved) (fun d => List.forall₂_same.mpr fun _ _ => .inl rfl)
      (fun _ _ _ => moved_trans) hchain fun c hc => ?_
    have hmark : ∃ i v, tasks c.tx = .markRead i v := by
      rcases h.only new hlog c hc with hp | ⟨i, v, ht, -⟩
      · exact ⟨_, _, h.calls c.tx hp⟩
      · exact ⟨i, v, ht⟩
    obtain ⟨i, v, htask⟩ := hmark
    rcases (hi'.steps c (hnew c hc)).cases with ⟨-, hne⟩ | ⟨j, w, -, hm⟩
    · exact absurd htask (hne i v)
    · exact Marks.moved (hi'.tables.2 c (hnew c hc)).1 hm
  refine count_moved (List.forall₂_iff_zip.mpr ⟨hmoved.length_eq, fun {r r'} hz => ?_⟩)
  have hm := (List.forall₂_iff_zip.mp hmoved).2 hz
  obtain ⟨hr, hr'⟩ := List.of_mem_zip hz
  have hfind := find_row hi.tables.1 hr
  have hfind' := find_row hi'.tables.1 hr'
  rw [hm.id] at hfind'
  refine ⟨hm, fun hu hs => ⟨fun hmem => ?_, fun hne => ?_⟩⟩
  · -- a call has returned the row, so it is no longer SENT
    obtain ⟨p, hp, hid⟩ := List.mem_map.mp (List.contains_iff_mem.mp hmem)
    rcases marked_ends hτ (h.calls p hp) (h.ended p hp) with ⟨x, e, hx, -, hxs⟩ | e | ⟨y, e⟩
    · rw [hid, hfind'] at hx
      cases hx
      exact fun e => hxs (e ▸ hs)
    · cases e
    · cases e
  · -- the commit that has moved it is one of the calls
    obtain ⟨c, hc, hb, ha⟩ := hi.chained.brought (F := fun d => d.find r.notificationID ≠ some r)
      hchain (fun hF => hF hfind) fun e => hne (Option.some.inj (hfind'.symm.trans e))
    obtain ⟨y, hy, hstep⟩ := (hi'.steps c (hnew c hc)).row (hi'.tables.2 c (hnew c hc)).1
      (not_not.mp hb)
    obtain ⟨-, htask, -⟩ := hstep.resolve_left fun e => ha (e ▸ hy)
    rw [hu] at htask
    rcases h.only new hlog c hc with hp | ⟨i, v, ht, hv⟩
    · obtain ⟨hid, -⟩ := Task.markRead.inj ((h.calls c.tx hp).symm.trans htask)
      exact List.contains_iff_mem.mpr (List.mem_map.mpr ⟨c.tx, hp, hid⟩)
    · cases ht.symm.trans htask
      exact absurd rfl hv

/-! ## the badge -/

def isAnswer : NotificationsSlice.Action → Bool
  | .markReadFulfilled _ => true
  | _ => false

def isCount : NotificationsSlice.Action → Bool
  | .unreadFulfilled _ => true
  | _ => false

/-- the answers reach the slice once each, in any order, and the count is not fetched again; `out` is
what a row looks like on the wire -/
structure Shown (out : NotificationRow → Frontend.Notification) (answers : List NotificationRow)
    (actions : List NotificationsSlice.Action) : Prop where
  answers : (actions.filter isAnswer).Perm (answers.map fun r => .markReadFulfilled (out r))
  noCount : ∀ a ∈ actions, isCount a = false

/-- one off for every answer -/
theorem unread_foldl (s : NotificationsSlice.State) (actions : List NotificationsSlice.Action)
    (hs : 0 ≤ s.unread) (hno : ∀ a ∈ actions, isCount a = false) :
    (actions.foldl NotificationsSlice.reducer s).unread =
      max 0 (s.unread - (actions.filter isAnswer).length) := by
  induction actions generalizing s with
  | nil =>
    show s.unread = max 0 (s.unread - 0)
    omega
  | cons a actions ih =>
    have hrest := fun b hb => hno b (List.mem_cons_of_mem a hb)
    rw [List.foldl_cons]
    cases a with
    | fetchPending => exact ih _ hs hrest
    | fetchFulfilled payload => exact ih _ hs hrest
    | unreadFulfilled n => exact nomatch hno _ List.mem_cons_self
    | markReadFulfilled payload =>
      have hnext : 0 ≤ (NotificationsSlice.reducer s (.markReadFulfilled payload)).unread :=
        Int.le_max_left _ _
      rw [ih _ hnext hrest, List.filter_cons_of_pos rfl, List.length_cons]
      show max 0 (max 0 (s.unread - 1) - _) = _
      omega

theorem Shown.unread {out : NotificationRow → Frontend.Notification}
    {answers : List NotificationRow} {actions : List NotificationsSlice.Action}
    (h : Shown out answers actions) {s : NotificationsSlice.State} (hs : 0 ≤ s.unread) :
    (actions.foldl NotificationsSlice.reducer s).unread = max 0 (s.unread - answers.length) := by
  rw [unread_foldl s actions hs h.noCount, h.answers.length_eq, List.length_map]

/-- **The badge tracks the server, unless** it is told of a notification twice, or of one that was not
SENT.  `σ` is the state in which the count was fetched, `τ` one in which all the calls have been
answered.  Then the badge is the unread count of the user exactly if the SENT notifications among those
that are marked are as many as the calls, or are all the unread ones and no more than the calls. -/
theorem badge_tracks_iff (h : Answered tasks σ τ u marks id rows)
    {out : NotificationRow → Frontend.Notification} {actions : List NotificationsSlice.Action}
    (hshown : Shown out (marks.map rows) actions) {s : NotificationsSlice.State}
    (hs : s.unread = unreadCount σ.state.store.committed u) :
    (actions.foldl NotificationsSlice.reducer s).unread =
        unreadCount τ.state.store.committed u ↔
      sentAmong σ.state.store.committed u (marks.map id) =
        min marks.length (unreadCount σ.state.store.committed u) := by
  have hcount := h.count
  have hunread := hshown.unread (s := s) (hs ▸ Int.natCast_nonneg _)
  rw [hs, List.length_map] at hunread
  rw [hunread]
  omega

end

/-! ### two notifications, marked by two calls -/

section

attribute [local instance] plainTexts

/-- two notifications for the user 1; the first call marks the first of them -/
def visits (second : UUID) : Fin 3 → Task
  | 0 => .createBulk ⟨[greeting, greeting], by decide, by decide⟩
  | 1 => .markRead 70 1
  | 2 => .markRead second 1

def marked (second : UUID) (p : Fin 3) : UUID := if p = 1 then 70 else second

def choice : Service.Choice Bool := ⟨.none, 70, 0, 5, false⟩

def fetched : List (Service.Choice Bool) := List.replicate 8 choice

/-- what is looked at in a state: who has committed, what the two calls have written and been answered,
and the count -/
structure Look where
  commits : List (Fin 3)
  pending : Nat
  told : List (Option (Except Err Nat))
  unread : Nat
  deriving DecidableEq

def look (σ : InboxConf (Fin 3)) : Look where
  commits := σ.state.store.log.map (·.tx)
  pending := (σ.state.store.pending 1 ++ σ.state.store.pending 2).length
  told := [answered (σ.prog 1), answered (σ.prog 2)]
  unread := unreadCount σ.state.store.committed 1

theorem marked_rows {second : UUID} {τ : InboxConf (Fin 3)}
    (h : Runs inboxSpec.machine (inboxStart (visits second)) τ) {p : Fin 3}
    (htask : visits second p = .markRead (marked second p) 1)
    (ha : answered (τ.prog p) = some (.ok 1)) : ∃ r, τ.prog p = some (.ret (.ok [r])) := by
  obtain ⟨res, hp, e⟩ := answered_ret ha
  rcases marked_ends h htask hp with ⟨r, rfl, -⟩ | rfl | ⟨x, rfl⟩
  · exact ⟨r, hp⟩
  · cases e
  · cases e

/-- the count is fetched, then both calls begin and are answered -/
theorem visited (second : UUID) (k n : Nat) (by' : List (Fin 3)) (hby : 0 ∉ by')
    (h : (inboxSpec.machine.run (inboxStart (visits second)) (fetched.map (Act.exec 0))).bind
      (fun σ => (inboxSpec.machine.run σ ((List.replicate 6 choice).map (Act.exec 1) ++
        (List.replicate k choice).map (Act.exec 2))).map fun τ => (look σ, look τ)) =
      some (⟨[0], 0, [none, none], 2⟩, ⟨by' ++ [0], 0, [some (.ok 1), some (.ok 1)], n⟩)) :
    ∃ σ τ rows, Answered (visits second) σ τ 1 [1, 2] (marked second) rows ∧
      Begins (visits second) σ 1 ∧ Begins (visits second) σ 2 ∧
      unreadCount σ.state.store.committed 1 = 2 ∧ unreadCount τ.state.store.committed 1 = n := by
  obtain ⟨σ, hσ, h⟩ := Option.bind_eq_some_iff.mp h
  obtain ⟨τ, hτ, h⟩ := Option.map_eq_some_iff.mp h
  simp only [look, Prod.mk.injEq, Look.mk.injEq, List.cons.injEq, and_true,
    List.length_eq_zero_iff, List.append_eq_nil_iff] at h
  obtain ⟨⟨hlog, ⟨hidle, hidle'⟩, -, hcount⟩, hlog', -, ⟨h₁, h₂⟩, hcount'⟩ := h
  have hr := Runs.of_run _ hσ
  have hr' := Runs.of_run _ hτ
  obtain ⟨r, hp⟩ := marked_rows (hr.trans hr') (p := 1) rfl h₁
  obtain ⟨r', hp'⟩ := marked_rows (hr.trans hr') (p := 2) rfl h₂
  have hprog : ∀ q : Fin 3, q ≠ 0 → σ.prog q = some (visits second q).op.run :=
    fun q hq => Machine.run_other hq fetched hσ
  refine ⟨σ, τ, fun p => if p = 1 then r else r', ⟨hr, hr', fun p hp => ?_, fun p hmem => ?_,
    fun new hnew c hc => .inl ?_⟩, ⟨hprog 1 (by decide), hidle⟩, ⟨hprog 2 (by decide), hidle'⟩,
    hcount, hcount'⟩
  · rcases List.mem_cons.mp hp with rfl | hp
    · rfl
    · rw [List.mem_singleton.mp hp]
      rfl
  · rcases List.mem_cons.mp hmem with rfl | hmem
    · exact hp
    · rw [List.mem_singleton.mp hmem]
      exact hp'
  · rw [hnew, List.map_append, hlog] at hlog'
    have hmem : c.tx ∈ by' :=
      (List.append_left_injective [0] hlog') ▸ List.mem_map.mpr ⟨c, hc, rfl⟩
    have hne : c.tx ≠ 0 := fun e => hby (e ▸ hmem)
    have hall : ∀ p : Fin 3, p ≠ 0 → p ∈ [1, 2] := by decide
    exact hall c.tx hne

/-- a row on the wire -/
def wire (r : NotificationRow) : Frontend.Notification where
  notificationID := String.ofList (List.replicate r.notificationID 'a')
  rest := r.draft.title

def badge : NotificationsSlice.State := ⟨[], 2, false⟩

/-- marked twice, a notification counts twice -/
theorem badge_lags :
    ∃ (σ τ : InboxConf (Fin 3)) (rows : Fin 3 → NotificationRow)
      (actions : List NotificationsSlice.Action),
      Answered (visits 70) σ τ 1 [1, 2] (marked 70) rows ∧
      Begins (visits 70) σ 1 ∧ Begins (visits 70) σ 2 ∧
      Shown wire ([1, 2].map rows) actions ∧
      badge.unread = unreadCount σ.state.store.committed 1 ∧
      (actions.foldl NotificationsSlice.reducer badge).unread = 0 ∧
      unreadCount τ.state.store.committed 1 = 1 := by
  obtain ⟨σ, τ, rows, h, hb, hb', hσ, hτ⟩ := visited 70 3 1 [1] (by decide)
    (by decide +kernel)
  refine ⟨σ, τ, rows, [.markReadFulfilled (wire (rows 1)), .markReadFulfilled (wire (rows 2))], h,
    hb, hb', ⟨.refl _, ?_⟩, by rw [hσ]; rfl, rfl, hτ⟩
  intro a ha
  rcases List.mem_cons.mp ha with rfl | ha
  · rfl
  · rw [List.mem_singleton.mp ha]
    rfl

theorem badge_tracks_both :
    ∃ (σ τ : InboxConf (Fin 3)) (rows : Fin 3 → NotificationRow),
      Answered (visits 71) σ τ 1 [1, 2] (marked 71) rows ∧
      ([.markReadFulfilled (wire (rows 2)), .fetchPending,
        .markReadFulfilled (wire (rows 1))].foldl NotificationsSlice.reducer badge).unread =
          unreadCount τ.state.store.committed 1 := by
  obtain ⟨σ, τ, rows, h, -, -, hσ, hτ⟩ := visited 71 6 0 [2, 1] (by decide)
    (by decide +kernel)
  have hshown : Shown wire ([1, 2].map rows) [.markReadFulfilled (wire (rows 2)), .fetchPending,
      .markReadFulfilled (wire (rows 1))] := by
    refine ⟨.swap _ _ _, fun a ha => ?_⟩
    rcases List.mem_cons.mp ha with rfl | ha
    · rfl
    · rcases List.mem_cons.mp ha with rfl | ha
      · rfl
      · rw [List.mem_singleton.mp ha]
        rfl
  refine ⟨σ, τ, rows, h, (badge_tracks_iff h hshown ?_).mpr ?_⟩
  · rw [hσ]
    rfl
  · have hcount := h.count
    rw [hσ, hτ] at hcount
    rw [hσ, ← Nat.zero_add (sentAmong _ _ _), ← hcount]
    rfl

end

end Marketplace.System.Badge
