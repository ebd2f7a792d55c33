import Marketplace.Lib.Paging
import Marketplace.Notification.ExactlyOnce
import Marketplace.Notification.Inbox

/-!
# The states of a notification

* `UNREAD`, `unreadCount`, `ListsForUser`   the readers of an inbox;
* `Step.row`         what a commit does to a row;  `Step.unread`  and to the unread counts;
* `Begins`           a call that has not begun;
* `inbox_laws`       **a row is SENT or READ iff it has a time of sending; it changes only from SENT to
                     READ, by a `mark_read` of its user; and what `mark_read` answers and changes**.
-/

set_option linter.unusedSectionVars false

namespace Marketplace.Notifications

open Table Events ReadCommitted Interleave Paging
open Service hiding begin commit remote

/-! ## the readers -/

/-- what counts towards the unread badge -/
def NotificationStatus.UNREAD : List NotificationStatus := [.PENDING, .SENT]

def NotificationRow.unread (r : NotificationRow) : Bool :=
  NotificationStatus.UNREAD.contains r.draft.status

/-- the rows of a user that `list_for_user` selects -/
def Db.inboxOf (d : Db) (u : UUID) (unreadOnly : Bool) : List NotificationRow :=
  d.notifications.filter fun r => r.draft.userID == u && (!unreadOnly || r.unread)

/-- what `list_for_user` may answer: rows of one `created_at` come in any order -/
def ListsForUser (d : Db) (u : UUID) (limit offset : Nat) (unreadOnly : Bool)
    (rows : List NotificationRow) : Prop :=
  ∃ a, Sorts NotificationRow.createdAt (d.inboxOf u unreadOnly) a ∧
    rows = (a.drop offset).take limit

def unreadCount (d : Db) (u : UUID) : Nat :=
  d.notifications.countP fun r => r.draft.userID == u && r.unread

/-- without paging the list of the unread has as many rows as are counted -/
theorem length_listsForUser {d : Db} {u : UUID} {limit : Nat} {rows : List NotificationRow}
    (hl : d.notifications.length ≤ limit) (h : ListsForUser d u limit 0 true rows) :
    rows.length = unreadCount d u := by
  obtain ⟨a, hs, rfl⟩ := h
  have hlen : a.length = unreadCount d u := by
    rw [hs.perm.length_eq, Db.inboxOf, unreadCount, List.countP_eq_length_filter]
    rfl
  have hle : a.length ≤ limit := by
    rw [hlen]
    exact List.countP_le_length.trans hl
  rw [List.drop_zero, List.take_of_length_le hle, hlen]

/-! ## what a commit does -/

section
variable {P : Type} [Texts] {tasks : P → Task} {d d' : Db} {i u : UUID}

/-- **a row stays as it is, or goes from SENT to READ by a `mark_read` of its user** -/
theorem Step.row {task : Task} (ht : Tables tasks d) (h : Step task d d') {r : NotificationRow}
    (hr : d.find i = some r) : ∃ r', d'.find i = some r' ∧ (r' = r ∨
      (r.draft.status = .SENT ∧ task = .markRead i r.draft.userID ∧ r' = r.withStatus .READ)) := by
  rcases h.cases with ⟨⟨rows, hn, -, -⟩, -⟩ | ⟨j, u, htask, r₀, hr₀, rfl, hs, rfl⟩
  · exact ⟨r, find_insert hn hr, .inl rfl⟩
  · refine ⟨_, by rw [find_setStatus, hr, Option.map_some], ?_⟩
    by_cases e : i = j
    · subst e
      rw [hr] at hr₀
      cases hr₀
      rw [if_pos rfl]
      rcases (ht.valid r (find_mem hr)).sent_iff.mp hs with hsent | hread
      · exact .inr ⟨hsent, htask, rfl⟩
      · exact .inl (NotificationRow.withStatus_self hread)
    · exact .inl (if_neg e)

/-- counting the rows around one that is updated -/
theorem countP_setStatus {r : NotificationRow} (ht : Tables tasks d) (hr : d.find i = some r)
    (q : NotificationRow → Bool) :
    ∃ n, d.notifications.countP q = (if q r then 1 else 0) + n ∧
      ((Write.setStatus i .READ).apply d).notifications.countP q =
        (if q (r.withStatus .READ) then 1 else 0) + n := by
  have hone : d.notifications.filter (·.notificationID == i) = [r] := by
    refine eq_singleton (ht.ids i) (List.mem_filter.mpr ⟨find_mem hr, ?_⟩)
    rw [find_id hr]
    exact beq_self_eq_true _
  refine ⟨(d.notifications.filter fun x => !(x.notificationID == i)).countP q, ?_, ?_⟩
  · have hsame : updateWhere (·.notificationID == i) id d.notifications = d.notifications := by
      rw [updateWhere]
      exact (List.map_congr_left fun x _ => ite_self x).trans (List.map_id _)
    rw [← hsame, countP_updateWhere, hsame, hone, List.map_id, List.countP_singleton]
  · rw [show ((Write.setStatus i .READ).apply d).notifications =
      updateWhere (·.notificationID == i) (NotificationRow.withStatus .READ) d.notifications from rfl,
      countP_updateWhere, hone, List.map_singleton, List.countP_singleton]

/-- what a `mark_read` that commits does to the unread counts -/
theorem Marks.unread (ht : Tables tasks d) (h : Marks i u d d') :
    (∃ r, d.find i = some r ∧ r.draft.userID = u ∧ r.draft.status = .SENT ∧
      d'.find i = some (r.withStatus .READ) ∧ unreadCount d u = unreadCount d' u + 1 ∧
      ∀ v, v ≠ u → unreadCount d' v = unreadCount d v) ∨ d' = d := by
  obtain ⟨r, hr, rfl, hs, rfl⟩ := h
  rcases (ht.valid r (find_mem hr)).sent_iff.mp hs with hsent | hread
  · refine .inl ⟨r, hr, rfl, hsent, ?_, ?_, fun v hv => ?_⟩
    · rw [find_setStatus, hr, Option.map_some, if_pos rfl]
    · obtain ⟨n, hn, hn'⟩ := countP_setStatus ht hr fun x =>
        x.draft.userID == r.draft.userID && x.unread
      have hbefore : r.unread = true := by
        rw [NotificationRow.unread, hsent]
        rfl
      have hafter : (r.withStatus .READ).unread = false := rfl
      rw [hbefore, beq_self_eq_true] at hn
      rw [hafter, Bool.and_false] at hn'
      unfold unreadCount
      rw [hn, hn', if_pos (Bool.and_self true), if_neg Bool.false_ne_true]
      omega
    · obtain ⟨n, hn, hn'⟩ := countP_setStatus ht hr fun x => x.draft.userID == v && x.unread
      have hother : (r.draft.userID == v) = false := beq_eq_false_iff_ne.mpr hv.symm
      have hother' : ((r.withStatus .READ).draft.userID == v) = false := hother
      unfold unreadCount
      rw [hn, hn', hother, hother', Bool.false_and, Bool.false_and]
  · refine .inr ?_
    have hsame : updateWhere (·.notificationID == i) (NotificationRow.withStatus .READ)
        d.notifications = d.notifications := by
      refine (List.map_congr_left fun x hx => ?_).trans (List.map_id _)
      split
      · rename_i e
        have hx' := find_row ht hx
        rw [beq_iff_eq.mp e, hr] at hx'
        cases hx'
        exact NotificationRow.withStatus_self hread
      · rfl
    show ({ d with notifications := _ } : Db) = d
    rw [hsame]

/-! ## what a call is answered -/

variable [DecidableEq P] {σ τ : InboxConf P}

/-- the call of `p` has not begun -/
structure Begins (tasks : P → Task) (σ : InboxConf P) (p : P) : Prop where
  prog : σ.prog p = some (tasks p).op.run
  pending : σ.state.store.pending p = []

/-- the notification of the user with this id, in the tables -/
def Db.owns (d : Db) (u i : UUID) : Prop := ∃ r, d.find i = some r ∧ r.draft.userID = u

/-- a `mark_read` that has returned, has returned the row of its user as it stays -/
theorem marked_ends (h : Runs inboxSpec.machine (inboxStart tasks) σ) {p : P}
    (htask : tasks p = .markRead i u) {res : Except Err (List NotificationRow)}
    (hp : σ.prog p = some (.ret res)) :
    (∃ r, res = .ok [r] ∧ σ.state.store.committed.find i = some r ∧ r.draft.userID = u ∧
      r.draft.status ≠ .SENT) ∨ res = .error .notificationNotFound ∨ ∃ e, res = .error (.pg e) := by
  have hends := inbox_ends h hp
  have hi := (inbox_runs h).1.holds
  rw [htask] at hends
  cases res with
  | ok rows =>
    obtain ⟨r, rfl, hr⟩ := hends
    exact .inl ⟨r, rfl, hi.final hr, hr.userID, hr.status⟩
  | error x =>
    cases x with
    | pg e => exact .inr (.inr ⟨e, rfl⟩)
    | notificationNotFound => exact .inr (.inl rfl)
    | duplicateEvent => exact hends.elim

/-- one that begins where the user has the notification finds it -/
theorem marked_owned (h : Runs inboxSpec.machine (inboxStart tasks) σ) {p : P}
    (htask : tasks p = .markRead i u) (hb : Begins tasks σ p) (hr : Runs inboxSpec.machine σ τ)
    (hown : σ.state.store.committed.owns u i) :
    τ.prog p ≠ some (.ret (.error .notificationNotFound)) := by
  intro hp
  obtain ⟨hi, hsafe⟩ := inbox_runs h
  have hseen : Owned i u σ.state.store.log := by
    obtain ⟨r, hr, hu⟩ := hown
    exact ⟨r, hi.holds.seen hr, hu⟩
  obtain ⟨hi', hp'⟩ := (inbox tasks).contract.runs_from hr hi hsafe hb.prog
    (inbox_marking htask True σ.state ⟨hb.pending, fun _ => hseen⟩)
  exact hp' _ hp τ.state ((inbox tasks).contract.rely_refl p _) hi' trivial

/-- on a database that does not fail a `mark_read` does not either -/
theorem marked_sure (h : Runs inboxSpec.machine (inboxStart tasks) σ) {p : P}
    (htask : tasks p = .markRead i u) (hb : Begins tasks σ p) (hr : Runs inboxSpec.faultless σ τ)
    (e : PgErr) : τ.prog p ≠ some (.ret (.error (.pg e))) := by
  intro hp
  obtain ⟨hi, hsafe⟩ := inbox_runs h
  have hsure : (inbox tasks).Sure p (fun σ => σ.store.pending p = []) (tasks p).op
      (fun _ _ => True) fun x _ => x = .notificationNotFound := by
    rw [htask]
    refine .bind (.attempt (Terms.Sure.bind (sure_markRead htask) fun r =>
      Terms.Sure.pure (Φ := fun _ _ => True) (.const True) fun _ _ _ => trivial)) fun r => ?_
    cases r with
    | ok rows =>
      exact .bind (.rollback (.const True) (.const True) fun _ _ h => h) fun _ =>
        .pure (.const True) fun _ _ h => h
    | error x =>
      exact .bind (B := fun _ _ => x = .notificationNotFound) (.rollback (.const _) (.const _)
        fun _ _ h => h) fun _ => .throw (.const _) fun _ _ h => h
  obtain ⟨hi', hp'⟩ := (inbox tasks).faultless.runs_from hr hi
    (fun q m hm => Contract.Safe.onlyIf (hsafe q m hm)) hb.prog (hsure σ.state hb.pending)
  exact nomatch hp' _ hp τ.state ((inbox tasks).faultless.rely_refl p _) hi'

/-- **The inbox state machine.**  In every run of any calls for any users, with any faults:
a row has a time of sending iff it is SENT or READ; ids are unique, and all that ever happens to a row
is that a `mark_read` of its own user moves it from SENT to READ; the unread count is the number of
rows that the unpaged list of the unread has; a `mark_read` that commits has moved a row of its user,
and taken one off the count of this user alone, or has changed nothing.  What it returns is the row,
which is then READ, or was never delivered, and stays as it is; what it throws is
NotificationNotFound, or an error of the database.  Where the user has the notification it does not
throw NotificationNotFound, and where the row is no longer SENT it returns that very row; without the
notification it returns nothing, and on a database that does not fail it throws no other error. -/
theorem inbox_laws (h : Runs inboxSpec.machine (inboxStart tasks) σ) :
    (∀ r ∈ σ.state.store.committed.notifications,
      r.draft.sentAt ≠ none ↔ r.draft.status = .SENT ∨ r.draft.status = .READ) ∧
    (∀ i, (σ.state.store.committed.rowsOf i).length ≤ 1) ∧
    (∀ c ∈ σ.state.store.log, ∀ i r, c.before.find i = some r →
      ∃ r', c.after.find i = some r' ∧ (r' = r ∨ (r.draft.status = .SENT ∧
        tasks c.tx = .markRead i r.draft.userID ∧ r' = r.withStatus .READ))) ∧
    (∀ u limit rows, σ.state.store.committed.notifications.length ≤ limit →
      ListsForUser σ.state.store.committed u limit 0 true rows →
        rows.length = unreadCount σ.state.store.committed u) ∧
    (∀ c ∈ σ.state.store.log, ∀ i u, tasks c.tx = .markRead i u →
      (∃ r, c.before.find i = some r ∧ r.draft.userID = u ∧ r.draft.status = .SENT ∧
        c.after.find i = some (r.withStatus .READ) ∧
        unreadCount c.before u = unreadCount c.after u + 1 ∧
        ∀ v, v ≠ u → unreadCount c.after v = unreadCount c.before v) ∨ c.after = c.before) ∧
    ∀ p i u, tasks p = .markRead i u →
      (∀ res, σ.prog p = some (.ret res) →
        (∃ r, res = .ok [r] ∧ σ.state.store.committed.find i = some r ∧ r.draft.userID = u ∧
          r.draft.status ≠ .SENT) ∨
        res = .error .notificationNotFound ∨ ∃ e, res = .error (.pg e)) ∧
      (Begins tasks σ p → ∀ τ res, Runs inboxSpec.machine σ τ → τ.prog p = some (.ret res) →
        (σ.state.store.committed.owns u i → res ≠ .error .notificationNotFound) ∧
        (∀ r rows, σ.state.store.committed.find i = some r → r.draft.status ≠ .SENT →
          res = .ok rows → rows = [r]) ∧
        (¬τ.state.store.committed.owns u i →
          res = .error .notificationNotFound ∨ ∃ e, res = .error (.pg e)) ∧
        (Runs inboxSpec.faultless σ τ → ∀ e, res ≠ .error (.pg e))) := by
  have hi := (inbox_runs h).1.holds
  refine ⟨fun r hr => (hi.tables.1.valid r hr).sent_iff, hi.tables.1.ids, fun c hc i r hr =>
    (hi.steps c hc).row (hi.tables.2 c hc).1 hr, fun u limit rows => length_listsForUser,
    fun c hc i u htask => ?_, fun p i u htask => ⟨fun res => marked_ends h htask,
      fun hb τ res hr hp => ⟨fun hown e => ?_, fun r rows hfind hst e => ?_, fun hno => ?_,
        fun hf e he => ?_⟩⟩⟩
  · rcases (hi.steps c hc).cases with ⟨-, hne⟩ | ⟨j, v, htask', hm⟩
    · exact absurd htask (hne i u)
    · rw [htask] at htask'
      cases htask'
      exact hm.unread (hi.tables.2 c hc).1
  · exact marked_owned h htask hb hr hown (e ▸ hp)
  · subst e
    rcases marked_ends (h.trans hr) htask hp with ⟨r', e, hr', -, -⟩ | e | ⟨x, e⟩
    · obtain ⟨new, hlog⟩ := Spec.runs_log hr
      obtain ⟨c, hc, hseen⟩ := hi.seen hfind
      have hseen' : Seen i r τ.state.store.log :=
        ⟨c, hlog ▸ List.mem_append_right new hc, hseen⟩
      obtain ⟨r'', hr'', hk⟩ := (inbox_runs (h.trans hr)).1.holds.found hseen'
      rw [hr', hk.final hst] at hr''
      cases hr''
      cases e
      rfl
    · cases e
    · cases e
  · rcases marked_ends (h.trans hr) htask hp with ⟨r', -, hr', hu, -⟩ | e
    · exact absurd ⟨r', hr', hu⟩ hno
    · exact e
  · exact marked_sure h htask hb hf e (he ▸ hp)

end

/-! ### a notification, read twice by its user and once by somebody else -/

section

attribute [local instance] plainTexts

def reading : Fin 4 → Task
  | 0 => .create greeting
  | 1 => .markRead 70 1
  | 2 => .markRead 70 1
  | 3 => .markRead 70 2

def answered : Option (Prog (Cmd Stmt Remote) (Ans Row Reply) (Except Err (List NotificationRow))) →
    Option (Except Err Nat)
  | some (.ret res) => some (res.map List.length)
  | _ => none

theorem answered_ret {m : Option (Prog (Cmd Stmt Remote) (Ans Row Reply)
    (Except Err (List NotificationRow)))} {a : Except Err Nat} (h : answered m = some a) :
    ∃ res, m = some (.ret res) ∧ res.map List.length = a := by
  unfold answered at h
  split at h
  · exact ⟨_, rfl, Option.some.inj h⟩
  · cases h

def reads (p : Fin 4) : Act (Fin 4) (Choice Bool) := .exec p ⟨.none, 70, 0, 5, false⟩

theorem inbox_laws_reading :
    ∃ σ : InboxConf (Fin 4), Runs inboxSpec.machine (inboxStart reading) σ ∧
      σ.prog 3 = some (.ret (.error .notificationNotFound)) ∧
      ∃ r, σ.prog 1 = some (.ret (.ok [r])) ∧ σ.prog 2 = some (.ret (.ok [r])) ∧
        σ.state.store.committed.find 70 = some r ∧ r.draft.status ≠ .SENT ∧
        unreadCount σ.state.store.committed 1 = 0 := by
  obtain ⟨σ, hr, hσ⟩ := Runs.exists_of_run (M := inboxSpec.machine) (σ := inboxStart reading)
    (List.replicate 6 (reads 0) ++ List.replicate 6 (reads 1) ++ List.replicate 3 (reads 2) ++
      List.replicate 3 (reads 3))
    (f := fun σ => (answered (σ.prog 1), answered (σ.prog 2), answered (σ.prog 3),
      unreadCount σ.state.store.committed 1))
    (b := (some (.ok 1), some (.ok 1), some (.error .notificationNotFound), 0)) (by decide +kernel)
  simp only [Prod.mk.injEq] at hσ
  obtain ⟨h₁, h₂, h₃, hcount⟩ := hσ
  obtain ⟨res₁, hp₁, e₁⟩ := answered_ret h₁
  obtain ⟨res₂, hp₂, e₂⟩ := answered_ret h₂
  obtain ⟨res₃, hp₃, e₃⟩ := answered_ret h₃
  have hlaws := (inbox_laws hr).2.2.2.2.2
  have hthird : res₃ = .error .notificationNotFound := by
    cases res₃ with
    | ok rows => cases e₃
    | error x => exact congrArg Except.error (Except.error.inj e₃)
  rcases (hlaws 1 70 1 rfl).1 res₁ hp₁ with ⟨r, rfl, hr₁, -, hst⟩ | rfl | ⟨x, rfl⟩
  · rcases (hlaws 2 70 1 rfl).1 res₂ hp₂ with ⟨r', rfl, hr₂, -, -⟩ | rfl | ⟨x, rfl⟩
    · rw [hr₁] at hr₂
      cases hr₂
      exact ⟨σ, hr, hthird ▸ hp₃, r, hp₁, hp₂, hr₁, hst, hcount⟩
    · cases e₂
    · cases e₂
  · cases e₁
  · cases e₁

end

end Marketplace.Notifications
