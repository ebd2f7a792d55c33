import Marketplace.Auth.Commits

/-!
# auth-service: every operation is ready when it commits

* `Setting.terms`    the contract: `Good` holds, and what a process has read is not forgotten;
* `triple_exec`      a statement;  `triple_first`  the one that reads the input;
* `triple_loginBody`, `triple_refreshTokenBody`, `triple_revokeAllForUser`   the bodies;
* `triple_op`        an operation that succeeds has committed;
* `Setting.runs`     so it is in every run, and `Good` holds throughout.
-/

set_option linter.unusedSectionVars false

namespace Marketplace.Auth

open Table ReadCommitted Interleave Service

section
variable {P : Type} [DecidableEq P]

/-! ## the reads -/

section
variable {p : P} (q : Stmt) (x : Choice Unit) {s : St P} {e : Reads P} {log : List (Commit P Db)}

theorem watch_keeps {p' : P} (h : e p' = some log) : watch p q x s e p' = some log := by
  unfold watch
  cases he : e p with
  | none =>
    have hne : p' ≠ p := by
      rintro rfl
      rw [he] at h
      cases h
    exact (Function.update_of_ne hne _ _).trans h
  | some l => exact h

theorem watch_others {p' : P} (h : p' ≠ p) : watch p q x s e p' = e p' := by
  unfold watch
  cases e p with
  | none => exact Function.update_of_ne h _ _
  | some l => rfl

theorem watch_first (h : e p = none) : watch p q x s e p = some s.log := by
  unfold watch
  rw [h]
  exact Function.update_self ..

theorem watch_read (h : e p = some log) : watch p q x s e = e := by
  unfold watch
  rw [h]

end

namespace Setting
variable (X : Setting P)

/-! ## the contract -/

def terms : Service.Terms X.service where
  I d log e := X.Good d log e
  R p e e' := e' p = e p ∧ ∀ q l, e q = some l → e' q = some l
  refl _ _ := ⟨rfl, fun _ _ h => h⟩
  trans _ _ _ _ h h' := ⟨h'.1.trans h.1, fun q l hl => h'.2 q l (h.2 q l hl)⟩
  note {_ _ q x _ _} h := ⟨watch_others q x h, fun _ _ hl =>
    watch_keeps q x hl⟩
  remote _ h := by
    cases h
    exact ⟨rfl, fun _ _ h => h⟩
  env_R h := nomatch h
  env_I _ h := nomatch h

variable {X} {p : P} {d₁ : Db} {log₁ : List (Commit P Db)} {e₁ : Reads P}

/-! ## assertions -/

/-- nothing has been read or written -/
def Idle (p : P) (σ : State P Db Write Lock (Reads P)) : Prop :=
  σ.store.pending p = [] ∧ σ.ext p = none

theorem Idle.stable : X.terms.Stable p (Idle p) :=
  fun _ _ hr _ h => ⟨hr.seen.pending.trans h.1, hr.ext.1.trans h.2⟩

theorem Reading.stable : X.terms.Stable p (X.Reading p d₁ log₁ e₁) := by
  intro σ τ hr hi h
  obtain ⟨new, hn⟩ := h.since
  obtain ⟨new', hn', -⟩ := hr.seen.log
  exact {
    here := hi.holds
    past := h.past
    read := hr.ext.1.trans h.read
    since := ⟨new' ++ new, by rw [hn', hn, List.append_assoc]⟩
    reads := fun q l hl => hr.ext.2 q l (h.reads q l hl) }

/-- what the others commit meanwhile keeps the tokens -/
theorem Reading.grown {σ τ : State P Db Write Lock (Reads P)} (h : X.Reading p d₁ log₁ e₁ σ)
    (hr : X.terms.Rely p σ τ) (hi : X.terms.Inv τ) :
    Grows σ.store.committed τ.store.committed := by
  obtain ⟨new, hn, -⟩ := hr.seen.log
  have hch := hi.holds.chained
  rw [hn] at hch
  refine h.here.chained.between Grows.refl (fun _ _ _ => Grows.trans) hch fun c hc => ?_
  exact hi.holds.grows c (hn ▸ List.mem_append_left _ hc)

theorem Fresh.stable {row : RefreshToken} : X.terms.Stable p fun σ => Fresh p row σ.store := by
  intro σ τ hr hi h
  exact {
    id := Terms.Stable.committed (T := X.terms) (G := fun d => d.rowsOf row.tokenID = [])
      (fun d e (hde : d.rowsOf _ = e.rowsOf _) hd => hde ▸ hd) σ τ hr hi h.id
    hash := Terms.Stable.committed (T := X.terms) (G := fun d => d.entries row.tokenHash = [])
      (fun d e (hde : d.entries _ = e.entries _) hd => hde ▸ hd) σ τ hr hi h.hash }

theorem Presented.stable {token : String} {stored : RefreshToken} :
    X.terms.Stable p fun σ => X.Presented p token stored d₁ σ.store := by
  intro σ τ hr hi h
  refine { h with current := fun hc => ?_ }
  exact Terms.Stable.committed (T := X.terms)
    (G := fun d => ∀ t ∈ d.rowsOf stored.tokenID, t.revoked = false)
    (fun d e (hde : d.rowsOf _ = e.rowsOf _) hd => hde ▸ hd) σ τ hr hi (h.current hc)

/-- the rows `is` of the snapshot have been dealt with -/
structure Revoking (X : Setting P) (p : P) (d₁ : Db) (log₁ : List (Commit P Db)) (e₁ : Reads P)
    (is : List UUID) (σ : State P Db Write Lock (Reads P)) : Prop where
  reading : X.Reading p d₁ log₁ e₁ σ
  writes : ∀ w ∈ σ.store.pending p, Revokes σ.store.committed w
  done : ∀ i ∈ is, Done p i σ.store

theorem Done.kept {i : UUID} {s t : St P} (h : Done p i s) (hw : ∀ w ∈ s.pending p, w ∈ t.pending p)
    (hg : Grows s.committed t.committed) : Done p i t := by
  rcases h with ⟨new, hn⟩ | ⟨x, hx, hxi, hxr⟩
  · exact .inl ⟨new, hw _ hn⟩
  · obtain ⟨y, hy, hyi, -, -, hyr⟩ := hg x hx
    exact .inr ⟨y, hy, hyi.trans hxi, hyr hxr⟩

theorem Revoking.stable {is : List UUID} : X.terms.Stable p (Revoking X p d₁ log₁ e₁ is) := by
  intro σ τ hr hi h
  have hg := h.reading.grown hr hi
  refine ⟨Reading.stable σ τ hr hi h.reading, ?_, ?_⟩
  · rw [hr.seen.pending]
    exact fun w hw => (h.writes w hw).grows hg
  · intro i hi'
    refine (h.done i hi').kept (fun w hw => ?_) hg
    rw [hr.seen.pending]
    exact hw

/-! ## one rule for every kind of command -/

/-- a statement of the setting is one of the service, sent where the condition allows it -/
theorem service_stmt {q : Stmt} {x : Choice Unit} {s : St P} {r : Except PgErr (Row q) × St P}
    (h : X.service.stmt p q x s = some r) :
    (X.current = true → q.current (s.view p) = true) ∧ stmt p q x s = some r := by
  have h' : (spec.onlyIf fun p q _ s => !X.current || q.current (s.view p)).stmt p q x s =
      some r := h
  obtain ⟨hok, hs⟩ := Spec.onlyIf_stmt _ h'
  refine ⟨fun hc => ?_, hs⟩
  rw [hc] at hok
  simpa using hok

/-- a statement whose error is passed on; about an error nothing is claimed -/
theorem triple_exec {q : Stmt} {F : State P Db Write Lock (Reads P) → Prop}
    {B : Row q → State P Db Write Lock (Reads P) → Prop} (hF : X.terms.Stable p F)
    (hB : ∀ a, X.terms.Stable p (B a))
    (h : ∀ σ x a t, X.terms.Inv σ → F σ → (X.current = true → q.current (σ.store.view p) = true) →
      stmt p q x σ.store = some (.ok a, t) → B a ⟨t, watch p q x σ.store σ.ext⟩) :
    X.terms.Triple p F (exec q) B fun _ _ => True := by
  refine Terms.Triple.sql hF hB (fun _ _ => trivial) fun σ x a t hi ha hs => ?_
  obtain ⟨hcur, hs⟩ := service_stmt hs
  refine ⟨stmt_wellLocked hi.locked hs, hi.holds.reads fun _ _ hl => watch_keeps q x hl, fun r e => ?_⟩
  subst e
  exact h σ x r t hi ha hcur hs

/-- the statement that reads the input -/
theorem triple_first {q : Stmt} (g : Db → Row q)
    (hq : ∀ x s, stmt p q x s = some (.ok (g (s.view p)), s)) :
    X.terms.Triple p (Idle p) (exec q)
      (fun a σ => ∃ d₁ log₁ e₁, X.Reading p d₁ log₁ e₁ σ ∧ σ.store.pending p = [] ∧ a = g d₁)
      fun _ _ => True := by
  refine triple_exec Idle.stable (fun a => ?_) fun σ x a t hi hidle _ hs => ?_
  · exact .ex fun d₁ => .ex fun log₁ => .ex fun e₁ =>
      Reading.stable.and ((Terms.Stable.pending (· = [])).and (.const _))
  · rw [hq] at hs
    cases hs
    refine ⟨σ.store.committed, σ.store.log, σ.ext, ?_, hidle.1, ?_⟩
    · exact {
        here := hi.holds.reads fun _ _ hl => watch_keeps q x hl
        past := hi.holds
        read := watch_first q x hidle.2
        since := ⟨[], rfl⟩
        reads := fun _ _ hl => watch_keeps q x hl }
    · rw [view_of_pending hidle.1]

section
variable {F : State P Db Write Lock (Reads P) → Prop}

/-- a later read -/
theorem triple_find {q : Stmt} (g : Db → Row q)
    (hq : ∀ x s, stmt p q x s = some (.ok (g (s.view p)), s)) (hF : X.terms.Stable p F)
    (hr : ∀ σ, F σ → ∃ log, σ.ext p = some log) :
    X.terms.Triple p F (exec q) (fun _ => F) fun _ _ => True := by
  refine triple_exec hF (fun _ => hF) fun σ x a t _ ha _ hs => ?_
  rw [hq] at hs
  cases hs
  obtain ⟨log, hl⟩ := hr σ ha
  rw [watch_read q x hl]
  exact ha

theorem triple_ask {r : Ask} (hF : X.terms.Stable p F) :
    X.terms.Triple p F (remote r : Op (Reply r)) (fun _ => F) fun _ _ => True := by
  refine Terms.Triple.remote hF (fun _ => hF) fun σ x a e hi ha he => ?_
  cases he
  exact ⟨hi.holds, ha⟩

theorem triple_orThrow {α : Type} {r : Except Jwt.Err α} (hF : X.terms.Stable p F) :
    X.terms.Triple p F (orThrow r : Op α) (fun _ => F) fun _ _ => True := by
  cases r with
  | ok a => exact .pure hF fun _ _ h => h
  | error e => cases e <;> exact .throw hF fun _ _ _ => trivial

theorem triple_newTokens (hF : X.terms.Stable p F) (user : User) :
    X.terms.Triple p F (X.impl.newTokens user) (fun _ => F) fun _ _ => True :=
  .bind (triple_ask hF) fun _ => .bind (triple_ask hF) fun _ => .bind (triple_ask hF) fun _ =>
    .bind (triple_ask hF) fun _ => .pure hF fun _ _ h => h

end

/-! ## the bodies -/

/-- a new token, inserted before anything else is written -/
theorem triple_insertToken {u : UUID} {h : String} {expiresAt : Time} :
    X.terms.Triple p
      (fun σ => X.Reading p d₁ log₁ e₁ σ ∧ σ.store.pending p = [])
      (exec (.insertToken u h expiresAt))
      (fun _ σ => ∃ row, X.Reading p d₁ log₁ e₁ σ ∧ Fresh p row σ.store ∧
        σ.store.pending p = [.insertToken row])
      fun _ _ => True := by
  refine triple_exec (Reading.stable.and (.pending (· = []))) (fun _ => .ex fun row =>
    Reading.stable.and (Fresh.stable.and (.pending (· = _)))) fun σ x a t hi ha _ hs => ?_
  obtain ⟨hread, hp⟩ := ha
  rcases insertToken_cases hs with ⟨e, he, -⟩ | ⟨-, hid, hhash, hput⟩
  · cases he
  have hview : σ.store.view p = σ.store.committed := view_of_pending hp
  rw [hview] at hid hhash
  have hquiet := Quiet.put hput
  refine ⟨⟨x.id, u, h, expiresAt, false, x.now⟩, ?_, ?_, ?_⟩
  · rw [watch_read _ x hread.read]
    refine ⟨?_, hread.past, hread.read, ?_, hread.reads⟩
    · rw [hquiet.committed, hquiet.log]
      exact hread.here
    · rw [hquiet.log]
      exact hread.since
  · constructor
    · refine ⟨put_takes hput List.mem_cons_self, ?_⟩
      rw [hquiet.committed]
      exact find_none hid
    · refine ⟨put_takes hput (List.mem_cons_of_mem _ List.mem_cons_self), ?_⟩
      rw [hquiet.committed, Db.entries, findByTokenHash_none hhash]
      rfl
  · rw [put_pending hput, hp]
    rfl

/-- the presented token, revoked after the new one was inserted -/
theorem triple_updateToken {token : String} {stored : RefreshToken} (row : RefreshToken)
    (hm : stored ∈ d₁.tokens)
    (hh : stored.tokenHash = X.impl.hash token) (hu : stored.revoked = false) :
    X.terms.Triple p
      (fun σ => X.Reading p d₁ log₁ e₁ σ ∧ Fresh p row σ.store ∧
        σ.store.pending p = [.insertToken row])
      (exec (.updateToken { stored with revoked := true }))
      (fun _ σ => X.Reading p d₁ log₁ e₁ σ ∧ Fresh p row σ.store ∧
        X.Presented p token stored d₁ σ.store ∧
        σ.store.pending p = [.insertToken row,
          .updateToken stored.tokenID { stored with revoked := true }])
      fun _ _ => True := by
  refine triple_exec (Reading.stable.and (Fresh.stable.and (.pending (· = _)))) (fun _ =>
    Reading.stable.and (Fresh.stable.and (Presented.stable.and (.pending (· = _)))))
    fun σ x a t hi ha hcur hs => ?_
  obtain ⟨hread, hf, hp⟩ := ha
  rcases updateToken_cases hs with ⟨he, -⟩ | ⟨old, -, hold, hput⟩
  · cases he
  have hquiet := Quiet.put hput
  refine ⟨?_, ⟨?_, ?_⟩, ⟨hm, hh, hu, fun hc => ⟨?_, ?_⟩⟩, ?_⟩
  · rw [watch_read _ x hread.read]
    refine ⟨?_, hread.past, hread.read, ?_, hread.reads⟩
    · rw [hquiet.committed, hquiet.log]
      exact hread.here
    · rw [hquiet.log]
      exact hread.since
  · refine ⟨put_keeps hput hf.id.1, ?_⟩
    rw [hquiet.committed]
    exact hf.id.2
  · refine ⟨put_keeps hput hf.hash.1, ?_⟩
    rw [hquiet.committed]
    exact hf.hash.2
  · exact put_takes hput List.mem_cons_self
  · rw [hquiet.committed]
    intro r hr
    have hall := hcur hc
    have hmem : r ∈ (σ.store.view p).rowsOf stored.tokenID := by
      rw [Store.view, hp]
      obtain ⟨hrm, hri⟩ := List.mem_filter.mp hr
      exact List.mem_filter.mpr ⟨List.mem_append_left _ hrm, hri⟩
    simpa using List.all_eq_true.mp hall r hmem
  · rw [put_pending hput, hp]
    rfl

theorem triple_loginBody {email password : String} (hcall : X.calls p = .login email password) :
    X.terms.Triple p (Idle p) (X.impl.loginBody email password) (fun _ σ => X.Ready p σ)
      fun _ _ => True := by
  refine .bind (triple_first (fun d => d.findByEmail email) fun _ _ => rfl) fun r => ?_
  rintro σ ⟨d₁, log₁, e₁, hr⟩
  have hstable : X.terms.Stable p fun σ => X.Reading p d₁ log₁ e₁ σ ∧ σ.store.pending p = [] :=
    Reading.stable.and (.pending (· = []))
  refine Terms.Triple.pre (B := fun σ => X.Reading p d₁ log₁ e₁ σ ∧ σ.store.pending p = []) ?_
    (A := fun σ => X.Reading p d₁ log₁ e₁ σ ∧ σ.store.pending p = [] ∧ r = _)
    (fun σ h => ⟨h.1, h.2.1⟩) σ hr
  cases r with
  | none => exact .throw hstable fun _ _ _ => trivial
  | some user =>
    simp only
    split
    · exact .throw hstable fun _ _ _ => trivial
    · split
      · exact .throw hstable fun _ _ _ => trivial
      · refine .bind (triple_newTokens hstable user) fun tokens => ?_
        refine .bind_always triple_insertToken fun _ => .pure .always fun σ hi h => ?_
        obtain ⟨row, hread, hf, hp⟩ := h.now hi
        refine ⟨d₁, log₁, e₁, hread, ?_⟩
        rw [hcall]
        exact ⟨row, hf, hp⟩

theorem triple_refreshTokenBody {token : String} (hcall : X.calls p = .refreshToken token) :
    X.terms.Triple p (Idle p) (X.impl.refreshTokenBody token) (fun _ σ => X.Ready p σ)
      fun _ _ => True := by
  refine .bind (triple_ask Idle.stable) fun asked => ?_
  split
  · exact .throw Idle.stable fun _ _ _ => trivial
  refine .bind (triple_ask Idle.stable) fun typed => ?_
  refine .bind (triple_orThrow Idle.stable) fun isRefresh => ?_
  split
  · exact .throw Idle.stable fun _ _ _ => trivial
  refine .bind (triple_first (fun d => d.findByTokenHash (X.impl.hash token)) fun _ _ => rfl)
    fun r => ?_
  rintro σ ⟨d₁, log₁, e₁, hr⟩
  have hstable : X.terms.Stable p fun σ => X.Reading p d₁ log₁ e₁ σ ∧ σ.store.pending p = [] :=
    Reading.stable.and (.pending (· = []))
  refine Terms.Triple.pre (B := fun σ => (X.Reading p d₁ log₁ e₁ σ ∧ σ.store.pending p = []) ∧
    r = d₁.findByTokenHash (X.impl.hash token)) ?_
    (A := fun σ => X.Reading p d₁ log₁ e₁ σ ∧ σ.store.pending p = [] ∧ r = _)
    (fun σ h => ⟨⟨h.1, h.2.1⟩, h.2.2⟩) σ hr
  refine .fact fun hfound => ?_
  cases r with
  | none => exact .throw hstable fun _ _ _ => trivial
  | some stored =>
    obtain ⟨hm, hh⟩ := findByTokenHash_mem hfound.symm
    refine .bind (triple_ask hstable) fun looked => ?_
    split
    · exact .throw hstable fun _ _ _ => trivial
    rename_i husable
    have hu : stored.revoked = false := by
      cases e : stored.revoked with
      | false => rfl
      | true => simp [RefreshToken.isUsable, e] at husable
    refine .bind (triple_ask hstable) fun read => .bind (triple_orThrow hstable) fun userID => ?_
    refine .bind (triple_find (fun d => d.findUser userID) (fun _ _ => rfl) hstable
      fun σ h => ⟨log₁, h.1.read⟩) fun found => ?_
    cases found with
    | none => exact .throw hstable fun _ _ _ => trivial
    | some user =>
      simp only
      split
      · exact .throw hstable fun _ _ _ => trivial
      · refine .bind (triple_newTokens hstable user) fun tokens => ?_
        refine .bind triple_insertToken fun _ => ?_
        rintro σ ⟨row, hrow⟩
        refine Terms.Triple.bind_always (triple_updateToken row hm hh hu)
          (fun _ => .pure .always fun σ hi h => ?_) σ hrow
        obtain ⟨hread, hf, hs, hp⟩ := h.now hi
        refine ⟨d₁, log₁, e₁, hread, ?_⟩
        rw [hcall]
        exact ⟨row, stored, hf, hs, hp⟩

/-- one row of the snapshot: revoked now, or found revoked -/
theorem triple_revokeToken {i u : UUID} {is : List UUID} (hi : i ∈ d₁.revocable u) :
    X.terms.Triple p (Revoking X p d₁ log₁ e₁ is) (exec (.revokeToken i u))
      (fun _ => Revoking X p d₁ log₁ e₁ (i :: is)) fun _ _ => True := by
  refine triple_exec Revoking.stable (fun _ => Revoking.stable) fun σ x a t hinv h _ hs => ?_
  -- the row as it is now: the user's
  obtain ⟨t₁, ht₁, hti₁, htu₁, -⟩ := mem_revocable.mp hi
  obtain ⟨t₂, ht₂, hti₂, -, htu₂, -⟩ := h.reading.grows t₁ ht₁
  obtain ⟨hgrow, hkeyed⟩ := updates_keep h.reading.here.keyed h.writes
  obtain ⟨t₃, ht₃, hti₃, -, htu₃, -⟩ := hgrow t₂ ht₂
  have hid : t₃.tokenID = i := hti₃.trans (hti₂.trans hti₁)
  have huser : t₃.userID = u := htu₃.trans (htu₂.trans htu₁)
  rw [watch_read _ x h.reading.read]
  rcases revokeToken_cases hs with ⟨-, rfl, hrev⟩ | ⟨row, -, hrow, hru, hput⟩
  · refine ⟨h.reading, h.writes, fun j hj => ?_⟩
    rcases List.mem_cons.mp hj with rfl | hj
    · have hfind : (σ.store.view p).find j = some t₃ := by
        cases hf : (σ.store.view p).find j with
        | none => exact absurd (beq_iff_eq.mpr hid) (List.find?_eq_none.mp hf t₃ ht₃)
        | some y =>
          rw [hkeyed.of_id (find_mem hf).1 ht₃ ((find_mem hf).2.trans hid.symm)]
      obtain ⟨t₀, ht₀, hti₀, -, -, hrev₀⟩ := mem_updates h.reading.here.keyed h.writes ht₃
      rcases hrev₀.mp (hrev t₃ hfind huser) with hr | ⟨new, hn⟩
      · exact .inr ⟨t₀, ht₀, hti₀.trans hid, hr⟩
      · exact .inl ⟨new, hid ▸ hn⟩
    · exact h.done j hj
  · have hquiet := Quiet.put hput
    have hpend := put_pending hput
    refine ⟨⟨?_, h.reading.past, h.reading.read, ?_, h.reading.reads⟩, ?_, ?_⟩
    · rw [hquiet.committed, hquiet.log]
      exact h.reading.here
    · rw [hquiet.log]
      exact h.reading.since
    · rw [hquiet.committed, hpend]
      intro w hw
      rcases List.mem_append.mp hw with hw | hw
      · exact h.writes w hw
      · obtain rfl := List.mem_singleton.mp hw
        exact ⟨i, _, rfl, rfl, t₂, ht₂, hti₂.trans hti₁, (htu₂.trans htu₁).trans hru.symm⟩
    · intro j hj
      rw [show Done p j t ↔ Done p j t from Iff.rfl]
      rcases List.mem_cons.mp hj with rfl | hj
      · refine .inl ⟨{ row with revoked := true }, ?_⟩
        rw [hpend]
        exact List.mem_append_right _ (List.mem_singleton_self _)
      · refine (h.done j hj).kept (fun w hw => ?_) ?_
        · rw [hpend]
          exact List.mem_append_left _ hw
        · rw [hquiet.committed]
          exact Grows.refl _

theorem triple_revokeEach {u : UUID} (is : List UUID) {js : List UUID}
    (hi : ∀ i ∈ js, i ∈ d₁.revocable u) :
    X.terms.Triple p (Revoking X p d₁ log₁ e₁ is) (AuthServiceImpl.revokeEach u js)
      (fun _ σ => ∃ ks, (∀ i ∈ is ++ js, i ∈ ks) ∧ Revoking X p d₁ log₁ e₁ ks σ)
      fun _ _ => True := by
  induction js generalizing is with
  | nil => exact .pure Revoking.stable fun σ _ h => ⟨is, by simp, h⟩
  | cons j js ih =>
    refine .bind (triple_revokeToken (hi j List.mem_cons_self)) fun n => ?_
    refine .bind (ih (j :: is) fun i h => hi i (List.mem_cons_of_mem _ h)) fun m => ?_
    refine .pure (.ex fun ks => (Terms.Stable.const _).and Revoking.stable) ?_
    rintro σ - ⟨ks, hks, h⟩
    refine ⟨ks, fun i hi => hks i ?_, h⟩
    simp only [List.cons_append, List.mem_cons, List.mem_append] at hi ⊢
    tauto

theorem triple_revokeAllForUser {u : UUID} (hcall : X.calls p = .logout u) :
    X.terms.Triple p (Idle p) (AuthServiceImpl.revokeAllForUser u) (fun _ σ => X.Ready p σ)
      fun _ _ => True := by
  refine .bind (triple_first (fun d => d.revocable u) fun _ _ => rfl) fun is => ?_
  rintro σ ⟨d₁, log₁, e₁, hr, hp, rfl⟩
  refine Terms.Triple.weaken (triple_revokeEach [] fun i h => h) (fun _ h => h) ?_
    (fun _ _ _ _ => trivial) σ ⟨hr, by simp [hp], by simp⟩
  rintro _ σ - ⟨ks, hks, h⟩
  refine ⟨d₁, log₁, e₁, h.reading, ?_⟩
  rw [hcall]
  exact ⟨h.writes, fun i hi => h.done i (hks i (by simpa using hi))⟩

/-! ## the operations -/

theorem triple_body {i : Invocation} (hcall : X.calls p = i) :
    X.terms.Triple p (Idle p) (i.body X.impl) (fun _ σ => X.Ready p σ) fun _ _ => True := by
  have hreturn : ∀ {α : Type} {m : Op α} (f : α → Answer),
      X.terms.Triple p (Idle p) m (fun _ σ => X.Ready p σ) (fun _ _ => True) →
      X.terms.Triple p (Idle p) (m >>= fun a => pure (f a)) (fun _ σ => X.Ready p σ)
        fun _ _ => True :=
    fun f hm => .bind_always hm fun _ => .pure .always fun _ hi h => h.now hi
  cases i with
  | login email password => exact hreturn .tokens (triple_loginBody hcall)
  | refreshToken token => exact hreturn .tokens (triple_refreshTokenBody hcall)
  | logout u => exact hreturn (fun _ => .noContent) (triple_revokeAllForUser hcall)

/-- **an operation that succeeds has committed** -/
theorem triple_op :
    X.terms.Triple p (Idle p) ((X.calls p).op X.impl)
      (fun _ σ => ∃ c ∈ σ.store.log, c.tx = p) fun _ _ => True := by
  refine .inTx_may Idle.stable Idle.stable (fun _ => .ex fun c => ?_) (fun _ => .const True)
    (fun σ n _ h => h) (triple_body rfl) (fun _ _ _ _ => trivial) (fun a σ _ h => ⟨?_, ?_⟩)
    (fun _ _ => trivial) (fun _ _ => trivial)
  · exact (Terms.Stable.log c).and (.const _)
  · exact fun hm => h.commit hm
  · exact ⟨_, List.mem_cons_self, rfl⟩

/-! ## every run -/

theorem good_initial (hk : Keyed X.initial) : X.Good X.initial [] fun _ => none where
  chained := rfl
  keyed := hk
  grows _ hc := absurd hc List.not_mem_nil
  once _ := ⟨fun _ hc => absurd hc List.not_mem_nil, fun _ hc => absurd hc List.not_mem_nil⟩
  ended _ _ hc := absurd hc List.not_mem_nil

/-- **In every run** whose steps meet the conditions of the setting what holds keeps holding, and a
call that has returned an answer has committed. -/
theorem runs (hk : Keyed X.initial) {σ : Config P}
    (h : Runs X.service.machine (start X.impl X.calls X.initial) σ) :
    X.Good σ.state.store.committed σ.state.store.log σ.state.ext ∧
      ∀ p a, σ.prog p = some (.ret (.ok a)) → ∃ c ∈ σ.state.store.log, c.tx = p := by
  have hstart : X.terms.Inv (start X.impl X.calls X.initial).state :=
    ⟨fun p w hw => absurd hw List.not_mem_nil, good_initial hk⟩
  have hops : ∀ p m, (start X.impl X.calls X.initial).prog p = some m →
      X.terms.contract.Safe p (Terms.ends (fun _ σ => ∃ c ∈ σ.store.log, c.tx = p)
        fun _ _ => True) m (start X.impl X.calls X.initial).state := by
    intro p m hm
    obtain rfl : ((X.calls p).op X.impl).run = m := Option.some.inj hm
    exact triple_op (start X.impl X.calls X.initial).state ⟨rfl, rfl⟩
  obtain ⟨hi, hp⟩ := X.terms.contract.runs h hstart hops
  refine ⟨hi.holds, fun p a ha => ?_⟩
  exact hp p _ ha σ.state (X.terms.contract.rely_refl p _) hi

end Setting

end

end Marketplace.Auth
