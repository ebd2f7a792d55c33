import Marketplace.Auth.Session

/-!
# auth-service: what a transaction has read and written when it commits

* `Setting`          what a run is about: the calls, the contents at its start, and which of the two
                     conditions below its steps meet;
* `Stmt.current`     an UPDATE of a token finds it not revoked yet;
* `apart`            no logout of a user commits while a transaction that adds one of their tokens is
                     under way, nor the other way round;
* `Later q u h`      the token with the hash `h` goes back to a login that read its input after `q`
                     committed;
* `Setting.Good`     what holds of the contents, the log and the reads in every run;
* `Setting.Ready`    what a transaction has read and written when it commits;
* `Good.commit`      its commit keeps what holds.
-/

set_option linter.unusedSectionVars false

namespace Marketplace.Auth

open Table ReadCommitted Interleave Service

/-! ## the conditions -/

/-- an update of a token finds it not revoked -/
def Stmt.current (q : Stmt) (d : Db) : Bool :=
  match q with
  | .updateToken entity => (d.rowsOf entity.tokenID).all fun t => !t.revoked
  | _ => true

def Db.tokensOf (d : Db) (u : UUID) : List RefreshToken := d.tokens.filter (·.userID == u)

/-- `e` has a token of the user that `d` has not -/
def adds (u : UUID) (d e : Db) : Bool :=
  (e.tokensOf u).any fun t => !(d.tokensOf u).any (·.tokenID == t.tokenID)

theorem adds_iff {u : UUID} {d e : Db} :
    adds u d e = true ↔ ∃ t ∈ e.tokens, t.userID = u ∧
      ¬∃ t' ∈ d.tokens, t'.tokenID = t.tokenID ∧ t'.userID = u := by
  simp only [adds, Db.tokensOf, List.any_eq_true, List.mem_filter, beq_iff_eq,
    Bool.not_eq_true', List.any_eq_false]
  constructor
  · rintro ⟨t, ⟨ht, hu⟩, hn⟩
    exact ⟨t, ht, hu, fun ⟨t', ht', hi, hu'⟩ => hn t' ⟨ht', hu'⟩ hi⟩
  · rintro ⟨t, ht, hu, hn⟩
    exact ⟨t, ⟨ht, hu⟩, fun t' ht' hi => hn ⟨t', ht'.1, hi, ht'.2⟩⟩

section
variable {P : Type} [DecidableEq P]

/-- of the transaction of `i`, which leads from `d` to `e`, and the commit `c`, one is a logout and
the other adds a token of its user -/
def crosses (calls : P → Invocation) (i : Invocation) (d e : Db) (c : Commit P Db) : Bool :=
  match i, calls c.tx with
  | .logout u, _ => adds u c.before c.after
  | .login _ _, .logout u => adds u d e
  | .refreshToken _, .logout u => adds u d e
  | _, _ => false

/-- nothing that crosses the transaction of `p` has committed since it read its input -/
def apart (calls : P → Invocation) (p : P) (s : St P) (e : Reads P) : Bool :=
  match e p with
  | none => true
  | some log => (s.log.take (s.log.length - log.length)).all fun c =>
      !crosses calls (calls p) s.committed (s.view p) c

theorem apart_since {calls : P → Invocation} {p : P} {s : St P} {e : Reads P}
    {log new : List (Commit P Db)} (he : e p = some log) (hn : s.log = new ++ log)
    (h : apart calls p s e = true) :
    ∀ c ∈ new, crosses calls (calls p) s.committed (s.view p) c = false := by
  intro c hc
  simp only [apart, he, hn, List.length_append, Nat.add_sub_cancel, List.take_left,
    List.all_eq_true, Bool.not_eq_true'] at h
  exact h c hc

/-! ## where a token comes from -/

/-- the commit made the token with this hash -/
def Issues (c : Commit P Db) (h : String) : Prop :=
  c.before.rowsWith h = [] ∧ c.after.rowsWith h ≠ []

/-- `p` read its input after `q` had committed -/
def ReadAfter (e : Reads P) (q p : P) : Prop := ∃ log, e p = some log ∧ ∃ c ∈ log, c.tx = q

/-- the token was issued by a login that read its input after `q` committed, or by an exchange that
did so, of a token that (if it is one of the user's) was itself issued like that -/
inductive Later (hash : String → String) (calls : P → Invocation) (log : List (Commit P Db))
    (e : Reads P) (q : P) (u : UUID) : String → Prop where
  | login {c : Commit P Db} {email password h : String} (hc : c ∈ log)
      (hp : calls c.tx = .login email password) (hi : Issues c h) (hr : ReadAfter e q c.tx) :
      Later hash calls log e q u h
  | refreshToken {c : Commit P Db} {token h : String} (hc : c ∈ log)
      (hp : calls c.tx = .refreshToken token) (hi : Issues c h) (hr : ReadAfter e q c.tx)
      (hl : ∀ t ∈ c.before.tokens, t.tokenHash = hash token → t.userID = u →
        Later hash calls log e q u (hash token)) :
      Later hash calls log e q u h

theorem Later.mono {hash : String → String} {calls : P → Invocation} {log log' : List (Commit P Db)}
    {e e' : Reads P} {q : P} {u : UUID} {h : String} (hl : Later hash calls log e q u h)
    (hlog : ∀ c ∈ log, c ∈ log') (he : ∀ p l, e p = some l → e' p = some l) :
    Later hash calls log' e' q u h := by
  induction hl with
  | login hc hp hi hr =>
    obtain ⟨l, hl, hq⟩ := hr
    exact .login (hlog _ hc) hp hi ⟨l, he _ _ hl, hq⟩
  | refreshToken hc hp hi hr _ ih =>
    obtain ⟨l, hl, hq⟩ := hr
    exact .refreshToken (hlog _ hc) hp hi ⟨l, he _ _ hl, hq⟩ ih

/-! ## what holds in every run -/

/-- what a run is about -/
structure Setting (P : Type) where
  impl : AuthServiceImpl
  calls : P → Invocation
  initial : Db
  /-- every update of a token is `current` -/
  current : Bool
  /-- every commit is `apart` -/
  apart : Bool

namespace Setting
variable (X : Setting P)

def service : Spec P Db Write Lock (Reads P) Unit Row Reply :=
  (spec.onlyIf fun p q _ s => !X.current || q.current (s.view p)).commitsIf fun p s e =>
    !X.apart || Auth.apart X.calls p s e

/-- an exchanged token is revoked, and one call has exchanged it -/
structure Once (d : Db) (log : List (Commit P Db)) : Prop where
  spent : ∀ c ∈ log, ∀ token, X.calls c.tx = .refreshToken token →
    ∃ t ∈ d.tokens, t.tokenHash = X.impl.hash token ∧ t.revoked = true
  one : ∀ c ∈ log, ∀ c' ∈ log, ∀ token, X.calls c.tx = .refreshToken token →
    X.calls c'.tx = .refreshToken token → c.tx = c'.tx

/-- a token that is not revoked is later than every logout of its user -/
def Ended (d : Db) (log : List (Commit P Db)) (e : Reads P) : Prop :=
  ∀ c ∈ log, ∀ u, X.calls c.tx = .logout u → ∀ t ∈ d.tokens, t.userID = u → t.revoked = false →
    Later X.impl.hash X.calls log e c.tx u t.tokenHash

structure Good (d : Db) (log : List (Commit P Db)) (e : Reads P) : Prop where
  chained : Chained X.initial log d
  keyed : Keyed d
  grows : ∀ c ∈ log, Grows c.before c.after
  once : X.current = true → X.Once d log
  ended : X.apart = true → X.Ended d log e

/-- `p` read its input in a state with these contents, log and reads -/
structure Reading (p : P) (d₁ : Db) (log₁ : List (Commit P Db)) (e₁ : Reads P)
    (σ : State P Db Write Lock (Reads P)) : Prop where
  here : X.Good σ.store.committed σ.store.log σ.ext
  past : X.Good d₁ log₁ e₁
  read : σ.ext p = some log₁
  since : ∃ new, σ.store.log = new ++ log₁
  reads : ∀ q l, e₁ q = some l → σ.ext q = some l

/-- the row may be inserted: nobody else has its id or its hash, or can get them -/
structure Fresh (p : P) (row : RefreshToken) (s : St P) : Prop where
  id : s.locks (.token row.tokenID) = some p ∧ s.committed.rowsOf row.tokenID = []
  hash : s.locks (.hash row.tokenHash) = some p ∧ s.committed.entries row.tokenHash = []

/-- what an exchange has read and locked: the presented token -/
structure Presented (p : P) (token : String) (stored : RefreshToken) (d₁ : Db) (s : St P) :
    Prop where
  mem : stored ∈ d₁.tokens
  hash : stored.tokenHash = X.impl.hash token
  usable : stored.revoked = false
  current : X.current = true → s.locks (.token stored.tokenID) = some p ∧
    ∀ t ∈ s.committed.rowsOf stored.tokenID, t.revoked = false

/-- the row of a token of the user has been revoked, by this transaction or before -/
def Done (p : P) (i : UUID) (s : St P) : Prop :=
  (∃ new, Write.updateToken i new ∈ s.pending p) ∨
    ∃ t ∈ s.committed.tokens, t.tokenID = i ∧ t.revoked = true

/-- what a transaction has read and written when it commits -/
def Ready (p : P) (σ : State P Db Write Lock (Reads P)) : Prop :=
  ∃ d₁ log₁ e₁, X.Reading p d₁ log₁ e₁ σ ∧
    match X.calls p with
    | .login _ _ => ∃ row, Fresh p row σ.store ∧ σ.store.pending p = [.insertToken row]
    | .refreshToken token => ∃ row stored, Fresh p row σ.store ∧
        X.Presented p token stored d₁ σ.store ∧
        σ.store.pending p = [.insertToken row,
          .updateToken stored.tokenID { stored with revoked := true }]
    | .logout u => (∀ w ∈ σ.store.pending p, Revokes σ.store.committed w) ∧
        ∀ i ∈ d₁.revocable u, Done p i σ.store

variable {X} {p : P} {d d₁ : Db} {log log₁ : List (Commit P Db)} {e e₁ e' : Reads P}
  {σ : State P Db Write Lock (Reads P)}

theorem Good.reads (h : X.Good d log e) (he : ∀ q l, e q = some l → e' q = some l) :
    X.Good d log e' :=
  ⟨h.chained, h.keyed, h.grows, h.once, fun ha c hc u hu t ht htu hr =>
    (h.ended ha c hc u hu t ht htu hr).mono (fun _ hc => hc) he⟩

theorem Reading.grows (h : X.Reading p d₁ log₁ e₁ σ) : Grows d₁ σ.store.committed := by
  obtain ⟨new, hn⟩ := h.since
  have hch := h.here.chained
  rw [hn] at hch
  refine h.past.chained.between Grows.refl (fun _ _ _ => Grows.trans) hch fun c hc => ?_
  exact h.here.grows c (hn ▸ List.mem_append_left _ hc)

/-! ## the commit of a transaction -/

/-- the contents after the commit keep the tokens and their keys -/
theorem Good.step (h : X.Good d log e) {d' : Db} (hg : Grows d d') (hk : Keyed d')
    (honce : X.current = true → ∀ token, X.calls p = .refreshToken token →
      (∃ t ∈ d.tokens, t.tokenHash = X.impl.hash token ∧ t.revoked = false) ∧
      ∃ t ∈ d'.tokens, t.tokenHash = X.impl.hash token ∧ t.revoked = true)
    (hended : X.apart = true → X.Ended d' (⟨p, d, d'⟩ :: log) e) :
    X.Good d' (⟨p, d, d'⟩ :: log) e where
  chained := ⟨rfl, h.chained⟩
  keyed := hk
  grows := by
    intro c hc
    rcases List.mem_cons.mp hc with rfl | hc
    · exact hg
    · exact h.grows c hc
  once hc := by
    have ho := h.once hc
    -- a call that has exchanged the token before would have left it revoked
    have hfirst : ∀ c ∈ log, ∀ token, X.calls p = .refreshToken token →
        X.calls c.tx ≠ .refreshToken token := by
      intro c hcl token hp hct
      obtain ⟨t, ht, hth, htr⟩ := ho.spent c hcl token hct
      obtain ⟨t', ht', hth', htr'⟩ := (honce hc token hp).1
      rw [h.keyed.of_hash ht ht' (hth.trans hth'.symm), htr'] at htr
      cases htr
    constructor
    · intro c hcl token hct
      rcases List.mem_cons.mp hcl with rfl | hcl
      · exact (honce hc token hct).2
      · obtain ⟨t, ht, hth, htr⟩ := ho.spent c hcl token hct
        obtain ⟨t', ht', -, hth', -, htr'⟩ := hg t ht
        exact ⟨t', ht', hth'.trans hth, htr' htr⟩
    · intro c hcl c' hcl' token hct hct'
      rcases List.mem_cons.mp hcl with rfl | hcl
      · rcases List.mem_cons.mp hcl' with rfl | hcl'
        · rfl
        · exact absurd hct' (hfirst c' hcl' token hct)
      · rcases List.mem_cons.mp hcl' with rfl | hcl'
        · exact absurd hct (hfirst c hcl token hct')
        · exact ho.one c hcl c' hcl' token hct hct'
  ended := hended

/-- the rows that were there before are as late as they were -/
theorem Good.ended_of (h : X.Good d log e) {d' : Db} {c' : Commit P Db} (ha : X.apart = true)
    (hnew : ∀ c ∈ c' :: log, ∀ u, X.calls c.tx = .logout u → ∀ t ∈ d'.tokens, t.userID = u →
      t.revoked = false → (c ∈ log ∧ ∃ t₀ ∈ d.tokens, t₀.tokenHash = t.tokenHash ∧ t₀.userID = u ∧
        t₀.revoked = false) ∨ Later X.impl.hash X.calls (c' :: log) e c.tx u t.tokenHash) :
    X.Ended d' (c' :: log) e := by
  intro c hc u hu t ht htu hr
  rcases hnew c hc u hu t ht htu hr with ⟨hcl, t₀, ht₀, hth, htu₀, hr₀⟩ | hl
  · rw [← hth]
    exact (h.ended ha c hcl u hu t₀ ht₀ htu₀ hr₀).mono (fun _ => List.mem_cons_of_mem _)
      fun _ _ h => h
  · exact hl

/-- a logout that the transaction does not cross had committed when it read its input -/
theorem Reading.logout_before (hr : X.Reading p d₁ log₁ e₁ σ) {u : UUID} {c : Commit P Db}
    (hp : ∀ u, X.calls p ≠ .logout u) (ha : Auth.apart X.calls p σ.store σ.ext = true)
    (hc : c ∈ σ.store.log) (hu : X.calls c.tx = .logout u)
    (hadds : adds u σ.store.committed (σ.store.view p) = true) : c ∈ log₁ := by
  obtain ⟨new, hn⟩ := hr.since
  have hcross := apart_since hr.read hn ha
  rw [hn] at hc
  rcases List.mem_append.mp hc with hc | hc
  · have hx := hcross c hc
    cases hcall : X.calls p with
    | login email password =>
      simp only [hcall, crosses, hu] at hx
      rw [hx] at hadds
      cases hadds
    | refreshToken token =>
      simp only [hcall, crosses, hu] at hx
      rw [hx] at hadds
      cases hadds
    | logout u' => exact absurd hcall (hp u')
  · exact hc

theorem Fresh.keyed {row : RefreshToken} {s : St P} (h : Fresh p row s)
    (hk : Keyed s.committed) : Keyed (Write.apply (.insertToken row) s.committed) :=
  keyed_insert hk h.id.2 (List.map_eq_nil_iff.mp h.hash.2)

/-- the commit of a transaction that inserts the row issues it -/
theorem Fresh.issues {row t : RefreshToken} {s : St P} (h : Fresh p row s) {e : Db}
    (ht : t ∈ e.tokens) (hth : t.tokenHash = row.tokenHash) :
    Issues ⟨p, s.committed, e⟩ row.tokenHash := by
  refine And.intro (List.map_eq_nil_iff.mp h.hash.2) fun hn => ?_
  exact absurd (beq_iff_eq.mpr hth) (List.filter_eq_nil_iff.mp hn t ht)

/-- and adds it to the tokens of its user -/
theorem Fresh.adds {row t : RefreshToken} {s : St P} (h : Fresh p row s) {e : Db} {u : UUID}
    (ht : t ∈ e.tokens) (hti : t.tokenID = row.tokenID) (htu : t.userID = u) :
    Auth.adds u s.committed e = true := by
  refine adds_iff.mpr ⟨t, ht, htu, fun ⟨t', ht', hi, _⟩ => ?_⟩
  exact absurd (beq_iff_eq.mpr (hi.trans hti)) (List.filter_eq_nil_iff.mp h.id.2 t' ht')

theorem good_login {email password : String} (hcall : X.calls p = .login email password)
    (hr : X.Reading p d₁ log₁ e₁ σ)
    (ha : X.apart = true → Auth.apart X.calls p σ.store σ.ext = true) {row : RefreshToken}
    (hf : Fresh p row σ.store) (hw : σ.store.pending p = [.insertToken row]) :
    X.Good (σ.store.view p) (⟨p, σ.store.committed, σ.store.view p⟩ :: σ.store.log) σ.ext := by
  have hv : (σ.store.view p).tokens = σ.store.committed.tokens ++ [row] := by
    rw [Store.view, hw]
    rfl
  have hg : Grows σ.store.committed (σ.store.view p) := by
    rw [Store.view, hw]
    exact grows_insert row _
  have hk : Keyed (σ.store.view p) := by
    rw [Store.view, hw]
    exact hf.keyed hr.here.keyed
  refine hr.here.step hg hk (fun _ token ht => ?_) fun hap => hr.here.ended_of hap ?_
  · rw [hcall] at ht
    cases ht
  intro c hc u hu t ht htu hrev
  rcases List.mem_cons.mp hc with rfl | hc
  · exact absurd (hcall.symm.trans hu) (by simp)
  rw [hv] at ht
  rcases List.mem_append.mp ht with ht | ht
  · exact .inl ⟨hc, t, ht, rfl, htu, hrev⟩
  obtain rfl : t = row := List.mem_singleton.mp ht
  have hmem : t ∈ (σ.store.view p).tokens := by
    rw [hv]
    exact List.mem_append_right _ (List.mem_singleton_self t)
  have hbefore : c ∈ log₁ := hr.logout_before (by simp [hcall]) (ha hap) hc hu
    (hf.adds hmem rfl htu)
  exact .inr (.login (c := ⟨p, σ.store.committed, σ.store.view p⟩) List.mem_cons_self hcall
    (hf.issues hmem rfl) ⟨log₁, hr.read, c, hbefore, rfl⟩)

theorem good_refreshToken {token : String} (hcall : X.calls p = .refreshToken token)
    (hr : X.Reading p d₁ log₁ e₁ σ)
    (ha : X.apart = true → Auth.apart X.calls p σ.store σ.ext = true) {row stored : RefreshToken}
    (hf : Fresh p row σ.store) (hs : X.Presented p token stored d₁ σ.store)
    (hw : σ.store.pending p = [.insertToken row,
      .updateToken stored.tokenID { stored with revoked := true }]) :
    X.Good (σ.store.view p) (⟨p, σ.store.committed, σ.store.view p⟩ :: σ.store.log) σ.ext := by
  let mid : Db := Write.apply (.insertToken row) σ.store.committed
  let ws : List Write := [.updateToken stored.tokenID { stored with revoked := true }]
  have hv : σ.store.view p = applyAll ws mid := by
    rw [Store.view, hw]
    rfl
  have hkm : Keyed mid := hf.keyed hr.here.keyed
  -- the row of the presented token, as it is now
  obtain ⟨now, hnow, hni, hnh, hnu, -⟩ := hr.grows stored hs.mem
  have hws : ∀ w ∈ ws, Revokes mid w := by
    intro w hw
    obtain rfl := List.mem_singleton.mp hw
    exact ⟨stored.tokenID, _, rfl, rfl, now, List.mem_append_left _ hnow, hni, hnu⟩
  obtain ⟨hgm, hk⟩ := updates_keep hkm hws
  have hg : Grows σ.store.committed (σ.store.view p) := hv ▸ (grows_insert row _).trans hgm
  refine hr.here.step hg (hv ▸ hk) (fun hcur token' ht => ?_) fun hap => hr.here.ended_of hap ?_
  · obtain rfl : token = token' := Invocation.refreshToken.inj (hcall.symm.trans ht)
    refine ⟨⟨now, hnow, hnh.trans hs.hash, ?_⟩, ?_⟩
    · exact (hs.current hcur).2 now (List.mem_filter.mpr ⟨hnow, by simp [hni]⟩)
    · obtain ⟨t, ht, hti, hth, -, -⟩ := hg now hnow
      refine ⟨t, ht, (hth.trans hnh).trans hs.hash, ?_⟩
      rw [hv] at ht
      obtain ⟨t₀, -, -, -, -, hrev⟩ := mem_updates hkm hws ht
      refine hrev.mpr (.inr ⟨{ stored with revoked := true }, ?_⟩)
      rw [hti, hni]
      exact List.mem_singleton_self _
  intro c hc u hu t ht htu hrev
  rcases List.mem_cons.mp hc with rfl | hc
  · exact absurd (hcall.symm.trans hu) (by simp)
  have ht' := ht
  rw [hv] at ht'
  obtain ⟨t₀, ht₀, hti, hth, htu₀, hrev₀⟩ := mem_updates hkm hws ht'
  have hlive : t₀.revoked = false := by
    cases e : t₀.revoked with
    | false => rfl
    | true =>
      rw [hrev₀.mpr (.inl e)] at hrev
      cases hrev
  rcases List.mem_append.mp ht₀ with ht₀ | ht₀
  · exact .inl ⟨hc, t₀, ht₀, hth, htu₀.trans htu, hlive⟩
  obtain rfl : t₀ = row := List.mem_singleton.mp ht₀
  have hbefore : c ∈ log₁ := hr.logout_before (by simp [hcall]) (ha hap) hc hu
    (hf.adds ht hti.symm htu)
  rw [← hth]
  refine .inr (.refreshToken (c := ⟨p, σ.store.committed, σ.store.view p⟩) List.mem_cons_self hcall
    (hf.issues ht hth.symm) ⟨log₁, hr.read, c, hbefore, rfl⟩ fun x hx hxh hxu => ?_)
  -- the presented token, when it was read
  have hsame : now = x := hr.here.keyed.of_hash hnow hx ((hnh.trans hs.hash).trans hxh.symm)
  have hsu : stored.userID = u := by rw [← hnu, hsame, hxu]
  have hl := hr.past.ended hap c hbefore u hu stored hs.mem hsu hs.usable
  rw [hs.hash] at hl
  obtain ⟨new, hn⟩ := hr.since
  refine hl.mono (fun c hc => ?_) hr.reads
  rw [hn]
  exact List.mem_cons_of_mem _ (List.mem_append_right _ hc)

/-- **after a logout no token of its user is left** that is not revoked -/
theorem all_revoked {u : UUID} (hcall : X.calls p = .logout u) (hr : X.Reading p d₁ log₁ e₁ σ)
    (ha : Auth.apart X.calls p σ.store σ.ext = true)
    (hw : ∀ w ∈ σ.store.pending p, Revokes σ.store.committed w)
    (hd : ∀ i ∈ d₁.revocable u, Done p i σ.store) {t : RefreshToken}
    (ht : t ∈ (σ.store.view p).tokens) (htu : t.userID = u) : t.revoked = true := by
  obtain ⟨t₀, ht₀, hti, -, htu₀, hrev⟩ := mem_updates hr.here.keyed hw ht
  refine hrev.mpr ?_
  -- the row was there when the statement took its snapshot
  have hold : ∃ t₁ ∈ d₁.tokens, t₁.tokenID = t₀.tokenID ∧ t₁.userID = u := by
    by_contra hno
    obtain ⟨new, hn⟩ := hr.since
    have hch := hr.here.chained
    rw [hn] at hch
    obtain ⟨c, hc, hb, t', ht', hti', htu'⟩ := hr.past.chained.brought
      (F := fun d => ∃ t₁ ∈ d.tokens, t₁.tokenID = t₀.tokenID ∧ t₁.userID = u) hch hno
      ⟨t₀, ht₀, rfl, htu₀.trans htu⟩
    have hcross := apart_since hr.read hn ha c hc
    simp only [hcall, crosses] at hcross
    have hadds : adds u c.before c.after = true :=
      adds_iff.mpr ⟨t', ht', htu', fun ⟨x, hx, hxi, hxu⟩ => hb ⟨x, hx, hxi.trans hti', hxu⟩⟩
    rw [hadds] at hcross
    cases hcross
  obtain ⟨t₁, ht₁, hti₁, htu₁⟩ := hold
  obtain ⟨t₂, ht₂, hti₂, -, -, hrev₂⟩ := hr.grows t₁ ht₁
  have hsame : t₂ = t₀ := hr.here.keyed.of_id ht₂ ht₀ (hti₂.trans hti₁)
  cases e : t₁.revoked with
  | true =>
    left
    rw [← hsame]
    exact hrev₂ e
  | false =>
    rcases hd t₁.tokenID (mem_revocable.mpr ⟨t₁, ht₁, rfl, htu₁, e⟩) with ⟨new, hn⟩ | ⟨x, hx, hxi, hxr⟩
    · right
      refine ⟨new, ?_⟩
      rw [← hti, ← hti₁]
      exact hn
    · left
      rw [← hr.here.keyed.of_id hx ht₀ (hxi.trans hti₁)]
      exact hxr

theorem good_logout {u : UUID} (hcall : X.calls p = .logout u) (hr : X.Reading p d₁ log₁ e₁ σ)
    (ha : X.apart = true → Auth.apart X.calls p σ.store σ.ext = true)
    (hw : ∀ w ∈ σ.store.pending p, Revokes σ.store.committed w)
    (hd : ∀ i ∈ d₁.revocable u, Done p i σ.store) :
    X.Good (σ.store.view p) (⟨p, σ.store.committed, σ.store.view p⟩ :: σ.store.log) σ.ext := by
  obtain ⟨hg, hk⟩ := updates_keep hr.here.keyed hw
  refine hr.here.step hg hk (fun _ token ht => ?_) fun hap => hr.here.ended_of hap ?_
  · rw [hcall] at ht
    cases ht
  intro c hc v hv t ht htv hrev
  rcases List.mem_cons.mp hc with rfl | hc
  · obtain rfl : u = v := Invocation.logout.inj (hcall.symm.trans hv)
    rw [all_revoked hcall hr (ha hap) hw hd ht htv] at hrev
    cases hrev
  · obtain ⟨t₀, ht₀, -, hth, htu, hrev₀⟩ := mem_updates hr.here.keyed hw ht
    refine .inl ⟨hc, t₀, ht₀, hth, htu.trans htv, ?_⟩
    cases e : t₀.revoked with
    | false => rfl
    | true =>
      rw [hrev₀.mpr (.inl e)] at hrev
      cases hrev

/-- **a commit of a transaction that is ready** keeps what holds -/
theorem Ready.commit (h : X.Ready p σ)
    (hm : X.service.may p σ.store σ.ext = true) :
    X.Good (σ.store.view p) (⟨p, σ.store.committed, σ.store.view p⟩ :: σ.store.log) σ.ext := by
  have ha : X.apart = true → Auth.apart X.calls p σ.store σ.ext = true := by
    intro hap
    have hm' : (!X.apart || Auth.apart X.calls p σ.store σ.ext) = true := hm
    rw [hap] at hm'
    simpa using hm'
  obtain ⟨d₁, log₁, e₁, hr, hready⟩ := h
  cases hcall : X.calls p with
  | login email password =>
    rw [hcall] at hready
    obtain ⟨row, hf, hw⟩ := hready
    exact good_login hcall hr ha hf hw
  | refreshToken token =>
    rw [hcall] at hready
    obtain ⟨row, stored, hf, hs, hw⟩ := hready
    exact good_refreshToken hcall hr ha hf hs hw
  | logout u =>
    rw [hcall] at hready
    exact good_logout hcall hr ha hready.1 hready.2

end Setting

end

end Marketplace.Auth
