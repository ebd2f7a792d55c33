import Marketplace.Offers.Session

/-!
# offer-service: the life of an offer

* `LifeStep i d e`   what a commit may do to the offer `i`: nothing, create it, or change a PENDING
                     one; a decision leaves terms and picture alone;
* `guarded ok`       offer-service, as long as its statements meet the condition `ok`;
* `currentSpec`      as long as every update finds what it takes for granted (`Stmt.current`).
                     Nothing in the code checks this;
* `offer_lifecycle`  in every run whose updates all meet this the offer is decided at most once and
                     frozen from then on, and every success is in the log;
* `decided_twice`    without it, a cancellation overwrites an approval.
-/

set_option linter.unusedSectionVars false

namespace Marketplace.Offers

open Table Events ReadCommitted Interleave Service

/-! ## one commit -/

/-- row and picture of the offer are left alone -/
def Unchanged (i : UUID) (d e : Db) : Prop := d.rowsOf i = e.rowsOf i ∧ d.imagesOf i = e.imagesOf i

/-- what a commit may do to the offer `i` -/
def LifeStep (i : UUID) (d e : Db) : Prop :=
  Unchanged i d e ∨
  (d.rowsOf i = [] ∧ ∃ o, e.rowsOf i = [o] ∧ o.status = .PENDING) ∨
  ∃ o o', d.rowsOf i = [o] ∧ e.rowsOf i = [o'] ∧ o.status = .PENDING ∧
    o'.sellerID = o.sellerID ∧ o'.requestID = o.requestID ∧
    (o'.status = .PENDING ∨
      o'.terms = o.terms ∧ o'.imageType = o.imageType ∧ d.imagesOf i = e.imagesOf i)

/-- at most one offer of the seller on the request is live -/
def LiveOne (s r : UUID) (d : Db) : Prop := ((d.liveMap s r).filter (·.2)).length ≤ 1

theorem rowsOf_updateOffer (old : Offer) (set : Columns) (now : Time) (d : Db)
    (h : d.rowsOf old.offerID = [old]) :
    (Write.apply (.updateOffer old set now) d).rowsOf old.offerID = [old.updated set now] := by
  show (updateWhere _ _ d.offers).filter _ = _
  rw [filter_updateWhere _ _ _ (by intro x _; rfl)]
  show updateWhere _ _ (d.rowsOf old.offerID) = _
  rw [h]
  simp [updateWhere, Offer.isRow]

/-- an update of a live row adds no live row -/
theorem liveOne_updateOffer {old : Offer} (set : Columns) (now : Time) {d : Db}
    (hl : old.status.live = true) {s r : UUID} (h : LiveOne s r d) :
    LiveOne s r (Write.apply (.updateOffer old set now) d) := by
  unfold LiveOne at h ⊢
  rw [liveMap_updateOffer, List.filter_map, List.length_map]
  refine Nat.le_trans ?_ h
  refine (List.monotone_filter_right _ fun x hx => ?_).length_le
  simp only [Function.comp] at hx
  split at hx
  · rename_i hc
    simp only [Bool.and_eq_true, beq_iff_eq] at hc
    rw [hc.2, hl]
  · exact hx

/-- a new offer is the only live one if there was none -/
theorem liveOne_insertOffer {o : Offer} {d : Db}
    (h : (d.liveMap o.sellerID o.requestID).filter (·.2) = []) {s r : UUID} (hd : LiveOne s r d) :
    LiveOne s r (Write.apply (.insertOffer o) d) := by
  by_cases e : Lock.live s r ∈ Write.takes (.insertOffer o)
  · simp only [Write.takes, List.mem_cons, reduceCtorEq, Lock.live.injEq, List.not_mem_nil,
      or_false, false_or] at e
    obtain ⟨rfl, rfl⟩ := e
    have hm : (Write.apply (.insertOffer o) d).liveMap o.sellerID o.requestID =
        d.liveMap o.sellerID o.requestID ++ [(o.offerID, o.status.live)] := by
      show ((d.offers ++ [o]).filter _).map _ = _
      rw [List.filter_append, List.map_append]
      simp [Db.liveMap, Db.offersBy]
    unfold LiveOne
    rw [hm, List.filter_append, h, List.nil_append]
    exact List.length_filter_le _ _
  · have hsame : d.liveMap s r = (Write.apply (.insertOffer o) d).liveMap s r :=
      sameUnder_apply (l := .live s r) d e
    unfold LiveOne
    rw [← hsame]
    exact hd

/-- a write on the offer `i` alone -/
def Write.on (i : UUID) (w : Write) : Prop :=
  (∀ j, Lock.offer j ∈ w.takes → j = i) ∧ ∀ j, Lock.image j ∈ w.takes → j = i

theorem Write.besides.on {i : UUID} {w : Write} (h : w.besides i) : w.on i := by
  cases w with
  | insertOffer o => exact h.elim
  | updateOffer old set now => exact h.elim
  | insertImage oi => exact ⟨by simp [Write.takes], by simpa [Write.takes, Write.besides] using h⟩
  | updateImage j data now =>
    exact ⟨by simp [Write.takes], by simpa [Write.takes, Write.besides] using h⟩
  | insertOutbox row => exact ⟨by simp [Write.takes], by simp [Write.takes]⟩

theorem on_updateOffer (old : Offer) (set : Columns) (now : Time) :
    (Write.updateOffer old set now).on old.offerID := by
  refine ⟨fun j hj => ?_, fun j hj => ?_⟩
  · simp only [Write.takes, List.mem_cons, Lock.offer.injEq] at hj
    rcases hj with hj | hj
    · exact hj
    · split at hj <;> simp at hj
  · simp only [Write.takes, List.mem_cons, reduceCtorEq, false_or] at hj
    split at hj <;> simp at hj

theorem on_insertOffer (o : Offer) : (Write.insertOffer o).on o.offerID :=
  ⟨by simp [Write.takes], by simp [Write.takes]⟩

theorem unchanged_of_on {i j : UUID} (ws : List Write) (h : ∀ w ∈ ws, w.on i) (hj : j ≠ i) (d : Db) :
    Unchanged j d (applyAll ws d) :=
  ⟨same_applyAll (l := Lock.offer j) ws (fun w hw hm => hj ((h w hw).1 j hm)) d,
    same_applyAll (l := Lock.image j) ws (fun w hw hm => hj ((h w hw).2 j hm)) d⟩

section
variable {P E Y : Type} [DecidableEq P]

/-- offer-service, as long as its statements meet the condition -/
def guarded (ok : Stmt → Db → Bool) (out : Outside P E Y) : Spec P Db Write Lock E Y Row Reply :=
  (spec out).onlyIf fun p q _ s => ok q (s.view p)

/-- what an update takes for granted holds of the contents it finds -/
def Stmt.current (q : Stmt) (d : Db) : Bool := q.pending d && q.exact d

def currentSpec (out : Outside P E Y) : Spec P Db Write Lock E Y Row Reply :=
  guarded Stmt.current out

variable {ok : Stmt → Db → Bool} {out : Outside P E Y}

/-! ## what every commit keeps -/

structure Good (d : Db) (log : List (Commit P Db)) : Prop where
  chained : Chained Db.empty log d
  one : ∀ i, (d.rowsOf i).length ≤ 1
  live : ∀ s r, LiveOne s r d
  steps : ∀ c ∈ log, ∀ i, LifeStep i c.before c.after

def terms (ok : Stmt → Db → Bool) (out : Outside P E Y) : Service.Terms (guarded ok out) where
  I d log _ := Good d log
  R _ _ _ := True
  refl _ _ := trivial
  trans _ _ _ _ _ _ := trivial
  note _ := trivial
  remote _ _ := trivial
  env_R _ := trivial
  env_I h _ := h

/-- the condition implies that updates are sent on PENDING rows only -/
def Strict (ok : Stmt → Db → Bool) : Prop := ∀ q d, ok q d = true → q.pending d = true

/-- the condition implies that nothing is left out by mistake -/
def Exact (ok : Stmt → Db → Bool) : Prop := ∀ q d, ok q d = true → q.exact d = true

theorem strict_current : Strict Stmt.current := fun _ _ h => (Bool.and_eq_true_iff.mp h).1

theorem exact_current : Exact Stmt.current := fun _ _ h => (Bool.and_eq_true_iff.mp h).2

theorem reports : Reports (terms ok out) := ⟨fun h => h, fun h _ => h⟩

theorem sessions : Sessions (terms ok out) (Strict ok) (Exact ok) where
  stmt h := (Spec.onlyIf_stmt _ h).2
  pending hok _ q _ _ _ h := hok q _ (Spec.onlyIf_stmt _ h).1
  exact hok _ q _ _ _ h := hok q _ (Spec.onlyIf_stmt _ h).1
  note _ h := h

variable {p : P} {i : UUID} {inv : Invocation}

/-- a commit of writes on the offer `i` alone -/
theorem Good.commit {s : St P} (hg : Good s.committed s.log)
    (hon : ∀ w ∈ s.pending p, w.on i) (hone : ((s.view p).rowsOf i).length ≤ 1)
    (hlive : ∀ sl r, LiveOne sl r (s.view p)) (hstep : LifeStep i s.committed (s.view p)) :
    Good (s.view p) (⟨p, s.committed, s.view p⟩ :: s.log) := by
  have hother : ∀ j, j ≠ i → Unchanged j s.committed (s.view p) :=
    fun j hj => unchanged_of_on _ hon hj _
  refine ⟨⟨rfl, hg.chained⟩, fun j => ?_, hlive, fun c hc j => ?_⟩
  · by_cases e : j = i
    · exact e ▸ hone
    · rw [← (hother j e).1]
      exact hg.one j
  · rcases List.mem_cons.mp hc with rfl | hc
    · by_cases e : j = i
      · exact e ▸ hstep
      · exact .inl (hother j e)
    · exact hg.steps c hc j

theorem live_of_offers {d e : Db} (h : e.offers = d.offers) {sl r : UUID} (hd : LiveOne sl r d) :
    LiveOne sl r e := by
  unfold LiveOne Db.liveMap Db.offersBy at hd ⊢
  rw [h]
  exact hd

/-- an update of a PENDING row: terms and picture, or a status -/
theorem good_flushed {exact : Prop} {loaded : Offer} {set : Columns} {rest : List Write} {s : St P}
    (hg : Good s.committed s.log) (h : Flushed True exact p loaded set rest s)
    (hrest : ∀ w ∈ rest, w.besides loaded.offerID)
    (hset : set.status = none ∨ (∃ st, set = { status := some st }) ∧ rest = []) :
    Good (s.view p) (⟨p, s.committed, s.view p⟩ :: s.log) := by
  obtain ⟨old, now, hf, hp, hoffers, hs, -⟩ := h.offers hrest
  have hs := hs trivial
  have hid : old.offerID = loaded.offerID := find_id hf
  have hrows : s.committed.rowsOf old.offerID = [old] :=
    eq_singleton (hg.one _) (hid ▸ find_mem hf)
  have hnew : (s.view p).rowsOf old.offerID = [old.updated (set.changed loaded) now] := by
    unfold Db.rowsOf
    rw [hoffers]
    exact rowsOf_updateOffer old _ now _ hrows
  refine hg.commit (i := old.offerID) (fun w hw => ?_) (by rw [hnew]; exact Nat.le_refl 1)
    (fun sl r => live_of_offers hoffers (liveOne_updateOffer _ _ (by rw [hs]; rfl) (hg.live sl r)))
    (.inr (.inr ⟨old, _, hrows, hnew, hs, rfl, rfl, ?_⟩))
  · rw [hp] at hw
    rcases List.mem_cons.mp hw with rfl | hw
    · exact on_updateOffer _ _ _
    · exact hid ▸ (hrest w hw).on
  · rcases hset with hst | ⟨⟨st, rfl⟩, rfl⟩
    · left
      show (set.status.filter _).getD old.status = .PENDING
      rw [hst]
      exact hs
    · refine .inr ⟨rfl, rfl, ?_⟩
      rw [Store.view, hp]
      rfl

theorem good_created {o : Offer} {s : St P} (hg : Good s.committed s.log) (h : Created p o s)
    (hs : o.status = .PENDING) : Good (s.view p) (⟨p, s.committed, s.view p⟩ :: s.log) := by
  obtain ⟨rest, hp, hrest⟩ := h.pending
  have hempty := find_none h.absent
  have hnew : (s.view p).rowsOf o.offerID = [o] := by
    unfold Db.rowsOf
    rw [h.offers]
    show (s.committed.offers ++ [o]).filter _ = _
    rw [List.filter_append]
    show s.committed.rowsOf o.offerID ++ _ = _
    rw [hempty]
    simp
  refine hg.commit (i := o.offerID) (fun w hw => ?_) (by rw [hnew]; exact Nat.le_refl 1)
    (fun sl r => live_of_offers h.offers (liveOne_insertOffer h.lone (hg.live sl r)))
    (.inr (.inl ⟨hempty, o, hnew, hs⟩))
  rw [hp] at hw
  rcases List.mem_cons.mp hw with rfl | hw
  · exact on_insertOffer o
  · exact (hrest w hw).on

theorem columnsWith_status (t : Terms) (im : Bytes) (ty : String) :
    (t.columnsWith im ty).status = none := by
  unfold Terms.columnsWith
  split <;> rfl

theorem Flushed.mono {strict strict' exact : Prop} {loaded : Offer} {set : Columns}
    {rest : List Write} {s : St P} (h : Flushed strict exact p loaded set rest s)
    (hs : strict' → strict) : Flushed strict' exact p loaded set rest s := by
  obtain ⟨old, now, hf, hp, hc⟩ := h.row
  exact ⟨h.held, h.fresh, old, now, hf, hp, fun h => hc.1 (hs h), hc.2⟩

theorem commits (hok : Strict ok) :
    Commits (terms ok out) (Strict ok) (Exact ok) (fun _ _ _ => True) p inv where
  reads _ _ _ _ _ _ _ _ := trivial
  keeps i σ hi h := by
    cases inv with
    | createOffer sl r t as im ty =>
      obtain ⟨o, -, -, -, -, hs, hc⟩ := h
      exact good_created hi.holds hc hs
    | updateOffer j sl t im ty =>
      obtain ⟨-, loaded, rest, hid, hrest, hf, -⟩ := h
      exact good_flushed hi.holds (hf.mono fun _ => hok) (hid ▸ hrest)
        (.inl (columnsWith_status _ _ _))
    | cancelOffer j sl =>
      obtain ⟨-, loaded, -, -, hf⟩ := h
      exact good_flushed hi.holds (hf.mono fun _ => hok) (by simp) (.inr ⟨⟨_, rfl⟩, rfl⟩)
    | setStatus j st =>
      obtain ⟨-, loaded, -, -, hf⟩ := h
      exact good_flushed hi.holds (hf.mono fun _ => hok) (by simp) (.inr ⟨⟨_, rfl⟩, rfl⟩)

/-! ## what a success has committed -/

/-- the commit of a call does what the call asked for -/
def Reflects (inv : Invocation) (d e : Db) : Prop :=
  match inv with
  | .createOffer sl r t _ _ _ => ∃ i o, d.find i = none ∧ e.find i = some o ∧ o.sellerID = sl ∧
      o.requestID = r ∧ o.terms = t ∧ o.status = .PENDING
  | .updateOffer i _ t im ty =>
    ∃ o o', d.find i = some o ∧ o.status = .PENDING ∧ e.find i = some o' ∧ o'.status = .PENDING ∧
      o'.terms = t ∧ (im ≠ [] → o'.imageType = ty ∧ e.picture i = some im)
  | .cancelOffer i _ =>
    ∃ o o', d.find i = some o ∧ o.status = .PENDING ∧ e.find i = some o' ∧ o'.status = .CANCELLED
  | .setStatus i st =>
    ∃ o o', d.find i = some o ∧ o.status = .PENDING ∧ e.find i = some o' ∧ o'.status = st.status

theorem Wrote.reflects {strict exact : Prop} (hs : strict) (hx : exact) {c : Commit P Db}
    (h : Wrote strict exact p i inv c) : Reflects inv c.before c.after := by
  obtain ⟨s, hr, hb, ha⟩ := h
  rw [hb, ha]
  cases inv with
  | createOffer sl r t as im ty =>
    obtain ⟨o, rfl, hsl, hr, ht, hs, hc⟩ := hr
    exact ⟨o.offerID, o, hc.absent, hc.find, hsl, hr, ht, hs⟩
  | updateOffer j sl t im ty =>
    obtain ⟨rfl, loaded, rest, rfl, hrest, hf, hpic⟩ := hr
    obtain ⟨old, now, hold, hnew, hc⟩ := hf.find hrest
    have hupd : old.updated ((t.columnsWith im ty).changed loaded) now =
        old.updated (t.columnsWith im ty) now := by rw [Offer.updated, Offer.updated, hc.2 hx]
    rw [hupd] at hnew
    refine ⟨old, _, hold, hc.1 hs, hnew, ?_, ?_, fun hne => ⟨?_, hpic hx hne⟩⟩
    · show (t.columnsWith im ty).status.getD old.status = _
      rw [columnsWith_status]
      exact hc.1 hs
    · unfold Terms.columnsWith
      split <;> rfl
    · unfold Terms.columnsWith
      rw [if_neg hne]
      rfl
  | cancelOffer j sl =>
    obtain ⟨rfl, loaded, rfl, hl, hf⟩ := hr
    obtain ⟨old, now, hold, hnew, hc⟩ := hf.find (by simp)
    exact ⟨old, _, hold, hc.1 hs, hnew, changed_status hl (by simp) old now⟩
  | setStatus j st =>
    obtain ⟨rfl, loaded, rfl, hl, hf⟩ := hr
    obtain ⟨old, now, hold, hnew, hc⟩ := hf.find (by simp)
    exact ⟨old, _, hold, hc.1 hs, hnew, changed_status hl (Decision.decides st) old now⟩

/-! ## the history of an offer -/

/-- the commit changes the status of an offer that was there -/
def changesStatus (i : UUID) (c : Commit P Db) : Bool :=
  c.before.statusOf i ≠ none && c.after.statusOf i ≠ c.before.statusOf i

theorem statusOf_of_rows {d : Db} {o : Offer} (h : d.rowsOf i = [o]) :
    d.statusOf i = some o.status := by
  rw [Db.statusOf, find_eq, h]
  rfl

/-- a decided offer is left alone -/
theorem LifeStep.frozen {d e : Db} (h : LifeStep i d e) {o : Offer} (ho : d.find i = some o)
    (hs : o.status ≠ .PENDING) : Unchanged i d e := by
  rw [find_eq] at ho
  rcases h with h | ⟨h, -⟩ | ⟨o₁, o', h, -, hp, -⟩
  · exact h
  · rw [h] at ho
    cases ho
  · rw [h] at ho
    cases ho
    exact absurd hp hs

/-- an offer stays, and stays with its seller and its request -/
theorem LifeStep.keeps {d e : Db} (h : LifeStep i d e) {o : Offer} (ho : d.find i = some o) :
    ∃ o', e.find i = some o' ∧ o'.sellerID = o.sellerID ∧ o'.requestID = o.requestID := by
  rw [find_eq] at ho
  rcases h with h | ⟨h, -⟩ | ⟨o₁, o', h, h', -, hs, hr, -⟩
  · exact ⟨o, by rw [find_eq, ← h.1, ho], rfl, rfl⟩
  · rw [h] at ho
    cases ho
  · rw [h] at ho
    cases ho
    exact ⟨o', by rw [find_eq, h']; rfl, hs, hr⟩

/-- what one commit has decided is so at the end of the log -/
theorem frozen_along {log : List (Commit P Db)} {d e : Db} (hch : Chained d log e)
    (hs : ∀ c ∈ log, LifeStep i c.before c.after) {c : Commit P Db} (hc : c ∈ log) {o : Offer}
    (ho : c.after.find i = some o) (hne : o.status ≠ .PENDING) : e.find i = some o := by
  induction log generalizing e with
  | nil => cases hc
  | cons c' log ih =>
    obtain ⟨rfl, hch⟩ := hch
    rcases List.mem_cons.mp hc with rfl | hc
    · exact ho
    · have hb := ih hch (fun c hc => hs c (List.mem_cons_of_mem _ hc)) hc
      rw [find_eq, ← ((hs c' List.mem_cons_self).frozen hb hne).1, ← find_eq, hb]

/-- two live offers of a seller on a request are one -/
theorem LiveOne.unique {d : Db} {o o' : Offer} {j : UUID} (h : LiveOne o.sellerID o.requestID d)
    (ho : d.find i = some o) (ho' : d.find j = some o') (hs : o'.sellerID = o.sellerID)
    (hr : o'.requestID = o.requestID) (hl : o.status.live = true) (hl' : o'.status.live = true) :
    i = j := by
  have mem : ∀ {k : UUID} {x : Offer}, d.find k = some x → x.sellerID = o.sellerID →
      x.requestID = o.requestID → x.status.live = true →
      (k, true) ∈ (d.liveMap o.sellerID o.requestID).filter (·.2) := by
    intro k x hx hs hr hl
    refine List.mem_filter.mpr ⟨List.mem_map.mpr ⟨x, List.mem_filter.mpr ⟨?_, ?_⟩, ?_⟩, rfl⟩
    · exact (List.mem_filter.mp (find_mem hx)).1
    · simp [hs, hr]
    · rw [find_id hx, hl]
  have hone := eq_singleton h (mem ho rfl rfl hl)
  have hm := mem ho' hs hr hl'
  rw [hone, List.mem_singleton] at hm
  exact (congrArg Prod.fst hm).symm

/-- only a PENDING offer changes its status -/
theorem LifeStep.decides {d e : Db} (h : LifeStep i d e) (hn : d.statusOf i ≠ none)
    (hc : e.statusOf i ≠ d.statusOf i) :
    d.statusOf i = some .PENDING ∧ ∃ st, e.statusOf i = some st ∧ st ≠ .PENDING := by
  rcases h with h | ⟨h, -⟩ | ⟨o, o', ho, ho', hp, -⟩
  · refine absurd ?_ hc
    rw [Db.statusOf, Db.statusOf, find_eq, find_eq, h.1]
  · refine absurd ?_ hn
    rw [Db.statusOf, find_eq, h]
    rfl
  · rw [statusOf_of_rows ho, statusOf_of_rows ho', hp] at hc
    refine ⟨by rw [statusOf_of_rows ho, hp], o'.status, statusOf_of_rows ho', fun e => ?_⟩
    exact hc (congrArg some e)

/-- **at most one decision**: along a log of such steps the status changes at most once, and if
it has changed it is not PENDING -/
theorem decided_once {log : List (Commit P Db)} {d e : Db} (hch : Chained d log e)
    (hs : ∀ c ∈ log, LifeStep i c.before c.after) :
    (log.filter (changesStatus i)).length ≤ 1 ∧
      (log.filter (changesStatus i) ≠ [] → ∃ st, e.statusOf i = some st ∧ st ≠ .PENDING) := by
  induction log generalizing e with
  | nil => exact ⟨Nat.zero_le _, fun h => absurd rfl h⟩
  | cons c log ih =>
    obtain ⟨rfl, hch⟩ := hch
    obtain ⟨hle, hdec⟩ := ih hch fun c hc => hs c (List.mem_cons_of_mem _ hc)
    have hstep := hs c List.mem_cons_self
    by_cases hc : changesStatus i c = true
    · -- the first decision: before it the offer was PENDING, so there was none earlier
      rw [List.filter_cons, if_pos hc]
      simp only [changesStatus, Bool.and_eq_true, decide_eq_true_eq] at hc
      obtain ⟨hp, hst⟩ := hstep.decides hc.1 hc.2
      have hnil : log.filter (changesStatus i) = [] := by
        by_contra hne
        obtain ⟨st, h1, h2⟩ := hdec hne
        rw [hp] at h1
        exact h2 (Option.some.inj h1).symm
      rw [hnil]
      exact ⟨Nat.le_refl 1, fun _ => hst⟩
    · rw [List.filter_cons, if_neg hc]
      refine ⟨hle, fun hne => ?_⟩
      obtain ⟨st, h1, h2⟩ := hdec hne
      obtain ⟨o, ho, rfl⟩ := Option.map_eq_some_iff.mp h1
      have hsame := hstep.frozen ho h2
      refine ⟨o.status, ?_, h2⟩
      rw [Db.statusOf, find_eq, ← hsame.1, ← find_eq, ho]
      rfl

/-! ## every run -/

theorem good_empty : Good (P := P) Db.empty [] :=
  ⟨rfl, fun _ => Nat.zero_le _, fun _ _ => Nat.zero_le _, by simp⟩

/-- **The life of an offer.**  In every run of any number of operations in which every update
finds the row still PENDING, and the columns it leaves out as they were loaded: the status of an
offer changes at most once, from PENDING; once it is not PENDING neither the row nor the picture
changes any more; and every operation that has returned a success has committed what it was asked
for. -/
theorem offer_lifecycle (calls : P → Invocation) (e₀ : E) {σ : Config P E}
    (h : Runs (currentSpec out).machine (start (fun p => (calls p).op) Db.empty e₀) σ) :
    Chained Db.empty σ.state.store.log σ.state.store.committed ∧
    (∀ i, (σ.state.store.log.filter (changesStatus i)).length ≤ 1 ∧
      (∀ c ∈ σ.state.store.log, changesStatus i c = true → c.before.statusOf i = some .PENDING ∧
        ∃ st, c.after.statusOf i = some st ∧ st ∈ [.APPROVED, .REJECTED, .CANCELLED]) ∧
      (∀ c ∈ σ.state.store.log, ∀ o, c.before.find i = some o → o.status ≠ .PENDING →
        c.after.find i = some o ∧ c.after.picture i = c.before.picture i)) ∧
    (∀ p o, σ.prog p = some (.ret (.ok o)) →
      ∃ c ∈ σ.state.store.log, c.tx = p ∧ Reflects (calls p) c.before c.after) := by
  obtain ⟨hg, hd⟩ := runs_ends (T := terms Stmt.current out) good_empty
    (fun p => triple_op sessions (commits strict_current)) h
  refine ⟨hg.chained, fun i => ⟨?_, fun c hc hch => ?_, fun c hc o ho hs => ?_⟩, fun p o ho => ?_⟩
  · exact (decided_once hg.chained fun c hc => hg.steps c hc i).1
  · simp only [changesStatus, Bool.and_eq_true, decide_eq_true_eq] at hch
    obtain ⟨hp, st, hst, hne⟩ := (hg.steps c hc i).decides hch.1 hch.2
    refine ⟨hp, st, hst, ?_⟩
    cases st with
    | PENDING => exact absurd rfl hne
    | APPROVED => simp
    | REJECTED => simp
    | CANCELLED => simp
  · have hsame := (hg.steps c hc i).frozen ho hs
    refine ⟨?_, by rw [Db.picture, ← hsame.2]; rfl⟩
    rw [find_eq, ← hsame.1, ← find_eq, ho]
  · obtain ⟨i, c, hc, hw⟩ := hd p o ho
    have hm : c ∈ σ.state.store.commitsOf p := hc ▸ List.mem_singleton_self c
    exact ⟨c, (List.mem_filter.mp hm).1, by simpa using (List.mem_filter.mp hm).2,
      hw.reflects strict_current exact_current⟩

end

/-! ## a seller and an admin at the same time -/

/-- a seller's offer, its cancellation, its approval -/
def contest : Fin 3 → Invocation
  | 0 => .createOffer 4 5 ⟨10, 250, "EUR", ""⟩ [] [] ""
  | 1 => .setStatus 50 .APPROVED
  | 2 => .cancelOffer 50 4

def move (p : Fin 3) : Act (Fin 3) (Choice Unit) := .exec p ⟨.none, 50, 0, 1, ()⟩

/-- the offer is made, and then approved -/
def approvedFirst : List (Act (Fin 3) (Choice Unit)) :=
  [move 0, move 0, move 0, move 0, move 0, move 0, move 1, move 1, move 1, move 1, move 1, move 1]

/-- the offer is made; both calls load it while it is PENDING, and write one after the other -/
def overlapping : List (Act (Fin 3) (Choice Unit)) :=
  [move 0, move 0, move 0, move 0, move 0, move 0, move 1, move 2, move 1, move 2,
    move 1, move 1, move 1, move 1, move 2, move 2, move 2, move 2]

def returned {P E : Type} (σ : Config P E) (p : P) : Bool :=
  match σ.prog p with
  | some (.ret (.ok _)) => true
  | _ => false

theorem returned_iff {P E : Type} {σ : Config P E} {p : P} (h : returned σ p = true) :
    ∃ o, σ.prog p = some (.ret (.ok o)) := by
  unfold returned at h
  split at h
  · rename_i o ho
    exact ⟨o, ho⟩
  · cases h

theorem offer_lifecycle_approved :
    ∃ σ, Runs (currentSpec Outside.nothing).machine
        (start (fun p => (contest p).op) Db.empty ()) σ ∧
      (σ.state.store.log.filter (changesStatus 50)).length = 1 ∧
      ∃ c ∈ σ.state.store.log, c.tx = 1 ∧ Reflects (contest 1) c.before c.after := by
  obtain ⟨σ, hr, hσ⟩ := Runs.exists_of_run (M := (currentSpec Outside.nothing).machine)
    (σ := start (fun p => (contest p).op) Db.empty ()) approvedFirst
    (f := fun σ => ((σ.state.store.log.filter (changesStatus 50)).length, returned σ 1))
    (b := (1, true)) (by decide)
  obtain ⟨o, ho⟩ := returned_iff (congrArg Prod.snd hσ)
  exact ⟨σ, hr, congrArg Prod.fst hσ, (offer_lifecycle contest () hr).2.2 1 o ho⟩

/-- without the condition a cancellation overwrites an approval: both calls return a success,
and the status changes twice -/
theorem decided_twice :
    ∃ σ, Runs (spec Outside.nothing).machine (start (fun p => (contest p).op) Db.empty ()) σ ∧
      (σ.state.store.log.filter (changesStatus 50)).length = 2 ∧
      returned σ 1 = true ∧ returned σ 2 = true ∧
      σ.state.store.committed.statusOf 50 = some .CANCELLED := by
  obtain ⟨σ, hr, hσ⟩ := Runs.exists_of_run (M := (spec Outside.nothing).machine)
    (σ := start (fun p => (contest p).op) Db.empty ()) overlapping
    (f := fun σ => ((σ.state.store.log.filter (changesStatus 50)).length, returned σ 1,
      returned σ 2, σ.state.store.committed.statusOf 50))
    (b := (2, true, true, some .CANCELLED)) (by decide)
  simp only [Prod.mk.injEq] at hσ
  exact ⟨σ, hr, hσ⟩

end Marketplace.Offers
