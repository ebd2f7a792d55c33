import Marketplace.Offers.Service

/-!
# offer-service: what a session writes

An operation loads the row, checks it, and later sends an update of the columns that differ from
what it loaded; a new offer is inserted under the lock of its key and of its entry in the index.
This is followed statement by statement for any contract `T` of the service, so that every
property of the operations is a property of what they have written when they commit.

* `Stmt.pending`, `Stmt.exact`   what an update takes for granted: the row is still PENDING when it
                     goes out, and the columns it leaves out still hold the values loaded;
* `Sessions T strict exact`   the statements are those of offer-service; if `strict`, they are only
                     sent where they are `pending`, if `exact`, where they are `exact`;
* `Ready`            what the transaction of an operation has written when it commits;
* `triple_body`      an operation that succeeds has committed once, and was ready then;
* `triple_handler`   so has a route that succeeds (`Done`);  `runs_ends`  in any run of such routes.
-/

set_option linter.unusedSectionVars false

namespace Marketplace.Offers

open Table Events ReadCommitted Interleave Service

/-! ## rows -/

theorem rowsOf_id {d : Db} {i : UUID} {o : Offer} (h : o ∈ d.rowsOf i) : o.offerID = i := by
  simpa using (List.mem_filter.mp h).2

theorem find_mem {d : Db} {i : UUID} {o : Offer} (h : d.find i = some o) : o ∈ d.rowsOf i :=
  List.mem_filter.mpr ⟨List.mem_of_find?_eq_some h,
    List.find?_some (p := fun x : Offer => x.offerID == i) h⟩

theorem find_id {d : Db} {i : UUID} {o : Offer} (h : d.find i = some o) : o.offerID = i :=
  rowsOf_id (find_mem h)

theorem find_eq (d : Db) (i : UUID) : d.find i = (d.rowsOf i).head? := (List.head?_filter ..).symm

theorem find_none {d : Db} {i : UUID} (h : d.find i = none) : d.rowsOf i = [] :=
  List.filter_eq_nil_iff.mpr fun o ho => List.find?_eq_none.mp h o ho

theorem findImage_eq (d : Db) (i : UUID) : d.findImage i = (d.imagesOf i).head? :=
  (List.head?_filter ..).symm

def Db.statusOf (d : Db) (i : UUID) : Option OfferStatus := (d.find i).map (·.status)

/-- the picture that readers find -/
def Db.picture (d : Db) (i : UUID) : Option Bytes := (d.imagesOf i).head?.map (·.imageData)

theorem liveOfferOf_none {s r : UUID} {d : Db} (h : d.liveOfferOf s r = none) :
    (d.liveMap s r).filter (·.2) = [] := by
  refine List.filter_eq_nil_iff.mpr fun x hx => ?_
  obtain ⟨o, ho, rfl⟩ := List.mem_map.mp hx
  obtain ⟨hm, hsr⟩ := List.mem_filter.mp ho
  have hn := List.find?_eq_none.mp h o hm
  simp only [Bool.and_eq_true, beq_iff_eq] at hsr hn
  simpa [hsr.1, hsr.2] using hn

/-- an update of the row that `find` gives -/
theorem find_updateOffer {d : Db} {i : UUID} {old : Offer} (h : d.find i = some old)
    (set : Columns) (now : Time) :
    (Write.apply (.updateOffer old set now) d).find i = some (old.updated set now) := by
  have hid := find_id h
  rw [find_eq] at h ⊢
  show ((updateWhere _ _ d.offers).filter _).head? = _
  rw [filter_updateWhere _ _ _ (by intro x _; rfl)]
  show (updateWhere _ _ (d.rowsOf i)).head? = _
  rw [updateWhere, List.head?_map, h]
  simp [Offer.isRow]

theorem find_insertOffer {d : Db} {o : Offer} (h : d.find o.offerID = none) :
    (Write.apply (.insertOffer o) d).find o.offerID = some o := by
  show (d.offers ++ [o]).find? _ = _
  rw [List.find?_append]
  show (d.find o.offerID).or _ = _
  rw [h]
  simp

/-! ## the condition -/

/-- an update finds the row still PENDING -/
def Stmt.pending (q : Stmt) (d : Db) : Bool :=
  match q with
  | .updateOffer loaded _ =>
    match d.find loaded.offerID with
    | some o => o.status = .PENDING
    | none => true
  | _ => true

/-- what an update leaves out still holds the value that was loaded and assigned -/
def Stmt.exact (q : Stmt) (d : Db) : Bool :=
  match q with
  | .updateOffer loaded set =>
    match d.find loaded.offerID with
    | some o => (set.changed loaded).over o = set.over o
    | none => true
  | .updateImage loaded data =>
    match d.findImage loaded.offerID with
    | some oi => data ≠ loaded.imageData || oi.imageData = data
    | none => true
  | _ => true

/-- `count_live_offers` -/
def Stmt.counts : Stmt → Bool
  | .countLiveOffers _ => true
  | _ => false

section
variable {P E Y : Type} [DecidableEq P] {S : Spec P Db Write Lock E Y Row Reply}

structure Sessions (T : Service.Terms S) (strict exact : Prop) : Prop where
  stmt : ∀ {p q x s r}, S.stmt p q x s = some r → Offers.stmt p q x s = some r
  pending : strict → ∀ {p q x s r}, S.stmt p q x s = some r → q.pending (s.view p) = true
  exact : exact → ∀ {p q x s r}, S.stmt p q x s = some r → q.exact (s.view p) = true
  note : ∀ {p q x s d log e}, q.counts = false → T.I d log e → T.I d log (S.note p q x s e)

variable {T : Service.Terms S} {strict exact : Prop} {p : P}

/-- a statement takes the locks it needs -/
theorem stmt_wellLocked {q : Stmt} {x : Choice Y} {s t : St P} {a : Except PgErr (Row q)}
    (hw : WellLocked s) (h : stmt p q x s = some (a, t)) : WellLocked t := by
  cases stmt_effect h with
  | none => exact hw
  | write _ h => exact wellLocked_put hw h fun l hl => .inl hl

/-- a statement whose error is passed on; about an error nothing is claimed -/
theorem triple_exec (hs : Sessions T strict exact) {q : Stmt} (hq : q.counts = false) {A : St P → Prop}
    {B : Row q → St P → Prop} (hA : T.Stable p fun σ => A σ.store)
    (hB : ∀ a, T.Stable p fun σ => B a σ.store)
    (h : ∀ σ (x : Choice Y) a t, T.Inv σ → A σ.store → (strict → q.pending (σ.store.view p) = true) →
      (exact → q.exact (σ.store.view p) = true) → Offers.stmt p q x σ.store = some (.ok a, t) → B a t) :
    T.Triple p (fun σ => A σ.store) (exec q) (fun a σ => B a σ.store) fun _ _ => True := by
  refine Terms.Triple.bind (B := fun r σ => ∀ a, r = .ok a → B a σ.store)
    (Terms.Triple.query hA (fun r => .all fun a => .all fun _ => hB a) ?_ ?_) fun r => ?_
  · intro σ x r t hi ha hst
    refine ⟨stmt_wellLocked hi.locked (hs.stmt hst), hs.note hq hi.holds, fun a e => ?_⟩
    subst e
    exact h σ x a t hi ha (fun hc => hs.pending hc hst) (fun hc => hs.exact hc hst) (hs.stmt hst)
  · exact fun _ _ _ _ e => nomatch e
  · exact .orThrow (Terms.Stable.all fun a => .all fun _ => hB a) (fun a σ e _ h => h a e)
      fun _ _ _ _ _ => trivial

/-- a statement that only reads -/
theorem triple_read (hs : Sessions T strict exact) {q : Stmt} (hq : q.counts = false) {A : St P → Prop}
    {B : Row q → Prop} (hA : T.Stable p fun σ => A σ.store)
    (h : ∀ s (x : Choice Y) a t, Offers.stmt p q x s = some (.ok a, t) → t = s ∧ B a) :
    T.Triple p (fun σ => A σ.store) (exec q) (fun a σ => A σ.store ∧ B a) fun _ _ => True := by
  refine triple_exec hs hq (B := fun a s => A s ∧ B a) hA (fun a => hA.and (.const _))
    fun σ x a t _ ha _ _ hst => ?_
  obtain ⟨rfl, hb⟩ := h σ.store x a t hst
  exact ⟨ha, hb⟩

theorem triple_begin {A : St P → Prop} (hA : T.Stable p fun σ => A σ.store)
    (h : ∀ s n, A s → A (s.begin p n)) :
    T.Triple p (fun σ => A σ.store) begin (fun _ σ => A σ.store) fun _ _ => True :=
  .bind (Terms.Triple.begin (Φ := fun _ σ => A σ.store) hA (fun _ => hA)
    (fun σ n _ ha => h σ.store n ha) fun _ _ ha => ha) fun _ =>
      .orThrow hA (fun _ _ _ _ ha => ha) fun _ _ _ _ _ => trivial

theorem triple_commit {A B : St P → Prop} (hA : T.Stable p fun σ => A σ.store)
    (hB : T.Stable p fun σ => B σ.store)
    (hI : ∀ σ, T.Inv σ → A σ.store →
      T.I (σ.store.view p) (⟨p, σ.store.committed, σ.store.view p⟩ :: σ.store.log) σ.ext)
    (h : ∀ s, A s → B (s.commit p)) :
    T.Triple p (fun σ => A σ.store) commit (fun _ σ => B σ.store) fun _ _ => True := by
  refine .bind (Terms.Triple.commit (Φ := fun r σ => r = .ok () → B σ.store) hA
    (fun _ => .all fun _ => hB) (fun σ hi ha _ => hI σ hi ha) (fun σ _ ha _ => h σ.store ha) (fun _ _ _ e => nomatch e)
    fun _ _ _ e => nomatch e) fun r => ?_
  exact .orThrow (Terms.Stable.all fun _ => hB) (fun _ _ e _ hb => hb e) fun _ _ _ _ _ => trivial

/-! ## assertions -/

/-- `p` has not written and not committed -/
structure Idle (p : P) (s : St P) : Prop where
  pending : s.pending p = []
  fresh : s.commitsOf p = []

theorem Idle.stable : T.Stable p fun σ => Idle p σ.store :=
  fun σ τ hr hi h => ⟨Terms.Stable.pending (· = []) σ τ hr hi h.pending,
    Terms.Stable.commitsOf (· = []) σ τ hr hi h.fresh⟩

theorem Idle.begin {s : St P} (h : Idle p s) (n : Time) : Idle p (s.begin p n) :=
  ⟨h.pending, h.fresh⟩

/-- a write that goes with an offer: its picture, its event -/
def Write.besides (i : UUID) : Write → Prop
  | .insertImage oi => oi.offerID = i
  | .updateImage j _ _ => j = i
  | .insertOutbox _ => True
  | _ => False

theorem offers_besides {i : UUID} (rest : List Write) (h : ∀ w ∈ rest, w.besides i) (d : Db) :
    (applyAll rest d).offers = d.offers := by
  refine applyAll_rel (fun d e : Db => e.offers = d.offers) (fun _ => rfl)
    (fun _ _ _ h h' => h'.trans h) rest (fun w hw d => ?_) d
  have hb := h w hw
  cases w with
  | insertOffer o => exact hb.elim
  | updateOffer old set now => exact hb.elim
  | insertImage oi => rfl
  | updateImage j data now => rfl
  | insertOutbox row => rfl

/-- the update has gone out: `old` is the row as it found it -/
structure Flushed (strict exact : Prop) (p : P) (loaded : Offer) (set : Columns) (rest : List Write)
    (s : St P) : Prop where
  held : s.locks (.offer loaded.offerID) = some p
  fresh : s.commitsOf p = []
  row : ∃ old now, s.committed.find loaded.offerID = some old ∧
    s.pending p = .updateOffer old (set.changed loaded) now :: rest ∧
    (strict → old.status = .PENDING) ∧ (exact → (set.changed loaded).over old = set.over old)

variable {loaded : Offer} {set : Columns} {rest : List Write}

theorem Flushed.stable : T.Stable p fun σ => Flushed strict exact p loaded set rest σ.store := by
  intro σ τ hr _ h
  obtain ⟨old, now, hf, hp, hc⟩ := h.row
  have hrows : σ.store.committed.rowsOf loaded.offerID = τ.store.committed.rowsOf loaded.offerID :=
    hr.seen.same _ h.held
  refine ⟨(hr.seen.locks _).mpr h.held, hr.seen.commitsOf.trans h.fresh, old, now, ?_,
    hr.seen.pending.trans hp, hc⟩
  rw [find_eq, ← hrows, ← find_eq, hf]

/-- the offers as the session sees them -/
theorem Flushed.offers {s : St P} (h : Flushed strict exact p loaded set rest s)
    (hrest : ∀ w ∈ rest, w.besides loaded.offerID) :
    ∃ old now, s.committed.find loaded.offerID = some old ∧
      s.pending p = .updateOffer old (set.changed loaded) now :: rest ∧
      (s.view p).offers =
        (Write.apply (.updateOffer old (set.changed loaded) now) s.committed).offers ∧
      (strict → old.status = .PENDING) ∧ (exact → (set.changed loaded).over old = set.over old) := by
  obtain ⟨old, now, hf, hp, hc⟩ := h.row
  refine ⟨old, now, hf, hp, ?_, hc⟩
  rw [Store.view, hp, applyAll_cons, offers_besides rest hrest]
  rfl

/-- the row that an update leaves -/
theorem Flushed.find {s : St P} (h : Flushed strict exact p loaded set rest s)
    (hrest : ∀ w ∈ rest, w.besides loaded.offerID) :
    ∃ old now, s.committed.find loaded.offerID = some old ∧
      (s.view p).find loaded.offerID = some (old.updated (set.changed loaded) now) ∧
      (strict → old.status = .PENDING) ∧ (exact → (set.changed loaded).over old = set.over old) := by
  obtain ⟨old, now, hf, -, ho, hc⟩ := h.offers hrest
  refine ⟨old, now, hf, ?_, hc⟩
  unfold Db.find
  rw [ho]
  exact find_updateOffer hf _ now

/-- the session has inserted the offer -/
structure Created (p : P) (o : Offer) (s : St P) : Prop where
  held : s.locks (.offer o.offerID) = some p
  key : s.locks (.live o.sellerID o.requestID) = some p
  fresh : s.commitsOf p = []
  absent : s.committed.find o.offerID = none
  lone : (s.committed.liveMap o.sellerID o.requestID).filter (·.2) = []
  pending : ∃ rest, s.pending p = .insertOffer o :: rest ∧ ∀ w ∈ rest, w.besides o.offerID

theorem Created.stable {o : Offer} : T.Stable p fun σ => Created p o σ.store := by
  intro σ τ hr _ h
  have hrows : σ.store.committed.rowsOf o.offerID = τ.store.committed.rowsOf o.offerID :=
    hr.seen.same _ h.held
  have hlive : σ.store.committed.liveMap o.sellerID o.requestID =
      τ.store.committed.liveMap o.sellerID o.requestID := hr.seen.same _ h.key
  refine ⟨(hr.seen.locks _).mpr h.held, (hr.seen.locks _).mpr h.key,
    hr.seen.commitsOf.trans h.fresh, ?_, hlive ▸ h.lone, hr.seen.pending.symm ▸ h.pending⟩
  rw [find_eq, ← hrows, ← find_eq, h.absent]

theorem Created.offers {o : Offer} {s : St P} (h : Created p o s) :
    (s.view p).offers = (Write.apply (.insertOffer o) s.committed).offers := by
  obtain ⟨rest, hp, hrest⟩ := h.pending
  rw [Store.view, hp, applyAll_cons, offers_besides rest hrest]
  rfl

theorem Created.find {o : Offer} {s : St P} (h : Created p o s) :
    (s.view p).find o.offerID = some o := by
  unfold Db.find
  rw [h.offers]
  exact find_insertOffer h.absent

theorem fresh_put {s t : St P} {w : Write} (hput : s.put p w = some t) (h : s.commitsOf p = []) :
    t.commitsOf p = [] := by
  unfold Store.commitsOf
  rw [(Quiet.put hput).log]
  exact h

theorem Created.put {o : Offer} {s t : St P} {w : Write} (h : Created p o s)
    (hput : s.put p w = some t) (hw : w.besides o.offerID) : Created p o t := by
  obtain ⟨rest, hp, hb⟩ := h.pending
  have hc := (Quiet.put hput).committed
  refine ⟨put_keeps hput h.held, put_keeps hput h.key, fresh_put hput h.fresh, hc.symm ▸ h.absent,
    hc.symm ▸ h.lone, rest ++ [w], ?_, fun v hv => ?_⟩
  · rw [put_pending hput, hp]
    rfl
  · rcases List.mem_append.mp hv with hv | hv
    · exact hb v hv
    · exact List.mem_singleton.mp hv ▸ hw

/-- the columns that `update_offer` assigns -/
def Terms.columnsWith (t : Terms) (image : Bytes) (imageType : String) : Columns :=
  if image = [] then t.columns else { t.columns with imageType := some imageType }

/-- what an operation on the offer `i` has written when it commits -/
def Ready (strict exact : Prop) (p : P) (i : UUID) (inv : Invocation) (s : St P) : Prop :=
  match inv with
  | .createOffer sl r t _ _ _ => ∃ o, o.offerID = i ∧ o.sellerID = sl ∧ o.requestID = r ∧
      o.terms = t ∧ o.status = .PENDING ∧ Created p o s
  | .updateOffer j _ t im ty => j = i ∧ ∃ loaded rest, loaded.offerID = i ∧
      (∀ w ∈ rest, w.besides i) ∧ Flushed strict exact p loaded (t.columnsWith im ty) rest s ∧
      (exact → im ≠ [] → (s.view p).picture i = some im)
  | .cancelOffer j _ => j = i ∧ ∃ loaded, loaded.offerID = i ∧ loaded.status = .PENDING ∧
      Flushed strict exact p loaded { status := some .CANCELLED } [] s
  | .setStatus j st => j = i ∧ ∃ loaded, loaded.offerID = i ∧ loaded.status = .PENDING ∧
      Flushed strict exact p loaded { status := some st.status } [] s

/-- the commit of an operation that was ready -/
def Wrote (strict exact : Prop) (p : P) (i : UUID) (inv : Invocation) (c : Commit P Db) : Prop :=
  ∃ s, Ready strict exact p i inv s ∧ c.before = s.committed ∧ c.after = s.view p

/-- `p` has committed, and nothing since -/
structure After (strict exact : Prop) (p : P) (i : UUID) (inv : Invocation) (s : St P) : Prop where
  pending : s.pending p = []
  commit : ∃ c, s.commitsOf p = [c] ∧ Wrote strict exact p i inv c

variable {i : UUID} {inv : Invocation}

theorem After.stable : T.Stable p fun σ => After strict exact p i inv σ.store :=
  fun _ _ hr _ h => ⟨hr.seen.pending.trans h.pending, hr.seen.commitsOf.symm ▸ h.commit⟩

theorem Ready.commit {s : St P} (h : Ready strict exact p i inv s) (hf : s.commitsOf p = []) :
    After strict exact p i inv (s.commit p) := by
  refine ⟨Function.update_self .., ⟨p, s.committed, s.view p⟩, ?_, s, h, rfl, rfl⟩
  rw [commitsOf_commit, hf]

/-! ## the statements -/

theorem triple_updateOffer (hs : Sessions T strict exact) :
    T.Triple p (fun σ => Idle p σ.store) (exec (.updateOffer loaded set))
      (fun _ σ => Flushed strict exact p loaded set [] σ.store) fun _ _ => True := by
  refine triple_exec hs rfl (A := Idle p) (B := fun _ s => Flushed strict exact p loaded set [] s)
    Idle.stable (fun _ => Flushed.stable) fun σ x a t hi h hc hx hst => ?_
  obtain ⟨old, hf, -, hput⟩ := updateOffer_ok hst
  have hid : old.offerID = loaded.offerID := find_id hf
  refine ⟨hid ▸ put_takes hput List.mem_cons_self, fresh_put hput h.fresh, old, x.now, ?_, ?_,
    fun hstr => ?_, fun hex => ?_⟩
  · rw [(Quiet.put hput).committed, ← view_of_pending h.pending]
    exact hf
  · rw [put_pending hput, h.pending]
    rfl
  · have hcur := hc hstr
    simp only [Stmt.pending, hf, decide_eq_true_eq] at hcur
    exact hcur
  · have hcur := hx hex
    simp only [Stmt.exact, hf, decide_eq_true_eq] at hcur
    exact hcur

/-- the picture goes with the update -/
theorem Flushed.put {s t : St P} {w : Write} (h : Flushed strict exact p loaded set [] s)
    (hput : s.put p w = some t) : Flushed strict exact p loaded set [w] t := by
  obtain ⟨old, now, hf, hp, hc⟩ := h.row
  refine ⟨put_keeps hput h.held, fresh_put hput h.fresh, old, now,
    (Quiet.put hput).committed.symm ▸ hf, ?_, hc⟩
  rw [put_pending hput, hp]
  rfl

theorem picture_insertImage {d : Db} {oi : OfferImage} (h : d.findImage oi.offerID = none) :
    (Write.apply (.insertImage oi) d).picture oi.offerID = some oi.imageData := by
  have hn : d.imagesOf oi.offerID = [] := by
    rw [findImage_eq, List.head?_eq_none_iff] at h
    exact h
  have he : (Write.apply (.insertImage oi) d).imagesOf oi.offerID = [oi] := by
    show (d.images ++ [oi]).filter _ = _
    rw [List.filter_append]
    show d.imagesOf oi.offerID ++ _ = _
    rw [hn]
    simp
  rw [Db.picture, he]
  rfl

theorem picture_updateImage {d : Db} {loaded : OfferImage} {data : Bytes} {now : Time}
    (h : d.findImage loaded.offerID ≠ none)
    (hc : (Stmt.updateImage loaded data).exact d = true) :
    (Write.apply (.updateImage loaded.offerID
      (if data = loaded.imageData then none else some data) now) d).picture loaded.offerID
      = some data := by
  obtain ⟨oi, hoi⟩ := Option.ne_none_iff_exists'.mp h
  simp only [Stmt.exact, hoi, Bool.or_eq_true, decide_eq_true_eq] at hc
  rw [findImage_eq] at hoi
  have hid : oi.offerID = loaded.offerID := by
    simpa using (List.mem_filter.mp (List.mem_of_head? hoi)).2
  rw [Db.picture]
  show ((updateWhere _ _ d.images).filter _).head?.map _ = _
  rw [filter_updateWhere _ _ _ (by intro x _; rfl)]
  show (updateWhere _ _ (d.imagesOf loaded.offerID)).head?.map _ = _
  rw [updateWhere, List.head?_map, hoi]
  simp only [Option.map_some, hid, beq_self_eq_true, if_true]
  by_cases e : data = loaded.imageData
  · rw [if_pos e]
    exact congrArg some (hc.resolve_left fun hn => hn e)
  · rw [if_neg e]
    rfl

/-- the row and the picture have been sent -/
structure Pictured (strict exact : Prop) (p : P) (loaded : Offer) (set : Columns) (data : Bytes)
    (s : St P) : Prop where
  flushed : ∃ w, Flushed strict exact p loaded set [w] s ∧ w.besides loaded.offerID
  image : s.locks (.image loaded.offerID) = some p
  picture : exact → (s.view p).picture loaded.offerID = some data

theorem Pictured.stable {data : Bytes} :
    T.Stable p fun σ => Pictured strict exact p loaded set data σ.store := by
  intro σ τ hr hi h
  obtain ⟨w, hf, hw⟩ := h.flushed
  have he : (σ.store.view p).imagesOf loaded.offerID = (τ.store.view p).imagesOf loaded.offerID :=
    hr.seen.view h.image
  refine ⟨⟨w, Flushed.stable σ τ hr hi hf, hw⟩, (hr.seen.locks _).mpr h.image, fun hstr => ?_⟩
  rw [Db.picture, ← he]
  exact h.picture hstr

theorem triple_storeImage (hs : Sessions T strict exact) {existing : Option OfferImage}
    (he : ∀ oi, existing = some oi → oi.offerID = loaded.offerID) (image : Bytes) :
    T.Triple p (fun σ => Flushed strict exact p loaded set [] σ.store)
      (storeImage existing loaded.offerID image)
      (fun _ σ => Pictured strict exact p loaded set image σ.store) fun _ _ => True := by
  cases existing with
  | none =>
    refine triple_exec hs rfl (A := Flushed strict exact p loaded set [])
      (B := fun _ s => Pictured strict exact p loaded set image s)
      Flushed.stable (fun _ => Pictured.stable) fun σ x a t _ h _ _ hst => ?_
    obtain ⟨hn, hput⟩ := insertImage_ok hst
    refine ⟨⟨_, h.put hput, rfl⟩, put_takes hput List.mem_cons_self, fun _ => ?_⟩
    rw [put_view hput]
    exact picture_insertImage hn
  | some oi =>
    have hid := he oi rfl
    refine triple_exec hs rfl (A := Flushed strict exact p loaded set [])
      (B := fun _ s => Pictured strict exact p loaded set image s)
      Flushed.stable (fun _ => Pictured.stable) fun σ x a t _ h _ hx hst => ?_
    obtain ⟨hn, hput⟩ := updateImage_ok hst
    refine ⟨⟨_, h.put hput, hid⟩, hid ▸ put_takes hput List.mem_cons_self, fun hex => ?_⟩
    rw [put_view hput, ← hid]
    exact picture_updateImage hn (hx hex)

/-- a new offer is under the lock of its key and of its entry in the index -/
theorem Idle.insertOffer {s t : St P} {x : Choice Y} {sl r : UUID} {tm : Terms} {ty : String}
    {o : Offer} (h : Idle p s) (hst : Offers.stmt p (.insertOffer sl r tm ty) x s = some (.ok o, t)) :
    Created p o t ∧ t.pending p = [.insertOffer o] ∧
      (o.sellerID = sl ∧ o.requestID = r ∧ o.terms = tm ∧ o.status = .PENDING) := by
  obtain ⟨hsl, hr, htm, hpend, hf, hl, hput⟩ := insertOffer_ok hst
  rw [view_of_pending h.pending] at hf hl
  have hc := (Quiet.put hput).committed
  have hsent : t.pending p = [.insertOffer o] := by
    rw [put_pending hput, h.pending]
    rfl
  refine ⟨⟨put_takes hput List.mem_cons_self,
    put_takes hput (List.mem_cons_of_mem _ List.mem_cons_self), fresh_put hput h.fresh,
    hc.symm ▸ hf, ?_, [], hsent, by simp⟩, hsent, hsl, hr, htm, hpend⟩
  rw [hc, hsl, hr]
  exact liveOfferOf_none hl

theorem triple_insertOffer (hs : Sessions T strict exact) {sl r : UUID} {tm : Terms} {ty : String} :
    T.Triple p (fun σ => Idle p σ.store) (exec (.insertOffer sl r tm ty))
      (fun o σ => Created p o σ.store ∧ (o.sellerID = sl ∧ o.requestID = r ∧ o.terms = tm ∧
        o.status = .PENDING)) fun _ _ => True := by
  refine triple_exec hs rfl (q := .insertOffer sl r tm ty) (A := Idle p)
    (B := fun (o : Offer) s => Created p o s ∧ (o.sellerID = sl ∧ o.requestID = r ∧ o.terms = tm ∧
      o.status = .PENDING)) Idle.stable (fun _ => Created.stable.and (.const _))
    fun σ x o t _ h _ _ hst => ?_
  obtain ⟨hcr, -, ho⟩ := h.insertOffer hst
  exact ⟨hcr, ho⟩

/-! ## the operations -/

theorem triple_getOffer (hs : Sessions T strict exact) :
    T.Triple p (fun σ => Idle p σ.store) (getOffer i)
      (fun o σ => Idle p σ.store ∧ o.offerID = i) fun _ _ => True := by
  refine .bind (triple_read hs rfl (B := fun a => ∀ o, a = some o → o.offerID = i) Idle.stable
    fun s x a t hst => ?_) fun a => ?_
  · cases hst
    exact ⟨rfl, fun o e => find_id e⟩
  · cases a with
    | none => exact .throw (Idle.stable.and (.const _)) fun _ _ _ => trivial
    | some o => exact .pure (Idle.stable.and (.const _)) fun _ _ h => ⟨h.1, h.2 o rfl⟩

theorem triple_ownPendingOffer (hs : Sessions T strict exact) {sellerID : UUID} :
    T.Triple p (fun σ => Idle p σ.store) (ownPendingOffer i sellerID)
      (fun o σ => Idle p σ.store ∧ (o.offerID = i ∧ o.status = .PENDING)) fun _ _ => True := by
  refine .bind (triple_getOffer hs) fun o => .fact fun ho => ?_
  by_cases h1 : o.sellerID ≠ sellerID
  · rw [if_pos h1]
    exact .throw Idle.stable fun _ _ _ => trivial
  · rw [if_neg h1]
    by_cases h2 : o.status ≠ .PENDING
    · rw [if_pos h2]
      exact .throw Idle.stable fun _ _ _ => trivial
    · rw [if_neg h2]
      exact .pure Idle.stable fun _ _ h => ⟨h, ho, not_not.mp h2⟩

section
variable {Φ : UUID → Commit P Db → Offer → Prop}

/-- what a success leaves: one commit, and the row as it was read after it -/
def Success (strict exact : Prop) (Φ : UUID → Commit P Db → Offer → Prop) (p : P) (inv : Invocation)
    (o : Offer) (s : St P) : Prop :=
  s.pending p = [] ∧ ∃ i c, s.commitsOf p = [c] ∧ Wrote strict exact p i inv c ∧ Φ i c o

theorem Success.stable {o : Offer} : T.Stable p fun σ => Success strict exact Φ p inv o σ.store :=
  fun _ _ hr _ h => ⟨hr.seen.pending.trans h.1, hr.seen.commitsOf.symm ▸ h.2⟩

/-- what is asked of the contract: a commit that is ready keeps `I`, and the row read after the
commit is what `Φ` says -/
structure Commits (T : Service.Terms S) (strict exact : Prop) (Φ : UUID → Commit P Db → Offer → Prop)
    (p : P) (inv : Invocation) : Prop where
  keeps : ∀ i σ, T.Inv σ → Ready strict exact p i inv σ.store →
    T.I (σ.store.view p) (⟨p, σ.store.committed, σ.store.view p⟩ :: σ.store.log) σ.ext
  reads : ∀ i c o σ, T.Inv σ → σ.store.commitsOf p = [c] → Wrote strict exact p i inv c →
    σ.store.committed.find i = some o → Φ i c o

theorem triple_refresh (hs : Sessions T strict exact) (hc : Commits T strict exact Φ p inv) :
    T.Triple p (fun σ => After strict exact p i inv σ.store) (exec (.refresh i))
      (fun o σ => Success strict exact Φ p inv o σ.store) fun _ _ => True := by
  refine triple_exec hs rfl (q := .refresh i) (A := After strict exact p i inv)
    (B := fun (o : Offer) s => Success strict exact Φ p inv o s) After.stable (fun _ => Success.stable)
    fun σ x o t hi h _ _ hst => ?_
  simp only [stmt] at hst
  split at hst
  · rename_i o' hf
    cases hst
    obtain ⟨c, hl, hw⟩ := h.commit
    rw [view_of_pending h.pending] at hf
    exact ⟨h.pending, i, c, hl, hw, hc.reads i c o σ hi hl hw hf⟩
  · exact (failing_ok hst).elim

/-- an operation from its flush on -/
theorem triple_finish (hs : Sessions T strict exact) (hc : Commits T strict exact Φ p inv) {A : St P → Prop}
    (hA : T.Stable p fun σ => A σ.store)
    (h : ∀ s, A s → Ready strict exact p i inv s ∧ s.commitsOf p = []) :
    T.Triple p (fun σ => A σ.store) (do commit; exec (.refresh i))
      (fun o σ => Success strict exact Φ p inv o σ.store) fun _ _ => True :=
  .bind (triple_commit hA After.stable (fun σ hi ha => hc.keeps i σ hi (h _ ha).1) fun s ha =>
    (h s ha).1.commit (h s ha).2) fun _ => triple_refresh hs hc

theorem triple_updateOfferOp (hs : Sessions T strict exact) {sellerID : UUID} {t : Terms} {im : Bytes}
    {ty : String} (hc : Commits T strict exact Φ p (.updateOffer i sellerID t im ty)) :
    T.Triple p (fun σ => Idle p σ.store) (updateOffer i sellerID t im ty)
      (fun o σ => Success strict exact Φ p (.updateOffer i sellerID t im ty) o σ.store)
      fun _ _ => True := by
  refine .bind (triple_begin (A := Idle p) Idle.stable fun _ n h => h.begin n) fun _ =>
    .bind (triple_ownPendingOffer hs) fun o => .fact ?_
  rintro ⟨rfl, -⟩
  by_cases e : im = []
  · simp only [flushTerms, if_pos e]
    refine .bind (triple_updateOffer hs) fun _ => triple_finish hs hc (i := o.offerID)
      (A := Flushed strict exact p o t.columns []) Flushed.stable fun s h => ⟨⟨rfl, o, [], rfl, by simp,
        ?_, fun _ hne => absurd e hne⟩, h.fresh⟩
    rw [Terms.columnsWith, if_pos e]
    exact h
  · simp only [flushTerms, if_neg e]
    refine .bind (.bind (triple_read hs rfl
      (B := fun a => ∀ oi, a = some oi → oi.offerID = o.offerID) Idle.stable
      fun s x a t hst => ?_) fun existing => .fact fun hex => ?_) fun _ =>
      triple_finish hs hc (i := o.offerID) (A := Pictured strict exact p o
        { t.columns with imageType := some ty } im) Pictured.stable fun s h => ?_
    · cases hst
      refine ⟨rfl, fun oi hoi => ?_⟩
      rw [findImage_eq] at hoi
      simpa using (List.mem_filter.mp (List.mem_of_head? hoi)).2
    · exact .bind (triple_updateOffer hs) fun _ => triple_storeImage hs hex im
    · obtain ⟨w, hf, hw⟩ := h.flushed
      refine ⟨⟨rfl, o, [w], rfl, fun v hv => List.mem_singleton.mp hv ▸ hw, ?_,
        fun hstr _ => h.picture hstr⟩, hf.fresh⟩
      rw [Terms.columnsWith, if_neg e]
      exact hf

theorem triple_cancelOffer (hs : Sessions T strict exact) {sellerID : UUID}
    (hc : Commits T strict exact Φ p (.cancelOffer i sellerID)) :
    T.Triple p (fun σ => Idle p σ.store) (cancelOffer i sellerID)
      (fun o σ => Success strict exact Φ p (.cancelOffer i sellerID) o σ.store) fun _ _ => True := by
  refine .bind (triple_begin (A := Idle p) Idle.stable fun _ n h => h.begin n) fun _ =>
    .bind (triple_ownPendingOffer hs) fun o => .fact ?_
  rintro ⟨rfl, hst⟩
  exact .bind (triple_updateOffer hs) fun _ => triple_finish hs hc
    (A := Flushed strict exact p o { status := some .CANCELLED } []) Flushed.stable fun s h =>
      ⟨⟨rfl, o, rfl, hst, h⟩, h.fresh⟩

theorem triple_setStatus (hs : Sessions T strict exact) {st : Decision}
    (hc : Commits T strict exact Φ p (.setStatus i st)) :
    T.Triple p (fun σ => Idle p σ.store) (setStatus i st.status)
      (fun o σ => Success strict exact Φ p (.setStatus i st) o σ.store) fun _ _ => True := by
  refine .bind (triple_begin (A := Idle p) Idle.stable fun _ n h => h.begin n) fun _ =>
    .bind (triple_getOffer hs) fun o => .fact ?_
  rintro rfl
  by_cases e : o.status ≠ .PENDING
  · simp only [if_pos e]
    exact .throw Idle.stable fun _ _ _ => trivial
  · simp only [if_neg e]
    exact .bind (triple_updateOffer hs) fun _ => triple_finish hs hc
      (A := Flushed strict exact p o { status := some st.status } []) Flushed.stable fun s h =>
        ⟨⟨rfl, o, rfl, not_not.mp e, h⟩, h.fresh⟩

theorem triple_besides (hs : Sessions T strict exact) {q : Stmt} (hq : q.counts = false) {o : Offer}
    (h : ∀ s (x : Choice Y) a t, Offers.stmt p q x s = some (.ok a, t) →
      ∃ w : Write, s.put p w = some t ∧ w.besides o.offerID) :
    T.Triple p (fun σ => Created p o σ.store) (exec q) (fun _ σ => Created p o σ.store)
      fun _ _ => True := by
  refine triple_exec hs hq (A := Created p o) (B := fun _ => Created p o) Created.stable
    (fun _ => Created.stable) fun σ x a t _ hcr _ _ hst => ?_
  obtain ⟨w, hput, hw⟩ := h σ.store x a t hst
  exact hcr.put hput hw

theorem triple_commitOffer (hs : Sessions T strict exact) {sl r : UUID} {tm : Terms} {as : List UUID}
    {im : Bytes} {ty : String} (hc : Commits T strict exact Φ p (.createOffer sl r tm as im ty))
    {o : Offer} (ho : o.sellerID = sl ∧ o.requestID = r ∧ o.terms = tm ∧ o.status = .PENDING) :
    T.Triple p (fun σ => Created p o σ.store) (commitOffer o as im)
      (fun _ σ => After strict exact p o.offerID (.createOffer sl r tm as im ty) σ.store)
      fun _ _ => True := by
  have hready : ∀ s, Created p o s →
      Ready strict exact p o.offerID (.createOffer sl r tm as im ty) s := fun s h =>
    ⟨o, rfl, ho.1, ho.2.1, ho.2.2.1, ho.2.2.2, h⟩
  refine .bind (B := fun _ σ => Created p o σ.store) ?_ fun _ =>
    .bind (B := fun _ σ => Created p o σ.store) ?_ fun _ =>
      triple_commit (A := Created p o) Created.stable After.stable
        (fun σ hi h => hc.keeps _ σ hi (hready _ h)) fun s h => (hready s h).commit h.fresh
  · unfold enqueue
    by_cases e : as.map (newOfferNotification o) = []
    · rw [if_pos e]
      exact .pure Created.stable fun _ _ h => h
    · rw [if_neg e]
      exact triple_besides hs rfl fun s x a t hst => ⟨_, insertOutbox_ok hst, trivial⟩
  · unfold addImage
    by_cases e : im = []
    · rw [if_pos e]
      exact .pure Created.stable fun _ _ h => h
    · rw [if_neg e]
      exact triple_besides hs rfl fun s x a t hst => ⟨_, (insertImage_ok hst).2, rfl⟩

/-- a read that is only looked at to choose an error -/
theorem triple_readAny (hs : Sessions T strict exact) {q : Stmt} (hq : q.counts = false)
    (h : ∀ s (x : Choice Y) a t, Offers.stmt p q x s = some (.ok a, t) → t = s) :
    T.Triple p (fun _ => True) (exec q) (fun _ _ => True) fun _ _ => True :=
  (triple_read hs hq (A := fun _ => True) (B := fun _ => True) (.const True)
    fun s x a t hst => ⟨h s x a t hst, trivial⟩).weaken (fun _ h => h) (fun _ _ _ _ => trivial)
      fun _ _ _ _ => trivial

theorem triple_createOffer (hs : Sessions T strict exact) {sl r : UUID} {tm : Terms} {as : List UUID}
    {im : Bytes} {ty : String} (hc : Commits T strict exact Φ p (.createOffer sl r tm as im ty)) :
    T.Triple p (fun σ => Idle p σ.store) (createOffer sl r tm as im ty)
      (fun o σ => Success strict exact Φ p (.createOffer sl r tm as im ty) o σ.store)
      fun _ _ => True := by
  refine .bind (triple_begin (A := Idle p) Idle.stable fun _ n h => h.begin n) fun _ =>
    .bind (triple_read hs rfl (B := fun _ => True) Idle.stable fun _ _ _ _ hst => ?_) fun a => ?_
  · cases hst
    exact ⟨rfl, trivial⟩
  · cases a with
    | some o => exact .throw (Idle.stable.and (.const _)) fun _ _ _ => trivial
    | none =>
      refine .fact fun _ => .bind (triple_insertOffer hs) fun o => .fact fun ho =>
        .bind (.attempt (triple_commitOffer hs hc ho)) fun a => ?_
      match a with
      | .ok _ => exact triple_refresh hs hc
      | .error (.pg e) =>
        by_cases he : integrityError e = true
        · simp only [if_pos he]
          refine .bind (B := fun _ _ => True) (Terms.Triple.rollback (.const True) (.const True)
            fun _ _ _ => trivial) fun _ => .bind (triple_begin (A := fun _ => True) (.const True)
            fun _ _ _ => trivial) fun _ => .bind (triple_readAny hs rfl fun _ _ _ _ hst => by
              cases hst; rfl) fun b => ?_
          cases b with
          | some o => exact .throw (.const True) fun _ _ _ => trivial
          | none => exact .throw (.const True) fun _ _ _ => trivial
        · simp only [if_neg he]
          exact .throw (.const True) fun _ _ _ => trivial
      | .error .offerNotFound => exact .throw (.const True) fun _ _ _ => trivial
      | .error .notOfferOwner => exact .throw (.const True) fun _ _ _ => trivial
      | .error (.offerAlreadyMade _) => exact .throw (.const True) fun _ _ _ => trivial
      | .error .offerNotPending => exact .throw (.const True) fun _ _ _ => trivial

/-- **what any operation does** -/
theorem triple_body (hs : Sessions T strict exact) (inv : Invocation) (hc : Commits T strict exact Φ p inv) :
    T.Triple p (fun σ => Idle p σ.store) inv.body (fun o σ => Success strict exact Φ p inv o σ.store)
      fun _ _ => True := by
  cases inv with
  | createOffer s r t as im ty => exact triple_createOffer hs hc
  | updateOffer i s t im ty => exact triple_updateOfferOp hs hc
  | cancelOffer i s => exact triple_cancelOffer hs hc
  | setStatus i st => exact triple_setStatus hs hc

end

/-- the end of the session takes nothing back that was committed -/
theorem triple_getSession {α : Type} {body : Op α} {A : State P Db Write Lock E → Prop}
    {Q : α → State P Db Write Lock E → Prop}
    (h : T.Triple p A body Q fun _ _ => True) (hQ : ∀ a, T.Stable p (Q a))
    (hr : ∀ a σ, Q a σ → Q a { σ with store := σ.store.rollback p }) :
    T.Triple p A (getSession body) Q fun _ _ => True := by
  refine .bind (.attempt h) fun r => ?_
  cases r with
  | ok a =>
    exact .bind (B := fun _ σ => Q a σ) (Terms.Triple.rollback (hQ a) (hQ a)
      fun σ _ h => hr a σ h) fun _ => .pure (hQ a) fun _ _ h => h
  | error e =>
    exact .bind (B := fun _ _ => True) (Terms.Triple.rollback (.const True) (.const True)
      fun _ _ _ => trivial) fun _ => .throw (.const True) fun _ _ _ => trivial

theorem changed_status {loaded : Offer} (h : loaded.status = .PENDING) {st : OfferStatus}
    (hst : st ≠ .PENDING) (old : Offer) (now : Time) :
    (old.updated (Columns.changed { status := some st } loaded) now).status = st := by
  have hne : st ≠ loaded.status := h ▸ hst
  show ((some st).filter (· ≠ loaded.status)).getD old.status = st
  rw [Option.filter_some, if_pos (by simpa using hne)]
  rfl

theorem Decision.decides (st : Decision) : st.status ≠ .PENDING := by
  cases st with
  | APPROVED => exact fun e => nomatch e
  | REJECTED => exact fun e => nomatch e

/-- the commit of `set_status` -/
theorem Wrote.status {c : Commit P Db} {j : UUID} {st : Decision}
    (h : Wrote strict exact p i (.setStatus j st) c) : c.after.statusOf j = some st.status := by
  obtain ⟨s, hr, hb, ha⟩ := h
  obtain ⟨rfl, loaded, rfl, hl, hf⟩ := hr
  obtain ⟨old, now, hold, hnew, -⟩ := hf.find (by simp)
  rw [ha, Db.statusOf, hnew, Option.map_some, changed_status hl st.decides]

/-! ## the routes -/

/-- the contract does not mind the reports -/
structure Reports (T : Service.Terms S) : Prop where
  note : ∀ {p r x s d log e}, T.I d log e → T.I d log (S.note p (.countLiveOffers r) x s e)
  remote : ∀ {p r x d log e a e'}, T.I d log e → S.remote p r x e = some (a, e') → T.I d log e'

/-- `p` has committed once, what the call `inv` writes -/
def Done (strict exact : Prop) (inv : Invocation) (p : P) (s : St P) : Prop :=
  ∃ i c, s.commitsOf p = [c] ∧ Wrote strict exact p i inv c

theorem Done.stable : T.Stable p fun σ => Done strict exact inv p σ.store :=
  Terms.Stable.commitsOf fun l : List (Commit P Db) => ∃ i c, l = [c] ∧ Wrote strict exact p i inv c

theorem triple_done (hs : Sessions T strict exact)
    (hc : Commits T strict exact (fun _ _ _ => True) p inv) :
    T.Triple p (fun σ => Idle p σ.store) inv.body (fun _ σ => Done strict exact inv p σ.store)
      fun _ _ => True :=
  (triple_body hs inv hc).weaken (fun _ h => h)
    (fun _ _ _ ⟨_, i, c, hl, hw, _⟩ => ⟨i, c, hl, hw⟩) fun _ _ _ _ => trivial

/-- **what an operation does in its session** -/
theorem triple_op (hs : Sessions T strict exact)
    (hc : Commits T strict exact (fun _ _ _ => True) p inv) :
    T.Triple p (fun σ => Idle p σ.store) inv.op (fun _ σ => Done strict exact inv p σ.store)
      fun _ _ => True :=
  triple_getSession (triple_done hs hc) (fun _ => Done.stable) fun _ _ h => h

/-- the report comes after the commit and takes nothing back -/
theorem triple_reportOfferCount (hs : Sessions T strict exact) (hr : Reports T) {r : UUID} :
    T.Triple p (fun σ => Done strict exact inv p σ.store) (reportOfferCount r)
      (fun _ σ => Done strict exact inv p σ.store) fun _ _ => True := by
  refine .bind (B := fun _ σ => Done strict exact inv p σ.store)
    (.bind (B := fun _ σ => Done strict exact inv p σ.store)
      (Terms.Triple.query Done.stable (fun _ => Done.stable) (fun σ x a t hi h hst => ?_)
        fun _ _ h => h) fun r => ?_) fun n => ?_
  · have hq : stmt p (.countLiveOffers r) x σ.store = some (a, t) := hs.stmt hst
    cases hq
    exact ⟨hi.locked, hr.note hi.holds, h⟩
  · exact .orThrow Done.stable (fun _ _ _ _ h => h) fun _ _ _ _ _ => trivial
  · exact Terms.Triple.remote Done.stable (fun _ => Done.stable)
      fun σ x a e hi h hx => ⟨hr.remote hi.holds hx, h⟩

theorem triple_handler (hs : Sessions T strict exact) (hr : Reports T)
    (hc : Commits T strict exact (fun _ _ _ => True) p inv) :
    T.Triple p (fun σ => Idle p σ.store) inv.handler
      (fun _ σ => Done strict exact inv p σ.store) fun _ _ => True := by
  refine triple_getSession (.bind (triple_done hs hc) fun o => ?_) (fun _ => Done.stable)
    fun _ _ h => h
  cases inv with
  | updateOffer i s t im ty => exact .pure Done.stable fun _ _ h => h
  | createOffer s r t as im ty =>
    exact .bind (triple_reportOfferCount hs hr) fun _ => .pure Done.stable fun _ _ h => h
  | cancelOffer i s =>
    exact .bind (triple_reportOfferCount hs hr) fun _ => .pure Done.stable fun _ _ h => h
  | setStatus i st =>
    exact .bind (triple_reportOfferCount hs hr) fun _ => .pure Done.stable fun _ _ h => h

theorem idle_fresh (p : P) (d : Db) : Idle p (Store.fresh d : St P) := ⟨rfl, rfl⟩

/-- **every run**: the contract holds, and what a program ends in -/
theorem runs_ends {progs : P → Op Offer} {B : P → Offer → St P → Prop} {d₀ : Db} {e₀ : E}
    {σ : Config P E} (h₀ : T.I d₀ [] e₀)
    (hprog : ∀ p, T.Triple p (fun σ => Idle p σ.store) (progs p) (fun o σ => B p o σ.store)
      fun _ _ => True)
    (h : Runs S.machine (start progs d₀ e₀) σ) :
    T.I σ.state.store.committed σ.state.store.log σ.state.ext ∧
    ∀ p o, σ.prog p = some (.ret (.ok o)) → B p o σ.state.store := by
  have hinv : T.Inv (start progs d₀ e₀).state := ⟨fun _ _ hw => absurd hw List.not_mem_nil, h₀⟩
  obtain ⟨hi, hp⟩ := T.contract.runs (Q := fun p => Terms.ends (fun o σ => B p o σ.store)
    fun _ _ => True) h hinv fun p m hm => by
      obtain rfl := Option.some.inj hm
      exact hprog p _ (idle_fresh p _)
  exact ⟨hi.holds, fun p o ho => hp p _ ho _ (T.contract.rely_refl p _) hi⟩

end

end Marketplace.Offers
