import Marketplace.Lib.Told
import Marketplace.Offers.Lifecycle

/-!
# offer-service: who changes an offer

The row that a session updates is one it has loaded, and what it has loaded may be stale.  All the
same nobody changes an offer of somebody else: the columns that decide whose it is never change.

* `Invocation.Adds`    the offers that a route may store;
* `Invocation.Touches`, `Invocation.Sets`   the offers that it may alter, and what in them;
* `Changed`          what a commit of a route leaves of the table;
* `told_handler`     a route updates only what it has loaded and found to be its own to alter;
* `changed_by_owner` **every commit of every run** is such a change.
-/

set_option linter.unusedSectionVars false

namespace Marketplace.Offers

open Table Events ReadCommitted Interleave Service

/-! ## what a route may do -/

def Invocation.Adds : Invocation → Offer → Prop
  | .createOffer s r _ _ _ _, o => o.sellerID = s ∧ o.requestID = r
  | .updateOffer _ _ _ _ _, _ => False
  | .cancelOffer _ _, _ => False
  | .setStatus _ _, _ => False

/-- by its id and its seller -/
def Invocation.Touches : Invocation → UUID → UUID → Prop
  | .createOffer _ _ _ _ _ _, _, _ => False
  | .updateOffer i s _ _ _, j, sl => j = i ∧ sl = s
  | .cancelOffer i s, j, sl => j = i ∧ sl = s
  | .setStatus i _, j, _ => j = i

/-- the same terms, under the old status or under `st` -/
structure Offer.Marked (st : OfferStatus) (o o' : Offer) : Prop where
  terms : o'.terms = o.terms
  imageType : o'.imageType = o.imageType
  status : o'.status = o.status ∨ o'.status = st

def Invocation.Sets : Invocation → Offer → Offer → Prop
  | .createOffer _ _ _ _ _ _, _, _ => False
  | .updateOffer _ _ _ _ _, o, o' => o'.status = o.status
  | .cancelOffer _ _, o, o' => o.Marked .CANCELLED o'
  | .setStatus _ st, o, o' => o.Marked st.status o'

/-- what becomes of a row -/
structure Invocation.Kept (inv : Invocation) (o o' : Offer) : Prop where
  offerID : o'.offerID = o.offerID
  sellerID : o'.sellerID = o.sellerID
  requestID : o'.requestID = o.requestID
  createdAt : o'.createdAt = o.createdAt
  altered : o' = o ∨ inv.Touches o.offerID o.sellerID ∧ inv.Sets o o'

/-- what becomes of the table: every row is kept, and rows are added -/
def Invocation.Changed (inv : Invocation) (d e : Db) : Prop :=
  ∃ (f : Offer → Offer) (new : List Offer), e.offers = d.offers.map f ++ new ∧
    (∀ o, inv.Kept o (f o)) ∧ ∀ o ∈ new, inv.Adds o

section
variable {inv : Invocation} {d e : Db} {o o' o'' : Offer}

theorem Offer.Marked.trans {st : OfferStatus} (h : o.Marked st o') (h' : o'.Marked st o'') :
    o.Marked st o'' := by
  refine ⟨h'.terms.trans h.terms, h'.imageType.trans h.imageType, ?_⟩
  rcases h'.status with hs | hs
  · exact h.status.imp hs.trans hs.trans
  · exact .inr hs

theorem Invocation.Sets.trans (h : inv.Sets o o') (h' : inv.Sets o' o'') : inv.Sets o o'' := by
  cases inv with
  | createOffer s r t as im ty => exact h
  | updateOffer i s t im ty => exact Eq.trans h' h
  | cancelOffer i s => exact Offer.Marked.trans h h'
  | setStatus i st => exact Offer.Marked.trans h h'

theorem Invocation.Kept.refl (inv : Invocation) (o : Offer) : inv.Kept o o :=
  ⟨rfl, rfl, rfl, rfl, .inl rfl⟩

theorem Invocation.Kept.trans (h : inv.Kept o o') (h' : inv.Kept o' o'') : inv.Kept o o'' := by
  refine ⟨h'.offerID.trans h.offerID, h'.sellerID.trans h.sellerID,
    h'.requestID.trans h.requestID, h'.createdAt.trans h.createdAt, ?_⟩
  rcases h.altered with rfl | ⟨ht, hs⟩
  · exact h'.altered
  · rcases h'.altered with rfl | ⟨-, hs'⟩
    · exact .inr ⟨ht, hs⟩
    · exact .inr ⟨ht, hs.trans hs'⟩

/-- whose an offer is does not change -/
theorem Invocation.Adds.kept (h : inv.Adds o) {inv' : Invocation} (hk : inv'.Kept o o') :
    inv.Adds o' := by
  cases inv with
  | createOffer s r t as im ty => exact ⟨hk.sellerID.trans h.1, hk.requestID.trans h.2⟩
  | updateOffer i s t im ty => exact h
  | cancelOffer i s => exact h
  | setStatus i st => exact h

theorem changed_of_offers (inv : Invocation) (h : e.offers = d.offers) : inv.Changed d e := by
  refine ⟨id, [], ?_, fun o => .refl inv o, fun o ho => absurd ho List.not_mem_nil⟩
  rw [List.map_id, List.append_nil, h]

theorem Invocation.Changed.trans {a b c : Db} (h : inv.Changed a b) (h' : inv.Changed b c) :
    inv.Changed a c := by
  obtain ⟨f, new, hb, hf, hn⟩ := h
  obtain ⟨g, new', hc, hg, hn'⟩ := h'
  refine ⟨g ∘ f, new.map g ++ new', ?_, fun o => (hf o).trans (hg (f o)), fun o ho => ?_⟩
  · rw [hc, hb, List.map_append, List.map_map, List.append_assoc]
  · rcases List.mem_append.mp ho with ho | ho
    · obtain ⟨x, hx, rfl⟩ := List.mem_map.mp ho
      exact (hn x hx).kept (hg x)
    · exact hn' o ho

/-! ## the rows that are found -/

/-- the offer is still there, as somebody's who made it then -/
def Stands (d : Db) (o : Offer) : Prop :=
  ∃ o', d.find o.offerID = some o' ∧ o'.offerID = o.offerID ∧ o'.sellerID = o.sellerID

theorem find_map {f : Offer → Offer} {new : List Offer} (he : e.offers = d.offers.map f ++ new)
    (hf : ∀ o, (f o).offerID = o.offerID) (i : UUID) :
    e.find i = ((d.find i).map f).or (new.find? (·.offerID == i)) := by
  have hsame : ((fun o : Offer => o.offerID == i) ∘ f) = fun o => o.offerID == i := by
    funext o
    rw [Function.comp, hf]
  unfold Db.find
  rw [he, List.find?_append, List.find?_map, hsame]

theorem Stands.changed (h : Stands d o) (hc : inv.Changed d e) : Stands e o := by
  obtain ⟨x, hx, hid, hs⟩ := h
  obtain ⟨f, new, he, hf, -⟩ := hc
  refine ⟨f x, ?_, (hf x).offerID.trans hid, (hf x).sellerID.trans hs⟩
  rw [find_map he (fun o => (hf o).offerID), hx]
  rfl

/-- what a route finds that adds nothing was there before -/
theorem Invocation.Changed.found (hc : inv.Changed d e) (hadds : ∀ o, ¬inv.Adds o) {i : UUID}
    (h : e.find i = some o) : Stands d o := by
  obtain ⟨f, new, he, hf, hn⟩ := hc
  have hnew : new = [] := List.eq_nil_iff_forall_not_mem.mpr fun o ho => hadds o (hn o ho)
  have hid : o.offerID = i := find_id h
  rw [find_map he (fun o => (hf o).offerID), hnew] at h
  obtain ⟨x, hx, rfl⟩ := Option.map_eq_some_iff.mp ((Option.or_none ..).symm.trans h)
  refine ⟨x, ?_, (hf x).offerID.symm, (hf x).sellerID.symm⟩
  rw [hid]
  exact hx

end

/-! ## what a route sends -/

/-- the columns of an update -/
def Invocation.Assigns : Invocation → Columns → Prop
  | .createOffer _ _ _ _ _ _, _ => False
  | .updateOffer _ _ _ _ _, set => set.status = none
  | .cancelOffer _ _, set => set = {} ∨ set = { status := some .CANCELLED }
  | .setStatus _ st, set => set = {} ∨ set = { status := some st.status }

/-- the offers in an answer, with the ids that were asked for -/
def hears : (c : Cmd Stmt Report) → Ans Row Reply c → List (UUID × Offer)
  | .sql (.getOffer i), .ok a => a.toList.map fun o => (i, o)
  | _, _ => []

/-- an update is one of a row that was found, and found to be the route's to alter -/
def Invocation.Sends (inv : Invocation) : Cmd Stmt Report → List (UUID × Offer) → Prop
  | .sql (.getOffer _), _ => ∀ o, ¬inv.Adds o
  | .sql (.insertOffer s r _ _), _ => ∀ o : Offer, o.sellerID = s → o.requestID = r → inv.Adds o
  | .sql (.updateOffer loaded set), g =>
    ∃ j, (j, loaded) ∈ g ∧ inv.Touches j loaded.sellerID ∧ inv.Assigns set
  | _, _ => True

section
variable {inv : Invocation} {g : List (UUID × Offer)}

theorem told_exec {q : Stmt} {Φ : Row q → List (UUID × Offer) → Prop}
    (hq : inv.Sends (.sql q) g) (h : ∀ a, Φ a (hears (.sql q) (.ok a) ++ g)) :
    Told hears inv.Sends (exec q) g Φ :=
  Told.sql hq h

theorem told_begin : Told hears inv.Sends begin g fun _ _ => True := by
  refine Told.bind (Told.begin (Φ := fun _ _ => True) trivial fun _ => trivial) fun r _ _ => ?_
  exact Told.orThrow fun _ _ => trivial

theorem told_commit : Told hears inv.Sends commit g fun _ _ => True := by
  refine Told.bind (Told.commit (Φ := fun _ _ => True) trivial fun _ => trivial) fun r _ _ => ?_
  exact Told.orThrow fun _ _ => trivial

theorem told_rollback : Told hears inv.Sends (rollback : Op Unit) g fun _ _ => True :=
  Told.rollback trivial fun _ => trivial

theorem told_getOffer {i : UUID} (hadds : ∀ o, ¬inv.Adds o) :
    Told hears inv.Sends (getOffer i) g fun o g => (i, o) ∈ g := by
  refine Told.bind (told_exec hadds (Φ := fun a g => ∀ o, a = some o → (i, o) ∈ g) ?_)
    fun a g ha => ?_
  · intro a o ho
    subst ho
    exact List.mem_cons_self
  · cases a with
    | none => exact Told.throw _
    | some o => exact Told.pure (ha o rfl)

theorem told_ownPendingOffer {i s : UUID} (hadds : ∀ o, ¬inv.Adds o) :
    Told hears inv.Sends (ownPendingOffer i s) g fun o g => (i, o) ∈ g ∧ o.sellerID = s := by
  refine Told.bind (told_getOffer hadds) fun o g ho => ?_
  split
  · exact Told.throw _
  · rename_i hs
    split
    · exact Told.throw _
    · exact Told.pure ⟨ho, not_not.mp hs⟩

theorem told_enqueue (key : RoutingKey) (ns : List Notification) :
    Told hears inv.Sends (enqueue key ns) g fun _ _ => True := by
  unfold enqueue
  split
  · exact Told.pure trivial
  · exact told_exec trivial fun _ => trivial

theorem told_addImage (i : UUID) (image : Bytes) :
    Told hears inv.Sends (addImage i image) g fun _ _ => True := by
  unfold addImage
  split
  · exact Told.pure trivial
  · exact told_exec trivial fun _ => trivial

theorem told_commitOffer (o : Offer) (admins : List UUID) (image : Bytes) :
    Told hears inv.Sends (commitOffer o admins image) g fun _ _ => True :=
  Told.bind (told_enqueue _ _) fun _ _ _ => Told.bind (told_addImage _ _) fun _ _ _ => told_commit

theorem told_existing {s r : UUID} (e : PgErr) :
    Told hears inv.Sends (do
      rollback
      begin
      match ← exec (.liveOfferOf s r) with
      | some existing => throw (.offerAlreadyMade (.of existing))
      | none => throw (.pg e) : Op Offer) g fun _ _ => True := by
  refine Told.bind told_rollback fun _ _ _ => Told.bind told_begin fun _ _ _ => ?_
  refine Told.bind (told_exec (Φ := fun _ _ => True) trivial fun _ => trivial) fun a _ _ => ?_
  cases a with
  | none => exact Told.throw _
  | some o => exact Told.throw _

theorem told_createOffer {s r : UUID} {t : Terms} {admins : List UUID} {image : Bytes}
    {imageType : String} (hadds : ∀ o : Offer, o.sellerID = s → o.requestID = r → inv.Adds o) :
    Told hears inv.Sends (createOffer s r t admins image imageType) g fun _ _ => True := by
  refine Told.bind told_begin fun _ _ _ => ?_
  refine Told.bind (told_exec (Φ := fun _ _ => True) trivial fun _ => trivial) fun a _ _ => ?_
  cases a with
  | some existing => exact Told.throw _
  | none =>
    refine Told.bind (told_exec (Φ := fun _ _ => True) hadds fun _ => trivial) fun o _ _ => ?_
    refine Told.bind (Told.attempt (told_commitOffer _ _ _)) fun a _ _ => ?_
    cases a with
    | ok _ => exact told_exec trivial fun _ => trivial
    | error e =>
      cases e with
      | pg e =>
        show Told hears inv.Sends (if integrityError e = true then _ else _) _ _
        split
        · exact told_existing e
        · exact Told.throw _
      | offerNotFound => exact Told.throw _
      | notOfferOwner => exact Told.throw _
      | offerAlreadyMade existing => exact Told.throw _
      | offerNotPending => exact Told.throw _

/-- the commit, and the row that is answered -/
theorem told_finish (i : UUID) :
    Told hears inv.Sends (do
      commit
      exec (.refresh i) : Op Offer) g fun _ _ => True :=
  Told.bind told_commit fun _ _ _ => told_exec trivial fun _ => trivial

theorem told_storeImage (existing : Option OfferImage) (i : UUID) (image : Bytes) :
    Told hears inv.Sends (storeImage existing i image) g fun _ _ => True := by
  cases existing with
  | none => exact told_exec trivial fun _ => trivial
  | some oi => exact told_exec trivial fun _ => trivial

theorem told_flushTerms {j i : UUID} {o : Offer} {t : Terms} {image : Bytes} {imageType : String}
    (ho : (j, o) ∈ g) (ht : inv.Touches j o.sellerID)
    (hset : ∀ set : Columns, set.status = none → inv.Assigns set) :
    Told hears inv.Sends (flushTerms o i t image imageType) g fun _ _ => True := by
  unfold flushTerms
  split
  · exact told_exec ⟨j, ho, ht, hset _ rfl⟩ fun _ => trivial
  · refine Told.bind (told_exec (Φ := fun _ g => (j, o) ∈ g) trivial fun _ => ho) fun a g ho => ?_
    refine Told.bind (told_exec (Φ := fun _ _ => True) ⟨j, ho, ht, hset _ rfl⟩ fun _ => trivial)
      fun _ _ _ => ?_
    exact told_storeImage a i image

theorem told_body (inv : Invocation) : Told hears inv.Sends inv.body g fun _ _ => True := by
  cases inv with
  | createOffer s r t admins im ty => exact told_createOffer fun _ hs hr => ⟨hs, hr⟩
  | updateOffer i s t im ty =>
    refine Told.bind told_begin fun _ _ _ => ?_
    refine Told.bind (told_ownPendingOffer fun _ h => h) fun o g ho => ?_
    refine Told.bind (told_flushTerms ho.1 ⟨rfl, ho.2⟩ fun _ h => h) fun _ _ _ => ?_
    exact told_finish i
  | cancelOffer i s =>
    refine Told.bind told_begin fun _ _ _ => ?_
    refine Told.bind (told_ownPendingOffer fun _ h => h) fun o g ho => ?_
    refine Told.bind (told_exec (Φ := fun _ _ => True) ⟨i, ho.1, ⟨rfl, ho.2⟩, .inr rfl⟩
      fun _ => trivial) fun _ _ _ => ?_
    exact told_finish i
  | setStatus i st =>
    refine Told.bind told_begin fun _ _ _ => ?_
    refine Told.bind (told_getOffer fun _ h => h) fun o g ho => ?_
    show Told hears (Invocation.setStatus i st).Sends (if o.status ≠ .PENDING then _ else _) _ _
    split
    · exact Told.throw _
    · refine Told.bind (told_exec (Φ := fun _ _ => True) ⟨i, ho, rfl, .inr rfl⟩
        fun _ => trivial) fun _ _ _ => ?_
      exact told_finish i

theorem told_getSession {α : Type} {body : Op α} (h : Told hears inv.Sends body g fun _ _ => True) :
    Told hears inv.Sends (getSession body) g fun _ _ => True := by
  refine Told.bind (Told.attempt h) fun r _ _ => ?_
  cases r with
  | ok a => exact Told.bind told_rollback fun _ _ _ => Told.pure trivial
  | error e => exact Told.bind told_rollback fun _ _ _ => Told.throw e

theorem told_report (o : Offer) (r : UUID) :
    Told hears inv.Sends (do
      reportOfferCount r
      return o : Op Offer) g fun _ _ => True := by
  have hcount : Told hears inv.Sends (reportOfferCount r) g fun _ _ => True :=
    Told.bind (told_exec (Φ := fun _ _ => True) trivial fun _ => trivial) fun _ _ _ =>
      Told.remote trivial fun _ => trivial
  exact Told.bind hcount fun _ _ _ => Told.pure trivial

/-- **a route updates only what it has found to be its own to alter** -/
theorem told_handler (inv : Invocation) : Told hears inv.Sends inv.handler g fun _ _ => True := by
  refine told_getSession (Told.bind (told_body inv) fun o _ _ => ?_)
  cases inv with
  | createOffer s r t admins im ty => exact told_report o r
  | updateOffer i s t im ty => exact Told.pure trivial
  | cancelOffer i s => exact told_report o o.requestID
  | setStatus i st => exact told_report o o.requestID

end

/-! ## what a route writes -/

/-- the writes of a route that has not committed -/
def Invocation.Writes (inv : Invocation) : Write → Prop
  | .insertOffer o => inv.Adds o
  | .updateOffer old set _ => inv.Touches old.offerID old.sellerID ∧ inv.Assigns set
  | _ => True

section
variable {inv : Invocation} {d : Db} {set : Columns}

theorem changed_only {st : OfferStatus} (loaded : Offer)
    (h : set = {} ∨ set = { status := some st }) :
    set.changed loaded = {} ∨ set.changed loaded = { status := some st } := by
  rcases h with rfl | rfl
  · exact .inl rfl
  · by_cases hs : st = loaded.status
    · left
      simp [Columns.changed, hs]
    · right
      simp [Columns.changed, hs]

/-- the session leaves columns out and adds none -/
theorem Invocation.Assigns.changed (h : inv.Assigns set) (loaded : Offer) :
    inv.Assigns (set.changed loaded) := by
  cases inv with
  | createOffer s r t as im ty => exact h
  | updateOffer i s t im ty =>
    show set.status.filter _ = none
    rw [show set.status = none from h]
    rfl
  | cancelOffer i s => exact changed_only loaded h
  | setStatus i st => exact changed_only loaded h

theorem marked_updated {st : OfferStatus} (h : set = {} ∨ set = { status := some st }) (now : Time)
    (o : Offer) : o.Marked st (o.updated set now) := by
  rcases h with rfl | rfl
  · exact ⟨rfl, rfl, .inl rfl⟩
  · exact ⟨rfl, rfl, .inr rfl⟩

theorem Invocation.Assigns.sets (h : inv.Assigns set) (now : Time) (o : Offer) :
    inv.Sets o (o.updated set now) := by
  cases inv with
  | createOffer s r t as im ty => exact h
  | updateOffer i s t im ty =>
    show set.status.getD o.status = o.status
    rw [show set.status = none from h]
    rfl
  | cancelOffer i s => exact marked_updated h now o
  | setStatus i st => exact marked_updated h now o

theorem Invocation.Writes.changed {w : Write} (h : inv.Writes w) (d : Db) :
    inv.Changed d (w.apply d) := by
  cases w with
  | insertOffer o =>
    refine ⟨id, [o], ?_, fun x => .refl inv x, fun x hx => List.mem_singleton.mp hx ▸ h⟩
    rw [List.map_id]
    rfl
  | updateOffer old set now =>
    refine ⟨fun o => if old.isRow o then o.updated set now else o, [], (List.append_nil _).symm,
      fun o => ?_, fun o ho => absurd ho List.not_mem_nil⟩
    show inv.Kept o (if old.isRow o then o.updated set now else o)
    split
    · rename_i hrow
      simp only [Offer.isRow, Bool.and_eq_true, beq_iff_eq] at hrow
      obtain ⟨⟨⟨hid, hs⟩, -⟩, -⟩ := hrow
      have ht : inv.Touches o.offerID o.sellerID := hid ▸ hs ▸ h.1
      exact ⟨rfl, rfl, rfl, rfl, .inr ⟨ht, h.2.sets now o⟩⟩
    · exact .refl inv o
  | insertImage oi => exact changed_of_offers inv rfl
  | updateImage j data now => exact changed_of_offers inv rfl
  | insertOutbox row => exact changed_of_offers inv rfl

theorem changed_applyAll {ws : List Write} (h : ∀ w ∈ ws, inv.Writes w) (d : Db) :
    inv.Changed d (applyAll ws d) :=
  applyAll_rel inv.Changed (fun _ => changed_of_offers inv rfl) (fun _ _ _ h h' => h.trans h') ws
    (fun w hw d => (h w hw).changed d) d

end

/-! ## every run -/

section
variable {P E Y : Type} [DecidableEq P] {calls : P → Invocation} {out : Outside P E Y}
  {d₀ : Db} {e₀ : E} {p : P} {s t : St P} {g : List (UUID × Offer)}

/-- the row that was found under an id stands -/
def Stood (d : Db) (u : UUID × Offer) : Prop := u.2.offerID = u.1 ∧ Stands d u.2

theorem writes_put {inv : Invocation} {w : Write} (hput : s.put p w = some t)
    (hw : ∀ v ∈ s.pending p, inv.Writes v) (h : inv.Writes w) :
    ∀ v ∈ t.pending p, inv.Writes v := by
  intro v hv
  rw [put_pending hput] at hv
  rcases List.mem_append.mp hv with hv | hv
  · exact hw v hv
  · exact List.mem_singleton.mp hv ▸ h

/-- a statement that may be sent writes what may be written -/
theorem writes_stmt {inv : Invocation} {q : Stmt} {x : Choice Y} {a : Except PgErr (Row q)}
    (h : stmt p q x s = some (a, t)) (hq : inv.Sends (.sql q) g)
    (hg : ∀ u ∈ g, Stood s.committed u) (hw : ∀ w ∈ s.pending p, inv.Writes w) :
    ∀ w ∈ t.pending p, inv.Writes w := by
  cases a with
  | error e =>
    rw [stmt_error h]
    exact hw
  | ok a =>
    cases q with
    | getOffer i =>
      cases h
      exact hw
    | liveOfferOf sl r =>
      cases h
      exact hw
    | getImage i =>
      cases h
      exact hw
    | countLiveOffers r =>
      cases h
      exact hw
    | refresh i =>
      simp only [stmt] at h
      split at h
      · cases h
        exact hw
      · exact (failing_ok h).elim
    | insertOffer sl r tm ty =>
      obtain ⟨hs, hr, -, -, -, -, hput⟩ := insertOffer_ok h
      exact writes_put hput hw (hq _ hs hr)
    | updateOffer loaded set =>
      obtain ⟨old, hold, -, hput⟩ := updateOffer_ok h
      obtain ⟨j, hj, ht, hset⟩ := hq
      obtain ⟨hid, hstands⟩ := hg _ hj
      -- the row that the update finds is the one that was loaded, as it is now
      obtain ⟨o, ho, -, hs⟩ := hstands.changed (changed_applyAll hw s.committed)
      obtain rfl : old = o := Option.some.inj (hold.symm.trans ho)
      have hold' : inv.Touches old.offerID old.sellerID := by
        rw [find_id hold, hs, show loaded.offerID = j from hid]
        exact ht
      exact writes_put hput hw ⟨hold', hset.changed loaded⟩
    | insertImage i data => exact writes_put (insertImage_ok h).2 hw trivial
    | updateImage loaded data => exact writes_put (updateImage_ok h).2 hw trivial
    | insertOutbox key ns => exact writes_put (insertOutbox_ok h) hw trivial

/-- what holds in every run -/
structure Changing (calls : P → Invocation) (σ : Config P E) : Prop where
  informed : Informed hears (fun p => (calls p).Sends) (Stood σ.state.store.committed)
    (fun _ _ _ => True) σ
  pending : ∀ p, ∀ w ∈ σ.state.store.pending p, (calls p).Writes w
  log : ∀ c ∈ σ.state.store.log, (calls c.tx).Changed c.before c.after

variable {σ τ : Config P E}

theorem changing_start : Changing calls (start (fun p => (calls p).handler) d₀ e₀) where
  informed := by
    intro p m hm
    obtain rfl := Option.some.inj hm
    refine ⟨[], fun u hu => absurd hu List.not_mem_nil, ?_⟩
    exact Prog.Told.mono (told_handler (calls p)) fun _ _ _ => trivial
  pending p w hw := absurd hw List.not_mem_nil
  log c hc := absurd hc List.not_mem_nil

theorem Changing.view (h : Changing calls σ) (p : P) :
    (calls p).Changed σ.state.store.committed (σ.state.store.view p) :=
  changed_applyAll (h.pending p) _

/-- what a route hears of stands -/
theorem Changing.hears (h : Changing calls σ) {c : Cmd Stmt Report} {b : Ans Row Reply c}
    {k : Ans Row Reply c → Prog (Cmd Stmt Report) (Ans Row Reply) (Except Err Offer)}
    {x : Choice Y} {s : State P Db Write Lock E} (hp : σ.prog p = some (.call c k))
    (hx : (spec out).exec p c x σ.state = some (b, s)) :
    ∀ u ∈ Offers.hears c b, Stood σ.state.store.committed u := by
  intro u hu
  obtain ⟨g, -, hsend⟩ := h.informed.sends hp
  cases c with
  | begin => exact absurd hu List.not_mem_nil
  | commit => exact absurd hu List.not_mem_nil
  | rollback => exact absurd hu List.not_mem_nil
  | remote r => exact absurd hu List.not_mem_nil
  | sql q =>
    cases q with
    | getOffer i =>
      simp only [Spec.exec] at hx
      split at hx
      · obtain ⟨⟨a, t⟩, hst, he⟩ := Option.map_eq_some_iff.mp hx
        cases he
        have hst : stmt p (.getOffer i) x σ.state.store = some (a, t) := hst
        cases hst
        obtain ⟨o, ho, rfl⟩ := List.mem_map.mp hu
        have hfound : (σ.state.store.view p).find i = some o := Option.mem_toList.mp ho
        exact ⟨find_id hfound, (h.view p).found hsend hfound⟩
      · cases hx
        exact absurd hu List.not_mem_nil
    | _ => exact absurd hu List.not_mem_nil

theorem changing_step {a : Act P (Choice Y)} (h : Changing calls σ)
    (hs : (spec out).machine.step σ a = some τ) : Changing calls τ := by
  have hstood : ∀ u, Stood σ.state.store.committed u → Stood τ.state.store.committed u := by
    intro u hu
    rcases Spec.step_store hs with ⟨p, -, he⟩ | ⟨hc, -⟩
    · rw [he]
      exact ⟨hu.1, hu.2.changed (h.view p)⟩
    · rw [hc]
      exact hu
  refine ⟨?_, fun p w hw => ?_, fun c hc => ?_⟩
  · refine (h.informed.mono hstood).step hs fun p c k x b s hp hx u hu => ?_
    exact hstood u (h.hears hp hx u hu)
  · rcases Spec.step_pending hs hw with hw | ⟨q, k, x, b, t, hp, hst, hw⟩
    · exact h.pending p w hw
    · obtain ⟨g, hg, hsend⟩ := h.informed.sends hp
      exact writes_stmt hst hsend hg (h.pending p) w hw
  · rcases Spec.step_store hs with ⟨p, -, he⟩ | ⟨-, hl⟩
    · rw [he] at hc
      rcases List.mem_cons.mp hc with rfl | hc
      · exact h.view p
      · exact h.log c hc
    · exact h.log c (hl ▸ hc)

theorem runs_changing (h : Runs (spec out).machine (start (fun p => (calls p).handler) d₀ e₀) σ) :
    Changing calls σ := by
  induction h with
  | refl => exact changing_start
  | tail _ a hs ih => exact changing_step ih hs

/-- where an offer comes from: it was there, or a call has stored it that may -/
theorem adds_of_log {d : Db} {log : List (Commit P Db)} (hch : Chained d₀ log d)
    (hlog : ∀ c ∈ log, (calls c.tx).Changed c.before c.after) {o : Offer} (ho : o ∈ d.offers) :
    (∃ o₀ ∈ d₀.offers, o₀.offerID = o.offerID ∧ o₀.sellerID = o.sellerID ∧
      o₀.requestID = o.requestID) ∨ ∃ c ∈ log, (calls c.tx).Adds o := by
  induction log generalizing d o with
  | nil =>
    obtain rfl : d = d₀ := hch
    exact .inl ⟨o, ho, rfl, rfl, rfl⟩
  | cons c log ih =>
    obtain ⟨rfl, hrest⟩ := hch
    obtain ⟨f, new, he, hf, hn⟩ := hlog c List.mem_cons_self
    rw [he] at ho
    rcases List.mem_append.mp ho with ho | ho
    · obtain ⟨x, hx, rfl⟩ := List.mem_map.mp ho
      have hk := hf x
      rcases ih hrest (fun c' hc' => hlog c' (List.mem_cons_of_mem _ hc')) hx with
        ⟨o₀, ho₀, hid, hs, hr⟩ | ⟨c', hc', ha⟩
      · exact .inl ⟨o₀, ho₀, hid.trans hk.offerID.symm, hs.trans hk.sellerID.symm,
          hr.trans hk.requestID.symm⟩
      · exact .inr ⟨c', List.mem_cons_of_mem _ hc', ha.kept hk⟩
    · exact .inr ⟨c, List.mem_cons_self, hn o ho⟩

/-- **Nobody changes an offer of somebody else.**  The routes run interleaved, statement by
statement, at READ COMMITTED, over any contents, and an update may be of a row that has changed
since it was loaded.  Every commit leaves every offer under its seller and its request, and alters
only what its route may: a new offer is stored for the seller and the request of the call, a seller
changes the terms of an offer of its own or cancels it, and a decision changes the status of the
offer it is about.  So every offer is there from the beginning or comes from a call of its seller
on its request. -/
theorem changed_by_owner (calls : P → Invocation) (out : Outside P E Y) (d₀ : Db) (e₀ : E)
    {σ : Config P E}
    (h : Runs (spec out).machine (start (fun p => (calls p).handler) d₀ e₀) σ) :
    (∀ c ∈ σ.state.store.log, (calls c.tx).Changed c.before c.after) ∧
    ∀ o ∈ σ.state.store.committed.offers,
      (∃ o₀ ∈ d₀.offers, o₀.offerID = o.offerID ∧ o₀.sellerID = o.sellerID ∧
        o₀.requestID = o.requestID) ∨
      ∃ c ∈ σ.state.store.log, (calls c.tx).Adds o := by
  have hc := runs_changing h
  exact ⟨hc.log, fun o ho => adds_of_log (Spec.chained_runs h (chained_fresh d₀)) hc.log ho⟩

end

/-! ## the contest, with the routes around the operations -/

/-- both calls load the offer while it is PENDING; the cancellation is written last -/
def contested : List (Act (Fin 3) (Choice Unit)) :=
  List.replicate 8 (move 0) ++ [move 1, move 2, move 1, move 2] ++
    List.replicate 6 (move 1) ++ List.replicate 6 (move 2)

theorem changed_by_owner_contest :
    ∃ σ, Runs (spec Outside.nothing).machine
        (start (fun p => (contest p).handler) Db.empty ()) σ ∧
      σ.state.store.log.map Commit.tx = [2, 1, 0] ∧
      (∀ c ∈ σ.state.store.log, (contest c.tx).Changed c.before c.after) ∧
      ∀ o ∈ σ.state.store.committed.offers, ∃ c ∈ σ.state.store.log, (contest c.tx).Adds o := by
  obtain ⟨σ, hr, hσ⟩ := Runs.exists_of_run (M := (spec Outside.nothing).machine)
    (σ := start (fun p => (contest p).handler) Db.empty ()) contested
    (f := fun σ => σ.state.store.log.map Commit.tx) (b := [2, 1, 0]) (by decide +kernel)
  obtain ⟨hlog, hadds⟩ := changed_by_owner contest Outside.nothing Db.empty () hr
  refine ⟨σ, hr, hσ, hlog, fun o ho => (hadds o ho).resolve_left ?_⟩
  rintro ⟨o₀, ho₀, -⟩
  exact absurd ho₀ List.not_mem_nil

end Marketplace.Offers
