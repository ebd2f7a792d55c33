import Marketplace.Lib.Checked
import Marketplace.Lib.Journal
import Marketplace.Offers.Lifecycle
import Marketplace.Offers.Payload

/-!
# offer-service: the label of a picture and its bytes

The label lies in `offer`, the bytes in `offer_image`.  A replacement sends each only where it differs
from what its session has loaded, and a reader reads them with two SELECTs.

* `Task`             a call: an operation, or `offer_image` of a reader;
* `halves d ws`      what the replacement `ws` leaves out fits, in the contents `d`, what it sends;
* `whole tasks`      the condition on one move: a commit has its `halves`, and the label is still the one
                     that a reader has read when it reads the bytes.  Nothing in the code checks this;
* `Photo ws`         the writes of a transaction: at most one offer, and its picture;
* `LabelAt i d`      the offer `i` has a label exactly if it has a picture, and that of its bytes;
* `labels_describe`  **in every run whose moves all meet the condition labels describe the bytes**, in
                     the tables and in what readers are given;
* `label_crossed`    without it two replacements mix their halves, and a reader those of two pictures.
-/

set_option linter.unusedSectionVars false

namespace Marketplace.Offers

open Table Events ReadCommitted Interleave Service

/-! ## readers -/

/-- the bytes, their type, the time of the last change -/
abbrev Served := Bytes × String × Time

/-- `offer_image`, as its route calls it: to a seller (`own`) a rival's picture is like no picture.  The
offer is asked for twice then, but the session holds it already. -/
def offerImage (own : Option UUID) (offerID : UUID) : Op Served := do
  begin
  match ← exec (.getOffer offerID) with
  | none => throw .offerNotFound
  | some offer =>
    if own.any (offer.sellerID ≠ ·) then throw .offerNotFound
    else if offer.imageType = "" then throw .offerNotFound
    else
      match ← exec (.getImage offerID) with
      | none => throw .offerNotFound
      | some stored => pure (stored.imageData, offer.imageType, stored.updatedAt)

inductive Task where
  | operation (inv : Invocation)
  | offerImage (own : Option UUID) (offerID : UUID)

def Task.reads : Task → Bool
  | .operation _ => false
  | .offerImage _ _ => true

/-- what a task returns -/
inductive Result where
  | offer (o : Offer)
  | image (served : Served)

def Task.program : Task → Op Result
  | .operation inv => do
    let offer ← inv.handler
    return .offer offer
  | .offerImage own i => do
    let served ← getSession (Offers.offerImage own i)
    return .image served

/-- the picture of an operation is one that `_body_with_image` has let pass -/
def Task.Received : Task → Prop
  | .operation (.createOffer _ _ payload _ image imageType) =>
    ∃ body, bodyWithImage body = .ok (payload, image, imageType)
  | .operation (.updateOffer _ _ payload image imageType) =>
    ∃ body, bodyWithImage body = .ok (payload, image, imageType)
  | _ => True

theorem bodyWithImage_ok {body : Body} {payload : Terms} {image : Bytes} {imageType : String}
    (h : bodyWithImage body = .ok (payload, image, imageType)) : Photographed image imageType := by
  unfold bodyWithImage at h
  cases hb : body with
  | error e =>
    rw [hb] at h
    cases h
  | ok x =>
    obtain ⟨terms, data⟩ := x
    simp only [hb, bind, Except.bind, pure, Except.pure] at h
    split at h
    · cases h
      exact .inl rfl
    · cases hd : detect data with
      | error e =>
        rw [hd] at h
        cases h
      | ok ty =>
        rw [hd] at h
        cases h
        exact .inr hd

/-! ## the condition -/

/-- the label of an offer; of no offer it is empty -/
def Db.labelOf (d : Db) (i : UUID) : String := ((d.find i).map (·.imageType)).getD ""

/-- the type of bytes; of no picture it is empty -/
def typeOf (data : Bytes) : String :=
  match detect data with
  | .ok ty => ty
  | .error _ => ""

/-- A replacement leaves out a half that is as it has loaded it.  That half fits the one it sends. -/
def halves (d : Db) : List Write → Bool
  | [.updateOffer old set _, .insertImage oi] =>
    set.imageType.isSome || d.labelOf old.offerID == typeOf oi.imageData
  | [.updateOffer old set _, .updateImage _ (some data) _] =>
    set.imageType.isSome || d.labelOf old.offerID == typeOf data
  | [.updateOffer _ set _, .updateImage i none _] =>
    set.imageType.all fun ty => (d.findImage i).all fun oi => typeOf oi.imageData == ty
  | _ => true

section
variable {P : Type} [DecidableEq P]

/-- outside, the label is kept that a process has read last -/
def readLabels : Outside P (P → String) Unit where
  note p q _ s e :=
    match q with
    | .getOffer i => Function.update e p ((s.view p).labelOf i)
    | _ => e
  report _ _ _ e := some e
  env _ _ := none

/-- the condition on one move -/
def whole (tasks : P → Task) (p : P) (c : Cmd Stmt Report) (x : Choice Unit)
    (σ : State P Db Write Lock (P → String)) : Bool :=
  match c with
  | .commit => x.fault == .failed || halves σ.store.committed (σ.store.pending p)
  | .sql (.getImage i) => !(tasks p).reads || (σ.store.view p).labelOf i == σ.ext p
  | _ => true

abbrev Labelling (P : Type) : Type :=
  Conf P (Cmd Stmt Report) (Ans Row Reply) (State P Db Write Lock (P → String)) (Except Err Result)

/-- the tasks on empty tables, none of them begun -/
def begun (tasks : P → Task) : Labelling P where
  state := ⟨Store.fresh Db.empty, fun _ => ""⟩
  prog p := some (tasks p).program.run

end

/-! ## what a write has found -/

theorem find_congr {d e : Db} {i : UUID} (h : d.rowsOf i = e.rowsOf i) : d.find i = e.find i := by
  rw [find_eq, find_eq, h]

theorem findImage_congr {d e : Db} {i : UUID} (h : d.imagesOf i = e.imagesOf i) :
    d.findImage i = e.findImage i := by
  rw [findImage_eq, findImage_eq, h]

/-- what the statement of a write has checked -/
def Write.Found : Write → Db → Prop
  | .insertOffer o, d => d.find o.offerID = none
  | .updateOffer old _ _, d => d.find old.offerID = some old
  | .insertImage oi, d => d.findImage oi.offerID = none
  | .updateImage i _ _, d => d.findImage i ≠ none
  | .insertOutbox _, _ => True

theorem found_congr {w : Write} {d e : Db} (hs : ∀ l ∈ w.takes, Db.sameUnder l d e)
    (h : w.Found d) : w.Found e := by
  have hoffer : ∀ i, Lock.offer i ∈ w.takes → d.find i = e.find i :=
    fun i hi => find_congr (hs _ hi)
  have himage : ∀ i, Lock.image i ∈ w.takes → d.findImage i = e.findImage i :=
    fun i hi => findImage_congr (hs _ hi)
  cases w with
  | insertOffer o =>
    exact (hoffer o.offerID List.mem_cons_self).symm.trans h
  | updateOffer old set now =>
    exact (hoffer old.offerID List.mem_cons_self).symm.trans h
  | insertImage oi =>
    exact (himage oi.offerID List.mem_cons_self).symm.trans h
  | updateImage i data now =>
    rw [Write.Found, ← himage i List.mem_cons_self]
    exact h
  | insertOutbox row => trivial

/-- a statement leaves what it has found under the locks it has taken -/
theorem stmt_found {P Y : Type} [DecidableEq P] {p : P} {q : Stmt} {x : Choice Y} {s t : St P}
    {a : Except PgErr (Row q)} (h : stmt p q x s = some (a, t)) :
    t.pending p = s.pending p ∨ ∃ w : Write, w.Found (s.view p) ∧ t.pending p = s.pending p ++ [w] := by
  cases a with
  | error e => exact .inl (by rw [stmt_error h])
  | ok r =>
    cases q with
    | getOffer i =>
      cases h
      exact .inl rfl
    | liveOfferOf sl r =>
      cases h
      exact .inl rfl
    | getImage i =>
      cases h
      exact .inl rfl
    | countLiveOffers r =>
      cases h
      exact .inl rfl
    | refresh i =>
      simp only [stmt] at h
      split at h
      · cases h
        exact .inl rfl
      · cases h
    | insertOffer sl r tm ty =>
      obtain ⟨-, -, -, -, hnone, -, hput⟩ := insertOffer_ok h
      refine .inr ⟨_, ?_, put_pending hput⟩
      exact hnone
    | updateOffer loaded set =>
      obtain ⟨old, hold, -, hput⟩ := updateOffer_ok h
      refine .inr ⟨_, ?_, put_pending hput⟩
      rw [Write.Found, find_id hold]
      exact hold
    | insertImage i data =>
      obtain ⟨hnone, hput⟩ := insertImage_ok h
      refine .inr ⟨_, ?_, put_pending hput⟩
      exact hnone
    | updateImage loaded data =>
      obtain ⟨hsome, hput⟩ := updateImage_ok h
      refine .inr ⟨_, ?_, put_pending hput⟩
      exact hsome
    | insertOutbox key ns =>
      refine .inr ⟨_, ?_, put_pending (insertOutbox_ok h)⟩
      trivial

/-- the writes of offer-service find what they have checked -/
def checks {P E Y : Type} [DecidableEq P] (out : Outside P E Y) : Checks (spec out) where
  Ok := Write.Found
  congr hs h := found_congr hs h
  stmt h hw := ⟨stmt_wellLocked hw h, stmt_found h⟩

/-! ## what a transaction consists of -/

/-- what the answer of a statement says of its writes -/
def Stmt.Makes (q : Stmt) : Row q → List Write → Prop :=
  match q with
  | .getOffer i => fun r ws => (∀ o, r = some o → o.offerID = i) ∧ ws = []
  | .getImage i => fun r ws => (∀ oi, r = some oi → oi.offerID = i) ∧ ws = []
  | .insertOffer _ _ _ ty => fun o ws => o.imageType = ty ∧ ws = [.insertOffer o]
  | .updateOffer loaded set => fun _ ws => ∃ old now, old.offerID = loaded.offerID ∧
      ws = [.updateOffer old (set.changed loaded) now]
  | .insertImage i data => fun _ ws => ∃ now, ws = [.insertImage ⟨i, data, now⟩]
  | .updateImage loaded data => fun _ ws => ∃ now, ws = [.updateImage loaded.offerID
      (if data = loaded.imageData then none else some data) now]
  | .insertOutbox _ _ => fun _ ws => ∃ row, ws = [.insertOutbox row]
  | _ => fun _ ws => ws = []

/-- the writes of a transaction: at most one offer, and its picture -/
inductive Photo : List Write → Prop where
  | created (o : Offer) (rest : List Write) (h : o.imageType = "")
      (hrest : ∀ w ∈ rest, ∃ row, w = .insertOutbox row) : Photo (.insertOffer o :: rest)
  | pictured (o : Offer) (rest : List Write) (data : Bytes) (now : Time)
      (h : detect data = .ok o.imageType) (hrest : ∀ w ∈ rest, ∃ row, w = .insertOutbox row) :
      Photo (.insertOffer o :: (rest ++ [.insertImage ⟨o.offerID, data, now⟩]))
  | edited (old : Offer) (set : Columns) (now : Time) (h : set.imageType = none) :
      Photo [.updateOffer old set now]
  | added (old : Offer) (set : Columns) (now now' : Time) (image : Bytes) (ty : String)
      (h : detect image = .ok ty) (hty : ∀ u, set.imageType = some u → u = ty) :
      Photo [.updateOffer old set now, .insertImage ⟨old.offerID, image, now'⟩]
  | replaced (old : Offer) (set : Columns) (now now' : Time) (image : Bytes) (ty : String)
      (data : Option Bytes) (h : detect image = .ok ty) (hty : ∀ u, set.imageType = some u → u = ty)
      (hdata : ∀ b, data = some b → b = image) :
      Photo [.updateOffer old set now, .updateImage old.offerID data now']

theorem stmt_makes {Y P : Type} [DecidableEq P] {p : P} {q : Stmt} {x : Choice Y} {s t : St P}
    {r : Row q} (h : stmt p q x s = some (.ok r, t)) :
    ∃ ws, t.pending p = s.pending p ++ ws ∧ q.Makes r ws := by
  have hnil : s.pending p = s.pending p ++ [] := (List.append_nil _).symm
  cases q with
  | getOffer i =>
    cases h
    exact ⟨[], hnil, fun o ho => find_id ho, rfl⟩
  | getImage i =>
    cases h
    refine ⟨[], hnil, fun oi hoi => ?_, rfl⟩
    rw [findImage_eq] at hoi
    simpa using (List.mem_filter.mp (List.mem_of_head? hoi)).2
  | liveOfferOf sl r =>
    cases h
    exact ⟨[], hnil, rfl⟩
  | countLiveOffers r =>
    cases h
    exact ⟨[], hnil, rfl⟩
  | refresh i =>
    simp only [stmt] at h
    split at h
    · cases h
      exact ⟨[], hnil, rfl⟩
    · cases h
  | insertOffer sl r tm ty =>
    obtain ⟨rfl, -, -, -, -, hput⟩ := insertOffer_eq h
    exact ⟨_, put_pending hput, rfl, rfl⟩
  | updateOffer loaded set =>
    obtain ⟨old, hold, -, hput⟩ := updateOffer_ok h
    exact ⟨_, put_pending hput, old, _, find_id hold, rfl⟩
  | insertImage i data =>
    obtain ⟨-, hput⟩ := insertImage_ok h
    exact ⟨_, put_pending hput, _, rfl⟩
  | updateImage loaded data =>
    obtain ⟨-, hput⟩ := updateImage_ok h
    exact ⟨_, put_pending hput, _, rfl⟩
  | insertOutbox key ns => exact ⟨_, put_pending (insertOutbox_ok h), _, rfl⟩

/-- transactions of offers with their pictures -/
def photos {P E Y : Type} [DecidableEq P] (out : Outside P E Y) : Journal (spec out) where
  Makes := Stmt.Makes
  May _ ws := Photo ws
  stmt {p q x s a t} h := by
    have h : stmt p q x s = some (a, t) := h
    cases a with
    | ok r =>
      obtain ⟨ws, hws, hm⟩ := stmt_makes h
      refine ⟨ws, hws, ?_, nofun⟩
      rintro _ ⟨⟩
      exact hm
    | error e =>
      refine ⟨[], ?_, nofun, fun _ _ => rfl⟩
      rw [stmt_error h, List.append_nil]

section
variable {P E Y : Type} [DecidableEq P] {out : Outside P E Y} {p : P} {ws : List Write}

theorem writes_exec {q : Stmt} {Φ : Row q → List Write → Prop}
    (h : ∀ r vs, q.Makes r vs → Φ r (ws ++ vs)) : (photos out).Writes p ws (exec q) Φ :=
  Journal.Writes.sql h

theorem writes_begin : (photos out).Writes p ws begin fun _ vs => vs = ws := by
  refine .bind .begin fun r vs e => ?_
  rw [e]
  exact .orThrow

theorem writes_commit (h : Photo ws) : (photos out).Writes p ws commit fun _ vs => vs = [] := by
  refine .bind (.commit h) fun r vs e => ?_
  rw [e]
  exact .orThrow

/-- a statement that writes nothing -/
theorem writes_read {q : Stmt} (h : ∀ r vs, q.Makes r vs → vs = []) :
    (photos out).Writes p ws (exec q) fun _ vs => vs = ws := by
  refine writes_exec fun r vs hr => ?_
  rw [h r vs hr, List.append_nil]

theorem writes_getOffer {i : UUID} :
    (photos out).Writes p ws (getOffer i) fun o vs => o.offerID = i ∧ vs = ws := by
  refine .bind (Φ := fun r vs => (∀ o, r = some o → o.offerID = i) ∧ vs = ws)
    (writes_exec fun r vs hr => ⟨hr.1, by rw [hr.2, List.append_nil]⟩) fun r vs hr => ?_
  cases r with
  | none => exact .throw _
  | some o => exact .pure ⟨hr.1 o rfl, hr.2⟩

theorem writes_ownPendingOffer {i sellerID : UUID} :
    (photos out).Writes p ws (ownPendingOffer i sellerID) fun o vs => o.offerID = i ∧ vs = ws := by
  refine .bind writes_getOffer fun o vs ho => ?_
  split
  · exact .throw _
  split
  · exact .throw _
  · exact .pure ho

/-- the UPDATE of an offer -/
theorem writes_updateOffer {loaded : Offer} {set : Columns} :
    (photos out).Writes p [] (exec (.updateOffer loaded set)) fun _ vs => ∃ old now,
      old.offerID = loaded.offerID ∧ vs = [.updateOffer old (set.changed loaded) now] :=
  writes_exec fun _ _ hr => hr

theorem changed_label {set : Columns} {loaded : Offer} {ty u : String}
    (h : set.imageType = some ty) (hu : (set.changed loaded).imageType = some u) : u = ty := by
  have hf : (some ty).filter (fun v => decide (v ≠ loaded.imageType)) = some u := h ▸ hu
  exact (Option.some.inj (Option.eq_some_of_filter_eq_some hf)).symm

/-- the changes of an offer that leave the label alone -/
theorem writes_edited {loaded : Offer} {set : Columns} (h : set.imageType = none) :
    (photos out).Writes p [] (exec (.updateOffer loaded set)) fun _ vs => Photo vs := by
  refine .mono writes_updateOffer ?_
  rintro - _ ⟨old, now, -, rfl⟩
  refine .edited old _ now ?_
  show set.imageType.filter _ = none
  rw [h]
  rfl

/-- the flush of a replacement -/
theorem writes_storeImage {existing : Option OfferImage} {old : Offer} {set : Columns} {now : Time}
    {image : Bytes} {ty : String} (hd : detect image = .ok ty)
    (hset : ∀ u, set.imageType = some u → u = ty)
    (hex : ∀ oi, existing = some oi → oi.offerID = old.offerID) :
    (photos out).Writes p [.updateOffer old set now] (storeImage existing old.offerID image)
      fun _ vs => Photo vs := by
  cases existing with
  | none =>
    refine writes_exec fun r vs hr => ?_
    obtain ⟨now', rfl⟩ := hr
    exact .added old set now now' image ty hd hset
  | some oi =>
    refine writes_exec fun r vs hr => ?_
    obtain ⟨now', rfl⟩ := hr
    rw [hex oi rfl]
    refine .replaced old set now now' image ty _ hd hset fun b hb => ?_
    split at hb
    · cases hb
    · exact (Option.some.inj hb).symm

theorem writes_flushTerms {loaded : Offer} {payload : Terms} {image : Bytes} {imageType : String}
    (h : Photographed image imageType) :
    (photos out).Writes p [] (flushTerms loaded loaded.offerID payload image imageType)
      fun _ vs => Photo vs := by
  unfold flushTerms
  by_cases e : image = []
  · rw [if_pos e]
    exact writes_edited rfl
  · rw [if_neg e]
    refine .bind (Φ := fun (r : Option OfferImage) vs =>
      (∀ oi, r = some oi → oi.offerID = loaded.offerID) ∧ vs = [])
      (writes_exec fun r vs hr => hr) fun existing vs hex => ?_
    rw [hex.2]
    refine .bind writes_updateOffer fun _ vs hu => ?_
    obtain ⟨old, now, hid, rfl⟩ := hu
    rw [← hid]
    exact writes_storeImage (h.resolve_left e) (fun u hu => changed_label rfl hu)
      fun oi hoi => (hex.1 oi hoi).trans hid.symm

/-- the flush of `create_offer` -/
theorem writes_commitOffer {o : Offer} {adminUserIDs : List UUID} {image : Bytes}
    {imageType : String} (h : Photographed image imageType)
    (ho : o.imageType = if image = [] then "" else imageType) :
    (photos out).Writes p [.insertOffer o] (commitOffer o adminUserIDs image)
      fun _ vs => vs = [] := by
  unfold commitOffer
  refine .bind (Φ := fun _ vs => ∃ rest : List Write, vs = .insertOffer o :: rest ∧
    ∀ w ∈ rest, ∃ row, w = .insertOutbox row) ?_ fun _ vs hvs => ?_
  · unfold enqueue
    split
    · exact .pure ⟨[], rfl, fun _ hw => absurd hw List.not_mem_nil⟩
    · refine writes_exec fun r vs hr => ?_
      obtain ⟨row, rfl⟩ := hr
      exact ⟨[.insertOutbox row], rfl, fun w hw => ⟨row, List.mem_singleton.mp hw⟩⟩
  · obtain ⟨rest, rfl, hrest⟩ := hvs
    refine .bind (Φ := fun _ vs => Photo vs) ?_ fun _ vs hvs => writes_commit hvs
    unfold addImage
    by_cases e : image = []
    · rw [if_pos e] at ho ⊢
      exact .pure (.created o rest ho hrest)
    · rw [if_neg e] at ho ⊢
      refine writes_exec fun r vs hr => ?_
      obtain ⟨now, rfl⟩ := hr
      exact .pictured o rest image now (ho ▸ h.resolve_left e) hrest

theorem writes_createOffer {sl r : UUID} {t : Terms} {as : List UUID} {image : Bytes}
    {imageType : String} (h : Photographed image imageType) :
    (photos out).Writes p [] (createOffer sl r t as image imageType) fun _ vs => vs = [] := by
  refine .bind writes_begin fun _ vs e => ?_
  rw [e]
  refine .bind (writes_read fun _ _ hr => hr) fun existing vs e => ?_
  rw [e]
  cases existing with
  | some o => exact .throw _
  | none =>
    refine .bind (Φ := fun (o : Offer) (vs : List Write) =>
      o.imageType = (if image = [] then "" else imageType) ∧ vs = [.insertOffer o])
      (writes_exec fun o vs hr => hr) fun o vs ho => ?_
    rw [ho.2]
    refine .bind (.attempt (writes_commitOffer h ho.1)) fun a vs ha => ?_
    match a with
    | .ok _ =>
      rw [ha () rfl]
      exact writes_read fun _ _ hr => hr
    | .error (.pg e) =>
      by_cases he : integrityError e = true
      · simp only [if_pos he]
        refine .bind .rollback fun _ vs e => ?_
        rw [e]
        refine .bind writes_begin fun _ vs e => ?_
        rw [e]
        refine .bind (writes_read fun _ _ hr => hr) fun b vs _ => ?_
        cases b with
        | some o => exact .throw _
        | none => exact .throw _
      · simp only [if_neg he]
        exact .throw _
    | .error .offerNotFound => exact .throw _
    | .error .notOfferOwner => exact .throw _
    | .error (.offerAlreadyMade _) => exact .throw _
    | .error .offerNotPending => exact .throw _

/-- commit and refresh, as the operations end -/
theorem writes_finish {i : UUID} (h : Photo ws) :
    (photos out).Writes p ws (do commit; exec (.refresh i)) fun _ vs => vs = [] := by
  refine .bind (writes_commit h) fun _ vs e => ?_
  rw [e]
  exact writes_read fun _ _ hr => hr

/-- the operation of a task carries a picture of its type -/
def Invocation.Photographed : Invocation → Prop
  | .createOffer _ _ _ _ image imageType => Offers.Photographed image imageType
  | .updateOffer _ _ _ image imageType => Offers.Photographed image imageType
  | .cancelOffer _ _ => True
  | .setStatus _ _ => True

/-- **one operation** -/
theorem writes_body (inv : Invocation) (h : inv.Photographed) :
    (photos out).Writes p [] inv.body fun _ vs => vs = [] := by
  cases inv with
  | createOffer sl r t as image imageType => exact writes_createOffer h
  | updateOffer i sellerID t image imageType =>
    refine .bind writes_begin fun _ vs e => ?_
    rw [e]
    refine .bind writes_ownPendingOffer fun o vs ho => ?_
    obtain ⟨rfl, rfl⟩ := ho
    exact .bind (writes_flushTerms h) fun _ vs hvs => writes_finish hvs
  | cancelOffer i sellerID =>
    refine .bind writes_begin fun _ vs e => ?_
    rw [e]
    refine .bind writes_ownPendingOffer fun o vs ho => ?_
    rw [ho.2]
    exact .bind (writes_edited rfl) fun _ vs hvs => writes_finish hvs
  | setStatus i st =>
    refine .bind writes_begin fun _ vs e => ?_
    rw [e]
    refine .bind writes_getOffer fun o vs ho => ?_
    rw [ho.2]
    split
    · exact .throw _
    · exact .bind (writes_edited rfl) fun _ vs hvs => writes_finish hvs

theorem writes_getSession {α : Type} {body : Op α} {Φ : α → List Write → Prop}
    (h : (photos out).Writes p ws body Φ) :
    (photos out).Writes p ws (getSession body) fun _ vs => vs = [] := by
  refine .bind (.attempt h) fun r vs _ => ?_
  cases r with
  | ok a => exact .bind .rollback fun _ vs e => .pure e
  | error e => exact .bind .rollback fun _ _ _ => .throw _

theorem writes_handler (inv : Invocation) (h : inv.Photographed) :
    (photos out).Writes p [] inv.handler fun _ vs => vs = [] := by
  refine writes_getSession (Φ := fun _ vs => vs = []) (.bind (writes_body inv h) fun o vs e => ?_)
  rw [e]
  have hreport : ∀ r, (photos out).Writes p [] (do reportOfferCount r; return o)
      fun _ vs => vs = [] := by
    intro r
    refine .bind (.bind (writes_read fun _ _ hr => hr) fun n vs e => ?_) fun _ vs e => .pure e
    rw [e]
    exact .remote
  cases inv with
  | updateOffer i s t image imageType => exact .pure rfl
  | createOffer s r t as image imageType => exact hreport _
  | cancelOffer i s => exact hreport _
  | setStatus i st => exact hreport _

theorem Task.Received.photographed {inv : Invocation} (h : (Task.operation inv).Received) :
    inv.Photographed := by
  cases inv with
  | createOffer s r t as image imageType =>
    obtain ⟨body, hb⟩ := h
    exact bodyWithImage_ok hb
  | updateOffer i s t image imageType =>
    obtain ⟨body, hb⟩ := h
    exact bodyWithImage_ok hb
  | cancelOffer i s => trivial
  | setStatus i st => trivial

theorem writes_offerImage (own : Option UUID) (i : UUID) :
    (photos out).Writes p [] (offerImage own i) fun _ vs => vs = [] := by
  refine .bind writes_begin fun _ vs e => ?_
  rw [e]
  refine .bind (writes_read fun _ _ hr => hr.2) fun o vs e => ?_
  rw [e]
  cases o with
  | none => exact .throw _
  | some o =>
    dsimp only
    split
    · exact .throw _
    split
    · exact .throw _
    refine .bind (writes_read fun _ _ hr => hr.2) fun oi vs e => ?_
    cases oi with
    | none => exact .throw _
    | some oi => exact .pure e

/-- **a task commits an offer and its picture, or nothing** -/
theorem writes_program (t : Task) (h : t.Received) :
    (photos out).Writes p [] t.program fun _ vs => vs = [] := by
  cases t with
  | operation inv => exact .bind (writes_handler inv h.photographed) fun _ vs e => .pure e
  | offerImage own i => exact .bind (writes_getSession (writes_offerImage own i)) fun _ vs e => .pure e

end

/-! ## one commit -/

/-- the offer `i` is not there, has neither label nor picture, or has a picture and its label -/
def LabelAt (i : UUID) (d : Db) : Prop :=
  d.rowsOf i = [] ∧ d.imagesOf i = [] ∨
  ∃ o, d.rowsOf i = [o] ∧ (o.imageType = "" ∧ d.imagesOf i = [] ∨
    ∃ oi, d.imagesOf i = [oi] ∧ detect oi.imageData = .ok o.imageType)

variable {i : UUID} {d e : Db}

theorem LabelAt.congr (h : LabelAt i d) (hu : Unchanged i d e) : LabelAt i e := by
  unfold LabelAt
  rw [← hu.1, ← hu.2]
  exact h

theorem typeOf_ok {data : Bytes} {ty : String} (h : detect data = .ok ty) : typeOf data = ty := by
  unfold typeOf
  rw [h]

theorem detect_label {data : Bytes} {ty : String} (h : detect data = .ok ty) : ty ≠ "" := by
  rintro rfl
  have hin := (detect_accepted h).1
  simp at hin

/-- the row that `find` gives is the only one -/
theorem LabelAt.row (h : LabelAt i d) {o : Offer} (ho : d.find i = some o) :
    d.rowsOf i = [o] ∧ (o.imageType = "" ∧ d.imagesOf i = [] ∨
      ∃ oi, d.imagesOf i = [oi] ∧ detect oi.imageData = .ok o.imageType) := by
  rw [find_eq] at ho
  rcases h with ⟨h, -⟩ | ⟨o', h, hpic⟩
  · rw [h] at ho
    cases ho
  · rw [h] at ho
    obtain rfl : o' = o := Option.some.inj ho
    exact ⟨h, hpic⟩

/-- no picture without its offer -/
theorem LabelAt.empty (h : LabelAt i d) (ho : d.find i = none) :
    d.rowsOf i = [] ∧ d.imagesOf i = [] := by
  rcases h with h | ⟨o, h, -⟩
  · exact h
  · rw [find_eq, h] at ho
    cases ho

/-- a picture has its offer, with its label -/
theorem LabelAt.picture (h : LabelAt i d) {oi : OfferImage} (hoi : d.findImage i = some oi) :
    ∃ o, d.rowsOf i = [o] ∧ d.imagesOf i = [oi] ∧ detect oi.imageData = .ok o.imageType := by
  rw [findImage_eq] at hoi
  rcases h with ⟨-, h⟩ | ⟨o, ho, ⟨-, h⟩ | ⟨oi', h, hd⟩⟩
  · rw [h] at hoi
    cases hoi
  · rw [h] at hoi
    cases hoi
  · rw [h] at hoi
    obtain rfl : oi' = oi := Option.some.inj hoi
    exact ⟨o, ho, h, hd⟩

theorem labelOf_row {o : Offer} (h : d.rowsOf i = [o]) : d.labelOf i = o.imageType := by
  rw [Db.labelOf, find_eq, h]
  rfl

/-- an offer with one row and one picture -/
theorem labelAt_iff {o : Offer} {oi : OfferImage} (ho : d.rowsOf i = [o]) (hoi : d.imagesOf i = [oi]) :
    LabelAt i d ↔ detect oi.imageData = .ok o.imageType := by
  constructor
  · intro h
    have hfind : d.findImage i = some oi := by rw [findImage_eq, hoi]; rfl
    obtain ⟨o', ho', -, hd⟩ := h.picture hfind
    rw [ho] at ho'
    cases ho'
    exact hd
  · exact fun h => .inr ⟨o, ho, .inr ⟨oi, hoi, h⟩⟩

theorem rowsOf_insertOffer {o : Offer} (h : d.rowsOf o.offerID = []) :
    (Write.apply (.insertOffer o) d).rowsOf o.offerID = [o] := by
  show (d.offers ++ [o]).filter _ = _
  rw [List.filter_append]
  show d.rowsOf o.offerID ++ _ = _
  rw [h]
  simp

theorem imagesOf_insertImage {oi : OfferImage} (h : d.imagesOf oi.offerID = []) :
    (Write.apply (.insertImage oi) d).imagesOf oi.offerID = [oi] := by
  show (d.images ++ [oi]).filter _ = _
  rw [List.filter_append]
  show d.imagesOf oi.offerID ++ _ = _
  rw [h]
  simp

theorem imagesOf_updateImage {oi : OfferImage} (h : d.imagesOf i = [oi]) (data : Option Bytes)
    (now : Time) : (Write.apply (.updateImage i data now) d).imagesOf i =
      [{ oi with imageData := data.getD oi.imageData, updatedAt := now }] := by
  have hid : oi.offerID = i := by
    have hmem : oi ∈ d.imagesOf i := h ▸ List.mem_singleton_self oi
    simpa using (List.mem_filter.mp hmem).2
  show (updateWhere _ _ d.images).filter _ = _
  rw [filter_updateWhere _ _ _ (by intro x _; rfl)]
  show updateWhere _ _ (d.imagesOf i) = _
  rw [h]
  simp [updateWhere, hid]

theorem unchanged_outbox {rest : List Write} (h : ∀ w ∈ rest, ∃ row, w = .insertOutbox row)
    (i : UUID) (d : Db) : Unchanged i d (applyAll rest d) := by
  refine ⟨same_applyAll (l := Lock.offer i) rest (fun w hw => ?_) d,
    same_applyAll (l := Lock.image i) rest (fun w hw => ?_) d⟩
  · obtain ⟨row, rfl⟩ := h w hw
    show Lock.offer i ∉ Write.takes (.insertOutbox row)
    simp [Write.takes]
  · obtain ⟨row, rfl⟩ := h w hw
    show Lock.image i ∉ Write.takes (.insertOutbox row)
    simp [Write.takes]

/-- writes on one offer keep the labels of the others -/
theorem labels_on {ws : List Write} (h : ∀ j, LabelAt j d) (hon : ∀ w ∈ ws, w.on i) :
    (∀ j, LabelAt j (applyAll ws d)) ↔ LabelAt i (applyAll ws d) := by
  refine ⟨fun hall => hall i, fun hi j => ?_⟩
  by_cases e : j = i
  · rw [e]
    exact hi
  · exact (h j).congr (unchanged_of_on ws hon e d)

theorem on_outbox {rest : List Write} (h : ∀ w ∈ rest, ∃ row, w = .insertOutbox row) (i : UUID) :
    ∀ w ∈ rest, w.on i := by
  intro w hw
  obtain ⟨row, rfl⟩ := h w hw
  exact Write.besides.on (w := .insertOutbox row) trivial

section
variable {P E Y : Type} [DecidableEq P] {out : Outside P E Y}

/-- a new offer -/
theorem labels_created {o : Offer} {rest : List Write} (hd : ∀ j, LabelAt j d)
    (hfound : d.find o.offerID = none) (ho : o.imageType = "")
    (hrest : ∀ w ∈ rest, ∃ row, w = .insertOutbox row) (j : UUID) :
    LabelAt j (applyAll (.insertOffer o :: rest) d) := by
  obtain ⟨hrows, himages⟩ := (hd o.offerID).empty hfound
  refine (labels_on hd (i := o.offerID) fun w hw => ?_).mpr ?_ j
  · rcases List.mem_cons.mp hw with rfl | hw
    · exact on_insertOffer o
    · exact on_outbox hrest _ w hw
  · rw [applyAll_cons]
    refine LabelAt.congr ?_ (unchanged_outbox hrest _ _)
    exact .inr ⟨o, rowsOf_insertOffer hrows, .inl ⟨ho, himages⟩⟩

/-- a new offer with its picture -/
theorem labels_pictured {o : Offer} {rest : List Write} {oi : OfferImage} (hd : ∀ j, LabelAt j d)
    (hfound : d.find o.offerID = none) (ho : detect oi.imageData = .ok o.imageType)
    (hid : oi.offerID = o.offerID) (hrest : ∀ w ∈ rest, ∃ row, w = .insertOutbox row) (j : UUID) :
    LabelAt j (applyAll (.insertOffer o :: (rest ++ [.insertImage oi])) d) := by
  obtain ⟨hrows, himages⟩ := (hd o.offerID).empty hfound
  refine (labels_on hd (i := o.offerID) fun w hw => ?_).mpr ?_ j
  · rcases List.mem_cons.mp hw with rfl | hw
    · exact on_insertOffer o
    rcases List.mem_append.mp hw with hw | hw
    · exact on_outbox hrest _ w hw
    · rw [List.mem_singleton.mp hw]
      exact Write.besides.on (w := .insertImage oi) hid
  · rw [applyAll_cons, applyAll_append]
    have hrest' := unchanged_outbox hrest o.offerID (Write.apply (.insertOffer o) d)
    refine (labelAt_iff ?_ ?_).mpr ho
    · exact hrest'.1.symm.trans (rowsOf_insertOffer hrows)
    · have hnone : (applyAll rest (Write.apply (.insertOffer o) d)).imagesOf oi.offerID = [] := by
        rw [hid, ← hrest'.2]
        exact himages
      rw [← hid]
      exact imagesOf_insertImage hnone

/-- an edit that leaves the picture alone -/
theorem labels_edited {old : Offer} {set : Columns} {now : Time} (hd : ∀ j, LabelAt j d)
    (hfound : d.find old.offerID = some old) (h : set.imageType = none) (j : UUID) :
    LabelAt j (applyAll [Write.updateOffer old set now] d) := by
  obtain ⟨hrows, hpic⟩ := (hd old.offerID).row hfound
  refine (labels_on hd (i := old.offerID) fun w hw => ?_).mpr ?_ j
  · rw [List.mem_singleton.mp hw]
    exact on_updateOffer old set now
  · have hlabel : (old.updated set now).imageType = old.imageType := by
      show set.imageType.getD old.imageType = _
      rw [h]
      rfl
    refine .inr ⟨old.updated set now, rowsOf_updateOffer old set now d hrows, ?_⟩
    rw [hlabel]
    exact hpic

/-- an offer and its picture: what counts is the label that the row has then -/
theorem labels_replacing {old : Offer} {set : Columns} {now : Time} {w : Write} {oi : OfferImage}
    (hd : ∀ j, LabelAt j d) (hfound : d.find old.offerID = some old) (hw : w.besides old.offerID)
    (hoi : (applyAll [Write.updateOffer old set now, w] d).imagesOf old.offerID = [oi]) :
    (∀ j, LabelAt j (applyAll [Write.updateOffer old set now, w] d)) ↔
      detect oi.imageData = .ok (set.imageType.getD old.imageType) := by
  obtain ⟨hrows, -⟩ := (hd old.offerID).row hfound
  rw [labels_on hd (i := old.offerID) fun v hv => ?_]
  · refine labelAt_iff (o := old.updated set now) ?_ hoi
    have hoffers : (applyAll [Write.updateOffer old set now, w] d).offers =
        (Write.apply (.updateOffer old set now) d).offers :=
      offers_besides [w] (fun v hv => List.mem_singleton.mp hv ▸ hw) _
    unfold Db.rowsOf
    rw [hoffers]
    exact rowsOf_updateOffer old set now d hrows
  · rcases List.mem_cons.mp hv with rfl | hv
    · exact on_updateOffer old set now
    · rw [List.mem_singleton.mp hv]
      exact hw.on

/-- bytes that are sent fit the label that is sent with them, or the one that was there -/
theorem sent_iff {set : Columns} {image : Bytes} {ty label : String} (h : detect image = .ok ty)
    (hty : ∀ u, set.imageType = some u → u = ty) :
    detect image = .ok (set.imageType.getD label) ↔
      (set.imageType.isSome || label == typeOf image) = true := by
  rw [h, typeOf_ok h]
  cases hs : set.imageType with
  | none =>
    show Except.ok ty = .ok label ↔ (label == ty) = true
    rw [beq_iff_eq, Except.ok.injEq]
    exact eq_comm
  | some u =>
    rw [hty u hs]
    exact iff_of_true rfl rfl

/-- **A commit keeps the labels exactly if its halves fit.** -/
theorem labels_commit {ws : List Write} (hd : ∀ j, LabelAt j d) (hp : Photo ws)
    (hf : (checks out).Holds d ws) : (∀ j, LabelAt j (applyAll ws d)) ↔ halves d ws = true := by
  cases hp with
  | created o rest h hrest =>
    refine iff_of_true (labels_created hd hf.1 h hrest) ?_
    cases rest <;> rfl
  | pictured o rest data now h hrest =>
    refine iff_of_true (labels_pictured hd hf.1 h rfl hrest) ?_
    cases rest <;> rfl
  | edited old set now h => exact iff_of_true (labels_edited hd hf.1 h) rfl
  | added old set now now' image ty h hty =>
    have hnone : d.findImage old.offerID = none := hf.2.1
    have himages : d.imagesOf old.offerID = [] := by
      rw [findImage_eq] at hnone
      exact List.head?_eq_none_iff.mp hnone
    have hlabel : d.labelOf old.offerID = old.imageType := labelOf_row ((hd _).row hf.1).1
    have hafter : (applyAll [Write.updateOffer old set now,
        .insertImage ⟨old.offerID, image, now'⟩] d).imagesOf old.offerID =
          [⟨old.offerID, image, now'⟩] := imagesOf_insertImage himages
    rw [labels_replacing hd hf.1 (w := .insertImage ⟨old.offerID, image, now'⟩) rfl hafter, halves,
      hlabel]
    exact sent_iff h hty
  | replaced old set now now' image ty data h hty hdata =>
    have hsome : d.findImage old.offerID ≠ none := hf.2.1
    obtain ⟨oi, hoi⟩ := Option.ne_none_iff_exists'.mp hsome
    obtain ⟨o, ho, himages, hdetect⟩ := (hd old.offerID).picture hoi
    have hrow := ((hd _).row hf.1).1
    obtain rfl : o = old := List.singleton_inj.mp (ho.symm.trans hrow)
    have hlabel : d.labelOf o.offerID = o.imageType := labelOf_row hrow
    rw [labels_replacing hd hf.1 (w := .updateImage o.offerID data now') rfl
      (imagesOf_updateImage himages data now')]
    cases data with
    | some b =>
      rw [hdata b rfl, halves, hlabel]
      exact sent_iff h hty
    | none =>
      show detect oi.imageData = .ok (set.imageType.getD o.imageType) ↔ _
      simp only [halves, hoi, Option.all_some]
      rw [hdetect, typeOf_ok hdetect]
      cases hs : set.imageType with
      | none => exact iff_of_true rfl rfl
      | some u =>
        show Except.ok o.imageType = .ok u ↔ (o.imageType == u) = true
        rw [beq_iff_eq, Except.ok.injEq]

end

/-! ## every run -/

section
variable {P : Type} [DecidableEq P] {tasks : P → Task} {σ τ : Labelling P} {p : P}

theorem kept_begun (hr : ∀ p, (tasks p).Received) : (photos readLabels).Kept (begun tasks) := by
  refine ⟨fun p m hm => ?_, fun _ hc => absurd hc List.not_mem_nil⟩
  obtain rfl := Option.some.inj hm
  exact Journal.Goes.mono (writes_program (tasks p) (hr p)) fun _ _ _ => trivial

/-- **the tables of every run** -/
theorem labels_run (hr : ∀ p, (tasks p).Received)
    (h : Runs ((spec readLabels).machine.guarded (whole tasks)) (begun tasks) σ) :
    ∀ i, LabelAt i σ.state.store.committed := by
  induction h with
  | refl => exact fun i => .inl ⟨rfl, rfl⟩
  | @tail τ υ h a hs ih =>
    obtain ⟨hstep, hok⟩ := Machine.step_guarded hs
    rcases Spec.step_store hstep with ⟨p, hp, he⟩ | ⟨he, -⟩
    · obtain ⟨x, k, rfl, hprog, hfault, -⟩ := Spec.step_may hstep hp
      have hhalves : (x.fault == .failed ||
          halves τ.state.store.committed (τ.state.store.pending p)) = true :=
        hok p x .commit k rfl hprog
      rw [Bool.or_eq_true, beq_iff_eq] at hhalves
      have hkept := Journal.runs h.of_guarded (kept_begun hr)
      have hsound := Checks.runs (K := checks readLabels) h.of_guarded (Checks.sound_fresh Db.empty)
      rw [he]
      exact (labels_commit ih (hkept.may hprog) (hsound.holds p)).mpr
        (hhalves.resolve_left hfault)
    · rw [he]
      exact ih

/-- the rest of a call of `offer_image` that has read the label `label`: it returns no bytes but of
their type -/
def Serves : Prog (Cmd Stmt Report) (Ans Row Reply) (Except Err Result) → String → Prop
  | .ret r, _ => ∀ served, r = .ok (.image served) → detect served.1 = .ok served.2.1
  | .call .begin k, label => ∀ a, Serves (k a) label
  | .call .rollback k, label => ∀ a, Serves (k a) label
  | .call (.sql (.getOffer _)) k, label => (∀ e, Serves (k (.error e)) label) ∧
      Serves (k (.ok none)) "" ∧ ∀ o : Offer, Serves (k (.ok (some o))) o.imageType
  | .call (.sql (.getImage _)) k, label => (∀ e, Serves (k (.error e)) label) ∧
      Serves (k (.ok none)) label ∧
      ∀ oi : OfferImage, detect oi.imageData = .ok label → Serves (k (.ok (some oi))) label
  | _, _ => False

theorem serves_program (own : Option UUID) (i : UUID) :
    Serves (Task.offerImage own i).program.run "" := by
  have hfails : ∀ (e : Err) label, Serves ((do
      let served ← getSession (throw e)
      return Result.image served : Op Result)).run label := by
    intro e label _ served hserved
    cases hserved
  rintro (e | ⟨⟨⟩⟩)
  · exact hfails _ _
  refine ⟨fun e => hfails _ _, hfails _ _, fun o => ?_⟩
  show Serves ((do
    let served ← getSession (if own.any (o.sellerID ≠ ·) then throw Err.offerNotFound
      else if o.imageType = "" then throw Err.offerNotFound
      else do
        match ← exec (.getImage i) with
        | none => throw Err.offerNotFound
        | some stored => pure (stored.imageData, o.imageType, stored.updatedAt))
    return Result.image served : Op Result)).run o.imageType
  split
  · exact hfails _ _
  split
  · exact hfails _ _
  refine ⟨fun e => hfails _ _, hfails _ _, fun oi hd _ served hserved => ?_⟩
  cases hserved
  exact hd

theorem Serves.error {q : Stmt} {k : Except PgErr (Row q) →
    Prog (Cmd Stmt Report) (Ans Row Reply) (Except Err Result)} {label : String}
    (h : Serves (.call (.sql q) k) label) (e : PgErr) : Serves (k (.error e)) label := by
  cases q with
  | getOffer i => exact h.1 e
  | getImage i => exact h.1 e
  | _ => exact h.elim

/-- a reader has written nothing, and goes on with the label that it has read -/
structure Serving (σ : Labelling P) (p : P) : Prop where
  pending : σ.state.store.pending p = []
  prog : ∀ m, σ.prog p = some m → Serves m (σ.state.ext p)

theorem Serving.update {s : State P Db Write Lock (P → String)} (hp : s.store.pending p = [])
    {n : Prog (Cmd Stmt Report) (Ans Row Reply) (Except Err Result)} (hn : Serves n (s.ext p)) :
    Serving ⟨s, Function.update σ.prog p (some n)⟩ p := by
  refine ⟨hp, fun m hm => ?_⟩
  have hm : Function.update σ.prog p (some n) p = some m := hm
  rw [Function.update_self] at hm
  exact Option.some.inj hm ▸ hn

/-- a move of the reader itself -/
theorem Serving.exec {x : Choice Unit} (h : Serving σ p) (hreads : (tasks p).reads = true)
    (hl : ∀ i, LabelAt i σ.state.store.committed)
    (hs : ((spec readLabels).machine.guarded (whole tasks)).step σ (.exec p x) = some τ) :
    Serving τ p := by
  obtain ⟨hstep, hok⟩ := Machine.step_guarded hs
  obtain ⟨c, k, a, s, hp, hx, rfl⟩ := Machine.step_exec hstep
  have hserves := h.prog _ hp
  have hview : σ.state.store.view p = σ.state.store.committed := view_of_pending h.pending
  cases c with
  | begin =>
    cases hx
    refine .update ?_ (hserves _)
    show (execBegin p x σ.state.store).2.pending p = []
    unfold execBegin
    split
    · exact h.pending
    · exact h.pending
  | rollback =>
    cases hx
    exact .update (Function.update_self ..) (hserves _)
  | commit => exact hserves.elim
  | remote r => exact hserves.elim
  | sql q =>
    have hx : (spec readLabels).exec p (.sql q) x σ.state = some (a, s) := hx
    simp only [Spec.exec] at hx
    split at hx
    · obtain ⟨⟨r, t⟩, hst, e⟩ := Option.map_eq_some_iff.mp hx
      cases e
      have hst : stmt p q x σ.state.store = some (r, t) := hst
      cases q with
      | getOffer i =>
        cases hst
        refine Serving.update (s := ⟨σ.state.store,
          Function.update σ.state.ext p ((σ.state.store.view p).labelOf i)⟩) h.pending ?_
        show Serves _ (Function.update σ.state.ext p _ p)
        rw [Function.update_self, Db.labelOf]
        cases (σ.state.store.view p).find i with
        | none => exact hserves.2.1
        | some o => exact hserves.2.2 o
      | getImage i =>
        cases hst
        refine Serving.update (σ := σ) h.pending ?_
        show Serves _ (σ.state.ext p)
        cases hoi : (σ.state.store.view p).findImage i with
        | none => exact hserves.2.1
        | some oi =>
          refine hserves.2.2 oi ?_
          -- the label is that of the committed row, which has the label of its picture
          have hsame : (!(tasks p).reads ||
              (σ.state.store.view p).labelOf i == σ.state.ext p) = true := hok p x _ k rfl hp
          rw [hreads, Bool.not_true, Bool.false_or, beq_iff_eq, hview] at hsame
          rw [hview] at hoi
          obtain ⟨o, ho, -, hd⟩ := (hl i).picture hoi
          rw [← hsame, labelOf_row ho]
          exact hd
      | _ => exact hserves.elim
    · cases hx
      exact .update h.pending (hserves.error .other)

/-- the others read for themselves -/
theorem exec_label {q : P} {c : Cmd Stmt Report} {x : Choice Unit}
    {s t : State P Db Write Lock (P → String)} {a : Ans Row Reply c} (hq : p ≠ q)
    (h : (spec readLabels).exec q c x s = some (a, t)) : t.ext p = s.ext p := by
  cases c with
  | begin =>
    cases h
    rfl
  | commit =>
    obtain ⟨-, -, rfl⟩ := (spec readLabels).exec_commit h
    rfl
  | rollback =>
    cases h
    rfl
  | remote r =>
    cases h
    rfl
  | sql r =>
    simp only [Spec.exec] at h
    split at h
    · obtain ⟨b, -, e⟩ := Option.map_eq_some_iff.mp h
      cases e
      cases r with
      | getOffer i => exact Function.update_of_ne hq _ _
      | _ => rfl
    · cases h
      rfl

/-- a move of somebody else -/
theorem Serving.other {a : Act P (Choice Unit)} (h : Serving σ p) (ha : ∀ x, a ≠ .exec p x)
    (hs : (spec readLabels).machine.step σ a = some τ) : Serving τ p := by
  cases a with
  | env x =>
    obtain ⟨s, hx, rfl⟩ := Machine.step_env hs
    cases hx
  | crash q =>
    obtain ⟨-, rfl⟩ := Machine.step_crash hs
    by_cases e : p = q
    · subst e
      refine ⟨Function.update_self .., fun m hm => ?_⟩
      have hm : Function.update σ.prog p none p = some m := hm
      rw [Function.update_self] at hm
      cases hm
    · refine ⟨?_, fun m hm => ?_⟩
      · exact ((Quiet.rollback q σ.state.store).others p e).1.trans h.pending
      · exact h.prog m ((Function.update_of_ne e _ _).symm.trans hm)
  | exec q x =>
    have e : p ≠ q := fun e => ha x (e ▸ rfl)
    obtain ⟨c, k, a, s, -, hx, rfl⟩ := Machine.step_exec hs
    have hx : (spec readLabels).exec q c x σ.state = some (a, s) := hx
    refine ⟨(Spec.exec_pending e hx).trans h.pending, fun m hm => ?_⟩
    show Serves m (s.ext p)
    rw [exec_label e hx]
    exact h.prog m ((Function.update_of_ne e _ _).symm.trans hm)

/-- **the readers of every run** -/
theorem serving_run (hr : ∀ p, (tasks p).Received)
    (h : Runs ((spec readLabels).machine.guarded (whole tasks)) (begun tasks) σ) {own : Option UUID}
    {i : UUID} (hp : tasks p = .offerImage own i) : Serving σ p := by
  induction h with
  | refl =>
    refine ⟨rfl, fun m hm => ?_⟩
    have hm : some (tasks p).program.run = some m := hm
    rw [hp] at hm
    exact Option.some.inj hm ▸ serves_program own i
  | tail h a hs ih =>
    by_cases e : ∃ x, a = .exec p x
    · obtain ⟨x, rfl⟩ := e
      have hreads : (tasks p).reads = true := by
        rw [hp]
        rfl
      exact ih.exec hreads (labels_run hr h) hs
    · exact ih.other (fun x hx => e ⟨x, hx⟩) (Machine.step_guarded hs).1

/-- **Labels describe the bytes.**  Any operations and any calls of `offer_image` run from empty tables
in any order, any of their commands may fail, and every move meets the condition `whole`: a replacement
that commits leaves out no half that does not fit by then, and no reader reads the bytes when the label
is another by then.  Then an offer has a label exactly if it has a picture, which has the type that the
label says, and a reader is given no bytes of another type than it is told. -/
theorem labels_describe (tasks : P → Task) (hr : ∀ p, (tasks p).Received) {σ : Labelling P}
    (h : Runs ((spec readLabels).machine.guarded (whole tasks)) (begun tasks) σ) :
    (∀ o ∈ σ.state.store.committed.offers,
      (o.imageType ≠ "" ↔ ∃ oi ∈ σ.state.store.committed.images, oi.offerID = o.offerID) ∧
      ∀ oi ∈ σ.state.store.committed.images, oi.offerID = o.offerID →
        detect oi.imageData = .ok o.imageType) ∧
    ∀ p own i data imageType updatedAt, tasks p = .offerImage own i →
      σ.prog p = some (.ret (.ok (.image (data, imageType, updatedAt)))) →
      detect data = .ok imageType := by
  refine ⟨fun o ho => ?_, fun p own i data imageType updatedAt hp hret => ?_⟩
  · have hrow : o ∈ σ.state.store.committed.rowsOf o.offerID :=
      List.mem_filter.mpr ⟨ho, by simp⟩
    have himage : ∀ oi ∈ σ.state.store.committed.images, oi.offerID = o.offerID →
        oi ∈ σ.state.store.committed.imagesOf o.offerID :=
      fun oi hoi e => List.mem_filter.mpr ⟨hoi, by simpa using e⟩
    rcases labels_run hr h o.offerID with ⟨hnil, -⟩ | ⟨o', hrows, hpic⟩
    · rw [hnil] at hrow
      exact absurd hrow List.not_mem_nil
    rw [hrows] at hrow
    obtain rfl : o = o' := List.mem_singleton.mp hrow
    rcases hpic with ⟨hlabel, hnil⟩ | ⟨oi, hoi, hd⟩
    · rw [hnil] at himage
      have hnone : ∀ oi ∈ σ.state.store.committed.images, oi.offerID ≠ o.offerID :=
        fun oi hm e => absurd (himage oi hm e) List.not_mem_nil
      exact ⟨iff_of_false (fun hne => hne hlabel) fun ⟨oi, hm, e⟩ => hnone oi hm e,
        fun oi hm e => absurd e (hnone oi hm)⟩
    · rw [hoi] at himage
      have hmem : oi ∈ σ.state.store.committed.imagesOf o.offerID := hoi ▸ List.mem_singleton_self oi
      refine ⟨iff_of_true (detect_label hd) ⟨oi, (List.mem_filter.mp hmem).1, ?_⟩, fun oi' hm e => ?_⟩
      · simpa using (List.mem_filter.mp hmem).2
      · rw [List.mem_singleton.mp (himage oi' hm e)]
        exact hd
  · exact (serving_run hr h hp).prog _ hret _ rfl

end

/-! ## runs with pictures -/

def pngData (n : UInt8) : Bytes := [0x89, 0x50, 0x4e, 0x47, 0x0d, 0x0a, 0x1a, 0x0a, n]

def jpegData : Bytes := [0xff, 0xd8, 0xff, 0xe0]

/-- an offer is made with a PNG; one call replaces that by another PNG, one by a JPEG, and one reads -/
def album : Fin 4 → Task
  | 0 => .operation (.createOffer 4 5 ⟨10, 250, "EUR", ""⟩ [] (pngData 1) "image/png")
  | 1 => .operation (.updateOffer 50 4 ⟨10, 250, "EUR", ""⟩ (pngData 2) "image/png")
  | 2 => .operation (.updateOffer 50 4 ⟨10, 250, "EUR", ""⟩ jpegData "image/jpeg")
  | 3 => .offerImage none 50

theorem album_received (p : Fin 4) : (album p).Received := by
  match p with
  | 0 => exact ⟨.ok (⟨10, 250, "EUR", ""⟩, pngData 1), rfl⟩
  | 1 => exact ⟨.ok (⟨10, 250, "EUR", ""⟩, pngData 2), rfl⟩
  | 2 => exact ⟨.ok (⟨10, 250, "EUR", ""⟩, jpegData), rfl⟩
  | 3 => trivial

/-- so many commands of a task -/
def turns (p : Fin 4) (n : Nat) : List (Act (Fin 4) (Choice Unit)) :=
  List.replicate n (.exec p ⟨.none, 50, 0, 1, ()⟩)

/-- the labels, the bytes, and what the reader is given -/
structure AlbumView where
  labels : List String
  bytes : List Bytes
  served : Option Served
  deriving DecidableEq

def seenIn (σ : Labelling (Fin 4)) : AlbumView where
  labels := σ.state.store.committed.offers.map (·.imageType)
  bytes := σ.state.store.committed.images.map (·.imageData)
  served :=
    match σ.prog 3 with
    | some (.ret (.ok (.image served))) => some served
    | _ => none

theorem seenIn_served {σ : Labelling (Fin 4)} {served : Served}
    (h : (seenIn σ).served = some served) : σ.prog 3 = some (.ret (.ok (.image served))) := by
  simp only [seenIn] at h
  split at h
  · rename_i s hs
    rw [hs, Option.some.inj h]
  · cases h

/-- the replacements overlap, and the reader reads while the first one commits -/
theorem labels_describe_album :
    ∃ σ, Runs ((spec readLabels).machine.guarded (whole album)) (begun album) σ ∧
      seenIn σ = ⟨["image/jpeg"], [jpegData], some (pngData 2, "image/png", 1)⟩ ∧
      (∀ o ∈ σ.state.store.committed.offers,
        ∀ oi ∈ σ.state.store.committed.images, oi.offerID = o.offerID →
          detect oi.imageData = .ok o.imageType) ∧
      detect (pngData 2) = .ok "image/png" := by
  obtain ⟨σ, hr, hσ⟩ := Runs.exists_of_run
    (M := (spec readLabels).machine.guarded (whole album)) (σ := begun album)
    (turns 0 9 ++ turns 3 2 ++ turns 1 3 ++ turns 2 2 ++ turns 1 5 ++ turns 3 2 ++ turns 2 6)
    (f := seenIn) (b := ⟨["image/jpeg"], [jpegData], some (pngData 2, "image/png", 1)⟩)
    (by decide +kernel)
  have hserved : σ.prog 3 = some (.ret (.ok (.image (pngData 2, "image/png", 1)))) :=
    seenIn_served (by rw [hσ])
  obtain ⟨htables, hreaders⟩ := labels_describe album album_received hr
  exact ⟨σ, hr, hσ, fun o ho => (htables o ho).2, hreaders 3 none 50 _ _ _ rfl hserved⟩

/-- **Halves of two pictures.**  A replacement loads an offer with a PNG and brings another one; before
it writes, a JPEG is stored.  It sends no label, and the new PNG is labelled as a JPEG.  A reader that
reads the label before that and the bytes after it is given the JPEG as a PNG. -/
theorem label_crossed :
    (∃ σ, Runs (spec readLabels).machine (begun album) σ ∧
      seenIn σ = ⟨["image/jpeg"], [pngData 2], none⟩ ∧ detect (pngData 2) = .ok "image/png") ∧
    ∃ σ, Runs (spec readLabels).machine (begun album) σ ∧
      seenIn σ = ⟨["image/jpeg"], [jpegData], some (jpegData, "image/png", 1)⟩ ∧
      detect jpegData = .ok "image/jpeg" := by
  obtain ⟨σ, hr, hσ⟩ := Runs.exists_of_run (M := (spec readLabels).machine) (σ := begun album)
    (turns 0 9 ++ turns 1 3 ++ turns 2 8 ++ turns 1 5)
    (f := seenIn) (b := ⟨["image/jpeg"], [pngData 2], none⟩) (by decide +kernel)
  obtain ⟨τ, hr', hτ⟩ := Runs.exists_of_run (M := (spec readLabels).machine) (σ := begun album)
    (turns 0 9 ++ turns 3 2 ++ turns 2 8 ++ turns 3 2)
    (f := seenIn) (b := ⟨["image/jpeg"], [jpegData], some (jpegData, "image/png", 1)⟩)
    (by decide +kernel)
  exact ⟨⟨σ, hr, hσ, rfl⟩, τ, hr', hτ, rfl⟩

end Marketplace.Offers
