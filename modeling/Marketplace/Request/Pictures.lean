import Marketplace.Lib.Journal
import Marketplace.Request.Announce
import Marketplace.Request.Httpx
import Marketplace.Request.Media
import Marketplace.Request.OfferCounts

/-!
# request-service: a picture is all there or not at all

`Handler.Create` reads a picture, sniffs its type and hands both to the service, whose transaction
writes them to two tables.

* `createInput`      what the handler makes of a request: the input of the service, or a refusal;
* `Db.shown d r`     what the tables show of a request: the types in its rows, the bytes of its pictures;
* `Invocation.Depicts`   what a call may write of all that: nothing, or one new request with its picture;
* `PictureAt`        the request shows nothing, or the picture of the call that has opened it;
* `pictures_whole`   **so it is in every schedule**, and a call that fails has opened nothing, unless the
                     acknowledgement of its commit was lost.
-/

set_option linter.unusedSectionVars false

namespace Marketplace.Request

open Table Events Interleave ReadCommitted
open Service hiding query

/-! ## the handler -/

/-- `imageType`: of no picture it is empty -/
def imageTypeOf (image : Bytes) : Except String String :=
  if image.length = 0 then .ok "" else Media.detect image

/-- `Handler.Create` up to the call of the service.  The customer and the user come from the token. -/
def createInput (unmarshal : Bytes → Option CreateRequestBody) (forms : Httpx.Forms) (r : Incoming)
    (actorUserID : UUID) : Except String CreateInput := do
  let (body, image) ← Httpx.decodeJSONOrMultipart unmarshal forms Media.maxBytes r
  let body ← body.validate
  let imageType ← imageTypeOf image
  return {
    itemName := body.itemName
    description := body.description
    category := body.category
    quantity := body.quantity
    actorUserID := actorUserID
    image := image
    imageType := imageType }

/-- the first image part of a multipart body -/
def uploaded (r : Incoming) : Bytes :=
  match r.body with
  | .form parts => if Httpx.isMultipart r.contentType then (Httpx.formFile parts "image").getD [] else []
  | .plain _ => []

/-- a picture and its type belong together -/
def Labelled (image : Bytes) (imageType : String) : Prop :=
  image = [] ∧ imageType = "" ∨ image ≠ [] ∧ Media.detect image = .ok imageType

theorem Labelled.length {image : Bytes} {imageType : String} (h : Labelled image imageType) :
    image.length ≤ Media.maxBytes := by
  rcases h with ⟨rfl, -⟩ | ⟨-, h⟩
  · exact Nat.zero_le _
  · exact (Media.detect_ok.mp h).2.1

theorem detect_ne_empty {image : Bytes} {imageType : String} (h : Media.detect image = .ok imageType) :
    imageType ≠ "" := by
  rintro rfl
  have hp := (Sniff.picture_iff.mp (Media.detect_ok.mp h).2.2).2
  exact absurd hp (by decide)

/-- what is read of a file: all of it, or one byte too many -/
theorem decoded_image {α : Type} {unmarshal : Bytes → Option α} {forms : Httpx.Forms} {max : Nat}
    {r : Incoming} {body : α} {image : Bytes}
    (h : Httpx.decodeJSONOrMultipart unmarshal forms max r = .ok (body, image)) :
    image = (uploaded r).take (max + 1) := by
  unfold Httpx.decodeJSONOrMultipart at h
  unfold uploaded
  by_cases hm : Httpx.isMultipart r.contentType = true
  · rw [if_pos hm] at h
    cases hb : r.body with
    | plain bytes =>
      simp only [hb] at h
      cases h
    | form parts =>
      simp only [hb] at h
      simp only [if_pos hm]
      unfold Httpx.decodeForm at h
      split at h
      · simp only at h
        split at h
        · cases h
        · split at h
          · cases h
          · split at h
            · cases h
            · cases hf : Httpx.formFile parts "image" with
              | none =>
                simp only [hf] at h
                cases h
                rfl
              | some file =>
                simp only [hf] at h
                cases h
                rfl
      · cases h
  · rw [if_neg hm] at h
    cases hd : Httpx.decodeJSON unmarshal r.body with
    | error e =>
      rw [hd] at h
      cases h
    | ok dst =>
      rw [hd] at h
      cases h
      cases r.body with
      | plain bytes => rfl
      | form parts =>
        simp only [if_neg hm]
        rfl

/-- **the service gets the picture that was sent, with its type** -/
theorem createInput_ok {unmarshal : Bytes → Option CreateRequestBody} {forms : Httpx.Forms}
    {r : Incoming} {actorUserID : UUID} {inp : CreateInput}
    (h : createInput unmarshal forms r actorUserID = .ok inp) :
    inp.image = uploaded r ∧ Labelled inp.image inp.imageType := by
  unfold createInput at h
  cases hd : Httpx.decodeJSONOrMultipart unmarshal forms Media.maxBytes r with
  | error e =>
    rw [hd] at h
    cases h
  | ok x =>
    obtain ⟨body, image⟩ := x
    have himage := decoded_image hd
    simp only [hd, bind, Except.bind] at h
    split at h
    · cases h
    split at h
    · cases h
    rename_i imageType ht
    cases h
    unfold imageTypeOf at ht
    show image = uploaded r ∧ Labelled image imageType
    have hlab : Labelled image imageType := by
      split at ht
      · rename_i hnil
        cases ht
        exact .inl ⟨List.length_eq_zero_iff.mp hnil, rfl⟩
      · rename_i hne
        exact .inr ⟨fun e => hne (by rw [e]; rfl), ht⟩
    refine ⟨?_, hlab⟩
    -- what is within the limit has not been cut
    have hlen := hlab.length
    rw [himage, List.length_take] at hlen
    rw [himage]
    exact List.take_of_length_le (by omega)

/-! ## what the tables show -/

/-- the types in the rows of a request, and the bytes of its pictures -/
abbrev Shown := List String × List Bytes

def Db.shown (d : Db) (r : UUID) : Shown :=
  ((d.rowsOf r).map (·.imageType), (d.images.filter (·.requestID == r)).map (·.imageData))

/-- what a write does to that -/
def Write.depict (r : UUID) : Write → Shown → Shown
  | .insertRequest pr, x => if pr.requestID = r then (x.1 ++ [pr.imageType], x.2) else x
  | .setImageType r' ty _, x => if r' = r then (x.1.map fun _ => ty, x.2) else x
  | .setImage ri, x => if ri.requestID = r then (x.1, [ri.imageData]) else x
  | _, x => x

/-- the writes that are about pictures -/
def Write.pictured : Write → Bool
  | .insertRequest _ => true
  | .setImageType _ _ _ => true
  | .setImage _ => true
  | _ => false

theorem depict_other {w : Write} (h : w.pictured = false) (r : UUID) (x : Shown) :
    w.depict r x = x := by
  cases w <;> first | rfl | cases h

theorem shown_updateRequest (d : Db) (r r' : UUID) (f : PurchaseRequest → PurchaseRequest)
    (hid : ∀ x, (f x).requestID = x.requestID) (ht : ∀ x, (f x).imageType = x.imageType) :
    (d.updateRequest r' f).shown r = d.shown r := by
  have hrows : ((d.updateRequest r' f).rowsOf r).map (·.imageType) =
      (d.rowsOf r).map (·.imageType) := by
    show ((updateWhere _ f d.requests).filter _).map _ = _
    rw [filter_updateWhere _ _ _ (fun x _ => by rw [hid]), map_updateWhere _ _ _ (fun x _ => ht x)]
    rfl
  unfold Db.shown
  rw [hrows]
  rfl

theorem shown_setImageType (d : Db) (r r' : UUID) (ty : String) (now : Time) :
    ((Write.setImageType r' ty now).apply d).shown r =
      (Write.setImageType r' ty now).depict r (d.shown r) := by
  have himages : ((Write.setImageType r' ty now).apply d).images = d.images := rfl
  unfold Db.shown
  rw [himages]
  simp only [Write.depict]
  split
  · rename_i e
    subst e
    have hrows : ((Write.setImageType r' ty now).apply d).rowsOf r' =
        (d.rowsOf r').map fun pr => { pr with imageType := ty, updatedAt := now } :=
      rowsOf_updateRequest d r' _ (by intro x; rfl)
    rw [hrows, List.map_map, List.map_map]
    rfl
  · rename_i e
    have hrows : ((Write.setImageType r' ty now).apply d).rowsOf r = d.rowsOf r := by
      show (updateWhere _ _ d.requests).filter _ = _
      rw [filter_updateWhere _ _ _ (by intro x _; rfl)]
      refine updateWhere_eq_self _ _ _ (fun x hx => ?_)
      have hx' : x.requestID = r := rowsOf_id hx
      simpa [hx'] using fun e' => e e'.symm
    rw [hrows]

theorem shown_setImage (d : Db) (r : UUID) (ri : RequestImage) :
    ((Write.setImage ri).apply d).shown r = (Write.setImage ri).depict r (d.shown r) := by
  show ((d.rowsOf r).map _, ((d.images.filter _ ++ [ri]).filter _).map _) = _
  rw [List.filter_append, List.filter_filter]
  simp only [Write.depict]
  split
  · rename_i e
    subst e
    have hnil : (d.images.filter fun x : RequestImage =>
        x.requestID == ri.requestID && x.requestID != ri.requestID) = [] :=
      List.filter_eq_nil_iff.mpr fun x _ => by simp
    rw [hnil]
    simp [Db.shown]
  · rename_i e
    have hkeep : (d.images.filter fun x : RequestImage =>
        x.requestID == r && x.requestID != ri.requestID) = d.images.filter (·.requestID == r) := by
      refine List.filter_congr fun x _ => ?_
      by_cases hx : x.requestID = r
      · simp [hx, Ne.symm e]
      · simp [hx]
    rw [hkeep]
    simp [Db.shown, e]

theorem shown_apply (w : Write) (d : Db) (r : UUID) :
    (w.apply d).shown r = w.depict r (d.shown r) := by
  cases w with
  | insertRequest pr =>
    simp only [Db.shown, Db.rowsOf, Write.apply, Write.depict, List.filter_append, List.map_append]
    by_cases e : pr.requestID = r
    · simp [e]
    · simp [e]
  | setDemand r' n q now => exact shown_updateRequest d r r' _ (by intro x; rfl) (by intro x; rfl)
  | setTotalOffers r' n => exact shown_updateRequest d r r' _ (by intro x; rfl) (by intro x; rfl)
  | setImageType r' ty now => exact shown_setImageType d r r' ty now
  | insertParticipant rp => rfl
  | setQuantity r' c q => rfl
  | deleteParticipant r' c => rfl
  | setImage ri => exact shown_setImage d r ri
  | insertOutbox row => rfl

/-- the writes that are about pictures -/
def pictures (ws : List Write) : List Write := ws.filter Write.pictured

section
variable [Postgres] {P : Type} [DecidableEq P]

theorem shown_applyAll (ws : List Write) (d : Db) (r : UUID) :
    (applyAll ws d).shown r = (pictures ws).foldl (fun x w => w.depict r x) (d.shown r) := by
  induction ws generalizing d with
  | nil => rfl
  | cons w ws ih =>
    rw [applyAll_cons, ih, show Schema.apply w d = w.apply d from rfl, shown_apply]
    unfold pictures
    cases hw : w.pictured with
    | true => rw [List.filter_cons_of_pos hw, List.foldl_cons]
    | false => rw [List.filter_cons_of_neg (by simp [hw]), depict_other hw]

/-! ## what each call writes -/

/-- the picture that a call carries, and its type -/
def Invocation.picture : Invocation → Bytes × String
  | .create _ inp => (inp.image, inp.imageType)
  | _ => ([], "")

/-- the two writes of `storeImage` -/
def storing (r : UUID) (picture : Bytes × String) (n m : Time) : List Write :=
  if picture.1.length = 0 then []
  else [.setImage ⟨r, picture.1, n⟩, .setImageType r picture.2 m]

/-- a transaction writes nothing that is about pictures, or opens a request and stores its picture -/
def Invocation.Depicts (inv : Invocation) (ws : List Write) : Prop :=
  pictures ws = [] ∨ ∃ pr n m, pr.imageType = "" ∧
    pictures ws = .insertRequest pr :: storing pr.requestID inv.picture n m

/-- what a statement writes about pictures -/
def Stmt.depicts : (q : Stmt) → Row q → List Write → Prop
  | .createRequest _ _ _ _, (pr : PurchaseRequest), ws =>
    ws = [.insertRequest pr] ∧ pr.imageType = ""
  | .setRequestImage r data, _, ws => ∃ n, ws = [.setImage ⟨r, data, n⟩]
  | .setRequestImageType r ty, _, ws => ∃ n, ws = [.setImageType r ty n]
  | _, _, ws => pictures ws = []

theorem stmt_depicts {p : P} {q : Stmt} {x : Choice Unit} {s t : St P} {a : Row q}
    (h : stmt p q x s = some (.ok a, t)) : ∃ ws, t.pending p = s.pending p ++ ws ∧ q.depicts a ws := by
  have none : ∀ {u : St P}, u.pending p = s.pending p → ∃ ws, u.pending p = s.pending p ++ ws ∧
      pictures ws = [] := fun e => ⟨[], e.trans (List.append_nil _).symm, rfl⟩
  have one : ∀ {w : Write}, s.put p w = some t → w.pictured = false →
      ∃ ws, t.pending p = s.pending p ++ ws ∧ pictures ws = [] :=
    fun hp hw => ⟨_, put_pending hp, List.filter_cons_of_neg (by simp [hw])⟩
  cases q with
  | lockItemName n =>
    rw [acquire_eq (lockItemName_ok h)]
    exact none rfl
  | findRequestByItemName n =>
    obtain ⟨rfl, -⟩ := findRequestByItemName_ok h
    exact none rfl
  | createRequest n d c b =>
    obtain ⟨ha, -, hp⟩ := createRequest_ok h
    exact ⟨_, put_pending hp, rfl, by rw [ha]; rfl⟩
  | addParticipant r c n => exact one (addParticipant_ok h).2 rfl
  | getParticipant r c =>
    obtain ⟨rfl, -⟩ := getParticipant_ok h
    exact none rfl
  | updateParticipantQuantity r c n => exact one (updateParticipantQuantity_ok h) rfl
  | deleteParticipant r c =>
    rcases deleteParticipant_ok h with ⟨-, rfl⟩ | hp
    · exact none rfl
    · exact one hp rfl
  | lockRequest r =>
    rw [acquire_eq (lockRequest_ok h)]
    exact none rfl
  | recalculateDemand r =>
    obtain ⟨pr, -, -, hp⟩ := recalculateDemand_ok h
    exact one hp rfl
  | setOfferCount r n => exact one (setOfferCount_ok h).2 rfl
  | setRequestImage r data => exact ⟨_, put_pending (setRequestImage_ok h), _, rfl⟩
  | setRequestImageType r ty => exact ⟨_, put_pending (setRequestImageType_ok h), _, rfl⟩
  | insertOutbox key ns => exact one (insertOutbox_ok h) rfl

def depictions (calls : P → Invocation) : Journal (spec (P := P)) where
  Makes := Stmt.depicts
  May p ws := (calls p).Depicts ws
  stmt {p q x s a t} h := by
    have hs : Request.stmt p q x s = some (a, t) := h
    cases a with
    | ok a =>
      obtain ⟨ws, hws, hd⟩ := stmt_depicts hs
      refine ⟨ws, hws, fun r e => ?_, nofun⟩
      cases e
      exact hd
    | error e =>
      rw [stmt_error hs]
      exact ⟨[], (List.append_nil _).symm, nofun, fun _ _ => rfl⟩

variable {calls : P → Invocation} {p : P} {α β : Type}

/-- the call writes nothing that is about pictures -/
def Plain (calls : P → Invocation) (p : P) (fn : Op α) : Prop :=
  ∀ ws, (depictions calls).Writes p ws fn fun _ vs => pictures vs = pictures ws

namespace Plain

theorem pure {a : α} : Plain calls p (pure a) := fun _ => .pure rfl

theorem throw {e : Err} : Plain calls p (throw e : Op α) := fun _ => .throw e

theorem bind {fn : Op β} {f : β → Op α} (h : Plain calls p fn) (hf : ∀ b, Plain calls p (f b)) :
    Plain calls p (fn >>= f) :=
  fun ws => .bind (h ws) fun b vs e => (hf b vs).mono fun _ _ e' => e'.trans e

/-- a statement that writes nothing about pictures -/
theorem query {q : Stmt} (hq : ∀ a ws, q.depicts a ws → pictures ws = []) :
    Plain calls p (query q) := by
  refine fun ws => .query (fun a vs h => ?_) fun _ => rfl
  rw [pictures, List.filter_append]
  exact (congrArg _ (hq a vs h)).trans (List.append_nil _)

theorem exec {q : Stmt} {text : String} (hq : ∀ a ws, q.depicts a ws → pictures ws = []) :
    Plain calls p (exec text q) := by
  refine bind (query hq) fun a => ?_
  cases a with
  | ok a => exact pure
  | error e => exact throw

/-- a transaction that writes nothing about pictures -/
theorem inTx {fn : Op α} (h : Plain calls p fn) :
    (depictions calls).Writes p [] (inTx fn) fun _ vs => vs = [] :=
  .inTx (h []) fun _ _ e => .inl e

end Plain

theorem plain_lockRequest {r : UUID} : Plain calls p (lockRequest r) := by
  refine .bind (.query fun _ _ h => h) fun a => ?_
  match a with
  | .ok _ => exact .pure
  | .error e => cases e <;> exact .throw

theorem plain_enqueue {key : RoutingKey} {ns : List Notification} :
    Plain calls p (enqueue key ns) := by
  unfold enqueue
  split
  · exact .pure
  · exact .exec fun _ _ h => h

theorem plain_addParticipant {r c : UUID} {n : Int} : Plain calls p (addParticipant r c n) := by
  refine .bind (.query fun _ _ h => h) fun a => ?_
  match a with
  | .ok _ => exact .pure
  | .error e => cases e <;> exact .throw

theorem plain_changeQuantity {r c : UUID} {n : Int} : Plain calls p (changeQuantity r c n) := by
  refine .bind (.query fun _ _ h => h) fun a => ?_
  match a with
  | .ok _ => exact .pure
  | .error e => cases e <;> exact .throw

theorem plain_removeParticipant {r c : UUID} : Plain calls p (removeParticipant r c) := by
  refine .bind (.query fun _ _ h => h) fun a => ?_
  match a with
  | .ok 0 => exact .throw
  | .ok (n + 1) => exact .pure
  | .error e => exact .throw

theorem writes_mutateParticipants {r : UUID} {mutate : Op Unit}
    {notify : Option (PurchaseRequest → List Notification)} (hm : Plain calls p mutate) :
    (depictions calls).Writes p [] (mutateParticipants r mutate notify) fun _ vs => vs = [] := by
  refine Plain.inTx (.bind plain_lockRequest fun _ => .bind hm fun _ =>
    .bind (.exec fun _ _ h => h) fun updated => ?_)
  cases notify with
  | none => exact .pure
  | some f => exact .bind plain_enqueue fun _ => .pure

theorem writes_setOfferCount {r : UUID} {n : Int} :
    (depictions calls).Writes p [] (setOfferCount r n) fun _ vs => vs = [] :=
  Plain.inTx (.bind plain_lockRequest fun _ => .bind (.exec fun _ _ h => h) fun _ =>
    .exec fun _ _ h => h)

/-- a new request: its row comes first, without a type -/
theorem writes_createRequest {n desc cat text : String} {by_ : Option UUID} {ws : List Write}
    (hws : pictures ws = []) :
    (depictions calls).Writes p ws (exec text (.createRequest n desc cat by_)) fun pr vs =>
      pr.imageType = "" ∧ pictures vs = [.insertRequest pr] := by
  refine .sql fun pr vs h => ?_
  obtain ⟨rfl, ht⟩ := h
  refine ⟨ht, ?_⟩
  rw [pictures, List.filter_append, show ws.filter _ = [] from hws]
  rfl

/-- then its picture, if it has one -/
theorem writes_storeImage {r : UUID} {image : Bytes} {imageType : String} {ws : List Write} :
    (depictions calls).Writes p ws (storeImage r image imageType) fun _ vs =>
      ∃ n m, pictures vs = pictures ws ++ storing r (image, imageType) n m := by
  unfold storeImage
  split
  · rename_i hnil
    exact .pure ⟨0, 0, by rw [storing, if_pos hnil, List.append_nil]⟩
  · rename_i hne
    refine .bind (Φ := fun _ vs => ∃ n, pictures vs = pictures ws ++ [.setImage ⟨r, image, n⟩])
      (.sql fun _ vs h => ?_) fun _ vs ⟨n, hvs⟩ => ?_
    · obtain ⟨n, rfl⟩ := h
      exact ⟨n, List.filter_append ..⟩
    refine .bind (Φ := fun _ us => ∃ m, pictures us = pictures vs ++ [.setImageType r imageType m])
      (.sql fun _ us h => ?_) fun _ us ⟨m, hus⟩ => .pure ⟨n, m, ?_⟩
    · obtain ⟨m, rfl⟩ := h
      exact ⟨m, List.filter_append ..⟩
    · rw [hus, hvs, storing, if_neg hne, List.append_assoc]
      rfl

theorem writes_openRequest {customerID : UUID} {inp : CreateInput} {ws : List Write}
    (hws : pictures ws = []) :
    (depictions calls).Writes p ws (openRequest customerID inp) fun _ vs =>
      (Invocation.create customerID inp).Depicts vs := by
  refine .bind (writes_createRequest hws) fun pr vs h => ?_
  obtain ⟨ht, hvs⟩ := h
  refine .bind (Plain.exec (q := .addParticipant _ _ _) (fun _ _ h => h) vs) fun _ vs1 h1 => ?_
  refine .bind writes_storeImage fun _ vs2 h2 => ?_
  obtain ⟨n, m, h2⟩ := h2
  refine .bind (Plain.exec (q := .recalculateDemand _) (fun _ _ h => h) vs2)
    fun created vs3 h3 => ?_
  refine .bind (plain_enqueue vs3) fun _ vs4 h4 => .pure (.inr ⟨pr, n, m, ht, ?_⟩)
  rw [h4, h3, h2, h1, hvs]
  rfl

theorem plain_refuseExisting {existing : PurchaseRequest} {customerID : UUID} :
    Plain calls p (refuseExisting existing customerID) := by
  refine .bind (.query fun _ _ h => h) fun a => ?_
  match a with
  | .ok _ => exact .throw
  | .error e => cases e <;> exact .throw

/-- the look-up under the lock of the name, before anything is written -/
theorem writes_look {n : String} {β : Type} {f : Except PgErr PurchaseRequest → Op β}
    {Φ : β → List Write → Prop}
    (hf : ∀ a ws, pictures ws = [] → (depictions calls).Writes p ws (f a) Φ) :
    (depictions calls).Writes p [] (do
      let _ ← exec "locking item name" (.lockItemName n)
      query (.findRequestByItemName n) >>= f) Φ := by
  refine .bind (Plain.exec (q := .lockItemName n) (fun _ _ h => h) []) fun _ vs h => ?_
  exact .bind (Plain.query (q := .findRequestByItemName n) (fun _ _ h => h) vs)
    fun a us h' => hf a us (h'.trans h)

theorem writes_create {customerID : UUID} {inp : CreateInput}
    (hc : calls p = .create customerID inp) :
    (depictions calls).Writes p [] (create customerID inp) fun _ vs => vs = [] := by
  refine .inTx (Φ := fun _ vs => (calls p).Depicts vs) (writes_look fun a ws hws => ?_)
    fun _ _ h => h
  rw [hc]
  match a with
  | .ok existing =>
    exact (plain_refuseExisting ws).mono fun _ _ e => .inl (e.trans hws)
  | .error .noRows => exact writes_openRequest hws
  | .error .uniqueViolation => exact .throw _
  | .error .integrityViolation => exact .throw _
  | .error .other => exact .throw _

theorem writes_ensureForItem {inp : EnsureInput} (hc : calls p = .ensureForItem inp) :
    (depictions calls).Writes p [] (ensureForItem inp) fun _ vs => vs = [] := by
  refine .inTx (Φ := fun _ vs => (calls p).Depicts vs) (writes_look fun a ws hws => ?_)
    fun _ _ h => h
  match a with
  | .ok existing => exact .pure (.inl hws)
  | .error .noRows =>
    refine .bind (writes_createRequest hws) fun pr vs h => ?_
    obtain ⟨ht, hvs⟩ := h
    refine .bind (Plain.exec (q := .recalculateDemand _) (fun _ _ h => h) vs)
      fun _ us h' => .pure (.inr ⟨pr, 0, 0, ht, ?_⟩)
    rw [h', hvs, hc]
    rfl
  | .error .uniqueViolation => exact .throw _
  | .error .integrityViolation => exact .throw _
  | .error .other => exact .throw _

/-- **what any call writes of pictures** -/
theorem writes_op : (depictions calls).Writes p [] (calls p).op fun _ _ => True := by
  cases hc : calls p with
  | create customerID inp => exact .bind (writes_create hc) fun _ _ _ => .pure trivial
  | ensureForItem inp => exact .bind (writes_ensureForItem hc) fun _ _ _ => .pure trivial
  | join r c u q =>
    exact .bind (writes_mutateParticipants plain_addParticipant) fun _ _ _ => .pure trivial
  | updateQuantity r c q =>
    exact .bind (writes_mutateParticipants plain_changeQuantity) fun _ _ _ => .pure trivial
  | leave r c =>
    exact .bind (writes_mutateParticipants plain_removeParticipant) fun _ _ _ => .pure trivial
  | setOfferCount r n => exact .bind writes_setOfferCount fun _ _ _ => .pure trivial

/-! ## every run -/

/-- a request with this picture shows its type and its bytes -/
def Shown.of (picture : Bytes × String) : Shown :=
  if picture.1.length = 0 then ([""], []) else ([picture.2], [picture.1])

theorem Shown.of_rows (picture : Bytes × String) : (Shown.of picture).1.length = 1 := by
  unfold Shown.of
  split <;> rfl

theorem shown_rows (d : Db) (r : UUID) : (d.shown r).1.length = (d.rowsOf r).length :=
  List.length_map ..

/-- the writes that open a request, on what was shown of it -/
theorem depict_opening {pr : PurchaseRequest} (ht : pr.imageType = "") (picture : Bytes × String)
    (n m : Time) (x : Shown) :
    ((Write.insertRequest pr :: storing pr.requestID picture n m).foldl
      (fun x w => w.depict pr.requestID x) x).1.length = x.1.length + 1 ∧
    (Write.insertRequest pr :: storing pr.requestID picture n m).foldl
      (fun x w => w.depict pr.requestID x) ([], []) = Shown.of picture := by
  unfold storing Shown.of
  by_cases hnil : picture.1.length = 0
  · simp [hnil, Write.depict, ht]
  · simp [hnil, Write.depict]

theorem depict_elsewhere {pr : PurchaseRequest} {r : UUID} (hr : pr.requestID ≠ r)
    (picture : Bytes × String) (n m : Time) (x : Shown) :
    (Write.insertRequest pr :: storing pr.requestID picture n m).foldl
      (fun x w => w.depict r x) x = x := by
  unfold storing
  by_cases hnil : picture.1.length = 0
  · simp [hnil, Write.depict, hr]
  · simp [hnil, Write.depict, hr]

/-- the commit has opened the request -/
def Opened (r : UUID) (c : Commit P Db) : Prop := c.before.rowsOf r = [] ∧ c.after.rowsOf r ≠ []

/-- nothing is shown of the request, or the picture of the call that has opened it -/
def PictureAt (calls : P → Invocation) (r : UUID) (d : Db) (log : List (Commit P Db)) : Prop :=
  d.shown r = ([], []) ∨ ∃ c ∈ log, Opened r c ∧ d.shown r = Shown.of (calls c.tx).picture

variable {r : UUID} {c : Commit P Db} {log : List (Commit P Db)} {ws : List Write}

theorem PictureAt.kept (h : PictureAt calls r c.before log)
    (he : c.after.shown r = c.before.shown r) : PictureAt calls r c.after (c :: log) := by
  rw [PictureAt, he]
  exact h.imp id fun ⟨c', hc', ho⟩ => ⟨c', List.mem_cons_of_mem _ hc', ho⟩

/-- **one commit** -/
theorem PictureAt.commit (h : PictureAt calls r c.before log) (he : c.after = applyAll ws c.before)
    (hd : (calls c.tx).Depicts ws) (hone : (c.after.rowsOf r).length ≤ 1) :
    PictureAt calls r c.after (c :: log) := by
  have hshown : c.after.shown r = (pictures ws).foldl (fun x w => w.depict r x) (c.before.shown r) := by
    rw [he]
    exact shown_applyAll ws c.before r
  rcases hd with hnil | ⟨pr, n, m, ht, hp⟩
  · rw [hnil] at hshown
    exact h.kept hshown
  rw [hp] at hshown
  by_cases hr : pr.requestID = r
  · subst hr
    obtain ⟨hlen, hof⟩ := depict_opening ht (calls c.tx).picture n m (c.before.shown pr.requestID)
    rw [← hshown, shown_rows, shown_rows] at hlen
    -- the row is the only one, so that there was none before, and nothing to be shown
    have hrows : c.before.rowsOf pr.requestID = [] := List.length_eq_zero_iff.mp (by omega)
    have hnone : c.before.shown pr.requestID = ([], []) := by
      refine h.resolve_right ?_
      rintro ⟨c', -, -, e⟩
      have hlen' := shown_rows c.before pr.requestID
      rw [e, Shown.of_rows, hrows] at hlen'
      exact absurd hlen' (by simp)
    refine .inr ⟨c, List.mem_cons_self, ⟨hrows, fun hafter => ?_⟩, ?_⟩
    · rw [hafter] at hlen
      simp at hlen
    · rw [hshown, hnone]
      exact hof
  · rw [depict_elsewhere hr] at hshown
    exact h.kept hshown

theorem kept_start (d : Db) : (depictions calls).Kept (start calls d) := by
  refine ⟨fun p m hm => ?_, fun _ hc => absurd hc List.not_mem_nil⟩
  obtain rfl := Option.some.inj hm
  exact Journal.Goes.mono writes_op fun _ _ _ => trivial

/-- **in every run every request shows what the call that opened it carried** -/
theorem pictures_run {σ : Config P} (h : Runs spec.machine (start calls Db.empty) σ) (r : UUID) :
    PictureAt calls r σ.state.store.committed σ.state.store.log := by
  have hmade := (Journal.runs h (kept_start Db.empty)).log
  have hrows := log_rows h
  have key : ∀ (log : List (Commit P Db)) (d : Db), (∀ c ∈ log, c ∈ σ.state.store.log) →
      Chained Db.empty log d → PictureAt calls r d log := by
    intro log
    induction log with
    | nil =>
      rintro d - hd
      obtain rfl : d = Db.empty := hd
      exact .inl rfl
    | cons c log ih =>
      rintro d hlog ⟨rfl, hchain⟩
      have hc := hlog c List.mem_cons_self
      obtain ⟨s, e, hce, -, hd⟩ := hmade c hc
      have hafter : c.after = applyAll (s.pending c.tx) c.before := by
        rw [hce]
        rfl
      exact (ih c.before (fun c' hc' => hlog c' (List.mem_cons_of_mem _ hc')) hchain).commit
        hafter hd (hrows c hc r)
  exact key _ _ (fun _ hc => hc) (runs_good h).1.chained

/-! ## pictures as they were sent -/

/-- the picture of a row: there if the row says so, of the type the row says, and as it was sent with
the `Create` that has opened the request -/
structure Pictured (calls : P → Invocation) (incoming : P → Incoming) (d : Db)
    (log : List (Commit P Db)) (pr : PurchaseRequest) : Prop where
  present : pr.imageType ≠ "" ↔ ∃ ri ∈ d.images, ri.requestID = pr.requestID
  detected : ∀ ri ∈ d.images, ri.requestID = pr.requestID →
    Media.detect ri.imageData = .ok pr.imageType
  size : ∀ ri ∈ d.images, ri.requestID = pr.requestID →
    1 ≤ ri.imageData.length ∧ ri.imageData.length ≤ 1048576
  sent : ∀ ri ∈ d.images, ri.requestID = pr.requestID → ∃ c ∈ log, Opened pr.requestID c ∧
    (∃ customerID inp, calls c.tx = .create customerID inp) ∧ ri.imageData = uploaded (incoming c.tx)

theorem mem_shown {d : Db} {pr : PurchaseRequest} (h : pr ∈ d.requests) :
    pr.imageType ∈ (d.shown pr.requestID).1 :=
  List.mem_map_of_mem (List.mem_filter.mpr ⟨h, by simp⟩)

theorem mem_shown_image {d : Db} {ri : RequestImage} (h : ri ∈ d.images) :
    ri.imageData ∈ (d.shown ri.requestID).2 :=
  List.mem_map_of_mem (List.mem_filter.mpr ⟨h, by simp⟩)

theorem shown_image {d : Db} {r : UUID} {data : Bytes} (h : data ∈ (d.shown r).2) :
    ∃ ri ∈ d.images, ri.requestID = r := by
  obtain ⟨ri, hri, -⟩ := List.mem_map.mp h
  exact ⟨ri, (List.mem_filter.mp hri).1, by simpa using (List.mem_filter.mp hri).2⟩

variable {incoming : P → Incoming}

theorem PictureAt.pictured {d : Db} {pr : PurchaseRequest} (h : PictureAt calls pr.requestID d log)
    (hcalls : ∀ p customerID inp, calls p = .create customerID inp →
      inp.image = uploaded (incoming p) ∧ Labelled inp.image inp.imageType)
    (hpr : pr ∈ d.requests) : Pictured calls incoming d log pr := by
  have htype := mem_shown hpr
  have himage : ∀ ri ∈ d.images, ri.requestID = pr.requestID →
      ri.imageData ∈ (d.shown pr.requestID).2 := fun ri hri e => e ▸ mem_shown_image hri
  rcases h with h | ⟨c, hc, ho, h⟩
  · rw [h] at htype
    exact absurd htype List.not_mem_nil
  rw [h, Shown.of] at htype himage
  by_cases hnil : (calls c.tx).picture.1.length = 0
  · rw [if_pos hnil] at htype himage
    have hty : pr.imageType = "" := List.mem_singleton.mp htype
    have hnone : ∀ ri ∈ d.images, ri.requestID ≠ pr.requestID :=
      fun ri hri e => absurd (himage ri hri e) List.not_mem_nil
    exact ⟨iff_of_false (fun hne => hne hty) fun ⟨ri, hri, e⟩ => hnone ri hri e,
      fun ri hri e => absurd e (hnone ri hri), fun ri hri e => absurd e (hnone ri hri),
      fun ri hri e => absurd e (hnone ri hri)⟩
  · rw [if_neg hnil] at htype himage
    have hty : pr.imageType = (calls c.tx).picture.2 := List.mem_singleton.mp htype
    have hdata : ∀ ri ∈ d.images, ri.requestID = pr.requestID →
        ri.imageData = (calls c.tx).picture.1 :=
      fun ri hri e => List.mem_singleton.mp (himage ri hri e)
    -- only a `Create` carries a picture
    obtain ⟨customerID, inp, hcreate⟩ : ∃ customerID inp, calls c.tx = .create customerID inp := by
      cases hcall : calls c.tx with
      | create customerID inp => exact ⟨customerID, inp, rfl⟩
      | ensureForItem inp => exact absurd (by rw [hcall]; rfl) hnil
      | join r c u q => exact absurd (by rw [hcall]; rfl) hnil
      | updateQuantity r c q => exact absurd (by rw [hcall]; rfl) hnil
      | leave r c => exact absurd (by rw [hcall]; rfl) hnil
      | setOfferCount r n => exact absurd (by rw [hcall]; rfl) hnil
    obtain ⟨hsent, hlab⟩ := hcalls c.tx customerID inp hcreate
    rw [hcreate] at hty hdata hnil
    have hne : inp.image ≠ [] := fun e => hnil (List.length_eq_zero_iff.mpr e)
    have hdetect : Media.detect inp.image = .ok inp.imageType :=
      (hlab.resolve_left fun hn => hne hn.1).2
    have hthere : inp.image ∈ (d.shown pr.requestID).2 := by
      rw [h, hcreate, Shown.of, if_neg hnil]
      exact List.mem_singleton_self _
    refine ⟨iff_of_true ?_ (shown_image hthere), fun ri hri e => ?_, fun ri hri e => ?_,
      fun ri hri e => ⟨c, hc, ho, ⟨customerID, inp, hcreate⟩, ?_⟩⟩
    · rw [hty]
      exact detect_ne_empty hdetect
    · rw [hdata ri hri e, hty]
      exact hdetect
    · rw [hdata ri hri e]
      exact ⟨List.length_pos_iff.mpr hne, hlab.length⟩
    · rw [hdata ri hri e]
      exact hsent

/-- **A picture is all there or not at all.**  Any calls run in any order from empty tables, and any of
their commands may fail; the input of a `Create` is what its handler has made of the request.  Every
committed row has its picture as `Pictured` says, and no picture is without a row.  A call that throws,
unless the acknowledgement of its commit was lost, has made none of the commits that the tables come
from. -/
theorem pictures_whole (unmarshal : Bytes → Option CreateRequestBody) (forms : Httpx.Forms)
    (incoming : P → Incoming) (calls : P → Invocation)
    (hcalls : ∀ p customerID inp, calls p = .create customerID inp →
      createInput unmarshal forms (incoming p) inp.actorUserID = .ok inp)
    (as : List (Act P (Choice Unit))) {σ : Config P}
    (h : spec.machine.run (start calls Db.empty) as = some σ) :
    (∀ pr ∈ σ.state.store.committed.requests,
      Pictured calls incoming σ.state.store.committed σ.state.store.log pr) ∧
    (∀ ri ∈ σ.state.store.committed.images,
      ∃ pr ∈ σ.state.store.committed.requests, pr.requestID = ri.requestID) ∧
    Chained Db.empty σ.state.store.log σ.state.store.committed ∧
    ∀ p, (∀ x, Act.exec p x ∈ as → x.fault ≠ .lost) → ∀ e, σ.prog p = some (.ret (.error e)) →
      ∀ c ∈ σ.state.store.log, c.tx ≠ p := by
  have hruns : Runs spec.machine (start calls Db.empty) σ := Runs.of_run as h
  refine ⟨fun pr hpr => ?_, fun ri hri => ?_, Spec.chained_runs hruns (chained_fresh _),
    fun p hl e he => ?_⟩
  · exact (pictures_run hruns pr.requestID).pictured
      (fun p customerID inp hc => createInput_ok (hcalls p customerID inp hc)) hpr
  · have hdata := mem_shown_image hri
    rcases pictures_run hruns ri.requestID with h | ⟨c, -, -, h⟩
    · rw [h] at hdata
      exact absurd hdata List.not_mem_nil
    · have hrow : (σ.state.store.committed.rowsOf ri.requestID).length = 1 := by
        rw [← shown_rows, h, Shown.of_rows]
      obtain ⟨pr, hpr⟩ := List.exists_mem_of_length_pos (by omega :
        0 < (σ.state.store.committed.rowsOf ri.requestID).length)
      exact ⟨pr, (List.mem_filter.mp hpr).1, rowsOf_id hpr⟩
  · exact not_committed as h hl he

end

/-! ## runs with a picture -/

/-- the signature of a PNG -/
def pngPicture : Bytes := [0x89, 0x50, 0x4e, 0x47, 0x0d, 0x0a, 0x1a, 0x0a]

def payloadOf (itemName : String) : Bytes :=
  Sniff.ascii ("\x7b\"itemName\":\"" ++ itemName ++ "\",\"quantity\":2\x7d")

/-- the two payloads that are sent below -/
def readPayload (payload : Bytes) : Option CreateRequestBody :=
  (["TV set", "tv-SET (new)"].find? fun n => payload == payloadOf n).map fun n => ⟨n, "", "", 2⟩

def posted (itemName : String) : Incoming where
  contentType := "multipart/form-data; boundary=x"
  query := some []
  body := .form [⟨"payload", none, payloadOf itemName⟩, ⟨"image", some "tv.png", pngPicture⟩]

def photographed (itemName : String) : CreateInput where
  itemName := itemName
  description := ""
  category := ""
  quantity := 2
  actorUserID := 70
  image := pngPicture
  imageType := "image/png"

/-- a first customer opens a request with a picture, a second one joins it, a third one asks for the
same item -/
def photographers : Fin 3 → Invocation
  | 0 => .create 7 (photographed "TV set")
  | 1 => .join 50 8 80 3
  | 2 => .create 9 (photographed "tv-SET (new)")

def postings : Fin 3 → Incoming
  | 0 => posted "TV set"
  | 1 => ⟨"application/json", some [], .plain []⟩
  | 2 => posted "tv-SET (new)"

theorem photographers_posted (p : Fin 3) (customerID : UUID) (inp : CreateInput)
    (h : photographers p = .create customerID inp) :
    createInput readPayload (fun _ _ => true) (postings p) inp.actorUserID = .ok inp := by
  match p with
  | 0 =>
    cases h
    rfl
  | 1 => cases h
  | 2 =>
    cases h
    rfl

/-- the whole of the first call, statement by statement -/
def photographing : List (Act (Fin 3) (Choice Unit)) :=
  [move 0 0 0, move 0 0 0, move 0 0 0, move 0 50 0, move 0 60 0, move 0 0 0, move 0 0 0, move 0 0 0,
    move 0 90 91]

/-- then the second call, and the third, which is refused -/
def photographingAll : List (Act (Fin 3) (Choice Unit)) :=
  photographing ++ [move 0 0 0, move 1 0 0, move 1 0 0, move 1 61 0, move 1 0 0, move 1 92 93,
    move 1 0 0, move 2 0 0, move 2 0 0, move 2 0 0, move 2 0 0, move 2 0 0]

theorem photographing_faults (p : Fin 3) (x : Choice Unit) (h : Act.exec p x ∈ photographingAll) :
    x.fault ≠ .lost := by
  have hall : lossless photographingAll = true := by decide
  exact not_lost hall h

theorem pictures_whole_photographers : letI := asciiPostgres
    ∃ σ, spec.machine.run (start photographers Db.empty) photographingAll = some σ ∧
      (σ.state.store.committed.requests.map fun pr => (pr.imageType, pr.totalQuantity)) =
        [("image/png", 5)] ∧
      (∀ pr ∈ σ.state.store.committed.requests,
        Pictured photographers postings σ.state.store.committed σ.state.store.log pr) ∧
      ∃ e, σ.prog 2 = some (.ret (.error e)) ∧ ∀ c ∈ σ.state.store.log, c.tx ≠ 2 := by
  let : Postgres := asciiPostgres
  obtain ⟨σ, hσ, h⟩ := Option.map_eq_some_iff.mp
    (show (spec.machine.run (start photographers Db.empty) photographingAll).map
      (fun σ => ((σ.state.store.committed.requests.map fun pr => (pr.imageType, pr.totalQuantity)),
        (refusedWith σ 2).isSome)) = some ([("image/png", 5)], true) by decide +kernel)
  obtain ⟨hrows, h2⟩ := Prod.mk.inj h
  obtain ⟨e, he⟩ := Option.isSome_iff_exists.mp h2
  have he := refusedWith_some he
  obtain ⟨hpics, -, -, hnone⟩ := pictures_whole readPayload (fun _ _ => true) postings photographers
    photographers_posted photographingAll hσ
  exact ⟨σ, hσ, hrows, hpics, e, he, hnone 2 (photographing_faults 2) e he⟩

/-- the acknowledgement of the commit is lost: the call ends in an error, the request and its picture
stay -/
theorem picture_left : letI := asciiPostgres
    createInput readPayload (fun _ _ => true) (postings 0) 70 = .ok (photographed "TV set") ∧
    ∃ σ, Runs spec.machine (start photographers Db.empty) σ ∧
      (refusedWith σ 0, σ.state.store.committed.images.map (·.imageData)) =
        (some (.pg .other), [pngPicture]) := by
  let : Postgres := asciiPostgres
  refine ⟨rfl, ?_⟩
  exact Runs.exists_of_run (M := spec.machine) (σ := start photographers Db.empty)
    (photographing ++ [.exec 0 ⟨.lost, 0, 0, 1, ()⟩, move 0 0 0])
    (f := fun σ => (refusedWith σ 0, σ.state.store.committed.images.map (·.imageData)))
    (b := (some (.pg .other), [pngPicture])) (by decide +kernel)

end Marketplace.Request
