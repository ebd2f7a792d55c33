import Marketplace.Frontend.Slices
import Mathlib.Data.List.Forall2

/-!
# frontend: what one session leaves to the next

Two sessions on one page load.  What is dispatched belongs to the first of them (`first`) or to a later
one, and an answer to the first may still arrive when the next has begun.

* `Field`, `RootState.read`   the data of a user that the store keeps;
* `Alike`                 two actions that differ only in what they have received;
* `Held`                  the fields that still hold what the first session has received: nothing but
                          the next answer of the same kind replaces it, and `contactsCleared`;
* `Handover`              a session ends, and another begins;
* `session_forgotten`     **two runs that differ only in what the first session has received agree in
                          every field, if none of them holds any of it**;
* `session_remembered`    phone numbers that the first session has read are there in the next.
-/

namespace Marketplace.Frontend

/-! ## the data of a user -/

inductive Field where
  /-- `requests.mine` -/
  | requests
  /-- `offers.mine` -/
  | offers
  /-- `admin.pending`, `admin.grants`, `admin.contacts` -/
  | pending
  | grants
  | contacts
  /-- `notifications.items`, `notifications.unread` -/
  | items
  | unread
  deriving DecidableEq, Repr

@[reducible]
def Field.Value : Field → Type
  | .requests => List PurchaseRequest
  | .offers => List Offer
  | .pending => List PendingOffer
  | .grants => List ContactAccess
  | .contacts => Option ContactList
  | .items => List Notification
  | .unread => Int

def RootState.read (s : RootState) : (f : Field) → f.Value
  | .requests => s.requests.mine
  | .offers => s.offers.mine
  | .pending => s.admin.pending
  | .grants => s.admin.grants
  | .contacts => s.admin.contacts
  | .items => s.notifications.items
  | .unread => s.notifications.unread

/-! ## actions that differ in what they have received -/

inductive Action.Alike : Action → Action → Prop where
  | same (a : Action) : Alike a a
  | login (t t' : AuthTokens) : Alike (.loginFulfilled (some t)) (.loginFulfilled (some t'))
  | loginRejected (p p' : Option String) : Alike (.loginRejected p) (.loginRejected p')
  | registerRejected (p p' : Option String) : Alike (.registerRejected p) (.registerRejected p')
  | loadSession (u u' : User) (p p' : Option Profile) (b b' : Bool) :
      Alike (.loadSessionFulfilled u p b) (.loadSessionFulfilled u' p' b')
  | tokensRefreshed (t t' : AuthTokens) : Alike (.tokensRefreshed (some t)) (.tokensRefreshed (some t'))
  | profileCreated (p p' : Profile) : Alike (.profileCreated p) (.profileCreated p')

inductive RequestsSlice.Action.Alike : Action → Action → Prop where
  | same (a : Action) : Alike a a
  | fetch (p p' : List PurchaseRequest) : Alike (.fetchFulfilled p) (.fetchFulfilled p')
  | fetchMine (p p' : List PurchaseRequest) : Alike (.fetchMineFulfilled p) (.fetchMineFulfilled p')
  | fetchOne (p p' : PurchaseRequest) : Alike (.fetchOneFulfilled p) (.fetchOneFulfilled p')
  | fetchSimilar (p p' : List PurchaseRequest) :
      Alike (.fetchSimilarFulfilled p) (.fetchSimilarFulfilled p')
  | create (p p' : PurchaseRequest) : Alike (.createFulfilled p) (.createFulfilled p')
  | createRejected (p p' : Option CreateRejection) : Alike (.createRejected p) (.createRejected p')
  | join (p p' : PurchaseRequest) : Alike (.joinFulfilled p) (.joinFulfilled p')
  | updateQuantity (p p' : PurchaseRequest) :
      Alike (.updateQuantityFulfilled p) (.updateQuantityFulfilled p')
  | rejected (p p' : Option String) : Alike (.rejected p) (.rejected p')

inductive OffersSlice.Action.Alike : Action → Action → Prop where
  | same (a : Action) : Alike a a
  | fetchMine (p p' : List Offer) : Alike (.fetchMineFulfilled p) (.fetchMineFulfilled p')
  | fetchForRequest (p p' : List AnyOffer) :
      Alike (.fetchForRequestFulfilled p) (.fetchForRequestFulfilled p')
  | create (p p' : Offer) : Alike (.createFulfilled p) (.createFulfilled p')
  | update (p p' : Offer) : Alike (.updateFulfilled p) (.updateFulfilled p')
  | rejected (p p' : Option String) : Alike (.rejected p) (.rejected p')

inductive AdminSlice.Action.Alike : Action → Action → Prop where
  | same (a : Action) : Alike a a
  | fetchPending (p p' : List PendingOffer) :
      Alike (.fetchPendingFulfilled p) (.fetchPendingFulfilled p')
  | fetchGrants (p p' : List ContactAccess) :
      Alike (.fetchGrantsFulfilled p) (.fetchGrantsFulfilled p')
  | fetchContacts (p p' : ContactList) :
      Alike (.fetchContactsFulfilled p) (.fetchContactsFulfilled p')
  | rejected (p p' : Option String) : Alike (.rejected p) (.rejected p')

inductive NotificationsSlice.Action.Alike : Action → Action → Prop where
  | same (a : Action) : Alike a a
  | fetch (p p' : List Notification) : Alike (.fetchFulfilled p) (.fetchFulfilled p')
  | unread (n n' : Option Int) : Alike (.unreadFulfilled n) (.unreadFulfilled n')
  | markRead (p p' : Notification) : Alike (.markReadFulfilled p) (.markReadFulfilled p')

inductive RootAction.Alike : RootAction → RootAction → Prop where
  | auth {a a' : Action} (h : a.Alike a') : Alike (.auth a) (.auth a')
  | requests {a a' : RequestsSlice.Action} (h : a.Alike a') : Alike (.requests a) (.requests a')
  | offers {a a' : OffersSlice.Action} (h : a.Alike a') : Alike (.offers a) (.offers a')
  | admin {a a' : AdminSlice.Action} (h : a.Alike a') : Alike (.admin a) (.admin a')
  | notifications {a a' : NotificationsSlice.Action} (h : a.Alike a') :
      Alike (.notifications a) (.notifications a')

/-! ## what an action does to a field -/

/-- it writes there what it has received; in place, if there is something to write over -/
def RootAction.brings (s : RootState) : RootAction → Field → Bool
  | .requests (.fetchMineFulfilled _), .requests => true
  | .requests (.createFulfilled _), .requests => true
  | .requests (.joinFulfilled _), .requests => true
  | .requests (.updateQuantityFulfilled _), .requests => !s.requests.mine.isEmpty
  | .offers (.fetchMineFulfilled _), .offers => true
  | .offers (.createFulfilled _), .offers => true
  | .offers (.updateFulfilled _), .offers => !s.offers.mine.isEmpty
  | .admin (.fetchPendingFulfilled _), .pending => true
  | .admin (.fetchGrantsFulfilled _), .grants => true
  | .admin (.fetchContactsFulfilled _), .contacts => true
  | .notifications (.fetchFulfilled _), .items => true
  | .notifications (.markReadFulfilled _), .items => !s.notifications.items.isEmpty
  | .notifications (.unreadFulfilled _), .unread => true
  | _, _ => false

/-- nothing is left of what was there -/
def RootAction.resets : RootAction → Field → Bool
  | .requests (.fetchMineFulfilled _), .requests => true
  | .offers (.fetchMineFulfilled _), .offers => true
  | .admin (.fetchPendingFulfilled _), .pending => true
  | .admin (.fetchGrantsFulfilled _), .grants => true
  | .admin (.fetchContactsFulfilled _), .contacts => true
  | .admin .contactsCleared, .contacts => true
  | .notifications (.fetchFulfilled _), .items => true
  | .notifications (.unreadFulfilled _), .unread => true
  | _, _ => false

section
variable {s s' : RootState} {a a' : RootAction} {f : Field} (now : Millis)

theorem read_auth (a : Action) (f : Field) : (s.dispatch now (.auth a)).read f = s.read f := by
  simp only [RootState.dispatch]
  split
  · cases f <;> rfl
  · rfl

/-- a field comes from what it was and from the action -/
theorem read_congr (a : RootAction) (h : s.read f = s'.read f) :
    (s.dispatch now a).read f = (s'.dispatch now a).read f := by
  cases a with
  | auth a => rw [read_auth, read_auth, h]
  | requests a =>
    cases f with
    | requests =>
      have h : s.requests.mine = s'.requests.mine := h
      show (RequestsSlice.reducer s.requests a).mine = (RequestsSlice.reducer s'.requests a).mine
      cases a with
      | createRejected p =>
        simp only [RequestsSlice.reducer, RequestsSlice.State.failed]
        split <;> exact h
      | joinFulfilled p =>
        simp only [RequestsSlice.reducer, RequestsSlice.State.keepInStep, h]
        split <;> simp only [h]
      | _ => simp only [RequestsSlice.reducer, RequestsSlice.State.keepInStep,
          RequestsSlice.State.failed, h]
    | _ => exact h
  | offers a =>
    cases f with
    | offers =>
      have h : s.offers.mine = s'.offers.mine := h
      show (OffersSlice.reducer s.offers a).mine = (OffersSlice.reducer s'.offers a).mine
      cases a <;> simp only [OffersSlice.reducer, h]
    | _ => exact h
  | admin a =>
    cases f with
    | pending =>
      have h : s.admin.pending = s'.admin.pending := h
      show (AdminSlice.reducer s.admin a).pending = (AdminSlice.reducer s'.admin a).pending
      cases a <;> simp only [AdminSlice.reducer, h]
    | grants =>
      have h : s.admin.grants = s'.admin.grants := h
      show (AdminSlice.reducer s.admin a).grants = (AdminSlice.reducer s'.admin a).grants
      cases a <;> simp only [AdminSlice.reducer, h]
    | contacts =>
      have h : s.admin.contacts = s'.admin.contacts := h
      show (AdminSlice.reducer s.admin a).contacts = (AdminSlice.reducer s'.admin a).contacts
      cases a <;> simp only [AdminSlice.reducer, h]
    | _ => exact h
  | notifications a =>
    cases f with
    | items =>
      have h : s.notifications.items = s'.notifications.items := h
      show (NotificationsSlice.reducer s.notifications a).items =
        (NotificationsSlice.reducer s'.notifications a).items
      cases a <;> simp only [NotificationsSlice.reducer, h]
    | unread =>
      have h : s.notifications.unread = s'.notifications.unread := h
      show (NotificationsSlice.reducer s.notifications a).unread =
        (NotificationsSlice.reducer s'.notifications a).unread
      cases a <;> simp only [NotificationsSlice.reducer, h]
    | _ => exact h

/-- what is reset comes from the action alone -/
theorem read_resets (h : a.resets f = true) :
    (s.dispatch now a).read f = (s'.dispatch now a).read f := by
  unfold RootAction.resets at h
  split at h <;> first | rfl | cases h

theorem read_same (hs : a.resets f = false → s.read f = s'.read f) :
    (s.dispatch now a).read f = (s'.dispatch now a).read f := by
  cases hr : a.resets f with
  | true => exact read_resets now hr
  | false => exact read_congr now a (hs hr)

/-- **what has been received is in no field that the action does not bring it to** -/
theorem read_alike (h : a.Alike a') (hb : a.brings s f = false)
    (hs : a.resets f = false → s.read f = s'.read f) :
    (s.dispatch now a).read f = (s'.dispatch now a').read f := by
  cases h with
  | auth h =>
    rw [read_auth, read_auth]
    exact hs (by cases f <;> rfl)
  | requests h =>
    cases h with
    | same a => exact read_same now hs
    | createRejected p p' =>
      cases f with
      | requests =>
        have h : s.requests.mine = s'.requests.mine := hs rfl
        show (RequestsSlice.reducer s.requests (.createRejected p)).mine =
          (RequestsSlice.reducer s'.requests (.createRejected p')).mine
        simp only [RequestsSlice.reducer, RequestsSlice.State.failed]
        split <;> split <;> exact h
      | _ => exact hs rfl
    | updateQuantity p p' =>
      cases f with
      | requests =>
        -- there is nothing to write over
        have h : s.requests.mine = s'.requests.mine := hs rfl
        have hnil : s.requests.mine = [] := by simpa [RootAction.brings] using hb
        show RequestsSlice.replace p s.requests.mine = RequestsSlice.replace p' s'.requests.mine
        rw [← h, hnil]
        rfl
      | _ => exact hs rfl
    | fetchMine p p' => cases f <;> first | exact hs rfl | cases hb
    | create p p' => cases f <;> first | exact hs rfl | cases hb
    | join p p' => cases f <;> first | exact hs rfl | cases hb
    | fetch p p' => cases f <;> exact hs rfl
    | fetchOne p p' => cases f <;> exact hs rfl
    | fetchSimilar p p' => cases f <;> exact hs rfl
    | rejected p p' => cases f <;> exact hs rfl
  | offers h =>
    cases h with
    | same a => exact read_same now hs
    | update p p' =>
      cases f with
      | offers =>
        have h : s.offers.mine = s'.offers.mine := hs rfl
        have hnil : s.offers.mine = [] := by simpa [RootAction.brings] using hb
        show s.offers.mine.map _ = s'.offers.mine.map _
        rw [← h, hnil]
        rfl
      | _ => exact hs rfl
    | fetchMine p p' => cases f <;> first | exact hs rfl | cases hb
    | create p p' => cases f <;> first | exact hs rfl | cases hb
    | fetchForRequest p p' => cases f <;> exact hs rfl
    | rejected p p' => cases f <;> exact hs rfl
  | admin h =>
    cases h with
    | same a => exact read_same now hs
    | fetchPending p p' => cases f <;> first | exact hs rfl | cases hb
    | fetchGrants p p' => cases f <;> first | exact hs rfl | cases hb
    | fetchContacts p p' => cases f <;> first | exact hs rfl | cases hb
    | rejected p p' => cases f <;> exact hs rfl
  | notifications h =>
    cases h with
    | same a => exact read_same now hs
    | markRead p p' =>
      cases f with
      | items =>
        have h : s.notifications.items = s'.notifications.items := hs rfl
        have hnil : s.notifications.items = [] := by simpa [RootAction.brings] using hb
        show s.notifications.items.map _ = s'.notifications.items.map _
        rw [← h, hnil]
        rfl
      | unread =>
        have h : s.notifications.unread = s'.notifications.unread := hs rfl
        show max 0 (s.notifications.unread - 1) = max 0 (s'.notifications.unread - 1)
        rw [h]
      | _ => exact hs rfl
    | fetch p p' => cases f <;> first | exact hs rfl | cases hb
    | unread n n' => cases f <;> first | exact hs rfl | cases hb

end

/-! ## runs -/

/-- an action, when it is dispatched, and whether it belongs to the first session: its pages have
dispatched it, or it carries the answer to one of its calls -/
structure Dispatched where
  action : RootAction
  now : Millis
  first : Bool
  deriving DecidableEq, Repr

inductive Dispatched.Alike : Dispatched → Dispatched → Prop where
  | same (e : Dispatched) : Alike e e
  | received {a a' : RootAction} (h : a.Alike a') (now : Millis) :
      Alike ⟨a, now, true⟩ ⟨a', now, true⟩

/-- the store, and the fields that hold what the first session has received -/
structure Store where
  state : RootState
  held : Field → Bool

def Store.step (s : Store) (e : Dispatched) : Store where
  state := s.state.dispatch e.now e.action
  held f := (e.first && e.action.brings s.state f) || (!e.action.resets f && s.held f)

def Store.run (s : Store) (es : List Dispatched) : Store := es.foldl Store.step s

/-- nothing has been received -/
def Store.loaded (stored : Option StoredSession) : Store := ⟨.initial stored, fun _ => false⟩

/-- what no field holds is in none of the two -/
def Store.Agree (s s' : Store) : Prop :=
  ∀ f, s.held f = false → s.state.read f = s'.state.read f

theorem Store.Agree.step {s s' : Store} {e e' : Dispatched} (h : s.Agree s') (he : e.Alike e') :
    (s.step e).Agree (s'.step e') := by
  intro f hf
  obtain ⟨hb, hr⟩ := Bool.or_eq_false_iff.mp hf
  have hold : e.action.resets f = false → s.state.read f = s'.state.read f := by
    intro hreset
    rw [hreset] at hr
    exact h f hr
  cases he with
  | same e => exact read_same e.now hold
  | received ha now => exact read_alike now ha hb hold

theorem Store.Agree.run {s s' : Store} {es es' : List Dispatched} (h : s.Agree s')
    (he : List.Forall₂ Dispatched.Alike es es') : (s.run es).Agree (s'.run es') := by
  induction he generalizing s s' with
  | nil => exact h
  | cons he _ ih => exact ih (h.step he)

/-! ## two sessions -/

/-- `logout.fulfilled`, `sessionCleared` or `loadSession.rejected` -/
def Action.endsSession : Action → Bool
  | .logoutFulfilled => true
  | .sessionCleared => true
  | .loadSessionRejected => true
  | _ => false

/-- a session ends, and somebody else logs in; answers to the first may arrive at any time -/
structure Handover where
  stored : Option StoredSession
  first : List Dispatched
  ending : Dispatched
  between : List Dispatched
  login : Dispatched
  after : List Dispatched
  firsts : first.all (·.first) = true
  ends : ∃ a : Action, ending.action = .auth a ∧ a.endsSession = true
  begins : ∃ tokens, login.action = .auth (.loginFulfilled (some tokens)) ∧ login.first = false

def Handover.events (r : Handover) : List Dispatched :=
  r.first ++ r.ending :: (r.between ++ r.login :: r.after)

def Handover.final (r : Handover) : Store := (Store.loaded r.stored).run r.events

/-- they differ only in what the first session has received -/
structure Handover.Alike (r r' : Handover) : Prop where
  stored : r.stored = r'.stored
  events : List.Forall₂ Dispatched.Alike r.events r'.events

/-- **One session forgets the other.**  Two runs that differ only in what the first session has
received reach the same values in every field of the next, from its login on, as long as no field
holds anything that the first session has received. -/
theorem session_forgotten {r r' : Handover} (h : r.Alike r') (hf : ∀ f, r.final.held f = false) :
    r.final.state.read = r'.final.state.read := by
  have hstart : (Store.loaded r.stored).Agree (Store.loaded r'.stored) := fun f _ => by rw [h.stored]
  funext f
  exact hstart.run h.events f (hf f)

/-! ## a seller reads a phone number -/

def tokensOf (user : String) : AuthTokens := ⟨some ("access of " ++ user), some "refresh", some 3600⟩

def numbers (phone : String) : ContactList :=
  ⟨some [⟨some "7", some "Ada", some "L", some phone⟩], some "5"⟩

def visit (phone : String) (leaving : List RootAction) : List RootAction :=
  .auth (.loginFulfilled (some (tokensOf "one"))) ::
    .admin (.fetchContactsFulfilled (numbers phone)) :: leaving

/-- a seller logs in, reads the contacts of a request, does what follows, and logs out; another logs
in -/
def shift (phone : String) (leaving : List RootAction) : Handover where
  stored := none
  first := (visit phone leaving).map fun a => ⟨a, 0, true⟩
  ending := ⟨.auth .logoutFulfilled, 1, true⟩
  between := []
  login := ⟨.auth (.loginFulfilled (some (tokensOf "two"))), 2, false⟩
  after := []
  firsts := by
    rw [List.all_map, List.all_eq_true]
    exact fun _ _ => rfl
  ends := ⟨_, rfl, rfl⟩
  begins := ⟨_, rfl, rfl⟩

theorem shift_alike (phone phone' : String) (leaving : List RootAction) :
    (shift phone leaving).Alike (shift phone' leaving) := by
  refine ⟨rfl, .cons (.same _) (.cons (.received (.admin (.fetchContacts _ _)) 0) ?_)⟩
  exact List.forall₂_same.mpr fun e _ => .same e

/-- the page of the contacts clears them when it is left -/
theorem session_forgotten_contacts :
    (shift "0612" [.admin .contactsCleared]).final.state.read =
      (shift "0699" [.admin .contactsCleared]).final.state.read :=
  session_forgotten (shift_alike _ _ _) fun f => by cases f <;> rfl

/-- **the numbers that one seller has read are there when the next has logged in** -/
theorem session_remembered :
    ∃ r r' : Handover, r.Alike r' ∧ r.final.state.read .contacts = some (numbers "0612") ∧
      r'.final.state.read .contacts = some (numbers "0699") ∧
      r.final.state.read ≠ r'.final.state.read := by
  refine ⟨shift "0612" [], shift "0699" [], shift_alike _ _ _, rfl, rfl, fun h => ?_⟩
  have hcontacts : some (numbers "0612") = some (numbers "0699") := congrFun h .contacts
  revert hcontacts
  decide

end Marketplace.Frontend
