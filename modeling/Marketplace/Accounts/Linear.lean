import Marketplace.Accounts.Service

/-!
# Accounts and profiles: every run plays the registry

The calls of the three services run interleaved, statement by statement, at READ COMMITTED, and
customer-service and seller-service ask auth-service in the middle of a transaction.  All the same
they act on the registry one at a time, and what they keep about one another stays true.

* `May`              the events that a call may bring about;
* `Idle`, `At`       a transaction that has written nothing, or on one primary key: the row before
                     and as it leaves it, which the lock of the row keeps until the commit;
* `Answer.Shows`, `Refused`   what an answer or an error says, of the database at some moment;
* `linear_op`        what each operation does, in the order of `Service`;
* `accounts_linear`, `members_sound`, `updates_asked`   **every run**.
-/

set_option linter.unusedSectionVars false

namespace Marketplace.Accounts

open Auth (Role UserStatus)
open Service ReadCommitted Interleave UniqueKeys

abbrev Change := Event UUID String String Role Kind

/-- the events that a call may bring about -/
def Invocation.May : Invocation → Change → Prop
  | .registerCustomer r, v => ∃ u, v = .enrolled u ⟨r.email, r.phoneNumber, .CUSTOMER⟩
  | .registerSeller r, v => ∃ u, v = .enrolled u ⟨r.email, r.phoneNumber, .SELLER⟩
  | .seedAdminUser e _ n, v => ∃ u, v = .enrolled u ⟨e, n, .ADMIN⟩
  | .updateCurrentUser u r, v => v = .idle ∨ ∃ e n, v = .moved u e n ∧
      (∀ x, r.email = some x → e = x) ∧ ∀ x, r.phoneNumber = some x → n = x
  | .createProfile u _, v => ∃ i, v = .opened .customer i u
  | .createSeller u _, v => ∃ i, v = .opened .seller i u
  | .getCurrentUser _, v => v = .idle
  | .getMyProfile _, v => v = .idle
  | .updateMyProfile _ _, v => v = .idle
  | .getSellerByUserID _, v => v = .idle
  | .updateSeller _ _, v => v = .idle

section
variable {P : Type} [DecidableEq P] {p : P} {s t : St P} {key : Key} {x y : List Row}

/-! ## a transaction on one primary key -/

def Key.isPrimary : Key → Bool
  | .user _ => true
  | .profile _ _ => true
  | _ => false

theorem primary_user {u : User} {k : Key} (h : k ∈ keys (Row.user u)) (hk : k.isPrimary = true) :
    k = .user u.userID := by
  simp only [keys, Row.keys, List.mem_cons, List.not_mem_nil, or_false] at h
  rcases h with rfl | rfl | rfl
  · rfl
  · cases hk
  · cases hk

theorem primary_profile {f : Profile} {k : Key} (h : k ∈ keys (Row.profile f))
    (hk : k.isPrimary = true) : k = .profile f.kind f.profileID := by
  simp only [keys, Row.keys, List.mem_cons, List.not_mem_nil, or_false] at h
  rcases h with rfl | rfl
  · rfl
  · cases hk

theorem user_mem_keys (u : User) : Key.user u.userID ∈ keys (Row.user u) := List.mem_cons_self

theorem profile_mem_keys (f : Profile) : Key.profile f.kind f.profileID ∈ keys (Row.profile f) :=
  List.mem_cons_self

/-- nothing is written or committed yet -/
structure Idle (p : P) (s : St P) : Prop where
  pending : s.pending p = []
  fresh : s.commitsOf p = []

/-- the transaction of `p` has written on the row of `key` and on nothing else: the row (if any) is `x`
for the others, and `y` as it leaves it -/
structure At (p : P) (key : Key) (x y : List Row) (s : St P) : Prop where
  held : s.locks key = some p
  only : ∀ w ∈ s.pending p, ∀ k ∈ w.keys, k.isPrimary = true → k = key
  before : s.committed.under key = x
  now : (s.view p).under key = y
  fresh : s.commitsOf p = []

/-- a write on that row -/
theorem At.put {w : Write} (hp : s.put p w = some t) (hkey : key ∈ w.keys)
    (hw : ∀ k ∈ w.keys, k.isPrimary = true → k = key)
    (honly : ∀ v ∈ s.pending p, ∀ k ∈ v.keys, k.isPrimary = true → k = key)
    (hx : s.committed.under key = x) (hy : (w.apply (s.view p)).under key = y)
    (hf : s.commitsOf p = []) : At p key x y t := by
  refine ⟨put_takes hp hkey, ?_, ?_, ?_, ?_⟩
  · rw [put_pending hp]
    intro v hv
    rcases List.mem_append.mp hv with hv | hv
    · exact honly v hv
    · rw [List.mem_singleton.mp hv]
      exact hw
  · rw [(Quiet.put hp).committed]
    exact hx
  · rw [put_view hp]
    exact hy
  · unfold Store.commitsOf
    rw [(Quiet.put hp).log]
    exact hf

/-- what has another primary key is as it is committed -/
theorem At.other (h : At p key x y s) {k : Key} (hk : k.isPrimary = true) (hne : k ≠ key) :
    (s.view p).under k = s.committed.under k := by
  have hsame : Schema.same Write k s.committed (s.view p) :=
    same_applyAll _ (fun w hw hm => hne (h.only w hw k hm hk)) _
  exact Eq.symm hsame

theorem At.row_committed (h : At p key x y s) {r : Row} {k : Key} (hr : r ∈ (s.view p).rows)
    (hmem : k ∈ keys r) (hk : k.isPrimary = true) (hne : k ≠ key) : r ∈ s.committed.rows := by
  have hu : r ∈ (s.view p).under k := mem_under.mpr ⟨hr, hmem⟩
  rw [h.other hk hne] at hu
  exact (mem_under.mp hu).1

theorem Idle.insert (h : Idle p s) {new : Row} (hs : insert p new s = some (.ok (), t))
    (hkey : key ∈ keys new) (hw : ∀ k ∈ keys new, k.isPrimary = true → k = key) :
    At p key [] [new] t := by
  rcases insert_cases hs with ⟨-, hp, hfree⟩ | ⟨e, -, -⟩
  · refine .put hp hkey hw (fun v hv => ?_) ?_ ?_ h.fresh
    · rw [h.pending] at hv
      exact absurd hv List.not_mem_nil
    · rw [← view_of_pending h.pending]
      exact hfree key hkey
    · rw [under_insert, hfree key hkey, having_of_mem hkey]
      rfl
  · cases e

/-- the row that is replaced is all that had the key -/
theorem At.replace {old new : Row} (hs : UniqueKeys.replace p old new s = some (.ok (), t))
    (hkey : key ∈ keys new) (hold : ∀ k ∈ keys old, k.isPrimary = true → k = key)
    (hnew : ∀ k ∈ keys new, k.isPrimary = true → k = key)
    (honly : ∀ v ∈ s.pending p, ∀ k ∈ v.keys, k.isPrimary = true → k = key)
    (hx : s.committed.under key = x) (hy : (s.view p).under key = [old])
    (hf : s.commitsOf p = []) : At p key x [new] t := by
  rcases replace_cases hs with ⟨-, hp, -⟩ | ⟨e, -, -⟩
  · refine .put hp (List.mem_append_right _ hkey) (fun k hk => ?_) honly hx ?_ hf
    · rcases List.mem_append.mp hk with hk | hk
      · exact hold k hk
      · exact hnew k hk
    · rw [under_replace, hy, having_of_mem hkey]
      simp
  · cases e

/-! ## the event of a commit -/

theorem At.profiles (h : At p (.user u) x y s) : profileOf (s.view p) = profileOf s.committed := by
  funext k i
  have hne : Key.profile k i ≠ .user u := by simp
  exact profileOf_congr (h.other rfl hne).symm

theorem At.accounts {k : Kind} {i : UUID} (h : At p (.profile k i) x y s) :
    accountOf (s.view p) = accountOf s.committed := by
  funext u
  have hne : Key.user u ≠ .profile k i := by simp
  exact accountOf_congr (h.other rfl hne).symm

/-- a row of its own keeps the email and the phone from everybody else -/
theorem At.apart {user : User} (h : At p (.user user.userID) x [.user user] s)
    (hv : (s.view p).Unique) :
    (onRegistry s.committed).Apart user.userID user.email user.phoneNumber := by
  intro v c hc hne
  have hother : accountOf (s.view p) v = some c := by
    have hk : Key.user v ≠ .user user.userID := fun e => hne (Key.user.inj e)
    rw [accountOf_congr (h.other rfl hk).symm]
    exact hc
  obtain ⟨z, hz, rfl, rfl⟩ := accountOf_some hother
  have hown : Row.user user ∈ (s.view p).under (.user user.userID) := by
    rw [h.now]
    exact List.mem_singleton_self _
  have hrow := (mem_under.mp hown).1
  have differ : ∀ k : Key, k ∈ keys (Row.user z) → k ∈ keys (Row.user user) → False := by
    intro k hkz hku
    have he := hv.eq (mem_under.mpr ⟨hz, hkz⟩) (mem_under.mpr ⟨hrow, hku⟩)
    exact hne (congrArg User.userID (Row.user.inj he))
  refine ⟨fun e => differ (.email user.email) ?_ ?_, fun e => differ (.phone user.phoneNumber) ?_ ?_⟩
  · have e : z.email = user.email := e
    simp [keys, Row.keys, e]
  · simp [keys, Row.keys]
  · have e : z.phoneNumber = user.phoneNumber := e
    simp [keys, Row.keys, e]
  · simp [keys, Row.keys]

theorem At.setAccount {user : User} (h : At p (.user user.userID) x [.user user] s) :
    onRegistry (s.view p) = (onRegistry s.committed).setAccount user.userID user.account := by
  have hacc : accountOf (s.view p) =
      Function.update (accountOf s.committed) user.userID (some user.account) := by
    funext v
    by_cases hv : v = user.userID
    · subst hv
      rw [Function.update_self]
      unfold accountOf
      rw [lookup_of_under h.now]
      rfl
    · rw [Function.update_of_ne hv]
      exact accountOf_congr (h.other rfl fun e => hv (Key.user.inj e)).symm
  unfold onRegistry Registry.setAccount
  rw [hacc, h.profiles]

theorem At.newAccount {u : UUID} (h : At p (.user u) [] y s) : accountOf s.committed u = none := by
  unfold accountOf
  rw [lookup_eq_none.mpr h.before]
  rfl

theorem At.newProfile {k : Kind} {i : UUID} (h : At p (.profile k i) [] y s) :
    profileOf s.committed k i = none := by
  unfold profileOf
  rw [lookup_eq_none.mpr h.before]
  rfl

/-- a row that was not there is a registration -/
theorem At.enrolled {user : User} (h : At p (.user user.userID) [] [.user user] s)
    (hv : (s.view p).Unique) :
    (Event.enrolled user.userID user.account).Allowed Kind.role (onRegistry s.committed) ∧
    onRegistry (s.view p) =
      (Event.enrolled user.userID user.account).apply (onRegistry s.committed) :=
  ⟨⟨h.newAccount, h.apart hv⟩, h.setAccount⟩

/-- a row that replaces one of the same role is a change of address -/
theorem At.moved {old user : User} (h : At p (.user user.userID) [.user old] [.user user] s)
    (hrole : old.role = user.role) (hv : (s.view p).Unique) :
    (Event.moved user.userID user.email user.phoneNumber).Allowed Kind.role
      (onRegistry s.committed) ∧
    onRegistry (s.view p) =
      (Event.moved user.userID user.email user.phoneNumber).apply (onRegistry s.committed) := by
  have hacc : (onRegistry s.committed).accounts user.userID = some old.account := by
    show accountOf s.committed user.userID = _
    unfold accountOf
    rw [lookup_of_under h.before]
    rfl
  refine ⟨⟨?_, h.apart hv⟩, ?_⟩
  · rw [hacc]
    exact Option.some_ne_none _
  · rw [apply_moved hacc, h.setAccount]
    refine congrArg _ ?_
    show User.account user = ⟨user.email, user.phoneNumber, old.role⟩
    rw [hrole]
    rfl

theorem At.profileOf_now {f : Profile} (h : At p (.profile f.kind f.profileID) x [.profile f] s) :
    profileOf (s.view p) f.kind f.profileID = some f.userID := by
  unfold profileOf
  rw [lookup_of_under h.now]
  rfl

theorem At.profileOf_other {k l : Kind} {i j : UUID} (h : At p (.profile k i) x y s)
    (hne : ¬(l = k ∧ j = i)) : profileOf (s.view p) l j = profileOf s.committed l j := by
  refine profileOf_congr (h.other rfl fun e => hne ?_).symm
  exact Key.profile.inj e

/-- a new profile of one who has the role -/
theorem At.opened {f : Profile} (h : At p (.profile f.kind f.profileID) [] [.profile f] s)
    (hrole : ∃ a, accountOf s.committed f.userID = some a ∧ a.role = f.kind.role)
    (hv : (s.view p).Unique) :
    (Event.opened f.kind f.profileID f.userID).Allowed Kind.role (onRegistry s.committed) ∧
    onRegistry (s.view p) =
      (Event.opened f.kind f.profileID f.userID).apply (onRegistry s.committed) := by
  have hnone : profileOf s.committed f.kind f.profileID = none := h.newProfile
  have hown : Row.profile f ∈ (s.view p).under (.profile f.kind f.profileID) := by
    rw [h.now]
    exact List.mem_singleton_self _
  refine ⟨⟨hnone, fun j hj => ?_, hrole⟩, ?_⟩
  · have hj : profileOf s.committed f.kind j = some f.userID := hj
    have hne : ¬(f.kind = f.kind ∧ j = f.profileID) := by
      rintro ⟨-, rfl⟩
      cases hnone.symm.trans hj
    obtain ⟨g, hg, hk, rfl, hu⟩ := profileOf_some ((h.profileOf_other hne).trans hj)
    have hkey : Key.owner f.kind f.userID ∈ keys (Row.profile g) := by
      simp [keys, Row.keys, hk, hu]
    have he := hv.eq (mem_under.mpr ⟨hg, hkey⟩)
      (mem_under.mpr ⟨(mem_under.mp hown).1, by simp [keys, Row.keys]⟩)
    exact hne ⟨rfl, congrArg Profile.profileID (Row.profile.inj he)⟩
  · have hprof : profileOf (s.view p) =
        ((onRegistry s.committed).setProfile f.kind f.profileID f.userID).profiles := by
      funext l j
      by_cases e : l = f.kind ∧ j = f.profileID
      · obtain ⟨rfl, rfl⟩ := e
        rw [Registry.setProfile_self]
        exact h.profileOf_now
      · rw [Registry.setProfile_other _ _ e]
        exact h.profileOf_other e
    unfold onRegistry Event.apply
    rw [h.accounts, hprof]
    rfl

/-- a profile that stays with its owner -/
theorem At.kept {f : Profile} (h : At p (.profile f.kind f.profileID) x [.profile f] s)
    (hown : profileOf s.committed f.kind f.profileID = some f.userID) :
    onRegistry (s.view p) = onRegistry s.committed := by
  have hprof : profileOf (s.view p) = profileOf s.committed := by
    funext l j
    by_cases e : l = f.kind ∧ j = f.profileID
    · obtain ⟨rfl, rfl⟩ := e
      rw [h.profileOf_now, hown]
    · exact h.profileOf_other e
  unfold onRegistry
  rw [h.accounts, hprof]

/-! ## what every run keeps -/

variable [PasswordEncoder] {calls : P → Invocation}

/-- the commits are events of the registry, one for each call -/
abbrev Plays (calls : P → Invocation) (d : Db) (log : List (Commit P Db)) : Prop :=
  Refines (registry Kind.role) onRegistry (fun p => (calls p).May) Rows.empty d log

/-- no key is known to be given twice, at any commit -/
noncomputable def plays (calls : P → Invocation) :
    Terms ((spec (P := P)).knowing fun d _ => d.Unique) where
  I d log _ := d.Unique ∧ Plays calls d log
  R _ _ _ := True
  refl _ _ := trivial
  trans _ _ _ _ _ _ := trivial
  note _ := trivial
  remote _ _ := trivial
  env_R _ := trivial
  env_I h _ := h

theorem Idle.stable : (plays calls).Stable p fun σ => Idle p σ.store :=
  fun σ τ hr hi h => ⟨Terms.Stable.pending (· = []) σ τ hr hi h.pending,
    Terms.Stable.commitsOf (· = []) σ τ hr hi h.fresh⟩

theorem At.stable : (plays calls).Stable p fun σ => At p key x y σ.store := by
  intro σ τ hr hi h
  refine ⟨(hr.seen.locks _).mpr h.held, ?_, ?_, ?_, hr.seen.commitsOf.trans h.fresh⟩
  · rw [hr.seen.pending]
    exact h.only
  · have hsame : σ.store.committed.under key = τ.store.committed.under key :=
      hr.seen.same _ h.held
    rw [← hsame]
    exact h.before
  · have hsame : (σ.store.view p).under key = (τ.store.view p).under key := hr.seen.view h.held
    rw [← hsame]
    exact h.now

/-- an account keeps its role, and a profile its owner -/
theorem Plays.grows {d e : Db} {log : List (Commit P Db)} (h : Plays calls e log)
    (hd : Moment Rows.empty log d) : Grows (onRegistry d) (onRegistry e) :=
  h.since Grows.refl (fun _ _ _ => Grows.trans) (fun _ _ hv => grows_apply hv) hd

theorem Plays.role {d e : Db} {log : List (Commit P Db)} (h : Plays calls e log)
    (hd : Moment Rows.empty log d) {u : UUID} {a c : Account String String Role}
    (ha : accountOf d u = some a) (hc : accountOf e u = some c) : c.role = a.role := by
  obtain ⟨a', ha', hr⟩ := (h.grows hd).accounts u a ha
  have ha' : accountOf e u = some a' := ha'
  rw [Option.some.inj (hc.symm.trans ha')]
  exact hr

/-- nothing that is written is nothing that happens -/
theorem Idle.plays (h : Idle p s) (hi : Plays calls s.committed s.log) (hm : (calls p).May .idle) :
    Plays calls (s.view p) (⟨p, s.committed, s.view p⟩ :: s.log) := by
  refine hi.commit h.fresh ⟨.idle, hm, trivial, ?_⟩
  rw [view_of_pending h.pending]
  rfl

/-! ## answers and refusals -/

/-- the answer is what the rows say -/
def Answer.Shows : Answer → Db → Prop
  | .user r, d => ∃ u, Row.user u ∈ d.rows ∧ toResponse u = r
  | .profile f, d => Row.profile f ∈ d.rows
  | .done, _ => True

/-- the answer is to this call, an update being one of the account as it is in the registry -/
def Invocation.Fits : Invocation → Answer → Members → Prop
  | .registerCustomer r, .user u, _ =>
    u.email = r.email ∧ u.phoneNumber = r.phoneNumber ∧ u.role = .CUSTOMER ∧ u.status = .ACTIVE
  | .registerSeller r, .user u, _ =>
    u.email = r.email ∧ u.phoneNumber = r.phoneNumber ∧ u.role = .SELLER ∧ u.status = .ACTIVE
  | .getCurrentUser i, .user u, _ => u.userID = i
  | .updateCurrentUser i r, .user u, b => u.userID = i ∧ ∃ a, b.accounts i = some a ∧
      u.email = r.email.getD a.email ∧ u.phoneNumber = r.phoneNumber.getD a.phone
  | .seedAdminUser _ _ _, .done, _ => True
  | .createProfile u r, .profile f, _ =>
    ∃ i, f = .customer ⟨i, u, r.firstName, r.lastName, .ACTIVE⟩
  | .getMyProfile u, .profile f, _ => f.kind = .customer ∧ f.userID = u
  | .updateMyProfile u r, .profile f, _ => f.kind = .customer ∧ f.userID = u ∧ r.assign f = f
  | .createSeller u r, .profile f, _ =>
    ∃ i, f = .seller ⟨i, u, r.storeName, r.description, r.city, r.address⟩
  | .getSellerByUserID u, .profile f, _ => f.kind = .seller ∧ f.userID = u
  | .updateSeller u r, .profile f, _ => f.kind = .seller ∧ f.userID = u ∧ r.assign f = f
  | _, _, _ => False

def Invocation.creates : Invocation → Bool
  | .registerCustomer _ => true
  | .registerSeller _ => true
  | .createProfile _ _ => true
  | .createSeller _ _ => true
  | _ => false

/-- there is nothing yet under the id of the answer -/
def Answer.New : Answer → Db → Prop
  | .user r, d => accountOf d r.userID = none
  | .profile f, d => profileOf d f.kind f.profileID = none
  | .done, _ => True

/-- an answer to the call, and one that was true at some moment; what a call creates comes with its own
commit -/
structure Shown (inv : Invocation) (p : P) (a : Answer) (log : List (Commit P Db)) : Prop where
  fits : ∃ d, Moment Rows.empty log d ∧ inv.Fits a (onRegistry d)
  moment : ∃ d, Moment Rows.empty log d ∧ a.Shows d
  created : inv.creates = true → ∃ c ∈ log, c.tx = p ∧ a.New c.before ∧ a.Shows c.after

def EmailTaken (email : String) (b : Members) : Prop :=
  ∃ u a, b.accounts u = some a ∧ a.email = email

def PhoneTaken (phone : String) (b : Members) : Prop :=
  ∃ u a, b.accounts u = some a ∧ a.phone = phone

/-- `u` has a profile of the kind -/
def HasProfile (k : Kind) (u : UUID) (b : Members) : Prop := ∃ i, b.profiles k i = some u

/-- what the registry is like when it refuses a call -/
def Invocation.Refused : Invocation → Err → Members → Prop
  | .registerCustomer r, e, b => e = .emailAlreadyExists r.email ∧ EmailTaken r.email b ∨
      e = .phoneAlreadyExists r.phoneNumber ∧ PhoneTaken r.phoneNumber b
  | .registerSeller r, e, b => e = .emailAlreadyExists r.email ∧ EmailTaken r.email b ∨
      e = .phoneAlreadyExists r.phoneNumber ∧ PhoneTaken r.phoneNumber b
  | .getCurrentUser u, e, b => e = .userNotFound u ∧ b.accounts u = none
  | .updateCurrentUser u r, e, b => e = .userNotFound u ∧ b.accounts u = none ∨
      (∃ x, r.email = some x ∧ e = .emailAlreadyExists x ∧ EmailTaken x b) ∨
      ∃ x, r.phoneNumber = some x ∧ e = .phoneAlreadyExists x ∧ PhoneTaken x b
  | .seedAdminUser _ _ _, _, _ => False
  | .createProfile u _, e, b => e = .profileAlreadyExists .customer ∧ HasProfile .customer u b ∨
      e = .invalidUserRole .customer ∧ ∃ a, b.accounts u = some a ∧ a.role ≠ .CUSTOMER
  | .createSeller u _, e, b => e = .profileAlreadyExists .seller ∧ HasProfile .seller u b ∨
      e = .invalidUserRole .seller ∧ ∃ a, b.accounts u = some a ∧ a.role ≠ .SELLER
  | .getMyProfile u, e, b => e = .profileNotFound .customer u ∧ ¬HasProfile .customer u b
  | .updateMyProfile u _, e, b => e = .profileNotFound .customer u ∧ ¬HasProfile .customer u b
  | .getSellerByUserID u, e, b => e = .profileNotFound .seller u ∧ ¬HasProfile .seller u b
  | .updateSeller u _, e, b => e = .profileNotFound .seller u ∧ ¬HasProfile .seller u b

/-- a failure, or a refusal that has committed nothing and was right at some moment -/
def Refuses (inv : Invocation) (p : P) (e : Err) (s : St P) : Prop :=
  e.isFailure = true ∨
    (s.commitsOf p = [] ∧ ∃ d, Moment Rows.empty s.log d ∧ inv.Refused e (onRegistry d))

variable {inv : Invocation}

theorem Refuses.stable (e : Err) : (plays calls).Stable p fun σ => Refuses inv p e σ.store := by
  intro σ τ hr hi h
  refine h.imp id fun hx => ⟨hr.seen.commitsOf.trans hx.1, ?_⟩
  obtain ⟨d, hd, he⟩ := hx.2
  exact ⟨d, hd.seen hr.seen, he⟩

theorem Shown.stable (a : Answer) :
    (plays calls).Stable p fun σ => Shown inv p a σ.store.log := by
  intro σ τ hr hi h
  obtain ⟨d, hd, hs⟩ := h.moment
  obtain ⟨d', hd', hf⟩ := h.fits
  refine ⟨⟨d', hd'.seen hr.seen, hf⟩, ⟨d, hd.seen hr.seen, hs⟩, fun hc => ?_⟩
  obtain ⟨c, hc, hrest⟩ := h.created hc
  exact ⟨c, hr.seen.mem_log hc, hrest⟩

/-- refused by the registry as it is now -/
theorem Refuses.now {e : Err} (hi : Plays calls s.committed s.log) (hf : s.commitsOf p = [])
    (h : inv.Refused e (onRegistry s.committed)) : Refuses inv p e s :=
  .inr ⟨hf, _, hi.chained.moment, h⟩

/-! ## the rules of the statements -/

theorem stmt_error {q : Stmt} {c : Choice Unit} {e : PgErr}
    (h : stmt p q c s = some (.error e, t)) : t = s := by
  cases q with
  | insertUser u =>
    rcases inserting_cases h with ⟨h, -⟩ | ⟨e, -, ht⟩
    · cases h
    · exact ht
  | insertProfile f =>
    rcases inserting_cases h with ⟨h, -⟩ | ⟨e, -, ht⟩
    · cases h
    · exact ht
  | updateUser u =>
    rcases updating_cases h with ⟨old, h, -⟩ | ⟨e, -, ht⟩
    · cases h
    · exact ht
  | updateProfile f =>
    rcases updating_cases h with ⟨old, h, -⟩ | ⟨e, -, ht⟩
    · cases h
    · exact ht
  | existsByEmail e => cases h
  | existsByPhoneNumber n => cases h
  | findById u => cases h
  | getUser u => cases h
  | existsByUserID k u => cases h
  | findByUserID k u => cases h

/-- a statement whose error is passed on -/
theorem linear_sql {q : Stmt} {A : State P Db Write Key Unit → Prop}
    {B : Reads q → State P Db Write Key Unit → Prop} (hA : (plays calls).Stable p A)
    (hB : ∀ a, (plays calls).Stable p (B a))
    (h : ∀ σ c a t, (plays calls).Inv σ → A σ → stmt p q c σ.store = some (.ok a, t) →
      WellLocked t ∧ B a ⟨t, ()⟩) :
    (plays calls).Triple p A (sql q) B fun e σ => Refuses inv p e σ.store := by
  refine Terms.Triple.sqlThrows hA hB (fun e => Refuses.stable _) (fun σ c a t hi ha hs => ?_)
    fun _ _ _ => .inl rfl
  have hs : stmt p q c σ.store = some (a, t) := hs
  cases a with
  | ok a =>
    obtain ⟨hw, hb⟩ := h σ c a t hi ha hs
    exact ⟨hw, hi.holds, hb⟩
  | error e =>
    obtain rfl := stmt_error hs
    exact ⟨hi.locked, hi.holds, .inl rfl⟩

theorem linear_refuseIf {b : Bool} {e : Err} {A : State P Db Write Key Unit → Prop}
    (hA : (plays calls).Stable p A) :
    (plays calls).Triple p (fun σ => A σ ∧ (b = true → Refuses inv p e σ.store)) (refuseIf b e)
      (fun _ σ => A σ) fun e σ => Refuses inv p e σ.store := by
  have hstable : (plays calls).Stable p
      fun σ => A σ ∧ (b = true → Refuses inv p e σ.store) :=
    hA.and (.all fun _ => Refuses.stable e)
  unfold refuseIf
  split
  · exact .throw hstable fun _ _ h => h.2 (by assumption)
  · exact .pure hstable fun _ _ h => h.1

/-- what is in order is left by a query, and a row that it finds is a reason to refuse -/
theorem linear_exists {q : Stmt} {f : Reads q → Bool} {e : Err}
    {A : State P Db Write Key Unit → Prop} (hA : (plays calls).Stable p A)
    (h : ∀ σ c a t, (plays calls).Inv σ → A σ → stmt p q c σ.store = some (.ok a, t) →
      t = σ.store ∧ (f a = true → Refuses inv p e σ.store)) :
    (plays calls).Triple p A (sql q)
      (fun a σ => A σ ∧ (f a = true → Refuses inv p e σ.store))
      fun e σ => Refuses inv p e σ.store := by
  refine linear_sql hA (fun a => hA.and (.all fun _ => Refuses.stable e))
    fun σ c a t hi ha hs => ?_
  obtain ⟨rfl, hr⟩ := h σ c a t hi ha hs
  exact ⟨hi.locked, ha, hr⟩

theorem wellLocked_insert {new : Row} (hw : WellLocked s)
    (hs : insert p new s = some (.ok (), t)) : WellLocked t := by
  rcases insert_cases hs with ⟨-, hp, -⟩ | ⟨e, -, -⟩
  · exact wellLocked_put hw hp fun l hl => .inl hl
  · cases e

theorem wellLocked_replace {old new : Row} (hw : WellLocked s)
    (hs : UniqueKeys.replace p old new s = some (.ok (), t)) : WellLocked t := by
  rcases replace_cases hs with ⟨-, hp, -⟩ | ⟨e, -, -⟩
  · exact wellLocked_put hw hp fun l hl => .inl hl
  · cases e

theorem linear_insertUser {u : User} :
    (plays calls).Triple p (fun σ => Idle p σ.store) (sql (.insertUser u))
      (fun a σ => At p (.user a.userID) [] [.user a] σ.store ∧ a = { u with userID := a.userID })
      fun e σ => Refuses inv p e σ.store := by
  refine linear_sql Idle.stable (fun a => At.stable.and (Terms.Stable.const _))
    fun σ c a t hi h hs => ?_
  rcases inserting_cases hs with ⟨ha, hins⟩ | ⟨e, he, -⟩
  · obtain rfl := Except.ok.inj ha
    exact ⟨wellLocked_insert hi.locked hins,
      h.insert hins (user_mem_keys _) fun k hk hp => primary_user hk hp, rfl⟩
  · cases he

theorem linear_insertProfile {f : Profile} {B : State P Db Write Key Unit → Prop}
    (hB : (plays calls).Stable p B) (hkeep : ∀ σ t, Quiet p σ.store t → B σ → B ⟨t, ()⟩) :
    (plays calls).Triple p (fun σ => Idle p σ.store ∧ B σ) (sql (.insertProfile f))
      (fun a σ => At p (.profile a.kind a.profileID) [] [.profile a] σ.store ∧
        B σ ∧ a = f.withID a.profileID)
      fun e σ => Refuses inv p e σ.store := by
  refine linear_sql (Idle.stable.and hB) (fun a => At.stable.and (hB.and (Terms.Stable.const _)))
    fun σ c a t hi h hs => ?_
  rcases inserting_cases hs with ⟨ha, hins⟩ | ⟨e, he, -⟩
  · obtain rfl := Except.ok.inj ha
    refine ⟨wellLocked_insert hi.locked hins,
      h.1.insert hins (profile_mem_keys _) fun k hk hp => primary_profile hk hp,
      hkeep σ t (stmt_moves hs).quiet h.2, ?_⟩
    rw [Profile.profileID_withID]
  · cases he

/-! ## the transactions -/

/-- what a transaction ends in may be committed, and its answer was true when it ended or before -/
theorem linear_inTx {α : Type} {f : α → Answer} {fn : Op α}
    {M : α → State P Db Write Key Unit → Prop}
    (hfn : (plays calls).Triple p (fun σ => Idle p σ.store) fn M
      fun e σ => Refuses (calls p) p e σ.store)
    (hM : ∀ a σ, (plays calls).Inv σ → M a σ → ((σ.store.view p).Unique →
      Plays calls (σ.store.view p) (⟨p, σ.store.committed, σ.store.view p⟩ :: σ.store.log)) ∧
        Shown (calls p) p (f a) (⟨p, σ.store.committed, σ.store.view p⟩ :: σ.store.log)) :
    (plays calls).Triple p (fun σ => Idle p σ.store) (inTx fn)
      (fun a σ => Shown (calls p) p (f a) σ.store.log) fun e σ => Refuses (calls p) p e σ.store := by
  refine Terms.Triple.inTx_may Idle.stable Idle.stable (fun _ => Shown.stable _)
    Refuses.stable (fun _ _ _ h => ⟨h.pending, h.fresh⟩) hfn (fun _ _ _ h => h)
    (fun a σ hi h => ⟨fun hmay => ?_, (hM a σ hi h).2⟩) (fun _ _ => .inl rfl) fun _ _ => .inl rfl
  have hunique : (σ.store.view p).Unique := (Spec.knowing_commit hmay).2
  exact ⟨hunique, (hM a σ hi h).1 hunique⟩

theorem Shown.later {a : Answer} {log : List (Commit P Db)} (h : Shown inv p a log)
    (c : Commit P Db) : Shown inv p a (c :: log) := by
  obtain ⟨d, hd, hs⟩ := h.moment
  obtain ⟨d', hd', hf⟩ := h.fits
  refine ⟨⟨d', hd'.later c, hf⟩, ⟨d, hd.later c, hs⟩, fun hc => ?_⟩
  obtain ⟨c', hc', hrest⟩ := h.created hc
  exact ⟨c', List.mem_cons_of_mem _ hc', hrest⟩

/-- an answer that the commit makes true -/
theorem shown_commit {a : Answer} {d : Db} (hd : Moment Rows.empty s.log d)
    (hf : inv.Fits a (onRegistry d)) (hs : a.Shows (s.view p))
    (hnew : inv.creates = true → a.New s.committed) :
    Shown inv p a (⟨p, s.committed, s.view p⟩ :: s.log) :=
  ⟨⟨d, hd.later _, hf⟩, ⟨s.view p, .inr ⟨_, List.mem_cons_self, rfl⟩, hs⟩,
    fun hc => ⟨_, List.mem_cons_self, rfl, hnew hc, hs⟩⟩

/-- an answer that was true before the call -/
theorem shown_moment {a : Answer} {log : List (Commit P Db)} {d : Db}
    (hf : inv.Fits a (onRegistry d)) (hc : inv.creates = false) (hd : Moment Rows.empty log d)
    (hs : a.Shows d) : Shown inv p a log := by
  refine ⟨⟨d, hd, hf⟩, ⟨d, hd, hs⟩, fun h => ?_⟩
  rw [hc] at h
  cases h

theorem At.mem {r : Row} (h : At p key x [r] s) : r ∈ (s.view p).rows := by
  have hr : r ∈ (s.view p).under key := by
    rw [h.now]
    exact List.mem_singleton_self r
  exact (mem_under.mp hr).1

theorem emailTaken {d : Db} (hd : d.Unique) {e : String} {r : Row} (hr : r ∈ d.rows)
    (hk : Key.email e ∈ keys r) : EmailTaken e (onRegistry d) := by
  obtain ⟨u, rfl, he⟩ := email_key hk
  exact ⟨u.userID, u.account, accountOf_row hd hr, he⟩

theorem phoneTaken {d : Db} (hd : d.Unique) {n : String} {r : Row} (hr : r ∈ d.rows)
    (hk : Key.phone n ∈ keys r) : PhoneTaken n (onRegistry d) := by
  obtain ⟨u, rfl, hn⟩ := phone_key hk
  exact ⟨u.userID, u.account, accountOf_row hd hr, hn⟩

theorem row_of_isSome {d : Db} {k : Key} (h : (d.lookup k).isSome = true) :
    ∃ r ∈ d.rows, k ∈ keys r := by
  obtain ⟨r, hr⟩ := Option.isSome_iff_exists.mp h
  exact ⟨r, mem_under.mp (mem_of_lookup hr)⟩

theorem linear_existsByEmail {e : String}
    (hr : ∀ b, EmailTaken e b → inv.Refused (.emailAlreadyExists e) b) :
    (plays calls).Triple p (fun σ => Idle p σ.store) (sql (.existsByEmail e))
      (fun b σ => Idle p σ.store ∧ (b = true → Refuses inv p (.emailAlreadyExists e) σ.store))
      fun e σ => Refuses inv p e σ.store := by
  refine linear_exists (q := .existsByEmail e) Idle.stable fun σ c b t hi h hs => ?_
  cases hs
  refine ⟨rfl, fun hb => ?_⟩
  obtain ⟨r, hmem, hk⟩ := row_of_isSome hb
  rw [view_of_pending h.pending] at hmem
  exact .now hi.holds.2 h.fresh (hr _ (emailTaken hi.holds.1 hmem hk))

theorem linear_existsByPhoneNumber {n : String}
    (hr : ∀ b, PhoneTaken n b → inv.Refused (.phoneAlreadyExists n) b) :
    (plays calls).Triple p (fun σ => Idle p σ.store) (sql (.existsByPhoneNumber n))
      (fun b σ => Idle p σ.store ∧ (b = true → Refuses inv p (.phoneAlreadyExists n) σ.store))
      fun e σ => Refuses inv p e σ.store := by
  refine linear_exists (q := .existsByPhoneNumber n) Idle.stable fun σ c b t hi h hs => ?_
  cases hs
  refine ⟨rfl, fun hb => ?_⟩
  obtain ⟨r, hmem, hk⟩ := row_of_isSome hb
  rw [view_of_pending h.pending] at hmem
  exact .now hi.holds.2 h.fresh (hr _ (phoneTaken hi.holds.1 hmem hk))

theorem linear_encode {password : String} {A : State P Db Write Key Unit → Prop}
    {F : Err → State P Db Write Key Unit → Prop} (hA : (plays calls).Stable p A) :
    (plays calls).Triple p A (Service.remote (.encode password) : Op String)
      (fun _ σ => A σ) F := by
  refine Terms.Triple.remote hA (fun _ => hA) fun σ c a e hi h hs => ⟨hi.holds, ?_⟩
  obtain rfl : e = σ.ext := rfl
  exact h

/-! ## auth-service -/

theorem linear_register {r : RegisterRequest} {role : Role}
    (hmay : ∀ u, (calls p).May (.enrolled u ⟨r.email, r.phoneNumber, role⟩))
    (hfit : ∀ u b, (calls p).Fits (.user ⟨u, r.email, r.phoneNumber, role, .ACTIVE⟩) b)
    (hemail : ∀ b, EmailTaken r.email b → (calls p).Refused (.emailAlreadyExists r.email) b)
    (hphone : ∀ b, PhoneTaken r.phoneNumber b →
      (calls p).Refused (.phoneAlreadyExists r.phoneNumber) b) :
    (plays calls).Triple p (fun σ => Idle p σ.store) (register r role)
      (fun a σ => Shown (calls p) p (.user a) σ.store.log)
      fun e σ => Refuses (calls p) p e σ.store := by
  refine linear_inTx (M := fun a σ => ∃ u : User, At p (.user u.userID) [] [.user u] σ.store ∧
      u.account = ⟨r.email, r.phoneNumber, role⟩ ∧ u.status = .ACTIVE ∧ a = toResponse u)
    (.bind (linear_existsByEmail hemail) fun _ => .bind (linear_refuseIf Idle.stable) fun _ =>
      .bind (linear_existsByPhoneNumber hphone) fun _ =>
      .bind (linear_refuseIf Idle.stable) fun _ => .bind (linear_encode Idle.stable) fun hash =>
      .bind linear_insertUser fun u => ?_) fun a σ hi h => ?_
  · refine .fact fun hu => .pure At.stable fun σ _ h => ⟨u, h, ?_, ?_, rfl⟩
    · rw [hu]
      rfl
    · rw [hu]
  · obtain ⟨u, h, hacc, hst, rfl⟩ := h
    refine ⟨fun hv => ?_,
      shown_commit hi.holds.2.chained.moment ?_ ⟨u, h.mem, rfl⟩ fun _ => h.newAccount⟩
    · obtain ⟨hallow, happly⟩ := h.enrolled hv
      exact hi.holds.2.commit h.fresh
        ⟨.enrolled u.userID u.account, hacc ▸ hmay u.userID, hallow, happly⟩
    · have hresp : toResponse u = ⟨u.userID, r.email, r.phoneNumber, role, .ACTIVE⟩ := by
        obtain ⟨he, hn, hrole⟩ := Account.mk.inj hacc
        unfold toResponse
        rw [he, hn, hrole, hst]
      rw [hresp]
      exact hfit u.userID _

/-- loaded at some moment -/
def Loaded (u : UUID) (user : User) (s : St P) : Prop :=
  user.userID = u ∧ ∃ d, Moment Rows.empty s.log d ∧ Row.user user ∈ d.rows ∧
    accountOf d u = some user.account

theorem Loaded.stable {u : UUID} {user : User} :
    (plays calls).Stable p fun σ => Loaded u user σ.store := by
  intro σ τ hr hi h
  obtain ⟨hu, d, hd, hrow⟩ := h
  exact ⟨hu, d, hd.seen hr.seen, hrow⟩

theorem Loaded.quiet {u : UUID} {user : User} (h : Loaded u user s) (hq : Quiet p s t) :
    Loaded u user t := by
  obtain ⟨hu, d, hd, hrow⟩ := h
  exact ⟨hu, d, hq.log.symm ▸ hd, hrow⟩

/-- what is known of the user that was looked for -/
def Found (inv : Invocation) (p : P) (u : UUID) : Option User → St P → Prop
  | none, s => Refuses inv p (.userNotFound u) s
  | some user, s => Idle p s ∧ Loaded u user s

theorem Found.stable {u : UUID} (a : Option User) :
    (plays calls).Stable p fun σ => Found inv p u a σ.store := by
  cases a with
  | none => exact Refuses.stable _
  | some user => exact Idle.stable.and Loaded.stable

theorem linear_findById {u : UUID}
    (hr : ∀ b : Members, b.accounts u = none → inv.Refused (.userNotFound u) b) :
    (plays calls).Triple p (fun σ => Idle p σ.store) (sql (.findById u))
      (fun a σ => Found inv p u a σ.store) fun e σ => Refuses inv p e σ.store := by
  refine linear_sql Idle.stable Found.stable fun σ c a t hi h hs => ?_
  have ha : (σ.store.view p |>.lookup (.user u)).bind Row.user? = a := by
    cases hs
    rfl
  have ht : t = σ.store := by
    cases hs
    rfl
  subst ht
  rw [view_of_pending h.pending] at ha
  have hacc : accountOf σ.store.committed u = a.map User.account := congrArg (Option.map _) ha
  refine ⟨hi.locked, ?_⟩
  cases a with
  | none => exact .now hi.holds.2 h.fresh (hr _ hacc)
  | some user =>
    obtain ⟨r, hlook, hrow⟩ := Option.bind_eq_some_iff.mp ha
    obtain ⟨hmem, hk⟩ := mem_under.mp (mem_of_lookup hlook)
    obtain ⟨v, rfl, hv⟩ := user_key hk
    cases hrow
    exact ⟨h, hv, _, hi.holds.2.chained.moment, hmem, hacc⟩

theorem linear_getCurrentUser {u : UUID} (hinv : calls p = .getCurrentUser u) :
    (plays calls).Triple p (fun σ => Idle p σ.store) (getCurrentUser u)
      (fun a σ => Shown (calls p) p (.user a) σ.store.log)
      fun e σ => Refuses (calls p) p e σ.store := by
  refine linear_inTx (M := fun a σ => Idle p σ.store ∧ Shown (calls p) p (.user a) σ.store.log)
    (.bind (linear_findById fun b hb => ?_) fun a => ?_) fun a σ hi h => ?_
  · rw [hinv]
    exact ⟨rfl, hb⟩
  · cases a with
    | none => exact .throw (Found.stable none) fun _ _ h => h
    | some user =>
      refine .pure (Found.stable (some user)) fun σ hi h => ⟨h.1, ?_⟩
      obtain ⟨-, hu, d, hd, hrow, -⟩ := h
      refine shown_moment ?_ ?_ hd ⟨user, hrow, rfl⟩
      · rw [hinv]
        exact hu
      · rw [hinv]
        rfl
  · refine ⟨fun _ => h.1.plays hi.holds.2 ?_, h.2.later _⟩
    rw [hinv]
    rfl

/-- what an update has left in the database when its entity was `l`: nothing, and the entity is as it
was loaded, or the row with all the columns of `l` -/
def Wrote (p : P) (u : UUID) (loaded l : User) (s : St P) : Prop :=
  (Idle p s ∧ l = loaded) ∨ ∃ old : User, At p (.user u) [.user old] [.user l] s ∧ old.role = l.role

theorem Wrote.stable {u : UUID} {loaded l : User} :
    (plays calls).Stable p fun σ => Wrote p u loaded l σ.store := by
  intro σ τ hr hi h
  rcases h with ⟨h, hl⟩ | ⟨old, h, hrole⟩
  · exact .inl ⟨Idle.stable σ τ hr hi h, hl⟩
  · exact .inr ⟨old, At.stable σ τ hr hi h, hrole⟩

theorem Wrote.fresh {u : UUID} {loaded l : User} (h : Wrote p u loaded l s) :
    s.commitsOf p = [] := by
  rcases h with ⟨h, -⟩ | ⟨old, h, -⟩
  · exact h.fresh
  · exact h.fresh

/-- the entity still belongs to the account that was loaded -/
structure Entity (u : UUID) (loaded user : User) : Prop where
  userID : user.userID = u
  role : user.role = loaded.role

/-- a user with the primary key of the row that is replaced -/
theorem At.replaceUser {u : UUID} {old user : User} (hold : old.userID = u) (hu : user.userID = u)
    (hs : UniqueKeys.replace p (.user old) (.user user) s = some (.ok (), t))
    (honly : ∀ v ∈ s.pending p, ∀ k ∈ v.keys, k.isPrimary = true → k = .user u)
    (hx : s.committed.under (.user u) = x) (hy : (s.view p).under (.user u) = [.user old])
    (hf : s.commitsOf p = []) : At p (.user u) x [.user user] t := by
  refine .replace hs ?_ (fun k hk hp => ?_) (fun k hk hp => ?_) honly hx hy hf
  · rw [← hu]
    exact user_mem_keys user
  · rw [← hold]
    exact primary_user hk hp
  · rw [← hu]
    exact primary_user hk hp

/-- the UPDATE of a user: the row keeps its role, whatever was loaded -/
theorem Wrote.update {u : UUID} {loaded l user : User} (h : Wrote p u loaded l s)
    (hload : Loaded u loaded s) (hd : s.committed.Unique) (hi : Plays calls s.committed s.log)
    (hl : Entity u loaded l) (hu : Entity u loaded user) {old : Row}
    (hlook : (s.view p).lookup (.user user.userID) = some old)
    (hs : UniqueKeys.replace p old (.user user) s = some (.ok (), t)) : Wrote p u loaded user t := by
  rw [hu.userID] at hlook
  rcases h with ⟨h, rfl⟩ | ⟨before, h, hrole⟩
  · have hview := view_of_pending h.pending
    rw [hview] at hlook
    have hunder := hd.under (mem_of_lookup hlook)
    obtain ⟨hmem, hk⟩ := mem_under.mp (mem_of_lookup hlook)
    obtain ⟨v, rfl, hv⟩ := user_key hk
    refine .inr ⟨v, .replaceUser hv hu.userID hs (fun w hw => ?_) hunder (hview ▸ hunder) h.fresh, ?_⟩
    · rw [h.pending] at hw
      exact absurd hw List.not_mem_nil
    · obtain ⟨-, d, hd', -, hacc⟩ := hload
      have hnow : accountOf s.committed u = some v.account := by
        unfold accountOf
        rw [hlook]
        rfl
      have hrole : v.role = l.role := hi.role hd' hacc hnow
      rw [hrole, hu.role]
  · obtain rfl : old = .user l := by
      rw [lookup_of_under h.now] at hlook
      exact (Option.some.inj hlook).symm
    refine .inr ⟨before, .replaceUser hl.userID hu.userID hs h.only h.before h.now h.fresh, ?_⟩
    rw [hrole, hl.role, hu.role]

theorem linear_flush {u : UUID} {loaded l user : User} (hl : Entity u loaded l)
    (hu : Entity u loaded user) :
    (plays calls).Triple p (fun σ => Wrote p u loaded l σ.store ∧ Loaded u loaded σ.store)
      (flush l user) (fun _ σ => Wrote p u loaded user σ.store ∧ Loaded u loaded σ.store)
      fun e σ => Refuses inv p e σ.store := by
  unfold flush
  split
  · rename_i e
    subst e
    exact .pure (Wrote.stable.and Loaded.stable) fun _ _ h => h
  · refine linear_sql (Wrote.stable.and Loaded.stable) (fun _ => Wrote.stable.and Loaded.stable)
      fun σ c a t hi h hs => ?_
    have hquiet := (stmt_moves hs).quiet
    rcases updating_cases hs with ⟨old, -, hlook, hrep⟩ | ⟨e, he, -⟩
    · exact ⟨wellLocked_replace hi.locked hrep,
        h.1.update h.2 hi.holds.1 hi.holds.2 hl hu hlook hrep, h.2.quiet hquiet⟩
    · cases he

/-- a phone that is not the one of the entity is somebody else's -/
theorem Wrote.phoneTaken {u : UUID} {loaded user : User} {n : String}
    (h : Wrote p u loaded user s) (hd : s.committed.Unique) (hn : n ≠ user.phoneNumber)
    (hs : ((s.view p).lookup (.phone n)).isSome = true) :
    PhoneTaken n (onRegistry s.committed) := by
  obtain ⟨r, hmem, hk⟩ := row_of_isSome hs
  rcases h with ⟨h, -⟩ | ⟨old, h, -⟩
  · rw [view_of_pending h.pending] at hmem
    exact Accounts.phoneTaken hd hmem hk
  · obtain ⟨w, rfl, hw⟩ := phone_key hk
    have hne : Key.user w.userID ≠ .user u := by
      intro e
      have hunder : Row.user w ∈ (s.view p).under (.user u) :=
        mem_under.mpr ⟨hmem, e ▸ user_mem_keys w⟩
      rw [h.now, List.mem_singleton] at hunder
      exact hn (hw.symm.trans (congrArg User.phoneNumber (Row.user.inj hunder)))
    exact Accounts.phoneTaken hd (h.row_committed hmem (user_mem_keys w) rfl hne) hk

theorem linear_setEmail {u : UUID} {loaded : User} {email : Option String}
    (hr : ∀ b e, email = some e → EmailTaken e b → inv.Refused (.emailAlreadyExists e) b) :
    (plays calls).Triple p (fun σ => Idle p σ.store ∧ Loaded u loaded σ.store)
      (setEmail loaded email)
      (fun user σ => (Idle p σ.store ∧ Loaded u loaded σ.store) ∧ Entity u loaded user ∧
        user.email = email.getD loaded.email ∧ user.phoneNumber = loaded.phoneNumber)
      fun e σ => Refuses inv p e σ.store := by
  have hstable : (plays calls).Stable p fun σ => Idle p σ.store ∧ Loaded u loaded σ.store :=
    Idle.stable.and Loaded.stable
  cases email with
  | none => exact .pure hstable fun σ _ h => ⟨h, ⟨h.2.1, rfl⟩, rfl, rfl⟩
  | some e =>
    simp only [setEmail]
    split
    · rename_i heq
      exact .pure hstable fun σ _ h => ⟨h, ⟨h.2.1, rfl⟩, heq.symm, rfl⟩
    · refine .bind (linear_exists (q := .existsByEmail e) (f := fun b : Bool => b)
        (e := .emailAlreadyExists e) hstable fun σ c b t hi h hs => ?_)
        fun _ => .bind (linear_refuseIf hstable) fun _ => .pure hstable fun σ _ h =>
          ⟨h, ⟨h.2.1, rfl⟩, rfl, rfl⟩
      cases hs
      refine ⟨rfl, fun hb => ?_⟩
      obtain ⟨r, hmem, hk⟩ := row_of_isSome hb
      rw [view_of_pending h.1.pending] at hmem
      exact .now hi.holds.2 h.1.fresh (hr _ e rfl (emailTaken hi.holds.1 hmem hk))

theorem linear_setPhoneNumber {u : UUID} {loaded user : User} {phone : Option String}
    (hu : Entity u loaded user)
    (hr : ∀ b n, phone = some n → PhoneTaken n b → inv.Refused (.phoneAlreadyExists n) b) :
    (plays calls).Triple p (fun σ => Idle p σ.store ∧ Loaded u loaded σ.store)
      (setPhoneNumber loaded user phone)
      (fun r σ => (Wrote p u loaded r.1 σ.store ∧ Loaded u loaded σ.store) ∧
        Entity u loaded r.1 ∧ Entity u loaded r.2 ∧ r.2.email = user.email ∧
          r.2.phoneNumber = phone.getD user.phoneNumber)
      fun e σ => Refuses inv p e σ.store := by
  have hstart : (plays calls).Stable p fun σ => Idle p σ.store ∧ Loaded u loaded σ.store :=
    Idle.stable.and Loaded.stable
  have hstable : (plays calls).Stable p
      fun σ => Wrote p u loaded user σ.store ∧ Loaded u loaded σ.store :=
    Wrote.stable.and Loaded.stable
  cases phone with
  | none =>
    exact .pure hstart fun σ _ h => ⟨⟨.inl ⟨h.1, rfl⟩, h.2⟩, ⟨h.2.1, rfl⟩, hu, rfl, rfl⟩
  | some n =>
    simp only [setPhoneNumber]
    split
    · rename_i heq
      exact .pure hstart fun σ _ h =>
        ⟨⟨.inl ⟨h.1, rfl⟩, h.2⟩, ⟨h.2.1, rfl⟩, hu, rfl, heq.symm⟩
    · rename_i hne
      refine .bind (B := fun _ σ => Wrote p u loaded user σ.store ∧ Loaded u loaded σ.store)
        (.pre (.fact fun hl => linear_flush hl hu)
          fun σ h => ⟨⟨.inl ⟨h.1, rfl⟩, h.2⟩, h.2.1, rfl⟩) fun _ => ?_
      refine .bind (linear_exists (q := .existsByPhoneNumber n) (f := fun b : Bool => b)
        (e := .phoneAlreadyExists n) hstable fun σ c b t hi h hs => ?_)
        fun _ => .bind (linear_refuseIf hstable) fun _ => .pure hstable fun σ _ h =>
          ⟨h, hu, ⟨hu.userID, hu.role⟩, rfl, rfl⟩
      cases hs
      refine ⟨rfl, fun hb => ?_⟩
      exact .now hi.holds.2 h.1.fresh (hr _ n rfl (h.1.phoneTaken hi.holds.1 hne hb))

/-- what an update may commit: nothing, or a change of address -/
theorem Wrote.plays {u : UUID} {loaded user : User} (h : Wrote p u loaded user s)
    (hu : user.userID = u) (hi : Plays calls s.committed s.log) (hidle : (calls p).May .idle)
    (hmoved : (calls p).May (.moved u user.email user.phoneNumber)) (hv : (s.view p).Unique) :
    Plays calls (s.view p) (⟨p, s.committed, s.view p⟩ :: s.log) := by
  subst hu
  rcases h with ⟨h, -⟩ | ⟨old, h, hrole⟩
  · exact h.plays hi hidle
  · obtain ⟨hallow, happly⟩ := h.moved hrole hv
    exact hi.commit h.fresh ⟨.moved user.userID user.email user.phoneNumber, hmoved, hallow, happly⟩

theorem linear_updateCurrentUser {u : UUID} {r : UpdateUserRequest}
    (hinv : calls p = .updateCurrentUser u r) :
    (plays calls).Triple p (fun σ => Idle p σ.store) (updateCurrentUser u r)
      (fun a σ => Shown (calls p) p (.user a) σ.store.log)
      fun e σ => Refuses (calls p) p e σ.store := by
  refine linear_inTx (M := fun a σ => ∃ loaded user : User,
      (Wrote p u loaded user σ.store ∧ Loaded u loaded σ.store) ∧ Entity u loaded user ∧
        user.email = r.email.getD loaded.email ∧
        user.phoneNumber = r.phoneNumber.getD loaded.phoneNumber ∧ a = toResponse user)
    (.bind (linear_findById fun b hb => ?_) fun a => ?_) fun a σ hi h => ?_
  · rw [hinv]
    exact .inl ⟨rfl, hb⟩
  · cases a with
    | none => exact .throw (Found.stable none) fun _ _ h => h
    | some loaded =>
      refine .bind (linear_setEmail fun b e he ht => ?_) fun user => .fact fun hu =>
        .bind (linear_setPhoneNumber hu.1 fun b n hn ht => ?_) fun x => .fact fun hx =>
        .bind (linear_flush hx.1 hx.2.1) fun _ =>
        .pure (Wrote.stable.and Loaded.stable) fun σ _ h =>
          ⟨loaded, x.2, h, hx.2.1, hx.2.2.1.trans hu.2.1, ?_, rfl⟩
      · rw [hinv]
        exact .inr (.inl ⟨e, he, rfl, ht⟩)
      · rw [hinv]
        exact .inr (.inr ⟨n, hn, rfl, ht⟩)
      · rw [hx.2.2.2, hu.2.2]
  · obtain ⟨loaded, user, ⟨hw, hload⟩, hu, hemail, hphone, rfl⟩ := h
    obtain ⟨-, d, hd, hrow, hacc⟩ := hload
    have hfit : (calls p).Fits (.user (toResponse user)) (onRegistry d) := by
      rw [hinv]
      exact ⟨hu.userID, loaded.account, hacc, hemail, hphone⟩
    have hcreates : (calls p).creates = false := by
      rw [hinv]
      rfl
    refine ⟨fun hv => hw.plays hu.userID hi.holds.2 ?_ ?_ hv, ?_⟩
    · rw [hinv]
      exact .inl rfl
    · rw [hinv]
      refine .inr ⟨_, _, rfl, fun e he => ?_, fun n hn => ?_⟩
      · rw [hemail, he]
        rfl
      · rw [hphone, hn]
        rfl
    · rcases hw with ⟨-, rfl⟩ | ⟨old, h, -⟩
      · exact (shown_moment hfit hcreates hd ⟨user, hrow, rfl⟩).later _
      · refine shown_commit hd hfit ⟨user, h.mem, rfl⟩ fun hc => ?_
        cases hcreates.symm.trans hc

theorem linear_seedAdminUser {e n : String} {password : Option String}
    (hinv : calls p = .seedAdminUser e password n) :
    (plays calls).Triple p (fun σ => Idle p σ.store) (seedAdminUser e password n)
      (fun _ σ => Shown (calls p) p .done σ.store.log) fun e σ => Refuses (calls p) p e σ.store := by
  have hfit : ∀ b, (calls p).Fits .done b := by
    rw [hinv]
    exact fun _ => trivial
  have hcreates : (calls p).creates = false := by
    rw [hinv]
    rfl
  have hdone : (plays calls).Triple p (fun σ => Idle p σ.store) (pure () : Op Unit)
      (fun _ σ => Shown (calls p) p .done σ.store.log) fun e σ => Refuses (calls p) p e σ.store :=
    .pure Idle.stable fun σ hi _ => shown_moment (hfit _) hcreates hi.holds.2.chained.moment trivial
  cases password with
  | none => exact hdone
  | some password =>
    refine .bind (B := fun (_ : Bool) σ => Idle p σ.store) (linear_sql (q := .existsByEmail e)
      Idle.stable (fun _ => Idle.stable) fun σ c b t hi h hs => ?_) fun b => ?_
    · cases hs
      exact ⟨hi.locked, h⟩
    · cases b with
      | true => exact hdone
      | false =>
        refine .bind (linear_encode Idle.stable) fun hash => linear_inTx (f := fun _ => .done)
          (M := fun _ σ => ∃ u : User, At p (.user u.userID) [] [.user u] σ.store ∧
            u.account = ⟨e, n, .ADMIN⟩)
          (.bind linear_insertUser fun u => .fact fun hu =>
            .pure At.stable fun σ _ h => ⟨u, h, ?_⟩) fun _ σ hi h => ?_
        · rw [hu]
          rfl
        · obtain ⟨u, h, hacc⟩ := h
          refine ⟨fun hv => ?_, shown_commit hi.holds.2.chained.moment (hfit _) trivial fun _ => trivial⟩
          obtain ⟨hallow, happly⟩ := h.enrolled hv
          refine hi.holds.2.commit h.fresh ⟨.enrolled u.userID u.account, ?_, hallow, happly⟩
          show (calls p).May _
          rw [hinv, hacc]
          exact ⟨u.userID, rfl⟩

/-! ## customer-service and seller-service -/

/-- `u` had the role at some moment -/
def HadRole (u : UUID) (role : Role) (s : St P) : Prop :=
  ∃ d, Moment Rows.empty s.log d ∧ ∃ a, accountOf d u = some a ∧ a.role = role

theorem HadRole.stable {u : UUID} {role : Role} :
    (plays calls).Stable p fun σ => HadRole u role σ.store := by
  intro σ τ hr hi h
  obtain ⟨d, hd, ha⟩ := h
  exact ⟨d, hd.seen hr.seen, ha⟩

/-- what was a role once is a role now -/
theorem HadRole.now {u : UUID} {role : Role} (h : HadRole u role s)
    (hi : Plays calls s.committed s.log) :
    ∃ a, accountOf s.committed u = some a ∧ a.role = role := by
  obtain ⟨d, hd, a, ha, hr⟩ := h
  obtain ⟨a', ha', hr'⟩ := (hi.grows hd).accounts u a ha
  exact ⟨a', ha', hr'.trans hr⟩

theorem linear_verifyRole {k : Kind} {u : UUID}
    (hr : ∀ (b : Members) a, b.accounts u = some a → a.role ≠ k.role →
      inv.Refused (.invalidUserRole k) b) :
    (plays calls).Triple p (fun σ => Idle p σ.store) (verifyRole k u)
      (fun _ σ => Idle p σ.store ∧ HadRole u k.role σ.store)
      fun e σ => Refuses inv p e σ.store := by
  have hstable : ∀ a : Except PgErr (Option Role), (plays calls).Stable p
      fun σ => Idle p σ.store ∧ ∀ role, a = .ok (some role) → HadRole u role σ.store :=
    fun a => Idle.stable.and (.all fun _ => .all fun _ => HadRole.stable)
  refine .bind (Terms.Triple.query (q := Stmt.getUser u)
    (Φ := fun a σ => Idle p σ.store ∧ ∀ role, a = .ok (some role) → HadRole u role σ.store)
    Idle.stable hstable (fun σ c a t hi h hs => ?_) fun σ hi h => ⟨h, fun role e => ?_⟩) fun a => ?_
  · cases hs
    refine ⟨hi.locked, hi.holds, h, fun role e => ?_⟩
    obtain ⟨user, huser, hrole⟩ := Option.map_eq_some_iff.mp (Except.ok.inj e)
    exact ⟨_, hi.holds.2.chained.moment, user.account, congrArg (Option.map _) huser, hrole⟩
  · cases e
  · cases a with
    | error e => exact .throw (hstable _) fun _ _ _ => .inl rfl
    | ok found =>
      cases found with
      | none => exact .throw (hstable _) fun _ _ _ => .inl rfl
      | some role =>
        show (plays calls).Triple p _ (refuseIf (role ≠ k.role) (.invalidUserRole k)) _ _
        unfold refuseIf
        split
        · rename_i hne
          refine .throw (hstable _) fun σ hi h => ?_
          obtain ⟨d, hd, a, ha, rfl⟩ := h.2 role rfl
          exact .inr ⟨h.1.fresh, d, hd, hr _ a ha (by simpa using hne)⟩
        · rename_i heq
          refine .pure (hstable _) fun σ _ h => ⟨h.1, ?_⟩
          have heq : role = k.role := by simpa using heq
          exact heq ▸ h.2 role rfl

theorem hasProfile {d : Db} (hd : d.Unique) {k : Kind} {u : UUID} {r : Row} (hr : r ∈ d.rows)
    (hk : Key.owner k u ∈ keys r) : HasProfile k u (onRegistry d) := by
  obtain ⟨f, rfl, rfl, rfl⟩ := owner_key hk
  exact ⟨f.profileID, profileOf_row hd hr⟩

/-- a new profile, of one who had the role when auth-service was asked -/
theorem linear_openProfile {u : UUID} {verify : Op Unit} {entity : Profile}
    (hu : entity.userID = u)
    (hmay : ∀ i, (calls p).May (.opened entity.kind i u))
    (hfit : ∀ i b, (calls p).Fits (.profile (entity.withID i)) b)
    (hhas : ∀ b, HasProfile entity.kind u b → (calls p).Refused (.profileAlreadyExists entity.kind) b)
    (hverify : (plays calls).Triple p (fun σ => Idle p σ.store) verify
      (fun _ σ => Idle p σ.store ∧ HadRole u entity.kind.role σ.store)
      fun e σ => Refuses (calls p) p e σ.store) :
    (plays calls).Triple p (fun σ => Idle p σ.store) (openProfile u verify entity)
      (fun a σ => Shown (calls p) p (.profile a) σ.store.log)
      fun e σ => Refuses (calls p) p e σ.store := by
  refine linear_inTx (M := fun f σ => At p (.profile f.kind f.profileID) [] [.profile f] σ.store ∧
      HadRole u entity.kind.role σ.store ∧ f = entity.withID f.profileID)
    (.bind (linear_exists (q := .existsByUserID entity.kind u) (f := fun b : Bool => b)
      (e := .profileAlreadyExists entity.kind) Idle.stable fun σ c b t hi h hs => ?_) fun _ =>
      .bind (linear_refuseIf Idle.stable) fun _ => .bind hverify fun _ =>
      linear_insertProfile HadRole.stable fun σ t hq h => ?_) fun f σ hi h => ?_
  · cases hs
    refine ⟨rfl, fun hb => ?_⟩
    obtain ⟨r, hmem, hk⟩ := row_of_isSome hb
    rw [view_of_pending h.pending] at hmem
    exact .now hi.holds.2 h.fresh (hhas _ (hasProfile hi.holds.1 hmem hk))
  · obtain ⟨d, hd, ha⟩ := h
    exact ⟨d, hq.log.symm ▸ hd, ha⟩
  · obtain ⟨hat, hrole, hf⟩ := h
    have hkind : f.kind = entity.kind := by rw [hf, Profile.kind_withID]
    have huser : f.userID = u := by rw [hf, Profile.userID_withID, hu]
    refine ⟨fun hv => ?_, shown_commit hi.holds.2.chained.moment (hf ▸ hfit f.profileID _) hat.mem
      fun _ => hat.newProfile⟩
    have hnow : ∃ a, accountOf σ.store.committed f.userID = some a ∧ a.role = f.kind.role := by
      rw [huser, hkind]
      exact hrole.now hi.holds.2
    obtain ⟨hallow, happly⟩ := hat.opened hnow hv
    refine hi.holds.2.commit hat.fresh ⟨.opened f.kind f.profileID f.userID, ?_, hallow, happly⟩
    rw [hkind, huser]
    exact hmay f.profileID

/-- a profile of `u` that was loaded at some moment -/
def LoadedProfile (k : Kind) (u : UUID) (f : Profile) (s : St P) : Prop :=
  f.kind = k ∧ f.userID = u ∧ ∃ d, Moment Rows.empty s.log d ∧ Row.profile f ∈ d.rows ∧
    profileOf d k f.profileID = some u

theorem LoadedProfile.stable {k : Kind} {u : UUID} {f : Profile} :
    (plays calls).Stable p fun σ => LoadedProfile k u f σ.store := by
  intro σ τ hr hi h
  obtain ⟨hk, hu, d, hd, hrow⟩ := h
  exact ⟨hk, hu, d, hd.seen hr.seen, hrow⟩

/-- it belongs to `u` now -/
theorem LoadedProfile.now {k : Kind} {u : UUID} {f : Profile} (h : LoadedProfile k u f s)
    (hi : Plays calls s.committed s.log) : profileOf s.committed k f.profileID = some u := by
  obtain ⟨-, -, d, hd, -, hown⟩ := h
  exact (hi.grows hd).profiles k _ u hown

def FoundProfile (inv : Invocation) (p : P) (k : Kind) (u : UUID) : Option Profile → St P → Prop
  | none, s => Refuses inv p (.profileNotFound k u) s
  | some f, s => Idle p s ∧ LoadedProfile k u f s

theorem FoundProfile.stable {k : Kind} {u : UUID} (a : Option Profile) :
    (plays calls).Stable p fun σ => FoundProfile inv p k u a σ.store := by
  cases a with
  | none => exact Refuses.stable _
  | some f => exact Idle.stable.and LoadedProfile.stable

theorem linear_findByUserID {k : Kind} {u : UUID}
    (hr : ∀ b : Members, ¬HasProfile k u b → inv.Refused (.profileNotFound k u) b) :
    (plays calls).Triple p (fun σ => Idle p σ.store) (sql (.findByUserID k u))
      (fun a σ => FoundProfile inv p k u a σ.store) fun e σ => Refuses inv p e σ.store := by
  refine linear_sql Idle.stable FoundProfile.stable fun σ c a t hi h hs => ?_
  have ha : (σ.store.view p |>.lookup (.owner k u)).bind Row.profile? = a := by
    cases hs
    rfl
  have ht : t = σ.store := by
    cases hs
    rfl
  subst ht
  rw [view_of_pending h.pending] at ha
  refine ⟨hi.locked, ?_⟩
  cases a with
  | none =>
    refine .now hi.holds.2 h.fresh (hr _ fun hhas => ?_)
    obtain ⟨i, hown⟩ := hhas
    obtain ⟨f, hf, hk, -, hu⟩ := profileOf_some hown
    have hmem : Row.profile f ∈ σ.store.committed.under (.owner k u) :=
      mem_under.mpr ⟨hf, by simp [keys, Row.keys, hk, hu]⟩
    rw [hi.holds.1.lookup hmem] at ha
    cases ha
  | some f =>
    obtain ⟨r, hlook, hrow⟩ := Option.bind_eq_some_iff.mp ha
    obtain ⟨hmem, hk⟩ := mem_under.mp (mem_of_lookup hlook)
    obtain ⟨g, rfl, rfl, rfl⟩ := owner_key hk
    cases hrow
    exact ⟨h, rfl, rfl, _, hi.holds.2.chained.moment, hmem, profileOf_row hi.holds.1 hmem⟩

/-- what an update has left: nothing, and the profile is as it was loaded, or its row -/
def WroteProfile (p : P) (loaded f : Profile) (s : St P) : Prop :=
  (Idle p s ∧ f = loaded) ∨ ∃ x, At p (.profile f.kind f.profileID) x [.profile f] s

theorem WroteProfile.stable {loaded f : Profile} :
    (plays calls).Stable p fun σ => WroteProfile p loaded f σ.store :=
  fun σ τ hr hi h => h.imp (fun h => ⟨Idle.stable σ τ hr hi h.1, h.2⟩)
    fun ⟨x, h⟩ => ⟨x, At.stable σ τ hr hi h⟩

theorem set_profile {entity old : Profile} (hk : old.kind = entity.kind)
    (hu : old.userID = entity.userID) : entity.set (.profile old) = .profile entity := by
  cases entity with
  | customer c =>
    cases old with
    | customer o => rfl
    | seller o => cases hk
  | seller s =>
    cases old with
    | customer o => cases hk
    | seller o =>
      have hu : o.userID = s.userID := hu
      show Row.profile (.seller { s with userID := o.userID }) = _
      rw [hu]

/-- a request that assigns to a profile leaves it to its owner, under its id -/
structure Assigns (assign : Profile → Profile) : Prop where
  kind : ∀ f, (assign f).kind = f.kind
  profileID : ∀ f, (assign f).profileID = f.profileID
  userID : ∀ f, (assign f).userID = f.userID

theorem UpdateCustomerRequest.assigns (r : UpdateCustomerRequest) : Assigns r.assign := by
  refine ⟨fun f => ?_, fun f => ?_, fun f => ?_⟩ <;> cases f <;> rfl

theorem SellerUpdateRequest.assigns (r : SellerUpdateRequest) : Assigns r.assign := by
  refine ⟨fun f => ?_, fun f => ?_, fun f => ?_⟩ <;> cases f <;> rfl

theorem linear_assigning {k : Kind} {u : UUID} {assign : Profile → Profile} {f : Profile}
    (ha : Assigns assign) :
    (plays calls).Triple p (fun σ => Idle p σ.store ∧ LoadedProfile k u f σ.store)
      (assigning assign f)
      (fun g σ => (WroteProfile p f g σ.store ∧ LoadedProfile k u f σ.store) ∧ g = assign f)
      fun e σ => Refuses inv p e σ.store := by
  have hstart : (plays calls).Stable p fun σ => Idle p σ.store ∧ LoadedProfile k u f σ.store :=
    Idle.stable.and LoadedProfile.stable
  have hstable : (plays calls).Stable p
      fun σ => WroteProfile p f (assign f) σ.store ∧ LoadedProfile k u f σ.store :=
    WroteProfile.stable.and LoadedProfile.stable
  refine .bind (B := fun _ σ => WroteProfile p f (assign f) σ.store ∧ LoadedProfile k u f σ.store)
    ?_ fun _ => .pure hstable fun _ _ h => ⟨h, rfl⟩
  unfold flushProfile
  split
  · rename_i heq
    exact .pure hstart fun σ _ h => ⟨.inl ⟨h.1, heq⟩, h.2⟩
  · refine linear_sql hstart (fun _ => hstable) fun σ c a t hi h hs => ?_
    have hquiet := (stmt_moves hs).quiet
    rcases updating_cases hs with ⟨old, -, hlook, hrep⟩ | ⟨e, he, -⟩
    swap
    · cases he
    obtain ⟨hidle, hload⟩ := h
    have hnow := hload.now hi.holds.2
    obtain ⟨hkind, huser, d, hd, hrow⟩ := hload
    have hview := view_of_pending hidle.pending
    rw [hview] at hlook
    have hunder := hi.holds.1.under (mem_of_lookup hlook)
    obtain ⟨o, rfl, hok, hoi⟩ := profile_key (mem_under.mp (mem_of_lookup hlook)).2
    have hou : o.userID = u := by
      have hlook' : profileOf σ.store.committed k f.profileID = some o.userID := by
        rw [ha.kind, ha.profileID, hkind] at hlook
        unfold profileOf
        rw [hlook]
        rfl
      exact Option.some.inj (hlook'.symm.trans hnow)
    have hset : (assign f).set (.profile o) = .profile (assign f) :=
      set_profile hok (by rw [hou, ha.userID, huser])
    rw [hset] at hrep
    refine ⟨wellLocked_replace hi.locked hrep, .inr ⟨_, At.replace hrep (profile_mem_keys _)
      (fun l hl hp => ?_) (fun l hl hp => primary_profile hl hp) (fun w hw => ?_) hunder
      (hview ▸ hunder) hidle.fresh⟩, hkind, huser, d, hquiet.log.symm ▸ hd, hrow⟩
    · rw [primary_profile hl hp, hok, hoi]
    · rw [hidle.pending] at hw
      exact absurd hw List.not_mem_nil

/-- what belongs to its owner may be written, and is nothing that happens -/
theorem WroteProfile.plays {k : Kind} {u : UUID} {loaded f : Profile}
    (h : WroteProfile p loaded f s) (hload : LoadedProfile k u loaded s)
    (hkind : f.kind = loaded.kind) (hid : f.profileID = loaded.profileID)
    (huser : f.userID = loaded.userID) (hi : Plays calls s.committed s.log)
    (hidle : (calls p).May .idle) :
    Plays calls (s.view p) (⟨p, s.committed, s.view p⟩ :: s.log) := by
  rcases h with ⟨h, -⟩ | ⟨x, h⟩
  · exact h.plays hi hidle
  · refine hi.commit h.fresh ⟨.idle, hidle, trivial, h.kept ?_⟩
    rw [hkind, hid, huser, hload.1, hload.2.1]
    exact hload.now hi

theorem linear_withProfile {k : Kind} {u : UUID} {body : Profile → Op Profile}
    {g : Profile → Profile} (hg : Assigns g) (hidle : (calls p).May .idle)
    (hcreates : (calls p).creates = false)
    (hfit : ∀ f : Profile, f.kind = k → f.userID = u → ∀ b, (calls p).Fits (.profile (g f)) b)
    (hnone : ∀ b : Members, ¬HasProfile k u b → (calls p).Refused (.profileNotFound k u) b)
    (hbody : ∀ f, (plays calls).Triple p
      (fun σ => Idle p σ.store ∧ LoadedProfile k u f σ.store) (body f)
      (fun a σ => (WroteProfile p f a σ.store ∧ LoadedProfile k u f σ.store) ∧ a = g f)
      fun e σ => Refuses (calls p) p e σ.store) :
    (plays calls).Triple p (fun σ => Idle p σ.store) (withProfile k u body)
      (fun a σ => Shown (calls p) p (.profile a) σ.store.log)
      fun e σ => Refuses (calls p) p e σ.store := by
  refine linear_inTx (M := fun a σ => ∃ f, (WroteProfile p f a σ.store ∧
      LoadedProfile k u f σ.store) ∧ a = g f)
    (.bind (linear_findByUserID hnone) fun a => ?_) fun a σ hi h => ?_
  · cases a with
    | none => exact .throw (FoundProfile.stable none) fun _ _ h => h
    | some f => exact (hbody f).weaken (fun _ h => h) (fun a σ _ h => ⟨f, h⟩) fun _ _ _ h => h
  · obtain ⟨f, ⟨hw, hload⟩, rfl⟩ := h
    have hshow := hfit f hload.1 hload.2.1
    refine ⟨fun _ => hw.plays hload (hg.kind f) (hg.profileID f) (hg.userID f) hi.holds.2 hidle, ?_⟩
    rcases hw with ⟨-, heq⟩ | ⟨x, h⟩
    · obtain ⟨-, -, d, hd, hrow, -⟩ := hload
      refine (shown_moment (hshow _) hcreates hd ?_).later _
      show Row.profile (g f) ∈ d.rows
      rw [heq]
      exact hrow
    · refine shown_commit hi.holds.2.chained.moment (hshow _) h.mem fun hc => ?_
      cases hcreates.symm.trans hc

theorem linear_getProfile {k : Kind} {u : UUID} (hidle : (calls p).May .idle)
    (hcreates : (calls p).creates = false)
    (hfit : ∀ f : Profile, f.kind = k → f.userID = u → ∀ b, (calls p).Fits (.profile f) b)
    (hnone : ∀ b : Members, ¬HasProfile k u b → (calls p).Refused (.profileNotFound k u) b) :
    (plays calls).Triple p (fun σ => Idle p σ.store) (withProfile k u pure)
      (fun a σ => Shown (calls p) p (.profile a) σ.store.log)
      fun e σ => Refuses (calls p) p e σ.store :=
  linear_withProfile (g := id) ⟨fun _ => rfl, fun _ => rfl, fun _ => rfl⟩ hidle hcreates hfit hnone fun _ =>
    .pure (Idle.stable.and LoadedProfile.stable) fun _ _ h => ⟨⟨.inl ⟨h.1, rfl⟩, h.2⟩, rfl⟩

theorem assign_customer_idem (r : UpdateCustomerRequest) (f : Profile) :
    r.assign (r.assign f) = r.assign f := by
  cases f with
  | seller s => rfl
  | customer c =>
    unfold UpdateCustomerRequest.assign
    cases r.firstName <;> cases r.lastName <;> rfl

theorem assign_seller_idem (r : SellerUpdateRequest) (f : Profile) :
    r.assign (r.assign f) = r.assign f := by
  cases f with
  | customer c => rfl
  | seller s =>
    unfold SellerUpdateRequest.assign
    cases r.storeName <;> cases r.description <;> cases r.city <;> cases r.address <;> rfl

/-- **what any call does** -/
theorem linear_op {inv : Invocation} (hc : calls p = inv) :
    (plays calls).Triple p (fun σ => Idle p σ.store) inv.op
      (fun a σ => Shown (calls p) p a σ.store.log) fun e σ => Refuses (calls p) p e σ.store := by
  have answered : ∀ {α : Type} {f : α → Answer} {op : Op α},
      (plays calls).Triple p (fun σ => Idle p σ.store) op
        (fun a σ => Shown (calls p) p (f a) σ.store.log) (fun e σ => Refuses (calls p) p e σ.store) →
      (plays calls).Triple p (fun σ => Idle p σ.store) (answering f op)
        (fun a σ => Shown (calls p) p a σ.store.log) fun e σ => Refuses (calls p) p e σ.store :=
    fun h => .bind h fun a => .pure (Shown.stable _) fun _ _ h => h
  cases inv with
  | registerCustomer r =>
    refine answered (linear_register (fun u => ?_) (fun u b => ?_) (fun b hb => ?_) fun b hb => ?_)
    · rw [hc]
      exact ⟨u, rfl⟩
    · rw [hc]
      exact ⟨rfl, rfl, rfl, rfl⟩
    · rw [hc]
      exact .inl ⟨rfl, hb⟩
    · rw [hc]
      exact .inr ⟨rfl, hb⟩
  | registerSeller r =>
    refine answered (linear_register (fun u => ?_) (fun u b => ?_) (fun b hb => ?_) fun b hb => ?_)
    · rw [hc]
      exact ⟨u, rfl⟩
    · rw [hc]
      exact ⟨rfl, rfl, rfl, rfl⟩
    · rw [hc]
      exact .inl ⟨rfl, hb⟩
    · rw [hc]
      exact .inr ⟨rfl, hb⟩
  | getCurrentUser u => exact answered (linear_getCurrentUser hc)
  | updateCurrentUser u r => exact answered (linear_updateCurrentUser hc)
  | seedAdminUser e password n => exact answered (linear_seedAdminUser hc)
  | createProfile u r =>
    refine answered (linear_openProfile rfl (fun i => ?_) (fun i b => ?_) (fun b hb => ?_)
      (linear_verifyRole fun b a ha hne => ?_))
    · rw [hc]
      exact ⟨i, rfl⟩
    · rw [hc]
      exact ⟨i, rfl⟩
    · rw [hc]
      exact .inl ⟨rfl, hb⟩
    · rw [hc]
      exact .inr ⟨rfl, a, ha, hne⟩
  | createSeller u r =>
    refine answered (linear_openProfile rfl (fun i => ?_) (fun i b => ?_) (fun b hb => ?_)
      (linear_verifyRole fun b a ha hne => ?_))
    · rw [hc]
      exact ⟨i, rfl⟩
    · rw [hc]
      exact ⟨i, rfl⟩
    · rw [hc]
      exact .inl ⟨rfl, hb⟩
    · rw [hc]
      exact .inr ⟨rfl, a, ha, hne⟩
  | getMyProfile u =>
    refine answered (linear_getProfile ?_ ?_ (fun f hk hu b => ?_) fun b hb => ?_)
    · rw [hc]
      rfl
    · rw [hc]
      rfl
    · rw [hc]
      exact ⟨hk, hu⟩
    · rw [hc]
      exact ⟨rfl, hb⟩
  | getSellerByUserID u =>
    refine answered (linear_getProfile ?_ ?_ (fun f hk hu b => ?_) fun b hb => ?_)
    · rw [hc]
      rfl
    · rw [hc]
      rfl
    · rw [hc]
      exact ⟨hk, hu⟩
    · rw [hc]
      exact ⟨rfl, hb⟩
  | updateMyProfile u r =>
    refine answered (linear_withProfile r.assigns ?_ ?_ (fun f hk hu b => ?_) (fun b hb => ?_)
      fun f => linear_assigning r.assigns)
    · rw [hc]
      rfl
    · rw [hc]
      rfl
    · rw [hc]
      exact ⟨(r.assigns.kind f).trans hk, (r.assigns.userID f).trans hu, assign_customer_idem r f⟩
    · rw [hc]
      exact ⟨rfl, hb⟩
  | updateSeller u r =>
    refine answered (linear_withProfile r.assigns ?_ ?_ (fun f hk hu b => ?_) (fun b hb => ?_)
      fun f => linear_assigning r.assigns)
    · rw [hc]
      rfl
    · rw [hc]
      rfl
    · rw [hc]
      exact ⟨(r.assigns.kind f).trans hk, (r.assigns.userID f).trans hu, assign_seller_idem r f⟩
    · rw [hc]
      exact ⟨rfl, hb⟩

/-! ## every run -/

theorem runs_unique {σ : Config P} (h : Runs spec.machine (start calls) σ) :
    Distinct σ.state.store :=
  runs_distinct stmt_moves h distinct_fresh

/-- in every run the commits are events of the registry, and what a call ends in was true -/
theorem runs_plays {σ : Config P} (h : Runs spec.machine (start calls) σ) :
    (σ.state.store.committed.Unique ∧ Plays calls σ.state.store.committed σ.state.store.log) ∧
    ∀ p r, σ.prog p = some (.ret r) →
      Terms.ends (fun a σ => Shown (calls p) p a σ.store.log)
        (fun e σ => Refuses (calls p) p e σ.store) r σ.state := by
  have hknown := Spec.runs_knowing (K := fun d _ => d.Unique)
    (fun υ hυ => (runs_unique hυ).committed) h
  have hinv : (plays calls).Inv (start calls).state :=
    ⟨distinct_fresh.locked, distinct_fresh.committed, .fresh _⟩
  obtain ⟨hi, hp⟩ := (plays calls).contract.runs
    (Q := fun p => Terms.ends (fun a σ => Shown (calls p) p a σ.store.log)
      fun e σ => Refuses (calls p) p e σ.store)
    hknown hinv fun p m hm => by
      obtain rfl := Option.some.inj hm
      exact linear_op rfl _ ⟨rfl, rfl⟩
  exact ⟨hi.holds, fun p r hr => hp p _ hr _ ((plays calls).contract.rely_refl p _) hi⟩

/-- **The three services are one registry.**  Any calls run interleaved, statement by statement.  The
committed rows hold the registry to which the events lead that the commits are, in the order of the
commits: at most one event for each call, of those the call may bring about, and allowed when it
happens.  A call that answers has answered what was asked and what the rows said at some moment, and
what it has created it has committed itself. -/
theorem accounts_linear (calls : P → Invocation) {σ : Config P}
    (h : Runs spec.machine (start calls) σ) :
    (∃ events : List (P × Change),
      events.map Prod.fst = σ.state.store.log.map Commit.tx ∧ (events.map Prod.fst).Nodup ∧
      (∀ x ∈ events, (calls x.1).May x.2) ∧
      History (registry Kind.role) events (onRegistry σ.state.store.committed)) ∧
    ∀ p a, σ.prog p = some (.ret (.ok a)) → Shown (calls p) p a σ.state.store.log := by
  obtain ⟨⟨-, hi⟩, hp⟩ := runs_plays h
  obtain ⟨events, hmap, hb, hm⟩ := hi.history rfl
  exact ⟨⟨events, hmap, hmap ▸ hi.once, hm, hb⟩, fun p a ha => hp p _ ha⟩

/-- **Every refusal was right.**  A call that ends in an error which is no failure has committed
nothing, and at some moment of the run the registry was as the error says. -/
theorem accounts_refused (calls : P → Invocation) {σ : Config P}
    (h : Runs spec.machine (start calls) σ) {p : P} {e : Err}
    (hp : σ.prog p = some (.ret (.error e))) (he : e.isFailure = false) :
    (∀ c ∈ σ.state.store.log, c.tx ≠ p) ∧
    ∃ d, Moment Rows.empty σ.state.store.log d ∧ (calls p).Refused e (onRegistry d) := by
  have hends : Refuses (calls p) p e σ.state.store := (runs_plays h).2 p _ hp
  have hx := hends.resolve_left (by simp [he])
  refine ⟨fun c hc htx => ?_, hx.2⟩
  exact List.filter_eq_nil_iff.mp hx.1 c hc (by simpa using htx)

/-- **What the databases say of one another stays true.**  In every run no two users share an id, an
email or a phone; every profile belongs to a user of its role; and nobody has two profiles, be it
one of each kind. -/
theorem members_sound (calls : P → Invocation) {σ : Config P}
    (h : Runs spec.machine (start calls) σ) :
    (∀ u v : User, Row.user u ∈ σ.state.store.committed.rows →
      Row.user v ∈ σ.state.store.committed.rows →
      u.userID = v.userID ∨ u.email = v.email ∨ u.phoneNumber = v.phoneNumber → u = v) ∧
    (∀ f : Profile, Row.profile f ∈ σ.state.store.committed.rows →
      ∃ u : User, Row.user u ∈ σ.state.store.committed.rows ∧ u.userID = f.userID ∧
        u.role = f.kind.role) ∧
    ∀ f g : Profile, Row.profile f ∈ σ.state.store.committed.rows →
      Row.profile g ∈ σ.state.store.committed.rows → f.userID = g.userID → f = g := by
  obtain ⟨⟨hd, hi⟩, -⟩ := runs_plays h
  obtain ⟨events, -, hb, -⟩ := hi.history rfl
  have hs := history_sound hb
  refine ⟨fun u v hu hv he => ?_, fun f hf => ?_, fun f g hf hg he => ?_⟩
  · have same : ∀ k : Key, k ∈ keys (Row.user u) → k ∈ keys (Row.user v) → u = v :=
      fun k hku hkv => Row.user.inj (hd.eq (mem_under.mpr ⟨hu, hku⟩) (mem_under.mpr ⟨hv, hkv⟩))
    rcases he with e | e | e
    · exact same (.user u.userID) (by simp [keys, Row.keys]) (by simp [keys, Row.keys, e])
    · exact same (.email u.email) (by simp [keys, Row.keys]) (by simp [keys, Row.keys, e])
    · exact same (.phone u.phoneNumber) (by simp [keys, Row.keys]) (by simp [keys, Row.keys, e])
  · obtain ⟨a, ha, hrole⟩ := hs.owned f.kind f.profileID f.userID (profileOf_row hd hf)
    obtain ⟨u, hu, hid, rfl⟩ := accountOf_some ha
    exact ⟨u, hu, hid, hrole⟩
  · have hpf : (onRegistry σ.state.store.committed).profiles f.kind f.profileID = some g.userID :=
      he ▸ profileOf_row hd hf
    obtain ⟨hk, hid⟩ := hs.one_kind Kind.role_injective hpf (profileOf_row hd hg)
    have hkey : Key.profile f.kind f.profileID ∈ keys (Row.profile g) := by
      simp [keys, Row.keys, hk, hid]
    exact Row.profile.inj
      (hd.eq (mem_under.mpr ⟨hf, profile_mem_keys f⟩) (mem_under.mpr ⟨hg, hkey⟩))

/-- the role that a call registers somebody in -/
def Invocation.grants : Invocation → Option Role
  | .registerCustomer _ => some .CUSTOMER
  | .registerSeller _ => some .SELLER
  | .seedAdminUser _ _ _ => some .ADMIN
  | _ => none

theorem grants_of_may {inv : Invocation} {u : UUID} {a : Account String String Role}
    (h : inv.May (.enrolled u a)) : inv.grants = some a.role := by
  cases inv with
  | registerCustomer r =>
    obtain ⟨v, e⟩ := h
    cases e
    rfl
  | registerSeller r =>
    obtain ⟨v, e⟩ := h
    cases e
    rfl
  | seedAdminUser e password n =>
    obtain ⟨v, e⟩ := h
    cases e
    rfl
  | updateCurrentUser v r =>
    rcases h with e | ⟨e, n, h, -⟩
    · cases e
    · cases h
  | createProfile v r =>
    obtain ⟨i, e⟩ := h
    cases e
  | createSeller v r =>
    obtain ⟨i, e⟩ := h
    cases e
  | getCurrentUser v => cases h
  | getMyProfile v => cases h
  | updateMyProfile v r => cases h
  | getSellerByUserID v => cases h
  | updateSeller v r => cases h

theorem moment_unique {σ : Config P} (h : Runs spec.machine (start calls) σ) {d : Db}
    (hd : Moment Rows.empty σ.state.store.log d) : d.Unique := by
  rcases hd with rfl | ⟨c, hc, rfl⟩
  · exact distinct_fresh (P := P).committed
  · obtain ⟨υ, hυ, he⟩ := Spec.runs_after rfl h hc
    rw [← he]
    exact (runs_unique hυ).committed

/-- whoever is registered has been registered by a call, in the role that it grants -/
theorem granted_by {σ : Config P} (h : Runs spec.machine (start calls) σ) {u : User}
    (hu : Row.user u ∈ σ.state.store.committed.rows) :
    ∃ c ∈ σ.state.store.log, (calls c.tx).grants = some u.role := by
  obtain ⟨⟨hunique, hi⟩, -⟩ := runs_plays h
  obtain ⟨events, hmap, hb, hm⟩ := hi.history rfl
  obtain ⟨x, hx, a, hev, hrole⟩ := history_enrolled hb (accountOf_row hunique hu)
  have hmem : x.1 ∈ σ.state.store.log.map Commit.tx := hmap ▸ List.mem_map_of_mem hx
  obtain ⟨c, hc, htx⟩ := List.mem_map.mp hmem
  have hmay := hm x hx
  rw [hev, ← htx] at hmay
  refine ⟨c, hc, (grants_of_may hmay).trans ?_⟩
  rw [hrole]
  rfl

/-- **Roles are granted once.**  The role of a user is the one that a call registers people in which
has committed; only the bootstrap makes an ADMIN.  And a user has had no other role at any moment
before. -/
theorem roles_granted (calls : P → Invocation) {σ : Config P}
    (h : Runs spec.machine (start calls) σ) {u : User}
    (hu : Row.user u ∈ σ.state.store.committed.rows) :
    (∃ c ∈ σ.state.store.log, (calls c.tx).grants = some u.role) ∧
    ∀ d, Moment Rows.empty σ.state.store.log d → ∀ v : User, Row.user v ∈ d.rows →
      v.userID = u.userID → v.role = u.role := by
  obtain ⟨⟨hunique, hi⟩, -⟩ := runs_plays h
  refine ⟨granted_by h hu, fun d hd v hv he => ?_⟩
  have hnow : accountOf σ.state.store.committed v.userID = some u.account :=
    he ▸ accountOf_row hunique hu
  exact (hi.role hd (accountOf_row (moment_unique h hd) hv) hnow).symm

/-- an account keeps its role and a profile its owner -/
theorem grows_step {σ τ : Config P} (h : Runs spec.machine (start calls) σ)
    {a : Act P (Choice Unit)} (hs : spec.machine.step σ a = some τ) :
    Grows (onRegistry σ.state.store.committed) (onRegistry τ.state.store.committed) := by
  refine (runs_plays (h.tail a hs)).1.2.grows ?_
  rcases Spec.step_store hs with ⟨p, -, he⟩ | ⟨he, -⟩
  · rw [he]
    exact (Chained.moment (Spec.chained_runs h (chained_fresh Rows.empty))).later _
  · rw [← he]
    exact Chained.moment (Spec.chained_runs (h.tail a hs) (chained_fresh Rows.empty))

/-- who is registered stays so, in the same role -/
theorem registered_step {σ τ : Config P} (h : Runs spec.machine (start calls) σ)
    {a : Act P (Choice Unit)} (hs : spec.machine.step σ a = some τ) {u : User}
    (hu : Row.user u ∈ σ.state.store.committed.rows) :
    ∃ v : User, Row.user v ∈ τ.state.store.committed.rows ∧ v.userID = u.userID ∧
      v.role = u.role := by
  obtain ⟨b, hb, hrole⟩ := (grows_step h hs).accounts u.userID u.account
    (accountOf_row (runs_unique h).committed hu)
  obtain ⟨v, hv, hid, rfl⟩ := accountOf_some hb
  exact ⟨v, hv, hid, hrole⟩

/-- a profile stays, with its owner -/
theorem profile_step {σ τ : Config P} (h : Runs spec.machine (start calls) σ)
    {a : Act P (Choice Unit)} (hs : spec.machine.step σ a = some τ) {f : Profile}
    (hf : Row.profile f ∈ σ.state.store.committed.rows) :
    ∃ g : Profile, Row.profile g ∈ τ.state.store.committed.rows ∧ g.kind = f.kind ∧
      g.profileID = f.profileID ∧ g.userID = f.userID :=
  profileOf_some ((grows_step h hs).profiles f.kind f.profileID f.userID
    (profileOf_row (runs_unique h).committed hf))

/-- the owner of a profile is registered in the role of its kind -/
theorem owner_registered {σ : Config P} (h : Runs spec.machine (start calls) σ) {f : Profile}
    (hf : Row.profile f ∈ σ.state.store.committed.rows) :
    ∃ u : User, Row.user u ∈ σ.state.store.committed.rows ∧ u.userID = f.userID ∧
      u.role = f.kind.role := by
  obtain ⟨⟨hd, hi⟩, -⟩ := runs_plays h
  obtain ⟨events, -, hb, -⟩ := hi.history rfl
  obtain ⟨a, ha, hrole⟩ :=
    (history_sound hb).owned f.kind f.profileID f.userID (profileOf_row hd hf)
  obtain ⟨u, hu, hid, rfl⟩ := accountOf_some ha
  exact ⟨u, hu, hid, hrole⟩

end

/-! ## the run of the newcomers -/

/-- a hash that shows the password -/
@[reducible] def plainEncoder : PasswordEncoder := ⟨fun password _ => password⟩

/-- two want to register under one email, and the one who can opens a profile -/
def newcomers : Fin 3 → Invocation
  | 0 => .registerCustomer ⟨"ada@example.org", "correct horse", "+4912345"⟩
  | 1 => .registerSeller ⟨"ada@example.org", "battery staple", "+4967890"⟩
  | 2 => .createProfile 50 ⟨"Ada", "Byron"⟩

def newcomersSchedule : List (Act (Fin 3) (Choice Unit)) :=
  let go (p : Fin 3) (i : Nat) : Act (Fin 3) (Choice Unit) := .exec p ⟨.none, i, 0, 0, ()⟩
  [go 0 0, go 0 0, go 0 0, go 0 0, go 0 50, go 0 0, go 2 0, go 2 0, go 2 0, go 2 60, go 2 0,
    go 1 0, go 1 0, go 1 0]

def answeredWith {P : Type} (σ : Config P) (p : P) : Option Answer :=
  match σ.prog p with
  | some (.ret (.ok a)) => some a
  | _ => none

theorem answeredWith_some {P : Type} {σ : Config P} {p : P} {a : Answer}
    (h : answeredWith σ p = some a) : σ.prog p = some (.ret (.ok a)) := by
  unfold answeredWith at h
  split at h
  · rename_i hp
    rw [hp, Option.some.inj h]
  · cases h

def refusedWith {P : Type} (σ : Config P) (p : P) : Option Err :=
  match σ.prog p with
  | some (.ret (.error e)) => some e
  | _ => none

theorem refusedWith_some {P : Type} {σ : Config P} {p : P} {e : Err}
    (h : refusedWith σ p = some e) : σ.prog p = some (.ret (.error e)) := by
  unfold refusedWith at h
  split at h
  · rename_i hp
    rw [hp, Option.some.inj h]
  · cases h

theorem newcomers_run : letI := plainEncoder
    ∃ σ, Runs spec.machine (start newcomers) σ ∧
      σ.state.store.log.map Commit.tx = [2, 0] ∧
      σ.state.store.committed.rows =
        [.user ⟨50, "ada@example.org", "+4912345", "correct horse", .CUSTOMER, .ACTIVE⟩,
          .profile (.customer ⟨60, 50, "Ada", "Byron", .ACTIVE⟩)] ∧
      σ.prog 1 = some (.ret (.error (.emailAlreadyExists "ada@example.org"))) ∧
      σ.prog 2 = some (.ret (.ok (.profile (.customer ⟨60, 50, "Ada", "Byron", .ACTIVE⟩)))) := by
  let : PasswordEncoder := plainEncoder
  obtain ⟨σ, hr, hσ⟩ := Runs.exists_of_run (M := spec.machine) (σ := start newcomers)
    newcomersSchedule (f := fun σ => (σ.state.store.log.map Commit.tx,
      σ.state.store.committed.rows, refusedWith σ 1, answeredWith σ 2))
    (b := ([2, 0],
      [.user ⟨50, "ada@example.org", "+4912345", "correct horse", .CUSTOMER, .ACTIVE⟩,
        .profile (.customer ⟨60, 50, "Ada", "Byron", .ACTIVE⟩)],
      some (.emailAlreadyExists "ada@example.org"),
      some (.profile (.customer ⟨60, 50, "Ada", "Byron", .ACTIVE⟩))))
    (by decide +kernel)
  obtain ⟨hlog, hrest⟩ := Prod.mk.inj hσ
  obtain ⟨hrows, hrest⟩ := Prod.mk.inj hrest
  obtain ⟨h₁, h₂⟩ := Prod.mk.inj hrest
  exact ⟨σ, hr, hlog, hrows, refusedWith_some h₁, answeredWith_some h₂⟩

theorem accounts_linear_newcomers : letI := plainEncoder
    ∃ σ a, Runs spec.machine (start newcomers) σ ∧ σ.prog 2 = some (.ret (.ok a)) ∧
      Shown (newcomers 2) 2 a σ.state.store.log ∧
      ∃ events : List (Fin 3 × Change), events.map Prod.fst = [2, 0] ∧
        History (registry Kind.role) events (onRegistry σ.state.store.committed) := by
  let : PasswordEncoder := plainEncoder
  obtain ⟨σ, hr, hlog, -, -, ha⟩ := newcomers_run
  obtain ⟨⟨events, hmap, -, -, hb⟩, hshown⟩ := accounts_linear newcomers hr
  exact ⟨σ, _, hr, ha, hshown 2 _ ha, events, hmap.trans hlog, hb⟩

theorem accounts_refused_newcomers : letI := plainEncoder
    ∃ σ e, Runs spec.machine (start newcomers) σ ∧ σ.prog 1 = some (.ret (.error e)) ∧
      (∀ c ∈ σ.state.store.log, c.tx ≠ 1) ∧
      ∃ d, Moment Rows.empty σ.state.store.log d ∧ (newcomers 1).Refused e (onRegistry d) := by
  let : PasswordEncoder := plainEncoder
  obtain ⟨σ, hr, -, -, he, -⟩ := newcomers_run
  exact ⟨σ, _, hr, he, accounts_refused newcomers hr he rfl⟩

theorem members_sound_newcomers : letI := plainEncoder
    ∃ σ, Runs spec.machine (start newcomers) σ ∧
      ∃ u : User, Row.user u ∈ σ.state.store.committed.rows ∧ u.userID = 50 ∧
        u.role = .CUSTOMER := by
  let : PasswordEncoder := plainEncoder
  obtain ⟨σ, hr, -, hrows, -, -⟩ := newcomers_run
  refine ⟨σ, hr, (members_sound newcomers hr).2.1 (.customer ⟨60, 50, "Ada", "Byron", .ACTIVE⟩) ?_⟩
  rw [hrows]
  simp

theorem roles_granted_newcomers : letI := plainEncoder
    ∃ σ, Runs spec.machine (start newcomers) σ ∧
      ∃ c ∈ σ.state.store.log, (newcomers c.tx).grants = some .CUSTOMER := by
  let : PasswordEncoder := plainEncoder
  obtain ⟨σ, hr, -, hrows, -, -⟩ := newcomers_run
  refine ⟨σ, hr, (roles_granted newcomers hr
    (u := ⟨50, "ada@example.org", "+4912345", "correct horse", .CUSTOMER, .ACTIVE⟩) ?_).1⟩
  rw [hrows]
  simp

end Marketplace.Accounts
