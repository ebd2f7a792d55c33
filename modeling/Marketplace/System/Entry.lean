import Marketplace.System.Doors

/-!
# Who gets through the doors

Each handler takes for granted of its sender what its access is: a user, a user of one role, another
service.  The routers and filter chains are to see to it.

* `guards_request`, `guarded_auth`, ..   the tables mount the guard of the handler, by a look at them;
* `Guard.Lets`, `Access.Meant`           what is known of the sender behind a guard, and in a handler;
* `serve_entered`    **no request gets to a handler that is not meant for its sender**;
* `serve_bearer`     and a token of a user opens all doors that are meant for the user, and no other.
-/

namespace Marketplace.System.Doors

open Text Routes Marketplace.Auth Verifiers Identity

/-! ## the guards are those of the handlers -/

/-- what a router of Go or Python mounts for a handler -/
def Access.guard : Access → Option Guard
  | .anyone => some .anyone
  | .member => some .requireJWT
  | .only role => some (.requireRole [role.name])
  | .services => some .requireInternalAPIKey
  | .nobody => none

theorem guards_request : ∀ d ∈ requestDoors, d.handler.access.guard = some d.guard := by decide

theorem guards_admin : ∀ d ∈ adminDoors, d.handler.access.guard = some d.guard := by decide

theorem guards_offer : ∀ d ∈ offerDoors, d.handler.access.guard = some d.guard := by decide

theorem guards_notification : ∀ d ∈ notificationDoors, d.handler.access.guard = some d.guard := by
  decide

/-- what a filter chain demands on the path to a handler -/
def Access.demand : Access → Option Demand
  | .anyone => some .permitAll
  | .member => some .authenticated
  | .only _ => none
  | .services => some (.hasAuthority "INTERNAL")
  | .nobody => some (.hasAuthority "INTERNAL")

/-- the chain demands what the access asks for, and the path begins with `internal` only if the handler
is one for services -/
def guarded (m : Mapping) (c : Option Rule) : Bool :=
  m.handler.access.demand == some (demandBy c) &&
    match m.pattern.head? with
    | some (.lit s) => (s == "internal") == (m.handler.access == .services)
    | _ => false

theorem guarded_auth : agreed Mapping.route Rule.route authRules guarded [] authMappings = true := by
  decide

theorem guarded_customer :
    agreed Mapping.route Rule.route customerRules guarded [] customerMappings = true := by
  decide

/-- `/api/sellers/{id}` is open, `/api/sellers/me` is not, and goes first in both tables -/
theorem guarded_seller :
    agreed Mapping.route Rule.route sellerRules guarded [] sellerMappings = true := by
  decide

/-! ## who gets through -/

/-- whom the verifier of a service reads in a header -/
def Service.whoOf (L : Libraries) : Service → List Char → Option (UUID × Json)
  | .auth | .customer | .seller => L.whoJava
  | .request | .admin => L.whoGo
  | .offer | .notification => L.whoPython

/-- the request has the key of the service, and the service has one -/
def Service.hasKey (key : List Char) (r : Request) : Service → Prop
  | .auth | .customer | .seller => hasText key = true ∧ r.internalAPIKey = key
  | .request | .admin => key ≠ [] ∧ r.internalAPIKey = utf8 key
  | .offer | .notification => key ≠ [] ∧ r.internalAPIKey = key

section
variable {L : Libraries} {key : List Char} {r : Request} {who : Option UUID}

/-- what a guard asks of the sender, and whom it puts on the request -/
def Guard.Lets (sender : Option (UUID × Json)) (presented : Prop) (who : Option UUID) : Guard → Prop
  | .anyone => who = none
  | .requireJWT => ∃ u role, sender = some (u, role) ∧ who = some u
  | .requireRole allowed => ∃ u role, sender = some (u, .str role) ∧ role ∈ allowed ∧ who = some u
  | .requireInternalAPIKey => presented ∧ who = none

theorem guardGo_iff (g : Guard) : guardGo L key r g = .ok who ↔
    g.Lets (L.whoGo r.authorization) (key ≠ [] ∧ r.internalAPIKey = utf8 key) who := by
  unfold Libraries.whoGo
  cases g with
  | anyone => simp [guardGo, Guard.Lets, eq_comm]
  | requireJWT =>
    cases h : L.authenticate r.authorization <;> simp [guardGo, Guard.Lets, h, eq_comm]
  | requireRole allowed =>
    cases h : L.authenticate r.authorization with
    | none => simp [guardGo, Guard.Lets, h]
    | some c =>
      by_cases hr : c.role ∈ allowed <;> simp [guardGo, Guard.Lets, h, hr, eq_comm]
  | requireInternalAPIKey =>
    by_cases hk : key = []
    · simp [guardGo, Guard.Lets, hk]
    · by_cases hp : r.internalAPIKey = utf8 key <;> simp [guardGo, Guard.Lets, hk, hp, eq_comm]

theorem roleIn_iff (allowed : List String) (role : Json) :
    roleIn allowed role = .ok () ↔ ∃ s, role = .str s ∧ s ∈ allowed := by
  cases role with
  | str s => by_cases h : s ∈ allowed <;> simp [roleIn, h]
  | _ => simp [roleIn]

theorem guardPython_iff (g : Guard) : guardPython L key r g = .ok who ↔
    g.Lets (L.whoPython r.authorization) (key ≠ [] ∧ r.internalAPIKey = key) who := by
  unfold Libraries.whoPython
  cases g with
  | anyone => simp [guardPython, Guard.Lets, eq_comm]
  | requireJWT =>
    cases h : L.getPrincipal r.authorization <;> simp [guardPython, Guard.Lets, h, eq_comm]
  | requireRole allowed =>
    cases h : L.getPrincipal r.authorization with
    | none => simp [guardPython, Guard.Lets, h]
    | some p =>
      have hrole := roleIn_iff allowed p.role
      cases hin : roleIn allowed p.role with
      | error status =>
        rw [hin] at hrole
        have hno : ∀ x, p.role = .str x → x ∉ allowed := fun x hx hmem =>
          by cases hrole.mpr ⟨x, hx, hmem⟩
        simp only [guardPython, Guard.Lets, h, hin, Except.map, reduceCtorEq, Option.map_some,
          Option.some.injEq, Prod.mk.injEq, false_iff]
        rintro ⟨u, x, ⟨-, hx⟩, hmem, -⟩
        exact hno x hx hmem
      | ok _ =>
        obtain ⟨x, hx, hmem⟩ := hrole.mp hin
        rw [hx] at hin
        simp [guardPython, Guard.Lets, h, hin, Except.map, hx, hmem, eq_comm]
  | requireInternalAPIKey =>
    by_cases hk : key = []
    · simp [guardPython, Guard.Lets, hk]
    · by_cases hp : r.internalAPIKey = key <;> simp [guardPython, Guard.Lets, hk, hp, eq_comm]

/-- what a handler may take for granted of its sender, by its access -/
def Access.Meant (sender : Option (UUID × Json)) (presented : Prop) (who : Option UUID) :
    Access → Prop
  | .anyone => ∀ u, who = some u → ∃ role, sender = some (u, role)
  | .member => ∃ u role, sender = some (u, role) ∧ who = some u
  | .only role => ∃ u, sender = some (u, .str role.name) ∧ who = some u
  | .services => (presented ∧ who = none) ∨ ∃ u, sender = some (u, .str "INTERNAL") ∧ who = some u
  | .nobody => ∃ u, sender = some (u, .str "INTERNAL") ∧ who = some u

variable {sender : Option (UUID × Json)} {presented : Prop}

theorem meant_of_guard {a : Access} {g : Guard} (ha : a.guard = some g)
    (h : g.Lets sender presented who) : a.Meant sender presented who := by
  cases a with
  | anyone =>
    cases ha
    intro u hu
    rw [show who = none from h] at hu
    cases hu
  | member =>
    cases ha
    exact h
  | only role =>
    cases ha
    obtain ⟨u, x, hs, hx, hw⟩ := h
    rw [List.mem_singleton.mp hx] at hs
    exact ⟨u, hs, hw⟩
  | services =>
    cases ha
    exact .inl h
  | nobody => cases ha

theorem internalApiKeyFilter_iff (c : Option Caller) : internalApiKeyFilter key r = .ok c ↔
    if belowInternal r = true then hasText key = true ∧ r.internalAPIKey = key ∧ c = some .internal
    else c = none := by
  unfold internalApiKeyFilter
  by_cases hb : belowInternal r = true
  · by_cases hk : hasText key = true
    · by_cases hp : r.internalAPIKey = key
      · simp [hb, hk, hp, eq_comm]
      · simp [hb, hk, hp]
    · simp [hb, hk]
  · simp [hb, eq_comm]

/-- the security context at the end of the filters -/
def callerOf (L : Libraries) (r : Request) (internal : Option Caller) : Option Caller :=
  ((L.doFilterInternal r.authorization).map Caller.user).or internal

theorem filterChain_iff {rules : List Rule} : filterChain L key r rules = .ok who ↔
    (belowInternal r = true → r.path.head? = some "internal") ∧ ∃ internal,
      internalApiKeyFilter key r = .ok internal ∧
      meets (demandOf rules r) (callerOf L r internal) = .ok () ∧
      who = (callerOf L r internal).bind Caller.userID := by
  unfold filterChain
  by_cases hb : belowInternal r = true ∧ r.path.head? ≠ some "internal"
  · rw [if_pos hb]
    constructor
    · intro h
      cases h
    · rintro ⟨h, -⟩
      exact absurd (h hb.1) hb.2
  · rw [if_neg hb]
    have hpath : belowInternal r = true → r.path.head? = some "internal" := fun h =>
      by_contra fun hne => hb ⟨h, hne⟩
    cases hi : internalApiKeyFilter key r with
    | error status =>
      constructor
      · intro h
        cases h
      · rintro ⟨-, internal, h, -⟩
        cases h
    | ok internal =>
      show (meets (demandOf rules r) (callerOf L r internal) >>= fun _ =>
        pure ((callerOf L r internal).bind Caller.userID)) = Except.ok who ↔ _
      cases hm : meets (demandOf rules r) (callerOf L r internal) with
      | error status =>
        constructor
        · intro h
          cases h
        · rintro ⟨-, i, hi, h, -⟩
          cases hi
          rw [hm] at h
          cases h
      | ok _ =>
        constructor
        · intro h
          exact ⟨hpath, internal, rfl, hm, (Except.ok.inj h).symm⟩
        · rintro ⟨-, i, hi, -, rfl⟩
          cases hi
          rfl

theorem whoJava_of (L : Libraries) {header : List Char} {a : Authentication}
    (h : L.doFilterInternal header = some a) :
    L.whoJava header = some (a.userID, .str a.authority) := by
  rw [Libraries.whoJava, h]
  rfl

theorem callerOf_some {a : Authentication} (h : L.doFilterInternal r.authorization = some a)
    (internal : Option Caller) : callerOf L r internal = some (.user a) := by
  rw [callerOf, h]
  rfl

theorem callerOf_none (h : L.doFilterInternal r.authorization = none) (internal : Option Caller) :
    callerOf L r internal = internal := by
  rw [callerOf, h]
  rfl

theorem authority_of_meets {authority : String} {c : Caller}
    (h : meets (.hasAuthority authority) (some c) = .ok ()) : c.authority = authority := by
  by_contra hne
  rw [meets, if_neg hne] at h
  cases h

/-- the filters and the rules of a path keep the access of the handler behind it -/
theorem meant_of_chain {rules : List Rule} {a : Access} (hd : a.demand = some (demandOf rules r))
    (hi : r.path.head? = some "internal" ↔ a = .services) (h : filterChain L key r rules = .ok who) :
    a.Meant (L.whoJava r.authorization) (hasText key = true ∧ r.internalAPIKey = key) who := by
  obtain ⟨hpath, internal, hfilter, hm, rfl⟩ := filterChain_iff.mp h
  rw [internalApiKeyFilter_iff] at hfilter
  cases hf : L.doFilterInternal r.authorization with
  | some c =>
    rw [callerOf_some hf] at hm ⊢
    rw [whoJava_of L hf]
    cases a with
    | anyone =>
      intro u hu
      cases hu
      exact ⟨_, rfl⟩
    | member => exact ⟨_, _, rfl, rfl⟩
    | only role => cases hd
    | services =>
      rw [← Option.some.inj hd] at hm
      have hc : c.authority = "INTERNAL" := authority_of_meets hm
      rw [hc]
      exact .inr ⟨_, rfl, rfl⟩
    | nobody =>
      rw [← Option.some.inj hd] at hm
      have hc : c.authority = "INTERNAL" := authority_of_meets hm
      rw [hc]
      exact ⟨_, rfl, rfl⟩
  | none =>
    rw [callerOf_none hf] at hm ⊢
    by_cases hb : belowInternal r = true
    · rw [if_pos hb] at hfilter
      obtain ⟨hk, hp, rfl⟩ := hfilter
      rw [hi.mp (hpath hb)]
      exact .inl ⟨⟨hk, hp⟩, rfl⟩
    · rw [if_neg hb] at hfilter
      subst hfilter
      cases a with
      | anyone =>
        intro u hu
        cases hu
      | only role => cases hd
      | member | services | nobody =>
        rw [← Option.some.inj hd] at hm
        cases hm

theorem meant_of_mapping {rules : List Rule} {mappings : List Mapping}
    (hg : agreed Mapping.route Rule.route rules guarded [] mappings = true) {m : Mapping}
    (hm : mappings.find? (·.route.fits r.method r.path) = some m) :
    m.handler.access.demand = some (demandOf rules r) ∧
      (r.path.head? = some "internal" ↔ m.handler.access = .services) := by
  have hcheck := find_of_agreed Mapping.route Rule.route hg (fun b hb => by cases hb) hm
  have hfound := List.find?_some (p := fun m : Mapping => m.route.fits r.method r.path) hm
  have hfits := (Route.fits_iff.mp hfound).2
  rw [guarded, Bool.and_eq_true, beq_iff_eq] at hcheck
  refine ⟨hcheck.1, ?_⟩
  have hhead := hcheck.2
  split at hhead
  · next s hs =>
    rw [Pattern.head_of_fits hs hfits, Option.some.injEq]
    rw [beq_iff_eq, Bool.eq_iff_iff, beq_iff_eq, beq_iff_eq] at hhead
    exact hhead
  · cases hhead

theorem entered_through {guard : Guard → Except Nat (Option UUID)} {doors : List Door} {h : Handler}
    (hd : ∀ d ∈ doors, d.handler.access.guard = some d.guard)
    (hguard : ∀ g who, guard g = .ok who → g.Lets sender presented who)
    (he : through guard (doors.find? (·.route.fits r.method r.path)) = .entered h who) :
    h.access.Meant sender presented who := by
  cases hf : doors.find? (·.route.fits r.method r.path) with
  | none =>
    rw [hf] at he
    cases he
  | some d =>
    rw [hf, through] at he
    cases hg : guard d.guard with
    | error status =>
      rw [hg] at he
      cases he
    | ok w =>
      rw [hg] at he
      obtain ⟨rfl, rfl⟩ := Outcome.entered.inj he
      exact meant_of_guard (hd d (List.mem_of_find?_eq_some hf)) (hguard _ _ hg)

theorem entered_throughJava {rules : List Rule} {mappings : List Mapping} {h : Handler}
    (hg : agreed Mapping.route Rule.route rules guarded [] mappings = true)
    (he : throughJava L key r rules (mappings.find? (·.route.fits r.method r.path)) = .entered h who) :
    h.access.Meant (L.whoJava r.authorization) (hasText key = true ∧ r.internalAPIKey = key) who := by
  cases hf : mappings.find? (·.route.fits r.method r.path) with
  | none =>
    rw [hf] at he
    cases he
  | some m =>
    rw [hf, throughJava] at he
    cases hc : filterChain L key r rules with
    | error status =>
      rw [hc] at he
      cases he
    | ok w =>
      rw [hc] at he
      obtain ⟨rfl, rfl⟩ := Outcome.entered.inj he
      obtain ⟨hd, hi⟩ := meant_of_mapping hg hf
      exact meant_of_chain hd hi hc

/-- **Who gets to a handler is whom it is meant for.**  In every service, and for every request: what a
handler may take for granted of its sender is so. -/
theorem serve_entered (s : Service) {h : Handler} (he : serve L key r s = .entered h who) :
    h.access.Meant (s.whoOf L r.authorization) (s.hasKey key r) who := by
  cases s with
  | auth => exact entered_throughJava guarded_auth he
  | customer => exact entered_throughJava guarded_customer he
  | seller => exact entered_throughJava guarded_seller he
  | request => exact entered_through guards_request (fun g _ => (guardGo_iff g).mp) he
  | admin => exact entered_through guards_admin (fun g _ => (guardGo_iff g).mp) he
  | offer => exact entered_through guards_offer (fun g _ => (guardPython_iff g).mp) he
  | notification => exact entered_through guards_notification (fun g _ => (guardPython_iff g).mp) he

end

/-! ## what a token opens -/

/-- the handler that the router of a service finds -/
def Service.handlerOf (r : Request) : Service → Option Handler
  | .auth => (authMappings.find? (·.route.fits r.method r.path)).map Mapping.handler
  | .customer => (customerMappings.find? (·.route.fits r.method r.path)).map Mapping.handler
  | .seller => (sellerMappings.find? (·.route.fits r.method r.path)).map Mapping.handler
  | .request => (requestDoors.find? (·.route.fits r.method r.path)).map Door.handler
  | .admin => (adminDoors.find? (·.route.fits r.method r.path)).map Door.handler
  | .offer => (offerDoors.find? (·.route.fits r.method r.path)).map Door.handler
  | .notification => (notificationDoors.find? (·.route.fits r.method r.path)).map Door.handler

/-- the users that a handler is meant for -/
def Access.admits : Access → Role → Bool
  | .anyone, _ => true
  | .member, _ => true
  | .only role, r => role == r
  | .services, _ => false
  | .nobody, _ => false

/-- an open handler in Go or Python is not told who has sent the request -/
def Service.shows (u : UUID) (a : Access) : Service → Option UUID
  | .auth | .customer | .seller => some u
  | .request | .admin | .offer | .notification => if a = .anyone then none else some u

/-- there is no token without a key in what a service is asked -/
def refusal : Access → Nat
  | .services => 401
  | _ => 403

/-- the URI spells out the path, as far as the key is concerned -/
def Plain (r : Request) : Prop := belowInternal r = true ↔ r.path.head? = some "internal"

instance (r : Request) : Decidable (Plain r) := by unfold Plain; infer_instance

theorem name_inj {a b : Role} (h : a.name = b.name) : a = b := by
  cases a <;> cases b <;> first | rfl | (revert h; decide)

theorem name_ne_internal (a : Role) : a.name ≠ "INTERNAL" := by
  cases a <;> decide

theorem utf8_ne {key : List Char} (h : key ≠ []) : [] ≠ utf8 key := by
  intro hn
  rw [utf8, eq_comm, List.map_eq_nil_iff] at hn
  have hempty : (String.ofList key).toUTF8 = ByteArray.empty := ByteArray.ext (Array.toList_eq_nil_iff.mp hn)
  rw [String.toUTF8_eq_toByteArray, String.toByteArray_ofList, List.utf8Encode_eq_empty] at hempty
  exact h hempty

section
variable {L : Libraries} {key : List Char} {r : Request} {u : UUID} {role : Role}

theorem guardGo_bearer (hw : L.whoGo r.authorization = some (u, .str role.name))
    (hk : r.internalAPIKey = []) {a : Access} {g : Guard} (ha : a.guard = some g) :
    guardGo L key r g =
      if a.admits role = true then .ok (if a = .anyone then none else some u)
      else .error (refusal a) := by
  obtain ⟨c, hc, he⟩ := Option.map_eq_some_iff.mp hw
  obtain ⟨hu, hr⟩ := Prod.mk.inj he
  have hrole : c.role = role.name := Json.str.inj hr
  cases a with
  | anyone =>
    cases ha
    rfl
  | member =>
    cases ha
    rw [guardGo, hc, ← hu]
    rfl
  | only ro =>
    cases ha
    rw [guardGo, hc]
    by_cases h : ro = role
    · subst h
      rw [if_pos (by simp [Access.admits])]
      simp [hrole, hu]
    · have hne : role.name ≠ ro.name := fun e => h (name_inj e.symm)
      simp [Access.admits, h, hrole, hne, refusal]
  | services =>
    cases ha
    by_cases hkey : key = []
    · simp [guardGo, hkey, Access.admits, refusal]
    · simp [guardGo, hkey, hk, utf8_ne hkey, Access.admits, refusal]
  | nobody => cases ha

theorem guardPython_bearer (hw : L.whoPython r.authorization = some (u, .str role.name))
    (hk : r.internalAPIKey = []) {a : Access} {g : Guard} (ha : a.guard = some g) :
    guardPython L key r g =
      if a.admits role = true then .ok (if a = .anyone then none else some u)
      else .error (refusal a) := by
  obtain ⟨p, hp, he⟩ := Option.map_eq_some_iff.mp hw
  obtain ⟨hu, hr⟩ := Prod.mk.inj he
  cases a with
  | anyone =>
    cases ha
    rfl
  | member =>
    cases ha
    rw [guardPython, hp, ← hu]
    rfl
  | only ro =>
    cases ha
    rw [guardPython, hp]
    by_cases h : ro = role
    · subst h
      rw [if_pos (by simp [Access.admits])]
      simp [hr, hu, roleIn, Except.map]
    · have hne : role.name ≠ ro.name := fun e => h (name_inj e.symm)
      simp [Access.admits, h, hr, hne, refusal, roleIn, Except.map]
  | services =>
    cases ha
    by_cases hkey : key = []
    · simp [guardPython, hkey, Access.admits, refusal]
    · simp [guardPython, hkey, hk, Ne.symm hkey, Access.admits, refusal]
  | nobody => cases ha

theorem filterChain_bearer {rules : List Rule} (hw : L.whoJava r.authorization = some (u, .str role.name))
    (hk : r.internalAPIKey = []) (hplain : Plain r) {a : Access}
    (hd : a.demand = some (demandOf rules r))
    (hi : r.path.head? = some "internal" ↔ a = .services) :
    filterChain L key r rules =
      if a.admits role = true then .ok (some u) else .error (refusal a) := by
  obtain ⟨c, hc, he⟩ := Option.map_eq_some_iff.mp hw
  obtain ⟨hu, hr⟩ := Prod.mk.inj he
  have hrole : c.authority = role.name := Json.str.inj hr
  have hbelow : belowInternal r = true ↔ a = .services := hplain.trans hi
  have hfire : ¬(belowInternal r = true ∧ r.path.head? ≠ some "internal") := fun h =>
    h.2 (hplain.mp h.1)
  unfold filterChain
  rw [if_neg hfire]
  by_cases hs : a = .services
  · have hfilter : internalApiKeyFilter key r = .error 401 := by
      unfold internalApiKeyFilter
      rw [hbelow.mpr hs, hk]
      by_cases hkey : hasText key = true
      · simp [hkey, show hasText [] = false from rfl]
      · simp [hkey]
    rw [hfilter, hs]
    rfl
  · have hno : belowInternal r = false := Bool.eq_false_iff.mpr fun h => hs (hbelow.mp h)
    have hfilter : internalApiKeyFilter key r = .ok none := by
      unfold internalApiKeyFilter
      rw [hno]
      rfl
    rw [hfilter, hc]
    show (meets (demandOf rules r) (some (.user c)) >>= fun _ => pure (some c.userID)) = _
    cases a with
    | anyone =>
      rw [← Option.some.inj hd, ← hu]
      rfl
    | member =>
      rw [← Option.some.inj hd, ← hu]
      rfl
    | only ro => cases hd
    | services => exact absurd rfl hs
    | nobody =>
      rw [← Option.some.inj hd, meets, if_neg]
      · rfl
      · show c.authority ≠ "INTERNAL"
        rw [hrole]
        exact name_ne_internal role

theorem through_bearer {guard : Guard → Except Nat (Option UUID)} {doors : List Door} {h : Handler}
    (hd : ∀ d ∈ doors, d.handler.access.guard = some d.guard)
    (hguard : ∀ a g, Access.guard a = some g → guard g =
      if a.admits role = true then .ok (if a = .anyone then none else some u)
      else .error (refusal a))
    (hh : (doors.find? (·.route.fits r.method r.path)).map Door.handler = some h) :
    through guard (doors.find? (·.route.fits r.method r.path)) =
      if h.access.admits role = true then .entered h (if h.access = .anyone then none else some u)
      else .refused (refusal h.access) := by
  obtain ⟨d, hf, rfl⟩ := Option.map_eq_some_iff.mp hh
  rw [hf, through, hguard _ _ (hd d (List.mem_of_find?_eq_some hf))]
  by_cases ha : d.handler.access.admits role = true
  · rw [if_pos ha, if_pos ha]
  · rw [if_neg ha, if_neg ha]

theorem throughJava_bearer {rules : List Rule} {mappings : List Mapping} {h : Handler}
    (hg : agreed Mapping.route Rule.route rules guarded [] mappings = true)
    (hw : L.whoJava r.authorization = some (u, .str role.name)) (hk : r.internalAPIKey = [])
    (hplain : Plain r)
    (hh : (mappings.find? (·.route.fits r.method r.path)).map Mapping.handler = some h) :
    throughJava L key r rules (mappings.find? (·.route.fits r.method r.path)) =
      if h.access.admits role = true then .entered h (some u) else .refused (refusal h.access) := by
  obtain ⟨m, hf, rfl⟩ := Option.map_eq_some_iff.mp hh
  obtain ⟨hd, hi⟩ := meant_of_mapping hg hf
  rw [hf, throughJava, filterChain_bearer hw hk hplain hd hi]
  by_cases ha : m.handler.access.admits role = true
  · rw [if_pos ha, if_pos ha]
  · rw [if_neg ha, if_neg ha]

theorem serve_user (s : Service) (hw : s.whoOf L r.authorization = some (u, .str role.name))
    (hk : r.internalAPIKey = []) (hplain : Plain r) {h : Handler} (hh : s.handlerOf r = some h) :
    serve L key r s =
      if h.access.admits role = true then .entered h (s.shows u h.access)
      else .refused (refusal h.access) := by
  cases s with
  | auth => exact throughJava_bearer guarded_auth hw hk hplain hh
  | customer => exact throughJava_bearer guarded_customer hw hk hplain hh
  | seller => exact throughJava_bearer guarded_seller hw hk hplain hh
  | request => exact through_bearer guards_request (fun _ _ => guardGo_bearer hw hk) hh
  | admin => exact through_bearer guards_admin (fun _ _ => guardGo_bearer hw hk) hh
  | offer => exact through_bearer guards_offer (fun _ _ => guardPython_bearer hw hk) hh
  | notification => exact through_bearer guards_notification (fun _ _ => guardPython_bearer hw hk) hh

/-- **A token opens the doors of its user, and no other.**  An access token that auth-service has signed,
as long as it is good, gets its user to every handler of every service that is meant for the role of the
user, and to none that is not: neither of another role, nor of another service, nor the metrics. -/
theorem serve_bearer {j : JwtUtil} (ht : Trusted L j) (user : User) (issued : Time)
    (hid : Fits user.userID) (hgo : L.uuidParse (UUID.toText user.userID) = some user.userID)
    (hp : ∀ v, L.passes v (accessClaims j.expiryMinutes user issued) = true) {token : String}
    (htoken : j.generateAccessToken user.userID user.email user.role.name issued = token)
    (hgood : (L.verify token.toList).isSome = true) (hauth : r.authorization = bearer token)
    (hk : r.internalAPIKey = []) (hplain : Plain r) (s : Service) {h : Handler}
    (hh : s.handlerOf r = some h) :
    serve L key r s =
      if h.access.admits user.role = true then .entered h (s.shows user.userID h.access)
      else .refused (refusal h.access) := by
  refine serve_user s ?_ hk hplain hh
  obtain ⟨c, hc⟩ := Option.isSome_iff_exists.mp hgood
  obtain ⟨hwgo, hwpython, hwjava⟩ := Libraries.who_of_verified hc
  have hclaims : c = accessClaims j.expiryMinutes user issued := by
    rw [← htoken, generateAccessToken_eq] at hc
    exact ht.honest _ _ hc
  have hall : ∀ v, L.identity c v = some (user.userID, .str user.role.name) := by
    intro v
    rw [hclaims]
    exact identity_accessClaims_eq hid hgo (hp v)
  rw [hauth]
  cases s with
  | auth | customer | seller => exact hwjava.trans (hall _)
  | request | admin => exact hwgo.trans (hall _)
  | offer | notification => exact hwpython.trans (hall _)

end

/-! ### a seller at the door of the administrators -/

def approveOffer : Request where
  method := "POST"
  requestURI := "/api/admin/offers/7/approve".toList
  path := ["api", "admin", "offers", "7", "approve"]
  authorization := bearer "a.b.c"
  internalAPIKey := []

example : serve (sellerTokens.libraries 0) "key".toList approveOffer .admin = .refused 403 := by
  decide +kernel

end Marketplace.System.Doors
