import Marketplace.Lib.Nginx

/-!
# The gateway

The routing table of `nginx.conf` and its locations.  The row is chosen by `$uri`, and what goes to
the service is `$request_uri`.

* `routes`                     the nine public routes;
* `gateway`                    the answer to a request: exact location, expressions, longest prefix;
* `admits_iff`                 a row looks at the first two segments;
* `forwards_what_it_routed_iff`   **the gateway forwards what it routed exactly where normalising leaves
                               the first two segments as they are spelled**.
-/

namespace Marketplace.System.Gateway

open Nginx Text

/-! ## the table -/

structure Route where
  path : String
  upstream : String
  deriving DecidableEq

/-- the rows of `map $uri $upstream` -/
def routes : List Route :=
  [⟨"/api/auth", "http://auth-service:8081"⟩,
   ⟨"/api/users", "http://auth-service:8081"⟩,
   ⟨"/api/customers", "http://customer-service:8082"⟩,
   ⟨"/api/sellers", "http://seller-service:8083"⟩,
   ⟨"/api/requests", "http://request-service:8084"⟩,
   ⟨"/api/offers", "http://offer-service:8085"⟩,
   ⟨"/api/admin", "http://admin-service:8086"⟩,
   ⟨"/api/contacts", "http://admin-service:8086"⟩,
   ⟨"/api/notifications", "http://notification-service:8087"⟩]

/-- the rows of `map $uri $spec_upstream` -/
def specs : List Route :=
  [⟨"/openapi/auth.json", "http://auth-service:8081"⟩,
   ⟨"/openapi/customer.json", "http://customer-service:8082"⟩,
   ⟨"/openapi/seller.json", "http://seller-service:8083"⟩,
   ⟨"/openapi/request.json", "http://request-service:8084"⟩,
   ⟨"/openapi/offer.json", "http://offer-service:8085"⟩,
   ⟨"/openapi/admin.json", "http://admin-service:8086"⟩,
   ⟨"/openapi/notification.json", "http://notification-service:8087"⟩]

/-- `^path(/|$)` -/
def Route.admits (r : Route) (t : List Char) : Bool := under r.path.toList t

def upstream (uri : List Char) : String :=
  match routes.find? fun r => r.admits uri with
  | some r => r.upstream
  | none => ""

/-- `^path$` -/
def specUpstream (uri : List Char) : String :=
  match specs.find? fun r => uri == r.path.toList || uri == r.path.toList ++ ['\n'] with
  | some r => r.upstream
  | none => ""

/-! ## the locations -/

inductive Answer where
  | reply (status : Nat) (body : String)
  /-- nginx's own page -/
  | badRequest
  | proxied (upstream : String) (path : List Char)
  deriving DecidableEq

def notFound : Answer := .reply 404 "\x7b\"message\":\"Not Found\",\"status\":404\x7d"

def api (t : List Char) : Bool := under "/api".toList t

/-- `^/(internal|actuator)(/|$)` -/
def internal (t : List Char) : Bool := under "/internal".toList t || under "/actuator".toList t

/-- an expression goes before a prefix, and the longest prefix before the others -/
def gateway (method : String) (target : List Char) : Answer :=
  match normalize target with
  | none => .badRequest
  | some uri =>
    if uri = "/health".toList then .reply 200 "\x7b\"status\":\"UP\"\x7d"
    else if api uri then
      if upstream uri = "" then notFound
      else if method = "OPTIONS" then .reply 204 ""
      else .proxied (upstream uri) target
    else if internal uri then notFound
    else if "/openapi/".toList.isPrefixOf uri then
      if specUpstream uri = "" then notFound
      else .proxied (specUpstream uri) "/v3/api-docs".toList
    else if "/docs".toList.isPrefixOf uri then .proxied "http://swagger-ui:8080" target
    else .proxied "http://frontend:80" target

/-! ## rows and segments -/

/-- the first two segments, after the nothing before the first slash -/
def start (t : List Char) : List Segment := (t.splitOn '/').take 3

theorem join_splitOn (t : List Char) : join '/' (t.splitOn '/') = t := List.intercalate_splitOn '/'

theorem route_segments {r : Route} (hr : r ∈ routes) : (r.path.toList.splitOn '/').length = 3 := by
  have h : routes.all fun r => (r.path.toList.splitOn '/').length == 3 := by decide
  simpa using List.all_eq_true.mp h r hr

theorem route_ends {r : Route} (hr : r ∈ routes) : '\n' ∉ r.path.toList := by
  have h : routes.all fun r => !r.path.toList.contains '\n' := by decide
  simpa using List.all_eq_true.mp h r hr

theorem route_ne_default {r : Route} (hr : r ∈ routes) : r.upstream ≠ "" := by
  have h : routes.all fun r => r.upstream != "" := by decide
  simpa using List.all_eq_true.mp h r hr

/-- no path stands in two rows -/
theorem route_unique {r s : Route} (hr : r ∈ routes) (hs : s ∈ routes) (h : r.path = s.path) :
    r = s := by
  have hall : routes.all fun r => routes.all fun s => r.path != s.path || r == s := by decide
  have hrs := List.all_eq_true.mp (List.all_eq_true.mp hall r hr) s hs
  simpa [h] using hrs

theorem under_splitOn {p t : List Char} (hp : '\n' ∉ p) :
    under p t = true ↔
      ((unended t).splitOn '/').take (p.splitOn '/').length = p.splitOn '/' := by
  have hjoin : '\n' ∉ join '/' (p.splitOn '/') := by rwa [join_splitOn]
  have h := under_iff (List.splitOn_ne_nil _ _) (fun _ hw => not_mem_of_mem_splitOn hw) hjoin
    (t := t)
  rwa [join_splitOn] at h

/-- **a row looks at the first two segments** -/
theorem admits_iff {r : Route} (hr : r ∈ routes) {t : List Char} :
    r.admits t = true ↔ start (unended t) = r.path.toList.splitOn '/' := by
  rw [Route.admits, under_splitOn (route_ends hr), route_segments hr, start]

/-- **the first two segments decide between the rows** -/
theorem route_of_start {r s : Route} (hr : r ∈ routes) (hs : s ∈ routes) {t : List Char}
    (h : r.admits t = true) (h' : s.admits t = true) : r = s := by
  rw [admits_iff hr] at h
  rw [admits_iff hs] at h'
  have hp : r.path.toList = s.path.toList := by
    rw [← join_splitOn r.path.toList, ← h, h', join_splitOn]
  exact route_unique hr hs (String.toList_inj.mp hp)

theorem api_iff {t : List Char} :
    api t = true ↔ ((unended t).splitOn '/').take 2 = [[], "api".toList] :=
  under_splitOn (p := "/api".toList) (by decide)

theorem internal_iff {t : List Char} :
    internal t = true ↔ ((unended t).splitOn '/').take 2 = [[], "internal".toList] ∨
      ((unended t).splitOn '/').take 2 = [[], "actuator".toList] := by
  have hinternal : '\n' ∉ "/internal".toList := by decide
  have hactuator : '\n' ∉ "/actuator".toList := by decide
  rw [internal, Bool.or_eq_true, under_splitOn hinternal, under_splitOn hactuator]
  rfl

theorem api_of_admits {r : Route} (hr : r ∈ routes) {t : List Char} (h : r.admits t = true) :
    api t = true := by
  have hall : routes.all fun r => (r.path.toList.splitOn '/').take 2 == [[], "api".toList] := by
    decide
  have hp := beq_iff_eq.mp (List.all_eq_true.mp hall r hr)
  rw [admits_iff hr, start] at h
  rw [api_iff, ← hp, ← h, List.take_take]
  rfl

theorem not_internal_of_api {t : List Char} (h : api t = true) : internal t = false := by
  rw [api_iff] at h
  rw [← Bool.not_eq_true, internal_iff, h]
  decide

/-! ## what is answered -/

theorem upstream_of_admits {r : Route} (hr : r ∈ routes) {uri : List Char}
    (h : r.admits uri = true) : upstream uri = r.upstream := by
  unfold upstream
  split
  · rename_i s hs
    have hadmits : s.admits uri = true := List.find?_some (p := fun r : Route => r.admits uri) hs
    rw [route_of_start (List.mem_of_find?_eq_some hs) hr hadmits h]
  · rename_i hn
    exact absurd h (List.find?_eq_none.mp hn r hr)

theorem upstream_default {uri : List Char} (h : ∀ r ∈ routes, r.admits uri = false) :
    upstream uri = "" := by
  unfold upstream
  rw [List.find?_eq_none.mpr fun r hr => Bool.not_eq_true _ ▸ h r hr]

theorem not_health {uri : List Char} (h : api uri = true ∨ internal uri = true) :
    uri ≠ "/health".toList := by
  rintro rfl
  revert h
  decide

/-- a routed request goes to its service as it came; a preflight goes nowhere -/
theorem gateway_routed {method : String} {target uri : List Char} (hn : normalize target = some uri)
    {r : Route} (hr : r ∈ routes) (h : r.admits uri = true) :
    gateway method target =
      if method = "OPTIONS" then .reply 204 "" else .proxied r.upstream target := by
  have hapi := api_of_admits hr h
  unfold gateway
  rw [hn]
  show (if uri = "/health".toList then _ else _) = _
  rw [if_neg (not_health (.inl hapi)), if_pos hapi, upstream_of_admits hr h,
    if_neg (route_ne_default hr)]

/-- default-deny -/
theorem gateway_default {method : String} {target uri : List Char}
    (hn : normalize target = some uri) (h : api uri = true ∨ internal uri = true)
    (hr : ∀ r ∈ routes, r.admits uri = false) : gateway method target = notFound := by
  unfold gateway
  rw [hn]
  show (if uri = "/health".toList then _ else _) = _
  rw [if_neg (not_health h), upstream_default hr]
  rcases h with h | h
  · rw [if_pos h, if_pos rfl]
  · split
    · rfl
    · rfl

/-! ## what is routed, and what is sent -/

/-- what the gateway sends lies, as it is spelled, where `$uri` was routed; the rest of the guarded
namespaces is not there -/
def ForwardsWhatItRouted (method : String) (target : List Char) : Prop :=
  ∀ uri, normalize target = some uri →
    (∀ r ∈ routes, r.admits uri = true → method ≠ "OPTIONS" →
      ∃ path, gateway method target = .proxied r.upstream path ∧
        r.admits (rawPath path) = true ∧ internal (rawPath path) = false) ∧
    ((∀ r ∈ routes, r.admits uri = false) → api uri = true ∨ internal uri = true →
      gateway method target = notFound)

/-- normalising a routed target leaves its first two segments as they are spelled -/
def Spelled (target : List Char) : Prop :=
  ∀ uri, normalize target = some uri → (∃ r ∈ routes, r.admits uri = true) →
    start (rawPath target) = start (unended uri)

/-- the row that admits `$uri` admits the target if the two begin alike -/
theorem admits_raw_iff {target uri : List Char} (hn : normalize target = some uri) {r : Route}
    (hr : r ∈ routes) (h : r.admits uri = true) :
    r.admits (rawPath target) = true ↔ start (rawPath target) = start (unended uri) := by
  have hline : '\n' ∉ rawPath target := fun hm =>
    normalize_line hn ((List.takeWhile_prefix _).subset hm)
  rw [admits_iff hr] at h
  rw [admits_iff hr, unended_of_not_mem hline, h]

/-- **the gateway forwards what it routed exactly where normalising leaves the first two segments as
they are spelled** -/
theorem forwards_what_it_routed_iff (method : String) (target : List Char) :
    ForwardsWhatItRouted method target ↔ method = "OPTIONS" ∨ Spelled target := by
  constructor
  · intro hf
    by_cases hm : method = "OPTIONS"
    · exact .inl hm
    refine .inr ?_
    rintro uri hn ⟨r, hr, hadmits⟩
    obtain ⟨path, hsent, hraw, -⟩ := (hf uri hn).1 r hr hadmits hm
    rw [gateway_routed hn hr hadmits, if_neg hm] at hsent
    obtain ⟨-, rfl⟩ := Answer.proxied.inj hsent
    exact (admits_raw_iff hn hr hadmits).mp hraw
  · intro hs uri hn
    refine ⟨fun r hr hadmits hm => ⟨target, ?_, ?_⟩, fun hr h => gateway_default hn h hr⟩
    · rw [gateway_routed hn hr hadmits, if_neg hm]
    · have hstart := hs.resolve_left hm uri hn ⟨r, hr, hadmits⟩
      have hraw := (admits_raw_iff hn hr hadmits).mpr hstart
      exact ⟨hraw, not_internal_of_api (api_of_admits hr hraw)⟩

/-- a path that is spelled as it is meant goes where it was routed, whatever its query -/
theorem plain_spelled {segments : List Segment} (hne : segments ≠ [])
    (h : ∀ s ∈ segments, Plain s) {query : List Char} (hq : query = [] ∨ ∃ t, query = '?' :: t)
    (hc : query.any control = false) : Spelled (pathOf segments ++ query) := by
  rintro uri hn -
  rw [normalize_plain hne h hq hc] at hn
  cases hn
  have hline : '\n' ∉ pathOf segments := fun hm => absurd (plain_path h hm).2 (by decide)
  rw [rawPath_plain h hq, unended_of_not_mem hline]

/-- a path below `/internal` reaches auth-service as it is spelled -/
theorem forwards_what_it_did_not_route :
    ¬ForwardsWhatItRouted "GET" "/internal/../api/auth/login".toList := by
  intro hf
  have hn : normalize "/internal/../api/auth/login".toList = some "/api/auth/login".toList := by
    decide
  have hr : (⟨"/api/auth", "http://auth-service:8081"⟩ : Route) ∈ routes := List.mem_cons_self
  obtain ⟨path, hsent, -, hraw⟩ := (hf _ hn).1 _ hr (by decide) (by decide)
  rw [gateway_routed hn hr (by decide), if_neg (by decide)] at hsent
  obtain ⟨-, rfl⟩ := Answer.proxied.inj hsent
  revert hraw
  decide

end Marketplace.System.Gateway
