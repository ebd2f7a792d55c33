import Marketplace.Frontend.Tab

/-!
# frontend: calls that are refused at the same time

The server exchanges a usable refresh token once; the rest of its answers are free.

* `Sessions`, `Sessions.serve`   the server;
* `ApiCall`          a call that asks the hook after a 401;
* `Live`             the tab while nobody looks for the refresh token during an exchange: no exchange
                     at all and the token of the store is usable, or one;
* `Phase`, `At`      how far a call is, as facts that the others cannot change;
* `refused_calls_retried`   in such a run the session never ends, and every refused call is retried
                     with an access token;
* `live_session_cleared`   without it a hook ends a session it holds a usable token of.
-/

set_option linter.unusedSectionVars false

namespace Marketplace.Frontend

open Interleave

/-! ## the server -/

/-- the refresh tokens that are usable, and the access tokens that have been issued -/
structure Sessions where
  usable : List String
  issued : List String
  deriving DecidableEq, Repr

/-- the next pair of tokens, or the answer to another request -/
structure Reply where
  access : String
  refresh : String
  expiresIn : Int
  other : Response
  deriving DecidableEq, Repr

def refreshPath : String := "/api/auth/refresh"

/-- the token in the body of a request -/
def HttpRequest.presented (r : HttpRequest) : Option String :=
  match r.body with
  | some (.json (.obj fs)) =>
    match Json.field "refreshToken" fs with
    | some (.str token) => some token
    | _ => none
  | _ => none

def Reply.fresh (y : Reply) (s : Sessions) : Bool :=
  y.access ≠ "" && y.refresh ≠ "" && !s.usable.contains y.refresh

def Reply.tokens (y : Reply) : AuthTokens := ⟨some y.access, some y.refresh, some y.expiresIn⟩

/-- this pair has been issued, and its refresh token is still usable -/
structure Reply.Issued (y : Reply) (s : Sessions) : Prop where
  access : y.access ≠ ""
  refresh : y.refresh ≠ ""
  usable : y.refresh ∈ s.usable
  issued : y.access ∈ s.issued

def Sessions.exchange (s : Sessions) (token : String) (y : Reply) : Sessions where
  usable := y.refresh :: s.usable.filter (· ≠ token)
  issued := y.access :: s.issued

def Sessions.serve (r : HttpRequest) (y : Reply) (s : Sessions) : Option (Response × Sessions) :=
  if r.path = refreshPath then
    match r.presented with
    | some token =>
      if s.usable.contains token then
        if y.fresh s then some (⟨200, some (.tokens y.tokens)⟩, s.exchange token y) else none
      else some (⟨401, some (.other (some "Refresh token has been revoked or expired"))⟩, s)
    | none => some (⟨400, some (.other none)⟩, s)
  else some (y.other, s)

/-- every request reaches the server, and every answer the tab -/
def refreshWeb (exclusive : Bool) : Web Reply Sessions where
  serve := Sessions.serve
  lossy := false
  exclusive := exclusive
  settled := false

def refreshRequest (token : String) : HttpRequest := request refreshPath (refreshOptions token) none

theorem presented_refreshRequest (token : String) :
    (refreshRequest token).presented = some token := rfl

/-- an answer to the exchange of a usable token -/
theorem serve_refreshRequest {token : String} {y : Reply} {s : Sessions} {a : Response × Sessions}
    (hs : token ∈ s.usable) (h : Sessions.serve (refreshRequest token) y s = some a) :
    y.Issued a.2 ∧ a.1 = ⟨200, some (.tokens y.tokens)⟩ := by
  unfold Sessions.serve at h
  rw [if_pos (show (refreshRequest token).path = refreshPath from rfl),
    presented_refreshRequest] at h
  simp only [List.contains_iff_mem, hs, if_true] at h
  split at h
  · rename_i hf
    simp only [Reply.fresh, Bool.and_eq_true, decide_eq_true_eq] at hf
    cases h
    exact ⟨⟨hf.1.1, hf.1.2, List.mem_cons_self, List.mem_cons_self⟩, rfl⟩
  · cases h

/-- what has been issued stays so -/
theorem serve_issued {r : HttpRequest} {y : Reply} {s : Sessions} {a : Response × Sessions}
    (h : Sessions.serve r y s = some a) : ∀ access ∈ s.issued, access ∈ a.2.issued := by
  intro access ha
  unfold Sessions.serve at h
  split at h
  · split at h
    · split at h
      · split at h
        · cases h
          exact List.mem_cons_of_mem _ ha
        · cases h
      · cases h
        exact ha
    · cases h
      exact ha
  · cases h
    exact ha

/-- other requests leave the sessions alone -/
theorem serve_other {r : HttpRequest} {y : Reply} {s : Sessions} {a : Response × Sessions}
    (hr : r.path ≠ refreshPath) (h : Sessions.serve r y s = some a) : a = (y.other, s) := by
  unfold Sessions.serve at h
  rw [if_neg hr] at h
  exact (Option.some.inj h).symm

/-! ## calls -/

structure ApiCall where
  path : String
  options : RequestOptions
  ordinary : path ≠ refreshPath
  retries : options.skipAuthRetry = false

def ApiCall.first (c : ApiCall) : HttpRequest := request c.path c.options c.options.token

def ApiCall.retry (c : ApiCall) (access : String) : HttpRequest :=
  request c.path c.options (some access)

def ApiCall.invocation (c : ApiCall) : Invocation := .api c.path c.options

section
variable {P : Type} [DecidableEq P] {p q : P} {s t : Tab P Sessions}
  {x : Choice P Reply}

/-! ## the tab -/

structure Live (s : Tab P Sessions) : Prop where
  alive : s.ended = false
  one : s.exchanging = [] ∨ ∃ e, s.exchanging = [e]
  token : s.exchanging = [] →
    ∃ stored, s.client.auth.refreshToken = some stored ∧ stored ≠ "" ∧ stored ∈ s.server.usable
  others : ∀ q r, s.net q = .sent r → r.path = refreshPath →
    ∃ token, s.exchanging = [(q, token)] ∧ r = refreshRequest token
  answers : ∀ q, s.net q ≠ .answered none

/-- one wire has changed -/
theorem Live.wires {s : Tab P Sessions} (hi : Live s) {p : P} {w : Wire}
    (hw : ∀ r, w = .sent r → r.path = refreshPath →
      ∃ token, s.exchanging = [(p, token)] ∧ r = refreshRequest token)
    (hn : w ≠ .answered none) :
    (∀ q r, Function.update s.net p w q = .sent r → r.path = refreshPath →
      ∃ token, s.exchanging = [(q, token)] ∧ r = refreshRequest token) ∧
    ∀ q, Function.update s.net p w q ≠ .answered none :=
  ⟨(Function.forall_update_iff s.net fun q w => ∀ r, w = .sent r → r.path = refreshPath →
      ∃ token, s.exchanging = [(q, token)] ∧ r = refreshRequest token).mpr
      ⟨hw, fun q _ => hi.others q⟩,
    (Function.forall_update_iff s.net fun _ w => w ≠ .answered none).mpr
      ⟨hn, fun q _ => hi.answers q⟩⟩

/-- how far a call is -/
inductive Phase where
  /-- its hook is not at work; `idle`: and no request is on its way -/
  | calling (idle : Bool)
  /-- the hook has read this token -/
  | asked (token : String)
  | waiting (token : String)
  /-- the hook has received these tokens -/
  | got (tokens : AuthTokens)

def Phase.Holds (p : P) (s : Tab P Sessions) : Phase → Prop
  | .calling idle => (∀ e ∈ s.exchanging, e.1 ≠ p) ∧ (idle = true → s.net p = .idle)
  | .asked token => s.exchanging = [(p, token)] ∧ s.net p = .idle ∧ token ∈ s.server.usable
  | .waiting token =>
    s.exchanging = [(p, token)] ∧
      ((s.net p = .sent (refreshRequest token) ∧ token ∈ s.server.usable) ∨
        ∃ y : Reply, s.net p = .answered (some ⟨200, some (.tokens y.tokens)⟩) ∧
          y.Issued s.server)
  | .got tokens =>
    ∃ (token : String) (y : Reply), s.exchanging = [(p, token)] ∧ s.net p = .idle ∧
      tokens = y.tokens ∧ y.Issued s.server

/-- the call of `p` is in this phase, has sent and received these, and `access` has been issued -/
structure At (p : P) (sent : List HttpRequest) (received : List (Option Response))
    (access : List String) (ph : Phase) (s : Tab P Sessions) : Prop where
  sent : s.sent p = sent
  received : s.received p = received
  access : ∀ a ∈ access, a ∈ s.server.issued
  phase : ph.Holds p s

/-! ## the moves of the others -/

/-- an exchange of `p` leaves no room for one of `q` -/
theorem other_exchange {token token' : String} (hne : p ≠ q) (h : s.exchanging = [(p, token)])
    (h' : s.exchanging = [(q, token')]) : False := by
  rw [h] at h'
  cases h'
  exact hne rfl

/-- the phase of `q` depends on these parts only -/
theorem Phase.Holds.congr {ph : Phase} (h : ph.Holds q s) (he : t.exchanging = s.exchanging)
    (hn : t.net q = s.net q) (hs : t.server = s.server) : ph.Holds q t := by
  cases ph with
  | calling idle =>
    refine ⟨fun e hmem => h.1 e (he ▸ hmem), fun hi => ?_⟩
    rw [hn]
    exact h.2 hi
  | asked token => exact ⟨he.trans h.1, hn.trans h.2.1, hs ▸ h.2.2⟩
  | waiting token =>
    refine ⟨he.trans h.1, ?_⟩
    rcases h.2 with ⟨hsent, hu⟩ | ⟨y, hy, hi⟩
    · exact .inl ⟨hn.trans hsent, hs ▸ hu⟩
    · exact .inr ⟨y, hn.trans hy, hs ▸ hi⟩
  | got tokens =>
    obtain ⟨token, y, hex, hidle, hy, hi⟩ := h
    exact ⟨token, y, he.trans hex, hn.trans hidle, hy, hs ▸ hi⟩

theorem At.congr {sent : List HttpRequest} {received : List (Option Response)}
    {access : List String} {ph : Phase} (h : At q sent received access ph s)
    (hse : t.sent q = s.sent q) (hr : t.received q = s.received q)
    (he : t.exchanging = s.exchanging) (hn : t.net q = s.net q) (hs : t.server = s.server) :
    At q sent received access ph t where
  sent := hse.trans h.sent
  received := hr.trans h.received
  access a ha := hs ▸ h.access a ha
  phase := h.phase.congr he hn hs

/-- a hook at work is the only one -/
theorem Phase.Holds.exchanging {ph : Phase} (h : ph.Holds q s) :
    (∀ e ∈ s.exchanging, e.1 ≠ q) ∨ ∃ token, s.exchanging = [(q, token)] := by
  cases ph with
  | calling idle => exact .inl h.1
  | asked token => exact .inr ⟨token, h.1⟩
  | waiting token => exact .inr ⟨token, h.1⟩
  | got tokens =>
    obtain ⟨token, -, hex, -⟩ := h
    exact .inr ⟨token, hex⟩

/-- the list of hooks changes, but not for `q` -/
theorem Phase.Holds.exchange {ph : Phase} (h : ph.Holds q s) (hn : t.net q = s.net q)
    (hs : t.server = s.server)
    (hmem : ∀ e ∈ t.exchanging, e.1 = q → e ∈ s.exchanging)
    (hown : ∀ token, s.exchanging = [(q, token)] → t.exchanging = s.exchanging) :
    ph.Holds q t := by
  rcases h.exchanging with hnone | ⟨token, hex⟩
  · cases ph with
    | calling idle =>
      refine ⟨fun e he hq => hnone e (hmem e he hq) hq, fun hi => ?_⟩
      rw [hn]
      exact h.2 hi
    | asked token =>
      refine absurd rfl (hnone (q, token) ?_)
      rw [h.1]
      exact List.mem_singleton_self _
    | waiting token =>
      refine absurd rfl (hnone (q, token) ?_)
      rw [h.1]
      exact List.mem_singleton_self _
    | got tokens =>
      obtain ⟨token, -, hex, -⟩ := h
      refine absurd rfl (hnone (q, token) ?_)
      rw [hex]
      exact List.mem_singleton_self _
  · exact h.congr (hown token hex) hn hs

/-- **a command of another call** changes nothing for `q` -/
theorem exec_at {c : Cmd} {a : Ans c} {sent : List HttpRequest}
    {received : List (Option Response)} {access : List String} {ph : Phase} (hne : p ≠ q)
    (he : exec (refreshWeb true) p c x s = some (a, t)) (h : At q sent received access ph s) :
    At q sent received access ph t := by
  cases c with
  | getState =>
    obtain ⟨-, rfl⟩ := exec_getState he
    exact h
  | refreshToken =>
    obtain ⟨-, hfree, rfl⟩ := exec_refreshToken he
    refine ⟨h.sent, h.received, h.access, h.phase.exchange rfl rfl (fun e hmem hq => ?_)
      fun token hex => ?_⟩
    · rcases List.mem_append.mp hmem with hmem | hmem
      · obtain ⟨_, -, rfl⟩ := List.mem_map.mp hmem
        exact absurd hq hne
      · exact hmem
    · rw [hfree rfl] at hex
      cases hex
  | dispatch b =>
    obtain ⟨-, -, rfl⟩ := exec_dispatch he
    refine ⟨h.sent, h.received, h.access, h.phase.exchange rfl rfl (fun e hmem _ => ?_)
      fun token hex => ?_⟩
    · have hmem' : e ∈ if b.settles then s.exchanging.filter (·.1 ≠ p) else s.exchanging := hmem
      split at hmem'
      · exact List.mem_of_mem_filter hmem'
      · exact hmem'
    · show (if b.settles then s.exchanging.filter (·.1 ≠ p) else s.exchanging) = s.exchanging
      rw [hex]
      split
      · exact List.filter_eq_self.mpr fun e hmem => by
          rw [List.mem_singleton.mp hmem]
          exact decide_eq_true hne.symm
      · rfl
  | fetch r =>
    obtain rfl := exec_fetch he
    exact h.congr (Function.update_of_ne hne.symm _ _) rfl rfl (Function.update_of_ne hne.symm _ _)
      rfl
  | response =>
    obtain ⟨-, rfl⟩ := exec_response he
    exact h.congr rfl (Function.update_of_ne hne.symm _ _) rfl (Function.update_of_ne hne.symm _ _)
      rfl

/-- who waits for an answer is not idle -/
theorem Phase.Holds.waits {ph : Phase} {r : HttpRequest} (h : ph.Holds p s)
    (hnet : s.net p = .sent r) :
    ph = .calling false ∨ ∃ token, ph = .waiting token ∧ r = refreshRequest token := by
  cases ph with
  | calling idle =>
    cases idle with
    | false => exact .inl rfl
    | true => cases (h.2 rfl).symm.trans hnet
  | asked token => cases h.2.1.symm.trans hnet
  | waiting token =>
    rcases h.2 with ⟨hsent, -⟩ | ⟨y, hy, -⟩
    · exact .inr ⟨token, rfl, (Wire.sent.inj (hsent.symm.trans hnet)).symm⟩
    · cases hy.symm.trans hnet
  | got tokens =>
    obtain ⟨_, _, -, hidle, -⟩ := h
    cases hidle.symm.trans hnet

/-- the exchange of `p` is answered -/
theorem Phase.Holds.exchanged {ph : Phase} {token : String} {y : Reply} {a : Response × Sessions}
    (h : ph.Holds q s) (hex : s.exchanging = [(p, token)])
    (hnet : s.net p = .sent (refreshRequest token))
    (hserve : Sessions.serve (refreshRequest token) y s.server = some a) :
    ph.Holds q { s with net := Function.update s.net p (.answered (some a.1)), server := a.2 } := by
  by_cases e : q = p
  · subst e
    rcases h.waits hnet with rfl | ⟨token', rfl, -⟩
    · refine absurd rfl (h.1 (q, token) ?_)
      rw [hex]
      exact List.mem_singleton_self _
    · obtain ⟨hex', ⟨hsent, hu⟩ | ⟨y', hy', -⟩⟩ := h
      · obtain rfl : token' = token := by
          rw [hex] at hex'
          cases hex'
          rfl
        obtain ⟨hissued, hresp⟩ := serve_refreshRequest hu hserve
        refine ⟨hex, .inr ⟨y, ?_, hissued⟩⟩
        rw [← hresp]
        exact Function.update_self q _ s.net
      · cases hy'.symm.trans hnet
  · cases ph with
    | calling idle =>
      refine ⟨h.1, fun hidle => ?_⟩
      exact (Function.update_of_ne e _ _).trans (h.2 hidle)
    | asked token' => exact (other_exchange (Ne.symm e) hex h.1).elim
    | waiting token' => exact (other_exchange (Ne.symm e) hex h.1).elim
    | got tokens =>
      obtain ⟨_, _, hex', -⟩ := h
      exact (other_exchange (Ne.symm e) hex hex').elim

/-- another request of `p` is answered -/
theorem Phase.Holds.replied {ph : Phase} {r : HttpRequest} {response : Response} (h : ph.Holds q s)
    (hpath : r.path ≠ refreshPath) (hnet : s.net p = .sent r) :
    ph.Holds q { s with net := Function.update s.net p (.answered (some response)) } := by
  by_cases e : q = p
  · subst e
    rcases h.waits hnet with rfl | ⟨token, rfl, rfl⟩
    · refine ⟨h.1, fun hidle => ?_⟩
      cases hidle
    · exact absurd rfl hpath
  · exact h.congr rfl (Function.update_of_ne e _ _) rfl

/-- **the network**: the request of one call is answered -/
theorem deliver_live (h : deliver (refreshWeb true) x s = some t) (hi : Live s) :
    Live t ∧ ∀ (q : P) (sent : List HttpRequest) (received : List (Option Response))
      (access : List String) (ph : Phase), At q sent received access ph s →
        At q sent received access ph t := by
  rcases deliver_cases h with ⟨q, hl, -, -⟩ | ⟨p, r, y, a, hnet, hserve, rfl⟩
  · cases hl
  change Sessions.serve r y s.server = some a at hserve
  obtain ⟨hothers, hanswers⟩ := hi.wires (p := p) (w := .answered (some a.1))
    (fun r' hr' => by cases hr') (fun hn => by cases hn)
  by_cases hpath : r.path = refreshPath
  · -- the exchange under way is answered
    obtain ⟨token, hex, rfl⟩ := hi.others p r hnet hpath
    have hbusy : s.exchanging ≠ [] := by
      rw [hex]
      exact List.cons_ne_nil _ _
    refine ⟨⟨hi.alive, hi.one, fun hn => absurd hn hbusy, hothers, hanswers⟩,
      fun q sent received access ph hat => ⟨hat.sent, hat.received,
        fun b hb => serve_issued hserve b (hat.access b hb), hat.phase.exchanged hex hnet hserve⟩⟩
  · obtain rfl := serve_other hpath hserve
    exact ⟨⟨hi.alive, hi.one, hi.token, hothers, hanswers⟩, fun q sent received access ph hat =>
      ⟨hat.sent, hat.received, hat.access, hat.phase.replied hpath hnet⟩⟩

/-! ## the commands of a call -/

section
variable {sent : List HttpRequest} {received : List (Option Response)} {access : List String}

theorem fetch_call {idle : Bool} {r : HttpRequest} {a : Unit} (hr : r.path ≠ refreshPath)
    (he : exec (refreshWeb true) p (.fetch r) x s = some (a, t)) (hi : Live s)
    (h : At p sent received access (.calling idle) s) :
    Live t ∧ At p (sent ++ [r]) received access (.calling false) t := by
  obtain rfl := exec_fetch he
  obtain ⟨hothers, hanswers⟩ := hi.wires (p := p) (w := .sent r) (fun r' hr' hpath => by
    obtain rfl : r = r' := Wire.sent.inj hr'
    exact absurd hpath hr) (fun hn => by cases hn)
  refine ⟨⟨hi.alive, hi.one, hi.token, hothers, hanswers⟩, ?_, h.received, h.access, h.phase.1,
    fun hidle => nomatch hidle⟩
  exact (Function.update_self p _ s.sent).trans (by rw [h.sent])

/-- what is left on the wires when an answer is taken off -/
theorem live_response {a : Option Response} (hi : Live s)
    (ht : t = { s with
      net := Function.update s.net p .idle
      received := Function.update s.received p (s.received p ++ [a]) }) : Live t := by
  subst ht
  obtain ⟨hothers, hanswers⟩ := hi.wires (p := p) (w := .idle) (fun r hr => by cases hr)
    (fun hn => by cases hn)
  exact ⟨hi.alive, hi.one, hi.token, hothers, hanswers⟩

theorem response_call {idle : Bool} {a : Option Response}
    (he : exec (refreshWeb true) p .response x s = some (a, t)) (hi : Live s)
    (h : At p sent received access (.calling idle) s) :
    Live t ∧ ∃ r, a = some r ∧ At p sent (received ++ [some r]) access (.calling true) t := by
  obtain ⟨hnet, ht⟩ := exec_response he
  have hlive : Live t := live_response hi ht
  subst ht
  cases a with
  | none => exact absurd hnet (hi.answers p)
  | some r =>
    refine ⟨hlive, r, rfl, h.sent, ?_, h.access, h.phase.1, fun _ => Function.update_self p _ s.net⟩
    exact (Function.update_self p _ s.received).trans (by rw [h.received])

/-- the hook finds a token, and it is usable -/
theorem refreshToken_call {a : Option String}
    (he : exec (refreshWeb true) p .refreshToken x s = some (a, t)) (hi : Live s)
    (h : At p sent received access (.calling true) s) :
    Live t ∧ ∃ token, truthy a = some token ∧ At p sent received access (.asked token) t := by
  obtain ⟨rfl, hfree, rfl⟩ := exec_refreshToken he
  have hnone : s.exchanging = [] := hfree rfl
  obtain ⟨token, hstored, hne, hu⟩ := hi.token hnone
  have htruthy : truthy s.client.auth.refreshToken = some token := by
    rw [hstored]
    exact if_neg hne
  have hex : (truthy s.client.auth.refreshToken).toList.map (p, ·) ++ s.exchanging =
      [(p, token)] := by
    rw [htruthy, hnone]
    rfl
  refine ⟨⟨hi.alive, .inr ⟨_, hex⟩, fun hn => ?_, fun q r hq hpath => ?_, hi.answers⟩, token, htruthy,
    h.sent, h.received, h.access, hex, h.phase.2 rfl, hu⟩
  · cases hex.symm.trans hn
  · obtain ⟨token', hbusy, -⟩ := hi.others q r hq hpath
    cases hnone.symm.trans hbusy

theorem fetch_refresh {token : String} {a : Unit}
    (he : exec (refreshWeb true) p (.fetch (refreshRequest token)) x s = some (a, t)) (hi : Live s)
    (h : At p sent received access (.asked token) s) :
    Live t ∧ At p (sent ++ [refreshRequest token]) received access (.waiting token) t := by
  obtain rfl := exec_fetch he
  obtain ⟨hex, hidle, hu⟩ := h.phase
  obtain ⟨hothers, hanswers⟩ := hi.wires (p := p) (w := .sent (refreshRequest token))
    (fun r hr _ => ⟨token, hex, (Wire.sent.inj hr).symm⟩) (fun hn => by cases hn)
  refine ⟨⟨hi.alive, hi.one, hi.token, hothers, hanswers⟩, ?_, h.received, h.access, hex,
    .inl ⟨Function.update_self p _ s.net, hu⟩⟩
  exact (Function.update_self p _ s.sent).trans (by rw [h.sent])

theorem response_refresh {token : String} {a : Option Response}
    (he : exec (refreshWeb true) p .response x s = some (a, t)) (hi : Live s)
    (h : At p sent received access (.waiting token) s) :
    Live t ∧ ∃ y : Reply, a = some ⟨200, some (.tokens y.tokens)⟩ ∧
      At p sent (received ++ [a]) access (.got y.tokens) t := by
  obtain ⟨hnet, ht⟩ := exec_response he
  have hlive : Live t := live_response hi ht
  subst ht
  obtain ⟨hex, ⟨hsent, -⟩ | ⟨y, hy, hissued⟩⟩ := h.phase
  · cases hsent.symm.trans hnet
  · refine ⟨hlive, y, Wire.answered.inj (hnet.symm.trans hy), h.sent, ?_, h.access, token, y, hex,
      Function.update_self p _ s.net, rfl, hissued⟩
    exact (Function.update_self p _ s.received).trans (by rw [h.received])

/-- the new tokens are stored, and the exchange is over -/
theorem dispatch_refresh {tokens : AuthTokens} {b : Bool}
    (he : exec (refreshWeb true) p (.dispatch (.tokensRefreshed (some tokens))) x s = some (b, t))
    (hi : Live s) (h : At p sent received access (.got tokens) s) :
    Live t ∧ b = true ∧ ∃ a, a ≠ "" ∧ tokens.accessToken = some a ∧
      At p sent received (a :: access) (.calling true) t := by
  obtain ⟨-, rfl, rfl⟩ := exec_dispatch he
  obtain ⟨token, y, hex, hidle, rfl, hissued⟩ := h.phase
  have hnone : s.exchanging.filter (·.1 ≠ p) = [] := by
    rw [hex]
    exact List.filter_eq_nil_iff.mpr fun e hmem => by
      rw [List.mem_singleton.mp hmem]
      simp
  have hstored : (s.client.dispatch ⟨.tokensRefreshed (some y.tokens), x.now, x.throws⟩).auth.refreshToken
      = some y.refresh := by
    unfold Client.dispatch Client.store
    cases x.throws <;> rfl
  have hopen : ((s.ended || false) && !false) = false := by
    rw [hi.alive]
    rfl
  refine ⟨⟨hopen, .inl hnone, fun _ => ⟨_, hstored, hissued.refresh, hissued.usable⟩,
    fun q r hq hpath => ?_, hi.answers⟩, rfl, y.access, hissued.access, rfl, h.sent, h.received,
    fun a ha => ?_, fun e hmem => ?_, fun _ => hidle⟩
  · obtain ⟨token', hbusy, rfl⟩ := hi.others q r hq hpath
    rw [hex] at hbusy
    cases hbusy
    cases hidle.symm.trans hq
  · rcases List.mem_cons.mp ha with rfl | ha
    · exact hissued.issued
    · exact h.access a ha
  · have hmem' : e ∈ s.exchanging.filter (·.1 ≠ p) := hmem
    rw [hnone] at hmem'
    cases hmem'

/-! ## the programs -/

def liveContract : Contract (P := P) (refreshWeb true).machine where
  Inv := Live
  Rely q s t := ∀ sent received access ph, At q sent received access ph s →
    At q sent received access ph t
  rely_refl _ _ _ _ _ _ := id
  rely_trans _ _ _ _ h h' sent received access ph hat :=
    h' sent received access ph (h sent received access ph hat)
  exec_rely hne _ _ h _ _ _ _ hat := exec_at hne.symm h hat
  crash_inv h := h
  crash_rely _ _ _ _ _ _ := id
  env_inv hi h := (deliver_live h hi).1
  env_rely hi h := (deliver_live h hi).2 _

/-- the next command of `p`, wherever the others have gone meanwhile -/
theorem safe_command {α : Type} {Q : α → Tab P Sessions → Prop} {c : Cmd} {k : Ans c → Task α}
    {ph : Phase} (h : At p sent received access ph s)
    (hc : ∀ s x a t, Live s → At p sent received access ph s →
      exec (refreshWeb true) p c x s = some (a, t) →
        Live t ∧ liveContract.Safe p Q (k a) t) :
    liveContract.Safe p Q (.call c k) s :=
  fun s₁ h₁ hi x a s₂ he => hc s₁ x a s₂ hi (h₁ _ _ _ _ h) he

/-- a fact about the phase of `p` is there when the call returns -/
theorem safe_ret {α : Type} {Q : α → Tab P Sessions → Prop} {a : α} {ph : Phase}
    (h : At p sent received access ph s)
    (hq : ∀ s, At p sent received access ph s → Q a s) :
    liveContract.Safe p Q (.ret a) s :=
  fun s₁ h₁ _ => hq s₁ (h₁ _ _ _ _ h)

theorem safe_send {idle : Bool} {path : String} (o : RequestOptions) (bearer : Option String)
    (hpath : path ≠ refreshPath) (h : At p sent received access (.calling idle) s) :
    liveContract.Safe p (fun r t => ∃ resp, r = .ok resp ∧
        At p (sent ++ [request path o bearer]) (received ++ [some resp]) access (.calling true) t)
      (send path o bearer).run s := by
  refine safe_command h fun s₁ x a t hi hat he => ?_
  obtain ⟨hit, hat'⟩ := fetch_call hpath he hi hat
  refine ⟨hit, safe_command hat' fun s₂ x₂ a₂ t₂ hi₂ hat₂ he₂ => ?_⟩
  obtain ⟨hit₂, resp, rfl, hat₃⟩ := response_call he₂ hi₂ hat₂
  exact ⟨hit₂, safe_ret hat₃ fun _ hat₄ => ⟨resp, rfl, hat₄⟩⟩

/-- **the exchange** of the token the hook has read -/
theorem safe_refreshed {token : String} (h : At p sent received access (.asked token) s) :
    liveContract.Safe p (fun r t => ∃ a resp, a ≠ "" ∧ r = .ok (some a) ∧
        At p (sent ++ [refreshRequest token]) (received ++ [resp]) (a :: access) (.calling true) t)
      (refreshed token).run s := by
  refine safe_command h fun s₁ x a t hi hat he => ?_
  obtain ⟨hit, hat'⟩ := fetch_refresh he hi hat
  refine ⟨hit, safe_command hat' fun s₂ x₂ a₂ t₂ hi₂ hat₂ he₂ => ?_⟩
  obtain ⟨hit₂, y, rfl, hat₃⟩ := response_refresh he₂ hi₂ hat₂
  refine ⟨hit₂, safe_command (c := .dispatch (.tokensRefreshed (some y.tokens))) hat₃
    fun s₃ x₃ b t₃ hi₃ hat₄ he₃ => ?_⟩
  obtain ⟨hit₃, rfl, access', hne, haccess, hat₅⟩ := dispatch_refresh he₃ hi₃ hat₄
  exact ⟨hit₃, safe_ret hat₅ fun _ hat₆ => ⟨access', _, hne, congrArg Except.ok haccess, hat₆⟩⟩

theorem safe_installRefresh (h : At p sent received access (.calling true) s) :
    liveContract.Safe p (fun r t => ∃ a resp token, a ≠ "" ∧ r = some a ∧
        At p (sent ++ [refreshRequest token]) (received ++ [resp]) (a :: access) (.calling true) t)
      installRefresh s := by
  rw [installRefresh_eq]
  refine safe_command h fun s₁ x a t hi hat he => ?_
  obtain ⟨hit, token, htruthy, hat'⟩ := refreshToken_call he hi hat
  refine ⟨hit, ?_⟩
  show liveContract.Safe p _ (refreshWith a) t
  unfold refreshWith
  rw [htruthy]
  refine Contract.Safe.bind hit (safe_refreshed hat') fun r t₂ _ hq => ?_
  obtain ⟨access', resp, hne, rfl, hat₂⟩ := hq
  exact safe_ret hat₂ fun _ hat₃ => ⟨access', resp, token, hne, rfl, hat₃⟩

/-- a call that was refused has done one refresh and one retry -/
def Retried (c : ApiCall) (sent : List HttpRequest) (received : List (Option Response))
    (access : List String) : Prop :=
  ∀ r, received.head? = some (some r) → r.status = 401 →
    ∃ token a, a ≠ "" ∧ a ∈ access ∧ sent = [c.first, refreshRequest token, c.retry a]

def Handled (c : ApiCall) (p : P) (s : Tab P Sessions) : Prop :=
  Retried c (s.sent p) (s.received p) s.server.issued

theorem At.handled {c : ApiCall} {ph : Phase} (h : At p sent received access ph s)
    (hr : Retried c sent received access) : Handled c p s := by
  intro r hhead hstatus
  rw [h.received] at hhead
  obtain ⟨token, a, hne, ha, hsent⟩ := hr r hhead hstatus
  exact ⟨token, a, hne, h.access a ha, h.sent.trans hsent⟩

/-- what is left of a call after its first answer -/
theorem safe_retried (c : ApiCall) {resp : Response}
    (h : At p [c.first] [some resp] [] (.calling true) s) (hi : Live s) :
    liveContract.Safe p (fun _ t => ∃ sent received access,
        At p sent received access (.calling true) t ∧ Retried c sent received access)
      (retried (some installRefresh) c.path c.options resp).run s := by
  unfold retried
  split
  · refine Contract.Safe.bindE hi (Q := fun r t => ∃ a resp' token, a ≠ "" ∧ r = .ok (some a) ∧
        At p [c.first, refreshRequest token] [some resp, resp'] [a] (.calling true) t) ?_
      (fun r t ht hq => ?_) fun e t _ hq => ?_
    · refine Contract.Safe.bind hi (safe_installRefresh h) fun r t _ hq => ?_
      obtain ⟨a, resp', token, hne, rfl, hat⟩ := hq
      exact safe_ret hat fun _ hat' => ⟨a, resp', token, hne, rfl, hat'⟩
    · obtain ⟨a, resp', token, hne, hr, hat⟩ := hq
      obtain rfl : r = some a := Except.ok.inj hr
      have htruthy : truthy (some a) = some a := if_neg hne
      show liveContract.Safe p _
        (ExceptT.run (match truthy (some a) with | some refreshed => _ | none => _)) t
      rw [htruthy]
      refine (safe_send c.options (some a) c.ordinary hat).mono fun r t₂ _ hq => ?_
      obtain ⟨resp₂, -, hat₂⟩ := hq
      exact ⟨_, _, _, hat₂, fun r _ _ => ⟨token, a, hne, List.mem_singleton_self _, rfl⟩⟩
    · obtain ⟨_, _, _, _, hr, -⟩ := hq
      cases hr
  · rename_i hrefused
    refine safe_ret h fun _ hat => ⟨_, _, _, hat, fun r hhead hstatus => ?_⟩
    obtain rfl : resp = r := Option.some.inj (Option.some.inj hhead)
    exact absurd ⟨hstatus, c.retries⟩ hrefused

theorem safe_call (c : ApiCall) (h : At p [] [] [] (.calling true) s) (hi : Live s) :
    liveContract.Safe p (fun _ t => Handled c p t) c.invocation.task s := by
  refine Contract.Safe.bindE hi (safe_send c.options _ c.ordinary h) (fun resp t ht hq => ?_)
    fun e t _ hq => ?_
  · obtain ⟨resp', hresp, hat⟩ := hq
    obtain rfl : resp = resp' := Except.ok.inj hresp
    refine Contract.Safe.bindE ht (safe_retried c hat ht) (fun r t₂ _ hq => ?_) fun e t₂ _ hq => ?_
    · obtain ⟨_, _, _, hat₂, hret⟩ := hq
      exact safe_ret hat₂ fun _ hat₃ => hat₃.handled hret
    · obtain ⟨_, _, _, hat₂, hret⟩ := hq
      exact safe_ret hat₂ fun _ hat₃ => hat₃.handled hret
  · obtain ⟨_, hresp, -⟩ := hq
    cases hresp

end

/-! ## runs -/

/-- the client has this token: from the start, or from an answer -/
def Delivered (first : String) (s : Tab P Sessions) (token : String) : Prop :=
  token = first ∨ ∃ p r tokens, some r ∈ s.received p ∧ r.payload = some (.tokens tokens) ∧
    tokens.refreshToken = some token

/-- a tab with a session that the server knows -/
def startRefused (calls : P → ApiCall) (client : Client) (server : Sessions) : Config P Sessions :=
  start (fun p => (calls p).invocation) client server

theorem runs_live {calls : P → ApiCall} {client : Client} {server : Sessions} {first : String}
    (hstored : client.auth.refreshToken = some first) (hne : first ≠ "")
    (hu : first ∈ server.usable) {σ : Config P Sessions}
    (h : Runs (refreshWeb true).machine (startRefused calls client server) σ) :
    Live σ.state ∧ ∀ p m, σ.prog p = some m →
      liveContract.Safe p (fun _ t => Handled (calls p) p t) m σ.state := by
  have hlive : Live (startRefused calls client server).state :=
    ⟨rfl, .inl rfl, fun _ => ⟨first, hstored, hne, hu⟩, fun _ _ hq => (nomatch hq),
      fun _ hq => nomatch hq⟩
  have hat : ∀ p : P, At p [] [] [] (.calling true) (startRefused calls client server).state :=
    fun p => ⟨rfl, rfl, fun _ ha => absurd ha List.not_mem_nil,
      fun _ he => absurd he List.not_mem_nil, fun _ => rfl⟩
  refine liveContract.runs (Q := fun p _ t => Handled (calls p) p t) h hlive fun p m hm => ?_
  obtain rfl : (calls p).invocation.task = m := Option.some.inj hm
  exact safe_call (calls p) (hat p) hlive

/-- **Refused calls do not end a live session**: while no hook looks for the refresh token during
the exchange of another, no hook is ever about to end the session while the client has a usable
refresh token, and every call that was refused has been retried with an access token when it
returns. -/
theorem refused_calls_retried (calls : P → ApiCall) (client : Client) (server : Sessions)
    {first : String} (hstored : client.auth.refreshToken = some first) (hne : first ≠ "")
    (hu : first ∈ server.usable) {σ : Config P Sessions}
    (h : Runs (refreshWeb true).machine (startRefused calls client server) σ) :
    (∀ p k, σ.prog p = some (.call (.dispatch .sessionCleared) k) →
      ∀ token ∈ σ.state.server.usable, ¬Delivered first σ.state token) ∧
    ∀ p r, σ.prog p = some (.ret r) → Handled (calls p) p σ.state := by
  obtain ⟨hlive, hsafe⟩ := runs_live hstored hne hu h
  refine ⟨fun p k hp token _ _ => ?_, fun p r hp => ?_⟩
  · -- after the dispatch the session would have ended
    have hnext := hsafe p _ hp σ.state (liveContract.rely_refl p _) hlive ⟨0, false, none⟩ _ _ rfl
    have hend : ((σ.state.ended || true) && !false) = false := hnext.1.alive
    rw [Bool.or_true] at hend
    cases hend
  · exact hsafe p _ hp σ.state (liveContract.rely_refl p _) hlive

end

/-! ## two calls -/

def sampleCall : ApiCall where
  path := "/api/requests/me"
  options := authorizedGet (some "access")
  ordinary := by decide
  retries := rfl

def sampleClient : Client := Client.start (some ⟨some "access", some "refresh", some 60⟩) false

def sampleSessions : Sessions := ⟨["refresh"], ["access"]⟩

def proceed (n : Nat) (p : Fin 2) : List (Act (Fin 2) (Choice (Fin 2) Reply)) :=
  List.replicate n (.exec p ⟨0, false, none⟩)

def reply (p : Fin 2) (y : Reply) : List (Act (Fin 2) (Choice (Fin 2) Reply)) :=
  [.env ⟨0, false, some (p, some y)⟩]

def refusal : Reply := ⟨"", "", 0, ⟨401, some .null⟩⟩

/-- the pair number `n`, or data -/
def pair (n : String) : Reply :=
  ⟨"access-" ++ n, "refresh-" ++ n, 3600, ⟨200, some (.other none)⟩⟩

/-- both calls are refused -/
def refusals : List (Act (Fin 2) (Choice (Fin 2) Reply)) :=
  proceed 1 0 ++ proceed 1 1 ++ reply 0 refusal ++ reply 1 refusal ++ proceed 1 0 ++ proceed 1 1

def returned (σ : Config (Fin 2) Sessions) (p : Fin 2) : Bool :=
  match σ.prog p with
  | some (.ret _) => true
  | _ => false

theorem returned_iff {σ : Config (Fin 2) Sessions} {p : Fin 2} (h : returned σ p = true) :
    ∃ r, σ.prog p = some (.ret r) := by
  unfold returned at h
  split at h
  · rename_i r hr
    exact ⟨r, hr⟩
  · cases h

/-- the call is about to end the session -/
def clearing (σ : Config (Fin 2) Sessions) (p : Fin 2) : Bool :=
  match σ.prog p with
  | some (.call (.dispatch .sessionCleared) _) => true
  | _ => false

theorem clearing_iff {σ : Config (Fin 2) Sessions} {p : Fin 2} (h : clearing σ p = true) :
    ∃ k, σ.prog p = some (.call (.dispatch .sessionCleared) k) := by
  unfold clearing at h
  split at h
  · rename_i k hk
    exact ⟨k, hk⟩
  · cases h

/-- one exchange after the other: both calls are retried -/
theorem refused_calls_retried_in_turn :
    ∃ σ, Runs (refreshWeb true).machine
        (startRefused (fun _ : Fin 2 => sampleCall) sampleClient sampleSessions) σ ∧
      (∃ r, σ.prog 0 = some (.ret r)) ∧ (∃ r, σ.prog 1 = some (.ret r)) ∧
      Handled sampleCall 0 σ.state ∧ Handled sampleCall 1 σ.state := by
  obtain ⟨σ, hr, hσ⟩ := Runs.exists_of_run (M := (refreshWeb true).machine)
    (σ := startRefused (fun _ : Fin 2 => sampleCall) sampleClient sampleSessions)
    (refusals ++ proceed 2 0 ++ reply 0 (pair "2") ++ proceed 2 0 ++
      proceed 2 1 ++ reply 1 (pair "3") ++ proceed 2 1 ++
      proceed 1 0 ++ reply 0 (pair "4") ++ proceed 1 0 ++
      proceed 1 1 ++ reply 1 (pair "4") ++ proceed 1 1)
    (f := fun σ => (returned σ 0, returned σ 1)) (b := (true, true)) (by decide +kernel)
  obtain ⟨r, h0⟩ := returned_iff (congrArg Prod.fst hσ)
  obtain ⟨r', h1⟩ := returned_iff (congrArg Prod.snd hσ)
  have hall := (refused_calls_retried (fun _ => sampleCall) sampleClient sampleSessions rfl
    (by decide) List.mem_cons_self hr).2
  exact ⟨σ, hr, ⟨r, h0⟩, ⟨r', h1⟩, hall 0 r h0, hall 1 r' h1⟩

/-- both hooks read the token before either exchanges it.  The first brings a new pair, the second is
refused and ends the session, although the client has a token that is usable. -/
theorem live_session_cleared :
    ∃ σ, Runs (refreshWeb false).machine
        (startRefused (fun _ : Fin 2 => sampleCall) sampleClient sampleSessions) σ ∧
      (∃ k, σ.prog 1 = some (.call (.dispatch .sessionCleared) k)) ∧
      ∃ token ∈ σ.state.server.usable, Delivered "refresh" σ.state token := by
  obtain ⟨σ, hr, hσ⟩ := Runs.exists_of_run (M := (refreshWeb false).machine)
    (σ := startRefused (fun _ : Fin 2 => sampleCall) sampleClient sampleSessions)
    (refusals ++ proceed 2 0 ++ proceed 2 1 ++ reply 0 (pair "2") ++ proceed 2 0 ++
      reply 1 (pair "3") ++ proceed 1 1)
    (f := fun σ => (clearing σ 1, σ.state.server.usable, σ.state.received 0))
    (b := (true, ["refresh-2"],
      [some ⟨401, some .null⟩, some ⟨200, some (.tokens (pair "2").tokens)⟩]))
    (by decide +kernel)
  have husable : σ.state.server.usable = ["refresh-2"] := congrArg (·.2.1) hσ
  have hreceived : σ.state.received 0 =
      [some ⟨401, some .null⟩, some ⟨200, some (.tokens (pair "2").tokens)⟩] :=
    congrArg (·.2.2) hσ
  refine ⟨σ, hr, clearing_iff (congrArg Prod.fst hσ), "refresh-2", ?_, .inr ?_⟩
  · rw [husable]
    exact List.mem_singleton_self _
  · refine ⟨0, ⟨200, some (.tokens (pair "2").tokens)⟩, (pair "2").tokens, ?_, rfl, rfl⟩
    rw [hreceived]
    exact List.mem_cons_of_mem _ List.mem_cons_self

end Marketplace.Frontend
