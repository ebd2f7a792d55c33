import Marketplace.Frontend.Exchange
import Marketplace.Auth.Rotation

/-!
# The refresh exchange, from the hook of the client to auth-service

* `AuthController.refreshToken`   the decoder: the token is in the header `X-Refresh-Token`, which is
                     required;
* `authWeb`          auth-service behind the gateway, which passes requests on as they are.  What Spring
                     answers where the header is missing is left open, but it is not ok;
* `Exchanged`        what the exchange of a refused call should have done;
* `exchange_never_works`   it never does: the client has the token in the body.
-/

set_option linter.unusedSectionVars false

namespace Marketplace.System

open Interleave Frontend
open Auth (AuthServiceImpl Db)

/-! ## the server -/

/-- header names have no case -/
def header (name : String) (r : HttpRequest) : Option String :=
  (r.headers.find? fun h => h.1.toLower == name.toLower).map (·.2)

inductive MissingHeader where
  | missing

def AuthController.refreshToken (r : HttpRequest) : Except MissingHeader Auth.Invocation :=
  match header "X-Refresh-Token" r with
  | some token => .ok (.refreshToken token)
  | none => .error .missing

/-- how the transaction of a call goes, or the answer to another request -/
structure AuthReply where
  schedule : List (Act Unit (Service.Choice Unit))
  other : Response

/-- what the service has answered, and its tables -/
def authResponse (σ : Auth.Config Unit) : Option (Response × Db) :=
  match σ.prog () with
  | some (.ret (.ok (.tokens t))) =>
    some (⟨200, some (.tokens ⟨some t.accessToken, some t.refreshToken, some t.expiresIn⟩)⟩,
      σ.state.store.committed)
  | some (.ret (.ok .noContent)) => some (⟨204, some .null⟩, σ.state.store.committed)
  | some (.ret (.error e)) =>
    some (⟨e.status, some (.other (some e.message))⟩, σ.state.store.committed)
  | _ => none

def serveAuth (A : AuthServiceImpl) (missing : Response) (r : HttpRequest) (y : AuthReply) (d : Db) :
    Option (Response × Db) :=
  if r.path = refreshPath then
    match AuthController.refreshToken r with
    | .ok i =>
      (Auth.spec.machine.run (Auth.start A (fun _ : Unit => i) d) y.schedule).bind authResponse
    | .error _ => some (missing, d)
  else some (y.other, d)

def authWeb (A : AuthServiceImpl) (missing : Response) : Web AuthReply Db where
  serve := serveAuth A missing
  lossy := false
  exclusive := false
  settled := false

/-! ## the property -/

/-- the service would exchange this token -/
structure Usable (A : AuthServiceImpl) (token : String) (now : Time) (d : Db) : Prop where
  valid : A.jwtUtil.isTokenValid token now = true
  refresh : A.jwtUtil.isRefreshToken token now = .ok true
  stored : ∃ row, d.findByTokenHash (A.hash token) = some row ∧ row.isUsable now = true

/-- the exchange has worked: the token was presented, the new pair is installed, the call was retried
with it, and the session has ended only if the token was not usable -/
structure Exchanged (A : AuthServiceImpl) (c : ApiCall) (token : String) (s : Tab Unit Db) :
    Prop where
  presented : ∃ r ∈ s.sent (), r.path = refreshPath ∧
    AuthController.refreshToken r = .ok (.refreshToken token)
  installed : ∃ tokens, some ⟨200, some (.tokens tokens)⟩ ∈ s.received () ∧
    s.client.auth.accessToken = tokens.accessToken ∧
    s.client.auth.refreshToken = tokens.refreshToken
  retried : ∃ access, s.sent () = [c.first, refreshRequest token, c.retry access]
  kept : s.ended = true → ∀ now, ¬Usable A token now s.server

def startCall (c : ApiCall) (client : Client) (d : Db) : Config Unit Db :=
  Frontend.start (fun _ => c.invocation) client d

/-- the call has returned, and its first answer was a 401 -/
structure Refused (A : AuthServiceImpl) (missing : Response) (c : ApiCall) (client : Client) (d : Db)
    (σ : Config Unit Db) : Prop where
  run : Runs (authWeb A missing).machine (startCall c client d) σ
  returned : ∃ r, σ.prog () = some (.ret r)
  refused : ∃ r, (σ.state.received ()).head? = some (some r) ∧ r.status = 401

def ExchangeWorks (A : AuthServiceImpl) (missing : Response) (c : ApiCall) (client : Client) (d : Db)
    (token : String) : Prop :=
  ∀ σ, Refused A missing c client d σ → Exchanged A c token σ.state

/-! ## what happens -/

theorem decode_refreshRequest (token : String) :
    AuthController.refreshToken (refreshRequest token) = .error .missing := by
  have hheaders : (refreshRequest token).headers = [("Content-Type", "application/json")] := rfl
  have hnone : header "X-Refresh-Token" (refreshRequest token) = none := by
    unfold header
    rw [hheaders]
    decide +kernel
  unfold AuthController.refreshToken
  rw [hnone]

section
variable {A : AuthServiceImpl} {missing : Response} {d : Db} {s t : Tab Unit Db}
  {x : Frontend.Choice Unit AuthReply}

/-- the answer to a request that is not decoded -/
theorem serve_undecoded {r : HttpRequest} {y : AuthReply} {a : Response × Db}
    (hr : r.path = refreshPath → AuthController.refreshToken r = .error .missing)
    (h : serveAuth A missing r y d = some a) :
    a.2 = d ∧ (r.path = refreshPath → a.1 = missing) := by
  unfold serveAuth at h
  split at h
  · rename_i hp
    rw [hr hp] at h
    cases h
    exact ⟨rfl, fun _ => rfl⟩
  · rename_i hp
    cases h
    exact ⟨rfl, fun hp' => absurd hp' hp⟩

/-- what is on the wire: nothing, or a request, or its answer -/
def OnWire (missing : Response) (s : Tab Unit Db) : Option HttpRequest → Prop
  | none => s.net () = .idle
  | some r =>
    (r.path = refreshPath → AuthController.refreshToken r = .error .missing) ∧
      (s.net () = .sent r ∨
        ∃ a, s.net () = .answered (some a) ∧ (r.path = refreshPath → a = missing))

/-- how far the call is.  The tables of the service are as they were. -/
structure Stage (missing : Response) (d : Db) (sent : List HttpRequest)
    (received : List (Option Response)) (client : Client) (ended : Bool)
    (wire : Option HttpRequest) (s : Tab Unit Db) : Prop where
  sent : s.sent () = sent
  received : s.received () = received
  client : s.client = client
  ended : s.ended = ended
  server : s.server = d
  wire : OnWire missing s wire

variable {sent : List HttpRequest} {received : List (Option Response)} {client : Client}
  {ended : Bool} {wire : Option HttpRequest}

theorem Stage.deliver (h : Stage missing d sent received client ended wire s)
    (hd : deliver (authWeb A missing) x s = some t) :
    Stage missing d sent received client ended wire t := by
  rcases deliver_cases hd with ⟨q, hl, -, -⟩ | ⟨q, r, y, a, hnet, hserve, rfl⟩
  · cases hl
  obtain rfl : q = () := rfl
  change serveAuth A missing r y s.server = some a at hserve
  cases wire with
  | none => cases h.wire.symm.trans hnet
  | some r' =>
    obtain ⟨hdec, hsent | ⟨a', ha', -⟩⟩ := h.wire
    · obtain rfl : r' = r := Wire.sent.inj (hsent.symm.trans hnet)
      obtain ⟨hsame, hmissing⟩ := serve_undecoded hdec hserve
      exact ⟨h.sent, h.received, h.client, h.ended, hsame.trans h.server, hdec,
        .inr ⟨a.1, Function.update_self () _ s.net, hmissing⟩⟩
    · cases ha'.symm.trans hnet

theorem Stage.fetch {r : HttpRequest} {a : Unit}
    (h : Stage missing d sent received client ended none s)
    (hr : r.path = refreshPath → AuthController.refreshToken r = .error .missing)
    (he : exec (authWeb A missing) () (.fetch r) x s = some (a, t)) :
    Stage missing d (sent ++ [r]) received client ended (some r) t := by
  obtain rfl := exec_fetch he
  refine ⟨?_, h.received, h.client, h.ended, h.server, hr, .inl (Function.update_self () _ s.net)⟩
  show Function.update s.sent () (s.sent () ++ [r]) () = sent ++ [r]
  rw [Function.update_self, h.sent]

theorem Stage.response {r : HttpRequest} {a : Option Response}
    (h : Stage missing d sent received client ended (some r) s)
    (he : exec (authWeb A missing) () .response x s = some (a, t)) :
    ∃ resp, a = some resp ∧ (r.path = refreshPath → resp = missing) ∧
      Stage missing d sent (received ++ [some resp]) client ended none t := by
  obtain ⟨hnet, rfl⟩ := exec_response he
  obtain ⟨-, hsent | ⟨resp, hresp, hmissing⟩⟩ := h.wire
  · cases hsent.symm.trans hnet
  · obtain rfl : some resp = a := Wire.answered.inj (hresp.symm.trans hnet)
    refine ⟨resp, rfl, hmissing, h.sent, ?_, h.client, h.ended, h.server,
      Function.update_self () _ s.net⟩
    show Function.update s.received () (s.received () ++ [some resp]) () = received ++ [some resp]
    rw [Function.update_self, h.received]

theorem Stage.refreshToken {a : Option String}
    (h : Stage missing d sent received client ended wire s)
    (he : exec (authWeb A missing) () .refreshToken x s = some (a, t)) :
    a = client.auth.refreshToken ∧ Stage missing d sent received client ended wire t := by
  obtain ⟨rfl, -, rfl⟩ := exec_refreshToken he
  refine ⟨by rw [h.client], h.sent, h.received, h.client, h.ended, h.server, ?_⟩
  cases wire with
  | none => exact h.wire
  | some r => exact h.wire

/-- the end of the session -/
theorem Stage.clear {b : Bool} (h : Stage missing d sent received client ended wire s)
    (he : exec (authWeb A missing) () (.dispatch .sessionCleared) x s = some (b, t)) :
    ∃ c, c.auth.accessToken = none ∧ c.auth.refreshToken = none ∧
      Stage missing d sent received c true wire t := by
  obtain ⟨-, -, rfl⟩ := exec_dispatch he
  refine ⟨_, ?_, ?_, h.sent, h.received, rfl, Bool.and_eq_true_iff.mpr ⟨Bool.or_true _, rfl⟩,
    h.server, ?_⟩
  · unfold Client.dispatch Client.store
    cases x.throws <;> rfl
  · unfold Client.dispatch Client.store
    cases x.throws <;> rfl
  · cases wire with
    | none => exact h.wire
    | some r => exact h.wire

/-! ## every run -/

def stageContract (A : AuthServiceImpl) (missing : Response) (d : Db) :
    Contract (authWeb A missing).machine (P := Unit) where
  Inv _ := True
  Rely _ s t := ∀ sent received client ended wire,
    Stage missing d sent received client ended wire s →
      Stage missing d sent received client ended wire t
  rely_refl _ _ _ _ _ _ _ := id
  rely_trans _ _ _ _ h h' sent received client ended wire hs :=
    h' sent received client ended wire (h sent received client ended wire hs)
  exec_rely hne := absurd rfl hne
  crash_inv h := h
  crash_rely hne := absurd rfl hne
  env_inv _ _ := trivial
  env_rely _ h _ _ _ _ _ hs := hs.deliver h

theorem safe_stage {α : Type} {Q : α → Tab Unit Db → Prop} {c : Cmd} {k : Ans c → Frontend.Task α}
    (h : Stage missing d sent received client ended wire s)
    (hc : ∀ s x a t, Stage missing d sent received client ended wire s →
      exec (authWeb A missing) () c x s = some (a, t) →
        (stageContract A missing d).Safe () Q (k a) t) :
    (stageContract A missing d).Safe () Q (.call c k) s :=
  fun s₁ h₁ _ x a s₂ he => ⟨trivial, hc s₁ x a s₂ (h₁ _ _ _ _ _ h) he⟩

theorem safe_done {α : Type} {Q : α → Tab Unit Db → Prop} {a : α}
    (h : Stage missing d sent received client ended wire s)
    (hq : ∀ s, Stage missing d sent received client ended wire s → Q a s) :
    (stageContract A missing d).Safe () Q (.ret a) s :=
  fun s₁ h₁ _ => hq s₁ (h₁ _ _ _ _ _ h)

theorem safe_sending {path : String} (o : RequestOptions) (bearer : Option String)
    (hpath : path = refreshPath →
      AuthController.refreshToken (request path o bearer) = .error .missing)
    (h : Stage missing d sent received client ended none s) :
    (stageContract A missing d).Safe () (fun r t => ∃ resp, r = .ok resp ∧
        (path = refreshPath → resp = missing) ∧
        Stage missing d (sent ++ [request path o bearer]) (received ++ [some resp]) client ended
          none t) (send path o bearer).run s := by
  refine safe_stage h fun s₁ x a t hs he => ?_
  refine safe_stage (hs.fetch hpath he) fun s₂ x₂ a₂ t₂ hs₂ he₂ => ?_
  obtain ⟨resp, rfl, hmissing, hs₃⟩ := hs₂.response he₂
  exact safe_done hs₃ fun _ hs₄ => ⟨resp, rfl, hmissing, hs₄⟩

/-- an answer that is not ok throws -/
theorem result_missing (hm : missing.ok = false) : ∃ e, result missing = .error e := by
  unfold result
  rw [hm]
  cases missing.payload with
  | none => exact ⟨_, rfl⟩
  | some payload => exact ⟨_, rfl⟩

theorem retried_none (path : String) (o : RequestOptions) (resp : Response) :
    (retried none path o resp).run = .ret (.ok resp) := by
  unfold retried
  split
  · rfl
  · rfl

theorem safe_exchange (hm : missing.ok = false) {token : String}
    (h : Stage missing d sent received client ended none s) :
    (stageContract A missing d).Safe () (fun r t => (∃ e, r = .error e) ∧
        Stage missing d (sent ++ [refreshRequest token]) (received ++ [some missing]) client ended
          none t) (refreshed token).run s := by
  refine Contract.Safe.bindE (Q := fun r t => (∃ e, r = .error e) ∧
      Stage missing d (sent ++ [refreshRequest token]) (received ++ [some missing]) client ended
        none t) trivial ?_ (fun r t _ hq => ?_) fun e t _ hq => ?_
  · refine Contract.Safe.bindE trivial (safe_sending (refreshOptions token) none
      (fun _ => decode_refreshRequest token) h) (fun resp t _ hq => ?_) fun e t _ hq => ?_
    · obtain ⟨resp', hresp, hmissing, hs⟩ := hq
      obtain rfl : resp = resp' := Except.ok.inj hresp
      obtain rfl : resp = missing := hmissing rfl
      show (stageContract A resp d).Safe () _
        ((retried none refreshPath (refreshOptions token) resp).run >>= _) t
      rw [retried_none]
      exact safe_done hs fun _ hs' => ⟨result_missing hm, hs'⟩
    · obtain ⟨_, hresp, -⟩ := hq
      cases hresp
  · obtain ⟨⟨e, he⟩, -⟩ := hq
    cases he
  · exact safe_done hq.2 fun _ hs => ⟨⟨e, rfl⟩, hs⟩

/-- **the hook** is answered that a header is missing, and ends the session -/
theorem safe_hook (hm : missing.ok = false) {token : String}
    (hstored : client.auth.refreshToken = some token) (hne : token ≠ "")
    (h : Stage missing d sent received client ended none s) :
    (stageContract A missing d).Safe () (fun r t => r = none ∧ ∃ c, c.auth.accessToken = none ∧
        c.auth.refreshToken = none ∧
        Stage missing d (sent ++ [refreshRequest token]) (received ++ [some missing]) c true none t)
      installRefresh s := by
  rw [installRefresh_eq]
  refine safe_stage h fun s₁ x a t hs he => ?_
  obtain ⟨rfl, hs'⟩ := hs.refreshToken he
  have htruthy : truthy client.auth.refreshToken = some token := by
    rw [hstored]
    exact if_neg hne
  show (stageContract A missing d).Safe () _ (refreshWith client.auth.refreshToken) t
  unfold refreshWith
  rw [htruthy]
  refine Contract.Safe.bind trivial (safe_exchange hm hs') fun r t₂ _ hq => ?_
  obtain ⟨⟨e, rfl⟩, hs₂⟩ := hq
  refine safe_stage hs₂ fun s₃ x₃ b t₃ hs₃ he₃ => ?_
  obtain ⟨c, ha, hr, hs₄⟩ := hs₃.clear he₃
  exact safe_done hs₄ fun _ hs₅ => ⟨rfl, c, ha, hr, hs₅⟩

/-- what has become of a call that was refused: one exchange in vain, and no session -/
structure Failed (missing : Response) (c : ApiCall) (token : String) (d : Db) (s : Tab Unit Db) :
    Prop where
  sent : s.sent () = [c.first, refreshRequest token]
  received : ∃ r, s.received () = [some r, some missing]
  accessToken : s.client.auth.accessToken = none
  refreshToken : s.client.auth.refreshToken = none
  ended : s.ended = true
  server : s.server = d

theorem safe_refused (hm : missing.ok = false) (c : ApiCall) {token : String}
    (hstored : client.auth.refreshToken = some token) (hne : token ≠ "")
    (h : Stage missing d [] [] client false none s) :
    (stageContract A missing d).Safe () (fun _ t =>
        (∃ r, (t.received ()).head? = some (some r) ∧ r.status = 401) → Failed missing c token d t)
      c.invocation.task s := by
  refine Contract.Safe.bindE trivial (safe_sending c.options _ (fun hp => absurd hp c.ordinary) h)
    (fun resp t _ hq => ?_) fun e t _ hq => ?_
  · obtain ⟨resp', hresp, -, hs⟩ := hq
    obtain rfl : resp = resp' := Except.ok.inj hresp
    refine Contract.Safe.bindE trivial (Q := fun _ t => ∃ sent received client ended,
      Stage missing d sent received client ended none t ∧
        ∀ t, Stage missing d sent received client ended none t →
          (∃ r, (t.received ()).head? = some (some r) ∧ r.status = 401) →
            Failed missing c token d t) ?_ (fun r t₂ _ hq => ?_) fun e t₂ _ hq => ?_
    · unfold retried
      split
      · refine Contract.Safe.bindE trivial (Q := fun r t => r = .ok none ∧ ∃ c', c'.auth.accessToken =
            none ∧ c'.auth.refreshToken = none ∧
            Stage missing d [c.first, refreshRequest token] [some resp, some missing] c' true none
              t) ?_ (fun r t₂ _ hq => ?_) fun e t₂ _ hq => ?_
        · refine Contract.Safe.bind trivial (safe_hook hm hstored hne hs) fun r t₂ _ hq => ?_
          obtain ⟨rfl, c', ha, hr, hs₂⟩ := hq
          exact safe_done hs₂ fun _ hs₃ => ⟨rfl, c', ha, hr, hs₃⟩
        · obtain ⟨hr, c', ha, hrt, hs₂⟩ := hq
          obtain rfl : r = none := Except.ok.inj hr
          refine safe_done hs₂ fun _ hs₃ => ⟨_, _, _, _, hs₃, fun t₄ hs₄ _ => ?_⟩
          exact ⟨hs₄.sent, ⟨resp, hs₄.received⟩, hs₄.client ▸ ha, hs₄.client ▸ hrt, hs₄.ended,
            hs₄.server⟩
        · obtain ⟨hr, -⟩ := hq
          cases hr
      · rename_i hrefused
        refine safe_done hs fun _ hs₂ => ⟨_, _, _, _, hs₂, fun t₃ hs₃ hhead => ?_⟩
        obtain ⟨r, hr, hstatus⟩ := hhead
        rw [hs₃.received] at hr
        obtain rfl : resp = r := Option.some.inj (Option.some.inj hr)
        exact absurd ⟨hstatus, c.retries⟩ hrefused
    · obtain ⟨_, _, _, _, hs₂, hfailed⟩ := hq
      exact safe_done hs₂ hfailed
    · obtain ⟨_, _, _, _, hs₂, hfailed⟩ := hq
      exact safe_done hs₂ hfailed
  · obtain ⟨_, hresp, -⟩ := hq
    cases hresp

theorem refused_failed (hm : missing.ok = false) {c : ApiCall} {token : String}
    (hstored : client.auth.refreshToken = some token) (hne : token ≠ "") {σ : Config Unit Db}
    (h : Refused A missing c client d σ) : Failed missing c token d σ.state := by
  have hstage : Stage missing d [] [] client false none (startCall c client d).state :=
    ⟨rfl, rfl, rfl, rfl, rfl, rfl⟩
  obtain ⟨r, hr⟩ := h.returned
  have hsafe := ((stageContract A missing d).runs (Q := fun _ _ t =>
      (∃ r, (t.received ()).head? = some (some r) ∧ r.status = 401) → Failed missing c token d t)
    h.run trivial fun _ m hm' => by
      obtain rfl : c.invocation.task = m := Option.some.inj hm'
      exact safe_refused hm c hstored hne hstage).2 () _ hr
  exact hsafe σ.state ((stageContract A missing d).rely_refl () _) trivial h.refused

/-! ## a run -/

/-- the rest of the program and the tab after some moves -/
def Advances (A : AuthServiceImpl) (missing : Response) (m : Frontend.Task (Except Err Payload))
    (s : Tab Unit Db) (m' : Frontend.Task (Except Err Payload)) (t : Tab Unit Db) : Prop :=
  Runs (authWeb A missing).machine (R := Except Err Payload) ⟨s, fun _ => some m⟩
    ⟨t, fun _ => some m'⟩

theorem advances_exec {c : Cmd} {k : Ans c → Frontend.Task (Except Err Payload)} {a : Ans c}
    (h : exec (authWeb A missing) () c x s = some (a, t)) :
    Advances A missing (.call c k) s (k a) t := by
  have hrun := Runs.exec (M := (authWeb A missing).machine) (p := ())
    (σ := ⟨s, fun _ => some (.call c k)⟩) rfl h
  have hprog : Function.update (fun _ => some (.call c k)) () (some (k a)) =
      fun _ : Unit => some (k a) := funext fun _ => Function.update_self _ _ _
  rw [hprog] at hrun
  exact hrun

theorem advances_deliver {m : Frontend.Task (Except Err Payload)}
    (h : deliver (authWeb A missing) x s = some t) : Advances A missing m s m t :=
  Runs.env (M := (authWeb A missing).machine) (σ := ⟨s, fun _ => some m⟩) h

/-- a request, its answer, and the receipt -/
theorem advances_send {path : String} (o : RequestOptions) (bearer : Option String)
    (k : Except Err Response → Frontend.Task (Except Err Payload)) (resp : Response)
    (hpath : path = refreshPath →
      AuthController.refreshToken (request path o bearer) = .error .missing ∧ resp = missing)
    (h : Stage missing d sent received client ended none s) :
    ∃ t, Advances A missing ((send path o bearer).run >>= k) s (k (.ok resp)) t ∧
      Stage missing d (sent ++ [request path o bearer]) (received ++ [some resp]) client ended none
        t := by
  let r := request path o bearer
  let s₁ : Tab Unit Db := { s with
    net := Function.update s.net () (.sent r), sent := Function.update s.sent () (s.sent () ++ [r]) }
  let s₂ : Tab Unit Db := { s₁ with net := Function.update s₁.net () (.answered (some resp)) }
  let s₃ : Tab Unit Db := { s₂ with
    net := Function.update s₂.net () .idle
    received := Function.update s₂.received () (s₂.received () ++ [some resp]) }
  have hfetch : exec (authWeb A missing) () (.fetch r) ⟨0, false, none⟩ s = some ((), s₁) := rfl
  have hs₁ : Stage missing d (sent ++ [r]) received client ended (some r) s₁ :=
    h.fetch (fun hp => (hpath hp).1) hfetch
  have hserve : serveAuth A missing r ⟨[], resp⟩ s₁.server = some (resp, s₁.server) := by
    unfold serveAuth
    split
    · rename_i hp
      obtain ⟨hdec, rfl⟩ := hpath hp
      rw [hdec]
    · rfl
  have hdeliver : deliver (authWeb A missing) ⟨0, false, some ((), some ⟨[], resp⟩)⟩ s₁ =
      some s₂ := by
    have hnet : s₁.net () = .sent r := Function.update_self () _ s.net
    unfold deliver
    simp only [hnet]
    show (serveAuth A missing r ⟨[], resp⟩ s₁.server).map _ = some s₂
    rw [hserve]
    rfl
  have hresponse : exec (authWeb A missing) () .response ⟨0, false, none⟩ s₂ =
      some (some resp, s₃) := by
    have hnet : s₂.net () = .answered (some resp) := Function.update_self () _ s₁.net
    unfold exec
    simp only [hnet]
    rfl
  obtain ⟨_, hsome, -, hs₃⟩ := (hs₁.deliver hdeliver).response hresponse
  obtain rfl := Option.some.inj hsome
  have hsent : Advances A missing ((send path o bearer).run >>= k) s
      (Prog.call .response fun a => delivered a >>= k) s₁ := advances_exec hfetch
  exact ⟨s₃, (hsent.trans (advances_deliver hdeliver)).trans (advances_exec hresponse), hs₃⟩

/-- the hook, which is refused -/
theorem advances_hook (hm : missing.ok = false) {token : String}
    (hstored : client.auth.refreshToken = some token) (hne : token ≠ "")
    (k : Option String → Frontend.Task (Except Err Payload))
    (h : Stage missing d sent received client ended none s) :
    ∃ t c, Advances A missing (installRefresh >>= k) s (k none) t ∧
      Stage missing d (sent ++ [refreshRequest token]) (received ++ [some missing]) c true none t := by
  let s₁ : Tab Unit Db := { s with exchanging := ((), token) :: s.exchanging }
  let sending : Frontend.Task (Except Err Response) :=
    (send refreshPath (refreshOptions token) none).run
  let answered : Except Err Response → Frontend.Task (Except Err Payload) :=
    ExceptT.bindCont fun response => do
      let response ← retried none refreshPath (refreshOptions token) response
      api.liftExcept (result response)
  let dispatched : Except Err Payload → Frontend.Task (Except Err (Option String)) :=
    ExceptT.bindCont fun payload => do
      if ← command (.dispatch (.tokensRefreshed payload.asTokens)) then
        return payload.asTokens.bind (·.accessToken)
      else throw .typeError
  have htruthy : truthy (some token) = some token := if_neg hne
  have hstored' : s.client.auth.refreshToken = some token := by
    rw [h.client]
    exact hstored
  have hlook : exec (authWeb A missing) () .refreshToken ⟨0, false, none⟩ s =
      some (some token, s₁) := by
    unfold exec
    simp only [hstored', htruthy]
    rfl
  have hs₁ : Stage missing d sent received client ended none s₁ := (h.refreshToken hlook).2
  have hfound : refreshWith (some token) = (refreshed token).run >>= exchanged := by
    unfold refreshWith
    rw [htruthy]
  have hhook : Advances A missing (installRefresh >>= k) s (refreshWith (some token) >>= k) s₁ := by
    rw [installRefresh_eq]
    exact advances_exec hlook
  have hrest : (((refreshed token).run >>= exchanged) >>= k) =
      sending >>= fun r => ((answered r >>= dispatched) >>= exchanged) >>= k := by
    show (((sending >>= answered) >>= dispatched) >>= exchanged) >>= k = _
    rw [Prog.bind_bind, Prog.bind_bind, Prog.bind_bind]
    refine congrArg _ (funext fun r => ?_)
    rw [Prog.bind_bind, Prog.bind_bind]
  rw [hfound, hrest] at hhook
  obtain ⟨s₂, hsent, hs₂⟩ := advances_send (refreshOptions token) none
    (fun r => ((answered r >>= dispatched) >>= exchanged) >>= k) missing
    (fun _ => ⟨decode_refreshRequest token, rfl⟩) hs₁
  obtain ⟨e, he⟩ := result_missing hm
  have hthrown : answered (.ok missing) = .ret (.error e) := by
    show (retried none refreshPath (refreshOptions token) missing).run >>= _ = _
    rw [retried_none]
    show Prog.ret (result missing) = _
    rw [he]
  rw [hthrown] at hsent
  have hclear : exec (authWeb A missing) () (.dispatch .sessionCleared) ⟨0, false, none⟩ s₂ =
    some (true, _) := rfl
  obtain ⟨c, -, -, hs₃⟩ := hs₂.clear hclear
  exact ⟨_, c, (hhook.trans hsent).trans (advances_exec hclear), hs₃⟩

/-- a call is refused, and returns -/
theorem exists_refused (hm : missing.ok = false) (c : ApiCall) {token : String}
    (hstored : client.auth.refreshToken = some token) (hne : token ≠ "") :
    ∃ σ, Refused A missing c client d σ := by
  let refusal : Response := ⟨401, some .null⟩
  let returned : Except Err Response → Frontend.Task (Except Err Payload) :=
    ExceptT.bindCont fun response => api.liftExcept (result response)
  let handled : Option String → Frontend.Task (Except Err Response) := fun token =>
    match truthy token with
    | some refreshed => (send c.path c.options (some refreshed)).run
    | none => .ret (.ok refusal)
  have hstage : Stage missing d [] [] client false none (startCall c client d).state :=
    ⟨rfl, rfl, rfl, rfl, rfl, rfl⟩
  obtain ⟨s₁, hsent, hs₁⟩ := advances_send (A := A) c.options c.options.token
    (fun r => ExceptT.bindCont (fun response => do
      let response ← retried (some installRefresh) c.path c.options response
      api.liftExcept (result response)) r) refusal (fun hp => absurd hp c.ordinary) hstage
  have hretried : (retried (some installRefresh) c.path c.options refusal).run =
      installRefresh >>= handled := by
    unfold retried
    rw [if_pos ⟨rfl, c.retries⟩]
    show ExceptT.run (liftM installRefresh >>= fun token => match truthy token with
      | some refreshed => send c.path c.options (some refreshed)
      | none => pure refusal) = _
    rw [Prog.run_bind, Prog.run_lift, Prog.bind_bind]
    refine congrArg _ (funext fun token => ?_)
    show ExceptT.run (match truthy token with | some refreshed => _ | none => _) =
      match truthy token with | some refreshed => _ | none => _
    cases truthy token with
    | some refreshed => rfl
    | none => rfl
  obtain ⟨s₂, c', hhook, hs₂⟩ := advances_hook (A := A) hm hstored hne
    (fun r => handled r >>= returned) hs₁
  change Advances A missing c.invocation.task (startCall c client d).state
    ((retried (some installRefresh) c.path c.options refusal).run >>= returned) s₁ at hsent
  rw [hretried, Prog.bind_bind] at hsent
  exact ⟨⟨s₂, fun _ => some (.ret (result refusal))⟩, hsent.trans hhook, ⟨_, rfl⟩, refusal,
    congrArg List.head? hs₂.received, rfl⟩

/-- **The refresh exchange never works**: for every session of the client and every state of
auth-service in which its refresh token is usable, a refused call leaves the client without a
session, and the service as it was. -/
theorem exchange_never_works (hm : missing.ok = false) (c : ApiCall) {token : String}
    (hstored : client.auth.refreshToken = some token) (hne : token ≠ "") {now : Time}
    (hu : Usable A token now d) :
    ¬ExchangeWorks A missing c client d token ∧
      ∀ σ, Refused A missing c client d σ →
        Failed missing c token d σ.state ∧ Usable A token now σ.state.server := by
  have hall : ∀ σ, Refused A missing c client d σ →
      Failed missing c token d σ.state ∧ Usable A token now σ.state.server := by
    intro σ hσ
    have hfailed := refused_failed hm hstored hne hσ
    refine ⟨hfailed, ?_⟩
    rw [hfailed.server]
    exact hu
  refine ⟨fun hworks => ?_, hall⟩
  obtain ⟨σ, hσ⟩ := exists_refused (A := A) (d := d) hm c hstored hne
  obtain ⟨hfailed, husable⟩ := hall σ hσ
  exact (hworks σ hσ).kept hfailed.ended now husable

end

/-! ## one call -/

/-- Spring without the header -/
def badRequest : Response := ⟨400, some (.other none)⟩

def restored : Client := Client.start (some ⟨some "access", some "stolen", some 60⟩) false

theorem usable_stolen : Usable Auth.sampleService "stolen" 1 Auth.sampleDb :=
  ⟨rfl, rfl, ⟨_, rfl, rfl⟩⟩

theorem restored_token : restored.auth.refreshToken = some "stolen" := rfl

theorem refused_sample :
    ∃ σ, Refused Auth.sampleService badRequest sampleCall restored Auth.sampleDb σ :=
  exists_refused rfl sampleCall restored_token (by decide)

/-- a refused call, one exchange and no session any more -/
theorem exchange_fails_once :
    ∃ σ, Refused Auth.sampleService badRequest sampleCall restored Auth.sampleDb σ ∧
      Failed badRequest sampleCall "stolen" Auth.sampleDb σ.state := by
  obtain ⟨σ, hσ⟩ := refused_sample
  exact ⟨σ, hσ, ((exchange_never_works rfl sampleCall restored_token (by decide) usable_stolen).2 σ hσ).1⟩

/-- the client sends the token in the body: the service is not called, and the session ends although
its token is usable -/
theorem exchange_not_decoded :
    ¬ExchangeWorks Auth.sampleService badRequest sampleCall restored Auth.sampleDb "stolen" := by
  intro hworks
  obtain ⟨σ, hσ⟩ := refused_sample
  have hfailed := refused_failed rfl restored_token (by decide) hσ
  obtain ⟨r, hr, hpath, hdecoded⟩ := (hworks σ hσ).presented
  rw [hfailed.sent] at hr
  rcases List.mem_cons.mp hr with rfl | hr
  · exact absurd hpath sampleCall.ordinary
  · rw [List.mem_singleton.mp hr, decode_refreshRequest] at hdecoded
    cases hdecoded

end Marketplace.System
