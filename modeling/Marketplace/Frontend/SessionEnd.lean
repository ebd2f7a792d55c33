import Marketplace.Frontend.Tab

/-!
# frontend: the end of a session

* `Client.Ended`     no token in the slice, nothing in `localStorage`;
* `Over`             what holds once the session has ended: that, and every exchange under way began
                     before the end;
* `session_end_final`   in every run in which no exchange outlives its session, a session that has
                     ended stays so until the next login;
* `session_revived`  an exchange that does brings it back.
-/

set_option linter.unusedSectionVars false

namespace Marketplace.Frontend

open Interleave

structure Client.Ended (c : Client) : Prop where
  accessToken : c.auth.accessToken = none
  refreshToken : c.auth.refreshToken = none
  storage : c.storage = none

/-- an action that brings no tokens -/
theorem Client.Ended.dispatch {c : Client} {e : Event} (h : c.Ended) (hb : e.action.brings = false)
    (hg : e.action.begins = false) : (c.dispatch e).Ended := by
  obtain ⟨action, now, throws⟩ := e
  have hcleared : ∀ r : Reduced, r.state.accessToken = none → r.state.refreshToken = none →
      r.stores = some none → (c.store throws r).Ended := by
    intro r ha hr hs
    unfold Client.store
    rw [hs]
    cases throws with
    | true => exact ⟨ha, hr, h.storage⟩
    | false => exact ⟨ha, hr, rfl⟩
  unfold Client.dispatch
  cases action with
  | loginFulfilled payload =>
    cases payload with
    | none => exact h
    | some tokens => cases hg
  | tokensRefreshed payload =>
    cases payload with
    | none => exact h
    | some tokens => cases hb
  | loadSessionRejected => exact hcleared _ rfl rfl rfl
  | logoutFulfilled => exact hcleared _ rfl rfl rfl
  | sessionCleared => exact hcleared _ rfl rfl rfl
  | loginPending => exact ⟨h.accessToken, h.refreshToken, h.storage⟩
  | loginRejected payload => exact ⟨h.accessToken, h.refreshToken, h.storage⟩
  | registerPending => exact ⟨h.accessToken, h.refreshToken, h.storage⟩
  | registerFulfilled => exact ⟨h.accessToken, h.refreshToken, h.storage⟩
  | registerRejected payload => exact ⟨h.accessToken, h.refreshToken, h.storage⟩
  | loadSessionPending => exact ⟨h.accessToken, h.refreshToken, h.storage⟩
  | loadSessionFulfilled user profile hasProfile =>
    exact ⟨h.accessToken, h.refreshToken, h.storage⟩
  | logoutPending => exact ⟨h.accessToken, h.refreshToken, h.storage⟩
  | logoutRejected => exact ⟨h.accessToken, h.refreshToken, h.storage⟩
  | profileCreated payload => exact ⟨h.accessToken, h.refreshToken, h.storage⟩

/-- the end of a session, where `localStorage` does not throw -/
theorem Client.ended_of_ends (c : Client) {e : Event} (h : e.action.ends = true)
    (ht : e.throws = false) : (c.dispatch e).Ended := by
  obtain ⟨action, now, throws⟩ := e
  obtain rfl : throws = false := ht
  cases action <;> first | exact ⟨rfl, rfl, rfl⟩ | cases h

section
variable {P Y S : Type} [DecidableEq P] {W : Web Y S} {p q : P} {x : Choice P Y} {s t : Tab P S}

/-- the hook of `p` is at work -/
def Holds (p : P) (s : Tab P S) : Prop := ∃ token, (p, token) ∈ s.exchanging

structure Over (s : Tab P S) : Prop where
  ended : s.ended = true → s.client.Ended
  late : s.ended = true → ∀ e ∈ s.exchanging, e.1 ∈ s.late

/-! ## one command -/

/-- **a dispatch** keeps the end of the session, if tokens come from a hook -/
theorem Over.dispatch {a : Action} {b : Bool} (h : Over s) (hW : W.settled = true)
    (hp : a.brings = true → Holds p s) (he : exec W p (.dispatch a) x s = some (b, t)) : Over t := by
  obtain ⟨hrule, -, rfl⟩ := exec_dispatch he
  obtain ⟨hlate, hthrows⟩ := hrule hW
  by_cases hbegins : a.begins = true
  · have hfalse : (s.after p a).ended = false := by
      show ((s.ended || a.ends) && !a.begins) = false
      rw [hbegins, Bool.not_true, Bool.and_false]
    exact ⟨fun hn => absurd (hfalse.symm.trans hn) Bool.false_ne_true,
      fun hn => absurd (hfalse.symm.trans hn) Bool.false_ne_true⟩
  · rw [Bool.not_eq_true] at hbegins
    by_cases hends : a.ends = true
    · refine ⟨fun _ => s.client.ended_of_ends hends (hthrows hends), fun _ e hmem => ?_⟩
      show e.1 ∈ if a.ends then _ else _
      rw [if_pos hends]
      exact List.mem_map_of_mem hmem
    · rw [Bool.not_eq_true] at hends
      have hsame : (s.after p a).ended = s.ended := by
        show ((s.ended || a.ends) && !a.begins) = s.ended
        rw [hends, hbegins, Bool.or_false, Bool.not_false, Bool.and_true]
      have hkept : (s.after p a).late = s.late := by
        show (if a.ends then _ else if a.begins then _ else s.late) = s.late
        rw [hends, hbegins]
        rfl
      refine ⟨fun hn => ?_, fun hn e hmem => ?_⟩
      · have hnow : s.ended = true := hsame.symm.trans hn
        have hbrings : a.brings = false := by
          cases hb : a.brings with
          | false => rfl
          | true =>
            -- the hook would be one of those from before the end
            obtain ⟨token, htok⟩ := hp hb
            exact absurd (h.late hnow _ htok) (hlate hb)
        exact (h.ended hnow).dispatch hbrings hbegins
      · have hnow : s.ended = true := hsame.symm.trans hn
        show e.1 ∈ (s.after p a).late
        rw [hkept]
        refine h.late hnow e ?_
        have hmem' : e ∈ if a.settles then s.exchanging.filter (·.1 ≠ p) else s.exchanging := hmem
        split at hmem'
        · exact List.mem_of_mem_filter hmem'
        · exact hmem'

/-- a hook that looks for the refresh token of a session that has ended finds none -/
theorem Over.refreshToken {a : Option String} (h : Over s)
    (he : exec W p .refreshToken x s = some (a, t)) : Over t := by
  obtain ⟨rfl, -, rfl⟩ := exec_refreshToken he
  refine ⟨h.ended, fun hn e hmem => ?_⟩
  have hnone : s.client.auth.refreshToken = none := (h.ended hn).refreshToken
  rw [hnone] at hmem
  exact h.late hn e hmem

theorem Over.exec {c : Cmd} {a : Ans c} (h : Over s) (hW : W.settled = true)
    (hp : ∀ b, c = .dispatch b → b.brings = true → Holds p s)
    (he : exec W p c x s = some (a, t)) : Over t := by
  cases c with
  | getState =>
    obtain ⟨-, rfl⟩ := exec_getState he
    exact h
  | refreshToken => exact h.refreshToken he
  | dispatch b => exact h.dispatch hW (hp b rfl) he
  | fetch r =>
    obtain rfl := exec_fetch he
    exact ⟨h.ended, h.late⟩
  | response =>
    obtain ⟨-, rfl⟩ := exec_response he
    exact ⟨h.ended, h.late⟩

theorem deliver_over (h : deliver W x s = some t) (hi : Over s) : Over t := by
  rcases deliver_cases h with ⟨q, -, -, rfl⟩ | ⟨q, r, y, a, -, -, rfl⟩
  · exact ⟨hi.ended, hi.late⟩
  · exact ⟨hi.ended, hi.late⟩

theorem deliver_holds (h : deliver W x s = some t) (hq : Holds q s) : Holds q t := by
  rcases deliver_cases h with ⟨q', -, -, rfl⟩ | ⟨q', r, y, a, -, -, rfl⟩
  · exact hq
  · exact hq

/-- what does not end the hook of `q` -/
def Cmd.Plain : Cmd → Prop
  | .dispatch a => a.settles = false
  | _ => True

/-- a hook stays at work until its own last action -/
theorem exec_holds {c : Cmd} {a : Ans c} (hc : p ≠ q ∨ c.Plain)
    (he : exec W p c x s = some (a, t)) (hq : Holds q s) : Holds q t := by
  cases c with
  | getState =>
    obtain ⟨-, rfl⟩ := exec_getState he
    exact hq
  | refreshToken =>
    obtain ⟨-, -, rfl⟩ := exec_refreshToken he
    obtain ⟨token, h⟩ := hq
    exact ⟨token, List.mem_append_right _ h⟩
  | dispatch b =>
    obtain ⟨-, -, rfl⟩ := exec_dispatch he
    obtain ⟨token, h⟩ := hq
    refine ⟨token, ?_⟩
    show (q, token) ∈ if b.settles then s.exchanging.filter (·.1 ≠ p) else s.exchanging
    split
    · rename_i hs
      refine List.mem_filter.mpr ⟨h, ?_⟩
      rcases hc with hne | hplain
      · exact decide_eq_true (Ne.symm hne)
      · exact absurd (hs.symm.trans hplain) (by decide)
    · exact h
  | fetch r =>
    obtain rfl := exec_fetch he
    exact hq
  | response =>
    obtain ⟨-, rfl⟩ := exec_response he
    exact hq

/-! ## the programs -/

/-- each call keeps `Over`, and sees that the others leave its hook alone -/
def overContract (W : Web Y S) : Contract (P := P) W.machine where
  Inv := Over
  Rely q s t := Holds q s → Holds q t
  rely_refl _ _ := id
  rely_trans _ _ _ _ h h' := fun hs => h' (h hs)
  exec_rely hne _ _ h := exec_holds (.inl hne.symm) h
  crash_inv h := h
  crash_rely _ _ := id
  env_inv h hs := deliver_over hs h
  env_rely _ hs := deliver_holds hs

/-- a program of plain commands is safe, and a hook that is at work stays so -/
theorem safe_plain (hW : W.settled = true) {α : Type} {m : Task α} (hm : m.Only Cmd.Plain)
    {I : Prop} {s : Tab P S} (hs : I → Holds p s) :
    (overContract W).Safe p (fun _ t => I → Holds p t) m s := by
  induction m generalizing s with
  | ret a => exact fun s₁ h₁ _ hI => h₁ (hs hI)
  | call c k ih =>
    intro s₁ h₁ hi x a s₂ he
    have hbrings : ∀ b, c = .dispatch b → b.brings = true → Holds p s₁ := by
      rintro b rfl hb
      have hplain : b.settles = false := hm.1
      cases b with
      | tokensRefreshed tokens => exact absurd (hb.symm.trans hplain) (by decide)
      | _ => cases hb
    exact ⟨hi.exec hW hbrings he, ih a (hm.2 a) fun hI => exec_holds (.inr hm.1) he (h₁ (hs hI))⟩

/-- safe from any state -/
def Behaved (W : Web Y S) (p : P) {α : Type} (m : Task α) : Prop :=
  ∀ s, (overContract W).Safe p (fun _ _ => True) m s

theorem behaved_plain (hW : W.settled = true) {α : Type} {m : Task α} (hm : m.Only Cmd.Plain) :
    Behaved W p m :=
  fun _ => (safe_plain hW hm (I := False) (fun h => h.elim)).mono fun _ _ _ _ => trivial

theorem Behaved.bind {α β : Type} {m : Task α} {f : α → Task β} (hm : Behaved W p m)
    (hf : ∀ a, Behaved W p (f a)) : Behaved W p (m >>= f) :=
  fun s => Safe.bind (hm s) fun a t _ => hf a t

theorem Behaved.bindE {α β : Type} {m : Async α} {f : α → Async β} (hm : Behaved W p m.run)
    (hf : ∀ a, Behaved W p (f a).run) : Behaved W p (m >>= f).run :=
  fun s => Safe.bindE (hm s) (fun a t _ => hf a t) fun _ _ _ => trivial

theorem plain_send (path : String) (o : RequestOptions) (bearer : Option String) :
    (send path o bearer).run.Only Cmd.Plain := by
  refine Prog.Only.bindE (Prog.Only.lift ⟨trivial, fun _ => trivial⟩) fun _ => ?_
  refine Prog.Only.bindE (Prog.Only.lift ⟨trivial, fun _ => trivial⟩) fun r => ?_
  cases r with
  | some r => trivial
  | none => trivial

/-- a call that does not ask the hook -/
theorem plain_api {o : RequestOptions} (path : String) :
    (api none path o).run.Only Cmd.Plain := by
  refine Prog.Only.bindE (plain_send path o _) fun r => ?_
  refine Prog.Only.bindE ?_ fun _ => trivial
  unfold retried
  split
  · trivial
  · trivial

theorem behaved_installRefresh (hW : W.settled = true) : Behaved W p installRefresh := by
  rw [installRefresh_eq]
  intro s s₁ h₁ hi x a s₂ he
  obtain ⟨-, -, hs₂⟩ := exec_refreshToken (x := x) he
  refine ⟨hi.refreshToken (x := x) he, ?_⟩
  show (overContract W).Safe p _ (refreshWith a) s₂
  unfold refreshWith
  cases ha : truthy a with
  | none => exact fun _ _ _ => trivial
  | some token =>
    have hholds : Holds p s₂ := by
      refine ⟨token, ?_⟩
      rw [hs₂, ha]
      exact List.mem_cons_self
    refine Safe.bind (Q := fun r t => (∃ e, r = .error e) → Holds p t) ?_ fun r t ht => ?_
    · refine Safe.bindE (Q := fun _ t => Holds p t)
        ((safe_plain hW (plain_api _) (I := True) fun _ => hholds).mono fun _ _ _ h => h trivial)
        (fun payload t ht => ?_) fun e t h _ => h
      intro t₁ hr₁ hi₁ x₁ b t₂ he₁
      have hp : Holds p t₁ := ht t₁ hr₁ hi₁
      refine ⟨hi₁.dispatch hW (fun _ => hp) he₁, ?_⟩
      obtain ⟨-, hb, -⟩ := exec_dispatch he₁
      cases hpay : payload.asTokens with
      | none =>
        rw [hpay] at he₁ hb
        have hfalse : b = false := hb
        rw [hfalse]
        have hkept : Holds p t₂ := exec_holds (.inr (show Cmd.Plain (.dispatch (.tokensRefreshed none)) from rfl)) he₁ hp
        exact fun t₃ h₃ _ _ => h₃ hkept
      | some tokens =>
        rw [hpay] at hb
        have htrue : b = true := hb
        rw [htrue]
        intro t₃ _ _ herr
        obtain ⟨e, he⟩ := herr
        cases he
    · cases r with
      | ok accessToken => exact fun _ _ _ => trivial
      | error e =>
        intro t₁ hr₁ hi₁ x₁ b t₂ he₁
        have hi₂ : Over t₂ :=
          hi₁.dispatch (a := .sessionCleared) hW (fun hb => absurd hb Bool.false_ne_true) he₁
        exact ⟨hi₂, fun _ _ _ => trivial⟩

theorem behaved_call (hW : W.settled = true) (path : String) (o : RequestOptions) :
    Behaved W p (call path o).run := by
  refine Behaved.bindE (behaved_plain hW (plain_send path o _)) fun r => ?_
  refine Behaved.bindE ?_ fun r => behaved_plain hW trivial
  unfold retried
  split
  · refine Behaved.bindE (Behaved.bind (behaved_installRefresh hW) fun _ => behaved_plain hW trivial)
      fun token => ?_
    cases truthy token with
    | some refreshed => exact behaved_plain hW (plain_send path o _)
    | none => exact behaved_plain hW trivial
  · exact behaved_plain hW trivial

theorem behaved_command (hW : W.settled = true) {c : Cmd} (hc : c.Plain) :
    Behaved W p (command c) :=
  behaved_plain hW ⟨hc, fun _ => trivial⟩

theorem behaved_ret (hW : W.settled = true) {α : Type} (a : α) :
    Behaved W p (pure a : Task α) :=
  behaved_plain hW trivial

theorem behaved_login (hW : W.settled = true) (email password : String) :
    Behaved W p (login email password) := by
  refine Behaved.bind (behaved_command hW rfl) fun _ => ?_
  refine (behaved_call hW _ _).bind fun answer => ?_
  cases answer with
  | ok payload => exact behaved_command hW rfl
  | error e => exact Behaved.bind (behaved_command hW rfl) fun _ => behaved_ret hW _

theorem behaved_register (hW : W.settled = true) (email password phoneNumber : String)
    (role : Role) : Behaved W p (register email password phoneNumber role) := by
  refine Behaved.bind (behaved_command hW rfl) fun _ => ?_
  refine (behaved_call hW _ _).bind fun answer => ?_
  cases answer with
  | ok payload =>
    refine (behaved_login hW email password).bind fun signedIn => ?_
    cases signedIn with
    | true => exact Behaved.bind (behaved_command hW rfl) fun _ => behaved_ret hW _
    | false => exact Behaved.bind (behaved_command hW rfl) fun _ => behaved_ret hW _
  | error e => exact Behaved.bind (behaved_command hW rfl) fun _ => behaved_ret hW _

theorem behaved_loadedSession (hW : W.settled = true) (token : Option String) :
    Behaved W p (loadedSession token).run := by
  refine (behaved_call hW _ _).bindE fun payload => ?_
  cases payload.asUser with
  | none => exact behaved_ret hW _
  | some user =>
    show Behaved W p (ExceptT.run (if _ then _ else _))
    split
    · exact behaved_ret hW _
    · refine Behaved.bindE ((behaved_call hW _ _).bind fun _ => behaved_ret hW _) fun r => ?_
      cases r with
      | ok profile => exact behaved_ret hW _
      | error e =>
        cases e with
        | typeError => exact behaved_ret hW _
        | apiError status message =>
          show Behaved W p (ExceptT.run (if _ then _ else _))
          split
          · exact behaved_ret hW _
          · exact behaved_ret hW _

theorem behaved_loadSession (hW : W.settled = true) : Behaved W p loadSession := by
  refine Behaved.bind (behaved_command hW rfl) fun _ => ?_
  refine Behaved.bind (behaved_command hW trivial) fun s => ?_
  refine (behaved_loadedSession hW _).bind fun r => ?_
  cases r with
  | ok loaded => exact Behaved.bind (behaved_command hW rfl) fun _ => behaved_ret hW _
  | error e => exact Behaved.bind (behaved_command hW rfl) fun _ => behaved_ret hW _

theorem behaved_logout (hW : W.settled = true) : Behaved W p logout := by
  refine Behaved.bind (behaved_command hW rfl) fun _ => ?_
  refine Behaved.bind (behaved_command hW trivial) fun s => ?_
  refine (behaved_call hW _ _).bind fun _ => ?_
  exact Behaved.bind (behaved_command hW rfl) fun _ => behaved_ret hW _

theorem behaved_createProfile (hW : W.settled = true) (path : String) (o : RequestOptions) :
    Behaved W p (createProfile path o) := by
  refine (behaved_call hW _ _).bind fun r => ?_
  cases r with
  | ok payload => exact Behaved.bind (behaved_command hW rfl) fun _ => behaved_ret hW _
  | error e => exact behaved_ret hW _

theorem behaved_task (hW : W.settled = true) (i : Invocation) : Behaved W p i.task := by
  cases i with
  | login email password => exact (behaved_login hW email password).bind fun _ => behaved_ret hW _
  | register email password phoneNumber role =>
    exact (behaved_register hW email password phoneNumber role).bind fun _ => behaved_ret hW _
  | loadSession => exact (behaved_loadSession hW).bind fun _ => behaved_ret hW _
  | logout => exact (behaved_logout hW).bind fun _ => behaved_ret hW _
  | createProfile path o =>
    exact (behaved_createProfile hW path o).bind fun _ => behaved_ret hW _
  | api path o => exact behaved_call hW path o
  | authorized path o => exact Behaved.bind (behaved_command hW trivial) fun s => behaved_call hW path _

/-! ## runs -/

/-- **Ending a session is final**: in every run in which no exchange outlives its session, after a
session has ended the slice has no token and `localStorage` nothing, until the next login. -/
theorem session_end_final (hW : W.settled = true) (calls : P → Invocation) (client : Client)
    (server : S) {σ : Config P S} (h : Runs W.machine (start calls client server) σ)
    (hend : σ.state.ended = true) : σ.state.client.Ended := by
  have hover : Over (start calls client server).state :=
    ⟨(fun hn => nomatch hn), fun hn => nomatch hn⟩
  have hsafe : ∀ p m, (start calls client server).prog p = some m →
      (overContract W).Safe p (fun _ _ => True) m (start calls client server).state := by
    intro p m hm
    obtain rfl : (calls p).task = m := Option.some.inj hm
    exact behaved_task hW (calls p) _
  exact ((overContract W).runs (Q := fun _ _ _ => True) h hover hsafe).1.ended hend

end

/-! ## a logout, and a call that has been refused -/

/-- the answers are chosen freely -/
def anyWeb (settled : Bool) : Web Response Unit where
  serve _ r s := some (r, s)
  lossy := true
  exclusive := false
  settled := settled

def tick (p : Fin 2) : Act (Fin 2) (Choice (Fin 2) Response) := .exec p ⟨0, false, none⟩

def answer (p : Fin 2) (r : Response) : Act (Fin 2) (Choice (Fin 2) Response) :=
  .env ⟨0, false, some (p, some r)⟩

def signedIn : Client := Client.start (some ⟨some "access", some "refresh", some 60⟩) false

def leaving : Fin 2 → Invocation
  | 0 => .logout
  | 1 => .api "/api/requests/me" (authorizedGet (some "access"))

/-- the second call is refused, and its hook asks for tokens -/
def refusedCall : List (Act (Fin 2) (Choice (Fin 2) Response)) :=
  [tick 1, answer 1 ⟨401, some .null⟩, tick 1, tick 1, tick 1]

def loggedOut : List (Act (Fin 2) (Choice (Fin 2) Response)) :=
  [tick 0, tick 0, tick 0, answer 0 ⟨204, some .null⟩, tick 0, tick 0]

/-- the tokens arrive, and the hook dispatches them -/
def refreshedCall : List (Act (Fin 2) (Choice (Fin 2) Response)) :=
  [answer 1 ⟨200, some (.tokens ⟨some "access-2", some "refresh-2", some 3600⟩)⟩, tick 1, tick 1]

def left (σ : Config (Fin 2) Unit) : Bool × Option String × Option StoredSession :=
  (σ.state.ended, σ.state.client.auth.refreshToken, σ.state.client.storage)

/-- the exchange is over before the logout -/
theorem session_end_final_after_exchange :
    ∃ σ, Runs (anyWeb true).machine (start leaving signedIn ()) σ ∧ σ.state.ended = true ∧
      σ.state.client.Ended := by
  obtain ⟨σ, hr, hσ⟩ := Runs.exists_of_run (M := (anyWeb true).machine)
    (σ := start leaving signedIn ()) (refusedCall ++ refreshedCall ++ loggedOut)
    (f := fun σ => σ.state.ended) (b := true) (by decide +kernel)
  exact ⟨σ, hr, hσ, session_end_final rfl leaving signedIn () hr hσ⟩

/-- the exchange outlives the logout: its tokens are kept, in the slice and in `localStorage` -/
theorem session_revived :
    ∃ σ, Runs (anyWeb false).machine (start leaving signedIn ()) σ ∧ σ.state.ended = true ∧
      ¬σ.state.client.Ended := by
  obtain ⟨σ, hr, hσ⟩ := Runs.exists_of_run (M := (anyWeb false).machine)
    (σ := start leaving signedIn ()) (refusedCall ++ loggedOut ++ refreshedCall) (f := left)
    (b := (true, some "refresh-2", some ⟨some "access-2", some "refresh-2", some 3540000⟩))
    (by decide +kernel)
  refine ⟨σ, hr, congrArg Prod.fst hσ, fun h => ?_⟩
  have hkept : σ.state.client.auth.refreshToken = some "refresh-2" :=
    congrArg (fun l => l.2.1) hσ
  cases hkept.symm.trans h.refreshToken

end Marketplace.Frontend
