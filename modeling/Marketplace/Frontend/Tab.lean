import Marketplace.Frontend.Client

/-!
# frontend: a tab and the network it talks to

Any number of calls run in one tab; they interleave at every command, which is finer than the event
loop.  A request is on its way, or answered; the network decides when.

* `Wire`         where the request of a call is;
* `Web`          the other side, and what is assumed of a run: `exclusive`: nobody looks for the
                 refresh token while it is being exchanged; `settled`: no exchange outlives its
                 session, and removing a session from `localStorage` does not throw;
* `Tab`          the state.  `exchanging`, `late`, `ended`, `sent` and `received` are what has
                 happened; nothing in the code looks at them;
* `exec`, `Web.machine`   the commands, and the moves of the network;
* `start`        every call is about to run.
-/

set_option linter.unusedSectionVars false

namespace Marketplace.Frontend

open Interleave

inductive Wire where
  | idle
  | sent (r : HttpRequest)
  | answered (r : Option Response)

structure Web (Y S : Type) where
  serve : HttpRequest → Y → S → Option (Response × S)
  /-- a fetch may be rejected -/
  lossy : Bool
  exclusive : Bool
  settled : Bool

/-- what a call does not decide: the time, whether `localStorage` throws; what the network does -/
structure Choice (P Y : Type) where
  now : Millis
  throws : Bool
  /-- whose request is answered (`some`), or lost -/
  wire : Option (P × Option Y)

structure Tab (P S : Type) where
  client : Client
  net : P → Wire
  server : S
  /-- the hooks between their look at the refresh token, this one, and the dispatch after it -/
  exchanging : List (P × String)
  /-- those of them that were there when the session ended -/
  late : List P
  /-- the session has ended, and no login since -/
  ended : Bool
  sent : P → List HttpRequest
  received : P → List (Option Response)

/-- the reducer of tokens returns -/
def Action.brings : Action → Bool
  | .tokensRefreshed tokens => tokens.isSome
  | _ => false

/-- the session ends -/
def Action.ends : Action → Bool
  | .logoutFulfilled => true
  | .sessionCleared => true
  | _ => false

/-- a session begins -/
def Action.begins : Action → Bool
  | .loginFulfilled tokens => tokens.isSome
  | _ => false

/-- the last action of the hook -/
def Action.settles : Action → Bool
  | .tokensRefreshed tokens => tokens.isSome
  | .sessionCleared => true
  | _ => false

section
variable {P Y S : Type} [DecidableEq P]

/-- `p` has dispatched `a` -/
def Tab.after (s : Tab P S) (p : P) (a : Action) : Tab P S :=
  let exchanging := if a.settles then s.exchanging.filter (·.1 ≠ p) else s.exchanging
  { s with
    exchanging := exchanging
    late :=
      if a.ends then exchanging.map (·.1)
      else if a.begins then []
      else s.late
    ended := (s.ended || a.ends) && !a.begins }

def exec (W : Web Y S) (p : P) : (c : Cmd) → Choice P Y → Tab P S → Option (Ans c × Tab P S)
  | .getState, _, s => some (s.client.auth, s)
  | .refreshToken, _, s =>
    if W.exclusive && !s.exchanging.isEmpty then none
    else
      match truthy s.client.auth.refreshToken with
      | none => some (s.client.auth.refreshToken, s)
      | some t =>
        some (s.client.auth.refreshToken, { s with exchanging := (p, t) :: s.exchanging })
  | .dispatch a, x, s =>
    if W.settled && ((a.brings && s.late.contains p) || (a.ends && x.throws)) then none
    else
      some ((reducer x.now s.client.auth a).isSome,
        { s.after p a with client := s.client.dispatch ⟨a, x.now, x.throws⟩ })
  | .fetch r, _, s =>
    some ((), { s with
      net := Function.update s.net p (.sent r)
      sent := Function.update s.sent p (s.sent p ++ [r]) })
  | .response, _, s =>
    match s.net p with
    | .answered r =>
      some (r, { s with
        net := Function.update s.net p .idle
        received := Function.update s.received p (s.received p ++ [r]) })
    | _ => none

/-- a move of the network: the request of `p` is answered, or the fetch is rejected -/
def deliver (W : Web Y S) (x : Choice P Y) (s : Tab P S) : Option (Tab P S) :=
  match x.wire with
  | none => none
  | some (p, none) =>
    match s.net p with
    | .idle => none
    | _ =>
      if W.lossy then some { s with net := Function.update s.net p (.answered none) } else none
  | some (p, some y) =>
    match s.net p with
    | .sent r =>
      (W.serve r y s.server).map fun a =>
        { s with net := Function.update s.net p (.answered (some a.1)), server := a.2 }
    | _ => none

def Web.machine (W : Web Y S) : Machine P Cmd Ans (Choice P Y) (Tab P S) where
  exec := exec W
  -- a call that is never taken up again
  crash _ s := s
  env := deliver W

abbrev Config (P S : Type) := Conf P Cmd Ans (Tab P S) (Except Err Payload)

/-- every call is about to run, in a tab with this session -/
def start (calls : P → Invocation) (client : Client) (server : S) : Config P S where
  state :=
    { client := client
      net := fun _ => .idle
      server := server
      exchanging := []
      late := []
      ended := false
      sent := fun _ => []
      received := fun _ => [] }
  prog p := some (calls p).task

/-! ## what a command does -/

variable {W : Web Y S} {p : P} {x : Choice P Y} {s t : Tab P S}

theorem exec_getState {a : AuthState} (h : exec W p .getState x s = some (a, t)) :
    a = s.client.auth ∧ t = s := by
  cases h
  exact ⟨rfl, rfl⟩

theorem exec_refreshToken {a : Option String} (h : exec W p .refreshToken x s = some (a, t)) :
    a = s.client.auth.refreshToken ∧ (W.exclusive = true → s.exchanging = []) ∧
      t = { s with exchanging := (truthy a).toList.map (p, ·) ++ s.exchanging } := by
  simp only [exec] at h
  split at h
  · cases h
  · rename_i hx
    have hfree : W.exclusive = true → s.exchanging = [] := by
      intro he
      rw [he, Bool.true_and, Bool.not_eq_true', Bool.not_eq_false] at hx
      exact List.isEmpty_iff.mp hx
    split at h
    · rename_i hn
      cases h
      refine ⟨rfl, hfree, ?_⟩
      rw [hn]
      rfl
    · rename_i token hs
      cases h
      refine ⟨rfl, hfree, ?_⟩
      rw [hs]
      rfl

theorem exec_dispatch {a : Action} {b : Bool} (h : exec W p (.dispatch a) x s = some (b, t)) :
    (W.settled = true → (a.brings = true → p ∉ s.late) ∧ (a.ends = true → x.throws = false)) ∧
      b = (reducer x.now s.client.auth a).isSome ∧
      t = { s.after p a with client := s.client.dispatch ⟨a, x.now, x.throws⟩ } := by
  simp only [exec] at h
  split at h
  · cases h
  · rename_i hx
    cases h
    refine ⟨fun hs => ?_, rfl, rfl⟩
    rw [hs, Bool.true_and, Bool.not_eq_true, Bool.or_eq_false_iff] at hx
    refine ⟨fun hb hp => ?_, fun he => ?_⟩
    · rw [hb, Bool.true_and] at hx
      exact absurd (List.contains_iff_mem.mpr hp) (by rw [hx.1]; exact Bool.false_ne_true)
    · rw [he, Bool.true_and] at hx
      exact hx.2

theorem exec_fetch {r : HttpRequest} {a : Unit} (h : exec W p (.fetch r) x s = some (a, t)) :
    t = { s with
      net := Function.update s.net p (.sent r)
      sent := Function.update s.sent p (s.sent p ++ [r]) } := by
  cases h
  rfl

theorem exec_response {a : Option Response} (h : exec W p .response x s = some (a, t)) :
    s.net p = .answered a ∧ t = { s with
      net := Function.update s.net p .idle
      received := Function.update s.received p (s.received p ++ [a]) } := by
  simp only [exec] at h
  split at h
  · rename_i r hr
    cases h
    exact ⟨hr, rfl⟩
  · cases h

theorem deliver_cases (h : deliver W x s = some t) :
    (∃ q, W.lossy = true ∧ s.net q ≠ .idle ∧
      t = { s with net := Function.update s.net q (.answered none) }) ∨
    (∃ q r y a, s.net q = .sent r ∧ W.serve r y s.server = some a ∧
      t = { s with net := Function.update s.net q (.answered (some a.1)), server := a.2 }) := by
  simp only [deliver] at h
  split at h
  · cases h
  · rename_i q hw
    split at h
    · cases h
    · rename_i hq
      split at h
      · rename_i hl
        cases h
        exact .inl ⟨q, hl, hq, rfl⟩
      · cases h
  · rename_i q y hw
    split at h
    · rename_i r hr
      obtain ⟨a, ha, rfl⟩ := Option.map_eq_some_iff.mp h
      exact .inr ⟨q, r, y, a, hr, ha, rfl⟩
    · cases h

end

end Marketplace.Frontend
