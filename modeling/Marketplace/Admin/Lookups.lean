import Marketplace.Admin.Exposure

/-!
# admin-service: when a lookup reads

`ContactsForRequest` and `HasContactAccess` write nothing, so what they read are the committed
contents of some state that the run went through, and not before the call had begun.

* `looks`            the commands of a lookup;
* `Peeking q`        the rest of `q` issues no others, and `q` has written nothing;
* `Peeking.runs`     whatever a lookup reads after a state was committed in that state or later.
-/

set_option linter.unusedSectionVars false

namespace Marketplace.Admin

open Table Events ReadCommitted Interleave
open Service hiding query remote

/-- a remote call, or a read of the grants -/
def looks : Cmd Stmt Remote → Prop
  | .remote _ => True
  | .sql (.listGrantedForSellerRequest _ _) => True
  | .sql (.countEffectiveAccess _ _ _) => True
  | _ => False

theorem only_contactOf (g : ContactAccess) : Only looks (contactOf g) := by
  refine .bind (.remote trivial) fun a => ?_
  match a with
  | .error e => exact .throw _
  | .ok customer =>
    by_cases e : customer.userID = UUID.nil
    · simp only [if_pos e]
      exact .throw _
    · simp only [if_neg e]
      refine .bind (.remote trivial) fun b => ?_
      match b with
      | .error e => exact .throw _
      | .ok phone => exact .pure _

theorem only_contactsOf (grants : List ContactAccess) : Only looks (contactsOf grants) := by
  induction grants with
  | nil => exact .pure _
  | cons g grants ih => exact .bind (only_contactOf g) fun _ => .bind ih fun _ => .pure _

theorem only_contactsForRequest (u r : UUID) : Only looks (contactsForRequest u r) := by
  refine .bind (.remote trivial) fun a => ?_
  cases present a with
  | error e => exact .throw _
  | ok sl =>
    refine .bind (.query trivial) fun b => ?_
    match b with
    | .error e => exact .throw _
    | .ok [] => exact .throw _
    | .ok (g :: gs) => exact only_contactsOf (g :: gs)

theorem only_hasContactAccess (sl c r : UUID) : Only looks (hasContactAccess sl c r) := by
  refine .bind (.query trivial) fun b => ?_
  match b with
  | .error e => exact .throw _
  | .ok (n : Nat) => exact .pure _

def Invocation.isLookup : Invocation → Bool
  | .contactsForRequest _ _ => true
  | .hasContactAccess _ _ _ => true
  | _ => false

theorem only_lookup {inv : Invocation} (h : inv.isLookup = true) : Only looks inv.op := by
  cases inv with
  | decide inp => cases h
  | revoke i => cases h
  | contactsForRequest u r => exact .bind (only_contactsForRequest u r) fun _ => .pure _
  | hasContactAccess sl c r => exact .bind (only_hasContactAccess sl c r) fun _ => .pure _

section
variable {P E Y : Type} [DecidableEq P] {calls : P → Invocation} {out : Outside P E Y}
variable {law : Law out} {q : P}

/-- the rest of `q` only looks, and `q` has written nothing -/
structure Peeking (q : P) (σ : Config P E) : Prop where
  only : ∀ m, σ.prog q = some m → m.Only looks
  pending : σ.state.store.pending q = []

/-- a command of a lookup reads the committed contents, and writes nothing -/
theorem looks_exec {c : Cmd Stmt Remote} {x : Choice Y} {σ τ : State P Db Write Lock (Ext P E)}
    {a : Ans Row Reply c} (hc : looks c) (hp : σ.store.pending q = [])
    (h : (spec out).exec q c x σ = some (a, τ)) :
    τ.store = σ.store ∧ (τ.ext.trace q = σ.ext.trace q ∨ ∃ ev,
      τ.ext.trace q = σ.ext.trace q ++ [ev] ∧ ∀ d, ev.readOf = some d → d = σ.store.committed) := by
  have reading : ∀ ev : Event, ev.readOf = some (σ.store.view q) → τ.store = σ.store →
      τ.ext = σ.ext.record q ev → τ.store = σ.store ∧ (τ.ext.trace q = σ.ext.trace q ∨ ∃ ev,
        τ.ext.trace q = σ.ext.trace q ++ [ev] ∧
        ∀ d, ev.readOf = some d → d = σ.store.committed) := by
    intro ev hev hs he
    refine ⟨hs, .inr ⟨ev, by rw [he, record_self], fun d hd => ?_⟩⟩
    rw [hev, view_of_pending hp] at hd
    exact (Option.some.inj hd).symm
  cases c with
  | begin => exact hc.elim
  | commit => exact hc.elim
  | rollback => exact hc.elim
  | remote r =>
    obtain ⟨⟨b, e⟩, hb, he⟩ := Option.map_eq_some_iff.mp h
    obtain ⟨⟨b', e'⟩, hb', he'⟩ := Option.map_eq_some_iff.mp hb
    cases he
    cases he'
    exact ⟨rfl, .inr ⟨.remote r b', record_self _ _ _, fun d hd => nomatch hd⟩⟩
  | sql s =>
    simp only [Spec.exec] at h
    split at h
    · obtain ⟨⟨b, t⟩, hb, he⟩ := Option.map_eq_some_iff.mp h
      cases he
      cases s with
      | listGrantedForSellerRequest sl r =>
        cases hb
        exact reading (.listed (σ.store.view q) x.now) rfl rfl rfl
      | countEffectiveAccess sl c r =>
        cases hb
        exact reading (.counted (σ.store.view q) x.now) rfl rfl rfl
      | _ => exact hc.elim
    · cases h
      exact ⟨rfl, .inl rfl⟩

theorem Peeking.step {σ τ : Config P E} {a : Act P (Choice Y)} (h : Peeking q σ)
    (hi : (terms calls law).Inv σ.state) (hi' : (terms calls law).Inv τ.state)
    (hs : (spec out).machine.step σ a = some τ) :
    Peeking q τ ∧ (τ.state.ext.trace q = σ.state.ext.trace q ∨ ∃ ev,
      τ.state.ext.trace q = σ.state.ext.trace q ++ [ev] ∧
      ∀ d, ev.readOf = some d → d = σ.state.store.committed) := by
  have others : τ.prog q = σ.prog q → (terms calls law).Rely q σ.state τ.state →
      Peeking q τ ∧ (τ.state.ext.trace q = σ.state.ext.trace q ∨ ∃ ev,
        τ.state.ext.trace q = σ.state.ext.trace q ++ [ev] ∧
        ∀ d, ev.readOf = some d → d = σ.state.store.committed) := fun hq hr =>
    ⟨⟨hq ▸ h.only, hr.seen.pending.trans h.pending⟩, .inl hr.ext⟩
  cases a with
  | exec p x =>
    obtain ⟨c, k, b, s, hp, hx, rfl⟩ := Machine.step_exec hs
    by_cases e : q = p
    · subst e
      obtain ⟨hc, hk⟩ := h.only _ hp
      obtain ⟨hst, htr⟩ := looks_exec hc h.pending hx
      refine ⟨⟨fun m hm => ?_, ?_⟩, htr⟩
      · obtain rfl : k b = m := Option.some.inj ((Function.update_self q _ σ.prog).symm.trans hm)
        exact hk b
      · show s.store.pending q = []
        rw [hst]
        exact h.pending
    · exact others (Function.update_of_ne e _ _) ((terms calls law).contract.exec_rely e hi hi' hx)
  | crash p =>
    obtain ⟨-, rfl⟩ := Machine.step_crash hs
    by_cases e : q = p
    · subst e
      refine ⟨⟨fun m hm => ?_, Function.update_self ..⟩, .inl rfl⟩
      cases (Function.update_self q _ σ.prog).symm.trans hm
    · exact others (Function.update_of_ne e _ _) ((terms calls law).contract.crash_rely e hi)
  | env x =>
    obtain ⟨s, hx, rfl⟩ := Machine.step_env hs
    exact others rfl ((terms calls law).contract.env_rely hi hx)

/-- **whatever a lookup reads after a state was committed in that state or later** -/
theorem Peeking.runs {σ τ : Config P E} (h : Peeking q σ)
    (hi : ∀ υ, Runs (spec out).machine σ υ → (terms calls law).Inv υ.state)
    (hr : Runs (spec out).machine σ τ) :
    Peeking q τ ∧ ∀ ev ∈ τ.state.ext.trace q, ev ∈ σ.state.ext.trace q ∨
      ∀ d, ev.readOf = some d → ∃ υ, Runs (spec out).machine σ υ ∧ υ.state.store.committed = d := by
  induction hr with
  | refl => exact ⟨h, fun _ hev => .inl hev⟩
  | tail hr a hs ih =>
    obtain ⟨hp, hev⟩ := ih
    obtain ⟨hp', ht⟩ := hp.step (hi _ hr) (hi _ (hr.tail a hs)) hs
    refine ⟨hp', fun ev hm => ?_⟩
    rcases ht with ht | ⟨ev', ht, hread⟩
    · exact hev ev (ht ▸ hm)
    · rw [ht] at hm
      rcases List.mem_append.mp hm with hm | hm
      · exact hev ev hm
      · obtain rfl := List.mem_singleton.mp hm
        exact .inr fun d hd => ⟨_, hr, (hread d hd).symm⟩

end

end Marketplace.Admin
