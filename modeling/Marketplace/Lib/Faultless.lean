import Marketplace.Lib.Service

/-!
# A service whose database does not fail

The rules of `Service.Terms.Triple` allow every statement to fail.  Here none does, so that it can be
said what a call returns.

* `Machine.onlyIf ok`   the machine, as long as what the environment decides meets `ok`;
* `Spec.faultless`      the machine of a service without faults;  processes may still die;
* `Terms.Sure`          a triple on that machine;  `Sure.query`, `Sure.commit`, ..  one rule for every
                        kind of command.
-/

set_option linter.unusedSectionVars false

namespace Interleave

section
variable {P C : Type} {A : C → Type} {X S : Type} [DecidableEq P]

def Machine.onlyIf (M : Machine P C A X S) (ok : X → Bool) : Machine P C A X S :=
  { M with exec := fun p c x s => if ok x then M.exec p c x s else none }

theorem Machine.onlyIf_exec {M : Machine P C A X S} {ok : X → Bool} {p : P} {c : C} {x : X} {s : S}
    {r : A c × S} (h : (M.onlyIf ok).exec p c x s = some r) :
    ok x = true ∧ M.exec p c x s = some r := by
  simp only [Machine.onlyIf] at h
  split at h
  · rename_i hx
    exact ⟨hx, h⟩
  · cases h

/-- the contract holds of the fewer moves -/
def Contract.onlyIf {M : Machine P C A X S} (K : Contract M) (ok : X → Bool) :
    Contract (M.onlyIf ok) where
  Inv := K.Inv
  Rely := K.Rely
  rely_refl := K.rely_refl
  rely_trans := K.rely_trans
  exec_rely hq hi hi' h := K.exec_rely hq hi hi' (Machine.onlyIf_exec h).2
  crash_inv := K.crash_inv
  crash_rely := K.crash_rely
  env_inv := K.env_inv
  env_rely := K.env_rely

/-- what is safe is safe under fewer moves -/
theorem Contract.Safe.onlyIf {M : Machine P C A X S} {K : Contract M} {ok : X → Bool} {R : Type}
    {p : P} {Q : R → S → Prop} {m : Prog C A R} {s : S} (h : K.Safe p Q m s) :
    (K.onlyIf ok).Safe p Q m s := by
  induction m generalizing s with
  | ret a => exact h
  | call c k ih =>
    intro s₁ h₁ hi x a s₂ hx
    obtain ⟨hi₂, hk⟩ := h s₁ h₁ hi x a s₂ (Machine.onlyIf_exec hx).2
    exact ⟨hi₂, ih a hk⟩

theorem Machine.onlyIf_step {M : Machine P C A X S} {ok : X → Bool} {R : Type}
    {σ τ : Conf P C A S R} {a : Act P X} (h : (M.onlyIf ok).step σ a = some τ) :
    M.step σ a = some τ := by
  cases a with
  | exec p x =>
    obtain ⟨c, k, b, s, hp, hx, rfl⟩ := Machine.step_exec h
    simp only [Machine.step, hp, (Machine.onlyIf_exec hx).2, Option.map_some]
  | crash p => exact h
  | env x => exact h

theorem Runs.of_onlyIf {M : Machine P C A X S} {ok : X → Bool} {R : Type} {σ τ : Conf P C A S R}
    (h : Runs (M.onlyIf ok) σ τ) : Runs M σ τ := by
  induction h with
  | refl => exact .refl
  | tail _ a hs ih => exact ih.tail a (Machine.onlyIf_step hs)

end

end Interleave

namespace Service

open Interleave ReadCommitted

section
variable {P Db W L E Y : Type} [DecidableEq P] [DecidableEq L] [Schema Db W L]
variable {Q Rm : Type} {Row : Q → Type} {Reply : Rm → Type}

def Spec.faultless (S : Spec P Db W L E Y Row Reply) :
    Machine P (Cmd Q Rm) (Ans Row Reply) (Choice Y) (State P Db W L E) :=
  S.machine.onlyIf fun x => x.fault = .none

namespace Terms
variable {S : Spec P Db W L E Y Row Reply} (T : Terms S)

def faultless : Contract S.faultless := T.contract.onlyIf _

def Sure {ε α : Type} (p : P) (A : State P Db W L E → Prop) (m : Call Row Reply ε α)
    (Φ : α → State P Db W L E → Prop) (F : ε → State P Db W L E → Prop) : Prop :=
  ∀ σ, A σ → T.faultless.Safe p (ends Φ F) m.run σ

variable {T} {ε α β : Type} {p : P} {A B : State P Db W L E → Prop}
variable {Φ : α → State P Db W L E → Prop} {F : ε → State P Db W L E → Prop}

namespace Sure

/-- what does not depend on the state is used by the proof of the call -/
theorem fact {m : Call Row Reply ε α} {φ : Prop} (h : φ → T.Sure p A m Φ F) :
    T.Sure p (fun σ => A σ ∧ φ) m Φ F := fun σ hσ => h hσ.2 σ hσ.1

theorem pre {m : Call Row Reply ε α} (h : T.Sure p B m Φ F) (hA : ∀ σ, A σ → B σ) :
    T.Sure p A m Φ F := fun σ hσ => h σ (hA σ hσ)

theorem pure {a : α} (hA : T.Stable p A) (h : ∀ σ, T.Inv σ → A σ → Φ a σ) :
    T.Sure p A (Pure.pure a : Call Row Reply ε α) Φ F :=
  fun σ hσ τ hr hi => h τ hi (hA σ τ hr hi hσ)

theorem throw {e : ε} (hA : T.Stable p A) (h : ∀ σ, T.Inv σ → A σ → F e σ) :
    T.Sure p A (MonadExcept.throw e : Call Row Reply ε α) Φ F :=
  fun σ hσ τ hr hi => h τ hi (hA σ τ hr hi hσ)

theorem bind {m : Call Row Reply ε β} {f : β → Call Row Reply ε α}
    {B : β → State P Db W L E → Prop} (hm : T.Sure p A m B F)
    (hf : ∀ b, T.Sure p (B b) (f b) Φ F) : T.Sure p A (m >>= f) Φ F := by
  intro σ hσ
  refine Safe.bind (hm σ hσ) fun r τ hr => ?_
  cases r with
  | error e => exact hr
  | ok b => exact Contract.Safe.of_rely fun υ h hi => hf b υ (hr υ h hi)

/-- a statement has to keep the locking discipline, and its note the property `I` -/
theorem query {q : Q} {Φ : Except PgErr (Row q) → State P Db W L E → Prop} (hA : T.Stable p A)
    (hQ : ∀ a, T.Stable p (Φ a))
    (h : ∀ σ x a t, T.Inv σ → A σ → S.stmt p q x σ.store = some (a, t) →
      WellLocked t ∧ T.I σ.store.committed σ.store.log (S.note p q x σ.store σ.ext) ∧
        Φ a { store := t, ext := S.note p q x σ.store σ.ext }) :
    T.Sure p A (Service.query q : Call Row Reply ε _) Φ F := by
  intro σ hσ τ hr hi x a υ hx
  obtain ⟨hf, hx⟩ := Machine.onlyIf_exec hx
  simp only [Spec.machine, Spec.exec, of_decide_eq_true hf] at hx
  obtain ⟨⟨b, t⟩, hs, e⟩ := Option.map_eq_some_iff.mp hx
  cases e
  obtain ⟨hw, hI, hk⟩ := h τ x b t hi (hA σ τ hr hi hσ) hs
  refine ⟨⟨hw, ?_⟩, fun υ hr' hi' => hQ b _ _ hr' hi' hk⟩
  rw [(S.quiet hs).committed, (S.quiet hs).log]
  exact hI

theorem orThrow {wrap : PgErr → ε} {r : Except PgErr α} (hA : T.Stable p A)
    (h : ∀ a σ, r = .ok a → T.Inv σ → A σ → Φ a σ)
    (he : ∀ e σ, r = .error e → T.Inv σ → A σ → F (wrap e) σ) :
    T.Sure p A (Service.orThrow wrap r : Call Row Reply ε α) Φ F := by
  cases r with
  | ok a => exact pure hA fun σ hi ha => h a σ rfl hi ha
  | error e => exact throw hA fun σ hi ha => he e σ rfl hi ha

/-- a statement that is not refused -/
theorem sql {wrap : PgErr → ε} {q : Q} {Φ : Row q → State P Db W L E → Prop} (hA : T.Stable p A)
    (hQ : ∀ a, T.Stable p (Φ a))
    (h : ∀ σ x a t, T.Inv σ → A σ → S.stmt p q x σ.store = some (a, t) →
      WellLocked t ∧ T.I σ.store.committed σ.store.log (S.note p q x σ.store σ.ext) ∧
        ∃ r, a = .ok r ∧ Φ r { store := t, ext := S.note p q x σ.store σ.ext }) :
    T.Sure p A (Service.sql wrap q : Call Row Reply ε _) Φ F := by
  have hends : ∀ a : Except PgErr (Row q), T.Stable p fun σ => ∃ r, a = .ok r ∧ Φ r σ :=
    fun a => .ex fun r => (Stable.const (a = .ok r)).and (hQ r)
  refine bind (query hA hends h) fun a => orThrow (hends a) ?_ ?_
  · rintro r σ rfl - ⟨r', e, hr⟩
    cases e
    exact hr
  · rintro e σ rfl - ⟨r', e', -⟩
    cases e'

theorem begin {wrap : PgErr → ε} (hA : T.Stable p A) (hB : T.Stable p B)
    (h : ∀ σ n, T.Inv σ → A σ → B { σ with store := σ.store.begin p n }) :
    T.Sure p A (Service.begin >>= Service.orThrow wrap : Call Row Reply ε _) (fun _ => B) F := by
  have hends : ∀ a : Except PgErr Unit, T.Stable p fun σ => B σ ∧ a = .ok () :=
    fun a => hB.and (Stable.const _)
  refine bind (fun σ hσ τ hr hi x a υ hx => ?_) fun a => orThrow (hends a) ?_ ?_
  · obtain ⟨hf, hx⟩ := Machine.onlyIf_exec hx
    have hτ := hA σ τ hr hi hσ
    cases hx
    have hbegin : execBegin p x τ.store = (.ok (), τ.store.begin p x.now) := by
      rw [execBegin, of_decide_eq_true hf]
    show T.Inv { τ with store := (execBegin p x τ.store).2 } ∧ _
    rw [hbegin]
    exact ⟨⟨wellLocked_begin hi.locked p x.now, hi.holds⟩,
      fun υ hr' hi' => hends _ _ _ hr' hi' ⟨h τ x.now hi hτ, rfl⟩⟩
  · exact fun _ _ _ _ h => h.1
  · rintro e σ rfl - ⟨-, e'⟩
    cases e'

theorem rollback {Φ : Unit → State P Db W L E → Prop} (hA : T.Stable p A) (hQ : T.Stable p (Φ ()))
    (h : ∀ σ, T.Inv σ → A σ → Φ () { σ with store := σ.store.rollback p }) :
    T.Sure p A (Service.rollback : Call Row Reply ε _) Φ F := by
  intro σ hσ τ hr hi x a υ hx
  obtain ⟨-, hx⟩ := Machine.onlyIf_exec hx
  cases hx
  exact ⟨T.rollback_inv hi, fun υ hr' hi' => hQ _ _ hr' hi' (h τ hi (hA σ τ hr hi hσ))⟩

/-- a commit has to keep the property `I` -/
theorem commit {wrap : PgErr → ε} (hA : T.Stable p A) (hB : T.Stable p B)
    (hI : ∀ σ, T.Inv σ → A σ →
      T.I (σ.store.view p) (⟨p, σ.store.committed, σ.store.view p⟩ :: σ.store.log) σ.ext)
    (h : ∀ σ, T.Inv σ → A σ → B { σ with store := σ.store.commit p }) :
    T.Sure p A (Service.commit >>= Service.orThrow wrap : Call Row Reply ε _) (fun _ => B) F := by
  have hends : ∀ a : Except PgErr Unit, T.Stable p fun σ => B σ ∧ a = .ok () :=
    fun a => hB.and (Stable.const _)
  refine bind (fun σ hσ τ hr hi x a υ hx => ?_) fun a => orThrow (hends a) ?_ ?_
  · obtain ⟨hf, hx⟩ := Machine.onlyIf_exec hx
    have hτ := hA σ τ hr hi hσ
    obtain ⟨-, rfl, rfl⟩ := S.exec_commit hx
    have hcommit : execCommit p x τ.store = (.ok (), τ.store.commit p) := by
      rw [execCommit, of_decide_eq_true hf]
    show T.Inv { τ with store := (execCommit p x τ.store).2 } ∧ _
    rw [hcommit]
    exact ⟨⟨wellLocked_commit p hi.locked, hI τ hi hτ⟩,
      fun υ hr' hi' => hends _ _ _ hr' hi' ⟨h τ hi hτ, rfl⟩⟩
  · exact fun _ _ _ _ h => h.1
  · rintro e σ rfl - ⟨-, e'⟩
    cases e'

theorem attempt {ε' : Type} {G : ε' → State P Db W L E → Prop} {fn : Call Row Reply ε' α}
    (h : T.Sure p A fn Φ G) :
    T.Sure p A (Service.attempt fn : Call Row Reply ε _) (ends Φ G) F :=
  fun σ hσ => Safe.bind (h σ hσ) fun _ _ ht => ht

end Sure

end Terms

end

end Service
