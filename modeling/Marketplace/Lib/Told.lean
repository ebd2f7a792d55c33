import Marketplace.Lib.Service

/-!
# What a program has been told

The answers of some commands name things (the rows that a query finds), and a program may only send
and return what it can make of those.

* `Prog.Told hears ok m g Q`   whatever the answers, `Q` holds of the result of `m` and of the list of
                     all things that were named: `g` to begin with, and what `hears` reads off every
                     answer; and every command that `m` sends is `ok` for what was named before it;
* `Informed`         all programs of a configuration are like that, and have been told only of what `K`
                     holds of;
* `Informed.step`    a move keeps that, if what its answer names is so;
* `Service.Told`     the same of a call that answers; of one that throws nothing is said;
* `Told.bind`, `Told.sql`, `Told.inTx`, ..   the rules;
* `Spec.step_pending`   a write that is new is one of a statement.
-/

set_option linter.unusedSectionVars false

namespace Interleave

namespace Prog

variable {C : Type} {A : C → Type} {α β U : Type} {hears : (c : C) → A c → List U}
  {ok : C → List U → Prop}

def Told (hears : (c : C) → A c → List U) (ok : C → List U → Prop) :
    Prog C A α → List U → (α → List U → Prop) → Prop
  | .ret a, g, Q => Q a g
  | .call c k, g, Q => ok c g ∧ ∀ r, (k r).Told hears ok (hears c r ++ g) Q

theorem Told.mono {m : Prog C A α} {g : List U} {Q R : α → List U → Prop}
    (h : m.Told hears ok g Q) (hQ : ∀ a g, Q a g → R a g) : m.Told hears ok g R := by
  induction m generalizing g with
  | ret a => exact hQ a g h
  | call c k ih => exact ⟨h.1, fun r => ih r (h.2 r)⟩

/-- a program that may send everything, and of whose result nothing is asked -/
theorem Told.any (hok : ∀ c g, ok c g) (m : Prog C A α) {g : List U} {Q : α → List U → Prop}
    (hQ : ∀ a g, Q a g) : m.Told hears ok g Q := by
  induction m generalizing g with
  | ret a => exact hQ a g
  | call c k ih => exact ⟨hok c g, fun r => ih r⟩

theorem Told.bind {m : Prog C A α} {f : α → Prog C A β} {g : List U} {R : α → List U → Prop}
    {Q : β → List U → Prop} (hm : m.Told hears ok g R)
    (hf : ∀ a g, R a g → (f a).Told hears ok g Q) : (m >>= f).Told hears ok g Q := by
  induction m generalizing g with
  | ret a => exact hf a g hm
  | call c k ih => exact ⟨hm.1, fun r => ih r (hm.2 r)⟩

end Prog

/-! ## configurations -/

section
variable {P C : Type} {A : C → Type} {X S R U : Type} [DecidableEq P]

/-- every program sends what is `ok`, has been told of things of which `K` holds, and will end as `Q`
tells -/
def Informed (hears : (c : C) → A c → List U) (ok : P → C → List U → Prop) (K : U → Prop)
    (Q : P → R → List U → Prop) (σ : Conf P C A S R) : Prop :=
  ∀ p m, σ.prog p = some m → ∃ g, (∀ u ∈ g, K u) ∧ m.Told hears (ok p) g (Q p)

variable {hears : (c : C) → A c → List U} {ok : P → C → List U → Prop} {K : U → Prop}
  {Q : P → R → List U → Prop} {σ τ : Conf P C A S R}

theorem Informed.mono {K' : U → Prop} (h : Informed hears ok K Q σ) (hK : ∀ u, K u → K' u) :
    Informed hears ok K' Q σ := by
  intro p m hm
  obtain ⟨g, hg, ht⟩ := h p m hm
  exact ⟨g, fun u hu => hK u (hg u hu), ht⟩

theorem Informed.ends (h : Informed hears ok K Q σ) {p : P} {r : R}
    (hp : σ.prog p = some (.ret r)) : ∃ g, (∀ u ∈ g, K u) ∧ Q p r g := h p _ hp

theorem Informed.sends (h : Informed hears ok K Q σ) {p : P} {c : C} {k : A c → Prog C A R}
    (hp : σ.prog p = some (.call c k)) : ∃ g, (∀ u ∈ g, K u) ∧ ok p c g := by
  obtain ⟨g, hg, ht⟩ := h p _ hp
  exact ⟨g, hg, ht.1⟩

theorem Informed.step {M : Machine P C A X S} {a : Act P X} (h : Informed hears ok K Q σ)
    (hs : M.step σ a = some τ)
    (hK : ∀ p c k x b s, σ.prog p = some (.call c k) → M.exec p c x σ.state = some (b, s) →
      ∀ u ∈ hears c b, K u) : Informed hears ok K Q τ := by
  cases a with
  | env x =>
    obtain ⟨s, -, rfl⟩ := Machine.step_env hs
    exact h
  | crash p =>
    obtain ⟨-, rfl⟩ := Machine.step_crash hs
    exact progs_update (fun n hn => by cases hn) fun q n _ hn => h q n hn
  | exec p x =>
    obtain ⟨c, k, b, s, hp, hx, rfl⟩ := Machine.step_exec hs
    refine progs_update (fun n hn => ?_) fun q n _ hn => h q n hn
    cases hn
    obtain ⟨g, hg, -, ht⟩ := h p _ hp
    refine ⟨hears c b ++ g, fun u hu => ?_, ht b⟩
    rcases List.mem_append.mp hu with hu | hu
    · exact hK p c k x b s hp hx u hu
    · exact hg u hu

end

end Interleave

/-! ## calls of a service -/

namespace Service

open Interleave ReadCommitted

/-- a write that is new is one of a statement -/
theorem Spec.step_pending {P Db W L E Y Q Rm R : Type} [DecidableEq P] [DecidableEq L]
    [Schema Db W L] {Row : Q → Type} {Reply : Rm → Type} {S : Spec P Db W L E Y Row Reply}
    {σ τ : Conf P (Cmd Q Rm) (Ans Row Reply) (State P Db W L E) R} {a : Act P (Choice Y)}
    (h : S.machine.step σ a = some τ) {p : P} {w : W} (hw : w ∈ τ.state.store.pending p) :
    w ∈ σ.state.store.pending p ∨ ∃ q k x b t, σ.prog p = some (.call (.sql q) k) ∧
      S.stmt p q x σ.state.store = some (b, t) ∧ w ∈ t.pending p := by
  have cleared : ∀ {q : P} {s : Store P Db W L},
      w ∈ Function.update s.pending q [] p → w ∈ s.pending p := by
    intro q s hw
    by_cases e : p = q
    · subst e
      rw [Function.update_self] at hw
      exact absurd hw List.not_mem_nil
    · rwa [Function.update_of_ne e] at hw
  cases a with
  | env x =>
    obtain ⟨s, hx, rfl⟩ := Machine.step_env h
    obtain ⟨e, -, rfl⟩ := Option.map_eq_some_iff.mp hx
    exact .inl hw
  | crash q =>
    obtain ⟨-, rfl⟩ := Machine.step_crash h
    exact .inl (cleared (q := q) hw)
  | exec q x =>
    obtain ⟨c, k, b, s, hq, hx, rfl⟩ := Machine.step_exec h
    have hx : S.exec q c x σ.state = some (b, s) := hx
    by_cases e : p = q
    swap
    · rw [Spec.exec_pending e hx] at hw
      exact .inl hw
    subst e
    cases c with
    | begin =>
      cases hx
      left
      change w ∈ (execBegin p x σ.state.store).2.pending p at hw
      unfold execBegin at hw
      split at hw
      · exact hw
      · exact hw
    | commit =>
      obtain ⟨-, -, rfl⟩ := S.exec_commit hx
      left
      change w ∈ (execCommit p x σ.state.store).2.pending p at hw
      unfold execCommit at hw
      split at hw
      · exact cleared (q := p) hw
      · exact cleared (q := p) hw
      · exact cleared (q := p) hw
    | rollback =>
      cases hx
      exact .inl (cleared (q := p) hw)
    | sql r =>
      simp only [Spec.exec] at hx
      split at hx
      · obtain ⟨⟨a, t⟩, hst, he⟩ := Option.map_eq_some_iff.mp hx
        cases he
        exact .inr ⟨r, k, x, a, t, hq, hst, hw⟩
      · cases hx
        exact .inl hw
    | remote r =>
      obtain ⟨⟨a, e⟩, -, he⟩ := Option.map_eq_some_iff.mp hx
      cases he
      exact .inl hw

section
variable {Q Rm : Type} {Row : Q → Type} {Reply : Rm → Type} {ε ε' α β U : Type}
variable {hears : (c : Cmd Q Rm) → Ans Row Reply c → List U} {ok : Cmd Q Rm → List U → Prop}
  {g : List U}

/-- the result of a call that answers -/
def Told (hears : (c : Cmd Q Rm) → Ans Row Reply c → List U) (ok : Cmd Q Rm → List U → Prop)
    (fn : Call Row Reply ε α) (g : List U) (Φ : α → List U → Prop) : Prop :=
  fn.run.Told hears ok g fun r g => ∀ a, r = .ok a → Φ a g

namespace Told
variable {Φ : α → List U → Prop}

theorem mono {fn : Call Row Reply ε α} {Ψ : α → List U → Prop} (h : Told hears ok fn g Φ)
    (hΦ : ∀ a g, Φ a g → Ψ a g) : Told hears ok fn g Ψ :=
  Prog.Told.mono h fun _ g hr a ha => hΦ a g (hr a ha)

theorem any (hok : ∀ c g, ok c g) (fn : Call Row Reply ε α) (hΦ : ∀ a g, Φ a g) :
    Told hears ok fn g Φ :=
  Prog.Told.any hok fn.run fun _ g a _ => hΦ a g

theorem pure {a : α} (h : Φ a g) : Told hears ok (Pure.pure a : Call Row Reply ε α) g Φ := by
  intro b hb
  cases hb
  exact h

theorem throw (e : ε) : Told hears ok (MonadExcept.throw e : Call Row Reply ε α) g Φ := by
  intro b hb
  cases hb

theorem bind {fn : Call Row Reply ε α} {f : α → Call Row Reply ε β} {Ψ : β → List U → Prop}
    (h : Told hears ok fn g Φ) (hf : ∀ a g, Φ a g → Told hears ok (f a) g Ψ) :
    Told hears ok (fn >>= f) g Ψ := by
  refine Prog.Told.bind h fun r g hr => ?_
  cases r with
  | ok a => exact hf a g (hr a rfl)
  | error e =>
    intro b hb
    cases hb

theorem query {q : Q} {Φ : Except PgErr (Row q) → List U → Prop} (hq : ok (.sql q) g)
    (h : ∀ r, Φ r (hears (.sql q) r ++ g)) :
    Told hears ok (Service.query q : Call Row Reply ε _) g Φ := by
  refine ⟨hq, fun r a ha => ?_⟩
  cases ha
  exact h r

theorem remote {r : Rm} {Φ : Reply r → List U → Prop} (hr : ok (.remote r) g)
    (h : ∀ a, Φ a (hears (.remote r) a ++ g)) :
    Told hears ok (Service.remote r : Call Row Reply ε _) g Φ := by
  refine ⟨hr, fun b a ha => ?_⟩
  cases ha
  exact h b

theorem begin {Φ : Except PgErr Unit → List U → Prop} (hb : ok .begin g)
    (h : ∀ r, Φ r (hears .begin r ++ g)) :
    Told hears ok (Service.begin : Call Row Reply ε _) g Φ := by
  refine ⟨hb, fun r a ha => ?_⟩
  cases ha
  exact h r

theorem commit {Φ : Except PgErr Unit → List U → Prop} (hc : ok .commit g)
    (h : ∀ r, Φ r (hears .commit r ++ g)) :
    Told hears ok (Service.commit : Call Row Reply ε _) g Φ := by
  refine ⟨hc, fun r a ha => ?_⟩
  cases ha
  exact h r

theorem rollback {Φ : Unit → List U → Prop} (hr : ok .rollback g)
    (h : ∀ r, Φ r (hears .rollback r ++ g)) :
    Told hears ok (Service.rollback : Call Row Reply ε _) g Φ := by
  refine ⟨hr, fun r a ha => ?_⟩
  cases ha
  exact h r

theorem orThrow {wrap : PgErr → ε} {r : Except PgErr α} (h : ∀ a, r = .ok a → Φ a g) :
    Told hears ok (Service.orThrow wrap r : Call Row Reply ε α) g Φ := by
  cases r with
  | ok a => exact pure (h a rfl)
  | error e => exact throw _

theorem sql {wrap : PgErr → ε} {q : Q} {Φ : Row q → List U → Prop} (hq : ok (.sql q) g)
    (h : ∀ a, Φ a (hears (.sql q) (.ok a) ++ g)) :
    Told hears ok (Service.sql wrap q : Call Row Reply ε _) g Φ := by
  refine bind (query (Φ := fun r g' => g' = hears (.sql q) r ++ g) hq fun _ => rfl)
    fun r g' hg => ?_
  refine orThrow fun a ha => ?_
  rw [hg, ha]
  exact h a

theorem attempt {fn : Call Row Reply ε α} (h : Told hears ok fn g Φ) :
    Told hears ok (Service.attempt fn : Call Row Reply ε' _) g
      fun r g => ∀ a, r = .ok a → Φ a g := by
  refine Prog.Told.bind h fun r g hr => ?_
  intro b hb
  cases hb
  exact hr

/-- a transaction whose frame names nothing -/
theorem inTx {beginning committing : PgErr → ε} {fn : Call Row Reply ε α}
    (hok : ∀ g, ok .begin g ∧ ok .commit g ∧ ok .rollback g)
    (hb : ∀ r, hears .begin r = []) (hc : ∀ r, hears .commit r = [])
    (h : Told hears ok fn g Φ) : Told hears ok (Service.inTx beginning committing fn) g Φ := by
  have hbegin : Told hears ok (Service.begin >>= Service.orThrow beginning : Call Row Reply ε _) g
      fun _ g' => g' = g := by
    refine bind (begin (Φ := fun _ g' => g' = g) (hok g).1 fun r => ?_)
      fun r g' hg => orThrow fun a _ => hg
    exact (congrArg (· ++ g) (hb r)).trans (List.nil_append g)
  refine bind hbegin fun _ g' hg => ?_
  subst hg
  refine bind (attempt h) fun r g' hr => ?_
  cases r with
  | error e =>
    exact bind (rollback (Φ := fun _ _ => True) (hok g').2.2 fun _ => trivial) fun _ _ _ => throw e
  | ok a =>
    refine bind (commit (Φ := fun _ => Φ a) (hok g').2.1 fun r => ?_) fun r g'' hg => ?_
    · have hsame := (congrArg (· ++ g') (hc r)).trans (List.nil_append g')
      exact hsame.symm ▸ hr a rfl
    · cases r with
      | ok _ => exact pure hg
      | error e =>
        exact bind (rollback (Φ := fun _ _ => True) (hok g'').2.2 fun _ => trivial)
          fun _ _ _ => throw _

end Told

end

end Service
