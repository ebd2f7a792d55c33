import Marketplace.Lib.Service

/-!
# One call, alone

What a call does when nobody else moves and everything the environment decides is known
beforehand: one choice for every command.

* `Machine.alone`     the program run to its end;
* `alone_runs`        which is one of the runs of the machine;
* `Ends S p x m σ r τ`   the call `m`, started in `σ`, ends in `τ` with the result `r`;
                     `Ends.bind`, `Ends.query`, ..  one rule for every kind of command.
-/

set_option linter.unusedSectionVars false

namespace Interleave

section
variable {P C : Type} {A : C → Type} {X S R α β : Type} [DecidableEq P]

/-- the program of `p`, run to its end by itself -/
def Machine.alone (M : Machine P C A X S) (p : P) (x : C → X) : Prog C A α → S → Option (α × S)
  | .ret a, s => some (a, s)
  | .call c k, s => (M.exec p c (x c) s).bind fun r => alone M p x (k r.1) r.2

theorem alone_bind (M : Machine P C A X S) (p : P) (x : C → X) (m : Prog C A α)
    (f : α → Prog C A β) (s : S) :
    M.alone p x (m >>= f) s = (M.alone p x m s).bind fun r => M.alone p x (f r.1) r.2 := by
  induction m generalizing s with
  | ret a => rfl
  | call c k ih =>
    show (M.exec p c (x c) s).bind _ = _
    simp only [Machine.alone, Option.bind_assoc]
    exact congrArg _ (funext fun r => ih r.1 r.2)

/-- every result that the program can have, whatever it is answered -/
def Prog.Always (ok : α → Prop) : Prog C A α → Prop
  | .ret a => ok a
  | .call _ k => ∀ a, (k a).Always ok

theorem Prog.Always.bind {ok : α → Prop} {ok' : β → Prop} {m : Prog C A α} {f : α → Prog C A β}
    (hm : m.Always ok) (hf : ∀ a, ok a → (f a).Always ok') : (m >>= f).Always ok' := by
  induction m with
  | ret a => exact hf a hm
  | call c k ih => exact fun a => ih a (hm a)

theorem Prog.Always.alone {M : Machine P C A X S} {p : P} {x : C → X} {ok : α → Prop}
    {m : Prog C A α} (hm : m.Always ok) {s t : S} {a : α} (h : M.alone p x m s = some (a, t)) :
    ok a := by
  induction m generalizing s with
  | ret b =>
    cases h
    exact hm
  | call c k ih =>
    obtain ⟨r, -, hk⟩ := Option.bind_eq_some_iff.mp h
    exact ih r.1 (hm r.1) hk

/-- alone is one way of running among others -/
theorem alone_runs {M : Machine P C A X S} {p : P} {x : C → X} {m : Prog C A R} {r : R} {t : S}
    {σ : Conf P C A S R} (hp : σ.prog p = some m) (h : M.alone p x m σ.state = some (r, t)) :
    Runs M σ { state := t, prog := Function.update σ.prog p (some (.ret r)) } := by
  induction m generalizing σ with
  | ret a =>
    obtain ⟨rfl, rfl⟩ := Prod.mk.inj (Option.some.inj h)
    rw [← hp, Function.update_eq_self]
    exact .refl
  | call c k ih =>
    obtain ⟨⟨a, s⟩, hx, hk⟩ := Option.bind_eq_some_iff.mp h
    have hstep : M.step σ (.exec p (x c)) =
        some { state := s, prog := Function.update σ.prog p (some (k a)) } := by
      simp only [Machine.step, hp, hx]
      rfl
    have hrest := ih a (σ := { state := s, prog := Function.update σ.prog p (some (k a)) })
      (Function.update_self ..) hk
    rw [Function.update_idem] at hrest
    exact (Runs.refl.tail _ hstep).trans hrest

end

end Interleave

namespace Service

open Interleave ReadCommitted

section
variable {P Db W L E Y : Type} [DecidableEq P] [DecidableEq L] [Schema Db W L]
variable {Q Rm : Type} {Row : Q → Type} {Reply : Rm → Type}
variable {S : Spec P Db W L E Y Row Reply} {p : P} {x : Cmd Q Rm → Choice Y}
variable {σ τ υ : State P Db W L E} {ε ε' α β : Type}

/-- the call `m`, started in `σ`, ends in `τ` with the result `r` -/
def Ends (S : Spec P Db W L E Y Row Reply) (p : P) (x : Cmd Q Rm → Choice Y)
    (m : Call Row Reply ε α) (σ : State P Db W L E) (r : Except ε α) (τ : State P Db W L E) :
    Prop :=
  S.machine.alone p x m.run σ = some (r, τ)

namespace Ends

theorem pure (a : α) : Ends S p x (Pure.pure a : Call Row Reply ε α) σ (.ok a) σ := rfl

theorem throw (e : ε) : Ends S p x (MonadExcept.throw e : Call Row Reply ε α) σ (.error e) σ := rfl

theorem bind {m : Call Row Reply ε α} {f : α → Call Row Reply ε β} {a : α} {r : Except ε β}
    (hm : Ends S p x m σ (.ok a) τ) (hf : Ends S p x (f a) τ r υ) :
    Ends S p x (m >>= f) σ r υ := by
  refine (alone_bind _ _ _ m.run _ σ).trans ?_
  rw [show S.machine.alone p x m.run σ = _ from hm]
  exact hf

theorem bind_error {m : Call Row Reply ε α} {f : α → Call Row Reply ε β} {e : ε}
    (hm : Ends S p x m σ (.error e) τ) : Ends S p x (m >>= f) σ (.error e) τ := by
  refine (alone_bind _ _ _ m.run _ σ).trans ?_
  rw [show S.machine.alone p x m.run σ = _ from hm]
  rfl

theorem attempt {m : Call Row Reply ε α} {r : Except ε α} (hm : Ends S p x m σ r τ) :
    Ends S p x (Service.attempt m : Call Row Reply ε' _) σ (.ok r) τ := by
  refine (alone_bind _ _ _ m.run _ σ).trans ?_
  rw [show S.machine.alone p x m.run σ = _ from hm]
  rfl

theorem query {q : Q} {a : Except PgErr (Row q)} {t : Store P Db W L}
    (hx : (x (.sql q)).fault = .none) (h : S.stmt p q (x (.sql q)) σ.store = some (a, t)) :
    Ends S p x (Service.query q : Call Row Reply ε _) σ (.ok a)
      { store := t, ext := S.note p q (x (.sql q)) σ.store σ.ext } := by
  show ((S.exec p (.sql q) (x (.sql q)) σ).bind _) = _
  simp only [Spec.exec, hx, h]
  rfl

theorem query_fails {q : Q} (hx : (x (.sql q)).fault ≠ .none) :
    Ends S p x (Service.query q : Call Row Reply ε _) σ (.ok (.error .other)) σ := by
  show ((S.exec p (.sql q) (x (.sql q)) σ).bind _) = _
  cases hf : (x (.sql q)).fault with
  | none => exact absurd hf hx
  | failed =>
    simp only [Spec.exec, hf]
    rfl
  | lost =>
    simp only [Spec.exec, hf]
    rfl

theorem sql {wrap : PgErr → ε} {q : Q} {a : Row q} {t : Store P Db W L}
    (hx : (x (.sql q)).fault = .none) (h : S.stmt p q (x (.sql q)) σ.store = some (.ok a, t)) :
    Ends S p x (Service.sql wrap q) σ (.ok a)
      { store := t, ext := S.note p q (x (.sql q)) σ.store σ.ext } :=
  (query hx h).bind (.pure a)

theorem sql_fails {wrap : PgErr → ε} {q : Q} (hx : (x (.sql q)).fault ≠ .none) :
    Ends S p x (Service.sql wrap q) σ (.error (wrap .other)) σ :=
  (query_fails hx).bind (.throw _)

theorem sql_error {wrap : PgErr → ε} {q : Q} {e : PgErr} {t : Store P Db W L}
    (hx : (x (.sql q)).fault = .none) (h : S.stmt p q (x (.sql q)) σ.store = some (.error e, t)) :
    Ends S p x (Service.sql wrap q) σ (.error (wrap e))
      { store := t, ext := S.note p q (x (.sql q)) σ.store σ.ext } :=
  (query hx h).bind (.throw _)

theorem remote {r : Rm} {a : Reply r} {e : E}
    (h : S.remote p r (x (.remote r)) σ.ext = some (a, e)) :
    Ends S p x (Service.remote r : Call Row Reply ε _) σ (.ok a) { σ with ext := e } := by
  show ((S.exec p (.remote r) (x (.remote r)) σ).bind _) = _
  simp only [Spec.exec, h]
  rfl

theorem begin (hx : (x .begin).fault = .none) :
    Ends S p x (Service.begin : Call Row Reply ε _) σ (.ok (.ok ()))
      { σ with store := σ.store.begin p (x .begin).now } := by
  show ((S.exec p .begin (x .begin) σ).bind _) = _
  simp only [Spec.exec, execBegin, hx]
  rfl

theorem begin_fails (hx : (x .begin).fault ≠ .none) :
    Ends S p x (Service.begin : Call Row Reply ε _) σ (.ok (.error .other)) σ := by
  show ((S.exec p .begin (x .begin) σ).bind _) = _
  cases hf : (x .begin).fault with
  | none => exact absurd hf hx
  | failed =>
    simp only [Spec.exec, execBegin, hf]
    rfl
  | lost =>
    simp only [Spec.exec, execBegin, hf]
    rfl

theorem commit (hm : S.may p σ.store σ.ext = true) (hx : (x .commit).fault = .none) :
    Ends S p x (Service.commit : Call Row Reply ε _) σ (.ok (.ok ()))
      { σ with store := σ.store.commit p } := by
  show ((S.exec p .commit (x .commit) σ).bind _) = _
  simp only [Spec.exec, execCommit, hx, hm, if_true]
  rfl

theorem rollback :
    Ends S p x (Service.rollback : Call Row Reply ε _) σ (.ok ())
      { σ with store := σ.store.rollback p } := rfl

section
variable {beginning committing : PgErr → ε} {fn : Call Row Reply ε α}

theorem inTx {a : α} (hb : (x .begin).fault = .none) (hc : (x .commit).fault = .none)
    (h : Ends S p x fn { σ with store := σ.store.begin p (x .begin).now } (.ok a) τ)
    (hm : S.may p τ.store τ.ext = true) :
    Ends S p x (Service.inTx beginning committing fn) σ (.ok a)
      { τ with store := τ.store.commit p } :=
  .bind ((begin hb).bind (.pure ())) (.bind (attempt h) (.bind (commit hm hc) (.pure a)))

theorem inTx_error {e : ε} (hb : (x .begin).fault = .none)
    (h : Ends S p x fn { σ with store := σ.store.begin p (x .begin).now } (.error e) τ) :
    Ends S p x (Service.inTx beginning committing fn) σ (.error e)
      { τ with store := τ.store.rollback p } :=
  .bind ((begin hb).bind (.pure ())) (.bind (attempt h) (.bind rollback (.throw e)))

theorem inTx_unbegun (hb : (x .begin).fault ≠ .none) :
    Ends S p x (Service.inTx beginning committing fn) σ (.error (beginning .other)) σ :=
  .bind_error ((begin_fails hb).bind (.throw _))

end

/-! ### how a call has got to its end -/

theorem bind_cases {m : Call Row Reply ε α} {f : α → Call Row Reply ε β} {r : Except ε β}
    (h : Ends S p x (m >>= f) σ r υ) :
    (∃ a τ, Ends S p x m σ (.ok a) τ ∧ Ends S p x (f a) τ r υ) ∨
      ∃ e, Ends S p x m σ (.error e) υ ∧ r = .error e := by
  have h' := (alone_bind S.machine p x m.run (ExceptT.bindCont f) σ).symm.trans h
  obtain ⟨⟨a, τ⟩, hm, hf⟩ := Option.bind_eq_some_iff.mp h'
  cases a with
  | ok a => exact .inl ⟨a, τ, hm, hf⟩
  | error e =>
    cases hf
    exact .inr ⟨e, hm, rfl⟩

/-- a command, and what is made of its answer -/
theorem command_cases {c : Cmd Q Rm} {f : Ans Row Reply c → Call Row Reply ε α} {r : Except ε α}
    (h : Ends S p x (ExceptT.mk (.call c fun a => .ret (.ok a)) >>= f) σ r υ) :
    ∃ a τ, S.exec p c (x c) σ = some (a, τ) ∧ Ends S p x (f a) τ r υ := by
  obtain ⟨⟨a, τ⟩, hx, hf⟩ := Option.bind_eq_some_iff.mp h
  exact ⟨a, τ, hx, hf⟩

/-- a statement fails by itself, or answers -/
theorem exec_sql {q : Q} {a : Except PgErr (Row q)}
    (h : S.exec p (.sql q) (x (.sql q)) σ = some (a, τ)) :
    (a = .error .other ∧ τ = σ) ∨ ∃ t, S.stmt p q (x (.sql q)) σ.store = some (a, t) ∧
      τ = { store := t, ext := S.note p q (x (.sql q)) σ.store σ.ext } := by
  simp only [Spec.exec] at h
  split at h
  · obtain ⟨⟨b, t⟩, hs, e⟩ := Option.map_eq_some_iff.mp h
    cases e
    exact .inr ⟨t, hs, rfl⟩
  · cases h
    exact .inl ⟨rfl, rfl⟩

/-- a statement whose failure is thrown -/
theorem sql_cases {wrap : PgErr → ε} {q : Q} {f : Row q → Call Row Reply ε α} {r : Except ε α}
    (h : Ends S p x (Service.sql wrap q >>= f) σ r υ) :
    (∃ e, r = .error (wrap e)) ∨
      ∃ a t, S.stmt p q (x (.sql q)) σ.store = some (.ok a, t) ∧
        Ends S p x (f a) { store := t, ext := S.note p q (x (.sql q)) σ.store σ.ext } r υ := by
  rcases bind_cases h with ⟨a, τ, hq, hf⟩ | ⟨e, hq, rfl⟩
  · obtain ⟨b, υ', hx, hb⟩ := command_cases hq
    cases b with
    | error e => cases hb
    | ok b =>
      cases hb
      rcases exec_sql hx with ⟨he, -⟩ | ⟨t, hs, rfl⟩
      · cases he
      · exact .inr ⟨_, t, hs, hf⟩
  · obtain ⟨b, υ', hx, hb⟩ := command_cases hq
    cases b with
    | error e' =>
      cases hb
      exact .inl ⟨e', rfl⟩
    | ok b => cases hb

/-- a transaction that has ended: it did not begin, or its body threw, or it did not commit -/
theorem inTx_cases {beginning committing : PgErr → ε} {fn : Call Row Reply ε α} {r : Except ε α}
    (h : Ends S p x (Service.inTx beginning committing fn) σ r τ) :
    (∃ e, r = .error (beginning e)) ∨
      ∃ r' υ, Ends S p x fn { σ with store := σ.store.begin p (x .begin).now } r' υ ∧
        (r = r' ∨ ∃ a e, r' = .ok a ∧ r = .error (committing e)) := by
  have hbegin : ∀ {a υ}, S.exec p .begin (x .begin) σ = some (a, υ) →
      (∃ e, a = .error e) ∨
        (a = .ok () ∧ υ = { σ with store := σ.store.begin p (x .begin).now }) := by
    intro a υ hx
    cases hx
    unfold execBegin
    cases (x .begin).fault with
    | none => exact .inr ⟨rfl, rfl⟩
    | failed => exact .inl ⟨_, rfl⟩
    | lost => exact .inl ⟨_, rfl⟩
  rcases bind_cases h with ⟨u, υ, hb, hr⟩ | ⟨e, hb, rfl⟩
  · obtain ⟨a, υ', hx, ha⟩ := command_cases hb
    rcases hbegin hx with ⟨e, rfl⟩ | ⟨rfl, rfl⟩
    · cases ha
    · cases ha
      rcases bind_cases hr with ⟨r', υ, hfn, hr'⟩ | ⟨e, hfn, -⟩
      · obtain ⟨⟨r'', υ'⟩, hfn', hr''⟩ := Option.bind_eq_some_iff.mp
          ((alone_bind S.machine p x fn.run _ _).symm.trans hfn)
        cases hr''
        refine .inr ⟨r'', υ', hfn', ?_⟩
        cases r'' with
        | error e =>
          obtain ⟨u', υ₂, -, hthrow⟩ := command_cases hr'
          cases hthrow
          exact .inl rfl
        | ok a =>
          obtain ⟨c, υ₂, -, hc⟩ := command_cases hr'
          cases c with
          | ok u' =>
            cases hc
            exact .inl rfl
          | error e =>
            obtain ⟨u', υ₃, -, hthrow⟩ := command_cases hc
            cases hthrow
            exact .inr ⟨a, e, rfl, rfl⟩
      · obtain ⟨⟨r'', υ'⟩, -, hr''⟩ := Option.bind_eq_some_iff.mp
          ((alone_bind S.machine p x fn.run _ _).symm.trans hfn)
        cases hr''
  · obtain ⟨a, υ', hx, ha⟩ := command_cases hb
    cases a with
    | ok u => cases ha
    | error e' =>
      cases ha
      exact .inl ⟨e', rfl⟩

end Ends

end

end Service
