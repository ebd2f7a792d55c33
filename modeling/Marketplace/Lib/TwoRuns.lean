import Marketplace.Lib.Alone
import Mathlib.Data.Option.Basic

/-!
# Two runs, side by side

A program run alone in two states, under the same choices of the environment.

* `Sim M p x R V m m'`   started in states that are related by `R`, `m` and `m'` both get stuck, or both
                     end, with results and states that are related by `V`;
* `Sim.ret`, `Sim.call`, `Sim.bind`   one rule for every form of a program, `Sim.bindE` for programs
                     that may throw;
* `Sim.sql`, `Sim.begin`, `Sim.commit`, `Sim.rollback`, `Sim.remote`   the commands of a service.
-/

set_option linter.unusedSectionVars false

namespace Interleave

/-- both answers are missing, or both are there and related -/
theorem rel_ite {α β : Type} {r : α → β → Prop} {c : Prop} [Decidable c] {a b : Option α}
    {a' b' : Option β} (h : c → Option.Rel r a a') (h' : ¬c → Option.Rel r b b') :
    Option.Rel r (if c then a else b) (if c then a' else b') := by
  by_cases hc : c
  · rw [if_pos hc, if_pos hc]
    exact h hc
  · rw [if_neg hc, if_neg hc]
    exact h' hc

theorem rel_mono {α β : Type} {r v : α → β → Prop} {a : Option α} {b : Option β}
    (h : Option.Rel r a b) (hv : ∀ a b, r a b → v a b) : Option.Rel v a b := by
  cases h with
  | none => exact .none
  | some h => exact .some (hv _ _ h)

theorem rel_bind {α β γ δ : Type} {r : α → β → Prop} {v : γ → δ → Prop} {f : α → Option γ}
    {g : β → Option δ} {a : Option α} {b : Option β} (h : Option.Rel r a b)
    (hv : ∀ a b, r a b → Option.Rel v (f a) (g b)) : Option.Rel v (a.bind f) (b.bind g) := by
  cases h with
  | none => exact .none
  | some h => exact hv _ _ h

theorem rel_map {α β γ δ : Type} {r : α → β → Prop} {v : γ → δ → Prop} {f : α → γ} {g : β → δ}
    {a : Option α} {b : Option β} (h : Option.Rel r a b) (hv : ∀ a b, r a b → v (f a) (g b)) :
    Option.Rel v (a.map f) (b.map g) := by
  cases h with
  | none => exact .none
  | some h => exact .some (hv _ _ h)

section
variable {P C : Type} {A : C → Type} {X S α β γ δ : Type} [DecidableEq P]

def Sim (M : Machine P C A X S) (p : P) (x : C → X) (R : S → S → Prop)
    (V : α → β → S → S → Prop) (m : Prog C A α) (m' : Prog C A β) : Prop :=
  ∀ s s', R s s' →
    Option.Rel (fun r r' => V r.1 r'.1 r.2 r'.2) (M.alone p x m s) (M.alone p x m' s')

variable {M : Machine P C A X S} {p : P} {x : C → X} {R R' : S → S → Prop}
  {V : α → β → S → S → Prop} {V' : γ → δ → S → S → Prop}

theorem Sim.ret {a : α} {b : β} (h : ∀ s s', R s s' → V a b s s') :
    Sim M p x R V (.ret a) (.ret b) :=
  fun s s' hs => .some (h s s' hs)

/-- the same command on both sides -/
theorem Sim.call {c : C} {k : A c → Prog C A α} {k' : A c → Prog C A β}
    {U : A c → A c → S → S → Prop}
    (hc : ∀ s s', R s s' → Option.Rel (fun r r' => U r.1 r'.1 r.2 r'.2) (M.exec p c (x c) s)
      (M.exec p c (x c) s'))
    (hk : ∀ a a', Sim M p x (U a a') V (k a) (k' a')) : Sim M p x R V (.call c k) (.call c k') :=
  fun s s' hs => rel_bind (hc s s' hs) fun r r' hr => hk r.1 r'.1 r.2 r'.2 hr

theorem Sim.bind {m : Prog C A α} {m' : Prog C A β} {f : α → Prog C A γ} {f' : β → Prog C A δ}
    (h : Sim M p x R V m m') (hf : ∀ a b, Sim M p x (V a b) V' (f a) (f' b)) :
    Sim M p x R V' (m >>= f) (m' >>= f') := by
  intro s s' hs
  rw [alone_bind, alone_bind]
  exact rel_bind (h s s' hs) fun r r' hr => hf r.1 r'.1 r.2 r'.2 hr

theorem Sim.mono {U : α → β → S → S → Prop} {m : Prog C A α} {m' : Prog C A β}
    (h : Sim M p x R V m m') (hv : ∀ a b s s', V a b s s' → U a b s s') :
    Sim M p x R U m m' :=
  fun s s' hs => rel_mono (h s s' hs) fun r r' hr => hv r.1 r'.1 r.2 r'.2 hr

theorem Sim.pre {m : Prog C A α} {m' : Prog C A β} (h : Sim M p x R V m m')
    (hr : ∀ s s', R' s s' → R s s') : Sim M p x R' V m m' :=
  fun s s' hs => h s s' (hr s s' hs)

/-- a fact that does not depend on the states -/
theorem Sim.fact {φ : Prop} {m : Prog C A α} {m' : Prog C A β} (hr : ∀ s s', R s s' → φ)
    (h : φ → Sim M p x R V m m') : Sim M p x R V m m' :=
  fun s s' hs => h (hr s s' hs) s s' hs

/-! ### programs that may throw -/

/-- both return, with results related by `V`, or both throw the same -/
def Both {ε : Type} (V : α → β → S → S → Prop) (F : S → S → Prop) :
    Except ε α → Except ε β → S → S → Prop
  | .ok a, .ok b, s, s' => V a b s s'
  | .error e, .error e', s, s' => e = e' ∧ F s s'
  | _, _, _, _ => False

section
variable {ε : Type} {F : S → S → Prop}

/-- sequencing after a result or an error -/
theorem Sim.both {ρ ρ' : Type} {U : ρ → ρ' → S → S → Prop} {r : Except ε α} {r' : Except ε β}
    (f : Except ε α → Prog C A ρ) (f' : Except ε β → Prog C A ρ')
    (hok : ∀ a b, Sim M p x (V a b) U (f (.ok a)) (f' (.ok b)))
    (herr : ∀ e, Sim M p x F U (f (.error e)) (f' (.error e))) :
    Sim M p x (Both V F r r') U (f r) (f' r') := by
  match r, r' with
  | .ok a, .ok b => exact hok a b
  | .error e, .error e' =>
    refine Sim.fact (fun _ _ hs => hs.1) fun he => ?_
    subst he
    exact (herr e).pre fun _ _ hs => hs.2
  | .ok _, .error _ => exact fun _ _ hs => hs.elim
  | .error _, .ok _ => exact fun _ _ hs => hs.elim

theorem Sim.bindE {m : ExceptT ε (Prog C A) α} {m' : ExceptT ε (Prog C A) β}
    {f : α → ExceptT ε (Prog C A) γ} {f' : β → ExceptT ε (Prog C A) δ}
    (h : Sim M p x R (Both V F) m.run m'.run)
    (hf : ∀ a b, Sim M p x (V a b) (Both V' F) (f a).run (f' b).run) :
    Sim M p x R (Both V' F) (m >>= f).run (m' >>= f').run :=
  Sim.bind h fun r r' => Sim.both (ExceptT.bindCont f) (ExceptT.bindCont f') hf
    fun e => Sim.ret fun _ _ hs => ⟨rfl, hs⟩

end

end

end Interleave

namespace Service

open Interleave ReadCommitted

section
variable {P Db W L E Y : Type} [DecidableEq P] [DecidableEq L] [Schema Db W L]
variable {Q Rm : Type} {Row : Q → Type} {Reply : Rm → Type}
variable {S : Spec P Db W L E Y Row Reply} {p : P} {x : Cmd Q Rm → Choice Y}
variable {R F : State P Db W L E → State P Db W L E → Prop} {ε α β : Type}

/-- two calls -/
def Agree (S : Spec P Db W L E Y Row Reply) (p : P) (x : Cmd Q Rm → Choice Y)
    (R : State P Db W L E → State P Db W L E → Prop)
    (V : α → β → State P Db W L E → State P Db W L E → Prop)
    (F : State P Db W L E → State P Db W L E → Prop) (m : Call Row Reply ε α)
    (m' : Call Row Reply ε β) : Prop :=
  Sim S.machine p x R (Both V F) m.run m'.run

namespace Agree
variable {V : α → β → State P Db W L E → State P Db W L E → Prop}

theorem pure {a : α} {b : β} (h : ∀ σ σ', R σ σ' → V a b σ σ') :
    Agree S p x R V F (Pure.pure a : Call Row Reply ε α) (Pure.pure b) :=
  Sim.ret h

theorem throw (e : ε) (h : ∀ σ σ', R σ σ' → F σ σ') :
    Agree S p x R V F (MonadExcept.throw e : Call Row Reply ε α) (MonadExcept.throw e) :=
  Sim.ret fun σ σ' hs => ⟨rfl, h σ σ' hs⟩

theorem bind {γ δ : Type} {V' : γ → δ → State P Db W L E → State P Db W L E → Prop}
    {m : Call Row Reply ε α} {m' : Call Row Reply ε β} {f : α → Call Row Reply ε γ}
    {f' : β → Call Row Reply ε δ} (h : Agree S p x R V F m m')
    (hf : ∀ a b, Agree S p x (V a b) V' F (f a) (f' b)) :
    Agree S p x R V' F (m >>= f) (m' >>= f') :=
  Sim.bindE h hf

/-- the same result on both sides -/
theorem bindEq {γ δ : Type} {V' : γ → δ → State P Db W L E → State P Db W L E → Prop}
    {W' : α → State P Db W L E → State P Db W L E → Prop} {m m' : Call Row Reply ε α}
    {f : α → Call Row Reply ε γ} {f' : α → Call Row Reply ε δ}
    (h : Agree S p x R (fun a b σ σ' => a = b ∧ W' a σ σ') F m m')
    (hf : ∀ a, Agree S p x (W' a) V' F (f a) (f' a)) :
    Agree S p x R V' F (m >>= f) (m' >>= f') := by
  refine bind h fun a b => Sim.fact (fun _ _ hs => hs.1) fun e => ?_
  subst e
  exact Sim.pre (hf a) fun _ _ hs => hs.2

theorem attempt {ε' : Type} {F' : State P Db W L E → State P Db W L E → Prop}
    {m : Call Row Reply ε α} {m' : Call Row Reply ε β} (h : Agree S p x R V F m m') :
    Agree S p x R (Both V F) F' (Service.attempt m : Call Row Reply ε' _) (Service.attempt m') :=
  Sim.bind h fun _ _ => Sim.ret fun _ _ hs => hs

/-- an answer whose error is thrown -/
theorem orThrow {wrap : PgErr → ε} {m : Call Row Reply ε (Except PgErr α)}
    {m' : Call Row Reply ε (Except PgErr β)} (h : Agree S p x R (Both V F) F m m') :
    Agree S p x R V F (m >>= Service.orThrow wrap) (m' >>= Service.orThrow wrap) :=
  bind h fun _ _ => Sim.both (fun r => (Service.orThrow wrap r).run)
    (fun r => (Service.orThrow wrap r).run) (fun _ _ => Sim.ret fun _ _ hs => hs)
    fun _ => Sim.ret fun _ _ hs => ⟨rfl, hs⟩

/-- a command, and its answer -/
theorem answer (c : Cmd Q Rm)
    {V : Ans Row Reply c → Ans Row Reply c → State P Db W L E → State P Db W L E → Prop}
    (h : ∀ σ σ', R σ σ' → Option.Rel (fun r r' => V r.1 r'.1 r.2 r'.2) (S.exec p c (x c) σ)
      (S.exec p c (x c) σ')) :
    Agree S p x R V F (ExceptT.mk (.call c fun a => .ret (.ok a)) : Call Row Reply ε _)
      (ExceptT.mk (.call c fun a => .ret (.ok a))) :=
  Sim.call h fun _ _ => Sim.ret fun _ _ hs => hs

theorem sql {wrap : PgErr → ε} {q : Q}
    {V : Row q → Row q → State P Db W L E → State P Db W L E → Prop}
    (hF : ∀ σ σ', R σ σ' → F σ σ')
    (h : ∀ σ σ', R σ σ' → Option.Rel
      (fun r r' => ∀ e e' : E, Both V F r.1 r'.1 ⟨r.2, e⟩ ⟨r'.2, e'⟩)
      (S.stmt p q (x (.sql q)) σ.store) (S.stmt p q (x (.sql q)) σ'.store)) :
    Agree S p x R V F (Service.sql wrap q) (Service.sql wrap q) := by
  refine orThrow (answer (.sql q) fun σ σ' hs => ?_)
  simp only [Spec.exec]
  split
  · exact rel_map (h σ σ' hs) fun a b hab => hab _ _
  · exact .some ⟨rfl, hF σ σ' hs⟩

theorem begin {wrap : PgErr → ε}
    {V : Unit → Unit → State P Db W L E → State P Db W L E → Prop}
    (hF : ∀ σ σ', R σ σ' → F σ σ')
    (h : ∀ σ σ' t, R σ σ' → V () () { σ with store := σ.store.begin p t }
      { σ' with store := σ'.store.begin p t }) :
    Agree S p x R V F (Service.begin >>= Service.orThrow wrap)
      (Service.begin >>= Service.orThrow wrap) := by
  refine orThrow (answer .begin fun σ σ' hs => .some ?_)
  simp only [execBegin]
  cases (x .begin).fault with
  | none => exact h σ σ' _ hs
  | failed => exact ⟨rfl, hF σ σ' hs⟩
  | lost => exact ⟨rfl, hF σ σ' hs⟩

theorem commit {wrap : PgErr → ε}
    {V : Unit → Unit → State P Db W L E → State P Db W L E → Prop}
    (hm : ∀ p s e, S.may p s e = true)
    (hcommit : ∀ σ σ', R σ σ' → V () () { σ with store := σ.store.commit p }
      { σ' with store := σ'.store.commit p })
    (hlost : ∀ σ σ', R σ σ' → F { σ with store := σ.store.commit p }
      { σ' with store := σ'.store.commit p })
    (hfailed : ∀ σ σ', R σ σ' → F { σ with store := σ.store.rollback p }
      { σ' with store := σ'.store.rollback p }) :
    Agree S p x R V F (Service.commit >>= Service.orThrow wrap)
      (Service.commit >>= Service.orThrow wrap) := by
  refine orThrow (answer .commit fun σ σ' hs => ?_)
  simp only [Spec.exec, hm, if_true, execCommit]
  refine .some ?_
  cases (x .commit).fault with
  | none => exact hcommit σ σ' hs
  | failed => exact ⟨rfl, hfailed σ σ' hs⟩
  | lost => exact ⟨rfl, hlost σ σ' hs⟩

theorem rollback {V : Unit → Unit → State P Db W L E → State P Db W L E → Prop}
    (h : ∀ σ σ', R σ σ' → V () () { σ with store := σ.store.rollback p }
      { σ' with store := σ'.store.rollback p }) :
    Agree S p x R V F (Service.rollback : Call Row Reply ε _) Service.rollback :=
  answer .rollback fun σ σ' hs => .some (h σ σ' hs)

theorem remote {r : Rm}
    {V : Reply r → Reply r → State P Db W L E → State P Db W L E → Prop}
    (h : ∀ σ σ', R σ σ' → Option.Rel
      (fun a a' => V a.1 a'.1 { σ with ext := a.2 } { σ' with ext := a'.2 })
      (S.remote p r (x (.remote r)) σ.ext) (S.remote p r (x (.remote r)) σ'.ext)) :
    Agree S p x R V F (Service.remote r : Call Row Reply ε _) (Service.remote r) :=
  answer (.remote r) fun σ σ' hs => rel_map (h σ σ' hs) fun _ _ ha => ha

end Agree

end

end Service
