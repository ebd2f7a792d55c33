import Mathlib.Logic.Function.Basic

/-!
# Interleaved programs and their rely-guarantee rule

A service call is a finite tree of COMMANDS: it issues a command, gets an answer, goes on with
the subtree of that answer.  Any number of calls run against one shared state, one command at
a time, in any order.

* `Prog C A α`       a program with commands `C`, answers `A c` and result `α`;
* `Machine`          what a command does to the shared state.  The choice `x : X` stands for
                     whatever the program does not decide: a fresh id, the clock, a fault;
* `Conf`, `step`     the shared state with the rest of every program, and one move of it;
* `Runs M σ τ`       `τ` is reached from `σ` by any number of moves in any order;
* `Safe`             the weakest condition under which the rest of ONE program keeps the
                     invariant whatever the others do in between (their moves are bounded by
                     the relation `Rely`);
* `Contract.runs`    if every program is safe at the start, the invariant and the safety of
                     every program hold in every configuration that is reached.
-/

set_option linter.unusedSectionVars false

namespace Interleave

/-! processes are numbered by `Fin 2`, `Fin 3` or `Fin 4` where there are few -/

instance neZero_two : @NeZero Nat Zero.ofOfNat0 2 := ⟨nofun⟩
instance neZero_three : @NeZero Nat Zero.ofOfNat0 3 := ⟨nofun⟩
instance neZero_four : @NeZero Nat Zero.ofOfNat0 4 := ⟨nofun⟩

/-- a program: a finite tree of commands -/
inductive Prog (C : Type) (A : C → Type) (α : Type) : Type where
  | ret (a : α) : Prog C A α
  | call (c : C) (k : A c → Prog C A α) : Prog C A α

namespace Prog
variable {C : Type} {A : C → Type} {α β : Type}

def bind : Prog C A α → (α → Prog C A β) → Prog C A β
  | .ret a, f => f a
  | .call c k, f => .call c fun r => (k r).bind f

instance : Monad (Prog C A) where
  pure := .ret
  bind := .bind

theorem bind_bind {γ : Type} (m : Prog C A α) (f : α → Prog C A β) (g : β → Prog C A γ) :
    (m >>= f) >>= g = m >>= fun a => f a >>= g := by
  induction m with
  | ret a => rfl
  | call c k ih => exact congrArg (Prog.call c) (funext fun r => ih r)

/-- the program issues no other commands than these -/
def Only (ok : C → Prop) : Prog C A α → Prop
  | .ret _ => True
  | .call c k => ok c ∧ ∀ a, (k a).Only ok

theorem Only.bind {ok : C → Prop} {m : Prog C A α} {f : α → Prog C A β} (hm : m.Only ok)
    (hf : ∀ a, (f a).Only ok) : (m >>= f).Only ok := by
  induction m with
  | ret a => exact hf a
  | call c k ih => exact ⟨hm.1, fun a => ih a (hm.2 a)⟩

/-! ### programs that may throw -/

section
variable {ε : Type}

theorem run_bind (m : ExceptT ε (Prog C A) α) (f : α → ExceptT ε (Prog C A) β) :
    (m >>= f).run = m.run >>= ExceptT.bindCont f := rfl
theorem run_lift (m : Prog C A α) :
    (liftM m : ExceptT ε (Prog C A) α).run = m >>= fun a => .ret (.ok a) := rfl

theorem Only.bindE {ok : C → Prop} {m : ExceptT ε (Prog C A) α}
    {f : α → ExceptT ε (Prog C A) β} (hm : m.run.Only ok) (hf : ∀ a, (f a).run.Only ok) :
    (m >>= f).run.Only ok := by
  refine Only.bind hm fun r => ?_
  cases r with
  | ok a => exact hf a
  | error e => trivial

theorem Only.lift {ok : C → Prop} {m : Prog C A α} (hm : m.Only ok) :
    (liftM m : ExceptT ε (Prog C A) α).run.Only ok :=
  Only.bind hm fun _ => trivial

end

end Prog

/-! ## machines, configurations, runs -/

/-- `exec p c x s`: the process `p` issues `c` in the state `s`; `none` means that it has to
wait.  `crash p`: the process dies.  `env`: moves that belong to no process. -/
structure Machine (P C : Type) (A : C → Type) (X S : Type) where
  exec : P → (c : C) → X → S → Option (A c × S)
  crash : P → S → S
  env : X → S → Option S

/-- the shared state and the rest of every program (`none`: the process has died) -/
structure Conf (P C : Type) (A : C → Type) (S R : Type) where
  state : S
  prog : P → Option (Prog C A R)

inductive Act (P X : Type) where
  | exec (p : P) (x : X)
  | crash (p : P)
  | env (x : X)

section
variable {P C : Type} {A : C → Type} {X S R : Type} [DecidableEq P]

/-- the programs after a move of `p` -/
theorem progs_update {F : P → Prog C A R → Prop} {prog : P → Option (Prog C A R)} {p : P}
    {m : Option (Prog C A R)} (hm : ∀ n, m = some n → F p n)
    (h : ∀ q n, q ≠ p → prog q = some n → F q n) :
    ∀ q n, Function.update prog p m q = some n → F q n :=
  (Function.forall_update_iff prog fun q w => ∀ n, w = some n → F q n).mpr
    ⟨hm, fun q e n hn => h q n e hn⟩

namespace Machine

/-- one move -/
def step (M : Machine P C A X S) (σ : Conf P C A S R) : Act P X → Option (Conf P C A S R)
  | .exec p x =>
    match σ.prog p with
    | some (.call c k) =>
      (M.exec p c x σ.state).map fun r =>
        { state := r.2, prog := Function.update σ.prog p (some (k r.1)) }
    | _ => none
  | .crash p =>
    match σ.prog p with
    | some (.call _ _) =>
      some { state := M.crash p σ.state, prog := Function.update σ.prog p none }
    | _ => none
  | .env x => (M.env x σ.state).map fun s => { σ with state := s }

/-- the moves of a schedule, one after the other -/
def run (M : Machine P C A X S) (σ : Conf P C A S R) : List (Act P X) → Option (Conf P C A S R)
  | [] => some σ
  | a :: as => (M.step σ a).bind fun τ => run M τ as

theorem step_exec {M : Machine P C A X S} {σ τ : Conf P C A S R} {p : P} {x : X}
    (h : M.step σ (.exec p x) = some τ) :
    ∃ c k a s, σ.prog p = some (.call c k) ∧ M.exec p c x σ.state = some (a, s) ∧
      τ = { state := s, prog := Function.update σ.prog p (some (k a)) } := by
  simp only [step] at h
  split at h
  · rename_i c k hk
    obtain ⟨⟨a, s⟩, hx, rfl⟩ := Option.map_eq_some_iff.mp h
    exact ⟨c, k, a, s, hk, hx, rfl⟩
  · cases h

theorem step_crash {M : Machine P C A X S} {σ τ : Conf P C A S R} {p : P}
    (h : M.step σ (.crash p) = some τ) :
    (∃ c k, σ.prog p = some (.call c k)) ∧
      τ = { state := M.crash p σ.state, prog := Function.update σ.prog p none } := by
  simp only [step] at h
  split at h
  · rename_i c k hk
    exact ⟨⟨c, k, hk⟩, (Option.some.inj h).symm⟩
  · cases h

theorem step_env {M : Machine P C A X S} {σ τ : Conf P C A S R} {x : X}
    (h : M.step σ (.env x) = some τ) :
    ∃ s, M.env x σ.state = some s ∧ τ = { σ with state := s } := by
  obtain ⟨s, hx, rfl⟩ := Option.map_eq_some_iff.mp h
  exact ⟨s, hx, rfl⟩

/-- who has nothing to call stays as it is -/
theorem step_idle {M : Machine P C A X S} {σ τ : Conf P C A S R} {a : Act P X}
    (h : M.step σ a = some τ) {p : P} (hp : ∀ c k, σ.prog p ≠ some (.call c k)) :
    τ.prog p = σ.prog p := by
  cases a with
  | exec q x =>
    obtain ⟨c, k, b, s, hq, -, rfl⟩ := step_exec h
    have hne : p ≠ q := by
      rintro rfl
      exact hp c k hq
    exact Function.update_of_ne hne _ _
  | crash q =>
    obtain ⟨⟨c, k, hq⟩, rfl⟩ := step_crash h
    have hne : p ≠ q := by
      rintro rfl
      exact hp c k hq
    exact Function.update_of_ne hne _ _
  | env x =>
    obtain ⟨s, -, rfl⟩ := step_env h
    rfl

theorem step_ret {M : Machine P C A X S} {σ τ : Conf P C A S R} {a : Act P X}
    (h : M.step σ a = some τ) {p : P} {r : R} (hp : σ.prog p = some (.ret r)) :
    τ.prog p = some (.ret r) := by
  refine (step_idle h fun c k e => ?_).trans hp
  cases hp.symm.trans e

theorem step_none {M : Machine P C A X S} {σ τ : Conf P C A S R} {a : Act P X}
    (h : M.step σ a = some τ) {p : P} (hp : σ.prog p = none) : τ.prog p = none := by
  refine (step_idle h fun c k e => ?_).trans hp
  cases hp.symm.trans e

/-- what the others do leaves the program of `p` alone -/
theorem step_other {M : Machine P C A X S} {σ τ : Conf P C A S R} {a : Act P X} {p : P}
    (h : M.step σ a = some τ) (ha : ∀ x, a ≠ .exec p x) {m : Prog C A R}
    (hm : τ.prog p = some m) : σ.prog p = some m := by
  cases a with
  | exec q x =>
    obtain ⟨c, k, b, s, -, -, rfl⟩ := step_exec h
    have hq : p ≠ q := fun e => ha x (by rw [e])
    exact (Function.update_of_ne hq _ _).symm.trans hm
  | crash q =>
    obtain ⟨-, rfl⟩ := step_crash h
    by_cases e : p = q
    · subst e
      cases (Function.update_self p (none : Option (Prog _ _ _)) σ.prog).symm.trans hm
    · exact (Function.update_of_ne e _ _).symm.trans hm
  | env x =>
    obtain ⟨s, -, rfl⟩ := step_env h
    exact hm

end Machine

/-- `τ` is reached from `σ` -/
inductive Runs (M : Machine P C A X S) (σ : Conf P C A S R) : Conf P C A S R → Prop where
  | refl : Runs M σ σ
  | tail {τ υ : Conf P C A S R} (h : Runs M σ τ) (a : Act P X) (hs : M.step τ a = some υ) :
      Runs M σ υ

theorem Runs.trans {M : Machine P C A X S} {σ τ υ : Conf P C A S R} (h : Runs M σ τ)
    (h' : Runs M τ υ) : Runs M σ υ := by
  induction h' with
  | refl => exact h
  | tail _ a hs ih => exact ih.tail a hs

/-- one command -/
theorem Runs.exec {M : Machine P C A X S} {σ : Conf P C A S R} {p : P} {c : C}
    {k : A c → Prog C A R} {x : X} {a : A c} {s : S} (hp : σ.prog p = some (.call c k))
    (h : M.exec p c x σ.state = some (a, s)) :
    Runs M σ { state := s, prog := Function.update σ.prog p (some (k a)) } := by
  refine Runs.refl.tail (.exec p x) ?_
  simp only [Machine.step, hp, h]
  rfl

/-- one move of the environment -/
theorem Runs.env {M : Machine P C A X S} {σ : Conf P C A S R} {x : X} {s : S}
    (h : M.env x σ.state = some s) : Runs M σ { σ with state := s } := by
  refine Runs.refl.tail (.env x) ?_
  simp only [Machine.step, h]
  rfl

/-- a schedule that goes through is a run -/
theorem Runs.of_run {M : Machine P C A X S} {σ τ : Conf P C A S R} (as : List (Act P X))
    (h : M.run σ as = some τ) : Runs M σ τ := by
  induction as generalizing σ with
  | nil =>
    obtain rfl : σ = τ := Option.some.inj h
    exact .refl
  | cons a as ih =>
    obtain ⟨υ, hυ, h'⟩ := Option.bind_eq_some_iff.mp h
    exact (Runs.refl.tail a hυ).trans (ih h')

/-- the moves of one process leave the programs of the others alone -/
theorem Machine.run_other {M : Machine P C A X S} {σ τ : Conf P C A S R} {p q : P} (hq : q ≠ p)
    (xs : List X) (h : M.run σ (xs.map (Act.exec p)) = some τ) : τ.prog q = σ.prog q := by
  induction xs generalizing σ with
  | nil =>
    obtain rfl : σ = τ := Option.some.inj h
    rfl
  | cons x xs ih =>
    obtain ⟨υ, hυ, h'⟩ := Option.bind_eq_some_iff.mp h
    obtain ⟨c, k, a, s, -, -, rfl⟩ := Machine.step_exec hυ
    exact (ih h').trans (Function.update_of_ne hq _ _)

/-- the machine that executes a command only where the condition is met -/
def Machine.guarded (M : Machine P C A X S) (ok : P → C → X → S → Bool) : Machine P C A X S :=
  { M with exec := fun p c x s => if ok p c x s then M.exec p c x s else none }

theorem Machine.step_guarded {M : Machine P C A X S} {ok : P → C → X → S → Bool}
    {σ τ : Conf P C A S R} {a : Act P X} (h : (M.guarded ok).step σ a = some τ) :
    M.step σ a = some τ ∧ ∀ p x c k, a = .exec p x → σ.prog p = some (.call c k) →
      ok p c x σ.state = true := by
  cases a with
  | exec p x =>
    obtain ⟨c, k, b, s, hp, hx, rfl⟩ := step_exec h
    simp only [guarded] at hx
    split at hx
    · rename_i hok
      refine ⟨by simp only [step, hp, hx]; rfl, ?_⟩
      rintro p' x' c' k' ⟨⟩ hp'
      cases hp.symm.trans hp'
      exact hok
    · cases hx
  | crash p => exact ⟨h, nofun⟩
  | env x => exact ⟨h, nofun⟩

theorem Runs.of_guarded {M : Machine P C A X S} {ok : P → C → X → S → Bool} {σ τ : Conf P C A S R}
    (h : Runs (M.guarded ok) σ τ) : Runs M σ τ := by
  induction h with
  | refl => exact .refl
  | tail _ a hs ih => exact ih.tail a (Machine.step_guarded hs).1

/-- what is read off the end of a schedule is read off the end of a run -/
theorem Runs.exists_of_run {M : Machine P C A X S} {σ : Conf P C A S R} {β : Type}
    (as : List (Act P X)) {f : Conf P C A S R → β} {b : β} (h : (M.run σ as).map f = some b) :
    ∃ τ, Runs M σ τ ∧ f τ = b := by
  obtain ⟨τ, hτ, hb⟩ := Option.map_eq_some_iff.mp h
  exact ⟨τ, Runs.of_run as hτ, hb⟩

/-! ## safety of one program among others -/

section
variable (M : Machine P C A X S) (Inv : S → Prop) (Rely : S → S → Prop) {α β : Type}

/-- the rest of the program of `p` keeps `Inv` and ends in `Q`, whatever moves within `Rely`
the others make between its commands -/
def Safe (p : P) (Q : α → S → Prop) : Prog C A α → S → Prop
  | .ret a, s => ∀ s₁, Rely s s₁ → Inv s₁ → Q a s₁
  | .call c k, s => ∀ s₁, Rely s s₁ → Inv s₁ → ∀ x a s₂, M.exec p c x s₁ = some (a, s₂) →
      Inv s₂ ∧ Safe p Q (k a) s₂

variable {M Inv Rely}

/-- safety survives the moves of the others -/
theorem Safe.rely (ht : ∀ a b c, Rely a b → Rely b c → Rely a c) {p : P} {Q : α → S → Prop}
    {m : Prog C A α} {s t : S} (h : Safe M Inv Rely p Q m s) (hr : Rely s t) :
    Safe M Inv Rely p Q m t := by
  cases m with
  | ret a => exact fun s₁ h₁ hi => h s₁ (ht _ _ _ hr h₁) hi
  | call c k => exact fun s₁ h₁ hi => h s₁ (ht _ _ _ hr h₁) hi

theorem Safe.mono {p : P} {Q Q' : α → S → Prop} (hq : ∀ a s, Inv s → Q a s → Q' a s)
    {m : Prog C A α} {s : S} (h : Safe M Inv Rely p Q m s) : Safe M Inv Rely p Q' m s := by
  induction m generalizing s with
  | ret a => exact fun s₁ h₁ hi => hq a s₁ hi (h s₁ h₁ hi)
  | call c k ih =>
    intro s₁ h₁ hi x a s₂ hx
    obtain ⟨hi₂, hk⟩ := h s₁ h₁ hi x a s₂ hx
    exact ⟨hi₂, ih a hk⟩

/-- **sequencing**: `Q` is what holds between the two programs, under every later move of the
others -/
theorem Safe.bind {p : P} {Q : α → S → Prop} {Q' : β → S → Prop} {m : Prog C A α}
    {f : α → Prog C A β} {s : S} (h : Safe M Inv Rely p Q m s)
    (hf : ∀ a t, (∀ t₁, Rely t t₁ → Inv t₁ → Q a t₁) → Safe M Inv Rely p Q' (f a) t) :
    Safe M Inv Rely p Q' (m >>= f) s := by
  induction m generalizing s with
  | ret a => exact hf a s h
  | call c k ih =>
    intro s₁ h₁ hi x a s₂ hx
    obtain ⟨hi₂, hk⟩ := h s₁ h₁ hi x a s₂ hx
    exact ⟨hi₂, ih a hk⟩

/-- sequencing where the first program may throw -/
theorem Safe.bindE {ε : Type} {p : P} {Q : Except ε α → S → Prop} {Q' : Except ε β → S → Prop}
    {m : ExceptT ε (Prog C A) α} {f : α → ExceptT ε (Prog C A) β} {s : S}
    (h : Safe M Inv Rely p Q m.run s)
    (hf : ∀ a t, (∀ t₁, Rely t t₁ → Inv t₁ → Q (.ok a) t₁) → Safe M Inv Rely p Q' (f a).run t)
    (he : ∀ e t, Q (.error e) t → Q' (.error e) t) :
    Safe M Inv Rely p Q' (m >>= f).run s := by
  refine Safe.bind h fun r t ht => ?_
  cases r with
  | ok a => exact hf a t ht
  | error e => exact fun t₁ h₁ hi => he e t₁ (ht t₁ h₁ hi)

end

/-- **The contract between the processes of a machine**: an invariant, and for every process
the moves it may see from the others. -/
structure Contract (M : Machine P C A X S) where
  Inv : S → Prop
  Rely : P → S → S → Prop
  rely_refl : ∀ p s, Rely p s s
  rely_trans : ∀ p a b c, Rely p a b → Rely p b c → Rely p a c
  exec_rely : ∀ {p q c x s a t}, q ≠ p → Inv s → Inv t → M.exec p c x s = some (a, t) → Rely q s t
  crash_inv : ∀ {p s}, Inv s → Inv (M.crash p s)
  crash_rely : ∀ {p q s}, q ≠ p → Inv s → Rely q s (M.crash p s)
  env_inv : ∀ {x s t}, Inv s → M.env x s = some t → Inv t
  env_rely : ∀ {q x s t}, Inv s → M.env x s = some t → Rely q s t

namespace Contract
variable {M : Machine P C A X S} (K : Contract M)

/-- the program of `p` is safe under the contract -/
def Safe (p : P) {α : Type} (Q : α → S → Prop) : Prog C A α → S → Prop :=
  Interleave.Safe M K.Inv (K.Rely p) p Q

section
variable {K} {α β : Type} {p : P} {s : S}

/-- sequencing: what holds when the first program returns, with the invariant -/
theorem Safe.bind {Q : α → S → Prop} {Q' : β → S → Prop} {m : Prog C A α} {f : α → Prog C A β}
    (hi : K.Inv s) (h : K.Safe p Q m s)
    (hf : ∀ a t, K.Inv t → Q a t → K.Safe p Q' (f a) t) : K.Safe p Q' (m >>= f) s := by
  induction m generalizing s with
  | ret a => exact hf a s hi (h s (K.rely_refl p s) hi)
  | call c k ih =>
    intro s₁ h₁ hi₁ x a s₂ hx
    obtain ⟨hi₂, hk⟩ := h s₁ h₁ hi₁ x a s₂ hx
    exact ⟨hi₂, ih a hi₂ hk⟩

/-- what is safe after every move of the others is safe -/
theorem Safe.of_rely {Q : α → S → Prop} {m : Prog C A α}
    (h : ∀ t, K.Rely p s t → K.Inv t → K.Safe p Q m t) : K.Safe p Q m s := by
  cases m with
  | ret a => exact fun t hr hi => h t hr hi t (K.rely_refl p t) hi
  | call c k => exact fun t hr hi => h t hr hi t (K.rely_refl p t) hi

theorem Safe.bindE {ε : Type} {Q : Except ε α → S → Prop} {Q' : Except ε β → S → Prop}
    {m : ExceptT ε (Prog C A) α} {f : α → ExceptT ε (Prog C A) β} (hi : K.Inv s)
    (h : K.Safe p Q m.run s)
    (hf : ∀ a t, K.Inv t → Q (.ok a) t → K.Safe p Q' (f a).run t)
    (he : ∀ e t, K.Inv t → Q (.error e) t → K.Safe p Q' (.ret (.error e)) t) :
    K.Safe p Q' (m >>= f).run s := by
  refine Safe.bind hi h fun r t ht hq => ?_
  cases r with
  | ok a => exact hf a t ht hq
  | error e => exact he e t ht hq

end

theorem step_inv {Q : P → R → S → Prop} {σ τ : Conf P C A S R} (a : Act P X)
    (hs : M.step σ a = some τ) (hi : K.Inv σ.state)
    (hp : ∀ p m, σ.prog p = some m → K.Safe p (Q p) m σ.state) :
    K.Inv τ.state ∧ ∀ p m, τ.prog p = some m → K.Safe p (Q p) m τ.state := by
  cases a with
  | exec p x =>
    obtain ⟨c, k, a, s₂, hpk, hx, rfl⟩ := Machine.step_exec hs
    obtain ⟨hi₂, hk⟩ := hp p _ hpk σ.state (K.rely_refl p _) hi x a s₂ hx
    refine ⟨hi₂, progs_update (fun m hm => ?_) fun q m e hq => ?_⟩
    · exact Option.some.inj hm ▸ hk
    · exact (hp q m hq).rely (K.rely_trans q) (K.exec_rely e hi hi₂ hx)
  | crash p =>
    obtain ⟨_, rfl⟩ := Machine.step_crash hs
    refine ⟨K.crash_inv hi, progs_update (fun m hm => ?_) fun q m e hq => ?_⟩
    · cases hm
    · exact (hp q m hq).rely (K.rely_trans q) (K.crash_rely e hi)
  | env x =>
    obtain ⟨s, hx, rfl⟩ := Machine.step_env hs
    exact ⟨K.env_inv hi hx, fun q m hm => (hp q m hm).rely (K.rely_trans q) (K.env_rely hi hx)⟩

/-- **The rely-guarantee rule**: what is safe at the start stays safe in every run. -/
theorem runs {Q : P → R → S → Prop} {σ τ : Conf P C A S R} (h : Runs M σ τ) (hi : K.Inv σ.state)
    (hp : ∀ p m, σ.prog p = some m → K.Safe p (Q p) m σ.state) :
    K.Inv τ.state ∧ ∀ p m, τ.prog p = some m → K.Safe p (Q p) m τ.state := by
  induction h with
  | refl => exact ⟨hi, hp⟩
  | tail _ a hs ih => exact K.step_inv a hs ih.1 ih.2

/-- what one process promises in a state holds from there on -/
theorem runs_from {Q : P → R → S → Prop} {Φ : R → S → Prop} {σ τ : Conf P C A S R} {p : P}
    {m : Prog C A R} (h : Runs M σ τ) (hi : K.Inv σ.state)
    (hp : ∀ q m, σ.prog q = some m → K.Safe q (Q q) m σ.state) (hm : σ.prog p = some m)
    (hsafe : K.Safe p Φ m σ.state) :
    K.Inv τ.state ∧ ∀ m, τ.prog p = some m → K.Safe p Φ m τ.state := by
  have hall : ∀ q m', σ.prog q = some m' → K.Safe q (fun r s => q = p → Φ r s) m' σ.state := by
    intro q m' hm'
    by_cases e : q = p
    · subst e
      obtain rfl : m = m' := Option.some.inj (hm.symm.trans hm')
      exact Safe.mono (fun _ _ _ h _ => h) hsafe
    · exact Safe.mono (fun _ _ _ _ h => absurd h e) (hp q m' hm')
  obtain ⟨hi', hp'⟩ := K.runs (Q := fun q r s => q = p → Φ r s) h hi hall
  exact ⟨hi', fun m' hm' => Safe.mono (fun _ _ _ h => h rfl) (hp' p m' hm')⟩

end Contract

end

end Interleave
