import Marketplace.Lib.Prog
import Marketplace.Lib.ReadCommitted

/-!
# Services: calls made of SQL statements and remote calls

A service answers a call with a program over its own database and over the services it calls.

* `Cmd`, `Ans`       the two ends of a transaction, a statement `Q`, a remote call `Rm`;
* `Choice`           what the environment decides at one command: a fault, a generated id, the
                     clock, the reply of a remote call;
* `Spec`, `machine`  what the statements and the remote calls do.  `ext` is whatever lies outside
                     the database; `note` lets a statement leave a trace there;
* `Spec.step_store`  a move commits one transaction, or nothing;
* `Call`             a program that may throw; `inTx` wraps one in a transaction;
* `contract`         the rely-guarantee contract of a service: every process sees its own writes
                     and the parts under its locks stay as they are, and `I` holds of the
                     committed contents, the log and the outside;
* `Triple`           what a call does between an assertion before and one after;
                     `Triple.query`, `Triple.inTx`, ..  one rule for every kind of command.
-/

set_option linter.unusedSectionVars false

namespace Service

open Interleave ReadCommitted

/-- how a statement fails, as far as callers look: no row, a violated unique constraint
(SQLSTATE 23505), another integrity violation (class 23: CHECK, foreign key), anything else -/
inductive PgErr where
  | noRows
  | uniqueViolation
  | integrityViolation
  | other
  deriving DecidableEq, Repr

/-- `failed`: a statement or a commit fails.  `lost`: a commit takes effect, but its
acknowledgement does not arrive. -/
inductive Fault where
  | none
  | failed
  | lost
  deriving DecidableEq, Repr

/-- `id`, `tag`: the ids generated for a row -/
structure Choice (Y : Type) where
  fault : Fault
  id : Nat
  tag : Nat
  now : Nat
  ext : Y
  deriving DecidableEq, Repr

inductive Cmd (Q Rm : Type) where
  | begin
  | commit
  | rollback
  | sql (q : Q)
  | remote (r : Rm)

section
variable {Q Rm : Type}

def Ans (Row : Q → Type) (Reply : Rm → Type) : Cmd Q Rm → Type
  | .begin => Except PgErr Unit
  | .commit => Except PgErr Unit
  | .rollback => Unit
  | .sql q => Except PgErr (Row q)
  | .remote r => Reply r

end

structure State (P Db W L E : Type) where
  store : Store P Db W L
  ext : E

/-- the statements and the remote calls of a service; a statement commits nothing.  `may` restricts
the commits, for results that hold under a condition. -/
structure Spec (P Db W L E Y : Type) [DecidableEq P] [DecidableEq L] [Schema Db W L]
    {Q Rm : Type} (Row : Q → Type) (Reply : Rm → Type) where
  stmt : P → (q : Q) → Choice Y → Store P Db W L → Option (Except PgErr (Row q) × Store P Db W L)
  note : P → (q : Q) → Choice Y → Store P Db W L → E → E
  remote : P → (r : Rm) → Choice Y → E → Option (Reply r × E)
  env : Choice Y → E → Option E
  may : P → Store P Db W L → E → Bool := fun _ _ _ => true
  quiet : ∀ {p q x s a t}, stmt p q x s = some (a, t) → Quiet p s t

section
variable {P Db W L E Y : Type} [DecidableEq P] [DecidableEq L] [Schema Db W L]
variable {Q Rm : Type} {Row : Q → Type} {Reply : Rm → Type}

/-! ## the machine of a service -/

def execBegin (p : P) (x : Choice Y) (s : Store P Db W L) : Except PgErr Unit × Store P Db W L :=
  match x.fault with
  | .none => (.ok (), s.begin p x.now)
  | _ => (.error .other, s)

def execCommit (p : P) (x : Choice Y) (s : Store P Db W L) : Except PgErr Unit × Store P Db W L :=
  match x.fault with
  | .none => (.ok (), s.commit p)
  | .failed => (.error .other, s.rollback p)
  | .lost => (.error .other, s.commit p)

namespace Spec
variable (S : Spec P Db W L E Y Row Reply)

def exec (p : P) : (c : Cmd Q Rm) → Choice Y → State P Db W L E →
    Option (Ans Row Reply c × State P Db W L E)
  | .begin, x, σ => some ((execBegin p x σ.store).1, { σ with store := (execBegin p x σ.store).2 })
  | .commit, x, σ =>
    if S.may p σ.store σ.ext then
      some ((execCommit p x σ.store).1, { σ with store := (execCommit p x σ.store).2 })
    else none
  | .rollback, _, σ => some ((), { σ with store := σ.store.rollback p })
  | .sql q, x, σ =>
    match x.fault with
    | .none =>
      (S.stmt p q x σ.store).map fun r =>
        (r.1, { store := r.2, ext := S.note p q x σ.store σ.ext })
    | _ => some (.error .other, σ)
  | .remote r, x, σ => (S.remote p r x σ.ext).map fun a => (a.1, { σ with ext := a.2 })

/-- the service that sends a statement only where the condition is met -/
def onlyIf (ok : P → Q → Choice Y → Store P Db W L → Bool) : Spec P Db W L E Y Row Reply :=
  { S with
    stmt := fun p q x s => if ok p q x s then S.stmt p q x s else none
    quiet := fun {p q x s a t} h => by
      split at h
      · exact S.quiet h
      · cases h }

theorem onlyIf_stmt {ok : P → Q → Choice Y → Store P Db W L → Bool} {p : P} {q : Q}
    {x : Choice Y} {s : Store P Db W L} {r : Except PgErr (Row q) × Store P Db W L}
    (h : (S.onlyIf ok).stmt p q x s = some r) : ok p q x s = true ∧ S.stmt p q x s = some r := by
  simp only [onlyIf] at h
  split at h
  · exact ⟨by assumption, h⟩
  · cases h

/-- the service that commits only where the condition is met -/
def commitsIf (may : P → Store P Db W L → E → Bool) : Spec P Db W L E Y Row Reply :=
  { S with may := may }

theorem exec_commit {p : P} {x : Choice Y} {σ τ : State P Db W L E}
    {a : Ans Row Reply (.commit : Cmd Q Rm)} (h : S.exec p .commit x σ = some (a, τ)) :
    S.may p σ.store σ.ext = true ∧ a = (execCommit p x σ.store).1 ∧
      τ = { σ with store := (execCommit p x σ.store).2 } := by
  simp only [exec] at h
  split at h
  · rename_i hm
    cases h
    exact ⟨hm, rfl, rfl⟩
  · cases h

/-- a process that dies leaves its transaction to be rolled back -/
def machine : Machine P (Cmd Q Rm) (Ans Row Reply) (Choice Y) (State P Db W L E) where
  exec := S.exec
  crash p σ := { σ with store := σ.store.rollback p }
  env x σ := (S.env x σ.ext).map fun e => { σ with ext := e }

end Spec

/-! ## one move -/

/-- the process whose transaction the move commits -/
def committer {R : Type} (σ : Conf P (Cmd Q Rm) (Ans Row Reply) (State P Db W L E) R) :
    Act P (Choice Y) → Option P
  | .exec p x =>
    match σ.prog p with
    | some (.call .commit _) => if x.fault = .failed then none else some p
    | _ => none
  | _ => none

/-- a move commits one transaction, or leaves the committed contents and the log alone -/
theorem Spec.step_store {R : Type} {S : Spec P Db W L E Y Row Reply}
    {σ τ : Conf P (Cmd Q Rm) (Ans Row Reply) (State P Db W L E) R} {a : Act P (Choice Y)}
    (h : S.machine.step σ a = some τ) :
    (∃ p, committer σ a = some p ∧ τ.state.store = σ.state.store.commit p) ∨
    (τ.state.store.committed = σ.state.store.committed ∧
      τ.state.store.log = σ.state.store.log) := by
  cases a with
  | exec p x =>
    obtain ⟨c, k, b, s, hp, hx, rfl⟩ := Machine.step_exec h
    cases c with
    | begin =>
      cases hx
      right
      show (execBegin p x σ.state.store).2.committed = _ ∧ (execBegin p x σ.state.store).2.log = _
      unfold execBegin
      split <;> exact ⟨rfl, rfl⟩
    | commit =>
      obtain ⟨-, -, rfl⟩ := S.exec_commit hx
      simp only [committer, hp, execCommit]
      cases x.fault with
      | none => exact .inl ⟨p, rfl, rfl⟩
      | failed => exact .inr ⟨rfl, rfl⟩
      | lost => exact .inl ⟨p, rfl, rfl⟩
    | rollback =>
      cases hx
      exact .inr ⟨rfl, rfl⟩
    | sql q =>
      simp only [Spec.machine, Spec.exec] at hx
      split at hx
      · obtain ⟨⟨r, t⟩, hs, e⟩ := Option.map_eq_some_iff.mp hx
        cases e
        exact .inr ⟨(S.quiet hs).committed, (S.quiet hs).log⟩
      · cases hx
        exact .inr ⟨rfl, rfl⟩
    | remote r =>
      obtain ⟨⟨r, e⟩, -, he⟩ := Option.map_eq_some_iff.mp hx
      cases he
      exact .inr ⟨rfl, rfl⟩
  | crash p =>
    obtain ⟨-, rfl⟩ := Machine.step_crash h
    exact .inr ⟨rfl, rfl⟩
  | env x =>
    obtain ⟨s, hx, rfl⟩ := Machine.step_env h
    obtain ⟨e, -, rfl⟩ := Option.map_eq_some_iff.mp hx
    exact .inr ⟨rfl, rfl⟩

/-- what one process executes leaves alone what the others have written -/
theorem Spec.exec_pending {S : Spec P Db W L E Y Row Reply} {p q : P} {c : Cmd Q Rm} {x : Choice Y}
    {σ τ : State P Db W L E} {a : Ans Row Reply c} (hq : q ≠ p) (h : S.exec p c x σ = some (a, τ)) :
    τ.store.pending q = σ.store.pending q := by
  cases c with
  | begin =>
    cases h
    show (execBegin p x σ.store).2.pending q = _
    unfold execBegin
    split
    · rfl
    · rfl
  | commit =>
    obtain ⟨-, -, rfl⟩ := S.exec_commit h
    show (execCommit p x σ.store).2.pending q = _
    unfold execCommit
    split
    · exact Function.update_of_ne hq _ _
    · exact Function.update_of_ne hq _ _
    · exact Function.update_of_ne hq _ _
  | rollback =>
    cases h
    exact Function.update_of_ne hq _ _
  | sql r =>
    simp only [exec] at h
    split at h
    · obtain ⟨⟨b, t⟩, hst, e⟩ := Option.map_eq_some_iff.mp h
      cases e
      exact ((S.quiet hst).others q hq).1
    · cases h
      rfl
  | remote r =>
    obtain ⟨⟨b, e⟩, -, he⟩ := Option.map_eq_some_iff.mp h
    cases he
    rfl

/-- the process that commits is at its commit, and may make it -/
theorem Spec.step_may {R : Type} {S : Spec P Db W L E Y Row Reply}
    {σ τ : Conf P (Cmd Q Rm) (Ans Row Reply) (State P Db W L E) R} {a : Act P (Choice Y)} {p : P}
    (h : S.machine.step σ a = some τ) (hp : committer σ a = some p) :
    ∃ x k, a = .exec p x ∧ σ.prog p = some (.call .commit k) ∧ x.fault ≠ .failed ∧
      S.may p σ.state.store σ.state.ext = true := by
  cases a with
  | crash q => cases hp
  | env x => cases hp
  | exec q x =>
    obtain ⟨c, k, b, s, hq, hx, rfl⟩ := Machine.step_exec h
    simp only [committer, hq] at hp
    cases c with
    | begin => cases hp
    | rollback => cases hp
    | sql q' => cases hp
    | remote r => cases hp
    | commit =>
      obtain ⟨hmay, -, -⟩ := S.exec_commit hx
      by_cases hf : x.fault = .failed
      · simp [hf] at hp
      · simp only [if_neg hf, Option.some.injEq] at hp
        subst hp
        exact ⟨x, k, rfl, hq, hf, hmay⟩

/-- what a move does outside: nothing, the note of a statement, a remote call, or a move of its own -/
theorem Spec.step_ext {R : Type} {S : Spec P Db W L E Y Row Reply}
    {σ τ : Conf P (Cmd Q Rm) (Ans Row Reply) (State P Db W L E) R} {a : Act P (Choice Y)}
    (h : S.machine.step σ a = some τ) :
    τ.state.ext = σ.state.ext ∨
    (∃ p q x, τ.state.ext = S.note p q x σ.state.store σ.state.ext) ∨
    (∃ p r x b, S.remote p r x σ.state.ext = some (b, τ.state.ext)) ∨
    ∃ x, S.env x σ.state.ext = some τ.state.ext := by
  cases a with
  | exec p x =>
    obtain ⟨c, k, b, s, -, hx, rfl⟩ := Machine.step_exec h
    cases c with
    | begin =>
      cases hx
      exact .inl rfl
    | commit =>
      obtain ⟨-, -, rfl⟩ := S.exec_commit hx
      exact .inl rfl
    | rollback =>
      cases hx
      exact .inl rfl
    | sql q =>
      simp only [Spec.machine, Spec.exec] at hx
      split at hx
      · obtain ⟨r, -, e⟩ := Option.map_eq_some_iff.mp hx
        cases e
        exact .inr (.inl ⟨p, q, x, rfl⟩)
      · cases hx
        exact .inl rfl
    | remote r =>
      obtain ⟨⟨b, e⟩, hr, he⟩ := Option.map_eq_some_iff.mp hx
      cases he
      exact .inr (.inr (.inl ⟨p, r, x, b, hr⟩))
  | crash p =>
    obtain ⟨-, rfl⟩ := Machine.step_crash h
    exact .inl rfl
  | env x =>
    obtain ⟨s, hx, rfl⟩ := Machine.step_env h
    obtain ⟨e, he, rfl⟩ := Option.map_eq_some_iff.mp hx
    exact .inr (.inr (.inr ⟨x, he⟩))

/-- the log only grows -/
theorem Spec.runs_log {R : Type} {S : Spec P Db W L E Y Row Reply}
    {σ τ : Conf P (Cmd Q Rm) (Ans Row Reply) (State P Db W L E) R} (h : Runs S.machine σ τ) :
    ∃ new, τ.state.store.log = new ++ σ.state.store.log := by
  induction h with
  | refl => exact ⟨[], rfl⟩
  | tail _ a hs ih =>
    obtain ⟨new, hn⟩ := ih
    rcases Spec.step_store hs with ⟨p, -, he⟩ | ⟨-, he⟩
    · rw [he]
      exact ⟨_ :: new, by rw [Store.commit, hn]; rfl⟩
    · exact ⟨new, he.trans hn⟩

/-- the committed contents come from the commits in the log, and from nothing else -/
theorem Spec.chained_runs {R : Type} {S : Spec P Db W L E Y Row Reply}
    {σ τ : Conf P (Cmd Q Rm) (Ans Row Reply) (State P Db W L E) R} {d : Db}
    (h : Runs S.machine σ τ) (hd : Chained d σ.state.store.log σ.state.store.committed) :
    Chained d τ.state.store.log τ.state.store.committed := by
  induction h with
  | refl => exact hd
  | tail _ a hs ih =>
    rcases Spec.step_store hs with ⟨p, -, he⟩ | ⟨hc, hl⟩
    · rw [he]
      exact ih.commit p
    · rw [hc, hl]
      exact ih

/-! ## calls -/

/-- a program that may throw -/
abbrev Call (Row : Q → Type) (Reply : Rm → Type) (ε α : Type) : Type :=
  ExceptT ε (Prog (Cmd Q Rm) (Ans Row Reply)) α

/-- a statement whose failure is looked at -/
def query {ε : Type} (q : Q) : Call Row Reply ε (Except PgErr (Row q)) :=
  ExceptT.mk (.call (.sql q) fun a => .ret (.ok a))

def remote {ε : Type} (r : Rm) : Call Row Reply ε (Reply r) :=
  ExceptT.mk (.call (.remote r) fun a => .ret (.ok a))

def begin {ε : Type} : Call Row Reply ε (Except PgErr Unit) :=
  ExceptT.mk (.call .begin fun a => .ret (.ok a))

def commit {ε : Type} : Call Row Reply ε (Except PgErr Unit) :=
  ExceptT.mk (.call .commit fun a => .ret (.ok a))

def rollback {ε : Type} : Call Row Reply ε Unit :=
  ExceptT.mk (.call .rollback fun a => .ret (.ok a))

/-- a call whose error is looked at -/
def attempt {ε ε' α : Type} (fn : Call Row Reply ε α) : Call Row Reply ε' (Except ε α) :=
  ExceptT.mk (fn.run >>= fun r => .ret (.ok r))

/-- an answer whose error is thrown -/
def orThrow {ε α : Type} (wrap : PgErr → ε) : Except PgErr α → Call Row Reply ε α
  | .ok a => pure a
  | .error e => throw (wrap e)

/-- a statement whose failure is thrown -/
def sql {ε : Type} (wrap : PgErr → ε) (q : Q) : Call Row Reply ε (Row q) :=
  query q >>= orThrow wrap

/-- begin, the body, and then commit or, after an error, roll back -/
def inTx {ε α : Type} (beginning committing : PgErr → ε) (fn : Call Row Reply ε α) :
    Call Row Reply ε α := do
  begin >>= orThrow beginning
  match ← attempt fn with
  | .error e => do
    rollback
    throw e
  | .ok a =>
    match ← commit with
    | .error e => do
      rollback
      throw (committing e)
    | .ok _ => pure a

/-- the call issues no other commands than these -/
def Only {ε α : Type} (ok : Cmd Q Rm → Prop) (fn : Call Row Reply ε α) : Prop := fn.run.Only ok

section
variable {ε α β : Type} {ok : Cmd Q Rm → Prop}

theorem Only.bind {fn : Call Row Reply ε α} {f : α → Call Row Reply ε β} (h : Only ok fn)
    (hf : ∀ a, Only ok (f a)) : Only ok (fn >>= f) := by
  refine Prog.Only.bind h fun r => ?_
  cases r with
  | ok a => exact hf a
  | error e => trivial

theorem Only.pure (a : α) : Only ok (Pure.pure a : Call Row Reply ε α) := trivial

theorem Only.throw (e : ε) : Only ok (MonadExcept.throw e : Call Row Reply ε α) := trivial

theorem Only.query {q : Q} (h : ok (.sql q)) : Only ok (query q : Call Row Reply ε _) :=
  ⟨h, fun _ => trivial⟩

theorem Only.remote {r : Rm} (h : ok (.remote r)) : Only ok (remote r : Call Row Reply ε _) :=
  ⟨h, fun _ => trivial⟩

theorem Only.begin (h : ok .begin) : Only ok (Service.begin : Call Row Reply ε _) :=
  ⟨h, fun _ => trivial⟩

theorem Only.commit (h : ok .commit) : Only ok (Service.commit : Call Row Reply ε _) :=
  ⟨h, fun _ => trivial⟩

theorem Only.rollback (h : ok .rollback) : Only ok (Service.rollback : Call Row Reply ε _) :=
  ⟨h, fun _ => trivial⟩

theorem Only.orThrow {wrap : PgErr → ε} (r : Except PgErr α) :
    Only ok (Service.orThrow wrap r : Call Row Reply ε α) := by
  cases r with
  | ok a => exact .pure a
  | error e => exact .throw (wrap e)

end

/-! ## the contract of a service -/

/-- what a contract is made of: a property of the committed contents, the log and the outside,
and what every process may see of the outside -/
structure Terms (S : Spec P Db W L E Y Row Reply) where
  I : Db → List (Commit P Db) → E → Prop
  R : P → E → E → Prop
  refl : ∀ p e, R p e e
  trans : ∀ p a b c, R p a b → R p b c → R p a c
  note : ∀ {p p' q x s e}, p' ≠ p → R p' e (S.note p q x s e)
  remote : ∀ {p p' r x e a e'}, p' ≠ p → S.remote p r x e = some (a, e') → R p' e e'
  env_R : ∀ {p x e e'}, S.env x e = some e' → R p e e'
  env_I : ∀ {d log x e e'}, I d log e → S.env x e = some e' → I d log e'

namespace Terms
variable {S : Spec P Db W L E Y Row Reply} (T : Terms S)

structure Inv (σ : State P Db W L E) : Prop where
  locked : WellLocked σ.store
  holds : T.I σ.store.committed σ.store.log σ.ext

structure Rely (p : P) (σ τ : State P Db W L E) : Prop where
  seen : Seen p σ.store τ.store
  ext : T.R p σ.ext τ.ext

theorem exec_rely {p q : P} {c : Cmd Q Rm} {x : Choice Y} {σ τ : State P Db W L E}
    {a : Ans Row Reply c} (hq : q ≠ p) (hi : T.Inv σ) (h : S.exec p c x σ = some (a, τ)) :
    T.Rely q σ τ := by
  cases c with
  | begin =>
    cases h
    refine ⟨?_, T.refl q _⟩
    unfold execBegin
    split
    · exact (Quiet.begin p x.now σ.store).seen hq
    · exact Seen.refl q _
  | commit =>
    obtain ⟨-, -, rfl⟩ := S.exec_commit h
    refine ⟨?_, T.refl q _⟩
    show Seen q σ.store (execCommit p x σ.store).2
    unfold execCommit
    split
    · exact seen_commit hi.locked hq
    · exact (Quiet.rollback p σ.store).seen hq
    · exact seen_commit hi.locked hq
  | rollback =>
    cases h
    exact ⟨(Quiet.rollback p σ.store).seen hq, T.refl q _⟩
  | sql s =>
    simp only [Spec.exec] at h
    split at h
    · obtain ⟨⟨b, t⟩, hs, e⟩ := Option.map_eq_some_iff.mp h
      cases e
      exact ⟨(S.quiet hs).seen hq, T.note hq⟩
    · cases h
      exact ⟨Seen.refl q _, T.refl q _⟩
  | remote r =>
    obtain ⟨⟨b, e'⟩, hs, e⟩ := Option.map_eq_some_iff.mp h
    cases e
    exact ⟨Seen.refl q _, T.remote hq hs⟩

theorem rollback_inv {p : P} {σ : State P Db W L E} (hi : T.Inv σ) :
    T.Inv { σ with store := σ.store.rollback p } :=
  ⟨wellLocked_rollback hi.locked p, hi.holds⟩

def contract : Contract S.machine where
  Inv := T.Inv
  Rely := T.Rely
  rely_refl p σ := ⟨Seen.refl p _, T.refl p _⟩
  rely_trans p a b c h h' := ⟨h.seen.trans h'.seen, T.trans p _ _ _ h.ext h'.ext⟩
  exec_rely hq hi _ h := T.exec_rely hq hi h
  crash_inv hi := T.rollback_inv hi
  crash_rely hq _ := ⟨(Quiet.rollback _ _).seen hq, T.refl _ _⟩
  env_inv hi h := by
    obtain ⟨e, he, rfl⟩ := Option.map_eq_some_iff.mp h
    exact ⟨hi.locked, T.env_I hi.holds he⟩
  env_rely _ h := by
    obtain ⟨e, he, rfl⟩ := Option.map_eq_some_iff.mp h
    exact ⟨Seen.refl _ _, T.env_R he⟩

/-! ## one rule for every kind of command

`Triple A m Q E`: started in `A`, the call `m` keeps the contract whatever the others do, returns
in `Q` or throws in `E`.  What is asserted between two commands has to be stable. -/

/-- the moves of the others keep the assertion -/
def Stable (p : P) (A : State P Db W L E → Prop) : Prop :=
  ∀ σ τ, T.Rely p σ τ → T.Inv τ → A σ → A τ

/-- the assertion holds now and after every move of the others -/
def always (p : P) (A : State P Db W L E → Prop) (σ : State P Db W L E) : Prop :=
  ∀ τ, T.Rely p σ τ → T.Inv τ → A τ

/-- what a call ends in -/
def ends {ε α : Type} (Q : α → State P Db W L E → Prop) (F : ε → State P Db W L E → Prop) :
    Except ε α → State P Db W L E → Prop
  | .ok a, σ => Q a σ
  | .error e, σ => F e σ

def Triple {ε α : Type} (p : P) (A : State P Db W L E → Prop) (m : Call Row Reply ε α)
    (Q : α → State P Db W L E → Prop) (F : ε → State P Db W L E → Prop) : Prop :=
  ∀ σ, A σ → T.contract.Safe p (ends Q F) m.run σ

section
variable {T} {ε α β : Type} {p : P} {A B : State P Db W L E → Prop}

namespace Stable

theorem and (hA : T.Stable p A) (hB : T.Stable p B) : T.Stable p fun σ => A σ ∧ B σ :=
  fun σ τ hr hi h => ⟨hA σ τ hr hi h.1, hB σ τ hr hi h.2⟩

theorem all {ι : Sort*} {F : ι → State P Db W L E → Prop} (h : ∀ i, T.Stable p (F i)) :
    T.Stable p fun σ => ∀ i, F i σ :=
  fun σ τ hr hi hF i => h i σ τ hr hi (hF i)

theorem ex {ι : Sort*} {F : ι → State P Db W L E → Prop} (h : ∀ i, T.Stable p (F i)) :
    T.Stable p fun σ => ∃ i, F i σ :=
  fun σ τ hr hi ⟨i, hF⟩ => ⟨i, h i σ τ hr hi hF⟩

theorem always : T.Stable p (T.always p A) :=
  fun _ _ hr _ h υ hr' hi' => h υ (T.contract.rely_trans p _ _ _ hr hr') hi'

theorem const (a : Prop) : T.Stable p fun _ => a := fun _ _ _ _ h => h

/-- its own uncommitted writes -/
theorem pending (F : List W → Prop) : T.Stable p fun σ => F (σ.store.pending p) :=
  fun _ _ hr _ h => (congrArg F hr.seen.pending).mpr h

/-- what its lock protects -/
theorem committed {l : L} {G : Db → Prop} (hG : ∀ d e, Schema.same W l d e → G d → G e) :
    T.Stable p fun σ => σ.store.locks l = some p ∧ G σ.store.committed :=
  fun _ _ hr _ h => ⟨(hr.seen.locks l).mpr h.1, hG _ _ (hr.seen.same l h.1) h.2⟩

/-- its own commits -/
theorem commitsOf (F : List (Commit P Db) → Prop) : T.Stable p fun σ => F (σ.store.commitsOf p) :=
  fun _ _ hr _ h => (congrArg F hr.seen.commitsOf).mpr h

/-- what has been committed once -/
theorem log (c : Commit P Db) : T.Stable p fun σ => c ∈ σ.store.log :=
  fun _ _ hr _ h => hr.seen.mem_log h

end Stable

section
variable {Φ : α → State P Db W L E → Prop} {F : ε → State P Db W L E → Prop}

theorem Triple.weaken {m : Call Row Reply ε α} {Q₂ : α → State P Db W L E → Prop}
    {F₂ : ε → State P Db W L E → Prop} (h : T.Triple p B m Φ F) (hA : ∀ σ, A σ → B σ)
    (hQ : ∀ a σ, T.Inv σ → Φ a σ → Q₂ a σ) (hF : ∀ e σ, T.Inv σ → F e σ → F₂ e σ) :
    T.Triple p A m Q₂ F₂ := by
  intro σ hσ
  refine Safe.mono (fun r τ hi hr => ?_) (h σ (hA σ hσ))
  cases r with
  | ok a => exact hQ a τ hi hr
  | error e => exact hF e τ hi hr

theorem Triple.pre {m : Call Row Reply ε α} (h : T.Triple p B m Φ F) (hA : ∀ σ, A σ → B σ) :
    T.Triple p A m Φ F := fun σ hσ => h σ (hA σ hσ)

/-- what does not depend on the state is used by the proof of the call -/
theorem Triple.fact {m : Call Row Reply ε α} {φ : Prop} (h : φ → T.Triple p A m Φ F) :
    T.Triple p (fun σ => A σ ∧ φ) m Φ F := fun σ hσ => h hσ.2 σ hσ.1

theorem Triple.pure {a : α} (hA : T.Stable p A) (h : ∀ σ, T.Inv σ → A σ → Φ a σ) :
    T.Triple p A (Pure.pure a : Call Row Reply ε α) Φ F :=
  fun σ hσ τ hr hi => h τ hi (hA σ τ hr hi hσ)

theorem Triple.throw {e : ε} (hA : T.Stable p A) (h : ∀ σ, T.Inv σ → A σ → F e σ) :
    T.Triple p A (MonadExcept.throw e : Call Row Reply ε α) Φ F :=
  fun σ hσ τ hr hi => h τ hi (hA σ τ hr hi hσ)

/-- sequencing: what is asserted between the two calls holds after every move of the others -/
theorem Triple.bind_always {B : β → State P Db W L E → Prop} {m : Call Row Reply ε β}
    {f : β → Call Row Reply ε α} (hm : T.Triple p A m B F)
    (hf : ∀ b, T.Triple p (T.always p (B b)) (f b) Φ F) : T.Triple p A (m >>= f) Φ F := by
  intro σ hσ
  refine Safe.bind (hm σ hσ) (fun r τ hr => ?_)
  cases r with
  | ok b => exact hf b τ hr
  | error e => exact hr

theorem Triple.bind {B : β → State P Db W L E → Prop} {m : Call Row Reply ε β}
    {f : β → Call Row Reply ε α} (hm : T.Triple p A m B F)
    (hf : ∀ b, T.Triple p (B b) (f b) Φ F) : T.Triple p A (m >>= f) Φ F :=
  .bind_always hm fun b _ hr => Contract.Safe.of_rely fun υ h hi => hf b υ (hr υ h hi)

/-- a statement has to keep the locking discipline, and its note the property `I` -/
theorem Triple.query {q : Q} {Φ : Except PgErr (Row q) → State P Db W L E → Prop}
    (hA : T.Stable p A) (hQ : ∀ a, T.Stable p (Φ a))
    (h : ∀ σ x a t, T.Inv σ → A σ → S.stmt p q x σ.store = some (a, t) →
      WellLocked t ∧ T.I σ.store.committed σ.store.log (S.note p q x σ.store σ.ext) ∧
        Φ a { store := t, ext := S.note p q x σ.store σ.ext })
    (herr : ∀ σ, T.Inv σ → A σ → Φ (.error .other) σ) :
    T.Triple p A (Service.query q : Call Row Reply ε _) Φ F := by
  intro σ hσ τ hr hi x a υ hx
  have hτ := hA σ τ hr hi hσ
  simp only [Spec.machine, Spec.exec] at hx
  split at hx
  · obtain ⟨⟨b, t⟩, hs, e⟩ := Option.map_eq_some_iff.mp hx
    cases e
    obtain ⟨hw, hI, hk⟩ := h τ x b t hi hτ hs
    refine ⟨⟨hw, ?_⟩, fun υ hr' hi' => hQ b _ _ hr' hi' hk⟩
    rw [(S.quiet hs).committed, (S.quiet hs).log]
    exact hI
  · cases hx
    exact ⟨hi, fun υ hr' hi' => hQ _ _ _ hr' hi' (herr τ hi hτ)⟩

theorem Triple.remote {r : Rm} {Φ : Reply r → State P Db W L E → Prop}
    (hA : T.Stable p A) (hQ : ∀ a, T.Stable p (Φ a))
    (h : ∀ σ x a e, T.Inv σ → A σ → S.remote p r x σ.ext = some (a, e) →
      T.I σ.store.committed σ.store.log e ∧ Φ a { σ with ext := e }) :
    T.Triple p A (Service.remote r : Call Row Reply ε _) Φ F := by
  intro σ hσ τ hr hi x a υ hx
  obtain ⟨⟨b, e⟩, hs, he⟩ := Option.map_eq_some_iff.mp hx
  cases he
  obtain ⟨hI, hk⟩ := h τ x b e hi (hA σ τ hr hi hσ) hs
  exact ⟨⟨hi.locked, hI⟩, fun υ hr' hi' => hQ b _ _ hr' hi' hk⟩

theorem Triple.orThrow {wrap : PgErr → ε} {r : Except PgErr α} (hA : T.Stable p A)
    (h : ∀ a σ, r = .ok a → T.Inv σ → A σ → Φ a σ)
    (he : ∀ e σ, r = .error e → T.Inv σ → A σ → F (wrap e) σ) :
    T.Triple p A (Service.orThrow wrap r : Call Row Reply ε α) Φ F := by
  cases r with
  | ok a => exact .pure hA fun σ hi ha => h a σ rfl hi ha
  | error e => exact .throw hA fun σ hi ha => he e σ rfl hi ha

/-- a statement whose failure is thrown -/
theorem Triple.sqlThrows {wrap : PgErr → ε} {q : Q} {Φ : Row q → State P Db W L E → Prop}
    (hA : T.Stable p A) (hQ : ∀ a, T.Stable p (Φ a)) (hF : ∀ e, T.Stable p (F (wrap e)))
    (h : ∀ σ x a t, T.Inv σ → A σ → S.stmt p q x σ.store = some (a, t) →
      WellLocked t ∧ T.I σ.store.committed σ.store.log (S.note p q x σ.store σ.ext) ∧
        ends Φ (fun e => F (wrap e)) a { store := t, ext := S.note p q x σ.store σ.ext })
    (herr : ∀ σ, T.Inv σ → A σ → F (wrap .other) σ) :
    T.Triple p A (Service.sql wrap q : Call Row Reply ε _) Φ F := by
  have hends : ∀ a, T.Stable p (ends Φ (fun e => F (wrap e)) a) := by
    intro a
    cases a with
    | ok r => exact hQ r
    | error e => exact hF e
  refine .bind (Triple.query hA hends h herr) fun a => ?_
  cases a with
  | ok r => exact .pure (hQ r) fun _ _ h => h
  | error e => exact .throw (hF e) fun _ _ h => h

/-- a statement whose failure is thrown, where nothing is promised then -/
theorem Triple.sql {wrap : PgErr → ε} {q : Q} {Φ : Row q → State P Db W L E → Prop}
    (hA : T.Stable p A) (hQ : ∀ a, T.Stable p (Φ a)) (hF : ∀ e σ, F e σ)
    (h : ∀ σ x a t, T.Inv σ → A σ → S.stmt p q x σ.store = some (a, t) →
      WellLocked t ∧ T.I σ.store.committed σ.store.log (S.note p q x σ.store σ.ext) ∧
        ∀ r, a = .ok r → Φ r { store := t, ext := S.note p q x σ.store σ.ext }) :
    T.Triple p A (Service.sql wrap q : Call Row Reply ε _) Φ F := by
  refine .sqlThrows hA hQ (fun e _ τ _ _ _ => hF _ τ) (fun σ x a t hi ha hs => ?_)
    fun σ _ _ => hF _ σ
  obtain ⟨hw, hI, hq⟩ := h σ x a t hi ha hs
  refine ⟨hw, hI, ?_⟩
  cases a with
  | ok r => exact hq r rfl
  | error e => exact hF _ _

theorem Triple.begin {Φ : Except PgErr Unit → State P Db W L E → Prop} (hA : T.Stable p A)
    (hQ : ∀ a, T.Stable p (Φ a))
    (h : ∀ σ n, T.Inv σ → A σ → Φ (.ok ()) { σ with store := σ.store.begin p n })
    (herr : ∀ σ, T.Inv σ → A σ → Φ (.error .other) σ) :
    T.Triple p A (Service.begin : Call Row Reply ε _) Φ F := by
  intro σ hσ τ hr hi x a υ hx
  have hτ := hA σ τ hr hi hσ
  cases hx
  show T.Inv { τ with store := (execBegin p x τ.store).2 } ∧ _
  unfold execBegin
  split
  · exact ⟨⟨wellLocked_begin hi.locked p x.now, hi.holds⟩,
      fun υ hr' hi' => hQ _ _ _ hr' hi' (h τ x.now hi hτ)⟩
  · exact ⟨hi, fun υ hr' hi' => hQ _ _ _ hr' hi' (herr τ hi hτ)⟩

theorem Triple.rollback {Φ : Unit → State P Db W L E → Prop} (hA : T.Stable p A)
    (hQ : T.Stable p (Φ ()))
    (h : ∀ σ, T.Inv σ → A σ → Φ () { σ with store := σ.store.rollback p }) :
    T.Triple p A (Service.rollback : Call Row Reply ε _) Φ F := by
  intro σ hσ τ hr hi x a υ hx
  cases hx
  exact ⟨T.rollback_inv hi, fun υ hr' hi' => hQ _ _ hr' hi' (h τ hi (hA σ τ hr hi hσ))⟩

/-- a commit has to keep the property `I`; it may take effect although it reports an error -/
theorem Triple.commit {Φ : Except PgErr Unit → State P Db W L E → Prop} (hA : T.Stable p A)
    (hQ : ∀ a, T.Stable p (Φ a))
    (hI : ∀ σ, T.Inv σ → A σ → S.may p σ.store σ.ext = true →
      T.I (σ.store.view p) (⟨p, σ.store.committed, σ.store.view p⟩ :: σ.store.log) σ.ext)
    (hok : ∀ σ, T.Inv σ → A σ → Φ (.ok ()) { σ with store := σ.store.commit p })
    (hlost : ∀ σ, T.Inv σ → A σ → Φ (.error .other) { σ with store := σ.store.commit p })
    (herr : ∀ σ, T.Inv σ → A σ → Φ (.error .other) { σ with store := σ.store.rollback p }) :
    T.Triple p A (Service.commit : Call Row Reply ε _) Φ F := by
  intro σ hσ τ hr hi x a υ hx
  have hτ := hA σ τ hr hi hσ
  obtain ⟨hmay, rfl, rfl⟩ := S.exec_commit hx
  have hcommit : T.Inv { τ with store := τ.store.commit p } :=
    ⟨wellLocked_commit p hi.locked, hI τ hi hτ hmay⟩
  show T.Inv { τ with store := (execCommit p x τ.store).2 } ∧ _
  unfold execCommit
  split
  · exact ⟨hcommit, fun υ hr' hi' => hQ _ _ _ hr' hi' (hok τ hi hτ)⟩
  · exact ⟨T.rollback_inv hi, fun υ hr' hi' => hQ _ _ _ hr' hi' (herr τ hi hτ)⟩
  · exact ⟨hcommit, fun υ hr' hi' => hQ _ _ _ hr' hi' (hlost τ hi hτ)⟩

theorem Triple.attempt {ε' : Type} {G : ε' → State P Db W L E → Prop} {fn : Call Row Reply ε' α}
    {Φ : α → State P Db W L E → Prop} (h : T.Triple p A fn Φ G) :
    T.Triple p A (Service.attempt fn : Call Row Reply ε _) (ends Φ G) F :=
  fun σ hσ => Safe.bind (h σ hσ) fun _ _ ht => ht

/-- **frame**: what the moves of the others keep, and every command of the call as well -/
theorem Triple.frame {m : Call Row Reply ε α} {ok : Cmd Q Rm → Prop} (hB : T.Stable p B)
    (hok : ∀ {c x σ a τ}, ok c → S.exec p c x σ = some (a, τ) → B σ → B τ) (hm : Only ok m)
    (h : T.Triple p A m Φ F) :
    T.Triple p (fun σ => A σ ∧ B σ) m (fun a σ => Φ a σ ∧ B σ) fun e σ => F e σ ∧ B σ := by
  have key : ∀ (n : Prog (Cmd Q Rm) (Ans Row Reply) (Except ε α)) (σ : State P Db W L E),
      n.Only ok → T.contract.Safe p (ends Φ F) n σ → B σ →
        T.contract.Safe p (ends (fun a σ => Φ a σ ∧ B σ) fun e σ => F e σ ∧ B σ) n σ := by
    intro n
    induction n with
    | ret r =>
      intro σ _ hs hb τ hr hi
      have hends := hs τ hr hi
      cases r with
      | ok a => exact ⟨hends, hB σ τ hr hi hb⟩
      | error e => exact ⟨hends, hB σ τ hr hi hb⟩
    | call c k ih =>
      intro σ hn hs hb τ hr hi x a υ hx
      obtain ⟨hi', hk⟩ := hs τ hr hi x a υ hx
      exact ⟨hi', ih a υ (hn.2 a) hk (hok hn.1 hx (hB σ τ hr hi hb))⟩
  exact fun σ hσ => key m.run σ hm (h σ hσ.1) hσ.2

theorem always.now {σ : State P Db W L E} (h : T.always p A σ) (hi : T.Inv σ) : A σ :=
  h σ (T.contract.rely_refl p σ) hi

/-- **a transaction**: nothing is known after a `begin` or a commit that reports an error, and the
commit is one that the service may make -/
theorem Triple.inTx_may {beginning committing : PgErr → ε} {fn : Call Row Reply ε α}
    {M : α → State P Db W L E → Prop} {G : ε → State P Db W L E → Prop}
    (hA : T.Stable p A) (hB : T.Stable p B) (hQ : ∀ a, T.Stable p (Φ a))
    (hF : ∀ e, T.Stable p (F e))
    (hbegin : ∀ σ n, T.Inv σ → A σ → B { σ with store := σ.store.begin p n })
    (hfn : T.Triple p B fn M G)
    (hroll : ∀ e σ, T.Inv σ → G e σ → F e { σ with store := σ.store.rollback p })
    (hcommit : ∀ a σ, T.Inv σ → M a σ → (S.may p σ.store σ.ext = true →
      T.I (σ.store.view p) (⟨p, σ.store.committed, σ.store.view p⟩ :: σ.store.log) σ.ext) ∧
        Φ a { σ with store := σ.store.commit p })
    (hbeg : ∀ e σ, F (beginning e) σ) (hcom : ∀ e σ, F (committing e) σ) :
    T.Triple p A (Service.inTx beginning committing fn) Φ F := by
  have hstart : T.Triple p A (Service.begin >>= Service.orThrow beginning : Call Row Reply ε _)
      (fun _ => B) F := by
    refine .bind (B := fun r σ => r = .ok () → B σ) (Triple.begin hA (fun r => .all fun _ => hB)
      (fun σ n hi ha _ => hbegin σ n hi ha) fun σ _ _ e => nomatch e) fun r => ?_
    exact .orThrow (Stable.all fun _ => hB) (fun a σ e _ h => h e) fun e σ _ _ _ => hbeg e σ
  refine .bind hstart fun _ => .bind_always (.attempt hfn) fun r => ?_
  cases r with
  | error e =>
    refine .bind (B := fun _ => F e) (Triple.rollback Stable.always (hF e) ?_) fun _ =>
      .throw (hF e) fun _ _ h => h
    exact fun σ hi h => hroll e σ hi (h.now hi)
  | ok a =>
    refine .bind (B := fun r σ => r = .ok () → Φ a σ) (Triple.commit Stable.always
      (fun r => .all fun _ => hQ a) (fun σ hi h => (hcommit a σ hi (h.now hi)).1)
      (fun σ hi h _ => (hcommit a σ hi (h.now hi)).2) (fun σ _ _ e => nomatch e)
      fun σ _ _ e => nomatch e) fun r => ?_
    cases r with
    | error e =>
      refine .bind (B := fun _ _ => True) (Triple.rollback (Stable.all fun _ => hQ a)
        (Stable.const True) fun _ _ _ => trivial) fun _ => ?_
      exact .throw (Stable.const True) fun σ _ _ => hcom e σ
    | ok _ => exact .pure (Stable.all fun _ => hQ a) fun _ _ h => h rfl

theorem Triple.inTx {beginning committing : PgErr → ε} {fn : Call Row Reply ε α}
    {M : α → State P Db W L E → Prop} {G : ε → State P Db W L E → Prop}
    (hA : T.Stable p A) (hB : T.Stable p B) (hQ : ∀ a, T.Stable p (Φ a))
    (hF : ∀ e, T.Stable p (F e))
    (hbegin : ∀ σ n, T.Inv σ → A σ → B { σ with store := σ.store.begin p n })
    (hfn : T.Triple p B fn M G)
    (hroll : ∀ e σ, T.Inv σ → G e σ → F e { σ with store := σ.store.rollback p })
    (hcommit : ∀ a σ, T.Inv σ → M a σ →
      T.I (σ.store.view p) (⟨p, σ.store.committed, σ.store.view p⟩ :: σ.store.log) σ.ext ∧
        Φ a { σ with store := σ.store.commit p })
    (hbeg : ∀ e σ, F (beginning e) σ) (hcom : ∀ e σ, F (committing e) σ) :
    T.Triple p A (Service.inTx beginning committing fn) Φ F :=
  .inTx_may hA hB hQ hF hbegin hfn hroll
    (fun a σ hi h => ⟨fun _ => (hcommit a σ hi h).1, (hcommit a σ hi h).2⟩) hbeg hcom

end

end

end Terms

end

end Service
