import Marketplace.Lib.Atomic

/-!
# A call that gives up at the first failure

A call that throws as soon as a command of the database fails has then committed nothing, and commits
nothing any more, if its commit is its last command but for a rollback.

* `Cmd.Fails c x`    the command fails at the database; a commit whose acknowledgement is lost does not;
* `Throws m`         `m` throws the first failure, and its commit comes last;
* `Brittle m`        `m` throws the first failure, and commits nothing;
* `GivesUp m`        the same of a whole call: after a failure, and after the commit, it only rolls back;
* `GivesUp.fails`    **if a command of such a call fails, the call never commits**, and returns an error
                     if it returns.
-/

set_option linter.unusedSectionVars false

namespace Service

open Interleave ReadCommitted

section
variable {Q Rm Y : Type} {Row : Q → Type} {Reply : Rm → Type} {ε α β : Type}

def Cmd.Fails (c : Cmd Q Rm) (x : Choice Y) : Prop :=
  match c with
  | .begin => x.fault ≠ .none
  | .sql _ => x.fault ≠ .none
  | .commit => x.fault = .failed
  | .rollback => False
  | .remote _ => False

/-- nothing is left but rollbacks -/
def Closing (m : Prog (Cmd Q Rm) (Ans Row Reply) (Except ε α)) : Prop :=
  m.Only fun c => c = .rollback

/-- nothing is left but rollbacks, and then an error -/
def Aborts : Prog (Cmd Q Rm) (Ans Row Reply) (Except ε α) → Prop
  | .ret r => ∃ e, r = .error e
  | .call c k => c = .rollback ∧ ∀ a, Aborts (k a)

/-- every failure of the database ends the call in an error; the commit comes last -/
def GivesUp : Prog (Cmd Q Rm) (Ans Row Reply) (Except ε α) → Prop
  | .ret _ => True
  | .call .begin k => (∀ e, Aborts (k (.error e))) ∧ GivesUp (k (.ok ()))
  | .call (.sql _) k => (∀ e, Aborts (k (.error e))) ∧ ∀ r, GivesUp (k (.ok r))
  | .call .commit k => (∀ e, Aborts (k (.error e))) ∧ Closing (k (.ok ()))
  | .call .rollback k => ∀ a, GivesUp (k a)
  | .call (.remote _) k => ∀ a, GivesUp (k a)

/-- every failure of the database is thrown at once -/
def Throws : Prog (Cmd Q Rm) (Ans Row Reply) (Except ε α) → Prop
  | .ret _ => True
  | .call .begin k => (∀ e, ∃ e', k (.error e) = .ret (.error e')) ∧ Throws (k (.ok ()))
  | .call (.sql _) k => (∀ e, ∃ e', k (.error e) = .ret (.error e')) ∧ ∀ r, Throws (k (.ok r))
  | .call .commit k => (∀ e, ∃ e', k (.error e) = .ret (.error e')) ∧ ∃ r, k (.ok ()) = .ret r
  | .call .rollback _ => False
  | .call (.remote _) k => ∀ a, Throws (k a)

theorem Aborts.closing {m : Prog (Cmd Q Rm) (Ans Row Reply) (Except ε α)} (h : Aborts m) :
    Closing m := by
  induction m with
  | ret r => trivial
  | call c k ih => exact ⟨h.1, fun a => ih a (h.2 a)⟩

namespace Throws

/-- what commits nothing may come before -/
theorem bind {m : Call Row Reply ε β} {f : β → Call Row Reply ε α} (hm : Throws m.run)
    (hb : Only Body m) (hf : ∀ b, Throws (f b).run) : Throws (m >>= f).run := by
  have key : ∀ n : Prog (Cmd Q Rm) (Ans Row Reply) (Except ε β), Throws n → n.Only Body →
      Throws (n >>= ExceptT.bindCont f) := by
    intro n
    induction n with
    | ret r =>
      intro _ _
      cases r with
      | ok b => exact hf b
      | error e => trivial
    | call c k ih =>
      intro hn hb
      have herr : ∀ {m : Prog (Cmd Q Rm) (Ans Row Reply) (Except ε β)}, (∃ e', m = .ret (.error e')) →
          ∃ e', (m >>= ExceptT.bindCont f) = .ret (.error e') := by
        rintro _ ⟨e', rfl⟩
        exact ⟨e', rfl⟩
      cases c with
      | begin => exact ⟨fun e => herr (hn.1 e), ih _ hn.2 (hb.2 _)⟩
      | sql q => exact ⟨fun e => herr (hn.1 e), fun r => ih _ (hn.2 r) (hb.2 _)⟩
      | commit => exact absurd rfl hb.1
      | rollback => exact hn.elim
      | remote r => exact fun a => ih a (hn a) (hb.2 a)
  exact key m.run hm hb

/-- the commit, and what is then returned -/
theorem commit {wrap : PgErr → ε} (a : α) :
    Throws (Service.commit >>= Service.orThrow wrap >>= fun _ =>
      (Pure.pure a : Call Row Reply ε α)).run :=
  ⟨fun e => ⟨wrap e, rfl⟩, .ok a, rfl⟩

end Throws

theorem Closing.givesUp {m : Prog (Cmd Q Rm) (Ans Row Reply) (Except ε α)} (h : Closing m) :
    GivesUp m := by
  induction m with
  | ret r => trivial
  | call c k ih =>
    obtain ⟨rfl, hk⟩ := h
    exact fun a => ih a (hk a)

/-- a call that throws, and then nothing but rollbacks -/
theorem Throws.givesUp {ε' : Type} {m : Call Row Reply ε' β}
    {f : Except ε' β → Call Row Reply ε α} (hm : Throws m.run) (hok : ∀ b, Closing (f (.ok b)).run)
    (herr : ∀ e, Aborts (f (.error e)).run) : GivesUp (attempt m >>= f).run := by
  have hend : ∀ r, Closing (f r).run := by
    intro r
    cases r with
    | ok b => exact hok b
    | error e => exact (herr e).closing
  have key : ∀ n : Prog (Cmd Q Rm) (Ans Row Reply) (Except ε' β), Throws n →
      GivesUp (n >>= fun r => (f r).run) := by
    intro n
    induction n with
    | ret r => exact fun _ => (hend r).givesUp
    | call c k ih =>
      intro hn
      have habort : ∀ {m : Prog (Cmd Q Rm) (Ans Row Reply) (Except ε' β)},
          (∃ e', m = .ret (.error e')) → Aborts (m >>= fun r => (f r).run) := by
        rintro _ ⟨e', rfl⟩
        exact herr e'
      cases c with
      | begin => exact ⟨fun e => habort (hn.1 e), ih _ hn.2⟩
      | sql q => exact ⟨fun e => habort (hn.1 e), fun r => ih _ (hn.2 r)⟩
      | commit =>
        refine ⟨fun e => habort (hn.1 e), ?_⟩
        obtain ⟨r, hr⟩ := hn.2
        show Closing (k (Except.ok ()) >>= fun r => (f r).run)
        rw [hr]
        exact hend r
      | rollback => exact hn.elim
      | remote r => exact fun a => ih a (hn a)
  have hbind : (attempt m >>= f).run = m.run >>= fun r => (f r).run := by
    show (m.run >>= fun r => Prog.ret (Except.ok r)) >>= ExceptT.bindCont f = _
    rw [Prog.bind_bind]
    rfl
  rw [hbind]
  exact key m.run hm

/-- the call commits nothing, and every failure of the database is thrown at once -/
structure Brittle (m : Call Row Reply ε α) : Prop where
  throws : Throws m.run
  body : Only Body m

namespace Brittle

theorem bind {m : Call Row Reply ε β} {f : β → Call Row Reply ε α} (hm : Brittle m)
    (hf : ∀ b, Brittle (f b)) : Brittle (m >>= f) :=
  ⟨hm.throws.bind hm.body fun b => (hf b).throws, .bind hm.body fun b => (hf b).body⟩

theorem pure (a : α) : Brittle (Pure.pure a : Call Row Reply ε α) := ⟨trivial, .pure a⟩

theorem sql {wrap : PgErr → ε} {q : Q} : Brittle (Service.sql wrap q : Call Row Reply ε (Row q)) :=
  ⟨⟨fun e => ⟨wrap e, rfl⟩, fun _ => trivial⟩, .bind (.query nofun) .orThrow⟩

theorem remote {r : Rm} : Brittle (Service.remote r : Call Row Reply ε (Reply r)) :=
  ⟨fun _ => trivial, .remote nofun⟩

end Brittle

end

/-! ## runs -/

section
variable {P Db W L E Y : Type} [DecidableEq P] [DecidableEq L] [Schema Db W L]
variable {Q Rm : Type} {Row : Q → Type} {Reply : Rm → Type} {ε α : Type}
variable {S : Spec P Db W L E Y Row Reply} {p : P}
variable {σ τ : Conf P (Cmd Q Rm) (Ans Row Reply) (State P Db W L E) (Except ε α)}

/-- so far `p` has committed nothing, or it only rolls back -/
def Unfailed (p : P) (σ : Conf P (Cmd Q Rm) (Ans Row Reply) (State P Db W L E) (Except ε α)) : Prop :=
  ∀ m, σ.prog p = some m → GivesUp m ∧ σ.state.store.commitsOf p = [] ∨ Closing m

/-- `p` has committed nothing, and does not -/
def Failed (p : P) (σ : Conf P (Cmd Q Rm) (Ans Row Reply) (State P Db W L E) (Except ε α)) : Prop :=
  σ.state.store.commitsOf p = [] ∧ ∀ m, σ.prog p = some m → Aborts m

theorem commitsOf_other {a : Act P (Choice Y)} (hs : S.machine.step σ a = some τ)
    (ha : ∀ x, a ≠ .exec p x) : τ.state.store.commitsOf p = σ.state.store.commitsOf p := by
  refine commitsOf_step hs fun e => ?_
  obtain ⟨x, hx⟩ := committer_exec e
  exact ha x hx

/-- a command that is no commit -/
theorem commitsOf_exec {x : Choice Y} {c : Cmd Q Rm} {k : Ans Row Reply c → Prog _ _ (Except ε α)}
    (hs : S.machine.step σ (.exec p x) = some τ) (hp : σ.prog p = some (.call c k))
    (hc : c = .commit → x.fault = .failed) :
    τ.state.store.commitsOf p = σ.state.store.commitsOf p := by
  refine commitsOf_step hs fun e => ?_
  simp only [committer, hp] at e
  cases c with
  | commit => simp [hc rfl] at e
  | begin => simp at e
  | rollback => simp at e
  | sql q => simp at e
  | remote r => simp at e

theorem Unfailed.step {a : Act P (Choice Y)} (h : Unfailed p σ) (hs : S.machine.step σ a = some τ) :
    Unfailed p τ := by
  intro m hm
  by_cases hx : ∃ x, a = .exec p x
  · obtain ⟨x, rfl⟩ := hx
    have hkept := fun c k => commitsOf_exec (c := c) (k := k) hs
    obtain ⟨c, k, b, s, hp, -, e⟩ := Machine.step_exec hs
    rw [e] at hm
    obtain rfl : k b = m := Option.some.inj ((Function.update_self p _ σ.prog).symm.trans hm)
    rcases h _ hp with ⟨hg, hnone⟩ | hc
    · cases c with
      | begin =>
        have hnone' := (hkept _ _ hp nofun).trans hnone
        cases b with
        | ok u => exact .inl ⟨hg.2, hnone'⟩
        | error _ => exact .inr (hg.1 _).closing
      | sql q =>
        have hnone' := (hkept _ _ hp nofun).trans hnone
        cases b with
        | ok r => exact .inl ⟨hg.2 r, hnone'⟩
        | error _ => exact .inr (hg.1 _).closing
      | commit =>
        cases b with
        | ok u => exact .inr hg.2
        | error _ => exact .inr (hg.1 _).closing
      | rollback => exact .inl ⟨hg b, (hkept _ _ hp nofun).trans hnone⟩
      | remote r => exact .inl ⟨hg b, (hkept _ _ hp nofun).trans hnone⟩
    · exact .inr (hc.2 b)
  · have ha : ∀ x, a ≠ .exec p x := fun x e => hx ⟨x, e⟩
    refine (h m (Machine.step_other hs ha hm)).imp (fun hg => ⟨hg.1, ?_⟩) id
    exact (commitsOf_other hs ha).trans hg.2

/-- **a command that fails** -/
theorem Unfailed.fails {x : Choice Y} {c : Cmd Q Rm} {k : Ans Row Reply c → Prog _ _ (Except ε α)}
    (h : Unfailed p σ) (hp : σ.prog p = some (.call c k)) (hf : c.Fails x)
    (hs : S.machine.step σ (.exec p x) = some τ) : Failed p τ := by
  have hkept := commitsOf_exec hs hp
  obtain ⟨c', k', b, s, hp', hx, rfl⟩ := Machine.step_exec hs
  cases hp.symm.trans hp'
  have hprog : ∀ {n : Prog (Cmd Q Rm) (Ans Row Reply) (Except ε α)}, Aborts n →
      ∀ m, Function.update σ.prog p (some n) p = some m → Aborts m := by
    intro n hn m hm
    rw [Function.update_self] at hm
    exact Option.some.inj hm ▸ hn
  rcases h _ hp with ⟨hg, hnone⟩ | hc
  · cases c with
    | begin =>
      cases hx
      refine ⟨(hkept nofun).trans hnone, hprog ?_⟩
      show Aborts (k (execBegin p x σ.state.store).1)
      unfold execBegin
      split
      · exact absurd (by assumption) hf
      · exact hg.1 _
    | sql q =>
      refine ⟨(hkept nofun).trans hnone, hprog ?_⟩
      simp only [Spec.machine, Spec.exec] at hx
      split at hx
      · exact absurd (by assumption) hf
      · cases hx
        exact hg.1 _
    | commit =>
      obtain ⟨-, rfl, rfl⟩ := S.exec_commit hx
      have hf : x.fault = .failed := hf
      refine ⟨(hkept fun _ => hf).trans hnone, hprog ?_⟩
      rw [execCommit, hf]
      exact hg.1 _
    | rollback => exact hf.elim
    | remote r => exact hf.elim
  · obtain ⟨rfl, -⟩ := hc
    exact hf.elim

theorem Failed.step {a : Act P (Choice Y)} (h : Failed p σ) (hs : S.machine.step σ a = some τ) :
    Failed p τ := by
  by_cases hx : ∃ x, a = .exec p x
  · obtain ⟨x, rfl⟩ := hx
    obtain ⟨c, k, b, s, hp, -, e⟩ := Machine.step_exec hs
    obtain ⟨rfl, hk⟩ := h.2 _ hp
    refine ⟨(commitsOf_exec hs hp nofun).trans h.1, fun m hm => ?_⟩
    rw [e] at hm
    obtain rfl : k b = m := Option.some.inj ((Function.update_self p _ σ.prog).symm.trans hm)
    exact hk b
  · have ha : ∀ x, a ≠ .exec p x := fun x e => hx ⟨x, e⟩
    exact ⟨(commitsOf_other hs ha).trans h.1, fun m hm => h.2 m (Machine.step_other hs ha hm)⟩

theorem Failed.runs (h : Failed p σ) (hr : Runs S.machine σ τ) : Failed p τ := by
  induction hr with
  | refl => exact h
  | tail _ a hs ih => exact ih.step hs

theorem Unfailed.runs (h : Unfailed p σ) (hr : Runs S.machine σ τ) : Unfailed p τ := by
  induction hr with
  | refl => exact h
  | tail _ a hs ih => exact ih.step hs

/-- **If a command of the call fails, it has committed nothing**, and does not commit, and returns an
error if it returns. -/
theorem GivesUp.fails {υ ω : Conf P (Cmd Q Rm) (Ans Row Reply) (State P Db W L E) (Except ε α)}
    {m : Prog (Cmd Q Rm) (Ans Row Reply) (Except ε α)} (hm : GivesUp m) (hp : σ.prog p = some m)
    (hnone : σ.state.store.commitsOf p = []) (h : Runs S.machine σ τ) {x : Choice Y} {c : Cmd Q Rm}
    {k : Ans Row Reply c → Prog _ _ (Except ε α)} (hc : τ.prog p = some (.call c k)) (hf : c.Fails x)
    (hs : S.machine.step τ (.exec p x) = some υ) (h' : Runs S.machine υ ω) :
    ω.state.store.commitsOf p = [] ∧ ∀ a, ω.prog p ≠ some (.ret (.ok a)) := by
  have hstart : Unfailed p σ := by
    intro n hn
    obtain rfl : m = n := Option.some.inj (hp.symm.trans hn)
    exact .inl ⟨hm, hnone⟩
  have hfailed := ((hstart.runs h).fails hc hf hs).runs h'
  refine ⟨hfailed.1, fun a ha => ?_⟩
  obtain ⟨e, he⟩ := hfailed.2 _ ha
  cases he

end

end Service
