import Marketplace.Lib.Service

/-!
# What every run keeps may be used in the next proof

An invariant that has been proved for every run is known while another one is proved: the second
proof is about the service that makes no commit that would break the first one.

* `Spec.knowing K`       the service that commits only what leaves `K`;
* `Spec.knowing_commit`  so what it commits may be taken to be as `K` says;
* `Spec.runs_knowing`    **it has the same runs**, if `K` holds in all of them;
* `Spec.runs_after`      what a commit in the log has left were the committed contents in some run;
* `Spec.runs_store`      a property of the database alone that every move keeps, whatever the
                         programs are.
-/

set_option linter.unusedSectionVars false

namespace Service

open Interleave ReadCommitted

section
variable {P Db W L E Y : Type} [DecidableEq P] [DecidableEq L] [Schema Db W L]
variable {Q Rm : Type} {Row : Q → Type} {Reply : Rm → Type}
variable {S : Spec P Db W L E Y Row Reply} {K : Db → List (Commit P Db) → Prop}

/-- what the commit of `p` would leave -/
def Leaves (K : Db → List (Commit P Db) → Prop) (p : P) (s : Store P Db W L) : Prop :=
  K (s.view p) (⟨p, s.committed, s.view p⟩ :: s.log)

open Classical in
noncomputable def Spec.knowing (S : Spec P Db W L E Y Row Reply)
    (K : Db → List (Commit P Db) → Prop) : Spec P Db W L E Y Row Reply :=
  S.commitsIf fun p s e => S.may p s e && decide (Leaves K p s)

open Classical in
theorem Spec.knowing_commit {p : P} {s : Store P Db W L} {e : E}
    (h : (S.knowing K).may p s e = true) : S.may p s e = true ∧ Leaves K p s := by
  have h' : (S.may p s e && decide (Leaves K p s)) = true := h
  rw [Bool.and_eq_true] at h'
  exact ⟨h'.1, of_decide_eq_true h'.2⟩

open Classical in
theorem Spec.knowing_may {p : P} {s : Store P Db W L} {e : E} (hm : S.may p s e = true)
    (hk : Leaves K p s) : (S.knowing K).may p s e = true := by
  show (S.may p s e && decide (Leaves K p s)) = true
  rw [hm, decide_eq_true hk]
  rfl

/-- a command that may be executed, if what a commit leaves is as `K` says -/
theorem Spec.exec_knowing {p : P} {c : Cmd Q Rm} {x : Choice Y} {σ τ : State P Db W L E}
    {a : Ans Row Reply c} (h : S.exec p c x σ = some (a, τ)) (hk : c = .commit → Leaves K p σ.store) :
    (S.knowing K).exec p c x σ = some (a, τ) := by
  cases c with
  | begin => exact h
  | rollback => exact h
  | sql q => exact h
  | remote r => exact h
  | commit =>
    obtain ⟨hm, rfl, rfl⟩ := S.exec_commit h
    simp only [Spec.exec]
    rw [if_pos (Spec.knowing_may hm (hk rfl))]

/-- **the service that knows `K` has the same runs** -/
theorem Spec.runs_knowing {R : Type} {σ τ : Conf P (Cmd Q Rm) (Ans Row Reply) (State P Db W L E) R}
    (hK : ∀ υ, Runs S.machine σ υ → K υ.state.store.committed υ.state.store.log)
    (h : Runs S.machine σ τ) : Runs (S.knowing K).machine σ τ := by
  induction h with
  | refl => exact .refl
  | @tail υ ω hr a hs ih =>
    refine ih.tail a ?_
    cases a with
    | crash p => exact hs
    | env x => exact hs
    | exec p x =>
      obtain ⟨c, k, b, s, hp, hx, rfl⟩ := Machine.step_exec hs
      have hx' : (S.knowing K).exec p c x υ.state = some (b, s) := by
        refine Spec.exec_knowing hx ?_
        rintro rfl
        -- the commit could also have been acknowledged
        obtain ⟨hm, -, -⟩ := S.exec_commit hx
        have hack : S.exec p .commit { x with fault := .none } υ.state =
            some (.ok (), { υ.state with store := υ.state.store.commit p }) := by
          simp only [Spec.exec]
          rw [if_pos hm]
          rfl
        exact hK _ (hr.trans (Runs.exec hp hack))
      have hx'' : (S.knowing K).machine.exec p c x υ.state = some (b, s) := hx'
      simp only [Machine.step, hp, hx'']
      rfl

/-- what a commit has left was once all that was committed -/
theorem Spec.runs_after {R : Type} {σ τ : Conf P (Cmd Q Rm) (Ans Row Reply) (State P Db W L E) R}
    (h₀ : σ.state.store.log = []) (h : Runs S.machine σ τ) {c : Commit P Db}
    (hc : c ∈ τ.state.store.log) :
    ∃ υ, Runs S.machine σ υ ∧ υ.state.store.committed = c.after := by
  induction h with
  | refl =>
    rw [h₀] at hc
    exact absurd hc List.not_mem_nil
  | @tail υ ω hr a hs ih =>
    rcases Spec.step_store hs with ⟨p, -, he⟩ | ⟨-, hl⟩
    · rw [he] at hc
      rcases List.mem_cons.mp hc with rfl | hc
      · exact ⟨ω, hr.tail a hs, by rw [he]; rfl⟩
      · exact ih hc
    · exact ih (hl ▸ hc)

/-- what every move on the database keeps, every run keeps -/
theorem Spec.runs_store {R : Type} {σ τ : Conf P (Cmd Q Rm) (Ans Row Reply) (State P Db W L E) R}
    {F : Store P Db W L → Prop} (hbegin : ∀ p n s, F s → F (s.begin p n))
    (hroll : ∀ p s, F s → F (s.rollback p)) (hcommit : ∀ p s, F s → F (s.commit p))
    (hstmt : ∀ {p q x s a t}, F s → S.stmt p q x s = some (a, t) → F t)
    (h : Runs S.machine σ τ) (hσ : F σ.state.store) : F τ.state.store := by
  induction h with
  | refl => exact hσ
  | @tail υ ω hr a hs ih =>
    cases a with
    | crash p =>
      obtain ⟨-, rfl⟩ := Machine.step_crash hs
      exact hroll p _ ih
    | env x =>
      obtain ⟨s, hx, rfl⟩ := Machine.step_env hs
      obtain ⟨e, -, rfl⟩ := Option.map_eq_some_iff.mp hx
      exact ih
    | exec p x =>
      obtain ⟨c, k, b, s, -, hx, rfl⟩ := Machine.step_exec hs
      have hx : S.exec p c x υ.state = some (b, s) := hx
      cases c with
      | begin =>
        cases hx
        show F (execBegin p x υ.state.store).2
        unfold execBegin
        split
        · exact hbegin p _ _ ih
        · exact ih
      | commit =>
        obtain ⟨-, -, rfl⟩ := S.exec_commit hx
        show F (execCommit p x υ.state.store).2
        unfold execCommit
        split
        · exact hcommit p _ ih
        · exact hroll p _ ih
        · exact hcommit p _ ih
      | rollback =>
        cases hx
        exact hroll p _ ih
      | sql q =>
        simp only [Spec.exec] at hx
        split at hx
        · obtain ⟨⟨r, t⟩, hst, e⟩ := Option.map_eq_some_iff.mp hx
          cases e
          exact hstmt ih hst
        · cases hx
          exact ih
      | remote r =>
        obtain ⟨⟨r, e⟩, -, he⟩ := Option.map_eq_some_iff.mp hx
        cases he
        exact ih

end

end Service
