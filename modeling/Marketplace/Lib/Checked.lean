import Marketplace.Lib.Service

/-!
# What a transaction has checked

A statement checks a condition before it writes: a key is new, a row is there.  Where the condition is
under the locks that guard the write, it still holds when the transaction commits, whatever its program
is and whatever the others do.

* `Checks S`         the condition of a write;
* `Holds d ws`       every write of the list finds its condition, after those before it;
* `Sound s`          so it is with the writes of every transaction on the committed contents;
* `Checks.runs`      **and it stays so in every run**;
* `Spec.runs_onlyIf` what holds in every run may be taken for granted by the statements;
* `Terms.safe_any`   a contract that the commands of a process cannot break holds of any program.
-/

set_option linter.unusedSectionVars false

namespace Service

open Interleave ReadCommitted

section
variable {P Db W L E Y : Type} [DecidableEq P] [DecidableEq L] [Schema Db W L]
variable {Q Rm : Type} {Row : Q → Type} {Reply : Rm → Type}

structure Checks (S : Spec P Db W L E Y Row Reply) where
  Ok : W → Db → Prop
  /-- the condition is under the locks of the write -/
  congr : ∀ {w d e}, (∀ l ∈ Schema.guards Db w, Schema.same W l d e) → Ok w d → Ok w e
  stmt : ∀ {p q x s a t}, S.stmt p q x s = some (a, t) → WellLocked s → WellLocked t ∧
    (t.pending p = s.pending p ∨ ∃ w, Ok w (s.view p) ∧ t.pending p = s.pending p ++ [w])

namespace Checks
variable {S : Spec P Db W L E Y Row Reply} (K : Checks S)

/-- each of the writes finds its condition -/
def Holds : Db → List W → Prop
  | _, [] => True
  | d, w :: ws => K.Ok w d ∧ Holds (Schema.apply w d) ws

/-- what every transaction has written finds its conditions -/
structure Sound (s : Store P Db W L) : Prop where
  locked : WellLocked s
  holds : ∀ p, K.Holds s.committed (s.pending p)

variable {K}

theorem holds_append {d : Db} {ws : List W} {w : W} :
    K.Holds d (ws ++ [w]) ↔ K.Holds d ws ∧ K.Ok w (applyAll ws d) := by
  induction ws generalizing d with
  | nil => simp [Holds, applyAll_nil]
  | cons v ws ih =>
    show K.Ok v d ∧ K.Holds (Schema.apply v d) (ws ++ [w]) ↔ _
    rw [ih, applyAll_cons]
    exact and_assoc.symm

theorem Holds.congr {d e : Db} {ws : List W}
    (hs : ∀ w ∈ ws, ∀ l ∈ Schema.guards Db w, Schema.same W l d e) (h : K.Holds d ws) :
    K.Holds e ws := by
  induction ws generalizing d e with
  | nil => trivial
  | cons w ws ih =>
    refine ⟨K.congr (hs w List.mem_cons_self) h.1, ih (fun v hv l hl => ?_) h.2⟩
    exact Schema.same_congr w (hs v (List.mem_cons_of_mem _ hv) l hl)

variable {s t : Store P Db W L} {p : P}

/-- a move of `p` that commits nothing -/
theorem Sound.quiet (h : K.Sound s) (hq : Quiet p s t) (hw : WellLocked t)
    (hp : K.Holds t.committed (t.pending p)) : K.Sound t := by
  refine ⟨hw, fun q => ?_⟩
  by_cases e : q = p
  · rw [e]
    exact hp
  · rw [(hq.others q e).1, hq.committed]
    exact h.holds q

theorem Sound.rollback (h : K.Sound s) (p : P) : K.Sound (s.rollback p) := by
  refine h.quiet (Quiet.rollback p s) (wellLocked_rollback h.locked p) ?_
  have hnil : (s.rollback p).pending p = [] := Function.update_self ..
  rw [hnil]
  trivial

theorem Sound.begin (h : K.Sound s) (p : P) (n : Nat) : K.Sound (s.begin p n) :=
  h.quiet (Quiet.begin p n s) (wellLocked_begin h.locked p n) (h.holds p)

/-- a commit leaves alone what the others hold locked -/
theorem Sound.commit (h : K.Sound s) (p : P) : K.Sound (s.commit p) := by
  refine ⟨wellLocked_commit p h.locked, fun q => ?_⟩
  by_cases e : q = p
  · have hnil : (s.commit p).pending q = [] := by
      rw [e]
      exact Function.update_self ..
    rw [hnil]
    trivial
  · have hpend : (s.commit p).pending q = s.pending q := Function.update_of_ne e _ _
    rw [hpend]
    exact (h.holds q).congr fun w hw l hl => same_view h.locked e (h.locked q w hw l hl)

theorem Sound.stmt {q : Q} {x : Choice Y} {a : Except PgErr (Row q)} (h : K.Sound s)
    (hs : S.stmt p q x s = some (a, t)) : K.Sound t := by
  obtain ⟨hw, hp⟩ := K.stmt hs h.locked
  refine h.quiet (S.quiet hs) hw ?_
  rw [(S.quiet hs).committed]
  rcases hp with hp | ⟨w, hok, hp⟩
  · rw [hp]
    exact h.holds p
  · rw [hp]
    exact holds_append.mpr ⟨h.holds p, hok⟩

variable {R : Type} {σ τ : Conf P (Cmd Q Rm) (Ans Row Reply) (State P Db W L E) R}

theorem Sound.step {a : Act P (Choice Y)} (h : K.Sound σ.state.store)
    (hs : S.machine.step σ a = some τ) : K.Sound τ.state.store := by
  cases a with
  | env x =>
    obtain ⟨s, hx, rfl⟩ := Machine.step_env hs
    obtain ⟨e, -, rfl⟩ := Option.map_eq_some_iff.mp hx
    exact h
  | crash p =>
    obtain ⟨-, rfl⟩ := Machine.step_crash hs
    exact h.rollback p
  | exec p x =>
    obtain ⟨c, k, a, s, -, hx, rfl⟩ := Machine.step_exec hs
    cases c with
    | begin =>
      cases hx
      show K.Sound (execBegin p x σ.state.store).2
      unfold execBegin
      split
      · exact h.begin p x.now
      · exact h
    | commit =>
      obtain ⟨-, -, rfl⟩ := S.exec_commit hx
      show K.Sound (execCommit p x σ.state.store).2
      unfold execCommit
      split
      · exact h.commit p
      · exact h.rollback p
      · exact h.commit p
    | rollback =>
      cases hx
      exact h.rollback p
    | remote r =>
      obtain ⟨⟨b, e⟩, -, he⟩ := Option.map_eq_some_iff.mp hx
      cases he
      exact h
    | sql q =>
      simp only [Spec.machine, Spec.exec] at hx
      split at hx
      · obtain ⟨⟨b, t⟩, hst, he⟩ := Option.map_eq_some_iff.mp hx
        cases he
        exact h.stmt hst
      · cases hx
        exact h

/-- **what was checked still holds** -/
theorem runs (h : Runs S.machine σ τ) (hs : K.Sound σ.state.store) : K.Sound τ.state.store := by
  induction h with
  | refl => exact hs
  | tail _ a hstep ih => exact ih.step hstep

theorem sound_fresh (d : Db) : K.Sound (Store.fresh d) :=
  ⟨fun _ _ hw => absurd hw List.not_mem_nil, fun _ => trivial⟩

end Checks

/-! ## conditions that hold in every run -/

variable {S : Spec P Db W L E Y Row Reply} {R : Type}
variable {σ τ : Conf P (Cmd Q Rm) (Ans Row Reply) (State P Db W L E) R}

/-- where the condition holds, every move is one of the service that sends a statement only there -/
theorem Spec.step_onlyIf {ok : P → Q → Choice Y → Store P Db W L → Bool} {a : Act P (Choice Y)}
    (hok : ∀ p q x, ok p q x σ.state.store = true) (h : S.machine.step σ a = some τ) :
    (S.onlyIf ok).machine.step σ a = some τ := by
  have hexec : ∀ p c x, (S.onlyIf ok).exec p c x σ.state = S.exec p c x σ.state := by
    intro p c x
    cases c with
    | sql q =>
      have hstmt : (S.onlyIf ok).stmt p q x σ.state.store = S.stmt p q x σ.state.store :=
        if_pos (hok p q x)
      simp only [Spec.exec, hstmt]
      rfl
    | begin => rfl
    | commit => rfl
    | rollback => rfl
    | remote r => rfl
  cases a with
  | exec p x =>
    obtain ⟨c, k, b, s, hp, hx, rfl⟩ := Machine.step_exec h
    have hx' : (S.onlyIf ok).machine.exec p c x σ.state = some (b, s) := (hexec p c x).trans hx
    simp only [Machine.step, hp, hx']
    rfl
  | crash p => exact h
  | env x => exact h

/-- a condition that holds in every run may be taken for granted by every statement -/
theorem Spec.runs_onlyIf {ok : P → Q → Choice Y → Store P Db W L → Bool} (h : Runs S.machine σ τ)
    (hok : ∀ υ, Runs S.machine σ υ → ∀ p q x, ok p q x υ.state.store = true) :
    Runs (S.onlyIf ok).machine σ τ := by
  induction h with
  | refl => exact .refl
  | tail h a hs ih => exact ih.tail a (Spec.step_onlyIf (hok _ h) hs)

/-! ## processes of which nothing is known -/

/-- **any program at all** is safe under a contract that its commands cannot break -/
theorem Terms.safe_any {T : Terms S} {p : P} {α : Type}
    (hstmt : ∀ {σ q x a t}, T.Inv σ → S.stmt p q x σ.store = some (a, t) →
      WellLocked t ∧ T.I σ.store.committed σ.store.log (S.note p q x σ.store σ.ext))
    (hremote : ∀ {σ r x a e}, T.Inv σ → S.remote p r x σ.ext = some (a, e) →
      T.I σ.store.committed σ.store.log e)
    (hcommit : ∀ {σ}, T.Inv σ →
      T.I (σ.store.view p) (⟨p, σ.store.committed, σ.store.view p⟩ :: σ.store.log) σ.ext)
    (m : Prog (Cmd Q Rm) (Ans Row Reply) α) (σ : State P Db W L E) :
    T.contract.Safe p (fun _ _ => True) m σ := by
  induction m generalizing σ with
  | ret a => exact fun _ _ _ => trivial
  | call c k ih =>
    intro σ₁ _ hi x a σ₂ hx
    refine ⟨?_, ih a σ₂⟩
    have hx : S.exec p c x σ₁ = some (a, σ₂) := hx
    have hi : T.Inv σ₁ := hi
    show T.Inv σ₂
    cases c with
    | begin =>
      cases hx
      unfold execBegin
      split
      · exact ⟨wellLocked_begin hi.locked p x.now, hi.holds⟩
      · exact hi
    | commit =>
      obtain ⟨-, -, rfl⟩ := S.exec_commit hx
      have hdone : T.Inv { σ₁ with store := σ₁.store.commit p } :=
        ⟨wellLocked_commit p hi.locked, hcommit hi⟩
      unfold execCommit
      split
      · exact hdone
      · exact T.rollback_inv hi
      · exact hdone
    | rollback =>
      cases hx
      exact T.rollback_inv hi
    | sql q =>
      simp only [Spec.exec] at hx
      split at hx
      · obtain ⟨⟨b, t⟩, hst, e⟩ := Option.map_eq_some_iff.mp hx
        cases e
        obtain ⟨hw, hI⟩ := hstmt hi hst
        refine ⟨hw, ?_⟩
        rw [(S.quiet hst).committed, (S.quiet hst).log]
        exact hI
      · cases hx
        exact hi
    | remote r =>
      obtain ⟨⟨b, e⟩, hr, he⟩ := Option.map_eq_some_iff.mp hx
      cases he
      exact ⟨hi.locked, hremote (σ := σ₁) hi hr⟩

end

end Service
