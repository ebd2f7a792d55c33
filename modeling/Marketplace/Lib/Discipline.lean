import Marketplace.Lib.Service

/-!
# What the programs of a service write

A property of single writes that depends on nothing but the answers a program has had: no
locks, no order of moves.

* `Discipline S`      the writes, statements and answers that are in order, and that a statement in
                      order, on contents in order, makes a write and an answer in order;
* `Does p Φ m`        the program `m` of `p` sends nothing else, as long as what it hears is in order,
                      and returns only what meets `Φ`; `Does.bind`, `Does.sql`, ..;
* `Discipline.runs`   in every run the committed contents are in order, and every commit consists of
                      writes in order.
-/

set_option linter.unusedSectionVars false

namespace Service

open Interleave ReadCommitted

section
variable {P Db W L E Y : Type} [DecidableEq P] [DecidableEq L] [Schema Db W L]
variable {Q Rm : Type} {Row : Q → Type} {Reply : Rm → Type}

/-- what is in order: contents, the writes and statements of a process, and what it is told -/
structure Discipline (S : Spec P Db W L E Y Row Reply) where
  Fine : Db → Prop
  Writes : P → W → Prop
  Sends : P → Q → Prop
  Gets : P → (q : Q) → Row q → Prop
  Hears : P → (r : Rm) → Reply r → Prop
  apply : ∀ {p w d}, Fine d → Writes p w → Fine (Schema.apply w d)
  stmt : ∀ {p q x s a t}, Sends p q → Fine (s.view p) → S.stmt p q x s = some (a, t) →
    (∀ r, a = .ok r → Gets p q r) ∧
      (t.pending p = s.pending p ∨ ∃ w, Writes p w ∧ t.pending p = s.pending p ++ [w])
  remote : ∀ {p r x e a e'}, S.remote p r x e = some (a, e') → Hears p r a

namespace Discipline
variable {S : Spec P Db W L E Y Row Reply} (D : Discipline S)

/-- the commands of `p` are in order as long as its answers are, and so is what it returns -/
def Does {α : Type} (p : P) (Φ : α → Prop) : Prog (Cmd Q Rm) (Ans Row Reply) α → Prop
  | .ret a => Φ a
  | .call (.sql q) k => D.Sends p q ∧
      (∀ e, Does p Φ (k (Except.error e))) ∧ ∀ r, D.Gets p q r → Does p Φ (k (Except.ok r))
  | .call (.remote r) k => ∀ a, D.Hears p r a → Does p Φ (k a)
  | .call .begin k => ∀ a, Does p Φ (k a)
  | .call .commit k => ∀ a, Does p Φ (k a)
  | .call .rollback k => ∀ a, Does p Φ (k a)

/-- what a call returns when it does not throw -/
def Returns {ε α : Type} (p : P) (Φ : α → Prop) (m : Call Row Reply ε α) : Prop :=
  D.Does p (fun r : Except ε α => ∀ a, r = .ok a → Φ a) m.run

variable {D} {p : P} {α β ε ε' : Type}

theorem Does.mono {Φ Ψ : α → Prop} {m : Prog (Cmd Q Rm) (Ans Row Reply) α} (h : D.Does p Φ m)
    (hΦ : ∀ a, Φ a → Ψ a) : D.Does p Ψ m := by
  induction m with
  | ret a => exact hΦ a h
  | call c k ih =>
    cases c with
    | sql q => exact ⟨h.1, fun e => ih _ (h.2.1 e), fun r hr => ih _ (h.2.2 r hr)⟩
    | remote r => exact fun a ha => ih a (h a ha)
    | begin => exact fun a => ih a (h a)
    | commit => exact fun a => ih a (h a)
    | rollback => exact fun a => ih a (h a)

theorem Does.bind {Φ : β → Prop} {Ψ : α → Prop} {m : Prog (Cmd Q Rm) (Ans Row Reply) β}
    {f : β → Prog (Cmd Q Rm) (Ans Row Reply) α} (h : D.Does p Φ m)
    (hf : ∀ b, Φ b → D.Does p Ψ (f b)) : D.Does p Ψ (m >>= f) := by
  induction m with
  | ret b => exact hf b h
  | call c k ih =>
    cases c with
    | sql q => exact ⟨h.1, fun e => ih _ (h.2.1 e), fun r hr => ih _ (h.2.2 r hr)⟩
    | remote r => exact fun a ha => ih a (h a ha)
    | begin => exact fun a => ih a (h a)
    | commit => exact fun a => ih a (h a)
    | rollback => exact fun a => ih a (h a)

namespace Returns

theorem pure {Φ : α → Prop} {a : α} (h : Φ a) :
    D.Returns p Φ (Pure.pure a : Call Row Reply ε α) := by
  rintro _ ⟨⟩
  exact h

theorem throw {Φ : α → Prop} (e : ε) :
    D.Returns p Φ (MonadExcept.throw e : Call Row Reply ε α) :=
  fun _ h => nomatch h

theorem bind {Φ : β → Prop} {Ψ : α → Prop} {m : Call Row Reply ε β} {f : β → Call Row Reply ε α}
    (h : D.Returns p Φ m) (hf : ∀ b, Φ b → D.Returns p Ψ (f b)) : D.Returns p Ψ (m >>= f) := by
  refine Does.bind h fun r hr => ?_
  cases r with
  | ok b => exact hf b (hr b rfl)
  | error e => exact fun _ h => nomatch h

theorem mono {Φ Ψ : α → Prop} {m : Call Row Reply ε α} (h : D.Returns p Φ m)
    (hΦ : ∀ a, Φ a → Ψ a) : D.Returns p Ψ m :=
  Does.mono h fun _ hr a e => hΦ a (hr a e)

theorem attempt {Φ : α → Prop} {m : Call Row Reply ε α} (h : D.Returns p Φ m) :
    D.Returns p (fun r => ∀ a, r = .ok a → Φ a)
      (Service.attempt m : Call Row Reply ε' (Except ε α)) := by
  refine Does.bind h fun r hr => ?_
  rintro _ ⟨⟩
  exact hr

theorem query {q : Q} (h : D.Sends p q) :
    D.Returns p (fun a => ∀ r, a = .ok r → D.Gets p q r)
      (Service.query q : Call Row Reply ε (Except PgErr (Row q))) := by
  refine ⟨h, fun e => ?_, fun r hr => ?_⟩
  · rintro _ ⟨⟩ r h
    cases h
  · rintro _ ⟨⟩ r' h
    cases h
    exact hr

theorem sql {wrap : PgErr → ε} {q : Q} (h : D.Sends p q) :
    D.Returns p (D.Gets p q) (Service.sql wrap q : Call Row Reply ε (Row q)) := by
  refine bind (query h) fun a ha => ?_
  cases a with
  | ok r => exact pure (ha r rfl)
  | error e => exact throw _

theorem remote {r : Rm} :
    D.Returns p (D.Hears p r) (Service.remote r : Call Row Reply ε (Reply r)) := by
  rintro a ha _ ⟨⟩
  exact ha

theorem begin : D.Returns p (fun _ => True)
    (Service.begin : Call Row Reply ε (Except PgErr Unit)) := fun _ _ _ => trivial

theorem commit : D.Returns p (fun _ => True)
    (Service.commit : Call Row Reply ε (Except PgErr Unit)) := fun _ _ _ => trivial

theorem rollback : D.Returns p (fun _ => True) (Service.rollback : Call Row Reply ε Unit) :=
  fun _ _ _ => trivial

theorem orThrow {wrap : PgErr → ε} {r : Except PgErr α} :
    D.Returns p (fun _ => True) (Service.orThrow wrap r : Call Row Reply ε α) := by
  cases r with
  | ok a => exact pure trivial
  | error e => exact throw _

theorem inTx {beginning committing : PgErr → ε} {Φ : α → Prop} {fn : Call Row Reply ε α}
    (h : D.Returns p Φ fn) : D.Returns p Φ (Service.inTx beginning committing fn) := by
  refine bind (bind begin fun _ _ => orThrow) fun _ _ => bind (attempt h) fun r hr => ?_
  cases r with
  | error e => exact bind rollback fun _ _ => throw e
  | ok a =>
    refine bind commit fun c _ => ?_
    cases c with
    | error e => exact bind rollback fun _ _ => throw _
    | ok _ => exact pure (hr a rfl)

/-- what sends nothing out of order, whatever it is told -/
theorem of_only {m : Call Row Reply ε α} {ok : Cmd Q Rm → Prop}
    (hok : ∀ q, ok (.sql q) → D.Sends p q) (h : Only ok m) : D.Returns p (fun _ => True) m := by
  have key : ∀ m : Prog (Cmd Q Rm) (Ans Row Reply) (Except ε α), m.Only ok →
      D.Does p (fun r => ∀ a, r = .ok a → True) m := by
    intro m hm
    induction m with
    | ret a => exact fun _ _ => trivial
    | call c k ih =>
      cases c with
      | sql q => exact ⟨hok q hm.1, fun e => ih _ (hm.2 _), fun r _ => ih _ (hm.2 _)⟩
      | remote r => exact fun a _ => ih a (hm.2 a)
      | begin => exact fun a => ih a (hm.2 a)
      | commit => exact fun a => ih a (hm.2 a)
      | rollback => exact fun a => ih a (hm.2 a)
  exact key m.run h

end Returns

/-! ## every run -/

variable {R : Type} {σ τ : Conf P (Cmd Q Rm) (Ans Row Reply) (State P Db W L E) R}

variable (D) in
/-- everything so far is in order -/
structure Kept (σ : Conf P (Cmd Q Rm) (Ans Row Reply) (State P Db W L E) R) : Prop where
  fine : D.Fine σ.state.store.committed
  pending : ∀ p, ∀ w ∈ σ.state.store.pending p, D.Writes p w
  progs : ∀ p m, σ.prog p = some m → D.Does p (fun _ => True) m
  log : ∀ c ∈ σ.state.store.log, ∃ ws, c.after = applyAll ws c.before ∧
    ∀ w ∈ ws, D.Writes c.tx w

theorem fine_applyAll {d : Db} {ws : List W} (hd : D.Fine d) (hw : ∀ w ∈ ws, D.Writes p w) :
    D.Fine (applyAll ws d) := by
  induction ws generalizing d with
  | nil => exact hd
  | cons w ws ih =>
    rw [applyAll_cons]
    exact ih (D.apply hd (hw w List.mem_cons_self)) fun v hv => hw v (List.mem_cons_of_mem _ hv)

/-- what a process has written is in order after it has given up or committed -/
theorem pending_cleared {s t : Store P Db W L} (ht : t.pending = Function.update s.pending p [])
    (h : ∀ q, ∀ w ∈ s.pending q, D.Writes q w) : ∀ q, ∀ w ∈ t.pending q, D.Writes q w := by
  intro q w hw
  rw [ht] at hw
  by_cases e : q = p
  · subst e
    rw [Function.update_self] at hw
    exact absurd hw List.not_mem_nil
  · rw [Function.update_of_ne e] at hw
    exact h q w hw

theorem Kept.rollback (h : D.Kept σ) (p : P) :
    D.Fine (σ.state.store.rollback p).committed ∧
      ∀ q, ∀ w ∈ (σ.state.store.rollback p).pending q, D.Writes q w :=
  ⟨h.fine, pending_cleared rfl h.pending⟩

theorem Kept.exec {x : Choice Y} (h : D.Kept σ) (hs : S.machine.step σ (.exec p x) = some τ) :
    D.Kept τ := by
  obtain ⟨c, k, a, s, hp, hx, rfl⟩ := Machine.step_exec hs
  have hk := h.progs p _ hp
  -- the rest of the program, once its answer is known to be in order
  have hrest : D.Does p (fun _ => True) (k a) → ∀ q n,
      Function.update σ.prog p (some (k a)) q = some n → D.Does q (fun _ => True) n :=
    fun hd => progs_update (fun n hn => Option.some.inj hn ▸ hd) fun q n _ hn => h.progs q n hn
  cases c with
  | begin =>
    cases hx
    have hb : (execBegin p x σ.state.store).2.committed = σ.state.store.committed ∧
        (execBegin p x σ.state.store).2.pending = σ.state.store.pending ∧
        (execBegin p x σ.state.store).2.log = σ.state.store.log := by
      unfold execBegin
      split <;> exact ⟨rfl, rfl, rfl⟩
    exact ⟨hb.1.symm ▸ h.fine, hb.2.1.symm ▸ h.pending, hrest (hk _), hb.2.2.symm ▸ h.log⟩
  | rollback =>
    cases hx
    exact ⟨h.fine, (h.rollback p).2, hrest (hk _), h.log⟩
  | commit =>
    obtain ⟨-, rfl, rfl⟩ := S.exec_commit hx
    have hcommit : D.Kept ⟨⟨σ.state.store.commit p, σ.state.ext⟩,
        Function.update σ.prog p (some (k (execCommit p x σ.state.store).1))⟩ := by
      refine ⟨fine_applyAll h.fine (h.pending p), pending_cleared rfl h.pending, hrest (hk _), ?_⟩
      intro c hc
      rcases List.mem_cons.mp hc with rfl | hc
      · exact ⟨σ.state.store.pending p, rfl, h.pending p⟩
      · exact h.log c hc
    cases hf : x.fault with
    | none =>
      simp only [execCommit, hf] at hcommit ⊢
      exact hcommit
    | failed =>
      simp only [execCommit, hf] at hrest ⊢
      exact ⟨h.fine, (h.rollback p).2, hrest (hk _), h.log⟩
    | lost =>
      simp only [execCommit, hf] at hcommit ⊢
      exact hcommit
  | remote r =>
    obtain ⟨⟨b, e⟩, hr, he⟩ := Option.map_eq_some_iff.mp hx
    cases he
    exact ⟨h.fine, h.pending, hrest (hk b (D.remote hr)), h.log⟩
  | sql q =>
    obtain ⟨hsend, herr, hok⟩ := hk
    simp only [Spec.machine, Spec.exec] at hx
    split at hx
    · obtain ⟨⟨b, t⟩, hst, he⟩ := Option.map_eq_some_iff.mp hx
      cases he
      have hq := S.quiet hst
      obtain ⟨hget, hpend⟩ := D.stmt hsend (fine_applyAll h.fine (h.pending p)) hst
      refine ⟨hq.committed.symm ▸ h.fine, fun q w hw => ?_, hrest ?_, hq.log.symm ▸ h.log⟩
      · by_cases e : q = p
        · subst e
          rcases hpend with hpend | ⟨v, hv, hpend⟩
          · exact h.pending q w (hpend ▸ hw)
          · rcases List.mem_append.mp (hpend ▸ hw) with hw | hw
            · exact h.pending q w hw
            · exact List.mem_singleton.mp hw ▸ hv
        · exact h.pending q w ((hq.others q e).1 ▸ hw)
      · cases b with
        | ok r => exact hok r (hget r rfl)
        | error e => exact herr e
    · cases hx
      exact ⟨h.fine, h.pending, hrest (herr _), h.log⟩

theorem Kept.step {a : Act P (Choice Y)} (h : D.Kept σ) (hs : S.machine.step σ a = some τ) :
    D.Kept τ := by
  cases a with
  | exec p x => exact h.exec hs
  | crash p =>
    obtain ⟨-, rfl⟩ := Machine.step_crash hs
    refine ⟨h.fine, (h.rollback p).2, progs_update (fun n hn => ?_) fun q n _ hn => h.progs q n hn,
      h.log⟩
    cases hn
  | env x =>
    obtain ⟨s, hx, rfl⟩ := Machine.step_env hs
    obtain ⟨e, -, rfl⟩ := Option.map_eq_some_iff.mp hx
    exact ⟨h.fine, h.pending, h.progs, h.log⟩

/-- **what is in order stays in order** -/
theorem runs (h : Runs S.machine σ τ) (hk : D.Kept σ) : D.Kept τ := by
  induction h with
  | refl => exact hk
  | tail _ a hs ih => exact ih.step hs

end Discipline

end

end Service
