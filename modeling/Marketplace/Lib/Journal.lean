import Marketplace.Lib.Service

/-!
# What a transaction consists of

All the writes of a transaction together, in the order in which its program makes them.  They depend
on nothing but the answers the program has had: no locks, no order of moves.

* `Journal S`        what the answer of a statement says of its writes, and the lists of writes that a
                     process may commit;
* `Goes p Φ m ws`    with the writes `ws` so far, the program `m` of `p` commits no other list, and
                     returns in `Φ`; `Writes` for a call that may throw, `Writes.bind`, `Writes.sql`,
                     `Writes.inTx`, ..;
* `Journal.runs`     **in every run every commit consists of a list that its process may commit**.
-/

set_option linter.unusedSectionVars false

namespace Service

open Interleave ReadCommitted

section
variable {P Db W L E Y : Type} [DecidableEq P] [DecidableEq L] [Schema Db W L]
variable {Q Rm : Type} {Row : Q → Type} {Reply : Rm → Type}

structure Journal (S : Spec P Db W L E Y Row Reply) where
  /-- the writes of a statement that succeeds -/
  Makes : (q : Q) → Row q → List W → Prop
  /-- the lists that a process commits -/
  May : P → List W → Prop
  stmt : ∀ {p q x s a t}, S.stmt p q x s = some (a, t) → ∃ ws, t.pending p = s.pending p ++ ws ∧
    (∀ r, a = .ok r → Makes q r ws) ∧ ∀ e, a = .error e → ws = []

namespace Journal
variable {S : Spec P Db W L E Y Row Reply} (J : Journal S)

/-- after `ws`, the program commits nothing that it may not -/
def Goes {α : Type} (p : P) (Φ : α → List W → Prop) :
    Prog (Cmd Q Rm) (Ans Row Reply) α → List W → Prop
  | .ret a, ws => Φ a ws
  | .call (.sql q) k, ws => (∀ e, Goes p Φ (k (Except.error e)) ws) ∧
      ∀ r vs, J.Makes q r vs → Goes p Φ (k (Except.ok r)) (ws ++ vs)
  | .call (.remote _) k, ws => ∀ a, Goes p Φ (k a) ws
  | .call .begin k, ws => ∀ a, Goes p Φ (k a) ws
  | .call .commit k, ws => J.May p ws ∧ ∀ a, Goes p Φ (k a) []
  | .call .rollback k, _ => ∀ a, Goes p Φ (k a) []

/-- a call that may throw; nothing is said of what it has written then -/
def Writes {ε α : Type} (p : P) (ws : List W) (m : Call Row Reply ε α) (Φ : α → List W → Prop) :
    Prop :=
  J.Goes p (fun (r : Except ε α) vs => ∀ a, r = .ok a → Φ a vs) m.run ws

variable {J} {p : P} {α β ε ε' : Type}

theorem Goes.mono {Φ Ψ : α → List W → Prop} {m : Prog (Cmd Q Rm) (Ans Row Reply) α} {ws : List W}
    (h : J.Goes p Φ m ws) (hΦ : ∀ a vs, Φ a vs → Ψ a vs) : J.Goes p Ψ m ws := by
  induction m generalizing ws with
  | ret a => exact hΦ a ws h
  | call c k ih =>
    cases c with
    | sql q => exact ⟨fun e => ih _ (h.1 e), fun r vs hr => ih _ (h.2 r vs hr)⟩
    | remote r => exact fun a => ih a (h a)
    | begin => exact fun a => ih a (h a)
    | commit => exact ⟨h.1, fun a => ih a (h.2 a)⟩
    | rollback => exact fun a => ih a (h a)

theorem Goes.bind {Φ : β → List W → Prop} {Ψ : α → List W → Prop}
    {m : Prog (Cmd Q Rm) (Ans Row Reply) β} {f : β → Prog (Cmd Q Rm) (Ans Row Reply) α}
    {ws : List W} (h : J.Goes p Φ m ws) (hf : ∀ b vs, Φ b vs → J.Goes p Ψ (f b) vs) :
    J.Goes p Ψ (m >>= f) ws := by
  induction m generalizing ws with
  | ret b => exact hf b ws h
  | call c k ih =>
    cases c with
    | sql q => exact ⟨fun e => ih _ (h.1 e), fun r vs hr => ih _ (h.2 r vs hr)⟩
    | remote r => exact fun a => ih a (h a)
    | begin => exact fun a => ih a (h a)
    | commit => exact ⟨h.1, fun a => ih a (h.2 a)⟩
    | rollback => exact fun a => ih a (h a)

namespace Writes
variable {ws : List W}

theorem pure {Φ : α → List W → Prop} {a : α} (h : Φ a ws) :
    J.Writes p ws (Pure.pure a : Call Row Reply ε α) Φ := by
  rintro _ ⟨⟩
  exact h

theorem throw {Φ : α → List W → Prop} (e : ε) :
    J.Writes p ws (MonadExcept.throw e : Call Row Reply ε α) Φ :=
  fun _ h => nomatch h

theorem mono {Φ Ψ : α → List W → Prop} {m : Call Row Reply ε α} (h : J.Writes p ws m Φ)
    (hΦ : ∀ a vs, Φ a vs → Ψ a vs) : J.Writes p ws m Ψ :=
  Goes.mono h fun _ _ hr a e => hΦ a _ (hr a e)

theorem bind {Φ : β → List W → Prop} {Ψ : α → List W → Prop} {m : Call Row Reply ε β}
    {f : β → Call Row Reply ε α} (h : J.Writes p ws m Φ)
    (hf : ∀ b vs, Φ b vs → J.Writes p vs (f b) Ψ) : J.Writes p ws (m >>= f) Ψ := by
  refine Goes.bind h fun r vs hr => ?_
  cases r with
  | ok b => exact hf b vs (hr b rfl)
  | error e => exact fun _ h => nomatch h

theorem attempt {Φ : α → List W → Prop} {m : Call Row Reply ε α} (h : J.Writes p ws m Φ) :
    J.Writes p ws (Service.attempt m : Call Row Reply ε' (Except ε α))
      fun r vs => ∀ a, r = .ok a → Φ a vs := by
  refine Goes.bind h fun r vs hr => ?_
  rintro _ ⟨⟩
  exact hr

/-- a statement that fails writes nothing -/
theorem query {q : Q} {Φ : Except PgErr (Row q) → List W → Prop}
    (h : ∀ r vs, J.Makes q r vs → Φ (.ok r) (ws ++ vs)) (he : ∀ e, Φ (.error e) ws) :
    J.Writes p ws (Service.query q : Call Row Reply ε _) Φ := by
  refine ⟨fun e => ?_, fun r vs hr => ?_⟩
  · rintro _ ⟨⟩
    exact he e
  · rintro _ ⟨⟩
    exact h r vs hr

theorem sql {wrap : PgErr → ε} {q : Q} {Φ : Row q → List W → Prop}
    (h : ∀ r vs, J.Makes q r vs → Φ r (ws ++ vs)) :
    J.Writes p ws (Service.sql wrap q : Call Row Reply ε _) Φ := by
  refine bind (Φ := fun a vs => ∀ r, a = .ok r → Φ r vs) (query ?_ nofun) fun a vs ha => ?_
  · rintro r vs hr _ ⟨⟩
    exact h r vs hr
  · cases a with
    | ok r => exact pure (ha r rfl)
    | error e => exact throw _

theorem remote {r : Rm} :
    J.Writes p ws (Service.remote r : Call Row Reply ε (Reply r)) fun _ vs => vs = ws := by
  rintro a _ ⟨⟩
  rfl

theorem begin :
    J.Writes p ws (Service.begin : Call Row Reply ε (Except PgErr Unit)) fun _ vs => vs = ws := by
  rintro a _ ⟨⟩
  rfl

theorem commit (h : J.May p ws) :
    J.Writes p ws (Service.commit : Call Row Reply ε (Except PgErr Unit)) fun _ vs => vs = [] := by
  refine ⟨h, ?_⟩
  rintro a _ ⟨⟩
  rfl

theorem rollback :
    J.Writes p ws (Service.rollback : Call Row Reply ε Unit) fun _ vs => vs = [] := by
  rintro a _ ⟨⟩
  rfl

theorem orThrow {wrap : PgErr → ε} {r : Except PgErr α} :
    J.Writes p ws (Service.orThrow wrap r : Call Row Reply ε α) fun _ vs => vs = ws := by
  cases r with
  | ok a => exact pure rfl
  | error e => exact throw _

/-- **a transaction** commits what its body has written -/
theorem inTx {beginning committing : PgErr → ε} {Φ : α → List W → Prop} {fn : Call Row Reply ε α}
    (h : J.Writes p ws fn Φ) (hm : ∀ a vs, Φ a vs → J.May p vs) :
    J.Writes p ws (Service.inTx beginning committing fn) fun _ vs => vs = [] := by
  refine bind (Φ := fun _ vs => vs = ws) (bind begin fun r vs e => ?_) fun _ vs e => ?_
  · rw [e]
    exact orThrow
  rw [e]
  refine bind (attempt h) fun r vs hr => ?_
  cases r with
  | error e => exact bind rollback fun _ _ _ => throw e
  | ok a =>
    refine bind (commit (hm a vs (hr a rfl))) fun c vs e => ?_
    cases c with
    | error e => exact bind rollback fun _ _ _ => throw _
    | ok _ => exact pure e

end Writes

/-! ## every run -/

variable {R : Type} {σ τ : Conf P (Cmd Q Rm) (Ans Row Reply) (State P Db W L E) R}

variable (J) in
/-- the commit was allowed and consists of a list that its process may commit -/
def Made (c : Commit P Db) : Prop :=
  ∃ (s : Store P Db W L) (e : E), c = ⟨c.tx, s.committed, s.view c.tx⟩ ∧
    S.may c.tx s e = true ∧ J.May c.tx (s.pending c.tx)

variable (J) in
/-- every program goes on as it may, and every commit was one it might make -/
structure Kept (σ : Conf P (Cmd Q Rm) (Ans Row Reply) (State P Db W L E) R) : Prop where
  progs : ∀ p m, σ.prog p = some m → J.Goes p (fun _ _ => True) m (σ.state.store.pending p)
  log : ∀ c ∈ σ.state.store.log, J.Made c

/-- the programs after a move of `p` that leaves the writes of the others alone -/
theorem goes_update {t : Store P Db W L} {m : Option (Prog (Cmd Q Rm) (Ans Row Reply) R)}
    (hm : ∀ n, m = some n → J.Goes p (fun _ _ => True) n (t.pending p))
    (ht : ∀ q, q ≠ p → t.pending q = σ.state.store.pending q)
    (h : ∀ q n, σ.prog q = some n → J.Goes q (fun _ _ => True) n (σ.state.store.pending q)) :
    ∀ q n, Function.update σ.prog p m q = some n → J.Goes q (fun _ _ => True) n (t.pending q) := by
  refine progs_update hm fun q n e hn => ?_
  rw [ht q e]
  exact h q n hn

theorem pending_rollback (s : Store P Db W L) (p : P) : (s.rollback p).pending p = [] :=
  Function.update_self ..

theorem Kept.exec {x : Choice Y} (h : J.Kept σ) (hs : S.machine.step σ (.exec p x) = some τ) :
    J.Kept τ := by
  obtain ⟨c, k, a, s, hp, hx, rfl⟩ := Machine.step_exec hs
  have hk := h.progs p _ hp
  cases c with
  | begin =>
    cases hx
    have hb : (execBegin p x σ.state.store).2.pending = σ.state.store.pending ∧
        (execBegin p x σ.state.store).2.log = σ.state.store.log := by
      unfold execBegin
      split <;> exact ⟨rfl, rfl⟩
    refine ⟨goes_update (fun n hn => ?_) (fun q _ => congrFun hb.1 q) h.progs, ?_⟩
    · rw [← Option.some.inj hn, show (execBegin p x σ.state.store).2.pending p = _ from
        congrFun hb.1 p]
      exact hk _
    · exact fun c hc => h.log c (hb.2 ▸ hc)
  | rollback =>
    cases hx
    refine ⟨goes_update (fun n hn => ?_) (fun q hq => ?_) h.progs, h.log⟩
    · rw [← Option.some.inj hn, pending_rollback]
      exact hk _
    · exact ((Quiet.rollback p σ.state.store).others q hq).1
  | commit =>
    obtain ⟨hmay, rfl, rfl⟩ := S.exec_commit hx
    have hrolled : J.Kept ⟨⟨σ.state.store.rollback p, σ.state.ext⟩,
        Function.update σ.prog p (some (k (execCommit p x σ.state.store).1))⟩ := by
      refine ⟨goes_update (fun n hn => ?_) (fun q hq => ?_) h.progs, h.log⟩
      · rw [← Option.some.inj hn, pending_rollback]
        exact hk.2 _
      · exact ((Quiet.rollback p σ.state.store).others q hq).1
    have hcommit : J.Kept ⟨⟨σ.state.store.commit p, σ.state.ext⟩,
        Function.update σ.prog p (some (k (execCommit p x σ.state.store).1))⟩ := by
      -- the writes are given up as in a rollback
      refine ⟨hrolled.progs, fun c hc => ?_⟩
      rcases List.mem_cons.mp hc with rfl | hc
      · exact ⟨σ.state.store, σ.state.ext, rfl, hmay, hk.1⟩
      · exact h.log c hc
    cases hf : x.fault with
    | none =>
      simp only [execCommit, hf] at hcommit ⊢
      exact hcommit
    | failed =>
      simp only [execCommit, hf] at hrolled ⊢
      exact hrolled
    | lost =>
      simp only [execCommit, hf] at hcommit ⊢
      exact hcommit
  | remote r =>
    obtain ⟨⟨b, e⟩, -, he⟩ := Option.map_eq_some_iff.mp hx
    cases he
    exact ⟨goes_update (fun n hn => Option.some.inj hn ▸ hk b) (fun _ _ => rfl) h.progs, h.log⟩
  | sql q =>
    simp only [Spec.machine, Spec.exec] at hx
    split at hx
    · obtain ⟨⟨b, t⟩, hst, he⟩ := Option.map_eq_some_iff.mp hx
      cases he
      have hq := S.quiet hst
      obtain ⟨ws, hws, hok, herr⟩ := J.stmt hst
      refine ⟨goes_update (fun n hn => ?_) (fun q' hq' => (hq.others q' hq').1) h.progs,
        fun c hc => h.log c (hq.log ▸ hc)⟩
      rw [← Option.some.inj hn, hws]
      cases b with
      | ok r => exact hk.2 r ws (hok r rfl)
      | error e =>
        rw [herr e rfl, List.append_nil]
        exact hk.1 e
    · cases hx
      exact ⟨goes_update (fun n hn => Option.some.inj hn ▸ hk.1 _) (fun _ _ => rfl) h.progs, h.log⟩

theorem Kept.step {a : Act P (Choice Y)} (h : J.Kept σ) (hs : S.machine.step σ a = some τ) :
    J.Kept τ := by
  cases a with
  | exec p x => exact h.exec hs
  | crash p =>
    obtain ⟨-, rfl⟩ := Machine.step_crash hs
    refine ⟨goes_update (fun n hn => nomatch hn) (fun q hq => ?_) h.progs, h.log⟩
    exact ((Quiet.rollback p σ.state.store).others q hq).1
  | env x =>
    obtain ⟨s, hx, rfl⟩ := Machine.step_env hs
    obtain ⟨e, -, rfl⟩ := Option.map_eq_some_iff.mp hx
    exact ⟨h.progs, h.log⟩

/-- who is at a commit has written what it may commit -/
theorem Kept.may (h : J.Kept σ) {p : P} {k : Ans Row Reply (.commit : Cmd Q Rm) → Prog _ _ R}
    (hp : σ.prog p = some (.call .commit k)) : J.May p (σ.state.store.pending p) :=
  (h.progs p _ hp).1

/-- **every commit is one that its process may make** -/
theorem runs (h : Runs S.machine σ τ) (hk : J.Kept σ) : J.Kept τ := by
  induction h with
  | refl => exact hk
  | tail _ a hs ih => exact ih.step hs

end Journal

end

end Service
