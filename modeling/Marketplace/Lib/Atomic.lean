import Marketplace.Lib.Service

/-!
# A call that fails has committed nothing

A call whose only commit is the end of a transaction either succeeds with that commit or, if it
throws, has left the committed contents alone.  The one exception is a commit whose
acknowledgement is lost, which the caller cannot tell from a commit that failed.

* `Settles m`            the acknowledged commit of `m` is its last command, and `m` then succeeds;
* `settles_inTx`         so it is with a transaction whose body commits nothing;
* `Clean p σ`            what is left of `p` settles, and `p` has committed only if it succeeded;
* `Spec.run_clean`       every schedule that loses no acknowledgement of `p` keeps this;
* `Spec.run_movers`      only those who move commit.
-/

set_option linter.unusedSectionVars false

namespace Service

open Interleave ReadCommitted

section
variable {Q Rm : Type} {Row : Q → Type} {Reply : Rm → Type} {ε α β : Type}

/-- an acknowledged commit is the last command, and the call then succeeds -/
def Settles : Prog (Cmd Q Rm) (Ans Row Reply) (Except ε α) → Prop
  | .ret _ => True
  | .call c k => (∀ a, Settles (k a)) ∧
      match c, k with
      | .commit, k => ∃ b, k (Except.ok ()) = .ret (.ok b)
      | _, _ => True

/-- the commands of the body of a transaction -/
def Body (c : Cmd Q Rm) : Prop := c ≠ .commit

theorem Settles.ret (r : Except ε α) :
    Settles (.ret r : Prog (Cmd Q Rm) (Ans Row Reply) (Except ε α)) := trivial

theorem Settles.call {c : Cmd Q Rm} {k : Ans Row Reply c → Prog _ _ (Except ε α)}
    (hc : Body c) (h : ∀ a, Settles (k a)) : Settles (.call c k) := by
  refine ⟨h, ?_⟩
  cases c with
  | commit => exact absurd rfl hc
  | begin => trivial
  | rollback => trivial
  | sql q => trivial
  | remote r => trivial

/-- what commits nothing may come before -/
theorem Settles.bind_body {m : Prog (Cmd Q Rm) (Ans Row Reply) β}
    {f : β → Prog (Cmd Q Rm) (Ans Row Reply) (Except ε α)} (hm : m.Only Body)
    (hf : ∀ b, Settles (f b)) : Settles (m >>= f) := by
  induction m with
  | ret b => exact hf b
  | call c k ih => exact .call hm.1 fun a => ih a (hm.2 a)

/-- a result computed from the answer of a call that settles -/
theorem Settles.bind_pure {m : Call Row Reply ε β} (f : β → α) (hm : Settles m.run) :
    Settles (m >>= fun b => (pure (f b) : Call Row Reply ε α)).run := by
  have h : ∀ m : Prog (Cmd Q Rm) (Ans Row Reply) (Except ε β), Settles m →
      Settles (m >>= ExceptT.bindCont fun b => (pure (f b) : Call Row Reply ε α)) := by
    intro m hm
    induction m with
    | ret r =>
      cases r with
      | ok b => exact .ret _
      | error e => exact .ret _
    | call c k ih =>
      refine ⟨fun a => ih a (hm.1 a), ?_⟩
      cases c with
      | commit =>
        obtain ⟨b, hb⟩ := hm.2
        refine ⟨f b, ?_⟩
        show (k (Except.ok ()) >>= ExceptT.bindCont _) = _
        rw [hb]
        rfl
      | begin => trivial
      | rollback => trivial
      | sql q => trivial
      | remote r => trivial
  exact h m.run hm

/-- **a transaction whose body commits nothing settles** -/
theorem settles_inTx {beginning committing : PgErr → ε} {fn : Call Row Reply ε α}
    (hfn : Only Body fn) : Settles (inTx beginning committing fn).run := by
  refine .call (fun e => nomatch e) fun a => ?_
  cases a with
  | error e => exact .ret _
  | ok u =>
    have hbody : (attempt fn : Call Row Reply ε (Except ε α)).run.Only Body :=
      Prog.Only.bind hfn fun _ => trivial
    show Settles ((attempt fn : Call Row Reply ε (Except ε α)).run >>= ExceptT.bindCont _)
    refine Settles.bind_body hbody fun r => ?_
    cases r with
    | error e => exact .ret _
    | ok r =>
      cases r with
      | error e => exact .call (fun e => nomatch e) fun _ => .ret _
      | ok b =>
        refine ⟨fun a => ?_, b, rfl⟩
        cases a with
        | ok u => exact .ret _
        | error e => exact .call (fun e => nomatch e) fun _ => .ret _

end

section
variable {P Db W L E Y : Type} [DecidableEq P] [DecidableEq L] [Schema Db W L]
variable {Q Rm : Type} {Row : Q → Type} {Reply : Rm → Type} {ε α : Type}
variable {S : Spec P Db W L E Y Row Reply} {p : P}
variable {σ τ : Conf P (Cmd Q Rm) (Ans Row Reply) (State P Db W L E) (Except ε α)}

/-- a transaction is committed by a move of its own process -/
theorem committer_exec {a : Act P (Choice Y)} {q : P} (h : committer σ a = some q) :
    ∃ x, a = .exec q x := by
  cases a with
  | exec q' x =>
    simp only [committer] at h
    split at h
    · split at h
      · cases h
      · exact ⟨x, by rw [Option.some.inj h]⟩
    · cases h
  | crash q' => cases h
  | env x => cases h

/-- what is left of `p` settles, and `p` has committed only if it has succeeded -/
def Clean (p : P) (σ : Conf P (Cmd Q Rm) (Ans Row Reply) (State P Db W L E) (Except ε α)) : Prop :=
  ∀ m, σ.prog p = some m →
    Settles m ∧ (σ.state.store.commitsOf p = [] ∨ ∃ a, m = .ret (.ok a))

/-- a move that commits nothing of `p` leaves its commits alone -/
theorem commitsOf_step {a : Act P (Choice Y)} (hs : S.machine.step σ a = some τ)
    (hp : committer σ a ≠ some p) : τ.state.store.commitsOf p = σ.state.store.commitsOf p := by
  rcases Spec.step_store hs with ⟨q, hq, he⟩ | ⟨-, he⟩
  · have hne : q ≠ p := by
      rintro rfl
      exact hp hq
    unfold Store.commitsOf
    rw [he, Store.commit, List.filter_cons, if_neg (by simpa using hne)]
  · unfold Store.commitsOf
    rw [he]

theorem Clean.exec {x : Choice Y} (hs : S.machine.step σ (.exec p x) = some τ)
    (hx : x.fault ≠ .lost) (h : Clean p σ) : Clean p τ := by
  have hkept := commitsOf_step (p := p) hs
  obtain ⟨c, k, b, s, hp, hc, rfl⟩ := Machine.step_exec hs
  obtain ⟨hm, hsofar⟩ := h _ hp
  have hnone : σ.state.store.commitsOf p = [] := hsofar.resolve_right fun ⟨_, e⟩ => nomatch e
  intro m hm'
  obtain rfl : k b = m := Option.some.inj ((Function.update_self p _ σ.prog).symm.trans hm')
  refine ⟨hm.1 b, ?_⟩
  simp only [committer, hp] at hkept
  cases c with
  | commit =>
    obtain ⟨-, rfl, rfl⟩ := S.exec_commit hc
    obtain ⟨d, hd⟩ := hm.2
    cases hf : x.fault with
    | none =>
      right
      refine ⟨d, ?_⟩
      rw [← hd]
      simp only [execCommit, hf]
    | failed =>
      left
      exact (hkept (by simp [hf])).trans hnone
    | lost => exact absurd hf hx
  | begin => exact .inl ((hkept (by simp)).trans hnone)
  | rollback => exact .inl ((hkept (by simp)).trans hnone)
  | sql q => exact .inl ((hkept (by simp)).trans hnone)
  | remote r => exact .inl ((hkept (by simp)).trans hnone)

theorem Clean.step {a : Act P (Choice Y)} (hs : S.machine.step σ a = some τ)
    (hf : ∀ x, a = .exec p x → x.fault ≠ .lost) (h : Clean p σ) : Clean p τ := by
  by_cases hp : ∃ x, a = .exec p x
  · obtain ⟨x, rfl⟩ := hp
    exact h.exec hs (hf x rfl)
  have ha : ∀ x, a ≠ .exec p x := fun x e => hp ⟨x, e⟩
  have hkept := commitsOf_step hs fun e => hp (committer_exec e)
  intro m hm
  rw [hkept]
  exact h m (Machine.step_other hs ha hm)

/-- who has committed has moved -/
theorem Spec.run_movers (as : List (Act P (Choice Y))) (hr : S.machine.run σ as = some τ) :
    ∀ c ∈ τ.state.store.log, c ∈ σ.state.store.log ∨ ∃ x, Act.exec c.tx x ∈ as := by
  induction as generalizing σ with
  | nil =>
    obtain rfl : σ = τ := Option.some.inj hr
    exact fun c hc => .inl hc
  | cons a as ih =>
    obtain ⟨υ, hυ, hr'⟩ := Option.bind_eq_some_iff.mp hr
    intro c hc
    rcases ih hr' c hc with hc | ⟨x, hx⟩
    · rcases Spec.step_store hυ with ⟨q, hq, he⟩ | ⟨-, he⟩
      · rw [he] at hc
        rcases List.mem_cons.mp hc with rfl | hc
        · obtain ⟨x, rfl⟩ := committer_exec hq
          exact .inr ⟨x, List.mem_cons_self⟩
        · exact .inl hc
      · exact .inl (he ▸ hc)
    · exact .inr ⟨x, List.mem_cons_of_mem _ hx⟩

/-- no acknowledgement of a commit is lost in this schedule -/
def lossless (as : List (Act P (Choice Y))) : Bool :=
  as.all fun a =>
    match a with
    | .exec _ x => x.fault != .lost
    | _ => true

theorem not_lost {as : List (Act P (Choice Y))} (h : lossless as = true) {x : Choice Y}
    (hx : Act.exec p x ∈ as) : x.fault ≠ .lost := by
  have hne := List.all_eq_true.mp h _ hx
  exact bne_iff_ne.mp hne

/-- **a schedule that loses no acknowledgement of `p`** -/
theorem Spec.run_clean (as : List (Act P (Choice Y))) (hr : S.machine.run σ as = some τ)
    (has : ∀ x, Act.exec p x ∈ as → x.fault ≠ .lost) (h : Clean p σ) : Clean p τ := by
  induction as generalizing σ with
  | nil =>
    obtain rfl : σ = τ := Option.some.inj hr
    exact h
  | cons a as ih =>
    obtain ⟨υ, hυ, hr'⟩ := Option.bind_eq_some_iff.mp hr
    have hstep : Clean p υ := h.step hυ fun x e => has x (e ▸ List.mem_cons_self)
    exact ih hr' (fun x hx => has x (List.mem_cons_of_mem _ hx)) hstep

end

end Service
