import Marketplace.Auth.Rotation

/-!
# auth-service: a logout ends every session of its user

* `issuer_unique`    a token is issued by one commit;
* `logout_ends`      in every run in which no transaction that adds a token of a user overlaps the
                     commit of a logout of that user, nor a logout the commit of such a transaction,
                     a token that is usable after a logout was issued later (`Later`);
* `logout_in_vain`   without this condition a token outlives the logout.
-/

set_option linter.unusedSectionVars false

namespace Marketplace.Auth

open ReadCommitted Interleave Service

section
variable {P : Type} [DecidableEq P]

theorem rowsWith_grows {d e : Db} {h : String} (hg : Grows d e) (hd : d.rowsWith h ≠ []) :
    e.rowsWith h ≠ [] := by
  obtain ⟨t, ht⟩ := List.exists_mem_of_ne_nil _ hd
  obtain ⟨htm, hth⟩ := List.mem_filter.mp ht
  obtain ⟨t', ht', -, hth', -, -⟩ := hg t htm
  refine List.ne_nil_of_mem (List.mem_filter.mpr ⟨ht', ?_⟩)
  rw [hth']
  exact hth

/-- a token that some commit has issued is still there -/
theorem issued_stays {d₀ d : Db} {log : List (Commit P Db)} (hch : Chained d₀ log d)
    (hg : ∀ c ∈ log, Grows c.before c.after) {c : Commit P Db} (hc : c ∈ log) {h : String}
    (hi : Issues c h) : d.rowsWith h ≠ [] := by
  induction log generalizing d with
  | nil => exact absurd hc List.not_mem_nil
  | cons c' log ih =>
    obtain ⟨rfl, hrest⟩ := hch
    rcases List.mem_cons.mp hc with rfl | hc
    · exact hi.2
    · exact rowsWith_grows (hg c' List.mem_cons_self)
        (ih hrest (fun c hc => hg c (List.mem_cons_of_mem _ hc)) hc)

/-- one commit issues a token -/
theorem issuer_unique {d₀ d : Db} {log : List (Commit P Db)} (hch : Chained d₀ log d)
    (hg : ∀ c ∈ log, Grows c.before c.after) {c c' : Commit P Db} (hc : c ∈ log) (hc' : c' ∈ log)
    {h : String} (hi : Issues c h) (hi' : Issues c' h) : c = c' := by
  induction log generalizing d with
  | nil => exact absurd hc List.not_mem_nil
  | cons c₁ log ih =>
    obtain ⟨rfl, hrest⟩ := hch
    have hgrest : ∀ c ∈ log, Grows c.before c.after := fun c hc => hg c (List.mem_cons_of_mem _ hc)
    rcases List.mem_cons.mp hc with rfl | hcl
    · rcases List.mem_cons.mp hc' with rfl | hcl'
      · rfl
      · exact absurd hi.1 (issued_stays hrest hgrest hcl' hi')
    · rcases List.mem_cons.mp hc' with rfl | hcl'
      · exact absurd hi'.1 (issued_stays hrest hgrest hcl hi)
      · exact ih hrest hgrest hcl hcl'

/-- **A logout ends every session of its user.**  Once it has committed, a token of the user that is
usable was issued by a login or an exchange that read its input afterwards, and in the end by such a
login. -/
theorem logout_ends (X : Setting P) (hap : X.apart = true) (hk : Keyed X.initial) {σ : Config P}
    (h : Runs X.service.machine (start X.impl X.calls X.initial) σ) {c : Commit P Db}
    (hc : c ∈ σ.state.store.log) {u : UUID} (hu : X.calls c.tx = .logout u) {t : RefreshToken}
    (ht : t ∈ σ.state.store.committed.tokens) (htu : t.userID = u) {now : Time}
    (hus : t.isUsable now = true) :
    (∀ c' ∈ σ.state.store.log, Issues c' t.tokenHash → ReadAfter σ.state.ext c.tx c'.tx) ∧
      Later X.impl.hash X.calls σ.state.store.log σ.state.ext c.tx u t.tokenHash := by
  obtain ⟨hg, -⟩ := Setting.runs hk h
  have hlive : t.revoked = false := by
    cases e : t.revoked with
    | false => rfl
    | true => simp [RefreshToken.isUsable, e] at hus
  have hl := hg.ended hap c hc u hu t ht htu hlive
  refine ⟨fun c' hc' hi => ?_, hl⟩
  cases hl with
  | login hc₁ hp hi₁ hr =>
    rw [issuer_unique hg.chained hg.grows hc' hc₁ hi hi₁]
    exact hr
  | refreshToken hc₁ hp hi₁ hr hrest =>
    rw [issuer_unique hg.chained hg.grows hc' hc₁ hi hi₁]
    exact hr

end

/-! ## an exchange and a logout -/

/-- a login or an exchange, and a logout of its user -/
def leaving (i : Invocation) : Fin 2 → Invocation
  | 0 => i
  | 1 => .logout 1

/-- what is left at the end: who committed, and the tokens that are usable -/
def outcome (σ : Config (Fin 2)) : List (Fin 2) × List (UUID × String) :=
  (σ.state.store.log.map (·.tx),
    (σ.state.store.committed.tokens.filter (·.isUsable 2)).map fun t => (t.userID, t.tokenHash))

theorem outcome_usable {σ : Config (Fin 2)} {u : UUID} {h : String}
    (ho : (u, h) ∈ (outcome σ).2) :
    ∃ t ∈ σ.state.store.committed.tokens, t.userID = u ∧ t.tokenHash = h ∧ t.isUsable 2 = true := by
  obtain ⟨t, ht, e⟩ := List.mem_map.mp ho
  obtain ⟨htm, hu⟩ := List.mem_filter.mp ht
  exact ⟨t, htm, congrArg Prod.fst e, congrArg Prod.snd e, hu⟩

/-- a login that starts after the logout -/
theorem logout_ends_login :
    ∃ σ, Runs (Setting.service ⟨sampleService, leaving (.login "a@b.c" ""), sampleDb, false,
        true⟩).machine (start sampleService (leaving (.login "a@b.c" "")) sampleDb) σ ∧
      ∃ c ∈ σ.state.store.log, c.tx = 1 ∧ ∃ t ∈ σ.state.store.committed.tokens, t.userID = 1 ∧
        t.isUsable 2 = true ∧
        ∀ c' ∈ σ.state.store.log, Issues c' t.tokenHash → ReadAfter σ.state.ext 1 c'.tx := by
  obtain ⟨σ, hr, hσ⟩ := Runs.exists_of_run
    (M := (Setting.service ⟨sampleService, leaving (.login "a@b.c" ""), sampleDb, false,
      true⟩).machine)
    (σ := start sampleService (leaving (.login "a@b.c" "")) sampleDb)
    (List.replicate 4 (move 1) ++ List.replicate 8 (move 0)) (f := outcome)
    (b := ([0, 1], [(1, UUID.toText 50)])) (by decide +kernel)
  have hlog : (1 : Fin 2) ∈ σ.state.store.log.map (·.tx) := by
    rw [show σ.state.store.log.map (·.tx) = [0, 1] from congrArg Prod.fst hσ]
    decide
  obtain ⟨c, hc, hc1⟩ := List.mem_map.mp hlog
  obtain ⟨t, ht, htu, -, hus⟩ := outcome_usable (σ := σ) (u := 1) (h := UUID.toText 50) (by
    rw [hσ]
    exact List.mem_singleton_self _)
  have hcall : leaving (.login "a@b.c" "") c.tx = .logout 1 := by rw [hc1]; rfl
  have hend := logout_ends ⟨sampleService, leaving (.login "a@b.c" ""), sampleDb, false, true⟩ rfl
    keyed_sampleDb hr hc hcall ht htu hus
  rw [hc1] at hend
  exact ⟨σ, hr, c, hc, hc1, t, ht, htu, hus, hend.1⟩

/-- the token `h` was issued by the process 0, which read its input before anything was committed -/
def issuedEarly (h : String) (σ : Config (Fin 2)) : Bool :=
  (σ.state.ext 0).any (·.isEmpty) && σ.state.store.log.any fun c =>
    c.tx == 0 && (c.before.rowsWith h).isEmpty && !(c.after.rowsWith h).isEmpty

theorem issuedEarly_iff {h : String} {σ : Config (Fin 2)} (hσ : issuedEarly h σ = true) (q : Fin 2) :
    ∃ c ∈ σ.state.store.log, Issues c h ∧ ¬ReadAfter σ.state.ext q c.tx := by
  simp only [issuedEarly, Bool.and_eq_true, beq_iff_eq, List.any_eq_true, List.isEmpty_iff,
    Bool.not_eq_true', List.isEmpty_eq_false_iff, Option.any_eq_true] at hσ
  obtain ⟨⟨log₀, hread, rfl⟩, c, hc, ⟨hc0, hb⟩, ha⟩ := hσ
  refine ⟨c, hc, ⟨hb, ha⟩, ?_⟩
  rintro ⟨log, hl, c', hc', -⟩
  rw [hc0, hread] at hl
  cases hl
  exact absurd hc' List.not_mem_nil

/-- an exchange that finds the token usable before the logout revokes it commits afterwards: the
new token is usable -/
theorem logout_in_vain :
    ∃ σ, Runs spec.machine (start sampleService (leaving (.refreshToken "stolen")) sampleDb) σ ∧
      ∃ c ∈ σ.state.store.log, leaving (.refreshToken "stolen") c.tx = .logout 1 ∧
        ∃ t ∈ σ.state.store.committed.tokens, t.userID = 1 ∧ t.isUsable 2 = true ∧
          ∃ c' ∈ σ.state.store.log, Issues c' t.tokenHash ∧ ¬ReadAfter σ.state.ext c.tx c'.tx := by
  obtain ⟨σ, hr, hσ⟩ := Runs.exists_of_run (M := spec.machine)
    (σ := start sampleService (leaving (.refreshToken "stolen")) sampleDb)
    (List.replicate 4 (move 0) ++ List.replicate 4 (move 1) ++ List.replicate 10 (move 0))
    (f := fun σ => (outcome σ, issuedEarly (UUID.toText 50) σ))
    (b := (([0, 1], [(1, UUID.toText 50)]), true)) (by decide +kernel)
  have hout := congrArg Prod.fst hσ
  have hlog : (1 : Fin 2) ∈ σ.state.store.log.map (·.tx) := by
    rw [show σ.state.store.log.map (·.tx) = [0, 1] from congrArg Prod.fst hout]
    decide
  obtain ⟨c, hc, hc1⟩ := List.mem_map.mp hlog
  obtain ⟨t, ht, htu, hth, hus⟩ := outcome_usable (σ := σ) (u := 1) (h := UUID.toText 50) (by
    rw [show outcome σ = _ from hout]
    exact List.mem_singleton_self _)
  refine ⟨σ, hr, c, hc, by rw [hc1]; rfl, t, ht, htu, hus, ?_⟩
  rw [hth]
  exact issuedEarly_iff (congrArg Prod.snd hσ) c.tx

end Marketplace.Auth
