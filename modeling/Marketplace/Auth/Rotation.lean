import Marketplace.Auth.Operations

/-!
# auth-service: a refresh token is exchanged at most once

* `exchanged_once`   in every run whose UPDATEs of a token all find it not revoked yet (nothing in the
                     code checks this), at most one call that presents a token returns a new pair;
* `exchanged_twice`  without it, two calls that overlap both do.
-/

set_option linter.unusedSectionVars false

namespace Marketplace.Auth

open ReadCommitted Interleave Service

section
variable {P : Type} [DecidableEq P]

/-- **A refresh token is exchanged at most once**, by any number of calls in any order, as long as
every update of a token finds it not revoked. -/
theorem exchanged_once (X : Setting P) (hcur : X.current = true) (hk : Keyed X.initial)
    {σ : Config P} (h : Runs X.service.machine (start X.impl X.calls X.initial) σ) (token : String)
    {p q : P} {a b : Answer} (hp : X.calls p = .refreshToken token)
    (hq : X.calls q = .refreshToken token) (ha : σ.prog p = some (.ret (.ok a)))
    (hb : σ.prog q = some (.ret (.ok b))) : p = q := by
  obtain ⟨hg, hd⟩ := Setting.runs hk h
  obtain ⟨c, hc, rfl⟩ := hd p a ha
  obtain ⟨c', hc', rfl⟩ := hd q b hb
  exact (hg.once hcur).one c hc c' hc' token hp hq

end

/-! ## two calls with one token -/

/-- a service that knows one refresh token of the user 1 -/
def sampleService : AuthServiceImpl where
  jwtUtil :=
    { jjwt :=
        { parse := fun token _ =>
            if token = "stolen" then
              .ok [("sub", .str (UUID.toText 1)), ("type", .str "refresh")]
            else .error .invalid
          sign := fun claims =>
            match Json.field "jti" claims with
            | some (.str jti) => jti
            | _ => "access"
          uuid := fun s => if s = UUID.toText 1 then some 1 else none }
      expiryMinutes := 60
      refreshExpiryDays := 7 }
  passwordMatches _ _ := true
  hash token := token

/-- the user 1 with this token, stored and not revoked -/
def sampleDb : Db where
  users := [⟨1, "a@b.c", "", .CUSTOMER, .ACTIVE⟩]
  tokens := [⟨7, 1, "stolen", 1000, false, 0⟩]

theorem keyed_sampleDb : Keyed sampleDb where
  ids _ := List.length_filter_le _ _
  hashes _ := List.length_filter_le _ _

def move (p : Fin 2) : Act (Fin 2) (Choice Unit) := .exec p ⟨.none, 50 + p, 0, 1, ()⟩

def returned (σ : Config (Fin 2)) (p : Fin 2) : Bool :=
  match σ.prog p with
  | some (.ret (.ok _)) => true
  | _ => false

theorem returned_iff {σ : Config (Fin 2)} {p : Fin 2} (h : returned σ p = true) :
    ∃ a, σ.prog p = some (.ret (.ok a)) := by
  unfold returned at h
  split at h
  · rename_i a ha
    exact ⟨a, ha⟩
  · cases h

def replay : Fin 2 → Invocation := fun _ => .refreshToken "stolen"

/-- one call after the other -/
theorem exchanged_once_in_turn :
    ∃ σ, Runs (Setting.service ⟨sampleService, replay, sampleDb, true, false⟩).machine
        (start sampleService replay sampleDb) σ ∧
      returned σ 0 = true ∧ ∀ q b, σ.prog q = some (.ret (.ok b)) → 0 = q := by
  obtain ⟨σ, hr, hσ⟩ := Runs.exists_of_run
    (M := (Setting.service ⟨sampleService, replay, sampleDb, true, false⟩).machine)
    (σ := start sampleService replay sampleDb)
    (List.replicate 14 (move 0) ++ List.replicate 6 (move 1)) (f := fun σ => returned σ 0)
    (b := true) (by decide +kernel)
  obtain ⟨a, ha⟩ := returned_iff hσ
  exact ⟨σ, hr, hσ, fun q b hb => exchanged_once ⟨sampleService, replay, sampleDb, true, false⟩ rfl
    keyed_sampleDb hr "stolen" rfl rfl ha hb⟩

/-- both calls find the token usable before either commits, and both return a new pair -/
theorem exchanged_twice :
    ∃ σ, Runs spec.machine (start sampleService replay sampleDb) σ ∧
      (∃ a, σ.prog 0 = some (.ret (.ok a))) ∧ ∃ b, σ.prog 1 = some (.ret (.ok b)) := by
  obtain ⟨σ, hr, hσ⟩ := Runs.exists_of_run (M := spec.machine)
    (σ := start sampleService replay sampleDb)
    (List.replicate 4 (move 0) ++ List.replicate 4 (move 1) ++ List.replicate 10 (move 0) ++
      List.replicate 10 (move 1)) (f := fun σ => (returned σ 0, returned σ 1))
    (b := (true, true)) (by decide +kernel)
  exact ⟨σ, hr, returned_iff (congrArg Prod.fst hσ), returned_iff (congrArg Prod.snd hσ)⟩

end Marketplace.Auth
