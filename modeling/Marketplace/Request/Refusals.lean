import Marketplace.Request.Names
import Marketplace.Request.Safety

/-!
# Whom a request of another name refuses

A `Create` is refused, and an `EnsureForItem` is answered, by a request of the same key.  Where the
key says nothing of the name, that may be any request whose key says nothing either.

* `NeverMistaken n`  the key of `n` is not empty, and in every run whatever stands in the way of `n`
                     has a letter or a digit in common with it;
* `never_mistaken_iff`   **so it is exactly for the names with a character in `[a-z0-9]`**, once they
                     are in lower case;
* `mistaken`         a name in another script, refused by one in a third.
-/

set_option linter.unusedSectionVars false

namespace Marketplace.Request

open ReadCommitted Interleave Service

section
variable [Postgres]

section
variable {P : Type} [DecidableEq P] {calls : P → Invocation} {σ : Config P} {p : P}

/-- a `Create` that the service has refused was refused by a request of the same key -/
theorem create_refused (h : Runs spec.machine (start calls Db.empty) σ) {customerID : UUID}
    {inp : CreateInput} {e : Err} (hc : calls p = .create customerID inp)
    (hp : σ.prog p = some (.ret (.error e))) (hd : e.isDatabase = false) :
    ∃ existing, requestItemKey existing.itemName = requestItemKey inp.itemName ∧
      WasCommitted existing σ.state.store.log ∧
      (e = .requestExists existing ∨ e = .alreadyParticipant ∧
        ∃ c ∈ σ.state.store.log, ∃ rp ∈ c.after.participants,
          rp.requestID = existing.requestID ∧ rp.customerID = customerID) := by
  have hf := (runs_good h).2.2 p e hp
  rw [hc] at hf
  exact (hf.resolve_left (by simp [hd])).2

/-- an `EnsureForItem` that has opened nothing hands back a request of the same key -/
theorem ensured_found (h : Runs spec.machine (start calls Db.empty) σ) {inp : EnsureInput}
    {a : Answer} (hc : calls p = .ensureForItem inp) (hp : σ.prog p = some (.ret (.ok a)))
    (hw : a.wrote = false) :
    requestItemKey a.request.itemName = requestItemKey inp.itemName := by
  have ha := ((runs_good h).2.1 p a hp).1
  rw [hc, Answered, if_neg (by simp [hw])] at ha
  obtain ⟨-, n, c, hn, -, -, hk, -⟩ := ha
  obtain rfl := Option.some.inj hn
  exact hk

end

/-- the key of the name is not empty, and no request that has no letter or digit in common with it
stands in its way -/
def NeverMistaken (n : String) : Prop :=
  requestItemKey n ≠ "" ∧
  ∀ (P : Type) [DecidableEq P] (calls : P → Invocation) (σ : Config P),
    Runs spec.machine (start calls Db.empty) σ →
    (∀ p customerID inp e, calls p = .create customerID inp → inp.itemName = n →
      σ.prog p = some (.ret (.error e)) → e.isDatabase = false →
      ∃ existing, Shares existing.itemName n ∧ WasCommitted existing σ.state.store.log ∧
        (e = .requestExists existing ∨ e = .alreadyParticipant ∧
          ∃ c ∈ σ.state.store.log, ∃ rp ∈ c.after.participants,
            rp.requestID = existing.requestID ∧ rp.customerID = customerID)) ∧
    ∀ p inp a, calls p = .ensureForItem inp → inp.itemName = n →
      σ.prog p = some (.ret (.ok a)) → a.wrote = false → Shares a.request.itemName n

theorem Shares.symm {a b : String} (h : Shares a b) : Shares b a := by
  obtain ⟨c, hc, d, hd, he, hs⟩ := h
  exact ⟨d, hd, c, hc, he.symm, fun h => hs (by rwa [Separator, he])⟩

/-- **a name is never mistaken for another exactly if the key knows some character of it** -/
theorem never_mistaken_iff (n : String) : NeverMistaken n ↔ HasKeyChar n := by
  constructor
  · rintro ⟨hk, -⟩
    by_contra hn
    exact hk (requestItemKey_eq_empty.mpr hn)
  · intro hn
    refine ⟨fun hk => requestItemKey_eq_empty.mp hk hn, fun P _ calls σ h => ⟨?_, ?_⟩⟩
    · rintro p customerID inp e hc rfl hp hd
      obtain ⟨existing, hk, hm, he⟩ := create_refused h hc hp hd
      exact ⟨existing, (shares_of_key hk.symm hn).symm, hm, he⟩
    · rintro p inp a hc rfl hp hw
      exact (shares_of_key (ensured_found h hc hp hw).symm hn).symm

end

/-! ## a run with names in two scripts -/

/-- the last one is still to come -/
def travellers : Fin 3 → Invocation
  | 0 => .create 7 (television "привет")
  | 1 => .create 9 (television "日本語")
  | 2 => .leave 50 7

theorem mistaken : letI := asciiPostgres
    (CreateRequestBody.validate ⟨" 日本語 ", "", "home", 2⟩).map (·.itemName) = .ok "日本語" ∧
    (EnsureRequestBody.validate ⟨" 日本語 ", "", "home"⟩).map (·.itemName) = .ok "日本語" ∧
    requestItemKey "日本語" = "" ∧ ¬Shares "привет" "日本語" ∧
    ∃ σ, Runs spec.machine (start travellers Db.empty) σ ∧
      refusedWith σ 1 = some (.requestExists
        { PurchaseRequest.new 50 "привет" "" "home" (some 7) 1 with
          totalCustomers := 1, totalQuantity := 2 }) := by
  let : Postgres := asciiPostgres
  refine ⟨by decide, by decide, by decide, ?_, ?_⟩
  · rintro ⟨c, hc, -, -, -, hs⟩
    have hall : ("привет".toList.all fun c => Separator c) = true := by decide
    exact hs (of_decide_eq_true (List.all_eq_true.mp hall c hc))
  · exact Runs.exists_of_run (M := spec.machine) (σ := start travellers Db.empty)
      [move 0 0 0, move 0 0 0, move 0 0 0, move 0 50 0, move 0 60 0, move 0 0 0, move 0 90 91,
        move 0 0 0, move 1 0 0, move 1 0 0, move 1 0 0, move 1 0 0, move 1 0 0]
      (f := fun σ => refusedWith σ 1) (by decide)

end Marketplace.Request
