import Marketplace.Lib.Refine

/-!
# accounts and profiles: the registry

What auth-service, customer-service and seller-service keep together, without tables, locks or
transactions: who is registered, under which email and phone, in which role, and who has a profile
of which kind.

* `Account`, `Registry`   the accounts, and the profiles with the accounts they belong to; a kind of
                     profile needs a role;
* `Event`            a registration, a change of address, a new profile, or nothing;
* `Event.Allowed`    the guards: an email and a phone belong to one account at most, and a profile is
                     opened for an account of its role that has none yet;
* `Sound`            what the guards keep (`history_sound`); so nobody has profiles of two kinds
                     (`Sound.one_kind`);
* `Grows`            an account keeps its role and a profile its owner for ever;
* `history_enrolled` every account comes from a registration in its role.
-/

set_option linter.unusedSectionVars false

namespace Marketplace.Accounts

open ReadCommitted

structure Account (E F R : Type) where
  email : E
  phone : F
  role : R
  deriving DecidableEq, Repr

structure Registry (U E F R K : Type) where
  accounts : U → Option (Account E F R)
  profiles : K → U → Option U

inductive Event (U E F R K : Type) where
  | enrolled (u : U) (a : Account E F R)
  | moved (u : U) (email : E) (phone : F)
  | opened (k : K) (i u : U)
  | idle
  deriving DecidableEq, Repr

section
variable {U E F R K P : Type} [DecidableEq U] [DecidableEq K]

namespace Registry

/-- nobody but `u` has the email or the phone -/
def Apart (b : Registry U E F R K) (u : U) (email : E) (phone : F) : Prop :=
  ∀ v c, b.accounts v = some c → v ≠ u → c.email ≠ email ∧ c.phone ≠ phone

def setAccount (b : Registry U E F R K) (u : U) (a : Account E F R) : Registry U E F R K :=
  { b with accounts := Function.update b.accounts u (some a) }

def setProfile (b : Registry U E F R K) (k : K) (i u : U) : Registry U E F R K :=
  { b with profiles := Function.update b.profiles k (Function.update (b.profiles k) i (some u)) }

theorem setAccount_self (b : Registry U E F R K) (u : U) (a : Account E F R) :
    (b.setAccount u a).accounts u = some a := Function.update_self ..

theorem setAccount_other (b : Registry U E F R K) {u w : U} (a : Account E F R) (h : w ≠ u) :
    (b.setAccount u a).accounts w = b.accounts w := Function.update_of_ne h ..

theorem setProfile_self (b : Registry U E F R K) (k : K) (i u : U) :
    (b.setProfile k i u).profiles k i = some u := by
  simp [setProfile]

theorem setProfile_other (b : Registry U E F R K) {k l : K} {i j : U} (u : U)
    (h : ¬(l = k ∧ j = i)) : (b.setProfile k i u).profiles l j = b.profiles l j := by
  unfold setProfile
  by_cases hk : l = k
  · subst hk
    have hj : j ≠ i := fun e => h ⟨rfl, e⟩
    simp [hj]
  · simp [hk]

end Registry

namespace Event

variable (needs : K → R)

def Allowed : Event U E F R K → Registry U E F R K → Prop
  | .enrolled u a, b => b.accounts u = none ∧ b.Apart u a.email a.phone
  | .moved u e f, b => b.accounts u ≠ none ∧ b.Apart u e f
  | .opened k i u, b => b.profiles k i = none ∧ (∀ j, b.profiles k j ≠ some u) ∧
      ∃ a, b.accounts u = some a ∧ a.role = needs k
  | .idle, _ => True

def apply : Event U E F R K → Registry U E F R K → Registry U E F R K
  | .enrolled u a, b => b.setAccount u a
  | .moved u e f, b =>
    match b.accounts u with
    | some a => b.setAccount u { a with email := e, phone := f }
    | none => b
  | .opened k i u, b => b.setProfile k i u
  | .idle, b => b

end Event

/-- the registry as an abstract machine -/
def registry (needs : K → R) : Abstract (Registry U E F R K) (Event U E F R K) where
  init := ⟨fun _ => none, fun _ _ => none⟩
  allows := Event.Allowed needs
  apply := Event.apply

/-! ## what the guards keep -/

structure Sound (needs : K → R) (b : Registry U E F R K) : Prop where
  emails : ∀ u v a c, b.accounts u = some a → b.accounts v = some c → a.email = c.email → u = v
  phones : ∀ u v a c, b.accounts u = some a → b.accounts v = some c → a.phone = c.phone → u = v
  owned : ∀ k i u, b.profiles k i = some u → ∃ a, b.accounts u = some a ∧ a.role = needs k
  one : ∀ k i j u, b.profiles k i = some u → b.profiles k j = some u → i = j

/-- every account keeps its role and every profile its owner -/
structure Grows (b b' : Registry U E F R K) : Prop where
  accounts : ∀ u a, b.accounts u = some a → ∃ a', b'.accounts u = some a' ∧ a'.role = a.role
  profiles : ∀ k i u, b.profiles k i = some u → b'.profiles k i = some u

variable {needs : K → R} {b b' : Registry U E F R K} {v : Event U E F R K}

theorem Grows.refl (b : Registry U E F R K) : Grows b b :=
  ⟨fun _ a h => ⟨a, h, rfl⟩, fun _ _ _ h => h⟩

theorem Grows.trans {b'' : Registry U E F R K} (h : Grows b b') (h' : Grows b' b'') :
    Grows b b'' := by
  refine ⟨fun u a ha => ?_, fun k i u hu => h'.profiles k i u (h.profiles k i u hu)⟩
  obtain ⟨a', ha', hr⟩ := h.accounts u a ha
  obtain ⟨a'', ha'', hr'⟩ := h'.accounts u a' ha'
  exact ⟨a'', ha'', hr'.trans hr⟩

/-- **nobody has profiles of two kinds**, if the kinds need different roles -/
theorem Sound.one_kind (h : Sound needs b) (hneeds : Function.Injective needs) {k l : K} {i j u : U}
    (hi : b.profiles k i = some u) (hj : b.profiles l j = some u) : k = l ∧ i = j := by
  obtain ⟨a, ha, hk⟩ := h.owned k i u hi
  obtain ⟨c, hc, hl⟩ := h.owned l j u hj
  obtain rfl : a = c := Option.some.inj (ha.symm.trans hc)
  obtain rfl : k = l := hneeds (hk.symm.trans hl)
  exact ⟨rfl, h.one k i j u hi hj⟩

/-- an account of the registry in which the account of `u` was set -/
theorem setAccount_cases {u w : U} {a c : Account E F R}
    (h : (b.setAccount u a).accounts w = some c) :
    (w = u ∧ c = a) ∨ (w ≠ u ∧ b.accounts w = some c) := by
  by_cases hw : w = u
  · subst hw
    exact .inl ⟨rfl, (Option.some.inj ((b.setAccount_self w a).symm.trans h)).symm⟩
  · exact .inr ⟨hw, (b.setAccount_other a hw).symm.trans h⟩

/-- a registry stays sound when an account is set whose email and phone nobody else has -/
theorem Sound.setAccount {u : U} {a : Account E F R} (h : Sound needs b)
    (hapart : b.Apart u a.email a.phone) (hrole : ∀ c, b.accounts u = some c → a.role = c.role) :
    Sound needs (b.setAccount u a) := by
  refine ⟨fun w w' c c' hw hw' he => ?_, fun w w' c c' hw hw' he => ?_, fun k i w hi => ?_, h.one⟩
  · rcases setAccount_cases hw with ⟨rfl, rfl⟩ | ⟨hne, hc⟩
    · rcases setAccount_cases hw' with ⟨rfl, -⟩ | ⟨hne', hc'⟩
      · rfl
      · exact absurd he.symm (hapart w' c' hc' hne').1
    · rcases setAccount_cases hw' with ⟨rfl, rfl⟩ | ⟨hne', hc'⟩
      · exact absurd he (hapart w c hc hne).1
      · exact h.emails w w' c c' hc hc' he
  · rcases setAccount_cases hw with ⟨rfl, rfl⟩ | ⟨hne, hc⟩
    · rcases setAccount_cases hw' with ⟨rfl, -⟩ | ⟨hne', hc'⟩
      · rfl
      · exact absurd he.symm (hapart w' c' hc' hne').2
    · rcases setAccount_cases hw' with ⟨rfl, rfl⟩ | ⟨hne', hc'⟩
      · exact absurd he (hapart w c hc hne).2
      · exact h.phones w w' c c' hc hc' he
  · obtain ⟨c, hc, hr⟩ := h.owned k i w hi
    by_cases hw : w = u
    · subst hw
      exact ⟨a, b.setAccount_self w a, (hrole c hc).trans hr⟩
    · exact ⟨c, (b.setAccount_other a hw).trans hc, hr⟩

/-- a change of address sets an account -/
theorem apply_moved {u : U} {e : E} {f : F} {a : Account E F R} (h : b.accounts u = some a) :
    (Event.moved u e f).apply b = b.setAccount u { a with email := e, phone := f } := by
  simp only [Event.apply, h]

theorem Sound.apply (h : Sound needs b) (hv : v.Allowed needs b) : Sound needs (v.apply b) := by
  cases v with
  | enrolled u a =>
    obtain ⟨hnone, hapart⟩ := hv
    refine h.setAccount hapart fun c hc => ?_
    cases hnone.symm.trans hc
  | moved u e f =>
    obtain ⟨hsome, hapart⟩ := hv
    obtain ⟨a, ha⟩ := Option.ne_none_iff_exists'.mp hsome
    rw [apply_moved ha]
    refine h.setAccount hapart fun c hc => ?_
    rw [Option.some.inj (ha.symm.trans hc)]
  | opened k i u =>
    obtain ⟨hnone, hfree, hrole⟩ := hv
    refine ⟨h.emails, h.phones, fun l j w hw => ?_, fun l j j' w hw hw' => ?_⟩
    · by_cases e : l = k ∧ j = i
      · obtain ⟨rfl, rfl⟩ := e
        rw [← Option.some.inj ((b.setProfile_self l j u).symm.trans hw)]
        exact hrole
      · exact h.owned l j w ((b.setProfile_other u e).symm.trans hw)
    · by_cases e : l = k ∧ j = i
      · by_cases e' : l = k ∧ j' = i
        · exact e.2.trans e'.2.symm
        · obtain ⟨rfl, rfl⟩ := e
          have hu := Option.some.inj ((b.setProfile_self l j u).symm.trans hw)
          exact absurd ((b.setProfile_other u e').symm.trans hw') (hu ▸ hfree j')
      · by_cases e' : l = k ∧ j' = i
        · obtain ⟨rfl, rfl⟩ := e'
          have hu := Option.some.inj ((b.setProfile_self l j' u).symm.trans hw')
          exact absurd ((b.setProfile_other u e).symm.trans hw) (hu ▸ hfree j)
        · exact h.one l j j' w ((b.setProfile_other u e).symm.trans hw)
            ((b.setProfile_other u e').symm.trans hw')
  | idle => exact h

theorem sound_empty : Sound needs (⟨fun _ => none, fun _ _ => none⟩ : Registry U E F R K) := by
  refine ⟨fun u v a c h => ?_, fun u v a c h => ?_, fun k i u h => ?_, fun k i j u h => ?_⟩
  · cases h
  · cases h
  · cases h
  · cases h

theorem history_sound {h : List (P × Event U E F R K)} (hb : History (registry needs) h b) :
    Sound needs b :=
  hb.invariant sound_empty fun _ _ hs hv => hs.apply hv

theorem grows_setAccount {u : U} {a : Account E F R}
    (hrole : ∀ c, b.accounts u = some c → a.role = c.role) : Grows b (b.setAccount u a) := by
  refine ⟨fun w c hc => ?_, fun _ _ _ h => h⟩
  by_cases hw : w = u
  · subst hw
    exact ⟨a, b.setAccount_self w a, hrole c hc⟩
  · exact ⟨c, (b.setAccount_other a hw).trans hc, rfl⟩

theorem grows_apply (hv : v.Allowed needs b) : Grows b (v.apply b) := by
  cases v with
  | enrolled u a =>
    refine grows_setAccount fun c hc => ?_
    cases hv.1.symm.trans hc
  | moved u e f =>
    obtain ⟨a, ha⟩ := Option.ne_none_iff_exists'.mp hv.1
    rw [apply_moved ha]
    refine grows_setAccount fun c hc => ?_
    rw [Option.some.inj (ha.symm.trans hc)]
  | opened k i u =>
    refine ⟨fun w c hc => ⟨c, hc, rfl⟩, fun l j w hw => ?_⟩
    by_cases e : l = k ∧ j = i
    · obtain ⟨rfl, rfl⟩ := e
      cases hv.1.symm.trans hw
    · exact (b.setProfile_other u e).trans hw
  | idle => exact Grows.refl b

/-- **every account comes from a registration**, in the role it has -/
theorem history_enrolled {h : List (P × Event U E F R K)} (hb : History (registry needs) h b)
    {u : U} {a : Account E F R} (ha : b.accounts u = some a) :
    ∃ x ∈ h, ∃ a₀, x.2 = .enrolled u a₀ ∧ a₀.role = a.role := by
  induction hb generalizing a with
  | nil => cases ha
  | @cons h b p v hb hv ih =>
    have later : ∀ c, b.accounts u = some c → c.role = a.role →
        ∃ x ∈ (p, v) :: h, ∃ a₀, x.2 = Event.enrolled u a₀ ∧ a₀.role = a.role := by
      intro c hc hr
      obtain ⟨x, hx, a₀, hev, hr'⟩ := ih hc
      exact ⟨x, List.mem_cons_of_mem _ hx, a₀, hev, hr'.trans hr⟩
    cases v with
    | enrolled w c =>
      rcases setAccount_cases ha with ⟨rfl, rfl⟩ | ⟨-, ha⟩
      · exact ⟨_, List.mem_cons_self, a, rfl, rfl⟩
      · exact later a ha rfl
    | moved w e f =>
      obtain ⟨c, hc⟩ := Option.ne_none_iff_exists'.mp hv.1
      have ha : ((Event.moved w e f).apply b).accounts u = some a := ha
      rw [apply_moved hc] at ha
      rcases setAccount_cases ha with ⟨rfl, rfl⟩ | ⟨-, ha⟩
      · exact later c hc rfl
      · exact later a ha rfl
    | opened k i w => exact later a ha rfl
    | idle => exact later a ha rfl

end

end Marketplace.Accounts
