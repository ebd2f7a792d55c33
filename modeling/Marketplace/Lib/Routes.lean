import Mathlib.Data.List.Basic

/-!
# Tables of routes

A router takes the first route of its table that a request fits, and a filter in front of it the first
of its own table.  What the filter does on the way to a handler is then a matter of two tables, and of
no request in particular.

* `Pattern.fits`, `Route.fits`   a path fits a pattern, a request fits a route;
* `covers`, `apart`, `hides`     whatever fits the one fits the other; nothing fits both; whatever fits
                                 two routes fits a third;
* `certain`                      the entry of a table that is the first for whatever fits a route, and
                                 none of some others, if the patterns alone decide it;
* `find_of_certain`              and so it is;
* `find_of_agreed`               what has been checked of each entry of one table and of the entry of
                                 the other that is certain for it holds of what the two find.
-/

set_option linter.unusedSectionVars false

namespace Routes

/-- a segment of a pattern: as it stands, any one, or all that follow -/
inductive Segment where
  | lit (s : String)
  | var
  | rest
  deriving DecidableEq, Repr

abbrev Pattern := List Segment

/-! ## patterns -/

namespace Pattern

def fits : Pattern → List String → Bool
  | [], [] => true
  | .rest :: _, _ => true
  | .lit s :: ps, t :: ts => s == t && fits ps ts
  | .var :: ps, _ :: ts => fits ps ts
  | _, _ => false

/-- whatever fits the second fits the first -/
def covers : Pattern → Pattern → Bool
  | [], [] => true
  | .rest :: _, _ => true
  | .lit s :: ps, .lit t :: qs => s == t && covers ps qs
  | .var :: ps, .lit _ :: qs => covers ps qs
  | .var :: ps, .var :: qs => covers ps qs
  | _, _ => false

/-- nothing fits both -/
def apart : Pattern → Pattern → Bool
  | .lit s :: ps, .lit t :: qs => s != t || apart ps qs
  | .lit _ :: ps, .var :: qs => apart ps qs
  | .var :: ps, .lit _ :: qs => apart ps qs
  | .var :: ps, .var :: qs => apart ps qs
  | .lit _ :: _, [] => true
  | .var :: _, [] => true
  | [], .lit _ :: _ => true
  | [], .var :: _ => true
  | _, _ => false

@[simp] theorem fits_nil (path : List String) : fits [] path = true ↔ path = [] := by
  cases path <;> simp [fits]

@[simp] theorem fits_lit (s t : String) (ps : Pattern) (ts : List String) :
    fits (.lit s :: ps) (t :: ts) = true ↔ s = t ∧ fits ps ts = true := by
  rw [fits, Bool.and_eq_true, beq_iff_eq]

@[simp] theorem fits_var (t : String) (ps : Pattern) (ts : List String) :
    fits (.var :: ps) (t :: ts) = fits ps ts := rfl

theorem head_of_fits {p : Pattern} {s : String} {path : List String} (hp : p.head? = some (.lit s))
    (h : fits p path = true) : path.head? = some s := by
  cases p with
  | nil => cases hp
  | cons c ps =>
    cases Option.some.inj hp
    cases path with
    | nil => cases h
    | cons t ts => rw [((fits_lit s t ps ts).mp h).1, List.head?_cons]

theorem fits_of_covers {p q : Pattern} {path : List String} (hc : covers p q = true)
    (hq : fits q path = true) : fits p path = true := by
  fun_induction covers p q generalizing path with
  | case1 => exact hq
  | case2 => cases path <;> rfl
  | case3 s ps t qs ih =>
    cases path with
    | nil => cases hq
    | cons a as =>
      rw [Bool.and_eq_true, beq_iff_eq] at hc
      rw [fits_lit] at hq ⊢
      exact ⟨hc.1.trans hq.1, ih hc.2 hq.2⟩
  | case4 ps t qs ih =>
    cases path with
    | nil => cases hq
    | cons a as => exact ih hc ((fits_lit t a qs as).mp hq).2
  | case5 ps qs ih =>
    cases path with
    | nil => cases hq
    | cons a as => exact ih hc hq
  | case6 => cases hc

theorem not_fits_of_apart {p q : Pattern} {path : List String} (ha : apart p q = true)
    (hq : fits q path = true) : fits p path = false := by
  fun_induction apart p q generalizing path with
  | case1 s ps t qs ih =>
    cases path with
    | nil => cases hq
    | cons a as =>
      obtain ⟨rfl, hqs⟩ := (fits_lit t a qs as).mp hq
      rw [Bool.or_eq_true, bne_iff_ne] at ha
      rw [fits, Bool.and_eq_false_iff, beq_eq_false_iff_ne]
      exact ha.imp id fun h => ih h hqs
  | case2 s ps qs ih =>
    cases path with
    | nil => cases hq
    | cons a as =>
      rw [fits, Bool.and_eq_false_iff]
      exact .inr (ih ha hq)
  | case3 ps t qs ih =>
    cases path with
    | nil => cases hq
    | cons a as => exact ih ha ((fits_lit t a qs as).mp hq).2
  | case4 ps qs ih =>
    cases path with
    | nil => cases hq
    | cons a as => exact ih ha hq
  | case5 | case6 =>
    rw [fits_nil] at hq
    rw [hq]
    rfl
  | case7 | case8 =>
    cases path with
    | nil => cases hq
    | cons a as => rfl
  | case9 => cases ha

end Pattern

/-! ## routes -/

/-- no method is any method -/
structure Route where
  method : Option String
  pattern : Pattern

namespace Route

def fits (t : Route) (method : String) (path : List String) : Bool :=
  t.method.all (· == method) && t.pattern.fits path

def methodCovers : Option String → Option String → Bool
  | none, _ => true
  | some m, some n => m == n
  | some _, none => false

def covers (t u : Route) : Bool := methodCovers t.method u.method && t.pattern.covers u.pattern

def apart (t u : Route) : Bool := t.pattern.apart u.pattern ||
  (t.method.any fun m => u.method.any (m != ·))

/-- whatever fits the other two fits this one -/
def hides (b t u : Route) : Bool :=
  (methodCovers b.method t.method || methodCovers b.method u.method) &&
    (b.pattern.covers t.pattern || b.pattern.covers u.pattern)

variable {t u b : Route} {method : String} {path : List String}

theorem fits_iff : t.fits method path = true ↔
    (∀ m, t.method = some m → m = method) ∧ t.pattern.fits path = true := by
  unfold fits
  rw [Bool.and_eq_true]
  cases t.method <;> simp

theorem method_of_covers {m n : Option String} (hc : methodCovers m n = true)
    (hn : ∀ k, n = some k → k = method) : ∀ k, m = some k → k = method := by
  intro k hk
  subst hk
  cases n with
  | none => cases hc
  | some l =>
    have hkl : (k == l) = true := hc
    exact (beq_iff_eq.mp hkl).trans (hn l rfl)

theorem fits_of_covers (hc : t.covers u = true) (hu : u.fits method path = true) :
    t.fits method path = true := by
  rw [covers, Bool.and_eq_true] at hc
  rw [fits_iff] at hu ⊢
  exact ⟨method_of_covers hc.1 hu.1, Pattern.fits_of_covers hc.2 hu.2⟩

theorem not_fits_of_apart (ha : t.apart u = true) (hu : u.fits method path = true) :
    t.fits method path = false := by
  rw [fits_iff] at hu
  rw [apart, Bool.or_eq_true] at ha
  cases ha with
  | inl hp => rw [fits, Pattern.not_fits_of_apart hp hu.2, Bool.and_false]
  | inr hm =>
    refine Bool.eq_false_iff.mpr fun ht => ?_
    rw [fits_iff] at ht
    obtain ⟨m, htm, hn⟩ := (Option.any_eq_true _ _).mp hm
    obtain ⟨n, hun, hn⟩ := (Option.any_eq_true _ _).mp hn
    have hmn : m = n := (ht.1 m htm).trans (hu.1 n hun).symm
    exact bne_iff_ne.mp hn hmn

theorem fits_of_hides (hh : b.hides t u = true) (ht : t.fits method path = true)
    (hu : u.fits method path = true) : b.fits method path = true := by
  rw [hides, Bool.and_eq_true, Bool.or_eq_true, Bool.or_eq_true] at hh
  rw [fits_iff] at ht hu ⊢
  refine ⟨?_, ?_⟩
  · cases hh.1 with
    | inl h => exact method_of_covers h ht.1
    | inr h => exact method_of_covers h hu.1
  · cases hh.2 with
    | inl h => exact Pattern.fits_of_covers h ht.2
    | inr h => exact Pattern.fits_of_covers h hu.2

end Route

/-! ## tables -/

section
variable {α β : Type*} (routeOf : α → Route) (ruleOf : β → Route) {method : String}
  {path : List String}

/-- the first entry for whatever fits `q` and none of `before`; `none` where the patterns leave it open -/
def certain (before : List Route) (q : Route) : List β → Option (Option β)
  | [] => some none
  | c :: table =>
    if (ruleOf c).covers q then some (some c)
    else if (ruleOf c).apart q || before.any (·.hides (ruleOf c) q) then certain before q table
    else none

theorem find_of_certain {before : List Route} {q : Route} (hq : q.fits method path = true)
    (hb : ∀ b ∈ before, b.fits method path = false) (table : List β) {e : Option β}
    (h : certain ruleOf before q table = some e) :
    table.find? (fun c => (ruleOf c).fits method path) = e := by
  induction table with
  | nil => exact Option.some.inj h
  | cons c table ih =>
    rw [certain] at h
    split at h
    · next hc => rw [List.find?_cons, Route.fits_of_covers hc hq, Option.some.inj h]
    · split at h
      · next ha =>
        have hno : (ruleOf c).fits method path = false := by
          rw [Bool.or_eq_true] at ha
          cases ha with
          | inl ha => exact Route.not_fits_of_apart ha hq
          | inr ha =>
            obtain ⟨b, hmem, hh⟩ := List.any_eq_true.mp ha
            refine Bool.eq_false_iff.mpr fun hc => ?_
            have hfit := Route.fits_of_hides hh hc hq
            rw [hb b hmem] at hfit
            cases hfit
        rw [List.find?_cons, hno]
        exact ih h
      · cases h

/-- `check` holds of each entry and of what is certain for it -/
def agreed (table : List β) (check : α → Option β → Bool) (before : List Route) : List α → Bool
  | [] => true
  | a :: entries =>
    (certain ruleOf before (routeOf a) table).any (check a) &&
      agreed table check (routeOf a :: before) entries

theorem find_of_agreed {table : List β} {check : α → Option β → Bool} {before : List Route}
    {entries : List α} (h : agreed routeOf ruleOf table check before entries = true)
    (hb : ∀ b ∈ before, b.fits method path = false) {a : α}
    (ha : entries.find? (fun a => (routeOf a).fits method path) = some a) :
    check a (table.find? fun c => (ruleOf c).fits method path) = true := by
  induction entries generalizing before with
  | nil => cases ha
  | cons e entries ih =>
    rw [agreed, Bool.and_eq_true] at h
    rw [List.find?_cons] at ha
    cases hfit : (routeOf e).fits method path with
    | true =>
      rw [hfit] at ha
      obtain ⟨c, hc, hcheck⟩ := (Option.any_eq_true _ _).mp h.1
      rw [find_of_certain ruleOf hfit hb table hc, ← Option.some.inj ha]
      exact hcheck
    | false =>
      rw [hfit] at ha
      refine ih h.2 ?_ ha
      intro b hmem
      rcases List.mem_cons.mp hmem with rfl | hmem
      · exact hfit
      · exact hb b hmem

end

end Routes
