import Mathlib
import Marketplace.Lib.Refine

/-!
# request-service: the board

What the requests are for, without tables, locks or transactions: one board, on which every item that
somebody wants or offers has one entry with the customers who want it.

* `Demand`           an entry: its name, who wants how many of it, and the number of offers;
* `Event`            what happens to the board, one event at a time;
* `board key`        the machine: when an event may happen, and what it does;
* `Sound`            names differ in their keys, customers are listed once, no number is negative;
                     **every history keeps this**;
* `history_arrivals`   a customer is on an entry iff the arrivals exceed the departures, by one;
* `history_wanted`   what a customer wants is what the last event about it tells.
-/

set_option linter.unusedSectionVars false

namespace Marketplace.Request

open ReadCommitted

/-- an entry of the board; `wants` are the customers in the order in which they came -/
structure Demand (N C : Type) where
  itemName : N
  wants : List (C × Int)
  offers : Int

abbrev Board (R N C : Type) := R → Option (Demand N C)

inductive Event (R N C : Type) where
  | opened (r : R) (n : N) (first : Option (C × Int))
  | found (r : R) (n : N)
  | joined (r : R) (c : C) (quantity : Int)
  | changed (r : R) (c : C) (quantity : Int)
  | left (r : R) (c : C)
  | counted (r : R) (offers : Int)

namespace Demand
variable {N C : Type} [DecidableEq C]

def customers (x : Demand N C) : List C := x.wants.map Prod.fst

def join (x : Demand N C) (c : C) (quantity : Int) : Demand N C :=
  { x with wants := x.wants ++ [(c, quantity)] }

def change (x : Demand N C) (c : C) (quantity : Int) : Demand N C :=
  { x with wants := x.wants.map fun w => if w.1 = c then (w.1, quantity) else w }

def leave (x : Demand N C) (c : C) : Demand N C :=
  { x with wants := x.wants.filter fun w => !(w.1 = c) }

def totalCustomers (x : Demand N C) : Int := x.wants.length

def totalQuantity (x : Demand N C) : Int := (x.wants.map Prod.snd).sum

theorem customers_join (x : Demand N C) (c : C) (q : Int) :
    (x.join c q).customers = x.customers ++ [c] := List.map_append

theorem customers_change (x : Demand N C) (c : C) (q : Int) :
    (x.change c q).customers = x.customers := by
  unfold customers change
  rw [List.map_map]
  refine List.map_congr_left fun w _ => ?_
  show (if w.1 = c then (w.1, q) else w).1 = w.1
  split <;> rfl

theorem customers_leave (x : Demand N C) (c : C) :
    (x.leave c).customers = x.customers.filter fun k => !(k = c) := by
  unfold customers
  rw [List.filter_map]
  rfl

end Demand

section
variable {R N C K : Type} [DecidableEq R] [DecidableEq C] (key : N → K)

/-- no entry goes by a name with this key -/
def Unlisted (n : N) (b : Board R N C) : Prop := ∀ r x, b r = some x → key x.itemName ≠ key n

/-- the entry that an event is about -/
def Event.entry : Event R N C → R
  | .opened r _ _ => r
  | .found r _ => r
  | .joined r _ _ => r
  | .changed r _ _ => r
  | .left r _ => r
  | .counted r _ => r

/-- the name that an event lists -/
def Event.lists : Event R N C → Option N
  | .opened _ n _ => some n
  | _ => none

/-- what the entry has to be like for an event -/
def Event.Fits : Event R N C → Option (Demand N C) → Prop
  | .opened _ _ first, x => x = none ∧ ∀ w ∈ first, 0 < w.2
  | .found _ n, x => ∃ y, x = some y ∧ key y.itemName = key n
  | .joined _ c q, x => (∃ y, x = some y ∧ c ∉ y.customers) ∧ 0 < q
  | .changed _ c q, x => (∃ y, x = some y ∧ c ∈ y.customers) ∧ 0 < q
  | .left _ c, x => ∃ y, x = some y ∧ c ∈ y.customers
  | .counted _ n, x => (∃ y, x = some y) ∧ 0 ≤ n

/-- when an event may happen -/
structure Event.Allowed (v : Event R N C) (b : Board R N C) : Prop where
  fits : v.Fits key (b v.entry)
  unlisted : ∀ n, v.lists = some n → Unlisted key n b

/-- what an event makes of its entry -/
def Event.effect : Event R N C → Option (Demand N C) → Option (Demand N C)
  | .opened _ n first, _ => some ⟨n, first.toList, 0⟩
  | .found _ _, x => x
  | .joined _ c q, x => x.map fun x => x.join c q
  | .changed _ c q, x => x.map fun x => x.change c q
  | .left _ c, x => x.map fun x => x.leave c
  | .counted _ n, x => x.map fun x => { x with offers := n }

def Event.apply (v : Event R N C) (b : Board R N C) : Board R N C :=
  Function.update b v.entry (v.effect (b v.entry))

/-- the machine: at first nothing is listed -/
def board : Abstract (Board R N C) (Event R N C) where
  init _ := none
  allows := Event.Allowed key
  apply := Event.apply

theorem apply_entry (v : Event R N C) (b : Board R N C) :
    v.apply b v.entry = v.effect (b v.entry) := Function.update_self ..

theorem apply_other {v : Event R N C} {r : R} (h : r ≠ v.entry) (b : Board R N C) :
    v.apply b r = b r := Function.update_of_ne h ..

/-! ## what every event keeps -/

/-- an entry as it should be -/
structure Demand.Sound (x : Demand N C) : Prop where
  once : x.customers.Nodup
  positive : ∀ w ∈ x.wants, 0 < w.2
  offers : 0 ≤ x.offers

structure Sound (b : Board R N C) : Prop where
  entries : ∀ r x, b r = some x → x.Sound
  keys : ∀ r s x y, b r = some x → b s = some y → key x.itemName = key y.itemName → r = s

variable {key}

theorem Demand.Sound.join {x : Demand N C} (h : x.Sound) {c : C} {q : Int} (hc : c ∉ x.customers)
    (hq : 0 < q) : (x.join c q).Sound := by
  refine ⟨?_, fun w hw => ?_, h.offers⟩
  · rw [Demand.customers_join]
    refine List.nodup_append.mpr ⟨h.once, List.nodup_singleton c, fun a ha k hk e => hc ?_⟩
    rw [← List.mem_singleton.mp hk, ← e]
    exact ha
  · rcases List.mem_append.mp hw with hw | hw
    · exact h.positive w hw
    · rw [List.mem_singleton.mp hw]
      exact hq

theorem Demand.Sound.change {x : Demand N C} (h : x.Sound) {c : C} {q : Int} (hq : 0 < q) :
    (x.change c q).Sound := by
  refine ⟨?_, fun w hw => ?_, h.offers⟩
  · rw [Demand.customers_change]
    exact h.once
  · obtain ⟨v, hv, rfl⟩ := List.mem_map.mp hw
    split
    · exact hq
    · exact h.positive v hv

theorem Demand.Sound.leave {x : Demand N C} (h : x.Sound) (c : C) : (x.leave c).Sound := by
  refine ⟨?_, fun w hw => h.positive w (List.mem_filter.mp hw).1, h.offers⟩
  rw [Demand.customers_leave]
  exact h.once.filter _

/-- the entry after an event: a new one, or the one there was under the same name -/
theorem effect_cases {v : Event R N C} {b : Board R N C} (hv : v.Allowed key b) {y : Demand N C}
    (hy : v.effect (b v.entry) = some y) :
    (b v.entry = none ∧ Unlisted key y.itemName b ∧ ∃ w, y = ⟨y.itemName, w, 0⟩) ∨
    ∃ x, b v.entry = some x ∧ y.itemName = x.itemName := by
  have mapped : ∀ {f : Demand N C → Demand N C}, (∀ x, (f x).itemName = x.itemName) →
      (b v.entry).map f = some y → ∃ x, b v.entry = some x ∧ y.itemName = x.itemName := by
    intro f hf h
    obtain ⟨x, hx, rfl⟩ := Option.map_eq_some_iff.mp h
    exact ⟨x, hx, hf x⟩
  cases v with
  | opened r n first =>
    obtain rfl := Option.some.inj hy
    exact .inl ⟨hv.fits.1, hv.unlisted n rfl, _, rfl⟩
  | found r n => exact .inr ⟨y, hy, rfl⟩
  | joined r c q => exact .inr (mapped (f := fun x => x.join c q) (fun _ => rfl) hy)
  | changed r c q => exact .inr (mapped (f := fun x => x.change c q) (fun _ => rfl) hy)
  | left r c => exact .inr (mapped (f := fun x => x.leave c) (fun _ => rfl) hy)
  | counted r n => exact .inr (mapped (f := fun x => { x with offers := n }) (fun _ => rfl) hy)

/-- an entry stays, under its name -/
theorem apply_lasting {v : Event R N C} {b : Board R N C} (hv : v.Allowed key b) {r : R}
    {x : Demand N C} (hx : b r = some x) :
    ∃ y, v.apply b r = some y ∧ y.itemName = x.itemName := by
  by_cases e : r = v.entry
  swap
  · exact ⟨x, (apply_other e b).trans hx, rfl⟩
  subst e
  rw [apply_entry, hx]
  cases v with
  | opened r n first =>
    have hnone : b r = none := hv.fits.1
    cases hnone.symm.trans hx
  | found r n => exact ⟨x, rfl, rfl⟩
  | joined r c q => exact ⟨_, rfl, rfl⟩
  | changed r c q => exact ⟨_, rfl, rfl⟩
  | left r c => exact ⟨_, rfl, rfl⟩
  | counted r n => exact ⟨_, rfl, rfl⟩

/-- an event leaves a sound entry -/
theorem effect_sound {v : Event R N C} {b : Board R N C} (h : Sound key b) (hv : v.Allowed key b)
    {y : Demand N C} (hy : v.effect (b v.entry) = some y) : y.Sound := by
  cases v with
  | opened r n first =>
    obtain rfl := Option.some.inj hy
    cases first with
    | none => exact ⟨List.nodup_nil, fun w hw => absurd hw List.not_mem_nil, Int.le_refl 0⟩
    | some w =>
      refine ⟨List.nodup_singleton w.1, fun k hk => ?_, Int.le_refl 0⟩
      rw [List.mem_singleton.mp hk]
      exact hv.fits.2 w rfl
  | found r n => exact h.entries r y hy
  | joined r c q =>
    obtain ⟨x, hx, rfl⟩ := Option.map_eq_some_iff.mp hy
    obtain ⟨⟨x', hx', hc⟩, hq⟩ := hv.fits
    obtain rfl := Option.some.inj (hx'.symm.trans hx)
    exact (h.entries r x' hx).join hc hq
  | changed r c q =>
    obtain ⟨x, hx, rfl⟩ := Option.map_eq_some_iff.mp hy
    exact (h.entries r x hx).change hv.fits.2
  | left r c =>
    obtain ⟨x, hx, rfl⟩ := Option.map_eq_some_iff.mp hy
    exact (h.entries r x hx).leave c
  | counted r n =>
    obtain ⟨x, hx, rfl⟩ := Option.map_eq_some_iff.mp hy
    have hs := h.entries r x hx
    exact ⟨hs.once, hs.positive, hv.fits.2⟩

/-- the name of an entry stays, and nobody else has its key -/
theorem effect_key {v : Event R N C} {b : Board R N C} (h : Sound key b) (hv : v.Allowed key b)
    {y : Demand N C} (hy : v.effect (b v.entry) = some y) {s : R} {z : Demand N C}
    (hz : b s = some z) (hk : key y.itemName = key z.itemName) : v.entry = s := by
  rcases effect_cases hv hy with ⟨-, hu, -⟩ | ⟨x, hx, hn⟩
  · exact absurd hk.symm (hu s z hz)
  · exact h.keys _ _ x z hx hz (hn ▸ hk)

/-- **what is sound stays sound** -/
theorem Sound.apply {v : Event R N C} {b : Board R N C} (h : Sound key b) (hv : v.Allowed key b) :
    Sound key (v.apply b) := by
  constructor
  · intro r x hx
    by_cases e : r = v.entry
    · subst e
      rw [apply_entry] at hx
      exact effect_sound h hv hx
    · rw [apply_other e] at hx
      exact h.entries r x hx
  · intro r s x y hx hy hk
    by_cases er : r = v.entry
    · by_cases es : s = v.entry
      · exact er.trans es.symm
      · subst er
        rw [apply_entry] at hx
        rw [apply_other es] at hy
        exact effect_key h hv hx hy hk
    · rw [apply_other er] at hx
      by_cases es : s = v.entry
      · subst es
        rw [apply_entry] at hy
        exact (effect_key h hv hy hx hk.symm).symm
      · rw [apply_other es] at hy
        exact h.keys r s x y hx hy hk

variable {P : Type} {h : List (P × Event R N C)} {b : Board R N C}

theorem sound_init : Sound key (board (R := R) (C := C) key).init := by
  constructor
  · intro r x hx
    cases hx
  · intro r s x y hx
    cases hx

/-- **every history leaves a sound board** -/
theorem history_sound (hb : History (board key) h b) : Sound key b :=
  hb.invariant sound_init fun _ _ hs hv => hs.apply hv

/-! ## what the events add up to -/

/-- the customers on an entry; on one that is not there, nobody -/
def Board.customers (b : Board R N C) (r : R) : List C := (b r).elim [] Demand.customers

/-- how often a customer is on an entry -/
def Board.times (b : Board R N C) (r : R) (c : C) : Int := (b.customers r).count c

theorem customers_some {b : Board R N C} {r : R} {x : Demand N C} (h : b r = some x) :
    b.customers r = x.customers := by
  unfold Board.customers
  rw [h]
  rfl

theorem customers_none {b : Board R N C} {r : R} (h : b r = none) : b.customers r = [] := by
  unfold Board.customers
  rw [h]
  rfl

/-- the arrivals of a customer at an entry, less the departures -/
def Event.arrival (r : R) (c : C) : Event R N C → Int
  | .opened s _ (some w) => if s = r ∧ w.1 = c then 1 else 0
  | .joined s k _ => if s = r ∧ k = c then 1 else 0
  | .left s k => if s = r ∧ k = c then -1 else 0
  | _ => 0

theorem arrival_other {v : Event R N C} {r : R} (hr : r ≠ v.entry) (c : C) : v.arrival r c = 0 := by
  have hne : ∀ {s k}, v.entry = s → ¬(s = r ∧ k = c) := fun e h => hr (h.1.symm.trans e.symm)
  cases v with
  | opened s n first =>
    cases first with
    | none => rfl
    | some w => exact if_neg (hne rfl)
  | found s n => rfl
  | joined s k q => exact if_neg (hne rfl)
  | changed s k q => rfl
  | left s k => exact if_neg (hne rfl)
  | counted s n => rfl

/-- an event changes the number of times by what it says -/
theorem times_apply {v : Event R N C} {b : Board R N C} (hs : Sound key b) (hv : v.Allowed key b)
    (r : R) (c : C) : (v.apply b).times r c = b.times r c + v.arrival r c := by
  by_cases hr : r = v.entry
  swap
  · have hother : (v.apply b).customers r = b.customers r := by
      unfold Board.customers
      rw [apply_other hr]
    rw [arrival_other hr, Int.add_zero, Board.times, hother, Board.times]
  subst hr
  have hcount : ∀ {y : Demand N C}, v.effect (b v.entry) = some y →
      (v.apply b).times v.entry c = y.customers.count c := by
    intro y hy
    rw [Board.times, customers_some ((apply_entry v b).trans hy)]
  have hbefore : ∀ {x : Demand N C}, b v.entry = some x →
      b.times v.entry c = x.customers.count c := by
    intro x hx
    rw [Board.times, customers_some hx]
  cases v with
  | opened s n first =>
    have hnone : b.times s c = 0 := by
      rw [Board.times, customers_none (show b s = none from hv.fits.1)]
      rfl
    refine (hcount rfl).trans ?_
    show _ = b.times s c + _
    rw [hnone, Int.zero_add]
    cases first with
    | none => rfl
    | some w =>
      show (([w.1].count c : Nat) : Int) = if s = s ∧ w.1 = c then 1 else 0
      by_cases e : w.1 = c <;> simp [e]
  | found s n =>
    obtain ⟨x, hx, -⟩ := hv.fits
    rw [hcount hx, hbefore hx]
    exact (Int.add_zero _).symm
  | joined s k q =>
    obtain ⟨⟨x, hx, -⟩, -⟩ := hv.fits
    rw [hcount (congrArg (Option.map _) hx), hbefore hx, Demand.customers_join, List.count_append]
    show _ = _ + if s = s ∧ k = c then (1 : Int) else 0
    by_cases e : k = c <;> simp [e]
  | changed s k q =>
    obtain ⟨⟨x, hx, -⟩, -⟩ := hv.fits
    rw [hcount (congrArg (Option.map _) hx), hbefore hx, Demand.customers_change]
    exact (Int.add_zero _).symm
  | left s k =>
    obtain ⟨x, hx, hk⟩ := hv.fits
    have honce := (hs.entries s x hx).once
    rw [hcount (congrArg (Option.map _) hx), hbefore hx, Demand.customers_leave]
    show _ = _ + if s = s ∧ k = c then (-1 : Int) else 0
    by_cases e : k = c
    · subst e
      rw [List.count_eq_one_of_mem honce hk, List.count_eq_zero_of_not_mem (by simp)]
      simp
    · rw [List.count_filter (by simpa using fun e' : c = k => e e'.symm)]
      simp [e]
  | counted s n =>
    obtain ⟨⟨x, hx⟩, -⟩ := hv.fits
    rw [hcount (congrArg (Option.map _) hx), hbefore hx]
    exact (Int.add_zero _).symm

/-- **what the arrivals and departures add up to** -/
theorem history_times (hb : History (board key) h b) (r : R) (c : C) :
    b.times r c = (h.map fun x => x.2.arrival r c).sum :=
  hb.sum (f := fun b => b.times r c) (g := Event.arrival r c) sound_init
    (fun _ _ hs hv => hs.apply hv) rfl fun _ _ hs hv => times_apply hs hv r c

/-- a customer is on an entry iff the arrivals exceed the departures, and then by one -/
theorem history_arrivals (hb : History (board key) h b) (r : R) (c : C) :
    (h.map fun x => x.2.arrival r c).sum = if c ∈ b.customers r then 1 else 0 := by
  rw [← history_times hb]
  unfold Board.times
  by_cases hc : c ∈ b.customers r
  · have honce : (b.customers r).Nodup := by
      unfold Board.customers at hc ⊢
      cases hr : b r with
      | none => exact List.nodup_nil
      | some x => exact ((history_sound hb).entries r x hr).once
    rw [List.count_eq_one_of_mem honce hc, if_pos hc]
    rfl
  · rw [List.count_eq_zero_of_not_mem hc, if_neg hc]
    rfl

/-! ## what the last event decides -/

/-- how many of an entry the customer wants -/
def Demand.wanted (x : Demand N C) (c : C) : Option Int :=
  (x.wants.find? fun w => w.1 = c).map Prod.snd

def Board.wanted (b : Board R N C) (r : R) (c : C) : Option Int := (b r).bind fun x => x.wanted c

/-- what an event says of the quantity of a customer; `some none` is that nothing is wanted -/
def Event.tells (r : R) (c : C) : Event R N C → Option (Option Int)
  | .opened s _ (some w) => if s = r ∧ w.1 = c then some (some w.2) else none
  | .joined s k q => if s = r ∧ k = c then some (some q) else none
  | .changed s k q => if s = r ∧ k = c then some (some q) else none
  | .left s k => if s = r ∧ k = c then some none else none
  | _ => none

theorem wanted_none_iff (x : Demand N C) (c : C) : x.wanted c = none ↔ c ∉ x.customers := by
  unfold Demand.wanted Demand.customers
  simp only [Option.map_eq_none_iff, List.find?_eq_none, decide_eq_true_eq, List.mem_map, not_exists,
    not_and]

theorem wanted_join {x : Demand N C} {k : C} (hk : k ∉ x.customers) (q : Int) (c : C) :
    (x.join k q).wanted c = if k = c then some q else x.wanted c := by
  have hx := (wanted_none_iff x k).mpr hk
  unfold Demand.wanted at hx ⊢
  show ((x.wants ++ [(k, q)]).find? _).map _ = _
  rw [List.find?_append]
  by_cases e : k = c
  · subst e
    rw [Option.map_eq_none_iff.mp hx, if_pos rfl]
    simp
  · rw [if_neg e]
    simp [e]

theorem wanted_change {x : Demand N C} {k : C} (hk : k ∈ x.customers) (q : Int) (c : C) :
    (x.change k q).wanted c = if k = c then some q else x.wanted c := by
  have hsame : (fun w : C × Int => decide ((if w.1 = k then (w.1, q) else w).1 = c)) =
      fun w => decide (w.1 = c) := by
    funext w
    by_cases e : w.1 = k <;> simp [e]
  unfold Demand.wanted
  show ((x.wants.map _).find? _).map _ = _
  rw [List.find?_map, Option.map_map]
  show (x.wants.find? fun w => decide ((if w.1 = k then (w.1, q) else w).1 = c)).map _ = _
  rw [hsame]
  by_cases e : k = c
  · subst e
    obtain ⟨w, hw, rfl⟩ := List.mem_map.mp hk
    obtain ⟨v, hv⟩ := Option.isSome_iff_exists.mp
      (List.find?_isSome (p := fun v : C × Int => decide (v.1 = w.1)) |>.mpr ⟨w, hw, by simp⟩)
    have hvk : v.1 = w.1 := by simpa using List.find?_some hv
    rw [hv, if_pos rfl]
    simp [hvk]
  · rw [if_neg e]
    cases hf : x.wants.find? fun w => decide (w.1 = c) with
    | none => rfl
    | some v =>
      have hvc : v.1 = c := by simpa using List.find?_some hf
      have hne : v.1 ≠ k := fun h => e (h.symm.trans hvc)
      simp [hne]

theorem wanted_leave (x : Demand N C) (k c : C) :
    (x.leave k).wanted c = if k = c then none else x.wanted c := by
  by_cases e : k = c
  · subst e
    rw [if_pos rfl, wanted_none_iff, Demand.customers_leave]
    simp
  · rw [if_neg e]
    unfold Demand.wanted
    show ((x.wants.filter _).find? _).map _ = _
    rw [List.find?_filter]
    congr 2
    funext w
    by_cases hw : w.1 = c
    · simp [hw, Ne.symm e]
    · simp [hw]

theorem wanted_none {b : Board R N C} (r : R) (c : C) :
    b.wanted r c = none ↔ c ∉ b.customers r := by
  unfold Board.wanted Board.customers
  cases b r with
  | none => simp
  | some x => exact wanted_none_iff x c

/-- an event leaves the quantity that it says, or the one there was -/
theorem wanted_apply {v : Event R N C} {b : Board R N C} (hv : v.Allowed key b) (r : R) (c : C) :
    (v.apply b).wanted r c = (v.tells r c).getD (b.wanted r c) := by
  by_cases hr : r = v.entry
  swap
  · have htells : v.tells r c = none := by
      have hne : ∀ {s k}, v.entry = s → ¬(s = r ∧ k = c) := fun e h => hr (h.1.symm.trans e.symm)
      cases v with
      | opened s n first =>
        cases first with
        | none => rfl
        | some w => exact if_neg (hne rfl)
      | found s n => rfl
      | joined s k q => exact if_neg (hne rfl)
      | changed s k q => exact if_neg (hne rfl)
      | left s k => exact if_neg (hne rfl)
      | counted s n => rfl
    rw [htells, Board.wanted, apply_other hr]
    rfl
  subst hr
  have hafter : ∀ {y : Demand N C}, v.effect (b v.entry) = some y →
      (v.apply b).wanted v.entry c = y.wanted c := by
    intro y hy
    rw [Board.wanted, (apply_entry v b).trans hy]
    rfl
  have hbefore : ∀ {x : Demand N C}, b v.entry = some x → b.wanted v.entry c = x.wanted c := by
    intro x hx
    rw [Board.wanted, hx]
    rfl
  have hif : ∀ (k : C) (s : R) (q old : Option Int), (if k = c then q else old) =
      (if s = s ∧ k = c then some q else none).getD old := by
    intro k s q old
    by_cases e : k = c <;> simp [e]
  cases v with
  | opened s n first =>
    have hnone : b.wanted s c = none := by
      rw [Board.wanted, show b s = none from hv.fits.1]
      rfl
    refine (hafter rfl).trans ?_
    cases first with
    | none => exact hnone.symm
    | some w =>
      show Demand.wanted ⟨n, [w], 0⟩ c = (if s = s ∧ w.1 = c then some (some w.2) else none).getD _
      rw [← hif, show b.wanted (Event.opened s n (some w)).entry c = none from hnone]
      unfold Demand.wanted
      by_cases e : w.1 = c <;> simp [e]
  | found s n =>
    obtain ⟨x, hx, -⟩ := hv.fits
    rw [hafter hx, hbefore hx]
    rfl
  | joined s k q =>
    obtain ⟨⟨x, hx, hk⟩, -⟩ := hv.fits
    rw [hafter (congrArg (Option.map _) hx), hbefore hx, wanted_join hk]
    exact hif k s (some q) _
  | changed s k q =>
    obtain ⟨⟨x, hx, hk⟩, -⟩ := hv.fits
    rw [hafter (congrArg (Option.map _) hx), hbefore hx, wanted_change hk]
    exact hif k s (some q) _
  | left s k =>
    obtain ⟨x, hx, hk⟩ := hv.fits
    rw [hafter (congrArg (Option.map _) hx), hbefore hx, wanted_leave]
    exact hif k s none _
  | counted s n =>
    obtain ⟨⟨x, hx⟩, -⟩ := hv.fits
    rw [hafter (congrArg (Option.map _) hx), hbefore hx]
    rfl

/-- **the quantity is the one that was said last** -/
theorem history_wanted (hb : History (board key) h b) (r : R) (c : C) :
    b.wanted r c = (h.findSome? fun x => x.2.tells r c).getD none :=
  hb.last (f := fun b => b.wanted r c) (g := Event.tells r c) fun _ _ hv => wanted_apply hv r c

end

end Marketplace.Request
