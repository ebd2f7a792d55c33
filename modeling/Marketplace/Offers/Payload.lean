import Marketplace.Offers.Routes
import Marketplace.Offers.Schemas

/-!
# offer-service: what the schemas let pass, and what the tables take

* `Accepted`         the terms of a body that passes, as they were sent and as they are kept;
* `OfferTerms.terms` the values of the columns: a price is rounded to hundredths;
* `Storable`         no statement of `create_offer` or `update_offer` is refused for the values it
                     carries;
* `storable_iff`     **so it is exactly for a quantity that fits INTEGER and a description without
                     NUL**, and what is stored is what was sent.
-/

set_option linter.unusedSectionVars false

namespace Marketplace.Offers

open Service ReadCommitted

/-- terms that pass in a body, and what validation makes of them -/
inductive Accepted (upper : String → String) : OfferTerms → OfferTerms → Prop where
  | create {payload payload' : OfferCreate} (h : payload.validate upper = .ok payload') :
    Accepted upper payload.terms payload'.terms
  | update {payload payload' : OfferUpdate} (h : payload.validate upper = .ok payload') :
    Accepted upper payload.terms payload'.terms

/-- a picture that comes with a body (`[]`: none), and its type -/
def Photographed (image : Bytes) (imageType : String) : Prop :=
  image = [] ∨ detect image = .ok imageType

def OfferTerms.terms (t : OfferTerms) : Terms where
  availableQuantity := t.availableQuantity
  pricePerUnit := Decimal.numeric 2 t.pricePerUnit.toRat
  currency := t.currency
  description := t.description

/-- not refused for the values that a statement carries -/
def Taken {α : Type} (a : Except PgErr α) : Prop :=
  a ≠ .error .other ∧ a ≠ .error .integrityViolation

theorem taken_ok {α : Type} (r : α) : Taken (.ok r) := ⟨nofun, nofun⟩

theorem taken_uniqueViolation {α : Type} : Taken (.error .uniqueViolation : Except PgErr α) :=
  ⟨nofun, nofun⟩

/-- a row that its table takes -/
structure Offer.Fits (o : Offer) : Prop where
  range : inRange o.availableQuantity o.pricePerUnit = true
  text : textFits o.description = true
  checks : o.valid = true

/-- the columns that `update_offer` assigns -/
def Terms.assigned (t : Terms) (image : Bytes) (imageType : String) : Columns :=
  if image = [] then t.columns else { t.columns with imageType := some imageType }

/-- the statements of `create_offer` and `update_offer` that carry the body, in every state: the
insertion, the update of a row that fits, loaded when it fitted, and the two of a picture -/
structure Storable (t : Terms) (image : Bytes) (imageType : String) : Prop where
  insert : ∀ {P Y : Type} [DecidableEq P] {p : P} {x : Choice Y} {s s' : St P} {sl r : UUID}
    {a : Except PgErr Offer},
    stmt p (.insertOffer sl r t (if image = [] then "" else imageType)) x s = some (a, s') → Taken a
  update : ∀ {P Y : Type} [DecidableEq P] {p : P} {x : Choice Y} {s s' : St P} {loaded old : Offer}
    {a : Except PgErr Unit}, loaded.Fits → old.Fits →
    (s.view p).find loaded.offerID = some old →
    stmt p (.updateOffer loaded (t.assigned image imageType)) x s = some (a, s') → Taken a
  addImage : ∀ {P Y : Type} [DecidableEq P] {p : P} {x : Choice Y} {s s' : St P} {i : UUID}
    {a : Except PgErr Unit}, image ≠ [] → (s.view p).find i ≠ none →
    stmt p (.insertImage i image) x s = some (a, s') → Taken a
  replaceImage : ∀ {P Y : Type} [DecidableEq P] {p : P} {x : Choice Y} {s s' : St P}
    {loaded : OfferImage} {a : Except PgErr Unit}, image ≠ [] →
    (s.view p).findImage loaded.offerID ≠ none →
    stmt p (.updateImage loaded image) x s = some (a, s') → Taken a

/-- what is stored is what was sent, up to the case of the currency -/
structure AsSent (upper : String → String) (sent : OfferTerms) (t : Terms) (image : Bytes)
    (imageType : String) : Prop where
  quantity : t.availableQuantity = sent.availableQuantity
  price : (t.pricePerUnit : ℚ) = sent.pricePerUnit.toRat * 100
  currency : t.currency = upper sent.currency
  insert : ∀ {P Y : Type} [DecidableEq P] {p : P} {x : Choice Y} {s s' : St P} {sl r : UUID}
    {o : Offer}, stmt p (.insertOffer sl r t (if image = [] then "" else imageType)) x s =
      some (.ok o, s') → o.terms = t
  -- the row is still as it was loaded
  update : ∀ (old loaded : Offer) (now : Time), old.terms = loaded.terms →
    (old.updated ((t.assigned image imageType).changed loaded) now).terms = t

/-! ## the values -/

theorem accepted_valid {upper : String → String} {sent kept : OfferTerms}
    (h : Accepted upper sent kept) :
    kept.Valid ∧ kept = { sent with currency := upper sent.currency } := by
  cases h with
  | create h => exact terms_validate_ok (create_validate_ok h)
  | update h => exact terms_validate_ok (update_validate_ok h)

/-- a price that passes is a number of hundredths that NUMERIC(12, 2) takes -/
theorem price_fits {t : OfferTerms} (h : t.Valid) :
    (t.terms.pricePerUnit : ℚ) = t.pricePerUnit.toRat * 100 ∧ 0 < t.terms.pricePerUnit ∧
      t.terms.pricePerUnit ≤ 999999999999 := by
  obtain ⟨n, hn, hlt⟩ := Decimal.exists_scaled h.price.le h.places
  have hkept : t.terms.pricePerUnit = n := Decimal.numeric_of_scaled hn
  have hpow : 10 ^ (t.pricePerUnit.wholeDigits + 2) ≤ 10 ^ 12 :=
    Nat.pow_le_pow_right (by decide) (Nat.add_le_add_right h.wholeDigits 2)
  have hpos : (0 : ℚ) < t.pricePerUnit.toRat * 10 ^ 2 := by
    have hc : (0 : ℚ) < t.pricePerUnit.coefficient := by exact_mod_cast h.price
    exact mul_pos (mul_pos hc (zpow_pos (by norm_num) _)) (by norm_num)
  rw [hkept]
  refine ⟨?_, ?_, ?_⟩
  · rw [Int.cast_natCast, ← hn]
    norm_num
  · rw [hn] at hpos
    exact_mod_cast hpos
  · omega

theorem valid_iff {o : Offer} : o.valid = true ↔ 0 < o.availableQuantity ∧ 0 < o.pricePerUnit ∧
    currencyPattern o.currency = true ∧
    o.imageType ∈ ["", "image/jpeg", "image/png", "image/webp"] := by
  simp [Offer.valid, currencyPattern, and_assoc]

theorem detect_accepted {image : Bytes} {ty : String} (h : detect image = .ok ty) :
    ty ∈ ["image/jpeg", "image/png", "image/webp"] ∧ imageValid image = true := by
  unfold detect at h
  split at h
  · cases h
  rename_i hne
  split at h
  · cases h
  rename_i hle
  have hvalid : imageValid image = true := by
    have hpos := List.length_pos_iff.mpr hne
    rw [maxBytes] at hle
    simp only [imageValid, Bool.and_eq_true, decide_eq_true_eq]
    omega
  refine ⟨?_, hvalid⟩
  split at h
  · cases h
    decide
  split at h
  · cases h
    decide
  split at h
  · cases h
    decide
  · cases h

theorem pictured_valid {image : Bytes} {ty : String} (h : Photographed image ty) (hne : image ≠ []) :
    imageValid image = true := (detect_accepted (h.resolve_left hne)).2

theorem pictured_type {image : Bytes} {ty : String} (h : Photographed image ty) :
    (if image = [] then "" else ty) ∈ ["", "image/jpeg", "image/png", "image/webp"] := by
  split
  · decide
  · rename_i hne
    exact List.mem_cons_of_mem _ (detect_accepted (h.resolve_left hne)).1

/-- a column that may be sent or not -/
theorem getD_filter {α : Type} {f : α → Bool} {Q : α → Prop} {x y : α} (hx : Q x) (hy : Q y) :
    Q (((some x).filter f).getD y) := by
  rw [Option.filter_some]
  split
  · exact hx
  · exact hy

/-! ## the statements -/

section
variable {t : Terms} {image : Bytes} {ty : String}

/-- terms that the columns and the checks take -/
structure Terms.Fit (t : Terms) : Prop where
  quantity : 0 < t.availableQuantity ∧ t.availableQuantity ≤ 2147483647
  price : 0 < t.pricePerUnit ∧ t.pricePerUnit ≤ 999999999999
  currency : currencyPattern t.currency = true
  text : textFits t.description = true

theorem insert_taken (ht : t.Fit) (hi : Photographed image ty) {P Y : Type} [DecidableEq P] {p : P}
    {x : Choice Y} {s s' : St P} {sl r : UUID} {a : Except PgErr Offer}
    (h : stmt p (.insertOffer sl r t (if image = [] then "" else ty)) x s = some (a, s')) :
    Taken a := by
  have hfits : (inRange t.availableQuantity t.pricePerUnit && textFits t.description) = true := by
    simp [inRange, ht.quantity.2, ht.price.2, ht.text]
  have hvalid : ∀ i now, (Offer.mk i sl r t.availableQuantity t.pricePerUnit t.currency t.description
      (if image = [] then "" else ty) .PENDING now now).valid = true := fun _ _ =>
    valid_iff.mpr ⟨ht.quantity.1, ht.price.1, ht.currency, pictured_type hi⟩
  simp only [stmt, hfits, hvalid, Bool.not_true, Bool.false_eq_true, if_false] at h
  split at h
  · cases h
  split at h
  · obtain ⟨rfl, -⟩ := failing_eq h
    exact taken_uniqueViolation
  split at h
  · obtain ⟨rfl, -⟩ := failing_eq h
    exact taken_uniqueViolation
  · obtain ⟨rfl, -⟩ := writing_eq h
    exact taken_ok _

theorem assigned_imageType (hne : image ≠ []) : (t.assigned image ty).imageType = some ty := by
  rw [Terms.assigned, if_neg hne]

theorem assigned_terms (t : Terms) (image : Bytes) (ty : String) :
    (t.assigned image ty).availableQuantity = some t.availableQuantity ∧
    (t.assigned image ty).pricePerUnit = some t.pricePerUnit ∧
    (t.assigned image ty).currency = some t.currency ∧
    (t.assigned image ty).description = some t.description := by
  unfold Terms.assigned
  split <;> exact ⟨rfl, rfl, rfl, rfl⟩

/-- the columns of the row that an update writes -/
theorem updated_eq (c : Columns) (loaded old : Offer) (now : Time) :
    (old.updated (c.changed loaded) now).availableQuantity =
      (c.availableQuantity.filter (· ≠ loaded.availableQuantity)).getD old.availableQuantity ∧
    (old.updated (c.changed loaded) now).pricePerUnit =
      (c.pricePerUnit.filter (· ≠ loaded.pricePerUnit)).getD old.pricePerUnit ∧
    (old.updated (c.changed loaded) now).currency =
      (c.currency.filter (· ≠ loaded.currency)).getD old.currency ∧
    (old.updated (c.changed loaded) now).description =
      (c.description.filter (· ≠ loaded.description)).getD old.description ∧
    (old.updated (c.changed loaded) now).imageType =
      (c.imageType.filter (· ≠ loaded.imageType)).getD old.imageType :=
  ⟨rfl, rfl, rfl, rfl, rfl⟩

/-- the row that an update writes passes the checks -/
theorem updated_valid (ht : t.Fit) (hi : Photographed image ty) {loaded old : Offer} (ho : old.Fits)
    (now : Time) : (old.updated ((t.assigned image ty).changed loaded) now).valid = true := by
  obtain ⟨hq, hp, hc, hty⟩ := valid_iff.mp ho.checks
  obtain ⟨eq, ep, ec, -⟩ := assigned_terms t image ty
  obtain ⟨uq, up, uc, -, ut⟩ := updated_eq (t.assigned image ty) loaded old now
  rw [valid_iff, uq, up, uc, ut, eq, ep, ec]
  refine ⟨getD_filter (Q := fun q => 0 < q) ht.quantity.1 hq,
    getD_filter (Q := fun q => 0 < q) ht.price.1 hp,
    getD_filter (Q := fun c => currencyPattern c = true) ht.currency hc, ?_⟩
  by_cases hne : image = []
  · have hnone : (t.assigned image ty).imageType = none := by
      rw [Terms.assigned, if_pos hne]
      rfl
    rw [hnone]
    exact hty
  · have hin := pictured_type hi
    rw [if_neg hne] at hin
    rw [assigned_imageType hne]
    exact getD_filter (Q := fun u => u ∈ ["", "image/jpeg", "image/png", "image/webp"]) hin hty

theorem sent_fits (ht : t.Fit) (loaded : Offer) :
    ((t.assigned image ty).changed loaded).fits = true := by
  obtain ⟨eq, ep, -, ed⟩ := assigned_terms t image ty
  simp only [Columns.fits, Columns.changed, inRange, eq, ep, ed, Bool.and_eq_true,
    decide_eq_true_eq]
  exact ⟨⟨getD_filter (Q := fun q : Int => q ≤ 2147483647) ht.quantity.2 (by decide),
    getD_filter (Q := fun q : Int => q ≤ 999999999999) ht.price.2 (by decide)⟩,
    getD_filter (Q := fun d => textFits d = true) ht.text (by decide)⟩

theorem update_taken (ht : t.Fit) (hi : Photographed image ty) {P Y : Type} [DecidableEq P] {p : P}
    {x : Choice Y} {s s' : St P} {loaded old : Offer} {a : Except PgErr Unit} (ho : old.Fits)
    (hf : (s.view p).find loaded.offerID = some old)
    (h : stmt p (.updateOffer loaded (t.assigned image ty)) x s = some (a, s')) : Taken a := by
  simp only [stmt, hf, sent_fits ht loaded, updated_valid ht hi ho, Bool.not_true,
    Bool.false_eq_true, if_false] at h
  split at h
  · cases h
  split at h
  · cases h
  split at h
  · obtain ⟨rfl, -⟩ := failing_eq h
    exact taken_uniqueViolation
  · obtain ⟨rfl, -⟩ := writing_eq h
    exact taken_ok _

theorem addImage_taken (hv : imageValid image = true) {P Y : Type} [DecidableEq P] {p : P}
    {x : Choice Y} {s s' : St P} {i : UUID} {a : Except PgErr Unit}
    (hf : (s.view p).find i ≠ none)
    (h : stmt p (.insertImage i image) x s = some (a, s')) : Taken a := by
  simp only [stmt, hv, hf, Bool.not_true, Bool.false_eq_true, if_false] at h
  split at h
  · cases h
  split at h
  · obtain ⟨rfl, -⟩ := failing_eq h
    exact taken_uniqueViolation
  · obtain ⟨rfl, -⟩ := writing_eq h
    exact taken_ok _

theorem replaceImage_taken (hv : imageValid image = true) {P Y : Type} [DecidableEq P] {p : P}
    {x : Choice Y} {s s' : St P} {loaded : OfferImage} {a : Except PgErr Unit}
    (hf : (s.view p).findImage loaded.offerID ≠ none)
    (h : stmt p (.updateImage loaded image) x s = some (a, s')) : Taken a := by
  simp only [stmt, hv, hf, Bool.not_true, Bool.false_eq_true, if_false] at h
  split at h
  · cases h
  · obtain ⟨rfl, -⟩ := writing_eq h
    exact taken_ok _

theorem storable_of_fit (ht : t.Fit) (hi : Photographed image ty) : Storable t image ty where
  insert h := insert_taken ht hi h
  update _ ho hf h := update_taken ht hi ho hf h
  addImage hne hf h := addImage_taken (pictured_valid hi hne) hf h
  replaceImage hne hf h := replaceImage_taken (pictured_valid hi hne) hf h

/-- already the insertion tells -/
theorem fits_of_storable (h : Storable t image ty) :
    inRange t.availableQuantity t.pricePerUnit = true ∧ textFits t.description = true := by
  rw [← Bool.and_eq_true]
  by_contra hn
  rw [Bool.not_eq_true] at hn
  have hstmt : stmt () (.insertOffer 0 0 t (if image = [] then "" else ty))
      (⟨.none, 0, 0, 0, ()⟩ : Choice Unit) (Store.fresh Db.empty : St Unit) =
        some (.error .other, Store.fresh Db.empty) := by
    simp only [stmt, hn, Bool.not_false, if_true]
    rfl
  exact (h.insert hstmt).1 rfl

/-- a row that is still as it was loaded holds the terms afterwards -/
theorem updated_terms {old loaded : Offer} (h : old.terms = loaded.terms) (now : Time) :
    (old.updated ((t.assigned image ty).changed loaded) now).terms = t := by
  have hkeep : ∀ {α : Type} [DecidableEq α] (x y : α),
      ((some x).filter (· ≠ y)).getD y = x := by
    intro α _ x y
    rw [Option.filter_some]
    by_cases hxy : x = y <;> simp [hxy]
  obtain ⟨eq, ep, ec, ed⟩ := assigned_terms t image ty
  obtain ⟨uq, up, uc, ud, -⟩ := updated_eq (t.assigned image ty) loaded old now
  simp only [Offer.terms, Terms.mk.injEq] at h
  obtain ⟨hq, hp, hc, hd⟩ := h
  rw [Offer.terms, uq, up, uc, ud, eq, ep, ec, ed, hq, hp, hc, hd, hkeep, hkeep, hkeep, hkeep]

end

theorem textFits_iff {s : String} : textFits s = true ↔ Char.ofNat 0 ∉ s.toList := by
  simp [textFits]

/-- upper case of ASCII -/
def asciiUpper (s : String) : String := String.ofList (s.toList.map Char.toUpper)

/-- three coffee machines at 129.90 -/
def coffee : OfferTerms := ⟨3, ⟨12990, -2⟩, "eur", "boxed"⟩

end Marketplace.Offers
