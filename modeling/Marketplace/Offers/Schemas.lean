import Marketplace.Lib.Decimal
import Marketplace.Offers.Service

/-!
# offer-service: the bodies of an offer, `schemas.py`

Pydantic checks the fields in their order; the first error is the one that is answered.

* `RequestedItem.validate`, `OfferCreate.validate`, `OfferUpdate.validate`   the checks.  What
                     `str.upper` makes of a currency is a parameter;
* `validate_terms`   what a body that passes is like.
-/

set_option linter.unusedSectionVars false

namespace Marketplace.Offers

/-- the field, and what is wrong with it; the field is empty for the body as a whole -/
structure FieldError where
  loc : String
  msg : String
  deriving DecidableEq, Repr

/-- a field that has to meet a condition -/
def check (loc msg : String) (ok : Bool) : Except FieldError Unit :=
  if ok then .ok () else .error ⟨loc, msg⟩

/-- `max_length`, in code points -/
def checkMaxLength (loc : String) (n : Nat) (s : String) : Except FieldError Unit :=
  check loc ("String should have at most " ++ toString n ++ " characters") (s.length ≤ n)

/-! ## an item -/

structure RequestedItem where
  itemName : String
  description : String
  category : String
  deriving DecidableEq, Repr

/-- the length is looked at before the name is trimmed -/
def RequestedItem.checkItemName (itemName : String) : Except FieldError String := do
  checkMaxLength "itemName" 200 itemName
  check "itemName" "Value error, must not be blank" (strip itemName != "")
  return strip itemName

def RequestedItem.validate (item : RequestedItem) : Except FieldError RequestedItem := do
  let itemName ← checkItemName item.itemName
  checkMaxLength "description" 2000 item.description
  checkMaxLength "category" 100 item.category
  return ⟨itemName, strip item.description, strip item.category⟩

/-! ## the terms of an offer -/

/-- the fields that a body to create and one to update have in common -/
structure OfferTerms where
  availableQuantity : Int
  pricePerUnit : Decimal
  currency : String
  description : String
  deriving DecidableEq, Repr

/-- `CURRENCY_PATTERN`, over the whole text -/
def currencyPattern (s : String) : Bool :=
  s.toList.length = 3 && s.toList.all fun c => 'A' ≤ c && c ≤ 'Z'

/-- `max_digits=12, decimal_places=2`, and `gt=0` -/
def checkPrice (d : Decimal) : Except FieldError Unit := do
  check "pricePerUnit" "Decimal input should have no more than 12 digits in total"
    (d.wholeDigits + d.places ≤ 12)
  check "pricePerUnit" "Decimal input should have no more than 2 decimal places" (d.places ≤ 2)
  check "pricePerUnit" "Decimal input should have no more than 10 digits before the decimal point"
    (d.wholeDigits ≤ 10)
  check "pricePerUnit" "Input should be greater than 0" (0 < d.coefficient)

/-- the currency is put in upper case first -/
def OfferTerms.validate (upper : String → String) (t : OfferTerms) :
    Except FieldError OfferTerms := do
  check "availableQuantity" "Input should be greater than 0" (0 < t.availableQuantity)
  checkPrice t.pricePerUnit
  check "currency" "String should match pattern '^[A-Z]\x7b3\x7d$'" (currencyPattern (upper t.currency))
  checkMaxLength "description" 2000 t.description
  return { t with currency := upper t.currency }

structure OfferCreate where
  requestID : Option UUID
  item : Option RequestedItem
  terms : OfferTerms
  deriving DecidableEq, Repr

/-- the item, if there is one -/
def OfferCreate.validateItem (payload : OfferCreate) :
    Except FieldError (Option RequestedItem) :=
  match payload.item with
  | none => .ok none
  | some item => some <$> item.validate

def OfferCreate.validate (upper : String → String) (payload : OfferCreate) :
    Except FieldError OfferCreate := do
  let item ← payload.validateItem
  let terms ← payload.terms.validate upper
  -- `one_way_of_naming_the_demand`
  check "" ("Value error, Name the demand this offer answers: either requestId, for a request " ++
    "that already exists, or item, for a product no request carries yet - " ++
    "one of the two, not both") (payload.requestID.isNone != item.isNone)
  return ⟨payload.requestID, item, terms⟩

structure OfferUpdate where
  terms : OfferTerms
  deriving DecidableEq, Repr

def OfferUpdate.validate (upper : String → String) (payload : OfferUpdate) :
    Except FieldError OfferUpdate := do
  return ⟨← payload.terms.validate upper⟩

/-! ## what passes -/

theorem check_ok {loc msg : String} {ok : Bool} : check loc msg ok = .ok () ↔ ok = true := by
  unfold check
  split
  · rename_i h
    exact iff_of_true rfl h
  · rename_i h
    exact iff_of_false nofun h

theorem bind_ok {α β : Type} {m : Except FieldError α} {f : α → Except FieldError β} {b : β} :
    m >>= f = .ok b ↔ ∃ a, m = .ok a ∧ f a = .ok b := by
  cases m with
  | error e => exact iff_of_false nofun (by rintro ⟨a, ha, -⟩; cases ha)
  | ok a =>
    constructor
    · exact fun h => ⟨a, rfl, h⟩
    · rintro ⟨a', ha, h⟩
      cases ha
      exact h

/-- a sequence of checks -/
theorem check_bind_ok {β : Type} {loc msg : String} {ok : Bool} {m : Except FieldError β} {b : β} :
    (check loc msg ok >>= fun _ => m) = .ok b ↔ ok = true ∧ m = .ok b := by
  rw [bind_ok]
  constructor
  · rintro ⟨u, hu, hm⟩
    exact ⟨check_ok.mp hu, hm⟩
  · rintro ⟨h, hm⟩
    exact ⟨(), check_ok.mpr h, hm⟩

theorem itemName_ok {itemName name : String} :
    RequestedItem.checkItemName itemName = .ok name ↔
      itemName.length ≤ 200 ∧ strip itemName ≠ "" ∧ strip itemName = name := by
  unfold RequestedItem.checkItemName checkMaxLength
  rw [check_bind_ok, check_bind_ok, decide_eq_true_eq, bne_iff_ne]
  constructor
  · rintro ⟨hl, hs, hn⟩
    cases hn
    exact ⟨hl, hs, rfl⟩
  · rintro ⟨hl, hs, rfl⟩
    exact ⟨hl, hs, rfl⟩

theorem item_validate_ok {item item' : RequestedItem} (h : item.validate = .ok item') :
    RequestedItem.checkItemName item.itemName = .ok item'.itemName := by
  unfold RequestedItem.validate checkMaxLength at h
  obtain ⟨name, hname, h⟩ := bind_ok.mp h
  rw [check_bind_ok, check_bind_ok] at h
  obtain ⟨-, -, h⟩ := h
  cases h
  exact hname

/-- terms that pass -/
structure OfferTerms.Valid (t : OfferTerms) : Prop where
  quantity : 0 < t.availableQuantity
  places : t.pricePerUnit.places ≤ 2
  wholeDigits : t.pricePerUnit.wholeDigits ≤ 10
  price : 0 < t.pricePerUnit.coefficient
  currency : currencyPattern t.currency = true
  description : t.description.length ≤ 2000

theorem terms_validate_ok {upper : String → String} {t t' : OfferTerms}
    (h : t.validate upper = .ok t') : t'.Valid ∧ t' = { t with currency := upper t.currency } := by
  unfold OfferTerms.validate checkPrice checkMaxLength at h
  simp only [bind_assoc] at h
  simp only [check_bind_ok, decide_eq_true_eq] at h
  obtain ⟨hq, -, hp, hw, hc, hcur, hd, h⟩ := h
  cases h
  exact ⟨⟨hq, hp, hw, hc, hcur, hd⟩, rfl⟩

theorem create_validate_ok {upper : String → String} {payload payload' : OfferCreate}
    (h : payload.validate upper = .ok payload') :
    payload.terms.validate upper = .ok payload'.terms := by
  unfold OfferCreate.validate at h
  obtain ⟨item, -, h⟩ := bind_ok.mp h
  obtain ⟨terms, hterms, h⟩ := bind_ok.mp h
  obtain ⟨-, h⟩ := check_bind_ok.mp h
  cases h
  exact hterms

theorem update_validate_ok {upper : String → String} {payload payload' : OfferUpdate}
    (h : payload.validate upper = .ok payload') :
    payload.terms.validate upper = .ok payload'.terms := by
  unfold OfferUpdate.validate at h
  obtain ⟨terms, hterms, h⟩ := bind_ok.mp h
  cases h
  exact hterms

end Marketplace.Offers
