import Marketplace.Offers.Bodies
import Marketplace.Request.Httpx
import Marketplace.Request.Media

/-!
# The two body readers

`httpx.DecodeJSONOrMultipart` of request-service and `bodies.json_or_multipart` of offer-service: what
they read of the same request, before the fields are looked at.

* `goRead`, `pyRead`   the JSON text and the picture, or nothing;
* `goText`, `pyText`   what each takes for the payload of a form;
* `OneText`, `NoText`   a text that is one JSON value to both, or to neither;
* `Alike`            when they read the same, by the body and by what each makes of the content type;
* `readers_agree_iff`   **so it is exactly then**;
* `readers_differ`   something behind the value, and the case of a media type.
-/

namespace Marketplace.System.BodyReaders

open JsonText Request.Httpx Offers.Bodies

variable (forms : Forms) (S : Starlette) (recursion : Nat)

/-- what request-service reads -/
def goRead (r : Incoming) : Option (Bytes × Bytes) :=
  (decodeJSONOrMultipart some forms Request.Media.maxBytes r).toOption

/-- what offer-service reads -/
def pyRead (r : Incoming) : Option (Bytes × Bytes) :=
  (jsonOrMultipart S some recursion r).toOption

/-! ## where they look -/

/-- the first value of a text -/
def first (text : Bytes) : Option Bytes :=
  match value decoder text with
  | .ok (v, _) => some v
  | .error _ => none

/-- the payload, in a form that is read: the first value, of the query or else of the form -/
def goText (query : Option (List (String × Bytes))) (parts : List Part) : Option Bytes :=
  match query, forms (Request.Media.maxBytes + 1048576) parts with
  | some query, true => some (formValue query parts "payload")
  | _, _ => none

/-- the first file -/
def goImage (parts : List Part) : Bytes :=
  ((formFile parts "image").getD []).take (Request.Media.maxBytes + 1)

def lastPart (parts : List Part) (key : String) : Option Part := parts.reverse.find? (·.name == key)

/-- the payload, in a form that is read: the last part, if it is no file -/
def pyText (contentType : String) (parts : List Part) : Option Bytes :=
  if S.isForm contentType && S.takes parts then
    match lastPart parts "payload" with
    | some p => if p.filename.isSome then none else some (S.str contentType p.content)
    | none => none
  else none

/-- the last part, if it is a file -/
def pyImage (parts : List Part) : Bytes :=
  match lastPart parts "image" with
  | some p => if p.filename.isSome then p.content.take (Offers.maxBytes + 1) else []
  | none => []

/-- one JSON value and white space, within the limits of both -/
def OneText (text : Bytes) : Prop :=
  ∃ v rest, value (both decoder (reader recursion)) text = .ok (v, rest) ∧ rest.all space = true

/-- no JSON value at the beginning, and no JSON text to Python -/
def NoText (text : Bytes) : Prop := first text = none ∧ loads recursion text = none

/-- a body in UTF-8 is one JSON value that ends within its first MiB, or nothing to either; in another
encoding Go finds the value that Python does, or neither finds one -/
def PlainAlike (bytes : Bytes) : Prop :=
  if Codec.detectEncoding bytes = .utf8 ∧ Codec.utf8Valid true bytes then
    (∃ v rest, value (both decoder (reader recursion)) bytes = .ok (v, rest) ∧
        rest.all space = true ∧ (bytes.takeWhile space).length + v.length ≤ 1048576) ∨
      first (bytes.take 1048576) = none ∧ loads recursion bytes = none
  else first (bytes.take 1048576) = loadsBytes recursion bytes

/-- of a form, the payloads and the pictures -/
def FormAlike (r : Incoming) (parts : List Part) : Prop :=
  match goText forms r.query parts, pyText S r.contentType parts with
  | none, none => True
  | none, some str => loads recursion str = none
  | some text, none => first text = none
  | some text, some str =>
    if str = text then OneText recursion text ∧ goImage parts = pyImage parts ∨ NoText recursion text
    else
      (∃ v, first text = some v ∧ loads recursion str = some v ∧ goImage parts = pyImage parts) ∨
        first text = none ∧ loads recursion str = none

/-- the two read alike: where only one of them takes the body for what it is, that one refuses it too -/
def Alike (r : Incoming) : Prop :=
  match r.body, isMultipart r.contentType, startsMultipart r.contentType with
  | .plain bytes, false, false => PlainAlike recursion bytes
  | .plain bytes, false, true => first (bytes.take 1048576) = none
  | .plain bytes, true, false => loadsBytes recursion bytes = none
  | .plain _, true, true => True
  | .form _, false, false => True
  | .form parts, true, false => (goText forms r.query parts).bind first = none
  | .form parts, false, true => (pyText S r.contentType parts).bind (loads recursion) = none
  | .form parts, true, true => FormAlike forms S recursion r parts

/-! ## what they read -/

theorem first_eq_some {text v : Bytes} : first text = some v ↔ ∃ rest, value decoder text = .ok (v, rest) := by
  unfold first
  split
  · rename_i v' rest h
    constructor
    · intro he
      cases he
      exact ⟨rest, h⟩
    · rintro ⟨rest', h'⟩
      rw [h] at h'
      cases h'
      rfl
  · rename_i e h
    refine iff_of_false nofun ?_
    rintro ⟨rest, h'⟩
    rw [h] at h'
    cases h'

theorem first_nil : first [] = none := rfl

theorem loads_nil : loads recursion [] = none := rfl

/-- a value that both find -/
theorem same_value {text : Bytes} : (∃ v, first text = some v ∧ loads recursion text = some v) ↔
    OneText recursion text := by
  constructor
  · rintro ⟨v, hgo, hpy⟩
    obtain ⟨rest, hgo⟩ := first_eq_some.mp hgo
    obtain ⟨rest', hpy, hrest⟩ := whole_eq_some.mp hpy
    have hsame : rest' = rest := by
      have h := (scan_append hgo).trans (scan_append hpy).symm
      exact (List.append_cancel_left h).symm
    subst hsame
    exact ⟨v, rest', scan_both.mpr ⟨hgo, hpy⟩, hrest⟩
  · rintro ⟨v, rest, h, hrest⟩
    obtain ⟨hgo, hpy⟩ := scan_both.mp h
    exact ⟨v, first_eq_some.mpr ⟨rest, hgo⟩, whole_eq_some.mpr ⟨rest, hpy, hrest⟩⟩

theorem decoder_ends : Ends decoder := both_ends strict_ends (nesting_ends 10000)

/-- a value that Go finds in the beginning, and Python in all of it -/
theorem same_value_take {text : Bytes} {n : Nat} :
    (∃ v, first (text.take n) = some v ∧ loads recursion text = some v) ↔
      ∃ v rest, value (both decoder (reader recursion)) text = .ok (v, rest) ∧
        rest.all space = true ∧ (text.takeWhile space).length + v.length ≤ n := by
  constructor
  · rintro ⟨v, hgo, hpy⟩
    obtain ⟨rest, hpy, hrest⟩ := whole_eq_some.mp hpy
    obtain ⟨h, hlen⟩ := (value_take_iff decoder_ends).mp ⟨first_eq_some.mp hgo, hpy⟩
    exact ⟨v, rest, h, hrest, hlen⟩
  · rintro ⟨v, rest, h, hrest, hlen⟩
    obtain ⟨hgo, hpy⟩ := (value_take_iff decoder_ends).mpr ⟨h, hlen⟩
    exact ⟨v, first_eq_some.mpr hgo, whole_eq_some.mpr ⟨rest, hpy, hrest⟩⟩

/-- nothing, or the same thing -/
theorem eq_iff_same {α : Type} {a b : Option α} :
    a = b ↔ (∃ v, a = some v ∧ b = some v) ∨ a = none ∧ b = none := by
  cases a <;> cases b <;> simp [eq_comm]

theorem goRead_eq (r : Incoming) :
    goRead forms r =
      match r.body, isMultipart r.contentType with
      | .plain bytes, false => (first (bytes.take 1048576)).map fun v => (v, [])
      | .form parts, true => ((goText forms r.query parts).bind first).map fun v => (v, goImage parts)
      | _, _ => none := by
  unfold goRead decodeJSONOrMultipart
  cases isMultipart r.contentType with
  | false =>
    cases hbody : r.body with
    | form parts => rfl
    | plain bytes =>
      simp only [decodeJSON, first, Bool.false_eq_true, if_false]
      split
      · rename_i h
        rw [h]
        rfl
      · rename_i h
        rw [h]
        split <;> rfl
      · rename_i h
        rw [h]
        rfl
  | true =>
    cases hbody : r.body with
    | plain bytes => rfl
    | form parts =>
      simp only [if_true, decodeForm, goText]
      cases r.query with
      | none => rfl
      | some query =>
        cases forms (Request.Media.maxBytes + 1048576) parts with
        | false => rfl
        | true =>
          show _ = Option.map _ (first (formValue query parts "payload"))
          by_cases hp : formValue query parts "payload" = []
          · simp only [if_pos hp]
            rw [hp, first_nil]
            rfl
          · simp only [if_neg hp]
            unfold first
            cases value decoder (formValue query parts "payload") with
            | error e => rfl
            | ok x =>
              unfold goImage
              cases formFile parts "image" <;> rfl

theorem formGet_map (contentType : String) (parts : List Part) (key : String) :
    formGet (parts.map (S.item contentType)) key =
      (lastPart parts key).map fun p => (S.item contentType p).2 := by
  unfold formGet lastPart
  rw [← List.map_reverse, List.find?_map, Option.map_map]
  rfl

theorem loadsBytes_nil : loadsBytes recursion [] = none := rfl

theorem formBody_toOption (form : List (String × FormValue)) :
    (formBody some recursion form).toOption =
      match formGet form "payload" with
      | some (.str payload) => (loads recursion payload).map fun v =>
          (v, match formGet form "image" with
            | some (.upload content) => content.take (Offers.maxBytes + 1)
            | _ => [])
      | _ => none := by
  unfold formBody
  cases formGet form "payload" with
  | none => rfl
  | some x =>
    cases x with
    | upload content => rfl
    | str payload =>
      cases payload with
      | nil =>
        show none = (loads recursion []).map _
        rw [loads_nil]
        rfl
      | cons c payload =>
        dsimp only
        cases loads recursion (c :: payload) with
        | none => rfl
        | some parsed =>
          cases formGet form "image" with
          | none => rfl
          | some y => cases y <;> rfl

theorem pyRead_eq (r : Incoming) :
    pyRead S recursion r =
      match r.body, startsMultipart r.contentType with
      | .plain bytes, false => (loadsBytes recursion bytes).map fun v => (v, [])
      | .form parts, true =>
        ((pyText S r.contentType parts).bind (loads recursion)).map fun v => (v, pyImage parts)
      | _, _ => none := by
  unfold pyRead jsonOrMultipart
  cases startsMultipart r.contentType with
  | false =>
    cases hbody : r.body with
    | form parts => rfl
    | plain bytes =>
      simp only [plainBody, Bool.false_eq_true, if_false]
      by_cases hb : bytes = []
      · rw [if_pos hb, hb, loadsBytes_nil]
        rfl
      · rw [if_neg hb]
        cases loadsBytes recursion bytes <;> rfl
  | true =>
    simp only [if_true, Starlette.formData, pyText]
    cases S.isForm r.contentType with
    | false => cases r.body <;> rfl
    | true =>
      cases hbody : r.body with
      | plain bytes => rfl
      | form parts =>
        simp only [if_true, Bool.true_and]
        cases S.takes parts with
        | false => rfl
        | true =>
          show (formBody some recursion (parts.map (S.item r.contentType))).toOption = _
          rw [formBody_toOption, formGet_map, formGet_map]
          have himage : (match (lastPart parts "image").map fun p => (S.item r.contentType p).2 with
              | some (.upload content) => content.take (Offers.maxBytes + 1)
              | _ => []) = pyImage parts := by
            unfold pyImage
            cases lastPart parts "image" with
            | none => rfl
            | some p =>
              obtain ⟨name, filename, content⟩ := p
              cases filename <;> rfl
          rw [himage]
          cases lastPart parts "payload" with
          | none => rfl
          | some p =>
            obtain ⟨name, filename, content⟩ := p
            cases filename <;> rfl

/-! ## when they read the same -/

theorem plainAlike_iff {bytes : Bytes} :
    first (bytes.take 1048576) = loadsBytes recursion bytes ↔ PlainAlike recursion bytes := by
  unfold PlainAlike
  split
  · rename_i hutf8
    have hdecode : loadsBytes recursion bytes = loads recursion bytes := by
      unfold loadsBytes Codec.decode
      rw [hutf8.1]
      simp only [hutf8.2, if_true]
      rfl
    rw [hdecode, eq_iff_same, same_value_take]
  · rfl

theorem map_eq_map {α β : Type} {a b : Option α} {x y : β} :
    a.map (fun v => (v, x)) = b.map (fun v => (v, y)) ↔
      (∃ v, a = some v ∧ b = some v ∧ x = y) ∨ a = none ∧ b = none := by
  cases a <;> cases b <;> simp [eq_comm]

theorem formAlike_iff {r : Incoming} {parts : List Part} :
    ((goText forms r.query parts).bind first).map (fun v => (v, goImage parts)) =
        ((pyText S r.contentType parts).bind (loads recursion)).map (fun v => (v, pyImage parts)) ↔
      FormAlike forms S recursion r parts := by
  unfold FormAlike
  cases goText forms r.query parts with
  | none =>
    cases pyText S r.contentType parts with
    | none => exact iff_of_true rfl trivial
    | some str =>
      show none = (loads recursion str).map _ ↔ _
      rw [eq_comm, Option.map_eq_none_iff]
  | some text =>
    cases pyText S r.contentType parts with
    | none =>
      show (first text).map _ = none ↔ _
      rw [Option.map_eq_none_iff]
    | some str =>
      show (first text).map _ = (loads recursion str).map _ ↔ _
      rw [map_eq_map]
      dsimp only
      split
      · rename_i he
        subst he
        rw [← same_value]
        constructor
        · rintro (⟨v, hgo, hpy, himage⟩ | hno)
          · exact .inl ⟨⟨v, hgo, hpy⟩, himage⟩
          · exact .inr hno
        · rintro (⟨⟨v, hgo, hpy⟩, himage⟩ | hno)
          · exact .inl ⟨v, hgo, hpy, himage⟩
          · exact .inr hno
      · rfl

/-- the parts of the form that the frontend sends -/
def frontendParts (payload : Bytes) (image : Option Bytes) : List Part :=
  ⟨"payload", none, payload⟩ :: image.toList.map fun bytes => ⟨"image", some "image", bytes⟩

/-- such a form is alike, where it is read and the text is taken as it is -/
theorem frontend_formAlike {r : Incoming} {payload : Bytes} {image : Option Bytes}
    (hquery : r.query = some []) (hone : OneText recursion payload)
    (hgo : forms (Request.Media.maxBytes + 1048576) (frontendParts payload image) = true)
    (hpy : S.isForm r.contentType = true ∧ S.takes (frontendParts payload image) = true)
    (hstr : S.str r.contentType payload = payload) :
    FormAlike forms S recursion r (frontendParts payload image) := by
  have htext : goText forms r.query (frontendParts payload image) = some payload := by
    unfold goText
    rw [hquery, hgo]
    cases image <;> rfl
  have hstr : pyText S r.contentType (frontendParts payload image) = some payload := by
    unfold pyText
    have hlast : lastPart (frontendParts payload image) "payload" =
        some ⟨"payload", none, payload⟩ := by
      cases image <;> rfl
    rw [hpy.1, hpy.2, hlast]
    exact congrArg some hstr
  have himage : goImage (frontendParts payload image) = pyImage (frontendParts payload image) := by
    cases image <;> rfl
  unfold FormAlike
  rw [htext, hstr]
  exact (if_pos rfl).mpr (.inl ⟨hone, himage⟩)

/-- **The two body readers are one contract, exactly where a request is alike to both**: where the two
take the content type for the same, a plain body is one JSON text with nothing behind it, in a form the
query adds no payload and one part has each name, and so on.  For every request, whatever the limits of
the two readers of forms. -/
theorem readers_agree_iff (r : Incoming) :
    goRead forms r = pyRead S recursion r ↔ Alike forms S recursion r := by
  rw [goRead_eq, pyRead_eq]
  unfold Alike
  cases r.body with
  | plain bytes =>
    cases isMultipart r.contentType with
    | false =>
      cases startsMultipart r.contentType with
      | false =>
        show (first (bytes.take 1048576)).map _ = (loadsBytes recursion bytes).map _ ↔
          PlainAlike recursion bytes
        rw [← plainAlike_iff, map_eq_map]
        simp only [and_true]
        exact eq_iff_same.symm
      | true =>
        show (first (bytes.take 1048576)).map _ = none ↔ _
        rw [Option.map_eq_none_iff]
    | true =>
      cases startsMultipart r.contentType with
      | false =>
        show none = (loadsBytes recursion bytes).map _ ↔ _
        rw [eq_comm, Option.map_eq_none_iff]
      | true => exact iff_of_true rfl trivial
  | form parts =>
    cases isMultipart r.contentType with
    | false =>
      cases startsMultipart r.contentType with
      | false => exact iff_of_true rfl trivial
      | true =>
        show none = ((pyText S r.contentType parts).bind (loads recursion)).map _ ↔ _
        rw [eq_comm, Option.map_eq_none_iff]
    | true =>
      cases startsMultipart r.contentType with
      | false =>
        show ((goText forms r.query parts).bind first).map _ = none ↔ _
        rw [Option.map_eq_none_iff]
      | true => exact formAlike_iff forms S recursion

/-- the two that read every form -/
def anyForms : Forms := fun _ _ => true

def plainStarlette : Starlette where
  isForm contentType := "multipart/form-data".toList.isPrefixOf contentType.toList
  takes _ := true
  str _ s := s

/-- `{} {` -/
def trailing : Incoming := ⟨"application/json", some [], .plain [0x7b, 0x7d, 0x20, 0x7b]⟩

/-- the payload `{}` -/
def capitals : Incoming :=
  ⟨"Multipart/Form-Data; boundary=b", some [], .form (frontendParts [0x7b, 0x7d] none)⟩

/-- request-service reads `{}`, offer-service refuses -/
theorem readers_differ :
    goRead anyForms trailing = some ([0x7b, 0x7d], []) ∧ pyRead plainStarlette 1000 trailing = none ∧
      goRead anyForms capitals = some ([0x7b, 0x7d], []) ∧
      pyRead plainStarlette 1000 capitals = none := by
  decide +kernel

end Marketplace.System.BodyReaders
