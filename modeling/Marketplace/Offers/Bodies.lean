import Marketplace.Incoming
import Marketplace.Lib.Codec
import Marketplace.Offers.Routes

/-!
# offer-service: reading a body, `bodies.py`

* `loads`, `loadsBytes`   `json.loads` of a `str` and of `bytes`, down to the text that is the value;
* `Starlette`        what `request.form()` does that is its own: which content types it takes for a
                     form, its limits on the number and the size of the parts, and the `str` that it
                     makes of a text, by the charset of the content type;
* `formData`, `formGet`   the form: the last part of a name counts, and one with a `filename` is a file;
* `jsonOrMultipart`  the body, into what `validate` makes of it, and the picture (`[]`: none).
-/

namespace Marketplace.Offers.Bodies

open JsonText

/-- `json`: the constants are read; `int` converts no more than 4300 digits.  `recursion`: how deep the
reader goes -/
def reader (recursion : Nat) : Dialect := both (intDigits 4300) (nesting recursion)

/-- of a `str`, in UTF-8 -/
def loads (recursion : Nat) (s : Bytes) : Option Bytes := whole (reader recursion) s

def loadsBytes (recursion : Nat) (s : Bytes) : Option Bytes :=
  (Codec.decode (Codec.detectEncoding s) s).bind (loads recursion)

/-! ## `request.form()` -/

structure Starlette where
  isForm : (contentType : String) → Bool
  takes : List Part → Bool
  /-- in UTF-8 -/
  str : (contentType : String) → Bytes → Bytes

inductive FormValue where
  | str (s : Bytes)
  | upload (content : Bytes)
  deriving DecidableEq, Repr

variable (S : Starlette)

def Starlette.item (contentType : String) (p : Part) : String × FormValue :=
  (p.name, if p.filename.isSome then .upload p.content else .str (S.str contentType p.content))

/-- of another content type there is an empty form; `none`: it is refused -/
def Starlette.formData (r : Incoming) : Option (List (String × FormValue)) :=
  if S.isForm r.contentType then
    match r.body with
    | .form parts => if S.takes parts then some (parts.map (S.item r.contentType)) else none
    | .plain _ => none
  else some []

def formGet (form : List (String × FormValue)) (key : String) : Option FormValue :=
  (form.reverse.find? (·.1 == key)).map (·.2)

/-! ## bodies -/

inductive Refusal where
  | badBody (message : String)
  /-- by Starlette -/
  | httpException
  /-- of the fields -/
  | requestValidationError
  deriving DecidableEq, Repr

/-- `content_type.startswith("multipart/form-data")` -/
def startsMultipart (contentType : String) : Bool :=
  "multipart/form-data".toList.isPrefixOf contentType.toList

section
variable {α : Type} (validate : Bytes → Option α) (recursion : Nat)

/-- `_validate` -/
def validated (parsed : Bytes) : Except Refusal α :=
  match validate parsed with
  | some model => .ok model
  | none => .error .requestValidationError

def plainBody (body : RawBody) : Except Refusal (α × Bytes) := do
  match body with
  | .form _ => .error (.badBody "Malformed JSON body")
  | .plain raw =>
    if raw = [] then .error (.badBody "Request body is required")
    else
      match loadsBytes recursion raw with
      | none => .error (.badBody "Malformed JSON body")
      | some parsed => return (← validated validate parsed, [])

def formBody (form : List (String × FormValue)) : Except Refusal (α × Bytes) := do
  match formGet form "payload" with
  | some (.str (c :: payload)) =>
    match loads recursion (c :: payload) with
    | none => .error (.badBody "Invalid JSON in the payload part")
    | some parsed => do
      let model ← validated validate parsed
      match formGet form "image" with
      | some (.upload content) => return (model, content.take (maxBytes + 1))
      | _ => return (model, [])
  | _ => .error (.badBody "Multipart body needs a \"payload\" part carrying the JSON fields")

def jsonOrMultipart (r : Incoming) : Except Refusal (α × Bytes) :=
  if startsMultipart r.contentType then
    match S.formData r with
    | none => .error .httpException
    | some form => formBody validate recursion form
  else plainBody validate recursion r.body

end

end Marketplace.Offers.Bodies
