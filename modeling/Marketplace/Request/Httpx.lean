import Marketplace.Incoming

/-!
# request-service: reading a body, `internal/httpx`

* `parseMediaType`   `mime.ParseMediaType`: the media type, unless there is an error;
* `Forms`            which forms `ParseMultipartForm` reads at all: what its limits on the number of
                     parts, their headers and the text in them let pass;
* `formValue`, `formFile`   the first value of a parameter, the first file of a name;
* `decodeJSON`, `decodeJSONOrMultipart`   the body, into what `unmarshal` makes of a JSON value, and the
                     picture (`[]`: none).
-/

namespace Marketplace.Request.Httpx

open JsonText

/-! ## `mime.ParseMediaType` -/

def isTSpecial (c : Char) : Bool := "()<>@,;:\\\"/[]?=".toList.contains c

def isTokenChar (c : Char) : Bool := 0x20 < c.toNat && c.toNat < 0x7f && !isTSpecial c

/-- `unicode.ToLower`, of which two characters outside ASCII become ASCII -/
def toLower (c : Char) : Char :=
  if c = '\u0130' then 'i' else if c = '\u212a' then 'k' else c.toLower

def consumeToken (v : List Char) : List Char × List Char := v.span isTokenChar

/-- a quoted string, after its quote -/
def consumeQuoted : List Char → Option (List Char × List Char)
  | [] => none
  | [r] => if r = '"' then some ([], []) else none
  | r :: c :: v =>
    if r = '"' then some ([], c :: v)
    else if r = '\\' && isTSpecial c then (consumeQuoted v).map fun x => (c :: x.1, x.2)
    else if r = '\r' || r = '\n' then none
    else (consumeQuoted (c :: v)).map fun x => (r :: x.1, x.2)

def consumeValue (v : List Char) : Option (List Char × List Char) :=
  match v with
  | '"' :: quoted => consumeQuoted quoted
  | _ => if (consumeToken v).1 = [] then none else some (consumeToken v)

/-- a parameter: its name, its value, and the rest -/
def consumeMediaParam (v : List Char) : Option (List Char × List Char × List Char) :=
  match v.dropWhile unicodeSpace with
  | ';' :: rest =>
    let (param, rest) := consumeToken (rest.dropWhile unicodeSpace)
    if param = [] then none
    else
      match rest.dropWhile unicodeSpace with
      | '=' :: rest =>
        (consumeValue (rest.dropWhile unicodeSpace)).map fun x => (param.map toLower, x.1, x.2)
      | _ => none
  | _ => none

/-- the parameters are without an error; one may come twice with the same value -/
def mediaParams : (fuel : Nat) → List (List Char × List Char) → List Char → Bool
  | 0, _, v => v.all unicodeSpace
  | fuel + 1, params, v =>
    if v.all unicodeSpace then true
    else
      match consumeMediaParam v with
      | none => Text.trimBy unicodeSpace v == [';']
      | some (key, value, rest) =>
        params.all (fun p => p.1 != key || p.2 == value) &&
          mediaParams fuel ((key, value) :: params) rest

/-- `checkMediaTypeDisposition` -/
def mediaTypeValid (s : List Char) : Bool :=
  let (typ, rest) := consumeToken s
  !typ.isEmpty &&
    match rest with
    | [] => true
    | c :: rest => c == '/' && !rest.isEmpty && rest.all isTokenChar

def parseMediaType (header : String) : Option String :=
  let (base, rest) := header.toList.span (· != ';')
  let mediatype := Text.trimBy unicodeSpace (base.map toLower)
  if mediaTypeValid mediatype && mediaParams rest.length [] rest then some (String.ofList mediatype)
  else none

/-- the body is read as a form -/
def isMultipart (contentType : String) : Bool :=
  parseMediaType contentType == some "multipart/form-data"

/-! ## forms -/

/-- of the form with this `maxMemory` -/
abbrev Forms := Nat → List Part → Bool

/-- `FileName() != ""` -/
def isFile (p : Part) : Bool := (p.filename.getD "") != ""

/-- `r.FormValue`: the query comes before the form -/
def formValue (query : List (String × Bytes)) (parts : List Part) (key : String) : Bytes :=
  let values := (query.filter (·.1 == key)).map (·.2) ++
    (parts.filter fun p => p.name == key && !isFile p).map (·.content)
  values.head?.getD []

/-- `r.FormFile` -/
def formFile (parts : List Part) (key : String) : Option Bytes :=
  (parts.find? fun p => p.name == key && isFile p).map (·.content)

/-! ## bodies -/

/-- what `encoding/json` reads -/
def decoder : Dialect := both strict (nesting 10000)

section
variable {α : Type} (unmarshal : Bytes → Option α)

/-- whatever follows the first value is left unread -/
def decodeJSON (body : RawBody) : Except String α :=
  match body with
  | .form _ => .error "Malformed JSON body"
  | .plain bytes =>
    let text := bytes.take 1048576
    match value decoder text with
    | .error .syntaxError => .error "Malformed JSON body"
    | .error .unexpectedEnd =>
      if text.all space then .error "Request body is required" else .error "Invalid request body"
    | .ok (v, _) =>
      match unmarshal v with
      | some dst => .ok dst
      | none => .error "Invalid request body"

def decodeForm (forms : Forms) (maxImageBytes : Nat) (query : Option (List (String × Bytes)))
    (parts : List Part) : Except String (α × Bytes) :=
  match query, forms (maxImageBytes + 1048576) parts with
  | some query, true =>
    let payload := formValue query parts "payload"
    if payload = [] then
      .error "Multipart body needs a \"payload\" part carrying the JSON fields"
    else
      match value decoder payload with
      | .error _ => .error "Invalid JSON in the payload part"
      | .ok (v, _) =>
        match unmarshal v with
        | none => .error "Invalid JSON in the payload part"
        | some dst =>
          match formFile parts "image" with
          | none => .ok (dst, [])
          | some file => .ok (dst, file.take (maxImageBytes + 1))
  | _, _ => .error "Malformed multipart body"

def decodeJSONOrMultipart (forms : Forms) (maxImageBytes : Nat) (r : Incoming) :
    Except String (α × Bytes) :=
  if isMultipart r.contentType then
    match r.body with
    | .form parts => decodeForm unmarshal forms maxImageBytes r.query parts
    | .plain _ => .error "Malformed multipart body"
  else (decodeJSON unmarshal r.body).map fun dst => (dst, [])

end

example : isMultipart "multipart/form-data; boundary=x" = true ∧
    isMultipart "Multipart/Form-Data ; boundary=\"a b\";" = true ∧
    isMultipart "multipart/form-data; boundary" = false ∧ isMultipart "application/json" = false := by
  decide

end Marketplace.Request.Httpx
