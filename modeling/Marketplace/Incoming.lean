import Marketplace.Common
import Marketplace.Lib.JsonText

/-!
# Requests with a body

What request-service and offer-service read of a POST or a PUT.

* `Part`             a named part of a multipart body; a file has a `filename`;
* `RawBody`          a multipart body under the boundary of its content type, or any other;
* `Incoming`         the request.  A multipart body begins with `--`, which no JSON text does.
-/

namespace Marketplace

structure Part where
  name : String
  filename : Option String
  content : Bytes
  deriving DecidableEq, Repr

inductive RawBody where
  | plain (bytes : Bytes)
  | form (parts : List Part)
  deriving DecidableEq, Repr

structure Incoming where
  /-- the header, or `""` -/
  contentType : String
  /-- the parameters of the query string, unless it is malformed -/
  query : Option (List (String × Bytes))
  body : RawBody
  deriving DecidableEq, Repr

end Marketplace
