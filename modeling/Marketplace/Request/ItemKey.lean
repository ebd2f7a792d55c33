import Mathlib.Data.List.Basic

/-!
# The comparison key of an item name

`requestItemKey` is the SQL function `request_item_key` of migration 000006: lower case, runs of
anything outside `[a-z0-9]` flattened to one space, filler words and model years dropped,
abbreviations resolved; the plain form is kept when nothing else is left.
-/

namespace Marketplace.Request

/-- What Postgres leaves to its build and locale: the hash behind the advisory lock, and the
lower case of a character (that of ASCII is fixed). -/
class Postgres where
  hashtext : String → Int
  lower : Char → Char
  lower_ascii : ∀ c : Char, c.val < 128 → lower c = c.toLower

/-- `[a-z0-9]` -/
def isKeyChar (c : Char) : Bool := ('a' ≤ c && c ≤ 'z') || ('0' ≤ c && c ≤ '9')

/-- `regexp_replace(s, '[^a-z0-9]+', ' ', 'g')`; the flag says that a run has been replaced -/
def flattenRuns : Bool → List Char → List Char
  | _, [] => []
  | run, c :: cs =>
    if isKeyChar c then c :: flattenRuns false cs
    else if run then flattenRuns true cs
    else ' ' :: flattenRuns true cs

/-- `btrim(s)` -/
def btrim (s : List Char) : List Char :=
  ((s.dropWhile (· == ' ')).reverse.dropWhile (· == ' ')).reverse

/-- condition, packaging and articles -/
def noiseWords : List String :=
  ["a", "an", "the", "of", "for",
   "new", "brand", "original", "genuine", "authentic",
   "sealed", "unopened", "unused", "boxed", "used"]

/-- the same thing said two ways -/
def aliases : List (String × String) :=
  [("ps5", "playstation 5"),
   ("ps4", "playstation 4"),
   ("ps3", "playstation 3"),
   ("tv", "television"),
   ("macbook", "mac book"),
   ("airpods", "air pods"),
   ("fridge", "refrigerator")]

def isDigit (c : Char) : Bool := '0' ≤ c && c ≤ '9'

/-- `word ~ '^(19|20)[0-9][0-9]$'` -/
def isYear : List Char → Bool
  | [a, b, c, d] => ((a == '1' && b == '9') || (a == '2' && b == '0')) && isDigit c && isDigit d
  | _ => false

/-- `coalesce(a.canonical, w.word)` -/
def canonical (w : List Char) : List Char :=
  match aliases.find? (fun a => a.1.toList == w) with
  | some a => a.2.toList
  | none => w

/-- `string_agg(word, ' ' ORDER BY ord)`: NULL when there is no row -/
def stringAgg : List (List Char) → Option (List Char)
  | [] => none
  | ws => some (List.intercalate [' '] ws)

/-- `nullif(s, '')` -/
def nullIfEmpty : List Char → Option (List Char)
  | [] => none
  | s => some s

section
variable [Postgres]

/-- `btrim(regexp_replace(lower(item_name), '[^a-z0-9]+', ' ', 'g'))` -/
def plainKey (itemName : String) : List Char :=
  btrim (flattenRuns false (itemName.toList.map Postgres.lower))

/-- the words that stay, each alias replaced by its canonical form -/
def keptWords (itemName : String) : List (List Char) :=
  (((plainKey itemName).splitOn ' ').filter fun w =>
    w ≠ [] && !(noiseWords.map String.toList).contains w && !isYear w).map canonical

def requestItemKey (itemName : String) : String :=
  String.ofList
    ((((stringAgg (keptWords itemName)).map btrim).bind nullIfEmpty).getD (plainKey itemName))

/-- the key of the advisory lock of `LockItemName` -/
def itemLock (itemName : String) : Int := Postgres.hashtext (requestItemKey itemName)

end

/-- a database in the C locale, for evaluation -/
@[reducible] def asciiPostgres : Postgres where
  hashtext s := s.length
  lower := Char.toLower
  lower_ascii _ _ := rfl

example : @requestItemKey asciiPostgres "Espresso-Machine (brand NEW, 2024)" = "espresso machine" := by
  decide

example : @requestItemKey asciiPostgres "the PS5" = "playstation 5" := by decide

example : @requestItemKey asciiPostgres "New" = "new" := by decide

end Marketplace.Request
