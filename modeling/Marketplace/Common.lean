import Marketplace.Lib.Service
import Marketplace.Lib.Text

/-!
# What the services share

Every service keeps its state in its own Postgres database, at READ COMMITTED, and answers a
call with a program of SQL statements and remote calls (`Service.Call`).

* `UUID`, `Time`, `Bytes`   identifiers, timestamps, image data; `UUID.nil` is the zero uuid,
                            which the Go code uses for "none";
* `trimSpace`, `strip`      Go's `strings.TrimSpace`, and Python's `str.strip`, which drops four more
                            characters.
-/

namespace Marketplace

abbrev UUID := Nat
abbrev Time := Nat
abbrev Bytes := List UInt8

def UUID.nil : UUID := 0

/-- `unicode.IsSpace` -/
def unicodeSpace (c : Char) : Bool :=
  (9 ≤ c.val && c.val ≤ 13) || c.val == 32 || c.val == 0x85 || c.val == 0xA0 ||
    c.val == 0x1680 || (0x2000 ≤ c.val && c.val ≤ 0x200A) || c.val == 0x2028 || c.val == 0x2029 ||
    c.val == 0x202F || c.val == 0x205F || c.val == 0x3000

def trimSpace (s : String) : String := String.ofList (Text.trimBy unicodeSpace s.toList)

/-- `str.isspace` of one character -/
def isSpace (c : Char) : Bool :=
  (9 ≤ c.val && c.val ≤ 13) || (28 ≤ c.val && c.val ≤ 32) || c.val == 0x85 || c.val == 0xA0 ||
    c.val == 0x1680 || (0x2000 ≤ c.val && c.val ≤ 0x200A) || c.val == 0x2028 || c.val == 0x2029 ||
    c.val == 0x202F || c.val == 0x205F || c.val == 0x3000

/-- `str.strip` -/
def strip (s : String) : String := String.ofList (Text.trimBy isSpace s.toList)

theorem strip_idem (s : String) : strip (strip s) = strip s := by
  unfold strip
  rw [String.toList_ofList, Text.trimBy_idem]

theorem length_strip (s : String) : (strip s).length ≤ s.length := by
  rw [← String.length_toList, ← String.length_toList, strip, String.toList_ofList]
  exact Text.length_trimBy _ _

/-- what Go trims, Python trims as well -/
theorem isSpace_of_unicodeSpace (c : Char) (h : unicodeSpace c = true) : isSpace c = true := by
  simp only [unicodeSpace, isSpace, Bool.or_eq_true, Bool.and_eq_true, decide_eq_true_eq,
    beq_iff_eq] at h ⊢
  have h32 : c.val = 32 → 28 ≤ c.val ∧ c.val ≤ 32 := by
    intro e
    rw [e]
    decide
  tauto

theorem trimSpace_strip (s : String) : trimSpace (strip s) = strip s := by
  rw [trimSpace, strip, String.toList_ofList, Text.trimBy_trimBy isSpace_of_unicodeSpace]

end Marketplace
