import Marketplace.Common
import Marketplace.Lib.Sniff

/-!
# request-service: pictures, `internal/media`

* `Media.detect`     `Detect`: the media type of a picture, from its bytes;
* `Media.detect_ok`  what it accepts.
-/

namespace Marketplace.Request.Media

open Sniff

/-- `MaxBytes` -/
def maxBytes : Nat := 1048576

/-- `Allowed` -/
def allowed : List String := ["image/jpeg", "image/png", "image/webp"]

def detect (data : Bytes) : Except String String :=
  if data.length = 0 then .error "image is empty"
  else if maxBytes < data.length then
    .error ("image must be at most " ++ toString maxBytes ++ " bytes")
  else if allowed.contains (detectContentType data) then .ok (detectContentType data)
  else .error ("unsupported image format: " ++ detectContentType data ++
    " (accepted: JPEG, PNG, WebP)")

theorem detect_ok {data : Bytes} {kind : String} :
    detect data = .ok kind ↔
      data ≠ [] ∧ data.length ≤ maxBytes ∧ Picture (ascii "WEBPVP") data kind := by
  rw [picture_iff, ← List.length_pos_iff]
  unfold detect
  split
  · rename_i h
    simp [h]
  · rename_i hpos
    split
    · rename_i h
      refine iff_of_false nofun ?_
      rintro ⟨-, hl, -⟩
      omega
    · rename_i hle
      split
      · rename_i h
        have hk : detectContentType data ∈ pictures := List.contains_iff_mem.mp h
        constructor
        · intro he
          cases he
          exact ⟨by omega, by omega, rfl, hk⟩
        · rintro ⟨-, -, rfl, -⟩
          rfl
      · rename_i h
        refine iff_of_false nofun ?_
        rintro ⟨-, -, rfl, hk⟩
        exact h (List.contains_iff_mem.mpr hk)

end Marketplace.Request.Media
