import Marketplace.Request.Media
import Marketplace.Request.Service
import Marketplace.Offers.Routes
import Marketplace.Offers.Schemas

/-!
# Rules that two services hold

request-service and offer-service look at the same pictures, and at the same names of items.

* `image_rules_iff`  **the two `detect` agree exactly where no other WebP is involved**: one reads
                     `WEBP`, the other the `VP` after it as well;
* `item_names_iff`   **the two services accept the same names exactly where bytes and characters,
                     and the two kinds of white space, come to the same**.
-/

set_option linter.unusedSectionVars false

namespace Marketplace.System

open Sniff Offers

/-! ## pictures -/

/-- a beginning, as it is read off a slice -/
theorem take_eq_iff {p data : Bytes} (n : Nat) (hn : p.length = n) :
    data.take n = p ↔ p <+: data := by
  subst hn
  rw [List.prefix_iff_eq_take, eq_comm]

theorem detect_ok {data : Bytes} {kind : String} :
    detect data = .ok kind ↔
      data ≠ [] ∧ data.length ≤ maxBytes ∧ Picture (ascii "WEBP") data kind := by
  have hone : ∀ {kind'}, data ≠ [] → ¬maxBytes < data.length → Picture (ascii "WEBP") data kind' →
      ((.ok kind' : Except String String) = .ok kind ↔
        data ≠ [] ∧ data.length ≤ maxBytes ∧ Picture (ascii "WEBP") data kind) := by
    intro kind' hne hle hp
    constructor
    · intro he
      cases he
      exact ⟨hne, by omega, hp⟩
    · rintro ⟨-, -, hp'⟩
      rw [hp.unique hp']
  unfold detect
  split
  · rename_i h
    simp [h]
  rename_i hne
  split
  · rename_i h
    refine iff_of_false nofun ?_
    rintro ⟨-, hl, -⟩
    omega
  rename_i hle
  split
  · rename_i h
    exact hone hne hle (.jpeg ((take_eq_iff 3 rfl).mp h))
  rename_i hjpeg
  split
  · rename_i h
    exact hone hne hle (.png ((take_eq_iff 8 rfl).mp h))
  rename_i hpng
  split
  · rename_i h
    exact hone hne hle (.webp ((take_eq_iff 4 rfl).mp h.1) ((take_eq_iff 4 rfl).mp h.2))
  · rename_i hwebp
    refine iff_of_false nofun ?_
    rintro ⟨-, -, hp⟩
    cases hp with
    | jpeg h => exact hjpeg ((take_eq_iff 3 rfl).mpr h)
    | png h => exact hpng ((take_eq_iff 8 rfl).mpr h)
    | webp h hf => exact hwebp ⟨(take_eq_iff 4 rfl).mpr h, (take_eq_iff 4 rfl).mpr hf⟩

/-- both accept it with the same media type, or both refuse it -/
def SameVerdict (data : Bytes) : Prop :=
  (Request.Media.detect data).toOption = (detect data).toOption

/-- a WebP container of at most 1 MiB whose first chunk is not called `VP` and something -/
def OtherWebP (data : Bytes) : Prop :=
  data.length ≤ maxBytes ∧ ascii "RIFF" <+: data ∧ ascii "WEBP" <+: data.drop 8 ∧
    ¬ascii "VP" <+: data.drop 12

theorem ok_iff_toOption {α : Type} {e : Except String α} {a : α} :
    e.toOption = some a ↔ e = .ok a := by
  cases e with
  | error e => exact iff_of_false nofun nofun
  | ok b =>
    constructor
    · intro h
      cases h
      rfl
    · intro h
      cases h
      rfl

theorem append_prefix_iff {p q data : Bytes} :
    p ++ q <+: data ↔ p <+: data ∧ q <+: data.drop p.length := by
  constructor
  · rintro ⟨rest, rfl⟩
    refine ⟨⟨q ++ rest, (List.append_assoc p q rest).symm⟩, ?_⟩
    rw [List.append_assoc, List.drop_left]
    exact List.prefix_append q rest
  · rintro ⟨⟨rest, rfl⟩, hq⟩
    rw [List.drop_left] at hq
    exact (List.prefix_append_right_inj p).mpr hq

/-- what the longer form asks for -/
theorem picture_webpvp {data : Bytes} {kind : String} :
    Picture (ascii "WEBPVP") data kind ↔
      Picture (ascii "WEBP") data kind ∧ (kind = "image/webp" → ascii "VP" <+: data.drop 12) := by
  have hform : ascii "WEBPVP" = ascii "WEBP" ++ ascii "VP" := rfl
  have hsplit : ascii "WEBPVP" <+: data.drop 8 ↔
      ascii "WEBP" <+: data.drop 8 ∧ ascii "VP" <+: data.drop 12 := by
    rw [hform, append_prefix_iff, List.drop_drop]
    rfl
  constructor
  · rintro (h | h | ⟨h, hf⟩)
    · exact ⟨.jpeg h, fun e => absurd e (by decide)⟩
    · exact ⟨.png h, fun e => absurd e (by decide)⟩
    · exact ⟨.webp h (hsplit.mp hf).1, fun _ => (hsplit.mp hf).2⟩
  · rintro ⟨h | h | ⟨h, hf⟩, hvp⟩
    · exact .jpeg h
    · exact .png h
    · exact .webp h (hsplit.mpr ⟨hf, hvp rfl⟩)

theorem sameVerdict_iff {data : Bytes} : SameVerdict data ↔ ¬OtherWebP data := by
  constructor
  · rintro h ⟨hl, hr, hw, hvp⟩
    have hne : data ≠ [] := by
      rintro rfl
      exact absurd hr (by decide)
    have hpy : detect data = .ok "image/webp" := detect_ok.mpr ⟨hne, hl, .webp hr hw⟩
    have hgo : Request.Media.detect data = .ok "image/webp" := by
      rw [← ok_iff_toOption, h, hpy]
      rfl
    obtain ⟨-, -, hp⟩ := Request.Media.detect_ok.mp hgo
    exact hvp ((picture_webpvp.mp hp).2 rfl)
  · intro h
    refine Option.ext fun kind => ?_
    rw [ok_iff_toOption, ok_iff_toOption, Request.Media.detect_ok, detect_ok, picture_webpvp]
    constructor
    · rintro ⟨hne, hl, hp, -⟩
      exact ⟨hne, hl, hp⟩
    · rintro ⟨hne, hl, hp⟩
      refine ⟨hne, hl, hp, fun hk => ?_⟩
      by_contra hvp
      cases hp with
      | jpeg _ => exact absurd hk (by decide)
      | png _ => exact absurd hk (by decide)
      | webp hr hw => exact h ⟨hl, hr, hw, hvp⟩

/-- what is too long, or nothing at all, is a picture for neither -/
theorem refused_by_both {data : Bytes} (h : data = [] ∨ maxBytes < data.length) :
    (Request.Media.detect data).toOption = none ∧ (detect data).toOption = none := by
  have hne : ∀ {q : Prop}, ¬(data ≠ [] ∧ data.length ≤ maxBytes ∧ q) := by
    rintro q ⟨hne, hl, -⟩
    rcases h with h | h
    · exact hne h
    · omega
  constructor
  · refine Option.eq_none_iff_forall_ne_some.mpr fun kind hk => ?_
    exact hne (Request.Media.detect_ok.mp (ok_iff_toOption.mp hk))
  · refine Option.eq_none_iff_forall_ne_some.mpr fun kind hk => ?_
    exact hne (detect_ok.mp (ok_iff_toOption.mp hk))

/-- 14 bytes tell what a picture is -/
theorem picture_take {form data : Bytes} (hf : form.length ≤ 6) {kind : String} :
    Picture form (data.take 14) kind ↔ Picture form data kind := by
  have hshort : ∀ {p : Bytes}, p.length ≤ 14 → (p <+: data.take 14 ↔ p <+: data) := by
    intro p hp
    rw [List.prefix_take_iff]
    exact and_iff_left hp
  have hform : form <+: (data.take 14).drop 8 ↔ form <+: data.drop 8 := by
    rw [List.drop_take, List.prefix_take_iff]
    exact and_iff_left hf
  constructor
  · rintro (h | h | ⟨h, hw⟩)
    · exact .jpeg ((hshort (by decide)).mp h)
    · exact .png ((hshort (by decide)).mp h)
    · exact .webp ((hshort (by decide)).mp h) (hform.mp hw)
  · rintro (h | h | ⟨h, hw⟩)
    · exact .jpeg ((hshort (by decide)).mpr h)
    · exact .png ((hshort (by decide)).mpr h)
    · exact .webp ((hshort (by decide)).mpr h) (hform.mpr hw)

theorem decided_by_take {data : Bytes} (hl : data.length = maxBytes) :
    (Request.Media.detect data).toOption = (Request.Media.detect (data.take 14)).toOption ∧
    (detect data).toOption = (detect (data.take 14)).toOption := by
  have hlen : (data.take 14).length = 14 := by
    rw [List.length_take, hl, maxBytes]
    rfl
  have hne : data ≠ [] ∧ data.length ≤ maxBytes := by
    refine ⟨?_, hl.le⟩
    rintro rfl
    cases hl
  have hne' : data.take 14 ≠ [] ∧ (data.take 14).length ≤ maxBytes := by
    refine ⟨?_, by rw [hlen]; decide⟩
    intro h
    rw [h] at hlen
    cases hlen
  have hiff : ∀ {p q : Prop}, (p ↔ q) →
      ((data ≠ [] ∧ data.length ≤ maxBytes ∧ p) ↔
        (data.take 14 ≠ [] ∧ (data.take 14).length ≤ maxBytes ∧ q)) := by
    intro p q h
    rw [← and_assoc, ← and_assoc, and_iff_right hne, and_iff_right hne', h]
  constructor
  · refine Option.ext fun kind => ?_
    rw [ok_iff_toOption, ok_iff_toOption, Request.Media.detect_ok, Request.Media.detect_ok]
    exact hiff (picture_take (by decide)).symm
  · refine Option.ext fun kind => ?_
    rw [ok_iff_toOption, ok_iff_toOption, detect_ok, detect_ok]
    exact hiff (picture_take (by decide)).symm

/-- **The rules of pictures are one rule exactly where no other WebP is involved.**  What is empty or
longer than 1 MiB is refused by both, and of exactly 1 MiB the first 14 bytes decide. -/
theorem image_rules_iff (data : Bytes) :
    (SameVerdict data ↔ ¬OtherWebP data) ∧
    (data = [] ∨ maxBytes < data.length →
      (Request.Media.detect data).toOption = none ∧ (detect data).toOption = none) ∧
    (data.length = maxBytes →
      (Request.Media.detect data).toOption = (Request.Media.detect (data.take 14)).toOption ∧
      (detect data).toOption = (detect (data.take 14)).toOption) :=
  ⟨sameVerdict_iff, refused_by_both, decided_by_take⟩

/-- a container with nothing in it -/
def emptyWebP : Bytes := ascii "RIFF" ++ [4, 0, 0, 0] ++ ascii "WEBP"

theorem image_rules_differ :
    Request.Media.detect emptyWebP = .error
      "unsupported image format: application/octet-stream (accepted: JPEG, PNG, WebP)" ∧
    detect emptyWebP = .ok "image/webp" ∧ ¬SameVerdict emptyWebP := by
  refine ⟨by decide, by decide, ?_⟩
  unfold SameVerdict
  decide

/-! ## names of items -/

theorem ofList_trimBy_eq_empty {f : Char → Bool} {s : String} :
    String.ofList (Text.trimBy f s.toList) = "" ↔ ∀ c ∈ s.toList, f c = true := by
  rw [String.ofList_eq_empty_iff, Text.trimBy_eq_nil]

theorem ensure_validate_long {b : Request.EnsureRequestBody} (hne : trimSpace b.itemName ≠ "")
    (h : 200 < (trimSpace b.itemName).utf8ByteSize) :
    b.validate = .error "itemName must be at most 200 characters" := by
  have hname : b.trimmed.itemName = trimSpace b.itemName := rfl
  rw [Request.EnsureRequestBody.validate, Request.checkItemName, hname, if_neg hne, if_pos h]
  rfl

/-- request-service accepts what is left of a name in at most 200 bytes -/
theorem ensure_validate_ok {b : Request.EnsureRequestBody} :
    (∃ b', b.validate = .ok b') ↔
      trimSpace b.itemName ≠ "" ∧ (trimSpace b.itemName).utf8ByteSize ≤ 200 := by
  have hname : b.trimmed.itemName = trimSpace b.itemName := rfl
  by_cases hne : trimSpace b.itemName = ""
  · rw [Request.EnsureRequestBody.validate, Request.checkItemName, hname, if_pos hne]
    exact iff_of_false nofun fun h => h.1 hne
  by_cases hl : 200 < (trimSpace b.itemName).utf8ByteSize
  · rw [ensure_validate_long hne hl]
    refine iff_of_false nofun ?_
    rintro ⟨-, hle⟩
    omega
  · rw [Request.EnsureRequestBody.validate, Request.checkItemName, hname, if_neg hne, if_neg hl]
    exact iff_of_true ⟨_, rfl⟩ ⟨hne, by omega⟩

/-- offer-service accepts a name of at most 200 characters of which something is left -/
theorem item_accepted {s : String} :
    (∃ item', RequestedItem.validate ⟨s, "", ""⟩ = .ok item') ↔ s.length ≤ 200 ∧ strip s ≠ "" := by
  constructor
  · rintro ⟨item', h⟩
    obtain ⟨hl, hs, -⟩ := itemName_ok.mp (item_validate_ok h)
    exact ⟨hl, hs⟩
  · rintro ⟨hl, hs⟩
    have hname := itemName_ok.mpr ⟨hl, hs, rfl⟩
    exact ⟨⟨strip s, strip "", strip ""⟩, by rw [RequestedItem.validate, hname]; rfl⟩

/-- what one service accepts, the other one accepts: of an item the name that is sent, and of a name
the name itself -/
def SameNames (s : String) : Prop :=
  (∀ item item' : RequestedItem, item.itemName = s → item.validate = .ok item' →
    ∃ b', Request.EnsureRequestBody.validate
      ⟨item'.itemName, item'.description, item'.category⟩ = .ok b') ∧
  ∀ description category : String,
    (∃ b', Request.EnsureRequestBody.validate ⟨s, description, category⟩ = .ok b') →
    ∃ item', RequestedItem.validate ⟨s, "", ""⟩ = .ok item'

/-- few characters, many bytes -/
def TooManyBytes (s : String) : Prop := s.length ≤ 200 ∧ 200 < (strip s).utf8ByteSize

/-- too many characters, until the white space at the ends has gone -/
def TooMuchPadding (s : String) : Prop :=
  200 < s.length ∧ (∃ c ∈ s.toList, unicodeSpace c = false) ∧ (trimSpace s).utf8ByteSize ≤ 200

/-- white space for Python, and for Go one of the four separators as well -/
def OnlySeparators (s : String) : Prop :=
  (∀ c ∈ s.toList, isSpace c = true) ∧ (∃ c ∈ s.toList, unicodeSpace c = false) ∧
    (trimSpace s).utf8ByteSize ≤ 200

theorem trimSpace_ne_empty {s : String} :
    trimSpace s ≠ "" ↔ ∃ c ∈ s.toList, unicodeSpace c = false := by
  rw [trimSpace, Ne, ofList_trimBy_eq_empty]
  simp

/-- from offer-service to request-service -/
theorem sent_accepted_iff {s : String} :
    (∀ item item' : RequestedItem, item.itemName = s → item.validate = .ok item' →
      ∃ b', Request.EnsureRequestBody.validate
        ⟨item'.itemName, item'.description, item'.category⟩ = .ok b') ↔ ¬TooManyBytes s := by
  constructor
  · rintro h ⟨hl, hb⟩
    have hs : strip s ≠ "" := by
      intro he
      rw [he] at hb
      exact absurd hb (by decide)
    obtain ⟨item', hi⟩ := item_accepted.mpr ⟨hl, hs⟩
    obtain ⟨-, -, hname⟩ := itemName_ok.mp (item_validate_ok hi)
    have hle : (trimSpace item'.itemName).utf8ByteSize ≤ 200 :=
      (ensure_validate_ok.mp (h _ item' rfl hi)).2
    have hname' : strip s = item'.itemName := hname
    rw [← hname', trimSpace_strip] at hle
    omega
  · rintro h item item' rfl hi
    obtain ⟨hl, hs, hname⟩ := itemName_ok.mp (item_validate_ok hi)
    refine ensure_validate_ok.mpr ?_
    rw [← hname, trimSpace_strip]
    exact ⟨hs, by by_contra hb; exact h ⟨hl, by omega⟩⟩

/-- from request-service to offer-service -/
theorem kept_accepted_iff {s : String} :
    (∀ description category : String,
      (∃ b', Request.EnsureRequestBody.validate ⟨s, description, category⟩ = .ok b') →
      ∃ item', RequestedItem.validate ⟨s, "", ""⟩ = .ok item') ↔
    ¬TooMuchPadding s ∧ ¬OnlySeparators s := by
  simp only [ensure_validate_ok, item_accepted, trimSpace_ne_empty]
  constructor
  · intro h
    constructor
    · rintro ⟨hl, hne, hb⟩
      have := (h "" "" ⟨hne, hb⟩).1
      omega
    · rintro ⟨hall, hne, hb⟩
      exact (h "" "" ⟨hne, hb⟩).2 (ofList_trimBy_eq_empty.mpr hall)
  · rintro ⟨hp, hs⟩ - - ⟨hne, hb⟩
    constructor
    · by_contra hl
      exact hp ⟨by omega, hne, hb⟩
    · intro he
      exact hs ⟨ofList_trimBy_eq_empty.mp he, hne, hb⟩

/-- **The two services accept the same names exactly where bytes and characters, and the two kinds of
white space, come to the same.** -/
theorem item_names_iff (s : String) :
    SameNames s ↔ ¬TooManyBytes s ∧ ¬TooMuchPadding s ∧ ¬OnlySeparators s :=
  and_congr sent_accepted_iff kept_accepted_iff

/-- so many times the same letter, of two bytes -/
def accents (n : Nat) : String := String.ofList (List.replicate n 'é')

theorem trimmed_accents {f : Char → Bool} (h : f 'é' = false) (n : Nat) :
    String.ofList (Text.trimBy f (accents n).toList) = accents n := by
  rw [accents, String.toList_ofList, Text.trimBy_replicate h]

theorem utf8ByteSize_accents (n : Nat) : (accents n).utf8ByteSize = n * 2 := by
  rw [accents, Text.utf8ByteSize_ofList, List.map_replicate, List.sum_replicate]
  rfl

theorem length_accents (n : Nat) : (accents n).length = n := by
  rw [accents, String.length_ofList, List.length_replicate]

theorem item_names_differ :
    RequestedItem.checkItemName (accents 150) = .ok (accents 150) ∧
    Request.EnsureRequestBody.validate ⟨accents 150, "", ""⟩ =
      .error "itemName must be at most 200 characters" ∧ ¬SameNames (accents 150) := by
  have hstrip : strip (accents 150) = accents 150 := trimmed_accents (f := isSpace) (by decide) _
  have htrim : trimSpace (accents 150) = accents 150 :=
    trimmed_accents (f := unicodeSpace) (by decide) _
  have hbytes : 200 < (accents 150).utf8ByteSize := by
    rw [utf8ByteSize_accents]
    decide
  have hlen : (accents 150).length ≤ 200 := by
    rw [length_accents]
    decide
  have hne : accents 150 ≠ "" := by
    intro h
    rw [h] at hbytes
    exact absurd hbytes (by decide)
  have hname : strip (accents 150) ≠ "" := by
    rw [hstrip]
    exact hne
  have hsent : 200 < (strip (accents 150)).utf8ByteSize := by
    rw [hstrip]
    exact hbytes
  have hname' : trimSpace (accents 150) ≠ "" := by
    rw [htrim]
    exact hne
  have hbytes' : 200 < (trimSpace (accents 150)).utf8ByteSize := by
    rw [htrim]
    exact hbytes
  refine ⟨itemName_ok.mpr ⟨hlen, hname, hstrip⟩, ensure_validate_long hname' hbytes', ?_⟩
  rintro ⟨h, -⟩
  exact sent_accepted_iff.mp h ⟨hlen, hsent⟩

end Marketplace.System
