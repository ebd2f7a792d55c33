import Mathlib.Data.List.Infix

/-!
# The media type of some bytes

Go's `http.DetectContentType`, after the table of the MIME Sniffing Standard: the first signature that
applies to the first 512 bytes decides.

* `Sig`              a signature: of an exact beginning, of one under a mask, of an HTML tag, of an
                     MP4 box, of text;
* `sniffSignatures`  the table;
* `Picture form`     what begins like a picture; of a WebP container `form` is what the first 12 bytes
                     end with, and what follows;
* `picture_iff`      **a picture is found to be one**; a WebP container only if a chunk `VP` begins it.
-/

namespace Sniff

/-- the bytes of an ASCII text -/
def ascii (s : String) : List UInt8 := s.toList.map fun c => UInt8.ofNat c.toNat

/-- white space -/
def isWS (b : UInt8) : Bool := b == 0x09 || b == 0x0a || b == 0x0c || b == 0x0d || b == 0x20

/-- what ends a tag -/
def isTT (b : UInt8) : Bool := b == 0x20 || b == 0x3e

/-! ## signatures -/

inductive Sig where
  | exactSig (sig : List UInt8) (ct : String)
  | maskedSig (mask pat : List UInt8) (skipWS : Bool) (ct : String)
  | htmlSig (tag : List UInt8)
  | mp4Sig
  | textSig
  deriving DecidableEq

/-- each byte of the pattern is the byte of the data under the mask -/
def masked : List UInt8 → List UInt8 → List UInt8 → Bool
  | _, [], _ => true
  | m :: mask, p :: pat, b :: data => (b &&& m) == p && masked mask pat data
  | _, _ :: _, _ => false

/-- the tag, whatever the case of its letters, and what ends it -/
def tagged : List UInt8 → List UInt8 → Bool
  | _, [] => false
  | [], b :: _ => isTT b
  | t :: tag, b :: data =>
    (if 0x41 ≤ t ∧ t ≤ 0x5a then b &&& 0xdf else b) == t && tagged tag data

/-- an integer of four bytes, the first of them the most significant -/
def bigEndian : List UInt8 → Nat
  | a :: b :: c :: d :: _ => ((a.toNat * 256 + b.toNat) * 256 + c.toNat) * 256 + d.toNat
  | _ => 0

/-- a box of type `ftyp` that names an `mp4` brand -/
def isMp4 (data : List UInt8) : Bool :=
  let boxSize := bigEndian data
  12 ≤ data.length && boxSize ≤ data.length && boxSize % 4 == 0 &&
    (data.drop 4).take 4 == ascii "ftyp" &&
    (List.range (boxSize / 4)).any fun k =>
      -- the word after the major brand is its version
      2 ≤ k && k != 3 && (data.drop (4 * k)).take 3 == ascii "mp4"

/-- a byte that no text contains -/
def isBinary (b : UInt8) : Bool :=
  b ≤ 0x08 || b == 0x0b || (0x0e ≤ b && b ≤ 0x1a) || (0x1c ≤ b && b ≤ 0x1f)

def Sig.applies (data : List UInt8) (firstNonWS : Nat) : Sig → Bool
  | .exactSig sig _ => sig.isPrefixOf data
  | .maskedSig mask pat skipWS _ =>
    pat.length == mask.length && masked mask pat (if skipWS then data.drop firstNonWS else data)
  | .htmlSig tag => tagged tag (data.drop firstNonWS)
  | .mp4Sig => isMp4 data
  | .textSig => (data.drop firstNonWS).all fun b => !isBinary b

def Sig.ct : Sig → String
  | .exactSig _ ct => ct
  | .maskedSig _ _ _ ct => ct
  | .htmlSig _ => "text/html; charset=utf-8"
  | .mp4Sig => "video/mp4"
  | .textSig => "text/plain; charset=utf-8"

/-- four bytes, four of any value, four bytes -/
def chunk (form type : String) (ct : String) : Sig :=
  .maskedSig (List.replicate 4 0xff ++ List.replicate 4 0 ++ List.replicate type.length 0xff)
    (ascii form ++ List.replicate 4 0 ++ ascii type) false ct

def sniffSignatures : List Sig :=
  [.htmlSig (ascii "<!DOCTYPE HTML"), .htmlSig (ascii "<HTML"), .htmlSig (ascii "<HEAD"),
    .htmlSig (ascii "<SCRIPT"), .htmlSig (ascii "<IFRAME"), .htmlSig (ascii "<H1"),
    .htmlSig (ascii "<DIV"), .htmlSig (ascii "<FONT"), .htmlSig (ascii "<TABLE"),
    .htmlSig (ascii "<A"), .htmlSig (ascii "<STYLE"), .htmlSig (ascii "<TITLE"),
    .htmlSig (ascii "<B"), .htmlSig (ascii "<BODY"), .htmlSig (ascii "<BR"),
    .htmlSig (ascii "<P"), .htmlSig (ascii "<!--"),
    .maskedSig (List.replicate 5 0xff) (ascii "<?xml") true "text/xml; charset=utf-8",
    .exactSig (ascii "%PDF-") "application/pdf",
    .exactSig (ascii "%!PS-Adobe-") "application/postscript",
    -- byte order marks
    .maskedSig [0xff, 0xff, 0, 0] [0xfe, 0xff, 0, 0] false "text/plain; charset=utf-16be",
    .maskedSig [0xff, 0xff, 0, 0] [0xff, 0xfe, 0, 0] false "text/plain; charset=utf-16le",
    .maskedSig [0xff, 0xff, 0xff, 0] [0xef, 0xbb, 0xbf, 0] false "text/plain; charset=utf-8",
    -- pictures
    .exactSig [0, 0, 1, 0] "image/x-icon", .exactSig [0, 0, 2, 0] "image/x-icon",
    .exactSig (ascii "BM") "image/bmp",
    .exactSig (ascii "GIF87a") "image/gif", .exactSig (ascii "GIF89a") "image/gif",
    chunk "RIFF" "WEBPVP" "image/webp",
    .exactSig [0x89, 0x50, 0x4e, 0x47, 0x0d, 0x0a, 0x1a, 0x0a] "image/png",
    .exactSig [0xff, 0xd8, 0xff] "image/jpeg",
    -- sounds and films
    chunk "FORM" "AIFF" "audio/aiff",
    .maskedSig (List.replicate 3 0xff) (ascii "ID3") false "audio/mpeg",
    .maskedSig (List.replicate 5 0xff) (ascii "OggS" ++ [0]) false "application/ogg",
    .maskedSig (List.replicate 8 0xff) (ascii "MThd" ++ [0, 0, 0, 6]) false "audio/midi",
    chunk "RIFF" "AVI " "video/avi", chunk "RIFF" "WAVE" "audio/wave", .mp4Sig,
    .exactSig [0x1a, 0x45, 0xdf, 0xa3] "video/webm",
    -- fonts
    .maskedSig (List.replicate 34 0 ++ [0xff, 0xff]) (List.replicate 34 0 ++ ascii "LP") false
      "application/vnd.ms-fontobject",
    .exactSig [0, 1, 0, 0] "font/ttf", .exactSig (ascii "OTTO") "font/otf",
    .exactSig (ascii "ttcf") "font/collection", .exactSig (ascii "wOFF") "font/woff",
    .exactSig (ascii "wOF2") "font/woff2",
    -- archives
    .exactSig [0x1f, 0x8b, 0x08] "application/x-gzip",
    .exactSig [0x50, 0x4b, 3, 4] "application/zip",
    .exactSig (ascii "Rar!" ++ [0x1a, 7, 0]) "application/x-rar-compressed",
    .exactSig (ascii "Rar!" ++ [0x1a, 7, 1, 0]) "application/x-rar-compressed",
    .exactSig [0, 0x61, 0x73, 0x6d] "application/wasm",
    .textSig]

def sniffLen : Nat := 512

/-- the type of bytes of which nothing is known -/
def octetStream : String := "application/octet-stream"

/-- the index of the first byte that is not white space -/
def firstNonWS (data : List UInt8) : Nat := (data.takeWhile isWS).length

/-- the first signature that applies -/
def sniff (data : List UInt8) : Option Sig := sniffSignatures.find? (Sig.applies data (firstNonWS data))

def detectContentType (bytes : List UInt8) : String :=
  match sniff (bytes.take sniffLen) with
  | some sig => sig.ct
  | none => octetStream

/-! ## pictures -/

/-- a type that is found is that of a signature that applies -/
theorem applies_of_detectContentType {bytes : List UInt8} {ct : String}
    (h : detectContentType bytes = ct) (hct : ct ≠ octetStream) :
    ∃ sig ∈ sniffSignatures, sig.ct = ct ∧
      sig.applies (bytes.take sniffLen) (firstNonWS (bytes.take sniffLen)) = true := by
  unfold detectContentType at h
  split at h
  · rename_i sig hsig
    exact ⟨sig, List.mem_of_find?_eq_some hsig, h, List.find?_some hsig⟩
  · exact absurd h.symm hct

/-- a type of one signature, an exact beginning, is found exactly for what begins so -/
theorem detectContentType_exact {beginning : List UInt8} {ct : String}
    (honly : ∀ sig ∈ sniffSignatures, sig.ct = ct → sig = .exactSig beginning ct)
    (hfound : ∀ rest, detectContentType (beginning ++ rest) = ct)
    (hct : ct ≠ octetStream) {bytes : List UInt8} :
    detectContentType bytes = ct ↔ beginning <+: bytes := by
  constructor
  · intro h
    obtain ⟨sig, hm, hs, ha⟩ := applies_of_detectContentType h hct
    obtain rfl := honly sig hm hs
    have hp : beginning <+: bytes.take sniffLen := List.isPrefixOf_iff_prefix.mp ha
    exact (List.prefix_take_iff.mp hp).1
  · rintro ⟨rest, rfl⟩
    exact hfound rest

theorem detectContentType_jpeg {bytes : List UInt8} :
    detectContentType bytes = "image/jpeg" ↔ [0xff, 0xd8, 0xff] <+: bytes :=
  detectContentType_exact (by decide) (fun _ => rfl) (by decide)

theorem detectContentType_png {bytes : List UInt8} :
    detectContentType bytes = "image/png" ↔
      [0x89, 0x50, 0x4e, 0x47, 0x0d, 0x0a, 0x1a, 0x0a] <+: bytes :=
  detectContentType_exact (by decide) (fun _ => rfl) (by decide)

/-- under a mask of ones, the bytes themselves -/
theorem masked_ones (mask pat p data : List UInt8) :
    masked (List.replicate p.length 0xff ++ mask) (p ++ pat) data = true ↔
      p <+: data ∧ masked mask pat (data.drop p.length) = true := by
  induction p generalizing data with
  | nil => simp
  | cons c p ih =>
    cases data with
    | nil => simp [masked, List.replicate_succ]
    | cons b data =>
      have hones : b &&& 0xff = b := UInt8.and_neg_one
      rw [List.length_cons, List.replicate_succ, List.cons_append, List.cons_append, masked, hones,
        Bool.and_eq_true, ih, List.cons_prefix_cons, beq_iff_eq, List.drop_succ_cons, and_assoc,
        eq_comm]

/-- under a mask of zeros, any bytes -/
theorem masked_zeros (mask pat : List UInt8) (n : Nat) (data : List UInt8) :
    masked (List.replicate n 0 ++ mask) (List.replicate n 0 ++ pat) data = true ↔
      n ≤ data.length ∧ masked mask pat (data.drop n) = true := by
  induction n generalizing data with
  | zero => simp
  | succ n ih =>
    cases data with
    | nil => simp [masked, List.replicate_succ]
    | cons b data =>
      have hzero : b &&& 0 = 0 := UInt8.and_zero
      rw [List.replicate_succ, List.cons_append, List.cons_append, masked, hzero, beq_self_eq_true,
        Bool.true_and, ih, List.drop_succ_cons, List.length_cons, Nat.succ_le_succ_iff]

theorem chunk_applies {form type ct : String} (hform : (ascii form).length = 4)
    (htype : (ascii type).length = type.length) (data : List UInt8) (firstNonWS : Nat) :
    (chunk form type ct).applies data firstNonWS = true ↔
      ascii form <+: data ∧ 8 ≤ data.length ∧ ascii type <+: data.drop 8 := by
  have hlen : (ascii form ++ (List.replicate 4 0 ++ ascii type)).length =
      (List.replicate 4 (0xff : UInt8) ++ (List.replicate 4 0 ++
        List.replicate type.length 0xff)).length := by
    simp only [List.length_append, List.length_replicate, hform, htype]
  have hones := masked_ones (List.replicate 4 0 ++ List.replicate type.length 0xff)
    (List.replicate 4 0 ++ ascii type) (ascii form) data
  have hzeros := masked_zeros (List.replicate type.length 0xff) (ascii type) 4 (data.drop 4)
  have hrest := masked_ones [] [] (ascii type) (data.drop 8)
  rw [hform] at hones
  rw [htype, List.append_nil, List.append_nil] at hrest
  simp only [Sig.applies, chunk, hlen, beq_self_eq_true, Bool.true_and, Bool.false_eq_true,
    if_false, List.append_assoc]
  rw [hones, hzeros, List.drop_drop, hrest]
  simp only [masked, and_true, List.length_drop]
  refine and_congr_right fun h => and_congr_left fun _ => ?_
  have := h.length_le
  omega

/-- **a WebP picture is found one only if a chunk `VP` begins it** -/
theorem detectContentType_webp {bytes : List UInt8} :
    detectContentType bytes = "image/webp" ↔
      ascii "RIFF" <+: bytes ∧ 8 ≤ bytes.length ∧ ascii "WEBPVP" <+: bytes.drop 8 := by
  constructor
  · intro h
    obtain ⟨sig, hm, hct, ha⟩ := applies_of_detectContentType h (by decide)
    have honly : ∀ sig ∈ sniffSignatures, sig.ct = "image/webp" →
        sig = chunk "RIFF" "WEBPVP" "image/webp" := by decide
    obtain rfl := honly sig hm hct
    obtain ⟨hform, hlen, htype⟩ := (chunk_applies (by decide) (by decide) _ _).mp ha
    rw [List.length_take] at hlen
    rw [List.drop_take] at htype
    exact ⟨(List.prefix_take_iff.mp hform).1, by omega, (List.prefix_take_iff.mp htype).1⟩
  · rintro ⟨hform, hlen, htype⟩
    have happlies (n : Nat) :
        (chunk "RIFF" "WEBPVP" "image/webp").applies (bytes.take sniffLen) n = true := by
      rw [chunk_applies (by decide) (by decide), List.length_take, List.drop_take,
        List.prefix_take_iff, List.prefix_take_iff]
      refine ⟨⟨hform, by decide⟩, ?_, htype, by decide⟩
      rw [sniffLen]
      omega
    have hbefore : (sniffSignatures.take 28).find? (Sig.applies (bytes.take sniffLen)
        (firstNonWS (bytes.take sniffLen))) = none := by
      obtain ⟨rest, rfl⟩ := hform
      rfl
    have hsplit : sniffSignatures = sniffSignatures.take 28 ++
        chunk "RIFF" "WEBPVP" "image/webp" :: sniffSignatures.drop 29 := rfl
    have hsniff : sniff (bytes.take sniffLen) = some (chunk "RIFF" "WEBPVP" "image/webp") := by
      rw [sniff, hsplit, List.find?_append, hbefore, Option.none_or,
        List.find?_cons_of_pos (happlies _)]
    rw [detectContentType, hsniff]
    rfl

/-- the three beginnings -/
inductive Picture (form : List UInt8) (bytes : List UInt8) : String → Prop where
  | jpeg (h : [0xff, 0xd8, 0xff] <+: bytes) : Picture form bytes "image/jpeg"
  | png (h : [0x89, 0x50, 0x4e, 0x47, 0x0d, 0x0a, 0x1a, 0x0a] <+: bytes) :
    Picture form bytes "image/png"
  | webp (h : ascii "RIFF" <+: bytes) (hf : form <+: bytes.drop 8) : Picture form bytes "image/webp"

def pictures : List String := ["image/jpeg", "image/png", "image/webp"]

theorem picture_iff {bytes : List UInt8} {kind : String} :
    Picture (ascii "WEBPVP") bytes kind ↔ detectContentType bytes = kind ∧ kind ∈ pictures := by
  constructor
  · rintro (h | h | ⟨h, hf⟩)
    · exact ⟨detectContentType_jpeg.mpr h, by decide⟩
    · exact ⟨detectContentType_png.mpr h, by decide⟩
    · refine ⟨detectContentType_webp.mpr ⟨h, ?_, hf⟩, by decide⟩
      have hlen : 6 ≤ (bytes.drop 8).length := hf.length_le
      rw [List.length_drop] at hlen
      omega
  · rintro ⟨h, hk⟩
    simp only [pictures, List.mem_cons, List.not_mem_nil, or_false] at hk
    rcases hk with rfl | rfl | rfl
    · exact .jpeg (detectContentType_jpeg.mp h)
    · exact .png (detectContentType_png.mp h)
    · obtain ⟨hr, -, hf⟩ := detectContentType_webp.mp h
      exact .webp hr hf

/-- no bytes begin with two different ones -/
theorem prefix_head {a b : UInt8} {s t bytes : List UInt8} (hs : a :: s <+: bytes)
    (ht : b :: t <+: bytes) : a = b := by
  obtain ⟨rest, rfl⟩ := hs
  exact (List.cons_prefix_cons.mp ht).1.symm

/-- the three beginnings exclude one another -/
theorem Picture.unique {form form' bytes : List UInt8} {kind kind' : String}
    (h : Picture form bytes kind) (h' : Picture form' bytes kind') : kind = kind' := by
  have hdiffer : ∀ {a b : UInt8} {s t : List UInt8}, a :: s <+: bytes → b :: t <+: bytes →
      a ≠ b → kind = kind' := fun hs ht hne => (hne (prefix_head hs ht)).elim
  cases h with
  | jpeg h =>
    cases h' with
    | jpeg h' => rfl
    | png h' => exact hdiffer h h' (by decide)
    | webp h' _ => exact hdiffer h h' (by decide)
  | png h =>
    cases h' with
    | jpeg h' => exact hdiffer h h' (by decide)
    | png h' => rfl
    | webp h' _ => exact hdiffer h h' (by decide)
  | webp h _ =>
    cases h' with
    | jpeg h' => exact hdiffer h h' (by decide)
    | png h' => exact hdiffer h h' (by decide)
    | webp h' _ => rfl

end Sniff
