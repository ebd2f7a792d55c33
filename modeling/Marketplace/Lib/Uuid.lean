import Marketplace.Lib.Text

/-!
# The readers of uuids

`uuid.UUID` of Python and `UUID.fromString` of Java.  Both take more than the canonical form of 8, 4, 4,
4 and 12 hexadecimal digits, and not the same.

* `Python.int16`   `int(s, 16)`;  `Python.uuid`     `uuid.UUID(s)`;
* `Java.parseLong` `Long.parseLong(s, 16)`;  `Java.fromString`   `UUID.fromString(s)`;
* `canonical`      the canonical form; `Python.uuid_canonical`, `Java.fromString_canonical`   **both read
                   it back**.

`decimal` is the value of a decimal digit of Unicode, `space` is `str.isspace`.
-/

namespace Uuid

open Text

/-- a text without the occurrences of `p`, from left to right; `skip` characters of one are left -/
def removeAll (p : List Char) : Nat → List Char → List Char
  | _, [] => []
  | skip + 1, _ :: t => removeAll p skip t
  | 0, c :: t =>
    if p.isPrefixOf (c :: t) then removeAll p (p.length - 1) t
    else c :: removeAll p 0 t

section
variable (decimal : Char → Option Nat)

/-! ## Python -/

namespace Python

def digit (c : Char) : Option Nat := (hexDigit c).or (decimal c)

/-- the digits, with single underscores between them -/
def grouped (s : List Char) : Option Nat :=
  let groups := s.splitOn '_'
  if groups.any (·.isEmpty) then none
  else (groups.flatten.mapM (digit decimal)).map ofHex

/-- `int(s, 16)` of a text without `-` -/
def int16 (space : Char → Bool) (s : List Char) : Option Nat :=
  let unsigned :=
    match trimBy space s with
    | '+' :: t => t
    | t => t
  match unsigned with
  | '0' :: x :: t =>
    if x = 'x' ∨ x = 'X' then
      match t with
      | '_' :: t => grouped decimal t
      | t => grouped decimal t
    else grouped decimal unsigned
  | t => grouped decimal t

/-- `uuid.UUID(s)` -/
def uuid (space : Char → Bool) (s : String) : Option Nat :=
  let bare := removeAll "uuid:".toList 0 (removeAll "urn:".toList 0 s.toList)
  let hex := (trimBy (fun c => c == '\x7b' || c == '\x7d') bare).filter (· ≠ '-')
  if hex.length ≠ 32 then none
  else int16 decimal space hex

end Python

/-! ## Java -/

namespace Java

/-- `Character.digit(c, 16)` of one UTF-16 unit -/
def digit (c : Char) : Option Nat :=
  if 0x10000 ≤ c.val then none
  else if 0xff21 ≤ c.val ∧ c.val ≤ 0xff26 then some (c.toNat - 0xff21 + 10)
  else if 0xff41 ≤ c.val ∧ c.val ≤ 0xff46 then some (c.toNat - 0xff41 + 10)
  else (hexDigit c).or (decimal c)

/-- `Long.parseLong(s, 16)` of a text without `-` -/
def parseLong (s : List Char) : Option Nat :=
  let unsigned :=
    match s with
    | '+' :: t => t
    | t => t
  if unsigned = [] then none
  else ((unsigned.mapM (digit decimal)).map ofHex).filter (· < 2 ^ 63)

/-- `UUID.fromString(s)` -/
def fromString (s : String) : Option Nat :=
  if 36 < s.toList.length then none
  else
    match s.toList.splitOn '-' with
    | [a, b, c, d, e] => do
      let a ← parseLong decimal a
      let b ← parseLong decimal b
      let c ← parseLong decimal c
      let d ← parseLong decimal d
      let e ← parseLong decimal e
      return (((a % 2 ^ 32 * 2 ^ 16 + b % 2 ^ 16) * 2 ^ 16 + c % 2 ^ 16) * 2 ^ 16 + d % 2 ^ 16) *
        2 ^ 48 + e % 2 ^ 48
    | _ => none

end Java

end

/-! ## the canonical form -/

/-- 32 digits in groups of 8, 4, 4, 4 and 12 -/
def canonical (ds : List Char) : List Char :=
  ds.take 8 ++ '-' :: (ds.drop 8).take 4 ++ '-' :: (ds.drop 12).take 4 ++
    '-' :: (ds.drop 16).take 4 ++ '-' :: ds.drop 20

def hexValue (c : Char) : Nat := (hexDigit c).getD 0

/-- the value of digits to the base 16 -/
def value (ds : List Char) : Nat := ofHex (ds.map hexValue)

/-- digits to the base 16 only -/
def Hex (ds : List Char) : Prop := ∀ c ∈ ds, (hexDigit c).isSome = true

theorem removeAll_eq_self {p : List Char} {c : Char} (hp : c ∈ p) {t : List Char} (ht : c ∉ t) :
    removeAll p 0 t = t := by
  induction t with
  | nil => rfl
  | cons d t ih =>
    have hpre : ¬p.isPrefixOf (d :: t) = true := fun h =>
      ht ((List.isPrefixOf_iff_prefix.mp h).subset hp)
    rw [removeAll, if_neg hpre, ih fun h => ht (List.mem_cons_of_mem d h)]

theorem foldl_hex (ys : List Nat) (n : Nat) :
    ys.foldl (fun n d => n * 16 + d) n = n * 16 ^ ys.length + ofHex ys := by
  induction ys generalizing n with
  | nil => simp [ofHex]
  | cons y ys ih =>
    have hy : ofHex (y :: ys) = y * 16 ^ ys.length + ofHex ys := by
      show ys.foldl _ (0 * 16 + y) = _
      rw [ih, Nat.zero_mul, Nat.zero_add]
    rw [List.foldl_cons, ih, hy, List.length_cons, Nat.pow_succ, Nat.add_mul, Nat.mul_assoc,
      Nat.mul_comm 16, Nat.add_assoc]

theorem value_append (ds es : List Char) :
    value (ds ++ es) = value ds * 16 ^ es.length + value es := by
  unfold value
  rw [List.map_append]
  show (ds.map hexValue ++ es.map hexValue).foldl _ 0 = _
  rw [List.foldl_append, foldl_hex, List.length_map]
  rfl

theorem hexValue_lt (c : Char) : hexValue c < 16 := by
  unfold hexValue hexDigit
  simp only [Char.le_def, UInt32.le_iff_toNat_le, Char.toNat_val, Char.reduceVal,
    UInt32.reduceToNat]
  split
  · simp only [Option.getD_some]
    omega
  · split
    · simp only [Option.getD_some]
      omega
    · split
      · simp only [Option.getD_some]
        omega
      · decide

theorem value_lt (ds : List Char) : value ds < 16 ^ ds.length := by
  induction ds with
  | nil => decide
  | cons d ds ih =>
    have hd := hexValue_lt d
    have happ : value (d :: ds) = hexValue d * 16 ^ ds.length + value ds := by
      rw [← List.singleton_append, value_append]
      show (0 * 16 + hexValue d) * _ + _ = _
      rw [Nat.zero_mul, Nat.zero_add]
    rw [happ, List.length_cons, Nat.pow_succ]
    have hmul : hexValue d * 16 ^ ds.length ≤ 15 * 16 ^ ds.length :=
      Nat.mul_le_mul_right _ (by omega)
    omega

theorem Hex.sublist {ds es : List Char} (h : Hex es) (hs : ds.Sublist es) : Hex ds :=
  fun c hc => h c (hs.subset hc)

theorem hex_ne {c : Char} (h : (hexDigit c).isSome = true) {d : Char} (hd : hexDigit d = none) :
    c ≠ d := by
  rintro rfl
  rw [hd] at h
  cases h

theorem Hex.not_mem {ds : List Char} (h : Hex ds) {d : Char} (hd : hexDigit d = none) : d ∉ ds :=
  fun hm => hex_ne (h d hm) hd rfl

/-- where the digits lie -/
theorem hex_range {c : Char} (h : (hexDigit c).isSome = true) :
    48 ≤ c.val.toNat ∧ c.val.toNat ≤ 102 := by
  unfold hexDigit at h
  simp only [Char.le_def, UInt32.le_iff_toNat_le] at h
  split at h
  · rename_i hc
    have hc : 48 ≤ c.val.toNat ∧ c.val.toNat ≤ 57 := hc
    omega
  · split at h
    · rename_i hc
      have hc : 97 ≤ c.val.toNat ∧ c.val.toNat ≤ 102 := hc
      omega
    · split at h
      · rename_i hc
        have hc : 65 ≤ c.val.toNat ∧ c.val.toNat ≤ 70 := hc
        omega
      · cases h

theorem mapM_hex {f : Char → Option Nat} {ds : List Char} (h : Hex ds)
    (hf : ∀ c, (hexDigit c).isSome = true → f c = hexDigit c) :
    ds.mapM f = some (ds.map hexValue) := by
  induction ds with
  | nil => rfl
  | cons d ds ih =>
    have hd := h d List.mem_cons_self
    rw [List.mapM_cons, hf d hd, ih fun c hc => h c (List.mem_cons_of_mem d hc), List.map_cons]
    obtain ⟨v, hv⟩ := Option.isSome_iff_exists.mp hd
    rw [hexValue, hv]
    rfl

theorem mem_canonical {ds : List Char} {c : Char} (h : c ∈ canonical ds) : c ∈ ds ∨ c = '-' := by
  simp only [canonical, List.mem_append, List.mem_cons] at h
  rcases h with (((h | h | h) | h | h) | h | h) | h | h
  · exact .inl (List.mem_of_mem_take h)
  · exact .inr h
  · exact .inl (List.mem_of_mem_drop (List.mem_of_mem_take h))
  · exact .inr h
  · exact .inl (List.mem_of_mem_drop (List.mem_of_mem_take h))
  · exact .inr h
  · exact .inl (List.mem_of_mem_drop (List.mem_of_mem_take h))
  · exact .inr h
  · exact .inl (List.mem_of_mem_drop h)

/-- a character that is neither a digit nor a dash -/
theorem not_mem_canonical {ds : List Char} (h : Hex ds) {c : Char} (hc : hexDigit c = none)
    (hd : c ≠ '-') : c ∉ canonical ds :=
  fun hm => (mem_canonical hm).elim (h.not_mem hc) hd

theorem filter_canonical {ds : List Char} (h : Hex ds) :
    (canonical ds).filter (· ≠ '-') = ds := by
  have hkeep : ∀ es : List Char, es.Sublist ds → es.filter (fun c => decide (c ≠ '-')) = es := by
    intro es hs
    refine List.filter_eq_self.mpr fun c hc => ?_
    exact decide_eq_true (hex_ne ((h.sublist hs) c hc) (by decide))
  have hdash : ∀ es : List Char, es.Sublist ds →
      ('-' :: es).filter (fun c => decide (c ≠ '-')) = es := by
    intro es hs
    rw [List.filter_cons_of_neg (by decide), hkeep es hs]
  have htake : ∀ k n, ((ds.drop k).take n).Sublist ds :=
    fun k n => (List.take_sublist n _).trans (List.drop_sublist k ds)
  have hsplit : ∀ k n, (ds.drop k).take n ++ ds.drop (k + n) = ds.drop k := by
    intro k n
    rw [← List.drop_drop, List.take_append_drop]
  unfold canonical
  rw [List.filter_append, List.filter_append, List.filter_append, List.filter_append,
    hkeep _ (List.take_sublist 8 ds), hdash _ (htake 8 4), hdash _ (htake 12 4),
    hdash _ (htake 16 4), hdash _ (List.drop_sublist 20 ds), List.append_assoc, List.append_assoc,
    List.append_assoc, hsplit 16 4, hsplit 12 4, hsplit 8 4, List.take_append_drop]

theorem splitOn_canonical {ds : List Char} (h : Hex ds) :
    (canonical ds).splitOn '-' =
      [ds.take 8, (ds.drop 8).take 4, (ds.drop 12).take 4, (ds.drop 16).take 4, ds.drop 20] := by
  have hno : ∀ es : List Char, es.Sublist ds → '-' ∉ es :=
    fun es hs => (h.sublist hs).not_mem (by decide)
  have htake : ∀ k n, '-' ∉ (ds.drop k).take n :=
    fun k n => hno _ ((List.take_sublist n _).trans (List.drop_sublist k ds))
  unfold canonical
  rw [List.append_assoc, List.append_assoc, List.append_assoc, List.cons_append, List.cons_append,
    List.cons_append, List.splitOn_append_cons_self_of_not_mem (hno _ (List.take_sublist 8 ds)),
    List.splitOn_append_cons_self_of_not_mem (htake 8 4),
    List.splitOn_append_cons_self_of_not_mem (htake 12 4),
    List.splitOn_append_cons_self_of_not_mem (htake 16 4),
    List.splitOn_eq_singleton (hno _ (List.drop_sublist 20 ds))]

theorem length_canonical (ds : List Char) (h : 32 ≤ ds.length) :
    (canonical ds).length = ds.length + 4 := by
  simp only [canonical, List.length_append, List.length_cons, List.length_take, List.length_drop]
  omega

section
variable (decimal : Char → Option Nat) {ds : List Char}

theorem Python.grouped_hex (h : Hex ds) (hne : ds ≠ []) :
    Python.grouped decimal ds = some (value ds) := by
  have hsplit : ds.splitOn '_' = [ds] := List.splitOn_eq_singleton (h.not_mem (by decide))
  have hany : [ds].any (·.isEmpty) = false := by
    cases ds with
    | nil => exact absurd rfl hne
    | cons d ds => rfl
  unfold Python.grouped
  rw [hsplit]
  show (if [ds].any (·.isEmpty) = true then _ else _) = _
  rw [hany, if_neg Bool.false_ne_true, List.flatten_singleton, mapM_hex h]
  · rfl
  · intro c hc
    obtain ⟨v, hv⟩ := Option.isSome_iff_exists.mp hc
    rw [Python.digit, hv, Option.some_or]

theorem Python.int16_hex {space : Char → Bool} (h : Hex ds) (hne : ds ≠ [])
    (hs : ∀ c ∈ ds, space c = false) : Python.int16 decimal space ds = some (value ds) := by
  have hplus : ∀ t, ds ≠ '+' :: t := by
    rintro t rfl
    exact h.not_mem (d := '+') (by decide) List.mem_cons_self
  have hx : ∀ x t, ds = '0' :: x :: t → ¬(x = 'x' ∨ x = 'X') := by
    rintro x t rfl
    have hmem : (hexDigit x).isSome = true := h x (List.mem_cons_of_mem _ List.mem_cons_self)
    rintro (rfl | rfl)
    · exact absurd hmem (by decide)
    · exact absurd hmem (by decide)
  have hread := Python.grouped_hex decimal h hne
  unfold Python.int16
  rw [trimBy_eq_self hs]
  dsimp only
  split
  · rename_i x t heq
    split at heq
    · exact absurd rfl (hplus _)
    · rw [if_neg (hx x t heq)]
      exact hread
  · split
    · exact absurd rfl (hplus _)
    · exact hread

/-- **Python reads the canonical form back** -/
theorem Python.uuid_canonical {space : Char → Bool} (h : Hex ds)
    (hs : ∀ c ∈ ds, space c = false) :
    Python.uuid decimal space (String.ofList (canonical ds)) =
      if ds.length = 32 then some (value ds) else none := by
  have hcolon : ':' ∉ canonical ds := not_mem_canonical h (by decide) (by decide)
  have hbrace : ∀ c ∈ canonical ds, (c == '\x7b' || c == '\x7d') = false := by
    intro c hc
    rw [Bool.or_eq_false_iff, beq_eq_false_iff_ne, beq_eq_false_iff_ne]
    refine ⟨?_, ?_⟩
    · rintro rfl
      exact not_mem_canonical h (by decide) (by decide) hc
    · rintro rfl
      exact not_mem_canonical h (by decide) (by decide) hc
  have htext : (String.ofList (canonical ds)).toList = canonical ds := String.toList_ofList
  unfold Python.uuid
  rw [htext, removeAll_eq_self (p := "urn:".toList) (c := ':') (by decide) hcolon,
    removeAll_eq_self (p := "uuid:".toList) (c := ':') (by decide) hcolon]
  dsimp only
  rw [trimBy_eq_self hbrace, filter_canonical h]
  by_cases hlen : ds.length = 32
  · have hne : ds ≠ [] := by
      rintro rfl
      cases hlen
    rw [if_neg (not_not.mpr hlen), if_pos hlen, Python.int16_hex decimal h hne hs]
  · rw [if_pos hlen, if_neg hlen]

theorem Java.parseLong_hex (h : Hex ds) (hne : ds ≠ []) (hlen : ds.length ≤ 12) :
    Java.parseLong decimal ds = some (value ds) := by
  have hplus : ∀ t, ds ≠ '+' :: t := by
    rintro t rfl
    exact h.not_mem (d := '+') (by decide) List.mem_cons_self
  have hdigit : ∀ c, (hexDigit c).isSome = true → Java.digit decimal c = hexDigit c := by
    intro c hc
    have hlow := (hex_range hc).2
    have hsmall : ∀ n : UInt32, 102 < n.toNat → ¬n ≤ c.val := by
      intro n hn hle
      have := UInt32.le_iff_toNat_le.mp hle
      omega
    unfold Java.digit
    rw [if_neg (hsmall _ (by decide)), if_neg fun hx => hsmall _ (by decide) hx.1,
      if_neg fun hx => hsmall _ (by decide) hx.1]
    obtain ⟨v, hv⟩ := Option.isSome_iff_exists.mp hc
    rw [hv, Option.some_or]
  have hfit : value ds < 2 ^ 63 := by
    have hlt := value_lt ds
    have hpow : 16 ^ ds.length ≤ 16 ^ 12 := Nat.pow_le_pow_right (by decide) hlen
    omega
  unfold Java.parseLong
  dsimp only
  split
  · exact absurd rfl (hplus _)
  · rw [if_neg hne, mapM_hex h hdigit]
    show Option.filter _ (some (value ds)) = _
    rw [Option.filter_some, if_pos (decide_eq_true hfit)]

/-- **Java reads the canonical form back** -/
theorem Java.fromString_canonical (h : Hex ds) (hlen : 32 ≤ ds.length) :
    Java.fromString decimal (String.ofList (canonical ds)) =
      if ds.length = 32 then some (value ds) else none := by
  have hlong := length_canonical ds hlen
  unfold Java.fromString
  rw [String.toList_ofList, hlong]
  by_cases hl : ds.length = 32
  · have part : ∀ es : List Char, es.Sublist ds → 0 < es.length → es.length ≤ 12 →
        Java.parseLong decimal es = some (value es) :=
      fun es hs hpos hle =>
        Java.parseLong_hex decimal (h.sublist hs) (List.ne_nil_of_length_pos hpos) hle
    have htake : ∀ k, ((ds.drop k).take 4).Sublist ds :=
      fun k => (List.take_sublist 4 _).trans (List.drop_sublist k ds)
    have hfour : ∀ k, k ≤ 28 → ((ds.drop k).take 4).length = 4 := by
      intro k hk
      rw [List.length_take, List.length_drop]
      omega
    have hfirst : (ds.take 8).length = 8 := by
      rw [List.length_take]
      omega
    have hlast : (ds.drop 20).length = 12 := by
      rw [List.length_drop]
      omega
    have h8 := hfour 8 (by omega)
    have h12 := hfour 12 (by omega)
    have h16 := hfour 16 (by omega)
    rw [if_neg (by omega), if_pos hl, splitOn_canonical h]
    dsimp only
    rw [part _ (List.take_sublist 8 ds) (by omega) (by omega), part _ (htake 8) (by omega) (by omega),
      part _ (htake 12) (by omega) (by omega), part _ (htake 16) (by omega) (by omega),
      part _ (List.drop_sublist 20 ds) (by omega) (by omega)]
    have small : ∀ {es : List Char} {n : Nat}, es.length = n → value es < 16 ^ n :=
      fun {es} {n} hn => hn ▸ value_lt es
    have v8 := small hfirst
    have v12 := small h8
    have v16 := small h12
    have v20 := small h16
    have v32 := small hlast
    have split : ∀ k n, value (ds.drop k) =
        value ((ds.drop k).take n) * 16 ^ (ds.length - (k + n)) + value (ds.drop (k + n)) := by
      intro k n
      conv_lhs => rw [← List.take_append_drop n (ds.drop k)]
      rw [value_append, List.drop_drop, List.length_drop]
    have s0 : value ds = value (ds.take 8) * 16 ^ (ds.length - (0 + 8)) + value (ds.drop (0 + 8)) :=
      split 0 8
    have s8 := split 8 4
    have s12 := split 12 4
    have s16 := split 16 4
    rw [hl] at s0 s8 s12 s16
    show some _ = some _
    refine congrArg some ?_
    rw [Nat.mod_eq_of_lt (show value (ds.take 8) < 2 ^ 32 from v8),
      Nat.mod_eq_of_lt (show value ((ds.drop 8).take 4) < 2 ^ 16 from v12),
      Nat.mod_eq_of_lt (show value ((ds.drop 12).take 4) < 2 ^ 16 from v16),
      Nat.mod_eq_of_lt (show value ((ds.drop 16).take 4) < 2 ^ 16 from v20),
      Nat.mod_eq_of_lt (show value (ds.drop 20) < 2 ^ 48 from v32)]
    norm_num at s0 s8 s12 s16 ⊢
    omega
  · rw [if_pos (by omega), if_neg hl]

end

end Uuid
