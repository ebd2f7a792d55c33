import Mathlib.Data.List.DropRight
import Mathlib.Tactic.NormNum

/-!
# Trimming, lengths, and JSON values

* `trimBy f s`       `s` without the characters at its two ends that meet `f`;
* `length_toString_int`   a number has as many digits as its bound allows;
* `hexDigit`, `ofHex`   hexadecimal digits;
* `Json`             the values of JSON; an object is the list of its fields as they were written;
* `Json.field`       the value of a field, `Json.members` the fields of an object that may have no
                     others than the given ones.
-/

namespace Text

variable {α : Type} {f g : α → Bool} {s : List α}

def trimBy (f : α → Bool) (s : List α) : List α := (s.dropWhile f).rdropWhile f

theorem trimBy_sublist (f : α → Bool) (s : List α) : (trimBy f s).Sublist s :=
  (List.rdropWhile_prefix f (s.dropWhile f)).sublist.trans (List.dropWhile_suffix f).sublist

theorem length_trimBy (f : α → Bool) (s : List α) : (trimBy f s).length ≤ s.length :=
  (trimBy_sublist f s).length_le

/-- something is left exactly if not everything may go -/
theorem trimBy_eq_nil : trimBy f s = [] ↔ ∀ c ∈ s, f c = true := by
  unfold trimBy
  rw [List.rdropWhile_eq_nil_iff]
  constructor
  · intro h c hc
    rw [← List.takeWhile_append_dropWhile (p := f) (l := s)] at hc
    rcases List.mem_append.mp hc with hc | hc
    · exact List.mem_takeWhile_imp hc
    · exact h c hc
  · exact fun h c hc => h c ((List.dropWhile_suffix f).subset hc)

/-- the first character of what is left -/
theorem head_trimBy {c : α} {cs : List α} (h : trimBy f s = c :: cs) : f c = false := by
  have hp : List.rdropWhile f (s.dropWhile f) <+: s.dropWhile f := List.rdropWhile_prefix f _
  obtain ⟨rest, hr⟩ := hp
  rw [show List.rdropWhile f (s.dropWhile f) = c :: cs from h] at hr
  have hne : s.dropWhile f ≠ [] := by
    rw [← hr]
    exact List.cons_ne_nil _ _
  have := List.head_dropWhile_not f hne
  simpa [← hr] using this

/-- what is trimmed by `f` has nothing at its ends that a narrower trimming would drop -/
theorem trimBy_trimBy (hg : ∀ c, g c = true → f c = true) (s : List α) :
    trimBy g (trimBy f s) = trimBy f s := by
  have hout : ∀ {c}, f c = false → ¬g c = true := by
    intro c hf hc
    rw [hg c hc] at hf
    cases hf
  cases h : trimBy f s with
  | nil => rfl
  | cons c cs =>
    have hlast : ∀ hne : c :: cs ≠ [], ¬g ((c :: cs).getLast hne) = true := by
      rw [← h]
      intro hne
      have hl : ¬f ((trimBy f s).getLast hne) = true := List.rdropWhile_last_not f _ hne
      exact hout (by simpa using hl)
    rw [trimBy, List.dropWhile_cons_of_neg (hout (head_trimBy h))]
    exact List.rdropWhile_eq_self_iff.mpr hlast

theorem trimBy_ne_nil (hg : ∀ c, g c = true → f c = true) (h : trimBy f s ≠ []) :
    trimBy g (trimBy f s) ≠ [] := by
  rwa [trimBy_trimBy hg]

theorem trimBy_idem (f : α → Bool) (s : List α) : trimBy f (trimBy f s) = trimBy f s :=
  trimBy_trimBy (fun _ h => h) s

/-- nothing may go -/
theorem trimBy_eq_self (h : ∀ c ∈ s, f c = false) : trimBy f s = s := by
  have hout : ∀ c ∈ s, ¬f c = true := by
    intro c hc
    rw [h c hc]
    exact Bool.false_ne_true
  have hdrop : s.dropWhile f = s := by
    cases s with
    | nil => rfl
    | cons c s => exact List.dropWhile_cons_of_neg (hout c List.mem_cons_self)
  rw [trimBy, hdrop, List.rdropWhile_eq_self_iff]
  exact fun hne => hout _ (List.getLast_mem hne)

theorem trimBy_replicate {c : α} (h : f c = false) (n : Nat) :
    trimBy f (List.replicate n c) = List.replicate n c := by
  refine trimBy_eq_self fun d hd => ?_
  rw [List.eq_of_mem_replicate hd, h]

/-! ## lengths -/

theorem length_le_utf8ByteSize (s : String) : s.length ≤ s.utf8ByteSize := by
  induction s using String.push_induction with
  | empty => simp
  | push b c ih =>
    rw [String.length_push, String.utf8ByteSize_push]
    have := Char.utf8Size_pos c
    omega

theorem utf8ByteSize_ofList (l : List Char) :
    (String.ofList l).utf8ByteSize = (l.map Char.utf8Size).sum := by
  induction l with
  | nil => simp
  | cons c l ih =>
    rw [← List.singleton_append, String.ofList_append, String.utf8ByteSize_append, ih]
    simp

theorem length_toString_nat {n k : Nat} (hk : 0 < k) (h : n < 10 ^ k) : (toString n).length ≤ k :=
  (Nat.length_repr_le_iff hk).mpr h

theorem length_toString_int {n : Int} {k : Nat} (hk : 0 < k) (h0 : 0 ≤ n) (h : n < 10 ^ k) :
    (toString n).length ≤ k := by
  obtain ⟨m, rfl⟩ := Int.eq_ofNat_of_zero_le h0
  refine length_toString_nat hk ?_
  exact_mod_cast h

/-! ## digits -/

def hexDigit (c : Char) : Option Nat :=
  if '0' ≤ c ∧ c ≤ '9' then some (c.toNat - 48)
  else if 'a' ≤ c ∧ c ≤ 'f' then some (c.toNat - 87)
  else if 'A' ≤ c ∧ c ≤ 'F' then some (c.toNat - 55)
  else none

/-- the value of digits to the base 16, the first of them the highest -/
def ofHex (ds : List Nat) : Nat := ds.foldl (fun n d => n * 16 + d) 0

end Text

inductive Json where
  | null
  | bool (b : Bool)
  | num (n : Rat)
  | str (s : String)
  | arr (xs : List Json)
  | obj (fs : List (String × Json))

namespace Json

/-- of equal keys the last one counts -/
def field (k : String) (fs : List (String × Json)) : Option Json :=
  (fs.reverse.find? (·.1 == k)).map (·.2)

/-- the fields of an object, all of them among `names` -/
def members (names : List String) : Json → Option (List (String × Json))
  | .obj fs => if fs.all fun f => names.contains f.1 then some fs else none
  | _ => none

def string : Json → Option String
  | .str s => some s
  | _ => none

def list : Json → Option (List Json)
  | .arr xs => some xs
  | _ => none

end Json
