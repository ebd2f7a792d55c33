import Mathlib.Data.List.TakeWhile
import Mathlib.Tactic.NormNum

/-!
# JSON texts

A reader of JSON as an automaton over bytes.  It knows more than RFC 8259 (the constants `NaN` and
`Infinity`) and has no limits of its own; what a reader refuses beyond that is its `Dialect`.

* `Frame`, `State`, `step`   the open objects and arrays, where the reader is, and one byte;
* `Dialect`          the steps that are allowed; `strict`, `nesting`, `intDigits`, `both`;
* `scan`, `value`    a value at the beginning of a text, and what follows it;
* `whole`            a text that is one value, in white space;
* `scan_both`        **two readers find the same exactly if one that is limited as both are finds it**;
* `scan_take`, `scan_of_take`   what is found in the beginning of a text.
-/

namespace JsonText

abbrev Text := List UInt8

def space (b : UInt8) : Bool := b == 0x20 || b == 0x09 || b == 0x0a || b == 0x0d

def digit (b : UInt8) : Bool := 0x30 ≤ b && b ≤ 0x39

def hexDigit (b : UInt8) : Bool := digit b || (0x61 ≤ b && b ≤ 0x66) || (0x41 ≤ b && b ≤ 0x46)

/-- `e`, `E` -/
def exponent (b : UInt8) : Bool := b == 0x65 || b == 0x45

/-! ## the automaton -/

/-- what an open object or array waits for: a colon, the end of a member, the end of an element -/
inductive Frame where
  | key
  | value
  | element
  deriving DecidableEq, Repr

inductive State where
  | value
  /-- a value or `]` -/
  | firstValue
  | key
  /-- a key or `}` -/
  | firstKey
  /-- a value has ended in an object or an array -/
  | after
  | string
  | escape
  | unicode (left : Nat)
  | literal (rest : Text)
  | minus
  | zero
  | int (digits : Nat)
  | point
  | fraction
  | exponent
  | sign
  | power
  /-- the value is complete -/
  | top
  deriving DecidableEq, Repr

/-- a value ends -/
def ended (fs : List Frame) : State × List Frame := (if fs = [] then .top else .after, fs)

def stepAfter (fs : List Frame) (b : UInt8) : Option (State × List Frame) :=
  match fs with
  | [] => none
  | f :: rest =>
    if space b then some (.after, fs)
    else
      match f with
      | .key => if b = 0x3a then some (.value, .value :: rest) else none
      | .value =>
        if b = 0x2c then some (.key, .key :: rest)
        else if b = 0x7d then some (ended rest)
        else none
      | .element =>
        if b = 0x2c then some (.value, fs)
        else if b = 0x5d then some (ended rest)
        else none

def stepValue (s : State) (fs : List Frame) (b : UInt8) : Option (State × List Frame) :=
  if space b then some (s, fs)
  else if b = 0x7b then some (.firstKey, .key :: fs)
  else if b = 0x5b then some (.firstValue, .element :: fs)
  else if b = 0x22 then some (.string, fs)
  else if b = 0x2d then some (.minus, fs)
  else if b = 0x30 then some (.zero, fs)
  else if digit b then some (.int 1, fs)
  -- true, false, null, and the constants
  else if b = 0x74 then some (.literal [0x72, 0x75, 0x65], fs)
  else if b = 0x66 then some (.literal [0x61, 0x6c, 0x73, 0x65], fs)
  else if b = 0x6e then some (.literal [0x75, 0x6c, 0x6c], fs)
  else if b = 0x4e then some (.literal [0x61, 0x4e], fs)
  else if b = 0x49 then some (.literal [0x6e, 0x66, 0x69, 0x6e, 0x69, 0x74, 0x79], fs)
  else none

def stepKey (s : State) (fs : List Frame) (b : UInt8) : Option (State × List Frame) :=
  if space b then some (s, fs) else if b = 0x22 then some (.string, fs) else none

def step (s : State) (fs : List Frame) (b : UInt8) : Option (State × List Frame) :=
  match s with
  | .value => stepValue s fs b
  | .firstValue => if b = 0x5d then some (ended fs.tail) else stepValue s fs b
  | .key => stepKey s fs b
  | .firstKey => if b = 0x7d then some (ended fs.tail) else stepKey s fs b
  | .after => stepAfter fs b
  | .string =>
    if b = 0x22 then some (ended fs)
    else if b = 0x5c then some (.escape, fs)
    else if b < 0x20 then none
    else some (.string, fs)
  | .escape =>
    if b = 0x75 then some (.unicode 4, fs)
    else if [0x62, 0x66, 0x6e, 0x72, 0x74, 0x5c, 0x2f, 0x22].contains b then some (.string, fs)
    else none
  | .unicode left =>
    if hexDigit b then some (if left ≤ 1 then .string else .unicode (left - 1), fs) else none
  | .literal [] => none
  | .literal (c :: rest) =>
    if b = c then some (if rest = [] then ended fs else (.literal rest, fs)) else none
  | .minus =>
    if b = 0x30 then some (.zero, fs)
    else if digit b then some (.int 1, fs)
    else if b = 0x49 then some (.literal [0x6e, 0x66, 0x69, 0x6e, 0x69, 0x74, 0x79], fs)
    else none
  | .zero =>
    if b = 0x2e then some (.point, fs)
    else if exponent b then some (.exponent, fs)
    else stepAfter fs b
  | .int digits =>
    if digit b then some (.int (digits + 1), fs)
    else if b = 0x2e then some (.point, fs)
    else if exponent b then some (.exponent, fs)
    else stepAfter fs b
  | .point => if digit b then some (.fraction, fs) else none
  | .fraction =>
    if digit b then some (.fraction, fs)
    else if exponent b then some (.exponent, fs)
    else stepAfter fs b
  | .exponent =>
    if b = 0x2b ∨ b = 0x2d then some (.sign, fs)
    else if digit b then some (.power, fs)
    else none
  | .sign => if digit b then some (.power, fs) else none
  | .power => if digit b then some (.power, fs) else stepAfter fs b
  | .top => none

/-- the value may end here -/
def finished (s : State) (fs : List Frame) : Bool :=
  fs.isEmpty &&
    match s with
    | .zero | .int _ | .fraction | .power | .top => true
    | _ => false

/-! ## readers -/

/-- the steps that a reader takes; `none`: the end of the text -/
abbrev Dialect := State → List Frame → Option UInt8 → Bool

/-- RFC 8259: no constants -/
def strict : Dialect := fun s _ b =>
  !match s with
    | .value | .firstValue => b == some 0x4e || b == some 0x49
    | .minus => b == some 0x49
    | _ => false

/-- so many objects and arrays in one another -/
def nesting (depth : Nat) : Dialect := fun s fs b =>
  match s with
  | .value | .firstValue => !(b == some 0x7b || b == some 0x5b) || decide (fs.length < depth)
  | _ => true

/-- so many digits in an integer -/
def intDigits (most : Nat) : Dialect := fun s _ b =>
  match s with
  | .int digits =>
    decide (digits ≤ most) || b.any fun b => digit b || b == 0x2e || exponent b
  | _ => true

def both (D D' : Dialect) : Dialect := fun s fs b => D s fs b && D' s fs b

/-- why no value is found: a byte, or the end of the text -/
inductive Stop where
  | syntaxError
  | unexpectedEnd
  deriving DecidableEq, Repr

/-- the rest of the value, and what follows it -/
def scan (D : Dialect) : State → List Frame → Text → Except Stop (Text × Text)
  | s, fs, [] =>
    if D s fs none then
      if finished s fs then .ok ([], []) else .error .unexpectedEnd
    else .error .syntaxError
  | s, fs, b :: rest =>
    if D s fs (some b) then
      match step s fs b with
      | some (s', fs') => (scan D s' fs' rest).map fun x => (b :: x.1, x.2)
      | none => if finished s fs then .ok ([], b :: rest) else .error .syntaxError
    else .error .syntaxError

def value (D : Dialect) (text : Text) : Except Stop (Text × Text) :=
  scan D .value [] (text.dropWhile space)

/-- one value and white space -/
def whole (D : Dialect) (text : Text) : Option Text :=
  match value D text with
  | .ok (v, rest) => if rest.all space then some v else none
  | .error _ => none

/-! ## what is found -/

section
variable {D D' : Dialect} {s : State} {fs : List Frame} {b : UInt8} {text v rest : Text}

theorem scan_nil {x : Text × Text} :
    scan D s fs [] = .ok x ↔ D s fs none = true ∧ finished s fs = true ∧ x = ([], []) := by
  unfold scan
  cases D s fs none with
  | false => exact iff_of_false nofun fun h => nomatch h.1
  | true =>
    cases finished s fs with
    | false => exact iff_of_false nofun fun h => nomatch h.2.1
    | true => exact ⟨fun h => ⟨rfl, rfl, (Except.ok.inj h).symm⟩, fun h => h.2.2 ▸ rfl⟩

theorem scan_cons {x : Text × Text} :
    scan D s fs (b :: text) = .ok x ↔
      D s fs (some b) = true ∧
        (step s fs b = none ∧ finished s fs = true ∧ x = ([], b :: text) ∨
          ∃ s' fs' v rest, step s fs b = some (s', fs') ∧ scan D s' fs' text = .ok (v, rest) ∧
            x = (b :: v, rest)) := by
  rw [scan]
  cases D s fs (some b) with
  | false => exact iff_of_false nofun fun h => nomatch h.1
  | true =>
    cases step s fs b with
    | none =>
      cases finished s fs with
      | false => simp
      | true =>
        constructor
        · intro h
          exact ⟨rfl, .inl ⟨rfl, rfl, (Except.ok.inj h).symm⟩⟩
        · rintro ⟨-, ⟨-, -, rfl⟩ | ⟨s', fs', v, rest, h, -⟩⟩
          · rfl
          · cases h
    | some st =>
      obtain ⟨s', fs'⟩ := st
      show (scan D s' fs' text).map (fun x => (b :: x.1, x.2)) = .ok x ↔ _
      cases hscan : scan D s' fs' text with
      | error e =>
        refine iff_of_false nofun ?_
        rintro ⟨-, ⟨h, -⟩ | ⟨s₁, fs₁, v, rest, h, h', -⟩⟩
        · cases h
        · cases h
          rw [hscan] at h'
          cases h'
      | ok y =>
        obtain ⟨v, rest⟩ := y
        constructor
        · intro h
          exact ⟨rfl, .inr ⟨s', fs', v, rest, rfl, hscan, (Except.ok.inj h).symm⟩⟩
        · rintro ⟨-, ⟨h, -⟩ | ⟨s₁, fs₁, v₁, rest₁, h, h', rfl⟩⟩
          · cases h
          · cases h
            rw [hscan] at h'
            cases h'
            rfl

/-- a value and what follows it are the text -/
theorem scan_append (h : scan D s fs text = .ok (v, rest)) : v ++ rest = text := by
  induction text generalizing s fs v rest with
  | nil =>
    obtain ⟨-, -, he⟩ := scan_nil.mp h
    cases he
    rfl
  | cons b text ih =>
    obtain ⟨-, ⟨-, -, he⟩ | ⟨s', fs', v', rest', -, hscan, he⟩⟩ := scan_cons.mp h
    · cases he
      rfl
    · cases he
      rw [List.cons_append, ih hscan]

theorem scan_both {x : Text × Text} :
    scan (both D D') s fs text = .ok x ↔ scan D s fs text = .ok x ∧ scan D' s fs text = .ok x := by
  induction text generalizing s fs x with
  | nil =>
    rw [scan_nil, scan_nil, scan_nil, both, Bool.and_eq_true]
    tauto
  | cons b text ih =>
    rw [scan_cons, scan_cons, scan_cons, both, Bool.and_eq_true]
    constructor
    · rintro ⟨⟨hD, hD'⟩, hstop | ⟨s', fs', v, rest, hstep, hscan, rfl⟩⟩
      · exact ⟨⟨hD, .inl hstop⟩, hD', .inl hstop⟩
      · obtain ⟨h, h'⟩ := ih.mp hscan
        exact ⟨⟨hD, .inr ⟨s', fs', v, rest, hstep, h, rfl⟩⟩,
          hD', .inr ⟨s', fs', v, rest, hstep, h', rfl⟩⟩
    · rintro ⟨⟨hD, hstop | ⟨s', fs', v, rest, hstep, hscan, rfl⟩⟩, hD', h'⟩
      · exact ⟨⟨hD, hD'⟩, .inl hstop⟩
      · refine ⟨⟨hD, hD'⟩, .inr ⟨s', fs', v, rest, hstep, ih.mpr ⟨hscan, ?_⟩, rfl⟩⟩
        rcases h' with ⟨hnone, -, -⟩ | ⟨s₁, fs₁, v₁, rest₁, hstep₁, hscan₁, he⟩
        · rw [hnone] at hstep
          cases hstep
        · rw [hstep] at hstep₁
          cases hstep₁
          cases he
          exact hscan₁

/-- nothing is refused where a value may end -/
def Ends (D : Dialect) : Prop := ∀ s fs b, finished s fs = true → D s fs b = true

/-- what ends in the beginning of a text is found there -/
theorem scan_take (hD : Ends D) (h : scan D s fs text = .ok (v, rest)) {n : Nat}
    (hn : v.length ≤ n) :
    scan D s fs (text.take n) = .ok (v, rest.take (n - v.length)) := by
  induction text generalizing s fs v rest n with
  | nil =>
    obtain ⟨-, -, he⟩ := scan_nil.mp h
    cases he
    rw [List.take_nil, List.take_nil, h]
  | cons b text ih =>
    obtain ⟨hb, ⟨hstep, hf, he⟩ | ⟨s', fs', v', rest', hstep, hscan, he⟩⟩ := scan_cons.mp h
    · cases he
      cases n with
      | zero => exact scan_nil.mpr ⟨hD s fs none hf, hf, rfl⟩
      | succ n => exact scan_cons.mpr ⟨hb, .inl ⟨hstep, hf, rfl⟩⟩
    · cases he
      obtain ⟨m, rfl⟩ : ∃ m, n = m + 1 :=
        Nat.exists_eq_add_one_of_ne_zero (Nat.ne_of_gt (Nat.lt_of_lt_of_le (Nat.succ_pos _) hn))
      refine scan_cons.mpr ⟨hb, .inr ⟨s', fs', v', _, hstep, ih hscan (Nat.le_of_succ_le_succ hn), ?_⟩⟩
      rw [List.length_cons, Nat.add_sub_add_right]

/-- a value that is found in the beginning of a text, and by another reader in all of it, is one in all
of it -/
theorem scan_of_take (hD : Ends D) {n : Nat} {rest' : Text}
    (h : scan D s fs (text.take n) = .ok (v, rest')) (h' : scan D' s fs text = .ok (v, rest)) :
    scan D s fs text = .ok (v, rest) := by
  induction text generalizing s fs v rest rest' n with
  | nil =>
    obtain ⟨-, -, he⟩ := scan_nil.mp h'
    rw [List.take_nil] at h
    obtain ⟨hb, hf, -⟩ := scan_nil.mp h
    exact scan_nil.mpr ⟨hb, hf, he⟩
  | cons b text ih =>
    obtain ⟨-, ⟨hstep, hf, he⟩ | ⟨s', fs', v', rest₁, hstep, hscan, he⟩⟩ := scan_cons.mp h'
    · exact scan_cons.mpr ⟨hD s fs (some b) hf, .inl ⟨hstep, hf, he⟩⟩
    · cases he
      cases n with
      | zero =>
        obtain ⟨-, -, he⟩ := scan_nil.mp h
        cases he
      | succ n =>
        rw [List.take_succ_cons] at h
        obtain ⟨hb, ⟨-, -, he⟩ | ⟨s₂, fs₂, v₂, rest₂, hstep₂, hscan₂, he⟩⟩ := scan_cons.mp h
        · cases he
        · rw [hstep] at hstep₂
          cases hstep₂
          cases he
          exact scan_cons.mpr ⟨hb, .inr ⟨s', fs', v', _, hstep, ih hscan₂ hscan, rfl⟩⟩

theorem strict_ends : Ends strict := by
  intro s fs b h
  cases s <;> first | rfl | exact absurd h (by simp [finished])

theorem nesting_ends (depth : Nat) : Ends (nesting depth) := by
  intro s fs b h
  cases s <;> first | rfl | exact absurd h (by simp [finished])

theorem both_ends (h : Ends D) (h' : Ends D') : Ends (both D D') := by
  intro s fs b hf
  rw [both, h s fs b hf, h' s fs b hf]
  rfl

/-- white space before a value may be cut off as well -/
theorem dropWhile_take {n : Nat} (h : (text.takeWhile space).length ≤ n) :
    (text.take n).dropWhile space =
      (text.dropWhile space).take (n - (text.takeWhile space).length) := by
  induction text generalizing n with
  | nil => simp
  | cons b text ih =>
    by_cases hb : space b = true
    · rw [List.takeWhile_cons_of_pos hb, List.length_cons] at h ⊢
      obtain ⟨m, rfl⟩ : ∃ m, n = m + 1 :=
        Nat.exists_eq_add_one_of_ne_zero (Nat.ne_of_gt (Nat.lt_of_lt_of_le (Nat.succ_pos _) h))
      rw [List.take_succ_cons, List.dropWhile_cons_of_pos hb, List.dropWhile_cons_of_pos hb,
        ih (Nat.le_of_succ_le_succ h), Nat.add_sub_add_right]
    · rw [List.takeWhile_cons_of_neg hb, List.dropWhile_cons_of_neg hb]
      cases n with
      | zero => rfl
      | succ n => rw [List.take_succ_cons, List.dropWhile_cons_of_neg hb]; rfl

/-- white space only -/
theorem dropWhile_take_eq_nil {n : Nat} (h : n < (text.takeWhile space).length) :
    (text.take n).dropWhile space = [] := by
  refine List.dropWhile_eq_nil_iff.mpr fun b hb => ?_
  have hpre : text.take n <+: text.takeWhile space :=
    List.prefix_of_prefix_length_le (List.take_prefix n text) (List.takeWhile_prefix space) (by
      rw [List.length_take]
      omega)
  exact List.mem_takeWhile_imp (hpre.subset hb)

/-- a value that is found in the beginning of a text, and by another reader in all of it -/
theorem value_take_iff (hD : Ends D) {n : Nat} :
    ((∃ rest', value D (text.take n) = .ok (v, rest')) ∧ value D' text = .ok (v, rest)) ↔
      value (both D D') text = .ok (v, rest) ∧ (text.takeWhile space).length + v.length ≤ n := by
  unfold value
  constructor
  · rintro ⟨⟨rest', h⟩, h'⟩
    have hw : (text.takeWhile space).length ≤ n := by
      by_contra hlt
      rw [dropWhile_take_eq_nil (Nat.lt_of_not_le hlt)] at h
      obtain ⟨-, hf, -⟩ := scan_nil.mp h
      cases hf
    rw [dropWhile_take hw] at h
    have hlen := congrArg List.length (scan_append h)
    rw [List.length_append, List.length_take] at hlen
    exact ⟨scan_both.mpr ⟨scan_of_take hD h h', h'⟩, by omega⟩
  · rintro ⟨h, hlen⟩
    obtain ⟨hgo, hpy⟩ := scan_both.mp h
    rw [dropWhile_take (Nat.le_of_add_right_le hlen)]
    exact ⟨⟨_, scan_take hD hgo (by omega)⟩, hpy⟩

theorem whole_eq_some : whole D text = some v ↔
    ∃ rest, value D text = .ok (v, rest) ∧ rest.all space = true := by
  unfold whole
  split
  · rename_i v' rest h
    split
    · rename_i hr
      constructor
      · intro he
        cases he
        exact ⟨rest, h, hr⟩
      · rintro ⟨rest', h', -⟩
        rw [h] at h'
        cases h'
        rfl
    · rename_i hr
      refine iff_of_false nofun ?_
      rintro ⟨rest', h', hr'⟩
      rw [h] at h'
      cases h'
      exact hr hr'
  · rename_i e h
    refine iff_of_false nofun ?_
    rintro ⟨rest, h', -⟩
    rw [h] at h'
    cases h'

end

end JsonText
