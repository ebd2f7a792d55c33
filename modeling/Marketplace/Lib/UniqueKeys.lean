import Marketplace.Lib.Known

/-!
# Tables with unique keys

The rows of some tables, where no two rows may have a key in common.  The unique indexes are
checked by the statements, one key after the other, and the database locks every key of the rows
that a transaction writes until it ends; nothing is checked at the commit.

* `Keyed ρ κ`        the keys of a row;
* `Rows ρ`, `Edit ρ` the contents, and a row that is inserted or that replaces another one;
* `Rows.under k`     the rows that have the key `k`: the part of the contents under its lock;
* `Rows.Unique`      there is one of them at most: the one that `Rows.lookup` finds;
* `insert`, `replace`   the two statements.  A key that somebody else has locked is waited for, and one
                     that a row has is a violation;
* `Distinct`         no key is given twice, neither in what is committed nor in what any open
                     transaction sees;
* `runs_distinct`    **so it is in every run**, whatever the programs are.
-/

set_option linter.unusedSectionVars false

namespace UniqueKeys

open Service ReadCommitted Interleave

class Keyed (ρ : Type) (κ : outParam Type) where
  keys : ρ → List κ

export Keyed (keys)

structure Rows (ρ : Type) where
  rows : List ρ
  deriving DecidableEq, Repr

def Rows.empty {ρ : Type} : Rows ρ := ⟨[]⟩

inductive Edit (ρ : Type) where
  | insert (new : ρ)
  | replace (old new : ρ)
  deriving DecidableEq, Repr

section
variable {ρ κ : Type} [DecidableEq ρ] [DecidableEq κ] [Keyed ρ κ]

/-- the rows that have the key -/
def Rows.under (k : κ) (d : Rows ρ) : List ρ := d.rows.filter fun r => k ∈ keys r

def Edit.apply : Edit ρ → Rows ρ → Rows ρ
  | .insert new, d => ⟨d.rows ++ [new]⟩
  | .replace old new, d => ⟨d.rows.filter (· ≠ old) ++ [new]⟩

def Edit.keys : Edit ρ → List κ
  | .insert new => UniqueKeys.keys new
  | .replace old new => UniqueKeys.keys old ++ UniqueKeys.keys new

theorem mem_under {k : κ} {d : Rows ρ} {r : ρ} : r ∈ d.under k ↔ r ∈ d.rows ∧ k ∈ keys r := by
  simp [Rows.under]

/-- no two rows have a key in common -/
def Rows.Unique (d : Rows ρ) : Prop := ∀ k, (d.under k).length ≤ 1

/-- the row that has the key -/
def Rows.lookup (d : Rows ρ) (k : κ) : Option ρ := (d.under k).head?

theorem mem_of_lookup {d : Rows ρ} {k : κ} {r : ρ} (h : d.lookup k = some r) : r ∈ d.under k :=
  List.mem_of_mem_head? h

theorem lookup_eq_none {d : Rows ρ} {k : κ} : d.lookup k = none ↔ d.under k = [] :=
  List.head?_eq_none_iff

theorem lookup_of_under {d : Rows ρ} {k : κ} {r : ρ} (h : d.under k = [r]) :
    d.lookup k = some r := by
  unfold Rows.lookup
  rw [h]
  rfl

theorem Rows.Unique.under {d : Rows ρ} (h : d.Unique) {k : κ} {r : ρ} (hr : r ∈ d.under k) :
    d.under k = [r] := by
  obtain ⟨a, ha⟩ :=
    List.length_eq_one_iff.mp (Nat.le_antisymm (h k) (List.length_pos_of_mem hr))
  rw [ha] at hr ⊢
  rw [List.mem_singleton.mp hr]

theorem Rows.Unique.eq {d : Rows ρ} (h : d.Unique) {k : κ} {r r' : ρ} (hr : r ∈ d.under k)
    (hr' : r' ∈ d.under k) : r = r' := by
  rw [h.under hr'] at hr
  exact List.mem_singleton.mp hr

theorem Rows.Unique.lookup {d : Rows ρ} (h : d.Unique) {k : κ} {r : ρ} (hr : r ∈ d.under k) :
    d.lookup k = some r :=
  lookup_of_under (h.under hr)

/-- the row of the edit, if it has the key -/
def having (k : κ) (r : ρ) : List ρ := [r].filter fun r => k ∈ keys r

theorem having_of_mem {k : κ} {r : ρ} (h : k ∈ keys r) : having k r = [r] := by
  simp [having, h]

theorem having_of_not_mem {k : κ} {r : ρ} (h : k ∉ keys r) : having k r = [] := by
  simp [having, h]

theorem under_insert (k : κ) (new : ρ) (d : Rows ρ) :
    ((Edit.insert new).apply d).under k = d.under k ++ having k new :=
  List.filter_append ..

theorem under_replace (k : κ) (old new : ρ) (d : Rows ρ) :
    ((Edit.replace old new).apply d).under k = (d.under k).filter (· ≠ old) ++ having k new := by
  unfold Rows.under Edit.apply having
  rw [List.filter_append, List.filter_filter, List.filter_filter]
  refine congrArg (· ++ _) (List.filter_congr fun r _ => Bool.and_comm _ _)

/-- an edit of rows that do not have the key -/
theorem under_apply {k : κ} {w : Edit ρ} (d : Rows ρ) (h : k ∉ w.keys) :
    (w.apply d).under k = d.under k := by
  cases w with
  | insert new =>
    rw [under_insert, having_of_not_mem h, List.append_nil]
  | replace old new =>
    obtain ⟨ho, hn⟩ := not_or.mp (mt List.mem_append.mpr h)
    rw [under_replace, having_of_not_mem hn, List.append_nil]
    refine List.filter_eq_self.mpr fun r hr => ?_
    have hne : r ≠ old := fun e => ho (e ▸ (mem_under.mp hr).2)
    simpa using hne

theorem under_congr {k : κ} {d e : Rows ρ} (w : Edit ρ) (h : d.under k = e.under k) :
    (w.apply d).under k = (w.apply e).under k := by
  cases w with
  | insert new => rw [under_insert, under_insert, h]
  | replace old new => rw [under_replace, under_replace, h]

/-- the database itself takes every lock that is needed -/
instance : Schema (Rows ρ) (Edit ρ) κ where
  apply := Edit.apply
  takes := Edit.keys
  guards := Edit.keys
  same k d e := d.under k = e.under k
  same_refl _ _ := rfl
  same_trans h h' := h.trans h'
  same_apply d h := (under_apply d h).symm
  same_congr w h := under_congr w h

/-! ## the statements -/

section
variable {P : Type} [DecidableEq P]

/-- somebody else has locked the key, or a row has it -/
def busy (p : P) (s : Store P (Rows ρ) (Edit ρ) κ) (k : κ) : Bool :=
  !s.free p k || !((s.view p).under k).isEmpty

/-- the first of the keys that is busy is waited for, or violated; if none is, the row is written -/
def checked (p : P) (ks : List κ) (w : Edit ρ) (s : Store P (Rows ρ) (Edit ρ) κ) :
    Option (Except PgErr Unit × Store P (Rows ρ) (Edit ρ) κ) :=
  match ks.find? (busy p s) with
  | some k => if s.free p k then some (.error .uniqueViolation, s) else none
  | none => (s.put p w).map fun t => (.ok (), t)

def insert (p : P) (new : ρ) (s : Store P (Rows ρ) (Edit ρ) κ) :
    Option (Except PgErr Unit × Store P (Rows ρ) (Edit ρ) κ) :=
  checked p (keys new) (.insert new) s

/-- the row is locked first, and only keys that it did not have are checked -/
def replace (p : P) (old new : ρ) (s : Store P (Rows ρ) (Edit ρ) κ) :
    Option (Except PgErr Unit × Store P (Rows ρ) (Edit ρ) κ) :=
  if (keys old).all (s.free p) then
    checked p ((keys new).filter fun k => k ∉ keys old) (.replace old new) s
  else none

variable {p : P} {s t : Store P (Rows ρ) (Edit ρ) κ} {k : κ}

theorem not_busy (h : ¬busy p s k = true) : s.free p k = true ∧ (s.view p).under k = [] := by
  simpa [busy] using h

theorem checked_cases {ks : List κ} {w : Edit ρ} {a : Except PgErr Unit}
    (h : checked p ks w s = some (a, t)) :
    (a = .ok () ∧ s.put p w = some t ∧ ∀ k ∈ ks, (s.view p).under k = []) ∨
    (a = .error .uniqueViolation ∧ t = s ∧ ∃ k ∈ ks, (s.view p).under k ≠ []) := by
  unfold checked at h
  split at h
  · rename_i k hk
    have hmem := List.mem_of_find?_eq_some hk
    have hbusy := List.find?_some hk
    split at h
    · rename_i hf
      cases h
      refine .inr ⟨rfl, rfl, k, hmem, fun hn => ?_⟩
      simp [busy, hf, hn] at hbusy
    · cases h
  · rename_i hnone
    obtain ⟨u, hu, e⟩ := Option.map_eq_some_iff.mp h
    cases e
    refine .inl ⟨rfl, hu, fun k hk => ?_⟩
    exact (not_busy (List.find?_eq_none.mp hnone k hk)).2

theorem insert_cases {new : ρ} {a : Except PgErr Unit} (h : insert p new s = some (a, t)) :
    (a = .ok () ∧ s.put p (.insert new) = some t ∧ ∀ k ∈ keys new, (s.view p).under k = []) ∨
    (a = .error .uniqueViolation ∧ t = s ∧ ∃ k ∈ keys new, (s.view p).under k ≠ []) :=
  checked_cases h

theorem replace_cases {old new : ρ} {a : Except PgErr Unit} (h : replace p old new s = some (a, t)) :
    (a = .ok () ∧ s.put p (.replace old new) = some t ∧
      ∀ k ∈ keys new, k ∉ keys old → (s.view p).under k = []) ∨
    (a = .error .uniqueViolation ∧ t = s ∧
      ∃ k ∈ keys new, k ∉ keys old ∧ (s.view p).under k ≠ []) := by
  unfold replace at h
  split at h
  · rcases checked_cases h with ⟨ha, hp, hk⟩ | ⟨ha, ht, k, hk, hne⟩
    · refine .inl ⟨ha, hp, fun k hk' ho => hk k (List.mem_filter.mpr ⟨hk', ?_⟩)⟩
      simpa using ho
    · obtain ⟨hk, ho⟩ := List.mem_filter.mp hk
      exact .inr ⟨ha, ht, k, hk, by simpa using ho, hne⟩
  · cases h

/-! ## no key is given twice -/

structure Distinct (s : Store P (Rows ρ) (Edit ρ) κ) : Prop where
  locked : WellLocked s
  committed : s.committed.Unique
  views : ∀ p, (s.view p).Unique

theorem distinct_fresh : Distinct (Store.fresh Rows.empty : Store P (Rows ρ) (Edit ρ) κ) :=
  ⟨fun _ _ hw => absurd hw List.not_mem_nil, fun _ => Nat.zero_le _, fun _ _ => Nat.zero_le _⟩

/-- a key that is not locked is as it is committed -/
theorem under_view (hw : WellLocked s) (hk : s.locks k ≠ some p) :
    (s.view p).under k = s.committed.under k := by
  have hsame : Schema.same (Edit ρ) k s.committed (s.view p) :=
    same_applyAll _ (fun w hw' hg => hk (hw p w hw' k hg)) _
  exact Eq.symm hsame

theorem view_congr {q : P} (hp : t.pending q = s.pending q) (hc : t.committed = s.committed) :
    t.view q = s.view q := by
  unfold Store.view
  rw [hp, hc]

theorem Distinct.begin (h : Distinct s) (p : P) (n : Nat) : Distinct (s.begin p n) :=
  ⟨wellLocked_begin h.locked p n, h.committed, h.views⟩

theorem Distinct.rollback (h : Distinct s) (p : P) : Distinct (s.rollback p) := by
  refine ⟨wellLocked_rollback h.locked p, h.committed, fun q k => ?_⟩
  by_cases hq : q = p
  · subst hq
    have hnil : (s.rollback q).pending q = [] := Function.update_self ..
    rw [view_of_pending hnil]
    exact h.committed k
  · rw [view_congr ((Quiet.rollback p s).others q hq).1 rfl]
    exact h.views q k

theorem Distinct.commit (h : Distinct s) (p : P) : Distinct (s.commit p) := by
  refine ⟨wellLocked_commit p h.locked, h.views p, fun q k => ?_⟩
  by_cases hq : q = p
  · subst hq
    have hnil : (s.commit q).pending q = [] := Function.update_self ..
    rw [view_of_pending hnil]
    exact h.views q k
  · have hpend : (s.commit p).pending q = s.pending q := Function.update_of_ne hq _ _
    by_cases hk : s.locks k = some q
    · -- what its lock protects, the commit leaves alone
      have hseen := (seen_commit h.locked hq).view hk
      have hsame : (s.view q).under k = ((s.commit p).view q).under k := hseen
      rw [← hsame]
      exact h.views q k
    · have hw : WellLocked (s.commit p) := wellLocked_commit p h.locked
      have hk' : (s.commit p).locks k ≠ some q :=
        fun e => hk ((Quiet.released_iff hq k).mp e)
      rw [under_view hw hk']
      exact h.views p k

/-- a write whose keys are free, or stay with the row that it replaces -/
theorem Distinct.put {w : Edit ρ} (h : Distinct s) (hput : s.put p w = some t)
    (hone : (w.apply (s.view p)).Unique) : Distinct t := by
  refine ⟨wellLocked_put h.locked hput fun l hl => .inl hl, ?_, fun q k => ?_⟩
  · rw [(Quiet.put hput).committed]
    exact h.committed
  · by_cases hq : q = p
    · subst hq
      rw [put_view hput]
      exact hone k
    · rw [view_congr ((Quiet.put hput).others q hq).1 (Quiet.put hput).committed]
      exact h.views q k

theorem length_filter_ne {old : ρ} {rows : List ρ} (h : old ∈ rows) :
    (rows.filter (· ≠ old)).length < rows.length :=
  List.length_filter_lt_length_iff_exists.mpr ⟨old, h, by simp⟩

theorem having_length (k : κ) (r : ρ) : (having k r).length ≤ 1 := List.length_filter_le _ [r]

theorem Distinct.insert {new : ρ} {a : Except PgErr Unit} (h : Distinct s)
    (hs : insert p new s = some (a, t)) : Distinct t := by
  rcases insert_cases hs with ⟨-, hput, hfree⟩ | ⟨-, rfl, -⟩
  · refine h.put hput fun k => ?_
    rw [under_insert, List.length_append]
    by_cases hk : k ∈ keys new
    · rw [hfree k hk]
      simpa using having_length k new
    · rw [having_of_not_mem hk]
      exact h.views p k
  · exact h

theorem Distinct.replace {old new : ρ} {a : Except PgErr Unit} (h : Distinct s)
    (hold : old ∈ (s.view p).rows) (hs : replace p old new s = some (a, t)) : Distinct t := by
  rcases replace_cases hs with ⟨-, hput, hfree⟩ | ⟨-, rfl, -⟩
  · refine h.put hput fun k => ?_
    rw [under_replace, List.length_append]
    have hle := List.length_filter_le (· ≠ old) ((s.view p).under k)
    have hview := h.views p k
    by_cases ho : k ∈ keys old
    · -- the row itself is all that has the key
      have hmem : old ∈ (s.view p).under k := mem_under.mpr ⟨hold, ho⟩
      have hlt := length_filter_ne hmem
      have hhave := having_length k new
      omega
    · by_cases hn : k ∈ keys new
      · rw [hfree k hn ho]
        simpa using having_length k new
      · rw [having_of_not_mem hn]
        simp only [List.length_nil]
        omega
  · exact h

end

/-! ## every run -/

section
variable {P E Y R Q Rm : Type} [DecidableEq P] {Row : Q → Type} {Reply : Rm → Type}
variable {S : Spec P (Rows ρ) (Edit ρ) κ E Y Row Reply}
variable {σ τ : Conf P (Cmd Q Rm) (Ans Row Reply) (State P (Rows ρ) (Edit ρ) κ E) R}

/-- what a statement may do to the store: read, or one of the two checked edits -/
inductive Moves (p : P) (s : Store P (Rows ρ) (Edit ρ) κ) :
    Store P (Rows ρ) (Edit ρ) κ → Prop
  | read : Moves p s s
  | insert {new : ρ} {a : Except PgErr Unit} {t} (h : insert p new s = some (a, t)) : Moves p s t
  | replace {old new : ρ} {a : Except PgErr Unit} {t} (hold : old ∈ (s.view p).rows)
      (h : replace p old new s = some (a, t)) : Moves p s t

theorem Moves.quiet {p : P} {s t : Store P (Rows ρ) (Edit ρ) κ} (h : Moves p s t) :
    Quiet p s t := by
  cases h with
  | read => exact Quiet.refl p s
  | insert h =>
    rcases insert_cases h with ⟨-, hp, -⟩ | ⟨-, rfl, -⟩
    · exact Quiet.put hp
    · exact Quiet.refl p _
  | replace _ h =>
    rcases replace_cases h with ⟨-, hp, -⟩ | ⟨-, rfl, -⟩
    · exact Quiet.put hp
    · exact Quiet.refl p _

/-- **no key is ever given twice** -/
theorem runs_distinct (hS : ∀ {p q x s a t}, S.stmt p q x s = some (a, t) → Moves p s t)
    (h : Runs S.machine σ τ) (hσ : Distinct σ.state.store) : Distinct τ.state.store := by
  refine Spec.runs_store (F := Distinct) (fun p n s hs => hs.begin p n)
    (fun p s hs => hs.rollback p) (fun p s hs => hs.commit p) (fun {p q x s a t} hs hst => ?_) h hσ
  cases hS hst with
  | read => exact hs
  | insert hi => exact hs.insert hi
  | replace hold hr => exact hs.replace hold hr

end

end

end UniqueKeys
