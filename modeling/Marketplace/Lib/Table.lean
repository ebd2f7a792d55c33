import Mathlib.Data.List.Basic
import Mathlib.Data.List.Nodup

/-!
# Tables as lists of rows

* `updateWhere c f t`   `UPDATE t SET .. WHERE c`: the rows that meet `c` become `f row`;
* `firstBy lt t`        `ORDER BY .. LIMIT 1`: a row that no other one precedes
                        (`firstBy_least`).
-/

namespace Table

variable {α β : Type}

def updateWhere (c : α → Bool) (f : α → α) (t : List α) : List α :=
  t.map fun x => if c x then f x else x

theorem updateWhere_append (c : α → Bool) (f : α → α) (t u : List α) :
    updateWhere c f (t ++ u) = updateWhere c f t ++ updateWhere c f u := List.map_append

/-- a column that the update does not set -/
theorem map_updateWhere (c : α → Bool) (f : α → α) (g : α → β) (h : ∀ x, c x → g (f x) = g x)
    (t : List α) : (updateWhere c f t).map g = t.map g := by
  unfold updateWhere
  rw [List.map_map]
  refine List.map_congr_left (fun x _ => ?_)
  show g (if c x then f x else x) = g x
  split
  · exact h x (by assumption)
  · rfl

/-- a selection that the update does not move rows into or out of -/
theorem filter_updateWhere (c d : α → Bool) (f : α → α) (h : ∀ x, c x → d (f x) = d x)
    (t : List α) : (updateWhere c f t).filter d = updateWhere c f (t.filter d) := by
  induction t with
  | nil => rfl
  | cons x t ih =>
    have hd : d (if c x then f x else x) = d x := by
      split
      · exact h x (by assumption)
      · rfl
    show ((if c x then f x else x) :: updateWhere c f t).filter d = _
    rw [List.filter_cons, hd, ih, List.filter_cons]
    split
    · rfl
    · rfl

theorem updateWhere_eq_self (c : α → Bool) (f : α → α) (t : List α) (h : ∀ x ∈ t, c x = false) :
    updateWhere c f t = t := by
  unfold updateWhere
  refine (List.map_congr_left (fun x hx => ?_)).trans (List.map_id t)
  rw [h x hx]
  rfl

/-- the rows that are updated and the others are counted apart -/
theorem countP_updateWhere (c q : α → Bool) (f : α → α) (t : List α) :
    (updateWhere c f t).countP q =
      ((t.filter c).map f).countP q + (t.filter fun x => !c x).countP q := by
  induction t with
  | nil => rfl
  | cons x t ih =>
    have ih : (t.map fun x => if c x = true then f x else x).countP q = _ := ih
    rw [updateWhere, List.map_cons, List.countP_cons, ih]
    cases hc : c x with
    | true =>
      rw [List.filter_cons_of_pos hc, List.filter_cons_of_neg (by simp [hc]), List.map_cons,
        List.countP_cons, if_pos rfl]
      omega
    | false =>
      rw [List.filter_cons_of_neg (by simp [hc]), List.filter_cons_of_pos (by simp [hc]),
        List.countP_cons, if_neg Bool.false_ne_true]
      omega

theorem mem_updateWhere {c : α → Bool} {f : α → α} {t : List α} {y : α} :
    y ∈ updateWhere c f t ↔ ∃ x ∈ t, (if c x then f x else x) = y := List.mem_map

/-- the row that comes first in the order `lt` (the earlier one of two equal rows) -/
def firstBy (lt : α → α → Bool) : List α → Option α
  | [] => none
  | x :: t =>
    match firstBy lt t with
    | none => some x
    | some y => if lt y x then some y else some x

theorem firstBy_mem {lt : α → α → Bool} {t : List α} {x : α} (h : firstBy lt t = some x) :
    x ∈ t := by
  induction t generalizing x with
  | nil => cases h
  | cons y t ih =>
    simp only [firstBy] at h
    split at h
    · cases h
      exact List.mem_cons_self
    · rename_i z hz
      split at h
      · cases h
        exact List.mem_cons_of_mem _ (ih hz)
      · cases h
        exact List.mem_cons_self

theorem firstBy_none {lt : α → α → Bool} {t : List α} (h : firstBy lt t = none) : t = [] := by
  cases t with
  | nil => rfl
  | cons y t =>
    simp only [firstBy] at h
    split at h
    · cases h
    · split at h <;> cases h

/-- no row precedes the first one -/
theorem firstBy_least {lt : α → α → Bool} (hasymm : ∀ a b, lt a b = true → lt b a = false)
    (hneg : ∀ a b c, lt a b = false → lt b c = false → lt a c = false) {t : List α} {x y : α}
    (h : firstBy lt t = some x) (hy : y ∈ t) : lt y x = false := by
  have hirr : ∀ a, lt a a = false := by
    intro a
    cases e : lt a a with
    | false => rfl
    | true => exact e.symm.trans (hasymm a a e)
  induction t generalizing x y with
  | nil => cases h
  | cons z t ih =>
    simp only [firstBy] at h
    split at h
    · rename_i hn
      cases h
      rw [firstBy_none hn, List.mem_singleton] at hy
      rw [hy, hirr]
    · rename_i w hw
      split at h
      · rename_i hlt
        cases h
        rcases List.mem_cons.mp hy with rfl | hy
        · exact hasymm _ _ hlt
        · exact ih hw hy
      · rename_i hlt
        cases h
        rcases List.mem_cons.mp hy with rfl | hy
        · exact hirr y
        · exact hneg _ _ _ (ih hw hy) (Bool.eq_false_iff.mpr hlt)

/-- the entries after one entry was changed: that one, and all the others -/
theorem mem_modify {l : List α} {i : Nat} {f : α → α} {y : α} :
    y ∈ l.modify i f ↔ (∃ x, l[i]? = some x ∧ f x = y) ∨ ∃ j, j ≠ i ∧ l[j]? = some y := by
  rw [List.mem_iff_getElem?]
  constructor
  · rintro ⟨j, hj⟩
    by_cases e : j = i
    · subst e
      rw [List.getElem?_modify_eq] at hj
      exact .inl (Option.map_eq_some_iff.mp hj)
    · rw [List.getElem?_modify_ne _ _ (Ne.symm e)] at hj
      exact .inr ⟨j, e, hj⟩
  · rintro (⟨x, hx, rfl⟩ | ⟨j, e, hj⟩)
    · exact ⟨i, by rw [List.getElem?_modify_eq, hx]; rfl⟩
    · exact ⟨j, by rw [List.getElem?_modify_ne _ _ (Ne.symm e), hj]⟩

theorem eq_singleton {α : Type} {l : List α} {a : α} (h : l.length ≤ 1) (ha : a ∈ l) : l = [a] := by
  match l with
  | [x] => rw [List.mem_singleton.mp ha]
  | x :: y :: zs => simp at h

end Table
