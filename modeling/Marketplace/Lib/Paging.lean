import Mathlib.Data.List.Nodup
import Mathlib.Data.List.Count
import Mathlib.Data.List.Sort
import Mathlib.Data.List.Perm.Basic
import Mathlib.Order.Basic

/-!
# Paging through a sorted result

`ORDER BY key DESC LIMIT limit OFFSET k * limit`, where every query may return rows of one key in an
order of its own.

* `Sorts key l a`    `a` is one of the orders in which the rows `l` may be returned;
* `page limit k a`   the page number `k`;
* `newer`, `upTo`    how many rows come before every row of the key of `x`, and how many come up to the
                     last of them;
* `Splits`           a page ends between two rows of one key;
* `pages_perm_iff`   **the pages are the rows, each of them once, whatever orders are taken, exactly if
                     no page ends between two rows of one key**.
-/

namespace Paging

section
variable {α κ : Type} [LinearOrder κ] {key : α → κ} {l a : List α} {limit : Nat}

/-- an order in which a query may return the rows -/
structure Sorts (key : α → κ) (l a : List α) : Prop where
  perm : a.Perm l
  sorted : (a.map key).Pairwise (· ≥ ·)

def page (limit k : Nat) (a : List α) : List α := (a.drop (k * limit)).take limit

/-- the first `n` pages, one query after the other -/
def pages (limit : Nat) (orders : Nat → List α) (n : Nat) : List α :=
  (List.range n).flatMap fun k => page limit k (orders k)

def newer (key : α → κ) (l : List α) (x : α) : Nat := l.countP fun y => decide (key x < key y)

def upTo (key : α → κ) (l : List α) (x : α) : Nat := l.countP fun y => decide (key x ≤ key y)

/-- a page ends between two rows of one key -/
def Splits (key : α → κ) (l : List α) (limit : Nat) : Prop :=
  ∃ x ∈ l, ∃ k, newer key l x < k * limit ∧ k * limit < upTo key l x

/-! ## where a row stands -/

theorem countP_append_zero {p : α → Bool} {u v : List α} (h : ∀ y ∈ v, p y = false) :
    (u ++ v).countP p ≤ u.length := by
  have hv : v.countP p = 0 := List.countP_eq_zero.mpr fun y hy => by simp [h y hy]
  rw [List.countP_append, hv]
  exact List.countP_le_length

/-- a row stands after the newer ones, and before the last one of its key -/
theorem newer_le {u v : List α} {x : α} (hs : Sorts key l (u ++ x :: v)) :
    newer key l x ≤ u.length ∧ u.length < upTo key l x := by
  have hsort := hs.sorted
  rw [List.map_append, List.map_cons, List.pairwise_append, List.pairwise_cons] at hsort
  obtain ⟨-, ⟨hx, -⟩, hu⟩ := hsort
  constructor
  · rw [newer, ← hs.perm.countP_eq]
    refine countP_append_zero fun y hy => decide_eq_false (not_lt.mpr ?_)
    rcases List.mem_cons.mp hy with rfl | hy
    · exact le_refl _
    · exact hx _ (List.mem_map_of_mem hy)
  · have hall : u.countP (fun y => decide (key x ≤ key y)) = u.length :=
      List.countP_eq_length.mpr fun y hy =>
        decide_eq_true (hu _ (List.mem_map_of_mem hy) _ List.mem_cons_self)
    rw [upTo, ← hs.perm.countP_eq, List.countP_append, hall, List.countP_cons]
    simp only [le_refl, decide_true, if_true]
    omega

theorem upTo_le_length (x : α) : upTo key l x ≤ l.length := List.countP_le_length

theorem upTo_le_newer {x y : α} (h : key x < key y) : upTo key l y ≤ newer key l x :=
  List.countP_mono_left fun _ _ hz => decide_eq_true (lt_of_lt_of_le h (of_decide_eq_true hz))

/-- the rows between the newer ones and the last one of the key have this key -/
theorem key_eq {u v : List α} {x y : α} (hs : Sorts key l (u ++ y :: v))
    (hn : newer key l x ≤ u.length) (hu : u.length < upTo key l x) : key y = key x := by
  obtain ⟨h1, h2⟩ := newer_le hs
  rcases lt_trichotomy (key y) (key x) with h | h | h
  · have := upTo_le_newer (l := l) h
    omega
  · exact h
  · have := upTo_le_newer (l := l) h
    omega

/-! ## one page -/

/-- a segment of a list whose members can be told -/
theorem segment_eq_filter {p : α → Bool} {m n : Nat}
    (h : ∀ u x v, a = u ++ x :: v → (p x = true ↔ m ≤ u.length ∧ u.length < m + n)) :
    (a.drop m).take n = a.filter p := by
  induction a generalizing m n with
  | nil => simp
  | cons y a ih =>
    have hy := h [] y a rfl
    cases m with
    | zero =>
      cases n with
      | zero =>
        have hrest := ih (m := 0) (n := 0) fun u x v e => by
          have := h (y :: u) x v (by rw [e]; rfl)
          simp at this ⊢
          exact this
        have hpy : p y = false := by simpa using hy
        rw [List.filter_cons_of_neg (by simp [hpy]), ← hrest]
        simp
      | succ n =>
        have hrest := ih (m := 0) (n := n) fun u x v e => by
          have := h (y :: u) x v (by rw [e]; rfl)
          simp only [List.length_cons] at this
          rw [this]
          omega
        have hpy : p y = true := hy.mpr ⟨Nat.zero_le _, by simp⟩
        rw [List.filter_cons_of_pos hpy, ← hrest]
        rfl
    | succ m =>
      have hrest := ih (m := m) (n := n) fun u x v e => by
        have := h (y :: u) x v (by rw [e]; rfl)
        simp only [List.length_cons] at this
        rw [this]
        omega
      have hpy : ¬p y = true := fun hp => by simpa using (hy.mp hp).1
      rw [List.filter_cons_of_neg hpy, ← hrest]
      rfl

/-- which rows are on a page does not depend on the order -/
theorem page_eq_filter (hsplit : ¬Splits key l limit) (hs : Sorts key l a) (k : Nat) :
    page limit k a =
      a.filter fun x => k * limit ≤ newer key l x ∧ newer key l x < (k + 1) * limit := by
  refine segment_eq_filter fun u x v e => ?_
  subst e
  obtain ⟨hn, hu⟩ := newer_le hs
  have hmem : x ∈ l := hs.perm.subset (List.mem_append_right _ List.mem_cons_self)
  have hno : ∀ j, newer key l x < j * limit → upTo key l x ≤ j * limit := fun j hj =>
    Nat.le_of_not_lt fun hj' => hsplit ⟨x, hmem, j, hj, hj'⟩
  have hsucc : (k + 1) * limit = k * limit + limit := Nat.succ_mul k limit
  rw [decide_eq_true_iff]
  constructor
  · rintro ⟨h1, h2⟩
    have := hno (k + 1) h2
    omega
  · rintro ⟨h1, h2⟩
    refine ⟨Nat.le_of_not_lt fun hlt => ?_, by omega⟩
    have := hno k hlt
    omega

/-! ## all pages -/

theorem pages_succ (limit : Nat) (orders : Nat → List α) (n : Nat) :
    pages limit orders (n + 1) = pages limit orders n ++ page limit n (orders n) := by
  unfold pages
  rw [List.range_succ, List.flatMap_append, List.flatMap_cons, List.flatMap_nil, List.append_nil]

theorem pages_perm_filter (hsplit : ¬Splits key l limit) {orders : Nat → List α}
    (hs : ∀ k, Sorts key l (orders k)) (n : Nat) :
    (pages limit orders n).Perm (l.filter fun x => newer key l x < n * limit) := by
  induction n with
  | zero => simp [pages]
  | succ n ih =>
    have hlast : (page limit n (orders n)).Perm
        (l.filter fun x => n * limit ≤ newer key l x ∧ newer key l x < (n + 1) * limit) := by
      rw [page_eq_filter hsplit (hs n)]
      exact (hs n).perm.filter _
    -- the rows of the first `n + 1` pages: those of the first `n`, and the others
    have hparts := List.filter_append_perm (fun x => decide (newer key l x < n * limit))
      (l.filter fun x => newer key l x < (n + 1) * limit)
    rw [List.filter_filter, List.filter_filter] at hparts
    rw [pages_succ]
    refine (ih.append hlast).trans (List.Perm.trans (List.Perm.of_eq ?_) hparts)
    have hsucc : (n + 1) * limit = n * limit + limit := Nat.succ_mul n limit
    congr 1
    · refine List.filter_congr fun x _ => ?_
      rw [← Bool.decide_and, decide_eq_decide]
      omega
    · refine List.filter_congr fun x _ => ?_
      rw [← decide_not, ← Bool.decide_and, decide_eq_decide]
      omega

/-- **no row is lost or repeated if no page ends between two rows of one key** -/
theorem pages_perm (hsplit : ¬Splits key l limit) {orders : Nat → List α}
    (hs : ∀ k, Sorts key l (orders k)) {n : Nat} (hn : l.length ≤ n * limit) :
    (pages limit orders n).Perm l := by
  refine (pages_perm_filter hsplit hs n).trans (List.Perm.of_eq ?_)
  refine List.filter_eq_self.mpr fun x hx => decide_eq_true ?_
  obtain ⟨u, v, e⟩ := List.append_of_mem ((hs 0).perm.symm.subset hx)
  have hstand := newer_le (e ▸ hs 0)
  have hle : upTo key l x ≤ l.length := upTo_le_length x
  omega

/-! ## two orders that repeat a row -/

theorem sorts_mergeSort (key : α → κ) (l : List α) :
    Sorts key l (l.mergeSort fun x y => decide (key y ≤ key x)) := by
  refine ⟨List.mergeSort_perm _ _, List.pairwise_map.mpr ?_⟩
  have hsort : (l.mergeSort fun x y => decide (key y ≤ key x)).Pairwise
      fun x y => decide (key y ≤ key x) = true :=
    List.pairwise_mergeSort
      (fun a b c hab hbc => by
        simp only [decide_eq_true_eq] at hab hbc ⊢
        exact le_trans hbc hab)
      (fun a b => by
        simp only [Bool.or_eq_true, decide_eq_true_eq]
        exact le_total _ _) l
  exact hsort.imp fun h => of_decide_eq_true h

/-- rows of one key may change places -/
theorem Sorts.swap {u v : List α} {y z : α} (hs : Sorts key l (u ++ y :: z :: v))
    (hyz : key y = key z) : Sorts key l (u ++ z :: y :: v) := by
  refine ⟨((List.Perm.swap y z v).append_left u).trans hs.perm, ?_⟩
  have hmap : (u ++ z :: y :: v).map key = (u ++ y :: z :: v).map key := by simp [hyz]
  rw [hmap]
  exact hs.sorted

/-- where a page ends between two rows of one key -/
theorem split_at (h : Splits key l limit) : ∃ k u y z v, 0 < k ∧ (k + 1) * limit ≤ l.length + limit ∧
    u.length + 1 = k * limit ∧ key y = key z ∧ Sorts key l (u ++ y :: z :: v) := by
  obtain ⟨x, -, k, hn, hu⟩ := h
  have hs := sorts_mergeSort key l
  generalize l.mergeSort _ = a at hs
  have hlen := hs.perm.length_eq
  have hle : upTo key l x ≤ l.length := upTo_le_length x
  have hpos : 0 < k * limit := by omega
  have hk : 0 < k := Nat.pos_of_mul_pos_right hpos
  have h1 : k * limit - 1 < a.length := by omega
  have h2 : k * limit - 1 + 1 < a.length := by omega
  have ha : a = a.take (k * limit - 1) ++ a[k * limit - 1] :: a[k * limit - 1 + 1] ::
      a.drop (k * limit - 1 + 1 + 1) := by
    rw [List.getElem_cons_drop, List.getElem_cons_drop, List.take_append_drop]
  have hut : (a.take (k * limit - 1)).length = k * limit - 1 := by
    rw [List.length_take]
    omega
  rw [ha] at hs
  have hsucc : (k + 1) * limit = k * limit + limit := Nat.succ_mul k limit
  refine ⟨k, _, _, _, _, hk, by omega, by omega, ?_, hs⟩
  have hy := key_eq (x := x) hs (by omega) (by omega)
  rw [List.append_cons] at hs
  have hlen' : (a.take (k * limit - 1) ++ [a[k * limit - 1]]).length = k * limit := by
    rw [List.length_append, hut, List.length_singleton]
    omega
  have hz := key_eq (x := x) hs (by omega) (by omega)
  exact hy.trans hz.symm

/-- the last row of a page, and the first one of the next page -/
theorem page_ends {k limit : Nat} {u v : List α} {y : α} (hlimit : 0 < limit) (hk : 0 < k)
    (hu : u.length + 1 = k * limit) : y ∈ page limit (k - 1) (u ++ y :: v) := by
  obtain ⟨j, rfl⟩ : ∃ j, k = j + 1 := ⟨k - 1, by omega⟩
  have hsucc : (j + 1) * limit = j * limit + limit := Nat.succ_mul j limit
  refine List.mem_iff_getElem?.mpr ⟨limit - 1, ?_⟩
  show ((List.drop (j * limit) _).take limit)[limit - 1]? = _
  rw [List.getElem?_take_of_lt (by omega), List.getElem?_drop]
  have hidx : j * limit + (limit - 1) = u.length := by omega
  rw [hidx, List.getElem?_append_right (Nat.le_refl _), Nat.sub_self]
  rfl

theorem page_begins {k limit : Nat} {u v : List α} {y z : α} (hlimit : 0 < limit)
    (hu : u.length + 1 = k * limit) : y ∈ page limit k (u ++ z :: y :: v) := by
  refine List.mem_iff_getElem?.mpr ⟨0, ?_⟩
  show ((List.drop (k * limit) _).take limit)[0]? = _
  rw [List.getElem?_take_of_lt hlimit, List.getElem?_drop, ← hu,
    List.getElem?_append_right (by omega), show u.length + 1 + 0 - u.length = 1 from by omega]
  rfl

/-- **The pages are the rows, each of them once, whatever orders the queries take, exactly if no page
ends between two rows of one key.** -/
theorem pages_perm_iff (hl : l.Nodup) (hlimit : 0 < limit) {n : Nat} (hn : l.length ≤ n * limit) :
    (∀ orders : Nat → List α, (∀ k, Sorts key l (orders k)) → (pages limit orders n).Perm l) ↔
      ¬Splits key l limit := by
  refine ⟨fun h hsplit => ?_, fun hsplit orders hs => pages_perm hsplit hs hn⟩
  obtain ⟨k, u, y, z, v, hk, hkn, hu, hyz, hs⟩ := split_at hsplit
  -- the row `y` ends one page, and begins the next one
  have hperm := h (fun j => if j < k then u ++ y :: z :: v else u ++ z :: y :: v) fun j => by
    show Sorts key l (if j < k then _ else _)
    split
    · exact hs
    · exact hs.swap hyz
  have hnodup : (pages limit _ n).Nodup := hperm.symm.nodup hl
  have hkn' : k < n := by
    refine Nat.lt_of_mul_lt_mul_right (a := limit) ?_
    have hlen := hs.perm.length_eq
    simp only [List.length_append, List.length_cons] at hlen
    omega
  have hpages := List.pairwise_iff_getElem.mp (List.nodup_flatMap.mp hnodup).2 (k - 1) k
    (by simp; omega) (by simpa using hkn') (by omega)
  simp only [Function.onFun, List.getElem_range] at hpages
  rw [if_pos (show k - 1 < k by omega), if_neg (Nat.lt_irrefl k)] at hpages
  exact hpages (page_ends hlimit hk hu) (page_begins hlimit hu)

end

end Paging
