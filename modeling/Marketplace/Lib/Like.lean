import Mathlib.Data.List.Infix

/-!
# Patterns of SQL

* `like p t`         `t LIKE p`: `%` stands for any text, `_` for any character, and a character after
                     a backslash for itself;
* `like_infix`       a pattern without any of these, between two `%`, is looked for as it stands.
-/

namespace Sql

def like : List Char → List Char → Bool
  | [], t => t.isEmpty
  | '%' :: p, t => t.tails.any fun u => like p u
  | '_' :: p, t =>
    match t with
    | [] => false
    | _ :: u => like p u
  | '\\' :: c :: p, t =>
    match t with
    | [] => false
    | d :: u => d == c && like p u
  | c :: p, t =>
    match t with
    | [] => false
    | d :: u => d == c && like p u

/-- a character that stands for itself -/
def literal (c : Char) : Bool := c != '%' && c != '_' && c != '\\'

theorem like_percent {p t : List Char} :
    like ('%' :: p) t = true ↔ ∃ x y, t = x ++ y ∧ like p y = true := by
  rw [like, List.any_eq_true]
  constructor
  · rintro ⟨y, hy, hp⟩
    obtain ⟨x, hx⟩ := (List.mem_tails _ _).mp hy
    exact ⟨x, y, hx.symm, hp⟩
  · rintro ⟨x, y, rfl, hp⟩
    exact ⟨y, (List.mem_tails _ _).mpr (List.suffix_append x y), hp⟩

theorem like_all (t : List Char) : like ['%'] t = true :=
  like_percent.mpr ⟨t, [], (List.append_nil t).symm, rfl⟩

theorem like_literal {c : Char} (h : literal c = true) (p t : List Char) :
    like (c :: p) t = true ↔ ∃ u, t = c :: u ∧ like p u = true := by
  simp only [literal, Bool.and_eq_true, bne_iff_ne, ne_eq] at h
  obtain ⟨⟨h1, h2⟩, h3⟩ := h
  cases t with
  | nil => simp [like, h1, h2, h3]
  | cons d u => simp [like, h1, h2, h3]

theorem like_append {q : List Char} (h : ∀ c ∈ q, literal c = true) (p t : List Char) :
    like (q ++ p) t = true ↔ ∃ u, t = q ++ u ∧ like p u = true := by
  induction q generalizing t with
  | nil => simp
  | cons c q ih =>
    rw [List.cons_append, like_literal (h c List.mem_cons_self)]
    constructor
    · rintro ⟨u, rfl, hu⟩
      obtain ⟨v, rfl, hv⟩ := (ih (fun d hd => h d (List.mem_cons_of_mem _ hd)) u).mp hu
      exact ⟨v, rfl, hv⟩
    · rintro ⟨v, rfl, hv⟩
      exact ⟨q ++ v, rfl, (ih (fun d hd => h d (List.mem_cons_of_mem _ hd)) _).mpr ⟨v, rfl, hv⟩⟩

/-- a text that is looked for as it stands -/
theorem like_infix {q t : List Char} (h : ∀ c ∈ q, literal c = true) :
    like ('%' :: (q ++ ['%'])) t = true ↔ q <:+: t := by
  rw [like_percent]
  constructor
  · rintro ⟨x, y, rfl, hy⟩
    obtain ⟨u, rfl, -⟩ := (like_append h _ _).mp hy
    exact ⟨x, u, (List.append_assoc x q u)⟩
  · rintro ⟨x, u, rfl⟩
    exact ⟨x, q ++ u, List.append_assoc x q u, (like_append h _ _).mpr ⟨u, rfl, like_all u⟩⟩

end Sql
