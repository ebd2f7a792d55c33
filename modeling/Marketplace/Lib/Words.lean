import Mathlib.Data.List.DropRight

/-!
# Texts as words

* `words sep s`      the maximal stretches of `s` that hold no separator, in order;
* `join c ws`        the words with one `c` between any two;
* `Apart sep x y`    no word goes on from `x` into `y`;
* `words_append`, `words_join`, `join_words`   words of texts that are put together, and back again.
-/

namespace Text

variable {α : Type} {sep : α → Bool} {c : α}

def words (sep : α → Bool) (s : List α) : List (List α) :=
  (s.splitOnP sep).filter fun w => !w.isEmpty

theorem words_nil : words sep [] = [] := rfl

/-- words split at a separator -/
theorem words_append_cons (hc : sep c = true) (x y : List α) :
    words sep (x ++ c :: y) = words sep x ++ words sep y := by
  unfold words
  rw [List.splitOnP_append_cons x y hc, List.filter_append]

theorem words_cons (hc : sep c = true) (y : List α) : words sep (c :: y) = words sep y :=
  words_append_cons hc [] y

theorem words_separators {r : List α} (hr : ∀ c ∈ r, sep c = true) (y : List α) :
    words sep (r ++ y) = words sep y := by
  induction r with
  | nil => rfl
  | cons c r ih =>
    rw [List.cons_append, words_cons (hr c List.mem_cons_self)]
    exact ih fun d hd => hr d (List.mem_cons_of_mem _ hd)

/-- what stands between two words is of no account -/
theorem words_run {r : List α} (hne : r ≠ []) (hr : ∀ c ∈ r, sep c = true) (x y : List α) :
    words sep (x ++ (r ++ y)) = words sep x ++ words sep y := by
  obtain ⟨c, r, rfl⟩ := List.exists_cons_of_ne_nil hne
  rw [List.cons_append, words_append_cons (hr c List.mem_cons_self),
    words_separators fun d hd => hr d (List.mem_cons_of_mem _ hd)]

theorem words_letters {w : List α} (hne : w ≠ []) (hw : ∀ c ∈ w, sep c = false) :
    words sep w = [w] := by
  unfold words
  rw [List.splitOnP_eq_singleton hw]
  simp [hne]

/-- the first letter of a text begins a word, or goes in front of the first word -/
theorem words_letter (hc : sep c = false) (s : List α) :
    (∃ d t, s = d :: t ∧ sep d = false ∧ ∃ w ws, words sep s = w :: ws ∧
      words sep (c :: s) = (c :: w) :: ws) ∨
    ((∀ d t, s = d :: t → sep d = true) ∧ words sep (c :: s) = [c] :: words sep s) := by
  have hsplit : (c :: s).splitOnP sep = (s.splitOnP sep).modifyHead (List.cons c) := by
    rw [List.splitOnP_cons_eq_if_modifyHead, if_neg (by simp [hc])]
  cases s with
  | nil => exact .inr ⟨fun _ _ h => (List.cons_ne_nil _ _ h.symm).elim,
      by rw [words_letters (List.cons_ne_nil _ _) (by simpa using hc)]; rfl⟩
  | cons d t =>
    by_cases hd : sep d = true
    · refine .inr ⟨fun e u h => by cases h; exact hd, ?_⟩
      rw [words_cons hd, show c :: d :: t = [c] ++ d :: t from rfl, words_append_cons hd,
        words_letters (List.cons_ne_nil _ _) (by simpa using hc)]
      rfl
    · have hd : sep d = false := by simpa using hd
      obtain ⟨w, ws, hws⟩ := List.exists_cons_of_ne_nil (List.splitOnP_ne_nil sep t)
      have ht : (d :: t).splitOnP sep = (d :: w) :: ws := by
        rw [List.splitOnP_cons_eq_if_modifyHead, if_neg (by simp [hd]), hws]
        rfl
      refine .inl ⟨d, t, rfl, hd, d :: w, ws.filter fun w => !w.isEmpty, ?_, ?_⟩
      · unfold words
        rw [ht]
        rfl
      · unfold words
        rw [hsplit, ht]
        rfl

theorem mem_words {s w : List α} (h : w ∈ words sep s) :
    w ≠ [] ∧ ∀ c ∈ w, sep c = false ∧ c ∈ s := by
  induction s generalizing w with
  | nil => cases h
  | cons c s ih =>
    have hmem : ∀ {w}, w ∈ words sep s → w ≠ [] ∧ ∀ d ∈ w, sep d = false ∧ d ∈ c :: s :=
      fun hw => ⟨(ih hw).1, fun d hd =>
        ⟨((ih hw).2 d hd).1, List.mem_cons_of_mem _ ((ih hw).2 d hd).2⟩⟩
    by_cases hc : sep c = true
    · rw [words_cons hc] at h
      exact hmem h
    · have hc : sep c = false := by simpa using hc
      rcases words_letter hc s with ⟨d, t, -, -, v, ws, hv, hcv⟩ | ⟨-, hcs⟩
      · rw [hcv] at h
        rcases List.mem_cons.mp h with rfl | h
        · refine ⟨List.cons_ne_nil _ _, fun e he => ?_⟩
          rcases List.mem_cons.mp he with rfl | he
          · exact ⟨hc, List.mem_cons_self⟩
          · exact (hmem (hv ▸ List.mem_cons_self)).2 e he
        · exact hmem (hv ▸ List.mem_cons_of_mem _ h)
      · rw [hcs] at h
        rcases List.mem_cons.mp h with rfl | h
        · refine ⟨List.cons_ne_nil _ _, fun e he => ?_⟩
          rw [List.mem_singleton.mp he]
          exact ⟨hc, List.mem_cons_self⟩
        · exact hmem h

theorem words_eq_nil {s : List α} : words sep s = [] ↔ ∀ c ∈ s, sep c = true := by
  constructor
  · intro h
    by_contra hne
    push Not at hne
    obtain ⟨c, hc, hs⟩ := hne
    have hs : sep c = false := by simpa using hs
    obtain ⟨x, y, rfl⟩ := List.append_of_mem hc
    induction x with
    | nil =>
      rcases words_letter hs y with ⟨_, _, -, -, _, _, -, hw⟩ | ⟨-, hw⟩
      · rw [List.nil_append, hw] at h
        cases h
      · rw [List.nil_append, hw] at h
        cases h
    | cons d x ih =>
      by_cases hd : sep d = true
      · rw [List.cons_append, words_cons hd] at h
        exact ih h (by simp)
      · rcases words_letter (c := d) (by simpa using hd) (x ++ c :: y) with
          ⟨_, _, -, -, _, _, -, hw⟩ | ⟨-, hw⟩
        · rw [List.cons_append, hw] at h
          cases h
        · rw [List.cons_append, hw] at h
          cases h
  · intro h
    have := words_separators h []
    rwa [List.append_nil] at this

/-! ## texts put together -/

/-- no word goes on from `x` into `y` -/
def Apart (sep : α → Bool) (x y : List α) : Prop :=
  ∀ c ∈ x.getLast?, ∀ d ∈ y.head?, sep c = true ∨ sep d = true

theorem words_append {x y : List α} (h : Apart sep x y) :
    words sep (x ++ y) = words sep x ++ words sep y := by
  rcases List.eq_nil_or_concat x with rfl | ⟨x, c, rfl⟩
  · rfl
  · cases y with
    | nil => rw [List.append_nil, words_nil, List.append_nil]
    | cons d y =>
      rcases h c (by simp) d rfl with hc | hd
      · rw [List.concat_eq_append, List.append_assoc, List.singleton_append,
          words_append_cons hc, words_append_cons hc, words_nil, List.append_nil]
      · rw [words_append_cons hd, words_cons hd]

/-! ## joining words -/

def join (c : α) (ws : List (List α)) : List α := List.intercalate [c] ws

theorem join_nil : join c [] = [] := rfl
theorem join_singleton (w : List α) : join c [w] = w := by simp [join, List.intercalate]
theorem join_cons (w : List α) {ws : List (List α)} (h : ws ≠ []) :
    join c (w :: ws) = w ++ c :: join c ws := by
  obtain ⟨v, ws, rfl⟩ := List.exists_cons_of_ne_nil h
  simp [join, List.intercalate]

theorem join_append {ws vs : List (List α)} (hw : ws ≠ []) (hv : vs ≠ []) :
    join c (ws ++ vs) = join c ws ++ c :: join c vs := by
  induction ws with
  | nil => exact absurd rfl hw
  | cons w ws ih =>
    by_cases hws : ws = []
    · subst hws
      rw [List.singleton_append, join_cons w hv, join_singleton]
    · rw [List.cons_append, join_cons w (by simp [hws]), ih hws, join_cons w hws, List.append_assoc,
        List.cons_append]

/-- words: not empty, and without separators -/
def AreWords (sep : α → Bool) (ws : List (List α)) : Prop :=
  ∀ w ∈ ws, w ≠ [] ∧ ∀ c ∈ w, sep c = false

theorem areWords_words (s : List α) : AreWords sep (words sep s) :=
  fun _ hw => ⟨(mem_words hw).1, fun c hc => ((mem_words hw).2 c hc).1⟩

theorem AreWords.tail {w : List α} {ws : List (List α)} (h : AreWords sep (w :: ws)) :
    AreWords sep ws := fun v hv => h v (List.mem_cons_of_mem _ hv)

/-- joining loses nothing -/
theorem words_join (hc : sep c = true) {ws : List (List α)} (h : AreWords sep ws) :
    words sep (join c ws) = ws := by
  induction ws with
  | nil => rfl
  | cons w ws ih =>
    obtain ⟨hne, hw⟩ := h w List.mem_cons_self
    by_cases hws : ws = []
    · subst hws
      rw [join_singleton, words_letters hne hw]
    · rw [join_cons w hws, words_append_cons hc, words_letters hne hw, ih h.tail]
      rfl

theorem join_injective (hc : sep c = true) {ws vs : List (List α)} (hw : AreWords sep ws)
    (hv : AreWords sep vs) (h : join c ws = join c vs) : ws = vs := by
  rw [← words_join hc hw, h, words_join hc hv]

theorem mem_join {ws : List (List α)} {d : α} (h : d ∈ join c ws) :
    d = c ∨ ∃ w ∈ ws, d ∈ w := by
  induction ws with
  | nil => cases h
  | cons w ws ih =>
    by_cases hws : ws = []
    · subst hws
      rw [join_singleton] at h
      exact .inr ⟨w, List.mem_cons_self, h⟩
    · rw [join_cons w hws] at h
      rcases List.mem_append.mp h with h | h
      · exact .inr ⟨w, List.mem_cons_self, h⟩
      · rcases List.mem_cons.mp h with h | h
        · exact .inl h
        · rcases ih h with h | ⟨v, hv, hd⟩
          · exact .inl h
          · exact .inr ⟨v, List.mem_cons_of_mem _ hv, hd⟩

theorem mem_join_of_mem {ws : List (List α)} {w : List α} {d : α} (hw : w ∈ ws) (hd : d ∈ w) :
    d ∈ join c ws := by
  induction ws with
  | nil => cases hw
  | cons v ws ih =>
    by_cases hws : ws = []
    · subst hws
      rw [join_singleton]
      rwa [List.mem_singleton.mp hw] at hd
    · rw [join_cons v hws]
      rcases List.mem_cons.mp hw with rfl | hw
      · exact List.mem_append_left _ hd
      · exact List.mem_append_right _ (List.mem_cons_of_mem _ (ih hw))

theorem join_ne_nil {w : List α} {ws : List (List α)} (h : AreWords sep (w :: ws)) :
    join c (w :: ws) ≠ [] := by
  have hne := (h w List.mem_cons_self).1
  by_cases hws : ws = []
  · subst hws
    rwa [join_singleton]
  · rw [join_cons w hws]
    simp

/-! ## trimming -/

theorem dropWhile_join {ws : List (List α)} (h : AreWords sep ws) :
    (join c ws).dropWhile sep = join c ws := by
  cases ws with
  | nil => rfl
  | cons w ws =>
    obtain ⟨hne, hw⟩ := h w List.mem_cons_self
    obtain ⟨d, v, rfl⟩ := List.exists_cons_of_ne_nil hne
    have hd : ¬sep d = true := by simp [hw d List.mem_cons_self]
    by_cases hws : ws = []
    · subst hws
      rw [join_singleton, List.dropWhile_cons_of_neg hd]
    · rw [join_cons _ hws, List.cons_append, List.dropWhile_cons_of_neg hd]

theorem rdropWhile_join {ws : List (List α)} (h : AreWords sep ws) :
    (join c ws).rdropWhile sep = join c ws := by
  refine List.rdropWhile_eq_self_iff.mpr fun hne => ?_
  induction ws with
  | nil => exact absurd rfl hne
  | cons w ws ih =>
    obtain ⟨hw₀, hw⟩ := h w List.mem_cons_self
    by_cases hws : ws = []
    · subst hws
      have hlast := hw _ (List.getLast_mem hw₀)
      simp only [join_singleton]
      simpa using hlast
    · have hv : join c ws ≠ [] := by
        obtain ⟨v, vs, rfl⟩ := List.exists_cons_of_ne_nil hws
        exact join_ne_nil h.tail
      have hlast : (join c (w :: ws)).getLast hne = (join c ws).getLast hv := by
        simp only [join_cons w hws]
        rw [List.getLast_append_of_ne_nil _ (List.cons_ne_nil _ _), List.getLast_cons hv]
      rw [hlast]
      exact ih h.tail hv

theorem rdropWhile_cons (p : α → Bool) (a : α) (l : List α) :
    List.rdropWhile p (a :: l) =
      if List.rdropWhile p l = [] then (if p a = true then [] else [a])
      else a :: List.rdropWhile p l := by
  by_cases h : List.rdropWhile p l = []
  · rw [if_pos h]
    have hall := List.rdropWhile_eq_nil_iff.mp h
    have happ : List.rdropWhile p ([a] ++ l) = List.rdropWhile p [a] := by
      clear h
      induction l using List.reverseRecOn with
      | nil => rfl
      | append_singleton l b ih =>
        rw [← List.append_assoc, List.rdropWhile_concat_pos _ _ _ (hall b (by simp))]
        exact ih fun x hx => hall x (by simp [hx])
    rw [List.singleton_append] at happ
    rw [happ, List.rdropWhile_singleton]
  · rw [if_neg h]
    induction l using List.reverseRecOn with
    | nil => exact absurd rfl h
    | append_singleton l b ih =>
      by_cases hb : p b = true
      · rw [List.rdropWhile_concat_pos _ _ _ hb] at h ⊢
        rw [← List.cons_append, List.rdropWhile_concat_pos _ _ _ hb]
        exact ih h
      · rw [← List.cons_append, List.rdropWhile_concat_neg _ _ _ hb,
          List.rdropWhile_concat_neg _ _ _ hb]
        rfl

end Text
