import Marketplace.Lib.Words
import Marketplace.Request.ItemKey

/-!
# What the comparison key identifies

* `letter c`         the characters that the key keeps, `separator` all the others;
* `plainWords n`     the words of `plain(n)`, that is of `plainKey n`;
* `kept n`           those that are neither noise nor years, an alias replaced by the words of its
                     canonical form;
* `requestItemKey_eq`   the key is `kept n` with single spaces, or `plainKey n` if nothing is kept;
* `item_key_identifies`   **which names have the same key**, and what may be changed in a name.
-/

set_option linter.unusedSectionVars false

namespace Marketplace.Request

open Text

def space (c : Char) : Bool := c == ' '
def keySeparator (c : Char) : Bool := !isKeyChar c

/-- `w.word NOT IN (..) AND w.word !~ '^(19|20)[0-9][0-9]$'` -/
def keeps (w : List Char) : Bool := !(noiseWords.map String.toList).contains w && !isYear w

/-- `string_to_array(s, ' ')` -/
def stringToArray (s : List Char) : List (List Char) := if s = [] then [] else s.splitOn ' '

theorem space_eq : space ' ' = true := rfl
theorem keySeparator_space : keySeparator ' ' = true := by decide

/-- a character of a key is no space -/
theorem space_of_key {c : Char} (h : keySeparator c = false) : space c = false := by
  cases hs : space c with
  | false => rfl
  | true =>
    rw [beq_iff_eq.mp hs, keySeparator_space] at h
    cases h

theorem areWords_space {ws : List (List Char)} (h : AreWords keySeparator ws) :
    AreWords space ws :=
  fun w hw => ⟨(h w hw).1, fun c hc => space_of_key ((h w hw).2 c hc)⟩

/-! ## the plain form -/

/-- at the front nothing is left of a run but its end -/
theorem dropWhile_flattenRuns (s : List Char) :
    (flattenRuns false s).dropWhile (· == ' ') = flattenRuns true s := by
  induction s with
  | nil => rfl
  | cons c s ih =>
    cases hc : isKeyChar c with
    | true =>
      have hs : space c = false := space_of_key (by simp [keySeparator, hc])
      simp only [flattenRuns, hc, if_true]
      exact List.dropWhile_cons_of_neg (by simpa [space] using hs)
    | false =>
      simp only [flattenRuns, hc, Bool.false_eq_true, if_false, if_true]
      rw [List.dropWhile_cons_of_pos (by rfl)]
      have hrun : ∀ s : List Char, (flattenRuns true s).dropWhile (· == ' ') = flattenRuns true s := by
        intro s
        induction s with
        | nil => rfl
        | cons d s ih =>
          cases hd : isKeyChar d with
          | true =>
            have hs : space d = false := space_of_key (by simp [keySeparator, hd])
            simp only [flattenRuns, hd, if_true]
            exact List.dropWhile_cons_of_neg (by simpa [space] using hs)
          | false =>
            simp only [flattenRuns, hd, Bool.false_eq_true, if_false, if_true]
            exact ih
      exact hrun s

/-- and at the end nothing at all -/
theorem rdropWhile_flattenRuns (s : List Char) :
    List.rdropWhile space (flattenRuns true s) = join ' ' (words keySeparator s) ∧
    ∀ c, keySeparator c = false →
      List.rdropWhile space (c :: flattenRuns false s) = join ' ' (words keySeparator (c :: s)) := by
  have hne : ∀ s : List Char, words keySeparator s ≠ [] → join ' ' (words keySeparator s) ≠ [] := by
    intro s h
    obtain ⟨w, ws, hw⟩ := List.exists_cons_of_ne_nil h
    rw [hw]
    exact join_ne_nil (hw ▸ areWords_words s)
  induction s with
  | nil =>
    refine ⟨rfl, fun c hc => ?_⟩
    rw [words_letters (List.cons_ne_nil _ _) (by simpa using hc), join_singleton]
    show List.rdropWhile space [c] = [c]
    rw [List.rdropWhile_singleton, if_neg (by simp [space_of_key hc])]
  | cons d t ih =>
    obtain ⟨ihp, ihq⟩ := ih
    cases hd : keySeparator d with
    | true =>
      have hk : isKeyChar d = false := by simpa [keySeparator] using hd
      refine ⟨?_, fun c hc => ?_⟩
      · simp only [flattenRuns, hk, Bool.false_eq_true, if_false, if_true]
        rw [words_cons hd, ihp]
      · simp only [flattenRuns, hk, Bool.false_eq_true, if_false]
        rw [show c :: d :: t = [c] ++ d :: t from rfl, words_append_cons hd,
          words_letters (List.cons_ne_nil _ _) (by simpa using hc), List.singleton_append,
          rdropWhile_cons, rdropWhile_cons, ihp]
        by_cases hw : words keySeparator t = []
        · simp [hw, join_nil, join_singleton, space_eq, space_of_key hc]
        · rw [if_neg (hne t hw), if_neg (List.cons_ne_nil _ _), join_cons _ hw]
          rfl
    | false =>
      have hk : isKeyChar d = true := by simpa [keySeparator] using hd
      refine ⟨?_, fun c hc => ?_⟩
      · simp only [flattenRuns, hk, if_true]
        exact ihq d hd
      · simp only [flattenRuns, hk, if_true]
        rw [rdropWhile_cons, ihq d hd]
        rcases words_letter hc (d :: t) with ⟨_, _, -, -, w, ws, hw, hcw⟩ | ⟨hall, -⟩
        · rw [hcw, hw, if_neg (hw ▸ hne (d :: t) (by rw [hw]; exact List.cons_ne_nil _ _))]
          by_cases hws : ws = []
          · rw [hws, join_singleton, join_singleton]
          · rw [join_cons _ hws, join_cons _ hws]
            rfl
        · have := hall d t rfl
          rw [hd] at this
          cases this

section
variable [Postgres]

/-- the words of a name, in lower case -/
def plainWords (n : String) : List (List Char) := words keySeparator (n.toList.map Postgres.lower)

theorem plainKey_eq (n : String) : plainKey n = join ' ' (plainWords n) := by
  have htrim : ∀ s, btrim s = List.rdropWhile space (s.dropWhile (· == ' ')) := fun _ => rfl
  rw [plainKey, htrim, dropWhile_flattenRuns, (rdropWhile_flattenRuns _).1]
  rfl

theorem areWords_plain (n : String) : AreWords keySeparator (plainWords n) := areWords_words _

theorem words_plainKey (n : String) : words space (plainKey n) = plainWords n := by
  rw [plainKey_eq, words_join space_eq (areWords_space (areWords_plain n))]

/-! ## the words that stay -/

/-- `kept(n)` -/
def kept (n : String) : List (List Char) :=
  ((words space (plainKey n)).filter keeps).flatMap fun w => words space (canonical w)

/-- `request_item_words` -/
def requestItemWords (n : String) : List (List Char) := stringToArray (requestItemKey n).toList

end

/-- what a word that stays is replaced by -/
structure Canonical (w : List Char) : Prop where
  ne_nil : words space (canonical w) ≠ []
  join_words : join ' ' (words space (canonical w)) = canonical w
  areWords : AreWords keySeparator (words space (canonical w))
  keeps : ∀ v ∈ words space (canonical w), keeps v = true
  fixed : ∀ v ∈ words space (canonical w), words space (canonical v) = [v]

/-- an alias stands for words that stay, and that are no aliases -/
theorem canonical_aliases : ∀ a ∈ aliases, canonical a.1.toList = a.2.toList ∧
    words space a.2.toList ≠ [] ∧ join ' ' (words space a.2.toList) = a.2.toList ∧
    ∀ v ∈ words space a.2.toList, (v ≠ [] ∧ (v.all fun c => !keySeparator c) = true) ∧
      Request.keeps v = true ∧ words space (canonical v) = [v] := by decide

theorem canonical_spec {w : List Char} (hne : w ≠ []) (hw : ∀ c ∈ w, keySeparator c = false)
    (hk : keeps w = true) : Canonical w := by
  cases h : aliases.find? fun a => a.1.toList == w with
  | none =>
    have hc : canonical w = w := by rw [canonical, h]
    have hwords : words space w = [w] := words_letters hne fun c hc => space_of_key (hw c hc)
    have hone : ∀ v ∈ words space (canonical w), v = w := by
      intro v hv
      rwa [hc, hwords, List.mem_singleton] at hv
    refine ⟨?_, ?_, ?_, ?_, ?_⟩
    · rw [hc, hwords]
      exact List.cons_ne_nil _ _
    · rw [hc, hwords, join_singleton]
    · exact fun v hv => hone v hv ▸ ⟨hne, hw⟩
    · exact fun v hv => hone v hv ▸ hk
    · intro v hv
      rw [hone v hv, hc, hwords]
  | some a =>
    have hc : canonical w = a.2.toList := by rw [canonical, h]
    obtain ⟨-, h1, h2, h3⟩ := canonical_aliases a (List.mem_of_find?_eq_some h)
    have hwords : AreWords keySeparator (words space a.2.toList) := fun v hv =>
      ⟨(h3 v hv).1.1, fun c hcv => by simpa using List.all_eq_true.mp (h3 v hv).1.2 c hcv⟩
    exact ⟨hc ▸ h1, hc ▸ h2, hc ▸ hwords, hc ▸ fun v hv => (h3 v hv).2.1,
      hc ▸ fun v hv => (h3 v hv).2.2⟩

section
variable [Postgres]

theorem canonical_of_plain {n : String} {w : List Char} (h : w ∈ (plainWords n).filter keeps) :
    Canonical w := by
  obtain ⟨hw, hk⟩ := List.mem_filter.mp h
  exact canonical_spec (areWords_plain n w hw).1 (areWords_plain n w hw).2 hk

theorem kept_eq (n : String) :
    kept n = ((plainWords n).filter keeps).flatMap fun w => words space (canonical w) := by
  rw [kept, words_plainKey]

theorem mem_kept {n : String} {v : List Char} (h : v ∈ kept n) :
    ∃ w ∈ (plainWords n).filter keeps, v ∈ words space (canonical w) := by
  rw [kept_eq] at h
  exact List.mem_flatMap.mp h

theorem areWords_kept (n : String) : AreWords keySeparator (kept n) := by
  intro v hv
  obtain ⟨w, hw, hvw⟩ := mem_kept hv
  exact (canonical_of_plain hw).areWords v hvw

/-- nothing is kept exactly if every word is noise or a year -/
theorem kept_eq_nil {n : String} : kept n = [] ↔ (plainWords n).filter keeps = [] := by
  rw [kept_eq]
  constructor
  · intro h
    by_contra hne
    obtain ⟨w, ws, hw⟩ := List.exists_cons_of_ne_nil hne
    have hc : Canonical w := canonical_of_plain (n := n) (hw ▸ List.mem_cons_self)
    rw [hw, List.flatMap_cons] at h
    exact hc.ne_nil (List.append_eq_nil_iff.mp h).1
  · intro h
    rw [h]
    rfl

theorem keptWords_eq (n : String) : keptWords n = ((plainWords n).filter keeps).map canonical := by
  unfold keptWords
  rw [← words_plainKey, words, List.filter_filter]
  refine congrArg (List.map canonical) (List.filter_congr fun w _ => ?_)
  rw [Bool.and_comm]
  cases w with
  | nil => rfl
  | cons c w => simp [keeps, Bool.and_comm]

theorem join_kept (n : String) : join ' ' (kept n) = join ' ' (keptWords n) := by
  rw [kept_eq, keptWords_eq]
  have hall : ∀ ws : List (List Char), (∀ w ∈ ws, Canonical w) →
      join ' ' (ws.flatMap fun w => words space (canonical w)) = join ' ' (ws.map canonical) := by
    intro ws
    induction ws with
    | nil => exact fun _ => rfl
    | cons w ws ih =>
      intro h
      have hw := h w List.mem_cons_self
      have ht := fun v hv => h v (List.mem_cons_of_mem w hv)
      cases ws with
      | nil =>
        rw [List.flatMap_singleton, List.map_singleton, join_singleton, hw.join_words]
      | cons v vs =>
        have hv := h v (List.mem_cons_of_mem _ List.mem_cons_self)
        have hne : ((v :: vs).flatMap fun w => words space (canonical w)) ≠ [] := by
          rw [List.flatMap_cons]
          exact fun e => hv.ne_nil (List.append_eq_nil_iff.mp e).1
        rw [List.flatMap_cons, join_append hw.ne_nil hne, hw.join_words, ih ht]
        exact (join_cons (canonical w) (List.cons_ne_nil _ _)).symm
  exact hall _ fun w hw => canonical_of_plain hw

/-- joined words have no space at their ends -/
theorem btrim_join {ws : List (List Char)} (h : AreWords keySeparator ws) :
    btrim (join ' ' ws) = join ' ' ws := by
  have htrim : ∀ s, btrim s = List.rdropWhile space (s.dropWhile space) := fun _ => rfl
  rw [htrim, dropWhile_join (areWords_space h), rdropWhile_join (areWords_space h)]

/-- **the key**: what is kept of the name, or its plain form if nothing is -/
theorem requestItemKey_eq (n : String) :
    (requestItemKey n).toList = if kept n = [] then plainKey n else join ' ' (kept n) := by
  rw [requestItemKey, String.toList_ofList]
  by_cases hk : kept n = []
  · have hw : keptWords n = [] := by rw [keptWords_eq, kept_eq_nil.mp hk, List.map_nil]
    rw [if_pos hk, hw]
    rfl
  · have hne : keptWords n ≠ [] := by
      rw [keptWords_eq]
      exact fun e => hk (kept_eq_nil.mpr (List.map_eq_nil_iff.mp e))
    have hagg : stringAgg (keptWords n) = some (join ' ' (kept n)) := by
      rw [join_kept]
      obtain ⟨w, ws, hw⟩ := List.exists_cons_of_ne_nil hne
      rw [hw]
      rfl
    have hjoin : join ' ' (kept n) ≠ [] := by
      obtain ⟨w, ws, hw⟩ := List.exists_cons_of_ne_nil hk
      rw [hw]
      exact join_ne_nil (hw ▸ areWords_kept n)
    rw [if_neg hk, hagg, Option.map_some, btrim_join (areWords_kept n), Option.bind_some]
    obtain ⟨c, t, ht⟩ := List.exists_cons_of_ne_nil hjoin
    rw [ht]
    rfl

/-! ## when two names have the same key -/

/-- words that stay and stand for themselves are kept as they are -/
theorem filter_kept (n : String) : (kept n).filter keeps = kept n := by
  refine List.filter_eq_self.mpr fun v hv => ?_
  obtain ⟨w, hw, hvw⟩ := mem_kept hv
  exact (canonical_of_plain hw).keeps v hvw

theorem flatMap_kept (n : String) :
    ((kept n).flatMap fun w => words space (canonical w)) = kept n := by
  have hall : ∀ ws : List (List Char), (∀ w ∈ ws, words space (canonical w) = [w]) →
      (ws.flatMap fun w => words space (canonical w)) = ws := by
    intro ws
    induction ws with
    | nil => exact fun _ => rfl
    | cons w ws ih =>
      intro h
      rw [List.flatMap_cons, h w List.mem_cons_self,
        ih fun v hv => h v (List.mem_cons_of_mem _ hv)]
      rfl
  refine hall _ fun v hv => ?_
  obtain ⟨w, hw, hvw⟩ := mem_kept hv
  exact (canonical_of_plain hw).fixed v hvw

/-- a stripped name never meets one of which nothing was kept -/
theorem join_kept_ne_plain {a b : String} (ha : kept a ≠ []) (hb : kept b = []) :
    join ' ' (kept a) ≠ plainKey b := by
  intro h
  rw [plainKey_eq] at h
  have hw := join_injective keySeparator_space (areWords_kept a) (areWords_plain b) h
  have hf := kept_eq_nil.mp hb
  rw [← hw, filter_kept] at hf
  exact ha hf

theorem requestItemKey_eq_iff (a b : String) : requestItemKey a = requestItemKey b ↔
    (kept a ≠ [] ∧ kept b ≠ [] ∧ kept a = kept b) ∨
      (kept a = [] ∧ kept b = [] ∧ plainKey a = plainKey b) := by
  rw [← String.toList_inj, requestItemKey_eq, requestItemKey_eq]
  by_cases ha : kept a = []
  · by_cases hb : kept b = []
    · simp [ha, hb]
    · rw [if_pos ha, if_neg hb]
      simp [ha, hb, (join_kept_ne_plain hb ha).symm]
  · by_cases hb : kept b = []
    · rw [if_neg ha, if_pos hb]
      simp [ha, hb, join_kept_ne_plain ha hb]
    · rw [if_neg ha, if_neg hb]
      constructor
      · intro h
        exact .inl ⟨ha, hb,
          join_injective keySeparator_space (areWords_kept a) (areWords_kept b) h⟩
      · rintro (⟨-, -, h⟩ | ⟨h, -⟩)
        · rw [h]
        · exact absurd h ha

/-- the key reads nothing of a name but its words -/
theorem requestItemKey_congr {a b : String} (h : plainWords a = plainWords b) :
    requestItemKey a = requestItemKey b := by
  refine String.toList_injective ?_
  rw [requestItemKey_eq, requestItemKey_eq, kept_eq, kept_eq, plainKey_eq, plainKey_eq, h]

/-- nor the words that go, if any stay -/
theorem requestItemKey_of_kept {a b : String} (h : kept a = kept b) (ha : kept a ≠ []) :
    requestItemKey a = requestItemKey b :=
  (requestItemKey_eq_iff a b).mpr (.inl ⟨ha, h ▸ ha, h⟩)

/-! ## the key of a key -/

theorem isKeyChar_toNat {c : Char} : isKeyChar c = true ↔
    (97 ≤ c.toNat ∧ c.toNat ≤ 122) ∨ (48 ≤ c.toNat ∧ c.toNat ≤ 57) := by
  simp only [isKeyChar, Bool.or_eq_true, Bool.and_eq_true, decide_eq_true_eq, Char.le_def,
    UInt32.le_iff_toNat_le]
  exact Iff.rfl

theorem lower_of_toNat {c : Char} (h : c.toNat < 128) (hu : ¬(65 ≤ c.toNat ∧ c.toNat ≤ 90)) :
    Postgres.lower c = c := by
  have hlower : c.toLower = c := by
    refine dif_neg ?_
    rw [ge_iff_le, UInt32.le_iff_toNat_le, UInt32.le_iff_toNat_le]
    exact hu
  rw [Postgres.lower_ascii c (UInt32.lt_iff_toNat_lt.mpr h), hlower]

/-- a key is in lower case -/
theorem lower_key {c : Char} (h : keySeparator c = false ∨ c = ' ') : Postgres.lower c = c := by
  rcases h with h | rfl
  · have hk := isKeyChar_toNat.mp (by simpa [keySeparator] using h)
    exact lower_of_toNat (by omega) (by omega)
  · exact lower_of_toNat (by decide) (by decide)

/-- a key is made of words -/
theorem requestItemKey_words (n : String) :
    ∃ ws, AreWords keySeparator ws ∧ (requestItemKey n).toList = join ' ' ws := by
  by_cases hk : kept n = []
  · exact ⟨plainWords n, areWords_plain n, by rw [requestItemKey_eq, if_pos hk, plainKey_eq]⟩
  · exact ⟨kept n, areWords_kept n, by rw [requestItemKey_eq, if_neg hk]⟩

theorem lower_join {ws : List (List Char)} (h : AreWords keySeparator ws) :
    (join ' ' ws).map Postgres.lower = join ' ' ws := by
  refine (List.map_congr_left fun c hc => ?_).trans (List.map_id _)
  rcases mem_join hc with rfl | ⟨w, hw, hcw⟩
  · exact lower_key (.inr rfl)
  · exact lower_key (.inl ((h w hw).2 c hcw))

/-- the words of joined words -/
theorem plainWords_join {ws : List (List Char)} (h : AreWords keySeparator ws) {n : String}
    (hn : n.toList = join ' ' ws) : plainWords n = ws := by
  rw [plainWords, hn, lower_join h, words_join keySeparator_space h]

theorem requestItemKey_idem (n : String) : requestItemKey (requestItemKey n) = requestItemKey n := by
  have hkey := requestItemKey_eq n
  by_cases hk : kept n = []
  · rw [if_pos hk, plainKey_eq] at hkey
    exact requestItemKey_congr (plainWords_join (areWords_plain n) hkey)
  · rw [if_neg hk] at hkey
    have hw := plainWords_join (areWords_kept n) hkey
    have hkept : kept (requestItemKey n) = kept n := by
      rw [kept_eq, hw, filter_kept, flatMap_kept]
    exact requestItemKey_of_kept hkept (by rw [hkept]; exact hk)

/-- `request_item_words` -/
theorem requestItemWords_eq {n : String} (h : kept n ≠ []) : requestItemWords n = kept n := by
  have hk := requestItemKey_eq n
  rw [if_neg h] at hk
  obtain ⟨w, ws, hw⟩ := List.exists_cons_of_ne_nil h
  have hne : join ' ' (kept n) ≠ [] := by
    rw [hw]
    exact join_ne_nil (hw ▸ areWords_kept n)
  rw [requestItemWords, hk, stringToArray, if_neg hne]
  refine List.splitOn_intercalate ' ' (fun v hv hs => ?_) h
  have := space_of_key ((areWords_kept n v hv).2 ' ' hs)
  cases this

/-! ## what may be changed in a name -/

/-- the same character, or the same ASCII letter in another case -/
def SameButCase (c d : Char) : Prop := c = d ∨ (c.toNat < 128 ∧ d.toNat < 128 ∧ c.toLower = d.toLower)

theorem lower_sameButCase {a b : List Char} (h : List.Forall₂ SameButCase a b) :
    a.map Postgres.lower = b.map Postgres.lower := by
  induction h with
  | nil => rfl
  | cons hc _ ih =>
    rw [List.map_cons, List.map_cons, ih]
    rcases hc with rfl | ⟨hc, hd, he⟩
    · rfl
    · rw [Postgres.lower_ascii _ (UInt32.lt_iff_toNat_lt.mpr hc),
        Postgres.lower_ascii _ (UInt32.lt_iff_toNat_lt.mpr hd), he]

/-- a character that the key drops -/
def Separator (c : Char) : Prop := keySeparator (Postgres.lower c) = true

instance (c : Char) : Decidable (Separator c) :=
  inferInstanceAs (Decidable (keySeparator (Postgres.lower c) = true))

theorem separators_map {r : List Char} (h : ∀ c ∈ r, Separator c) :
    ∀ c ∈ r.map Postgres.lower, keySeparator c = true := by
  intro c hc
  obtain ⟨d, hd, rfl⟩ := List.mem_map.mp hc
  exact h d hd

theorem plainWords_run {x r y : List Char} (hne : r ≠ []) (h : ∀ c ∈ r, Separator c) :
    plainWords (String.ofList (x ++ (r ++ y))) =
      plainWords (String.ofList x) ++ plainWords (String.ofList y) := by
  simp only [plainWords, String.toList_ofList, List.map_append]
  exact words_run (fun e => hne (List.map_eq_nil_iff.mp e)) (separators_map h) _ _

/-- no word goes on from `x` into `y` -/
def Boundary (x y : List Char) : Prop := ∀ c ∈ x.getLast?, ∀ d ∈ y.head?, Separator c ∨ Separator d

instance (x y : List Char) : Decidable (Boundary x y) :=
  letI (c : Char) : Decidable (∀ d ∈ y.head?, Separator c ∨ Separator d) :=
    Option.decidableForallMem y.head?
  Option.decidableForallMem x.getLast?

theorem Boundary.apart {x y : List Char} (h : Boundary x y) :
    Apart keySeparator (x.map Postgres.lower) (y.map Postgres.lower) := by
  intro c hc d hd
  rw [List.getLast?_map] at hc
  rw [List.head?_map] at hd
  obtain ⟨c', hc', rfl⟩ := Option.map_eq_some_iff.mp hc
  obtain ⟨d', hd', rfl⟩ := Option.map_eq_some_iff.mp hd
  exact h c' hc' d' hd'

theorem plainWords_append {x y : List Char} (h : Boundary x y) :
    plainWords (String.ofList (x ++ y)) =
      plainWords (String.ofList x) ++ plainWords (String.ofList y) := by
  simp only [plainWords, String.toList_ofList, List.map_append]
  exact words_append h.apart

/-- nothing but noise and years -/
def Filler (t : List Char) : Prop := ∀ w ∈ plainWords (String.ofList t), keeps w = false

instance (t : List Char) : Decidable (Filler t) :=
  inferInstanceAs (Decidable (∀ w ∈ plainWords (String.ofList t), keeps w = false))

theorem kept_insert {x t y : List Char} (hxy : Boundary x y) (hxt : Boundary x t)
    (hty : Boundary (x ++ t) y) (ht : Filler t) :
    kept (String.ofList (x ++ t ++ y)) = kept (String.ofList (x ++ y)) := by
  have hnone : (plainWords (String.ofList t)).filter keeps = [] :=
    List.filter_eq_nil_iff.mpr fun w hw => by simp [ht w hw]
  rw [kept_eq, kept_eq, plainWords_append hty, plainWords_append hxt, plainWords_append hxy,
    List.filter_append, List.filter_append, hnone, List.append_nil, List.filter_append]

/-- **What the key identifies.**  Two names have the same key exactly if the same words are kept of
both, or none of either and their plain forms are the same.  So the key of a key is that key; case
and the choice of separators do not matter, nor do noise and years where other words are kept; and
the key as words is what is kept. -/
theorem item_key_identifies :
    (∀ a b, requestItemKey a = requestItemKey b ↔
      (kept a ≠ [] ∧ kept b ≠ [] ∧ kept a = kept b) ∨
        (kept a = [] ∧ kept b = [] ∧ plainKey a = plainKey b)) ∧
    (∀ n, requestItemKey (requestItemKey n) = requestItemKey n) ∧
    (∀ a b, List.Forall₂ SameButCase a.toList b.toList → requestItemKey a = requestItemKey b) ∧
    (∀ x r r' y : List Char, r ≠ [] → r' ≠ [] → (∀ c ∈ r, Separator c) → (∀ c ∈ r', Separator c) →
      requestItemKey (String.ofList (x ++ (r ++ y))) =
        requestItemKey (String.ofList (x ++ (r' ++ y)))) ∧
    (∀ x t y : List Char, Boundary x y → Boundary x t → Boundary (x ++ t) y → Filler t →
      kept (String.ofList (x ++ y)) ≠ [] →
      requestItemKey (String.ofList (x ++ t ++ y)) = requestItemKey (String.ofList (x ++ y))) ∧
    ∀ n, kept n ≠ [] → requestItemWords n = kept n := by
  refine ⟨requestItemKey_eq_iff, requestItemKey_idem, fun a b h => ?_, fun x r r' y hr hr' h h' => ?_,
    fun x t y hxy hxt hty ht hk => ?_, fun n => requestItemWords_eq⟩
  · refine requestItemKey_congr ?_
    rw [plainWords, plainWords, lower_sameButCase h]
  · refine requestItemKey_congr ?_
    rw [plainWords_run hr h, plainWords_run hr' h']
  · have hkept := kept_insert hxy hxt hty ht
    exact requestItemKey_of_kept hkept (by rw [hkept]; exact hk)

end

/-- noise and a year, put in at the end of a word -/
theorem item_key_identifies_console : letI := asciiPostgres
    requestItemKey "the PS5 (brand new, 2024) slim" = requestItemKey "the PS5 slim" := by
  let : Postgres := asciiPostgres
  exact item_key_identifies.2.2.2.2.1 "the PS5".toList " (brand new, 2024)".toList " slim".toList
    (by decide) (by decide) (by decide) (by decide) (by decide)

/-! ## names that the key knows nothing of -/

section
variable [Postgres]

/-- some character is a letter or a digit of the key -/
def HasKeyChar (n : String) : Prop := ∃ c ∈ n.toList, ¬Separator c

instance (n : String) : Decidable (HasKeyChar n) :=
  List.decidableBEx (fun c => ¬Separator c) n.toList

/-- the names have a letter or a digit in common, up to case -/
def Shares (a b : String) : Prop :=
  ∃ c ∈ a.toList, ∃ d ∈ b.toList, Postgres.lower c = Postgres.lower d ∧ ¬Separator c

theorem plainWords_eq_nil {n : String} : plainWords n = [] ↔ ¬HasKeyChar n := by
  rw [plainWords, words_eq_nil]
  constructor
  · rintro h ⟨c, hc, hs⟩
    exact hs (h _ (List.mem_map_of_mem hc))
  · intro h c hc
    obtain ⟨d, hd, rfl⟩ := List.mem_map.mp hc
    by_contra hs
    exact h ⟨d, hd, hs⟩

theorem requestItemKey_eq_empty {n : String} : requestItemKey n = "" ↔ ¬HasKeyChar n := by
  rw [← String.toList_inj, requestItemKey_eq, ← plainWords_eq_nil]
  have hjoin : ∀ {ws : List (List Char)}, AreWords keySeparator ws →
      (join ' ' ws = [] ↔ ws = []) := by
    intro ws hw
    constructor
    · intro h
      by_contra hne
      obtain ⟨w, vs, rfl⟩ := List.exists_cons_of_ne_nil hne
      exact join_ne_nil hw h
    · rintro rfl
      rfl
  by_cases hk : kept n = []
  · rw [if_pos hk, plainKey_eq]
    exact hjoin (areWords_plain n)
  · rw [if_neg hk]
    refine ⟨fun h => absurd ((hjoin (areWords_kept n)).mp h) hk, fun h => ?_⟩
    refine absurd ?_ hk
    rw [kept_eq, h]
    rfl

/-- a key that is not empty has a letter or a digit -/
theorem key_hasKeyChar {n : String} (h : requestItemKey n ≠ "") :
    ∃ c ∈ (requestItemKey n).toList, isKeyChar c = true := by
  obtain ⟨ws, hws, hj⟩ := requestItemKey_words n
  cases ws with
  | nil => exact absurd (String.toList_injective hj) h
  | cons w ws =>
    obtain ⟨hne, hw⟩ := hws w List.mem_cons_self
    obtain ⟨c, t, rfl⟩ := List.exists_cons_of_ne_nil hne
    refine ⟨c, ?_, by simpa [keySeparator] using hw c List.mem_cons_self⟩
    rw [hj]
    exact mem_join_of_mem List.mem_cons_self List.mem_cons_self

/-- a word begins with a letter of the alias that it comes from -/
theorem canonical_head {w v : List Char} (hne : w ≠ []) (hw : ∀ c ∈ w, keySeparator c = false)
    (hv : v ∈ words space (canonical w)) : ∃ c ∈ v.head?, c ∈ w := by
  cases h : aliases.find? fun a => a.1.toList == w with
  | none =>
    have hc : canonical w = w := by rw [canonical, h]
    rw [hc, words_letters hne fun c hc => space_of_key (hw c hc), List.mem_singleton] at hv
    obtain ⟨c, t, rfl⟩ := List.exists_cons_of_ne_nil hne
    exact ⟨c, by rw [hv]; rfl, List.mem_cons_self⟩
  | some a =>
    have hc : canonical w = a.2.toList := by rw [canonical, h]
    have hany : ∀ a ∈ aliases, ∀ v ∈ words space a.2.toList,
        (v.head?.any fun c => a.1.toList.contains c) = true := by decide
    have htable : ∀ a ∈ aliases, ∀ v ∈ words space a.2.toList, ∃ c ∈ v.head?, c ∈ a.1.toList := by
      intro a ha v hv
      obtain ⟨c, hc, hm⟩ := (Option.any_eq_true _ _).mp (hany a ha v hv)
      exact ⟨c, hc, List.contains_iff_mem.mp hm⟩
    have hwa : a.1.toList = w := by
      simpa using List.find?_some (p := fun a : String × String => a.1.toList == w) h
    rw [← hwa]
    exact htable a (List.mem_of_find?_eq_some h) v (hc ▸ hv)

/-- a letter of a word of a name -/
theorem mem_plainWords {n : String} {w : List Char} (hw : w ∈ plainWords n) {c : Char}
    (hc : c ∈ w) : ∃ d ∈ n.toList, Postgres.lower d = c ∧ ¬Separator d := by
  obtain ⟨hs, hm⟩ := (mem_words hw).2 c hc
  obtain ⟨d, hd, rfl⟩ := List.mem_map.mp hm
  exact ⟨d, hd, rfl, fun h => by rw [Separator, hs] at h; cases h⟩

theorem shares_of_words {a b : String} {v w : List Char} (hv : v ∈ plainWords a)
    (hw : w ∈ plainWords b) {c : Char} (hcv : c ∈ v) (hcw : c ∈ w) : Shares a b := by
  obtain ⟨x, hx, rfl, hs⟩ := mem_plainWords hv hcv
  obtain ⟨y, hy, he, -⟩ := mem_plainWords hw hcw
  exact ⟨x, hx, y, hy, he.symm, hs⟩

/-- names of the same key have a letter in common, unless the key is empty -/
theorem shares_of_key {a b : String} (h : requestItemKey a = requestItemKey b)
    (ha : HasKeyChar a) : Shares a b := by
  rcases (requestItemKey_eq_iff a b).mp h with ⟨hka, -, hk⟩ | ⟨-, -, hp⟩
  · obtain ⟨v, vs, hv⟩ := List.exists_cons_of_ne_nil hka
    have hva : v ∈ kept a := hv ▸ List.mem_cons_self
    obtain ⟨w, hw, hvw⟩ := mem_kept hva
    obtain ⟨u, hu, hvu⟩ := mem_kept (hk ▸ hva : v ∈ kept b)
    have hwa := (List.mem_filter.mp hw).1
    have hub := (List.mem_filter.mp hu).1
    obtain ⟨c, hc, hcw⟩ :=
      canonical_head (areWords_plain a w hwa).1 (areWords_plain a w hwa).2 hvw
    obtain ⟨d, hd, hdu⟩ :=
      canonical_head (areWords_plain b u hub).1 (areWords_plain b u hub).2 hvu
    obtain rfl : c = d := Option.some.inj (hc.symm.trans hd)
    exact shares_of_words hwa hub hcw hdu
  · have hw : plainWords a = plainWords b := by
      rw [plainKey_eq, plainKey_eq] at hp
      exact join_injective keySeparator_space (areWords_plain a) (areWords_plain b) hp
    have hne : plainWords a ≠ [] := fun e => plainWords_eq_nil.mp e ha
    obtain ⟨w, ws, hws⟩ := List.exists_cons_of_ne_nil hne
    have hwa : w ∈ plainWords a := hws ▸ List.mem_cons_self
    obtain ⟨c, t, hct⟩ := List.exists_cons_of_ne_nil (areWords_plain a w hwa).1
    have hcw : c ∈ w := hct ▸ List.mem_cons_self
    exact shares_of_words hwa (hw ▸ hwa) hcw hcw

end

end Marketplace.Request
