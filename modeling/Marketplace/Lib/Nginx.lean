import Marketplace.Lib.Text
import Marketplace.Lib.Words

/-!
# The paths of nginx

What nginx makes of the target of a request before it chooses where to send it.  A byte is written as
the character of the same number.

* `unescape`         percent-decoding; a malformed escape and an escaped NUL are refused;
* `resolve`          the segments of a path, empty ones and `.` left out, each `..` with the one before
                     it; a path that leaves the root is refused;
* `normalize`        `$uri`;
* `under p t`        the regular expression `^p(/|$)`;
* `under_iff`        it looks at the first segments only, a newline at the very end aside;
* `normalize_plain`  a path of plain segments is left as it is.
-/

namespace Nginx

open Text

abbrev Segment := List Char

def unescape : List Char → Option (List Char)
  | [] => some []
  | '%' :: a :: b :: rest =>
    match hexDigit a, hexDigit b with
    | some x, some y =>
      if x * 16 + y = 0 then none
      else (unescape rest).map fun t => Char.ofNat (x * 16 + y) :: t
    | _, _ => none
  | '%' :: _ => none
  | c :: rest => (unescape rest).map fun t => c :: t

/-! ## segments -/

def dot : Segment := ['.']
def dotDot : Segment := ['.', '.']

/-- one segment, onto the ones before it, the last of them first -/
def descend (before : List Segment) (s : Segment) : Option (List Segment) :=
  if s = [] ∨ s = dot then some before
  else if s = dotDot then
    match before with
    | [] => none
    | _ :: before => some before
  else some (s :: before)

/-- the path ends in a slash if its last segment names nothing -/
def resolve : List Segment → List Segment → Option (List Segment)
  | before, [] => some before.reverse
  | before, [s] =>
    (descend before s).map fun before =>
      if s = [] ∨ s = dot ∨ s = dotDot then before.reverse ++ [[]] else before.reverse
  | before, s :: rest => (descend before s).bind fun before => resolve before rest

/-- `/` and the segments -/
def pathOf (segments : List Segment) : List Char := '/' :: join '/' segments

/-- no character of a request line -/
def control (c : Char) : Bool := c.val ≤ 0x20 || c.val == 0x7f

/-- `$uri`: the path of the target, decoded and resolved -/
def normalize (target : List Char) : Option (List Char) :=
  if target.any control then none
  else
    match target with
    | '/' :: rest =>
      (unescape (rest.takeWhile fun c => c != '?' && c != '#')).bind fun path =>
        (resolve [] (path.splitOn '/')).map pathOf
    | _ => none

/-- the target up to its query, as it is sent on -/
def rawPath (target : List Char) : List Char := target.takeWhile fun c => c != '?'

/-! ## the beginning of a path -/

/-- `^p(/|$)`; the end of the text is also where one newline follows -/
def under (p t : List Char) : Bool :=
  p.isPrefixOf t &&
    match t.drop p.length with
    | [] => true
    | ['\n'] => true
    | c :: _ => c == '/'

theorem under_eq_true {p t : List Char} :
    under p t = true ↔ t = p ∨ t = p ++ ['\n'] ∨ ∃ rest, t = p ++ '/' :: rest := by
  rw [under, Bool.and_eq_true, List.isPrefixOf_iff_prefix]
  constructor
  · rintro ⟨⟨rest, rfl⟩, h⟩
    rw [List.drop_left] at h
    split at h
    · exact .inl (List.append_nil p)
    · exact .inr (.inl rfl)
    · rename_i c rest _
      rw [beq_iff_eq] at h
      subst h
      exact .inr (.inr ⟨rest, rfl⟩)
  · rintro (rfl | rfl | ⟨rest, rfl⟩)
    · refine ⟨List.prefix_rfl, ?_⟩
      rw [List.drop_length]
    · refine ⟨List.prefix_append _ _, ?_⟩
      rw [List.drop_left]
      rfl
    · refine ⟨List.prefix_append _ _, ?_⟩
      rw [List.drop_left]
      rfl

/-- without one newline at its end -/
def unended (t : List Char) : List Char := if t.getLast? = some '\n' then t.dropLast else t

theorem unended_cases (t : List Char) : t = unended t ∨ t = unended t ++ ['\n'] := by
  unfold unended
  split
  · rename_i h
    obtain ⟨l, rfl⟩ := List.getLast?_eq_some_iff.mp h
    exact .inr (by rw [List.dropLast_concat])
  · exact .inl rfl

theorem unended_append {s t : List Char} (ht : t ≠ []) : unended (s ++ t) = s ++ unended t := by
  unfold unended
  rw [List.getLast?_append_of_ne_nil s ht]
  split
  · rw [List.dropLast_append_of_ne_nil ht]
  · rfl

theorem unended_of_not_mem {t : List Char} (h : '\n' ∉ t) : unended t = t := by
  refine if_neg fun hl => h ?_
  exact List.mem_of_getLast? hl

theorem not_mem_of_mem_splitOn {t w : List Char} (hw : w ∈ t.splitOn '/') : '/' ∉ w := by
  induction t generalizing w with
  | nil =>
    rw [List.splitOn_nil, List.mem_singleton] at hw
    rw [hw]
    exact List.not_mem_nil
  | cons c t ih =>
    obtain ⟨v, vs, hv⟩ := List.exists_cons_of_ne_nil (List.splitOn_ne_nil '/' t)
    rw [List.splitOn_cons_eq_if_modifyHead, hv] at hw
    have hall : ∀ u ∈ v :: vs, '/' ∉ u := fun u hu => ih (hv ▸ hu)
    split at hw
    · rcases List.mem_cons.mp hw with rfl | hw
      · exact List.not_mem_nil
      · exact hall w hw
    · rename_i hc
      rcases List.mem_cons.mp hw with rfl | hw
      · rw [List.mem_cons, not_or]
        exact ⟨fun h => hc (beq_iff_eq.mpr h.symm), hall v List.mem_cons_self⟩
      · exact hall w (List.mem_cons_of_mem _ hw)

/-- the first segments of a text -/
theorem take_splitOn {ws : List Segment} (hne : ws ≠ []) (hw : ∀ w ∈ ws, '/' ∉ w) {t : List Char} :
    (t.splitOn '/').take ws.length = ws ↔
      t = join '/' ws ∨ ∃ rest, t = join '/' ws ++ '/' :: rest := by
  have hsplit : (join '/' ws).splitOn '/' = ws := List.splitOn_intercalate '/' hw hne
  constructor
  · intro h
    have hs : t.splitOn '/' = ws ++ (t.splitOn '/').drop ws.length := by
      conv_lhs => rw [← List.take_append_drop ws.length (t.splitOn '/'), h]
    have ht : t = join '/' (ws ++ (t.splitOn '/').drop ws.length) := by
      rw [← hs]
      exact (List.intercalate_splitOn '/').symm
    by_cases hd : (t.splitOn '/').drop ws.length = []
    · rw [hd, List.append_nil] at ht
      exact .inl ht
    · rw [join_append hne hd] at ht
      exact .inr ⟨_, ht⟩
  · rintro (rfl | ⟨rest, rfl⟩)
    · rw [hsplit, List.take_length]
    · rw [List.splitOn_append_cons_self, hsplit, List.take_left']
      rfl

/-- **the expression looks at the first segments**, and a newline at the very end does not count -/
theorem under_iff {ws : List Segment} (hne : ws ≠ []) (hw : ∀ w ∈ ws, '/' ∉ w)
    (hnl : '\n' ∉ join '/' ws) {t : List Char} :
    under (join '/' ws) t = true ↔ ((unended t).splitOn '/').take ws.length = ws := by
  rw [under_eq_true, take_splitOn hne hw]
  have hself := unended_of_not_mem hnl
  constructor
  · rintro (rfl | rfl | ⟨rest, rfl⟩)
    · exact .inl hself
    · refine .inl ?_
      rw [unended_append (List.cons_ne_nil _ _)]
      exact List.append_nil _
    · refine .inr ⟨unended rest, ?_⟩
      rw [unended_append (List.cons_ne_nil _ _)]
      cases rest with
      | nil => rfl
      | cons c rest =>
        rw [← List.singleton_append, unended_append (List.cons_ne_nil _ _)]
        rfl
  · rintro (h | ⟨rest, h⟩)
    · rcases unended_cases t with ht | ht
      · exact .inl (by rw [ht, h])
      · exact .inr (.inl (by rw [ht, h]))
    · rcases unended_cases t with ht | ht
      · exact .inr (.inr ⟨rest, by rw [ht, h]⟩)
      · exact .inr (.inr ⟨rest ++ ['\n'], by rw [ht, h, List.append_assoc, List.cons_append]⟩)

/-- no line ends within a request line -/
theorem normalize_line {target uri : List Char} (h : normalize target = some uri) :
    '\n' ∉ target := by
  intro hm
  have hc : target.any control = true := List.any_eq_true.mpr ⟨'\n', hm, by decide⟩
  unfold normalize at h
  rw [if_pos hc] at h
  cases h

/-! ## plain paths -/

/-- a segment that is spelled as it is meant -/
def Plain (s : Segment) : Prop :=
  s ≠ [] ∧ s ≠ dot ∧ s ≠ dotDot ∧
    ∀ c ∈ s, c ≠ '/' ∧ c ≠ '%' ∧ c ≠ '?' ∧ c ≠ '#' ∧ control c = false

theorem descend_plain {s : Segment} (h : Plain s) (before : List Segment) :
    descend before s = some (s :: before) := by
  obtain ⟨h1, h2, h3, -⟩ := h
  unfold descend
  rw [if_neg (by simp [h1, h2]), if_neg h3]

theorem resolve_plain {segments : List Segment} (h : ∀ s ∈ segments, Plain s)
    (before : List Segment) : resolve before segments = some (before.reverse ++ segments) := by
  induction segments generalizing before with
  | nil => rw [resolve, List.append_nil]
  | cons s rest ih =>
    have hs := h s List.mem_cons_self
    have hrest := ih fun r hr => h r (List.mem_cons_of_mem _ hr)
    cases rest with
    | nil =>
      obtain ⟨h1, h2, h3, -⟩ := hs
      rw [resolve, descend_plain (h s List.mem_cons_self)]
      simp [h1, h2, h3]
    | cons r rest =>
      rw [resolve, descend_plain hs, Option.bind_some, hrest]
      · simp
      · exact List.cons_ne_nil _ _

theorem unescape_plain {t : List Char} (h : ∀ c ∈ t, c ≠ '%') : unescape t = some t := by
  induction t with
  | nil => rfl
  | cons c t ih =>
    have hc := h c List.mem_cons_self
    rw [unescape, ih fun d hd => h d (List.mem_cons_of_mem _ hd)]
    · rfl
    · rintro a b rest rfl -
      exact hc rfl
    · rintro rfl
      exact hc rfl

theorem plain_chars {segments : List Segment} (h : ∀ s ∈ segments, Plain s) {c : Char}
    (hc : c ∈ join '/' segments) : c ≠ '%' ∧ c ≠ '?' ∧ c ≠ '#' ∧ control c = false := by
  rcases mem_join hc with rfl | ⟨s, hs, hcs⟩
  · exact ⟨by decide, by decide, by decide, by decide⟩
  · exact ((h s hs).2.2.2 c hcs).2

/-- a path ends where its query begins -/
theorem takeWhile_query {go : Char → Bool} {path query : List Char} (h : ∀ c ∈ path, go c = true)
    (hgo : go '?' = false) (hq : query = [] ∨ ∃ t, query = '?' :: t) :
    (path ++ query).takeWhile go = path := by
  rw [List.takeWhile_append_of_pos h]
  rcases hq with rfl | ⟨t, rfl⟩
  · rw [List.takeWhile_nil, List.append_nil]
  · rw [List.takeWhile_cons_of_neg (by simp [hgo]), List.append_nil]

theorem plain_path {segments : List Segment} (h : ∀ s ∈ segments, Plain s) {c : Char}
    (hc : c ∈ pathOf segments) : c ≠ '?' ∧ control c = false := by
  rcases List.mem_cons.mp hc with rfl | hc
  · exact ⟨by decide, by decide⟩
  · exact ⟨(plain_chars h hc).2.1, (plain_chars h hc).2.2.2⟩

theorem rawPath_plain {segments : List Segment} (h : ∀ s ∈ segments, Plain s) {query : List Char}
    (hq : query = [] ∨ ∃ t, query = '?' :: t) :
    rawPath (pathOf segments ++ query) = pathOf segments :=
  takeWhile_query (fun c hc => by simp [(plain_path h hc).1]) (by decide) hq

/-- **a path of plain segments is left as it is**, with any query -/
theorem normalize_plain {segments : List Segment} (hne : segments ≠ [])
    (h : ∀ s ∈ segments, Plain s) {query : List Char} (hq : query = [] ∨ ∃ t, query = '?' :: t)
    (hc : query.any control = false) :
    normalize (pathOf segments ++ query) = some (pathOf segments) := by
  have hcontrol : (pathOf segments ++ query).any control = false := by
    rw [List.any_append, hc, Bool.or_false, List.any_eq_false]
    intro c hm
    rw [(plain_path h hm).2]
    exact Bool.false_ne_true
  have htake : (join '/' segments ++ query).takeWhile (fun c => c != '?' && c != '#') =
      join '/' segments := by
    refine takeWhile_query (fun c hm => ?_) (by decide) hq
    simp [(plain_chars h hm).2.1, (plain_chars h hm).2.2.1]
  have hsplit : (join '/' segments).splitOn '/' = segments :=
    List.splitOn_intercalate '/' (fun s hs hm => ((h s hs).2.2.2 _ hm).1 rfl) hne
  unfold normalize
  rw [hcontrol, if_neg Bool.false_ne_true]
  show ((unescape ((join '/' segments ++ query).takeWhile _)).bind _) = _
  rw [htake, unescape_plain fun c hm => (plain_chars h hm).1, Option.bind_some, hsplit,
    resolve_plain h]
  rfl

end Nginx
