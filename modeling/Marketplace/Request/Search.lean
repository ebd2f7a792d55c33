import Mathlib.Data.List.Dedup
import Mathlib.Data.Prod.Lex
import Mathlib.Data.Rat.Defs
import Mathlib.Algebra.Order.Field.Rat
import Marketplace.Lib.Alone
import Marketplace.Lib.Like
import Marketplace.Request.Refusals

/-!
# request-service: suggestions and search

Two readings of the requests, `Similar` and `List`, beside the refusal of `Create`.

* `RefusedBy d c inp e`   `Create`, alone on the contents `d`, is refused because of the request `e`;
* `Db.findSimilar`   `FindSimilarRequests`; the score is pg_trgm's, a parameter of the model;
* `Db.listRequests`  `ListRequests`, with `ILIKE`;
* `refusedBy_iff`    a refusal is the work of the one request with the key of the name;
* `suggestions_agree`   **the suggestions mark that request**, first and alone;
* `search_shows_iff`   **the search shows it exactly if its name contains what was typed**.
-/

set_option linter.unusedSectionVars false

namespace Marketplace.Request

open Table ReadCommitted Interleave
open Service hiding query

section
variable [Postgres]

/-! ## refusals, on given contents -/

/-- what the machine decides at each command of a call -/
abbrev Env := Cmd Stmt Empty → Choice Unit

/-- `Create` is refused because of `e`: it is handed `e`, or told to be in `e` already -/
def RefusedBy (d : Db) (customerID : UUID) (inp : CreateInput) (e : PurchaseRequest) : Prop :=
  ∃ (x : Env) (τ : State Unit Db Write Lock Unit),
    Ends spec () x (create customerID inp) ⟨Store.fresh d, ()⟩ (.error (.requestExists e)) τ ∨
    (Ends spec () x (create customerID inp) ⟨Store.fresh d, ()⟩ (.error .alreadyParticipant) τ ∧
      (e ∈ d.requests ∧ requestItemKey e.itemName = requestItemKey inp.itemName ∧
        d.findParticipant e.requestID customerID ≠ none))

/-- errors of the database only -/
def DatabaseOnly {α : Type} (m : Op α) : Prop :=
  m.run.Always fun r => ∀ e, r = .error e → e.isDatabase = true

namespace DatabaseOnly
variable {α β : Type}

theorem pure (a : α) : DatabaseOnly (Pure.pure a : Op α) := nofun

theorem bind {m : Op α} {f : α → Op β} (hm : DatabaseOnly m) (hf : ∀ a, DatabaseOnly (f a)) :
    DatabaseOnly (m >>= f) := by
  refine Prog.Always.bind hm fun r hr => ?_
  cases r with
  | ok a => exact hf a
  | error e =>
    intro e' he
    cases he
    exact hr e rfl

theorem exec (text : String) (q : Stmt) : DatabaseOnly (Request.exec text q) := by
  intro a
  cases a with
  | ok a => nofun
  | error e =>
    intro e' he
    cases he
    rfl

end DatabaseOnly

theorem databaseOnly_openRequest (customerID : UUID) (inp : CreateInput) :
    DatabaseOnly (openRequest customerID inp) := by
  refine .bind (.exec _ _) fun request => .bind (.exec _ _) fun _ => .bind ?_ fun _ =>
    .bind (.exec _ _) fun created => .bind ?_ fun _ => .pure _
  · unfold storeImage
    split
    · exact .pure _
    · exact .bind (.exec _ _) fun _ => .bind (.exec _ _) fun _ => .pure _
  · unfold enqueue
    split
    · exact .pure _
    · exact .exec _ _

/-- what the two reads of a refusal answer -/
theorem find_answer {d : Db} {s t : St Unit} {n : String} {x : Choice Unit}
    {a : Except PgErr PurchaseRequest} (hd : s.view () = d)
    (h : stmt () (.findRequestByItemName n) x s = some (a, t)) :
    t = s ∧ ((∃ pr, d.findByItemName n = some pr ∧ a = .ok pr) ∨
      (d.findByItemName n = none ∧ a = .error .noRows)) := by
  subst hd
  simp only [stmt] at h
  split at h
  · rename_i pr hpr
    cases h
    exact ⟨rfl, .inl ⟨pr, hpr, rfl⟩⟩
  · rename_i hn
    cases h
    exact ⟨rfl, .inr ⟨hn, rfl⟩⟩

theorem getParticipant_answer {d : Db} {s t : St Unit} {r c : UUID} {x : Choice Unit}
    {a : Except PgErr RequestParticipant} (hd : s.view () = d)
    (h : stmt () (.getParticipant r c) x s = some (a, t)) :
    (d.findParticipant r c ≠ none ∧ ∃ rp, a = .ok rp) ∨
      (d.findParticipant r c = none ∧ a = .error .noRows) := by
  subst hd
  simp only [stmt] at h
  split at h
  · rename_i rp hrp
    cases h
    exact .inl ⟨by rw [hrp]; exact Option.some_ne_none _, rp, rfl⟩
  · rename_i hn
    cases h
    exact .inr ⟨hn, rfl⟩

/-- a refusal is the work of the request that is found under the name -/
theorem create_refusal {d : Db} {customerID : UUID} {inp : CreateInput} {x : Env} {e : Err}
    {τ : State Unit Db Write Lock Unit}
    (h : Ends spec () x (create customerID inp) ⟨Store.fresh d, ()⟩ (.error e) τ)
    (he : e.isDatabase = false) :
    ∃ existing, d.findByItemName inp.itemName = some existing ∧
      (e = .requestExists existing ∨
        (e = .alreadyParticipant ∧ d.findParticipant existing.requestID customerID ≠ none)) := by
  rcases Ends.inTx_cases h with ⟨e', hr⟩ | ⟨r', υ, hb, hr⟩
  · cases hr
    cases he
  have hr' : r' = .error e := by
    rcases hr with rfl | ⟨a, e', -, hr⟩
    · rfl
    · cases hr
      cases he
  subst hr'
  rcases Ends.sql_cases hb with ⟨e', hr⟩ | ⟨a, t, hs, hrest⟩
  · cases hr
    cases he
  have hview : t.view () = d := by
    have hs' : stmt () (.lockItemName inp.itemName) (x (.sql (.lockItemName inp.itemName)))
      ((Store.fresh d : St Unit).begin () (x .begin).now) = some (.ok a, t) := hs
    rw [acquire_eq (lockItemName_ok hs')]
    rfl
  obtain ⟨found, σ₁, hx, hrest⟩ := Ends.command_cases hrest
  rcases Ends.exec_sql hx with ⟨rfl, -⟩ | ⟨t', hfind, rfl⟩
  · cases hrest
    cases he
  obtain ⟨rfl, ⟨existing, hpr, rfl⟩ | ⟨-, rfl⟩⟩ := find_answer
    (x := x (.sql (.findRequestByItemName inp.itemName))) hview hfind
  · refine ⟨existing, hpr, ?_⟩
    obtain ⟨rp, σ₂, hx₂, hthrow⟩ := Ends.command_cases hrest
    rcases Ends.exec_sql hx₂ with ⟨rfl, -⟩ | ⟨t₂, hget, rfl⟩
    · cases hthrow
      cases he
    · rcases getParticipant_answer (x := x (.sql (.getParticipant existing.requestID customerID)))
        hview hget with ⟨hp, rp, rfl⟩ | ⟨-, rfl⟩
      · cases hthrow
        exact .inr ⟨rfl, hp⟩
      · cases hthrow
        exact .inl rfl
  · have hdb := (databaseOnly_openRequest customerID inp).alone hrest e rfl
    rw [he] at hdb
    cases hdb

/-- nothing else goes wrong -/
def allWell : Env := fun _ => ⟨.none, 0, 0, 0, ()⟩

/-- what is found under the name refuses -/
theorem create_refuses {d : Db} (customerID : UUID) {inp : CreateInput} {existing : PurchaseRequest}
    (h : d.findByItemName inp.itemName = some existing) :
    ∃ τ, Ends spec () allWell (create customerID inp) ⟨Store.fresh d, ()⟩
      (.error (if d.findParticipant existing.requestID customerID = none
        then .requestExists existing else .alreadyParticipant)) τ := by
  have hlock : ∃ t : St Unit, ((Store.fresh d : St Unit).begin () 0).acquire ()
      (.item (itemLock inp.itemName)) = some t := ⟨_, if_pos (by rfl)⟩
  obtain ⟨t, ht⟩ := hlock
  have hview : t.view () = d := by
    rw [acquire_eq ht]
    rfl
  have hstmt : stmt () (.lockItemName inp.itemName) (allWell (.sql (.lockItemName inp.itemName)))
      ((Store.fresh d : St Unit).begin () 0) = some (.ok (), t) := by
    simp only [stmt, ht]
    rfl
  have hfind : stmt () (.findRequestByItemName inp.itemName)
      (allWell (.sql (.findRequestByItemName inp.itemName))) t = some (.ok existing, t) := by
    simp only [stmt, hview, h]
  refine ⟨_, Ends.inTx_error (τ := ⟨t, ()⟩) rfl
    (.bind (Ends.sql rfl hstmt) (.bind (Ends.query rfl hfind) ?_))⟩
  by_cases hp : d.findParticipant existing.requestID customerID = none
  · have hget : stmt () (.getParticipant existing.requestID customerID)
        (allWell (.sql (.getParticipant existing.requestID customerID))) t =
          some (.error .noRows, t) := by
      simp only [stmt, hview, hp]
      rfl
    rw [if_pos hp]
    exact .bind (Ends.query rfl hget) (Ends.throw _)
  · obtain ⟨rp, hrp⟩ := Option.ne_none_iff_exists'.mp hp
    have hget : stmt () (.getParticipant existing.requestID customerID)
        (allWell (.sql (.getParticipant existing.requestID customerID))) t = some (.ok rp, t) := by
      simp only [stmt, hview, hrp]
    rw [if_neg hp]
    exact .bind (Ends.query rfl hget) (Ends.throw _)

/-- no two rows carry the same key, so a request of the key is the one that is found -/
theorem findByItemName_of_key {d : Db} (hd : OneKey d) {e : PurchaseRequest} {n : String}
    (he : e ∈ d.requests) (hk : requestItemKey e.itemName = requestItemKey n) :
    d.findByItemName n = some e := by
  have hmem : e ∈ d.requests.filter fun pr => requestItemKey pr.itemName == requestItemKey n :=
    List.mem_filter.mpr ⟨he, beq_iff_eq.mpr hk⟩
  cases hf : d.findByItemName n with
  | none =>
    rw [firstBy_none hf] at hmem
    cases hmem
  | some pr =>
    obtain ⟨hpr, hkp⟩ := List.mem_filter.mp (firstBy_mem hf)
    have hnd : (d.requests.map fun pr => requestItemKey pr.itemName).Nodup := by
      have := hd
      rwa [OneKey, Db.itemNames, List.map_map] at this
    exact congrArg some (List.inj_on_of_nodup_map hnd hpr he ((beq_iff_eq.mp hkp).trans hk.symm))

theorem findByItemName_some {d : Db} {e : PurchaseRequest} {n : String}
    (h : d.findByItemName n = some e) :
    e ∈ d.requests ∧ requestItemKey e.itemName = requestItemKey n := by
  obtain ⟨hm, hk⟩ := List.mem_filter.mp (firstBy_mem h)
  exact ⟨hm, beq_iff_eq.mp hk⟩

/-- **who refuses**: the one request with the key of the name -/
theorem refusedBy_iff {d : Db} (hd : OneKey d) {customerID : UUID} {inp : CreateInput}
    {e : PurchaseRequest} : RefusedBy d customerID inp e ↔
      e ∈ d.requests ∧ requestItemKey e.itemName = requestItemKey inp.itemName := by
  constructor
  · rintro ⟨x, τ, h | ⟨-, he, hk, -⟩⟩
    · obtain ⟨existing, hf, he | ⟨he, -⟩⟩ := create_refusal h rfl
      · cases he
        exact findByItemName_some hf
      · cases he
    · exact ⟨he, hk⟩
  · rintro ⟨he, hk⟩
    obtain ⟨τ, hτ⟩ := create_refuses customerID (findByItemName_of_key hd he hk)
    refine ⟨allWell, τ, ?_⟩
    by_cases hp : d.findParticipant e.requestID customerID = none
    · rw [if_pos hp] at hτ
      exact .inl hτ
    · rw [if_neg hp] at hτ
      exact .inr ⟨hτ, he, hk, hp⟩

/-- in every run the committed rows have different keys -/
theorem runs_oneKey {P : Type} [DecidableEq P] {calls : P → Invocation} {σ : Config P}
    (h : Runs spec.machine (start calls Db.empty) σ) : OneKey σ.state.store.committed :=
  (runs_good h).1.keys

end

/-! ## suggestions -/

/-- a row of `FindSimilarRequests` -/
structure SimilarRow where
  request : PurchaseRequest
  score : ℚ
  exact : Bool
  contains : Bool

/-- `ORDER BY exact DESC, contains DESC, score DESC, (pr.status = 'OPEN') DESC, pr.created_at` -/
def SimilarRow.sortKey (r : SimilarRow) : Bool ×ₗ Bool ×ₗ ℚ ×ₗ Bool ×ₗ Time :=
  toLex (!r.exact, toLex (!r.contains, toLex (-r.score,
    toLex (decide (r.request.status ≠ .OPEN), r.request.createdAt))))

/-- the threshold of the operator `%`, and `SuggestSimilarity` -/
def suggestSimilarity : ℚ := 3 / 10

def maxSimilar : Nat := 5

section
variable [Postgres] (similarity : String → String → ℚ)

/-- `array_length(b, 1) >= 2 AND a @> b` -/
def containsWords (a b : List (List Char)) : Bool := 2 ≤ b.length && b.all fun w => a.contains w

def containsEither (n m : String) : Bool :=
  containsWords (requestItemWords n) (requestItemWords m) ||
    containsWords (requestItemWords m) (requestItemWords n)

def SimilarRow.of (itemName : String) (pr : PurchaseRequest) : SimilarRow where
  request := pr
  score := similarity (requestItemKey pr.itemName) (requestItemKey itemName)
  exact := requestItemKey pr.itemName == requestItemKey itemName
  contains := containsEither itemName pr.itemName

/-- the WHERE of `FindSimilarRequests` -/
def isSimilar (itemName : String) (minScore : ℚ) (pr : PurchaseRequest) : Bool :=
  (suggestSimilarity ≤ similarity (requestItemKey pr.itemName) (requestItemKey itemName) &&
    minScore ≤ similarity (requestItemKey pr.itemName) (requestItemKey itemName)) ||
  containsEither itemName pr.itemName

def Db.findSimilar (d : Db) (itemName : String) (minScore : ℚ) (resultLimit : Nat) :
    List SimilarRow :=
  (((d.requests.filter (isSimilar similarity itemName minScore)).map
    (SimilarRow.of similarity itemName)).mergeSort fun a b => a.sortKey ≤ b.sortKey).take resultLimit

/-- `Service.Similar` -/
def Db.similar (d : Db) (itemName : String) (minScore : ℚ) : List SimilarRow :=
  d.findSimilar similarity itemName minScore maxSimilar

/-- `exact DESC` comes first in the order -/
theorem sortKey_exact {a b : SimilarRow} (h : a.sortKey ≤ b.sortKey) (hb : b.exact = true) :
    a.exact = true := by
  have hle : (!a.exact) ≤ (!b.exact) := Prod.Lex.monotone_fst_ofLex h
  rw [hb] at hle
  revert hle
  cases a.exact <;> decide

theorem pairwise_sorted (l : List SimilarRow) :
    (l.mergeSort fun a b => a.sortKey ≤ b.sortKey).Pairwise fun a b => a.sortKey ≤ b.sortKey := by
  have h : (l.mergeSort fun a b => decide (a.sortKey ≤ b.sortKey)).Pairwise
      fun a b => decide (a.sortKey ≤ b.sortKey) = true :=
    List.pairwise_mergeSort
      (fun a b c hab hbc => by
        simp only [decide_eq_true_eq] at hab hbc ⊢
        exact hab.trans hbc)
      (fun a b => by simpa using le_total a.sortKey b.sortKey) l
  simpa using h

variable {similarity}

/-- at most one row has the key -/
theorem countP_key {d : Db} (hd : OneKey d) (n : String) :
    (d.requests.countP fun pr => requestItemKey pr.itemName == requestItemKey n) ≤ 1 := by
  have hnd : (d.requests.map fun pr => requestItemKey pr.itemName).Nodup := by
    have := hd
    rwa [OneKey, Db.itemNames, List.map_map] at this
  have hcount := List.nodup_iff_count_le_one.mp hnd (requestItemKey n)
  rwa [List.count, List.countP_map] at hcount

/-- a request of the same key is suggested, by its score -/
theorem isSimilar_of_key (hsim : ∀ s : String, (∃ c ∈ s.toList, isKeyChar c = true) →
      similarity s s = 1) {n : String} (hn : requestItemKey n ≠ "") {minScore : ℚ}
    (hmin : minScore ≤ 1) {e : PurchaseRequest}
    (hk : requestItemKey e.itemName = requestItemKey n) :
    isSimilar similarity n minScore e = true := by
  have hone : similarity (requestItemKey n) (requestItemKey n) = 1 := hsim _ (key_hasKeyChar hn)
  unfold isSimilar
  rw [hk, hone]
  have hthreshold : suggestSimilarity ≤ 1 := by
    rw [suggestSimilarity]
    norm_num
  simp [hmin, hthreshold]

/-- every suggestion is a row that the filter lets through -/
theorem mem_similar {d : Db} {n : String} {minScore : ℚ} {r : SimilarRow}
    (h : r ∈ d.similar similarity n minScore) :
    ∃ pr ∈ d.requests, isSimilar similarity n minScore pr = true ∧
      SimilarRow.of similarity n pr = r := by
  have hs := List.mem_mergeSort.mp (List.mem_of_mem_take h)
  obtain ⟨pr, hpr, he⟩ := List.mem_map.mp hs
  exact ⟨pr, (List.mem_filter.mp hpr).1, (List.mem_filter.mp hpr).2, he⟩

/-- the request of the key comes first, and nothing else is marked -/
theorem similar_head (hsim : ∀ s : String, (∃ c ∈ s.toList, isKeyChar c = true) →
      similarity s s = 1) {d : Db} (hd : OneKey d) {n : String} (hn : requestItemKey n ≠ "")
    {e : PurchaseRequest} (he : e ∈ d.requests)
    (hk : requestItemKey e.itemName = requestItemKey n) :
    ∃ rest, d.similar similarity n suggestSimilarity = SimilarRow.of similarity n e :: rest ∧
      ∀ r ∈ rest, r.exact = false := by
  have hmin : suggestSimilarity ≤ 1 := by
    rw [suggestSimilarity]
    norm_num
  have hrow : SimilarRow.of similarity n e ∈
      (((d.requests.filter (isSimilar similarity n suggestSimilarity)).map
        (SimilarRow.of similarity n)).mergeSort fun a b => a.sortKey ≤ b.sortKey) :=
    List.mem_mergeSort.mpr (List.mem_map_of_mem
      (List.mem_filter.mpr ⟨he, isSimilar_of_key hsim hn hmin hk⟩))
  have hexact : (SimilarRow.of similarity n e).exact = true := beq_iff_eq.mpr hk
  have hcount : (((d.requests.filter (isSimilar similarity n suggestSimilarity)).map
      (SimilarRow.of similarity n)).mergeSort fun a b => a.sortKey ≤ b.sortKey).countP
        SimilarRow.exact ≤ 1 := by
    rw [(List.mergeSort_perm _ _).countP_eq, List.countP_map, List.countP_filter]
    refine le_trans (List.countP_mono_left fun pr _ hpr => ?_) (countP_key hd n)
    simp only [Bool.and_eq_true] at hpr
    exact hpr.1
  have hsorted := pairwise_sorted ((d.requests.filter
    (isSimilar similarity n suggestSimilarity)).map (SimilarRow.of similarity n))
  unfold Db.similar Db.findSimilar
  generalize ((d.requests.filter (isSimilar similarity n suggestSimilarity)).map
      (SimilarRow.of similarity n)).mergeSort (fun a b => a.sortKey ≤ b.sortKey) = l
    at hrow hcount hsorted ⊢
  cases l with
  | nil => cases hrow
  | cons r l =>
    have hr : r.exact = true := by
      rcases List.mem_cons.mp hrow with rfl | hm
      · exact hexact
      · exact sortKey_exact ((List.pairwise_cons.mp hsorted).1 _ hm) hexact
    have hrest : ∀ r' ∈ l, r'.exact = false := by
      rw [List.countP_cons_of_pos hr] at hcount
      have hzero : l.countP SimilarRow.exact = 0 := by omega
      intro r' hr'
      simpa using List.countP_eq_zero.mp hzero r' hr'
    have hfirst : r = SimilarRow.of similarity n e := by
      rcases List.mem_cons.mp hrow with he | hm
      · exact he.symm
      · rw [hrest _ hm] at hexact
        cases hexact
    refine ⟨l.take 4, by rw [hfirst]; rfl, fun r' hr' => hrest r' (List.mem_of_mem_take hr')⟩

/-- **The suggestions agree with the refusal.**  In every run from empty tables, for every name
whose key is not empty: `Create` is refused because of `e` exactly if `e` is suggested and marked
exact; it is then the first suggestion and the only one that is marked. -/
theorem suggestions_agree (hsim : ∀ s : String, (∃ c ∈ s.toList, isKeyChar c = true) →
      similarity s s = 1) {P : Type} [DecidableEq P] (calls : P → Invocation) {σ : Config P}
    (h : Runs spec.machine (start calls Db.empty) σ) {n : String} (hn : requestItemKey n ≠ "")
    (e : PurchaseRequest) :
    (∀ customerID inp, inp.itemName = n →
      (RefusedBy σ.state.store.committed customerID inp e ↔
        ∃ r ∈ σ.state.store.committed.similar similarity n suggestSimilarity,
          r.request = e ∧ r.exact = true)) ∧
    ∀ r ∈ σ.state.store.committed.similar similarity n suggestSimilarity,
      r.request = e → r.exact = true →
      ∃ rest, σ.state.store.committed.similar similarity n suggestSimilarity = r :: rest ∧
        ∀ r' ∈ rest, r'.exact = false := by
  have hd := runs_oneKey h
  generalize σ.state.store.committed = d at hd
  have hmarked : ∀ r ∈ d.similar similarity n suggestSimilarity, r.request = e →
      r.exact = true → e ∈ d.requests ∧ requestItemKey e.itemName = requestItemKey n := by
    rintro r hr rfl hx
    obtain ⟨pr, hpr, -, rfl⟩ := mem_similar hr
    exact ⟨hpr, beq_iff_eq.mp hx⟩
  constructor
  · rintro customerID inp rfl
    rw [refusedBy_iff hd]
    constructor
    · rintro ⟨he, hk⟩
      obtain ⟨rest, hs, -⟩ := similar_head hsim hd hn he hk
      refine ⟨SimilarRow.of similarity inp.itemName e, ?_, rfl, beq_iff_eq.mpr hk⟩
      rw [hs]
      exact List.mem_cons_self
    · rintro ⟨r, hr, hre, hx⟩
      exact hmarked r hr hre hx
  · intro r hr hre hx
    obtain ⟨he, hk⟩ := hmarked r hr hre hx
    obtain ⟨rest, hs, hrest⟩ := similar_head hsim hd hn he hk
    refine ⟨rest, ?_, hrest⟩
    rw [hs] at hr ⊢
    rcases List.mem_cons.mp hr with rfl | hm
    · rfl
    · rw [hrest r hm] at hx
      cases hx

end

/-- the stretches of three characters -/
def triples : List Char → List (List Char)
  | a :: b :: c :: t => [a, b, c] :: triples (b :: c :: t)
  | _ => []

/-- the trigrams of a key: those of its words, each padded by two blanks before and one after -/
def trigrams (s : String) : List (List Char) :=
  (Text.words space s.toList).flatMap fun w => triples (' ' :: ' ' :: (w ++ [' ']))

/-- the share of the trigrams that two keys have in common -/
def trigramSimilarity (s t : String) : ℚ :=
  let x := (trigrams s).dedup
  let y := (trigrams t).dedup
  let common := (x.filter y.contains).length
  (common : ℚ) / ((x.length + y.length - common : ℕ) : ℚ)

theorem trigramSimilarity_self (s : String) (h : ∃ c ∈ s.toList, isKeyChar c = true) :
    trigramSimilarity s s = 1 := by
  obtain ⟨c, hc, hk⟩ := h
  have hne : Text.words space s.toList ≠ [] := by
    intro e
    have hs := Text.words_eq_nil.mp e c hc
    rw [space_of_key (by simp [keySeparator, hk])] at hs
    cases hs
  have hpos : 0 < (trigrams s).dedup.length := by
    obtain ⟨w, ws, hw⟩ := List.exists_cons_of_ne_nil hne
    obtain ⟨d, t, rfl⟩ := List.exists_cons_of_ne_nil
      (Text.areWords_words s.toList w (hw ▸ List.mem_cons_self)).1
    have hmem : [' ', ' ', d] ∈ trigrams s := by
      rw [trigrams, hw]
      exact List.mem_flatMap.mpr ⟨_, List.mem_cons_self, List.mem_cons_self⟩
    exact List.length_pos_of_mem (List.mem_dedup.mpr hmem)
  have hcommon : (trigrams s).dedup.filter (trigrams s).dedup.contains = (trigrams s).dedup :=
    List.filter_eq_self.mpr fun t ht => by simpa using ht
  show ((_ : ℕ) : ℚ) / _ = 1
  rw [hcommon, Nat.add_sub_cancel]
  exact div_self (by exact_mod_cast hpos.ne')

/-- a customer who is refused, and the suggestion for the same name -/
theorem suggestions_agree_buyers : letI := asciiPostgres
    ∃ σ r rest, Runs spec.machine (start buyers Db.empty) σ ∧ r.request.itemName = "TV set" ∧
      RefusedBy σ.state.store.committed 9 (television "tv-SET (new)") r.request ∧
      σ.state.store.committed.similar trigramSimilarity "tv-SET (new)" suggestSimilarity =
        r :: rest ∧ r.exact = true := by
  let : Postgres := asciiPostgres
  obtain ⟨σ, hr, hσ⟩ := Runs.exists_of_run (M := spec.machine) (σ := start buyers Db.empty)
    buyersSchedule (f := fun σ => σ.state.store.committed.requests.map (·.itemName))
    (b := ["TV set"]) (by decide +kernel)
  obtain ⟨e, he, hn⟩ : ∃ e ∈ σ.state.store.committed.requests, e.itemName = "TV set" :=
    List.mem_map.mp (hσ ▸ List.mem_singleton_self _)
  have hk : requestItemKey e.itemName = requestItemKey "tv-SET (new)" := by
    rw [hn]
    decide
  have hrefused : RefusedBy σ.state.store.committed 9 (television "tv-SET (new)") e :=
    (refusedBy_iff (runs_oneKey hr)).mpr ⟨he, hk⟩
  obtain ⟨hiff, hfirst⟩ := suggestions_agree trigramSimilarity_self buyers hr
    (n := "tv-SET (new)") (by decide) e
  obtain ⟨r, hm, rfl, hx⟩ := (hiff 9 (television "tv-SET (new)") rfl).mp hrefused
  obtain ⟨rest, hs, -⟩ := hfirst r hm rfl hx
  exact ⟨σ, r, rest, hr, hn, hrefused, hs, hx⟩

/-! ## search -/

def Status.text : Status → String
  | .OPEN => "OPEN"
  | .INACTIVE => "INACTIVE"

structure ListFilter where
  itemName : String
  category : String
  status : String
  limit : Nat
  offset : Nat

/-- an empty filter value is no filter -/
def optionalText (v : String) : Option String := if v = "" then none else some v

section
variable [Postgres]

/-- `t ILIKE p`: both sides are put in lower case first -/
def ilike (p t : List Char) : Bool := Sql.like (p.map Postgres.lower) (t.map Postgres.lower)

/-- the WHERE of `ListRequests` -/
def ListFilter.admits (f : ListFilter) (pr : PurchaseRequest) : Bool :=
  ((optionalText f.itemName).all fun n => ilike ('%' :: (n.toList ++ ['%'])) pr.itemName.toList) &&
  ((optionalText f.category).all fun c => pr.category == c) &&
  ((optionalText f.status).all fun s => pr.status.text == s)

/-- `ORDER BY created_at DESC LIMIT @result_limit OFFSET @result_offset` -/
def Db.listRequests (d : Db) (f : ListFilter) : List PurchaseRequest :=
  (((d.requests.filter f.admits).mergeSort fun a b => b.createdAt ≤ a.createdAt).drop
    f.offset).take f.limit

/-- what the browse page asks for while something is typed: a first page, whatever the status -/
def searchFor (n : String) (limit : Nat) : ListFilter := ⟨n, "", "", limit, 0⟩

/-- `m` contains `n` as it stands but for its case, with `%`, `_` and the backslash of `n` read as
a pattern -/
def Contains (n m : String) : Prop :=
  Sql.like ('%' :: (n.toList.map Postgres.lower ++ ['%'])) (m.toList.map Postgres.lower) = true

/-- a name without pattern characters is looked for as it stands -/
theorem contains_iff {n m : String} (h : ∀ c ∈ n.toList, Sql.literal (Postgres.lower c) = true) :
    Contains n m ↔ n.toList.map Postgres.lower <:+: m.toList.map Postgres.lower := by
  refine Sql.like_infix fun c hc => ?_
  obtain ⟨d, hd, rfl⟩ := List.mem_map.mp hc
  exact h d hd

theorem lower_percent : Postgres.lower '%' = '%' := lower_of_toNat (by decide) (by decide)

theorem searchFor_admits {n : String} {limit : Nat} {pr : PurchaseRequest} :
    (searchFor n limit).admits pr = true ↔ Contains n pr.itemName := by
  have hfilter : (searchFor n limit).admits pr =
      (optionalText n).all fun n => ilike ('%' :: (n.toList ++ ['%'])) pr.itemName.toList := by
    show ((_ && true) && true) = _
    rw [Bool.and_true, Bool.and_true]
    rfl
  have hpattern : ilike ('%' :: (n.toList ++ ['%'])) pr.itemName.toList =
      Sql.like ('%' :: (n.toList.map Postgres.lower ++ ['%']))
        (pr.itemName.toList.map Postgres.lower) := by
    simp [ilike, lower_percent]
  rw [hfilter, optionalText]
  split
  · rename_i hn
    subst hn
    exact iff_of_true rfl (Sql.like_percent.mpr ⟨[], _, rfl, Sql.like_all _⟩)
  · rw [Option.all_some, hpattern, Contains]

/-- a page that holds all matches leaves none out -/
theorem mem_search {d : Db} {n : String} {limit : Nat} {e : PurchaseRequest}
    (hl : (d.requests.filter (searchFor n limit).admits).length ≤ limit) :
    e ∈ d.listRequests (searchFor n limit) ↔ e ∈ d.requests ∧ Contains n e.itemName := by
  have hall : ((d.requests.filter (searchFor n limit).admits).mergeSort
      fun a b => b.createdAt ≤ a.createdAt).length ≤ limit := by
    rwa [List.length_mergeSort]
  show e ∈ List.take limit (List.mergeSort _ _) ↔ _
  rw [List.take_of_length_le hall, List.mem_mergeSort, List.mem_filter, searchFor_admits]

/-- **Who is refused and what is shown.**  In every run from empty tables: when `Create` is refused
because of `e` and all matches of the name fit on the page, the search for the name shows `e`
exactly if the name of `e` contains what was typed. -/
theorem search_shows_iff {P : Type} [DecidableEq P] (calls : P → Invocation) {σ : Config P}
    (h : Runs spec.machine (start calls Db.empty) σ) {customerID : UUID} {inp : CreateInput}
    {e : PurchaseRequest} (hr : RefusedBy σ.state.store.committed customerID inp e) {limit : Nat}
    (hl : (σ.state.store.committed.requests.filter
      (searchFor inp.itemName limit).admits).length ≤ limit) :
    (e ∈ σ.state.store.committed.listRequests (searchFor inp.itemName limit) ↔
      Contains inp.itemName e.itemName) ∧
    ((∀ c ∈ inp.itemName.toList, Sql.literal (Postgres.lower c) = true) →
      (Contains inp.itemName e.itemName ↔
        inp.itemName.toList.map Postgres.lower <:+: e.itemName.toList.map Postgres.lower)) := by
  obtain ⟨he, -⟩ := (refusedBy_iff (runs_oneKey h)).mp hr
  refine ⟨?_, contains_iff⟩
  rw [mem_search hl]
  exact and_iff_right he

end

/-- a second customer asks for what the first one has asked for, in three spellings -/
def drinkers : Fin 3 → Invocation
  | 0 => .create 7 (television "Espresso Machine")
  | 1 => .create 9 (television "Espresso-Machine")
  | 2 => .create 9 (television "espresso machine")

def drinkersSchedule : List (Act (Fin 3) (Choice Unit)) :=
  [move 0 0 0, move 0 0 0, move 0 0 0, move 0 50 0, move 0 60 0, move 0 0 0, move 0 90 91,
    move 0 0 0, move 1 0 0, move 1 0 0, move 1 0 0, move 1 0 0, move 1 0 0]

/-- the request of the first one -/
def espressoMachine : PurchaseRequest :=
  { PurchaseRequest.new 50 "Espresso Machine" "" "home" (some 7) 1 with
    totalCustomers := 1, totalQuantity := 2 }

theorem search_shows_iff_drinkers : letI := asciiPostgres
    ∃ σ, Runs spec.machine (start drinkers Db.empty) σ ∧
      RefusedBy σ.state.store.committed 9 (television "espresso machine") espressoMachine ∧
      espressoMachine ∈ σ.state.store.committed.listRequests (searchFor "espresso machine" 20) := by
  let : Postgres := asciiPostgres
  obtain ⟨σ, hr, hσ⟩ := Runs.exists_of_run (M := spec.machine) (σ := start drinkers Db.empty)
    drinkersSchedule (f := fun σ => σ.state.store.committed.requests) (b := [espressoMachine])
    (by decide +kernel)
  have hrefused : RefusedBy σ.state.store.committed 9 (television "espresso machine")
      espressoMachine :=
    (refusedBy_iff (runs_oneKey hr)).mpr ⟨by rw [hσ]; exact List.mem_cons_self, by decide⟩
  have hpage : (σ.state.store.committed.requests.filter
      (searchFor "espresso machine" 20).admits).length ≤ 20 := by
    rw [hσ]
    decide
  obtain ⟨hshown, -⟩ := search_shows_iff drinkers hr hrefused hpage
  exact ⟨σ, hr, hrefused, hshown.mpr (by unfold Contains; decide)⟩

/-- the hyphen finds nothing, and is refused -/
theorem refused_unseen : letI := asciiPostgres
    ∃ σ, Runs spec.machine (start drinkers Db.empty) σ ∧
      refusedWith σ 1 = some (.requestExists espressoMachine) ∧
      RefusedBy σ.state.store.committed 9 (television "Espresso-Machine") espressoMachine ∧
      σ.state.store.committed.listRequests (searchFor "Espresso-Machine" 20) = [] := by
  let : Postgres := asciiPostgres
  obtain ⟨σ, hr, hσ⟩ := Runs.exists_of_run (M := spec.machine) (σ := start drinkers Db.empty)
    drinkersSchedule (f := fun σ => (σ.state.store.committed.requests, refusedWith σ 1))
    (b := ([espressoMachine], some (.requestExists espressoMachine)))
    (by decide +kernel)
  obtain ⟨hrows, hrefused⟩ := Prod.mk.inj hσ
  have hempty : σ.state.store.committed.requests.filter
      (searchFor "Espresso-Machine" 20).admits = [] := by
    rw [hrows]
    decide
  refine ⟨σ, hr, hrefused, (refusedBy_iff (runs_oneKey hr)).mpr ⟨?_, by decide⟩, ?_⟩
  · rw [hrows]
    exact List.mem_cons_self
  · rw [Db.listRequests, hempty, List.mergeSort_nil, List.drop_nil, List.take_nil]

end Marketplace.Request
