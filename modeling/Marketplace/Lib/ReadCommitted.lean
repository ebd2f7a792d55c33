import Mathlib.Logic.Function.Basic
import Mathlib.Data.List.Basic

/-!
# A database at isolation level READ COMMITTED

Every statement of a transaction reads the committed contents as they are now, with the
transaction's own writes on top (`Store.view`); locks are held to the end of the transaction.

* `Schema Db W L`    contents `Db`, row writes `W`, locks `L`.  `takes w` are the locks the database
                     itself takes for the write `w`, `guards w` those its writer is meant to
                     hold; `same l` says that two contents agree on the part under the lock `l`,
                     and a write leaves every part alone that it is not guarded by;
* `Store`            the committed contents, the uncommitted writes and the clock of every open
                     transaction, the owner of every lock, and the log of all commits;
* `begin`, `acquire`, `put`, `commit`, `rollback`   the moves of a transaction;
* `WellLocked`       every uncommitted write is guarded by locks of its writer (a discipline of
                     the programs: `put` takes only the locks in `takes`);
* `Quiet p`          a move of `p` that commits nothing;
* `Chained d`        the log leads from the contents `d` to the committed ones, commit by commit;
* `Seen q`           what `q` sees of the moves of the others: its own writes, locks and clock
                     stay, and so does the part of the contents under each of its locks
                     (`seen_quiet`, `seen_commit`).
-/

set_option linter.unusedSectionVars false

namespace ReadCommitted

class Schema (Db W : Type) (L : outParam Type) where
  apply : W → Db → Db
  takes : W → List L
  guards : W → List L
  same : L → Db → Db → Prop
  same_refl : ∀ l d, same l d d
  same_trans : ∀ {l a b c}, same l a b → same l b c → same l a c
  same_apply : ∀ {l w} d, l ∉ guards w → same l d (apply w d)
  same_congr : ∀ {l d e} w, same l d e → same l (apply w d) (apply w e)

open Schema

/-- one committed transaction -/
structure Commit (P Db : Type) where
  tx : P
  before : Db
  after : Db

structure Store (P Db W L : Type) where
  committed : Db
  pending : P → List W
  locks : L → Option P
  now : P → Nat
  log : List (Commit P Db)

/-- no transaction is open and none has committed -/
def Store.fresh {P Db W L : Type} (d : Db) : Store P Db W L where
  committed := d
  pending _ := []
  locks _ := none
  now _ := 0
  log := []

section
variable {P Db W L : Type} [DecidableEq P] [DecidableEq L] [Schema Db W L]

def applyAll (ws : List W) (d : Db) : Db := ws.foldl (fun d w => apply w d) d

theorem applyAll_nil (d : Db) : applyAll ([] : List W) d = d := rfl
theorem applyAll_cons (w : W) (ws : List W) (d : Db) :
    applyAll (w :: ws) d = applyAll ws (apply w d) := rfl
theorem applyAll_append (ws vs : List W) (d : Db) :
    applyAll (ws ++ vs) d = applyAll vs (applyAll ws d) := by
  simp [applyAll, List.foldl_append]

/-- what is closed under every single write is closed under a list of them -/
theorem applyAll_rel (R : Db → Db → Prop) (hr : ∀ d, R d d) (ht : ∀ a b c, R a b → R b c → R a c)
    (ws : List W) (h : ∀ w ∈ ws, ∀ d, R d (apply w d)) (d : Db) : R d (applyAll ws d) := by
  induction ws generalizing d with
  | nil => exact hr d
  | cons w ws ih =>
    rw [applyAll_cons]
    exact ht _ _ _ (h w List.mem_cons_self d) (ih (fun v hv => h v (List.mem_cons_of_mem _ hv)) _)

/-- a table that every write leaves alone or adds one row to -/
theorem applyAll_inserts {β : Type} (rows : Db → List β) (ins : W → Option β)
    (h : ∀ w d, rows (apply w d) = rows d ++ (ins w).toList) (ws : List W) (d : Db) :
    rows (applyAll ws d) = rows d ++ ws.filterMap ins := by
  induction ws generalizing d with
  | nil => exact (List.append_nil _).symm
  | cons w ws ih =>
    rw [applyAll_cons, ih, h, List.append_assoc]
    cases hw : ins w with
    | none => simp [hw]
    | some row => simp [hw]

theorem same_applyAll {l : L} (ws : List W) (h : ∀ w ∈ ws, l ∉ guards Db w) (d : Db) :
    same W l d (applyAll ws d) :=
  applyAll_rel (same W l) (same_refl l) (fun _ _ _ => same_trans) ws
    (fun w hw d => same_apply d (h w hw)) d

theorem same_applyAll_congr {l : L} (ws : List W) {d e : Db} (h : same W l d e) :
    same W l (applyAll ws d) (applyAll ws e) := by
  induction ws generalizing d e with
  | nil => exact h
  | cons w ws ih => exact ih (same_congr w h)

/-! ## the moves of a transaction -/

namespace Store

/-- the contents as the transaction of `p` reads them -/
def view (s : Store P Db W L) (p : P) : Db := applyAll (s.pending p) s.committed

/-- `p` may take the lock: nobody else holds it -/
def free (s : Store P Db W L) (p : P) (l : L) : Bool := s.locks l = none || s.locks l = some p

def begin (s : Store P Db W L) (p : P) (t : Nat) : Store P Db W L :=
  { s with now := Function.update s.now p t }

/-- take a lock; `none` while somebody else holds it -/
def acquire (s : Store P Db W L) (p : P) (l : L) : Option (Store P Db W L) :=
  if s.free p l then some { s with locks := Function.update s.locks l (some p) } else none

/-- write a row; `none` while somebody else holds one of the locks this takes -/
def put (s : Store P Db W L) (p : P) (w : W) : Option (Store P Db W L) :=
  if (takes Db w).all (s.free p) then
    some { s with
      pending := Function.update s.pending p (s.pending p ++ [w])
      locks := fun l => if l ∈ takes Db w then some p else s.locks l }
  else none

/-- the locks once `p` has given up its own -/
def released (s : Store P Db W L) (p : P) : L → Option P :=
  fun l => if s.locks l = some p then none else s.locks l

def rollback (s : Store P Db W L) (p : P) : Store P Db W L :=
  { s with pending := Function.update s.pending p [], locks := s.released p }

/-- the commits of one process, newest first -/
def commitsOf (s : Store P Db W L) (p : P) : List (Commit P Db) := s.log.filter (·.tx = p)

def commit (s : Store P Db W L) (p : P) : Store P Db W L where
  committed := s.view p
  pending := Function.update s.pending p []
  locks := s.released p
  now := s.now
  log := ⟨p, s.committed, s.view p⟩ :: s.log

end Store

open Store

/-! ## what a move leaves alone -/

/-- every uncommitted write is guarded by locks of its writer -/
def WellLocked (s : Store P Db W L) : Prop :=
  ∀ p, ∀ w ∈ s.pending p, ∀ l ∈ guards Db w, s.locks l = some p

/-- a move of `p` that commits nothing -/
structure Quiet (p : P) (s t : Store P Db W L) : Prop where
  committed : t.committed = s.committed
  log : t.log = s.log
  others : ∀ q, q ≠ p → t.pending q = s.pending q ∧ t.now q = s.now q
  locks : ∀ q, q ≠ p → ∀ l, t.locks l = some q ↔ s.locks l = some q

/-- what `q` sees of the moves of the others -/
structure Seen (q : P) (s t : Store P Db W L) : Prop where
  pending : t.pending q = s.pending q
  now : t.now q = s.now q
  locks : ∀ l, t.locks l = some q ↔ s.locks l = some q
  same : ∀ l, s.locks l = some q → same W l s.committed t.committed
  log : ∃ new, t.log = new ++ s.log ∧ ∀ c ∈ new, c.tx ≠ q

theorem free_ne {s : Store P Db W L} {p q : P} {l : L} (h : s.free p l = true) (hq : q ≠ p) :
    s.locks l ≠ some q := by
  intro e
  rw [free, e] at h
  simp only [reduceCtorEq, decide_false, Bool.false_or, decide_eq_true_eq, Option.some.injEq] at h
  exact hq h

namespace Quiet
variable {p : P} {s t u : Store P Db W L}

theorem refl (p : P) (s : Store P Db W L) : Quiet p s s :=
  ⟨rfl, rfl, fun _ _ => ⟨rfl, rfl⟩, fun _ _ _ => Iff.rfl⟩

theorem begin (p : P) (t : Nat) (s : Store P Db W L) : Quiet p s (s.begin p t) where
  committed := rfl
  log := rfl
  others _ hq := ⟨rfl, Function.update_of_ne hq _ _⟩
  locks _ _ _ := Iff.rfl

theorem acquire {l : L} (h : s.acquire p l = some t) : Quiet p s t := by
  unfold Store.acquire at h
  split at h
  · rename_i hf
    cases h
    refine ⟨rfl, rfl, fun _ _ => ⟨rfl, rfl⟩, fun q hq l' => ?_⟩
    by_cases e : l' = l
    · subst e
      simp only [Function.update_self, Option.some.injEq]
      exact ⟨fun e => absurd e.symm hq, fun e => absurd e (free_ne hf hq)⟩
    · simp only [Function.update_of_ne e]
  · cases h

theorem put {w : W} (h : s.put p w = some t) : Quiet p s t := by
  unfold Store.put at h
  split at h
  · rename_i hf
    cases h
    refine ⟨rfl, rfl, fun q hq => ⟨Function.update_of_ne hq _ _, rfl⟩, fun q hq l => ?_⟩
    by_cases e : l ∈ takes Db w
    · simp only [if_pos e, Option.some.injEq]
      exact ⟨fun e => absurd e.symm hq,
        fun e' => absurd e' (free_ne (List.all_eq_true.mp hf l e) hq)⟩
    · simp only [if_neg e]
  · cases h

theorem released_iff {q : P} (hq : q ≠ p) (l : L) :
    s.released p l = some q ↔ s.locks l = some q := by
  unfold Store.released
  split
  · rename_i e
    rw [e]
    simp only [reduceCtorEq, Option.some.injEq, false_iff]
    exact fun e => hq e.symm
  · exact Iff.rfl

theorem rollback (p : P) (s : Store P Db W L) : Quiet p s (s.rollback p) where
  committed := rfl
  log := rfl
  others _ hq := ⟨Function.update_of_ne hq _ _, rfl⟩
  locks _ hq l := released_iff hq l

/-- a quiet move of `p` leaves alone what any other process sees -/
theorem seen {q : P} (h : Quiet p s t) (hq : q ≠ p) : Seen q s t where
  pending := (h.others q hq).1
  now := (h.others q hq).2
  locks := h.locks q hq
  same l _ := by rw [h.committed]; exact same_refl l _
  log := ⟨[], by rw [h.log]; rfl, by simp⟩

/-- it keeps the discipline if `p` does -/
theorem wellLocked (h : Quiet p s t) (hw : WellLocked s)
    (own : ∀ w ∈ t.pending p, ∀ l ∈ guards Db w, t.locks l = some p) : WellLocked t := by
  intro q w hm l hl
  by_cases e : q = p
  · subst e; exact own w hm l hl
  · rw [(h.others q e).1] at hm
    exact (h.locks q e l).mpr (hw q w hm l hl)

end Quiet

theorem wellLocked_begin {s : Store P Db W L} (hw : WellLocked s) (p : P) (n : Nat) :
    WellLocked (s.begin p n) := hw

theorem wellLocked_acquire {s t : Store P Db W L} {p : P} {l : L} (hw : WellLocked s)
    (h : s.acquire p l = some t) : WellLocked t := by
  refine (Quiet.acquire h).wellLocked hw (fun w hm l' hl => ?_)
  unfold Store.acquire at h
  split at h
  · cases h
    by_cases e : l' = l
    · subst e; exact Function.update_self ..
    · exact (Function.update_of_ne e _ _).trans (hw p w hm l' hl)
  · cases h

/-- a write keeps the discipline if its writer holds the guards that the database does not take -/
theorem wellLocked_put {s t : Store P Db W L} {p : P} {w : W} (hw : WellLocked s)
    (h : s.put p w = some t) (hg : ∀ l ∈ guards Db w, l ∈ takes Db w ∨ s.locks l = some p) :
    WellLocked t := by
  refine (Quiet.put h).wellLocked hw (fun v hm l hl => ?_)
  unfold Store.put at h
  split at h
  · cases h
    show (if l ∈ takes Db w then some p else s.locks l) = some p
    split
    · rfl
    · rename_i e
      simp only [Function.update_self, List.mem_append, List.mem_singleton] at hm
      rcases hm with hm | rfl
      · exact hw p v hm l hl
      · exact (hg l hl).resolve_left e
  · cases h

theorem wellLocked_rollback {s : Store P Db W L} (hw : WellLocked s) (p : P) :
    WellLocked (s.rollback p) := by
  refine (Quiet.rollback p s).wellLocked hw (fun w hm => ?_)
  simp only [Store.rollback, Function.update_self] at hm
  exact absurd hm List.not_mem_nil

theorem wellLocked_commit {s : Store P Db W L} (p : P) (h : WellLocked s) :
    WellLocked (s.commit p) := by
  intro q w hm l hl
  by_cases e : q = p
  · subst e
    simp only [Store.commit, Function.update_self] at hm
    exact absurd hm List.not_mem_nil
  · simp only [Store.commit, Function.update_of_ne e] at hm
    exact (Quiet.released_iff e l).mpr (h q w hm l hl)

/-- a commit of `p` leaves alone the part under any lock of somebody else -/
theorem same_view {s : Store P Db W L} (hw : WellLocked s) {p q : P} (hq : q ≠ p) {l : L}
    (hl : s.locks l = some q) : same W l s.committed (s.view p) := by
  refine same_applyAll _ (fun w hm hg => hq ?_) _
  exact Option.some.inj (hl.symm.trans (hw p w hm l hg))

theorem seen_commit {s : Store P Db W L} (hw : WellLocked s) {p q : P} (hq : q ≠ p) :
    Seen q s (s.commit p) where
  pending := Function.update_of_ne hq _ _
  now := rfl
  locks l := Quiet.released_iff hq l
  same _ hl := same_view hw hq hl
  log := ⟨[_], rfl, by simpa using fun e => hq e.symm⟩

namespace Seen
variable {q : P} {s t u : Store P Db W L}

theorem refl (q : P) (s : Store P Db W L) : Seen q s s :=
  ⟨rfl, rfl, fun _ => Iff.rfl, fun l _ => same_refl l _, [], rfl, by simp⟩

theorem trans (h : Seen q s t) (h' : Seen q t u) : Seen q s u where
  pending := h'.pending.trans h.pending
  now := h'.now.trans h.now
  locks l := (h'.locks l).trans (h.locks l)
  same l hl := same_trans (h.same l hl) (h'.same l ((h.locks l).mpr hl))
  log := by
    obtain ⟨n, hn, hp⟩ := h.log
    obtain ⟨n', hn', hp'⟩ := h'.log
    refine ⟨n' ++ n, by rw [hn', hn, List.append_assoc], fun c hc => ?_⟩
    rcases List.mem_append.mp hc with hc | hc
    · exact hp' c hc
    · exact hp c hc

/-- the part of its own view under a lock it holds stays as it is -/
theorem view (h : Seen q s t) {l : L} (hl : s.locks l = some q) :
    Schema.same W l (s.view q) (t.view q) := by
  unfold Store.view
  rw [h.pending]
  exact same_applyAll_congr _ (h.same l hl)

theorem mem_log (h : Seen q s t) {c : Commit P Db} (hc : c ∈ s.log) : c ∈ t.log := by
  obtain ⟨n, hn, -⟩ := h.log
  rw [hn]
  exact List.mem_append_right _ hc

/-- the commits of `q` are its own work -/
theorem commitsOf (h : Seen q s t) : t.commitsOf q = s.commitsOf q := by
  obtain ⟨n, hn, hp⟩ := h.log
  have hf : n.filter (·.tx = q) = [] := by simpa [List.filter_eq_nil_iff] using hp
  simp only [Store.commitsOf]
  rw [hn, List.filter_append, hf, List.nil_append]

end Seen

/-! ## the log -/

/-- the log leads from `d` to the contents `e`, commit by commit (newest first) -/
def Chained (d : Db) : List (Commit P Db) → Db → Prop
  | [], e => e = d
  | c :: cs, e => e = c.after ∧ Chained d cs c.before

theorem chained_fresh (d : Db) :
    Chained d (Store.fresh (P := P) (W := W) (L := L) d).log d := rfl

theorem Chained.commit {d : Db} {s : Store P Db W L} (h : Chained d s.log s.committed) (p : P) :
    Chained d (s.commit p).log (s.commit p).committed := ⟨rfl, h⟩

/-- the committed contents are the initial ones or those of some commit -/
theorem Chained.cases {d e : Db} {log : List (Commit P Db)} (h : Chained d log e) :
    e = d ∨ ∃ c ∈ log, c.after = e := by
  cases log with
  | nil => exact Or.inl h
  | cons c cs => exact Or.inr ⟨c, List.mem_cons_self, h.1.symm⟩

/-- the log ends in one contents only -/
theorem Chained.unique {d e e' : Db} {log : List (Commit P Db)} (h : Chained d log e)
    (h' : Chained d log e') : e = e' := by
  cases log with
  | nil => exact Eq.trans h (Eq.symm h')
  | cons c cs => exact h.1.trans h'.1.symm

/-- what every later commit keeps relates the contents then and now -/
theorem Chained.between {R : Db → Db → Prop} (hr : ∀ d, R d d)
    (ht : ∀ a b c, R a b → R b c → R a c) {d₀ d e : Db} {log new : List (Commit P Db)}
    (h : Chained d₀ log d) (h' : Chained d₀ (new ++ log) e)
    (hR : ∀ c ∈ new, R c.before c.after) : R d e := by
  induction new generalizing e with
  | nil =>
    obtain rfl : d = e := h.unique h'
    exact hr d
  | cons c new ih =>
    obtain ⟨rfl, hrest⟩ := h'
    have hd : R d c.before := ih hrest fun c' hc' => hR c' (List.mem_cons_of_mem _ hc')
    exact ht _ _ _ hd (hR c List.mem_cons_self)

/-- what holds now and did not hold then was brought about by one of the later commits -/
theorem Chained.brought {F : Db → Prop} {d₀ d e : Db} {log new : List (Commit P Db)}
    (h : Chained d₀ log d) (h' : Chained d₀ (new ++ log) e) (hd : ¬F d) (he : F e) :
    ∃ c ∈ new, ¬F c.before ∧ F c.after := by
  induction new generalizing e with
  | nil =>
    obtain rfl : d = e := h.unique h'
    exact absurd he hd
  | cons c new ih =>
    obtain ⟨rfl, hrest⟩ := h'
    by_cases hb : F c.before
    · obtain ⟨c', hc', hF⟩ := ih hrest hb
      exact ⟨c', List.mem_cons_of_mem _ hc', hF⟩
    · exact ⟨c, List.mem_cons_self, hb, he⟩

/-- what every commit keeps holds of every contents in the log -/
theorem Chained.invariant {F : Db → Prop} {d₀ d : Db} {log : List (Commit P Db)}
    (h : Chained d₀ log d) (h₀ : F d₀) (hF : ∀ c ∈ log, F c.before → F c.after) :
    F d ∧ ∀ c ∈ log, F c.before ∧ F c.after := by
  induction log generalizing d with
  | nil =>
    obtain rfl : d = d₀ := h
    exact ⟨h₀, fun c hc => absurd hc List.not_mem_nil⟩
  | cons c log ih =>
    obtain ⟨rfl, hrest⟩ := h
    obtain ⟨hb, hlog⟩ := ih hrest fun c' hc' => hF c' (List.mem_cons_of_mem _ hc')
    have ha := hF c List.mem_cons_self hb
    refine ⟨ha, fun c' hc' => ?_⟩
    rcases List.mem_cons.mp hc' with rfl | hc'
    · exact ⟨hb, ha⟩
    · exact hlog c' hc'

/-- what every commit keeps relates the contents after any of them and now -/
theorem Chained.since {R : Db → Db → Prop} (hr : ∀ d, R d d)
    (ht : ∀ a b c, R a b → R b c → R a c) {d₀ d : Db} {log : List (Commit P Db)}
    (h : Chained d₀ log d) (hR : ∀ c ∈ log, R c.before c.after) {c : Commit P Db} (hc : c ∈ log) :
    R c.after d := by
  induction log generalizing d with
  | nil => exact absurd hc List.not_mem_nil
  | cons c' log ih =>
    obtain ⟨rfl, hrest⟩ := h
    rcases List.mem_cons.mp hc with rfl | hc
    · exact hr _
    · have hb := ih hrest (fun c hc => hR c (List.mem_cons_of_mem _ hc)) hc
      exact ht _ _ _ hb (hR c' List.mem_cons_self)

/-! ## the moves, seen by the one who makes them -/

theorem commitsOf_commit (s : Store P Db W L) (p : P) :
    (s.commit p).commitsOf p = ⟨p, s.committed, s.view p⟩ :: s.commitsOf p := by
  unfold commitsOf
  rw [commit, List.filter_cons, if_pos (decide_eq_true rfl)]

theorem view_of_pending {s : Store P Db W L} {p : P} (h : s.pending p = []) :
    s.view p = s.committed := by
  rw [view, h, applyAll_nil]

theorem acquire_locks {s t : Store P Db W L} {p : P} {l : L} (h : s.acquire p l = some t) :
    t.locks l = some p := by
  unfold acquire at h
  split at h
  · cases h
    exact Function.update_self ..
  · cases h

theorem acquire_eq {s t : Store P Db W L} {p : P} {l : L} (h : s.acquire p l = some t) :
    t = { s with locks := Function.update s.locks l (some p) } := by
  unfold acquire at h
  split at h
  · exact (Option.some.inj h).symm
  · cases h

theorem put_eq {s t : Store P Db W L} {p : P} {w : W} (h : s.put p w = some t) :
    t = { s with
      pending := Function.update s.pending p (s.pending p ++ [w])
      locks := fun l => if l ∈ takes Db w then some p else s.locks l } := by
  unfold put at h
  split at h
  · exact (Option.some.inj h).symm
  · cases h

theorem put_pending {s t : Store P Db W L} {p : P} {w : W} (h : s.put p w = some t) :
    t.pending p = s.pending p ++ [w] := by
  rw [put_eq h]
  exact Function.update_self ..

theorem put_view {s t : Store P Db W L} {p : P} {w : W} (h : s.put p w = some t) :
    t.view p = apply w (s.view p) := by
  unfold view
  rw [put_pending h, put_eq h, applyAll_append]
  rfl

/-- no lock is lost by a write -/
theorem put_keeps {s t : Store P Db W L} {p : P} {w : W} (h : s.put p w = some t) {l : L}
    (hl : s.locks l = some p) : t.locks l = some p := by
  rw [put_eq h]
  show (if l ∈ takes Db w then some p else s.locks l) = some p
  split
  · rfl
  · exact hl

theorem put_takes {s t : Store P Db W L} {p : P} {w : W} (h : s.put p w = some t) {l : L}
    (hl : l ∈ takes Db w) : t.locks l = some p := by
  rw [put_eq h]
  exact if_pos hl

end

end ReadCommitted
