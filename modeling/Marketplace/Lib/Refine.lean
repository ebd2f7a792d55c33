import Mathlib
import Marketplace.Lib.ReadCommitted

/-!
# The commits of a database as the events of an abstract machine

An abstract machine says what a component is for: the events it knows, when each of them may happen
and what it does.  A database refines the machine when every commit is one of its events.

* `Abstract B V`     states `B`, events `V`; `allows` is the guard of an event, `apply` its effect;
* `History A h b`    the events `h`, newest first, lead from the first state to `b`, each of them
                     allowed where it happens; an event is marked with the process it is from;
* `History.invariant`, `History.sum`, `History.last`   what every event keeps, what the events
                     add up to, and what only the last one of a kind decides;
* `Takes`            a commit, read through an abstraction function, is an event;
* `history_of_log`   **a log of such commits is a history**, each process with its own events;
* `Refines`          every commit is an event, and no process has two of them;
* `Moment`           the contents at some moment of a run; `Refines.since` is what every event keeps,
                     from any moment until now.
-/

set_option linter.unusedSectionVars false

namespace ReadCommitted

structure Abstract (B V : Type) where
  init : B
  allows : V → B → Prop
  apply : V → B → B

section
variable {B V P : Type} (A : Abstract B V)

/-- the events, newest first, lead to the state -/
inductive History : List (P × V) → B → Prop
  | nil : History [] A.init
  | cons {h : List (P × V)} {b : B} (p : P) {v : V} (hb : History h b) (hv : A.allows v b) :
      History ((p, v) :: h) (A.apply v b)

variable {A} {h : List (P × V)} {b : B}

/-- what every event keeps -/
theorem History.invariant {F : B → Prop} (h₀ : F A.init)
    (hF : ∀ v b, F b → A.allows v b → F (A.apply v b)) (hb : History A h b) : F b := by
  induction hb with
  | nil => exact h₀
  | cons p _ hv ih => exact hF _ _ ih hv

/-- **what the events add up to**: a measure that every event changes by an amount of its own -/
theorem History.sum {F : B → Prop} (h₀ : F A.init)
    (hF : ∀ v b, F b → A.allows v b → F (A.apply v b)) {f : B → Int} {g : V → Int}
    (hinit : f A.init = 0) (hf : ∀ v b, F b → A.allows v b → f (A.apply v b) = f b + g v)
    (hb : History A h b) : f b = (h.map fun x => g x.2).sum := by
  induction hb with
  | nil => exact hinit
  | cons p hb hv ih =>
    have hinv := hb.invariant h₀ hF
    rw [hf _ _ hinv hv, ih, List.map_cons, List.sum_cons, Int.add_comm]

/-- **what only the last event of a kind decides**: `f` is as the newest event leaves it that speaks
of it, and as it was at first if none does -/
theorem History.last {β : Type} {f : B → β} {g : V → Option β}
    (hf : ∀ v b, A.allows v b → f (A.apply v b) = (g v).getD (f b)) (hb : History A h b) :
    f b = (h.findSome? fun x => g x.2).getD (f A.init) := by
  induction hb with
  | nil => rfl
  | cons p hb hv ih =>
    rw [hf _ _ hv, ih, List.findSome?_cons]
    cases g _ with
    | none => rfl
    | some y => rfl

end

section
variable {B V P Db : Type} (A : Abstract B V) (view : Db → B) (May : P → V → Prop)

/-- the commit is an event that its process may bring about -/
def Takes (c : Commit P Db) : Prop :=
  ∃ v, May c.tx v ∧ A.allows v (view c.before) ∧ view c.after = A.apply v (view c.before)

variable {A view May}

theorem history_of_log {d e : Db} {log : List (Commit P Db)} (hd : view d = A.init)
    (h : Chained d log e) (hc : ∀ c ∈ log, Takes A view May c) :
    ∃ events : List (P × V), events.map Prod.fst = log.map Commit.tx ∧
      History A events (view e) ∧ ∀ x ∈ events, May x.1 x.2 := by
  induction log generalizing e with
  | nil =>
    obtain rfl : e = d := h
    exact ⟨[], rfl, hd ▸ .nil, fun x hx => absurd hx List.not_mem_nil⟩
  | cons c log ih =>
    obtain ⟨rfl, hrest⟩ := h
    obtain ⟨events, hp, hb, hmay⟩ := ih hrest fun c' hc' => hc c' (List.mem_cons_of_mem _ hc')
    obtain ⟨v, hv, hallow, hafter⟩ := hc c List.mem_cons_self
    refine ⟨(c.tx, v) :: events, ?_, ?_, ?_⟩
    · rw [List.map_cons, List.map_cons, hp]
    · rw [hafter]
      exact hb.cons c.tx hallow
    · intro x hx
      rcases List.mem_cons.mp hx with rfl | hx
      · exact hv
      · exact hmay x hx

/-- the commits are events of the machine, one for each process -/
structure Refines (A : Abstract B V) (view : Db → B) (May : P → V → Prop) (d₀ d : Db)
    (log : List (Commit P Db)) : Prop where
  chained : Chained d₀ log d
  once : (log.map Commit.tx).Nodup
  takes : ∀ c ∈ log, Takes A view May c

theorem Refines.fresh (d : Db) : Refines A view May d d ([] : List (Commit P Db)) :=
  ⟨rfl, List.nodup_nil, fun _ hc => absurd hc List.not_mem_nil⟩

variable [DecidableEq P]

theorem Refines.history {d e : Db} {log : List (Commit P Db)} (h : Refines A view May d e log)
    (hd : view d = A.init) :
    ∃ events : List (P × V), events.map Prod.fst = log.map Commit.tx ∧
      History A events (view e) ∧ ∀ x ∈ events, May x.1 x.2 :=
  history_of_log hd h.chained h.takes

/-! ## the moments of a run -/

/-- the contents at some moment of a run that began in `d₀` -/
def Moment (d₀ : Db) (log : List (Commit P Db)) (d : Db) : Prop := d = d₀ ∨ ∃ c ∈ log, c.after = d

theorem Chained.moment {d₀ d : Db} {log : List (Commit P Db)} (h : Chained d₀ log d) :
    Moment d₀ log d := h.cases

theorem Moment.mono {d₀ d : Db} {log new : List (Commit P Db)} (h : Moment d₀ log d) :
    Moment d₀ (new ++ log) d :=
  h.imp id fun ⟨c, hc, e⟩ => ⟨c, List.mem_append_right _ hc, e⟩

theorem Moment.later {d₀ d : Db} {log : List (Commit P Db)} (c : Commit P Db)
    (h : Moment d₀ log d) : Moment d₀ (c :: log) d :=
  h.imp id fun ⟨c', hc, e⟩ => ⟨c', List.mem_cons_of_mem c hc, e⟩

/-- what every event keeps relates the state at any moment and now -/
theorem Refines.since {R : B → B → Prop} (hr : ∀ b, R b b) (ht : ∀ a b c, R a b → R b c → R a c)
    (hR : ∀ v b, A.allows v b → R b (A.apply v b)) {d₀ d e : Db} {log : List (Commit P Db)}
    (h : Refines A view May d₀ e log) (hd : Moment d₀ log d) : R (view d) (view e) := by
  have hstep : ∀ c ∈ log, R (view c.before) (view c.after) := by
    intro c hc
    obtain ⟨v, -, hv, ha⟩ := h.takes c hc
    rw [ha]
    exact hR v _ hv
  rcases hd with rfl | ⟨c, hc, rfl⟩
  · have hfirst : Chained d ([] : List (Commit P Db)) d := rfl
    have hnew : Chained d (log ++ []) e := by
      rw [List.append_nil]
      exact h.chained
    exact Chained.between (R := fun a b => R (view a) (view b)) (fun a => hr _)
      (fun _ _ _ hab hbc => ht _ _ _ hab hbc) hfirst hnew hstep
  · exact h.chained.since (R := fun a b => R (view a) (view b)) (fun a => hr _)
      (fun _ _ _ hab hbc => ht _ _ _ hab hbc) hstep hc

end

section
variable {B V P Db W L : Type} [DecidableEq P] [DecidableEq L] [Schema Db W L]
variable {A : Abstract B V} {view : Db → B} {May : P → V → Prop} {p : P}

theorem Moment.seen {s t : Store P Db W L} (hs : Seen p s t) {d₀ d : Db} (h : Moment d₀ s.log d) :
    Moment d₀ t.log d := by
  obtain ⟨new, hn, -⟩ := hs.log
  rw [hn]
  exact h.mono

/-- a commit by one who has not committed yet -/
theorem Refines.commit {s : Store P Db W L} {d₀ : Db}
    (h : Refines A view May d₀ s.committed s.log) (hf : s.commitsOf p = [])
    (ht : Takes A view May ⟨p, s.committed, s.view p⟩) :
    Refines A view May d₀ (s.view p) (⟨p, s.committed, s.view p⟩ :: s.log) := by
  refine ⟨⟨rfl, h.chained⟩, List.nodup_cons.mpr ⟨fun hm => ?_, h.once⟩, fun c hc => ?_⟩
  · obtain ⟨c, hc, hp⟩ := List.mem_map.mp hm
    exact List.filter_eq_nil_iff.mp hf c hc (by simpa using hp)
  · rcases List.mem_cons.mp hc with rfl | hc
    · exact ht
    · exact h.takes c hc

end

end ReadCommitted
