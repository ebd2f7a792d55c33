import Marketplace.Lib.Table
import Marketplace.Events.Outbox

/-!
# The broker and the connections to it

A publisher writes a frame to its connection; the broker receives it some time later, or never, if
the connection goes down first.  On a channel that is not in confirm mode the write alone tells the
publisher nothing about that.

* `Conn`             one connection: whether the broker is still there, whether the client has noticed
                     that it is not, and the frames that were written and not received;
* `Broker`           the connections, the channel every publisher has cached, and all messages that
                     the durable queue has ever accepted;
* `Broker.acquire`, `publish`, `discard`     the Go publisher, `publishOnce`, `forget` the Python one;
* `Broker.move`      a frame arrives, a connection goes down, a client notices;
* `Carries`, `Reaches`   a message is in the queue or on its way to it.
-/

set_option linter.unusedSectionVars false

namespace Marketplace.Events

open Table

/-- the envelope of an event -/
structure Message where
  eventID : UUID
  source : String
  routingKey : RoutingKey
  notifications : Payload
  deriving DecidableEq, Repr

/-- a connection; a frame is kept with the drain that counts it as published -/
structure Conn (P : Type) where
  up : Bool
  closed : Bool
  wire : List (Option P × Message)

def Conn.fresh {P : Type} : Conn P := ⟨true, false, []⟩

structure Broker (N P : Type) where
  conns : List (Conn P)
  channel : N → Option Nat
  queue : List Message

def Broker.start {N P : Type} : Broker N P := ⟨[], fun _ => none, []⟩

inductive Move where
  | receive (c : Nat)
  | drop (c : Nat)
  | notice (c : Nat)
  deriving DecidableEq, Repr

/-- how a publish fares: nothing is written, the frame is written and an error is reported, or the
publish returns without an error -/
inductive Outcome where
  | unwritten
  | failed
  | done
  deriving DecidableEq, Repr

/-- what the network decides at one command -/
structure Network where
  expired : Bool
  dials : Bool
  outcome : Outcome
  move : Move
  deriving DecidableEq, Repr

section
variable {N P : Type} [DecidableEq N] [DecidableEq P]

namespace Broker
variable (b : Broker N P)

/-- the cached channel, if the client has not noticed that it is closed -/
def usable (n : N) : Option Nat :=
  match b.channel n with
  | none => none
  | some c =>
    match b.conns[c]? with
    | some k => if k.closed then none else some c
    | none => none

def dial (n : N) (x : Network) : Except String Unit × Broker N P :=
  if x.dials then
    (.ok (), { b with
      conns := b.conns ++ [.fresh]
      channel := Function.update b.channel n (some b.conns.length) })
  else (.error "dialling broker", b)

/-- `acquire`: the cached channel, or a new connection -/
def acquire (n : N) (x : Network) : Except String Unit × Broker N P :=
  match b.usable n with
  | some _ => (.ok (), b)
  | none => b.dial n x

def write (p : Option P) (m : Message) (c : Nat) : Broker N P :=
  { b with conns := b.conns.modify c fun k => { k with wire := k.wire ++ [(p, m)] } }

/-- `PublishWithContext`: a frame that is written counts as published -/
def publish (p : P) (n : N) (m : Message) (x : Network) : Except String Unit × Broker N P :=
  match b.usable n with
  | some c =>
    match x.outcome with
    | .unwritten => (.error "channel/connection is not open", b)
    | .failed => (.error "write: broken pipe", b.write none m c)
    | .done => (.ok (), b.write (some p) m c)
  | none => (.error "channel/connection is not open", b)

/-- `discard`: close the connection and forget the channel -/
def discard (n : N) : Broker N P :=
  { b with
    conns := match b.channel n with
      | some c => b.conns.modify c fun k => { k with closed := true }
      | none => b.conns
    channel := Function.update b.channel n none }

/-- the Python publisher drops its references -/
def forget (n : N) : Broker N P := { b with channel := Function.update b.channel n none }

/-- the channel of aio_pika is in confirm mode: a publish returns once the broker has the message -/
def confirmed (n : N) (m : Message) (x : Network) : Except String Unit × Broker N P :=
  match x.outcome with
  | .unwritten => (.error "connection closed", b)
  | .failed =>
    match b.usable n with
    | some c => (.error "no confirmation", b.write none m c)
    | none => (.error "connection closed", b)
  | .done => (.ok (), { b with queue := b.queue ++ [m] })

/-- `_publish_once`, within its time limit -/
def publishOnce (n : N) (m : Message) (x : Network) : Except String Unit × Broker N P :=
  match b.acquire n x with
  | (.ok _, b') => b'.confirmed n m x
  | (.error e, b') => (.error e, b')

/-- the oldest frame of a connection arrives -/
def receive (c : Nat) (k : Conn P) : Option (Broker N P) :=
  match k.wire with
  | (_, m) :: rest =>
    if k.up then
      some { b with
        conns := b.conns.modify c fun k => { k with wire := rest }
        queue := b.queue ++ [m] }
    else none
  | [] => none

def move (x : Move) : Option (Broker N P) :=
  match x with
  | .receive c => (b.conns[c]?).bind (b.receive c)
  -- the broker restarts or the network fails; what the queue has accepted is durable
  | .drop c => some { b with conns := b.conns.modify c fun k => { k with up := false } }
  | .notice c =>
    (b.conns[c]?).bind fun k =>
      if k.up then none
      else some { b with conns := b.conns.modify c fun k => { k with closed := true } }

end Broker

/-! ## what is on its way -/

/-- the message is in the queue, or was written to some connection -/
def Carries (b : Broker N P) (m : Message) : Prop :=
  m ∈ b.queue ∨ ∃ k ∈ b.conns, ∃ p, (p, m) ∈ k.wire

/-- the queue has accepted the event -/
def Broker.Accepted (b : Broker N P) (e : UUID) : Prop := ∃ m ∈ b.queue, m.eventID = e

/-- the event is in the queue, or on some connection in a frame that `p` counts as published -/
def Reaches (p : P) (e : UUID) (b : Broker N P) : Prop :=
  b.Accepted e ∨ ∃ k ∈ b.conns, ∃ m, (some p, m) ∈ k.wire ∧ m.eventID = e

/-- every frame that `p` counts as published has been received -/
def Broker.settled (b : Broker N P) (p : P) : Bool :=
  b.conns.all fun k => k.wire.all fun f => f.1 ≠ some p

theorem Reaches.settled {p : P} {e : UUID} {b : Broker N P} (h : Reaches p e b)
    (hs : b.settled p = true) : b.Accepted e := by
  rcases h with h | ⟨k, hk, m, hm, -⟩
  · exact h
  · have hp := List.all_eq_true.mp (List.all_eq_true.mp hs k hk) (some p, m) hm
    simp at hp

/-- nothing is lost from a wire but by arriving, and nothing is new but possibly `new` -/
structure Evolves (new : Option Message) (b b' : Broker N P) : Prop where
  queue : ∀ m ∈ b.queue, m ∈ b'.queue
  frames : ∀ k ∈ b.conns, ∀ fr ∈ k.wire, fr.2 ∈ b'.queue ∨ ∃ k' ∈ b'.conns, fr ∈ k'.wire
  nothing : ∀ m, Carries b' m → new = some m ∨ Carries b m

namespace Evolves
variable {b b' b'' : Broker N P} {new : Option Message} {p : P} {n : N} {m : Message} {x : Network}

theorem reaches (h : Evolves new b b') {e : UUID} (hr : Reaches p e b) : Reaches p e b' := by
  rcases hr with ⟨m, hm, he⟩ | ⟨k, hk, m, hm, he⟩
  · exact .inl ⟨m, h.queue m hm, he⟩
  · rcases h.frames k hk _ hm with hq | ⟨k', hk', hm'⟩
    · exact .inl ⟨m, hq, he⟩
    · exact .inr ⟨k', hk', m, hm', he⟩

theorem refl (b : Broker N P) : Evolves new b b :=
  ⟨fun _ h => h, fun k hk _ hf => .inr ⟨k, hk, hf⟩, fun _ h => .inr h⟩

theorem trans (h : Evolves none b b') (h' : Evolves new b' b'') : Evolves new b b'' := by
  refine ⟨fun m hm => h'.queue m (h.queue m hm), fun k hk fr hfr => ?_, fun m hm => ?_⟩
  · rcases h.frames k hk fr hfr with hq | ⟨k', hk', hfr'⟩
    · exact .inl (h'.queue _ hq)
    · exact h'.frames k' hk' fr hfr'
  · rcases h'.nothing m hm with hn | hc
    · exact .inl hn
    · exact .inr ((h.nothing m hc).resolve_left fun e => nomatch e)

/-- another channel is cached -/
theorem of_same (hc : b'.conns = b.conns) (hq : b'.queue = b.queue) : Evolves new b b' := by
  refine ⟨fun _ h => hq ▸ h, fun k hk _ hf => .inr ⟨k, hc ▸ hk, hf⟩, fun m h => .inr ?_⟩
  unfold Carries at h ⊢
  rwa [hc, hq] at h

/-- a change of one connection that keeps its wire -/
theorem modify (c : Nat) {f : Conn P → Conn P} (hf : ∀ k, (f k).wire = k.wire)
    (g : N → Option Nat) : Evolves new b { b with conns := b.conns.modify c f, channel := g } := by
  refine ⟨fun _ h => h, fun k hk fr hfr => .inr ?_, fun m h => .inr ?_⟩
  · obtain ⟨j, hj⟩ := List.mem_iff_getElem?.mp hk
    by_cases e : j = c
    · exact ⟨f k, mem_modify.mpr (.inl ⟨k, e ▸ hj, rfl⟩), (hf k).symm ▸ hfr⟩
    · exact ⟨k, mem_modify.mpr (.inr ⟨j, e, hj⟩), hfr⟩
  · rcases h with h | ⟨k, hk, p, hp⟩
    · exact .inl h
    · rcases mem_modify.mp hk with ⟨k', hk', rfl⟩ | ⟨j, -, hj⟩
      · exact .inr ⟨k', List.mem_of_getElem? hk', p, hf k' ▸ hp⟩
      · exact .inr ⟨k, List.mem_of_getElem? hj, p, hp⟩

theorem dial : Evolves none b (b.dial n x).2 := by
  unfold Broker.dial
  split
  · refine ⟨fun _ h => h, fun k hk _ hf => .inr ⟨k, List.mem_append_left _ hk, hf⟩, fun m h => ?_⟩
    rcases h with h | ⟨k, hk, p, hp⟩
    · exact .inr (.inl h)
    · rcases List.mem_append.mp hk with hk | hk
      · exact .inr (.inr ⟨k, hk, p, hp⟩)
      · rw [List.mem_singleton.mp hk] at hp
        exact absurd hp List.not_mem_nil
  · exact refl b

theorem acquire : Evolves none b (b.acquire n x).2 := by
  unfold Broker.acquire
  split
  · exact refl b
  · exact dial

theorem discard : Evolves none b (b.discard n) := by
  unfold Broker.discard
  split
  · exact modify (b := b) _ (f := fun k => { k with closed := true }) (fun _ => rfl) _
  · exact of_same rfl rfl

theorem forget : Evolves none b (b.forget n) := of_same rfl rfl

end Evolves

section
variable {b b' : Broker N P} {p : P} {n : N} {m : Message} {x : Network}

theorem usable_conn {c : Nat} (h : b.usable n = some c) : ∃ k, b.conns[c]? = some k := by
  unfold Broker.usable at h
  split at h
  · cases h
  · split at h
    · rename_i k hk
      split at h
      · cases h
      · cases h
        exact ⟨k, hk⟩
    · cases h

/-- a frame that is written is on its way -/
theorem write_evolves {c : Nat} {w : Option P} (h : b.usable n = some c) :
    Evolves (some m) b (b.write w m c) := by
  obtain ⟨k₀, hk₀⟩ := usable_conn h
  have hnew : { k₀ with wire := k₀.wire ++ [(w, m)] } ∈ (b.write w m c).conns :=
    mem_modify.mpr (.inl ⟨k₀, hk₀, rfl⟩)
  refine ⟨fun _ h => h, fun k hk fr hfr => .inr ?_, fun m' h => ?_⟩
  · obtain ⟨j, hj⟩ := List.mem_iff_getElem?.mp hk
    by_cases e : j = c
    · subst e
      cases hk₀.symm.trans hj
      exact ⟨_, hnew, List.mem_append_left _ hfr⟩
    · exact ⟨k, mem_modify.mpr (.inr ⟨j, e, hj⟩), hfr⟩
  · rcases h with h | ⟨k, hk, q, hq⟩
    · exact .inr (.inl h)
    · rcases mem_modify.mp hk with ⟨k', hk', rfl⟩ | ⟨j, -, hj⟩
      · rcases List.mem_append.mp hq with hq | hq
        · exact .inr (.inr ⟨k', List.mem_of_getElem? hk', q, hq⟩)
        · exact .inl (congrArg some (Prod.mk.inj (List.mem_singleton.mp hq)).2.symm)
      · exact .inr (.inr ⟨k, List.mem_of_getElem? hj, q, hq⟩)

theorem write_reaches {c : Nat} (h : b.usable n = some c) :
    Reaches p m.eventID (b.write (some p) m c) := by
  obtain ⟨k₀, hk₀⟩ := usable_conn h
  refine .inr ⟨{ k₀ with wire := k₀.wire ++ [(some p, m)] }, ?_, m, by simp, rfl⟩
  exact mem_modify.mpr (.inl ⟨k₀, hk₀, rfl⟩)

/-- what a publish without confirmation leaves -/
theorem publish_evolves :
    Evolves (some m) b (b.publish p n m x).2 ∧
    ((b.publish p n m x).1 = .ok () → Reaches p m.eventID (b.publish p n m x).2) := by
  unfold Broker.publish
  split
  · rename_i c hc
    split
    · exact ⟨.refl b, fun e => nomatch e⟩
    · exact ⟨write_evolves hc, fun e => nomatch e⟩
    · exact ⟨write_evolves hc, fun _ => write_reaches hc⟩
  · exact ⟨.refl b, fun e => nomatch e⟩

theorem confirmed_evolves :
    Evolves (some m) b (b.confirmed n m x).2 ∧
    ((b.confirmed n m x).1 = .ok () → (b.confirmed n m x).2.Accepted m.eventID) := by
  unfold Broker.confirmed
  split
  · exact ⟨.refl b, fun e => nomatch e⟩
  · split
    · rename_i c hc
      exact ⟨write_evolves hc, fun e => nomatch e⟩
    · exact ⟨.refl b, fun e => nomatch e⟩
  · refine ⟨⟨fun _ h => List.mem_append_left _ h, fun k hk fr hfr => .inr ⟨k, hk, hfr⟩, ?_⟩,
      fun _ => ⟨m, by simp, rfl⟩⟩
    rintro m' (h | h)
    · rcases List.mem_append.mp h with h | h
      · exact .inr (.inl h)
      · exact .inl (congrArg some (List.mem_singleton.mp h).symm)
    · exact .inr (.inr h)

theorem publishOnce_evolves :
    Evolves (some m) b (b.publishOnce n m x).2 ∧
    ((b.publishOnce n m x).1 = .ok () → (b.publishOnce n m x).2.Accepted m.eventID) := by
  have ha : Evolves none b (b.acquire n x).2 := .acquire
  unfold Broker.publishOnce
  split
  · rename_i b₁ hb
    rw [hb] at ha
    exact ⟨ha.trans confirmed_evolves.1, confirmed_evolves.2⟩
  · rename_i e b₁ hb
    rw [hb] at ha
    exact ⟨ha.trans (.refl b₁), fun e => nomatch e⟩

theorem move_evolves {y : Move} (h : b.move y = some b') : Evolves none b b' := by
  cases y with
  | receive c =>
    obtain ⟨k₀, hk₀, h⟩ := Option.bind_eq_some_iff.mp h
    unfold Broker.receive at h
    split at h
    · rename_i q m rest hw
      split at h
      · cases h
        refine ⟨fun _ h => List.mem_append_left _ h, fun k hk fr hfr => ?_, fun m' h => .inr ?_⟩
        · obtain ⟨j, hj⟩ := List.mem_iff_getElem?.mp hk
          by_cases e : j = c
          · subst e
            cases hk₀.symm.trans hj
            rw [hw] at hfr
            rcases List.mem_cons.mp hfr with rfl | hfr
            · exact .inl (by simp)
            · exact .inr ⟨_, mem_modify.mpr (.inl ⟨k₀, hk₀, rfl⟩), hfr⟩
          · exact .inr ⟨k, mem_modify.mpr (.inr ⟨j, e, hj⟩), hfr⟩
        · rcases h with h | ⟨k, hk, p, hp⟩
          · rcases List.mem_append.mp h with h | h
            · exact .inl h
            · rw [List.mem_singleton.mp h]
              exact .inr ⟨k₀, List.mem_of_getElem? hk₀, q, by rw [hw]; exact List.mem_cons_self⟩
          · rcases mem_modify.mp hk with ⟨k', hk', rfl⟩ | ⟨j, -, hj⟩
            · cases hk₀.symm.trans hk'
              exact .inr ⟨k₀, List.mem_of_getElem? hk₀, p, by rw [hw]; exact List.mem_cons_of_mem _ hp⟩
            · exact .inr ⟨k, List.mem_of_getElem? hj, p, hp⟩
      · cases h
    · cases h
  | drop c =>
    cases h
    exact .modify (b := b) c (f := fun k => { k with up := false }) (fun _ => rfl) _
  | notice c =>
    obtain ⟨k, -, h⟩ := Option.bind_eq_some_iff.mp h
    split at h
    · cases h
    · cases h
      exact .modify (b := b) c (f := fun k => { k with closed := true }) (fun _ => rfl) _

end

end

end Marketplace.Events
