import Marketplace.Frontend.Slices
import Marketplace.Lib.Text

/-!
# frontend: what the form of `BrowseRequests.tsx` suggests

The page shows a customer `NewRequestDialog`, a seller `OfferOnANewItemDialog`; both look up the item
name that is typed with one effect, and both show `requests.similar`.  React runs the effect at once
after something that the user does, later after a `set` that follows an `await`.

* `trim`, `length`   of a string of JavaScript;
* `Page`             the slice, the form, its timer, and the calls that are on their way.  `origin` is
                     what has happened; nothing in the code looks at it;
* `Page.effect`      the debounced look-up;
* `Page.step`        what the user does, the timer, the answers in any order;
* `Belongs`          the suggestions are those of the name in the form;
* `Meets`            nothing arrives that is for another name, nor is the name changed under it;
* `suggestions_belong_iff`   **the suggestions belong to the name on screen in every state of a run
                     exactly if every step of it meets the condition**;
* `suggestions_of_another`   two answers, the first one last.
-/

set_option linter.unusedSectionVars false

namespace Marketplace.Frontend.BrowseRequests

open RequestsSlice (CreateRejection)

/-! ## strings of JavaScript -/

/-- white space and line terminators -/
def isWhiteSpace (c : Char) : Bool :=
  let n := c.toNat
  (0x9 ≤ n && n ≤ 0xd) || n == 0x20 || n == 0xa0 || n == 0x1680 || (0x2000 ≤ n && n ≤ 0x200a) ||
    n == 0x2028 || n == 0x2029 || n == 0x202f || n == 0x205f || n == 0x3000 || n == 0xfeff

def trim (s : String) : String := String.ofList (Text.trimBy isWhiteSpace s.toList)

/-- in UTF-16 code units -/
def length (s : String) : Nat := (s.toList.map fun c => if c.toNat < 0x10000 then 1 else 2).sum

example : trim "\u00a0 TV\u3000\n" = "TV" ∧ length "TV" = 2 ∧ length "📺📺" = 4 := by decide

/-! ## the page -/

/-- a `createRequest` on its way -/
structure Create where
  /-- the form it was submitted from -/
  visit : Nat
  itemName : String
  deriving DecidableEq, Repr

/-- what `similar` was last filled with -/
inductive Origin where
  | search (itemName : String)
  | refusal (itemName : String)
  deriving DecidableEq, Repr

/-- the name it is about -/
def Origin.name : Origin → String
  | .search itemName => itemName
  | .refusal itemName => trim itemName

structure Page where
  requests : RequestsSlice.State
  /-- the form is a new one on every visit -/
  visit : Nat
  itemName : String
  /-- `open` -/
  isOpen : Bool
  /-- the item name and `open` that the effect last ran with -/
  seen : Option (String × Bool)
  timer : Option String
  /-- the item names of the `fetchSimilarRequests` on their way -/
  searching : List String
  creating : List Create
  /-- the forms whose `submit` goes on with `done` -/
  ending : List Nat
  origin : Option Origin
  deriving DecidableEq, Repr

namespace Page

def start : Page := ⟨RequestsSlice.initialState, 0, "", false, none, none, [], [], [], none⟩

def dispatch (s : Page) (a : RequestsSlice.Action) : Page :=
  { s with requests := RequestsSlice.reducer s.requests a }

def exactMatch (s : Page) : Option PurchaseRequest :=
  s.requests.similar.find? fun request => request.exact == some true

/-- the effect, if what it depends on has changed; the timer of the last one is cleared first -/
def effect (s : Page) : Page :=
  if s.seen = some (s.itemName, s.isOpen) then s
  else
    let s := { s with seen := some (s.itemName, s.isOpen), timer := none }
    let itemName := trim s.itemName
    if !s.isOpen || length itemName < 3 then s.dispatch .similarCleared
    else { s with timer := some itemName }

/-- off the page; the effect is cleaned up -/
def leave (s : Page) : Page :=
  { s with visit := s.visit + 1, itemName := "", isOpen := false, seen := none, timer := none }

/-- `done`, for which another form is none of its business -/
def done (s : Page) (visit : Nat) : Page :=
  let s := s.dispatch .similarCleared
  if s.visit = visit then { s with isOpen := false, itemName := "" } else s

end Page

/-- the reducer does not look at `similar` -/
def unrelated : RequestsSlice.Action → Bool
  | .similarCleared => false
  | .fetchSimilarFulfilled _ => false
  | .createFulfilled _ => false
  | .createRejected _ => false
  | _ => true

inductive Event where
  | typed (itemName : String)
  | opened
  /-- `onOpenChange(false)` -/
  | closed
  /-- the button -/
  | cancelled
  | effect
  | fires
  /-- of a look-up that failed: `[]` -/
  | answered (itemName : String) (payload : List PurchaseRequest)
  | submitted
  | created (c : Create) (payload : PurchaseRequest)
  | done (visit : Nat)
  | refused (c : Create) (payload : Option CreateRejection)
  | joined (payload : PurchaseRequest)
  /-- a seller is done: the offer is made, had been made, or goes to one of the suggestions -/
  | offered
  | left
  /-- another thunk -/
  | other (a : RequestsSlice.Action)
  deriving DecidableEq, Repr

/-- what an event makes of the page, if it can happen -/
def Page.step (s : Page) : Event → Option Page
  | .typed itemName => if s.isOpen then some { s with itemName := itemName }.effect else none
  | .opened => if s.isOpen then none else some { s with isOpen := true }.effect
  | .closed =>
    if s.isOpen then some ({ s with isOpen := false }.dispatch .similarCleared).effect else none
  | .cancelled => if s.isOpen then some { s with isOpen := false }.effect else none
  | .effect => some s.effect
  | .fires =>
    match s.timer with
    | some itemName => some { s with timer := none, searching := itemName :: s.searching }
    | none => none
  | .answered itemName payload =>
    if itemName ∈ s.searching then
      some { s.dispatch (.fetchSimilarFulfilled payload) with
        searching := s.searching.erase itemName
        origin := some (.search itemName) }
    else none
  -- there is no button to submit with while there is an exact match
  | .submitted =>
    if s.isOpen && s.exactMatch.isNone then
      some { s with creating := ⟨s.visit, s.itemName⟩ :: s.creating }
    else none
  | .created c payload =>
    if c ∈ s.creating then
      some { s.dispatch (.createFulfilled payload) with
        creating := s.creating.erase c
        ending := c.visit :: s.ending }
    else none
  | .done visit =>
    if visit ∈ s.ending then some { s.done visit with ending := s.ending.erase visit } else none
  | .refused c payload =>
    if c ∈ s.creating then
      some { s.dispatch (.createRejected payload) with
        creating := s.creating.erase c
        origin :=
          if (payload.bind (·.existing)).isSome then some (.refusal c.itemName) else s.origin }
    else none
  | .joined payload => some ((s.dispatch (.joinFulfilled payload)).dispatch .similarCleared).leave
  | .offered => some (s.dispatch .similarCleared).leave
  | .left => some s.leave
  | .other a => if unrelated a then some (s.dispatch a) else none

/-- the steps of a tab, the last first, and where they have led -/
inductive Trace : List (Page × Event) → Page → Prop where
  | start : Trace [] Page.start
  | step {steps : List (Page × Event)} {s t : Page} {e : Event} (h : Trace steps s)
      (hs : s.step e = some t) : Trace ((s, e) :: steps) t

/-- what is suggested is the answer for the name in the open form, of three characters or more, or the
refusal of a create of this name -/
def Belongs (s : Page) : Prop :=
  s.requests.similar = [] ∨
    s.isOpen = true ∧ 3 ≤ length (trim s.itemName) ∧
      s.origin.map Origin.name = some (trim s.itemName)

instance (s : Page) : Decidable (Belongs s) := inferInstanceAs (Decidable (_ ∨ _))

/-- the name is not changed under the suggestions, what arrives is for the name in the open form, and
nothing is left behind -/
def Meets (s : Page) : Event → Prop
  | .typed itemName =>
    s.requests.similar = [] ∨ trim itemName = trim s.itemName ∨ length (trim itemName) < 3
  | .answered itemName payload => payload = [] ∨ s.isOpen = true ∧ itemName = trim s.itemName
  | .refused c payload =>
    payload.bind (·.existing) = none ∨
      s.isOpen = true ∧ trim c.itemName = trim s.itemName ∧ 3 ≤ length (trim s.itemName)
  | .left => s.requests.similar = []
  | _ => True

instance (s : Page) (e : Event) : Decidable (Meets s e) :=
  match e with
  | .typed itemName => inferInstanceAs (Decidable
      (s.requests.similar = [] ∨ trim itemName = trim s.itemName ∨ length (trim itemName) < 3))
  | .answered itemName payload =>
    inferInstanceAs (Decidable (payload = [] ∨ s.isOpen = true ∧ itemName = trim s.itemName))
  | .refused c payload => inferInstanceAs (Decidable
      (payload.bind (·.existing) = none ∨
        s.isOpen = true ∧ trim c.itemName = trim s.itemName ∧ 3 ≤ length (trim s.itemName)))
  | .left => inferInstanceAs (Decidable (s.requests.similar = []))
  | .opened | .closed | .cancelled | .effect | .fires | .submitted | .created _ _ | .done _
  | .joined _ | .offered | .other _ => isTrue trivial

/-! ## one step -/

section
variable {s t : Page} {e : Event}

theorem guarded {c : Prop} [Decidable c] (h : (if c then some s else none) = some t) : c ∧ s = t := by
  obtain ⟨hc, h⟩ := Option.ite_none_right_eq_some.mp h
  exact ⟨hc, Option.some.inj h⟩

theorem guarded_not {c : Prop} [Decidable c] (h : (if c then none else some s) = some t) :
    ¬c ∧ s = t := by
  obtain ⟨hc, h⟩ := Option.ite_none_left_eq_some.mp h
  exact ⟨hc, Option.some.inj h⟩

theorem similar_of_unrelated {a : RequestsSlice.Action} (h : unrelated a = true)
    (r : RequestsSlice.State) : (RequestsSlice.reducer r a).similar = r.similar := by
  cases a with
  | similarCleared => cases h
  | fetchSimilarFulfilled payload => cases h
  | createFulfilled payload => cases h
  | createRejected payload => cases h
  | joinFulfilled joined =>
    simp only [RequestsSlice.reducer]
    split <;> rfl
  | _ => rfl

theorem similar_refused (payload : Option CreateRejection) (r : RequestsSlice.State) :
    (RequestsSlice.reducer r (.createRejected payload)).similar =
      ((payload.bind (·.existing)).map fun existing => [{ existing with exact := some true }]).getD
        r.similar := by
  simp only [RequestsSlice.reducer]
  cases payload.bind (·.existing) <;> rfl

theorem similar_done (s : Page) (visit : Nat) : (s.done visit).requests.similar = [] := by
  unfold Page.done
  dsimp only
  split <;> rfl

/-- what the effect does: nothing, clear the suggestions, or start the timer -/
theorem effect_cases (s : Page) :
    s.seen = some (s.itemName, s.isOpen) ∧ s.effect = s ∨
    s.seen ≠ some (s.itemName, s.isOpen) ∧
      ((s.isOpen = false ∨ length (trim s.itemName) < 3) ∧
          s.effect = { s with
            seen := some (s.itemName, s.isOpen)
            timer := none
            requests := { s.requests with similar := [] } } ∨
        s.isOpen = true ∧ 3 ≤ length (trim s.itemName) ∧
          s.effect = { s with
            seen := some (s.itemName, s.isOpen)
            timer := some (trim s.itemName) }) := by
  by_cases hseen : s.seen = some (s.itemName, s.isOpen)
  · exact .inl ⟨hseen, if_pos hseen⟩
  · refine .inr ⟨hseen, ?_⟩
    have hrun : s.effect = _ := if_neg hseen
    cases hopen : s.isOpen with
    | false => exact .inl ⟨.inl rfl, by simpa [hopen, Page.dispatch, RequestsSlice.reducer] using hrun⟩
    | true =>
      by_cases hlen : length (trim s.itemName) < 3
      · refine .inl ⟨.inr hlen, ?_⟩
        simpa [hopen, hlen, Page.dispatch, RequestsSlice.reducer] using hrun
      · refine .inr ⟨rfl, Nat.le_of_not_lt hlen, ?_⟩
        simpa [hopen, hlen] using hrun

/-- the effect has run on what the open form shows, and nothing is looked up below three characters -/
structure Sound (s : Page) : Prop where
  ran : s.isOpen = true → s.seen = some (s.itemName, true)
  timer : ∀ q ∈ s.timer, 3 ≤ length q
  searching : ∀ q ∈ s.searching, 3 ≤ length q

theorem sound_effect (ht : ∀ q ∈ s.timer, 3 ≤ length q) (hs : ∀ q ∈ s.searching, 3 ≤ length q) :
    Sound s.effect := by
  rcases effect_cases s with ⟨hseen, he⟩ | ⟨-, ⟨hshort, he⟩ | ⟨hopen, hlen, he⟩⟩ <;> rw [he]
  · exact ⟨fun h => by rw [hseen, h], ht, hs⟩
  · exact ⟨fun h => congrArg (fun b => some (s.itemName, b)) h, (fun _ h => by cases h), hs⟩
  · refine ⟨fun h => congrArg (fun b => some (s.itemName, b)) h, fun q hq => ?_, hs⟩
    obtain rfl : trim s.itemName = q := Option.some.inj hq
    exact hlen

theorem sound_leave (hs : ∀ q ∈ s.searching, 3 ≤ length q) : Sound s.leave :=
  ⟨(fun h => by cases h), (fun _ h => by cases h), hs⟩

theorem Sound.done (hs : Sound s) (visit : Nat) : Sound (s.done visit) := by
  unfold Page.done
  dsimp only
  split
  · exact ⟨(fun h => by cases h), hs.timer, hs.searching⟩
  · exact ⟨hs.ran, hs.timer, hs.searching⟩

theorem Sound.step (hs : Sound s) (h : s.step e = some t) : Sound t := by
  cases e with
  | typed itemName =>
    obtain ⟨-, rfl⟩ := guarded h
    exact sound_effect hs.timer hs.searching
  | opened =>
    obtain ⟨-, rfl⟩ := guarded_not h
    exact sound_effect hs.timer hs.searching
  | closed =>
    obtain ⟨-, rfl⟩ := guarded h
    exact sound_effect hs.timer hs.searching
  | cancelled =>
    obtain ⟨-, rfl⟩ := guarded h
    exact sound_effect hs.timer hs.searching
  | effect =>
    obtain rfl := Option.some.inj h
    exact sound_effect hs.timer hs.searching
  | fires =>
    simp only [Page.step] at h
    split at h
    · rename_i itemName hq
      obtain rfl := Option.some.inj h
      refine ⟨hs.ran, (fun _ h => by cases h), fun q hmem => ?_⟩
      rcases List.mem_cons.mp hmem with rfl | hmem
      · exact hs.timer q hq
      · exact hs.searching q hmem
    · cases h
  | answered itemName payload =>
    obtain ⟨-, rfl⟩ := guarded h
    exact ⟨hs.ran, hs.timer, fun q hq => hs.searching q (List.mem_of_mem_erase hq)⟩
  | submitted =>
    obtain ⟨-, rfl⟩ := guarded h
    exact ⟨hs.ran, hs.timer, hs.searching⟩
  | created c payload =>
    obtain ⟨-, rfl⟩ := guarded h
    exact ⟨hs.ran, hs.timer, hs.searching⟩
  | done visit =>
    obtain ⟨-, rfl⟩ := guarded h
    have hd := hs.done visit
    exact ⟨hd.ran, hd.timer, hd.searching⟩
  | refused c payload =>
    obtain ⟨-, rfl⟩ := guarded h
    exact ⟨hs.ran, hs.timer, hs.searching⟩
  | joined payload =>
    obtain rfl := Option.some.inj h
    exact sound_leave hs.searching
  | offered =>
    obtain rfl := Option.some.inj h
    exact sound_leave hs.searching
  | left =>
    obtain rfl := Option.some.inj h
    exact sound_leave hs.searching
  | other a =>
    obtain ⟨-, rfl⟩ := guarded h
    exact ⟨hs.ran, hs.timer, hs.searching⟩

theorem Sound.trace {steps : List (Page × Event)} (h : Trace steps t) : Sound t := by
  induction h with
  | start => exact ⟨(fun h => by cases h), (fun _ h => by cases h), fun _ h => by cases h⟩
  | step _ hs ih => exact ih.step hs

/-! ### whose suggestions they are -/

theorem belongs_of_nil (h : s.requests.similar = []) : Belongs s := .inl h

/-- the effect clears the suggestions of a form that it has not run on and that is closed -/
theorem similar_effect_closed (ho : s.isOpen = false)
    (h : s.seen = some (s.itemName, s.isOpen) → s.requests.similar = []) :
    s.effect.requests.similar = [] := by
  rcases effect_cases s with ⟨hseen, he⟩ | ⟨-, ⟨-, he⟩ | ⟨hopen, -⟩⟩
  · rw [he]
    exact h hseen
  · rw [he]
  · rw [ho] at hopen
    cases hopen

theorem similar_effect_nil (h : s.requests.similar = []) : s.effect.requests.similar = [] := by
  rcases effect_cases s with ⟨-, he⟩ | ⟨-, ⟨-, he⟩ | ⟨-, -, he⟩⟩ <;> rw [he]
  · exact h
  · exact h

theorem Belongs.closed (h : Belongs s) (ho : s.isOpen = false) : s.requests.similar = [] := by
  refine h.resolve_right fun h' => ?_
  rw [ho] at h'
  cases h'.1

/-- a name is typed into a form whose suggestions were those of the last one -/
theorem belongs_typed (hs : Sound s) (h : Belongs s) (ho : s.isOpen = true) (itemName : String) :
    Belongs { s with itemName := itemName }.effect ↔ Meets s (.typed itemName) := by
  have hseen := hs.ran ho
  rcases effect_cases { s with itemName := itemName } with
    ⟨hsame, he⟩ | ⟨-, ⟨hshort, he⟩ | ⟨-, hlen, he⟩⟩ <;> rw [he]
  · have hname : s.itemName = itemName := by
      have hsame' : s.seen = some (itemName, s.isOpen) := hsame
      rw [hseen] at hsame'
      exact congrArg Prod.fst (Option.some.inj hsame')
    subst hname
    exact iff_of_true h (.inr (.inl rfl))
  · refine iff_of_true (.inl rfl) (.inr (.inr (hshort.resolve_left fun hclosed => ?_)))
    have hclosed' : s.isOpen = false := hclosed
    rw [ho] at hclosed'
    cases hclosed'
  · have hlen' : 3 ≤ length (trim itemName) := hlen
    show (s.requests.similar = [] ∨ s.isOpen = true ∧ 3 ≤ length (trim itemName) ∧
        s.origin.map Origin.name = some (trim itemName)) ↔
      (s.requests.similar = [] ∨ trim itemName = trim s.itemName ∨ length (trim itemName) < 3)
    constructor
    · rintro (hnil | ⟨-, -, hnew⟩)
      · exact .inl hnil
      · rcases h with hnil | ⟨-, -, hold⟩
        · exact .inl hnil
        · rw [hold] at hnew
          exact .inr (.inl (Option.some.inj hnew).symm)
    · rintro (hnil | hsame | hshort)
      · exact .inl hnil
      · rcases h with hnil | ⟨-, -, hold⟩
        · exact .inl hnil
        · exact .inr ⟨ho, hlen', by rw [hold, hsame]⟩
      · omega

/-- **one step keeps the suggestions those of the name in the form exactly if it meets the condition** -/
theorem belongs_step (hs : Sound s) (h : Belongs s) (hstep : s.step e = some t) :
    Belongs t ↔ Meets s e := by
  cases e with
  | typed itemName =>
    obtain ⟨ho, rfl⟩ := guarded hstep
    exact belongs_typed hs h ho itemName
  | opened =>
    obtain ⟨ho, rfl⟩ := guarded_not hstep
    refine iff_of_true (belongs_of_nil (similar_effect_nil ?_)) trivial
    exact h.closed (Bool.not_eq_true _ ▸ ho)
  | closed =>
    obtain ⟨-, rfl⟩ := guarded hstep
    exact iff_of_true (belongs_of_nil (similar_effect_nil rfl)) trivial
  | cancelled =>
    obtain ⟨ho, rfl⟩ := guarded hstep
    refine iff_of_true (belongs_of_nil (similar_effect_closed rfl fun hseen => ?_)) trivial
    have hseen' : s.seen = some (s.itemName, false) := hseen
    rw [hs.ran ho] at hseen'
    cases hseen'
  | effect =>
    obtain rfl := Option.some.inj hstep
    refine iff_of_true ?_ trivial
    cases ho : s.isOpen with
    | false => exact belongs_of_nil (similar_effect_closed ho fun _ => h.closed ho)
    | true =>
      have hid : s.effect = s := if_pos (by rw [hs.ran ho, ho])
      rw [hid]
      exact h
  | fires =>
    simp only [Page.step] at hstep
    split at hstep
    · obtain rfl := Option.some.inj hstep
      exact iff_of_true h trivial
    · cases hstep
  | answered itemName payload =>
    obtain ⟨hq, rfl⟩ := guarded hstep
    have hlen := hs.searching itemName hq
    show (payload = [] ∨ s.isOpen = true ∧ 3 ≤ length (trim s.itemName) ∧
        some itemName = some (trim s.itemName)) ↔
      (payload = [] ∨ s.isOpen = true ∧ itemName = trim s.itemName)
    constructor
    · rintro (hnil | ⟨ho, -, hname⟩)
      · exact .inl hnil
      · exact .inr ⟨ho, Option.some.inj hname⟩
    · rintro (hnil | ⟨ho, rfl⟩)
      · exact .inl hnil
      · exact .inr ⟨ho, hlen, rfl⟩
  | submitted =>
    obtain ⟨-, rfl⟩ := guarded hstep
    exact iff_of_true h trivial
  | created c payload =>
    obtain ⟨-, rfl⟩ := guarded hstep
    exact iff_of_true (belongs_of_nil rfl) trivial
  | done visit =>
    obtain ⟨-, rfl⟩ := guarded hstep
    exact iff_of_true (belongs_of_nil (similar_done s visit)) trivial
  | refused c payload =>
    obtain ⟨-, rfl⟩ := guarded hstep
    have hsimilar := similar_refused payload s.requests
    cases hex : payload.bind (·.existing) with
    | none =>
      rw [hex] at hsimilar
      refine iff_of_true ?_ (.inl hex)
      show (RequestsSlice.reducer s.requests (.createRejected payload)).similar = [] ∨ _
      rw [hsimilar]
      exact h
    | some existing =>
      rw [hex] at hsimilar
      show ((RequestsSlice.reducer s.requests (.createRejected payload)).similar = [] ∨
          s.isOpen = true ∧ 3 ≤ length (trim s.itemName) ∧
          some (trim c.itemName) = some (trim s.itemName)) ↔
        (payload.bind (·.existing) = none ∨
          s.isOpen = true ∧ trim c.itemName = trim s.itemName ∧ 3 ≤ length (trim s.itemName))
      rw [hsimilar, hex]
      constructor
      · rintro (hnil | ⟨ho, hlen, hname⟩)
        · cases hnil
        · exact .inr ⟨ho, Option.some.inj hname, hlen⟩
      · rintro (hnone | ⟨ho, hname, hlen⟩)
        · cases hnone
        · exact .inr ⟨ho, hlen, congrArg some hname⟩
  | joined payload =>
    obtain rfl := Option.some.inj hstep
    exact iff_of_true (belongs_of_nil rfl) trivial
  | offered =>
    obtain rfl := Option.some.inj hstep
    exact iff_of_true (belongs_of_nil rfl) trivial
  | left =>
    obtain rfl := Option.some.inj hstep
    show (s.requests.similar = [] ∨ false = true ∧ _) ↔ s.requests.similar = []
    simp
  | other a =>
    obtain ⟨ha, rfl⟩ := guarded hstep
    refine iff_of_true ?_ trivial
    show (RequestsSlice.reducer s.requests a).similar = [] ∨ _
    rw [similar_of_unrelated ha]
    exact h

/-! ## runs -/

/-- what fills `similar`, and with what -/
def Event.Shows (e : Event) (origin : Option Origin) (similar : List PurchaseRequest) : Prop :=
  (∃ itemName, e = .answered itemName similar ∧ origin = some (.search itemName)) ∨
    ∃ c payload existing, e = .refused c payload ∧ payload.bind (·.existing) = some existing ∧
      origin = some (.refusal c.itemName) ∧ similar = [{ existing with exact := some true }]

/-- the suggestions of a step are those of the last one, cleared, or what has just arrived -/
theorem shown_step (h : s.step e = some t) :
    t.requests.similar = [] ∨
      t.requests.similar = s.requests.similar ∧ t.origin = s.origin ∨
      e.Shows t.origin t.requests.similar := by
  have heffect : ∀ u : Page, u.requests.similar = s.requests.similar → u.origin = s.origin →
      u.effect.requests.similar = [] ∨
        u.effect.requests.similar = s.requests.similar ∧ u.effect.origin = s.origin := by
    intro u hsim ho
    rcases effect_cases u with ⟨-, he⟩ | ⟨-, ⟨-, he⟩ | ⟨-, -, he⟩⟩ <;> rw [he]
    · exact .inr ⟨hsim, ho⟩
    · exact .inl rfl
    · exact .inr ⟨hsim, ho⟩
  cases e with
  | typed itemName =>
    obtain ⟨-, rfl⟩ := guarded h
    exact (heffect { s with itemName := itemName } rfl rfl).imp_right .inl
  | opened =>
    obtain ⟨-, rfl⟩ := guarded_not h
    exact (heffect { s with isOpen := true } rfl rfl).imp_right .inl
  | closed =>
    obtain ⟨-, rfl⟩ := guarded h
    exact .inl (similar_effect_nil rfl)
  | cancelled =>
    obtain ⟨-, rfl⟩ := guarded h
    exact (heffect { s with isOpen := false } rfl rfl).imp_right .inl
  | effect =>
    obtain rfl := Option.some.inj h
    exact (heffect s rfl rfl).imp_right .inl
  | fires =>
    simp only [Page.step] at h
    split at h
    · obtain rfl := Option.some.inj h
      exact .inr (.inl ⟨rfl, rfl⟩)
    · cases h
  | answered itemName payload =>
    obtain ⟨-, rfl⟩ := guarded h
    exact .inr (.inr (.inl ⟨itemName, rfl, rfl⟩))
  | submitted =>
    obtain ⟨-, rfl⟩ := guarded h
    exact .inr (.inl ⟨rfl, rfl⟩)
  | created c payload =>
    obtain ⟨-, rfl⟩ := guarded h
    exact .inl rfl
  | done visit =>
    obtain ⟨-, rfl⟩ := guarded h
    exact .inl (similar_done s visit)
  | refused c payload =>
    obtain ⟨-, rfl⟩ := guarded h
    have hsimilar := similar_refused payload s.requests
    refine .inr ?_
    cases hex : payload.bind (·.existing) with
    | none =>
      rw [hex] at hsimilar
      exact .inl ⟨hsimilar, rfl⟩
    | some existing =>
      rw [hex] at hsimilar
      exact .inr (.inr ⟨c, payload, existing, rfl, hex, rfl, hsimilar⟩)
  | joined payload =>
    obtain rfl := Option.some.inj h
    exact .inl rfl
  | offered =>
    obtain rfl := Option.some.inj h
    exact .inl rfl
  | left =>
    obtain rfl := Option.some.inj h
    exact .inr (.inl ⟨rfl, rfl⟩)
  | other a =>
    obtain ⟨ha, rfl⟩ := guarded h
    exact .inr (.inl ⟨similar_of_unrelated ha s.requests, rfl⟩)

variable {steps : List (Page × Event)}

/-- what is suggested has arrived, as the answer or the refusal that `origin` says -/
theorem Trace.shown (h : Trace steps t) :
    t.requests.similar = [] ∨ ∃ x ∈ steps, x.2.Shows t.origin t.requests.similar := by
  induction h with
  | start => exact .inl rfl
  | @step steps s t e _ hs ih =>
    rcases shown_step hs with hnil | ⟨hsimilar, horigin⟩ | hshows
    · exact .inl hnil
    · rw [hsimilar, horigin]
      exact ih.imp_right fun ⟨x, hx, h⟩ => ⟨x, List.mem_cons_of_mem _ hx, h⟩
    · exact .inr ⟨_, List.mem_cons_self, hshows⟩

/-- then the button is withheld for the sake of the name in the form only -/
theorem Belongs.withheld (h : Belongs s) {r : PurchaseRequest} (hr : s.exactMatch = some r) :
    s.isOpen = true ∧ s.origin.map Origin.name = some (trim s.itemName) := by
  rcases h with hnil | ⟨ho, -, hname⟩
  · rw [Page.exactMatch, hnil] at hr
    cases hr
  · exact ⟨ho, hname⟩

/-- **Suggestions belong to the name on screen, unless** a name of three characters or more is typed over
those of another one, an answer arrives that is for another name or after the form was closed, so does
the refusal of a create that found a request (or it is of a shorter name), or the page is left while
some are shown.  Of every run of a tab: all its states are as they should be exactly if none of its steps
is of these. -/
theorem suggestions_belong_iff (h : Trace steps t) :
    ((∀ x ∈ steps, Belongs x.1) ∧ Belongs t) ↔ ∀ x ∈ steps, Meets x.1 x.2 := by
  induction h with
  | start => exact iff_of_true ⟨(fun _ hx => by cases hx), .inl rfl⟩ fun _ hx => by cases hx
  | @step steps s t e h hs ih =>
    rw [List.forall_mem_cons, List.forall_mem_cons, ← ih]
    constructor
    · rintro ⟨⟨hb, hall⟩, ht⟩
      exact ⟨(belongs_step (Sound.trace h) hb hs).mp ht, hall, hb⟩
    · rintro ⟨hm, hall, hb⟩
      exact ⟨⟨hb, hall⟩, (belongs_step (Sound.trace h) hb hs).mpr hm⟩

end

/-! ### two names -/

/-- the steps of a run, the last first, with the page before each -/
def visited (s : Page) (done : List (Page × Event)) :
    List Event → Option (List (Page × Event) × Page)
  | [] => some (done, s)
  | e :: rest =>
    match s.step e with
    | some t => visited t ((s, e) :: done) rest
    | none => none

theorem trace_visited {s t : Page} {done steps : List (Page × Event)} (h : Trace done s)
    (events : List Event) (hv : visited s done events = some (steps, t)) : Trace steps t := by
  induction events generalizing s done with
  | nil =>
    cases hv
    exact h
  | cons e rest ih =>
    simp only [visited] at hv
    split at hv
    · rename_i hs
      exact ih (h.step hs) hv
    · cases hv

def machine : PurchaseRequest := ⟨some "1", some true, ""⟩

/-- the name is typed, looked up and submitted, all in the open form -/
def patient : List Event :=
  [.effect, .opened, .typed "Espresso machine", .fires, .submitted,
    .answered "Espresso machine" [machine], .refused ⟨0, "Espresso machine"⟩ (some ⟨"", some machine⟩),
    .closed]

/-- the answer for the first name arrives after the one for the second -/
def hasty : List Event :=
  [.effect, .opened, .typed "Espresso machine", .fires, .typed "Grinder", .fires,
    .answered "Grinder" [], .answered "Espresso machine" [machine]]

theorem suggestions_belong_patient :
    ∃ steps t, Trace steps t ∧ steps.map Prod.snd = patient.reverse ∧
      (∀ x ∈ steps, Belongs x.1) ∧ Belongs t := by
  obtain ⟨⟨steps, t⟩, h, hevents, hmeets⟩ : ∃ x, visited Page.start [] patient = some x ∧
      x.1.map Prod.snd = patient.reverse ∧ ∀ y ∈ x.1, Meets y.1 y.2 :=
    ⟨_, rfl, by decide +kernel, by decide +kernel⟩
  have htrace := trace_visited .start _ h
  obtain ⟨hbelongs, ht⟩ := (suggestions_belong_iff htrace).mpr hmeets
  exact ⟨steps, t, htrace, hevents, hbelongs, ht⟩

/-- "Grinder" is in the form and no request is like it, yet none can be made -/
theorem suggestions_of_another :
    ∃ steps t, Trace steps t ∧ steps.map Prod.snd = hasty.reverse ∧ t.isOpen = true ∧
      t.itemName = "Grinder" ∧ t.exactMatch = some machine ∧ ¬Belongs t := by
  obtain ⟨⟨steps, t⟩, h, hlooks⟩ : ∃ x, visited Page.start [] hasty = some x ∧
      x.1.map Prod.snd = hasty.reverse ∧ x.2.isOpen = true ∧ x.2.itemName = "Grinder" ∧
      x.2.exactMatch = some machine ∧ ¬Belongs x.2 :=
    ⟨_, rfl, by decide +kernel⟩
  exact ⟨steps, t, trace_visited .start _ h, hlooks⟩

end Marketplace.Frontend.BrowseRequests
