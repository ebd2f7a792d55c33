import Marketplace.System.Platform
import Marketplace.Admin.Lookups

/-!
# Revoking is effective

The grants are unique by offer and customer only.  That there is no second grant of a seller to a
customer about the same request, through another offer, rests on offer-service: a seller has at most
one live offer on a request, and an approved offer stays approved.

* `pendingService`   offer-service, as long as every update finds the row still PENDING.  Nothing in
                     the code checks this;
* `grants_one`       then there is at most one grant of a seller to a customer about a request;
* `revoke_effective` so a revoke is the end of it: no lookup that begins afterwards tells of it;
* `revoke_in_vain`   without the condition, a cancellation that overwrites the approval makes room for
                     a second offer and a second grant.
-/

set_option linter.unusedSectionVars false

namespace Marketplace.System

open Table Events ReadCommitted Interleave Service
open Offers (Decision OfferOut OfferStatus Offer Outside)
open Admin (ClientErr Customer Remote Reply Event Ext Law ContactAccess Grant Db AccessStep)

section
variable {O P : Type} [DecidableEq O] [DecidableEq P]
variable {calls : P → Admin.Invocation} {sellers : O → Offers.Invocation}

/-- offer-service, as long as every update finds the row still PENDING -/
def pendingService : OfferService O P := Offers.guarded Offers.Stmt.pending Outside.nothing

theorem strict_pending : Offers.Strict Offers.Stmt.pending := fun _ _ h => h

theorem offers_good {c : Offers.Config (O ⊕ P) Unit}
    (h : OffersRun pendingService calls sellers c) :
    Offers.Good c.state.store.committed c.state.store.log ∧
    ∀ t o, c.prog t = some (.ret (.ok o)) → Patched (Offers.Strict Offers.Stmt.pending)
      (Offers.Exact Offers.Stmt.pending) calls t c.state.store :=
  Offers.runs_ends (T := Offers.terms Offers.Stmt.pending Outside.nothing) Offers.good_empty
    (fun t => triple_routes Offers.sessions Offers.reports
      (fun _ _ => Offers.commits strict_pending) t) h

/-- the offer is still there, with the seller and the request that were read -/
def Known (info : OfferOut) (c : Offers.Config (O ⊕ P) Unit) : Prop :=
  ∃ row, c.state.store.committed.find info.offerID = some row ∧ row.sellerID = info.sellerID ∧
    row.requestID = info.requestID

theorem keeps_known (calls : P → Admin.Invocation) (sellers : O → Offers.Invocation) :
    Keeps (O := O) (P := P) pendingService calls sellers (fun _ info c => Known info c)
      fun _ _ => true where
  get {p o row c} _ _ hf := by
    refine ⟨row, ?_, rfl, rfl⟩
    show c.state.store.committed.find row.offerID = _
    rw [Offers.find_id hf, hf]
  step {p info w act c} hr _ _ hs h := by
    obtain ⟨row, hf, hsl, hrq⟩ := h
    rcases Spec.step_store hs with ⟨t, -, he⟩ | ⟨hc, -⟩
    · obtain ⟨hg, -⟩ := offers_good (hr.tail act hs)
      rw [he] at hg
      obtain ⟨row', hf', hsl', hrq'⟩ := (hg.steps _ List.mem_cons_self info.offerID).keeps hf
      refine ⟨row', ?_, hsl'.trans hsl, hrq'.trans hrq⟩
      rw [he]
      exact hf'
    · exact ⟨row, by rw [hc, hf], hsl, hrq⟩

/-! ## one grant -/

variable {e : Ext P (World O P)} {d : Db}

/-- what an approval has found in offer-service is so from then on -/
theorem approved_row (hl : Linked pendingService calls sellers (fun _ info c => Known info c) e)
    {p : P} {inp : Admin.DecideInput} {o : UUID} (hp : calls p = .decide inp)
    (ha : inp.decision = .APPROVED) (h : Admin.DecidedBy e.trace o d p inp) :
    ∃ (row : Offer) (ids : List UUID), e.out.offers.state.store.committed.find o = some row ∧
      row.status = .APPROVED ∧ ids.Nodup ∧
      d.grantsOf o = ids.map fun c => ⟨row.sellerID, c, row.requestID⟩ := by
  obtain ⟨info, ids, hget, -, -, hnd, hgr⟩ := h.approved ha
  obtain ⟨reply, hr⟩ := h.accepted
  obtain ⟨-, hid, row, hf, hsl, hrq⟩ := hl.got p o info hget
  obtain ⟨offer, ho⟩ := hl.accepted _ _ _ reply hr
  obtain ⟨hg, hends⟩ := offers_good hl.runs
  obtain ⟨i, c, hc, hw⟩ := hends _ offer ho p inp rfl hp
  have hm : c ∈ e.out.offers.state.store.log :=
    (List.mem_filter.mp (hc ▸ List.mem_singleton_self c)).1
  obtain ⟨row', hf', hst⟩ := Option.map_eq_some_iff.mp hw.status
  rw [ha] at hst
  have hne : row'.status ≠ .PENDING := by
    rw [hst]
    exact Decision.APPROVED.decides
  have hnow := Offers.frozen_along hg.chained (fun c hc => hg.steps c hc inp.offerID) hm hf' hne
  rw [h.offer] at hnow
  rw [hid, hnow] at hf
  obtain rfl := Option.some.inj hf
  refine ⟨row', ids, hnow, hst, hnd, hgr.trans (List.map_congr_left fun c _ => ?_)⟩
  rw [Admin.grantFor, hsl, hrq]

theorem mem_grantsOf {a : ContactAccess} (h : a ∈ d.accesses) : a.grant ∈ d.grantsOf a.offerID :=
  List.mem_map_of_mem (List.mem_filter.mpr ⟨h, by simp⟩)

/-- two grants of a seller to a customer about a request come from the same offer -/
theorem same_offer (hl : Linked pendingService calls sellers (fun _ info c => Known info c) e)
    (hd : ∀ o, Admin.DecidedAt calls e.trace o d) {a b : ContactAccess} (ha : a ∈ d.accesses)
    (hb : b ∈ d.accesses) (h : a.grant = b.grant) : a.offerID = b.offerID := by
  have row : ∀ x ∈ d.accesses, ∃ row : Offer,
      e.out.offers.state.store.committed.find x.offerID = some row ∧ row.status = .APPROVED ∧
      x.grant.sellerID = row.sellerID ∧ x.grant.requestID = row.requestID := by
    intro x hx
    have hne : d.accessesOf x.offerID ≠ [] :=
      List.ne_nil_of_mem (List.mem_filter.mpr ⟨hx, by simp⟩)
    obtain ⟨p, inp, hp, hap, hby⟩ := (hd x.offerID).approved_by hne
    obtain ⟨row, ids, hf, hst, -, hgr⟩ := approved_row hl hp hap hby
    have hm := mem_grantsOf hx
    rw [hgr] at hm
    obtain ⟨c, -, hc⟩ := List.mem_map.mp hm
    exact ⟨row, hf, hst, by rw [← hc], by rw [← hc]⟩
  obtain ⟨ra, hfa, hsa, hla, hra⟩ := row a ha
  obtain ⟨rb, hfb, hsb, hlb, hrb⟩ := row b hb
  obtain ⟨hg, -⟩ := offers_good hl.runs
  refine (hg.live ra.sellerID ra.requestID).unique hfa hfb ?_ ?_ (by rw [hsa]; rfl) (by rw [hsb]; rfl)
  · rw [← hlb, ← hla, h]
  · rw [← hrb, ← hra, h]

/-- **one grant of a seller to a customer about a request** -/
theorem grants_one (hl : Linked pendingService calls sellers (fun _ info c => Known info c) e)
    (hd : ∀ o, Admin.DecidedAt calls e.trace o d) (g : Grant) :
    (d.accesses.filter fun a => a.grant = g).length ≤ 1 := by
  cases h : d.accesses.filter fun a => a.grant = g with
  | nil => exact Nat.zero_le 1
  | cons a as =>
    have hm : a ∈ d.accesses.filter fun a => a.grant = g := by
      rw [h]
      exact List.mem_cons_self
    have ha : a ∈ d.accesses ∧ a.grant = g := by simpa using List.mem_filter.mp hm
    have hsame : (d.accesses.filter fun a => a.grant = g) =
        (d.accessesOf a.offerID).filter fun a => a.grant = g := by
      rw [Db.accessesOf, List.filter_filter]
      refine List.filter_congr fun b hb => ?_
      by_cases e : b.grant = g
      · simp [e, (same_offer hl hd ha.1 hb (ha.2.trans e.symm)).symm]
      · simp [e]
    have hne : d.accessesOf a.offerID ≠ [] :=
      List.ne_nil_of_mem (List.mem_filter.mpr ⟨ha.1, by simp⟩)
    obtain ⟨p, inp, hp, hap, hby⟩ := (hd a.offerID).approved_by hne
    obtain ⟨row, ids, -, -, hnd, hgr⟩ := approved_row hl hp hap hby
    have hn : (d.grantsOf a.offerID).Nodup := by
      rw [hgr]
      exact hnd.map fun c c' e => congrArg Grant.customerID e
    have hcount : ((d.accessesOf a.offerID).filter fun a => a.grant = g).length =
        (d.grantsOf a.offerID).count g := by
      rw [Db.grantsOf, List.count, List.countP_map, List.countP_eq_length_filter]
      exact congrArg List.length (List.filter_congr fun b _ => (beq_eq_decide _ _).symm)
    rw [← h, hsame, hcount]
    exact List.nodup_iff_count_le_one.mp hn g

/-! ## a withdrawn row -/

theorem AccessStep.kept {inv : Admin.Invocation} {d e : Db} (h : AccessStep inv d e)
    {a : ContactAccess} (ha : a ∈ d.accesses) (hs : a.status ≠ .GRANTED) : a ∈ e.accesses := by
  cases inv with
  | decide inp =>
    obtain ⟨new, hn, -⟩ := h
    rw [hn]
    exact List.mem_append_left _ ha
  | revoke i =>
    rcases h with h | h
    · rwa [h]
    · rw [h, mem_updateWhere]
      exact ⟨a, ha, by simp [hs]⟩
  | contactsForRequest u r => exact (show e.accesses = d.accesses from h) ▸ ha
  | hasContactAccess sl c r => exact (show e.accesses = d.accesses from h) ▸ ha

/-- a row that is not in force stays in the table as it is -/
theorem kept_along {log : List (Commit P Db)} {d e : Db} (hch : Chained d log e)
    (hs : ∀ c ∈ log, AccessStep (calls c.tx) c.before c.after) {c : Commit P Db} (hc : c ∈ log)
    {a : ContactAccess} (ha : a ∈ c.after.accesses) (hne : a.status ≠ .GRANTED) :
    a ∈ e.accesses := by
  induction log generalizing e with
  | nil => cases hc
  | cons c' log ih =>
    obtain ⟨rfl, hch⟩ := hch
    rcases List.mem_cons.mp hc with rfl | hc
    · exact ha
    · exact AccessStep.kept (hs c' List.mem_cons_self)
        (ih hch (fun c hc => hs c (List.mem_cons_of_mem _ hc)) hc) hne

/-- where there is one grant, and it is withdrawn, there is none in force -/
theorem none_granted {a b : ContactAccess}
    (hone : (d.accesses.filter fun x => x.grant = a.grant).length ≤ 1) (ha : a ∈ d.accesses)
    (hs : a.status ≠ .GRANTED) (hb : b ∈ d.accesses) (hg : b.grant = a.grant) :
    b.status ≠ .GRANTED := by
  have hm : ∀ x ∈ d.accesses, x.grant = a.grant → x ∈ d.accesses.filter fun x => x.grant = a.grant :=
    fun x hx hxg => List.mem_filter.mpr ⟨hx, by simpa using hxg⟩
  have hb' := hm b hb hg
  rw [eq_singleton hone (hm a ha rfl), List.mem_singleton] at hb'
  rwa [hb']

theorem mem_listGranted {s r : UUID} {now : Time} {b : ContactAccess}
    (h : b ∈ d.listGranted s r now) :
    b ∈ d.accesses ∧ b.sellerID = s ∧ b.requestID = r ∧ b.status = .GRANTED := by
  rw [Db.listGranted, List.mem_insertionSort] at h
  obtain ⟨hm, hc⟩ := List.mem_filter.mp h
  simp only [Bool.and_eq_true, beq_iff_eq] at hc
  exact ⟨hm, hc.1.1.1, hc.1.1.2, hc.1.2⟩

/-! ## every run -/

/-- admin-service over this offer-service -/
def platform : Spec P Db Admin.Write Admin.Lock (Ext P (World O P)) (Net O P) Admin.Row Reply :=
  Admin.spec (outside pendingService fun _ _ => true)

abbrev Reached (calls : P → Admin.Invocation) (sellers : O → Offers.Invocation)
    (σ : Admin.Config P (World O P)) : Prop :=
  Runs platform.machine (Admin.start calls Db.empty (World.start calls sellers)) σ

variable {σ τ : Admin.Config P (World O P)}

theorem reached_inv (h : Reached calls sellers σ) :
    (Admin.terms calls (law (keeps_known calls sellers))).Inv σ.state ∧
    ∀ p a, σ.prog p = some (.ret (.ok a)) →
      Admin.Answered (calls p) a p σ.state.store (σ.state.ext.trace p) :=
  Admin.runs_inv linked_start h

/-- after a revoke there is no grant in force any more -/
theorem revoked_for_good (h : Reached calls sellers σ) (hr : Runs platform.machine σ τ) {p : P}
    {i : UUID} {a : ContactAccess} (hp : calls p = .revoke i)
    (ha : σ.prog p = some (.ret (.ok (.revoked a)))) :
    ∀ b ∈ τ.state.store.committed.accesses, b.grant = a.grant → b.status ≠ .GRANTED := by
  have hans := (reached_inv h).2 p _ ha
  rw [hp] at hans
  obtain ⟨c, hc, -, hafter, row, hrow, hst, rfl⟩ := hans
  obtain ⟨hg, hl⟩ := (reached_inv (h.trans hr)).1.holds
  have hmem : row.revoked ∈ c.after.accesses := by
    have hm : row ∈ c.before.rowsOf i := hrow ▸ List.mem_singleton_self row
    obtain ⟨hm, hid⟩ := List.mem_filter.mp hm
    rw [hafter]
    exact mem_updateWhere.mpr ⟨row, hm, by simp [hst, beq_iff_eq.mp hid]⟩
  have hlog : c ∈ τ.state.store.log := by
    obtain ⟨new, hn⟩ := Spec.runs_log hr
    rw [hn]
    exact List.mem_append_right _ hc
  have hnow := kept_along hg.chained hg.steps hlog hmem (fun e => nomatch e)
  exact fun b hb hgr => none_granted (grants_one hl hg.decided _) hnow (fun e => nomatch e) hb hgr

theorem peeking_start {q : P} (hq : (calls q).isLookup = true) :
    Admin.Peeking q (Admin.start calls Db.empty (World.start calls sellers)) := by
  refine ⟨fun m hm => ?_, rfl⟩
  obtain rfl := Option.some.inj hm
  exact Admin.only_lookup hq

/-- what a lookup reads that has not begun yet was committed in this state or later -/
theorem reads_later (h : Reached calls sellers σ) (hr : Runs platform.machine σ τ) {q : P}
    (hq : (calls q).isLookup = true) (h₀ : σ.state.ext.trace q = []) (ev : Event)
    (hev : ev ∈ τ.state.ext.trace q) {d : Db} (hd : ev.readOf = some d) :
    ∃ υ, Runs platform.machine σ υ ∧ υ.state.store.committed = d := by
  have hinv : ∀ υ, Reached calls sellers υ → (Admin.terms calls
      (law (keeps_known calls sellers))).Inv υ.state :=
    fun υ hυ => (reached_inv hυ).1
  obtain ⟨hp, -⟩ := Admin.Peeking.runs (peeking_start hq) hinv h
  obtain ⟨-, hread⟩ := hp.runs (fun υ hυ => hinv υ (h.trans hυ)) hr
  rcases hread ev hev with hm | hm
  · rw [h₀] at hm
    exact absurd hm List.not_mem_nil
  · exact hm d hd

/-- **Revoking is effective.**  In every run of any number of routes of offer-service and calls of
admin-service in which every update of an offer finds the row still PENDING: at most one grant of a
seller to a customer about a request is in force; and once a `Revoke` has returned a success, there
is none in force any more, no contact lookup that begins afterwards returns the customer to this
seller for this request, and no permission check that begins afterwards answers true. -/
theorem revoke_effective (calls : P → Admin.Invocation) (sellers : O → Offers.Invocation)
    (h : Reached calls sellers σ) :
    (∀ g : Grant, (σ.state.store.committed.accesses.filter fun a =>
      a.grant = g && a.status = .GRANTED).length ≤ 1) ∧
    ∀ p i a, calls p = .revoke i → σ.prog p = some (.ret (.ok (.revoked a))) →
      ∀ τ, Runs platform.machine σ τ →
        (∀ b ∈ τ.state.store.committed.accesses, b.grant = a.grant → b.status ≠ .GRANTED) ∧
        (∀ q u cs, calls q = .contactsForRequest u a.requestID → σ.state.ext.trace q = [] →
          τ.prog q = some (.ret (.ok (.contacts cs))) →
          (τ.state.ext.trace q).head? = some (.remote (.resolveSellerID u) (.ok a.sellerID)) →
          a.customerID ∉ cs.map (·.customerID)) ∧
        (∀ q b, calls q = .hasContactAccess a.sellerID a.customerID a.requestID →
          a.requestID ≠ UUID.nil → σ.state.ext.trace q = [] →
          τ.prog q = some (.ret (.ok (.access b))) → b = false) := by
  refine ⟨fun g => ?_, fun p i a hp ha τ hr => ⟨revoked_for_good h hr hp ha,
    fun q u cs hq h₀ hcs hs => ?_, fun q b hq hne h₀ hb => ?_⟩⟩
  · obtain ⟨hg, hl⟩ := (reached_inv h).1.holds
    refine Nat.le_trans ?_ (grants_one hl hg.decided g)
    exact (List.monotone_filter_right _ fun a ha => (Bool.and_eq_true_iff.mp ha).1).length_le
  · have hans := (reached_inv (h.trans hr)).2 q _ hcs
    rw [hq] at hans
    obtain ⟨sl, d, now, hops, ⟨hes, -⟩, -, hmap⟩ := hans
    rw [hes, List.head?_cons] at hs
    cases hs
    obtain ⟨υ, hυ, rfl⟩ := reads_later h hr (by rw [hq]; rfl) h₀ (.listed d now)
      (by rw [hes]; simp) rfl
    rw [hmap]
    intro hm
    obtain ⟨b, hb, hbc⟩ := List.mem_map.mp hm
    obtain ⟨hb, hsl, hrq, hst⟩ := mem_listGranted hb
    refine revoked_for_good h hυ hp ha b hb ?_ hst
    rw [ContactAccess.grant, ContactAccess.grant, hsl, hbc, hrq]
  · have hans := (reached_inv (h.trans hr)).2 q _ hb
    rw [hq] at hans
    obtain ⟨d, now, hes, hiff⟩ := hans
    obtain ⟨υ, hυ, rfl⟩ := reads_later h hr (by rw [hq]; rfl) h₀ (.counted d now)
      (by rw [hes]; simp) rfl
    by_contra hne'
    obtain ⟨g, hg, hgc⟩ := (hiff hne).mp (by simpa using hne')
    obtain ⟨hg, hsl, hrq, hst⟩ := mem_listGranted hg
    refine revoked_for_good h hυ hp ha g hg ?_ hst
    rw [ContactAccess.grant, ContactAccess.grant, hsl, hgc, hrq]

end

/-! ## two offers of a seller on one request -/

/-- an offer, its cancellation, and another offer -/
def offering : Fin 3 → Offers.Invocation
  | 0 => .createOffer 4 5 ⟨10, 250, "EUR", ""⟩ [] [] ""
  | 1 => .cancelOffer 50 4
  | 2 => .createOffer 4 5 ⟨10, 300, "EUR", ""⟩ [] [] ""

/-- both offers are approved, the first grant is revoked, and the permission is checked -/
def reviewing : Fin 4 → Admin.Invocation
  | 0 => .decide ⟨50, 9, .APPROVED, ""⟩
  | 1 => .decide ⟨51, 9, .APPROVED, ""⟩
  | 2 => .revoke 7
  | 3 => .hasContactAccess 4 1 5

/-- one customer is behind the request, and the seller's user is not known -/
def calm (act : Act (Fin 3 ⊕ Fin 4) (Choice Unit)) : Net (Fin 3) (Fin 4) :=
  ⟨false, act, .ok [1], .error .unavailable, .error .unavailable, .error .unavailable⟩

/-- moves of a route of offer-service; a new offer gets the id `i` -/
def moves (n : Nat) (t : Fin 3 ⊕ Fin 4) (i : UUID) : List (Act (Fin 4) (Choice (Net (Fin 3) (Fin 4)))) :=
  List.replicate n (.env ⟨.none, 0, 0, 0, calm (.exec t ⟨.none, i, 0, 1, ()⟩)⟩)

/-- moves of a call of admin-service; new rows get the id `i` -/
def acts (n : Nat) (p : Fin 4) (i : UUID) : List (Act (Fin 4) (Choice (Net (Fin 3) (Fin 4)))) :=
  List.replicate n (.exec p ⟨.none, i, i, 1, calm (.crash (.inr p))⟩)

/-- an approval from the `GET` to the commit -/
def approves (p : Fin 4) (i : UUID) : List (Act (Fin 4) (Choice (Net (Fin 3) (Fin 4)))) :=
  acts 7 p i ++ moves 8 (.inr p) 0 ++ acts 2 p i

/-- an offer is made, approved, and its grant revoked -/
def revokedOnce : List (Act (Fin 4) (Choice (Net (Fin 3) (Fin 4)))) :=
  moves 8 (.inl 0) 50 ++ approves 0 7 ++ acts 3 2 0

/-- the cancellation loads the offer before it is approved, and writes afterwards -/
def grantedTwice : List (Act (Fin 4) (Choice (Net (Fin 3) (Fin 4)))) :=
  moves 8 (.inl 0) 50 ++ moves 2 (.inl 1) 0 ++ approves 0 7 ++ moves 6 (.inl 1) 0 ++
    moves 8 (.inl 2) 51 ++ approves 1 8

theorem revoke_effective_once :
    ∃ σ τ, Reached reviewing offering σ ∧ Runs platform.machine σ τ ∧
      (∃ a, σ.prog 2 = some (.ret (.ok (.revoked a))) ∧ a.grant = ⟨4, 1, 5⟩) ∧
      τ.prog 3 = some (.ret (.ok (.access false))) := by
  let a : ContactAccess := ⟨7, 4, 1, 5, 50, .REVOKED, 9, 1, none⟩
  obtain ⟨σ, hr, hσ⟩ := Runs.exists_of_run
    (M := (platform (O := Fin 3) (P := Fin 4)).machine)
    (σ := Admin.start reviewing Db.empty (World.start reviewing offering)) revokedOnce
    (f := fun σ => (Admin.answerOf σ 2, (σ.state.ext.trace 3).length,
      (platform.machine.run σ (acts 1 3 0)).map fun τ => (Admin.answerOf τ 3).isSome))
    (b := (some (.revoked a), 0, some true)) (by decide)
  simp only [Prod.mk.injEq] at hσ
  obtain ⟨h1, h2, h3⟩ := hσ
  obtain ⟨τ, hr', hτ⟩ := Runs.exists_of_run _ h3
  have ha := Admin.answerOf_eq h1
  obtain ⟨ans, hans⟩ := Option.isSome_iff_exists.mp hτ
  have hp := Admin.answerOf_eq hans
  obtain ⟨-, hall⟩ := revoke_effective reviewing offering hr
  obtain ⟨-, -, hcheck⟩ := hall 2 7 a rfl ha τ hr'
  have hshape := (reached_inv (hr.trans hr')).2 3 ans hp
  match ans with
  | .access b =>
    obtain rfl := hcheck 3 b rfl (by decide) (List.length_eq_zero_iff.mp h2) hp
    exact ⟨σ, τ, hr, hr', ⟨a, ha, rfl⟩, hp⟩

/-- without the condition there are two grants in force, and after a revoke the check still
answers true -/
theorem revoke_in_vain :
    ∃ σ τ υ : Admin.Config (Fin 4) (World (Fin 3) (Fin 4)),
      Runs (Admin.spec (outside (Offers.spec Outside.nothing) fun _ _ => true)).machine
        (Admin.start reviewing Db.empty (World.start reviewing offering)) σ ∧
      (σ.state.store.committed.accesses.filter fun a =>
        a.grant = ⟨4, 1, 5⟩ && a.status = .GRANTED).length = 2 ∧
      Runs (Admin.spec (outside (Offers.spec Outside.nothing) fun _ _ => true)).machine σ τ ∧
      (∃ a, τ.prog 2 = some (.ret (.ok (.revoked a))) ∧ a.grant = ⟨4, 1, 5⟩) ∧
      τ.state.ext.trace 3 = [] ∧
      Runs (Admin.spec (outside (Offers.spec Outside.nothing) fun _ _ => true)).machine τ υ ∧
      υ.prog 3 = some (.ret (.ok (.access true))) := by
  let M := (Admin.spec (outside (O := Fin 3) (P := Fin 4) (Offers.spec Outside.nothing)
    fun _ _ => true)).machine
  let a : ContactAccess := ⟨7, 4, 1, 5, 50, .REVOKED, 9, 1, none⟩
  obtain ⟨σ, hr, hσ⟩ := Runs.exists_of_run (M := M)
    (σ := Admin.start reviewing Db.empty (World.start reviewing offering)) grantedTwice
    (f := fun σ => ((σ.state.store.committed.accesses.filter fun a =>
        a.grant = ⟨4, 1, 5⟩ && a.status = .GRANTED).length,
      (M.run σ (acts 3 2 0)).map fun τ => (Admin.answerOf τ 2, (τ.state.ext.trace 3).length,
        (M.run τ (acts 1 3 0)).map fun υ => Admin.answerOf υ 3)))
    (b := (2, some (some (.revoked a), 0, some (some (.access true))))) (by decide)
  simp only [Prod.mk.injEq] at hσ
  obtain ⟨h1, h2⟩ := hσ
  obtain ⟨τ, hr', hτ⟩ := Runs.exists_of_run _ h2
  simp only [Prod.mk.injEq] at hτ
  obtain ⟨h3, h4, h5⟩ := hτ
  obtain ⟨υ, hr'', hυ⟩ := Runs.exists_of_run _ h5
  exact ⟨σ, τ, υ, hr, h1, hr', ⟨a, Admin.answerOf_eq h3, rfl⟩, List.length_eq_zero_iff.mp h4, hr'',
    Admin.answerOf_eq hυ⟩

end Marketplace.System
