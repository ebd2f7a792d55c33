import Marketplace.Offers.Session

/-!
# offer-service: which commits move the number of live offers

* `RequestKept d e`      an offer that is found in `d` is found in `e`, on the same request;
* `Invocation.Moves`     the requests on which an operation may change the number of live offers;
* `Wrote.moves`          **no operation moves the number on another request**.
-/

set_option linter.unusedSectionVars false

namespace Marketplace.Offers

open Table ReadCommitted Interleave Service

/-! ## offers keep their request -/

def RequestKept (d e : Db) : Prop :=
  ∀ i o, d.find i = some o → ∃ o', e.find i = some o' ∧ o'.requestID = o.requestID

theorem RequestKept.refl (d : Db) : RequestKept d d := fun _ o h => ⟨o, h, rfl⟩

theorem RequestKept.trans {a b c : Db} (h : RequestKept a b) (h' : RequestKept b c) :
    RequestKept a c := by
  intro i o ho
  obtain ⟨o', ho', he⟩ := h i o ho
  obtain ⟨o'', ho'', he'⟩ := h' i o' ho'
  exact ⟨o'', ho'', he'.trans he⟩

theorem requestKept_apply (w : Write) (d : Db) : RequestKept d (w.apply d) := by
  intro i o ho
  cases w with
  | insertOffer o' =>
    refine ⟨o, ?_, rfl⟩
    show (d.offers ++ [o']).find? _ = _
    rw [List.find?_append]
    show (d.find i).or _ = _
    rw [ho]
    rfl
  | updateOffer old set now =>
    rw [find_eq] at ho
    refine ⟨if old.isRow o then o.updated set now else o, ?_, ?_⟩
    · rw [find_eq]
      show ((updateWhere _ _ d.offers).filter _).head? = _
      rw [filter_updateWhere _ _ _ (by intro x _; rfl), updateWhere, List.head?_map]
      show (d.rowsOf i).head?.map _ = _
      rw [ho]
      rfl
    · split <;> rfl
  | insertImage oi => exact ⟨o, ho, rfl⟩
  | updateImage j data now => exact ⟨o, ho, rfl⟩
  | insertOutbox row => exact ⟨o, ho, rfl⟩

theorem requestKept_applyAll (ws : List Write) (d : Db) : RequestKept d (applyAll ws d) :=
  applyAll_rel RequestKept RequestKept.refl (fun _ _ _ => RequestKept.trans) ws
    (fun w _ d => requestKept_apply w d) d

/-! ## the number of live offers -/

theorem countLive_congr {d e : Db} (h : e.offers = d.offers) (r : UUID) :
    e.countLive r = d.countLive r := by
  rw [Db.countLive, h, Db.countLive]

theorem countLive_insertOffer {o : Offer} {r : UUID} (h : o.requestID ≠ r) (d : Db) :
    (Write.apply (.insertOffer o) d).countLive r = d.countLive r := by
  show ((d.offers ++ [o]).filter _).length = _
  rw [List.filter_append]
  simp [Db.countLive, h]

/-- an update that moves the number is one on the request, and sets the status -/
theorem countLive_updateOffer {old : Offer} {set : Columns} {now : Time} {r : UUID}
    (h : old.requestID ≠ r ∨ set.status = none) (d : Db) :
    (Write.apply (.updateOffer old set now) d).countLive r = d.countLive r := by
  show ((updateWhere _ _ d.offers).filter _).length = _
  rw [filter_updateWhere, updateWhere, List.length_map]
  · rfl
  · intro o ho
    simp only [Offer.isRow, Bool.and_eq_true, beq_iff_eq] at ho
    rw [updated_requestID, live_updated]
    rcases h with h | h
    · have hne : (old.requestID == r) = false := beq_eq_false_iff_ne.mpr h
      rw [ho.1.2, hne]
      rfl
    · rw [h]
      rfl

/-! ## the operations -/

/-- the requests on which an operation on the offer `i` may change the number -/
def Invocation.Moves (inv : Invocation) (i : UUID) (d : Db) (r : UUID) : Prop :=
  match inv with
  | .createOffer _ r' _ _ _ _ => r' = r
  | .updateOffer _ _ _ _ _ => False
  | .cancelOffer _ _ => ∃ o, d.find i = some o ∧ o.requestID = r
  | .setStatus _ _ => ∃ o, d.find i = some o ∧ o.requestID = r

section
variable {P : Type} [DecidableEq P] {strict exact : Prop} {p : P} {i : UUID}

theorem Flushed.countLive {loaded : Offer} {set : Columns} {rest : List Write} {s : St P}
    (h : Flushed strict exact p loaded set rest s)
    (hrest : ∀ w ∈ rest, w.besides loaded.offerID) :
    ∃ old, s.committed.find loaded.offerID = some old ∧ ∀ r,
      old.requestID ≠ r ∨ (set.changed loaded).status = none →
        (s.view p).countLive r = s.committed.countLive r := by
  obtain ⟨old, now, hf, -, ho, -⟩ := h.offers hrest
  refine ⟨old, hf, fun r hr => ?_⟩
  rw [countLive_congr ho]
  exact countLive_updateOffer hr _

theorem Wrote.moves {inv : Invocation} {c : Commit P Db} (h : Wrote strict exact p i inv c)
    {r : UUID} (hr : c.after.countLive r ≠ c.before.countLive r) : inv.Moves i c.before r := by
  obtain ⟨s, hready, hb, ha⟩ := h
  rw [ha, hb] at hr
  rw [hb]
  -- an update of one offer
  have updated : ∀ {loaded : Offer} {set : Columns} {rest : List Write}, loaded.offerID = i →
      Flushed strict exact p loaded set rest s → (∀ w ∈ rest, w.besides loaded.offerID) →
      (∃ o, s.committed.find i = some o ∧ o.requestID = r) ∧
        (set.changed loaded).status ≠ none := by
    intro loaded set rest hid hf hrest
    obtain ⟨old, hold, hsame⟩ := hf.countLive hrest
    refine ⟨⟨old, hid ▸ hold, ?_⟩, fun hn => hr (hsame r (.inr hn))⟩
    by_contra hne
    exact hr (hsame r (.inl hne))
  cases inv with
  | createOffer sl r' t as im ty =>
    obtain ⟨o, -, -, rfl, -, -, hcr⟩ := hready
    by_contra hne
    exact hr ((countLive_congr hcr.offers r).trans (countLive_insertOffer hne _))
  | updateOffer j sl t im ty =>
    obtain ⟨-, loaded, rest, rfl, hrest, hf, -⟩ := hready
    have hset : (t.columnsWith im ty).status = none := by
      unfold Terms.columnsWith
      split <;> rfl
    refine (updated rfl hf hrest).2 ?_
    rw [Columns.changed, hset]
    rfl
  | cancelOffer j sl =>
    obtain ⟨-, loaded, hid, -, hf⟩ := hready
    exact (updated hid hf (by simp)).1
  | setStatus j st =>
    obtain ⟨-, loaded, hid, -, hf⟩ := hready
    exact (updated hid hf (by simp)).1

end

end Marketplace.Offers
