import Marketplace.Lib.Paging
import Marketplace.Admin.Exposure

/-!
# admin-service: the list of grants, page by page

`GET /api/admin/contact-access` orders the grants by `granted_at` alone, and all grants of one approval
have the same one: the start of its transaction.

* `AccessFilter`, `Db.matching`   the filters of the query;
* `Page`, `pageParams`   a page as it may be asked for;
* `Lists`            what the query may answer: grants of one `granted_at` come in any order;
* `audit_pages_iff`  **read page by page the list is complete and repeats nothing exactly if no page
                     ends between two grants of one `granted_at`**;
* `audit_repeats`    one approval for two customers, and pages of one grant.
-/

set_option linter.unusedSectionVars false

namespace Marketplace.Admin

open ReadCommitted Interleave Service
open Paging

def AccessStatus.text : AccessStatus → String
  | .GRANTED => "GRANTED"
  | .REVOKED => "REVOKED"
  | .EXPIRED => "EXPIRED"

/-- the zero uuid and the empty text are no filters -/
structure AccessFilter where
  sellerID : UUID
  requestID : UUID
  status : String
  deriving DecidableEq, Repr

/-- `optionalText` -/
def optionalText (s : String) : Option String := if s = "" then none else some s

/-- `column = v`, or no filter -/
def ifGiven {α : Type} [DecidableEq α] (filter : Option α) (v : α) : Bool :=
  match filter with
  | none => true
  | some w => v == w

def AccessFilter.admits (f : AccessFilter) (a : ContactAccess) : Bool :=
  ifGiven (optionalUUID f.sellerID) a.sellerID && ifGiven (optionalUUID f.requestID) a.requestID &&
    ifGiven (optionalText f.status) a.status.text

def Db.matching (d : Db) (f : AccessFilter) : List ContactAccess := d.accesses.filter f.admits

/-! ## pages -/

structure PageSize where
  val : Nat
  pos : 1 ≤ val
  max : val ≤ 100

structure Page where
  limit : PageSize
  offset : Nat

/-- `pageParams`; what is no number of 32 bits is `none` -/
def pageParams (limit offset : Option Int) : Except String Page :=
  match limit with
  | none => .error "limit must be between 1 and 100"
  | some l =>
    if h : 1 ≤ l ∧ l ≤ 100 then
      match offset with
      | none => .error "offset must be zero or greater"
      | some o =>
        if o < 0 then .error "offset must be zero or greater"
        else .ok ⟨⟨l.toNat, by omega, by omega⟩, o.toNat⟩
    else .error "limit must be between 1 and 100"

/-- every page size from 1 to 100, and every offset, can be asked for -/
theorem pageParams_complete (pg : Page) :
    pageParams (some pg.limit.val) (some pg.offset) = .ok pg := by
  obtain ⟨⟨l, h1, h2⟩, o⟩ := pg
  have hl : 1 ≤ (l : Int) ∧ (l : Int) ≤ 100 := by omega
  simp only [pageParams, dif_pos hl, if_neg (show ¬(o : Int) < 0 by omega), Int.toNat_natCast]

def PageSize.page (size : PageSize) (k : Nat) : Page := ⟨size, k * size.val⟩

/-- `ListContactAccess` -/
def Lists (d : Db) (f : AccessFilter) (pg : Page) (rows : List ContactAccess) : Prop :=
  ∃ a, Sorts ContactAccess.grantedAt (d.matching f) a ∧
    rows = (a.drop pg.offset).take pg.limit.val

/-- every grant that matches is on one page, and on one only -/
def Complete (d : Db) (f : AccessFilter) (size : PageSize) : Prop :=
  ∀ answers : Nat → List ContactAccess, (∀ k, Lists d f (size.page k) (answers k)) →
    ∀ n, (d.matching f).length ≤ n * size.val →
      ((List.range n).flatMap answers).Perm (d.matching f)

section
variable {P E Y : Type} [DecidableEq P]

theorem nodup_matching {d : Db} (h : ∀ i, (d.rowsOf i).length ≤ 1) (f : AccessFilter) :
    (d.matching f).Nodup := by
  refine List.Nodup.filter _ (List.nodup_iff_count_le_one.mpr fun a => ?_)
  refine Nat.le_trans ?_ (h a.accessID)
  rw [List.count, Db.rowsOf, ← List.countP_eq_length_filter]
  refine List.countP_mono_left fun x _ hx => ?_
  rw [beq_iff_eq.mp hx]
  exact beq_self_eq_true _

/-- the answers to the queries, and the orders they were taken from -/
theorem complete_iff_orders {d : Db} {f : AccessFilter} {size : PageSize} :
    Complete d f size ↔ ∀ orders : Nat → List ContactAccess,
      (∀ k, Sorts ContactAccess.grantedAt (d.matching f) (orders k)) →
        ∀ n, (d.matching f).length ≤ n * size.val →
          (pages size.val orders n).Perm (d.matching f) := by
  constructor
  · exact fun h orders hs n hn =>
      h (fun k => page size.val k (orders k)) (fun k => ⟨orders k, hs k, rfl⟩) n hn
  · intro h answers ha n hn
    choose orders hs hrows using ha
    have hpages : (List.range n).flatMap answers = pages size.val orders n := by
      rw [funext hrows]
      rfl
    rw [hpages]
    exact h orders hs n hn

/-- **Reading the list page by page loses and repeats no grant, however the database orders grants of
one `granted_at`, exactly if no page ends between two of them**: for every table that a run leaves,
every filter and every page size. -/
theorem audit_pages_iff {out : Outside P E Y} {calls : P → Invocation} {e₀ : E} {σ : Config P E}
    (h : Runs (spec out).machine (start calls Db.empty e₀) σ) (f : AccessFilter) (size : PageSize) :
    Complete σ.state.store.committed f size ↔
      ¬Splits ContactAccess.grantedAt (σ.state.store.committed.matching f) size.val := by
  obtain ⟨hg, -, -⟩ := runs_good (Law.trivial out) trivial h
  have hnodup := nodup_matching hg.one f
  rw [complete_iff_orders]
  constructor
  · intro hc
    have hlen := Nat.le_mul_of_pos_right (σ.state.store.committed.matching f).length size.pos
    exact (pages_perm_iff hnodup size.pos hlen).mp fun orders hs => hc orders hs _ hlen
  · exact fun hsplit orders hs n hn => (pages_perm_iff hnodup size.pos hn).mpr hsplit orders hs

end

/-! ### an approval for two customers -/

def everything : AccessFilter := ⟨UUID.nil, UUID.nil, ""⟩

def single : PageSize := ⟨1, by decide, by decide⟩

/-- the grants of `approvalFirst` -/
def bothGrants : ContactAccess × ContactAccess :=
  (⟨5, 4, 1, 5, 50, .GRANTED, 9, 1, none⟩, ⟨6, 4, 2, 5, 50, .GRANTED, 9, 1, none⟩)

theorem approvalFirst_grants : ∃ σ : Config (Fin 3) Unit,
    Runs (spec Outside.neighbours).machine (start approval Db.empty ()) σ ∧
      σ.state.store.committed.accesses = [bothGrants.1, bothGrants.2] :=
  Runs.exists_of_run (M := (spec Outside.neighbours).machine) (σ := start approval Db.empty ())
    approvalFirst (f := fun σ => σ.state.store.committed.accesses)
    (b := [bothGrants.1, bothGrants.2]) (by decide)

theorem audit_pages_approval : ∃ σ : Config (Fin 3) Unit,
    Runs (spec Outside.neighbours).machine (start approval Db.empty ()) σ ∧
      (Complete σ.state.store.committed everything single ↔
        ¬Splits ContactAccess.grantedAt (σ.state.store.committed.matching everything) single.val) := by
  obtain ⟨σ, hr, -⟩ := approvalFirst_grants
  exact ⟨σ, hr, audit_pages_iff hr everything single⟩

/-- the two queries order the two grants differently: one of them is on both pages -/
theorem audit_repeats : ∃ σ : Config (Fin 3) Unit,
    Runs (spec Outside.neighbours).machine (start approval Db.empty ()) σ ∧
      ¬Complete σ.state.store.committed everything single := by
  obtain ⟨σ, hr, hrows⟩ := approvalFirst_grants
  refine ⟨σ, hr, fun hc => ?_⟩
  have hmatch : σ.state.store.committed.matching everything = [bothGrants.1, bothGrants.2] := by
    rw [Db.matching, hrows]
    decide
  have hperm := complete_iff_orders.mp hc
    (fun k => if k = 0 then [bothGrants.1, bothGrants.2] else [bothGrants.2, bothGrants.1])
  rw [hmatch] at hperm
  have h := hperm (fun k => ?_) 2 (by decide)
  · exact absurd h (by decide)
  · split
    · exact ⟨.refl _, by decide⟩
    · exact ⟨.swap _ _ _, by decide⟩

end Marketplace.Admin
