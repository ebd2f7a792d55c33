import Marketplace.Auth.Service

/-!
# auth-service: what transactions do to the tokens

No operation removes a token, moves it to another hash or another user, or takes back that it is
revoked.  This is followed through every transaction, together with what its process has read
before.

* `Grows d e`        all the tokens of `d` are in `e`, and the revoked ones are still revoked;
* `Keyed d`          ids and hashes are unique;
* `Write.on`         a write, seen by one row;  `applyAll_updates`  a list of updates, row by row;
* `Revokes d w`      an update that revokes a row of `d` and leaves its user alone;
* `Fresh p row`      the row may be inserted: its id and its hash are locked and not in use.
-/

set_option linter.unusedSectionVars false

namespace Marketplace.Auth

open Table ReadCommitted Interleave Service

/-! ## contents -/

/-- the rows of `d` are in `e`, with their ids, hashes and users; what is revoked stays revoked -/
def Grows (d e : Db) : Prop :=
  ∀ t ∈ d.tokens, ∃ t' ∈ e.tokens, t'.tokenID = t.tokenID ∧ t'.tokenHash = t.tokenHash ∧
    t'.userID = t.userID ∧ (t.revoked = true → t'.revoked = true)

theorem Grows.refl (d : Db) : Grows d d := fun t ht => ⟨t, ht, rfl, rfl, rfl, id⟩

theorem Grows.trans {c d e : Db} (h : Grows c d) (h' : Grows d e) : Grows c e := by
  intro t ht
  obtain ⟨t', ht', hi, hh, hu, hr⟩ := h t ht
  obtain ⟨t'', ht'', hi', hh', hu', hr'⟩ := h' t' ht'
  exact ⟨t'', ht'', hi'.trans hi, hh'.trans hh, hu'.trans hu, fun e => hr' (hr e)⟩

/-- the primary key, and the unique index on token_hash -/
structure Keyed (d : Db) : Prop where
  ids : ∀ i, (d.rowsOf i).length ≤ 1
  hashes : ∀ h, (d.rowsWith h).length ≤ 1

theorem eq_of_length {α : Type} {l : List α} {a b : α} (h : l.length ≤ 1) (ha : a ∈ l)
    (hb : b ∈ l) : a = b := by
  rw [Table.eq_singleton h ha] at hb
  exact (List.mem_singleton.mp hb).symm

namespace Keyed
variable {d : Db} {t t' : RefreshToken}

theorem of_id (h : Keyed d) (ht : t ∈ d.tokens) (ht' : t' ∈ d.tokens)
    (e : t.tokenID = t'.tokenID) : t = t' :=
  eq_of_length (h.ids t'.tokenID) (List.mem_filter.mpr ⟨ht, by simp [e]⟩)
    (List.mem_filter.mpr ⟨ht', by simp⟩)

theorem of_hash (h : Keyed d) (ht : t ∈ d.tokens) (ht' : t' ∈ d.tokens)
    (e : t.tokenHash = t'.tokenHash) : t = t' :=
  eq_of_length (h.hashes t'.tokenHash) (List.mem_filter.mpr ⟨ht, by simp [e]⟩)
    (List.mem_filter.mpr ⟨ht', by simp⟩)

end Keyed

theorem find_mem {d : Db} {i : UUID} {t : RefreshToken} (h : d.find i = some t) :
    t ∈ d.tokens ∧ t.tokenID = i :=
  ⟨List.mem_of_find?_eq_some h, by
    simpa using List.find?_some (p := fun x : RefreshToken => x.tokenID == i) h⟩

theorem findByTokenHash_mem {d : Db} {h : String} {t : RefreshToken}
    (ht : d.findByTokenHash h = some t) : t ∈ d.tokens ∧ t.tokenHash = h :=
  ⟨List.mem_of_find?_eq_some ht, by
    simpa using List.find?_some (p := fun x : RefreshToken => x.tokenHash == h) ht⟩

theorem find_none {d : Db} {i : UUID} (h : d.find i = none) : d.rowsOf i = [] :=
  List.filter_eq_nil_iff.mpr fun t ht => List.find?_eq_none.mp h t ht

theorem findByTokenHash_none {d : Db} {h : String} (hn : d.findByTokenHash h = none) :
    d.rowsWith h = [] :=
  List.filter_eq_nil_iff.mpr fun t ht => List.find?_eq_none.mp hn t ht

theorem mem_revocable {d : Db} {i u : UUID} :
    i ∈ d.revocable u ↔ ∃ t ∈ d.tokens, t.tokenID = i ∧ t.userID = u ∧ t.revoked = false := by
  simp only [Db.revocable, List.mem_map, List.mem_filter, Bool.and_eq_true, beq_iff_eq,
    Bool.not_eq_true']
  constructor
  · rintro ⟨t, ⟨ht, hu, hr⟩, rfl⟩
    exact ⟨t, ht, rfl, hu, hr⟩
  · rintro ⟨t, ht, rfl, hu, hr⟩
    exact ⟨t, ⟨ht, hu, hr⟩, rfl⟩

/-! ## an insert -/

theorem grows_insert (row : RefreshToken) (d : Db) : Grows d (Write.apply (.insertToken row) d) :=
  fun t ht => ⟨t, List.mem_append_left _ ht, rfl, rfl, rfl, id⟩

theorem keyed_insert {row : RefreshToken} {d : Db} (h : Keyed d) (hi : d.rowsOf row.tokenID = [])
    (hh : d.rowsWith row.tokenHash = []) : Keyed (Write.apply (.insertToken row) d) where
  ids i := by
    show ((d.tokens ++ [row]).filter _).length ≤ 1
    rw [List.filter_append, List.length_append]
    by_cases e : row.tokenID = i
    · subst e
      show (d.rowsOf row.tokenID).length + _ ≤ 1
      rw [hi]
      simp
    · have hd : (d.rowsOf i).length ≤ 1 := h.ids i
      have hr : [row].filter (fun t => t.tokenID == i) = [] := by simp [e]
      rw [hr]
      exact hd
  hashes k := by
    show ((d.tokens ++ [row]).filter _).length ≤ 1
    rw [List.filter_append, List.length_append]
    by_cases e : row.tokenHash = k
    · subst e
      show (d.rowsWith row.tokenHash).length + _ ≤ 1
      rw [hh]
      simp
    · have hd : (d.rowsWith k).length ≤ 1 := h.hashes k
      have hr : [row].filter (fun t => t.tokenHash == k) = [] := by simp [e]
      rw [hr]
      exact hd

/-! ## updates, row by row -/

/-- what a write does to a row that is there already -/
def Write.on : Write → RefreshToken → RefreshToken
  | .insertToken _, t => t
  | .updateToken i new, t => if t.tokenID == i then new.set t else t

/-- what a list of writes does to a row -/
def after (ws : List Write) (t : RefreshToken) : RefreshToken := ws.foldl (fun t w => w.on t) t

theorem after_nil (t : RefreshToken) : after [] t = t := rfl
theorem after_cons (w : Write) (ws : List Write) (t : RefreshToken) :
    after (w :: ws) t = after ws (w.on t) := rfl

theorem on_tokenID (w : Write) (t : RefreshToken) : (w.on t).tokenID = t.tokenID := by
  cases w with
  | insertToken row => rfl
  | updateToken i new =>
    show (if t.tokenID == i then new.set t else t).tokenID = _
    split <;> rfl

theorem on_tokenHash (w : Write) (t : RefreshToken) : (w.on t).tokenHash = t.tokenHash := by
  cases w with
  | insertToken row => rfl
  | updateToken i new =>
    show (if t.tokenID == i then new.set t else t).tokenHash = _
    split <;> rfl

theorem after_tokenID (ws : List Write) (t : RefreshToken) : (after ws t).tokenID = t.tokenID := by
  induction ws generalizing t with
  | nil => rfl
  | cons w ws ih => rw [after_cons, ih, on_tokenID]

theorem after_tokenHash (ws : List Write) (t : RefreshToken) :
    (after ws t).tokenHash = t.tokenHash := by
  induction ws generalizing t with
  | nil => rfl
  | cons w ws ih => rw [after_cons, ih, on_tokenHash]

/-- an update of the token of some user that revokes it -/
def Revokes (d : Db) (w : Write) : Prop :=
  ∃ i new, w = .updateToken i new ∧ new.revoked = true ∧
    ∃ t ∈ d.tokens, t.tokenID = i ∧ t.userID = new.userID

theorem Revokes.grows {d e : Db} {w : Write} (h : Revokes d w) (hg : Grows d e) : Revokes e w := by
  obtain ⟨i, new, rfl, hr, t, ht, rfl, hu⟩ := h
  obtain ⟨t', ht', hi, -, hu', -⟩ := hg t ht
  exact ⟨t.tokenID, new, rfl, hr, t', ht', hi, hu'.trans hu⟩

theorem applyAll_updates {d : Db} {ws : List Write} (h : ∀ w ∈ ws, ∃ i new, w = .updateToken i new) :
    (applyAll ws d).tokens = d.tokens.map (after ws) := by
  induction ws generalizing d with
  | nil => exact (List.map_id d.tokens).symm
  | cons w ws ih =>
    obtain ⟨i, new, rfl⟩ := h w List.mem_cons_self
    rw [applyAll_cons, ih fun v hv => h v (List.mem_cons_of_mem _ hv)]
    show (updateWhere _ new.set d.tokens).map _ = _
    rw [updateWhere, List.map_map]
    rfl

section
variable {d : Db} {ws : List Write} {t : RefreshToken}

/-- the row that an update finds, and what it does to it -/
theorem on_revokes {w : Write} (hk : Keyed d) (hw : Revokes d w) (ht : t ∈ d.tokens) :
    (w.on t).userID = t.userID ∧ (t.revoked = true → (w.on t).revoked = true) := by
  obtain ⟨i, new, rfl, hr, t', ht', rfl, hu⟩ := hw
  show (if t.tokenID == t'.tokenID then new.set t else t).userID = _ ∧
    (_ → (if t.tokenID == t'.tokenID then new.set t else t).revoked = true)
  split
  · rename_i e
    obtain rfl : t = t' := hk.of_id ht ht' (beq_iff_eq.mp e)
    exact ⟨hu.symm, fun _ => hr⟩
  · exact ⟨rfl, id⟩

theorem mem_update {w : Write} (hw : Revokes d w) (ht : t ∈ d.tokens) :
    w.on t ∈ (w.apply d).tokens := by
  obtain ⟨i, new, rfl, -⟩ := hw
  exact List.mem_map.mpr ⟨t, ht, rfl⟩

theorem keyed_update {i : UUID} {new : RefreshToken} (hk : Keyed d) :
    Keyed (Write.apply (.updateToken i new) d) where
  ids k := by
    rw [rowsOf_updateToken, updateWhere, List.length_map]
    exact hk.ids k
  hashes h := by
    have he : ((Write.apply (.updateToken i new) d).entries h).length = (d.entries h).length := by
      rw [entries_updateToken]
    rw [Db.entries, Db.entries, List.length_map, List.length_map] at he
    rw [he]
    exact hk.hashes h

theorem grows_update {w : Write} (hk : Keyed d) (hw : Revokes d w) : Grows d (w.apply d) :=
  fun t ht => ⟨w.on t, mem_update hw ht, on_tokenID w t, on_tokenHash w t,
    (on_revokes hk hw ht).1, (on_revokes hk hw ht).2⟩

/-- **updates that revoke** keep the tokens and their keys -/
theorem updates_keep (hk : Keyed d) (h : ∀ w ∈ ws, Revokes d w) :
    Grows d (applyAll ws d) ∧ Keyed (applyAll ws d) := by
  induction ws generalizing d with
  | nil => exact ⟨Grows.refl d, hk⟩
  | cons w ws ih =>
    have hw : Revokes d w := h w List.mem_cons_self
    have hg : Grows d (w.apply d) := grows_update hk hw
    have hk' : Keyed (w.apply d) := by
      obtain ⟨i, new, rfl, -⟩ := hw
      exact keyed_update hk
    obtain ⟨hg', hk''⟩ := ih hk' fun v hv => (h v (List.mem_cons_of_mem _ hv)).grows hg
    exact ⟨hg.trans hg', hk''⟩

/-- the user and the hash of a row afterwards, and whether it is revoked -/
theorem after_revokes (hk : Keyed d) (h : ∀ w ∈ ws, Revokes d w) (ht : t ∈ d.tokens) :
    (after ws t).userID = t.userID ∧
      ((after ws t).revoked = true ↔
        t.revoked = true ∨ ∃ new, Write.updateToken t.tokenID new ∈ ws) := by
  induction ws generalizing d t with
  | nil => exact ⟨rfl, by simp [after_nil]⟩
  | cons w ws ih =>
    have hw : Revokes d w := h w List.mem_cons_self
    have hrest : ∀ v ∈ ws, Revokes (w.apply d) v :=
      fun v hv => (h v (List.mem_cons_of_mem _ hv)).grows (grows_update hk hw)
    have hon := on_revokes hk hw ht
    have hmem := mem_update hw ht
    obtain ⟨i, new, rfl, hr, -⟩ := hw
    obtain ⟨hu, hrev⟩ := ih (keyed_update hk) hrest hmem
    refine ⟨hu.trans hon.1, ?_⟩
    rw [after_cons, hrev, on_tokenID]
    constructor
    · rintro (hv | ⟨new', hv⟩)
      · by_cases e : t.tokenID = i
        · subst e
          exact .inr ⟨new, List.mem_cons_self⟩
        · have hsame : (Write.updateToken i new).on t = t := if_neg (by simp [e])
          rw [hsame] at hv
          exact .inl hv
      · exact .inr ⟨new', List.mem_cons_of_mem _ hv⟩
    · rintro (hv | ⟨new', hv⟩)
      · exact .inl (hon.2 hv)
      · rcases List.mem_cons.mp hv with hv | hv
        · obtain ⟨rfl, rfl⟩ := Write.updateToken.inj hv
          refine .inl ?_
          show (if t.tokenID == t.tokenID then new'.set t else t).revoked = true
          rw [if_pos (by simp)]
          exact hr
        · exact .inr ⟨new', hv⟩

/-- a row that is not revoked afterwards was not revoked before -/
theorem mem_updates (hk : Keyed d) (h : ∀ w ∈ ws, Revokes d w) (ht : t ∈ (applyAll ws d).tokens) :
    ∃ t₀ ∈ d.tokens, t₀.tokenID = t.tokenID ∧ t₀.tokenHash = t.tokenHash ∧ t₀.userID = t.userID ∧
      (t.revoked = true ↔ t₀.revoked = true ∨ ∃ new, Write.updateToken t.tokenID new ∈ ws) := by
  rw [applyAll_updates fun w hw => by
    obtain ⟨i, new, rfl, -⟩ := h w hw
    exact ⟨i, new, rfl⟩] at ht
  obtain ⟨t₀, ht₀, rfl⟩ := List.mem_map.mp ht
  obtain ⟨hu, hr⟩ := after_revokes hk h ht₀
  rw [after_tokenID, after_tokenHash]
  exact ⟨t₀, ht₀, rfl, rfl, hu.symm, hr⟩

end

end Marketplace.Auth
