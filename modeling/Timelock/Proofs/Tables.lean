import Mathlib.Data.List.Perm.Basic
import Timelock.OrderedSet

/-!
# Entries of a table

The keys of a table are distinct, so a look-up finds the one entry under its key.  An entry under a
new key is added to those that are there, and replaces none.
-/

namespace Timelock.Table

variable {α : Type} {t : Table α} {k : String} {v : α}

theorem nodup_keys (t : Table α) : t.keys.Nodup := by
  refine List.pairwise_map.2 (t.ascending.imp fun {a b} h heq ↦ ?_)
  exact String.lt_irrefl b.1 (heq ▸ h)

theorem contains_iff : t.contains k ↔ k ∈ t.keys := by
  simp [contains, keys]

/-- A look-up finds the entry under its key. -/
theorem get?_eq_some_iff : t.get? k = some v ↔ (k, v) ∈ t.entries := by
  rw [get?, List.lookup_eq_some_iff]
  constructor
  · rintro ⟨before, after, hsplit, _⟩
    simp [hsplit]
  · intro h
    obtain ⟨before, after, hsplit⟩ := List.append_of_mem h
    refine ⟨before, after, hsplit, fun e he ↦ ?_⟩
    have hascending := t.ascending
    rw [hsplit, List.pairwise_append] at hascending
    have hlt : e.1 < k := hascending.2.2 e he (k, v) List.mem_cons_self
    simp only [bne_iff_ne, ne_eq]
    rintro rfl
    exact String.lt_irrefl _ hlt

theorem mem_keys_of_get? (h : t.get? k = some v) : k ∈ t.keys :=
  List.mem_map.2 ⟨(k, v), get?_eq_some_iff.1 h, rfl⟩

theorem perm_putEntry {es : List (String × α)} (h : k ∉ es.map Prod.fst) :
    (putEntry k v es).Perm ((k, v) :: es) := by
  induction es with
  | nil => exact .refl _
  | cons e es ih =>
      rw [List.map_cons, List.mem_cons, not_or] at h
      simp only [putEntry]
      split
      next => exact .refl _
      next hke =>
        split
        next => exact ((ih h.2).cons e).trans (.swap (k, v) e es)
        next hek =>
          exact absurd (String.le_antisymm (String.not_lt.1 hek) (String.not_lt.1 hke)) h.1

theorem keys_put (h : k ∉ t.keys) (v : α) : (t.put k v).keys.Perm (k :: t.keys) :=
  (perm_putEntry h).map Prod.fst

theorem get?_put (h : k ∉ t.keys) (v : α) (k' : String) :
    (t.put k v).get? k' = (t.get? k').or (if k = k' then some v else none) := by
  have hentries : ∀ x, x ∈ (t.put k v).entries ↔ x = (k, v) ∨ x ∈ t.entries := fun x ↦
    (perm_putEntry h).mem_iff.trans List.mem_cons
  ext w
  rw [get?_eq_some_iff, hentries, Prod.mk.injEq, ← get?_eq_some_iff]
  by_cases hk : k = k'
  · subst hk
    have hnone : t.get? k = none :=
      Option.eq_none_iff_forall_ne_some.2 fun _ hw ↦ h (mem_keys_of_get? hw)
    simp [hnone, eq_comm]
  · simp [hk, Ne.symm hk]

/-- New entries under new keys join those that are there. -/
theorem perm_foldl_put {es : List (String × α)} (t : Table α)
    (h : (t.keys ++ es.map Prod.fst).Nodup) :
    (es.foldl (fun t e ↦ t.put e.1 e.2) t).entries.Perm (t.entries ++ es) := by
  induction es generalizing t with
  | nil => simp
  | cons e es ih =>
      have hput : (t.put e.1 e.2).entries.Perm (e :: t.entries) :=
        perm_putEntry fun hmem ↦ (List.nodup_append.1 h).2.2 e.1 hmem e.1 (by simp) rfl
      have hkeys : ((t.put e.1 e.2).keys ++ es.map Prod.fst).Perm
          (t.keys ++ (e :: es).map Prod.fst) :=
        ((hput.map Prod.fst).append_right _).trans List.perm_middle.symm
      exact (ih _ (hkeys.nodup_iff.2 h)).trans ((hput.append_right es).trans List.perm_middle.symm)

end Timelock.Table
