import Timelock.Proofs.StoreContents
import Timelock.Proofs.TreeHandles

/-!
# Annotations of one node

A path has a handle where it reaches a node, and only there.  Annotations added through the handle
stand behind those that the node had; no other node changes, and no path is listed or resolved
otherwise than before.
-/

namespace Timelock

variable {t : AnalyzedProposal} {p : NodePath}

namespace NodePath

/-- What comes of adding annotations to a node that had the annotations `old`. -/
structure Annotates (t : AnalyzedProposal) (p : NodePath) (old as : List Annotation)
    (u : AnalyzedProposal) : Prop where
  before : p.annotations? t = some old
  after : p.annotations? u = some (old ++ as)
  others : ∀ q, q ≠ p → q.annotations? u = q.annotations? t
  listed : ∀ l, allAt u l = allAt t l
  below : ∀ q, subtree u q = subtree t q
  resolved : ∀ q, NodeScope.resolve u q = NodeScope.resolve t q

theorem annotates_append {old : List Annotation} (h : p.annotations? t = some old)
    (as : List Annotation) : Annotates t p old as (p.append t as) where
  before := h
  after := by simp [annotations?_append, h]
  others q hq := by simp [annotations?_append, Ne.symm hq]
  listed := allAt_eq_of_decoded_eq (decoded_append t as p)
  below := subtree_eq_of_decoded_eq (decoded_append t as p)
  resolved := resolve_eq_of_decoded_eq (decoded_append t as p)

/-- Looking a node up, taking a handle on it, resolving its scope and listing its level agree on
where there is a node.  Adding to the handle is appending to the path, and changes that node
alone. -/
theorem handle_annotates_alone (t : AnalyzedProposal) (p : NodePath) :
    (p.exists? t ↔ (p.handle? t).isSome) ∧
    (p.exists? t ↔ (NodeScope.resolve t p).isSome) ∧
    (p.exists? t ↔ p ∈ allAt t p.level) ∧
    ∀ k, p.handle? t = some k → ∀ as,
      k.update (· ++ as) = p.append t as ∧ Annotates t p k.part as (k.update (· ++ as)) := by
  refine ⟨?_, ?_, mem_allAt_iff.symm, fun k hk as ↦ ?_⟩
  · rw [exists?, ← map_part_handle?, Option.isSome_map]
  · rw [exists?, isSome_resolve]
  · have hold : p.annotations? t = some k.part := by rw [← map_part_handle?, hk]; rfl
    have happend := update_handle? hk as
    exact ⟨happend, happend ▸ annotates_append hold as⟩

end NodePath

namespace Sparse

theorem handle_annotates_alone_of_noted :
    ∃ k, (NodePath.parameter 1 0 .output 0).handle? noted = some k ∧
      (NodePath.parameter 1 0 .output 0).annotations? (k.update (· ++ [note none])) =
        some [note "writer", note none] ∧
      (NodePath.call 1 0).annotations? (k.update (· ++ [note none])) =
        some [note "writer", note "other"] := by
  obtain ⟨k, hk⟩ : ∃ k, (NodePath.parameter 1 0 .output 0).handle? noted = some k := ⟨_, rfl⟩
  have h := ((NodePath.handle_annotates_alone noted _).2.2.2 k hk [note none]).2
  have hpart : k.part = [note "writer"] := Option.some.inj (h.before.symm.trans rfl)
  exact ⟨k, hk, h.after.trans (by rw [hpart]; rfl), (h.others (.call 1 0) (by decide)).trans rfl⟩

end Sparse

end Timelock
