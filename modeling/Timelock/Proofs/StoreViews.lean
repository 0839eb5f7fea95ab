import Mathlib.Data.List.Dedup
import Timelock.Proofs.LevelPositions
import Timelock.Proofs.StoreContents

/-!
# The views of a dependency store

A store can be asked for the annotations of a node, of a level or of an analyzer.  Asked for one
node after another, it gives all that it holds in its order; asked for one level after another, or
one dependency after another, it gives the same in an order of its own.
-/

namespace Timelock

variable {t : AnalyzedProposal} {p q : NodePath} {deps : List String} {l : Level} {id : String}
  {s : DependencyStore}

theorem NodePath.nodup_subtree (t : AnalyzedProposal) (p : NodePath) : (p.subtree t).Nodup := by
  cases hp : p.annotations? t with
  | none =>
      rw [subtree_eq_singleton hp]
      exact List.nodup_singleton p
  | some as =>
      have hexists : (p.annotations? t).isSome := by simp [hp]
      exact (nodup_subtree_proposal t).sublist (isInfix_subtree hexists).sublist

namespace DependencyStore

theorem filter_sublist (s : DependencyStore) (keep : ScopedAnnotation → Bool) :
    (s.filter keep).Sublist s.annotations :=
  List.filter_sublist.map ScopedAnnotation.content

theorem filter_eq_nil {keep : ScopedAnnotation → Bool} (h : ∀ x ∈ s.entries, ¬ keep x) :
    s.filter keep = [] := by
  rw [filter, List.filter_eq_nil_iff.2 h, List.map_nil]

/-- Views by a key, one for each value that the key takes, share out what a store holds. -/
theorem flatMap_filter_key_perm {κ : Type} [DecidableEq κ] (key : ScopedAnnotation → κ)
    {ks : List κ} (hn : ks.Nodup) (h : ∀ x ∈ s.entries, key x ∈ ks) :
    (ks.flatMap fun k ↦ s.filter (fun x ↦ key x = k)).Perm s.annotations := by
  have hparts : (ks.flatMap fun k ↦ s.filter (fun x ↦ key x = k)) =
      (ks.flatMap fun k ↦ s.entries.filter (fun x ↦ key x = k)).map ScopedAnnotation.content :=
    List.map_flatMap.symm
  rw [hparts]
  exact (flatMap_filter_perm key hn h).map ScopedAnnotation.content

theorem flatMap_atLevel_perm (s : DependencyStore) :
    (Level.all.flatMap s.atLevel).Perm s.annotations := by
  have hall : ∀ l : Level, l ∈ Level.all := fun l ↦ by cases l <;> decide
  exact flatMap_filter_key_perm ScopedAnnotation.level (by decide) fun x _ ↦ hall x.level

theorem flatMap_fromAnalyzer_perm (t : AnalyzedProposal) (p : NodePath) (deps : List String) :
    (deps.dedup.flatMap (collect t p deps).fromAnalyzer).Perm (collect t p deps).annotations := by
  have hkeys : (deps.dedup.map some).Nodup :=
    (List.nodup_dedup deps).map fun _ _ h ↦ Option.some.inj h
  have hperm := flatMap_filter_key_perm (s := collect t p deps) (fun x ↦ x.content.analyzer) hkeys
    fun x hx ↦ by
      obtain ⟨_, _, id, hid, hanalyzer⟩ := mem_entries_collect.1 hx
      exact hanalyzer ▸ List.mem_map_of_mem (List.mem_dedup.2 hid)
  rwa [List.flatMap_map] at hperm

/-! ## The nodes of a store -/

theorem path_of_mem_nodeEntries {x : ScopedAnnotation} (h : x ∈ nodeEntries t deps q) :
    x.path = q := by
  obtain ⟨a, _, rfl⟩ := List.mem_map.1 h
  rfl

/-- No path of a subtree is listed twice, so a node is shown with its own entries. -/
theorem filter_path_entries (hq : q ∈ p.subtree t) :
    (collect t p deps).entries.filter (fun x ↦ x.path = q) = nodeEntries t deps q := by
  rw [collect, filter_flatMap_eq_of_nodup (NodePath.nodup_subtree t p) hq]
  · exact List.filter_eq_self.2 fun x hx ↦ by simp [path_of_mem_nodeEntries hx]
  · intro r _ hne
    apply List.filter_eq_nil_iff.2
    intro x hx
    simp [path_of_mem_nodeEntries hx, hne]

theorem flatMap_atPath (t : AnalyzedProposal) (p : NodePath) (deps : List String) :
    (p.subtree t).flatMap (collect t p deps).atPath = (collect t p deps).annotations := by
  have hnode : ∀ q ∈ p.subtree t, (collect t p deps).atPath q =
      (nodeEntries t deps q).map ScopedAnnotation.content := fun q hq ↦ by
    rw [atPath, filter, filter_path_entries hq]
  rw [List.flatMap_congr hnode, ← List.map_flatMap]
  rfl

/-- No view of a store loses or repeats anything, and none shows what the store was not made
for. -/
theorem views_share_out (t : AnalyzedProposal) (p : NodePath) (deps : List String) :
    (p.subtree t).flatMap (collect t p deps).atPath = (collect t p deps).annotations ∧
    (collect t p deps).annotations.Perm (Level.all.flatMap (collect t p deps).atLevel) ∧
    (collect t p deps).annotations.Perm
      (deps.dedup.flatMap (collect t p deps).fromAnalyzer) ∧
    (∀ q, ((collect t p deps).atPath q).Sublist (collect t p deps).annotations) ∧
    (∀ l, ((collect t p deps).atLevel l).Sublist (collect t p deps).annotations) ∧
    (∀ id, ((collect t p deps).fromAnalyzer id).Sublist (collect t p deps).annotations) ∧
    (∀ id, id ∉ deps → (collect t p deps).fromAnalyzer id = []) ∧
    (∀ q, q ∉ p.subtree t → (collect t p deps).atPath q = []) ∧
    ∀ l, l.rank < p.level.rank → (collect t p deps).atLevel l = [] := by
  refine ⟨flatMap_atPath t p deps, (flatMap_atLevel_perm _).symm,
    (flatMap_fromAnalyzer_perm t p deps).symm, fun _ ↦ filter_sublist _ _,
    fun _ ↦ filter_sublist _ _, fun _ ↦ filter_sublist _ _, ?_, ?_, ?_⟩
  · intro id hid
    apply filter_eq_nil
    intro x hx hkeep
    obtain ⟨_, _, dep, hdep, hanalyzer⟩ := mem_entries_collect.1 hx
    obtain rfl : dep = id := Option.some.inj (hanalyzer.symm.trans (of_decide_eq_true hkeep))
    exact hid hdep
  · intro q hq
    apply filter_eq_nil
    intro x hx hkeep
    exact hq (of_decide_eq_true hkeep ▸ (mem_entries_collect.1 hx).1)
  · intro l hl
    apply filter_eq_nil
    intro x hx hkeep
    obtain rfl : x.path.level = l := of_decide_eq_true hkeep
    rcases NodePath.eq_or_rank_lt_of_mem_subtree (mem_entries_collect.1 hx).1 with heq | hlt
    · exact Nat.lt_irrefl _ (heq ▸ hl)
    · exact Nat.lt_asymm hl hlt

end DependencyStore

namespace Sparse

open DependencyStore

theorem views_share_out_of_noted :
    (collect noted (.call 1 0) ["writer", "other", "writer"]).annotations =
        [note "writer", note "writer", note "other"] ∧
      [note "writer", note "writer", note "other"].Perm (["other", "writer"].flatMap
        (collect noted (.call 1 0) ["writer", "other", "writer"]).fromAnalyzer) ∧
      (collect noted (.call 1 0) ["writer", "other", "writer"]).fromAnalyzer "reader" = [] ∧
      (collect noted (.call 1 0) ["writer", "other", "writer"]).atPath (.batch 1) = [] ∧
      (collect noted (.call 1 0) ["writer", "other", "writer"]).atLevel .proposal = [] := by
  obtain ⟨_, _, hanalyzers, _, _, _, hundeclared, houtside, habove⟩ :=
    views_share_out noted (.call 1 0) ["writer", "other", "writer"]
  exact ⟨rfl, hanalyzers, hundeclared "reader" (by decide), houtside (.batch 1) (by decide),
    habove .proposal (by decide)⟩

end Sparse

end Timelock
