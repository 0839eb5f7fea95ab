import Mathlib.Data.List.Sort
import Mathlib.Data.String.Basic
import Timelock.Proofs.LevelPositions

/-!
# Queries of a dependency graph

A graph that has been accepted accounts for every dependency that was declared: it is either one
on a name of the list or one on a name that has been resolved.  Dependents are dependencies seen
from the other side.
-/

namespace Timelock

namespace DependencyGraph

open Declaration

variable {ds : List Declaration} {resolved xs : List String} {g : DependencyGraph}
  {d : Declaration} {x y : String}

theorem sorted_eq_insertionSort (xs : List String) : sorted xs = xs.insertionSort (· ≤ ·) := by
  have hinsert : ∀ (x : String) (ys : List String),
      insertSorted x ys = ys.orderedInsert (· ≤ ·) x := by
    intro x ys
    induction ys with
    | nil => rfl
    | cons y ys ih => simp only [insertSorted, ih, List.orderedInsert_cons]
  induction xs with
  | nil => rfl
  | cons x xs ih =>
      rw [List.insertionSort_cons, ← ih, ← hinsert]
      rfl

@[simp] theorem mem_sorted : x ∈ sorted xs ↔ x ∈ xs := by
  rw [sorted_eq_insertionSort, List.mem_insertionSort]

/-- Sorting removes nothing, so the order is strict only where nothing is repeated. -/
theorem pairwise_sorted (h : xs.Nodup) : (sorted xs).Pairwise (fun a b ↦ a < b) := by
  rw [sorted_eq_insertionSort]
  have hle := List.pairwise_insertionSort (fun a b : String ↦ a ≤ b) xs
  have hne : (xs.insertionSort (fun a b : String ↦ a ≤ b)).Nodup :=
    (List.perm_insertionSort _ xs).nodup_iff.2 h
  exact (hle.and hne).imp fun hab ↦ lt_of_le_of_ne hab.1 hab.2

/-! ## Edges -/

theorem nodup_distinct {seen : List String} (xs : List String) : (distinct seen xs).Nodup := by
  induction xs generalizing seen with
  | nil => exact List.nodup_nil
  | cons z xs ih =>
      simp only [distinct]
      split
      · exact ih
      · exact List.nodup_cons.2 ⟨fun hz ↦ (mem_distinct.1 hz).2 List.mem_cons_self, ih⟩

theorem mem_edges : (y, x) ∈ g.edges ↔ Declares g.internal x y := by
  simp only [edges, Declares, List.mem_flatMap, List.mem_map, Prod.mk.injEq]
  constructor
  · rintro ⟨d, hd, _, hy, rfl, rfl⟩
    exact ⟨d, hd, rfl, hy⟩
  · rintro ⟨d, hd, rfl, hy⟩
    exact ⟨d, hd, y, hy, rfl, rfl⟩

/-- A dependency declared several times is one edge. -/
theorem nodup_edges_arranged (hn : (ds.map Declaration.id).Nodup) : (arranged ds).edges.Nodup := by
  have hids : ((inside ds).map Declaration.id).Nodup := by simpa using hn
  refine List.nodup_flatMap.2 ⟨fun d hd ↦ ?_, (List.pairwise_map.1 hids).imp fun hne ↦ ?_⟩
  · obtain ⟨_, _, rfl⟩ := List.mem_map.1 hd
    exact (nodup_distinct _).map fun _ _ h ↦ (Prod.mk.inj h).1
  · intro e he he'
    obtain ⟨_, _, rfl⟩ := List.mem_map.1 he
    obtain ⟨_, _, heq⟩ := List.mem_map.1 he'
    exact hne (Prod.mk.inj heq).2.symm

theorem pairwise_dependenciesOf_arranged (hn : (ds.map Declaration.id).Nodup) (x : String) :
    ((arranged ds).dependenciesOf x).Pairwise (fun a b ↦ a < b) := by
  apply pairwise_sorted
  refine ((nodup_edges_arranged hn).filter _).map_on ?_
  simp only [List.mem_filter, decide_eq_true_eq]
  exact fun e he e' he' h ↦ Prod.ext h (he.2.trans he'.2.symm)

theorem pairwise_dependentsOf_arranged (hn : (ds.map Declaration.id).Nodup) (x : String) :
    ((arranged ds).dependentsOf x).Pairwise (fun a b ↦ a < b) := by
  apply pairwise_sorted
  refine ((nodup_edges_arranged hn).filter _).map_on ?_
  simp only [List.mem_filter, decide_eq_true_eq]
  exact fun e he e' he' h ↦ Prod.ext (he.2.trans he'.2.symm) h

/-! ## What each query finds -/

theorem mem_dependenciesOf_arranged :
    y ∈ (arranged ds).dependenciesOf x ↔ Declares ds x y ∧ y ∈ ds.map Declaration.id := by
  rw [← declares_inside]
  change _ ↔ Declares (arranged ds).internal x y
  simp [DependencyGraph.dependenciesOf, ← mem_edges]

theorem mem_dependentsOf_arranged :
    y ∈ (arranged ds).dependentsOf x ↔ Declares ds y x ∧ x ∈ ds.map Declaration.id := by
  rw [← declares_inside]
  change _ ↔ Declares (arranged ds).internal y x
  simp [dependentsOf, ← mem_edges]

theorem declares_iff (hn : (ds.map Declaration.id).Nodup) (hd : d ∈ ds) :
    Declares ds d.id y ↔ y ∈ d.dependencies := by
  rw [← mem_dependenciesOf hn, dependenciesOf_eq hn hd]

theorem map_id_external (ds : List Declaration) :
    (arranged ds).external.map Declaration.id = ds.map Declaration.id := by
  rw [arranged, List.map_map]
  rfl

theorem externalDependenciesOf_arranged (hn : (ds.map Declaration.id).Nodup) (hd : d ∈ ds) :
    (arranged ds).externalDependenciesOf d.id =
      d.dependencies.filter (fun y ↦ y ∉ ds.map Declaration.id) := by
  have hmem : keepDependencies (fun y ↦ !(ds.map Declaration.id).contains y) d ∈
      (arranged ds).external := List.mem_map_of_mem hd
  have hkept : (arranged ds).externalDependenciesOf d.id =
      d.dependencies.filter (fun y ↦ !(ds.map Declaration.id).contains y) :=
    dependenciesOf_eq (map_id_external ds ▸ hn) hmem
  rw [hkept]
  apply List.filter_congr
  intro y _
  rw [List.contains_eq_mem, decide_not]

theorem externalDependenciesOf_eq_nil (hx : x ∉ ds.map Declaration.id) :
    (arranged ds).externalDependenciesOf x = [] := by
  have hnone : (arranged ds).external.find? (fun d ↦ d.id == x) = none := by
    apply List.find?_eq_none.2
    intro e he hid
    have hmem : e.id ∈ ds.map Declaration.id := map_id_external ds ▸ List.mem_map_of_mem he
    exact hx (beq_iff_eq.1 hid ▸ hmem)
  simp only [externalDependenciesOf, Declaration.dependenciesOf, hnone]

/-- Every dependency that an accepted list declares is answered once, as one on a name of the list
or as one on a resolved name, and from the side of the name that is depended on as well. -/
theorem queries_account_for_declared (h : build ds resolved = .ok g) :
    (∀ d ∈ ds,
      (g.dependenciesOf d.id).Pairwise (fun a b ↦ a < b) ∧
      (∀ y, y ∈ g.dependenciesOf d.id ↔ y ∈ d.dependencies ∧ y ∈ ds.map Declaration.id) ∧
      g.externalDependenciesOf d.id =
        d.dependencies.filter (fun y ↦ y ∉ ds.map Declaration.id) ∧
      (∀ y ∈ g.externalDependenciesOf d.id, y ∈ resolved) ∧
      ∀ y ∈ d.dependencies,
        Xor (y ∈ g.dependenciesOf d.id) (y ∈ g.externalDependenciesOf d.id)) ∧
    (∀ x y, y ∈ g.dependentsOf x ↔ x ∈ g.dependenciesOf y) ∧
    (∀ x, (g.dependentsOf x).Pairwise (fun a b ↦ a < b)) ∧
    ∀ x, x ∉ ds.map Declaration.id →
      g.dependenciesOf x = [] ∧ g.dependentsOf x = [] ∧ g.externalDependenciesOf x = [] := by
  obtain ⟨hwf, rfl⟩ := build_eq_ok_iff.1 h
  have hn := hwf.distinct
  refine ⟨fun d hd ↦ ?_, fun x y ↦ ?_, fun x ↦ pairwise_dependentsOf_arranged hn x, fun x hx ↦ ?_⟩
  · have hinternal : ∀ y, y ∈ (arranged ds).dependenciesOf d.id ↔
        y ∈ d.dependencies ∧ y ∈ ds.map Declaration.id := fun y ↦ by
      rw [mem_dependenciesOf_arranged, declares_iff hn hd]
    have hexternal := externalDependenciesOf_arranged hn hd
    have hmem : ∀ y, y ∈ (arranged ds).externalDependenciesOf d.id ↔
        y ∈ d.dependencies ∧ y ∉ ds.map Declaration.id := fun y ↦ by
      rw [hexternal, List.mem_filter, decide_eq_true_eq]
    refine ⟨pairwise_dependenciesOf_arranged hn d.id, hinternal, hexternal, fun y hy ↦ ?_,
      fun y hy ↦ ?_⟩
    · obtain ⟨hy, hout⟩ := (hmem y).1 hy
      exact (hwf.proper d hd y hy).2.resolve_left hout
    · rw [hinternal, hmem, and_iff_right hy, and_iff_right hy]
      exact xor_not_right.2 Iff.rfl
  · rw [mem_dependentsOf_arranged, mem_dependenciesOf_arranged]
  · refine ⟨?_, ?_, externalDependenciesOf_eq_nil hx⟩
    · apply List.eq_nil_iff_forall_not_mem.2
      intro y hy
      exact hx (mem_dependenciesOf_arranged.1 hy).1.id_mem
    · apply List.eq_nil_iff_forall_not_mem.2
      intro y hy
      exact hx (mem_dependentsOf_arranged.1 hy).2

theorem queries_account_for_declared_of_diamond :
    build diamond ["earlier"] = .ok diamondGraph ∧
      diamondGraph.dependenciesOf "report" = ["diff", "risk"] ∧
      diamondGraph.externalDependenciesOf "report" = ["earlier"] ∧
      diamondGraph.dependentsOf "seen" = ["diff", "risk"] ∧
      "diff" ∈ diamondGraph.dependentsOf "seen" ∧
      Xor ("earlier" ∈ diamondGraph.dependenciesOf "report")
        ("earlier" ∈ diamondGraph.externalDependenciesOf "report") ∧
      diamondGraph.dependentsOf "earlier" = [] := by
  obtain ⟨hdeclared, hsides, _, hunknown⟩ := queries_account_for_declared build_diamond
  obtain ⟨_, _, _, _, honce⟩ :=
    hdeclared ⟨"report", ["risk", "earlier", "diff", "risk"]⟩ (by decide)
  exact ⟨build_diamond, by decide, by decide, by decide, (hsides _ _).2 (by decide),
    honce "earlier" (by decide), (hunknown "earlier" (by decide)).2.1⟩

end DependencyGraph

end Timelock
