import Timelock.Proofs.PostOrder
import Timelock.Proofs.Visibility

/-!
# What a dependency store holds

The entries of a store are the annotations at and below its node that name one of the dependencies,
in the order of the tree.  Nothing else that is added to the tree changes them.
-/

namespace Timelock

variable {t : AnalyzedProposal} {p q : NodePath} {deps : List String}

namespace AnalyzedProposal

/-- A tree after appends to its nodes, one after another. -/
def appendAll (t : AnalyzedProposal) (additions : List (NodePath × List Annotation)) :
    AnalyzedProposal :=
  additions.foldl (fun t x ↦ x.1.append t x.2) t

end AnalyzedProposal

namespace DependencyStore

theorem allowed_eq_decide (deps : List String) :
    allowed deps = fun a ↦ decide (∃ id ∈ deps, a.analyzer = some id) := by
  funext a
  rw [Bool.eq_iff_iff, allowed_iff, decide_eq_true_eq]

/-- The annotations of a node that may be seen, each with the path of the node. -/
def shown (deps : List String) (n : NodePath × List Annotation) : List ScopedAnnotation :=
  (n.2.filter fun a ↦ ∃ id ∈ deps, a.analyzer = some id).map fun a ↦ ⟨n.1, a⟩

theorem nodeEntries_of_mem_nodes {n : NodePath × List Annotation} (h : n ∈ t.nodes) :
    nodeEntries t deps n.1 = shown deps n := by
  rw [nodeEntries, NodePath.annotations?_of_mem_nodes h, Option.getD_some, allowed_eq_decide]
  rfl

theorem nodeEntries_of_none (h : q.annotations? t = none) : nodeEntries t deps q = [] := by
  simp [nodeEntries, h]

theorem entries_collect_of_none (h : p.annotations? t = none) :
    (collect t p deps).entries = [] := by
  simp [collect, NodePath.subtree_eq_singleton h, nodeEntries_of_none h]

/-- What a store holds, read off the nodes of the tree. -/
theorem entries_collect (t : AnalyzedProposal) (p : NodePath) (deps : List String) :
    (collect t p deps).entries = (t.nodes.filter fun n ↦ n.1.Within p).flatMap (shown deps) := by
  cases hp : p.annotations? t with
  | none =>
      have hnil : (t.nodes.filter fun n ↦ n.1.Within p) = [] := by
        refine List.filter_eq_nil_iff.2 fun n hn hwithin ↦ ?_
        have hsome : (n.1.annotations? t).isSome := by
          simp [NodePath.annotations?_of_mem_nodes hn]
        have := NodePath.isSome_of_within hsome (of_decide_eq_true hwithin)
        simp [hp] at this
      rw [entries_collect_of_none hp, hnil, List.flatMap_nil]
  | some as =>
      have hsub : p.subtree t = (t.nodes.filter fun n ↦ n.1.Within p).map Prod.fst := by
        rw [NodePath.subtree_eq_filter (by simp [hp]), NodePath.subtree_proposal, List.filter_map]
        rfl
      rw [collect, hsub, List.flatMap_map]
      exact List.flatMap_congr fun n hn ↦ nodeEntries_of_mem_nodes (List.mem_of_mem_filter hn)

theorem entries_collect_congr {deps' : List String} (h : ∀ id, id ∈ deps' ↔ id ∈ deps) :
    (collect t p deps').entries = (collect t p deps).entries := by
  have hallowed : allowed deps' = allowed deps := by
    simp only [allowed_eq_decide, h]
  have hentries : nodeEntries t deps' = nodeEntries t deps := by
    funext q
    rw [nodeEntries, nodeEntries, hallowed]
  rw [collect, collect, hentries]

/-- An addition is out of sight of a store if it is made outside the subtree, or by none of the
dependencies. -/
def Unseen (p : NodePath) (deps : List String) (x : NodePath × List Annotation) : Prop :=
  ¬ x.1.Within p ∨ ∀ a ∈ x.2, ∀ id ∈ deps, a.analyzer ≠ some id

theorem collect_append {x : NodePath × List Annotation} (h : Unseen p deps x) :
    collect (x.1.append t x.2) p deps = collect t p deps := by
  refine collect_congr (NodePath.decoded_append t x.2 x.1) fun q hq ↦ ?_
  rw [NodePath.annotations?_append]
  by_cases hxq : x.1 = q
  · have hnone : x.2.filter (allowed deps) = [] := by
      have hwithin : x.1.Within p := hxq ▸ NodePath.within_of_mem_subtree hq
      refine List.filter_eq_nil_iff.2 fun a ha hallowed ↦ ?_
      obtain ⟨id, hid, heq⟩ := allowed_iff.1 hallowed
      exact h.resolve_left (not_not_intro hwithin) a ha id hid heq
    cases q.annotations? t with
    | none => rfl
    | some old => simp [hxq, hnone]
  · simp [hxq]

theorem collect_appendAll {additions : List (NodePath × List Annotation)}
    (h : ∀ x ∈ additions, Unseen p deps x) :
    collect (t.appendAll additions) p deps = collect t p deps := by
  induction additions generalizing t with
  | nil => rfl
  | cons x xs ih =>
      rw [List.forall_mem_cons] at h
      exact (ih h.2).trans (collect_append h.1)

/-- A store holds, in the order of the tree, what its dependencies have left at and below its path,
and no addition out of its sight changes that. -/
theorem collect_holds_allowed (t : AnalyzedProposal) (p : NodePath) (deps : List String) :
    (collect t p deps).entries = (t.nodes.filter fun n ↦ n.1.Within p).flatMap (shown deps) ∧
    (p.exists? t = false → (collect t p deps).entries = []) ∧
    (∀ deps', (∀ id, id ∈ deps' ↔ id ∈ deps) →
      (collect t p deps').entries = (collect t p deps).entries) ∧
    ∀ additions, (∀ x ∈ additions, Unseen p deps x) →
      (collect (t.appendAll additions) p deps).entries = (collect t p deps).entries := by
  refine ⟨entries_collect t p deps, fun hp ↦ entries_collect_of_none ?_,
    fun _ h ↦ entries_collect_congr h, fun _ h ↦ by rw [collect_appendAll h]⟩
  simpa [NodePath.exists?] using hp

end DependencyStore

namespace Sparse

def note (analyzer : Option String) : Annotation :=
  { name := "note", kind := "bool", value := .bool true, analyzer := analyzer }

def noted : AnalyzedProposal :=
  tree.appendAll [(.call 1 0, [note "writer", note "other"]),
    (.parameter 1 0 .output 0, [note "writer"])]

/-- A note by the dependency on the root, and one by nobody on the call itself. -/
def hidden : List (NodePath × List Annotation) :=
  [(.proposal, [note "writer"]), (.call 1 0, [note none])]

theorem collect_holds_allowed_of_noted :
    (∀ x ∈ hidden, DependencyStore.Unseen (.call 1 0) ["writer"] x) ∧
      (DependencyStore.collect (noted.appendAll hidden) (.call 1 0) ["writer"]).entries =
        [⟨.parameter 1 0 .output 0, note "writer"⟩, ⟨.call 1 0, note "writer"⟩] := by
  have hunseen : ∀ x ∈ hidden, DependencyStore.Unseen (.call 1 0) ["writer"] x := by
    simp only [hidden, List.forall_mem_cons, List.not_mem_nil, false_implies, implies_true]
    exact ⟨.inl (by decide), .inr (by decide), trivial⟩
  have h := DependencyStore.collect_holds_allowed noted (.call 1 0) ["writer"]
  exact ⟨hunseen, (h.2.2.2 hidden hunseen).trans rfl⟩

end Sparse

end Timelock
