import Timelock.Proofs.OutcomeOrder
import Timelock.Proofs.Provenance
import Timelock.Proofs.StoreContents

/-!
# The flat listing of annotations

All annotations of a tree are listed node by node, in the order in which the paths are listed.  A
store at the root that may show everything shows the same list, and the records of a finished run
count it.
-/

namespace Timelock

open AnalyzedProposal

variable {t : AnalyzedProposal} {p q : NodePath} {as : List Annotation} {deps : List String}

/-- The annotations of a node, each with the level of the node. -/
def leveled (n : NodePath × List Annotation) : List (Level × Annotation) := atLevel n.1.level n.2

theorem map_snd_leveled (n : NodePath × List Annotation) : (leveled n).map Prod.snd = n.2 := by
  rw [leveled, atLevel, List.map_map]
  exact List.map_id _

theorem atLevel_append (l : Level) (as bs : List Annotation) :
    atLevel l (as ++ bs) = atLevel l as ++ atLevel l bs :=
  List.map_append

/-! ## Node by node -/

theorem flatMap_leveled_sideNodes (b c : Nat) (d : Direction) (ps : List AnalyzedParameter) :
    (AnalyzedCall.sideNodes b c d ps).flatMap leveled =
      ps.flatMap fun x ↦ atLevel .parameter x.annotations := by
  rw [AnalyzedCall.sideNodes, List.flatMap_map]
  exact flatMap_zipIdx (fun x ↦ atLevel .parameter x.annotations) ps

theorem flatMap_leveled_callNodes (b c : Nat) (x : AnalyzedCall) :
    (AnalyzedCall.nodes b c x).flatMap leveled = callAnnotations x := by
  rw [AnalyzedCall.nodes, List.flatMap_append, List.flatMap_append, flatMap_leveled_sideNodes,
    flatMap_leveled_sideNodes, List.flatMap_singleton, callAnnotations, Call.parameters,
    List.flatMap_append]
  rfl

theorem flatMap_leveled_batchNodes (b : Nat) (x : AnalyzedBatch) :
    (AnalyzedBatch.nodes b x).flatMap leveled = batchAnnotations x := by
  rw [AnalyzedBatch.nodes, List.flatMap_append, List.flatMap_assoc, List.flatMap_singleton,
    batchAnnotations, ← flatMap_zipIdx callAnnotations]
  simp only [flatMap_leveled_callNodes]
  rfl

theorem flatMap_leveled_nodes (t : AnalyzedProposal) :
    t.nodes.flatMap leveled = t.allAnnotations := by
  rw [nodes, List.flatMap_append, List.flatMap_assoc, List.flatMap_singleton, allAnnotations,
    ← flatMap_zipIdx batchAnnotations]
  simp only [flatMap_leveled_batchNodes]
  rfl

/-- What is listed for a path: nothing without a node. -/
def leveledAt (t : AnalyzedProposal) (q : NodePath) : List (Level × Annotation) :=
  leveled (q, (q.annotations? t).getD [])

theorem allAnnotations_eq_flatMap (t : AnalyzedProposal) :
    t.allAnnotations = (NodePath.subtree t .proposal).flatMap (leveledAt t) := by
  rw [NodePath.subtree_proposal, List.flatMap_map, ← flatMap_leveled_nodes]
  apply List.flatMap_congr
  intro n hn
  rw [leveledAt, NodePath.annotations?_of_mem_nodes hn, Option.getD_some]

/-! ## Through a store at the root -/

namespace DependencyStore

theorem map_content_shown (deps : List String) (n : NodePath × List Annotation) :
    (shown deps n).map ScopedAnnotation.content =
      n.2.filter fun a ↦ ∃ id ∈ deps, a.analyzer = some id := by
  rw [shown, List.map_map]
  exact List.map_id _

theorem entries_collect_proposal (t : AnalyzedProposal) (deps : List String) :
    (collect t .proposal deps).entries = t.nodes.flatMap (shown deps) := by
  have hall : ∀ n ∈ t.nodes, decide (n.1.Within .proposal) = true := fun _ _ ↦
    decide_eq_true List.nil_prefix
  rw [entries_collect, List.filter_eq_self.2 hall]

/-- A store at the root for all analyzers lacks only what names no analyzer. -/
theorem annotations_collect_proposal
    (h : ∀ x ∈ t.allAnnotations, ∀ id, x.2.analyzer = some id → id ∈ deps) :
    (collect t .proposal deps).annotations =
      (t.allAnnotations.map Prod.snd).filter (fun a ↦ a.analyzer.isSome) := by
  rw [← flatMap_leveled_nodes] at h ⊢
  rw [annotations, entries_collect_proposal, List.map_flatMap, List.map_flatMap,
    List.filter_flatMap]
  apply List.flatMap_congr
  intro n hn
  rw [map_content_shown, map_snd_leveled]
  apply List.filter_congr
  intro a ha
  have hmem : (n.1.level, a) ∈ t.nodes.flatMap leveled :=
    List.mem_flatMap.2 ⟨n, hn, List.mem_map_of_mem ha⟩
  rw [Bool.eq_iff_iff, decide_eq_true_eq, Option.isSome_iff_exists]
  constructor
  · rintro ⟨id, _, hid⟩
    exact ⟨id, hid⟩
  · rintro ⟨id, hid⟩
    exact ⟨id, h _ hmem id hid, hid⟩

end DependencyStore

/-! ## In the course of a run -/

theorem leveledAt_append_of_ne (hpq : p ≠ q) : leveledAt (p.append t as) q = leveledAt t q := by
  rw [leveledAt, leveledAt, NodePath.annotations?_append]
  simp [hpq]

theorem leveledAt_append_self (hp : (p.annotations? t).isSome) :
    leveledAt (p.append t as) p = leveledAt t p ++ atLevel p.level as := by
  obtain ⟨old, hold⟩ := Option.isSome_iff_exists.1 hp
  rw [leveledAt, leveledAt, NodePath.annotations?_append, hold]
  simp [leveled, atLevel_append]

/-- An addition to a node adds just its own annotations to the listing. -/
theorem allAnnotations_append_perm (hp : (p.annotations? t).isSome) :
    (p.append t as).allAnnotations.Perm (t.allAnnotations ++ atLevel p.level as) := by
  have hn := NodePath.nodup_subtree_proposal t
  obtain ⟨before, after, hsplit⟩ :=
    List.append_of_mem (NodePath.mem_subtree_proposal_iff.2 hp)
  rw [hsplit, List.nodup_append, List.nodup_cons] at hn
  obtain ⟨_, ⟨hafter, _⟩, hbefore⟩ := hn
  have hothers : ∀ qs : List NodePath, p ∉ qs →
      qs.flatMap (leveledAt (p.append t as)) = qs.flatMap (leveledAt t) := fun qs hqs ↦
    List.flatMap_congr fun q hq ↦ leveledAt_append_of_ne fun hpq ↦ hqs (hpq ▸ hq)
  have hstart := hothers before fun hmem ↦ hbefore p hmem p List.mem_cons_self rfl
  rw [allAnnotations_eq_flatMap, allAnnotations_eq_flatMap,
    NodePath.subtree_eq_of_decoded_eq (NodePath.decoded_append t as p), hsplit]
  simp only [List.flatMap_append, List.flatMap_cons, hstart, hothers after hafter,
    leveledAt_append_self hp, List.append_assoc]
  exact ((List.perm_append_comm).append_left _).append_left _

theorem allAnnotations_ofDecoded (d : DecodedProposal) : (ofDecoded d).allAnnotations = [] := by
  rw [allAnnotations_eq_flatMap, List.flatMap_eq_nil_iff]
  intro q _
  cases hq : q.annotations? (ofDecoded d) with
  | none => rw [leveledAt, hq]; rfl
  | some old =>
      obtain rfl := NodePath.annotations?_ofDecoded hq
      rw [leveledAt, hq]
      rfl

namespace Progress

variable {timeoutMs : UInt64} {x : ExecutionContext} {base pr : Progress} {ls : List LevelRun}

/-- The records count the annotations of the tree. -/
def Counted (pr : Progress) : Prop :=
  pr.tree.allAnnotations.length = (pr.outcomes.map fun o ↦ o.outcome.annotationCount).sum

theorem counted_initial (numbers : TaskNumbers) (plan : Plan) (d : DecodedProposal) :
    (initial numbers plan d).Counted := by
  rw [Counted, initial, allAnnotations_ofDecoded]
  rfl

theorem Counted.contribute (h : pr.Counted) (hp : (p.annotations? pr.tree).isSome)
    (c : Contribution) : (pr.contribute timeoutMs p c).Counted := by
  have hrecord : (c.record timeoutMs pr.numbers p).outcome.annotationCount =
      c.stamped.length := by
    rw [Contribution.record, Outcome.annotationCount_outcome, Contribution.stamped,
      List.length_map]
  rw [Counted] at h
  rw [Counted, Progress.contribute, (allAnnotations_append_perm hp).length_eq, List.length_append,
    h, List.map_append, List.sum_append, List.map_singleton, List.sum_singleton, hrecord, atLevel,
    List.length_map]

theorem Counted.contributeAll (h : pr.Counted) (hp : (p.annotations? pr.tree).isSome)
    (cs : List Contribution) : (pr.contributeAll timeoutMs p cs).Counted := by
  induction cs generalizing pr with
  | nil => exact h
  | cons c cs ih =>
      apply ih (h.contribute hp c)
      simpa [Progress.contribute, NodePath.annotations?_append] using hp

theorem Counted.absorb {l : LevelRun} {s : LevelStep} (h : pr.Counted)
    (hstart : LevelRun.start? x pr.tree s = some l.unstarted) :
    (pr.absorb timeoutMs l).Counted := by
  have hp : (l.path.annotations? pr.tree).isSome := by
    obtain ⟨scope, target, hresolve, _⟩ := LevelRun.start?_eq_some_iff.1 hstart
    rw [← LevelRun.path_step, LevelRun.step_of_start? hstart, ← NodePath.isSome_resolve, hresolve]
    rfl
  rw [absorb_eq]
  exact h.contributeAll hp l.contributions

/-- The records keep counting the annotations from level to level. -/
theorem Counted.taken (h : base.Counted) (ht : Taken timeoutMs x base ls pr) : pr.Counted := by
  induction ht with
  | nil => exact h
  | @snoc ls p s rest l _ _ hstart _ ih =>
      have hcounted : { p with node := NodeScope.resolve p.tree s.path, pending := rest }.Counted :=
        ih
      exact hcounted.absorb hstart

end Progress

/-- A finished run has recorded as many annotations as its tree lists. -/
theorem length_allAnnotations_of_finished {e : Engine} {r : Nat} {u w : World} {rep : Report}
    (hu : u.phase? r = some .starting) (huw : World.Steps e u w)
    (hw : w.phase? r = some (.finished (.ok rep))) :
    rep.tree.allAnnotations.length =
      (rep.outcomes.map fun o ↦ o.outcome.annotationCount).sum := by
  obtain ⟨_, plan, _, _, _, _, hacc⟩ := World.exists_account_of_steps hu huw hw
  exact (Progress.counted_initial _ plan _).taken hacc.taken

/-- The flat listing goes along the paths of the tree, it is what a store at the root shows to one
who may see everything that names its analyzer, and a finished run has counted it. -/
theorem flat_listing_agrees (t : AnalyzedProposal) :
    (t.allAnnotations = (NodePath.subtree t .proposal).flatMap fun q ↦
      ((q.annotations? t).getD []).map fun a ↦ (q.level, a)) ∧
    (∀ q ∈ NodePath.subtree t .proposal, (q.annotations? t).isSome) ∧
    (∀ deps, (∀ x ∈ t.allAnnotations, ∀ id, x.2.analyzer = some id → id ∈ deps) →
      (DependencyStore.collect t .proposal deps).annotations =
        (t.allAnnotations.map Prod.snd).filter (fun a ↦ a.analyzer.isSome)) ∧
    ∀ (e : Engine) (r : Nat) (u w : World) (rep : Report), u.phase? r = some .starting →
      World.Steps e u w → w.phase? r = some (.finished (.ok rep)) → rep.tree = t →
      t.allAnnotations.length = (rep.outcomes.map fun o ↦ o.outcome.annotationCount).sum := by
  refine ⟨allAnnotations_eq_flatMap t, fun q ↦ NodePath.mem_subtree_proposal_iff.1,
    fun _ ↦ DependencyStore.annotations_collect_proposal, ?_⟩
  rintro e r u w rep hu huw hw rfl
  exact length_allAnnotations_of_finished hu huw hw

namespace Payment

/-- The tree of the report with a note of the root that names no analyzer. -/
def annotated : AnalyzedProposal := NodePath.append report.tree [Sparse.note none] .proposal

theorem flat_listing_agrees_of_payment :
    (DependencyStore.collect annotated .proposal ["tagger"]).annotations.length = 2 ∧
      annotated.allAnnotations.length = 3 ∧
      (DependencyStore.collect annotated .proposal ["tagger"]).annotations =
        (annotated.allAnnotations.map Prod.snd).filter (fun a ↦ a.analyzer.isSome) ∧
      report.tree.allAnnotations.length = 2 ∧
      report.tree.allAnnotations.length =
        (report.outcomes.map fun o ↦ o.outcome.annotationCount).sum := by
  obtain ⟨_, _, hstore, _⟩ := flat_listing_agrees annotated
  obtain ⟨_, _, _, hrun⟩ := flat_listing_agrees report.tree
  exact ⟨rfl, rfl, hstore ["tagger"] (by decide), rfl,
    hrun engine 0 _ _ report rfl steps_ended phase_ended rfl⟩

end Payment

end Timelock
