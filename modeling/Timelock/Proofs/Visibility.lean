import Timelock.Proofs.RunAccount
import Timelock.Proofs.StepOrder

/-!
# What analyzers see

The store that a task is given holds what its dependencies have left on its node and below it by
the start of the level.  No later level adds to it, so it is the store of the final tree.
-/

namespace Timelock

variable {e : Engine} {r : Nat} {numbers : TaskNumbers} {plan : Plan} {c : ExecutionContext}
  {u v w : World} {ws : List World} {ls : List LevelRun} {base p : Progress} {l : LevelRun}
  {timeoutMs : UInt64} {path : NodePath} {deps : List String}

namespace DependencyStore

theorem allowed_iff {n : Annotation} :
    allowed deps n = true ↔ ∃ id ∈ deps, n.analyzer = some id := by
  unfold allowed
  split
  next id hid => simp [hid]
  next hnone => simp [hnone]

/-- A store reads the tree on the subtree of its path only, and there only the dependencies. -/
theorem collect_congr {t u : AnalyzedProposal} (h : t.decoded = u.decoded)
    (hq : ∀ q ∈ path.subtree t, ((q.annotations? t).getD []).filter (allowed deps) =
      ((q.annotations? u).getD []).filter (allowed deps)) :
    collect t path deps = collect u path deps := by
  have hsub := NodePath.subtree_eq_of_decoded_eq h path
  simp only [collect, mk.injEq, true_and, ← hsub]
  apply List.flatMap_congr
  intro q hmem
  rw [nodeEntries, nodeEntries, hq q hmem]

/-- A store holds exactly what the dependencies have left on a node and below it. -/
theorem mem_entries_collect {t : AnalyzedProposal} {n : ScopedAnnotation} :
    n ∈ (collect t path deps).entries ↔ n.path ∈ path.subtree t ∧
      n.content ∈ (n.path.annotations? t).getD [] ∧
      ∃ id ∈ deps, n.content.analyzer = some id := by
  simp only [collect, nodeEntries, List.mem_flatMap, List.mem_map, List.mem_filter, allowed_iff]
  constructor
  · rintro ⟨q, hq, m, ⟨hm, hallowed⟩, rfl⟩
    exact ⟨hq, hm, hallowed⟩
  · rintro ⟨hq, hm, hallowed⟩
    exact ⟨n.path, hq, n.content, ⟨hm, hallowed⟩, rfl⟩

end DependencyStore

namespace Progress.Taken

theorem analyzer_of_mem_stamped {q : NodePath} {n : Annotation}
    (h : n ∈ (ls.filter (fun l ↦ l.path = q)).flatMap LevelRun.stamped) :
    ∃ l ∈ ls, l.path = q ∧ ∃ a ∈ l.step.analyzers, n.analyzer = some a.id := by
  obtain ⟨l, hl, hn⟩ := List.mem_flatMap.1 h
  obtain ⟨hl, hq⟩ := List.mem_filter.1 hl
  exact ⟨l, hl, by simpa using hq, LevelRun.analyzer_of_mem_stamped hn⟩

/-- Levels without dependencies in the subtree leave a store as it is. -/
theorem collect_eq (h : Taken timeoutMs c base ls p)
    (hout : ∀ l ∈ ls, l.path ∈ path.subtree base.tree →
      ∀ a ∈ l.step.analyzers, a.id ∉ deps) :
    DependencyStore.collect base.tree path deps = DependencyStore.collect p.tree path deps := by
  apply DependencyStore.collect_congr h.decoded_eq.symm
  intro q hq
  rw [h.annotations?_eq q]
  cases q.annotations? base.tree with
  | none => rfl
  | some old =>
      simp only [Option.map_some, Option.getD_some, List.filter_append]
      rw [List.self_eq_append_right]
      apply List.filter_eq_nil_iff.2
      intro n hn hallowed
      obtain ⟨l, hl, rfl, a, ha, hid⟩ := analyzer_of_mem_stamped hn
      obtain ⟨id, hdep, hid'⟩ := DependencyStore.allowed_iff.1 hallowed
      obtain rfl : a.id = id := Option.some.inj (hid.symm.trans hid')
      exact hout l hl hq a ha hdep

end Progress.Taken

namespace Account

theorem map_step_eq (h : Account e r numbers plan c ws ls p none) (hp : p.pending = []) :
    ls.map LevelRun.step = plan.steps (.ofDecoded c.decoded) := by
  simpa [Progress.initial, hp] using h.taken.pending_eq.symm

/-- The store of a task is the one that the final tree would give it. -/
theorem dependencies_eq (hplan : e.registry.plan = .ok plan)
    (h : Account e r numbers plan c ws ls p none) (hp : p.pending = []) (hl : l ∈ ls) {t : Task}
    (ht : t ∈ l.tasks) :
    t.context.dependencies = .collect p.tree l.path t.analyzer.dependencies ∧
      ∃ target, NodeScope.resolve p.tree l.path = some (t.context.scope, target) ∧
        t.invocation = t.analyzer.invocation t.context target := by
  obtain ⟨pre, post, rfl⟩ := List.append_of_mem hl
  obtain ⟨q, hbefore, hstart, hafter⟩ := h.taken.split
  obtain ⟨scope, target, hscope, hcontext, hinvocation⟩ := LevelRun.task_of_start? hstart ht
  have hinitial : q.tree.decoded = (AnalyzedProposal.ofDecoded c.decoded).decoded :=
    hbefore.decoded_eq
  have hlater : ∀ k ∈ l :: post, k.path ∈ l.path.subtree q.tree →
      ∀ a ∈ k.step.analyzers, a.id ∉ t.analyzer.dependencies := by
    have hsteps := h.map_step_eq hp
    rw [List.map_append, List.map_cons] at hsteps
    have hmem : l.step ∈ plan.steps (.ofDecoded c.decoded) := by simp [← hsteps]
    have hpair := Plan.pairwise_steps hplan (.ofDecoded c.decoded)
    rw [← hsteps, List.pairwise_append, List.pairwise_cons] at hpair
    have hanalyzer : t.analyzer ∈ l.step.analyzers := List.mem_map_of_mem ht
    intro k hk hsub a ha
    rw [NodePath.subtree_eq_of_decoded_eq hinitial] at hsub
    rcases List.mem_cons.1 hk with rfl | hk
    · exact (Plan.proper_of_mem_steps hplan hmem).independent _ hanalyzer a ha
    · exact (hpair.2.1.1 k.step (List.mem_map_of_mem hk)).unseen hsub _ hanalyzer a ha
  have hstore := hafter.collect_eq hlater
  refine ⟨by rw [hcontext, ← hstore, LevelRun.path_step], target, ?_, hinvocation⟩
  rw [← NodePath.resolve_eq_of_decoded_eq hafter.decoded_eq.symm, hcontext, ← hscope,
    LevelRun.path_step]

end Account

/-- Whenever a task of a run that ends well is in flight, it has been given the store of the final
tree: everything that its dependencies leave in its subtree, and nothing else. -/
theorem dependencies_eq_collect_of_finished {rep : Report} {t : Task}
    (hu : u.phase? r = some .starting) (huv : World.Steps e u v) (hv : v.level? r = some l)
    (ht : t ∈ l.tasks) (hvw : World.Steps e v w) (hw : w.phase? r = some (.finished (.ok rep))) :
    t.context.dependencies = .collect rep.tree l.path t.analyzer.dependencies ∧
      (∃ target, NodeScope.resolve rep.tree l.path = some (t.context.scope, target) ∧
        t.invocation = t.analyzer.invocation t.context target) ∧
      ∀ n, n ∈ t.context.dependencies.entries ↔ n.path ∈ l.path.subtree rep.tree ∧
        n.content ∈ (n.path.annotations? rep.tree).getD [] ∧
        ∃ id ∈ t.analyzer.dependencies, n.content.analyzer = some id := by
  obtain ⟨ws, hpre, hws⟩ := World.History.start.exists_extend huv
  obtain ⟨ws', hpre', hws'⟩ := hws.exists_extend hvw
  obtain ⟨plan, ls, _, hplan, hacc⟩ := hws'.exists_account hu hw
  obtain ⟨l', hl', hcont⟩ := hacc.kept v (hpre'.subset hws.last_mem) l hv
  have hmem : t.unstarted ∈ l'.unstarted.tasks := hcont.unstarted ▸ List.mem_map_of_mem ht
  obtain ⟨t', ht', heq⟩ := List.mem_map.1 hmem
  have hstore := hacc.dependencies_eq hplan rfl (by simpa using hl') ht'
  obtain ⟨hanalyzer, hcontext, hinvocation⟩ := Task.eq_of_unstarted_eq heq
  rw [hanalyzer, hcontext, hinvocation, hcont.path_eq] at hstore
  refine ⟨hstore.1, hstore.2, ?_⟩
  intro n
  rw [hstore.1]
  exact DependencyStore.mem_entries_collect

/-! ## Two analyzers of one node -/

namespace Pair

def writer : Analyzer :=
  { id := "writer"
    level := .proposal
    analyze := fun _ _ ↦
      .result (.answered (.ok [{ Annotation.valueType "text" with analyzer := some "reader" }])) }

def reader : Analyzer :=
  { id := "reader"
    level := .proposal
    dependencies := ["writer"]
    analyze := fun x _ ↦ .result (.answered (.ok x.dependencies.annotations)) }

def registry : Registry := ⟨[reader, writer], by decide⟩

def twoLevels : Plan :=
  ⟨[⟨.parameter, []⟩, ⟨.call, []⟩, ⟨.batchOperation, []⟩, ⟨.proposal, [[writer], [reader]]⟩]⟩

theorem pass_registry : registry.pass [] .proposal = .ok ⟨.proposal, [[writer], [reader]]⟩ :=
  Registry.pass_eq_ok_of_order (Declaration.order_pair (by decide)) (by decide) rfl rfl

theorem plan_registry : registry.plan = .ok twoLevels :=
  Registry.plan_eq_ok_of_proposals rfl rfl rfl pass_registry

def loader : EnvironmentLoader := fun domain name _ ↦ .result (.ok ⟨domain, name, .empty, .empty⟩)

def engine (bound : Option UInt64) (registry : Registry) : Engine :=
  { config := { maxConcurrency := bound }
    registry := registry
    loader := loader
    decoder := fun _ _ _ ↦ .result (.ok ⟨[]⟩) }

def job : Job := ⟨"domain", "environment", { operations := [] }⟩

def world (phase : Phase) : World :=
  { runs := [{ job := job, token := 0, numbers := fun _ _ ↦ 0, phase := phase }] }

theorem steps_planned {e : Engine} {plan : Plan} (hplan : e.registry.plan = .ok plan) :
    World.Steps e (world .starting) (world (.planned plan)) := by
  refine .single (.move (.run 0) _ ?_)
  simp only [World.move?, World.moveRun?, world, Phase.advance?, hplan, List.getElem?_cons_zero]
  rfl

/-- Moves from the plan to the start of the first level. -/
def prelude : List Thread := [.run 0, .run 0, .run 0, .run 0, .run 0]

/-- Moves of a level with one task, to the start of the next level or the end. -/
def level : List Thread := [.task 0 0, .task 0 0, .task 0 0, .run 0, .run 0]

def writing (bound : Option UInt64) : World :=
  (world (.planned twoLevels)).after (engine bound registry) prelude

def reading (bound : Option UInt64) : World := (writing bound).after (engine bound registry) level

def ended (bound : Option UInt64) : World := (reading bound).after (engine bound registry) level

theorem steps_writing (bound : Option UInt64) :
    World.Steps (engine bound registry) (world .starting) (writing bound) :=
  (steps_planned (e := engine bound registry) plan_registry).trans (World.steps_after _ _ _)

theorem steps_reading (bound : Option UInt64) :
    World.Steps (engine bound registry) (world .starting) (reading bound) :=
  (steps_writing bound).trans (World.steps_after _ _ _)

theorem dependencies_eq_collect_of_reader :
    ∃ l t rep, (reading none).level? 0 = some l ∧ t ∈ l.tasks ∧
      (ended none).phase? 0 = some (.finished (.ok rep)) ∧
      t.context.dependencies = .collect rep.tree .proposal ["writer"] ∧
      t.context.dependencies.size = 1 := by
  refine ⟨_, _, _, rfl, List.mem_singleton.2 rfl, rfl, ?_, rfl⟩
  exact (dependencies_eq_collect_of_finished (r := 0) rfl (steps_reading none) rfl
    (List.mem_singleton.2 rfl) (World.steps_after _ _ level) rfl).1

end Pair

end Timelock
