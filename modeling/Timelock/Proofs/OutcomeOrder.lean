import Mathlib.Algebra.GroupWithZero.Nat
import Timelock.Proofs.Schedule
import Timelock.Proofs.Visibility

/-!
# The order of outcome records

The records of a finished run are the visits of its plan: pass by pass, node by node and level by
level.  So every analyzer has one record for each node of its level, a node comes after everything
below it, and the summary counts them all.
-/

namespace Timelock

variable {e : Engine} {r : Nat} {numbers : TaskNumbers} {c : ExecutionContext} {u w : World}
  {ws : List World} {ls : List LevelRun} {q : Progress} {reg : Registry} {plan : Plan}
  {t : AnalyzedProposal} {a : Analyzer} {l : Level} {p : NodePath}

/-! ## The visits of a plan -/

namespace LevelStep

/-- The analyzers of a step, each with the node that it is started on. -/
def visits (s : LevelStep) : List (String × NodePath) := s.analyzers.map fun a ↦ (a.id, s.path)

end LevelStep

namespace Plan

/-- Which analyzers are started on which nodes: pass by pass, node by node, level by level. -/
def visits (plan : Plan) (t : AnalyzedProposal) : List (String × NodePath) :=
  Level.passOrder.flatMap fun l ↦ (NodePath.allAt t l).flatMap fun p ↦
    (plan.levelsOf l).flatMap fun as ↦ as.map fun a ↦ (a.id, p)

theorem levelsOf_level (h : reg.plan = .ok plan) {x : Pass} (hx : x ∈ plan.passes) :
    plan.levelsOf x.level = x.levels := by
  obtain ⟨pre, y, post, hsplit, hlevel, hlevels, hout⟩ := exists_pass h x.level
  have hmem : x ∈ pre ++ y :: post := hsplit ▸ hx
  rw [List.perm_middle.mem_iff, List.mem_cons] at hmem
  rcases hmem with rfl | hmem
  · exact hlevels
  · exact absurd rfl (hout x hmem)

theorem flatMap_visits_steps (h : reg.plan = .ok plan) (t : AnalyzedProposal) :
    (plan.steps t).flatMap LevelStep.visits = plan.visits t := by
  rw [steps_eq_flatMap, List.flatMap_assoc, visits, ← map_level_passes h, List.flatMap_map]
  apply List.flatMap_congr
  intro x hx
  rw [Pass.steps, List.flatMap_assoc, levelsOf_level h hx]
  apply List.flatMap_congr
  intro p _
  rw [Pass.stepsAt, List.flatMap_map]
  rfl

theorem visits_eq_flatten (plan : Plan) (t : AnalyzedProposal) :
    plan.visits t = Level.passOrder.flatMap fun l ↦ (NodePath.allAt t l).flatMap fun p ↦
      (plan.levelsOf l).flatten.map fun a ↦ (a.id, p) := by
  simp only [visits, List.map_flatten, List.flatMap_def]

theorem levelsOf_perm (h : reg.plan = .ok plan) (l : Level) :
    (plan.levelsOf l).flatten.Perm (reg.ofLevel l) := by
  obtain ⟨pre, x, post, hsplit, rfl, hlevels, _⟩ := exists_pass h l
  have hx : x ∈ plan.passes := by simp [hsplit]
  exact hlevels ▸ flatten_levels_perm (arranges_of_mem_passes h hx)

theorem mem_visits_iff (h : reg.plan = .ok plan) {id : String} :
    (id, p) ∈ plan.visits t ↔
      ∃ a ∈ reg.analyzers, a.id = id ∧ a.level = p.level ∧ (p.annotations? t).isSome := by
  simp only [visits_eq_flatten, List.mem_flatMap, List.mem_map, Prod.mk.injEq, mem_levelsOf h]
  constructor
  · rintro ⟨l, _, q, hq, a, ⟨ha, rfl⟩, rfl, rfl⟩
    have hlevel := NodePath.level_of_mem_allAt hq
    exact ⟨a, ha, rfl, hlevel.symm, NodePath.mem_allAt_iff.1 (hlevel ▸ hq)⟩
  · rintro ⟨a, ha, rfl, hlevel, hp⟩
    exact ⟨a.level, Level.mem_passOrder _, p, hlevel ▸ NodePath.mem_allAt_iff.2 hp, a, ⟨ha, rfl⟩,
      rfl, rfl⟩

/-- An analyzer visits the nodes of its level, each of them once. -/
theorem filter_visits (h : reg.plan = .ok plan) (ha : a ∈ reg.analyzers) :
    (plan.visits t).filter (fun x ↦ x.1 = a.id) =
      (NodePath.allAt t a.level).map fun p ↦ (a.id, p) := by
  have hother : ∀ b ∈ reg.analyzers, b ≠ a → b.id ≠ a.id := fun b hb hne hid ↦
    hne (Registry.eq_of_id_eq hb ha hid)
  have hnode : ∀ p : NodePath, ((plan.levelsOf a.level).flatten.map fun b ↦ (b.id, p)).filter
      (fun x ↦ x.1 = a.id) = [(a.id, p)] := by
    intro p
    rw [List.map_eq_flatMap,
      filter_flatMap_eq_of_nodup (nodup_levelsOf h a.level) ((mem_levelsOf h).2 ⟨ha, rfl⟩)]
    · simp
    · intro b hb hne
      simpa using hother b ((mem_levelsOf h).1 hb).1 hne
  rw [visits_eq_flatten,
    filter_flatMap_eq_of_nodup Level.nodup_passOrder (Level.mem_passOrder a.level)]
  · rw [List.filter_flatMap]
    simp only [hnode]
    exact List.map_eq_flatMap.symm
  · -- An analyzer of another level has another name.
    intro l _ hl
    apply List.filter_eq_nil_iff.2
    simp only [List.mem_flatMap, List.mem_map, mem_levelsOf h, decide_eq_true_eq]
    rintro _ ⟨p, _, b, ⟨hb, hlevel⟩, rfl⟩
    exact hother b hb fun hba ↦ hl (hlevel ▸ congrArg Analyzer.level hba)

theorem length_visits (h : reg.plan = .ok plan) :
    (plan.visits t).length =
      (Level.passOrder.map fun l ↦ t.decoded.nodeCount l * (reg.ofLevel l).length).sum := by
  rw [visits_eq_flatten, List.length_flatMap]
  congr 1
  apply List.map_congr_left
  intro l _
  rw [List.length_flatMap]
  simp only [List.length_map, (levelsOf_perm h l).length_eq, List.map_const',
    List.sum_replicate_nat, NodePath.length_allAt]

theorem pairwise_rank_visits (plan : Plan) (t : AnalyzedProposal) :
    (plan.visits t).Pairwise fun x y ↦ y.2.level.rank ≤ x.2.level.rank := by
  have hlevel : ∀ l, ∀ x ∈ (NodePath.allAt t l).flatMap (fun p ↦
      (plan.levelsOf l).flatten.map fun a ↦ (a.id, p)), x.2.level = l := by
    simp only [List.mem_flatMap, List.mem_map]
    rintro l _ ⟨p, hp, a, _, rfl⟩
    exact NodePath.level_of_mem_allAt hp
  have horder : Level.passOrder.Pairwise fun l m ↦ m.rank ≤ l.rank := by decide
  rw [visits_eq_flatten, List.pairwise_flatMap]
  constructor
  · intro l _
    apply List.pairwise_of_forall_mem_list
    intro x hx y hy
    rw [hlevel l x hx, hlevel l y hy]
  · apply horder.imp
    intro l m hlm x hx y hy
    rwa [hlevel l x hx, hlevel m y hy]

/-- After a node nothing below it is visited any more. -/
theorem pairwise_visits (plan : Plan) (t : AnalyzedProposal) :
    (plan.visits t).Pairwise fun x y ↦ y.2 ∈ x.2.subtree t → y.2 = x.2 := by
  apply (pairwise_rank_visits plan t).imp
  intro x y hrank hsub
  rcases NodePath.eq_or_rank_lt_of_mem_subtree hsub with heq | hlt
  · exact heq
  · exact absurd hrank (Nat.not_le.2 hlt)

end Plan

/-! ## What is recorded -/

namespace OutcomeRecord

/-- The analyzer and the node of a record. -/
def visit (o : OutcomeRecord) : String × NodePath := (o.analyzer, o.path)

end OutcomeRecord

namespace LevelRun

variable {k : LevelRun} {timeoutMs : UInt64}

def records (timeoutMs : UInt64) (numbers : TaskNumbers) (k : LevelRun) : List OutcomeRecord :=
  k.contributions.map (Contribution.record timeoutMs numbers k.path)

/-- A level that is over has a record for each of its analyzers, in their order. -/
theorem map_visit_records (h : k.isOver = true) :
    (k.records timeoutMs numbers).map OutcomeRecord.visit = k.step.visits := by
  have htask : ∀ t ∈ k.tasks, t.contribution?.map (fun c ↦ (c.analyzer, k.path)) =
      some (t.analyzer.id, k.path) := by
    intro t ht
    obtain ⟨result, ms, hs⟩ := Task.hasEnded_iff.1 (List.all_eq_true.1 h t ht)
    rw [Task.contribution?_of_state hs]
    rfl
  calc (k.records timeoutMs numbers).map OutcomeRecord.visit
      = k.contributions.map (fun c ↦ (c.analyzer, k.path)) := by
        rw [records, List.map_map]
        rfl
    _ = k.tasks.map (fun t ↦ (t.analyzer.id, k.path)) := by
        rw [contributions, List.map_filterMap, List.filterMap_congr htask]
        exact congrFun List.filterMap_eq_map k.tasks
    _ = k.step.visits := by
        rw [LevelStep.visits, step, List.map_map]
        rfl

end LevelRun

namespace Account

theorem map_visit_outcomes (hplan : e.registry.plan = .ok plan)
    (h : Account e r numbers plan c ws ls q none) (hq : q.pending = []) :
    q.outcomes.map OutcomeRecord.visit = plan.visits q.tree := by
  have houtcomes : q.outcomes =
      ls.flatMap (LevelRun.records e.config.analyzerTimeoutMs numbers) := h.taken.outcomes_eq
  have hdecoded : q.tree.decoded = (AnalyzedProposal.ofDecoded c.decoded).decoded :=
    h.taken.decoded_eq
  calc q.outcomes.map OutcomeRecord.visit
      = ls.flatMap fun k ↦ k.step.visits := by
        rw [houtcomes, List.map_flatMap]
        exact List.flatMap_congr fun k hk ↦ LevelRun.map_visit_records (h.taken.isOver k hk)
    _ = (plan.steps (.ofDecoded c.decoded)).flatMap LevelStep.visits := by
        rw [← h.map_step_eq hq, List.flatMap_map]
    _ = plan.visits (.ofDecoded c.decoded) := Plan.flatMap_visits_steps hplan _
    _ = plan.visits q.tree := by
        simp only [Plan.visits, NodePath.allAt_eq_of_decoded_eq hdecoded]

end Account

namespace OutcomeSummary

def total (s : OutcomeSummary) : Nat := s.succeeded + s.skipped + s.failed + s.timedOut

theorem total_add (s : OutcomeSummary) (o : Outcome) : (s.add o).total = s.total + 1 := by
  cases o <;> simp only [add, total] <;> omega

theorem total_foldl (os : List OutcomeRecord) (s : OutcomeSummary) :
    (os.foldl (fun s x ↦ s.add x.outcome) s).total = s.total + os.length := by
  induction os generalizing s with
  | nil => rfl
  | cons o os ih =>
      rw [List.foldl_cons, ih, total_add, List.length_cons]
      omega

end OutcomeSummary

namespace Report

variable {rep : Report}

theorem total_summary (rep : Report) : rep.summary.total = rep.outcomes.length := by
  rw [summary, OutcomeSummary.total_foldl]
  exact Nat.zero_add _

theorem map_path_outcomesFor (h : rep.outcomes.map OutcomeRecord.visit = plan.visits rep.tree)
    (hplan : reg.plan = .ok plan) (ha : a ∈ reg.analyzers) :
    (rep.outcomesFor a.id).map OutcomeRecord.path = NodePath.allAt rep.tree a.level := by
  calc (rep.outcomesFor a.id).map OutcomeRecord.path
      = ((plan.visits rep.tree).filter (fun x ↦ x.1 = a.id)).map Prod.snd := by
        rw [← h, List.filter_map, List.map_map]
        rfl
    _ = NodePath.allAt rep.tree a.level := by
        rw [Plan.filter_visits hplan ha, List.map_map]
        exact List.map_id _

theorem countP_outcomes_eq_one
    (h : (rep.outcomesFor a.id).map OutcomeRecord.path = NodePath.allAt rep.tree a.level)
    (hp : p ∈ NodePath.allAt rep.tree a.level) :
    rep.outcomes.countP (fun o ↦ o.analyzer = a.id ∧ o.path = p) = 1 := by
  have hcount := List.count_eq_one_of_mem (NodePath.nodup_allAt rep.tree a.level) hp
  rw [← h, List.count_eq_countP, List.countP_map, outcomesFor, List.countP_filter] at hcount
  rw [← hcount]
  apply List.countP_congr
  intro o _
  simp [and_comm]

end Report

/-- The records of a finished run are the visits of its plan: one for every analyzer and node of its
level, each node after all that is below it. -/
theorem outcomes_eq_visits {rep : Report} (hu : u.phase? r = some .starting)
    (huw : World.Steps e u w) (hw : w.phase? r = some (.finished (.ok rep))) :
    ∃ plan, e.registry.plan = .ok plan ∧
      rep.outcomes.map OutcomeRecord.visit = plan.visits rep.tree ∧
      (∀ l, ∀ as ∈ plan.levelsOf l, as.Sublist e.registry.analyzers) ∧
      (∀ a ∈ e.registry.analyzers,
        (rep.outcomesFor a.id).map OutcomeRecord.path = NodePath.allAt rep.tree a.level ∧
        ∀ p, p.level = a.level → p.exists? rep.tree = true →
          rep.outcomes.countP (fun o ↦ o.analyzer = a.id ∧ o.path = p) = 1) ∧
      (∀ o ∈ rep.outcomes, o.path.exists? rep.tree = true ∧
        ∃ a ∈ e.registry.analyzers, a.id = o.analyzer ∧ a.level = o.path.level) ∧
      rep.outcomes.Pairwise
        (fun o o' ↦ o'.path ∈ o.path.subtree rep.tree → o'.path = o.path) ∧
      rep.summary.succeeded + rep.summary.skipped + rep.summary.failed + rep.summary.timedOut =
        (Level.passOrder.map fun l ↦
          rep.tree.decoded.nodeCount l * (e.registry.ofLevel l).length).sum := by
  obtain ⟨_, plan, _, _, _, hplan, hacc⟩ := World.exists_account_of_steps hu huw hw
  have hvisits := hacc.map_visit_outcomes hplan rfl
  refine ⟨plan, hplan, hvisits, fun l as ↦ Plan.sublist_of_mem_levelsOf hplan, ?_, ?_, ?_, ?_⟩
  · intro a ha
    have hpaths := Report.map_path_outcomesFor hvisits hplan ha
    refine ⟨hpaths, fun p hlevel hp ↦ Report.countP_outcomes_eq_one hpaths ?_⟩
    rw [← hlevel]
    exact NodePath.mem_allAt_iff.2 hp
  · intro o ho
    have hmem : o.visit ∈ plan.visits rep.tree := hvisits ▸ List.mem_map_of_mem ho
    obtain ⟨a, ha, hid, hlevel, hp⟩ := (Plan.mem_visits_iff hplan).1 hmem
    exact ⟨hp, a, ha, hid, hlevel⟩
  · have hpairs := plan.pairwise_visits rep.tree
    rwa [← hvisits, List.pairwise_map] at hpairs
  · rw [← Plan.length_visits hplan, ← hvisits, List.length_map, ← rep.total_summary]
    rfl

/-! ## A run with every kind of outcome -/

namespace Payment

def tagger : Analyzer :=
  { id := "tagger"
    level := .parameter
    analyze := fun _ _ ↦ .result (.answered (.ok [.valueType "text"])) }

def sleeper : Analyzer :=
  { id := "sleeper"
    level := .parameter
    dependencies := ["tagger"]
    analyze := fun _ _ ↦ .awaitCancel (.result (.answered (.ok []))) }

def decliner : Analyzer :=
  { id := "decliner"
    level := .call
    consult := some fun _ _ ↦ .result .declines
    analyze := fun _ _ ↦ .result (.answered (.ok [])) }

def breaker : Analyzer :=
  { id := "breaker"
    level := .proposal
    analyze := fun _ _ ↦ .result (.panicked (some "broken")) }

def registry : Registry := ⟨[sleeper, breaker, decliner, tagger], by decide⟩

def fourPasses : Plan :=
  ⟨[⟨.parameter, [[tagger], [sleeper]]⟩, ⟨.call, [[decliner]]⟩, ⟨.batchOperation, []⟩,
    ⟨.proposal, [[breaker]]⟩]⟩

open Declaration in
theorem plan_registry : registry.plan = .ok fourPasses := by
  have hparameters : registry.pass [] .parameter = .ok ⟨.parameter, [[tagger], [sleeper]]⟩ :=
    Registry.pass_eq_ok_of_order (order_pair (by decide)) (by decide) rfl rfl
  have hcalls : registry.pass ["sleeper", "tagger"] .call = .ok ⟨.call, [[decliner]]⟩ :=
    Registry.pass_eq_ok_of_order (order_singleton "decliner") (by decide) rfl rfl
  have hproposals : registry.pass ["sleeper", "tagger", "decliner"] .proposal =
      .ok ⟨.proposal, [[breaker]]⟩ :=
    Registry.pass_eq_ok_of_order (order_singleton "breaker") (by decide) rfl rfl
  apply Registry.plan_eq_ok_iff.2
  exact Registry.passes_cons_eq_ok_iff.2 ⟨_, _, rfl, hparameters, Registry.passes_cons_eq_ok_iff.2
    ⟨_, _, rfl, hcalls, Registry.passes_cons_eq_ok_iff.2 ⟨_, _, rfl, rfl,
      Registry.passes_cons_eq_ok_iff.2 ⟨_, _, rfl, hproposals, rfl⟩⟩⟩⟩

def call : DecodedCall :=
  { address := "0x01"
    method := "pay"
    inputs := [⟨"to", "address", .null⟩]
    outputs := [⟨"done", "bool", .null⟩] }

def engine : Engine :=
  { config := { analyzerTimeoutMs := 0, maxConcurrency := some 1 }
    registry := registry
    loader := Pair.loader
    decoder := fun _ _ _ ↦ .result (.ok ⟨[⟨1, [call]⟩]⟩) }

/-- Moves of a level with one task, none of which needs more than four. -/
def level : List Thread := List.replicate 4 (.task 0 0) ++ [.run 0, .run 0]

def ended : World :=
  (Pair.world (.planned fourPasses)).after engine
    (Pair.prelude ++ (List.replicate 6 level).flatten)

theorem steps_ended : World.Steps engine (Pair.world .starting) ended :=
  (Pair.steps_planned plan_registry).trans (World.steps_after _ _ _)

def report : Report :=
  { context := ⟨Pair.job.domain, Pair.job.environmentName,
      ⟨Pair.job.domain, Pair.job.environmentName, .empty, .empty⟩, {}, Pair.job.proposal,
      ⟨[⟨1, [call]⟩]⟩⟩
    tree :=
      let tag := { Annotation.valueType "text" with analyzer := some "tagger" }
      let paid : AnalyzedCall :=
        .bare { address := "0x01"
                method := "pay"
                inputs := [⟨⟨"to", "address", .null⟩, [tag]⟩]
                outputs := [⟨⟨"done", "bool", .null⟩, [tag]⟩] }
      Annotated.bare ⟨[.bare ⟨1, [paid]⟩]⟩
    outcomes :=
      [⟨"tagger", .parameter 0 0 .input 0, .succeeded 1, 0⟩,
        ⟨"sleeper", .parameter 0 0 .input 0, .timedOut 0, 0⟩,
        ⟨"tagger", .parameter 0 0 .output 0, .succeeded 1, 0⟩,
        ⟨"sleeper", .parameter 0 0 .output 0, .timedOut 0, 0⟩,
        ⟨"decliner", .call 0 0, .skipped, 0⟩,
        ⟨"breaker", .proposal, .failed (Task.panicText 0 (some "broken")), 0⟩] }

-- The evaluation nests once for each of the moves.
set_option maxRecDepth 8000 in
theorem phase_ended : ended.phase? 0 = some (.finished (.ok report)) := rfl

theorem outcomes_eq_visits_of_payment :
    ∃ plan, registry.plan = .ok plan ∧ ended.phase? 0 = some (.finished (.ok report)) ∧
      report.outcomes.map OutcomeRecord.visit = plan.visits report.tree ∧
      plan.visits report.tree =
        [("tagger", .parameter 0 0 .input 0), ("sleeper", .parameter 0 0 .input 0),
          ("tagger", .parameter 0 0 .output 0), ("sleeper", .parameter 0 0 .output 0),
          ("decliner", .call 0 0), ("breaker", .proposal)] ∧
      report.summary = ⟨2, 1, 1, 2⟩ := by
  obtain ⟨plan, hplan, hvisits, _⟩ := outcomes_eq_visits (r := 0) rfl steps_ended phase_ended
  obtain rfl : fourPasses = plan := Except.ok.inj (plan_registry.symm.trans hplan)
  exact ⟨fourPasses, hplan, phase_ended, hvisits, rfl, rfl⟩

end Payment

end Timelock
