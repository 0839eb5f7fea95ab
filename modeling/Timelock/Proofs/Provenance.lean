import Mathlib.Data.List.Pairwise
import Timelock.Proofs.Course
import Timelock.Proofs.Visibility

/-!
# Where annotations come from

A history tells what every task has returned.  The annotations of a finished run are what its
tasks have returned, attributed to their analyzers, in the order of the plan.
-/

namespace Timelock

open Annotation

variable {e : Engine} {r : Nat} {numbers : TaskNumbers} {plan : Plan} {c : ExecutionContext}
  {u v w : World} {ws : List World} {ls : List LevelRun} {l l' : LevelRun} {t t' : Task}
  {p : NodePath} {id : String} {result : TaskResult} {q : Progress}

namespace Task

def result? (t : Task) : Option TaskResult := t.contribution?.map Contribution.result

theorem result?_eq_some_iff : t.result? = some result ↔ ∃ ms, t.state = .ended result ms := by
  cases hs : t.state <;> simp [result?, contribution?, hs]

end Task

namespace World

/-- What the task of an analyzer on a node has come to, if it is in flight and has ended. -/
def ended? (w : World) (r : Nat) (p : NodePath) (id : String) : Option TaskResult :=
  match w.level? r with
  | some l =>
      if l.path = p then (l.tasks.find? (fun t ↦ t.analyzer.id = id)).bind Task.result? else none
  | none => none

/-- What an analyzer has returned for a node in the course of a history. -/
def returned? (ws : List World) (r : Nat) (p : NodePath) (id : String) : Option TaskResult :=
  ws.findSome? (fun w ↦ w.ended? r p id)

/-- An analyzer has had its task on a node, and in some world of the history the task ends with the
result. -/
def Returns (e : Engine) (ws : List World) (r : Nat) (p : NodePath) (a : Analyzer)
    (result : TaskResult) : Prop :=
  ∃ v ∈ ws, ∃ l t, v.level? r = some l ∧ l.path = p ∧ t ∈ l.tasks ∧ t.analyzer = a ∧
    t.EndsWith e.timeoutMs v.now (v.isRunCancelled r) result

theorem Returns.mono {ws' : List World} {a : Analyzer} (h : Returns e ws r p a result)
    (hws : ws ⊆ ws') : Returns e ws' r p a result := by
  obtain ⟨v, hv, hrest⟩ := h
  exact ⟨v, hws hv, hrest⟩

theorem History.returns (h : History e u ws w) (hu : u.phase? r = some .starting) :
    ∀ v ∈ ws, ∀ l, v.level? r = some l → ∀ t ∈ l.tasks, ∀ result ms, t.state = .ended result ms →
      Returns e ws r l.path t.analyzer result := by
  induction h with
  | start =>
      intro v hv l hl
      obtain rfl := List.mem_singleton.1 hv
      simp [level?, hu, Phase.level?] at hl
  | @step ws w w' hpast hstep ih =>
      have hsub : ws ⊆ ws ++ [w'] := List.subset_append_left _ _
      intro v hv l' hl' t ht result ms hs
      rcases List.mem_append.1 hv with hv | hv
      · exact (ih v hv l' hl' t ht result ms hs).mono hsub
      · obtain rfl := List.mem_singleton.1 hv
        obtain ⟨φ, hφ, _⟩ := hpast.accounted hu
        obtain ⟨x, hx, rfl⟩ := phase?_eq_some_iff.1 hφ
        obtain ⟨y, hy, hfollows⟩ := exists_follows_of_step hstep hx
        rw [level?_of_phase? (phase?_eq_some_iff.2 ⟨y, hy, rfl⟩)] at hl'
        have hlevel := level?_of_phase? hφ
        rcases hfollows.next.task_cases hl' ht with
          ⟨l, hl, hpath, ht⟩ | ⟨l, hl, hpath, k, hk, free, b, hb, rfl⟩ | hwaiting
        · have hold := ih w hpast.last_mem l (hlevel.trans hl) t ht result ms hs
          rw [← hpath]
          exact hold.mono hsub
        · rw [← isRunCancelled_of_getElem? hx] at hb
          have hend := Task.endsWith_of_advance? hb hs
          exact ⟨w, hsub hpast.last_mem, l, k, hlevel.trans hl, hpath, hk, rfl, hend⟩
        · rw [hwaiting] at hs
          cases hs

theorem ended?_eq_some (h : w.ended? r p id = some result) :
    ∃ l t ms, w.level? r = some l ∧ l.path = p ∧ t ∈ l.tasks ∧ t.analyzer.id = id ∧
      t.state = .ended result ms := by
  unfold ended? at h
  split at h
  next l hl =>
    split at h
    next hp =>
      obtain ⟨t, ht, hresult⟩ := Option.bind_eq_some_iff.1 h
      obtain ⟨ms, hs⟩ := Task.result?_eq_some_iff.1 hresult
      exact ⟨l, t, ms, hl, hp, List.mem_of_find?_eq_some ht, by simpa using List.find?_some ht, hs⟩
    · cases h
  · cases h

theorem ended?_of_mem (hl : w.level? r = some l) (ht : t ∈ l.tasks)
    (hn : (l.tasks.map (fun t ↦ t.analyzer.id)).Nodup) :
    w.ended? r l.path t.analyzer.id = t.result? := by
  have hfind : l.tasks.find? (fun k ↦ k.analyzer.id = t.analyzer.id) = some t := by
    cases hf : l.tasks.find? (fun k ↦ k.analyzer.id = t.analyzer.id) with
    | none => simpa using List.find?_eq_none.1 hf t ht
    | some k =>
        have hid : k.analyzer.id = t.analyzer.id := by simpa using List.find?_some hf
        rw [List.inj_on_of_nodup_map hn (List.mem_of_find?_eq_some hf) ht hid]
  simp [ended?, hl, hfind]

end World

/-- The annotations that an analyzer has returned for a node, attributed to it. -/
def stampedOutput (ws : List World) (r : Nat) (p : NodePath) (a : Analyzer) : List Annotation :=
  (((World.returned? ws r p a.id).map TaskResult.annotations).getD []).map
    (fun n ↦ n.producedBy a.id)

namespace LevelRun

/-- Two levels on one node have no two tasks for one analyzer. -/
def Apart (l l' : LevelRun) : Prop :=
  l.path = l'.path → ∀ t ∈ l.tasks, ∀ t' ∈ l'.tasks, t.analyzer.id = t'.analyzer.id → t = t'

instance : Std.Symm Apart :=
  ⟨fun _ _ h hp t ht t' ht' hid ↦ (h hp.symm t' ht' t ht hid.symm).symm⟩

end LevelRun

namespace Account

theorem nodup_ids (hplan : e.registry.plan = .ok plan)
    (h : Account e r numbers plan c ws ls q none) (hq : q.pending = []) (hl : l ∈ ls) :
    (l.tasks.map (fun t ↦ t.analyzer.id)).Nodup := by
  have hmem : l.step ∈ plan.steps (.ofDecoded c.decoded) :=
    h.map_step_eq hq ▸ List.mem_map_of_mem hl
  have hn := (Plan.proper_of_mem_steps hplan hmem).nodup
  rwa [LevelRun.step, List.map_map] at hn

theorem task_unique (hplan : e.registry.plan = .ok plan)
    (h : Account e r numbers plan c ws ls q none) (hq : q.pending = []) :
    ∀ l ∈ ls, ∀ l' ∈ ls, l.Apart l' := by
  have hpair := Plan.pairwise_steps hplan (.ofDecoded c.decoded)
  rw [← h.map_step_eq hq, List.pairwise_map] at hpair
  refine List.Pairwise.forall_of_forall ?_ ?_
  · intro l hl _ t ht t' ht' hid
    exact List.inj_on_of_nodup_map (h.nodup_ids hplan hq hl) ht ht' hid
  · apply hpair.imp
    intro l l' hbefore hp t ht t' ht' hid
    exact absurd hid (hbefore.apart hp _ (List.mem_map_of_mem ht) _ (List.mem_map_of_mem ht'))

/-- The history tells of every task of the account what it has returned. -/
theorem returned?_eq (hplan : e.registry.plan = .ok plan)
    (h : Account e r numbers plan c ws ls q none) (hq : q.pending = []) (hl : l ∈ ls)
    (ht : t ∈ l.tasks) :
    ∃ result ms, t.state = .ended result ms ∧
      World.returned? ws r l.path t.analyzer.id = some result := by
  have hover := h.taken.isOver l hl
  obtain ⟨result, ms, hs⟩ := Task.hasEnded_iff.1 (List.all_eq_true.1 hover t ht)
  refine ⟨result, ms, hs, ?_⟩
  obtain ⟨v, hv, hseen⟩ := h.seen l hl
  have hended : v.ended? r l.path t.analyzer.id = some result :=
    (World.ended?_of_mem hseen ht (h.nodup_ids hplan hq hl)).trans
      (Task.result?_eq_some_iff.2 ⟨ms, hs⟩)
  cases hret : World.returned? ws r l.path t.analyzer.id with
  | none => simp [List.findSome?_eq_none_iff.1 hret v hv] at hended
  | some result' =>
      -- What was seen first is kept by a level of the account, which has the same task.
      obtain ⟨v', hv', hended'⟩ := List.exists_of_findSome?_eq_some hret
      obtain ⟨k, t', ms', hk, hpath, ht', hid, hs'⟩ := World.ended?_eq_some hended'
      obtain ⟨k', hk', hcont⟩ := h.kept v' hv' k hk
      have hmem := hcont.ended t' ht' (Task.hasEnded_iff.2 ⟨result', ms', hs'⟩)
      have hpath' : l.path = k'.path := hpath.symm.trans hcont.path_eq.symm
      have heq := h.task_unique hplan hq l hl k' (by simpa using hk') hpath' t ht t' hmem hid.symm
      rw [heq, hs'] at hs
      injection hs with hresult
      rw [hresult]

theorem stamped_eq (hplan : e.registry.plan = .ok plan)
    (h : Account e r numbers plan c ws ls q none) (hq : q.pending = []) (hl : l ∈ ls) :
    l.stamped = l.step.analyzers.flatMap (stampedOutput ws r l.path) := by
  have htask : ∀ t ∈ l.tasks, t.contribution?.toList.flatMap Contribution.stamped =
      stampedOutput ws r l.path t.analyzer := by
    intro t ht
    obtain ⟨result, ms, hs, hret⟩ := h.returned?_eq hplan hq hl ht
    simp [Task.contribution?_of_state hs, stampedOutput, hret, Contribution.stamped]
  rw [LevelRun.stamped, LevelRun.contributions, LevelRun.step, List.flatMap_map,
    List.filterMap_eq_flatMap_toList, List.flatMap_assoc]
  exact List.flatMap_congr htask

/-- The annotations of a node, level by level and analyzer by analyzer. -/
theorem annotations?_eq (hplan : e.registry.plan = .ok plan)
    (h : Account e r numbers plan c ws ls q none) (hq : q.pending = []) {as : List Annotation}
    (hp : p.annotations? q.tree = some as) :
    as = (plan.levelsOf p.level).flatMap (fun xs ↦ xs.flatMap (stampedOutput ws r p)) := by
  rw [h.taken.annotations?_eq p, Option.map_eq_some_iff] at hp
  obtain ⟨old, hold, rfl⟩ := hp
  obtain rfl := NodePath.annotations?_ofDecoded hold
  have hexists : (p.annotations? (.ofDecoded c.decoded)).isSome := by
    have : p.annotations? (.ofDecoded c.decoded) = some [] := hold
    simp [this]
  have hsteps := Plan.filter_path_steps hplan hexists
  rw [← h.map_step_eq hq, List.filter_map] at hsteps
  have hstamped : ∀ l ∈ ls.filter (fun l ↦ l.path = p),
      l.stamped = l.step.analyzers.flatMap (stampedOutput ws r p) := by
    intro l hl
    obtain ⟨hl, hpath⟩ := List.mem_filter.1 hl
    rw [h.stamped_eq hplan hq hl, of_decide_eq_true hpath]
  calc [] ++ (ls.filter (fun l ↦ l.path = p)).flatMap LevelRun.stamped
      = ((ls.filter (fun l ↦ l.path = p)).map LevelRun.step).flatMap
          (fun s ↦ s.analyzers.flatMap (stampedOutput ws r p)) := by
        rw [List.nil_append, List.flatMap_map]
        exact List.flatMap_congr hstamped
    _ = ((plan.levelsOf p.level).map (fun as ↦ (⟨p, as⟩ : LevelStep))).flatMap
          (fun s ↦ s.analyzers.flatMap (stampedOutput ws r p)) := by
        rw [← hsteps]
        rfl
    _ = (plan.levelsOf p.level).flatMap (fun xs ↦ xs.flatMap (stampedOutput ws r p)) := by
        rw [List.flatMap_map]

theorem mem_outcomes_iff (h : Account e r numbers plan c ws ls q none) {o : OutcomeRecord} :
    o ∈ q.outcomes ↔ ∃ l ∈ ls, ∃ t ∈ l.tasks, ∃ result ms, t.state = .ended result ms ∧
      o = ⟨t.analyzer.id, l.path,
        result.outcome e.config.analyzerTimeoutMs (numbers l.path t.analyzer.id), ms⟩ := by
  rw [h.taken.outcomes_eq]
  simp only [Progress.initial, List.nil_append, List.mem_flatMap, List.mem_map,
    LevelRun.contributions, List.mem_filterMap]
  constructor
  · rintro ⟨l, hl, k, ⟨t, ht, hk⟩, rfl⟩
    have hover := h.taken.isOver l hl
    obtain ⟨result, ms, hs⟩ := Task.hasEnded_iff.1 (List.all_eq_true.1 hover t ht)
    rw [Task.contribution?_of_state hs] at hk
    cases hk
    exact ⟨l, hl, t, ht, result, ms, hs, rfl⟩
  · rintro ⟨l, hl, t, ht, result, ms, hs, rfl⟩
    exact ⟨l, hl, _, ⟨t, ht, Task.contribution?_of_state hs⟩, rfl⟩

theorem exists_task (hplan : e.registry.plan = .ok plan)
    (h : Account e r numbers plan c ws ls q none) (hq : q.pending = [])
    (hp : (p.annotations? q.tree).isSome) {a : Analyzer}
    (ha : a ∈ (plan.levelsOf p.level).flatten) :
    ∃ l ∈ ls, l.path = p ∧ ∃ t ∈ l.tasks, t.analyzer = a := by
  have hexists : (p.annotations? (.ofDecoded c.decoded)).isSome := by
    have hmap := h.taken.annotations?_eq p
    rw [hmap, Option.isSome_map] at hp
    exact hp
  obtain ⟨as, has, ha⟩ := List.mem_flatten.1 ha
  have hmem : (⟨p, as⟩ : LevelStep) ∈ (plan.steps (.ofDecoded c.decoded)).filter
      (fun s ↦ s.path = p) := by
    rw [Plan.filter_path_steps hplan hexists]
    exact List.mem_map_of_mem has
  rw [← h.map_step_eq hq] at hmem
  obtain ⟨l, hl, hstep⟩ := List.mem_map.1 (List.mem_filter.1 hmem).1
  have hanalyzers : l.tasks.map Task.analyzer = as := congrArg LevelStep.analyzers hstep
  obtain ⟨t, ht, hta⟩ := List.mem_map.1 (hanalyzers ▸ ha)
  exact ⟨l, hl, congrArg LevelStep.path hstep, t, ht, hta⟩

theorem analyzer_mem_levelsOf (hplan : e.registry.plan = .ok plan)
    (h : Account e r numbers plan c ws ls q none) (hq : q.pending = []) (hl : l ∈ ls)
    (ht : t ∈ l.tasks) :
    t.analyzer ∈ (plan.levelsOf l.path.level).flatten := by
  have hmem : l.step ∈ plan.steps (.ofDecoded c.decoded) :=
    h.map_step_eq hq ▸ List.mem_map_of_mem hl
  have hproper := Plan.proper_of_mem_steps hplan hmem
  exact (Plan.mem_levelsOf hplan).2 (hproper.registered _ (List.mem_map_of_mem ht))

theorem outcome_eq (hplan : e.registry.plan = .ok plan)
    (h : Account e r numbers plan c ws ls q none) (hq : q.pending = []) {o : OutcomeRecord}
    (ho : o ∈ q.outcomes) :
    ∃ a ∈ (plan.levelsOf o.path.level).flatten, ∃ result, a.id = o.analyzer ∧
      World.returned? ws r o.path a.id = some result ∧
      o.outcome = result.outcome e.config.analyzerTimeoutMs (numbers o.path a.id) := by
  obtain ⟨l, hl, t, ht, result, ms, hs, rfl⟩ := h.mem_outcomes_iff.1 ho
  obtain ⟨result', ms', hs', hret⟩ := h.returned?_eq hplan hq hl ht
  rw [hs] at hs'
  cases hs'
  exact ⟨t.analyzer, h.analyzer_mem_levelsOf hplan hq hl ht, result, rfl, hret, rfl⟩

theorem returns (hhist : World.History e u ws w) (hu : u.phase? r = some .starting)
    (hplan : e.registry.plan = .ok plan)
    (h : Account e r numbers plan c ws ls q none) (hq : q.pending = [])
    (hp : (p.annotations? q.tree).isSome) {a : Analyzer}
    (ha : a ∈ (plan.levelsOf p.level).flatten) :
    ∃ result, World.returned? ws r p a.id = some result ∧ World.Returns e ws r p a result := by
  obtain ⟨l, hl, rfl, t, ht, rfl⟩ := h.exists_task hplan hq hp ha
  obtain ⟨result, ms, hs, hret⟩ := h.returned?_eq hplan hq hl ht
  obtain ⟨v, hv, hseen⟩ := h.seen l hl
  exact ⟨result, hret, hhist.returns hu v hv l hseen t ht result ms hs⟩

theorem exists_outcome (hplan : e.registry.plan = .ok plan)
    (h : Account e r numbers plan c ws ls q none) (hq : q.pending = [])
    (hp : (p.annotations? q.tree).isSome) {a : Analyzer}
    (ha : a ∈ (plan.levelsOf p.level).flatten) :
    ∃ o ∈ q.outcomes, o.path = p ∧ o.analyzer = a.id := by
  obtain ⟨l, hl, rfl, t, ht, rfl⟩ := h.exists_task hplan hq hp ha
  obtain ⟨result, ms, hs, _⟩ := h.returned?_eq hplan hq hl ht
  exact ⟨_, h.mem_outcomes_iff.2 ⟨l, hl, t, ht, result, ms, hs, rfl⟩, rfl, rfl⟩

end Account

namespace Outcome

def annotationCount : Outcome → Nat
  | .succeeded n => n
  | .skipped | .failed _ | .timedOut _ => 0

theorem annotationCount_outcome (result : TaskResult) (timeoutMs : UInt64) (number : Nat) :
    (result.outcome timeoutMs number).annotationCount = result.annotations.length := by
  cases result <;> rfl

end Outcome

theorem flatMap_flatten_stampedOutput (xss : List (List Analyzer)) :
    xss.flatten.flatMap (stampedOutput ws r p) =
      xss.flatMap (fun xs ↦ xs.flatMap (stampedOutput ws r p)) := by
  rw [← List.flatMap_id', List.flatMap_assoc]

theorem analyzer_of_mem_stampedOutput {a : Analyzer} {n : Annotation}
    (h : n ∈ stampedOutput ws r p a) : n.analyzer = some a.id := by
  obtain ⟨m, _, rfl⟩ := List.mem_map.1 h
  rfl

/-- What is found under the name of an analyzer is what it has returned. -/
theorem fromAnalyzer_flatMap_stampedOutput (hplan : e.registry.plan = .ok plan) {k : Level}
    {a : Analyzer} (ha : a ∈ (plan.levelsOf k).flatten) :
    fromAnalyzer
      ((plan.levelsOf k).flatMap (fun xs ↦ xs.flatMap (stampedOutput ws r p))) a.id =
      stampedOutput ws r p a := by
  rw [← flatMap_flatten_stampedOutput, fromAnalyzer,
    filter_flatMap_eq_of_nodup (Plan.nodup_levelsOf hplan k) ha]
  · exact List.filter_eq_self.2 fun n hn ↦ by simp [analyzer_of_mem_stampedOutput hn]
  · intro b hb hne
    refine List.filter_eq_nil_iff.2 fun n hn hid ↦ hne ?_
    rw [decide_eq_true_eq, analyzer_of_mem_stampedOutput hn, Option.some.injEq] at hid
    have hreg := ((Plan.mem_levelsOf hplan).1 hb).1
    exact Registry.eq_of_id_eq hreg ((Plan.mem_levelsOf hplan).1 ha).1 hid

/-- The annotations of a finished run are the stamped outputs of its analyzers, in the order of
the plan, and the records count them. -/
theorem annotations_eq_stampedOutputs {rep : Report} (h : World.History e u ws w)
    (hu : u.phase? r = some .starting) (hw : w.phase? r = some (.finished (.ok rep))) :
    ∃ plan, e.registry.plan = .ok plan ∧ ∀ p as, p.annotations? rep.tree = some as →
      as = (plan.levelsOf p.level).flatMap (fun xs ↦ xs.flatMap (stampedOutput ws r p)) ∧
      (∀ xs ∈ plan.levelsOf p.level, xs.Sublist e.registry.analyzers) ∧
      (∀ a ∈ (plan.levelsOf p.level).flatten, ∃ result,
        World.returned? ws r p a.id = some result ∧ World.Returns e ws r p a result ∧
        (∃ o ∈ rep.outcomes, o.path = p ∧ o.analyzer = a.id) ∧
        ∀ o ∈ rep.outcomes, o.path = p → o.analyzer = a.id →
          o.outcome =
            result.outcome e.config.analyzerTimeoutMs (w.numbers r p a.id)) ∧
      (∀ o ∈ rep.outcomes, o.path = p →
        (fromAnalyzer as o.analyzer).length = o.outcome.annotationCount) ∧
      (∀ id, (∀ o ∈ rep.outcomes, o.path = p → o.analyzer ≠ id) →
        fromAnalyzer as id = []) ∧
      ∀ n ∈ as, ∃ a ∈ e.registry.analyzers, a.level = p.level ∧ n.analyzer = some a.id := by
  obtain ⟨plan, ls, _, hplan, hacc⟩ := h.exists_account hu hw
  refine ⟨plan, hplan, ?_⟩
  intro p as hp
  have has := hacc.annotations?_eq hplan rfl hp
  have hexists : (p.annotations? rep.tree).isSome := by simp [hp]
  have hmem : ∀ n ∈ as, ∃ a ∈ (plan.levelsOf p.level).flatten, n.analyzer = some a.id := by
    intro n hn
    rw [has, ← flatMap_flatten_stampedOutput] at hn
    obtain ⟨a, ha, hn⟩ := List.mem_flatMap.1 hn
    exact ⟨a, ha, analyzer_of_mem_stampedOutput hn⟩
  refine ⟨has, fun xs ↦ Plan.sublist_of_mem_levelsOf hplan, ?_, ?_, ?_, ?_⟩
  · intro a ha
    obtain ⟨result, hret, hreturns⟩ := hacc.returns h hu hplan rfl hexists ha
    have hrecord := hacc.exists_outcome hplan rfl hexists ha
    refine ⟨result, hret, hreturns, hrecord, ?_⟩
    intro o ho hpath hoa
    obtain ⟨b, _, result', hb, hret', houtcome⟩ := hacc.outcome_eq hplan rfl ho
    rw [hb, hoa, hpath, hret] at hret'
    rw [houtcome, hb, hoa, hpath, Option.some.inj hret']
  · intro o ho hpath
    subst hpath
    obtain ⟨a, ha, result, hid, hret, houtcome⟩ := hacc.outcome_eq hplan rfl ho
    rw [← hid, has, fromAnalyzer_flatMap_stampedOutput hplan ha, stampedOutput, hret, houtcome,
      Outcome.annotationCount_outcome]
    simp
  · intro id hid
    apply List.filter_eq_nil_iff.2
    intro n hn hanalyzer
    obtain ⟨a, ha, hna⟩ := hmem n hn
    obtain ⟨o, ho, hpath, hoa⟩ := hacc.exists_outcome hplan rfl hexists ha
    rw [decide_eq_true_eq, hna, Option.some.injEq] at hanalyzer
    exact hid o ho hpath (hoa.trans hanalyzer)
  · intro n hn
    obtain ⟨a, ha, hna⟩ := hmem n hn
    obtain ⟨hreg, hlevel⟩ := (Plan.mem_levelsOf hplan).1 ha
    exact ⟨a, hreg, hlevel, hna⟩

namespace Pair

theorem annotations_eq_stampedOutputs_of_pair :
    ∃ ws plan as, World.History (engine none registry) (world .starting) ws (ended none) ∧
      registry.plan = .ok plan ∧ as.map Annotation.analyzer = [some "writer", some "reader"] ∧
      as = (plan.levelsOf .proposal).flatMap
        (fun xs ↦ xs.flatMap (stampedOutput ws 0 .proposal)) := by
  obtain ⟨ws, _, h⟩ := World.History.start.exists_extend
    ((steps_reading none).trans (World.steps_after _ _ level))
  obtain ⟨plan, hplan, hall⟩ := annotations_eq_stampedOutputs (r := 0) h rfl rfl
  exact ⟨ws, plan, _, h, hplan, rfl, (hall .proposal _ rfl).1⟩

end Pair

end Timelock
